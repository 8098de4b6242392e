import Mathlib
import Ipld.Proofs.Bindings.Reading
import Ipld.Proofs.Repr.Separators

/-!
# Shapes that were read are written again

In a compiled system, writing (`TypeSystem.toRepr`) a shape that reading
(`TypeSystem.fromRepr`) returned fails in one way only (`Document.compile_fromRepr_toRepr`): an
integer standing where a float is expected, beyond what a float holds exactly. The proof is an
induction on the fuel of reading (`readsBack`), one step per kind of target (`readsBack_succ`),
with lemmas for items, entries, fields and members.

What is written need not read back as the shape: a `stringjoin` struct's text can hold the
separator of the struct around it once its integers are written without sign or leading zeros
(`compile_reread_joined_fails`).
-/

namespace Ipld.Repr

open Schema

/-! ## Results that fail only on inexact floats -/

/-- `x` succeeds, or fails only because an integer among `ints` lies beyond what a float
holds exactly. -/
def OkOrInexact {α : Type} (ints : List Int) (x : Except DecodeError α) : Prop :=
  (∃ a, x = .ok a) ∨
    ∃ e i, x = .error e ∧ e.root = .inexactFloat i ∧ i ∈ ints ∧
      ¬(-maxExactFloatInt ≤ i ∧ i ≤ maxExactFloatInt)

section Combinators

variable {α β : Type} {S T : List Int}

theorem okOrInexact_ok (a : α) : OkOrInexact S (.ok a : Except DecodeError α) :=
  .inl ⟨a, rfl⟩

theorem okOrInexact_pure (a : α) : OkOrInexact S (pure a : Except DecodeError α) :=
  okOrInexact_ok a

theorem OkOrInexact.mono {x : Except DecodeError α} (h : OkOrInexact S x) (hsub : S ⊆ T) :
    OkOrInexact T x := by
  rcases h with hok | ⟨e, i, hx, hroot, hi, hrange⟩
  · exact .inl hok
  · exact .inr ⟨e, i, hx, hroot, hsub hi, hrange⟩

theorem OkOrInexact.bind {x : Except DecodeError α} {f : α → Except DecodeError β}
    (hx : OkOrInexact S x) (hf : ∀ a, x = .ok a → OkOrInexact S (f a)) :
    OkOrInexact S (x >>= f) := by
  rcases hx with ⟨a, ha⟩ | ⟨e, i, hx, hroot, hi, hrange⟩
  · rw [ha]
    exact hf a ha
  · rw [hx]
    exact .inr ⟨e, i, rfl, hroot, hi, hrange⟩

/-- Naming the part an error arose in keeps the error's root. -/
theorem OkOrInexact.inPart {x : Except DecodeError α} (c : Context) (h : OkOrInexact S x) :
    OkOrInexact S (Repr.inPart c x) := by
  rcases h with ⟨a, ha⟩ | ⟨e, i, hx, hroot, hi, hrange⟩
  · exact .inl ⟨a, by rw [ha]; rfl⟩
  · refine .inr ⟨.within c e, i, by rw [hx]; rfl, ?_, hi, hrange⟩
    simpa [DecodeError.root] using hroot

theorem okOrInexact_mapM {f : α → Except DecodeError β} :
    ∀ {l : List α}, (∀ a ∈ l, OkOrInexact S (f a)) → OkOrInexact S (l.mapM f)
  | [], _ => okOrInexact_pure _
  | a :: l, h => by
    rw [List.mapM_cons]
    refine (h a List.mem_cons_self).bind fun b _ => ?_
    refine (okOrInexact_mapM fun x hx => h x (List.mem_cons_of_mem a hx)).bind fun bs _ => ?_
    exact okOrInexact_pure _

theorem okOrInexact_filterMapM {f : α → Except DecodeError (Option β)} :
    ∀ {l : List α}, (∀ a ∈ l, OkOrInexact S (f a)) → OkOrInexact S (l.filterMapM f)
  | [], _ => okOrInexact_pure _
  | a :: l, h => by
    rw [List.filterMapM_cons]
    refine (h a List.mem_cons_self).bind fun o _ => ?_
    cases o with
    | none => exact okOrInexact_filterMapM fun x hx => h x (List.mem_cons_of_mem a hx)
    | some b =>
      refine (okOrInexact_filterMapM fun x hx => h x (List.mem_cons_of_mem a hx)).bind
        fun bs _ => ?_
      exact okOrInexact_pure _

end Combinators

/-- The only refusal of a float's writer is an integer beyond what a float holds exactly. -/
theorem okOrInexact_intToFloat (i : Int) : OkOrInexact [i] (intToFloat i) := by
  unfold intToFloat
  split
  · exact okOrInexact_ok _
  · exact .inr ⟨_, i, rfl, rfl, List.mem_singleton_self i, ‹_›⟩

/-! ## What reading returns -/

section Reading

variable {ts : TypeSystem} {go : Ref → Node → Except DecodeError Node}

/-- A value read from text was read from a node. -/
theorem exists_of_fromText {r : Ref} {s : String} {y : Node} (h : fromText ts go r s = .ok y) :
    ∃ x, go r x = .ok y := by
  simp only [fromText] at h
  split at h
  case h_5 => exact ⟨_, h⟩
  all_goals
    obtain ⟨_, -, h⟩ := bind_eq_ok.1 h
    exact ⟨_, h⟩

/-- A key read from an enum's value is a member name, which is written back as a value. -/
theorem keyToRepr_of_keyFromRepr {key k name : String} (h : keyFromRepr ts key k = .ok name) :
    ∃ k', keyToRepr ts key name = .ok k' := by
  unfold keyFromRepr at h
  unfold keyToRepr
  cases hget : ts.get? key with
  | none => exact ⟨name, rfl⟩
  | some t =>
    rw [hget] at h
    cases t with
    | enum members strategy =>
      simp only at h ⊢
      split at h
      · rename_i m hm
        cases h
        have hfound : (members.find? (·.name == m.name)).isSome :=
          List.find?_isSome.2 ⟨m, List.mem_of_find?_eq_some hm, by simp⟩
        obtain ⟨m', hm'⟩ := Option.isSome_iff_exists.1 hfound
        simp [hm']
      · cases h
    | _ => exact ⟨name, rfl⟩

theorem mem_of_lookupEntry {β : Type} {entries : List (String × β)} {key : String} {v : β}
    (h : lookupEntry entries key = some v) : (key, v) ∈ entries := by
  simp only [lookupEntry, Option.map_eq_some_iff] at h
  obtain ⟨e, he, rfl⟩ := h
  have hkey : e.1 = key := by simpa using List.find?_some he
  rw [← hkey]
  exact List.mem_of_find?_eq_some he

theorem lookupEntry_ne_none {β : Type} {entries : List (String × β)} {key : String} {v : β}
    (h : (key, v) ∈ entries) : lookupEntry entries key ≠ none := by
  simp only [lookupEntry, ne_eq, Option.map_eq_none_iff, List.find?_eq_none, not_forall]
  exact ⟨(key, v), h, by simp⟩

theorem linkText_eq_ok {n v : Node} (h : linkText n = .ok v) : ∃ s, v = .string s := by
  cases n <;> simp [linkText, wrongKind] at h
  all_goals exact ⟨_, h.symm⟩

/-- An enum is read as one of its member names. -/
theorem enumFromRepr_read {members : List EnumValue} {strategy : EnumStrategy} {n v : Node}
    (h : enumFromRepr members strategy n = .ok v) : ∃ m ∈ members, v = .string m.name := by
  cases strategy <;> simp only [enumFromRepr] at h <;> obtain ⟨_, -, h⟩ := bind_eq_ok.1 h
  all_goals
    split at h
    · rename_i m hm
      exact ⟨m, List.mem_of_find?_eq_some hm, (pure_eq_ok.1 h).symm⟩
    · exact absurd h throw_ne_ok

/-- A union is read as one of its members, with a value read as the member's type. -/
theorem unionFromRepr_read {members : List UnionMember} {strategy : UnionStrategy} {n v : Node}
    (h : unionFromRepr go (fromText ts go) members strategy n = .ok v) :
    ∃ m ∈ members, ∃ y, v = .map [(m.type, y)] ∧ ∃ x, go (.named m.type) x = .ok y := by
  simp only [unionFromRepr, pure_bind] at h
  cases strategy with
  | keyed =>
    obtain ⟨entries, -, h⟩ := bind_eq_ok.1 h
    split at h
    · obtain ⟨m, hm, h⟩ := bind_eq_ok.1 h
      obtain ⟨y, hy, h⟩ := bind_eq_ok.1 h
      split at hm
      · cases hm
        exact ⟨m, List.mem_of_find?_eq_some ‹_›, y, (pure_eq_ok.1 h).symm, _, hy⟩
      · cases hm
    · exact absurd h throw_ne_ok
  | kinded =>
    obtain ⟨m, hm, h⟩ := bind_eq_ok.1 h
    obtain ⟨y, hy, h⟩ := bind_eq_ok.1 h
    split at hm
    · cases hm
      exact ⟨m, List.mem_of_find?_eq_some ‹_›, y, (pure_eq_ok.1 h).symm, _, hy⟩
    · cases hm
  | inline key =>
    obtain ⟨_, -, h⟩ := bind_eq_ok.1 h
    obtain ⟨_, -, h⟩ := bind_eq_ok.1 h
    obtain ⟨_, -, h⟩ := bind_eq_ok.1 h
    obtain ⟨m, hm, h⟩ := bind_eq_ok.1 h
    obtain ⟨y, hy, h⟩ := bind_eq_ok.1 h
    split at hm
    · cases hm
      exact ⟨m, List.mem_of_find?_eq_some ‹_›, y, (pure_eq_ok.1 h).symm, _, hy⟩
    · cases hm
  | envelope key content =>
    obtain ⟨_, -, h⟩ := bind_eq_ok.1 h
    obtain ⟨_, -, h⟩ := bind_eq_ok.1 h
    obtain ⟨_, -, h⟩ := bind_eq_ok.1 h
    obtain ⟨_, -, h⟩ := bind_eq_ok.1 h
    obtain ⟨m, hm, h⟩ := bind_eq_ok.1 h
    obtain ⟨_, -, h⟩ := bind_eq_ok.1 h
    obtain ⟨y, hy, h⟩ := bind_eq_ok.1 h
    split at hm
    · cases hm
      exact ⟨m, List.mem_of_find?_eq_some ‹_›, y, (pure_eq_ok.1 h).symm, _, hy⟩
    · cases hm
  | stringPrefix =>
    obtain ⟨s, -, h⟩ := bind_eq_ok.1 h
    split at h
    · rename_i m rest hfound
      obtain ⟨y, hy, h⟩ := bind_eq_ok.1 h
      obtain ⟨m', hm', hpre⟩ := List.exists_of_findSome?_eq_some hfound
      obtain ⟨_, -, hpair⟩ := Option.map_eq_some_iff.1 hpre
      cases hpair
      exact ⟨m, hm', y, (pure_eq_ok.1 h).symm, exists_of_fromText hy⟩
    · exact absurd h throw_ne_ok

/-- The entries of a struct's shape, as reading gives them: each belongs to a field and holds
a value that `Read` says was read as the field's type, or null for a nullable field; and
every required field has one. -/
structure FieldsRead (Read : Ref → Node → Prop) (fields : List StructField)
    (out : List (String × Node)) : Prop where
  origin : ∀ e ∈ out, ∃ f ∈ fields, e.1 = f.name ∧
    ((f.nullable = true ∧ e.2 = .null) ∨ Read f.type e.2)
  required : ∀ f ∈ fields, f.optional = false → ∃ y, (f.name, y) ∈ out

theorem exists_step_of_filterMapM_eq_ok {α β ε : Type} {g : α → Except ε (Option β)} :
    ∀ {l : List α} {bs : List β}, l.filterMapM g = .ok bs →
      ∀ a ∈ l, ∃ o, g a = .ok o ∧ ∀ b ∈ o, b ∈ bs
  | [], _, _, a, ha => absurd ha List.not_mem_nil
  | x :: l, bs, h, a, ha => by
    rw [List.filterMapM_cons, bind_eq_ok] at h
    obtain ⟨o, ho, h⟩ := h
    cases o with
    | none =>
      rcases List.mem_cons.1 ha with rfl | ha
      · exact ⟨none, ho, by simp⟩
      · exact exists_step_of_filterMapM_eq_ok h a ha
    | some b =>
      obtain ⟨bs', hbs', h⟩ := bind_eq_ok.1 h
      cases pure_eq_ok.1 h
      rcases List.mem_cons.1 ha with rfl | ha
      · exact ⟨some b, ho, by simp⟩
      · obtain ⟨o', ho', hmem⟩ := exists_step_of_filterMapM_eq_ok hbs' a ha
        exact ⟨o', ho', fun c hc => List.mem_cons_of_mem b (hmem c hc)⟩

/-- Each field looked up and read on its own: an absent field is optional, a present one
is read as `Read` says. -/
theorem fieldsRead_of_filterMapM {Read : Ref → Node → Prop} {fields : List StructField}
    {g : StructField → Except DecodeError (Option (String × Node))}
    {out : List (String × Node)}
    (hg : ∀ f ∈ fields, ∀ o, g f = .ok o → (o = none → f.optional = true) ∧
      ∀ e ∈ o, e.1 = f.name ∧ ((f.nullable = true ∧ e.2 = .null) ∨ Read f.type e.2))
    (h : fields.filterMapM g = .ok out) : FieldsRead Read fields out where
  origin e he := by
    obtain ⟨f, hf, hfe⟩ := exists_of_filterMapM_eq_ok h e he
    exact ⟨f, hf, (hg f hf _ hfe).2 e rfl⟩
  required f hf hopt := by
    obtain ⟨o, ho, hmem⟩ := exists_step_of_filterMapM_eq_ok h f hf
    cases o with
    | none => simp [(hg f hf none ho).1 rfl] at hopt
    | some e =>
      obtain ⟨hname, -⟩ := (hg f hf _ ho).2 e rfl
      exact ⟨e.2, hname ▸ hmem e rfl⟩

theorem map_fst_of_mapM_eq_ok {α β ε : Type} {key : α → String} {g : α → Except ε (String × β)}
    (hg : ∀ a b, g a = .ok b → b.1 = key a) :
    ∀ {l : List α} {bs : List (String × β)}, l.mapM g = .ok bs → bs.map (·.1) = l.map key
  | [], bs, h => by
    cases h
    rfl
  | a :: l, bs, h => by
    rw [List.mapM_cons, bind_eq_ok] at h
    obtain ⟨b, hb, h⟩ := h
    obtain ⟨bs', hbs', h⟩ := bind_eq_ok.1 h
    cases pure_eq_ok.1 h
    simp [hg a b hb, map_fst_of_mapM_eq_ok hg hbs']

/-- All fields read in turn, each from its own part: every field has its entry. -/
theorem fieldsRead_of_zip {Read : Ref → Node → Prop} {β : Type} {fields : List StructField}
    {parts : List β} {g : StructField × β → Except DecodeError Node} {out : List (String × Node)}
    (hlen : parts.length = fields.length)
    (hg : ∀ p ∈ fields.zip parts, ∀ y, g p = .ok y →
      (p.1.nullable = true ∧ y = .null) ∨ Read p.1.type y)
    (h : (fields.zip parts).mapM (fun p => do
      let y ← inPart (.field p.1.name) (g p)
      pure (p.1.name, y)) = .ok out) : FieldsRead Read fields out where
  origin e he := by
    obtain ⟨p, hp, hpe⟩ := exists_of_mapM_eq_ok h e he
    obtain ⟨y, hy, hpe⟩ := bind_eq_ok.1 hpe
    cases pure_eq_ok.1 hpe
    exact ⟨p.1, (List.of_mem_zip hp).1, rfl, hg p hp y (inPart_eq_ok.1 hy)⟩
  required f hf _ := by
    have hkeys : out.map (·.1) = (fields.zip parts).map (·.1.name) :=
      map_fst_of_mapM_eq_ok (fun p b hb => by
        obtain ⟨y, -, hb⟩ := bind_eq_ok.1 hb
        cases pure_eq_ok.1 hb
        rfl) h
    have hname : f.name ∈ out.map (·.1) := by
      have hfst : (fields.zip parts).map (·.1.name) = ((fields.zip parts).map Prod.fst).map (·.name) := by
        simp [List.map_map, Function.comp_def]
      rw [hkeys, hfst, List.map_fst_zip (le_of_eq hlen.symm)]
      exact List.mem_map_of_mem hf
    obtain ⟨e, he, hname⟩ := List.mem_map.1 hname
    exact ⟨e.2, hname ▸ he⟩

/-- Each field looked up among keyed entries and read by `dec`: an absent field is optional,
a present one is read as `Read` says. -/
theorem fieldsRead_of_lookups {Read : Ref → Node → Prop} {β : Type} {fields : List StructField}
    (entries : List (String × β)) {dec : StructField → β → Except DecodeError Node}
    {g : StructField → Except DecodeError (Option (String × Node))} {out : List (String × Node)}
    (hdec : ∀ f x y, dec f x = .ok y → (f.nullable = true ∧ y = .null) ∨ Read f.type y)
    (hsome : ∀ f x, lookupEntry entries f.name = some x →
      g f = (do let y ← inPart (.field f.name) (dec f x); pure (some (f.name, y))))
    (hnone : ∀ f, lookupEntry entries f.name = none →
      g f = if f.optional = true then pure none else throw (DecodeError.missingField f.name))
    (h : fields.filterMapM g = .ok out) : FieldsRead Read fields out := by
  refine fieldsRead_of_filterMapM (fun f _ o ho => ?_) h
  cases hl : lookupEntry entries f.name with
  | some x =>
    rw [hsome f x hl] at ho
    obtain ⟨y, hy, ho⟩ := bind_eq_ok.1 ho
    cases pure_eq_ok.1 ho
    refine ⟨by simp, fun e he => ?_⟩
    cases he
    exact ⟨rfl, hdec f x y (inPart_eq_ok.1 hy)⟩
  | none =>
    rw [hnone f hl] at ho
    split at ho
    · cases pure_eq_ok.1 ho
      exact ⟨fun _ => ‹_›, by simp⟩
    · exact absurd ho throw_ne_ok

theorem length_of_expectItemsOf {len : Nat} {n : Node} {items : List Node}
    (h : expectItemsOf len n = .ok items) : items.length = len := by
  unfold expectItemsOf at h
  obtain ⟨xs, -, h⟩ := bind_eq_ok.1 h
  split at h
  · cases pure_eq_ok.1 h
    assumption
  · exact absurd h throw_ne_ok

/-- A struct is read as the map of its fields' entries. -/
theorem fieldsRead_of_structFromRepr {fields : List StructField} {strategy : StructStrategy}
    {n v : Node} (h : structFromRepr go (fromText ts go) fields strategy n = .ok v) :
    ∃ out, v = .map out ∧ FieldsRead (fun r y => ∃ x, go r x = .ok y) fields out := by
  have hnode : ∀ (f : StructField) (x y : Node),
      (if (f.nullable && x == .null) = true then pure .null else go f.type x) = .ok y →
        (f.nullable = true ∧ y = .null) ∨ ∃ x, go f.type x = .ok y := by
    intro f x y hy
    split at hy
    · rename_i hnull
      exact .inl ⟨by simpa using (Bool.and_eq_true_iff.1 hnull).1, (pure_eq_ok.1 hy).symm⟩
    · exact .inr ⟨x, hy⟩
  cases strategy with
  | map | listpairs =>
    simp only [structFromRepr, ↓reduceIte] at h
    obtain ⟨entries, -, h⟩ := bind_eq_ok.1 h
    obtain ⟨_, -, h⟩ := bind_eq_ok.1 h
    obtain ⟨out, hout, h⟩ := bind_eq_ok.1 h
    exact ⟨out, (pure_eq_ok.1 h).symm, fieldsRead_of_lookups entries hnode
      (fun f x hx => by simp only [hx]) (fun f hx => by simp only [hx]) hout⟩
  | tuple =>
    simp only [structFromRepr] at h
    obtain ⟨items, hitems, h⟩ := bind_eq_ok.1 h
    obtain ⟨out, hout, h⟩ := bind_eq_ok.1 h
    exact ⟨out, (pure_eq_ok.1 h).symm, fieldsRead_of_zip (length_of_expectItemsOf hitems)
      (fun p _ y hy => hnode p.1 p.2 y hy) hout⟩
  | stringjoin join =>
    simp only [structFromRepr] at h
    obtain ⟨s, -, h⟩ := bind_eq_ok.1 h
    split at h
    · rename_i hempty
      have hnil := List.isEmpty_iff.1 hempty
      exact ⟨[], (pure_eq_ok.1 h).symm, by simp, fun f hf => by simp [hnil] at hf⟩
    · obtain ⟨parts, hparts, h⟩ := bind_eq_ok.1 h
      obtain ⟨out, hout, h⟩ := bind_eq_ok.1 h
      exact ⟨out, (pure_eq_ok.1 h).symm, fieldsRead_of_zip (splitJoin_length hparts)
        (fun _ _ _ hy => .inr (exists_of_fromText hy)) hout⟩
  | stringpairs inner entry =>
    simp only [structFromRepr] at h
    obtain ⟨s, -, h⟩ := bind_eq_ok.1 h
    obtain ⟨pairs, -, h⟩ := bind_eq_ok.1 h
    obtain ⟨_, -, h⟩ := bind_eq_ok.1 h
    obtain ⟨out, hout, h⟩ := bind_eq_ok.1 h
    exact ⟨out, (pure_eq_ok.1 h).symm, fieldsRead_of_lookups pairs
      (fun f x _ (hy : fromText ts go f.type x = _) => .inr (exists_of_fromText hy))
      (fun f x hx => by simp only [hx]) (fun f hx => by simp only [hx]) hout⟩

/-- What a reference stands for, when it stands for a type of the system, is the type of a
name. -/
theorem target_eq_named {r : Ref} {t : SchemaType} (h : target ts r = .named t) :
    ∃ name, r = .named name ∧ ts.get? name = some t := by
  cases r with
  | named name =>
    simp only [target] at h
    split at h
    · cases h
      exact ⟨name, rfl, ‹_›⟩
    · cases h
  | _ => simp [target] at h

/-- Reading never gives null. A null is read only where a list item, a map value or a field
may be null, and it stands there as the item, the value or the field. -/
theorem fromReprWithin_ne_null {k : Nat} {r : Ref} {n v : Node}
    (h : fromReprWithin ts k r n = .ok v) : v ≠ .null := by
  cases k with
  | zero => simp [fromReprWithin] at h
  | succ k =>
  cases hr : target ts r with
  | link =>
    simp only [fromReprWithin, hr] at h
    obtain ⟨s, rfl⟩ := linkText_eq_ok h
    exact fun h => Node.noConfusion h
  | list value nullable =>
    simp only [fromReprWithin, hr] at h
    obtain ⟨_, -, h⟩ := bind_eq_ok.1 h
    obtain ⟨_, -, h⟩ := bind_eq_ok.1 h
    cases pure_eq_ok.1 h
    exact fun h => Node.noConfusion h
  | map key value nullable =>
    simp only [fromReprWithin, hr] at h
    obtain ⟨_, -, h⟩ := bind_eq_ok.1 h
    obtain ⟨_, -, h⟩ := bind_eq_ok.1 h
    cases pure_eq_ok.1 h
    exact fun h => Node.noConfusion h
  | named t =>
    cases t with
    | bool | int | string =>
      simp only [fromReprWithin, hr] at h
      have hkind := expectKind_eq_ok h
      rintro rfl
      cases hkind
    | float =>
      simp only [fromReprWithin, hr] at h
      split at h
      · cases pure_eq_ok.1 h
        exact fun h => Node.noConfusion h
      · have hkind := expectKind_eq_ok h
        rintro rfl
        cases hkind
    | bytes =>
      simp only [fromReprWithin, hr] at h
      split at h
      · cases pure_eq_ok.1 h
        exact fun h => Node.noConfusion h
      · simp [wrongKind] at h
    | link _ =>
      simp only [fromReprWithin, hr] at h
      obtain ⟨s, rfl⟩ := linkText_eq_ok h
      exact fun h => Node.noConfusion h
    | list value nullable =>
      simp only [fromReprWithin, hr] at h
      obtain ⟨_, -, h⟩ := bind_eq_ok.1 h
      obtain ⟨_, -, h⟩ := bind_eq_ok.1 h
      cases pure_eq_ok.1 h
      exact fun h => Node.noConfusion h
    | map key value nullable strategy =>
      cases strategy with
      | map | listpairs =>
        simp only [fromReprWithin, hr] at h
        obtain ⟨_, -, h⟩ := bind_eq_ok.1 h
        obtain ⟨_, -, h⟩ := bind_eq_ok.1 h
        cases pure_eq_ok.1 h
        exact fun h => Node.noConfusion h
      | stringpairs inner entry =>
        simp only [fromReprWithin, hr] at h
        obtain ⟨_, -, h⟩ := bind_eq_ok.1 h
        obtain ⟨_, -, h⟩ := bind_eq_ok.1 h
        obtain ⟨_, -, h⟩ := bind_eq_ok.1 h
        cases pure_eq_ok.1 h
        exact fun h => Node.noConfusion h
    | struct fields strategy =>
      simp only [fromReprWithin, hr] at h
      obtain ⟨out, rfl, -⟩ := fieldsRead_of_structFromRepr h
      exact fun h => Node.noConfusion h
    | union members strategy =>
      simp only [fromReprWithin, hr] at h
      obtain ⟨m, -, y, rfl, -⟩ := unionFromRepr_read h
      exact fun h => Node.noConfusion h
    | enum members strategy =>
      simp only [fromReprWithin, hr] at h
      obtain ⟨m, -, rfl⟩ := enumFromRepr_read h
      exact fun h => Node.noConfusion h

end Reading

/-! ## Writing what was read -/

section Writing

variable {ts : TypeSystem}

/-- Writing `v` as `r` succeeds at every fuel above the weight of `v`, or fails only on an
integer of `v` that a float cannot hold exactly. -/
def WritesBack (ts : TypeSystem) (r : Ref) (v : Node) : Prop :=
  ∀ fuel, v.weight < fuel → OkOrInexact v.ints (toReprWithin ts fuel r v)

/-- Whatever reading returns at fuel `k` is written back. -/
def ReadsBack (ts : TypeSystem) (k : Nat) : Prop :=
  ∀ r n v, fromReprWithin ts k r n = .ok v → WritesBack ts r v

theorem ints_subset_of_mem_items {items : List Node} {y : Node} (h : y ∈ items) :
    y.ints ⊆ (Node.list items).ints := fun i hi => by
  simpa [Node.ints] using Node.mem_intsList.2 ⟨y, h, hi⟩

theorem ints_subset_of_mem_entries {entries : List (String × Node)} {e : String × Node}
    (h : e ∈ entries) : e.2.ints ⊆ (Node.map entries).ints := fun i hi => by
  simpa [Node.ints] using Node.mem_intsEntries.2 ⟨e, h, hi⟩

/-- A value in a place that may be null: a null read there is written as null, anything
else is written as the place's type. -/
theorem value_back {k : Nat} (ih : ReadsBack ts k) {r : Ref} {nullable : Bool} {x y : Node}
    {fuel : Nat}
    (h : (if (nullable && x == .null) = true then pure .null else fromReprWithin ts k r x) = .ok y)
    (hw : y.weight < fuel) :
    OkOrInexact y.ints
      (if (nullable && y == .null) = true then pure .null else toReprWithin ts fuel r y) := by
  split
  · exact okOrInexact_pure _
  · rename_i hy
    split at h
    · rename_i hx
      cases pure_eq_ok.1 h
      simp only [Bool.and_eq_true] at hx hy
      exact absurd ⟨hx.1, rfl⟩ hy
    · exact ih r x y h fuel hw

/-- The items of a list, each read and written as the item type, or as null where items may
be null. -/
theorem items_back {k : Nat} (ih : ReadsBack ts k) {value : Ref} {nullable : Bool} {fuel : Nat}
    {n out : Node}
    (h : (do
      let xs ← expectItems n
      let ys ← xs.zipIdx.mapM fun (p : Node × Nat) => inPart (.index p.2)
        (if (nullable && p.1 == Node.null) = true then pure Node.null
          else fromReprWithin ts k value p.1)
      pure (Node.list ys)) = .ok out)
    (hw : out.weight < fuel + 1) :
    OkOrInexact out.ints (do
      let ys ← expectItems out
      let zs ← ys.zipIdx.mapM fun (p : Node × Nat) => inPart (.index p.2)
        (if (nullable && p.1 == Node.null) = true then pure Node.null
          else toReprWithin ts fuel value p.1)
      pure (Node.list zs)) := by
  obtain ⟨xs, -, h⟩ := bind_eq_ok.1 h
  obtain ⟨ys, hys, h⟩ := bind_eq_ok.1 h
  cases pure_eq_ok.1 h
  simp only [expectItems, ok_bind]
  refine (okOrInexact_mapM fun p hp => ?_).bind fun _ _ => okOrInexact_pure _
  have hmem : p.1 ∈ ys := List.fst_mem_of_mem_zipIdx hp
  obtain ⟨q, -, hq⟩ := exists_of_mapM_eq_ok hys p.1 hmem
  have hlt : p.1.weight < fuel := by
    have := Node.weight_lt_of_mem_items hmem
    omega
  exact ((value_back ih (inPart_eq_ok.1 hq) hlt).mono (ints_subset_of_mem_items hmem)).inPart _

/-- The entries of a map, each value read by `d` and written by `w`, each key read
from its representation and written back. -/
theorem entries_back {β : Type} {d : β → Except DecodeError Node}
    {w : Node → Except DecodeError Node} {key : String} {fuel : Nat}
    (hrw : ∀ x y, d x = .ok y → y.weight < fuel → OkOrInexact y.ints (w y))
    {es : List (String × β)} {out : List (String × Node)}
    (h : es.mapM (fun p => do
      let y ← inPart (.key p.1) (d p.2)
      let k ← keyFromRepr ts key p.1
      pure (k, y)) = .ok out)
    (hw : (Node.map out).weight < fuel + 1) :
    OkOrInexact (Node.map out).ints (out.mapM fun p => do
      let y ← inPart (.key p.1) (w p.2)
      let k ← keyToRepr ts key p.1
      pure (k, y)) := by
  refine okOrInexact_mapM fun e he => ?_
  obtain ⟨q, -, hq⟩ := exists_of_mapM_eq_ok h e he
  obtain ⟨y, hy, hq⟩ := bind_eq_ok.1 hq
  obtain ⟨k, hk, hq⟩ := bind_eq_ok.1 hq
  cases pure_eq_ok.1 hq
  have hlt : y.weight < fuel := by
    have := weight_lt_of_mem he
    omega
  refine (((hrw q.2 y (inPart_eq_ok.1 hy) hlt).mono (ints_subset_of_mem_entries he)).inPart _).bind
    fun _ _ => ?_
  obtain ⟨k', hk'⟩ := keyToRepr_of_keyFromRepr hk
  rw [hk']
  exact okOrInexact_ok _

/-- A field that may not be null is written as the representation of a value of its
type. -/
theorem fieldToRepr_written {go : Ref → Node → Except DecodeError Node}
    {entries : List (String × Node)} {f : StructField} {e : String × Node}
    (hnull : f.nullable = false) (h : fieldToRepr go entries f = .ok (some e)) :
    ∃ x, go f.type x = .ok e.2 := by
  unfold fieldToRepr at h
  split at h
  case h_1 | h_2 =>
    simp only [hnull, Bool.false_eq_true, if_false] at h
    split at h
    · cases pure_eq_ok.1 h
    · exact absurd h throw_ne_ok
  · obtain ⟨w, hw, h⟩ := bind_eq_ok.1 h
    cases pure_eq_ok.1 h
    exact ⟨_, inPart_eq_ok.1 hw⟩

/-- A struct's shape as reading gives it is written back. Each entry is a field's own, since
field names are distinct; a field without an entry is optional, a null was read for a
nullable field, and any other value was read as the field's type. -/
theorem structToRepr_back {k : Nat} (ih : ReadsBack ts k) {fields : List StructField}
    {strategy : StructStrategy} (hrules : ts.structViolations fields strategy = [])
    {out : List (String × Node)}
    (hread : FieldsRead (fun r y => ∃ x, fromReprWithin ts k r x = .ok y) fields out)
    {fuel : Nat} (hw : (Node.map out).weight < fuel + 1) :
    OkOrInexact (Node.map out).ints
      (structToRepr (toReprWithin ts fuel) fields strategy (.map out)) := by
  have hnodup := TypeSystem.nodup_of_structViolations hrules
  have hown : ∀ f ∈ fields, ∀ y, (f.name, y) ∈ out →
      (f.nullable = true ∧ y = .null) ∨ ∃ x, fromReprWithin ts k f.type x = .ok y := by
    intro f hf y hy
    obtain ⟨f', hf', hname, hval⟩ := hread.origin _ hy
    obtain rfl : f' = f := List.inj_on_of_nodup_map hnodup hf' hf hname.symm
    exact hval
  rw [structToRepr_map fun e he => (hread.origin e he).imp fun f hf => ⟨hf.1, hf.2.1.symm⟩]
  refine (okOrInexact_filterMapM fun f hf => ?_).bind fun values hvalues => ?_
  · unfold fieldToRepr
    split
    · rename_i hnone
      have hopt : f.optional = true := by
        by_contra hopt
        obtain ⟨y, hy⟩ := hread.required f hf (by simpa using hopt)
        exact lookupEntry_ne_none hy hnone
      simp only [hopt, if_true]
      exact okOrInexact_pure _
    · rename_i hnull
      rcases hown f hf _ (mem_of_lookupEntry hnull) with ⟨hnullable, -⟩ | ⟨x, hx⟩
      · simp only [hnullable, if_true]
        exact okOrInexact_pure _
      · exact absurd rfl (fromReprWithin_ne_null hx)
    · rename_i y hy hsome
      have hmem := mem_of_lookupEntry hsome
      rcases hown f hf y hmem with ⟨-, rfl⟩ | ⟨x, hx⟩
      · exact absurd rfl hy
      · have hlt : y.weight < fuel := by
          have := weight_lt_of_mem hmem
          omega
        exact (((ih _ x y hx fuel hlt).mono (ints_subset_of_mem_entries hmem)).inPart _).bind
          fun _ _ => okOrInexact_pure _
  · have htext : (∀ f ∈ fields, f.nullable = false ∧ ts.isStringifiable f.type = true) →
        ∀ e ∈ values, ∃ s, embeddedText e.2 = .ok s := by
      intro hfields e he
      obtain ⟨f, hf, hfe⟩ := exists_of_filterMapM_eq_ok hvalues e he
      obtain ⟨x, hx⟩ := fieldToRepr_written (hfields f hf).1 hfe
      exact embeddedText_of_toReprWithin (hfields f hf).2 hx
    cases strategy with
    | map | tuple | listpairs => exact okOrInexact_ok _
    | stringjoin join =>
      exact .inl (structOfValues_ok (htext fun f hf =>
        (TypeSystem.stringjoin_fields hrules f hf).2))
    | stringpairs inner entry =>
      exact .inl (structOfValues_ok (htext (TypeSystem.stringpairs_fields hrules)))

/-- A union's shape as reading gives it is written back: the member its entry names is
found again by its type, its value is written as that type, and what is written fits the
strategy, since the members of an `inline` union are structs written as maps and those of a
`stringprefix` union have string forms. -/
theorem unionToRepr_back (hc : ts.Compiled) {k : Nat} (ih : ReadsBack ts k) {name : String}
    {members : List UnionMember} {strategy : UnionStrategy}
    (hget : ts.get? name = some (.union members strategy)) {m : UnionMember} (hm : m ∈ members)
    {x y : Node} (hread : fromReprWithin ts k (.named m.type) x = .ok y) {fuel : Nat}
    (hw : (Node.map [(m.type, y)]).weight < fuel + 1) :
    OkOrInexact (Node.map [(m.type, y)]).ints
      (unionToRepr (toReprWithin ts fuel) members strategy (.map [(m.type, y)])) := by
  have hrules : ts.unionViolations members strategy = [] := hc.rules _ (mem_of_lookup_eq hget)
  have hknown : ts.contains m.type = true :=
    hc.contains_of_mem_mentions hget (by simpa [SchemaType.mentions] using ⟨m, hm, rfl⟩)
  have hfound : (members.find? (·.type == m.type)).isSome :=
    List.find?_isSome.2 ⟨m, hm, by simp⟩
  obtain ⟨m', hm'⟩ := Option.isSome_iff_exists.1 hfound
  have htype : m'.type = m.type := by simpa using List.find?_some hm'
  have hlt : y.weight < fuel := by
    have := weight_lt_of_mem (List.mem_singleton_self (m.type, y))
    omega
  have hvalue := (ih _ x y hread fuel hlt).mono (ints_subset_of_mem_entries
    (List.mem_singleton_self (m.type, y)))
  simp only [unionToRepr, singleEntry, ok_bind, hm', htype]
  refine (hvalue.inPart _).bind fun value hwrite => ?_
  rw [inPart_eq_ok] at hwrite
  cases strategy with
  | keyed | kinded | envelope => exact okOrInexact_pure _
  | inline key =>
    obtain ⟨fields, hfields⟩ := TypeSystem.inline_members hrules m hm hknown
    obtain ⟨entries, rfl⟩ := eq_map_of_toReprWithin hfields hwrite
    exact okOrInexact_pure _
  | stringPrefix =>
    obtain ⟨s, hs⟩ := embeddedText_of_toReprWithin
      (TypeSystem.stringPrefix_members hrules m hm hknown) hwrite
    simp only [hs, ok_bind]
    exact okOrInexact_pure _

/-- An enum's member name, as reading gives it, is written back: its member is found again by
the name, and an `int` enum's value is an integer. -/
theorem enumToRepr_ok {members : List EnumValue} {strategy : EnumStrategy}
    (hrules : TypeSystem.enumViolations members strategy = []) {m : EnumValue} (hm : m ∈ members) :
    ∃ out, enumToRepr members strategy (.string m.name) = .ok out := by
  have hfound : (members.find? (·.name == m.name)).isSome :=
    List.find?_isSome.2 ⟨m, hm, by simp⟩
  obtain ⟨m', hm'⟩ := Option.isSome_iff_exists.1 hfound
  simp only [enumToRepr, expectText, ok_bind, hm']
  cases strategy with
  | string => exact ⟨_, rfl⟩
  | int =>
    obtain ⟨i, hi⟩ := Option.isSome_iff_exists.1
      (TypeSystem.int_enum_values hrules m' (List.mem_of_find?_eq_some hm'))
    exact ⟨.int i, by simp [readInt, hi, bind, Except.bind, pure, Except.pure]⟩

theorem beq_null_eq_false {y : Node} (h : y ≠ .null) : (y == .null) = false := by
  cases y with
  | null => exact absurd rfl h
  | _ => rfl

/-- The values of a `stringpairs` map that keeps its rules have string forms. -/
theorem stringpairs_values {key : String} {value : Ref} {nullable : Bool} {inner entry : String}
    (h : ts.mapViolations key value nullable (.stringpairs inner entry) = []) :
    ts.isStringifiable value = true := by
  simp only [TypeSystem.mapViolations, List.append_eq_nil_iff] at h
  cases hstr : ts.isStringifiable value with
  | true => rfl
  | false => simp [hstr] at h

/-- One level of reading: what reading returns at fuel `k + 1` is written back, given that
what it returns at fuel `k` is. -/
theorem readsBack_succ (hc : ts.Compiled) {k : Nat} (ih : ReadsBack ts k) :
    ReadsBack ts (k + 1) := by
  intro r n v h fuel hfuel
  obtain ⟨fuel, rfl⟩ : ∃ f, fuel = f + 1 := ⟨fuel - 1, by have := Node.weight_pos v; omega⟩
  have hentries : ∀ {key : String} {value : Ref} {nullable : Bool} {es : List (String × Node)}
      {out : List (String × Node)},
      es.mapM (fun (p : String × Node) => do
        let y ← inPart (.key p.1)
          (if (nullable && p.2 == Node.null) = true then pure Node.null
            else fromReprWithin ts k value p.2)
        let k ← keyFromRepr ts key p.1
        pure (k, y)) = .ok out →
      (Node.map out).weight < fuel + 1 →
      OkOrInexact (Node.map out).ints (out.mapM fun (p : String × Node) => do
        let y ← inPart (.key p.1)
          (if (nullable && p.2 == Node.null) = true then pure Node.null
            else toReprWithin ts fuel value p.2)
        let k ← keyToRepr ts key p.1
        pure (k, y)) :=
    fun {key value nullable} _ _ hout hw => entries_back
      (d := fun x => if (nullable && x == Node.null) = true then pure Node.null
        else fromReprWithin ts k value x)
      (w := fun y => if (nullable && y == Node.null) = true then pure Node.null
        else toReprWithin ts fuel value y)
      (fun _ _ hxy hy => value_back ih hxy hy) hout hw
  cases hr : target ts r with
  | link =>
    simp only [fromReprWithin, hr] at h
    obtain ⟨s, rfl⟩ := linkText_eq_ok h
    simp only [toReprWithin, hr]
    exact okOrInexact_ok _
  | list value nullable =>
    simp only [fromReprWithin, hr] at h
    simp only [toReprWithin, hr]
    exact items_back ih h hfuel
  | map key value nullable =>
    simp only [fromReprWithin, hr] at h
    obtain ⟨es, -, h⟩ := bind_eq_ok.1 h
    obtain ⟨out, hout, h⟩ := bind_eq_ok.1 h
    cases pure_eq_ok.1 h
    simp only [toReprWithin, hr, expectEntries, ok_bind]
    exact (hentries hout hfuel).bind fun _ _ => okOrInexact_pure _
  | named t =>
    obtain ⟨name, rfl, hget⟩ := target_eq_named hr
    have hrules : ts.violations t = [] := hc.rules _ (mem_of_lookup_eq hget)
    cases t with
    | bool | int | string =>
      simp only [fromReprWithin, hr] at h
      simp only [toReprWithin, hr]
      exact .inl ⟨v, by simp [expectKind, expectKind_eq_ok h]⟩
    | float =>
      simp only [fromReprWithin, hr] at h
      simp only [toReprWithin, hr]
      split at h
      · cases pure_eq_ok.1 h
        exact ((okOrInexact_intToFloat _).mono (by simp [Node.ints])).bind
          fun _ _ => okOrInexact_pure _
      · have hkind := expectKind_eq_ok h
        split
        · simp [Node.kind] at hkind
        · exact .inl ⟨v, by simp [expectKind, hkind]⟩
    | bytes =>
      simp only [fromReprWithin, hr] at h
      split at h
      · cases pure_eq_ok.1 h
        simp only [toReprWithin, hr]
        exact okOrInexact_ok _
      · simp [wrongKind] at h
    | link _ =>
      simp only [fromReprWithin, hr] at h
      obtain ⟨s, rfl⟩ := linkText_eq_ok h
      simp only [toReprWithin, hr]
      exact okOrInexact_ok _
    | list value nullable =>
      simp only [fromReprWithin, hr] at h
      simp only [toReprWithin, hr]
      exact items_back ih h hfuel
    | map key value nullable strategy =>
      cases strategy with
      | map | listpairs =>
        simp only [fromReprWithin, hr] at h
        obtain ⟨es, -, h⟩ := bind_eq_ok.1 h
        obtain ⟨out, hout, h⟩ := bind_eq_ok.1 h
        cases pure_eq_ok.1 h
        simp only [toReprWithin, hr, expectEntries, ok_bind]
        exact (hentries hout hfuel).bind fun _ _ => okOrInexact_pure _
      | stringpairs inner entry =>
        simp only [fromReprWithin, hr] at h
        obtain ⟨s, -, h⟩ := bind_eq_ok.1 h
        obtain ⟨pairs, -, h⟩ := bind_eq_ok.1 h
        obtain ⟨out, hout, h⟩ := bind_eq_ok.1 h
        cases pure_eq_ok.1 h
        simp only [toReprWithin, hr, expectEntries, ok_bind]
        have hread : ∀ (s : String) (y : Node), fromText ts (fromReprWithin ts k) value s = .ok y →
            (∃ x, fromReprWithin ts k value x = .ok y) ∧ (y == .null) = false := by
          intro s y hy
          obtain ⟨x, hx⟩ := exists_of_fromText hy
          exact ⟨⟨x, hx⟩, beq_null_eq_false (fromReprWithin_ne_null hx)⟩
        refine (entries_back (w := fun y =>
            if (nullable && y == .null) = true then pure .null else toReprWithin ts fuel value y)
          (fun s y hy hw => ?_) hout hfuel).bind fun es hes => ?_
        · obtain ⟨⟨x, hx⟩, hne⟩ := hread s y hy
          simp only [hne, Bool.and_false, Bool.false_eq_true, if_false]
          exact ih _ x y hx fuel hw
        · have htext : ∀ e ∈ es, ∃ t, embeddedText e.2 = .ok t := by
            intro e he
            obtain ⟨p, hp, hpe⟩ := exists_of_mapM_eq_ok hes e he
            obtain ⟨q, -, hq⟩ := exists_of_mapM_eq_ok hout p hp
            obtain ⟨y, hy, hq⟩ := bind_eq_ok.1 hq
            obtain ⟨_, -, hq⟩ := bind_eq_ok.1 hq
            cases pure_eq_ok.1 hq
            obtain ⟨w, hw, hpe⟩ := bind_eq_ok.1 hpe
            obtain ⟨_, -, hpe⟩ := bind_eq_ok.1 hpe
            cases pure_eq_ok.1 hpe
            have hne := (hread q.2 y (inPart_eq_ok.1 hy)).2
            simp only [hne, Bool.and_false, Bool.false_eq_true, if_false, inPart_eq_ok] at hw
            exact embeddedText_of_toReprWithin (stringpairs_values hrules) hw
          exact .inl (@structOfValues_ok (.stringpairs inner entry) es htext)
    | struct fields strategy =>
      simp only [fromReprWithin, hr] at h
      obtain ⟨out, rfl, hfields⟩ := fieldsRead_of_structFromRepr h
      simp only [toReprWithin, hr]
      simp only [TypeSystem.violations, List.append_eq_nil_iff] at hrules
      exact structToRepr_back ih hrules.1 hfields hfuel
    | union members strategy =>
      simp only [fromReprWithin, hr] at h
      obtain ⟨m, hm, y, rfl, x, hx⟩ := unionFromRepr_read h
      simp only [toReprWithin, hr]
      exact unionToRepr_back hc ih hget hm hx hfuel
    | enum members strategy =>
      simp only [fromReprWithin, hr] at h
      obtain ⟨m, hm, rfl⟩ := enumFromRepr_read h
      simp only [toReprWithin, hr]
      exact .inl (enumToRepr_ok hrules hm)

/-- Whatever reading returns, at any fuel, is written back. -/
theorem readsBack (hc : ts.Compiled) : ∀ k, ReadsBack ts k
  | 0 => fun _ _ _ h => by simp [fromReprWithin] at h
  | k + 1 => readsBack_succ hc (readsBack hc k)

end Writing

end Ipld.Repr

namespace Ipld.Schema.Document

open Ipld.Repr

/-- In a compiled system, every shape that reading a representation returns is written
again, unless an integer of the shape stands where a float is expected and lies beyond what a
float holds exactly: then writing fails on that integer. -/
theorem compile_fromRepr_toRepr {d : Document} {ts : TypeSystem} (h : d.compile = .ok ts)
    {r : Ref} {n v : Node} (hr : ts.fromRepr r n = .ok v) :
    (∃ n', ts.toRepr r v = .ok n') ∨
      ∃ e i, ts.toRepr r v = .error e ∧ e.root = .inexactFloat i ∧ i ∈ v.ints ∧
        ¬(-maxExactFloatInt ≤ i ∧ i ≤ maxExactFloatInt) :=
  readsBack (compile_compiled h) _ r n v hr _ (Nat.lt_succ_self _)

/-- A point written as a list of a float and an integer. -/
def pointDocument : Document :=
  ⟨[("Point", .struct [("x", ⟨.named "Float", false, false⟩), ("y", ⟨.named "Int", false, false⟩)]
      (some ⟨"tuple", []⟩))]⟩

/-- The system `pointDocument` compiles to. -/
def pointSystem : TypeSystem :=
  ⟨prelude ++ [("Point", .struct [⟨"x", .named "Float", false, false⟩,
      ⟨"y", .named "Int", false, false⟩] .tuple)]⟩

/-- Reading keeps the integer `2^53 + 1` where the point's float goes, and writing refuses it. -/
theorem compile_fromRepr_toRepr_point :
    pointDocument.compile = .ok pointSystem ∧
      pointSystem.fromRepr (.named "Point") (.list [.int 9007199254740993, .int 4]) =
        .ok (.map [("x", .int 9007199254740993), ("y", .int 4)]) ∧
      ∃ e, pointSystem.toRepr (.named "Point")
          (.map [("x", .int 9007199254740993), ("y", .int 4)]) = .error e ∧
        e.root = .inexactFloat 9007199254740993 := by
  have h : pointDocument.compile = .ok pointSystem := by cbv
  have hr : pointSystem.fromRepr (.named "Point") (.list [.int 9007199254740993, .int 4]) =
      .ok (.map [("x", .int 9007199254740993), ("y", .int 4)]) := by cbv
  refine ⟨h, hr, ?_⟩
  rcases compile_fromRepr_toRepr h hr with ⟨n', hn'⟩ | ⟨e, i, he, hroot, hi, hrange⟩
  · cbv at hn'
    cases hn'
  · have hi' : i = 9007199254740993 ∨ i = 4 := by simpa [Node.ints, Node.intsEntries] using hi
    rcases hi' with rfl | rfl
    · exact ⟨e, he, hroot⟩
    · exact absurd ⟨by decide, by decide⟩ hrange

deriving instance DecidableEq for Ref, StructField, EnumValue, StructStrategy, UnionMember,
  UnionStrategy, MapStrategy, SchemaType, TypeSystem

/-- A `stringjoin` struct of two integers, joined by `","`, as the first field of a
`stringjoin` struct joined by `"1,2"`. -/
def joinedDocument : Document :=
  ⟨[("S", .struct [("a", ⟨.named "Int", false, false⟩), ("b", ⟨.named "Int", false, false⟩)]
      (some ⟨"stringjoin", [("join", ",")]⟩)),
    ("O", .struct [("x", ⟨.named "S", false, false⟩), ("y", ⟨.named "Int", false, false⟩)]
      (some ⟨"stringjoin", [("join", "1,2")]⟩))]⟩

/-- The system `joinedDocument` compiles to. -/
def joinedSystem : TypeSystem :=
  ⟨prelude ++ [("S", .struct [⟨"a", .named "Int", false, false⟩, ⟨"b", .named "Int", false, false⟩]
      (.stringjoin ",")),
    ("O", .struct [⟨"x", .named "S", false, false⟩, ⟨"y", .named "Int", false, false⟩]
      (.stringjoin "1,2"))]⟩

theorem compile_joined : joinedDocument.compile = .ok joinedSystem := by
  have h : joinedDocument.compile.toOption = some joinedSystem := by decide +kernel
  cases hc : joinedDocument.compile with
  | error e => simp [hc, Except.toOption] at h
  | ok ts => simp_all [Except.toOption]

/-- What is written need not read back: `"01,+21,25"` reads as `x = {a: 1, b: 2}`, `y = 5`, whose
text `"1,21,25"` holds the outer separator inside `x`'s own text, and reading it fails. -/
theorem compile_reread_joined_fails :
    joinedDocument.compile = .ok joinedSystem ∧
      joinedSystem.fromRepr (.named "O") (.string "01,+21,25") =
        .ok (.map [("x", .map [("a", .int 1), ("b", .int 2)]), ("y", .int 5)]) ∧
      joinedSystem.toRepr (.named "O")
          (.map [("x", .map [("a", .int 1), ("b", .int 2)]), ("y", .int 5)]) =
        .ok (.string "1,21,25") ∧
      ∃ e, joinedSystem.fromRepr (.named "O") (.string "1,21,25") = .error e := by
  have hr : joinedSystem.fromRepr (.named "O") (.string "01,+21,25") =
      .ok (.map [("x", .map [("a", .int 1), ("b", .int 2)]), ("y", .int 5)]) := by cbv
  have hw : joinedSystem.toRepr (.named "O")
      (.map [("x", .map [("a", .int 1), ("b", .int 2)]), ("y", .int 5)]) = .ok (.string "1,21,25") := by
    cbv
  refine ⟨compile_joined, hr, hw, ?_⟩
  cases h : joinedSystem.fromRepr (.named "O") (.string "1,21,25") with
  | ok v =>
    cbv at h
    cases h
  | error e => exact ⟨e, rfl⟩

end Ipld.Schema.Document
