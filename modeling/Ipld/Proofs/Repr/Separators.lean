import Mathlib
import Ipld.Proofs.Decimal.Characters
import Ipld.Proofs.Repr.Kinds
import Ipld.Proofs.Repr.Parts

/-!
# One-character separators in string forms

The compiler asks `TypeSystem.mayContain r sep` before it splits a string at `sep`: `false`
is to mean that no value's text holds `sep`. For one character the answer is sound in every
compiled system (`compile_mayContain_singleton`): a character of a joined string lies in one
of its parts, and the check looks at every part. A longer separator can straddle two parts.

The proof follows the check's recursion, one level sound when the levels below are
(`avoids_succ`), so every level is (`avoids_of_mayContainWithin`).
-/

namespace Ipld

/-! ## One character inside a text -/

theorem Text.occursIn_singleton {c : Char} :
    ∀ {cs : List Char}, Text.occursIn [c] cs = true ↔ c ∈ cs
  | [] => by simp [Text.occursIn]
  | d :: cs => by
    rw [Text.occursIn, Bool.or_eq_true, Text.occursIn_singleton, List.mem_cons]
    simp only [List.isPrefixOf, Bool.and_true, beq_iff_eq]

/-- A one-character text occurs in a text exactly when the character does. -/
theorem Text.includes_singleton_eq_false {s : String} {c : Char} :
    Text.includes s (String.singleton c) = false ↔ c ∉ s.toList := by
  simp only [Text.includes, String.toList_singleton, ← Bool.not_eq_true, Text.occursIn_singleton]

theorem Schema.TypeSystem.charsWithin_singleton_eq_false {c : Char} {allowed : String} :
    Schema.TypeSystem.charsWithin (String.singleton c) allowed = false ↔
      c ∉ allowed.toList := by
  simp [Schema.TypeSystem.charsWithin]

namespace Repr

open Schema

theorem mem_intercalate {α : Type} {sep : List α} {x : α} :
    ∀ {parts : List (List α)}, x ∈ sep.intercalate parts →
      x ∈ sep ∨ ∃ p ∈ parts, x ∈ p
  | [], h => by simp at h
  | [p], h => Or.inr ⟨p, List.mem_singleton_self p, by simpa using h⟩
  | p :: q :: parts, h => by
    rw [List.intercalate_cons_cons, List.mem_append, List.mem_append] at h
    rcases h with (h | h) | h
    · exact Or.inr ⟨p, List.mem_cons_self, h⟩
    · exact Or.inl h
    · rcases mem_intercalate h with h | ⟨r, hr, hx⟩
      · exact Or.inl h
      · exact Or.inr ⟨r, List.mem_cons_of_mem p hr, hx⟩

/-- A character that is in no part and not in the separator is not in the joined text. -/
theorem not_mem_intercalate {c : Char} {sep : String} {parts : List String}
    (hsep : c ∉ sep.toList) (hparts : ∀ p ∈ parts, c ∉ p.toList) :
    c ∉ (sep.intercalate parts).toList := by
  rw [String.toList_intercalate]
  intro h
  rcases mem_intercalate h with h | ⟨p, hp, hc⟩
  · exact hsep h
  · obtain ⟨q, hq, rfl⟩ := List.mem_map.1 hp
    exact hparts q hq hc

theorem not_mem_joinPairs {c : Char} {pairs : List (String × String)} {inner entry : String}
    (hinner : c ∉ inner.toList) (hentry : c ∉ entry.toList)
    (hpairs : ∀ p ∈ pairs, c ∉ p.1.toList ∧ c ∉ p.2.toList) :
    c ∉ (joinPairs pairs inner entry).toList := by
  refine not_mem_intercalate hentry fun p hp => ?_
  obtain ⟨⟨k, v⟩, hkv, rfl⟩ := List.mem_map.1 hp
  obtain ⟨hk, hv⟩ := hpairs (k, v) hkv
  simp [hk, hv, hinner]

/-! ## Nodes whose text avoids a character -/

/-- No text that `n` is embedded in a string as holds `c`. -/
def Avoids (c : Char) (n : Node) : Prop := ∀ s, embeddedText n = .ok s → c ∉ s.toList

variable {c : Char}

theorem avoids_string {s : String} : Avoids c (.string s) ↔ c ∉ s.toList := by
  simp [Avoids, embeddedText]

theorem avoids_null : Avoids c .null := by
  simp [Avoids, embeddedText, Node.kind]

theorem avoids_int {n : Node} (hk : n.kind = .int) (hc : c ∉ "-0123456789".toList) :
    Avoids c n := by
  cases n <;> simp only [Node.kind, reduceCtorEq] at hk
  rename_i i
  intro s hs hmem
  simp only [embeddedText, Except.ok.injEq] at hs
  subst hs
  exact hc (Decimal.mem_toString_int hmem)

theorem avoids_float {n : Node} (hk : n.kind = .float) (hc : c ∉ "-0123456789.infNa".toList) :
    Avoids c n := by
  cases n <;> simp only [Node.kind, reduceCtorEq] at hk
  rename_i x
  intro s hs hmem
  simp only [embeddedText, Except.ok.injEq] at hs
  subst hs
  exact hc (Decimal.mem_toText hmem)

theorem avoids_bool {n : Node} (hk : n.kind = .bool) (htrue : c ∉ "true".toList)
    (hfalse : c ∉ "false".toList) : Avoids c n := by
  cases n <;> simp only [Node.kind, reduceCtorEq] at hk
  rename_i b
  intro s hs
  simp only [embeddedText, Except.ok.injEq] at hs
  subst hs
  cases b
  · exact hfalse
  · exact htrue

/-- Text pairs of entries whose keys and values avoid a character avoid it. -/
theorem avoids_textPairs {entries : List (String × Node)} {pairs : List (String × String)}
    (h : textPairs entries = .ok pairs)
    (hentries : ∀ e ∈ entries, c ∉ e.1.toList ∧ Avoids c e.2) :
    ∀ p ∈ pairs, c ∉ p.1.toList ∧ c ∉ p.2.toList := by
  intro p hp
  obtain ⟨⟨k, v⟩, he, hstep⟩ := exists_of_mapM_eq_ok h p hp
  simp only [bind_eq_ok, pure_eq_ok] at hstep
  obtain ⟨s, hs, rfl⟩ := hstep
  exact ⟨(hentries (k, v) he).1, (hentries (k, v) he).2 s hs⟩

/-! ## What the writers put in a string -/

section Writers

variable {go : Ref → Node → Except DecodeError Node}

/-- Each result of a `filterMapM` that succeeds is the result of its step on some item. -/
theorem exists_of_filterMapM_eq_ok {α β ε : Type} {f : α → Except ε (Option β)} :
    ∀ {l : List α} {bs : List β}, l.filterMapM f = .ok bs →
      ∀ b ∈ bs, ∃ a ∈ l, f a = .ok (some b)
  | [], bs, h => by
    cases h
    simp
  | a :: l, bs, h => by
    rw [List.filterMapM_cons, bind_eq_ok] at h
    obtain ⟨o, ho, h⟩ := h
    cases o with
    | none =>
      intro b hb
      obtain ⟨a', ha', hstep⟩ := exists_of_filterMapM_eq_ok h b hb
      exact ⟨a', List.mem_cons_of_mem a ha', hstep⟩
    | some b' =>
      simp only [bind_eq_ok, pure_eq_ok] at h
      obtain ⟨rest, hrest, rfl⟩ := h
      intro b hb
      rcases List.mem_cons.1 hb with rfl | hb
      · exact ⟨a, List.mem_cons_self, ho⟩
      · obtain ⟨a', ha', hstep⟩ := exists_of_filterMapM_eq_ok hrest b hb
        exact ⟨a', List.mem_cons_of_mem a ha', hstep⟩

/-- A field writes, under its name, null or the representation of a value of its type. -/
theorem fieldToRepr_eq_some {entries : List (String × Node)} {f : StructField}
    {e : String × Node} (h : fieldToRepr go entries f = .ok (some e)) :
    e.1 = f.name ∧ (e.2 = .null ∨ ∃ v, go f.type v = .ok e.2) := by
  unfold fieldToRepr at h
  split at h
  · split_ifs at h
    · cases h
    · simp only [pure_eq_ok, Option.some.injEq] at h
      subst h
      exact ⟨rfl, Or.inl rfl⟩
  · split_ifs at h
    · simp only [pure_eq_ok, Option.some.injEq] at h
      subst h
      exact ⟨rfl, Or.inl rfl⟩
    · cases h
  · simp only [bind_eq_ok, pure_eq_ok, Option.some.injEq, inPart_eq_ok] at h
    obtain ⟨w, hw, rfl⟩ := h
    exact ⟨rfl, Or.inr ⟨_, hw⟩⟩

/-- A struct puts together values written for its fields: each under a field's name, null
or the representation of a value of the field's type. -/
theorem values_of_structToRepr {fields : List StructField} {strategy : StructStrategy}
    {shape out : Node} (h : structToRepr go fields strategy shape = .ok out) :
    ∃ values, structOfValues strategy values = .ok out ∧
      ∀ e ∈ values, ∃ f ∈ fields,
        e.1 = f.name ∧ (e.2 = .null ∨ ∃ v, go f.type v = .ok e.2) := by
  unfold structToRepr at h
  simp only [bind_eq_ok] at h
  obtain ⟨entries, -, h⟩ := h
  split at h
  · simp only [bind_eq_ok] at h
    obtain ⟨_, hthrow, -⟩ := h
    exact absurd hthrow throw_ne_ok
  · simp only [bind_eq_ok] at h
    obtain ⟨values, hvalues, h⟩ := h
    refine ⟨values, h, fun e he => ?_⟩
    obtain ⟨f, hf, hfield⟩ :=
      exists_of_filterMapM_eq_ok (f := fieldToRepr go entries) hvalues e he
    exact ⟨f, hf, fieldToRepr_eq_some hfield⟩

theorem avoids_stringjoin {values : List (String × Node)} {join : String} {out : Node}
    (h : structOfValues (.stringjoin join) values = .ok out) (hjoin : c ∉ join.toList)
    (hvalues : ∀ e ∈ values, Avoids c e.2) : Avoids c out := by
  simp only [structOfValues, bind_eq_ok, pure_eq_ok] at h
  obtain ⟨texts, htexts, rfl⟩ := h
  refine avoids_string.2 (not_mem_intercalate hjoin fun t ht => ?_)
  obtain ⟨e, he, hs⟩ := exists_of_mapM_eq_ok htexts t ht
  exact hvalues e he t hs

theorem avoids_stringpairs {values : List (String × Node)} {inner entry : String} {out : Node}
    (h : structOfValues (.stringpairs inner entry) values = .ok out) (hinner : c ∉ inner.toList)
    (hentry : c ∉ entry.toList) (hvalues : ∀ e ∈ values, c ∉ e.1.toList ∧ Avoids c e.2) :
    Avoids c out := by
  simp only [structOfValues, bind_eq_ok, pure_eq_ok] at h
  obtain ⟨pairs, hpairs, rfl⟩ := h
  exact avoids_string.2 (not_mem_joinPairs hinner hentry (avoids_textPairs hpairs hvalues))

/-- A `stringprefix` union writes a member's prefix and then the member's text. -/
theorem avoids_stringPrefix {members : List UnionMember} {shape out : Node}
    (h : unionToRepr go members .stringPrefix shape = .ok out)
    (hmembers : ∀ m ∈ members,
      c ∉ m.discriminant.toList ∧ ∀ x y, go (.named m.type) x = .ok y → Avoids c y) :
    Avoids c out := by
  unfold unionToRepr at h
  simp only [bind_eq_ok] at h
  obtain ⟨⟨name, inner⟩, -, h⟩ := h
  split at h
  · rename_i m hfind
    simp only [bind_eq_ok, pure_eq_ok, inPart_eq_ok] at h
    obtain ⟨value, hvalue, text, htext, rfl⟩ := h
    obtain ⟨hdisc, hgo⟩ := hmembers m (List.mem_of_find?_eq_some hfind)
    refine avoids_string.2 fun hc => ?_
    rw [String.toList_append, List.mem_append] at hc
    rcases hc with hc | hc
    · exact hdisc hc
    · exact hgo inner value hvalue text htext hc
  · exact absurd h throw_ne_ok

/-- An enum writes a member's value, or the integer read from it. -/
theorem avoids_enumToRepr {members : List EnumValue} {strategy : EnumStrategy} {shape out : Node}
    (h : enumToRepr members strategy shape = .ok out)
    (hvalues : ∀ m ∈ members, c ∉ m.value.toList) : Avoids c out := by
  unfold enumToRepr at h
  simp only [bind_eq_ok] at h
  obtain ⟨name, -, h⟩ := h
  split at h
  · rename_i m hfind
    have hvalue := hvalues m (List.mem_of_find?_eq_some hfind)
    cases strategy with
    | string =>
      simp only [pure_eq_ok] at h
      subst h
      exact avoids_string.2 hvalue
    | int =>
      simp only [bind_eq_ok, pure_eq_ok] at h
      obtain ⟨i, hi, rfl⟩ := h
      have hread : Decimal.readInt64 m.value = some i := by
        unfold readInt at hi
        split at hi
        · cases hi
          assumption
        · cases hi
      intro s hs hmem
      simp only [embeddedText, Except.ok.injEq] at hs
      subst hs
      exact hvalue (Decimal.mem_of_readInt64 hread hmem)
  · exact absurd h throw_ne_ok

/-- A map with `stringpairs` writes its keys as `keyToRepr` gives them and its values null or
written for the value type, and joins the pairs into one string. -/
theorem toReprWithin_stringpairs {ts : TypeSystem} {fuel : Nat} {name key : String}
    {value : Ref} {nullable : Bool} {inner entry : String} {shape out : Node}
    (hget : ts.get? name = some (.map key value nullable (.stringpairs inner entry)))
    (h : toReprWithin ts (fuel + 1) (.named name) shape = .ok out) :
    ∃ es pairs, textPairs es = .ok pairs ∧ out = .string (joinPairs pairs inner entry) ∧
      ∀ e ∈ es, (∃ k, keyToRepr ts key k = .ok e.1) ∧
        (e.2 = .null ∨ ∃ x, toReprWithin ts fuel value x = .ok e.2) := by
  simp only [toReprWithin, target, hget, bind_eq_ok, pure_eq_ok] at h
  obtain ⟨es, hes, pairs, hpairs, rfl⟩ := h
  refine ⟨es, pairs, hpairs, rfl, fun e he => ?_⟩
  obtain ⟨entries, -, hmap⟩ := hes
  obtain ⟨⟨k, x⟩, -, hstep⟩ := exists_of_mapM_eq_ok hmap e he
  simp only [bind_eq_ok, pure_eq_ok, inPart_eq_ok] at hstep
  obtain ⟨y, hy, k', hk', rfl⟩ := hstep
  refine ⟨⟨k, hk'⟩, ?_⟩
  split at hy
  · simp only [pure_eq_ok] at hy
    exact Or.inl hy.symm
  · exact Or.inr ⟨x, hy⟩

/-- A value written as null or by a writer whose results avoid a character avoids it. -/
theorem avoids_of_null_or {go : Node → Except DecodeError Node} {y : Node}
    (hgo : ∀ x y, go x = .ok y → Avoids c y) (h : y = .null ∨ ∃ x, go x = .ok y) :
    Avoids c y := by
  rcases h with rfl | ⟨x, hx⟩
  · exact avoids_null
  · exact hgo x y hx

end Writers

/-! ## Soundness of the check -/

section Check

variable {ts : TypeSystem}

/-- The keys of a map are written as the key type says; when the check of a key type that
the compiler accepts answers `false`, no key written holds the character. -/
theorem keyToRepr_avoids {key site k k' : String} {fuel : Nat} {visiting : List String}
    (hrule : ts.keyViolations key site = [])
    (hm : ts.mayContainWithin (String.singleton c) fuel visiting (.named key) = false)
    (h : keyToRepr ts key k = .ok k') : c ∉ k'.toList := by
  cases fuel with
  | zero => simp [TypeSystem.mayContainWithin] at hm
  | succ fuel =>
    cases hget : ts.get? key with
    | none => simp [TypeSystem.mayContainWithin, TypeSystem.named?, hget] at hm
    | some t =>
      simp only [TypeSystem.mayContainWithin, TypeSystem.named?, hget, Option.map_some] at hm
      split at hm
      · cases hm
      · cases t with
        | string => cases hm
        | enum members strategy =>
          simp only [keyToRepr, hget] at h
          split at h
          · rename_i m hfind
            cases h
            simp only [List.any_eq_false, Bool.not_eq_true, Text.includes_singleton_eq_false] at hm
            exact hm m (List.mem_of_find?_eq_some hfind)
          · cases h
        | _ => simp [TypeSystem.keyViolations, hget] at hrule

/-- One level of the check is sound when the levels below it are: a type whose check answers
`false` writes nothing whose text holds the character. -/
theorem avoids_succ (hc : ts.Compiled) {k : Nat}
    (ih : ∀ {visiting : List String} {r : Ref},
      ts.mayContainWithin (String.singleton c) k visiting r = false →
        ∀ {fuel : Nat} {v n : Node}, toReprWithin ts fuel r v = .ok n → Avoids c n)
    {visiting : List String} {r : Ref}
    (hm : ts.mayContainWithin (String.singleton c) (k + 1) visiting r = false)
    {fuel : Nat} {v n : Node} (hw : toReprWithin ts fuel r v = .ok n) : Avoids c n := by
  obtain ⟨name, t, rfl, hget⟩ : ∃ name t, r = .named name ∧ ts.get? name = some t := by
    cases hr : ts.named? r with
    | none => simp [TypeSystem.mayContainWithin, hr] at hm
    | some p => exact ⟨p.1, p.2, TypeSystem.named?_eq_some.1 hr⟩
  obtain ⟨fuel, rfl⟩ : ∃ f, fuel = f + 1 := by
    cases fuel with
    | zero => simp [toReprWithin] at hw
    | succ f => exact ⟨f, rfl⟩
  simp only [TypeSystem.mayContainWithin, TypeSystem.named?, hget, Option.map_some] at hm
  split at hm
  · cases hm
  cases t with
  | bool =>
    simp only [Bool.or_eq_false_iff, Text.includes_singleton_eq_false] at hm
    exact avoids_bool (kind_of_toReprWithin hget rfl hw) hm.1 hm.2
  | int =>
    rw [TypeSystem.charsWithin_singleton_eq_false] at hm
    exact avoids_int (kind_of_toReprWithin hget rfl hw) hm
  | float =>
    rw [TypeSystem.charsWithin_singleton_eq_false] at hm
    exact avoids_float (kind_of_toReprWithin hget rfl hw) hm
  | string | bytes | link _ | list _ _ => cases hm
  | map key value nullable strategy =>
    cases strategy with
    | stringpairs inner entry =>
      simp only [Bool.or_eq_false_iff, Text.includes_singleton_eq_false] at hm
      obtain ⟨⟨⟨hinner, hentry⟩, hkey⟩, hvalue⟩ := hm
      have hrules : ts.violations (.map key value nullable (.stringpairs inner entry)) = [] :=
        hc.rules _ (mem_of_lookup_eq hget)
      have hkeyRule : ts.keyViolations key "map" = [] := by
        simp only [TypeSystem.violations, TypeSystem.mapViolations,
          List.append_eq_nil_iff] at hrules
        exact hrules.1.1.1.1
      obtain ⟨es, pairs, hpairs, rfl, hes⟩ := toReprWithin_stringpairs hget hw
      refine avoids_string.2
        (not_mem_joinPairs hinner hentry (avoids_textPairs hpairs fun e he => ?_))
      obtain ⟨⟨key', hkey'⟩, hval⟩ := hes e he
      exact ⟨keyToRepr_avoids hkeyRule hkey hkey',
        avoids_of_null_or (fun _ _ hx => ih hvalue hx) hval⟩
    | _ => cases hm
  | struct fields strategy =>
    cases strategy with
    | stringjoin join =>
      simp only [Bool.or_eq_false_iff, Text.includes_singleton_eq_false, List.any_eq_false,
        Bool.not_eq_true] at hm
      obtain ⟨hjoin, hfields⟩ := hm
      simp only [toReprWithin, target, hget] at hw
      obtain ⟨values, hvalues, horigin⟩ := values_of_structToRepr hw
      refine avoids_stringjoin hvalues hjoin fun e he => ?_
      obtain ⟨f, hf, -, hval⟩ := horigin e he
      exact avoids_of_null_or (fun _ _ hx => ih (hfields f hf) hx) hval
    | stringpairs inner entry =>
      simp only [Bool.or_eq_false_iff, Text.includes_singleton_eq_false, List.any_eq_false,
        Bool.not_eq_true] at hm
      obtain ⟨⟨hinner, hentry⟩, hfields⟩ := hm
      simp only [toReprWithin, target, hget] at hw
      obtain ⟨values, hvalues, horigin⟩ := values_of_structToRepr hw
      refine avoids_stringpairs hvalues hinner hentry fun e he => ?_
      obtain ⟨f, hf, hname, hval⟩ := horigin e he
      rw [hname]
      exact ⟨(hfields f hf).1, avoids_of_null_or (fun _ _ hx => ih (hfields f hf).2 hx) hval⟩
    | _ => cases hm
  | union members strategy =>
    cases strategy with
    | stringPrefix =>
      simp only [Bool.or_eq_false_iff, Text.includes_singleton_eq_false, List.any_eq_false,
        Bool.not_eq_true] at hm
      simp only [toReprWithin, target, hget] at hw
      exact avoids_stringPrefix hw fun m hmem =>
        ⟨(hm m hmem).1, fun _ _ hx => ih (hm m hmem).2 hx⟩
    | _ => cases hm
  | enum members strategy =>
    simp only [List.any_eq_false, Bool.not_eq_true, Text.includes_singleton_eq_false] at hm
    simp only [toReprWithin, target, hget] at hw
    exact avoids_enumToRepr hw hm

/-- Every level of the check is sound. -/
theorem avoids_of_mayContainWithin (hc : ts.Compiled) :
    ∀ (k : Nat) {visiting : List String} {r : Ref},
      ts.mayContainWithin (String.singleton c) k visiting r = false →
        ∀ {fuel : Nat} {v n : Node}, toReprWithin ts fuel r v = .ok n → Avoids c n
  | 0, _, _, hm => by simp [TypeSystem.mayContainWithin] at hm
  | k + 1, _, _, hm => avoids_succ hc (avoids_of_mayContainWithin hc k) hm

end Check

end Repr

namespace Schema.Document

open Ipld.Repr

/-- In a compiled system, when `mayContain` answers that a one-character separator cannot
occur in the string form of a reference, it occurs in the text of no representation
written for the reference. -/
theorem compile_mayContain_singleton {d : Document} {ts : TypeSystem} (h : d.compile = .ok ts)
    {r : Ref} {c : Char} (hm : ts.mayContain r (String.singleton c) = false) {v n : Node}
    (hw : ts.toRepr r v = .ok n) {s : String} (hs : embeddedText n = .ok s) :
    Text.includes s (String.singleton c) = false :=
  Text.includes_singleton_eq_false.2
    (avoids_of_mayContainWithin (compile_compiled h) _ hm hw s hs)

/-- A struct of one integer field, joined by `:`. -/
def wrapDocument : Document :=
  ⟨[("Wrap", .struct [("n", ⟨.named "Int", false, false⟩)]
      (some ⟨"stringjoin", [("join", ":")]⟩))]⟩

/-- The system `wrapDocument` compiles to. -/
def wrapSystem : TypeSystem :=
  ⟨prelude ++ [("Wrap", .struct [⟨"n", .named "Int", false, false⟩] (.stringjoin ":"))]⟩

/-- The check rules a comma out of `Wrap`, and the `7` written for it holds none. -/
theorem compile_mayContain_singleton_wrap :
    wrapDocument.compile = .ok wrapSystem ∧
      wrapSystem.mayContain (.named "Wrap") (String.singleton ',') = false ∧
      wrapSystem.toRepr (.named "Wrap") (.map [("n", .int 7)]) = .ok (.string "7") ∧
      embeddedText (.string "7") = .ok "7" ∧
      Text.includes "7" (String.singleton ',') = false := by
  have h : wrapDocument.compile = .ok wrapSystem := by cbv
  have hm : wrapSystem.mayContain (.named "Wrap") (String.singleton ',') = false := by decide
  have hw : wrapSystem.toRepr (.named "Wrap") (.map [("n", .int 7)]) = .ok (.string "7") := by
    cbv
  have hs : embeddedText (.string "7") = .ok "7" := rfl
  exact ⟨h, hm, hw, hs, compile_mayContain_singleton h hm hw hs⟩

end Schema.Document

end Ipld
