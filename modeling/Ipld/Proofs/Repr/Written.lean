import Mathlib
import Ipld.Proofs.Compile.Rules
import Ipld.Repr.Convert

/-!
# The kind of a written representation

Writing the representation of a value of a named type gives a node of the type's
representation kind (`kind_of_toReprWithin`): a `stringjoin` struct writes a string, an
`int` enum an integer, a `listpairs` map a list, and so on. A kinded union is the exception,
since it writes whatever its member writes. Two consequences are what the string and inline
representations rely on: a type with a string form writes a node that `embeddedText` turns
into text, and a struct represented as a map writes a map.

The first section gives the few facts about `Except` that the proofs peel computations with.
-/

namespace Ipld.Repr

open Ipld.Schema

section Except

variable {ε α β : Type}

theorem bind_eq_ok {x : Except ε α} {f : α → Except ε β} {b : β} :
    x >>= f = .ok b ↔ ∃ a, x = .ok a ∧ f a = .ok b := by
  cases x <;> simp [bind, Except.bind]

theorem bind_eq_error {x : Except ε α} {f : α → Except ε β} {e : ε} :
    x >>= f = .error e ↔ x = .error e ∨ ∃ a, x = .ok a ∧ f a = .error e := by
  cases x <;> simp [bind, Except.bind]

theorem pure_eq_ok {a b : α} : (pure a : Except ε α) = .ok b ↔ a = b := by
  simp [pure, Except.pure]

theorem throw_ne_ok {e : ε} {b : α} : (throw e : Except ε α) ≠ .ok b := by
  simp [throw, throwThe, MonadExceptOf.throw]

/-- A `mapM` whose every step succeeds succeeds, with results that each step's property
holds of. -/
theorem mapM_eq_ok_of_forall {f : α → Except ε β} {P : β → Prop} :
    ∀ {l : List α}, (∀ a ∈ l, ∃ b, f a = .ok b ∧ P b) → ∃ bs, l.mapM f = .ok bs ∧ ∀ b ∈ bs, P b
  | [], _ => ⟨[], rfl, by simp⟩
  | a :: l, h => by
    obtain ⟨b, hb, hPb⟩ := h a List.mem_cons_self
    obtain ⟨bs, hbs, hPbs⟩ := mapM_eq_ok_of_forall fun x hx => h x (List.mem_cons_of_mem a hx)
    refine ⟨b :: bs, ?_, ?_⟩
    · simp [List.mapM_cons, hb, hbs, bind, Except.bind, pure, Except.pure]
    · intro c hc
      rcases List.mem_cons.1 hc with rfl | hc
      · exact hPb
      · exact hPbs c hc

/-- The results of a `mapM` that succeeds, seen through `g`, are its inputs seen through `k`,
when each step's result is so seen as its input. -/
theorem map_of_mapM_eq_ok {γ : Type} {f : α → Except ε β} {g : β → γ} {k : α → γ}
    (hf : ∀ a b, f a = .ok b → g b = k a) :
    ∀ {l : List α} {bs : List β}, l.mapM f = .ok bs → bs.map g = l.map k
  | [], bs, h => by
    cases h
    rfl
  | a :: l, bs, h => by
    rw [List.mapM_cons, bind_eq_ok] at h
    obtain ⟨b, hb, h⟩ := h
    obtain ⟨bs', hbs', h⟩ := bind_eq_ok.1 h
    cases pure_eq_ok.1 h
    simp [hf a b hb, map_of_mapM_eq_ok hf hbs']

/-- A `filterMapM` whose every step succeeds succeeds, with results that each step's
property holds of. -/
theorem filterMapM_eq_ok_of_forall {f : α → Except ε (Option β)} {P : β → Prop} :
    ∀ {l : List α}, (∀ a ∈ l, ∃ o, f a = .ok o ∧ ∀ b ∈ o, P b) →
      ∃ bs, l.filterMapM f = .ok bs ∧ ∀ b ∈ bs, P b
  | [], _ => ⟨[], rfl, by simp⟩
  | a :: l, h => by
    obtain ⟨o, ho, hPo⟩ := h a List.mem_cons_self
    obtain ⟨bs, hbs, hPbs⟩ := filterMapM_eq_ok_of_forall fun x hx => h x (List.mem_cons_of_mem a hx)
    cases o with
    | none =>
      refine ⟨bs, ?_, hPbs⟩
      simp [List.filterMapM_cons, ho, hbs, bind, Except.bind]
    | some b =>
      refine ⟨b :: bs, ?_, ?_⟩
      · simp [List.filterMapM_cons, ho, hbs, bind, Except.bind, pure, Except.pure]
      · intro c hc
        rcases List.mem_cons.1 hc with rfl | hc
        · exact hPo c rfl
        · exact hPbs c hc

end Except

/-! ## Kinds of single writers -/

theorem expectKind_eq_ok {k : Kind} {n out : Node} (h : expectKind k n = .ok out) :
    out.kind = k := by
  unfold expectKind at h
  split at h
  · cases h
    assumption
  · cases h

theorem kind_of_linkOf {n out : Node} (h : linkOf n = .ok out) : out.kind = .link := by
  cases n <;> simp [linkOf, wrongKind] at h <;> simp [← h, Node.kind]

theorem kind_of_bytesOf {n out : Node} (h : bytesOf n = .ok out) : out.kind = .bytes := by
  cases n with
  | bytes bs =>
    simp only [bytesOf, Except.ok.injEq] at h
    simp [← h, Node.kind]
  | list items =>
    simp only [bytesOf, bind_eq_ok, pure_eq_ok] at h
    obtain ⟨_, -, rfl⟩ := h
    rfl
  | _ => simp [bytesOf, wrongKind] at h

/-- A struct writes the kind of its strategy. -/
theorem kind_of_structToRepr {go : Ref → Node → Except DecodeError Node}
    {fields : List StructField} {strategy : StructStrategy} {shape out : Node}
    (h : structToRepr go fields strategy shape = .ok out) :
    out.kind = (SchemaType.struct fields strategy).reprKind := by
  unfold structToRepr at h
  simp only [bind_eq_ok] at h
  obtain ⟨entries, -, h⟩ := h
  split at h
  · simp only [bind_eq_ok] at h
    obtain ⟨_, hthrow, -⟩ := h
    exact absurd hthrow throw_ne_ok
  · simp only [bind_eq_ok] at h
    obtain ⟨values, -, h⟩ := h
    cases strategy <;> simp only [bind_eq_ok, pure_eq_ok] at h
    · subst h
      rfl
    · subst h
      rfl
    · obtain ⟨_, -, rfl⟩ := h
      rfl
    · obtain ⟨_, -, rfl⟩ := h
      rfl
    · subst h
      rfl

/-- A union that is not kinded writes the kind of its strategy. -/
theorem kind_of_unionToRepr {go : Ref → Node → Except DecodeError Node}
    {members : List UnionMember} {strategy : UnionStrategy} {shape out : Node}
    (hk : (SchemaType.union members strategy).isKindedUnion = false)
    (h : unionToRepr go members strategy shape = .ok out) :
    out.kind = (SchemaType.union members strategy).reprKind := by
  unfold unionToRepr at h
  simp only [bind_eq_ok] at h
  obtain ⟨⟨name, inner⟩, -, h⟩ := h
  split at h
  · simp only [bind_eq_ok] at h
    obtain ⟨value, -, h⟩ := h
    cases strategy with
    | keyed =>
      simp only [pure_eq_ok] at h
      subst h
      rfl
    | kinded => simp [SchemaType.isKindedUnion] at hk
    | inline key =>
      simp only at h
      split at h
      · simp only [pure_eq_ok] at h
        subst h
        rfl
      · simp [wrongKind] at h
    | envelope key content =>
      simp only [pure_eq_ok] at h
      subst h
      rfl
    | stringPrefix =>
      simp only [bind_eq_ok, pure_eq_ok] at h
      obtain ⟨_, -, rfl⟩ := h
      rfl
  · exact absurd h throw_ne_ok

/-- An enum writes a string or an integer, as its strategy says. -/
theorem kind_of_enumToRepr {members : List EnumValue} {strategy : EnumStrategy} {shape out : Node}
    (h : enumToRepr members strategy shape = .ok out) :
    out.kind = (SchemaType.enum members strategy).reprKind := by
  unfold enumToRepr at h
  simp only [bind_eq_ok] at h
  obtain ⟨name, -, h⟩ := h
  split at h
  · cases strategy with
    | string =>
      simp only [pure_eq_ok] at h
      subst h
      rfl
    | int =>
      simp only [bind_eq_ok, pure_eq_ok] at h
      obtain ⟨_, -, rfl⟩ := h
      rfl
  · exact absurd h throw_ne_ok

/-! ## The kind of a named type's representation -/

/-- The representation written for a named type has the type's representation kind,
unless the type is a kinded union. -/
theorem kind_of_toReprWithin {ts : TypeSystem} {fuel : Nat} {n : String} {t : SchemaType}
    {v out : Node} (hget : ts.get? n = some t) (hk : t.isKindedUnion = false)
    (h : toReprWithin ts fuel (.named n) v = .ok out) : out.kind = t.reprKind := by
  cases fuel with
  | zero => simp [toReprWithin] at h
  | succ fuel =>
    cases t with
    | bool | int | string =>
      simp only [toReprWithin, target, hget] at h
      exact expectKind_eq_ok h
    | float =>
      simp only [toReprWithin, target, hget] at h
      split at h
      · simp only [bind_eq_ok, pure_eq_ok] at h
        obtain ⟨_, -, rfl⟩ := h
        rfl
      · exact expectKind_eq_ok h
    | bytes =>
      simp only [toReprWithin, target, hget] at h
      exact kind_of_bytesOf h
    | link _ =>
      simp only [toReprWithin, target, hget] at h
      exact kind_of_linkOf h
    | list _ _ =>
      simp only [toReprWithin, target, hget, bind_eq_ok, pure_eq_ok] at h
      obtain ⟨_, -, _, -, rfl⟩ := h
      rfl
    | map _ _ _ strategy =>
      simp only [toReprWithin, target, hget, bind_eq_ok] at h
      obtain ⟨_, -, h⟩ := h
      cases strategy <;> simp only [bind_eq_ok, pure_eq_ok] at h
      · subst h
        rfl
      · obtain ⟨_, -, rfl⟩ := h
        rfl
      · subst h
        rfl
    | struct _ _ =>
      simp only [toReprWithin, target, hget] at h
      exact kind_of_structToRepr h
    | union _ _ =>
      simp only [toReprWithin, target, hget] at h
      exact kind_of_unionToRepr hk h
    | enum _ _ =>
      simp only [toReprWithin, target, hget] at h
      exact kind_of_enumToRepr h

/-- A type with a string form is no kinded union, and its representation kind is one that
text embeds. -/
theorem reprKind_of_isStringifiable {ts : TypeSystem} {n : String} {t : SchemaType}
    (hget : ts.get? n = some t) (hs : ts.isStringifiable (.named n) = true) :
    t.isKindedUnion = false ∧
      (t.reprKind = .string ∨ t.reprKind = .int ∨ t.reprKind = .float ∨ t.reprKind = .bool) := by
  simp only [TypeSystem.isStringifiable, TypeSystem.named?, hget, Option.map_some] at hs
  cases t with
  | union _ strategy => cases strategy <;> simp_all [SchemaType.reprKind, SchemaType.isKindedUnion]
  | enum _ strategy => cases strategy <;> simp [SchemaType.reprKind, SchemaType.isKindedUnion]
  | map _ _ _ strategy => cases strategy <;> simp_all [SchemaType.reprKind, SchemaType.isKindedUnion]
  | struct _ strategy => cases strategy <;> simp_all [SchemaType.reprKind, SchemaType.isKindedUnion]
  | _ => simp_all [SchemaType.reprKind, SchemaType.isKindedUnion]

/-- A node of a kind that text embeds has a text. -/
theorem embeddedText_of_kind {out : Node}
    (h : out.kind = .string ∨ out.kind = .int ∨ out.kind = .float ∨ out.kind = .bool) :
    ∃ s, embeddedText out = .ok s := by
  cases out <;> simp_all [embeddedText, Node.kind]

/-- What a type with a string form writes can be embedded in a string. Only named types
have string forms. -/
theorem embeddedText_of_toReprWithin {ts : TypeSystem} {fuel : Nat} {r : Ref} {v out : Node}
    (hs : ts.isStringifiable r = true) (h : toReprWithin ts fuel r v = .ok out) :
    ∃ s, embeddedText out = .ok s := by
  obtain ⟨n, t, rfl, hget⟩ : ∃ n t, r = .named n ∧ ts.get? n = some t := by
    cases r with
    | named n =>
      cases hget : ts.get? n with
      | none => simp [TypeSystem.isStringifiable, TypeSystem.named?, hget] at hs
      | some t => exact ⟨n, t, rfl, hget⟩
    | _ => simp [TypeSystem.isStringifiable, TypeSystem.named?] at hs
  obtain ⟨hk, hkind⟩ := reprKind_of_isStringifiable hget hs
  rw [← kind_of_toReprWithin hget hk h] at hkind
  exact embeddedText_of_kind hkind

/-- A struct represented as a map writes a map. -/
theorem eq_map_of_toReprWithin {ts : TypeSystem} {fuel : Nat} {n : String}
    {fields : List StructField} {v out : Node} (hget : ts.get? n = some (.struct fields .map))
    (h : toReprWithin ts fuel (.named n) v = .ok out) : ∃ entries, out = .map entries := by
  have hkind := kind_of_toReprWithin hget rfl h
  cases out <;> simp_all [Node.kind, SchemaType.reprKind]

/-! ## Writing a struct

A struct's representation is written in two steps: each field gets its value from the
shape's entries (`fieldToRepr`), then the values are put together as the strategy says
(`structOfValues`). -/

theorem ok_bind {ε α β : Type} {a : α} {f : α → Except ε β} : (Except.ok a >>= f) = f a := rfl

/-- The value written for field `f` of a struct whose shape has entries `entries`: nothing
for an absent optional field, null for an absent or null nullable field, and otherwise the
representation of the entry. -/
def fieldToRepr (go : Ref → Node → Except DecodeError Node) (entries : List (String × Node))
    (f : StructField) : Except DecodeError (Option (String × Node)) :=
  match lookupEntry entries f.name with
  | none =>
    if f.optional then pure none
    else if f.nullable then pure (some (f.name, .null))
    else throw (.missingField f.name)
  | some .null =>
    if f.nullable then pure (some (f.name, .null))
    else if f.optional then pure none
    else throw (.notNullable f.name)
  | some v => return some (f.name, ← inPart (.field f.name) (go f.type v))

/-- A struct's representation from the values of its fields. -/
def structOfValues (strategy : StructStrategy) (values : List (String × Node)) :
    Except DecodeError Node :=
  match strategy with
  | .map => pure (.map values)
  | .tuple => pure (.list (values.map (·.2)))
  | .listpairs => pure (listOfPairs values)
  | .stringjoin join => return .string (join.intercalate (← values.mapM fun e => embeddedText e.2))
  | .stringpairs inner entry => return .string (joinPairs (← textPairs values) inner entry)

/-- Writing a struct from a map whose keys are all field names is writing its fields'
values and putting them together. -/
theorem structToRepr_map {go : Ref → Node → Except DecodeError Node} {fields : List StructField}
    {strategy : StructStrategy} {entries : List (String × Node)}
    (h : ∀ e ∈ entries, ∃ f ∈ fields, f.name = e.1) :
    structToRepr go fields strategy (.map entries) =
      fields.filterMapM (fieldToRepr go entries) >>= structOfValues strategy := by
  have hfind : entries.find? (fun e => !fields.any (·.name == e.1)) = none := by
    rw [List.find?_eq_none]
    intro e he
    obtain ⟨f, hf, hname⟩ := h e he
    simp only [Bool.not_eq_true', Bool.not_eq_false, List.any_eq_true, beq_iff_eq]
    exact ⟨f, hf, hname⟩
  simp only [structToRepr, expectEntries, ok_bind, hfind]
  rfl

section Fields

variable {go : Ref → Node → Except DecodeError Node} {entries : List (String × Node)}
  {f : StructField}

theorem fieldToRepr_absent (h : lookupEntry entries f.name = none) (hopt : f.optional = true) :
    fieldToRepr go entries f = .ok none := by
  simp [fieldToRepr, h, hopt, pure, Except.pure]

theorem fieldToRepr_absent_nullable (h : lookupEntry entries f.name = none)
    (hopt : f.optional = false) (hnull : f.nullable = true) :
    fieldToRepr go entries f = .ok (some (f.name, .null)) := by
  simp [fieldToRepr, h, hopt, hnull, pure, Except.pure]

theorem fieldToRepr_present {v w : Node} (h : lookupEntry entries f.name = some v)
    (hv : v ≠ .null) (hgo : go f.type v = .ok w) :
    fieldToRepr go entries f = .ok (some (f.name, w)) := by
  unfold fieldToRepr
  split
  · rename_i hnone
    rw [h] at hnone
    cases hnone
  · rename_i hnull
    rw [h] at hnull
    cases hnull
    exact absurd rfl hv
  · rename_i v' _ hsome
    rw [h] at hsome
    cases hsome
    simp [hgo, inPart, bind, Except.bind, pure, Except.pure]

end Fields

/-- Values that text embeds are put together under every strategy. -/
theorem structOfValues_ok {strategy : StructStrategy} {values : List (String × Node)}
    (h : ∀ e ∈ values, ∃ s, embeddedText e.2 = .ok s) :
    ∃ out, structOfValues strategy values = .ok out := by
  cases strategy with
  | map | tuple | listpairs => exact ⟨_, rfl⟩
  | stringjoin join =>
    obtain ⟨texts, htexts, -⟩ := mapM_eq_ok_of_forall (P := fun _ => True)
      (f := fun e : String × Node => embeddedText e.2) fun e he => (h e he).imp fun _ hs => ⟨hs, trivial⟩
    exact ⟨_, by simp only [structOfValues, htexts, ok_bind]; rfl⟩
  | stringpairs inner entry =>
    obtain ⟨pairs, hpairs, -⟩ := mapM_eq_ok_of_forall (P := fun _ => True)
      (f := fun e : String × Node => do return (e.1, ← embeddedText e.2))
      fun e he => by
        obtain ⟨s, hs⟩ := h e he
        exact ⟨(e.1, s), by simp [hs, bind, Except.bind, pure, Except.pure], trivial⟩
    refine ⟨.string (joinPairs pairs inner entry), ?_⟩
    simp only [structOfValues, textPairs]
    rw [hpairs]
    rfl

end Ipld.Repr
