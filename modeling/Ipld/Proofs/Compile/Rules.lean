import Mathlib
import Ipld.Proofs.Compile.WellFormed

/-!
# What the rules of a type promise

`TypeSystem.violations` lists each rule a type breaks, and a compiled system has a type
that breaks none. Read backwards, an empty list of violations says what writing values of
the type relies on: a struct's fields have distinct names; the fields of a `stringjoin`
struct are required and have string forms, and those of a `stringpairs` struct have string
forms and are not nullable; a union has members, which for an `inline` union are structs
represented as maps and for a `stringprefix` union have string forms; an enum has members,
whose values for an `int` enum are integers.

Several rules compare each element of a list with those before it, through `withEarlier`;
`mem_withEarlier` says which pairs it lists.
-/

namespace Ipld.Schema

section Earlier

variable {α : Type} {xs : List α}

/-- `withEarlier` pairs the element at each position with the elements before it. -/
theorem mem_withEarlier {e : List α} {x : α} :
    (e, x) ∈ withEarlier xs ↔ ∃ i, ∃ h : i < xs.length, xs[i] = x ∧ e = xs.take i := by
  simp only [withEarlier, List.mem_map, Prod.exists, Prod.mk.injEq]
  constructor
  · rintro ⟨y, i, hmem, rfl, rfl⟩
    have hget := List.mk_mem_zipIdx_iff_getElem?.1 hmem
    obtain ⟨hi, hy⟩ := List.getElem?_eq_some_iff.1 hget
    exact ⟨i, hi, hy, rfl⟩
  · rintro ⟨i, hi, rfl, rfl⟩
    exact ⟨xs[i], i, List.mk_mem_zipIdx_iff_getElem?.2 (List.getElem?_eq_getElem hi), rfl, rfl⟩

/-- Every element is listed by `withEarlier`. -/
theorem exists_mem_withEarlier {x : α} (hx : x ∈ xs) : ∃ e, (e, x) ∈ withEarlier xs := by
  obtain ⟨i, hi, rfl⟩ := List.mem_iff_getElem.1 hx
  exact ⟨_, mem_withEarlier.2 ⟨i, hi, rfl, rfl⟩⟩

/-- If no element shares its key with an element before it, the keys are distinct. -/
theorem nodup_map_of_withEarlier {β : Type} {key : α → β}
    (h : ∀ e x, (e, x) ∈ withEarlier xs → ∀ y ∈ e, key y ≠ key x) : (xs.map key).Nodup := by
  rw [List.nodup_iff_pairwise_ne, List.pairwise_map, List.pairwise_iff_getElem]
  intro i j hi hj hij
  have hmem : xs[i] ∈ xs.take j := by
    rw [List.mem_iff_getElem]
    exact ⟨i, by simp [List.length_take]; omega, by simp⟩
  exact h _ _ (mem_withEarlier.2 ⟨j, hj, rfl, rfl⟩) _ hmem

/-- With distinct keys, an element is the first of its key. -/
theorem find?_key (key : α → String) {l : List α} (hl : (l.map key).Nodup) {a : α}
    (ha : a ∈ l) : l.find? (fun b => key b == key a) = some a := by
  induction l with
  | nil => simp at ha
  | cons b rest ih =>
    simp only [List.map_cons, List.nodup_cons] at hl
    rcases List.mem_cons.1 ha with rfl | ha
    · simp
    · have hne : key b ≠ key a := by
        intro h
        exact hl.1 (h ▸ List.mem_map_of_mem ha)
      simp [hne, ih hl.2 ha]

end Earlier

namespace TypeSystem

variable {ts : TypeSystem}

/-! ## Structs -/

/-- A struct that keeps its rules has fields of distinct names. -/
theorem nodup_of_structViolations {fields : List StructField} {strategy : StructStrategy}
    (h : ts.structViolations fields strategy = []) : (fields.map (·.name)).Nodup := by
  simp only [structViolations, List.append_eq_nil_iff, List.filterMap_eq_nil_iff] at h
  apply nodup_map_of_withEarlier
  intro e f hmem y hy hname
  have := h.1 (e, f) hmem
  simp only [List.any_eq_true, beq_iff_eq, ite_eq_right_iff, reduceCtorEq, imp_false, not_exists,
    not_and] at this
  exact this y hy hname

/-- Every field of a `stringjoin` struct that keeps its rules is required and has a string
form. -/
theorem stringjoin_fields {fields : List StructField} {join : String}
    (h : ts.structViolations fields (.stringjoin join) = []) :
    ∀ f ∈ fields, f.optional = false ∧ f.nullable = false ∧ ts.isStringifiable f.type = true := by
  simp only [structViolations, List.append_eq_nil_iff, List.flatMap_eq_nil_iff] at h
  intro f hf
  obtain ⟨i, hi, rfl⟩ := List.mem_iff_getElem.1 hf
  have := h.2 (fields[i], i) (List.mk_mem_zipIdx_iff_getElem?.2 (List.getElem?_eq_getElem hi))
  by_cases hopt : fields[i].optional || fields[i].nullable
  · simp [hopt] at this
  · by_cases hstr : ts.isStringifiable fields[i].type
    · simp only [Bool.or_eq_true, not_or, Bool.not_eq_true] at hopt
      exact ⟨hopt.1, hopt.2, hstr⟩
    · simp [hopt, hstr] at this

/-- Every field of a `stringpairs` struct that keeps its rules is not nullable and has a
string form. -/
theorem stringpairs_fields {fields : List StructField} {inner entry : String}
    (h : ts.structViolations fields (.stringpairs inner entry) = []) :
    ∀ f ∈ fields, f.nullable = false ∧ ts.isStringifiable f.type = true := by
  simp only [structViolations, List.append_eq_nil_iff, List.flatMap_eq_nil_iff] at h
  intro f hf
  have := (h.2 f hf).1
  by_cases hnull : f.nullable
  · simp [hnull] at this
  · by_cases hstr : ts.isStringifiable f.type
    · exact ⟨by simpa using hnull, hstr⟩
    · simp [hnull, hstr] at this

/-! ## Unions -/

/-- A union that keeps its rules has members. -/
theorem members_ne_nil_of_unionViolations {members : List UnionMember} {strategy : UnionStrategy}
    (h : ts.unionViolations members strategy = []) : members ≠ [] := by
  intro hnil
  simp [unionViolations, hnil] at h

/-- The members of a union that keeps its rules have distinct discriminants. -/
theorem discriminants_nodup {members : List UnionMember} {strategy : UnionStrategy}
    (h : ts.unionViolations members strategy = []) : (members.map (·.discriminant)).Nodup := by
  simp only [unionViolations, List.append_eq_nil_iff, List.flatMap_eq_nil_iff] at h
  apply nodup_map_of_withEarlier
  intro e m hmem y hy hd
  have := h.1.2 (e, m) hmem
  simp only [ite_eq_right_iff, reduceCtorEq, imp_false, List.any_eq_true, beq_iff_eq,
    not_exists, not_and] at this
  exact this.1 y hy hd

/-- Every member of a `kinded` union that keeps its rules has a discriminant that names a
kind, and a known member type is no kinded union and is represented as that kind. -/
theorem kinded_members {members : List UnionMember} (h : ts.unionViolations members .kinded = []) :
    ∀ m ∈ members, ∃ k, Kind.ofName? m.discriminant = some k ∧
      ∀ t, ts.get? m.type = some t → t.isKindedUnion = false ∧ t.reprKind = k := by
  simp only [unionViolations, List.append_eq_nil_iff, List.flatMap_eq_nil_iff] at h
  intro m hm
  have hrule := h.2 m hm
  unfold kindedViolations at hrule
  split at hrule
  · cases hrule
  · rename_i k hk
    refine ⟨k, hk, fun t ht => ?_⟩
    simp only [ht] at hrule
    by_cases hnest : t.isKindedUnion = true
    · simp [hnest] at hrule
    · by_cases hkind : t.reprKind = k
      · exact ⟨by simpa using hnest, hkind⟩
      · simp [hnest, hkind] at hrule

/-- Every known member type of an `inline` union that keeps its rules is a struct
represented as a map. -/
theorem inline_members {members : List UnionMember} {key : String}
    (h : ts.unionViolations members (.inline key) = []) :
    ∀ m ∈ members, ts.contains m.type = true →
      ∃ fields, ts.get? m.type = some (.struct fields .map) := by
  simp only [unionViolations, List.append_eq_nil_iff, List.flatMap_eq_nil_iff] at h
  intro m hm hknown
  have hrule := h.2 m hm
  obtain ⟨t, ht⟩ := Option.isSome_iff_exists.1 hknown
  cases t with
  | struct fields strategy =>
    cases strategy with
    | map => exact ⟨fields, ht⟩
    | _ => simp [inlineMemberViolations, ht] at hrule
  | _ => simp [inlineMemberViolations, ht] at hrule

/-- Every known member type of a `stringprefix` union that keeps its rules has a string
form. -/
theorem stringPrefix_members {members : List UnionMember}
    (h : ts.unionViolations members .stringPrefix = []) :
    ∀ m ∈ members, ts.contains m.type = true → ts.isStringifiable (.named m.type) = true := by
  simp only [unionViolations, List.append_eq_nil_iff, List.flatMap_eq_nil_iff] at h
  intro m hm hknown
  obtain ⟨e, he⟩ := exists_mem_withEarlier hm
  have hrule := h.2 (e, m) he
  simp only [prefixViolations] at hrule
  split at hrule
  · cases hrule
  · by_cases hstr : ts.isStringifiable (.named m.type)
    · exact hstr
    · simp [hknown, hstr] at hrule

/-! ## Enums -/

/-- An enum that keeps its rules has members. -/
theorem members_ne_nil_of_enumViolations {members : List EnumValue} {strategy : EnumStrategy}
    (h : enumViolations members strategy = []) : members ≠ [] := by
  intro hnil
  simp [enumViolations, hnil] at h

/-- Every value of an `int` enum that keeps its rules is an integer. -/
theorem int_enum_values {members : List EnumValue} (h : enumViolations members .int = []) :
    ∀ m ∈ members, (Decimal.readInt64 m.value).isSome = true := by
  simp only [enumViolations, List.append_eq_nil_iff, List.flatMap_eq_nil_iff] at h
  intro m hm
  obtain ⟨e, he⟩ := exists_mem_withEarlier hm
  have hrule := (h.2 (e, m) he).2
  simp only [beq_self_eq_true, Option.isNone_iff_eq_none, Bool.true_and, ite_eq_right_iff,
    reduceCtorEq, imp_false] at hrule
  exact Option.isSome_iff_ne_none.2 hrule

/-! ## Compiled systems -/

/-- In a compiled system every name a type uses is a type of the system. -/
theorem Compiled.contains_of_mem_mentions (hc : ts.Compiled) {n x : String} {t : SchemaType}
    (hget : ts.get? n = some t) (hx : x ∈ t.mentions) : ts.contains x = true :=
  lookup_isSome_of_mem (hc.closed _ (mem_of_lookup_eq hget) x hx)

end TypeSystem

end Ipld.Schema
