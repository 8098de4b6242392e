import Mathlib
import Ipld.Proofs.Compile.WellFormed

/-!
# The least set of finite types

`TypeSystem.finiteNames` collects the finite type names by sweeping over the declared types
until a sweep adds nothing. `TypeSystem.Finite` states the rules it follows as an inductive
predicate: the prelude types are finite; a struct is finite when every type its required
fields name is finite or unknown; a union when it has no members, or a member whose type is
finite or unknown; and every other declared type is finite.

The sweeps compute exactly the names the rules derive. A name a sweep adds is derived from
names collected before it (`finiteNames_sound`). A sweep that changes anything adds a
declared name, so one sweep per declared type reaches a set that no rule extends
(`finiteNames_closed`), and such a set holds every derived name (`mem_finiteNames_iff`).
-/

namespace Ipld.Schema

/-- Counting along a list, a predicate that implies another and misses one of the other's
elements counts strictly fewer. -/
theorem countP_lt_countP_of_imp {α : Type} {l : List α} {p q : α → Bool}
    (hpq : ∀ x ∈ l, p x = true → q x = true) (hx : ∃ x ∈ l, q x = true ∧ p x = false) :
    l.countP p < l.countP q := by
  induction l with
  | nil => simp at hx
  | cons a l ih =>
    have hle : l.countP p ≤ l.countP q :=
      List.countP_mono_left fun x hx hp => hpq x (List.mem_cons_of_mem a hx) hp
    have ha : (if p a then 1 else 0) ≤ (if q a then 1 else 0) := by
      by_cases hp : p a = true
      · simp [hp, hpq a List.mem_cons_self hp]
      · simp [hp]
    rw [List.countP_cons, List.countP_cons]
    obtain ⟨x, hxl, hqx, hpx⟩ := hx
    rcases List.mem_cons.1 hxl with rfl | hxl
    · rw [if_pos hqx, if_neg (by simp [hpx])]
      omega
    · have hlt := ih (fun y hy hp => hpq y (List.mem_cons_of_mem a hy) hp) ⟨x, hxl, hqx, hpx⟩
      omega

namespace TypeSystem

/-- The types of which some value can be written down in finitely many steps. -/
inductive Finite (ts : TypeSystem) : String → Prop
  /-- The prelude types. -/
  | prelude {n : String} : n ∈ preludeNames → ts.Finite n
  /-- A struct whose required fields name finite or unknown types. -/
  | struct {n : String} {fields : List StructField} {strategy : StructStrategy} :
      (n, .struct fields strategy) ∈ ts.declared →
      (∀ m ∈ (SchemaType.struct fields strategy).required, ts.contains m = true → ts.Finite m) →
      ts.Finite n
  /-- A union with no members. -/
  | unionEmpty {n : String} {strategy : UnionStrategy} :
      (n, .union [] strategy) ∈ ts.declared → ts.Finite n
  /-- A union with a member whose type is finite or unknown. -/
  | union {n : String} {members : List UnionMember} {strategy : UnionStrategy} {m : UnionMember} :
      (n, .union members strategy) ∈ ts.declared → m ∈ members →
      (ts.contains m.type = true → ts.Finite m.type) → ts.Finite n
  /-- A declared type that is neither a struct nor a union. -/
  | other {n : String} {t : SchemaType} : (n, t) ∈ ts.declared →
      (∀ fields strategy, t ≠ .struct fields strategy) →
      (∀ members strategy, t ≠ .union members strategy) → ts.Finite n

variable {ts : TypeSystem}

/-- A declared type that `finiteGiven acc` accepts is finite once every name of `acc` is. -/
theorem finite_of_finiteGiven {acc : List String} (hacc : ∀ x ∈ acc, ts.Finite x)
    {n : String} {t : SchemaType} (hmem : (n, t) ∈ ts.declared)
    (h : ts.finiteGiven acc t = true) : ts.Finite n := by
  cases t with
  | struct fields strategy =>
    refine .struct hmem fun m hm hknown => ?_
    simp only [finiteGiven, List.all_eq_true] at h
    have hm' := h m hm
    simp only [hknown, Bool.not_true, Bool.or_false, List.contains_iff_mem] at hm'
    exact hacc m hm'
  | union members strategy =>
    simp only [finiteGiven, Bool.or_eq_true, List.isEmpty_iff, List.any_eq_true] at h
    rcases h with rfl | ⟨m, hm, hfin⟩
    · exact .unionEmpty hmem
    · refine .union hmem hm fun hknown => ?_
      exact hacc _ (by simpa [hknown] using hfin)
  | bool | int | float | string | bytes | link _ | list _ _ | map _ _ _ _ | enum _ _ =>
    exact .other hmem (by simp) (by simp)

/-! ## One sweep -/

/-- One step of a sweep: the declared type `p` joins `acc` if it is new and finite given
`acc`. -/
def sweepStep (ts : TypeSystem) : List String → String × SchemaType → List String
  | acc, (name, t) =>
    if acc.contains name then acc else if ts.finiteGiven acc t then acc ++ [name] else acc

theorem finiteSweep_eq_foldl (acc : List String) :
    ts.finiteSweep acc = ts.declared.foldl ts.sweepStep acc := rfl

/-- A step of a sweep either leaves the set alone, because the type is collected already
or not yet finite, or appends a new name whose type is finite given the set. -/
theorem sweepStep_cases (ts : TypeSystem) (acc : List String) (p : String × SchemaType) :
    (ts.sweepStep acc p = acc ∧ (p.1 ∈ acc ∨ ts.finiteGiven acc p.2 = false)) ∨
      (p.1 ∉ acc ∧ ts.finiteGiven acc p.2 = true ∧ ts.sweepStep acc p = acc ++ [p.1]) := by
  obtain ⟨name, t⟩ := p
  by_cases hin : name ∈ acc
  · exact .inl ⟨by simp [sweepStep, hin], .inl hin⟩
  · cases hfin : ts.finiteGiven acc t
    · exact .inl ⟨by simp [sweepStep, hin, hfin], .inr rfl⟩
    · exact .inr ⟨hin, rfl, by simp [sweepStep, hin, hfin]⟩

/-- A sweep only appends. -/
theorem prefix_foldl_sweepStep (ts : TypeSystem) (L : List (String × SchemaType)) (acc : List String) :
    acc <+: L.foldl ts.sweepStep acc := by
  induction L generalizing acc with
  | nil => exact List.prefix_refl acc
  | cons p L ih =>
    rw [List.foldl_cons]
    rcases sweepStep_cases ts acc p with ⟨heq, -⟩ | ⟨-, -, heq⟩
    · rw [heq]
      exact ih acc
    · have := ih (ts.sweepStep acc p)
      rw [heq] at this ⊢
      exact (List.prefix_append acc [p.1]).trans this

/-- Every name a sweep over declared types collects is finite, if every name it starts
from is. -/
theorem foldl_sweepStep_sound (L : List (String × SchemaType)) (hL : ∀ p ∈ L, p ∈ ts.declared)
    (acc : List String) (hacc : ∀ x ∈ acc, ts.Finite x) :
    ∀ x ∈ L.foldl ts.sweepStep acc, ts.Finite x := by
  induction L generalizing acc with
  | nil => exact hacc
  | cons p L ih =>
    rw [List.foldl_cons]
    apply ih (fun q hq => hL q (List.mem_cons_of_mem p hq))
    rcases sweepStep_cases ts acc p with ⟨heq, -⟩ | ⟨-, hfin, heq⟩
    · rw [heq]
      exact hacc
    · have hp : ts.Finite p.1 := finite_of_finiteGiven hacc (hL p List.mem_cons_self) hfin
      rw [heq]
      intro x hx
      rcases List.mem_append.1 hx with hx | hx
      · exact hacc x hx
      · rw [List.mem_singleton.1 hx]
        exact hp

/-- A sweep that adds nothing leaves every type it passed collected or not finite given the
set. -/
theorem foldl_sweepStep_stable (L : List (String × SchemaType)) (acc : List String)
    (h : (L.foldl ts.sweepStep acc).length = acc.length) :
    ∀ p ∈ L, p.1 ∈ acc ∨ ts.finiteGiven acc p.2 = false := by
  induction L generalizing acc with
  | nil => simp
  | cons p L ih =>
    rw [List.foldl_cons] at h
    rcases sweepStep_cases ts acc p with ⟨heq, hp⟩ | ⟨-, -, heq⟩
    · rw [heq] at h
      intro q hq
      rcases List.mem_cons.1 hq with rfl | hq
      · exact hp
      · exact ih acc h q hq
    · have hlen := (prefix_foldl_sweepStep ts L (ts.sweepStep acc p)).length_le
      rw [heq] at h hlen
      rw [List.length_append, List.length_singleton] at hlen
      omega

/-- A sweep that changes the set collects a declared name that was not in it. -/
theorem foldl_sweepStep_grows (L : List (String × SchemaType)) (acc : List String)
    (h : (L.foldl ts.sweepStep acc).length ≠ acc.length) :
    ∃ p ∈ L, p.1 ∉ acc ∧ p.1 ∈ L.foldl ts.sweepStep acc := by
  induction L generalizing acc with
  | nil => simp at h
  | cons p L ih =>
    rw [List.foldl_cons] at h ⊢
    rcases sweepStep_cases ts acc p with ⟨heq, -⟩ | ⟨hnew, -, heq⟩
    · rw [heq] at h ⊢
      obtain ⟨q, hq, hq'⟩ := ih acc h
      exact ⟨q, List.mem_cons_of_mem p hq, hq'⟩
    · refine ⟨p, List.mem_cons_self, hnew, ?_⟩
      apply (prefix_foldl_sweepStep ts L (ts.sweepStep acc p)).subset
      rw [heq]
      exact List.mem_append_right acc (List.mem_singleton_self p.1)

/-! ## Sweeping to the fixpoint -/

/-- The number of declared names that are not in `acc`; each sweep that changes anything
lowers it. -/
def unswept (ts : TypeSystem) (acc : List String) : Nat :=
  (ts.declared.map (·.1)).countP fun x => !acc.contains x

theorem prefix_finiteFrom (fuel : Nat) (acc : List String) : acc <+: ts.finiteFrom fuel acc := by
  induction fuel generalizing acc with
  | zero => exact List.prefix_refl acc
  | succ fuel ih =>
    simp only [finiteFrom]
    split
    · exact List.prefix_refl acc
    · exact (prefix_foldl_sweepStep ts ts.declared acc).trans (ih _)

theorem finiteFrom_sound (fuel : Nat) (acc : List String) (hacc : ∀ x ∈ acc, ts.Finite x) :
    ∀ x ∈ ts.finiteFrom fuel acc, ts.Finite x := by
  induction fuel generalizing acc with
  | zero => exact hacc
  | succ fuel ih =>
    simp only [finiteFrom]
    split
    · exact hacc
    · exact ih _ (foldl_sweepStep_sound ts.declared (fun _ hp => hp) acc hacc)

/-- With more fuel than declared names left to collect, the sweeps end at a set that no
rule extends: a declared type outside it is not finite given it. -/
theorem finiteFrom_closed (fuel : Nat) (acc : List String) (hfuel : ts.unswept acc < fuel) :
    ∀ p ∈ ts.declared, p.1 ∈ ts.finiteFrom fuel acc ∨
      ts.finiteGiven (ts.finiteFrom fuel acc) p.2 = false := by
  induction fuel generalizing acc with
  | zero => omega
  | succ fuel ih =>
    simp only [finiteFrom]
    split
    · rename_i hstable
      exact foldl_sweepStep_stable ts.declared acc (beq_iff_eq.1 hstable)
    · rename_i hgrow
      apply ih
      obtain ⟨p, hp, hout, hin⟩ :=
        foldl_sweepStep_grows ts.declared acc (fun h => hgrow (beq_iff_eq.2 h))
      have hsub : acc ⊆ ts.finiteSweep acc := (prefix_foldl_sweepStep ts ts.declared acc).subset
      have hlt : ts.unswept (ts.finiteSweep acc) < ts.unswept acc := by
        apply countP_lt_countP_of_imp
        · intro x _ hx
          have hx' : x ∉ ts.finiteSweep acc := by simpa using hx
          simpa using fun h => hx' (hsub h)
        · rw [finiteSweep_eq_foldl]
          exact ⟨p.1, List.mem_map_of_mem hp, by simpa using hout, by simpa using hin⟩
      omega

/-! ## The finite names -/

theorem preludeNames_subset_finiteNames : preludeNames ⊆ ts.finiteNames :=
  (prefix_finiteFrom _ _).subset

/-- Every name `finiteNames` collects is finite. -/
theorem finiteNames_sound {x : String} (h : x ∈ ts.finiteNames) : ts.Finite x :=
  finiteFrom_sound _ _ (fun _ hx => .prelude hx) x h

/-- `finiteNames` is closed under the rules: a declared type it leaves out is not finite
given it. -/
theorem finiteNames_closed {n : String} {t : SchemaType} (hmem : (n, t) ∈ ts.declared) :
    n ∈ ts.finiteNames ∨ ts.finiteGiven ts.finiteNames t = false := by
  have hfuel : ts.unswept preludeNames < ts.declared.length + 1 := by
    have := List.countP_le_length (p := fun x => !preludeNames.contains x)
      (l := ts.declared.map (·.1))
    rw [List.length_map] at this
    unfold unswept
    omega
  exact finiteFrom_closed _ _ hfuel _ hmem

/-- Every finite name is collected by `finiteNames`. -/
theorem mem_finiteNames_of_finite {x : String} (h : ts.Finite x) : x ∈ ts.finiteNames := by
  induction h with
  | prelude hx => exact preludeNames_subset_finiteNames hx
  | struct hmem _ ih =>
    refine (finiteNames_closed hmem).resolve_right ?_
    simp only [finiteGiven, Bool.not_eq_false, List.all_eq_true]
    intro m hm
    cases hknown : ts.contains m
    · simp
    · simp [ih m hm hknown]
  | unionEmpty hmem =>
    refine (finiteNames_closed hmem).resolve_right ?_
    simp [finiteGiven]
  | union hmem hm _ ih =>
    refine (finiteNames_closed hmem).resolve_right ?_
    simp only [finiteGiven, Bool.not_eq_false, Bool.or_eq_true, List.any_eq_true]
    refine .inr ⟨_, hm, ?_⟩
    cases hknown : ts.contains _
    · simp
    · simp [ih hknown]
  | @other n t hmem hs hu =>
    refine (finiteNames_closed hmem).resolve_right ?_
    cases t with
    | struct fields strategy => exact absurd rfl (hs fields strategy)
    | union members strategy => exact absurd rfl (hu members strategy)
    | _ => simp [finiteGiven]

/-- `finiteNames` holds exactly the names that the rules make finite. -/
theorem mem_finiteNames_iff {x : String} : x ∈ ts.finiteNames ↔ ts.Finite x :=
  ⟨finiteNames_sound, mem_finiteNames_of_finite⟩

end TypeSystem

end Ipld.Schema
