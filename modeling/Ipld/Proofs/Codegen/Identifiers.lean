import Mathlib
import Ipld.Codegen.Full
import Ipld.Codegen.Minimal

/-!
# Distinct identifiers in generated code

The generators give every struct field, enum variant and binding-table slot an identifier
made from its schema name, and number the names that come out the same with `uniqueIdents`:
a name gets the first of `x`, `x2`, `x3`, … that no earlier name took. `freshIdent` tries
at most `seen.length + 2` pairwise different candidates, so it always stops on a free one
(`freshIdent_not_mem`), and the fold gives one identifier per name, each the name's own
identifier or that identifier numbered, no two the same text (`uniqueIdents_spec`).
Distinctness is of texts: `r#x` and `x` are one Rust identifier (see `Members`).
-/

namespace Ipld.Codegen

open Schema

/-! ## The search for a free identifier -/

/-- The `i`-th identifier `freshIdent` tries: the base itself for `i = 1`, and from `2` on the
base followed by `i`. -/
def candidate (base : String) (i : Nat) : String :=
  if i < 2 then base else base ++ toString i

theorem candidate_injective {base : String} {i j : Nat} (hi : 1 ≤ i) (hj : 1 ≤ j)
    (h : candidate base i = candidate base j) : i = j := by
  unfold candidate at h
  split_ifs at h with hi2 hj2 hj2
  · omega
  · have : toString j = "" := String.append_eq_left_iff.mp h.symm
    simp at this
  · have : toString i = "" := String.append_eq_left_iff.mp h
    simp at this
  · exact Nat.repr_inj.mp ((String.append_right_inj base).mp h)

/-- The `fuel` candidates tried from the `i`-th on are different texts. -/
theorem candidates_nodup (base : String) {i : Nat} (hi : 1 ≤ i) (fuel : Nat) :
    ((List.range' i fuel).map (candidate base)).Nodup := by
  refine List.Nodup.map_on ?_ List.nodup_range'
  intro x hx y hy hxy
  rw [List.mem_range'_1] at hx hy
  exact candidate_injective (by omega) (by omega) hxy

/-- From the first candidate on, the search moves up one candidate at a time. -/
theorem freshIdent_succ (seen : List String) (base : String) (fuel : Nat) {i : Nat}
    (hi : 1 ≤ i) :
    freshIdent seen base (fuel + 1) i =
      if candidate base i ∈ seen then freshIdent seen base fuel (i + 1)
      else candidate base i := by
  have hnext : (if i < 2 then 2 else i + 1) = i + 1 := by split <;> omega
  simp only [freshIdent, hnext]
  exact if_congr List.contains_iff_mem rfl rfl

/-- The search ends on a free candidate, unless every candidate it tried was taken. -/
theorem freshIdent_free_or_taken (seen : List String) (base : String) (fuel : Nat) {i : Nat}
    (hi : 1 ≤ i) :
    freshIdent seen base fuel i ∉ seen ∨
      ∀ j ∈ List.range' i fuel, candidate base j ∈ seen := by
  induction fuel generalizing i with
  | zero => simp
  | succ fuel ih =>
    rw [freshIdent_succ seen base fuel hi]
    by_cases hc : candidate base i ∈ seen
    · rw [if_pos hc]
      refine (ih (by omega : 1 ≤ i + 1)).imp_right fun htaken j hj => ?_
      rw [List.range'_succ, List.mem_cons] at hj
      rcases hj with rfl | hj
      · exact hc
      · exact htaken j hj
    · rw [if_neg hc]
      exact Or.inl hc

/-- With more tries than taken identifiers, the search ends on a free one. -/
theorem freshIdent_not_mem {seen : List String} {base : String} {fuel : Nat}
    (h : seen.length < fuel) : freshIdent seen base fuel 1 ∉ seen := by
  refine (freshIdent_free_or_taken seen base fuel le_rfl).resolve_right fun htaken => ?_
  have hsub : (List.range' 1 fuel).map (candidate base) ⊆ seen := by
    intro x hx
    obtain ⟨j, hj, rfl⟩ := List.mem_map.1 hx
    exact htaken j hj
  have hle := (candidates_nodup base le_rfl fuel).length_le_of_subset hsub
  simp only [List.length_map, List.length_range'] at hle
  omega

/-- What the search returns is one of the candidates. -/
theorem freshIdent_eq_candidate (seen : List String) (base : String) (fuel : Nat) {i : Nat}
    (hi : 1 ≤ i) : ∃ k, freshIdent seen base fuel i = candidate base k := by
  induction fuel generalizing i with
  | zero => exact ⟨1, rfl⟩
  | succ fuel ih =>
    rw [freshIdent_succ seen base fuel hi]
    split
    · exact ih (by omega)
    · exact ⟨i, rfl⟩

theorem candidate_numbered (base : String) (k : Nat) :
    candidate base k = base ∨ ∃ j, 2 ≤ j ∧ candidate base k = base ++ toString j := by
  unfold candidate
  split
  · exact Or.inl rfl
  · exact Or.inr ⟨k, by omega, rfl⟩

/-! ## Numbering a list of names -/

/-- One step of `uniqueIdents`: the identifiers given so far, newest first, and the list
written so far. -/
def identStep (ident : String → String) (acc : List String × List String) (n : String) :
    List String × List String :=
  let fresh := freshIdent acc.1 (ident n) (acc.1.length + 2) 1
  (fresh :: acc.1, acc.2 ++ [fresh])

theorem uniqueIdents_eq_foldl (names : List String) (ident : String → String) :
    uniqueIdents names ident = (names.foldl (identStep ident) ([], [])).2 := rfl

/-- The fold keeps the identifiers taken as the list written, reversed; each step writes a
free identifier, so the list stays free of repeats. -/
theorem foldl_identStep (ident : String → String) (names : List String) {out : List String}
    (hout : out.Nodup) :
    ∃ new,
      names.foldl (identStep ident) (out.reverse, out) = ((out ++ new).reverse, out ++ new) ∧
        (out ++ new).Nodup ∧
        List.Forall₂ (fun n s => s = ident n ∨ ∃ k, 2 ≤ k ∧ s = ident n ++ toString k)
          names new := by
  induction names generalizing out with
  | nil => exact ⟨[], by simp, by simpa using hout, .nil⟩
  | cons n names ih =>
    set fresh := freshIdent out.reverse (ident n) (out.reverse.length + 2) 1 with hfresh
    have hfree : fresh ∉ out.reverse := freshIdent_not_mem (by omega)
    rw [List.mem_reverse] at hfree
    have hstep :
        identStep ident (out.reverse, out) n = ((out ++ [fresh]).reverse, out ++ [fresh]) := by
      simp [identStep, hfresh]
    have hout' : (out ++ [fresh]).Nodup := List.nodup_append.2
      ⟨hout, List.nodup_singleton fresh,
        by simpa using fun a ha => ne_of_mem_of_not_mem ha hfree⟩
    obtain ⟨new, hfold, hnodup, hnames⟩ := ih hout'
    refine ⟨fresh :: new, ?_, by simpa using hnodup, .cons ?_ hnames⟩
    · simpa [hstep] using hfold
    · obtain ⟨k, hk⟩ :=
        freshIdent_eq_candidate out.reverse (ident n) (out.reverse.length + 2) le_rfl
      rw [← hfresh] at hk
      rw [hk]
      exact candidate_numbered (ident n) k

/-- `uniqueIdents` gives each name its identifier, numbered from 2 where an earlier name took
it, and no two names the same text. -/
theorem uniqueIdents_spec (names : List String) (ident : String → String) :
    (uniqueIdents names ident).Nodup ∧
      List.Forall₂ (fun n s => s = ident n ∨ ∃ k, 2 ≤ k ∧ s = ident n ++ toString k)
        names (uniqueIdents names ident) := by
  obtain ⟨new, hfold, hnodup, hnames⟩ := foldl_identStep ident names List.nodup_nil
  have hnew : uniqueIdents names ident = new := by
    simpa [uniqueIdents_eq_foldl] using congrArg Prod.snd hfold
  rw [hnew]
  exact ⟨by simpa using hnodup, hnames⟩

/-- `type`, `Type` and `type2` are three texts, though `r#type2` and `type2` spell one Rust
identifier. -/
example : uniqueIdents ["type", "Type", "type2"] fieldIdent = ["r#type", "r#type2", "type2"] := by
  decide

theorem uniqueIdents_length (names : List String) (ident : String → String) :
    (uniqueIdents names ident).length = names.length :=
  ((uniqueIdents_spec names ident).2.length_eq).symm

/-- The first name keeps its own identifier. -/
theorem uniqueIdents_cons (n : String) (names : List String) (ident : String → String) :
    ∃ rest, uniqueIdents (n :: names) ident = ident n :: rest := by
  obtain ⟨new, hfold, -, -⟩ := foldl_identStep ident names (List.nodup_singleton (ident n))
  refine ⟨new, ?_⟩
  have hfirst : freshIdent [] (ident n) 2 1 = ident n := rfl
  simpa [uniqueIdents_eq_foldl, identStep, hfirst] using congrArg Prod.snd hfold

/-- The fold over the names keeps, beside the identifiers written, the same identifiers
newest first. -/
theorem foldl_identStep_nil (ident : String → String) (names : List String) :
    names.foldl (identStep ident) ([], []) =
      ((uniqueIdents names ident).reverse, uniqueIdents names ident) := by
  obtain ⟨new, hfold, -, -⟩ := foldl_identStep ident names List.nodup_nil
  have hnew : uniqueIdents names ident = new := by
    simpa [uniqueIdents_eq_foldl] using congrArg Prod.snd hfold
  simpa [hnew] using hfold

/-- A name is numbered against the identifiers of the names before it: the identifiers of a
longer list extend those of a shorter one by the search for the new name. -/
theorem uniqueIdents_append_singleton (names : List String) (n : String)
    (ident : String → String) :
    uniqueIdents (names ++ [n]) ident =
      uniqueIdents names ident ++
        [freshIdent (uniqueIdents names ident).reverse (ident n)
          ((uniqueIdents names ident).length + 2) 1] := by
  rw [uniqueIdents_eq_foldl, List.foldl_append, foldl_identStep_nil]
  simp [identStep]

/-- Names added at the end leave the identifiers of the earlier names as they were. -/
theorem uniqueIdents_append (first more : List String) (ident : String → String) :
    ∃ new, uniqueIdents (first ++ more) ident = uniqueIdents first ident ++ new := by
  obtain ⟨new, hfold, -, -⟩ :=
    foldl_identStep ident more (uniqueIdents_spec first ident).1
  refine ⟨new, ?_⟩
  rw [uniqueIdents_eq_foldl, List.foldl_append, foldl_identStep_nil, hfold]

/-- The identifier of the `i`-th name is the search for it among the identifiers of the names
before it. -/
theorem uniqueIdents_getElem? (ident : String → String) {names : List String} {i : Nat}
    {n : String} (hn : names[i]? = some n) :
    (uniqueIdents names ident)[i]? =
      some (freshIdent ((uniqueIdents names ident).take i).reverse (ident n) (i + 2) 1) ∧
      (uniqueIdents names ident).take i = uniqueIdents (names.take i) ident := by
  obtain ⟨hi, hat⟩ := List.getElem?_eq_some_iff.1 hn
  have hsplit : names = names.take i ++ [n] ++ names.drop (i + 1) := by
    rw [List.append_assoc, List.singleton_append, ← hat, List.getElem_cons_drop,
      List.take_append_drop]
  have hpre : (uniqueIdents (names.take i) ident).length = i := by
    rw [uniqueIdents_length, List.length_take, Nat.min_eq_left hi.le]
  obtain ⟨new, hnew⟩ := uniqueIdents_append (names.take i ++ [n]) (names.drop (i + 1)) ident
  rw [← hsplit, uniqueIdents_append_singleton, hpre] at hnew
  rw [hnew]
  constructor
  · rw [List.append_assoc, List.take_left' hpre, List.getElem?_append_right hpre.le, hpre,
      Nat.sub_self]
    rfl
  · rw [List.append_assoc, List.take_left' hpre]

/-- `uniqueIdents` disambiguates: one identifier per name, no two the same text, the `i`-th
being the name's own identifier, or that identifier followed by a number from 2 on, and the
identifier itself whenever none of the earlier ones took it. The search for a free number
is bounded, and the bound is never reached. -/
theorem uniqueIdents_disambiguates (names : List String) (ident : String → String) :
    (uniqueIdents names ident).length = names.length ∧
      (uniqueIdents names ident).Nodup ∧
      ∀ (i : Nat) (n : String), names[i]? = some n →
        ∃ s, (uniqueIdents names ident)[i]? = some s ∧
          (s = ident n ∨ ∃ k, 2 ≤ k ∧ s = ident n ++ toString k) ∧
          (ident n ∉ (uniqueIdents names ident).take i → s = ident n) := by
  refine ⟨uniqueIdents_length names ident, (uniqueIdents_spec names ident).1, ?_⟩
  intro i n hn
  obtain ⟨hget, -⟩ := uniqueIdents_getElem? ident hn
  refine ⟨_, hget, ?_, fun hfree => ?_⟩
  · obtain ⟨k, hk⟩ := freshIdent_eq_candidate
      ((uniqueIdents names ident).take i).reverse (ident n) (i + 2) le_rfl
    rw [hk]
    exact candidate_numbered (ident n) k
  · rw [freshIdent_succ _ _ _ le_rfl, if_neg (by simpa [candidate] using hfree)]
    rfl

/-- The third `a` skips `a2`, which the name `a2` took before it. -/
example : uniqueIdents ["a", "a2", "a", "a"] id = ["a", "a2", "a3", "a4"] := by decide

/-! ## The generators' identifiers -/

/-- Full bindings name a struct's fields as `uniqueIdents` numbers them. -/
theorem fieldPlans_idents (fields : List StructField) :
    (fieldPlans fields).map (·.ident) = uniqueIdents (fields.map (·.name)) fieldIdent := by
  have hlen : (uniqueIdents (fields.map (·.name)) fieldIdent).length ≤ fields.length := by
    simp [uniqueIdents_length]
  unfold fieldPlans
  rw [List.map_map]
  exact List.map_snd_zip hlen

end Ipld.Codegen
