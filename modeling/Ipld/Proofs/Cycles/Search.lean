import Mathlib
import Ipld.Proofs.Cycles.Finite

/-!
# Searching for cycles

`cycleThrough finite start` searches depth first for a path of required references from
`start` back to itself that avoids the names in `finite`. The search is complete: when it
finds nothing, there is no such cycle (`not_transGen_of_cycleThrough`). Its fuel of one level
per type suffices, since each level it descends marks one more type of the system as seen.

With the least set of finite names this gives what the recursion check means
(`recursionErrors_eq_nil_iff`): it reports nothing exactly when every declared type is
finite. A declared type outside `finiteNames` has a required reference to another such type;
following these references from it must come back to a type passed before, and the search
from that type finds the cycle.
-/

namespace Ipld.Schema

/-- If every element of a finite set has a successor in the set, some element of the set
lies on a cycle. -/
theorem exists_transGen_self_of_forall_exists {α : Type} {R : α → α → Prop} {S : Finset α}
    (hstep : ∀ a ∈ S, ∃ b ∈ S, R a b) {a : α} (ha : a ∈ S) :
    ∃ c ∈ S, Relation.TransGen R c c := by
  classical
  induction hk : (S.filter (Relation.TransGen R a)).card using Nat.strong_induction_on
    generalizing a with
  | _ k ih =>
    obtain ⟨b, hb, hab⟩ := hstep a ha
    by_cases hbb : Relation.TransGen R b b
    · exact ⟨b, hb, hbb⟩
    · have hsub : S.filter (Relation.TransGen R b) ⊂ S.filter (Relation.TransGen R a) := by
        refine Finset.ssubset_iff_of_subset ?_ |>.2 ⟨b, ?_, ?_⟩
        · intro x hx
          simp only [Finset.mem_filter] at hx ⊢
          exact ⟨hx.1, Relation.TransGen.head hab hx.2⟩
        · simp only [Finset.mem_filter]
          exact ⟨hb, .single hab⟩
        · simp only [Finset.mem_filter, not_and]
          exact fun _ => hbb
      exact ih _ (hk ▸ Finset.card_lt_card hsub) hb rfl

namespace TypeSystem

variable {ts : TypeSystem} {finite : List String} {start : String}

/-- A required reference from `a` to a type `b` outside `finite`: a step the search
follows. -/
def Hop (ts : TypeSystem) (finite : List String) (a b : String) : Prop :=
  ∃ t, ts.get? a = some t ∧ b ∈ t.required ∧ b ∉ finite

/-- Every step the search can take from `x` leads to a name in `seen` other than `start`. -/
def Explored (ts : TypeSystem) (finite : List String) (start : String) (seen : List String)
    (x : String) : Prop :=
  ∀ y, ts.Hop finite x y → y ≠ start ∧ y ∈ seen

theorem Explored.mono {S S' : List String} {x : String} (h : ts.Explored finite start S x)
    (hS : S ⊆ S') : ts.Explored finite start S' x :=
  fun y hy => ⟨(h y hy).1, hS (h y hy).2⟩

/-- What a search from `here` that found no cycle leaves behind, when it started from the
seen names `seen` and ended with `S`: it only added names, every step from `here` is
explored, and so is every step from each name it added. -/
structure Searched (ts : TypeSystem) (finite : List String) (start : String)
    (seen S : List String) (here : String) : Prop where
  grows : seen ⊆ S
  here_explored : ts.Explored finite start S here
  added_explored : ∀ x ∈ S, x ∉ seen → ts.Explored finite start S x

/-- The number of names of the system, other than `start`, that are not seen; the fuel the
search needs. -/
def unseen (ts : TypeSystem) (start : String) (seen : List String) : Nat :=
  ts.names.countP fun x => !seen.contains x && x != start

theorem unseen_anti {S S' : List String} (h : S ⊆ S') : ts.unseen start S' ≤ ts.unseen start S := by
  apply List.countP_mono_left
  intro x _ hx
  simp only [List.contains_eq_mem, Bool.and_eq_true, Bool.not_eq_eq_eq_not, Bool.not_true,
    decide_eq_false_iff_not, bne_iff_ne, ne_eq] at hx ⊢
  exact ⟨fun hm => hx.1 (h hm), hx.2⟩

theorem unseen_cons_lt {S : List String} {x : String} (hx : x ∈ ts.names) (hS : x ∉ S)
    (hstart : x ≠ start) : ts.unseen start (x :: S) < ts.unseen start S := by
  apply countP_lt_countP_of_imp
  · intro y _ hy
    simp only [List.contains_eq_mem, List.mem_cons, Bool.decide_or, Bool.not_or, Bool.and_eq_true,
      Bool.not_eq_eq_eq_not, Bool.not_true, decide_eq_false_iff_not, bne_iff_ne, ne_eq] at hy ⊢
    exact ⟨hy.1.2, hy.2⟩
  · exact ⟨x, hx, by simp [hS, hstart], by simp⟩

/-! ## One step of the search -/

/-- The function the search from `here` folds over the required references of `here`. -/
def cycleStep (ts : TypeSystem) (finite : List String) (start : String) (fuel : Nat)
    (here : String) : Option (List String) × List String → String → Option (List String) × List String
  | (found, seen), next =>
    match found with
    | some p => (some p, seen)
    | none =>
      if finite.contains next then (none, seen)
      else if next == start then (some [here, next], seen)
      else if seen.contains next then (none, seen)
      else
        match ts.cycleFrom finite start fuel next (next :: seen) with
        | (some p, s) => (some (here :: p), s)
        | (none, s) => (none, s)

theorem cycleFrom_succ (fuel : Nat) (here : String) (seen : List String) :
    ts.cycleFrom finite start (fuel + 1) here seen =
      match ts.get? here with
      | none => (none, seen)
      | some t => t.required.foldl (ts.cycleStep finite start fuel here) (none, seen) := rfl

/-- Once a cycle is found the rest of the fold keeps it. -/
theorem foldl_cycleStep_found (fuel : Nat) (here : String) (p : List String) :
    ∀ (L seen : List String),
      L.foldl (ts.cycleStep finite start fuel here) (some p, seen) = (some p, seen)
  | [], _ => rfl
  | _ :: L, seen => foldl_cycleStep_found fuel here p L seen

/-- The fold over the references of `here`, when it finds no cycle: every reference outside
`finite` is not `start` and is seen at the end, and every name it added is explored, given
that each search one level down does the same. -/
theorem foldl_cycleStep_none {fuel : Nat} {here : String}
    (ih : ∀ next seen S, (ts.unseen start seen < fuel ∨ ts.get? next = none) →
      ts.cycleFrom finite start fuel next seen = (none, S) →
      ts.Searched finite start seen S next) :
    ∀ (L S₀ S₁ : List String), ts.unseen start S₀ ≤ fuel →
      L.foldl (ts.cycleStep finite start fuel here) (none, S₀) = (none, S₁) →
      S₀ ⊆ S₁ ∧ (∀ y ∈ L, y ∉ finite → y ≠ start ∧ y ∈ S₁) ∧
        ∀ x ∈ S₁, x ∉ S₀ → ts.Explored finite start S₁ x := by
  intro L
  induction L with
  | nil =>
    intro S₀ S₁ _ h
    cases h
    exact ⟨fun _ hx => hx, by simp, fun _ hx hx' => absurd hx hx'⟩
  | cons next L ihL =>
    intro S₀ S₁ hfuel h
    rw [List.foldl_cons] at h
    have keep : ts.cycleStep finite start fuel here (none, S₀) next = (none, S₀) →
        (next ∉ finite → next ≠ start ∧ next ∈ S₀) → S₀ ⊆ S₁ ∧
          (∀ y ∈ next :: L, y ∉ finite → y ≠ start ∧ y ∈ S₁) ∧
            ∀ x ∈ S₁, x ∉ S₀ → ts.Explored finite start S₁ x := by
      intro hstep hnext
      rw [hstep] at h
      obtain ⟨hsub, hL, hadded⟩ := ihL S₀ S₁ hfuel h
      refine ⟨hsub, fun y hy hfin => ?_, hadded⟩
      rcases List.mem_cons.1 hy with rfl | hy
      · exact ⟨(hnext hfin).1, hsub (hnext hfin).2⟩
      · exact hL y hy hfin
    by_cases hfin : next ∈ finite
    · exact keep (by simp [cycleStep, hfin]) (fun h' => absurd hfin h')
    by_cases hstart : next = start
    · subst hstart
      have hstep : ts.cycleStep finite next fuel here (none, S₀) next =
          (some [here, next], S₀) := by simp [cycleStep, hfin]
      rw [hstep, foldl_cycleStep_found] at h
      cases h
    by_cases hseen : next ∈ S₀
    · exact keep (by simp [cycleStep, hfin, hstart, hseen]) (fun _ => ⟨hstart, hseen⟩)
    rcases hrec : ts.cycleFrom finite start fuel next (next :: S₀) with ⟨found, S₂⟩
    cases found with
    | some p =>
      have hstep : ts.cycleStep finite start fuel here (none, S₀) next =
          (some (here :: p), S₂) := by simp [cycleStep, hfin, hstart, hseen, hrec]
      rw [hstep, foldl_cycleStep_found] at h
      cases h
    | none =>
      have hstep : ts.cycleStep finite start fuel here (none, S₀) next = (none, S₂) := by
        simp [cycleStep, hfin, hstart, hseen, hrec]
      rw [hstep] at h
      have hfuel' : ts.unseen start (next :: S₀) < fuel ∨ ts.get? next = none := by
        cases hget : ts.get? next with
        | none => exact .inr rfl
        | some t =>
          have hname : next ∈ ts.names :=
            List.mem_map_of_mem (f := (·.1)) (mem_of_lookup_eq hget)
          exact .inl (Nat.lt_of_lt_of_le (unseen_cons_lt hname hseen hstart) hfuel)
      have hnext := ih next (next :: S₀) S₂ hfuel' hrec
      have hsub₀ : S₀ ⊆ S₂ := fun x hx => hnext.grows (List.mem_cons_of_mem next hx)
      obtain ⟨hsub, hL, hadded⟩ :=
        ihL S₂ S₁ (Nat.le_trans (unseen_anti hsub₀) hfuel) h
      refine ⟨List.Subset.trans hsub₀ hsub, fun y hy hfin' => ?_, fun x hx hx₀ => ?_⟩
      · rcases List.mem_cons.1 hy with rfl | hy
        · exact ⟨hstart, hsub (hnext.grows List.mem_cons_self)⟩
        · exact hL y hy hfin'
      · by_cases hx₂ : x ∈ S₂
        · by_cases hxn : x = next
          · subst hxn
            exact hnext.here_explored.mono hsub
          · have hx' : x ∉ next :: S₀ := by simp [hxn, hx₀]
            exact (hnext.added_explored x hx₂ hx').mono hsub
        · exact hadded x hx hx₂

/-! ## The whole search -/

/-- A name that is no type of the system has no step to explore. -/
theorem explored_of_get?_eq_none {S : List String} {x : String} (h : ts.get? x = none) :
    ts.Explored finite start S x := by
  rintro y ⟨t, ht, -⟩
  rw [h] at ht
  cases ht

/-- A search that finds no cycle explores every step from where it starts and from each
name it adds, given fuel above the number of unseen names, or a start that is no type. -/
theorem cycleFrom_none (fuel : Nat) : ∀ here seen S,
    (ts.unseen start seen < fuel ∨ ts.get? here = none) →
    ts.cycleFrom finite start fuel here seen = (none, S) → ts.Searched finite start seen S here := by
  induction fuel with
  | zero =>
    intro here seen S hfuel h
    cases h
    have hget : ts.get? here = none := hfuel.resolve_left (Nat.not_lt_zero _)
    exact ⟨fun _ hx => hx, explored_of_get?_eq_none hget, fun _ hx hx' => absurd hx hx'⟩
  | succ fuel ih =>
    intro here seen S hfuel h
    rw [cycleFrom_succ] at h
    cases hget : ts.get? here with
    | none =>
      rw [hget] at h
      cases h
      exact ⟨fun _ hx => hx, explored_of_get?_eq_none hget, fun _ hx hx' => absurd hx hx'⟩
    | some t =>
      rw [hget] at h
      have hfuel' : ts.unseen start seen ≤ fuel := by
        rcases hfuel with hlt | hnone
        · omega
        · rw [hget] at hnone
          cases hnone
      obtain ⟨hsub, hreq, hadded⟩ := foldl_cycleStep_none ih t.required seen S hfuel' h
      refine ⟨hsub, ?_, hadded⟩
      rintro y ⟨t', ht', hy, hfin⟩
      rw [hget] at ht'
      cases ht'
      exact hreq y hy hfin

/-- The search is complete: when the search through `start` finds nothing, no cycle of
required references through types outside `finite` passes through `start`. -/
theorem not_transGen_of_cycleThrough (h : ts.cycleThrough finite start = none) :
    ¬ Relation.TransGen (ts.Hop finite) start start := by
  rcases hrun : ts.cycleFrom finite start (ts.size + 1) start [] with ⟨found, S⟩
  have hfound : found = none := by
    simpa [cycleThrough, hrun] using h
  subst hfound
  have hfuel : ts.unseen start [] < ts.size + 1 := by
    have hle : ts.unseen start [] ≤ ts.names.length := List.countP_le_length
    rw [names, List.length_map] at hle
    exact Nat.lt_succ_of_le hle
  have hs := cycleFrom_none (ts.size + 1) start [] S (.inl hfuel) hrun
  have hreach : ∀ y, Relation.TransGen (ts.Hop finite) start y → y ≠ start ∧ y ∈ S := by
    intro y hy
    induction hy with
    | single hop => exact hs.here_explored _ hop
    | tail _ hop ih => exact hs.added_explored _ ih.2 List.not_mem_nil _ hop
  exact fun hc => (hreach start hc).1 rfl

/-! ## What the recursion check means -/

/-- A type that is not finite given `F` has a required reference to a type of the system
outside `F`. -/
theorem exists_required_of_finiteGiven {F : List String} {t : SchemaType}
    (h : ts.finiteGiven F t = false) : ∃ b ∈ t.required, b ∉ F ∧ ts.contains b = true := by
  cases t with
  | struct fields strategy =>
    simp only [finiteGiven, List.contains_eq_mem, List.all_eq_false, Bool.or_eq_true,
      decide_eq_true_eq, Bool.not_eq_eq_eq_not, Bool.not_true, not_or, Bool.not_eq_false] at h
    exact h
  | union members strategy =>
    simp only [finiteGiven, List.contains_eq_mem, Bool.or_eq_false_iff, List.isEmpty_eq_false_iff,
      ne_eq, List.any_eq_false, Bool.or_eq_true, decide_eq_true_eq, Bool.not_eq_eq_eq_not,
      Bool.not_true, not_or, Bool.not_eq_false] at h
    obtain ⟨hne, hall⟩ := h
    obtain ⟨m, hm⟩ := List.exists_mem_of_ne_nil members hne
    exact ⟨m.type, List.mem_map_of_mem hm, hall m hm⟩
  | bool | int | float | string | bytes | link _ | list _ _ | map _ _ _ _ | enum _ _ =>
    simp [finiteGiven] at h

theorem declared_eq {rest : List (String × SchemaType)} (hts : ts.types = prelude ++ rest) :
    ts.declared = rest := by
  rw [declared, hts]
  exact List.drop_left' rfl

theorem names_eq {rest : List (String × SchemaType)} (hts : ts.types = prelude ++ rest) :
    ts.names = preludeNames ++ rest.map (·.1) := by
  rw [names, hts, List.map_append]
  rfl

/-- In a system with distinct names and the prelude first, a declared type outside
`finiteNames` has a required reference to another declared type outside it. -/
theorem exists_hop_of_not_mem_finiteNames {rest : List (String × SchemaType)} (hnd : ts.names.Nodup)
    (hts : ts.types = prelude ++ rest) {n : String} {t : SchemaType} (hmem : (n, t) ∈ ts.declared)
    (hn : n ∉ ts.finiteNames) :
    ∃ b, ts.Hop ts.finiteNames n b ∧ b ∈ ts.declared.map (·.1) ∧ b ∉ ts.finiteNames := by
  have hget : ts.get? n = some t := by
    apply get?_eq_of_mem hnd
    rw [hts]
    exact List.mem_append_right prelude (declared_eq hts ▸ hmem)
  obtain ⟨b, hb, hbF, hknown⟩ :=
    exists_required_of_finiteGiven ((finiteNames_closed hmem).resolve_left hn)
  have hbnames : b ∈ ts.names := by
    obtain ⟨u, hu⟩ := Option.isSome_iff_exists.1 hknown
    exact List.mem_map_of_mem (f := (·.1)) (mem_of_lookup_eq hu)
  rw [names_eq hts, List.mem_append] at hbnames
  have hbdecl : b ∈ ts.declared.map (·.1) := by
    rw [declared_eq hts]
    exact hbnames.resolve_left fun hp => hbF (preludeNames_subset_finiteNames hp)
  exact ⟨b, ⟨t, hget, hb, hbF⟩, hbdecl, hbF⟩

/-- When the check reports nothing, the search found no cycle through any declared type
outside `finiteNames`. -/
theorem cycleThrough_eq_none (h : ts.recursionErrors = []) {n : String} {t : SchemaType}
    (hmem : (n, t) ∈ ts.declared) (hn : n ∉ ts.finiteNames) :
    ts.cycleThrough ts.finiteNames n = none := by
  simp only [recursionErrors, List.filterMap_eq_nil_iff] at h
  simpa [hn] using h (n, t) hmem

/-- The recursion check reports nothing exactly when every declared type is finite. -/
theorem recursionErrors_eq_nil_iff {rest : List (String × SchemaType)} (hnd : ts.names.Nodup)
    (hts : ts.types = prelude ++ rest) :
    ts.recursionErrors = [] ↔ ∀ p ∈ ts.declared, ts.Finite p.1 := by
  constructor
  · intro h
    rintro ⟨n, t⟩ hmem
    by_contra hfin
    have hn : n ∉ ts.finiteNames := fun h' => hfin (finiteNames_sound h')
    classical
    let S : Finset String := ((ts.declared.map (·.1)).filter (· ∉ ts.finiteNames)).toFinset
    have hmemS : ∀ {x}, x ∈ S ↔ x ∈ ts.declared.map (·.1) ∧ x ∉ ts.finiteNames := by
      intro x
      simp [S]
    have hstep : ∀ a ∈ S, ∃ b ∈ S, ts.Hop ts.finiteNames a b := by
      intro a ha
      obtain ⟨⟨a', u⟩, hau, rfl⟩ := List.mem_map.1 (hmemS.1 ha).1
      obtain ⟨b, hop, hb, hbF⟩ := exists_hop_of_not_mem_finiteNames hnd hts hau (hmemS.1 ha).2
      exact ⟨b, hmemS.2 ⟨hb, hbF⟩, hop⟩
    have hnS : n ∈ S := hmemS.2 ⟨List.mem_map_of_mem hmem, hn⟩
    obtain ⟨c, hc, hcycle⟩ := exists_transGen_self_of_forall_exists hstep hnS
    obtain ⟨⟨c', u⟩, hcu, rfl⟩ := List.mem_map.1 (hmemS.1 hc).1
    exact not_transGen_of_cycleThrough (cycleThrough_eq_none h hcu (hmemS.1 hc).2) hcycle
  · intro h
    simp only [recursionErrors, List.filterMap_eq_nil_iff]
    rintro ⟨n, t⟩ hmem
    simp [mem_finiteNames_of_finite (h _ hmem)]

/-- Every type of a compiled system is finite. -/
theorem Compiled.finite_of_mem (h : ts.Compiled) : ∀ n ∈ ts.names, ts.Finite n := by
  obtain ⟨rest, hts⟩ := h.prelude_first
  intro n hn
  rw [names_eq hts, List.mem_append] at hn
  rcases hn with hpre | hdecl
  · exact .prelude hpre
  · obtain ⟨⟨n', t⟩, hp, rfl⟩ := List.mem_map.1 hdecl
    exact (recursionErrors_eq_nil_iff h.nodup hts).1 h.acyclic _ (declared_eq hts ▸ hp)

end TypeSystem

end Ipld.Schema
