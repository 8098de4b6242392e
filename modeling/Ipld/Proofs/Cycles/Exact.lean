import Mathlib
import Ipld.Proofs.Cycles.Search
import Ipld.Proofs.Compile.ErrorOrder

/-!
# The recursion check is exact

The recursion pass runs on the system the compiler assembles from a document
(`Document.system`) and reports exactly what it should: `finiteNames` is the least set the
finiteness rules build (`TypeSystem.Finite`); a declared type is reported exactly when it is
not finite and lies on a cycle of required references outside that set, with such a cycle as
its path (`HopPath`, `cycleFrom_hopPath`); and something is reported as soon as a declared
type is not finite. The search's completeness is in `Ipld.Proofs.Cycles.Search`.
-/

namespace Ipld.Schema

/-! ## The system the compiler checks -/

/-- Keeping some entries of a keyed list under their keys keeps a sublist of the keys. -/
theorem keys_filterMap_sublist {β γ : Type} {l : List (String × β)}
    {f : String × β → Option (String × γ)} (hf : ∀ p q, f p = some q → q.1 = p.1) :
    ((l.filterMap f).map (·.1)).Sublist (l.map (·.1)) := by
  induction l with
  | nil => simp
  | cons p l ih =>
    rw [List.filterMap_cons]
    cases hp : f p with
    | none => exact ih.cons _
    | some q =>
      simp only [List.map_cons, hf p q hp]
      exact ih.cons_cons _

/-- The names pass adds only fresh names that are not prelude names to the table. -/
theorem foldl_nameStep_fresh (l : List (String × TypeDefinition)) :
    ∀ (t : List (String × TypeDefinition)) (e : List SchemaError),
      (t.map (·.1)).Nodup → (∀ x ∈ t.map (·.1), x ∉ preludeNames) →
      ((l.foldl nameStep (t, e)).1.map (·.1)).Nodup ∧
        ∀ x ∈ (l.foldl nameStep (t, e)).1.map (·.1), x ∉ preludeNames := by
  induction l with
  | nil => exact fun _ _ hnd hpre => ⟨hnd, hpre⟩
  | cons decl l ih =>
    intro t e hnd hpre
    obtain ⟨name, defn⟩ := decl
    rw [List.foldl_cons]
    rcases nameStep_cases t e name defn with ⟨hs, hp, -, hfresh⟩ | ⟨err, hs⟩
    · rw [hs]
      apply ih
      · rw [List.map_append, List.nodup_append]
        exact ⟨hnd, by simp, by simpa using fun a ha => ne_of_mem_of_not_mem ha hfresh⟩
      · intro x hx
        rw [List.map_append, List.mem_append] at hx
        rcases hx with hx | hx
        · exact hpre x hx
        · obtain rfl : x = name := by simpa using hx
          exact hp
    · rw [hs]
      exact ih t _ hnd hpre

/-- Whatever else the names pass reports, its table holds each name once and no prelude
name. -/
theorem nameTable_fresh (d : Document) :
    ((nameTable d).1.map (·.1)).Nodup ∧ ∀ x ∈ (nameTable d).1.map (·.1), x ∉ preludeNames := by
  rw [nameTable_eq_foldl]
  exact foldl_nameStep_fresh d.types [] [] (by simp) (by simp)

namespace Document

/-- The system the compiler assembles from a document and checks, passes that report
something included. -/
def system (d : Document) : TypeSystem := (assemble d.drafts).1

theorem system_types (d : Document) : d.system.types = prelude ++ d.system.declared := by
  rw [system, assemble_types, declared_assemble]

/-- The assembled system holds each name once: its declared names are table names. -/
theorem system_names_nodup (d : Document) : d.system.names.Nodup := by
  obtain ⟨hnd, hfresh⟩ := nameTable_fresh d
  have hsub : (d.system.declared.map (·.1)).Sublist ((nameTable d).1.map (·.1)) := by
    rw [system, declared_assemble]
    refine (keys_filterMap_sublist fun p q hq => ?_).trans ?_
    · obtain ⟨t, -, rfl⟩ := Option.map_eq_some_iff.1 hq
      rfl
    · rw [drafts_eq]
      refine keys_filterMap_sublist fun p q hq => ?_
      obtain ⟨dr, -, rfl⟩ := Option.map_eq_some_iff.1 hq
      rfl
  rw [TypeSystem.names, system_types, List.map_append, prelude_names, List.nodup_append]
  refine ⟨by decide, hsub.nodup hnd, ?_⟩
  intro a ha b hb hab
  subst hab
  exact hfresh a (hsub.subset hb) ha

end Document

namespace TypeSystem

variable {ts : TypeSystem} {finite : List String} {start : String}

/-! ## Paths of required references -/

/-- `path` runs from `a` to `b` in one or more required references, each to a type outside
`finite`. -/
def HopPath (ts : TypeSystem) (finite : List String) (a b : String) (path : List String) : Prop :=
  ∃ rest, path = a :: rest ∧ path.IsChain (ts.Hop finite) ∧ rest.getLast? = some b

theorem hopPath_pair {a b : String} (h : ts.Hop finite a b) : ts.HopPath finite a b [a, b] :=
  ⟨[b], rfl, by simp [h], rfl⟩

theorem HopPath.cons {a x b : String} {path : List String} (h : ts.Hop finite a x)
    (hp : ts.HopPath finite x b path) : ts.HopPath finite a b (a :: path) := by
  obtain ⟨rest, rfl, hc, hl⟩ := hp
  exact ⟨x :: rest, rfl, List.isChain_cons_cons.2 ⟨h, hc⟩, by simp [List.getLast?_cons, hl]⟩

/-- A path of required references makes `b` reachable from `a`. -/
theorem HopPath.transGen {a b : String} {path : List String} (hp : ts.HopPath finite a b path) :
    Relation.TransGen (ts.Hop finite) a b := by
  obtain ⟨rest, rfl, hc, hl⟩ := hp
  cases rest with
  | nil => simp at hl
  | cons x rest =>
    obtain ⟨hax, hc⟩ := List.isChain_cons_cons.1 hc
    have hlast : (x :: rest).getLast (List.cons_ne_nil x rest) = b :=
      Option.some.inj ((List.getLast?_eq_some_getLast (List.cons_ne_nil x rest)).symm.trans hl)
    exact .head' hax (List.relationReflTransGen_of_exists_isChain_cons rest hc hlast)

/-! ## Soundness of the search -/

/-- The fold over the references of `here` returns only paths from `here` to `start`, given
that the searches one level down do. -/
theorem foldl_cycleStep_hopPath {fuel : Nat} {here : String} {t : SchemaType}
    (hget : ts.get? here = some t)
    (ih : ∀ next seen p, (ts.cycleFrom finite start fuel next seen).1 = some p →
      ts.HopPath finite next start p) :
    ∀ (L : List String) (acc : Option (List String) × List String), (∀ x ∈ L, x ∈ t.required) →
      (∀ p, acc.1 = some p → ts.HopPath finite here start p) →
      ∀ p, (L.foldl (ts.cycleStep finite start fuel here) acc).1 = some p →
        ts.HopPath finite here start p := by
  intro L
  induction L with
  | nil => exact fun acc _ hacc => hacc
  | cons next L ihL =>
    rintro ⟨found, seen⟩ hL hacc
    rw [List.foldl_cons]
    apply ihL _ (fun x hx => hL x (List.mem_cons_of_mem next hx))
    have hreq : next ∈ t.required := hL next List.mem_cons_self
    intro p hp
    cases found with
    | some q => exact hacc p hp
    | none =>
      simp only [cycleStep] at hp
      split at hp
      · cases hp
      · rename_i hfin
        have hop : ts.Hop finite here next := ⟨t, hget, hreq, by simpa using hfin⟩
        split at hp
        · rename_i hstart
          cases hp
          rw [beq_iff_eq] at hstart
          subst hstart
          exact hopPath_pair hop
        · split at hp
          · cases hp
          · split at hp
            · rename_i q s hrec
              cases hp
              exact HopPath.cons hop (ih next (next :: seen) q (by rw [hrec]))
            · cases hp

/-- Every path the search returns runs from where it searches to `start`. -/
theorem cycleFrom_hopPath :
    ∀ (fuel : Nat) (here : String) (seen p : List String),
      (ts.cycleFrom finite start fuel here seen).1 = some p → ts.HopPath finite here start p := by
  intro fuel
  induction fuel with
  | zero => intro here seen p h; cases h
  | succ fuel ih =>
    intro here seen p h
    rw [cycleFrom_succ] at h
    cases hget : ts.get? here with
    | none =>
      rw [hget] at h
      cases h
    | some t =>
      rw [hget] at h
      exact foldl_cycleStep_hopPath hget (fun next seen q hq => ih next seen q hq) t.required
        (none, seen) (fun _ hx => hx) (fun _ hq => by cases hq) p h

/-- The path the search through `start` returns is a cycle from `start` back to it. -/
theorem cycleThrough_hopPath {p : List String} (h : ts.cycleThrough finite start = some p) :
    ts.HopPath finite start start p :=
  cycleFrom_hopPath _ start [] p h

/-! ## What the recursion check reports -/

/-- The recursion check reports a declared type that is not finite, with the cycle the
search through it found. -/
theorem mem_recursionErrors {e : SchemaError} :
    e ∈ ts.recursionErrors ↔ ∃ t path, (e.typeName, t) ∈ ts.declared ∧
      e.typeName ∉ ts.finiteNames ∧ ts.cycleThrough ts.finiteNames e.typeName = some path ∧
      e.violation = .recursiveCycle path := by
  simp only [recursionErrors, List.mem_filterMap]
  constructor
  · rintro ⟨⟨name, t⟩, hp, he⟩
    simp only at he
    split at he
    · cases he
    · rename_i hfin
      obtain ⟨path, hc, rfl⟩ := Option.map_eq_some_iff.1 he
      exact ⟨t, path, hp, by simpa using hfin, hc, rfl⟩
  · rintro ⟨t, path, hp, hfin, hc, hv⟩
    refine ⟨(e.typeName, t), hp, ?_⟩
    obtain ⟨name, v⟩ := e
    simp only at hv hfin hc ⊢
    subst hv
    simp [hfin, hc]

end TypeSystem

namespace Document

open TypeSystem

/-- The recursion check is exact on the system the compiler assembles from any document.
The finite names are the least set the finiteness rules build; a declared type is reported
exactly when it is not finite and lies on a cycle of required references through types that
are not finite, and the path it is reported with is such a cycle from it back to itself; and
when some declared type is not finite, something is reported. -/
theorem recursionErrors_exact (d : Document) :
    (∀ x, x ∈ d.system.finiteNames ↔ d.system.Finite x) ∧
      (∀ name, (∃ path, (⟨name, .recursiveCycle path⟩ : SchemaError) ∈ d.system.recursionErrors) ↔
        name ∈ d.system.declared.map (·.1) ∧ name ∉ d.system.finiteNames ∧
          Relation.TransGen (d.system.Hop d.system.finiteNames) name name) ∧
      (∀ e ∈ d.system.recursionErrors, ∃ path, e.violation = .recursiveCycle path ∧
        d.system.HopPath d.system.finiteNames e.typeName e.typeName path) ∧
      ((∃ p ∈ d.system.declared, p.1 ∉ d.system.finiteNames) → d.system.recursionErrors ≠ []) := by
  refine ⟨fun x => mem_finiteNames_iff, fun name => ⟨?_, ?_⟩, fun e he => ?_, ?_⟩
  · rintro ⟨path, hmem⟩
    obtain ⟨t, path', hdecl, hfin, hc, hv⟩ := mem_recursionErrors.1 hmem
    cases hv
    exact ⟨List.mem_map_of_mem hdecl, hfin, (cycleThrough_hopPath hc).transGen⟩
  · rintro ⟨hdecl, hfin, hcycle⟩
    obtain ⟨⟨name', t⟩, hp, rfl⟩ := List.mem_map.1 hdecl
    cases hc : d.system.cycleThrough d.system.finiteNames name' with
    | none => exact absurd hcycle (not_transGen_of_cycleThrough hc)
    | some path => exact ⟨path, mem_recursionErrors.2 ⟨t, path, hp, hfin, hc, rfl⟩⟩
  · obtain ⟨t, path, -, -, hc, hv⟩ := mem_recursionErrors.1 he
    exact ⟨path, hv, cycleThrough_hopPath hc⟩
  · rintro ⟨p, hp, hfin⟩ hnil
    have hall := (recursionErrors_eq_nil_iff d.system_names_nodup d.system_types).1 hnil
    exact hfin (mem_finiteNames_of_finite (hall p hp))

end Document

end Ipld.Schema
