import Mathlib
import Ipld.Schema.Compile

/-!
# The passes of a successful compilation

`Document.compile` runs four passes and succeeds only when none of them reports anything.
This module names what the passes hand to each other (the name table, the resolver, the
drafts, the assembled system) and says what each pass guarantees when it stays silent:

* the names pass keeps every declaration, and the declared names are distinct, are no
  prelude names and are type names;
* the references pass drafts every declaration, and every name a draft uses is known;
* assembling follows each copy along its chain to a definition that is not a copy, within
  the fuel it is given, and the system holds one entry per draft after the prelude.

The statements about the finished system are in `Ipld.Proofs.Compile.WellFormed`.
-/

namespace Ipld.Schema

/-! ## Names used inside types -/

/-- The type names a reference uses: named types, at any depth of lists and maps written in
place, the key types of maps written in place and the expected types of links. -/
def Ref.mentions : Ref → List String
  | .named n => [n]
  | .list v _ => v.mentions
  | .map k v _ => k :: v.mentions
  | .link e => e.toList

/-- The type names a compiled type uses: those of its references, the key type of a map,
the expected type of a link and the member types of a union. -/
def SchemaType.mentions : SchemaType → List String
  | .link e => e.toList
  | .list v _ => v.mentions
  | .map k v _ _ => k :: v.mentions
  | .struct fields _ => fields.flatMap (·.type.mentions)
  | .union members _ => members.map (·.type)
  | _ => []

/-- The names a draft uses: those of its type, or the type it copies. -/
def Draft.mentions : Draft → List String
  | .ready t => t.mentions
  | .copy f => [f]

/-! ## Lists keyed by name -/

section Keyed

variable {β : Type}

/-- In a list whose keys are distinct, the entry of a key is the one looked up. -/
theorem lookup_eq_of_mem {l : List (String × β)} {k : String} {v : β}
    (hl : (l.map (·.1)).Nodup) (h : (k, v) ∈ l) : l.lookup k = some v := by
  induction l with
  | nil => cases h
  | cons p l ih =>
    obtain ⟨k', v'⟩ := p
    simp only [List.map_cons, List.nodup_cons, List.mem_map] at hl
    rcases List.mem_cons.1 h with heq | hmem
    · cases heq
      simp
    · have hk : (k == k') = false := by
        simp only [beq_eq_false_iff_ne]
        rintro rfl
        exact hl.1 ⟨(k, v), hmem, rfl⟩
      rw [List.lookup_cons, hk]
      exact ih hl.2 hmem

/-- A key that is looked up has its entry in the list. -/
theorem mem_of_lookup_eq {l : List (String × β)} {k : String} {v : β}
    (h : l.lookup k = some v) : (k, v) ∈ l := by
  obtain ⟨l₁, l₂, rfl, -⟩ := List.lookup_eq_some_iff.1 h
  simp

/-- A key of the list is looked up to some entry. -/
theorem lookup_isSome_of_mem {l : List (String × β)} {k : String}
    (h : k ∈ l.map (·.1)) : (l.lookup k).isSome := by
  obtain ⟨⟨k', v⟩, hp, rfl⟩ := List.mem_map.1 h
  exact List.lookup_isSome_iff.2 ⟨(k', v), hp, by simp⟩

end Keyed

/-! ## The names pass -/

/-- One declaration read by the names pass: a prelude name, a name that is not a type name
and a repeated name are reported, any other is added to the table. -/
def nameStep (acc : List (String × TypeDefinition) × List SchemaError)
    (decl : String × TypeDefinition) : List (String × TypeDefinition) × List SchemaError :=
  match acc, decl with
  | (table, errors), (name, defn) =>
    if preludeNames.contains name then (table, errors ++ [⟨name, .redeclaresPrelude name⟩])
    else if !isTypeName name then (table, errors ++ [⟨name, .invalidName name⟩])
    else if table.any (·.1 == name) then (table, errors ++ [⟨name, .declaredTwice name⟩])
    else (table ++ [(name, defn)], errors)

theorem nameTable_eq_foldl (d : Document) : nameTable d = d.types.foldl nameStep ([], []) := rfl

/-- What one step of the names pass can do: add a fresh type name that is not a prelude
name to the table, or report one error and keep the table. -/
theorem nameStep_cases (t : List (String × TypeDefinition)) (e : List SchemaError)
    (name : String) (defn : TypeDefinition) :
    (nameStep (t, e) (name, defn) = (t ++ [(name, defn)], e) ∧ name ∉ preludeNames ∧
        isTypeName name = true ∧ name ∉ t.map (·.1)) ∨
      ∃ err, nameStep (t, e) (name, defn) = (t, e ++ [err]) := by
  simp only [nameStep]
  by_cases hp : name ∈ preludeNames
  · exact .inr ⟨⟨name, .redeclaresPrelude name⟩, by simp [hp]⟩
  · by_cases hv : isTypeName name = true
    · by_cases hd : t.any (·.1 == name) = true
      · exact .inr ⟨⟨name, .declaredTwice name⟩, by simp [hp, hv, hd]⟩
      · refine .inl ⟨by simp [hp, hv, hd], hp, hv, ?_⟩
        intro hm
        obtain ⟨p, hp', rfl⟩ := List.mem_map.1 hm
        exact hd (List.any_eq_true.2 ⟨p, hp', by simp⟩)
    · exact .inr ⟨⟨name, .invalidName name⟩, by simp [hp, hv]⟩

/-- The names pass only adds to the errors it is given. -/
theorem foldl_nameStep_errors (l : List (String × TypeDefinition)) :
    ∀ (t : List (String × TypeDefinition)) (e : List SchemaError),
      ∃ new, (l.foldl nameStep (t, e)).2 = e ++ new := by
  induction l with
  | nil => intro t e; exact ⟨[], by simp⟩
  | cons decl l ih =>
    intro t e
    obtain ⟨name, defn⟩ := decl
    rw [List.foldl_cons]
    rcases nameStep_cases t e name defn with ⟨hs, -⟩ | ⟨err, hs⟩
    · rw [hs]; exact ih _ e
    · rw [hs]
      obtain ⟨new, h⟩ := ih t (e ++ [err])
      exact ⟨err :: new, by simp [h]⟩

/-- A names pass that reports nothing adds every declaration to the table, and each of
them has a fresh type name that is not a prelude name. -/
theorem foldl_nameStep_of_silent (l : List (String × TypeDefinition)) :
    ∀ (t : List (String × TypeDefinition)) (e : List SchemaError),
      (l.foldl nameStep (t, e)).2 = e → (t.map (·.1)).Nodup →
      (l.foldl nameStep (t, e)).1 = t ++ l ∧ ((t ++ l).map (·.1)).Nodup ∧
        ∀ p ∈ l, p.1 ∉ preludeNames ∧ isTypeName p.1 = true := by
  induction l with
  | nil => intro t e _ ht; simpa using ht
  | cons decl l ih =>
    intro t e h ht
    obtain ⟨name, defn⟩ := decl
    rw [List.foldl_cons] at h ⊢
    rcases nameStep_cases t e name defn with ⟨hs, hp, hv, hfresh⟩ | ⟨err, hs⟩
    · rw [hs] at h ⊢
      have ht' : ((t ++ [(name, defn)]).map (·.1)).Nodup := by
        rw [List.map_append, List.nodup_append]
        exact ⟨ht, by simp, by simpa using fun a ha => ne_of_mem_of_not_mem ha hfresh⟩
      obtain ⟨h1, h2, h3⟩ := ih (t ++ [(name, defn)]) e h ht'
      refine ⟨by simpa using h1, by simpa using h2, ?_⟩
      intro p hmem
      rcases List.mem_cons.1 hmem with rfl | hmem
      · exact ⟨hp, hv⟩
      · exact h3 p hmem
    · rw [hs] at h
      obtain ⟨new, hn⟩ := foldl_nameStep_errors l t (e ++ [err])
      have := congrArg List.length (hn.symm.trans h)
      simp at this

/-- A names pass that reports nothing keeps the whole document as its table: the declared
names are distinct type names, none of them a prelude name. -/
theorem nameTable_of_silent {d : Document} (h : (nameTable d).2 = []) :
    (nameTable d).1 = d.types ∧ d.names.Nodup ∧
      ∀ n ∈ d.names, n ∉ preludeNames ∧ isTypeName n = true := by
  rw [nameTable_eq_foldl] at h ⊢
  obtain ⟨h1, h2, h3⟩ := foldl_nameStep_of_silent d.types [] [] h (by simp)
  refine ⟨by simpa using h1, by simpa [Document.names] using h2, ?_⟩
  intro n hn
  obtain ⟨p, hp, rfl⟩ := List.mem_map.1 hn
  exact h3 p hp

/-! ## The references pass -/

namespace Resolver

variable (cx : Resolver)

/-- A name is checked silently exactly when it is known. -/
@[simp] theorem check_eq_nil {name : String} {site : Site} :
    cx.check name site = [] ↔ cx.known name = true := by
  unfold check
  split <;> simp_all

/-- A reference resolved without a report uses known names only. -/
theorem ref_mentions_known (site : Site) :
    ∀ r : TypeRef, (cx.ref site r).2 = [] → ∀ x ∈ (cx.ref site r).1.mentions, cx.known x = true
  | .named n, h, x, hx => by
    simp only [ref, Ref.mentions, List.mem_singleton] at h hx
    exact hx ▸ (cx.check_eq_nil).1 h
  | .list v _, h, x, hx => by
    simp only [ref, Ref.mentions] at h hx
    exact ref_mentions_known site v h x hx
  | .map k v _ repr, h, x, hx => by
    simp only [ref, Ref.mentions, List.append_eq_nil_iff, List.mem_cons] at h hx
    rcases hx with rfl | hx
    · exact (cx.check_eq_nil).1 h.1.1
    · exact ref_mentions_known site v h.2 x hx
  | .link (some e), h, x, hx => by
    simp only [ref, Ref.mentions, Option.map_some, Option.getD_some, Option.toList_some,
      List.mem_singleton] at h hx
    exact hx ▸ (cx.check_eq_nil).1 h
  | .link none, _, x, hx => by simp [ref, Ref.mentions] at hx

/-- A definition drafted without a report gives a draft that uses known names only, and
the draft is a copy exactly when the definition is. -/
theorem draft_of_silent (defn : TypeDefinition) (h : (cx.draft defn).2 = []) :
    ∃ dr, (cx.draft defn).1 = some dr ∧ (∀ x ∈ dr.mentions, cx.known x = true) ∧
      ∀ f, dr = .copy f ↔ defn = .copy f := by
  cases defn with
  | bool | string | bytes | int | float =>
    exact ⟨_, rfl, by simp [Draft.mentions, SchemaType.mentions], by simp⟩
  | link e =>
    refine ⟨_, rfl, ?_, by simp⟩
    cases e with
    | none => simp [Draft.mentions, SchemaType.mentions]
    | some e =>
      simp only [draft, Option.map_some, Option.getD_some] at h
      simpa [Draft.mentions, SchemaType.mentions] using (cx.check_eq_nil).1 h
  | list v n =>
    refine ⟨_, rfl, ?_, by simp⟩
    simp only [draft] at h
    simpa [Draft.mentions, SchemaType.mentions] using cx.ref_mentions_known .listValues v h
  | map k v n repr =>
    refine ⟨_, rfl, ?_, by simp⟩
    simp only [draft, List.append_eq_nil_iff] at h
    simp only [Draft.mentions, SchemaType.mentions, List.mem_cons]
    rintro x (rfl | hx)
    · exact (cx.check_eq_nil).1 h.1.1
    · exact cx.ref_mentions_known .mapValues v h.1.2 x hx
  | struct fields repr =>
    refine ⟨_, rfl, ?_, by simp⟩
    simp only [draft, List.append_eq_nil_iff, List.flatMap_eq_nil_iff, List.mem_map] at h
    simp only [Draft.mentions, SchemaType.mentions, List.mem_flatMap, List.map_map,
      List.mem_map]
    rintro x ⟨_, ⟨⟨name, f⟩, hf, rfl⟩, hx⟩
    exact cx.ref_mentions_known (.field name) f.type (h.1 _ ⟨(name, f), hf, rfl⟩) x hx
  | union members repr =>
    refine ⟨_, rfl, ?_, by simp⟩
    simp only [draft, List.append_eq_nil_iff, List.flatMap_eq_nil_iff] at h
    simp only [Draft.mentions, SchemaType.mentions, List.mem_map]
    rintro x ⟨m, hm, rfl⟩
    exact (cx.check_eq_nil).1 (h.1 m hm)
  | enum members repr =>
    exact ⟨_, rfl, by simp [Draft.mentions, SchemaType.mentions], by simp⟩
  | copy f =>
    by_cases hk : cx.known f = true
    · refine ⟨.copy f, by simp [draft, hk], by simpa [Draft.mentions] using hk, by simp⟩
    · simp [draft, hk] at h

end Resolver

/-! ## Following copies -/

section Copies

variable {D : List (String × Draft)}

/-- The prelude's entries are keyed by the prelude names. -/
theorem prelude_names : prelude.map (·.1) = preludeNames := rfl

/-- A name that the prelude does not look up is no prelude name. -/
theorem not_mem_preludeNames {n : String} (h : prelude.lookup n = none) : n ∉ preludeNames := by
  rw [← prelude_names]
  intro hn
  obtain ⟨⟨k, t⟩, hp, rfl⟩ := List.mem_map.1 hn
  exact absurd (List.lookup_eq_none_iff.1 h _ hp) (by simp)

/-- Following a chain of copies whose targets are all known never runs out of drafts or
fuel: each step passes a drafted name the chain has not passed, so the chain stops at a
prelude type, at a type that is ready, or on a name it passed before. -/
theorem followCopies_ne_none
    (hclosed : ∀ n f, (n, Draft.copy f) ∈ D → f ∈ preludeNames ∨ f ∈ D.map (·.1)) :
    ∀ fuel chain cur, chain.Nodup → chain ⊆ D.map (·.1) →
      (cur ∈ preludeNames ∨ cur ∈ D.map (·.1)) → D.length < fuel + chain.length →
      followCopies D fuel chain cur ≠ .ok none := by
  intro fuel
  induction fuel with
  | zero =>
    intro chain cur hc hsub _ hlen
    have := hc.length_le_of_subset hsub
    simp at this hlen
    omega
  | succ fuel ih =>
    intro chain cur hc hsub hcur hlen
    simp only [followCopies]
    split
    · simp
    · rename_i hfresh
      split
      · simp
      · rename_i hp
        have hcurD : cur ∈ D.map (·.1) := hcur.resolve_left (not_mem_preludeNames hp)
        obtain ⟨dr, hdr⟩ := Option.isSome_iff_exists.1 (lookup_isSome_of_mem hcurD)
        rw [hdr]
        cases dr with
        | ready t => simp
        | copy next =>
          simp only
          have hnot : cur ∉ chain := by simpa using hfresh
          refine ih (chain ++ [cur]) next ?_ ?_ (hclosed cur next (mem_of_lookup_eq hdr)) ?_
          · exact List.nodup_append.2 ⟨hc, by simp, by simpa using fun a ha => ne_of_mem_of_not_mem ha hnot⟩
          · exact List.append_subset.2 ⟨hsub, by simpa using hcurD⟩
          · simp only [List.length_append, List.length_singleton]
            omega

/-- A chain of copies that ends ends at a prelude type or at a type that is ready, reached
from where it started by following copies. -/
theorem followCopies_sound :
    ∀ fuel chain cur t, followCopies D fuel chain cur = .ok (some t) →
      ∃ e, Relation.ReflTransGen (fun a b => D.lookup a = some (.copy b)) cur e ∧
        (prelude.lookup e = some t ∨ D.lookup e = some (.ready t)) := by
  intro fuel
  induction fuel with
  | zero => intro chain cur t h; simp [followCopies] at h
  | succ fuel ih =>
    intro chain cur t h
    simp only [followCopies] at h
    split at h
    · simp at h
    · split at h
      · rename_i t' hp
        cases h
        exact ⟨cur, .refl, .inl hp⟩
      · split at h
        · rename_i t' hd
          cases h
          exact ⟨cur, .refl, .inr hd⟩
        · rename_i next hd
          obtain ⟨e, he, hend⟩ := ih _ next t h
          exact ⟨e, .head hd he, hend⟩
        · simp at h

end Copies

/-! ## Assembling the system -/

/-- The type a draft stands for: a ready type, or the type at the end of its chain of
copies when the chain ends. -/
def Draft.resolve (drafts : List (String × Draft)) (name : String) : Draft → Option SchemaType
  | .ready t => some t
  | .copy f =>
    match followCopies drafts (drafts.length + 1) [name] f with
    | .ok t => t
    | .error _ => none

/-- One draft taken in by assembling: its type is added, or a copy cycle is reported. -/
def assembleStep (drafts : List (String × Draft))
    (acc : List (String × SchemaType) × List SchemaError) (entry : String × Draft) :
    List (String × SchemaType) × List SchemaError :=
  match acc, entry with
  | (types, errors), (name, d) =>
    match d with
    | .ready t => (types ++ [(name, t)], errors)
    | .copy fromType =>
      match followCopies drafts (drafts.length + 1) [name] fromType with
      | .ok (some t) => (types ++ [(name, t)], errors)
      | .ok none => (types, errors)
      | .error chain => (types, errors ++ [⟨name, .copyCycle chain⟩])

theorem assemble_eq (D : List (String × Draft)) :
    assemble D = (⟨prelude ++ (D.foldl (assembleStep D) ([], [])).1⟩,
      (D.foldl (assembleStep D) ([], [])).2) := rfl

/-- One step of assembling adds the entry's resolved type, if it has one, and reports an
error exactly for a copy whose chain comes back to a name it passed. -/
theorem assembleStep_eq (D : List (String × Draft)) (ty : List (String × SchemaType))
    (e : List SchemaError) (name : String) (dr : Draft) :
    (assembleStep D (ty, e) (name, dr)).1 = ty ++ ((dr.resolve D name).map (name, ·)).toList ∧
      (((assembleStep D (ty, e) (name, dr)).2 = e ∧
          ∀ f, dr = .copy f → ∃ r, followCopies D (D.length + 1) [name] f = .ok r) ∨
        ∃ err, (assembleStep D (ty, e) (name, dr)).2 = e ++ [err]) := by
  cases dr with
  | ready t => exact ⟨by simp [assembleStep, Draft.resolve], .inl ⟨rfl, by simp⟩⟩
  | copy f =>
    simp only [assembleStep, Draft.resolve]
    split
    · rename_i t h
      exact ⟨by simp [h], .inl ⟨rfl, fun f' hf => ⟨_, (Draft.copy.inj hf) ▸ h⟩⟩⟩
    · rename_i h
      exact ⟨by simp [h], .inl ⟨rfl, fun f' hf => ⟨_, (Draft.copy.inj hf) ▸ h⟩⟩⟩
    · rename_i chain h
      exact ⟨by simp [h], .inr ⟨_, rfl⟩⟩

/-- Assembling from given types and errors: the types of the entries are added in order,
and when nothing is reported every copy's chain ends. -/
theorem foldl_assembleStep (D : List (String × Draft)) :
    ∀ (l : List (String × Draft)) (ty : List (String × SchemaType)) (e : List SchemaError),
      (l.foldl (assembleStep D) (ty, e)).1 =
          ty ++ l.filterMap (fun p => (p.2.resolve D p.1).map (p.1, ·)) ∧
        ((l.foldl (assembleStep D) (ty, e)).2 = e →
          ∀ n f, (n, Draft.copy f) ∈ l → ∃ r, followCopies D (D.length + 1) [n] f = .ok r) ∧
        ∃ new, (l.foldl (assembleStep D) (ty, e)).2 = e ++ new := by
  intro l
  induction l with
  | nil => intro ty e; simp
  | cons entry l ih =>
    intro ty e
    obtain ⟨name, dr⟩ := entry
    obtain ⟨h1, h2⟩ := assembleStep_eq D ty e name dr
    rw [List.foldl_cons]
    generalize hs : assembleStep D (ty, e) (name, dr) = s at h1 h2
    obtain ⟨ty', e'⟩ := s
    simp only at h1 h2
    obtain ⟨ih1, ih2, new, ih3⟩ := ih ty' e'
    refine ⟨?_, ?_, ?_⟩
    · rw [ih1, h1, List.filterMap_cons]
      cases dr.resolve D name <;> simp
    · intro hsil n f hmem
      rcases h2 with ⟨rfl, hcopy⟩ | ⟨err, rfl⟩
      · rcases List.mem_cons.1 hmem with heq | hmem
        · cases heq
          exact hcopy f rfl
        · exact ih2 hsil n f hmem
      · rw [ih3] at hsil
        have := congrArg List.length hsil
        simp at this
    · rcases h2 with ⟨rfl, -⟩ | ⟨err, rfl⟩
      · exact ⟨new, ih3⟩
      · exact ⟨err :: new, by rw [ih3]; simp⟩

/-- The assembled system is the prelude, then the resolved type of each draft in order;
drafts without a resolved type are left out. -/
theorem assemble_types (D : List (String × Draft)) :
    (assemble D).1.types = prelude ++ D.filterMap fun p => (p.2.resolve D p.1).map (p.1, ·) := by
  rw [assemble_eq]
  simpa using (foldl_assembleStep D D [] []).1

/-- When assembling reports nothing, every copy's chain ends. -/
theorem assemble_silent {D : List (String × Draft)} (h : (assemble D).2 = []) :
    ∀ n f, (n, Draft.copy f) ∈ D → ∃ r, followCopies D (D.length + 1) [n] f = .ok r := by
  rw [assemble_eq] at h
  exact (foldl_assembleStep D D [] []).2.1 h

/-! ## The stages of `Document.compile` -/

namespace Document

variable (d : Document)

/-- The resolver of the references pass: prelude and table names are known. -/
def resolver : Resolver :=
  ⟨fun n => preludeNames.contains n || (nameTable d).1.any (·.1 == n)⟩

/-- Each table entry with its draft and the violations found drafting it. -/
def drafted : List (String × Option Draft × List Violation) :=
  (nameTable d).1.map fun (name, defn) => (name, d.resolver.draft defn)

/-- The drafts handed to assembling, in table order. -/
def drafts : List (String × Draft) :=
  d.drafted.filterMap fun (name, (dr, _)) => dr.map fun dr => (name, dr)

/-- The errors of the references pass. -/
def resolveErrors : List SchemaError :=
  d.drafted.flatMap fun (name, (_, vs)) => vs.map fun v => ⟨name, v⟩

variable {d} {ts : TypeSystem}

/-- A document compiles only when no pass reports anything; its system is the assembled
one. -/
theorem compile_eq_ok (h : d.compile = .ok ts) :
    (nameTable d).2 = [] ∧ d.resolveErrors = [] ∧ (assemble d.drafts).2 = [] ∧
      definitionErrors ts (nameTable d).1 = [] ∧ ts.recursionErrors = [] ∧
      (assemble d.drafts).1 = ts := by
  simp only [compile] at h
  split at h
  · rename_i hempty
    cases h
    simp only [List.isEmpty_iff, List.append_eq_nil_iff] at hempty
    exact ⟨hempty.1.1.1.1, hempty.1.1.1.2, hempty.1.1.2, hempty.1.2, hempty.2, rfl⟩
  · cases h

/-- A draft is an entry of the table drafted to something. -/
theorem mem_drafts {n : String} {dr : Draft} :
    (n, dr) ∈ d.drafts ↔ ∃ defn, (n, defn) ∈ (nameTable d).1 ∧ (d.resolver.draft defn).1 = some dr := by
  simp only [drafts, drafted, List.mem_filterMap, List.mem_map, Option.map_eq_some_iff]
  constructor
  · rintro ⟨_, ⟨⟨n', defn⟩, hmem, rfl⟩, dr', hdr, heq⟩
    cases heq
    exact ⟨defn, hmem, hdr⟩
  · rintro ⟨defn, hmem, hdr⟩
    exact ⟨_, ⟨(n, defn), hmem, rfl⟩, dr, hdr, rfl⟩

/-- When the references pass reports nothing, every table entry is drafted. -/
theorem drafts_names (h : d.resolveErrors = []) :
    d.drafts.map (·.1) = (nameTable d).1.map (·.1) ∧
      ∀ n defn, (n, defn) ∈ (nameTable d).1 → ∃ dr, (n, dr) ∈ d.drafts ∧
        (∀ x ∈ dr.mentions, d.resolver.known x = true) ∧ ∀ f, dr = .copy f ↔ defn = .copy f := by
  have hsil : ∀ n defn, (n, defn) ∈ (nameTable d).1 → (d.resolver.draft defn).2 = [] := by
    intro n defn hmem
    simp only [resolveErrors, drafted, List.flatMap_eq_nil_iff, List.mem_map] at h
    simpa using h _ ⟨(n, defn), hmem, rfl⟩
  refine ⟨?_, ?_⟩
  · simp only [drafts, drafted, List.filterMap_map, List.map_filterMap]
    rw [← List.filterMap_eq_map']
    apply List.filterMap_congr
    rintro ⟨n, defn⟩ hmem
    obtain ⟨dr, hdr, -⟩ := d.resolver.draft_of_silent defn (hsil n defn hmem)
    simp [hdr]
  · intro n defn hmem
    obtain ⟨dr, hdr, hknown, hcopy⟩ := d.resolver.draft_of_silent defn (hsil n defn hmem)
    exact ⟨dr, mem_drafts.2 ⟨defn, hmem, hdr⟩, hknown, hcopy⟩

end Document

end Ipld.Schema
