import Ipld.Proofs.Compile.Stages

/-!
# Compiled type systems are well formed

A type system that `Document.compile` returns starts with the six prelude types and then
has one entry for each declaration, in declaration order, under distinct type names. It is
closed: every name used anywhere inside one of its types (named references at any depth of
lists and maps written in place, map key types, link targets, union members) is one of its
names. A declared copy has the type of the definition at the end of its chain of copies,
which is a prelude type or a declaration that is not a copy.

`TypeSystem.Compiled` collects what later statements rely on: distinct names, the prelude
first, closure, no violated rule and no reported cycle.
-/

namespace Ipld.Schema

namespace TypeSystem

/-- In a system with distinct names, an entry is the one its name looks up. -/
theorem get?_eq_of_mem {ts : TypeSystem} (hnd : ts.names.Nodup) {n : String} {t : SchemaType}
    (h : (n, t) ∈ ts.types) : ts.get? n = some t :=
  lookup_eq_of_mem hnd h

end TypeSystem

namespace Document

/-- The name a declaration copies, when its definition is a copy. -/
def copySource? (d : Document) (n : String) : Option String :=
  match d.types.lookup n with
  | some (.copy f) => some f
  | _ => none

/-- One step along a chain of copies: `a` is declared as a copy of `b`. -/
def CopyStep (d : Document) (a b : String) : Prop := d.copySource? a = some b

variable {d : Document} {ts : TypeSystem}

/-! ## The passes of a compiled document -/

/-- The table of a compiled document is the document, and its declared names are
distinct type names that are no prelude names. -/
theorem compile_table (h : d.compile = .ok ts) :
    (nameTable d).1 = d.types ∧ d.names.Nodup ∧
      ∀ n ∈ d.names, n ∉ preludeNames ∧ isTypeName n = true :=
  nameTable_of_silent (compile_eq_ok h).1

/-- In a compiled document the known names are the prelude and the declared names. -/
theorem compile_known (h : d.compile = .ok ts) (x : String) :
    d.resolver.known x = true ↔ x ∈ preludeNames ∨ x ∈ d.names := by
  have ht := (compile_table h).1
  simp only [resolver, ht, Bool.or_eq_true, List.contains_iff_mem, List.any_eq_true,
    beq_iff_eq, names, List.mem_map]

/-- In a compiled document the drafts are keyed by the declared names, and a drafted name
is declared with a definition that is a copy exactly when its draft is. -/
theorem compile_drafts (h : d.compile = .ok ts) :
    d.drafts.map (·.1) = d.names ∧
      ∀ n dr, d.drafts.lookup n = some dr → ∃ defn, d.types.lookup n = some defn ∧
        (∀ x ∈ dr.mentions, x ∈ preludeNames ∨ x ∈ d.names) ∧ ∀ f, dr = .copy f ↔ defn = .copy f := by
  obtain ⟨ht, hnd, -⟩ := compile_table h
  have hdr := drafts_names (compile_eq_ok h).2.1
  rw [ht] at hdr
  refine ⟨hdr.1, ?_⟩
  intro n dr hl
  obtain ⟨defn, hmem, hdraft⟩ := mem_drafts.1 (mem_of_lookup_eq hl)
  rw [ht] at hmem
  obtain ⟨dr', hmem', hknown, hcopy⟩ := hdr.2 n defn hmem
  have hnd' : (d.drafts.map (·.1)).Nodup := hdr.1 ▸ hnd
  have : dr' = dr := by
    have := lookup_eq_of_mem hnd' hmem'
    rw [hl] at this
    exact (Option.some.inj this).symm
  subst this
  refine ⟨defn, lookup_eq_of_mem hnd hmem, fun x hx => (compile_known h x).1 (hknown x hx), hcopy⟩

/-- In a compiled document every draft resolves to a type: a copy's chain ends, since the
chain's names are known and assembling reported no cycle. -/
theorem compile_resolves (h : d.compile = .ok ts) :
    ∀ p ∈ d.drafts, ∃ t, p.2.resolve d.drafts p.1 = some t := by
  obtain ⟨hnames, hdrafts⟩ := compile_drafts h
  have hnd : (d.drafts.map (·.1)).Nodup := hnames ▸ (compile_table h).2.1
  rintro ⟨n, dr⟩ hmem
  cases dr with
  | ready t => exact ⟨t, rfl⟩
  | copy f =>
    obtain ⟨r, hr⟩ := assemble_silent (compile_eq_ok h).2.2.1 n f hmem
    have hclosed : ∀ n f, (n, Draft.copy f) ∈ d.drafts →
        f ∈ preludeNames ∨ f ∈ d.drafts.map (·.1) := by
      intro n f hm
      obtain ⟨_, -, hk, -⟩ := hdrafts n _ (lookup_eq_of_mem hnd hm)
      simpa [hnames, Draft.mentions] using hk
    have hne := followCopies_ne_none hclosed (d.drafts.length + 1) [n] f (by simp)
      (by simpa using List.mem_map_of_mem (f := (·.1)) hmem) (hclosed n f hmem) (by omega)
    cases r with
    | none => exact absurd hr hne
    | some t => exact ⟨t, by simp [Draft.resolve, hr]⟩

/-- The system of a compiled document: the prelude, then each draft with its resolved
type. -/
theorem compile_types (h : d.compile = .ok ts) :
    ts.types = prelude ++ d.drafts.filterMap fun p => (p.2.resolve d.drafts p.1).map (p.1, ·) := by
  rw [← (compile_eq_ok h).2.2.2.2.2, assemble_types]

/-- The names of a compiled system are the prelude names, then the declared names. -/
theorem compile_names (h : d.compile = .ok ts) : ts.names = preludeNames ++ d.names := by
  rw [TypeSystem.names, compile_types h, List.map_append, prelude_names, ← (compile_drafts h).1,
    List.map_filterMap]
  congr 1
  rw [← List.filterMap_eq_map']
  apply List.filterMap_congr
  intro p hp
  obtain ⟨t, ht⟩ := compile_resolves h p hp
  simp [ht]

/-- The names of a compiled system are distinct. -/
theorem compile_names_nodup (h : d.compile = .ok ts) : ts.names.Nodup := by
  obtain ⟨-, hnd, hfresh⟩ := compile_table h
  rw [compile_names h, List.nodup_append]
  exact ⟨by decide, hnd, fun a ha b hb hab => (hfresh b hb).1 (hab ▸ ha)⟩

/-- A drafted copy is a declared copy. -/
theorem compile_copyStep (h : d.compile = .ok ts) {a b : String}
    (hl : d.drafts.lookup a = some (.copy b)) : d.CopyStep a b := by
  obtain ⟨defn, hd, -, hcopy⟩ := (compile_drafts h).2 a _ hl
  have : defn = .copy b := (hcopy b).1 rfl
  simp [CopyStep, copySource?, hd, this]

/-- A name looked up to a ready draft is declared with a definition that is no copy. -/
theorem compile_copySource_ready (h : d.compile = .ok ts) {e : String} {t : SchemaType}
    (hl : d.drafts.lookup e = some (.ready t)) : d.copySource? e = none := by
  obtain ⟨defn, hd, -, hcopy⟩ := (compile_drafts h).2 e _ hl
  simp only [copySource?, hd]
  split
  · rename_i f hf
    cases (hcopy f).2 (Option.some.inj hf)
  · rfl

/-- A resolved draft has the type found at the end of the declaration's chain of copies:
a prelude type, or the type of a declaration that is no copy. -/
theorem compile_resolve_end (h : d.compile = .ok ts) {n : String} {dr : Draft} {t : SchemaType}
    (hmem : (n, dr) ∈ d.drafts) (hr : dr.resolve d.drafts n = some t) :
    ∃ e, Relation.ReflTransGen d.CopyStep n e ∧ d.copySource? e = none ∧
      ((e, t) ∈ prelude ∨ d.drafts.lookup e = some (.ready t)) := by
  have hnd : (d.drafts.map (·.1)).Nodup := (compile_drafts h).1 ▸ (compile_table h).2.1
  have hprelude : ∀ e t, prelude.lookup e = some t → d.copySource? e = none := by
    intro e t he
    have hne : e ∉ d.names := fun hn =>
      ((compile_table h).2.2 e hn).1 (prelude_names ▸ List.mem_map_of_mem (mem_of_lookup_eq he))
    have : d.types.lookup e = none := by
      simp only [List.lookup_eq_none_iff, bne_iff_ne]
      intro p hp heq
      exact hne (heq ▸ List.mem_map_of_mem hp)
    simp [copySource?, this]
  cases dr with
  | ready t' =>
    cases hr
    exact ⟨n, .refl, compile_copySource_ready h (lookup_eq_of_mem hnd hmem),
      .inr (lookup_eq_of_mem hnd hmem)⟩
  | copy f =>
    simp only [Draft.resolve] at hr
    split at hr
    · rename_i r hf
      cases hr
      obtain ⟨e, he, hend⟩ := followCopies_sound _ _ _ t hf
      have hstep : d.CopyStep n f := compile_copyStep h (lookup_eq_of_mem hnd hmem)
      refine ⟨e, .head hstep (Relation.ReflTransGen.mono (fun _ _ => compile_copyStep h) _ _ he), ?_, ?_⟩
      · rcases hend with hp | hd
        · exact hprelude e t hp
        · exact compile_copySource_ready h hd
      · exact hend.imp_left mem_of_lookup_eq
    · cases hr

/-- The entries of a compiled system are the prelude's and the resolved drafts'. -/
theorem compile_mem_types (h : d.compile = .ok ts) {n : String} {t : SchemaType} :
    (n, t) ∈ ts.types ↔ (n, t) ∈ prelude ∨ ∃ dr, (n, dr) ∈ d.drafts ∧ dr.resolve d.drafts n = some t := by
  rw [compile_types h, List.mem_append, List.mem_filterMap]
  apply or_congr Iff.rfl
  constructor
  · rintro ⟨⟨n', dr⟩, hmem, hr⟩
    obtain ⟨t', ht', heq⟩ := Option.map_eq_some_iff.1 hr
    cases heq
    exact ⟨dr, hmem, ht'⟩
  · rintro ⟨dr, hmem, hr⟩
    exact ⟨(n, dr), hmem, by simp [hr]⟩

/-- In a compiled document a name at the end of a chain of copies is looked up to the type
found there. -/
theorem compile_get?_end (h : d.compile = .ok ts) {e : String} {t : SchemaType}
    (hend : (e, t) ∈ prelude ∨ d.drafts.lookup e = some (.ready t)) : ts.get? e = some t := by
  apply TypeSystem.get?_eq_of_mem (compile_names_nodup h)
  rcases hend with hp | hd
  · exact (compile_mem_types h).2 (.inl hp)
  · exact (compile_mem_types h).2 (.inr ⟨_, mem_of_lookup_eq hd, rfl⟩)

/-- In a compiled document every name used inside a type of the system is a name of the
system. -/
theorem compile_closed (h : d.compile = .ok ts) :
    ∀ p ∈ ts.types, ∀ x ∈ p.2.mentions, x ∈ ts.names := by
  have hprelude : ∀ p ∈ prelude, p.2.mentions = [] := by
    simp [prelude, SchemaType.mentions]
  rintro ⟨n, t⟩ hmem x hx
  rw [compile_names h]
  rcases (compile_mem_types h).1 hmem with hp | ⟨dr, hdr, hr⟩
  · simp [hprelude _ hp] at hx
  · obtain ⟨e, -, -, hend⟩ := compile_resolve_end h hdr hr
    rcases hend with hp | hl
    · simp [hprelude _ hp] at hx
    · obtain ⟨_, -, hk, -⟩ := (compile_drafts h).2 e _ hl
      exact List.mem_append.2 (hk x hx)

/-- In a compiled document a declared copy has the type of the definition at the end of
its chain of copies, which is a prelude type or a declaration that is no copy. -/
theorem compile_copy_end (h : d.compile = .ok ts) :
    ∀ n f, (n, TypeDefinition.copy f) ∈ d.types → ∃ e, Relation.ReflTransGen d.CopyStep n e ∧
      d.copySource? e = none ∧ e ∈ ts.names ∧ ts.get? n = ts.get? e := by
  intro n f hmem
  obtain ⟨hnames, hdrafts⟩ := compile_drafts h
  have hn : n ∈ d.drafts.map (·.1) := hnames ▸ List.mem_map_of_mem (f := (·.1)) hmem
  obtain ⟨dr, hl⟩ := Option.isSome_iff_exists.1 (lookup_isSome_of_mem hn)
  obtain ⟨t, ht⟩ := compile_resolves h _ (mem_of_lookup_eq hl)
  obtain ⟨e, hchain, hsrc, hend⟩ := compile_resolve_end h (mem_of_lookup_eq hl) ht
  have hget : ts.get? e = some t := compile_get?_end h hend
  refine ⟨e, hchain, hsrc, ?_, ?_⟩
  · exact List.mem_map_of_mem (f := (·.1)) (mem_of_lookup_eq hget)
  · rw [hget]
    exact TypeSystem.get?_eq_of_mem (compile_names_nodup h)
      ((compile_mem_types h).2 (.inr ⟨dr, mem_of_lookup_eq hl, ht⟩))

end Document

/-- A text matches `^[A-Za-z][A-Za-z0-9_]*$`: an ASCII letter, then ASCII letters, digits
and underscores. -/
theorem isTypeName_iff (s : String) :
    isTypeName s = true ↔ ∃ c cs, s.toList = c :: cs ∧ c.isAlpha = true ∧
      ∀ x ∈ cs, x.isAlphanum = true ∨ x = '_' := by
  unfold isTypeName
  split
  · rename_i c cs hs
    simp [hs]
  · rename_i hs
    simp [hs]

namespace Document

/-- What compiling `d` to `ts` guarantees: the system holds the prelude names, then the
declared names, each once and each a type name; every name used inside a type is one of
its names; and a declared copy has the type at the end of its chain of copies. -/
structure WellFormedSystem (d : Document) (ts : TypeSystem) : Prop where
  /-- The prelude names, then the declared names in declaration order. -/
  names_eq : ts.names = preludeNames ++ d.names
  /-- No name twice: no declared name repeats or shadows a prelude name. -/
  nodup : ts.names.Nodup
  /-- Every declared name matches `^[A-Za-z][A-Za-z0-9_]*$`. -/
  typeNames : ∀ n ∈ d.names, ∃ c cs, n.toList = c :: cs ∧ c.isAlpha = true ∧
    ∀ x ∈ cs, x.isAlphanum = true ∨ x = '_'
  /-- Every name used inside a type is a name of the system. -/
  closed : ∀ p ∈ ts.types, ∀ x ∈ p.2.mentions, x ∈ ts.names
  /-- A declared copy has the type of the end of its chain of copies. -/
  copies : ∀ n f, (n, TypeDefinition.copy f) ∈ d.types → ∃ e,
    Relation.ReflTransGen d.CopyStep n e ∧ d.copySource? e = none ∧ e ∈ ts.names ∧
      ts.get? n = ts.get? e

variable {d : Document} {ts : TypeSystem}

/-- Every system that compiling a document returns is well formed. -/
theorem compile_wellFormed (h : d.compile = .ok ts) : d.WellFormedSystem ts where
  names_eq := compile_names h
  nodup := compile_names_nodup h
  typeNames n hn := (isTypeName_iff n).1 ((compile_table h).2.2 n hn).2
  closed := compile_closed h
  copies := compile_copy_end h

/-- In a compiled document every type of the system keeps the rules of its kind and
representation: a declared type that is no copy was checked under its own name, and a
copy has the type of such a declaration or of the prelude. -/
theorem compile_rules (h : d.compile = .ok ts) : ∀ p ∈ ts.types, ts.violations p.2 = [] := by
  have hprelude : ∀ p ∈ prelude, ts.violations p.2 = [] := by
    simp [prelude, TypeSystem.violations]
  have hdef := (compile_eq_ok h).2.2.2.1
  rw [(compile_table h).1] at hdef
  rintro ⟨n, t⟩ hmem
  rcases (compile_mem_types h).1 hmem with hp | ⟨dr, hdr, hr⟩
  · exact hprelude _ hp
  · obtain ⟨e, -, -, hend⟩ := compile_resolve_end h hdr hr
    rcases hend with hp | hl
    · exact hprelude (e, t) hp
    · obtain ⟨defn, hd, -, hcopy⟩ := (compile_drafts h).2 e _ hl
      have hget : ts.get? e = some t := compile_get?_end h (.inr hl)
      simp only [definitionErrors, List.flatMap_eq_nil_iff] at hdef
      have := hdef _ (mem_of_lookup_eq hd)
      cases defn with
      | copy f => cases (hcopy f).2 rfl
      | _ => simpa [hget] using this

end Document

namespace TypeSystem

/-- What every system that compiling returns satisfies: distinct names, the prelude first,
every name used inside a type a name of the system, the rules of every type kept and no
cycle reported. -/
structure Compiled (ts : TypeSystem) : Prop where
  /-- No name twice. -/
  nodup : ts.names.Nodup
  /-- The prelude types come first. -/
  prelude_first : ∃ rest, ts.types = prelude ++ rest
  /-- Every name used inside a type is a name of the system. -/
  closed : ∀ p ∈ ts.types, ∀ x ∈ p.2.mentions, x ∈ ts.names
  /-- No type breaks a rule of its kind or representation. -/
  rules : ∀ p ∈ ts.types, ts.violations p.2 = []
  /-- No cycle of required references is reported. -/
  acyclic : ts.recursionErrors = []

end TypeSystem

namespace Document

variable {d : Document} {ts : TypeSystem}

/-- A compiled system has every property of `TypeSystem.Compiled`. -/
theorem compile_compiled (h : d.compile = .ok ts) : ts.Compiled where
  nodup := compile_names_nodup h
  prelude_first := ⟨_, compile_types h⟩
  closed := compile_closed h
  rules := compile_rules h
  acyclic := (compile_eq_ok h).2.2.2.2.1

/-- A struct with a list written in place, two copies chained to it and a copy of a
prelude type. -/
def copyChainDocument : Document :=
  ⟨[("A", .struct [("x", ⟨.list (.named "Int") false, false, false⟩)] none),
    ("B", .copy "A"), ("C", .copy "B"), ("D", .copy "Int")]⟩

/-- The system `copyChainDocument` compiles to. -/
def copyChainSystem : TypeSystem :=
  ⟨prelude ++ [("A", .struct [⟨"x", .list (.named "Int") false, false, false⟩] .map),
    ("B", .struct [⟨"x", .list (.named "Int") false, false, false⟩] .map),
    ("C", .struct [⟨"x", .list (.named "Int") false, false, false⟩] .map), ("D", .int)]⟩

/-- Copies chained through another copy and into the prelude compile to a well-formed
system. -/
theorem compile_wellFormed_copyChain :
    copyChainDocument.compile = .ok copyChainSystem ∧
      copyChainDocument.WellFormedSystem copyChainSystem := by
  have h : copyChainDocument.compile = .ok copyChainSystem := by cbv
  exact ⟨h, compile_wellFormed h⟩

end Document

end Ipld.Schema
