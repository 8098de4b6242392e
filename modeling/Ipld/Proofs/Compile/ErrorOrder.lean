import Mathlib
import Ipld.Proofs.Compile.Stages
import Ipld.Proofs.Compile.Rules

/-!
# The order of compile errors

A document that does not compile is reported with every error found, sorted by pass: names,
references, definitions, recursion (`ViolationKind.pass`). Inside a pass the compiler keeps
the order it found them in, and two passes are fed by two stages each
(`Document.compile_errors_ordered`): the names and references passes follow declaration
order; the definitions pass gives the unreadable representations, then the broken rules, and
the recursion pass the copy cycles, then the recursive cycles, each run in declaration order.
Declaration order thus holds run by run only (`compile_errors_ordered_enumFirst`).
-/

namespace Ipld.Schema

-- The proofs below unfold `Violation.kind` side by side; tagging it for a moment has its
-- equations generated here, once, rather than by each of them at the same time.
attribute [local simp] Violation.kind
attribute [-simp] Violation.kind

/-- The pass that reports an error: 0 names, 1 references, 2 definitions, 3 recursion. -/
def SchemaError.pass (e : SchemaError) : Nat := e.violation.kind.pass

/-- The position of the first declaration of a name. -/
def Document.declIndex (d : Document) (name : String) : Nat := d.names.idxOf name

/-- Errors in declaration order: each names a type declared no later than the next one. -/
def Document.InDeclarationOrder (d : Document) (errors : List SchemaError) : Prop :=
  errors.Pairwise fun a b => d.declIndex a.typeName ≤ d.declIndex b.typeName

instance (d : Document) (errors : List SchemaError) : Decidable (d.InDeclarationOrder errors) :=
  inferInstanceAs (Decidable (errors.Pairwise _))

/-- The order of the errors of a failed compilation, pass by pass. -/
structure Document.ErrorOrder (d : Document) (errors : List SchemaError) : Prop where
  /-- Errors come pass by pass. -/
  byPass : errors.Pairwise fun a b => a.pass ≤ b.pass
  /-- The names pass follows the declarations it rejects. -/
  names : ((errors.filter (·.pass == 0)).map (·.typeName)).Sublist d.names
  /-- The references pass follows declaration order. -/
  references : d.InDeclarationOrder (errors.filter (·.pass == 1))
  /-- The definitions pass: unreadable representations, then broken rules, each run in
  declaration order. -/
  definitions : ∃ unread broken, errors.filter (·.pass == 2) = unread ++ broken ∧
    (∀ x ∈ unread, x.violation.kind = .invalidRepresentation) ∧
    d.InDeclarationOrder unread ∧ d.InDeclarationOrder broken
  /-- The recursion pass: copy cycles, then cycles of required references, each run in
  declaration order. -/
  recursion : ∃ copies cycles, errors.filter (·.pass == 3) = copies ++ cycles ∧
    (∀ x ∈ copies, ∃ chain, x.violation = .copyCycle chain) ∧
    (∀ x ∈ cycles, ∃ path, x.violation = .recursiveCycle path) ∧
    d.InDeclarationOrder copies ∧ d.InDeclarationOrder cycles

theorem ViolationKind.pass_lt (k : ViolationKind) : k.pass < 4 := by
  cases k <;> decide

/-! ## Sorting by pass -/

/-- Sorting by pass keeps the errors of each pass in the order they were found. -/
theorem filter_byPass (l : List SchemaError) {p : Nat} (hp : p < 4) :
    (byPass l).filter (·.pass == p) = l.filter (·.pass == p) := by
  have hblock : ∀ q, (l.filter (·.violation.kind.pass == q)).filter (·.pass == p) =
      if q = p then l.filter (·.pass == p) else [] := by
    intro q
    rw [List.filter_filter]
    split
    · subst q
      exact List.filter_congr fun x _ => by simp [SchemaError.pass]
    · rw [List.filter_eq_nil_iff]
      intro x _ hx
      simp only [SchemaError.pass, Bool.and_eq_true, beq_iff_eq] at hx
      omega
  simp only [byPass, List.filter_flatMap, hblock]
  interval_cases p <;> simp

/-- Sorting by pass sorts by pass. -/
theorem pairwise_byPass (l : List SchemaError) :
    (byPass l).Pairwise fun a b => a.pass ≤ b.pass := by
  rw [byPass, List.pairwise_flatMap]
  refine ⟨fun q _ => ?_, ?_⟩
  · refine List.pairwise_of_forall_mem_list fun a ha b hb => ?_
    simp only [List.mem_filter, beq_iff_eq] at ha hb
    simp [SchemaError.pass, ha.2, hb.2]
  · have hlt : [0, 1, 2, 3].Pairwise (· < ·) := by decide
    refine hlt.imp ?_
    intro q₁ q₂ hq x hx y hy
    simp only [List.mem_filter, beq_iff_eq] at hx hy
    simp only [SchemaError.pass, hx.2, hy.2]
    omega

/-! ## What each stage reports -/

/-- A reading of a written representation whose failures are invalid representations. -/
def ReadsRepresentation {α : Type} (x : Except (List Violation) α) : Prop :=
  ∀ vs, x = .error vs → ∀ v ∈ vs, v.kind = .invalidRepresentation

namespace ReadsRepresentation

variable {α β : Type}

theorem ok (a : α) : ReadsRepresentation (.ok a : Except (List Violation) α) := by
  intro vs h
  cases h

theorem pure (a : α) : ReadsRepresentation (pure a : Except (List Violation) α) := ok a

theorem error {vs : List Violation} (h : ∀ v ∈ vs, v.kind = .invalidRepresentation) :
    ReadsRepresentation (.error vs : Except (List Violation) α) := by
  intro vs' h'
  cases h'
  exact h

theorem bind {x : Except (List Violation) α} {f : α → Except (List Violation) β}
    (hx : ReadsRepresentation x) (hf : ∀ a, ReadsRepresentation (f a)) :
    ReadsRepresentation (x >>= f) := by
  intro vs h
  cases x with
  | error e =>
    have he : e = vs := by simpa only [Bind.bind, Except.bind, Except.error.injEq] using h
    exact hx vs (he ▸ rfl)
  | ok a => exact hf a vs h

theorem seqRight {x : Except (List Violation) α} {y : Except (List Violation) β}
    (hx : ReadsRepresentation x) (hy : ReadsRepresentation y) : ReadsRepresentation (x *> y) :=
  bind hx fun _ => hy

theorem bothOk {x : Except (List Violation) α} {y : Except (List Violation) β}
    (hx : ReadsRepresentation x) (hy : ReadsRepresentation y) :
    ReadsRepresentation (Schema.bothOk x y) := by
  intro vs h
  cases x <;> cases y <;> simp only [Schema.bothOk, reduceCtorEq, Except.error.injEq] at h <;>
    subst h
  · intro v hv
    rcases List.mem_append.1 hv with hv | hv
    · exact hx _ rfl v hv
    · exact hy _ rfl v hv
  · exact hx _ rfl
  · exact hy _ rfl

end ReadsRepresentation

namespace Representation

variable (r : Representation)

theorem onlyParams_reads (allowed : List String) : ReadsRepresentation (r.onlyParams allowed) := by
  unfold onlyParams
  split
  · exact .ok _
  · refine .error fun v hv => ?_
    obtain ⟨p, -, rfl⟩ := List.mem_map.1 hv
    rfl

theorem required_reads (key : String) : ReadsRepresentation (r.required key) := by
  unfold required
  split
  · exact .error (by simp [Violation.kind])
  · exact .error (by simp [Violation.kind])
  · exact .ok _

theorem delimiters_reads : ReadsRepresentation r.delimiters := by
  unfold delimiters
  refine .bind (r.onlyParams_reads _) fun _ =>
    .bind (.bothOk (r.required_reads _) (r.required_reads _)) ?_
  rintro ⟨inner, entry⟩
  dsimp only
  split
  · exact .error (by simp [Violation.kind])
  · exact .pure _

end Representation

theorem StructStrategy.ofRepresentation_reads (r : Option Representation) :
    ReadsRepresentation (StructStrategy.ofRepresentation r) := by
  unfold StructStrategy.ofRepresentation
  split
  · exact .ok _
  · split
    · exact .seqRight (Representation.onlyParams_reads _ _) (.pure _)
    · exact .seqRight (Representation.onlyParams_reads _ _) (.pure _)
    · exact .seqRight (Representation.onlyParams_reads _ _) (.pure _)
    · exact .bind (Representation.onlyParams_reads _ _) fun _ =>
        .bind (Representation.required_reads _ _) fun _ => .pure _
    · exact .bind (Representation.delimiters_reads _) fun _ => .pure _
    · exact .error (by simp [Violation.kind])

theorem UnionStrategy.ofRepresentation_reads (r : Option Representation) :
    ReadsRepresentation (UnionStrategy.ofRepresentation r) := by
  unfold UnionStrategy.ofRepresentation
  split
  · exact .error (by simp [Violation.kind])
  · split
    · exact .seqRight (Representation.onlyParams_reads _ _) (.pure _)
    · exact .seqRight (Representation.onlyParams_reads _ _) (.pure _)
    · exact .seqRight (Representation.onlyParams_reads _ _) (.pure _)
    · exact .bind (Representation.onlyParams_reads _ _) fun _ =>
        .bind (Representation.required_reads _ _) fun _ => .pure _
    · exact .bind (Representation.onlyParams_reads _ _) fun _ =>
        .bind (.bothOk (Representation.required_reads _ _) (Representation.required_reads _ _))
          fun _ => .pure _
    · exact .error (by simp [Violation.kind])

theorem EnumStrategy.ofRepresentation_reads (r : Option Representation) :
    ReadsRepresentation (EnumStrategy.ofRepresentation r) := by
  unfold EnumStrategy.ofRepresentation
  split
  · exact .ok _
  · split
    · exact .seqRight (Representation.onlyParams_reads _ _) (.pure _)
    · exact .seqRight (Representation.onlyParams_reads _ _) (.pure _)
    · exact .error (by simp [Violation.kind])

theorem MapStrategy.ofRepresentation_reads (r : Option Representation) :
    ReadsRepresentation (MapStrategy.ofRepresentation r) := by
  unfold MapStrategy.ofRepresentation
  split
  · exact .ok _
  · split
    · exact .seqRight (Representation.onlyParams_reads _ _) (.pure _)
    · exact .seqRight (Representation.onlyParams_reads _ _) (.pure _)
    · exact .bind (Representation.delimiters_reads _) fun _ => .pure _
    · exact .error (by simp [Violation.kind])

namespace Resolver

variable (cx : Resolver)

/-- A violation of the references stage: an unknown name or an unreadable
representation. -/
def Resolving (v : Violation) : Prop :=
  v.kind = .unresolvedReference ∨ v.kind = .invalidRepresentation

theorem check_resolving (name : String) (site : Site) : ∀ v ∈ cx.check name site, Resolving v := by
  unfold check
  split <;> simp [Resolving, Violation.kind]

theorem ref_resolving (site : Site) : ∀ r : TypeRef, ∀ v ∈ (cx.ref site r).2, Resolving v
  | .named n => by simpa [ref] using cx.check_resolving n site
  | .list v _ => by simpa [ref] using ref_resolving site v
  | .map k v _ repr => by
    simp only [ref, List.mem_append]
    rintro x ((hx | hx) | hx)
    · exact cx.check_resolving k site x hx
    · split at hx <;> simp_all [Resolving, Violation.kind]
    · exact ref_resolving site v x hx
  | .link none => by simp [ref]
  | .link (some e) => by simpa [ref] using cx.check_resolving e site

theorem strategyOr_resolving {σ : Type} {x : Except (List Violation) σ} (hx : ReadsRepresentation x)
    (default : σ) : ∀ v ∈ (strategyOr x default).2, Resolving v := by
  intro v hv
  cases x with
  | ok s => simp [strategyOr] at hv
  | error vs => exact .inr (hx vs rfl v (by simpa [strategyOr] using hv))

/-- Drafting a definition reports unknown names and unreadable representations only. -/
theorem draft_resolving (defn : TypeDefinition) : ∀ v ∈ (cx.draft defn).2, Resolving v := by
  cases defn with
  | bool | string | bytes | int | float => simp [draft]
  | link e =>
    cases e with
    | none => simp [draft]
    | some e => simpa [draft] using cx.check_resolving e .linkTarget
  | list v n => simpa [draft] using cx.ref_resolving .listValues v
  | map k v n repr =>
    simp only [draft, List.mem_append]
    rintro x ((hx | hx) | hx)
    · exact cx.check_resolving k .mapKeys x hx
    · exact cx.ref_resolving .mapValues v x hx
    · exact strategyOr_resolving (MapStrategy.ofRepresentation_reads repr) _ x hx
  | struct fields repr =>
    simp only [draft, List.mem_append, List.mem_flatMap, List.mem_map]
    rintro x (⟨_, ⟨⟨name, f⟩, -, rfl⟩, hx⟩ | hx)
    · exact cx.ref_resolving (.field name) f.type x hx
    · exact strategyOr_resolving (StructStrategy.ofRepresentation_reads repr) _ x hx
  | union members repr =>
    simp only [draft, List.mem_append, List.mem_flatMap]
    rintro x (⟨m, -, hx⟩ | hx)
    · exact cx.check_resolving _ _ x hx
    · exact strategyOr_resolving (UnionStrategy.ofRepresentation_reads repr) _ x hx
  | enum members repr =>
    simpa [draft] using strategyOr_resolving (EnumStrategy.ofRepresentation_reads repr) _
  | copy f =>
    simp only [draft]
    split <;> simp [Resolving, Violation.kind]

end Resolver

namespace TypeSystem

variable (ts : TypeSystem)

theorem keyViolations_pass (key site : String) :
    ∀ v ∈ ts.keyViolations key site, v.kind.pass = 2 := by
  unfold keyViolations
  split <;> simp [Violation.kind, ViolationKind.pass]

theorem inlineViolations_pass : ∀ r : Ref, ∀ v ∈ ts.inlineViolations r, v.kind.pass = 2
  | .list v _ => by simpa [inlineViolations] using inlineViolations_pass v
  | .map k v _ => by
    simp only [inlineViolations, List.mem_append]
    rintro x (hx | hx)
    · exact ts.keyViolations_pass k _ x hx
    · exact inlineViolations_pass v x hx
  | .named _ | .link _ => by simp [inlineViolations]

theorem structViolations_pass (fields : List StructField) (strategy : StructStrategy) :
    ∀ v ∈ ts.structViolations fields strategy, v.kind.pass = 2 := by
  intro v hv
  simp only [structViolations, List.mem_append, List.mem_filterMap] at hv
  rcases hv with ⟨⟨e, f⟩, -, hv⟩ | hv
  · grind [Violation.kind, ViolationKind.pass]
  · cases strategy <;> grind [Violation.kind, ViolationKind.pass]

theorem kindedViolations_pass (m : UnionMember) : ∀ v ∈ ts.kindedViolations m, v.kind.pass = 2 := by
  unfold kindedViolations
  grind [Violation.kind, ViolationKind.pass]

theorem inlineMemberViolations_pass (key : String) (m : UnionMember) :
    ∀ v ∈ ts.inlineMemberViolations key m, v.kind.pass = 2 := by
  unfold inlineMemberViolations
  grind [Violation.kind, ViolationKind.pass]

theorem prefixViolations_pass (e : List UnionMember) (m : UnionMember) :
    ∀ v ∈ ts.prefixViolations e m, v.kind.pass = 2 := by
  unfold prefixViolations
  grind [Violation.kind, ViolationKind.pass]

theorem unionViolations_pass (members : List UnionMember) (strategy : UnionStrategy) :
    ∀ v ∈ ts.unionViolations members strategy, v.kind.pass = 2 := by
  intro v hv
  simp only [unionViolations, List.mem_append, List.mem_flatMap] at hv
  rcases hv with (hv | ⟨_, -, hv⟩) | hv
  · grind [Violation.kind, ViolationKind.pass]
  · grind [Violation.kind, ViolationKind.pass]
  · cases strategy <;> simp only [List.mem_flatMap, List.not_mem_nil] at hv
    · obtain ⟨m, -, hv⟩ := hv
      exact ts.kindedViolations_pass m v hv
    · obtain ⟨m, -, hv⟩ := hv
      exact ts.inlineMemberViolations_pass _ m v hv
    · grind [Violation.kind, ViolationKind.pass]
    · obtain ⟨⟨e, m⟩, -, hv⟩ := hv
      exact ts.prefixViolations_pass e m v hv

theorem enumViolations_pass (members : List EnumValue) (strategy : EnumStrategy) :
    ∀ v ∈ enumViolations members strategy, v.kind.pass = 2 := by
  intro v hv
  simp only [enumViolations, List.mem_append] at hv
  grind [Violation.kind, ViolationKind.pass]

theorem mapViolations_pass (key : String) (value : Ref) (nullable : Bool) (strategy : MapStrategy) :
    ∀ v ∈ ts.mapViolations key value nullable strategy, v.kind.pass = 2 := by
  intro v hv
  cases strategy with
  | stringpairs inner entry =>
    simp only [mapViolations, List.mem_append, List.mem_filterMap] at hv
    rcases hv with (((hv | hv) | hv) | hv) | hv
    · exact ts.keyViolations_pass key _ v hv
    · grind [Violation.kind, ViolationKind.pass]
    · grind [Violation.kind, ViolationKind.pass]
    · grind [Violation.kind, ViolationKind.pass]
    · exact ts.inlineViolations_pass value v hv
  | _ =>
    simp only [mapViolations, List.mem_append] at hv
    rcases hv with hv | hv
    · exact ts.keyViolations_pass key _ v hv
    · exact ts.inlineViolations_pass value v hv

/-- Every rule the definition checks find broken belongs to the definitions pass. -/
theorem violations_pass (t : SchemaType) : ∀ v ∈ ts.violations t, v.kind.pass = 2 := by
  cases t with
  | struct fields strategy =>
    simp only [violations, List.mem_append, List.mem_flatMap]
    rintro v (hv | ⟨f, -, hv⟩)
    · exact ts.structViolations_pass fields strategy v hv
    · exact ts.inlineViolations_pass f.type v hv
  | union members strategy => exact ts.unionViolations_pass members strategy
  | enum members strategy => exact enumViolations_pass members strategy
  | map key value nullable strategy => exact ts.mapViolations_pass key value nullable strategy
  | list value _ => exact ts.inlineViolations_pass value
  | _ => simp [violations]

end TypeSystem

/-! ## The order each stage reports in -/

section Order

variable {d : Document}

/-- Errors gathered entry by entry from a list of names in declaration order, each error
naming its entry, are in declaration order. -/
theorem inDeclarationOrder_flatMap {β : Type} {l : List (String × β)}
    {g : String × β → List SchemaError}
    (hl : (l.map (·.1)).Pairwise fun a b => d.declIndex a < d.declIndex b)
    (hg : ∀ p ∈ l, ∀ x ∈ g p, x.typeName = p.1) : d.InDeclarationOrder (l.flatMap g) := by
  rw [Document.InDeclarationOrder, List.pairwise_flatMap]
  refine ⟨fun p hp => List.pairwise_of_forall_mem_list fun a ha b hb => ?_, ?_⟩
  · rw [hg p hp a ha, hg p hp b hb]
  · refine (List.pairwise_map.1 hl).imp_of_mem fun {p q} hp hq hpq a ha b hb => ?_
    rw [hg p hp a ha, hg q hq b hb]
    exact hpq.le

/-- The same for errors gathered at most one per entry. -/
theorem inDeclarationOrder_filterMap {β : Type} {l : List (String × β)}
    {g : String × β → Option SchemaError}
    (hl : (l.map (·.1)).Pairwise fun a b => d.declIndex a < d.declIndex b)
    (hg : ∀ p x, g p = some x → x.typeName = p.1) : d.InDeclarationOrder (l.filterMap g) := by
  rw [List.filterMap_eq_flatMap_toList]
  exact inDeclarationOrder_flatMap hl fun p _ x hx => hg p x (by simpa using hx)

/-- Keeping some entries of a keyed list, under their keys, keeps the keys' order. -/
theorem pairwise_keys_filterMap {β γ : Type} {R : String → String → Prop} {l : List (String × β)}
    {f : String × β → Option (String × γ)} (hf : ∀ p q, f p = some q → q.1 = p.1)
    (hl : (l.map (·.1)).Pairwise R) : ((l.filterMap f).map (·.1)).Pairwise R := by
  rw [List.pairwise_map]
  refine List.Pairwise.filterMap f (fun p p' h q hq q' hq' => ?_) (List.pairwise_map.1 hl)
  rw [hf p q hq, hf p' q' hq']
  exact h

/-! ### The names pass -/

/-- One step of the names pass reports at most one name error, about the declaration it
reads. -/
theorem nameStep_reports (t : List (String × TypeDefinition)) (e : List SchemaError)
    (name : String) (defn : TypeDefinition) :
    ∃ errs, (nameStep (t, e) (name, defn)).2 = e ++ errs ∧
      (errs.map (·.typeName)).Sublist [name] ∧ ∀ x ∈ errs, x.pass = 0 := by
  simp only [nameStep]
  split_ifs
  · exact ⟨[⟨name, .redeclaresPrelude name⟩], rfl, by simp, by simp [SchemaError.pass, Violation.kind, ViolationKind.pass]⟩
  · exact ⟨[⟨name, .invalidName name⟩], rfl, by simp, by simp [SchemaError.pass, Violation.kind, ViolationKind.pass]⟩
  · exact ⟨[⟨name, .declaredTwice name⟩], rfl, by simp, by simp [SchemaError.pass, Violation.kind, ViolationKind.pass]⟩
  · exact ⟨[], by simp, by simp, by simp⟩

/-- The names pass reports name errors only, about the declarations it reads, in order. -/
theorem foldl_nameStep_reports (l : List (String × TypeDefinition)) :
    ∀ t e, ∃ new, (l.foldl nameStep (t, e)).2 = e ++ new ∧
      (new.map (·.typeName)).Sublist (l.map (·.1)) ∧ ∀ x ∈ new, x.pass = 0 := by
  induction l with
  | nil => intro t e; exact ⟨[], by simp, by simp, by simp⟩
  | cons decl l ih =>
    intro t e
    obtain ⟨name, defn⟩ := decl
    obtain ⟨errs, hstep, hsub, hpass⟩ := nameStep_reports t e name defn
    rw [List.foldl_cons]
    generalize hs : nameStep (t, e) (name, defn) = s at hstep
    obtain ⟨t', e'⟩ := s
    simp only at hstep
    obtain ⟨new, hnew, hsub', hpass'⟩ := ih t' e'
    refine ⟨errs ++ new, by rw [hnew, hstep, List.append_assoc], ?_, ?_⟩
    · rw [List.map_append, List.map_cons]
      exact hsub.append hsub'
    · intro x hx
      rcases List.mem_append.1 hx with hx | hx
      · exact hpass x hx
      · exact hpass' x hx

/-- What the table built from the declarations `P` holds: its names in the order of their
first declarations in `P`, each declared in `P`, and every good name of `P`. -/
structure TableOf (P t : List (String × TypeDefinition)) : Prop where
  ordered : (t.map (·.1)).Pairwise fun a b => (P.map (·.1)).idxOf a < (P.map (·.1)).idxOf b
  declared : ∀ x ∈ t.map (·.1), x ∈ P.map (·.1)
  complete : ∀ x ∈ P.map (·.1), x ∉ preludeNames → isTypeName x = true → x ∈ t.map (·.1)

namespace TableOf

variable {P t : List (String × TypeDefinition)} {name : String} {defn : TypeDefinition}

/-- Names declared in `P` keep their first declaration when more declarations follow. -/
theorem idxOf_append {x : String} (hx : x ∈ P.map (·.1)) :
    ((P ++ [(name, defn)]).map (·.1)).idxOf x = (P.map (·.1)).idxOf x := by
  rw [List.map_append]
  exact List.idxOf_append_of_mem hx

/-- A declaration that the table does not take keeps the table what it was. -/
theorem keep (h : TableOf P t)
    (hname : name ∈ preludeNames ∨ isTypeName name = false ∨ name ∈ t.map (·.1)) :
    TableOf (P ++ [(name, defn)]) t where
  ordered := h.ordered.imp_of_mem fun ha hb hab => by
    rwa [idxOf_append (h.declared _ ha), idxOf_append (h.declared _ hb)]
  declared x hx := by simpa using Or.inl (h.declared x hx)
  complete x hx hpre hvalid := by
    simp only [List.map_append, List.map_cons, List.map_nil, List.mem_append,
      List.mem_singleton] at hx
    rcases hx with hx | rfl
    · exact h.complete x hx hpre hvalid
    · rcases hname with hname | hname | hname
      · exact absurd hname hpre
      · simp [hname] at hvalid
      · exact hname

/-- A good name the table does not hold yet enters it at its first declaration. -/
theorem add (h : TableOf P t) (hpre : name ∉ preludeNames) (hvalid : isTypeName name = true)
    (hfresh : name ∉ t.map (·.1)) : TableOf (P ++ [(name, defn)]) (t ++ [(name, defn)]) where
  ordered := by
    have hnew : name ∉ P.map (·.1) := fun hP => hfresh (h.complete name hP hpre hvalid)
    have hidx : ((P ++ [(name, defn)]).map (·.1)).idxOf name = P.length := by
      rw [List.map_append, List.idxOf_append_of_notMem hnew]
      simp
    have hkeys : (t ++ [(name, defn)]).map (·.1) = t.map (·.1) ++ [name] := by simp
    rw [hkeys, List.pairwise_append]
    refine ⟨h.ordered.imp_of_mem fun ha hb hab => ?_, by simp, ?_⟩
    · rwa [idxOf_append (h.declared _ ha), idxOf_append (h.declared _ hb)]
    · intro a ha b hb
      simp only [List.mem_singleton] at hb
      subst hb
      rw [hidx, idxOf_append (h.declared a ha)]
      simpa using List.idxOf_lt_length_of_mem (h.declared a ha)
  declared x hx := by
    simp only [List.map_append, List.map_cons, List.map_nil, List.mem_append,
      List.mem_singleton] at hx ⊢
    rcases hx with hx | rfl
    · exact .inl (h.declared x hx)
    · exact .inr rfl
  complete x hx hpre' hvalid' := by
    simp only [List.map_append, List.map_cons, List.map_nil, List.mem_append,
      List.mem_singleton] at hx ⊢
    rcases hx with hx | rfl
    · exact .inl (h.complete x hx hpre' hvalid')
    · exact .inr rfl

/-- One step of the names pass keeps what the table holds. -/
theorem step (h : TableOf P t) (e : List SchemaError) :
    TableOf (P ++ [(name, defn)]) (nameStep (t, e) (name, defn)).1 := by
  simp only [nameStep]
  split_ifs with hpre hinvalid hdup
  · exact h.keep (.inl (by simpa using hpre))
  · exact h.keep (.inr (.inl (by simpa using hinvalid)))
  · refine h.keep (.inr (.inr ?_))
    obtain ⟨p, hp, hpn⟩ := List.any_eq_true.1 hdup
    exact List.mem_map.2 ⟨p, hp, by simpa using hpn⟩
  · refine h.add (by simpa using hpre) (by simpa using hinvalid) fun hmem => hdup ?_
    obtain ⟨p, hp, hpn⟩ := List.mem_map.1 hmem
    exact List.any_eq_true.2 ⟨p, hp, by simp [hpn]⟩

/-- The names pass keeps what the table holds, declaration after declaration. -/
theorem foldl (l : List (String × TypeDefinition)) :
    ∀ P t e, TableOf P t → TableOf (P ++ l) (l.foldl nameStep (t, e)).1 := by
  induction l with
  | nil => intro P t e h; simpa using h
  | cons decl l ih =>
    intro P t e h
    obtain ⟨name, defn⟩ := decl
    rw [List.foldl_cons, show P ++ (name, defn) :: l = (P ++ [(name, defn)]) ++ l by simp]
    have hstep : TableOf (P ++ [(name, defn)]) (nameStep (t, e) (name, defn)).1 := h.step e
    generalize nameStep (t, e) (name, defn) = s at hstep
    exact ih _ s.1 s.2 hstep

end TableOf

/-- The table lists its names in the order of their first declarations. -/
theorem nameTable_ordered (d : Document) :
    ((nameTable d).1.map (·.1)).Pairwise fun a b => d.declIndex a < d.declIndex b := by
  have h := TableOf.foldl d.types [] [] [] ⟨by simp, by simp, by simp⟩
  rw [List.nil_append] at h
  exact h.ordered

/-! ### The other stages -/

/-- The copy cycle a draft is reported with, if any. -/
def copyCycleError (D : List (String × Draft)) : String × Draft → Option SchemaError
  | (name, .copy f) =>
    match followCopies D (D.length + 1) [name] f with
    | .error chain => some ⟨name, .copyCycle chain⟩
    | .ok _ => none
  | (_, .ready _) => none

/-- Assembling reports the copy cycles of the drafts, in draft order. -/
theorem foldl_assembleStep_errors (D : List (String × Draft)) :
    ∀ (l : List (String × Draft)) (ty : List (String × SchemaType)) (e : List SchemaError),
      (l.foldl (assembleStep D) (ty, e)).2 = e ++ l.filterMap (copyCycleError D) := by
  intro l
  induction l with
  | nil => intro ty e; simp
  | cons entry l ih =>
    intro ty e
    obtain ⟨name, dr⟩ := entry
    rw [List.foldl_cons, List.filterMap_cons]
    cases dr with
    | ready t => simpa [assembleStep, copyCycleError] using ih _ e
    | copy f =>
      simp only [assembleStep, copyCycleError]
      split <;> rename_i hf <;> simp only [hf] <;> simp [ih]

/-- The errors the stages of a compilation report, in the order the stages run. -/
def Document.stageErrors (d : Document) : List SchemaError :=
  (nameTable d).2 ++ d.resolveErrors ++ (assemble d.drafts).2 ++
    definitionErrors (assemble d.drafts).1 (nameTable d).1 ++ (assemble d.drafts).1.recursionErrors

/-- A compilation that fails reports the errors of its stages, sorted by pass. -/
theorem compile_eq_error {e : CompileError} (h : d.compile = .error e) :
    e.errors = byPass d.stageErrors := by
  simp only [Document.compile] at h
  split at h
  · cases h
  · cases h
    rfl

/-- Errors of a single pass, filtered by pass. -/
theorem filter_pass_of_forall {l : List SchemaError} {q : Nat} (h : ∀ x ∈ l, x.pass = q)
    (p : Nat) : l.filter (·.pass == p) = if q = p then l else [] := by
  split
  · subst q
    exact List.filter_eq_self.2 fun x hx => by simp [h x hx]
  · exact List.filter_eq_nil_iff.2 fun x hx => by simp [h x hx]; omega

/-- The references pass reports the errors of each table entry in table order. -/
theorem resolveErrors_eq :
    d.resolveErrors = (nameTable d).1.flatMap fun p => (d.resolver.draft p.2).2.map fun v => ⟨p.1, v⟩ := by
  simp [Document.resolveErrors, Document.drafted, List.flatMap_map]

/-- The drafts are the table entries that were drafted, in table order. -/
theorem drafts_eq :
    d.drafts = (nameTable d).1.filterMap fun p => (d.resolver.draft p.2).1.map (p.1, ·) := by
  simp [Document.drafts, Document.drafted, List.filterMap_map]

/-- The declared types of the assembled system are the drafts that resolved, in order. -/
theorem declared_assemble (D : List (String × Draft)) :
    (assemble D).1.declared = D.filterMap fun p => (p.2.resolve D p.1).map (p.1, ·) := by
  simp only [TypeSystem.declared, assemble_types]
  exact List.drop_left' rfl

/-- The definitions pass reports the rules each table entry breaks, under its name. -/
theorem mem_definitionErrors {ts : TypeSystem} {p : String × TypeDefinition} {x : SchemaError} (hx : x ∈ (match p with
      | (name, defn) =>
        match defn, ts.get? name with
        | .copy _, _ => []
        | _, some t => (ts.violations t).map fun v => (⟨name, v⟩ : SchemaError)
        | _, none => [])) :
    x.typeName = p.1 ∧ x.pass = 2 := by
  obtain ⟨name, defn⟩ := p
  simp only at hx
  split at hx
  · simp at hx
  · obtain ⟨v, hv, rfl⟩ := List.mem_map.1 hx
    exact ⟨rfl, ts.violations_pass _ v hv⟩
  · simp at hx

/-- The recursion check reports a cycle of required references under the name of the type
it starts from. -/
theorem recursionErrors_reports (ts : TypeSystem) :
    ∀ p x, (match p with
      | (name, (_ : SchemaType)) =>
        if ts.finiteNames.contains name then none
        else (ts.cycleThrough ts.finiteNames name).map fun path =>
          (⟨name, .recursiveCycle path⟩ : SchemaError)) = some x →
      x.typeName = p.1 ∧ ∃ path, x.violation = .recursiveCycle path := by
  rintro ⟨name, t⟩ x hx
  simp only at hx
  split at hx
  · cases hx
  · obtain ⟨path, -, rfl⟩ := Option.map_eq_some_iff.1 hx
    exact ⟨rfl, path, rfl⟩

/-! ### What each stage reports -/

/-- The drafts keep the table's declaration order. -/
theorem drafts_ordered :
    (d.drafts.map (·.1)).Pairwise fun a b => d.declIndex a < d.declIndex b := by
  rw [drafts_eq]
  refine pairwise_keys_filterMap (fun p q hq => ?_) (nameTable_ordered d)
  obtain ⟨dr, -, rfl⟩ := Option.map_eq_some_iff.1 hq
  rfl

/-- The assembled system declares its types in declaration order. -/
theorem declared_ordered :
    ((assemble d.drafts).1.declared.map (·.1)).Pairwise fun a b => d.declIndex a < d.declIndex b := by
  rw [declared_assemble]
  refine pairwise_keys_filterMap (fun p q hq => ?_) drafts_ordered
  obtain ⟨t, -, rfl⟩ := Option.map_eq_some_iff.1 hq
  rfl

/-- The references pass reports in declaration order. -/
theorem resolveErrors_ordered : d.InDeclarationOrder d.resolveErrors := by
  rw [resolveErrors_eq]
  refine inDeclarationOrder_flatMap (nameTable_ordered d) fun p _ x hx => ?_
  obtain ⟨v, -, rfl⟩ := List.mem_map.1 hx
  rfl

/-- Resolving reports unknown names, of the references pass, and unreadable representations,
of the definitions pass. -/
theorem resolveErrors_pass : ∀ x ∈ d.resolveErrors,
    x.pass = 1 ∨ (x.pass = 2 ∧ x.violation.kind = .invalidRepresentation) := by
  rw [resolveErrors_eq]
  intro x hx
  obtain ⟨p, -, hx⟩ := List.mem_flatMap.1 hx
  obtain ⟨v, hv, rfl⟩ := List.mem_map.1 hx
  rcases d.resolver.draft_resolving p.2 v hv with hk | hk
  · exact .inl (by simp [SchemaError.pass, hk, ViolationKind.pass])
  · exact .inr ⟨by simp [SchemaError.pass, hk, ViolationKind.pass], hk⟩

/-- Resolving reports nothing for the names and recursion passes. -/
theorem resolveErrors_filter_eq_nil {p : Nat} (h1 : p ≠ 1) (h2 : p ≠ 2) :
    d.resolveErrors.filter (·.pass == p) = [] :=
  List.filter_eq_nil_iff.2 fun x hx => by
    rcases resolveErrors_pass x hx with h | ⟨h, -⟩ <;> simp [h] <;> omega

/-- A copy cycle is reported under the name of the copy it starts from. -/
theorem copyCycleError_reports (D : List (String × Draft)) :
    ∀ p x, copyCycleError D p = some x → x.typeName = p.1 ∧ ∃ chain, x.violation = .copyCycle chain := by
  rintro ⟨name, dr⟩ x hx
  cases dr with
  | ready t => cases hx
  | copy f =>
    simp only [copyCycleError] at hx
    split at hx
    · cases hx
      exact ⟨rfl, _, rfl⟩
    · cases hx

/-- Assembling reports the copy cycles of the drafts, in draft order. -/
theorem assemble_errors (D : List (String × Draft)) :
    (assemble D).2 = D.filterMap (copyCycleError D) := by
  rw [assemble_eq]
  simpa using foldl_assembleStep_errors D D [] []

theorem nameErrors_pass : ∀ x ∈ (nameTable d).2, x.pass = 0 := by
  obtain ⟨N, hN, -, hpass⟩ := foldl_nameStep_reports d.types [] []
  rw [List.nil_append, ← nameTable_eq_foldl] at hN
  exact hN ▸ hpass

theorem copyErrors_pass (D : List (String × Draft)) : ∀ x ∈ (assemble D).2, x.pass = 3 := by
  rw [assemble_errors]
  intro x hx
  obtain ⟨p, -, hp⟩ := List.mem_filterMap.1 hx
  obtain ⟨-, c, hc⟩ := copyCycleError_reports D p x hp
  simp [SchemaError.pass, hc, Violation.kind, ViolationKind.pass]

theorem definitionErrors_pass (ts : TypeSystem) (table : List (String × TypeDefinition)) :
    ∀ x ∈ definitionErrors ts table, x.pass = 2 := by
  intro x hx
  obtain ⟨p, -, hx⟩ := List.mem_flatMap.1 hx
  exact (mem_definitionErrors hx).2

theorem recursionErrors_cycles (ts : TypeSystem) :
    ∀ x ∈ ts.recursionErrors, ∃ path, x.violation = .recursiveCycle path := by
  intro x hx
  obtain ⟨p, -, hp⟩ := List.mem_filterMap.1 hx
  exact (recursionErrors_reports _ p x hp).2

theorem recursionErrors_pass (ts : TypeSystem) : ∀ x ∈ ts.recursionErrors, x.pass = 3 := by
  intro x hx
  obtain ⟨path, hpath⟩ := recursionErrors_cycles ts x hx
  simp [SchemaError.pass, hpath, Violation.kind, ViolationKind.pass]

/-- The errors of one pass, stage by stage: only resolving reports for two passes. -/
theorem filter_stageErrors {p : Nat} (hp : p < 4) :
    (byPass d.stageErrors).filter (·.pass == p) =
      (if 0 = p then (nameTable d).2 else []) ++ d.resolveErrors.filter (·.pass == p) ++
        (if 3 = p then (assemble d.drafts).2 else []) ++
        (if 2 = p then definitionErrors (assemble d.drafts).1 (nameTable d).1 else []) ++
        (if 3 = p then (assemble d.drafts).1.recursionErrors else []) := by
  rw [filter_byPass _ hp, Document.stageErrors]
  simp only [List.filter_append, filter_pass_of_forall nameErrors_pass,
    filter_pass_of_forall (copyErrors_pass _), filter_pass_of_forall (definitionErrors_pass _ _),
    filter_pass_of_forall (recursionErrors_pass _)]

/-! ### Each pass in turn -/

theorem stageErrors_names :
    (((byPass d.stageErrors).filter (·.pass == 0)).map (·.typeName)).Sublist d.names := by
  obtain ⟨N, hN, hsub, -⟩ := foldl_nameStep_reports d.types [] []
  rw [List.nil_append, ← nameTable_eq_foldl] at hN
  rw [filter_stageErrors (by decide), resolveErrors_filter_eq_nil (by decide) (by decide)]
  simpa [hN, Document.names] using hsub

theorem stageErrors_references :
    d.InDeclarationOrder ((byPass d.stageErrors).filter (·.pass == 1)) := by
  rw [filter_stageErrors (by decide)]
  simpa [Document.InDeclarationOrder] using resolveErrors_ordered.filter (·.pass == 1)

/-- The definitions pass: the representations resolving could not read, then the rules the
definition checks find broken. -/
theorem stageErrors_definitions :
    ∃ unread broken, (byPass d.stageErrors).filter (·.pass == 2) = unread ++ broken ∧
      (∀ x ∈ unread, x.violation.kind = .invalidRepresentation) ∧
      d.InDeclarationOrder unread ∧ d.InDeclarationOrder broken := by
  rw [filter_stageErrors (by decide)]
  refine ⟨d.resolveErrors.filter (·.pass == 2), definitionErrors (assemble d.drafts).1 (nameTable d).1,
    by simp, fun x hx => ?_, resolveErrors_ordered.filter _,
    inDeclarationOrder_flatMap (nameTable_ordered d) fun p _ x hx => (mem_definitionErrors hx).1⟩
  obtain ⟨hx, hp⟩ := List.mem_filter.1 hx
  rcases resolveErrors_pass x hx with h | h
  · simp [h] at hp
  · exact h.2

/-- The recursion pass: the copy cycles assembling finds, then the cycles of required
references the recursion check finds. -/
theorem stageErrors_recursion :
    ∃ copies cycles, (byPass d.stageErrors).filter (·.pass == 3) = copies ++ cycles ∧
      (∀ x ∈ copies, ∃ chain, x.violation = .copyCycle chain) ∧
      (∀ x ∈ cycles, ∃ path, x.violation = .recursiveCycle path) ∧
      d.InDeclarationOrder copies ∧ d.InDeclarationOrder cycles := by
  rw [filter_stageErrors (by decide), resolveErrors_filter_eq_nil (by decide) (by decide),
    assemble_errors]
  refine ⟨d.drafts.filterMap (copyCycleError d.drafts), (assemble d.drafts).1.recursionErrors,
    by simp, fun x hx => ?_, recursionErrors_cycles _,
    inDeclarationOrder_filterMap drafts_ordered (copyCycleError_reports d.drafts · · · |>.1),
    inDeclarationOrder_filterMap declared_ordered fun p x hp => (recursionErrors_reports _ p x hp).1⟩
  obtain ⟨p, -, hp⟩ := List.mem_filterMap.1 hx
  exact (copyCycleError_reports d.drafts p x hp).2

end Order

/-! ## The order of a failed compilation -/

namespace Document

variable {d : Document}

/-- A document that does not compile reports its errors pass by pass; within the names and
references passes in declaration order, within the definitions and recursion passes in two
runs that each follow declaration order. -/
theorem compile_errors_ordered {e : CompileError} (h : d.compile = .error e) :
    d.ErrorOrder e.errors := by
  rw [compile_eq_error h]
  exact ⟨pairwise_byPass _, stageErrors_names, stageErrors_references, stageErrors_definitions,
    stageErrors_recursion⟩

/-- An enum without members, declared before a struct whose representation cannot be read. -/
def enumFirstDocument : Document :=
  ⟨[("E", .enum [] none),
    ("S", .struct [("a", ⟨.named "String", false, false⟩)] (some ⟨"bogus", []⟩))]⟩

/-- Both errors of `enumFirstDocument` belong to the definitions pass: the struct's
representation, found while resolving references, comes before the rule the enum breaks, so
the pass is not in declaration order. -/
theorem compile_errors_ordered_enumFirst :
    enumFirstDocument.compile =
        .error ⟨[⟨"S", .unknownStrategy "struct" "bogus"⟩, ⟨"E", .emptyEnum⟩]⟩ ∧
      enumFirstDocument.ErrorOrder
        [⟨"S", .unknownStrategy "struct" "bogus"⟩, ⟨"E", .emptyEnum⟩] ∧
      ¬enumFirstDocument.InDeclarationOrder
        [⟨"S", .unknownStrategy "struct" "bogus"⟩, ⟨"E", .emptyEnum⟩] := by
  have h : enumFirstDocument.compile =
      .error ⟨[⟨"S", .unknownStrategy "struct" "bogus"⟩, ⟨"E", .emptyEnum⟩]⟩ := by cbv
  exact ⟨h, compile_errors_ordered h, by decide⟩

end Document


end Ipld.Schema
