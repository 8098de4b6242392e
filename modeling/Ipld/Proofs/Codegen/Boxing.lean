import Mathlib
import Ipld.Proofs.Codegen.Identifiers
import Ipld.Proofs.Cycles.Finite

/-!
# Boxing in generated bindings

A generated type holds its struct fields and union members in place, so a cycle of such
by-value references would make it infinitely large. Both generators box a reference from
`holder` to `target` when `needsBox ts holder target`: `holder` is reached from `target` in
zero or more by-value steps. `reachFrom` grows the reached names one layer at a time; it is
sound (`reachFrom_sound`) and, with enough fuel, closed (`reachFrom_closed`), so `needsBox` is
reachability (`needsBox_iff`) and no cycle of references runs without a box (`boxing_exact`).
-/

namespace Ipld.Schema

/-- A pair of a list in which a longer list is zipped has an entry for each element. -/
theorem exists_mem_zip_of_mem {α β : Type} {a : α} :
    ∀ {l₁ : List α} {l₂ : List β}, l₁.length ≤ l₂.length → a ∈ l₁ → ∃ b, (a, b) ∈ l₁.zip l₂
  | [], _, _, h => absurd h List.not_mem_nil
  | _ :: _, [], hlen, _ => absurd hlen (by simp)
  | x :: l₁, y :: l₂, hlen, h => by
    rcases List.mem_cons.1 h with rfl | h
    · exact ⟨y, by simp⟩
    · obtain ⟨b, hb⟩ := exists_mem_zip_of_mem (by simpa using hlen) h
      exact ⟨b, by simp [hb]⟩

namespace TypeSystem

variable {ts : TypeSystem}

/-- The type named `a` holds a value of the type named `b` in place: `b` is the named type
of a field of the struct `a`, optional or not, or a member type of the union `a`. -/
def HoldsByValue (ts : TypeSystem) (a b : String) : Prop :=
  ∃ t, ts.get? a = some t ∧ b ∈ t.byValue

/-- A name that holds something is a name of the system. -/
theorem HoldsByValue.mem_names {a b : String} (h : ts.HoldsByValue a b) : a ∈ ts.names := by
  obtain ⟨t, ht, -⟩ := h
  exact List.mem_map_of_mem (f := (·.1)) (mem_of_lookup_eq ht)

theorem mem_heldByValue {names : List String} {b : String} :
    b ∈ ts.heldByValue names ↔ ∃ a ∈ names, ts.HoldsByValue a b := by
  simp only [heldByValue, List.mem_flatMap, HoldsByValue]
  constructor
  · rintro ⟨a, ha, hb⟩
    cases ht : ts.get? a with
    | none => simp [ht] at hb
    | some t => exact ⟨a, ha, t, ht, by simpa [ht] using hb⟩
  · rintro ⟨a, ha, t, ht, hb⟩
    exact ⟨a, ha, by simpa [ht] using hb⟩

/-- A list of names that holds every name held by value by one of its names. -/
def ByValueClosed (ts : TypeSystem) (reached : List String) : Prop :=
  ∀ a ∈ reached, ∀ b, ts.HoldsByValue a b → b ∈ reached

/-- The names held by value that `reached` lacks; `reachFrom` adds them in one layer. -/
def freshByValue (ts : TypeSystem) (reached : List String) : List String :=
  (ts.heldByValue reached).filter fun n => !reached.contains n

theorem reachFrom_succ (fuel : Nat) (reached : List String) :
    ts.reachFrom (fuel + 1) reached =
      if (ts.freshByValue reached).isEmpty then reached
      else ts.reachFrom fuel (reached ++ (ts.freshByValue reached).eraseDups) := rfl

theorem mem_freshByValue {reached : List String} {b : String} :
    b ∈ ts.freshByValue reached ↔ (∃ a ∈ reached, ts.HoldsByValue a b) ∧ b ∉ reached := by
  simp [freshByValue, mem_heldByValue]

/-- Nothing is fresh exactly when the list is closed. -/
theorem freshByValue_isEmpty_iff {reached : List String} :
    (ts.freshByValue reached).isEmpty ↔ ts.ByValueClosed reached := by
  simp only [List.isEmpty_iff, List.eq_nil_iff_forall_not_mem, mem_freshByValue, ByValueClosed]
  constructor
  · intro h a ha b hab
    by_contra hb
    exact h b ⟨⟨a, ha, hab⟩, hb⟩
  · rintro h b ⟨⟨a, ha, hab⟩, hb⟩
    exact hb (h a ha b hab)

theorem subset_reachFrom (fuel : Nat) (reached : List String) :
    reached ⊆ ts.reachFrom fuel reached := by
  induction fuel generalizing reached with
  | zero => exact List.Subset.refl _
  | succ fuel ih =>
    rw [reachFrom_succ]
    split
    · exact List.Subset.refl _
    · exact List.Subset.trans (List.subset_append_left _ _) (ih _)

/-- Every name `reachFrom` returns is reached from a name it started with. -/
theorem reachFrom_sound (fuel : Nat) (reached : List String) {x : String}
    (hx : x ∈ ts.reachFrom fuel reached) :
    ∃ y ∈ reached, Relation.ReflTransGen ts.HoldsByValue y x := by
  induction fuel generalizing reached with
  | zero => exact ⟨x, hx, .refl⟩
  | succ fuel ih =>
    rw [reachFrom_succ] at hx
    split at hx
    · exact ⟨x, hx, .refl⟩
    · obtain ⟨y, hy, hyx⟩ := ih _ hx
      rcases List.mem_append.1 hy with hy | hy
      · exact ⟨y, hy, hyx⟩
      · obtain ⟨⟨a, ha, hay⟩, -⟩ := mem_freshByValue.1 (List.mem_eraseDups.1 hy)
        exact ⟨a, ha, .head hay hyx⟩

/-- A closed list is kept as it is. -/
theorem reachFrom_of_closed {reached : List String} (h : ts.ByValueClosed reached) :
    ∀ fuel, ts.reachFrom fuel reached = reached
  | 0 => rfl
  | fuel + 1 => by rw [reachFrom_succ, if_pos (freshByValue_isEmpty_iff.2 h)]

/-- The number of names of the system that a list has not reached. -/
def unreached (ts : TypeSystem) (reached : List String) : Nat :=
  ts.names.countP fun x => !reached.contains x

/-- With more fuel than unreached names, `reachFrom` ends on a closed list. -/
theorem reachFrom_closed {fuel : Nat} {reached : List String}
    (hfuel : ts.unreached reached < fuel) : ts.ByValueClosed (ts.reachFrom fuel reached) := by
  induction fuel generalizing reached with
  | zero => omega
  | succ fuel ih =>
    rw [reachFrom_succ]
    split
    · exact freshByValue_isEmpty_iff.1 ‹_›
    set fresh := ts.freshByValue reached with hfresh
    by_cases hnew : ∃ x ∈ fresh, x ∈ ts.names
    · obtain ⟨x, hx, hxn⟩ := hnew
      have hlt : ts.unreached (reached ++ fresh.eraseDups) < ts.unreached reached := by
        refine countP_lt_countP_of_imp ?_ ⟨x, hxn, ?_, ?_⟩
        · intro y _ hy
          simp only [Bool.not_eq_eq_eq_not, Bool.not_true, List.contains_eq_mem,
            decide_eq_false_iff_not, List.mem_append, not_or] at hy ⊢
          exact hy.1
        · simpa using (mem_freshByValue.1 hx).2
        · simp [List.mem_eraseDups, hx]
      exact ih (by omega)
    · have hclosed : ts.ByValueClosed (reached ++ fresh.eraseDups) := by
        intro a ha b hab
        rcases List.mem_append.1 ha with ha | ha
        · by_cases hb : b ∈ reached
          · exact List.mem_append_left _ hb
          · exact List.mem_append_right _
              (List.mem_eraseDups.2 (mem_freshByValue.2 ⟨⟨a, ha, hab⟩, hb⟩))
        · exact absurd ⟨a, List.mem_eraseDups.1 ha, hab.mem_names⟩ hnew
      rw [reachFrom_of_closed hclosed]
      exact hclosed

/-- A closed list that holds `y` holds everything reachable from `y`. -/
theorem ByValueClosed.mem_of_reaches {reached : List String} (h : ts.ByValueClosed reached)
    {y x : String} (hy : y ∈ reached) (hyx : Relation.ReflTransGen ts.HoldsByValue y x) :
    x ∈ reached := by
  induction hyx with
  | refl => exact hy
  | tail _ hbc ih => exact h _ ih _ hbc

theorem unreached_le (reached : List String) : ts.unreached reached ≤ ts.size := by
  calc ts.unreached reached ≤ ts.names.length := List.countP_le_length
    _ = ts.size := List.length_map _

/-- `reachesByValue` decides reachability along by-value references. -/
theorem reachesByValue_iff {target origin : String} :
    ts.reachesByValue target origin = true ↔
      Relation.ReflTransGen ts.HoldsByValue origin target := by
  rw [reachesByValue, List.contains_iff_mem]
  constructor
  · intro h
    obtain ⟨y, hy, hyx⟩ := reachFrom_sound _ _ h
    rw [List.mem_singleton] at hy
    exact hy ▸ hyx
  · intro h
    have hclosed : ts.ByValueClosed (ts.reachFrom (ts.size + 1) [origin]) :=
      reachFrom_closed (Nat.lt_succ_of_le (unreached_le _))
    exact hclosed.mem_of_reaches (subset_reachFrom _ _ (List.mem_singleton_self origin)) h

end TypeSystem

end Ipld.Schema

namespace Ipld.Codegen

open Schema Code

/-- A reference from `holder` to `target` is boxed exactly when `holder` can be reached
back from `target`. -/
theorem needsBox_iff {ts : TypeSystem} {holder target : String} :
    needsBox ts holder target = true ↔
      Relation.ReflTransGen ts.HoldsByValue target holder :=
  TypeSystem.reachesByValue_iff

/-- A declared type is written as its identifier, in a `Box` when asked. -/
theorem rustType_named {target : String} (h : target ∉ preludeNames) (boxed : Bool) :
    rustType (.named target) boxed =
      if boxed then "Box<" ++ typeIdent target ++ ">" else typeIdent target := by
  unfold rustType
  split
  case h_7 => rfl
  all_goals simp [preludeNames] at h

theorem typeIdent_ne_boxed (target : String) :
    typeIdent target ≠ "Box<" ++ typeIdent target ++ ">" := by
  intro h
  have hlen := congrArg String.length h
  have hbox : "Box<".length = 4 := rfl
  have hclose : ">".length = 1 := rfl
  simp only [String.length_append, hbox, hclose] at hlen
  omega

/-! ## Where the generators write a by-value reference -/

theorem mem_nest {c : Code} {d : Nat} {s : String} (h : (d, s) ∈ c) : (d + 1, s) ∈ nest c :=
  List.mem_map.2 ⟨(d, s), h, rfl⟩

theorem mem_block {head : String} {body : Code} {d : Nat} {s : String} (h : (d, s) ∈ body) :
    (d + 1, s) ∈ block head body :=
  List.mem_append_left _ (List.mem_append_right _ (mem_nest h))

theorem mem_lines {ss : List String} {s : String} (h : s ∈ ss) : (0, s) ∈ lines ss :=
  List.mem_map.2 ⟨s, h, rfl⟩

/-- The line that declares a struct field, in either mode. -/
def fieldLine (ts : TypeSystem) (holder slot : String) (f : StructField) : String :=
  "pub " ++ slot ++ ": " ++ fieldType f.type f.optional f.nullable (boxedRef ts holder f.type) ++ ","

/-- Full bindings declare every field of a struct with its type, boxed as `boxedRef` says. -/
theorem fieldLine_mem_structCode (ts : TypeSystem) (holder ident : String)
    {fields : List StructField} (strategy : StructStrategy) {f : StructField} (hf : f ∈ fields) :
    ∃ slot, (1, fieldLine ts holder slot f) ∈ structCode ts holder ident fields strategy := by
  have hlen : fields.length ≤ (uniqueIdents (fields.map (·.name)) fieldIdent).length := by
    simp [uniqueIdents_length]
  obtain ⟨slot, hslot⟩ := exists_mem_zip_of_mem hlen hf
  refine ⟨slot, List.mem_append_left _ (List.mem_append_right _ (mem_block (mem_lines ?_)))⟩
  exact List.mem_map.2 ⟨⟨f, slot⟩, List.mem_map.2 ⟨(f, slot), hslot, rfl⟩, rfl⟩

/-- Minimal bindings declare every field of a placeholder struct the same way. -/
theorem fieldLine_mem_placeholderStruct (ts : TypeSystem) (holder ident : String)
    {fields : List StructField} {f : StructField} (hf : f ∈ fields) :
    ∃ slot, (1, fieldLine ts holder slot f) ∈ placeholderStruct ts holder ident fields := by
  have hlen : fields.length ≤ (uniqueIdents (fields.map (·.name)) fieldIdent).length := by
    simp [uniqueIdents_length]
  obtain ⟨slot, hslot⟩ := exists_mem_zip_of_mem hlen hf
  refine ⟨slot, List.mem_append_right _ (mem_block (List.mem_flatMap.2 ⟨(f, slot), hslot, ?_⟩))⟩
  exact List.mem_append_right _ (List.mem_singleton_self _)

/-- The line that declares a union variant, in either mode. -/
def variantLine (ts : TypeSystem) (holder variant target : String) : String :=
  variant ++ "(" ++ rustType (.named target) (needsBox ts holder target) ++ "),"

/-- Full bindings declare every member of a union as a variant holding the member type, boxed
as `needsBox` says. -/
theorem variantLine_mem_unionCode (ts : TypeSystem) (holder ident : String)
    {members : List UnionMember} (strategy : UnionStrategy) {m : UnionMember} (hm : m ∈ members) :
    ∃ variant, (1, variantLine ts holder variant m.type) ∈
      unionCode ts holder ident members strategy := by
  refine ⟨escapeKeyword m.type,
    List.mem_append_left _ (List.mem_append_left _ (List.mem_append_right _
      (mem_block (mem_lines ?_))))⟩
  exact List.mem_map.2 ⟨(m, escapeKeyword m.type), List.mem_map.2 ⟨m, hm, rfl⟩, rfl⟩

/-- Minimal bindings declare every member of a placeholder union the same way. -/
theorem variantLine_mem_placeholderUnion (ts : TypeSystem) (holder ident : String)
    {members : List UnionMember} {m : UnionMember} (hm : m ∈ members) :
    ∃ variant, (1, variantLine ts holder variant m.type) ∈
      placeholderUnion ts holder ident members := by
  have hlen : members.length ≤ (uniqueIdents (members.map (·.type)) typeIdent).length := by
    simp [uniqueIdents_length]
  obtain ⟨variant, hv⟩ := exists_mem_zip_of_mem hlen hm
  refine ⟨variant,
    List.mem_append_right _ (mem_block (List.mem_flatMap.2 ⟨(m, variant), hv, ?_⟩))⟩
  exact List.mem_append_right _ (List.mem_singleton_self _)

end Ipld.Codegen

namespace Ipld.Codegen

open Schema

/-- Boxing in either generator is exact. A by-value reference from `holder` to `target` is
boxed exactly when `holder` is reached back from `target` along by-value references, that is
when the reference lies on a cycle of them. Both generators write each struct field and union
member of `holder` that names `target` with that decision, which puts a declared target in a
`Box`. So no cycle of by-value references runs through unboxed references only. -/
theorem boxing_exact (ts : TypeSystem) (holder target : String) :
    (needsBox ts holder target = true ↔ Relation.ReflTransGen ts.HoldsByValue target holder) ∧
    (target ∉ preludeNames →
      (rustType (.named target) (needsBox ts holder target) = "Box<" ++ typeIdent target ++ ">" ↔
        Relation.ReflTransGen ts.HoldsByValue target holder)) ∧
    (∀ ident fields strategy, ∀ f ∈ fields, f.type = .named target →
      (∃ slot, (1, "pub " ++ slot ++ ": " ++
          fieldType (.named target) f.optional f.nullable (needsBox ts holder target) ++ ",") ∈
        structCode ts holder ident fields strategy) ∧
      ∃ slot, (1, "pub " ++ slot ++ ": " ++
          fieldType (.named target) f.optional f.nullable (needsBox ts holder target) ++ ",") ∈
        placeholderStruct ts holder ident fields) ∧
    (∀ ident members strategy, ∀ m ∈ members, m.type = target →
      (∃ variant, (1, variant ++ "(" ++ rustType (.named target) (needsBox ts holder target) ++
          "),") ∈ unionCode ts holder ident members strategy) ∧
      ∃ variant, (1, variant ++ "(" ++ rustType (.named target) (needsBox ts holder target) ++
          "),") ∈ placeholderUnion ts holder ident members) ∧
    ¬Relation.TransGen (fun a b => ts.HoldsByValue a b ∧ needsBox ts a b = false) holder holder := by
  refine ⟨needsBox_iff, fun hprelude => ?_, fun ident fields strategy f hf htype => ?_,
    fun ident members strategy m hm htype => ?_, fun hcycle => ?_⟩
  · rw [rustType_named hprelude, ← needsBox_iff]
    cases needsBox ts holder target
    · simpa using typeIdent_ne_boxed target
    · simp
  · have hline (slot : String) : fieldLine ts holder slot f = "pub " ++ slot ++ ": " ++
        fieldType (.named target) f.optional f.nullable (needsBox ts holder target) ++ "," := by
      simp [fieldLine, htype, boxedRef, Ref.name?]
    obtain ⟨slot, hfull⟩ := fieldLine_mem_structCode ts holder ident strategy hf
    obtain ⟨slot', hminimal⟩ := fieldLine_mem_placeholderStruct ts holder ident hf
    exact ⟨⟨slot, hline slot ▸ hfull⟩, ⟨slot', hline slot' ▸ hminimal⟩⟩
  · subst htype
    exact ⟨variantLine_mem_unionCode ts holder ident strategy hm,
      variantLine_mem_placeholderUnion ts holder ident hm⟩
  · obtain ⟨next, ⟨-, hunboxed⟩, hback⟩ := Relation.TransGen.head'_iff.1 hcycle
    have hboxed : needsBox ts holder next = true :=
      needsBox_iff.2 (Relation.ReflTransGen.mono (fun _ _ h => h.1) _ _ hback)
    rw [hboxed] at hunboxed
    cases hunboxed

/-- A tree whose node holds an optional child node in place, and a label. -/
def treeSystem : TypeSystem :=
  ⟨prelude ++ [("Tree", .struct [⟨"child", .named "Tree", true, false⟩,
    ⟨"label", .named "String", false, false⟩] .map)]⟩

/-- The tree's optional child is written as a boxed tree. -/
theorem boxing_exact_tree :
    "Tree" ∉ preludeNames ∧
      rustType (.named "Tree") (needsBox treeSystem "Tree" "Tree") =
        "Box<" ++ typeIdent "Tree" ++ ">" :=
  ⟨by decide, ((boxing_exact treeSystem "Tree" "Tree").2.1 (by decide)).2 .refl⟩

end Ipld.Codegen
