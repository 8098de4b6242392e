import Mathlib
import Ipld.Proofs.Codegen.Modules

/-!
# Member identifiers of generated types

Each generated Rust item names its members: a struct its fields (`fieldPlans` in full mode,
`uniqueIdents` over `fieldIdent` in minimal mode), a union its variants (`escapeKeyword` of the
member type in full mode, `uniqueIdents` over `typeIdent` in minimal mode), an enum its
variants, and minimal mode's table its slots after `bindings`. When no name of a compiled
system is spelled as a keyword once converted, every such identifier is a plain Rust
identifier (`IsIdent`), so dropping `r#` changes none, and the identifiers of one item are
distinct (`generated_member_idents`). Without the condition they are not: the fields `type`,
`Type` and `type2` become `r#type`, `r#type2` and `type2`.
-/

namespace Ipld.Codegen

open Schema

/-! ## Plain identifiers -/

/-- A plain Rust identifier: a word that is no keyword and not `_`, and starts with no digit. -/
def IsIdent (s : String) : Prop :=
  IsPlain s ∧ s ≠ "_" ∧ s.toList.head?.any (fun c => !c.isDigit) = true

instance : DecidablePred IsPlain := fun _ => inferInstanceAs (Decidable (_ ∧ _))

instance : DecidablePred IsIdent := fun _ => inferInstanceAs (Decidable (_ ∧ _ ∧ _))

/-- A word put after a plain identifier keeps it plain, unless the whole is a keyword. -/
theorem IsIdent.append {s t : String} (h : IsIdent s) (ht : IsWord t) (hk : s ++ t ∉ keywords) :
    IsIdent (s ++ t) := by
  obtain ⟨⟨hw, -⟩, hu, hhead⟩ := h
  obtain ⟨c, cs, hcs⟩ : ∃ c cs, s.toList = c :: cs := by
    cases hs : s.toList with
    | nil => simp [hs] at hhead
    | cons c cs => exact ⟨c, cs, rfl⟩
  have hlist : (s ++ t).toList = c :: (cs ++ t.toList) := by simp [String.toList_append, hcs]
  refine ⟨⟨isWord_append.2 ⟨hw, ht⟩, hk⟩, ?_, by simpa [hlist, hcs] using hhead⟩
  intro heq
  by_cases ht0 : t = ""
  · subst ht0
    exact hu (by simpa using heq)
  · have htl : t.toList ≠ [] := by simpa using ht0
    have hlen := congrArg (fun u : String => u.toList.length) heq
    simp only [hlist, List.length_cons, List.length_append] at hlen
    have hone : "_".toList.length = 1 := by simp
    have : t.toList.length = 0 := by omega
    exact htl (List.eq_nil_of_length_eq_zero this)

theorem IsIdent.append_toString {s : String} (h : IsIdent s) (k : Nat) :
    IsIdent (s ++ toString k) :=
  h.append (isWord_toString k) (not_mem_keywords_append_toString s k)

/-- The identifiers `uniqueIdents` gives are plain when each name's own identifier is. -/
theorem isIdent_uniqueIdents {names : List String} {ident : String → String}
    (h : ∀ n ∈ names, IsIdent (ident n)) : ∀ m ∈ uniqueIdents names ident, IsIdent m :=
  forall_mem_uniqueIdents (fun _ k hs => hs.append_toString k) h

/-- Plain identifiers are distinct after dropping `r#` when they are distinct. -/
theorem nodup_map_unraw {ids : List String} (h : ∀ i ∈ ids, IsIdent i) (hnd : ids.Nodup) :
    (ids.map unraw).Nodup := by
  rwa [List.map_congr_left fun i hi => unraw_of_isWord (h i hi).1.1, List.map_id']

/-- `uniqueIdents` gives plain identifiers, distinct once `r#` is dropped, when each name's own
identifier is plain. -/
theorem uniqueIdents_plain {names : List String} {ident : String → String}
    (h : ∀ n ∈ names, IsIdent (ident n)) :
    (∀ m ∈ uniqueIdents names ident, IsIdent m) ∧ ((uniqueIdents names ident).map unraw).Nodup :=
  ⟨isIdent_uniqueIdents h, nodup_map_unraw (isIdent_uniqueIdents h) (uniqueIdents_spec _ _).1⟩

/-- `guardStart` writes a first character that is no digit. -/
theorem head_guardStart {lead : Char} (hlead : lead.isDigit = false) (cs : List Char) :
    (guardStart lead cs).toList.head?.any (fun c => !c.isDigit) = true := by
  unfold guardStart
  split
  · simp [hlead]
  · split
    · simp [hlead]
    · simp_all

/-- Escaping leaves a name that is no keyword and not `_` as it is. -/
theorem escapeKeyword_of_ne {s : String} (hk : s ∉ keywords) (hu : s ≠ "_") :
    escapeKeyword s = s := by
  unfold escapeKeyword
  rw [if_neg, if_neg (fun h => hk (List.contains_iff_mem.1 h))]
  intro h
  have hmem := List.contains_iff_mem.1 h
  simp only [List.mem_cons, List.not_mem_nil, or_false] at hmem
  rcases hmem with rfl | rfl | rfl | rfl | rfl
  all_goals first
    | exact hk (by decide)
    | exact hu rfl

/-! ## Each kind of name -/

/-- A field or slot whose snake-case name is no keyword gets a plain identifier. -/
theorem isIdent_fieldIdent {n : String} (h : snakeCase n ∉ keywords) : IsIdent (fieldIdent n) := by
  by_cases hu : snakeCase n = "_"
  · have hid : fieldIdent n = "__" := by simp [fieldIdent, escapeKeyword, hu]
    rw [hid]
    exact ⟨⟨by simp [IsWord, IsWordChar], by decide⟩, by decide, by decide⟩
  · rw [fieldIdent, escapeKeyword_of_ne h hu]
    exact ⟨⟨isWord_snakeCase n, h⟩, hu, head_guardStart (by decide) _⟩

theorem isUpper_toUpper {c : Char} (h : c.isLower = true) : c.toUpper.isUpper = true := by
  simp only [Char.isLower, Bool.and_eq_true, decide_eq_true_eq] at h
  have h' : 'a'.val ≤ c.val ∧ c.val ≤ 'z'.val := h
  have hsub : ('A'.val - 'a'.val).toNat = 4294967264 := by decide
  have hA : 'A'.val.toNat = 65 := rfl
  have hZ : 'Z'.val.toNat = 90 := rfl
  have ha : 'a'.val.toNat = 97 := rfl
  have hz : 'z'.val.toNat = 122 := rfl
  simp only [Char.toUpper, dif_pos h', Char.isUpper, decide_eq_true_eq]
  simp only [ge_iff_le, UInt32.le_iff_toNat_le, UInt32.toNat_add, hsub, hA, hZ, ha, hz] at h' ⊢
  omega

theorem isAlphanum_toUpper {c : Char} (h : c.isAlphanum = true) : c.toUpper.isAlphanum = true := by
  by_cases hl : c.isLower = true
  · simp [Char.isAlphanum, Char.isAlpha, isUpper_toUpper hl]
  · have hn : ¬('a'.val ≤ c.val ∧ c.val ≤ 'z'.val) := by simpa [Char.isLower] using hl
    have hc : c.toUpper = c := by simp only [Char.toUpper, dif_neg hn]
    rwa [hc]

/-- Every character `pascalChars` writes is an ASCII letter or digit. -/
theorem pascalChars_alphanum (upper : Bool) (cs : List Char) :
    ∀ c ∈ pascalChars upper cs, c.isAlphanum = true := by
  induction cs generalizing upper with
  | nil => simp [pascalChars]
  | cons c rest ih =>
    simp only [pascalChars]
    split_ifs with hal hup
    · exact List.forall_mem_cons.2 ⟨isAlphanum_toUpper hal, ih false⟩
    · exact List.forall_mem_cons.2 ⟨hal, ih false⟩
    · exact ih true

theorem alphanum_pascalCase (n : String) : ∀ c ∈ (pascalCase n).toList, c.isAlphanum = true := by
  have hchars := pascalChars_alphanum true n.toList
  unfold pascalCase guardStart
  split
  · simp
  · split
    · rw [String.toList_ofList]
      exact List.forall_mem_cons.2 ⟨by decide, hchars⟩
    · simpa [String.toList_ofList] using hchars

/-- An enum variant whose Pascal-case name is no keyword gets a plain identifier. -/
theorem isIdent_pascalCase {n : String} (h : pascalCase n ∉ keywords) :
    IsIdent (escapeKeyword (pascalCase n)) := by
  have hw : IsWord (pascalCase n) := fun c hc => Or.inl (alphanum_pascalCase n c hc)
  have hu : pascalCase n ≠ "_" := by
    intro heq
    have hunder := alphanum_pascalCase n '_' (by simp [heq])
    exact absurd hunder (by decide)
  rw [escapeKeyword_of_ne h hu]
  exact ⟨⟨hw, h⟩, hu, head_guardStart (by decide) _⟩

theorem isDigit_of_isAlpha {c : Char} (h : c.isAlpha = true) : c.isDigit = false := by
  simp only [Char.isAlpha, Char.isUpper, Char.isLower, Bool.or_eq_true, Bool.and_eq_true,
    decide_eq_true_eq] at h
  simp only [Char.isDigit, Bool.and_eq_false_iff, decide_eq_false_iff_not]
  have h0 : '0'.val.toNat = 48 := rfl
  have h9 : '9'.val.toNat = 57 := rfl
  have hA : 'A'.val.toNat = 65 := rfl
  have hZ : 'Z'.val.toNat = 90 := rfl
  have ha : 'a'.val.toNat = 97 := rfl
  have hz : 'z'.val.toNat = 122 := rfl
  simp only [ge_iff_le, UInt32.le_iff_toNat_le, h0, h9, hA, hZ, ha, hz] at h ⊢
  omega

/-- A type name that is no keyword is a plain identifier. -/
theorem isIdent_of_isTypeName {t : String} (h : isTypeName t = true) (hk : t ∉ keywords) :
    IsIdent t := by
  unfold isTypeName at h
  split at h
  · rename_i c cs hcs
    simp only [Bool.and_eq_true, List.all_eq_true, Bool.or_eq_true, decide_eq_true_eq] at h
    refine ⟨⟨fun d hd => ?_, hk⟩, fun heq => ?_, by simp [hcs, isDigit_of_isAlpha h.1]⟩
    · rw [hcs] at hd
      rcases List.mem_cons.1 hd with rfl | hd
      · exact Or.inl (by simp [Char.isAlphanum, h.1])
      · exact h.2 d hd
    · have hc : '_' = c ∧ cs = [] := by simpa [heq] using hcs
      exact absurd (hc.1 ▸ h.1) (by decide)
  · simp at h

/-- Every name of a compiled system is a type name. -/
theorem isTypeName_of_mem_names {d : Document} {ts : TypeSystem} (hc : d.compile = .ok ts)
    {x : String} (hx : x ∈ ts.names) : isTypeName x = true := by
  rw [Document.compile_names hc, List.mem_append] at hx
  rcases hx with hx | hx
  · have hall : preludeNames.all isTypeName = true := by decide
    exact List.all_eq_true.1 hall x hx
  · exact ((Document.compile_table hc).2.2 x hx).2

/-- A type name is not `_`, so it is escaped only when it is a keyword. -/
theorem escapeKeyword_typeName {t : String} (h : isTypeName t = true) (hk : t ∉ keywords) :
    escapeKeyword t = t :=
  escapeKeyword_of_ne hk fun heq => absurd (heq ▸ h) (by decide)

theorem isIdent_typeIdent {t : String} (h : isTypeName t = true) (hk : t ∉ keywords) :
    IsIdent (typeIdent t) := by
  have hid := isIdent_of_isTypeName h hk
  unfold typeIdent
  split
  · have hres : ∀ r ∈ reservedTypes, r ++ "Type" ∉ keywords := by decide
    exact hid.append (by simp [IsWord, IsWordChar]) (hres t (List.contains_iff_mem.1 ‹_›))
  · rwa [escapeKeyword_typeName h hk]

/-- A union that keeps its rules has members of distinct types. -/
theorem memberTypes_nodup {ts : TypeSystem} {members : List UnionMember} {strategy : UnionStrategy}
    (h : ts.unionViolations members strategy = []) : (members.map (·.type)).Nodup := by
  simp only [TypeSystem.unionViolations, List.append_eq_nil_iff, List.flatMap_eq_nil_iff] at h
  apply nodup_map_of_withEarlier
  intro e m hmem y hy hd
  have := h.1.2 (e, m) hmem
  simp only [ite_eq_right_iff, reduceCtorEq, imp_false, List.any_eq_true, beq_iff_eq,
    not_exists, not_and] at this
  exact this.2 y hy hd

/-! ## The identifiers of a generated item -/

/-- The member identifiers the generators write for a type, one list per generated item: a
struct's fields in full and in minimal mode, a union's variants in full and in minimal mode,
and an enum's variants. -/
def memberIdents : SchemaType → List (List String)
  | .struct fields _ =>
    [(fieldPlans fields).map (·.ident), uniqueIdents (fields.map (·.name)) fieldIdent]
  | .union members _ =>
    [members.map fun m => escapeKeyword m.type, uniqueIdents (members.map (·.type)) typeIdent]
  | .enum members _ => [uniqueIdents (members.map (·.name)) fun n => escapeKeyword (pascalCase n)]
  | _ => []

/-- The slots of minimal mode's binding table: `bindings`, then one per declared type. -/
def tableSlots (ts : TypeSystem) : List String :=
  "bindings" :: (uniqueIdents ("bindings" :: ts.declared.map (·.1)) fieldIdent).drop 1

/-- Whether the member names of a type stay clear of keywords once converted: field names in
snake case, member types as they are, enum member names in Pascal case. -/
def membersPlain : SchemaType → Bool
  | .struct fields _ => fields.all fun f => !keywords.contains (snakeCase f.name)
  | .union members _ => members.all fun m => !keywords.contains m.type
  | .enum members _ => members.all fun m => !keywords.contains (pascalCase m.name)
  | _ => true

/-- Whether no name of a system is spelled as a keyword once converted: the declared names in
snake case, and the member names of every type. -/
def namesPlain (ts : TypeSystem) : Bool :=
  ts.declared.all (fun p => !keywords.contains (snakeCase p.1)) && ts.types.all fun p => membersPlain p.2

variable {d : Document} {ts : TypeSystem}

/-- The items of one type: every identifier plain, and distinct once `r#` is dropped. -/
theorem memberIdents_plain (hc : d.compile = .ok ts) {name : String} {t : SchemaType}
    (hget : ts.get? name = some t) (hp : membersPlain t = true) :
    ∀ ids ∈ memberIdents t, (∀ i ∈ ids, IsIdent i) ∧ (ids.map unraw).Nodup := by
  cases t with
  | struct fields strategy =>
    simp [membersPlain] at hp
    have hfields : (∀ i ∈ uniqueIdents (fields.map (·.name)) fieldIdent, IsIdent i) ∧
        ((uniqueIdents (fields.map (·.name)) fieldIdent).map unraw).Nodup :=
      uniqueIdents_plain (by simpa using fun f hf => isIdent_fieldIdent (hp f hf))
    simp only [memberIdents, fieldPlans_idents, List.mem_cons, List.not_mem_nil, or_false,
      forall_eq_or_imp, forall_eq]
    exact ⟨hfields, hfields⟩
  | union members strategy =>
    simp [membersPlain] at hp
    have hcomp := Document.compile_compiled hc
    have htn : ∀ m ∈ members, isTypeName m.type = true := fun m hm =>
      isTypeName_of_mem_names hc (hcomp.closed _ (mem_of_lookup_eq hget) m.type
        (by simpa [SchemaType.mentions] using ⟨m, hm, rfl⟩))
    have hrules : ts.unionViolations members strategy = [] := hcomp.rules _ (mem_of_lookup_eq hget)
    have hfull : (members.map fun m => escapeKeyword m.type) = members.map (·.type) :=
      List.map_congr_left fun m hm => escapeKeyword_typeName (htn m hm) (hp m hm)
    have htypes : ∀ i ∈ members.map (·.type), IsIdent i := by
      simpa using fun m hm => isIdent_of_isTypeName (htn m hm) (hp m hm)
    have hminimal : (∀ i ∈ uniqueIdents (members.map (·.type)) typeIdent, IsIdent i) ∧
        ((uniqueIdents (members.map (·.type)) typeIdent).map unraw).Nodup :=
      uniqueIdents_plain (by simpa using fun m hm => isIdent_typeIdent (htn m hm) (hp m hm))
    simp only [memberIdents, hfull, List.mem_cons, List.not_mem_nil, or_false, forall_eq_or_imp,
      forall_eq]
    exact ⟨⟨htypes, nodup_map_unraw htypes (memberTypes_nodup hrules)⟩, hminimal⟩
  | enum members strategy =>
    simp [membersPlain] at hp
    simp only [memberIdents, List.mem_cons, List.not_mem_nil, or_false, forall_eq]
    exact uniqueIdents_plain (by simpa using fun m hm => isIdent_pascalCase (hp m hm))
  | _ => simp [memberIdents]

/-- The slots of the binding table: every one plain, and distinct once `r#` is dropped. -/
theorem tableSlots_plain (hp : ∀ p ∈ ts.declared, snakeCase p.1 ∉ keywords) :
    (∀ i ∈ tableSlots ts, IsIdent i) ∧ ((tableSlots ts).map unraw).Nodup := by
  obtain ⟨rest, hrest⟩ := uniqueIdents_cons "bindings" (ts.declared.map (·.1)) fieldIdent
  have hbindings : fieldIdent "bindings" = "bindings" := by decide
  have hidents : ∀ i ∈ uniqueIdents ("bindings" :: ts.declared.map (·.1)) fieldIdent, IsIdent i :=
    isIdent_uniqueIdents (by
      simpa using ⟨isIdent_fieldIdent (by decide), fun n p hp' => isIdent_fieldIdent (hp _ hp')⟩)
  have hnd := (uniqueIdents_spec ("bindings" :: ts.declared.map (·.1)) fieldIdent).1
  rw [hrest, hbindings] at hidents hnd
  have hslots : tableSlots ts = "bindings" :: rest := by
    rw [tableSlots, hrest, hbindings, List.drop_one, List.tail_cons]
  rw [hslots]
  exact ⟨hidents, nodup_map_unraw hidents hnd⟩

/-- In a compiled system whose names are not spelled as keywords once converted, the members
of every generated item, and the slots of the binding table, are plain Rust identifiers,
distinct within their item even when `r#x` and `x` are taken as one identifier. -/
theorem generated_member_idents (hc : d.compile = .ok ts) (hp : namesPlain ts = true) :
    (∀ name t, ts.get? name = some t →
        ∀ ids ∈ memberIdents t, (∀ i ∈ ids, IsIdent i) ∧ (ids.map unraw).Nodup) ∧
      (∀ i ∈ tableSlots ts, IsIdent i) ∧ ((tableSlots ts).map unraw).Nodup := by
  simp [namesPlain] at hp
  exact ⟨fun name t hget => memberIdents_plain hc hget (hp.2 name t (mem_of_lookup_eq hget)),
    tableSlots_plain fun p hp' => hp.1 p.1 p.2 hp'⟩

/-- A point with two coordinate fields, written as a map. -/
def planeDocument : Document :=
  ⟨[("Point", .struct [("x", ⟨.named "Float", false, false⟩), ("y", ⟨.named "Int", false, false⟩)]
      none)]⟩

/-- The system `planeDocument` compiles to. -/
def planeSystem : TypeSystem :=
  ⟨prelude ++ [("Point", .struct [⟨"x", .named "Float", false, false⟩,
      ⟨"y", .named "Int", false, false⟩] .map)]⟩

theorem generated_member_idents_plane :
    planeDocument.compile = .ok planeSystem ∧ namesPlain planeSystem = true ∧
      (∀ name t, planeSystem.get? name = some t →
          ∀ ids ∈ memberIdents t, (∀ i ∈ ids, IsIdent i) ∧ (ids.map unraw).Nodup) ∧
        (∀ i ∈ tableSlots planeSystem, IsIdent i) ∧ ((tableSlots planeSystem).map unraw).Nodup := by
  have hc : planeDocument.compile = .ok planeSystem := by cbv
  have hp : namesPlain planeSystem = true := by decide
  exact ⟨hc, hp, generated_member_idents hc hp⟩

/-- A struct with the fields `type`, `Type` and `type2`. -/
def keywordDocument : Document :=
  ⟨[("S", .struct [("type", ⟨.named "String", false, false⟩), ("Type", ⟨.named "String", false, false⟩),
      ("type2", ⟨.named "String", false, false⟩)] none)]⟩

/-- The system `keywordDocument` compiles to. -/
def keywordSystem : TypeSystem :=
  ⟨prelude ++ [("S", .struct [⟨"type", .named "String", false, false⟩,
      ⟨"Type", .named "String", false, false⟩, ⟨"type2", .named "String", false, false⟩] .map)]⟩

/-- Without the condition the fields collide: they are `r#type`, `r#type2` and `type2`, and
`r#type2` is `type2`. -/
theorem generated_member_idents_keyword :
    keywordDocument.compile = .ok keywordSystem ∧
      uniqueIdents ["type", "Type", "type2"] fieldIdent = ["r#type", "r#type2", "type2"] ∧
      ∃ ids ∈ memberIdents (.struct [⟨"type", .named "String", false, false⟩,
          ⟨"Type", .named "String", false, false⟩, ⟨"type2", .named "String", false, false⟩] .map),
        ¬(ids.map unraw).Nodup := by
  refine ⟨by cbv, by decide, ?_⟩
  decide

end Ipld.Codegen
