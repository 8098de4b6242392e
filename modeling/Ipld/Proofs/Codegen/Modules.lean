import Mathlib
import Ipld.Proofs.Codegen.Identifiers
import Ipld.Proofs.Compile.WellFormed
import Ipld.Proofs.Repr.Written

/-!
# Files and modules of full bindings

Full bindings write one file per declared type, named by its module, and last a `mod.rs` that
declares each module and re-exports each type identifier. Modules are numbered by
`uniqueIdents`, so they are distinct texts, and a file drops a leading `r#` from its module.
Keyword escapes break this: `r#type2` and `type2` both write `type2.rs`, `r#mod` writes
`mod.rs`, and `Option` and `OptionType` are both `OptionType`.

Without keyword or reserved names nothing collides (`generateFull_names_distinct`): no module
is raw or `mod`, so the paths are the distinct modules followed by `.rs`, then `mod.rs`.
-/

namespace Ipld.Codegen

open Schema
open Ipld.Repr (bind_eq_ok pure_eq_ok map_of_mapM_eq_ok)

/-! ## Words -/

/-- A character of a snake-case word: an ASCII letter or digit, or `_`. -/
def IsWordChar (c : Char) : Prop := c.isAlphanum = true ∨ c = '_'

/-- A text made of ASCII letters, digits and `_`. -/
def IsWord (s : String) : Prop := ∀ c ∈ s.toList, IsWordChar c

instance : DecidablePred IsWordChar := fun _ => inferInstanceAs (Decidable (_ ∨ _))

instance : DecidablePred IsWord := fun s =>
  inferInstanceAs (Decidable (∀ c ∈ s.toList, IsWordChar c))

theorem isLower_toLower {c : Char} (h : c.isUpper = true) : c.toLower.isLower = true := by
  simp only [Char.isUpper, decide_eq_true_eq] at h
  simp only [Char.toLower, dif_pos h, Char.isLower, Bool.and_eq_true, decide_eq_true_eq]
  have hA : 'A'.val.toNat = 65 := rfl
  have hZ : 'Z'.val.toNat = 90 := rfl
  have ha : 'a'.val.toNat = 97 := rfl
  have hz : 'z'.val.toNat = 122 := rfl
  simp only [ge_iff_le, UInt32.le_iff_toNat_le, UInt32.toNat_add,
    UInt32.toNat_sub_of_le _ _ (by decide : 'A'.val ≤ 'a'.val), hA, hZ, ha, hz] at h ⊢
  omega

theorem isWordChar_toLower {c : Char} (h : c.isUpper = true) : IsWordChar c.toLower := by
  simp [IsWordChar, Char.isAlphanum, Char.isAlpha, isLower_toLower h]

/-- Every character `snakeChars` writes is a word character. -/
theorem snakeChars_word (prev : Option Char) (out cs : List Char)
    (hout : ∀ c ∈ out, IsWordChar c) : ∀ c ∈ snakeChars prev out cs, IsWordChar c := by
  induction cs generalizing prev out with
  | nil => simpa [snakeChars] using hout
  | cons c rest ih =>
    have hsep : IsWordChar '_' := Or.inr rfl
    simp only [snakeChars]
    split_ifs with hup _ hal
    · exact ih _ _ (List.forall_mem_cons.2
        ⟨isWordChar_toLower hup, List.forall_mem_cons.2 ⟨hsep, hout⟩⟩)
    · exact ih _ _ (List.forall_mem_cons.2 ⟨isWordChar_toLower hup, hout⟩)
    · exact ih _ _ (List.forall_mem_cons.2 ⟨Or.inl hal, hout⟩)
    · exact ih _ _ hout
    · exact ih _ _ (List.forall_mem_cons.2 ⟨hsep, hout⟩)

theorem isWord_snakeCase (name : String) : IsWord (snakeCase name) := by
  have hchars := snakeChars_word none [] name.toList (by simp)
  have hsep : IsWordChar '_' := Or.inr rfl
  unfold IsWord snakeCase guardStart
  split
  · simpa using hsep
  · split
    · simpa [String.toList_ofList] using ⟨hsep, hchars⟩
    · simpa [String.toList_ofList] using hchars

@[simp]
theorem isWord_append {s t : String} : IsWord (s ++ t) ↔ IsWord s ∧ IsWord t := by
  simp [IsWord, String.toList_append, or_imp, forall_and]

theorem isWord_toString (k : Nat) : IsWord (toString k) := by
  intro c hc
  rw [Nat.toString_eq_repr, Nat.toList_repr] at hc
  exact Or.inl (by simp [Char.isAlphanum, Nat.isDigit_of_mem_toDigits (by decide) (by decide) hc])

theorem unraw_go_of_not_mem {cs : List Char} (h : '#' ∉ cs) (fuel : Nat) :
    unraw.go cs fuel = cs := by
  unfold unraw.go
  split
  · simp at h
  · rfl

/-- A word has no `r#` to drop. -/
theorem unraw_of_isWord {s : String} (h : IsWord s) : unraw s = s := by
  have hhash : '#' ∉ s.toList := fun hmem => absurd (h '#' hmem) (by decide)
  rw [unraw, unraw_go_of_not_mem hhash, String.ofList_toList]

/-! ## Keywords -/

/-- Every keyword is made of letters. -/
theorem isAlpha_of_mem_keywords {k : String} (hk : k ∈ keywords) :
    ∀ c ∈ k.toList, c.isAlpha = true := by
  have hall : keywords.all (fun k => k.toList.all Char.isAlpha) = true := by decide
  simpa using List.all_eq_true.1 hall k hk

/-- A text with a character that is no letter is no keyword. -/
theorem not_mem_keywords_of_mem {s : String} {c : Char} (hc : c ∈ s.toList)
    (hnot : c.isAlpha = false) : s ∉ keywords := fun hk => by
  simp [isAlpha_of_mem_keywords hk c hc] at hnot

theorem not_mem_keywords_append_underscore (s t : String) : s ++ "_" ++ t ∉ keywords :=
  not_mem_keywords_of_mem (c := '_') (by simp [String.toList_append]) (by decide)

theorem not_mem_keywords_append_toString (s : String) (k : Nat) : s ++ toString k ∉ keywords := by
  obtain ⟨c, cs, hcs⟩ := List.exists_cons_of_length_pos (Nat.length_toDigits_pos (b := 10) (n := k))
  have hc : c ∈ (s ++ toString k).toList := by
    simp [String.toList_append, Nat.toString_eq_repr, Nat.toList_repr, hcs]
  have hdigit : c.isDigit = true :=
    Nat.isDigit_of_mem_toDigits (by decide) (by decide) (hcs ▸ List.mem_cons_self)
  refine not_mem_keywords_of_mem hc ?_
  simp only [Char.isDigit, Bool.and_eq_true, decide_eq_true_eq] at hdigit
  simp only [Char.isAlpha, Char.isUpper, Char.isLower, Bool.or_eq_false_iff, Bool.and_eq_false_iff,
    decide_eq_false_iff_not]
  have h0 : '0'.val.toNat = 48 := rfl
  have h9 : '9'.val.toNat = 57 := rfl
  have hA : 'A'.val.toNat = 65 := rfl
  have ha : 'a'.val.toNat = 97 := rfl
  simp only [ge_iff_le, UInt32.le_iff_toNat_le, h0, h9, hA, ha] at hdigit ⊢
  omega

/-! ## Module names -/

/-- The name `moduleNames` numbers for a declared type: its snake-case name as an identifier,
with `_ty` added when that is the type's identifier. -/
def moduleBase (name : String) : String :=
  let m := escapeKeyword (snakeCase name)
  if m == typeIdent name then m ++ "_ty" else m

theorem moduleNames_eq (names : List String) :
    moduleNames names = uniqueIdents names moduleBase := rfl

/-- A plain word: made of word characters, and no keyword. -/
def IsPlain (s : String) : Prop := IsWord s ∧ s ∉ keywords

/-- Escaping a snake-case name that is no keyword leaves a plain word. -/
theorem escapeKeyword_plain {s : String} (hw : IsWord s) (hk : s ∉ keywords) :
    IsPlain (escapeKeyword s) := by
  unfold escapeKeyword
  split_ifs with hspecial
  · have h := not_mem_keywords_append_underscore s ""
    rw [String.append_empty] at h
    exact ⟨isWord_append.2 ⟨hw, by simp [IsWord, IsWordChar]⟩, h⟩
  · exact absurd (List.contains_iff_mem.1 ‹_›) hk
  · exact ⟨hw, hk⟩

theorem moduleBase_plain {name : String} (h : snakeCase name ∉ keywords) :
    IsPlain (moduleBase name) := by
  obtain ⟨hw, hk⟩ := escapeKeyword_plain (isWord_snakeCase name) h
  simp only [moduleBase]
  split
  · have hty := not_mem_keywords_append_underscore (escapeKeyword (snakeCase name)) "ty"
    exact ⟨isWord_append.2 ⟨hw, by simp [IsWord, IsWordChar]⟩,
      by simpa [String.append_assoc] using hty⟩
  · exact ⟨hw, hk⟩

/-- What holds of every name's identifier, and survives a number put after it, holds of
every identifier `uniqueIdents` gives. -/
theorem forall_mem_uniqueIdents {P : String → Prop} {names : List String}
    {ident : String → String} (hnum : ∀ s (k : Nat), P s → P (s ++ toString k))
    (h : ∀ n ∈ names, P (ident n)) : ∀ m ∈ uniqueIdents names ident, P m := by
  have hpairs := (List.forall₂_and_left _ _).2 ⟨h, (uniqueIdents_spec names ident).2⟩
  generalize uniqueIdents names ident = out at hpairs
  clear h
  induction hpairs with
  | nil => simp
  | cons hhead _ ih =>
    intro m hm
    rcases List.mem_cons.1 hm with rfl | hm
    · obtain ⟨hP, rfl | ⟨k, -, rfl⟩⟩ := hhead
      · exact hP
      · exact hnum _ k hP
    · exact ih m hm

/-- Without a name that snake-cases to a keyword, every module is a plain word. -/
theorem moduleNames_plain {names : List String} (h : ∀ n ∈ names, snakeCase n ∉ keywords) :
    ∀ m ∈ moduleNames names, IsPlain m := by
  rw [moduleNames_eq]
  refine forall_mem_uniqueIdents (fun s k hs => ⟨?_, ?_⟩) fun n hn => moduleBase_plain (h n hn)
  · exact isWord_append.2 ⟨hs.1, isWord_toString k⟩
  · exact not_mem_keywords_append_toString s k

/-! ## The files -/

/-- Full bindings put each declared type in the file of its module, without `r#`, and
`mod.rs` last. -/
theorem generateFull_paths {ts : TypeSystem} {package : String} {art : Artifact}
    (h : generateFull ts package = .ok art) :
    art.files.map (·.path) =
      (moduleNames (ts.declared.map (·.1))).map (fun m => unraw m ++ ".rs") ++ ["mod.rs"] := by
  unfold generateFull at h
  obtain ⟨files, hfiles, h⟩ := bind_eq_ok.1 h
  cases pure_eq_ok.1 h
  have hstep : ∀ (p : (String × SchemaType) × String) (file : GeneratedFile),
      (do pure (⟨unraw p.2 ++ ".rs", ← typeFile ts p.1.1 p.1.2⟩ : GeneratedFile) :
        Except ToolError GeneratedFile) = .ok file → file.path = unraw p.2 ++ ".rs" := by
    intro p file hp
    obtain ⟨contents, -, hp⟩ := bind_eq_ok.1 hp
    cases pure_eq_ok.1 hp
    rfl
  have hlen : (moduleNames (ts.declared.map (·.1))).length ≤ ts.declared.length := by
    simp [moduleNames, uniqueIdents_length]
  rw [List.map_append, map_of_mapM_eq_ok hstep hfiles]
  conv_rhs => rw [← List.map_snd_zip hlen, List.map_map]
  rfl

/-- Distinct plain modules give distinct files, none of them `mod.rs`. -/
theorem paths_nodup {modules : List String} (hnd : modules.Nodup)
    (hplain : ∀ m ∈ modules, IsPlain m) :
    (modules.map (fun m => unraw m ++ ".rs") ++ ["mod.rs"]).Nodup := by
  rw [List.nodup_append]
  refine ⟨?_, List.nodup_singleton _, ?_⟩
  · refine hnd.map_on fun x hx y hy hxy => ?_
    rwa [unraw_of_isWord (hplain x hx).1, unraw_of_isWord (hplain y hy).1,
      String.append_left_inj] at hxy
  · intro a ha b hb
    obtain ⟨m, hm, rfl⟩ := List.mem_map.1 ha
    rw [List.mem_singleton] at hb
    subst hb
    intro heq
    have hmod : m = "mod" := by
      rw [unraw_of_isWord (hplain m hm).1, show "mod.rs" = "mod" ++ ".rs" from rfl,
        String.append_left_inj] at heq
      exact heq
    exact (hplain m hm).2 (hmod ▸ by decide)

/-! ## Names of the declared types -/

/-- The declared types of a compiled system are the document's, in its order. -/
theorem declared_names_of_compile {d : Document} {ts : TypeSystem} (h : d.compile = .ok ts) :
    ts.declared.map (·.1) = d.names := by
  have hnames : ts.types.map (·.1) = preludeNames ++ d.names := Document.compile_names h
  rw [TypeSystem.declared, List.map_drop, hnames, List.drop_left]

/-- A type name that is neither a keyword nor a name of the generated code is its own
identifier. -/
theorem typeIdent_of_plain {name : String} (hname : isTypeName name = true)
    (hk : name ∉ keywords) (hr : name ∉ reservedTypes) : typeIdent name = name := by
  unfold typeIdent escapeKeyword
  rw [if_neg (by simpa using hr)]
  split_ifs with hspecial hkeyword
  · have hmem := List.contains_iff_mem.1 hspecial
    simp only [List.mem_cons, List.not_mem_nil, or_false] at hmem
    rcases hmem with rfl | rfl | rfl | rfl | rfl
    all_goals first
      | exact absurd (by decide) hk
      | exact absurd hname (by decide)
  · exact absurd (List.contains_iff_mem.1 hkeyword) hk
  · rfl

/-- Full bindings for a compiled schema whose names need no escaping write no two files at
one path and `mod.rs` only for the root, declare no module twice even taking `r#x` for
`x`, and give no two types one identifier. The path of each declared type's file is its
module without `r#`. Without the hypotheses this fails: `type Mod string` writes `mod.rs`
twice, and `Option` and `OptionType` are both `OptionType`. -/
theorem generateFull_names_distinct {d : Document} {ts : TypeSystem} {package : String}
    {art : Artifact} (hc : d.compile = .ok ts) (hgen : generateFull ts package = .ok art)
    (hmod : ∀ n ∈ d.names, snakeCase n ∉ keywords)
    (htype : ∀ n ∈ d.names, n ∉ keywords ∧ n ∉ reservedTypes) :
    art.files.map (·.path) =
        (moduleNames d.names).map (fun m => unraw m ++ ".rs") ++ ["mod.rs"] ∧
      (art.files.map (·.path)).Nodup ∧ ((moduleNames d.names).map unraw).Nodup ∧
      (d.names.map typeIdent).Nodup := by
  have hpaths := generateFull_paths hgen
  rw [declared_names_of_compile hc] at hpaths
  have hnodup : (moduleNames d.names).Nodup := (uniqueIdents_spec _ _).1
  have hplain := moduleNames_plain hmod
  refine ⟨hpaths, hpaths ▸ paths_nodup hnodup hplain, ?_, ?_⟩
  · rwa [List.map_congr_left fun m hm => unraw_of_isWord (hplain m hm).1, List.map_id']
  · obtain ⟨-, hnd, htn⟩ := Document.compile_table hc
    rwa [List.map_congr_left fun n hn =>
      typeIdent_of_plain (htn n hn).2 (htype n hn).1 (htype n hn).2, List.map_id']

/-- Two types whose names snake-case alike. -/
def caseDocument : Document := ⟨[("Ab", .string), ("AB", .string)]⟩

/-- The system `caseDocument` compiles to. -/
def caseSystem : TypeSystem := ⟨prelude ++ [("Ab", .string), ("AB", .string)]⟩

/-- `Ab` and `AB` both snake-case to `ab`; their modules are `ab` and `ab2`. -/
theorem generateFull_names_distinct_cases :
    caseDocument.compile = .ok caseSystem ∧
      (∀ n ∈ caseDocument.names, snakeCase n ∉ keywords) ∧
      (∀ n ∈ caseDocument.names, n ∉ keywords ∧ n ∉ reservedTypes) ∧
      ∃ art, generateFull caseSystem "cases" = .ok art ∧
        art.files.map (·.path) =
            (moduleNames caseDocument.names).map (fun m => unraw m ++ ".rs") ++ ["mod.rs"] ∧
          (art.files.map (·.path)).Nodup ∧
          ((moduleNames caseDocument.names).map unraw).Nodup ∧
          (caseDocument.names.map typeIdent).Nodup := by
  have hc : caseDocument.compile = .ok caseSystem := by cbv
  have hmod : ∀ n ∈ caseDocument.names, snakeCase n ∉ keywords := by decide
  have htype : ∀ n ∈ caseDocument.names, n ∉ keywords ∧ n ∉ reservedTypes := by decide
  have hgen : generateFull caseSystem "cases" = .ok _ := rfl
  exact ⟨hc, hmod, htype, _, hgen, generateFull_names_distinct hc hgen hmod htype⟩

/-- The module of `type Mod` is raw, and its file is the root's. -/
example : moduleNames ["Mod"] = ["r#mod"] ∧ unraw "r#mod" ++ ".rs" = "mod.rs" := by decide

end Ipld.Codegen
