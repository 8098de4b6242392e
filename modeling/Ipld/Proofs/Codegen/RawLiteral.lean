import Mathlib
import Ipld.Codegen.Minimal
import Ipld.Proofs.Repr.Joined

/-!
# Raw string literals in generated code

Minimal bindings embed the schema text in `schema.rs` as a raw string literal. Rust first
drops every carriage return a line feed follows (`normalizeLineEnds`); a raw literal then ends
at the first quote followed by its hashes, may not hold a carriage return, and has at most
255 hashes (`readRawLiteral`). `rawStringLiteral` takes the least number of hashes the text
does not close (`hashesFor_least`), so the literal reads back as exactly the text when the
text holds no carriage return and needs at most 255 hashes, and not otherwise
(`readRawLiteral_rawStringLiteral`); the `SCHEMA_SOURCE` line is such a literal
(`schemaFile_source_line`).
-/

namespace Ipld.Codegen

/-! ## How Rust reads a raw string literal -/

/-- A source file as Rust reads it: every carriage return that a line feed follows is
dropped. -/
def normalizeLineEnds : List Char → List Char
  | '\r' :: '\n' :: rest => '\n' :: normalizeLineEnds rest
  | c :: rest => c :: normalizeLineEnds rest
  | [] => []

/-- The closing delimiter of a raw string literal with `n` hashes: a quote and `n` hashes. -/
def closer (n : Nat) : List Char := '"' :: List.replicate n '#'

/-- The body of a raw string literal with `n` hashes, up to its first closing delimiter: the
body and the text after the delimiter, or nothing when the text ends first or the body would
hold a carriage return. -/
def rawBody (n : Nat) : List Char → Option (List Char × List Char)
  | [] => none
  | c :: rest =>
    if closer n <+: c :: rest then some ([], rest.drop n)
    else if c = '\r' then none
    else (rawBody n rest).map (Prod.map (c :: ·) id)

/-- A raw string literal at the start of a text: `r`, `n` hashes with `n` at most 255, a quote,
and the body up to the closing delimiter. Gives the body and the text after the literal. -/
def readRawLiteral : List Char → Option (List Char × List Char)
  | 'r' :: rest =>
    let n := (rest.takeWhile (· == '#')).length
    match rest.drop n with
    | '"' :: body => if n ≤ 255 then rawBody n body else none
    | _ => none
  | _ => none

/-! ## Reading -/

theorem normalizeLineEnds_cons {c : Char} (hc : c ≠ '\r') (rest : List Char) :
    normalizeLineEnds (c :: rest) = c :: normalizeLineEnds rest := by
  rw [normalizeLineEnds.eq_2]
  rintro _ rfl
  exact absurd rfl hc

/-- Text without carriage returns reads as it is written, whatever follows it. -/
theorem normalizeLineEnds_append {before : List Char} (hcr : '\r' ∉ before) (rest : List Char) :
    normalizeLineEnds (before ++ rest) = before ++ normalizeLineEnds rest := by
  induction before with
  | nil => rfl
  | cons c before ih =>
    rw [List.mem_cons, not_or] at hcr
    rw [List.cons_append, normalizeLineEnds_cons (Ne.symm hcr.1), ih hcr.2, List.cons_append]

/-- Hashes that a quote interrupts are hashes before it. -/
theorem replicate_prefix_of_prefix_append_quote {n : Nat} :
    ∀ {l t : List Char}, List.replicate n '#' <+: l ++ '"' :: t → List.replicate n '#' <+: l := by
  induction n with
  | zero => simp
  | succ n ih =>
    intro l t h
    cases l with
    | nil => simp [List.replicate_succ] at h
    | cons c l =>
      rw [List.replicate_succ, List.cons_append, List.cons_prefix_cons] at h
      rw [List.replicate_succ, List.cons_prefix_cons]
      exact ⟨h.1, ih h.2⟩

/-- A closing delimiter that starts inside a text and a closing delimiter after it lies
inside the text. -/
theorem closer_prefix_of_prefix_append {n : Nat} {c : Char} {l rest : List Char}
    (h : closer n <+: c :: l ++ closer n ++ rest) : closer n <+: c :: l := by
  unfold closer at h ⊢
  rw [List.cons_append, List.cons_append, List.cons_prefix_cons] at h
  rw [List.cons_prefix_cons]
  rw [List.append_assoc, List.cons_append] at h
  exact ⟨h.1, replicate_prefix_of_prefix_append_quote h.2⟩

/-- A text that holds neither a closing delimiter nor a carriage return is read as the body of
a literal that the delimiter closes. -/
theorem rawBody_complete {n : Nat} {body : List Char} (hclose : ¬ closer n <:+: body)
    (hcr : '\r' ∉ body) (rest : List Char) :
    rawBody n (body ++ closer n ++ rest) = some (body, rest) := by
  induction body with
  | nil =>
    have hpre : closer n <+: '"' :: (List.replicate n '#' ++ rest) :=
      List.prefix_append (closer n) rest
    rw [List.nil_append, show closer n ++ rest = '"' :: (List.replicate n '#' ++ rest) from rfl,
      rawBody, if_pos hpre, List.drop_left' List.length_replicate]
  | cons c body ih =>
    rw [List.mem_cons, not_or] at hcr
    have hlater : ¬ closer n <:+: body := fun h => hclose (h.trans (List.suffix_cons c body).isInfix)
    have hnot : ¬ closer n <+: c :: (body ++ closer n ++ rest) := fun h =>
      hclose (closer_prefix_of_prefix_append h).isInfix
    rw [List.cons_append, List.cons_append, rawBody, if_neg (by simpa using hnot),
      if_neg (Ne.symm hcr.1), ih hlater hcr.2]
    rfl

/-- A body that was read holds no carriage return. -/
theorem rawBody_no_cr {n : Nat} : ∀ {text body after : List Char},
    rawBody n text = some (body, after) → '\r' ∉ body := by
  intro text
  induction text with
  | nil => simp [rawBody]
  | cons c text ih =>
    intro body after h
    rw [rawBody] at h
    split at h
    · cases h
      simp
    · split at h
      · cases h
      · obtain ⟨⟨b, a⟩, hb, heq⟩ := Option.map_eq_some_iff.mp h
        cases heq
        simp only [List.mem_cons, not_or]
        exact ⟨Ne.symm ‹c ≠ '\r'›, ih hb⟩

/-- A literal is read past its `r`, its hashes and its opening quote. -/
theorem readRawLiteral_open (n : Nat) (body : List Char) :
    readRawLiteral ('r' :: (List.replicate n '#' ++ '"' :: body)) =
      if n ≤ 255 then rawBody n body else none := by
  have htake : (List.replicate n '#' ++ '"' :: body).takeWhile (· == '#') =
      List.replicate n '#' := by
    rw [List.takeWhile_append_of_pos (by simp)]
    simp
  simp only [readRawLiteral, htake, List.length_replicate, List.drop_left' List.length_replicate]

/-! ## The least number of hashes -/

theorem includes_closer_iff (s : String) (n : Nat) :
    Text.includes s ("\"" ++ String.ofList (List.replicate n '#')) = true ↔
      closer n <:+: s.toList := by
  rw [Text.includes, Text.occursIn_iff_infix]
  simp [closer]

/-- The search for a number of hashes from `n` on, with `fuel` tries: every number it passes
over is closed in the text, and the one it stops at is not, unless the tries ran out. -/
theorem hashesFor_spec (s : String) (fuel : Nat) :
    ∀ n, n ≤ hashesFor s fuel n ∧ hashesFor s fuel n ≤ n + fuel ∧
      (∀ k, n ≤ k → k < hashesFor s fuel n → closer k <:+: s.toList) ∧
      (hashesFor s fuel n < n + fuel → ¬ closer (hashesFor s fuel n) <:+: s.toList) := by
  induction fuel with
  | zero =>
    intro n
    simp only [hashesFor]
    exact ⟨le_rfl, by omega, fun k hk hlt => absurd hlt (by omega), fun hlt => absurd hlt (by omega)⟩
  | succ fuel ih =>
    intro n
    by_cases hn : closer n <:+: s.toList
    · have hstep : hashesFor s (fuel + 1) n = hashesFor s fuel (n + 1) := by
        rw [hashesFor, if_pos ((includes_closer_iff s n).mpr hn)]
      obtain ⟨hlo, hhi, hpass, hstop⟩ := ih (n + 1)
      rw [hstep]
      refine ⟨by omega, by omega, fun k hk hlt => ?_, fun hlt => hstop (by omega)⟩
      rcases Nat.eq_or_lt_of_le hk with rfl | hk
      · exact hn
      · exact hpass k hk hlt
    · have hstep : hashesFor s (fuel + 1) n = n := by
        rw [hashesFor, if_neg (by rwa [includes_closer_iff])]
      rw [hstep]
      exact ⟨le_rfl, by omega, fun k hk hlt => absurd hlt (by omega), fun _ => hn⟩

/-- The number of hashes of a raw literal is the least from one on that the text holds no
quote followed by: the search never runs out of tries, since a closing delimiter longer than
the text cannot lie in it. -/
theorem hashesFor_least (s : String) :
    1 ≤ hashesFor s (s.length + 1) 1 ∧ ¬ closer (hashesFor s (s.length + 1) 1) <:+: s.toList ∧
      ∀ k, 1 ≤ k → k < hashesFor s (s.length + 1) 1 → closer k <:+: s.toList := by
  obtain ⟨hlo, hhi, hpass, hstop⟩ := hashesFor_spec s (s.length + 1) 1
  refine ⟨hlo, hstop ?_, hpass⟩
  by_contra hout
  have hlong := (hpass (s.length + 1) (by omega) (by omega)).length_le
  simp only [closer, List.length_cons, List.length_replicate, String.length_toList] at hlong
  omega

/-! ## The literal reads back -/

theorem toList_rawStringLiteral (s : String) :
    (rawStringLiteral s).toList =
      'r' :: (List.replicate (hashesFor s (s.length + 1) 1) '#' ++
        '"' :: (s.toList ++ closer (hashesFor s (s.length + 1) 1))) := by
  simp [rawStringLiteral, closer]

/-- A literal holds a carriage return only where its text does. -/
theorem not_mem_literal_of_not_mem {s : String} (hcr : '\r' ∉ s.toList) :
    '\r' ∉ (rawStringLiteral s).toList := by
  rw [toList_rawStringLiteral]
  simp [closer, List.mem_replicate, hcr]

/-- A text without carriage returns that needs at most 255 hashes reads back from its
literal, which ends exactly where it was written, whatever follows it. -/
theorem readRawLiteral_rawStringLiteral {s : String} (hcr : '\r' ∉ s.toList)
    (hle : hashesFor s (s.length + 1) 1 ≤ 255) (rest : List Char) :
    readRawLiteral (normalizeLineEnds ((rawStringLiteral s).toList ++ rest)) =
      some (s.toList, normalizeLineEnds rest) := by
  rw [normalizeLineEnds_append (not_mem_literal_of_not_mem hcr), toList_rawStringLiteral,
    List.cons_append, List.append_assoc, List.cons_append, readRawLiteral_open, if_pos hle,
    rawBody_complete (hashesFor_least s).2.1 hcr]

/-- Whatever a literal reads as holds no carriage return, and the literal has at most 255
hashes. -/
theorem readRawLiteral_rawStringLiteral_of_eq {s : String} {rest body after : List Char}
    (hread : readRawLiteral (normalizeLineEnds ((rawStringLiteral s).toList ++ rest)) =
      some (body, after)) :
    '\r' ∉ body ∧ hashesFor s (s.length + 1) 1 ≤ 255 := by
  set h := hashesFor s (s.length + 1) 1 with hh
  have hopen : normalizeLineEnds ((rawStringLiteral s).toList ++ rest) =
      'r' :: (List.replicate h '#' ++ '"' :: normalizeLineEnds (s.toList ++ closer h ++ rest)) := by
    have hpre : '\r' ∉ 'r' :: (List.replicate h '#' ++ ['"']) := by
      simp [List.mem_replicate]
    rw [toList_rawStringLiteral, ← hh]
    simpa using normalizeLineEnds_append hpre (s.toList ++ closer h ++ rest)
  rw [hopen, readRawLiteral_open] at hread
  split at hread
  case isTrue hle => exact ⟨rawBody_no_cr hread, hle⟩
  case isFalse => cases hread

/-! ## The embedded schema text -/

/-- Two texts read as each of them does, unless the first ends with a carriage return that a
line feed starting the second would pair with. -/
theorem normalizeLineEnds_append_of_getLast? {before : List Char}
    (hlast : before.getLast? ≠ some '\r') (rest : List Char) :
    normalizeLineEnds (before ++ rest) = normalizeLineEnds before ++ normalizeLineEnds rest := by
  fun_induction normalizeLineEnds before with
  | case1 more ih =>
    have hmore : more.getLast? ≠ some '\r' := by
      cases more with
      | nil => simp
      | cons d more => simpa using hlast
    simp [normalizeLineEnds, ih hmore]
  | case2 c more hpair ih =>
    have hmore : more.getLast? ≠ some '\r' := by
      cases more with
      | nil => simp
      | cons d more => simpa using hlast
    have hpair' : ∀ r, c = '\r' → more ++ rest = '\n' :: r → False := by
      intro r hc heq
      cases more with
      | nil => simp [hc] at hlast
      | cons d more =>
        obtain ⟨rfl, -⟩ := List.cons.inj heq
        exact hpair more hc rfl
    rw [List.cons_append, normalizeLineEnds.eq_2 c _ hpair', ih hmore, List.cons_append]
  | case3 => rfl

theorem render_append (a b : Code) : Code.render (a ++ b) = Code.render a ++ Code.render b := by
  simp [Code.render, String.join_append]

theorem render_line (s : String) : Code.render (Code.line s) = s ++ "\n" := by
  simp [Code.render, Code.line]

/-- Rendered lines end with a line feed. -/
theorem render_lines_getLast? {ss : List String} (hne : ss ≠ []) :
    (Code.render (Code.lines ss)).toList.getLast? = some '\n' := by
  obtain ⟨init, last, rfl⟩ := (List.eq_nil_or_concat ss).resolve_left hne
  simp [Code.lines, Code.render, String.join_append]

/-- `schema.rs` holds the line `pub const SCHEMA_SOURCE: &str = ` followed by the literal of the
schema text, after a line feed; as Rust reads the file, the literal stands there as written,
followed by the rest of the file. -/
theorem schemaFile_source_line (ts : Schema.TypeSystem) (source sourceName package : String) :
    ∃ before rest,
      normalizeLineEnds (schemaFile ts source sourceName package).toList =
        before ++ "pub const SCHEMA_SOURCE: &str = ".toList ++
          normalizeLineEnds ((rawStringLiteral source).toList ++ rest) := by
  set head := Code.lines [header,
    "//! Start-up binding table for the `" ++ package ++ "` schema.",
    "use ipld_schema_tool::bind::\x7bBindings, Lazy, Prototype\x7d;", "",
    "/// `" ++ sourceName ++ "`, embedded verbatim."] with hhead
  obtain ⟨more, hfile⟩ : ∃ more : Code, schemaFile ts source sourceName package =
      Code.render (head ++
        (Code.line ("pub const SCHEMA_SOURCE: &str = " ++ rawStringLiteral source ++ ";") ++
          more)) :=
    ⟨_, rfl⟩
  have hlast : (Code.render head).toList.getLast? ≠ some '\r' := by
    rw [hhead, render_lines_getLast? (by simp)]
    decide
  refine ⟨normalizeLineEnds (Code.render head).toList, ';' :: '\n' :: (Code.render more).toList, ?_⟩
  rw [hfile, render_append, render_append, render_line, String.toList_append,
    normalizeLineEnds_append_of_getLast? hlast]
  simp only [String.toList_append, List.append_assoc]
  rw [normalizeLineEnds_append (by decide)]
  simp

/-! ## The embedded text reads back -/

/-- A raw string literal takes the least number of hashes, from one on, that no quote of the
text is followed by; and it reads back as exactly the text, both on its own, up to its end and
whatever follows, and as the `SCHEMA_SOURCE` constant of `schema.rs`, exactly when the text
holds no carriage return and needs at most 255 hashes. -/
theorem rawStringLiteral_reads_back_iff (s : String) :
    (1 ≤ hashesFor s (s.length + 1) 1 ∧ ¬ closer (hashesFor s (s.length + 1) 1) <:+: s.toList ∧
        ∀ k, 1 ≤ k → k < hashesFor s (s.length + 1) 1 → closer k <:+: s.toList) ∧
      (∀ rest, readRawLiteral (normalizeLineEnds ((rawStringLiteral s).toList ++ rest)) =
          some (s.toList, normalizeLineEnds rest) ↔
        '\r' ∉ s.toList ∧ hashesFor s (s.length + 1) 1 ≤ 255) ∧
      ∀ ts sourceName package, ∃ before after,
        normalizeLineEnds (schemaFile ts s sourceName package).toList =
            before ++ "pub const SCHEMA_SOURCE: &str = ".toList ++ after ∧
          ((readRawLiteral after).map Prod.fst = some s.toList ↔
            '\r' ∉ s.toList ∧ hashesFor s (s.length + 1) 1 ≤ 255) := by
  refine ⟨hashesFor_least s, fun rest => ⟨readRawLiteral_rawStringLiteral_of_eq, ?_⟩, ?_⟩
  · rintro ⟨hcr, hle⟩
    exact readRawLiteral_rawStringLiteral hcr hle rest
  · intro ts sourceName package
    obtain ⟨before, rest, hfile⟩ := schemaFile_source_line ts s sourceName package
    refine ⟨before, _, hfile, ⟨fun hread => ?_, ?_⟩⟩
    · obtain ⟨⟨body, after⟩, hbody, heq⟩ := Option.map_eq_some_iff.mp hread
      cases heq
      exact readRawLiteral_rawStringLiteral_of_eq hbody
    · rintro ⟨hcr, hle⟩
      rw [readRawLiteral_rawStringLiteral hcr hle]
      rfl

end Ipld.Codegen
