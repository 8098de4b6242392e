import Mathlib
import Ipld.Proofs.Repr.Written
import Ipld.Schema.Dsl.Scan

/-!
# Scanning is lossless and places tokens exactly

A scan fails or gives the tokens of the text and the end-of-input token (`scan_lossless`).
`Lexed text tokens` says the text is trivia (blanks and `#` comments) around each token's own
text, each token placed at its first character and well formed; `PointsAt text fault` says a
fault points at a character that starts no token, at the backslash of an unknown escape, or
at the opening quote of a literal the text or a line break cuts off.

`Scanner.Reads` says what each scanner state means about the characters read so far. One step
keeps it or fails with such a fault (`Scanner.step_reads`, `Scanner.step_error`), and an
induction on the rest of the text gives the whole run (`Scanner.run_spec`).
-/

namespace Ipld.Schema.Dsl

/-! ## Places in a text -/

/-- The place of the character that follows `before`: one line more than the line breaks in
`before`, and one column more than the characters after the last of them. -/
def placeAfter (before : List Char) : Pos :=
  ⟨before.count '\n' + 1, (before.reverse.takeWhile (· != '\n')).length + 1⟩

@[simp] theorem placeAfter_nil : placeAfter [] = Pos.start := rfl

/-- Reading a character moves the place as `Pos.next` does. -/
theorem placeAfter_append_singleton (before : List Char) (c : Char) :
    placeAfter (before ++ [c]) = (placeAfter before).next c := by
  by_cases hc : c = '\n'
  · subst hc
    simp [placeAfter, Pos.next, List.count_append]
  · simp [placeAfter, Pos.next, hc, List.count_append]

/-! ## What a scan should give -/

/-- The escapes of a string literal: the character after the backslash and the character it
stands for. -/
def escapes : List (Char × Char) := [('"', '"'), ('\\', '\\'), ('n', '\n'), ('t', '\t')]

theorem unescape?_eq_some_iff {c d : Char} : unescape? c = some d ↔ (c, d) ∈ escapes := by
  unfold unescape?
  split <;> simp_all [escapes, eq_comm]

/-- Text between tokens: blanks, and comments from `#` to a line break. -/
inductive Trivia : List Char → Prop
  | nil : Trivia []
  | blank {g : List Char} {c : Char} : Trivia g → Text.isBlank c = true → Trivia (g ++ [c])
  | comment {g body : List Char} : Trivia g → '\n' ∉ body → Trivia (g ++ '#' :: body ++ ['\n'])

/-- The inside of a string literal and the value it stands for: a character other than a
quote, a backslash and a line break stands for itself, and a backslash followed by one of
`escapes` for the character given there. -/
inductive LiteralBody : List Char → List Char → Prop
  | nil : LiteralBody [] []
  | plain {body value : List Char} {c : Char} : LiteralBody body value → c ≠ '"' → c ≠ '\\' →
      c ≠ '\n' → LiteralBody (body ++ [c]) (value ++ [c])
  | escape {body value : List Char} {c d : Char} : LiteralBody body value → (c, d) ∈ escapes →
      LiteralBody (body ++ ['\\', c]) (value ++ [d])

/-- The text of a word: a letter or `_`, then letters, digits and `_` (ASCII only). -/
def IsWord (text : List Char) : Prop :=
  ∃ c rest, text = c :: rest ∧ (c.isAlpha ∨ c = '_') ∧ ∀ x ∈ rest, x.isAlphanum ∨ x = '_'

/-- What a token's kind says of its text: a word is its text, and that text is a word; a
string is its text between quotes, escapes decoded; punctuation is its one character; no
token of the text is the end of input. -/
def Token.WellFormed (t : Token) : Prop :=
  match t.kind with
  | .word w => w = t.text ∧ IsWord t.text.toList
  | .quoted v => ∃ body, t.text.toList = '"' :: body ++ ['"'] ∧ LiteralBody body v.toList
  | .eof => False
  | k => ∃ c, t.text.toList = [c] ∧ TokenKind.ofPunctuation? c = some k

/-- The characters `text` lay out as `tokens`: leading trivia, then each token's text followed
by trivia, each token well formed and standing at the place of its first character. -/
inductive Lexed : List Char → List Token → Prop
  | trivia {g : List Char} : Trivia g → Lexed g []
  | token {text g : List Char} {tokens : List Token} {t : Token} :
      Lexed text tokens → t.WellFormed → t.pos = placeAfter text → Trivia g →
      Lexed (text ++ t.text.toList ++ g) (tokens ++ [t])

/-- A whole text lays out as `tokens`, possibly ending inside a comment that the end of the
text closes. -/
inductive Covers : List Char → List Token → Prop
  | lexed {text : List Char} {tokens : List Token} : Lexed text tokens → Covers text tokens
  | openComment {text body : List Char} {tokens : List Token} :
      Lexed text tokens → '\n' ∉ body → Covers (text ++ '#' :: body) tokens

/-- A character that starts no token: no blank, `#`, punctuation, quote, letter or `_`. -/
def StartsNoToken (c : Char) : Prop :=
  Text.isBlank c = false ∧ c ≠ '#' ∧ TokenKind.ofPunctuation? c = none ∧ c ≠ '"' ∧
    ¬(c.isAlpha ∨ c = '_')

/-- What a fault of the text `text` points at, with the place and snippet it reports. -/
inductive PointsAt : List Char → Fault → Prop
  /-- A character that starts no token. -/
  | unexpected {before after : List Char} {c : Char} : StartsNoToken c →
      PointsAt (before ++ c :: after) ⟨.unexpectedCharacter c, placeAfter before, c.toString⟩
  /-- The backslash of an escape that is none of `escapes`. -/
  | unknownEscape {before after : List Char} {d : Char} : (∀ e, (d, e) ∉ escapes) →
      PointsAt (before ++ '\\' :: d :: after)
        ⟨.unknownEscape d, placeAfter before, String.ofList ['\\', d]⟩
  /-- The opening quote of a string literal that runs to the end of the text. -/
  | unterminated {before body value : List Char} : LiteralBody body value →
      PointsAt (before ++ '"' :: body)
        ⟨.unterminatedString, placeAfter before, String.ofList ('"' :: body)⟩
  /-- The opening quote of a string literal that ends in a lone backslash. -/
  | unterminatedEscape {before body value : List Char} : LiteralBody body value →
      PointsAt (before ++ '"' :: body ++ ['\\'])
        ⟨.unterminatedString, placeAfter before, String.ofList ('"' :: body ++ ['\\'])⟩
  /-- The opening quote of a string literal broken by a line break. -/
  | newline {before body value after : List Char} : LiteralBody body value →
      PointsAt (before ++ '"' :: body ++ '\n' :: after)
        ⟨.newlineInString, placeAfter before, String.ofList ('"' :: body)⟩

/-! ## Layouts grow at the end -/

theorem Trivia.append {g g' : List Char} (h : Trivia g) (h' : Trivia g') : Trivia (g ++ g') := by
  induction h' with
  | nil => simpa using h
  | blank _ hc ih => simpa [List.append_assoc] using ih.blank hc
  | comment _ hbody ih => simpa [List.append_assoc] using ih.comment hbody

theorem Lexed.append_trivia {text g : List Char} {tokens : List Token} (h : Lexed text tokens)
    (hg : Trivia g) : Lexed (text ++ g) tokens := by
  cases h with
  | trivia h₀ => exact .trivia (h₀.append hg)
  | token hl hw hp h₀ => simpa [List.append_assoc] using Lexed.token hl hw hp (h₀.append hg)

/-- A well-formed token right after the text read so far. -/
theorem Lexed.push {text : List Char} {tokens : List Token} {t : Token} (h : Lexed text tokens)
    (hw : t.WellFormed) (hp : t.pos = placeAfter text) :
    Lexed (text ++ t.text.toList) (tokens ++ [t]) := by
  simpa using Lexed.token h hw hp Trivia.nil

theorem Lexed.kind_ne_eof {text : List Char} {tokens : List Token} (h : Lexed text tokens) :
    ∀ t ∈ tokens, t.kind ≠ .eof := by
  induction h with
  | trivia => simp
  | token _ hw _ _ ih =>
    intro t ht
    rcases List.mem_append.1 ht with ht | ht
    · exact ih t ht
    · rw [List.mem_singleton.1 ht]
      intro heof
      simp [Token.WellFormed, heof] at hw

theorem Covers.kind_ne_eof {text : List Char} {tokens : List Token} (h : Covers text tokens) :
    ∀ t ∈ tokens, t.kind ≠ .eof := by
  cases h with
  | lexed h => exact h.kind_ne_eof
  | openComment h _ => exact h.kind_ne_eof

/-! ## What the scanner has read -/

namespace Scanner

/-- What the scanner in each state has read, given the tokens it completed: those tokens
and trivia, then the part of the comment, word or string literal it is in. -/
def Reads : Scanner → List Char → List Token → Prop
  | between, read, tokens => Lexed read tokens
  | comment, read, tokens => ∃ text body, read = text ++ '#' :: body ∧ '\n' ∉ body ∧
      Lexed text tokens
  | word start chars, read, tokens => ∃ text, read = text ++ chars ∧ Lexed text tokens ∧
      start = placeAfter text ∧ IsWord chars
  | quoted start chars value, read, tokens => ∃ text body, read = text ++ chars ∧
      chars = '"' :: body ∧ LiteralBody body value ∧ Lexed text tokens ∧ start = placeAfter text
  | escape start chars value backslash, read, tokens => ∃ text body, read = text ++ chars ∧
      chars = '"' :: body ++ ['\\'] ∧ LiteralBody body value ∧ Lexed text tokens ∧
      start = placeAfter text ∧ backslash = placeAfter (text ++ '"' :: body)

variable {read : List Char} {tokens : List Token} {c : Char}

/-- A punctuation character is a well-formed token of its own. -/
theorem wellFormed_punctuation {k : TokenKind} (hk : TokenKind.ofPunctuation? c = some k)
    (p : Pos) : Token.WellFormed ⟨k, p, c.toString⟩ := by
  have hkind : k ≠ .eof ∧ (∀ w, k ≠ .word w) ∧ ∀ v, k ≠ .quoted v := by
    unfold TokenKind.ofPunctuation? at hk
    split at hk <;> cases hk <;> simp
  unfold Token.WellFormed
  split
  · rename_i w hw
    exact absurd hw (hkind.2.1 w)
  · rename_i v hv
    exact absurd hv (hkind.2.2 v)
  · rename_i heof
    exact absurd heof hkind.1
  · exact ⟨c, by simp, hk⟩

theorem wellFormed_wordToken {chars : List Char} (h : IsWord chars) (start : Pos) :
    (wordToken start chars).WellFormed :=
  ⟨rfl, by simpa [wordToken] using h⟩

theorem IsWord.push {chars : List Char} (h : IsWord chars) (hc : isWordChar c = true) :
    IsWord (chars ++ [c]) := by
  obtain ⟨c₀, rest, rfl, h₀, hrest⟩ := h
  refine ⟨c₀, rest ++ [c], rfl, h₀, fun x hx => ?_⟩
  rcases List.mem_append.1 hx with hx | hx
  · exact hrest x hx
  · rw [List.mem_singleton.1 hx]
    simpa [isWordChar] using hc

/-- Between tokens, a character is skipped, opens a comment, a word or a string literal, or
is a token of its own. -/
theorem begin_reads {s : Scanner} {ts : List Token} (h : Lexed read tokens)
    (hstep : begin (placeAfter read) c = .ok (s, ts)) : s.Reads (read ++ [c]) (tokens ++ ts) := by
  unfold begin at hstep
  split at hstep
  · cases hstep
    simpa [Reads] using h.append_trivia (Trivia.nil.blank ‹_›)
  split at hstep
  · cases hstep
    exact ⟨read, [], by simp [‹c = '#'›], by simp, by simpa using h⟩
  split at hstep
  · rename_i k hk
    cases hstep
    simpa [Reads] using h.push (wellFormed_punctuation hk (placeAfter read)) rfl
  split at hstep
  · cases hstep
    exact ⟨read, [], by simp [‹c = '"'›], rfl, .nil, by simpa using h, rfl⟩
  split at hstep
  · cases hstep
    refine ⟨read, rfl, by simpa using h, rfl, c, [], rfl, ?_, by simp⟩
    simpa [isWordStart] using ‹isWordStart c = true›
  · cases hstep

/-- Between tokens, a character that starts no token is a fault at that character. -/
theorem begin_error {f : Fault} (hstep : begin (placeAfter read) c = .error f)
    (after : List Char) : PointsAt (read ++ c :: after) f := by
  unfold begin at hstep
  split at hstep
  · cases hstep
  split at hstep
  · cases hstep
  split at hstep
  · cases hstep
  split at hstep
  · cases hstep
  split at hstep
  · cases hstep
  · rename_i hblank hhash _ hpunct hquote hword
    cases hstep
    exact .unexpected ⟨by simpa using hblank, hhash, hpunct, hquote, by simpa [isWordStart] using hword⟩

/-- One step keeps what the scanner has read. -/
theorem step_reads {s s' : Scanner} {ts : List Token} (h : s.Reads read tokens)
    (hstep : s.step (placeAfter read) c = .ok (s', ts)) :
    s'.Reads (read ++ [c]) (tokens ++ ts) := by
  cases s with
  | between => exact begin_reads h hstep
  | comment =>
    obtain ⟨text, body, rfl, hbody, hl⟩ := h
    simp only [step, Except.ok.injEq, Prod.mk.injEq] at hstep
    obtain ⟨rfl, rfl⟩ := hstep
    by_cases hc : c = '\n'
    · subst hc
      simpa [Reads] using hl.append_trivia (Trivia.nil.comment hbody)
    · rw [if_neg hc]
      exact ⟨text, body ++ [c], by simp, by simp [hbody, Ne.symm hc], by simpa using hl⟩
  | word start chars =>
    obtain ⟨text, rfl, hl, hstart, hword⟩ := h
    simp only [step] at hstep
    split at hstep
    · cases hstep
      exact ⟨text, by simp, by simpa using hl, hstart, IsWord.push hword ‹_›⟩
    · obtain ⟨⟨s'', ts''⟩, hbegin, hpure⟩ := Repr.bind_eq_ok.1 hstep
      cases hpure
      have hw : Lexed (text ++ chars) (tokens ++ [wordToken start chars]) := by
        simpa [wordToken] using hl.push (wellFormed_wordToken hword start) hstart
      simpa using begin_reads hw hbegin
  | quoted start chars value =>
    obtain ⟨text, body, rfl, rfl, hbody, hl, hstart⟩ := h
    simp only [step] at hstep
    split at hstep
    · cases hstep
      subst ‹c = '"'›
      have hw : Token.WellFormed ⟨.quoted (String.ofList value), start,
          String.ofList ('"' :: body ++ ['"'])⟩ := ⟨body, by simp, by simpa using hbody⟩
      simpa [Reads] using hl.push hw hstart
    split at hstep
    · cases hstep
    split at hstep
    · rename_i hbackslash
      cases hstep
      subst hbackslash
      exact ⟨text, body, by simp, by simp, hbody, by simpa using hl, hstart, by simp⟩
    · cases hstep
      exact ⟨text, body ++ [c], by simp, by simp, hbody.plain ‹_› ‹_› ‹_›, by simpa using hl,
        hstart⟩
  | escape start chars value backslash =>
    obtain ⟨text, body, rfl, rfl, hbody, hl, hstart, -⟩ := h
    simp only [step] at hstep
    split at hstep
    · rename_i d hd
      cases hstep
      exact ⟨text, body ++ ['\\', c], by simp, by simp,
        hbody.escape (unescape?_eq_some_iff.1 hd), by simpa using hl, hstart⟩
    · cases hstep

/-- A step that fails points into the text at the character it read or before it. -/
theorem step_error {s : Scanner} {f : Fault} (h : s.Reads read tokens)
    (hstep : s.step (placeAfter read) c = .error f) (after : List Char) :
    PointsAt (read ++ c :: after) f := by
  cases s with
  | between => exact begin_error hstep after
  | comment => simp [step] at hstep
  | word start chars =>
    obtain ⟨text, rfl, -, -, -⟩ := h
    simp only [step] at hstep
    split at hstep
    · cases hstep
    · rcases Repr.bind_eq_error.1 hstep with hbegin | ⟨_, _, hpure⟩
      · exact begin_error hbegin after
      · cases hpure
  | quoted start chars value =>
    obtain ⟨text, body, rfl, rfl, hbody, -, rfl⟩ := h
    simp only [step] at hstep
    split at hstep
    · cases hstep
    split at hstep
    · cases hstep
      subst ‹c = '\n'›
      simpa using @PointsAt.newline text body value after hbody
    split at hstep
    · cases hstep
    · cases hstep
  | escape start chars value backslash =>
    obtain ⟨text, body, rfl, rfl, -, -, -, rfl⟩ := h
    simp only [step] at hstep
    split at hstep
    · cases hstep
    · rename_i hd
      cases hstep
      have hnone : ∀ e, (c, e) ∉ escapes := fun e he => by
        simp [unescape?_eq_some_iff.2 he] at hd
      simpa using @PointsAt.unknownEscape (text ++ '"' :: body) after c hnone

/-- At the end of the text the scanner completes what it is in, unless it is in a string
literal. -/
theorem finish_covers {s : Scanner} {ts : List Token} (h : s.Reads read tokens)
    (hfinish : s.finish = .ok ts) : Covers read (tokens ++ ts) := by
  cases s with
  | between =>
    cases hfinish
    simpa using Covers.lexed h
  | comment =>
    cases hfinish
    obtain ⟨text, body, rfl, hbody, hl⟩ := h
    simpa using Covers.openComment hl hbody
  | word start chars =>
    cases hfinish
    obtain ⟨text, rfl, hl, hstart, hword⟩ := h
    exact .lexed (by simpa [wordToken] using hl.push (wellFormed_wordToken hword start) hstart)
  | quoted => cases hfinish
  | escape => cases hfinish

/-- The end of the text inside a string literal is a fault at its opening quote. -/
theorem finish_error {s : Scanner} {f : Fault} (h : s.Reads read tokens)
    (hfinish : s.finish = .error f) : PointsAt read f := by
  cases s with
  | between => cases hfinish
  | comment => cases hfinish
  | word => cases hfinish
  | quoted start chars value =>
    cases hfinish
    obtain ⟨text, body, rfl, rfl, hbody, -, rfl⟩ := h
    exact .unterminated hbody
  | escape start chars value backslash =>
    cases hfinish
    obtain ⟨text, body, rfl, rfl, hbody, -, rfl, -⟩ := h
    simpa using @PointsAt.unterminatedEscape text body value hbody

/-- A run over the rest of the text, from a state that has read `read`, covers the whole text
or fails with a fault that points into it. -/
theorem run_spec (rest : List Char) :
    ∀ {s : Scanner} {read : List Char} {done : List Token}, s.Reads read done.reverse →
      (∀ stream, s.run (placeAfter read) done rest = .ok stream →
        Covers (read ++ rest) stream.tokens ∧
          stream.eof = ⟨.eof, placeAfter (read ++ rest), ""⟩) ∧
      (∀ f, s.run (placeAfter read) done rest = .error f → PointsAt (read ++ rest) f) := by
  induction rest with
  | nil =>
    intro s read done h
    rw [List.append_nil]
    cases hfinish : s.finish with
    | error f =>
      have hrun : s.run (placeAfter read) done [] = .error f := by
        simp [run, hfinish, bind, Except.bind]
      rw [hrun]
      refine ⟨fun _ hok => (by cases hok), fun f' herr => ?_⟩
      cases herr
      exact finish_error h hfinish
    | ok ts =>
      have hrun : s.run (placeAfter read) done [] =
          .ok ⟨done.reverse ++ ts, ⟨.eof, placeAfter read, ""⟩⟩ := by
        simp [run, hfinish, bind, Except.bind, pure, Except.pure]
      rw [hrun]
      refine ⟨fun stream hok => ?_, fun _ herr => (by cases herr)⟩
      cases hok
      exact ⟨finish_covers h hfinish, rfl⟩
  | cons c rest ih =>
    intro s read done h
    cases hstep : s.step (placeAfter read) c with
    | error f =>
      have hrun : s.run (placeAfter read) done (c :: rest) = .error f := by
        simp [run, hstep, bind, Except.bind]
      rw [hrun]
      refine ⟨fun _ hok => (by cases hok), fun f' herr => ?_⟩
      cases herr
      exact step_error h hstep rest
    | ok next =>
      obtain ⟨s', ts⟩ := next
      have hrun : s.run (placeAfter read) done (c :: rest) =
          s'.run (placeAfter (read ++ [c])) (ts.reverse ++ done) rest := by
        simp [run, hstep, bind, Except.bind, placeAfter_append_singleton]
      have hreads : s'.Reads (read ++ [c]) (ts.reverse ++ done).reverse := by
        simpa using step_reads h hstep
      rw [hrun]
      simpa using ih hreads

end Scanner

/-- Scanning is lossless and places every token exactly. A successful scan gives tokens that
lay out the whole text with trivia between them, each well formed and at the place of its
first character, none of them the end of input, and then the end-of-input token at the place
just past the text. A failed scan reports a character that starts no token, the backslash of
an unknown escape, or the opening quote of a string literal cut off by the end of the text or
by a line break. -/
theorem scan_lossless (source : String) :
    (∀ stream, scan source = .ok stream →
      Covers source.toList stream.tokens ∧ (∀ t ∈ stream.tokens, t.kind ≠ .eof) ∧
        stream.eof = ⟨.eof, placeAfter source.toList, ""⟩) ∧
    (∀ f, scan source = .error f → PointsAt source.toList f) := by
  have hrun := Scanner.run_spec (s := .between) source.toList
    (show Scanner.between.Reads [] ([] : List Token).reverse from .trivia .nil)
  simp only [placeAfter_nil, List.nil_append] at hrun
  refine ⟨fun stream hscan => ?_, hrun.2⟩
  obtain ⟨hcovers, heof⟩ := hrun.1 stream hscan
  exact ⟨hcovers, hcovers.kind_ne_eof, heof⟩

/-- A word followed by a comment that the end of the text closes: the word is the one token,
and the end of input stands just past the comment. -/
theorem scan_lossless_wordThenComment :
    scan "ab #c" = .ok ⟨[⟨.word "ab", ⟨1, 1⟩, "ab"⟩], ⟨.eof, ⟨1, 6⟩, ""⟩⟩ ∧
      Covers "ab #c".toList [⟨.word "ab", ⟨1, 1⟩, "ab"⟩] :=
  have hscan : scan "ab #c" = .ok ⟨[⟨.word "ab", ⟨1, 1⟩, "ab"⟩], ⟨.eof, ⟨1, 6⟩, ""⟩⟩ := by rfl
  ⟨hscan, ((scan_lossless "ab #c").1 _ hscan).1⟩

end Ipld.Schema.Dsl
