import Ipld.Schema.Dsl.Error
import Ipld.Text.Blank

/-!
# Scanning schema text into tokens

The scanner reads a text one character at a time, remembering only what it is in the
middle of (`Scanner`): between tokens, in a comment, in a word, in a string or just after a
backslash in a string. Blanks (Unicode white space) separate tokens and `#` starts a comment
that runs to the end of the line. Every character is read exactly once, so `scan` is a
structural recursion over the text.

A string literal is `"` … `"` with the escapes `\"`, `\\`, `\n` and `\t`; it may not hold a
newline. A failure points at the character that starts no token, at the backslash of an
unknown escape, or at the opening quote of a string that is broken by a newline or never
closed.
-/

namespace Ipld.Schema.Dsl

/-- What the scanner is in the middle of. Texts are kept in reading order. -/
inductive Scanner where
  /-- Between tokens. -/
  | between
  /-- In a comment, up to the end of the line. -/
  | comment
  /-- In a word that started at `start`. -/
  | word (start : Pos) (text : List Char)
  /-- In a string literal that opened at `start`: its source text so far, and its value. -/
  | quoted (start : Pos) (text : List Char) (value : List Char)
  /-- Just after a backslash (at `backslash`) in a string literal. -/
  | escape (start : Pos) (text : List Char) (value : List Char) (backslash : Pos)
  deriving Inhabited

/-- The tokens of a text: those before its end, and the end-of-input token. -/
structure TokenStream where
  /-- The tokens in order, the end of input not among them. -/
  tokens : List Token
  /-- The end-of-input token, placed just after the text. -/
  eof : Token
  deriving Inhabited

/-- Characters that may start a word. -/
def isWordStart (c : Char) : Bool := c.isAlpha || c = '_'

/-- Characters that may continue a word. -/
def isWordChar (c : Char) : Bool := c.isAlphanum || c = '_'

/-- The character an escape letter stands for. -/
def unescape? : Char → Option Char
  | '"' => some '"'
  | '\\' => some '\\'
  | 'n' => some '\n'
  | 't' => some '\t'
  | _ => none

/-- The token of a finished word. -/
def wordToken (start : Pos) (text : List Char) : Token :=
  ⟨.word (String.ofList text), start, String.ofList text⟩

/-- Read `c` at `p` between tokens: skip a blank, open a comment, word or string, or give a
one-character token. -/
def Scanner.begin (p : Pos) (c : Char) : Except Fault (Scanner × List Token) :=
  if Text.isBlank c then .ok (.between, [])
  else if c = '#' then .ok (.comment, [])
  else match TokenKind.ofPunctuation? c with
    | some k => .ok (.between, [⟨k, p, c.toString⟩])
    | none =>
      if c = '"' then .ok (.quoted p ['"'] [], [])
      else if isWordStart c then .ok (.word p [c], [])
      else .error ⟨.unexpectedCharacter c, p, c.toString⟩

/-- Read the character `c` at `p`, giving the new state and the tokens it completes. -/
def Scanner.step : Scanner → Pos → Char → Except Fault (Scanner × List Token)
  | .between, p, c => Scanner.begin p c
  | .comment, _, c => .ok (if c = '\n' then .between else .comment, [])
  | .word start text, p, c =>
    if isWordChar c then .ok (.word start (text ++ [c]), [])
    else do
      let (s, ts) ← Scanner.begin p c
      pure (s, wordToken start text :: ts)
  | .quoted start text value, p, c =>
    if c = '"' then
      .ok (.between, [⟨.quoted (String.ofList value), start, String.ofList (text ++ [c])⟩])
    else if c = '\n' then .error ⟨.newlineInString, start, String.ofList text⟩
    else if c = '\\' then .ok (.escape start (text ++ [c]) value p, [])
    else .ok (.quoted start (text ++ [c]) (value ++ [c]), [])
  | .escape start text value backslash, _, c =>
    match unescape? c with
    | some d => .ok (.quoted start (text ++ [c]) (value ++ [d]), [])
    | none => .error ⟨.unknownEscape c, backslash, String.ofList ['\\', c]⟩

/-- The tokens completed by the end of the text. -/
def Scanner.finish : Scanner → Except Fault (List Token)
  | .word start text => .ok [wordToken start text]
  | .quoted start text _ => .error ⟨.unterminatedString, start, String.ofList text⟩
  | .escape start text _ _ => .error ⟨.unterminatedString, start, String.ofList text⟩
  | _ => .ok []

/-- Scan the rest of a text from state `s` at `p`, after the tokens `done` (in reverse
order). The end-of-input token stands at the place after the text. -/
def Scanner.run (s : Scanner) (p : Pos) (done : List Token) : List Char → Except Fault TokenStream
  | [] => do
    let ts ← s.finish
    pure ⟨done.reverse ++ ts, ⟨.eof, p, ""⟩⟩
  | c :: cs => do
    let (s', ts) ← s.step p c
    Scanner.run s' (p.next c) (ts.reverse ++ done) cs

/-- The tokens of a text, or the first fault in it. -/
def scan (source : String) : Except Fault TokenStream :=
  Scanner.between.run Pos.start [] source.toList

end Ipld.Schema.Dsl
