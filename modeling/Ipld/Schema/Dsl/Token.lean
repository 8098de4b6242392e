import Ipld.Text.Quoted

/-!
# Tokens of the schema language

A token is a word, a quoted string, one punctuation character, or the end of the input,
together with where it starts and the exact text it covers. Positions are 1-based lines
and columns, columns counted in characters; a newline starts the next line at column 1.
-/

namespace Ipld.Schema.Dsl

/-- A place in a source text: 1-based line and column, columns counted in characters. -/
structure Pos where
  /-- The line, from 1. -/
  line : Nat
  /-- The column on that line, from 1. -/
  col : Nat
  deriving DecidableEq, Inhabited, Repr

namespace Pos

/-- The first character of a text. -/
def start : Pos := ⟨1, 1⟩

/-- The place after the character `c` read at `p`. -/
def next (p : Pos) (c : Char) : Pos :=
  if c = '\n' then ⟨p.line + 1, 1⟩ else ⟨p.line, p.col + 1⟩

end Pos

/-- What a token is. -/
inductive TokenKind where
  /-- A word: a letter or `_`, then letters, digits and `_`. Keywords are words too. -/
  | word (text : String)
  /-- A quoted string, holding its value with escapes decoded. -/
  | quoted (value : String)
  | lbrace
  | rbrace
  | lbracket
  | rbracket
  | lparen
  | rparen
  | colon
  | comma
  | semicolon
  | pipe
  | amp
  | equals
  | greater
  /-- The end of the input. -/
  | eof
  deriving DecidableEq, Inhabited, Repr

/-- The kind of a one-character token. -/
def TokenKind.ofPunctuation? : Char → Option TokenKind
  | '{' => some .lbrace
  | '}' => some .rbrace
  | '[' => some .lbracket
  | ']' => some .rbracket
  | '(' => some .lparen
  | ')' => some .rparen
  | ':' => some .colon
  | ',' => some .comma
  | ';' => some .semicolon
  | '|' => some .pipe
  | '&' => some .amp
  | '=' => some .equals
  | '>' => some .greater
  | _ => none

/-- How a token kind is named in messages: the word or string itself, or the punctuation
character between backquotes. -/
def TokenKind.describe : TokenKind → String
  | .word s => "identifier `" ++ s ++ "`"
  | .quoted s => "string " ++ Text.quote s
  | .lbrace => "`\x7b`"
  | .rbrace => "`\x7d`"
  | .lbracket => "`[`"
  | .rbracket => "`]`"
  | .lparen => "`(`"
  | .rparen => "`)`"
  | .colon => "`:`"
  | .comma => "`,`"
  | .semicolon => "`;`"
  | .pipe => "`|`"
  | .amp => "`&`"
  | .equals => "`=`"
  | .greater => "`>`"
  | .eof => "end of input"

/-- A token, where it starts, and the source text it covers. -/
structure Token where
  /-- What the token is. -/
  kind : TokenKind
  /-- Where its first character is; for the end of input, the place after the text. -/
  pos : Pos
  /-- The exact source text; empty for the end of input. -/
  text : String
  deriving DecidableEq, Inhabited, Repr

namespace Token

/-- Whether the token is the word `w`. -/
def isWord (t : Token) (w : String) : Bool := t.kind == .word w

/-- The text shown where a message points at the token. -/
def snippet (t : Token) : String :=
  if t.kind = .eof then "<end of input>" else t.text

end Token

end Ipld.Schema.Dsl
