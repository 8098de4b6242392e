import Ipld.Schema.Dsl.Token

/-!
# Errors of the schema language

Reading stops at the first problem. A problem is a cause (`Problem`); the place and the
text it points at make a `Fault`; the name of the source makes a `ParseError`, written
as the name, line and column, the message, and the snippet in backquotes.
-/

namespace Ipld.Schema.Dsl

/-- Why a schema text could not be read. -/
inductive Problem where
  /-- A character that starts no token. -/
  | unexpectedCharacter (c : Char)
  /-- A string literal that the input ends inside. -/
  | unterminatedString
  /-- A string literal broken by a newline. -/
  | newlineInString
  /-- A backslash followed by something other than `"`, `\`, `n` or `t`. -/
  | unknownEscape (c : Char)
  /-- A token other than the one the grammar needs; `wanted` says what was needed. -/
  | expected (wanted : String) (found : TokenKind)
  /-- A field name with no type after it on its line. -/
  | missingFieldType (field : String)
  /-- A union member type with no discriminant after it. -/
  | missingDiscriminant (member : String) (found : TokenKind)
  /-- The input ends inside the body of a struct, union or enum. -/
  | unterminatedBody (construct : String)
  /-- A representation parameter given twice. -/
  | repeatedParameter (key : String)
  /-- A reader ran out of steps; each step takes a token, so a reader sized by the token
  count never does. -/
  | exhausted
  deriving DecidableEq, Inhabited, Repr

/-- The message of a problem. -/
def Problem.message : Problem → String
  | .unexpectedCharacter c => "unexpected character '" ++ c.toString ++ "'"
  | .unterminatedString => "unterminated string literal"
  | .newlineInString => "newline in string literal"
  | .unknownEscape c => "unknown escape sequence '\\" ++ c.toString ++ "'"
  | .expected wanted found => "expected " ++ wanted ++ ", found " ++ found.describe
  | .missingFieldType field => "field `" ++ field ++ "` has no type annotation"
  | .missingDiscriminant member found =>
    "union member `" ++ member ++ "` needs a discriminant, found " ++ found.describe
  | .unterminatedBody construct => "unterminated " ++ construct ++ " body, expected `\x7d`"
  | .repeatedParameter key => "parameter `" ++ key ++ "` given twice"
  | .exhausted => "schema text nests too deeply"

/-- A problem, the place it was found and the source text shown for it. -/
structure Fault where
  /-- The cause. -/
  problem : Problem
  /-- Where it was found. -/
  pos : Pos
  /-- The text it points at. -/
  snippet : String
  deriving DecidableEq, Inhabited, Repr

/-- The fault of a problem found at a token. -/
def Fault.at (problem : Problem) (t : Token) : Fault := ⟨problem, t.pos, t.snippet⟩

/-- The first problem of a named schema text. -/
structure ParseError where
  /-- The name the source is known by in messages. -/
  sourceName : String
  /-- What went wrong and where. -/
  fault : Fault
  deriving DecidableEq, Inhabited, Repr

namespace ParseError

/-- The line of the fault. -/
def line (e : ParseError) : Nat := e.fault.pos.line

/-- The column of the fault. -/
def col (e : ParseError) : Nat := e.fault.pos.col

/-- The text the fault points at. -/
def snippet (e : ParseError) : String := e.fault.snippet

/-- `name:line:col: message (at ...)`, the snippet standing in backquotes after `at`. -/
def message (e : ParseError) : String :=
  e.sourceName ++ ":" ++ toString e.line ++ ":" ++ toString e.col ++ ": " ++
    e.fault.problem.message ++ " (at `" ++ e.snippet ++ "`)"

end ParseError

end Ipld.Schema.Dsl
