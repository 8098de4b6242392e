import Ipld.Node.Basic
import Ipld.Text.Quoted

/-!
# Errors of reading a representation

Reading a value back from its representation fails with a `DecodeError`: a node of the
wrong kind, a field that is missing or not expected, a discriminant that no member has, a
scalar text that does not read, or a string that does not split the way the strategy says.
An error found inside a part of the value is wrapped with the part (`within`), so the
message reads from the outside in: `in field "x": in index 1: expected int, found string`.
-/

namespace Ipld.Repr

/-- The part of a value that an error was found in. -/
inductive Context where
  /-- A list item. -/
  | index (i : Nat)
  /-- The value under a map key. -/
  | key (k : String)
  /-- A struct field. -/
  | field (name : String)
  /-- The value of a union member, named by its type. -/
  | member (typeName : String)
  /-- The value of a union member, as generated bindings name it: `member "T"`. -/
  | variant (typeName : String)
  deriving DecidableEq, Inhabited, Repr

/-- `index 3`, `key "a"`, `field "x"`, or the member type's name. -/
def Context.describe : Context → String
  | .index i => "index " ++ toString i
  | .key k => "key " ++ Text.quote k
  | .field name => "field " ++ Text.quote name
  | .member t => t
  | .variant t => "member " ++ Text.quote t

/-- Why a node is not the representation of a value of a type. -/
inductive DecodeError where
  /-- A node of another kind than the one needed. -/
  | wrongKind (expected found : Kind)
  /-- A required field that is absent. -/
  | missingField (name : String)
  /-- A key that is not a field. -/
  | unexpectedField (name : String)
  /-- A discriminant, enum value or prefix that no member has. -/
  | unknownDiscriminant (d : String)
  /-- A text that is not a 64-bit integer. -/
  | notAnInt (text : String)
  /-- A text that is not a float. -/
  | notAFloat (text : String)
  /-- A text that is not `true` or `false`. -/
  | notABool (text : String)
  /-- An integer too large to stand for a float exactly. -/
  | inexactFloat (i : Int)
  /-- A joined string with the wrong number of parts. -/
  | partCount (expected : Nat) (sep : String) (found : Nat)
  /-- A pair without its inner delimiter. -/
  | missingDelimiter (pair delimiter : String)
  /-- A list of the wrong length. -/
  | listLength (expected found : Nat)
  /-- A null for a field that is not nullable. -/
  | notNullable (field : String)
  /-- A value of a kind that has no text inside a string. -/
  | notEmbeddable (kind : Kind)
  /-- A union value that is not a map of one entry. -/
  | notSingleEntry (count : Nat)
  /-- A keyed union value in generated bindings that is not a map of one entry. -/
  | keyedEntries (count : Nat)
  /-- An integer outside `0..255` where a byte is needed. -/
  | notAByte (i : Int)
  /-- The value nests deeper than a reader sized by the value can go. -/
  | exhausted
  /-- An error inside a part of the value. -/
  | within (context : Context) (inner : DecodeError)
  deriving DecidableEq, Inhabited, Repr

/-- The message of a decoding error, contexts outermost first. -/
def DecodeError.message : DecodeError → String
  | .wrongKind e f => "expected " ++ e.name ++ ", found " ++ f.name
  | .missingField n => "missing required field " ++ Text.quote n
  | .unexpectedField n => "unexpected field " ++ Text.quote n
  | .unknownDiscriminant d => "no member matches discriminant " ++ Text.quote d
  | .notAnInt s => Text.quote s ++ " is not an int"
  | .notAFloat s => Text.quote s ++ " is not a float"
  | .notABool s => Text.quote s ++ " is not a bool"
  | .inexactFloat i => "int " ++ toString i ++ " cannot be held exactly by a float"
  | .partCount n sep k =>
    "expected " ++ toString n ++ " parts joined by " ++ Text.quote sep ++ ", found " ++ toString k
  | .missingDelimiter pair d => Text.quote pair ++ " is missing the " ++ Text.quote d ++ " delimiter"
  | .listLength n k => "expected " ++ toString n ++ " list entries, found " ++ toString k
  | .notNullable f => "field " ++ Text.quote f ++ " is not nullable"
  | .notEmbeddable k => "a " ++ k.name ++ " cannot be embedded in a string"
  | .notSingleEntry n => "expected a single-entry map, found " ++ toString n ++ " entries"
  | .keyedEntries n => "keyed union needs exactly one entry, found " ++ toString n
  | .notAByte i => toString i ++ " is not a byte"
  | .exhausted => "value nests too deeply"
  | .within c e => "in " ++ c.describe ++ ": " ++ e.message

/-- Wrap the error of a result with the part it was found in. -/
def inPart {α : Type} (c : Context) : Except DecodeError α → Except DecodeError α
  | .error e => .error (.within c e)
  | .ok a => .ok a

/-- The error for a node of the wrong kind. -/
def wrongKind {α : Type} (expected : Kind) (found : Node) : Except DecodeError α :=
  .error (.wrongKind expected found.kind)

end Ipld.Repr
