import Ipld.Repr.Error
import Ipld.Decimal.Read
import Ipld.Decimal.Notation

/-!
# Scalars inside strings

String representations embed scalars as text: an integer in decimal, a float in its
shortest plain notation (`1.5`, `100000`, `NaN`, `inf`), a boolean as `true` or `false`.
Reading accepts a sign on integers and floats, exponents and `inf`/`NaN` on floats, and
nothing else.

Joined strings are split at a separator from the left. The empty separator matches before
every character and at the end, so the first piece is empty and the others are single
characters. `splitN n` stops after `n - 1` cuts and leaves the rest in the last piece.
-/

namespace Ipld.Repr

/-- The text before the first occurrence of `sep` and the text after it. The empty
separator occurs at the start. -/
def splitFirst (sep : List Char) : List Char → Option (List Char × List Char)
  | [] => if sep.isEmpty then some ([], []) else none
  | c :: cs =>
    if sep.isPrefixOf (c :: cs) then some ([], (c :: cs).drop sep.length)
    else (splitFirst sep cs).map fun (before, after) => (c :: before, after)

/-- Pieces of a text cut before each character, at most `n` of them, the last holding the
rest: the pieces after the first, for the empty separator. -/
def chunks : Nat → List Char → List (List Char)
  | 0, _ => []
  | 1, s => [s]
  | _ + 2, [] => [[]]
  | n + 2, c :: cs => [c] :: chunks (n + 1) cs

/-- At most `n` pieces of `s` cut at occurrences of a nonempty `sep`, the last holding the
rest. -/
def cutN (sep : List Char) : Nat → List Char → List (List Char)
  | 0, _ => []
  | 1, s => [s]
  | n + 2, s =>
    match splitFirst sep s with
    | none => [s]
    | some (before, after) => before :: cutN sep (n + 1) after

/-- At most `n` pieces of `s` split at `sep`, the last holding the rest. -/
def splitN (sep : List Char) (n : Nat) (s : List Char) : List (List Char) :=
  if sep.isEmpty then
    match n with
    | 0 => []
    | 1 => [s]
    | n + 2 => [] :: chunks (n + 1) s
  else cutN sep n s

/-- All pieces of `s` split at `sep`. A text of length `L` has at most `L + 2` pieces. -/
def splitAll (sep s : List Char) : List (List Char) := splitN sep (s.length + 2) s

/-- The parts of a joined string: exactly `n` of them, the last keeping any further
separators. -/
def splitJoin (s sep : String) (n : Nat) : Except DecodeError (List String) :=
  let parts := splitN sep.toList n s.toList
  if parts.length = n then .ok (parts.map String.ofList)
  else .error (.partCount n sep parts.length)

/-- The pairs of `k<inner>v<entry>k<inner>v`; the empty text has none. A pair is cut at
the first inner delimiter. -/
def splitPairs (s inner entry : String) : Except DecodeError (List (String × String)) :=
  if s.isEmpty then .ok []
  else (splitAll entry.toList s.toList).mapM fun pair =>
    match splitFirst inner.toList pair with
    | some (k, v) => .ok (String.ofList k, String.ofList v)
    | none => .error (.missingDelimiter (String.ofList pair) inner)

/-- `k<inner>v` pairs joined by `entry`. -/
def joinPairs (pairs : List (String × String)) (inner entry : String) : String :=
  entry.intercalate (pairs.map fun (k, v) => k ++ inner ++ v)

/-- The largest magnitude of an integer that a float holds exactly. -/
def maxExactFloatInt : Int := Int.pow 2 53

/-- The float standing for an integer, refused once it would round. -/
def intToFloat (i : Int) : Except DecodeError Binary64 :=
  if -maxExactFloatInt ≤ i ∧ i ≤ maxExactFloatInt then .ok (Binary64.ofInt i)
  else .error (.inexactFloat i)

/-- An integer from its text. -/
def readInt (s : String) : Except DecodeError Int :=
  match Decimal.readInt64 s with
  | some i => .ok i
  | none => .error (.notAnInt s)

/-- A float from its text. -/
def readFloat (s : String) : Except DecodeError Binary64 :=
  match Decimal.readFloat s with
  | some x => .ok x
  | none => .error (.notAFloat s)

/-- A boolean from its text. -/
def readBool (s : String) : Except DecodeError Bool :=
  match s with
  | "true" => .ok true
  | "false" => .ok false
  | _ => .error (.notABool s)

/-- The text of a boolean. -/
def boolText (b : Bool) : String := if b then "true" else "false"

/-- The text of a scalar node inside a string representation. -/
def embeddedText : Node → Except DecodeError String
  | .string s => .ok s
  | .int i => .ok (toString i)
  | .float x => .ok x.toText
  | .bool b => .ok (boolText b)
  | other => .error (.notEmbeddable other.kind)

end Ipld.Repr
