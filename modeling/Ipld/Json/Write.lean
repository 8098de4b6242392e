import Ipld.Json.Value
import Ipld.Decimal.Notation

/-!
# Writing JSON text

Strings are written with `\"` and `\\`, the short escapes `\b \f \n \r \t`, `\u00xx`
(lowercase hex) for the other control characters, and every other character as itself.
Floats use the JSON notation of `Ipld.Decimal.Notation` (`1.0`, `1e+300`); a float that is
not a number has no JSON text and is written `null`.

Two layouts: compact (no blanks at all) and pretty (one item or entry per line, two
spaces per level, `": "` between key and value, `[]` and `{}` for empty containers).
-/

namespace Ipld.Json

/-- Two lowercase hex digits of a byte value. -/
def hexByte (n : Nat) : List Char :=
  let d := fun (k : Nat) => if k < 10 then Char.ofNat (48 + k) else Char.ofNat (87 + k)
  [d (n / 16 % 16), d (n % 16)]

/-- How one character is written inside a JSON string. -/
def escapeChar (c : Char) : List Char :=
  match c with
  | '"' => ['\\', '"']
  | '\\' => ['\\', '\\']
  | '\n' => ['\\', 'n']
  | '\r' => ['\\', 'r']
  | '\t' => ['\\', 't']
  | '\x08' => ['\\', 'b']
  | '\x0c' => ['\\', 'f']
  | _ => if c.toNat < 0x20 then ['\\', 'u', '0', '0'] ++ hexByte c.toNat else [c]

/-- A JSON string literal. -/
def quoteString (s : String) : String :=
  String.ofList ('"' :: (s.toList.flatMap escapeChar ++ ['"']))

/-- The text of a number or scalar. -/
def scalarText : Json → String
  | null => "null"
  | bool true => "true"
  | bool false => "false"
  | int i => toString i
  | float x => x.toJsonText
  | string s => quoteString s
  | array _ => "[]"
  | object _ => "\x7b\x7d"

mutual

/-- Compact text: no blanks between tokens. -/
def compact : Json → String
  | array items => "[" ++ ",".intercalate (compactList items) ++ "]"
  | object entries => "\x7b" ++ ",".intercalate (compactEntries entries) ++ "\x7d"
  | j => scalarText j

/-- Compact texts of the items. -/
def compactList : List Json → List String
  | [] => []
  | j :: rest => compact j :: compactList rest

/-- Compact texts of the entries, `"key":value`. -/
def compactEntries : List (String × Json) → List String
  | [] => []
  | (k, j) :: rest => (quoteString k ++ ":" ++ compact j) :: compactEntries rest

end

/-- The indentation of a nesting level. -/
def indent (level : Nat) : String := String.ofList (List.replicate (2 * level) ' ')

mutual

/-- Pretty text at nesting level `level` (the first line is not indented). -/
def pretty (level : Nat) : Json → String
  | array [] => "[]"
  | object [] => "\x7b\x7d"
  | array items =>
    "[\n" ++ ",\n".intercalate (prettyList (level + 1) items) ++ "\n" ++ indent level ++ "]"
  | object entries =>
    "\x7b\n" ++ ",\n".intercalate (prettyEntries (level + 1) entries) ++ "\n" ++ indent level ++ "\x7d"
  | j => scalarText j

/-- Indented pretty texts of the items. -/
def prettyList (level : Nat) : List Json → List String
  | [] => []
  | j :: rest => (indent level ++ pretty level j) :: prettyList level rest

/-- Indented pretty texts of the entries. -/
def prettyEntries (level : Nat) : List (String × Json) → List String
  | [] => []
  | (k, j) :: rest => (indent level ++ quoteString k ++ ": " ++ pretty level j) :: prettyEntries level rest

end

end Ipld.Json
