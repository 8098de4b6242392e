import Ipld.Text.Classes

/-!
# Quoted text

`quote s` writes `s` between double quotes so that every character stays visible: a
backslash escape for NUL, tab, carriage return, line feed, backslash and the double quote,
`\u{…}` with lowercase hexadecimal digits for grapheme extenders and characters that are
not printable, and every other character as itself. Diagnostics and generated code use
it for names and values.
-/

namespace Ipld.Text

/-- The escape `\u{h…}` of a character, lowercase hex without leading zeros. -/
def unicodeEscape (c : Char) : List Char :=
  ['\\', 'u', '\x7b'] ++ Nat.toDigits 16 c.toNat ++ ['\x7d']

/-- How one character is written inside double quotes. -/
def quoteChar (c : Char) : List Char :=
  match c with
  | '\x00' => ['\\', '0']
  | '\t' => ['\\', 't']
  | '\r' => ['\\', 'r']
  | '\n' => ['\\', 'n']
  | '\\' => ['\\', '\\']
  | '"' => ['\\', '"']
  | _ => if isGraphemeExtend c || !isPrintable c then unicodeEscape c else [c]

/-- `s` between double quotes with the escapes described above. -/
def quote (s : String) : String :=
  String.ofList ('"' :: (s.toList.flatMap quoteChar ++ ['"']))

end Ipld.Text
