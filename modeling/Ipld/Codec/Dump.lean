import Ipld.Node.Basic
import Ipld.Decimal.Notation
import Ipld.Text.Quoted
import Ipld.Codec.ByteText

/-!
# The debug dump

An indented outline of a value, one line per value: `null`, `bool true`, `int 5`,
`float 0.5` (plain float text), `string "…"` (quoted), `bytes 00ff` (hex), `link cid`,
`list (n items)` and `map (n entries)`. The items of a list follow on lines
`[i]: …` and the entries of a map on lines `"key": …`, each two spaces deeper than its
container.
-/

namespace Ipld.Node

/-- The indentation of a depth. -/
def dumpPad (depth : Nat) : String := String.ofList (List.replicate (2 * depth) ' ')

mutual

/-- The dump of a value whose first line is already indented, at nesting depth `depth`. -/
def dump (depth : Nat) : Node → String
  | null => "null\n"
  | bool b => "bool " ++ toString b ++ "\n"
  | int i => "int " ++ toString i ++ "\n"
  | float x => "float " ++ x.toText ++ "\n"
  | string s => "string " ++ Text.quote s ++ "\n"
  | bytes bs => "bytes " ++ ByteText.hex bs ++ "\n"
  | link cid => "link " ++ cid ++ "\n"
  | list items => "list (" ++ toString items.length ++ " items)\n" ++ dumpItems depth 0 items
  | map entries =>
    "map (" ++ toString entries.length ++ " entries)\n" ++ dumpEntries depth entries

/-- The lines of list items, numbered from `i`. -/
def dumpItems (depth i : Nat) : List Node → String
  | [] => ""
  | n :: rest =>
    dumpPad depth ++ "  [" ++ toString i ++ "]: " ++ dump (depth + 1) n ++
      dumpItems depth (i + 1) rest

/-- The lines of map entries. -/
def dumpEntries (depth : Nat) : List (String × Node) → String
  | [] => ""
  | (k, n) :: rest =>
    dumpPad depth ++ "  " ++ Text.quote k ++ ": " ++ dump (depth + 1) n ++ dumpEntries depth rest

end

end Ipld.Node
