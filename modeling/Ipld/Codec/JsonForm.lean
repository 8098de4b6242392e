import Ipld.Node.Basic
import Ipld.Json.Value
import Ipld.Codec.ByteText
import Ipld.Decimal.Read

/-!
# Data-model values as JSON

Two JSON forms of a value. The plain form writes links as their text and byte strings as
arrays of numbers. The dag-json form reserves single-entry objects under the key `"/"`:
a link is `{"/": cid}` and a byte string `{"/": {"bytes": base64}}`. Both keep map entries
in their stored order, repeated keys included.
-/

namespace Ipld.Node

mutual

/-- The plain JSON form. A float that is not finite has no JSON number and is null. -/
def toJsonPlain : Node → Json
  | null => .null
  | bool b => .bool b
  | int i => .int i
  | float x => if x.isFinite then .float x else .null
  | string s => .string s
  | bytes bs => .array (bs.map fun b => .int b.toNat)
  | link cid => .string cid
  | list items => .array (toJsonPlainList items)
  | map entries => .object (toJsonPlainEntries entries)

/-- `toJsonPlain` of each item. -/
def toJsonPlainList : List Node → List Json
  | [] => []
  | n :: rest => toJsonPlain n :: toJsonPlainList rest

/-- `toJsonPlain` of each entry value. -/
def toJsonPlainEntries : List (String × Node) → List (String × Json)
  | [] => []
  | (k, n) :: rest => (k, toJsonPlain n) :: toJsonPlainEntries rest

end

mutual

/-- The dag-json form. -/
def toDagJson : Node → Json
  | null => .null
  | bool b => .bool b
  | int i => .int i
  | float x => .float x
  | string s => .string s
  | bytes bs => .object [("/", .object [("bytes", .string (String.ofList (ByteText.base64 bs)))])]
  | link cid => .object [("/", .string cid)]
  | list items => .array (toDagJsonList items)
  | map entries => .object (toDagJsonEntries entries)

/-- `toDagJson` of each item. -/
def toDagJsonList : List Node → List Json
  | [] => []
  | n :: rest => toDagJson n :: toDagJsonList rest

/-- `toDagJson` of each entry value. -/
def toDagJsonEntries : List (String × Node) → List (String × Json)
  | [] => []
  | (k, n) :: rest => (k, toDagJson n) :: toDagJsonEntries rest

end

mutual

/-- The node of a JSON value: integers within the signed 64-bit range are ints, other
numbers floats, objects maps in their order. -/
def ofJson : Json → Node
  | .null => null
  | .bool b => bool b
  | .int i => if Decimal.inInt64 i then int i else float (Binary64.ofInt i)
  | .float x => float x
  | .string s => string s
  | .array items => list (ofJsonList items)
  | .object entries => map (ofJsonEntries entries)

/-- `ofJson` of each item. -/
def ofJsonList : List Json → List Node
  | [] => []
  | j :: rest => ofJson j :: ofJsonList rest

/-- `ofJson` of each entry value. -/
def ofJsonEntries : List (String × Json) → List (String × Node)
  | [] => []
  | (k, j) :: rest => (k, ofJson j) :: ofJsonEntries rest

end

/-- The plain JSON value of a node: the plain form with each object's repeated keys
collapsed to one entry, at the first key's place, holding the last value. -/
def toValue (n : Node) : Json := n.toJsonPlain.collapse

end Ipld.Node
