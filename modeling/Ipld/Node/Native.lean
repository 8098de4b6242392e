import Ipld.Node.Basic
import Ipld.Json.Value
import Ipld.Decimal.Read

/-!
# Values of a program's own types

A program hands its values to a serializer in a small generic model: a unit (also what an
absent option or a field-less struct is), booleans, integers of any width, floats, text,
bytes, sequences, maps with keys of any model value, records with named fields, and
variants of a sum type, bare or with a payload. Options and one-field wrappers are
transparent, so they need no form of their own.

`NativeValue.toNode` turns such a value into a data-model node. Units are null; records
and maps are maps, in order and with repeated keys kept; a bare variant is its name and a
variant with a payload a map of one entry from its name. Two things can fail: an integer
outside the signed 64-bit range, and a map key that is not text or an integer (an integer
key becomes its decimal text).
-/

namespace Ipld

/-- A value of a program's own types, in the model a serializer sees. -/
inductive NativeValue where
  | unit
  | bool (b : Bool)
  /-- An integer of some fixed width, signed or unsigned. -/
  | int (i : Int)
  | float (x : Binary64)
  | text (s : String)
  | bytes (bs : List UInt8)
  /-- A sequence or a tuple. -/
  | seq (items : List NativeValue)
  /-- A map; keys are model values too. -/
  | map (entries : List (NativeValue × NativeValue))
  /-- A struct with named fields. -/
  | record (fields : List (String × NativeValue))
  /-- A variant without a payload. -/
  | bareVariant (name : String)
  /-- A variant with a payload: a value, a tuple or a record. -/
  | variant (name : String) (payload : NativeValue)
  deriving Inhabited

mutual

/-- Structural equality of values. -/
def NativeValue.beq : NativeValue → NativeValue → Bool
  | .unit, .unit => true
  | .bool a, .bool b => a == b
  | .int a, .int b => a == b
  | .float a, .float b => a == b
  | .text a, .text b => a == b
  | .bytes a, .bytes b => a == b
  | .seq a, .seq b => NativeValue.beqList a b
  | .map a, .map b => NativeValue.beqEntries a b
  | .record a, .record b => NativeValue.beqFields a b
  | .bareVariant a, .bareVariant b => a == b
  | .variant a x, .variant b y => a == b && NativeValue.beq x y
  | _, _ => false

/-- `beq` item by item. -/
def NativeValue.beqList : List NativeValue → List NativeValue → Bool
  | [], [] => true
  | a :: as, b :: bs => NativeValue.beq a b && NativeValue.beqList as bs
  | _, _ => false

/-- `beq` entry by entry. -/
def NativeValue.beqEntries : List (NativeValue × NativeValue) → List (NativeValue × NativeValue) → Bool
  | [], [] => true
  | (a, b) :: as, (c, d) :: bs =>
    NativeValue.beq a c && NativeValue.beq b d && NativeValue.beqEntries as bs
  | _, _ => false

/-- `beq` field by field, names included. -/
def NativeValue.beqFields : List (String × NativeValue) → List (String × NativeValue) → Bool
  | [], [] => true
  | (k, a) :: as, (k', b) :: bs => k == k' && NativeValue.beq a b && NativeValue.beqFields as bs
  | _, _ => false

end

instance : BEq NativeValue := ⟨NativeValue.beq⟩

/-- Why a value has no node. -/
inductive ToNodeError where
  /-- An integer outside the signed 64-bit range. -/
  | intOutOfRange (i : Int)
  /-- A map key whose node is neither text nor an integer. -/
  | keyNotText (k : Kind)
  deriving DecidableEq, Inhabited, Repr

/-- The message of a conversion error. -/
def ToNodeError.message : ToNodeError → String
  | .intOutOfRange i => "integer " ++ toString i ++ " does not fit the data model's int range"
  | .keyNotText k => "map keys must be strings, got " ++ k.name

/-- The text of a map key's node. -/
def keyText : Node → Except ToNodeError String
  | .string s => .ok s
  | .int i => .ok (toString i)
  | n => .error (.keyNotText n.kind)

namespace NativeValue

mutual

/-- The node of a value. -/
def toNode : NativeValue → Except ToNodeError Node
  | unit => .ok .null
  | bool b => .ok (.bool b)
  | int i => if Decimal.inInt64 i then .ok (.int i) else .error (.intOutOfRange i)
  | float x => .ok (.float x)
  | text s => .ok (.string s)
  | bytes bs => .ok (.bytes bs)
  | seq items => return .list (← seqToNode items)
  | map entries => return .map (← mapToNode entries)
  | record fields => return .map (← recordToNode fields)
  | bareVariant name => .ok (.string name)
  | variant name payload => return .map [(name, ← payload.toNode)]

/-- Nodes of the items of a sequence. -/
def seqToNode : List NativeValue → Except ToNodeError (List Node)
  | [] => .ok []
  | v :: rest => return (← v.toNode) :: (← seqToNode rest)

/-- Entries of a map: each key's text, then its value's node. -/
def mapToNode : List (NativeValue × NativeValue) → Except ToNodeError (List (String × Node))
  | [] => .ok []
  | (k, v) :: rest => do
    let key ← keyText (← k.toNode)
    let value ← v.toNode
    return (key, value) :: (← mapToNode rest)

/-- Entries of a record. -/
def recordToNode : List (String × NativeValue) → Except ToNodeError (List (String × Node))
  | [] => .ok []
  | (k, v) :: rest => return (k, ← v.toNode) :: (← recordToNode rest)

end

mutual

/-- The value that a JSON document stands for: objects are maps with text keys. -/
def ofJson : Json → NativeValue
  | .null => unit
  | .bool b => bool b
  | .int i => int i
  | .float x => float x
  | .string s => text s
  | .array items => seq (ofJsonList items)
  | .object entries => map (ofJsonEntries entries)

/-- `ofJson` of each item. -/
def ofJsonList : List Json → List NativeValue
  | [] => []
  | j :: rest => ofJson j :: ofJsonList rest

/-- `ofJson` of each entry, keys as text. -/
def ofJsonEntries : List (String × Json) → List (NativeValue × NativeValue)
  | [] => []
  | (k, j) :: rest => (text k, ofJson j) :: ofJsonEntries rest

end

/-- The text of a map key in a JSON object: text, a bare variant's name, an integer's or a
boolean's spelling; other keys have none. -/
def jsonKey? : NativeValue → Option String
  | text s => some s
  | bareVariant n => some n
  | int i => some (toString i)
  | bool b => some (if b then "true" else "false")
  | _ => none

mutual

/-- The JSON value a JSON serializer writes: units are null, a float that is not finite is
null, bytes are arrays of numbers, maps and records are objects (a repeated key keeps its
first place and its last value), a bare variant is its name and a variant with a payload
an object of one entry. A map key without a text has no JSON form. -/
def toJson : NativeValue → Except String Json
  | unit => .ok .null
  | bool b => .ok (.bool b)
  | int i => .ok (.int i)
  | float x => .ok (if x.isFinite then .float x else .null)
  | text s => .ok (.string s)
  | bytes bs => .ok (.array (bs.map fun b => .int b.toNat))
  | seq items => return .array (← toJsonList items)
  | map entries => return .object (Json.collapseEntries (← toJsonEntries entries))
  | record fields => return .object (Json.collapseEntries (← toJsonFields fields))
  | bareVariant name => .ok (.string name)
  | variant name payload => return .object [(name, ← payload.toJson)]

/-- `toJson` of each item. -/
def toJsonList : List NativeValue → Except String (List Json)
  | [] => .ok []
  | v :: rest => return (← v.toJson) :: (← toJsonList rest)

/-- `toJson` of each entry, keys as text. -/
def toJsonEntries : List (NativeValue × NativeValue) → Except String (List (String × Json))
  | [] => .ok []
  | (k, v) :: rest => do
    let some key := jsonKey? k | .error "key must be a string"
    return (key, ← v.toJson) :: (← toJsonEntries rest)

/-- `toJson` of each field. -/
def toJsonFields : List (String × NativeValue) → Except String (List (String × Json))
  | [] => .ok []
  | (k, v) :: rest => return (k, ← v.toJson) :: (← toJsonFields rest)

end

end NativeValue

end Ipld
