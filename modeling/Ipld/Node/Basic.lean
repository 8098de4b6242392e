import Ipld.Binary64

/-!
# The data model

A `Node` is a value of the data model: null, a boolean, a 64-bit integer, a binary64
float, a string, a byte string, a link (carried as the text of its content identifier),
a list, or a map. Map entries keep the order they were built in, and a key may repeat:
a document that has not been validated yet is written out exactly as it stands.

`Kind` names the nine kinds, in the order `null bool int float string bytes list map
link`, which is also the order in which kind-by-kind sweeps visit them.
-/

namespace Ipld

/-- The kinds of the data model. -/
inductive Kind
  | null
  | bool
  | int
  | float
  | string
  | bytes
  | list
  | map
  | link
  deriving DecidableEq, Inhabited, Repr

namespace Kind

/-- The lowercase name of a kind. -/
def name : Kind → String
  | null => "null"
  | bool => "bool"
  | int => "int"
  | float => "float"
  | string => "string"
  | bytes => "bytes"
  | list => "list"
  | map => "map"
  | link => "link"

/-- All kinds, in their canonical order. -/
def all : List Kind := [null, bool, int, float, string, bytes, list, map, link]

/-- The kind with the given name. -/
def ofName? (s : String) : Option Kind := all.find? (·.name == s)

end Kind

/-- A value of the data model. Integers stay within the signed 64-bit range. -/
inductive Node
  | null
  | bool (b : Bool)
  | int (i : Int)
  | float (x : Binary64)
  | string (s : String)
  | bytes (b : List UInt8)
  | link (cid : String)
  | list (items : List Node)
  | map (entries : List (String × Node))
  deriving Inhabited

namespace Node

mutual

/-- Structural equality of values. -/
def beq : Node → Node → Bool
  | null, null => true
  | bool a, bool b => a == b
  | int a, int b => a == b
  | float a, float b => a == b
  | string a, string b => a == b
  | bytes a, bytes b => a == b
  | link a, link b => a == b
  | list a, list b => beqList a b
  | map a, map b => beqEntries a b
  | _, _ => false

/-- `beq` item by item. -/
def beqList : List Node → List Node → Bool
  | [], [] => true
  | a :: as, b :: bs => beq a b && beqList as bs
  | _, _ => false

/-- `beq` entry by entry, keys included. -/
def beqEntries : List (String × Node) → List (String × Node) → Bool
  | [], [] => true
  | (k, a) :: as, (k', b) :: bs => k == k' && beq a b && beqEntries as bs
  | _, _ => false

end

instance : BEq Node := ⟨beq⟩

/-- The kind of a value. -/
def kind : Node → Kind
  | null => .null
  | bool _ => .bool
  | int _ => .int
  | float _ => .float
  | string _ => .string
  | bytes _ => .bytes
  | link _ => .link
  | list _ => .list
  | map _ => .map

/-- The first entry under `key`, if this is a map. -/
def get (n : Node) (key : String) : Option Node :=
  match n with
  | map entries => (entries.find? (·.1 == key)).map (·.2)
  | _ => none

/-- The text, if this is a string. -/
def asString? : Node → Option String
  | string s => some s
  | _ => none

mutual

/-- The first value of kind `k` in a depth-first walk that visits a value before its
items or entries. -/
def findKind (k : Kind) (n : Node) : Option Node :=
  if n.kind == k then some n
  else match n with
    | list items => findKindList k items
    | map entries => findKindEntries k entries
    | _ => none

/-- `findKind` over a list of items, first hit wins. -/
def findKindList (k : Kind) : List Node → Option Node
  | [] => none
  | n :: rest => match findKind k n with
    | some hit => some hit
    | none => findKindList k rest

/-- `findKind` over the values of map entries, first hit wins. -/
def findKindEntries (k : Kind) : List (String × Node) → Option Node
  | [] => none
  | (_, n) :: rest => match findKind k n with
    | some hit => some hit
    | none => findKindEntries k rest

end

/-- Whether a value of kind `k` occurs anywhere in the tree. -/
def contains (k : Kind) (n : Node) : Bool := (n.findKind k).isSome

mutual

/-- Reorder the entries of every map in the tree by key with the order `le`, keeping the
relative order of entries whose keys `le` does not separate. -/
def sortMaps (le : String → String → Bool) : Node → Node
  | list items => list (sortMapsList le items)
  | map entries => map ((sortMapsEntries le entries).mergeSort (fun a b => le a.1 b.1))
  | n => n

/-- `sortMaps` on each item of a list. -/
def sortMapsList (le : String → String → Bool) : List Node → List Node
  | [] => []
  | n :: rest => sortMaps le n :: sortMapsList le rest

/-- `sortMaps` on each value of a list of entries. -/
def sortMapsEntries (le : String → String → Bool) : List (String × Node) → List (String × Node)
  | [] => []
  | (k, v) :: rest => (k, sortMaps le v) :: sortMapsEntries le rest

end

mutual

/-- The first non-finite float in a depth-first walk. -/
def firstNonFinite : Node → Option Binary64
  | float x => if x.isFinite then none else some x
  | list items => firstNonFiniteList items
  | map entries => firstNonFiniteEntries entries
  | _ => none

/-- `firstNonFinite` over a list of items. -/
def firstNonFiniteList : List Node → Option Binary64
  | [] => none
  | n :: rest => match firstNonFinite n with
    | some x => some x
    | none => firstNonFiniteList rest

/-- `firstNonFinite` over the values of map entries. -/
def firstNonFiniteEntries : List (String × Node) → Option Binary64
  | [] => none
  | (_, n) :: rest => match firstNonFinite n with
    | some x => some x
    | none => firstNonFiniteEntries rest

end

mutual

/-- A size of a tree that also counts the characters of its texts: readers that take
strings apart make progress in it. -/
def weight : Node → Nat
  | string s => s.length + 1
  | link c => c.length + 1
  | list items => weightList items + 1
  | map entries => weightEntries entries + 1
  | _ => 1

/-- The weight of a list of items. -/
def weightList : List Node → Nat
  | [] => 0
  | n :: rest => weight n + weightList rest

/-- The weight of a list of entries, keys included. -/
def weightEntries : List (String × Node) → Nat
  | [] => 0
  | (k, n) :: rest => k.length + weight n + weightEntries rest

end

end Node

/-- Keys in the order of their UTF-8 bytes, which for valid text is the order of code
points. -/
def bytewiseLe (a b : String) : Bool := decide (a ≤ b)

/-- Keys ordered by UTF-8 length first, then bytewise. -/
def lengthFirstLe (a b : String) : Bool :=
  a.utf8ByteSize < b.utf8ByteSize || (a.utf8ByteSize == b.utf8ByteSize && bytewiseLe a b)

end Ipld
