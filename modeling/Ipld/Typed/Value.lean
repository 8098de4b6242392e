import Ipld.Schema.TypeSystem

/-!
# Values of generated types

Full bindings give every schema type a Rust type of its own, and a value of such a type
is what `TypedValue` models: the scalars, `Option` (`none`, `some`), `Vec`, `IndexMap`
(keys kept unique, each where it was first inserted), a struct as the values of its fields
in order, a union as the index of its member and the member's value, an enum as the
index of its member, and a one-field wrapper around a value.

A `Shape` is the Rust type that a reference is spelled as, without the boxes: a value's
conversions are chosen by its shape, and a declared shape by the declared type.
-/

namespace Ipld.Typed

open Schema

/-- The Rust type of a reference, up to boxing. -/
inductive Shape where
  | bool
  | int
  | float
  | string
  | bytes
  | link
  /-- A declared type of the schema. -/
  | declared (name : String)
  /-- `Option<T>`: null, or an absent optional field. -/
  | option (inner : Shape)
  /-- `Vec<T>`. -/
  | vec (item : Shape)
  /-- `IndexMap<K, V>`. -/
  | indexMap (key value : Shape)
  deriving BEq, Inhabited, Repr

namespace Shape

/-- `Option<s>` when `wrap`. -/
def optionIf (wrap : Bool) (s : Shape) : Shape := if wrap then .option s else s

/-- The shape of a type name. -/
def ofName (n : String) : Shape :=
  match n with
  | "Bool" => .bool
  | "Int" => .int
  | "Float" => .float
  | "String" => .string
  | "Bytes" => .bytes
  | "Link" => .link
  | other => .declared other

/-- The shape of a reference. -/
def ofRef : Ref → Shape
  | .named n => ofName n
  | .list v n => .vec (optionIf n (ofRef v))
  | .map k v n => .indexMap (ofName k) (optionIf n (ofRef v))
  | .link _ => .link

/-- The shape of a struct field without the optional wrapper. -/
def ofFieldValue (f : StructField) : Shape := optionIf f.nullable (ofRef f.type)

/-- The shape of a struct field. -/
def ofField (f : StructField) : Shape := optionIf f.optional (ofFieldValue f)

end Shape

/-- A value of a generated type. -/
inductive TypedValue where
  | bool (b : Bool)
  | int (i : Int)
  | float (x : Binary64)
  | string (s : String)
  | bytes (bs : List UInt8)
  | link (cid : String)
  /-- `None`. -/
  | none
  /-- `Some(v)`. -/
  | some (v : TypedValue)
  /-- A `Vec`. -/
  | vec (items : List TypedValue)
  /-- An `IndexMap`, keys unique. -/
  | indexMap (entries : List (TypedValue × TypedValue))
  /-- A struct: its field values in order. -/
  | record (fields : List TypedValue)
  /-- A union: the member's index and its value. -/
  | variant (member : Nat) (value : TypedValue)
  /-- An enum: the member's index. -/
  | member (index : Nat)
  /-- A one-field wrapper. -/
  | wrapped (inner : TypedValue)
  deriving Inhabited

mutual

/-- Structural equality of values. -/
def TypedValue.beq : TypedValue → TypedValue → Bool
  | .bool a, .bool b => a == b
  | .int a, .int b => a == b
  | .float a, .float b => a == b
  | .string a, .string b => a == b
  | .bytes a, .bytes b => a == b
  | .link a, .link b => a == b
  | .none, .none => true
  | .some a, .some b => TypedValue.beq a b
  | .vec a, .vec b => TypedValue.beqList a b
  | .indexMap a, .indexMap b => TypedValue.beqEntries a b
  | .record a, .record b => TypedValue.beqList a b
  | .variant i a, .variant j b => i == j && TypedValue.beq a b
  | .member i, .member j => i == j
  | .wrapped a, .wrapped b => TypedValue.beq a b
  | _, _ => false

/-- `beq` item by item. -/
def TypedValue.beqList : List TypedValue → List TypedValue → Bool
  | [], [] => true
  | a :: as, b :: bs => TypedValue.beq a b && TypedValue.beqList as bs
  | _, _ => false

/-- `beq` entry by entry. -/
def TypedValue.beqEntries : List (TypedValue × TypedValue) → List (TypedValue × TypedValue) → Bool
  | [], [] => true
  | (a, b) :: as, (c, d) :: bs =>
    TypedValue.beq a c && TypedValue.beq b d && TypedValue.beqEntries as bs
  | _, _ => false

end

instance : BEq TypedValue := ⟨TypedValue.beq⟩

/-- Insert into an `IndexMap`: a key already there keeps its place and takes the new value;
a new key goes last. -/
def insertKeep (entries : List (TypedValue × TypedValue)) (k v : TypedValue) :
    List (TypedValue × TypedValue) :=
  if entries.any (·.1 == k) then entries.map fun (k', v') => (k', if k' == k then v else v')
  else entries ++ [(k, v)]

end Ipld.Typed
