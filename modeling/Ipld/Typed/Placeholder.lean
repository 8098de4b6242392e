import Ipld.Typed.Value
import Ipld.Bindings
import Ipld.Json.Decode
import Ipld.Codec.JsonForm
import Ipld.Codegen.Naming

/-!
# Placeholders of minimal bindings

Minimal bindings give every declared type a placeholder whose conversions a generic
serializer derives, and this module says what those derived conversions do.

* `placeholderOfJson` reads a placeholder from a JSON value, the way a derived deserializer
  reads an in-memory JSON tree, and gives the value as the serializer then sees it. Scalars,
  lists and maps are transparent; a struct is an object by field name (unknown keys are
  skipped, the first missing required field in declaration order fails) or an array in
  field order; a union is an object of one entry from a member type name to its value; an
  enum is a member name. A struct field that is optional may be absent and is left out when
  absent or, unless it is also nullable, when null; a nullable one is null when absent.
* A failure names the value it arose in by its path, as the bindings report it.
* `Prototype.decodePlaceholder` reads a placeholder from a representation: its shape, then
  the shape's plain JSON value; `Prototype.placeholderTrip` takes a placeholder from JSON to
  its representation and back.
-/

namespace Ipld.Typed

open Schema

/-- How a failure names a JSON value. -/
def unexpectedOf : Json → Json.Unexpected
  | .null => .null
  | .bool b => .bool b
  | .int i => (numberOfInt i).found
  | .float x => .float x
  | .string s => .str s
  | .array _ => .seq
  | .object _ => .map
where
  /-- A JSON integer as a deserializer holds it: unsigned or signed in 64 bits, or else
  the nearest float. -/
  numberOfInt (i : Int) : Json.Number :=
    if 0 ≤ i ∧ i < Int.pow 2 64 then .unsigned i.toNat
    else if -Int.pow 2 63 ≤ i ∧ i < 0 then .signed i
    else .float (Binary64.ofInt i)

/-- The path of an item. -/
def atIndex (path : Json.Path) (i : Nat) : Json.Path := path ++ [.index i]

/-- The path of the value under a key, a field or a variant. -/
def atKey (path : Json.Path) (k : String) : Json.Path := path ++ [.key k]

/-- A failure at a path. -/
def failAt {α : Type} (path : Json.Path) (p : Json.Problem) : Except Json.Failure α :=
  .error ⟨p, none, some path⟩

/-- A JSON value of the wrong type. -/
def mismatch {α : Type} (path : Json.Path) (j : Json) (expected : String) :
    Except Json.Failure α :=
  failAt path (.invalidType (unexpectedOf j) expected)

/-- A signed 64-bit integer from a JSON number. -/
def signed64 (path : Json.Path) (j : Json) : Except Json.Failure NativeValue :=
  match j with
  | .int i =>
    match unexpectedOf.numberOfInt i with
    | .unsigned n =>
      if n < Nat.pow 2 63 then .ok (.int n) else failAt path (.invalidValue (.unsigned n) "i64")
    | .signed s => .ok (.int s)
    | .float x => mismatch path (.float x) "i64"
  | j => mismatch path j "i64"

/-- A byte from a JSON number. -/
def byteOfJson (path : Json.Path) (j : Json) : Except Json.Failure NativeValue :=
  match j with
  | .int i =>
    match unexpectedOf.numberOfInt i with
    | .unsigned n =>
      if n < 256 then .ok (.int n) else failAt path (.invalidValue (.unsigned n) "u8")
    | .signed s => failAt path (.invalidValue (.signed s) "u8")
    | .float x => mismatch path (.float x) "u8"
  | j => mismatch path j "u8"

/-- A float from a JSON number; an integer becomes the nearest float. -/
def floatOfJson (path : Json.Path) (j : Json) : Except Json.Failure NativeValue :=
  match j with
  | .int i => .ok (.float (Binary64.ofInt i))
  | .float x => .ok (.float x)
  | j => mismatch path j "f64"

/-- Add an entry to a map: a key already there keeps its place and takes the new value. -/
def insertEntry (entries : List (NativeValue × NativeValue)) (k v : NativeValue) :
    List (NativeValue × NativeValue) :=
  if entries.any (·.1 == k) then entries.map fun (k', v') => (k', if k' == k then v else v')
  else entries ++ [(k, v)]

/-- The `expected` text of a struct that must have `count` items. -/
def structWith (ident : String) (count : Nat) : String :=
  "struct " ++ ident ++ " with " ++ toString count ++ " element" ++
    (if count == 1 then "" else "s")

/-- The member of a union named by a member type name. -/
def unionMember? (members : List UnionMember) (name : String) : Option UnionMember :=
  members.find? (·.type == name)

mutual

/-- Read a placeholder of a shape from a JSON value at `path`. -/
def placeholderOfJson (ts : TypeSystem) : Nat → Json.Path → Shape → Json →
    Except Json.Failure NativeValue
  | 0, path, _, _ => failAt path (.custom "recursion limit exceeded")
  | fuel + 1, path, shape, j =>
    match shape, j with
    | .bool, .bool b => .ok (.bool b)
    | .bool, j => mismatch path j "a boolean"
    | .int, j => signed64 path j
    | .float, j => floatOfJson path j
    | .string, .string s => .ok (.text s)
    | .string, j => mismatch path j "a string"
    | .link, .string s => .ok (.text s)
    | .link, j => mismatch path j "a string"
    | .bytes, .array items =>
      (items.zipIdx.mapM fun (j, i) => byteOfJson (atIndex path i) j).map .seq
    | .bytes, j => mismatch path j "a sequence"
    | .option _, .null => .ok .unit
    | .option inner, j => placeholderOfJson ts fuel path inner j
    | .vec item, .array items =>
      (items.zipIdx.mapM fun (j, i) =>
        placeholderOfJson ts fuel (atIndex path i) item j).map .seq
    | .vec _, j => mismatch path j "a sequence"
    | .indexMap k v, .object entries =>
      (entries.foldlM (fun acc (key, j) => do
        let kv ← placeholderOfJson ts fuel (atKey path key) k (.string key)
        let vv ← placeholderOfJson ts fuel (atKey path key) v j
        pure (insertEntry acc kv vv)) []).map .map
    | .indexMap .., j => mismatch path j "a map"
    | .declared name, j =>
      match ts.get? name with
      | some t => declaredOfJson ts fuel path name t j
      | none => failAt path (.custom ("no type named " ++ name))

/-- Read the placeholder of a declared type from a JSON value at `path`. -/
def declaredOfJson (ts : TypeSystem) : Nat → Json.Path → String → SchemaType → Json →
    Except Json.Failure NativeValue
  | 0, path, _, _, _ => failAt path (.custom "recursion limit exceeded")
  | fuel + 1, path, name, t, j =>
    match t with
    | .bool => placeholderOfJson ts fuel path .bool j
    | .int => placeholderOfJson ts fuel path .int j
    | .float => placeholderOfJson ts fuel path .float j
    | .string => placeholderOfJson ts fuel path .string j
    | .bytes => placeholderOfJson ts fuel path .bytes j
    | .link _ => placeholderOfJson ts fuel path .link j
    | .list v n => placeholderOfJson ts fuel path (.vec (Shape.optionIf n (Shape.ofRef v))) j
    | .map k v n _ =>
      placeholderOfJson ts fuel path (.indexMap (Shape.ofName k) (Shape.optionIf n (Shape.ofRef v))) j
    | .struct fields _ =>
      match j with
      | .object entries => recordOfEntries ts fuel path fields entries
      | .array items => recordOfItems ts fuel path (Codegen.typeIdent name) fields items
      | j => mismatch path j ("struct " ++ Codegen.typeIdent name)
    | .union members _ =>
      let names := members.map (·.type)
      match j with
      | .object [(k, v)] =>
        match unionMember? members k with
        | some m => (placeholderOfJson ts fuel (atKey path k) (Shape.ofName m.type) v).map (.variant k)
        | none => failAt path (.unknownVariant k names)
      | .object _ => failAt path (.invalidValue .map "map with a single key")
      | .string s =>
        match unionMember? members s with
        | some _ => failAt (atKey path s) (.invalidType .unitVariant "newtype variant")
        | none => failAt path (.unknownVariant s names)
      | j => mismatch path j "string or map"
    | .enum members _ =>
      let names := members.map (·.name)
      match j with
      | .object [(k, v)] =>
        if names.contains k then
          match v with
          | .null => .ok (.bareVariant k)
          | v => mismatch (atKey path k) v "unit"
        else failAt path (.unknownVariant k names)
      | .object _ => failAt path (.invalidValue .map "map with a single key")
      | .string s => if names.contains s then .ok (.bareVariant s) else failAt path (.unknownVariant s names)
      | j => mismatch path j "string or map"

/-- A field that is present: its value, or `none` when it is left out. -/
def fieldOfJson (ts : TypeSystem) : Nat → Json.Path → StructField → Json →
    Except Json.Failure (Option NativeValue)
  | 0, path, _, _ => failAt path (.custom "recursion limit exceeded")
  | fuel + 1, path, f, j =>
    match j with
    | .null =>
      if f.optional && !f.nullable then .ok none
      else if f.optional || f.nullable then .ok (some .unit)
      else (placeholderOfJson ts fuel path (Shape.ofRef f.type) .null).map some
    | j => (placeholderOfJson ts fuel path (Shape.ofRef f.type) j).map some

/-- A struct from an object: each known key read in turn, then each field in order. -/
def recordOfEntries (ts : TypeSystem) : Nat → Json.Path → List StructField →
    List (String × Json) → Except Json.Failure NativeValue
  | 0, path, _, _ => failAt path (.custom "recursion limit exceeded")
  | fuel + 1, path, fields, entries => do
    let read ← entries.foldlM (fun (acc : List (String × Option NativeValue)) (k, j) =>
      match fields.find? (·.name == k) with
      | none => pure acc
      | some f =>
        if acc.any (·.1 == k) then failAt path (.duplicateField k)
        else do
          let v ← fieldOfJson ts fuel (atKey path k) f j
          pure (acc ++ [(k, v)])) []
    let values ← fields.mapM fun f =>
      match read.lookup f.name with
      | some v => pure (v.map (f.name, ·))
      | none =>
        if f.optional then pure none
        else if f.nullable then pure (some (f.name, .unit))
        else failAt path (.missingField f.name)
    pure (.record values.reduceOption)

/-- A struct from an array: the items in field order; a field with a default may be
missing, and no items may be left over. -/
def recordOfItems (ts : TypeSystem) : Nat → Json.Path → String → List StructField →
    List Json → Except Json.Failure NativeValue
  | 0, path, _, _, _ => failAt path (.custom "recursion limit exceeded")
  | fuel + 1, path, ident, fields, items => do
    let values ← fields.zipIdx.mapM fun (f, i) =>
      match items[i]? with
      | some j => (fieldOfJson ts fuel (atIndex path i) f j).map fun v => v.map (f.name, ·)
      | none =>
        if f.optional then pure none
        else failAt path (.invalidLength i (structWith ident fields.length))
    if fields.length < items.length then
      failAt path (.invalidLength items.length "fewer elements in array")
    else pure (.record values.reduceOption)

end

/-- Fuel for reading a JSON value of the given weight: more than every read takes. -/
def placeholderFuel (ts : TypeSystem) (weight : Nat) : Nat := (weight + 2) * (ts.size + 2) * 4

/-- Read the placeholder of a declared type from a JSON value; objects hold each key once. -/
def placeholderOf (ts : TypeSystem) (name : String) (j : Json) :
    Except Json.Failure NativeValue :=
  let j := j.collapse
  placeholderOfJson ts (placeholderFuel ts j.weight) [] (.declared name) j

/-- Why a placeholder could not be taken to its representation and back. -/
inductive PlaceholderError where
  /-- The JSON value is not a placeholder of the type. -/
  | json (message : String)
  /-- Binding the placeholder failed. -/
  | bind (e : BindError)
  deriving Inhabited

/-- The node of a JSON value that a serializer writes for a placeholder. -/
def placeholderNode (v : NativeValue) : Except PlaceholderError Node :=
  match v.toJson with
  | .ok j => .ok (Node.ofJson j)
  | .error m => .error (.json m)

end Ipld.Typed

namespace Ipld.Prototype

open Typed

/-- Read the placeholder of the type from a representation: the shape of the
representation, then the placeholder from the shape's plain JSON value. -/
def decodePlaceholder (p : Prototype) (n : Node) : Except BindError NativeValue := do
  let shape ← p.decodeShape n
  match placeholderOf p.types p.name shape.toValue with
  | .ok v => .ok v
  | .error e => .error (.deserialize p.name e.message)

/-- Take a placeholder, read from JSON, to its representation and back: the representation,
and the node of the placeholder read back from it. -/
def placeholderTrip (p : Prototype) (j : Json) : Except PlaceholderError (Node × Node) := do
  let v ← match placeholderOf p.types p.name j with
    | .ok v => pure v
    | .error e => throw (.json e.problem.message)
  let node ← (p.encode v).mapError .bind
  let back ← (p.decodePlaceholder node).mapError .bind
  pure (node, ← placeholderNode back)

/-- The node of the placeholder read from a representation. -/
def placeholderView (p : Prototype) (n : Node) : Except PlaceholderError Node := do
  placeholderNode (← (p.decodePlaceholder n).mapError .bind)

end Ipld.Prototype
