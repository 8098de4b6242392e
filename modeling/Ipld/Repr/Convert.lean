import Ipld.Repr.Text
import Ipld.Schema.TypeSystem

/-!
# Shapes and representations

A value of a compiled type has two trees. Its *shape* is the plain tree of the value: a
struct is a map from field names to values, a union is a map with one entry from the member
type's name to the member's value, an enum is its member name, bytes are a list of integers
or bytes, a link is its text. Its *representation* is the tree the type's strategies write:
a tuple struct is a list, a stringjoin struct a string, a keyed union a map from the
discriminant, an int enum an integer, and so on.

`TypeSystem.toRepr` writes the representation of a shape and `TypeSystem.fromRepr` reads
a representation back into a shape. Both are checked against the type and fail with a
`DecodeError` saying where the tree does not fit. A name the system does not know is read
and written as a link.

Writing descends into the parts of the shape, so its depth is at most the shape's weight.
Reading can also descend into a text taken from a string (a field of a stringjoin struct, a
member after its prefix); each such text is shorter than the string it comes from, except
along chains of one-field joined structs, which the recursion check keeps shorter than the
number of types. The reading depth is thus bounded by the node's weight times the number
of types, up to a constant.
-/

namespace Ipld.Repr

open Ipld.Schema

/-- What a reference stands for: a type of the system, or a list, map or link. -/
inductive Target where
  | named (t : SchemaType)
  | list (value : Ref) (nullable : Bool)
  | map (key : String) (value : Ref) (nullable : Bool)
  | link

/-- What a reference stands for; a name missing from the system stands for a link. -/
def target (ts : TypeSystem) : Ref → Target
  | .named n =>
    match ts.get? n with
    | some t => .named t
    | none => .link
  | .list v n => .list v n
  | .map k v n => .map k v n
  | .link _ => .link

/-! ## Checks on single nodes -/

/-- The node itself, if it has kind `k`. -/
def expectKind (k : Kind) (n : Node) : Except DecodeError Node :=
  if n.kind = k then .ok n else wrongKind k n

/-- The text of a string node. -/
def expectText : Node → Except DecodeError String
  | .string s => .ok s
  | n => wrongKind .string n

/-- The integer of an int node. -/
def expectInt : Node → Except DecodeError Int
  | .int i => .ok i
  | n => wrongKind .int n

/-- The items of a list node. -/
def expectItems : Node → Except DecodeError (List Node)
  | .list items => .ok items
  | n => wrongKind .list n

/-- The items of a list node of length `len`. -/
def expectItemsOf (len : Nat) (n : Node) : Except DecodeError (List Node) := do
  let items ← expectItems n
  if items.length = len then pure items else throw (.listLength len items.length)

/-- The entries of a map node. -/
def expectEntries : Node → Except DecodeError (List (String × Node))
  | .map entries => .ok entries
  | n => wrongKind .map n

/-- The entries of a list of `[key, value]` pairs. -/
def pairEntries (n : Node) : Except DecodeError (List (String × Node)) := do
  (← expectItems n).mapM fun pair => do
    match ← expectItemsOf 2 pair with
    | [k, v] => return (← expectText k, v)
    | _ => throw (.listLength 2 0)

/-- A list of `[key, value]` pairs. -/
def listOfPairs (entries : List (String × Node)) : Node :=
  .list (entries.map fun (k, v) => .list [.string k, v])

/-- The value of the first entry under `key`. -/
def lookupEntry {β : Type} (entries : List (String × β)) (key : String) : Option β :=
  (entries.find? (·.1 == key)).map (·.2)

/-- The value of the first entry under `key`, which must be there. -/
def lookupRequired {β : Type} (entries : List (String × β)) (key : String) : Except DecodeError β :=
  match lookupEntry entries key with
  | some v => .ok v
  | none => .error (.missingField key)

/-- Fails on the first entry whose key is not one of `known`. -/
def rejectUnknown {β : Type} (entries : List (String × β)) (known : List String) :
    Except DecodeError Unit :=
  match entries.find? (fun e => !known.contains e.1) with
  | some (k, _) => .error (.unexpectedField k)
  | none => .ok ()

/-- The one entry of a union's shape. -/
def singleEntry : Node → Except DecodeError (String × Node)
  | .map [(k, v)] => .ok (k, v)
  | .map entries => .error (.notSingleEntry entries.length)
  | n => wrongKind .map n

/-- Texts of the values of entries, for a `stringpairs` representation. -/
def textPairs (entries : List (String × Node)) : Except DecodeError (List (String × String)) :=
  entries.mapM fun (k, v) => return (k, ← embeddedText v)

/-- A link from its shape: a link, or its text. -/
def linkOf : Node → Except DecodeError Node
  | .string cid => .ok (.link cid)
  | .link cid => .ok (.link cid)
  | n => wrongKind .link n

/-- The shape of a link: its text. -/
def linkText : Node → Except DecodeError Node
  | .link cid => .ok (.string cid)
  | .string s => .ok (.string s)
  | n => wrongKind .link n

/-- One byte from an integer node. -/
def byteOf : Node → Except DecodeError UInt8
  | .int i => if 0 ≤ i ∧ i < 256 then .ok i.toNat.toUInt8 else .error (.notAByte i)
  | n => wrongKind .int n

/-- Bytes from their shape: bytes, or a list of integers `0..255`. -/
def bytesOf : Node → Except DecodeError Node
  | .bytes bs => .ok (.bytes bs)
  | .list items => return .bytes (← items.mapM byteOf)
  | n => wrongKind .bytes n

/-! ## Keys and enums -/

/-- A map key from its shape: an enum key type's member name becomes its value. -/
def keyToRepr (ts : TypeSystem) (keyType k : String) : Except DecodeError String :=
  match ts.get? keyType with
  | some (.enum members _) =>
    match members.find? (·.name == k) with
    | some m => .ok m.value
    | none => .error (.unknownDiscriminant k)
  | _ => .ok k

/-- A map key from its representation: an enum key type's value becomes the member name. -/
def keyFromRepr (ts : TypeSystem) (keyType k : String) : Except DecodeError String :=
  match ts.get? keyType with
  | some (.enum members _) =>
    match members.find? (·.value == k) with
    | some m => .ok m.name
    | none => .error (.unknownDiscriminant k)
  | _ => .ok k

/-- An enum's representation from its member name. -/
def enumToRepr (members : List EnumValue) (strategy : EnumStrategy) (shape : Node) :
    Except DecodeError Node := do
  let name ← expectText shape
  let some m := members.find? (·.name == name) | throw (.unknownDiscriminant name)
  match strategy with
  | .string => pure (.string m.value)
  | .int => return .int (← readInt m.value)

/-- An enum's member name from its representation. -/
def enumFromRepr (members : List EnumValue) (strategy : EnumStrategy) (node : Node) :
    Except DecodeError Node :=
  match strategy with
  | .string => do
    let s ← expectText node
    let some m := members.find? (·.value == s) | throw (.unknownDiscriminant s)
    pure (.string m.name)
  | .int => do
    let i ← expectInt node
    let some m := members.find? (fun m => Decimal.readInt64 m.value == some i)
      | throw (.unknownDiscriminant (toString i))
    pure (.string m.name)

/-! ## Writing representations -/

/-- A struct's representation from its shape, writing field values with `go`. Absent
optional fields are left out; an absent nullable field is null. -/
def structToRepr (go : Ref → Node → Except DecodeError Node) (fields : List StructField)
    (strategy : StructStrategy) (shape : Node) : Except DecodeError Node := do
  let entries ← expectEntries shape
  if let some (k, _) := entries.find? (fun e => !fields.any (·.name == e.1)) then
    throw (.unexpectedField k)
  let values ← fields.filterMapM fun f =>
    match lookupEntry entries f.name with
    | none =>
      if f.optional then pure none
      else if f.nullable then pure (some (f.name, .null))
      else throw (.missingField f.name)
    | some .null =>
      if f.nullable then pure (some (f.name, .null))
      else if f.optional then pure none
      else throw (.notNullable f.name)
    | some v => return some (f.name, ← inPart (.field f.name) (go f.type v))
  match strategy with
  | .map => pure (.map values)
  | .tuple => pure (.list (values.map (·.2)))
  | .listpairs => pure (listOfPairs values)
  | .stringjoin join => return .string (join.intercalate (← values.mapM fun e => embeddedText e.2))
  | .stringpairs inner entry => return .string (joinPairs (← textPairs values) inner entry)

/-- A union's representation from its shape `{MemberType: value}`, writing the value
with `go`. -/
def unionToRepr (go : Ref → Node → Except DecodeError Node) (members : List UnionMember)
    (strategy : UnionStrategy) (shape : Node) : Except DecodeError Node := do
  let (name, inner) ← singleEntry shape
  let some m := members.find? (·.type == name) | throw (.unknownDiscriminant name)
  let value ← inPart (.member m.type) (go (.named m.type) inner)
  match strategy with
  | .keyed => pure (.map [(m.discriminant, value)])
  | .kinded => pure value
  | .inline key =>
    match value with
    | .map entries => pure (.map ((key, .string m.discriminant) :: entries))
    | other => wrongKind .map other
  | .envelope key content => pure (.map [(key, .string m.discriminant), (content, value)])
  | .stringPrefix => return .string (m.discriminant ++ (← embeddedText value))

/-- The representation of a shape, descending at most `fuel` levels. -/
def toReprWithin (ts : TypeSystem) : Nat → Ref → Node → Except DecodeError Node
  | 0, _, _ => .error .exhausted
  | fuel + 1, r, shape =>
    let go := toReprWithin ts fuel
    let value (v : Ref) (nullable : Bool) (n : Node) : Except DecodeError Node :=
      if nullable && n == .null then pure .null else go v n
    let items (v : Ref) (nullable : Bool) (n : Node) : Except DecodeError Node := do
      let xs ← expectItems n
      return .list (← xs.zipIdx.mapM fun (x, i) => inPart (.index i) (value v nullable x))
    let entries (key : String) (v : Ref) (nullable : Bool) (n : Node) :
        Except DecodeError (List (String × Node)) := do
      (← expectEntries n).mapM fun (k, x) => do
        let y ← inPart (.key k) (value v nullable x)
        return (← keyToRepr ts key k, y)
    match target ts r with
    | .link => linkOf shape
    | .list v nullable => items v nullable shape
    | .map k v nullable => return .map (← entries k v nullable shape)
    | .named t =>
      match t with
      | .bool => expectKind .bool shape
      | .int => expectKind .int shape
      | .string => expectKind .string shape
      | .float =>
        match shape with
        | .int i => return .float (← intToFloat i)
        | other => expectKind .float other
      | .bytes => bytesOf shape
      | .link _ => linkOf shape
      | .list v nullable => items v nullable shape
      | .map k v nullable strategy => do
        let es ← entries k v nullable shape
        match strategy with
        | .map => pure (.map es)
        | .stringpairs inner entry => return .string (joinPairs (← textPairs es) inner entry)
        | .listpairs => pure (listOfPairs es)
      | .struct fields strategy => structToRepr go fields strategy shape
      | .union members strategy => unionToRepr go members strategy shape
      | .enum members strategy => enumToRepr members strategy shape

/-! ## Reading representations -/

/-- Read a value embedded in a string: integers, floats and booleans from their text, then
the result as a representation of `r` with `go`. -/
def fromText (ts : TypeSystem) (go : Ref → Node → Except DecodeError Node) (r : Ref) (s : String) :
    Except DecodeError Node := do
  let node ← match target ts r with
    | .named .int | .named (.enum _ .int) => pure (.int (← readInt s))
    | .named .float => pure (.float (← readFloat s))
    | .named .bool => pure (.bool (← readBool s))
    | _ => pure (.string s)
  go r node

/-- A struct's shape from its representation, reading field values with `go` and values
embedded in strings with `goText`. -/
def structFromRepr (go : Ref → Node → Except DecodeError Node)
    (goText : Ref → String → Except DecodeError Node) (fields : List StructField)
    (strategy : StructStrategy) (node : Node) : Except DecodeError Node := do
  let known := fields.map (·.name)
  let decodeField (f : StructField) (v : Node) : Except DecodeError Node :=
    inPart (.field f.name) (if f.nullable && v == .null then pure .null else go f.type v)
  let decodeText (f : StructField) (s : String) : Except DecodeError Node :=
    inPart (.field f.name) (goText f.type s)
  match strategy with
  | .map | .listpairs => do
    let entries ← if strategy matches .map then expectEntries node else pairEntries node
    rejectUnknown entries known
    let out ← fields.filterMapM fun f =>
      match lookupEntry entries f.name with
      | some v => return some (f.name, ← decodeField f v)
      | none => if f.optional then pure none else throw (.missingField f.name)
    pure (.map out)
  | .tuple => do
    let items ← expectItemsOf fields.length node
    return .map (← (fields.zip items).mapM fun (f, v) => return (f.name, ← decodeField f v))
  | .stringjoin join => do
    let s ← expectText node
    if fields.isEmpty then return .map []
    let parts ← splitJoin s join fields.length
    return .map (← (fields.zip parts).mapM fun (f, p) => return (f.name, ← decodeText f p))
  | .stringpairs inner entry => do
    let pairs ← splitPairs (← expectText node) inner entry
    rejectUnknown pairs known
    let out ← fields.filterMapM fun f =>
      match lookupEntry pairs f.name with
      | some v => return some (f.name, ← decodeText f v)
      | none => if f.optional then pure none else throw (.missingField f.name)
    pure (.map out)

/-- The text after `pre`, if `s` starts with it. -/
def dropPrefix? (s pre : String) : Option String :=
  if pre.toList.isPrefixOf s.toList then some (String.ofList (s.toList.drop pre.length)) else none

/-- A union's shape `{MemberType: value}` from its representation. -/
def unionFromRepr (go : Ref → Node → Except DecodeError Node)
    (goText : Ref → String → Except DecodeError Node) (members : List UnionMember)
    (strategy : UnionStrategy) (node : Node) : Except DecodeError Node := do
  let byDiscriminant (d : String) : Except DecodeError UnionMember :=
    match members.find? (·.discriminant == d) with
    | some m => .ok m
    | none => .error (.unknownDiscriminant d)
  let (m, value) ← match strategy with
    | .keyed => do
      let entries ← expectEntries node
      match entries with
      | [(k, v)] =>
        let m ← byDiscriminant k
        pure (m, ← go (.named m.type) v)
      | _ => throw (.notSingleEntry entries.length)
    | .kinded => do
      let m ← byDiscriminant node.kind.name
      pure (m, ← go (.named m.type) node)
    | .inline key => do
      let entries ← expectEntries node
      let m ← byDiscriminant (← expectText (← lookupRequired entries key))
      pure (m, ← go (.named m.type) (.map (entries.filter (·.1 != key))))
    | .envelope key content => do
      let entries ← expectEntries node
      rejectUnknown entries [key, content]
      let m ← byDiscriminant (← expectText (← lookupRequired entries key))
      pure (m, ← go (.named m.type) (← lookupRequired entries content))
    | .stringPrefix => do
      let s ← expectText node
      match members.findSome? (fun m => (dropPrefix? s m.discriminant).map (m, ·)) with
      | some (m, rest) => pure (m, ← goText (.named m.type) rest)
      | none => throw (.unknownDiscriminant s)
  pure (.map [(m.type, value)])

/-- The shape of a representation, descending at most `fuel` levels. -/
def fromReprWithin (ts : TypeSystem) : Nat → Ref → Node → Except DecodeError Node
  | 0, _, _ => .error .exhausted
  | fuel + 1, r, node =>
    let go := fromReprWithin ts fuel
    let goText := fromText ts go
    let value (v : Ref) (nullable : Bool) (n : Node) : Except DecodeError Node :=
      if nullable && n == .null then pure .null else go v n
    let items (v : Ref) (nullable : Bool) (n : Node) : Except DecodeError Node := do
      let xs ← expectItems n
      return .list (← xs.zipIdx.mapM fun (x, i) => inPart (.index i) (value v nullable x))
    let entries (key : String) (v : Ref) (nullable : Bool) (es : List (String × Node)) :
        Except DecodeError Node := do
      return .map (← es.mapM fun (k, x) => do
        let y ← inPart (.key k) (value v nullable x)
        return (← keyFromRepr ts key k, y))
    match target ts r with
    | .link => linkText node
    | .list v nullable => items v nullable node
    | .map k v nullable => do entries k v nullable (← expectEntries node)
    | .named t =>
      match t with
      | .bool => expectKind .bool node
      | .int => expectKind .int node
      | .string => expectKind .string node
      | .float =>
        match node with
        | .int i => pure (.int i)
        | other => expectKind .float other
      | .bytes =>
        match node with
        | .bytes bs => pure (.bytes bs)
        | other => wrongKind .bytes other
      | .link _ => linkText node
      | .list v nullable => items v nullable node
      | .map k v nullable strategy =>
        match strategy with
        | .map => do entries k v nullable (← expectEntries node)
        | .listpairs => do entries k v nullable (← pairEntries node)
        | .stringpairs inner entry => do
          let pairs ← splitPairs (← expectText node) inner entry
          return .map (← pairs.mapM fun (key, s) => do
            let y ← inPart (.key key) (goText v s)
            return (← keyFromRepr ts k key, y))
      | .struct fields strategy => structFromRepr go goText fields strategy node
      | .union members strategy => unionFromRepr go goText members strategy node
      | .enum members strategy => enumFromRepr members strategy node

end Ipld.Repr

namespace Ipld.Schema.TypeSystem

open Ipld.Repr

/-- The representation of a shape of `r`. -/
def toRepr (ts : TypeSystem) (r : Ref) (shape : Node) : Except DecodeError Node :=
  toReprWithin ts (shape.weight + 1) r shape

/-- The shape of a representation of `r`. -/
def fromRepr (ts : TypeSystem) (r : Ref) (node : Node) : Except DecodeError Node :=
  fromReprWithin ts (2 * (node.weight + 1) * (ts.size + 2)) r node

end Ipld.Schema.TypeSystem
