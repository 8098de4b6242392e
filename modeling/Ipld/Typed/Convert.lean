import Ipld.Typed.Value
import Ipld.Repr.Text

/-!
# Conversions of generated types

What the conversions that full bindings generate do, for every shape:

* `fromNode` reads a value from its representation node and `toNode` writes it; a
  type represented as a string goes through its string form.
* `fromText` and `toText` read and write the string form of the types that have one:
  the scalars other than bytes and links, enums, string-joined and string-paired structs
  and maps, and string-prefixed unions.

Reading checks the kind of each node, wraps a failure inside a list item, map entry,
struct field or union member with that part, reads a float from an integer that a float
holds exactly, rejects unknown struct fields before it reads any field, and keeps the
last value of a repeated map key. A union member is chosen by the first discriminant that
matches; a string-prefixed union commits to the first prefix that matches.
-/

namespace Ipld.Typed

open Schema Ipld.Repr

/-- The text of a string node. -/
def expectText : Node → Except DecodeError String
  | .string s => .ok s
  | n => wrongKind .string n

/-- The entries of a map node. -/
def expectEntries : Node → Except DecodeError (List (String × Node))
  | .map es => .ok es
  | n => wrongKind .map n

/-- The items of a list node of exactly `n` items. -/
def expectItems (n : Nat) : Node → Except DecodeError (List Node)
  | .list items => if items.length == n then .ok items else .error (.listLength n items.length)
  | other => wrongKind .list other

/-- The entries of a list of `[key, value]` pairs. -/
def pairEntries : Node → Except DecodeError (List (String × Node))
  | .list items => items.mapM fun item => do
    match ← expectItems 2 item with
    | [k, v] => return (← expectText k, v)
    | _ => .error (.listLength 2 0)
  | n => wrongKind .list n

/-- The value of the first entry with a key. -/
def lookupFirst {α : Type} (entries : List (String × α)) (key : String) : Option α :=
  (entries.find? (·.1 == key)).map (·.2)

/-- The value of the first entry with a key, which must be there. -/
def lookupNeeded {α : Type} (entries : List (String × α)) (key : String) :
    Except DecodeError α :=
  match lookupFirst entries key with
  | some a => .ok a
  | none => .error (.missingField key)

/-- Fail at the first entry whose key is not known. -/
def rejectUnknownKeys {α : Type} (entries : List (String × α)) (known : List String) :
    Except DecodeError Unit :=
  match entries.find? fun (k, _) => !known.contains k with
  | some (k, _) => .error (.unexpectedField k)
  | none => .ok ()

/-- The index of the first union member with a discriminant. -/
def memberFor (members : List UnionMember) (d : String) : Option (Nat × UnionMember) :=
  (members.zipIdx.find? fun (m, _) => m.discriminant == d).map fun (m, i) => (i, m)

/-- The index of the first enum member whose value reads as the integer `i`. -/
def intMemberFor (members : List EnumValue) (i : Int) : Option Nat :=
  members.findIdx? fun m => Decimal.readInt64 m.value == some i

mutual

/-- Read a value of a shape from its representation node. -/
def fromNode (ts : TypeSystem) : Nat → Shape → Node → Except DecodeError TypedValue
  | 0, _, _ => .error .exhausted
  | fuel + 1, shape, node =>
    match shape, node with
    | .bool, .bool b => .ok (.bool b)
    | .bool, n => wrongKind .bool n
    | .int, .int i => .ok (.int i)
    | .int, n => wrongKind .int n
    | .float, .float x => .ok (.float x)
    | .float, .int i => (intToFloat i).map .float
    | .float, n => wrongKind .float n
    | .string, n => (expectText n).map .string
    | .bytes, .bytes bs => .ok (.bytes bs)
    | .bytes, n => wrongKind .bytes n
    | .link, .link c => .ok (.link c)
    | .link, n => wrongKind .link n
    | .option _, .null => .ok .none
    | .option inner, n => (fromNode ts fuel inner n).map .some
    | .vec item, .list items =>
      (items.zipIdx.mapM fun (n, i) => inPart (.index i) (fromNode ts fuel item n)).map .vec
    | .vec _, n => wrongKind .list n
    | .indexMap k v, .map entries =>
      (entries.foldlM (fun acc (key, n) => do
        let kv ← inPart (.key key) (fromText ts fuel k key)
        let vv ← inPart (.key key) (fromNode ts fuel v n)
        pure (insertKeep acc kv vv)) []).map .indexMap
    | .indexMap .., n => wrongKind .map n
    | .declared name, n =>
      match ts.get? name with
      | some t => declaredFromNode ts fuel name t n
      | none => .error .exhausted

/-- Read a value of a declared type from its representation node. -/
def declaredFromNode (ts : TypeSystem) : Nat → String → SchemaType → Node →
    Except DecodeError TypedValue
  | 0, _, _, _ => .error .exhausted
  | fuel + 1, name, t, node =>
    let viaText : Except DecodeError TypedValue := do
      fromText ts fuel (.declared name) (← expectText node)
    match t with
    | .bool => (fromNode ts fuel .bool node).map .wrapped
    | .int => (fromNode ts fuel .int node).map .wrapped
    | .float => (fromNode ts fuel .float node).map .wrapped
    | .string => (fromNode ts fuel .string node).map .wrapped
    | .bytes => (fromNode ts fuel .bytes node).map .wrapped
    | .link _ => (fromNode ts fuel .link node).map .wrapped
    | .list v n => (fromNode ts fuel (.vec (Shape.optionIf n (Shape.ofRef v))) node).map .wrapped
    | .map k v n strategy =>
      let valueShape := Shape.optionIf n (Shape.ofRef v)
      match strategy with
      | .map => (fromNode ts fuel (.indexMap (Shape.ofName k) valueShape) node).map .wrapped
      | .stringpairs .. => viaText
      | .listpairs => do
        let pairs ← pairEntries node
        let entries ← pairs.foldlM (fun acc (key, n) => do
          let kv ← fromText ts fuel (Shape.ofName k) key
          let vv ← fromNode ts fuel valueShape n
          pure (insertKeep acc kv vv)) []
        pure (.wrapped (.indexMap entries))
    | .struct fields strategy =>
      let byName (entries : List (String × Node)) : Except DecodeError TypedValue := do
        rejectUnknownKeys entries (fields.map (·.name))
        let values ← fields.mapM fun f =>
          if f.optional then
            match lookupFirst entries f.name with
            | none => pure .none
            | some n => inPart (.field f.name) ((fromNode ts fuel (Shape.ofFieldValue f) n).map .some)
          else do
            let n ← lookupNeeded entries f.name
            inPart (.field f.name) (fromNode ts fuel (Shape.ofField f) n)
        pure (.record values)
      match strategy with
      | .map => do byName (← expectEntries node)
      | .listpairs => do byName (← pairEntries node)
      | .tuple => do
        let items ← expectItems fields.length node
        let values ← (fields.zip items).mapM fun (f, n) =>
          inPart (.field f.name) (fromNode ts fuel (Shape.ofField f) n)
        pure (.record values)
      | .stringjoin _ | .stringpairs .. => viaText
    | .union members strategy =>
      let choose (d : String) (n : Node) : Except DecodeError TypedValue :=
        match memberFor members d with
        | some (i, m) =>
          (inPart (.variant m.type) (fromNode ts fuel (Shape.ofName m.type) n)).map (.variant i)
        | none => .error (.unknownDiscriminant d)
      match strategy with
      | .stringPrefix => viaText
      | .keyed => do
        match ← expectEntries node with
        | [(key, value)] => choose key value
        | entries => .error (.keyedEntries entries.length)
      | .kinded => choose node.kind.name node
      | .inline key => do
        let entries ← expectEntries node
        let d ← expectText (← lookupNeeded entries key)
        choose d (.map (entries.filter fun (k, _) => k != key))
      | .envelope key content => do
        let entries ← expectEntries node
        rejectUnknownKeys entries [key, content]
        let d ← expectText (← lookupNeeded entries key)
        let c ← lookupNeeded entries content
        choose d c
    | .enum members strategy =>
      match strategy with
      | .string => viaText
      | .int =>
        match node with
        | .int i =>
          match intMemberFor members i with
          | some idx => .ok (.member idx)
          | none => .error (.unknownDiscriminant (toString i))
        | n => wrongKind .int n

/-- Read a value of a shape from its string form. -/
def fromText (ts : TypeSystem) : Nat → Shape → String → Except DecodeError TypedValue
  | 0, _, _ => .error .exhausted
  | fuel + 1, shape, s =>
    match shape with
    | .string => .ok (.string s)
    | .int => (readInt s).map .int
    | .float => (readFloat s).map .float
    | .bool => (readBool s).map .bool
    | .declared name =>
      match ts.get? name with
      | some t => declaredFromText ts fuel t s
      | none => .error .exhausted
    | _ => .error .exhausted

/-- Read a value of a declared type from its string form. -/
def declaredFromText (ts : TypeSystem) : Nat → SchemaType → String →
    Except DecodeError TypedValue
  | 0, _, _ => .error .exhausted
  | fuel + 1, t, s =>
    match t with
    | .bool => (fromText ts fuel .bool s).map .wrapped
    | .int => (fromText ts fuel .int s).map .wrapped
    | .float => (fromText ts fuel .float s).map .wrapped
    | .string => (fromText ts fuel .string s).map .wrapped
    | .map k v n (.stringpairs inner entry) => do
      let pairs ← splitPairs s inner entry
      let entries ← pairs.foldlM (fun acc (key, value) => do
        let kv ← fromText ts fuel (Shape.ofName k) key
        let vv ← fromText ts fuel (Shape.optionIf n (Shape.ofRef v)) value
        pure (insertKeep acc kv vv)) []
      pure (.wrapped (.indexMap entries))
    | .struct fields (.stringjoin join) => do
      let parts ← splitJoin s join fields.length
      let values ← (fields.zip parts).mapM fun (f, p) =>
        inPart (.field f.name) (fromText ts fuel (Shape.ofField f) p)
      pure (.record values)
    | .struct fields (.stringpairs inner entry) => do
      let entries ← splitPairs s inner entry
      rejectUnknownKeys entries (fields.map (·.name))
      let values ← fields.mapM fun f =>
        if f.optional then
          match lookupFirst entries f.name with
          | none => pure .none
          | some p => inPart (.field f.name) ((fromText ts fuel (Shape.ofFieldValue f) p).map .some)
        else do
          let p ← lookupNeeded entries f.name
          inPart (.field f.name) (fromText ts fuel (Shape.ofField f) p)
      pure (.record values)
    | .union members .stringPrefix =>
      match members.zipIdx.find? fun (m, _) => s.startsWith m.discriminant with
      | some (m, i) =>
        (inPart (.variant m.type)
          (fromText ts fuel (Shape.ofName m.type) (String.ofList (s.toList.drop m.discriminant.length)))).map
          (.variant i)
      | none => .error (.unknownDiscriminant s)
    | .enum members _ =>
      match members.findIdx? (·.value == s) with
      | some i => .ok (.member i)
      | none => .error (.unknownDiscriminant s)
    | _ => .error .exhausted

end

/-- The value of the `i`-th item, or a default. -/
def nth {α : Type} [Inhabited α] (xs : List α) (i : Nat) : α := xs.getD i default

mutual

/-- Write a value of a shape as its representation node. -/
def toNode (ts : TypeSystem) : Nat → Shape → TypedValue → Node
  | 0, _, _ => .null
  | fuel + 1, shape, value =>
    match shape, value with
    | .bool, .bool b => .bool b
    | .int, .int i => .int i
    | .float, .float x => .float x
    | .string, .string s => .string s
    | .bytes, .bytes bs => .bytes bs
    | .link, .link c => .link c
    | .option inner, .some v => toNode ts fuel inner v
    | .vec item, .vec items => .list (items.map (toNode ts fuel item))
    | .indexMap k v, .indexMap entries =>
      .map (entries.map fun (kv, vv) => (toText ts fuel k kv, toNode ts fuel v vv))
    | .declared name, v =>
      match ts.get? name with
      | some t => declaredToNode ts fuel name t v
      | none => .null
    | _, _ => .null

/-- Write a value of a declared type as its representation node. -/
def declaredToNode (ts : TypeSystem) : Nat → String → SchemaType → TypedValue → Node
  | 0, _, _, _ => .null
  | fuel + 1, name, t, value =>
    let viaText : Node := .string (toText ts fuel (.declared name) value)
    let inner : TypedValue := match value with
      | .wrapped v => v
      | v => v
    match t with
    | .bool => toNode ts fuel .bool inner
    | .int => toNode ts fuel .int inner
    | .float => toNode ts fuel .float inner
    | .string => toNode ts fuel .string inner
    | .bytes => toNode ts fuel .bytes inner
    | .link _ => toNode ts fuel .link inner
    | .list v n => toNode ts fuel (.vec (Shape.optionIf n (Shape.ofRef v))) inner
    | .map k v n strategy =>
      let valueShape := Shape.optionIf n (Shape.ofRef v)
      match strategy, inner with
      | .map, _ => toNode ts fuel (.indexMap (Shape.ofName k) valueShape) inner
      | .stringpairs .., _ => viaText
      | .listpairs, .indexMap entries =>
        .list (entries.map fun (kv, vv) =>
          .list [.string (toText ts fuel (Shape.ofName k) kv), toNode ts fuel valueShape vv])
      | .listpairs, _ => .null
    | .struct fields strategy =>
      let values := match value with
        | .record vs => vs
        | _ => []
      let entries := (fields.zip values).filterMap fun (f, v) =>
        if f.optional then
          match v with
          | .some x => some (f.name, toNode ts fuel (Shape.ofFieldValue f) x)
          | _ => none
        else some (f.name, toNode ts fuel (Shape.ofField f) v)
      match strategy with
      | .map => .map entries
      | .listpairs => .list (entries.map fun (k, n) => .list [.string k, n])
      | .tuple => .list ((fields.zip values).map fun (f, v) => toNode ts fuel (Shape.ofField f) v)
      | .stringjoin _ | .stringpairs .. => viaText
    | .union members strategy =>
      match value with
      | .variant i v =>
        let m := nth members i
        let content := toNode ts fuel (Shape.ofName m.type) v
        match strategy with
        | .keyed => .map [(m.discriminant, content)]
        | .kinded => content
        | .inline key =>
          match content with
          | .map es => .map ((key, .string m.discriminant) :: es)
          | other => other
        | .envelope key c => .map [(key, .string m.discriminant), (c, content)]
        | .stringPrefix => viaText
      | _ => .null
    | .enum members strategy =>
      match strategy, value with
      | .string, _ => viaText
      | .int, .member i => .int ((Decimal.readInt64 (nth members i).value).getD 0)
      | .int, _ => .null

/-- Write a value of a shape as its string form. -/
def toText (ts : TypeSystem) : Nat → Shape → TypedValue → String
  | 0, _, _ => ""
  | fuel + 1, shape, value =>
    match shape, value with
    | .string, .string s => s
    | .int, .int i => toString i
    | .float, .float x => x.toText
    | .bool, .bool b => boolText b
    | .declared name, v =>
      match ts.get? name with
      | some t => declaredToText ts fuel t v
      | none => ""
    | _, _ => ""

/-- Write a value of a declared type as its string form. -/
def declaredToText (ts : TypeSystem) : Nat → SchemaType → TypedValue → String
  | 0, _, _ => ""
  | fuel + 1, t, value =>
    let inner : TypedValue := match value with
      | .wrapped v => v
      | v => v
    match t with
    | .bool => toText ts fuel .bool inner
    | .int => toText ts fuel .int inner
    | .float => toText ts fuel .float inner
    | .string => toText ts fuel .string inner
    | .map k v n (.stringpairs innerDelim entryDelim) =>
      match inner with
      | .indexMap entries =>
        joinPairs (entries.map fun (kv, vv) =>
          (toText ts fuel (Shape.ofName k) kv, toText ts fuel (Shape.optionIf n (Shape.ofRef v)) vv))
          innerDelim entryDelim
      | _ => ""
    | .struct fields strategy =>
      let values := match value with
        | .record vs => vs
        | _ => []
      match strategy with
      | .stringjoin join =>
        join.intercalate ((fields.zip values).map fun (f, v) => toText ts fuel (Shape.ofField f) v)
      | .stringpairs innerDelim entryDelim =>
        joinPairs ((fields.zip values).filterMap fun (f, v) =>
          if f.optional then
            match v with
            | .some x => some (f.name, toText ts fuel (Shape.ofFieldValue f) x)
            | _ => none
          else some (f.name, toText ts fuel (Shape.ofField f) v)) innerDelim entryDelim
      | _ => ""
    | .union members .stringPrefix =>
      match value with
      | .variant i v =>
        let m := nth members i
        m.discriminant ++ toText ts fuel (Shape.ofName m.type) v
      | _ => ""
    | .enum members _ =>
      match value with
      | .member i => (nth members i).value
      | _ => ""
    | _ => ""

end

/-- Whether values of a declared type have a string form. -/
def hasTextForm : SchemaType → Bool
  | .bool | .int | .float | .string => true
  | .map _ _ _ (.stringpairs ..) => true
  | .struct _ (.stringjoin _) | .struct _ (.stringpairs ..) => true
  | .union _ .stringPrefix => true
  | .enum .. => true
  | _ => false

/-- Fuel for converting a node or text of the given weight: more than every conversion
takes. -/
def fuelFor (ts : TypeSystem) (weight : Nat) : Nat := (weight + 2) * (ts.size + 2) * 4

/-- Read a value of a declared type from a node and write it back. -/
def normalizeNode (ts : TypeSystem) (name : String) (n : Node) :
    Except DecodeError Node := do
  let fuel := fuelFor ts n.weight
  let v ← fromNode ts fuel (.declared name) n
  pure (toNode ts fuel (.declared name) v)

/-- Read a value of a declared type from its string form and write it back. -/
def normalizeText (ts : TypeSystem) (name : String) (s : String) :
    Except DecodeError String := do
  let fuel := fuelFor ts s.length
  let v ← fromText ts fuel (.declared name) s
  pure (toText ts fuel (.declared name) v)

end Ipld.Typed
