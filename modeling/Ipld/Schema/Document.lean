import Ipld.Node.Basic

/-!
# Schema documents

A schema document is a schema exactly as written: a list of named type definitions in
declaration order, nothing resolved and nothing checked. Repeated type names and repeated
field names are kept, so the compiler can report them; flags that were not written are
`false`, and a representation that was not written is `none`.

A document has a data-model form (`Document.toNode`):
`{"types": {Name: {"<kind>": {...}}}}`. Each definition is a map with one entry, its kind
name; a field flag or nullable marker appears only when it is set, and an optional part
(link target, enum value, representation) only when present. A reference to a type is the
type's name as a string, or `{"list"|"map"|"link": {...}}` for a type written in place.
-/

namespace Ipld.Schema

/-- `representation <strategy>(<params>)`: a strategy name and its parameters in the order
they were written. -/
structure Representation where
  /-- The strategy name, such as `map`, `tuple` or `stringjoin`. -/
  strategy : String
  /-- Parameter names and values, each name once. -/
  params : List (String × String)
  deriving BEq, Inhabited, Repr

/-- A reference to a type from inside another definition: a type name, or a list, map or
link type written in place. -/
inductive TypeRef where
  /-- A type named elsewhere in the schema. -/
  | named (name : String)
  /-- `[nullable? T]` written in place. -/
  | list (valueType : TypeRef) (valueNullable : Bool)
  /-- `{K : nullable? T}` written in place; only the document form can give it a
  representation. -/
  | map (keyType : String) (valueType : TypeRef) (valueNullable : Bool)
      (representation : Option Representation)
  /-- `&T` written in place, or a bare link. -/
  | link (expectedType : Option String)
  deriving BEq, Inhabited, Repr

/-- One field of a struct. -/
structure Field where
  /-- The field's type. -/
  type : TypeRef
  /-- The field may be absent. -/
  optional : Bool
  /-- The field may be null. -/
  nullable : Bool
  deriving BEq, Inhabited, Repr

/-- One member of a union: the discriminant that selects it and the member type's name. -/
structure UnionMember where
  /-- The key, kind name or prefix that selects the member. -/
  discriminant : String
  /-- The member's type name. -/
  type : String
  deriving BEq, Inhabited, Repr

/-- One member of an enum, with the value written for it, if any. -/
structure EnumMember where
  /-- The member's name. -/
  name : String
  /-- The value written in parentheses after the name. -/
  value : Option String
  deriving BEq, Inhabited, Repr

/-- A type definition as written. -/
inductive TypeDefinition where
  | bool
  | string
  | bytes
  | int
  | float
  /-- A link, with the type it is expected to point to. -/
  | link (expectedType : Option String)
  /-- A list of values of one type. -/
  | list (valueType : TypeRef) (valueNullable : Bool)
  /-- A map from keys of a named type to values of one type. -/
  | map (keyType : String) (valueType : TypeRef) (valueNullable : Bool)
      (representation : Option Representation)
  /-- A struct: named fields in order, repeated names kept. -/
  | struct (fields : List (String × Field)) (representation : Option Representation)
  /-- A union of named member types. -/
  | union (members : List UnionMember) (representation : Option Representation)
  /-- An enum of named members. -/
  | enum (members : List EnumMember) (representation : Option Representation)
  /-- Another name for an existing type. -/
  | copy (fromType : String)
  deriving BEq, Inhabited, Repr

/-- A schema as written: its type definitions in declaration order. -/
structure Document where
  /-- Type names and definitions, repeated names kept. -/
  types : List (String × TypeDefinition)
  deriving BEq, Inhabited, Repr

namespace TypeDefinition

/-- The kind name of a definition, which is also its key in the document form. -/
def kindName : TypeDefinition → String
  | bool => "bool"
  | string => "string"
  | bytes => "bytes"
  | int => "int"
  | float => "float"
  | link _ => "link"
  | list _ _ => "list"
  | map .. => "map"
  | struct .. => "struct"
  | union .. => "union"
  | enum .. => "enum"
  | copy _ => "copy"

/-- The representation written for a definition; only maps, structs, unions and enums
can have one. -/
def representation? : TypeDefinition → Option Representation
  | map _ _ _ r => r
  | struct _ r => r
  | union _ r => r
  | enum _ r => r
  | _ => none

end TypeDefinition

/-- The declared names in declaration order, repeats included. -/
def Document.names (d : Document) : List String := d.types.map (·.1)

/-! ## The data-model form -/

/-- `{"strategy": {param: value, ...}}`. -/
def Representation.toNode (r : Representation) : Node :=
  .map [(r.strategy, .map (r.params.map fun (k, v) => (k, .string v)))]

/-- The entry for a flag that is written only when set. -/
def flagEntry (key : String) (set : Bool) : List (String × Node) :=
  if set then [(key, .bool true)] else []

/-- The entry for an optional string, written only when present. -/
def textEntry (key : String) : Option String → List (String × Node)
  | some s => [(key, .string s)]
  | none => []

/-- The entry for a representation, written only when present. -/
def representationEntry : Option Representation → List (String × Node)
  | some r => [("representation", r.toNode)]
  | none => []

/-- The data-model form of a reference: a name string, or a one-entry map keyed by the
kind of the type written in place. -/
def TypeRef.toNode : TypeRef → Node
  | .named name => .string name
  | .list v n => .map [("list", .map ([("valueType", v.toNode)] ++ flagEntry "valueNullable" n))]
  | .map k v n r =>
    .map [("map", .map ([("keyType", .string k), ("valueType", v.toNode)] ++
      flagEntry "valueNullable" n ++ representationEntry r))]
  | .link e => .map [("link", .map (textEntry "expectedType" e))]

/-- `{"type": ref, "optional"?: true, "nullable"?: true}`. -/
def Field.toNode (f : Field) : Node :=
  .map ([("type", f.type.toNode)] ++ flagEntry "optional" f.optional ++
    flagEntry "nullable" f.nullable)

/-- `{"discriminant": d, "type": t}`. -/
def UnionMember.toNode (m : UnionMember) : Node :=
  .map [("discriminant", .string m.discriminant), ("type", .string m.type)]

/-- `{"name": n, "value"?: v}`. -/
def EnumMember.toNode (m : EnumMember) : Node :=
  .map ([("name", .string m.name)] ++ textEntry "value" m.value)

/-- The body of a definition, the map under its kind name. -/
def TypeDefinition.body : TypeDefinition → List (String × Node)
  | .link e => textEntry "expectedType" e
  | .list v n => [("valueType", v.toNode)] ++ flagEntry "valueNullable" n
  | .map k v n r =>
    [("keyType", .string k), ("valueType", v.toNode)] ++ flagEntry "valueNullable" n ++
      representationEntry r
  | .struct fs r => [("fields", .map (fs.map fun (k, f) => (k, f.toNode)))] ++ representationEntry r
  | .union ms r => [("members", .list (ms.map UnionMember.toNode))] ++ representationEntry r
  | .enum ms r => [("members", .list (ms.map EnumMember.toNode))] ++ representationEntry r
  | .copy t => [("fromType", .string t)]
  | _ => []

/-- `{"<kind>": body}`. -/
def TypeDefinition.toNode (d : TypeDefinition) : Node := .map [(d.kindName, .map d.body)]

/-- `{"types": {Name: definition, ...}}`, in declaration order with repeats. -/
def Document.toNode (d : Document) : Node :=
  .map [("types", .map (d.types.map fun (k, t) => (k, t.toNode)))]

end Ipld.Schema
