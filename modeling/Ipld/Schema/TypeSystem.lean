import Ipld.Schema.Document

/-!
# Compiled type systems

A type system is what a schema document compiles to: every reference names a type that
exists, copies are replaced by the definition they copy, representations are resolved to
a strategy with its parameters, and enum members carry their representation value.

The system starts with the six prelude types `Bool Int Float String Bytes Link`, then the
declared types in declaration order, each name once. A name is looked up by its first (and
only) entry.

Each type has a *representation kind*: the data-model kind its values are written as. A
struct written as a string (`stringjoin`, `stringpairs`) has kind string, a tuple has kind
list, and so on. A kinded union has no single kind; it reports map.
-/

namespace Ipld.Schema

/-- A resolved reference: a type name, or a list, map or link type written in place. -/
inductive Ref where
  /-- A type of the system. -/
  | named (name : String)
  /-- A list written in place. -/
  | list (value : Ref) (nullable : Bool)
  /-- A map written in place. -/
  | map (key : String) (value : Ref) (nullable : Bool)
  /-- A link written in place. -/
  | link (expected : Option String)
  deriving BEq, Inhabited, Repr

/-- The name a reference stands for, if it is a name. -/
def Ref.name? : Ref → Option String
  | .named n => some n
  | _ => none

/-- A field of a compiled struct. -/
structure StructField where
  /-- The field name. -/
  name : String
  /-- The field's type. -/
  type : Ref
  /-- The field may be absent. -/
  optional : Bool
  /-- The field is present but may be null. -/
  nullable : Bool
  deriving BEq, Inhabited, Repr

/-- A member of a compiled enum: its name and its representation value, which defaults to
the name. -/
structure EnumValue where
  /-- The member name. -/
  name : String
  /-- The text (or, for an int enum, the decimal integer) that represents the member. -/
  value : String
  deriving BEq, Inhabited, Repr

/-- How a struct is represented. -/
inductive StructStrategy where
  /-- A map from field names to values. -/
  | map
  /-- A list of the field values in order. -/
  | tuple
  /-- The field values as strings joined by a separator. -/
  | stringjoin (join : String)
  /-- `name<inner>value` pairs joined by `entry`. -/
  | stringpairs (inner entry : String)
  /-- A list of `[name, value]` pairs. -/
  | listpairs
  deriving BEq, Inhabited, Repr

/-- How a union is represented. -/
inductive UnionStrategy where
  /-- A map with one entry: discriminant to value. -/
  | keyed
  /-- The value itself, the member chosen by its kind. -/
  | kinded
  /-- The member's map with the discriminant under `key` among its fields. -/
  | inline (key : String)
  /-- A map holding the discriminant under `key` and the value under `content`. -/
  | envelope (key content : String)
  /-- A string: the discriminant followed by the member's string form. -/
  | stringPrefix
  deriving BEq, Inhabited, Repr

/-- How an enum is represented. -/
inductive EnumStrategy where
  | string
  | int
  deriving DecidableEq, Inhabited, Repr

/-- How a map is represented. -/
inductive MapStrategy where
  | map
  /-- `key<inner>value` pairs joined by `entry`. -/
  | stringpairs (inner entry : String)
  /-- A list of `[key, value]` pairs. -/
  | listpairs
  deriving BEq, Inhabited, Repr

/-- A compiled type. -/
inductive SchemaType where
  | bool
  | int
  | float
  | string
  | bytes
  | link (expected : Option String)
  | list (value : Ref) (nullable : Bool)
  | map (key : String) (value : Ref) (nullable : Bool) (strategy : MapStrategy)
  | struct (fields : List StructField) (strategy : StructStrategy)
  | union (members : List UnionMember) (strategy : UnionStrategy)
  | enum (members : List EnumValue) (strategy : EnumStrategy)
  deriving BEq, Inhabited, Repr

namespace SchemaType

/-- The kind name of a type. -/
def kindName : SchemaType → String
  | bool => "bool"
  | int => "int"
  | float => "float"
  | string => "string"
  | bytes => "bytes"
  | link _ => "link"
  | list .. => "list"
  | map .. => "map"
  | struct .. => "struct"
  | union .. => "union"
  | enum .. => "enum"

/-- The data-model kind values of the type are written as. A kinded union has none of
its own and reports map. -/
def reprKind : SchemaType → Kind
  | bool => .bool
  | int => .int
  | float => .float
  | string => .string
  | bytes => .bytes
  | link _ => .link
  | list .. => .list
  | map _ _ _ .map => .map
  | map _ _ _ (.stringpairs ..) => .string
  | map _ _ _ .listpairs => .list
  | struct _ .map => .map
  | struct _ .tuple => .list
  | struct _ .listpairs => .list
  | struct _ (.stringjoin _) => .string
  | struct _ (.stringpairs ..) => .string
  | union _ .stringPrefix => .string
  | union .. => .map
  | enum _ .string => .string
  | enum _ .int => .int

/-- The name of the type's representation strategy; a type without strategies gives its
kind name. -/
def reprName : SchemaType → String
  | map _ _ _ .map => "map"
  | map _ _ _ (.stringpairs ..) => "stringpairs"
  | map _ _ _ .listpairs => "listpairs"
  | struct _ .map => "map"
  | struct _ .tuple => "tuple"
  | struct _ (.stringjoin _) => "stringjoin"
  | struct _ (.stringpairs ..) => "stringpairs"
  | struct _ .listpairs => "listpairs"
  | union _ .keyed => "keyed"
  | union _ .kinded => "kinded"
  | union _ (.inline _) => "inline"
  | union _ (.envelope ..) => "envelope"
  | union _ .stringPrefix => "stringprefix"
  | enum _ .string => "string"
  | enum _ .int => "int"
  | t => t.kindName

/-- Whether the type is a union represented by kind. -/
def isKindedUnion : SchemaType → Bool
  | union _ .kinded => true
  | _ => false

/-- The type names that a value of the type holds by value: named field types of a
struct (of any optionality) and member types of a union. -/
def byValue : SchemaType → List String
  | struct fields _ => fields.filterMap (·.type.name?)
  | union members _ => members.map (·.type)
  | _ => []

/-- The type names that must be built to build a value of the type: named types of the
fields that are neither optional nor nullable, and all member types of a union. -/
def required : SchemaType → List String
  | struct fields _ => (fields.filter fun f => !f.optional && !f.nullable).filterMap (·.type.name?)
  | union members _ => members.map (·.type)
  | _ => []

end SchemaType

/-- The names of the prelude types, in order. -/
def preludeNames : List String := ["Bool", "Int", "Float", "String", "Bytes", "Link"]

/-- The prelude types. -/
def prelude : List (String × SchemaType) :=
  [("Bool", .bool), ("Int", .int), ("Float", .float), ("String", .string), ("Bytes", .bytes),
    ("Link", .link none)]

/-- A compiled schema: the prelude, then the declared types in declaration order. -/
structure TypeSystem where
  /-- All types with their names, the prelude first, each name once. -/
  types : List (String × SchemaType)
  deriving BEq, Inhabited, Repr

namespace TypeSystem

/-- The type named `name`. -/
def get? (ts : TypeSystem) (name : String) : Option SchemaType := ts.types.lookup name

/-- Whether the system has a type named `name`. -/
def contains (ts : TypeSystem) (name : String) : Bool := (ts.get? name).isSome

/-- Every name, the prelude first. -/
def names (ts : TypeSystem) : List String := ts.types.map (·.1)

/-- The declared types, without the prelude. -/
def declared (ts : TypeSystem) : List (String × SchemaType) := ts.types.drop preludeNames.length

/-- The number of types, the prelude included. -/
def size (ts : TypeSystem) : Nat := ts.types.length

/-- The data-model kind of values of a reference. A name missing from the system is taken
for a link. -/
def reprKindOf (ts : TypeSystem) : Ref → Kind
  | .named n => match ts.get? n with
    | some t => t.reprKind
    | none => .link
  | .list .. => .list
  | .map .. => .map
  | .link _ => .link

/-- The type a reference names, if it names one of the system. -/
def named? (ts : TypeSystem) : Ref → Option (String × SchemaType)
  | .named n => (ts.get? n).map fun t => (n, t)
  | _ => none

end TypeSystem

end Ipld.Schema
