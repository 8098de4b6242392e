import Ipld.Schema.Dsl.Read
import Ipld.Schema.Compile
import Ipld.Repr.Convert
import Ipld.Node.Native

/-!
# Bindings

Bindings hold a compiled schema and give each declared type a *prototype*, through which
values of a program's own types reach their representation:

    value ──toNode──▶ shape ──toRepr──▶ representation ──fromRepr──▶ shape

The schema text of a binding is known by the name `embedded schema` in parse errors. The
prelude types have no prototypes. Each step names the type in its error.
-/

namespace Ipld

open Schema

/-- Why binding a schema, or a value through it, failed. -/
inductive BindError where
  /-- The schema text does not parse. -/
  | parse (e : Dsl.ParseError)
  /-- The schema does not compile. -/
  | compile (e : CompileError)
  /-- No declared type has the name. -/
  | unknownType (name : String)
  /-- The value has no node. -/
  | serialize (typeName : String) (e : ToNodeError)
  /-- The shape or the representation does not fit the type. -/
  | convert (typeName : String) (e : Repr.DecodeError)
  /-- The shape does not fit the program's own type. -/
  | deserialize (typeName : String) (message : String)
  deriving Inhabited

/-- The message of a binding error. -/
def BindError.message : BindError → String
  | .parse e => "schema failed to parse: " ++ e.message
  | .compile e => "schema failed to compile: " ++ e.message
  | .unknownType n => "no type named " ++ Text.quote n ++ " in the schema"
  | .serialize t e => t ++ ": cannot serialize value: " ++ e.message
  | .convert t e => t ++ ": " ++ e.message
  | .deserialize t m => t ++ ": " ++ m

/-- A compiled schema whose declared types are bound. -/
structure Bindings where
  /-- The compiled schema. -/
  types : TypeSystem
  deriving Inhabited

/-- A declared type, bound to the schema it belongs to. -/
structure Prototype where
  /-- The type's name. -/
  name : String
  /-- The compiled type. -/
  type : SchemaType
  /-- The schema it belongs to. -/
  types : TypeSystem
  deriving Inhabited

namespace Bindings

/-- The source name that binding errors report. -/
def sourceName : String := "embedded schema"

/-- Parse and compile a schema text and bind its declared types. -/
def load (source : String) : Except BindError Bindings :=
  match Document.parse sourceName source with
  | .error e => .error (.parse e)
  | .ok d =>
    match d.compile with
    | .error e => .error (.compile e)
    | .ok ts => .ok ⟨ts⟩

/-- The bound types, in declaration order. -/
def prototypes (b : Bindings) : List Prototype :=
  b.types.declared.map fun (n, t) => ⟨n, t, b.types⟩

/-- The names of the bound types. -/
def names (b : Bindings) : List String := b.types.declared.map (·.1)

/-- The prototype of a declared type. -/
def prototype (b : Bindings) (name : String) : Except BindError Prototype :=
  match b.types.declared.lookup name with
  | some t => .ok ⟨name, t, b.types⟩
  | none => .error (.unknownType name)

end Bindings

namespace Prototype

/-- The representation of a value of the type. -/
def encode (p : Prototype) (v : NativeValue) : Except BindError Node :=
  match v.toNode with
  | .error e => .error (.serialize p.name e)
  | .ok shape =>
    match p.types.toRepr (.named p.name) shape with
    | .error e => .error (.convert p.name e)
    | .ok n => .ok n

/-- The shape of a representation of the type. -/
def decodeShape (p : Prototype) (n : Node) : Except BindError Node :=
  match p.types.fromRepr (.named p.name) n with
  | .error e => .error (.convert p.name e)
  | .ok shape => .ok shape

end Prototype

end Ipld
