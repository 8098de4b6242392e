import Ipld.Schema.Document
import Ipld.Json.Decode

/-!
# Reading a document from its JSON form

The JSON form of a document is the JSON text of its data-model form (`Document.toNode`):

    {"types": {"Name": {"struct": {"fields": {...}, "representation": {"map": {}}}}}}

`Document.ofJsonText` reads it back. The text is read as written, so repeated type and
field names survive for the compiler to report. Besides the map forms, a record may be
written as the list of its fields in order, and unknown keys are skipped. A representation
is a map with exactly one strategy; repeated strategy or parameter names keep the first
position and the last value.

A reference to a type is a type name, or a map of one entry `list`, `map` or `link` to the
definition written in place. It is read whole before it is looked at, so a reference of
the wrong shape fails as one, without saying which part is wrong. Such a reference can
name types the schema language cannot write (`""`, `"1A"`) and give an inline map a
representation; the compiler judges those.
-/

namespace Ipld.Schema

open Json Json.Decoder

/-- Entries with repeated names merged: each name where it first stands, with the value
given last. -/
def keepLast {α : Type} (entries : List (String × α)) : List (String × α) :=
  entries.foldl (fun acc (k, v) =>
    if acc.any (·.1 == k) then acc.map fun (k', v') => (k', if k' == k then v else v')
    else acc ++ [(k, v)]) []

/-! ## References read whole -/

/-- The values given for the named fields of a record written as a map (a name given twice
fails) or as a list (no more items than fields). -/
def slotsOf (names : List String) : Json → Option (List (Option Json))
  | .object entries =>
    if names.any fun n => (entries.filter (·.1 == n)).length > 1 then none
    else some (names.map fun n => List.lookup n entries)
  | .array items =>
    if items.length ≤ names.length then some ((List.range names.length).map (items[·]?))
    else none
  | _ => none

/-- A flag; absent is `false`. -/
def flagOf : Option Json → Option Bool
  | none => some false
  | some (.bool b) => some b
  | some _ => none

/-- A required text. -/
def textOf : Option Json → Option String
  | some (.string s) => some s
  | _ => none

/-- A text that may be absent or null. -/
def optionalTextOf : Option Json → Option (Option String)
  | none | some .null => some none
  | some (.string s) => some (some s)
  | some _ => none

/-- A representation that may be absent or null. -/
def representationOf : Option Json → Option (Option Representation)
  | none | some .null => some none
  | some (.object outer) => do
    let strategies ← outer.mapM fun ((k : String), (v : Json)) =>
      match v with
      | .object params =>
        (params.mapM fun ((p : String), (pv : Json)) =>
          match pv with
          | .string s => some (p, s)
          | _ => none).map fun ps => (k, keepLast ps)
      | _ => none
    match keepLast strategies with
    | [(strategy, params)] => some (some ⟨strategy, params⟩)
    | _ => none
  | some _ => none

/-- A reference read whole: a name, or a list, map or link written in place. -/
def typeRefOf : Nat → Json → Option TypeRef
  | 0, _ => none
  | _ + 1, .string s => some (.named s)
  | fuel + 1, .object [(variant, payload)] =>
    match variant with
    | "list" => do
      let slots ← slotsOf ["valueType", "valueNullable"] payload
      match slots with
      | [v, n] => return .list (← v >>= typeRefOf fuel) (← flagOf n)
      | _ => none
    | "map" => do
      let slots ← slotsOf ["keyType", "valueType", "valueNullable", "representation"] payload
      match slots with
      | [k, v, n, r] =>
        return .map (← textOf k) (← v >>= typeRefOf fuel) (← flagOf n) (← representationOf r)
      | _ => none
    | "link" => do
      let slots ← slotsOf ["expectedType"] payload
      match slots with
      | [e] => return .link (← optionalTextOf e)
      | _ => none
    | _ => none
  | _, _ => none

/-! ## Records read as they stand -/

/-- The failure of a reference of the wrong shape. -/
def typeRefMismatch : Problem := .custom "data did not match any variant of untagged enum TypeRef"

/-- A reference to a type. -/
def readTypeRef (fuel : Nat) (path : Path) : Decoder TypeRef := do
  match typeRefOf fuel (← anyValue path fuel) with
  | some r => pure r
  | none => mismatch typeRefMismatch

/-- A representation, or null. -/
def readRepresentation (fuel : Nat) (path : Path) : Decoder (Option Representation) :=
  optional do
    let outer ← map "a map" (fun p => map "a map" (fun _ => text) fuel p) fuel path
    match keepLast (outer.map fun (k, ps) => (k, keepLast ps)) with
    | [(strategy, params)] => pure ⟨strategy, params⟩
    | other =>
      mismatch (.custom ("a representation has exactly one strategy, found " ++
        toString other.length))

/-- A value read for a field, or the field's absence. -/
def present {α : Type} (x : Option α) : Bool := x.isSome

/-- A required field: its value, or the failure that names it. -/
def needed {α : Type} (name : String) : Option α → Except Problem α
  | some a => .ok a
  | none => .error (.missingField name)

/-- A record without fields. -/
def emptyRecord (expected : String) : Record Unit Unit :=
  ⟨expected, [], (), fun _ _ => false, fun _ => false, fun _ _ s => pure s, fun _ => .ok ()⟩

/-- A link definition: its expected type. -/
def linkRecord : Record (Option (Option String)) (Option String) :=
  ⟨"struct LinkDefn", ["expectedType"], none,
    fun s _ => present s,
    fun _ => false,
    fun _ _ _ => some <$> optional text,
    fun s => .ok (s.getD none)⟩

/-- A list definition: its value type and whether values may be null. -/
def listRecord (fuel : Nat) : Record (Option TypeRef × Option Bool) (TypeRef × Bool) :=
  ⟨"struct ListDefn", ["valueType", "valueNullable"], (none, none),
    fun s i => if i == 0 then present s.1 else present s.2,
    fun i => i == 0,
    fun i p s =>
      if i == 0 then return (some (← readTypeRef fuel p), s.2)
      else return (s.1, some (← bool)),
    fun s => do return (← needed "valueType" s.1, s.2.getD false)⟩

/-- What a map definition holds. -/
abbrev MapSlots := Option String × Option TypeRef × Option Bool × Option (Option Representation)

/-- A map definition: key type, value type, whether values may be null, representation. -/
def mapRecord (fuel : Nat) : Record MapSlots TypeDefinition :=
  ⟨"struct MapDefn", ["keyType", "valueType", "valueNullable", "representation"],
    (none, none, none, none),
    fun (k, v, n, r) i => match i with
      | 0 => present k
      | 1 => present v
      | 2 => present n
      | _ => present r,
    fun i => i < 2,
    fun i p (k, v, n, r) => match i with
      | 0 => return (some (← text), v, n, r)
      | 1 => return (k, some (← readTypeRef fuel p), n, r)
      | 2 => return (k, v, some (← bool), r)
      | _ => return (k, v, n, some (← readRepresentation fuel p)),
    fun (k, v, n, r) => do
      return .map (← needed "keyType" k) (← needed "valueType" v) (n.getD false) (r.getD none)⟩

/-- A struct field definition: type, optional, nullable. -/
def fieldRecord (fuel : Nat) : Record (Option TypeRef × Option Bool × Option Bool) Field :=
  ⟨"struct FieldDefn", ["type", "optional", "nullable"], (none, none, none),
    fun (t, o, n) i => match i with
      | 0 => present t
      | 1 => present o
      | _ => present n,
    fun i => i == 0,
    fun i p (t, o, n) => match i with
      | 0 => return (some (← readTypeRef fuel p), o, n)
      | 1 => return (t, some (← bool), n)
      | _ => return (t, o, some (← bool)),
    fun (t, o, n) => do return ⟨← needed "type" t, o.getD false, n.getD false⟩⟩

/-- A struct definition: fields and representation. -/
def structRecord (fuel : Nat) :
    Record (Option (List (String × Field)) × Option (Option Representation)) TypeDefinition :=
  ⟨"struct StructDefn", ["fields", "representation"], (none, none),
    fun s i => if i == 0 then present s.1 else present s.2,
    fun i => i == 0,
    fun i p s =>
      if i == 0 then return (some (← map "a map" ((fieldRecord fuel).decode fuel) fuel p), s.2)
      else return (s.1, some (← readRepresentation fuel p)),
    fun s => do return .struct (← needed "fields" s.1) (s.2.getD none)⟩

/-- A union member: discriminant and member type. -/
def memberRecord : Record (Option String × Option String) UnionMember :=
  ⟨"struct UnionMember", ["discriminant", "type"], (none, none),
    fun s i => if i == 0 then present s.1 else present s.2,
    fun _ => true,
    fun i _ s =>
      if i == 0 then return (some (← text), s.2)
      else return (s.1, some (← text)),
    fun s => do return ⟨← needed "discriminant" s.1, ← needed "type" s.2⟩⟩

/-- A union definition: members and representation. -/
def unionRecord (fuel : Nat) :
    Record (Option (List UnionMember) × Option (Option Representation)) TypeDefinition :=
  ⟨"struct UnionDefn", ["members", "representation"], (none, none),
    fun s i => if i == 0 then present s.1 else present s.2,
    fun i => i == 0,
    fun i p s =>
      if i == 0 then return (some (← seq "a sequence" (memberRecord.decode fuel) fuel p), s.2)
      else return (s.1, some (← readRepresentation fuel p)),
    fun s => do return .union (← needed "members" s.1) (s.2.getD none)⟩

/-- An enum member: name and value. -/
def enumMemberRecord : Record (Option String × Option (Option String)) EnumMember :=
  ⟨"struct EnumMember", ["name", "value"], (none, none),
    fun s i => if i == 0 then present s.1 else present s.2,
    fun i => i == 0,
    fun i _ s =>
      if i == 0 then return (some (← text), s.2)
      else return (s.1, some (← optional text)),
    fun s => do return ⟨← needed "name" s.1, s.2.getD none⟩⟩

/-- An enum definition: members and representation. -/
def enumRecord (fuel : Nat) :
    Record (Option (List EnumMember) × Option (Option Representation)) TypeDefinition :=
  ⟨"struct EnumDefn", ["members", "representation"], (none, none),
    fun s i => if i == 0 then present s.1 else present s.2,
    fun i => i == 0,
    fun i p s =>
      if i == 0 then
        return (some (← seq "a sequence" (enumMemberRecord.decode fuel) fuel p), s.2)
      else return (s.1, some (← readRepresentation fuel p)),
    fun s => do return .enum (← needed "members" s.1) (s.2.getD none)⟩

/-- A copy definition: the type copied. -/
def copyRecord : Record (Option String) TypeDefinition :=
  ⟨"struct CopyDefn", ["fromType"], none,
    fun s _ => present s,
    fun _ => true,
    fun _ _ _ => some <$> text,
    fun s => do return .copy (← needed "fromType" s)⟩

/-- The kind names of definitions, in the order a failure lists them. -/
def kindNames : List String :=
  ["bool", "string", "bytes", "int", "float", "link", "list", "map", "struct", "union", "enum",
    "copy"]

/-- A scalar kind written without parameters: the definition and the name failures give it. -/
def scalarKind? : String → Option (TypeDefinition × String)
  | "bool" => some (.bool, "Bool")
  | "string" => some (.string, "String")
  | "bytes" => some (.bytes, "Bytes")
  | "int" => some (.int, "Int")
  | "float" => some (.float, "Float")
  | _ => none

/-- The body of a definition of kind `kind`. -/
def readDefinitionBody (fuel : Nat) (kind : String) (path : Path) : Decoder TypeDefinition :=
  match kind with
  | "link" => return .link (← linkRecord.decode fuel path)
  | "list" => do
    let (v, n) ← (listRecord fuel).decode fuel path
    return .list v n
  | "map" => (mapRecord fuel).decode fuel path
  | "struct" => (structRecord fuel).decode fuel path
  | "union" => (unionRecord fuel).decode fuel path
  | "enum" => (enumRecord fuel).decode fuel path
  | "copy" => copyRecord.decode fuel path
  | _ =>
    match scalarKind? kind with
    | some (d, name) => do
      (emptyRecord ("struct variant TypeDefn::" ++ name)).decode fuel path
      pure d
    | none => mismatch (.unknownVariant kind kindNames)

/-- A type definition: a map of one entry from its kind name to its body. -/
def readDefinition (fuel : Nat) (path : Path) : Decoder TypeDefinition :=
  tagged kindNames (fun kind payload p =>
    match payload with
    | .given => readDefinitionBody fuel kind p
    | .absent =>
      mismatch (.invalidType .unitVariant
        (if (scalarKind? kind).isSome then "struct variant" else "newtype variant"))) path

/-- A whole document. -/
def documentRecord (fuel : Nat) : Record (Option (List (String × TypeDefinition))) Document :=
  ⟨"struct Schema", ["types"], none,
    fun s _ => present s,
    fun _ => true,
    fun _ p _ => some <$> map "a map" (readDefinition fuel) fuel p,
    fun s => do return ⟨← needed "types" s⟩⟩

/-- Read a document from its JSON form. Only the first value of the text is read. -/
def Document.ofJsonText (s : String) : Except Failure Document :=
  let fuel := fuelFor s
  runText (within [] ((documentRecord fuel).decode fuel [])) s

end Ipld.Schema
