import Ipld.Schema.StringForm
import Ipld.Schema.Violation
import Ipld.Decimal.Read

/-!
# Rules for definitions

Once references are resolved, each declared type (copies aside) is checked against the rules
of its kind and its representation: names used once per struct, union and enum; map keys of
a string kind; representations whose strings can be split back apart. The checks read the
whole type system, since whether a field has a string form depends on the type it names.
Violations come in the order of the parts they are about.
-/

namespace Ipld.Schema

/-- Each element with the elements before it. -/
def withEarlier {α : Type} (xs : List α) : List (List α × α) :=
  xs.zipIdx.map fun (x, i) => (xs.take i, x)

namespace TypeSystem

/-- A map key type must be a string or a string enum; `site` is `map` or `inline map`.
An unknown key type was reported when references were resolved. -/
def keyViolations (ts : TypeSystem) (key site : String) : List Violation :=
  match ts.get? key with
  | none | some .string | some (.enum _ .string) => []
  | some _ => [.keyNotString site key]

/-- The key rule for every map written in place inside a reference. -/
def inlineViolations (ts : TypeSystem) : Ref → List Violation
  | .list v _ => ts.inlineViolations v
  | .map k v _ => ts.keyViolations k "inline map" ++ ts.inlineViolations v
  | _ => []

/-- Rules of a struct: field names once each, and the rules of its strategy. -/
def structViolations (ts : TypeSystem) (fields : List StructField) (strategy : StructStrategy) :
    List Violation :=
  let repeated := (withEarlier fields).filterMap fun (earlier, f) =>
    if earlier.any (·.name == f.name) then some (Violation.fieldTwice f.name) else none
  let last := fields.length - 1
  let rules : List Violation :=
    match strategy with
    | .map | .listpairs => []
    | .tuple => (fields.filter (·.optional)).map fun f => .optionalTupleField f.name
    | .stringjoin join =>
      fields.zipIdx.flatMap fun (f, i) =>
        if f.optional || f.nullable then [.optionalJoinedField f.name]
        else if !ts.isStringifiable f.type then [.fieldNotString f.name]
        else if i < last && ts.mayContain f.type join then [.fieldMayHoldJoin f.name join]
        else []
    | .stringpairs inner entry =>
      fields.flatMap fun f =>
        (if f.nullable then [.nullablePairField f.name]
          else if !ts.isStringifiable f.type then [.fieldNotString f.name]
          else if ts.mayContain f.type entry then [.fieldMayHoldEntry f.name entry]
          else []) ++
        (if Text.includes f.name inner || Text.includes f.name entry then
          [.fieldNameHoldsDelimiter f.name] else [])
  repeated ++ rules

/-- Rules of one member of a `stringprefix` union, given the members before it. -/
def prefixViolations (ts : TypeSystem) (earlier : List UnionMember) (m : UnionMember) :
    List Violation :=
  if m.discriminant.isEmpty then [.emptyPrefix m.type]
  else
    let overlaps := earlier.filterMap fun o =>
      if o.discriminant.isEmpty || o.discriminant == m.discriminant then none
      else if Text.beginsWith m.discriminant o.discriminant ||
          Text.beginsWith o.discriminant m.discriminant then
        some (Violation.overlappingPrefixes o.discriminant m.discriminant)
      else none
    overlaps ++
      (if ts.contains m.type && !ts.isStringifiable (.named m.type) then [.memberNotString m.type]
      else [])

/-- Rules of one member of a kinded union: its discriminant names a kind, and the member
type is represented as that kind and is not a kinded union itself. -/
def kindedViolations (ts : TypeSystem) (m : UnionMember) : List Violation :=
  match Kind.ofName? m.discriminant with
  | none => [.notAKind m.discriminant]
  | some k =>
    match ts.get? m.type with
    | none => []
    | some t =>
      if t.isKindedUnion then [.nestedKindedUnion m.type]
      else if t.reprKind != k then [.kindMismatch m.type t.reprKind k]
      else []

/-- Rules of one member of an inline union: a struct with map representation and no field
named like the discriminant key. -/
def inlineMemberViolations (ts : TypeSystem) (key : String) (m : UnionMember) : List Violation :=
  match ts.get? m.type with
  | none => []
  | some (.struct fields .map) =>
    if fields.any (·.name == key) then [.fieldShadowsDiscriminant m.type key] else []
  | some _ => [.inlineMemberNotMapStruct m.type]

/-- Rules of a union: at least one member, discriminants and member types once each, and
the rules of its strategy. -/
def unionViolations (ts : TypeSystem) (members : List UnionMember) (strategy : UnionStrategy) :
    List Violation :=
  let empty : List Violation := if members.isEmpty then [.emptyUnion] else []
  let repeated := (withEarlier members).flatMap fun (earlier, m) =>
    (if earlier.any (·.discriminant == m.discriminant) then [.discriminantTwice m.discriminant]
      else []) ++
    (if earlier.any (·.type == m.type) then [.memberTypeTwice m.type] else [])
  let rules : List Violation :=
    match strategy with
    | .keyed => []
    | .kinded => members.flatMap ts.kindedViolations
    | .inline key => members.flatMap (ts.inlineMemberViolations key)
    | .envelope key content => if key == content then [.sameEnvelopeKeys key] else []
    | .stringPrefix => (withEarlier members).flatMap fun (earlier, m) => ts.prefixViolations earlier m
  empty ++ repeated ++ rules

/-- Rules of an enum: at least one member, names once each, values once each (checked
only for members whose name is new), and integer values for an int enum. -/
def enumViolations (members : List EnumValue) (strategy : EnumStrategy) : List Violation :=
  let empty : List Violation := if members.isEmpty then [.emptyEnum] else []
  empty ++ (withEarlier members).flatMap fun (earlier, m) =>
    (if earlier.any (·.name == m.name) then [.enumMemberTwice m.name]
      else if earlier.any (·.value == m.value) then [.enumValueTwice m.value]
      else []) ++
    (if strategy == .int && (Decimal.readInt64 m.value).isNone then [.enumValueNotInt m.name m.value]
      else [])

/-- Rules of a map: a key of a string kind, and for `stringpairs` values and keys whose
string forms can be split at the delimiters. -/
def mapViolations (ts : TypeSystem) (key : String) (value : Ref) (nullable : Bool) :
    MapStrategy → List Violation
  | .stringpairs inner entry =>
    ts.keyViolations key "map" ++
      (if nullable then [.nullablePairValues] else []) ++
      (if !ts.isStringifiable value then [.pairValuesNotStrings]
        else if ts.mayContain value entry then [.valuesMayHoldDelimiter entry]
        else []) ++
      ([inner, entry].filterMap fun d =>
        if ts.contains key && ts.mayContain (.named key) d then some (Violation.keysMayHoldDelimiter d)
        else none) ++
      ts.inlineViolations value
  | _ => ts.keyViolations key "map" ++ ts.inlineViolations value

/-- Every rule a compiled type breaks. -/
def violations (ts : TypeSystem) : SchemaType → List Violation
  | .struct fields strategy =>
    ts.structViolations fields strategy ++ fields.flatMap fun f => ts.inlineViolations f.type
  | .union members strategy => ts.unionViolations members strategy
  | .enum members strategy => enumViolations members strategy
  | .map key value nullable strategy => ts.mapViolations key value nullable strategy
  | .list value _ => ts.inlineViolations value
  | _ => []

end TypeSystem

end Ipld.Schema
