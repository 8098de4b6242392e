import Ipld.Schema.TypeSystem
import Ipld.Text.Quoted

/-!
# Why a schema does not compile

Compiling does not stop at the first problem: it reports every rule the schema breaks, each
with the name of the type that breaks it. A `Violation` is the broken rule with its data;
its `kind` sorts it into one of seven classes, and the class fixes the pass that finds it:
names, then references, then definitions, then recursion. The errors of a failed
compilation come pass by pass.

Texts in double quotes in the messages (discriminants, delimiters, values) are quoted with
escapes, as `Ipld.Text.quote` writes them.
-/

namespace Ipld.Schema

/-- Where a reference stands inside a definition. -/
inductive Site where
  | linkTarget
  | listValues
  | mapKeys
  | mapValues
  /-- The type of the named field. -/
  | field (name : String)
  /-- The union member with this discriminant. -/
  | unionMember (discriminant : String)
  | copySource
  deriving DecidableEq, Inhabited, Repr

/-- How a site is named in messages. -/
def Site.describe : Site → String
  | .linkTarget => "link target"
  | .listValues => "list values"
  | .mapKeys => "map keys"
  | .mapValues => "map values"
  | .field name => "field `" ++ name ++ "`"
  | .unionMember d => "union member " ++ Text.quote d
  | .copySource => "copy source"

/-- The seven classes of violations. -/
inductive ViolationKind where
  | duplicateName
  | invalidName
  | unresolvedReference
  | invalidDefinition
  | invalidRepresentation
  | ambiguousRepresentation
  | illegalRecursion
  deriving DecidableEq, Inhabited, Repr

/-- The pass that finds violations of a kind: 0 names, 1 references, 2 definitions,
3 recursion. -/
def ViolationKind.pass : ViolationKind → Nat
  | .duplicateName | .invalidName => 0
  | .unresolvedReference => 1
  | .invalidDefinition | .invalidRepresentation | .ambiguousRepresentation => 2
  | .illegalRecursion => 3

/-- A rule of schemas that a type breaks. -/
inductive Violation where
  /-- A declared name equal to a prelude name. -/
  | redeclaresPrelude (name : String)
  /-- A name that is not a letter followed by letters, digits and `_`. -/
  | invalidName (name : String)
  /-- A name declared a second time. -/
  | declaredTwice (name : String)
  /-- A reference to a type that is not declared. -/
  | unresolved (name : String) (site : Site)
  /-- A map written in place with a representation of its own. -/
  | inlineMapRepresentation (site : Site)
  /-- A strategy that the kind (`struct`, `union`, `enum`, `map`) does not have. -/
  | unknownStrategy (kind strategy : String)
  /-- A parameter that the strategy does not take. -/
  | unexpectedParameter (strategy key : String)
  /-- A parameter that the strategy needs but was not given. -/
  | missingParameter (strategy key : String)
  /-- A parameter given as the empty string. -/
  | emptyParameter (strategy key : String)
  /-- Two delimiters that are the same text. -/
  | sameDelimiters (strategy delimiter : String)
  /-- A union without a representation. -/
  | unionWithoutRepresentation
  /-- A map key type that is not a string or a string enum; `site` is `map` or
  `inline map`. -/
  | keyNotString (site key : String)
  /-- A stringpairs map with nullable values. -/
  | nullablePairValues
  /-- A stringpairs map whose values have no string form. -/
  | pairValuesNotStrings
  /-- Map values whose string form may hold the entry delimiter. -/
  | valuesMayHoldDelimiter (delimiter : String)
  /-- Map keys whose string form may hold a delimiter. -/
  | keysMayHoldDelimiter (delimiter : String)
  /-- A field name used twice in one struct. -/
  | fieldTwice (field : String)
  /-- An optional field in a tuple struct. -/
  | optionalTupleField (field : String)
  /-- An optional or nullable field in a stringjoin struct. -/
  | optionalJoinedField (field : String)
  /-- A field with no string form in a struct written as a string. -/
  | fieldNotString (field : String)
  /-- A field, not the last, whose string form may hold the join separator. -/
  | fieldMayHoldJoin (field join : String)
  /-- A nullable field in a stringpairs struct. -/
  | nullablePairField (field : String)
  /-- A field whose string form may hold the entry delimiter. -/
  | fieldMayHoldEntry (field entry : String)
  /-- A field name holding one of the delimiters. -/
  | fieldNameHoldsDelimiter (field : String)
  /-- A union with no members. -/
  | emptyUnion
  /-- A discriminant used by two members. -/
  | discriminantTwice (discriminant : String)
  /-- A member type used by two members. -/
  | memberTypeTwice (member : String)
  /-- A kinded union discriminant that is not a kind name. -/
  | notAKind (discriminant : String)
  /-- A kinded union member that is itself a kinded union. -/
  | nestedKindedUnion (member : String)
  /-- A kinded union member whose representation kind differs from its discriminant. -/
  | kindMismatch (member : String) (actual expected : Kind)
  /-- An inline union member with a field named like the discriminant key. -/
  | fieldShadowsDiscriminant (member key : String)
  /-- An inline union member that is not a struct with map representation. -/
  | inlineMemberNotMapStruct (member : String)
  /-- Envelope keys that are the same text. -/
  | sameEnvelopeKeys (key : String)
  /-- A stringprefix member with an empty prefix. -/
  | emptyPrefix (member : String)
  /-- Two stringprefix prefixes of which one starts the other. -/
  | overlappingPrefixes (first second : String)
  /-- A stringprefix member with no string form. -/
  | memberNotString (member : String)
  /-- An enum with no members. -/
  | emptyEnum
  /-- An enum member name used twice. -/
  | enumMemberTwice (member : String)
  /-- An enum representation value used twice. -/
  | enumValueTwice (value : String)
  /-- An int enum member whose value is not a 64-bit integer. -/
  | enumValueNotInt (member value : String)
  /-- A chain of copies that comes back to where it started. -/
  | copyCycle (chain : List String)
  /-- A cycle of required references that no finite value can close. -/
  | recursiveCycle (path : List String)
  deriving DecidableEq, Inhabited, Repr

namespace Violation

/-- The class of a violation. -/
def kind : Violation → ViolationKind
  | redeclaresPrelude _ | declaredTwice _ => .duplicateName
  | invalidName _ => .invalidName
  | unresolved .. => .unresolvedReference
  | keyNotString .. | fieldTwice _ | emptyUnion | discriminantTwice _ | memberTypeTwice _
  | emptyEnum | enumMemberTwice _ | enumValueTwice _ => .invalidDefinition
  | valuesMayHoldDelimiter _ | keysMayHoldDelimiter _ | fieldMayHoldJoin .. | fieldMayHoldEntry ..
  | fieldNameHoldsDelimiter _ | overlappingPrefixes .. => .ambiguousRepresentation
  | copyCycle _ | recursiveCycle _ => .illegalRecursion
  | _ => .invalidRepresentation

/-- The message of a violation. -/
def message : Violation → String
  | redeclaresPrelude n => "`" ++ n ++ "` redeclares a prelude type"
  | invalidName n => "`" ++ n ++ "` is not a valid type name"
  | declaredTwice n => "type `" ++ n ++ "` is declared more than once"
  | unresolved n site => "unresolved reference to `" ++ n ++ "` in " ++ site.describe
  | inlineMapRepresentation site =>
    "inline map in " ++ site.describe ++ " cannot declare a representation"
  | unknownStrategy k s => "unknown " ++ k ++ " representation strategy `" ++ s ++ "`"
  | unexpectedParameter s k => "representation " ++ s ++ " does not take parameter `" ++ k ++ "`"
  | missingParameter s k => "representation " ++ s ++ " requires parameter `" ++ k ++ "`"
  | emptyParameter s k => "representation " ++ s ++ " parameter `" ++ k ++ "` must not be empty"
  | sameDelimiters s d =>
    "representation " ++ s ++ " needs distinct delimiters, both are " ++ Text.quote d
  | unionWithoutRepresentation => "a union must declare a representation"
  | keyNotString site k => site ++ " key type `" ++ k ++ "` is not a string kind"
  | nullablePairValues => "stringpairs representation cannot have nullable values"
  | pairValuesNotStrings => "stringpairs representation needs values that are represented as strings"
  | valuesMayHoldDelimiter d => "map values may contain the entry delimiter " ++ Text.quote d
  | keysMayHoldDelimiter d => "map keys may contain the delimiter " ++ Text.quote d
  | fieldTwice f => "field `" ++ f ++ "` is declared more than once"
  | optionalTupleField f => "tuple representation cannot have optional field `" ++ f ++ "`"
  | optionalJoinedField f =>
    "stringjoin representation cannot have optional or nullable field `" ++ f ++ "`"
  | fieldNotString f => "field `" ++ f ++ "` cannot be represented as a string"
  | fieldMayHoldJoin f j => "field `" ++ f ++ "` may contain the join separator " ++ Text.quote j
  | nullablePairField f => "stringpairs representation cannot have nullable field `" ++ f ++ "`"
  | fieldMayHoldEntry f e =>
    "field `" ++ f ++ "` may contain the entry delimiter " ++ Text.quote e
  | fieldNameHoldsDelimiter f => "field name `" ++ f ++ "` contains a delimiter"
  | emptyUnion => "union has no members"
  | discriminantTwice d => "discriminant " ++ Text.quote d ++ " is used more than once"
  | memberTypeTwice m => "member type `" ++ m ++ "` appears more than once"
  | notAKind d => "`" ++ d ++ "` is not a data model kind"
  | nestedKindedUnion m => "kinded union member `" ++ m ++ "` cannot itself be a kinded union"
  | kindMismatch m actual expected =>
    "member `" ++ m ++ "` is represented as " ++ actual.name ++ ", not " ++ expected.name
  | fieldShadowsDiscriminant m k =>
    "member `" ++ m ++ "` has a field named like the discriminant key " ++ Text.quote k
  | inlineMemberNotMapStruct m =>
    "inline union member `" ++ m ++ "` must be a struct with map representation"
  | sameEnvelopeKeys k => "envelope keys must differ, both are " ++ Text.quote k
  | emptyPrefix m => "member `" ++ m ++ "` has an empty prefix"
  | overlappingPrefixes a b => "prefixes " ++ Text.quote a ++ " and " ++ Text.quote b ++ " overlap"
  | memberNotString m => "member `" ++ m ++ "` cannot be represented as a string"
  | emptyEnum => "enum has no members"
  | enumMemberTwice m => "member `" ++ m ++ "` is declared more than once"
  | enumValueTwice v => "representation value " ++ Text.quote v ++ " is used more than once"
  | enumValueNotInt m v => "member `" ++ m ++ "` needs an integer value, found " ++ Text.quote v
  | copyCycle chain => "copy cycle " ++ " -> ".intercalate chain
  | recursiveCycle path => "recursive cycle " ++ " -> ".intercalate path ++ " has no finite value"

end Violation

/-- A violation and the type that commits it. -/
structure SchemaError where
  /-- The name of the offending type. -/
  typeName : String
  /-- The rule it breaks. -/
  violation : Violation
  deriving DecidableEq, Inhabited, Repr

/-- `type T: message`. -/
def SchemaError.message (e : SchemaError) : String :=
  "type " ++ e.typeName ++ ": " ++ e.violation.message

/-- Every violation of a schema that does not compile, pass by pass. -/
structure CompileError where
  /-- The errors in the order they are reported. -/
  errors : List SchemaError
  deriving DecidableEq, Inhabited, Repr

namespace CompileError

/-- `N schema error(s): type T: msg; type U: msg`. -/
def message (e : CompileError) : String :=
  let n := e.errors.length
  toString n ++ " schema error" ++ (if n = 1 then "" else "s") ++
    String.join (e.errors.zipIdx.map fun (err, i) => (if i = 0 then ": " else "; ") ++ err.message)

/-- The errors of one class, in order. -/
def ofKind (e : CompileError) (k : ViolationKind) : List SchemaError :=
  e.errors.filter (·.violation.kind == k)

end CompileError

end Ipld.Schema
