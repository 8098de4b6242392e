import Ipld.Schema.Strategy
import Ipld.Schema.Check
import Ipld.Schema.Cycles

/-!
# Compiling a schema document

Compiling turns a document into a type system, or reports every violation. It runs four
passes, and the errors come pass by pass, each pass in declaration order:

1. *names*: a declared name must not be a prelude name, must be a letter followed by
   letters, digits and `_`, and must not be declared twice; the first declaration of each
   good name enters the table;
2. *references*: every name used must be a prelude or table name; each definition is
   drafted with its strategy resolved (a strategy that cannot be read is reported and its
   kind's default used), and copies are followed to the definition they copy;
3. *definitions*: the rules of `Ipld.Schema.Check` for each type that is not a copy;
4. *recursion*: chains of copies that return to their start, and cycles of required
   references without a finite value.

A violation's pass follows from its kind, so the compiler gathers violations in the order
it finds them and reports them sorted by pass, keeping that order within each pass.
-/

namespace Ipld.Schema

/-- Whether a text is a type name: an ASCII letter, then ASCII letters, digits and `_`. -/
def isTypeName (s : String) : Bool :=
  match s.toList with
  | c :: cs => c.isAlpha && cs.all fun d => d.isAlphanum || d = '_'
  | [] => false

/-- The name table: the first declaration of each good name, and the violations of the
names pass. -/
def nameTable (d : Document) : List (String × TypeDefinition) × List SchemaError :=
  d.types.foldl (fun (table, errors) (name, defn) =>
    if preludeNames.contains name then (table, errors ++ [⟨name, .redeclaresPrelude name⟩])
    else if !isTypeName name then (table, errors ++ [⟨name, .invalidName name⟩])
    else if table.any (·.1 == name) then (table, errors ++ [⟨name, .declaredTwice name⟩])
    else (table ++ [(name, defn)], errors)) ([], [])

/-- A definition after resolution: a type, or a copy of the named type. -/
inductive Draft where
  | ready (t : SchemaType)
  | copy (fromType : String)
  deriving Inhabited

/-- Resolving the references of one definition, given which names are known. -/
structure Resolver where
  /-- Whether a name is a prelude or table name. -/
  known : String → Bool

namespace Resolver

/-- The violation of an unknown name at `site`. -/
def check (cx : Resolver) (name : String) (site : Site) : List Violation :=
  if cx.known name then [] else [.unresolved name site]

/-- Resolve a reference, checking each name in it; a map written in place may not carry a
representation. -/
def ref (cx : Resolver) (site : Site) : TypeRef → Ref × List Violation
  | .named n => (.named n, cx.check n site)
  | .list v nullable =>
    let (r, vs) := cx.ref site v
    (.list r nullable, vs)
  | .map k v nullable repr =>
    let (r, vs) := cx.ref site v
    (.map k r nullable,
      cx.check k site ++ (if repr.isSome then [.inlineMapRepresentation site] else []) ++ vs)
  | .link expected => (.link expected, (expected.map fun e => cx.check e site).getD [])

/-- A strategy, or the default of its kind and the problems found reading the written one. -/
def strategyOr {σ : Type} (result : Except (List Violation) σ) (default : σ) : σ × List Violation :=
  match result with
  | .ok s => (s, [])
  | .error vs => (default, vs)

/-- Draft a definition: resolve its references and strategy. A copy of an unknown type
gives no draft. -/
def draft (cx : Resolver) : TypeDefinition → Option Draft × List Violation
  | .bool => (some (.ready .bool), [])
  | .string => (some (.ready .string), [])
  | .bytes => (some (.ready .bytes), [])
  | .int => (some (.ready .int), [])
  | .float => (some (.ready .float), [])
  | .link expected =>
    (some (.ready (.link expected)), (expected.map fun e => cx.check e .linkTarget).getD [])
  | .list v nullable =>
    let (r, vs) := cx.ref .listValues v
    (some (.ready (.list r nullable)), vs)
  | .map k v nullable repr =>
    let keys := cx.check k .mapKeys
    let (r, vs) := cx.ref .mapValues v
    let (s, ws) := strategyOr (MapStrategy.ofRepresentation repr) .map
    (some (.ready (.map k r nullable s)), keys ++ vs ++ ws)
  | .struct fields repr =>
    let resolved := fields.map fun (name, f) =>
      let (r, vs) := cx.ref (.field name) f.type
      ((⟨name, r, f.optional, f.nullable⟩ : StructField), vs)
    let (s, ws) := strategyOr (StructStrategy.ofRepresentation repr) .map
    (some (.ready (.struct (resolved.map (·.1)) s)), resolved.flatMap (·.2) ++ ws)
  | .union members repr =>
    let vs := members.flatMap fun m => cx.check m.type (.unionMember m.discriminant)
    let (s, ws) := strategyOr (UnionStrategy.ofRepresentation repr) .keyed
    (some (.ready (.union members s)), vs ++ ws)
  | .enum members repr =>
    let values := members.map fun m => (⟨m.name, m.value.getD m.name⟩ : EnumValue)
    let (s, ws) := strategyOr (EnumStrategy.ofRepresentation repr) .string
    (some (.ready (.enum values s)), ws)
  | .copy fromType =>
    if cx.known fromType then (some (.copy fromType), []) else (none, [.unresolved fromType .copySource])

end Resolver

/-- Follow copies from `current`, the names in `chain` already passed, at most `fuel`
steps. Gives the copied type, `none` when the chain reaches a name without a draft, or the
chain that returns to one of its names. -/
def followCopies (drafts : List (String × Draft)) :
    Nat → List String → String → Except (List String) (Option SchemaType)
  | 0, _, _ => .ok none
  | fuel + 1, chain, current =>
    if chain.contains current then .error (chain ++ [current])
    else
      match prelude.lookup current with
      | some t => .ok (some t)
      | none =>
        match drafts.lookup current with
        | some (.ready t) => .ok (some t)
        | some (.copy next) => followCopies drafts fuel (chain ++ [current]) next
        | none => .ok none

/-- Build the type system from the drafts, in their order: a copy takes the type it copies,
a copy of a name without a draft is left out, and a copy cycle is a violation. Each step of
a chain passes a distinct drafted name, so one step per draft, and one more, suffice. -/
def assemble (drafts : List (String × Draft)) : TypeSystem × List SchemaError :=
  let (types, errors) := drafts.foldl (fun (types, errors) (name, d) =>
    match d with
    | .ready t => (types ++ [(name, t)], errors)
    | .copy fromType =>
      match followCopies drafts (drafts.length + 1) [name] fromType with
      | .ok (some t) => (types ++ [(name, t)], errors)
      | .ok none => (types, errors)
      | .error chain => (types, errors ++ [⟨name, .copyCycle chain⟩])) ([], [])
  (⟨prelude ++ types⟩, errors)

/-- The definitions pass: the rules of each table type that is not a copy and made it into
the system. -/
def definitionErrors (ts : TypeSystem) (table : List (String × TypeDefinition)) : List SchemaError :=
  table.flatMap fun (name, defn) =>
    match defn, ts.get? name with
    | .copy _, _ => []
    | _, some t => (ts.violations t).map fun v => ⟨name, v⟩
    | _, none => []

/-- Errors ordered pass by pass, keeping their order within a pass. -/
def byPass (errors : List SchemaError) : List SchemaError :=
  [0, 1, 2, 3].flatMap fun p => errors.filter (·.violation.kind.pass == p)

/-- Compile a document into a type system, or report every violation, pass by pass. -/
def Document.compile (d : Document) : Except CompileError TypeSystem :=
  let (table, nameErrors) := nameTable d
  let cx : Resolver := ⟨fun n => preludeNames.contains n || table.any (·.1 == n)⟩
  let drafted := table.map fun (name, defn) => (name, cx.draft defn)
  let drafts := drafted.filterMap fun (name, (d, _)) => d.map fun d => (name, d)
  let resolveErrors := drafted.flatMap fun (name, (_, vs)) => vs.map fun v => ⟨name, v⟩
  let (ts, copyErrors) := assemble drafts
  let errors := nameErrors ++ resolveErrors ++ copyErrors ++ definitionErrors ts table ++
    ts.recursionErrors
  if errors.isEmpty then .ok ts else .error ⟨byPass errors⟩

end Ipld.Schema
