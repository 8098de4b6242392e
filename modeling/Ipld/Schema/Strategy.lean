import Ipld.Schema.Violation

/-!
# Representation strategies

A written representation names a strategy and gives parameters. Each kind of type has its
own strategies; a strategy takes a fixed set of parameters, some of them required and not
empty. Reading a representation gives the strategy, or every problem with it: parameters
that the strategy does not take are reported all together, before any missing one.

Without a representation a struct and a map are maps and an enum is a string; a union has
no default.
-/

namespace Ipld.Schema

namespace Representation

/-- Succeeds when every parameter is one of `allowed`; otherwise names each other one. -/
def onlyParams (r : Representation) (allowed : List String) : Except (List Violation) Unit :=
  match r.params.filter (fun p => !allowed.contains p.1) with
  | [] => .ok ()
  | extra => .error (extra.map fun p => .unexpectedParameter r.strategy p.1)

/-- The value of a required parameter, which must be given and not be empty. -/
def required (r : Representation) (key : String) : Except (List Violation) String :=
  match r.params.lookup key with
  | none => .error [.missingParameter r.strategy key]
  | some "" => .error [.emptyParameter r.strategy key]
  | some v => .ok v

end Representation

/-- Both results, or the problems of either, those of the first first. -/
def bothOk {α β : Type} : Except (List Violation) α → Except (List Violation) β →
    Except (List Violation) (α × β)
  | .ok a, .ok b => .ok (a, b)
  | .ok _, .error e => .error e
  | .error e, .ok _ => .error e
  | .error e, .error f => .error (e ++ f)

/-- The two distinct delimiters `innerDelim` and `entryDelim` of a `stringpairs`
representation. -/
def Representation.delimiters (r : Representation) : Except (List Violation) (String × String) := do
  r.onlyParams ["innerDelim", "entryDelim"]
  let (inner, entry) ← bothOk (r.required "innerDelim") (r.required "entryDelim")
  if inner = entry then .error [.sameDelimiters r.strategy inner] else pure (inner, entry)

/-- The strategy of a struct. -/
def StructStrategy.ofRepresentation : Option Representation → Except (List Violation) StructStrategy
  | none => .ok .map
  | some r =>
    match r.strategy with
    | "map" => r.onlyParams [] *> pure .map
    | "tuple" => r.onlyParams [] *> pure .tuple
    | "listpairs" => r.onlyParams [] *> pure .listpairs
    | "stringjoin" => do
      r.onlyParams ["join"]
      return .stringjoin (← r.required "join")
    | "stringpairs" => do
      let (inner, entry) ← r.delimiters
      return .stringpairs inner entry
    | other => .error [.unknownStrategy "struct" other]

/-- The strategy of a union, which must be written. -/
def UnionStrategy.ofRepresentation : Option Representation → Except (List Violation) UnionStrategy
  | none => .error [.unionWithoutRepresentation]
  | some r =>
    match r.strategy with
    | "keyed" => r.onlyParams [] *> pure .keyed
    | "kinded" => r.onlyParams [] *> pure .kinded
    | "stringprefix" => r.onlyParams [] *> pure .stringPrefix
    | "inline" => do
      r.onlyParams ["discriminantKey"]
      return .inline (← r.required "discriminantKey")
    | "envelope" => do
      r.onlyParams ["discriminantKey", "contentKey"]
      let (key, content) ← bothOk (r.required "discriminantKey") (r.required "contentKey")
      return .envelope key content
    | other => .error [.unknownStrategy "union" other]

/-- The strategy of an enum. -/
def EnumStrategy.ofRepresentation : Option Representation → Except (List Violation) EnumStrategy
  | none => .ok .string
  | some r =>
    match r.strategy with
    | "string" => r.onlyParams [] *> pure .string
    | "int" => r.onlyParams [] *> pure .int
    | other => .error [.unknownStrategy "enum" other]

/-- The strategy of a map. -/
def MapStrategy.ofRepresentation : Option Representation → Except (List Violation) MapStrategy
  | none => .ok .map
  | some r =>
    match r.strategy with
    | "map" => r.onlyParams [] *> pure .map
    | "listpairs" => r.onlyParams [] *> pure .listpairs
    | "stringpairs" => do
      let (inner, entry) ← r.delimiters
      return .stringpairs inner entry
    | other => .error [.unknownStrategy "map" other]

end Ipld.Schema
