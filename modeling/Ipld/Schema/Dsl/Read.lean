import Ipld.Schema.Dsl.Scan
import Ipld.Schema.Document

/-!
# Reading a schema document from tokens

A schema text is a sequence of declarations `type Name definition`. A definition is a
keyword (`bool`, `string`, `bytes`, `int`, `float`, `link`), a struct, union or enum body
in braces, a list `[T]`, a map `{K: T}`, a link `&T`, `= Name`, or a bare name, which makes
a copy. Keywords are words like any other, so a field may be called `type`. Nothing is
resolved or checked here: the document is the schema as written.

The reader is a state over the tokens not yet read. Looking past the last token always sees
the end of input. Every loop is given one step per remaining token, which is enough: each
round of a loop, and each level of a type written in place, takes at least one token.
-/

namespace Ipld.Schema.Dsl

open Ipld.Schema

namespace TokenStream

/-- The next token; the end of input once the tokens are used up. -/
def peek (s : TokenStream) : Token := s.tokens.head?.getD s.eof

/-- The stream without its next token. -/
def advance (s : TokenStream) : TokenStream := { s with tokens := s.tokens.tail }

/-- The number of tokens left before the end of input. -/
def size (s : TokenStream) : Nat := s.tokens.length

end TokenStream

/-- A reader of schema tokens: a state over the tokens not yet read, failing with a fault. -/
abbrev Reader := StateT TokenStream (Except Fault)

namespace Reader

/-- The next token, not taken. -/
def peek : Reader Token := return (← get).peek

/-- Take the next token. -/
def advance : Reader Unit := modify TokenStream.advance

/-- Fail with `problem` at token `t`. -/
def fail {α : Type} (problem : Problem) (t : Token) : Reader α := throw (Fault.at problem t)

/-- The number of steps a loop over the rest of the tokens may take. -/
def budget : Reader Nat := return (← get).size + 1

/-- Whether the next token is of kind `k`. -/
def check (k : TokenKind) : Reader Bool := return (← peek).kind == k

/-- Take the next token if it is of kind `k`. -/
def eat (k : TokenKind) : Reader Bool := do
  if (← check k) then
    advance
    return true
  return false

/-- Take the next token if it is the word `w`. -/
def eatWord (w : String) : Reader Bool := do
  if (← peek).isWord w then
    advance
    return true
  return false

/-- Take a token of kind `k`, or fail. -/
def expect (k : TokenKind) : Reader Unit := do
  let t ← peek
  if t.kind == k then advance else fail (.expected k.describe t.kind) t

/-- Take a word, or fail saying that `wanted` was needed. -/
def expectWord (wanted : String) : Reader String := do
  let t ← peek
  match t.kind with
  | .word s =>
    advance
    return s
  | k => fail (.expected wanted k) t

/-- Take a string literal, or fail saying that `wanted` was needed. -/
def expectQuoted (wanted : String) : Reader String := do
  let t ← peek
  match t.kind with
  | .quoted s =>
    advance
    return s
  | k => fail (.expected wanted k) t

/-- Take any run of commas and semicolons. -/
def skipSeparators : Reader Unit :=
  modify fun s => { s with
    tokens := s.tokens.dropWhile fun t => t.kind == .comma || t.kind == .semicolon }

end Reader

open Reader

/-! ## Types written in place -/

/-- `[nullable? T]`, reading `T` with `inner`. -/
def listOf (inner : Reader TypeRef) : Reader (TypeRef × Bool) := do
  expect .lbracket
  let nullable ← eatWord "nullable"
  let v ← inner
  expect .rbracket
  return (v, nullable)

/-- `{K: nullable? T}`, reading `T` with `inner`. -/
def mapOf (inner : Reader TypeRef) : Reader (String × TypeRef × Bool) := do
  expect .lbrace
  let k ← expectWord "a map key type"
  expect .colon
  let nullable ← eatWord "nullable"
  let v ← inner
  expect .rbrace
  return (k, v, nullable)

/-- `&T`: the name of the linked type. -/
def linkTarget : Reader String := do
  expect .amp
  expectWord "the linked type name"

/-- Whether a token can start a type reference. -/
def TokenKind.startsTypeRef : TokenKind → Bool
  | .word _ | .lbracket | .lbrace | .amp => true
  | _ => false

/-- A type reference, nested at most `fuel` deep. -/
def typeRefWithin : Nat → Reader TypeRef
  | 0 => do fail .exhausted (← peek)
  | fuel + 1 => do
    let t ← peek
    match t.kind with
    | .word name =>
      advance
      return .named name
    | .lbracket =>
      let (v, nullable) ← listOf (typeRefWithin fuel)
      return .list v nullable
    | .lbrace =>
      let (k, v, nullable) ← mapOf (typeRefWithin fuel)
      return .map k v nullable none
    | .amp => return .link (some (← linkTarget))
    | k => fail (.expected "a type" k) t

/-- A type reference: a name, or a list, map or link type written in place. -/
def typeRef : Reader TypeRef := do typeRefWithin (← budget)

/-! ## Representations -/

/-- The names of parameters given by position, by strategy; past those, `$i`. -/
def positionalName (strategy : String) (index : Nat) : String :=
  let names : List String :=
    match strategy with
    | "stringjoin" => ["join"]
    | "inline" => ["discriminantKey"]
    | "envelope" => ["discriminantKey", "contentKey"]
    | "stringpairs" => ["innerDelim", "entryDelim"]
    | _ => []
  names[index]?.getD ("$" ++ toString index)

/-- One parameter: a string, named by position, or `name = "value"` (the `=` may be left
out). Returns the name, the value and the next position. -/
def parameter (strategy : String) (index : Nat) : Reader (String × String × Nat) := do
  let t ← peek
  match t.kind with
  | .quoted v =>
    advance
    return (positionalName strategy index, v, index + 1)
  | .word k =>
    advance
    let _ ← eat .equals
    let v ← expectQuoted ("a value for parameter `" ++ k ++ "`")
    return (k, v, index)
  | k => fail (.expected "a representation parameter" k) t

/-- Parameters up to `)`, separated by commas, after the parameters `done`. -/
def parametersWithin (strategy : String) :
    Nat → Nat → List (String × String) → Reader (List (String × String))
  | 0, _, _ => do fail .exhausted (← peek)
  | fuel + 1, index, done => do
    if (← check .rparen) then return done
    let t ← peek
    let (key, value, index') ← parameter strategy index
    if done.any (·.1 == key) then fail (.repeatedParameter key) t
    let done := done ++ [(key, value)]
    if (← eat .comma) then parametersWithin strategy fuel index' done else return done

/-- `representation strategy (params)?`, if the next word is `representation`. -/
def representation? : Reader (Option Representation) := do
  if !(← peek).isWord "representation" then return none
  advance
  let strategy ← expectWord "a representation strategy"
  if (← eat .lparen) then
    let params ← parametersWithin strategy (← budget) 0 []
    expect .rparen
    return some ⟨strategy, params⟩
  return some ⟨strategy, []⟩

/-! ## Bodies -/

/-- Items read by `item` up to `}`, each followed by any separators, after the items
`done`; the end of input inside is an unterminated `construct` body. -/
def itemsWithin {α : Type} (construct : String) (item : Reader α) : Nat → List α → Reader (List α)
  | 0, _ => do fail .exhausted (← peek)
  | fuel + 1, done => do
    if (← check .rbrace) then return done
    let t ← peek
    if t.kind == .eof then fail (.unterminatedBody construct) t
    let x ← item
    skipSeparators
    itemsWithin construct item fuel (done ++ [x])

/-- `{ items }` of a struct, union or enum. -/
def body {α : Type} (construct : String) (item : Reader α) : Reader (List α) := do
  expect .lbrace
  let items ← itemsWithin construct item (← budget) []
  expect .rbrace
  return items

/-- Drop leading `optional` and `nullable` words, noting which were seen. -/
def modifiers : List Token → Bool → Bool → Bool × Bool × List Token
  | t :: rest, optional, nullable =>
    if t.isWord "optional" then modifiers rest true nullable
    else if t.isWord "nullable" then modifiers rest optional true
    else (optional, nullable, t :: rest)
  | [], optional, nullable => (optional, nullable, [])

/-- `name :? optional? nullable? Type`. Without a colon or a modifier the type must start
on the name's own line, so that a field name alone on a line is not read with the next
line's name as its type. -/
def field : Reader (String × Field) := do
  let nameToken ← peek
  let name ← expectWord "a field name"
  let colon ← eat .colon
  let s ← get
  let (optional, nullable, rest) := modifiers s.tokens false false
  set { s with tokens := rest }
  let next ← peek
  let sameLine := colon || optional || nullable || next.pos.line == nameToken.pos.line
  if !next.kind.startsTypeRef || !sameLine then fail (.missingFieldType name) nameToken
  let type ← typeRef
  return (name, ⟨type, optional, nullable⟩)

/-- `"disc" >? Type`, or `Type disc` with the discriminant a word or a string. -/
def unionMember : Reader UnionMember := do
  let t ← peek
  match t.kind with
  | .quoted d =>
    advance
    let _ ← eat .greater
    let type ← expectWord "a union member type name"
    return ⟨d, type⟩
  | .word type =>
    advance
    let d ← peek
    match d.kind with
    | .quoted s | .word s =>
      advance
      return ⟨s, type⟩
    | k => fail (.missingDiscriminant type k) d
  | k => fail (.expected "a union member" k) t

/-- `Name ("value")?`. -/
def enumMember : Reader EnumMember := do
  let name ← expectWord "an enum member name"
  if (← eat .lparen) then
    let v ← expectQuoted "an enum member value"
    expect .rparen
    return ⟨name, some v⟩
  return ⟨name, none⟩

/-- A union or enum member, after an optional `|`. -/
def piped {α : Type} (item : Reader α) : Reader α := do
  let _ ← eat .pipe
  item

/-! ## Declarations -/

/-- The definition after `type Name`. -/
def definition : Reader TypeDefinition := do
  let t ← peek
  match t.kind with
  | .word w =>
    advance
    match w with
    | "bool" => return .bool
    | "string" => return .string
    | "bytes" => return .bytes
    | "int" => return .int
    | "float" => return .float
    | "link" => return .link none
    | "struct" =>
      let fields ← body "struct" field
      return .struct fields (← representation?)
    | "union" =>
      let members ← body "union" (piped unionMember)
      return .union members (← representation?)
    | "enum" =>
      let members ← body "enum" (piped enumMember)
      return .enum members (← representation?)
    | _ => return .copy w
  | .equals =>
    advance
    return .copy (← expectWord "the name of the type to copy")
  | .amp => return .link (some (← linkTarget))
  | .lbracket =>
    let (v, nullable) ← listOf typeRef
    return .list v nullable
  | .lbrace =>
    let (k, v, nullable) ← mapOf typeRef
    return .map k v nullable (← representation?)
  | k => fail (.expected "a type definition" k) t

/-- Declarations up to the end of input, after the declarations `done`. -/
def declarationsWithin :
    Nat → List (String × TypeDefinition) → Reader (List (String × TypeDefinition))
  | 0, _ => do fail .exhausted (← peek)
  | fuel + 1, done => do
    let t ← peek
    if t.kind == .eof then return done
    if !t.isWord "type" then fail (.expected "`type` declaration" t.kind) t
    advance
    let name ← expectWord "a type name"
    let d ← definition
    declarationsWithin fuel (done ++ [(name, d)])

end Ipld.Schema.Dsl

namespace Ipld.Schema

open Dsl

/-- The document that a token stream spells, or the first fault in it. -/
def Document.ofTokens (s : TokenStream) : Except Fault Document :=
  (Document.mk <$> declarationsWithin (s.size + 1) []).run' s

/-- Read a schema text; `sourceName` names it in the error. -/
def Document.parse (sourceName source : String) : Except ParseError Document :=
  (scan source >>= Document.ofTokens).mapError (ParseError.mk sourceName)

end Ipld.Schema
