import Ipld.Json.Read
import Ipld.Text.Quoted

/-!
# Typed reading of JSON text

A decoder reads JSON text straight into a typed value, as a streaming deserializer does,
and reports the first failure with three things: what went wrong, where in the text (line
and byte column), and where in the document (the keys and indices from the top, written
`types.A.struct.fields` or `members[0]`).

* A failure of syntax is placed where it was found. A failure that a decoder finds in what
  it read (a value of the wrong type, a missing field) is placed where the text stands once
  the innermost enclosing value has been finished: after the closing bracket of a container,
  if one follows at once.
* The path is the one of the innermost value, key or item being read when the failure
  arose; a key that could not be read shows as `?`, and a failure outside every value has
  the path `.`, which the message leaves out.
* Containers nest at most 127 deep. Values that a record does not know are skipped, with a
  check of their syntax only.
-/

namespace Ipld.Json

/-- One step from a value into a part of it. -/
inductive Step where
  /-- An item of a list. -/
  | index (i : Nat)
  /-- The value under a key, a field, or the payload of a variant. -/
  | key (k : String)
  /-- The value under a key that could not be read. -/
  | unknown
  deriving Inhabited, BEq

/-- The steps from the top of a document to a value. -/
abbrev Path := List Step

/-- The text of a step. -/
def Step.render : Step → String
  | .index i => "[" ++ toString i ++ "]"
  | .key k => k
  | .unknown => "?"

/-- The text of a path: steps joined by dots, items written without one; the top is `.`. -/
def renderPath (p : Path) : String :=
  if p.isEmpty then "."
  else String.join (p.mapIdx fun i s =>
    match s with
    | .index _ => s.render
    | _ => (if i == 0 then "" else ".") ++ s.render)

/-- A value found where another was expected, as failures name it. -/
inductive Unexpected where
  | bool (b : Bool)
  | unsigned (n : Nat)
  | signed (i : Int)
  | float (x : Binary64)
  | str (s : String)
  | null
  | seq
  | map
  /-- A variant given by its bare name. -/
  | unitVariant
  deriving Inhabited

/-- How a failure names what it found. -/
def Unexpected.describe : Unexpected → String
  | .bool b => "boolean `" ++ (if b then "true" else "false") ++ "`"
  | .unsigned n => "integer `" ++ toString n ++ "`"
  | .signed i => "integer `" ++ toString i ++ "`"
  | .float x => "floating point `" ++ x.toJsonText ++ "`"
  | .str s => "string " ++ Text.quote s
  | .null => "null"
  | .seq => "sequence"
  | .map => "map"
  | .unitVariant => "unit variant"

/-- What a number found in the text is called in a failure. -/
def Number.found : Number → Unexpected
  | .unsigned n => .unsigned n
  | .signed i => .signed i
  | .float x => .float x

/-- Names in backticks: `a`, `a` or `b`, or one of `a`, `b`, `c`. -/
def oneOf (names : List String) : String :=
  let tick (s : String) : String := "`" ++ s ++ "`"
  match names with
  | [a] => tick a
  | [a, b] => tick a ++ " or " ++ tick b
  | _ => "one of " ++ ", ".intercalate (names.map tick)

/-- Why a decoder failed. -/
inductive Problem where
  /-- The text is not JSON. -/
  | malformed (code : ErrorCode)
  /-- A value of another kind than the one expected. -/
  | invalidType (found : Unexpected) (expected : String)
  /-- A value of the right kind outside the expected range. -/
  | invalidValue (found : Unexpected) (expected : String)
  /-- A list with too few items. -/
  | invalidLength (count : Nat) (expected : String)
  /-- A variant name that the type does not have. -/
  | unknownVariant (name : String) (variants : List String)
  /-- A required field that is absent. -/
  | missingField (name : String)
  /-- A field given twice. -/
  | duplicateField (name : String)
  /-- A failure that the decoder words itself. -/
  | custom (message : String)
  deriving Inhabited

/-- The text of a problem. -/
def Problem.message : Problem → String
  | .malformed c => c.message
  | .invalidType u e => "invalid type: " ++ u.describe ++ ", expected " ++ e
  | .invalidValue u e => "invalid value: " ++ u.describe ++ ", expected " ++ e
  | .invalidLength n e => "invalid length " ++ toString n ++ ", expected " ++ e
  | .unknownVariant v [] => "unknown variant `" ++ v ++ "`, there are no variants"
  | .unknownVariant v vs => "unknown variant `" ++ v ++ "`, expected " ++ oneOf vs
  | .missingField f => "missing field `" ++ f ++ "`"
  | .duplicateField f => "duplicate field `" ++ f ++ "`"
  | .custom m => m

/-- A failure, with where it was found in the text and in the document, once known. -/
structure Failure where
  /-- What went wrong. -/
  problem : Problem
  /-- The position in the text. -/
  pos : Option Pos
  /-- The path in the document. -/
  path : Option Path
  deriving Inhabited

/-- `at PATH: PROBLEM at line L column C`, without the parts that are not known. -/
def Failure.message (e : Failure) : String :=
  let inner := e.problem.message ++
    match e.pos with
    | some p => " at line " ++ toString p.line ++ " column " ++ toString p.column
    | none => ""
  match e.path with
  | some p => if p.isEmpty then inner else "at " ++ renderPath p ++ ": " ++ inner
  | none => inner

/-- The state of a decoder: the text left and how many containers may still open. -/
structure DecodeState where
  /-- The text left. -/
  cursor : Cursor
  /-- One more than the containers that may still open. -/
  depth : Nat
  deriving Inhabited

/-- A decoding step. The state survives a failure, so that what is read after a failure
(the closing bracket of a container) still moves the position it is reported at. -/
abbrev Decoder := ExceptT Failure (StateM DecodeState)

namespace Decoder

/-- Run a reading step. -/
def read {α : Type} (r : Reader α) : Decoder α := do
  let s ← get
  match r.run s.cursor with
  | .ok (a, c) =>
    set (⟨c, s.depth⟩ : DecodeState)
    pure a
  | .error e => throw ⟨.malformed e.code, some e.pos, none⟩

/-- Skip blanks and look at what follows. -/
def blanks : Decoder (Option Char) := read skipBlanks

/-- The position reached. -/
def here : Decoder Pos := read position

/-- A failure of syntax at the position reached. -/
def failHere {α : Type} (c : ErrorCode) : Decoder α := do
  throw ⟨.malformed c, some (← here), none⟩

/-- A failure of syntax one byte ahead. -/
def failAhead {α : Type} (c : ErrorCode) : Decoder α := do
  throw ⟨.malformed c, some (← read peekPosition), none⟩

/-- A failure found in what was read; its position is given later. -/
def mismatch {α : Type} (p : Problem) : Decoder α := throw ⟨p, none, none⟩

/-- Give a failure without a position the position reached. -/
def placed {α : Type} (d : Decoder α) : Decoder α :=
  tryCatch d fun e => do
    match e.pos with
    | some _ => throw e
    | none => throw ⟨e.problem, some (← here), e.path⟩

/-- Give a failure the path `p`, unless a step inside gave it one. -/
def within {α : Type} (p : Path) (d : Decoder α) : Decoder α :=
  tryCatch d fun e =>
    match e.path with
    | some _ => throw e
    | none => throw ⟨e.problem, e.pos, some p⟩

/-- Run a step and keep its failure as a value. -/
def attempt {α : Type} (d : Decoder α) : Decoder (Except Failure α) :=
  tryCatch (Except.ok <$> d) fun e => pure (.error e)

/-- Open the container whose bracket is next. -/
def enter : Decoder Unit := do
  let s ← get
  if s.depth ≤ 1 then failAhead .recursionLimitExceeded
  else
    set (⟨s.cursor, s.depth - 1⟩ : DecodeState)
    read eat

/-- Leave a container. -/
def leave : Decoder Unit := modify fun s => ⟨s.cursor, s.depth + 1⟩

/-- The end of a list. -/
def endSeq : Decoder Unit := do
  match ← blanks with
  | some ']' => read eat
  | some ',' =>
    read eat
    match ← blanks with
    | some ']' => failAhead .trailingComma
    | _ => failAhead .trailingCharacters
  | some _ => failAhead .trailingCharacters
  | none => failAhead .eofWhileParsingList

/-- The end of a map. -/
def endMap : Decoder Unit := do
  match ← blanks with
  | some '}' => read eat
  | some ',' => failAhead .trailingComma
  | some _ => failAhead .trailingCharacters
  | none => failAhead .eofWhileParsingObject

/-- A container: open it, read what is inside with `body`, then its end, which is read even
when the inside failed. The first failure wins. -/
def container {α : Type} (body : Decoder α) (close : Decoder Unit) : Decoder α := do
  enter
  let r ← attempt body
  let c ← attempt close
  leave
  match r, c with
  | .error e, _ => throw e
  | .ok _, .error e => throw e
  | .ok a, .ok _ => pure a

/-- Read a keyword whose first letter is next. -/
def word (w : List Char) : Decoder Unit := do
  read eat
  read (expectWord (w.drop 1))

/-- Fail because the next value is not `expected`. A scalar is read first, so that the
failure names it and stands after it. -/
def wrongType {α : Type} (expected : String) : Decoder α := do
  let found ← match ← blanks with
    | some 'n' => do word ['n', 'u', 'l', 'l']; pure Unexpected.null
    | some 't' => do word ['t', 'r', 'u', 'e']; pure (Unexpected.bool true)
    | some 'f' => do word ['f', 'a', 'l', 's', 'e']; pure (Unexpected.bool false)
    | some '-' => do read eat; pure (← read (readNumber false)).found
    | some '"' => do read eat; pure (Unexpected.str (← read readString))
    | some '[' => pure Unexpected.seq
    | some '{' => pure Unexpected.map
    | some c =>
      if c.isDigit then do pure (← read (readNumber true)).found
      else failAhead .expectedSomeValue
    | none => failAhead .expectedSomeValue
  throw ⟨.invalidType found expected, some (← here), none⟩

/-- A string, handed to `accept`; `expected` names what the decoder wants. -/
def textWith {α : Type} (expected : String) (accept : String → Except Problem α) :
    Decoder α :=
  placed do
    match ← blanks with
    | none => failAhead .eofWhileParsingValue
    | some '"' =>
      read eat
      match accept (← read readString) with
      | .ok a => pure a
      | .error p => mismatch p
    | some _ => wrongType expected

/-- Any string. -/
def text : Decoder String := textWith "a string" .ok

/-- A boolean. -/
def bool : Decoder Bool :=
  placed do
    match ← blanks with
    | none => failAhead .eofWhileParsingValue
    | some 't' => word ['t', 'r', 'u', 'e']; pure true
    | some 'f' => word ['f', 'a', 'l', 's', 'e']; pure false
    | some _ => wrongType "a boolean"

/-- `null` for nothing, else a value. -/
def optional {α : Type} (inner : Decoder α) : Decoder (Option α) := do
  match ← blanks with
  | some 'n' => word ['n', 'u', 'l', 'l']; pure none
  | _ => some <$> inner

mutual

/-- Skip a value, checking its syntax only. -/
def skipValue : Nat → Decoder Unit
  | 0 => failHere .recursionLimitExceeded
  | fuel + 1 => do
    match ← blanks with
    | none => failAhead .eofWhileParsingValue
    | some 'n' => word ['n', 'u', 'l', 'l']
    | some 't' => word ['t', 'r', 'u', 'e']
    | some 'f' => word ['f', 'a', 'l', 's', 'e']
    | some '-' => read eat; read skipNumber
    | some '"' => read eat; read skipString
    | some '[' => read eat; skipItems fuel false
    | some '{' => read eat; skipMembers fuel false
    | some c => if c.isDigit then read skipNumber else failAhead .expectedSomeValue

/-- Skip the items of a list up to its closing bracket; `afterItem` once an item was read. -/
def skipItems : Nat → Bool → Decoder Unit
  | 0, _ => failHere .recursionLimitExceeded
  | fuel + 1, afterItem => do
    match ← blanks with
    | some ']' => read eat
    | some ',' =>
      if afterItem then read eat
      skipValue fuel
      skipItems fuel true
    | some _ =>
      if afterItem then failAhead .expectedListCommaOrEnd
      else
        skipValue fuel
        skipItems fuel true
    | none => failAhead .eofWhileParsingList

/-- Skip the entries of a map up to its closing brace; `afterEntry` once one was read. -/
def skipMembers : Nat → Bool → Decoder Unit
  | 0, _ => failHere .recursionLimitExceeded
  | fuel + 1, afterEntry => do
    match ← blanks with
    | some '}' => read eat
    | some c =>
      if c == ',' && afterEntry then read eat
      else if afterEntry then failAhead .expectedObjectCommaOrEnd
      match ← blanks with
      | some '"' => read eat; read skipString
      | some _ => failAhead .keyMustBeAString
      | none => failAhead .eofWhileParsingObject
      match ← blanks with
      | some ':' => read eat
      | some _ => failAhead .expectedColon
      | none => failAhead .eofWhileParsingObject
      skipValue fuel
      skipMembers fuel true
    | none => failAhead .eofWhileParsingObject

end

mutual

/-- Any value, kept as JSON; the parts of containers are read at their paths. -/
def anyValue (path : Path) : Nat → Decoder Json
  | 0 => failHere .recursionLimitExceeded
  | fuel + 1 => placed do
    match ← blanks with
    | none => failAhead .eofWhileParsingValue
    | some 'n' => word ['n', 'u', 'l', 'l']; pure .null
    | some 't' => word ['t', 'r', 'u', 'e']; pure (.bool true)
    | some 'f' => word ['f', 'a', 'l', 's', 'e']; pure (.bool false)
    | some '-' => read eat; return (← read (readNumber false)).toJson
    | some '"' => read eat; return .string (← read readString)
    | some '[' => return .array (← container (anyItems path fuel 0) endSeq)
    | some '{' => return .object (← container (anyEntries path fuel true) endMap)
    | some c =>
      if c.isDigit then return (← read (readNumber true)).toJson
      else failAhead .expectedSomeValue

/-- The items of a list from index `i` on. -/
def anyItems (path : Path) : Nat → Nat → Decoder (List Json)
  | 0, _ => failHere .recursionLimitExceeded
  | fuel + 1, i => do
    let step := path ++ [.index i]
    let item ← within step do
      if ← read (nextItem (i == 0)) then some <$> anyValue step fuel else pure none
    match item with
    | none => pure []
    | some v => return v :: (← anyItems path fuel (i + 1))

/-- The entries of a map. -/
def anyEntries (path : Path) : Nat → Bool → Decoder (List (String × Json))
  | 0, _ => failHere .recursionLimitExceeded
  | fuel + 1, first => do
    match ← within (path ++ [.unknown]) (read (nextKey first)) with
    | none => pure []
    | some k =>
      let step := path ++ [.key k]
      let v ← within step do
        read readColon
        anyValue step fuel
      return (k, v) :: (← anyEntries path fuel false)

end

/-- The items of a list from index `i` on, each read by `item` at its path. -/
def items {α : Type} (item : Path → Decoder α) (path : Path) : Nat → Nat → Decoder (List α)
  | 0, _ => failHere .recursionLimitExceeded
  | fuel + 1, i => do
    let step := path ++ [.index i]
    let next ← within step do
      if ← read (nextItem (i == 0)) then some <$> item step else pure none
    match next with
    | none => pure []
    | some a => return a :: (← items item path fuel (i + 1))

/-- A list; `expected` names it in failures. -/
def seq {α : Type} (expected : String) (item : Path → Decoder α) (fuel : Nat) (path : Path) :
    Decoder (List α) :=
  placed do
    match ← blanks with
    | none => failAhead .eofWhileParsingValue
    | some '[' => container (items item path fuel 0) endSeq
    | some _ => wrongType expected

/-- The entries of a map, each value read by `value` at its path. -/
def entries {α : Type} (value : Path → Decoder α) (path : Path) :
    Nat → Bool → Decoder (List (String × α))
  | 0, _ => failHere .recursionLimitExceeded
  | fuel + 1, first => do
    match ← within (path ++ [.unknown]) (read (nextKey first)) with
    | none => pure []
    | some k =>
      let step := path ++ [.key k]
      let v ← within step do
        read readColon
        value step
      return (k, v) :: (← entries value path fuel false)

/-- A map with text keys, its entries in order and repeated keys kept. -/
def map {α : Type} (expected : String) (value : Path → Decoder α) (fuel : Nat) (path : Path) :
    Decoder (List (String × α)) :=
  placed do
    match ← blanks with
    | none => failAhead .eofWhileParsingValue
    | some '{' => container (entries value path fuel true) endMap
    | some _ => wrongType expected

end Decoder

/-- How to read a record with named fields into a value of type `α`, collecting what has
been read in a builder of type `σ`. A record is written as a map from field names (unknown
names are skipped, a name given twice fails) or as a list of the fields in order (missing
trailing fields that have a default take it). -/
structure Record (σ α : Type) where
  /-- What the record is called in failures. -/
  expected : String
  /-- The field names, in order. -/
  names : List String
  /-- The builder before any field. -/
  empty : σ
  /-- Whether field `i` has been read. -/
  filled : σ → Nat → Bool
  /-- Whether field `i` must be given. -/
  required : Nat → Bool
  /-- Read field `i` at a path into the builder. -/
  field : Nat → Path → σ → Decoder σ
  /-- The value, once every field was read or is known to be absent; a missing required
  field fails here, the first in order. -/
  build : σ → Except Problem α

namespace Record

open Decoder

/-- `struct X with 2 elements`: what a record written as a list expects. -/
def withCount {σ α : Type} (r : Record σ α) : String :=
  r.expected ++ " with " ++ toString r.names.length ++
    (if r.names.length == 1 then " element" else " elements")

/-- The fields given as a map. -/
def fromEntries {σ α : Type} (r : Record σ α) (path : Path) : Nat → Bool → σ → Decoder σ
  | 0, _, _ => failHere .recursionLimitExceeded
  | fuel + 1, first, s => do
    match ← within (path ++ [.unknown]) (read (nextKey first)) with
    | none => pure s
    | some k =>
      let step := path ++ [.key k]
      match r.names.findIdx? (· == k) with
      | some i =>
        if r.filled s i then mismatch (.duplicateField k)
        else
          let s ← within step do
            read readColon
            r.field i step s
          r.fromEntries path fuel false s
      | none =>
        within step do
          read readColon
          skipValue fuel
        r.fromEntries path fuel false s

/-- The fields given as a list, from field `i` on. -/
def fromItems {σ α : Type} (r : Record σ α) (path : Path) : Nat → Nat → Bool → σ → Decoder σ
  | 0, _, _, s => pure s
  | left + 1, i, first, s => do
    let step := path ++ [.index i]
    let next ← within step do
      if ← read (nextItem first) then some <$> r.field i step s else pure none
    match next with
    | some s => r.fromItems path left (i + 1) false s
    | none =>
      if r.required i then mismatch (.invalidLength i r.withCount)
      else r.fromItems path left (i + 1) first s

/-- Finish a builder. -/
def finish {σ α : Type} (r : Record σ α) (s : σ) : Decoder α :=
  match r.build s with
  | .ok a => pure a
  | .error p => mismatch p

/-- A record, written as a map or as a list. -/
def decode {σ α : Type} (r : Record σ α) (fuel : Nat) (path : Path) : Decoder α :=
  placed do
    match ← blanks with
    | none => failAhead .eofWhileParsingValue
    | some '{' => container (do r.finish (← r.fromEntries path fuel true r.empty)) endMap
    | some '[' =>
      container (do r.finish (← r.fromItems path r.names.length 0 true r.empty)) endSeq
    | some _ => wrongType r.expected

end Record

namespace Decoder

/-- How the payload of a variant is given. -/
inductive Payload where
  /-- After the name, as the value of a map of one entry. -/
  | given
  /-- Not at all: the variant is its bare name. -/
  | absent
  deriving DecidableEq, Inhabited

/-- A value of a sum type: a map of one entry from a variant name to its payload, or the
bare name. `payload` reads the rest, at the path of the variant. -/
def tagged {α : Type} (variants : List String) (payload : String → Payload → Path → Decoder α)
    (path : Path) : Decoder α := do
  let identify := textWith "variant identifier" fun s =>
    if variants.contains s then .ok s else .error (.unknownVariant s variants)
  match ← blanks with
  | some '{' =>
    enter
    let v ← within path do
      let v ← identify
      read readColon
      pure v
    let a ← within (path ++ [.key v]) (payload v .given (path ++ [.key v]))
    leave
    match ← blanks with
    | some '}' => read eat; pure a
    | some _ => failHere .expectedSomeValue
    | none => failHere .eofWhileParsingObject
  | some '"' =>
    let v ← within path identify
    within (path ++ [.key v]) (payload v .absent (path ++ [.key v]))
  | some _ => failAhead .expectedSomeValue
  | none => failAhead .eofWhileParsingValue

/-- Decode a whole text from its start; what follows the value is not looked at. -/
def runText {α : Type} (d : Decoder α) (s : String) : Except Failure α :=
  (d.run.run ⟨Cursor.ofString s, 128⟩).1

/-- Fuel for a text: more than the steps any decoder takes on it. -/
def fuelFor (s : String) : Nat := 2 * s.length + 8

end Decoder

end Ipld.Json
