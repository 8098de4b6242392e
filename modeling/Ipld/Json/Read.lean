import Ipld.Json.Value
import Ipld.Decimal.Notation

/-!
# Reading JSON text

A reader over the characters of a JSON text that keeps the position a diagnostic
reports: the line (from 1) and the column, which counts the bytes of UTF-8 already read on
that line. The text is read a byte at a time: a failure found on reading a byte is
reported at the position after that byte, even when the byte starts a character of several
bytes, and a failure found by looking at the next byte without reading it is reported one
byte further, or at the end of the text.

Numbers follow the rules of machine JSON readers: integer syntax within the unsigned
64-bit range is an unsigned integer, negative integer syntax within the signed range a
signed integer, and everything else a float. A float is its first nineteen or twenty
significant digits (further digits are dropped) scaled by a power of ten, each step
rounded to binary64; an exponent that would reach infinity is an error, one too small
gives zero. Containers may nest 127 deep.

`Json.parse` reads one value from the start of a text and ignores what follows it.
-/

namespace Ipld.Json

/-- A position in JSON text: a line from 1 and a byte column from 0. -/
structure Pos where
  /-- The line, from 1. -/
  line : Nat
  /-- Bytes read on the line so far. -/
  column : Nat
  deriving DecidableEq, Inhabited

/-- The failures of the reader. -/
inductive ErrorCode
  | eofWhileParsingList
  | eofWhileParsingObject
  | eofWhileParsingString
  | eofWhileParsingValue
  | expectedColon
  | expectedListCommaOrEnd
  | expectedObjectCommaOrEnd
  | expectedSomeIdent
  | expectedSomeValue
  | invalidEscape
  | invalidNumber
  | numberOutOfRange
  | controlCharacterWhileParsingString
  | keyMustBeAString
  | loneLeadingSurrogateInHexEscape
  | trailingComma
  | trailingCharacters
  | unexpectedEndOfHexEscape
  | recursionLimitExceeded
  /-- A failure reported by whatever interprets the text. -/
  | custom (message : String)
  deriving Inhabited

/-- The text of a failure. -/
def ErrorCode.message : ErrorCode → String
  | .eofWhileParsingList => "EOF while parsing a list"
  | .eofWhileParsingObject => "EOF while parsing an object"
  | .eofWhileParsingString => "EOF while parsing a string"
  | .eofWhileParsingValue => "EOF while parsing a value"
  | .expectedColon => "expected `:`"
  | .expectedListCommaOrEnd => "expected `,` or `]`"
  | .expectedObjectCommaOrEnd => "expected `,` or `\x7d`"
  | .expectedSomeIdent => "expected ident"
  | .expectedSomeValue => "expected value"
  | .invalidEscape => "invalid escape"
  | .invalidNumber => "invalid number"
  | .numberOutOfRange => "number out of range"
  | .controlCharacterWhileParsingString =>
    "control character (\\u0000-\\u001F) found while parsing a string"
  | .keyMustBeAString => "key must be a string"
  | .loneLeadingSurrogateInHexEscape => "lone leading surrogate in hex escape"
  | .trailingComma => "trailing comma"
  | .trailingCharacters => "trailing characters"
  | .unexpectedEndOfHexEscape => "unexpected end of hex escape"
  | .recursionLimitExceeded => "recursion limit exceeded"
  | .custom m => m

/-- A failure and where it was found. -/
structure ReadError where
  /-- What went wrong. -/
  code : ErrorCode
  /-- Where. -/
  pos : Pos
  deriving Inhabited

/-- `message at line L column C`. -/
def ReadError.render (e : ReadError) : String :=
  e.code.message ++ " at line " ++ toString e.pos.line ++ " column " ++ toString e.pos.column

/-- The unread text and the position reached. -/
structure Cursor where
  /-- Characters not read yet. -/
  rest : List Char
  /-- Position after the characters read. -/
  pos : Pos
  deriving Inhabited

/-- A cursor at the start of a text. -/
def Cursor.ofString (s : String) : Cursor := ⟨s.toList, ⟨1, 0⟩⟩

/-- A reading step: it may fail, and it moves the cursor. -/
abbrev Reader := StateT Cursor (Except ReadError)

/-- The next character, not read. -/
def peek? : Reader (Option Char) := do return (← get).rest.head?

/-- The position after the characters read. -/
def position : Reader Pos := do return (← get).pos

/-- The position one byte after the next character starts (or the end). -/
def peekPosition : Reader Pos := do
  let c ← get
  match c.rest with
  | [] => return c.pos
  | '\n' :: _ => return ⟨c.pos.line + 1, 0⟩
  | _ :: _ => return ⟨c.pos.line, c.pos.column + 1⟩

/-- The position after the character `ch` read at `p`. -/
def Pos.after (p : Pos) (ch : Char) : Pos :=
  if ch == '\n' then ⟨p.line + 1, 0⟩ else ⟨p.line, p.column + ch.utf8Size⟩

/-- Read one character. -/
def eat : Reader Unit := modify fun c =>
  match c.rest with
  | [] => c
  | ch :: more => ⟨more, c.pos.after ch⟩

/-- The cursor after `n` more bytes, or at the end of the text: whole characters while they
fit, then the bytes of a character that only partly fits, which move the column. -/
def skipBytes (pos : Pos) : List Char → Nat → Cursor
  | [], _ => ⟨[], pos⟩
  | cs, 0 => ⟨cs, pos⟩
  | ch :: more, n + 1 =>
    if ch.utf8Size ≤ n + 1 then skipBytes (pos.after ch) more (n + 1 - ch.utf8Size)
    else ⟨ch :: more, ⟨pos.line, pos.column + (n + 1)⟩⟩

/-- Read and return one character. -/
def next? : Reader (Option Char) := do
  let c ← peek?
  if c.isSome then eat
  return c

/-- Fail at the position reached. -/
def fail {α : Type} (code : ErrorCode) : Reader α := do throw ⟨code, ← position⟩

/-- Fail one byte past the position reached. -/
def failPeek {α : Type} (code : ErrorCode) : Reader α := do throw ⟨code, ← peekPosition⟩

/-- Skip blanks (space, line feed, tab, carriage return) and look at what follows. -/
def skipBlanks : Reader (Option Char) := do
  let c ← get
  let rest := c.rest.dropWhile fun ch => ch == ' ' || ch == '\n' || ch == '\t' || ch == '\r'
  let skipped := c.rest.take (c.rest.length - rest.length)
  let line := c.pos.line + skipped.count '\n'
  let column := if skipped.contains '\n' then
      (skipped.reverse.takeWhile (· != '\n')).length
    else c.pos.column + skipped.length
  set (⟨rest, ⟨line, column⟩⟩ : Cursor)
  return rest.head?

/-- Read the rest of a keyword whose first letter has been read. -/
def expectWord : List Char → Reader Unit
  | [] => pure ()
  | c :: more => do
    match ← peek? with
    | none => fail .eofWhileParsingValue
    | some d => if d == c then eat; expectWord more else failPeek .expectedSomeIdent

/-- A number as read: within the unsigned or signed 64-bit range, or a float. -/
inductive Number
  | unsigned (n : Nat)
  | signed (i : Int)
  | float (x : Binary64)
  deriving Inhabited

/-- The JSON value of a number. -/
def Number.toJson : Number → Json
  | .unsigned n => .int n
  | .signed i => .int i
  | .float x => .float x

/-- The largest unsigned 64-bit number. -/
def u64Max : Nat := Nat.pow 2 64 - 1

/-- Whether `a * 10 + d` passes `limit`. -/
def overflows (a d limit : Nat) : Bool := a ≥ limit / 10 && (a > limit / 10 || d > limit % 10)

/-- The product of two finite binary64 magnitudes, rounded. -/
def mulRound (a b : Binary64) : Binary64 :=
  let (ma, qa) := a.magnitude
  let (mb, qb) := b.magnitude
  Binary64.ofScaled false (ma * mb) 1 (qa + qb)

/-- The quotient of two finite binary64 magnitudes, rounded. -/
def divRound (a b : Binary64) : Binary64 :=
  let (ma, qa) := a.magnitude
  let (mb, qb) := b.magnitude
  Binary64.ofScaled false ma mb (qa - qb)

/-- The binary64 nearest to `10^k`. -/
def pow10 (k : Nat) : Binary64 := Binary64.ofRat false (Nat.pow 10 k) 1

/-- Scale a significand by a power of ten one rounded step at a time: a multiplication for
nonnegative exponents (an infinite result is refused), a division otherwise, dividing by
`10^308` first while the exponent is below `-308`. -/
def fromParts (positive : Bool) (significand : Nat) (exponent : Int) : Reader Binary64 := do
  let f := Binary64.ofRat false significand 1
  let rec scaleDown (f : Binary64) (e : Int) : Nat → Binary64
    | 0 => f
    | fuel + 1 =>
      if e ≥ -308 then divRound f (pow10 e.natAbs)
      else if f.isZero then f
      else scaleDown (divRound f (pow10 308)) (e + 308) fuel
  let f ← if exponent ≥ 0 then
      if exponent > 308 then
        if f.isZero then pure f else fail .numberOutOfRange
      else
        let g := mulRound f (pow10 exponent.toNat)
        if g.isInfinite then fail .numberOutOfRange else pure g
    else pure (scaleDown f exponent (exponent.natAbs / 308 + 2))
  return Binary64.withSign (!positive) f

/-- Digits of an exponent, after its first digit; too many digits end the number early. -/
def exponentDigits (exp : Nat) : Nat → Reader (Option Nat)
  | 0 => pure (some exp)
  | fuel + 1 => do
    match ← peek? with
    | some c =>
      if c.isDigit then
        eat
        let d := c.toNat - 48
        if overflows exp d (Nat.pow 2 31 - 1) then return none
        exponentDigits (exp * 10 + d) fuel
      else return some exp
    | none => return some exp

/-- Skip a run of digits. -/
def skipDigits : Nat → Reader Unit
  | 0 => pure ()
  | fuel + 1 => do
    match ← peek? with
    | some c => if c.isDigit then eat; skipDigits fuel else pure ()
    | none => pure ()

/-- The exponent part, its `e` not read yet. -/
def readExponent (positive : Bool) (significand : Nat) (start : Int) : Reader Binary64 := do
  eat
  let positiveExp ← match ← peek? with
    | some '+' => do eat; pure true
    | some '-' => do eat; pure false
    | _ => pure true
  let first ← match ← peek? with
    | none => fail .eofWhileParsingValue
    | some c => if c.isDigit then eat; pure (c.toNat - 48) else failPeek .invalidNumber
  let fuel := (← get).rest.length
  match ← exponentDigits first fuel with
  | some exp =>
    fromParts positive significand (if positiveExp then start + exp else start - exp)
  | none =>
    if significand != 0 && positiveExp then fail .numberOutOfRange
    else
      skipDigits fuel
      return Binary64.withSign (!positive) Binary64.zero

/-- After the significand: an exponent or the end of the number. -/
def readAfterDigits (positive : Bool) (significand : Nat) (exponent : Int) : Reader Binary64 := do
  match ← peek? with
  | some 'e' | some 'E' => readExponent positive significand exponent
  | _ => fromParts positive significand exponent

/-- Digits after the point, accumulated while the significand fits 64 bits. Returns the
significand, the count of digits kept, and whether digits were dropped. -/
def fractionDigits (significand kept : Nat) : Nat → Reader (Nat × Nat × Bool)
  | 0 => pure (significand, kept, false)
  | fuel + 1 => do
    match ← peek? with
    | some c =>
      if c.isDigit then
        let d := c.toNat - 48
        if overflows significand d u64Max then return (significand, kept, true)
        eat
        fractionDigits (significand * 10 + d) (kept + 1) fuel
      else return (significand, kept, false)
    | none => return (significand, kept, false)

/-- The fraction part, its point not read yet. -/
def readFraction (positive : Bool) (significand : Nat) (exponent : Int) : Reader Binary64 := do
  eat
  let fuel := (← get).rest.length
  let (sig, kept, dropped) ← fractionDigits significand 0 fuel
  if dropped then
    skipDigits fuel
    readAfterDigits positive sig (exponent - kept)
  else if kept == 0 then
    match ← peek? with
    | some _ => failPeek .invalidNumber
    | none => failPeek .eofWhileParsingValue
  else readAfterDigits positive sig (exponent - kept)

/-- After the integer digits: a fraction, an exponent, or an integer. -/
def readNumberTail (positive : Bool) (significand : Nat) : Reader Number := do
  match ← peek? with
  | some '.' => return .float (← readFraction positive significand 0)
  | some 'e' | some 'E' => return .float (← readExponent positive significand 0)
  | _ =>
    if positive then return .unsigned significand
    else if significand ≤ Nat.pow 2 63 && significand != 0 then return .signed (-(significand : Int))
    else return .float (Binary64.withSign true (Binary64.ofRat false significand 1))

/-- Integer digits past the unsigned 64-bit range: dropped, each raising the exponent. -/
def longDigits (positive : Bool) (significand : Nat) (exponent : Nat) : Nat → Reader Binary64
  | 0 => fromParts positive significand exponent
  | fuel + 1 => do
    match ← peek? with
    | some c =>
      if c.isDigit then eat; longDigits positive significand (exponent + 1) fuel
      else if c == '.' then readFraction positive significand exponent
      else if c == 'e' || c == 'E' then readExponent positive significand exponent
      else fromParts positive significand exponent
    | none => fromParts positive significand exponent

/-- Integer digits after the first, while they fit 64 bits. -/
def integerDigits (positive : Bool) (significand : Nat) : Nat → Reader Number
  | 0 => readNumberTail positive significand
  | fuel + 1 => do
    match ← peek? with
    | some c =>
      if c.isDigit then
        let d := c.toNat - 48
        if overflows significand d u64Max then
          return .float (← longDigits positive significand 0 (← get).rest.length)
        eat
        integerDigits positive (significand * 10 + d) fuel
      else readNumberTail positive significand
    | none => readNumberTail positive significand

/-- A number whose sign, if any, has been read. -/
def readNumber (positive : Bool) : Reader Number := do
  match ← peek? with
  | none => fail .eofWhileParsingValue
  | some '0' =>
    eat
    match ← peek? with
    | some c => if c.isDigit then failPeek .invalidNumber else readNumberTail positive 0
    | none => readNumberTail positive 0
  | some c =>
    if c.isDigit then
      eat
      integerDigits positive (c.toNat - 48) (← get).rest.length
    else failPeek .invalidNumber

/-- The value of four hex digits. -/
def hex4 (cs : List Char) : Option Nat :=
  cs.foldl (fun acc c => acc.bind fun a =>
    let v := if c.isDigit then some (c.toNat - 48)
      else if 'a' ≤ c && c ≤ 'f' then some (c.toNat - 87)
      else if 'A' ≤ c && c ≤ 'F' then some (c.toNat - 55) else none
    v.map (a * 16 + ·)) (some 0)

/-- The four bytes of a `\u` escape, which must be hex digits; with fewer than four bytes
left the string ends too early. -/
def readHex4 : Reader Nat := do
  let c ← get
  let ds := c.rest.take 4
  if ds.foldl (fun n d => n + d.utf8Size) 0 < 4 then
    set (skipBytes c.pos c.rest 4)
    fail .eofWhileParsingString
  else
    set (skipBytes c.pos c.rest 4)
    match hex4 ds with
    | some v => pure v
    | none => fail .invalidEscape

/-- A `\u` escape, its `u` read: a character, or a surrogate pair written as two escapes. -/
def readUnicodeEscape : Reader Char := do
  let n ← readHex4
  if 0xDC00 ≤ n && n ≤ 0xDFFF then fail .loneLeadingSurrogateInHexEscape
  else if n < 0xD800 || n > 0xDBFF then pure (Char.ofNat n)
  else
    match ← peek? with
    | some '\\' => eat
    | some _ => failPeek .unexpectedEndOfHexEscape
    | none => fail .eofWhileParsingString
    match ← peek? with
    | some 'u' => eat
    | some _ => failPeek .unexpectedEndOfHexEscape
    | none => fail .eofWhileParsingString
    let n2 ← readHex4
    if n2 < 0xDC00 || n2 > 0xDFFF then fail .loneLeadingSurrogateInHexEscape
    else pure (Char.ofNat (((n - 0xD800) * 1024 + (n2 - 0xDC00)) + 0x10000))

/-- The character a one-letter escape stands for. -/
def simpleEscape? : Char → Option Char
  | '"' => some '"'
  | '\\' => some '\\'
  | '/' => some '/'
  | 'b' => some '\x08'
  | 'f' => some '\x0c'
  | 'n' => some '\n'
  | 'r' => some '\r'
  | 't' => some '\t'
  | _ => none

/-- An escape, its backslash read. -/
def readEscape : Reader Char := do
  match ← peek? with
  | none => fail .eofWhileParsingString
  | some 'u' => eat; readUnicodeEscape
  | some c =>
    match simpleEscape? c with
    | some d => eat; pure d
    | none => failPeek .invalidEscape

/-- The characters of a string up to its closing quote, its opening quote read. -/
def readStringBody (acc : List Char) : Nat → Reader String
  | 0 => fail .eofWhileParsingString
  | fuel + 1 => do
    match ← next? with
    | none => fail .eofWhileParsingString
    | some '"' => pure (String.ofList acc.reverse)
    | some '\\' => do
      let c ← readEscape
      readStringBody (c :: acc) fuel
    | some c =>
      if c.toNat < 0x20 then fail .controlCharacterWhileParsingString
      else readStringBody (c :: acc) fuel

/-- A string, its opening quote read. -/
def readString : Reader String := do readStringBody [] ((← get).rest.length + 1)

/-- Skip the rest of a string, its opening quote read, checking only its syntax: escapes
must be known and a `\u` escape needs four hex digits, but surrogates may stand alone.
A control character is reported before it is read. -/
def skipStringBody : Nat → Reader Unit
  | 0 => fail .eofWhileParsingString
  | fuel + 1 => do
    match ← peek? with
    | none => fail .eofWhileParsingString
    | some '"' => eat
    | some '\\' =>
      eat
      match ← peek? with
      | none => fail .eofWhileParsingString
      | some 'u' =>
        eat
        let _ ← readHex4
        skipStringBody fuel
      | some c =>
        if (simpleEscape? c).isSome then
          eat
          skipStringBody fuel
        else failPeek .invalidEscape
    | some c =>
      if c.toNat < 0x20 then fail .controlCharacterWhileParsingString
      else
        eat
        skipStringBody fuel

/-- Skip a string, its opening quote read. -/
def skipString : Reader Unit := do skipStringBody ((← get).rest.length + 1)

/-- Skip an exponent, its `e` next. -/
def skipExponent : Reader Unit := do
  eat
  match ← peek? with
  | some '+' | some '-' => eat
  | _ => pure ()
  match ← peek? with
  | some c => if c.isDigit then eat else failPeek .invalidNumber
  | none => fail .invalidNumber
  skipDigits (← get).rest.length

/-- Skip a number, its sign read, checking only its syntax. -/
def skipNumber : Reader Unit := do
  match ← peek? with
  | some '0' =>
    eat
    match ← peek? with
    | some c => if c.isDigit then failPeek .invalidNumber else pure ()
    | none => pure ()
  | some c =>
    if c.isDigit && c != '0' then
      eat
      skipDigits (← get).rest.length
    else failPeek .invalidNumber
  | none => fail .invalidNumber
  match ← peek? with
  | some '.' =>
    eat
    match ← peek? with
    | some c =>
      if c.isDigit then skipDigits (← get).rest.length else failPeek .invalidNumber
    | none => failPeek .invalidNumber
    match ← peek? with
    | some 'e' | some 'E' => skipExponent
    | _ => pure ()
  | some 'e' | some 'E' => skipExponent
  | _ => pure ()

/-- The colon between a key and its value. -/
def readColon : Reader Unit := do
  match ← skipBlanks with
  | some ':' => eat
  | some _ => failPeek .expectedColon
  | none => failPeek .eofWhileParsingObject

/-- What follows a separating comma: anything but the end of the container or of the text. -/
def afterComma (close : Char) (eof : ErrorCode) : Reader Unit := do
  match ← skipBlanks with
  | some c => if c == close then failPeek .trailingComma else pure ()
  | none => failPeek eof

/-- Before a list item: `false` at the closing bracket, `true` when an item follows. The
first item needs no comma; whatever stands there is read as the item. -/
def nextItem (first : Bool) : Reader Bool := do
  match ← skipBlanks with
  | some ']' => return false
  | some ',' =>
    if first then return true
    else
      eat
      afterComma ']' .eofWhileParsingValue
      return true
  | some _ => if first then return true else failPeek .expectedListCommaOrEnd
  | none => failPeek .eofWhileParsingList

/-- A key, its opening quote next. -/
def readKey : Reader String := do
  match ← skipBlanks with
  | some '"' => eat; readString
  | some '}' => failPeek .trailingComma
  | some _ => failPeek .keyMustBeAString
  | none => failPeek .eofWhileParsingValue

/-- Before a map key: `none` at the closing brace, else the key. -/
def nextKey (first : Bool) : Reader (Option String) := do
  match ← skipBlanks with
  | some '}' => return none
  | some ',' =>
    if first then failPeek .keyMustBeAString
    else
      eat
      return some (← readKey)
  | some _ => if first then return some (← readKey) else failPeek .expectedObjectCommaOrEnd
  | none => failPeek .eofWhileParsingObject

/-- The closing bracket of a list. -/
def closeList : Reader Unit := do
  match ← skipBlanks with
  | some ']' => eat
  | some ',' =>
    eat
    match ← skipBlanks with
    | some ']' => failPeek .trailingComma
    | _ => failPeek .trailingCharacters
  | some _ => failPeek .trailingCharacters
  | none => failPeek .eofWhileParsingList

/-- The closing brace of a map. -/
def closeMap : Reader Unit := do
  match ← skipBlanks with
  | some '}' => eat
  | some ',' => failPeek .trailingComma
  | some _ => failPeek .trailingCharacters
  | none => failPeek .eofWhileParsingObject

/-- Enter a container: containers nest at most 127 deep. -/
def enter (depth : Nat) : Reader Unit :=
  if depth ≤ 1 then failPeek .recursionLimitExceeded else eat

mutual

/-- A value, with `depth` levels of nesting left. `fuel` bounds the recursion and is
never the limit for a text shorter than it. -/
def readValue (depth : Nat) : Nat → Reader Json
  | 0 => fail .recursionLimitExceeded
  | fuel + 1 => do
    match ← skipBlanks with
    | none => failPeek .eofWhileParsingValue
    | some 'n' => eat; expectWord ['u', 'l', 'l']; pure .null
    | some 't' => eat; expectWord ['r', 'u', 'e']; pure (.bool true)
    | some 'f' => eat; expectWord ['a', 'l', 's', 'e']; pure (.bool false)
    | some '-' => eat; return (← readNumber false).toJson
    | some '"' => eat; return .string (← readString)
    | some '[' =>
      enter depth
      let items ← readItems (depth - 1) true fuel
      closeList
      return .array items
    | some '{' =>
      enter depth
      let entries ← readEntries (depth - 1) true fuel
      closeMap
      return .object entries
    | some c =>
      if c.isDigit then return (← readNumber true).toJson
      else failPeek .expectedSomeValue

/-- The items of a list up to its closing bracket. -/
def readItems (depth : Nat) (first : Bool) : Nat → Reader (List Json)
  | 0 => fail .recursionLimitExceeded
  | fuel + 1 => do
    if ← nextItem first then
      let v ← readValue depth fuel
      return v :: (← readItems depth false fuel)
    else return []

/-- The entries of a map up to its closing brace. -/
def readEntries (depth : Nat) (first : Bool) : Nat → Reader (List (String × Json))
  | 0 => fail .recursionLimitExceeded
  | fuel + 1 => do
    match ← nextKey first with
    | none => return []
    | some k =>
      readColon
      let v ← readValue depth fuel
      return (k, v) :: (← readEntries depth false fuel)

end

/-- Read one JSON value from the start of a text; what follows it is not looked at. -/
def parse (s : String) : Except ReadError Json :=
  (readValue 128 (3 * s.length + 8)).run' (Cursor.ofString s)

/-- Read a JSON text that must hold one value and nothing but blanks after it. -/
def parseDocument (s : String) : Except ReadError Json :=
  let reader : Reader Json := do
    let v ← readValue 128 (3 * s.length + 8)
    match ← skipBlanks with
    | none => pure v
    | some _ => failPeek .trailingCharacters
  reader.run' (Cursor.ofString s)

end Ipld.Json
