import Ipld.Binary64

/-!
# Reading numbers from text

* `readFloat` reads a binary64: an optional sign, then `inf`, `infinity` or `nan` in any
  case, or decimal digits with an optional point and an optional exponent (`e` or `E`,
  optional sign, at least one digit). At least one digit must stand before or after the
  point. The result is the nearest binary64, ties to even; decimals beyond the range
  become an infinity or a zero of the right sign. Nothing else may surround the number.
* `readInt64` reads a signed 64-bit integer: an optional `+` or `-`, then one or more
  ASCII digits, within `-2^63 .. 2^63-1`.
-/

namespace Ipld.Decimal

/-- The value of a run of ASCII digits. -/
def digitsValue (ds : List Char) : Nat :=
  ds.foldl (fun acc c => acc * 10 + (c.toNat - '0'.toNat)) 0

/-- Split off the longest prefix of ASCII digits. -/
def spanDigits (cs : List Char) : List Char × List Char :=
  (cs.takeWhile Char.isDigit, cs.dropWhile Char.isDigit)

/-- A leading sign: `-` gives `true`, `+` or nothing `false`. -/
def spanSign (cs : List Char) : Bool × List Char :=
  match cs with
  | '-' :: rest => (true, rest)
  | '+' :: rest => (false, rest)
  | _ => (false, cs)

/-- Lower-case ASCII letters, other characters unchanged. -/
def lowerAscii (cs : List Char) : List Char := cs.map Char.toLower

/-- The exponent part after `e`: optional sign and at least one digit, nothing after. -/
def readExponent (cs : List Char) : Option Int :=
  let (neg, rest) := spanSign cs
  let (ds, tail) := spanDigits rest
  if ds.isEmpty || !tail.isEmpty then none
  else
    let v : Int := digitsValue ds
    some (if neg then -v else v)

/-- Rounding of `±num / den` into a binary format, the result written as a binary64. -/
abbrev Rounding := Bool → Nat → Nat → Binary64

/-- The value of `±digits · 10^exp` rounded by `round`. Magnitudes far outside the range of
binary64 (and so of every narrower format) are settled without computing powers of ten. -/
def ofDecimalBy (round : Rounding) (neg : Bool) (digits : Nat) (exp : Int) : Binary64 :=
  if digits = 0 then Binary64.withSign neg Binary64.zero
  else
    let lead : Int := (Nat.toDigits 10 digits).length + exp
    if lead > 310 then Binary64.withSign neg Binary64.infinity
    else if lead < -330 then Binary64.withSign neg Binary64.zero
    else if exp ≥ 0 then round neg (digits * Nat.pow 10 exp.toNat) 1
    else round neg digits (Nat.pow 10 (-exp).toNat)

/-- The nearest binary64 to `±digits · 10^exp`. -/
def ofDecimal (neg : Bool) (digits : Nat) (exp : Int) : Binary64 :=
  ofDecimalBy Binary64.ofRat neg digits exp

/-- The decimal body of a float: digits, optional point and digits, optional exponent. -/
def readDecimalBodyBy (round : Rounding) (neg : Bool) (cs : List Char) : Option Binary64 :=
  let (whole, rest) := spanDigits cs
  let (frac, rest) := match rest with
    | '.' :: more => spanDigits more
    | _ => ([], rest)
  if whole.isEmpty && frac.isEmpty then none
  else
    let exp? : Option Int := match rest with
      | [] => some 0
      | c :: more => if c == 'e' || c == 'E' then readExponent more else none
    exp?.map fun e => ofDecimalBy round neg (digitsValue (whole ++ frac)) (e - frac.length)

/-- Read a float from text in the grammar described above, rounding with `round`. -/
def readFloatBy (round : Rounding) (s : String) : Option Binary64 :=
  let (neg, body) := spanSign s.toList
  let word := lowerAscii body
  if word == "inf".toList || word == "infinity".toList then
    some (Binary64.withSign neg Binary64.infinity)
  else if word == "nan".toList then some (Binary64.withSign neg Binary64.nan)
  else readDecimalBodyBy round neg body

/-- Read a binary64 from text. -/
def readFloat (s : String) : Option Binary64 := readFloatBy Binary64.ofRat s

/-- Read a binary32 from text, rounding once to the nearest binary32. -/
def readFloatSingle (s : String) : Option Binary64 := readFloatBy Binary64.ofRatSingle s

/-- The signed 64-bit range. -/
def inInt64 (i : Int) : Bool := decide (-Int.pow 2 63 ≤ i ∧ i < Int.pow 2 63)

/-- Read a signed 64-bit integer: optional sign, ASCII digits, in range. -/
def readInt64 (s : String) : Option Int :=
  let (neg, body) := spanSign s.toList
  if body.isEmpty || !body.all Char.isDigit then none
  else
    let v : Int := digitsValue body
    let i := if neg then -v else v
    if inInt64 i then some i else none

end Ipld.Decimal
