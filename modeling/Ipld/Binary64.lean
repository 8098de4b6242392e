/-!
# Binary64 values

An IEEE 754 binary64 number kept as its 64-bit pattern. Equality is equality of patterns,
so a NaN equals itself and `0` differs from `-0`, which is what a data model that must
reproduce a value exactly needs. All arithmetic here is on natural numbers: a finite value
is `(-1)^sign · significand · 2^exponent`, and reading a rational rounds it to the nearest
value of a binary format, ties to an even significand.

The same rounding serves binary32 and binary16, whose values all lie inside binary64, so
narrowing checks (can this value be written in four or two bytes?) are stated as
"rounding to the narrow format gives the value back".
-/

namespace Ipld

/-- An IEEE 754 binary64 value, kept as its bit pattern. -/
structure Binary64 where
  /-- The 64-bit pattern: sign bit, 11 exponent bits, 52 fraction bits. -/
  bits : UInt64
  deriving DecidableEq, Inhabited

/-- A binary interchange format, described by its precision and exponent range. -/
structure BinaryFormat where
  /-- Bits of significand, the hidden bit included. -/
  precision : Nat
  /-- Bits of the exponent field. -/
  exponentBits : Nat
  deriving DecidableEq

namespace BinaryFormat

/-- binary64: 53 bits of precision, 11 exponent bits. -/
def double : BinaryFormat := ⟨53, 11⟩

/-- binary32: 24 bits of precision, 8 exponent bits. -/
def single : BinaryFormat := ⟨24, 8⟩

/-- binary16: 11 bits of precision, 5 exponent bits. -/
def half : BinaryFormat := ⟨11, 5⟩

/-- The exponent bias, `2^(exponentBits - 1) - 1`. -/
def bias (f : BinaryFormat) : Nat := Nat.pow 2 (f.exponentBits - 1) - 1

/-- The exponent of one unit in the last place of the smallest values (the subnormals):
`1 - bias - (precision - 1)`. -/
def minQuantum (f : BinaryFormat) : Int := 1 - (f.bias : Int) - ((f.precision : Int) - 1)

/-- The largest exponent of a leading bit, which equals the bias. -/
def maxExponent (f : BinaryFormat) : Int := f.bias

/-- Bits of the stored fraction. -/
def fractionBits (f : BinaryFormat) : Nat := f.precision - 1

/-- The bit pattern of a value `(-1)^neg · m · 2^q` with `m < 2^precision`, `q ≥ minQuantum`,
and `m ≥ 2^(precision-1)` unless `q = minQuantum`. Out-of-range exponents give infinity. -/
def encode (f : BinaryFormat) (neg : Bool) (m : Nat) (q : Int) : Nat :=
  let sign := if neg then Nat.pow 2 (f.exponentBits + f.fractionBits) else 0
  if m < Nat.pow 2 f.fractionBits then
    sign + m
  else
    let biased := q - f.minQuantum + 1
    if biased ≥ Nat.pow 2 f.exponentBits - 1 then
      sign + (Nat.pow 2 f.exponentBits - 1) * Nat.pow 2 f.fractionBits
    else
      sign + biased.toNat * Nat.pow 2 f.fractionBits + (m - Nat.pow 2 f.fractionBits)

end BinaryFormat

/-- Round `num / den` to the nearest integer, a tie going to the even neighbour. -/
def roundHalfEven (num den : Nat) : Nat :=
  let q := num / den
  let r := num % den
  if 2 * r < den then q
  else if 2 * r > den then q + 1
  else if q % 2 = 0 then q else q + 1

/-- The value of a finite, nonzero rational `num / den · 2^scale` rounded into format `f`,
as a significand and an exponent with the invariants of `BinaryFormat.encode`. -/
def roundScaled (f : BinaryFormat) (num den : Nat) (scale : Int) : Nat × Int :=
  -- first guess for the exponent of the last place: the quotient has about
  -- `log2 num - log2 den` leading bits and the significand keeps `precision` of them
  let lead : Int := (num.log2 : Int) - (den.log2 : Int) + scale
  let q0 : Int := lead - (f.precision : Int)
  let floorAt (q : Int) : Nat :=
    let n := num * Nat.pow 2 (scale - q).toNat
    let d := den * Nat.pow 2 (q - scale).toNat
    n / d
  let q1 : Int := if floorAt q0 ≥ Nat.pow 2 f.precision then q0 + 1 else q0
  let q : Int := max q1 f.minQuantum
  let m := roundHalfEven (num * Nat.pow 2 (scale - q).toNat) (den * Nat.pow 2 (q - scale).toNat)
  if m ≥ Nat.pow 2 f.precision then (m / 2, q + 1) else (m, q)

namespace Binary64

/-- The sign bit. -/
def sign (x : Binary64) : Bool := x.bits.toNat ≥ Nat.pow 2 63

/-- The 11-bit biased exponent field. -/
def exponentField (x : Binary64) : Nat := x.bits.toNat / Nat.pow 2 52 % Nat.pow 2 11

/-- The 52-bit fraction field. -/
def fractionField (x : Binary64) : Nat := x.bits.toNat % Nat.pow 2 52

/-- A NaN: all exponent bits set and a nonzero fraction. -/
def isNaN (x : Binary64) : Bool := x.exponentField == 2047 && x.fractionField != 0

/-- An infinity: all exponent bits set and a zero fraction. -/
def isInfinite (x : Binary64) : Bool := x.exponentField == 2047 && x.fractionField == 0

/-- Neither a NaN nor an infinity. -/
def isFinite (x : Binary64) : Bool := x.exponentField != 2047

/-- Positive or negative zero. -/
def isZero (x : Binary64) : Bool := x.exponentField == 0 && x.fractionField == 0

/-- The quiet NaN that reading `NaN` produces. -/
def nan : Binary64 := ⟨0x7ff8000000000000⟩

/-- Positive infinity. -/
def infinity : Binary64 := ⟨0x7ff0000000000000⟩

/-- Positive zero. -/
def zero : Binary64 := ⟨0⟩

/-- The same value with the sign bit flipped. -/
def negate (x : Binary64) : Binary64 := ⟨x.bits ^^^ 0x8000000000000000⟩

/-- The value with its sign set to `neg`. -/
def withSign (neg : Bool) (x : Binary64) : Binary64 :=
  if x.sign == neg then x else x.negate

/-- A finite value's magnitude as `significand · 2^exponent`; subnormals have exponent
`-1074`, normal values carry the hidden bit. -/
def magnitude (x : Binary64) : Nat × Int :=
  if x.exponentField == 0 then (x.fractionField, -1074)
  else (x.fractionField + Nat.pow 2 52, (x.exponentField : Int) - 1075)

/-- The nearest binary64 to `±num / den · 2^scale`, ties to even; zero numerators give a
signed zero and values beyond the largest finite one give an infinity. -/
def ofScaled (neg : Bool) (num den : Nat) (scale : Int) : Binary64 :=
  if num = 0 || den = 0 then withSign neg zero
  else
    let (m, q) := roundScaled BinaryFormat.double num den scale
    ⟨(BinaryFormat.double.encode neg m q).toUInt64⟩

/-- The nearest binary64 to `±num / den`. -/
def ofRat (neg : Bool) (num den : Nat) : Binary64 := ofScaled neg num den 0

/-- The value of an integer; exact when its magnitude is at most `2^53`. -/
def ofInt (i : Int) : Binary64 := ofRat (i < 0) i.natAbs 1

/-- The nearest binary32 to `±num / den`, written as the binary64 of the same value
(widening loses nothing). -/
def ofRatSingle (neg : Bool) (num den : Nat) : Binary64 :=
  if num = 0 || den = 0 then withSign neg zero
  else
    let (m, q) := roundScaled BinaryFormat.single num den 0
    -- values past the binary32 range are its infinity
    if q + (m.log2 : Int) > BinaryFormat.single.maxExponent then withSign neg infinity
    else ofScaled neg m 1 q

/-- Whether a value can be written exactly in format `f`. Every format has NaNs, infinities
and zeros; a finite value fits once trailing zero bits are removed, the significand fits the
precision and the exponents fit the range. -/
def fitsIn (f : BinaryFormat) (x : Binary64) : Bool :=
  let (m, q) := x.magnitude
  if !x.isFinite || m == 0 then true
  else
    let (m', q') := stripTwos m q (m.log2 + 1)
    decide (m'.log2 + 1 ≤ f.precision ∧ q' ≥ f.minQuantum ∧ q' + (m'.log2 : Int) ≤ f.maxExponent)
where
  /-- Remove factors of two from `m`, moving them into the exponent. -/
  stripTwos (m : Nat) (q : Int) : Nat → Nat × Int
    | 0 => (m, q)
    | fuel + 1 => if m % 2 == 0 && m != 0 then stripTwos (m / 2) (q + 1) fuel else (m, q)

/-- The bit pattern of a value known to fit format `f`, in that format. NaNs become the
format's quiet NaN with the same sign, infinities its infinity. -/
def narrowBits (f : BinaryFormat) (x : Binary64) : Nat :=
  let signBit := if x.sign then Nat.pow 2 (f.exponentBits + f.fractionBits) else 0
  let topExponent := (Nat.pow 2 f.exponentBits - 1) * Nat.pow 2 f.fractionBits
  if x.isNaN then signBit + topExponent + Nat.pow 2 (f.fractionBits - 1)
  else if x.isInfinite then signBit + topExponent
  else
    let (m, q) := x.magnitude
    if m == 0 then signBit
    else
      let (m', q') := roundScaled f m 1 q
      f.encode x.sign m' q'

end Binary64

end Ipld
