import Ipld.Binary64

/-!
# Shortest decimal digits of a binary64 value

Every finite binary64 value owns an interval of reals that read back as it: half a unit
in the last place on each side, a quarter below when the value is the lowest of its
binade, the ends included when the significand is even. The shortest decimal of the
value is the decimal with the fewest significant digits inside that interval, and of
those the one nearest the value, an exact tie going to the even digit string.

The search walks the decimal grids `10^k` from coarse to fine. On the grid of `n`
significant digits only the two grid points around the value can be nearest, and if any
point of that grid lies in the interval one of those two does, so the first grid with a
hit gives the answer. Everything is exact arithmetic on natural numbers.
-/

namespace Ipld.Decimal

/-- A decimal number `digits · 10^exponent`. -/
structure Scientific where
  /-- The significant digits as a number. -/
  digits : Nat
  /-- The power of ten of the last digit. -/
  exponent : Int
  deriving DecidableEq, Inhabited

/-- A positive rational `n · 2^a · 10^b`, as numerator and denominator. -/
def scaled (n : Nat) (a b : Int) : Nat × Nat :=
  (n * Nat.pow 2 a.toNat * Nat.pow 10 b.toNat, Nat.pow 2 (-a).toNat * Nat.pow 10 (-b).toNat)

/-- Compare two rationals given as numerator and denominator pairs. -/
def cmpRat (x y : Nat × Nat) : Ordering := compare (x.1 * y.2) (y.1 * x.2)

/-- The number of decimal digits of a positive number (one for zero). -/
def decimalLength (n : Nat) : Nat := (Nat.toDigits 10 n).length

/-- `⌊log10 (num / den)⌋` for positive `num` and `den`. The quotient of numbers with `l₁`
and `l₂` digits lies strictly between `10^(l₁-l₂-1)` and `10^(l₁-l₂+1)`, so one comparison
decides between the two candidates. -/
def floorLog10 (num den : Nat) : Int :=
  let e : Int := (decimalLength num : Int) - (decimalLength den : Int)
  if cmpRat (num, den) (scaled 1 0 e) == .lt then e - 1 else e

/-- Drop trailing zero digits, raising the exponent for each. -/
def Scientific.trim (s : Scientific) : Scientific :=
  go s.digits s.exponent (decimalLength s.digits)
where
  /-- At most one step per digit. -/
  go (d : Nat) (e : Int) : Nat → Scientific
    | 0 => ⟨d, e⟩
    | fuel + 1 => if d != 0 && d % 10 == 0 then go (d / 10) (e + 1) fuel else ⟨d, e⟩

/-- The rounding interval of the value `m · 2^q` in units of `2^(q-2)`: the value is
`4m`, the interval runs from `4m - below` to `4m + 2`, ends included when `inclusive`. -/
structure Interval where
  /-- Significand of the value. -/
  m : Nat
  /-- Binary exponent of the value. -/
  q : Int
  /-- Distance to the lower end, in units of `2^(q-2)`: 2, or 1 at the bottom of a binade. -/
  below : Nat
  /-- Whether the ends read back as the value. -/
  inclusive : Bool

namespace Interval

/-- A point `num / den` lies in the interval. -/
def contains (iv : Interval) (p : Nat × Nat) : Bool :=
  let lo := scaled (4 * iv.m - iv.below) (iv.q - 2) 0
  let hi := scaled (4 * iv.m + 2) (iv.q - 2) 0
  let aboveLo := match cmpRat p lo with
    | .gt => true
    | .eq => iv.inclusive
    | .lt => false
  let belowHi := match cmpRat p hi with
    | .lt => true
    | .eq => iv.inclusive
    | .gt => false
  aboveLo && belowHi

/-- The value itself as a rational. -/
def value (iv : Interval) : Nat × Nat := scaled iv.m iv.q 0

/-- The grid point of `n` significant digits nearest the value inside the interval,
if any. `lead` is the decimal exponent of the value's leading digit. -/
def onGrid (iv : Interval) (lead : Int) (n : Nat) : Option Scientific :=
  let k : Int := lead - n + 1
  let (vn, vd) := iv.value
  let (gn, gd) := scaled 1 0 k
  -- the value divided by the grid step
  let down := (vn * gd) / (vd * gn)
  let loPoint := scaled down 0 k
  let hiPoint := scaled (down + 1) 0 k
  let loIn := iv.contains loPoint
  let hiIn := iv.contains hiPoint
  if loIn && hiIn then
    -- distances to the value, compared with a common denominator
    let dLo := vn * loPoint.2 - loPoint.1 * vd
    let dHi := hiPoint.1 * vd - vn * hiPoint.2
    -- both points share the denominator `vd * 10^(-k)`, so the numerators compare
    if dLo < dHi then some ⟨down, k⟩
    else if dHi < dLo then some ⟨down + 1, k⟩
    else if down % 2 == 0 then some ⟨down, k⟩ else some ⟨down + 1, k⟩
  else if loIn then some ⟨down, k⟩
  else if hiIn then some ⟨down + 1, k⟩
  else none

/-- The first grid, from one significant digit up to seventeen, with a point in the
interval. Seventeen digits always suffice for binary64. -/
def firstHit (iv : Interval) (lead : Int) : List Nat → Scientific
  | [] => ⟨iv.m, 0⟩
  | n :: rest => match iv.onGrid lead n with
    | some s => s
    | none => firstHit iv lead rest

end Interval

end Ipld.Decimal

namespace Ipld.Binary64

open Decimal

/-- The rounding interval of a finite nonzero binary64 value. A normal value whose fraction
is zero sits at the bottom of its binade, where the gap below is half the gap above. -/
def interval (x : Binary64) : Interval :=
  let (m, q) := x.magnitude
  if x.exponentField == 0 then ⟨m, q, 2, true⟩
  else if x.fractionField == 0 then ⟨m, q, 1, m % 2 == 0⟩
  else ⟨m, q, 2, m % 2 == 0⟩

/-- The shortest decimal that reads back as the magnitude of a finite value; zero for a zero.
The sign is not part of the result. -/
def shortest (x : Binary64) : Scientific :=
  let (m, _) := x.magnitude
  if m == 0 then ⟨0, 0⟩
  else
    let iv := x.interval
    let (vn, vd) := iv.value
    (iv.firstHit (floorLog10 vn vd) (List.range' 1 17)).trim

end Ipld.Binary64
