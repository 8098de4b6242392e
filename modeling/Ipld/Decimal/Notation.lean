import Ipld.Decimal.Shortest

/-!
# Writing binary64 values as text

Both notations in use start from the shortest decimal of the value and differ only in
how they lay it out. A notation is a record of those decisions: where positional notation
gives way to an exponent, whether an integral value keeps a `.0`, whether a positive
exponent carries a `+`, and the spellings of the values that are not numbers.

* `Notation.plain` writes every finite value positionally (`1e300` is a one followed by
  three hundred zeros, `5e-324` starts `0.000`), integral values without a point, and
  `NaN`, `inf`, `-inf`.
* `Notation.json` writes values whose leading digit is within sixteen places left of the
  point and four right of it positionally, integral ones with `.0`, and the rest as
  `1e+20` or `1.5e-7`.
-/

namespace Ipld.Decimal

/-- The layout decisions of a float notation. -/
structure Notation where
  /-- Leading-digit positions `kk` (the value lies in `[10^(kk-1), 10^kk)`) written
  positionally run from `positionalAbove + 1` up to `positionalUpTo`; `none` means all. -/
  positionalUpTo : Option Int
  /-- See `positionalUpTo`. -/
  positionalAbove : Int
  /-- Whether an integral value written positionally keeps a `.0`. -/
  pointZero : Bool
  /-- Whether a nonnegative exponent is written with `+`. -/
  exponentPlus : Bool
  /-- The text of a NaN. -/
  nan : String
  /-- The text of positive infinity; negative infinity gets a `-` in front. -/
  infinity : String

namespace Notation

/-- Positional always, no `.0`, `NaN` and `inf`. -/
def plain : Notation := ⟨none, 0, false, false, "NaN", "inf"⟩

/-- Positional for leading positions `-4 .. 16` with `.0` on integral values, otherwise an
exponent with an explicit sign. Values that are not numbers are written `null`. -/
def json : Notation := ⟨some 16, -5, true, true, "null", "null"⟩

/-- `n` zero characters. -/
def zeros (n : Nat) : String := String.ofList (List.replicate n '0')

/-- The digits and exponent of a decimal laid out positionally. -/
def positional (nt : Notation) (ds : List Char) (k : Int) : String :=
  let kk : Int := ds.length + k
  if k ≥ 0 then
    String.ofList ds ++ zeros k.toNat ++ (if nt.pointZero then ".0" else "")
  else if kk > 0 then
    String.ofList (ds.take kk.toNat) ++ "." ++ String.ofList (ds.drop kk.toNat)
  else
    "0." ++ zeros (-kk).toNat ++ String.ofList ds

/-- The digits and exponent of a decimal laid out as `d.ddde±x`. -/
def exponential (nt : Notation) (ds : List Char) (k : Int) : String :=
  let e : Int := ds.length + k - 1
  let mantissa := match ds with
    | [d] => String.singleton d
    | d :: rest => String.singleton d ++ "." ++ String.ofList rest
    | [] => "0"
  let sign := if e < 0 then "-" else if nt.exponentPlus then "+" else ""
  mantissa ++ "e" ++ sign ++ toString e.natAbs

/-- The text of a value in this notation. -/
def render (nt : Notation) (x : Binary64) : String :=
  if x.isNaN then nt.nan
  else if x.isInfinite then (if x.sign then "-" else "") ++ nt.infinity
  else
    let s := x.shortest
    let ds := Nat.toDigits 10 s.digits
    let kk : Int := ds.length + s.exponent
    let inside := match nt.positionalUpTo with
      | none => true
      | some hi => decide (nt.positionalAbove < kk ∧ kk ≤ hi)
    (if x.sign then "-" else "") ++
      (if inside then nt.positional ds s.exponent else nt.exponential ds s.exponent)

end Notation

end Ipld.Decimal

namespace Ipld.Binary64

/-- The plain text of a value: positional digits, `NaN`, `inf`, `-inf`. -/
def toText (x : Binary64) : String := Decimal.Notation.plain.render x

/-- The JSON number text of a finite value. -/
def toJsonText (x : Binary64) : String := Decimal.Notation.json.render x

end Ipld.Binary64
