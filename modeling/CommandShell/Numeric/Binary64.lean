import CommandShell.Numeric.Numeral

/-!
# `CommandShell.Numeric.Binary64` — rounding numerals to 64-bit floating point

The finite nonnegative numbers of the format are the points `significand · 2 ^ exponent` with a
significand below `2 ^ 53` and an exponent of at least `-1074`. A numeral is rounded to the nearest
point, of two equally near ones to the one with the even significand, and to infinity from half a step
beyond the largest point on. All of it is exact arithmetic on natural numbers.

## Contents
- `GridPoint`, a point with its encoding (`GridPoint.bits`) and its whole part (`GridPoint.floor`).
- `GridPoint.nearest`, the rounding of a quotient, and `GridPoint.ofDecimal`, that of a decimal.
- `Numeral.toFloat` and `Numeral.toInt64?`, the two conversions built on it.
-/

namespace CommandShell

/-- A point of the grid of 64-bit floating point: `significand · 2 ^ exponent`. The significand is at
    most `2 ^ 53` and the exponent at least `-1074`; below `2 ^ 52` the exponent is exactly that. -/
structure GridPoint where
  significand : Nat
  exponent : Int
deriving DecidableEq, Repr

namespace GridPoint

/-! ## Encoding -/

/-- The encoding of infinity, which lies just above the encodings of all finite points. -/
def infinityBits : Nat := 0x7FF0000000000000

/-- The encoding of a point without its sign: the biased exponent above the trailing significand. The
    leading bit of a normal significand adds one to the exponent field, so a single sum serves
    subnormal and normal points alike. A point beyond the range is encoded as infinity. -/
def bits (p : GridPoint) : Nat :=
  min ((p.exponent + 1074).toNat * Nat.pow 2 52 + p.significand) infinityBits

/-- Whether the point lies within the range of the format. -/
def isFinite (p : GridPoint) : Bool :=
  p.bits < infinityBits

/-- The greatest natural number that is at most the point. -/
def floor (p : GridPoint) : Nat :=
  if 0 ≤ p.exponent then p.significand * Nat.pow 2 p.exponent.toNat
  else p.significand / Nat.pow 2 (-p.exponent).toNat

/-! ## Rounding -/

/-- The quotient rounded to the nearest natural number, a half to the even neighbour. -/
def roundHalfEven (num den : Nat) : Nat :=
  let q := num / den
  let r := num % den
  if den < 2 * r ∨ (2 * r = den ∧ q % 2 = 1) then q + 1 else q

/-- The quotient `num / (den · 2 ^ e)` as a pair of natural numbers. -/
def scale (num den : Nat) (e : Int) : Nat × Nat :=
  if 0 ≤ e then (num, den * Nat.pow 2 e.toNat) else (num * Nat.pow 2 (-e).toNat, den)

/-- The exponent of the grid around `num / den`: the one for which the quotient fills 53 bits, but not
    below the least exponent of the format. -/
def gridExponent (num den : Nat) : Int :=
  let e : Int := (num.log2 : Int) - den.log2 - 52
  let (n, d) := scale num den e
  max (if n < Nat.pow 2 52 * d then e - 1 else e) (-1074)

/-- The point nearest to `num / den`. -/
def nearest (num den : Nat) : GridPoint :=
  if num = 0 then ⟨0, -1074⟩
  else
    let e := gridExponent num den
    let (n, d) := scale num den e
    ⟨roundHalfEven n d, e⟩

/-- The point nearest to `digits · 10 ^ exponent`. A decimal beyond `10 ^ 400` or below `10 ^ -400` is
    out of range whatever its digits are, and its power of ten is not computed. -/
def ofDecimal (digits : Nat) (exponent : Int) : GridPoint :=
  if digits = 0 ∨ exponent + digits.log2 / 3 + 1 < -400 then ⟨0, -1074⟩
  else if 400 < exponent then ⟨1, 1024⟩
  else if 0 ≤ exponent then nearest (digits * Nat.pow 10 exponent.toNat) 1
  else nearest digits (Nat.pow 10 (-exponent).toNat)

end GridPoint

/-! ## Conversions -/

namespace Numeral

/-- The floating-point number with the given sign and encoding. -/
def floatOfBits (negative : Bool) (bits : Nat) : Float :=
  Float.ofBits (UInt64.ofNat (bits + if negative then Nat.pow 2 63 else 0))

/-- The floating-point number nearest to a numeral. -/
def toFloat : Numeral → Float
  | .decimal negative digits exponent =>
      floatOfBits negative (GridPoint.ofDecimal digits exponent).bits
  | .infinity negative => floatOfBits negative GridPoint.infinityBits
  | .notANumber => Float.ofBits 0x7FF8000000000000

/-- An integer brought into the range of 64-bit integers. -/
def saturate (n : Int) : Int64 :=
  Int64.ofInt (max Int64.minValue.toInt (min Int64.maxValue.toInt n))

/-- The integer part of the floating-point number nearest to a numeral, brought into the 64-bit range;
    `none` when that number is not finite. -/
def toInt64? : Numeral → Option Int64
  | .decimal negative digits exponent =>
      let p := GridPoint.ofDecimal digits exponent
      if p.isFinite then some (saturate (if negative then -p.floor else p.floor)) else none
  | .infinity _ => none
  | .notANumber => none

end Numeral
end CommandShell
