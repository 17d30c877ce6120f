import CommandShell.Numeric.Binary64

/-!
# `CommandShell.Numeric.Shortest` — floating-point numbers in positional decimal notation

A number is written with the fewest significant digits that still round to it, always positionally:
no exponent, and no point after a whole number. Of the candidates with that many digits the nearest is
taken, and of two equally near ones the larger.

## Contents
- `GridPoint.ofBits`, the point that an encoding stands for.
- `GridPoint.neighbour?` and `GridPoint.shortest`: the decimal grids are tried from the coarsest one
  on, and the first that has a point in the rounding interval wins.
- `positional` and `floatText`, the layout.
-/

namespace CommandShell
namespace GridPoint

/-! ## Decoding -/

/-- The point with the given encoding, which is that of a finite number without its sign. -/
def ofBits (bits : Nat) : GridPoint :=
  let field : Nat := bits / Nat.pow 2 52
  if field = 0 then ⟨bits, -1074⟩ else ⟨bits % Nat.pow 2 52 + Nat.pow 2 52, (field : Int) - 1075⟩

/-! ## Shortest digits

All numbers between the midpoints to the two neighbours of a point round to it, and the midpoints
themselves do when the significand is even. In quarters of a step the upper midpoint is two away, and
so is the lower one, except at a power of two, where the steps below are half as long. -/

/-- The distance from a point to the midpoint below it, in quarters of a step. -/
def lowerQuarters (p : GridPoint) : Nat :=
  if p.significand = Nat.pow 2 52 ∧ -1074 < p.exponent then 1 else 2

/-- The power `base ^ e` as a quotient of natural numbers. -/
def powerQuotient (base : Nat) (e : Int) : Nat × Nat :=
  if 0 ≤ e then (Nat.pow base e.toNat, 1) else (1, Nat.pow base (-e).toNat)

/-- The multiple of `10 ^ j` next to a point that rounds to it, if one of the two neighbours does. Both
    grids are brought to a common denominator, so every comparison is one of natural numbers. -/
def neighbour? (p : GridPoint) (j : Int) : Option Nat :=
  let (a, b) := powerQuotient 2 (p.exponent - 2)
  let (u, w) := powerQuotient 10 j
  let quarter := a * w
  let step := u * b
  let value := 4 * p.significand * quarter
  let low := (4 * p.significand - p.lowerQuarters) * quarter
  let high := (4 * p.significand + 2) * quarter
  let inside (x : Nat) : Bool :=
    if p.significand % 2 = 0 then low ≤ x && x ≤ high else low < x && x < high
  let c := value / step
  let below := inside (c * step)
  let above := inside ((c + 1) * step)
  if above && (!below || (c + 1) * step - value ≤ value - c * step) then some (c + 1)
  else if below then some c
  else none

/-- Tries the grids `10 ^ j`, `10 ^ (j - 1)`, … and answers with the digits found and their grid. -/
def searchFrom (p : GridPoint) : Nat → Int → Nat × Int
  | 0, j => (0, j)
  | steps + 1, j =>
      match p.neighbour? j with
      | some digits => (digits, j)
      | none => p.searchFrom steps (j - 1)

/-- The shortest decimal `digits · 10 ^ j` that rounds to a positive point. Seventeen digits tell any
    two points apart, and the grid of the first try lies at most two above the leading digit. -/
def shortest (p : GridPoint) : Nat × Int :=
  let order : Int := (p.significand.log2 : Int) + 1 + p.exponent
  p.searchFrom 24 (order * 30103 / 100000 + 2)

end GridPoint

/-! ## Layout -/

/-- The number `digits · 10 ^ j` in positional notation. -/
def positional (digits : Nat) (j : Int) : String :=
  if 0 ≤ j then toString (digits * Nat.pow 10 j.toNat)
  else
    let places := (-j).toNat
    let ds := Nat.toDigits 10 digits
    let padded := List.replicate (places + 1 - ds.length) '0' ++ ds
    let whole := padded.length - places
    String.ofList (padded.take whole) ++ "." ++ String.ofList (padded.drop whole)

/-- The text of a floating-point number. -/
def floatText (x : Float) : String :=
  let bits := x.toBits.toNat
  let unsigned := bits % Nat.pow 2 63
  let sign := if Nat.pow 2 63 ≤ bits then "-" else ""
  if GridPoint.infinityBits < unsigned then "NaN"
  else if unsigned = GridPoint.infinityBits then sign ++ "inf"
  else if unsigned = 0 then sign ++ "0"
  else
    let (digits, j) := (GridPoint.ofBits unsigned).shortest
    sign ++ positional digits j

end CommandShell
