/-!
# `CommandShell.Numeric.Numeral` — how numbers are written

A numeral is an optional sign followed by `inf`, `infinity` or `nan` in any case, or by decimal digits
with at most one point among them and an optional exponent. At least one digit stands on one side of
the point, and an exponent has digits of its own. Nothing else is a numeral: no blanks, no separators,
no other radix.

## Contents
- `Numeral`, what a numeral denotes before it is rounded to any format.
- `Numeral.ofChars?`, the reader.
-/

namespace CommandShell

/-- The number that a numeral denotes, exactly. -/
inductive Numeral where
  /-- The number `± digits · 10 ^ exponent`. -/
  | decimal (negative : Bool) (digits : Nat) (exponent : Int)
  | infinity (negative : Bool)
  | notANumber
deriving DecidableEq, Repr

namespace Numeral

/-- The number written by a list of decimal digits, most significant first. -/
def digitsValue (cs : List Char) : Nat :=
  cs.foldl (fun n c => 10 * n + (c.toNat - '0'.toNat)) 0

/-- Splits off a sign; the flag says whether it is a minus sign. -/
def takeSign : List Char → Bool × List Char
  | '+' :: rest => (false, rest)
  | '-' :: rest => (true, rest)
  | cs => (false, cs)

/-- Reads what follows the digits of a numeral: nothing, or an exponent up to the end. -/
def exponent? : List Char → Option Int
  | [] => some 0
  | e :: rest =>
      let (negative, ds) := takeSign rest
      if e.toLower = 'e' ∧ ds ≠ [] ∧ ds.all Char.isDigit then
        some (if negative then -digitsValue ds else digitsValue ds)
      else none

/-- Reads an unsigned numeral in decimal notation. -/
def decimal? (negative : Bool) (cs : List Char) : Option Numeral := do
  let whole := cs.takeWhile Char.isDigit
  let (fraction, rest) :=
    match cs.dropWhile Char.isDigit with
    | '.' :: tail => (tail.takeWhile Char.isDigit, tail.dropWhile Char.isDigit)
    | tail => ([], tail)
  if whole.isEmpty && fraction.isEmpty then none
  let exponent ← exponent? rest
  return .decimal negative (digitsValue (whole ++ fraction)) (exponent - fraction.length)

/-- Reads a numeral. -/
def ofChars? (cs : List Char) : Option Numeral :=
  let (negative, rest) := takeSign cs
  let word := rest.map Char.toLower
  if word = "inf".toList ∨ word = "infinity".toList then some (.infinity negative)
  else if word = "nan".toList then some .notANumber
  else decimal? negative rest

example : ofChars? "-1.5E2".toList = some (.decimal true 15 1) := by decide

example : ofChars? "1e".toList = none := by decide

end Numeral
end CommandShell
