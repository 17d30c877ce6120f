import CommandShell.Numeric.Binary64
import CommandShell.Toml.Text
import CommandShell.Toml.Value

/-!
# `CommandShell.Toml.Scalar` — numbers, truth values, dates and times

A value without delimiters is a run of characters. It is a truth value, an integer, a floating-point
number, or a date, a time or both.

## Contents
- `integer?` and `float?`, the numbers, with underscores between their digits.
- `date?`, `time?`, `offset?` and `dateTime?`.
- `bareValue`, the reader of a value without delimiters.
-/

namespace CommandShell
namespace Toml

/-! ## Digits -/

/-- A list of digits without the underscores, each of which must stand between two digits. -/
def ungroup? (isDigit : Char → Bool) : List Char → Option (List Char)
  | [] => none
  | [c] => if isDigit c then some [c] else none
  | c :: '_' :: rest => if isDigit c then (ungroup? isDigit rest).map (c :: ·) else none
  | c :: rest => if isDigit c then (ungroup? isDigit rest).map (c :: ·) else none

/-- Decimal digits without underscores and without a zero in front of others. -/
def decimalDigits? (cs : List Char) : Option (List Char) := do
  let ds ← ungroup? Char.isDigit cs
  if ds.length > 1 ∧ ds.head? = some '0' then none
  return ds

/-- An integer in the 64-bit range. -/
def inRange? (n : Int) : Option Int :=
  if Int64.minValue.toInt ≤ n ∧ n ≤ Int64.maxValue.toInt then some n else none

/-- The number that digits write to a base. -/
def baseValue? (base : Nat) (cs : List Char) : Option Int := do
  let belongs (c : Char) : Bool := ((hexDigit? c).map fun d => decide (d < base)).getD false
  let ds ← (← ungroup? belongs cs).mapM hexDigit?
  let n : Nat := ds.foldl (fun n d => base * n + d) 0
  inRange? n

/-! ## Numbers -/

/-- The integer that a run of characters writes. -/
def integer? : List Char → Option Int
  | '0' :: 'x' :: cs => baseValue? 16 cs
  | '0' :: 'o' :: cs => baseValue? 8 cs
  | '0' :: 'b' :: cs => baseValue? 2 cs
  | cs => do
      let (negative, unsigned) := Numeral.takeSign cs
      let n : Int := Numeral.digitsValue (← decimalDigits? unsigned)
      inRange? (if negative then -n else n)

/-- Whether a character begins the exponent of a number. -/
def isExponentMark (c : Char) : Bool :=
  c = 'e' || c = 'E'

/-- The numeral in a run of characters with a fraction, an exponent or both. -/
def fractional? (cs : List Char) : Option Numeral := do
  let (negative, unsigned) := Numeral.takeSign cs
  let mantissa := unsigned.takeWhile fun c => !isExponentMark c
  let whole ← decimalDigits? (mantissa.takeWhile (· ≠ '.'))
  let fraction ← match mantissa.dropWhile (· ≠ '.') with
    | [] => some []
    | _ :: ds => ungroup? Char.isDigit ds
  let exponent ← match unsigned.dropWhile fun c => !isExponentMark c with
    | [] => some []
    | _ :: rest =>
        let (negative, ds) := Numeral.takeSign rest
        (ungroup? Char.isDigit ds).map fun ds => (if negative then '-' else '+') :: ds
  if fraction.isEmpty && exponent.isEmpty then none
  Numeral.decimal? negative
    (whole ++ (if fraction.isEmpty then [] else '.' :: fraction) ++
      (if exponent.isEmpty then [] else 'e' :: exponent))

/-- The floating-point number that a run of characters writes. A number too large for the format is
    refused unless it is negative. -/
def float? (cs : List Char) : Option Float :=
  let (negative, word) := Numeral.takeSign cs
  if word = ['i', 'n', 'f'] then some (Numeral.infinity negative).toFloat
  else if word = ['n', 'a', 'n'] then some Numeral.notANumber.toFloat
  else do
    let x := (← fractional? cs).toFloat
    if x == Numeral.toFloat (.infinity false) then none else some x

/-! ## Dates and times -/

/-- Reads exactly so many digits and answers with their number, which must lie between the bounds. -/
def digits (count least most : Nat) : Reader Nat := do
  let cs ← get
  let ds := cs.take count
  if ds.length = count ∧ ds.all Char.isDigit then
    set (cs.drop count)
    let n := Numeral.digitsValue ds
    if least ≤ n ∧ n ≤ most then return n else failure
  else failure

/-- A number with zeros in front of it, up to a width. -/
def zeroPadded (width n : Nat) : String :=
  let ds := Nat.toDigits 10 n
  String.ofList (List.replicate (width - ds.length) '0' ++ ds)

/-- The number of days of a month. -/
def daysIn (year month : Nat) : Nat :=
  if month = 2 then
    if year % 4 = 0 ∧ (year % 100 ≠ 0 ∨ year % 400 = 0) then 29 else 28
  else if month = 4 ∨ month = 6 ∨ month = 9 ∨ month = 11 then 30
  else 31

/-- Reads a date. -/
def date : Reader String := do
  let year ← digits 4 0 9999
  Reader.expect '-'
  let month ← digits 2 1 12
  Reader.expect '-'
  let day ← digits 2 1 31
  if daysIn year month < day then failure
  return zeroPadded 4 year ++ "-" ++ zeroPadded 2 month ++ "-" ++ zeroPadded 2 day

/-- The fraction of a second, cut after nine digits and without zeros at its end. -/
def secondFraction (ds : List Char) : String :=
  let kept := ((ds.take 9).reverse.dropWhile (· = '0')).reverse
  if kept.isEmpty then "" else "." ++ String.ofList kept

/-- Reads a time of day. -/
def time : Reader String := do
  let hour ← digits 2 0 23
  Reader.expect ':'
  let minute ← digits 2 0 59
  Reader.expect ':'
  let second ← digits 2 0 60
  let fraction ←
    if ← Reader.accept '.' then do
      let ds ← Reader.takeWhile Char.isDigit
      if ds.isEmpty then failure
      pure (secondFraction ds)
    else pure ""
  return zeroPadded 2 hour ++ ":" ++ zeroPadded 2 minute ++ ":" ++ zeroPadded 2 second ++ fraction

/-- Reads the hours and minutes of an offset. -/
def offsetTime (negative : Bool) : Reader String := do
  let hours ← digits 2 0 23
  Reader.expect ':'
  let minutes ← digits 2 0 59
  let sign := if negative ∧ (hours ≠ 0 ∨ minutes ≠ 0) then "-" else "+"
  return sign ++ zeroPadded 2 hours ++ ":" ++ zeroPadded 2 minutes

/-- Reads an offset from universal time, if one comes next. -/
def offset : Reader String := do
  if ← Reader.acceptIf (fun c => c = 'Z' || c = 'z') then return "Z"
  else if ← Reader.accept '+' then offsetTime false
  else if ← Reader.accept '-' then offsetTime true
  else return ""

/-- The date, the time or both that a run of characters writes. -/
def dateTime? (cs : List Char) : Option String :=
  let whole (r : Reader String) : Option String := do
    let (text, rest) ← r.run cs
    if rest.isEmpty then some text else none
  let full : Reader String := do
    let day ← date
    if ← Reader.acceptIf (fun c => c = 'T' || c = 't' || c = ' ') then
      return day ++ "T" ++ (← time) ++ (← offset)
    else failure
  whole date <|> whole time <|> whole full

/-! ## Values without delimiters -/

/-- The characters of a value without delimiters. -/
def isBareValue (c : Char) : Bool :=
  isBare c || c = '+' || c = '.' || c = ':'

/-- The value that a run of characters writes. -/
def scalar (cs : List Char) : Option Value :=
  if cs = ['t', 'r', 'u', 'e'] then some (.boolean true)
  else if cs = ['f', 'a', 'l', 's', 'e'] then some (.boolean false)
  else Value.integer <$> integer? cs <|> Value.float <$> float? cs <|>
    Value.dateTime <$> dateTime? cs

/-- Whether a time of day begins behind a blank. -/
def timeFollows : List Char → Bool
  | ' ' :: a :: b :: ':' :: _ => a.isDigit && b.isDigit
  | _ => false

/-- Reads a value without delimiters. A date and a time may stand apart by one blank. -/
def bareValue : Reader Value := do
  let run ← Reader.takeWhile isBareValue
  let rest ← get
  let run ←
    if run.length == 10 && (dateTime? run).isSome && timeFollows rest then do
      discard (Reader.accept ' ')
      pure (run ++ ' ' :: (← Reader.takeWhile isBareValue))
    else pure run
  StateT.lift (scalar run)

end Toml
end CommandShell
