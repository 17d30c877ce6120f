import CommandShell.Conversion.Parse
import CommandShell.Numeric.Binary64
import CommandShell.Text.Lowercase

/-!
# `CommandShell.Conversion.Scalar` — texts, numbers and truth values

White space around a number or a truth value is ignored; a text is taken as it is. An integer is
written like any number and loses its fractional part.

## Contents
- `parseText`, `parseFloat`, `parseInt` and `parseBool`.
- `isNullText`, the texts that stand for an absent value.
-/

namespace CommandShell

/-- The numeral that a text writes, white space around it apart. -/
def numeral? (s : String) : Option Numeral :=
  Numeral.ofChars? (Text.trimChars s.toList)

/-- Turns an absent reading of a text into the failure that says what was expected. -/
def orInvalid (text expected : String) : Option Value → Except ParseFailure Value
  | some v => .ok v
  | none => .error (.invalid text expected)

def parseText (s : String) : Except ParseFailure Value :=
  .ok (.text s)

def parseFloat (s : String) : Except ParseFailure Value :=
  orInvalid s "float" ((numeral? s).map fun n => .float n.toFloat)

/-- Reads a number, rounds it to floating point, and keeps its integer part. -/
def parseInt (s : String) : Except ParseFailure Value :=
  orInvalid s "int" (((numeral? s).bind Numeral.toInt64?).map .int)

def parseBool (s : String) : Except ParseFailure Value :=
  let t := Text.trim s
  if t = "0" ∨ Text.equalIgnoringAsciiCase t "false" then .ok (.bool false)
  else if t = "1" ∨ Text.equalIgnoringAsciiCase t "true" then .ok (.bool true)
  else .error (.invalid s "bool")

/-- Whether a text stands for an absent value: it is blank or the word `null` in any case. -/
def isNullText (s : String) : Bool :=
  let t := Text.trim s
  t.isEmpty || Text.equalIgnoringAsciiCase t "null"

end CommandShell
