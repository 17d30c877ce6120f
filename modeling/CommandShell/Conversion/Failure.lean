import CommandShell.Error

/-!
# `CommandShell.Conversion.Failure` — why a text does not convert

A failure names the innermost cause and, around it, the elements on the way there. An element whose
text is the result of a sub-evaluation is marked, for then the fault lies with the command that
returned it. A failure to evaluate a sub-evaluation at all stands alone.

## Contents
- `ParseFailure`, with its wording (`ParseFailure.message`) and the mark (`ParseFailure.isReturned`).
-/

namespace CommandShell

/-- Why a text could not be converted to a type. -/
inductive ParseFailure where
  | invalid (text expected : String)
  /-- A vector literal has too few or too many components. -/
  | components (found least most : Nat)
  | element (index : Nat) (source : ParseFailure)
  /-- An element of a literal is more than one token. -/
  | notSingle (text : String)
  /-- The text is the result of a sub-evaluation. -/
  | returned (source : ParseFailure)
  | unsupported (type : String)
  /-- The text of an element could not be obtained. -/
  | resolution (cause : ShellError)
deriving DecidableEq, Repr

namespace ParseFailure

/-- The wording of a failure. -/
def message : ParseFailure → String
  | invalid text expected => "'" ++ text ++ "' is not a valid " ++ expected
  | components found least most =>
      toString found ++ " components given, expected " ++ toString least ++ " to " ++ toString most
  | element index source => "element " ++ toString index ++ ": " ++ source.message
  | notSingle text => "'" ++ text ++ "' is not a single value"
  | returned source => source.message
  | unsupported type => "no conversion registered for " ++ type
  | resolution cause => cause.message

/-- Whether the text at fault is the result of a sub-evaluation. -/
def isReturned : ParseFailure → Bool
  | returned _ => true
  | element _ source => source.isReturned
  | _ => false

end ParseFailure
end CommandShell
