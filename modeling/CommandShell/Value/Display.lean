import CommandShell.Value.Basic
import CommandShell.Numeric.Shortest

/-!
# `CommandShell.Value.Display` — the text of a value

The text of an array is a literal: its elements stand between commas, a text element that would be
split or re-scoped is put in quotes, and an inner list is put in parentheses. There is no escape for a
quote, so an element that holds one is quoted as it is and does not read back.

## Contents
- `Value.delimiters`, the characters that put an element in quotes.
- `Value.display`, the text of a value, and `Value.elementText`, its text as an element.
-/

namespace CommandShell
namespace Value

/-- The characters that would split or re-scope a text inside an array literal. -/
def delimiters : List Char :=
  [' ', '\t', ',', ';', '(', ')', '{', '}', ':', '"']

/-- Whether a text must be quoted to stand as one element. -/
def needsQuotes (s : String) : Bool :=
  s.isEmpty || s.toList.any (delimiters.contains ·)

/-- The texts of the elements of a list, with commas between them. -/
def commaSeparated (parts : List String) : String :=
  ", ".intercalate parts

mutual

/-- The text of a value. -/
def display : Value → String
  | null => "null"
  | text s => s
  | int n => toString n.toInt
  | float x => floatText x
  | bool b => if b then "true" else "false"
  | array items => commaSeparated (elementTexts items)
  | vector components => commaSeparated (components.map floatText)

/-- The text of a value as an element of an array. -/
def elementText : Value → String
  | array items => "(" ++ commaSeparated (elementTexts items) ++ ")"
  | vector components => "(" ++ commaSeparated (components.map floatText) ++ ")"
  | text s => if needsQuotes s then "\"" ++ s ++ "\"" else s
  | null => "null"
  | int n => toString n.toInt
  | float x => floatText x
  | bool b => if b then "true" else "false"

/-- The texts of the elements of an array. -/
def elementTexts : List Value → List String
  | [] => []
  | v :: vs => elementText v :: elementTexts vs

end

end Value
end CommandShell
