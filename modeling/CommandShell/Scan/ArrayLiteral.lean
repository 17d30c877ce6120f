import CommandShell.Scan.Scope

/-!
# `CommandShell.Scan.ArrayLiteral` — the parts of an array literal

An array literal is split at the commas outside all groups. The delimiters of groups stay where they
are, since every part is read as a token of its own later. Parentheses and braces are counted
independently of each other here, and one that closes nothing is ignored.

## Contents
- `Scope.advance`, the scope after one more character.
- `splitArray`, the parts of a literal.
-/

namespace CommandShell

/-- The scope after one more character of an array literal. -/
def Scope.advance (s : Scope) (c : Char) : Scope :=
  if c = '"' then { s with quoted := !s.quoted }
  else if s.quoted then s
  else if c = '(' then { s with parens := s.parens + 1 }
  else if c = ')' then { s with parens := s.parens - 1 }
  else if c = '{' then { s with braces := s.braces + 1 }
  else if c = '}' then { s with braces := s.braces - 1 }
  else s

/-- Splits the rest of a literal; `part` holds the characters of the current part, last one first. -/
def splitFrom (s : Scope) (part : List Char) : List Char → Except ShellError (List (List Char))
  | [] => do
      s.checkClosed
      return [part.reverse]
  | c :: cs =>
      if c = ',' ∧ s.isOuter then
        (part.reverse :: ·) <$> splitFrom s [] cs
      else splitFrom (s.advance c) (c :: part) cs

/-- The parts of an array literal. -/
def splitArray (cs : List Char) : Except ShellError (List (List Char)) :=
  splitFrom {} [] cs

end CommandShell
