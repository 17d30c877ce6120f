import CommandShell.Scan.Token

/-!
# `CommandShell.Scan.Quoting` — writing a text as one token

A text that is put into a statement again must come back as one literal token. A plain word does so as
it is. Delimiters are covered by quotes. A quote cannot be escaped, so a text that holds one travels in
braces if it reads back from there unchanged.

## Contents
- `needsGroup`, whether a text would be split or re-scoped.
- `quoteIfNeeded`, the written form.
-/

namespace CommandShell

/-- The characters that split a statement or open a group, the quote apart. -/
def groupingChars : List Char :=
  [' ', '\t', ';', '(', ')', '{', '}', ':', ',']

/-- Whether a text must be quoted to be one literal token. -/
def needsGroup (s : String) : Bool :=
  s.isEmpty || s.toList.any (groupingChars.contains ·)

/-- A text between braces. -/
def braced (s : String) : String :=
  "\x7b" ++ s ++ "\x7d"

/-- A text between quotes. -/
def quoted (s : String) : String :=
  "\"" ++ s ++ "\""

/-- Whether a text between braces is one token with exactly that text. -/
def readsBackBraced (s : String) : Bool :=
  match nextToken (braced s).toList with
  | .ok t => t.token.text == s && t.rest.isEmpty && !t.endsStatement
  | .error _ => false

/-- The form in which a text is written into a statement. -/
def quoteIfNeeded (s : String) : String :=
  if s.toList.contains '"' && readsBackBraced s then braced s
  else if needsGroup s then quoted s
  else s

end CommandShell
