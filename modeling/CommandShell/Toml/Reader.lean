/-!
# `CommandShell.Toml.Reader` — reading characters one after another

A reader takes characters from the front of the rest of a document and answers with what they stand
for, or refuses. Why it refuses does not matter, since a document is either read as a whole or not at
all.

## Contents
- `Reader`, with the readers of single characters and of blanks, comments and line ends.
-/

namespace CommandShell
namespace Toml

/-- A reader of a part of a document. -/
abbrev Reader (α : Type) : Type :=
  StateT (List Char) Option α

namespace Reader

/-- Takes one character of a class if it comes next, and says whether it did. -/
def acceptIf (p : Char → Bool) : Reader Bool := do
  match ← get with
  | d :: rest =>
      if p d then
        set rest
        return true
      else return false
  | [] => return false

/-- Takes a given character if it comes next, and says whether it did. -/
def accept (c : Char) : Reader Bool :=
  acceptIf (· = c)

/-- Takes a given character, which must come next. -/
def expect (c : Char) : Reader Unit := do
  unless ← accept c do failure

/-- Takes a given text if it comes next, and says whether it did. -/
def acceptAll (text : List Char) : Reader Bool := do
  let cs ← get
  if text.isPrefixOf cs then
    set (cs.drop text.length)
    return true
  else return false

/-- Takes all characters up to the first one outside a class. -/
def takeWhile (p : Char → Bool) : Reader (List Char) := do
  let cs ← get
  set (cs.dropWhile p)
  return cs.takeWhile p

/-! ## Blanks, comments and line ends -/

/-- The blanks that may stand between the parts of a line. -/
def isSpace (c : Char) : Bool :=
  c = ' ' || c = '\t'

/-- The characters that may stand in a comment or a string: no control character but the tab. -/
def isPlain (c : Char) : Bool :=
  c = '\t' || (0x20 ≤ c.toNat && c.toNat ≠ 0x7F)

def skipSpaces : Reader Unit :=
  discard (takeWhile isSpace)

/-- Takes a line end if one comes next, and says whether it did. -/
def acceptNewline : Reader Bool := do
  if ← accept '\n' then return true
  acceptAll ['\r', '\n']

/-- Takes a comment up to the end of its line, if one comes next. -/
def skipComment : Reader Unit := do
  if ← accept '#' then discard (takeWhile isPlain)

/-- Takes what may stand behind the last part of a line, and its end. -/
def endLine : Reader Unit := do
  skipSpaces
  skipComment
  unless ← acceptNewline do
    unless (← get).isEmpty do failure

/-- Takes blanks, comments and line ends; `steps` bounds the number of lines. -/
def skipLinesWithin : Nat → Reader Unit
  | 0 => return ()
  | steps + 1 => do
      skipSpaces
      skipComment
      if ← acceptNewline then skipLinesWithin steps

/-- Takes all blanks, comments and line ends that come next. -/
def skipLines : Reader Unit := do
  skipLinesWithin ((← get).length + 1)

end Reader
end Toml
end CommandShell
