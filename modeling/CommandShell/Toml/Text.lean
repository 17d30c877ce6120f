import CommandShell.Toml.Reader

/-!
# `CommandShell.Toml.Text` — strings and keys

Strings come in four forms: between quotes with escapes or between apostrophes without them, and each
of these on one line or, between triple delimiters, on several. A line end inside a string is a line
feed, and one directly behind an opening triple delimiter does not count.

## Contents
- `basicBody`, `literalBody` and their forms on several lines, which read up to the closing delimiter.
- `string?`, a string of any form, and `key`, a dotted key.
-/

namespace CommandShell
namespace Toml

/-! ## Escapes -/

/-- The digits of a hexadecimal number, or `none` for a character that is not one. -/
def hexDigit? (c : Char) : Option Nat :=
  if '0' ≤ c ∧ c ≤ '9' then some (c.toNat - '0'.toNat)
  else if 'a' ≤ c ∧ c ≤ 'f' then some (c.toNat - 'a'.toNat + 10)
  else if 'A' ≤ c ∧ c ≤ 'F' then some (c.toNat - 'A'.toNat + 10)
  else none

/-- The character with the code point that hexadecimal digits write; surrogates have none. -/
def scalar? (digits : List Char) : Option Char := do
  let n := (← digits.mapM hexDigit?).foldl (fun n d => 16 * n + d) 0
  if n.isValidChar then some (Char.ofNat n) else none

/-- The character behind a backslash that stands for another one. -/
def escaped? (c : Char) : Option Char :=
  [('b', '\x08'), ('t', '\t'), ('n', '\n'), ('f', '\x0c'), ('r', '\r'), ('"', '"'), ('\\', '\\')].lookup c

/-! ## Bodies

Each of these reads from behind the opening delimiter to behind the closing one. -/

/-- What a body has read, and the rest of the document. -/
abbrev Body := Option (List Char × List Char)

/-- Puts a character in front of what a body reads later. -/
def Body.cons (c : Char) (later : Body) : Body :=
  later.map fun (cs, rest) => (c :: cs, rest)

/-- The body of a string on one line with escapes. -/
def basicBody : List Char → Body
  | '"' :: rest => some ([], rest)
  | '\\' :: 'u' :: a :: b :: c :: d :: rest => do
      Body.cons (← scalar? [a, b, c, d]) (basicBody rest)
  | '\\' :: 'U' :: a :: b :: c :: d :: e :: f :: g :: h :: rest => do
      Body.cons (← scalar? [a, b, c, d, e, f, g, h]) (basicBody rest)
  | '\\' :: c :: rest => do Body.cons (← escaped? c) (basicBody rest)
  | c :: rest => if Reader.isPlain c then Body.cons c (basicBody rest) else none
  | [] => none

/-- The body of a string on one line without escapes. -/
def literalBody : List Char → Body
  | '\'' :: rest => some ([], rest)
  | c :: rest => if Reader.isPlain c then Body.cons c (literalBody rest) else none
  | [] => none

/-- The end of a string on several lines behind its closing delimiter: up to two more delimiters of
    one character belong to the string. -/
def closing (delimiter : Char) (rest : List Char) : List Char × List Char :=
  match rest with
  | c :: d :: tail =>
      if c = delimiter then
        if d = delimiter then ([c, d], tail) else ([c], d :: tail)
      else ([], rest)
  | [c] => if c = delimiter then ([c], []) else ([], rest)
  | [] => ([], rest)

/-- Whether a line end follows, blanks in front of it apart. -/
def endsLine (cs : List Char) : Bool :=
  match cs.dropWhile Reader.isSpace with
  | '\n' :: _ => true
  | '\r' :: '\n' :: _ => true
  | _ => false

/-- The body of a string on several lines with escapes. A backslash at the end of a line drops all
    blanks and line ends behind it; the flag says that this is going on. -/
def longBasicBody (dropping : Bool) : List Char → Body
  | '"' :: '"' :: '"' :: rest => some (closing '"' rest)
  | '\\' :: 'u' :: a :: b :: c :: d :: rest => do
      Body.cons (← scalar? [a, b, c, d]) (longBasicBody false rest)
  | '\\' :: 'U' :: a :: b :: c :: d :: e :: f :: g :: h :: rest => do
      Body.cons (← scalar? [a, b, c, d, e, f, g, h]) (longBasicBody false rest)
  | '\\' :: c :: rest =>
      if endsLine (c :: rest) then longBasicBody true (c :: rest)
      else do Body.cons (← escaped? c) (longBasicBody false rest)
  | '\r' :: '\n' :: rest =>
      if dropping then longBasicBody true rest else Body.cons '\n' (longBasicBody false rest)
  | c :: rest =>
      if dropping && (Reader.isSpace c || c = '\n') then longBasicBody true rest
      else if Reader.isPlain c || c = '\n' then Body.cons c (longBasicBody false rest)
      else none
  | [] => none

/-- The body of a string on several lines without escapes. -/
def longLiteralBody : List Char → Body
  | '\'' :: '\'' :: '\'' :: rest => some (closing '\'' rest)
  | '\r' :: '\n' :: rest => Body.cons '\n' (longLiteralBody rest)
  | c :: rest =>
      if Reader.isPlain c || c = '\n' then Body.cons c (longLiteralBody rest) else none
  | [] => none

/-! ## Strings and keys -/

/-- Reads the body of a string. -/
def body (f : List Char → Body) : Reader String := do
  match f (← get) with
  | some (cs, rest) =>
      set rest
      return String.ofList cs
  | none => failure

/-- Reads the body of a string on several lines, of which a line end at the front does not count. -/
def longBody (f : List Char → Body) : Reader String := do
  discard Reader.acceptNewline
  body f

/-- Reads a string on one line, if its delimiter comes next. -/
def shortString? : Reader (Option String) := do
  if ← Reader.accept '"' then some <$> body basicBody
  else if ← Reader.accept '\'' then some <$> body literalBody
  else return none

/-- Reads a string of any form, if its delimiter comes next. -/
def string? : Reader (Option String) := do
  if ← Reader.acceptAll ['"', '"', '"'] then some <$> longBody (longBasicBody false)
  else if ← Reader.acceptAll ['\'', '\'', '\''] then some <$> longBody longLiteralBody
  else shortString?

/-- The characters of a key without delimiters. -/
def isBare (c : Char) : Bool :=
  c.isAlphanum || c = '_' || c = '-'

/-- Reads one part of a key. -/
def keyPart : Reader String := do
  match ← shortString? with
  | some s => return s
  | none =>
      let cs ← Reader.takeWhile isBare
      if cs.isEmpty then failure
      return String.ofList cs

/-- Reads a dotted key of at most `parts` parts with the blanks around them. -/
def keyWithin : Nat → Reader (List String)
  | 0 => failure
  | parts + 1 => do
      Reader.skipSpaces
      let part ← keyPart
      Reader.skipSpaces
      if ← Reader.accept '.' then return part :: (← keyWithin parts)
      return [part]

/-- The greatest number of parts of a key and of arrays and tables inside one another. -/
def nestingLimit : Nat := 79

/-- Reads a dotted key with the blanks around it. -/
def key : Reader (List String) :=
  keyWithin nestingLimit

end Toml
end CommandShell
