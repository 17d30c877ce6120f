import CommandShell.Text.Blank
import CommandShell.Text.CaseTable

/-!
# `CommandShell.Text.Lowercase` — full Unicode lower-casing

A letter is replaced by its lower-case mapping. Two letters need more than a table: `İ` becomes `i`
followed by a combining dot, and `Σ` becomes `ς` at the end of a word and `σ` anywhere else. A `Σ` ends
a word when the nearest character before it that is not case-ignorable is cased and the nearest such
character after it is not.

## Contents
- `lowerChar`, the mapping of one character without regard to its neighbours.
- `lowerChars` and `lower`, the mapping of a text.
-/

namespace CommandShell
namespace Text

/-! ## One character -/

/-- Whether the code point `n` is one of the letters of a run. -/
def LowerRun.contains (run : LowerRun) (n : Nat) : Bool :=
  run.first ≤ n && n ≤ run.last && (n - run.first) % run.step == 0

/-- The lower-case mapping of a character, which is the character itself when it has none. -/
def lowerChar (c : Char) : List Char :=
  let n := c.toNat
  if n < 0x80 then [c.toLower]
  else if n == 0x130 then ['i', '\u0307']
  else
    match lowerRuns.find? (·.contains n) with
    | some run => [Char.ofNat (run.image + (n - run.first))]
    | none => [c]

/-! ## The two forms of sigma -/

/-- Whether a character does not interrupt a word when its casing is decided. -/
def isCaseIgnorable (c : Char) : Bool :=
  inRanges caseIgnorableRanges c.toNat

/-- Whether a character is cased and not case-ignorable. -/
def isCased (c : Char) : Bool :=
  inRanges casedRanges c.toNat

/-- Whether the first character of the list that is not case-ignorable is cased. -/
def meetsCased (cs : List Char) : Bool :=
  ((cs.dropWhile isCaseIgnorable).head?.map isCased).getD false

/-- The lower-case form of `Σ` after the characters `before`, nearest first, and in front of `after`. -/
def lowerSigma (before after : List Char) : Char :=
  if meetsCased before && !meetsCased after then 'ς' else 'σ'

/-! ## A text -/

/-- The lower-case form of a list of characters. -/
def lowerChars (cs : List Char) : List Char :=
  go [] cs
where
  /-- Maps the second list; the first holds the characters in front of it, nearest first. -/
  go (before : List Char) : List Char → List Char
    | [] => []
    | c :: rest =>
        (if c = 'Σ' then [lowerSigma before rest] else lowerChar c) ++ go (c :: before) rest

/-- The lower-case form of a text. -/
def lower (s : String) : String :=
  String.ofList (lowerChars s.toList)

@[simp] theorem toList_lower (s : String) : (lower s).toList = lowerChars s.toList := by
  simp [lower]

/-! ## ASCII -/

/-- Whether two texts agree up to the case of their ASCII letters. -/
def equalIgnoringAsciiCase (s t : String) : Bool :=
  s.toList.map Char.toLower == t.toList.map Char.toLower

end Text
end CommandShell
