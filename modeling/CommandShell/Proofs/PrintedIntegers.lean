import CommandShell.Conversion.Table
import CommandShell.Proofs.WholeNumbers
import CommandShell.Value.Display
import Mathlib.Data.List.TakeWhile

/-!
# `CommandShell.Proofs.PrintedIntegers` — integers that read back

An integer is printed with all its digits, and read like any number: by way of floating point, whose
whole part is brought into the range of 64 bits. So an integer reads back as the one it is rounded to.
That is the integer itself if no more than 53 of its binary digits count; and the greatest integer, which
is rounded beyond the range, is brought back into it.

## Contents
- `Numeral.ofChars?_repr`, a printed integer as a numeral.
- `Numeral.toInt64?_of_int64`, what the numeral is rounded to.
- `Conversions.parse_display_int`, the integers that read back, with one that does not.
-/

namespace CommandShell

/-! ## Digits -/

theorem toNat_of_isDigit {c : Char} (h : c.isDigit = true) : 48 ≤ c.toNat ∧ c.toNat ≤ 57 := by
  rw [Char.isDigit, Bool.and_eq_true, decide_eq_true_eq, decide_eq_true_eq] at h
  exact h

theorem Text.isBlank_of_isDigit {c : Char} (h : c.isDigit = true) : isBlank c = false := by
  obtain ⟨hleast, hmost⟩ := toNat_of_isDigit h
  have houtside : ∀ r ∈ blankRanges, r.2 < 48 ∨ 57 < r.1 := by decide
  refine List.any_eq_false.mpr fun r hr => ?_
  have hr := houtside r hr
  rw [Bool.and_eq_true, decide_eq_true_eq, decide_eq_true_eq]
  omega

theorem toLower_of_isDigit {c : Char} (h : c.isDigit = true) : c.toLower = c := by
  refine dif_neg ?_
  rintro ⟨hupper, -⟩
  have hleast : 65 ≤ c.toNat := hupper
  obtain ⟨-, hmost⟩ := toNat_of_isDigit h
  omega

namespace Numeral

variable {negative : Bool} {cs ds : List Char}

/-- Digits alone are a decimal without an exponent. -/
theorem decimal?_of_digits (hne : ds ≠ []) (h : ∀ d ∈ ds, d.isDigit = true) :
    decimal? negative ds = some (.decimal negative (digitsValue ds) 0) := by
  have htake : ds.takeWhile Char.isDigit = ds := List.takeWhile_eq_self_iff.mpr h
  have hdrop : ds.dropWhile Char.isDigit = [] := List.dropWhile_eq_nil_iff.mpr h
  have hempty : ds.isEmpty = false := List.isEmpty_eq_false_iff.mpr hne
  unfold decimal?
  rw [htake, hdrop]
  dsimp only
  rw [hempty]
  show some (Numeral.decimal negative (digitsValue (ds ++ [])) 0) = _
  rw [List.append_nil]

/-- A word that begins with a digit is not one of the words for numbers. -/
theorem ofChars?_of_digits (hsign : takeSign cs = (negative, ds)) (hne : ds ≠ [])
    (h : ∀ d ∈ ds, d.isDigit = true) :
    ofChars? cs = some (.decimal negative (digitsValue ds) 0) := by
  have hlower : ds.map Char.toLower = ds := by
    exact (List.map_congr_left fun d hd => toLower_of_isDigit (h d hd)).trans (List.map_id ds)
  have hword {w : List Char} (hw : w.head?.map Char.isDigit = some false) : ds ≠ w := by
    rintro rfl
    obtain ⟨c, hc, hdigit⟩ := Option.map_eq_some_iff.mp hw
    rw [h c (List.mem_of_mem_head? hc)] at hdigit
    cases hdigit
  -- The three words all begin with a letter.
  unfold ofChars?
  rw [hsign]
  dsimp only
  rw [hlower, if_neg (not_or.mpr ⟨hword (by decide), hword (by decide)⟩), if_neg (hword (by decide))]
  exact decimal?_of_digits hne h

theorem digitsValue_toDigits (n : Nat) : digitsValue (Nat.toDigits 10 n) = n :=
  Nat.ofDigitChars_toDigits (by decide) (by decide)

/-- Digits carry no sign. -/
theorem takeSign_of_digits (h : ∀ d ∈ ds, d.isDigit = true) : takeSign ds = (false, ds) := by
  unfold takeSign
  split
  · exact absurd (h '+' (List.mem_cons_self ..)) (by decide)
  · exact absurd (h '-' (List.mem_cons_self ..)) (by decide)
  · rfl

theorem toList_repr_of_nonneg {n : Int} (h : 0 ≤ n) : n.repr.toList = Nat.toDigits 10 n.natAbs := by
  have habs : n.toNat = n.natAbs := by omega
  rw [Int.repr_eq_if, if_pos h, habs, Nat.toList_repr]

theorem toList_repr_of_neg {n : Int} (h : n < 0) :
    n.repr.toList = '-' :: Nat.toDigits 10 n.natAbs := by
  have habs : (-n).toNat = n.natAbs := by omega
  rw [Int.repr_eq_if, if_neg (by omega), habs, String.toList_append, Nat.toList_repr]
  rfl

/-- The numeral of a printed integer is that integer. -/
theorem ofChars?_repr (n : Int) :
    ofChars? n.repr.toList = some (.decimal (n < 0) n.natAbs 0) := by
  have hdigits : ∀ d ∈ Nat.toDigits 10 n.natAbs, d.isDigit = true :=
    fun _ => Nat.isDigit_of_mem_toDigits (by decide) (by decide)
  rcases lt_or_ge n 0 with hneg | hnonneg
  · have hsign : takeSign ('-' :: Nat.toDigits 10 n.natAbs) = (true, Nat.toDigits 10 n.natAbs) := rfl
    rw [toList_repr_of_neg hneg, ofChars?_of_digits hsign Nat.toDigits_ne_nil hdigits,
      digitsValue_toDigits, decide_eq_true hneg]
  · rw [toList_repr_of_nonneg hnonneg, ofChars?_of_digits (takeSign_of_digits hdigits)
      Nat.toDigits_ne_nil hdigits, digitsValue_toDigits, decide_eq_false (by omega)]

theorem trimChars_repr (n : Int) : Text.trimChars n.repr.toList = n.repr.toList := by
  have hclear : ∀ c ∈ n.repr.toList, Text.isBlank c = false := by
    intro c hc
    rcases lt_or_ge n 0 with hneg | hnonneg
    · rw [toList_repr_of_neg hneg, List.mem_cons] at hc
      rcases hc with rfl | hc
      · decide
      · exact Text.isBlank_of_isDigit (Nat.isDigit_of_mem_toDigits (by decide) (by decide) hc)
    · rw [toList_repr_of_nonneg hnonneg] at hc
      exact Text.isBlank_of_isDigit (Nat.isDigit_of_mem_toDigits (by decide) (by decide) hc)
  exact Text.trimChars_eq_self_of_ends (fun c hc => hclear c (List.mem_of_mem_head? hc))
    (fun c hc => hclear c (List.mem_of_mem_getLast? hc))

theorem numeral?_display_int (n : Int64) :
    numeral? (Value.int n).display = some (.decimal (n.toInt < 0) n.toInt.natAbs 0) := by
  have hdisplay : (Value.int n).display = n.toInt.repr := Int.toString_eq_repr
  rw [numeral?, hdisplay, trimChars_repr, ofChars?_repr]

/-! ## Rounding -/

theorem toInt_saturate (n : Int) : (saturate n).toInt = max (-2 ^ 63) (min (2 ^ 63 - 1) n) := by
  unfold saturate
  rw [Int64.toInt_maxValue, Int64.toInt_minValue]
  exact Int64.toInt_ofInt_of_le (by omega) (by omega)

/-- The numeral of an integer is rounded to the nearest number of floating point, and that is brought
    into the range. Only the greatest integers are rounded out of the range. -/
theorem toInt64?_of_int64 (n : Int64) :
    ∃ x k, RoundsTo n.toInt.natAbs x ∧
      toInt64? (.decimal (n.toInt < 0) n.toInt.natAbs 0) = some k ∧
      k.toInt = (if n.toInt < 0 then -(x : Int) else min (2 ^ 63 - 1) x) := by
  have hleast := n.le_toInt
  have hmost := n.toInt_lt
  have hrounds := GridPoint.roundsTo_floor_ofDecimal n.toInt.natAbs
  -- The ends of the range are powers of two, and no rounding passes them.
  have hrange := hrounds.le_of_le (fitsBits_of_le (by decide) (Nat.le_refl (2 ^ 53)) 10) (by omega)
  have hread : toInt64? (.decimal (n.toInt < 0) n.toInt.natAbs 0) = some (saturate
      (if n.toInt < 0 then -(GridPoint.ofDecimal n.toInt.natAbs 0).floor
        else (GridPoint.ofDecimal n.toInt.natAbs 0).floor)) := by
    unfold toInt64?
    dsimp only
    rw [if_pos (GridPoint.isFinite_ofDecimal (by omega))]
    simp only [decide_eq_true_eq]
  refine ⟨(GridPoint.ofDecimal n.toInt.natAbs 0).floor, _, hrounds, hread, ?_⟩
  · rw [toInt_saturate]
    by_cases hneg : n.toInt < 0
    · rw [if_pos hneg, if_pos hneg]
      omega
    · rw [if_neg hneg, if_neg hneg]
      omega

end Numeral

/-- A printed integer is converted, whoever answers requests, to the integer it is rounded to: `x` is its
    size rounded to 53 binary digits, and what would be beyond the greatest integer is that one. The
    integers with no more than 53 digits that count read back as they are, and so does the greatest; no
    other one does. -/
theorem Conversions.parse_display_int (n : Int64) :
    ∃ x k, RoundsTo n.toInt.natAbs x ∧
      k.toInt = (if n.toInt < 0 then -(x : Int) else min (2 ^ 63 - 1) x) ∧
      (∀ {m : Type → Type} [Monad m] (resolver : String → m (Except ShellError String)),
        (standard.parse .int (Value.int n).display).run resolver = pure (.ok (.int k))) ∧
      (k = n ↔ FitsBits 53 n.toInt.natAbs ∨ n = Int64.maxValue) := by
  obtain ⟨x, k, hrounds, hread, hk⟩ := Numeral.toInt64?_of_int64 n
  refine ⟨x, k, hrounds, hk, fun resolver => ?_, ?_⟩
  · have hparse : parseInt (Value.int n).display = .ok (.int k) := by
      rw [parseInt, Numeral.numeral?_display_int, Option.bind_some, hread]
      rfl
    show pure (parseInt (Value.int n).display) = _
    rw [hparse]
  · have hleast := n.le_toInt
    have hmost := n.toInt_lt
    have hgreatest : n = Int64.maxValue ↔ n.toInt = 2 ^ 63 - 1 := by
      rw [← Int64.toInt_inj, Int64.toInt_maxValue]
    -- What the greatest integer is rounded to is not below it: the candidate there does not end in zeros.
    have habove : n.toInt = 2 ^ 63 - 1 → 2 ^ 63 - 1 ≤ x := by
      intro hn
      have hnear := hrounds.nearest (2 ^ 63) ⟨1, 63, by decide, rfl⟩
      have hzeros (hlong : 2 ^ 62 ≤ x) := hrounds.fits.two_pow_dvd (k := 9) hlong
      unfold Nat.dist at hnear
      omega
    rw [← hrounds.eq_iff, ← Int64.toInt_inj, hk, hgreatest]
    split
    · next hneg => omega
    · next hnonneg =>
      constructor
      · intro heq
        omega
      · rintro (heq | heq)
        · omega
        · have hx := habove heq
          omega

/-- One more than `2 ^ 53` has 54 digits that count, and reads back as `2 ^ 53`. -/
theorem Conversions.parse_display_int_loses :
    (standard.parse .int (Value.int 9007199254740993).display).runPure Parse.verbatim =
        .ok (.int 9007199254740992) ∧
      (9007199254740992 : Int64) ≠ 9007199254740993 := by
  have hread : Numeral.toInt64? (.decimal false 9007199254740993 0) = some 9007199254740992 := by
    decide +kernel
  have hnumeral : numeral? (Value.int 9007199254740993).display =
      some (.decimal false 9007199254740993 0) := Numeral.numeral?_display_int _
  refine ⟨?_, by decide⟩
  show parseInt (Value.int 9007199254740993).display = _
  rw [parseInt, hnumeral, Option.bind_some, hread]
  rfl

end CommandShell
