import CommandShell.Numeric.Binary64
import Mathlib.Data.Nat.Dist
import Mathlib.Tactic.Ring

/-!
# `CommandShell.Proofs.WholeNumbers` — which whole numbers floating point has

A whole number is a number of 64-bit floating point if its binary digits, without the zeros at the end,
are no more than 53. Any other one is rounded to the nearest that is, and of two equally near ones to the
one that does with 52. On whole numbers the step between neighbours is a power of two that depends on the
length of the number alone; below `2 ^ 53` it is one, and nothing is lost.

## Contents
- `FitsBits`, numbers with few digits that count, and `RoundsTo`, what a number is rounded to.
- `GridPoint.roundHalfEven_spec` and `GridPoint.dist_roundHalfEven_le`, the nearest multiple of a step.
- `GridPoint.roundsTo_floor_ofDecimal` and `GridPoint.isFinite_ofDecimal`, for a numeral without a point.
- `GridPoint.fitsBits_floor_ofDecimal`, the whole part of any numeral that has been rounded.
-/

namespace CommandShell

/-! ## Digits that count -/

/-- The number is written with this many binary digits and zeros behind them. -/
def FitsBits (bits n : Nat) : Prop :=
  ∃ significand exponent, significand < 2 ^ bits ∧ n = significand * 2 ^ exponent

/-- A power of two has one digit that counts, so the bound itself can be reached. -/
theorem fitsBits_of_le {bits significand : Nat} (hbits : 0 < bits) (h : significand ≤ 2 ^ bits)
    (exponent : Nat) : FitsBits bits (significand * 2 ^ exponent) := by
  rcases Nat.lt_or_eq_of_le h with hlt | rfl
  · exact ⟨significand, exponent, hlt, rfl⟩
  · refine ⟨1, bits + exponent, Nat.one_lt_two_pow (by omega), ?_⟩
    rw [Nat.pow_add, Nat.one_mul]

/-- A number longer than the digits that count ends in zeros. -/
theorem FitsBits.two_pow_dvd {bits n k : Nat} (h : FitsBits bits n) (hlong : 2 ^ (bits + k) ≤ n) :
    2 ^ (k + 1) ∣ n := by
  obtain ⟨significand, exponent, hsignificand, rfl⟩ := h
  have hlt : 2 ^ (bits + k) < 2 ^ (bits + exponent) := by
    calc 2 ^ (bits + k) ≤ significand * 2 ^ exponent := hlong
      _ < 2 ^ bits * 2 ^ exponent := Nat.mul_lt_mul_of_pos_right hsignificand (Nat.two_pow_pos _)
      _ = 2 ^ (bits + exponent) := (Nat.pow_add ..).symm
  have hexponent : bits + k < bits + exponent := (Nat.pow_lt_pow_iff_right (by decide)).mp hlt
  exact (Nat.pow_dvd_pow 2 (by omega)).trans (Nat.dvd_mul_left ..)

/-- Of the whole numbers that floating point has, `x` is nearest to `n`, and where another one is as near,
    the last of its 53 digits is zero. -/
structure RoundsTo (n x : Nat) : Prop where
  fits : FitsBits 53 x
  nearest : ∀ y, FitsBits 53 y → Nat.dist n x ≤ Nat.dist n y
  even : ∀ y, FitsBits 53 y → Nat.dist n x = Nat.dist n y → y = x ∨ FitsBits 52 x

namespace RoundsTo

variable {n x : Nat}

theorem zero : RoundsTo 0 0 where
  fits := ⟨0, 0, by decide, rfl⟩
  nearest _ _ := by simp [Nat.dist_self]
  even _ _ _ := .inr ⟨0, 0, by decide, rfl⟩

/-- What is kept is what floating point has. -/
theorem eq_iff (h : RoundsTo n x) : x = n ↔ FitsBits 53 n := by
  constructor
  · rintro rfl
    exact h.fits
  · intro hn
    have hle := h.nearest n hn
    rw [Nat.dist_self, Nat.le_zero] at hle
    exact (Nat.eq_of_dist_eq_zero hle).symm

/-- Rounding does not pass a number that floating point has. -/
theorem le_of_le (h : RoundsTo n x) {bound : Nat} (hbound : FitsBits 53 bound) (hn : n ≤ bound) :
    x ≤ bound := by
  have hle := h.nearest bound hbound
  unfold Nat.dist at hle
  omega

end RoundsTo

namespace GridPoint

/-! ## The nearest multiple -/

/-- The rounded quotient is at most half a step away from the quotient, and even if it is just that. -/
theorem roundHalfEven_spec (n : Nat) {step : Nat} (hstep : 0 < step) :
    2 * Nat.dist n (roundHalfEven n step * step) ≤ step ∧
      (2 * Nat.dist n (roundHalfEven n step * step) = step → roundHalfEven n step % 2 = 0) := by
  have hdiv : step * (n / step) + n % step = n := Nat.div_add_mod n step
  have hmod : n % step < step := Nat.mod_lt n hstep
  have hmul : n / step * step = step * (n / step) := Nat.mul_comm ..
  unfold roundHalfEven Nat.dist
  dsimp only
  split
  · next hup =>
    rw [Nat.add_mul, Nat.one_mul, hmul]
    omega
  · next hdown =>
    rw [hmul]
    omega

/-- No multiple of the step is nearer than the rounded one, and another one is as near only if the
    rounded quotient is even. -/
theorem dist_roundHalfEven_le (n : Nat) {step : Nat} (hstep : 0 < step) (k : Nat) :
    Nat.dist n (roundHalfEven n step * step) ≤ Nat.dist n (k * step) ∧
      (Nat.dist n (roundHalfEven n step * step) = Nat.dist n (k * step) →
        k = roundHalfEven n step ∨ roundHalfEven n step % 2 = 0) := by
  obtain ⟨hhalf, heven⟩ := roundHalfEven_spec n hstep
  generalize roundHalfEven n step = q at hhalf heven
  -- Two different multiples are a step apart at least.
  have happart {a b : Nat} (hab : a < b) : a * step + step ≤ b * step := by
    have hmul := Nat.mul_le_mul_right step (Nat.succ_le_of_lt hab)
    rwa [Nat.succ_mul] at hmul
  unfold Nat.dist at hhalf heven ⊢
  rcases Nat.lt_trichotomy k q with hlt | rfl | hgt
  · have hgap := happart hlt
    omega
  · exact ⟨Nat.le_refl _, fun _ => .inl rfl⟩
  · have hgap := happart hgt
    omega

theorem roundHalfEven_le (n : Nat) {step bound : Nat} (hstep : 0 < step) (h : n < bound * step) :
    roundHalfEven n step ≤ bound := by
  have hquotient : n / step < bound := (Nat.div_lt_iff_lt_mul hstep).mpr h
  unfold roundHalfEven
  dsimp only
  split <;> omega

/-! ## Rounding a whole number -/

/-- The step between the numbers of 53 digits as long as `n`, as a power of two. -/
def stepExponent (n : Nat) : Nat :=
  n.log2 - 52

theorem lt_two_pow_step (n : Nat) : n < 2 ^ 53 * 2 ^ stepExponent n := by
  rw [← Nat.pow_add]
  refine Nat.lt_of_lt_of_le Nat.lt_log2_self (Nat.pow_le_pow_right (by decide) ?_)
  unfold stepExponent
  omega

/-- Where the step is more than one, the number has all 53 digits. -/
theorem two_pow_step_le {n : Nat} (h : 0 < stepExponent n) : 2 ^ 52 * 2 ^ stepExponent n ≤ n := by
  unfold stepExponent at h ⊢
  have hne : n ≠ 0 := by
    rintro rfl
    simp at h
  have hlog : 52 + (n.log2 - 52) = n.log2 := by omega
  rw [← Nat.pow_add, hlog]
  exact Nat.log2_self_le hne

/-- A number that floating point has is a multiple of the step, or it lies below the numbers with this
    step, one of which is nearer. -/
theorem roundsTo_roundHalfEven (n : Nat) :
    RoundsTo n (roundHalfEven n (2 ^ stepExponent n) * 2 ^ stepExponent n) := by
  have hstep : 0 < 2 ^ stepExponent n := Nat.two_pow_pos _
  have hbound := roundHalfEven_le n hstep (lt_two_pow_step n)
  have hnearest := dist_roundHalfEven_le n hstep
  have hcases {y : Nat} (hy : FitsBits 53 y) : (∃ k, y = k * 2 ^ stepExponent n) ∨
      Nat.dist n (2 ^ 52 * 2 ^ stepExponent n) < Nat.dist n y := by
    obtain ⟨significand, exponent, hsignificand, rfl⟩ := hy
    rcases Nat.lt_or_ge exponent (stepExponent n) with hfine | hcoarse
    · right
      have hbegin := two_pow_step_le (n := n) (by omega)
      have hbelow : significand * 2 ^ exponent < 2 ^ 52 * 2 ^ stepExponent n := by
        calc significand * 2 ^ exponent
            < 2 ^ 53 * 2 ^ exponent := Nat.mul_lt_mul_of_pos_right hsignificand (Nat.two_pow_pos _)
          _ = 2 ^ 52 * 2 ^ (exponent + 1) := by ring
          _ ≤ 2 ^ 52 * 2 ^ stepExponent n :=
            Nat.mul_le_mul_left _ (Nat.pow_le_pow_right (by decide) hfine)
      unfold Nat.dist
      omega
    · left
      refine ⟨significand * 2 ^ (exponent - stepExponent n), ?_⟩
      rw [Nat.mul_assoc, ← Nat.pow_add, Nat.sub_add_cancel hcoarse]
  refine ⟨fitsBits_of_le (by decide) hbound _, ?_, ?_⟩
  · intro y hy
    rcases hcases hy with ⟨k, rfl⟩ | hfar
    · exact (hnearest k).1
    · exact (hnearest (2 ^ 52)).1.trans hfar.le
  · intro y hy htie
    rcases hcases hy with ⟨k, rfl⟩ | hfar
    · rcases (hnearest k).2 htie with rfl | heven
      · exact .inl rfl
      · right
        obtain ⟨half, hhalf⟩ := Nat.dvd_of_mod_eq_zero heven
        rw [hhalf] at hbound ⊢
        have hmost : half ≤ 2 ^ 52 := by omega
        have hfits := fitsBits_of_le (by decide) hmost (stepExponent n + 1)
        rwa [Nat.pow_succ, Nat.mul_comm (2 ^ stepExponent n) 2, ← Nat.mul_assoc, Nat.mul_comm half 2]
          at hfits
    · have hle := (hnearest (2 ^ 52)).1
      omega

theorem gridExponent_one {n : Nat} (hn : n ≠ 0) : gridExponent n 1 = (n.log2 : Int) - 52 := by
  have hlog : Nat.log2 1 = 0 := by decide
  unfold gridExponent scale
  rw [hlog]
  by_cases hlarge : (52 : Int) ≤ n.log2
  · have hle : Nat.pow 2 52 * (1 * Nat.pow 2 ((n.log2 : Int) - 0 - 52).toNat) ≤ n := by
      have hpow : 52 + ((n.log2 : Int) - 0 - 52).toNat = n.log2 := by omega
      rw [Nat.one_mul]
      show 2 ^ 52 * 2 ^ ((n.log2 : Int) - 0 - 52).toNat ≤ n
      rw [← Nat.pow_add, hpow]
      exact Nat.log2_self_le hn
    simp only [Nat.cast_zero]
    rw [if_pos (by omega : (0 : Int) ≤ (n.log2 : Int) - 0 - 52)]
    dsimp only
    rw [if_neg (Nat.not_lt.mpr hle)]
    omega
  · have hle : Nat.pow 2 52 * 1 ≤ n * Nat.pow 2 (-((n.log2 : Int) - 0 - 52)).toNat := by
      have hpow : n.log2 + (-((n.log2 : Int) - 0 - 52)).toNat = 52 := by omega
      rw [Nat.mul_one]
      show 2 ^ 52 ≤ n * 2 ^ (-((n.log2 : Int) - 0 - 52)).toNat
      calc 2 ^ 52 = 2 ^ n.log2 * 2 ^ (-((n.log2 : Int) - 0 - 52)).toNat := by rw [← Nat.pow_add, hpow]
        _ ≤ n * 2 ^ (-((n.log2 : Int) - 0 - 52)).toNat :=
          Nat.mul_le_mul_right _ (Nat.log2_self_le hn)
    simp only [Nat.cast_zero]
    rw [if_neg (by omega : ¬ (0 : Int) ≤ (n.log2 : Int) - 0 - 52)]
    dsimp only
    rw [if_neg (Nat.not_lt.mpr hle)]
    omega

theorem roundHalfEven_one (n : Nat) : roundHalfEven n 1 = n := by
  unfold roundHalfEven
  rw [Nat.div_one, Nat.mod_one]
  rfl

theorem ofDecimal_zero_of_ne {n : Nat} (hn : n ≠ 0) : ofDecimal n 0 = nearest n 1 := by
  unfold ofDecimal
  rw [if_neg (by omega), if_neg (by decide), if_pos (Int.le_refl 0)]
  show nearest (n * 1) 1 = nearest n 1
  rw [Nat.mul_one]

/-- The point of a number as long as a significand, or longer, has the step for its exponent. -/
theorem ofDecimal_of_long {n : Nat} (hn : n ≠ 0) (hlong : 52 ≤ n.log2) :
    ofDecimal n 0 = ⟨roundHalfEven n (2 ^ stepExponent n), stepExponent n⟩ := by
  have hexponent : (n.log2 : Int) - 52 = (stepExponent n : Nat) := by
    unfold stepExponent
    omega
  rw [ofDecimal_zero_of_ne hn]
  unfold nearest
  rw [if_neg hn, gridExponent_one hn, hexponent]
  unfold scale
  dsimp only
  rw [if_pos (Int.natCast_nonneg _), Int.toNat_natCast, Nat.one_mul]
  rfl

/-- The point of a shorter number is that number, shifted until its significand is full. -/
theorem ofDecimal_of_short {n : Nat} (hn : n ≠ 0) (hshort : n.log2 < 52) :
    ofDecimal n 0 = ⟨n * 2 ^ (52 - n.log2), -((52 - n.log2 : Nat) : Int)⟩ := by
  have hexponent : (n.log2 : Int) - 52 = -((52 - n.log2 : Nat) : Int) := by omega
  rw [ofDecimal_zero_of_ne hn]
  unfold nearest
  rw [if_neg hn, gridExponent_one hn, hexponent]
  unfold scale
  dsimp only
  rw [if_neg (by omega), Int.neg_neg, Int.toNat_natCast]
  dsimp only
  rw [roundHalfEven_one]
  rfl

theorem floor_ofDecimal_of_short {n : Nat} (hn : n ≠ 0) (hshort : n.log2 < 52) :
    (ofDecimal n 0).floor = n := by
  rw [ofDecimal_of_short hn hshort]
  unfold floor
  rw [if_neg (by dsimp only; omega)]
  dsimp only
  rw [Int.neg_neg, Int.toNat_natCast]
  exact Nat.mul_div_cancel n (Nat.two_pow_pos _)

theorem ofDecimal_zero : ofDecimal 0 0 = ⟨0, -1074⟩ := by
  unfold ofDecimal
  rw [if_pos (.inl rfl)]

/-- The whole part of the point of a whole number is what the number is rounded to: it has nothing
    behind the point. -/
theorem roundsTo_floor_ofDecimal (n : Nat) : RoundsTo n (ofDecimal n 0).floor := by
  rcases Nat.eq_zero_or_pos n with rfl | hpos
  · rw [ofDecimal_zero]
    unfold floor
    rw [if_neg (by decide), Nat.zero_div]
    exact RoundsTo.zero
  have hn : n ≠ 0 := Nat.ne_of_gt hpos
  have hrounds := roundsTo_roundHalfEven n
  rcases Nat.lt_or_ge n.log2 52 with hshort | hlong
  · have hstep : stepExponent n = 0 := Nat.sub_eq_zero_of_le (Nat.le_of_lt hshort)
    rw [hstep, Nat.pow_zero, roundHalfEven_one, Nat.mul_one] at hrounds
    rwa [floor_ofDecimal_of_short hn hshort]
  · rw [ofDecimal_of_long hn hlong]
    unfold floor
    rw [if_pos (Int.natCast_nonneg _)]
    exact hrounds

/-- A number of 64 bits is far from the end of the range. -/
theorem isFinite_ofDecimal {n : Nat} (h : n < 2 ^ 64) : (ofDecimal n 0).isFinite = true := by
  have hfinite {p : GridPoint} (hsignificand : p.significand ≤ 2 ^ 53)
      (hexponent : p.exponent ≤ 12) : p.isFinite = true := by
    have hfield : (p.exponent + 1074).toNat ≤ 1086 := by omega
    have hproduct := Nat.mul_le_mul_right (2 ^ 52) hfield
    have hinfinity : 1086 * 2 ^ 52 + 2 ^ 53 < infinityBits := by decide
    have hbits : p.bits ≤ (p.exponent + 1074).toNat * 2 ^ 52 + p.significand := Nat.min_le_left ..
    exact decide_eq_true (by omega)
  rcases Nat.eq_zero_or_pos n with rfl | hpos
  · rw [ofDecimal_zero]
    exact hfinite (Nat.zero_le _) (by decide)
  have hn : n ≠ 0 := Nat.ne_of_gt hpos
  have hlog : n.log2 < 64 := (Nat.log2_lt hn).mpr h
  rcases Nat.lt_or_ge n.log2 52 with hshort | hlong
  · rw [ofDecimal_of_short hn hshort]
    refine hfinite ?_ (by dsimp only; omega)
    calc n * 2 ^ (52 - n.log2)
        ≤ 2 ^ (n.log2 + 1) * 2 ^ (52 - n.log2) := Nat.mul_le_mul_right _ Nat.lt_log2_self.le
      _ = 2 ^ 53 := by
        rw [← Nat.pow_add]
        congr 1
        omega
  · rw [ofDecimal_of_long hn hlong]
    refine hfinite (roundHalfEven_le n (Nat.two_pow_pos _) (lt_two_pow_step n)) ?_
    show ((stepExponent n : Nat) : Int) ≤ 12
    unfold stepExponent
    omega

/-! ## Rounding a quotient -/

theorem scale_of_nonpos (num den : Nat) {e : Int} (he : e ≤ 0) :
    scale num den e = (num * 2 ^ (-e).toNat, den) := by
  unfold scale
  split
  · next hnonneg =>
    obtain rfl : e = 0 := Int.le_antisymm he hnonneg
    show (num, den * 1) = (num * 1, den)
    rw [Nat.mul_one, Nat.mul_one]
  · rfl

/-- On a grid half as fine the quotient is half as large. -/
theorem scale_lt_iff_pred (num den bound : Nat) (e : Int) :
    (scale num den e).1 < bound * (scale num den e).2 ↔
      (scale num den (e - 1)).1 < 2 * bound * (scale num den (e - 1)).2 := by
  rcases Int.lt_or_le 0 e with hpos | hnonpos
  · have hexponent : e.toNat = (e - 1).toNat + 1 := by omega
    unfold scale
    rw [if_pos hpos.le, if_pos (by omega), hexponent]
    show num < bound * (den * 2 ^ ((e - 1).toNat + 1)) ↔ num < 2 * bound * (den * 2 ^ (e - 1).toNat)
    rw [Nat.pow_succ, ← Nat.mul_assoc den, Nat.mul_comm _ 2, Nat.mul_left_comm, Nat.mul_assoc 2]
  · have hexponent : (-(e - 1)).toNat = (-e).toNat + 1 := by omega
    rw [scale_of_nonpos num den hnonpos, scale_of_nonpos num den (by omega), hexponent]
    show num * 2 ^ (-e).toNat < bound * den ↔ num * 2 ^ ((-e).toNat + 1) < 2 * bound * den
    rw [Nat.pow_succ, ← Nat.mul_assoc, Nat.mul_comm _ 2, Nat.mul_assoc 2]
    exact (Nat.mul_lt_mul_left (by decide)).symm

/-- On a coarser grid the quotient is smaller. -/
theorem scale_lt_of_le {num den bound : Nat} {e e' : Int} (hle : e ≤ e')
    (h : (scale num den e).1 < bound * (scale num den e).2) :
    (scale num den e').1 < bound * (scale num den e').2 := by
  induction e', hle using Int.leInduction with
  | base => exact h
  | succ e' _ ih =>
      rw [scale_lt_iff_pred, Int.add_sub_cancel]
      refine Nat.lt_of_lt_of_le ih (Nat.mul_le_mul_right _ ?_)
      omega

/-- On the grid of a quotient it has no more than 53 digits in front of the point. -/
theorem scale_gridExponent_lt (num : Nat) {den : Nat} (hden : den ≠ 0) :
    (scale num den (gridExponent num den)).1 < 2 ^ 53 * (scale num den (gridExponent num den)).2 := by
  unfold gridExponent
  dsimp only
  generalize hexponent : (num.log2 : Int) - den.log2 - 52 = e
  refine scale_lt_of_le (Int.le_max_left ..) ?_
  split
  · next hfull => exact (scale_lt_iff_pred num den (2 ^ 52) e).mp hfull
  · have hnumber : num < 2 ^ (num.log2 + 1) := Nat.lt_log2_self
    have hdenominator : 2 ^ den.log2 ≤ den := Nat.log2_self_le hden
    unfold scale
    split
    · have hlength : num.log2 + 1 = 53 + (den.log2 + e.toNat) := by omega
      calc num < 2 ^ (num.log2 + 1) := hnumber
        _ = 2 ^ 53 * (2 ^ den.log2 * 2 ^ e.toNat) := by rw [hlength, Nat.pow_add, Nat.pow_add _ den.log2]
        _ ≤ 2 ^ 53 * (den * 2 ^ e.toNat) := Nat.mul_le_mul_left _ (Nat.mul_le_mul_right _ hdenominator)
    · have hlength : num.log2 + 1 + (-e).toNat = 53 + den.log2 := by omega
      calc num * 2 ^ (-e).toNat
          < 2 ^ (num.log2 + 1) * 2 ^ (-e).toNat := Nat.mul_lt_mul_of_pos_right hnumber (Nat.two_pow_pos _)
        _ = 2 ^ 53 * 2 ^ den.log2 := by rw [← Nat.pow_add, hlength, Nat.pow_add]
        _ ≤ 2 ^ 53 * den := Nat.mul_le_mul_left _ hdenominator

theorem significand_nearest_le (num : Nat) {den : Nat} (hden : den ≠ 0) :
    (nearest num den).significand ≤ 2 ^ 53 := by
  unfold nearest
  split
  · exact Nat.zero_le _
  · have hlt := scale_gridExponent_lt num hden
    refine roundHalfEven_le _ ?_ hlt
    exact Nat.pos_of_ne_zero fun hzero => by simp [hzero] at hlt

theorem significand_ofDecimal_le (digits : Nat) (exponent : Int) :
    (ofDecimal digits exponent).significand ≤ 2 ^ 53 := by
  unfold ofDecimal
  split
  · exact Nat.zero_le _
  · split
    · exact Nat.one_le_two_pow
    · split
      · exact significand_nearest_le _ Nat.one_ne_zero
      · exact significand_nearest_le _ (Nat.pow_pos (by decide)).ne'

/-- The whole part of a number of floating point is one too. -/
theorem fitsBits_floor_ofDecimal (digits : Nat) (exponent : Int) :
    FitsBits 53 (ofDecimal digits exponent).floor := by
  have hsignificand := significand_ofDecimal_le digits exponent
  unfold floor
  split
  · exact fitsBits_of_le (by decide) hsignificand _
  · generalize Nat.pow 2 _ = step
    have hfits := fitsBits_of_le (by decide) ((Nat.div_le_self _ step).trans hsignificand) 0
    rwa [Nat.pow_zero, Nat.mul_one] at hfits

end GridPoint
end CommandShell
