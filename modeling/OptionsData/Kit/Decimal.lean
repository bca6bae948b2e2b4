import Mathlib

namespace Kit

/-- The nearest integer; a tie goes away from zero. -/
def roundAway (q : ℚ) : ℤ := if 0 ≤ q then ⌊q + 1 / 2⌋ else ⌈q - 1 / 2⌉

/-- The nearest number with so many decimals. -/
def toScale (scale : ℕ) (q : ℚ) : ℚ := roundAway (q * 10 ^ scale) / 10 ^ scale

theorem roundAway_nonneg {q : ℚ} (nonneg : 0 ≤ q) : 0 ≤ roundAway q := by
  rw [roundAway, if_pos nonneg, Int.floor_nonneg]
  linarith

theorem roundAway_nonpos {q : ℚ} (negative : q < 0) : roundAway q ≤ 0 := by
  rw [roundAway, if_neg (not_le.mpr negative), Int.ceil_le, Int.cast_zero]
  linarith

theorem roundAway_monotone : Monotone roundAway := by
  intro p q below
  rcases lt_or_ge p 0 with negative | nonneg
  · rcases lt_or_ge q 0 with negative' | nonneg'
    · rw [roundAway, roundAway, if_neg (not_le.mpr negative), if_neg (not_le.mpr negative')]
      exact Int.ceil_mono (sub_le_sub_right below _)
    · exact (roundAway_nonpos negative).trans (roundAway_nonneg nonneg')
  · rw [roundAway, roundAway, if_pos nonneg, if_pos (nonneg.trans below)]
    exact Int.floor_mono (add_le_add_left below _)

theorem roundAway_pos_iff {q : ℚ} : 0 < roundAway q ↔ 1 / 2 ≤ q := by
  constructor
  · intro positive
    by_contra small
    have zero : roundAway q ≤ 0 := by
      rcases lt_or_ge q 0 with negative | nonneg
      · exact roundAway_nonpos negative
      · rw [roundAway, if_pos nonneg, ← Int.lt_add_one_iff, Int.floor_lt]
        push_cast
        linarith
    omega
  · intro large
    have nonneg : 0 ≤ q := by linarith
    rw [roundAway, if_pos nonneg, Int.floor_pos]
    linarith

theorem scale_pos (scale : ℕ) : (0 : ℚ) < 10 ^ scale := by positivity

theorem toScale_monotone (scale : ℕ) : Monotone (toScale scale) := by
  intro p q below
  have scaled : p * 10 ^ scale ≤ q * 10 ^ scale := mul_le_mul_of_nonneg_right below (scale_pos scale).le
  exact div_le_div_of_nonneg_right (Int.cast_le.mpr (roundAway_monotone scaled)) (scale_pos scale).le

theorem toScale_pos_iff {scale : ℕ} {q : ℚ} : 0 < toScale scale q ↔ 1 / 2 ≤ q * 10 ^ scale := by
  rw [toScale, div_pos_iff_of_pos_right (scale_pos scale), Int.cast_pos, roundAway_pos_iff]

end Kit
