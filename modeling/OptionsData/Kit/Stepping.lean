import Mathlib

namespace Kit

def countUp (first last step : ℤ) : List ℤ :=
  (List.range ((last - first) / step + 1).toNat).map fun i : ℕ => first + i * step

variable {first last step : ℤ}

theorem mem_countUp (positive : 0 < step) {value : ℤ} :
    value ∈ countUp first last step ↔ first ≤ value ∧ value ≤ last ∧ step ∣ value - first := by
  rw [countUp, List.mem_map]
  constructor
  · intro premise
    obtain ⟨i, listed, rfl⟩ := premise
    have below : (i : ℤ) ≤ (last - first) / step := by
      have bound := List.mem_range.mp listed
      omega
    have product := (Int.le_ediv_iff_mul_le positive).mp below
    have nonneg : 0 ≤ (i : ℤ) * step := mul_nonneg (Int.natCast_nonneg i) positive.le
    exact ⟨by omega, by omega, ⟨i, by ring⟩⟩
  · intro premise
    obtain ⟨low, high, count, distance⟩ := premise
    have nonneg : 0 ≤ count := by
      by_contra negative
      have product : step * count < 0 := mul_neg_of_pos_of_neg positive (not_le.mp negative)
      omega
    have below : count ≤ (last - first) / step := by
      rw [Int.le_ediv_iff_mul_le positive, mul_comm]
      omega
    refine ⟨count.toNat, List.mem_range.mpr (by omega), ?_⟩
    rw [Int.toNat_of_nonneg nonneg, mul_comm]
    omega

theorem countUp_isChain (first last step : ℤ) : (countUp first last step).IsChain fun a b => b = a + step := by
  rw [countUp, List.isChain_map]
  have consecutive : (List.range ((last - first) / step + 1).toNat).IsChain fun a b => b = a + 1 := by
    rw [List.isChain_iff_getElem]
    intro i bound
    simp
  apply consecutive.imp
  intro i j same
  subst same
  push_cast
  ring

theorem countUp_sorted (positive : 0 < step) : (countUp first last step).Pairwise (· < ·) := by
  apply List.isChain_iff_pairwise.mp
  apply (countUp_isChain first last step).imp
  intro a b next
  omega

end Kit
