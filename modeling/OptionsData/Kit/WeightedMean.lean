import Mathlib

namespace Kit

variable {α : Type*} [Field α] {samples : List (α × α)}

def weight (samples : List (α × α)) : α := (samples.map Prod.snd).sum

def moment (samples : List (α × α)) : α := (samples.map fun sample => sample.1 * sample.2).sum

variable [LinearOrder α]

theorem weight_filter_pos (nonneg : ∀ sample ∈ samples, 0 ≤ sample.2) :
    weight (samples.filter fun sample => 0 < sample.2) = weight samples ∧
      moment (samples.filter fun sample => 0 < sample.2) = moment samples := by
  induction samples with
  | nil => exact ⟨rfl, rfl⟩
  | cons sample samples ih =>
    obtain ⟨weights, moments⟩ := ih fun other member => nonneg other (List.mem_cons_of_mem _ member)
    unfold weight moment at *
    rcases (nonneg sample List.mem_cons_self).eq_or_lt with zero | positive
    · rw [List.filter_cons_of_neg (by simp [← zero])]
      simp only [List.map_cons, List.sum_cons, ← zero, mul_zero, zero_add]
      exact ⟨weights, moments⟩
    · rw [List.filter_cons_of_pos (by simpa using positive)]
      simp only [List.map_cons, List.sum_cons, weights, moments, and_self]

variable [IsStrictOrderedRing α]

theorem sum_pos_iff {values : List α} (nonneg : ∀ value ∈ values, 0 ≤ value) :
    0 < values.sum ↔ ∃ value ∈ values, 0 < value := by
  constructor
  · intro positive
    by_contra none
    have zero : ∀ value ∈ values, value = 0 := fun value member =>
      (not_lt.mp fun heavy => none ⟨value, member, heavy⟩).antisymm (nonneg value member)
    exact positive.ne' (List.sum_eq_zero zero)
  · intro premise
    obtain ⟨value, member, positive⟩ := premise
    exact positive.trans_le (List.single_le_sum nonneg value member)

theorem mean_between (nonneg : ∀ sample ∈ samples, 0 ≤ sample.2) (positive : 0 < weight samples) :
    (∃ low ∈ samples, 0 < low.2 ∧ low.1 ≤ moment samples / weight samples) ∧
      ∃ high ∈ samples, 0 < high.2 ∧ moment samples / weight samples ≤ high.1 := by
  obtain ⟨weights, moments⟩ := weight_filter_pos nonneg
  set mean := moment samples / weight samples with mean_eq
  set heavy := samples.filter fun sample => 0 < sample.2
  have nonempty : heavy ≠ [] := by
    intro empty
    rw [empty] at weights
    exact positive.ne weights
  have total : (heavy.map fun sample => mean * sample.2).sum = moment heavy := by
    rw [List.sum_map_mul_left, moments, mean_eq, ← weights]
    exact div_mul_cancel₀ _ (weights ▸ positive.ne')
  have weighs (sample : α × α) (member : sample ∈ heavy) : sample ∈ samples ∧ 0 < sample.2 := by
    obtain ⟨listed, heavy⟩ := List.mem_filter.mp member
    exact ⟨listed, of_decide_eq_true heavy⟩
  constructor
  · obtain ⟨low, member, below⟩ := List.exists_le_of_sum_le nonempty _ _ total.ge
    obtain ⟨listed, heavy⟩ := weighs low member
    exact ⟨low, listed, heavy, le_of_mul_le_mul_right below heavy⟩
  · obtain ⟨high, member, above⟩ := List.exists_le_of_sum_le nonempty _ _ total.le
    obtain ⟨listed, heavy⟩ := weighs high member
    exact ⟨high, listed, heavy, le_of_mul_le_mul_right above heavy⟩

end Kit
