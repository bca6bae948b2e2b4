import Mathlib

namespace Kit

/-- A search in an interval: in each round a point between its ends is accepted, or becomes the lower or the upper
end. -/
def bisect {α : Type*} (mid : α → α → α) (accept below : α → Bool) : ℕ → α → α → α
  | 0, lo, hi => mid lo hi
  | n + 1, lo, hi =>
    if accept (mid lo hi) then mid lo hi
    else if below (mid lo hi) then bisect mid accept below n (mid lo hi) hi
    else bisect mid accept below n lo (mid lo hi)

section Between

variable {α : Type*} [Preorder α] {mid : α → α → α} {lo hi : α}
  (between : ∀ lo hi, lo ≤ hi → lo ≤ mid lo hi ∧ mid lo hi ≤ hi)

include between

theorem bisect_mem (accept below : α → Bool) (n : ℕ) (ordered : lo ≤ hi) :
    lo ≤ bisect mid accept below n lo hi ∧ bisect mid accept below n lo hi ≤ hi := by
  induction n generalizing lo hi with
  | zero => exact between lo hi ordered
  | succ n ih =>
    obtain ⟨above, under⟩ := between lo hi ordered
    unfold bisect
    split
    · exact ⟨above, under⟩
    · split
      · exact ⟨above.trans (ih under).1, (ih under).2⟩
      · exact ⟨(ih above).1, (ih above).2.trans under⟩

end Between

variable {α : Type*} [Field α] [LinearOrder α]

structure Bracket (low high : α → Prop) (n : ℕ) (lo hi a b : α) : Prop where
  left : lo ≤ a
  right : b ≤ hi
  width : b - a = (hi - lo) / 2 ^ n
  atLow : low a
  atHigh : high b

variable {mid : α → α → α} {accept below : α → Bool} {low high : α → Prop} {n : ℕ} {lo hi a b : α}

theorem Bracket.root_mem {β : Type*} [Preorder β] {f : α → β} {target : β} (monotone : Monotone f)
    (bracket : Bracket (fun x => f x < target) (fun x => target < f x) n lo hi a b) {x : α} (root : f x = target) :
    a < x ∧ x < b := by
  constructor
  · apply monotone.reflect_lt
    rw [root]
    exact bracket.atLow
  · apply monotone.reflect_lt
    rw [root]
    exact bracket.atHigh

variable [IsStrictOrderedRing α]

theorem half_between (lo hi : α) (ordered : lo ≤ hi) : lo ≤ (lo + hi) / 2 ∧ (lo + hi) / 2 ≤ hi := by
  constructor
  · linarith
  · linarith

theorem Bracket.of_upper (ordered : lo ≤ hi) (bracket : Bracket low high n ((lo + hi) / 2) hi a b) :
    Bracket low high (n + 1) lo hi a b := by
  refine ⟨(half_between lo hi ordered).1.trans bracket.left, bracket.right, ?_, bracket.atLow, bracket.atHigh⟩
  have half : hi - (lo + hi) / 2 = (hi - lo) / 2 := by ring
  rw [bracket.width, half, div_div, ← pow_succ']

theorem Bracket.of_lower (ordered : lo ≤ hi) (bracket : Bracket low high n lo ((lo + hi) / 2) a b) :
    Bracket low high (n + 1) lo hi a b := by
  refine ⟨bracket.left, bracket.right.trans (half_between lo hi ordered).2, ?_, bracket.atLow, bracket.atHigh⟩
  have half : (lo + hi) / 2 - lo = (hi - lo) / 2 := by ring
  rw [bracket.width, half, div_div, ← pow_succ']

theorem Bracket.ordered (bracket : Bracket low high n lo hi a b) (ordered : lo ≤ hi) : a ≤ b := by
  have width : 0 ≤ (hi - lo) / 2 ^ n := div_nonneg (sub_nonneg.mpr ordered) (by positivity)
  rw [← bracket.width] at width
  exact sub_nonneg.mp width

/-- A round that does not accept keeps what is known of the ends, so the last midpoint is accepted or in a bracket. -/
theorem bisect_bracket (halves : ∀ lo hi, mid lo hi = (lo + hi) / 2)
    (goes_up : ∀ x, accept x = false → below x = true → low x)
    (goes_down : ∀ x, accept x = false → below x = false → high x) (n : ℕ) (ordered : lo ≤ hi) (atLow : low lo)
    (atHigh : high hi) : accept (bisect mid accept below n lo hi) = true ∨
      ∃ a b, Bracket low high n lo hi a b ∧ bisect mid accept below n lo hi = (a + b) / 2 := by
  induction n generalizing lo hi with
  | zero =>
    exact Or.inr ⟨lo, hi, ⟨le_rfl, le_rfl, by rw [pow_zero, div_one], atLow, atHigh⟩, halves lo hi⟩
  | succ n ih =>
    obtain ⟨above, under⟩ := half_between lo hi ordered
    unfold bisect
    rw [halves lo hi]
    split
    · next accepted => exact Or.inl accepted
    · next rejected =>
      have refused := Bool.eq_false_iff.mpr rejected
      split
      · next up =>
        rcases ih under (goes_up _ refused up) atHigh with found | ⟨a, b, bracket, same⟩
        · exact Or.inl found
        · exact Or.inr ⟨a, b, bracket.of_upper ordered, same⟩
      · next down =>
        rcases ih above atLow (goes_down _ refused (Bool.eq_false_iff.mpr down)) with found | ⟨a, b, bracket, same⟩
        · exact Or.inl found
        · exact Or.inr ⟨a, b, bracket.of_lower ordered, same⟩

end Kit
