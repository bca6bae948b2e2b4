import OptionsData.Greeks.BlackScholes

namespace OptionsProof.ImpliedVolatility

open Kit OptionsModel

variable {α : Type*} [Field α] [LinearOrder α] {price : α → α} {targetPrice S K T lo hi tol : α} {maxIter : ℕ}

structure Encloses (price : α → α) (targetPrice : α) (maxIter : ℕ) (lo hi a b result : α) : Prop where
  bracket : Bracket (fun sigma => price sigma < targetPrice) (fun sigma => targetPrice < price sigma) maxIter lo hi a b
  left : a ≤ result
  right : result ≤ b
  roots : ∀ sigma, price sigma = targetPrice → a < sigma ∧ sigma < b

theorem impliedVolatilityOf_eq (spot : 0 < S) (strike : 0 < K) (time : 0 < T) (target : 0 < targetPrice) :
    impliedVolatilityOf price targetPrice S K T lo hi tol maxIter =
      if targetPrice ≤ price lo then some lo
      else if price hi ≤ targetPrice then some hi
      else some (searchVolatility price targetPrice tol maxIter lo hi) := by
  have valid : ¬ (T ≤ 0 ∨ targetPrice ≤ 0 ∨ S ≤ 0 ∨ K ≤ 0) := by
    simp only [not_or, not_le]
    exact ⟨time, target, spot, strike⟩
  rw [impliedVolatilityOf, if_neg valid]

variable [IsStrictOrderedRing α]

theorem search_encloses (monotone : Monotone price) (positive : 0 < tol) (ordered : lo < hi)
    (atLow : price lo < targetPrice) (atHigh : targetPrice < price hi) (maxIter : ℕ) :
    |price (searchVolatility price targetPrice tol maxIter lo hi) - targetPrice| < tol ∨
      ∃ a b, Encloses price targetPrice maxIter lo hi a b (searchVolatility price targetPrice tol maxIter lo hi) := by
  have goes_down (x : α) (refused : decide (|price x - targetPrice| < tol) = false)
      (beyond : decide (price x < targetPrice) = false) : targetPrice < price x := by
    apply lt_of_le_of_ne (not_lt.mp (of_decide_eq_false beyond))
    intro same
    apply of_decide_eq_false refused
    rw [same, sub_self, abs_zero]
    exact positive
  rcases bisect_bracket (fun _ _ => rfl) (fun x _ under => of_decide_eq_true under) goes_down maxIter ordered.le atLow
    atHigh with accepted | ⟨a, b, bracket, same⟩
  · exact Or.inl (of_decide_eq_true accepted)
  · have inside := bracket.ordered ordered.le
    refine Or.inr ⟨a, b, bracket, ?_, ?_, fun sigma root => bracket.root_mem monotone root⟩
    · exact (half_between a b inside).1.trans same.ge
    · exact same.le.trans (half_between a b inside).2

theorem Encloses.near {a b result sigma : α} (encloses : Encloses price targetPrice maxIter lo hi a b result)
    (root : price sigma = targetPrice) : |result - sigma| < (hi - lo) / 2 ^ maxIter := by
  obtain ⟨above, under⟩ := encloses.roots sigma root
  have left := encloses.left
  have right := encloses.right
  rw [← encloses.bracket.width, abs_lt]
  constructor
  · linarith
  · linarith

theorem impliedVolatilityOf_near (monotone : Monotone price) (ordered : lo < hi) (positive : 0 < tol) (spot : 0 < S)
    (strike : 0 < K) (time : 0 < T) {sigma : α} (worth : 0 < price sigma) (left : lo ≤ sigma) (right : sigma ≤ hi)
    (maxIter : ℕ) : ∃ result, impliedVolatilityOf price (price sigma) S K T lo hi tol maxIter = some result ∧
      (|price result - price sigma| < tol ∨ |result - sigma| < (hi - lo) / 2 ^ maxIter) := by
  rw [impliedVolatilityOf_eq spot strike time worth]
  split
  · next below =>
    have same := le_antisymm (monotone left) below
    exact ⟨lo, rfl, Or.inl (by rwa [same, sub_self, abs_zero])⟩
  · next above =>
    split
    · next reached =>
      have same := le_antisymm reached (monotone right)
      exact ⟨hi, rfl, Or.inl (by rwa [same, sub_self, abs_zero])⟩
    · next short =>
      refine ⟨_, rfl, ?_⟩
      rcases search_encloses monotone positive ordered (not_le.mp above) (not_le.mp short) maxIter with
        close | ⟨a, b, encloses⟩
      · exact Or.inl close
      · exact Or.inr (encloses.near rfl)

theorem impliedVolatility_bracketed (monotone : Monotone price) (ordered : lo < hi) (positive : 0 < tol)
    (target : 0 < targetPrice) (spot : 0 < S) (strike : 0 < K) (time : 0 < T) (maxIter : ℕ) :
    ∃ result, impliedVolatilityOf price targetPrice S K T lo hi tol maxIter = some result ∧
      lo ≤ result ∧ result ≤ hi ∧
      (targetPrice ≤ price lo → result = lo) ∧
      (price lo < targetPrice → price hi ≤ targetPrice → result = hi) ∧
      (price lo < targetPrice → targetPrice < price hi → |price result - targetPrice| < tol ∨
        ∃ a b, Encloses price targetPrice maxIter lo hi a b result) := by
  rw [impliedVolatilityOf_eq spot strike time target]
  split
  · next below =>
    exact ⟨lo, rfl, le_rfl, ordered.le, fun _ => rfl, fun above => absurd below above.not_ge,
      fun above => absurd below above.not_ge⟩
  · next above =>
    split
    · next reached =>
      exact ⟨hi, rfl, ordered.le, le_rfl, fun below => absurd below above, fun _ _ => rfl,
        fun _ short => absurd reached short.not_ge⟩
    · next short =>
      obtain ⟨left, right⟩ := bisect_mem half_between (fun mid => |price mid - targetPrice| < tol)
        (fun mid => price mid < targetPrice) maxIter ordered.le
      refine ⟨_, rfl, left, right, fun below => absurd below above, fun _ reached => absurd reached short, ?_⟩
      intro atLow atHigh
      exact search_encloses monotone positive ordered atLow atHigh maxIter

/-- A price that is flat up to a half. -/
theorem impliedVolatility_bracketed_flat : ∃ result,
    impliedVolatilityOf (fun sigma : ℚ => max (1 / 2) sigma) (7 / 10) 100 100 1 0 1 (1 / 1000) 3 = some result ∧
      0 ≤ result ∧ result ≤ 1 ∧ ∃ a b, Encloses (fun sigma : ℚ => max (1 / 2) sigma) (7 / 10) 3 0 1 a b result := by
  have monotone : Monotone fun sigma : ℚ => max (1 / 2) sigma := fun _ _ le => max_le_max le_rfl le
  obtain ⟨result, found, left, right, -, -, search⟩ := impliedVolatility_bracketed monotone (zero_lt_one)
    (by norm_num : (0 : ℚ) < 1 / 1000) (by norm_num : (0 : ℚ) < 7 / 10) (by norm_num : (0 : ℚ) < 100)
    (by norm_num : (0 : ℚ) < 100) (zero_lt_one) 3
  refine ⟨result, found, left, right, ?_⟩
  have computed : impliedVolatilityOf (fun sigma : ℚ => max (1 / 2) sigma) (7 / 10) 100 100 1 0 1 (1 / 1000) 3 =
      some (11 / 16) := by decide +kernel
  obtain rfl := Option.some.inj (computed.symm.trans found)
  rcases search (by norm_num) (by norm_num) with near | enclosed
  · norm_num [abs_lt] at near
  · exact enclosed

end OptionsProof.ImpliedVolatility
