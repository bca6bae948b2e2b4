import OptionsData.Greeks.ImpliedVolatility
import OptionsData.Greeks.Sensitivities

namespace OptionsProof.RealVolatility

open Set Kit Kit.BlackFormula OptionsModel OptionsProof.ImpliedVolatility OptionsProof.Sensitivities

variable {S K T r q lo hi tol sigma target : ℝ}

/-- What the holder gets at expiry, discounted, and what he gives for it. -/
noncomputable def received (S K T r q : ℝ) : Right → ℝ
  | .call => forward S (max T MIN_T_YEARS) q
  | .put => forward K (max T MIN_T_YEARS) r

noncomputable def given (S K T r q : ℝ) : Right → ℝ
  | .call => forward K (max T MIN_T_YEARS) r
  | .put => forward S (max T MIN_T_YEARS) q

section Priced

variable (spot : 0 < S) (strike : 0 < K)

include spot strike

theorem received_pos (T r q : ℝ) (right : Right) : 0 < received S K T r q right := by
  cases right with
  | call => exact forward_pos spot _ q
  | put => exact forward_pos strike _ r

theorem given_pos (T r q : ℝ) (right : Right) : 0 < given S K T r q right := by
  cases right with
  | call => exact forward_pos strike _ r
  | put => exact forward_pos spot _ q

theorem bsPrice_eq (T r sigma q : ℝ) (right : Right) : bsPrice realFunctions S K T r sigma right q =
    black (received S K T r q right) (given S K T r q right) (deviation (floored sigma) (max T MIN_T_YEARS)) := by
  cases right with
  | call => exact bsPrice_call spot strike T r sigma q
  | put => exact bsPrice_put spot strike T r sigma q

theorem bsPrice_monotone (T r q : ℝ) (right : Right) :
    Monotone fun sigma => bsPrice realFunctions S K T r sigma right q := by
  intro low high below
  have root := Real.sqrt_nonneg (max T MIN_T_YEARS)
  have wider : deviation (floored low) (max T MIN_T_YEARS) ≤ deviation (floored high) (max T MIN_T_YEARS) :=
    mul_le_mul_of_nonneg_right (max_le_max_right _ below) root
  simp only [bsPrice_eq spot strike]
  exact (black_strictMonoOn (received_pos spot strike T r q right) (given_pos spot strike T r q right)).monotoneOn
    (deviation_pos (floored_pos low) (maturity_pos T)) (deviation_pos (floored_pos high) (maturity_pos T)) wider

theorem bsPrice_strictMonoOn (T r q : ℝ) (right : Right) :
    StrictMonoOn (fun sigma => bsPrice realFunctions S K T r sigma right q) (Ici (1 / 1000000)) := by
  intro low atLeast high atLeast' below
  have same : floored low = low := floored_of_le atLeast
  have same' : floored high = high := floored_of_le atLeast'
  have wider : deviation (floored low) (max T MIN_T_YEARS) < deviation (floored high) (max T MIN_T_YEARS) := by
    rw [same, same']
    exact mul_lt_mul_of_pos_right below (Real.sqrt_pos.mpr (maturity_pos T))
  simp only [bsPrice_eq spot strike]
  exact black_strictMonoOn (received_pos spot strike T r q right) (given_pos spot strike T r q right)
    (deviation_pos (floored_pos low) (maturity_pos T)) (deviation_pos (floored_pos high) (maturity_pos T)) wider

theorem bsPrice_continuous (T r q : ℝ) (right : Right) :
    Continuous fun sigma => bsPrice realFunctions S K T r sigma right q := by
  simp only [bsPrice_eq spot strike]
  refine (continuousOn_black (received_pos spot strike T r q right) (given_pos spot strike T r q right)).comp_continuous
    ?_ fun sigma => deviation_pos (floored_pos sigma) (maturity_pos T)
  exact (continuous_id.max continuous_const).mul continuous_const

theorem bsPrice_sub_le (T r q : ℝ) (right : Right) {low high : ℝ} (below : low ≤ high) :
    bsPrice realFunctions S K T r high right q - bsPrice realFunctions S K T r low right q ≤
      received S K T r q right * √(max T MIN_T_YEARS) * (high - low) := by
  have root := Real.sqrt_nonneg (max T MIN_T_YEARS)
  have forwards := received_pos spot strike T r q right
  have wider : deviation (floored low) (max T MIN_T_YEARS) ≤ deviation (floored high) (max T MIN_T_YEARS) :=
    mul_le_mul_of_nonneg_right (max_le_max_right _ below) root
  have least : floored high - floored low ≤ high - low := by
    rw [floored_eq, floored_eq]
    rcases le_total high (1 / 1000000) with under | beyond
    · rw [max_eq_right under, max_eq_right (below.trans under)]
      linarith
    · rw [max_eq_left beyond]
      linarith [le_max_left low (1 / 1000000)]
  simp only [bsPrice_eq spot strike]
  calc _ ≤ received S K T r q right *
        (deviation (floored high) (max T MIN_T_YEARS) - deviation (floored low) (max T MIN_T_YEARS)) :=
        black_sub_le forwards (given_pos spot strike T r q right)
          (deviation_pos (floored_pos low) (maturity_pos T)) wider
    _ = received S K T r q right * √(max T MIN_T_YEARS) * (floored high - floored low) := by
        rw [deviation, deviation]
        ring
    _ ≤ received S K T r q right * √(max T MIN_T_YEARS) * (high - low) :=
        mul_le_mul_of_nonneg_left least (mul_nonneg forwards.le root)

theorem abs_bsPrice_sub_le (T r q : ℝ) (right : Right) (one other : ℝ) :
    |bsPrice realFunctions S K T r one right q - bsPrice realFunctions S K T r other right q| ≤
      received S K T r q right * √(max T MIN_T_YEARS) * |one - other| := by
  have monotone := bsPrice_monotone spot strike T r q right
  rcases le_total one other with below | above
  · rw [abs_sub_comm, abs_sub_comm one, abs_of_nonneg (sub_nonneg.mpr (monotone below)),
      abs_of_nonneg (sub_nonneg.mpr below)]
    exact bsPrice_sub_le spot strike T r q right below
  · rw [abs_of_nonneg (sub_nonneg.mpr (monotone above)), abs_of_nonneg (sub_nonneg.mpr above)]
    exact bsPrice_sub_le spot strike T r q right above

/-- Where a volatility has the price, it is the only one, and the search ends near it or near its price. -/
structure Solves (S K T r : ℝ) (right : Right) (q lo hi tol : ℝ) (maxIter : ℕ) (target iv sigma : ℝ) : Prop where
  atLeast : lo ≤ sigma
  atMost : sigma ≤ hi
  priced : bsPrice realFunctions S K T r sigma right q = target
  only : ∀ other, lo ≤ other → bsPrice realFunctions S K T r other right q = target → other = sigma
  near : |bsPrice realFunctions S K T r iv right q - target| < tol ∨ |iv - sigma| < (hi - lo) / 2 ^ maxIter
  worth : |bsPrice realFunctions S K T r iv right q - target| <
    max tol (received S K T r q right * √(max T MIN_T_YEARS) * ((hi - lo) / 2 ^ maxIter))

theorem solves_of_attained (time : 0 < T) (r q : ℝ) (right : Right) (ordered : lo < hi) (above : 1 / 1000000 ≤ lo)
    (positive : 0 < tol) (worth : 0 < target) (atLow : bsPrice realFunctions S K T r lo right q ≤ target)
    (atHigh : target ≤ bsPrice realFunctions S K T r hi right q) (maxIter : ℕ) :
    ∃ iv sigma, impliedVolatility realFunctions target S K T r right q lo hi tol maxIter = some iv ∧
      Solves S K T r right q lo hi tol maxIter target iv sigma := by
  obtain ⟨sigma, ⟨atLeast, atMost⟩, priced⟩ := intermediate_value_Icc ordered.le
    (bsPrice_continuous spot strike T r q right).continuousOn ⟨atLow, atHigh⟩
  have monotone := bsPrice_monotone spot strike T r q right
  subst priced
  obtain ⟨iv, found, near⟩ := impliedVolatilityOf_near monotone ordered positive spot strike time worth atLeast
    atMost maxIter
  refine ⟨iv, sigma, found, atLeast, atMost, rfl, ?_, near, ?_⟩
  · intro other inside same
    exact (bsPrice_strictMonoOn spot strike T r q right).injOn (above.trans inside) (above.trans atLeast) same
  · rcases near with close | close
    · exact lt_max_of_lt_left close
    · apply lt_max_of_lt_right
      have steep : 0 < received S K T r q right * √(max T MIN_T_YEARS) :=
        mul_pos (received_pos spot strike T r q right) (Real.sqrt_pos.mpr (maturity_pos T))
      exact (abs_bsPrice_sub_le spot strike T r q right iv sigma).trans_lt (mul_lt_mul_of_pos_left close steep)

end Priced

/-- Solving for the volatility of a price that some volatility of the bracket has finds it, up to the tolerance or the
width that the halvings leave; for any other price the search ends at the end of the bracket that is nearest to it. -/
theorem impliedVolatility_solves (spot : 0 < S) (strike : 0 < K) (time : 0 < T) (r q : ℝ) (right : Right)
    (ordered : lo < hi) (above : 1 / 1000000 ≤ lo) (positive : 0 < tol) (worth : 0 < target) (maxIter : ℕ) :
    ∃ iv, impliedVolatility realFunctions target S K T r right q lo hi tol maxIter = some iv ∧
      (target < bsPrice realFunctions S K T r lo right q ∧ iv = lo ∨
        bsPrice realFunctions S K T r hi right q < target ∧ iv = hi ∨
        ∃ sigma, Solves S K T r right q lo hi tol maxIter target iv sigma) := by
  obtain ⟨iv, found, -, -, low, high, -⟩ :=
    impliedVolatility_bracketed (bsPrice_monotone spot strike T r q right) ordered
    positive worth spot strike time maxIter
  rcases lt_or_ge target (bsPrice realFunctions S K T r lo right q) with cheap | atLow
  · exact ⟨iv, found, Or.inl ⟨cheap, low cheap.le⟩⟩
  · rcases lt_or_ge (bsPrice realFunctions S K T r hi right q) target with dear | atHigh
    · have more : bsPrice realFunctions S K T r lo right q < target :=
        (bsPrice_monotone spot strike T r q right ordered.le).trans_lt dear
      exact ⟨iv, found, Or.inr (Or.inl ⟨dear, high more dear.le⟩)⟩
    · obtain ⟨iv, sigma, found, solves⟩ := solves_of_attained spot strike time r q right ordered above positive worth
        atLow atHigh maxIter
      exact ⟨iv, found, Or.inr (Or.inr ⟨sigma, solves⟩)⟩

/-- With the bracket, the tolerance and the rounds that are the defaults, for the price of a volatility of 20 %. -/
theorem impliedVolatility_solves_default : ∃ iv,
    impliedVolatility realFunctions (bsPrice realFunctions 100 100 1 (1 / 20) (1 / 5) .call 0) 100 100 1 (1 / 20) .call
        0 (1 / 10000) 5 (1 / 1000000) 100 = some iv ∧
      Solves 100 100 1 (1 / 20) .call 0 (1 / 10000) 5 (1 / 1000000) 100
        (bsPrice realFunctions 100 100 1 (1 / 20) (1 / 5) .call 0) iv (1 / 5) := by
  have spot : (0 : ℝ) < 100 := by norm_num
  have monotone := bsPrice_monotone spot spot 1 (1 / 20) 0 .call
  have low : (1 / 10000 : ℝ) < 5 := by norm_num
  have above : (1 / 1000000 : ℝ) ≤ 1 / 10000 := by norm_num
  have small : (0 : ℝ) < 1 / 1000000 := by norm_num
  have worth : 0 < bsPrice realFunctions 100 100 1 (1 / 20) (1 / 5) .call 0 := by
    rw [bsPrice_eq spot spot]
    exact black_pos (received_pos spot spot ..) (given_pos spot spot ..)
      (deviation_pos (floored_pos _) (maturity_pos _))
  obtain ⟨iv, found, ⟨cheap, -⟩ | ⟨dear, -⟩ | ⟨sigma, solves⟩⟩ := impliedVolatility_solves spot spot one_pos (1 / 20) 0
    .call low above small worth 100
  · exact absurd cheap (not_lt.mpr (monotone (by norm_num)))
  · exact absurd dear (not_lt.mpr (monotone (by norm_num)))
  · obtain rfl := solves.only (1 / 5) (by norm_num) rfl
    exact ⟨iv, found, solves⟩

end OptionsProof.RealVolatility
