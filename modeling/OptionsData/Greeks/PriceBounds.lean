import OptionsData.Greeks.RealVolatility

namespace OptionsProof.PriceBounds

open Kit.StandardNormal Kit.BlackFormula OptionsModel OptionsProof.PutCallParity OptionsProof.Sensitivities
open OptionsProof.RealVolatility

variable {S K T r q sigma : ℝ}

theorem bsPrice_bounds (spot : 0 < S) (strike : 0 < K) (T r sigma q : ℝ) (right : Right) :
    max 0 (received S K T r q right - given S K T r q right) < bsPrice realFunctions S K T r sigma right q ∧
      bsPrice realFunctions S K T r sigma right q < received S K T r q right := by
  have got := received_pos spot strike T r q right
  have paid := given_pos spot strike T r q right
  have spread := deviation_pos (floored_pos sigma) (maturity_pos T)
  rw [bsPrice_eq spot strike]
  exact ⟨max_lt (black_pos got paid spread) (sub_lt_black got paid spread), black_lt got paid _⟩

def Ranges (T q : ℝ) (g : ExactGreeks ℝ) : Right → Prop
  | .call => 0 < g.delta ∧ g.delta < Real.exp (-q * max T MIN_T_YEARS) ∧ 0 < g.rho
  | .put => -Real.exp (-q * max T MIN_T_YEARS) < g.delta ∧ g.delta < 0 ∧ g.rho < 0

section Signs

variable (spot : 0 < S) (strike : 0 < K)

include spot strike

theorem call_ranges (T r sigma q : ℝ) : Ranges T q (closedForm realFunctions S K T r .call sigma q) .call := by
  have discount : 0 < Real.exp (-q * max T MIN_T_YEARS) := Real.exp_pos _
  have worth : 0 < max T MIN_T_YEARS * forward K (max T MIN_T_YEARS) r :=
    mul_pos (maturity_pos T) (forward_pos strike _ r)
  rw [closedForm_call spot strike]
  refine ⟨mul_pos discount (cdf_pos _), mul_lt_of_lt_one_right discount (cdf_lt_one _), ?_⟩
  exact mul_pos (mul_pos worth (cdf_pos _)) (by norm_num)

theorem put_ranges (T r sigma q : ℝ) : Ranges T q (closedForm realFunctions S K T r .put sigma q) .put := by
  obtain ⟨low, high, -⟩ := call_ranges spot strike T r sigma q
  have parity := closedForm_parity normCdf_add_neg S K T r sigma q
  have delta : _ = Real.exp (-q * max T MIN_T_YEARS) := parity.delta
  refine ⟨by linarith, by linarith, ?_⟩
  have rho : _ = 1 / 100 * K * max T MIN_T_YEARS * Real.exp (-r * max T MIN_T_YEARS) := parity.rho
  have worth : 0 < max T MIN_T_YEARS * forward K (max T MIN_T_YEARS) r :=
    mul_pos (maturity_pos T) (forward_pos strike _ r)
  have paid := mul_lt_of_lt_one_right worth (cdf_lt_one (lower (forward S (max T MIN_T_YEARS) q)
    (forward K (max T MIN_T_YEARS) r) (deviation (floored sigma) (max T MIN_T_YEARS))))
  rw [closedForm_call spot strike] at rho
  simp only [forward] at rho paid
  linarith

theorem gamma_vega_pos (T r q : ℝ) (right : Right) (volatile : 0 < sigma) :
    0 < (closedForm realFunctions S K T r right sigma q).gamma ∧
      0 < (closedForm realFunctions S K T r right sigma q).vega := by
  have discount : 0 < Real.exp (-q * max T MIN_T_YEARS) := Real.exp_pos _
  have root : 0 < √(max T MIN_T_YEARS) := Real.sqrt_pos.mpr (maturity_pos T)
  have call : 0 < (closedForm realFunctions S K T r .call sigma q).gamma ∧
      0 < (closedForm realFunctions S K T r .call sigma q).vega := by
    rw [closedForm_call spot strike]
    constructor
    · exact div_pos (mul_pos discount (pdf_pos _)) (mul_pos (mul_pos spot volatile) root)
    · exact mul_pos (mul_pos (mul_pos (forward_pos spot _ q) (pdf_pos _)) root) (by norm_num)
  cases right with
  | call => exact call
  | put =>
    have parity := closedForm_parity normCdf_add_neg S K T r sigma q
    rwa [parity.gamma, parity.vega] at call

end Signs

/-- Whatever the inputs, the price is free of arbitrage and the Greeks have the signs and the ranges of their right. -/
theorem greeks_admissible (spot : 0 < S) (strike : 0 < K) (time : 0 < T) (volatile : 0 < sigma) (r q : ℝ)
    (right : Right) (optionPrice : Option ℝ) :
    (max 0 (received S K T r q right - given S K T r q right) < bsPrice realFunctions S K T r sigma right q ∧
      bsPrice realFunctions S K T r sigma right q < received S K T r q right) ∧
    ∃ g, computeGreeks realFunctions S K T r right (some sigma) optionPrice q = some g ∧
      Ranges T q g right ∧ 0 < g.gamma ∧ 0 < g.vega := by
  refine ⟨bsPrice_bounds spot strike T r sigma q right, _,
    computeGreeks_known realFunctions spot strike time volatile r right optionPrice q, ?_,
    gamma_vega_pos spot strike T r q right volatile⟩
  cases right with
  | call => exact call_ranges spot strike T r sigma q
  | put => exact put_ranges spot strike T r sigma q

theorem greeks_admissible_textbook :
    (max 0 (received 100 100 1 (1 / 20) 0 .put - given 100 100 1 (1 / 20) 0 .put) <
        bsPrice realFunctions 100 100 1 (1 / 20) (1 / 5) .put 0 ∧
      bsPrice realFunctions 100 100 1 (1 / 20) (1 / 5) .put 0 < received 100 100 1 (1 / 20) 0 .put) ∧
    ∃ g, computeGreeks realFunctions 100 100 1 (1 / 20) .put (some (1 / 5)) none 0 = some g ∧
      Ranges 1 0 g .put ∧ 0 < g.gamma ∧ 0 < g.vega :=
  greeks_admissible (by norm_num) (by norm_num) one_pos (by norm_num) (1 / 20) 0 .put none

end OptionsProof.PriceBounds
