import OptionsData.Greeks.BlackScholes

namespace OptionsProof.PutCallParity

open OptionsModel

variable {α : Type*} [Field α]

structure GreeksParity (m : MathFunctions α) (S K T r q : α) (call put : ExactGreeks α) : Prop where
  delta : call.delta - put.delta = m.exp (-q * T)
  gamma : call.gamma = put.gamma
  vega : call.vega = put.vega
  theta : call.theta - put.theta = (q * S * m.exp (-q * T) - r * K * m.exp (-r * T)) / (36525 / 100)
  rho : call.rho - put.rho = 1 / 100 * K * T * m.exp (-r * T)

section Symmetric

variable {m : MathFunctions α} (symmetric : ∀ x, m.normCdf x + m.normCdf (-x) = 1)

include symmetric

theorem normCdf_neg (x : α) : m.normCdf (-x) = 1 - m.normCdf x := eq_sub_of_add_eq' (symmetric x)

variable [LinearOrder α]

theorem bsPrice_parity (S K T r sigma q : α) : bsPrice m S K T r sigma .call q - bsPrice m S K T r sigma .put q =
    S * m.exp (-q * max T MIN_T_YEARS) - K * m.exp (-r * max T MIN_T_YEARS) := by
  simp only [bsPrice, normCdf_neg symmetric]
  ring

theorem closedForm_parity (S K T r iv q : α) :
    GreeksParity m S K (max T MIN_T_YEARS) r q (closedForm m S K T r .call iv q) (closedForm m S K T r .put iv q) := by
  refine ⟨?_, rfl, rfl, ?_, ?_⟩
  · simp only [closedForm]
    ring
  · simp only [closedForm, normCdf_neg symmetric]
    ring
  · simp only [closedForm, normCdf_neg symmetric]
    ring

end Symmetric

theorem put_call_parity [LinearOrder α] (m : MathFunctions α) (symmetric : ∀ x, m.normCdf x + m.normCdf (-x) = 1)
    {S K T iv : α} (spot : 0 < S) (strike : 0 < K) (time : 0 < T) (volatile : 0 < iv) (r q : α)
    (callPrice putPrice : Option α) :
    bsPrice m S K T r iv .call q - bsPrice m S K T r iv .put q =
        S * m.exp (-q * max T MIN_T_YEARS) - K * m.exp (-r * max T MIN_T_YEARS) ∧
      ∃ call put, computeGreeks m S K T r .call (some iv) callPrice q = some call ∧
        computeGreeks m S K T r .put (some iv) putPrice q = some put ∧
        GreeksParity m S K (max T MIN_T_YEARS) r q call put := by
  refine ⟨bsPrice_parity symmetric S K T r iv q, closedForm m S K T r .call iv q, closedForm m S K T r .put iv q, ?_, ?_,
    closedForm_parity symmetric S K T r iv q⟩
  · exact computeGreeks_known m spot strike time volatile r .call callPrice q
  · exact computeGreeks_known m spot strike time volatile r .put putPrice q

theorem normCdf_symmetric [CharZero α] {sqrt erf : α → α} (odd : ∀ x, erf (-x) = -erf x) (x : α) :
    normCdf sqrt erf x + normCdf sqrt erf (-x) = 1 := by
  unfold normCdf
  rw [neg_div, odd]
  ring

noncomputable def erf (x : ℝ) : ℝ := (√Real.pi)⁻¹ * ∫ t in -x..x, Real.exp (-t ^ 2)

theorem erf_neg (x : ℝ) : erf (-x) = -erf x := by
  rw [erf, erf, neg_neg, intervalIntegral.integral_symm, mul_neg]

/-- The textbook example: a year to expiry, at the money, 5 % interest and a volatility of 20 %. -/
theorem put_call_parity_textbook :
    let m := mathFunctions Real.exp Real.log Real.sqrt erf Real.pi
    bsPrice m 100 100 1 (1 / 20) (1 / 5) .call 0 - bsPrice m 100 100 1 (1 / 20) (1 / 5) .put 0 =
        100 * Real.exp (-0 * max 1 MIN_T_YEARS) - 100 * Real.exp (-(1 / 20) * max 1 MIN_T_YEARS) ∧
      ∃ call put, computeGreeks m 100 100 1 (1 / 20) .call (some (1 / 5)) none 0 = some call ∧
        computeGreeks m 100 100 1 (1 / 20) .put (some (1 / 5)) none 0 = some put ∧
        GreeksParity m 100 100 (max 1 MIN_T_YEARS) (1 / 20) 0 call put :=
  put_call_parity (mathFunctions Real.exp Real.log Real.sqrt erf Real.pi) (normCdf_symmetric erf_neg) (by norm_num)
    (by norm_num) (by norm_num) (by norm_num) (1 / 20) 0 none none

end OptionsProof.PutCallParity
