import Mathlib

namespace Kit.StandardNormal

open MeasureTheory ProbabilityTheory Set

noncomputable def pdf (x : ℝ) : ℝ := gaussianPDFReal 0 1 x

noncomputable def cdf (x : ℝ) : ℝ := ∫ t in Iic x, pdf t

theorem pdf_eq (x : ℝ) : pdf x = (√(2 * Real.pi))⁻¹ * Real.exp (-x ^ 2 / 2) := by
  simp [pdf, gaussianPDFReal]

theorem pdf_pos (x : ℝ) : 0 < pdf x := gaussianPDFReal_pos 0 1 x one_ne_zero

theorem pdf_le_one (x : ℝ) : pdf x ≤ 1 := by
  have root : 1 ≤ √(2 * Real.pi) := Real.one_le_sqrt.mpr (by linarith [Real.pi_gt_three])
  have decays : Real.exp (-x ^ 2 / 2) ≤ 1 := Real.exp_le_one_iff.mpr (by nlinarith [sq_nonneg x])
  rw [pdf_eq]
  exact mul_le_one₀ (inv_le_one_of_one_le₀ root) (Real.exp_pos _).le decays

theorem pdf_neg (x : ℝ) : pdf (-x) = pdf x := by
  rw [pdf_eq, pdf_eq, neg_sq]

theorem pdf_add (x v : ℝ) : pdf (x + v) = pdf x * Real.exp (-x * v - v ^ 2 / 2) := by
  rw [pdf_eq, pdf_eq, mul_assoc, ← Real.exp_add]
  congr 2
  ring

theorem integrable_pdf : Integrable pdf := integrable_gaussianPDFReal 0 1

theorem continuous_pdf : Continuous pdf := by
  have same : pdf = fun x => (√(2 * Real.pi))⁻¹ * Real.exp (-x ^ 2 / 2) := funext pdf_eq
  rw [same]
  fun_prop

theorem integral_pdf : ∫ x, pdf x = 1 := integral_gaussianPDFReal_eq_one 0 one_ne_zero

theorem cdf_sub (x y : ℝ) : cdf y - cdf x = ∫ t in x..y, pdf t :=
  intervalIntegral.integral_Iic_sub_Iic integrable_pdf.integrableOn integrable_pdf.integrableOn

theorem hasDerivAt_cdf (x : ℝ) : HasDerivAt cdf (pdf x) x := by
  have same : cdf = fun y => cdf 0 + ∫ t in (0)..y, pdf t := by
    funext y
    rw [← cdf_sub, add_sub_cancel]
  rw [same]
  apply HasDerivAt.const_add
  exact intervalIntegral.integral_hasDerivAt_right (continuous_pdf.intervalIntegrable 0 x)
    continuous_pdf.stronglyMeasurable.stronglyMeasurableAtFilter continuous_pdf.continuousAt

theorem cdf_pos (x : ℝ) : 0 < cdf x := by
  have support : Function.support pdf = univ := eq_univ_of_forall fun t => (pdf_pos t).ne'
  rw [cdf, setIntegral_pos_iff_support_of_nonneg_ae (ae_of_all _ fun t => (pdf_pos t).le) integrable_pdf.integrableOn,
    support, univ_inter]
  simp

theorem cdf_add_cdf_neg (x : ℝ) : cdf x + cdf (-x) = 1 := by
  have mirrored : cdf (-x) = ∫ t in Ioi x, pdf t := by
    rw [cdf, ← integral_comp_neg_Ioi]
    exact setIntegral_congr_fun measurableSet_Ioi fun t _ => pdf_neg t
  rw [mirrored, cdf, ← compl_Iic, integral_add_compl measurableSet_Iic integrable_pdf, integral_pdf]

theorem cdf_neg (x : ℝ) : cdf (-x) = 1 - cdf x := eq_sub_of_add_eq' (cdf_add_cdf_neg x)

theorem cdf_lt_one (x : ℝ) : cdf x < 1 := by
  have left := cdf_pos (-x)
  rw [cdf_neg] at left
  exact sub_pos.mp left

theorem cdf_add (x v : ℝ) : cdf (x + v) = ∫ t in Iic x, pdf (t + v) := by
  rw [cdf, ← integral_indicator measurableSet_Iic, ← integral_indicator measurableSet_Iic,
    ← integral_add_right_eq_self _ v]
  refine integral_congr_ae (ae_of_all _ fun t => ?_)
  simp [indicator]

theorem integral_neg_self (x : ℝ) : ∫ t in -x..x, pdf t = 2 * cdf x - 1 := by
  rw [← cdf_sub, cdf_neg]
  ring

end Kit.StandardNormal
