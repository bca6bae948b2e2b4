import OptionsData.Kit.StandardNormal

namespace Kit.BlackFormula

open MeasureTheory Set StandardNormal

/-- The moneyness of a forward against a strike, over a total deviation, and the same a deviation lower. -/
noncomputable def upper (F K v : ℝ) : ℝ := Real.log (F / K) / v + v / (2 : ℕ)

noncomputable def lower (F K v : ℝ) : ℝ := upper F K v - v

/-- The value of the right to get `F` for `K`, both discounted, under a lognormal `F`. -/
noncomputable def black (F K v : ℝ) : ℝ := F * cdf (upper F K v) - K * cdf (lower F K v)

variable {F K v : ℝ}

theorem upper_eq (F K v : ℝ) : upper F K v = Real.log (F / K) / v + v / 2 := by
  rw [upper, Nat.cast_ofNat]

theorem lower_add (F K v : ℝ) : lower F K v + v = upper F K v := sub_add_cancel _ _

theorem upper_swap (forward : 0 < F) (strike : 0 < K) (v : ℝ) : upper K F v = -lower F K v := by
  have inverse : Real.log (K / F) = -Real.log (F / K) := by
    rw [Real.log_div strike.ne' forward.ne', Real.log_div forward.ne' strike.ne', neg_sub]
  rw [lower, upper_eq, upper_eq, inverse]
  ring

theorem lower_swap (forward : 0 < F) (strike : 0 < K) (v : ℝ) : lower K F v = -upper F K v := by
  rw [lower, upper_swap forward strike, ← lower_add F K v]
  ring

theorem pdf_upper (forward : 0 < F) (strike : 0 < K) (spread : 0 < v) (w : ℝ) :
    F * pdf (w + v) = K * pdf w * Real.exp ((lower F K v - w) * v) := by
  have ratio : F = K * Real.exp (lower F K v * v + v ^ 2 / 2) := by
    have moneyness : lower F K v * v + v ^ 2 / 2 = Real.log (F / K) := by
      rw [lower, upper_eq]
      field_simp
      ring
    rw [moneyness, Real.exp_log (div_pos forward strike), mul_div_cancel₀ _ strike.ne']
  calc F * pdf (w + v) = K * Real.exp (lower F K v * v + v ^ 2 / 2) * (pdf w * Real.exp (-w * v - v ^ 2 / 2)) := by
        rw [pdf_add, ← ratio]
    _ = K * pdf w * (Real.exp (lower F K v * v + v ^ 2 / 2) * Real.exp (-w * v - v ^ 2 / 2)) := by ring
    _ = K * pdf w * Real.exp ((lower F K v - w) * v) := by
        rw [← Real.exp_add]
        congr 2
        ring

theorem pdf_lower (forward : 0 < F) (strike : 0 < K) (spread : 0 < v) :
    F * pdf (upper F K v) = K * pdf (lower F K v) := by
  have weighed := pdf_upper forward strike spread (lower F K v)
  rwa [lower_add, sub_self, zero_mul, Real.exp_zero, mul_one] at weighed

theorem black_pos (forward : 0 < F) (strike : 0 < K) (spread : 0 < v) : 0 < black F K v := by
  have shifted : F * cdf (upper F K v) = ∫ w in Iic (lower F K v), F * pdf (w + v) := by
    rw [integral_const_mul, ← cdf_add, lower_add]
  have integrable (c x : ℝ) : IntegrableOn (fun w => c * pdf (w + x)) (Iic (lower F K v)) :=
    ((integrable_pdf.comp_add_right x).const_mul c).integrableOn
  have unshifted : IntegrableOn (fun w => K * pdf w) (Iic (lower F K v)) := (integrable_pdf.const_mul K).integrableOn
  have excess (w : ℝ) (below : w < lower F K v) : 0 < F * pdf (w + v) - K * pdf w := by
    rw [pdf_upper forward strike spread w]
    have weight : 0 < K * pdf w := mul_pos strike (pdf_pos w)
    have more : 1 < Real.exp ((lower F K v - w) * v) := Real.one_lt_exp_iff.mpr (mul_pos (sub_pos.mpr below) spread)
    nlinarith
  rw [black, shifted, cdf, ← integral_const_mul, ← integral_sub (integrable F v) unshifted, integral_Iic_eq_integral_Iio]
  have positive : Iio (lower F K v) ⊆ Function.support fun w => F * pdf (w + v) - K * pdf w :=
    fun w below => (excess w below).ne'
  rw [setIntegral_pos_iff_support_of_nonneg_ae, inter_eq_right.mpr positive]
  · simp
  · exact ae_restrict_of_forall_mem measurableSet_Iio fun w below => (excess w below).le
  · exact ((integrable F v).sub unshifted).mono_set Iio_subset_Iic_self

theorem black_swap (forward : 0 < F) (strike : 0 < K) (v : ℝ) : black K F v = black F K v - F + K := by
  rw [black, black, upper_swap forward strike, lower_swap forward strike, cdf_neg, cdf_neg]
  ring

theorem black_lt (forward : 0 < F) (strike : 0 < K) (v : ℝ) : black F K v < F := by
  have paid : 0 < K * cdf (lower F K v) := mul_pos strike (cdf_pos _)
  have got : F * cdf (upper F K v) < F := mul_lt_of_lt_one_right forward (cdf_lt_one _)
  rw [black]
  linarith

theorem sub_lt_black (forward : 0 < F) (strike : 0 < K) (spread : 0 < v) : F - K < black F K v := by
  have other := black_pos strike forward spread
  rw [black_swap forward strike] at other
  linarith

section Derivative

variable {f k s : ℝ → ℝ} {F' K' v' x : ℝ}

theorem hasDerivAt_upper (forward : HasDerivAt f F' x) (strike : HasDerivAt k K' x) (spread : HasDerivAt s v' x)
    (hf : 0 < f x) (hk : 0 < k x) (hs : 0 < s x) :
    HasDerivAt (fun y => upper (f y) (k y) (s y))
      ((F' / f x - K' / k x) / s x - v' * lower (f x) (k x) (s x) / s x) x := by
  have ratio := (forward.div strike hk.ne').log (div_pos hf hk).ne'
  simp only [upper_eq]
  refine ((ratio.div spread hs.ne').add (spread.div_const 2)).congr_deriv ?_
  rw [lower, upper_eq]
  simp only [Pi.div_apply]
  field_simp
  ring

theorem hasDerivAt_black (forward : HasDerivAt f F' x) (strike : HasDerivAt k K' x) (spread : HasDerivAt s v' x)
    (hf : 0 < f x) (hk : 0 < k x) (hs : 0 < s x) :
    HasDerivAt (fun y => black (f y) (k y) (s y))
      (F' * cdf (upper (f x) (k x) (s x)) - K' * cdf (lower (f x) (k x) (s x)) +
        v' * (f x * pdf (upper (f x) (k x) (s x)))) x := by
  have up := hasDerivAt_upper forward strike spread hf hk hs
  have down := up.sub spread
  have got := forward.mul ((hasDerivAt_cdf _).comp x up)
  have paid := strike.mul ((hasDerivAt_cdf _).comp x down)
  refine (got.sub paid).congr_deriv ?_
  have weighed := pdf_lower hf hk hs
  have below : upper (f x) (k x) (s x) - s x = lower (f x) (k x) (s x) := rfl
  simp only [Function.comp_apply, Pi.sub_apply, below]
  linear_combination ((F' / f x - K' / k x) / s x - v' * lower (f x) (k x) (s x) / s x - v') * weighed

end Derivative

theorem hasDerivAt_black_spread (forward : 0 < F) (strike : 0 < K) (spread : 0 < v) :
    HasDerivAt (black F K) (F * pdf (upper F K v)) v := by
  have moves := hasDerivAt_black (hasDerivAt_const v F) (hasDerivAt_const v K) (hasDerivAt_id v) forward strike spread
  refine moves.congr_deriv ?_
  simp only [id]
  ring

theorem continuousOn_black (forward : 0 < F) (strike : 0 < K) : ContinuousOn (black F K) (Ioi 0) :=
  fun _ spread => (hasDerivAt_black_spread forward strike spread).continuousAt.continuousWithinAt

theorem black_strictMonoOn (forward : 0 < F) (strike : 0 < K) : StrictMonoOn (black F K) (Ioi 0) := by
  refine strictMonoOn_of_deriv_pos (convex_Ioi 0) (continuousOn_black forward strike) fun v spread => ?_
  rw [interior_Ioi] at spread
  rw [(hasDerivAt_black_spread forward strike spread).deriv]
  exact mul_pos forward (pdf_pos _)

theorem black_sub_le (forward : 0 < F) (strike : 0 < K) {w : ℝ} (spread : 0 < v) (wider : v ≤ w) :
    black F K w - black F K v ≤ F * (w - v) := by
  have slope (x : ℝ) (inside : x ∈ interior (Ioi (0 : ℝ))) : deriv (black F K) x ≤ F := by
    rw [interior_Ioi] at inside
    rw [(hasDerivAt_black_spread forward strike inside).deriv]
    exact mul_le_of_le_one_right forward.le (pdf_le_one _)
  have smooth : DifferentiableOn ℝ (black F K) (interior (Ioi 0)) := by
    rw [interior_Ioi]
    exact fun x inside => (hasDerivAt_black_spread forward strike inside).differentiableAt.differentiableWithinAt
  exact (convex_Ioi 0).image_sub_le_mul_sub_of_deriv_le (continuousOn_black forward strike) smooth slope v spread w
    (spread.trans_le wider) wider

end Kit.BlackFormula
