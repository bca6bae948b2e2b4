import OptionsData.Kit.BlackFormula
import OptionsData.Greeks.PutCallParity

namespace OptionsProof.Sensitivities

open Kit Kit.StandardNormal Kit.BlackFormula OptionsModel OptionsProof.PutCallParity

/-- The functions of `math`, in exact arithmetic. -/
noncomputable def realFunctions : MathFunctions ℝ := mathFunctions Real.exp Real.log Real.sqrt erf Real.pi

theorem normPdf_eq (x : ℝ) : realFunctions.normPdf x = pdf x := by
  have exponent : -(1 / 2) * x * x = -x ^ 2 / 2 := by ring
  change Real.exp (-(1 / 2) * x * x) / √(2 * Real.pi) = pdf x
  rw [pdf_eq, exponent, div_eq_inv_mul]

theorem normCdf_eq (x : ℝ) : realFunctions.normCdf x = cdf x := by
  have scaled : ∫ t in -x..x, Real.exp (-t ^ 2 / 2) = √2 * ∫ t in -(x / √2)..x / √2, Real.exp (-t ^ 2) := by
    rw [← neg_div, ← smul_eq_mul, ← intervalIntegral.integral_comp_div _ (Real.sqrt_ne_zero'.mpr two_pos)]
    simp only [div_pow, Real.sq_sqrt zero_le_two, neg_div]
  have whole : ∫ t in -x..x, pdf t = (√(2 * Real.pi))⁻¹ * ∫ t in -x..x, Real.exp (-t ^ 2 / 2) := by
    rw [← intervalIntegral.integral_const_mul]
    simp only [pdf_eq]
  have error : erf (x / √2) = ∫ t in -x..x, pdf t := by
    rw [whole, scaled, erf, Real.sqrt_mul zero_le_two]
    have positive : 0 < √(2 : ℝ) := Real.sqrt_pos.mpr two_pos
    field_simp
  change 1 / 2 * (1 + erf (x / √2)) = cdf x
  rw [error, integral_neg_self]
  ring

variable {S K T r sigma q : ℝ}

theorem min_T_pos : 0 < (MIN_T_YEARS : ℝ) := by
  unfold MIN_T_YEARS
  norm_num

theorem maturity_pos (T : ℝ) : 0 < max T MIN_T_YEARS := lt_max_of_lt_right min_T_pos

noncomputable def forward (S T q : ℝ) : ℝ := S * Real.exp (-q * T)

noncomputable def deviation (sigma T : ℝ) : ℝ := sigma * √T

theorem forward_pos (spot : 0 < S) (T q : ℝ) : 0 < forward S T q := mul_pos spot (Real.exp_pos _)

theorem deviation_pos (volatile : 0 < sigma) (time : 0 < T) : 0 < deviation sigma T :=
  mul_pos volatile (Real.sqrt_pos.mpr time)

theorem log_forward (spot : 0 < S) (strike : 0 < K) (T r q : ℝ) :
    Real.log (forward S T q / forward K T r) = Real.log (S / K) + (r - q) * T := by
  have discount (x : ℝ) : Real.exp x ≠ 0 := (Real.exp_pos x).ne'
  rw [forward, forward, Real.log_div (mul_ne_zero spot.ne' (discount _)) (mul_ne_zero strike.ne' (discount _)),
    Real.log_mul spot.ne' (discount _), Real.log_mul strike.ne' (discount _), Real.log_exp, Real.log_exp,
    Real.log_div spot.ne' strike.ne']
  ring

noncomputable def floored (sigma : ℝ) : ℝ := max sigma (1 / (1000000 : ℕ))

theorem floored_eq (sigma : ℝ) : floored sigma = max sigma (1 / 1000000) := by
  rw [floored, Nat.cast_ofNat]

theorem floored_pos (sigma : ℝ) : 0 < floored sigma := lt_max_of_lt_right (by norm_num)

theorem floored_of_le (volatile : 1 / 1000000 ≤ sigma) : floored sigma = sigma := by
  rw [floored_eq, max_eq_left volatile]

theorem d1D2_eq (spot : 0 < S) (strike : 0 < K) (T r sigma q : ℝ) :
    let t := max T MIN_T_YEARS
    d1D2 realFunctions S K T r sigma q =
      (upper (forward S t q) (forward K t r) (deviation (floored sigma) t),
        lower (forward S t q) (forward K t r) (deviation (floored sigma) t)) := by
  intro t
  have time : √t ≠ 0 := (Real.sqrt_pos.mpr (maturity_pos T)).ne'
  have whole : √t * √t = t := Real.mul_self_sqrt (maturity_pos T).le
  have volatile := (floored_pos sigma).ne'
  have d1 : (Real.log (S / K) + (r - q + 1 / 2 * floored sigma * floored sigma) * t) / (floored sigma * √t) =
      upper (forward S t q) (forward K t r) (deviation (floored sigma) t) := by
    rw [upper_eq, log_forward spot strike, deviation]
    field_simp
    linear_combination -(floored sigma) ^ 2 * whole
  rw [lower, ← d1]
  rfl

theorem bsPrice_call (spot : 0 < S) (strike : 0 < K) (T r sigma q : ℝ) :
    let t := max T MIN_T_YEARS
    bsPrice realFunctions S K T r sigma .call q =
      black (forward S t q) (forward K t r) (deviation (floored sigma) t) := by
  intro t
  have twice : max t MIN_T_YEARS = t := max_eq_left (le_max_right _ _)
  have moneyness := d1D2_eq spot strike t r sigma q
  simp only [twice] at moneyness
  change forward S t q * realFunctions.normCdf (d1D2 realFunctions S K t r sigma q).1 -
    forward K t r * realFunctions.normCdf (d1D2 realFunctions S K t r sigma q).2 = _
  rw [moneyness, normCdf_eq, normCdf_eq, black]

theorem normCdf_add_neg (x : ℝ) : realFunctions.normCdf x + realFunctions.normCdf (-x) = 1 :=
  normCdf_symmetric erf_neg x

theorem price_parity (S K T r sigma q : ℝ) : bsPrice realFunctions S K T r sigma .put q =
    bsPrice realFunctions S K T r sigma .call q - forward S (max T MIN_T_YEARS) q + forward K (max T MIN_T_YEARS) r := by
  have parity : _ = forward S (max T MIN_T_YEARS) q - forward K (max T MIN_T_YEARS) r :=
    bsPrice_parity normCdf_add_neg S K T r sigma q
  linear_combination -parity

theorem bsPrice_put (spot : 0 < S) (strike : 0 < K) (T r sigma q : ℝ) :
    let t := max T MIN_T_YEARS
    bsPrice realFunctions S K T r sigma .put q =
      black (forward K t r) (forward S t q) (deviation (floored sigma) t) := by
  intro t
  rw [price_parity, bsPrice_call spot strike, black_swap (forward_pos spot t q) (forward_pos strike t r)]

theorem hasDerivAt_forward (S T q : ℝ) : HasDerivAt (fun spot => forward spot T q) (Real.exp (-q * T)) S := by
  refine ((hasDerivAt_id S).mul_const (Real.exp (-q * T))).congr_deriv ?_
  rw [one_mul]

theorem hasDerivAt_forward_rate (S T q : ℝ) : HasDerivAt (fun rate => forward S T rate) (-(T * forward S T q)) q := by
  have exponent : HasDerivAt (fun rate => -rate * T) (-1 * T) q := (hasDerivAt_id q).neg.mul_const T
  refine (exponent.exp.const_mul S).congr_deriv ?_
  rw [forward]
  ring

theorem hasDerivAt_forward_time (S T q : ℝ) : HasDerivAt (fun time => forward S time q) (-(q * forward S T q)) T := by
  have exponent : HasDerivAt (fun time => -q * time) (-q * 1) T := (hasDerivAt_id T).const_mul (-q)
  refine (exponent.exp.const_mul S).congr_deriv ?_
  rw [forward]
  ring

theorem hasDerivAt_deviation (sigma : ℝ) (time : 0 < T) :
    HasDerivAt (fun t => deviation sigma t) (sigma / (2 * √T)) T := by
  refine ((hasDerivAt_id T).sqrt time.ne' |>.const_mul sigma).congr_deriv ?_
  simp only [id]
  ring

/-- Greeks that are the partial derivatives of the price, in the units in which they are stored: vega and rho for one
percent, theta for a calendar day that passes. -/
structure Partials (S K T r : ℝ) (right : Right) (sigma q : ℝ) (g : ExactGreeks ℝ) : Prop where
  delta : HasDerivAt (fun spot => bsPrice realFunctions spot K T r sigma right q) g.delta S
  gamma : HasDerivAt (fun spot => deriv (fun spot' => bsPrice realFunctions spot' K T r sigma right q) spot) g.gamma S
  vega : HasDerivAt (fun volatility => bsPrice realFunctions S K T r volatility right q) (g.vega * 100) sigma
  rho : HasDerivAt (fun rate => bsPrice realFunctions S K T rate sigma right q) (g.rho * 100) r
  theta : MIN_T_YEARS < T →
    HasDerivAt (fun time => bsPrice realFunctions S K time r sigma right q) (-(g.theta * (36525 / 100))) T

section Derivative

variable (spot : 0 < S) (strike : 0 < K)

include spot strike

theorem closedForm_call (T r sigma q : ℝ) :
    let t := max T MIN_T_YEARS
    let d1 := upper (forward S t q) (forward K t r) (deviation (floored sigma) t)
    let d2 := lower (forward S t q) (forward K t r) (deviation (floored sigma) t)
    closedForm realFunctions S K T r .call sigma q = {
      delta := Real.exp (-q * t) * cdf d1
      gamma := Real.exp (-q * t) * pdf d1 / (S * sigma * √t)
      theta := (-(forward S t q * pdf d1 * sigma) / (2 * √t) - r * forward K t r * cdf d2 + q * forward S t q * cdf d1) /
        (36525 / 100)
      vega := forward S t q * pdf d1 * √t * (1 / 100)
      rho := t * forward K t r * cdf d2 * (1 / 100)
      iv := sigma } := by
  intro t d1 d2
  have twice : max t MIN_T_YEARS = t := max_eq_left (le_max_right _ _)
  have moneyness := d1D2_eq spot strike t r sigma q
  simp only [twice] at moneyness
  have exp (x : ℝ) : realFunctions.exp x = Real.exp x := rfl
  have sqrt (x : ℝ) : realFunctions.sqrt x = √x := rfl
  simp only [closedForm, t, moneyness, normCdf_eq, normPdf_eq, exp, sqrt, ExactGreeks.mk.injEq]
  refine ⟨rfl, rfl, ?_, rfl, ?_, trivial⟩
  · simp only [forward, d1, d2, t]
    ring
  · simp only [forward, d2, t]
    ring

theorem call_delta (T r sigma q : ℝ) :
    HasDerivAt (fun spot => bsPrice realFunctions spot K T r sigma .call q)
      (closedForm realFunctions S K T r .call sigma q).delta S := by
  have time := maturity_pos T
  have changes := hasDerivAt_black (hasDerivAt_forward S (max T MIN_T_YEARS) q)
    (hasDerivAt_const S (forward K (max T MIN_T_YEARS) r))
    (hasDerivAt_const S (deviation (floored sigma) (max T MIN_T_YEARS))) (forward_pos spot _ q)
    (forward_pos strike _ r) (deviation_pos (floored_pos sigma) time)
  rw [closedForm_call spot strike]
  refine (changes.congr_of_eventuallyEq ?_).congr_deriv (by ring)
  filter_upwards [eventually_gt_nhds spot] with s positive
  exact bsPrice_call positive strike T r sigma q

theorem call_gamma (T r q : ℝ) (volatile : 1 / 1000000 ≤ sigma) :
    HasDerivAt (fun spot => (closedForm realFunctions spot K T r .call sigma q).delta)
      (closedForm realFunctions S K T r .call sigma q).gamma S := by
  have time := maturity_pos T
  have moves := hasDerivAt_upper (hasDerivAt_forward S (max T MIN_T_YEARS) q)
    (hasDerivAt_const S (forward K (max T MIN_T_YEARS) r))
    (hasDerivAt_const S (deviation (floored sigma) (max T MIN_T_YEARS))) (forward_pos spot _ q)
    (forward_pos strike _ r) (deviation_pos (floored_pos sigma) time)
  have changes := ((hasDerivAt_cdf _).comp S moves).const_mul (Real.exp (-q * max T MIN_T_YEARS))
  rw [closedForm_call spot strike]
  refine (changes.congr_of_eventuallyEq ?_).congr_deriv ?_
  · filter_upwards [eventually_gt_nhds spot] with s positive
    rw [closedForm_call positive strike]
    rfl
  · have unfloored : floored sigma = sigma := floored_of_le volatile
    have positive : sigma ≠ 0 := (unfloored ▸ floored_pos sigma).ne'
    have root : √(max T MIN_T_YEARS) ≠ 0 := (Real.sqrt_pos.mpr time).ne'
    have discount : Real.exp (-q * max T MIN_T_YEARS) ≠ 0 := (Real.exp_pos _).ne'
    simp only [unfloored]
    simp only [forward, deviation]
    field_simp
    ring

theorem call_vega (T r q : ℝ) (volatile : 1 / 1000000 < sigma) :
    HasDerivAt (fun volatility => bsPrice realFunctions S K T r volatility .call q)
      ((closedForm realFunctions S K T r .call sigma q).vega * 100) sigma := by
  have time := maturity_pos T
  have positive : 0 < sigma := lt_trans (by norm_num) volatile
  have unfloored : floored sigma = sigma := floored_of_le volatile.le
  have grows : HasDerivAt (fun volatility => deviation volatility (max T MIN_T_YEARS)) (√(max T MIN_T_YEARS)) sigma := by
    refine ((hasDerivAt_id sigma).mul_const (√(max T MIN_T_YEARS))).congr_deriv ?_
    rw [one_mul]
  have changes := hasDerivAt_black (hasDerivAt_const sigma (forward S (max T MIN_T_YEARS) q))
    (hasDerivAt_const sigma (forward K (max T MIN_T_YEARS) r)) grows (forward_pos spot _ q) (forward_pos strike _ r)
    (deviation_pos positive time)
  rw [closedForm_call spot strike]
  refine (changes.congr_of_eventuallyEq ?_).congr_deriv ?_
  · filter_upwards [eventually_gt_nhds volatile] with volatility above
    have same : floored volatility = volatility := floored_of_le above.le
    rw [bsPrice_call spot strike, same]
  · simp only [unfloored]
    ring

theorem call_rho (T r sigma q : ℝ) :
    HasDerivAt (fun rate => bsPrice realFunctions S K T rate sigma .call q)
      ((closedForm realFunctions S K T r .call sigma q).rho * 100) r := by
  have changes := hasDerivAt_black (hasDerivAt_const r (forward S (max T MIN_T_YEARS) q))
    (hasDerivAt_forward_rate K (max T MIN_T_YEARS) r) (hasDerivAt_const r (deviation (floored sigma) (max T MIN_T_YEARS)))
    (forward_pos spot _ q) (forward_pos strike _ r) (deviation_pos (floored_pos sigma) (maturity_pos T))
  rw [closedForm_call spot strike]
  refine (changes.congr_of_eventuallyEq ?_).congr_deriv (by ring)
  exact Filter.Eventually.of_forall fun rate => bsPrice_call spot strike T rate sigma q

theorem call_theta (r q : ℝ) (volatile : 1 / 1000000 ≤ sigma) (time : MIN_T_YEARS < T) :
    HasDerivAt (fun t => bsPrice realFunctions S K t r sigma .call q)
      (-((closedForm realFunctions S K T r .call sigma q).theta * (36525 / 100))) T := by
  have positive : 0 < T := min_T_pos.trans time
  have unclamped : max T MIN_T_YEARS = T := max_eq_left time.le
  have unfloored : floored sigma = sigma := floored_of_le volatile
  have changes := hasDerivAt_black (hasDerivAt_forward_time S T q) (hasDerivAt_forward_time K T r)
    (hasDerivAt_deviation (floored sigma) positive) (forward_pos spot _ q) (forward_pos strike _ r)
    (deviation_pos (floored_pos sigma) positive)
  rw [closedForm_call spot strike]
  refine (changes.congr_of_eventuallyEq ?_).congr_deriv ?_
  · filter_upwards [eventually_gt_nhds time] with t above
    have same : max t MIN_T_YEARS = t := max_eq_left above.le
    rw [bsPrice_call spot strike, same]
  · simp only [unclamped, unfloored]
    ring

theorem call_partials (T r q : ℝ) (volatile : 1 / 1000000 < sigma) :
    Partials S K T r .call sigma q (closedForm realFunctions S K T r .call sigma q) where
  delta := call_delta spot strike T r sigma q
  gamma := by
    refine (call_gamma spot strike T r q volatile.le).congr_of_eventuallyEq ?_
    filter_upwards [eventually_gt_nhds spot] with s positive
    exact (call_delta positive strike T r sigma q).deriv
  vega := call_vega spot strike T r q volatile
  rho := call_rho spot strike T r sigma q
  theta := call_theta spot strike r q volatile.le

theorem put_delta (T r sigma q : ℝ) :
    HasDerivAt (fun spot => bsPrice realFunctions spot K T r sigma .put q)
      (closedForm realFunctions S K T r .put sigma q).delta S := by
  have parity : _ = Real.exp (-q * max T MIN_T_YEARS) := (closedForm_parity normCdf_add_neg S K T r sigma q).delta
  have moves := ((call_delta spot strike T r sigma q).sub (hasDerivAt_forward S (max T MIN_T_YEARS) q)).add_const
    (forward K (max T MIN_T_YEARS) r)
  refine (moves.congr_of_eventuallyEq ?_).congr_deriv ?_
  · exact Filter.Eventually.of_forall fun s => price_parity s K T r sigma q
  · linear_combination parity

theorem put_gamma (T r q : ℝ) (volatile : 1 / 1000000 ≤ sigma) :
    HasDerivAt (fun spot => (closedForm realFunctions spot K T r .put sigma q).delta)
      (closedForm realFunctions S K T r .put sigma q).gamma S := by
  have moves := (call_gamma spot strike T r q volatile).sub_const (Real.exp (-q * max T MIN_T_YEARS))
  rw [(closedForm_parity normCdf_add_neg S K T r sigma q).gamma] at moves
  refine moves.congr_of_eventuallyEq (Filter.Eventually.of_forall fun s => ?_)
  have parity : _ = Real.exp (-q * max T MIN_T_YEARS) := (closedForm_parity normCdf_add_neg s K T r sigma q).delta
  exact eq_sub_of_add_eq' (sub_eq_iff_eq_add.mp parity).symm

theorem put_partials (T r q : ℝ) (volatile : 1 / 1000000 < sigma) :
    Partials S K T r .put sigma q (closedForm realFunctions S K T r .put sigma q) := by
  have call := call_partials spot strike T r q volatile
  have parity := closedForm_parity normCdf_add_neg S K T r sigma q
  refine ⟨put_delta spot strike T r sigma q, ?_, ?_, ?_, ?_⟩
  · refine (put_gamma spot strike T r q volatile.le).congr_of_eventuallyEq ?_
    filter_upwards [eventually_gt_nhds spot] with s positive
    exact (put_delta positive strike T r sigma q).deriv
  · have moves := (call.vega.sub_const (forward S (max T MIN_T_YEARS) q)).add_const (forward K (max T MIN_T_YEARS) r)
    rw [← parity.vega]
    exact moves.congr_of_eventuallyEq (Filter.Eventually.of_forall fun v => price_parity S K T r v q)
  · have moves := (call.rho.sub_const (forward S (max T MIN_T_YEARS) q)).add
      (hasDerivAt_forward_rate K (max T MIN_T_YEARS) r)
    have rho : _ = 1 / 100 * K * max T MIN_T_YEARS * Real.exp (-r * max T MIN_T_YEARS) := parity.rho
    refine (moves.congr_of_eventuallyEq ?_).congr_deriv ?_
    · exact Filter.Eventually.of_forall fun rate => price_parity S K T rate sigma q
    · rw [forward]
      linear_combination 100 * rho
  · intro time
    have unclamped : max T MIN_T_YEARS = T := max_eq_left time.le
    have moves := ((call.theta time).sub (hasDerivAt_forward_time S T q)).add (hasDerivAt_forward_time K T r)
    have theta : _ = (q * S * Real.exp (-q * max T MIN_T_YEARS) - r * K * Real.exp (-r * max T MIN_T_YEARS)) /
      (36525 / 100) := parity.theta
    rw [unclamped] at theta
    refine (moves.congr_of_eventuallyEq ?_).congr_deriv ?_
    · filter_upwards [eventually_gt_nhds time] with t above
      have same : max t MIN_T_YEARS = t := max_eq_left above.le
      rw [price_parity, same]
      rfl
    · rw [forward, forward]
      linear_combination -(36525 / 100) * theta

end Derivative

/-- The Greeks that `compute_greeks` gives are the derivatives of `bs_price`. -/
theorem greeks_are_partials (spot : 0 < S) (strike : 0 < K) (time : 0 < T) (volatile : 1 / 1000000 < sigma)
    (r q : ℝ) (right : Right) (optionPrice : Option ℝ) :
    ∃ g, computeGreeks realFunctions S K T r right (some sigma) optionPrice q = some g ∧
      Partials S K T r right sigma q g := by
  have positive : 0 < sigma := lt_trans (by norm_num) volatile
  refine ⟨_, computeGreeks_known realFunctions spot strike time positive r right optionPrice q, ?_⟩
  cases right with
  | call => exact call_partials spot strike T r q volatile
  | put => exact put_partials spot strike T r q volatile

/-- A put a year from expiry, at the money, at 5 % and a volatility of 20 %. -/
theorem greeks_are_partials_textbook : ∃ g,
    computeGreeks realFunctions 100 100 1 (1 / 20) .put (some (1 / 5)) none 0 = some g ∧
      Partials 100 100 1 (1 / 20) .put (1 / 5) 0 g :=
  greeks_are_partials (by norm_num) (by norm_num) one_pos (by norm_num) (1 / 20) 0 .put none

end OptionsProof.Sensitivities
