import OptionsData.Kit.Bisection

namespace OptionsModel

open Kit

inductive Right where
  | call
  | put
deriving DecidableEq, Repr

/-- The functions that the formulas are made of, over the numbers that they are computed in. -/
structure MathFunctions (α : Type*) where
  exp : α → α
  log : α → α
  sqrt : α → α
  normCdf : α → α
  normPdf : α → α

variable {α : Type*} [Field α]

def normCdf (sqrt erf : α → α) (x : α) : α := 1 / 2 * (1 + erf (x / sqrt 2))

def normPdf (exp sqrt : α → α) (pi x : α) : α := exp (-(1 / 2) * x * x) / sqrt (2 * pi)

/-- `_norm_cdf` and `_norm_pdf` over the functions of `math`. -/
def mathFunctions (exp log sqrt erf : α → α) (pi : α) : MathFunctions α where
  exp := exp
  log := log
  sqrt := sqrt
  normCdf := normCdf sqrt erf
  normPdf := normPdf exp sqrt pi

def MIN_T_YEARS : α := 30 / (36525 / 100 * 24 * 3600)

structure ExactGreeks (α : Type*) where
  delta : α
  gamma : α
  theta : α
  vega : α
  rho : α
  iv : α
deriving DecidableEq, Repr

variable [LinearOrder α]

def d1D2 (m : MathFunctions α) (S K T r sigma q : α) : α × α :=
  let T := max T MIN_T_YEARS
  let sigma := max sigma (1 / 1000000)
  let d1 := (m.log (S / K) + (r - q + 1 / 2 * sigma * sigma) * T) / (sigma * m.sqrt T)
  let d2 := d1 - sigma * m.sqrt T
  (d1, d2)

def bsPrice (m : MathFunctions α) (S K T r sigma : α) (right : Right) (q : α := 0) : α :=
  let T := max T MIN_T_YEARS
  let (d1, d2) := d1D2 m S K T r sigma q
  match right with
  | .call => S * m.exp (-q * T) * m.normCdf d1 - K * m.exp (-r * T) * m.normCdf d2
  | .put => K * m.exp (-r * T) * m.normCdf (-d2) - S * m.exp (-q * T) * m.normCdf (-d1)

def searchVolatility (price : α → α) (targetPrice tol : α) (maxIter : ℕ) (lo hi : α) : α :=
  bisect (fun lo hi => (lo + hi) / 2) (fun mid => |price mid - targetPrice| < tol) (fun mid => price mid < targetPrice)
    maxIter lo hi

/-- `implied_volatility`, with a function in the place of the price that each volatility has. -/
def impliedVolatilityOf (price : α → α) (targetPrice S K T lo hi tol : α) (maxIter : ℕ) : Option α :=
  if T ≤ 0 ∨ targetPrice ≤ 0 ∨ S ≤ 0 ∨ K ≤ 0 then none
  else if targetPrice ≤ price lo then some lo
  else if price hi ≤ targetPrice then some hi
  else some (searchVolatility price targetPrice tol maxIter lo hi)

def impliedVolatility (m : MathFunctions α) (targetPrice S K T r : α) (right : Right) (q : α := 0) (lo : α := 1 / 10000)
    (hi : α := 5) (tol : α := 1 / 1000000) (maxIter : ℕ := 100) : Option α :=
  impliedVolatilityOf (fun sigma => bsPrice m S K T r sigma right q) targetPrice S K T lo hi tol maxIter

/-- The closed formulas at the end of `compute_greeks`. -/
def closedForm (m : MathFunctions α) (S K T r : α) (right : Right) (iv q : α) : ExactGreeks α :=
  let T := max T MIN_T_YEARS
  let (d1, d2) := d1D2 m S K T r iv q
  let pdf := m.normPdf d1
  let sqrtT := m.sqrt T
  let (delta, thetaPerYear, rhoRaw) := match right with
    | .call => (m.exp (-q * T) * m.normCdf d1,
        -(S * m.exp (-q * T) * pdf * iv) / (2 * sqrtT) - r * K * m.exp (-r * T) * m.normCdf d2 +
          q * S * m.exp (-q * T) * m.normCdf d1,
        K * T * m.exp (-r * T) * m.normCdf d2)
    | .put => (m.exp (-q * T) * (m.normCdf d1 - 1),
        -(S * m.exp (-q * T) * pdf * iv) / (2 * sqrtT) + r * K * m.exp (-r * T) * m.normCdf (-d2) -
          q * S * m.exp (-q * T) * m.normCdf (-d1),
        -K * T * m.exp (-r * T) * m.normCdf (-d2))
  let gamma := m.exp (-q * T) * pdf / (S * iv * sqrtT)
  let vegaRaw := S * m.exp (-q * T) * pdf * sqrtT
  { delta := delta
    gamma := gamma
    theta := thetaPerYear / (36525 / 100)
    vega := vegaRaw * (1 / 100)
    rho := rhoRaw * (1 / 100)
    iv := iv }

/-- `none` for an option that has expired, or whose volatility is neither known nor to be found. -/
def computeGreeks (m : MathFunctions α) (S K T r : α) (right : Right) (iv optionPrice : Option α := none)
    (q : α := 0) : Option (ExactGreeks α) :=
  if T ≤ 0 ∨ S ≤ 0 ∨ K ≤ 0 then none
  else
    let iv := match iv with
      | some iv => some iv
      | none => optionPrice.bind fun optionPrice => impliedVolatility m optionPrice S K T r right q
    iv.bind fun iv => if iv ≤ 0 then none else some (closedForm m S K T r right iv q)

theorem computeGreeks_known (m : MathFunctions α) {S K T iv : α} (spot : 0 < S) (strike : 0 < K) (time : 0 < T)
    (volatile : 0 < iv) (r : α) (right : Right) (optionPrice : Option α) (q : α) :
    computeGreeks m S K T r right (some iv) optionPrice q = some (closedForm m S K T r right iv q) := by
  have valid : ¬ (T ≤ 0 ∨ S ≤ 0 ∨ K ≤ 0) := by
    simp only [not_or, not_le]
    exact ⟨time, spot, strike⟩
  rw [computeGreeks, if_neg valid, Option.bind_some, if_neg volatile.not_ge]

end OptionsModel
