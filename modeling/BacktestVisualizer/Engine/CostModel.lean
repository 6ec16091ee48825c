import BacktestVisualizer.Engine.Values

/-! # The Transaction Cost Model

  `engine/core/cost_model.py`. Trade notionals may be infinite or NaN when a
  strategy asks for such a weight, so the impact term is computed on floats;
  `math.sqrt` is a parameter of the model.
-/

namespace Engine

/-- `CostModelParams`. -/
structure CostModelParams where
  fixed_bps : ℚ := 1 / 2
  spread_bps_default : ℚ := 5
  alpha_impact : ℚ := 1
  min_impact_bps : ℚ := 0
  max_impact_bps : ℚ := 500
  enable_impact : Bool := true
  enable_spread : Bool := true
  enable_fixed : Bool := true

/-- `CostModel`, with the square root it uses. -/
structure CostModel where
  params : CostModelParams
  spread_overrides : Ticker → Option ℚ
  sqrt : ℚ → ℚ

variable (model : CostModel)

/-- `math.sqrt` of a ratio that is not negative. -/
def CostModel.sqrt_float : PyFloat → PyFloat
  | .fin q => .fin (model.sqrt q)
  | x => x

def CostModel.spread_component_bps (ticker : Ticker) : ℚ :=
  if model.params.enable_spread then
    match model.spread_overrides ticker with
    | some spread => spread / 2
    | none => model.params.spread_bps_default / 2
  else 0

def CostModel.impact_component_bps (trade_notional : PyFloat) (adv_notional sigma_daily : ℚ) :
    PyFloat :=
  if model.params.enable_impact = false then .fin 0
  else if trade_notional ≤ .fin 0 ∨ adv_notional ≤ 0 ∨ sigma_daily ≤ 0 then .fin 0
  else
    let ratio := trade_notional.div_rat adv_notional
    if ratio ≤ .fin 0 then .fin 0
    else
      let raw_bps :=
        .fin (model.params.alpha_impact * sigma_daily) * model.sqrt_float ratio * .fin 10000
      PyFloat.py_max (.fin model.params.min_impact_bps)
        (PyFloat.py_min raw_bps (.fin model.params.max_impact_bps))

def CostModel.fixed_component_bps : ℚ :=
  if model.params.enable_fixed then model.params.fixed_bps else 0

def CostModel.cost_bps (trade_notional : PyFloat) (adv_notional sigma_daily : ℚ)
    (ticker : Ticker) : PyFloat :=
  .fin model.fixed_component_bps + .fin (model.spread_component_bps ticker) +
    model.impact_component_bps trade_notional adv_notional sigma_daily

def CostModel.cost_fraction (trade_notional : PyFloat) (adv_notional sigma_daily : ℚ)
    (ticker : Ticker) : PyFloat :=
  model.cost_bps trade_notional adv_notional sigma_daily ticker * .fin (1 / 10000)

def CostModel.apply_to_price (mid_price : PyFloat) (side : Side) (trade_notional : PyFloat)
    (adv_notional sigma_daily : ℚ) (ticker : Ticker) : PyFloat :=
  if mid_price ≤ .fin 0 then mid_price
  else
    let frac := model.cost_fraction trade_notional adv_notional sigma_daily ticker
    match side with
    | .buy => mid_price * (.fin 1 + frac)
    | .sell => mid_price * (.fin 1 - frac)

end Engine
