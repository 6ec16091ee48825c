import BacktestVisualizer.Engine.CostModel
import BacktestVisualizer.Engine.SentimentGate
import Mathlib.Tactic

/-! # The Backtest Executor

  `engine/core/executor.py`: one portfolio of cash and share positions, a
  sizing model with leverage, commissions and trading costs, and a trade log.
  Orders reach it as `execute_trade` (it sizes and fills) or as
  `execute_child_order` (it fills a given quantity).

  Amounts are exact rationals. What a strategy hands over (weights,
  confidences, prices) may be any float, or something `float` refuses.
  An operation that raises is `none`.
-/

namespace Engine

/-! ### State -/

/-- The arguments of `BacktestExecutor`. A negative commission is refused at
    construction. -/
structure Config where
  initial_capital : ℚ
  tickers : List Ticker
  leverage : ℚ
  slippage : ℚ
  cost_model : Option CostModel
  adv_lookup : Ticker → ℚ
  sigma_lookup : Ticker → ℚ
  commission_per_share : ℚ
  commission_nonneg : 0 ≤ commission_per_share
  sentiment_gate : Option SentimentGate

/-- Trading may cost nothing. -/
theorem no_commission_nonneg : (0 : ℚ) ≤ 0 := le_refl 0

/-- One record of `trade_log`. -/
structure Entry where
  timestamp : Option Moment
  portfolio_id : String
  ticker : Ticker
  signal_type : Side
  confidence : PyFloat
  shares : ℚ
  fill_price : ℚ
  fees : ℚ
  cash_after : ℚ
  position_size : ℚ
  deriving DecidableEq, Repr

/-- The state of `BacktestExecutor`. A position or a price that was never
    set reads as 0. -/
structure Executor where
  cash : ℚ
  positions : Ticker → ℚ
  latest_prices : Ticker → ℚ
  trade_log : List Entry
  current_time : Option Moment

/-- `BacktestExecutor.__init__`. -/
def Executor.init (cfg : Config) : Executor where
  cash := cfg.initial_capital
  positions := fun _ => 0
  latest_prices := fun _ => 0
  trade_log := []
  current_time := none

/-- Functional update of a table of amounts. -/
def set_amount (f : Ticker → ℚ) (t : Ticker) (x : ℚ) : Ticker → ℚ :=
  fun u => if u = t then x else f u

@[simp] theorem set_amount_self (f : Ticker → ℚ) (t : Ticker) (x : ℚ) :
    set_amount f t x t = x := by
  simp [set_amount]

@[simp] theorem set_amount_ne (f : Ticker → ℚ) {t u : Ticker} (x : ℚ) (h : u ≠ t) :
    set_amount f t x u = f u := by
  simp [set_amount, h]

variable (cfg : Config) (s : Executor)

/-- Only tickers of the universe have a latest price. -/
def update_price (ticker : Ticker) (price : ℚ) : Executor :=
  if ticker ∈ cfg.tickers then
    { s with latest_prices := set_amount s.latest_prices ticker price }
  else s

def get_port_notional : ℚ :=
  s.cash + (cfg.tickers.map (fun t => s.positions t * s.latest_prices t)).sum

def gross_position_value : ℚ :=
  (cfg.tickers.map (fun t => |s.positions t * s.latest_prices t|)).sum

/-- `_calculate_buying_power`. -/
def calculate_buying_power (portfolio_equity : PyFloat) : PyFloat :=
  PyFloat.py_max (.fin 0)
    (portfolio_equity * .fin cfg.leverage - .fin (gross_position_value cfg s))

/-! ### Prices and limits -/

/-- `_apply_slippage`: the cost model, or else the constant multiplier. -/
def apply_slippage (price : PyFloat) (side : Side) (ticker : Ticker)
    (trade_notional : PyFloat) : PyFloat :=
  match cfg.cost_model with
  | some model =>
      model.apply_to_price price side trade_notional.abs (cfg.adv_lookup ticker)
        (cfg.sigma_lookup ticker) ticker
  | none =>
      match side with
      | .buy => price * .fin (1 + cfg.slippage)
      | .sell => price * .fin (1 - cfg.slippage)

/-- `_commission_quantity_limit`: the shares whose fees fit into cash and
    gross buying power. A negative leverage can make the divisor zero. -/
def commission_quantity_limit (exec_price : ℚ) (side : Side) (portfolio_equity : PyFloat)
    (current_quantity : ℚ) : Option PyFloat :=
  let fee := cfg.commission_per_share
  let buying_power := calculate_buying_power cfg s portfolio_equity
  let closing_quantity := max 0 (match side with
    | .buy => -current_quantity
    | .sell => current_quantity)
  let closing_margin_cost := cfg.leverage * fee - exec_price
  let limit :=
    if 0 < closing_margin_cost ∧ buying_power < .fin (closing_quantity * closing_margin_cost) then
      some (buying_power.div_rat closing_margin_cost)
    else if exec_price + cfg.leverage * fee = 0 then none
    else some ((buying_power + .fin (2 * closing_quantity * exec_price)).div_rat
      (exec_price + cfg.leverage * fee))
  limit.map (fun limit =>
    let limit := match side with
      | .buy => PyFloat.py_min limit (.fin (max 0 s.cash / (exec_price + fee)))
      | .sell =>
          if exec_price < fee then PyFloat.py_min limit (.fin (max 0 s.cash / (fee - exec_price)))
          else limit
    PyFloat.py_max (.fin 0) limit)

/-- `_apply_sentiment_gate`: a gated target ends no longer than it started. -/
def apply_sentiment_gate (ticker : Ticker) (target_notional current_notional : PyFloat) :
    PyFloat :=
  match cfg.sentiment_gate, s.current_time with
  | some gate, some now =>
      let ceiling := PyFloat.py_max current_notional (.fin 0)
      if target_notional ≤ ceiling then target_notional
      else if gate.blocks_long_entry ticker now then ceiling
      else target_notional
  | _, _ => target_notional

/-! ### Sizing -/

/-- An argument on its way into `float`; `none` is a value `float` refuses. -/
abbrev Numeric := Option PyFloat

/-- `max(0.0, min(1.0, x))`. -/
def clamp_confidence (x : PyFloat) : ℚ :=
  (PyFloat.py_max (.fin 0) (PyFloat.py_min (.fin 1) x)).val

/-- The arguments of `default_trade_size` that it uses. -/
structure SizeRequest where
  signal_type : Signal
  ticker : Ticker
  arrival_price : Numeric
  confidence : Numeric
  port_notional : Numeric
  ticker_weight : Numeric
  target_weight : Option Numeric

/-- The arguments after conversion; an explicit target is finite, and so are
    the numbers it is sized with. -/
structure SizeInputs where
  arrival_price : PyFloat
  confidence : ℚ
  port_notional : PyFloat
  ticker_weight : PyFloat
  target_weight : Option ℚ

/-- The `try` block: `none` is a failed conversion. -/
def SizeRequest.convert (r : SizeRequest) : Option SizeInputs := do
  let port_notional ← r.port_notional
  let arrival_price ← r.arrival_price
  let confidence ← r.confidence
  let ticker_weight ← r.ticker_weight
  let clamped := clamp_confidence confidence
  match r.target_weight with
  | none =>
      some { arrival_price := arrival_price, confidence := clamped,
             port_notional := port_notional, ticker_weight := ticker_weight,
             target_weight := none }
  | some target_weight =>
      let target_weight ← target_weight
      if confidence.is_finite ∧ target_weight.is_finite ∧ port_notional.is_finite ∧
          arrival_price.is_finite then
        some { arrival_price := arrival_price, confidence := clamped,
               port_notional := port_notional, ticker_weight := ticker_weight,
               target_weight := some target_weight.val }
      else none

/-- `Sizing`. -/
structure Sizing where
  quantity : ℤ
  desired_notional : PyFloat
  exec_price : PyFloat
  deriving DecidableEq, Repr

/-- No trade. -/
def Sizing.skip : Sizing := { quantity := 0, desired_notional := .fin 0, exec_price := .fin 0 }

/-- The shares of an explicit target. -/
def explicit_quantity (x : SizeInputs) (target_notional : PyFloat) (current_quantity : ℚ)
    (side : Side) (exec_price : ℚ) : Option ℤ := do
  let desired_quantity :=
    (target_notional.div_rat exec_price - .fin current_quantity).abs * .fin x.confidence
  let limit ← commission_quantity_limit cfg s exec_price side x.port_notional current_quantity
  let n ← (PyFloat.py_min desired_quantity limit).floor
  some (max 0 n)

/-- The shares of the signal and weight model, bounded by cash for a buy. -/
def weighted_quantity (x : SizeInputs) (desired_notional : PyFloat) (side : Side)
    (exec_price : ℚ) : Option ℤ := do
  let buying_power := calculate_buying_power cfg s x.port_notional
  let tradable := PyFloat.py_min desired_notional.abs buying_power
  let tradable := if .fin 0 < desired_notional then PyFloat.py_min tradable (.fin s.cash)
                  else tradable
  if tradable < .fin 1 then some 0
  else
    let n ← (tradable.div_rat exec_price).floor
    if cfg.commission_per_share = 0 then some (max 0 n)
    else
      let limit ← commission_quantity_limit cfg s exec_price side x.port_notional 0
      let m ← limit.floor
      some (max 0 (min n m))

/-- The end of `default_trade_size`, once there is a price to trade at. -/
def size_at (ticker : Ticker) (x : SizeInputs) (target_notional : PyFloat) (side : Side)
    (exec_price : ℚ) : Option Sizing :=
  let current_quantity := s.positions ticker
  let desired_notional :=
    (target_notional - .fin (current_quantity * exec_price)) * .fin x.confidence
  let sized := fun (n : ℤ) =>
    { quantity := n, desired_notional := desired_notional, exec_price := .fin exec_price : Sizing }
  if decide (.fin 0 < desired_notional) ≠ decide (side = .buy) then some (sized 0)
  else if desired_notional.abs < .fin 1 ∧ x.target_weight ≠ some 0 then some (sized 0)
  else
    match x.target_weight with
    | some _ =>
        (explicit_quantity cfg s x target_notional current_quantity side exec_price).map sized
    | none => (weighted_quantity cfg s x desired_notional side exec_price).map sized

/-- The weight an order without an explicit target is sized from: an equal
    share of the universe when none is given. -/
def sizing_weight (x : SizeInputs) : Option PyFloat :=
  match x.target_weight with
  | some _ => some x.ticker_weight
  | none =>
      if x.ticker_weight = .fin 0 then
        if cfg.tickers = [] then none else some (.fin (1 / cfg.tickers.length))
      else some x.ticker_weight

/-- The signed notional to end at, before the sentiment gate. -/
def wanted_notional (signal : Signal) (x : SizeInputs) (weight : PyFloat) : PyFloat :=
  match x.target_weight with
  | some target => x.port_notional * .fin target
  | none => if signal = .sell then -(x.port_notional * weight) else x.port_notional * weight

/-- `default_trade_size`. -/
def default_trade_size (r : SizeRequest) : Option Sizing :=
  match r.convert with
  | none => some .skip
  | some x =>
      if r.signal_type = .invalid ∨ r.signal_type = .hold ∨ x.confidence = 0 then some .skip
      else
        match sizing_weight cfg x with
        | none => some .skip
        | some weight =>
            let current_notional := .fin (s.positions r.ticker) * x.arrival_price
            let target_notional := apply_sentiment_gate cfg s r.ticker
              (wanted_notional r.signal_type x weight) current_notional
            let side := if current_notional < target_notional then Side.buy else Side.sell
            let approx_notional :=
              match x.target_weight with
              | none => (x.port_notional * weight * .fin x.confidence).abs
              | some _ => (target_notional - current_notional).abs * .fin x.confidence
            match apply_slippage cfg x.arrival_price side r.ticker approx_notional with
            | .fin p =>
                if p ≤ 0 then
                  some { quantity := 0, desired_notional := .fin 0, exec_price := .fin p }
                else size_at cfg s r.ticker x target_notional side p
            | p => some { quantity := 0, desired_notional := .fin 0, exec_price := p }

/-! ### Settlement -/

/-- Move cash and shares, and log the fill. -/
def settle (ticker : Ticker) (side : Side) (quantity exec_price : ℚ) (confidence : PyFloat)
    (portfolio_id : String) (timestamp : Option Moment) : Executor :=
  let trade_value := quantity * exec_price
  let fees := quantity * cfg.commission_per_share
  let cash := s.cash - side.sign * trade_value - fees
  let position := s.positions ticker + side.sign * quantity
  { s with
    cash := cash
    positions := set_amount s.positions ticker position
    trade_log := s.trade_log ++ [
      { timestamp := timestamp, portfolio_id := portfolio_id, ticker := ticker,
        signal_type := side, confidence := confidence, shares := quantity,
        fill_price := exec_price, fees := fees, cash_after := cash,
        position_size := position }] }

/-- Cash and shares have moved, and nothing is logged. -/
def transfer (ticker : Ticker) (side : Side) (quantity exec_price : ℚ) : Executor :=
  { s with
    cash := s.cash - side.sign * (quantity * exec_price) - quantity * cfg.commission_per_share
    positions := set_amount s.positions ticker (s.positions ticker + side.sign * quantity) }

/-- The messages of `execute_child_order`. -/
inductive ChildError where
  | invalid_quantity (quantity : PyFloat)
  | not_buy_or_sell
  | no_price (ticker : Ticker)
  | invalid_price_after_slippage
  | insufficient_cash_or_buying_power
  deriving DecidableEq, Repr

/-- What an order call gives back. -/
inductive Outcome where
  /-- It raised. -/
  | raised
  /-- `execute_trade` returned `None`. -/
  | no_trade
  /-- `{"status": "error", ...}`. -/
  | error (message : ChildError)
  | success (quantity fill_price fees : ℚ)
  deriving DecidableEq, Repr

/-- The arguments of `execute_trade` that it uses. -/
structure TradeRequest extends SizeRequest where
  portfolio_id : String
  timestamp : Option Moment

def execute_trade (r : TradeRequest) : Outcome × Executor :=
  match default_trade_size cfg s r.toSizeRequest with
  | none => (.raised, s)
  | some sizing =>
      if sizing.quantity ≤ 0 then (.no_trade, s)
      else
        -- the settled side, which can differ from the signal
        let side := if .fin 0 < sizing.desired_notional then Side.buy else Side.sell
        let confidence := clamp_confidence (r.confidence.getD (.fin 0))
        (.success sizing.quantity sizing.exec_price.val
            (sizing.quantity * cfg.commission_per_share),
          settle cfg s r.ticker side sizing.quantity sizing.exec_price.val (.fin confidence)
            r.portfolio_id r.timestamp)

/-- The fields of an OMS child order that `execute_child_order` reads. The
    order is duck-typed: either number may be a value `float` refuses. -/
structure ChildOrder where
  ticker : Ticker
  signal_type : Signal
  target_quantity : Numeric
  confidence : Numeric
  portfolio_id : String

/-- With a commission, a slice whose fees no longer fit is refused. -/
def child_affordable (ticker : Ticker) (side : Side) (quantity exec_price : ℚ) : Option Bool :=
  if cfg.commission_per_share = 0 then some true
  else
    (commission_quantity_limit cfg s exec_price side (.fin (get_port_notional cfg s))
      (s.positions ticker)).map (fun limit => !decide (limit < .fin quantity))

def execute_child_order (child : ChildOrder) (timestamp : Option Moment) : Outcome × Executor :=
  match child.target_quantity with
  | none => (.raised, s)
  | some (.fin quantity) =>
      if quantity ≤ 0 then (.error (.invalid_quantity (.fin quantity)), s)
      else
        match child.signal_type.side with
        | none => (.error .not_buy_or_sell, s)
        | some side =>
            let price := s.latest_prices child.ticker
            if price ≤ 0 then (.error (.no_price child.ticker), s)
            else
              match apply_slippage cfg (.fin price) side child.ticker
                  (.fin (quantity * price)) with
              | .fin p =>
                  if p ≤ 0 then (.error .invalid_price_after_slippage, s)
                  else
                    match child_affordable cfg s child.ticker side quantity p with
                    | none => (.raised, s)
                    | some false =>
                        (.error .insufficient_cash_or_buying_power, s)
                    | some true =>
                        -- the confidence is converted last, for the log entry
                        match child.confidence with
                        | none => (.raised, transfer cfg s child.ticker side quantity p)
                        | some confidence =>
                            (.success quantity p (quantity * cfg.commission_per_share),
                              settle cfg s child.ticker side quantity p confidence
                                child.portfolio_id timestamp)
              | _ => (.error .invalid_price_after_slippage, s)
  | some quantity => (.error (.invalid_quantity quantity), s)

/-! ### What sizing can do -/

variable (r : SizeRequest) (x : SizeInputs) (weight : PyFloat)

/-- The notional of the position at the arrival price. -/
def current_notional : PyFloat := .fin (s.positions r.ticker) * x.arrival_price

/-- The notional to end at, past the sentiment gate. -/
def gated_notional : PyFloat :=
  apply_sentiment_gate cfg s r.ticker (wanted_notional r.signal_type x weight)
    (current_notional s r x)

/-- The side that leads there. -/
def sizing_side : Side :=
  if current_notional s r x < gated_notional cfg s r x weight then .buy else .sell

/-- **Sizing** that ends in a trade has converted its arguments, has a signal
    to follow, and has a positive price to trade at. -/
theorem default_trade_size_cases {z : Sizing} (h : default_trade_size cfg s r = some z)
    (hq : 0 < z.quantity) :
    ∃ x weight notional p, r.convert = some x ∧
      ¬ (r.signal_type = .invalid ∨ r.signal_type = .hold ∨ x.confidence = 0) ∧
      sizing_weight cfg x = some weight ∧
      apply_slippage cfg x.arrival_price (sizing_side cfg s r x weight) r.ticker notional =
        .fin p ∧
      0 < p ∧
      size_at cfg s r.ticker x (gated_notional cfg s r x weight)
        (sizing_side cfg s r x weight) p = some z := by
  -- whatever is skipped has no quantity
  have hskip : ∀ z' : Sizing, z'.quantity = 0 → some z' ≠ some z := by
    intro z' hzero hz'
    obtain rfl := Option.some.inj hz'
    omega
  unfold default_trade_size at h
  cases hconv : r.convert with
  | none =>
    rw [hconv] at h
    exact absurd h (hskip .skip rfl)
  | some x =>
    simp only [hconv] at h
    by_cases hnone : r.signal_type = .invalid ∨ r.signal_type = .hold ∨ x.confidence = 0
    · rw [if_pos hnone] at h
      exact absurd h (hskip .skip rfl)
    rw [if_neg hnone] at h
    cases hweight : sizing_weight cfg x with
    | none =>
      rw [hweight] at h
      exact absurd h (hskip .skip rfl)
    | some weight =>
      simp only [hweight] at h
      split at h
      · rename_i p hslip
        by_cases hp : p ≤ 0
        · rw [if_pos hp] at h
          exact absurd h (hskip _ rfl)
        · rw [if_neg hp] at h
          exact ⟨x, weight, _, p, rfl, hnone, hweight, hslip, not_le.mp hp, h⟩
      · exact absurd h (hskip _ rfl)

/-- A size is computed for the price it is given. -/
theorem size_at_exec_price {t : Ticker} {target : PyFloat} {side : Side} {p : ℚ} {z : Sizing}
    (h : size_at cfg s t x target side p = some z) : z.exec_price = .fin p := by
  unfold size_at at h
  simp only at h
  split at h
  · rw [← Option.some.inj h]
  split at h
  · rw [← Option.some.inj h]
  split at h
  · obtain ⟨n, _, rfl⟩ := Option.map_eq_some_iff.mp h
    rfl
  · obtain ⟨n, _, rfl⟩ := Option.map_eq_some_iff.mp h
    rfl

/-- What the conversion hands on. -/
theorem convert_cases {r : SizeRequest} {x : SizeInputs} (h : r.convert = some x) :
    r.arrival_price = some x.arrival_price ∧ r.port_notional = some x.port_notional ∧
    r.ticker_weight = some x.ticker_weight ∧
    ∃ confidence, r.confidence = some confidence ∧ x.confidence = clamp_confidence confidence ∧
      ((r.target_weight = none ∧ x.target_weight = none) ∨
        ∃ w value price, r.target_weight = some (some (.fin w)) ∧ x.target_weight = some w ∧
          x.port_notional = .fin value ∧ x.arrival_price = .fin price) := by
  unfold SizeRequest.convert at h
  cases hport : r.port_notional with
  | none => simp [hport] at h
  | some port_notional =>
    cases harr : r.arrival_price with
    | none => simp [hport, harr] at h
    | some arrival_price =>
      cases hconf : r.confidence with
      | none => simp [hport, harr, hconf] at h
      | some confidence =>
        cases hweight : r.ticker_weight with
        | none => simp [hport, harr, hconf, hweight] at h
        | some ticker_weight =>
          simp only [hport, harr, hconf, hweight, Option.bind_eq_bind, Option.bind_some] at h
          cases htarget : r.target_weight with
          | none =>
            simp only [htarget, Option.some.injEq] at h
            subst h
            exact ⟨rfl, rfl, rfl, confidence, rfl, rfl, Or.inl ⟨rfl, rfl⟩⟩
          | some target =>
            cases target with
            | none => simp [htarget] at h
            | some target =>
              simp only [htarget, Option.bind_some] at h
              split at h
              · rename_i hfin
                obtain ⟨_, htargetfin, hportfin, harrfin⟩ := hfin
                obtain ⟨w, rfl⟩ := PyFloat.is_finite_iff.mp htargetfin
                obtain ⟨value, rfl⟩ := PyFloat.is_finite_iff.mp hportfin
                obtain ⟨price, rfl⟩ := PyFloat.is_finite_iff.mp harrfin
                obtain rfl := Option.some.inj h
                exact ⟨rfl, rfl, rfl, confidence, rfl, rfl,
                  Or.inr ⟨w, value, price, rfl, rfl, rfl, rfl⟩⟩
              · exact absurd h (by simp)

/-- Without a cost model, a finite price after slippage comes from a finite
    one. -/
theorem apply_slippage_fin (hcost : cfg.cost_model = none) {price notional : PyFloat}
    {side : Side} {t : Ticker} {p : ℚ} (h : apply_slippage cfg price side t notional = .fin p) :
    ∃ a, price = .fin a ∧ p = a * (1 + side.sign * cfg.slippage) := by
  unfold apply_slippage at h
  rw [hcost] at h
  cases side with
  | buy => simpa using PyFloat.mul_fin_eq_fin h
  | sell => simpa [sub_eq_add_neg] using PyFloat.mul_fin_eq_fin h

end Engine
