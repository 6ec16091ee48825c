import BacktestVisualizer.Engine.Ledger

/-! # The Strategy's Side of an Order

  `engine/strategies/market_data_api.py` and `order_interface.py`: what a
  strategy sees of the market in one `OnData` call, and the order methods it
  may call there. Every order is priced at the close the context shows and
  sized with the portfolio value taken before the call.
-/

namespace Engine

/-! ### Market data -/

/-- A row of the bar table; the timestamp counts microseconds in UTC. The
    columns are numeric, and NaN where there is no value. -/
structure Bar where
  timestamp : ℤ
  ticker : Ticker
  open_price : Option ℚ
  high_price : Option ℚ
  low_price : Option ℚ
  close_price : Option ℚ
  volume : Option ℚ
  deriving DecidableEq, Repr

/-- The float in a cell. -/
def cell_float : Option ℚ → PyFloat
  | some q => .fin q
  | none => .nan

/-- `AssetData` of an asset that exists. -/
structure AssetData where
  Open : PyFloat
  High : PyFloat
  Low : PyFloat
  Close : PyFloat
  Volume : PyFloat
  Timestamp : ℤ
  deriving DecidableEq, Repr

/-- `AssetData.__init__`: the last row up to now. A NaN close is a float like
    any other here. -/
def AssetData.init (asset_specific_df : List Bar) (current_time : ℤ) : Option AssetData := do
  let latest_row ← (asset_specific_df.filter (fun row => row.timestamp ≤ current_time)).getLast?
  some { Open := cell_float latest_row.open_price, High := cell_float latest_row.high_price,
         Low := cell_float latest_row.low_price, Close := cell_float latest_row.close_price,
         Volume := cell_float latest_row.volume, Timestamp := latest_row.timestamp }

/-- `MarketData`: `none` is an asset whose `Exists` is false. -/
def market_data (market_data_df : List Bar) (current_time : ℤ) (ticker : Ticker) :
    Option AssetData :=
  AssetData.init (market_data_df.filter (fun row => row.ticker = ticker)) current_time

/-! ### The context -/

/-- The `weights` of the configuration. -/
inductive Weights where
  | absent
  | mapping (get : Ticker → Option Numeric)
  | listed (weights : List Numeric)
  | other

/-- The fields of `StrategyContext` that an order reads. -/
structure StrategyContext where
  portfolio_id : String
  tickers : List Ticker
  weights : Weights
  /-- `self.Market`. -/
  market : Ticker → Option AssetData
  /-- `self.Portfolio.total_value`. -/
  total_value : PyFloat
  time : Moment
  has_order_manager : Bool

/-- What an order method raises. -/
inductive OrderError where
  | not_a_number
  | target_not_finite
  | weights_shape
  | weights_values
  | sizing
  deriving DecidableEq, Repr

/-- What is handed to the order manager. -/
structure ParentOrder where
  portfolio_id : String
  ticker : Ticker
  side : Side
  confidence : Numeric
  arrival_price : PyFloat
  total_quantity : ℤ
  timestamp : Moment
  deriving DecidableEq, Repr

/-- How an order call ends. -/
inductive Placed where
  | raised (e : OrderError)
  /-- `sell` of a ticker that is not held long. -/
  | not_held
  | no_market_data
  | sized_zero
  | registered (order : ParentOrder)
  | executed (o : Outcome)
  deriving DecidableEq, Repr

/-- `_allocation_weight`. -/
def allocation_weight (ctx : StrategyContext) (ticker : Ticker) : Except OrderError PyFloat :=
  let tickers := ctx.tickers.eraseDups
  let checked : Numeric → Except OrderError PyFloat := fun weight =>
    match weight with
    | none => .error .not_a_number
    | some weight =>
        if weight.is_finite ∧ ¬ weight < .fin 0 then .ok weight else .error .weights_values
  if ticker ∉ tickers then .ok (.fin 0)
  else
    match ctx.weights with
    | .absent => .ok (.fin (1 / tickers.length))
    | .mapping get => checked ((get ticker).getD (some (.fin 0)))
    | .listed weights =>
        if weights.length = tickers.length then
          checked (weights.getD (tickers.idxOf ticker) none)
        else .error .weights_shape
    | .other => .error .weights_shape

variable (cfg : Config) (ctx : StrategyContext) (s : Executor)

/-- `_place`. -/
def place (ticker : Ticker) (signal_type : Signal) (confidence : Numeric)
    (ticker_weight : Numeric) (target_weight : Option Numeric) : Placed × Executor :=
  match ctx.market ticker with
  | none => (.no_market_data, s)
  | some asset_data =>
      if asset_data.Close ≤ .fin 0 then (.no_market_data, s)
      else
        let request : SizeRequest :=
          { signal_type := signal_type, ticker := ticker, arrival_price := some asset_data.Close,
            confidence := confidence, port_notional := some ctx.total_value,
            ticker_weight := ticker_weight, target_weight := target_weight }
        if ctx.has_order_manager then
          -- the order manager owns execution from here
          match default_trade_size cfg s request with
          | none => (.raised .sizing, s)
          | some sizing =>
              if 0 < sizing.quantity then
                (.registered
                  { portfolio_id := ctx.portfolio_id, ticker := ticker,
                    side := if sizing.desired_notional < .fin 0 then .sell else .buy,
                    confidence := confidence, arrival_price := asset_data.Close,
                    total_quantity := sizing.quantity, timestamp := ctx.time }, s)
              else (.sized_zero, s)
        else
          let (outcome, s) := execute_trade cfg s
            { toSizeRequest := request, portfolio_id := ctx.portfolio_id,
              timestamp := some ctx.time }
          (.executed outcome, s)

/-- `target_weight`. -/
def target_weight (ticker : Ticker) (weight : Numeric) (confidence : Numeric) :
    Placed × Executor :=
  match weight with
  | none => (.raised .not_a_number, s)
  | some weight =>
      if weight.is_finite then
        place cfg ctx s ticker .buy confidence (some (.fin 0)) (some (some weight))
      else (.raised .target_not_finite, s)

/-- `buy`. -/
def buy (ticker : Ticker) (confidence : Numeric) : Placed × Executor :=
  match allocation_weight ctx ticker with
  | .error e => (.raised e, s)
  | .ok weight => target_weight cfg ctx s ticker (some weight) confidence

/-- `sell`. -/
def sell (ticker : Ticker) (confidence : Numeric) : Placed × Executor :=
  if 0 < s.positions ticker then
    place cfg ctx s ticker .sell confidence (some (.fin 0)) (some (some (.fin 0)))
  else (.not_held, s)

/-- `close_position`. -/
def close_position (ticker : Ticker) (confidence : Numeric) : Placed × Executor :=
  target_weight cfg ctx s ticker (some (.fin 0)) confidence

/-- `execute`: the signal and weight model. -/
def execute (ticker : Ticker) (side : Signal) (confidence ticker_weight : Numeric) :
    Placed × Executor :=
  place cfg ctx s ticker side confidence ticker_weight none

/-! ### Orders -/

/-- The order methods of a context. -/
inductive Order where
  | buy (ticker : Ticker) (confidence : Numeric)
  | sell (ticker : Ticker) (confidence : Numeric)
  | close_position (ticker : Ticker) (confidence : Numeric)
  | target_weight (ticker : Ticker) (weight confidence : Numeric)
  | execute (ticker : Ticker) (side : Signal) (confidence ticker_weight : Numeric)

/-- The ticker an order names. -/
def Order.ticker : Order → Ticker
  | .buy t _ | .sell t _ | .close_position t _ | .target_weight t _ _ | .execute t _ _ _ => t

/-- The confidence it is placed with. -/
def Order.confidence : Order → Numeric
  | .buy _ c | .sell _ c | .close_position _ c | .target_weight _ _ c | .execute _ _ c _ => c

/-- An order that names the exposure to end at. -/
def Order.explicit : Order → Prop
  | .execute _ _ _ _ => False
  | _ => True

/-- The weight an explicit order aims at, unless it raises or has nothing to
    do. -/
def Order.aim : Order → Option ℚ
  | .buy t _ =>
      match allocation_weight ctx t with
      | .ok (.fin w) => some w
      | _ => none
  | .sell t _ => if 0 < s.positions t then some 0 else none
  | .close_position _ _ => some 0
  | .target_weight _ w _ =>
      match w with
      | some (.fin w) => some w
      | _ => none
  | .execute _ _ _ _ => none

def issue : Order → Placed × Executor
  | .buy t confidence => buy cfg ctx s t confidence
  | .sell t confidence => sell cfg ctx s t confidence
  | .close_position t confidence => close_position cfg ctx s t confidence
  | .target_weight t weight confidence => target_weight cfg ctx s t weight confidence
  | .execute t side confidence weight => execute cfg ctx s t side confidence weight

/-- The orders of one `OnData` call. -/
def issue_all (orders : List Order) : Executor :=
  orders.foldl (fun s order => (issue cfg ctx s order).2) s

@[simp] theorem issue_all_nil : issue_all cfg ctx s [] = s := rfl

theorem issue_all_snoc (orders : List Order) (order : Order) :
    issue_all cfg ctx s (orders ++ [order]) =
      (issue cfg ctx (issue_all cfg ctx s orders) order).2 := by
  simp [issue_all, List.foldl_append]

/-! ### What an order can do -/

/-- `_place` changes the books only by an `execute_trade` at the close it
    shows, sized with the portfolio value of the context. -/
theorem place_cases (ticker : Ticker) (signal_type : Signal)
    (confidence ticker_weight : Numeric) (target_weight : Option Numeric) :
    (place cfg ctx s ticker signal_type confidence ticker_weight target_weight).2 = s ∨
    (∃ asset, ctx.market ticker = some asset ∧ ¬ asset.Close ≤ .fin 0 ∧
      (place cfg ctx s ticker signal_type confidence ticker_weight target_weight).2 =
        (execute_trade cfg s
          { signal_type := signal_type, ticker := ticker, arrival_price := some asset.Close,
            confidence := confidence, port_notional := some ctx.total_value,
            ticker_weight := ticker_weight, target_weight := target_weight,
            portfolio_id := ctx.portfolio_id, timestamp := some ctx.time }).2) := by
  unfold place
  cases hasset : ctx.market ticker with
  | none => exact Or.inl rfl
  | some asset =>
    by_cases hclose : asset.Close ≤ .fin 0
    · exact Or.inl (by simp [hclose])
    · by_cases homs : ctx.has_order_manager = true
      · apply Or.inl
        simp only [if_neg hclose, if_pos homs]
        cases default_trade_size cfg s _ with
        | none => rfl
        | some sizing =>
          by_cases hq : 0 < sizing.quantity <;> simp [hq]
      · apply Or.inr
        refine ⟨asset, rfl, hclose, ?_⟩
        simp only [if_neg hclose, if_neg homs]

/-- The arguments of `_place`. -/
structure PlaceArgs where
  ticker : Ticker
  signal_type : Signal
  confidence : Numeric
  ticker_weight : Numeric
  target_weight : Option Numeric

def target_args (ticker : Ticker) (weight confidence : Numeric) : Except Placed PlaceArgs :=
  match weight with
  | none => .error (.raised .not_a_number)
  | some weight =>
      if weight.is_finite then
        .ok { ticker := ticker, signal_type := .buy, confidence := confidence,
              ticker_weight := some (.fin 0), target_weight := some (some weight) }
      else .error (.raised .target_not_finite)

/-- What an order hands to `_place`, unless it ends before. -/
def Order.args : Order → Except Placed PlaceArgs
  | .buy t confidence =>
      match allocation_weight ctx t with
      | .error e => .error (.raised e)
      | .ok weight => target_args t (some weight) confidence
  | .sell t confidence =>
      if 0 < s.positions t then
        .ok { ticker := t, signal_type := .sell, confidence := confidence,
              ticker_weight := some (.fin 0), target_weight := some (some (.fin 0)) }
      else .error .not_held
  | .close_position t confidence => target_args t (some (.fin 0)) confidence
  | .target_weight t weight confidence => target_args t weight confidence
  | .execute t side confidence weight =>
      .ok { ticker := t, signal_type := side, confidence := confidence, ticker_weight := weight,
            target_weight := none }

theorem target_weight_eq_place (t : Ticker) (weight confidence : Numeric) :
    target_weight cfg ctx s t weight confidence =
      match target_args t weight confidence with
      | .error placed => (placed, s)
      | .ok a => place cfg ctx s a.ticker a.signal_type a.confidence a.ticker_weight
          a.target_weight := by
  unfold target_weight target_args
  cases weight with
  | none => rfl
  | some weight => by_cases hfin : weight.is_finite = true <;> simp [hfin]

/-- **An order** ends before `_place` or is one call of it. -/
theorem issue_eq_place (order : Order) :
    issue cfg ctx s order =
      match order.args ctx s with
      | .error placed => (placed, s)
      | .ok a => place cfg ctx s a.ticker a.signal_type a.confidence a.ticker_weight
          a.target_weight := by
  match order with
  | .buy t confidence =>
    show buy cfg ctx s t confidence = _
    cases hweight : allocation_weight ctx t with
    | error e => simp [buy, Order.args, hweight]
    | ok weight =>
      simp only [buy, Order.args, hweight]
      exact target_weight_eq_place cfg ctx s t _ confidence
  | .sell t confidence =>
    show sell cfg ctx s t confidence = _
    unfold sell Order.args
    by_cases hheld : 0 < s.positions t <;> simp [hheld]
  | .close_position t confidence =>
    exact target_weight_eq_place cfg ctx s t (some (.fin 0)) confidence
  | .target_weight t weight confidence => exact target_weight_eq_place cfg ctx s t weight confidence
  | .execute t side confidence weight => rfl

theorem target_args_ok {t : Ticker} {weight confidence : Numeric} {a : PlaceArgs}
    (h : target_args t weight confidence = .ok a) :
    a.ticker = t ∧ a.confidence = confidence ∧
      ∃ w, weight = some (.fin w) ∧ a.target_weight = some (some (.fin w)) := by
  unfold target_args at h
  cases weight with
  | none => exact absurd h (by simp)
  | some weight =>
    by_cases hfin : weight.is_finite = true
    · obtain ⟨w, rfl⟩ := PyFloat.is_finite_iff.mp hfin
      simp only [if_pos hfin, Except.ok.injEq] at h
      subst h
      exact ⟨rfl, rfl, w, rfl, rfl⟩
    · simp [hfin] at h

/-- The arguments name the ticker and the confidence of the order, and the
    aim of an explicit one. -/
theorem args_ok {order : Order} {a : PlaceArgs} (h : order.args ctx s = .ok a) :
    a.ticker = order.ticker ∧ a.confidence = order.confidence ∧
      (order.explicit → ∃ w, order.aim ctx s = some w ∧
        a.target_weight = some (some (.fin w))) := by
  match order with
  | .buy t confidence =>
    unfold Order.args at h
    cases hweight : allocation_weight ctx t with
    | error e => simp [hweight] at h
    | ok weight =>
      simp only [hweight] at h
      obtain ⟨ht, hconf, w, hw, htarget⟩ := target_args_ok h
      obtain rfl := Option.some.inj hw
      exact ⟨ht, hconf, fun _ => ⟨w, by simp [Order.aim, hweight], htarget⟩⟩
  | .sell t confidence =>
    unfold Order.args at h
    by_cases hheld : 0 < s.positions t
    · simp only [if_pos hheld, Except.ok.injEq] at h
      subst h
      exact ⟨rfl, rfl, fun _ => ⟨0, by simp [Order.aim, hheld], rfl⟩⟩
    · simp [hheld] at h
  | .close_position t confidence =>
    have hzero : target_args t (some (.fin 0)) confidence = .ok a := h
    obtain ⟨ht, hconf, w, hw, htarget⟩ := target_args_ok hzero
    obtain rfl : (0 : ℚ) = w := by simpa using hw
    exact ⟨ht, hconf, fun _ => ⟨0, rfl, htarget⟩⟩
  | .target_weight t weight confidence =>
    obtain ⟨ht, hconf, w, rfl, htarget⟩ := target_args_ok h
    exact ⟨ht, hconf, fun _ => ⟨w, rfl, htarget⟩⟩
  | .execute t side confidence weight =>
    obtain rfl := Except.ok.inj h
    exact ⟨rfl, rfl, fun hexp => absurd hexp id⟩

/-- **An order** leaves the executor alone or is one `execute_trade` at the
    close of its ticker; an explicit one carries its aim. -/
theorem issue_cases (order : Order) :
    (issue cfg ctx s order).2 = s ∨
    (∃ asset r, ctx.market order.ticker = some asset ∧ ¬ asset.Close ≤ .fin 0 ∧
      (issue cfg ctx s order).2 = (execute_trade cfg s r).2 ∧ r.ticker = order.ticker ∧
      r.arrival_price = some asset.Close ∧ r.port_notional = some ctx.total_value ∧
      r.confidence = order.confidence ∧ r.timestamp = some ctx.time ∧
      (order.explicit → ∃ w, order.aim ctx s = some w ∧
        r.target_weight = some (some (.fin w)))) := by
  rw [issue_eq_place]
  cases hargs : order.args ctx s with
  | error placed => exact Or.inl rfl
  | ok a =>
    obtain ⟨ht, hconf, haim⟩ := args_ok ctx s hargs
    rcases place_cases cfg ctx s a.ticker a.signal_type a.confidence a.ticker_weight
      a.target_weight with hsame | ⟨asset, hasset, hclose, heq⟩
    · exact Or.inl hsame
    · rw [ht] at hasset
      exact Or.inr ⟨asset, _, hasset, hclose, heq, ht, rfl, rfl, hconf, rfl, haim⟩

end Engine
