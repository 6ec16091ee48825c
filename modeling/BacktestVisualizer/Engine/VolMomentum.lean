import BacktestVisualizer.Engine.RegimeAdaptive

/-! # The Volatility-Momentum Strategy

  `engine/strategies/portfolio_1/strategy.py`: a ticker whose 20-day return
  exceeds a multiple of its volatility is bought to its allocation, one that
  is bearish or over weight is sold. The entry aims at the configured
  allocation; whether a ticker is over weight is decided by `TARGET_WEIGHT`.

  The counters of `STATE`, which only the run report reads, are left out.
-/

open Engine
open RegimeAdaptive (quotient last_of raised)

namespace VolMomentum

/-! ### What the strategy is given -/

/-- What the configuration sets. -/
structure Settings where
  tickers : List Ticker
  weights : Weights

/-- One call of `OnData`: the context, the cash and positions it shows, the
    indicator, and the close column of the 60-day history. -/
structure Poll where
  context : StrategyContext
  cash : ℚ
  positions : Ticker → ℚ
  roc : Ticker → RegimeAdaptive.Indicator
  history : Ticker → List PyFloat

/-! ### Parameters -/

def volatility_signal_days : ℕ := 20

def volatility_multiplier : ℚ := 3 / 2

def minimum_return_observations : ℕ := 20

/-- `TARGET_WEIGHT`. -/
def target_weight : ℚ := 1 / 5

/-! ### The signal -/

/-- `pct_change(fill_method=None).dropna()`. -/
def pct_change (closes : List PyFloat) : List PyFloat :=
  (List.zipWith (fun before now => quotient now before - .fin 1) closes closes.tail).filter
    (fun r => r ≠ .nan)

/-- What the loop body learns about a ticker: nothing yet, a number that is
    not finite, or a close, a momentum and the threshold it is held against. -/
inductive Reading where
  | skipped
  | invalid
  | ready (close : PyFloat) (momentum threshold : ℚ)
  deriving DecidableEq, Repr

/-- `volatility` is the standard deviation of the last returns, over the
    horizon and in percent: `std() * 20**0.5 * 100`. -/
def reading (volatility : List PyFloat → PyFloat) (poll : Poll) (t : Ticker) : Reading :=
  match poll.context.market t with
  | none => .skipped
  | some asset =>
      if (poll.roc t).is_ready then
        let returns := pct_change (poll.history t)
        if returns.length < minimum_return_observations then .skipped
        else
          match (poll.roc t).current, volatility (last_of volatility_signal_days returns) with
          | some (.fin momentum), .fin deviation =>
              .ready asset.Close momentum (deviation * volatility_multiplier)
          | _, _ => .invalid
      else .skipped

/-- A ticker that is read has `bullish` set. -/
def bullish (volatility : List PyFloat → PyFloat) (poll : Poll) (t : Ticker) : Prop :=
  ∃ close momentum threshold, reading volatility poll t = .ready close momentum threshold ∧
    threshold < momentum

/-- `is_risk_off`. -/
def is_risk_off (poll : Poll) : Bool :=
  .fin poll.cash < poll.context.total_value * .fin (1 / 10)

/-- `get_asset_weight`. -/
def get_asset_weight (poll : Poll) (t : Ticker) (price : PyFloat) : PyFloat :=
  if poll.context.total_value = .fin 0 then .fin 0
  else quotient (.fin (poll.positions t) * price) poll.context.total_value

/-! ### The loop body -/

/-- The variables of the loop. `target_weight` is set when the weight can be
    compared, and keeps the value of an earlier ticker when it cannot. -/
structure Loop where
  executor : Executor
  target_weight : Option Bool
  raised : Bool

/-- What the two conditions of the loop body select. -/
inductive Choice where
  | buy
  | sell
  | nothing
  | unbound
  deriving DecidableEq, Repr

/-- `bullish and target_weight and not is_risk_off`, or else
    `position > 0 and (bearish or target_weight is False)`. -/
def choose (risk_off : Bool) (position momentum threshold : ℚ) (target_weight : Option Bool) :
    Choice :=
  if threshold < momentum ∧ target_weight = none then .unbound
  else if threshold < momentum ∧ target_weight = some true ∧ ¬ risk_off then .buy
  else if 0 < position then
    if momentum < -threshold then .sell
    else
      match target_weight with
      | none => .unbound
      | some false => .sell
      | some true => .nothing
  else .nothing

/-- The comparison of the weight with what the signal allows. -/
def compared (weight asset_weight : PyFloat) (before : Option Bool) : Option Bool :=
  if asset_weight ≤ weight then some true
  else if weight < asset_weight then some false
  else before

/-- After an order method. -/
def Loop.ordered (l : Loop) (result : Placed × Executor) : Loop :=
  { l with executor := result.2, raised := RegimeAdaptive.raised result.1 }

variable (volatility : List PyFloat → PyFloat) (cfg : Config) (settings : Settings)

/-- The loop body; an exception ends the call. -/
def turn (poll : Poll) (l : Loop) (t : Ticker) : Loop :=
  if l.raised then l
  else
    match reading volatility poll t with
    | .skipped => l
    | .invalid => { l with raised := true }
    | .ready close momentum threshold =>
        let weight := if threshold < momentum then target_weight else 0
        let fits := compared (.fin weight) (get_asset_weight poll t close) l.target_weight
        let l := { l with target_weight := fits }
        match choose (is_risk_off poll) (poll.positions t) momentum threshold fits with
        | .buy => l.ordered (buy cfg poll.context l.executor t (some (.fin 1)))
        | .sell => l.ordered (sell cfg poll.context l.executor t (some (.fin 1)))
        | .nothing => l
        | .unbound => { l with raised := true }

/-- The start of the loop. -/
def Loop.init (s : Executor) : Loop where
  executor := s
  target_weight := none
  raised := false

/-- `OnData`. -/
def on_data (poll : Poll) (s : Executor) : Executor :=
  (settings.tickers.foldl (turn volatility cfg poll) (.init s)).executor

/-! ### Runs -/

/-- What happens to a run: the runner moves prices and time, and calls the
    strategy. -/
inductive Event where
  | update_price (ticker : Ticker) (price : ℚ)
  | set_time (now : Moment)
  | on_data (poll : Poll)

/-- `get_data_feeds`: a call shows the cash, the positions and the value of the
    executor, and the configured universe and weights. -/
def Poll.shown (poll : Poll) (s : Executor) : Poll where
  context :=
    { poll.context with
      tickers := settings.tickers
      weights := settings.weights
      total_value := .fin (get_port_notional cfg s) }
  cash := s.cash
  positions := s.positions
  roc := poll.roc
  history := poll.history

/-- The fills between two states of one executor. -/
def fills_since (before after : Executor) : List Entry :=
  after.trade_log.drop before.trade_log.length

/-- The closes a call shows. -/
def closes (poll : Poll) (t : Ticker) : Option PyFloat :=
  (poll.context.market t).map AssetData.Close

/-- A call that is over: what it filled, and the prices it saw. -/
structure LastPoll where
  fills : List Entry
  closes : Ticker → Option PyFloat
  marks : Ticker → ℚ

/-- The executor and the last call. The code does not keep the second. -/
structure Account where
  executor : Executor
  last : Option LastPoll

/-- One event. -/
def step (a : Account) : Event → Account
  | .update_price ticker price =>
      { a with executor := update_price cfg a.executor ticker price }
  | .set_time now => { a with executor := { a.executor with current_time := some now } }
  | .on_data poll =>
      let after := on_data volatility cfg settings (poll.shown cfg settings a.executor) a.executor
      { executor := after
        last := some
          { fills := fills_since a.executor after
            closes := closes poll
            marks := a.executor.latest_prices } }

/-- The start: no positions. -/
def Account.init : Account where
  executor := .init cfg
  last := none

def run (events : List Event) : Account :=
  events.foldl (step volatility cfg settings) (.init cfg)

end VolMomentum
