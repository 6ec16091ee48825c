import BacktestVisualizer.Engine.StrategyContext

/-! # The Regime-Adaptive Strategy

  `engine/strategies/portfolio_3/strategy.py`: the VIX decides between a
  momentum and a mean-reversion regime, and every ticker but the VIX is
  traded by the rules of the regime, with a stop-loss under each entry. The
  strategy keeps its own books per ticker and writes them from what it
  decided, not from what was filled.
-/

open Engine

namespace RegimeAdaptive

/-! ### What the strategy is given -/

/-- `REGIME_TICKER`. -/
def regime_ticker : Ticker := ⟨"^VIX", by decide⟩

/-- An indicator: `IsReady` and `Current`. -/
structure Indicator where
  is_ready : Bool
  current : Option PyFloat
  deriving DecidableEq, Repr

/-- The four indicators of a ticker. -/
structure Indicators where
  vwap : Indicator
  atr : Indicator
  momentum_pct : Indicator
  sma50 : Indicator
  deriving DecidableEq, Repr

/-- An entry of a `WEIGHTS` mapping: missing or otherwise false, a number, or
    something that cannot be multiplied by one. -/
inductive WeightEntry where
  | empty
  | number (x : PyFloat)
  | other
  deriving DecidableEq, Repr

/-- `portfolio_weights`: false, a mapping, or a list, which has no `get`. -/
inductive PortfolioWeights where
  | absent
  | mapping (get : Ticker → WeightEntry)
  | listed

/-- What the configuration sets. -/
structure Settings where
  tickers : List Ticker
  /-- In seconds. -/
  poll_interval : ℚ
  portfolio_weights : PortfolioWeights

/-- One call of `OnData`: the context, the positions it shows, and the
    indicators. A backtest has no order manager. -/
structure Poll where
  context : StrategyContext
  direct : context.has_order_manager = false
  positions : Ticker → ℚ
  indicators : Ticker → Indicators
  vix_ema : Indicator

/-! ### Its books -/

inductive Regime where
  | high_vol
  | low_vol
  deriving DecidableEq, Repr

/-- An entry of `order_log`. -/
structure OrderLogEntry where
  timestamp : Moment
  signal : Signal
  price : PyFloat
  confidence : PyFloat
  mean_reversion_exit : Bool
  stop_loss_exit : Bool
  deriving DecidableEq, Repr

/-- `STATE`. A missing list reads as an empty one. -/
structure Book where
  last_decision_time : Ticker → Option Moment
  last_signal : Ticker → Option Signal
  raw_signal_streak : Ticker → Option (Signal × ℕ)
  order_log : Ticker → List OrderLogEntry
  entry_price : Ticker → Option PyFloat
  entry_regime : Ticker → Option Regime
  trade_results : Ticker → List PyFloat

/-- The declared `STATE`. -/
def Book.init : Book where
  last_decision_time := fun _ => none
  last_signal := fun _ => none
  raw_signal_streak := fun _ => none
  order_log := fun _ => []
  entry_price := fun _ => none
  entry_regime := fun _ => none
  trade_results := fun _ => []

/-- Functional update of a table. -/
def put {β : Type} (f : Ticker → β) (t : Ticker) (x : β) : Ticker → β :=
  fun u => if u = t then x else f u

@[simp] theorem put_self {β : Type} (f : Ticker → β) (t : Ticker) (x : β) : put f t x t = x := by
  simp [put]

@[simp] theorem put_ne {β : Type} (f : Ticker → β) {t u : Ticker} (x : β) (h : u ≠ t) :
    put f t x u = f u := by
  simp [put, h]

/-- The last `n` elements of a list. -/
def last_of {β : Type} (n : ℕ) (l : List β) : List β := l.drop (l.length - n)

/-! ### Parameters -/

def reversal_threshold : ℕ := 2

def atr_band_mult : PyFloat := .fin (11 / 10)

def momentum_threshold : ℚ := 13 / 10

def base_conf : ℚ := 65 / 100

def stop_loss_atr_mult : PyFloat := .fin 3

/-! ### The signal -/

/-- The values a decision is made from. -/
structure Levels where
  vwap : PyFloat
  atr : PyFloat
  momentum : PyFloat
  sma50 : PyFloat
  price : PyFloat
  quantity : ℚ

def Levels.upper_band (l : Levels) : PyFloat := l.vwap + l.atr * atr_band_mult

def Levels.lower_band (l : Levels) : PyFloat := l.vwap - l.atr * atr_band_mult

/-- A signal, and whether it is a forced exit. -/
structure RawSignal where
  signal : Signal
  mean_reversion_exit : Bool
  stop_loss_exit : Bool
  deriving DecidableEq, Repr

def RawSignal.forced (r : RawSignal) : Bool := r.mean_reversion_exit || r.stop_loss_exit

/-- A signal that is no forced exit. -/
def RawSignal.plain (signal : Signal) : RawSignal := ⟨signal, false, false⟩

/-- The stop-loss: an entry is on the books and the price is too far below it. -/
def stop_loss (book : Book) (t : Ticker) (l : Levels) : Bool :=
  match book.entry_price t with
  | some entry => 0 < l.quantity ∧ l.price ≤ entry - stop_loss_atr_mult * l.atr
  | none => false

/-- The signal of the regime; the stop-loss comes before it. -/
def raw_signal (book : Book) (t : Ticker) (is_high_vol : Bool) (l : Levels) : RawSignal :=
  if stop_loss book t l then ⟨.sell, false, true⟩
  else if is_high_vol then
    if l.upper_band < l.price then .plain .sell
    else if l.price < l.lower_band then .plain .buy
    else if 0 < l.quantity ∧ l.vwap ≤ l.price ∧ book.entry_regime t = some .high_vol then
      ⟨.sell, true, false⟩
    else .plain .hold
  else if .fin momentum_threshold < l.momentum ∧ l.sma50 < l.price then .plain .buy
  else if l.momentum < .fin (-momentum_threshold) then .plain .sell
  else .plain .hold

/-- `is_high_vol`; `none` where the comparison raises. -/
def high_vol (vix_ema : Indicator) (vix_value : PyFloat) : Option Bool :=
  if vix_ema.is_ready then
    vix_ema.current.map (fun ema => ema * .fin (105 / 100) < vix_value)
  else some (.fin 20 < vix_value)

/-! ### The confidence -/

/-- Division as numpy does it: by zero it gives an infinity or NaN. -/
def quotient (x y : PyFloat) : PyFloat :=
  match y with
  | .fin d =>
      if d = 0 then
        if .fin 0 < x then .pos_inf else if x < .fin 0 then .neg_inf else .nan
      else x.div_rat d
  | .nan => .nan
  | _ => if x.is_finite then .fin 0 else .nan

/-- `round(x, 4)`. -/
def round4 : PyFloat → PyFloat
  | .fin q => .fin (PyFloat.round_half_even (q * 10000) / 10000)
  | x => x

/-- How far the price or the momentum is beyond what the regime asks for. -/
def strength_factor (is_high_vol : Bool) (signal : Signal) (l : Levels) : PyFloat :=
  if is_high_vol then
    let ref_band := if signal = .sell then l.upper_band else l.lower_band
    let deviation := quotient (l.price - ref_band).abs (l.atr + .fin (1 / 1000000000))
    PyFloat.py_min (.fin 1 + deviation * .fin (1 / 2)) (.fin (3 / 2))
  else
    PyFloat.py_min (.fin 1 + l.momentum.abs.div_rat momentum_threshold * .fin (1 / 2))
      (.fin (3 / 2))

/-- From the last three results of the ticker, once there are two. -/
def history_factor (results : List PyFloat) : ℚ :=
  if 2 ≤ results.length then
    let lookback := last_of 3 results
    7 / 10 + 3 / 10 * ((lookback.filter (fun pnl => .fin 0 < pnl)).length / lookback.length)
  else 1

/-- `confidence`. -/
def confidence (raw : RawSignal) (is_high_vol is_reversal : Bool) (streak_count : ℕ)
    (results : List PyFloat) (l : Levels) : PyFloat :=
  if raw.forced then .fin (1 / 2)
  else
    let streak_bonus : ℚ := min (5 / 100 * ((streak_count : ℚ) - 1)) (2 / 10)
    let reversal_factor : ℚ := if is_reversal then 7 / 10 else 1
    round4 (PyFloat.py_min (.fin 1) (PyFloat.py_max (.fin (5 / 100))
      (.fin ((base_conf + streak_bonus) * reversal_factor) *
        strength_factor is_high_vol raw.signal l * .fin (history_factor results))))

/-! ### The decision -/

/-- What is sent out for a ticker. -/
structure Decision where
  raw : RawSignal
  confidence : PyFloat
  /-- `sizing_weight`; only a purchase reads it. -/
  weight : Numeric
  price : PyFloat
  regime : Regime
  deriving DecidableEq, Repr

/-- How the loop body ends for a ticker: before the streak is noted, after it,
    or with an order. A raised exception ends it too. -/
inductive Verdict where
  | skipped
  | noted (streak : Signal × ℕ)
  | decided (streak : Signal × ℕ) (decision : Decision)
  deriving DecidableEq, Repr

/-- `trade_ts - last_decision`, in microseconds; of a naive and an aware
    datetime it raises. -/
def elapsed (now last : Moment) : Option ℤ :=
  if now.utcoffset.isSome = last.utcoffset.isSome then some (now.comparable - last.comparable)
  else none

/-- The cooldown has run out. -/
def cooled_down (settings : Settings) (book : Book) (now : Moment) (t : Ticker) : Bool :=
  match book.last_decision_time t with
  | none => true
  | some last =>
      match elapsed now last with
      | none => false
      | some us => ¬ (us : ℚ) < settings.poll_interval * 1000000

/-- The values of a ticker, when all are there. -/
def levels (poll : Poll) (t : Ticker) : Option Levels := do
  let indicators := poll.indicators t
  let asset ← poll.context.market t
  if indicators.vwap.is_ready ∧ indicators.atr.is_ready ∧ indicators.momentum_pct.is_ready ∧
      indicators.sma50.is_ready then
    let vwap ← indicators.vwap.current
    let atr ← indicators.atr.current
    let momentum ← indicators.momentum_pct.current
    let sma50 ← indicators.sma50.current
    some { vwap := vwap, atr := atr, momentum := momentum, sma50 := sma50, price := asset.Close,
           quantity := poll.positions t }
  else none

/-- `target_weight`: the configured weight, or an equal share of the tickers
    that are traded. A list raises, and so does arithmetic with what is no
    number, which is `some none`. -/
def target_weight (settings : Settings) (t : Ticker) : Option (Option PyFloat) :=
  let n_stocks := (settings.tickers.filter (fun u => u ≠ regime_ticker)).length
  let equal : PyFloat := .fin (1 / (max n_stocks 1 : ℕ))
  match settings.portfolio_weights with
  | .absent => some (some equal)
  | .listed => none
  | .mapping get =>
      match get t with
      | .empty => some (some equal)
      | .number x => some (some (if x = .fin 0 then equal else x))
      | .other => some none

/-- `get_asset_weight`. -/
def get_asset_weight (poll : Poll) (t : Ticker) (price : PyFloat) : PyFloat :=
  if poll.context.total_value = .fin 0 then .fin 0
  else quotient (.fin (poll.positions t) * price) poll.context.total_value

/-- `streak_count` with its direction. -/
def next_streak (book : Book) (t : Ticker) (signal : Signal) : Signal × ℕ :=
  match book.raw_signal_streak t with
  | some (direction, count) => (signal, if signal = direction then count + 1 else 1)
  | none => (signal, 1)

/-- The signal turns against the last one that was sent out. -/
def reverses (book : Book) (t : Ticker) (raw : RawSignal) : Bool :=
  match book.last_signal t with
  | some last => ¬ raw.forced ∧ last ≠ .hold ∧ raw.signal ≠ .hold ∧ raw.signal ≠ last
  | none => false

/-- `current_weight >= target_weight * 0.9`; arithmetic that raises counts as
    a suppression. -/
def near_target (target : Option PyFloat) (current : PyFloat) : Bool :=
  match target with
  | some w => w * .fin (9 / 10) ≤ current
  | none => true

/-- The loop body up to the order. -/
def verdict (settings : Settings) (book : Book) (poll : Poll) (vix_value : PyFloat) (t : Ticker) :
    Verdict :=
  if ¬ cooled_down settings book poll.context.time t then .skipped
  else
    match levels poll t, high_vol poll.vix_ema vix_value with
    | some l, some is_high_vol =>
        let raw := raw_signal book t is_high_vol l
        -- sell signals only close longs
        if raw.signal = .sell ∧ l.quantity ≤ 0 then .skipped
        else
          let streak := next_streak book t raw.signal
          let is_reversal := reverses book t raw
          if is_reversal ∧ streak.2 < reversal_threshold then .noted streak
          else
            match target_weight settings t with
            | none => .noted streak
            | some target =>
                let current := get_asset_weight poll t l.price
                if raw.signal = .buy ∧ near_target target current then .noted streak
                else if raw.signal = .hold then .noted streak
                else
                  .decided streak
                    { raw := raw
                      confidence := confidence raw is_high_vol is_reversal streak.2
                        (book.trade_results t) l
                      -- a flat position is sized to the target, any other to what it is
                      weight := if current = .fin 0 then target else some current
                      price := l.price
                      regime := if is_high_vol then .high_vol else .low_vol }
    | _, _ => .skipped

/-! ### The order and the books -/

/-- The strategy, the executor, and for each ticker the close of the last call
    in which a purchase of it was filled. The code does not keep the last. -/
structure Account where
  book : Book
  executor : Executor
  last_bought : Ticker → Option PyFloat

/-- An order method raised. -/
def raised : Placed → Bool
  | .raised _ => true
  | .executed .raised => true
  | _ => false

/-- An order was filled. -/
def filled : Placed → Bool
  | .executed (.success _ _ _) => true
  | _ => false

/-- The bookkeeping of every order that was sent out. -/
def Book.log (book : Book) (t : Ticker) (now : Moment) (d : Decision) : Book :=
  { book with
    last_decision_time := put book.last_decision_time t (some now)
    last_signal := put book.last_signal t (some d.raw.signal)
    order_log := put book.order_log t (last_of 10 (book.order_log t ++
      [{ timestamp := now, signal := d.raw.signal, price := d.price, confidence := d.confidence,
         mean_reversion_exit := d.raw.mean_reversion_exit,
         stop_loss_exit := d.raw.stop_loss_exit }])) }

/-- Entry price and regime, for stop-loss and results. -/
def Book.enter (book : Book) (t : Ticker) (d : Decision) : Book :=
  { book with
    entry_price := put book.entry_price t (some d.price)
    entry_regime := put book.entry_regime t (some d.regime) }

/-- The result of an exit; the entry is deleted. -/
def Book.exit (book : Book) (t : Ticker) (d : Decision) : Book :=
  { book with
    trade_results := match book.entry_price t with
      | some entry =>
          put book.trade_results t (last_of 5 (book.trade_results t ++ [d.price - entry]))
      | none => book.trade_results
    entry_price := put book.entry_price t none
    entry_regime := put book.entry_regime t none }

/-- The streak is noted whatever follows. -/
def Book.note (book : Book) (t : Ticker) (streak : Signal × ℕ) : Book :=
  { book with raw_signal_streak := put book.raw_signal_streak t (some streak) }

variable (cfg : Config) (settings : Settings)

/-- The order of a decision. -/
def send (poll : Poll) (t : Ticker) (s : Executor) (d : Decision) : Placed × Executor :=
  if d.raw.signal = .buy then
    Engine.execute cfg poll.context s t .buy (some d.confidence) d.weight
  else Engine.sell cfg poll.context s t (some d.confidence)

/-- Sending out an order, and the bookkeeping unless it raises. -/
def carry_out (poll : Poll) (t : Ticker) (d : Decision) (a : Account) : Account :=
  let result := send cfg poll t a.executor d
  if raised result.1 then { a with executor := result.2 }
  else if d.raw.signal = .buy then
    { book := (a.book.enter t d).log t poll.context.time d
      executor := result.2
      last_bought := if filled result.1 then put a.last_bought t (some d.price)
                     else a.last_bought }
  else
    { a with book := (a.book.exit t d).log t poll.context.time d, executor := result.2 }

/-- The loop body. -/
def turn (poll : Poll) (vix_value : PyFloat) (a : Account) (t : Ticker) : Account :=
  if t = regime_ticker then a
  else
    match verdict settings a.book poll vix_value t with
    | .skipped => a
    | .noted streak => { a with book := a.book.note t streak }
    | .decided streak d => carry_out cfg poll t d { a with book := a.book.note t streak }

/-- `OnData`. Without a close of the VIX the cycle is skipped. -/
def on_data (poll : Poll) (a : Account) : Account :=
  match poll.context.market regime_ticker with
  | none => a
  | some vix_asset =>
      settings.tickers.foldl (turn cfg settings poll vix_asset.Close) a

/-! ### Runs -/

/-- What happens to a run: the runner moves prices and time, and calls the
    strategy. -/
inductive Event where
  | update_price (ticker : Ticker) (price : ℚ)
  | set_time (now : Moment)
  | on_data (poll : Poll)

/-- `get_data_feeds`: a call shows the positions and the value of the executor. -/
def Poll.shown (poll : Poll) (s : Executor) : Poll where
  context := { poll.context with total_value := .fin (get_port_notional cfg s) }
  direct := poll.direct
  positions := s.positions
  indicators := poll.indicators
  vix_ema := poll.vix_ema

/-- One event. -/
def step (a : Account) : Event → Account
  | .update_price ticker price =>
      { a with executor := update_price cfg a.executor ticker price }
  | .set_time now => { a with executor := { a.executor with current_time := some now } }
  | .on_data poll => on_data cfg settings (poll.shown cfg a.executor) a

/-- The start: no positions, and the declared state. -/
def Account.init : Account where
  book := .init
  executor := .init cfg
  last_bought := fun _ => none

def run (events : List Event) : Account := events.foldl (step cfg settings) (.init cfg)

end RegimeAdaptive
