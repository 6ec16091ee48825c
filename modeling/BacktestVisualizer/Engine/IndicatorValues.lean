import BacktestVisualizer.Engine.Indicators
import BacktestVisualizer.Framework.RollingWindow

/-! # What an Indicator Makes of Its Updates

  `engine/indicators/`: the stateful indicators that `AddIndicator` can load,
  each with what `__init__` refuses and what `Update` keeps, in exact
  arithmetic. A bounded deque is a list that is pushed to; the indicators
  that keep a running total beside it have a `Rolling.Window`.
-/

open Rolling

namespace Engine

/-! ### Construction -/

/-- What an indicator raises. -/
inductive IndicatorError where
  /-- `ValueError`. -/
  | value_error (message : String)
  | type_error
  | index_error
  deriving DecidableEq, Repr

/-- `_is_ready` and `_current_value` of the base class. -/
structure Reading where
  is_ready : Bool
  current_value : Option ℚ
  deriving DecidableEq, Repr

/-- Before there is enough data. -/
def Reading.none : Reading := { is_ready := false, current_value := Option.none }

def Reading.of (value : ℚ) : Reading := { is_ready := true, current_value := some value }

/-- `int(kwargs.get(name))`: there is no number in `None`. -/
def int_of : Option ℤ → Except IndicatorError ℤ
  | .none => .error .type_error
  | some n => .ok n

/-- `deque(maxlen=n)`. -/
def maxlen_of (n : ℤ) : Except IndicatorError ℕ :=
  if n < 0 then .error (.value_error "maxlen must be non-negative") else .ok n.toNat

/-- A period that `__init__` wants to be positive. -/
def positive_period (message : String) (period : ℤ) :
    Except IndicatorError { n : ℕ // 0 < n } :=
  if h : 0 < period.toNat then .ok ⟨period.toNat, h⟩ else .error (.value_error message)

/-- The mean of a full window; before that nothing new is shown. -/
def mean_when_full (window : Window ℚ) (reading : Reading) : Reading :=
  if window.buffer.length = window.size then .of (window.total / window.size) else reading

/-! ### Simple moving average -/

structure SimpleMovingAverage where
  /-- `_window` with `_sum`. -/
  window : Window ℚ
  reading : Reading

def SimpleMovingAverage.period (s : SimpleMovingAverage) : ℕ := s.window.size

def SimpleMovingAverage.of {period : ℕ} (h : 0 < period) : SimpleMovingAverage where
  window := Window.empty h
  reading := .none

/-- `__init__`: the period is only asked not to be zero, the deque refuses a
    negative one. -/
def SimpleMovingAverage.init (period : Option ℤ) : Except IndicatorError SimpleMovingAverage := do
  match ← int_of period with
  | .ofNat 0 =>
      .error (.value_error "SimpleMovingAverage requires a 'period' keyword argument.")
  | .ofNat (n + 1) => .ok (.of n.succ_pos)
  | .negSucc _ => .error (.value_error "maxlen must be non-negative")

def SimpleMovingAverage.update (s : SimpleMovingAverage) (data_point : ℚ) :
    SimpleMovingAverage :=
  let window := s.window.slide data_point
  { window := window, reading := mean_when_full window s.reading }

/-! ### Displaced moving average -/

structure DisplacedMovingAverage where
  period : ℕ
  displacement : ℤ
  /-- `maxlen` of the price buffer: period and displacement together. -/
  maxlen : ℕ
  price_buffer : List ℚ
  reading : Reading

def DisplacedMovingAverage.init (period displacement : ℤ) :
    Except IndicatorError DisplacedMovingAverage := do
  let period ← positive_period "DisplacedMovingAverage requires a 'period' > 0." period
  let maxlen ← maxlen_of (period + displacement)
  .ok { period := period, displacement := displacement, maxlen := maxlen, price_buffer := []
        reading := .none }

/-- `buffer[i]`: a negative index counts from the end. -/
def deque_item (buffer : List ℚ) (i : ℤ) : Except IndicatorError ℚ :=
  match (if 0 ≤ i then buffer[i.toNat]?
    else if -i ≤ buffer.length then buffer[buffer.length - (-i).toNat]? else .none) with
  | some x => .ok x
  | .none => .error .index_error

/-- The window that ends `displacement` points before the newest. -/
def DisplacedMovingAverage.past_window (s : DisplacedMovingAverage) (buffer : List ℚ) :
    Except IndicatorError (List ℚ) :=
  let end_index : ℤ := buffer.length - s.displacement
  let start_index := end_index - s.period
  (List.range s.period).mapM (fun (k : ℕ) => deque_item buffer (start_index + k))

def DisplacedMovingAverage.update (s : DisplacedMovingAverage) (data_point : ℚ) :
    Except IndicatorError DisplacedMovingAverage :=
  let buffer := push s.maxlen s.price_buffer data_point
  if buffer.length = s.maxlen then do
    let window ← s.past_window buffer
    .ok { s with price_buffer := buffer, reading := .of (window.sum / s.period) }
  else .ok { s with price_buffer := buffer }

/-! ### Exponential moving average -/

structure ExponentialMovingAverage where
  period : ℕ
  multiplier : ℚ
  ema : Option ℚ
  count : ℕ
  sum : ℚ
  reading : Reading

def ExponentialMovingAverage.of (period : ℕ) : ExponentialMovingAverage where
  period := period
  multiplier := 2 / (period + 1)
  ema := .none
  count := 0
  sum := 0
  reading := .none

def ExponentialMovingAverage.init (period : Option ℤ) :
    Except IndicatorError ExponentialMovingAverage := do
  let period ← int_of period
  let period ← positive_period "ExponentialMovingAverage requires a 'period' > 0." period
  .ok (.of period)

def ExponentialMovingAverage.update (s : ExponentialMovingAverage) (data_point : ℚ) :
    ExponentialMovingAverage :=
  let count := s.count + 1
  match s.ema with
  | .none =>
      -- the seed is the simple average of the first `period` points
      let sum := s.sum + data_point
      if count = s.period then
        { s with count := count, sum := sum, ema := some (sum / s.period)
                 reading := .of (sum / s.period) }
      else { s with count := count, sum := sum }
  | some ema =>
      let ema := data_point * s.multiplier + ema * (1 - s.multiplier)
      { s with count := count, ema := some ema, reading := .of ema }

/-! ### Rate of change -/

structure RateOfChange where
  period : ℕ
  price_buffer : List ℚ
  reading : Reading

def RateOfChange.init (period : ℤ) : Except IndicatorError RateOfChange := do
  let period ← positive_period "RateOfChange indicator requires a 'period' > 0." period
  .ok { period := period, price_buffer := [], reading := .none }

/-- The change against the price `period` bars ago, in percent; none can be
    told against a price of zero. -/
def change_pct (old_price new_price : ℚ) : ℚ :=
  if old_price ≠ 0 then (new_price - old_price) / old_price * 100 else 0

def RateOfChange.update (s : RateOfChange) (data_point : ℚ) : RateOfChange :=
  let buffer := push (s.period + 1) s.price_buffer data_point
  { s with
    price_buffer := buffer
    reading := if buffer.length = s.period + 1 then
        .of (change_pct (buffer.headD 0) (buffer.getLastD 0))
      else s.reading }

/-! ### Wilder's averages -/

/-- `_avg_gain` and `_avg_loss`: they are set together. -/
structure GainLoss where
  gain : ℚ
  loss : ℚ
  deriving DecidableEq, Repr

/-- `np.mean` of both. -/
def GainLoss.mean (gains losses : List ℚ) : GainLoss where
  gain := gains.sum / gains.length
  loss := losses.sum / losses.length

/-- One gain and one loss more, smoothed. -/
def GainLoss.smooth (a : GainLoss) (period gain loss : ℚ) : GainLoss where
  gain := (a.gain * (period - 1) + gain) / period
  loss := (a.loss * (period - 1) + loss) / period

/-- The index of two averages. Without losses it is 100. -/
def GainLoss.index (a : GainLoss) : ℚ :=
  if a.loss = 0 then 100 else 100 - 100 / (1 + a.gain / a.loss)

structure RelativeStrengthIndex where
  /-- Not zero, but it may be negative. -/
  period : ℤ
  previous_price : Option ℚ
  gains : List ℚ
  losses : List ℚ
  averages : Option GainLoss
  reading : Reading

def RelativeStrengthIndex.init (period : Option ℤ) :
    Except IndicatorError RelativeStrengthIndex := do
  let period ← int_of period
  if period = 0 then
    .error (.value_error "RelativeStrengthIndex requires a 'period' keyword argument.")
  else .ok { period := period, previous_price := .none, gains := [], losses := []
             averages := .none, reading := .none }

/-- The averages of a filled period: the first are means. -/
def RelativeStrengthIndex.next_averages (s : RelativeStrengthIndex) (gains losses : List ℚ)
    (gain loss : ℚ) : GainLoss :=
  match s.averages with
  | .none => GainLoss.mean gains losses
  | some a => a.smooth s.period gain loss

/-- `Update` from the second price on. -/
def RelativeStrengthIndex.observe (s : RelativeStrengthIndex) (change : ℚ) :
    RelativeStrengthIndex :=
  let gain := if 0 < change then change else 0
  let loss := if 0 < change then 0 else |change|
  let gains := s.gains ++ [gain]
  let losses := s.losses ++ [loss]
  if (gains.length : ℤ) = s.period then
    let averages := s.next_averages gains losses gain loss
    -- the oldest change goes, so the next one fills the period again
    { s with gains := gains.tail, losses := losses.tail, averages := some averages
             reading := .of averages.index }
  else { s with gains := gains, losses := losses }

def RelativeStrengthIndex.update (s : RelativeStrengthIndex) (data_point : ℚ) :
    RelativeStrengthIndex :=
  match s.previous_price with
  | .none => { s with previous_price := some data_point }
  | some previous => { s.observe (data_point - previous) with previous_price := some data_point }

structure RelativeMomentumIndex where
  period : ℕ
  momentum_period : ℕ
  prices : List ℚ
  averages : Option GainLoss
  seed_gains : List ℚ
  seed_losses : List ℚ
  reading : Reading

def RelativeMomentumIndex.init (period momentum_period : ℤ) :
    Except IndicatorError RelativeMomentumIndex := do
  let period ← positive_period "'period' must be positive" period
  let momentum_period ← positive_period "'momentum_period' must be positive" momentum_period
  .ok { period := period, momentum_period := momentum_period, prices := [], averages := .none
        seed_gains := [], seed_losses := [], reading := .none }

/-- The averages after a momentum, if there are any yet, with the seeds. -/
def RelativeMomentumIndex.observe (s : RelativeMomentumIndex) (momentum : ℚ) :
    RelativeMomentumIndex :=
  let gain := max momentum 0
  let loss := max (-momentum) 0
  match s.averages with
  | .none =>
      let seed_gains := push s.period s.seed_gains gain
      let seed_losses := push s.period s.seed_losses loss
      if seed_gains.length = s.period then
        let averages := GainLoss.mean seed_gains seed_losses
        { s with seed_gains := seed_gains, seed_losses := seed_losses, averages := some averages
                 reading := .of averages.index }
      else { s with seed_gains := seed_gains, seed_losses := seed_losses }
  | some a =>
      let averages := a.smooth s.period gain loss
      { s with averages := some averages, reading := .of averages.index }

def RelativeMomentumIndex.update (s : RelativeMomentumIndex) (data_point : ℚ) :
    RelativeMomentumIndex :=
  let prices := push (s.momentum_period + 1) s.prices data_point
  let s := { s with prices := prices }
  if prices.length < s.momentum_period + 1 then s
  else s.observe (prices.getLastD 0 - prices.headD 0)

/-! ### Averages over bars -/

/-- `kwargs.get(column, default)`: of two values for a column the later
    assignment stands. -/
def column_value (columns : List (Column × ℚ)) (column : Column) (default : ℚ) : ℚ :=
  ((columns.reverse.find? (fun entry => entry.1 = column)).map Prod.snd).getD default

structure AverageTrueRange where
  high_col : Column
  low_col : Column
  prev_close : Option ℚ
  /-- `_tr_buffer` with `_sum_tr`. -/
  window : Window ℚ
  reading : Reading

def AverageTrueRange.of {period : ℕ} (h : 0 < period) (high_col low_col : Column) :
    AverageTrueRange where
  high_col := high_col
  low_col := low_col
  prev_close := .none
  window := Window.empty h
  reading := .none

def AverageTrueRange.init (period : ℤ) (high_col low_col : Column) :
    Except IndicatorError AverageTrueRange := do
  let period ← positive_period "ATR indicator requires a 'period' > 0." period
  .ok (.of period.2 high_col low_col)

/-- The range of a bar, with the gap to the close before it. -/
def true_range (high low prev_close : ℚ) : ℚ :=
  max (max (high - low) |high - prev_close|) |low - prev_close|

def AverageTrueRange.update (s : AverageTrueRange) (u : Update) : AverageTrueRange :=
  let close := u.data_point
  let high := column_value u.columns s.high_col close
  let low := column_value u.columns s.low_col close
  match s.prev_close with
  | .none => { s with prev_close := some close }
  | some prev_close =>
      let window := s.window.slide (true_range high low prev_close)
      { s with
        window := window
        prev_close := some close
        reading := mean_when_full window s.reading }

structure VWAP where
  /-- `_pv_buffer` and `_vol_buffer`, filled together, with `_sum_pv` and
      `_sum_vol`. -/
  window : Window (ℚ × ℚ)
  reading : Reading

def VWAP.of {period : ℕ} (h : 0 < period) : VWAP where
  window := Window.empty h
  reading := .none

def VWAP.init (period : ℤ) : Except IndicatorError VWAP := do
  let period ← positive_period "VWAP indicator requires a 'period' > 0." period
  .ok (.of period.2)

/-- Price times volume, and the volume. -/
def VWAP.entry (u : Update) : ℚ × ℚ :=
  let volume := column_value u.columns .volume 1
  (u.data_point * volume, volume)

def VWAP.update (s : VWAP) (u : Update) : VWAP :=
  let window := s.window.slide (VWAP.entry u)
  { window := window
    reading := if window.buffer.length = window.size then
        .of (if 0 < window.total.2 then window.total.1 / window.total.2 else u.data_point)
      else s.reading }

end Engine
