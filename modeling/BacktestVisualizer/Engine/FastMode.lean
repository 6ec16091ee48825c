import BacktestVisualizer.Engine.RegimeAdaptive
import BacktestVisualizer.Framework.Batches
import BacktestVisualizer.Framework.Columns
import BacktestVisualizer.Framework.DataFrame
import BacktestVisualizer.Framework.Segments

/-! # Fast Mode

  `_run_fast_vectorized` of `engine/core/backtest_engine.py` replays a matrix
  of daily closes: an adapter of `engine/analytics/vector_strategy_adapters.py`
  turns the matrix into target weights, and the weights of one day earn the
  returns of the next. Columns are floats, with NaN where a ticker has no
  price yet; weights and returns are exact.

  `sqrt` is the square root the standard deviations take.
-/

open Columns Rolling

namespace FastMode

variable (sqrt : ℚ → ℚ)

/-! ### Columns of floats -/

/-- A cell that counts as an observation. The window functions take an
    infinity for a missing value. -/
def observed : PyFloat → Option ℚ
  | .fin q => some q
  | _ => none

/-- `ffill`. -/
def ffill : List PyFloat → List PyFloat :=
  scan (fun last x => if x = .nan then (last, last) else (x, x)) .nan

/-- `fillna(value)`. -/
def fillna (value : PyFloat) : List PyFloat → List PyFloat :=
  List.map (fun x => if x = .nan then value else x)

/-- `diff(k)`. -/
def diff (k : ℕ) (xs : List PyFloat) : List PyFloat :=
  List.zipWith (fun x y => x - y) xs (shift k .nan xs)

/-- Division cell by cell. -/
def ratio (xs ys : List PyFloat) : List PyFloat := List.zipWith RegimeAdaptive.quotient xs ys

/-- `pct_change(k)`, which fills the column first. -/
def pct_change (k : ℕ) (xs : List PyFloat) : List PyFloat :=
  (ratio (ffill xs) (shift k .nan (ffill xs))).map (fun x => x - .fin 1)

/-- The mean of the observations, if there are enough. -/
def mean_of (min_periods : ℕ) (cells : List PyFloat) : PyFloat :=
  let values := cells.filterMap observed
  if min_periods ≤ values.length then .fin (values.sum / values.length) else .nan

/-- Their standard deviation, with one degree of freedom less. -/
def std_of (min_periods : ℕ) (cells : List PyFloat) : PyFloat :=
  let values := cells.filterMap observed
  let mean := values.sum / values.length
  if min_periods ≤ values.length ∧ 1 < values.length then
    .fin (sqrt ((values.map (fun x => (x - mean) ^ 2)).sum / (values.length - 1)))
  else .nan

/-- `rolling(n, min_periods=n).mean()`. -/
def rolling_mean (n : ℕ) : List PyFloat → List PyFloat := rolling n (mean_of n)

/-- `rolling(n, min_periods=n).std()`. -/
def rolling_std (n : ℕ) : List PyFloat → List PyFloat := rolling n (std_of sqrt n)

/-- The state of an exponentially weighted mean. -/
structure Ewm where
  weighted : Option ℚ
  old_wt : ℚ
  nobs : ℕ

/-- A row of `ewm(alpha, adjust=False)`. Rows without an observation still
    age the mean. -/
def Ewm.observe (alpha : ℚ) (s : Ewm) (x : PyFloat) : Ewm :=
  match s.weighted, observed x with
  | none, none => s
  | none, some cur => ⟨some cur, 1, s.nobs + 1⟩
  | some weighted, none => ⟨some weighted, s.old_wt * (1 - alpha), s.nobs⟩
  | some weighted, some cur =>
      let old_wt := s.old_wt * (1 - alpha)
      ⟨some ((old_wt * weighted + alpha * cur) / (old_wt + alpha)), 1, s.nobs + 1⟩

def Ewm.mean (min_periods : ℕ) (s : Ewm) : PyFloat :=
  if min_periods ≤ s.nobs then s.weighted.elim .nan .fin else .nan

/-- `ewm(alpha=1.0 / period, min_periods=period, adjust=False).mean()`. -/
def ewm_mean (period : ℕ) : List PyFloat → List PyFloat :=
  scan (fun (s : Ewm) x => (s.observe (1 / period) x, (s.observe (1 / period) x).mean period))
    ⟨none, 1, 0⟩

def gt (xs ys : List PyFloat) : List Bool := List.zipWith (fun x y => decide (y < x)) xs ys

def above (c : ℚ) : List PyFloat → List Bool := List.map (fun x => decide (.fin c < x))

def below (c : ℚ) : List PyFloat → List Bool := List.map (fun x => decide (x < .fin c))

/-- `&` and `|` on columns. -/
def both (xs ys : List Bool) : List Bool := List.zipWith (fun x y => x && y) xs ys

def either (xs ys : List Bool) : List Bool := List.zipWith (fun x y => x || y) xs ys

def invert : List Bool → List Bool := List.map (fun x => !x)

/-- `target_state`: 1 on an entry, 0 on an exit, else what it was. -/
def target_state (entry exit : List Bool) : List Bool :=
  scan (fun held signal =>
    let state := if signal.2 then false else if signal.1 then true else held
    (state, state)) false (entry.zip exit)

/-! ### Adapters -/

/-- A row of the close matrix. -/
abbrev Row := Ticker → PyFloat

/-- Which columns of a matrix are held, row by row. -/
abbrev Adapter := List Ticker → List Row → List (Ticker → Bool)

/-- An operator on every column of a matrix. -/
def each {β : Type} (op : List PyFloat → List β) (default : β) : List Row → List (Ticker → β) :=
  table (fun t rows => op (rows.map (fun row => row t))) default

/-- The strength index of gains over losses, 50 while there is none. -/
def strength (period : ℕ) (change : List PyFloat) : List PyFloat :=
  let gains := change.map (fun x => if x < .fin 0 then .fin 0 else x)
  let losses := change.map (fun x => -(if .fin 0 < x then .fin 0 else x))
  let avg_loss := (ewm_mean period losses).map (fun x => if x = .fin 0 then .nan else x)
  let rs := ratio (ewm_mean period gains) avg_loss
  fillna (.fin 50)
    (rs.map (fun x => .fin 100 - RegimeAdaptive.quotient (.fin 100) (.fin 1 + x)))

/-- `_compute_rsi`. -/
def compute_rsi (period : ℕ) (close : List PyFloat) : List PyFloat := strength period (diff 1 close)

/-- `_compute_rmi`. -/
def compute_rmi (period momentum_period : ℕ) (close : List PyFloat) : List PyFloat :=
  strength period (diff momentum_period close)

/-- A band of an oscillator. -/
def within (low high : ℚ) (xs : List PyFloat) : List Bool := both (above low xs) (below high xs)

/-- The signals of `momentum_strategy_adapter`, for one column. -/
def momentum_entry (close : List PyFloat) : List Bool :=
  let sma_fast := rolling_mean 14 close
  let sma_slow := rolling_mean 28 close
  let dma := shift 7 .nan (rolling_mean 14 close)
  let bullish := both (gt sma_fast sma_slow) (gt dma sma_slow)
  let oversold := either (within 10 30 (compute_rsi 14 close)) (within 10 30 (compute_rmi 14 14 close))
  either bullish oversold

def momentum_exit (close : List PyFloat) : List Bool :=
  let sma_fast := rolling_mean 14 close
  let sma_slow := rolling_mean 28 close
  let dma := shift 7 .nan (rolling_mean 14 close)
  let bearish := both (gt sma_slow sma_fast) (gt sma_slow dma)
  let overbought := either (within 70 90 (compute_rsi 14 close)) (within 70 90 (compute_rmi 14 14 close))
  -- an entry has priority over an exit
  both (either bearish overbought) (invert (momentum_entry close))

def momentum_strategy_adapter : Adapter := fun _ =>
  each (fun close => target_state (momentum_entry close) (momentum_exit close)) false

/-- `vol_20 * 1.5` of `vol_momentum_adapter`. -/
def vol_threshold (close : List PyFloat) : List PyFloat :=
  (rolling_std sqrt 20 (pct_change 1 close)).map (fun x => x * .fin (sqrt 20) * .fin (3 / 2))

def vol_momentum_adapter : Adapter := fun _ =>
  each (fun close =>
    target_state (gt (pct_change 20 close) (vol_threshold sqrt close))
      (gt ((vol_threshold sqrt close).map (fun x => -x)) (pct_change 20 close))) false

/-- `zscore_20` of `regime_adaptive_adapter`. -/
def zscore_20 (close : List PyFloat) : List PyFloat :=
  let std_20 := (rolling_std sqrt 20 (pct_change 1 close)).map
    (fun x => if x = .fin 0 then .nan else x)
  ratio (List.zipWith (fun x y => x - y) close (rolling_mean 20 close))
    (List.zipWith (fun x y => x * y) close std_20)

/-- `(regime_mask & fade) | (~regime_mask & momentum)`. -/
def by_regime (regime_mask fade momentum : List Bool) : List Bool :=
  either (both regime_mask fade) (both (invert regime_mask) momentum)

/-- The state of a column that is not the VIX, with the days of high volatility. -/
def regime_state (regime_high_vol : List Bool) (close : List PyFloat) : List Bool :=
  target_state
    (by_regime regime_high_vol (below (-1) (zscore_20 sqrt close))
      (above (2 / 1000) (pct_change 5 close)))
    (by_regime regime_high_vol (above 1 (zscore_20 sqrt close))
      (below (-2 / 1000) (pct_change 5 close)))

/-- `regime_high_vol`: without a VIX column no day is one. -/
def regime_high_vol (columns : List Ticker) (rows : List Row) : List Bool :=
  rows.map (fun row =>
    decide (RegimeAdaptive.regime_ticker ∈ columns) &&
      decide (.fin 18 < row RegimeAdaptive.regime_ticker))

def regime_adaptive_adapter : Adapter := fun columns =>
  table (fun t rows =>
    if t = RegimeAdaptive.regime_ticker then rows.map (fun _ => false)
    else regime_state sqrt (regime_high_vol columns rows) (rows.map (fun row => row t))) false

/-- `risk_off`: the bonds, or else the last column. -/
def risk_off (columns : List Ticker) : List Ticker :=
  let bonds := columns.filter (fun t => Segments.starts_with t.symbol "TLT")
  if bonds = [] then columns.getLast?.toList else bonds

/-- `risk_on`: the other columns. -/
def risk_on (columns : List Ticker) : List Ticker :=
  let stocks := columns.filter (fun t => !Segments.starts_with t.symbol "TLT")
  if columns.filter (fun t => Segments.starts_with t.symbol "TLT") = [] then
    stocks.filter (fun t => columns.getLast? ≠ some t)
  else stocks

/-- The columns held on a day, from those that trend up. -/
def rotate (columns : List Ticker) (trend_up : Ticker → Bool) (t : Ticker) : Bool :=
  let use_risk_on := (risk_off columns).countP trend_up ≤ (risk_on columns).countP trend_up
  decide (t ∈ if use_risk_on then risk_on columns else risk_off columns) && trend_up t

def trend_rotate_adapter : Adapter := fun columns rows =>
  (each (fun close => gt (rolling_mean 20 close) (rolling_mean 50 close)) false rows).map
    (rotate columns)

/-- `ADAPTERS_BY_CLASSNAME`. -/
def ADAPTERS_BY_CLASSNAME : List (String × Adapter) :=
  [("VolMomentum", vol_momentum_adapter sqrt), ("MomentumStrategy", momentum_strategy_adapter),
    ("RegimeAdaptiveStrategy", regime_adaptive_adapter sqrt),
    ("TrendRotateStrategy", trend_rotate_adapter)]

/-- `_normalise_active_weights`, on a row. -/
def normalise_active_weights (columns : List Ticker) (active : Ticker → Bool) (t : Ticker) : ℚ :=
  let row_sum := columns.countP active
  if row_sum = 0 then 0 else (if active t then 1 else 0) / row_sum

/-! ### The close matrix -/

/-- A row of `historical_daily`. -/
structure DailyClose where
  ticker : Ticker
  trade_date : ℤ
  close_price : ℚ
  deriving DecidableEq, Repr

structure Day where
  date : ℤ
  close : Row

structure Matrix where
  columns : List Ticker
  days : List Day

/-- The dates that have a row, in order. -/
def trade_dates (rows : List DailyClose) : List ℤ :=
  DataFrame.sort_values id (Batches.drop_duplicates id (rows.map DailyClose.trade_date))

/-- The last price of a ticker on a date. -/
def cell (rows : List DailyClose) (date : ℤ) (t : Ticker) : PyFloat :=
  ((rows.filter (fun row => row.trade_date = date ∧ row.ticker = t)).getLast?.map
    DailyClose.close_price).elim .nan .fin

/-- `pivot_table`. -/
def pivot (rows : List DailyClose) : List Day :=
  (trade_dates rows).map (fun date => ⟨date, cell rows date⟩)

/-- `ffill` of the matrix. -/
def fill_days (days : List Day) : List Day :=
  List.zipWith (fun day close => { day with close := close }) days
    (each ffill .nan (days.map Day.close))

/-- `dropna(how="all")` keeps such a day. -/
def priced (columns : List Ticker) (day : Day) : Bool :=
  columns.any (fun t => day.close t ≠ .nan)

def selected_tickers (tickers : List Ticker) (rows : List DailyClose) : List Ticker :=
  tickers.filter (fun t => t ∈ rows.map DailyClose.ticker)

/-- `close_matrix`. Days without any price are dropped before and after the
    columns are chosen. -/
def close_matrix (tickers : List Ticker) (rows : List DailyClose) : Matrix where
  columns := selected_tickers tickers rows
  days := ((fill_days (pivot rows)).filter (priced (rows.map DailyClose.ticker))).filter
    (priced (selected_tickers tickers rows))

/-! ### The run -/

structure FastConfig where
  start_date : ℤ
  end_date : ℤ
  slippage : ℚ
  initial_capital : ℚ

def Matrix.closes (m : Matrix) : List Row := m.days.map Day.close

/-- `.replace([inf, -inf], nan).fillna(0.0)`. -/
def clean (x : PyFloat) : ℚ := (observed x).getD 0

def returns_matrix (closes : List Row) : List (Ticker → ℚ) :=
  each (fun close => (pct_change 1 close).map clean) 0 closes

def target_weights (adapter : Adapter) (columns : List Ticker) (closes : List Row) :
    List (Ticker → ℚ) :=
  (adapter columns closes).map (normalise_active_weights columns)

/-- `weights_full.shift(1).fillna(0.0)`. -/
def lagged_weights (adapter : Adapter) (columns : List Ticker) (closes : List Row) :
    List (Ticker → ℚ) :=
  shift 1 (fun _ => 0) (target_weights adapter columns closes)

/-- The rows of the requested window, `.loc[start:end]`. -/
def Matrix.window {α : Type} (m : Matrix) (start_date end_date : ℤ) (xs : List α) : List α :=
  ((m.days.zip xs).filter (fun row => start_date ≤ row.1.date ∧ row.1.date ≤ end_date)).map Prod.snd

/-- A sum over the columns of a row. -/
def row_sum (columns : List Ticker) (f : Ticker → ℚ) : ℚ := (columns.map f).sum

/-- `diff().abs().sum(axis=1)`. The first row has no difference, and the sum
    of no numbers is 0, so `fillna` finds nothing to fill. -/
def turnover (columns : List Ticker) (weights : List (Ticker → ℚ)) : List ℚ :=
  List.zipWith (fun w last => last.elim 0 (fun last => row_sum columns (fun t => |w t - last t|)))
    weights (shift 1 none (weights.map some))

def cumprod : List ℚ → List ℚ := scan (fun total r => (total * (1 + r), total * (1 + r))) 1

/-- A row of `performance_timeseries_absolute`. -/
structure PerfRow where
  timestamp : ℤ
  reference_close : PyFloat
  portfolio_value : ℚ
  pnl_pct : ℚ
  turnover : ℚ
  deriving DecidableEq, Repr

structure BenchmarkRow where
  timestamp : ℤ
  buy_and_hold_value : ℚ
  buy_and_hold_return : ℚ
  deriving DecidableEq, Repr

structure FastReport where
  performance : List PerfRow
  benchmark : List BenchmarkRow
  deriving DecidableEq, Repr

section Run

variable (cfg : FastConfig) (adapter : Adapter) (m : Matrix)

/-- The columns of the window. -/
def Matrix.weights_window : List (Ticker → ℚ) :=
  m.window cfg.start_date cfg.end_date (target_weights adapter m.columns m.closes)

def Matrix.lagged_window : List (Ticker → ℚ) :=
  m.window cfg.start_date cfg.end_date (lagged_weights adapter m.columns m.closes)

def Matrix.returns_window : List (Ticker → ℚ) :=
  m.window cfg.start_date cfg.end_date (returns_matrix m.closes)

def Matrix.days_window : List Day := m.window cfg.start_date cfg.end_date m.days

def gross_returns : List ℚ :=
  List.zipWith (fun w r => row_sum m.columns (fun t => w t * r t))
    (m.lagged_window cfg adapter) (m.returns_window cfg)

/-- The gross returns less the transaction costs. -/
def strategy_returns : List ℚ :=
  List.zipWith (fun gross turned => gross - turned * cfg.slippage) (gross_returns cfg adapter m)
    (turnover m.columns (m.weights_window cfg adapter))

/-- `returns_matrix.mean(axis=1)`. -/
def benchmark_returns : List ℚ :=
  (m.returns_window cfg).map (fun r => row_sum m.columns r / m.columns.length)

def performance : List PerfRow :=
  List.zipWith (fun day (entry : ℚ × ℚ) =>
      { timestamp := day.date
        reference_close := mean_of 1 (m.columns.map day.close)
        portfolio_value := entry.1 * cfg.initial_capital
        pnl_pct := entry.1 - 1
        turnover := entry.2 })
    (m.days_window cfg)
    ((cumprod (strategy_returns cfg adapter m)).zip
      (turnover m.columns (m.weights_window cfg adapter)))

def benchmark : List BenchmarkRow :=
  List.zipWith (fun day cum_market =>
      { timestamp := day.date
        buy_and_hold_value := cum_market * cfg.initial_capital
        buy_and_hold_return := cum_market - 1 })
    (m.days_window cfg) (cumprod (benchmark_returns cfg m))

end Run

/-- `_run_fast_vectorized`, on the rows fetched; it gives up without an
    adapter, without a price and without a day in the window. -/
def run_fast_vectorized (cfg : FastConfig) (class_name : String) (tickers : List Ticker)
    (rows : List DailyClose) : Option FastReport :=
  match (ADAPTERS_BY_CLASSNAME sqrt).lookup class_name with
  | none => none
  | some adapter =>
      if (close_matrix tickers rows).columns = [] ∨ (close_matrix tickers rows).days_window cfg = []
      then none
      else some ⟨performance cfg adapter (close_matrix tickers rows),
        benchmark cfg (close_matrix tickers rows)⟩

/-- What a run that does not give up reports. -/
theorem run_fast_vectorized_eq_some {cfg : FastConfig} {class_name : String} {tickers : List Ticker}
    {rows : List DailyClose} {report : FastReport} :
    run_fast_vectorized sqrt cfg class_name tickers rows = some report ↔
      ∃ adapter, (ADAPTERS_BY_CLASSNAME sqrt).lookup class_name = some adapter ∧
        ¬((close_matrix tickers rows).columns = [] ∨
          (close_matrix tickers rows).days_window cfg = []) ∧
        report = ⟨performance cfg adapter (close_matrix tickers rows),
          benchmark cfg (close_matrix tickers rows)⟩ := by
  unfold run_fast_vectorized
  cases (ADAPTERS_BY_CLASSNAME sqrt).lookup class_name with
  | none => simp
  | some adapter =>
    simp only [Option.some.injEq, exists_eq_left']
    by_cases h : (close_matrix tickers rows).columns = [] ∨
        (close_matrix tickers rows).days_window cfg = []
    · simp [h]
    · rw [if_neg h, Option.some.injEq]
      exact ⟨fun heq => ⟨h, heq.symm⟩, fun heq => heq.2.symm⟩

end FastMode
