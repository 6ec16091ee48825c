import BacktestVisualizer.Engine.Indicators
import BacktestVisualizer.Engine.Margin

/-! # The Event Loop of a Backtest

  `_run_event_loop` of `engine/core/runner.py`: one step per timestamp of the
  bar table from the start of the run on. A step marks the executor to the
  bars of the timestamp, lets the order manager work its child orders and,
  unless the last poll is too recent, hands the strategy the slice of the
  table that reaches back over the lookback window.

  Strategy and order manager are scripts: what they call at a timestamp, up
  to where they return or raise. A run that is cancelled or that raises stops
  after some of the timestamps.
-/

open Timeline

namespace Engine

/-! ### The setting of a run -/

/-- What the loop is given: the arguments of the executor, the declarations
    of the portfolio, and the prepared bar table. -/
structure Backtest where
  cfg : Config
  portfolio_id : String
  weights : Weights
  poll_interval : ℤ
  strategy_lookback_window : ℤ
  zone : Zone
  has_order_manager : Bool
  backtest_loop_start_date : ℤ
  /-- What `_fetch_bars` returned. -/
  frame : List Bar
  /-- `main_data_df`: `_prepare_data` sorts by timestamp, ties in any order. -/
  main_data : List Bar
  main_data_perm : main_data.Perm frame
  main_data_sorted : Sorted Bar.timestamp main_data
  indicators : List Declaration
  /-- `AddIndicator` refuses a ticker outside of the universe. -/
  indicator_tickers : ∀ d ∈ indicators, d.indicator.ticker ∈ cfg.tickers
  /-- It warms up on days before the run only. -/
  warmup_before : ∀ d ∈ indicators, ∀ row ∈ d.warmup, row.timestamp < backtest_loop_start_date

/-- What the code called by the loop does at a timestamp: the child orders
    the order manager executes, and the orders of `OnData`. -/
structure Script where
  children : ℤ → List ChildOrder
  on_data : ℤ → List Order

/-- One of `perf_records`. -/
structure PerfRecord where
  timestamp : ℤ
  position_values : List (Ticker × ℚ)
  portfolio_value : ℚ
  deriving DecidableEq, Repr

/-- The variables of the loop, with the executor and the portfolio. -/
structure LoopState where
  executor : Executor
  indicators : List Registered
  last_processed_timestamp : Option ℤ
  last_poll_time : Option ℤ
  perf_records : List PerfRecord
  final_prices : List (Ticker × ℚ)

variable (bt : Backtest) (script : Script)

/-- `loop_timestamps`. -/
def loop_timestamps : List ℤ :=
  (bt.main_data.map Bar.timestamp).dedup.filter (fun ts => bt.backtest_loop_start_date ≤ ts)

/-- `to_pydatetime()` of a timestamp of the table. -/
def sim_time (now : ℤ) : Moment where
  wall := now + bt.zone.offset_at now
  utcoffset := some (bt.zone.offset_at now)

/-- `current_data_chunk`. -/
def current_data_chunk (now : ℤ) : List Bar :=
  bt.main_data.filter (fun row => row.timestamp = now)

/-- `historical_slice_df`. -/
def historical_slice (now : ℤ) : List Bar :=
  match last_index Bar.timestamp bt.main_data now with
  | none => []
  | some end_index =>
      let start_index := searchsorted_left Bar.timestamp bt.main_data
        (now - bt.strategy_lookback_window)
      (bt.main_data.take (end_index + 1)).drop start_index

/-! ### One step -/

/-- `dict(zip(ticker, close_price))`: the last row of a ticker wins. -/
def price_updates (chunk : List Bar) : List (Ticker × Option ℚ) :=
  (chunk.map Bar.ticker).dedup.filterMap (fun t =>
    (chunk.filter (fun row => row.ticker = t)).getLast?.map (fun row => (t, row.close_price)))

/-- A price that is not NaN goes to the executor. -/
def set_mark (s : Executor) (u : Ticker × Option ℚ) : Executor :=
  match u.2 with
  | some price => update_price bt.cfg s u.1 price
  | none => s

def mark_prices (s : Executor) (chunk : List Bar) : Executor :=
  (price_updates chunk).foldl (set_mark bt) s

/-- Child orders, each at the time of the pump. What one raises ends the pump,
    which the loop logs; the script lists the orders that were reached. -/
def execute_children (s : Executor) (now : ℤ) (children : List ChildOrder) : Executor :=
  children.foldl (fun s child => (execute_child_order bt.cfg s child (some (sim_time bt now))).2) s

/-- The executor with the clock and the marks of a timestamp. -/
def marked (s : Executor) (now : ℤ) : Executor :=
  mark_prices bt { s with current_time := some (sim_time bt now) } (current_data_chunk bt now)

/-- The executor when the loop reaches the poll gate. -/
def before_poll (s : Executor) (now : ℤ) : Executor :=
  if bt.has_order_manager then execute_children bt (marked bt s now) now (script.children now)
  else marked bt s now

/-- The poll gate. -/
def due (last_poll_time : Option ℤ) (now : ℤ) : Bool :=
  match last_poll_time with
  | none => true
  | some last => decide (bt.poll_interval ≤ now - last)

/-- The `StrategyContext` of a poll. -/
def context (s : Executor) (now : ℤ) : StrategyContext where
  portfolio_id := bt.portfolio_id
  tickers := bt.cfg.tickers
  weights := bt.weights
  market := market_data (historical_slice bt now) now
  total_value := .fin (get_port_notional bt.cfg s)
  time := sim_time bt now
  has_order_manager := bt.has_order_manager

/-- `generate_signals_and_trade`. -/
def generate_signals_and_trade (st : LoopState) (now : ℤ) : LoopState :=
  { st with
    indicators :=
      update_indicators st.last_processed_timestamp (historical_slice bt now) st.indicators
    last_processed_timestamp := some now
    executor := issue_all bt.cfg (context bt st.executor now) st.executor (script.on_data now) }

/-- `_record_performance`. -/
def record_performance (st : LoopState) (timestamp : ℤ) : LoopState :=
  { st with
    perf_records := st.perf_records ++ [
      { timestamp := timestamp
        position_values := bt.cfg.tickers.map (fun t =>
          (t, st.executor.positions t * st.executor.latest_prices t))
        portfolio_value := get_port_notional bt.cfg st.executor }]
    final_prices := (bt.cfg.tickers.map (fun t => (t, st.executor.latest_prices t))).filter
      (fun p => 0 < p.2) }

/-- A poll: the strategy trades on the slice, and the result is recorded. -/
def poll (st : LoopState) (now : ℤ) : LoopState :=
  let st := { st with last_poll_time := some now }
  let st := if historical_slice bt now = [] then st else generate_signals_and_trade bt script st now
  record_performance bt st now

/-- The loop body. -/
def loop_step (st : LoopState) (now : ℤ) : LoopState :=
  let st := { st with executor := before_poll bt script st.executor now }
  if due bt st.last_poll_time now then poll bt script st now else st

/-- The state the loop starts from. -/
def LoopState.init : LoopState where
  executor := Executor.init bt.cfg
  indicators := bt.indicators.map add_indicator
  last_processed_timestamp := none
  last_poll_time := none
  perf_records := []
  final_prices := []

/-- The loop over some of the timestamps. -/
def run_event_loop (timestamps : List ℤ) : LoopState :=
  timestamps.foldl (loop_step bt script) (LoopState.init bt)

@[simp] theorem run_event_loop_nil : run_event_loop bt script [] = LoopState.init bt := rfl

theorem run_event_loop_snoc (timestamps : List ℤ) (now : ℤ) :
    run_event_loop bt script (timestamps ++ [now]) =
      loop_step bt script (run_event_loop bt script timestamps) now := by
  simp [run_event_loop, List.foldl_append]

/-- The end of the loop: a record of the last bar, unless that was polled. -/
def close_curve (st : LoopState) : LoopState :=
  match (loop_timestamps bt).getLast?, st.perf_records.getLast? with
  | some last_timestamp, some last_record =>
      if last_record.timestamp ≠ last_timestamp then record_performance bt st last_timestamp
      else st
  | _, _ => st

/-! ### Timestamps and slices -/

theorem mem_loop_timestamps {ts : ℤ} :
    ts ∈ loop_timestamps bt ↔
      (∃ row ∈ bt.main_data, row.timestamp = ts) ∧ bt.backtest_loop_start_date ≤ ts := by
  simp [loop_timestamps, List.mem_filter, List.mem_dedup, List.mem_map]

theorem loop_timestamps_sorted : (loop_timestamps bt).Pairwise (· < ·) :=
  (dedup_keys_sorted bt.main_data_sorted).filter _

/-- A timestamp of the loop has a bar. -/
theorem exists_bar {before : List ℤ} {now : ℤ} (hrun : before ++ [now] <+: loop_timestamps bt) :
    (∃ row ∈ bt.main_data, row.timestamp = now) ∧ bt.backtest_loop_start_date ≤ now :=
  (mem_loop_timestamps bt).mp (hrun.subset (by simp))

/-- The timestamps before `now`. -/
theorem mem_before {before : List ℤ} {now : ℤ} (hrun : before ++ [now] <+: loop_timestamps bt)
    {row : Bar} (hrow : row ∈ bt.main_data) :
    row.timestamp ∈ before ↔ bt.backtest_loop_start_date ≤ row.timestamp ∧ row.timestamp < now := by
  constructor
  · intro h
    have hin : row.timestamp ∈ loop_timestamps bt := hrun.subset (List.mem_append_left _ h)
    exact ⟨((mem_loop_timestamps bt).mp hin).2,
      (mem_before_iff (loop_timestamps_sorted bt) hrun hin).mp h⟩
  · intro h
    have hin : row.timestamp ∈ loop_timestamps bt :=
      (mem_loop_timestamps bt).mpr ⟨⟨row, hrow, rfl⟩, h.1⟩
    exact (mem_before_iff (loop_timestamps_sorted bt) hrun hin).mpr h.2

/-- **The slice** of a poll holds the bars of the lookback window. -/
theorem historical_slice_eq {now : ℤ} (hnow : ∃ row ∈ bt.main_data, row.timestamp = now) :
    historical_slice bt now = bt.main_data.filter (fun row =>
      now - bt.strategy_lookback_window ≤ row.timestamp ∧ row.timestamp ≤ now) := by
  obtain ⟨row, hrow, rfl⟩ := hnow
  obtain ⟨n, hn⟩ : ∃ n, last_index Bar.timestamp bt.main_data row.timestamp = some n :=
    exists_last_index hrow
  unfold historical_slice
  rw [hn]
  exact slice_eq_filter bt.main_data_sorted hn

theorem historical_slice_sorted {now : ℤ} (hnow : ∃ row ∈ bt.main_data, row.timestamp = now) :
    Sorted Bar.timestamp (historical_slice bt now) := by
  rw [historical_slice_eq bt hnow]
  exact bt.main_data_sorted.filter _

/-- A poll has bars to trade on. -/
theorem historical_slice_nonempty (hlook : 0 ≤ bt.strategy_lookback_window) {now : ℤ}
    (hnow : ∃ row ∈ bt.main_data, row.timestamp = now) : historical_slice bt now ≠ [] := by
  rw [historical_slice_eq bt hnow]
  obtain ⟨row, hrow, rfl⟩ := hnow
  apply List.ne_nil_of_mem (a := row)
  simp only [List.mem_filter, decide_eq_true_eq]
  exact ⟨hrow, by omega, le_refl _⟩

/-- The timestamps before one of the loop are smaller. -/
theorem before_lt {before : List ℤ} {now : ℤ} (hrun : before ++ [now] <+: loop_timestamps bt) :
    ∀ ts ∈ before, ts < now := by
  intro ts hts
  have hin : ts ∈ loop_timestamps bt := hrun.subset (List.mem_append_left _ hts)
  exact (mem_before_iff (loop_timestamps_sorted bt) hrun hin).mp hts

/-! ### Polls -/

/-- The timestamps at which the poll gate is open. -/
def poll_times (timestamps : List ℤ) : List ℤ :=
  timestamps.foldl (fun polls now => if due bt polls.getLast? now then polls ++ [now] else polls)
    []

@[simp] theorem poll_times_nil : poll_times bt [] = [] := rfl

theorem poll_times_snoc (timestamps : List ℤ) (now : ℤ) :
    poll_times bt (timestamps ++ [now]) =
      if due bt (poll_times bt timestamps).getLast? now then poll_times bt timestamps ++ [now]
      else poll_times bt timestamps := by
  unfold poll_times
  rw [List.foldl_append]
  rfl

theorem poll_times_sublist (timestamps : List ℤ) :
    (poll_times bt timestamps).Sublist timestamps := by
  induction timestamps using List.reverseRecOn with
  | nil => exact List.Sublist.refl _
  | append_singleton timestamps now ih =>
    rw [poll_times_snoc]
    split
    · exact ih.append (List.Sublist.refl _)
    · exact ih.trans (List.sublist_append_left _ _)

/-- The first timestamp is polled. -/
theorem poll_times_eq_nil {timestamps : List ℤ} (h : poll_times bt timestamps = []) :
    timestamps = [] := by
  induction timestamps using List.reverseRecOn with
  | nil => rfl
  | append_singleton timestamps now ih =>
    rw [poll_times_snoc] at h
    split at h
    · exact absurd h (by simp)
    · rename_i hdue
      rw [h] at hdue
      exact absurd rfl hdue

/-- The loop remembers its last poll. -/
theorem last_poll_time_run (timestamps : List ℤ) :
    (run_event_loop bt script timestamps).last_poll_time =
      (poll_times bt timestamps).getLast? := by
  induction timestamps using List.reverseRecOn with
  | nil => rfl
  | append_singleton timestamps now ih =>
    rw [run_event_loop_snoc, poll_times_snoc, ← ih]
    unfold loop_step
    simp only
    split
    · unfold poll record_performance
      simp only
      split <;> simp [generate_signals_and_trade]
    · exact ih

/-- One record of the performance is taken at every poll. -/
theorem perf_records_run (timestamps : List ℤ) :
    (run_event_loop bt script timestamps).perf_records.map PerfRecord.timestamp =
      poll_times bt timestamps := by
  induction timestamps using List.reverseRecOn with
  | nil => rfl
  | append_singleton timestamps now ih =>
    rw [run_event_loop_snoc, poll_times_snoc, ← last_poll_time_run bt script]
    unfold loop_step
    simp only
    split
    · unfold poll record_performance
      simp only
      split <;> simp [generate_signals_and_trade, ih]
    · exact ih

/-! ### Flat bars -/

/-- A bar whose prices are all the same. -/
def bar_at (timestamp : ℤ) (ticker : Ticker) (close : Option ℚ) : Bar where
  timestamp := timestamp
  ticker := ticker
  open_price := close
  high_price := close
  low_price := close
  close_price := close
  volume := some 100

end Engine
