import BacktestVisualizer.Engine.StrategyContext
import BacktestVisualizer.Framework.Timeline

/-! # The Indicators of a Portfolio

  `engine/strategies/portfolio_BASE/strategy.py`: an indicator is fed bar by
  bar, by `AddIndicator` from the days before the run and then by
  `generate_signals_and_trade` at every poll. The model records the `Update`
  calls; what an indicator makes of them is left out.
-/

open Timeline

namespace Engine

/-! ### Update calls -/

/-- The columns an indicator may name; `missing` is a column no bar has. -/
inductive Column where
  | open_price
  | high_price
  | low_price
  | close_price
  | volume
  | missing (name : String)
  deriving DecidableEq, Repr

/-- `getattr(row, column)`, if the row has the column. -/
def Bar.cell (row : Bar) : Column → Option (Option ℚ)
  | .open_price => some row.open_price
  | .high_price => some row.high_price
  | .low_price => some row.low_price
  | .close_price => some row.close_price
  | .volume => some row.volume
  | .missing _ => none

/-- The attributes of an `Indicator` that the portfolio reads. -/
structure Indicator where
  ticker : Ticker
  price_col : Option Column
  vol_col : Option Column
  high_col : Option Column
  low_col : Option Column
  close_col : Option Column
  /-- `Update` takes more than a timestamp and a data point. -/
  takes_columns : Bool
  deriving DecidableEq, Repr

/-- The column of its data points. -/
def Indicator.data_col (indicator : Indicator) : Column :=
  (indicator.price_col.or indicator.close_col).getD .close_price

/-- One `Update` call, with the keyword arguments in the order they were
    assigned. -/
structure Update where
  timestamp : ℤ
  data_point : ℚ
  columns : List (Column × ℚ)
  deriving DecidableEq, Repr

/-- The value of a column an indicator may have named. -/
def named_value (row : Bar) (col : Option Column) : List (Column × ℚ) :=
  match col with
  | none => []
  | some col_name =>
      match row.cell col_name with
      | some (some value) => [(col_name, value)]
      | _ => []

/-- The price of a row, for an indicator: its data column, if that is there
    and not NaN. -/
def Indicator.price (indicator : Indicator) (row : Bar) : Option ℚ :=
  (row.cell indicator.data_col).join

/-- `_build_indicator_update_payload`. -/
def build_indicator_update_payload (indicator : Indicator) (row : Bar) :
    Option (Column × ℚ × List (Column × ℚ)) :=
  match indicator.price row with
  | none => none
  | some price_value =>
      let volume := named_value row indicator.vol_col
      -- a normalized alias for indicators that read `volume` directly
      let normalized := volume.map (fun v => (Column.volume, v.2))
      let others := [indicator.high_col, indicator.low_col, indicator.close_col].flatMap
        (named_value row)
      some (indicator.data_col, price_value, volume ++ normalized ++ others)

/-- The call `_update_indicator_from_row` makes, if it makes one: without
    keyword arguments when `Update` does not take any. -/
def update_from_row (indicator : Indicator) (row : Bar) : Option Update :=
  (build_indicator_update_payload indicator row).map (fun (_, price_value, update_kwargs) =>
    { timestamp := row.timestamp, data_point := price_value,
      columns := if indicator.takes_columns then update_kwargs else [] })

theorem update_from_row_eq_some {indicator : Indicator} {row : Bar} {u : Update}
    (h : update_from_row indicator row = some u) :
    u.timestamp = row.timestamp ∧ indicator.price row = some u.data_point := by
  unfold update_from_row build_indicator_update_payload at h
  cases hprice : indicator.price row with
  | none => simp [hprice] at h
  | some price_value =>
    simp only [hprice, Option.map_some, Option.some.injEq] at h
    subst h
    exact ⟨rfl, rfl⟩

/-- A row makes an `Update` call exactly when it has a price. -/
theorem exists_update_iff {indicator : Indicator} {row : Bar} :
    (∃ u, update_from_row indicator row = some u) ↔ ∃ q, indicator.price row = some q := by
  unfold update_from_row build_indicator_update_payload
  cases indicator.price row <;> simp

/-! ### AddIndicator -/

/-- An indicator of a class's declarations: the instance, the columns among
    its keyword arguments, and the rows its warm-up reads. -/
structure Declaration where
  indicator : Indicator
  kwargs_price_col : Option Column
  kwargs_close_col : Option Column
  warmup : List Bar
  deriving DecidableEq, Repr

/-- A registered indicator, with the calls made so far. -/
structure Registered where
  declaration : Declaration
  fed : List Update
  deriving DecidableEq, Repr

/-- The instance. -/
def Registered.indicator (st : Registered) : Indicator := st.declaration.indicator

/-- `_update_indicator_from_row`. -/
def update_indicator_from_row (st : Registered) (row : Bar) : Registered :=
  { st with fed := st.fed ++ (update_from_row st.indicator row).toList }

/-- `sort_values("timestamp")`. -/
def sort_bars (df : List Bar) : List Bar :=
  df.insertionSort (fun a b => a.timestamp ≤ b.timestamp)

/-- The rows of the warm-up after `dropna`: only rows with a NaN in the price
    column of the keyword arguments go. -/
def warmup_rows (d : Declaration) : List Bar :=
  let price_col := (d.kwargs_price_col.or d.kwargs_close_col).getD .close_price
  sort_bars (d.warmup.filter (fun row => row.cell price_col ≠ some none))

/-- `AddIndicator`, for a ticker of the universe. -/
def add_indicator (d : Declaration) : Registered :=
  (warmup_rows d).foldl update_indicator_from_row { declaration := d, fed := [] }

/-! ### New bars -/

/-- The last value of a column that is not NaN. -/
def last_value (group : List Bar) (column : Bar → Option ℚ) : Option ℚ :=
  (group.filterMap column).getLast?

/-- `.last()` of a group: the last value of every column, each taken on its
    own. -/
def last_of_group (group : List Bar) : Option Bar :=
  group.getLast?.map (fun row =>
    { timestamp := row.timestamp, ticker := row.ticker
      open_price := last_value group Bar.open_price
      high_price := last_value group Bar.high_price
      low_price := last_value group Bar.low_price
      close_price := last_value group Bar.close_price
      volume := last_value group Bar.volume })

/-- `new_data`: the bars after the last update, or on the first run one row
    per ticker. -/
def new_data (last_processed_timestamp : Option ℤ) (market_data_df : List Bar) : List Bar :=
  match last_processed_timestamp with
  | some last => market_data_df.filter (fun row => last < row.timestamp)
  | none =>
      let df := sort_bars market_data_df
      (df.map Bar.ticker).dedup.filterMap (fun t =>
        last_of_group (df.filter (fun row => row.ticker = t)))

/-- One row, for an indicator. -/
def feed_row (st : Registered) (row : Bar) : Registered :=
  if st.indicator.ticker = row.ticker then update_indicator_from_row st row else st

/-- The first half of `generate_signals_and_trade`. -/
def update_indicators (last_processed_timestamp : Option ℤ) (market_data_df : List Bar)
    (indicators : List Registered) : List Registered :=
  (sort_bars (new_data last_processed_timestamp market_data_df)).foldl
    (fun indicators row => indicators.map (fun st => feed_row st row)) indicators

/-! ### One indicator at a time -/

theorem sort_bars_eq {df : List Bar} (h : Sorted Bar.timestamp df) : sort_bars df = df :=
  List.Pairwise.insertionSort_eq h

@[simp] theorem update_indicator_from_row_indicator (st : Registered) (row : Bar) :
    (update_indicator_from_row st row).indicator = st.indicator := rfl

/-- The calls rows make, one after the other. -/
theorem foldl_update (st : Registered) (rows : List Bar) :
    rows.foldl update_indicator_from_row st =
      { st with fed := st.fed ++ rows.filterMap (update_from_row st.indicator) } := by
  induction rows generalizing st with
  | nil => simp
  | cons row rows ih =>
    rw [List.foldl_cons, ih, update_indicator_from_row_indicator]
    unfold update_indicator_from_row
    cases hrow : update_from_row st.indicator row <;> simp [hrow]

/-- The calls the rows of a frame make for an indicator. -/
def updates (indicator : Indicator) (rows : List Bar) : List Update :=
  (rows.filter (fun row => row.ticker = indicator.ticker)).filterMap (update_from_row indicator)

theorem foldl_feed_row (st : Registered) (rows : List Bar) :
    rows.foldl feed_row st = { st with fed := st.fed ++ updates st.indicator rows } := by
  have hskip : rows.foldl feed_row st =
      (rows.filter (fun row => row.ticker = st.indicator.ticker)).foldl
        update_indicator_from_row st := by
    induction rows generalizing st with
    | nil => rfl
    | cons row rows ih =>
      rw [List.foldl_cons, ih]
      unfold feed_row
      by_cases ht : row.ticker = st.indicator.ticker
      · rw [if_pos ht.symm, List.filter_cons_of_pos (by simpa using ht), List.foldl_cons,
          update_indicator_from_row_indicator]
      · rw [if_neg (fun h => ht h.symm), List.filter_cons_of_neg (by simpa using ht)]
  rw [hskip, foldl_update]
  rfl

/-- Every indicator is fed on its own. -/
theorem update_indicators_eq (last : Option ℤ) (df : List Bar) (indicators : List Registered) :
    update_indicators last df indicators = indicators.map (fun st =>
      { st with fed := st.fed ++ updates st.indicator (sort_bars (new_data last df)) }) := by
  unfold update_indicators
  generalize sort_bars (new_data last df) = rows
  have hswap : rows.foldl (fun indicators row => indicators.map (fun st => feed_row st row))
      indicators = indicators.map (fun st => rows.foldl feed_row st) := by
    induction rows generalizing indicators with
    | nil => simp
    | cons row rows ih =>
      rw [List.foldl_cons, ih, List.map_map]
      rfl
  rw [hswap]
  apply List.map_congr_left
  intro st _
  exact foldl_feed_row st rows

end Engine
