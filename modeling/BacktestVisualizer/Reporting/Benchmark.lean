import BacktestVisualizer.Engine.Values
import BacktestVisualizer.Framework.Batches
import BacktestVisualizer.Framework.DataFrame

/-! # The Buy-and-Hold Benchmark

  `engine/analytics/reporting.py`: the weights of the configured universe,
  and the value of holding them from each ticker's first valid close in the
  window. The code adds up changes of each holding's profit, row by row;
  `benchmark_is_definition` says that the totals are the values of the
  holdings. Prices and capital are floats without rounding.
-/

open Timeline DataFrame

namespace Reporting

/-! ### Market time -/

/-- `America/New_York`: the UTC offset at an instant, and the instant of a
    naive wall clock reading, when there is exactly one. Clocks go back at
    two in the morning, so a later instant never has an earlier date. -/
structure MarketZone where
  offset_at : ℤ → ℤ
  localize : ℤ → Option ℤ
  dates_in_order : ∀ a b, a ≤ b → (a + offset_at a) / day_us ≤ (b + offset_at b) / day_us

/-- The exchange date of an instant, as the number of the day. -/
def MarketZone.date (zone : MarketZone) (instant : ℤ) : ℤ :=
  (instant + zone.offset_at instant) / day_us

/-- `market_timestamp`, as an instant; `none` where the code raises. A value
    that is no timestamp is `none` too. -/
def market_timestamp (zone : MarketZone) (value : Option Moment) : Option ℤ :=
  match value with
  | none => none
  | some m =>
      match m.utcoffset with
      | none => zone.localize m.wall
      | some offset => some (m.wall - offset)

/-- `market_timestamps`: a cell that is no timestamp is NaT. -/
def market_timestamps (zone : MarketZone) (values : List (Option Moment)) : List (Option ℤ) :=
  values.map (market_timestamp zone)

/-- `pd.to_numeric(errors="coerce")` of a cell; `none` is a cell that is no
    number. -/
def to_numeric (cell : Option PyFloat) : PyFloat := cell.getD .nan

/-! ### Dictionaries -/

/-- A dictionary with text keys, in the order of insertion. -/
structure PyDict (β : Type) where
  items : List (String × β)
  distinct : (items.map Prod.fst).Nodup

namespace PyDict

variable {β γ : Type}

def keys (d : PyDict β) : List String := d.items.map Prod.fst

def get (d : PyDict β) (key : String) : Option β :=
  (d.items.find? (fun item => item.1 = key)).map Prod.snd

def map (f : β → γ) (d : PyDict β) : PyDict γ where
  items := d.items.map (fun item => (item.1, f item.2))
  distinct := by
    rw [List.map_map]
    exact d.distinct

/-- `{key: f(key) for key in keys}`. -/
def from_keys (keys : List String) (h : keys.Nodup) (f : String → β) : PyDict β where
  items := keys.map (fun key => (key, f key))
  distinct := by
    rw [List.map_map]
    exact (List.map_id keys).symm ▸ h

@[simp] theorem keys_map (f : β → γ) (d : PyDict β) : (d.map f).keys = d.keys := by
  unfold keys map
  rw [List.map_map]
  rfl

theorem get_of_mem {d : PyDict β} {item : String × β} (h : item ∈ d.items) :
    d.get item.1 = some item.2 := by
  unfold get
  cases hfind : d.items.find? (fun i => i.1 = item.1) with
  | none => exact absurd (List.find?_eq_none.mp hfind item h) (by simp)
  | some found =>
    have hkey : found.1 = item.1 := by simpa using List.find?_some hfind
    have hsame := List.inj_on_of_nodup_map d.distinct (List.mem_of_find?_eq_some hfind) h hkey
    rw [hsame]
    rfl

end PyDict

/-! ### `benchmark_weights` -/

/-- What the benchmark raises. -/
inductive BenchmarkError where
  | initial_capital
  | weights_shape
  | weights_value
  | window
  deriving DecidableEq, Repr

def BenchmarkError.message : BenchmarkError → String
  | .initial_capital => "Benchmark initial capital must be finite and positive."
  | .weights_shape => "Benchmark WEIGHTS must be a mapping or one weight per ticker."
  | .weights_value => "Benchmark WEIGHTS must contain finite nonnegative numbers."
  | .window => "Benchmark window requires a valid timestamp."

/-- A configured `WEIGHTS`; a weight that `float` refuses is `none`. -/
inductive RawWeights where
  | absent
  | mapping (weights : PyDict (Option PyFloat))
  | sequence (weights : List (Option PyFloat))
  | other

/-- A finite weight of at least 0. -/
def weight_value : Option PyFloat → Option ℚ
  | some (.fin w) => if 0 ≤ w then some w else none
  | _ => none

/-- The weights of a mapping, when each is one. -/
def read_weights (raw : PyDict (Option PyFloat)) : Except BenchmarkError (PyDict ℚ) :=
  if ∀ item ∈ raw.items, (weight_value item.2).isSome then
    .ok (raw.map (fun w => (weight_value w).getD 0))
  else .error .weights_value

/-- `list(dict.fromkeys(tickers))`. -/
def universe_of (tickers : List String) : List String :=
  Batches.drop_duplicates (fun ticker => ticker) tickers

theorem universe_of_nodup (tickers : List String) : (universe_of tickers).Nodup :=
  Batches.drop_duplicates_nodup _

/-- The universe of `benchmark_weights`: the tickers, or the keys of a mapping
    when none are given. -/
def benchmark_universe (portfolio_weights : RawWeights) (tickers : Option (List String)) :
    List String :=
  match tickers, portfolio_weights with
  | some tickers, _ => universe_of tickers
  | none, .mapping weights => universe_of weights.keys
  | none, _ => []

theorem benchmark_universe_nodup (portfolio_weights : RawWeights)
    (tickers : Option (List String)) :
    (benchmark_universe portfolio_weights tickers).Nodup := by
  unfold benchmark_universe
  split
  · exact universe_of_nodup _
  · exact universe_of_nodup _
  · exact List.nodup_nil

/-- `benchmark_weights`. -/
def benchmark_weights (portfolio_weights : RawWeights) (tickers : Option (List String)) :
    Except BenchmarkError (PyDict ℚ) :=
  let keys := benchmark_universe portfolio_weights tickers
  let distinct := benchmark_universe_nodup portfolio_weights tickers
  if keys = [] then .ok ⟨[], List.nodup_nil⟩
  else
    match portfolio_weights with
    | .absent => .ok (.from_keys keys distinct (fun _ => 1 / keys.length))
    | .mapping weights =>
        read_weights (.from_keys keys distinct
          (fun key => (weights.get key).getD (some (.fin 0))))
    | .sequence weights =>
        if hlen : keys.length = weights.length then
          read_weights ⟨keys.zip weights, by rwa [List.map_fst_zip (le_of_eq hlen)]⟩
        else .error .weights_shape
    | .other => .error .weights_shape

/-- The weights as floats again. -/
def as_floats (weights : PyDict ℚ) : PyDict (Option PyFloat) := weights.map (fun w => some (.fin w))

/-! ### `_generate_buy_and_hold_benchmark` -/

/-- A row of the historical data. -/
structure PriceRow where
  timestamp : Option Moment
  ticker : String
  close_price : Option PyFloat
  deriving DecidableEq, Repr

/-- A row whose timestamp and close are valid. -/
structure Quote where
  timestamp : ℤ
  ticker : String
  close_price : ℚ
  deriving DecidableEq, Repr

/-- The validity mask of the price rows. -/
def valid_quote (zone : MarketZone) (weights : PyDict ℚ) (row : PriceRow) : Option Quote :=
  match market_timestamp zone row.timestamp, to_numeric row.close_price with
  | some timestamp, .fin close_price =>
      if row.ticker ∈ weights.keys ∧ 0 < close_price then
        some ⟨timestamp, row.ticker, close_price⟩
      else none
  | _, _ => none

/-- A cutoff of the window, when one is given. -/
def window_cutoff (zone : MarketZone) (value : Option (Option Moment)) :
    Except BenchmarkError (Option ℤ) :=
  match value with
  | none => .ok none
  | some value =>
      match market_timestamp zone value with
      | none => .error .window
      | some cutoff => .ok (some cutoff)

/-- A window; a side without a cutoff is open. -/
structure ReportWindow where
  first : Option ℤ
  last : Option ℤ

def ReportWindow.contains (window : ReportWindow) (t : ℤ) : Bool :=
  window.first.all (· ≤ t) && window.last.all (t ≤ ·)

/-- The valid rows of the window, in input order. -/
def quotes_of (zone : MarketZone) (weights : PyDict ℚ) (window : ReportWindow)
    (table : List PriceRow) : List Quote :=
  (table.filterMap (valid_quote zone weights)).filter (fun q => window.contains q.timestamp)

/-- The sorted frame without duplicates. -/
def benchmark_frame (quotes : List Quote) : List Quote :=
  keep_last (fun q => (q.timestamp, q.ticker)) (sort_values Quote.timestamp quotes)

section Valuation

variable (initial_capital : ℚ) (weights : PyDict ℚ) (frame : List Quote)

/-- `groupby("ticker")["close_price"].transform("first")`. -/
def first_price (ticker : String) : ℚ :=
  ((frame.find? (fun q => q.ticker = ticker)).map Quote.close_price).getD 0

/-- The `pnl` column. -/
def pnl (q : Quote) : ℚ :=
  initial_capital * (weights.get q.ticker).getD 0 *
    (q.close_price / first_price frame q.ticker - 1)

/-- The rows with their `change` column. -/
def changes : List (Quote × ℚ) :=
  group_diff Quote.ticker (pnl initial_capital weights frame) [] frame

/-- The timestamps of the frame, which is sorted, each once. -/
def observed_times : List ℤ := (frame.map Quote.timestamp).dedup

/-- `groupby("timestamp")["change"].sum()` at a timestamp. -/
def change_at (t : ℤ) : ℚ :=
  (((changes initial_capital weights frame).filter (fun c => c.1.timestamp = t)).map Prod.snd).sum

/-- The `values` series. -/
def benchmark_values : List ℚ :=
  (cumsum 0 ((observed_times frame).map (change_at initial_capital weights frame))).map
    (initial_capital + ·)

end Valuation

/-- A row of the benchmark frame. -/
structure BenchmarkRow where
  timestamp : ℤ
  buy_and_hold_value : ℚ
  buy_and_hold_return : ℚ
  deriving DecidableEq, Repr

/-- The part of the frame's `report_metadata` that depends on the run. -/
structure BenchmarkMetadata where
  weights : PyDict ℚ
  initial_value : ℚ
  cash_weight : ℚ
  first_observation : Option ℤ
  last_observation : Option ℤ
  entry_timestamps : List (String × ℤ)
  missing_tickers : List String
  delayed_tickers : List String
  complete : Bool
  observed_price_rows : ℕ

/-- When a ticker is first held. -/
def entry_of (frame : List Quote) (ticker : String) : Option ℤ :=
  (frame.find? (fun q => q.ticker = ticker)).map Quote.timestamp

/-- `report_metadata`. -/
def benchmark_metadata (initial_capital : ℚ) (weights : PyDict ℚ) (frame : List Quote) :
    BenchmarkMetadata :=
  let held := (weights.items.filter (fun item => item.2 ≠ 0)).map Prod.fst
  let missing := held.filter (fun ticker => (entry_of frame ticker).isNone)
  let delayed := held.filter (fun ticker =>
    (entry_of frame ticker).any (fun entry => (frame.head?.map Quote.timestamp).any (· < entry)))
  { weights := weights
    initial_value := initial_capital
    cash_weight := 1 - (weights.items.map Prod.snd).sum
    first_observation := frame.head?.map Quote.timestamp
    last_observation := frame.getLast?.map Quote.timestamp
    entry_timestamps := held.filterMap (fun ticker =>
      (entry_of frame ticker).map (fun entry => (ticker, entry)))
    missing_tickers := missing
    delayed_tickers := delayed
    complete := missing.isEmpty && delayed.isEmpty
    observed_price_rows := frame.length }

/-- A benchmark frame; an empty one has no metadata. -/
structure BenchmarkFrame where
  rows : List BenchmarkRow
  metadata : Option BenchmarkMetadata

/-- `_generate_buy_and_hold_benchmark`. -/
def generate_buy_and_hold_benchmark (zone : MarketZone) (full_historical_data : List PriceRow)
    (initial_capital : PyFloat) (portfolio_weights : PyDict (Option PyFloat))
    (start stop : Option (Option Moment)) : Except BenchmarkError BenchmarkFrame :=
  if full_historical_data = [] then .ok ⟨[], none⟩
  else
    match initial_capital with
    | .fin capital => do
        if capital ≤ 0 then throw .initial_capital
        let weights ← benchmark_weights (.mapping portfolio_weights) (some portfolio_weights.keys)
        let first ← window_cutoff zone start
        let last ← window_cutoff zone stop
        let frame := benchmark_frame (quotes_of zone weights ⟨first, last⟩ full_historical_data)
        if frame = [] then return ⟨[], none⟩
        let rows := List.zipWith (fun t value => (⟨t, value, value / capital - 1⟩ : BenchmarkRow))
          (observed_times frame) (benchmark_values capital weights frame)
        return ⟨rows, some (benchmark_metadata capital weights frame)⟩
    | _ => .error .initial_capital

/-! ### The definition of the benchmark -/

/-- The valid closes of a ticker in the window. -/
def closes (quotes : List Quote) (ticker : String) : List Quote :=
  quotes.filter (fun q => q.ticker = ticker)

/-- The first close; of rows at one timestamp the last one counts. -/
def first_close (rows : List Quote) : Option Quote :=
  (rows.map Quote.timestamp).min?.bind (last_at Quote.timestamp rows)

/-- The last close at or before a timestamp. -/
def last_close (rows : List Quote) (t : ℤ) : Option Quote :=
  ((rows.map Quote.timestamp).filter (· ≤ t)).max?.bind (last_at Quote.timestamp rows)

/-- What a holding bought at the first close has gained by a timestamp. -/
def holding_profit (initial_capital weight : ℚ) (rows : List Quote) (t : ℤ) : ℚ :=
  match first_close rows, last_close rows t with
  | some first, some last =>
      initial_capital * weight * (last.close_price / first.close_price - 1)
  | _, _ => 0

/-- The value of the benchmark at a timestamp, by definition. -/
def buy_and_hold_value (initial_capital : ℚ) (weights : PyDict ℚ) (quotes : List Quote) (t : ℤ) :
    ℚ :=
  initial_capital + (weights.items.map (fun item =>
    holding_profit initial_capital item.2 (closes quotes item.1) t)).sum

/-! ### The frame, one ticker at a time -/

variable {quotes : List Quote}

theorem benchmark_frame_sorted : Sorted Quote.timestamp (benchmark_frame quotes) :=
  (sort_values_sorted Quote.timestamp quotes).sublist (keep_last_sublist _ _)

theorem mem_of_mem_frame {q : Quote} (hq : q ∈ benchmark_frame quotes) : q ∈ quotes :=
  (mem_sort_values Quote.timestamp).mp ((keep_last_sublist _ _).subset hq)

/-- The rows of a ticker in the frame: its closes, one a timestamp. -/
theorem frame_marks (ticker : String) :
    Marks Quote.timestamp (closes quotes ticker)
      ((benchmark_frame quotes).filter (fun q => q.ticker = ticker)) := by
  have hfilter : (benchmark_frame quotes).filter (fun q => q.ticker = ticker) =
      keep_last Quote.timestamp (sort_values Quote.timestamp (closes quotes ticker)) := by
    unfold benchmark_frame closes
    rw [filter_keep_last (fun q : Quote => (q.timestamp, q.ticker))
      (fun i => decide (i.2 = ticker)), filter_sort_values]
    apply keep_last_congr
    intro a ha b hb
    -- rows of one ticker differ in their timestamps only
    have hsame : ∀ c ∈ sort_values Quote.timestamp (quotes.filter (fun q => q.ticker = ticker)),
        c.ticker = ticker := by
      intro c hc
      simpa using (List.mem_filter.mp ((mem_sort_values Quote.timestamp).mp hc)).2
    simp [hsame a ha, hsame b hb]
  rw [hfilter]
  exact marks_keep_last _

theorem first_price_eq {ticker : String} {first : Quote}
    (hfirst : ((benchmark_frame quotes).filter (fun q => q.ticker = ticker)).head? = some first) :
    first_price (benchmark_frame quotes) ticker = first.close_price := by
  unfold first_price
  rw [← List.head?_filter, hfirst]
  rfl

/-! ### Changes add up -/

variable {initial_capital : ℚ} {weights : PyDict ℚ}

/-- The differences up to a timestamp are those of the rows up to it. -/
theorem group_diff_until (value : Quote → ℚ) {rows : List Quote}
    (hrows : Sorted Quote.timestamp rows) (t : ℤ) :
    (group_diff Quote.ticker value [] rows).filter (fun c => c.1.timestamp ≤ t) =
      group_diff Quote.ticker value [] (rows.filter (fun q => q.timestamp ≤ t)) := by
  have hrest : ∀ seen l, (∀ q ∈ l, (q : Quote).timestamp ≤ t) →
      (group_diff Quote.ticker value seen l).filter (fun c => c.1.timestamp ≤ t) =
        group_diff Quote.ticker value seen l := by
    intro seen l hl
    apply List.filter_eq_self.mpr
    intro c hc
    have hmem : c.1 ∈ l := by
      rw [← group_diff_rows Quote.ticker value seen l]
      exact List.mem_map_of_mem hc
    simpa using hl c.1 hmem
  have hlate : ∀ seen l, (∀ q ∈ l, t < (q : Quote).timestamp) →
      (group_diff Quote.ticker value seen l).filter (fun c => c.1.timestamp ≤ t) = [] := by
    intro seen l hl
    apply List.filter_eq_nil_iff.mpr
    intro c hc
    have hmem : c.1 ∈ l := by
      rw [← group_diff_rows Quote.ticker value seen l]
      exact List.mem_map_of_mem hc
    simpa using hl c.1 hmem
  have hcut := filter_le_append_filter_lt hrows t
  conv_lhs => rw [← hcut]
  rw [group_diff_append, List.filter_append, hrest, hlate, List.append_nil]
  · intro q hq
    simpa using (List.mem_filter.mp hq).2
  · intro q hq
    simpa using (List.mem_filter.mp hq).2

/-- The changes of a ticker up to a timestamp add up to the profit of its
    holding. -/
theorem sum_changes_of_ticker (hprice : ∀ q ∈ quotes, 0 < q.close_price) {item : String × ℚ}
    (hitem : item ∈ weights.items) (t : ℤ) :
    ((((changes initial_capital weights (benchmark_frame quotes)).filter
      (fun c => c.1.timestamp ≤ t)).filter (fun c => c.1.ticker = item.1)).map Prod.snd).sum =
      holding_profit initial_capital item.2 (closes quotes item.1) t := by
  have hmarks : Marks Quote.timestamp (closes quotes item.1) _ := frame_marks item.1
  have hsorted : Sorted Quote.timestamp
      ((benchmark_frame quotes).filter (fun q => q.ticker = item.1)) := benchmark_frame_sorted.filter _
  unfold changes holding_profit first_close last_close
  rw [List.filter_comm, filter_group_diff, List.filter_nil, group_diff_until _ hsorted,
    ← hmarks.head, ← hmarks.last t]
  generalize hrows : (benchmark_frame quotes).filter (fun q => q.ticker = item.1) = rows at *
  have hticker : ∀ q ∈ rows, q.ticker = item.1 := by
    intro q hq
    rw [← hrows] at hq
    simpa using (List.mem_filter.mp hq).2
  cases hlast : (rows.filter (fun q => q.timestamp ≤ t)).getLast? with
  | none =>
    rw [List.getLast?_eq_none_iff.mp hlast]
    cases rows.head? with
    | none => rfl
    | some first => rfl
  | some last =>
    -- the first row of the ticker is among its rows up to the timestamp
    obtain ⟨first, hfirst⟩ : ∃ first, rows.head? = some first := by
      cases hhead : rows.head? with
      | none =>
        rw [List.head?_eq_none_iff.mp hhead] at hlast
        exact absurd hlast (by simp)
      | some first => exact ⟨first, rfl⟩
    have hhead : (rows.filter (fun q => q.timestamp ≤ t)).head? = some first := by
      obtain ⟨rest, rfl⟩ : ∃ rest, rows = first :: rest := by
        cases rows with
        | nil => exact absurd hfirst (by simp)
        | cons a rest => exact ⟨rest, by rw [Option.some.inj hfirst]⟩
      have hle : first.timestamp ≤ t := by
        have hmem := List.mem_filter.mp (List.mem_of_getLast? hlast)
        rcases List.mem_cons.mp hmem.1 with heq | hin
        · rw [← heq]
          simpa using hmem.2
        · exact le_trans ((List.pairwise_cons.mp hsorted).1 last hin) (by simpa using hmem.2)
      rw [List.filter_cons_of_pos (by simpa using hle)]
      rfl
    rw [sum_group_diff Quote.ticker _ (fun q hq => hticker q (List.mem_of_mem_filter hq)) hhead hlast,
      hfirst]
    have hfirst_price : first_price (benchmark_frame quotes) item.1 = first.close_price :=
      first_price_eq (by rw [hrows]; exact hfirst)
    have hpos : first.close_price ≠ 0 := by
      have hmem : first ∈ (benchmark_frame quotes).filter (fun q => q.ticker = item.1) := by
        rw [hrows]
        exact List.mem_of_mem_head? hfirst
      exact ne_of_gt (hprice first (mem_of_mem_frame (List.mem_of_mem_filter hmem)))
    unfold pnl
    rw [hticker last (List.mem_of_mem_filter (List.mem_of_getLast? hlast)),
      hticker first (List.mem_of_mem_head? hfirst), hfirst_price, div_self hpos,
      PyDict.get_of_mem hitem]
    simp

theorem observed_times_sorted : (observed_times (benchmark_frame quotes)).Pairwise (· < ·) :=
  dedup_keys_sorted benchmark_frame_sorted

theorem mem_observed_times {t : ℤ} :
    t ∈ observed_times (benchmark_frame quotes) ↔ ∃ q ∈ quotes, q.timestamp = t := by
  unfold observed_times
  rw [List.mem_dedup, List.mem_map]
  constructor
  · intro ⟨q, hq, heq⟩
    exact ⟨q, mem_of_mem_frame hq, heq⟩
  · intro ⟨q, hq, heq⟩
    obtain ⟨q', hq', hkey⟩ := exists_mem_keep_last (fun q : Quote => (q.timestamp, q.ticker))
      ((mem_sort_values Quote.timestamp).mpr hq)
    refine ⟨q', hq', ?_⟩
    rw [← heq]
    exact (Prod.mk.inj hkey).1

/-- The running total of the changes is the profit of all holdings. -/
theorem sum_changes_until (hprice : ∀ q ∈ quotes, 0 < q.close_price)
    (hkeys : ∀ q ∈ quotes, q.ticker ∈ weights.keys) (t : ℤ) :
    (((observed_times (benchmark_frame quotes)).filter (· ≤ t)).map
      (change_at initial_capital weights (benchmark_frame quotes))).sum =
      (weights.items.map (fun item =>
        holding_profit initial_capital item.2 (closes quotes item.1) t)).sum := by
  have hrow : ∀ c ∈ changes initial_capital weights (benchmark_frame quotes),
      c.1 ∈ benchmark_frame quotes := by
    intro c hc
    rw [← group_diff_rows Quote.ticker (pnl initial_capital weights (benchmark_frame quotes)) []
      (benchmark_frame quotes)]
    exact List.mem_map_of_mem hc
  generalize hl : (changes initial_capital weights (benchmark_frame quotes)).filter
    (fun c => c.1.timestamp ≤ t) = l
  have hdistinct : (observed_times (benchmark_frame quotes)).Nodup :=
    observed_times_sorted.imp ne_of_lt
  -- first by timestamp, as the code adds up, then by ticker
  have htimes : (((observed_times (benchmark_frame quotes)).filter (· ≤ t)).map
      (change_at initial_capital weights (benchmark_frame quotes))).sum = (l.map Prod.snd).sum := by
    rw [← sum_of_groups (fun c : Quote × ℚ => c.1.timestamp) Prod.snd
      (hdistinct.filter (· ≤ t))]
    · congr 1
      apply List.map_congr_left
      intro k hk
      have hle : k ≤ t := by simpa using (List.mem_filter.mp hk).2
      unfold change_at
      rw [← hl, List.filter_filter]
      congr 2
      apply List.filter_congr
      intro c _
      by_cases hkey : c.1.timestamp = k
      · simp [hkey, hle]
      · simp [hkey]
    · intro c hc
      rw [← hl] at hc
      obtain ⟨hc, hle⟩ := List.mem_filter.mp hc
      rw [List.mem_filter, mem_observed_times]
      exact ⟨⟨c.1, mem_of_mem_frame (hrow c hc), rfl⟩, hle⟩
  have htickers : (weights.keys.map (fun ticker =>
      ((l.filter (fun c => c.1.ticker = ticker)).map Prod.snd).sum)).sum = (l.map Prod.snd).sum := by
    apply sum_of_groups (fun c : Quote × ℚ => c.1.ticker) Prod.snd weights.distinct
    intro c hc
    rw [← hl] at hc
    exact hkeys c.1 (mem_of_mem_frame (hrow c (List.mem_of_mem_filter hc)))
  rw [htimes, ← htickers]
  unfold PyDict.keys
  rw [List.map_map]
  congr 1
  apply List.map_congr_left
  intro item hitem
  rw [← sum_changes_of_ticker hprice hitem t, hl]
  rfl

theorem benchmark_values_eq (hprice : ∀ q ∈ quotes, 0 < q.close_price)
    (hkeys : ∀ q ∈ quotes, q.ticker ∈ weights.keys) :
    benchmark_values initial_capital weights (benchmark_frame quotes) =
      (observed_times (benchmark_frame quotes)).map
        (buy_and_hold_value initial_capital weights quotes) := by
  unfold benchmark_values
  rw [cumsum_map _ 0 observed_times_sorted, List.map_map]
  apply List.map_congr_left
  intro t _
  show initial_capital + (0 + _) = _
  rw [zero_add, sum_changes_until hprice hkeys t]
  rfl

/-! ### Accepted weights -/

theorem weight_value_nonneg {cell : Option PyFloat} {w : ℚ} (h : weight_value cell = some w) :
    0 ≤ w := by
  unfold weight_value at h
  split at h
  · split at h
    · rename_i hw
      rw [← Option.some.inj h]
      exact hw
    · exact absurd h (by simp)
  · exact absurd h (by simp)

theorem read_weights_nonneg {raw : PyDict (Option PyFloat)}
    (h : read_weights raw = .ok weights) : ∀ item ∈ weights.items, 0 ≤ item.2 := by
  unfold read_weights at h
  split at h
  · rename_i hvalid
    obtain rfl := Except.ok.inj h
    intro item hitem
    obtain ⟨cell, hcell, rfl⟩ := List.mem_map.mp hitem
    obtain ⟨w, hw⟩ := Option.isSome_iff_exists.mp (hvalid cell hcell)
    show 0 ≤ (weight_value cell.2).getD 0
    rw [hw]
    exact weight_value_nonneg hw
  · exact absurd h (by simp)

/-- Accepted weights are not negative. -/
theorem benchmark_weights_nonneg {raw : RawWeights} {tickers : Option (List String)}
    (h : benchmark_weights raw tickers = .ok weights) : ∀ item ∈ weights.items, 0 ≤ item.2 := by
  unfold benchmark_weights at h
  simp only at h
  split at h
  · obtain rfl := Except.ok.inj h
    simp
  · split at h
    · obtain rfl := Except.ok.inj h
      intro item hitem
      obtain ⟨key, _, rfl⟩ := List.mem_map.mp hitem
      positivity
    · exact read_weights_nonneg h
    · split at h
      · exact read_weights_nonneg h
      · exact absurd h (by simp)
    · exact absurd h (by simp)

/-- Accepted weights are accepted again, as they are. -/
theorem benchmark_weights_again (hnonneg : ∀ item ∈ weights.items, 0 ≤ item.2) :
    benchmark_weights (.mapping (as_floats weights)) (some (as_floats weights).keys) =
      .ok weights := by
  have huniverse : universe_of (as_floats weights).keys = weights.keys := by
    unfold as_floats
    rw [PyDict.keys_map]
    exact Batches.drop_duplicates_eq_self weights.distinct
  have hcell : ∀ item ∈ weights.items,
      weight_value (((as_floats weights).get item.1).getD (some (.fin 0))) = some item.2 := by
    intro item hitem
    have hmem : (item.1, some (PyFloat.fin item.2)) ∈ (as_floats weights).items :=
      List.mem_map_of_mem hitem
    rw [PyDict.get_of_mem hmem]
    exact if_pos (hnonneg item hitem)
  unfold benchmark_weights
  simp only [benchmark_universe, huniverse]
  by_cases hkeys : weights.keys = []
  · rw [if_pos hkeys]
    obtain ⟨items, distinct⟩ := weights
    obtain rfl : items = [] := List.map_eq_nil_iff.mp hkeys
    rfl
  · rw [if_neg hkeys]
    unfold read_weights
    rw [if_pos]
    · obtain ⟨items, distinct⟩ := weights
      congr 1
      simp only [PyDict.map, PyDict.from_keys, PyDict.keys, PyDict.mk.injEq, List.map_map]
      conv_rhs => rw [← List.map_id items]
      apply List.map_congr_left
      intro item hitem
      show (item.1, (weight_value (((as_floats ⟨items, distinct⟩).get item.1).getD
        (some (.fin 0)))).getD 0) = item
      rw [hcell item hitem]
      rfl
    · intro entry hentry
      obtain ⟨key, hkey, rfl⟩ := List.mem_map.mp hentry
      obtain ⟨item, hitem, rfl⟩ := List.mem_map.mp hkey
      show (weight_value _).isSome = true
      rw [hcell item hitem]
      rfl

/-! ### The future plays no part -/

theorem last_at_filter {rows : List Quote} {k t : ℤ} (hk : k ≤ t) :
    last_at Quote.timestamp (rows.filter (fun q => q.timestamp ≤ t)) k =
      last_at Quote.timestamp rows k := by
  unfold last_at
  rw [List.filter_filter]
  congr 1
  apply List.filter_congr
  intro q _
  by_cases hq : q.timestamp = k
  · simp [hq, hk]
  · simp [hq]

theorem last_close_filter (rows : List Quote) (t : ℤ) :
    last_close (rows.filter (fun q => q.timestamp ≤ t)) t = last_close rows t := by
  unfold last_close
  have htimes : ((rows.filter (fun q => q.timestamp ≤ t)).map Quote.timestamp).filter (· ≤ t) =
      (rows.map Quote.timestamp).filter (· ≤ t) := by
    rw [List.filter_map, List.filter_map, List.filter_filter]
    congr 1
    apply List.filter_congr
    intro q _
    simp
  rw [htimes]
  cases hmax : ((rows.map Quote.timestamp).filter (· ≤ t)).max? with
  | none => rfl
  | some k =>
    have hk := (List.mem_filter.mp (List.max?_eq_some_iff.mp hmax).1).2
    exact last_at_filter (by simpa using hk)

/-- Once there is a close the first one does not change. -/
theorem first_close_filter {rows : List Quote} {t : ℤ} {q : Quote} (hq : q ∈ rows)
    (ht : q.timestamp ≤ t) :
    first_close (rows.filter (fun q => q.timestamp ≤ t)) = first_close rows := by
  unfold first_close
  obtain ⟨k, hmin⟩ : ∃ k, (rows.map Quote.timestamp).min? = some k := by
    apply Option.ne_none_iff_exists'.mp
    intro hnone
    rw [List.min?_eq_none_iff, List.map_eq_nil_iff] at hnone
    rw [hnone] at hq
    exact absurd hq (by simp)
  obtain ⟨hin, hleast⟩ := List.min?_eq_some_iff.mp hmin
  have hk : k ≤ t := le_trans (hleast _ (List.mem_map_of_mem hq)) ht
  have hmin' : ((rows.filter (fun q => q.timestamp ≤ t)).map Quote.timestamp).min? = some k := by
    apply List.min?_eq_some_iff.mpr
    obtain ⟨row, hrow, rfl⟩ := List.mem_map.mp hin
    refine ⟨List.mem_map_of_mem (List.mem_filter.mpr ⟨hrow, by simpa using hk⟩), ?_⟩
    intro b hb
    obtain ⟨row', hrow', rfl⟩ := List.mem_map.mp hb
    exact hleast _ (List.mem_map_of_mem (List.mem_of_mem_filter hrow'))
  rw [hmin, hmin']
  exact last_at_filter hk

theorem holding_profit_filter (capital weight : ℚ) (rows : List Quote) (t : ℤ) :
    holding_profit capital weight (rows.filter (fun q => q.timestamp ≤ t)) t =
      holding_profit capital weight rows t := by
  unfold holding_profit
  rw [last_close_filter]
  cases hlast : last_close rows t with
  | none =>
    split
    · rename_i h
      exact absurd h (by simp)
    · split
      · rename_i h
        exact absurd h (by simp)
      · rfl
  | some last =>
    obtain ⟨k, hmax, hrow⟩ := Option.bind_eq_some_iff.mp hlast
    obtain ⟨hmem, hkey⟩ := last_at_spec hrow
    have hk := (List.mem_filter.mp (List.max?_eq_some_iff.mp hmax).1).2
    rw [first_close_filter hmem (by rw [hkey]; simpa using hk)]

theorem buy_and_hold_value_filter (capital : ℚ) (weights : PyDict ℚ) (quotes : List Quote)
    (t : ℤ) :
    buy_and_hold_value capital weights (quotes.filter (fun q => q.timestamp ≤ t)) t =
      buy_and_hold_value capital weights quotes t := by
  unfold buy_and_hold_value
  congr 2
  apply List.map_congr_left
  intro item _
  unfold closes
  rw [List.filter_comm, holding_profit_filter]

/-! ### The benchmark -/

variable {zone : MarketZone} {window : ReportWindow}

/-- A row of the window at or before a timestamp. -/
def counts_at (zone : MarketZone) (window : ReportWindow) (t : ℤ) (row : PriceRow) : Bool :=
  (market_timestamp zone row.timestamp).any (fun s => window.contains s && s ≤ t)

theorem valid_quote_spec {row : PriceRow} {q : Quote}
    (h : valid_quote zone weights row = some q) :
    market_timestamp zone row.timestamp = some q.timestamp ∧ q.ticker ∈ weights.keys ∧
      0 < q.close_price := by
  unfold valid_quote at h
  split at h
  · rename_i htime _
    split at h
    · rename_i hvalid
      obtain rfl := Option.some.inj h
      exact ⟨htime, hvalid⟩
    · exact absurd h (by simp)
  · exact absurd h (by simp)

theorem quotes_of_spec {table : List PriceRow} {q : Quote}
    (hq : q ∈ quotes_of zone weights window table) :
    q.ticker ∈ weights.keys ∧ 0 < q.close_price := by
  obtain ⟨row, _, hrow⟩ := List.mem_filterMap.mp (List.mem_of_mem_filter hq)
  exact (valid_quote_spec hrow).2

theorem quotes_of_until (table : List PriceRow) (t : ℤ) :
    (quotes_of zone weights window table).filter (fun q => q.timestamp ≤ t) =
      (table.filter (counts_at zone window t)).filterMap (valid_quote zone weights) := by
  unfold quotes_of
  rw [List.filter_filter]
  apply filter_filterMap_comm
  intro row q hrow
  unfold counts_at
  rw [(valid_quote_spec hrow).1]
  exact Bool.and_comm _ _

/-- The reported row at a timestamp. -/
def BenchmarkFrame.row_at (frame : BenchmarkFrame) (t : ℤ) : Option BenchmarkRow :=
  frame.rows.find? (fun row => row.timestamp = t)

/-- A row of the benchmark, by definition. -/
def definition_row (capital : ℚ) (weights : PyDict ℚ) (quotes : List Quote) (t : ℤ) :
    BenchmarkRow :=
  ⟨t, buy_and_hold_value capital weights quotes t,
    buy_and_hold_value capital weights quotes t / capital - 1⟩

/-- What the benchmark function returns. -/
theorem generate_rows {capital : ℚ} (hcapital : 0 < capital)
    (hnonneg : ∀ item ∈ weights.items, 0 ≤ item.2) {start stop : Option (Option Moment)}
    {first last : Option ℤ} (hstart : window_cutoff zone start = .ok first)
    (hstop : window_cutoff zone stop = .ok last) (table : List PriceRow) :
    ∃ frame, generate_buy_and_hold_benchmark zone table (.fin capital) (as_floats weights)
        start stop = .ok frame ∧
      frame.rows =
        (observed_times (benchmark_frame (quotes_of zone weights ⟨first, last⟩ table))).map
          (definition_row capital weights (quotes_of zone weights ⟨first, last⟩ table)) := by
  unfold generate_buy_and_hold_benchmark
  by_cases htable : table = []
  · rw [if_pos htable, htable]
    exact ⟨_, rfl, rfl⟩
  · rw [if_neg htable]
    simp only
    rw [if_neg (not_le.mpr hcapital), benchmark_weights_again hnonneg, hstart, hstop]
    simp only [bind, Except.bind, pure, Except.pure]
    by_cases hframe : benchmark_frame (quotes_of zone weights ⟨first, last⟩ table) = []
    · rw [if_pos hframe, hframe]
      exact ⟨_, rfl, rfl⟩
    · rw [if_neg hframe]
      refine ⟨_, rfl, ?_⟩
      rw [benchmark_values_eq (fun q hq => (quotes_of_spec hq).2) (fun q hq => (quotes_of_spec hq).1)]
      show List.zipWith _ _ _ = _
      rw [List.zipWith_map_right, List.zipWith_self]
      rfl

theorem find_definition_row (capital : ℚ) (weights : PyDict ℚ) (quotes : List Quote) (t : ℤ) :
    ((observed_times (benchmark_frame quotes)).map (definition_row capital weights quotes)).find?
      (fun row => row.timestamp = t) =
      if ∃ q ∈ quotes, q.timestamp = t then some (definition_row capital weights quotes t)
      else none := by
  rw [List.find?_map]
  have hfind : (observed_times (benchmark_frame quotes)).find?
      ((fun row : BenchmarkRow => decide (row.timestamp = t)) ∘
        definition_row capital weights quotes) =
      if ∃ q ∈ quotes, q.timestamp = t then some t else none := by
    split
    · rename_i ht
      cases hfind : (observed_times (benchmark_frame quotes)).find? _ with
      | none =>
        have hnot := List.find?_eq_none.mp hfind t (mem_observed_times.mpr ht)
        exact absurd (decide_eq_true rfl) hnot
      | some t' =>
        have hrow := List.find?_some hfind
        have heq : t' = t := of_decide_eq_true hrow
        rw [heq]
    · rename_i ht
      apply List.find?_eq_none.mpr
      intro t' ht' heq
      have heq' : t' = t := of_decide_eq_true heq
      exact ht (mem_observed_times.mp (heq' ▸ ht'))
  rw [hfind]
  split
  · rfl
  · rfl

/-- **The benchmark equals its definition.** With accepted weights, positive
    capital and a valid window the code reports, once for each timestamp of a
    valid quote in the window and in order, the capital plus what each
    holding has gained since its first close. A table that differs only
    after a timestamp or outside the window reports the same there. -/
theorem benchmark_is_definition (zone : MarketZone) {raw : RawWeights}
    {tickers : Option (List String)} {weights : PyDict ℚ}
    (hweights : benchmark_weights raw tickers = .ok weights) {capital : ℚ}
    (hcapital : 0 < capital) {start stop : Option (Option Moment)} {first last : Option ℤ}
    (hstart : window_cutoff zone start = .ok first) (hstop : window_cutoff zone stop = .ok last)
    (table : List PriceRow) :
    ∃ (frame : BenchmarkFrame) (times : List ℤ),
      generate_buy_and_hold_benchmark zone table (.fin capital) (as_floats weights) start stop =
        .ok frame ∧
      times.Pairwise (· < ·) ∧
      (∀ t, t ∈ times ↔ ∃ q ∈ quotes_of zone weights ⟨first, last⟩ table, q.timestamp = t) ∧
      frame.rows =
        times.map (definition_row capital weights (quotes_of zone weights ⟨first, last⟩ table)) ∧
      ∀ table' frame',
        generate_buy_and_hold_benchmark zone table' (.fin capital) (as_floats weights) start stop =
          .ok frame' →
        ∀ t, table'.filter (counts_at zone ⟨first, last⟩ t) =
            table.filter (counts_at zone ⟨first, last⟩ t) →
          frame'.row_at t = frame.row_at t := by
  have hnonneg := benchmark_weights_nonneg hweights
  obtain ⟨frame, hframe, hrows⟩ := generate_rows hcapital hnonneg hstart hstop table
  refine ⟨frame, _, hframe, observed_times_sorted, fun t => mem_observed_times, hrows, ?_⟩
  intro table' frame' hframe' t hagree
  obtain ⟨frame'', hframe'', hrows'⟩ := generate_rows hcapital hnonneg hstart hstop table'
  obtain rfl : frame'' = frame' := Except.ok.inj (hframe''.symm.trans hframe')
  -- the quotes up to the timestamp are the same
  have hquotes : (quotes_of zone weights ⟨first, last⟩ table').filter (fun q => q.timestamp ≤ t) =
      (quotes_of zone weights ⟨first, last⟩ table).filter (fun q => q.timestamp ≤ t) := by
    rw [quotes_of_until, quotes_of_until, hagree]
  have hobserved : ∀ quotes : List Quote, (∃ q ∈ quotes, q.timestamp = t) ↔
      ∃ q ∈ quotes.filter (fun q => q.timestamp ≤ t), q.timestamp = t := by
    intro quotes
    constructor
    · intro ⟨q, hq, heq⟩
      exact ⟨q, List.mem_filter.mpr ⟨hq, by simp [heq]⟩, heq⟩
    · intro ⟨q, hq, heq⟩
      exact ⟨q, List.mem_of_mem_filter hq, heq⟩
  have hrow : definition_row capital weights (quotes_of zone weights ⟨first, last⟩ table') t =
      definition_row capital weights (quotes_of zone weights ⟨first, last⟩ table) t := by
    unfold definition_row
    rw [← buy_and_hold_value_filter, hquotes, buy_and_hold_value_filter]
  unfold BenchmarkFrame.row_at
  rw [hrows, hrows', find_definition_row, find_definition_row, hrow]
  simp only [hobserved (quotes_of zone weights ⟨first, last⟩ table'), hquotes,
    ← hobserved (quotes_of zone weights ⟨first, last⟩ table)]

/-- Five hours behind UTC. -/
def eastern_standard : MarketZone where
  offset_at _ := -5 * hour_us
  localize wall := some (wall + 5 * hour_us)
  dates_in_order _ _ h := Int.ediv_le_ediv (by decide) (by omega)

/-- Closes out of order, a repeated one, one without a price and one of a
    ticker outside the universe. -/
def scattered_closes : List PriceRow :=
  [⟨some ⟨3, some 0⟩, "B", some (.fin 300)⟩, ⟨some ⟨1, some 0⟩, "A", some (.fin 99)⟩,
    ⟨some ⟨2, some 0⟩, "B", some (.fin 200)⟩, ⟨some ⟨1, some 0⟩, "A", some (.fin 100)⟩,
    ⟨some ⟨3, some 0⟩, "A", some (.fin 120)⟩, ⟨some ⟨2, some 0⟩, "A", none⟩,
    ⟨some ⟨2, some 0⟩, "C", some (.fin 5)⟩]

/-- Half the capital in each of two tickers, one of which starts late. -/
theorem benchmark_of_scattered_closes :
    ∃ (weights : PyDict ℚ) (frame : BenchmarkFrame) (times : List ℤ),
      benchmark_weights .absent (some ["A", "B"]) = .ok weights ∧
      generate_buy_and_hold_benchmark eastern_standard scattered_closes (.fin 1000)
        (as_floats weights) none none = .ok frame ∧
      frame.rows = times.map (definition_row 1000 weights
        (quotes_of eastern_standard weights ⟨none, none⟩ scattered_closes)) ∧
      (definition_row 1000 weights
        (quotes_of eastern_standard weights ⟨none, none⟩ scattered_closes) 3).buy_and_hold_value =
          1350 := by
  obtain ⟨frame, times, hframe, _, _, hrows, _⟩ :=
    benchmark_is_definition eastern_standard
      (rfl : benchmark_weights .absent (some ["A", "B"]) = .ok _) (by norm_num : (0 : ℚ) < 1000)
      (rfl : window_cutoff eastern_standard none = .ok none)
      (rfl : window_cutoff eastern_standard none = .ok none) scattered_closes
  refine ⟨_, frame, times, rfl, hframe, hrows, ?_⟩
  decide +kernel

end Reporting
