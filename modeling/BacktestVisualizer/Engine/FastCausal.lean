import BacktestVisualizer.Engine.FastMode

/-! # Fast Mode Looks at No Later Price

  The vectorised path works on whole columns, but every column it computes is
  causal. So a run that ends earlier reports the same rows as a run that ends
  later, up to its end. That needs every ticker to have a price by then: a
  ticker that comes later changes the set of columns, which the benchmark
  divides by and the rotation takes its last bond from.
-/

open Columns Rolling

namespace FastMode

variable {sqrt : ℚ → ℚ}

/-! ### Causal columns -/

section Operators

variable {α : Type} {f g : List α → List PyFloat} {p q : List α → List Bool}

theorem causal_ffill : Causal ffill := causal_scan _ _

theorem causal_diff (k : ℕ) : Causal (diff k) := causal_id.zipWith _ (causal_shift k _)

theorem causal_pct_change (k : ℕ) : Causal (pct_change k) :=
  (causal_map _).comp (causal_ffill.zipWith _ ((causal_shift k _).comp causal_ffill))

theorem causal_rolling_mean (n : ℕ) : Causal (rolling_mean n) := causal_rolling _ _

theorem causal_rolling_std (n : ℕ) : Causal (rolling_std sqrt n) := causal_rolling _ _

theorem causal_ewm_mean (period : ℕ) : Causal (ewm_mean period) := causal_scan _ _

theorem causal_gt (hf : Causal f) (hg : Causal g) : Causal (fun xs => gt (f xs) (g xs)) :=
  hf.zipWith _ hg

theorem causal_both (hp : Causal p) (hq : Causal q) : Causal (fun xs => both (p xs) (q xs)) :=
  hp.zipWith _ hq

theorem causal_either (hp : Causal p) (hq : Causal q) : Causal (fun xs => either (p xs) (q xs)) :=
  hp.zipWith _ hq

theorem causal_within (low high : ℚ) (hf : Causal f) : Causal (fun xs => within low high (f xs)) :=
  causal_both ((causal_map _).comp hf) ((causal_map _).comp hf)

theorem causal_target_state (hp : Causal p) (hq : Causal q) :
    Causal (fun xs => target_state (p xs) (q xs)) :=
  (causal_scan _ _).comp (hp.zipWith Prod.mk hq)

theorem causal_strength (period : ℕ) (hf : Causal f) : Causal (fun xs => strength period (f xs)) := by
  have hgain := (causal_ewm_mean period).comp
    ((causal_map (fun x => if x < .fin 0 then .fin 0 else x)).comp hf)
  have hloss := (causal_ewm_mean period).comp
    ((causal_map (fun x => -(if PyFloat.fin 0 < x then .fin 0 else x))).comp hf)
  exact (causal_map _).comp ((causal_map _).comp (hgain.zipWith _ ((causal_map _).comp hloss)))

end Operators

theorem causal_compute_rsi (period : ℕ) : Causal (compute_rsi period) :=
  causal_strength period (causal_diff 1)

theorem causal_compute_rmi (period momentum_period : ℕ) :
    Causal (compute_rmi period momentum_period) :=
  causal_strength period (causal_diff momentum_period)

theorem causal_momentum_entry : Causal momentum_entry := by
  have hfast := causal_rolling_mean 14
  have hslow := causal_rolling_mean 28
  have hdma := (causal_shift 7 PyFloat.nan).comp hfast
  apply causal_either
  · exact causal_both (causal_gt hfast hslow) (causal_gt hdma hslow)
  · exact causal_either (causal_within 10 30 (causal_compute_rsi 14))
      (causal_within 10 30 (causal_compute_rmi 14 14))

theorem causal_momentum_exit : Causal momentum_exit := by
  have hfast := causal_rolling_mean 14
  have hslow := causal_rolling_mean 28
  have hdma := (causal_shift 7 PyFloat.nan).comp hfast
  apply causal_both
  · apply causal_either
    · exact causal_both (causal_gt hslow hfast) (causal_gt hslow hdma)
    · exact causal_either (causal_within 70 90 (causal_compute_rsi 14))
        (causal_within 70 90 (causal_compute_rmi 14 14))
  · exact (causal_map _).comp causal_momentum_entry

theorem causal_vol_threshold : Causal (vol_threshold sqrt) :=
  (causal_map _).comp ((causal_rolling_std 20).comp (causal_pct_change 1))

theorem causal_zscore_20 : Causal (zscore_20 sqrt) := by
  have hstd := (causal_map (fun x => if x = PyFloat.fin 0 then PyFloat.nan else x)).comp
    ((@causal_rolling_std sqrt 20).comp (causal_pct_change 1))
  have hdeviation := causal_id.zipWith (fun x y : PyFloat => x - y) (causal_rolling_mean 20)
  exact hdeviation.zipWith _ (causal_id.zipWith _ hstd)

/-- A column of the matrix. -/
theorem causal_column (t : Ticker) : Causal (List.map (fun row : Row => row t)) := causal_map _

theorem causal_each {β : Type} {op : List PyFloat → List β} (h : Causal op) (default : β) :
    Causal (each op default) :=
  causal_table (fun t => h.comp (causal_column t)) default

theorem causal_by_regime {regime fade momentum : List Row → List Bool} (hregime : Causal regime)
    (hfade : Causal fade) (hmomentum : Causal momentum) :
    Causal (fun rows => by_regime (regime rows) (fade rows) (momentum rows)) :=
  causal_either (causal_both hregime hfade)
    (causal_both ((causal_map _).comp hregime) hmomentum)

theorem causal_regime_adaptive (columns : List Ticker) :
    Causal (regime_adaptive_adapter sqrt columns) := by
  apply causal_table
  intro t
  by_cases h : t = RegimeAdaptive.regime_ticker
  · simp only [if_pos h]
    exact causal_map _
  · simp only [if_neg h]
    have hregime : Causal (regime_high_vol columns) := causal_map _
    have hscore := (@causal_zscore_20 sqrt).comp (causal_column t)
    have hmomentum := (causal_pct_change 5).comp (causal_column t)
    exact causal_target_state
      (causal_by_regime hregime ((causal_map _).comp hscore) ((causal_map _).comp hmomentum))
      (causal_by_regime hregime ((causal_map _).comp hscore) ((causal_map _).comp hmomentum))

/-- **Every adapter** answers day by day from the closes so far. -/
theorem causal_adapter {class_name : String} {adapter : Adapter}
    (h : (ADAPTERS_BY_CLASSNAME sqrt).lookup class_name = some adapter) (columns : List Ticker) :
    Causal (adapter columns) := by
  obtain ⟨l, l', hsplit, _⟩ := List.lookup_eq_some_iff.mp h
  have hmem : (class_name, adapter) ∈ ADAPTERS_BY_CLASSNAME sqrt := by
    rw [hsplit]
    exact List.mem_append_right _ List.mem_cons_self
  simp only [ADAPTERS_BY_CLASSNAME, List.mem_cons, Prod.mk.injEq, List.not_mem_nil, or_false] at hmem
  rcases hmem with ⟨_, rfl⟩ | ⟨_, rfl⟩ | ⟨_, rfl⟩ | ⟨_, rfl⟩
  · apply causal_each
    exact causal_target_state (causal_gt (causal_pct_change 20) causal_vol_threshold)
      (causal_gt ((causal_map _).comp causal_vol_threshold) (causal_pct_change 20))
  · exact causal_each (causal_target_state causal_momentum_entry causal_momentum_exit) false
  · exact causal_regime_adaptive columns
  · exact (causal_map _).comp
      (causal_each (causal_gt (causal_rolling_mean 20) (causal_rolling_mean 50)) false)

/-! ### A shorter history -/

/-- The rows up to a date. -/
def upto (stop : ℤ) (rows : List DailyClose) : List DailyClose :=
  rows.filter (fun row => row.trade_date ≤ stop)

theorem trade_dates_upto (stop : ℤ) (rows : List DailyClose) :
    trade_dates (upto stop rows) = (trade_dates rows).filter (fun d => d ≤ stop) := by
  unfold trade_dates upto
  rw [DataFrame.filter_sort_values]
  have hcomm := @Batches.filter_drop_duplicates _ _ _ id (fun d : ℤ => decide (d ≤ stop))
    (rows.map DailyClose.trade_date)
  simp only [id] at hcomm
  rw [show (fun d : ℤ => decide (d ≤ stop)) = fun d => decide (id d ≤ stop) from rfl] at hcomm ⊢
  rw [hcomm, List.filter_map]
  rfl

theorem cell_upto {stop date : ℤ} (rows : List DailyClose) (h : date ≤ stop) :
    cell (upto stop rows) date = cell rows date := by
  funext t
  unfold cell upto
  rw [List.filter_filter]
  have hsame : (fun row : DailyClose =>
      decide (row.trade_date = date ∧ row.ticker = t) && decide (row.trade_date ≤ stop)) =
      fun row => decide (row.trade_date = date ∧ row.ticker = t) := by
    funext row
    by_cases hrow : row.trade_date = date ∧ row.ticker = t
    · simp [hrow, h]
    · simp [hrow]
  rw [hsame]

theorem sorted_trade_dates (rows : List DailyClose) : Timeline.Sorted id (trade_dates rows) :=
  DataFrame.sort_values_sorted id _

/-- The matrix of the shorter history comes first. -/
theorem pivot_upto (stop : ℤ) (rows : List DailyClose) :
    ∃ rest, pivot rows = pivot (upto stop rows) ++ rest ∧ ∀ day ∈ rest, stop < day.date := by
  have hdates := Timeline.filter_le_append_filter_lt (sorted_trade_dates rows) stop
  refine ⟨((trade_dates rows).filter (fun d => stop < d)).map (fun d => ⟨d, cell rows d⟩), ?_, ?_⟩
  · unfold pivot
    rw [trade_dates_upto]
    have hcells : ((trade_dates rows).filter (fun d => d ≤ stop)).map
        (fun d => (⟨d, cell (upto stop rows) d⟩ : Day)) =
        ((trade_dates rows).filter (fun d => d ≤ stop)).map (fun d => ⟨d, cell rows d⟩) := by
      apply List.map_congr_left
      intro d hd
      rw [cell_upto rows (by simpa using (List.mem_filter.mp hd).2)]
    rw [hcells, ← List.map_append]
    exact congrArg (List.map _) hdates.symm
  · intro day hday
    obtain ⟨d, hd, rfl⟩ := List.mem_map.mp hday
    simpa using (List.mem_filter.mp hd).2

theorem causal_fill_days : Causal fill_days :=
  causal_id.zipWith _ ((causal_each causal_ffill .nan).comp (causal_map Day.close))

theorem fill_days_dates (days : List Day) : (fill_days days).map Day.date = days.map Day.date := by
  unfold fill_days
  rw [List.map_zipWith]
  have hlength : (each ffill .nan (days.map Day.close)).length = days.length := by
    rw [(causal_each causal_ffill .nan).length, List.length_map]
  apply List.ext_getElem
  · simp [hlength]
  · intro i hi hi'
    simp

/-- Filling goes on from the shorter history. -/
theorem fill_days_append {days rest : List Day} {stop : ℤ} (h : ∀ day ∈ rest, stop < day.date) :
    ∃ rest', fill_days (days ++ rest) = fill_days days ++ rest' ∧ ∀ day ∈ rest', stop < day.date := by
  obtain ⟨rest', hrest'⟩ := causal_fill_days.earlier days rest
  refine ⟨rest', hrest'.symm, ?_⟩
  intro day hday
  have hdates := fill_days_dates (days ++ rest)
  rw [← hrest', List.map_append, fill_days_dates, List.map_append, List.append_cancel_left_eq] at hdates
  have hmem : day.date ∈ rest.map Day.date := hdates ▸ List.mem_map_of_mem hday
  obtain ⟨other, hother, heq⟩ := List.mem_map.mp hmem
  rw [← heq]
  exact h other hother

/-- Every ticker has a price by a date. -/
def Quoted (stop : ℤ) (rows : List DailyClose) : Prop :=
  ∀ row ∈ rows, ∃ early ∈ rows, early.ticker = row.ticker ∧ early.trade_date ≤ stop

theorem Quoted.mem_upto {stop : ℤ} {rows : List DailyClose} (h : Quoted stop rows) (t : Ticker) :
    t ∈ (upto stop rows).map DailyClose.ticker ↔ t ∈ rows.map DailyClose.ticker := by
  constructor
  · intro ht
    obtain ⟨row, hrow, rfl⟩ := List.mem_map.mp ht
    exact List.mem_map_of_mem (List.mem_of_mem_filter hrow)
  · intro ht
    obtain ⟨row, hrow, rfl⟩ := List.mem_map.mp ht
    obtain ⟨early, hmem, hticker, hdate⟩ := h row hrow
    rw [← hticker]
    exact List.mem_map_of_mem (List.mem_filter.mpr ⟨hmem, by simpa using hdate⟩)

theorem Quoted.selected {stop : ℤ} {rows : List DailyClose} (h : Quoted stop rows)
    (tickers : List Ticker) : selected_tickers tickers (upto stop rows) = selected_tickers tickers rows := by
  apply List.filter_congr
  intro t _
  exact decide_eq_decide.mpr (h.mem_upto t)

theorem Quoted.priced {stop : ℤ} {rows : List DailyClose} (h : Quoted stop rows) :
    priced ((upto stop rows).map DailyClose.ticker) = priced (rows.map DailyClose.ticker) := by
  funext day
  unfold FastMode.priced
  rw [Bool.eq_iff_iff, List.any_eq_true, List.any_eq_true]
  simp only [h.mem_upto]

/-- A matrix with the same columns and days after those there are. -/
structure Matrix.Extends (m later : Matrix) (stop : ℤ) : Prop where
  columns : later.columns = m.columns
  days : ∃ rest, later.days = m.days ++ rest ∧ ∀ day ∈ rest, stop < day.date
  upto : ∀ day ∈ m.days, day.date ≤ stop

theorem mem_pivot {rows : List DailyClose} {day : Day} (h : day ∈ pivot rows) :
    ∃ row ∈ rows, row.trade_date = day.date := by
  obtain ⟨d, hd, rfl⟩ := List.mem_map.mp h
  have hmem := Batches.mem_of_mem_drop_duplicates ((DataFrame.mem_sort_values id).mp hd)
  exact List.mem_map.mp hmem

theorem close_matrix_extends {stop : ℤ} {rows : List DailyClose} (h : Quoted stop rows)
    (tickers : List Ticker) :
    (close_matrix tickers (upto stop rows)).Extends (close_matrix tickers rows) stop where
  columns := (h.selected tickers).symm
  days := by
    obtain ⟨rest, hpivot, hrest⟩ := pivot_upto stop rows
    obtain ⟨rest', hfill, hrest'⟩ := @fill_days_append (pivot (upto stop rows)) _ _ hrest
    refine ⟨(rest'.filter (priced (rows.map DailyClose.ticker))).filter
      (priced (selected_tickers tickers rows)), ?_, fun day hday =>
        hrest' day (List.mem_of_mem_filter (List.mem_of_mem_filter hday))⟩
    show List.filter _ (List.filter _ (fill_days (pivot rows))) = _
    rw [hpivot, hfill, List.filter_append, List.filter_append]
    unfold close_matrix
    rw [h.selected tickers, h.priced]
  upto := by
    intro day hday
    have hfilled := List.mem_of_mem_filter (List.mem_of_mem_filter hday)
    have hdate : day.date ∈ (pivot (upto stop rows)).map Day.date := by
      rw [← fill_days_dates]
      exact List.mem_map_of_mem hfilled
    obtain ⟨first, hfirst, heq⟩ := List.mem_map.mp hdate
    obtain ⟨row, hrow, hrowdate⟩ := mem_pivot hfirst
    have := (List.mem_filter.mp hrow).2
    simp only [decide_eq_true_eq] at this
    omega

/-! ### No look-ahead -/

/-- The rows of a window are among those of a longer window. -/
theorem window_of_extends {α : Type} {f : List Row → List α} (hf : Causal f) {m later : Matrix}
    {start_date stop stop' : ℤ} (h : m.Extends later stop) (hstop : stop ≤ stop') :
    m.window start_date stop (f m.closes) <+: later.window start_date stop' (f later.closes) := by
  obtain ⟨rest, hdays, hrest⟩ := h.days
  obtain ⟨answers, hanswers⟩ := hf.earlier m.closes (rest.map Day.close)
  have hcloses : later.closes = m.closes ++ rest.map Day.close := by
    unfold Matrix.closes
    rw [hdays, List.map_append]
  have hlength : m.days.length = (f m.closes).length := by
    rw [hf.length]
    exact (List.length_map Day.close).symm
  unfold Matrix.window
  rw [hcloses, ← hanswers, hdays, List.zip_append hlength, List.filter_append, List.map_append]
  -- on the days there are, the two windows agree
  have hsame : (m.days.zip (f m.closes)).filter
        (fun row => start_date ≤ row.1.date ∧ row.1.date ≤ stop) =
      (m.days.zip (f m.closes)).filter
        (fun row => start_date ≤ row.1.date ∧ row.1.date ≤ stop') := by
    apply List.filter_congr
    intro row hrow
    have hday := h.upto row.1 (List.of_mem_zip hrow).1
    apply decide_eq_decide.mpr
    omega
  rw [hsame]
  exact List.prefix_append _ _

theorem length_window {α : Type} (m : Matrix) (start_date stop : ℤ) {xs : List α}
    (h : xs.length = m.days.length) :
    (m.window start_date stop xs).length =
      (m.days.filter (fun day => start_date ≤ day.date ∧ day.date ≤ stop)).length := by
  unfold Matrix.window
  rw [List.length_map]
  have hzip : m.days = (m.days.zip xs).map Prod.fst := (List.map_fst_zip h.ge).symm
  conv_rhs => rw [hzip, List.filter_map, List.length_map]
  rfl

theorem causal_target_weights {adapter : Adapter} {columns : List Ticker}
    (h : Causal (adapter columns)) : Causal (target_weights adapter columns) :=
  (causal_map _).comp h

theorem causal_lagged_weights {adapter : Adapter} {columns : List Ticker}
    (h : Causal (adapter columns)) : Causal (lagged_weights adapter columns) :=
  (causal_shift 1 _).comp (causal_target_weights h)

theorem causal_returns_matrix : Causal returns_matrix :=
  causal_each ((causal_map clean).comp (causal_pct_change 1)) 0

theorem causal_turnover (columns : List Ticker) : Causal (turnover columns) :=
  causal_id.zipWith _ ((causal_shift 1 none).comp (causal_map some))

theorem causal_cumprod : Causal cumprod := causal_scan _ _

section Windows

variable {cfg : FastConfig} {adapter : Adapter} {m later : Matrix} {stop' : ℤ}

/-- The number of days in the window. -/
def Matrix.count (m : Matrix) (cfg : FastConfig) : ℕ :=
  (m.days.filter (fun day => cfg.start_date ≤ day.date ∧ day.date ≤ cfg.end_date)).length

theorem length_causal_window {α : Type} {f : List Row → List α} (hf : Causal f) :
    (m.window cfg.start_date cfg.end_date (f m.closes)).length = m.count cfg := by
  apply length_window
  rw [hf.length]
  exact List.length_map Day.close

theorem length_gross_returns (h : Causal (adapter m.columns)) :
    (gross_returns cfg adapter m).length = m.count cfg := by
  unfold gross_returns Matrix.lagged_window Matrix.returns_window
  rw [List.length_zipWith, length_causal_window (causal_lagged_weights h),
    length_causal_window causal_returns_matrix, min_self]

theorem length_weights_turnover (h : Causal (adapter m.columns)) :
    (turnover m.columns (m.weights_window cfg adapter)).length = m.count cfg := by
  rw [(causal_turnover _).length]
  exact length_causal_window (causal_target_weights h)

theorem length_strategy_returns (h : Causal (adapter m.columns)) :
    (strategy_returns cfg adapter m).length = m.count cfg := by
  unfold strategy_returns
  rw [List.length_zipWith, length_gross_returns h, length_weights_turnover h, min_self]

theorem length_days_window : (m.days_window cfg).length = m.count cfg :=
  length_window m _ _ rfl

/-- A run that ends later. -/
def FastConfig.until (cfg : FastConfig) (stop' : ℤ) : FastConfig := { cfg with end_date := stop' }

variable (hext : m.Extends later cfg.end_date) (hstop : cfg.end_date ≤ stop')
include hext hstop

theorem days_window_extends : m.days_window cfg <+: later.days_window (cfg.until stop') := by
  obtain ⟨rest, hdays, _⟩ := hext.days
  unfold Matrix.days_window Matrix.window
  rw [hdays, List.zip_append rfl, List.filter_append, List.map_append]
  have hsame : (m.days.zip m.days).filter
        (fun row => cfg.start_date ≤ row.1.date ∧ row.1.date ≤ cfg.end_date) =
      (m.days.zip m.days).filter
        (fun row => (cfg.until stop').start_date ≤ row.1.date ∧
          row.1.date ≤ (cfg.until stop').end_date) := by
    apply List.filter_congr
    intro row hrow
    have hday := hext.upto row.1 (List.of_mem_zip hrow).1
    apply decide_eq_decide.mpr
    show cfg.start_date ≤ row.1.date ∧ row.1.date ≤ cfg.end_date ↔
      cfg.start_date ≤ row.1.date ∧ row.1.date ≤ stop'
    omega
  rw [hsame]
  exact List.prefix_append _ _

theorem turnover_extends (h : Causal (adapter m.columns)) :
    turnover m.columns (m.weights_window cfg adapter) <+:
      turnover later.columns (later.weights_window (cfg.until stop') adapter) := by
  rw [hext.columns]
  apply (causal_turnover m.columns).of_extended
  unfold Matrix.weights_window
  rw [hext.columns]
  exact window_of_extends (causal_target_weights h) hext hstop

theorem strategy_returns_extends (h : Causal (adapter m.columns)) :
    strategy_returns cfg adapter m <+: strategy_returns (cfg.until stop') adapter later := by
  have hgross : gross_returns cfg adapter m <+: gross_returns (cfg.until stop') adapter later := by
    unfold gross_returns Matrix.lagged_window Matrix.returns_window
    rw [hext.columns]
    apply zipWith_extended
    · exact window_of_extends (causal_lagged_weights h) hext hstop
    · exact window_of_extends causal_returns_matrix hext hstop
    · rw [length_causal_window (causal_lagged_weights h), length_causal_window causal_returns_matrix]
  apply zipWith_extended hgross (turnover_extends hext hstop h)
  rw [length_gross_returns h, length_weights_turnover h]

theorem performance_extends (h : Causal (adapter m.columns)) :
    performance cfg adapter m <+: performance (cfg.until stop') adapter later := by
  have hcum := causal_cumprod.of_extended (strategy_returns_extends hext hstop h)
  have hlength : (cumprod (strategy_returns cfg adapter m)).length =
      (turnover m.columns (m.weights_window cfg adapter)).length := by
    rw [causal_cumprod.length, length_strategy_returns h, length_weights_turnover h]
  unfold performance
  rw [hext.columns] at *
  apply zipWith_extended (days_window_extends hext hstop)
  · have hturn := turnover_extends hext hstop h
    rw [hext.columns] at hturn
    exact zipWith_extended hcum hturn hlength
  · rw [length_days_window, List.length_zip, ← hlength, min_self, causal_cumprod.length,
      length_strategy_returns h]

theorem benchmark_extends : benchmark cfg m <+: benchmark (cfg.until stop') later := by
  unfold benchmark
  apply zipWith_extended (days_window_extends hext hstop)
  · apply causal_cumprod.of_extended
    unfold benchmark_returns Matrix.returns_window
    rw [hext.columns]
    exact (causal_map _).of_extended (window_of_extends causal_returns_matrix hext hstop)
  · rw [length_days_window, causal_cumprod.length]
    unfold benchmark_returns
    rw [List.length_map]
    exact (length_causal_window causal_returns_matrix).symm

end Windows

section Sample

/-- Two tickers. -/
def sample_tickers : List Ticker := [⟨"AAPL", aapl_nonempty⟩, ⟨"MSFT", msft_nonempty⟩]

/-- The closes of a day, in the order of the tickers. -/
def sample_day (date : ℤ) (closes : List ℚ) : List DailyClose :=
  List.zipWith (fun t close => ⟨t, date, close⟩) sample_tickers closes

/-- Seven days on which both rise, and a fall. -/
def sample_closes : List DailyClose :=
  sample_day 0 [10, 20] ++ sample_day 1 [11, 21] ++ sample_day 2 [12, 22] ++
    sample_day 3 [13, 23] ++ sample_day 4 [14, 24] ++ sample_day 5 [15, 25] ++
    sample_day 6 [16, 26] ++ sample_day 7 [12, 13]

/-- The run replays the rise. -/
def sample_config : FastConfig := ⟨0, 6, 1 / 100, 1000⟩

def sample_rows : List DailyClose := upto sample_config.end_date sample_closes

def sample_report : FastReport where
  performance := performance sample_config (regime_adaptive_adapter id)
    (close_matrix sample_tickers sample_rows)
  benchmark := benchmark sample_config (close_matrix sample_tickers sample_rows)

theorem sample_run_reports :
    run_fast_vectorized id sample_config "RegimeAdaptiveStrategy" sample_tickers sample_rows =
      some sample_report := by
  apply (run_fast_vectorized_eq_some id).mpr
  exact ⟨regime_adaptive_adapter id, rfl, by decide +kernel, rfl⟩

/-- Both are bought on the sixth day, and earn on the seventh. -/
example : sample_report.performance.map PerfRow.portfolio_value =
    [1000, 1000, 1000, 1000, 1000, 990, 5214 / 5] := by decide +kernel

end Sample

end FastMode
