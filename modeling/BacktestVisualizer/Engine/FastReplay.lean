import BacktestVisualizer.Engine.FastCausal

/-! # Fast Mode as a Replay

  The columns of the vectorised path come to the same values as somebody who
  takes one day at a time: the weights of the evening before earn the returns
  of the day, the closes up to the evening decide the next weights, and what
  changes hands is charged. The first day of the window is not charged.
-/

open Columns Rolling

namespace FastMode

variable {sqrt : ℚ → ℚ}

/-! ### Filled columns -/

/-- Once a column has a price it always has one. -/
def Filled (xs : List PyFloat) : Prop := xs.Pairwise (fun x y => y = .nan → x = .nan)

theorem filled_ffill (xs : List PyFloat) : Filled (ffill xs) := by
  unfold Filled ffill
  -- the state is the last price, if there was one
  suffices h : ∀ last : PyFloat,
      (scan (fun last x : PyFloat => if x = .nan then (last, last) else (x, x)) last xs).Pairwise
        (fun x y => y = .nan → x = .nan) ∧
      ∀ y ∈ scan (fun last x : PyFloat => if x = .nan then (last, last) else (x, x)) last xs,
        y = .nan → last = .nan from (h .nan).1
  induction xs with
  | nil => exact fun _ => ⟨List.Pairwise.nil, fun y hy => absurd hy List.not_mem_nil⟩
  | cons x xs ih =>
    intro last
    by_cases hx : x = .nan
    · obtain ⟨hpairs, hall⟩ := ih last
      simp only [scan, if_pos hx]
      refine ⟨List.pairwise_cons.mpr ⟨hall, hpairs⟩, ?_⟩
      intro y hy
      rcases List.mem_cons.mp hy with rfl | hy
      · exact id
      · exact hall y hy
    · obtain ⟨hpairs, hall⟩ := ih x
      simp only [scan, if_neg hx]
      refine ⟨List.pairwise_cons.mpr ⟨hall, hpairs⟩, ?_⟩
      intro y hy hnan
      rcases List.mem_cons.mp hy with rfl | hy
      · exact absurd hnan hx
      · exact absurd (hall y hy hnan) hx

theorem ffill_eq_self {xs : List PyFloat} (h : Filled xs) : ffill xs = xs := by
  unfold ffill
  suffices hscan : ∀ last : PyFloat, (∀ x ∈ xs, x = .nan → last = .nan) →
      scan (fun last x : PyFloat => if x = .nan then (last, last) else (x, x)) last xs = xs from
    hscan .nan (fun _ _ _ => rfl)
  induction xs with
  | nil => exact fun _ _ => rfl
  | cons x xs ih =>
    intro last hlast
    obtain ⟨hhead, htail⟩ := List.pairwise_cons.mp h
    by_cases hx : x = .nan
    · have hnan := hlast x List.mem_cons_self hx
      simp only [scan, if_pos hx]
      rw [ih htail last (fun _ _ _ => hnan), hnan, hx]
    · simp only [scan, if_neg hx]
      rw [ih htail x hhead]

theorem filled_close_matrix (tickers : List Ticker) (rows : List DailyClose) (t : Ticker) :
    Filled ((close_matrix tickers rows).closes.map (fun row => row t)) := by
  have hclose : (fill_days (pivot rows)).map Day.close =
      each ffill .nan ((pivot rows).map Day.close) := by
    have hlength : (each ffill .nan ((pivot rows).map Day.close)).length = (pivot rows).length := by
      rw [(causal_each causal_ffill .nan).length, List.length_map]
    unfold fill_days
    apply List.ext_getElem
    · simp [hlength]
    · intro i _ _
      simp
  have hcolumn : ((fill_days (pivot rows)).map Day.close).map (fun row => row t) =
      ffill (((pivot rows).map Day.close).map (fun row => row t)) := by
    rw [hclose]
    exact @column_table _ _ _ (fun t (rows : List Row) => ffill (rows.map (fun row => row t))) t
      (causal_ffill.comp (causal_column t)) PyFloat.nan _
  have hkept : ((close_matrix tickers rows).closes.map (fun row => row t)).Sublist
      (((fill_days (pivot rows)).map Day.close).map (fun row => row t)) :=
    ((List.filter_sublist.trans List.filter_sublist).map _).map _
  rw [hcolumn] at hkept
  exact List.Pairwise.sublist hkept (filled_ffill _)

/-- The return of the last row of a filled column. -/
theorem pct_change_snoc {xs : List PyFloat} {x : PyFloat} (h : Filled (xs ++ [x])) :
    pct_change 1 (xs ++ [x]) =
      pct_change 1 xs ++ [RegimeAdaptive.quotient x (xs.getLastD .nan) - .fin 1] := by
  have hfilled : Filled xs := List.Pairwise.sublist (List.sublist_append_left _ _) h
  have hshift : shift 1 PyFloat.nan (xs ++ [x]) = shift 1 .nan xs ++ [xs.getLastD .nan] := by
    rw [(causal_shift 1 PyFloat.nan).snoc .nan]
    exact congrArg (fun y => _ ++ [y]) (latest_shift causal_id .nan .nan xs x)
  unfold pct_change ratio
  rw [ffill_eq_self h, ffill_eq_self hfilled, hshift,
    List.zipWith_append ((causal_shift 1 PyFloat.nan).length xs).symm, List.map_append]
  rfl

/-! ### One day at a time -/

section Replay

variable (adapter : Adapter) (columns : List Ticker) (fee : ℚ)

/-- The weights that the closes so far decide, none before the first. -/
def evening (history : List Row) : Ticker → ℚ :=
  latest (target_weights adapter columns) (fun _ => 0) history

/-- What a ticker gains over a day. -/
def day_return (yesterday : Option Row) (today : Row) (t : Ticker) : ℚ :=
  clean (RegimeAdaptive.quotient (today t) (yesterday.elim .nan (fun row => row t)) - .fin 1)

/-- What the weights of the evening before earn. -/
def earned (history : List Row) (today : Row) : ℚ :=
  row_sum columns (fun t =>
    evening adapter columns history t * day_return history.getLast? today t)

/-- What changes hands in the evening. -/
def turned (history : List Row) (today : Row) : ℚ :=
  row_sum columns (fun t =>
    |evening adapter columns (history ++ [today]) t - evening adapter columns history t|)

/-- A portfolio with the closes it has seen. -/
structure Book where
  history : List Row
  value : ℚ

/-- A day at a given charge. -/
def Book.day (charge : ℚ) (book : Book) (today : Row) : Book where
  history := book.history ++ [today]
  value := book.value * (1 + (earned adapter columns book.history today -
    turned adapter columns book.history today * charge))

/-- The values of a portfolio day by day, the first day free of charge. -/
def replay (book : Book) : List Row → List ℚ
  | [] => []
  | today :: days =>
      (book.day adapter columns 0 today).value ::
        scan (fun (book : Book) today =>
            (book.day adapter columns fee today, (book.day adapter columns fee today).value))
          (book.day adapter columns 0 today) days

end Replay

/-! ### The columns, day by day -/

section Days

variable {adapter : Adapter} {columns : List Ticker}

theorem latest_lagged (h : Causal (adapter columns)) (history : List Row) (today : Row) :
    latest (lagged_weights adapter columns) (fun _ => 0) (history ++ [today]) =
      evening adapter columns history :=
  latest_shift (causal_target_weights h) _ _ history today

theorem latest_returns {history : List Row} {today : Row}
    (h : ∀ t, Filled ((history ++ [today]).map (fun row => row t))) :
    latest returns_matrix (fun _ => 0) (history ++ [today]) = day_return history.getLast? today := by
  unfold returns_matrix each
  rw [latest_table (fun t => ((causal_map clean).comp (causal_pct_change 1)).comp (causal_column t))
    0 (by simp)]
  funext t
  have hfilled := h t
  show ((pct_change 1 ((history ++ [today]).map (fun row => row t))).map clean).getLastD 0 = _
  unfold day_return
  rw [List.map_append, List.map_singleton] at hfilled ⊢
  rw [pct_change_snoc hfilled, List.map_append, List.map_singleton, List.getLastD_concat]
  congr 3
  rw [List.getLastD_eq_getLast?, List.getLast?_map]
  cases history.getLast? with
  | none => rfl
  | some row => rfl

/-- The turnover of the rows after a row. -/
def turnover_from (columns : List Ticker) : (Ticker → ℚ) → List (Ticker → ℚ) → List ℚ :=
  scan (fun last w => (w, row_sum columns (fun t => |w t - last t|)))

theorem turnover_cons (w : Ticker → ℚ) (ws : List (Ticker → ℚ)) :
    turnover columns (w :: ws) = 0 :: turnover_from columns w ws := by
  unfold turnover shift
  rw [List.length_map, List.length_cons, List.replicate_one, List.singleton_append,
    List.take_succ_cons, List.zipWith_cons_cons]
  congr 1
  induction ws generalizing w with
  | nil => rfl
  | cons v ws ih =>
    rw [List.map_cons, List.length_cons, List.take_succ_cons, List.zipWith_cons_cons, ih v]
    rfl

/-- The net returns of some days after others. -/
def nets (adapter : Adapter) (columns : List Ticker) (fee : ℚ) : List Row → List Row → List ℚ
  | _, [] => []
  | history, today :: days =>
      (earned adapter columns history today - turned adapter columns history today * fee) ::
        nets adapter columns fee (history ++ [today]) days

/-- After the first day of the window the columns hold the net returns. -/
theorem nets_eq (h : Causal (adapter columns)) (fee : ℚ) {history days : List Row}
    (hfilled : ∀ t, Filled ((history ++ days).map (fun row => row t))) :
    List.zipWith (fun gross turned => gross - turned * fee)
      (List.zipWith (fun w r => row_sum columns (fun t => w t * r t))
        (since (lagged_weights adapter columns) history days) (since returns_matrix history days))
      (turnover_from columns (evening adapter columns history)
        (since (target_weights adapter columns) history days)) =
      nets adapter columns fee history days := by
  induction days generalizing history with
  | nil =>
    rw [(causal_lagged_weights h).since_nil]
    rfl
  | cons today days ih =>
    have hsplit : history ++ today :: days = history ++ [today] ++ days := by simp
    have htoday : ∀ t, Filled ((history ++ [today]).map (fun row => row t)) := by
      intro t
      have hall := hfilled t
      rw [hsplit, List.map_append] at hall
      exact List.Pairwise.sublist (List.sublist_append_left _ _) hall
    rw [(causal_lagged_weights h).since_cons (fun _ => 0), latest_lagged h,
      causal_returns_matrix.since_cons (fun _ => 0), latest_returns htoday,
      (causal_target_weights h).since_cons (fun _ => 0), List.zipWith_cons_cons]
    show List.zipWith _ (_ :: _) (_ :: turnover_from columns (evening adapter columns (history ++ [today])) _) = _
    rw [List.zipWith_cons_cons, ih (by rw [← hsplit]; exact hfilled)]
    rfl

/-- Values that grow by the net returns. -/
theorem values_of_nets (fee capital total : ℚ) (history days : List Row) :
    (scan (fun total r => (total * (1 + r), total * (1 + r))) total
        (nets adapter columns fee history days)).map (fun v => v * capital) =
      scan (fun (book : Book) today =>
          (book.day adapter columns fee today, (book.day adapter columns fee today).value))
        ⟨history, total * capital⟩ days := by
  induction days generalizing history total with
  | nil => rfl
  | cons today days ih =>
    have hvalue : ∀ r : ℚ, total * (1 + r) * capital = total * capital * (1 + r) := fun r => by ring
    simp only [nets, scan, List.map_cons, hvalue, ih]
    rfl

end Days

/-! ### The window -/

section Window

variable {m : Matrix} {cfg : FastConfig}

/-- The closes before the window, and those in it. -/
def Matrix.before (m : Matrix) (cfg : FastConfig) : List Row :=
  (m.days.filter (fun day => day.date < cfg.start_date)).map Day.close

def Matrix.inside (m : Matrix) (cfg : FastConfig) : List Row :=
  (m.days.filter (fun day => cfg.start_date ≤ day.date ∧ day.date ≤ cfg.end_date)).map Day.close

theorem sorted_close_matrix (tickers : List Ticker) (rows : List DailyClose) :
    Timeline.Sorted Day.date (close_matrix tickers rows).days := by
  have hdates : ((fill_days (pivot rows)).map Day.date).Pairwise (· ≤ ·) := by
    rw [fill_days_dates]
    unfold pivot
    rw [List.map_map]
    exact (List.map_id _).symm ▸ sorted_trade_dates rows
  exact (List.pairwise_map.mp hdates).sublist (List.filter_sublist.trans List.filter_sublist)

/-- The days before the window, those in it and those after it. -/
theorem days_split (hsorted : Timeline.Sorted Day.date m.days) :
    ∃ after, m.days = m.days.filter (fun day => day.date < cfg.start_date) ++
        m.days.filter (fun day => cfg.start_date ≤ day.date ∧ day.date ≤ cfg.end_date) ++ after ∧
      ∀ day ∈ after, ¬(cfg.start_date ≤ day.date ∧ day.date ≤ cfg.end_date) := by
  have hstart := Timeline.filter_le_append_filter_lt hsorted (cfg.start_date - 1)
  have hrest : Timeline.Sorted Day.date (m.days.filter (fun day => cfg.start_date - 1 < day.date)) :=
    hsorted.filter _
  have hstop := Timeline.filter_le_append_filter_lt hrest cfg.end_date
  refine ⟨(m.days.filter (fun day => cfg.start_date - 1 < day.date)).filter
    (fun day => cfg.end_date < day.date), ?_, ?_⟩
  · have hbefore : (fun day : Day => decide (day.date ≤ cfg.start_date - 1)) =
        fun day => decide (day.date < cfg.start_date) := by
      funext day
      apply decide_eq_decide.mpr
      omega
    have hinside : (m.days.filter (fun day => cfg.start_date - 1 < day.date)).filter
          (fun day => day.date ≤ cfg.end_date) =
        m.days.filter (fun day => cfg.start_date ≤ day.date ∧ day.date ≤ cfg.end_date) := by
      rw [List.filter_filter]
      congr 1
      funext day
      rw [← Bool.decide_and]
      apply decide_eq_decide.mpr
      omega
    rw [List.append_assoc, ← hinside, hstop, ← hbefore]
    exact hstart.symm
  · intro day hday
    have := (List.mem_filter.mp hday).2
    simp only [decide_eq_true_eq] at this
    omega

/-- The rows of the window are the answers after the days before it. -/
theorem window_eq_since {α : Type} {f : List Row → List α} (hf : Causal f)
    (hsorted : Timeline.Sorted Day.date m.days) :
    m.window cfg.start_date cfg.end_date (f m.closes) =
      since f (m.before cfg) (m.inside cfg) := by
  obtain ⟨after, hdays, hafter⟩ := @days_split m cfg hsorted
  have hcloses : m.closes = m.before cfg ++ m.inside cfg ++ after.map Day.close := by
    unfold Matrix.closes Matrix.before Matrix.inside
    conv_lhs => rw [hdays]
    rw [List.map_append, List.map_append]
  obtain ⟨late, hlate⟩ := hf.earlier (m.before cfg ++ m.inside cfg) (after.map Day.close)
  unfold Matrix.window
  rw [hcloses, ← hlate]
  unfold since
  generalize hanswers : f (m.before cfg ++ m.inside cfg) = answers
  have hlength : answers.length = (m.before cfg).length + (m.inside cfg).length := by
    rw [← hanswers, hf.length, List.length_append]
  have hbefore : (m.before cfg).length =
      (m.days.filter (fun day => day.date < cfg.start_date)).length := List.length_map _
  have hinside : (m.inside cfg).length = (m.days.filter
      (fun day => cfg.start_date ≤ day.date ∧ day.date ≤ cfg.end_date)).length := List.length_map _
  have hparts : answers = answers.take (m.before cfg).length ++ answers.drop (m.before cfg).length :=
    (List.take_append_drop _ _).symm
  conv_lhs => rw [hdays, hparts]
  rw [List.zip_append (by simp [hlength, hbefore, hinside]),
    List.zip_append (by simp [hlength, hbefore]),
    List.filter_append, List.filter_append, List.map_append, List.map_append]
  -- only the middle part lies in the window
  have hnone : ∀ {days : List Day} {ys : List α},
      (∀ day ∈ days, ¬(cfg.start_date ≤ day.date ∧ day.date ≤ cfg.end_date)) →
        (days.zip ys).filter
          (fun row => cfg.start_date ≤ row.1.date ∧ row.1.date ≤ cfg.end_date) = [] := by
    intro days ys hout
    apply List.filter_eq_nil_iff.mpr
    intro row hrow
    simpa using hout row.1 (List.of_mem_zip hrow).1
  have hall : ((m.days.filter (fun day => cfg.start_date ≤ day.date ∧ day.date ≤ cfg.end_date)).zip
        (answers.drop (m.before cfg).length)).filter
          (fun row => cfg.start_date ≤ row.1.date ∧ row.1.date ≤ cfg.end_date) =
      (m.days.filter (fun day => cfg.start_date ≤ day.date ∧ day.date ≤ cfg.end_date)).zip
        (answers.drop (m.before cfg).length) := by
    apply List.filter_eq_self.mpr
    intro row hrow
    exact (List.mem_filter.mp (List.of_mem_zip hrow).1).2
  rw [hnone hafter, hnone (by
    intro day hday
    have := (List.mem_filter.mp hday).2
    simp only [decide_eq_true_eq] at this
    omega), hall, List.map_nil, List.nil_append, List.append_nil]
  apply List.map_snd_zip
  rw [List.length_drop, hlength, ← hinside]
  omega

theorem map_zipWith_zip {α β γ δ : Type} {xs : List α} {ys : List β} {zs : List γ} (g : β → δ)
    (hx : xs.length = ys.length) (hy : ys.length = zs.length) :
    List.zipWith (fun (_ : α) (entry : β × γ) => g entry.1) xs (ys.zip zs) = ys.map g := by
  apply List.ext_getElem
  · simp [hx, hy]
  · intro i _ _
    simp

theorem performance_values {adapter : Adapter} (h : Causal (adapter m.columns)) :
    (performance cfg adapter m).map PerfRow.portfolio_value =
      (cumprod (strategy_returns cfg adapter m)).map (fun v => v * cfg.initial_capital) := by
  have hlength : (cumprod (strategy_returns cfg adapter m)).length = m.count cfg := by
    rw [causal_cumprod.length, length_strategy_returns h]
  unfold performance
  rw [List.map_zipWith]
  exact map_zipWith_zip (fun v => v * cfg.initial_capital) (by rw [length_days_window, hlength])
    (by rw [hlength, length_weights_turnover h])

/-- The values of a run are those of a replay of its days. -/
theorem values_replayed {adapter : Adapter} (h : Causal (adapter m.columns))
    (hsorted : Timeline.Sorted Day.date m.days)
    (hfilled : ∀ t, Filled (m.closes.map (fun row => row t))) :
    (performance cfg adapter m).map PerfRow.portfolio_value =
      replay adapter m.columns cfg.slippage ⟨m.before cfg, cfg.initial_capital⟩ (m.inside cfg) := by
  have hinside : ∀ t, Filled ((m.before cfg ++ m.inside cfg).map (fun row => row t)) := by
    intro t
    obtain ⟨after, hdays, _⟩ := @days_split m cfg hsorted
    have hall := hfilled t
    unfold Matrix.closes at hall
    rw [hdays, List.map_append, List.map_append, List.map_append] at hall
    exact List.Pairwise.sublist (List.sublist_append_left _ _) hall
  rw [performance_values h]
  unfold strategy_returns gross_returns Matrix.lagged_window Matrix.returns_window
    Matrix.weights_window
  rw [window_eq_since (causal_lagged_weights h) hsorted, window_eq_since causal_returns_matrix hsorted,
    window_eq_since (causal_target_weights h) hsorted]
  cases hdays : m.inside cfg with
  | nil =>
    rw [(causal_lagged_weights h).since_nil]
    rfl
  | cons today days =>
    rw [hdays] at hinside
    have hsplit : m.before cfg ++ today :: days = m.before cfg ++ [today] ++ days := by simp
    rw [hsplit] at hinside
    have htoday : ∀ t, Filled ((m.before cfg ++ [today]).map (fun row => row t)) := by
      intro t
      have hall := hinside t
      rw [List.map_append] at hall
      exact List.Pairwise.sublist (List.sublist_append_left _ _) hall
    rw [(causal_lagged_weights h).since_cons (fun _ => 0), latest_lagged h,
      causal_returns_matrix.since_cons (fun _ => 0), latest_returns htoday,
      (causal_target_weights h).since_cons (fun _ => 0), turnover_cons, List.zipWith_cons_cons,
      List.zipWith_cons_cons]
    have hnets := nets_eq h cfg.slippage hinside
    unfold evening at hnets
    rw [hnets]
    -- the first day, then the days after it
    have hrest := @values_of_nets adapter m.columns cfg.slippage
      cfg.initial_capital (1 * (1 + (earned adapter m.columns (m.before cfg) today -
        0 * cfg.slippage))) (m.before cfg ++ [today]) days
    have hfirst : 1 * (1 + (earned adapter m.columns (m.before cfg) today - 0 * cfg.slippage)) *
        cfg.initial_capital = cfg.initial_capital * (1 + (earned adapter m.columns (m.before cfg) today -
          turned adapter m.columns (m.before cfg) today * 0)) := by ring
    rw [hfirst] at hrest
    exact congrArg₂ List.cons hfirst hrest

/-- **Fast mode is a replay**: the values it reports are those of a portfolio
    that takes the closes of the window one day at a time. -/
theorem fast_mode_replays {class_name : String} {tickers : List Ticker} {rows : List DailyClose}
    {report : FastReport} (hrun : run_fast_vectorized sqrt cfg class_name tickers rows = some report) :
    ∃ adapter, (ADAPTERS_BY_CLASSNAME sqrt).lookup class_name = some adapter ∧
      report.performance.map PerfRow.portfolio_value =
        replay adapter (selected_tickers tickers rows) cfg.slippage
          ⟨(close_matrix tickers rows).before cfg, cfg.initial_capital⟩
          ((close_matrix tickers rows).inside cfg) := by
  obtain ⟨adapter, hadapter, _, rfl⟩ := (run_fast_vectorized_eq_some sqrt).mp hrun
  refine ⟨adapter, hadapter, ?_⟩
  exact values_replayed (m := close_matrix tickers rows) (causal_adapter hadapter _)
    (sorted_close_matrix tickers rows) (filled_close_matrix tickers rows)

theorem sample_fast_mode_replays :
    ∃ adapter, (ADAPTERS_BY_CLASSNAME id).lookup "RegimeAdaptiveStrategy" = some adapter ∧
      sample_report.performance.map PerfRow.portfolio_value =
        replay adapter (selected_tickers sample_tickers sample_rows) sample_config.slippage
          ⟨(close_matrix sample_tickers sample_rows).before sample_config,
            sample_config.initial_capital⟩
          ((close_matrix sample_tickers sample_rows).inside sample_config) :=
  fast_mode_replays sample_run_reports

end Window

end FastMode
