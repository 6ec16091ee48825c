import BacktestVisualizer.Engine.FillPrice

/-! # No Look-Ahead in the Event Loop

  What a poll sees and what the executor is marked with come from bars up to
  the poll, the slice leaves out no bar of the lookback window, and the
  performance records end no earlier than the last fill.
-/

open Timeline

namespace Engine

variable (bt : Backtest) (script : Script)

/-! ### Marks from a table -/

/-- The mark of a ticker after some timestamps, computed from a table alone. -/
def table_mark (rows : List Bar) (timestamps : List ℤ) (t : Ticker) : ℚ :=
  timestamps.foldl (fun price ts =>
    (chunk_price (rows.filter (fun row => row.timestamp = ts)) t).getD price) 0

theorem table_mark_snoc (rows : List Bar) (timestamps : List ℤ) (now : ℤ) (t : Ticker) :
    table_mark rows (timestamps ++ [now]) t =
      (chunk_price (rows.filter (fun row => row.timestamp = now)) t).getD
        (table_mark rows timestamps t) := by
  unfold table_mark
  rw [List.foldl_append]
  rfl

/-- Bars after the timestamps do not matter. -/
theorem table_mark_upto (rows : List Bar) {timestamps : List ℤ} {now : ℤ}
    (h : ∀ ts ∈ timestamps, ts ≤ now) (t : Ticker) :
    table_mark (rows.filter (fun row => row.timestamp ≤ now)) timestamps t =
      table_mark rows timestamps t := by
  induction timestamps using List.reverseRecOn with
  | nil => rfl
  | append_singleton timestamps ts ih =>
    rw [table_mark_snoc, table_mark_snoc, ih (fun ts hts => h ts (List.mem_append_left _ hts))]
    have hts : ts ≤ now := h ts (by simp)
    have hchunk : (rows.filter (fun row => row.timestamp ≤ now)).filter
        (fun row => row.timestamp = ts) = rows.filter (fun row => row.timestamp = ts) := by
      rw [List.filter_filter]
      apply List.filter_congr
      intro row _
      rw [← Bool.decide_and]
      apply decide_eq_decide.mpr
      omega
    rw [hchunk]

/-- A mark is 0 or a close of the ticker. -/
theorem table_mark_cases (rows : List Bar) (timestamps : List ℤ) (t : Ticker) :
    table_mark rows timestamps t = 0 ∨
    ∃ row ∈ rows, row.ticker = t ∧ row.timestamp ∈ timestamps ∧
      row.close_price = some (table_mark rows timestamps t) := by
  induction timestamps using List.reverseRecOn with
  | nil => exact Or.inl rfl
  | append_singleton timestamps now ih =>
    rw [table_mark_snoc]
    cases hprice : chunk_price (rows.filter (fun row => row.timestamp = now)) t with
    | none =>
      rcases ih with hzero | ⟨row, hrow, ht, hts, hclose⟩
      · exact Or.inl hzero
      · exact Or.inr ⟨row, hrow, ht, List.mem_append_left _ hts, hclose⟩
    | some q =>
      obtain ⟨row, hlast, hclose⟩ := Option.bind_eq_some_iff.mp hprice
      obtain ⟨hrow, ht⟩ := newest_mem hlast
      obtain ⟨hmem, hts⟩ := List.mem_filter.mp hrow
      simp only [decide_eq_true_eq] at ht hts
      exact Or.inr ⟨row, hmem, ht, by simp [hts], hclose⟩

/-- The executor of a run is marked from the table. -/
theorem run_marks (timestamps : List ℤ) (t : Ticker) :
    (run_event_loop bt script timestamps).executor.latest_prices t =
      if t ∈ bt.cfg.tickers then table_mark bt.main_data timestamps t else 0 := by
  induction timestamps using List.reverseRecOn with
  | nil =>
    show (0 : ℚ) = _
    split <;> rfl
  | append_singleton timestamps now ih =>
    rw [run_event_loop_snoc, loop_step_latest_prices, table_mark_snoc]
    unfold marked
    rw [mark_prices_latest]
    show (if t ∈ bt.cfg.tickers then (chunk_price (current_data_chunk bt now) t).getD
      ((run_event_loop bt script timestamps).executor.latest_prices t)
      else (run_event_loop bt script timestamps).executor.latest_prices t) = _
    rw [ih]
    by_cases ht : t ∈ bt.cfg.tickers
    · rw [if_pos ht, if_pos ht, if_pos ht]
      rfl
    · rw [if_neg ht, if_neg ht, if_neg ht]

/-- **Marks use no later bar**: at the poll gate they are those of the table
    cut off after `now`. -/
theorem marks_upto_now {before : List ℤ} {now : ℤ} (hrun : before ++ [now] <+: loop_timestamps bt)
    (t : Ticker) :
    (before_poll bt script (run_event_loop bt script before).executor now).latest_prices t =
      if t ∈ bt.cfg.tickers then
        table_mark (bt.main_data.filter (fun row => row.timestamp ≤ now)) (before ++ [now]) t
      else 0 := by
  have hle : ∀ ts ∈ before ++ [now], ts ≤ now := by
    intro ts hts
    rcases List.mem_append.mp hts with hold | hnow
    · exact le_of_lt (before_lt bt hrun ts hold)
    · exact le_of_eq (List.mem_singleton.mp hnow)
  rw [table_mark_upto _ hle, ← run_marks bt script, run_event_loop_snoc, loop_step_latest_prices,
    before_poll_latest_prices]

/-! ### Timestamps of the log -/

/-- An order logs nothing, or a fill at the time of its context. -/
theorem issue_log {cfg : Config} {ctx : StrategyContext} {s : Executor} {order : Order}
    {e : Entry} (h : e ∈ (issue cfg ctx s order).2.trade_log) :
    e ∈ s.trade_log ∨ e.timestamp = some ctx.time := by
  rcases issue_cases cfg ctx s order with hsame | ⟨_, r, _, _, heq, _, _, _, _, htime, _⟩
  · rw [hsame] at h
    exact Or.inl h
  · rw [heq] at h
    rcases execute_trade_cases cfg s r with hsame | ⟨_, _, _, _, _, _, hfill⟩
    · rw [hsame] at h
      exact Or.inl h
    · rw [hfill] at h
      simp only [settle, List.mem_append, List.mem_singleton] at h
      rcases h with hold | hnew
      · exact Or.inl hold
      · right
        rw [hnew]
        exact htime

theorem issue_all_log {cfg : Config} {ctx : StrategyContext} {s : Executor} {orders : List Order}
    {e : Entry} (h : e ∈ (issue_all cfg ctx s orders).trade_log) :
    e ∈ s.trade_log ∨ e.timestamp = some ctx.time := by
  induction orders using List.reverseRecOn with
  | nil => exact Or.inl h
  | append_singleton orders order ih =>
    rw [issue_all_snoc] at h
    rcases issue_log h with hold | hnew
    · exact ih hold
    · exact Or.inr hnew

theorem execute_children_log {s : Executor} {now : ℤ} {children : List ChildOrder} {e : Entry}
    (h : e ∈ (execute_children bt s now children).trade_log) :
    e ∈ s.trade_log ∨ e.timestamp = some (sim_time bt now) := by
  induction children generalizing s with
  | nil => exact Or.inl h
  | cons child children ih =>
    rcases ih h with hold | hnew
    · change e ∈ (execute_child_order bt.cfg s child (some (sim_time bt now))).2.trade_log at hold
      rcases execute_child_order_cases bt.cfg s child (some (sim_time bt now)) with
        hsame | ⟨_, _, _, hsettles⟩
      · rw [hsame] at hold
        exact Or.inl hold
      rcases hsettles.outcome (some (sim_time bt now)) with ⟨_, hfill⟩ | ⟨_, _, hfill⟩
      · rw [hfill] at hold
        exact Or.inl hold
      · rw [hfill] at hold
        simp only [settle, List.mem_append, List.mem_singleton] at hold
        rcases hold with hold | hnew
        · exact Or.inl hold
        · right
          rw [hnew]
    · exact Or.inr hnew

/-- Marking logs nothing. -/
theorem marked_log (s : Executor) (now : ℤ) : (marked bt s now).trade_log = s.trade_log := by
  have hfold : ∀ (updates : List (Ticker × Option ℚ)) (s : Executor),
      (updates.foldl (set_mark bt) s).trade_log = s.trade_log := by
    intro updates
    induction updates with
    | nil => intro s; rfl
    | cons u updates ih =>
      intro s
      rw [List.foldl_cons, ih]
      unfold set_mark update_price
      split
      · split <;> rfl
      · rfl
  exact hfold _ _

/-- A step logs fills at its own time only. -/
theorem loop_step_log {st : LoopState} {now : ℤ} {e : Entry}
    (h : e ∈ (loop_step bt script st now).executor.trade_log) :
    e ∈ st.executor.trade_log ∨ e.timestamp = some (sim_time bt now) := by
  have hbefore : ∀ e ∈ (before_poll bt script st.executor now).trade_log,
      e ∈ st.executor.trade_log ∨ e.timestamp = some (sim_time bt now) := by
    intro e he
    unfold before_poll at he
    split at he
    · rcases execute_children_log bt he with hold | hnew
      · rw [marked_log] at hold
        exact Or.inl hold
      · exact Or.inr hnew
    · rw [marked_log] at he
      exact Or.inl he
  unfold loop_step poll generate_signals_and_trade record_performance at h
  simp only at h
  split at h
  · split at h
    · exact hbefore e h
    · rcases issue_all_log h with hold | hnew
      · exact hbefore e hold
      · exact Or.inr hnew
  · exact hbefore e h

theorem run_log_times {timestamps : List ℤ} {e : Entry}
    (h : e ∈ (run_event_loop bt script timestamps).executor.trade_log) :
    ∃ ts ∈ timestamps, e.timestamp = some (sim_time bt ts) := by
  induction timestamps using List.reverseRecOn with
  | nil =>
    simp [LoopState.init, Executor.init] at h
  | append_singleton timestamps now ih =>
    rw [run_event_loop_snoc] at h
    rcases loop_step_log bt script h with hold | hnew
    · obtain ⟨ts, hts, he⟩ := ih hold
      exact ⟨ts, List.mem_append_left _ hts, he⟩
    · exact ⟨now, by simp, hnew⟩

theorem sim_time_comparable (now : ℤ) : (sim_time bt now).comparable = now := by
  show now + bt.zone.offset_at now - bt.zone.offset_at now = now
  omega

/-! ### The last record -/

/-- The performance of a complete run is recorded at its last timestamp. -/
theorem close_curve_last {last : ℤ} (hlast : (loop_timestamps bt).getLast? = some last) :
    ∃ record,
      (close_curve bt (run_event_loop bt script (loop_timestamps bt))).perf_records.getLast? =
        some record ∧ record.timestamp = last := by
  have hpolls := perf_records_run bt script (loop_timestamps bt)
  unfold close_curve
  rw [hlast]
  cases hrecord : (run_event_loop bt script (loop_timestamps bt)).perf_records.getLast? with
  | none =>
    -- the first timestamp was polled, so there is a record
    rw [List.getLast?_eq_none_iff.mp hrecord, List.map_nil] at hpolls
    rw [poll_times_eq_nil bt hpolls.symm] at hlast
    exact absurd hlast (by simp)
  | some record =>
    simp only
    by_cases hne : record.timestamp ≠ last
    · rw [if_pos hne]
      exact ⟨_, List.getLast?_concat, rfl⟩
    · rw [if_neg hne]
      exact ⟨record, hrecord, not_not.mp hne⟩

theorem close_curve_executor (st : LoopState) : (close_curve bt st).executor = st.executor := by
  unfold close_curve
  split
  · split <;> rfl
  · rfl

theorem le_last {last ts : ℤ} (hlast : (loop_timestamps bt).getLast? = some last)
    (hts : ts ∈ loop_timestamps bt) : ts ≤ last := by
  obtain ⟨before, hbefore⟩ := List.getLast?_eq_some_iff.mp hlast
  rw [hbefore] at hts
  rcases List.mem_append.mp hts with hold | hnew
  · refine le_of_lt (before_lt bt ?_ ts hold)
    rw [hbefore]
  · exact le_of_eq (List.mem_singleton.mp hnew)

/-- **No look-ahead and no gap.** At every timestamp of a run the slice holds
    exactly the bars of the lookback window, and every mark comes from the
    bars up to it. The timestamps polled increase from the start of the run
    on. In a complete run no fill is later than the last performance record. -/
theorem no_look_ahead :
    (∀ before now, before ++ [now] <+: loop_timestamps bt →
      (historical_slice bt now).Perm (bt.frame.filter (fun row =>
        now - bt.strategy_lookback_window ≤ row.timestamp ∧ row.timestamp ≤ now)) ∧
      ∀ t, let mark := (before_poll bt script (run_event_loop bt script before).executor
          now).latest_prices t
        (mark = if t ∈ bt.cfg.tickers then
            table_mark (bt.main_data.filter (fun row => row.timestamp ≤ now)) (before ++ [now]) t
          else 0) ∧
        (mark = 0 ∨ ∃ row ∈ bt.frame, row.ticker = t ∧ row.timestamp ≤ now ∧
          row.close_price = some mark)) ∧
    (∀ timestamps, timestamps <+: loop_timestamps bt →
      let polled := (run_event_loop bt script timestamps).perf_records.map PerfRecord.timestamp
      polled.Pairwise (· < ·) ∧ ∀ ts ∈ polled, bt.backtest_loop_start_date ≤ ts) ∧
    (let final := close_curve bt (run_event_loop bt script (loop_timestamps bt))
      ∀ e ∈ final.executor.trade_log, ∃ moment last, e.timestamp = some moment ∧
        final.perf_records.getLast? = some last ∧ moment.comparable ≤ last.timestamp) := by
  refine ⟨fun before now hrun => ⟨?_, fun t => ?_⟩, fun timestamps hrun => ?_, ?_⟩
  · rw [historical_slice_eq bt (exists_bar bt hrun).1]
    exact bt.main_data_perm.filter _
  · intro mark
    have hmark := marks_upto_now bt script hrun t
    refine ⟨hmark, ?_⟩
    show mark = 0 ∨ _
    rw [show mark = _ from hmark]
    -- a mark comes from a row that is in the table by now
    by_cases ht : t ∈ bt.cfg.tickers
    · rw [if_pos ht]
      rcases table_mark_cases (bt.main_data.filter (fun row => row.timestamp ≤ now))
        (before ++ [now]) t with hzero | ⟨row, hrow, hticker, _, hclose⟩
      · exact Or.inl hzero
      · obtain ⟨hmem, hle⟩ := List.mem_filter.mp hrow
        exact Or.inr ⟨row, bt.main_data_perm.mem_iff.mp hmem, hticker, by simpa using hle, hclose⟩
    · rw [if_neg ht]
      exact Or.inl rfl
  · intro polled
    have hpolled : polled.Sublist (loop_timestamps bt) := by
      show ((run_event_loop bt script timestamps).perf_records.map PerfRecord.timestamp).Sublist _
      rw [perf_records_run]
      exact (poll_times_sublist bt timestamps).trans hrun.sublist
    exact ⟨(loop_timestamps_sorted bt).sublist hpolled,
      fun ts hts => ((mem_loop_timestamps bt).mp (hpolled.subset hts)).2⟩
  · intro final e he
    -- closing the curve trades nothing
    have hexec : final.executor = (run_event_loop bt script (loop_timestamps bt)).executor :=
      close_curve_executor bt _
    rw [hexec] at he
    obtain ⟨ts, hts, htime⟩ := run_log_times bt script he
    obtain ⟨last, hlast⟩ : ∃ last, (loop_timestamps bt).getLast? = some last :=
      Option.ne_none_iff_exists'.mp (fun hnone => by
        rw [List.getLast?_eq_none_iff.mp hnone] at hts
        exact absurd hts (by simp))
    obtain ⟨record, hrecord, hrecordtime⟩ := close_curve_last bt script hlast
    refine ⟨sim_time bt ts, record, htime, hrecord, ?_⟩
    rw [sim_time_comparable, hrecordtime]
    exact le_last bt hlast hts

end Engine
