import BacktestVisualizer.Engine.IndicatorFeed
import BacktestVisualizer.Engine.IndicatorStreams

/-! # Indicators in a Run

  A strategy reads its indicators at a poll. What they were fed there depends
  on the warm-up, the first poll and the lookback window. An indicator that
  looks back over a bounded number of bars forgets the first two: its value is
  then that of the last bars of the ticker, whatever the poll interval.
-/

open Rolling Timeline

namespace Engine

variable (bt : Backtest) (script : Script)

/-! ### The feed since the first poll -/

/-- The lookback window reaches the priced bars since the last poll. -/
def InReach (i : Indicator) (last now : ℤ) : Prop :=
  ∀ row ∈ bars_between bt i last now, i.price row ≠ none →
    now - bt.strategy_lookback_window ≤ row.timestamp

/-- The calls for the bars of a ticker between two instants. -/
def bar_updates (i : Indicator) (after upto : ℤ) : List Update :=
  (bars_between bt i after upto).filterMap (update_from_row i)

section Feed

variable {bt} {i : Indicator} {first last now : ℤ}

/-- Bars up to the last poll, and bars since. -/
theorem bars_between_append (hfirst : first ≤ last) (hlast : last ≤ now) :
    bars_between bt i first now = bars_between bt i first last ++ bars_between bt i last now := by
  unfold bars_between
  -- the frame is sorted, so it can be cut at the last poll
  have hcut := (filter_le_append_filter_lt bt.main_data_sorted last).symm
  nth_rewrite 1 [hcut]
  rw [List.filter_append, List.filter_filter, List.filter_filter]
  congr 1
  · apply List.filter_congr
    intro row _
    simp only [← Bool.decide_and, decide_eq_decide]
    constructor
    · intro h
      exact ⟨h.1.1, h.1.2.1, h.2⟩
    · intro h
      exact ⟨⟨h.1, h.2.1, le_trans h.2.2 hlast⟩, h.2.2⟩
  · apply List.filter_congr
    intro row _
    simp only [← Bool.decide_and, decide_eq_decide]
    constructor
    · intro h
      exact ⟨h.1.1, h.2, h.1.2.2⟩
    · intro h
      exact ⟨⟨h.1, lt_of_le_of_lt hfirst h.2.1, h.2.2⟩, h.2.1⟩

theorem bar_updates_append (hfirst : first ≤ last) (hlast : last ≤ now) :
    bar_updates bt i first now = bar_updates bt i first last ++ bar_updates bt i last now := by
  unfold bar_updates
  rw [bars_between_append hfirst hlast, List.filterMap_append]

theorem bar_updates_self : bar_updates bt i now now = [] := by
  unfold bar_updates
  rw [List.filterMap_eq_nil_iff]
  intro row hrow
  obtain ⟨_, _, hlt, hle⟩ := mem_bars_between.mp hrow
  omega

/-- The prices of the calls are the prices of the bars. -/
theorem bar_updates_prices :
    (bar_updates bt i first now).map Update.data_point =
      (bars_between bt i first now).filterMap i.price := by
  unfold bar_updates
  rw [List.map_filterMap]
  apply List.filterMap_congr
  intro row _
  cases hu : update_from_row i row with
  | none =>
    cases hprice : i.price row with
    | none => rfl
    | some q =>
      obtain ⟨u, hsome⟩ := exists_update_iff.mpr ⟨q, hprice⟩
      rw [hu] at hsome
      cases hsome
  | some u => exact (update_from_row_eq_some hu).2.symm

end Feed

/-- A prefix of a run polls no later than the run. -/
theorem head_poll_snoc {timestamps : List ℤ} {now first : ℤ}
    (h : (poll_times bt (timestamps ++ [now])).head? = some first) :
    (poll_times bt timestamps).head? = some first ∨
      (poll_times bt timestamps = [] ∧ first = now) := by
  rw [poll_times_snoc] at h
  cases hpolls : poll_times bt timestamps with
  | nil =>
    rw [hpolls] at h
    split at h
    · exact .inr ⟨rfl, (Option.some.inj h).symm⟩
    · cases h
  | cons p polls =>
    rw [hpolls] at h
    split at h
    · exact .inl h
    · exact .inl h

/-- What a run has fed an indicator since its first poll. -/
structure FedSince (i : Indicator) (first last : ℤ) (fed : List Update) : Prop where
  ordered : first ≤ last
  fed_eq : ∃ earlier, fed = earlier ++ bar_updates bt i first last

/-- **One poll** that reaches back to the last one goes on with the bars in
    between. -/
theorem FedSince.poll {i : Indicator} {first last now : ℤ} {fed : List Update}
    (h : FedSince bt i first last fed) (hlt : last ≤ now)
    (hnow : ∃ row ∈ bt.main_data, row.timestamp = now) (hreach : InReach bt i last now) :
    FedSince bt i first now (fed ++ poll_updates bt i (some last) now) := by
  obtain ⟨hordered, earlier, rfl⟩ := h
  refine ⟨le_trans hordered hlt, earlier, ?_⟩
  rw [later_updates_reach hnow hreach, List.append_assoc, bar_updates_append hordered hlt]
  rfl

/-- **The feed since the first poll**: in every run whose lookback window
    reaches from poll to poll, an indicator has been fed the priced bars of
    its ticker after the first poll, in their order, and before them only
    what the warm-up and the first poll gave it. -/
theorem fed_since_first (hlook : 0 ≤ bt.strategy_lookback_window) {timestamps : List ℤ}
    (hrun : timestamps <+: loop_timestamps bt) {first : ℤ}
    (hfirst : (poll_times bt timestamps).head? = some first) {st : Registered}
    (hst : st ∈ (run_event_loop bt script timestamps).indicators)
    (hreach : (poll_times bt timestamps).IsChain (InReach bt st.indicator)) :
    ∃ last, (poll_times bt timestamps).getLast? = some last ∧
      FedSince bt st.indicator first last st.fed := by
  induction timestamps using List.reverseRecOn generalizing st with
  | nil => cases hfirst
  | append_singleton timestamps now ih =>
    have hbefore := (List.prefix_append timestamps [now]).trans hrun
    have hnow := (exists_bar bt hrun).1
    rw [indicators_step bt script hlook hrun] at hst
    rcases head_poll_snoc bt hfirst with hfirst | ⟨hnil, rfl⟩
    · by_cases hdue : due bt (poll_times bt timestamps).getLast? now = true
      · rw [if_pos hdue] at hst
        obtain ⟨old, hold, rfl⟩ := List.mem_map.mp hst
        rw [poll_times_snoc, if_pos hdue] at hreach ⊢
        rw [List.isChain_append] at hreach
        obtain ⟨last, hlast, hfed⟩ := ih hbefore hfirst hold hreach.1
        have hmem : last ∈ timestamps :=
          (poll_times_sublist bt timestamps).subset (List.mem_of_getLast? hlast)
        have hlt := before_lt bt hrun last hmem
        refine ⟨now, List.getLast?_concat, ?_⟩
        rw [hlast]
        exact hfed.poll bt (le_of_lt hlt) hnow (hreach.2.2 last hlast now rfl)
      · rw [if_neg hdue] at hst
        rw [poll_times_snoc, if_neg hdue] at hreach ⊢
        exact ih hbefore hfirst hst hreach
    · -- the first poll: nothing has come after it
      obtain rfl : timestamps = [] := poll_times_eq_nil bt hnil
      refine ⟨first, ?_, le_refl _, st.fed, ?_⟩
      · rw [poll_times_snoc]
        have hhead := hfirst
        rw [poll_times_snoc] at hhead
        split at hhead
        · next hdue => rw [if_pos hdue]; rfl
        · cases hhead
      · rw [bar_updates_self, List.append_nil]

/-! ### Indicators that look back over a bounded number of bars -/

section Recent

variable {period : ℕ}

theorem recent_mean_of_last (period : ℕ) : Recent period (mean_of_last period) := by
  intro earlier xs h
  unfold mean_of_last
  have hlong : period ≤ (earlier ++ xs).length := by
    rw [List.length_append]
    omega
  rw [if_pos h, if_pos hlong]
  exact congrArg (fun ys : List ℚ => Reading.of (ys.sum / period)) (recent_rtake period earlier xs h)

theorem recent_newest : Recent 1 newest := by
  intro earlier xs h
  unfold newest
  have hne : xs ≠ [] := List.ne_nil_of_length_pos h
  rw [List.getLast?_append_of_ne_nil earlier hne]

theorem recent_price_of_last (h : 0 < period) : Recent period (VWAP.price_of_last period) := by
  intro earlier us hfull
  unfold VWAP.price_of_last
  have hlong : period ≤ (earlier ++ us).length := by
    rw [List.length_append]
    omega
  have hne : us ≠ [] := List.ne_nil_of_length_pos (by omega)
  have hwindow : ((earlier ++ us).map VWAP.entry).rtake period =
      (us.map VWAP.entry).rtake period := (recent_rtake period).of_map VWAP.entry earlier us hfull
  rw [if_pos hfull, if_pos hlong, hwindow, List.getLast?_append_of_ne_nil earlier hne]

end Recent

/-- What the indicators of one kind each show after some updates, told by
    the last prices or bars alone. -/
structure ShowsLastBars (period : ℕ) (h : 0 < period) (high_col low_col : Column)
    (fed bars : List Update) : Prop where
  sma : period ≤ bars.length →
    ((fed.map Update.data_point).foldl SimpleMovingAverage.update (.of h)).reading =
      .of (((bars.map Update.data_point).rtake period).sum / period)
  roc : period + 1 ≤ bars.length →
    ((fed.map Update.data_point).foldl RateOfChange.update (.of period)).reading =
      newest (lagged period change_pct (bars.map Update.data_point))
  atr : period + 1 ≤ bars.length →
    (fed.foldl AverageTrueRange.update (.of h high_col low_col)).reading =
      .of (((lagged 1 (AverageTrueRange.range_of high_col low_col) bars).rtake period).sum / period)
  vwap : period ≤ bars.length →
    (fed.foldl VWAP.update (.of h)).reading = VWAP.price_of_last period bars

theorem shows_last_bars {period : ℕ} (h : 0 < period) (high_col low_col : Column)
    (earlier bars : List Update) :
    ShowsLastBars period h high_col low_col (earlier ++ bars) bars where
  sma := by
    intro hfull
    have hprices : period ≤ (bars.map Update.data_point).length := by
      rw [List.length_map]
      exact hfull
    rw [SimpleMovingAverage.reading_after, List.map_append,
      recent_mean_of_last period _ _ hprices]
    exact if_pos hprices
  roc := by
    intro hfull
    rw [RateOfChange.after h, List.map_append]
    apply recent_newest.of_lagged h
    rw [List.length_map]
    omega
  atr := by
    intro hfull
    have hranges : mean_of_last period
          (lagged 1 (AverageTrueRange.range_of high_col low_col) (earlier ++ bars)) =
        mean_of_last period (lagged 1 (AverageTrueRange.range_of high_col low_col) bars) :=
      (recent_mean_of_last period).of_lagged Nat.one_pos _ earlier bars hfull
    rw [AverageTrueRange.reading_after, hranges]
    apply if_pos
    rw [length_lagged]
    omega
  vwap := by
    intro hfull
    rw [VWAP.reading_after, recent_price_of_last h earlier bars hfull]

/-- **What a strategy reads at a poll.** In every run whose lookback window
    reaches from poll to poll, an average, a rate of change, a true range or a
    volume-weighted price over `period` bars is that of the last bars of the
    ticker up to the poll, once so many of them have come since the first
    poll: what the warm-up and the first poll fed does not matter any more,
    and neither does the poll interval. -/
theorem indicators_show_last_bars (hlook : 0 ≤ bt.strategy_lookback_window) {timestamps : List ℤ}
    (hrun : timestamps <+: loop_timestamps bt) {first last : ℤ}
    (hfirst : (poll_times bt timestamps).head? = some first)
    (hlast : (poll_times bt timestamps).getLast? = some last) {st : Registered}
    (hst : st ∈ (run_event_loop bt script timestamps).indicators)
    (hreach : (poll_times bt timestamps).IsChain (InReach bt st.indicator))
    {period : ℕ} (h : 0 < period) (high_col low_col : Column) :
    (bar_updates bt st.indicator first last).map Update.data_point =
      (bars_between bt st.indicator first last).filterMap st.indicator.price ∧
    ShowsLastBars period h high_col low_col st.fed (bar_updates bt st.indicator first last) := by
  obtain ⟨last', hlast', _, earlier, hfed⟩ :=
    fed_since_first bt script hlook hrun hfirst hst hreach
  obtain rfl : last = last' := Option.some.inj (hlast.symm.trans hlast')
  refine ⟨bar_updates_prices, ?_⟩
  rw [hfed]
  exact shows_last_bars h high_col low_col earlier _

/-- Two bars, and an average of one. -/
theorem indicators_of_two_bars :
    ∃ st, (run_event_loop (feed_backtest punctual_bars punctual_bars_sorted) no_orders
        [0, 5]).indicators = [st] ∧
      ShowsLastBars 1 Nat.one_pos .high_price .low_price st.fed
        (bar_updates (feed_backtest punctual_bars punctual_bars_sorted) st.indicator 0 5) := by
  obtain ⟨st, hall⟩ : ∃ st, (run_event_loop (feed_backtest punctual_bars punctual_bars_sorted)
      no_orders [0, 5]).indicators = [st] := List.length_eq_one_iff.mp (by decide +kernel)
  have hst : st ∈ (run_event_loop (feed_backtest punctual_bars punctual_bars_sorted) no_orders
      [0, 5]).indicators := by
    rw [hall]
    exact List.mem_singleton_self st
  have hpolls : poll_times (feed_backtest punctual_bars punctual_bars_sorted) [0, 5] = [0, 5] := by
    decide +kernel
  refine ⟨st, hall, ?_⟩
  refine (indicators_show_last_bars (feed_backtest punctual_bars punctual_bars_sorted) no_orders
    (by decide +kernel) (by decide +kernel) (by rw [hpolls]; rfl) (by rw [hpolls]; rfl) hst ?_
    Nat.one_pos .high_price .low_price).2
  -- every bar is less than a lookback window old
  rw [hpolls, List.isChain_pair]
  intro row hrow _
  have hafter := (mem_bars_between.mp hrow).2.2.1
  show 5 - 100 ≤ row.timestamp
  omega

end Engine
