import BacktestVisualizer.Data.DayBars
import BacktestVisualizer.Data.FmpHistory
import BacktestVisualizer.Framework.Storage

/-! # The Closes of the Dashboard

  `repositories/market_data.py` and `services/market_data.py`: the closes of
  the dashboard are looked up day by day, the last row of a session that has
  a close. The engine's daily bars come from the same table by another query.
  The module compares both, and shows what `closes_between` makes of the
  stored closes and those of FMP.
-/

open Batches Timeline

namespace History

/-! ### Sessions as instants -/

/-- What `AT TIME ZONE` and `datetime.combine` make of a day of the exchange:
    the instants its session opens and closes at, and its first instant. -/
structure SessionClock extends Clock where
  session_open : ℤ → ℤ
  session_close : ℤ → ℤ
  midnight : ℤ → ℤ
  session_iff : ∀ d t, session_open d ≤ t ∧ t ≤ session_close d ↔
    toClock.date t = d ∧ toClock.in_session t
  date_midnight : ∀ d, toClock.date (midnight d) = d
  midnight_first : ∀ d t, toClock.date t = d → midnight d ≤ t

/-- Winter has days of 24 hours. -/
def winter_sessions : SessionClock where
  toClock := winter_clock
  session_open := fun d => d * day_us + 34200000000 + 5 * hour_us
  session_close := fun d => d * day_us + 57600000000 + 5 * hour_us
  midnight := fun d => d * day_us + 5 * hour_us
  session_iff := by
    intro d t
    show _ ↔ (t - 5 * hour_us) / day_us = d ∧
      34200000000 ≤ (t - 5 * hour_us) % day_us ∧ (t - 5 * hour_us) % day_us ≤ 57600000000
    unfold day_us hour_us
    omega
  date_midnight := by
    intro d
    show (d * day_us + 5 * hour_us - 5 * hour_us) / day_us = d
    unfold day_us hour_us
    omega
  midnight_first := by
    intro d t h
    have hdate : (t - 5 * hour_us) / day_us = d := h
    unfold day_us hour_us at *
    omega

section Clocks

variable (clock : SessionClock)

theorem midnight_le_iff {d t : ℤ} : clock.midnight d ≤ t ↔ d ≤ clock.date t := by
  constructor
  · intro h
    have hmono := clock.date_mono _ _ h
    have hdate := clock.date_midnight d
    unfold Clock.date at *
    omega
  · intro h
    by_contra hlt
    have hmono := clock.date_mono t (clock.midnight d) (by omega)
    have hdate := clock.date_midnight d
    have hsame : clock.date t = d := by
      unfold Clock.date at *
      omega
    exact hlt (clock.midnight_first d t hsame)

end Clocks

/-! ### `daily_closes` -/

/-- `generate_series(first, last, interval '1 day')`. -/
def calendar_days (first last : ℤ) : List ℤ :=
  (List.range (last + 1 - first).toNat).map (fun (k : ℕ) => first + k)

section Queries

variable (table : MarketTable) (clock : SessionClock) (t : Ticker)

/-- The probe of one day: the newest row of its session with a close. -/
def probe (since d : ℤ) : Option ℚ :=
  (((table.rows t).filter (fun r => max since (clock.session_open d) ≤ r.timestamp ∧
    r.timestamp ≤ clock.session_close d ∧ r.close_price ≠ none)).getLast?).bind
      MarketRow.close_price

/-- The closes of one ticker in its own window. -/
def ticker_closes (since last : ℤ) : List (ℤ × ℚ) :=
  (calendar_days (clock.date since) last).filterMap
    (fun d => (probe table clock t since d).map (fun close => (d, close)))

end Queries

/-- `daily_closes`: tickers without a close are absent. -/
def daily_closes (table : MarketTable) (clock : SessionClock)
    (window_by_ticker : List (Ticker × ℤ × ℤ)) : List (Ticker × List (ℤ × ℚ)) :=
  (window_by_ticker.map (fun (t, since, last) => (t, ticker_closes table clock t since last))).filter
    (fun entry => entry.2 ≠ [])

/-! ### The same closes as the daily bars -/

section Compare

variable {table : MarketTable} {clock : SessionClock} {t : Ticker}

theorem mem_calendar_days {first last d : ℤ} :
    d ∈ calendar_days first last ↔ first ≤ d ∧ d ≤ last := by
  unfold calendar_days
  rw [List.mem_map]
  constructor
  · intro h
    obtain ⟨k, hk, rfl⟩ := h
    rw [List.mem_range] at hk
    omega
  · intro h
    refine ⟨(d - first).toNat, ?_, ?_⟩
    · rw [List.mem_range]
      omega
    · omega

theorem calendar_days_sorted (first last : ℤ) : (calendar_days first last).Pairwise (· < ·) := by
  unfold calendar_days
  rw [List.pairwise_map]
  apply List.pairwise_lt_range.imp
  intro a b h
  omega

/-- The close of a day for the dashboard: the last one there is. -/
def last_close (table : MarketTable) (clock : SessionClock) (t : Ticker) (d : ℤ) : Option ℚ :=
  ((day_rows table clock.toClock t d).filterMap MarketRow.close_price).getLast?

theorem filterMap_eq_filter_bind {α β : Type} (f : α → Option β) (l : List α) :
    (l.filterMap f).getLast? = ((l.filter (fun a => f a ≠ none)).getLast?).bind f := by
  induction l using List.reverseRecOn with
  | nil => rfl
  | append_singleton l a ih =>
    rw [List.filterMap_append, List.filter_append]
    cases h : f a with
    | none =>
      rw [List.filterMap_cons_none h, List.filter_cons_of_neg (by simp [h])]
      simpa using ih
    | some b =>
      rw [List.filterMap_cons_some h, List.filter_cons_of_pos (by simp [h])]
      simp [h]

/-- A window that begins at midnight cuts off no part of a session. -/
theorem probe_eq {first d : ℤ} (h : first ≤ d) :
    probe table clock t (clock.midnight first) d = last_close table clock t d := by
  unfold probe last_close
  rw [filterMap_eq_filter_bind]
  congr 2
  unfold day_rows
  rw [List.filter_filter]
  apply List.filter_congr
  intro r _
  have hmidnight := midnight_le_iff clock (d := first) (t := r.timestamp)
  have hsession := clock.session_iff d r.timestamp
  simp only [← Bool.decide_and, decide_eq_decide]
  constructor
  · intro hr
    obtain ⟨hlow, hhigh, hclose⟩ := hr
    obtain ⟨hdate, hin⟩ := hsession.mp ⟨le_trans (le_max_right _ _) hlow, hhigh⟩
    exact ⟨hclose, hin, hdate⟩
  · intro hr
    obtain ⟨hclose, hin, hdate⟩ := hr
    obtain ⟨hlow, hhigh⟩ := hsession.mpr ⟨hdate, hin⟩
    exact ⟨max_le (hmidnight.mpr (by omega)) hlow, hhigh, hclose⟩

/-- A day whose last row has no close although another row has one. -/
def EndsWithoutClose (table : MarketTable) (clock : SessionClock) (t : Ticker) (d : ℤ) : Prop :=
  ∃ last, (day_rows table clock.toClock t d).getLast? = some last ∧ last.close_price = none ∧
    ∃ r ∈ day_rows table clock.toClock t d, r.close_price ≠ none

theorem last_close_eq_none {d : ℤ} :
    last_close table clock t d = none ↔
      ∀ r ∈ day_rows table clock.toClock t d, r.close_price = none := by
  unfold last_close
  rw [List.getLast?_eq_none_iff, List.filterMap_eq_nil_iff]

/-- Then the dashboard has a close, and the engine has no bar. -/
theorem ends_without_close_iff {d : ℤ} :
    EndsWithoutClose table clock t d ↔
      whole_bar table clock.toClock t d = none ∧ last_close table clock t d ≠ none := by
  rw [Ne, last_close_eq_none, not_forall]
  constructor
  · intro h
    obtain ⟨last, hlast, hclose, r, hr, hne⟩ := h
    refine ⟨?_, r, fun hall => hne (hall hr)⟩
    unfold whole_bar day_bar
    rw [hlast]
    show last.close_price.bind _ = none
    rw [hclose]
    rfl
  · intro h
    obtain ⟨hbar, r, hr⟩ := h
    obtain ⟨hmem, hne⟩ := Classical.not_imp.mp hr
    cases hlast : (day_rows table clock.toClock t d).getLast? with
    | none => simp [List.getLast?_eq_none_iff.mp hlast] at hmem
    | some last =>
      refine ⟨last, hlast, ?_, r, hmem, hne⟩
      by_contra hclose
      obtain ⟨b, hb⟩ := day_bar_exists (t := t) hlast hclose
      have hsome : whole_bar table clock.toClock t d = some b := hb
      rw [hbar] at hsome
      cases hsome

/-- Where the engine has a bar, the dashboard has its close. -/
theorem last_close_of_bar {d : ℤ} {b : DayBar}
    (h : whole_bar table clock.toClock t d = some b) :
    last_close table clock t d = some b.close_price := by
  obtain ⟨r, hlast, hclose, _, _⟩ := day_bar_some h
  obtain ⟨before, hrows⟩ := List.getLast?_eq_some_iff.mp hlast
  unfold last_close
  rw [hrows, List.filterMap_append, List.filterMap_cons_some hclose]
  simp

/-- The days of the engine's bars, in a window of whole days. -/
theorem trade_dates_eq {w : Window} {first last : ℤ}
    (hw : ∀ p, w.holds p ↔ first ≤ clock.date p ∧ clock.date p ≤ last) :
    trade_dates table clock.toClock t w =
      (calendar_days first last).filter (fun d => day_rows table clock.toClock t d ≠ []) := by
  apply List.Pairwise.eq_of_mem_iff (r := (· < ·))
  · unfold trade_dates
    apply dedup_keys_sorted
    have hsorted := rows_sorted (t := t) (session_rows table clock.toClock t w) List.filter_sublist
    exact hsorted.imp (fun hlt => clock.date_mono _ _ (le_of_lt hlt))
  · exact (calendar_days_sorted first last).filter _
  · intro d
    rw [List.mem_filter, mem_calendar_days]
    unfold trade_dates session_rows
    rw [List.mem_dedup, List.mem_map]
    constructor
    · intro h
      obtain ⟨r, hr, rfl⟩ := h
      rw [List.mem_filter, decide_eq_true_eq] at hr
      obtain ⟨hrow, hlow, hhigh, hin⟩ := hr
      refine ⟨(hw r.timestamp).mp ⟨hlow, hhigh⟩, ?_⟩
      rw [decide_eq_true_eq]
      exact List.ne_nil_of_mem (mem_day_rows.mpr ⟨hrow, hin, rfl⟩)
    · intro h
      obtain ⟨hdays, hrows⟩ := h
      rw [decide_eq_true_eq] at hrows
      obtain ⟨r, hr⟩ := List.exists_mem_of_ne_nil _ hrows
      obtain ⟨hrow, hin, hdate⟩ := mem_day_rows.mp hr
      obtain ⟨hlow, hhigh⟩ := (hw r.timestamp).mpr (hdate ▸ hdays)
      refine ⟨r, ?_, hdate⟩
      rw [List.mem_filter, decide_eq_true_eq]
      exact ⟨hrow, hlow, hhigh, hin⟩

/-- A window of whole days sees whole days. -/
theorem rows_of_day_whole {w : Window} {first last d : ℤ}
    (hw : ∀ p, w.holds p ↔ first ≤ clock.date p ∧ clock.date p ≤ last)
    (hd : first ≤ d ∧ d ≤ last) :
    rows_of_day table clock.toClock t w d = day_rows table clock.toClock t d := by
  unfold rows_of_day session_rows day_rows
  rw [List.filter_filter]
  apply List.filter_congr
  intro r _
  have hheld := hw r.timestamp
  unfold Window.holds at hheld
  simp only [← Bool.decide_and, decide_eq_decide]
  constructor
  · intro h
    exact ⟨h.2.2.2, h.1⟩
  · intro h
    have hin := hheld.mpr (h.2 ▸ hd)
    exact ⟨h.2, hin.1, hin.2, h.1⟩

/-- The dated closes of the engine's bars, told day by day. -/
theorem ticker_bars_closes {w : Window} {first last : ℤ}
    (hw : ∀ p, w.holds p ↔ first ≤ clock.date p ∧ clock.date p ≤ last) :
    (ticker_bars table clock.toClock t w).map
        (fun b => (clock.date b.timestamp, b.close_price)) =
      (calendar_days first last).filterMap (fun d =>
        (whole_bar table clock.toClock t d).map (fun b => (d, b.close_price))) := by
  unfold ticker_bars
  rw [trade_dates_eq hw, List.map_filterMap, List.filterMap_filter]
  apply List.filterMap_congr
  intro d hd
  rw [rows_of_day_whole hw (mem_calendar_days.mp hd)]
  by_cases hrows : day_rows table clock.toClock t d = []
  · unfold whole_bar
    rw [hrows]
    rfl
  · rw [if_pos (by simpa using hrows)]
    show (whole_bar table clock.toClock t d).map _ = _
    cases hbar : whole_bar table clock.toClock t d with
    | none => rfl
    | some b =>
      obtain ⟨r, hlast, _, hts, _⟩ := day_bar_some hbar
      have hr := ((getLast_iff (day_rows_sublist d)).mp hlast).1
      rw [Option.map_some, Option.map_some, hts, (mem_day_rows.mp hr).2.2]

/-- Values filed under distinct keys are the same lists exactly when they are
    the same under every key. -/
theorem filterMap_keyed_eq_iff {κ β : Type} {f g : κ → Option β} {keys : List κ} :
    keys.filterMap (fun k => (f k).map (fun b => (k, b))) =
        keys.filterMap (fun k => (g k).map (fun b => (k, b))) ↔ ∀ k ∈ keys, f k = g k := by
  constructor
  · intro h k hk
    have hmem : ∀ (p : κ → Option β) b,
        (k, b) ∈ keys.filterMap (fun k => (p k).map (fun b => (k, b))) ↔ p k = some b := by
      intro p b
      rw [List.mem_filterMap]
      constructor
      · intro hex
        obtain ⟨k', _, hmap⟩ := hex
        obtain ⟨b', hb', heq⟩ := Option.map_eq_some_iff.mp hmap
        obtain ⟨rfl, rfl⟩ := Prod.mk.inj heq
        exact hb'
      · intro hp
        exact ⟨k, hk, by rw [hp]; rfl⟩
    apply Option.ext
    intro b
    rw [← hmem f, ← hmem g, h]
  · intro h
    apply List.filterMap_congr
    intro k hk
    rw [h k hk]

/-- A part of the values, filed under the same keys. -/
theorem filterMap_keyed_sublist {κ β : Type} {f g : κ → Option β} {keys : List κ}
    (h : ∀ k ∈ keys, ∀ b, f k = some b → g k = some b) :
    (keys.filterMap (fun k => (f k).map (fun b => (k, b)))).Sublist
      (keys.filterMap (fun k => (g k).map (fun b => (k, b)))) := by
  induction keys with
  | nil => exact List.Sublist.slnil
  | cons k keys ih =>
    have hrest := ih (fun k' hk' => h k' (List.mem_cons_of_mem _ hk'))
    have hk := h k List.mem_cons_self
    rw [List.filterMap_cons, List.filterMap_cons]
    cases hf : f k with
    | some b =>
      rw [hk b hf]
      exact hrest.cons_cons (k, b)
    | none =>
      cases hg : g k with
      | none => exact hrest
      | some b => exact hrest.cons (k, b)

/-- **Dashboard and backtest see the same closes**, day by day, over every
    window of whole days: the close of a daily bar of the engine is the
    dashboard's close of that day. The dashboard has a day more exactly where
    the last row of a session has no close and an earlier one has; there the
    engine drops the bar. -/
theorem dashboard_closes_match_bars {w : Window} {first last : ℤ}
    (hw : ∀ p, w.holds p ↔ first ≤ clock.date p ∧ clock.date p ≤ last) :
    ((ticker_bars table clock.toClock t w).map
        (fun b => (clock.date b.timestamp, b.close_price))).Sublist
      (ticker_closes table clock t (clock.midnight first) last) ∧
    ((ticker_bars table clock.toClock t w).map
        (fun b => (clock.date b.timestamp, b.close_price)) =
      ticker_closes table clock t (clock.midnight first) last ↔
      ∀ d, first ≤ d → d ≤ last → ¬ EndsWithoutClose table clock t d) := by
  have hcloses : ticker_closes table clock t (clock.midnight first) last =
      (calendar_days first last).filterMap
        (fun d => (last_close table clock t d).map (fun close => (d, close))) := by
    unfold ticker_closes
    rw [clock.date_midnight]
    apply List.filterMap_congr
    intro d hd
    rw [probe_eq (mem_calendar_days.mp hd).1]
  have hbars : (ticker_bars table clock.toClock t w).map
        (fun b => (clock.date b.timestamp, b.close_price)) =
      (calendar_days first last).filterMap (fun d =>
        ((whole_bar table clock.toClock t d).map DayBar.close_price).map
          (fun close => (d, close))) := by
    rw [ticker_bars_closes hw]
    apply List.filterMap_congr
    intro d _
    rw [Option.map_map]
    rfl
  have hbar : ∀ d close, (whole_bar table clock.toClock t d).map DayBar.close_price = some close →
      last_close table clock t d = some close := by
    intro d close h
    obtain ⟨b, hb, rfl⟩ := Option.map_eq_some_iff.mp h
    exact last_close_of_bar hb
  rw [hcloses, hbars]
  constructor
  · exact filterMap_keyed_sublist (fun d _ close h => hbar d close h)
  · rw [filterMap_keyed_eq_iff]
    constructor
    · intro h d hlow hhigh hends
      obtain ⟨hwhole, hsome⟩ := ends_without_close_iff.mp hends
      have heq := h d (mem_calendar_days.mpr ⟨hlow, hhigh⟩)
      rw [hwhole] at heq
      exact hsome heq.symm
    · intro h d hd
      obtain ⟨hlow, hhigh⟩ := mem_calendar_days.mp hd
      cases hwhole : whole_bar table clock.toClock t d with
      | some b => exact (last_close_of_bar hwhole).symm
      | none =>
        by_contra hne
        exact h d hlow hhigh
          (ends_without_close_iff.mpr ⟨hwhole, fun hnone => hne hnone.symm⟩)

/-- A session at 10:00 and 11:00 in winter; the second row has no close. -/
def null_table : MarketTable where
  rows := fun _ =>
    [⟨15 * hour_us, some 10, some 10, some 10, some 10, some 1⟩,
      ⟨16 * hour_us, some 11, some 11, some 11, none, some 1⟩]
  sorted := by
    intro t
    simp [hour_us]

/-- The day of that session. -/
def null_day : Window where
  start := 5 * hour_us
  finish := 5 * hour_us + day_us - 1

def null_ticker : Ticker := ⟨"AAPL", aapl_nonempty⟩

/-- The dashboard shows a close that no bar has. -/
theorem null_close_differs :
    (ticker_bars null_table winter_sessions.toClock null_ticker null_day).map
        (fun b => (winter_sessions.date b.timestamp, b.close_price)) ≠
      ticker_closes null_table winter_sessions null_ticker (winter_sessions.midnight 0) 0 := by
  have hw : ∀ p, null_day.holds p ↔ 0 ≤ winter_sessions.date p ∧ winter_sessions.date p ≤ 0 := by
    intro p
    show 5 * hour_us ≤ p ∧ p ≤ 5 * hour_us + day_us - 1 ↔
      0 ≤ (p - 5 * hour_us) / day_us ∧ (p - 5 * hour_us) / day_us ≤ 0
    unfold hour_us day_us
    omega
  have hrows : day_rows null_table winter_sessions.toClock null_ticker 0 =
      null_table.rows null_ticker := by
    unfold day_rows
    rw [List.filter_eq_self]
    intro r hr
    rcases List.mem_pair.mp hr with rfl | rfl
    · decide
    · decide
  intro heq
  apply (dashboard_closes_match_bars hw).2.mp heq 0 (le_refl 0) (le_refl 0)
  unfold EndsWithoutClose
  rw [hrows]
  exact ⟨_, rfl, rfl, _, List.mem_cons_self, by simp⟩

end Compare

/-! ### `closes_between` -/

section ClosesBetween

open Fmp

/-- `_CLOSES_MAX_SPAN`, in days. -/
def CLOSES_MAX_SPAN : ℤ := 366 * 15

/-- `_CLOSES_EDGE_SLACK`, in days. -/
def CLOSES_EDGE_SLACK : ℤ := 4

/-- `_CLOSES_MAX_HOLE`, in days. -/
def CLOSES_MAX_HOLE : ℤ := 7

/-- `_closes_cover`: the days span the window, without a long hole inside. -/
def closes_cover (days : List ℤ) (start finish : ℤ) : Bool :=
  match days.head?, days.getLast? with
  | some first, some last =>
      if CLOSES_EDGE_SLACK < first - start ∨ CLOSES_EDGE_SLACK < finish - last then false
      else (List.zipWith (fun earlier later => later - earlier) days days.tail).all
        (fun hole => hole ≤ CLOSES_MAX_HOLE)
  | _, _ => false

/-- A dictionary of dated closes. -/
def closes_dict (closes : List (ℤ × ℚ)) : Keyed ℤ ℚ :=
  closes.foldl (fun closes point => closes.insert point.1 point.2) ∅

/-- `items()`. -/
def items (closes : Keyed ℤ ℚ) : List (ℤ × ℚ) := closes.entries.map (fun e => (e.1, e.2))

/-- What `closes_between` raises; an error of FMP that is no `FMPUnavailable`
    passes it. -/
inductive ClosesError where
  | value_error (message : String)
  | market_data_unavailable (message : String)
  | fmp (e : FmpError)
  deriving DecidableEq, Repr

section Calls

variable (table : MarketTable) (clock : SessionClock) (provider : Provider) (outage : Outage)

/-- The download of `_fmp_closes`: no closes where FMP is unavailable. -/
def fmp_closes (t : Ticker) (start finish : ℤ) : Except FmpError (Keyed ℤ ℚ) :=
  match fetch_daily_history provider outage [t.symbol] start finish false with
  | .error e => if e.unavailable then .ok ∅ else .error e
  | .ok rows => .ok (closes_dict (rows.map (fun row => (row.date, row.prices.close_price))))

/-- The closes `closes_between` shows: the stored ones, with those of FMP for
    the other days if the stored ones do not cover the window. -/
def shown_closes (stored : Keyed ℤ ℚ) (t : Ticker) (start finish : ℤ) :
    Except FmpError (List (ℤ × ℚ)) :=
  if closes_cover (DataFrame.sort_values (fun day => day) stored.keys) start finish then
    .ok (items stored)
  else do
    let filled ← fmp_closes provider outage t start finish
    return (items (stored ∪ filled)).filter (fun point => start ≤ point.1 ∧ point.1 ≤ finish)

/-- `closes_between`, for a ticker that has been normalized. The database may
    fail, or run past its time. -/
def closes_between (answers : Bool) (t : Ticker) (start finish : ℤ) :
    Except ClosesError (List (ℤ × ℚ)) :=
  if finish < start then .error (.value_error "start must be on or before end.")
  else if CLOSES_MAX_SPAN < finish - start then
    .error (.value_error "Ask for at most 15 years of closes at a time.")
  else if answers = false then
    .error (.market_data_unavailable
      "Benchmark prices are unavailable. Please try again later.")
  else
    let stored := closes_dict (ticker_closes table clock t (clock.midnight start) finish)
    ((shown_closes provider outage stored t start finish).mapError .fmp).map
      (DataFrame.sort_values Prod.fst)

end Calls

variable {table : MarketTable} {clock : SessionClock} {provider : Provider} {outage : Outage}
  {t : Ticker}

theorem mem_items {closes : Keyed ℤ ℚ} {d : ℤ} {close : ℚ} :
    (d, close) ∈ items closes ↔ closes.get d = some close := by
  unfold items Keyed.get
  rw [List.mem_map]
  constructor
  · intro h
    obtain ⟨e, he, heq⟩ := h
    obtain ⟨rfl, rfl⟩ := Prod.mk.inj heq
    exact AList.mem_lookup_iff.mpr he
  · intro h
    exact ⟨⟨d, close⟩, AList.mem_lookup_iff.mp h, rfl⟩

/-- A dictionary has no day twice. -/
theorem items_nodup (closes : Keyed ℤ ℚ) : (items closes).Pairwise (fun a b => a.1 ≠ b.1) := by
  unfold items
  rw [List.pairwise_map]
  have hkeys := closes.nodupKeys
  unfold List.NodupKeys List.Nodup List.keys at hkeys
  exact List.pairwise_map.mp hkeys

/-- Dated closes without a repeated day are the entries of their
    dictionary. -/
theorem get_closes_dict {closes : List (ℤ × ℚ)} (h : closes.Pairwise (fun a b => a.1 ≠ b.1))
    (d : ℤ) (close : ℚ) : (closes_dict closes).get d = some close ↔ (d, close) ∈ closes := by
  unfold closes_dict
  induction closes using List.reverseRecOn with
  | nil => simp
  | append_singleton closes point ih =>
    obtain ⟨hold, _, hcross⟩ := List.pairwise_append.mp h
    rw [List.foldl_append, List.foldl_cons, List.foldl_nil, Keyed.get_insert, List.mem_append,
      List.mem_singleton]
    by_cases hd : d = point.1
    · rw [if_pos hd]
      constructor
      · intro hclose
        right
        rw [hd, ← Option.some.inj hclose]
      · intro hmem
        rcases hmem with hmem | rfl
        · exact absurd hd (hcross _ hmem point (List.mem_singleton_self point))
        · rfl
    · rw [if_neg hd, ih hold]
      constructor
      · intro hmem
        exact .inl hmem
      · intro hmem
        rcases hmem with hmem | rfl
        · exact hmem
        · exact absurd rfl hd

theorem mem_ticker_closes {first last d : ℤ} {close : ℚ} :
    (d, close) ∈ ticker_closes table clock t (clock.midnight first) last ↔
      (first ≤ d ∧ d ≤ last) ∧ last_close table clock t d = some close := by
  unfold ticker_closes
  rw [clock.date_midnight, List.mem_filterMap]
  constructor
  · intro h
    obtain ⟨d', hd', hmap⟩ := h
    obtain ⟨close', hclose, heq⟩ := Option.map_eq_some_iff.mp hmap
    obtain ⟨rfl, rfl⟩ := Prod.mk.inj heq
    have hdays := mem_calendar_days.mp hd'
    rw [probe_eq hdays.1] at hclose
    exact ⟨hdays, hclose⟩
  · intro h
    refine ⟨d, mem_calendar_days.mpr h.1, ?_⟩
    rw [probe_eq h.1.1, h.2]
    rfl

theorem ticker_closes_days (since last : ℤ) :
    (ticker_closes table clock t since last).Pairwise (fun a b => a.1 ≠ b.1) := by
  unfold ticker_closes
  rw [List.pairwise_filterMap]
  apply (calendar_days_sorted _ _).imp
  intro a b hlt p hp q hq
  obtain ⟨_, _, rfl⟩ := Option.map_eq_some_iff.mp hp
  obtain ⟨_, _, rfl⟩ := Option.map_eq_some_iff.mp hq
  exact ne_of_lt hlt

/-- The stored closes of a window, by day. -/
theorem get_stored {start finish d : ℤ} {close : ℚ} :
    (closes_dict (ticker_closes table clock t (clock.midnight start) finish)).get d =
      some close ↔ (start ≤ d ∧ d ≤ finish) ∧ last_close table clock t d = some close := by
  rw [get_closes_dict (ticker_closes_days _ _), mem_ticker_closes]

/-- The days with a stored close, in order. -/
def stored_days (table : MarketTable) (clock : SessionClock) (t : Ticker) (start finish : ℤ) :
    List ℤ :=
  (calendar_days start finish).filter (fun d => last_close table clock t d ≠ none)

theorem sorted_keys_eq (start finish : ℤ) :
    DataFrame.sort_values (fun day => day)
        (closes_dict (ticker_closes table clock t (clock.midnight start) finish)).keys =
      stored_days table clock t start finish := by
  generalize hdict : closes_dict (ticker_closes table clock t (clock.midnight start) finish) = dict
  apply List.Pairwise.eq_of_mem_iff (r := (· < ·))
  · have hperm := DataFrame.sort_values_perm (fun day : ℤ => day) dict.keys
    have hnodup : (DataFrame.sort_values (fun day : ℤ => day) dict.keys).Nodup :=
      hperm.nodup_iff.mpr dict.keys_nodup
    exact ((DataFrame.sort_values_sorted (fun day : ℤ => day) dict.keys).and hnodup).imp
      (fun h => lt_of_le_of_ne h.1 h.2)
  · exact (calendar_days_sorted start finish).filter _
  · intro d
    rw [DataFrame.mem_sort_values, Keyed.mem_keys, Option.ne_none_iff_exists']
    unfold stored_days
    rw [List.mem_filter, mem_calendar_days, decide_eq_true_eq, Option.ne_none_iff_exists']
    simp only [← hdict, get_stored, exists_and_left]

/-- What the dashboard may show for a day: the stored close, or, if the
    stored ones do not cover the window and there is none for the day, that
    of FMP. -/
def Shows (table : MarketTable) (clock : SessionClock) (provider : Provider) (outage : Outage)
    (t : Ticker) (start finish d : ℤ) (close : ℚ) : Prop :=
  last_close table clock t d = some close ∨
    (last_close table clock t d = none ∧
      closes_cover (stored_days table clock t start finish) start finish = false ∧
      ∃ closes, fmp_closes provider outage t start finish = .ok closes ∧
        closes.get d = some close)

theorem mem_shown_closes {start finish d : ℤ} {close : ℚ} {points : List (ℤ × ℚ)}
    (h : shown_closes provider outage (closes_dict (ticker_closes table clock t
      (clock.midnight start) finish)) t start finish = .ok points) :
    (d, close) ∈ points ↔
      (start ≤ d ∧ d ≤ finish) ∧ Shows table clock provider outage t start finish d close := by
  unfold shown_closes at h
  rw [sorted_keys_eq] at h
  unfold Shows
  cases hcover : closes_cover (stored_days table clock t start finish) start finish with
  | true =>
    rw [hcover, if_pos rfl] at h
    rw [← Except.ok.inj h, mem_items, get_stored]
    simp
  | false =>
    rw [hcover, if_neg Bool.false_ne_true] at h
    obtain ⟨filled, hfilled, hpoints⟩ := Fallible.bind_ok h
    rw [← Except.ok.inj hpoints, List.mem_filter, mem_items, Keyed.get_union,
      Option.or_eq_some_iff, get_stored, decide_eq_true_eq]
    have hnone : (start ≤ d ∧ d ≤ finish) →
        ((closes_dict (ticker_closes table clock t (clock.midnight start) finish)).get d = none ↔
          last_close table clock t d = none) := by
      intro hd
      rw [← Option.not_isSome_iff_eq_none, ← Option.not_isSome_iff_eq_none,
        Option.isSome_iff_exists, Option.isSome_iff_exists]
      simp only [get_stored, hd, and_self, true_and]
    constructor
    · intro h
      obtain ⟨hclose, hd⟩ := h
      rcases hclose with hstored | ⟨habsent, hfmp⟩
      · exact ⟨hd, .inl hstored.2⟩
      · exact ⟨hd, .inr ⟨(hnone hd).mp habsent, rfl, filled, hfilled, hfmp⟩⟩
    · intro h
      obtain ⟨hd, hclose⟩ := h
      rcases hclose with hstored | ⟨habsent, _, closes, hcloses, hfmp⟩
      · exact ⟨.inl ⟨hd, hstored⟩, hd⟩
      · rw [hfilled] at hcloses
        rw [← Except.ok.inj hcloses] at hfmp
        exact ⟨.inr ⟨(hnone hd).mpr habsent, hfmp⟩, hd⟩

theorem shown_closes_nodup {stored : Keyed ℤ ℚ} {start finish : ℤ} {points : List (ℤ × ℚ)}
    (h : shown_closes provider outage stored t start finish = .ok points) :
    points.Pairwise (fun a b => a.1 ≠ b.1) := by
  unfold shown_closes at h
  split at h
  · rw [← Except.ok.inj h]
    exact items_nodup stored
  · obtain ⟨filled, _, hpoints⟩ := Fallible.bind_ok h
    rw [← Except.ok.inj hpoints]
    exact (items_nodup _).filter _

/-- The fill raises when its request is broken off, and then only. -/
theorem fmp_closes_error_iff {start finish : ℤ} (hle : start ≤ finish) {e : FmpError} :
    fmp_closes provider outage t start finish = .error e ↔
      ∃ t' ∈ wanted [t.symbol], e = .request_failed t' .uncaught ∧
        outage t' start finish = some .uncaught := by
  unfold fmp_closes
  constructor
  · intro h
    split at h
    · rename_i e' hfetch
      split at h
      · exact absurd h (by simp)
      · rename_i he
        obtain rfl := Except.error.inj h
        exact fetch_error hle hfetch (by simpa using he)
    · exact absurd h (by simp)
  · intro h
    obtain ⟨t', ht', rfl, hout⟩ := h
    rw [fetch_of_outage hle ht' hout false]
    exact if_neg (by simp [FmpError.unavailable])

/-- So do the closes that are shown, if FMP is asked. -/
theorem shown_closes_error_iff {start finish : ℤ} (hle : start ≤ finish) {e : FmpError} :
    shown_closes provider outage (closes_dict (ticker_closes table clock t
        (clock.midnight start) finish)) t start finish = .error e ↔
      closes_cover (stored_days table clock t start finish) start finish = false ∧
      ∃ t' ∈ wanted [t.symbol], e = .request_failed t' .uncaught ∧
        outage t' start finish = some .uncaught := by
  unfold shown_closes
  rw [sorted_keys_eq, ← fmp_closes_error_iff hle]
  cases hcover : closes_cover (stored_days table clock t start finish) start finish with
  | true => simp
  | false =>
    rw [if_neg Bool.false_ne_true]
    constructor
    · intro h
      rcases Fallible.bind_error h with hfill | ⟨_, _, hpoints⟩
      · exact ⟨rfl, hfill⟩
      · exact absurd hpoints (by simp [pure, Except.pure])
    · intro h
      rw [h.2]
      rfl

/-- The checks on the window, and the query. -/
theorem closes_between_checks (answers : Bool) (start finish : ℤ) :
    closes_between table clock provider outage answers t start finish =
      if finish < start then .error (.value_error "start must be on or before end.")
      else if 5490 < finish - start then
        .error (.value_error "Ask for at most 15 years of closes at a time.")
      else if answers = false then
        .error (.market_data_unavailable
          "Benchmark prices are unavailable. Please try again later.")
      else ((shown_closes provider outage (closes_dict (ticker_closes table clock t
        (clock.midnight start) finish)) t start finish).mapError .fmp).map
        (DataFrame.sort_values Prod.fst) := by
  have hmax : CLOSES_MAX_SPAN = 5490 := by decide
  unfold closes_between
  rw [hmax]

/-- What the closes of a window that may be asked for end in. -/
theorem sorted_error_iff {ε : Type} {x : Except FmpError (List (ℤ × ℚ))} {wrap : FmpError → ε}
    {e : ε} : (x.mapError wrap).map (DataFrame.sort_values Prod.fst) = .error e ↔
      ∃ e', x = .error e' ∧ e = wrap e' := by
  cases x with
  | error e' =>
    constructor
    · intro h
      exact ⟨e', rfl, (Except.error.inj h).symm⟩
    · intro h
      obtain ⟨e'', he, rfl⟩ := h
      rw [Except.error.inj he]
      rfl
  | ok points =>
    constructor
    · intro h
      exact absurd h (by simp [Except.mapError, Except.map])
    · intro h
      obtain ⟨e', he, _⟩ := h
      exact absurd he (by simp)

/-- The closes that are shown, in order: one a day. -/
theorem sorted_shown_closes {start finish : ℤ} {shown : List (ℤ × ℚ)}
    (h : shown_closes provider outage (closes_dict (ticker_closes table clock t
      (clock.midnight start) finish)) t start finish = .ok shown) :
    (DataFrame.sort_values Prod.fst shown).Pairwise (fun a b => a.1 < b.1) ∧
    ∀ d close, (d, close) ∈ DataFrame.sort_values Prod.fst shown ↔
      (start ≤ d ∧ d ≤ finish) ∧ Shows table clock provider outage t start finish d close := by
  constructor
  · have hperm := DataFrame.sort_values_perm Prod.fst shown
    have hdistinct := hperm.symm.pairwise (shown_closes_nodup h) (fun h => h.symm)
    exact ((DataFrame.sort_values_sorted Prod.fst _).and hdistinct).imp
      (fun h => lt_of_le_of_ne h.1 h.2)
  · intro d close
    rw [DataFrame.mem_sort_values, mem_shown_closes h]

end ClosesBetween

end History
