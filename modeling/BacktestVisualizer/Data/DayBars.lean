import BacktestVisualizer.Data.HistoryCache

/-! # What a Window of the Table Yields

  A query sums up, day by day, the rows it sees. The module compares its bars
  with those of whole days: the last row of a day is the last one seen unless
  the window ends inside the day, and the bar is the whole day's unless the
  window cuts off its beginning as well.
-/

open Batches

namespace History

variable {table : MarketTable} {clock : Clock} {t : Ticker}

/-! ### Rows and days -/

/-- The session rows of a day. -/
def day_rows (table : MarketTable) (clock : Clock) (t : Ticker) (d : ℤ) : List MarketRow :=
  (table.rows t).filter (fun r => clock.in_session r.timestamp ∧ clock.date r.timestamp = d)

theorem mem_day_rows {d : ℤ} {r : MarketRow} :
    r ∈ day_rows table clock t d ↔
      r ∈ table.rows t ∧ clock.in_session r.timestamp ∧ clock.date r.timestamp = d := by
  simp [day_rows, List.mem_filter]

theorem mem_rows_of_day {w : Window} {d : ℤ} {r : MarketRow} :
    r ∈ rows_of_day table clock t w d ↔ r ∈ day_rows table clock t d ∧ w.holds r.timestamp := by
  rw [mem_day_rows]
  simp only [rows_of_day, session_rows, List.mem_filter, decide_eq_true_eq, Window.holds]
  tauto

theorem rows_sorted (l : List MarketRow) (h : l.Sublist (table.rows t)) :
    l.Pairwise (fun a b => a.timestamp < b.timestamp) :=
  (List.pairwise_map.mp (table.sorted t)).sublist h

theorem day_rows_sublist (d : ℤ) : (day_rows table clock t d).Sublist (table.rows t) :=
  List.filter_sublist

theorem rows_of_day_sublist (w : Window) (d : ℤ) :
    (rows_of_day table clock t w d).Sublist (table.rows t) :=
  List.filter_sublist.trans List.filter_sublist

/-- The last row is the latest. -/
theorem getLast_iff {l : List MarketRow} (h : l.Sublist (table.rows t)) {r : MarketRow} :
    l.getLast? = some r ↔ r ∈ l ∧ ∀ r' ∈ l, r'.timestamp ≤ r.timestamp := by
  have hsorted := rows_sorted l h
  constructor
  · intro hlast
    obtain ⟨l', rfl⟩ := List.getLast?_eq_some_iff.mp hlast
    refine ⟨by simp, fun r' hr' => ?_⟩
    rcases List.mem_append.mp hr' with hold | hnew
    · exact le_of_lt ((List.pairwise_append.mp hsorted).2.2 r' hold r (by simp))
    · rw [List.mem_singleton.mp hnew]
  · intro hmax
    obtain ⟨hmem, hle⟩ := hmax
    cases hlast : l.getLast? with
    | none => simp [List.getLast?_eq_none_iff.mp hlast] at hmem
    | some r' =>
      obtain ⟨l', rfl⟩ := List.getLast?_eq_some_iff.mp hlast
      have hle' := hle r' (by simp)
      rcases List.mem_append.mp hmem with hold | hnew
      · have := (List.pairwise_append.mp hsorted).2.2 r hold r' (by simp)
        omega
      · rw [List.mem_singleton.mp hnew]

/-- Between two instants of one session there is only that session. -/
theorem in_session_between {p : ℤ} {d : ℤ} {r r' : MarketRow}
    (hr : r ∈ day_rows table clock t d) (hr' : r' ∈ day_rows table clock t d)
    (hlo : r.timestamp ≤ p) (hhi : p ≤ r'.timestamp) : clock.in_session p := by
  obtain ⟨_, hin, hdate⟩ := mem_day_rows.mp hr
  obtain ⟨_, hin', hdate'⟩ := mem_day_rows.mp hr'
  exact clock.session_convex _ _ _ hlo hhi (hdate.trans hdate'.symm) hin.1 hin'.2

theorem date_between {p : ℤ} {d : ℤ} {r r' : MarketRow}
    (hr : r ∈ day_rows table clock t d) (hr' : r' ∈ day_rows table clock t d)
    (hlo : r.timestamp ≤ p) (hhi : p ≤ r'.timestamp) : clock.date p = d := by
  obtain ⟨_, _, hdate⟩ := mem_day_rows.mp hr
  obtain ⟨_, _, hdate'⟩ := mem_day_rows.mp hr'
  have h1 : clock.date r.timestamp ≤ clock.date p := clock.date_mono _ _ hlo
  have h2 : clock.date p ≤ clock.date r'.timestamp := clock.date_mono _ _ hhi
  omega

/-! ### Whole days -/

/-- The bar of a whole day. -/
def whole_bar (table : MarketTable) (clock : Clock) (t : Ticker) (d : ℤ) : Option DayBar :=
  day_bar t (day_rows table clock t d)

/-- A day that has a bar. -/
def Valid (table : MarketTable) (clock : Clock) (t : Ticker) (d : ℤ) : Prop :=
  ∃ b, whole_bar table clock t d = some b

/-- `p` lies inside the session rows of a day: some are not after it, and
    some are. -/
def Splits (table : MarketTable) (clock : Clock) (t : Ticker) (d p : ℤ) : Prop :=
  ∃ r ∈ day_rows table clock t d, ∃ r' ∈ day_rows table clock t d,
    r.timestamp ≤ p ∧ p < r'.timestamp

/-- A session row of the day has no close. -/
def HasNull (table : MarketTable) (clock : Clock) (t : Ticker) (d : ℤ) : Prop :=
  ∃ r ∈ day_rows table clock t d, r.close_price = none

/-- `p` splits a day that has a row without a close. -/
def SplitsNull (table : MarketTable) (clock : Clock) (t : Ticker) (p : ℤ) : Prop :=
  ∃ d, HasNull table clock t d ∧ Splits table clock t d p

/-- An instant outside the session splits no day. -/
theorem not_splits_of_closed {p : ℤ} (hp : ¬ clock.in_session p) (d : ℤ) :
    ¬ Splits table clock t d p := by
  intro hsplit
  obtain ⟨r, hr, r', hr', hlo, hhi⟩ := hsplit
  exact hp (in_session_between hr hr' hlo (le_of_lt hhi))

theorem day_bar_some {l : List MarketRow} {b : DayBar} (h : day_bar t l = some b) :
    ∃ r, l.getLast? = some r ∧ r.close_price = some b.close_price ∧ b.timestamp = r.timestamp ∧
      b.ticker = t := by
  unfold day_bar at h
  cases hlast : l.getLast? with
  | none => simp [hlast] at h
  | some r =>
    cases hclose : r.close_price with
    | none => simp [hlast, hclose] at h
    | some close =>
      simp only [hlast, hclose, Option.bind_eq_bind, Option.bind_some, Option.some.injEq] at h
      subst h
      exact ⟨r, rfl, hclose, rfl, rfl⟩

theorem day_bar_exists {l : List MarketRow} {r : MarketRow} (hlast : l.getLast? = some r)
    (hclose : r.close_price ≠ none) : ∃ b, day_bar t l = some b := by
  obtain ⟨close, hclose⟩ := Option.ne_none_iff_exists'.mp hclose
  simp [day_bar, hlast, hclose]

/-! ### The bars of a window -/

theorem mem_ticker_bars {w : Window} {b : DayBar} :
    b ∈ ticker_bars table clock t w ↔
      day_bar t (rows_of_day table clock t w (clock.date b.timestamp)) = some b := by
  constructor
  · intro hb
    obtain ⟨d, _, hday⟩ := List.mem_filterMap.mp hb
    obtain ⟨r, hlast, _, hts, _⟩ := day_bar_some hday
    have hr := (mem_rows_of_day.mp ((getLast_iff (rows_of_day_sublist w d)).mp hlast).1).1
    rw [hts, (mem_day_rows.mp hr).2.2]
    exact hday
  · intro hb
    refine List.mem_filterMap.mpr ⟨clock.date b.timestamp, ?_, hb⟩
    obtain ⟨r, hlast, _, hts, _⟩ := day_bar_some hb
    have hmem := ((getLast_iff (rows_of_day_sublist w _)).mp hlast).1
    unfold trade_dates
    rw [List.mem_dedup]
    exact List.mem_map.mpr ⟨r, (List.mem_filter.mp hmem).1, by rw [hts]⟩

/-- A bar sits at a row of its day that the window holds. -/
theorem ticker_bar_row {w : Window} {b : DayBar} (hb : b ∈ ticker_bars table clock t w) :
    b.ticker = t ∧ w.holds b.timestamp ∧
      ∃ r ∈ day_rows table clock t (clock.date b.timestamp), r.timestamp = b.timestamp := by
  obtain ⟨r, hlast, _, hts, hticker⟩ := day_bar_some (mem_ticker_bars.mp hb)
  obtain ⟨hr, hheld⟩ :=
    mem_rows_of_day.mp ((getLast_iff (rows_of_day_sublist w _)).mp hlast).1
  exact ⟨hticker, hts ▸ hheld, r, hr, hts.symm⟩

/-- A window that sees a day and does not end inside it sees its last row. -/
theorem last_row_seen {w : Window} {d : ℤ} {r : MarketRow}
    (hsplit : ¬ Splits table clock t d w.finish) (hr : r ∈ day_rows table clock t d)
    (hheld : w.holds r.timestamp) :
    (rows_of_day table clock t w d).getLast? = (day_rows table clock t d).getLast? := by
  cases hlast : (day_rows table clock t d).getLast? with
  | none => simp [List.getLast?_eq_none_iff.mp hlast] at hr
  | some last =>
    obtain ⟨hmem, hmax⟩ := (getLast_iff (day_rows_sublist d)).mp hlast
    refine (getLast_iff (rows_of_day_sublist w d)).mpr ⟨?_, fun r' hr' => ?_⟩
    · have hle : last.timestamp ≤ w.finish := by
        by_contra hlt
        exact hsplit ⟨r, hr, last, hmem, hheld.2, not_le.mp hlt⟩
      exact mem_rows_of_day.mpr ⟨hmem, le_trans hheld.1 (hmax r hr), hle⟩
    · exact hmax r' (mem_rows_of_day.mp hr').1

/-- **The days of a window**, when it does not end inside a day that lacks a
    close: those that have a bar and a row in the window. -/
theorem ticker_bars_dates {w : Window} (hsplit : ¬ SplitsNull table clock t w.finish) (d : ℤ) :
    (∃ b ∈ ticker_bars table clock t w, clock.date b.timestamp = d) ↔
      Valid table clock t d ∧ ∃ r ∈ day_rows table clock t d, w.holds r.timestamp := by
  by_cases hnull : HasNull table clock t d
  · have hwhole : ¬ Splits table clock t d w.finish := fun h => hsplit ⟨d, hnull, h⟩
    constructor
    · intro hbar
      obtain ⟨b, hb, rfl⟩ := hbar
      obtain ⟨_, hheld, r, hr, hts⟩ := ticker_bar_row hb
      rw [← hts] at hheld
      obtain ⟨last, hlast, hclose, _, _⟩ := day_bar_some (mem_ticker_bars.mp hb)
      rw [last_row_seen hwhole hr hheld] at hlast
      exact ⟨day_bar_exists hlast (by simp [hclose]), r, hr, hheld⟩
    · intro hvalid
      obtain ⟨⟨b, hb⟩, r, hr, hheld⟩ := hvalid
      -- the whole day is seen, and with it its last row
      obtain ⟨last, hlast, hclose, _, _⟩ := day_bar_some hb
      rw [← last_row_seen hwhole hr hheld] at hlast
      obtain ⟨b', hb'⟩ := day_bar_exists (t := t) hlast (by simp [hclose])
      obtain ⟨last', hlast', _, hts', _⟩ := day_bar_some hb'
      have hmem := ((getLast_iff (rows_of_day_sublist w d)).mp hlast').1
      have hdate : clock.date b'.timestamp = d := by
        rw [hts']
        exact (mem_day_rows.mp (mem_rows_of_day.mp hmem).1).2.2
      exact ⟨b', mem_ticker_bars.mpr (hdate ▸ hb'), hdate⟩
  · -- every row has a close, so any part of the day has a bar
    have hclose : ∀ r ∈ day_rows table clock t d, r.close_price ≠ none :=
      fun r hr h => hnull ⟨r, hr, h⟩
    constructor
    · intro hbar
      obtain ⟨b, hb, rfl⟩ := hbar
      obtain ⟨_, hheld, r, hr, hts⟩ := ticker_bar_row hb
      cases hlast : (day_rows table clock t (clock.date b.timestamp)).getLast? with
      | none => simp [List.getLast?_eq_none_iff.mp hlast] at hr
      | some last =>
        have hmem := ((getLast_iff (day_rows_sublist _)).mp hlast).1
        exact ⟨day_bar_exists hlast (hclose last hmem), r, hr, hts ▸ hheld⟩
    · intro hvalid
      obtain ⟨_, r, hr, hheld⟩ := hvalid
      have hmem : r ∈ rows_of_day table clock t w d := mem_rows_of_day.mpr ⟨hr, hheld⟩
      cases hlast : (rows_of_day table clock t w d).getLast? with
      | none => simp [List.getLast?_eq_none_iff.mp hlast] at hmem
      | some last =>
        have hlast_mem :=
          (mem_rows_of_day.mp ((getLast_iff (rows_of_day_sublist w d)).mp hlast).1).1
        obtain ⟨b, hb⟩ := day_bar_exists (t := t) hlast (hclose last hlast_mem)
        obtain ⟨last', hlast', _, hts', _⟩ := day_bar_some hb
        obtain rfl : last = last' := Option.some.inj (hlast.symm.trans hlast')
        have hdate : clock.date b.timestamp = d := by
          rw [hts']
          exact (mem_day_rows.mp hlast_mem).2.2
        exact ⟨b, mem_ticker_bars.mpr (hdate ▸ hb), hdate⟩

/-- The timestamp of a bar splits no day that lacks a close. -/
theorem bar_not_splits_null {w : Window} (hsplit : ¬ SplitsNull table clock t w.finish)
    {b : DayBar} (hb : b ∈ ticker_bars table clock t w) :
    ¬ SplitsNull table clock t b.timestamp := by
  intro hnull
  obtain ⟨d, hd, r1, hr1, r2, hr2, hlo, hhi⟩ := hnull
  obtain ⟨_, hheld, r, hr, hts⟩ := ticker_bar_row hb
  obtain rfl : clock.date b.timestamp = d := date_between hr1 hr2 hlo (le_of_lt hhi)
  -- such a day is seen to its end, so the bar sits at its last row
  have hwhole : ¬ Splits table clock t (clock.date b.timestamp) w.finish :=
    fun h => hsplit ⟨_, hd, h⟩
  obtain ⟨last, hlast, _, hts', _⟩ := day_bar_some (mem_ticker_bars.mp hb)
  rw [last_row_seen hwhole hr (hts ▸ hheld)] at hlast
  have := ((getLast_iff (day_rows_sublist _)).mp hlast).2 r2 hr2
  omega

end History
