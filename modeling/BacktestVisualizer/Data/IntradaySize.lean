import BacktestVisualizer.Data.IntradayBars
import BacktestVisualizer.Framework.Weekdays

/-! # The Size of Intraday Windows

  `engine/data/bar_interval.py`: before an intraday run is accepted, the bars
  its window loads are estimated from the weekdays in it. The bars of
  `fetch_db_intraday_bars` are told apart by ticker, date and bucket, and are
  never more than that. Going back by `warmup_calendar_days` reaches enough
  sessions for an indicator, with one weekday in six a holiday.
-/

open DataFrame Weekdays
open History (MarketRow MarketTable)

namespace Intraday

/-! ### `bar_interval.py` -/

def SESSION_MINUTES : ℕ := 390
def MAX_INTRADAY_BARS : ℤ := 250000

/-- `BAR_SECONDS_CHOICES` shorter than a day, in minutes. -/
def intraday_minutes : List ℕ := [1, 5, 15, 30, 60]

/-- Bars in one session; the last one may be short. -/
def bars_per_session (minutes : ℕ) : ℕ := ⌈(SESSION_MINUTES / minutes : ℚ)⌉₊

def weekdays_between (start stop : ℤ) : ℕ :=
  if stop < start then 0
  else
    let days := (stop - start).toNat + 1
    let full_weeks := days / 7
    let remainder := days % 7
    full_weeks * 5 +
      ((List.range remainder).filter
        (fun offset : ℕ => (weekday start + offset) % 7 < 5)).length

def estimate_bar_count (ticker_count : ℕ) (start stop : ℤ) (minutes : ℕ) : ℕ :=
  ticker_count * weekdays_between start stop * bars_per_session minutes

/-- `IntradayWindowTooLarge`. -/
structure WindowTooLarge where
  minutes : ℕ
  start : ℤ
  stop : ℤ
  ticker_count : ℕ
  estimate : ℕ
  deriving DecidableEq, Repr

def check_intraday_size (ticker_count : ℕ) (start stop : ℤ) (minutes : ℕ) :
    Except WindowTooLarge Unit :=
  let estimate := estimate_bar_count ticker_count start stop minutes
  if MAX_INTRADAY_BARS < estimate then .error ⟨minutes, start, stop, ticker_count, estimate⟩
  else .ok ()

/-- In exact arithmetic. -/
def warmup_calendar_days (period : ℤ) (minutes : ℕ) : ℤ :=
  let sessions := ⌈((max period 1 : ℤ) / bars_per_session minutes : ℚ)⌉
  ⌈(sessions * 7 / 5 * (12 / 10) : ℚ)⌉ + 4

/-! ### Weekdays -/

theorem length_rest (start : ℤ) (n : ℕ) :
    ((List.range n).filter (fun offset : ℕ => (weekday start + offset) % 7 < 5)).length =
      count_from start n := by
  induction n with
  | zero => rfl
  | succ n ih =>
    have hday : (weekday start + n) % 7 < 5 ↔ Working (start + n) := by
      unfold Working weekday
      omega
    unfold count_from at ih ⊢
    rw [List.range_succ, List.filter_append, List.length_append, ih, Nat.count_succ]
    congr 1
    by_cases h : Working (start + n)
    · rw [if_pos h, List.filter_cons_of_pos (by simpa using hday.mpr h)]
      rfl
    · rw [if_neg h, List.filter_cons_of_neg (by simpa using fun hlt => h (hday.mp hlt))]
      rfl

/-- **The weekdays of a window are counted exactly.** -/
theorem weekdays_between_eq {start stop : ℤ} (h : start ≤ stop) :
    weekdays_between start stop = (working_days start stop).card := by
  have hdays : (stop - start + 1).toNat = (stop - start).toNat + 1 := by omega
  unfold weekdays_between
  rw [if_neg (not_lt.mpr h), card_working_days, hdays]
  simp only
  rw [length_rest, mul_comm]
  conv_rhs => rw [← Nat.div_add_mod ((stop - start).toNat + 1) 7]
  exact (count_weeks start _ _).symm

/-! ### The bars of a fetch -/

section Fetch

variable {table : MarketTable} {clock : MarketClock} {minutes : ℕ}

/-- The bucket of a trading instant is one of the session's. -/
theorem bucket_index_lt (hm : 0 < minutes) {t : ℤ} (ht : clock.trading t) :
    ∃ i < bars_per_session minutes, (bucket_of clock minutes t).bucket_index = (i : ℤ) := by
  obtain ⟨hlow, hhigh⟩ := bucket_bounds hm ht
  have hclose := ht.2
  have hwidth : 0 < (minutes : ℤ) * minute_us := by
    unfold minute_us
    omega
  have hnonneg : 0 ≤ (bucket_of clock minutes t).bucket_index :=
    nonneg_of_mul_nonneg_left hlow hwidth
  generalize (bucket_of clock minutes t).bucket_index = index at hlow hhigh hnonneg
  refine ⟨index.toNat, ?_, (Int.toNat_of_nonneg hnonneg).symm⟩
  have hmul : index * minutes < 390 := by
    have hus : index * minutes * minute_us < 390 * minute_us := by
      rw [mul_assoc]
      unfold minute_us at *
      omega
    exact lt_of_mul_lt_mul_right hus (by decide)
  have hminutes : (0 : ℚ) < minutes := by exact_mod_cast hm
  unfold bars_per_session SESSION_MINUTES
  rw [Nat.lt_ceil, lt_div_iff₀ hminutes]
  have hcast : ((index.toNat : ℤ) : ℚ) * minutes < 390 := by
    rw [Int.toNat_of_nonneg hnonneg]
    exact_mod_cast hmul
  exact_mod_cast hcast

/-- The label of a bucket. -/
def bucket_label (clock : MarketClock) (minutes : ℕ) (bucket : ℤ × ℕ) : ℤ :=
  clock.midnight bucket.1 + min (34200000000 + ((bucket.2 : ℤ) + 1) * (minutes * minute_us))
    57600000000

/-- The rows of the session are stored on weekdays. -/
def OnWeekdays (table : MarketTable) (clock : MarketClock) (tickers : List Ticker) : Prop :=
  ∀ ticker ∈ tickers, ∀ r ∈ table.rows ticker, clock.trading r.timestamp →
    Working (clock.date r.timestamp)

/-- Every bar is that of a ticker, a weekday and a bucket of the session. -/
theorem bar_key {tickers : List Ticker} {start stop : ℤ} (hm : 0 < minutes)
    (hrows : OnWeekdays table clock tickers) {bar : IntradayBar}
    (h : bar ∈ finalize clock minutes (fetched_frame table clock tickers start stop minutes)) :
    bar.ticker ∈ tickers ∧
      ∃ d ∈ working_days start stop, ∃ i < bars_per_session minutes,
        bar.timestamp = bucket_label clock minutes (d, i) := by
  obtain ⟨hticker, r, hr, _, hlabel⟩ := row_of_bar h
  obtain ⟨hstored, htrading, hlow, hhigh⟩ := mem_window_rows.mp hr
  obtain ⟨i, hi, hindex⟩ := bucket_index_lt hm htrading
  refine ⟨hticker, clock.date r.timestamp, ?_, i, hi, ?_⟩
  · exact mem_working_days.mpr ⟨⟨hlow, hhigh⟩, hrows bar.ticker hticker r hstored htrading⟩
  · rw [hlabel, row_label_eq hm htrading, hindex]
    rfl

/-- No two bars have the same ticker and label. -/
theorem finalize_distinct (clock : MarketClock) (minutes : ℕ) (frame : List StartedBar) :
    ((finalize clock minutes frame).map (fun bar => (bar.ticker, bar.timestamp))).Nodup := by
  have hdistinct := keep_last_distinct (fun bar : IntradayBar => (bar.ticker, bar.timestamp))
    (frame.filterMap (close_labelled clock minutes))
  have hkept : ((keep_last (fun bar : IntradayBar => (bar.ticker, bar.timestamp))
      (frame.filterMap (close_labelled clock minutes))).map
        (fun bar => (bar.ticker, bar.timestamp))).Nodup := List.pairwise_map.mpr hdistinct
  have hperm : (finalize clock minutes frame).Perm
      (keep_last (fun bar : IntradayBar => (bar.ticker, bar.timestamp))
        (frame.filterMap (close_labelled clock minutes))) := sort_values_perm _ _
  exact (hperm.map _).nodup_iff.mpr hkept

/-- There are no more bars than tickers times weekdays times buckets. -/
theorem length_finalize_le {tickers : List Ticker} {start stop : ℤ} (hm : 0 < minutes)
    (hrows : OnWeekdays table clock tickers) :
    (finalize clock minutes (fetched_frame table clock tickers start stop minutes)).length ≤
      tickers.length * (working_days start stop).card * bars_per_session minutes := by
  generalize hbars : finalize clock minutes (fetched_frame table clock tickers start stop minutes)
    = bars
  have hnodup : (bars.map (fun bar => (bar.ticker, bar.timestamp))).Nodup := by
    rw [← hbars]
    exact finalize_distinct clock minutes _
  let keys := tickers.toFinset ×ˢ
    ((working_days start stop ×ˢ Finset.range (bars_per_session minutes)).image
      (bucket_label clock minutes))
  have hsubset : (bars.map (fun bar => (bar.ticker, bar.timestamp))).toFinset ⊆ keys := by
    intro key hkey
    obtain ⟨bar, hbar, rfl⟩ := List.mem_map.mp (List.mem_toFinset.mp hkey)
    rw [← hbars] at hbar
    obtain ⟨hticker, d, hd, i, hi, hlabel⟩ := bar_key hm hrows hbar
    refine Finset.mem_product.mpr ⟨List.mem_toFinset.mpr hticker, ?_⟩
    refine Finset.mem_image.mpr ⟨(d, i), ?_, hlabel.symm⟩
    exact Finset.mem_product.mpr ⟨hd, Finset.mem_range.mpr hi⟩
  calc bars.length
      = (bars.map (fun bar => (bar.ticker, bar.timestamp))).toFinset.card := by
        rw [List.toFinset_card_of_nodup hnodup, List.length_map]
    _ ≤ keys.card := Finset.card_le_card hsubset
    _ = tickers.toFinset.card * ((working_days start stop ×ˢ
          Finset.range (bars_per_session minutes)).image (bucket_label clock minutes)).card :=
        Finset.card_product _ _
    _ ≤ tickers.length * ((working_days start stop).card * bars_per_session minutes) := by
        apply Nat.mul_le_mul (List.toFinset_card_le tickers)
        apply le_trans Finset.card_image_le
        rw [Finset.card_product, Finset.card_range]
    _ = tickers.length * (working_days start stop).card * bars_per_session minutes :=
        (mul_assoc _ _ _).symm

end Fetch

/-- **The estimate is an upper bound.** The weekdays of a window are counted
    exactly, and a fetch never returns more bars than estimated. -/
theorem estimate_is_bound :
    (∀ start stop, start ≤ stop →
      weekdays_between start stop = (working_days start stop).card) ∧
    ∀ (table : MarketTable) (clock : MarketClock) (tickers : List Ticker) (start stop : ℤ)
      (minutes : ℕ) (bars : List IntradayBar), start ≤ stop → 0 < minutes →
      OnWeekdays table clock tickers →
      fetch_db_intraday_bars table clock tickers start stop minutes = .ok bars →
      bars.length ≤ estimate_bar_count tickers.length start stop minutes := by
  refine ⟨fun start stop h => weekdays_between_eq h, ?_⟩
  intro table clock tickers start stop minutes bars hwindow hm hrows hfetch
  obtain ⟨_, _, hbars⟩ := Fallible.bind_ok hfetch
  obtain rfl := Except.ok.inj hbars
  unfold estimate_bar_count
  rw [weekdays_between_eq hwindow]
  exact length_finalize_le hm hrows

/-- Three hourly rows on a Thursday. -/
theorem thursday_bounded :
    (finalize eastern_standard 60 (fetched_frame
      (hourly_table (14 * hour_us + 30 * minute_us)) eastern_standard [msft] 0 0 60)).length ≤
        estimate_bar_count 1 0 0 60 := by
  have hrows : OnWeekdays (hourly_table (14 * hour_us + 30 * minute_us)) eastern_standard
      [msft] := by
    unfold OnWeekdays
    decide +kernel
  have hfetch : fetch_db_intraday_bars (hourly_table (14 * hour_us + 30 * minute_us))
      eastern_standard [msft] 0 0 60 = .ok (finalize eastern_standard 60 (fetched_frame
        (hourly_table (14 * hour_us + 30 * minute_us)) eastern_standard [msft] 0 0 60)) := by
    decide +kernel
  exact estimate_is_bound.2 _ _ _ 0 0 60 _ (le_refl 0) (by decide) hrows hfetch

/-! ### Warm-up windows -/

theorem bars_per_session_pos {minutes : ℕ} (hm : 0 < minutes) : 0 < bars_per_session minutes := by
  have hminutes : (0 : ℚ) < minutes := by exact_mod_cast hm
  unfold bars_per_session SESSION_MINUTES
  rw [Nat.ceil_pos]
  positivity

theorem intraday_minutes_pos {minutes : ℕ} (h : minutes ∈ intraday_minutes) : 0 < minutes := by
  simp only [intraday_minutes, List.mem_cons, List.not_mem_nil, or_false] at h
  omega

/-- Of any days in a row, enough for the sessions are weekdays when one in six
    of these is a holiday. A window may lose two days to its phase, and the
    four days on top make up for that. -/
theorem sessions_le (start : ℤ) (days : ℕ) {sessions : ℤ}
    (hdays : 42 * sessions ≤ 25 * ((days : ℤ) - 4)) :
    sessions ≤ (count_from start days - count_from start days / 6 : ℕ) := by
  have hsplit := Nat.div_add_mod days 7
  have hcount := count_weeks start (days / 7) (days % 7)
  have hrest := count_rest_ge start (Nat.mod_lt days (by decide : 7 > 0))
  rw [hsplit] at hcount
  omega

/-- **Warm-up windows are long enough**, for every period, bar size and day of
    the week. -/
theorem warmup_enough {period : ℤ} {minutes : ℕ} (hperiod : 1 ≤ period)
    (hm : minutes ∈ intraday_minutes) (stop : ℤ) :
    ∃ w, w = (working_days (stop - warmup_calendar_days period minutes) (stop - 1)).card ∧
      w = weekdays_between (stop - warmup_calendar_days period minutes) (stop - 1) ∧
      period ≤ ((w - w / 6 : ℕ) : ℤ) * bars_per_session minutes := by
  have hbars : (0 : ℚ) < bars_per_session minutes := by
    exact_mod_cast bars_per_session_pos (intraday_minutes_pos hm)
  generalize hs : ⌈((max period 1 : ℤ) / bars_per_session minutes : ℚ)⌉ = sessions
  have hcover : period ≤ sessions * bars_per_session minutes := by
    have hle := Int.le_ceil ((max period 1 : ℤ) / bars_per_session minutes : ℚ)
    rw [hs, div_le_iff₀ hbars, max_eq_left hperiod] at hle
    exact_mod_cast hle
  have hpos : 1 ≤ sessions := by
    by_contra hlt
    have hnone : sessions * bars_per_session minutes ≤ 0 :=
      mul_nonpos_of_nonpos_of_nonneg (by omega) (Int.natCast_nonneg _)
    omega
  generalize hw : warmup_calendar_days period minutes = days
  have hdays : 42 * sessions ≤ 25 * (days - 4) := by
    unfold warmup_calendar_days at hw
    simp only at hw
    rw [hs] at hw
    have hle := Int.le_ceil (sessions * 7 / 5 * (12 / 10) : ℚ)
    rw [show ⌈(sessions * 7 / 5 * (12 / 10) : ℚ)⌉ = days - 4 by omega] at hle
    have hrat : (42 : ℚ) * sessions ≤ 25 * ((days - 4 : ℤ) : ℚ) := by linarith
    exact_mod_cast hrat
  have hlength : stop - 1 - (stop - days) + 1 = days := by ring
  refine ⟨_, rfl, (weekdays_between_eq (by omega)).symm, ?_⟩
  rw [card_working_days, hlength]
  have hcast : ((days.toNat : ℕ) : ℤ) = days := Int.toNat_of_nonneg (by omega)
  have hsessions := sessions_le (stop - days) days.toNat (by rw [hcast]; exact hdays)
  calc period ≤ sessions * bars_per_session minutes := hcover
    _ ≤ _ := mul_le_mul_of_nonneg_right hsessions (Int.natCast_nonneg _)

/-- 200 hourly bars before a Thursday. -/
theorem warmup_of_200_hours :
    ∃ w, w = weekdays_between (-warmup_calendar_days 200 60) (-1) ∧
      200 ≤ ((w - w / 6 : ℕ) : ℤ) * bars_per_session 60 := by
  have hm : 60 ∈ intraday_minutes := by decide
  obtain ⟨w, _, hw, henough⟩ := warmup_enough (by decide : (1 : ℤ) ≤ 200) hm 0
  rw [zero_sub, zero_sub] at hw
  exact ⟨w, hw, henough⟩

end Intraday
