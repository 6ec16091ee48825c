import BacktestVisualizer.Data.HistoryCache
import BacktestVisualizer.Framework.DataFrame
import BacktestVisualizer.Framework.Fallible
import Mathlib.Data.Prod.Lex
import Mathlib.Data.String.Basic

/-! # Intraday Bars

  `engine/data/intraday.py`, database source: the spacing of the stored rows
  is measured, a bar size that is no multiple of it is refused, and the rows
  of a session are put into buckets aligned to 09:30. A bar is labelled with
  the end of its bucket, or with 16:00.

  The phase of the stored rows is not measured. `labels_known` says exactly
  when no bar is labelled before all of its rows have ended.
-/

open Batches DataFrame PyFloat
open History (Clock MarketRow MarketTable sql_sum winter_clock)

namespace Intraday

/-! ### Market time -/

/-- New York with the first instant of each date. The UTC offset takes values
    within an hour of each other. -/
structure MarketClock extends Clock where
  midnight : ℤ → ℤ
  wall_midnight : ∀ d, wall (midnight d) = d * day_us
  offsets_near : ∀ a b, wall a - a ≤ wall b - b + hour_us

namespace MarketClock

variable (clock : MarketClock)

/-- The wall clock time of an instant, since midnight. -/
def time_of_day (t : ℤ) : ℤ := clock.wall t % day_us

/-- `_SESSION_FILTER`: from 09:30, before 16:00. -/
def trading (t : ℤ) : Prop :=
  34200000000 ≤ clock.time_of_day t ∧ clock.time_of_day t < 57600000000

instance (t : ℤ) : Decidable (clock.trading t) := inferInstanceAs (Decidable (_ ∧ _))

/-- 16:00 on the date of a trading instant, the offset not changing while the
    market is open. -/
def session_end (t : ℤ) : ℤ := t + (57600000000 - clock.time_of_day t)

/-- `_session_bounds`. -/
def session_bounds (start stop : ℤ) : ℤ × ℤ := (clock.midnight start, clock.midnight (stop + 1))

end MarketClock

def minute_us : ℤ := 60000000

variable (table : MarketTable) (clock : MarketClock)

/-- The rows a query sees for a ticker between two instants. -/
def session_rows (ticker : Ticker) (lower upper : ℤ) : List MarketRow :=
  (table.rows ticker).filter
    (fun r => lower ≤ r.timestamp ∧ r.timestamp < upper ∧ clock.trading r.timestamp)

/-! ### The stored spacing -/

/-- The gaps between consecutive elements. -/
def gaps (l : List ℤ) : List ℤ := List.zipWith (fun a b => b - a) l l.tail

/-- The subquery of `_SPACING_SQL`, in microseconds. -/
def session_gaps (tickers : List Ticker) (lower upper : ℤ) : List ℤ :=
  (tickers.dedup.flatMap (fun ticker =>
    let rows := session_rows table clock ticker lower upper
    (rows.map (fun r => clock.date r.timestamp)).dedup.flatMap (fun date =>
      gaps ((rows.filter (fun r => clock.date r.timestamp = date)).map MarketRow.timestamp)))).filter
    (0 < ·)

/-- `ORDER BY occurrences DESC, gap_minutes ASC LIMIT 1`. -/
def most_common (l : List ℤ) : Option ℤ :=
  (l.filter (fun gap => some (l.count gap) = (l.map (fun g => l.count g)).max?)).min?

/-- `spacing_probe_windows`, for a start that is not after the end. -/
def spacing_probe_windows (start stop : ℤ) : List (ℤ × ℤ) :=
  let windows := (List.range (((stop - start) / 60).toNat + 1)).map (fun i : ℕ =>
    (start + 60 * i, min stop (start + 60 * i + 4)))
  let last_start := max start (stop - 4)
  match windows.getLast? with
  | none => []
  | some last =>
      if last_start ≤ last.2 then windows.dropLast ++ [(last.1, stop)]
      else windows ++ [(last_start, stop)]

/-- The spacing one probe finds, in minutes. -/
def probe_minutes (tickers : List Ticker) (window : ℤ × ℤ) : Option ℕ :=
  let bounds := clock.session_bounds window.1 window.2
  (most_common (session_gaps table clock tickers bounds.1 bounds.2)).map
    (fun gap => (max 1 (round_half_even ((gap : ℚ) / minute_us))).toNat)

/-- `stored_bar_minutes`. -/
def stored_bar_minutes (tickers : List Ticker) (start stop : ℤ) : Option ℕ :=
  let spacings := (spacing_probe_windows start stop).filterMap (probe_minutes table clock tickers)
  if spacings = [] then none else some (spacings.foldl Nat.lcm 1)

/-- `IntradayResolutionUnavailable`. -/
structure ResolutionUnavailable where
  stored : ℕ
  minutes : ℕ
  deriving DecidableEq, Repr

def ResolutionUnavailable.message (e : ResolutionUnavailable) : String :=
  s!"The market-data database stores {e.stored}-minute bars, so {e.minutes}-minute " ++
  s!"bars cannot be built from it. Choose a bar interval that is a multiple of " ++
  s!"{e.stored} minutes, or run against MARKET_DATA_SOURCE=fmp."

/-- `require_resolution`. -/
def require_resolution (stored : Option ℕ) (minutes : ℕ) : Except ResolutionUnavailable Unit :=
  match stored with
  | none => .ok ()
  | some stored => if minutes % stored = 0 then .ok () else .error ⟨stored, minutes⟩

/-! ### Buckets -/

/-- The group of a row in `_BUCKET_SQL`. -/
structure BucketKey where
  trade_date : ℤ
  bucket_index : ℤ
  deriving DecidableEq, Repr

def bucket_of (minutes : ℕ) (t : ℤ) : BucketKey where
  trade_date := clock.date t
  bucket_index := (clock.time_of_day t - 34200000000) / (minutes * minute_us)

/-- A row `_BUCKET_SQL` returns. -/
structure Bucket where
  ticker : Ticker
  key : BucketKey
  open_price : Option ℚ
  high_price : Option ℚ
  low_price : Option ℚ
  close_price : Option ℚ
  volume : Option ℚ
  deriving DecidableEq, Repr

/-- One group, whose rows are in the order of their timestamps. -/
def aggregate (ticker : Ticker) (key : BucketKey) (rows : List MarketRow) : Bucket where
  ticker := ticker
  key := key
  open_price := rows.head?.bind MarketRow.open_price
  high_price := (rows.filterMap MarketRow.high_price).max?
  low_price := (rows.filterMap MarketRow.low_price).min?
  close_price := rows.getLast?.bind MarketRow.close_price
  volume := sql_sum (rows.filterMap MarketRow.volume)

/-- `_BUCKET_SQL`, for the tickers of a chunk. -/
def bucket_query (minutes : ℕ) (tickers : List Ticker) (lower upper : ℤ) : List Bucket :=
  tickers.dedup.flatMap (fun ticker =>
    let rows := session_rows table clock ticker lower upper
    (rows.map (fun r => bucket_of clock minutes r.timestamp)).dedup.map (fun key =>
      aggregate ticker key (rows.filter (fun r => bucket_of clock minutes r.timestamp = key))))

/-! ### Labels -/

/-- `label_bar_close`. -/
def label_bar_close (bar_start : ℤ) (minutes : ℕ) : ℤ :=
  min (bar_start + minutes * minute_us)
    (clock.midnight (clock.date bar_start) + 57600000000)

/-- `bar_start` of a bucket: times are added to the midnight of its date. -/
def bar_start (minutes : ℕ) (key : BucketKey) : ℤ :=
  clock.midnight key.trade_date + 34200000000 + key.bucket_index * (minutes * minute_us)

/-- A bar of the returned frame. -/
structure IntradayBar where
  ticker : Ticker
  timestamp : ℤ
  open_price : Option ℚ
  high_price : Option ℚ
  low_price : Option ℚ
  close_price : ℚ
  volume : Option ℚ
  deriving DecidableEq, Repr

/-- A row of the frame handed to `_finalize`. -/
structure StartedBar where
  ticker : Ticker
  bar_start : ℤ
  open_price : Option ℚ
  high_price : Option ℚ
  low_price : Option ℚ
  close_price : Option ℚ
  volume : Option ℚ
  deriving DecidableEq, Repr

/-- What `_finalize` makes of a row: one that does not start in the session or
    has no close is dropped. -/
def close_labelled (minutes : ℕ) (row : StartedBar) : Option IntradayBar :=
  if clock.trading row.bar_start then
    row.close_price.map (fun close_price =>
      { ticker := row.ticker
        timestamp := label_bar_close clock row.bar_start minutes
        open_price := row.open_price
        high_price := row.high_price
        low_price := row.low_price
        close_price := close_price
        volume := row.volume })
  else none

/-- `sort_values(["timestamp", "ticker"])`. -/
def bar_order (bar : IntradayBar) : ℤ ×ₗ String := toLex (bar.timestamp, bar.ticker.symbol)

/-- `drop_duplicates(["ticker", "timestamp"], keep="last")` and the sort. -/
def last_of_each (bars : List IntradayBar) : List IntradayBar :=
  sort_values bar_order (keep_last (fun bar => (bar.ticker, bar.timestamp)) bars)

/-- `_finalize`. -/
def finalize (minutes : ℕ) (frame : List StartedBar) : List IntradayBar :=
  last_of_each (frame.filterMap (close_labelled clock minutes))

/-! ### `fetch_db_intraday_bars` -/

/-- Consecutive inclusive windows of a number of days. -/
def slabs (days : ℕ) (start stop : ℤ) : List (ℤ × ℤ) :=
  (List.range ((stop - start + days) / days).toNat).map (fun i : ℕ =>
    (start + days * i, min stop (start + days * i + (days - 1))))

/-- The rows of all queries. -/
def fetched_buckets (tickers : List Ticker) (start stop : ℤ) (minutes : ℕ) : List Bucket :=
  (slabs 30 start stop).flatMap (fun slab =>
    let bounds := clock.session_bounds slab.1 slab.2
    (chunks 10 tickers).flatMap (fun chunk =>
      bucket_query table clock minutes chunk bounds.1 bounds.2))

/-- A bucket with its start. -/
def started (minutes : ℕ) (bucket : Bucket) : StartedBar where
  ticker := bucket.ticker
  bar_start := bar_start clock minutes bucket.key
  open_price := bucket.open_price
  high_price := bucket.high_price
  low_price := bucket.low_price
  close_price := bucket.close_price
  volume := bucket.volume

/-- The frame of all queries. -/
def fetched_frame (tickers : List Ticker) (start stop : ℤ) (minutes : ℕ) : List StartedBar :=
  (fetched_buckets table clock tickers start stop minutes).map (started clock minutes)

/-- `fetch_db_intraday_bars`, when its queries complete. -/
def fetch_db_intraday_bars (tickers : List Ticker) (start stop : ℤ) (minutes : ℕ) :
    Except ResolutionUnavailable (List IntradayBar) := do
  require_resolution (stored_bar_minutes table clock tickers start stop) minutes
  return finalize clock minutes (fetched_frame table clock tickers start stop minutes)

/-! ### Dates and clock times -/

section Time

variable {clock}

variable (clock) in
theorem wall_eq (t : ℤ) : clock.wall t = clock.date t * day_us + clock.time_of_day t := by
  unfold Clock.date MarketClock.time_of_day
  rw [mul_comm]
  exact (Int.mul_ediv_add_emod _ _).symm

theorem date_of_wall {t d y : ℤ} (h : clock.wall t = d * day_us + y) (hy : 0 ≤ y)
    (hy' : y < day_us) : clock.date t = d := by
  unfold Clock.date
  unfold day_us at *
  omega

theorem date_midnight (d : ℤ) : clock.date (clock.midnight d) = d :=
  date_of_wall (y := 0) (by rw [clock.wall_midnight, add_zero]) (le_refl 0) (by decide)

/-- The change of the UTC offset since midnight. -/
def shift (clock : MarketClock) (t : ℤ) : ℤ :=
  (clock.wall t - t) - (clock.wall (clock.midnight (clock.date t)) - clock.midnight (clock.date t))

variable (clock) in
theorem shift_bounds (t : ℤ) : -hour_us ≤ shift clock t ∧ shift clock t ≤ hour_us := by
  have hlow := clock.offsets_near (clock.midnight (clock.date t)) t
  have hhigh := clock.offsets_near t (clock.midnight (clock.date t))
  unfold shift
  constructor
  · omega
  · omega

variable (clock) in
/-- An instant counted from the midnight of its date. -/
theorem eq_midnight_add (t : ℤ) :
    t = clock.midnight (clock.date t) + clock.time_of_day t - shift clock t := by
  have hwall := wall_eq clock t
  have hmidnight := clock.wall_midnight (clock.date t)
  unfold shift
  omega

/-- From midnight to midnight a trading instant is on the dates between. -/
theorem in_bounds_iff {t : ℤ} (ht : clock.trading t) (a b : ℤ) :
    (clock.midnight a ≤ t ∧ t < clock.midnight (b + 1)) ↔ a ≤ clock.date t ∧ clock.date t ≤ b := by
  have hafter : ∀ d, clock.midnight d ≤ t ↔ d ≤ clock.date t := by
    intro d
    constructor
    · intro hle
      have hmono := clock.date_mono _ _ hle
      rwa [show clock.wall (clock.midnight d) / day_us = d from date_midnight d] at hmono
    · intro hle
      by_contra hlt
      have hmono := clock.date_mono _ _ (le_of_lt (not_le.mp hlt))
      rw [show clock.wall (clock.midnight d) / day_us = d from date_midnight d] at hmono
      have hdate : clock.date t = d := le_antisymm hmono hle
      -- 09:30 is more than an hour after midnight
      have heq := eq_midnight_add clock t
      have hshift := (shift_bounds clock t).2
      have hopen := ht.1
      rw [hdate] at heq
      unfold hour_us at hshift
      omega
  rw [hafter a, ← not_le, hafter (b + 1)]
  omega

/-- A bar is labelled on the date it starts on. -/
theorem date_label_bar_close {t : ℤ} (ht : clock.trading t) (minutes : ℕ) :
    clock.date (label_bar_close clock t minutes) = clock.date t := by
  have hafter : clock.midnight (clock.date t) ≤ t :=
    ((in_bounds_iff ht (clock.date t) (clock.date t)).mpr ⟨le_refl _, le_refl _⟩).1
  have hlength : 0 ≤ (minutes : ℤ) * minute_us := by
    unfold minute_us
    omega
  have hlow : clock.midnight (clock.date t) ≤ label_bar_close clock t minutes := by
    apply le_min
    · omega
    · omega
  have hhigh : label_bar_close clock t minutes ≤ clock.midnight (clock.date t) + 57600000000 :=
    min_le_right _ _
  apply le_antisymm
  · have hmono : clock.date _ ≤ clock.date _ := clock.date_mono _ _ hhigh
    -- 16 hours after midnight it is 17:00 at the latest
    have hoffset := clock.offsets_near (clock.midnight (clock.date t) + 57600000000)
      (clock.midnight (clock.date t))
    have hmidnight := clock.wall_midnight (clock.date t)
    apply le_trans hmono
    show clock.wall _ / day_us ≤ clock.date t
    unfold hour_us day_us at *
    omega
  · have hmono : clock.date _ ≤ clock.date _ := clock.date_mono _ _ hlow
    rwa [date_midnight] at hmono

end Time

/-! ### The bucket of a row -/

section Labels

variable {clock} {minutes : ℕ}

/-- The label of the bucket of a row. -/
def row_label (clock : MarketClock) (minutes : ℕ) (t : ℤ) : ℤ :=
  label_bar_close clock (bar_start clock minutes (bucket_of clock minutes t)) minutes

/-- The bucket of a trading instant starts before the instant, in the session. -/
theorem bucket_bounds (hm : 0 < minutes) {t : ℤ} (ht : clock.trading t) :
    0 ≤ (bucket_of clock minutes t).bucket_index * (minutes * minute_us) ∧
      (bucket_of clock minutes t).bucket_index * (minutes * minute_us) ≤
        clock.time_of_day t - 34200000000 := by
  have hwidth : 0 < (minutes : ℤ) * minute_us := by
    unfold minute_us
    omega
  have hopen : 0 ≤ clock.time_of_day t - 34200000000 := by
    have := ht.1
    omega
  unfold bucket_of
  constructor
  · exact mul_nonneg (Int.ediv_nonneg hopen (le_of_lt hwidth)) (le_of_lt hwidth)
  · exact Int.ediv_mul_le _ (ne_of_gt hwidth)

theorem date_bar_start (hm : 0 < minutes) {t : ℤ} (ht : clock.trading t) :
    clock.date (bar_start clock minutes (bucket_of clock minutes t)) = clock.date t := by
  obtain ⟨hlow, hhigh⟩ := bucket_bounds hm ht
  have hclose := ht.2
  generalize hstart : bar_start clock minutes (bucket_of clock minutes t) = s
  have hs : s = clock.midnight (clock.date t) + 34200000000 +
      (bucket_of clock minutes t).bucket_index * (minutes * minute_us) := hstart.symm
  have hbelow := clock.offsets_near (clock.midnight (clock.date t)) s
  have habove := clock.offsets_near s (clock.midnight (clock.date t))
  have hmidnight := clock.wall_midnight (clock.date t)
  apply date_of_wall (y := clock.wall s - clock.date t * day_us)
  · omega
  · unfold hour_us at *
    omega
  · unfold hour_us day_us at *
    omega

/-- The label of a row, counted from midnight. -/
theorem row_label_eq (hm : 0 < minutes) {t : ℤ} (ht : clock.trading t) :
    row_label clock minutes t = clock.midnight (clock.date t) +
      min (34200000000 + ((bucket_of clock minutes t).bucket_index + 1) * (minutes * minute_us))
        57600000000 := by
  unfold row_label label_bar_close
  rw [date_bar_start hm ht]
  unfold bar_start
  rw [add_mul, one_mul]
  show min (clock.midnight (clock.date t) + 34200000000 + _ + _) _ = _
  omega

theorem row_label_lt_of_date_lt (hm : 0 < minutes) {t t' : ℤ} (ht : clock.trading t)
    (ht' : clock.trading t') (h : clock.date t < clock.date t') :
    row_label clock minutes t < row_label clock minutes t' := by
  rw [row_label_eq hm ht, row_label_eq hm ht']
  have hlow := (bucket_bounds hm ht').1
  have hnear := clock.offsets_near (clock.midnight (clock.date t')) (clock.midnight (clock.date t))
  rw [clock.wall_midnight, clock.wall_midnight] at hnear
  have hdays : clock.date t * day_us + day_us ≤ clock.date t' * day_us := by
    unfold day_us
    omega
  have hwidth : 0 < (minutes : ℤ) * minute_us := by
    unfold minute_us
    omega
  rw [add_mul, add_mul, one_mul]
  unfold hour_us at hnear
  unfold day_us at *
  omega

theorem row_label_lt_of_index_lt (hm : 0 < minutes) {t t' : ℤ} (ht : clock.trading t)
    (ht' : clock.trading t') (hdate : clock.date t = clock.date t')
    (h : (bucket_of clock minutes t).bucket_index < (bucket_of clock minutes t').bucket_index) :
    row_label clock minutes t < row_label clock minutes t' := by
  rw [row_label_eq hm ht, row_label_eq hm ht', hdate]
  have hhigh := (bucket_bounds hm ht').2
  have hclose := ht'.2
  have hwidth : 0 < (minutes : ℤ) * minute_us := by
    unfold minute_us
    omega
  have hnext : ((bucket_of clock minutes t).bucket_index + 1) * (minutes * minute_us) ≤
      (bucket_of clock minutes t').bucket_index * (minutes * minute_us) :=
    mul_le_mul_of_nonneg_right h (le_of_lt hwidth)
  rw [add_mul _ 1 ((minutes : ℤ) * minute_us), one_mul] at hnext ⊢
  rw [add_mul _ 1 ((minutes : ℤ) * minute_us), one_mul]
  omega

/-- **Labels tell buckets apart.** -/
theorem same_bucket_of_label (hm : 0 < minutes) {t t' : ℤ} (ht : clock.trading t)
    (ht' : clock.trading t') (h : row_label clock minutes t = row_label clock minutes t') :
    bucket_of clock minutes t = bucket_of clock minutes t' := by
  have hdate : clock.date t = clock.date t' := by
    rcases lt_trichotomy (clock.date t) (clock.date t') with hlt | heq | hlt
    · exact absurd h (ne_of_lt (row_label_lt_of_date_lt hm ht ht' hlt))
    · exact heq
    · exact absurd h.symm (ne_of_lt (row_label_lt_of_date_lt hm ht' ht hlt))
  have hindex : (bucket_of clock minutes t).bucket_index =
      (bucket_of clock minutes t').bucket_index := by
    rcases lt_trichotomy (bucket_of clock minutes t).bucket_index
      (bucket_of clock minutes t').bucket_index with hlt | heq | hlt
    · exact absurd h (ne_of_lt (row_label_lt_of_index_lt hm ht ht' hdate hlt))
    · exact heq
    · exact absurd h.symm (ne_of_lt (row_label_lt_of_index_lt hm ht' ht hdate.symm hlt))
  show (⟨clock.date t, (bucket_of clock minutes t).bucket_index⟩ : BucketKey) =
    ⟨clock.date t', (bucket_of clock minutes t').bucket_index⟩
  rw [hdate, hindex]

/-- A row whose bar, counted on the clock of its date, is labelled after it
    has ended: it ends within its bucket, or the bucket reaches 16:00. On a
    date whose UTC offset has changed since midnight the label moves by the
    change. -/
def covered (clock : MarketClock) (spacing minutes : ℕ) (t : ℤ) : Prop :=
  let elapsed := clock.time_of_day t - 34200000000
  let width := minutes * minute_us
  (elapsed % width + spacing * minute_us ≤ width + shift clock t ∨
    23400000000 ≤ (elapsed / width + 1) * width + shift clock t) ∧
  (0 ≤ shift clock t ∨ elapsed + spacing * minute_us ≤ 23400000000 + shift clock t)

instance (clock : MarketClock) (spacing minutes : ℕ) (t : ℤ) :
    Decidable (covered clock spacing minutes t) :=
  inferInstanceAs (Decidable ((_ ∨ _) ∧ (_ ∨ _)))

/-- Rows that start a multiple of their spacing after 09:30 are covered by
    every multiple of the spacing. -/
theorem covered_of_aligned {spacing : ℕ} (hspacing : 0 < spacing) (hm : 0 < minutes)
    (hdvd : spacing ∣ minutes) {t : ℤ} (hshift : shift clock t = 0)
    (haligned : (spacing : ℤ) * minute_us ∣ clock.time_of_day t - 34200000000) :
    covered clock spacing minutes t := by
  have hunit : 0 < (spacing : ℤ) * minute_us := by
    unfold minute_us
    omega
  obtain ⟨j, rfl⟩ := hdvd
  obtain ⟨k, hk⟩ := haligned
  have hwidth : (((spacing * j : ℕ) : ℤ)) * minute_us = spacing * minute_us * j := by
    push_cast
    ring
  have hj : (0 : ℤ) < j := by
    exact_mod_cast Nat.pos_of_mul_pos_left hm
  unfold covered
  simp only
  rw [hshift, hk, hwidth, Int.mul_emod_mul_of_pos _ _ hunit]
  refine ⟨Or.inl ?_, Or.inl (le_refl 0)⟩
  have hrest : k % j + 1 ≤ j := Int.emod_lt_of_pos k hj
  have hscaled := mul_le_mul_of_nonneg_left hrest (le_of_lt hunit)
  rw [mul_add, mul_one] at hscaled
  omega

theorem label_known_iff (spacing : ℕ) (hm : 0 < minutes) {t : ℤ} (ht : clock.trading t) :
    min (t + spacing * minute_us) (clock.session_end t) ≤ row_label clock minutes t ↔
      covered clock spacing minutes t := by
  rw [row_label_eq hm ht]
  have heq := eq_midnight_add clock t
  have hsplit := Int.mul_ediv_add_emod (clock.time_of_day t - 34200000000) (minutes * minute_us)
  unfold covered MarketClock.session_end
  simp only [bucket_of]
  generalize (clock.time_of_day t - 34200000000) / (minutes * minute_us) = index at *
  generalize (clock.time_of_day t - 34200000000) % (minutes * minute_us) = rest at *
  rw [add_mul, one_mul, mul_comm index]
  generalize (minutes : ℤ) * minute_us * index = start at *
  omega

end Labels

/-! ### The fetched buckets -/

section Fetch

variable {table} {clock} {minutes : ℕ} {ticker : Ticker}

/-- The stored rows of a ticker in the session on the dates of a window. -/
def window_rows (table : MarketTable) (clock : MarketClock) (ticker : Ticker) (start stop : ℤ) :
    List MarketRow :=
  (table.rows ticker).filter (fun r =>
    clock.trading r.timestamp ∧ start ≤ clock.date r.timestamp ∧ clock.date r.timestamp ≤ stop)

/-- The rows that share a row's bucket. -/
def bucket_rows (table : MarketTable) (clock : MarketClock) (ticker : Ticker) (start stop : ℤ)
    (minutes : ℕ) (key : BucketKey) : List MarketRow :=
  (window_rows table clock ticker start stop).filter
    (fun r => bucket_of clock minutes r.timestamp = key)

theorem mem_window_rows {start stop : ℤ} {r : MarketRow} :
    r ∈ window_rows table clock ticker start stop ↔
      r ∈ table.rows ticker ∧ clock.trading r.timestamp ∧
        start ≤ clock.date r.timestamp ∧ clock.date r.timestamp ≤ stop := by
  simp [window_rows, List.mem_filter]

/-- What a query sees is the rows on the dates of its window. -/
theorem session_rows_bounds (start stop : ℤ) :
    session_rows table clock ticker (clock.session_bounds start stop).1
      (clock.session_bounds start stop).2 = window_rows table clock ticker start stop := by
  unfold session_rows window_rows
  apply List.filter_congr
  intro r _
  apply decide_eq_decide.mpr
  constructor
  · intro ⟨hlow, hhigh, htrading⟩
    exact ⟨htrading, (in_bounds_iff htrading start stop).mp ⟨hlow, hhigh⟩⟩
  · intro ⟨htrading, hdates⟩
    obtain ⟨hlow, hhigh⟩ := (in_bounds_iff htrading start stop).mpr hdates
    exact ⟨hlow, hhigh, htrading⟩

theorem mem_bucket_query {tickers : List Ticker} {start stop : ℤ} {bucket : Bucket} :
    bucket ∈ bucket_query table clock minutes tickers (clock.session_bounds start stop).1
        (clock.session_bounds start stop).2 ↔
      ∃ ticker ∈ tickers, ∃ r ∈ window_rows table clock ticker start stop,
        bucket = aggregate ticker (bucket_of clock minutes r.timestamp)
          (bucket_rows table clock ticker start stop minutes
            (bucket_of clock minutes r.timestamp)) := by
  unfold bucket_query
  rw [List.mem_flatMap]
  constructor
  · intro ⟨ticker, hticker, hbucket⟩
    rw [session_rows_bounds] at hbucket
    obtain ⟨key, hkey, rfl⟩ := List.mem_map.mp hbucket
    obtain ⟨r, hr, rfl⟩ := List.mem_map.mp (List.mem_dedup.mp hkey)
    exact ⟨ticker, List.mem_dedup.mp hticker, r, hr, rfl⟩
  · intro ⟨ticker, hticker, r, hr, hbucket⟩
    refine ⟨ticker, List.mem_dedup.mpr hticker, ?_⟩
    rw [session_rows_bounds]
    exact List.mem_map.mpr ⟨_, List.mem_dedup.mpr (List.mem_map.mpr ⟨r, hr, rfl⟩), hbucket.symm⟩

/-- Every date of a window is in one of its slabs. -/
theorem mem_slabs {days : ℕ} (hdays : 0 < days) {start stop d : ℤ} (h : start ≤ d) (h' : d ≤ stop) :
    ∃ slab ∈ slabs days start stop, slab.1 ≤ d ∧ d ≤ slab.2 := by
  have hpos : (0 : ℤ) < days := by exact_mod_cast hdays
  have hindex : 0 ≤ (d - start) / days := Int.ediv_nonneg (by omega) (le_of_lt hpos)
  have hsplit := Int.mul_ediv_add_emod (d - start) days
  have hrest := Int.emod_nonneg (d - start) (ne_of_gt hpos)
  have hrest' := Int.emod_lt_of_pos (d - start) hpos
  have hcast : (((d - start) / days).toNat : ℤ) = (d - start) / days := Int.toNat_of_nonneg hindex
  have hlast : (d - start) / days < (stop - start + days) / days := by
    rw [Int.add_ediv_of_dvd_right (dvd_refl _), Int.ediv_self (ne_of_gt hpos)]
    have := Int.ediv_le_ediv hpos (show d - start ≤ stop - start by omega)
    omega
  refine ⟨_, List.mem_map.mpr ⟨((d - start) / days).toNat, List.mem_range.mpr ?_, rfl⟩, ?_, ?_⟩
  · omega
  · show start + days * (((d - start) / days).toNat : ℤ) ≤ d
    rw [hcast]
    omega
  · show d ≤ min stop (start + days * (((d - start) / days).toNat : ℤ) + (days - 1))
    rw [hcast]
    omega

theorem slab_bounds {days : ℕ} {start stop : ℤ} {slab : ℤ × ℤ} (h : slab ∈ slabs days start stop) :
    start ≤ slab.1 ∧ slab.2 ≤ stop := by
  obtain ⟨i, _, rfl⟩ := List.mem_map.mp h
  constructor
  · show start ≤ start + days * (i : ℤ)
    have : (0 : ℤ) ≤ days * i := by positivity
    omega
  · exact min_le_left _ _

/-- A slab holds the buckets of its dates in full. -/
theorem bucket_rows_slab {start stop a b : ℤ} {key : BucketKey} (ha : start ≤ a) (hb : b ≤ stop)
    (hkey : a ≤ key.trade_date ∧ key.trade_date ≤ b) :
    bucket_rows table clock ticker a b minutes key =
      bucket_rows table clock ticker start stop minutes key := by
  unfold bucket_rows window_rows
  rw [List.filter_filter, List.filter_filter]
  apply List.filter_congr
  intro r _
  by_cases hr : bucket_of clock minutes r.timestamp = key
  · have hdate : clock.date r.timestamp = key.trade_date := by rw [← hr]; rfl
    have hslab : a ≤ clock.date r.timestamp ∧ clock.date r.timestamp ≤ b := by rw [hdate]; exact hkey
    have hwindow : start ≤ clock.date r.timestamp ∧ clock.date r.timestamp ≤ stop :=
      ⟨le_trans ha hslab.1, le_trans hslab.2 hb⟩
    simp [hr, hslab, hwindow]
  · simp [hr]

/-- The buckets of all queries are those of the rows of the window. -/
theorem mem_fetched_buckets {tickers : List Ticker} {start stop : ℤ} {bucket : Bucket} :
    bucket ∈ fetched_buckets table clock tickers start stop minutes ↔
      ∃ ticker ∈ tickers, ∃ r ∈ window_rows table clock ticker start stop,
        bucket = aggregate ticker (bucket_of clock minutes r.timestamp)
          (bucket_rows table clock ticker start stop minutes
            (bucket_of clock minutes r.timestamp)) := by
  unfold fetched_buckets
  rw [List.mem_flatMap]
  constructor
  · intro ⟨slab, hslab, hbucket⟩
    obtain ⟨chunk, hchunk, hquery⟩ := List.mem_flatMap.mp hbucket
    obtain ⟨ticker, hticker, r, hr, rfl⟩ := mem_bucket_query.mp hquery
    obtain ⟨hstored, htrading, hdates⟩ := mem_window_rows.mp hr
    obtain ⟨hlow, hhigh⟩ := slab_bounds hslab
    refine ⟨ticker, mem_of_mem_chunks hchunk hticker, r, ?_, ?_⟩
    · exact mem_window_rows.mpr
        ⟨hstored, htrading, le_trans hlow hdates.1, le_trans hdates.2 hhigh⟩
    · rw [bucket_rows_slab hlow hhigh hdates]
  · intro ⟨ticker, hticker, r, hr, hbucket⟩
    obtain ⟨hstored, htrading, hlow, hhigh⟩ := mem_window_rows.mp hr
    obtain ⟨slab, hslab, hdates⟩ := mem_slabs (by decide : 0 < 30) hlow hhigh
    obtain ⟨chunk, hchunk, hin⟩ := exists_mem_chunks (by decide : 0 < 10) hticker
    obtain ⟨hstart, hstop⟩ := slab_bounds hslab
    refine ⟨slab, hslab, List.mem_flatMap.mpr ⟨chunk, hchunk, mem_bucket_query.mpr ?_⟩⟩
    refine ⟨ticker, hin, r, mem_window_rows.mpr ⟨hstored, htrading, hdates⟩, ?_⟩
    rw [hbucket, bucket_rows_slab hstart hstop hdates]

/-! ### The returned bars -/

/-- The bucket of a row becomes a bar: it starts in the session and its last
    row has a close. -/
def has_bar (table : MarketTable) (clock : MarketClock) (ticker : Ticker) (start stop : ℤ)
    (minutes : ℕ) (r : MarketRow) : Prop :=
  clock.trading (bar_start clock minutes (bucket_of clock minutes r.timestamp)) ∧
    ((bucket_rows table clock ticker start stop minutes
      (bucket_of clock minutes r.timestamp)).getLast?.bind MarketRow.close_price).isSome

theorem exists_close_labelled {row : StartedBar} {close_price : ℚ}
    (h : clock.trading row.bar_start) (hclose : row.close_price = some close_price) :
    ∃ bar, close_labelled clock minutes row = some bar := by
  unfold close_labelled
  rw [if_pos h, hclose]
  exact ⟨_, rfl⟩

theorem close_labelled_spec {row : StartedBar} {bar : IntradayBar}
    (h : close_labelled clock minutes row = some bar) :
    clock.trading row.bar_start ∧ row.close_price.isSome ∧ bar.ticker = row.ticker ∧
      bar.timestamp = label_bar_close clock row.bar_start minutes := by
  unfold close_labelled at h
  split at h
  · rename_i htrading
    obtain ⟨close_price, hclose, rfl⟩ := Option.map_eq_some_iff.mp h
    exact ⟨htrading, by rw [hclose]; rfl, rfl, rfl⟩
  · exact absurd h (by simp)

/-- Every bar comes from the bucket of a stored row. -/
theorem row_of_bar {tickers : List Ticker} {start stop : ℤ} {bar : IntradayBar}
    (h : bar ∈ finalize clock minutes (fetched_frame table clock tickers start stop minutes)) :
    bar.ticker ∈ tickers ∧ ∃ r ∈ window_rows table clock bar.ticker start stop,
      has_bar table clock bar.ticker start stop minutes r ∧
        bar.timestamp = row_label clock minutes r.timestamp := by
  unfold finalize last_of_each at h
  have hmem := (keep_last_sublist _ _).subset ((mem_sort_values _).mp h)
  obtain ⟨row, hrow, hbar⟩ := List.mem_filterMap.mp hmem
  obtain ⟨bucket, hbucket, rfl⟩ := List.mem_map.mp hrow
  obtain ⟨htrading, hclose, hticker, hlabel⟩ := close_labelled_spec hbar
  obtain ⟨ticker, hin, r, hr, rfl⟩ := mem_fetched_buckets.mp hbucket
  obtain rfl : bar.ticker = ticker := hticker
  exact ⟨hin, r, hr, ⟨htrading, hclose⟩, hlabel⟩

/-- Every row whose bucket becomes a bar has one. -/
theorem bar_of_row {tickers : List Ticker} {start stop : ℤ} (hticker : ticker ∈ tickers)
    {r : MarketRow} (hr : r ∈ window_rows table clock ticker start stop)
    (h : has_bar table clock ticker start stop minutes r) :
    ∃ bar ∈ finalize clock minutes (fetched_frame table clock tickers start stop minutes),
      bar.ticker = ticker ∧ bar.timestamp = row_label clock minutes r.timestamp := by
  have hrow : started clock minutes (aggregate ticker (bucket_of clock minutes r.timestamp)
      (bucket_rows table clock ticker start stop minutes (bucket_of clock minutes r.timestamp))) ∈
      fetched_frame table clock tickers start stop minutes :=
    List.mem_map_of_mem (mem_fetched_buckets.mpr ⟨ticker, hticker, r, hr, rfl⟩)
  obtain ⟨close_price, hclose⟩ := Option.isSome_iff_exists.mp h.2
  obtain ⟨bar, hbar⟩ : ∃ bar, close_labelled clock minutes
      (started clock minutes (aggregate ticker (bucket_of clock minutes r.timestamp)
        (bucket_rows table clock ticker start stop minutes
          (bucket_of clock minutes r.timestamp)))) = some bar :=
    exists_close_labelled h.1 hclose
  obtain ⟨_, _, hsame, hlabel⟩ := close_labelled_spec hbar
  obtain ⟨kept, hkept, hkey⟩ := exists_mem_keep_last
    (fun bar : IntradayBar => (bar.ticker, bar.timestamp))
    (List.mem_filterMap.mpr ⟨_, hrow, hbar⟩)
  obtain ⟨hkticker, hklabel⟩ := Prod.mk.inj hkey
  exact ⟨kept, (mem_sort_values _).mpr hkept, hkticker.trans hsame, hklabel.trans hlabel⟩

end Fetch

/-! ### Labels and closes -/

/-- A stored row is in the bucket of a bar. -/
def aggregated_into (table : MarketTable) (clock : MarketClock) (start stop : ℤ) (minutes : ℕ)
    (r : MarketRow) (bar : IntradayBar) : Prop :=
  r ∈ window_rows table clock bar.ticker start stop ∧
    row_label clock minutes r.timestamp = bar.timestamp

/-- No bar is labelled before the end of a row in it, or before 16:00 when
    the row ends later. -/
def LabelsKnown (table : MarketTable) (clock : MarketClock) (start stop : ℤ)
    (spacing minutes : ℕ) (bars : List IntradayBar) : Prop :=
  ∀ bar ∈ bars, ∀ r, aggregated_into table clock start stop minutes r bar →
    min (r.timestamp + spacing * minute_us) (clock.session_end r.timestamp) ≤ bar.timestamp

/-- **Labels are known.** The bars of an accepted fetch are all labelled at
    or after the ends of their rows exactly when every stored row that gets
    into a bar ends within its bucket, counted from 09:30, or its bucket
    reaches 16:00. -/
theorem labels_known_iff (table : MarketTable) (clock : MarketClock) {tickers : List Ticker}
    {start stop : ℤ} {spacing minutes : ℕ} (hm : 0 < minutes) {bars : List IntradayBar}
    (hfetch : fetch_db_intraday_bars table clock tickers start stop minutes = .ok bars) :
    LabelsKnown table clock start stop spacing minutes bars ↔
      ∀ ticker ∈ tickers, ∀ r ∈ window_rows table clock ticker start stop,
        has_bar table clock ticker start stop minutes r →
          covered clock spacing minutes r.timestamp := by
  obtain ⟨_, _, hbars⟩ := Fallible.bind_ok hfetch
  obtain rfl := Except.ok.inj hbars
  constructor
  · intro hknown ticker hticker r hr hbar
    obtain ⟨bar, hin, rfl, hlabel⟩ := bar_of_row hticker hr hbar
    rw [← label_known_iff spacing hm (mem_window_rows.mp hr).2.1, ← hlabel]
    exact hknown bar hin r ⟨hr, hlabel.symm⟩
  · intro hcovered bar hin r hr
    obtain ⟨hr, hlabel⟩ := hr
    obtain ⟨hticker, r', hr', hbar, hlabel'⟩ := row_of_bar hin
    have htrading := (mem_window_rows.mp hr).2.1
    have hbucket := same_bucket_of_label hm htrading (mem_window_rows.mp hr').2.1
      (hlabel.trans hlabel')
    rw [← hlabel, label_known_iff spacing hm htrading]
    apply hcovered bar.ticker hticker r hr
    unfold has_bar
    rw [hbucket]
    exact hbar

/-- A winter in New York. -/
def eastern_standard : MarketClock where
  toClock := winter_clock
  midnight d := d * day_us + 5 * hour_us
  wall_midnight d := by
    show d * day_us + 5 * hour_us - 5 * hour_us = d * day_us
    omega
  offsets_near a b := by
    show a - 5 * hour_us - a ≤ b - 5 * hour_us - b + hour_us
    unfold hour_us
    omega

def msft : Ticker := ⟨"MSFT", msft_nonempty⟩

/-- A stored row of a ticker that trades at one price. -/
def flat_row (timestamp : ℤ) : MarketRow := ⟨timestamp, some 1, some 1, some 1, some 1, some 1⟩

/-- Hourly rows of one ticker. -/
def hourly_table (first : ℤ) : MarketTable where
  rows ticker := if ticker = msft then
      [flat_row first, flat_row (first + hour_us), flat_row (first + 2 * hour_us)] else []
  sorted ticker := by
    split
    · simp [flat_row, hour_us]
    · exact List.Pairwise.nil

/-- Hours counted from 09:30 are labelled with their ends. -/
theorem aligned_hours_labelled :
    ∃ bars,
      fetch_db_intraday_bars (hourly_table (14 * hour_us + 30 * minute_us)) eastern_standard
        [msft] 0 0 60 = .ok bars ∧
      LabelsKnown (hourly_table (14 * hour_us + 30 * minute_us)) eastern_standard 0 0 60 60 bars := by
  have hfetch : fetch_db_intraday_bars (hourly_table (14 * hour_us + 30 * minute_us))
      eastern_standard [msft] 0 0 60 = .ok (finalize eastern_standard 60 (fetched_frame
        (hourly_table (14 * hour_us + 30 * minute_us)) eastern_standard [msft] 0 0 60)) := by
    decide +kernel
  refine ⟨_, hfetch, (labels_known_iff _ _ (by decide) hfetch).mpr ?_⟩
  have hcovered : ∀ ticker ∈ [msft], ∀ r ∈ window_rows
      (hourly_table (14 * hour_us + 30 * minute_us)) eastern_standard ticker 0 0,
      covered eastern_standard 60 60 r.timestamp := by
    decide +kernel
  intro ticker hticker r hr _
  exact hcovered ticker hticker r hr

/-- Hours counted from 10:00 have the same spacing and are accepted, and the
    first bar is labelled 10:30. -/
theorem hours_from_ten_labelled_early :
    stored_bar_minutes (hourly_table (15 * hour_us)) eastern_standard [msft] 0 0 = some 60 ∧
    ∃ bars,
      fetch_db_intraday_bars (hourly_table (15 * hour_us)) eastern_standard [msft] 0 0 60 =
        .ok bars ∧
      ¬ LabelsKnown (hourly_table (15 * hour_us)) eastern_standard 0 0 60 60 bars := by
  have hfetch : fetch_db_intraday_bars (hourly_table (15 * hour_us)) eastern_standard
      [msft] 0 0 60 = .ok [⟨msft, 15 * hour_us + 30 * minute_us, some 1, some 1, some 1, 1, some 1⟩,
        ⟨msft, 16 * hour_us + 30 * minute_us, some 1, some 1, some 1, 1, some 1⟩,
        ⟨msft, 17 * hour_us + 30 * minute_us, some 1, some 1, some 1, 1, some 1⟩] := by
    decide +kernel
  refine ⟨by decide +kernel, _, hfetch, ?_⟩
  intro hknown
  have hearly := hknown _ List.mem_cons_self (flat_row (15 * hour_us))
    ⟨by decide +kernel, by decide +kernel⟩
  revert hearly
  decide +kernel

end Intraday
