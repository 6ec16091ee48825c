import BacktestVisualizer.Engine.Values
import BacktestVisualizer.Framework.Batches

/-! # The History Cache

  `engine/core/utils.py` and `engine/data/cache.py`: daily bars are summed up
  from the rows of `market_data` by `_fetch_from_db`, and kept in one file a
  ticker. `fetch_historical_data` asks the database only for what lies before
  the oldest and after the newest cached bar, in windows of 365 days and for
  ten tickers at a time, and saves each answer as soon as it arrives.

  Instants are microseconds in UTC.
-/

open Batches

namespace History

/-! ### The table -/

/-- A row of `market_data` for one ticker; a column may be NULL. -/
structure MarketRow where
  timestamp : ℤ
  open_price : Option ℚ
  high_price : Option ℚ
  low_price : Option ℚ
  close_price : Option ℚ
  volume : Option ℚ
  deriving DecidableEq, Repr

/-- `market_data`. The index on (ticker, timestamp) is unique; a ticker's
    rows are listed in its order. -/
structure MarketTable where
  rows : Ticker → List MarketRow
  sorted : ∀ t, ((rows t).map MarketRow.timestamp).Pairwise (· < ·)

/-- The wall clock of New York. It may be set back, but not to an earlier
    day, and not while the market is open. -/
structure Clock where
  wall : ℤ → ℤ
  date_mono : ∀ a b, a ≤ b → wall a / day_us ≤ wall b / day_us
  session_convex : ∀ a b c, a ≤ b → b ≤ c → wall a / day_us = wall c / day_us →
    34200000000 ≤ wall a % day_us → wall c % day_us ≤ 57600000000 →
    34200000000 ≤ wall b % day_us ∧ wall b % day_us ≤ 57600000000

/-- `DATE(timestamp AT TIME ZONE 'America/New_York')`. -/
def Clock.date (clock : Clock) (t : ℤ) : ℤ := clock.wall t / day_us

/-- `(timestamp AT TIME ZONE 'America/New_York')::time BETWEEN '09:30' AND '16:00'`. -/
def Clock.in_session (clock : Clock) (t : ℤ) : Prop :=
  34200000000 ≤ clock.wall t % day_us ∧ clock.wall t % day_us ≤ 57600000000

instance (clock : Clock) (t : ℤ) : Decidable (clock.in_session t) :=
  inferInstanceAs (Decidable (_ ∧ _))

/-- New York in winter. -/
def winter_clock : Clock where
  wall := fun t => t - 5 * hour_us
  date_mono := by
    intro a b h
    exact Int.ediv_le_ediv (by decide) (by omega)
  session_convex := by
    intro a b c hab hbc hdate hlo hhi
    unfold day_us hour_us at *
    omega

/-! ### `_fetch_from_db` -/

/-- A daily bar. -/
structure DayBar where
  ticker : Ticker
  timestamp : ℤ
  open_price : Option ℚ
  high_price : Option ℚ
  low_price : Option ℚ
  close_price : ℚ
  volume : Option ℚ
  deriving DecidableEq, Repr

/-- `SUM`, which is NULL over no values. -/
def sql_sum (l : List ℚ) : Option ℚ := if l = [] then none else some l.sum

/-- The rows of one ticker and day, as one bar: the last row gives the
    timestamp and the close, the first one the open. A bar without a close
    is dropped. -/
def day_bar (ticker : Ticker) (rows : List MarketRow) : Option DayBar := do
  let last ← rows.getLast?
  let close_price ← last.close_price
  some { ticker := ticker, timestamp := last.timestamp,
         open_price := rows.head?.bind MarketRow.open_price,
         high_price := (rows.filterMap MarketRow.high_price).max?,
         low_price := (rows.filterMap MarketRow.low_price).min?,
         close_price := close_price,
         volume := sql_sum (rows.filterMap MarketRow.volume) }

variable (table : MarketTable) (clock : Clock)

/-- The rows the three queries see for a ticker: `timestamp BETWEEN` the ends
    of the window, in the session. -/
def session_rows (ticker : Ticker) (w : Window) : List MarketRow :=
  (table.rows ticker).filter
    (fun r => w.start ≤ r.timestamp ∧ r.timestamp ≤ w.finish ∧ clock.in_session r.timestamp)

/-- Those of one day. -/
def rows_of_day (ticker : Ticker) (w : Window) (date : ℤ) : List MarketRow :=
  (session_rows table clock ticker w).filter (fun r => clock.date r.timestamp = date)

/-- The days of a window, in order. -/
def trade_dates (ticker : Ticker) (w : Window) : List ℤ :=
  ((session_rows table clock ticker w).map (fun r => clock.date r.timestamp)).dedup

/-- The daily bars of one ticker. -/
def ticker_bars (ticker : Ticker) (w : Window) : List DayBar :=
  (trade_dates table clock ticker w).filterMap
    (fun date => day_bar ticker (rows_of_day table clock ticker w date))

/-- `_fetch_from_db`, when the query succeeds. -/
def fetch_from_db (tickers : List Ticker) (w : Window) : List DayBar :=
  tickers.dedup.flatMap (fun ticker => ticker_bars table clock ticker w)

/-! ### The cache files -/

/-- `_path`. -/
def path (ticker : Ticker) : String :=
  ticker.symbol.map (fun c => if c = '^' ∨ c = '/' then '_' else c)

/-- The files under `cache_dir()`; one that does not exist has no rows. -/
abbrev Files := String → List DayBar

def set_file (files : Files) (p : String) (df : List DayBar) : Files :=
  fun q => if q = p then df else files q

/-- The frames in memory. -/
abbrev Caches := Ticker → List DayBar

def set_cache (caches : Caches) (t : Ticker) (df : List DayBar) : Caches :=
  fun u => if u = t then df else caches u

@[simp] theorem set_cache_self (caches : Caches) (t : Ticker) (df : List DayBar) :
    set_cache caches t df t = df := by
  simp [set_cache]

@[simp] theorem set_cache_ne (caches : Caches) {t u : Ticker} (df : List DayBar) (h : u ≠ t) :
    set_cache caches t df u = caches u := by
  simp [set_cache, h]

/-- `sort_values("timestamp")`. -/
def sort_values (df : List DayBar) : List DayBar :=
  df.insertionSort (fun a b => a.timestamp ≤ b.timestamp)

/-- `load`. -/
def load (files : Files) (ticker : Ticker) : List DayBar := files (path ticker)

/-- `save`. -/
def save (files : Files) (ticker : Ticker) (df : List DayBar) : Files :=
  if df = [] then files else set_file files (path ticker) (sort_values df)

/-- The merged frame of `merge_and_save`: old rows win over new ones with
    their timestamp. -/
def merge (cached new : List DayBar) : List DayBar :=
  if new = [] then cached
  else sort_values (drop_duplicates DayBar.timestamp (cached ++ new))

/-- `merge_and_save`. -/
def merge_and_save (files : Files) (ticker : Ticker) (cached new : List DayBar) :
    List DayBar × Files :=
  if new = [] then (cached, files)
  else (merge cached new, save files ticker (merge cached new))

/-- The oldest and the newest timestamp of a frame. -/
def span (df : List DayBar) : Option (ℤ × ℤ) := do
  let first ← (df.map DayBar.timestamp).min?
  let last ← (df.map DayBar.timestamp).max?
  some (first, last)

/-- `missing_ranges`: what lies before the oldest and after the newest cached
    bar. -/
def missing_ranges (cached : List DayBar) (start finish : ℤ) : List Window :=
  match span cached with
  | none => [{ start := start, finish := finish }]
  | some (cached_min, cached_max) =>
      (if start < cached_min then [{ start := start, finish := cached_min }] else []) ++
        (if cached_max < finish then [{ start := cached_max, finish := finish }] else [])

/-! ### `fetch_historical_data` -/

def ticker_chunk : ℕ := 10

/-- `DATE_SLAB_DAYS` days. -/
def slab_td : ℤ := 365 * day_us

/-- The windows of the `while` loop over a gap. Each is at least a
    microsecond long, so there are no more than the gap has microseconds. -/
def slabs (gap : Window) : List Window :=
  windows slab_td (gap.finish - gap.start).toNat gap.start gap.finish

/-- `range_to_tickers[gap].append(ticker)`. -/
def add_range (ranges : List (Window × List Ticker)) (gap : Window) (ticker : Ticker) :
    List (Window × List Ticker) :=
  if gap ∈ ranges.map Prod.fst then
    ranges.map (fun r => if r.1 = gap then (r.1, r.2 ++ [ticker]) else r)
  else ranges ++ [(gap, [ticker])]

/-- `range_to_tickers`, keys in order of first use. -/
def range_to_tickers (caches : Caches) (tickers : List Ticker) (start finish : ℤ) :
    List (Window × List Ticker) :=
  (tickers.flatMap (fun t => (missing_ranges (caches t) start finish).map (fun g => (g, t)))).foldl
    (fun ranges x => add_range ranges x.1 x.2) []

/-- One round of the innermost loop. -/
structure Query where
  gap : Window
  slab : Window
  chunk : List Ticker
  deriving DecidableEq, Repr

/-- The rounds for one gap. -/
def gap_queries (r : Window × List Ticker) : List Query :=
  (slabs r.1).flatMap (fun slab =>
    (chunks ticker_chunk r.2).map (fun chunk => { gap := r.1, slab := slab, chunk := chunk }))

/-- All rounds of a call. They are settled before the first query is sent. -/
def queries (caches : Caches) (tickers : List Ticker) (start finish : ℤ) : List Query :=
  (range_to_tickers caches tickers start finish).flatMap gap_queries

/-- The frames in memory and the files. -/
structure Store where
  caches : Caches
  files : Files

/-- Merge the rows fetched for one ticker. -/
def merge_ticker (fetched : List DayBar) (s : Store) (ticker : Ticker) : Store :=
  let ticker_rows := fetched.filter (fun r => r.ticker = ticker)
  let (df, files) := merge_and_save s.files ticker (s.caches ticker) ticker_rows
  { caches := set_cache s.caches ticker df, files := files }

/-- A round whose query succeeds. -/
def run_query (s : Store) (q : Query) : Store :=
  let fetched := fetch_from_db table clock q.chunk q.slab
  if fetched = [] then s else q.chunk.foldl (merge_ticker fetched) s

def run_queries (s : Store) (qs : List Query) : Store := qs.foldl (run_query table clock) s

/-- A call: `fails_at` is the round whose query raises
    `MarketDataUnavailable`, if one does. -/
structure Call where
  tickers : List Ticker
  start_date : ℤ
  end_date : ℤ
  fails_at : Option ℕ

/-- The instants a call asks for: the end covers 23:59:59 of the last day. -/
def Call.window (c : Call) : Window where
  start := c.start_date
  finish := c.end_date + 86399000000

/-- The frames a call starts from. -/
def Call.store (files : Files) : Store where
  caches := load files
  files := files

/-- The rounds of a call. -/
def Call.plan (c : Call) (files : Files) : List Query :=
  queries (load files) c.tickers c.window.start c.window.finish

/-- Whether the query of some round raises. -/
def Call.fails (c : Call) (files : Files) : Bool :=
  match c.fails_at with
  | none => false
  | some k => k < (c.plan files).length

/-- The rounds that go through. -/
def Call.done (c : Call) (files : Files) : List Query :=
  match c.fails_at with
  | none => c.plan files
  | some k => (c.plan files).take k

/-- The rows of a frame inside a window. -/
def splice (df : List DayBar) (w : Window) : List DayBar :=
  df.filter (fun r => w.start ≤ r.timestamp ∧ r.timestamp ≤ w.finish)

/-- `fetch_historical_data`: the frame it returns, or `none` if it raises,
    and the files it leaves. -/
def fetch_historical_data (files : Files) (c : Call) : Option (List DayBar) × Files :=
  if c.tickers = [] then (some [], files)
  else
    let s := run_queries table clock (Call.store files) (c.done files)
    if c.fails files then (none, s.files)
    else (some (sort_values (c.tickers.flatMap (fun t => splice (s.caches t) c.window))), s.files)

/-- The files after a sequence of calls. -/
def files_after (files : Files) (calls : List Call) : Files :=
  calls.foldl (fun files c => (fetch_historical_data table clock files c).2) files

theorem files_after_snoc (files : Files) (calls : List Call) (c : Call) :
    files_after table clock files (calls ++ [c]) =
      (fetch_historical_data table clock (files_after table clock files calls) c).2 := by
  simp [files_after, List.foldl_append]

/-- The empty cache. -/
def no_files : Files := fun _ => []

end History
