import BacktestVisualizer.Data.FmpHistory
import BacktestVisualizer.Data.SymbolLookup
import BacktestVisualizer.Framework.LTS
import BacktestVisualizer.Framework.UniqueIndex

/-! # Coverage

  `coverage_for` of `services/market_data.py`: the first and the last bar of
  every ticker, and the window all of them have in common. With the database
  as the source, a ticker without bars is first loaded from FMP over the
  window of the others (`backfill_missing`); `insert_daily_bars` of
  `repositories/market_data.py` adds what the table lacks. The live trading
  system inserts into the same table.

  The database answers; an error of its driver passes all of these functions.
-/

open Batches Fmp History UniqueIndex

namespace Coverage

/-! ### The table -/

/-- The wall clock, with the instant of 16:00 on every date. -/
structure CloseClock extends Clock where
  close_at : ℤ → ℤ
  wall_close : ∀ d, wall (close_at d) = d * day_us + 57600000000

theorem date_close (clock : CloseClock) (d : ℤ) : clock.date (clock.close_at d) = d := by
  unfold Clock.date
  rw [clock.wall_close]
  unfold day_us
  omega

/-- A row of `market_data` with its stored date, which is the one in New York. -/
structure StoredBar (clock : CloseClock) extends MarketRow where
  date : ℤ
  exchange : String
  dated : date = clock.date timestamp

/-- `market_data` under the unique index on (ticker, timestamp). -/
structure PriceTable (clock : CloseClock) where
  bars : Ticker → List (StoredBar clock)
  ordered : ∀ t, Ordered (fun bar : StoredBar clock => bar.timestamp) (bars t)

variable {clock : CloseClock}

/-- `_INSERT_BARS_SQL`, for the rows of one ticker. -/
def PriceTable.insert (table : PriceTable clock) (t : Ticker) (rows : List (StoredBar clock)) :
    PriceTable clock where
  bars := fun t' =>
    if t' = t then insert_all (fun bar => bar.timestamp) (table.bars t) rows else table.bars t'
  ordered := by
    intro t'
    by_cases h : t' = t
    · rw [if_pos h]
      exact ordered_insert_all (table.ordered t) rows
    · rw [if_neg h]
      exact table.ordered t'

/-! ### `repositories/market_data.py` -/

/-- `_COUNT_BARS_SQL`. -/
def count_bars (table : PriceTable clock) (t : Ticker) (first last : ℤ) : ℕ :=
  ((table.bars t).filter (fun bar => first ≤ bar.timestamp ∧ bar.timestamp ≤ last)).length

/-- `insert_daily_bars`, of rows that name one ticker. -/
def insert_daily_bars (table : PriceTable clock) (t : Ticker) (rows : List (StoredBar clock)) :
    PriceTable clock × ℤ :=
  match (rows.map (fun row => row.timestamp)).min?, (rows.map (fun row => row.timestamp)).max? with
  | some first, some last =>
      let before := count_bars table t first last
      let after := count_bars (table.insert t rows) t first last
      (table.insert t rows, after - before)
  | _, _ => (table, 0)

/-- The dates of the earliest and of the latest bar. -/
def span (bars : List (StoredBar clock)) : Option (ℤ × ℤ) :=
  match bars.head?, bars.getLast? with
  | some first, some last => some (first.date, last.date)
  | _, _ => none

/-- First and last bar per ticker, or none. -/
abbrev Spans := List (Ticker × Option (ℤ × ℤ))

/-- `ticker_coverage`. -/
def ticker_coverage (table : PriceTable clock) (tickers : List Ticker) : Spans :=
  (drop_duplicates (fun t => t) tickers).map (fun t => (t, span (table.bars t)))

/-! ### FMP -/

/-- What FMP answers: histories, the tickers it has no history of (404), and
    the pages of its symbol search. -/
structure Market where
  provider : Provider
  outage : Outage
  unknown : Ticker → Bool
  listings : Ticker → Except Failure (List SymbolLookup.Row)

/-- The history requests that fail; a 404 is an `FMPUnavailable`. -/
def Market.refuses (market : Market) : Outage :=
  fun t start stop => if market.unknown t then some .unavailable else market.outage t start stop

/-- `date(1900, 1, 1)`, in days since 1970. -/
def first_day : ℤ := -25567

/-- The first and the last day of a history. -/
def bounds (days : List ℤ) : Option (ℤ × ℤ) :=
  match days.min?, days.max? with
  | some first, some last => some (first, last)
  | _, _ => none

/-- `_fmp_span`. -/
def fmp_span (market : Market) (as_of : ℤ) (t : Ticker) : Except FmpError (Option (ℤ × ℤ)) :=
  if market.unknown t then .ok none
  else do
    let rows ← get_historical_data market.provider market.outage [t.symbol] first_day as_of
    return bounds (rows.map DailyRow.date)

/-- `_fmp_coverage`, up to yesterday. -/
def fmp_coverage (market : Market) (yesterday : ℤ) (tickers : List Ticker) :
    Except FmpError Spans :=
  tickers.mapM (fun t => do
    let span ← fmp_span market yesterday t
    return (t, span))

/-! ### Backfill -/

def DEFAULT_EXCHANGE : String := "NASDAQ"

/-- `_listing_exchange`, on the page of the search: the first exact match that
    names an exchange. -/
def listing_exchange (t : Ticker) (rows : List SymbolLookup.Row) : String :=
  (rows.findSome? (fun row =>
    if Text.strip_upper row.symbol = t.symbol then
      match row.exchange with
      | some (.text code) => if Text.strip code.toList = [] then none else some (Text.strip_upper code)
      | _ => none
    else none)).getD DEFAULT_EXCHANGE

/-- A row of the backfill: labelled 16:00 of its day, with a whole volume. -/
def daily_bar (clock : CloseClock) (exchange : String) (row : DailyRow) : StoredBar clock where
  timestamp := clock.close_at row.date
  open_price := some row.prices.open_price
  high_price := some row.prices.high_price
  low_price := some row.prices.low_price
  close_price := some row.prices.close_price
  volume := some ⌊row.prices.volume⌋
  date := row.date
  exchange := exchange
  dated := (date_close clock row.date).symm

/-- What a turn of the loop of `backfill_missing` asks of FMP: the history of
    the window, and the exchange that lists the ticker. -/
def load (market : Market) (clock : CloseClock) (start stop : ℤ) (t : Ticker) :
    Except FmpError (List (StoredBar clock)) := do
  let frame ← fetch_daily_history market.provider market.refuses [t.symbol] start stop false
  let rows ← (market.listings t).mapError (FmpError.request_failed t)
  return frame.map (daily_bar clock (listing_exchange t rows))

/-- A turn of the loop: the table after it, and the bars written. Only an
    `FMPUnavailable` is caught. -/
def backfill_ticker (market : Market) (start stop : ℤ) (t : Ticker) (table : PriceTable clock) :
    PriceTable clock × Except FmpError ℤ :=
  match load market clock start stop t with
  | .error e => if e.unavailable then (table, .ok 0) else (table, .error e)
  | .ok rows => ((insert_daily_bars table t rows).1, .ok (insert_daily_bars table t rows).2)

/-- `backfill_missing`: the table after it, and the bars written per ticker.
    What was inserted before an error stays. -/
def backfill_missing (market : Market) (start stop : ℤ) :
    List Ticker → PriceTable clock → PriceTable clock × Except FmpError (List (Ticker × ℤ))
  | [], table => (table, .ok [])
  | t :: rest, table =>
      let turn := backfill_ticker market start stop t table
      match turn.2 with
      | .error e => (turn.1, .error e)
      | .ok count =>
          let others := backfill_missing market start stop rest turn.1
          (others.1, others.2.map (fun written => (t, count) :: written))

/-- The spans of the tickers that have bars. -/
def present (spans : Spans) : List (ℤ × ℤ) := spans.filterMap Prod.snd

/-- `_backfill_window`: what the other tickers cover, else the last two years. -/
def backfill_window (spans : Spans) (yesterday : ℤ) : ℤ × ℤ :=
  match ((present spans).map Prod.fst).min?, ((present spans).map Prod.snd).max? with
  | some first, some last => (first, last)
  | _, _ => (yesterday - 730, yesterday)

/-! ### `coverage_for` -/

structure TickerCoverage where
  ticker : Ticker
  first_bar : Option ℤ
  last_bar : Option ℤ

structure CoverageResponse where
  tickers : List TickerCoverage
  start : Option ℤ
  finish : Option ℤ
  missing : List Ticker

/-- The tickers without a span. -/
def missing_of (spans : Spans) : List Ticker :=
  spans.filterMap (fun entry => if entry.2 = none then some entry.1 else none)

/-- The intersection of the spans, when every ticker has one. -/
def common_window (spans : Spans) : Option (ℤ × ℤ) :=
  match ((present spans).map Prod.fst).max?, ((present spans).map Prod.snd).min? with
  | some start, some finish =>
      if missing_of spans = [] ∧ start ≤ finish then some (start, finish) else none
  | _, _ => none

/-- The end of `coverage_for`. -/
def respond (spans : Spans) : CoverageResponse where
  tickers := spans.map (fun entry => ⟨entry.1, entry.2.map Prod.fst, entry.2.map Prod.snd⟩)
  start := (common_window spans).map Prod.fst
  finish := (common_window spans).map Prod.snd
  missing := missing_of spans

/-- `market_data_source()`. -/
inductive PriceSource where
  | fmp
  | database
  deriving DecidableEq, Repr

structure Settings where
  source : PriceSource
  market_data_backfill_enabled : Bool

/-- The part of `coverage_for` that reads the database, and fills it. -/
def database_coverage (settings : Settings) (market : Market) (yesterday : ℤ)
    (tickers : List Ticker) (table : PriceTable clock) : PriceTable clock × Except FmpError Spans :=
  let spans := ticker_coverage table tickers
  let absent := missing_of spans
  if absent ≠ [] ∧ settings.market_data_backfill_enabled then
    let window := backfill_window spans yesterday
    let filled := backfill_missing market window.1 window.2 absent table
    -- the table is read again only if something was written
    (filled.1, filled.2.map (fun written =>
      if written.any (fun entry => entry.2 ≠ 0) then ticker_coverage filled.1 tickers else spans))
  else (table, .ok spans)

/-- `coverage_for`: the table after it, and the response or what it raises. -/
def coverage_for (settings : Settings) (market : Market) (yesterday : ℤ) (tickers : List String)
    (table : PriceTable clock) : PriceTable clock × Except FmpError CoverageResponse :=
  match settings.source with
  | .fmp => (table, (fmp_coverage market yesterday (wanted tickers)).map respond)
  | .database =>
      let result := database_coverage settings market yesterday (wanted tickers) table
      (result.1, result.2.map respond)

/-! ### The window in common -/

/-- A day with a bar on it or before, and one on it or after. -/
def Within (days : List ℤ) (d : ℤ) : Prop := (∃ a ∈ days, a ≤ d) ∧ ∃ b ∈ days, d ≤ b

theorem Within.mono {days days' : List ℤ} (h : days ⊆ days') {d : ℤ} (hd : Within days d) :
    Within days' d := by
  obtain ⟨⟨a, ha, hle⟩, b, hb, hge⟩ := hd
  exact ⟨⟨a, h ha, hle⟩, b, h hb, hge⟩

/-- What a span says of the days of a history. -/
structure Spans.Tells (days : List ℤ) (span : Option (ℤ × ℤ)) : Prop where
  absent : span = none ↔ days = []
  between : ∀ first last, span = some (first, last) →
    first ∈ days ∧ last ∈ days ∧ ∀ d ∈ days, first ≤ d ∧ d ≤ last

theorem Spans.Tells.within {days : List ℤ} {span : Option (ℤ × ℤ)} (h : Spans.Tells days span)
    (d : ℤ) : Within days d ↔ ∃ first last, span = some (first, last) ∧ first ≤ d ∧ d ≤ last := by
  constructor
  · intro hd
    obtain ⟨⟨a, ha, hle⟩, b, hb, hge⟩ := hd
    cases hspan : span with
    | none =>
      rw [h.absent.mp hspan] at ha
      exact absurd ha List.not_mem_nil
    | some bound =>
      obtain ⟨_, _, hall⟩ := h.between bound.1 bound.2 hspan
      have := hall a ha
      have := hall b hb
      exact ⟨bound.1, bound.2, rfl, by omega, by omega⟩
  · intro hd
    obtain ⟨first, last, hspan, hle, hge⟩ := hd
    obtain ⟨hfirst, hlast, _⟩ := h.between first last hspan
    exact ⟨⟨first, hfirst, hle⟩, last, hlast, hge⟩

theorem tells_bounds (days : List ℤ) : Spans.Tells days (bounds days) where
  absent := by
    unfold bounds
    cases days with
    | nil => simp
    | cons a l => simp
  between := by
    intro first last h
    unfold bounds at h
    split at h
    · rename_i lo hi hmin hmax
      obtain ⟨rfl, rfl⟩ := Prod.mk.inj (Option.some.inj h)
      obtain ⟨hfirst, hlow⟩ := List.min?_eq_some_iff.mp hmin
      obtain ⟨hlast, hhigh⟩ := List.max?_eq_some_iff.mp hmax
      exact ⟨hfirst, hlast, fun d hd => ⟨hlow d hd, hhigh d hd⟩⟩
    · exact absurd h (by simp)

/-- The dates go up with the index. -/
theorem dates_ordered {bars : List (StoredBar clock)}
    (h : Ordered (fun bar : StoredBar clock => bar.timestamp) bars) :
    bars.Pairwise (fun a b => a.date ≤ b.date) := by
  apply h.imp
  intro a b hlt
  rw [a.dated, b.dated]
  exact clock.date_mono _ _ hlt.le

theorem tells_span {bars : List (StoredBar clock)}
    (h : Ordered (fun bar : StoredBar clock => bar.timestamp) bars) :
    Spans.Tells (bars.map (fun bar => bar.date)) (span bars) where
  absent := by
    unfold span
    cases bars with
    | nil => simp
    | cons bar bars => simp [List.getLast?_cons]
  between := by
    intro first last hspan
    unfold span at hspan
    split at hspan
    · rename_i low high hhead hlast
      obtain ⟨rfl, rfl⟩ := Prod.mk.inj (Option.some.inj hspan)
      have hdates := dates_ordered h
      refine ⟨List.mem_map_of_mem (List.mem_of_head? hhead),
        List.mem_map_of_mem (List.mem_of_getLast? hlast), ?_⟩
      intro d hd
      obtain ⟨bar, hbar, rfl⟩ := List.mem_map.mp hd
      constructor
      · obtain ⟨rest, rfl⟩ := List.head?_eq_some_iff.mp hhead
        rcases List.mem_cons.mp hbar with rfl | hrest
        · exact le_refl _
        · exact (List.pairwise_cons.mp hdates).1 bar hrest
      · obtain ⟨rest, rfl⟩ := List.getLast?_eq_some_iff.mp hlast
        rcases List.mem_append.mp hbar with hrest | hend
        · exact (List.pairwise_append.mp hdates).2.2 bar hrest high List.mem_cons_self
        · rw [List.mem_singleton.mp hend]
    · exact absurd hspan (by simp)

theorem mem_missing_of {spans : Spans} {t : Ticker} : t ∈ missing_of spans ↔ (t, none) ∈ spans := by
  unfold missing_of
  rw [List.mem_filterMap]
  constructor
  · intro h
    obtain ⟨⟨t', span⟩, hmem, heq⟩ := h
    by_cases hspan : span = none
    · rw [if_pos hspan] at heq
      rw [← Option.some.inj heq, ← hspan]
      exact hmem
    · rw [if_neg hspan] at heq
      exact absurd heq (by simp)
  · intro h
    exact ⟨(t, none), h, if_pos rfl⟩

theorem mem_present {spans : Spans} {bound : ℤ × ℤ} :
    bound ∈ present spans ↔ ∃ entry ∈ spans, entry.2 = some bound := List.mem_filterMap

/-- **The common window** is the intersection of the spans. -/
theorem common_window_iff (spans : Spans) (d : ℤ) :
    (∃ start finish, common_window spans = some (start, finish) ∧ start ≤ d ∧ d ≤ finish) ↔
      spans ≠ [] ∧ ∀ entry ∈ spans, ∃ first last, entry.2 = some (first, last) ∧
        first ≤ d ∧ d ≤ last := by
  constructor
  · intro h
    obtain ⟨start, finish, hwindow, hstart, hfinish⟩ := h
    unfold common_window at hwindow
    split at hwindow
    · rename_i lo hi hmax hmin
      split at hwindow
      · rename_i hall
        obtain ⟨rfl, rfl⟩ := Prod.mk.inj (Option.some.inj hwindow)
        obtain ⟨hmem, hlow⟩ := List.max?_eq_some_iff.mp hmax
        obtain ⟨_, hhigh⟩ := List.min?_eq_some_iff.mp hmin
        constructor
        · rintro rfl
          exact absurd hmem List.not_mem_nil
        · intro entry hentry
          obtain ⟨t, span⟩ := entry
          cases span with
          | none =>
            have hmissing := mem_missing_of.mpr hentry
            rw [hall.1] at hmissing
            exact absurd hmissing List.not_mem_nil
          | some bound =>
            have hbound := mem_present.mpr ⟨_, hentry, rfl⟩
            have := hlow bound.1 (List.mem_map_of_mem hbound)
            have := hhigh bound.2 (List.mem_map_of_mem hbound)
            exact ⟨bound.1, bound.2, rfl, by omega, by omega⟩
      · exact absurd hwindow (by simp)
    · exact absurd hwindow (by simp)
  · intro h
    obtain ⟨hne, hall⟩ := h
    have hmissing : missing_of spans = [] := by
      apply List.eq_nil_iff_forall_not_mem.mpr
      intro t ht
      obtain ⟨first, last, hspan, _⟩ := hall _ (mem_missing_of.mp ht)
      exact absurd hspan (by simp)
    obtain ⟨entry, hentry⟩ := List.exists_mem_of_ne_nil spans hne
    obtain ⟨first, last, hspan, _⟩ := hall entry hentry
    have hbound : (first, last) ∈ present spans := mem_present.mpr ⟨entry, hentry, hspan⟩
    -- every start is on or before the day, every end on or after it
    have hstarts : ∀ a ∈ (present spans).map Prod.fst, a ≤ d := by
      intro a ha
      obtain ⟨bound, hmem, rfl⟩ := List.mem_map.mp ha
      obtain ⟨other, hother, heq⟩ := mem_present.mp hmem
      obtain ⟨f, l, hspan', hle, _⟩ := hall other hother
      rw [hspan', Option.some.injEq] at heq
      rw [← heq]
      exact hle
    have hends : ∀ b ∈ (present spans).map Prod.snd, d ≤ b := by
      intro b hb
      obtain ⟨bound, hmem, rfl⟩ := List.mem_map.mp hb
      obtain ⟨other, hother, heq⟩ := mem_present.mp hmem
      obtain ⟨f, l, hspan', _, hge⟩ := hall other hother
      rw [hspan', Option.some.injEq] at heq
      rw [← heq]
      exact hge
    obtain ⟨start, hmax⟩ := Option.isSome_iff_exists.mp
      (List.isSome_max?_of_mem (List.mem_map_of_mem (f := Prod.fst) hbound))
    obtain ⟨finish, hmin⟩ := Option.isSome_iff_exists.mp
      (List.isSome_min?_of_mem (List.mem_map_of_mem (f := Prod.snd) hbound))
    have hstart := hstarts start (List.max?_eq_some_iff.mp hmax).1
    have hfinish := hends finish (List.min?_eq_some_iff.mp hmin).1
    refine ⟨start, finish, ?_, hstart, hfinish⟩
    unfold common_window
    rw [hmax, hmin]
    exact if_pos ⟨hmissing, by omega⟩

/-! ### What coverage says -/

/-- The days a source has bars of a ticker for. -/
def days_of (settings : Settings) (market : Market) (yesterday : ℤ) (table : PriceTable clock)
    (t : Ticker) : List ℤ :=
  match settings.source with
  | .fmp =>
      if market.unknown t then []
      else (window_rows market.provider first_day yesterday t).map DailyRow.date
  | .database => (table.bars t).map (fun bar => bar.date)

/-- Every ticker has its entry, which tells of its days. -/
structure Faithful (tickers : List Ticker) (days : Ticker → List ℤ) (spans : Spans) : Prop where
  tickers : spans.map Prod.fst = tickers
  tells : ∀ entry ∈ spans, Spans.Tells (days entry.1) entry.2

theorem faithful_ticker_coverage (table : PriceTable clock) {tickers : List Ticker}
    (h : tickers.Nodup) :
    Faithful tickers (fun t => (table.bars t).map (fun bar => bar.date))
      (ticker_coverage table tickers) := by
  have hself : drop_duplicates (fun t => t) tickers = tickers := drop_duplicates_eq_self h
  unfold ticker_coverage
  rw [hself]
  refine ⟨?_, ?_⟩
  · rw [List.map_map]
    exact List.map_id tickers
  · intro entry hentry
    obtain ⟨t, _, rfl⟩ := List.mem_map.mp hentry
    exact tells_span (table.ordered t)

theorem fmp_span_tells {market : Market} {yesterday : ℤ} {tickers : List String} {t : Ticker}
    (ht : t ∈ wanted tickers) {span : Option (ℤ × ℤ)} (h : fmp_span market yesterday t = .ok span) :
    Spans.Tells (if market.unknown t then []
      else (window_rows market.provider first_day yesterday t).map DailyRow.date) span := by
  unfold fmp_span at h
  split at h
  · rename_i hunknown
    obtain rfl := Except.ok.inj h
    rw [if_pos hunknown]
    exact tells_bounds []
  · rename_i hknown
    obtain ⟨rows, hrows, hspan⟩ := Fallible.bind_ok h
    obtain rfl := Except.ok.inj hspan
    obtain ⟨_, _, hread⟩ := get_historical_data_ok_iff.mp (get_historical_data_mono hrows)
    rw [if_neg hknown, hread, wanted_symbol ht, List.flatMap_cons, List.flatMap_nil,
      List.append_nil]
    exact tells_bounds _

theorem faithful_fmp_coverage {market : Market} {yesterday : ℤ} {tickers : List String}
    {spans : Spans} (h : fmp_coverage market yesterday (wanted tickers) = .ok spans) :
    Faithful (wanted tickers) (fun t => if market.unknown t then []
      else (window_rows market.provider first_day yesterday t).map DailyRow.date) spans := by
  have hall := Fallible.forall₂_of_mapM_ok h
  have hentry : ∀ {t : Ticker} {entry : Ticker × Option (ℤ × ℤ)},
      (do let span ← fmp_span market yesterday t
          return (t, span)) = Except.ok entry →
      entry.1 = t ∧ fmp_span market yesterday t = .ok entry.2 := by
    intro t entry heq
    obtain ⟨span, hspan, hpair⟩ := Fallible.bind_ok heq
    obtain rfl := Except.ok.inj hpair
    exact ⟨rfl, hspan⟩
  refine ⟨?_, ?_⟩
  · have hkeys : List.Forall₂ Eq (wanted tickers) (spans.map Prod.fst) :=
      List.forall₂_map_right_iff.mpr (hall.imp (fun _ _ heq => (hentry heq).1.symm))
    rw [List.forall₂_eq_eq_eq] at hkeys
    exact hkeys.symm
  · intro entry hmem
    obtain ⟨t, ht, heq⟩ := Fallible.exists_left hall hmem
    obtain ⟨rfl, hspan⟩ := hentry heq
    exact fmp_span_tells ht hspan

/-- The response to spans that tell of the days. -/
theorem respond_window {tickers : List Ticker} {days : Ticker → List ℤ} {spans : Spans}
    (h : Faithful tickers days spans) (d : ℤ) :
    (∃ start ∈ (respond spans).start, ∃ finish ∈ (respond spans).finish, start ≤ d ∧ d ≤ finish) ↔
      tickers ≠ [] ∧ ∀ t ∈ tickers, Within (days t) d := by
  have hends : (∃ start ∈ (respond spans).start, ∃ finish ∈ (respond spans).finish,
      start ≤ d ∧ d ≤ finish) ↔
      ∃ start finish, common_window spans = some (start, finish) ∧ start ≤ d ∧ d ≤ finish := by
    show (∃ start ∈ (common_window spans).map Prod.fst,
      ∃ finish ∈ (common_window spans).map Prod.snd, start ≤ d ∧ d ≤ finish) ↔ _
    cases common_window spans with
    | none => simp
    | some window => simp [Prod.ext_iff]
  have htickers : tickers ≠ [] ↔ spans ≠ [] := by
    rw [← h.tickers]
    simp
  rw [hends, common_window_iff, htickers]
  constructor
  · intro hwindow
    refine ⟨hwindow.1, ?_⟩
    intro t ht
    rw [← h.tickers] at ht
    obtain ⟨entry, hentry, rfl⟩ := List.mem_map.mp ht
    exact ((h.tells entry hentry).within d).mpr (hwindow.2 entry hentry)
  · intro hwindow
    refine ⟨hwindow.1, ?_⟩
    intro entry hentry
    apply ((h.tells entry hentry).within d).mp
    apply hwindow.2
    rw [← h.tickers]
    exact List.mem_map_of_mem hentry

/-- A window has both ends, in order, or none. -/
theorem respond_ends (spans : Spans) :
    (∃ start finish, (respond spans).start = some start ∧ (respond spans).finish = some finish ∧
      start ≤ finish) ∨ ((respond spans).start = none ∧ (respond spans).finish = none) := by
  show (∃ start finish, (common_window spans).map Prod.fst = some start ∧
      (common_window spans).map Prod.snd = some finish ∧ start ≤ finish) ∨
    ((common_window spans).map Prod.fst = none ∧ (common_window spans).map Prod.snd = none)
  unfold common_window
  split
  · rename_i start finish _ _
    split
    · rename_i hwindow
      exact .inl ⟨start, finish, rfl, rfl, hwindow.2⟩
    · exact .inr ⟨rfl, rfl⟩
  · exact .inr ⟨rfl, rfl⟩

theorem missing_of_faithful {tickers : List Ticker} {days : Ticker → List ℤ} {spans : Spans}
    (h : Faithful tickers days spans) :
    missing_of spans = tickers.filter (fun t => days t = []) := by
  rw [← h.tickers, List.filter_map]
  unfold missing_of
  have htells := h.tells
  clear h
  induction spans with
  | nil => rfl
  | cons entry spans ih =>
    obtain ⟨hentry, hrest⟩ := List.forall_mem_cons.mp htells
    by_cases hspan : entry.2 = none
    · have hdays : days entry.1 = [] := hentry.absent.mp hspan
      rw [List.filterMap_cons, if_pos hspan, List.filter_cons_of_pos (by simpa using hdays),
        List.map_cons, ih hrest]
    · have hdays : days entry.1 ≠ [] := fun hnil => hspan (hentry.absent.mpr hnil)
      rw [List.filterMap_cons, if_neg hspan, List.filter_cons_of_neg (by simpa using hdays),
        ih hrest]

end Coverage
