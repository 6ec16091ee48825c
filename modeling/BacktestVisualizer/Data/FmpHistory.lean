import BacktestVisualizer.Data.IntradayBars
import BacktestVisualizer.Framework.Text
import BacktestVisualizer.Framework.WindowCache

/-! # The FMP History of a Run

  `engine/data/fmp.py` and the FMP source of `engine/data/intraday.py`: a run
  keeps what it has downloaded for a ticker with the dates it asked for, asks
  for the hull when a window is wider, and cuts the window out of the answer.
  `adapter_is_transparent` compares its answers with those of a direct
  download.

  A daily bar is labelled 16:00 of its date, which orders and identifies the
  rows as the date does.
-/

open Batches DataFrame Fallible WindowCache
open Intraday (MarketClock StartedBar IntradayBar close_labelled finalize last_of_each bar_order slabs)

namespace Fmp

/-! ### The provider -/

/-- The prices of a raw row; one that is missing or that `float` refuses is
    `none`. -/
structure RawPrices where
  open_price : Option PyFloat
  high_price : Option PyFloat
  low_price : Option PyFloat
  close_price : Option PyFloat
  volume : Option PyFloat
  deriving DecidableEq, Repr

/-- A raw daily row. -/
structure RawDaily where
  date : ℤ
  symbol : Option String
  prices : RawPrices
  deriving DecidableEq, Repr

/-- A raw intraday row, labelled with its start in New York wall time. -/
structure RawIntraday where
  wall : ℤ
  prices : RawPrices
  deriving DecidableEq, Repr

/-- The bar sizes FMP serves. -/
inductive FmpInterval where
  | min1
  | min5
  | min15
  | min30
  | hour1
  deriving DecidableEq, Repr

def FmpInterval.minutes : FmpInterval → ℕ
  | .min1 => 1
  | .min5 => 5
  | .min15 => 15
  | .min30 => 30
  | .hour1 => 60

/-- `_FMP_CHUNK_DAYS`. -/
def FmpInterval.chunk_days : FmpInterval → ℕ
  | .min1 => 3
  | .min5 => 7
  | .min15 => 30
  | .min30 => 21
  | .hour1 => 60

/-- The fixed bars of the provider, in the order it lists them. -/
structure Provider where
  daily : Ticker → List RawDaily
  intraday : Ticker → FmpInterval → List RawIntraday

/-- How a request fails: as `FMPUnavailable`, or with an error that passes
    `_request_list`, such as the one of a body that is cut short. -/
inductive Failure where
  | unavailable
  | uncaught
  deriving DecidableEq, Repr

/-- Which requests fail, and how. -/
abbrev Outage := Ticker → ℤ → ℤ → Option Failure

def answering : Outage := fun _ _ _ => none

/-- What the engine's calls raise. -/
inductive FmpError where
  | request_failed (ticker : Ticker) (failure : Failure)
  | invalid_daily_bar (ticker : Ticker)
  | invalid_intraday_bar (ticker : Ticker)
  | start_after_end
  | no_market_data (tickers : List Ticker) (start stop : ℤ)
  deriving DecidableEq, Repr

/-- The errors that are `FMPUnavailable`. -/
def FmpError.unavailable : FmpError → Bool
  | .request_failed _ .unavailable => true
  | .request_failed _ .uncaught => false
  | .invalid_daily_bar _ => true
  | .invalid_intraday_bar _ => true
  | .start_after_end => false
  | .no_market_data _ _ _ => false

/-! ### Reading rows -/

/-- The prices of a valid row. -/
structure Prices where
  open_price : ℚ
  high_price : ℚ
  low_price : ℚ
  close_price : ℚ
  volume : ℚ
  deriving DecidableEq, Repr

/-- A finite price above 0. -/
def read_price : Option PyFloat → Option ℚ
  | some (.fin p) => if 0 < p then some p else none
  | _ => none

/-- A finite volume of at least 0. -/
def read_volume : Option PyFloat → Option ℚ
  | some (.fin v) => if 0 ≤ v then some v else none
  | _ => none

def read_prices (raw : RawPrices) : Option Prices := do
  let open_price ← read_price raw.open_price
  let high_price ← read_price raw.high_price
  let low_price ← read_price raw.low_price
  let close_price ← read_price raw.close_price
  let volume ← read_volume raw.volume
  return ⟨open_price, high_price, low_price, close_price, volume⟩

/-- A daily row of the engine. -/
structure DailyRow where
  ticker : Ticker
  date : ℤ
  prices : Prices
  deriving DecidableEq, Repr

/-- A daily row whose symbol, when it has one, is the ticker's. -/
def read_daily (ticker : Ticker) (raw : RawDaily) : Option DailyRow :=
  if raw.symbol.getD ticker.symbol = ticker.symbol then
    (read_prices raw.prices).map (fun prices => ⟨ticker, raw.date, prices⟩)
  else none

/-- Every row of a payload has to be valid. -/
def read_all {α β : Type} (read : α → Option β) (error : FmpError) (payload : List α) :
    Except FmpError (List β) :=
  payload.mapM (fun raw =>
    match read raw with
    | none => .error error
    | some row => .ok row)

/-! ### Tickers -/

/-- A symbol that is not blank. -/
def as_ticker (symbol : String) : Option Ticker :=
  if h : symbol ≠ "" then some ⟨symbol, h⟩ else none

/-- `list(dict.fromkeys(t.strip().upper() for t in tickers if t.strip()))`. -/
def wanted (tickers : List String) : List Ticker :=
  drop_duplicates (fun t => t) ((tickers.map Text.strip_upper).filterMap as_ticker)

/-! ### Daily history -/

variable (provider : Provider) (outage : Outage)

/-- `_request_list`, on the rows the provider has for the window. -/
def request_list {α : Type} (ticker : Ticker) (start stop : ℤ) (payload : List α) :
    Except FmpError (List α) :=
  match outage ticker start stop with
  | some failure => .error (.request_failed ticker failure)
  | none => .ok payload

/-- The rows of one ticker in `get_historical_data`. -/
def ticker_history (start stop : ℤ) (ticker : Ticker) : Except FmpError (List DailyRow) := do
  let payload ← request_list outage ticker start stop
    ((provider.daily ticker).filter (fun raw => start ≤ raw.date ∧ raw.date ≤ stop))
  let rows ← read_all (read_daily ticker) (.invalid_daily_bar ticker) payload
  return rows.filter (fun row => start ≤ row.date ∧ row.date ≤ stop)

/-- `FMPMarketData.get_historical_data`. -/
def get_historical_data (tickers : List String) (start stop : ℤ) :
    Except FmpError (List DailyRow) := do
  if stop < start then throw .start_after_end
  let parts ← (wanted tickers).mapM (ticker_history provider outage start stop)
  return parts.flatten

/-- `sort_values(["timestamp", "ticker"])`. -/
def row_order (row : DailyRow) : ℤ ×ₗ String := toLex (row.date, row.ticker.symbol)

/-- `drop_duplicates(["ticker", "timestamp"])`. -/
def row_key (row : DailyRow) : Ticker × ℤ := (row.ticker, row.date)

/-- `fetch_daily_history`. -/
def fetch_daily_history (tickers : List String) (start stop : ℤ) (require_all : Bool) :
    Except FmpError (List DailyRow) := do
  let rows ← get_historical_data provider outage ((wanted tickers).map Ticker.symbol) start stop
  let missing := (wanted tickers).filter (fun t => ∀ row ∈ rows, row.ticker ≠ t)
  if missing ≠ [] ∧ require_all then throw (.no_market_data missing start stop)
  return sort_values row_order (drop_duplicates row_key rows)

/-! ### Intraday history -/

/-- The market clock, with the instant of a wall clock reading when there is
    exactly one. -/
structure LocalClock extends MarketClock where
  localize : ℤ → Option ℤ
  wall_localize : ∀ w t, localize w = some t → wall t = w

variable (clock : LocalClock)

/-- A row of `parse_fmp_intraday_rows`. -/
def read_intraday (ticker : Ticker) (raw : RawIntraday) : Option StartedBar := do
  let prices ← read_prices raw.prices
  let bar_start ← clock.localize raw.wall
  return { ticker := ticker, bar_start := bar_start, open_price := some prices.open_price,
           high_price := some prices.high_price, low_price := some prices.low_price,
           close_price := some prices.close_price, volume := some prices.volume }

/-- One download of `fetch_fmp_intraday_bars`. -/
def fetch_chunk (interval : FmpInterval) (job : Ticker × ℤ × ℤ) :
    Except FmpError (List IntradayBar) := do
  let (ticker, start, stop) := job
  let payload ← request_list outage ticker start stop ((provider.intraday ticker interval).filter
    (fun raw => start ≤ raw.wall / day_us ∧ raw.wall / day_us ≤ stop))
  let records ← read_all (read_intraday clock ticker) (.invalid_intraday_bar ticker) payload
  return finalize clock.toMarketClock interval.minutes records

/-- The date of a bar's label. -/
def bar_date (bar : IntradayBar) : ℤ := clock.date bar.timestamp

/-- The downloads of a window. -/
def chunk_jobs (tickers : List Ticker) (start stop : ℤ) (interval : FmpInterval) :
    List (Ticker × ℤ × ℤ) :=
  tickers.flatMap (fun ticker =>
    (slabs interval.chunk_days start stop).map (fun chunk => (ticker, chunk)))

/-- `fetch_fmp_intraday_bars`. -/
def fetch_fmp_intraday_bars (tickers : List Ticker) (start stop : ℤ) (interval : FmpInterval) :
    Except FmpError (List IntradayBar) := do
  let parts ← (chunk_jobs tickers start stop interval).mapM
    (fetch_chunk provider outage clock interval)
  return last_of_each (parts.flatten.filter
    (fun bar => start ≤ bar_date clock bar ∧ bar_date clock bar ≤ stop))

/-! ### `FMPDataAdapter` -/

/-- What a run remembers. -/
structure Adapter where
  history : Store Ticker (List DailyRow)
  intraday : Store (Ticker × FmpInterval) (List IntradayBar)

/-- `__init__`, and the state after `close`. -/
def Adapter.empty : Adapter where
  history := fun _ => none
  intraday := fun _ => none

/-- The frame remembered for a key. -/
def remembered {κ F : Type} (store : Store κ (List F)) (k : κ) : List F :=
  ((store k).map Entry.frame).getD []

/-- The requests of a daily call: each ticker's window is downloaded once. -/
def daily_requests (adapter : Adapter) (tickers : List String) (start stop : ℤ) :
    List (Request Ticker) :=
  needed adapter.history (wanted tickers) start stop

/-- The downloads of a daily call. -/
def daily_round (adapter : Adapter) (tickers : List String) (start stop : ℤ) :
    Store Ticker (List DailyRow) × Except FmpError Unit :=
  fill (fun ticker first last =>
      fetch_daily_history provider outage [ticker.symbol] first last false)
    adapter.history (daily_requests adapter tickers start stop)

/-- `get_daily_history`. -/
def get_daily_history (adapter : Adapter) (tickers : List String) (start stop : ℤ)
    (require_all : Bool) : Adapter × Except FmpError (List DailyRow) :=
  let round := daily_round provider outage adapter tickers start stop
  let adapter' := { adapter with history := round.1 }
  match round.2 with
  | .error e => (adapter', .error e)
  | .ok () =>
      let slice := fun ticker => (remembered round.1 ticker).filter
        (fun row : DailyRow => start ≤ row.date ∧ row.date ≤ stop)
      let missing := (wanted tickers).filter (fun ticker => slice ticker = [])
      if missing ≠ [] ∧ require_all then (adapter', .error (.no_market_data missing start stop))
      else (adapter', .ok (sort_values row_order ((wanted tickers).flatMap slice)))

/-- The requests of an intraday call; each downloads the chunks of its window. -/
def intraday_requests (adapter : Adapter) (tickers : List String) (start stop : ℤ)
    (interval : FmpInterval) : List (Request (Ticker × FmpInterval)) :=
  needed adapter.intraday ((wanted tickers).map (fun ticker => (ticker, interval))) start stop

/-- The downloads of an intraday call. -/
def intraday_round (adapter : Adapter) (tickers : List String) (start stop : ℤ)
    (interval : FmpInterval) :
    Store (Ticker × FmpInterval) (List IntradayBar) × Except FmpError Unit :=
  fill (fun (key : Ticker × FmpInterval) first last =>
      fetch_fmp_intraday_bars provider outage clock [key.1] first last key.2)
    adapter.intraday (intraday_requests adapter tickers start stop interval)

/-- `get_intraday_history`. -/
def get_intraday_history (adapter : Adapter) (tickers : List String) (start stop : ℤ)
    (interval : FmpInterval) : Adapter × Except FmpError (List IntradayBar) :=
  let round := intraday_round provider outage clock adapter tickers start stop interval
  let adapter' := { adapter with intraday := round.1 }
  match round.2 with
  | .error e => (adapter', .error e)
  | .ok () =>
      let slice := fun ticker => (remembered round.1 (ticker, interval)).filter
        (fun bar => start ≤ bar_date clock bar ∧ bar_date clock bar ≤ stop)
      (adapter', .ok (sort_values bar_order ((wanted tickers).flatMap slice)))

/-! ### Runs -/

/-- A call on the adapter of a run, with the requests that fail in it. -/
inductive Call where
  | daily (tickers : List String) (start stop : ℤ) (require_all : Bool) (outage : Outage)
  | intraday (tickers : List String) (start stop : ℤ) (interval : FmpInterval) (outage : Outage)
  | close

def call (adapter : Adapter) : Call → Adapter
  | .daily tickers start stop require_all outage =>
      (get_daily_history provider outage adapter tickers start stop require_all).1
  | .intraday tickers start stop interval outage =>
      (get_intraday_history provider outage clock adapter tickers start stop interval).1
  | .close => .empty

/-- The adapter after a sequence of calls. -/
def run_calls (calls : List Call) : Adapter := calls.foldl (call provider clock) .empty

/-! ### Normalized tickers -/

theorem wanted_nodup (tickers : List String) : (wanted tickers).Nodup :=
  drop_duplicates_nodup _

theorem as_ticker_symbol (t : Ticker) : as_ticker t.symbol = some t := dif_pos t.nonempty

theorem symbol_of_as_ticker {symbol : String} {t : Ticker} (h : as_ticker symbol = some t) :
    t.symbol = symbol := by
  unfold as_ticker at h
  split at h
  · rw [← Option.some.inj h]
  · exact absurd h (by simp)

theorem strip_upper_of_wanted {tickers : List String} {t : Ticker} (ht : t ∈ wanted tickers) :
    Text.strip_upper t.symbol = t.symbol := by
  obtain ⟨symbol, hsymbol, hsome⟩ := List.mem_filterMap.mp (mem_of_mem_drop_duplicates ht)
  obtain ⟨raw, _, rfl⟩ := List.mem_map.mp hsymbol
  rw [symbol_of_as_ticker hsome]
  exact Text.strip_upper_strip_upper raw

/-- Normalizing again changes nothing. -/
theorem wanted_of_normal {l : List Ticker} (hl : l.Nodup)
    (h : ∀ t ∈ l, Text.strip_upper t.symbol = t.symbol) : wanted (l.map Ticker.symbol) = l := by
  have hsame : ((l.map Ticker.symbol).map Text.strip_upper).filterMap as_ticker = l := by
    rw [List.map_map, List.filterMap_map]
    clear hl
    induction l with
    | nil => rfl
    | cons t l ih =>
      have ht : (as_ticker ∘ Text.strip_upper ∘ Ticker.symbol) t = some t := by
        rw [Function.comp_apply, Function.comp_apply, h t List.mem_cons_self, as_ticker_symbol]
      rw [List.filterMap_cons_some ht, ih (fun t' ht' => h t' (List.mem_cons_of_mem _ ht'))]
  unfold wanted
  rw [hsame]
  exact drop_duplicates_eq_self hl

theorem wanted_symbols (tickers : List String) :
    wanted ((wanted tickers).map Ticker.symbol) = wanted tickers :=
  wanted_of_normal (wanted_nodup tickers) (fun _ ht => strip_upper_of_wanted ht)

theorem wanted_symbol {tickers : List String} {t : Ticker} (ht : t ∈ wanted tickers) :
    wanted [t.symbol] = [t] := by
  have hnormal : ∀ t' ∈ [t], Text.strip_upper t'.symbol = t'.symbol := by
    intro t' ht'
    rw [List.mem_singleton.mp ht']
    exact strip_upper_of_wanted ht
  have hone := wanted_of_normal (List.nodup_singleton t) hnormal
  rwa [List.map_singleton] at hone

/-! ### What a download answers -/

theorem read_all_ok_iff {α β : Type} {read : α → Option β} {error : FmpError} {payload : List α}
    {rows : List β} : read_all read error payload = .ok rows ↔
      (∀ raw ∈ payload, (read raw).isSome) ∧ rows = payload.filterMap read := by
  induction payload generalizing rows with
  | nil =>
    constructor
    · intro h
      exact ⟨by simp, (Except.ok.inj h).symm⟩
    · rintro ⟨_, rfl⟩
      rfl
  | cons raw payload ih =>
    -- one row is read before the rest
    have hstep : read_all read error (raw :: payload) =
        (match read raw with
          | none => .error error
          | some row => .ok row) >>= fun row =>
        read_all read error payload >>= fun rest => .ok (row :: rest) := List.mapM_cons
    rw [hstep, List.forall_mem_cons]
    cases hraw : read raw with
    | none => simp [bind, Except.bind]
    | some row =>
      rw [List.filterMap_cons_some hraw]
      show (read_all read error payload >>= fun rest => .ok (row :: rest)) = .ok rows ↔ _
      constructor
      · intro h
        obtain ⟨rest, hrest, hrows⟩ := bind_ok h
        obtain ⟨hread, rfl⟩ := ih.mp hrest
        exact ⟨⟨rfl, hread⟩, (Except.ok.inj hrows).symm⟩
      · rintro ⟨⟨_, hread⟩, rfl⟩
        rw [ih.mpr ⟨hread, rfl⟩]
        rfl

/-- The rows of a ticker in a window can be read. -/
def readable_days (start stop : ℤ) (t : Ticker) : Prop :=
  ∀ raw ∈ provider.daily t, start ≤ raw.date → raw.date ≤ stop → (read_daily t raw).isSome

/-- The rows of a ticker in a window. -/
def window_rows (start stop : ℤ) (t : Ticker) : List DailyRow :=
  ((provider.daily t).filter (fun raw => start ≤ raw.date ∧ raw.date ≤ stop)).filterMap
    (read_daily t)

variable {provider outage}

theorem read_daily_spec {t : Ticker} {raw : RawDaily} {row : DailyRow}
    (h : read_daily t raw = some row) : row.ticker = t ∧ row.date = raw.date := by
  unfold read_daily at h
  split at h
  · obtain ⟨prices, _, rfl⟩ := Option.map_eq_some_iff.mp h
    exact ⟨rfl, rfl⟩
  · exact absurd h (by simp)

theorem mem_window_rows {start stop : ℤ} {t : Ticker} {row : DailyRow}
    (h : row ∈ window_rows provider start stop t) :
    row.ticker = t ∧ start ≤ row.date ∧ row.date ≤ stop := by
  obtain ⟨raw, hraw, hread⟩ := List.mem_filterMap.mp h
  obtain ⟨hticker, hdate⟩ := read_daily_spec hread
  rw [hdate]
  exact ⟨hticker, by simpa using (List.mem_filter.mp hraw).2⟩

/-- A part of a window. -/
theorem filter_window_rows {first last start stop : ℤ} (hstart : first ≤ start)
    (hstop : stop ≤ last) (t : Ticker) :
    (window_rows provider first last t).filter (fun row => start ≤ row.date ∧ row.date ≤ stop) =
      window_rows provider start stop t := by
  unfold window_rows
  rw [filter_filterMap_comm (p := fun raw : RawDaily => decide (start ≤ raw.date ∧ raw.date ≤ stop)),
    List.filter_filter]
  · congr 1
    apply List.filter_congr
    intro raw _
    rw [Bool.eq_iff_iff]
    simp only [Bool.and_eq_true, decide_eq_true_eq]
    omega
  · intro raw row hread
    rw [(read_daily_spec hread).2]

/-- A request that is answered gives what there is. -/
theorem request_list_ok {α : Type} {t : Ticker} {start stop : ℤ} {payload rows : List α}
    (h : request_list outage t start stop payload = .ok rows) : rows = payload := by
  unfold request_list at h
  split at h
  · exact absurd h (by simp)
  · exact (Except.ok.inj h).symm

theorem ticker_history_ok_iff {start stop : ℤ} {t : Ticker} {rows : List DailyRow} :
    ticker_history provider answering start stop t = .ok rows ↔
      readable_days provider start stop t ∧ rows = window_rows provider start stop t := by
  have hreadable : (∀ raw ∈ (provider.daily t).filter
      (fun raw => start ≤ raw.date ∧ raw.date ≤ stop), (read_daily t raw).isSome) ↔
      readable_days provider start stop t := by
    simp [readable_days, List.mem_filter]
  have hall : (window_rows provider start stop t).filter
      (fun row => start ≤ row.date ∧ row.date ≤ stop) = window_rows provider start stop t :=
    filter_window_rows (le_refl _) (le_refl _) t
  constructor
  · intro h
    obtain ⟨payload, hrequest, hrest⟩ := bind_ok h
    obtain rfl := request_list_ok hrequest
    obtain ⟨payload_rows, hread, hrows⟩ := bind_ok hrest
    obtain ⟨hvalid, rfl⟩ := read_all_ok_iff.mp hread
    refine ⟨hreadable.mp hvalid, ?_⟩
    rw [← hall]
    exact (Except.ok.inj hrows).symm
  · rintro ⟨hvalid, rfl⟩
    show (read_all _ _ _ >>= _) = _
    rw [read_all_ok_iff.mpr ⟨hreadable.mpr hvalid, rfl⟩]
    show Except.ok ((window_rows provider start stop t).filter _) = _
    rw [hall]

/-- What a download answers, it answers without the outage. -/
theorem ticker_history_mono {start stop : ℤ} {t : Ticker} {rows : List DailyRow}
    (h : ticker_history provider outage start stop t = .ok rows) :
    ticker_history provider answering start stop t = .ok rows := by
  obtain ⟨payload, hrequest, hrest⟩ := bind_ok h
  rw [request_list_ok hrequest] at hrest
  exact hrest

theorem get_historical_data_of_lt {tickers : List String} {start stop : ℤ} (h : stop < start) :
    get_historical_data provider outage tickers start stop = .error .start_after_end := by
  unfold get_historical_data
  rw [if_pos h]
  rfl

theorem get_historical_data_of_le {tickers : List String} {start stop : ℤ} (h : start ≤ stop) :
    get_historical_data provider outage tickers start stop =
      (wanted tickers).mapM (ticker_history provider outage start stop) >>=
        fun parts => .ok parts.flatten := by
  unfold get_historical_data
  rw [if_neg (not_lt.mpr h)]
  rfl

/-- `FMPMarketData.get_historical_data` without an outage. -/
theorem get_historical_data_ok_iff {tickers : List String} {start stop : ℤ}
    {rows : List DailyRow} :
    get_historical_data provider answering tickers start stop = .ok rows ↔
      start ≤ stop ∧ (∀ t ∈ wanted tickers, readable_days provider start stop t) ∧
      rows = (wanted tickers).flatMap (window_rows provider start stop) := by
  rcases lt_or_ge stop start with hlt | hle
  · rw [get_historical_data_of_lt hlt]
    constructor
    · intro h
      exact absurd h (by simp)
    · rintro ⟨hle, _⟩
      omega
  · rw [get_historical_data_of_le hle]
    constructor
    · intro h
      obtain ⟨parts, hparts, hrows⟩ := bind_ok h
      have hmap := eq_map_of_mapM_ok hparts (fun t _ rows h => (ticker_history_ok_iff.mp h).2)
      refine ⟨hle, ?_, ?_⟩
      · intro t ht
        obtain ⟨rows, hrows⟩ := ok_of_mapM_ok hparts t ht
        exact (ticker_history_ok_iff.mp hrows).1
      · rw [List.flatMap_def, ← hmap]
        exact (Except.ok.inj hrows).symm
    · rintro ⟨_, hread, rfl⟩
      rw [mapM_ok (g := window_rows provider start stop) (wanted tickers)
        (fun t ht => ticker_history_ok_iff.mpr ⟨hread t ht, rfl⟩)]
      rfl

theorem get_historical_data_mono {tickers : List String} {start stop : ℤ} {rows : List DailyRow}
    (h : get_historical_data provider outage tickers start stop = .ok rows) :
    get_historical_data provider answering tickers start stop = .ok rows := by
  rcases lt_or_ge stop start with hlt | hle
  · rw [get_historical_data_of_lt hlt] at h
    exact absurd h (by simp)
  · rw [get_historical_data_of_le hle] at h ⊢
    obtain ⟨parts, hparts, hrows⟩ := bind_ok h
    rw [mapM_ok_mono (fun t rows => ticker_history_mono) hparts]
    exact hrows

/-- The frame of a download that had no row missing. -/
def daily_frame (provider : Provider) (start stop : ℤ) (tickers : List Ticker) : List DailyRow :=
  sort_values row_order (drop_duplicates row_key
    (tickers.flatMap (window_rows provider start stop)))

/-- A ticker is missing from the rows of all tickers when it has none. -/
theorem missing_eq_nil_iff {tickers : List Ticker} {start stop : ℤ} :
    tickers.filter (fun t => ∀ row ∈ tickers.flatMap (window_rows provider start stop),
        row.ticker ≠ t) = [] ↔ ∀ t ∈ tickers, window_rows provider start stop t ≠ [] := by
  rw [List.filter_eq_nil_iff]
  apply forall₂_congr
  intro t ht
  rw [decide_eq_true_eq, not_iff_not]
  constructor
  · intro h
    apply List.eq_nil_iff_forall_not_mem.mpr
    intro row hrow
    exact h row (List.mem_flatMap.mpr ⟨t, ht, hrow⟩) (mem_window_rows hrow).1
  · intro hnil row hrow hticker
    obtain ⟨t', _, hrow'⟩ := List.mem_flatMap.mp hrow
    obtain rfl : t' = t := (mem_window_rows hrow').1.symm.trans hticker
    rw [hnil] at hrow'
    exact absurd hrow' (by simp)

/-- `fetch_daily_history` without an outage. -/
theorem fetch_daily_history_ok_iff {tickers : List String} {start stop : ℤ} {require_all : Bool}
    {frame : List DailyRow} :
    fetch_daily_history provider answering tickers start stop require_all = .ok frame ↔
      start ≤ stop ∧ (∀ t ∈ wanted tickers, readable_days provider start stop t) ∧
      (require_all = true → ∀ t ∈ wanted tickers, window_rows provider start stop t ≠ []) ∧
      frame = daily_frame provider start stop (wanted tickers) := by
  unfold fetch_daily_history
  rw [← missing_eq_nil_iff]
  constructor
  · intro h
    obtain ⟨rows, hrows, hrest⟩ := bind_ok h
    rw [get_historical_data_ok_iff, wanted_symbols] at hrows
    obtain ⟨hle, hread, rfl⟩ := hrows
    -- a missing ticker is an error only where all are required
    by_cases hmissing : (wanted tickers).filter (fun t =>
        ∀ row ∈ (wanted tickers).flatMap (window_rows provider start stop), row.ticker ≠ t) ≠ [] ∧
        require_all
    · rw [if_pos hmissing] at hrest
      exact absurd hrest (by simp [throw, throwThe, MonadExceptOf.throw, bind, Except.bind])
    · rw [if_neg hmissing] at hrest
      refine ⟨hle, hread, ?_, (Except.ok.inj hrest).symm⟩
      intro hall
      by_contra hne
      exact hmissing ⟨hne, hall⟩
  · rintro ⟨hle, hread, hall, rfl⟩
    have hrows : get_historical_data provider answering ((wanted tickers).map Ticker.symbol)
        start stop = .ok ((wanted tickers).flatMap (window_rows provider start stop)) := by
      rw [get_historical_data_ok_iff, wanted_symbols]
      exact ⟨hle, hread, rfl⟩
    rw [hrows]
    show (if _ then _ else _) = _
    rw [if_neg (fun h => h.1 (hall h.2))]
    rfl

/-- What a download answers, it answers without the outage. -/
theorem fetch_daily_history_mono {tickers : List String} {start stop : ℤ} {require_all : Bool}
    {frame : List DailyRow}
    (h : fetch_daily_history provider outage tickers start stop require_all = .ok frame) :
    fetch_daily_history provider answering tickers start stop require_all = .ok frame := by
  unfold fetch_daily_history at h ⊢
  obtain ⟨rows, hrows, hrest⟩ := bind_ok h
  rw [get_historical_data_mono hrows]
  exact hrest

/-! ### What a download raises -/

theorem uncaught_of_request {failure : Failure} {t : Ticker}
    (h : (FmpError.request_failed t failure).unavailable = false) : failure = .uncaught := by
  cases failure with
  | unavailable => exact absurd h (by simp [FmpError.unavailable])
  | uncaught => rfl

/-- In a window that is no empty one, a download of which nothing is required
    fails with `FMPUnavailable`, or because a request was broken off. -/
theorem fetch_error {tickers : List String} {start stop : ℤ} {e : FmpError} (hle : start ≤ stop)
    (h : fetch_daily_history provider outage tickers start stop false = .error e)
    (he : e.unavailable = false) :
    ∃ t ∈ wanted tickers, e = .request_failed t .uncaught ∧
      outage t start stop = some .uncaught := by
  unfold fetch_daily_history at h
  rw [get_historical_data_of_le hle] at h
  rcases bind_error h with hrows | ⟨rows, _, hrest⟩
  · rcases bind_error hrows with hparts | ⟨parts, _, hjoin⟩
    · obtain ⟨t, hmem, hhistory⟩ := exists_of_mapM_error hparts
      rw [wanted_symbols] at hmem
      rcases bind_error hhistory with hrequest | ⟨payload, _, hread⟩
      · unfold request_list at hrequest
        split at hrequest
        · rename_i failure hout
          obtain rfl := Except.error.inj hrequest
          obtain rfl := uncaught_of_request he
          exact ⟨t, hmem, rfl, hout⟩
        · exact absurd hrequest (by simp)
      · -- a row that cannot be read is an `FMPUnavailable`
        rcases bind_error hread with hrow | ⟨_, _, hlast⟩
        · obtain ⟨raw, _, hraw⟩ := exists_of_mapM_error hrow
          split at hraw
          · rw [← Except.error.inj hraw] at he
            exact absurd he (by simp [FmpError.unavailable])
          · exact absurd hraw (by simp)
        · exact absurd hlast (by simp [pure, Except.pure])
    · exact absurd hjoin (by simp)
  · -- missing tickers are no error
    exact absurd hrest (by simp [pure, Except.pure])

/-- One symbol is one ticker at most. -/
theorem wanted_of_mem {symbol : String} {t : Ticker} (h : t ∈ wanted [symbol]) :
    wanted [symbol] = [t] := by
  obtain ⟨other, hother, hsome⟩ := List.mem_filterMap.mp (mem_of_mem_drop_duplicates h)
  rw [List.map_singleton, List.mem_singleton] at hother
  subst hother
  unfold wanted
  rw [List.map_singleton, List.filterMap_cons_some hsome, List.filterMap_nil]
  exact drop_duplicates_eq_self (List.nodup_singleton t)

/-- A download of one ticker fails with its request. -/
theorem fetch_of_outage {symbol : String} {start stop : ℤ} {t : Ticker} {failure : Failure}
    (hle : start ≤ stop) (ht : t ∈ wanted [symbol]) (hout : outage t start stop = some failure)
    (require_all : Bool) :
    fetch_daily_history provider outage [symbol] start stop require_all =
      .error (.request_failed t failure) := by
  have hrequest : ticker_history provider outage start stop t =
      .error (.request_failed t failure) := by
    unfold ticker_history request_list
    rw [hout]
    rfl
  unfold fetch_daily_history
  rw [get_historical_data_of_le hle, wanted_symbols, wanted_of_mem ht, List.mapM_cons, hrequest]
  rfl

/-! ### Cutting and joining frames -/

theorem ticker_ext {t t' : Ticker} (h : t.symbol = t'.symbol) : t = t' := by
  cases t
  cases t'
  simpa using h

theorem row_order_inj {a b : DailyRow} (h : row_order a = row_order b) : row_key a = row_key b := by
  have hpair : (a.date, a.ticker.symbol) = (b.date, b.ticker.symbol) := toLex.injective h
  obtain ⟨hdate, hsymbol⟩ := Prod.mk.inj hpair
  exact Prod.ext (ticker_ext hsymbol) hdate

theorem daily_frame_singleton (start stop : ℤ) (t : Ticker) :
    daily_frame provider start stop [t] =
      sort_values row_order (drop_duplicates row_key (window_rows provider start stop t)) := by
  unfold daily_frame
  rw [List.flatMap_cons, List.flatMap_nil, List.append_nil]

theorem daily_frame_eq_nil_iff {start stop : ℤ} {t : Ticker} :
    daily_frame provider start stop [t] = [] ↔ window_rows provider start stop t = [] := by
  rw [daily_frame_singleton, List.eq_nil_iff_forall_not_mem, List.eq_nil_iff_forall_not_mem]
  constructor
  · intro h row hrow
    obtain ⟨row', hrow', _⟩ : ∃ row' ∈ drop_duplicates row_key _, row_key row' = row_key row :=
      exists_mem_drop_duplicates hrow
    exact h row' ((mem_sort_values row_order).mpr hrow')
  · intro h row hrow
    exact h row (mem_of_mem_drop_duplicates ((mem_sort_values row_order).mp hrow))

/-- **Cut**: the dates of a smaller window make up its own frame. -/
theorem filter_daily_frame {first last start stop : ℤ} (hstart : first ≤ start)
    (hstop : stop ≤ last) (t : Ticker) :
    (daily_frame provider first last [t]).filter
      (fun row => start ≤ row.date ∧ row.date ≤ stop) = daily_frame provider start stop [t] := by
  rw [daily_frame_singleton, daily_frame_singleton, filter_sort_values,
    ← filter_window_rows hstart hstop]
  have hfilter : (drop_duplicates row_key (window_rows provider first last t)).filter
      (fun row => decide (start ≤ (row_key row).2 ∧ (row_key row).2 ≤ stop)) =
      drop_duplicates row_key ((window_rows provider first last t).filter
        (fun row => decide (start ≤ (row_key row).2 ∧ (row_key row).2 ≤ stop))) :=
    filter_drop_duplicates (fun k : Ticker × ℤ => decide (start ≤ k.2 ∧ k.2 ≤ stop)) _
  exact congrArg (sort_values row_order) hfilter

/-- **Joined**: the frames of different tickers make up the frame of all. -/
theorem sort_daily_frames {tickers : List Ticker} (hnodup : tickers.Nodup) (start stop : ℤ) :
    sort_values row_order (tickers.flatMap (fun t => daily_frame provider start stop [t])) =
      daily_frame provider start stop tickers := by
  have hparts : tickers.Pairwise (fun t t' => ∀ row ∈ window_rows provider start stop t,
      ∀ row' ∈ window_rows provider start stop t', row_key row' ≠ row_key row) := by
    apply hnodup.imp
    intro t t' hne row hrow row' hrow' hkey
    apply hne
    rw [← (mem_window_rows hrow).1, ← (mem_window_rows hrow').1]
    exact (congrArg Prod.fst hkey).symm
  have hperm : (drop_duplicates row_key (tickers.flatMap (window_rows provider start stop))).Perm
      (tickers.flatMap (fun t => daily_frame provider start stop [t])) := by
    rw [drop_duplicates_flatMap hparts]
    apply List.Perm.flatMap_left
    intro t _
    rw [daily_frame_singleton]
    exact (sort_values_perm row_order _).symm
  have hdistinct : (drop_duplicates row_key
      (tickers.flatMap (window_rows provider start stop))).Pairwise
      (fun a b => row_order a ≠ row_order b) :=
    (drop_duplicates_nodup _).imp (fun hne heq => hne (row_order_inj heq))
  exact (sort_values_of_perm row_order hperm hdistinct).symm

/-! ### The daily cache -/

/-- What the daily cache remembers: downloads of one ticker. -/
def daily_source (provider : Provider) (t : Ticker) (first last : ℤ) :
    Except FmpError (List DailyRow) :=
  fetch_daily_history provider answering [t.symbol] first last false

theorem remembered_of_eq {κ F : Type} {store : Store κ (List F)} {k : κ} {e : Entry (List F)}
    (h : store k = some e) : remembered store k = e.frame := by
  unfold remembered
  rw [h]
  rfl

/-- The slice of a remembered ticker. -/
theorem slice_of_sound {store : Store Ticker (List DailyRow)}
    (hsound : Sound (daily_source provider) store) {tickers : List String} {t : Ticker}
    (ht : t ∈ wanted tickers) {e : Entry (List DailyRow)} (he : store t = some e)
    {start stop : ℤ} (hcovers : e.covers start stop) :
    readable_days provider start stop t ∧
      (remembered store t).filter (fun row : DailyRow => start ≤ row.date ∧ row.date ≤ stop) =
        daily_frame provider start stop [t] := by
  obtain ⟨_, hread, _, hframe⟩ := fetch_daily_history_ok_iff.mp (hsound t e he)
  rw [wanted_symbol ht] at hread hframe
  refine ⟨?_, ?_⟩
  · intro raw hraw hstart hstop
    exact hread t (List.mem_singleton_self t) raw hraw (le_trans hcovers.1 hstart)
      (le_trans hstop hcovers.2)
  · rw [remembered_of_eq he, hframe]
    exact filter_daily_frame hcovers.1 hcovers.2 t

theorem get_daily_history_ok {adapter : Adapter} {tickers : List String} {start stop : ℤ}
    {require_all : Bool} {rows : List DailyRow}
    (h : (get_daily_history provider outage adapter tickers start stop require_all).2 = .ok rows) :
    (daily_round provider outage adapter tickers start stop).2 = .ok () ∧
      (require_all = true → ∀ t ∈ wanted tickers,
        (remembered (daily_round provider outage adapter tickers start stop).1 t).filter
          (fun row : DailyRow => start ≤ row.date ∧ row.date ≤ stop) ≠ []) ∧
      rows = sort_values row_order ((wanted tickers).flatMap (fun t =>
        (remembered (daily_round provider outage adapter tickers start stop).1 t).filter
          (fun row : DailyRow => start ≤ row.date ∧ row.date ≤ stop))) := by
  unfold get_daily_history at h
  simp only at h
  cases hround : (daily_round provider outage adapter tickers start stop).2 with
  | error e =>
    rw [hround] at h
    exact absurd h (by simp)
  | ok u =>
    rw [hround] at h
    simp only at h
    split at h
    · exact absurd h (by simp)
    · rename_i hmissing
      refine ⟨rfl, ?_, (Except.ok.inj h).symm⟩
      intro hall t ht hnil
      apply hmissing
      refine ⟨?_, hall⟩
      intro hempty
      exact List.filter_eq_nil_iff.mp hempty t ht (decide_eq_true hnil)

/-- **A daily call that returns** answers like a download of its own window,
    which is refused when it starts after its end. -/
theorem daily_answer {adapter : Adapter} (hsound : Sound (daily_source provider) adapter.history)
    {tickers : List String} {start stop : ℤ} {require_all : Bool} {rows : List DailyRow}
    (h : (get_daily_history provider outage adapter tickers start stop require_all).2 = .ok rows) :
    fetch_daily_history provider answering tickers start stop require_all = .ok rows ↔
      start ≤ stop := by
  obtain ⟨hround, hall, hrows⟩ := get_daily_history_ok h
  have hsound' : Sound (daily_source provider)
      (daily_round provider outage adapter tickers start stop).1 :=
    hsound.fill (fun t first last frame => fetch_daily_history_mono) _
  have hslice : ∀ t ∈ wanted tickers, readable_days provider start stop t ∧
      (remembered (daily_round provider outage adapter tickers start stop).1 t).filter
        (fun row : DailyRow => start ≤ row.date ∧ row.date ≤ stop) =
        daily_frame provider start stop [t] := by
    intro t ht
    obtain ⟨e, he, hcovers⟩ := covers_of_fill (wanted_nodup tickers) hround ht
    exact slice_of_sound hsound' ht he hcovers
  rw [fetch_daily_history_ok_iff]
  constructor
  · intro hdirect
    exact hdirect.1
  · intro hle
    refine ⟨hle, fun t ht => (hslice t ht).1, ?_, ?_⟩
    · intro hrequired t ht hnil
      apply hall hrequired t ht
      rw [(hslice t ht).2]
      exact daily_frame_eq_nil_iff.mpr hnil
    · rw [hrows, List.flatMap_congr (fun t ht => (hslice t ht).2)]
      exact sort_daily_frames (wanted_nodup tickers) start stop

/-! ### What an intraday download answers -/

variable {clock} {interval : FmpInterval}

/-- `drop_duplicates(["ticker", "timestamp"])`. -/
def bar_key (bar : IntradayBar) : Ticker × ℤ := (bar.ticker, bar.timestamp)

theorem bar_order_inj {a b : IntradayBar} (h : bar_order a = bar_order b) :
    bar_key a = bar_key b := by
  have hpair : (a.timestamp, a.ticker.symbol) = (b.timestamp, b.ticker.symbol) := toLex.injective h
  obtain ⟨htimestamp, hsymbol⟩ := Prod.mk.inj hpair
  exact Prod.ext (ticker_ext hsymbol) htimestamp

/-- The bars are settled by the last row of each key. -/
theorem last_of_each_congr {l m : List IntradayBar}
    (h : ∀ k, last_at bar_key l k = last_at bar_key m k) : last_of_each l = last_of_each m := by
  apply sort_values_of_perm bar_order (keep_last_perm bar_key h)
  exact (keep_last_distinct bar_key l).imp (fun hne heq => hne (bar_order_inj heq))

theorem last_at_last_of_each (l : List IntradayBar) (k : Ticker × ℤ) :
    last_at bar_key (last_of_each l) k = last_at bar_key l k := by
  have hone : ((keep_last bar_key l).filter (fun bar => bar_key bar = k)) =
      (last_at bar_key l k).toList := filter_key_keep_last bar_key l k
  show ((sort_values bar_order (keep_last bar_key l)).filter (fun bar => bar_key bar = k)).getLast? = _
  rw [filter_sort_values, hone]
  cases last_at bar_key l k with
  | none => rfl
  | some bar => rfl

/-- The last rows of a window. -/
theorem last_at_window (start stop : ℤ) (l : List IntradayBar) (k : Ticker × ℤ) :
    last_at bar_key (l.filter
      (fun bar => start ≤ bar_date clock bar ∧ bar_date clock bar ≤ stop)) k =
      if start ≤ clock.date k.2 ∧ clock.date k.2 ≤ stop then last_at bar_key l k else none := by
  have hfilter := last_at_filter bar_key
    (fun k => decide (start ≤ clock.date k.2 ∧ clock.date k.2 ≤ stop)) l k
  simp only [decide_eq_true_eq] at hfilter
  exact hfilter

/-- A row of the provider as a bar of the engine. -/
def bar_of (clock : LocalClock) (interval : FmpInterval) (t : Ticker) (raw : RawIntraday) :
    Option IntradayBar :=
  (read_intraday clock t raw).bind (close_labelled clock.toMarketClock interval.minutes)

/-- The bars of a ticker. -/
def all_bars (provider : Provider) (clock : LocalClock) (interval : FmpInterval) (t : Ticker) :
    List IntradayBar :=
  (provider.intraday t interval).filterMap (bar_of clock interval t)

/-- The bar the provider has for a key. -/
def bar_at (provider : Provider) (clock : LocalClock) (interval : FmpInterval) (k : Ticker × ℤ) :
    Option IntradayBar :=
  last_at bar_key (all_bars provider clock interval k.1) k

theorem read_intraday_spec {t : Ticker} {raw : RawIntraday} {row : StartedBar}
    (h : read_intraday clock t raw = some row) :
    row.ticker = t ∧ clock.wall row.bar_start = raw.wall := by
  obtain ⟨prices, _, hrest⟩ := Option.bind_eq_some_iff.mp h
  obtain ⟨bar_start, hlocal, hrow⟩ := Option.bind_eq_some_iff.mp hrest
  obtain rfl := Option.some.inj hrow
  exact ⟨rfl, clock.wall_localize _ _ hlocal⟩

theorem bar_of_spec {t : Ticker} {raw : RawIntraday} {bar : IntradayBar}
    (h : bar_of clock interval t raw = some bar) :
    bar.ticker = t ∧ bar_date clock bar = raw.wall / day_us := by
  obtain ⟨row, hread, hlabel⟩ := Option.bind_eq_some_iff.mp h
  obtain ⟨hticker, hwall⟩ := read_intraday_spec hread
  unfold close_labelled at hlabel
  split at hlabel
  · rename_i htrading
    obtain ⟨price, _, rfl⟩ := Option.map_eq_some_iff.mp hlabel
    refine ⟨hticker, ?_⟩
    show clock.date (Intraday.label_bar_close clock.toMarketClock row.bar_start interval.minutes) = _
    rw [Intraday.date_label_bar_close htrading]
    show clock.wall row.bar_start / day_us = _
    rw [hwall]
  · exact absurd hlabel (by simp)

/-- The rows of a ticker on the dates of a window can be read. -/
def readable_rows (provider : Provider) (clock : LocalClock) (interval : FmpInterval)
    (start stop : ℤ) (t : Ticker) : Prop :=
  ∀ raw ∈ provider.intraday t interval, start ≤ raw.wall / day_us → raw.wall / day_us ≤ stop →
    (read_intraday clock t raw).isSome

theorem last_at_all_bars (t : Ticker) (k : Ticker × ℤ) :
    last_at bar_key (all_bars provider clock interval t) k =
      if k.1 = t then bar_at provider clock interval k else none := by
  by_cases ht : k.1 = t
  · rw [if_pos ht, ← ht]
    rfl
  · rw [if_neg ht]
    unfold last_at
    rw [List.getLast?_eq_none_iff, List.filter_eq_nil_iff]
    intro bar hbar
    rw [decide_eq_true_eq]
    intro hkey
    obtain ⟨raw, _, hraw⟩ := List.mem_filterMap.mp hbar
    apply ht
    rw [← hkey]
    exact (bar_of_spec hraw).1

/-- One download without an outage. -/
theorem fetch_chunk_ok_iff {t : Ticker} {a b : ℤ} {bars : List IntradayBar} :
    fetch_chunk provider answering clock interval (t, a, b) = .ok bars ↔
      readable_rows provider clock interval a b t ∧
      bars = last_of_each ((all_bars provider clock interval t).filter
        (fun bar => a ≤ bar_date clock bar ∧ bar_date clock bar ≤ b)) := by
  -- the provider filters by the raw time, the reader by the bar's
  have hreadable : (∀ raw ∈ (provider.intraday t interval).filter
      (fun raw => a ≤ raw.wall / day_us ∧ raw.wall / day_us ≤ b),
      (read_intraday clock t raw).isSome) ↔ readable_rows provider clock interval a b t := by
    simp [readable_rows, List.mem_filter]
  have hbars : (((provider.intraday t interval).filter
      (fun raw => a ≤ raw.wall / day_us ∧ raw.wall / day_us ≤ b)).filterMap
      (read_intraday clock t)).filterMap (close_labelled clock.toMarketClock interval.minutes) =
      (all_bars provider clock interval t).filter
        (fun bar => a ≤ bar_date clock bar ∧ bar_date clock bar ≤ b) := by
    rw [List.filterMap_filterMap]
    symm
    apply filter_filterMap_comm
    intro raw bar hbar
    rw [(bar_of_spec hbar).2]
  constructor
  · intro h
    obtain ⟨payload, hrequest, hparse⟩ := bind_ok h
    obtain rfl := request_list_ok hrequest
    obtain ⟨records, hread, hrest⟩ := bind_ok hparse
    obtain ⟨hvalid, rfl⟩ := read_all_ok_iff.mp hread
    refine ⟨hreadable.mp hvalid, ?_⟩
    rw [← hbars]
    exact (Except.ok.inj hrest).symm
  · rintro ⟨hvalid, rfl⟩
    show (read_all _ _ _ >>= _) = _
    rw [read_all_ok_iff.mpr ⟨hreadable.mpr hvalid, rfl⟩, ← hbars]
    rfl

theorem fetch_chunk_mono {job : Ticker × ℤ × ℤ} {bars : List IntradayBar}
    (h : fetch_chunk provider outage clock interval job = .ok bars) :
    fetch_chunk provider answering clock interval job = .ok bars := by
  obtain ⟨t, a, b⟩ := job
  obtain ⟨payload, hrequest, hrest⟩ := bind_ok h
  rw [request_list_ok hrequest] at hrest
  exact hrest

/-- What a download answers, it answers without the outage. -/
theorem fetch_fmp_intraday_bars_mono {tickers : List Ticker} {start stop : ℤ}
    {bars : List IntradayBar}
    (h : fetch_fmp_intraday_bars provider outage clock tickers start stop interval = .ok bars) :
    fetch_fmp_intraday_bars provider answering clock tickers start stop interval = .ok bars := by
  unfold fetch_fmp_intraday_bars at h ⊢
  obtain ⟨parts, hparts, hrest⟩ := bind_ok h
  rw [mapM_ok_mono (fun job part => fetch_chunk_mono) hparts]
  exact hrest

/-- An answer for a window: the bar of each key in it, in order. -/
structure Answer (provider : Provider) (clock : LocalClock) (interval : FmpInterval)
    (tickers : List Ticker) (start stop : ℤ) (bars : List IntradayBar) : Prop where
  ordered : last_of_each bars = bars
  bar_at_key : ∀ k, last_at bar_key bars k =
    if k.1 ∈ tickers ∧ start ≤ clock.date k.2 ∧ clock.date k.2 ≤ stop then
      bar_at provider clock interval k else none

theorem Answer.unique {tickers : List Ticker} {start stop : ℤ} {bars bars' : List IntradayBar}
    (h : Answer provider clock interval tickers start stop bars)
    (h' : Answer provider clock interval tickers start stop bars') : bars = bars' := by
  rw [← h.ordered, ← h'.ordered]
  apply last_of_each_congr
  intro k
  rw [h.bar_at_key, h'.bar_at_key]

/-- What the last rows of a table answer. -/
theorem answer_of_last_at {tickers : List Ticker} {start stop : ℤ} {l : List IntradayBar}
    (h : ∀ k, last_at bar_key l k =
      if k.1 ∈ tickers ∧ start ≤ clock.date k.2 ∧ clock.date k.2 ≤ stop then
        bar_at provider clock interval k else none) :
    Answer provider clock interval tickers start stop (last_of_each l) where
  ordered := last_of_each_congr (fun k => last_at_last_of_each l k)
  bar_at_key k := by rw [last_at_last_of_each, h]

theorem chunk_days_pos (interval : FmpInterval) : 0 < interval.chunk_days := by
  cases interval <;> decide

theorem mem_chunk_jobs {tickers : List Ticker} {start stop : ℤ} {job : Ticker × ℤ × ℤ} :
    job ∈ chunk_jobs tickers start stop interval ↔
      job.1 ∈ tickers ∧ job.2 ∈ slabs interval.chunk_days start stop := by
  unfold chunk_jobs
  rw [List.mem_flatMap]
  constructor
  · rintro ⟨t, ht, hjob⟩
    obtain ⟨chunk, hchunk, rfl⟩ := List.mem_map.mp hjob
    exact ⟨ht, hchunk⟩
  · rintro ⟨ht, hchunk⟩
    exact ⟨job.1, ht, List.mem_map.mpr ⟨job.2, hchunk, rfl⟩⟩

variable (interval) in
/-- A date of the window is downloaded for every ticker. -/
theorem job_of_date {tickers : List Ticker} {start stop : ℤ} {t : Ticker} (ht : t ∈ tickers)
    {d : ℤ} (hstart : start ≤ d) (hstop : d ≤ stop) :
    ∃ job ∈ chunk_jobs tickers start stop interval, t = job.1 ∧ job.2.1 ≤ d ∧ d ≤ job.2.2 := by
  obtain ⟨chunk, hchunk, hin⟩ := Intraday.mem_slabs (chunk_days_pos interval) hstart hstop
  exact ⟨(t, chunk), mem_chunk_jobs.mpr ⟨ht, hchunk⟩, rfl, hin⟩

/-- `fetch_fmp_intraday_bars` without an outage. -/
theorem fetch_fmp_intraday_bars_ok {tickers : List Ticker} {start stop : ℤ}
    {bars : List IntradayBar}
    (h : fetch_fmp_intraday_bars provider answering clock tickers start stop interval = .ok bars) :
    (∀ t ∈ tickers, readable_rows provider clock interval start stop t) ∧
      Answer provider clock interval tickers start stop bars := by
  obtain ⟨parts, hparts, hrest⟩ := bind_ok h
  obtain rfl := Except.ok.inj hrest
  have hmap := eq_map_of_mapM_ok hparts
    (fun job _ bars h => (fetch_chunk_ok_iff (t := job.1) (a := job.2.1) (b := job.2.2)).mp h |>.2)
  constructor
  · intro t ht raw hraw hstart hstop
    obtain ⟨job, hjob, rfl, hlow, hhigh⟩ := job_of_date interval ht hstart hstop
    obtain ⟨part, hpart⟩ := ok_of_mapM_ok hparts job hjob
    exact (fetch_chunk_ok_iff.mp hpart).1 raw hraw hlow hhigh
  · apply answer_of_last_at
    intro k
    -- a bar comes from the chunk that covers its date
    have hchunk : ∀ job ∈ chunk_jobs tickers start stop interval, last_at bar_key
        (last_of_each ((all_bars provider clock interval job.1).filter
          (fun bar => job.2.1 ≤ bar_date clock bar ∧ bar_date clock bar ≤ job.2.2))) k =
        if (job.2.1 ≤ clock.date k.2 ∧ clock.date k.2 ≤ job.2.2) ∧ k.1 = job.1 then
          bar_at provider clock interval k else none := by
      intro job _
      rw [last_at_last_of_each, last_at_window, last_at_all_bars, ← ite_and]
    rw [hmap, ← List.flatMap_def, last_at_window, last_at_flatMap bar_key hchunk, ← ite_and]
    apply if_congr _ rfl rfl
    constructor
    · rintro ⟨hwindow, job, hjob, _, hticker⟩
      rw [hticker]
      exact ⟨(mem_chunk_jobs.mp hjob).1, hwindow⟩
    · rintro ⟨hticker, hstart, hstop⟩
      obtain ⟨job, hjob, heq, hin⟩ := job_of_date interval hticker hstart hstop
      exact ⟨⟨hstart, hstop⟩, job, hjob, hin, heq⟩

/-- A window whose rows can be read is answered. -/
theorem exists_intraday_answer {tickers : List Ticker} {start stop : ℤ}
    (h : ∀ t ∈ tickers, readable_rows provider clock interval start stop t) :
    ∃ bars, fetch_fmp_intraday_bars provider answering clock tickers start stop interval =
      .ok bars := by
  have hjobs : ∀ job ∈ chunk_jobs tickers start stop interval,
      fetch_chunk provider answering clock interval job = .ok (last_of_each
        ((all_bars provider clock interval job.1).filter
          (fun bar => job.2.1 ≤ bar_date clock bar ∧ bar_date clock bar ≤ job.2.2))) := by
    intro job hjob
    obtain ⟨hticker, hchunk⟩ := mem_chunk_jobs.mp hjob
    obtain ⟨hlow, hhigh⟩ := Intraday.slab_bounds hchunk
    apply fetch_chunk_ok_iff.mpr
    refine ⟨?_, rfl⟩
    intro raw hraw hstart hstop
    exact h job.1 hticker raw hraw (le_trans hlow hstart) (le_trans hstop hhigh)
  unfold fetch_fmp_intraday_bars
  rw [mapM_ok _ hjobs]
  exact ⟨_, rfl⟩

/-! ### The intraday cache -/

/-- What the intraday cache remembers: downloads of one ticker. -/
def intraday_source (provider : Provider) (clock : LocalClock) (key : Ticker × FmpInterval)
    (first last : ℤ) : Except FmpError (List IntradayBar) :=
  fetch_fmp_intraday_bars provider answering clock [key.1] first last key.2

theorem get_intraday_history_ok {adapter : Adapter} {tickers : List String} {start stop : ℤ}
    {bars : List IntradayBar}
    (h : (get_intraday_history provider outage clock adapter tickers start stop interval).2 =
      .ok bars) :
    (intraday_round provider outage clock adapter tickers start stop interval).2 = .ok () ∧
      bars = sort_values bar_order ((wanted tickers).flatMap (fun t =>
        (remembered (intraday_round provider outage clock adapter tickers start stop interval).1
          (t, interval)).filter
          (fun bar => start ≤ bar_date clock bar ∧ bar_date clock bar ≤ stop))) := by
  unfold get_intraday_history at h
  simp only at h
  cases hround : (intraday_round provider outage clock adapter tickers start stop interval).2 with
  | error e =>
    rw [hround] at h
    exact absurd h (by simp)
  | ok u =>
    rw [hround] at h
    exact ⟨rfl, (Except.ok.inj h).symm⟩

/-- The slice of a remembered ticker. -/
structure Slice (provider : Provider) (clock : LocalClock) (interval : FmpInterval)
    (start stop : ℤ) (t : Ticker) (slice : List IntradayBar) : Prop where
  distinct : slice.Pairwise (fun a b => bar_key a ≠ bar_key b)
  of_ticker : ∀ bar ∈ slice, bar.ticker = t
  bar_at_key : ∀ k, last_at bar_key slice k =
    if k.1 = t then
      if start ≤ clock.date k.2 ∧ clock.date k.2 ≤ stop then bar_at provider clock interval k
      else none
    else none

theorem Answer.slice {t : Ticker} {first last start stop : ℤ} {bars : List IntradayBar}
    (h : Answer provider clock interval [t] first last bars) (hstart : first ≤ start)
    (hstop : stop ≤ last) :
    Slice provider clock interval start stop t
      (bars.filter (fun bar => start ≤ bar_date clock bar ∧ bar_date clock bar ≤ stop)) where
  distinct := by
    -- an answer has one bar for each key already
    have hdistinct : (last_of_each bars).Pairwise (fun a b => bar_key a ≠ bar_key b) :=
      (sort_values_perm bar_order _).symm.pairwise (keep_last_distinct bar_key bars)
        (fun hne => hne.symm)
    rw [h.ordered] at hdistinct
    exact hdistinct.filter _
  of_ticker := by
    intro bar hbar
    obtain ⟨bar', hbar'⟩ := exists_last_at bar_key (List.mem_of_mem_filter hbar)
    rw [h.bar_at_key] at hbar'
    split at hbar'
    · rename_i hin
      exact List.mem_singleton.mp hin.1
    · exact absurd hbar' (by simp)
  bar_at_key := by
    intro k
    rw [last_at_window, h.bar_at_key]
    by_cases hwindow : start ≤ clock.date k.2 ∧ clock.date k.2 ≤ stop
    · rw [if_pos hwindow, if_pos hwindow]
      apply if_congr _ rfl rfl
      rw [List.mem_singleton]
      constructor
      · intro hk
        exact hk.1
      · intro hk
        exact ⟨hk, le_trans hstart hwindow.1, le_trans hwindow.2 hstop⟩
    · rw [if_neg hwindow, if_neg hwindow, ite_self]

/-- **Joined**: the slices of different tickers make up the answer for all. -/
theorem answer_of_slices {tickers : List Ticker} (hnodup : tickers.Nodup) {start stop : ℤ}
    {slice : Ticker → List IntradayBar}
    (h : ∀ t ∈ tickers, Slice provider clock interval start stop t (slice t)) :
    Answer provider clock interval tickers start stop
      (sort_values bar_order (tickers.flatMap slice)) := by
  have hdistinct : (tickers.flatMap slice).Pairwise (fun a b => bar_key a ≠ bar_key b) := by
    apply List.pairwise_flatMap.mpr
    refine ⟨fun t ht => (h t ht).distinct, ?_⟩
    apply hnodup.imp_of_mem
    intro t t' ht ht' hne bar hbar bar' hbar' hkey
    apply hne
    rw [← (h t ht).of_ticker bar hbar, ← (h t' ht').of_ticker bar' hbar']
    exact congrArg Prod.fst hkey
  have hlast : sort_values bar_order (tickers.flatMap slice) =
      last_of_each (tickers.flatMap slice) := by
    show _ = sort_values bar_order (keep_last bar_key _)
    rw [keep_last_eq_self bar_key hdistinct]
  rw [hlast]
  apply answer_of_last_at
  intro k
  rw [last_at_flatMap bar_key (fun t ht => (h t ht).bar_at_key k), ← ite_and]
  apply if_congr _ rfl rfl
  simp

/-- **A call that returns** answers like a download of its own window. -/
theorem intraday_answer {adapter : Adapter}
    (hsound : Sound (intraday_source provider clock) adapter.intraday)
    {tickers : List String} {start stop : ℤ} {bars : List IntradayBar}
    (h : (get_intraday_history provider outage clock adapter tickers start stop interval).2 =
      .ok bars) :
    fetch_fmp_intraday_bars provider answering clock (wanted tickers) start stop interval =
      .ok bars := by
  obtain ⟨hround, hbars⟩ := get_intraday_history_ok h
  have hsound' : Sound (intraday_source provider clock)
      (intraday_round provider outage clock adapter tickers start stop interval).1 :=
    hsound.fill (fun key first last frame => fetch_fmp_intraday_bars_mono) _
  have hkeys : ((wanted tickers).map (fun t => (t, interval))).Nodup :=
    (wanted_nodup tickers).map (fun t t' heq => congrArg Prod.fst heq)
  -- what is remembered covers the window, so a slice of it answers
  have hslice : ∀ t ∈ wanted tickers, readable_rows provider clock interval start stop t ∧
      Slice provider clock interval start stop t
        ((remembered (intraday_round provider outage clock adapter tickers start stop interval).1
          (t, interval)).filter
          (fun bar => start ≤ bar_date clock bar ∧ bar_date clock bar ≤ stop)) := by
    intro t ht
    obtain ⟨e, he, hcovers⟩ : ∃ e, (intraday_round provider outage clock adapter tickers start
        stop interval).1 (t, interval) = some e ∧ e.covers start stop :=
      covers_of_fill hkeys hround (List.mem_map_of_mem ht)
    obtain ⟨hread, hanswer⟩ := fetch_fmp_intraday_bars_ok (hsound' _ e he)
    refine ⟨?_, ?_⟩
    · intro raw hraw hstart hstop
      exact hread t (List.mem_singleton_self t) raw hraw (le_trans hcovers.1 hstart)
        (le_trans hstop hcovers.2)
    · rw [remembered_of_eq he]
      exact hanswer.slice hcovers.1 hcovers.2
  obtain ⟨direct, hdirect⟩ := exists_intraday_answer (fun t ht => (hslice t ht).1)
  have hanswer : Answer provider clock interval (wanted tickers) start stop bars := by
    rw [hbars]
    exact answer_of_slices (wanted_nodup tickers) (fun t ht => (hslice t ht).2)
  rw [hdirect, (fetch_fmp_intraday_bars_ok hdirect).2.unique hanswer]

/-! ### Runs -/

/-- The entries of an adapter are downloads. -/
structure Remembers (provider : Provider) (clock : LocalClock) (adapter : Adapter) : Prop where
  history : Sound (daily_source provider) adapter.history
  intraday : Sound (intraday_source provider clock) adapter.intraday

theorem get_daily_history_history (adapter : Adapter) (tickers : List String) (start stop : ℤ)
    (require_all : Bool) :
    (get_daily_history provider outage adapter tickers start stop require_all).1 =
      { adapter with
        history := (daily_round provider outage adapter tickers start stop).1 } := by
  unfold get_daily_history
  simp only
  split
  · rfl
  · split
    · rfl
    · rfl

theorem get_intraday_history_intraday (adapter : Adapter) (tickers : List String)
    (start stop : ℤ) :
    (get_intraday_history provider outage clock adapter tickers start stop interval).1 =
      { adapter with
        intraday :=
          (intraday_round provider outage clock adapter tickers start stop interval).1 } := by
  unfold get_intraday_history
  simp only
  split
  · rfl
  · rfl

/-- A call keeps the entries downloads, also one that raises. -/
theorem Remembers.call {adapter : Adapter} (h : Remembers provider clock adapter) (c : Call) :
    Remembers provider clock (call provider clock adapter c) := by
  cases c with
  | daily tickers start stop require_all outage =>
    show Remembers provider clock (get_daily_history _ _ _ _ _ _ _).1
    rw [get_daily_history_history]
    exact ⟨h.history.fill (fun t first last frame => fetch_daily_history_mono) _, h.intraday⟩
  | intraday tickers start stop interval outage =>
    show Remembers provider clock (get_intraday_history _ _ _ _ _ _ _ _).1
    rw [get_intraday_history_intraday]
    exact ⟨h.history,
      h.intraday.fill (fun key first last frame => fetch_fmp_intraday_bars_mono) _⟩
  | close => exact ⟨sound_empty, sound_empty⟩

/-- **Every run** remembers downloads only. -/
theorem run_calls_remembers (provider : Provider) (clock : LocalClock) (calls : List Call) :
    Remembers provider clock (run_calls provider clock calls) := by
  unfold run_calls
  have hrun : ∀ adapter, Remembers provider clock adapter →
      Remembers provider clock (calls.foldl (call provider clock) adapter) := by
    induction calls with
    | nil => exact fun adapter h => h
    | cons c calls ih => exact fun adapter h => ih _ (h.call c)
  exact hrun Adapter.empty ⟨sound_empty, sound_empty⟩

/-- **The cache is transparent** in windows that do not start after their end.
    After any calls, one that returns answers like a download of its own
    window; a daily one only when the download is not refused. A remembered
    window is not downloaded. -/
theorem adapter_is_transparent (provider : Provider) (clock : LocalClock) (calls : List Call) :
    (∀ outage tickers start stop require_all rows,
      (get_daily_history provider outage (run_calls provider clock calls) tickers start stop
        require_all).2 = .ok rows →
      (fetch_daily_history provider answering tickers start stop require_all = .ok rows ↔
        start ≤ stop)) ∧
    (∀ outage tickers start stop interval bars,
      (get_intraday_history provider outage clock (run_calls provider clock calls) tickers start
        stop interval).2 = .ok bars →
      fetch_fmp_intraday_bars provider answering clock (wanted tickers) start stop interval =
        .ok bars) ∧
    (∀ tickers start stop ticker e,
      (run_calls provider clock calls).history ticker = some e → e.covers start stop →
      ∀ r ∈ daily_requests (run_calls provider clock calls) tickers start stop,
        r.key ≠ ticker) ∧
    (∀ tickers start stop ticker interval e,
      (run_calls provider clock calls).intraday (ticker, interval) = some e →
      e.covers start stop →
      ∀ r ∈ intraday_requests (run_calls provider clock calls) tickers start stop interval,
        r.key.1 ≠ ticker) := by
  have hrun := run_calls_remembers provider clock calls
  refine ⟨?_, ?_, ?_, ?_⟩
  · intro outage tickers start stop require_all rows h
    exact daily_answer hrun.history h
  · intro outage tickers start stop interval bars h
    exact intraday_answer hrun.intraday h
  · intro tickers start stop ticker e he hcovers
    exact not_needed he hcovers
  · intro tickers start stop ticker interval e he hcovers r hr hticker
    -- every request is for the interval asked
    have hinterval : r.key.2 = interval := by
      have hin := (needed_keys _ _ _).subset (List.mem_map_of_mem (f := Request.key) hr)
      obtain ⟨t, _, ht⟩ := List.mem_map.mp hin
      rw [← ht]
    exact not_needed he hcovers r hr (Prod.ext hticker hinterval)

open Intraday (eastern_standard msft)

/-- A flat day of one ticker. -/
def flat_day (date : ℤ) : RawDaily :=
  ⟨date, none, ⟨some (.fin 1), some (.fin 1), some (.fin 1), some (.fin 1), some (.fin 1)⟩⟩

/-- Two days of one ticker. -/
def two_days : Provider where
  daily ticker := if ticker = msft then [flat_day 0, flat_day 1] else []
  intraday _ _ := []

/-- A clock that is five hours behind. -/
def eastern_local : LocalClock where
  toMarketClock := eastern_standard
  localize w := some (w + 5 * hour_us)
  wall_localize w t h := by
    obtain rfl := Option.some.inj h
    show w + 5 * hour_us - 5 * hour_us = w
    omega

/-- One day cut out of two. -/
theorem second_day_from_the_cache :
    ∃ rows, (get_daily_history two_days answering (run_calls two_days eastern_local
        [.daily ["MSFT"] 0 1 true answering]) ["MSFT"] 1 1 true).2 = .ok rows ∧
      fetch_daily_history two_days answering ["MSFT"] 1 1 true = .ok rows := by
  have hcached : (get_daily_history two_days answering (run_calls two_days eastern_local
      [.daily ["MSFT"] 0 1 true answering]) ["MSFT"] 1 1 true).2 =
      .ok [⟨msft, 1, ⟨1, 1, 1, 1, 1⟩⟩] := by
    decide +kernel
  exact ⟨_, hcached, ((adapter_is_transparent two_days eastern_local _).1 answering _ _ _ _ _
    hcached).mpr (by decide)⟩

/-- A remembered ticker in a window that starts after its end: the call returns
    and the download is refused. -/
theorem reversed_window_answered :
    (get_daily_history two_days answering (run_calls two_days eastern_local
        [.daily ["MSFT"] 0 1 true answering]) ["MSFT"] 1 0 false).2 = .ok [] ∧
      fetch_daily_history two_days answering ["MSFT"] 1 0 false = .error .start_after_end := by
  constructor
  · decide +kernel
  · rfl

end Fmp
