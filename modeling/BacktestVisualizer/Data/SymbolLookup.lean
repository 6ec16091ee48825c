import BacktestVisualizer.Framework.CachedFlight
import BacktestVisualizer.Framework.LTS
import BacktestVisualizer.Framework.Text

/-! # Looking Up Symbols

  `services/market_data.py`: `_fmp_symbol_exists` asks the provider whether
  there is a ticker, `_fmp_search_symbols` which symbols start with a prefix.
  Both keep their answers for a while and let concurrent calls share one
  request. A search tells the lookup of every symbol it has listed.

  The critical sections under `_symbol_lock` are the steps of a system with
  any number of calls, and so are the provider's reply and what is done to a
  future. The clock moves on in between. The semaphore in front of the
  provider only delays a reply and is left out.
-/

open CachedFlight LTS

namespace SymbolLookup

/-! ### What the provider sends -/

/-- What a call raises: `FMPUnavailable`, or any other exception. -/
inductive Error where
  | fmp_unavailable (message : String)
  | other (name : String)
  deriving DecidableEq, Repr

/-- A value of a row, as JSON has it. -/
inductive Cell where
  | text (s : String)
  | other (truthy : Bool)
  deriving DecidableEq, Repr

/-- A row of a search page. A field that is missing reads as null. -/
structure Row where
  symbol : String
  name : Option Cell
  exchange : Option Cell
  exchange_full_name : Option Cell
  currency : Option Cell
  deriving DecidableEq, Repr

def SYMBOL_SEARCH_LIMIT : ℕ := 100

/-- `FMPMarketData.symbol_exists`, on the page for the ticker. A full page
    cannot prove absence. -/
def symbol_exists (ticker : String) (rows : List Row) : Except Error Bool :=
  if rows.any (fun row => Text.strip_upper row.symbol = ticker) then .ok true
  else if SYMBOL_SEARCH_LIMIT ≤ rows.length then
    .error (.fmp_unavailable s!"FMP symbol lookup for {ticker} was incomplete. Retry with the exact exchange-qualified symbol.")
  else .ok false

/-! ### Pages of suggestions -/

def SYMBOL_SEARCH_RESULTS : ℕ := 10

def US_EXCHANGES_FMP : List String := ["NYSE", "NASDAQ", "AMEX"]

inductive Source where
  | database
  | run
  | fmp
  | yahoo
  deriving DecidableEq, Repr

structure SymbolMatch where
  symbol : String
  name : Option String
  exchange : Option String
  source : Source
  deriving DecidableEq, Repr

/-- `a or b`. -/
def Cell.or : Option Cell → Option Cell → Option Cell
  | some (.text s), b => if s = "" then b else some (.text s)
  | some (.other true), _ => some (.other true)
  | some (.other false), b => b
  | none, b => b

/-- `value.strip() if isinstance(value, str) and value.strip() else None`. -/
def Cell.stripped : Option Cell → Option String
  | some (.text s) =>
      let s := String.ofList (Text.strip s.toList)
      if s = "" then none else some s
  | _ => none

def to_match (row : Row) (source : Source) : SymbolMatch where
  symbol := Text.strip_upper row.symbol
  name := Cell.stripped row.name
  exchange := Cell.stripped (Cell.or row.exchange_full_name row.exchange)
  source := source

def is_us_listing (row : Row) : Bool :=
  match row.exchange with
  | some (.text code) =>
      US_EXCHANGES_FMP.contains (Text.strip_upper code) &&
        match row.currency with
        | none => true
        | some (.text currency) => Text.upper currency == "USD"
        | some (.other _) => false
  | _ => false

/-- The US listings, each symbol once. -/
def listed_rows (seen : List String) : List Row → List Row
  | [] => []
  | row :: rows =>
      let symbol := Text.strip_upper row.symbol
      if symbol ∈ seen ∨ is_us_listing row = false then listed_rows seen rows
      else row :: listed_rows (symbol :: seen) rows

/-- The matches of a search, and whether there were more. -/
structure Page where
  found : List SymbolMatch
  truncated : Bool
  deriving DecidableEq, Repr

/-- What comes back for a prefix, by symbol and by name. -/
structure SearchReply where
  by_symbol : Except Error (List Row)
  by_name : Except Error (List Row)

/-- The body of `_fmp_search_symbols`. Two letters are not searched for by
    name. -/
def search_page (query : String) (reply : SearchReply) : Except Error Page := do
  let by_symbol ← reply.by_symbol
  let by_name ← if 3 ≤ query.length then reply.by_name else .ok []
  let rows := listed_rows [] (by_symbol ++ by_name)
  .ok ⟨(rows.take SYMBOL_SEARCH_RESULTS).map (fun row => to_match row .fmp),
    decide (SYMBOL_SEARCH_RESULTS < rows.length)⟩

/-! ### The two caches -/

/-- A ticker that exists is known for an hour, one that does not for five
    minutes. -/
def symbol_policy : Policy String (Except Error (List Row)) ℚ Bool Error where
  reading ticker page := page.bind (symbol_exists ticker)
  expires now known := now + if known then 3600 else 300
  size := 512

def SEARCH_TTL_SECONDS : ℚ := 300
def SEARCH_CACHE_SIZE : ℕ := 256

def search_policy : Policy String SearchReply ℚ Page Error where
  reading := search_page
  expires now _ := now + SEARCH_TTL_SECONDS
  size := SEARCH_CACHE_SIZE

/-- `_remember_symbols`: a symbol somebody is looking up is left to that
    lookup. -/
def remember_symbols (pending : String → Option ℕ) (now : ℚ) (cache : Keyed String (ℚ × Bool))
    (symbols : List String) : Keyed String (ℚ × Bool) :=
  Keyed.trim 512 (symbols.foldl
    (fun cache symbol =>
      if (pending symbol).isSome then cache else cache.insert symbol (now + 3600, true))
    cache)

/-! ### The system -/

structure State where
  clock : ℚ
  symbols : Lookup String ℚ Bool Error
  searches : Lookup String ℚ Page Error

inductive Label where
  | tick (d : ℚ)
  /-- A call of `_fmp_symbol_exists`. -/
  | lookup (action : Action String (Except Error (List Row)))
  /-- A call of `_fmp_search_symbols`. -/
  | search (action : Action String SearchReply)

/-- What the lookups know after an action of a search: with its write, the
    symbols on its page. -/
def State.remember (s : State) (searches : Lookup String ℚ Page Error) :
    Action String SearchReply → Keyed String (ℚ × Bool)
  | .write n =>
      match wrote (searches.flight.call n) with
      | some (_, page) =>
          remember_symbols s.symbols.flight.pending s.clock s.symbols.cache
            (page.found.map SymbolMatch.symbol)
      | none => s.symbols.cache
  | _ => s.symbols.cache

def symbol_lookups : System State Label where
  init s := s.symbols = Lookup.empty ∧ s.searches = Lookup.empty
  step s label s' :=
    match label with
    | .tick d => 0 ≤ d ∧ s' = { s with clock := s.clock + d }
    | .lookup action =>
        ∃ symbols, s.symbols.step symbol_policy s.clock action symbols ∧
          s' = { s with symbols := symbols }
    | .search action =>
        ∃ searches, s.searches.step search_policy s.clock action searches ∧
          s' = { s with
            searches := searches
            symbols := ⟨s.remember searches action, s.symbols.flight⟩ }

end SymbolLookup
