import BacktestVisualizer.Engine.Values
import Mathlib.Data.List.Sort
import Mathlib.Tactic

/-! # FIFO Pairing of Fills

  `src/services/trade_pairing.py`: the engine logs fills, one leg each; the
  reports show round trips. Within a ticker the oldest open lot closes
  first, and lots still open at the end become rows without an exit.

  `src/services/reporting.py` (`open_positions`) marks those open rows.
-/

namespace Reporting

/-- `_EPS`. -/
def eps : ℚ := 1 / 1000000000

/-! ### Fills -/

/-- A field that should hold a number. -/
inductive RawNumber where
  | missing
  | not_numeric
  | number (q : ℚ)
  deriving DecidableEq, Repr

/-- What a `timestamp` field may hold; `text` carries the result of
    `datetime.fromisoformat`. -/
inductive RawTime where
  | moment (m : Moment)
  | day (date : ℤ)
  | text (parsed : Option Moment)
  | unusable
  deriving DecidableEq, Repr

/-- A fill as it is handed over. `ticker` is `none` when the field is
    missing, empty or not a string. -/
structure RawFill where
  timestamp : RawTime
  ticker : Option Ticker
  signal_type : Signal
  shares : RawNumber
  fill_price : RawNumber
  fees : RawNumber
  deriving DecidableEq, Repr

inductive FillField where
  | timestamp
  | ticker
  | signal_type
  | shares
  | fill_price
  | fees
  deriving DecidableEq, Repr

inductive Problem where
  | missing
  | not_numeric
  | not_iso
  | unusable
  | not_buy_or_sell
  deriving DecidableEq, Repr

/-- A `ValueError`: the fill, the field and what is wrong with it. -/
structure PairingError where
  index : ℕ
  field : FillField
  problem : Problem
  deriving DecidableEq, Repr

/-- `_LONG` and `_SHORT`. -/
inductive Direction where
  | long
  | short
  deriving DecidableEq, Repr

def Direction.sign : Direction → ℚ
  | .long => 1
  | .short => -1

/-- `_Fill`. The sort key is the comparable time and the place in the log. -/
structure Fill where
  direction : Direction
  ticker : Ticker
  quantity : ℚ
  price : ℚ
  day : ℤ
  fee_per_share : ℚ
  sort_key : ℤ × ℕ
  deriving DecidableEq, Repr

/-! ### Normalising -/

/-- `_number`. -/
def number (index : ℕ) (field : FillField) : RawNumber → Except PairingError ℚ
  | .missing => .error { index := index, field := field, problem := .missing }
  | .not_numeric => .error { index := index, field := field, problem := .not_numeric }
  | .number q => .ok q

/-- `_timestamp`. -/
def timestamp (index : ℕ) : RawTime → Except PairingError Moment
  | .moment m => .ok m
  | .day date => .ok { wall := date * day_us, utcoffset := none }
  | .text (some m) => .ok m
  | .text none => .error { index := index, field := .timestamp, problem := .not_iso }
  | .unusable => .error { index := index, field := .timestamp, problem := .unusable }

/-- `_direction`. -/
def direction (index : ℕ) : Signal → Except PairingError Direction
  | .buy => .ok .long
  | .sell => .ok .short
  | _ => .error { index := index, field := .signal_type, problem := .not_buy_or_sell }

/-- `_ticker`. -/
def ticker (index : ℕ) : Option Ticker → Except PairingError Ticker
  | some t => .ok t
  | none => .error { index := index, field := .ticker, problem := .missing }

/-- The body of the loop of `_normalise`; a fill of no shares is skipped. -/
def normalise_fill (market_zone : Option Zone) (index : ℕ) (raw : RawFill) :
    Except PairingError (Option Fill) := do
  let quantity ← number index .shares raw.shares
  if quantity ≤ eps then pure none
  else
    let moment ← timestamp index raw.timestamp
    let moment := match market_zone with
      | some zone => moment.in_zone zone
      | none => moment
    let fees ← if raw.fees = .missing then pure 0 else number index .fees raw.fees
    let direction ← direction index raw.signal_type
    let ticker ← ticker index raw.ticker
    let price ← number index .fill_price raw.fill_price
    pure (some { direction := direction, ticker := ticker, quantity := quantity, price := price,
                 day := moment.date, fee_per_share := fees / quantity,
                 sort_key := (moment.comparable, index) })

/-- The order of sort keys. -/
def fill_le (a b : Fill) : Prop :=
  a.sort_key.1 < b.sort_key.1 ∨ a.sort_key.1 = b.sort_key.1 ∧ a.sort_key.2 ≤ b.sort_key.2

instance (a b : Fill) : Decidable (fill_le a b) := inferInstanceAs (Decidable (_ ∨ _))

/-- `_normalise`. -/
def normalise (fills : List RawFill) (market_zone : Option Zone) :
    Except PairingError (List Fill) := do
  let found ← fills.zipIdx.mapM (fun x => normalise_fill market_zone x.2 x.1)
  pure ((found.filterMap id).insertionSort fill_le)

/-! ### Pairing -/

/-- `_Lot`. -/
structure Lot where
  direction : Direction
  quantity : ℚ
  price : ℚ
  day : ℤ
  fee_per_share : ℚ
  open_index : ℕ
  deriving DecidableEq, Repr

/-- A round trip, or a lot that never got a closing fill. -/
structure Row where
  symbol : Ticker
  side : Direction
  entry_date : ℤ
  exit_date : Option ℤ
  entry_price : ℚ
  exit_price : Option ℚ
  quantity : ℚ
  pnl : ℚ
  return_pct : ℚ
  fees : ℚ
  deriving DecidableEq, Repr

/-- `_round_trip`. -/
def round_trip (lot : Lot) (fill : Fill) (quantity : ℚ) : Row :=
  let pnl := (fill.price - lot.price) * quantity * lot.direction.sign
  let entry_notional := lot.price * quantity
  { symbol := fill.ticker, side := lot.direction, entry_date := lot.day,
    exit_date := some fill.day, entry_price := lot.price, exit_price := some fill.price,
    quantity := quantity, pnl := pnl,
    return_pct := if entry_notional = 0 then 0 else pnl / entry_notional,
    fees := quantity * (lot.fee_per_share + fill.fee_per_share) }

/-- `_open_row`. -/
def open_row (symbol : Ticker) (lot : Lot) : Row :=
  { symbol := symbol, side := lot.direction, entry_date := lot.day, exit_date := none,
    entry_price := lot.price, exit_price := none, quantity := lot.quantity, pnl := 0,
    return_pct := 0, fees := lot.quantity * lot.fee_per_share }

/-- The `while` loop of `pair_fills`: close opposing lots, oldest first. The
    result is the round trips, the lots left and the shares left. A lot that
    survives has used up the fill, and the loop ends there. -/
def close_lots (fill : Fill) : List Lot → ℚ → List Row × List Lot × ℚ
  | [], remaining => ([], [], remaining)
  | lot :: lots, remaining =>
      if eps < remaining ∧ lot.direction ≠ fill.direction then
        let matched := min remaining lot.quantity
        let row := round_trip lot fill matched
        if lot.quantity - matched ≤ eps then
          let (rows, lots, remaining) := close_lots fill lots (remaining - matched)
          (row :: rows, lots, remaining)
        else ([row], { lot with quantity := lot.quantity - matched } :: lots, remaining - matched)
      else ([], lot :: lots, remaining)

/-- The state of `pair_fills`: `open_lots` with its keys in order of first
    use, the round trips so far and the next `open_index`. -/
structure Pairing where
  symbols : List Ticker
  open_lots : Ticker → List Lot
  closed : List Row
  open_index : ℕ

/-- Functional update of one queue. -/
def set_lots (f : Ticker → List Lot) (t : Ticker) (lots : List Lot) : Ticker → List Lot :=
  fun u => if u = t then lots else f u

@[simp] theorem set_lots_self (f : Ticker → List Lot) (t : Ticker) (lots : List Lot) :
    set_lots f t lots t = lots := by
  simp [set_lots]

@[simp] theorem set_lots_ne (f : Ticker → List Lot) {t u : Ticker} (lots : List Lot)
    (h : u ≠ t) : set_lots f t lots u = f u := by
  simp [set_lots, h]

/-- One fill. -/
def pair_fill (s : Pairing) (fill : Fill) : Pairing :=
  let symbols := if fill.ticker ∈ s.symbols then s.symbols else s.symbols ++ [fill.ticker]
  let (rows, lots, remaining) := close_lots fill (s.open_lots fill.ticker) fill.quantity
  if eps < remaining then
    let lot := { direction := fill.direction, quantity := remaining, price := fill.price,
                 day := fill.day, fee_per_share := fill.fee_per_share,
                 open_index := s.open_index : Lot }
    { symbols := symbols
      open_lots := set_lots s.open_lots fill.ticker (lots ++ [lot])
      closed := s.closed ++ rows
      open_index := s.open_index + 1 }
  else
    { symbols := symbols
      open_lots := set_lots s.open_lots fill.ticker lots
      closed := s.closed ++ rows
      open_index := s.open_index }

def Pairing.start : Pairing where
  symbols := []
  open_lots := fun _ => []
  closed := []
  open_index := 0

/-- The fills, in the order of `_normalise`. -/
def pair_all (fills : List Fill) : Pairing := fills.foldl pair_fill .start

/-- `_with_ticker`: the lots left, in the order they opened. -/
def with_ticker (s : Pairing) : List (Ticker × Lot) :=
  (s.symbols.flatMap (fun t => (s.open_lots t).map (fun lot => (t, lot)))).insertionSort
    (fun a b => a.2.open_index ≤ b.2.open_index)

/-- A row with its place in the report. -/
structure TradeRow extends Row where
  seq : ℕ
  deriving DecidableEq, Repr

/-- `pair_fills`. -/
def pair_fills (fills : List RawFill) (market_zone : Option Zone) :
    Except PairingError (List TradeRow) := do
  let normalised ← normalise fills market_zone
  let s := pair_all normalised
  let rows := s.closed ++ (with_ticker s).map (fun x => open_row x.1 x.2)
  pure (rows.zipIdx.map (fun x => { toRow := x.1, seq := x.2 }))

/-! ### Marking the open rows -/

/-- An entry of `open_positions`. -/
structure OpenPosition where
  trade_seq : ℕ
  symbol : Ticker
  side : Direction
  quantity : ℚ
  entry_price : ℚ
  mark_price : Option ℚ
  unrealized_pnl : Option ℚ
  market_value : Option ℚ
  fees : ℚ
  deriving DecidableEq, Repr

/-- A mark that is missing, not finite or not positive is no mark. -/
def usable_mark : Option PyFloat → Option ℚ
  | some (.fin q) => if q ≤ 0 then none else some q
  | _ => none

/-- One open row, marked. -/
def open_position (final_prices : Ticker → Option PyFloat) (trade : TradeRow) : OpenPosition :=
  let mark := usable_mark (final_prices trade.symbol)
  { trade_seq := trade.seq, symbol := trade.symbol, side := trade.side,
    quantity := trade.quantity, entry_price := trade.entry_price, mark_price := mark,
    unrealized_pnl :=
      mark.map (fun mark => trade.side.sign * (mark - trade.entry_price) * trade.quantity),
    market_value := mark.map (fun mark => trade.side.sign * mark * trade.quantity),
    fees := trade.fees }

/-- `open_positions`. -/
def open_positions (trades : List TradeRow) (final_prices : Ticker → Option PyFloat) :
    List OpenPosition :=
  (trades.filter (fun trade => trade.exit_date = none)).map (open_position final_prices)

end Reporting
