import BacktestVisualizer.Framework.PyFloat

/-! # Values of the Backtest Engine

  Tickers, moments and trade directions, as the engine and the reporting
  code pass them around.
-/

/-- A symbol. The empty string is not one (`_ticker` refuses it). -/
structure Ticker where
  symbol : String
  nonempty : symbol ≠ ""
  deriving DecidableEq, Repr

theorem aapl_nonempty : "AAPL" ≠ "" := by decide

theorem msft_nonempty : "MSFT" ≠ "" := by decide

/-! ### Moments -/

/-- Microseconds in an hour and in a day. -/
def hour_us : ℤ := 3600000000

def day_us : ℤ := 86400000000

/-- A `datetime`: its wall clock reading in microseconds, and the UTC offset
    of its time zone when it has one. -/
structure Moment where
  wall : ℤ
  utcoffset : Option ℤ
  deriving DecidableEq, Repr

/-- `_comparable` and `_to_naive_utc`: a naive datetime is taken as it is. -/
def Moment.comparable (m : Moment) : ℤ :=
  match m.utcoffset with
  | none => m.wall
  | some offset => m.wall - offset

/-- `.date()`, as the number of the day. -/
def Moment.date (m : Moment) : ℤ := m.wall / day_us

/-- A time zone: its UTC offset at a UTC instant and at a wall clock reading. -/
structure Zone where
  offset_at : ℤ → ℤ
  offset_of_wall : ℤ → ℤ

/-- `moment.astimezone(zone)` for an aware datetime, `moment.replace(tzinfo=zone)`
    for a naive one. -/
def Moment.in_zone (m : Moment) (zone : Zone) : Moment :=
  match m.utcoffset with
  | none => { wall := m.wall, utcoffset := some (zone.offset_of_wall m.wall) }
  | some offset =>
      let utc := m.wall - offset
      { wall := utc + zone.offset_at utc, utcoffset := some (zone.offset_at utc) }

/-! ### Directions -/

/-- What a signal compares equal to, in upper case. -/
inductive Signal where
  | buy
  | sell
  | hold
  | invalid
  deriving DecidableEq, Repr

/-- The side of a fill. -/
inductive Side where
  | buy
  | sell
  deriving DecidableEq, Repr

/-- A BUY adds shares, a SELL takes them away. -/
def Side.sign : Side → ℚ
  | .buy => 1
  | .sell => -1

@[simp] theorem Side.sign_buy : Side.buy.sign = 1 := rfl

@[simp] theorem Side.sign_sell : Side.sell.sign = -1 := rfl

/-- The side of an order that names one. -/
def Signal.side : Signal → Option Side
  | .buy => some .buy
  | .sell => some .sell
  | _ => none

/-- The signal that names a side. -/
def Side.signal : Side → Signal
  | .buy => .buy
  | .sell => .sell

@[simp] theorem Side.side_signal (side : Side) : side.signal.side = some side := by
  cases side with
  | buy => rfl
  | sell => rfl
