import BacktestVisualizer.Engine.Values
import BacktestVisualizer.Framework.Text
import Mathlib.Data.List.Sort

/-! # The Sentiment Gate

  `engine/core/sentiment_gate.py`: a run with the gate on adds no long
  exposure to a ticker whose mean article score over the last seven days is
  below the threshold. The counter of blocked entries, which only the run
  report reads, is left out.
-/

namespace Engine

/-- `SENTIMENT_WINDOW`. -/
def sentiment_window : ℤ := 7 * day_us

/-- `VENDOR_TIMEZONE_EMBARGO`. -/
def vendor_timezone_embargo : ℤ := 5 * hour_us

/-- When an article published at a naive UTC time may first influence a bar. -/
def available_at (published_at : ℤ) : ℤ := published_at + vendor_timezone_embargo

/-- `SentimentGate`; a threshold outside [-1, 0] is refused at construction. -/
structure SentimentGate where
  threshold : ℚ
  threshold_range : -1 ≤ threshold ∧ threshold ≤ 0
  articles : List (Ticker × List (ℤ × ℚ))

/-- The order of `(available_at, score)` pairs. -/
def article_le (a b : ℤ × ℚ) : Prop := a.1 < b.1 ∨ a.1 = b.1 ∧ a.2 ≤ b.2

instance (a b : ℤ × ℚ) : Decidable (article_le a b) := inferInstanceAs (Decidable (_ ∨ _))

/-- The sorted articles kept under `ticker.upper()`; of two entries with one
    upper-case key the later one stays. -/
def SentimentGate.ordered (gate : SentimentGate) (ticker : Ticker) : List (ℤ × ℚ) :=
  match gate.articles.reverse.find? (fun entry =>
      Text.upper entry.1.symbol = Text.upper ticker.symbol) with
  | none => []
  | some (_, rows) => (rows.map (fun row => (available_at row.1, row.2))).insertionSort article_le

/-- `bisect_left` on a sorted list. -/
def bisect_left (times : List ℤ) (x : ℤ) : ℕ := (times.takeWhile (· < x)).length

/-- The running totals, from 0. -/
def running_totals (scores : List ℚ) : List ℚ := scores.scanl (· + ·) 0

/-- Mean score of the articles available in the seven days strictly before `moment`. -/
def SentimentGate.score_at (gate : SentimentGate) (ticker : Ticker) (moment : Moment) : ℚ :=
  let ordered := gate.ordered ticker
  let times := ordered.map Prod.fst
  let totals := running_totals (ordered.map Prod.snd)
  let now := moment.comparable
  let last := bisect_left times now
  let first := bisect_left times (now - sentiment_window)
  if last ≤ first then 0
  else (totals.getD last 0 - totals.getD first 0) / (last - first : ℕ)

/-- True when new long exposure in `ticker` is not allowed at `moment`. -/
def SentimentGate.blocks_long_entry (gate : SentimentGate) (ticker : Ticker)
    (moment : Moment) : Bool :=
  gate.score_at ticker moment < gate.threshold

end Engine
