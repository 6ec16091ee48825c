import BacktestVisualizer.Engine.SentimentGate
import BacktestVisualizer.Framework.Text
import BacktestVisualizer.Framework.Timeline

/-! # Point-in-Time Scores

  `workers/sentiment_gate_loader.py` reads the scored articles of a run's
  universe from a window around the run, and the gate answers from running
  totals and two binary searches. `score_is_point_in_time_mean` says that the
  answer is the plain mean over the whole news table.
-/

open Timeline

namespace Engine

/-! ### The loader -/

/-- A row of `public.news_sentiment`; `published_at` is naive UTC. -/
structure NewsRow where
  ticker : String
  published_at : Option ℤ
  sentiment_score : Option ℚ
  deriving DecidableEq, Repr

/-- What the loader raises. -/
inductive GateError where
  | unavailable
  | threshold
  deriving DecidableEq, Repr

/-- `_LOOKBACK` and `_LOOKAHEAD`. -/
def loader_lookback : ℤ := sentiment_window + vendor_timezone_embargo

def loader_lookahead : ℤ := vendor_timezone_embargo

/-- `ticker.strip().upper()`. -/
def normalized (ticker : Ticker) : String := Text.strip_upper ticker.symbol

/-- The key of a universe ticker. A ticker of blanks only has none; no ticker
    is looked up under the empty key. -/
def wanted_key (ticker : Ticker) : Option Ticker :=
  if h : normalized ticker ≠ "" then some ⟨normalized ticker, h⟩ else none

/-- The result rows of `_SCORES_SQL` for a ticker. -/
def read_scores (table : List NewsRow) (ticker : String) (first last : ℤ) : List (ℤ × ℚ) :=
  (table.filter (fun row => row.ticker = ticker)).filterMap (fun row =>
    match row.published_at, row.sentiment_score with
    | some published_at, some score =>
        if first ≤ published_at ∧ published_at ≤ last then some (published_at, score) else none
    | _, _ => none)

/-- `load_sentiment_gate`; a database that cannot be read is `none`. Dates are
    day numbers. -/
def load_sentiment_gate (threshold : ℚ) (tickers : List Ticker) (start_date end_date : ℤ)
    (database : Option (List NewsRow)) : Except GateError SentimentGate :=
  match database with
  | none => .error .unavailable
  | some table =>
      let window_start := start_date * day_us - loader_lookback
      let window_end := end_date * day_us + (day_us - 1) + loader_lookahead
      let wanted := (tickers.filterMap wanted_key).dedup
      let articles := wanted.map (fun t => (t, read_scores table t.symbol window_start window_end))
      if h : -1 ≤ threshold ∧ threshold ≤ 0 then
        .ok { threshold := threshold, threshold_range := h, articles := articles }
      else .error .threshold

/-! ### Running totals -/

theorem running_totals_getD (scores : List ℚ) {k : ℕ} (hk : k ≤ scores.length) :
    (running_totals scores).getD k 0 = (scores.take k).sum := by
  have hstart : ∀ (l : List ℚ) (k : ℕ) (a : ℚ), k ≤ l.length →
      (l.scanl (· + ·) a).getD k 0 = a + (l.take k).sum := by
    intro l
    induction l with
    | nil =>
      intro k a hk
      obtain rfl : k = 0 := Nat.le_zero.mp hk
      simp
    | cons x l ih =>
      intro k a hk
      cases k with
      | zero => simp
      | succ k =>
        rw [List.scanl_cons, List.getD_cons_succ, ih k (a + x) (by simpa using hk)]
        simp [add_assoc]
  rw [running_totals, hstart scores k 0 hk, zero_add]

/-- Two totals differ by the slice between them. -/
theorem running_totals_sub (scores : List ℚ) {i j : ℕ} (hij : i ≤ j) (hj : j ≤ scores.length) :
    (running_totals scores).getD j 0 - (running_totals scores).getD i 0 =
      ((scores.take j).drop i).sum := by
  rw [running_totals_getD scores hj, running_totals_getD scores (le_trans hij hj)]
  have hsplit : (scores.take j).sum = ((scores.take j).take i).sum + ((scores.take j).drop i).sum := by
    rw [← List.sum_append, List.take_append_drop]
  rw [hsplit, List.take_take, Nat.min_eq_left hij]
  ring

/-! ### The mean of a window -/

/-- The mean, and the neutral 0 of no scores. -/
def mean (scores : List ℚ) : ℚ := if scores = [] then 0 else scores.sum / scores.length

theorem mean_perm {l m : List ℚ} (h : l.Perm m) : mean l = mean m := by
  unfold mean
  by_cases hl : l = []
  · subst hl
    rw [List.nil_perm.mp h]
  · have hm : m ≠ [] := fun hm => hl (List.perm_nil.mp (hm ▸ h))
    rw [if_neg hl, if_neg hm, h.sum_eq, h.length_eq]

/-- The order of `(available_at, score)` pairs is the one of tuples. -/
theorem ordered_sorted (gate : SentimentGate) (ticker : Ticker) :
    Sorted Prod.fst (gate.ordered ticker) := by
  -- a total preorder by time and then by score
  have htrans : ∀ a b c : ℤ × ℚ, article_le a b → article_le b c → article_le a c := by
    intro a b c hab hbc
    unfold article_le at *
    rcases hab with hab | ⟨hab, hab'⟩
    · rcases hbc with hbc | ⟨hbc, _⟩
      · exact Or.inl (lt_trans hab hbc)
      · exact Or.inl (hbc ▸ hab)
    · rcases hbc with hbc | ⟨hbc, hbc'⟩
      · exact Or.inl (hab ▸ hbc)
      · exact Or.inr ⟨hab.trans hbc, le_trans hab' hbc'⟩
  have htotal : ∀ a b : ℤ × ℚ, article_le a b ∨ article_le b a := by
    intro a b
    unfold article_le
    rcases lt_trichotomy a.1 b.1 with h | h | h
    · exact Or.inl (Or.inl h)
    · rcases le_total a.2 b.2 with h' | h'
      · exact Or.inl (Or.inr ⟨h, h'⟩)
      · exact Or.inr (Or.inr ⟨h.symm, h'⟩)
    · exact Or.inr (Or.inl h)
  have : IsTrans (ℤ × ℚ) article_le := ⟨htrans⟩
  have : Std.Total article_le := ⟨htotal⟩
  have hle : ∀ a b : ℤ × ℚ, article_le a b → a.1 ≤ b.1 := by
    intro a b h
    rcases h with h | ⟨h, _⟩
    · exact le_of_lt h
    · exact le_of_eq h
  unfold SentimentGate.ordered
  split
  · exact List.Pairwise.nil
  · exact (List.pairwise_insertionSort article_le _).imp (fun h => hle _ _ h)

/-- **What the gate computes**: the mean of the articles it holds that became
    available in the seven days before the moment. -/
theorem score_at_eq_mean (gate : SentimentGate) (ticker : Ticker) (moment : Moment) :
    gate.score_at ticker moment =
      mean (((gate.ordered ticker).filter (fun a =>
        moment.comparable - sentiment_window ≤ a.1 ∧ a.1 < moment.comparable)).map Prod.snd) := by
  have hsorted := ordered_sorted gate ticker
  generalize hl : gate.ordered ticker = l at hsorted
  generalize hnow : moment.comparable = now
  have hbisect : ∀ x, bisect_left (l.map Prod.fst) x = searchsorted_left Prod.fst l x := by
    intro x
    unfold bisect_left searchsorted_left
    rw [List.takeWhile_map, List.length_map]
    rfl
  -- the articles of the window are the slice between the two positions
  have hslice := between_eq_filter hsorted (now - sentiment_window) now
  have hlast : searchsorted_left Prod.fst l now ≤ l.length := searchsorted_left_le l now
  unfold SentimentGate.score_at
  simp only [hl, hnow, hbisect]
  rw [← hslice]
  by_cases hnone : searchsorted_left Prod.fst l now ≤
      searchsorted_left Prod.fst l (now - sentiment_window)
  · rw [if_pos hnone, List.drop_eq_nil_of_le (le_trans (List.length_take_le _ _) hnone)]
    rfl
  · have hlt := not_le.mp hnone
    have hlen : ((l.take (searchsorted_left Prod.fst l now)).drop
        (searchsorted_left Prod.fst l (now - sentiment_window))).length =
        searchsorted_left Prod.fst l now -
          searchsorted_left Prod.fst l (now - sentiment_window) := by
      rw [List.length_drop, List.length_take, Nat.min_eq_left hlast]
    have hne : ((l.take (searchsorted_left Prod.fst l now)).drop
        (searchsorted_left Prod.fst l (now - sentiment_window))).map Prod.snd ≠ [] := by
      rw [← List.length_pos_iff, List.length_map, hlen]
      omega
    rw [if_neg hnone, mean, if_neg hne, running_totals_sub _ (le_of_lt hlt) (by simpa using hlast),
      ← List.map_take, ← List.map_drop, List.length_map, hlen]

/-! ### What the loader hands over -/

theorem wanted_key_symbol {t k : Ticker} (h : wanted_key t = some k) :
    k.symbol = normalized t ∧ Text.upper k.symbol = k.symbol := by
  unfold wanted_key at h
  split at h
  · rw [← Option.some.inj h]
    exact ⟨rfl, Text.upper_upper _⟩
  · exact absurd h (by simp)

/-- A ticker whose upper case is wanted gets the rows read for it. -/
theorem ordered_of_load {threshold : ℚ} {tickers : List Ticker} {start_date end_date : ℤ}
    {table : List NewsRow} {gate : SentimentGate}
    (hgate : load_sentiment_gate threshold tickers start_date end_date (some table) = .ok gate)
    {ticker : Ticker} (hticker : ∃ t ∈ tickers, Text.upper ticker.symbol = normalized t) :
    gate.ordered ticker = ((read_scores table (Text.upper ticker.symbol)
        (start_date * day_us - loader_lookback)
        (end_date * day_us + (day_us - 1) + loader_lookahead)).map
      (fun row => (available_at row.1, row.2))).insertionSort article_le := by
  unfold load_sentiment_gate at hgate
  simp only at hgate
  split at hgate
  · obtain rfl := Except.ok.inj hgate
    obtain ⟨t, ht, hupper⟩ := hticker
    -- the empty string is nobody's upper case
    have hne : normalized t ≠ "" := by
      rw [← hupper]
      exact Text.upper_ne_empty ticker.nonempty
    have hkey : wanted_key t = some ⟨normalized t, hne⟩ := dif_pos hne
    unfold SentimentGate.ordered
    simp only
    cases hfind : (((tickers.filterMap wanted_key).dedup.map (fun t => (t, read_scores table
        t.symbol (start_date * day_us - loader_lookback)
        (end_date * day_us + (day_us - 1) + loader_lookahead)))).reverse.find? (fun entry =>
          Text.upper entry.1.symbol = Text.upper ticker.symbol)) with
    | none =>
      have hmem : (⟨normalized t, hne⟩ : Ticker) ∈ (tickers.filterMap wanted_key).dedup :=
        List.mem_dedup.mpr (List.mem_filterMap.mpr ⟨t, ht, hkey⟩)
      have hnot := List.find?_eq_none.mp hfind _
        (List.mem_reverse.mpr (List.mem_map.mpr ⟨_, hmem, rfl⟩))
      refine absurd ?_ hnot
      simp only [decide_eq_true_eq]
      rw [(wanted_key_symbol hkey).2, hupper]
    | some entry =>
      obtain ⟨k, rows⟩ := entry
      have hin := List.mem_of_find?_eq_some hfind
      have hsame := List.find?_some hfind
      obtain ⟨k', hk', heq⟩ := List.mem_map.mp (List.mem_reverse.mp hin)
      obtain ⟨t', _, ht'⟩ := List.mem_filterMap.mp (List.mem_dedup.mp hk')
      obtain ⟨rfl, rfl⟩ := Prod.mk.inj heq
      simp only [decide_eq_true_eq] at hsame
      rw [(wanted_key_symbol ht').2] at hsame
      rw [hsame]
  · exact absurd hgate (by simp)

/-! ### The window of the loader -/

/-- New York, whose offset is between five and four hours behind UTC. -/
structure NewYork extends Zone where
  offset_bounds : ∀ w, -5 * hour_us ≤ offset_of_wall w ∧ offset_of_wall w ≤ -4 * hour_us

/-- The instant of a wall clock time on a date. -/
def NewYork.instant (ny : NewYork) (date time_of_day : ℤ) : ℤ :=
  date * day_us + time_of_day - ny.offset_of_wall (date * day_us + time_of_day)

/-- The scored articles of a ticker in a table that became available in the
    seven days before an instant. -/
def available_scores (table : List NewsRow) (ticker : String) (now : ℤ) : List ℚ :=
  (table.filter (fun row => row.ticker = ticker)).filterMap (fun row =>
    match row.published_at, row.sentiment_score with
    | some published_at, some score =>
        if now - sentiment_window ≤ available_at published_at ∧ available_at published_at < now then
          some score
        else none
    | _, _ => none)

/-- The window read around a run has every article of the window of a bar. -/
theorem available_scores_read {table : List NewsRow} {ticker : String} {first last now : ℤ}
    (hfirst : first + loader_lookback ≤ now) (hlast : now - vendor_timezone_embargo ≤ last) :
    (((read_scores table ticker first last).map (fun row => (available_at row.1, row.2))).filter
      (fun a => now - sentiment_window ≤ a.1 ∧ a.1 < now)).map Prod.snd =
      available_scores table ticker now := by
  unfold read_scores available_scores
  generalize table.filter (fun row => row.ticker = ticker) = rows
  induction rows with
  | nil => rfl
  | cons row rows ih =>
    rw [List.filterMap_cons, List.filterMap_cons]
    cases row.published_at with
    | none => exact ih
    | some published_at =>
      cases row.sentiment_score with
      | none => exact ih
      | some score =>
        simp only
        by_cases hwindow : now - sentiment_window ≤ available_at published_at ∧
            available_at published_at < now
        · have hread : first ≤ published_at ∧ published_at ≤ last := by
            unfold available_at loader_lookback at *
            omega
          -- what is available now was read, the window of the query being wider
          rw [if_pos hread, if_pos hwindow]
          simp only [List.map_cons]
          rw [List.filter_cons_of_pos (by simpa using hwindow), List.map_cons, ih]
        · rw [if_neg hwindow]
          by_cases hread : first ≤ published_at ∧ published_at ≤ last
          · rw [if_pos hread]
            simp only [List.map_cons]
            rw [List.filter_cons_of_neg (by simpa using hwindow), ih]
          · rw [if_neg hread]
            exact ih

/-- **Point-in-time scores.** On the gate loaded for a run, the score of a
    ticker of the universe, in any letter case, at an instant of the run is
    the mean of its scored articles in the whole table that became available
    in the seven days before; articles available later play no part. -/
theorem score_is_point_in_time_mean (ny : NewYork) {threshold : ℚ} {tickers : List Ticker}
    {start_date end_date : ℤ} {table : List NewsRow} {gate : SentimentGate}
    (hgate : load_sentiment_gate threshold tickers start_date end_date (some table) = .ok gate)
    {ticker : Ticker} (hticker : ∃ t ∈ tickers, Text.upper ticker.symbol = normalized t)
    {moment : Moment} (hstart : ny.instant start_date 0 ≤ moment.comparable)
    (hend : moment.comparable ≤ ny.instant end_date (16 * hour_us)) :
    gate.score_at ticker moment =
      mean (available_scores table (Text.upper ticker.symbol) moment.comparable) := by
  obtain ⟨hlow, hlow'⟩ := ny.offset_bounds (start_date * day_us + 0)
  obtain ⟨hhigh, hhigh'⟩ := ny.offset_bounds (end_date * day_us + 16 * hour_us)
  unfold NewYork.instant at hstart hend
  rw [score_at_eq_mean, ordered_of_load hgate hticker]
  have hperm := (List.perm_insertionSort article_le
    ((read_scores table (Text.upper ticker.symbol) (start_date * day_us - loader_lookback)
      (end_date * day_us + (day_us - 1) + loader_lookahead)).map
        (fun row => (available_at row.1, row.2))))
  rw [mean_perm ((hperm.filter _).map Prod.snd)]
  congr 1
  apply available_scores_read
  · unfold hour_us at *
    omega
  · unfold loader_lookahead vendor_timezone_embargo hour_us day_us at *
    omega

/-- A winter in New York. -/
def eastern_standard : NewYork where
  offset_at _ := -5 * hour_us
  offset_of_wall _ := -5 * hour_us
  offset_bounds _ := by decide

/-- Articles at both ends of the window that ends on the 20th day at 15:00 UTC. -/
def boundary_articles : List NewsRow :=
  [⟨"MSFT", some (20 * day_us + 10 * hour_us), some 1⟩,
    ⟨"MSFT", some (13 * day_us + 10 * hour_us), some (-1 / 2)⟩,
    ⟨"MSFT", some (13 * day_us + 10 * hour_us - 1), some 1⟩,
    ⟨"MSFT", some (14 * day_us), none⟩, ⟨"AAPL", some (14 * day_us), some 1⟩]

/-- An article whose embargo ends at the moment plays no part, nor does one
    that became available before the window; one at its first moment does. -/
theorem score_of_boundary_articles :
    ∃ gate : SentimentGate,
      load_sentiment_gate (-1 / 2) [⟨" msft", by decide⟩] 20 21 (some boundary_articles) =
        .ok gate ∧
      gate.score_at ⟨"Msft", by decide⟩ ⟨20 * day_us + 10 * hour_us, some (-5 * hour_us)⟩ =
        -1 / 2 := by
  have hload : ∃ gate, load_sentiment_gate (-1 / 2) [⟨" msft", by decide⟩] 20 21
      (some boundary_articles) = .ok gate := by
    unfold load_sentiment_gate
    exact ⟨_, dif_pos (by norm_num)⟩
  have hupper : Text.upper "Msft" = normalized ⟨" msft", by decide⟩ := by
    decide +kernel
  obtain ⟨gate, hgate⟩ := hload
  have hticker : ∃ t ∈ [(⟨" msft", by decide⟩ : Ticker)],
      Text.upper (⟨"Msft", by decide⟩ : Ticker).symbol = normalized t :=
    ⟨_, List.mem_singleton_self _, hupper⟩
  refine ⟨gate, hgate, ?_⟩
  rw [score_is_point_in_time_mean eastern_standard hgate hticker (by decide) (by decide)]
  decide +kernel

end Engine
