import BacktestVisualizer.Data.SessionCloses
import BacktestVisualizer.Reporting.TechnicalIndicators

/-! # The Indicators of the Dashboard

  `services/market_context.py`: one row of indicators per ticker, at the last
  stored close of the ticker. `indicators_row` says when there is a row and
  what stays in its range, and that no article published after that close
  has a part in it.
-/

open TechnicalIndicators History

namespace MarketContext

/-! ### Sentiment -/

/-- `SENTIMENT_WINDOW`. -/
def SENTIMENT_WINDOW : ℤ := 7 * day_us

/-- An article: when it was published, and its score. -/
abbrev Article := ℤ × ℚ

/-- The mean of some scores, 0 without any. -/
def mean_score (scores : List ℚ) : ℚ := if scores = [] then 0 else scores.sum / scores.length

/-- The scores of the articles after one instant and up to another. -/
def scores_within (articles : List Article) (after upto : ℤ) : List ℚ :=
  (articles.filter (fun article => after < article.1 ∧ article.1 ≤ upto)).map Prod.snd

/-- `sentiment_window_scores`: the mean of a window, clamped, and its change
    against the window before. -/
def sentiment_window_scores (articles : List Article) (window_end : ℤ) : ℚ × ℚ :=
  let current_start := window_end - SENTIMENT_WINDOW
  let prior_start := current_start - SENTIMENT_WINDOW
  let current_mean := mean_score (scores_within articles current_start window_end)
  let prior_mean := mean_score (scores_within articles prior_start current_start)
  (min (max current_mean (-1)) 1, current_mean - prior_mean)

/-! ### Rows -/

def MIN_CLOSES : ℕ := SMA_SLOW_PERIOD
def RSI_PERIOD : ℕ := 14
def MACD_FAST_PERIOD : ℕ := 12
def MACD_SLOW_PERIOD : ℕ := 26
def MACD_SIGNAL_PERIOD : ℕ := 9
def MOMENTUM_PERIOD : ℕ := 20

/-- A row of the response. -/
structure TickerIndicators where
  ticker : Ticker
  last : ℚ
  change1d : ℚ
  rsi14 : ℚ
  macd_histogram : ℚ
  sma_regime : Regime
  momentum20d : ℚ
  sentiment7d : ℚ
  sentiment_delta7d : ℚ
  as_of : ℤ
  deriving DecidableEq, Repr

variable (clock : SessionClock)

/-- `build_indicators`. -/
def build_indicators (ticker : Ticker) (closes : List (ℤ × ℚ)) (articles : List Article) :
    Except IndicatorError (Option TickerIndicators) := do
  if closes.length < MIN_CLOSES then
    return none
  let prices := closes.map Prod.snd
  let as_of := (closes.getLast?.map Prod.fst).getD 0
  let (sentiment, sentiment_delta) := sentiment_window_scores articles (clock.session_close as_of)
  let last ← last_value prices
  let change1d ← momentum prices 1
  let rsi14 ← relative_strength_index prices RSI_PERIOD
  let macd ← macd_histogram prices MACD_FAST_PERIOD MACD_SLOW_PERIOD MACD_SIGNAL_PERIOD
  let regime ← sma_regime prices
  let momentum20d ← momentum prices MOMENTUM_PERIOD
  return some {
    ticker := ticker, last := last, change1d := change1d, rsi14 := rsi14, macd_histogram := macd
    sma_regime := regime, momentum20d := momentum20d, sentiment7d := sentiment
    sentiment_delta7d := sentiment_delta, as_of := as_of }

/-! ### What a row depends on -/

section Sentiment

variable {articles others : List Article}

/-- Both windows together. -/
def relevant (window_end : ℤ) (article : Article) : Bool :=
  window_end - 2 * SENTIMENT_WINDOW < article.1 ∧ article.1 ≤ window_end

theorem scores_within_relevant {window_end after upto : ℤ}
    (hafter : window_end - 2 * SENTIMENT_WINDOW ≤ after) (hupto : upto ≤ window_end) :
    scores_within (articles.filter (relevant window_end)) after upto =
      scores_within articles after upto := by
  unfold scores_within
  rw [List.filter_filter]
  congr 1
  apply List.filter_congr
  intro article _
  unfold relevant
  simp only [← Bool.decide_and, decide_eq_decide]
  constructor
  · intro h
    exact h.1
  · intro h
    refine ⟨h, ?_, ?_⟩
    · omega
    · omega

/-- Articles outside of the two windows do not matter. -/
theorem sentiment_relevant (window_end : ℤ) :
    sentiment_window_scores (articles.filter (relevant window_end)) window_end =
      sentiment_window_scores articles window_end := by
  have hwindow : (0 : ℤ) ≤ SENTIMENT_WINDOW := by decide
  unfold sentiment_window_scores
  simp only
  rw [scores_within_relevant (by omega) (by omega), scores_within_relevant (by omega) (by omega)]

theorem mean_score_perm {scores scores' : List ℚ} (h : scores.Perm scores') :
    mean_score scores = mean_score scores' := by
  unfold mean_score
  rw [h.sum_eq, h.length_eq]
  by_cases hnil : scores = []
  · subst hnil
    rw [List.nil_perm.mp h]
  · have hnil' : scores' ≠ [] := fun heq => hnil (List.perm_nil.mp (heq ▸ h))
    rw [if_neg hnil, if_neg hnil']

/-- Neither does their order. -/
theorem sentiment_perm (h : articles.Perm others) (window_end : ℤ) :
    sentiment_window_scores articles window_end = sentiment_window_scores others window_end := by
  have hscores : ∀ after upto, mean_score (scores_within articles after upto) =
      mean_score (scores_within others after upto) :=
    fun after upto => mean_score_perm ((h.filter _).map _)
  unfold sentiment_window_scores
  simp only [hscores]

variable (articles) in
theorem sentiment_range (window_end : ℤ) :
    -1 ≤ (sentiment_window_scores articles window_end).1 ∧
      (sentiment_window_scores articles window_end).1 ≤ 1 := by
  unfold sentiment_window_scores
  simp only
  constructor
  · exact le_min (le_max_right _ _) (by norm_num)
  · exact min_le_right _ _

end Sentiment

/-! ### When there is a row -/

section Rows

variable {prices : List ℚ}

/-- The base close of a momentum. -/
def base_close (prices : List ℚ) (period : ℕ) : Option ℚ := prices[prices.length - (period + 1)]?

theorem base_close_some {period : ℕ} (hlength : period + 1 ≤ prices.length) :
    ∃ base, base_close prices period = some base := by
  unfold base_close
  have hlt : prices.length - (period + 1) < prices.length := by omega
  exact ⟨prices[prices.length - (period + 1)], List.getElem?_eq_getElem hlt⟩

variable (prices) in
/-- A momentum is undefined against a zero close, and only then. -/
theorem momentum_cases (period : ℕ) (hlength : period + 1 ≤ prices.length) :
    (base_close prices period = some 0 ∧ momentum prices period =
      .error (.value_error "Momentum is undefined against a zero close.")) ∨
    (base_close prices period ≠ some 0 ∧ ∃ value, momentum prices period = .ok value) := by
  obtain ⟨base, hbase⟩ := base_close_some hlength
  have hne : prices ≠ [] := List.ne_nil_of_length_pos (by omega)
  have hlast : prices.getLast? = some (prices.getLast hne) := List.getLast?_eq_some_getLast hne
  have hguard : ¬ prices.length < period + 1 := by omega
  unfold base_close at hbase ⊢
  unfold momentum require_length
  simp only [if_neg hguard, bind, Except.bind, hbase, hlast]
  by_cases hzero : base = 0
  · left
    rw [if_pos hzero, hzero]
    exact ⟨rfl, rfl⟩
  · right
    rw [if_neg hzero]
    exact ⟨fun h => hzero (Option.some.inj h), _, rfl⟩

variable (prices) in
theorem simple_moving_average_ok {period : ℕ} (hperiod : 1 ≤ period)
    (hlength : period ≤ prices.length) : ∃ value, simple_moving_average prices period = .ok value := by
  unfold simple_moving_average require_length
  simp only [if_neg (not_lt.mpr hlength), bind, Except.bind]
  rw [if_neg (by omega)]
  exact ⟨_, rfl⟩

theorem sma_regime_ok (hlength : MIN_CLOSES ≤ prices.length) :
    ∃ regime, sma_regime prices = .ok regime := by
  have hmin : MIN_CLOSES = 200 := rfl
  obtain ⟨fast, hfast⟩ := simple_moving_average_ok prices
    (show 1 ≤ SMA_FAST_PERIOD by decide) (show 50 ≤ prices.length by omega)
  obtain ⟨slow, hslow⟩ := simple_moving_average_ok prices
    (show 1 ≤ SMA_SLOW_PERIOD by decide) (show 200 ≤ prices.length by omega)
  unfold sma_regime
  rw [hfast, hslow]
  exact ⟨_, rfl⟩

/-- The row of enough closes, once the momenta are known. -/
theorem build_indicators_full (ticker : Ticker) {closes : List (ℤ × ℚ)} (articles : List Article)
    (hlength : MIN_CLOSES ≤ closes.length) :
    ∃ as_of last rsi macd regime, closes.getLast? = some (as_of, last) ∧ 0 ≤ rsi ∧ rsi ≤ 100 ∧
      build_indicators clock ticker closes articles =
        (do let change1d ← momentum (closes.map Prod.snd) 1
            let momentum20d ← momentum (closes.map Prod.snd) MOMENTUM_PERIOD
            return some {
              ticker := ticker, last := last, change1d := change1d, rsi14 := rsi
              macd_histogram := macd, sma_regime := regime, momentum20d := momentum20d
              sentiment7d := (sentiment_window_scores articles (clock.session_close as_of)).1
              sentiment_delta7d := (sentiment_window_scores articles (clock.session_close as_of)).2
              as_of := as_of }) := by
  have hmin : MIN_CLOSES = 200 := rfl
  generalize hprices : closes.map Prod.snd = prices
  have hcount : prices.length = closes.length := by
    rw [← hprices, List.length_map]
  have hne : closes ≠ [] := List.ne_nil_of_length_pos (by omega)
  obtain ⟨⟨as_of, last⟩, hlast⟩ : ∃ point, closes.getLast? = some point :=
    ⟨_, List.getLast?_eq_some_getLast hne⟩
  have hprice : last_value prices = .ok last := by
    unfold last_value
    rw [← hprices, List.getLast?_map, hlast]
    rfl
  have hperiod : 1 ≤ RSI_PERIOD := by decide
  have hlong : RSI_PERIOD + 1 ≤ prices.length := by
    show 14 + 1 ≤ prices.length
    omega
  have hrsi := relative_strength_index_ok hperiod hlong
  obtain ⟨hlow, hhigh⟩ := rsi_mem (averages_nonneg hperiod (changes_of prices))
  have hlonger : MACD_SLOW_PERIOD + MACD_SIGNAL_PERIOD - 1 ≤ prices.length := by
    show 26 + 9 - 1 ≤ prices.length
    omega
  obtain ⟨_, _, _, _, haligned, _⟩ := macd_histogram_aligned
    (show 1 ≤ MACD_FAST_PERIOD by decide) (show MACD_FAST_PERIOD ≤ MACD_SLOW_PERIOD by decide)
    (show 1 ≤ MACD_SIGNAL_PERIOD by decide) hlonger
  obtain ⟨macd, hmacd⟩ : ∃ macd, macd_histogram prices MACD_FAST_PERIOD MACD_SLOW_PERIOD
      MACD_SIGNAL_PERIOD = .ok macd := ⟨_, haligned⟩
  have hlongest : MIN_CLOSES ≤ prices.length := by omega
  obtain ⟨regime, hregime⟩ := sma_regime_ok hlongest
  refine ⟨as_of, last, _, macd, regime, hlast, hlow, hhigh, ?_⟩
  unfold build_indicators
  simp only [if_neg (not_lt.mpr hlength), hlast, hprices, hprice, hrsi, hmacd, hregime, bind,
    Except.bind, pure, Except.pure, Option.map_some, Option.getD_some]

theorem build_indicators_short {ticker : Ticker} {closes : List (ℤ × ℚ)} {articles : List Article}
    (hlength : closes.length < MIN_CLOSES) :
    build_indicators clock ticker closes articles = .ok none := by
  unfold build_indicators
  rw [if_pos hlength]
  rfl

/-- The articles only enter through the scores of the two windows. -/
theorem build_indicators_articles {ticker : Ticker} {closes : List (ℤ × ℚ)}
    {articles others : List Article}
    (h : ∀ as_of last, closes.getLast? = some (as_of, last) →
      sentiment_window_scores articles (clock.session_close as_of) =
        sentiment_window_scores others (clock.session_close as_of)) :
    build_indicators clock ticker closes articles =
      build_indicators clock ticker closes others := by
  unfold build_indicators
  cases hlast : closes.getLast? with
  | none =>
    -- no closes at all
    rw [List.getLast?_eq_none_iff.mp hlast]
    rfl
  | some point =>
    obtain ⟨as_of, last⟩ := point
    simp only [Option.map_some, Option.getD_some, h as_of last hlast]

/-- **The indicators of a ticker.** There is no row below 200 closes; with
    them there is one unless a momentum has a zero close for its base, which
    is the only thing that can raise. The row stands at the last close, its
    RSI lies between 0 and 100 and its sentiment between -1 and 1. It depends
    on no article outside of the two weeks before that close, and not on
    their order: news that came after the prices never counts. -/
theorem indicators_row (ticker : Ticker) (closes : List (ℤ × ℚ)) (articles : List Article) :
    (closes.length < 200 → build_indicators clock ticker closes articles = .ok none) ∧
    (200 ≤ closes.length →
      base_close (closes.map Prod.snd) 1 = some 0 ∨ base_close (closes.map Prod.snd) 20 = some 0 →
      build_indicators clock ticker closes articles =
        .error (.value_error "Momentum is undefined against a zero close.")) ∧
    (200 ≤ closes.length → base_close (closes.map Prod.snd) 1 ≠ some 0 →
      base_close (closes.map Prod.snd) 20 ≠ some 0 →
      ∃ row, build_indicators clock ticker closes articles = .ok (some row) ∧
        row.ticker = ticker ∧ closes.getLast? = some (row.as_of, row.last) ∧
        0 ≤ row.rsi14 ∧ row.rsi14 ≤ 100 ∧ -1 ≤ row.sentiment7d ∧ row.sentiment7d ≤ 1) ∧
    ∀ others, (∀ as_of last, closes.getLast? = some (as_of, last) →
        (articles.filter (relevant (clock.session_close as_of))).Perm
          (others.filter (relevant (clock.session_close as_of)))) →
      build_indicators clock ticker closes articles =
        build_indicators clock ticker closes others := by
  refine ⟨fun h => build_indicators_short clock h, ?_, ?_, ?_⟩
  · intro hlength hbase
    obtain ⟨as_of, last, rsi, macd, regime, _, _, _, hbuild⟩ :=
      build_indicators_full clock ticker articles hlength
    have hcount : (closes.map Prod.snd).length = closes.length := List.length_map _
    rw [hbuild]
    rcases momentum_cases (closes.map Prod.snd) 1 (by omega) with
      ⟨_, hone⟩ | ⟨hone, change1d, hchange⟩
    · rw [hone]
      rfl
    · rcases momentum_cases (closes.map Prod.snd) MOMENTUM_PERIOD
        (show 20 + 1 ≤ _ by omega) with ⟨_, htwenty⟩ | ⟨htwenty, _⟩
      · rw [hchange, htwenty]
        rfl
      · rcases hbase with hzero | hzero
        · exact absurd hzero hone
        · exact absurd hzero htwenty
  · intro hlength hone htwenty
    obtain ⟨as_of, last, rsi, macd, regime, hlast, hlow, hhigh, hbuild⟩ :=
      build_indicators_full clock ticker articles hlength
    have hcount : (closes.map Prod.snd).length = closes.length := List.length_map _
    rcases momentum_cases (closes.map Prod.snd) 1 (by omega) with
      ⟨hzero, _⟩ | ⟨_, change1d, hchange⟩
    · exact absurd hzero hone
    rcases momentum_cases (closes.map Prod.snd) MOMENTUM_PERIOD
      (show 20 + 1 ≤ _ by omega) with ⟨hzero, _⟩ | ⟨_, momentum20d, hmomentum⟩
    · exact absurd hzero htwenty
    rw [hbuild, hchange, hmomentum]
    obtain ⟨hsentiment, hsentiment'⟩ := sentiment_range articles
      (clock.session_close as_of)
    exact ⟨_, rfl, rfl, hlast, hlow, hhigh, hsentiment, hsentiment'⟩
  · intro others hperm
    apply build_indicators_articles
    intro as_of last hlast
    rw [← sentiment_relevant, sentiment_perm (hperm as_of last hlast), sentiment_relevant]

end Rows

end MarketContext
