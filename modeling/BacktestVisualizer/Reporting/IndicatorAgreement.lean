import BacktestVisualizer.Engine.IndicatorStreams
import BacktestVisualizer.Reporting.TechnicalIndicators

/-! # The Engine's Indicators and the Dashboard's

  A strategy reads indicators that are updated bar by bar; the dashboard
  computes its indicators from all closes at once. Fed the same closes, both
  show the same numbers. They part in two places only: without any movement
  the engine's RSI is 100 and the dashboard's is 50, and against a zero close
  the engine shows no change where the dashboard raises.
-/

open Rolling TechnicalIndicators

namespace Engine

variable {period : ℕ} {closes : List ℚ}

/-- An indicator shows what the formula gives, and nothing where it raises. -/
def shown : Except TechnicalIndicators.IndicatorError ℚ → Reading
  | .ok value => .of value
  | .error _ => .none

/-! ### Moving averages -/

theorem mean_of_last_shown (h : 0 < period) (closes : List ℚ) :
    mean_of_last period closes = shown (simple_moving_average closes period) := by
  unfold mean_of_last simple_moving_average require_length
  by_cases hlength : period ≤ closes.length
  · have hslice : slice_from closes (-(period : ℤ)) = closes.rtake period := by
      unfold slice_from List.rtake
      rw [if_neg (by omega), neg_neg, Int.toNat_natCast]
    simp only [if_pos hlength, if_neg (not_lt.mpr hlength), bind, Except.bind]
    rw [if_neg (by omega), hslice]
    rfl
  · simp only [if_neg hlength, if_pos (not_le.mp hlength), bind, Except.bind]
    rfl

theorem getLast?_scanl {β : Type*} (f : β → ℚ → β) (b : β) (xs : List ℚ) :
    (xs.scanl f b).getLast? = some (xs.foldl f b) := by
  induction xs generalizing b with
  | nil => rfl
  | cons x xs ih => rw [List.scanl_cons, List.getLast?_cons, ih, Option.getD_some, List.foldl_cons]

theorem blended_shown (h : 0 < period) (closes : List ℚ) :
    Reading.of (ExponentialMovingAverage.blended period closes) =
      shown (ema_series closes period >>= TechnicalIndicators.last_value) := by
  unfold ema_series TechnicalIndicators.last_value
  rw [if_neg (by omega)]
  simp only [bind, Except.bind, getLast?_scanl]
  rfl

/-! ### Relative strength -/

/-- Both take the same differences. -/
theorem changes_of_eq (closes : List ℚ) : changes_of closes = lagged 1 difference closes := by
  unfold changes_of lagged
  rw [List.drop_one]
  rfl

/-- Both smooth them the same way. -/
theorem averages_of_eq {changes : List ℚ} (hlength : period ≤ changes.length) :
    averages_of period changes = ⟨(wilder period changes).gain, (wilder period changes).loss⟩ := by
  unfold averages_of wilder
  have hseed : seed_averages period (changes.take period) =
      ⟨(GainLoss.mean ((changes.take period).map gain_of) ((changes.take period).map loss_of)).gain,
        (GainLoss.mean ((changes.take period).map gain_of)
          ((changes.take period).map loss_of)).loss⟩ := by
    unfold seed_averages GainLoss.mean
    simp only [List.length_map, List.length_take, min_eq_left hlength]
    rfl
  rw [hseed]
  generalize GainLoss.mean _ _ = a
  induction changes.drop period generalizing a with
  | nil => rfl
  | cons change rest ih =>
    rw [List.foldl_cons, List.foldl_cons]
    exact ih (a.smooth period (gain_of change) (loss_of change))

/-- Nothing moved, as far as the averages remember. -/
def Flat (period : ℕ) (changes : List ℚ) : Prop :=
  (averages_of period changes).gain = 0 ∧ (averages_of period changes).loss = 0

theorem index_eq_rsi {a : GainLoss} (h : ¬ (a.gain = 0 ∧ a.loss = 0)) (hgain : 0 ≤ a.gain) :
    a.index = (⟨a.gain, a.loss⟩ : Averages).rsi := by
  unfold GainLoss.index Averages.rsi RSI_MAX
  by_cases hloss : a.loss = 0
  · have hpos : 0 < a.gain := lt_of_le_of_ne hgain (fun h0 => h ⟨h0.symm, hloss⟩)
    simp only [hloss, if_true, if_pos hpos]
  · simp only [if_neg hloss]

/-- A close for every change, and the seed is complete. -/
theorem length_changes (hlength : period + 1 ≤ closes.length) :
    period ≤ (changes_of closes).length := by
  rw [changes_of_eq, length_lagged]
  omega

theorem wilder_index_of_moving (h : 0 < period) (hlength : period + 1 ≤ closes.length)
    (hmoved : ¬ Flat period (changes_of closes)) :
    wilder_index period (lagged 1 difference closes) =
      shown (relative_strength_index closes period) := by
  have hchanges := length_changes hlength
  have haverages := averages_of_eq hchanges
  have hnonneg := averages_nonneg h (changes_of closes)
  rw [relative_strength_index_ok h hlength, ← changes_of_eq, wilder_index_full hchanges]
  unfold Flat at hmoved
  rw [haverages] at hmoved hnonneg ⊢
  rw [index_eq_rsi hmoved hnonneg.1]
  rfl

theorem wilder_index_of_flat (h : 0 < period) (hlength : period + 1 ≤ closes.length)
    (hflat : Flat period (changes_of closes)) :
    wilder_index period (lagged 1 difference closes) = .of 100 ∧
      relative_strength_index closes period = .ok 50 := by
  have hchanges := length_changes hlength
  have haverages := averages_of_eq hchanges
  rw [relative_strength_index_ok h hlength, ← changes_of_eq, wilder_index_full hchanges]
  obtain ⟨hgain, hloss⟩ := hflat
  constructor
  · rw [haverages] at hloss
    unfold GainLoss.index
    rw [if_pos hloss]
  · unfold Averages.rsi RSI_MAX
    rw [if_pos hloss, hgain, if_neg (lt_irrefl 0)]
    norm_num

theorem relative_strength_index_short (hlength : ¬ period + 1 ≤ closes.length) :
    ∃ e, relative_strength_index closes period = .error e := by
  unfold relative_strength_index require_length
  simp only [if_pos (not_le.mp hlength), bind, Except.bind]
  exact ⟨_, rfl⟩

/-- A positive average stays positive while the period is longer than one
    bar. -/
theorem smoothed_pos (hperiod : 2 ≤ period) {average gain : ℚ} (haverage : 0 < average)
    (hgain : 0 ≤ gain) : 0 < (average * (period - 1) + gain) / period := by
  have htwo : (2 : ℚ) ≤ period := by exact_mod_cast hperiod
  have hkept : 0 < average * ((period : ℚ) - 1) := mul_pos haverage (by linarith)
  exact div_pos (by linarith) (by linarith)

/-- Averages of changes that have all been zero. -/
theorem observe_flat (hperiod : 2 ≤ period) {a : Averages} (ha : a.Nonneg) (change : ℚ) :
    ((a.observe period change).gain = 0 ∧ (a.observe period change).loss = 0) ↔
      (a.gain = 0 ∧ a.loss = 0) ∧ change = 0 := by
  have hpos : (0 : ℚ) < period := by exact_mod_cast (by omega : 0 < period)
  unfold Averages.observe
  constructor
  · rintro ⟨hgain, hloss⟩
    have hgain0 : a.gain = 0 := by
      by_contra hne
      have hgt := smoothed_pos hperiod (lt_of_le_of_ne ha.1 (Ne.symm hne)) (le_max_right change 0)
      simp only at hgain
      linarith
    have hloss0 : a.loss = 0 := by
      by_contra hne
      have hgt := smoothed_pos hperiod (lt_of_le_of_ne ha.2 (Ne.symm hne))
        (le_max_right (-change) 0)
      simp only at hloss
      linarith
    simp only [hgain0, hloss0, zero_mul, zero_add, div_eq_zero_iff, ne_of_gt hpos, or_false,
      max_eq_right_iff] at hgain hloss
    exact ⟨⟨hgain0, hloss0⟩, by linarith⟩
  · rintro ⟨⟨hgain, hloss⟩, rfl⟩
    simp [hgain, hloss]

theorem sum_max_zero (f : ℚ → ℚ) (changes : List ℚ) :
    (changes.map (fun change => max (f change) 0)).sum = 0 ↔ ∀ change ∈ changes, f change ≤ 0 := by
  induction changes with
  | nil => simp
  | cons change changes ih =>
    have hrest : 0 ≤ (changes.map (fun change => max (f change) 0)).sum := by
      apply List.sum_nonneg
      intro x hx
      obtain ⟨change, _, rfl⟩ := List.mem_map.mp hx
      exact le_max_right _ _
    rw [List.map_cons, List.sum_cons, List.forall_mem_cons, ← ih,
      add_eq_zero_iff_of_nonneg (le_max_right _ _) hrest, max_eq_right_iff]

theorem seed_flat (h : 0 < period) (changes : List ℚ) :
    ((seed_averages period changes).gain = 0 ∧ (seed_averages period changes).loss = 0) ↔
      ∀ change ∈ changes, change = 0 := by
  have hne : (period : ℚ) ≠ 0 := by exact_mod_cast (by omega : period ≠ 0)
  unfold seed_averages
  simp only [div_eq_zero_iff, hne, or_false]
  rw [sum_max_zero (fun change => change), sum_max_zero (fun change => -change)]
  constructor
  · rintro ⟨hup, hdown⟩ change hmem
    have hle := hup change hmem
    have hge := hdown change hmem
    linarith
  · intro hzero
    constructor
    · intro change hmem
      rw [hzero change hmem]
    · intro change hmem
      rw [hzero change hmem, neg_zero]

/-- Over more than one bar the averages forget no movement. -/
theorem flat_iff (hperiod : 2 ≤ period) (changes : List ℚ) :
    Flat period changes ↔ ∀ change ∈ changes, change = 0 := by
  have hsplit : (∀ change ∈ changes, change = 0) ↔
      (∀ change ∈ changes.take period, change = 0) ∧ ∀ change ∈ changes.drop period, change = 0 := by
    rw [← List.forall_mem_append, List.take_append_drop]
  rw [hsplit, ← seed_flat (show 0 < period by omega)]
  unfold Flat averages_of
  have hseed := seed_averages_nonneg period (changes.take period)
  revert hseed
  generalize seed_averages period (changes.take period) = a
  intro ha
  induction changes.drop period generalizing a with
  | nil => simp
  | cons change rest ih =>
    have hone : 1 ≤ period := by omega
    rw [List.foldl_cons, List.forall_mem_cons, ← and_assoc, ← observe_flat hperiod ha]
    exact ih _ (ha.observe hone change)

/-! ### Momentum -/

/-- The last pair of a lagged stream. -/
theorem newest_lagged (h : 0 < period) (hlength : period + 1 ≤ closes.length) :
    ∃ base last, closes[closes.length - (period + 1)]? = some base ∧
      closes.getLast? = some last ∧
      newest (lagged period change_pct closes) = .of (change_pct base last) := by
  obtain ⟨xs, x, rfl⟩ : ∃ xs x, closes = xs ++ [x] := by
    rcases closes.eq_nil_or_concat' with rfl | ⟨xs, x, rfl⟩
    · rw [List.length_nil] at hlength
      omega
    · exact ⟨xs, x, rfl⟩
  rw [List.length_append, List.length_singleton] at hlength
  have hindex : xs.length + 1 - (period + 1) = xs.length - period := by omega
  have hlt : xs.length - period < xs.length := by omega
  refine ⟨xs[xs.length - period], x, ?_, List.getLast?_concat, ?_⟩
  · rw [List.length_append, List.length_singleton, hindex, List.getElem?_append_left (by omega),
      List.getElem?_eq_getElem]
  · rw [lagged_snoc h (by omega), newest_snoc]

theorem change_pct_shown (h : 0 < period) (hlength : period + 1 ≤ closes.length) :
    if closes[closes.length - (period + 1)]? = some 0 then
      newest (lagged period change_pct closes) = .of 0 ∧
        momentum closes period =
          .error (.value_error "Momentum is undefined against a zero close.")
    else
      newest (lagged period change_pct closes) =
        shown ((momentum closes period).map (100 * ·)) := by
  obtain ⟨base, last, hbase, hlast, hnewest⟩ := newest_lagged h hlength
  rw [hnewest, hbase]
  unfold momentum require_length
  simp only [if_neg (not_lt.mpr hlength), bind, Except.bind, hbase, hlast, Option.some.injEq]
  split
  · next hzero =>
    subst hzero
    exact ⟨rfl, rfl⟩
  · next hne =>
    show Reading.of (change_pct base last) = Reading.of (100 * (last / base - 1))
    unfold change_pct
    rw [if_pos hne]
    congr 1
    field_simp

theorem momentum_short (hlength : ¬ period + 1 ≤ closes.length) :
    newest (lagged period change_pct closes) = .none ∧ ∃ e, momentum closes period = .error e := by
  constructor
  · rw [lagged_short (by omega)]
    rfl
  · unfold momentum require_length
    simp only [if_pos (not_le.mp hlength), bind, Except.bind]
    exact ⟨_, rfl⟩

/-! ### Agreement -/

/-- What the engine's indicators show after the closes of a ticker, beside
    what the dashboard computes from them. -/
structure Agrees (period : ℕ) (h : 0 < period) (closes : List ℚ) : Prop where
  /-- The simple average is the same, and there is none over fewer closes. -/
  sma : (closes.foldl SimpleMovingAverage.update (.of h)).reading =
    shown (simple_moving_average closes period)
  /-- The exponential average is the last of the series. -/
  ema : (closes.foldl ExponentialMovingAverage.update (.of period)).reading =
    if period ≤ closes.length then
      shown (ema_series closes period >>= TechnicalIndicators.last_value)
    else .none
  /-- The strength index is the same unless nothing moved. -/
  rsi : ¬ Flat period (changes_of closes) →
    (closes.foldl RelativeStrengthIndex.update (.of period)).reading =
      shown (relative_strength_index closes period)
  rsi_flat : Flat period (changes_of closes) → period + 1 ≤ closes.length →
    (closes.foldl RelativeStrengthIndex.update (.of period)).reading = .of 100 ∧
      relative_strength_index closes period = .ok 50
  /-- For more than one bar: unless all closes are equal. -/
  rsi_moves : 2 ≤ period →
    (Flat period (changes_of closes) ↔ ∀ change ∈ changes_of closes, change = 0)
  /-- The rate of change is the momentum in percent unless the base is
      zero. -/
  roc : closes[closes.length - (period + 1)]? ≠ some 0 ∨ closes.length ≤ period →
    (closes.foldl RateOfChange.update (.of period)).reading =
      shown ((momentum closes period).map (100 * ·))
  roc_zero : closes[closes.length - (period + 1)]? = some 0 → period + 1 ≤ closes.length →
    (closes.foldl RateOfChange.update (.of period)).reading = .of 0 ∧
      momentum closes period =
        .error (.value_error "Momentum is undefined against a zero close.")

/-- **The engine and the dashboard agree** on every list of closes: the
    averages, the strength index and the rate of change updated bar by bar
    are those computed from all closes, but for a series that never moved and
    a base of zero. -/
theorem engine_agrees_with_dashboard (h : 0 < period) (closes : List ℚ) :
    Agrees period h closes where
  sma := by
    rw [SimpleMovingAverage.reading_after]
    exact mean_of_last_shown h closes
  ema := by
    rw [ExponentialMovingAverage.reading_after h, blended_shown h]
  rsi := by
    intro hmoved
    rw [RelativeStrengthIndex.reading_after h]
    by_cases hlength : period + 1 ≤ closes.length
    · exact wilder_index_of_moving h hlength hmoved
    · obtain ⟨e, he⟩ := relative_strength_index_short hlength
      rw [he, wilder_index_short (by rw [length_lagged]; omega)]
      rfl
  rsi_flat := by
    intro hflat hlength
    rw [RelativeStrengthIndex.reading_after h]
    exact wilder_index_of_flat h hlength hflat
  rsi_moves := by
    intro hperiod
    exact flat_iff hperiod _
  roc := by
    intro hbase
    rw [RateOfChange.after h]
    show newest (lagged period change_pct closes) = _
    by_cases hlength : period + 1 ≤ closes.length
    · have hne : closes[closes.length - (period + 1)]? ≠ some 0 := by
        rcases hbase with hbase | hshort
        · exact hbase
        · omega
      have hshown := change_pct_shown h hlength
      rw [if_neg hne] at hshown
      exact hshown
    · obtain ⟨hnone, e, he⟩ := momentum_short hlength
      rw [hnone, he]
      rfl
  roc_zero := by
    intro hbase hlength
    rw [RateOfChange.after h]
    have hshown := change_pct_shown h hlength
    rw [if_pos hbase] at hshown
    exact hshown

/-- Three closes over a period of two. -/
theorem agreement_on_three_closes : Agrees 2 Nat.two_pos [1, 2, 4] :=
  engine_agrees_with_dashboard Nat.two_pos [1, 2, 4]

end Engine
