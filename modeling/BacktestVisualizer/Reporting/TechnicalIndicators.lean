import Mathlib.Algebra.BigOperators.Group.List.Basic
import Mathlib.Tactic

/-! # Technical Indicators

  `services/technical_indicators.py`: the MACD histogram and Wilder's RSI over
  daily closes, oldest first, in exact arithmetic.

  `ema_at` says what an average is at every close, and the MACD is shown to
  subtract averages at the same close. The RSI is shown to turn around when
  the closes do.
-/

namespace TechnicalIndicators

inductive IndicatorError where
  /-- `ValueError`. -/
  | value_error (message : String)
  | zero_division
  | index_error
  deriving DecidableEq, Repr

def require_length (closes : List ℚ) (needed : ℕ) (name : String) :
    Except IndicatorError Unit :=
  let got := closes.length
  if got < needed then .error (.value_error s!"{name} needs at least {needed} closes, got {got}.")
  else .ok ()

/-! ### Moving averages -/

def smoothing (period : ℕ) : ℚ := 2 / (period + 1)

/-- One value after the seed. -/
def ema_step (period : ℕ) (ema value : ℚ) : ℚ :=
  value * smoothing period + ema * (1 - smoothing period)

/-- `_ema_series`. -/
def ema_series (values : List ℚ) (period : ℕ) : Except IndicatorError (List ℚ) :=
  if period = 0 then .error .zero_division
  else .ok ((values.drop period).scanl (ema_step period) ((values.take period).sum / period))

/-- `values[offset:]`. A negative offset counts from the end. -/
def slice_from (values : List ℚ) (offset : ℤ) : List ℚ :=
  if 0 ≤ offset then values.drop offset.toNat
  else values.drop (values.length - (-offset).toNat)

/-- `values[-1]`. -/
def last_value (values : List ℚ) : Except IndicatorError ℚ :=
  match values.getLast? with
  | none => .error .index_error
  | some value => .ok value

/-- The MACD line, aligned on the closes where both averages exist. -/
def macd_line (fast_series slow_series : List ℚ) (fast slow : ℕ) : List ℚ :=
  List.zipWith (fun fast_value slow_value => fast_value - slow_value)
    (slice_from fast_series (slow - fast)) slow_series

def macd_histogram (closes : List ℚ) (fast slow signal : ℕ) : Except IndicatorError ℚ := do
  require_length closes (slow + signal - 1) s!"MACD({fast},{slow},{signal})"
  let fast_series ← ema_series closes fast
  let slow_series ← ema_series closes slow
  let line := macd_line fast_series slow_series fast slow
  let signal_series ← ema_series line signal
  .ok ((← last_value line) - (← last_value signal_series))

/-! ### Gains and losses -/

def RSI_MAX : ℚ := 100
def RSI_MIN : ℚ := 0

/-- The average gain and the average loss. -/
structure Averages where
  gain : ℚ
  loss : ℚ
  deriving DecidableEq, Repr

/-- `current - previous` for every two neighbours. -/
def changes_of (closes : List ℚ) : List ℚ :=
  List.zipWith (fun previous current => current - previous) closes closes.tail

/-- The means over the first changes. -/
def seed_averages (period : ℕ) (changes : List ℚ) : Averages where
  gain := (changes.map (fun change => max change 0)).sum / period
  loss := (changes.map (fun change => max (-change) 0)).sum / period

/-- Wilder's average, one change more. -/
def Averages.observe (period : ℕ) (a : Averages) (change : ℚ) : Averages where
  gain := (a.gain * (period - 1) + max change 0) / period
  loss := (a.loss * (period - 1) + max (-change) 0) / period

def averages_of (period : ℕ) (changes : List ℚ) : Averages :=
  (changes.drop period).foldl (Averages.observe period) (seed_averages period (changes.take period))

/-- The RSI of two averages before it is clamped. -/
def Averages.rsi (a : Averages) : ℚ :=
  if a.loss = 0 then if 0 < a.gain then RSI_MAX else RSI_MAX / 2
  else RSI_MAX - RSI_MAX / (1 + a.gain / a.loss)

/-- `min(max(rsi, 0), 100)`; it is not done where there are no losses. -/
def Averages.clamped (a : Averages) : ℚ :=
  if a.loss = 0 then a.rsi else min (max a.rsi RSI_MIN) RSI_MAX

def relative_strength_index (closes : List ℚ) (period : ℕ) : Except IndicatorError ℚ := do
  require_length closes (period + 1) s!"RSI({period})"
  if period = 0 then .error .zero_division
  else .ok (averages_of period (changes_of closes)).clamped

/-! ### Trend and momentum -/

/-- `simple_moving_average`: the mean of the last closes. -/
def simple_moving_average (closes : List ℚ) (period : ℕ) : Except IndicatorError ℚ := do
  require_length closes period s!"SMA({period})"
  if period = 0 then .error .zero_division
  else .ok ((slice_from closes (-period)).sum / period)

def SMA_FAST_PERIOD : ℕ := 50
def SMA_SLOW_PERIOD : ℕ := 200

inductive Regime where
  | above
  | below
  deriving DecidableEq, Repr

/-- A tie counts as `below`. -/
def sma_regime (closes : List ℚ) : Except IndicatorError Regime := do
  let fast ← simple_moving_average closes SMA_FAST_PERIOD
  let slow ← simple_moving_average closes SMA_SLOW_PERIOD
  .ok (if slow < fast then .above else .below)

/-- The return over the last `period` sessions, as a ratio. -/
def momentum (closes : List ℚ) (period : ℕ) : Except IndicatorError ℚ := do
  require_length closes (period + 1) s!"momentum({period})"
  match closes[closes.length - (period + 1)]?, closes.getLast? with
  | some base, some last =>
      if base = 0 then .error (.value_error "Momentum is undefined against a zero close.")
      else .ok (last / base - 1)
  | _, _ => .error .index_error

/-! ### The average at a close -/

/-- The average seeded with the mean of the first `period` values, `k` values
    after the seed. -/
def ema_after (x : ℕ → ℚ) (period : ℕ) : ℕ → ℚ
  | 0 => ((List.range period).map x).sum / period
  | k + 1 => x (period + k) * (2 / (period + 1)) + ema_after x period k * (1 - 2 / (period + 1))

theorem ema_step_after (x : ℕ → ℚ) (period k : ℕ) :
    ema_step period (ema_after x period k) (x (period + k)) = ema_after x period (k + 1) := rfl

/-- The average at index `i`, for `period - 1 ≤ i`. -/
def ema_at (x : ℕ → ℚ) (period i : ℕ) : ℚ := ema_after x period (i + 1 - period)

/-- The MACD line at index `i`, for `slow - 1 ≤ i`. -/
def macd_at (x : ℕ → ℚ) (fast slow i : ℕ) : ℚ := ema_at x fast i - ema_at x slow i

theorem scanl_ema (x : ℕ → ℚ) (period k d : ℕ) :
    ((List.range' (period + k) d).map x).scanl (ema_step period) (ema_after x period k) =
      (List.range' k (d + 1)).map (ema_after x period) := by
  induction d generalizing k with
  | zero => simp
  | succ d ih =>
    rw [List.range'_succ, List.map_cons, List.scanl_cons, List.range'_succ, List.map_cons,
      ema_step_after]
    congr 1
    exact ih (k + 1)

/-- The series over the values `x 0`, ..., `x (n - 1)` has the average at each
    of them, from the seed on. -/
theorem ema_series_range (x : ℕ → ℚ) {n period : ℕ} (hperiod : 1 ≤ period) (hn : period ≤ n) :
    ema_series ((List.range n).map x) period =
      .ok ((List.range (n - period + 1)).map (ema_after x period)) := by
  unfold ema_series
  rw [if_neg (by omega)]
  have hseed : ((List.range n).map x).take period = (List.range period).map x := by
    rw [← List.map_take, List.take_range, min_eq_left hn]
  have hrest : ((List.range n).map x).drop period = (List.range' (period + 0) (n - period)).map x := by
    rw [← List.map_drop, List.range_eq_range', List.drop_range']
    simp
  have hseries := scanl_ema x period 0 (n - period)
  rw [← List.range_eq_range'] at hseries
  rw [hseed, hrest]
  exact congrArg Except.ok hseries

/-- The closes as a function of their index. -/
def close_at (closes : List ℚ) (i : ℕ) : ℚ := closes.getD i 0

theorem map_close_at (closes : List ℚ) :
    (List.range closes.length).map (close_at closes) = closes := by
  apply List.ext_getElem
  · simp
  · intro i _ hi
    simp [close_at, hi]

theorem last_value_range (f : ℕ → ℚ) (n : ℕ) :
    last_value ((List.range (n + 1)).map f) = .ok (f n) := by
  unfold last_value
  rw [List.range_succ, List.map_append, List.map_singleton, List.getLast?_concat]

/-! ### MACD -/

section Macd

variable {fast slow : ℕ}

/-- The line is the difference of the averages at the same close. -/
theorem macd_line_range (x : ℕ → ℚ) {n : ℕ} (hfast : 1 ≤ fast) (hslow : fast ≤ slow)
    (hn : slow ≤ n) :
    macd_line ((List.range (n - fast + 1)).map (ema_after x fast))
      ((List.range (n - slow + 1)).map (ema_after x slow)) fast slow =
      (List.range (n - slow + 1)).map (fun k => macd_at x fast slow (slow - 1 + k)) := by
  unfold macd_line slice_from
  rw [if_pos (by omega)]
  have hoffset : ((slow : ℤ) - fast).toNat = slow - fast := by omega
  rw [hoffset]
  apply List.ext_getElem
  · simp
    omega
  · intro k _ hk
    rw [List.length_map, List.length_range] at hk
    simp only [List.getElem_zipWith, List.getElem_drop, List.getElem_map, List.getElem_range]
    unfold macd_at ema_at
    have hfast_index : slow - 1 + k + 1 - fast = slow - fast + k := by omega
    have hslow_index : slow - 1 + k + 1 - slow = k := by omega
    rw [hfast_index, hslow_index]

/-- **The MACD histogram is aligned**: the averages of one close are
    subtracted, and so is the average of the whole line at the last close.
    What it averages or takes the last value of is there. -/
theorem macd_histogram_aligned {signal : ℕ} {closes : List ℚ} (hfast : 1 ≤ fast)
    (hslow : fast ≤ slow) (hsignal : 1 ≤ signal)
    (hlength : slow + signal - 1 ≤ closes.length) :
    ∃ fast_series slow_series,
      ema_series closes fast = .ok fast_series ∧ ema_series closes slow = .ok slow_series ∧
      macd_histogram closes fast slow signal =
        .ok (macd_at (close_at closes) fast slow (closes.length - 1) -
          ema_at (fun k => macd_at (close_at closes) fast slow (slow - 1 + k)) signal
            (closes.length - slow)) ∧
      macd_line fast_series slow_series fast slow =
        (List.range (closes.length - slow + 1)).map
          (fun k => macd_at (close_at closes) fast slow (slow - 1 + k)) ∧
      (closes.take fast).length = fast ∧ (closes.take slow).length = slow ∧
      slice_from fast_series (slow - fast) ≠ [] ∧
      ((macd_line fast_series slow_series fast slow).take signal).length = signal := by
  generalize hx : close_at closes = x
  have hcloses : closes = (List.range closes.length).map x := by
    rw [← hx, map_close_at]
  generalize hn : closes.length = n at *
  have hfast_series := ema_series_range x hfast (n := n) (by omega)
  have hslow_series := ema_series_range x (hfast.trans hslow) (n := n) (by omega)
  have hline := macd_line_range x hfast hslow (n := n) (by omega)
  rw [← hcloses] at hfast_series hslow_series
  refine ⟨_, _, hfast_series, hslow_series, ?_, hline, ?_, ?_, ?_, ?_⟩
  · unfold macd_histogram require_length
    simp only [hn, if_neg (not_lt.mpr hlength), hfast_series, hslow_series, bind, Except.bind, hline]
    have hsignal_series :=
      ema_series_range (fun k => macd_at x fast slow (slow - 1 + k)) hsignal
        (n := n - slow + 1) (by omega)
    rw [hsignal_series]
    have hrest : n - slow + 1 - signal + 1 = (n - slow + 1 - signal) + 1 := rfl
    simp only [last_value_range]
    have hlast : slow - 1 + (n - slow) = n - 1 := by omega
    rw [hlast]
    rfl
  · rw [List.length_take, hn]
    omega
  · rw [List.length_take, hn]
    omega
  · rw [← List.length_pos_iff]
    unfold slice_from
    rw [if_pos (by omega)]
    simp
    omega
  · rw [hline, List.length_take, List.length_map, List.length_range]
    omega

/-- A crossing at the last of three closes. -/
theorem macd_histogram_of_three :
    macd_histogram [1, 2, 4] 1 2 2 =
      .ok (macd_at (close_at [1, 2, 4]) 1 2 2 -
        ema_at (fun k => macd_at (close_at [1, 2, 4]) 1 2 (1 + k)) 2 1) := by
  have hlength : 2 + 2 - 1 ≤ ([1, 2, 4] : List ℚ).length := by decide
  obtain ⟨_, _, _, _, haligned, _⟩ :=
    macd_histogram_aligned (le_refl 1) (by decide : 1 ≤ 2) (by decide : 1 ≤ 2) hlength
  exact haligned

end Macd

/-! ### RSI -/

section Rsi

/-- Gains and losses change places. -/
def Averages.swap (a : Averages) : Averages := ⟨a.loss, a.gain⟩

/-- No average is negative. -/
def Averages.Nonneg (a : Averages) : Prop := 0 ≤ a.gain ∧ 0 ≤ a.loss

variable {period : ℕ} {a : Averages}

/-- The mirrored closes change the other way. -/
theorem changes_mirror (k : ℚ) (closes : List ℚ) :
    changes_of (closes.map (k - ·)) = (changes_of closes).map (fun change => -change) := by
  unfold changes_of
  apply List.ext_getElem
  · simp
  · intro i _ _
    simp only [List.getElem_zipWith, List.getElem_map, List.getElem_tail]
    ring

theorem seed_averages_neg (period : ℕ) (changes : List ℚ) :
    seed_averages period (changes.map (fun change => -change)) =
      (seed_averages period changes).swap := by
  unfold seed_averages Averages.swap
  simp only [List.map_map, Function.comp_def, neg_neg]

theorem observe_neg (period : ℕ) (a : Averages) (change : ℚ) :
    a.swap.observe period (-change) = (a.observe period change).swap := by
  unfold Averages.observe Averages.swap
  simp only [neg_neg]

theorem foldl_observe_neg (period : ℕ) (a : Averages) (changes : List ℚ) :
    (changes.map (fun change => -change)).foldl (Averages.observe period) a.swap =
      (changes.foldl (Averages.observe period) a).swap := by
  induction changes generalizing a with
  | nil => rfl
  | cons change changes ih =>
    rw [List.map_cons, List.foldl_cons, List.foldl_cons, observe_neg]
    exact ih (a.observe period change)

/-- **Both averages follow the same recursion**, one for the gains and one for
    the losses. -/
theorem averages_neg (period : ℕ) (changes : List ℚ) :
    averages_of period (changes.map (fun change => -change)) =
      (averages_of period changes).swap := by
  unfold averages_of
  rw [← List.map_drop, ← List.map_take, seed_averages_neg, foldl_observe_neg]

theorem seed_averages_nonneg (period : ℕ) (changes : List ℚ) :
    (seed_averages period changes).Nonneg := by
  have hsum : ∀ f : ℚ → ℚ, 0 ≤ (changes.map (fun change => max (f change) 0)).sum := by
    intro f
    apply List.sum_nonneg
    intro x hx
    obtain ⟨change, _, rfl⟩ := List.mem_map.mp hx
    exact le_max_right _ _
  exact ⟨div_nonneg (hsum fun change => change) (Nat.cast_nonneg period),
    div_nonneg (hsum fun change => -change) (Nat.cast_nonneg period)⟩

theorem Averages.Nonneg.observe (h : a.Nonneg) (hperiod : 1 ≤ period) (change : ℚ) :
    (a.observe period change).Nonneg := by
  have hpos : (0 : ℚ) ≤ period := Nat.cast_nonneg period
  have hrest : (0 : ℚ) ≤ period - 1 := by
    have hone : (1 : ℚ) ≤ period := by exact_mod_cast hperiod
    linarith
  have hgain := add_nonneg (mul_nonneg h.1 hrest) (le_max_right change 0)
  have hloss := add_nonneg (mul_nonneg h.2 hrest) (le_max_right (-change) 0)
  exact ⟨div_nonneg hgain hpos, div_nonneg hloss hpos⟩

theorem averages_nonneg (hperiod : 1 ≤ period) (changes : List ℚ) :
    (averages_of period changes).Nonneg := by
  unfold averages_of
  have hseed := seed_averages_nonneg period (changes.take period)
  revert hseed
  generalize seed_averages period (changes.take period) = a
  intro ha
  induction changes.drop period generalizing a with
  | nil => exact ha
  | cons change rest ih => exact ih _ (ha.observe hperiod change)

/-- Without the special cases there is one formula. -/
theorem rsi_of_loss (h : a.Nonneg) (hloss : a.loss ≠ 0) :
    a.rsi = RSI_MAX * (a.gain / (a.gain + a.loss)) := by
  have hpos : 0 < a.loss := lt_of_le_of_ne h.2 (Ne.symm hloss)
  have hsum : a.gain + a.loss ≠ 0 := ne_of_gt (add_pos_of_nonneg_of_pos h.1 hpos)
  have hone : 1 + a.gain / a.loss = (a.gain + a.loss) / a.loss := by
    field_simp
    ring
  unfold Averages.rsi
  rw [if_neg hloss, hone]
  field_simp
  ring

theorem rsi_mem (h : a.Nonneg) : 0 ≤ a.rsi ∧ a.rsi ≤ 100 := by
  by_cases hloss : a.loss = 0
  · unfold Averages.rsi RSI_MAX
    rw [if_pos hloss]
    split
    · norm_num
    · norm_num
  · have hpos : 0 < a.loss := lt_of_le_of_ne h.2 (Ne.symm hloss)
    have hsum : 0 < a.gain + a.loss := add_pos_of_nonneg_of_pos h.1 hpos
    have hshare : 0 ≤ a.gain / (a.gain + a.loss) := div_nonneg h.1 (le_of_lt hsum)
    have hshare' : a.gain / (a.gain + a.loss) ≤ 1 := by
      rw [div_le_one hsum]
      linarith
    rw [rsi_of_loss h hloss]
    unfold RSI_MAX
    constructor
    · linarith
    · linarith

/-- Clamping changes nothing. -/
theorem clamped_eq (h : a.Nonneg) : a.clamped = a.rsi := by
  obtain ⟨hlow, hhigh⟩ := rsi_mem h
  unfold Averages.clamped RSI_MIN RSI_MAX
  rw [max_eq_left hlow, min_eq_left hhigh, ite_self]

/-- The special cases agree with each other: no losses with no gains, and
    neither with neither. -/
theorem rsi_swap (h : a.Nonneg) : a.swap.rsi = 100 - a.rsi := by
  have hswap : a.swap.Nonneg := ⟨h.2, h.1⟩
  by_cases hloss : a.loss = 0
  · by_cases hgain : a.gain = 0
    · unfold Averages.rsi Averages.swap RSI_MAX
      simp only [hloss, hgain, if_true, lt_self_iff_false, if_false]
      norm_num
    · have hpos : 0 < a.gain := lt_of_le_of_ne h.1 (Ne.symm hgain)
      have hfull : a.rsi = 100 := by
        unfold Averages.rsi RSI_MAX
        rw [if_pos hloss, if_pos hpos]
      rw [rsi_of_loss hswap hgain, hfull]
      show RSI_MAX * (a.loss / (a.loss + a.gain)) = 100 - 100
      rw [hloss, zero_div, mul_zero, sub_self]
  · by_cases hgain : a.gain = 0
    · have hpos : 0 < a.loss := lt_of_le_of_ne h.2 (Ne.symm hloss)
      have hfull : a.swap.rsi = 100 := by
        unfold Averages.rsi Averages.swap RSI_MAX
        rw [if_pos hgain, if_pos hpos]
      rw [rsi_of_loss h hloss, hfull, hgain, zero_div, mul_zero, sub_zero]
    · have hpos : 0 < a.loss := lt_of_le_of_ne h.2 (Ne.symm hloss)
      have hsum : a.gain + a.loss ≠ 0 := ne_of_gt (add_pos_of_nonneg_of_pos h.1 hpos)
      rw [rsi_of_loss h hloss, rsi_of_loss hswap hgain]
      show RSI_MAX * (a.loss / (a.loss + a.gain)) = 100 - RSI_MAX * (a.gain / (a.gain + a.loss))
      unfold RSI_MAX
      rw [add_comm a.loss a.gain]
      field_simp
      ring

theorem relative_strength_index_ok {closes : List ℚ} (hperiod : 1 ≤ period)
    (hlength : period + 1 ≤ closes.length) :
    relative_strength_index closes period =
      .ok (averages_of period (changes_of closes)).rsi := by
  have hnonneg := averages_nonneg hperiod (changes_of closes)
  unfold relative_strength_index require_length
  simp only [if_neg (not_lt.mpr hlength), bind, Except.bind]
  rw [if_neg (by omega), clamped_eq hnonneg]

/-- **The RSI is bounded and mirror-symmetric.** It lies between 0 and 100
    before it is clamped, and it turns around with the closes. -/
theorem rsi_bounded_mirrored {closes : List ℚ} (hperiod : 1 ≤ period)
    (hlength : period + 1 ≤ closes.length) :
    ∃ rsi, (averages_of period (changes_of closes)).rsi = rsi ∧
      relative_strength_index closes period = .ok rsi ∧ 0 ≤ rsi ∧ rsi ≤ 100 ∧
      ∀ k, relative_strength_index (closes.map (k - ·)) period = .ok (100 - rsi) := by
  have hnonneg := averages_nonneg hperiod (changes_of closes)
  obtain ⟨hlow, hhigh⟩ := rsi_mem hnonneg
  refine ⟨_, rfl, relative_strength_index_ok hperiod hlength, hlow, hhigh, ?_⟩
  intro k
  have hlength' : period + 1 ≤ (closes.map (k - ·)).length := by
    rw [List.length_map]
    exact hlength
  rw [relative_strength_index_ok hperiod hlength', changes_mirror, averages_neg, rsi_swap hnonneg]

/-- Four closes over a period of two: gains and losses in the seed, and a step
    of the recursion after it. -/
theorem rsi_of_four_closes :
    relative_strength_index [5, 7, 6, 9] 2 = .ok (800 / 9) ∧
      relative_strength_index ([5, 7, 6, 9].map (10 - ·)) 2 = .ok (100 / 9) := by
  have hlength : 2 + 1 ≤ ([5, 7, 6, 9] : List ℚ).length := by decide
  have hvalue : relative_strength_index [5, 7, 6, 9] 2 = .ok (800 / 9) := by decide +kernel
  obtain ⟨rsi, _, hrsi, _, _, hmirror⟩ :=
    rsi_bounded_mirrored (by decide : 1 ≤ 2) hlength
  obtain rfl : (800 / 9 : ℚ) = rsi := Except.ok.inj (hvalue.symm.trans hrsi)
  refine ⟨hvalue, ?_⟩
  rw [hmirror 10]
  norm_num

end Rsi

end TechnicalIndicators
