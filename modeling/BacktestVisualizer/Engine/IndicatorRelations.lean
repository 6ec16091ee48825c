import BacktestVisualizer.Engine.IndicatorStreams
import BacktestVisualizer.Framework.Fallible

/-! # How the Indicators Relate

  The indicators are separate classes with separate state. Over every stream,
  the displaced average repeats the simple one with a delay, the momentum
  index of one bar is the strength index, and no average of prices leaves the
  prices it has seen.
-/

open Rolling

namespace Engine

variable {period : ℕ}

/-! ### Displacement -/

section Displaced

theorem SimpleMovingAverage.init_eq (h : 0 < period) :
    SimpleMovingAverage.init (some period) = .ok (.of h) := by
  cases period with
  | zero => omega
  | succ n => rfl

/-- What the displaced average shows after a stream, or what it raises. -/
def displaced_reading (period displacement : ℤ) (xs : List ℚ) :
    Except IndicatorError Reading := do
  let s ← DisplacedMovingAverage.init period displacement
  let s ← xs.foldlM DisplacedMovingAverage.update s
  .ok s.reading

theorem displaced_reading_eq (h : 0 < period) (displacement : ℕ) (xs : List ℚ) :
    displaced_reading period displacement xs =
      .ok (mean_of_last period (xs.rdrop displacement)) := by
  unfold displaced_reading
  rw [DisplacedMovingAverage.init_eq h]
  show (do let s ← xs.foldlM DisplacedMovingAverage.update (.of period displacement)
           Except.ok s.reading) = _
  rw [DisplacedMovingAverage.after h]
  rfl

/-- A buffer that is read past its end. -/
theorem mapM_deque_item_error {buffer : List ℚ} {n : ℕ} (h : buffer.length < n) :
    (List.range n).mapM (fun (k : ℕ) => deque_item buffer k) = .error .index_error := by
  induction n with
  | zero => omega
  | succ n ih =>
    rw [List.range_succ, List.mapM_append]
    by_cases hn : buffer.length < n
    · rw [ih hn]
      rfl
    · have hitem : deque_item buffer n = .error .index_error := by
        unfold deque_item
        rw [if_pos (by omega), List.getElem?_eq_none (by omega)]
      rw [mapM_deque_item (not_lt.mp hn), List.mapM_cons, hitem]
      rfl

variable {s : DisplacedMovingAverage}

/-- A window that would end after the newest point is not there. -/
theorem past_window_ahead {buffer : List ℚ} (hahead : s.displacement < 0)
    (hlength : (buffer.length : ℤ) = s.period + s.displacement) :
    s.past_window buffer = .error .index_error := by
  unfold DisplacedMovingAverage.past_window
  have hstart : (buffer.length : ℤ) - s.displacement - s.period = 0 := by omega
  simp only [hstart, zero_add]
  exact mapM_deque_item_error (by omega)

/-- Until its buffer is full the average only collects points; then it
    raises. -/
theorem displaced_ahead (hahead : s.displacement < 0)
    (hmaxlen : (s.maxlen : ℤ) = s.period + s.displacement) {xs : List ℚ} (hne : xs ≠ [])
    (hfull : s.maxlen ≤ s.price_buffer.length + xs.length)
    (hroom : s.price_buffer.length ≤ s.maxlen) :
    xs.foldlM DisplacedMovingAverage.update s = .error .index_error := by
  induction xs generalizing s with
  | nil => exact absurd rfl hne
  | cons x xs ih =>
    rw [List.length_cons] at hfull
    have hpush : (push s.maxlen s.price_buffer x).length =
        min s.maxlen (s.price_buffer.length + 1) := by
      unfold push
      rw [length_rtake, List.length_append, List.length_singleton]
    rw [List.foldlM_cons]
    unfold DisplacedMovingAverage.update
    simp only
    by_cases hlast : (push s.maxlen s.price_buffer x).length = s.maxlen
    · rw [if_pos hlast, past_window_ahead hahead (by omega)]
      rfl
    · rw [if_neg hlast]
      show xs.foldlM DisplacedMovingAverage.update
        { s with price_buffer := push s.maxlen s.price_buffer x } = _
      apply ih
      · exact hahead
      · exact hmaxlen
      · intro hnil
        rw [hnil, List.length_nil] at hfull
        omega
      · show s.maxlen ≤ (push s.maxlen s.price_buffer x).length + xs.length
        omega
      · show (push s.maxlen s.price_buffer x).length ≤ s.maxlen
        omega

/-- Whatever it is fed, it never shows a value. -/
theorem displaced_ahead_silent (hahead : s.displacement < 0)
    (hmaxlen : (s.maxlen : ℤ) = s.period + s.displacement) {xs : List ℚ}
    {s' : DisplacedMovingAverage} (h : xs.foldlM DisplacedMovingAverage.update s = .ok s') :
    s'.reading = s.reading := by
  induction xs generalizing s with
  | nil => rw [← Except.ok.inj h]
  | cons x xs ih =>
    rw [List.foldlM_cons] at h
    obtain ⟨next, hnext, hrest⟩ := Fallible.bind_ok h
    unfold DisplacedMovingAverage.update at hnext
    simp only at hnext
    by_cases hlast : (push s.maxlen s.price_buffer x).length = s.maxlen
    · rw [if_pos hlast, past_window_ahead hahead (by omega)] at hnext
      exact absurd hnext (by simp [bind, Except.bind])
    · rw [if_neg hlast] at hnext
      obtain rfl := Except.ok.inj hnext
      exact ih (s := { s with price_buffer := push s.maxlen s.price_buffer x }) hahead hmaxlen hrest

/-- **The displaced average lags.** For every stream it shows what a simple
    moving average showed `displacement` points before the end. A negative
    displacement, which would look ahead, gives no value: it is refused, it
    waits for its buffer, or the full buffer raises. -/
theorem displaced_average_lags (h : 0 < period) (displacement : ℕ) (xs : List ℚ) :
    (∃ sma, SimpleMovingAverage.init (some period) = .ok sma ∧
      displaced_reading period displacement xs =
        .ok ((xs.rdrop displacement).foldl SimpleMovingAverage.update sma).reading) ∧
    (0 < displacement → xs ≠ [] → period ≤ xs.length + displacement →
      ∃ e, displaced_reading period (-displacement) xs = .error e) ∧
    (0 < displacement → ∀ r, displaced_reading period (-displacement) xs = .ok r → r = .none) := by
  refine ⟨?_, ?_, ?_⟩
  · refine ⟨.of h, SimpleMovingAverage.init_eq h, ?_⟩
    rw [displaced_reading_eq h, SimpleMovingAverage.reading_after]
  · intro hpos hne hlength
    unfold displaced_reading DisplacedMovingAverage.init positive_period maxlen_of
    simp only [Int.toNat_natCast, dif_pos h, bind, Except.bind]
    by_cases hrefused : (period : ℤ) + -displacement < 0
    · rw [if_pos hrefused]
      exact ⟨_, rfl⟩
    · rw [if_neg hrefused]
      simp only
      rw [displaced_ahead]
      · exact ⟨_, rfl⟩
      · show -(displacement : ℤ) < 0
        omega
      · show (((period : ℤ) + -displacement).toNat : ℤ) = period + -displacement
        omega
      · exact hne
      · show ((period : ℤ) + -displacement).toNat ≤ 0 + xs.length
        omega
      · exact Nat.zero_le _
  · intro hpos r hr
    unfold displaced_reading DisplacedMovingAverage.init positive_period maxlen_of at hr
    simp only [Int.toNat_natCast, dif_pos h, bind, Except.bind] at hr
    by_cases hrefused : (period : ℤ) + -displacement < 0
    · rw [if_pos hrefused] at hr
      exact absurd hr (by simp)
    · rw [if_neg hrefused] at hr
      obtain ⟨s', hs', hreading⟩ := Fallible.bind_ok hr
      rw [← Except.ok.inj hreading]
      apply displaced_ahead_silent _ _ hs'
      · show -(displacement : ℤ) < 0
        omega
      · show (((period : ℤ) + -displacement).toNat : ℤ) = period + -displacement
        omega

/-- Three points, displaced by one. -/
theorem displaced_average_of_three :
    ∃ sma, SimpleMovingAverage.init (some 2) = .ok sma ∧
      displaced_reading 2 1 [1, 3, 8] =
        .ok (([1, 3, 8].rdrop 1).foldl SimpleMovingAverage.update sma).reading :=
  (displaced_average_lags (by decide : 0 < 2) 1 [1, 3, 8]).1

end Displaced

/-! ### Indices -/

section Indices

/-- The shown value, if there is one, lies between two bounds. -/
def Reading.Within (lo hi : ℚ) (r : Reading) : Prop :=
  ∀ value, r.current_value = some value → lo ≤ value ∧ value ≤ hi

theorem Reading.within_none (lo hi : ℚ) : Reading.none.Within lo hi := by
  intro value h
  cases h

theorem Reading.within_of {lo hi value : ℚ} (h : lo ≤ value ∧ value ≤ hi) :
    (Reading.of value).Within lo hi := by
  intro shown hshown
  obtain rfl : value = shown := Option.some.inj hshown
  exact h

/-- Neither average is negative. -/
def GainLoss.Nonneg (a : GainLoss) : Prop := 0 ≤ a.gain ∧ 0 ≤ a.loss

theorem GainLoss.nonneg_mean {gains losses : List ℚ} (hgains : ∀ x ∈ gains, 0 ≤ x)
    (hlosses : ∀ x ∈ losses, 0 ≤ x) : (GainLoss.mean gains losses).Nonneg :=
  ⟨div_nonneg (List.sum_nonneg hgains) (Nat.cast_nonneg _),
    div_nonneg (List.sum_nonneg hlosses) (Nat.cast_nonneg _)⟩

theorem GainLoss.Nonneg.smooth {a : GainLoss} (ha : a.Nonneg) (h : 0 < period) {gain loss : ℚ}
    (hgain : 0 ≤ gain) (hloss : 0 ≤ loss) : (a.smooth period gain loss).Nonneg := by
  have hone : (1 : ℚ) ≤ period := by exact_mod_cast h
  have hrest : (0 : ℚ) ≤ period - 1 := by linarith
  have hperiod : (0 : ℚ) ≤ period := Nat.cast_nonneg _
  exact ⟨div_nonneg (add_nonneg (mul_nonneg ha.1 hrest) hgain) hperiod,
    div_nonneg (add_nonneg (mul_nonneg ha.2 hrest) hloss) hperiod⟩

theorem wilder_nonneg (h : 0 < period) (changes : List ℚ) : (wilder period changes).Nonneg := by
  have hgain : ∀ change, 0 ≤ gain_of change := fun change => le_max_right _ _
  have hloss : ∀ change, 0 ≤ loss_of change := fun change => le_max_right _ _
  unfold wilder
  have hseed : (GainLoss.mean ((changes.take period).map gain_of)
      ((changes.take period).map loss_of)).Nonneg := by
    apply GainLoss.nonneg_mean
    · simp only [List.mem_map, forall_exists_index, and_imp, forall_apply_eq_imp_iff₂, hgain,
        implies_true]
    · simp only [List.mem_map, forall_exists_index, and_imp, forall_apply_eq_imp_iff₂, hloss,
        implies_true]
  revert hseed
  generalize GainLoss.mean _ _ = a
  intro ha
  induction changes.drop period generalizing a with
  | nil => exact ha
  | cons change rest ih => exact ih _ (ha.smooth h (hgain change) (hloss change))

theorem GainLoss.index_range {a : GainLoss} (ha : a.Nonneg) : 0 ≤ a.index ∧ a.index ≤ 100 := by
  unfold GainLoss.index
  split
  · norm_num
  · next hloss =>
    have hpos : 0 < a.loss := lt_of_le_of_ne ha.2 (Ne.symm hloss)
    have hratio : 0 ≤ a.gain / a.loss := div_nonneg ha.1 (le_of_lt hpos)
    have hone : (1 : ℚ) ≤ 1 + a.gain / a.loss := by linarith
    have hshare : 100 / (1 + a.gain / a.loss) ≤ 100 := div_le_self (by norm_num) hone
    have hshare_pos : 0 ≤ 100 / (1 + a.gain / a.loss) := div_nonneg (by norm_num) (by linarith)
    constructor
    · linarith
    · linarith

theorem wilder_index_within (h : 0 < period) (changes : List ℚ) :
    (wilder_index period changes).Within 0 100 := by
  unfold wilder_index
  split
  · exact Reading.within_of (GainLoss.index_range (wilder_nonneg h changes))
  · exact Reading.within_none _ _

/-- **The momentum index of one bar is the strength index**, reading by
    reading, though one counts a change of zero as a gain list entry and the
    other clips both ways; and whatever the momentum period, the index stays
    between 0 and 100. -/
theorem momentum_index_of_one (h : 0 < period) (xs : List ℚ) :
    (xs.foldl RelativeMomentumIndex.update (.of period 1)).reading =
      (xs.foldl RelativeStrengthIndex.update (.of period)).reading ∧
    ∀ momentum_period, 0 < momentum_period →
      (xs.foldl RelativeMomentumIndex.update (.of period momentum_period)).reading.Within 0 100 := by
  constructor
  · rw [RelativeMomentumIndex.reading_after h Nat.one_pos, RelativeStrengthIndex.reading_after h]
  · intro momentum_period hm
    rw [RelativeMomentumIndex.reading_after h hm]
    exact wilder_index_within h _

/-- Over three prices. -/
theorem momentum_index_of_three :
    ([1, 2, 4].foldl RelativeMomentumIndex.update (.of 2 1)).reading =
      ([1, 2, 4].foldl RelativeStrengthIndex.update (.of 2)).reading :=
  (momentum_index_of_one (by decide : 0 < 2) [1, 2, 4]).1

end Indices

/-! ### Averages and the prices they have seen -/

section Within

variable {lo hi : ℚ}

/-- Every price lies between two bounds. -/
def Bounded (lo hi : ℚ) (xs : List ℚ) : Prop := ∀ x ∈ xs, lo ≤ x ∧ x ≤ hi

theorem Bounded.sum {xs : List ℚ} (h : Bounded lo hi xs) :
    xs.length * lo ≤ xs.sum ∧ xs.sum ≤ xs.length * hi := by
  induction xs with
  | nil => simp
  | cons x xs ih =>
    obtain ⟨hlo, hhi⟩ := ih (fun y hy => h y (List.mem_cons_of_mem _ hy))
    obtain ⟨hxlo, hxhi⟩ := h x List.mem_cons_self
    rw [List.sum_cons, List.length_cons, Nat.cast_succ]
    constructor
    · linarith
    · linarith

theorem Bounded.mean {xs : List ℚ} (h : Bounded lo hi xs) {n : ℕ} (hn : 0 < n)
    (hlength : xs.length = n) : lo ≤ xs.sum / n ∧ xs.sum / n ≤ hi := by
  have hpos : (0 : ℚ) < n := Nat.cast_pos.mpr hn
  obtain ⟨hlo, hhi⟩ := h.sum
  rw [hlength] at hlo hhi
  constructor
  · rw [le_div_iff₀ hpos]
    linarith
  · rw [div_le_iff₀ hpos]
    linarith

theorem Bounded.sublist {xs ys : List ℚ} (h : Bounded lo hi xs) (hsub : ys.Sublist xs) :
    Bounded lo hi ys := fun y hy => h y (hsub.subset hy)

theorem mean_of_last_within (h : 0 < period) {xs : List ℚ} (hxs : Bounded lo hi xs) :
    (mean_of_last period xs).Within lo hi := by
  unfold mean_of_last
  split
  · next hfull =>
    apply Reading.within_of
    apply (hxs.sublist (List.drop_sublist _ _)).mean h
    show (xs.rtake period).length = period
    rw [length_rtake, min_eq_left hfull]
  · exact Reading.within_none _ _

/-- The multiplier is a share, so a blend stays between its two values. -/
theorem blend_within (h : 0 < period) {ema x : ℚ} (hema : lo ≤ ema ∧ ema ≤ hi)
    (hx : lo ≤ x ∧ x ≤ hi) :
    lo ≤ ExponentialMovingAverage.blend period ema x ∧
      ExponentialMovingAverage.blend period ema x ≤ hi := by
  have hone : (1 : ℚ) ≤ period := by exact_mod_cast h
  have hk : (0 : ℚ) ≤ 2 / ((period : ℚ) + 1) := div_nonneg (by norm_num) (by linarith)
  have hk' : (2 : ℚ) / ((period : ℚ) + 1) ≤ 1 := (div_le_one (by linarith)).mpr (by linarith)
  unfold ExponentialMovingAverage.blend
  generalize (2 : ℚ) / ((period : ℚ) + 1) = k at hk hk'
  constructor
  · nlinarith [mul_le_mul_of_nonneg_right hx.1 hk,
      mul_le_mul_of_nonneg_right hema.1 (sub_nonneg.mpr hk')]
  · nlinarith [mul_le_mul_of_nonneg_right hx.2 hk,
      mul_le_mul_of_nonneg_right hema.2 (sub_nonneg.mpr hk')]

theorem blended_within (h : 0 < period) {xs : List ℚ} (hxs : Bounded lo hi xs)
    (hfull : period ≤ xs.length) :
    lo ≤ ExponentialMovingAverage.blended period xs ∧
      ExponentialMovingAverage.blended period xs ≤ hi := by
  unfold ExponentialMovingAverage.blended
  have hseed := (hxs.sublist (List.take_sublist period xs)).mean h
    (by rw [List.length_take, min_eq_left hfull])
  have hrest := hxs.sublist (List.drop_sublist period xs)
  revert hseed hrest
  generalize (xs.take period).sum / (period : ℚ) = ema
  generalize xs.drop period = rest
  intro hema hrest
  induction rest generalizing ema with
  | nil => exact hema
  | cons x rest ih =>
    apply ih
    · exact blend_within h hema (hrest x List.mem_cons_self)
    · exact hrest.sublist (List.sublist_cons_self x rest)

/-- No volume is negative. -/
def Traded (us : List Update) : Prop := ∀ u ∈ us, 0 ≤ column_value u.columns .volume 1

/-- The traded value lies between the lowest and the highest price. -/
theorem entries_within {us : List Update} (htraded : Traded us)
    (hprices : ∀ u ∈ us, lo ≤ u.data_point ∧ u.data_point ≤ hi) :
    lo * ((us.map VWAP.entry).sum).2 ≤ ((us.map VWAP.entry).sum).1 ∧
      ((us.map VWAP.entry).sum).1 ≤ hi * ((us.map VWAP.entry).sum).2 := by
  induction us with
  | nil => simp
  | cons u us ih =>
    obtain ⟨hlo, hhi⟩ := ih (fun v hv => htraded v (List.mem_cons_of_mem _ hv))
      (fun v hv => hprices v (List.mem_cons_of_mem _ hv))
    obtain ⟨hulo, huhi⟩ := hprices u List.mem_cons_self
    have hvolume := htraded u List.mem_cons_self
    rw [List.map_cons, List.sum_cons, Prod.fst_add, Prod.snd_add]
    simp only [VWAP.entry]
    constructor
    · nlinarith [mul_le_mul_of_nonneg_right hulo hvolume]
    · nlinarith [mul_le_mul_of_nonneg_right huhi hvolume]

theorem price_of_last_within (h : 0 < period) {us : List Update} (htraded : Traded us)
    (hprices : ∀ u ∈ us, lo ≤ u.data_point ∧ u.data_point ≤ hi) :
    (VWAP.price_of_last period us).Within lo hi := by
  unfold VWAP.price_of_last
  split
  · next hfull =>
    apply Reading.within_of
    have hwindow : (us.map VWAP.entry).rtake period = (us.rtake period).map VWAP.entry := by
      unfold List.rtake
      rw [List.map_drop, List.length_map]
    have hsub : ∀ u ∈ us.rtake period, u ∈ us := (List.drop_sublist _ us).subset
    obtain ⟨hlo, hhi⟩ := entries_within (fun u hu => htraded u (hsub u hu))
      (fun u hu => hprices u (hsub u hu))
    rw [hwindow]
    split
    · next hpos =>
      rw [le_div_iff₀ hpos, div_le_iff₀ hpos]
      exact ⟨hlo, hhi⟩
    · -- nothing was traded: the last price is shown
      have hne : us ≠ [] := by
        rintro rfl
        rw [List.length_nil] at hfull
        omega
      rw [List.getLast?_eq_some_getLast hne]
      exact hprices _ (List.getLast_mem hne)
  · exact Reading.within_none _ _

/-- **No average leaves the prices it has seen**: for every stream of updates
    with prices between two bounds and volumes that are not negative, the
    simple, the displaced, the exponential and the volume-weighted average
    all show values between the bounds. -/
theorem averages_within_prices (h : 0 < period) (displacement : ℕ) {us : List Update}
    (htraded : Traded us) (hprices : Bounded lo hi (us.map Update.data_point)) :
    ((us.map Update.data_point).foldl SimpleMovingAverage.update (.of h)).reading.Within lo hi ∧
    (∃ r, displaced_reading period displacement (us.map Update.data_point) = .ok r ∧
      r.Within lo hi) ∧
    ((us.map Update.data_point).foldl ExponentialMovingAverage.update
      (.of period)).reading.Within lo hi ∧
    (us.foldl VWAP.update (.of h)).reading.Within lo hi := by
  refine ⟨?_, ?_, ?_, ?_⟩
  · rw [SimpleMovingAverage.reading_after]
    exact mean_of_last_within h hprices
  · refine ⟨_, displaced_reading_eq h displacement _, mean_of_last_within h ?_⟩
    exact hprices.sublist (List.take_sublist _ _)
  · rw [ExponentialMovingAverage.reading_after h]
    split
    · next hfull => exact Reading.within_of (blended_within h hprices hfull)
    · exact Reading.within_none _ _
  · rw [VWAP.reading_after]
    apply price_of_last_within h htraded
    intro u hu
    exact hprices u.data_point (List.mem_map_of_mem hu)

/-- Two points, one of them without any volume. -/
def two_points : List Update :=
  [{ timestamp := 0, data_point := 10, columns := [(.volume, 0)] },
    { timestamp := 1, data_point := 12, columns := [(.volume, 3)] }]

theorem averages_of_two_points :
    (two_points.foldl VWAP.update (.of (by decide : 0 < 2))).reading.Within 10 12 := by
  have htraded : Traded two_points := by
    unfold Traded two_points
    decide +kernel
  have hprices : Bounded 10 12 (two_points.map Update.data_point) := by
    unfold Bounded two_points
    decide +kernel
  exact (averages_within_prices (by decide : 0 < 2) 0 htraded hprices).2.2.2

end Within

end Engine
