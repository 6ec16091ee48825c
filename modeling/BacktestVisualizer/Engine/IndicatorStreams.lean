import BacktestVisualizer.Engine.IndicatorValues
import Mathlib.Tactic

/-! # Indicators Over a Stream

  What an indicator shows after any stream of points, told from the points
  alone: the last of them, or all of them from the seed on. An indicator
  that corrects a running total, or that smooths what it has, is thereby
  compared with the formula it stands for.
-/

open Rolling

namespace Engine

variable {period : ℕ}

/-! ### Means of the last points -/

/-- The mean of the last `period` points, once there are as many. -/
def mean_of_last (period : ℕ) (xs : List ℚ) : Reading :=
  if period ≤ xs.length then .of ((xs.rtake period).sum / period) else .none

/-- Until the window is full the reading is the old one. -/
theorem mean_when_full_after (h : 0 < period) {xs : List ℚ} {reading : Reading}
    (hreading : xs.length < period → reading = .none) :
    mean_when_full ((Window.empty h).after xs) reading = mean_of_last period xs := by
  unfold mean_when_full mean_of_last
  rw [Window.after_size]
  show (if ((Window.empty h).after xs).buffer.length = period then
    Reading.of (((Window.empty h).after xs).total / period) else reading) = _
  by_cases hfull : period ≤ xs.length
  · rw [if_pos ((Window.after_full h xs).mpr hfull), if_pos hfull, Window.after_total]
  · rw [if_neg (fun hlen => hfull ((Window.after_full h xs).mp hlen)), if_neg hfull]
    exact hreading (not_le.mp hfull)

theorem mean_of_last_short {xs : List ℚ} (h : xs.length < period) :
    mean_of_last period xs = .none := if_neg (not_le.mpr h)

theorem SimpleMovingAverage.after_window (s : SimpleMovingAverage) (xs : List ℚ) :
    (xs.foldl update s).window = s.window.after xs := by
  induction xs using List.reverseRecOn with
  | nil => rfl
  | append_singleton xs x ih =>
    rw [List.foldl_append, List.foldl_cons, List.foldl_nil, Window.after_snoc, ← ih]
    rfl

theorem SimpleMovingAverage.update_reading (s : SimpleMovingAverage) (x : ℚ) :
    (s.update x).reading = mean_when_full (s.window.slide x) s.reading := rfl

/-- **The simple moving average** is the mean of the last `period` points,
    from the moment there are as many. -/
theorem SimpleMovingAverage.reading_after (h : 0 < period) (xs : List ℚ) :
    (xs.foldl update (of h)).reading = mean_of_last period xs := by
  induction xs using List.reverseRecOn with
  | nil => exact (mean_of_last_short h).symm
  | append_singleton xs x ih =>
    have hwindow : (xs.foldl update (of h)).window = (Window.empty h).after xs := after_window _ _
    rw [List.foldl_append, List.foldl_cons, List.foldl_nil, update_reading, hwindow,
      ← Window.after_snoc]
    apply mean_when_full_after
    intro hlength
    rw [List.length_append, List.length_singleton] at hlength
    rw [ih]
    exact mean_of_last_short (by omega)

/-! ### Displacement -/

section Displaced

variable {displacement : ℕ}

theorem deque_item_of_lt {buffer : List ℚ} {i : ℕ} (h : i < buffer.length) :
    deque_item buffer i = .ok buffer[i] := by
  unfold deque_item
  simp [h]

/-- The entries of a buffer up to `n`, read one by one. -/
theorem mapM_deque_item {buffer : List ℚ} {n : ℕ} (h : n ≤ buffer.length) :
    (List.range n).mapM (fun (k : ℕ) => deque_item buffer k) = .ok (buffer.take n) := by
  induction n with
  | zero => rfl
  | succ n ih =>
    rw [List.range_succ, List.mapM_append, ih (by omega),
      List.take_succ_eq_append_getElem (by omega)]
    simp only [List.mapM_cons, List.mapM_nil, deque_item_of_lt (show n < buffer.length by omega)]
    rfl

/-- A new one, displaced into the past. -/
def DisplacedMovingAverage.of (period displacement : ℕ) : DisplacedMovingAverage where
  period := period
  displacement := displacement
  maxlen := period + displacement
  price_buffer := []
  reading := .none

theorem DisplacedMovingAverage.init_eq (h : 0 < period) (displacement : ℕ) :
    init period displacement = .ok (of period displacement) := by
  unfold init positive_period maxlen_of of
  have hmaxlen : ¬ ((period : ℤ) + displacement < 0) := by omega
  have hsum : ((period : ℤ) + displacement).toNat = period + displacement := by omega
  simp [h, hmaxlen, hsum, bind, Except.bind]

variable (displacement) in
/-- The window of a full buffer is its older end. -/
theorem DisplacedMovingAverage.past_window_full {s : DisplacedMovingAverage} {buffer : List ℚ}
    (hdisplacement : s.displacement = displacement)
    (hlength : buffer.length = s.period + displacement) :
    s.past_window buffer = .ok (buffer.take s.period) := by
  unfold past_window
  have hstart : (buffer.length : ℤ) - s.displacement - s.period = 0 := by omega
  simp only [hstart, zero_add]
  apply mapM_deque_item
  omega

/-- The older end of the last points is the last of the older points. -/
theorem take_rtake_add (xs : List ℚ) (h : period + displacement ≤ xs.length) :
    (xs.rtake (period + displacement)).take period = (xs.rdrop displacement).rtake period := by
  unfold List.rtake List.rdrop
  have hdrop : min (xs.length - displacement) xs.length - period =
      xs.length - (period + displacement) := by omega
  have htake : xs.length - displacement - (xs.length - (period + displacement)) = period := by
    omega
  rw [List.drop_take, List.length_take, hdrop, htake]

/-- The state after a stream: it never raises, and its window is that of the
    points `displacement` bars ago. -/
theorem DisplacedMovingAverage.after (h : 0 < period) (xs : List ℚ) :
    xs.foldlM update (of period displacement) =
      .ok { of period displacement with
            price_buffer := xs.rtake (period + displacement)
            reading := mean_of_last period (xs.rdrop displacement) } := by
  induction xs using List.reverseRecOn with
  | nil =>
    rw [List.rtake_nil, List.rdrop_nil, mean_of_last_short h]
    rfl
  | append_singleton xs x ih =>
    rw [List.foldlM_append, ih]
    simp only [List.foldlM_cons, List.foldlM_nil, bind_pure]
    show update _ x = _
    unfold update
    simp only [of, push_rtake]
    generalize hys : xs ++ [x] = ys
    have hlength : (ys.rtake (period + displacement)).length =
        min (period + displacement) ys.length := length_rtake _ _
    by_cases hfull : period + displacement ≤ ys.length
    · rw [if_pos (by omega)]
      rw [past_window_full displacement rfl (by simp only; omega)]
      simp only [take_rtake_add ys hfull]
      unfold mean_of_last
      rw [if_pos (by unfold List.rdrop; rw [List.length_take]; omega)]
      rfl
    · rw [if_neg (by omega)]
      have hshort : ∀ zs : List ℚ, zs.length < period + displacement →
          mean_of_last period (zs.rdrop displacement) = .none := by
        intro zs hzs
        apply mean_of_last_short
        unfold List.rdrop
        rw [List.length_take]
        omega
      have hxs : xs.length < period + displacement := by
        rw [← hys, List.length_append] at hfull
        omega
      rw [hshort ys (by omega), hshort xs hxs]

end Displaced

/-! ### Rates of change -/

/-- The newest of some values, if there is one. -/
def newest (values : List ℚ) : Reading :=
  match values.getLast? with
  | some value => .of value
  | .none => .none

theorem newest_snoc (values : List ℚ) (value : ℚ) : newest (values ++ [value]) = .of value := by
  simp [newest]

section Lagged

variable {m : ℕ}

/-- The last `m + 1` points of a stream that has them: the point `m` bars ago
    comes first, the newest last. -/
theorem rtake_succ_ends (hm : 0 < m) {xs : List ℚ} (h : m ≤ xs.length) (x : ℚ) :
    ((xs ++ [x]).rtake (m + 1)).headD 0 = xs[xs.length - m] ∧
      ((xs ++ [x]).rtake (m + 1)).getLastD 0 = x := by
  have hfirst : xs.rtake m = xs[xs.length - m] :: xs.drop (xs.length - m + 1) :=
    List.drop_eq_getElem_cons (by omega)
  rw [List.rtake_concat_succ]
  constructor
  · rw [hfirst, List.cons_append, List.headD_cons]
  · rw [List.getLastD_concat]

theorem length_rtake_succ (xs : List ℚ) (x : ℚ) :
    ((xs ++ [x]).rtake (m + 1)).length = m + 1 ↔ m ≤ xs.length := by
  rw [length_rtake, List.length_append, List.length_singleton]
  omega

end Lagged

/-- A new one. -/
def RateOfChange.of (period : ℕ) : RateOfChange where
  period := period
  price_buffer := []
  reading := .none

theorem RateOfChange.after (h : 0 < period) (xs : List ℚ) :
    xs.foldl update (of period) =
      { of period with
        price_buffer := xs.rtake (period + 1)
        reading := newest (lagged period change_pct xs) } := by
  induction xs using List.reverseRecOn with
  | nil => simp [of, lagged, newest]
  | append_singleton xs x ih =>
    rw [List.foldl_append, ih, List.foldl_cons, List.foldl_nil]
    unfold update
    simp only [of, push_rtake]
    by_cases hlength : period ≤ xs.length
    · obtain ⟨hhead, hlast⟩ := rtake_succ_ends h hlength x
      rw [if_pos ((length_rtake_succ xs x).mpr hlength), hhead, hlast,
        lagged_snoc h hlength, newest_snoc]
    · rw [if_neg (fun hfull => hlength ((length_rtake_succ xs x).mp hfull)),
        lagged_short (by omega),
        lagged_short (by rw [List.length_append, List.length_singleton]; omega)]

/-! ### Wilder's averages -/

/-- What a change gains, and what it loses. -/
def gain_of (change : ℚ) : ℚ := max change 0

def loss_of (change : ℚ) : ℚ := max (-change) 0

/-- The averages over all changes: the means of the first `period`, smoothed
    by the others. -/
def wilder (period : ℕ) (changes : List ℚ) : GainLoss :=
  (changes.drop period).foldl
    (fun a change => a.smooth period (gain_of change) (loss_of change))
    (GainLoss.mean ((changes.take period).map gain_of) ((changes.take period).map loss_of))

/-- Their index, once there are `period` changes. -/
def wilder_index (period : ℕ) (changes : List ℚ) : Reading :=
  if period ≤ changes.length then .of (wilder period changes).index else .none

theorem wilder_seed {changes : List ℚ} (h : changes.length = period) :
    wilder period changes = GainLoss.mean (changes.map gain_of) (changes.map loss_of) := by
  unfold wilder
  rw [List.drop_of_length_le (le_of_eq h), List.take_of_length_le (le_of_eq h)]
  rfl

theorem wilder_snoc {changes : List ℚ} (h : period ≤ changes.length) (change : ℚ) :
    wilder period (changes ++ [change]) =
      (wilder period changes).smooth period (gain_of change) (loss_of change) := by
  unfold wilder
  rw [List.drop_append_of_le_length h, List.take_append_of_le_length h, List.foldl_append]
  rfl

theorem wilder_index_full {changes : List ℚ} (h : period ≤ changes.length) :
    wilder_index period changes = .of (wilder period changes).index := if_pos h

theorem wilder_index_short {changes : List ℚ} (h : changes.length < period) :
    wilder_index period changes = .none := if_neg (not_le.mpr h)

/-- The change from one price to the next. -/
def difference (previous current : ℚ) : ℚ := current - previous

/-! ### Relative strength -/

namespace RelativeStrengthIndex

/-- The state after some changes. -/
structure Seen (period : ℕ) (changes : List ℚ) (s : RelativeStrengthIndex) : Prop where
  period_eq : s.period = period
  seeding : changes.length < period →
    s.gains = changes.map gain_of ∧ s.losses = changes.map loss_of ∧ s.averages = .none
  smoothing : period ≤ changes.length →
    s.gains.length + 1 = period ∧ s.averages = some (wilder period changes)
  reading_eq : s.reading = wilder_index period changes

theorem gain_eq (change : ℚ) : (if 0 < change then change else 0) = gain_of change := by
  unfold gain_of
  split
  · next h => exact (max_eq_left (le_of_lt h)).symm
  · next h => exact (max_eq_right (not_lt.mp h)).symm

theorem loss_eq (change : ℚ) : (if 0 < change then 0 else |change|) = loss_of change := by
  unfold loss_of
  split
  · next h => exact (max_eq_right (by linarith)).symm
  · next h => rw [abs_of_nonpos (not_lt.mp h), max_eq_left (by linarith)]

variable {changes : List ℚ} {s : RelativeStrengthIndex}

/-- The period is full: new averages. -/
theorem observe_full (change : ℚ) (h : ((s.gains ++ [gain_of change]).length : ℤ) = s.period) :
    s.observe change =
      let averages := s.next_averages (s.gains ++ [gain_of change]) (s.losses ++ [loss_of change])
        (gain_of change) (loss_of change)
      { s with gains := (s.gains ++ [gain_of change]).tail
               losses := (s.losses ++ [loss_of change]).tail
               averages := some averages, reading := .of averages.index } := by
  unfold observe
  simp only [gain_eq, loss_eq, if_pos h]

theorem observe_room (change : ℚ) (h : ((s.gains ++ [gain_of change]).length : ℤ) ≠ s.period) :
    s.observe change =
      { s with gains := s.gains ++ [gain_of change], losses := s.losses ++ [loss_of change] } := by
  unfold observe
  simp only [gain_eq, loss_eq, if_neg h]

/-- **One change more.** -/
theorem Seen.observe (hperiod : 0 < period) (hs : Seen period changes s) (change : ℚ) :
    Seen period (changes ++ [change]) (s.observe change) := by
  have hsnoc : (changes ++ [change]).length = changes.length + 1 := by simp
  by_cases hshort : changes.length < period
  · obtain ⟨hgains, hlosses, haverages⟩ := hs.seeding hshort
    have hlength : (s.gains ++ [gain_of change]).length = changes.length + 1 := by
      simp [hgains]
    by_cases hlast : changes.length + 1 = period
    · -- the change that completes the seed
      rw [observe_full change (by rw [hlength, hs.period_eq, hlast])]
      have hseed : s.next_averages (s.gains ++ [gain_of change]) (s.losses ++ [loss_of change])
          (gain_of change) (loss_of change) = wilder period (changes ++ [change]) := by
        unfold next_averages
        rw [haverages, wilder_seed (by omega), hgains, hlosses, List.map_append, List.map_append]
        rfl
      rw [hseed]
      refine ⟨hs.period_eq, fun h => by omega, fun _ => ⟨?_, rfl⟩, ?_⟩
      · simp only [List.length_tail, hlength]
        omega
      · exact (wilder_index_full (by omega)).symm
    · rw [observe_room change (by rw [hlength, hs.period_eq]; omega)]
      refine ⟨hs.period_eq, fun _ => ⟨?_, ?_, haverages⟩, fun h => by omega, ?_⟩
      · simp [hgains]
      · simp [hlosses]
      · rw [wilder_index_short (by omega)]
        exact hs.reading_eq.trans (wilder_index_short hshort)
  · obtain ⟨hgains, haverages⟩ := hs.smoothing (not_lt.mp hshort)
    have hlength : (s.gains ++ [gain_of change]).length = period := by
      simpa using hgains
    rw [observe_full change (by rw [hlength, hs.period_eq])]
    have hsmooth : s.next_averages (s.gains ++ [gain_of change]) (s.losses ++ [loss_of change])
        (gain_of change) (loss_of change) = wilder period (changes ++ [change]) := by
      unfold next_averages
      rw [haverages, wilder_snoc (not_lt.mp hshort), hs.period_eq]
      rfl
    rw [hsmooth]
    refine ⟨hs.period_eq, fun h => by omega, fun _ => ⟨?_, rfl⟩, ?_⟩
    · simp only [List.length_tail, hlength]
      omega
    · exact (wilder_index_full (by omega)).symm

/-- A new one. -/
def of (period : ℕ) : RelativeStrengthIndex where
  period := period
  previous_price := .none
  gains := []
  losses := []
  averages := .none
  reading := .none

theorem seen_of (h : 0 < period) : Seen period [] (of period) :=
  ⟨rfl, fun _ => ⟨rfl, rfl, rfl⟩, fun hle => absurd hle (not_le.mpr h),
    (wilder_index_short h).symm⟩

theorem Seen.with_price (hs : Seen period changes s) (price : ℚ) :
    Seen period changes { s with previous_price := some price } :=
  ⟨hs.period_eq, hs.seeding, hs.smoothing, hs.reading_eq⟩

theorem update_next {previous : ℚ} (h : s.previous_price = some previous) (price : ℚ) :
    s.update price = { s.observe (price - previous) with previous_price := some price } := by
  unfold update
  rw [h]

theorem after (h : 0 < period) (xs : List ℚ) :
    (xs.foldl update (of period)).previous_price = xs.getLast? ∧
      Seen period (lagged 1 difference xs) (xs.foldl update (of period)) := by
  induction xs using List.reverseRecOn with
  | nil => exact ⟨rfl, seen_of h⟩
  | append_singleton xs x ih =>
    obtain ⟨hprevious, hseen⟩ := ih
    rw [List.foldl_append, List.foldl_cons, List.foldl_nil, List.getLast?_concat]
    rcases xs.eq_nil_or_concat' with rfl | ⟨ys, y, rfl⟩
    · exact ⟨rfl, (seen_of h).with_price x⟩
    · rw [List.getLast?_concat] at hprevious
      have hlagged : lagged 1 difference (ys ++ [y] ++ [x]) =
          lagged 1 difference (ys ++ [y]) ++ [x - y] := by
        rw [lagged_snoc (m := 1) Nat.one_pos (by simp)]
        simp [difference]
      rw [update_next hprevious, hlagged]
      exact ⟨rfl, (hseen.observe h (x - y)).with_price x⟩

/-- **The relative strength index** is the index of Wilder's averages over the
    changes from price to price. -/
theorem reading_after (h : 0 < period) (xs : List ℚ) :
    (xs.foldl update (of period)).reading = wilder_index period (lagged 1 difference xs) :=
  (after h xs).2.reading_eq

end RelativeStrengthIndex

/-! ### Relative momentum -/

namespace RelativeMomentumIndex

/-- The state after some momenta. -/
structure Seen (period : ℕ) (changes : List ℚ) (s : RelativeMomentumIndex) : Prop where
  period_eq : s.period = period
  seeding : changes.length < period → s.averages = .none ∧
    s.seed_gains = changes.map gain_of ∧ s.seed_losses = changes.map loss_of
  smoothing : period ≤ changes.length → s.averages = some (wilder period changes)
  reading_eq : s.reading = wilder_index period changes

variable {changes : List ℚ} {s : RelativeMomentumIndex}

theorem observe_seeding (h : s.averages = .none) (momentum : ℚ) :
    s.observe momentum =
      let seed_gains := push s.period s.seed_gains (gain_of momentum)
      let seed_losses := push s.period s.seed_losses (loss_of momentum)
      if seed_gains.length = s.period then
        let averages := GainLoss.mean seed_gains seed_losses
        { s with seed_gains := seed_gains, seed_losses := seed_losses, averages := some averages
                 reading := .of averages.index }
      else { s with seed_gains := seed_gains, seed_losses := seed_losses } := by
  unfold observe
  rw [h]
  rfl

theorem observe_smoothing {a : GainLoss} (h : s.averages = some a) (momentum : ℚ) :
    s.observe momentum =
      let averages := a.smooth s.period (gain_of momentum) (loss_of momentum)
      { s with averages := some averages, reading := .of averages.index } := by
  unfold observe
  rw [h]
  rfl

/-- **One momentum more.** -/
theorem Seen.observe (hs : Seen period changes s) (momentum : ℚ) :
    Seen period (changes ++ [momentum]) (s.observe momentum) := by
  have hsnoc : (changes ++ [momentum]).length = changes.length + 1 := by simp
  by_cases hshort : changes.length < period
  · obtain ⟨haverages, hgains, hlosses⟩ := hs.seeding hshort
    have hpush : ∀ f : ℚ → ℚ, push s.period (changes.map f) (f momentum) =
        (changes ++ [momentum]).map f := by
      intro f
      rw [push_of_lt (by rw [List.length_map, hs.period_eq]; exact hshort)]
      simp
    rw [observe_seeding haverages, hgains, hlosses, hpush, hpush]
    simp only [List.length_map, hsnoc, hs.period_eq]
    by_cases hlast : changes.length + 1 = period
    · have hseed : wilder period (changes ++ [momentum]) = GainLoss.mean _ _ :=
        wilder_seed (hsnoc.trans hlast)
      rw [if_pos hlast, ← hseed]
      exact ⟨rfl, fun h => by omega, fun _ => rfl, (wilder_index_full (by omega)).symm⟩
    · rw [if_neg hlast]
      refine ⟨rfl, fun _ => ⟨haverages, rfl, rfl⟩, fun h => by omega, ?_⟩
      rw [wilder_index_short (by omega)]
      exact hs.reading_eq.trans (wilder_index_short hshort)
  · have hsmooth := wilder_snoc (not_lt.mp hshort) momentum
    rw [observe_smoothing (hs.smoothing (not_lt.mp hshort)), hs.period_eq, ← hsmooth]
    exact ⟨rfl, fun h => by omega, fun _ => rfl, (wilder_index_full (by omega)).symm⟩

/-- A new one. -/
def of (period momentum_period : ℕ) : RelativeMomentumIndex where
  period := period
  momentum_period := momentum_period
  prices := []
  averages := .none
  seed_gains := []
  seed_losses := []
  reading := .none

theorem seen_of (h : 0 < period) (momentum_period : ℕ) :
    Seen period [] (of period momentum_period) :=
  ⟨rfl, fun _ => ⟨rfl, rfl, rfl⟩, fun hle => absurd hle (not_le.mpr h),
    (wilder_index_short h).symm⟩

theorem Seen.with_prices (hs : Seen period changes s) (prices : List ℚ) :
    Seen period changes { s with prices := prices } :=
  ⟨hs.period_eq, hs.seeding, hs.smoothing, hs.reading_eq⟩

/-- A momentum touches neither the prices nor their number. -/
theorem observe_prices (s : RelativeMomentumIndex) (momentum : ℚ) :
    (s.observe momentum).prices = s.prices ∧
      (s.observe momentum).momentum_period = s.momentum_period := by
  cases h : s.averages with
  | none =>
    rw [observe_seeding h]
    simp only
    split <;> exact ⟨rfl, rfl⟩
  | some a =>
    rw [observe_smoothing h]
    exact ⟨rfl, rfl⟩

theorem update_short {price : ℚ}
    (h : (push (s.momentum_period + 1) s.prices price).length < s.momentum_period + 1) :
    s.update price = { s with prices := push (s.momentum_period + 1) s.prices price } := by
  unfold update
  exact if_pos h

theorem update_full {price : ℚ}
    (h : ¬ (push (s.momentum_period + 1) s.prices price).length < s.momentum_period + 1) :
    s.update price = { s with prices := push (s.momentum_period + 1) s.prices price }.observe
      ((push (s.momentum_period + 1) s.prices price).getLastD 0 -
        (push (s.momentum_period + 1) s.prices price).headD 0) := by
  unfold update
  exact if_neg h

variable {momentum_period : ℕ}

theorem after (h : 0 < period) (hm : 0 < momentum_period) (xs : List ℚ) :
    (xs.foldl update (of period momentum_period)).momentum_period = momentum_period ∧
      (xs.foldl update (of period momentum_period)).prices = xs.rtake (momentum_period + 1) ∧
      Seen period (lagged momentum_period difference xs)
        (xs.foldl update (of period momentum_period)) := by
  induction xs using List.reverseRecOn with
  | nil => exact ⟨rfl, by simp [of], seen_of h momentum_period⟩
  | append_singleton xs x ih =>
    rw [List.foldl_append, List.foldl_cons, List.foldl_nil]
    generalize xs.foldl update (of period momentum_period) = s at ih
    obtain ⟨hmomentum, hprices, hseen⟩ := ih
    have hpush : push (s.momentum_period + 1) s.prices x =
        (xs ++ [x]).rtake (momentum_period + 1) := by
      rw [hmomentum, hprices, push_rtake]
    have hfull := length_rtake_succ (m := momentum_period) xs x
    have hle : ((xs ++ [x]).rtake (momentum_period + 1)).length ≤ momentum_period + 1 := by
      rw [length_rtake]
      exact min_le_left _ _
    by_cases hlength : momentum_period ≤ xs.length
    · obtain ⟨hhead, hlast⟩ := rtake_succ_ends hm hlength x
      rw [update_full (by rw [hpush, hmomentum, hfull.mpr hlength]; omega), hpush, hhead, hlast,
        lagged_snoc hm hlength]
      obtain ⟨hsame, hsame_period⟩ := observe_prices
        { s with prices := (xs ++ [x]).rtake (momentum_period + 1) }
        (x - xs[xs.length - momentum_period])
      exact ⟨hsame_period.trans hmomentum, hsame, (hseen.with_prices _).observe _⟩
    · have hroom : ((xs ++ [x]).rtake (momentum_period + 1)).length < momentum_period + 1 :=
        lt_of_le_of_ne hle (fun heq => hlength (hfull.mp heq))
      rw [update_short (by rw [hpush, hmomentum]; exact hroom), hpush]
      refine ⟨hmomentum, rfl, ?_⟩
      rw [lagged_short (by omega)] at hseen
      rw [lagged_short (by rw [List.length_append, List.length_singleton]; omega)]
      exact hseen.with_prices _

/-- **The relative momentum index** is the index of Wilder's averages over the
    changes across `momentum_period` bars. -/
theorem reading_after (h : 0 < period) (hm : 0 < momentum_period) (xs : List ℚ) :
    (xs.foldl update (of period momentum_period)).reading =
      wilder_index period (lagged momentum_period difference xs) :=
  (after h hm xs).2.2.reading_eq

end RelativeMomentumIndex

/-! ### Exponential averages -/

namespace ExponentialMovingAverage

/-- One value after the seed. -/
def blend (period : ℕ) (ema x : ℚ) : ℚ :=
  x * (2 / ((period : ℚ) + 1)) + ema * (1 - 2 / ((period : ℚ) + 1))

/-- The mean of the first `period` points, blended with the others. -/
def blended (period : ℕ) (xs : List ℚ) : ℚ :=
  (xs.drop period).foldl (blend period) ((xs.take period).sum / period)

theorem blended_seed {xs : List ℚ} (h : xs.length = period) :
    blended period xs = xs.sum / period := by
  unfold blended
  rw [List.drop_of_length_le (le_of_eq h), List.take_of_length_le (le_of_eq h)]
  rfl

theorem blended_snoc {xs : List ℚ} (h : period ≤ xs.length) (x : ℚ) :
    blended period (xs ++ [x]) = blend period (blended period xs) x := by
  unfold blended
  rw [List.drop_append_of_le_length h, List.take_append_of_le_length h, List.foldl_append]
  rfl

/-- The state after some points. -/
structure Seen (period : ℕ) (xs : List ℚ) (s : ExponentialMovingAverage) : Prop where
  period_eq : s.period = period
  multiplier_eq : s.multiplier = 2 / ((period : ℚ) + 1)
  count_eq : s.count = xs.length
  seeding : xs.length < period → s.ema = .none ∧ s.sum = xs.sum ∧ s.reading = .none
  blending : period ≤ xs.length →
    s.ema = some (blended period xs) ∧ s.reading = .of (blended period xs)

variable {xs : List ℚ} {s : ExponentialMovingAverage}

theorem update_seeding (h : s.ema = .none) (x : ℚ) :
    s.update x =
      if s.count + 1 = s.period then
        { s with count := s.count + 1, sum := s.sum + x, ema := some ((s.sum + x) / s.period)
                 reading := .of ((s.sum + x) / s.period) }
      else { s with count := s.count + 1, sum := s.sum + x } := by
  unfold update
  rw [h]

theorem update_blending {ema : ℚ} (h : s.ema = some ema) (x : ℚ) :
    s.update x =
      { s with count := s.count + 1
               ema := some (x * s.multiplier + ema * (1 - s.multiplier))
               reading := .of (x * s.multiplier + ema * (1 - s.multiplier)) } := by
  unfold update
  rw [h]

theorem Seen.update (hs : Seen period xs s) (x : ℚ) : Seen period (xs ++ [x]) (s.update x) := by
  have hsnoc : (xs ++ [x]).length = xs.length + 1 := by simp
  by_cases hshort : xs.length < period
  · obtain ⟨hema, hsum, hreading⟩ := hs.seeding hshort
    have hsum' : s.sum + x = (xs ++ [x]).sum := by simp [hsum]
    rw [update_seeding hema, hs.count_eq, hs.period_eq, hsum']
    by_cases hlast : xs.length + 1 = period
    · have hseed : blended period (xs ++ [x]) = (xs ++ [x]).sum / period :=
        blended_seed (hsnoc.trans hlast)
      rw [if_pos hlast, ← hseed]
      exact ⟨rfl, hs.multiplier_eq, hsnoc.symm, fun h => by omega, fun _ => ⟨rfl, rfl⟩⟩
    · rw [if_neg hlast]
      exact ⟨rfl, hs.multiplier_eq, hsnoc.symm, fun _ => ⟨hema, rfl, hreading⟩, fun h => by omega⟩
  · have hblend := blended_snoc (not_lt.mp hshort) x
    rw [update_blending (hs.blending (not_lt.mp hshort)).1, hs.count_eq, hs.multiplier_eq]
    refine ⟨hs.period_eq, rfl, hsnoc.symm, fun h => by omega, fun _ => ?_⟩
    rw [hblend]
    exact ⟨rfl, rfl⟩

theorem after (h : 0 < period) (xs : List ℚ) :
    Seen period xs (xs.foldl ExponentialMovingAverage.update (of period)) := by
  induction xs using List.reverseRecOn with
  | nil =>
    exact ⟨rfl, rfl, rfl, fun _ => ⟨rfl, rfl, rfl⟩, fun hle => absurd hle (not_le.mpr h)⟩
  | append_singleton xs x ih =>
    rw [List.foldl_append, List.foldl_cons, List.foldl_nil]
    exact ih.update x

/-- **The exponential average** starts from a mean and blends in what comes
    after it. -/
theorem reading_after (h : 0 < period) (xs : List ℚ) :
    (xs.foldl ExponentialMovingAverage.update (of period)).reading =
      if period ≤ xs.length then .of (blended period xs) else .none := by
  have hseen := after h xs
  split
  · next hfull => exact (hseen.blending hfull).2
  · next hshort => exact (hseen.seeding (not_le.mp hshort)).2.2

end ExponentialMovingAverage

/-! ### Averages over bars -/

namespace AverageTrueRange

/-- The true range of a bar after another one. -/
def range_of (high_col low_col : Column) (previous current : Update) : ℚ :=
  true_range (column_value current.columns high_col current.data_point)
    (column_value current.columns low_col current.data_point) previous.data_point

variable {high_col low_col : Column} {s : AverageTrueRange}

theorem update_first (h : s.prev_close = .none) (u : Update) :
    s.update u = { s with prev_close := some u.data_point } := by
  unfold update
  rw [h]

theorem update_next (previous : Update) (h : s.prev_close = some previous.data_point)
    (u : Update) :
    s.update u =
      { s with
        window := s.window.slide (range_of s.high_col s.low_col previous u)
        prev_close := some u.data_point
        reading := mean_when_full (s.window.slide (range_of s.high_col s.low_col previous u))
          s.reading } := by
  unfold update
  rw [h]
  rfl

theorem after (h : 0 < period) (high_col low_col : Column) (us : List Update) :
    us.foldl update (of h high_col low_col) =
      { high_col := high_col, low_col := low_col
        prev_close := us.getLast?.map Update.data_point
        window := (Window.empty h).after (lagged 1 (range_of high_col low_col) us)
        reading := mean_of_last period (lagged 1 (range_of high_col low_col) us) } := by
  induction us using List.reverseRecOn with
  | nil =>
    rw [lagged_short (by simp), mean_of_last_short h]
    rfl
  | append_singleton us u ih =>
    rw [List.foldl_append, ih, List.foldl_cons, List.foldl_nil, List.getLast?_concat]
    rcases us.eq_nil_or_concat' with rfl | ⟨vs, v, rfl⟩
    · rw [update_first rfl]
      rfl
    · have hlagged : lagged 1 (range_of high_col low_col) (vs ++ [v] ++ [u]) =
          lagged 1 (range_of high_col low_col) (vs ++ [v]) ++ [range_of high_col low_col v u] := by
        rw [lagged_snoc (m := 1) Nat.one_pos (by simp)]
        simp
      rw [update_next v (by simp), hlagged, Window.after_snoc, ← Window.after_snoc]
      congr 1
      apply mean_when_full_after
      intro hshort
      rw [List.length_append, List.length_singleton] at hshort
      exact mean_of_last_short (by omega)

/-- **The average true range** is the mean of the last `period` true ranges. -/
theorem reading_after (h : 0 < period) (us : List Update) :
    (us.foldl update (of h high_col low_col)).reading =
      mean_of_last period (lagged 1 (range_of high_col low_col) us) := by
  rw [after]

end AverageTrueRange

namespace VWAP

/-- The price at which the last `period` points traded on average; the last
    one if nothing was traded. -/
def price_of_last (period : ℕ) (us : List Update) : Reading :=
  if period ≤ us.length then
    let total := ((us.map entry).rtake period).sum
    .of (if 0 < total.2 then total.1 / total.2 else (us.getLast?.map Update.data_point).getD 0)
  else .none

theorem after_window (s : VWAP) (us : List Update) :
    (us.foldl update s).window = s.window.after (us.map entry) := by
  induction us using List.reverseRecOn with
  | nil => rfl
  | append_singleton us u ih =>
    rw [List.foldl_append, List.foldl_cons, List.foldl_nil, List.map_append, List.map_singleton,
      Window.after_snoc, ← ih]
    rfl

theorem update_reading (s : VWAP) (u : Update) :
    (s.update u).reading =
      if (s.window.slide (entry u)).buffer.length = (s.window.slide (entry u)).size then
        .of (if 0 < (s.window.slide (entry u)).total.2 then
          (s.window.slide (entry u)).total.1 / (s.window.slide (entry u)).total.2
          else u.data_point)
      else s.reading := rfl

/-- **The volume-weighted price** is that of the last `period` points. -/
theorem reading_after (h : 0 < period) (us : List Update) :
    (us.foldl update (of h)).reading = price_of_last period us := by
  unfold price_of_last
  induction us using List.reverseRecOn with
  | nil => exact (if_neg (not_le.mpr h)).symm
  | append_singleton us u ih =>
    have hwindow : (us.foldl update (of h)).window = (Window.empty h).after (us.map entry) :=
      after_window _ _
    rw [List.foldl_append, List.foldl_cons, List.foldl_nil, update_reading, hwindow,
      ← Window.after_snoc, ← List.map_singleton, ← List.map_append, Window.after_size,
      Window.after_total]
    show (if ((Window.empty h).after ((us ++ [u]).map entry)).buffer.length = period then _
      else _) = _
    have hfull := Window.after_full (α := ℚ × ℚ) h ((us ++ [u]).map entry)
    rw [List.length_map] at hfull
    by_cases hlength : period ≤ (us ++ [u]).length
    · rw [if_pos (hfull.mpr hlength), if_pos hlength, List.getLast?_concat]
      rfl
    · rw [if_neg (fun heq => hlength (hfull.mp heq)), if_neg hlength, ih, if_neg]
      rw [List.length_append, List.length_singleton] at hlength
      omega

end VWAP

end Engine
