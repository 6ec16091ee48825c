import BacktestVisualizer.Engine.RegimeBook
import BacktestVisualizer.Engine.Reissue

/-! # What a Purchase of the Regime-Adaptive Strategy Buys

  A purchase is decided by comparing the current weight of a ticker with its
  target, and sized from the current weight, or from the target when the
  ticker is flat. The executor takes the weight it is sized from as the
  exposure to end at. So a purchase for a ticker that is held asks for what
  is there and buys nothing; `purchase_buys_iff_flat` says that this is the
  only case besides a shut sentiment gate.
-/

open Engine

namespace RegimeAdaptive

variable {cfg : Config} {settings : Settings} {poll : Poll} {t u : Ticker} {d : Decision}
  {s : Executor} {a : Account} {vix_value : PyFloat} {streak : Signal × ℕ}

/-! ### The confidence is a number -/

theorem py_min_max_range (y : PyFloat) :
    ∃ m : ℚ, PyFloat.py_min (.fin 1) (PyFloat.py_max (.fin (5 / 100)) y) = .fin m ∧
      5 / 100 ≤ m ∧ m ≤ 1 := by
  cases y with
  | fin v =>
    refine ⟨min 1 (max (5 / 100) v), by rw [PyFloat.py_max_fin, PyFloat.py_min_fin], ?_, ?_⟩
    · exact le_min (by norm_num) (le_max_left _ _)
    · exact min_le_left _ _
  | pos_inf => exact ⟨1, rfl, by norm_num, le_refl _⟩
  | neg_inf => exact ⟨5 / 100, by decide +kernel, le_refl _, by norm_num⟩
  | nan => exact ⟨5 / 100, by decide +kernel, le_refl _, by norm_num⟩

/-- Four decimals do not lead out of (0, 1]. -/
theorem round4_range {m : ℚ} (hlow : 5 / 100 ≤ m) (hhigh : m ≤ 1) :
    ∃ c : ℚ, round4 (.fin m) = .fin c ∧ 0 < c ∧ c ≤ 1 := by
  refine ⟨_, rfl, ?_, ?_⟩
  · have hclose := PyFloat.round_half_even_close (m * 10000)
    rw [abs_le] at hclose
    have hpos : (0 : ℚ) < PyFloat.round_half_even (m * 10000) := by linarith
    positivity
  · have hclose := PyFloat.round_half_even_close (m * 10000)
    rw [abs_le] at hclose
    have hlt : (PyFloat.round_half_even (m * 10000) : ℚ) < 10001 := by linarith
    have hle : PyFloat.round_half_even (m * 10000) ≤ 10000 := by
      have hint : PyFloat.round_half_even (m * 10000) < 10001 := by exact_mod_cast hlt
      omega
    have hcast : (PyFloat.round_half_even (m * 10000) : ℚ) ≤ 10000 := by exact_mod_cast hle
    rw [div_le_one (by norm_num)]
    exact hcast

/-- `confidence` lies in (0, 1], whatever the indicators are. -/
theorem confidence_range (raw : RawSignal) (is_high_vol is_reversal : Bool) (streak_count : ℕ)
    (results : List PyFloat) (l : Levels) :
    ∃ c : ℚ, confidence raw is_high_vol is_reversal streak_count results l = .fin c ∧
      0 < c ∧ c ≤ 1 := by
  unfold confidence
  split
  · exact ⟨1 / 2, rfl, by norm_num, by norm_num⟩
  · obtain ⟨m, hm, hlow, hhigh⟩ := py_min_max_range _
    simp only
    rw [hm]
    exact round4_range hlow hhigh

/-! ### A turn leaves the other tickers alone -/

theorem send_other (hu : u ≠ t) : (send cfg poll t s d).2.positions u = s.positions u := by
  have hplace : ∀ signal conf weight target,
      (place cfg poll.context s t signal conf weight target).2.positions u = s.positions u := by
    intro signal conf weight target
    rcases place_cases cfg poll.context s t signal conf weight target with hsame | hfill
    · rw [hsame]
    · obtain ⟨asset, _, _, heq⟩ := hfill
      rw [heq]
      rcases execute_trade_sized cfg s _ with ⟨hsame, _⟩ | ⟨x, w, p, n, conf', _, hsettled⟩
      · rw [hsame]
      · rw [hsettled]
        exact set_amount_ne _ _ hu
  unfold send
  split
  · exact hplace _ _ _ _
  · unfold sell
    split
    · exact hplace _ _ _ _
    · rfl

theorem carry_out_executor :
    (carry_out cfg poll t d a).executor = (send cfg poll t a.executor d).2 := by
  unfold carry_out
  simp only
  split
  · rfl
  · split <;> rfl

theorem turn_other (hu : u ≠ t) :
    (turn cfg settings poll vix_value a t).executor.positions u = a.executor.positions u := by
  unfold turn
  split
  · rfl
  · split
    · rfl
    · rfl
    · rw [carry_out_executor]
      exact send_other hu

theorem turns_other {tickers : List Ticker} (hu : u ∉ tickers) :
    (tickers.foldl (turn cfg settings poll vix_value) a).executor.positions u =
      a.executor.positions u := by
  induction tickers generalizing a with
  | nil => rfl
  | cons t rest ih =>
    rw [List.mem_cons, not_or] at hu
    rw [List.foldl_cons, ih hu.2]
    exact turn_other hu.1

/-! ### A purchase that ought to buy -/

/-- No slippage and no commission. -/
structure Frictionless (cfg : Config) : Prop where
  cost_model : cfg.cost_model = none
  slippage : cfg.slippage = 0
  commission : cfg.commission_per_share = 0

/-- A purchase is decided for a ticker below its target, and the confident part
    of the gap, the cash and the buying power are each worth a share and a
    dollar. -/
structure WantedPurchase (cfg : Config) (settings : Settings) (poll : Poll) (vix_value : PyFloat)
    (t : Ticker) (a : Account) (streak : Signal × ℕ) (d : Decision) (price w value c : ℚ) :
    Prop where
  decided : verdict settings a.book poll vix_value t = .decided streak d
  buys : d.raw.signal = .buy
  shown : poll.positions t = a.executor.positions t
  no_short : 0 ≤ a.executor.positions t
  price_eq : d.price = .fin price
  price_pos : 0 < price
  target : RegimeAdaptive.target_weight settings t = some (some (.fin w))
  value_eq : poll.context.total_value = .fin value
  confidence_eq : d.confidence = .fin c
  gap : max 1 price ≤ c * (w * value - a.executor.positions t * price)
  cash : max 1 price ≤ a.executor.cash
  power : .fin (max 1 price) ≤ calculate_buying_power cfg a.executor (.fin value)

variable {price w value c : ℚ}

theorem decided_confidence {book : Book}
    (h : verdict settings book poll vix_value t = .decided streak d) :
    ∃ c : ℚ, d.confidence = .fin c ∧ 0 < c ∧ c ≤ 1 := by
  unfold verdict at h
  split at h
  · exact absurd h (by simp)
  · split at h
    · simp only at h
      split at h
      · exact absurd h (by simp)
      · split at h
        · exact absurd h (by simp)
        · split at h
          · exact absurd h (by simp)
          · split at h
            · exact absurd h (by simp)
            · split at h
              · exact absurd h (by simp)
              · obtain ⟨_, rfl⟩ := Verdict.decided.inj h
                exact confidence_range _ _ _ _ _ _
    · exact absurd h (by simp)

namespace WantedPurchase

variable (h : WantedPurchase cfg settings poll vix_value t a streak d price w value c)

include h

theorem confidence_pos : 0 < c ∧ c ≤ 1 := by
  obtain ⟨c', hc', hpos, hle⟩ := decided_confidence h.decided
  obtain rfl := PyFloat.fin.inj (h.confidence_eq.symm.trans hc')
  exact ⟨hpos, hle⟩

/-- The gap is a gap. -/
theorem gap_pos : 0 < w * value - a.executor.positions t * price := by
  have hone : 1 ≤ c * (w * value - a.executor.positions t * price) :=
    le_trans (le_max_left _ _) h.gap
  exact (mul_pos_iff_of_pos_left h.confidence_pos.1).mp (by linarith)

theorem request_eq : d.request poll t =
    placed_request poll.context t .buy (some (.fin c)) d.weight none (.fin price) := by
  unfold Decision.request
  rw [if_pos h.buys, h.confidence_eq, h.price_eq]

/-- The order is one `execute_trade`. -/
theorem sent : send cfg poll t a.executor d =
    (.executed (execute_trade cfg a.executor (d.request poll t)).1,
      (execute_trade cfg a.executor (d.request poll t)).2) := by
  apply send_direct cfg (verdict_sound h.decided)
  · rw [h.price_eq, PyFloat.fin_le]
    exact not_le.mpr h.price_pos
  · intro hsell
    rw [h.buys] at hsell
    exact absurd hsell (by decide)

/-- The weight the order is sized from. -/
theorem weight_eq : d.weight =
    some (if value = 0 ∨ a.executor.positions t = 0 then .fin w
      else .fin (a.executor.positions t * price / value)) := by
  obtain ⟨l, _, target, hl, htarget, _, hlprice, _, _, hweight⟩ := verdict_decided h.decided
  obtain rfl : some (PyFloat.fin w) = target := Option.some.inj (h.target.symm.trans htarget)
  have hprice : l.price = .fin price := hlprice.symm.trans h.price_eq
  have hcurrent : get_asset_weight poll t l.price =
      if value = 0 then .fin 0 else .fin (a.executor.positions t * price / value) := by
    unfold get_asset_weight quotient
    rw [hprice, h.value_eq, h.shown]
    by_cases hzero : value = 0
    · simp [hzero]
    · simp [hzero]
  rw [hweight, hcurrent]
  by_cases hzero : value = 0
  · simp [hzero]
  · by_cases hflat : a.executor.positions t = 0
    · simp [hzero, hflat]
    · have hne : a.executor.positions t * price / value ≠ 0 :=
        div_ne_zero (mul_ne_zero hflat (ne_of_gt h.price_pos)) hzero
      simp [hzero, hflat, hne]

/-- The number the order is sized from, and the notional that asks for. -/
theorem weight_fin : ∃ v : ℚ, d.weight = some (.fin v) ∧ v ≠ 0 ∧
    value * v = if a.executor.positions t = 0 then value * w
      else a.executor.positions t * price := by
  have hgap := h.gap_pos
  have hweight := h.weight_eq
  have hholding := mul_nonneg h.no_short (le_of_lt h.price_pos)
  have hvalue : value ≠ 0 := by
    intro hzero
    rw [hzero, mul_zero] at hgap
    linarith
  by_cases hflat : a.executor.positions t = 0
  · rw [if_pos (Or.inr hflat)] at hweight
    refine ⟨w, hweight, ?_, by rw [if_pos hflat]⟩
    intro hzero
    rw [hzero, zero_mul] at hgap
    linarith
  · rw [if_neg (by simp [hvalue, hflat])] at hweight
    refine ⟨_, hweight, ?_, ?_⟩
    · exact div_ne_zero (mul_ne_zero hflat (ne_of_gt h.price_pos)) hvalue
    · rw [if_neg hflat, mul_div_cancel₀ _ hvalue]

theorem ticker_eq : (d.request poll t).ticker = t := by
  rw [h.request_eq]
  rfl

end WantedPurchase

/-- The inputs of the order, for the weight it is sized from. -/
def purchase_inputs (price value c v : ℚ) : SizeInputs where
  arrival_price := .fin price
  confidence := c
  port_notional := .fin value
  ticker_weight := .fin v
  target_weight := none

theorem Frictionless.slipped (hfree : Frictionless cfg) {side : Side} {notional : PyFloat}
    {p : ℚ} (hslip : apply_slippage cfg (.fin price) side t notional = .fin p) : p = price := by
  obtain ⟨arrival, harrival, hp⟩ := apply_slippage_fin cfg hfree.cost_model hslip
  rw [hp, hfree.slippage, mul_zero, add_zero, mul_one]
  exact (PyFloat.fin.inj harrival).symm

namespace WantedPurchase

variable (h : WantedPurchase cfg settings poll vix_value t a streak d price w value c)

include h

theorem converted {v : ℚ} (hweight : d.weight = some (.fin v)) :
    (d.request poll t).toSizeRequest.convert = some (purchase_inputs price value c v) := by
  have hclamp : clamp_confidence (.fin c) = c := by
    rw [clamp_confidence_fin, min_eq_right h.confidence_pos.2,
      max_eq_right (le_of_lt h.confidence_pos.1)]
  rw [h.request_eq, hweight]
  simp [SizeRequest.convert, placed_request, h.value_eq, hclamp, purchase_inputs]

theorem gated {v : ℚ} : gated_notional cfg a.executor (d.request poll t).toSizeRequest
    (purchase_inputs price value c v) (.fin v) =
      .fin (target_notional cfg a.executor t v value price) := by
  rw [h.request_eq]
  exact apply_sentiment_gate_fin cfg a.executor t v value price

/-- **A held ticker** asks for what is there, and nothing is filled. -/
theorem held_nothing (hfree : Frictionless cfg) (hheld : a.executor.positions t ≠ 0) :
    (execute_trade cfg a.executor (d.request poll t)).2 = a.executor := by
  obtain ⟨v, hweight, hne, hwanted⟩ := h.weight_fin
  rw [if_neg hheld] at hwanted
  have htarget : target_notional cfg a.executor t v value price =
      a.executor.positions t * price := by
    unfold target_notional
    rw [hwanted, apply_sentiment_gate_below, PyFloat.val_fin]
    rw [PyFloat.py_max_fin, PyFloat.fin_le]
    exact le_max_left _ _
  rcases execute_trade_sized cfg a.executor (d.request poll t) with
    ⟨hsame, _⟩ | ⟨x, weight, p, n, conf, hfill, _⟩
  · exact hsame
  · -- a fill would have to be for some distance to the target
    obtain rfl := Option.some.inj ((h.converted hweight).symm.trans hfill.converted)
    obtain rfl : PyFloat.fin v = weight := by
      have hsized := hfill.weight_eq
      unfold sizing_weight purchase_inputs at hsized
      simpa [hne] using hsized
    obtain ⟨notional, hslip⟩ := hfill.priced
    obtain rfl : p = price := hfree.slipped hslip
    have hle := hfill.quantity_le (h.gated (v := v))
    have hpos : (0 : ℚ) < n := by exact_mod_cast hfill.quantity_pos
    have hway : target_notional cfg a.executor t v value p / p - a.executor.positions t = 0 := by
      rw [htarget, mul_div_cancel_right₀ _ (ne_of_gt h.price_pos), sub_self]
    rw [h.ticker_eq, hway, abs_zero, zero_mul] at hle
    exact absurd hpos (not_lt.mpr hle)


/-- **A flat ticker** is bought behind an open gate. -/
theorem flat_affordable (hfree : Frictionless cfg) (hflat : a.executor.positions t = 0)
    (hopen : ¬ GateShut cfg a.executor t) :
    ∃ v, value * v = value * w ∧
      Affordable cfg a.executor (d.request poll t).toSizeRequest
        (purchase_inputs price value c v) (.fin v) price := by
  obtain ⟨v, hweight, hne, hwanted⟩ := h.weight_fin
  rw [if_pos hflat] at hwanted
  refine ⟨v, hwanted, ?_⟩
  constructor
  · show a.executor.positions (d.request poll t).ticker = 0
    rw [h.ticker_eq, hflat]
  · rw [h.request_eq]
    rfl
  · exact h.converted hweight
  · rfl
  · unfold sizing_weight purchase_inputs
    simp [hne]
  · exact h.confidence_pos.1
  · exact ⟨price, rfl⟩
  · unfold apply_slippage purchase_inputs
    simp [hfree.cost_model, hfree.slippage]
  · exact h.price_pos
  · rw [h.gated, target_notional_open hopen, hwanted]
    show PyFloat.fin (max 1 price) ≤ .fin (value * w) * .fin c
    rw [PyFloat.fin_mul, PyFloat.fin_le]
    have hgap := h.gap
    rw [hflat] at hgap
    linarith
  · exact h.power
  · exact h.cash
  · exact .inl hfree.commission

/-- The order of a flat ticker, behind a gate that is open. -/
theorem flat_buys (hfree : Frictionless cfg) (hflat : a.executor.positions t = 0)
    (hopen : ¬ GateShut cfg a.executor t) :
    0 < (execute_trade cfg a.executor (d.request poll t)).2.positions t ∧
    (execute_trade cfg a.executor (d.request poll t)).2.positions t * price ≤ w * value := by
  obtain ⟨v, hwanted, hafford⟩ := h.flat_affordable hfree hflat hopen
  obtain ⟨n, p, conf, hn, hfill, heq⟩ := hafford.fills
  obtain ⟨notional, hslip⟩ := hfill.priced
  obtain rfl : p = price := hfree.slipped hslip
  have hafter : (execute_trade cfg a.executor (d.request poll t)).2.positions t = n := by
    rw [heq]
    show set_amount a.executor.positions (d.request poll t).ticker _ t = _
    rw [h.ticker_eq, set_amount_self, hflat, Side.sign_buy, one_mul, zero_add]
  have hreach := (hfill.toward h.gated).1 hafford.side
  rw [h.ticker_eq, hflat, zero_add, target_notional_open hopen, hwanted,
    le_div_iff₀ h.price_pos] at hreach
  rw [hafter]
  constructor
  · exact_mod_cast hn
  · linarith

/-- Behind a shut gate a flat ticker stays flat. -/
theorem gated_nothing (hflat : a.executor.positions t = 0)
    (hshut : GateShut cfg a.executor t) :
    (execute_trade cfg a.executor (d.request poll t)).2.positions t ≤ 0 := by
  rcases execute_trade_sized cfg a.executor (d.request poll t) with
    ⟨hsame, _⟩ | ⟨x, weight, p, n, conf, hfill, heq⟩
  · rw [hsame, hflat]
  · have hticker := h.ticker_eq
    have hafter : (execute_trade cfg a.executor (d.request poll t)).2.positions t =
        a.executor.positions t +
          (sizing_side cfg a.executor (d.request poll t).toSizeRequest x weight).sign * n := by
      rw [heq]
      show set_amount a.executor.positions (d.request poll t).ticker _ t = _
      rw [hticker, set_amount_self]
    rw [hafter]
    cases hside : sizing_side cfg a.executor (d.request poll t).toSizeRequest x weight with
    | buy =>
      have hend := hfill.gated_buy (by rw [hticker]; exact hshut) hside
      rw [hticker] at hend
      rw [Side.sign_buy, one_mul]
      exact hend
    | sell =>
      have hpos : (0 : ℚ) < n := by exact_mod_cast hfill.quantity_pos
      rw [hflat, Side.sign_sell]
      linarith

/-- **The order** buys, and not beyond the target, exactly for a flat ticker
    behind an open gate. -/
theorem order_buys_iff (hfree : Frictionless cfg) :
    (a.executor.positions t < (send cfg poll t a.executor d).2.positions t ∧
      (send cfg poll t a.executor d).2.positions t * price ≤ w * value) ↔
    a.executor.positions t = 0 ∧ ¬ GateShut cfg a.executor t := by
  rw [h.sent]
  constructor
  · rintro ⟨hmore, _⟩
    by_cases hflat : a.executor.positions t = 0
    · refine ⟨hflat, fun hshut => ?_⟩
      have hnothing := h.gated_nothing hflat hshut
      rw [hflat] at hmore
      exact absurd hmore (not_lt.mpr hnothing)
    · rw [h.held_nothing hfree hflat] at hmore
      exact absurd hmore (lt_irrefl _)
  · rintro ⟨hflat, hopen⟩
    rw [hflat]
    exact h.flat_buys hfree hflat hopen

end WantedPurchase

/-! ### The call -/

/-- What a turn does for its ticker is the order of its decision. -/
theorem turn_decided (hregime : t ≠ regime_ticker)
    (hdecided : verdict settings a.book poll vix_value t = .decided streak d) :
    (turn cfg settings poll vix_value a t).executor = (send cfg poll t a.executor d).2 := by
  unfold turn
  rw [if_neg hregime, hdecided]
  exact carry_out_executor

/-- **A purchase buys exactly what is not held.** At the turn of a ticker for
    which a purchase is wanted, without slippage and commission: its holding
    grows, and not beyond the target weight, if and only if it was flat and no
    sentiment gate is shut. What the turn leaves is what the call leaves, when
    the ticker is listed once. -/
theorem purchase_buys_iff_flat (cfg : Config) (settings : Settings) (poll : Poll) (a : Account)
    (before after : List Ticker) (t : Ticker) (vix_asset : AssetData) (streak : Signal × ℕ)
    (d : Decision) (price w value c : ℚ) (hfree : Frictionless cfg)
    (htickers : settings.tickers = before ++ t :: after) (hregime : t ≠ regime_ticker)
    (hvix : poll.context.market regime_ticker = some vix_asset)
    (h : WantedPurchase cfg settings poll vix_asset.Close t
      (before.foldl (turn cfg settings poll vix_asset.Close) a) streak d price w value c) :
    let arrived := before.foldl (turn cfg settings poll vix_asset.Close) a
    let done := turn cfg settings poll vix_asset.Close arrived t
    ((arrived.executor.positions t < done.executor.positions t ∧
        done.executor.positions t * price ≤ w * value) ↔
      arrived.executor.positions t = 0 ∧ ¬ GateShut cfg arrived.executor t) ∧
    (t ∉ before → arrived.executor.positions t = a.executor.positions t) ∧
    (t ∉ after →
      (on_data cfg settings poll a).executor.positions t = done.executor.positions t) := by
  intro arrived done
  refine ⟨?_, fun hbefore => turns_other hbefore, ?_⟩
  · have hdone : done.executor = (send cfg poll t arrived.executor d).2 :=
      turn_decided hregime h.decided
    rw [hdone]
    exact h.order_buys_iff hfree
  · intro hafter
    have hcall : on_data cfg settings poll a =
        after.foldl (turn cfg settings poll vix_asset.Close) done := by
      unfold on_data
      rw [hvix, htickers]
      simp only [List.foldl_append, List.foldl_cons]
      rfl
    rw [hcall]
    exact turns_other hafter

theorem sample_frictionless : Frictionless sample_config where
  cost_model := rfl
  slippage := rfl
  commission := rfl

/-- The first call of the sample run, with nothing held. -/
def first_poll : Poll := (sample_poll 100 2 0).shown sample_config before_purchase.executor

theorem first_wanted : WantedPurchase sample_config sample_settings first_poll (.fin 15)
    sample_ticker before_purchase (.buy, 1) sample_decision 100 1 1000 (39 / 40) where
  decided := sample_verdict
  buys := rfl
  shown := rfl
  no_short := by decide +kernel
  price_eq := rfl
  price_pos := by norm_num
  target := by decide +kernel
  value_eq := by decide +kernel
  confidence_eq := rfl
  gap := by decide +kernel
  cash := by decide +kernel
  power := by decide +kernel

/-- It buys. -/
theorem purchase_buys_first : before_purchase.executor.positions sample_ticker <
    (on_data sample_config sample_settings first_poll before_purchase).executor.positions
      sample_ticker := by
  obtain ⟨hiff, _, hcall⟩ := purchase_buys_iff_flat sample_config sample_settings first_poll
    before_purchase [] [regime_ticker] sample_ticker (flat_bar 15) (.buy, 1) sample_decision
    100 1 1000 (39 / 40) sample_frictionless rfl (by decide) rfl first_wanted
  rw [hcall (by decide)]
  apply (hiff.mpr ⟨by decide +kernel, ?_⟩).1
  intro hshut
  obtain ⟨gate, _, hgate, _⟩ := hshut
  exact absurd hgate (by simp [sample_config])

/-! ### A purchase that buys nothing -/

/-- The nine shares bought at 100 are worth 95 each: 855 of 955. -/
def drifted : Account := run sample_config sample_settings
  (purchase_events ++ [.update_price sample_ticker 95])

def drifted_poll : Poll := (sample_poll 95 2 5).shown sample_config drifted.executor

/-- A purchase, sized from the weight that is there. -/
def drifted_decision : Decision where
  raw := .plain .buy
  confidence := .fin 1
  weight := some (.fin (171 / 191))
  price := .fin 95
  regime := .low_vol

theorem drifted_wanted : WantedPurchase sample_config sample_settings drifted_poll (.fin 15)
    sample_ticker drifted (.buy, 2) drifted_decision 95 1 955 1 where
  decided := by decide +kernel
  buys := rfl
  shown := rfl
  no_short := by decide +kernel
  price_eq := rfl
  price_pos := by norm_num
  target := by decide +kernel
  value_eq := by decide +kernel
  confidence_eq := rfl
  gap := by decide +kernel
  cash := by decide +kernel
  power := by decide +kernel

/-- A share more is wanted and affordable. Nothing is bought, and the entry
    price moves to that of the purchase. -/
theorem drifted_buys_nothing :
    WantedPurchase sample_config sample_settings drifted_poll (.fin 15) sample_ticker drifted
      (.buy, 2) drifted_decision 95 1 955 1 ∧
    drifted.executor.positions sample_ticker = 9 ∧
    (on_data sample_config sample_settings drifted_poll drifted).executor.positions
      sample_ticker = 9 ∧
    (on_data sample_config sample_settings drifted_poll drifted).book.entry_price
      sample_ticker = some (.fin 95) := by
  refine ⟨drifted_wanted, ?_, ?_, ?_⟩
  · decide +kernel
  · decide +kernel
  · decide +kernel

end RegimeAdaptive
