import BacktestVisualizer.Engine.ExplicitTargets
import BacktestVisualizer.Engine.RegimeAdaptive

/-! # The Books of the Regime-Adaptive Strategy

  The strategy writes its entry prices from its decisions. They describe the
  positions as long as every decision comes to what it says: a purchase opens
  a flat position, a sale closes all of one. `entries_follow_fills` is that,
  over runs; `stop_loss_halves` is a run in which half of a position is left
  without an entry, and so without a stop-loss.
-/

namespace Engine

/-! ### Orders without an order manager -/

/-- The call of `execute_trade` in `_place`. -/
def placed_request (ctx : StrategyContext) (t : Ticker) (signal_type : Signal)
    (confidence ticker_weight : Numeric) (target_weight : Option Numeric) (close : PyFloat) :
    TradeRequest where
  signal_type := signal_type
  ticker := t
  arrival_price := some close
  confidence := confidence
  port_notional := some ctx.total_value
  ticker_weight := ticker_weight
  target_weight := target_weight
  portfolio_id := ctx.portfolio_id
  timestamp := some ctx.time

theorem place_direct {cfg : Config} {s : Executor} {ctx : StrategyContext} {t : Ticker}
    {asset : AssetData} (hdirect : ctx.has_order_manager = false)
    (hasset : ctx.market t = some asset) (hclose : ¬ asset.Close ≤ .fin 0) (signal_type : Signal)
    (confidence ticker_weight : Numeric) (target_weight : Option Numeric) :
    place cfg ctx s t signal_type confidence ticker_weight target_weight =
      (.executed (execute_trade cfg s (placed_request ctx t signal_type confidence ticker_weight
          target_weight asset.Close)).1,
        (execute_trade cfg s (placed_request ctx t signal_type confidence ticker_weight
          target_weight asset.Close)).2) := by
  unfold place
  simp only [hasset, if_neg hclose, hdirect, Bool.false_eq_true, if_false]
  rfl

/-! ### A purchase by weight -/

/-- A lower bound of both is one of the smaller. -/
theorem le_py_min {b : ℚ} {x y : PyFloat} (hx : .fin b ≤ x) (hy : .fin b ≤ y) :
    .fin b ≤ PyFloat.py_min x y := by
  unfold PyFloat.py_min
  split
  · exact hy
  · exact hx

section Purchase

variable {cfg : Config} {s : Executor} {x : SizeInputs} {weight : PyFloat} {p : ℚ}

/-- A purchase for a flat ticker, sized by weight, for which the confident part
    of the target, the buying power and the cash are each worth a share and a
    dollar, and whose fees leave room for a share. -/
structure Affordable (cfg : Config) (s : Executor) (r : SizeRequest) (x : SizeInputs)
    (weight : PyFloat) (p : ℚ) : Prop where
  flat : s.positions r.ticker = 0
  signal : r.signal_type = .buy
  converted : r.convert = some x
  by_weight : x.target_weight = none
  weight_eq : sizing_weight cfg x = some weight
  confident : 0 < x.confidence
  arrival : ∃ a, x.arrival_price = .fin a
  priced : apply_slippage cfg x.arrival_price .buy r.ticker
    (x.port_notional * weight * .fin x.confidence).abs = .fin p
  price_pos : 0 < p
  worth : .fin (max 1 p) ≤ gated_notional cfg s r x weight * .fin x.confidence
  power : .fin (max 1 p) ≤ calculate_buying_power cfg s x.port_notional
  cash : max 1 p ≤ s.cash
  fees : cfg.commission_per_share = 0 ∨
    ∃ limit, commission_quantity_limit cfg s p .buy x.port_notional 0 = some limit ∧
      .fin 1 ≤ limit

/-- A number of dollars that is worth a share buys one. -/
theorem floor_div_pos {tradable : PyFloat} {cap : ℚ} (hp : 0 < p)
    (hworth : .fin (max 1 p) ≤ tradable) (hcap : tradable.at_most cap) :
    ∃ n : ℤ, (tradable.div_rat p).floor = some n ∧ 0 < n := by
  cases tradable with
  | fin d =>
    rw [PyFloat.fin_le] at hworth
    refine ⟨⌊d / p⌋, rfl, Int.floor_pos.mpr ?_⟩
    rw [one_le_div hp]
    exact le_trans (le_max_right _ _) hworth
  | pos_inf =>
    -- an amount with a bound is no infinity
    have hle : PyFloat.fin (cap + 1) ≤ .pos_inf := rfl
    have := hcap (cap + 1) hle
    linarith
  | neg_inf => exact absurd hworth Bool.false_ne_true
  | nan => exact absurd hworth Bool.false_ne_true

/-- What is worth a dollar is above nothing and not below a dollar. -/
theorem worth_pos {desired : PyFloat} (h : .fin (max 1 p) ≤ desired) :
    .fin 0 < desired ∧ ¬ desired.abs < .fin 1 := by
  cases desired with
  | fin d =>
    rw [PyFloat.fin_le] at h
    have hd : 1 ≤ d := le_trans (le_max_left _ _) h
    rw [PyFloat.fin_lt, PyFloat.abs_fin, PyFloat.fin_lt, not_lt]
    exact ⟨by linarith, le_trans hd (le_abs_self d)⟩
  | pos_inf => exact ⟨rfl, Bool.false_ne_true⟩
  | neg_inf => exact absurd h Bool.false_ne_true
  | nan => exact absurd h Bool.false_ne_true

theorem weighted_quantity_affordable {desired : PyFloat} (hp : 0 < p)
    (hworth : .fin (max 1 p) ≤ desired)
    (hpower : .fin (max 1 p) ≤ calculate_buying_power cfg s x.port_notional)
    (hcash : max 1 p ≤ s.cash)
    (hfees : cfg.commission_per_share = 0 ∨
      ∃ limit, commission_quantity_limit cfg s p .buy x.port_notional 0 = some limit ∧
        .fin 1 ≤ limit) :
    ∃ n : ℤ, weighted_quantity cfg s x desired .buy p = some n ∧ 0 < n := by
  have hpos : .fin 0 < desired := (worth_pos hworth).1
  have habs : desired.abs = desired := by
    cases desired with
    | fin d =>
      rw [PyFloat.fin_lt] at hpos
      rw [PyFloat.abs_fin, abs_of_pos hpos]
    | pos_inf => rfl
    | neg_inf => exact absurd hpos Bool.false_ne_true
    | nan => exact absurd hpos Bool.false_ne_true
  have htradable : tradable_notional cfg s x desired = PyFloat.py_min
      (PyFloat.py_min desired (calculate_buying_power cfg s x.port_notional)) (.fin s.cash) := by
    unfold tradable_notional
    simp only [if_pos hpos, habs]
  have henough : .fin (max 1 p) ≤ tradable_notional cfg s x desired := by
    rw [htradable]
    exact le_py_min (le_py_min hworth hpower) ((PyFloat.fin_le _ _).mpr hcash)
  obtain ⟨n, hn, hnpos⟩ := floor_div_pos hp henough (tradable_at_most_cash hpos)
  have hnot : ¬ tradable_notional cfg s x desired < .fin 1 := by
    cases htr : tradable_notional cfg s x desired with
    | fin d =>
      rw [htr, PyFloat.fin_le] at henough
      rw [PyFloat.fin_lt, not_lt]
      exact le_trans (le_max_left _ _) henough
    | pos_inf => exact Bool.false_ne_true
    | neg_inf => rw [htr] at henough; exact absurd henough Bool.false_ne_true
    | nan => exact Bool.false_ne_true
  have hweighted : weighted_quantity cfg s x desired .buy p =
      (do
        let n ← ((tradable_notional cfg s x desired).div_rat p).floor
        if cfg.commission_per_share = 0 then some (max 0 n)
        else
          let limit ← commission_quantity_limit cfg s p .buy x.port_notional 0
          let m ← limit.floor
          some (max 0 (min n m))) := if_neg hnot
  rw [hweighted, hn]
  rcases hfees with hfree | ⟨limit, hlimit, hone⟩
  · exact ⟨max 0 n, if_pos hfree, lt_max_of_lt_right hnpos⟩
  · by_cases hfree : cfg.commission_per_share = 0
    · exact ⟨max 0 n, if_pos hfree, lt_max_of_lt_right hnpos⟩
    · -- a purchase's limit is a number, because cash bounds it
      obtain ⟨q, rfl, _⟩ := limit_covers hp hlimit (by simp)
      have hm : 0 < ⌊q⌋ := Int.floor_pos.mpr ((PyFloat.fin_le _ _).mp hone)
      refine ⟨max 0 (min n ⌊q⌋), ?_, lt_max_of_lt_right (lt_min hnpos hm)⟩
      show (if cfg.commission_per_share = 0 then some (max 0 n) else _) = _
      rw [if_neg hfree, hlimit]
      rfl

variable {r : TradeRequest}

/-- What a target is worth, it is above nothing. -/
theorem Affordable.gated_pos (h : Affordable cfg s r.toSizeRequest x weight p) :
    .fin 0 < gated_notional cfg s r.toSizeRequest x weight := by
  have hworth := h.worth
  have hconf := h.confident
  cases hg : gated_notional cfg s r.toSizeRequest x weight with
  | fin g =>
    rw [hg, PyFloat.fin_mul, PyFloat.fin_le] at hworth
    rw [PyFloat.fin_lt]
    have hpos : 0 < g * x.confidence :=
      lt_of_lt_of_le (lt_max_of_lt_left zero_lt_one) hworth
    exact (mul_pos_iff_of_pos_right hconf).mp hpos
  | pos_inf => rfl
  | neg_inf =>
    rw [hg] at hworth
    have hneg : PyFloat.neg_inf * .fin x.confidence = .neg_inf := by
      show PyFloat.scale x.confidence .neg_inf = _
      rw [PyFloat.scale, if_neg (ne_of_gt hconf), if_pos hconf]
    rw [hneg] at hworth
    exact absurd hworth Bool.false_ne_true
  | nan =>
    rw [hg] at hworth
    have hnan : PyFloat.nan * .fin x.confidence = .nan := by
      show PyFloat.scale x.confidence .nan = _
      rw [PyFloat.scale, if_neg (ne_of_gt hconf), if_pos hconf]
    rw [hnan] at hworth
    exact absurd hworth Bool.false_ne_true

theorem Affordable.current (h : Affordable cfg s r.toSizeRequest x weight p) :
    current_notional s r.toSizeRequest x = .fin 0 := by
  obtain ⟨a, ha⟩ := h.arrival
  unfold current_notional
  rw [ha, h.flat, PyFloat.fin_mul, zero_mul]

theorem Affordable.side (h : Affordable cfg s r.toSizeRequest x weight p) :
    sizing_side cfg s r.toSizeRequest x weight = .buy := by
  unfold sizing_side
  rw [h.current]
  exact if_pos h.gated_pos

/-- **An affordable purchase** is sized to a share at least. -/
theorem Affordable.size (h : Affordable cfg s r.toSizeRequest x weight p) :
    ∃ z, default_trade_size cfg s r.toSizeRequest = some z ∧ 0 < z.quantity := by
  have hactive : ¬ (r.signal_type = .invalid ∨ r.signal_type = .hold ∨ x.confidence = 0) := by
    rw [h.signal]
    simp [ne_of_gt h.confident]
  have hsize : default_trade_size cfg s r.toSizeRequest =
      size_at cfg s r.ticker x (gated_notional cfg s r.toSizeRequest x weight) .buy p := by
    unfold default_trade_size
    simp only [h.converted, if_neg hactive, h.weight_eq, h.by_weight]
    have hside := h.side
    unfold sizing_side gated_notional current_notional at hside
    simp only [hside, h.priced, if_neg (not_le.mpr h.price_pos)]
    rfl
  have hdesired : (gated_notional cfg s r.toSizeRequest x weight -
      .fin (s.positions r.ticker * p)) * .fin x.confidence =
      gated_notional cfg s r.toSizeRequest x weight * .fin x.confidence := by
    rw [h.flat, zero_mul]
    cases gated_notional cfg s r.toSizeRequest x weight with
    | fin g => rw [PyFloat.fin_sub, sub_zero]
    | pos_inf => rfl
    | neg_inf => rfl
    | nan => rfl
  obtain ⟨hpos, hdollar⟩ := worth_pos h.worth
  obtain ⟨n, hn, hnpos⟩ := weighted_quantity_affordable h.price_pos h.worth h.power h.cash h.fees
  rw [hsize]
  unfold size_at
  simp only [hdesired, h.by_weight]
  rw [if_neg (by simp [hpos]), if_neg (fun hsmall => hdollar hsmall.1), hn]
  exact ⟨_, rfl, hnpos⟩

/-- **It is filled**: one share or more, bought for the flat position. -/
theorem Affordable.fills (h : Affordable cfg s r.toSizeRequest x weight p) :
    ∃ (n : ℤ) (p' : ℚ) (conf : PyFloat), 0 < n ∧
      SizedFill cfg s r.toSizeRequest x weight p' n ∧
      execute_trade cfg s r = (.success n p' (n * cfg.commission_per_share),
        settle cfg s r.ticker .buy n p' conf r.portfolio_id r.timestamp) := by
  obtain ⟨z, hz, hq⟩ := h.size
  obtain ⟨x', weight', p', conf, hfill, _, heq⟩ := execute_trade_of_size cfg s hz hq
  obtain rfl : x = x' := Option.some.inj (h.converted.symm.trans hfill.converted)
  obtain rfl : weight = weight' := Option.some.inj (h.weight_eq.symm.trans hfill.weight_eq)
  rw [h.side] at heq
  exact ⟨z.quantity, p', conf, hq, hfill, heq⟩

end Purchase

/-! ### A complete sale -/

section Sale

variable {cfg : Config} {s : Executor}

/-- A sale of a long that leaves nothing: at full confidence, at a price, and
    with fees that leave room for all of it. -/
structure Closable (cfg : Config) (s : Executor) (ctx : StrategyContext) (t : Ticker)
    (confidence : PyFloat) (value price p : ℚ) : Prop where
  asset : ∃ asset, ctx.market t = some asset ∧ asset.Close = .fin price
  direct : ctx.has_order_manager = false
  value_eq : ctx.total_value = .fin value
  price_pos : 0 < price
  full : confidence = .fin 1
  priced : apply_slippage cfg (.fin price) .sell t (.fin (s.positions t * price)) = .fin p
  exec_pos : 0 < p
  fees : ∃ limit, commission_quantity_limit cfg s p .sell (.fin value) (s.positions t) =
    some limit ∧ .fin (s.positions t) ≤ limit

/-- The inputs of a complete sale. -/
def close_inputs (value price : ℚ) : SizeInputs where
  arrival_price := .fin price
  confidence := 1
  port_notional := .fin value
  ticker_weight := .fin 0
  target_weight := some 0

theorem Closable.size {ctx : StrategyContext} {t : Ticker} {confidence : PyFloat}
    {value price p : ℚ} (h : Closable cfg s ctx t confidence value price p) {k : ℤ}
    (hwhole : s.positions t = k) (hlong : 0 < s.positions t) :
    ∃ z, default_trade_size cfg s
        (sell_request ctx t (some confidence) (.fin price)).toSizeRequest = some z ∧
      z.quantity = k := by
  have hnotional : 0 < s.positions t * price := mul_pos hlong h.price_pos
  have hsale : 0 < s.positions t * p := mul_pos hlong h.exec_pos
  have hk : 0 ≤ k := by
    rw [hwhole] at hlong
    exact_mod_cast le_of_lt hlong
  have hone : clamp_confidence (.fin 1) = 1 := by decide +kernel
  obtain ⟨limit, hlimit, hroom⟩ := h.fees
  have hcapped : PyFloat.py_min (.fin (s.positions t)) limit = .fin (s.positions t) := by
    unfold PyFloat.py_min
    cases limit with
    | fin l =>
      rw [PyFloat.fin_le] at hroom
      exact if_neg (fun hlt => absurd ((PyFloat.fin_lt _ _).mp hlt) (not_lt.mpr hroom))
    | pos_inf => exact if_neg Bool.false_ne_true
    | neg_inf => exact absurd hroom Bool.false_ne_true
    | nan => exact if_neg Bool.false_ne_true
  have hgate : apply_sentiment_gate cfg s t (.fin 0) (.fin (s.positions t * price)) = .fin 0 := by
    apply apply_sentiment_gate_below
    rw [PyFloat.py_max_fin, PyFloat.fin_le]
    exact le_max_right _ _
  have hquantity : explicit_quantity cfg s (close_inputs value price) (.fin 0)
      (s.positions t) .sell p = some k := by
    unfold explicit_quantity close_inputs
    simp only [hlimit, PyFloat.div_rat_fin, PyFloat.fin_sub, PyFloat.abs_fin, PyFloat.fin_mul,
      zero_div, zero_sub, abs_neg, abs_of_pos hlong, mul_one]
    show (do
      let n ← (PyFloat.py_min (.fin (s.positions t)) limit).floor
      some (max 0 n)) = some k
    rw [hcapped, hwhole, PyFloat.floor_fin, Int.floor_intCast]
    simp [hk]
  -- a long is above its zero target, so the order sells
  have hconvert : (sell_request ctx t (some confidence) (.fin price)).toSizeRequest.convert =
      some (close_inputs value price) := by
    simp [SizeRequest.convert, sell_request, close_inputs, h.value_eq, h.full, hone]
  have hsize : default_trade_size cfg s
      (sell_request ctx t (some confidence) (.fin price)).toSizeRequest =
      size_at cfg s t (close_inputs value price) (.fin 0) .sell p := by
    unfold default_trade_size
    simp only [hconvert]
    simp only [sell_request, close_inputs, sizing_weight, wanted_notional, mul_zero,
      PyFloat.fin_mul, hgate]
    simp [abs_of_pos hnotional, h.priced, not_le.mpr h.exec_pos, not_lt.mpr (le_of_lt hnotional)]
  rw [hsize]
  unfold size_at
  simp only [close_inputs, PyFloat.fin_sub, PyFloat.fin_mul, PyFloat.fin_lt]
  rw [if_neg (by simp [le_of_lt hsale]), if_neg (fun hsmall => hsmall.2 rfl)]
  have hq := hquantity
  unfold close_inputs at hq
  rw [hq]
  exact ⟨_, rfl, rfl⟩

/-- **It closes**: nothing of the long is left. -/
theorem Closable.closes {ctx : StrategyContext} {t : Ticker} {confidence : PyFloat}
    {value price p : ℚ} (h : Closable cfg s ctx t confidence value price p) {k : ℤ}
    (hwhole : s.positions t = k) (hlong : 0 < s.positions t) :
    ∃ n p' fees, (sell cfg ctx s t (some confidence)).1 = .executed (.success n p' fees) ∧
      (sell cfg ctx s t (some confidence)).2.positions = set_amount s.positions t 0 := by
  obtain ⟨z, hz, hq⟩ := h.size hwhole hlong
  obtain ⟨asset, hasset, hclose⟩ := h.asset
  have hkpos : 0 < z.quantity := by
    rw [hq]
    rw [hwhole] at hlong
    exact_mod_cast hlong
  have harrival : ∀ price', (sell_request ctx t (some confidence) (.fin price)).arrival_price =
      some (.fin price') → 0 < price' := by
    intro price' hprice'
    rw [← PyFloat.fin.inj (Option.some.inj hprice')]
    exact h.price_pos
  obtain ⟨x, weight, p', conf, hfill, _, heq⟩ := execute_trade_of_size cfg s hz hkpos
  obtain ⟨hsell, _, _⟩ := hfill.closing rfl hlong harrival
  have hpositive : ¬ asset.Close ≤ .fin 0 := by
    rw [hclose, PyFloat.fin_le]
    exact not_le.mpr h.price_pos
  have hplace : sell cfg ctx s t (some confidence) =
      (.executed (execute_trade cfg s (sell_request ctx t (some confidence) (.fin price))).1,
        (execute_trade cfg s (sell_request ctx t (some confidence) (.fin price))).2) := by
    unfold sell
    rw [if_pos hlong, place_direct h.direct hasset hpositive, hclose]
    rfl
  rw [hplace, heq]
  refine ⟨_, _, _, rfl, ?_⟩
  show set_amount s.positions t (s.positions t + _ * _) = _
  rw [hsell, hq, hwhole, Side.sign_sell]
  congr 1
  ring

end Sale

end Engine

namespace RegimeAdaptive

open Engine

variable {cfg : Config} {settings : Settings} {poll : Poll} {t : Ticker} {d : Decision}
  {s : Executor} {a : Account} {vix_value : PyFloat} {streak : Signal × ℕ}

/-! ### What a decision is -/

/-- A decision buys or sells, at the close the context shows. -/
structure Sound (poll : Poll) (t : Ticker) (d : Decision) : Prop where
  signal : d.raw.signal = .buy ∨ d.raw.signal = .sell
  price : ∃ asset, poll.context.market t = some asset ∧ d.price = asset.Close

theorem raw_signal_cases (book : Book) (t : Ticker) (is_high_vol : Bool) (l : Levels) :
    (raw_signal book t is_high_vol l).signal = .buy ∨
    (raw_signal book t is_high_vol l).signal = .sell ∨
    (raw_signal book t is_high_vol l).signal = .hold := by
  unfold raw_signal
  split
  · exact .inr (.inl rfl)
  · split
    · split
      · exact .inr (.inl rfl)
      · split
        · exact .inl rfl
        · split
          · exact .inr (.inl rfl)
          · exact .inr (.inr rfl)
    · split
      · exact .inl rfl
      · split
        · exact .inr (.inl rfl)
        · exact .inr (.inr rfl)

theorem levels_price {l : Levels} (h : levels poll t = some l) :
    (∃ asset, poll.context.market t = some asset ∧ l.price = asset.Close) ∧
      l.quantity = poll.positions t := by
  unfold levels at h
  obtain ⟨asset, hasset, hrest⟩ := Option.bind_eq_some_iff.mp h
  split at hrest
  · obtain ⟨vwap, _, h₁⟩ := Option.bind_eq_some_iff.mp hrest
    obtain ⟨atr, _, h₂⟩ := Option.bind_eq_some_iff.mp h₁
    obtain ⟨momentum, _, h₃⟩ := Option.bind_eq_some_iff.mp h₂
    obtain ⟨sma50, _, h₄⟩ := Option.bind_eq_some_iff.mp h₃
    obtain rfl := Option.some.inj h₄
    exact ⟨⟨asset, hasset, rfl⟩, rfl⟩
  · exact absurd hrest (by simp)

/-- What the loop body has passed when it sends out an order. -/
theorem verdict_decided {book : Book}
    (h : verdict settings book poll vix_value t = .decided streak d) :
    ∃ l is_high_vol target, levels poll t = some l ∧ target_weight settings t = some target ∧
      d.raw = raw_signal book t is_high_vol l ∧ d.price = l.price ∧ d.raw.signal ≠ .hold ∧
      ¬ (d.raw.signal = .buy ∧ near_target target (get_asset_weight poll t l.price)) ∧
      d.weight = (if get_asset_weight poll t l.price = .fin 0 then target
        else some (get_asset_weight poll t l.price)) := by
  unfold verdict at h
  split at h
  · exact absurd h (by simp)
  · split at h
    · rename_i l is_high_vol hl hhigh
      simp only at h
      split at h
      · exact absurd h (by simp)
      · split at h
        · exact absurd h (by simp)
        · split at h
          · exact absurd h (by simp)
          · rename_i target htarget
            split at h
            · exact absurd h (by simp)
            · rename_i hnear
              split at h
              · exact absurd h (by simp)
              · rename_i hhold
                obtain ⟨_, rfl⟩ := Verdict.decided.inj h
                exact ⟨l, is_high_vol, target, hl, htarget, rfl, rfl, hhold, hnear, rfl⟩
    · exact absurd h (by simp)

theorem verdict_sound {book : Book}
    (h : verdict settings book poll vix_value t = .decided streak d) : Sound poll t d := by
  obtain ⟨l, is_high_vol, _, hl, _, hraw, hprice, hhold, _, _⟩ := verdict_decided h
  obtain ⟨asset, hasset, hclose⟩ := (levels_price hl).1
  refine ⟨?_, asset, hasset, hprice.trans hclose⟩
  rcases raw_signal_cases book t is_high_vol l with hbuy | hsell | hnone
  · exact .inl (by rw [hraw, hbuy])
  · exact .inr (by rw [hraw, hsell])
  · exact absurd (by rw [hraw, hnone]) hhold

/-! ### What it comes to -/

/-- What the order of a decision hands to the executor. -/
def Decision.request (d : Decision) (poll : Poll) (t : Ticker) : TradeRequest :=
  if d.raw.signal = .buy then
    placed_request poll.context t .buy (some d.confidence) d.weight none d.price
  else sell_request poll.context t (some d.confidence) d.price

/-- A decision comes to what it says: a purchase opens a flat position with a
    share or more, a sale closes all of a position. An order whose sizing
    raises comes to nothing, in the books as well. -/
def Fulfilled (cfg : Config) (poll : Poll) (t : Ticker) (s : Executor) (d : Decision) : Prop :=
  ¬ d.price ≤ .fin 0 ∧
    (default_trade_size cfg s (d.request poll t).toSizeRequest = none ∨
      (d.raw.signal = .buy ∧
        ∃ x weight p, Affordable cfg s (d.request poll t).toSizeRequest x weight p) ∨
      (d.raw.signal = .sell ∧ 0 < s.positions t ∧
        ∃ value price p, Closable cfg s poll.context t d.confidence value price p)) ∨
  (d.raw.signal = .sell ∧ s.positions t = 0)

/-- The order of a decision is one `execute_trade`. -/
theorem send_direct (cfg : Config) (hsound : Sound poll t d) (hprice : ¬ d.price ≤ .fin 0)
    (hheld : d.raw.signal = .sell → 0 < s.positions t) :
    send cfg poll t s d =
      (.executed (execute_trade cfg s (d.request poll t)).1,
        (execute_trade cfg s (d.request poll t)).2) := by
  obtain ⟨asset, hasset, hclose⟩ := hsound.price
  rw [hclose] at hprice
  unfold send Decision.request
  by_cases hbuy : d.raw.signal = .buy
  · simp only [if_pos hbuy, hclose]
    exact place_direct poll.direct hasset hprice _ _ _ _
  · have hsell : d.raw.signal = .sell := hsound.signal.resolve_left hbuy
    simp only [if_neg hbuy, hclose]
    unfold sell
    rw [if_pos (hheld hsell)]
    exact place_direct poll.direct hasset hprice _ _ _ _

/-! ### The books follow the fills -/

/-- The entry prices are those of the open positions, each the close of the
    last purchase that was filled. -/
structure Followed (a : Account) : Prop where
  whole : ∀ t, ∃ n : ℕ, a.executor.positions t = n
  entered : ∀ t, 0 < a.executor.positions t →
    ∃ price, a.book.entry_price t = some price ∧ a.last_bought t = some price
  left : ∀ t, a.executor.positions t = 0 → a.book.entry_price t = none

/-- Nothing of it depends on prices, times or streaks. -/
theorem Followed.congr {a' : Account} (h : Followed a)
    (hpositions : a'.executor.positions = a.executor.positions)
    (hentry : a'.book.entry_price = a.book.entry_price) (hbought : a'.last_bought = a.last_bought) :
    Followed a' := by
  constructor
  · intro t
    rw [hpositions]
    exact h.whole t
  · intro t ht
    rw [hpositions] at ht
    rw [hentry, hbought]
    exact h.entered t ht
  · intro t ht
    rw [hpositions] at ht
    rw [hentry]
    exact h.left t ht

theorem Followed.init : Followed (.init cfg) where
  whole := fun _ => ⟨0, by simp [Account.init, Executor.init]⟩
  entered := fun _ ht => absurd ht (lt_irrefl 0)
  left := fun _ _ => rfl

/-- A purchase that opens a position. -/
theorem Followed.bought (h : Followed a) {n : ℤ} (hn : 0 < n) {a' : Account}
    (hpositions : a'.executor.positions = set_amount a.executor.positions t n)
    {price : PyFloat} (hentry : a'.book.entry_price = put a.book.entry_price t (some price))
    (hbought : a'.last_bought = put a.last_bought t (some price)) : Followed a' := by
  have hcast : (0 : ℚ) < n := by exact_mod_cast hn
  constructor
  · intro u
    rw [hpositions]
    by_cases hu : u = t
    · rw [hu, set_amount_self]
      exact ⟨n.toNat, by rw [← Int.cast_natCast, Int.toNat_of_nonneg (le_of_lt hn)]⟩
    · rw [set_amount_ne _ _ hu]
      exact h.whole u
  · intro u hpos
    rw [hentry, hbought]
    by_cases hu : u = t
    · rw [hu, put_self, put_self]
      exact ⟨price, rfl, rfl⟩
    · rw [put_ne _ _ hu, put_ne _ _ hu]
      rw [hpositions, set_amount_ne _ _ hu] at hpos
      exact h.entered u hpos
  · intro u hzero
    rw [hpositions] at hzero
    by_cases hu : u = t
    · rw [hu, set_amount_self] at hzero
      exact absurd hzero (ne_of_gt hcast)
    · rw [set_amount_ne _ _ hu] at hzero
      rw [hentry, put_ne _ _ hu]
      exact h.left u hzero

/-- A sale that leaves nothing. -/
theorem Followed.sold (h : Followed a) {a' : Account}
    (hpositions : a'.executor.positions = set_amount a.executor.positions t 0)
    (hentry : a'.book.entry_price = put a.book.entry_price t none)
    (hbought : a'.last_bought = a.last_bought) : Followed a' := by
  constructor
  · intro u
    rw [hpositions]
    by_cases hu : u = t
    · rw [hu, set_amount_self]
      exact ⟨0, by simp⟩
    · rw [set_amount_ne _ _ hu]
      exact h.whole u
  · intro u hpos
    rw [hpositions] at hpos
    by_cases hu : u = t
    · rw [hu, set_amount_self] at hpos
      exact absurd hpos (lt_irrefl 0)
    · rw [set_amount_ne _ _ hu] at hpos
      rw [hentry, hbought, put_ne _ _ hu]
      exact h.entered u hpos
  · intro u hzero
    rw [hentry]
    by_cases hu : u = t
    · rw [hu, put_self]
    · rw [put_ne _ _ hu]
      rw [hpositions, set_amount_ne _ _ hu] at hzero
      exact h.left u hzero

/-- **An order** that comes to what its decision says keeps the books. -/
theorem Followed.carry_out (h : Followed a) (hsound : Sound poll t d)
    (hfulfilled : Fulfilled cfg poll t a.executor d) : Followed (carry_out cfg poll t d a) := by
  have hbuysell : d.raw.signal = .sell → d.raw.signal ≠ .buy := by
    intro hsell
    rw [hsell]
    decide
  by_cases hgone : d.raw.signal = .sell ∧ a.executor.positions t = 0
  · -- a sale of what is not held: the entry of a flat ticker is deleted
    obtain ⟨hsell, hzero⟩ := hgone
    have hsend : send cfg poll t a.executor d = (.not_held, a.executor) := by
      unfold send
      rw [if_neg (hbuysell hsell)]
      exact if_neg (by rw [hzero]; exact lt_irrefl 0)
    unfold RegimeAdaptive.carry_out
    simp only [hsend, raised, if_neg (hbuysell hsell), Bool.false_eq_true, if_false]
    apply Followed.sold h (t := t)
    · funext u
      by_cases hu : u = t
      · rw [hu, set_amount_self, hzero]
      · rw [set_amount_ne _ _ hu]
    · rfl
    · rfl
  · have hheld : d.raw.signal = .sell → 0 < a.executor.positions t := by
      intro hsell
      obtain ⟨n, hn⟩ := h.whole t
      have hne : a.executor.positions t ≠ 0 := fun hzero => hgone ⟨hsell, hzero⟩
      rw [hn] at hne ⊢
      exact lt_of_le_of_ne (Nat.cast_nonneg n) (Ne.symm hne)
    obtain ⟨hprice, hcases⟩ := hfulfilled.resolve_right hgone
    have hsend := send_direct cfg hsound hprice hheld
    rcases hcases with hunsized | ⟨hbuy, x, weight, p, hafford⟩ |
      ⟨hsell, hlong, value, price, p, hclose⟩
    · -- the sizing raises, and nothing is written
      have hraised : execute_trade cfg a.executor (d.request poll t) = (.raised, a.executor) := by
        unfold execute_trade
        rw [hunsized]
      unfold RegimeAdaptive.carry_out
      simp only [hsend, hraised, raised, if_true]
      exact h
    · obtain ⟨n, p', conf, hn, _, hfill⟩ := hafford.fills
      have hticker : (d.request poll t).ticker = t := by
        unfold Decision.request
        rw [if_pos hbuy]
        rfl
      have hflat := hafford.flat
      rw [hticker] at hflat
      unfold RegimeAdaptive.carry_out
      simp only [hsend, hfill, raised, filled, if_pos hbuy, Bool.false_eq_true, if_false, if_true]
      apply Followed.bought h (t := t) hn
      · show set_amount a.executor.positions (d.request poll t).ticker _ = _
        rw [hticker, hflat, Side.sign_buy, one_mul, zero_add]
      · rfl
      · rfl
    · obtain ⟨k, hk⟩ := h.whole t
      obtain ⟨n, p', fees, hplaced, hpositions⟩ :=
        hclose.closes (k := k) (by rw [hk]; simp) hlong
      have hsell' : send cfg poll t a.executor d =
          sell cfg poll.context a.executor t (some d.confidence) := by
        unfold send
        rw [if_neg (hbuysell hsell)]
      unfold RegimeAdaptive.carry_out
      simp only [hsell', hplaced, raised, if_neg (hbuysell hsell), Bool.false_eq_true, if_false]
      apply Followed.sold h (t := t) hpositions
      · rfl
      · rfl

/-! ### Calls and runs -/

/-- Every decision of the rest of a call comes to what it says. -/
def FulfilledCall (cfg : Config) (settings : Settings) (poll : Poll) (vix_value : PyFloat) :
    List Ticker → Account → Prop
  | [], _ => True
  | t :: rest, a =>
      (∀ streak d, t ≠ regime_ticker →
        verdict settings a.book poll vix_value t = .decided streak d →
        Fulfilled cfg poll t a.executor d) ∧
      FulfilledCall cfg settings poll vix_value rest (turn cfg settings poll vix_value a t)

theorem Followed.turn (h : Followed a)
    (hfulfilled : ∀ streak d, t ≠ regime_ticker →
      verdict settings a.book poll vix_value t = .decided streak d →
      Fulfilled cfg poll t a.executor d) :
    Followed (turn cfg settings poll vix_value a t) := by
  unfold RegimeAdaptive.turn
  by_cases hregime : t = regime_ticker
  · rw [if_pos hregime]
    exact h
  · rw [if_neg hregime]
    cases hv : verdict settings a.book poll vix_value t with
    | skipped => exact h
    | noted streak => exact h.congr rfl rfl rfl
    | decided streak d =>
      have hnoted : Followed { a with book := a.book.note t streak } := h.congr rfl rfl rfl
      exact hnoted.carry_out (verdict_sound hv) (hfulfilled streak d hregime hv)

theorem Followed.turns (tickers : List Ticker) (h : Followed a)
    (hfulfilled : FulfilledCall cfg settings poll vix_value tickers a) :
    Followed (tickers.foldl (RegimeAdaptive.turn cfg settings poll vix_value) a) := by
  induction tickers generalizing a with
  | nil => exact h
  | cons t rest ih => exact ih (h.turn hfulfilled.1) hfulfilled.2

/-- In every call of a run each decision comes to what it says, at the moment
    it is sent out. -/
def FulfilledRun (cfg : Config) (settings : Settings) (events : List Event) : Prop :=
  ∀ before poll vix_asset, before ++ [.on_data poll] <+: events →
    poll.context.market regime_ticker = some vix_asset →
    FulfilledCall cfg settings (poll.shown cfg (run cfg settings before).executor) vix_asset.Close
      settings.tickers (run cfg settings before)

theorem run_snoc (events : List Event) (e : Event) :
    run cfg settings (events ++ [e]) = step cfg settings (run cfg settings events) e := by
  simp [run, List.foldl_append]

theorem followed_run {events : List Event} (h : FulfilledRun cfg settings events) :
    Followed (run cfg settings events) := by
  induction events using List.reverseRecOn with
  | nil => exact Followed.init
  | append_singleton events e ih =>
    have hbefore : Followed (run cfg settings events) := by
      apply ih
      intro before poll vix_asset hpre
      exact h before poll vix_asset (hpre.trans (List.prefix_append _ _))
    rw [run_snoc]
    cases e with
    | update_price u price =>
      apply Followed.congr hbefore
      · show (update_price cfg _ u price).positions = _
        unfold update_price
        split <;> rfl
      · rfl
      · rfl
    | set_time now => exact hbefore.congr rfl rfl rfl
    | on_data poll =>
      show Followed (on_data cfg settings (poll.shown cfg _) _)
      unfold on_data
      cases hvix : (poll.shown cfg (run cfg settings events).executor).context.market
          regime_ticker with
      | none => exact hbefore
      | some vix_asset =>
        exact Followed.turns _ hbefore (h events poll vix_asset (List.prefix_refl _) hvix)

/-- **The entries follow the fills** in every run whose decisions come to what
    they say: no ticker is short, exactly the open positions have an entry
    price, it is the close of the last purchase that was filled, and the
    stop-loss looks at it. -/
theorem entries_follow_fills (cfg : Config) (settings : Settings) (events : List Event)
    (h : FulfilledRun cfg settings events) (t : Ticker) :
    0 ≤ (run cfg settings events).executor.positions t ∧
    (((run cfg settings events).book.entry_price t).isSome ↔
      0 < (run cfg settings events).executor.positions t) ∧
    (0 < (run cfg settings events).executor.positions t →
      ∃ entry, (run cfg settings events).book.entry_price t = some entry ∧
        (run cfg settings events).last_bought t = some entry ∧
        ∀ l : Levels, 0 < l.quantity → stop_loss (run cfg settings events).book t l =
          decide (l.price ≤ entry - stop_loss_atr_mult * l.atr)) := by
  have hfollowed := followed_run h
  obtain ⟨n, hn⟩ := hfollowed.whole t
  refine ⟨?_, ?_, ?_⟩
  · rw [hn]
    exact Nat.cast_nonneg n
  · constructor
    · intro hsome
      by_contra hflat
      have hzero : (run cfg settings events).executor.positions t = 0 := by
        rw [hn] at hflat ⊢
        exact le_antisymm (not_lt.mp hflat) (Nat.cast_nonneg n)
      rw [hfollowed.left t hzero] at hsome
      exact absurd hsome (by simp)
    · intro hlong
      obtain ⟨entry, hentry, _⟩ := hfollowed.entered t hlong
      rw [hentry]
      rfl
  · intro hlong
    obtain ⟨entry, hentry, hbought⟩ := hfollowed.entered t hlong
    refine ⟨entry, hentry, hbought, ?_⟩
    intro l hl
    unfold stop_loss
    rw [hentry]
    simp [hl]

/-! ### A stop-loss that leaves half -/

/-- A ticker beside the VIX. -/
def sample_ticker : Ticker := ⟨"A", by decide⟩

def sample_config : Config where
  initial_capital := 1000
  tickers := [sample_ticker, regime_ticker]
  leverage := 1
  slippage := 0
  cost_model := none
  adv_lookup := fun _ => 0
  sigma_lookup := fun _ => 0
  commission_per_share := 0
  commission_nonneg := no_commission_nonneg
  sentiment_gate := none

def sample_settings : Settings where
  tickers := [sample_ticker, regime_ticker]
  poll_interval := 60
  portfolio_weights := .absent

/-- A bar with one price. -/
def flat_bar (price : ℚ) : AssetData where
  Open := .fin price
  High := .fin price
  Low := .fin price
  Close := .fin price
  Volume := .fin 1
  Timestamp := 0

/-- A call at a price of the ticker and a momentum; the VIX is low. -/
def sample_poll (price momentum : ℚ) (minute : ℤ) : Poll where
  context :=
    { portfolio_id := "3", tickers := [sample_ticker, regime_ticker], weights := .absent
      market := fun t => if t = sample_ticker then some (flat_bar price) else some (flat_bar 15)
      total_value := .fin 0, time := { wall := minute * 60000000, utcoffset := none }
      has_order_manager := false }
  direct := rfl
  positions := fun _ => 0
  indicators := fun _ =>
    { vwap := ⟨true, some (.fin 100)⟩, atr := ⟨true, some (.fin 10)⟩
      momentum_pct := ⟨true, some (.fin momentum)⟩, sma50 := ⟨true, some (.fin 90)⟩ }
  vix_ema := ⟨false, none⟩

/-- What the strategy makes of the first call. -/
def sample_decision : Decision where
  raw := .plain .buy
  confidence := .fin (39 / 40)
  weight := some (.fin 1)
  price := .fin 100
  regime := .low_vol

/-- The run before its first call. -/
def before_purchase : Account := run sample_config sample_settings [.update_price sample_ticker 100]

theorem sample_verdict : verdict sample_settings before_purchase.book
    ((sample_poll 100 2 0).shown sample_config before_purchase.executor) (.fin 15) sample_ticker =
      .decided (.buy, 1) sample_decision := by decide +kernel

/-- The inputs of its order. -/
def sample_inputs : SizeInputs where
  arrival_price := .fin 100
  confidence := 39 / 40
  port_notional := .fin 1000
  ticker_weight := .fin 1
  target_weight := none

theorem sample_affordable : Affordable sample_config before_purchase.executor
    (sample_decision.request ((sample_poll 100 2 0).shown sample_config before_purchase.executor)
      sample_ticker).toSizeRequest sample_inputs (.fin 1) 100 where
  flat := by decide +kernel
  signal := by decide +kernel
  converted := by
    have hconf : clamp_confidence (.fin (39 / 40)) = 39 / 40 := by decide +kernel
    have hvalue : get_port_notional sample_config before_purchase.executor = 1000 := by decide +kernel
    simp [SizeRequest.convert, Decision.request, sample_decision, RawSignal.plain, placed_request,
      Poll.shown, hconf, hvalue, sample_inputs]
  by_weight := rfl
  weight_eq := by decide +kernel
  confident := by norm_num [sample_inputs]
  arrival := ⟨100, rfl⟩
  priced := by decide +kernel
  price_pos := by norm_num
  worth := by decide +kernel
  power := by decide +kernel
  cash := by decide +kernel
  fees := .inl rfl

/-- A purchase at 100. -/
def purchase_events : List Event :=
  [.update_price sample_ticker 100, .on_data (sample_poll 100 2 0)]

theorem purchase_fulfilled : FulfilledRun sample_config sample_settings purchase_events := by
  intro before poll vix_asset hpre hvix
  have hone : before = [.update_price sample_ticker 100] ∧ poll = sample_poll 100 2 0 := by
    unfold purchase_events at hpre
    rcases before with _ | ⟨e, _ | ⟨e', rest⟩⟩
    · simp at hpre
    · simpa using hpre
    · exact absurd hpre.length_le (by simp)
  obtain ⟨rfl, rfl⟩ := hone
  obtain rfl : flat_bar 15 = vix_asset := Option.some.inj hvix
  refine ⟨?_, fun _ _ hregime => absurd rfl hregime, trivial⟩
  intro streak d _ hd
  obtain ⟨_, rfl⟩ := Verdict.decided.inj (sample_verdict.symm.trans hd)
  exact .inl ⟨by decide +kernel, .inr (.inl ⟨rfl, _, _, _, sample_affordable⟩)⟩

/-- Nine shares, entered at 100. -/
theorem entries_follow_purchase :
    ∃ entry, (run sample_config sample_settings purchase_events).book.entry_price sample_ticker =
        some entry ∧
      (run sample_config sample_settings purchase_events).last_bought sample_ticker =
        some entry := by
  have hlong : 0 < (run sample_config sample_settings purchase_events).executor.positions
      sample_ticker := by decide +kernel
  obtain ⟨_, _, hentry⟩ := entries_follow_fills sample_config sample_settings purchase_events
    purchase_fulfilled sample_ticker
  obtain ⟨entry, hbook, hbought, _⟩ := hentry hlong
  exact ⟨entry, hbook, hbought⟩

/-- A purchase at 100, then a close at 50. -/
def sample_events : List Event :=
  [.update_price sample_ticker 100, .on_data (sample_poll 100 2 0),
    .update_price sample_ticker 50, .on_data (sample_poll 50 0 5)]

/-- The stop-loss sells half of the nine shares and deletes the entry: five
    are left that no stop-loss looks at. -/
theorem stop_loss_halves :
    (run sample_config sample_settings sample_events).executor.positions sample_ticker = 5 ∧
    (run sample_config sample_settings sample_events).book.entry_price sample_ticker = none := by
  decide +kernel

end RegimeAdaptive
