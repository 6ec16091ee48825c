import BacktestVisualizer.Engine.OrderSafety

/-! # Orders With an Explicit Target

  An order that names the exposure to end at works in shares: it moves the
  holding toward target notional over execution price, rounded down, capped,
  and only on the side its price was made for. `explicit_shares` is that
  computation on numbers, and `default_trade_size_explicit` that the executor
  does nothing else.
-/

namespace Engine

/-! ### The shares of an explicit order -/

/-- The shares from a holding toward `target` at the price of one side. The
    weight `w` says whether the order closes the position. -/
def explicit_shares (w target price holding confidence limit : ℚ) (side : Side) : ℤ :=
  let desired_notional := (target - holding * price) * confidence
  if decide (0 < desired_notional) ≠ decide (side = .buy) then 0
  else if |desired_notional| < 1 ∧ w ≠ 0 then 0
  else max 0 ⌊min (|target / price - holding| * confidence) limit⌋

section Shares

variable {w target price holding confidence limit : ℚ} {side : Side}

/-- An order whose target lies beyond its price on the other side fills
    nothing. -/
theorem explicit_shares_in_spread
    (h : ¬ (0 < (target - holding * price) * confidence ↔ side = .buy)) :
    explicit_shares w target price holding confidence limit side = 0 := by
  unfold explicit_shares
  exact if_pos (by rwa [ne_eq, decide_eq_decide])

/-- Otherwise the shares on the way, rounded down and capped. -/
theorem explicit_shares_on_side
    (h : 0 < (target - holding * price) * confidence ↔ side = .buy)
    (hsize : ¬ (|(target - holding * price) * confidence| < 1 ∧ w ≠ 0)) :
    explicit_shares w target price holding confidence limit side =
      max 0 ⌊min (|target / price - holding| * confidence) limit⌋ := by
  unfold explicit_shares
  simp only
  rw [if_neg (by rwa [ne_eq, not_not, decide_eq_decide]), if_neg hsize]

end Shares

/-- A request with an explicit target, and the numbers in it. -/
structure ExplicitRequest (r : SizeRequest) (w value price confidence : ℚ) : Prop where
  signal : r.signal_type ≠ .invalid ∧ r.signal_type ≠ .hold
  target : r.target_weight = some (some (.fin w))
  port_notional : r.port_notional = some (.fin value)
  arrival_price : r.arrival_price = some (.fin price)
  confidence_eq : r.confidence = some (.fin confidence)
  ticker_weight : r.ticker_weight ≠ none

section Explicit

variable {cfg : Config} {s : Executor} {r : SizeRequest} {w value price confidence p : ℚ}

theorem ExplicitRequest.convert (h : ExplicitRequest r w value price confidence) :
    ∃ x, r.convert = some x ∧ x.target_weight = some w ∧ x.port_notional = .fin value ∧
      x.arrival_price = .fin price ∧ x.confidence = clamp_confidence (.fin confidence) := by
  obtain ⟨ticker_weight, htw⟩ := Option.ne_none_iff_exists'.mp h.ticker_weight
  refine ⟨{ arrival_price := .fin price, confidence := clamp_confidence (.fin confidence),
            port_notional := .fin value, ticker_weight := ticker_weight,
            target_weight := some w }, ?_, rfl, rfl, rfl, rfl⟩
  simp [SizeRequest.convert, h.port_notional, h.arrival_price, h.confidence_eq, htw, h.target]

theorem clamp_confidence_fin (c : ℚ) : clamp_confidence (.fin c) = max 0 (min 1 c) := by
  unfold clamp_confidence
  rw [PyFloat.py_min_fin, PyFloat.py_max_fin, PyFloat.val_fin]

/-- The end of sizing, on numbers. -/
theorem size_at_explicit {t : Ticker} {x : SizeInputs} (target : ℚ) (side : Side) (hp : 0 < p)
    (hlf : 0 ≤ cfg.leverage * cfg.commission_per_share) (htarget : x.target_weight = some w)
    (hvalue : x.port_notional = .fin value) :
    ∃ z, size_at cfg s t x (.fin target) side p = some z ∧ z.exec_price = .fin p ∧
      z.desired_notional = .fin ((target - s.positions t * p) * x.confidence) ∧
      z.quantity = explicit_shares w target p (s.positions t) x.confidence
        (share_limit cfg s p side value (s.positions t)) side := by
  have hlimit : commission_quantity_limit cfg s p side (.fin value) (s.positions t) =
      some (.fin (share_limit cfg s p side value (s.positions t))) := by
    have hcap := commission_quantity_limit_eq cfg s hp hlf side value (s.positions t)
    unfold share_limit
    rw [hcap]
    rfl
  unfold size_at explicit_shares explicit_quantity
  rw [htarget, hvalue]
  simp only [hlimit, PyFloat.fin_sub, PyFloat.fin_mul, PyFloat.fin_lt, PyFloat.abs_fin,
    PyFloat.div_rat_fin, PyFloat.py_min_fin, PyFloat.floor_fin, Option.bind_eq_bind,
    Option.bind_some, Option.map_some, ne_eq, Option.some.injEq]
  split
  · exact ⟨_, rfl, rfl, rfl, rfl⟩
  · split
    · exact ⟨_, rfl, rfl, rfl, rfl⟩
    · exact ⟨_, rfl, rfl, rfl, rfl⟩

/-- **Sizing an explicit order**, at whatever price its side is given. -/
theorem default_trade_size_explicit (h : ExplicitRequest r w value price confidence)
    (hconf : 0 < confidence)
    (hlf : 0 ≤ cfg.leverage * cfg.commission_per_share) (hp : 0 < p)
    (hslip : apply_slippage cfg (.fin price) (order_side cfg s r.ticker w value price) r.ticker
      (.fin (|target_notional cfg s r.ticker w value price - s.positions r.ticker * price| *
        clamp_confidence (.fin confidence))) = .fin p) :
    ∃ z, default_trade_size cfg s r = some z ∧ z.exec_price = .fin p ∧
      z.desired_notional = .fin ((target_notional cfg s r.ticker w value price -
        s.positions r.ticker * p) * clamp_confidence (.fin confidence)) ∧
      z.quantity = explicit_shares w (target_notional cfg s r.ticker w value price) p
        (s.positions r.ticker) (clamp_confidence (.fin confidence))
        (share_limit cfg s p (order_side cfg s r.ticker w value price) value
          (s.positions r.ticker))
        (order_side cfg s r.ticker w value price) := by
  obtain ⟨x, hconv, htarget, hvalue, harrival, hconfidence⟩ := h.convert
  -- none of the early returns is taken
  have hactive : ¬ (r.signal_type = .invalid ∨ r.signal_type = .hold ∨ x.confidence = 0) := by
    rw [hconfidence, clamp_confidence_fin]
    have hpos : max 0 (min 1 confidence) ≠ 0 :=
      ne_of_gt (lt_max_of_lt_right (lt_min zero_lt_one hconf))
    intro hoff
    rcases hoff with hinvalid | hhold | hzero
    · exact h.signal.1 hinvalid
    · exact h.signal.2 hhold
    · exact hpos hzero
  obtain ⟨z, hz, hprice, hdesired, hquantity⟩ := size_at_explicit (s := s) (t := r.ticker)
    (target_notional cfg s r.ticker w value price) (order_side cfg s r.ticker w value price) hp hlf
    htarget hvalue
  rw [hconfidence] at hdesired hquantity
  refine ⟨z, ?_, hprice, hdesired, hquantity⟩
  unfold default_trade_size
  have hside : (if PyFloat.fin (s.positions r.ticker) * .fin price <
      .fin (target_notional cfg s r.ticker w value price) then Side.buy else Side.sell) =
      order_side cfg s r.ticker w value price := by
    simp only [order_side, PyFloat.fin_mul, PyFloat.fin_lt]
  simp only [hconv, if_neg hactive, sizing_weight, htarget, wanted_notional, harrival, hvalue,
    apply_sentiment_gate_fin, hside]
  simp only [PyFloat.fin_mul, PyFloat.fin_sub, PyFloat.abs_fin, hconfidence, hslip,
    if_neg (not_le.mpr hp)]
  exact hz

end Explicit

/-! ### Toward the target -/

section Approach

variable {cfg : Config} {s : Executor}

/-- An explicit order is sized with finite numbers, toward its gated target. -/
theorem SizedFill.explicit {r : SizeRequest} {x : SizeInputs} {weight : PyFloat} {p : ℚ} {n : ℤ}
    {target : Numeric} (h : SizedFill cfg s r x weight p n) (htarget : r.target_weight = some target) :
    ∃ w value price, target = some (.fin w) ∧ r.port_notional = some (.fin value) ∧
      r.arrival_price = some (.fin price) ∧
      gated_notional cfg s r x weight = .fin (target_notional cfg s r.ticker w value price) ∧
      sizing_side cfg s r x weight = order_side cfg s r.ticker w value price := by
  obtain ⟨harr, hport, _, _, _, _, hexplicit⟩ := convert_cases h.converted
  rcases hexplicit with ⟨hnone, _⟩ | ⟨w, value, price, hw, hx, hvalue, hprice⟩
  · rw [hnone] at htarget
    exact absurd htarget (by simp)
  · rw [hw] at htarget
    have hgated : gated_notional cfg s r x weight =
        .fin (target_notional cfg s r.ticker w value price) := by
      unfold gated_notional wanted_notional current_notional
      simp only [hx, hvalue, hprice, apply_sentiment_gate_fin]
    refine ⟨w, value, price, (Option.some.inj htarget).symm, by rw [hport, hvalue],
      by rw [harr, hprice], hgated, ?_⟩
    unfold sizing_side order_side
    rw [hgated]
    simp only [current_notional, hprice, PyFloat.fin_mul, PyFloat.fin_lt]

/-- Closing is no new exposure, so the gate lets it pass. -/
theorem target_notional_zero (t : Ticker) (value price : ℚ) :
    target_notional cfg s t 0 value price = 0 := by
  unfold target_notional
  rw [mul_zero, apply_sentiment_gate_below]
  · rfl
  · rw [PyFloat.py_max_fin, PyFloat.fin_le]
    exact le_max_right _ _

/-- **A fill of an explicit order** ends between the old holding and the
    target. -/
theorem explicit_fill_between {r : TradeRequest} {target : Numeric}
    (htarget : r.target_weight = some target) {n p fees : ℚ}
    (h : (execute_trade cfg s r).1 = .success n p fees) :
    ∃ w value price, target = some (.fin w) ∧ r.port_notional = some (.fin value) ∧
      r.arrival_price = some (.fin price) ∧
      (execute_trade cfg s r).2.positions r.ticker ∈
        Set.uIcc (s.positions r.ticker) (target_notional cfg s r.ticker w value price / p) := by
  rcases execute_trade_sized cfg s r with ⟨_, hnone⟩ | ⟨x, weight, p', k, conf, hfill, heq⟩
  · exact absurd h (hnone n p fees)
  rw [heq] at h
  obtain ⟨_, rfl, _⟩ := Outcome.success.inj h
  obtain ⟨w, value, price, hw, hvalue, hprice, hgated, _⟩ := hfill.explicit htarget
  -- a fill goes toward the target and stops before it
  obtain ⟨hbuy, hsell⟩ := hfill.toward hgated
  have hk : (0 : ℚ) < k := by exact_mod_cast hfill.quantity_pos
  refine ⟨w, value, price, hw, hvalue, hprice, ?_⟩
  rw [heq, settle_position, Set.mem_uIcc]
  cases hside : sizing_side cfg s r.toSizeRequest x weight with
  | buy =>
    have hreach := hbuy hside
    left
    rw [Side.sign_buy, one_mul]
    exact ⟨by linarith, hreach⟩
  | sell =>
    have hreach := hsell hside
    right
    rw [Side.sign_sell]
    exact ⟨by linarith, by linarith⟩

/-- An order that closes a long sells, and no more than there is. -/
theorem SizedFill.closing {r : SizeRequest} {x : SizeInputs} {weight : PyFloat} {p : ℚ} {n : ℤ}
    (h : SizedFill cfg s r x weight p n) (htarget : r.target_weight = some (some (.fin 0)))
    (hlong : 0 < s.positions r.ticker)
    (harrival : ∀ price, r.arrival_price = some (.fin price) → 0 < price) :
    sizing_side cfg s r x weight = .sell ∧ (n : ℚ) ≤ s.positions r.ticker ∧
      sized_notional cfg s r x weight p < .fin 0 := by
  obtain ⟨w, value, price, hw, _, hprice, hgated, hside⟩ := h.explicit htarget
  obtain rfl : (0 : ℚ) = w := by simpa using hw
  rw [target_notional_zero] at hgated
  have hsell : sizing_side cfg s r x weight = .sell := by
    rw [hside]
    unfold order_side
    rw [target_notional_zero]
    exact if_neg (not_lt.mpr (mul_nonneg (le_of_lt hlong) (le_of_lt (harrival price hprice))))
  have hreach := (h.toward hgated).2 hsell
  rw [zero_div] at hreach
  refine ⟨hsell, by linarith, ?_⟩
  unfold sized_notional
  rw [hgated, PyFloat.fin_sub, PyFloat.fin_mul, PyFloat.fin_lt]
  have hnotional := mul_pos hlong h.price_pos
  exact mul_neg_of_neg_of_pos (by linarith) h.confidence_range.1

/-- What `sell` hands to the executor. -/
def sell_request (ctx : StrategyContext) (t : Ticker) (confidence : Numeric) (close : PyFloat) :
    TradeRequest where
  signal_type := .sell
  ticker := t
  arrival_price := some close
  confidence := confidence
  port_notional := some ctx.total_value
  ticker_weight := some (.fin 0)
  target_weight := some (some (.fin 0))
  portfolio_id := ctx.portfolio_id
  timestamp := some ctx.time

/-- What selling down a long may come to: the holding is reduced but not past
    flat, no other holding changes, and an order manager is handed no more than
    the holding. -/
structure SellsDown (s : Executor) (t : Ticker) (result : Placed × Executor) : Prop where
  not_short : 0 ≤ result.2.positions t
  not_more : result.2.positions t ≤ s.positions t
  others : ∀ u, u ≠ t → result.2.positions u = s.positions u
  registered : ∀ parent, result.1 = .registered parent →
    parent.ticker = t ∧ parent.side = .sell ∧ (parent.total_quantity : ℚ) ≤ s.positions t

theorem SellsDown.unchanged {t : Ticker} {placed : Placed} (hlong : 0 < s.positions t)
    (hnone : ∀ parent, placed ≠ .registered parent) : SellsDown s t (placed, s) where
  not_short := le_of_lt hlong
  not_more := le_refl _
  others := fun _ _ => rfl
  registered := fun parent hparent => absurd hparent (hnone parent)

/-- Closing a long by `execute_trade`. -/
theorem SellsDown.executed {r : TradeRequest} (hlong : 0 < s.positions r.ticker)
    (htarget : r.target_weight = some (some (.fin 0)))
    (harrival : ∀ price, r.arrival_price = some (.fin price) → 0 < price) (outcome : Outcome) :
    SellsDown s r.ticker (.executed outcome, (execute_trade cfg s r).2) := by
  rcases execute_trade_sized cfg s r with ⟨hsame, _⟩ | ⟨x, weight, p, n, conf, hfill, heq⟩
  · rw [hsame]
    exact SellsDown.unchanged hlong (fun _ => by simp)
  · obtain ⟨hsell, hle, _⟩ := hfill.closing htarget hlong harrival
    have hn : (0 : ℚ) < n := by exact_mod_cast hfill.quantity_pos
    rw [heq, hsell]
    constructor
    · rw [settle_position, Side.sign_sell]
      linarith
    · rw [settle_position, Side.sign_sell]
      linarith
    · intro u hu
      exact set_amount_ne s.positions _ hu
    · intro parent hparent
      exact absurd hparent (by simp)

/-- **`sell`** leaves a short alone, and takes a long toward flat and not past
    it. -/
theorem sell_never_shorts (cfg : Config) (s : Executor) (ctx : StrategyContext) (t : Ticker)
    (confidence : Numeric) :
    (s.positions t ≤ 0 → sell cfg ctx s t confidence = (.not_held, s)) ∧
    (0 < s.positions t → SellsDown s t (sell cfg ctx s t confidence)) := by
  refine ⟨fun hflat => if_neg (not_lt.mpr hflat), fun hlong => ?_⟩
  have hplace : sell cfg ctx s t confidence =
      place cfg ctx s t .sell confidence (some (.fin 0)) (some (some (.fin 0))) := if_pos hlong
  rw [hplace]
  unfold place
  cases hasset : ctx.market t with
  | none => exact SellsDown.unchanged hlong (fun _ => by simp)
  | some asset =>
    simp only
    split
    · exact SellsDown.unchanged hlong (fun _ => by simp)
    rename_i hclose
    have harrival : ∀ price, some asset.Close = some (.fin price) → 0 < price := by
      intro price hprice
      rw [Option.some.inj hprice, PyFloat.fin_le] at hclose
      exact not_le.mp hclose
    split
    · -- the order manager is handed what was sized
      cases hz : default_trade_size cfg s _ with
      | none => exact SellsDown.unchanged hlong (fun _ => by simp)
      | some z =>
        simp only
        split
        · rename_i hq
          obtain ⟨x, weight, p, hfill, _, hdesired⟩ := default_trade_size_sized cfg s hz hq
          obtain ⟨_, hle, hnegative⟩ := hfill.closing rfl hlong harrival
          refine ⟨le_of_lt hlong, le_refl _, fun _ _ => rfl, ?_⟩
          intro parent hparent
          obtain rfl := Placed.registered.inj hparent
          rw [← hdesired] at hnegative
          exact ⟨rfl, if_pos hnegative, hle⟩
        · exact SellsDown.unchanged hlong (fun _ => by simp)
    · exact SellsDown.executed (r := sell_request ctx t confidence asset.Close) hlong rfl
        harrival _

/-- Where a commission is no more than `price / leverage`, the limit never
    stands in the way of selling a long off. -/
theorem holding_le_share_limit {value holding p : ℚ} (hlev : 1 ≤ cfg.leverage) (hp : 0 < p)
    (hlong : 0 < holding) (hfee : cfg.leverage * cfg.commission_per_share ≤ p) :
    holding ≤ share_limit cfg s p .sell value holding := by
  have hnonneg := cfg.commission_nonneg
  have hlev0 : 0 ≤ cfg.leverage := by linarith
  have hbp : 0 ≤ buying_power cfg s value := le_max_left _ _
  rw [(le_share_limit_iff cfg s hp hlev0 .sell value holding).2 holding hlong,
    margin_limit_iff hp hlev0 hnonneg hbp hlong]
  have hclosing : closing_quantity .sell holding = holding := max_eq_right (le_of_lt hlong)
  constructor
  · -- the margin released pays for the margin the fees take
    rw [hclosing, exposure_change, if_pos (le_refl _)]
    have hpaid := mul_le_mul_of_nonneg_left hfee (le_of_lt hlong)
    linarith
  · intro hcostly
    have hmore := mul_le_mul_of_nonneg_right hlev hnonneg
    linarith

/-- **An exit is complete**: a zero target at full confidence sells every whole
    share of a long. -/
theorem exit_complete {r : TradeRequest} {value price p : ℚ} (hlev : 1 ≤ cfg.leverage)
    (hr : ExplicitRequest r.toSizeRequest 0 value price 1) {k : ℤ}
    (hwhole : s.positions r.ticker = k) (hlong : 0 < s.positions r.ticker) (hprice : 0 < price)
    (hp : 0 < p)
    (hslip : apply_slippage cfg (.fin price) .sell r.ticker
      (.fin (s.positions r.ticker * price)) = .fin p)
    (hfee : cfg.leverage * cfg.commission_per_share ≤ p) :
    (execute_trade cfg s r).2.positions r.ticker = 0 := by
  have hnotional : 0 < s.positions r.ticker * price := mul_pos hlong hprice
  have hside : order_side cfg s r.ticker 0 value price = .sell := by
    unfold order_side
    rw [target_notional_zero]
    exact if_neg (not_lt.mpr (le_of_lt hnotional))
  have hone : clamp_confidence (.fin 1) = 1 := by
    rw [clamp_confidence_fin, min_self, max_eq_right zero_le_one]
  have hlf : 0 ≤ cfg.leverage * cfg.commission_per_share :=
    mul_nonneg (by linarith) cfg.commission_nonneg
  obtain ⟨z, hz, _, _, hquantity⟩ := default_trade_size_explicit (s := s) hr zero_lt_one hlf hp (by
    rw [hside, target_notional_zero, hone, zero_sub, abs_neg, abs_of_pos hnotional, mul_one]
    exact hslip)
  rw [hside, target_notional_zero, hone] at hquantity
  -- the whole holding is wanted, and the limit allows it
  have hlimit : s.positions r.ticker ≤
      share_limit cfg s p .sell value (s.positions r.ticker) :=
    holding_le_share_limit hlev hp hlong hfee
  have hshares : z.quantity = k := by
    have hdesired : ¬ 0 < (0 - s.positions r.ticker * p) * 1 := by
      have := mul_pos hlong hp
      linarith
    have hk : 0 ≤ k := by
      rw [hwhole] at hlong
      exact_mod_cast le_of_lt hlong
    rw [hquantity, explicit_shares_on_side (iff_of_false hdesired (by simp)) (by simp), zero_div,
      zero_sub, abs_neg, abs_of_pos hlong, mul_one, min_eq_left hlimit, hwhole,
      Int.floor_intCast, max_eq_right hk]
  have hq : 0 < z.quantity := by
    rw [hwhole] at hlong
    rw [hshares]
    exact_mod_cast hlong
  obtain ⟨x, weight, p', conf, hfill, _, heq⟩ := execute_trade_of_size cfg s hz hq
  obtain ⟨hsell, _⟩ := hfill.closing hr.target hlong (by
    intro price' hprice'
    rw [hr.arrival_price] at hprice'
    rw [← PyFloat.fin.inj (Option.some.inj hprice')]
    exact hprice)
  rw [heq, settle_position, hsell, hshares, hwhole, Side.sign_sell]
  ring

end Approach

/-- **Explicit orders move toward their target**, never past it. `sell` never
    opens or enlarges a short, and closing a long at full confidence leaves
    nothing of it. -/
theorem explicit_orders_approach (cfg : Config) (s : Executor) (hlev : 1 ≤ cfg.leverage)
    (hwhole : ∀ t, ∃ k : ℤ, s.positions t = k) :
    (∀ (r : TradeRequest) (target : Numeric) (n p fees : ℚ), r.target_weight = some target →
      (execute_trade cfg s r).1 = .success n p fees →
      ∃ w value price, target = some (.fin w) ∧ r.port_notional = some (.fin value) ∧
        r.arrival_price = some (.fin price) ∧
        (execute_trade cfg s r).2.positions r.ticker ∈
          Set.uIcc (s.positions r.ticker) (target_notional cfg s r.ticker w value price / p)) ∧
    (∀ (ctx : StrategyContext) (t : Ticker) (confidence : Numeric),
      (s.positions t ≤ 0 → sell cfg ctx s t confidence = (.not_held, s)) ∧
      (0 < s.positions t → SellsDown s t (sell cfg ctx s t confidence))) ∧
    (∀ (r : TradeRequest) (value price p : ℚ), ExplicitRequest r.toSizeRequest 0 value price 1 →
      0 < s.positions r.ticker → 0 < price → 0 < p →
      apply_slippage cfg (.fin price) .sell r.ticker (.fin (s.positions r.ticker * price)) =
        .fin p →
      cfg.leverage * cfg.commission_per_share ≤ p →
      (execute_trade cfg s r).2.positions r.ticker = 0) := by
  refine ⟨?_, fun ctx t confidence => sell_never_shorts cfg s ctx t confidence, ?_⟩
  · intro r target n p fees htarget h
    exact explicit_fill_between htarget h
  · intro r value price p hr hlong hprice hp hslip hfee
    obtain ⟨k, hk⟩ := hwhole r.ticker
    exact exit_complete hlev hr hk hlong hprice hp hslip hfee

/-- A long of 5 shares. -/
def long_state : Executor :=
  { two_shorts_state with positions := set_amount two_shorts_state.positions tick_a 5 }

/-- A purchase that cash stops at 90 shares, and an exit. -/
theorem explicit_orders_approach_long :
    (execute_trade (two_shorts_config 1 zero_le_one) long_state (weight_order 1)).1 =
        .success 90 10 90 ∧
      (execute_trade (two_shorts_config 1 zero_le_one) long_state (weight_order 1)).2.positions
        tick_a ∈ Set.uIcc (5 : ℚ) 100 ∧
      (execute_trade (two_shorts_config 1 zero_le_one) long_state (weight_order 0)).2.positions
        tick_a = 0 := by
  -- five shares of one ticker, none of the other
  have hwhole : ∀ t, ∃ k : ℤ, long_state.positions t = k := by
    intro t
    by_cases ht : t = tick_a
    · exact ⟨5, by rw [ht]; rfl⟩
    · exact ⟨0, by simp [long_state, two_shorts_state, set_amount, ht]⟩
  obtain ⟨hbetween, _, hexit⟩ := explicit_orders_approach (two_shorts_config 1 zero_le_one)
    long_state (by norm_num [two_shorts_config]) hwhole
  have hfill : (execute_trade (two_shorts_config 1 zero_le_one) long_state (weight_order 1)).1 =
      .success 90 10 90 := by decide +kernel
  refine ⟨hfill, ?_, ?_⟩
  · obtain ⟨w, value, price, hw, hvalue, hprice, hmem⟩ :=
      hbetween (weight_order 1) (some (.fin 1)) 90 10 90 rfl hfill
    obtain rfl : (1 : ℚ) = w := by simpa using hw
    obtain rfl : (1000 : ℚ) = value := by simpa [weight_order] using hvalue
    obtain rfl : (10 : ℚ) = price := by simpa [weight_order] using hprice
    have htarget : target_notional (two_shorts_config 1 zero_le_one) long_state tick_a 1 1000 10 /
        10 = 100 := by decide +kernel
    have hold : long_state.positions tick_a = 5 := rfl
    show _ ∈ Set.uIcc (5 : ℚ) 100
    rw [← htarget, ← hold]
    exact hmem
  · apply hexit (weight_order 0) 1000 10 10
      ⟨by simp [weight_order], rfl, rfl, rfl, rfl, by simp [weight_order]⟩
    · decide +kernel
    · norm_num
    · norm_num
    · decide +kernel
    · norm_num [two_shorts_config]

end Engine
