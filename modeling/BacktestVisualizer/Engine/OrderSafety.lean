import BacktestVisualizer.Engine.SizedFill

/-! # What an Order Can Never Do

  Two facts about `execute_trade` in either sizing model. Cash only goes below
  zero if it was there before. And behind a shut sentiment gate a position
  never ends longer than it started, while an order that asks for no more
  long exposure does not notice the gate.
-/

namespace Engine

/-! ### Cash over a run -/

/-- A call that is not a fill of the order manager. -/
def Call.direct : Call → Prop
  | .execute_child_order _ _ => False
  | _ => True

theorem cash_after_call (cfg : Config) (s : Executor) {c : Call} (hc : c.direct) :
    min s.cash 0 ≤ (perform cfg s c).2.cash := by
  match c with
  | .update_price t p =>
    show min s.cash 0 ≤ (update_price cfg s t p).cash
    unfold update_price
    split
    · exact min_le_left _ _
    · exact min_le_left _ _
  | .set_time now => exact min_le_left _ _
  | .execute_trade r => exact cash_after_trade cfg s r
  | .execute_child_order child ts => exact absurd hc id

theorem cash_nonneg_run (cfg : Config) (hcapital : 0 ≤ cfg.initial_capital) {calls : List Call}
    (hcalls : ∀ c ∈ calls, c.direct) : 0 ≤ (run cfg calls).cash := by
  induction calls using List.reverseRecOn with
  | nil => exact hcapital
  | append_singleton calls c ih =>
    have hbefore := ih (fun c' hc' => hcalls c' (List.mem_append_left _ hc'))
    have hstep := cash_after_call cfg (run cfg calls) (hcalls c (by simp))
    rw [run_snoc]
    rwa [min_eq_right hbefore] at hstep

/-- **Orders never overdraw.** No `execute_trade` takes cash below what it was
    or zero, so from a nonnegative capital no sequence of them ends below
    zero. -/
theorem orders_never_overdraw (cfg : Config) :
    (∀ s r, min s.cash 0 ≤ (execute_trade cfg s r).2.cash) ∧
    (0 ≤ cfg.initial_capital → ∀ calls : List Call, (∀ c ∈ calls, c.direct) →
      0 ≤ (run cfg calls).cash) := by
  constructor
  · exact cash_after_trade cfg
  · intro hcapital calls hcalls
    exact cash_nonneg_run cfg hcapital hcalls

/-- An order for the signed weight `w`, at 10 a share and a portfolio of 1000. -/
def weight_order (w : ℚ) : TradeRequest where
  signal_type := .buy
  ticker := tick_a
  arrival_price := some (.fin 10)
  confidence := some (.fin 1)
  port_notional := some (.fin 1000)
  ticker_weight := some (.fin 0)
  target_weight := some (some (.fin w))
  portfolio_id := "p"
  timestamp := none

theorem orders_never_overdraw_flip :
    0 ≤ (run (two_shorts_config 1 zero_le_one)
      [.execute_trade (weight_order 2), .execute_trade (weight_order (-2))]).cash :=
  (orders_never_overdraw (two_shorts_config 1 zero_le_one)).2 (by norm_num [two_shorts_config]) _
    (by simp [Call.direct])

/-! ### Toward the target -/

section Toward

variable {cfg : Config} {s : Executor} {r : SizeRequest} {x : SizeInputs} {weight : PyFloat}
  {p : ℚ} {n : ℤ}

/-- Either model fills at most the confident part of the way to the target. -/
theorem SizedFill.quantity_le (h : SizedFill cfg s r x weight p n) {target : ℚ}
    (htarget : gated_notional cfg s r x weight = .fin target) :
    (n : ℚ) ≤ |target / p - s.positions r.ticker| * x.confidence := by
  have hp := h.price_pos
  rcases h.model with ⟨w, _, hexplicit⟩ | ⟨_, hweighted⟩
  · rw [htarget] at hexplicit
    apply explicit_quantity_wanted _ hexplicit h.quantity_pos
    simp
  · have hdesired : sized_notional cfg s r x weight p =
        .fin ((target - s.positions r.ticker * p) * x.confidence) := by
      unfold sized_notional
      rw [htarget, PyFloat.fin_sub, PyFloat.fin_mul]
    have hbound := weighted_quantity_bound (tradable_at_most_desired hdesired) hp hweighted
      h.quantity_pos
    have hshares : |(target - s.positions r.ticker * p) * x.confidence| / p =
        |target / p - s.positions r.ticker| * x.confidence := by
      have hway : target / p - s.positions r.ticker = (target - s.positions r.ticker * p) / p := by
        field_simp
      rw [hway, abs_mul, abs_div, abs_of_pos hp, abs_of_pos h.confidence_range.1]
      ring
    rwa [hshares] at hbound

/-- **A fill moves toward its target** and stops before it is past it. -/
theorem SizedFill.toward (h : SizedFill cfg s r x weight p n) {target : ℚ}
    (htarget : gated_notional cfg s r x weight = .fin target) :
    (sizing_side cfg s r x weight = .buy → s.positions r.ticker + n ≤ target / p) ∧
    (sizing_side cfg s r x weight = .sell → target / p ≤ s.positions r.ticker - n) := by
  have hp := h.price_pos
  obtain ⟨hconf, hconf'⟩ := h.confidence_range
  have hle := h.quantity_le htarget
  have hdir := h.direction
  unfold sized_notional at hdir
  -- a buy is for a distance above zero, a sell for one that is not
  rw [htarget, PyFloat.fin_sub, PyFloat.fin_mul, PyFloat.fin_lt,
    mul_pos_iff_of_pos_right hconf] at hdir
  have hway : target / p - s.positions r.ticker = (target - s.positions r.ticker * p) / p := by
    field_simp
  constructor
  · intro hbuy
    have hpos : 0 < target / p - s.positions r.ticker := by
      rw [hway]
      exact div_pos (hdir.mpr hbuy) hp
    rw [abs_of_pos hpos] at hle
    have hpart := mul_le_of_le_one_right (le_of_lt hpos) hconf'
    linarith
  · intro hsell
    have hnot : ¬ 0 < target - s.positions r.ticker * p := by
      rw [hdir, hsell]
      simp
    have hneg : target / p - s.positions r.ticker ≤ 0 := by
      rw [hway]
      exact div_nonpos_of_nonpos_of_nonneg (not_lt.mp hnot) (le_of_lt hp)
    rw [abs_of_nonpos hneg] at hle
    have hpart := mul_le_of_le_one_right (neg_nonneg.mpr hneg) hconf'
    linarith

end Toward

/-! ### The sentiment gate -/

section Gate

variable {cfg : Config} {s : Executor} {r : SizeRequest} {x : SizeInputs} {weight : PyFloat}
  {p : ℚ} {n : ℤ}

/-- A price to trade at comes from a price. -/
theorem apply_slippage_arrival {price notional : PyFloat} {side : Side} {t : Ticker}
    (h : apply_slippage cfg price side t notional = .fin p) : ∃ a, price = .fin a := by
  unfold apply_slippage at h
  cases hcost : cfg.cost_model with
  | none =>
    rw [hcost] at h
    cases side with
    | buy =>
      obtain ⟨a, ha, _⟩ := PyFloat.mul_fin_eq_fin h
      exact ⟨a, ha⟩
    | sell =>
      obtain ⟨a, ha, _⟩ := PyFloat.mul_fin_eq_fin h
      exact ⟨a, ha⟩
  | some model =>
    simp only [hcost] at h
    unfold CostModel.apply_to_price at h
    split at h
    · exact ⟨p, h⟩
    · cases side with
      | buy =>
        obtain ⟨a, _, ha, _⟩ := PyFloat.mul_eq_fin h
        exact ⟨a, ha⟩
      | sell =>
        obtain ⟨a, _, ha, _⟩ := PyFloat.mul_eq_fin h
        exact ⟨a, ha⟩

/-- The gate is shut for a ticker. -/
def GateShut (cfg : Config) (s : Executor) (t : Ticker) : Prop :=
  ∃ gate now, cfg.sentiment_gate = some gate ∧ s.current_time = some now ∧
    gate.blocks_long_entry t now = true

/-- Behind a shut gate a target that is above the current notional covers a
    short, at most to flat. -/
theorem gated_above {t : Ticker} (hshut : GateShut cfg s t) {wanted : PyFloat} {current : ℚ}
    (h : .fin current < apply_sentiment_gate cfg s t wanted (.fin current)) :
    ∃ target, apply_sentiment_gate cfg s t wanted (.fin current) = .fin target ∧ target ≤ 0 := by
  obtain ⟨gate, now, hgate, hnow, hblocks⟩ := hshut
  have hcap : ∃ target, apply_sentiment_gate cfg s t wanted (.fin current) = .fin target ∧
      target ≤ max current 0 := by
    unfold apply_sentiment_gate at h ⊢
    rw [hgate, hnow] at h ⊢
    simp only [hblocks, if_true, PyFloat.py_max_fin] at h ⊢
    split
    · rename_i hle
      rw [if_pos hle] at h
      cases wanted with
      | fin w => exact ⟨w, rfl, (PyFloat.fin_le _ _).mp hle⟩
      | pos_inf => exact absurd hle Bool.false_ne_true
      | neg_inf => exact absurd h Bool.false_ne_true
      | nan => exact absurd h Bool.false_ne_true
    · exact ⟨_, rfl, le_refl _⟩
  obtain ⟨target, htarget, hle⟩ := hcap
  rw [htarget, PyFloat.fin_lt] at h
  refine ⟨target, htarget, ?_⟩
  -- above a long position there is no room
  by_contra hpos
  rcases le_total current 0 with hshort | hlong
  · rw [max_eq_right hshort] at hle
    exact hpos hle
  · rw [max_eq_left hlong] at hle
    linarith

/-- A purchase behind a shut gate ends at flat or below. -/
theorem SizedFill.gated_buy (h : SizedFill cfg s r x weight p n) (hshut : GateShut cfg s r.ticker)
    (hbuy : sizing_side cfg s r x weight = .buy) : s.positions r.ticker + n ≤ 0 := by
  obtain ⟨notional, hslip⟩ := h.priced
  obtain ⟨a, ha⟩ := apply_slippage_arrival hslip
  have hcurrent : current_notional s r x = .fin (s.positions r.ticker * a) := by
    unfold current_notional
    rw [ha, PyFloat.fin_mul]
  have habove : current_notional s r x < gated_notional cfg s r x weight := by
    by_contra hnot
    unfold sizing_side at hbuy
    rw [if_neg hnot] at hbuy
    exact absurd hbuy (by simp)
  unfold gated_notional at habove
  rw [hcurrent] at habove
  obtain ⟨target, htarget, hle⟩ := gated_above hshut habove
  have hgated : gated_notional cfg s r x weight = .fin target := by
    unfold gated_notional
    rw [hcurrent, htarget]
  have hreach := (h.toward hgated).1 hbuy
  have hflat := div_nonpos_of_nonpos_of_nonneg hle (le_of_lt h.price_pos)
  linarith

end Gate

/-- The executor without a gate. -/
def Config.ungated (cfg : Config) : Config := { cfg with sentiment_gate := none }

/-- A target at or below the ceiling passes the gate. -/
theorem apply_sentiment_gate_below (cfg : Config) (s : Executor) (t : Ticker)
    {wanted current : PyFloat} (h : wanted ≤ PyFloat.py_max current (.fin 0)) :
    apply_sentiment_gate cfg s t wanted current = wanted := by
  unfold apply_sentiment_gate
  cases cfg.sentiment_gate with
  | none => rfl
  | some gate =>
    cases s.current_time with
    | none => rfl
    | some now => exact if_pos h

/-- An order that asks for no more long exposure is sized as without a gate. -/
theorem default_trade_size_ungated (cfg : Config) (s : Executor) (r : SizeRequest)
    (h : ∀ x weight, r.convert = some x → sizing_weight cfg x = some weight →
      wanted_notional r.signal_type x weight ≤
        PyFloat.py_max (current_notional s r x) (.fin 0)) :
    default_trade_size cfg s r = default_trade_size cfg.ungated s r := by
  unfold default_trade_size
  cases hconv : r.convert with
  | none => rfl
  | some x =>
    simp only
    split
    · rfl
    · have hsame : sizing_weight cfg.ungated x = sizing_weight cfg x := rfl
      rw [hsame]
      cases hweight : sizing_weight cfg x with
      | none => rfl
      | some weight =>
        have hbelow := h x weight hconv hweight
        unfold current_notional at hbelow
        simp only [apply_sentiment_gate_below cfg s r.ticker hbelow,
          apply_sentiment_gate_below cfg.ungated s r.ticker hbelow]
        rfl

/-- **A shut gate never lets a trade add long exposure**, in either sizing
    model. An order whose signed target notional is within the current long,
    or flat, has the effect it has without a gate. -/
theorem shut_gate_adds_no_long (cfg : Config) (s : Executor) (r : TradeRequest) :
    (GateShut cfg s r.ticker →
      (execute_trade cfg s r).2.positions r.ticker ≤ max (s.positions r.ticker) 0) ∧
    ((∀ x weight, r.convert = some x → sizing_weight cfg x = some weight →
        wanted_notional r.signal_type x weight ≤
          PyFloat.py_max (current_notional s r.toSizeRequest x) (.fin 0)) →
      execute_trade cfg s r = execute_trade cfg.ungated s r) := by
  constructor
  · intro hshut
    rcases execute_trade_sized cfg s r with ⟨hsame, _⟩ | ⟨x, weight, p, n, conf, hfill, heq⟩
    · rw [hsame]
      exact le_max_left _ _
    · have hn : (0 : ℚ) < n := by exact_mod_cast hfill.quantity_pos
      rw [heq, settle_position]
      cases hside : sizing_side cfg s r.toSizeRequest x weight with
      | buy =>
        have hflat := hfill.gated_buy hshut hside
        rw [Side.sign_buy, one_mul]
        exact le_trans hflat (le_max_right _ _)
      | sell =>
        have hless : s.positions r.ticker + Side.sell.sign * n ≤ s.positions r.ticker := by
          rw [Side.sign_sell]
          linarith
        exact le_trans hless (le_max_left _ _)
  · intro hbelow
    unfold execute_trade
    rw [default_trade_size_ungated cfg s r.toSizeRequest hbelow]
    rfl

/-- A gate that is shut for one ticker, over one bad article. -/
def gated_config : Config :=
  { two_shorts_config 0 (le_refl 0) with
    sentiment_gate := some
      { threshold := -1 / 2, threshold_range := by norm_num, articles := [(tick_a, [(0, -1)])] } }

/-- Six hours later, short of 10 shares. -/
def gated_state : Executor :=
  { two_shorts_state with
    positions := set_amount two_shorts_state.positions tick_a (-10)
    current_time := some { wall := 6 * hour_us, utcoffset := none } }

theorem shut_gate_covers :
    (execute_trade gated_config gated_state (weight_order 1)).2.positions tick_a ≤
        max (gated_state.positions tick_a) 0 ∧
      execute_trade gated_config gated_state (weight_order 0) =
        execute_trade gated_config.ungated gated_state (weight_order 0) := by
  constructor
  · exact (shut_gate_adds_no_long gated_config gated_state (weight_order 1)).1
      ⟨_, _, rfl, rfl, by decide +kernel⟩
  · apply (shut_gate_adds_no_long gated_config gated_state (weight_order 0)).2
    intro x weight hx _
    obtain rfl := Option.some.inj hx
    show PyFloat.fin 1000 * .fin 0 ≤
      PyFloat.py_max (.fin (gated_state.positions tick_a) * .fin 10) (.fin 0)
    decide +kernel

end Engine
