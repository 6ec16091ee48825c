import BacktestVisualizer.Engine.CommissionLimit

/-! # What a Sized Order Fills

  Both sizing models end in the same way: a side chosen at the arrival price,
  a price for that side, and a whole number of shares that one or the other
  model bounds. `SizedFill` is all of it, and `execute_trade_sized` says that
  `execute_trade` settles that and nothing else.

  From it follow the two safety facts of an order: it never overdraws cash,
  and behind a shut sentiment gate it never adds long exposure.
-/

namespace Engine

variable (cfg : Config) (s : Executor)

@[simp] theorem settle_position (t : Ticker) (side : Side) (q p : ℚ) (conf : PyFloat)
    (id : String) (ts : Option Moment) :
    (settle cfg s t side q p conf id ts).positions t = s.positions t + side.sign * q :=
  set_amount_self _ _ _

/-! ### A sized fill -/

section Sized

variable (r : SizeRequest) (x : SizeInputs) (weight : PyFloat) (p : ℚ)

/-- The notional an order moves at its execution price. -/
def sized_notional : PyFloat :=
  (gated_notional cfg s r x weight - .fin (s.positions r.ticker * p)) * .fin x.confidence

/-- `n` shares at `p`, sized by one of the models. -/
structure SizedFill (n : ℤ) : Prop where
  converted : r.convert = some x
  active : ¬ (r.signal_type = .invalid ∨ r.signal_type = .hold ∨ x.confidence = 0)
  weight_eq : sizing_weight cfg x = some weight
  priced : ∃ notional, apply_slippage cfg x.arrival_price (sizing_side cfg s r x weight)
    r.ticker notional = .fin p
  price_pos : 0 < p
  quantity_pos : 0 < n
  direction : .fin 0 < sized_notional cfg s r x weight p ↔ sizing_side cfg s r x weight = .buy
  model : (∃ w, x.target_weight = some w ∧
      explicit_quantity cfg s x (gated_notional cfg s r x weight) (s.positions r.ticker)
        (sizing_side cfg s r x weight) p = some n) ∨
    (x.target_weight = none ∧ weighted_quantity cfg s x (sized_notional cfg s r x weight p)
      (sizing_side cfg s r x weight) p = some n)

end Sized

/-- Sizing that ends in a trade has sized a fill. -/
theorem default_trade_size_sized {r : SizeRequest} {z : Sizing}
    (hz : default_trade_size cfg s r = some z) (hq : 0 < z.quantity) :
    ∃ x weight p, SizedFill cfg s r x weight p z.quantity ∧ z.exec_price = .fin p ∧
      z.desired_notional = sized_notional cfg s r x weight p := by
  obtain ⟨x, weight, notional, p, hconv, hactive, hweight, hslip, hp, hsize⟩ :=
    default_trade_size_cases cfg s r hz hq
  obtain ⟨hprice, hdir, hdesired, hmodel⟩ := size_at_cases hsize hq
  rw [hdesired] at hdir hmodel
  refine ⟨x, weight, p, ?_, hprice, hdesired⟩
  refine ⟨hconv, hactive, hweight, ⟨notional, hslip⟩, hp, hq, hdir, ?_⟩
  rcases hmodel with hexplicit | ⟨hnone, _, hweighted⟩
  · exact Or.inl hexplicit
  · exact Or.inr ⟨hnone, hweighted⟩

/-- A size above zero is settled on the side it was sized for. -/
theorem execute_trade_of_size {r : TradeRequest} {z : Sizing}
    (hz : default_trade_size cfg s r.toSizeRequest = some z) (hq : 0 < z.quantity) :
    ∃ x weight p conf, SizedFill cfg s r.toSizeRequest x weight p z.quantity ∧
      z.exec_price = .fin p ∧
      execute_trade cfg s r = (.success z.quantity p (z.quantity * cfg.commission_per_share),
        settle cfg s r.ticker (sizing_side cfg s r.toSizeRequest x weight) z.quantity p conf
          r.portfolio_id r.timestamp) := by
  obtain ⟨x, weight, p, hfill, hprice, hdesired⟩ := default_trade_size_sized cfg s hz hq
  have hside : (if .fin 0 < z.desired_notional then Side.buy else Side.sell) =
      sizing_side cfg s r.toSizeRequest x weight := by
    have hdir := hfill.direction
    rw [hdesired]
    cases hb : sizing_side cfg s r.toSizeRequest x weight with
    | buy => exact if_pos (hdir.mpr hb)
    | sell => exact if_neg (fun h => absurd (hdir.mp h) (by rw [hb]; simp))
  refine ⟨x, weight, p, .fin (clamp_confidence (r.confidence.getD (.fin 0))), hfill, hprice, ?_⟩
  unfold execute_trade
  simp only [hz, if_neg (not_le.mpr hq), hside, hprice, PyFloat.val_fin]

/-- **An order** fills what was sized, on the side it was sized for, or
    nothing. -/
theorem execute_trade_sized (r : TradeRequest) :
    ((execute_trade cfg s r).2 = s ∧ ∀ n p fees, (execute_trade cfg s r).1 ≠ .success n p fees) ∨
    (∃ x weight p n conf, SizedFill cfg s r.toSizeRequest x weight p n ∧
      execute_trade cfg s r = (.success n p (n * cfg.commission_per_share),
        settle cfg s r.ticker (sizing_side cfg s r.toSizeRequest x weight) n p conf
          r.portfolio_id r.timestamp)) := by
  cases hz : default_trade_size cfg s r.toSizeRequest with
  | none =>
    left
    simp [execute_trade, hz]
  | some z =>
    by_cases hq : z.quantity ≤ 0
    · left
      simp [execute_trade, hz, hq]
    · obtain ⟨x, weight, p, conf, hfill, _, heq⟩ :=
        execute_trade_of_size cfg s hz (not_le.mp hq)
      exact Or.inr ⟨x, weight, p, z.quantity, conf, hfill, heq⟩

/-- The confidence an order is sized with lies in [0, 1]. -/
theorem clamp_confidence_range (c : PyFloat) :
    0 ≤ clamp_confidence c ∧ clamp_confidence c ≤ 1 := by
  unfold clamp_confidence
  cases c with
  | fin q =>
    rw [PyFloat.py_min_fin, PyFloat.py_max_fin, PyFloat.val_fin]
    constructor
    · exact le_max_left _ _
    · exact max_le zero_le_one (min_le_left _ _)
  | pos_inf => decide +kernel
  | neg_inf => decide +kernel
  | nan => decide +kernel

section Fill

variable {cfg s} {r : SizeRequest} {x : SizeInputs} {weight : PyFloat} {p : ℚ} {n : ℤ}

theorem SizedFill.confidence_range (h : SizedFill cfg s r x weight p n) :
    0 < x.confidence ∧ x.confidence ≤ 1 := by
  obtain ⟨_, _, _, c, _, hconf, _⟩ := convert_cases h.converted
  obtain ⟨hlow, hhigh⟩ := clamp_confidence_range c
  rw [← hconf] at hlow hhigh
  have hne : x.confidence ≠ 0 := fun hzero => h.active (Or.inr (Or.inr hzero))
  exact ⟨lt_of_le_of_ne hlow (Ne.symm hne), hhigh⟩

/-! ### The bounds of the two models -/

/-- An explicit order fills no more than it wants. -/
theorem explicit_quantity_wanted {target : PyFloat} {current wanted : ℚ} {side : Side}
    (hwanted : (target.div_rat p - .fin current).abs * .fin x.confidence = .fin wanted)
    (h : explicit_quantity cfg s x target current side p = some n) (hn : 0 < n) :
    (n : ℚ) ≤ wanted := by
  unfold explicit_quantity at h
  rw [hwanted] at h
  obtain ⟨limit, _, hrest⟩ := Option.bind_eq_some_iff.mp h
  obtain ⟨m, hm, hsome⟩ := Option.bind_eq_some_iff.mp hrest
  have hmost : (PyFloat.py_min (.fin wanted) limit).at_most wanted :=
    PyFloat.at_most_py_min_left ((PyFloat.at_most_fin _ _).mpr (le_refl _)) limit
  have hmax : max 0 m = n := Option.some.inj hsome
  have hnm : n = m := by omega
  rw [hnm]
  exact PyFloat.at_most_floor hmost hm

/-- A weighted order fills no more than the notional it may trade. -/
theorem weighted_quantity_bound {desired : PyFloat} {side : Side} {cap : ℚ}
    (hcap : (tradable_notional cfg s x desired).at_most cap) (hp : 0 < p)
    (h : weighted_quantity cfg s x desired side p = some n) (hn : 0 < n) :
    (n : ℚ) ≤ cap / p := by
  obtain ⟨k, hk, hle⟩ := (weighted_quantity_cases hn h).1
  have hle' : (n : ℚ) ≤ k := by exact_mod_cast hle
  exact le_trans hle' (PyFloat.at_most_floor (PyFloat.at_most_div hcap hp) hk)

theorem tradable_at_most_desired {desired : PyFloat} {d : ℚ} (hd : desired = .fin d) :
    (tradable_notional cfg s x desired).at_most |d| := by
  subst hd
  have hmost : (PyFloat.py_min (.fin |d|)
      (calculate_buying_power cfg s x.port_notional)).at_most |d| :=
    PyFloat.at_most_py_min_left ((PyFloat.at_most_fin _ _).mpr (le_refl _)) _
  unfold tradable_notional
  simp only [PyFloat.abs_fin]
  split
  · exact PyFloat.at_most_py_min_left hmost _
  · exact hmost

theorem tradable_at_most_cash {desired : PyFloat} (hbuy : .fin 0 < desired) :
    (tradable_notional cfg s x desired).at_most s.cash := by
  unfold tradable_notional
  simp only [if_pos hbuy]
  exact PyFloat.at_most_py_min_right _ _

/-! ### Cash -/

theorem CashCovers.mono {side : Side} {q q' : ℚ} (h : CashCovers cfg s p side q) (hle : q' ≤ q) :
    CashCovers cfg s p side q' := by
  cases side with
  | buy => exact le_trans hle h
  | sell => exact fun hfee => le_trans hle (h hfee)

/-- Where cash matters at all, the commission limit is a number that cash
    covers. -/
theorem limit_covers {side : Side} {equity limit : PyFloat} {current : ℚ} (hp : 0 < p)
    (h : commission_quantity_limit cfg s p side equity current = some limit)
    (hside : side = .sell → p < cfg.commission_per_share) :
    ∃ q, limit = .fin q ∧ CashCovers cfg s p side q := by
  have hfee := cfg.commission_nonneg
  have hcash : 0 ≤ max 0 s.cash := le_max_left _ _
  obtain ⟨margin, _, hlimit⟩ := Option.map_eq_some_iff.mp h
  cases side with
  | buy =>
    obtain ⟨q, hq, hle⟩ := PyFloat.py_max_at_most
      (PyFloat.at_most_py_min_right margin (max 0 s.cash / (p + cfg.commission_per_share)))
      (div_nonneg hcash (by linarith))
    exact ⟨q, hlimit.symm.trans hq, hle⟩
  | sell =>
    have hcostly := hside rfl
    obtain ⟨q, hq, hle⟩ := PyFloat.py_max_at_most
      (PyFloat.at_most_py_min_right margin (max 0 s.cash / (cfg.commission_per_share - p)))
      (div_nonneg hcash (by linarith))
    simp only [if_pos hcostly] at hlimit
    exact ⟨q, hlimit.symm.trans hq, fun _ => hle⟩

theorem explicit_covers {target : PyFloat} {current : ℚ} {side : Side} (hp : 0 < p)
    (h : explicit_quantity cfg s x target current side p = some n) (hn : 0 < n)
    (hside : side = .sell → p < cfg.commission_per_share) : CashCovers cfg s p side n := by
  unfold explicit_quantity at h
  obtain ⟨limit, hlimit, hrest⟩ := Option.bind_eq_some_iff.mp h
  obtain ⟨m, hm, hsome⟩ := Option.bind_eq_some_iff.mp hrest
  obtain ⟨q, rfl, hcovers⟩ := limit_covers hp hlimit hside
  have hmax : max 0 m = n := Option.some.inj hsome
  have hnm : n = m := by omega
  rw [hnm]
  exact hcovers.mono (PyFloat.at_most_floor (PyFloat.at_most_py_min_right _ q) hm)

theorem weighted_covers {desired : PyFloat} {side : Side} (hp : 0 < p)
    (h : weighted_quantity cfg s x desired side p = some n) (hn : 0 < n)
    (hdir : .fin 0 < desired ↔ side = .buy)
    (hside : side = .sell → p < cfg.commission_per_share) : CashCovers cfg s p side n := by
  by_cases hfree : cfg.commission_per_share = 0
  · cases side with
    | buy =>
      -- without a commission a purchase is bounded by the cash itself
      have hbound := weighted_quantity_bound (tradable_at_most_cash (hdir.mpr rfl)) hp h hn
      show (n : ℚ) ≤ max 0 s.cash / (p + cfg.commission_per_share)
      rw [hfree, add_zero]
      exact le_trans hbound (div_le_div_of_nonneg_right (le_max_right _ _) (le_of_lt hp))
    | sell =>
      have hcostly := hside rfl
      rw [hfree] at hcostly
      exact absurd hcostly (not_lt.mpr (le_of_lt hp))
  · obtain ⟨limit, m, hlimit, hm, hle⟩ := (weighted_quantity_cases hn h).2 hfree
    obtain ⟨q, rfl, hcovers⟩ := limit_covers hp hlimit hside
    have hmq : (m : ℚ) ≤ q := PyFloat.at_most_floor ((PyFloat.at_most_fin q q).mpr (le_refl q)) hm
    have hle' : (n : ℚ) ≤ m := by exact_mod_cast hle
    exact hcovers.mono (le_trans hle' hmq)

/-- **Cash covers a sized fill**, in either model. -/
theorem SizedFill.covers (h : SizedFill cfg s r x weight p n) :
    CashCovers cfg s p (sizing_side cfg s r x weight) n := by
  have hcovers : (sizing_side cfg s r x weight = .sell → p < cfg.commission_per_share) →
      CashCovers cfg s p (sizing_side cfg s r x weight) n := by
    intro hside
    rcases h.model with ⟨w, _, hexplicit⟩ | ⟨_, hweighted⟩
    · exact explicit_covers h.price_pos hexplicit h.quantity_pos hside
    · exact weighted_covers h.price_pos hweighted h.quantity_pos h.direction hside
  cases hside : sizing_side cfg s r x weight with
  | buy =>
    rw [hside] at hcovers
    exact hcovers (by simp)
  | sell =>
    rw [hside] at hcovers
    intro hcostly
    exact hcovers (fun _ => hcostly) hcostly

/-- A fill that cash covers leaves no debt behind. -/
theorem CashCovers.settled {side : Side} {q : ℚ} (hp : 0 < p) (hq : 0 ≤ q)
    (h : CashCovers cfg s p side q) (t : Ticker) (conf : PyFloat) (id : String)
    (ts : Option Moment) : min s.cash 0 ≤ (settle cfg s t side q p conf id ts).cash := by
  have hfee := cfg.commission_nonneg
  have hsplit : s.cash - max 0 s.cash = min s.cash 0 := by
    have hsum := max_add_min 0 s.cash
    rw [min_comm]
    linarith
  cases side with
  | buy =>
    show min s.cash 0 ≤ s.cash - 1 * (q * p) - q * cfg.commission_per_share
    have hpaid : q * (p + cfg.commission_per_share) ≤ max 0 s.cash :=
      (le_div_iff₀ (by linarith)).mp h
    linarith
  | sell =>
    show min s.cash 0 ≤ s.cash - -1 * (q * p) - q * cfg.commission_per_share
    by_cases hcostly : p < cfg.commission_per_share
    · have hpaid : q * (cfg.commission_per_share - p) ≤ max 0 s.cash :=
        (le_div_iff₀ (by linarith)).mp (h hcostly)
      linarith
    · have hgain := mul_nonneg hq (sub_nonneg.mpr (not_lt.mp hcostly))
      have hmin := min_le_left s.cash 0
      linarith

end Fill

/-- **One trade never overdraws.** -/
theorem cash_after_trade (r : TradeRequest) :
    min s.cash 0 ≤ (execute_trade cfg s r).2.cash := by
  rcases execute_trade_sized cfg s r with ⟨hsame, _⟩ | ⟨x, weight, p, n, conf, hfill, heq⟩
  · rw [hsame]
    exact min_le_left _ _
  · rw [heq]
    have hn : (0 : ℚ) ≤ n := by exact_mod_cast le_of_lt hfill.quantity_pos
    exact hfill.covers.settled hfill.price_pos hn r.ticker conf r.portfolio_id r.timestamp

end Engine
