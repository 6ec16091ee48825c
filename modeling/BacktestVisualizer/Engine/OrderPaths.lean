import BacktestVisualizer.Engine.Margin

/-! # Two Paths of an Order

  `StrategyContext._place` either fills an order through `execute_trade` or
  sizes it and registers it with an order manager, which comes back through
  `execute_child_order`. Both paths size alike. The child path derives the
  price again and, with a commission, checks the fees against the actual
  holding, where the signal and weight model had sized as if there were none.

  A holding only widens the limit: shares that close it release margin. So
  a parent that is filled at once and in full is filled like a direct order.
-/

namespace Engine

/-! ### The paths -/

/-- The one child that fills a parent in full. -/
def ParentOrder.child (parent : ParentOrder) : ChildOrder where
  ticker := parent.ticker
  signal_type := parent.side.signal
  target_quantity := some (.fin parent.total_quantity)
  confidence := parent.confidence
  portfolio_id := parent.portfolio_id

variable (cfg : Config)

/-- An order without an order manager. -/
def direct_path (ctx : StrategyContext) (s : Executor) (order : Order) : Placed × Executor :=
  issue cfg { ctx with has_order_manager := false } s order

/-- An order manager that fills what is registered at once, in one child. -/
def fill_registered : Placed × Executor → Placed × Executor
  | (.registered parent, s) =>
      let (outcome, s) := execute_child_order cfg s parent.child (some parent.timestamp)
      (.executed outcome, s)
  | result => result

/-- An order that such an order manager owns. -/
def managed_path (ctx : StrategyContext) (s : Executor) (order : Order) : Placed × Executor :=
  fill_registered cfg (issue cfg { ctx with has_order_manager := true } s order)

/-- The quantity, price and fees of an order that settled. -/
def Placed.fill : Placed → Option (ℚ × ℚ × ℚ)
  | .executed (.success quantity fill_price fees) => some (quantity, fill_price, fees)
  | _ => none

/-- A log record but for the confidence, which a child order carries as the
    strategy gave it. -/
def Entry.fill (e : Entry) : Entry := { e with confidence := .fin 0 }

/-- The same cash, positions and fills. -/
structure SameFills (s t : Executor) : Prop where
  cash : s.cash = t.cash
  positions : s.positions = t.positions
  latest_prices : s.latest_prices = t.latest_prices
  current_time : s.current_time = t.current_time
  fills : s.trade_log.map Entry.fill = t.trade_log.map Entry.fill

/-- A constant slippage, and no cost model that would ask how much is traded
    at once. -/
structure ConstantCosts : Prop where
  cost_model : cfg.cost_model = none
  leverage_nonneg : 0 ≤ cfg.leverage

/-- An order placed at the mark, with the portfolio value of the executor. -/
structure PlacedAtMark (ctx : StrategyContext) (s : Executor) (order : Order) : Prop where
  mark_pos : 0 < s.latest_prices order.ticker
  close_is_mark : ∀ asset, ctx.market order.ticker = some asset →
    asset.Close = .fin (s.latest_prices order.ticker)
  value : ctx.total_value = .fin (get_port_notional cfg s)

/-! ### A holding widens the limit -/

theorem margin_limit_mono {leverage fee price buying_power closing : ℚ} (hprice : 0 < price)
    (hlf : 0 ≤ leverage * fee) (hbp : 0 ≤ buying_power) (hclosing : 0 ≤ closing) :
    margin_limit leverage fee price buying_power 0 ≤
      margin_limit leverage fee price buying_power closing := by
  have hdiv : 0 < price + leverage * fee := by linarith
  have hflat : margin_limit leverage fee price buying_power 0 =
      buying_power / (price + leverage * fee) := by
    unfold margin_limit
    rw [if_neg]
    · ring
    · rintro ⟨_, hlt⟩
      linarith
  rw [hflat]
  unfold margin_limit
  split
  · rename_i hcostly
    -- the divisor of the closing branch is the smaller one
    exact div_le_div_of_nonneg_left hbp hcostly.1 (by linarith)
  · apply div_le_div_of_nonneg_right _ (le_of_lt hdiv)
    have hrelease : 0 ≤ 2 * closing * price := by positivity
    linarith

theorem closing_quantity_nonneg (side : Side) (current : ℚ) : 0 ≤ closing_quantity side current :=
  le_max_left _ _

@[simp] theorem closing_quantity_zero (side : Side) : closing_quantity side 0 = 0 := by
  cases side with
  | buy => simp [closing_quantity]
  | sell => simp [closing_quantity]

/-- **What fits without the holding fits with it.** -/
theorem share_limit_holding {cfg : Config} {s : Executor} {price : ℚ} (hprice : 0 < price)
    (hlev : 0 ≤ cfg.leverage) {side : Side} {equity n : ℚ} (hn : 0 < n)
    (h : n ≤ share_limit cfg s price side equity 0) (current : ℚ) :
    n ≤ share_limit cfg s price side equity current := by
  have hflat := (le_share_limit_iff cfg s hprice hlev side equity 0).2 n hn
  have hheld := (le_share_limit_iff cfg s hprice hlev side equity current).2 n hn
  rw [closing_quantity_zero] at hflat
  obtain ⟨hmargin, hcash⟩ := hflat.mp h
  apply hheld.mpr
  refine ⟨le_trans hmargin ?_, hcash⟩
  exact margin_limit_mono hprice (mul_nonneg hlev cfg.commission_nonneg) (le_max_left _ _)
    (closing_quantity_nonneg side current)

/-! ### What a sized order is -/

theorem le_of_py_min {a : PyFloat} {limit q : ℚ} (h : PyFloat.py_min a (.fin limit) = .fin q) :
    q ≤ limit := by
  unfold PyFloat.py_min at h
  split at h
  · rw [PyFloat.fin.inj h]
  · rename_i hnot
    subst h
    rw [PyFloat.fin_lt] at hnot
    exact not_lt.mp hnot

section Sized

variable {cfg} {s : Executor} {t : Ticker} {x : SizeInputs} {target : PyFloat} {side : Side}
  {p : ℚ} {z : Sizing}

/-- A size above zero agrees with its side and comes from one of the models. -/
theorem size_at_cases (h : size_at cfg s t x target side p = some z) (hq : 0 < z.quantity) :
    z.exec_price = .fin p ∧ (.fin 0 < z.desired_notional ↔ side = .buy) ∧
    z.desired_notional = (target - .fin (s.positions t * p)) * .fin x.confidence ∧
    ((∃ w, x.target_weight = some w ∧
        explicit_quantity cfg s x target (s.positions t) side p = some z.quantity) ∨
      (x.target_weight = none ∧ ¬ z.desired_notional.abs < .fin 1 ∧
        weighted_quantity cfg s x z.desired_notional side p = some z.quantity)) := by
  have hzero : ∀ z' : Sizing, z'.quantity = 0 → some z' ≠ some z := by
    intro z' hz heq
    obtain rfl := Option.some.inj heq
    omega
  unfold size_at at h
  simp only at h
  split at h
  · exact absurd h (hzero _ rfl)
  rename_i hside
  simp only [ne_eq, not_not, decide_eq_decide] at hside
  split at h
  · exact absurd h (hzero _ rfl)
  rename_i hsmall
  cases htarget : x.target_weight with
  | some w =>
    simp only [htarget] at h
    obtain ⟨n, hn, rfl⟩ := Option.map_eq_some_iff.mp h
    exact ⟨rfl, hside, rfl, Or.inl ⟨w, rfl, hn⟩⟩
  | none =>
    simp only [htarget] at h hsmall
    obtain ⟨n, hn, rfl⟩ := Option.map_eq_some_iff.mp h
    exact ⟨rfl, hside, rfl, Or.inr ⟨rfl, fun hlt => hsmall ⟨hlt, by simp⟩, hn⟩⟩

/-- An explicit order keeps within the limit of the actual holding. -/
theorem explicit_quantity_le {equity current : ℚ} (hprice : 0 < p) (hlev : 0 ≤ cfg.leverage)
    (hport : x.port_notional = .fin equity) {n : ℤ} (hn : 0 < n)
    (h : explicit_quantity cfg s x target current side p = some n) :
    (n : ℚ) ≤ share_limit cfg s p side equity current := by
  unfold explicit_quantity at h
  rw [hport, (le_share_limit_iff cfg s hprice hlev side equity current).1] at h
  simp only [Option.bind_eq_bind, Option.bind_some] at h
  obtain ⟨m, hm, hmax⟩ := Option.bind_eq_some_iff.mp h
  obtain ⟨q, hq, rfl⟩ := PyFloat.floor_some hm
  have hlimit := le_of_py_min hq
  have hmax' : max 0 ⌊q⌋ = n := Option.some.inj hmax
  have hfloor : n = ⌊q⌋ := by omega
  rw [hfloor]
  exact le_trans (Int.floor_le q) hlimit

/-- A target at the current notional trades nothing. -/
theorem explicit_quantity_flat {current : ℚ} (hp : 0 < p) {n : ℤ}
    (h : explicit_quantity cfg s x (.fin (current * p)) current side p = some n) : n = 0 := by
  unfold explicit_quantity at h
  have hwanted : ((PyFloat.fin (current * p)).div_rat p - .fin current).abs * .fin x.confidence =
      .fin 0 := by
    rw [PyFloat.div_rat_fin, mul_div_cancel_right₀ _ (ne_of_gt hp), PyFloat.fin_sub, sub_self]
    simp
  rw [hwanted] at h
  obtain ⟨limit, _, hrest⟩ := Option.bind_eq_some_iff.mp h
  obtain ⟨m, hm, hmax⟩ := Option.bind_eq_some_iff.mp hrest
  obtain ⟨q, hq, rfl⟩ := PyFloat.floor_some hm
  have hle : q ≤ 0 := by
    unfold PyFloat.py_min at hq
    split at hq
    · rename_i hlt
      rw [hq, PyFloat.fin_lt] at hlt
      exact le_of_lt hlt
    · rw [PyFloat.fin.inj hq]
  have hfloor : ⌊q⌋ ≤ 0 := by
    have := Int.floor_le q
    exact_mod_cast le_trans this hle
  have hmax' : max 0 ⌊q⌋ = n := Option.some.inj hmax
  omega

/-- The notional a weighted order may trade. -/
def tradable_notional (cfg : Config) (s : Executor) (x : SizeInputs) (desired : PyFloat) :
    PyFloat :=
  let tradable := PyFloat.py_min desired.abs (calculate_buying_power cfg s x.port_notional)
  if .fin 0 < desired then PyFloat.py_min tradable (.fin s.cash) else tradable

theorem weighted_quantity_cases {desired : PyFloat} {n : ℤ} (hn : 0 < n)
    (h : weighted_quantity cfg s x desired side p = some n) :
    (∃ k, ((tradable_notional cfg s x desired).div_rat p).floor = some k ∧ n ≤ k) ∧
    (cfg.commission_per_share ≠ 0 → ∃ limit m,
      commission_quantity_limit cfg s p side x.port_notional 0 = some limit ∧
      limit.floor = some m ∧ n ≤ m) := by
  have hdef : weighted_quantity cfg s x desired side p =
      if tradable_notional cfg s x desired < .fin 1 then some 0
      else ((tradable_notional cfg s x desired).div_rat p).floor.bind (fun k =>
        if cfg.commission_per_share = 0 then some (max 0 k)
        else (commission_quantity_limit cfg s p side x.port_notional 0).bind (fun limit =>
          limit.floor.bind (fun m => some (max 0 (min k m))))) := rfl
  rw [hdef] at h
  split at h
  · obtain rfl : (0 : ℤ) = n := Option.some.inj h
    exact absurd hn (lt_irrefl 0)
  · obtain ⟨k, hk, hrest⟩ := Option.bind_eq_some_iff.mp h
    by_cases hfee : cfg.commission_per_share = 0
    · rw [if_pos hfee] at hrest
      have hmax : max 0 k = n := Option.some.inj hrest
      exact ⟨⟨k, hk, by omega⟩, fun hne => absurd hfee hne⟩
    · rw [if_neg hfee] at hrest
      obtain ⟨limit, hlimit, hrest⟩ := Option.bind_eq_some_iff.mp hrest
      obtain ⟨m, hm, hmax⟩ := Option.bind_eq_some_iff.mp hrest
      have hmax' : max 0 (min k m) = n := Option.some.inj hmax
      exact ⟨⟨k, hk, by omega⟩, fun _ => ⟨limit, m, hlimit, hm, by omega⟩⟩

/-- A weighted order that pays a commission keeps within the limit without a
    holding. -/
theorem weighted_quantity_le {equity : ℚ} {desired : PyFloat} (hprice : 0 < p)
    (hlev : 0 ≤ cfg.leverage) (hport : x.port_notional = .fin equity)
    (hfee : cfg.commission_per_share ≠ 0) {n : ℤ} (hn : 0 < n)
    (h : weighted_quantity cfg s x desired side p = some n) :
    (n : ℚ) ≤ share_limit cfg s p side equity 0 := by
  obtain ⟨limit, m, hlimit, hm, hle⟩ := (weighted_quantity_cases hn h).2 hfee
  rw [hport, (le_share_limit_iff cfg s hprice hlev side equity 0).1] at hlimit
  obtain rfl := Option.some.inj hlimit
  obtain rfl : ⌊share_limit cfg s p side equity 0⌋ = m := Option.some.inj hm
  exact le_trans (by exact_mod_cast hle) (Int.floor_le _)

/-- A notional that is not a number is not traded. -/
theorem weighted_quantity_nan {n : ℤ} (hn : 0 < n) :
    weighted_quantity cfg s x .nan side p ≠ some n := by
  intro h
  obtain ⟨k, hk, _⟩ := (weighted_quantity_cases hn h).1
  have hmin : ∀ a : PyFloat, PyFloat.py_min .nan a = .nan := by
    intro a
    unfold PyFloat.py_min
    rw [if_neg]
    cases a <;> exact Bool.false_ne_true
  have htradable : tradable_notional cfg s x .nan = .nan := by
    unfold tradable_notional
    simp only [PyFloat.abs, hmin]
    split
    · rfl
    · rfl
  have hscale : PyFloat.nan.div_rat p = .nan := by
    show PyFloat.scale p .nan = .nan
    unfold PyFloat.scale
    split
    · rfl
    · split
      · rfl
      · rfl
  rw [htradable, hscale] at hk
  exact absurd hk (by simp [PyFloat.floor])

/-- Both paths read the side off the sign of the sized notional, one as above
    zero and one as not below. -/
theorem sell_iff_negative (hp : 0 < p) (hconf : x.confidence ≠ 0)
    (hfinite : ∀ w, x.target_weight = some w → ∃ q, target = .fin q)
    (h : size_at cfg s t x target side p = some z) (hq : 0 < z.quantity) :
    z.desired_notional < .fin 0 ↔ ¬ .fin 0 < z.desired_notional := by
  obtain ⟨_, _, hdesired, hmodel⟩ := size_at_cases h hq
  cases hd : z.desired_notional with
  | fin d =>
    have hzero : d ≠ 0 := by
      rintro rfl
      rcases hmodel with ⟨w, hw, hexplicit⟩ | ⟨_, hsmall, _⟩
      · -- the target is the current notional
        obtain ⟨q, rfl⟩ := hfinite w hw
        rw [hd, PyFloat.fin_sub, PyFloat.fin_mul] at hdesired
        have hprod := PyFloat.fin.inj hdesired
        have hq' : q = s.positions t * p := by
          rcases mul_eq_zero.mp hprod.symm with hdiff | hzero
          · linarith
          · exact absurd hzero hconf
        subst hq'
        rw [explicit_quantity_flat hp hexplicit] at hq
        exact absurd hq (lt_irrefl 0)
      · rw [hd] at hsmall
        exact hsmall (by simp)
    simp only [PyFloat.fin_lt, not_lt]
    constructor
    · exact le_of_lt
    · intro hle
      exact lt_of_le_of_ne hle hzero
  | pos_inf => decide
  | neg_inf => decide
  | nan =>
    rcases hmodel with ⟨w, hw, _⟩ | ⟨_, _, hweighted⟩
    · obtain ⟨q, rfl⟩ := hfinite w hw
      rw [hd, PyFloat.fin_sub, PyFloat.fin_mul] at hdesired
      exact absurd hdesired (by simp)
    · rw [hd] at hweighted
      exact absurd hweighted (weighted_quantity_nan hq)

end Sized

/-! ### A sized order as a child -/

section Child

variable {cfg} {s : Executor} {r : SizeRequest} {z : Sizing}

/-- The constant multiplier does not ask for the notional. -/
theorem apply_slippage_notional (hcost : cfg.cost_model = none) (price : PyFloat) (side : Side)
    (t : Ticker) (notional notional' : PyFloat) :
    apply_slippage cfg price side t notional = apply_slippage cfg price side t notional' := by
  unfold apply_slippage
  rw [hcost]

/-- The settled side of a sized order. -/
def Sizing.side (z : Sizing) : Side := if .fin 0 < z.desired_notional then .buy else .sell

/-- A request at the mark, sized with the current equity. -/
structure SizedAtMark (cfg : Config) (s : Executor) (r : SizeRequest) : Prop where
  mark_pos : 0 < s.latest_prices r.ticker
  arrival : r.arrival_price = some (.fin (s.latest_prices r.ticker))
  value : r.port_notional = some (.fin (get_port_notional cfg s))

/-- What holds of an order that is sized at the mark: the price is the one a
    child gets, and the fees still fit when the holding counts. -/
structure FillsAsChild (cfg : Config) (s : Executor) (t : Ticker) (z : Sizing) (p : ℚ) : Prop where
  price_pos : 0 < p
  exec_price : z.exec_price = .fin p
  slippage : ∀ notional, apply_slippage cfg (.fin (s.latest_prices t)) z.side t notional = .fin p
  managed_side : (if z.desired_notional < .fin 0 then Side.sell else Side.buy) = z.side
  affordable : child_affordable cfg s t z.side z.quantity p = some true

theorem fills_as_child (hcfg : ConstantCosts cfg) (hr : SizedAtMark cfg s r)
    (hz : default_trade_size cfg s r = some z) (hq : 0 < z.quantity) :
    ∃ p, FillsAsChild cfg s r.ticker z p := by
  obtain ⟨x, weight, notional, p, hconv, hsignal, _, hslip, hp, hsize⟩ :=
    default_trade_size_cases cfg s r hz hq
  obtain ⟨harr, hport, _, _, _, _, htarget⟩ := convert_cases hconv
  have harrival : x.arrival_price = .fin (s.latest_prices r.ticker) :=
    Option.some.inj (harr.symm.trans hr.arrival)
  have hvalue : x.port_notional = .fin (get_port_notional cfg s) :=
    Option.some.inj (hport.symm.trans hr.value)
  obtain ⟨hprice, hside, _, hmodel⟩ := size_at_cases hsize hq
  have hlev : 0 ≤ cfg.leverage := hcfg.leverage_nonneg
  have hsame : z.side = sizing_side cfg s r x weight := by
    unfold Sizing.side
    cases hsizing : sizing_side cfg s r x weight with
    | buy => rw [if_pos (hside.mpr hsizing)]
    | sell =>
      rw [if_neg]
      intro hpos
      rw [hside.mp hpos] at hsizing
      exact absurd hsizing (by decide)
  have hfinite : ∀ w, x.target_weight = some w → ∃ q, gated_notional cfg s r x weight = .fin q := by
    intro w hw
    have hwanted : wanted_notional r.signal_type x weight = x.port_notional * .fin w := by
      unfold wanted_notional
      rw [hw]
    unfold gated_notional current_notional
    rw [hwanted, hvalue, harrival]
    exact ⟨_, apply_sentiment_gate_fin cfg s r.ticker w _ _⟩
  refine ⟨p, hp, hprice, ?_, ?_, ?_⟩
  · intro notional'
    rw [hsame, apply_slippage_notional hcfg.cost_model _ _ _ notional' notional, ← harrival]
    exact hslip
  · have hconf : x.confidence ≠ 0 := fun h => hsignal (Or.inr (Or.inr h))
    have hnegative := sell_iff_negative hp hconf hfinite hsize hq
    unfold Sizing.side
    by_cases hpos : PyFloat.fin 0 < z.desired_notional
    · rw [if_pos hpos, if_neg (fun h => hnegative.mp h hpos)]
    · rw [if_neg hpos, if_pos (hnegative.mpr hpos)]
  · unfold child_affordable
    by_cases hfee : cfg.commission_per_share = 0
    · rw [if_pos hfee]
    · have hquantity : (0 : ℚ) < z.quantity := by exact_mod_cast hq
      have hfits : (z.quantity : ℚ) ≤ share_limit cfg s p z.side (get_port_notional cfg s)
          (s.positions r.ticker) := by
        rw [hsame]
        rcases hmodel with ⟨_, _, hexplicit⟩ | ⟨_, _, hweighted⟩
        · exact explicit_quantity_le hp hlev hvalue hq hexplicit
        · exact share_limit_holding hp hlev hquantity
            (weighted_quantity_le hp hlev hvalue hfee hq hweighted) _
      rw [if_neg hfee, (le_share_limit_iff cfg s hp hlev z.side _ _).1, Option.map_some]
      simp only [PyFloat.fin_lt, not_lt.mpr hfits, decide_false, Bool.not_false]

/-- **A child of the sized quantity** settles as the sizing says. -/
theorem execute_child_of_sizing {t : Ticker} {p : ℚ} (h : FillsAsChild cfg s t z p)
    (hq : 0 < z.quantity) (hmark : 0 < s.latest_prices t) (confidence : PyFloat)
    (portfolio_id : String) (timestamp : Option Moment) :
    execute_child_order cfg s
        ⟨t, z.side.signal, some (.fin z.quantity), some confidence, portfolio_id⟩ timestamp =
      (.success z.quantity p (z.quantity * cfg.commission_per_share),
        settle cfg s t z.side z.quantity p confidence portfolio_id timestamp) := by
  have hquantity : ¬ ((z.quantity : ℚ) ≤ 0) := by
    rw [not_le]
    exact_mod_cast hq
  unfold execute_child_order
  simp only [if_neg hquantity, Side.side_signal, if_neg (not_le.mpr hmark), h.slippage,
    if_neg (not_le.mpr h.price_pos), h.affordable]

end Child

/-! ### One order -/

theorem SameFills.refl (s : Executor) : SameFills s s := ⟨rfl, rfl, rfl, rfl, rfl⟩

/-- Books that agree differ in the confidences of the log at most. -/
theorem SameFills.eq_with_log {s t : Executor} (h : SameFills s t) :
    t = { s with trade_log := t.trade_log } := by
  obtain ⟨hcash, hpositions, hprices, htime, _⟩ := h
  cases s
  cases t
  simp_all

/-- A fill of the same quantity at the same price keeps books the same. -/
theorem SameFills.settle {s t : Executor} (h : SameFills s t) (ticker : Ticker) (side : Side)
    (quantity price : ℚ) (confidence confidence' : PyFloat) (portfolio_id : String)
    (timestamp : Option Moment) :
    SameFills (settle cfg s ticker side quantity price confidence portfolio_id timestamp)
      (Engine.settle cfg t ticker side quantity price confidence' portfolio_id timestamp) := by
  have hcash := h.cash
  have hpositions := h.positions
  have hfills := h.fills
  unfold Engine.settle
  constructor
  · simp [hcash]
  · simp [hpositions]
  · exact h.latest_prices
  · exact h.current_time
  · simp [hcash, hpositions, hfills, Entry.fill]

/-- The log has no part in how a child fills. -/
theorem FillsAsChild.of_same {cfg : Config} {s t : Executor} {ticker : Ticker} {z : Sizing} {p : ℚ}
    (hp : FillsAsChild cfg s ticker z p) (h : SameFills s t) : FillsAsChild cfg t ticker z p := by
  obtain ⟨hpos, hexec, hslip, hside, hafford⟩ := hp
  refine ⟨hpos, hexec, ?_, hside, ?_⟩
  · intro notional
    rw [← h.latest_prices]
    exact hslip notional
  · rw [h.eq_with_log]
    exact hafford

/-- Two order calls that settle the same fill, or both none. -/
structure SameOrder (direct managed : Placed × Executor) : Prop where
  fill : managed.1.fill = direct.1.fill
  books : SameFills direct.2 managed.2

/-- **`_place`** settles the same with and without the order manager. -/
theorem place_same {cfg : Config} (hcfg : ConstantCosts cfg) (ctx : StrategyContext)
    {s t : Executor} (h : SameFills s t) (a : PlaceArgs)
    (hmark : 0 < s.latest_prices a.ticker)
    (hclose : ∀ asset, ctx.market a.ticker = some asset →
      asset.Close = .fin (s.latest_prices a.ticker))
    (hvalue : ctx.total_value = .fin (get_port_notional cfg s)) :
    SameOrder
      (place cfg { ctx with has_order_manager := false } s a.ticker a.signal_type a.confidence
        a.ticker_weight a.target_weight)
      (fill_registered cfg (place cfg { ctx with has_order_manager := true } t a.ticker
        a.signal_type a.confidence a.ticker_weight a.target_weight)) := by
  unfold place
  cases hasset : ctx.market a.ticker with
  | none => exact ⟨rfl, h⟩
  | some asset =>
    have hprice := hclose asset hasset
    have hpos : ¬ asset.Close ≤ .fin 0 := by
      rw [hprice, PyFloat.fin_le, not_le]
      exact hmark
    simp only [if_neg hpos, if_true, Bool.false_eq_true, if_false]
    set r : SizeRequest :=
      { signal_type := a.signal_type, ticker := a.ticker, arrival_price := some asset.Close,
        confidence := a.confidence, port_notional := some ctx.total_value,
        ticker_weight := a.ticker_weight, target_weight := a.target_weight } with hr
    have hsized : default_trade_size cfg t r = default_trade_size cfg s r := by
      rw [h.eq_with_log]
      rfl
    rw [hsized]
    unfold execute_trade
    cases hz : default_trade_size cfg s r with
    | none => exact ⟨rfl, h⟩
    | some z =>
      by_cases hq : 0 < z.quantity
      · -- sized alike, the child settles what the direct order settles
        have hsize : SizedAtMark cfg s r := ⟨hmark, congrArg some hprice, congrArg some hvalue⟩
        obtain ⟨p, hp⟩ : ∃ p, FillsAsChild cfg s a.ticker z p := fills_as_child hcfg hsize hz hq
        have hmark' : 0 < t.latest_prices a.ticker := by
          rw [← h.latest_prices]
          exact hmark
        -- whatever was sized has a confidence the child can log
        obtain ⟨confidence, hconf⟩ : ∃ confidence, a.confidence = some confidence := by
          obtain ⟨x, _, _, _, hconvert, _⟩ := default_trade_size_cases cfg s r hz hq
          obtain ⟨_, _, _, confidence, hconf, _⟩ := convert_cases hconvert
          exact ⟨confidence, hconf⟩
        have hchild := execute_child_of_sizing (hp.of_same h) hq hmark' confidence
          ctx.portfolio_id (some ctx.time)
        simp only [if_pos hq, if_neg (not_le.mpr hq), hp.managed_side, hp.exec_price,
          fill_registered, ParentOrder.child, hconf, hchild]
        exact ⟨rfl, h.settle cfg _ _ _ _ _ _ _ _⟩
      · simp only [if_neg hq, if_pos (not_lt.mp hq)]
        exact ⟨rfl, h⟩

/-- An order that ends before `_place` has raised or holds nothing to sell. -/
theorem target_args_error {ticker : Ticker} {weight confidence : Numeric} {placed : Placed}
    (h : target_args ticker weight confidence = .error placed) : ∃ e, placed = .raised e := by
  unfold target_args at h
  split at h
  · exact ⟨_, (Except.error.inj h).symm⟩
  split at h
  · exact absurd h (by simp)
  · exact ⟨_, (Except.error.inj h).symm⟩

theorem args_error {ctx : StrategyContext} {s : Executor} {order : Order} {placed : Placed}
    (h : order.args ctx s = .error placed) : (∃ e, placed = .raised e) ∨ placed = .not_held := by
  cases order with
  | buy ticker confidence =>
    simp only [Order.args] at h
    split at h
    · exact Or.inl ⟨_, (Except.error.inj h).symm⟩
    · exact Or.inl (target_args_error h)
  | sell ticker confidence =>
    simp only [Order.args] at h
    split at h
    · exact absurd h (by simp)
    · exact Or.inr (Except.error.inj h).symm
  | close_position ticker confidence =>
    simp only [Order.args] at h
    exact Or.inl (target_args_error h)
  | target_weight ticker weight confidence => exact Or.inl (target_args_error h)
  | execute ticker side confidence weight => exact absurd h (by simp [Order.args])

/-- **One order** placed at the mark, on books that agree. -/
theorem order_same {cfg : Config} (hcfg : ConstantCosts cfg) {ctx : StrategyContext}
    {s t : Executor} (h : SameFills s t) {order : Order} (hmark : PlacedAtMark cfg ctx s order) :
    SameOrder (direct_path cfg ctx s order) (managed_path cfg ctx t order) := by
  have hargs : ∀ has_order_manager,
      order.args { ctx with has_order_manager := has_order_manager } t = order.args ctx s := by
    intro has_order_manager
    rw [h.eq_with_log]
    rfl
  have hdirect : order.args { ctx with has_order_manager := false } s = order.args ctx s := rfl
  unfold direct_path managed_path
  rw [issue_eq_place, issue_eq_place, hargs, hdirect]
  cases ha : order.args ctx s with
  | error placed =>
    -- the order ended before `_place`, and registered nothing
    rcases args_error ha with ⟨e, rfl⟩ | rfl
    · exact ⟨rfl, h⟩
    · exact ⟨rfl, h⟩
  | ok a =>
    have hticker : a.ticker = order.ticker := (args_ok ctx s ha).1
    apply place_same hcfg ctx h a
    · rw [hticker]
      exact hmark.mark_pos
    · rw [hticker]
      exact hmark.close_is_mark
    · exact hmark.value

/-! ### Sequences of orders -/

/-- What happens to an executor at its orders and between them. -/
inductive Event where
  | quote (ticker : Ticker) (price : ℚ)
  | clock (now : Option Moment)
  | place (ctx : StrategyContext) (order : Order)

/-- A path an order can take. -/
abbrev OrderPath := StrategyContext → Executor → Order → Placed × Executor

/-- One event; only an order can fill. -/
def Event.apply (path : OrderPath) (s : Executor) : Event → Option (ℚ × ℚ × ℚ) × Executor
  | .quote ticker price => (none, update_price cfg s ticker price)
  | .clock now => (none, { s with current_time := now })
  | .place ctx order => ((path ctx s order).1.fill, (path ctx s order).2)

/-- The fill of each event, and the executor after the last. -/
def run_events (path : OrderPath) (s : Executor) :
    List Event → List (Option (ℚ × ℚ × ℚ)) × Executor
  | [] => ([], s)
  | event :: events =>
      let (fill, s) := event.apply cfg path s
      let (fills, s) := run_events path s events
      (fill :: fills, s)

/-- Every order is placed at the mark that the direct path has by then. -/
def AtMark (s : Executor) : List Event → Prop
  | [] => True
  | event :: events =>
      (∀ ctx order, event = .place ctx order → PlacedAtMark cfg ctx s order) ∧
        AtMark (event.apply cfg (direct_path cfg) s).2 events

variable {cfg}

/-- One event keeps books that agree. -/
theorem event_same (hcfg : ConstantCosts cfg) {s t : Executor} (h : SameFills s t) (event : Event)
    (hmark : ∀ ctx order, event = .place ctx order → PlacedAtMark cfg ctx s order) :
    (event.apply cfg (managed_path cfg) t).1 = (event.apply cfg (direct_path cfg) s).1 ∧
      SameFills (event.apply cfg (direct_path cfg) s).2
        (event.apply cfg (managed_path cfg) t).2 := by
  cases event with
  | quote ticker price =>
    refine ⟨rfl, ?_⟩
    show SameFills (update_price cfg s ticker price) (update_price cfg t ticker price)
    obtain ⟨hcash, hpositions, hprices, htime, hfills⟩ := h
    unfold update_price
    split
    · exact ⟨hcash, hpositions, by simp only [hprices], htime, hfills⟩
    · exact ⟨hcash, hpositions, hprices, htime, hfills⟩
  | clock now => exact ⟨rfl, h.cash, h.positions, h.latest_prices, rfl, h.fills⟩
  | place ctx order =>
    obtain ⟨hfill, hbooks⟩ := order_same hcfg h (hmark ctx order rfl)
    exact ⟨hfill, hbooks⟩

/-- **A run** keeps them. -/
theorem run_same (hcfg : ConstantCosts cfg) {s t : Executor} (h : SameFills s t)
    (events : List Event) (hmark : AtMark cfg s events) :
    (run_events cfg (managed_path cfg) t events).1 =
        (run_events cfg (direct_path cfg) s events).1 ∧
      SameFills (run_events cfg (direct_path cfg) s events).2
        (run_events cfg (managed_path cfg) t events).2 := by
  induction events generalizing s t with
  | nil => exact ⟨rfl, h⟩
  | cons event events ih =>
    obtain ⟨hhere, hrest⟩ := hmark
    obtain ⟨hfill, hbooks⟩ := event_same hcfg h event hhere
    obtain ⟨hfills, hend⟩ := ih hbooks hrest
    exact ⟨List.cons_eq_cons.mpr ⟨hfill, hfills⟩, hend⟩

/-! ### The paths agree -/

/-- **The paths agree**: an order placed at the mark settles with an order
    manager exactly when it settles without, and leaves the same books, and
    so does every sequence of such orders. -/
theorem order_paths_agree (hcfg : ConstantCosts cfg) (s : Executor) :
    (∀ ctx order, PlacedAtMark cfg ctx s order →
      SameOrder (direct_path cfg ctx s order) (managed_path cfg ctx s order)) ∧
    ∀ events, AtMark cfg s events →
      (run_events cfg (managed_path cfg) s events).1 =
          (run_events cfg (direct_path cfg) s events).1 ∧
        SameFills (run_events cfg (direct_path cfg) s events).2
          (run_events cfg (managed_path cfg) s events).2 := by
  constructor
  · intro ctx order hmark
    exact order_same hcfg (SameFills.refl s) hmark
  · intro events hmark
    exact run_same hcfg (SameFills.refl s) events hmark

/-- A portfolio that pays ten cents a share. -/
def fee_config : Config where
  initial_capital := 1000
  tickers := [tick_a]
  leverage := 2
  slippage := 1 / 100
  cost_model := none
  adv_lookup := fun _ => 0
  sigma_lookup := fun _ => 0
  commission_per_share := 1 / 10
  commission_nonneg := by norm_num
  sentiment_gate := none

/-- It holds five shares at a mark of ten. -/
def held_five : Executor where
  cash := 1000
  positions := set_amount (fun _ => 0) tick_a 5
  latest_prices := set_amount (fun _ => 0) tick_a 10
  trade_log := []
  current_time := none

def marked_context (total_value : ℚ) : StrategyContext where
  portfolio_id := "p"
  tickers := [tick_a]
  weights := .absent
  market := fun _ => some { Open := .fin 10, High := .fin 10, Low := .fin 10, Close := .fin 10,
                            Volume := .fin 0, Timestamp := 0 }
  total_value := .fin total_value
  time := { wall := 0, utcoffset := none }
  has_order_manager := false

/-- It sells through flat into a short, and buys half of the way back. -/
def there_and_back : List Event := [
    .place (marked_context 1050) (.execute tick_a .sell (some (.fin 1)) (some (.fin (1 / 2)))),
    .place (marked_context (5192 / 5)) (.buy tick_a (some (.fin (1 / 2))))]

theorem marked_context_at_mark {total_value : ℚ} {s : Executor} {order : Order}
    (hmark : s.latest_prices order.ticker = 10)
    (hvalue : get_port_notional fee_config s = total_value) :
    PlacedAtMark fee_config (marked_context total_value) s order := by
  constructor
  · rw [hmark]
    norm_num
  · intro asset hasset
    rw [hmark, ← Option.some.inj hasset]
  · rw [hvalue]
    rfl

theorem there_and_back_managed :
    (run_events fee_config (managed_path fee_config) held_five there_and_back).1 =
      [some (58, 99 / 10, 29 / 5), some (77, 101 / 10, 77 / 10)] := by
  have hcosts : ConstantCosts fee_config := ⟨rfl, by norm_num [fee_config]⟩
  have hmark : AtMark fee_config held_five there_and_back := by
    refine ⟨?_, ?_, trivial⟩
    · rintro ctx order ⟨⟩
      exact marked_context_at_mark (by decide +kernel) (by decide +kernel)
    · rintro ctx order ⟨⟩
      exact marked_context_at_mark (by decide +kernel) (by decide +kernel)
  rw [((order_paths_agree hcosts held_five).2 there_and_back hmark).1]
  decide +kernel

end Engine
