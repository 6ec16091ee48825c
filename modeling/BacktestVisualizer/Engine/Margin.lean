import BacktestVisualizer.Engine.StrategyContext

/-! # Margin and Commissions

  An order that names the exposure to end at is capped by
  `_commission_quantity_limit`: closing shares releases margin, shares beyond
  flat consume it, and a dollar of commission takes away `leverage` dollars of
  buying power. The cap is computed from the portfolio value of the poll
  start, which the commissions of earlier fills have lowered since.

  `margin_limit_iff` says that the cap, at a given equity, is exactly the
  number of shares after which gross exposure is still `leverage` times the
  equity.
-/

namespace Engine

/-! ### Exposure and equity as numbers -/

/-- The shares an order on `side` closes before it opens any. -/
def closing_quantity (side : Side) (current_quantity : ℚ) : ℚ :=
  max 0 (match side with
    | .buy => -current_quantity
    | .sell => current_quantity)

/-- By how much the size of a position changes when `n` shares trade of which
    `closing` close it. -/
def exposure_change (closing n : ℚ) : ℚ := if n ≤ closing then -n else n - 2 * closing

theorem abs_after_fill (side : Side) (current n : ℚ) (hn : 0 < n) :
    |current + side.sign * n| = |current| + exposure_change (closing_quantity side current) n := by
  unfold exposure_change closing_quantity
  cases side with
  | buy =>
    simp only [Side.sign_buy, one_mul]
    rcases le_total 0 current with hpos | hneg
    · rw [max_eq_left (by linarith), if_neg (by linarith), abs_of_nonneg hpos,
        abs_of_nonneg (by linarith)]
      linarith
    · rw [max_eq_right (by linarith), abs_of_nonpos hneg]
      by_cases hclose : n ≤ -current
      · rw [if_pos hclose, abs_of_nonpos (by linarith)]
        ring
      · rw [if_neg hclose, abs_of_nonneg (by linarith)]
        ring
  | sell =>
    simp only [Side.sign_sell, neg_one_mul]
    rcases le_total 0 current with hpos | hneg
    · rw [max_eq_right hpos, abs_of_nonneg hpos]
      by_cases hclose : n ≤ current
      · rw [if_pos hclose, abs_of_nonneg (by linarith)]
      · rw [if_neg hclose, abs_of_nonpos (by linarith)]
        ring
    · rw [max_eq_left hneg, if_neg (by linarith), abs_of_nonpos hneg,
        abs_of_nonpos (by linarith)]
      ring

/-- The margin part of `_commission_quantity_limit`. -/
def margin_limit (leverage fee price buying_power closing : ℚ) : ℚ :=
  if 0 < leverage * fee - price ∧ buying_power < closing * (leverage * fee - price) then
    buying_power / (leverage * fee - price)
  else (buying_power + 2 * closing * price) / (price + leverage * fee)

/-- **What the limit means**: `n` shares are within it exactly when the
    change in exposure fits into the buying power left after their fees. -/
theorem margin_limit_iff {leverage fee price buying_power closing n : ℚ}
    (hprice : 0 < price) (hlev : 0 ≤ leverage) (hfee : 0 ≤ fee) (hbp : 0 ≤ buying_power)
    (hn : 0 < n) :
    n ≤ margin_limit leverage fee price buying_power closing ↔
      price * exposure_change closing n ≤ buying_power - leverage * (n * fee) := by
  have hlf : 0 ≤ leverage * fee := mul_nonneg hlev hfee
  have hdiv : 0 < price + leverage * fee := by linarith
  unfold margin_limit exposure_change
  by_cases hcostly : 0 < leverage * fee - price ∧
      buying_power < closing * (leverage * fee - price)
  · obtain ⟨hcost, hover⟩ := hcostly
    rw [if_pos ⟨hcost, hover⟩, le_div_iff₀ hcost]
    by_cases hclose : n ≤ closing
    · rw [if_pos hclose]
      constructor <;> intro h <;> linarith
    · rw [if_neg hclose]
      -- beyond the closing part both sides fail
      have hmore : closing * (leverage * fee - price) < n * (leverage * fee - price) :=
        mul_lt_mul_of_pos_right (not_le.mp hclose) hcost
      have hmore' : closing * price < n * price :=
        mul_lt_mul_of_pos_right (not_le.mp hclose) hprice
      constructor <;> intro h <;> linarith
  · rw [if_neg hcostly, le_div_iff₀ hdiv]
    by_cases hclose : n ≤ closing
    · -- closing alone always fits, and so does the limit
      rw [if_pos hclose]
      have hfits : n * (leverage * fee - price) ≤ buying_power := by
        by_cases hcost : 0 < leverage * fee - price
        · have hle : closing * (leverage * fee - price) ≤ buying_power :=
            not_lt.mp (fun h => hcostly ⟨hcost, h⟩)
          have := mul_le_mul_of_nonneg_right hclose (le_of_lt hcost)
          linarith
        · have := mul_nonneg (le_of_lt hn) (sub_nonneg.mpr (not_lt.mp hcost))
          nlinarith
      have hclosing : n * price ≤ closing * price :=
        mul_le_mul_of_nonneg_right hclose (le_of_lt hprice)
      constructor <;> intro _ <;> linarith
    · rw [if_neg hclose]
      constructor <;> intro h <;> linarith

/-! ### The limit of the executor -/

section Limit

variable (cfg : Config) (s : Executor)

/-- Buying power at an equity. -/
def buying_power (equity : ℚ) : ℚ := max 0 (equity * cfg.leverage - gross_position_value cfg s)

/-- Whether cash covers what an order of `n` shares pays out. -/
def CashCovers (price : ℚ) (side : Side) (n : ℚ) : Prop :=
  match side with
  | .buy => n ≤ max 0 s.cash / (price + cfg.commission_per_share)
  | .sell => price < cfg.commission_per_share →
      n ≤ max 0 s.cash / (cfg.commission_per_share - price)

/-- The cash part of `_commission_quantity_limit`. -/
def cash_cap (price : ℚ) (side : Side) (limit : PyFloat) : PyFloat :=
  match side with
  | .buy => PyFloat.py_min limit (.fin (max 0 s.cash / (price + cfg.commission_per_share)))
  | .sell =>
      if price < cfg.commission_per_share then
        PyFloat.py_min limit (.fin (max 0 s.cash / (cfg.commission_per_share - price)))
      else limit

theorem cash_cap_fin (price : ℚ) (side : Side) (margin : ℚ) :
    ∃ limit, cash_cap cfg s price side (.fin margin) = .fin limit ∧
      ∀ n : ℚ, n ≤ limit ↔ n ≤ margin ∧ CashCovers cfg s price side n := by
  cases side with
  | buy =>
    refine ⟨_, PyFloat.py_min_fin _ _, fun n => ?_⟩
    rw [le_min_iff]
    rfl
  | sell =>
    unfold cash_cap CashCovers
    by_cases hcash : price < cfg.commission_per_share
    · simp only [if_pos hcash]
      refine ⟨_, PyFloat.py_min_fin _ _, fun n => ?_⟩
      rw [le_min_iff]
      exact and_congr_right (fun _ => ⟨fun h _ => h, fun h => h hcash⟩)
    · simp only [if_neg hcash]
      exact ⟨margin, rfl, fun n => ⟨fun h => ⟨h, fun h' => absurd h' hcash⟩, And.left⟩⟩

/-- At a positive price there is a limit: the margin part, capped by cash. -/
theorem commission_quantity_limit_cap {price : ℚ} (hprice : 0 < price)
    (hlf : 0 ≤ cfg.leverage * cfg.commission_per_share) (side : Side) (equity current : ℚ) :
    commission_quantity_limit cfg s price side (.fin equity) current =
      some (PyFloat.py_max (.fin 0) (cash_cap cfg s price side
        (.fin (margin_limit cfg.leverage cfg.commission_per_share price
          (buying_power cfg s equity) (closing_quantity side current))))) := by
  have hne : ¬ price + cfg.leverage * cfg.commission_per_share = 0 := by linarith
  have hbp : calculate_buying_power cfg s (.fin equity) = .fin (buying_power cfg s equity) := by
    simp [calculate_buying_power, buying_power]
  have hdef : commission_quantity_limit cfg s price side (.fin equity) current =
      (if 0 < cfg.leverage * cfg.commission_per_share - price ∧
          calculate_buying_power cfg s (.fin equity) <
            .fin (closing_quantity side current *
              (cfg.leverage * cfg.commission_per_share - price)) then
          some ((calculate_buying_power cfg s (.fin equity)).div_rat
            (cfg.leverage * cfg.commission_per_share - price))
        else if price + cfg.leverage * cfg.commission_per_share = 0 then none
        else some ((calculate_buying_power cfg s (.fin equity) +
          .fin (2 * closing_quantity side current * price)).div_rat
            (price + cfg.leverage * cfg.commission_per_share))).map
        (fun limit => PyFloat.py_max (.fin 0) (cash_cap cfg s price side limit)) := rfl
  -- the two branches of the margin part, as one number
  rw [hdef, hbp]
  unfold margin_limit
  simp only [PyFloat.fin_lt, PyFloat.div_rat_fin, PyFloat.fin_add, if_neg hne]
  split <;> rfl

/-- `_commission_quantity_limit` at a positive price. -/
def share_limit (price : ℚ) (side : Side) (equity current : ℚ) : ℚ :=
  ((commission_quantity_limit cfg s price side (.fin equity) current).getD (.fin 0)).val

/-- At a positive price the limit is a number, and an order is within it
    exactly when margin and cash allow it. -/
theorem le_share_limit_iff {price : ℚ} (hprice : 0 < price) (hlev : 0 ≤ cfg.leverage)
    (side : Side) (equity current : ℚ) :
    commission_quantity_limit cfg s price side (.fin equity) current =
      some (.fin (share_limit cfg s price side equity current)) ∧
    ∀ n : ℚ, 0 < n → (n ≤ share_limit cfg s price side equity current ↔
      n ≤ margin_limit cfg.leverage cfg.commission_per_share price (buying_power cfg s equity)
        (closing_quantity side current) ∧ CashCovers cfg s price side n) := by
  have hlf : 0 ≤ cfg.leverage * cfg.commission_per_share :=
    mul_nonneg hlev cfg.commission_nonneg
  have hmargin := commission_quantity_limit_cap cfg s hprice hlf side equity current
  obtain ⟨limit, hcap, hiff⟩ := cash_cap_fin cfg s price side
    (margin_limit cfg.leverage cfg.commission_per_share price
      (buying_power cfg s equity) (closing_quantity side current))
  rw [hcap, PyFloat.py_max_fin] at hmargin
  have hshare : share_limit cfg s price side equity current = max 0 limit := by
    unfold share_limit
    rw [hmargin]
    rfl
  rw [hshare]
  refine ⟨hmargin, fun n hn => ?_⟩
  rw [← hiff n, le_max_iff]
  exact ⟨fun h => h.resolve_left (not_le.mpr hn), Or.inr⟩

end Limit

/-! ### What a fill does to the account -/

section Fill

variable (cfg : Config) (s : Executor)

/-- A sum over the universe, when the amount of one ticker changes. -/
theorem sum_set_amount_count (tickers : List Ticker) (t : Ticker) (g : Ticker → ℚ → ℚ)
    (f : Ticker → ℚ) (x : ℚ) :
    (tickers.map (fun u => g u (set_amount f t x u))).sum =
      (tickers.map (fun u => g u (f u))).sum + tickers.count t * (g t x - g t (f t)) := by
  have hpoint : (fun u => g u (set_amount f t x u)) =
      fun u => g u (f u) + if u = t then g t x - g t (f t) else 0 := by
    funext u
    by_cases hu : u = t
    · subst hu
      simp
    · simp [hu]
  rw [hpoint, List.sum_map_add,
    List.sum_map_ite_eq tickers (fun _ => g t x - g t (f t)) (fun _ => 0)]
  simp

/-- The same for a ticker listed once. -/
theorem sum_set_amount {tickers : List Ticker} {t : Ticker} (hcount : tickers.count t = 1)
    (g : Ticker → ℚ → ℚ) (f : Ticker → ℚ) (x : ℚ) :
    (tickers.map (fun u => g u (set_amount f t x u))).sum =
      (tickers.map (fun u => g u (f u))).sum - g t (f t) + g t x := by
  rw [sum_set_amount_count, hcount]
  ring

variable {t : Ticker} (hcount : cfg.tickers.count t = 1) (side : Side) (n : ℚ)
  (conf : PyFloat) (id : String) (ts : Option Moment)

include hcount

/-- At the mark, a fill costs its commission and nothing else. -/
theorem equity_after_fill :
    get_port_notional cfg (settle cfg s t side n (s.latest_prices t) conf id ts) =
      get_port_notional cfg s - n * cfg.commission_per_share := by
  unfold get_port_notional settle
  simp only
  rw [sum_set_amount hcount (fun u q => q * s.latest_prices u)]
  ring

theorem gross_after_fill (hn : 0 < n) (hprice : 0 ≤ s.latest_prices t) :
    gross_position_value cfg (settle cfg s t side n (s.latest_prices t) conf id ts) =
      gross_position_value cfg s +
        s.latest_prices t * exposure_change (closing_quantity side (s.positions t)) n := by
  unfold gross_position_value settle
  simp only
  rw [sum_set_amount hcount (fun u q => |q * s.latest_prices u|), abs_mul, abs_mul,
    abs_after_fill side (s.positions t) n hn, abs_of_nonneg hprice]
  ring

/-- Gross exposure is within `leverage` times the equity. -/
def WithinMargin : Prop := gross_position_value cfg s ≤ cfg.leverage * get_port_notional cfg s

omit hcount in
theorem buying_power_eq (h : WithinMargin cfg s) :
    buying_power cfg s (get_port_notional cfg s) =
      cfg.leverage * get_port_notional cfg s - gross_position_value cfg s := by
  unfold buying_power
  unfold WithinMargin at h
  rw [max_eq_right (by linarith)]
  ring

/-- **A fill keeps the margin** exactly when its quantity is within the limit
    at the equity of the moment. -/
theorem within_margin_after_fill (hlev : 0 ≤ cfg.leverage) (hprice : 0 < s.latest_prices t)
    (hn : 0 < n) (hcash : CashCovers cfg s (s.latest_prices t) side n)
    (h : WithinMargin cfg s) :
    WithinMargin cfg (settle cfg s t side n (s.latest_prices t) conf id ts) ↔
      n ≤ share_limit cfg s (s.latest_prices t) side (get_port_notional cfg s)
        (s.positions t) := by
  have hbp : 0 ≤ buying_power cfg s (get_port_notional cfg s) := le_max_left _ _
  rw [(le_share_limit_iff cfg s hprice hlev side _ _).2 n hn,
    margin_limit_iff hprice hlev cfg.commission_nonneg hbp hn, buying_power_eq cfg s h]
  unfold WithinMargin
  rw [gross_after_fill cfg s hcount side n conf id ts hn (le_of_lt hprice),
    equity_after_fill cfg s hcount side n conf id ts]
  constructor
  · intro hle
    exact ⟨by linarith, hcash⟩
  · intro hle
    linarith [hle.1]

end Fill

/-! ### What an explicit order asks for -/

section Explicit

variable (cfg : Config) (s : Executor)

/-- The notional an explicit target ends at, past the sentiment gate. -/
def target_notional (t : Ticker) (w value price : ℚ) : ℚ :=
  (apply_sentiment_gate cfg s t (.fin (value * w)) (.fin (s.positions t * price))).val

/-- The side that leads there. -/
def order_side (t : Ticker) (w value price : ℚ) : Side :=
  if s.positions t * price < target_notional cfg s t w value price then .buy else .sell

/-- The shares that lead there, before any limit. -/
def wanted_quantity (t : Ticker) (w value price confidence : ℚ) : ℚ :=
  |target_notional cfg s t w value price / price - s.positions t| * confidence

theorem apply_sentiment_gate_fin (t : Ticker) (w value price : ℚ) :
    apply_sentiment_gate cfg s t (.fin value * .fin w) (.fin (s.positions t) * .fin price) =
      .fin (target_notional cfg s t w value price) := by
  unfold target_notional apply_sentiment_gate
  simp only [PyFloat.fin_mul, PyFloat.py_max_fin]
  cases cfg.sentiment_gate with
  | none => rfl
  | some gate =>
    cases s.current_time with
    | none => rfl
    | some now =>
      simp only
      by_cases hle : PyFloat.fin (value * w) ≤ .fin (max (s.positions t * price) 0)
      · simp only [if_pos hle, PyFloat.val_fin]
      · cases gate.blocks_long_entry t now <;> simp only [if_neg hle] <;> rfl

/-- The numbers of an explicit request, once converted. -/
theorem convert_explicit {r : SizeRequest} {x : SizeInputs} {w value price : ℚ}
    (hw : r.target_weight = some (some (.fin w))) (hvalue : r.port_notional = some (.fin value))
    (hprice : r.arrival_price = some (.fin price)) (h : r.convert = some x) :
    x.arrival_price = .fin price ∧ x.port_notional = .fin value ∧ x.target_weight = some w ∧
      x.confidence = clamp_confidence (r.confidence.getD (.fin 0)) := by
  unfold SizeRequest.convert at h
  rw [hw, hvalue, hprice] at h
  cases hconf : r.confidence with
  | none => simp [hconf] at h
  | some confidence =>
    cases hweight : r.ticker_weight with
    | none => simp [hconf, hweight] at h
    | some ticker_weight =>
      simp only [hconf, hweight, Option.bind_eq_bind, Option.bind_some, PyFloat.is_finite_fin] at h
      by_cases hfin : confidence.is_finite = true
      · simp only [hfin, and_self, if_pos, Option.some.injEq] at h
        subst h
        exact ⟨rfl, rfl, rfl, rfl⟩
      · simp [hfin] at h

/-- **An explicit order**, without trading costs, fills the whole shares it
    wants as far as `_commission_quantity_limit` goes, at the arrival price. -/
theorem execute_explicit {r : TradeRequest} {w value price : ℚ} (hslip : cfg.slippage = 0)
    (hcost : cfg.cost_model = none) (hlev : 0 ≤ cfg.leverage)
    (hw : r.target_weight = some (some (.fin w))) (hvalue : r.port_notional = some (.fin value))
    (harrival : r.arrival_price = some (.fin price)) (hprice : 0 < price) :
    let side := order_side cfg s r.ticker w value price
    (execute_trade cfg s r).2 = s ∨
    (∃ n : ℤ, ∃ conf, 0 < n ∧
      n = ⌊min (wanted_quantity cfg s r.ticker w value price
          (clamp_confidence (r.confidence.getD (.fin 0))))
        (share_limit cfg s price side value (s.positions r.ticker))⌋ ∧
      (execute_trade cfg s r).2 =
        settle cfg s r.ticker side n price conf r.portfolio_id r.timestamp) := by
  intro side
  rcases execute_trade_cases cfg s r with hsame | ⟨z, side', conf, hz, hpos, hside', heq⟩
  · exact Or.inl hsame
  refine Or.inr ?_
  have hskip : ∀ z' : Sizing, z'.quantity = 0 → some z' ≠ some z := by
    intro z' hzero hz'
    obtain rfl := Option.some.inj hz'
    omega
  unfold default_trade_size at hz
  cases hconv : r.toSizeRequest.convert with
  | none =>
    rw [hconv] at hz
    exact absurd hz (hskip .skip rfl)
  | some x =>
    obtain ⟨harr, hport, htarget, hconf⟩ := convert_explicit hw hvalue harrival hconv
    simp only [hconv] at hz
    by_cases hnone : r.signal_type = .invalid ∨ r.signal_type = .hold ∨ x.confidence = 0
    · rw [if_pos hnone] at hz
      exact absurd hz (hskip .skip rfl)
    · -- the price the order is sized at is the arrival price
      have hslippage : ∀ side notional,
          apply_slippage cfg (.fin price) side r.ticker notional = .fin price := by
        intro side notional
        unfold apply_slippage
        rw [hcost, hslip]
        cases side <;> simp
      simp only [if_neg hnone, sizing_weight, htarget, wanted_notional, harr, hport,
        apply_sentiment_gate_fin, hslippage, if_neg (not_le.mpr hprice)] at hz
      have hs : (if PyFloat.fin (s.positions r.ticker) * .fin price <
          .fin (target_notional cfg s r.ticker w value price) then Side.buy else Side.sell) =
          side := by
        simp only [side, order_side, PyFloat.fin_mul, PyFloat.fin_lt]
      rw [hs] at hz
      unfold size_at at hz
      simp only [htarget] at hz
      split at hz
      · exact absurd hz (hskip _ rfl)
      rename_i hdirection
      split at hz
      · exact absurd hz (hskip _ rfl)
      obtain ⟨n, hn, rfl⟩ := Option.map_eq_some_iff.mp hz
      -- the settled side is the side the order was sized on
      have hsame : side' = side := by
        rw [hside']
        simp only [ne_eq, not_not, decide_eq_decide] at hdirection
        by_cases hbuy : side = .buy
        · rw [if_pos (hdirection.mpr hbuy), hbuy]
        · rw [if_neg (fun h => hbuy (hdirection.mp h))]
          cases hside : side with
          | buy => exact absurd hside hbuy
          | sell => rfl
      unfold explicit_quantity at hn
      rw [hport, (le_share_limit_iff cfg s hprice hlev side value (s.positions r.ticker)).1] at hn
      simp only [PyFloat.div_rat_fin, PyFloat.fin_sub, PyFloat.abs_fin, PyFloat.fin_mul,
        PyFloat.py_min_fin, PyFloat.floor_fin, Option.bind_eq_bind, Option.bind_some,
        Option.some.injEq] at hn
      have hpos' : 0 < n := hpos
      refine ⟨n, conf, hpos', ?_, ?_⟩
      · rw [hconf] at hn
        unfold wanted_quantity
        omega
      · rw [heq, hsame]
        rfl

end Explicit

/-! ### The orders of one call -/

section Orders

variable (cfg : Config) (ctx : StrategyContext) (value : ℚ)

/-- The side of an order that aims at weight `w` of `value`. -/
def Order.side (s : Executor) (order : Order) (w : ℚ) : Side :=
  order_side cfg s order.ticker w value (s.latest_prices order.ticker)

/-- The shares it wants. -/
def Order.wanted (s : Executor) (order : Order) (w : ℚ) : ℚ :=
  wanted_quantity cfg s order.ticker w value (s.latest_prices order.ticker)
    (clamp_confidence (order.confidence.getD (.fin 0)))

/-- The shares `_commission_quantity_limit` allows it at an equity. -/
def Order.allowed (s : Executor) (order : Order) (w equity : ℚ) : ℚ :=
  share_limit cfg s (s.latest_prices order.ticker) (order.side cfg value s w) equity
    (s.positions order.ticker)

/-- An order that settles something. -/
def Fills (s : Executor) (order : Order) : Prop :=
  (issue cfg ctx s order).2.trade_log ≠ s.trade_log

/-- The commissions paid since `value` was taken do not matter to an order:
    the limit at the equity of the moment still covers the whole shares it
    wants, or the whole shares it is allowed at `value`. -/
def Covered (s : Executor) (order : Order) : Prop :=
  ∀ w, order.aim ctx s = some w →
    (⌊order.wanted cfg value s w⌋ : ℚ) ≤
        order.allowed cfg value s w (get_port_notional cfg s) ∨
      (⌊order.allowed cfg value s w value⌋ : ℚ) ≤
        order.allowed cfg value s w (get_port_notional cfg s)

/-- The setting of a call: no trading costs besides the commission, a
    leverage of at least 1, a universe that lists every ticker once, and
    orders priced at positive marks. -/
structure PricedAtMarks (s : Executor) : Prop where
  slippage : cfg.slippage = 0
  cost_model : cfg.cost_model = none
  leverage : 1 ≤ cfg.leverage
  nodup : cfg.tickers.Nodup
  marks : ∀ t asset, ctx.market t = some asset → ¬ asset.Close ≤ .fin 0 →
    t ∈ cfg.tickers ∧ 0 < s.latest_prices t ∧ asset.Close = .fin (s.latest_prices t)

variable {cfg ctx value}

/-- An explicit order of the call settles nothing, or fills at the mark what
    is both wanted and allowed. -/
theorem explicit_order_cases {s : Executor} (h : PricedAtMarks cfg ctx s)
    (hvalue : ctx.total_value = .fin value) {order : Order} (hexp : order.explicit) :
    (issue cfg ctx s order).2 = s ∨
    (∃ w, ∃ n : ℤ, ∃ conf id ts, order.aim ctx s = some w ∧ 0 < n ∧
      cfg.tickers.count order.ticker = 1 ∧ 0 < s.latest_prices order.ticker ∧
      n = ⌊min (order.wanted cfg value s w) (order.allowed cfg value s w value)⌋ ∧
      (issue cfg ctx s order).2 =
        settle cfg s order.ticker (order.side cfg value s w) n
          (s.latest_prices order.ticker) conf id ts) := by
  rcases issue_cases cfg ctx s order with
    hsame | ⟨asset, r, hasset, hclose, heq, ht, harr, hport, hconf, _, hexplicit⟩
  · exact Or.inl hsame
  obtain ⟨hmem, hpos, hmark⟩ := h.marks _ _ hasset hclose
  obtain ⟨w, haim, hw⟩ := hexplicit hexp
  have hlev : 0 ≤ cfg.leverage := le_trans zero_le_one h.leverage
  rw [hmark] at harr
  rw [hvalue] at hport
  rcases execute_explicit cfg s h.slippage h.cost_model hlev hw hport harr hpos with
    hsame | ⟨n, conf, hn, hsize, hfill⟩
  · exact Or.inl (by rw [heq, hsame])
  · rw [ht, hconf] at hsize
    rw [ht] at hfill
    exact Or.inr ⟨w, n, conf, r.portfolio_id, r.timestamp, haim, hn,
      List.count_eq_one_of_mem h.nodup hmem, hpos, hsize, by rw [heq, hfill]; rfl⟩

/-- The marks of a call do not move. -/
theorem PricedAtMarks.issue {s : Executor} (h : PricedAtMarks cfg ctx s)
    (hvalue : ctx.total_value = .fin value) {order : Order} (hexp : order.explicit) :
    PricedAtMarks cfg ctx (issue cfg ctx s order).2 := by
  rcases explicit_order_cases h hvalue hexp with
    hsame | ⟨w, n, conf, id, ts, _, _, _, _, _, heq⟩
  · rw [hsame]
    exact h
  · rw [heq]
    exact ⟨h.slippage, h.cost_model, h.leverage, h.nodup, h.marks⟩

/-- **One order** from within the margin stays within it exactly when it
    settles nothing or is covered. -/
theorem within_margin_issue {s : Executor} (h : PricedAtMarks cfg ctx s)
    (hvalue : ctx.total_value = .fin value) {order : Order} (hexp : order.explicit)
    (hmargin : WithinMargin cfg s) :
    WithinMargin cfg (issue cfg ctx s order).2 ↔
      (Fills cfg ctx s order → Covered cfg ctx value s order) := by
  rcases explicit_order_cases h hvalue hexp with
    hsame | ⟨w, n, conf, id, ts, haim, hn, hcount, hpos, hsize, heq⟩
  · unfold Fills
    rw [hsame]
    exact ⟨fun _ hne => absurd rfl hne, fun _ => hmargin⟩
  · have hlev : 0 ≤ cfg.leverage := le_trans zero_le_one h.leverage
    have hn' : (0 : ℚ) < n := by exact_mod_cast hn
    have hfills : Fills cfg ctx s order := by
      unfold Fills
      rw [heq]
      simp [settle]
    -- the sized quantity is within the limit at `value`, so cash covers it
    have hle : (n : ℚ) ≤ order.allowed cfg value s w value := by
      rw [hsize]
      exact le_trans (Int.floor_le _) (min_le_right _ _)
    have hcash := (((le_share_limit_iff cfg s hpos hlev _ value _).2 n hn').mp hle).2
    have hmin : n = min ⌊order.wanted cfg value s w⌋ ⌊order.allowed cfg value s w value⌋ := by
      rw [hsize]
      exact Int.floor_mono.map_min
    rw [heq, within_margin_after_fill cfg s hcount _ n conf id ts hlev hpos hn' hcash hmargin]
    constructor
    · intro hlimit _ w' hw'
      obtain rfl : w = w' := Option.some.inj (haim.symm.trans hw')
      rcases min_choice ⌊order.wanted cfg value s w⌋ ⌊order.allowed cfg value s w value⌋ with
        hwanted | hallowed
      · left
        rw [← hwanted, ← hmin]
        exact hlimit
      · right
        rw [← hallowed, ← hmin]
        exact hlimit
    · intro hcovered
      rcases hcovered hfills w haim with hwanted | hallowed
      · refine le_trans ?_ hwanted
        rw [hmin]
        exact_mod_cast min_le_left _ _
      · refine le_trans ?_ hallowed
        rw [hmin]
        exact_mod_cast min_le_right _ _

/-- Without a commission the equity of a call does not move. -/
theorem equity_issue {s : Executor} (h : PricedAtMarks cfg ctx s)
    (hvalue : ctx.total_value = .fin value) {order : Order} (hexp : order.explicit)
    (hfree : cfg.commission_per_share = 0) :
    get_port_notional cfg (issue cfg ctx s order).2 = get_port_notional cfg s := by
  rcases explicit_order_cases h hvalue hexp with
    hsame | ⟨w, n, conf, id, ts, _, _, hcount, _, _, heq⟩
  · rw [hsame]
  · rw [heq, equity_after_fill cfg s hcount, hfree]
    ring

/-- At an equity that is still `value` every order is covered. -/
theorem covered_of_equity {s : Executor} {order : Order}
    (h : get_port_notional cfg s = value) : Covered cfg ctx value s order := by
  intro w _
  right
  rw [h]
  exact Int.floor_le _

/-- The marks stand after any orders of the call; without a commission so
    does the equity, and as long as nothing was settled so does everything. -/
theorem issue_all_facts {s : Executor} (h : PricedAtMarks cfg ctx s)
    (hvalue : ctx.total_value = .fin value) (orders : List Order)
    (hexp : ∀ order ∈ orders, order.explicit) :
    PricedAtMarks cfg ctx (issue_all cfg ctx s orders) ∧
    (cfg.commission_per_share = 0 →
      get_port_notional cfg (issue_all cfg ctx s orders) = get_port_notional cfg s) ∧
    s.trade_log.length ≤ (issue_all cfg ctx s orders).trade_log.length ∧
    ((issue_all cfg ctx s orders).trade_log.length = s.trade_log.length →
      issue_all cfg ctx s orders = s) := by
  induction orders using List.reverseRecOn with
  | nil => exact ⟨h, fun _ => rfl, le_refl _, fun _ => rfl⟩
  | append_singleton orders order ih =>
    -- by induction on the orders, the log telling which of them filled
    obtain ⟨hmarks, hequity, hlen, hsame⟩ :=
      ih (fun o ho => hexp o (List.mem_append_left _ ho))
    have ho : order.explicit := hexp order (by simp)
    rw [issue_all_snoc]
    refine ⟨hmarks.issue hvalue ho, fun hfree => ?_, ?_, fun hlog => ?_⟩
    · rw [equity_issue hmarks hvalue ho hfree, hequity hfree]
    · rcases explicit_order_cases hmarks hvalue ho with
        hnone | ⟨w, n, conf, id, ts, _, _, _, _, _, heq⟩
      · rw [hnone]
        exact hlen
      · rw [heq]
        simp only [settle, List.length_append, List.length_singleton]
        omega
    · rcases explicit_order_cases hmarks hvalue ho with
        hnone | ⟨w, n, conf, id, ts, _, _, _, _, _, heq⟩
      · rw [hnone] at hlog ⊢
        exact hsame hlog
      · rw [heq] at hlog
        simp only [settle, List.length_append, List.length_singleton] at hlog
        omega

/-- **Margin in one call.** From within the margin, and sized with the
    portfolio value of the poll start, a sequence of explicit orders stays
    within the margin after every order exactly when every order that fills
    is covered at that moment. All of them are when there is no commission,
    and so is an order before which nothing was filled in the call. -/
theorem margin_with_commissions (cfg : Config) (ctx : StrategyContext) (s : Executor)
    (orders : List Order) (h : PricedAtMarks cfg ctx s)
    (hvalue : ctx.total_value = .fin (get_port_notional cfg s))
    (hexp : ∀ order ∈ orders, order.explicit) (hmargin : WithinMargin cfg s) :
    ((∀ issued, issued <+: orders → WithinMargin cfg (issue_all cfg ctx s issued)) ↔
      (∀ issued order, issued ++ [order] <+: orders →
        Fills cfg ctx (issue_all cfg ctx s issued) order →
        Covered cfg ctx (get_port_notional cfg s) (issue_all cfg ctx s issued) order)) ∧
    (∀ issued order, issued ++ [order] <+: orders →
      (cfg.commission_per_share = 0 ∨ (issue_all cfg ctx s issued).trade_log = s.trade_log) →
      Covered cfg ctx (get_port_notional cfg s) (issue_all cfg ctx s issued) order) := by
  have hissue : ∀ issued order, issued ++ [order] <+: orders →
      (∀ o ∈ issued, o.explicit) ∧ order.explicit := by
    intro issued order hpre
    exact ⟨fun o ho => hexp o (hpre.subset (List.mem_append_left _ ho)),
      hexp order (hpre.subset (by simp))⟩
  refine ⟨⟨fun hall issued order hpre => ?_, fun hcovered issued => ?_⟩, ?_⟩
  · obtain ⟨hissued, ho⟩ := hissue issued order hpre
    obtain ⟨hmarks, _⟩ := issue_all_facts h hvalue issued hissued
    have hbefore := hall issued ((List.prefix_append _ _).trans hpre)
    have hafter := hall _ hpre
    rw [issue_all_snoc] at hafter
    exact (within_margin_issue hmarks hvalue ho hbefore).mp hafter
  · -- induction on the orders already issued
    induction issued using List.reverseRecOn with
    | nil => exact fun _ => hmargin
    | append_singleton issued order ih =>
      intro hpre
      obtain ⟨hissued, ho⟩ := hissue issued order hpre
      obtain ⟨hmarks, _⟩ := issue_all_facts h hvalue issued hissued
      have hbefore := ih ((List.prefix_append _ _).trans hpre)
      rw [issue_all_snoc]
      exact (within_margin_issue hmarks hvalue ho hbefore).mpr (hcovered issued order hpre)
  · intro issued order hpre hquiet
    obtain ⟨hissued, _⟩ := hissue issued order hpre
    obtain ⟨_, hequity, _, hsame⟩ := issue_all_facts h hvalue issued hissued
    apply covered_of_equity
    rcases hquiet with hfree | hlog
    · exact hequity hfree
    · rw [hsame (by rw [hlog])]

end Orders

/-! ### A second short at the value of the poll start -/

def tick_b : Ticker := ⟨"MSFT", msft_nonempty⟩

/-- Two tickers at 10, leverage 2 and a commission of 1 a share. -/
def two_shorts_config (commission : ℚ) (h : 0 ≤ commission) : Config where
  initial_capital := 1000
  tickers := [tick_a, tick_b]
  leverage := 2
  slippage := 0
  cost_model := none
  adv_lookup := fun _ => 0
  sigma_lookup := fun _ => 0
  commission_per_share := commission
  commission_nonneg := h
  sentiment_gate := none

def two_shorts_state : Executor where
  cash := 1000
  positions := fun _ => 0
  latest_prices := fun t => if t = tick_a ∨ t = tick_b then 10 else 0
  trade_log := []
  current_time := none

def two_shorts_context : StrategyContext where
  portfolio_id := "p"
  tickers := [tick_a, tick_b]
  weights := .absent
  market := fun t =>
    if t = tick_a ∨ t = tick_b then
      some { Open := .nan, High := .nan, Low := .nan, Close := .fin 10, Volume := .nan,
             Timestamp := 0 }
    else none
  total_value := .fin 1000
  time := { wall := 0, utcoffset := none }
  has_order_manager := false

def two_shorts : List Order :=
  [.target_weight tick_a (some (.fin (-3))) (some (.fin 1)),
    .target_weight tick_b (some (.fin (-3))) (some (.fin 1))]

theorem two_shorts_priced (commission : ℚ) (h : 0 ≤ commission) :
    PricedAtMarks (two_shorts_config commission h) two_shorts_context two_shorts_state := by
  refine ⟨rfl, rfl, by norm_num [two_shorts_config],
    by simp [two_shorts_config, tick_a, tick_b], fun t asset hasset _ => ?_⟩
  by_cases ht : t = tick_a ∨ t = tick_b
  · simp only [two_shorts_context, if_pos ht, Option.some.injEq] at hasset
    subst hasset
    refine ⟨by simpa [two_shorts_config] using ht, ?_, ?_⟩
    · simp [two_shorts_state, ht]
    · simp [two_shorts_state, ht]
  · simp [two_shorts_context, ht] at hasset

theorem two_shorts_explicit : ∀ order ∈ two_shorts, order.explicit := by
  simp [two_shorts, Order.explicit]

/-- The first short pays 166 in commissions, and the second one is sized as
    if they were still there: 1940 of exposure on 806 of equity. -/
theorem second_short_over_margin :
    PricedAtMarks (two_shorts_config 1 zero_le_one) two_shorts_context two_shorts_state ∧
    two_shorts_context.total_value =
      .fin (get_port_notional (two_shorts_config 1 zero_le_one) two_shorts_state) ∧
    (∀ order ∈ two_shorts, order.explicit) ∧
    WithinMargin (two_shorts_config 1 zero_le_one) two_shorts_state ∧
    ¬ WithinMargin (two_shorts_config 1 zero_le_one)
      (issue_all (two_shorts_config 1 zero_le_one) two_shorts_context two_shorts_state
        two_shorts) := by
  refine ⟨two_shorts_priced 1 zero_le_one, by decide +kernel, two_shorts_explicit, ?_, ?_⟩
  · unfold WithinMargin
    decide +kernel
  · unfold WithinMargin
    decide +kernel

/-- The first short alone is as large as the margin allows. -/
theorem first_short_within_margin :
    (issue_all (two_shorts_config 1 zero_le_one) two_shorts_context two_shorts_state
      (two_shorts.take 1)).trade_log.length = 1 ∧
    WithinMargin (two_shorts_config 1 zero_le_one)
      (issue_all (two_shorts_config 1 zero_le_one) two_shorts_context two_shorts_state
        (two_shorts.take 1)) := by
  have hvalue : two_shorts_context.total_value =
      .fin (get_port_notional (two_shorts_config 1 zero_le_one) two_shorts_state) := by
    decide +kernel
  have hmargin : WithinMargin (two_shorts_config 1 zero_le_one) two_shorts_state := by
    unfold WithinMargin
    decide +kernel
  obtain ⟨hiff, hquiet⟩ := margin_with_commissions (two_shorts_config 1 zero_le_one)
    two_shorts_context two_shorts_state (two_shorts.take 1) (two_shorts_priced 1 zero_le_one)
    hvalue (fun o ho => two_shorts_explicit o (List.mem_of_mem_take ho)) hmargin
  refine ⟨by decide +kernel, hiff.mpr (fun issued order hpre _ => ?_) _ (List.prefix_refl _)⟩
  have hnil : issued = [] := by
    have hlen := hpre.length_le
    simp only [two_shorts, List.length_append, List.length_singleton, List.take_succ_cons,
      List.take_zero] at hlen
    exact List.length_eq_zero_iff.mp (by omega)
  subst hnil
  exact hquiet [] order hpre (Or.inr rfl)

end Engine
