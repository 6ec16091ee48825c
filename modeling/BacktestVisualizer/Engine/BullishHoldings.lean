import BacktestVisualizer.Engine.FillPrice
import BacktestVisualizer.Engine.Reissue
import BacktestVisualizer.Engine.VolMomentum

/-! # Bullish Holdings of the Volatility-Momentum Strategy

  A ticker is bought to its allocation and judged over weight by another
  number. `bullish_never_churned` is what keeps a bullish holding from being
  sold off and bought back: a weight that is positive and within the second
  number, and, when it was bought at the same prices just before, less than a
  share above what its allocation is worth. `one_ticker_churns` is a run in
  which the first of these fails.
-/

namespace Engine

/-! ### An order at full confidence -/

section Full

variable {cfg : Config} {s : Executor}

/-- The price an explicit order is filled at is the one for the notional it
    moves. -/
theorem explicit_priced {r : SizeRequest} {x : SizeInputs} {weight : PyFloat} {w : ℚ} {z : Sizing}
    (hconv : r.convert = some x) (htarget : x.target_weight = some w)
    (hweight : sizing_weight cfg x = some weight) (hz : default_trade_size cfg s r = some z)
    (hq : 0 < z.quantity) :
    apply_slippage cfg x.arrival_price (sizing_side cfg s r x weight) r.ticker
      ((gated_notional cfg s r x weight - current_notional s r x).abs * .fin x.confidence) =
        z.exec_price := by
  -- whatever is skipped has no quantity
  have hskip : ∀ z' : Sizing, z'.quantity = 0 → some z' ≠ some z := by
    intro z' hzero hz'
    obtain rfl := Option.some.inj hz'
    omega
  unfold default_trade_size at hz
  simp only [hconv, hweight, htarget] at hz
  split at hz
  · exact absurd hz (hskip _ rfl)
  split at hz
  · rename_i p hslip
    split at hz
    · exact absurd hz (hskip _ rfl)
    · rw [size_at_exec_price cfg s x hz]
      exact hslip
  · exact absurd hz (hskip _ rfl)

/-- `n` shares at `p`, on the way to an explicit target. -/
structure ExplicitFill (cfg : Config) (s : Executor) (t : Ticker) (w value price p : ℚ) (n : ℤ) :
    Prop where
  priced : apply_slippage cfg (.fin price) (order_side cfg s t w value price) t
    (.fin |target_notional cfg s t w value price - s.positions t * price|) = .fin p
  price_pos : 0 < p
  quantity_pos : 0 < n
  bought : order_side cfg s t w value price = .buy →
    s.positions t + n ≤ target_notional cfg s t w value price / p
  sold : order_side cfg s t w value price = .sell →
    target_notional cfg s t w value price / p ≤ s.positions t - n

theorem execute_trade_full (cfg : Config) (s : Executor) {r : TradeRequest} {target : Numeric}
    (htarget : r.target_weight = some target) (hconf : r.confidence = some (.fin 1)) :
    (execute_trade cfg s r).2 = s ∨
    ∃ w value price p n conf, target = some (.fin w) ∧ r.port_notional = some (.fin value) ∧
      r.arrival_price = some (.fin price) ∧ ExplicitFill cfg s r.ticker w value price p n ∧
      (execute_trade cfg s r).2 = settle cfg s r.ticker (order_side cfg s r.ticker w value price)
        n p conf r.portfolio_id r.timestamp := by
  cases hz : default_trade_size cfg s r.toSizeRequest with
  | none =>
    left
    simp [execute_trade, hz]
  | some z =>
    by_cases hq : z.quantity ≤ 0
    · left
      simp [execute_trade, hz, hq]
    · have hpos := not_le.mp hq
      obtain ⟨x, weight, p, conf, hfill, hp, heq⟩ := execute_trade_of_size cfg s hz hpos
      obtain ⟨w, value, price, hw, hvalue, hprice, hgated, hside⟩ := hfill.explicit htarget
      obtain ⟨harr, hport, _, c, hc, hxc, hexplicit⟩ := convert_cases hfill.converted
      have hone : x.confidence = 1 := by
        obtain rfl : PyFloat.fin 1 = c := Option.some.inj (hconf.symm.trans hc)
        rw [hxc, clamp_confidence_fin, min_self, max_eq_right zero_le_one]
      have hxprice : x.arrival_price = .fin price := Option.some.inj (harr.symm.trans hprice)
      have hxtarget : x.target_weight = some w := by
        rcases hexplicit with ⟨hnone, _⟩ | ⟨w', _, _, hw', hx, _⟩
        · rw [htarget] at hnone
          exact absurd hnone (by simp)
        · rw [htarget, hw] at hw'
          obtain rfl : w = w' := by simpa using hw'
          exact hx
      have hslip := explicit_priced hfill.converted hxtarget hfill.weight_eq hz hpos
      rw [hgated, hside, hone, hp, current_notional, hxprice] at hslip
      simp only [PyFloat.fin_mul, PyFloat.fin_sub, PyFloat.abs_fin, mul_one] at hslip
      obtain ⟨hbought, hsold⟩ := hfill.toward hgated
      rw [hside] at hbought hsold heq
      right
      refine ⟨w, value, price, p, z.quantity, conf, hw, hvalue, hprice, ?_, by rw [heq]⟩
      exact ⟨hslip, hfill.price_pos, hpos, hbought, hsold⟩

/-- **An explicit order at full confidence** settles nothing, or one fill on
    the way to its aim. -/
theorem full_order_cases (cfg : Config) (s : Executor) (ctx : StrategyContext) {order : Order}
    (hexp : order.explicit)
    (hconf : order.confidence = some (.fin 1)) :
    (issue cfg ctx s order).2 = s ∨
    ∃ w value asset price p n conf id ts, order.aim ctx s = some w ∧
      ctx.total_value = .fin value ∧ ctx.market order.ticker = some asset ∧
      asset.Close = .fin price ∧ 0 < price ∧ ExplicitFill cfg s order.ticker w value price p n ∧
      (issue cfg ctx s order).2 = settle cfg s order.ticker
        (order_side cfg s order.ticker w value price) n p conf id ts := by
  rcases issue_cases cfg ctx s order with
    hsame | ⟨asset, r, hasset, hclose, heq, ht, harr, hport, hrconf, _, hexplicit⟩
  · exact Or.inl hsame
  obtain ⟨w, haim, hw⟩ := hexplicit hexp
  rcases execute_trade_full cfg s hw (hrconf.trans hconf) with
    hsame | ⟨w', value, price, p, n, conf, hw', hvalue, hprice, hfill, hsettled⟩
  · exact Or.inl (heq.trans hsame)
  obtain rfl : w = w' := by simpa using hw'
  rw [hprice] at harr
  rw [hvalue] at hport
  rw [ht] at hfill hsettled
  have hcloses : asset.Close = .fin price := (Option.some.inj harr).symm
  rw [hcloses, PyFloat.fin_le] at hclose
  exact Or.inr ⟨w, value, asset, price, p, n, conf, _, _, haim, (Option.some.inj hport).symm,
    hasset, hcloses, not_le.mp hclose, hfill, heq.trans hsettled⟩

/-- A target above nothing stays above nothing past the gate, for a holding. -/
theorem target_notional_pos (cfg : Config) {t : Ticker} {w value price : ℚ}
    (hlong : 0 < s.positions t)
    (hprice : 0 < price) (hwanted : 0 < value * w) :
    0 < target_notional cfg s t w value price := by
  by_cases hshut : GateShut cfg s t
  · rw [target_notional_shut hshut]
    exact lt_min hwanted (lt_max_of_lt_left (mul_pos hlong hprice))
  · rw [target_notional_open hshut]
    exact hwanted

/-- The gate puts no target above nothing that was not. -/
theorem wanted_pos {t : Ticker} {w value price : ℚ}
    (htarget : 0 < target_notional cfg s t w value price) : 0 < value * w := by
  by_cases hshut : GateShut cfg s t
  · rw [target_notional_shut hshut] at htarget
    exact (lt_min_iff.mp htarget).1
  · rwa [target_notional_open hshut] at htarget

end Full

end Engine

namespace VolMomentum

open Engine

variable {volatility : List PyFloat → PyFloat} {cfg : Config} {settings : Settings} {poll : Poll}
  {t u : Ticker} {l : Loop} {s s' : Executor}

/-! ### A turn -/

theorem reading_close {close : PyFloat} {momentum threshold : ℚ}
    (h : reading volatility poll t = .ready close momentum threshold) :
    ∃ asset, poll.context.market t = some asset ∧ asset.Close = close := by
  unfold reading at h
  cases hasset : poll.context.market t with
  | none =>
    rw [hasset] at h
    exact absurd h (by simp)
  | some asset =>
    simp only [hasset] at h
    split at h
    · split at h
      · exact absurd h (by simp)
      · split at h
        · obtain ⟨hclose, _⟩ := Reading.ready.inj h
          exact ⟨asset, rfl, hclose⟩
        · exact absurd h (by simp)
    · exact absurd h (by simp)

theorem choose_buy {risk_off : Bool} {position momentum threshold : ℚ} {fits : Option Bool}
    (h : choose risk_off position momentum threshold fits = .buy) :
    threshold < momentum ∧ risk_off = false := by
  unfold choose at h
  split at h
  · exact absurd h (by simp)
  split at h
  · rename_i hbuy
    exact ⟨hbuy.1, by simpa using hbuy.2.2⟩
  split at h
  · split at h
    · exact absurd h (by simp)
    · split at h
      · exact absurd h (by simp)
      · exact absurd h (by simp)
      · exact absurd h (by simp)
  · exact absurd h (by simp)

theorem choose_sell {risk_off : Bool} {position momentum threshold : ℚ} {fits : Option Bool}
    (h : choose risk_off position momentum threshold fits = .sell) :
    0 < position ∧ (momentum < -threshold ∨ fits = some false) := by
  unfold choose at h
  split at h
  · exact absurd h (by simp)
  split at h
  · exact absurd h (by simp)
  split at h
  · rename_i hheld
    split at h
    · rename_i hbearish
      exact ⟨hheld, .inl hbearish⟩
    · split at h
      · exact absurd h (by simp)
      · exact ⟨hheld, .inr rfl⟩
      · exact absurd h (by simp)
  · exact absurd h (by simp)

/-- What a turn may do: leave the executor alone, buy, or sell. A purchase is
    for a bullish ticker outside of risk-off; a sale is for a holding that is
    bearish or over weight. -/
theorem turn_cases (volatility : List PyFloat → PyFloat) (cfg : Config) (poll : Poll) (l : Loop)
    (t : Ticker) :
    (turn volatility cfg poll l t).executor = l.executor ∨
    ∃ asset momentum threshold, poll.context.market t = some asset ∧
      reading volatility poll t = .ready asset.Close momentum threshold ∧
      (((turn volatility cfg poll l t).executor =
          (issue cfg poll.context l.executor (.buy t (some (.fin 1)))).2 ∧
          threshold < momentum ∧ is_risk_off poll = false) ∨
        ((turn volatility cfg poll l t).executor =
          (issue cfg poll.context l.executor (.sell t (some (.fin 1)))).2 ∧
          0 < poll.positions t ∧
          (momentum < -threshold ∨
            compared (.fin (if threshold < momentum then target_weight else 0))
              (get_asset_weight poll t asset.Close) l.target_weight = some false))) := by
  unfold turn
  split
  · exact Or.inl rfl
  · cases hreading : reading volatility poll t with
    | skipped => exact Or.inl rfl
    | invalid => exact Or.inl rfl
    | ready close momentum threshold =>
      obtain ⟨asset, hasset, rfl⟩ := reading_close hreading
      simp only
      split
      · rename_i hchoice
        obtain ⟨hbullish, hrisk⟩ := choose_buy hchoice
        exact Or.inr ⟨asset, momentum, threshold, hasset, rfl, .inl ⟨rfl, hbullish, hrisk⟩⟩
      · rename_i hchoice
        obtain ⟨hheld, hexit⟩ := choose_sell hchoice
        exact Or.inr ⟨asset, momentum, threshold, hasset, rfl, .inr ⟨rfl, hheld, hexit⟩⟩
      · exact Or.inl rfl
      · exact Or.inl rfl

/-! ### Allocations -/

/-- Only what has an allocation is held. -/
def Allocated (settings : Settings) (s : Executor) : Prop :=
  ∀ t, 0 < s.positions t → ∀ ctx : StrategyContext, ctx.tickers = settings.tickers →
    ctx.weights = settings.weights → ∃ w, allocation_weight ctx t = .ok (.fin w) ∧ 0 < w

/-- A weight that passes its check is finite and not negative. -/
theorem checked_weight_nonneg {x : Numeric} {weight : PyFloat}
    (h : (match x with
      | none => Except.error OrderError.not_a_number
      | some weight =>
          if weight.is_finite ∧ ¬ weight < PyFloat.fin 0 then .ok weight
          else .error .weights_values) = .ok weight) : ∃ w, weight = .fin w ∧ 0 ≤ w := by
  cases x with
  | none => exact absurd h (by simp)
  | some x =>
    simp only at h
    split at h
    · rename_i hfin
      obtain rfl := Except.ok.inj h
      obtain ⟨w, rfl⟩ := PyFloat.is_finite_iff.mp hfin.1
      rw [PyFloat.fin_lt] at hfin
      exact ⟨w, rfl, not_lt.mp hfin.2⟩
    · exact absurd h (by simp)

/-- An allocation is a number, and not below 0. -/
theorem allocation_nonneg {ctx : StrategyContext} {weight : PyFloat}
    (h : allocation_weight ctx t = .ok weight) : ∃ w, weight = .fin w ∧ 0 ≤ w := by
  unfold allocation_weight at h
  simp only at h
  split at h
  · obtain rfl := Except.ok.inj h
    exact ⟨0, rfl, le_refl 0⟩
  · split at h
    · obtain rfl := Except.ok.inj h
      exact ⟨_, rfl, by positivity⟩
    · exact checked_weight_nonneg h
    · split at h
      · exact checked_weight_nonneg h
      · exact absurd h (by simp)
    · exact absurd h (by simp)

theorem allocation_weight_congr {ctx ctx' : StrategyContext} (htickers : ctx.tickers = ctx'.tickers)
    (hweights : ctx.weights = ctx'.weights) (t : Ticker) :
    allocation_weight ctx t = allocation_weight ctx' t := by
  unfold allocation_weight
  rw [htickers, hweights]

/-- What `buy` aims at is an allocation. -/
theorem buy_aim {ctx : StrategyContext} {confidence : Numeric} {w : ℚ}
    (h : (Order.buy t confidence).aim ctx s = some w) :
    allocation_weight ctx t = .ok (.fin w) ∧ 0 ≤ w := by
  unfold Order.aim at h
  cases hweight : allocation_weight ctx t with
  | error e =>
    simp only [hweight] at h
    exact absurd h (by simp)
  | ok weight =>
    obtain ⟨w', rfl, hnonneg⟩ := allocation_nonneg hweight
    simp only [hweight] at h
    obtain rfl := Option.some.inj h
    exact ⟨rfl, hnonneg⟩

/-- **A purchase** settles nothing, or one fill on the way to an allocation. -/
theorem buy_cases (cfg : Config) (s : Executor) (ctx : StrategyContext) (t : Ticker) :
    (issue cfg ctx s (.buy t (some (.fin 1)))).2 = s ∨
    ∃ w value asset price p n conf id ts, allocation_weight ctx t = .ok (.fin w) ∧ 0 ≤ w ∧
      ctx.total_value = .fin value ∧ ctx.market t = some asset ∧ asset.Close = .fin price ∧
      0 < price ∧ ExplicitFill cfg s t w value price p n ∧
      (issue cfg ctx s (.buy t (some (.fin 1)))).2 =
        settle cfg s t (order_side cfg s t w value price) n p conf id ts := by
  have hbuy : (Order.buy t (some (.fin 1))).explicit := trivial
  rcases full_order_cases cfg s ctx hbuy rfl with
    hsame | ⟨w, value, asset, price, p, n, conf, id, ts, haim, hvalue, hasset, hclose, hprice,
      hfill, hsettled⟩
  · exact Or.inl hsame
  · obtain ⟨hweight, hnonneg⟩ := buy_aim haim
    exact Or.inr ⟨w, value, asset, price, p, n, conf, id, ts, hweight, hnonneg, hvalue, hasset,
      hclose, hprice, hfill, hsettled⟩

/-! ### What a turn changes -/

theorem issue_other {ctx : StrategyContext} {order : Order} (hexp : order.explicit)
    (hconf : order.confidence = some (.fin 1)) (hu : u ≠ order.ticker) :
    (issue cfg ctx s order).2.positions u = s.positions u := by
  rcases full_order_cases cfg s ctx hexp hconf with
    hsame | ⟨w, value, asset, price, p, n, conf, id, ts, _, _, _, _, _, _, hsettled⟩
  · rw [hsame]
  · rw [hsettled]
    exact set_amount_ne _ _ hu

theorem turn_other (hu : u ≠ t) :
    (turn volatility cfg poll l t).executor.positions u = l.executor.positions u := by
  rcases turn_cases volatility cfg poll l t with
    hsame | ⟨asset, momentum, threshold, _, _, ⟨hbuy, _⟩ | ⟨hsell, _⟩⟩
  · rw [hsame]
  · rw [hbuy]
    exact issue_other trivial rfl hu
  · rw [hsell]
    exact issue_other trivial rfl hu

theorem sell_le (ctx : StrategyContext) :
    (issue cfg ctx s (.sell t (some (.fin 1)))).2.positions t ≤ s.positions t := by
  obtain ⟨hflat, hlong⟩ := sell_never_shorts cfg s ctx t (some (.fin 1))
  show (sell cfg ctx s t (some (.fin 1))).2.positions t ≤ _
  by_cases hheld : 0 < s.positions t
  · exact (hlong hheld).not_more
  · rw [hflat (not_lt.mp hheld)]

/-- A purchase that opens a holding has an allocation to open it for. -/
theorem opened_allocation {ctx : StrategyContext} (hflat : s.positions t ≤ 0)
    (hopen : 0 < (issue cfg ctx s (.buy t (some (.fin 1)))).2.positions t) :
    ∃ w, allocation_weight ctx t = .ok (.fin w) ∧ 0 < w := by
  rcases buy_cases cfg s ctx t with
    hsame | ⟨w, value, asset, price, p, n, conf, id, ts, hweight, hnonneg, _, _, _, _, hfill,
      hsettled⟩
  · rw [hsame] at hopen
    exact absurd hopen (not_lt.mpr hflat)
  · refine ⟨w, hweight, lt_of_le_of_ne hnonneg ?_⟩
    intro hzero
    have hn : (0 : ℚ) < n := by exact_mod_cast hfill.quantity_pos
    rw [hsettled] at hopen
    -- the fill reaches above nothing, so the target lies there
    have hafter : 0 < s.positions t + (order_side cfg s t w value price).sign * n := by
      rwa [← settle_position cfg s t _ n p conf id ts]
    have htarget : 0 < target_notional cfg s t w value price := by
      cases hside : order_side cfg s t w value price with
      | buy =>
        have hreach := hfill.bought hside
        rw [hside, Side.sign_buy, one_mul] at hafter
        exact (div_pos_iff_of_pos_right hfill.price_pos).mp (lt_of_lt_of_le hafter hreach)
      | sell =>
        rw [hside, Side.sign_sell] at hafter
        linarith
    have hwanted := wanted_pos htarget
    rw [← hzero, mul_zero] at hwanted
    exact absurd hwanted (lt_irrefl 0)

theorem Allocated.turn (h : Allocated settings l.executor)
    (htickers : poll.context.tickers = settings.tickers)
    (hweights : poll.context.weights = settings.weights) :
    Allocated settings (turn volatility cfg poll l t).executor := by
  intro u hheld ctx htickers' hweights'
  by_cases hu : u = t
  · subst hu
    by_cases hbefore : 0 < l.executor.positions u
    · exact h u hbefore ctx htickers' hweights'
    · have hflat := not_lt.mp hbefore
      rcases turn_cases volatility cfg poll l u with
        hsame | ⟨asset, momentum, threshold, _, _, ⟨hbuy, _⟩ | ⟨hsell, _⟩⟩
      · rw [hsame] at hheld
        exact absurd hheld hbefore
      · rw [hbuy] at hheld
        rw [allocation_weight_congr (htickers'.trans htickers.symm)
          (hweights'.trans hweights.symm)]
        exact opened_allocation hflat hheld
      · rw [hsell] at hheld
        exact absurd (lt_of_lt_of_le hheld (sell_le poll.context)) hbefore
  · rw [turn_other hu] at hheld
    exact h u hheld ctx htickers' hweights'

/-- A call does not move a mark. -/
theorem turns_latest_prices (tickers : List Ticker) :
    (tickers.foldl (turn volatility cfg poll) l).executor.latest_prices =
      l.executor.latest_prices := by
  induction tickers generalizing l with
  | nil => rfl
  | cons t rest ih =>
    rw [List.foldl_cons, ih]
    rcases turn_cases volatility cfg poll l t with
      hsame | ⟨asset, momentum, threshold, _, _, ⟨hbuy, _⟩ | ⟨hsell, _⟩⟩
    · rw [hsame]
    · rw [hbuy]
      exact issue_latest_prices cfg poll.context l.executor _
    · rw [hsell]
      exact issue_latest_prices cfg poll.context l.executor _

/-! ### What keeps a bullish ticker -/

/-- A bullish ticker that is held has a weight of at most `TARGET_WEIGHT`, and
    a positive one where more may be bought. If it has to be kept as well, and
    more may be bought, it is less than a share above what its allocation is
    worth at the price it could be sold at. -/
structure Steady (cfg : Config) (poll : Poll) (keep : Prop) (s : Executor) (t : Ticker) :
    Prop where
  weight : 0 < poll.positions t → ∀ asset, poll.context.market t = some asset →
    get_asset_weight poll t asset.Close ≤ .fin target_weight
  worth : 0 < poll.positions t → is_risk_off poll = false → ∀ asset,
    poll.context.market t = some asset → .fin 0 < get_asset_weight poll t asset.Close
  share : keep → is_risk_off poll = false → ∀ w value asset price p,
    allocation_weight poll.context t = .ok (.fin w) → poll.context.total_value = .fin value →
    poll.context.market t = some asset → asset.Close = .fin price →
    apply_slippage cfg (.fin price) .sell t
      (.fin |target_notional cfg s t w value price - s.positions t * price|) = .fin p →
    s.positions t < target_notional cfg s t w value price / p + 1

/-- The standard deviation is not negative. -/
def Deviation (volatility : List PyFloat → PyFloat) : Prop :=
  ∀ returns d, volatility returns = .fin d → 0 ≤ d

theorem threshold_nonneg {close : PyFloat} {momentum threshold : ℚ} (hvol : Deviation volatility)
    (h : reading volatility poll t = .ready close momentum threshold) : 0 ≤ threshold := by
  unfold reading at h
  split at h
  · exact absurd h (by simp)
  · split at h
    · simp only at h
      split at h
      · exact absurd h (by simp)
      · split at h
        · rename_i hdeviation
          obtain ⟨_, _, rfl⟩ := Reading.ready.inj h
          exact mul_nonneg (hvol _ _ hdeviation) (by norm_num [volatility_multiplier])
        · exact absurd h (by simp)
    · exact absurd h (by simp)

/-- The turn of a steady bullish ticker buys, or leaves the executor alone. -/
theorem steady_turn_cases {keep : Prop} (hvol : Deviation volatility)
    (hbullish : bullish volatility poll t) (hsteady : Steady cfg poll keep l.executor t) :
    (turn volatility cfg poll l t).executor = l.executor ∨
    ((turn volatility cfg poll l t).executor =
      (issue cfg poll.context l.executor (.buy t (some (.fin 1)))).2 ∧
      is_risk_off poll = false) := by
  rcases turn_cases volatility cfg poll l t with
    hsame | ⟨asset, momentum, threshold, hasset, hreading, hbuy | ⟨_, hheld, hexit⟩⟩
  · exact Or.inl hsame
  · exact Or.inr ⟨hbuy.1, hbuy.2.2⟩
  · -- neither bearish nor over weight
    exfalso
    obtain ⟨close, momentum', threshold', hreading', hover⟩ := hbullish
    obtain ⟨_, rfl, rfl⟩ := Reading.ready.inj (hreading.symm.trans hreading')
    have hthreshold := threshold_nonneg hvol hreading
    rcases hexit with hbearish | hfalse
    · linarith
    · rw [if_pos hover, compared, if_pos (hsteady.weight hheld asset hasset)] at hfalse
      exact absurd hfalse (by simp)

/-- A positive weight of a holding is one of a positive value. -/
theorem value_pos {value price : ℚ} (hvalue : poll.context.total_value = .fin value)
    (hheld : 0 < poll.positions t) (hprice : 0 < price)
    (hweight : .fin 0 < get_asset_weight poll t (.fin price)) : 0 < value := by
  unfold get_asset_weight at hweight
  rw [hvalue] at hweight
  by_cases hzero : value = 0
  · rw [if_pos (by rw [hzero]), PyFloat.fin_lt] at hweight
    exact absurd hweight (lt_irrefl 0)
  · rw [if_neg (by simpa using hzero), PyFloat.fin_mul, RegimeAdaptive.quotient, if_neg hzero,
      PyFloat.div_rat_fin, PyFloat.fin_lt] at hweight
    exact (div_pos_iff_of_pos_left (mul_pos hheld hprice)).mp hweight

/-- **A steady bullish holding is kept** in its turn. -/
theorem held_turn {keep : Prop} (hvol : Deviation volatility)
    (hallocated : Allocated settings l.executor)
    (htickers : poll.context.tickers = settings.tickers)
    (hweights : poll.context.weights = settings.weights)
    (hbullish : bullish volatility poll t) (hsteady : Steady cfg poll keep l.executor t)
    (hshown : 0 < poll.positions t) (hheld : 0 < l.executor.positions t) :
    0 < (turn volatility cfg poll l t).executor.positions t := by
  rcases steady_turn_cases hvol hbullish hsteady with hsame | ⟨hbuy, hrisk⟩
  · rw [hsame]
    exact hheld
  rw [hbuy]
  rcases buy_cases cfg l.executor poll.context t with
    hsame | ⟨w, value, asset, price, p, n, conf, id, ts, hweight, _, hvalue, hasset, hclose, hprice,
      hfill, hsettled⟩
  · rw [hsame]
    exact hheld
  · have hn : (0 : ℚ) < n := by exact_mod_cast hfill.quantity_pos
    rw [hsettled, settle_position]
    cases hside : order_side cfg l.executor t w value price with
    | buy =>
      rw [Side.sign_buy]
      linarith
    | sell =>
      -- it is sold down to what its allocation is worth
      obtain ⟨w', hw', hpos⟩ := hallocated t hheld poll.context htickers hweights
      obtain rfl : w' = w := by
        simpa using hw'.symm.trans hweight
      have hworthy := hsteady.worth hshown hrisk asset hasset
      rw [hclose] at hworthy
      have hworth := value_pos hvalue hshown hprice hworthy
      have htarget := target_notional_pos cfg hheld hprice (mul_pos hworth hpos)
      have hreach := hfill.sold hside
      have hleft := div_pos htarget hfill.price_pos
      rw [Side.sign_sell]
      linarith

/-! ### Fills -/

/-- Between the two states nothing of the ticker was sold. -/
def NoSale (u : Ticker) (s s' : Executor) : Prop :=
  ∃ fills, s'.trade_log = s.trade_log ++ fills ∧
    ∀ e ∈ fills, e.ticker = u → e.signal_type ≠ .sell

theorem NoSale.refl (u : Ticker) (s : Executor) : NoSale u s s :=
  ⟨[], by simp, fun _ he => absurd he (by simp)⟩

theorem NoSale.trans {s'' : Executor} (h : NoSale u s s') (h' : NoSale u s' s'') :
    NoSale u s s'' := by
  obtain ⟨fills, hlog, hnone⟩ := h
  obtain ⟨fills', hlog', hnone'⟩ := h'
  refine ⟨fills ++ fills', by rw [hlog', hlog, List.append_assoc], ?_⟩
  intro e he
  rcases List.mem_append.mp he with hfirst | hsecond
  · exact hnone e hfirst
  · exact hnone' e hsecond

theorem NoSale.settle {side : Side} {q p : ℚ} {conf : PyFloat} {id : String}
    {ts : Option Moment} (h : t = u → side ≠ .sell) :
    NoSale u s (settle cfg s t side q p conf id ts) := by
  refine ⟨_, rfl, ?_⟩
  intro e he ht
  rw [List.mem_singleton] at he
  subst he
  exact h ht

theorem NoSale.fills (h : NoSale u s s') :
    ∀ e ∈ fills_since s s', e.ticker = u → e.signal_type ≠ .sell := by
  obtain ⟨fills, hlog, hnone⟩ := h
  have hdrop : fills_since s s' = fills := by
    unfold fills_since
    rw [hlog, List.drop_left]
  rw [hdrop]
  exact hnone

/-- An order for another ticker sells nothing of this one. -/
theorem NoSale.other {ctx : StrategyContext} {order : Order} (hexp : order.explicit)
    (hconf : order.confidence = some (.fin 1)) (hu : u ≠ order.ticker) :
    NoSale u s (issue cfg ctx s order).2 := by
  rcases full_order_cases cfg s ctx hexp hconf with
    hsame | ⟨w, value, asset, price, p, n, conf, id, ts, _, _, _, _, _, _, hsettled⟩
  · rw [hsame]
    exact NoSale.refl u s
  · rw [hsettled]
    exact NoSale.settle (fun ht => absurd ht.symm hu)

theorem NoSale.turn_other (hu : u ≠ t) :
    NoSale u l.executor (turn volatility cfg poll l t).executor := by
  rcases turn_cases volatility cfg poll l t with
    hsame | ⟨asset, momentum, threshold, _, _, ⟨hbuy, _⟩ | ⟨hsell, _⟩⟩
  · rw [hsame]
    exact NoSale.refl u _
  · rw [hbuy]
    exact NoSale.other trivial rfl hu
  · rw [hsell]
    exact NoSale.other trivial rfl hu

/-- **A steady bullish ticker that has to be kept** is not sold in its turn. -/
theorem NoSale.turn_self {keep : Prop} (hvol : Deviation volatility)
    (hbullish : bullish volatility poll t) (hsteady : Steady cfg poll keep l.executor t)
    (hkeep : keep) : NoSale t l.executor (turn volatility cfg poll l t).executor := by
  rcases steady_turn_cases hvol hbullish hsteady with hsame | ⟨hbuy, hrisk⟩
  · rw [hsame]
    exact NoSale.refl t _
  rw [hbuy]
  rcases buy_cases cfg l.executor poll.context t with
    hsame | ⟨w, value, asset, price, p, n, conf, id, ts, hweight, _, hvalue, hasset, hclose, _,
      hfill, hsettled⟩
  · rw [hsame]
    exact NoSale.refl t _
  · rw [hsettled]
    apply NoSale.settle
    intro _ hsell
    -- a sale needs a share above the target
    have hslip := hfill.priced
    rw [hsell] at hslip
    have hshare := hsteady.share hkeep hrisk w value asset price p hweight hvalue hasset hclose
      hslip
    have hreach := hfill.sold hsell
    have hn : (1 : ℚ) ≤ n := by exact_mod_cast hfill.quantity_pos
    linarith

/-! ### Calls -/

/-- Every bullish ticker of the rest of a call is steady at its turn. -/
def SteadyCall (volatility : List PyFloat → PyFloat) (cfg : Config) (poll : Poll)
    (keep : Ticker → Prop) : List Ticker → Loop → Prop
  | [], _ => True
  | t :: rest, l =>
      (bullish volatility poll t → Steady cfg poll (keep t) l.executor t) ∧
      SteadyCall volatility cfg poll keep rest (turn volatility cfg poll l t)

variable {keep : Ticker → Prop}

theorem allocated_turns (tickers : List Ticker) (h : Allocated settings l.executor)
    (htickers : poll.context.tickers = settings.tickers)
    (hweights : poll.context.weights = settings.weights) :
    Allocated settings (tickers.foldl (turn volatility cfg poll) l).executor := by
  induction tickers generalizing l with
  | nil => exact h
  | cons t rest ih => exact ih (h.turn htickers hweights)

theorem held_turns {tickers : List Ticker} (hvol : Deviation volatility)
    (hallocated : Allocated settings l.executor)
    (htickers : poll.context.tickers = settings.tickers)
    (hweights : poll.context.weights = settings.weights)
    (hsteady : SteadyCall volatility cfg poll keep tickers l) (hbullish : bullish volatility poll u)
    (hshown : 0 < poll.positions u) (hheld : 0 < l.executor.positions u) :
    0 < (tickers.foldl (turn volatility cfg poll) l).executor.positions u := by
  induction tickers generalizing l with
  | nil => exact hheld
  | cons t rest ih =>
    apply ih (hallocated.turn htickers hweights) hsteady.2
    by_cases hu : u = t
    · subst hu
      exact held_turn hvol hallocated htickers hweights hbullish (hsteady.1 hbullish) hshown hheld
    · rw [turn_other hu]
      exact hheld

theorem no_sale_turns {tickers : List Ticker} (hvol : Deviation volatility)
    (hsteady : SteadyCall volatility cfg poll keep tickers l) (hbullish : bullish volatility poll u)
    (hkeep : keep u) :
    NoSale u l.executor (tickers.foldl (turn volatility cfg poll) l).executor := by
  induction tickers generalizing l with
  | nil => exact NoSale.refl u _
  | cons t rest ih =>
    apply NoSale.trans _ (ih hsteady.2)
    by_cases hu : u = t
    · subst hu
      exact NoSale.turn_self hvol hbullish (hsteady.1 hbullish) hkeep
    · exact NoSale.turn_other hu

/-! ### Runs -/

theorem run_snoc (events : List Event) (e : Event) :
    run volatility cfg settings (events ++ [e]) =
      step volatility cfg settings (run volatility cfg settings events) e := by
  simp [run, List.foldl_append]

/-- Only what has an allocation is ever held. -/
theorem allocated_run (volatility : List PyFloat → PyFloat) (cfg : Config) (settings : Settings)
    (events : List Event) : Allocated settings (run volatility cfg settings events).executor := by
  induction events using List.reverseRecOn with
  | nil => exact fun t hheld => absurd hheld (lt_irrefl 0)
  | append_singleton events e ih =>
    rw [run_snoc]
    cases e with
    | update_price u price =>
      have hpositions : (update_price cfg (run volatility cfg settings events).executor u
          price).positions = (run volatility cfg settings events).executor.positions := by
        unfold update_price
        split <;> rfl
      intro t hheld
      apply ih t
      rw [← hpositions]
      exact hheld
    | set_time now => exact ih
    | on_data poll => exact allocated_turns settings.tickers ih rfl rfl

/-- The last call filled a purchase of the ticker, and this one sees the same
    closes and marks. -/
def BoughtLast (a : Account) (poll : Poll) (t : Ticker) : Prop :=
  ∃ last, a.last = some last ∧ (∃ e ∈ last.fills, e.ticker = t ∧ e.signal_type = .buy) ∧
    closes poll = last.closes ∧ a.executor.latest_prices = last.marks

/-- In every call of a run the bullish tickers are steady; those bought by the
    last call at the same prices have to be kept. -/
def SteadyRun (volatility : List PyFloat → PyFloat) (cfg : Config) (settings : Settings)
    (events : List Event) : Prop :=
  ∀ before poll, before ++ [.on_data poll] <+: events →
    SteadyCall volatility cfg
      (poll.shown cfg settings (run volatility cfg settings before).executor)
      (BoughtLast (run volatility cfg settings before) poll) settings.tickers
      (.init (run volatility cfg settings before).executor)

/-- **A bullish holding is not churned** in a run whose bullish tickers are
    steady: no call takes it to flat, and after a call that bought it no call
    at the same prices sells any of it. -/
theorem bullish_never_churned (volatility : List PyFloat → PyFloat) (cfg : Config)
    (settings : Settings) (events : List Event) (hvol : Deviation volatility)
    (h : SteadyRun volatility cfg settings events) (before : List Event) (poll : Poll)
    (hcall : before ++ [.on_data poll] <+: events) (t : Ticker) :
    let a := run volatility cfg settings before
    let after := run volatility cfg settings (before ++ [.on_data poll])
    bullish volatility (poll.shown cfg settings a.executor) t →
    (0 < a.executor.positions t → 0 < after.executor.positions t) ∧
    (BoughtLast a poll t →
      ∀ e ∈ fills_since a.executor after.executor, e.ticker = t → e.signal_type ≠ .sell) := by
  intro a after hbullish
  have hafter : after = step volatility cfg settings a (.on_data poll) := run_snoc before _
  have hsteady := h before poll hcall
  rw [hafter]
  constructor
  · intro hheld
    exact held_turns hvol (allocated_run volatility cfg settings before) rfl rfl hsteady hbullish
      hheld hheld
  · intro hbought
    exact (no_sale_turns hvol hsteady hbullish hbought).fills

/-! ### Two runs -/

/-- One ticker, a thousand, and no costs. -/
def sample_config : Config where
  initial_capital := 1000
  tickers := [tick_a]
  leverage := 1
  slippage := 0
  cost_model := none
  adv_lookup := fun _ => 0
  sigma_lookup := fun _ => 0
  commission_per_share := 0
  commission_nonneg := no_commission_nonneg
  sentiment_gate := none

/-- The returns of a close that rises by the same share every day deviate by
    nothing. -/
def no_deviation (_ : List PyFloat) : PyFloat := .fin 0

/-- What one becomes by a rise of one percent a day. -/
def risen : ℕ → ℚ
  | 0 => 1
  | days + 1 => risen days * (101 / 100)

/-- A call at a price that was reached by such a rise on each of twenty days. -/
def sample_poll (price : ℚ) : Poll where
  context :=
    { portfolio_id := "1", tickers := [tick_a], weights := .absent
      market := fun _ => some
        { Open := .fin price, High := .fin price, Low := .fin price, Close := .fin price,
          Volume := .fin 1, Timestamp := 0 }
      total_value := .fin 0, time := { wall := 0, utcoffset := none }
      has_order_manager := false }
  cash := 0
  positions := fun _ => 0
  roc := fun _ => ⟨true, some (.fin ((risen 20 - 1) * 100))⟩
  history := fun _ => (List.range 21).map (fun day => .fin (price / risen (20 - day)))

/-- A fifth of the value is allocated. -/
def fifth_settings : Settings where
  tickers := [tick_a]
  weights := .mapping (fun _ => some (some (.fin (1 / 5))))

/-- A price of 30, and a call. -/
def fifth_bought : List Event := [.update_price tick_a 30, .on_data (sample_poll 30)]

theorem sample_bullish (settings : Settings) (s : Executor) :
    bullish no_deviation ((sample_poll 30).shown sample_config settings s) tick_a ∧
    bullish no_deviation ((sample_poll 100).shown sample_config settings s) tick_a := by
  constructor
  · refine ⟨.fin 30, (risen 20 - 1) * 100, 0, ?_, by decide +kernel⟩
    show reading no_deviation (sample_poll 30) tick_a = _
    decide +kernel
  · refine ⟨.fin 100, (risen 20 - 1) * 100, 0, ?_, by decide +kernel⟩
    show reading no_deviation (sample_poll 100) tick_a = _
    decide +kernel

theorem fifth_steady : SteadyRun no_deviation sample_config fifth_settings
    (fifth_bought ++ [.on_data (sample_poll 30)]) := by
  intro before poll hpre
  have hcalls : poll = sample_poll 30 ∧
      (before = [.update_price tick_a 30] ∨ before = fifth_bought) := by
    unfold fifth_bought at hpre ⊢
    rcases before with _ | ⟨e, _ | ⟨e', _ | ⟨e'', rest⟩⟩⟩
    · simp at hpre
    · simp at hpre
      exact ⟨hpre.2, .inl (by rw [hpre.1])⟩
    · simp at hpre
      exact ⟨hpre.2.2, .inr (by rw [hpre.1, hpre.2.1])⟩
    · exact absurd hpre.length_le (by simp)
  obtain ⟨rfl, rfl | rfl⟩ := hcalls
  · -- nothing is held yet
    refine ⟨fun _ => ⟨?_, ?_, ?_⟩, trivial⟩
    · intro hheld
      exact absurd hheld (by decide +kernel)
    · intro hheld
      exact absurd hheld (by decide +kernel)
    · intro hbought
      obtain ⟨last, hlast, _⟩ := hbought
      exact absurd hlast (by simp [run, step, Account.init])
  · refine ⟨fun _ => ⟨?_, ?_, ?_⟩, trivial⟩
    · intro _ asset hasset
      obtain rfl := Option.some.inj hasset
      decide +kernel
    · intro _ _ asset hasset
      obtain rfl := Option.some.inj hasset
      decide +kernel
    · intro _ _ w value asset price p hweight hvalue hasset hclose hslip
      obtain rfl := Option.some.inj hasset
      obtain rfl : (30 : ℚ) = price := PyFloat.fin.inj hclose
      obtain rfl : (1 / 5 : ℚ) = w := by
        have hfifth : allocation_weight ((sample_poll 30).shown sample_config fifth_settings
            (run no_deviation sample_config fifth_settings fifth_bought).executor).context tick_a =
              .ok (.fin (1 / 5)) := by decide +kernel
        simpa using hfifth.symm.trans hweight
      obtain rfl : (1000 : ℚ) = value := by
        have hthousand : get_port_notional sample_config
          (run no_deviation sample_config fifth_settings fifth_bought).executor = 1000 := by
            decide +kernel
        exact hthousand.symm.trans (PyFloat.fin.inj hvalue)
      obtain ⟨arrival, harrival, hp⟩ := apply_slippage_fin sample_config rfl hslip
      obtain rfl := PyFloat.fin.inj harrival
      obtain rfl : p = 30 := by
        rw [hp]
        norm_num [sample_config]
      decide +kernel

/-- Six shares of 30 are kept in the second call. -/
theorem fifth_kept :
    0 < (run no_deviation sample_config fifth_settings
      (fifth_bought ++ [.on_data (sample_poll 30)])).executor.positions tick_a := by
  have hvol : Deviation no_deviation := by
    intro returns d hd
    rw [← PyFloat.fin.inj hd]
  obtain ⟨hkept, _⟩ := bullish_never_churned no_deviation sample_config fifth_settings _ hvol
    fifth_steady fifth_bought (sample_poll 30) (List.prefix_refl _) tick_a
    (sample_bullish _ _).1
  exact hkept (by decide +kernel)

/-- The whole value is allocated to the only ticker. -/
def whole_settings : Settings where
  tickers := [tick_a]
  weights := .absent

/-- A price of 100, and a call. -/
def whole_bought : List Event := [.update_price tick_a 100, .on_data (sample_poll 100)]

/-- Ten shares are bought, and sold in the next call: at the same prices, and
    with the ticker still bullish. -/
theorem one_ticker_churns :
    let a := run no_deviation sample_config whole_settings whole_bought
    let after := run no_deviation sample_config whole_settings
      (whole_bought ++ [.on_data (sample_poll 100)])
    bullish no_deviation ((sample_poll 100).shown sample_config whole_settings a.executor) tick_a ∧
    a.executor.positions tick_a = 10 ∧ BoughtLast a (sample_poll 100) tick_a ∧
    after.executor.positions tick_a = 0 ∧
    ∃ e ∈ fills_since a.executor after.executor, e.ticker = tick_a ∧ e.signal_type = .sell := by
  intro a after
  refine ⟨(sample_bullish _ _).2, ?_, ?_, ?_, ?_⟩
  · decide +kernel
  · refine ⟨_, rfl, ?_, rfl, turns_latest_prices _⟩
    decide +kernel
  · decide +kernel
  · decide +kernel

end VolMomentum
