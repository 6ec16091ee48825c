import BacktestVisualizer.Engine.ExplicitTargets

/-! # Re-issuing a Target

  With a constant slippage an order buys at a price above the mid and sells at
  one below it, while the side is chosen at the mid. An order that was not cut
  off lands within one share of its target at its own price. For a long target
  the other side's price is then on the far side of the target, and the guard
  against fills in the spread holds the next order back. For a short target
  both prices lie the other way round, and there is no such guard.
-/

namespace Engine

/-! ### Landing -/

section Landing

variable {w target price slippage holding limit : ℚ} {side : Side}

/-- The execution price of one side. -/
def slipped (slippage price : ℚ) (side : Side) : ℚ := price * (1 + side.sign * slippage)

theorem slipped_pos (hprice : 0 < price) (hslip : 0 ≤ slippage) (hslip' : slippage < 1)
    (side : Side) : 0 < slipped slippage price side := by
  unfold slipped
  apply mul_pos hprice
  cases side with
  | buy =>
    rw [Side.sign_buy]
    linarith
  | sell =>
    rw [Side.sign_sell]
    linarith

/-- Within one share of the target at the price of a side, and not past it. -/
def Landed (target p holding : ℚ) (side : Side) : Prop :=
  0 ≤ side.sign * (target / p - holding) ∧ side.sign * (target / p - holding) < 1

theorem Landed.near {p : ℚ} (h : Landed target p holding side) : |target / p - holding| < 1 := by
  obtain ⟨hlow, hhigh⟩ := h
  cases side with
  | buy =>
    rw [Side.sign_buy, one_mul] at hlow hhigh
    exact abs_lt.mpr ⟨by linarith, hhigh⟩
  | sell =>
    rw [Side.sign_sell] at hlow hhigh
    exact abs_lt.mpr ⟨by linarith, by linarith⟩

/-- An order that is not cut off lands. -/
theorem landed_of_floor {p : ℚ} (hp : 0 < p)
    (hdir : 0 < (target - holding * p) * 1 ↔ side = .buy) :
    Landed target p (holding + side.sign * ⌊|target / p - holding| * 1⌋) side := by
  have hway : target / p - holding = (target - holding * p) / p := by
    field_simp
  have hlow := Int.floor_le (|target / p - holding| * 1)
  have hhigh := Int.lt_floor_add_one (|target / p - holding| * 1)
  rw [mul_one] at hdir hlow hhigh ⊢
  unfold Landed
  cases side with
  | buy =>
    have hpos : 0 < target / p - holding := by
      rw [hway]
      exact div_pos (hdir.mpr rfl) hp
    rw [abs_of_pos hpos] at hlow hhigh ⊢
    rw [Side.sign_buy]
    constructor
    · linarith
    · linarith
  | sell =>
    have hneg : target / p - holding ≤ 0 := by
      rw [hway]
      exact div_nonpos_of_nonpos_of_nonneg (not_lt.mp (fun h => by simpa using hdir.mp h))
        (le_of_lt hp)
    rw [abs_of_nonpos hneg] at hlow hhigh ⊢
    rw [Side.sign_sell]
    constructor
    · linarith
    · linarith

/-- Less than a share on the way, or allowed, is no share. -/
theorem explicit_shares_nonpos (h : |target / price - holding| < 1 ∨ limit < 1) :
    explicit_shares w target price holding 1 limit side = 0 := by
  have hfloor : ⌊min (|target / price - holding| * 1) limit⌋ ≤ 0 := by
    have hlt : min (|target / price - holding| * 1) limit < 1 := by
      rw [mul_one]
      exact min_lt_iff.mpr h
    have hcast := lt_of_le_of_lt (Int.floor_le _) hlt
    have : ⌊min (|target / price - holding| * 1) limit⌋ < 1 := by exact_mod_cast hcast
    omega
  unfold explicit_shares
  simp only
  split
  · rfl
  split
  · rfl
  · exact max_eq_left hfloor

/-- The side of a short target is never in the spread. -/
theorem short_target_direction (hprice : 0 < price) (hslip : 0 ≤ slippage) (hslip' : slippage < 1)
    (hshort : target < 0) (hside : side = if holding * price < target then .buy else .sell) :
    0 < (target - holding * slipped slippage price side) * 1 ↔ side = .buy := by
  rw [mul_one]
  unfold slipped
  split at hside
  · rename_i hbuy
    subst hside
    have hheld : holding * price < 0 := by linarith
    have hspread := mul_nonpos_of_nonpos_of_nonneg (le_of_lt hheld) hslip
    rw [Side.sign_buy]
    exact iff_of_true (by linarith) rfl
  · rename_i hsell
    subst hside
    have hnot : ¬ 0 < target - holding * (price * (1 + Side.sell.sign * slippage)) := by
      rw [Side.sign_sell, not_lt]
      rcases le_total 0 holding with hlong | hheld
      · have hkept : 0 ≤ holding * (price * (1 + -1 * slippage)) :=
          mul_nonneg hlong (mul_nonneg (le_of_lt hprice) (by linarith))
        linarith
      · have hspread := mul_nonneg_of_nonpos_of_nonpos
          (mul_nonpos_of_nonpos_of_nonneg hheld (le_of_lt hprice)) (neg_nonpos.mpr hslip)
        linarith [not_lt.mp hsell]
    exact iff_of_false hnot (by simp)

/-- A whole share toward a short target, worth at least 1 and allowed, is
    traded. -/
theorem short_target_trades (hprice : 0 < price) (hslip : 0 ≤ slippage) (hslip' : slippage < 1)
    (hshort : target < 0) (hside : side = if holding * price < target then .buy else .sell)
    (hnotional : 1 ≤ |target - holding * slipped slippage price side|)
    (hshare : 1 ≤ |target / slipped slippage price side - holding|) (hlimit : 1 ≤ limit) :
    0 < explicit_shares w target (slipped slippage price side) holding 1 limit side := by
  rw [explicit_shares_on_side (short_target_direction hprice hslip hslip' hshort hside)
    (fun h => absurd h.1 (by rw [mul_one]; exact not_lt.mpr hnotional))]
  have hone : (1 : ℤ) ≤ ⌊min (|target / slipped slippage price side - holding| * 1) limit⌋ := by
    rw [Int.le_floor, mul_one]
    exact_mod_cast le_min hshare hlimit
  omega

theorem slipped_zero (side : Side) : slipped 0 price side = price := by
  unfold slipped
  ring

/-- **From where an order landed**, a long target or no slippage leaves
    nothing to trade on either side. -/
theorem landed_stays {side' : Side} (hprice : 0 < price) (hslip : 0 ≤ slippage)
    (hslip' : slippage < 1) (hlanded : Landed target (slipped slippage price side) holding side)
    (hside : side' = if holding * price < target then .buy else .sell)
    (h : slippage = 0 ∨ 0 ≤ target) :
    |target / slipped slippage price side' - holding| < 1 := by
  have hnear := hlanded.near
  rcases h with hzero | hlong
  · -- both sides trade at the mid
    subst hzero
    rw [slipped_zero] at hnear ⊢
    exact hnear
  have hp := slipped_pos hprice hslip hslip' side
  have hway := hlanded.1
  cases side with
  | buy =>
    cases side' with
    | buy => exact hnear
    | sell =>
      -- the mid is below the price paid, so only a target of 0 is at both
      rw [Side.sign_buy, one_mul, sub_nonneg, le_div_iff₀ hp, slipped, Side.sign_buy] at hway
      have hmid : target ≤ holding * price := by
        split at hside
        · exact absurd hside (by simp)
        · exact not_lt.mp ‹_›
      have hspread : 0 ≤ holding * price * slippage := mul_nonneg (by linarith) hslip
      have hat : holding * price = target := by linarith
      have hnone : target * slippage = 0 := by
        rw [← hat]
        linarith
      rcases mul_eq_zero.mp hnone with hflat | hfree
      · rw [hflat] at hat ⊢
        have hempty : holding = 0 := by
          rcases mul_eq_zero.mp hat with h0 | h0
          · exact h0
          · exact absurd h0 (ne_of_gt hprice)
        rw [hempty, zero_div, sub_zero, abs_zero]
        exact zero_lt_one
      · subst hfree
        rw [slipped_zero] at hnear ⊢
        exact hnear
  | sell =>
    cases side' with
    | sell => exact hnear
    | buy =>
      -- what is left is worth more at the mid than at the price sold at
      exfalso
      have hreach : target ≤ holding * slipped slippage price .sell := by
        rw [Side.sign_sell] at hway
        have : target / slipped slippage price .sell ≤ holding := by linarith
        exact (div_le_iff₀ hp).mp this
      have hmid : holding * price < target := by
        split at hside
        · assumption
        · exact absurd hside (by simp)
      have hheld : 0 ≤ holding := by
        by_contra hneg
        have := mul_neg_of_neg_of_pos (not_le.mp hneg) hp
        linarith
      rw [slipped, Side.sign_sell] at hreach
      have hspread := mul_nonneg (mul_nonneg hheld (le_of_lt hprice)) hslip
      linarith

end Landing

/-! ### The executor -/

/-- A constant slippage, and no other cost. -/
structure SlippageOnly (cfg : Config) : Prop where
  cost_model : cfg.cost_model = none
  commission : cfg.commission_per_share = 0
  slippage_nonneg : 0 ≤ cfg.slippage
  slippage_lt : cfg.slippage < 1

section Sizes

variable (cfg : Config) (s : Executor) (t : Ticker) (w value price : ℚ)

/-- The execution price of an explicit order. -/
def explicit_price : ℚ := slipped cfg.slippage price (order_side cfg s t w value price)

/-- The shares that cash and buying power allow it. -/
def explicit_limit : ℚ :=
  share_limit cfg s (explicit_price cfg s t w value price) (order_side cfg s t w value price) value
    (s.positions t)

/-- The shares from the holding to the target, at that price. -/
def explicit_distance : ℚ :=
  |target_notional cfg s t w value price / explicit_price cfg s t w value price - s.positions t|

/-- The shares of an order at full confidence. -/
def explicit_size : ℤ :=
  explicit_shares w (target_notional cfg s t w value price) (explicit_price cfg s t w value price)
    (s.positions t) 1 (explicit_limit cfg s t w value price) (order_side cfg s t w value price)

/-- Cash and buying power do not cut the order off. -/
def Untruncated : Prop :=
  (⌊explicit_distance cfg s t w value price⌋ : ℚ) ≤ explicit_limit cfg s t w value price

/-- Less than 1 in notional, or less than a share, to go or allowed. -/
def LessThanAShare : Prop :=
  |target_notional cfg s t w value price - s.positions t * explicit_price cfg s t w value price| < 1 ∨
  explicit_distance cfg s t w value price < 1 ∨ explicit_limit cfg s t w value price < 1

end Sizes

section Order

variable {cfg : Config} {s : Executor} {r : TradeRequest} {w value price : ℚ}

theorem SlippageOnly.price_pos (hcfg : SlippageOnly cfg) (hprice : 0 < price) (t : Ticker) :
    0 < explicit_price cfg s t w value price :=
  slipped_pos hprice hcfg.slippage_nonneg hcfg.slippage_lt _

theorem SlippageOnly.apply_slippage (hcfg : SlippageOnly cfg) (side : Side) (t : Ticker)
    (notional : PyFloat) :
    apply_slippage cfg (.fin price) side t notional = .fin (slipped cfg.slippage price side) := by
  unfold Engine.apply_slippage slipped
  rw [hcfg.cost_model]
  cases side with
  | buy => simp
  | sell => simp [sub_eq_add_neg]

/-- **An explicit order** at full confidence trades its size, or nothing. -/
theorem execute_trade_explicit (hcfg : SlippageOnly cfg) (hprice : 0 < price)
    (hr : ExplicitRequest r.toSizeRequest w value price 1) :
    (explicit_size cfg s r.ticker w value price = 0 → execute_trade cfg s r = (.no_trade, s)) ∧
    (0 < explicit_size cfg s r.ticker w value price →
      ∃ conf, execute_trade cfg s r =
        (.success (explicit_size cfg s r.ticker w value price)
            (explicit_price cfg s r.ticker w value price) 0,
          settle cfg s r.ticker (order_side cfg s r.ticker w value price)
            (explicit_size cfg s r.ticker w value price)
            (explicit_price cfg s r.ticker w value price) conf r.portfolio_id r.timestamp)) := by
  -- full confidence takes nothing off
  have hone : clamp_confidence (.fin 1) = 1 := by
    rw [clamp_confidence_fin, min_self, max_eq_right zero_le_one]
  have hlf : 0 ≤ cfg.leverage * cfg.commission_per_share := by
    rw [hcfg.commission, mul_zero]
  obtain ⟨z, hz, hpriced, _, hquantity⟩ := default_trade_size_explicit (s := s) hr zero_lt_one hlf
    (hcfg.price_pos (s := s) hprice r.ticker)
    (hcfg.apply_slippage _ _ _)
  rw [hone] at hquantity
  have hsize : z.quantity = explicit_size cfg s r.ticker w value price := hquantity
  constructor
  · intro hzero
    unfold execute_trade
    simp only [hz, hsize, hzero, le_refl, if_true]
  · intro hpos
    rw [← hsize] at hpos ⊢
    obtain ⟨x, weight, p, conf, hfill, hp, heq⟩ := execute_trade_of_size cfg s hz hpos
    obtain rfl : explicit_price cfg s r.ticker w value price = p := by
      rw [hpriced] at hp
      exact PyFloat.fin.inj hp
    obtain ⟨w', value', price', hw, hvalue, harrival, _, hside⟩ := hfill.explicit hr.target
    obtain rfl : w = w' := by simpa using hw
    obtain rfl : value = value' := by simpa [hr.port_notional] using hvalue
    obtain rfl : price = price' := by simpa [hr.arrival_price] using harrival
    refine ⟨conf, ?_⟩
    rw [heq, hside, hcfg.commission, mul_zero]

/-- Behind an open gate the target is the one that is asked for. -/
theorem target_notional_open {t : Ticker} (h : ¬ GateShut cfg s t) (w value price : ℚ) :
    target_notional cfg s t w value price = value * w := by
  unfold target_notional apply_sentiment_gate
  cases hgate : cfg.sentiment_gate with
  | none => rfl
  | some gate =>
    cases hnow : s.current_time with
    | none => rfl
    | some now =>
      have hblocks : gate.blocks_long_entry t now = false := by
        by_contra hb
        exact h ⟨gate, now, hgate, hnow, Bool.eq_true_of_not_eq_false hb⟩
      simp only [hblocks, PyFloat.py_max_fin]
      split
      · rfl
      · rfl

/-- Behind a shut one it ends no longer than the holding. -/
theorem target_notional_shut {t : Ticker} (h : GateShut cfg s t) (w value price : ℚ) :
    target_notional cfg s t w value price = min (value * w) (max (s.positions t * price) 0) := by
  obtain ⟨gate, now, hgate, hnow, hblocks⟩ := h
  unfold target_notional apply_sentiment_gate
  simp only [hgate, hnow, hblocks, PyFloat.py_max_fin, PyFloat.fin_le]
  split
  · rename_i hle
    rw [min_eq_left hle, PyFloat.val_fin]
  · rename_i hgt
    rw [min_eq_right (le_of_lt (not_le.mp hgt))]
    rfl

/-- A fill that lands does not move the target, gated or not. -/
theorem target_notional_landed (hcfg : SlippageOnly cfg) (hprice : 0 < price) {t : Ticker}
    {s₁ : Executor} (htime : s₁.current_time = s.current_time)
    (htoward : 0 ≤ (order_side cfg s t w value price).sign * (s₁.positions t - s.positions t))
    (hlanded : Landed (target_notional cfg s t w value price) (explicit_price cfg s t w value price)
      (s₁.positions t) (order_side cfg s t w value price)) :
    target_notional cfg s₁ t w value price = target_notional cfg s t w value price := by
  have hsame : GateShut cfg s₁ t ↔ GateShut cfg s t := by
    unfold GateShut
    rw [htime]
  by_cases hshut : GateShut cfg s t
  · have hp : 0 < explicit_price cfg s t w value price := hcfg.price_pos hprice t
    have hreach := hlanded.1
    have htarget := target_notional_shut hshut w value price
    rw [target_notional_shut (hsame.mpr hshut)]
    cases hside : order_side cfg s t w value price with
    | buy =>
      -- only a short is bought back, and not past flat
      rw [hside, Side.sign_buy, one_mul, sub_nonneg] at hreach
      have habove : s.positions t * price < target_notional cfg s t w value price := by
        unfold order_side at hside
        split at hside
        · assumption
        · exact absurd hside (by simp)
      have hheld : s.positions t * price ≤ 0 := by
        by_contra hlong
        rw [htarget, max_eq_left (le_of_lt (not_le.mp hlong))] at habove
        exact absurd habove (not_lt.mpr (min_le_right _ _))
      rw [max_eq_right hheld] at htarget
      have hflat : s₁.positions t * price ≤ 0 := by
        apply mul_nonpos_of_nonpos_of_nonneg _ (le_of_lt hprice)
        apply le_trans hreach
        apply div_nonpos_of_nonpos_of_nonneg _ (le_of_lt hp)
        rw [htarget]
        exact min_le_right _ _
      rw [max_eq_right hflat, htarget]
    | sell =>
      rw [hside, Side.sign_sell] at hreach htoward
      have hless : s₁.positions t ≤ s.positions t := by linarith
      apply le_antisymm
      · rw [htarget]
        exact min_le_min_left _ (max_le_max_right _
          (mul_le_mul_of_nonneg_right hless (le_of_lt hprice)))
      · refine le_min (by rw [htarget]; exact min_le_left _ _) ?_
        rcases le_or_gt (target_notional cfg s t w value price) 0 with hshort | hlong
        · exact le_trans hshort (le_max_right _ _)
        · -- sold below the mid, so what is left is worth the target at the mid
          apply le_trans _ (le_max_left _ _)
          have hleft : target_notional cfg s t w value price ≤
              s₁.positions t * explicit_price cfg s t w value price :=
            (div_le_iff₀ hp).mp (by linarith)
          have hheld : 0 < s₁.positions t := by
            by_contra hneg
            have := mul_nonpos_of_nonpos_of_nonneg (not_lt.mp hneg) (le_of_lt hp)
            linarith
          have hspread := mul_nonneg (mul_nonneg (le_of_lt hheld) (le_of_lt hprice))
            hcfg.slippage_nonneg
          rw [explicit_price, hside, slipped, Side.sign_sell] at hleft
          linarith
  · rw [target_notional_open hshut, target_notional_open (fun h => hshut (hsame.mp h))]

/-- **An order that is not cut off lands.** -/
theorem size_pos_landed (hcfg : SlippageOnly cfg) (hprice : 0 < price) {t : Ticker}
    (huncut : Untruncated cfg s t w value price)
    (hpos : 0 < explicit_size cfg s t w value price) :
    Landed (target_notional cfg s t w value price) (explicit_price cfg s t w value price)
      (s.positions t + (order_side cfg s t w value price).sign *
        explicit_size cfg s t w value price) (order_side cfg s t w value price) := by
  have hdir : 0 < (target_notional cfg s t w value price -
      s.positions t * explicit_price cfg s t w value price) * 1 ↔
      order_side cfg s t w value price = .buy := by
    by_contra hspread
    unfold explicit_size at hpos
    rw [explicit_shares_in_spread hspread] at hpos
    omega
  have hworth : ¬ (|(target_notional cfg s t w value price -
      s.positions t * explicit_price cfg s t w value price) * 1| < 1 ∧ w ≠ 0) := by
    intro hsmall
    unfold explicit_size explicit_shares at hpos
    simp only [hsmall, ne_eq, not_false_eq_true, and_self, if_true, ite_self] at hpos
    omega
  -- no limit cuts the distance
  have hfloor : ⌊min (explicit_distance cfg s t w value price * 1)
      (explicit_limit cfg s t w value price)⌋ =
      ⌊explicit_distance cfg s t w value price * 1⌋ := by
    apply le_antisymm (Int.floor_mono (min_le_left _ _))
    rw [Int.le_floor, mul_one]
    exact le_min (Int.floor_le _) huncut
  have hsize : explicit_size cfg s t w value price =
      ⌊explicit_distance cfg s t w value price * 1⌋ := by
    rw [← hfloor]
    unfold explicit_size at hpos ⊢
    rw [explicit_shares_on_side hdir hworth] at hpos ⊢
    have hnonneg := lt_max_iff.mp hpos
    exact max_eq_right (by omega)
  rw [hsize]
  exact landed_of_floor (hcfg.price_pos hprice t) hdir

theorem explicit_size_nonneg (cfg : Config) (s : Executor) (t : Ticker) (w value price : ℚ) :
    0 ≤ explicit_size cfg s t w value price := by
  unfold explicit_size explicit_shares
  simp only
  split
  · exact le_refl _
  split
  · exact le_refl _
  · exact le_max_left _ _

/-- No trade is a size of 0. -/
theorem no_trade_iff (hcfg : SlippageOnly cfg) (hprice : 0 < price)
    (hr : ExplicitRequest r.toSizeRequest w value price 1) :
    execute_trade cfg s r = (.no_trade, s) ↔ explicit_size cfg s r.ticker w value price = 0 := by
  obtain ⟨hnone, hfill⟩ := execute_trade_explicit (s := s) hcfg hprice hr
  constructor
  · intro hquiet
    rcases (explicit_size_nonneg cfg s r.ticker w value price).eq_or_lt with hzero | hpos
    · exact hzero.symm
    · obtain ⟨conf, hfilled⟩ := hfill hpos
      rw [hfilled] at hquiet
      exact absurd (congrArg Prod.fst hquiet) (by simp)
  · exact hnone

/-- **From where an order landed**, exactly when the next one has nothing to
    trade. -/
theorem landed_size_zero_iff (hcfg : SlippageOnly cfg) (hprice : 0 < price) {t : Ticker}
    {s₁ : Executor} (htime : s₁.current_time = s.current_time)
    (htoward : 0 ≤ (order_side cfg s t w value price).sign * (s₁.positions t - s.positions t))
    (hlanded : Landed (target_notional cfg s t w value price) (explicit_price cfg s t w value price)
      (s₁.positions t) (order_side cfg s t w value price)) :
    explicit_size cfg s₁ t w value price = 0 ↔
      cfg.slippage = 0 ∨ 0 ≤ target_notional cfg s t w value price ∨
      order_side cfg s₁ t w value price = order_side cfg s t w value price ∨
      LessThanAShare cfg s₁ t w value price := by
  have htarget := target_notional_landed hcfg hprice htime htoward hlanded
  have hside : order_side cfg s₁ t w value price =
      if s₁.positions t * price < target_notional cfg s t w value price then .buy else .sell := by
    rw [← htarget]
    rfl
  by_cases hback : cfg.slippage = 0 ∨ 0 ≤ target_notional cfg s t w value price
  · have hnear := landed_stays hprice hcfg.slippage_nonneg hcfg.slippage_lt hlanded hside hback
    rw [← htarget] at hnear
    have hzero : explicit_size cfg s₁ t w value price = 0 :=
      explicit_shares_nonpos (Or.inl hnear)
    refine iff_of_true hzero ?_
    rcases hback with hfree | hlong
    · exact Or.inl hfree
    · exact Or.inr (Or.inl hlong)
  obtain ⟨hslip, hshort⟩ := not_or.mp hback
  constructor
  · -- a short target and slippage: what can be traded is traded
    intro hzero
    right; right; right
    by_contra hleft
    unfold LessThanAShare explicit_distance explicit_price at hleft
    push Not at hleft
    obtain ⟨hworth, hshare, hlimit⟩ := hleft
    rw [htarget] at hworth hshare
    have htrades : 0 < explicit_size cfg s₁ t w value price := by
      unfold explicit_size explicit_price
      rw [htarget]
      exact short_target_trades hprice hcfg.slippage_nonneg hcfg.slippage_lt (not_le.mp hshort)
        hside hworth hshare hlimit
    omega
  · intro hcase
    rcases hcase with hfree | hlong | hstay | hworth | hshare | hlimit
    · exact absurd hfree hslip
    · exact absurd hlong hshort
    · -- at the same price it is where it landed
      apply explicit_shares_nonpos
      left
      rw [htarget, explicit_price, hstay]
      exact hlanded.near
    · have hnotional : |(target_notional cfg s₁ t w value price -
          s₁.positions t * explicit_price cfg s₁ t w value price) * 1| < 1 ∧ w ≠ 0 := by
        refine ⟨by rwa [mul_one], ?_⟩
        rintro rfl
        exact hshort (le_of_eq (target_notional_zero t value price).symm)
      unfold explicit_size explicit_shares
      simp only [if_pos hnotional, ite_self]
    · exact explicit_shares_nonpos (Or.inl hshare)
    · exact explicit_shares_nonpos (Or.inr hlimit)

end Order

/-- **Re-issuing an order** that was not cut off fills nothing, unless the
    target is short, there is slippage, the first order crossed the mid, and a
    whole share fits between the holding and the target at the price of the
    other side. -/
theorem reissue_fills_nothing_iff (cfg : Config) (s : Executor) (r r' : TradeRequest)
    (w value price : ℚ) (hcfg : SlippageOnly cfg) (hprice : 0 < price)
    (hr : ExplicitRequest r.toSizeRequest w value price 1)
    (hsame : r'.toSizeRequest = r.toSizeRequest)
    (huncut : Untruncated cfg s r.ticker w value price) :
    execute_trade cfg (execute_trade cfg s r).2 r' = (.no_trade, (execute_trade cfg s r).2) ↔
      cfg.slippage = 0 ∨ 0 ≤ target_notional cfg s r.ticker w value price ∨
      order_side cfg (execute_trade cfg s r).2 r.ticker w value price =
        order_side cfg s r.ticker w value price ∨
      LessThanAShare cfg (execute_trade cfg s r).2 r.ticker w value price := by
  have hr' : ExplicitRequest r'.toSizeRequest w value price 1 := by rwa [hsame]
  have hticker : r'.ticker = r.ticker := congrArg SizeRequest.ticker hsame
  obtain ⟨hnone, hfill⟩ := execute_trade_explicit (s := s) hcfg hprice hr
  rw [no_trade_iff hcfg hprice hr', hticker]
  rcases (explicit_size_nonneg cfg s r.ticker w value price).eq_or_lt with hzero | hpos
  · -- nothing was filled, and nothing is the second time
    rw [hnone hzero.symm]
    exact iff_of_true hzero.symm (Or.inr (Or.inr (Or.inl rfl)))
  · obtain ⟨conf, hfilled⟩ := hfill hpos
    have hlanded := size_pos_landed hcfg hprice huncut hpos
    rw [hfilled]
    have htime : ∀ q p : ℚ, (settle cfg s r.ticker (order_side cfg s r.ticker w value price) q p
        conf r.portfolio_id r.timestamp).current_time = s.current_time := fun _ _ => rfl
    apply landed_size_zero_iff hcfg hprice (htime _ _)
    · rw [settle_position, add_sub_cancel_left]
      have hcast : (0 : ℚ) ≤ explicit_size cfg s r.ticker w value price := by
        exact_mod_cast le_of_lt hpos
      cases order_side cfg s r.ticker w value price with
      | buy =>
        rw [Side.sign_buy]
        linarith
      | sell =>
        rw [Side.sign_sell]
        linarith
    · rw [settle_position]
      exact hlanded

/-! ### A short that is traded back -/

/-- A ticker at 100, leverage 2 and a slippage of 1%. -/
def slippage_config (slippage : ℚ) : Config where
  initial_capital := 100000
  tickers := [tick_a]
  leverage := 2
  slippage := slippage
  cost_model := none
  adv_lookup := fun _ => 0
  sigma_lookup := fun _ => 0
  commission_per_share := 0
  commission_nonneg := no_commission_nonneg
  sentiment_gate := none

def marked_at_100 (slippage : ℚ) : Executor :=
  update_price (slippage_config slippage) (Executor.init (slippage_config slippage)) tick_a 100

/-- An order for the signed weight `w` of 100000, at 100 a share. -/
def order_at_100 (w : ℚ) : TradeRequest :=
  { weight_order w with arrival_price := some (.fin 100), port_notional := some (.fin 100000) }

theorem order_at_100_explicit (w : ℚ) :
    ExplicitRequest (order_at_100 w).toSizeRequest w 100000 100 1 := by
  constructor
  · simp [order_at_100, weight_order]
  · rfl
  · rfl
  · rfl
  · rfl
  · simp [order_at_100, weight_order]

/-- 1010 shares are sold at 99, and the same order then buys 19 back at 101. -/
theorem short_target_trades_back :
    SlippageOnly (slippage_config (1 / 100)) ∧
    ExplicitRequest (order_at_100 (-1)).toSizeRequest (-1) 100000 100 1 ∧
    Untruncated (slippage_config (1 / 100)) (marked_at_100 (1 / 100)) tick_a (-1) 100000 100 ∧
    (execute_trade (slippage_config (1 / 100)) (marked_at_100 (1 / 100)) (order_at_100 (-1))).1 =
      .success 1010 99 0 ∧
    (execute_trade (slippage_config (1 / 100))
      (execute_trade (slippage_config (1 / 100)) (marked_at_100 (1 / 100)) (order_at_100 (-1))).2
      (order_at_100 (-1))).1 = .success 19 101 0 := by
  refine ⟨?_, order_at_100_explicit (-1), ?_, ?_, ?_⟩
  · constructor
    · rfl
    · rfl
    · norm_num [slippage_config]
    · norm_num [slippage_config]
  · unfold Untruncated
    decide +kernel
  · decide +kernel
  · decide +kernel

/-- A long target is bought once. -/
theorem long_target_settles :
    execute_trade (slippage_config (1 / 100))
      (execute_trade (slippage_config (1 / 100)) (marked_at_100 (1 / 100)) (order_at_100 (1 / 2))).2
      (order_at_100 (1 / 2)) = (.no_trade,
        (execute_trade (slippage_config (1 / 100)) (marked_at_100 (1 / 100))
          (order_at_100 (1 / 2))).2) := by
  have hcfg : SlippageOnly (slippage_config (1 / 100)) := by
    constructor
    · rfl
    · rfl
    · norm_num [slippage_config]
    · norm_num [slippage_config]
  have huncut : Untruncated (slippage_config (1 / 100)) (marked_at_100 (1 / 100)) tick_a (1 / 2)
      100000 100 := by
    unfold Untruncated
    decide +kernel
  apply (reissue_fills_nothing_iff (slippage_config (1 / 100)) (marked_at_100 (1 / 100))
    (order_at_100 (1 / 2)) (order_at_100 (1 / 2)) (1 / 2) 100000 100 hcfg (by norm_num)
    (order_at_100_explicit (1 / 2)) rfl huncut).mpr
  right; left
  decide +kernel

end Engine
