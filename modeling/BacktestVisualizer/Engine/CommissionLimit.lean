import BacktestVisualizer.Engine.OrderPaths

/-! # The Commission Limit Is Exact

  `_commission_quantity_limit` is a closed form with a case split. Shares that
  close a position release margin, shares beyond flat consume it, and every
  share takes `leverage` times its fee out of buying power. So the buying
  power left after `n` shares first rises, or falls more slowly, and then
  falls, with a joint at the closing quantity. The limit is where it reaches
  zero.

  The arithmetic is over any ordered field: a quantity is a real number, and
  the amounts of the executor are rationals.
-/

namespace Engine

/-! ### Margin along an order -/

section Margin

variable {K : Type*} [Field K] [LinearOrder K] [IsStrictOrderedRing K]

/-- Buying power left after `n` shares, of which `closing` close. -/
def margin_left (leverage fee price buying_power closing n : K) : K :=
  buying_power - n * leverage * fee + price * (n - 2 * max 0 (n - closing))

variable {leverage fee price buying_power closing n : K}

/-- Up to the joint every share releases margin. -/
theorem margin_left_closing (h : n ≤ closing) :
    margin_left leverage fee price buying_power closing n =
      buying_power - n * (leverage * fee - price) := by
  unfold margin_left
  rw [max_eq_left (by linarith)]
  ring

/-- Beyond the joint every share consumes it. -/
theorem margin_left_opening (h : closing ≤ n) :
    margin_left leverage fee price buying_power closing n =
      buying_power + 2 * closing * price - n * (price + leverage * fee) := by
  unfold margin_left
  rw [max_eq_right (by linarith)]
  ring

/-- The first branch of the limit: margin runs out among the closing shares. -/
theorem le_limit_closing (hprice : 0 < price) (hcost : 0 < leverage * fee - price)
    (hover : buying_power < closing * (leverage * fee - price)) :
    n ≤ buying_power / (leverage * fee - price) ↔
      0 ≤ margin_left leverage fee price buying_power closing n := by
  rw [le_div_iff₀ hcost]
  rcases le_total n closing with hclose | hopen
  · rw [margin_left_closing hclose, sub_nonneg]
  · -- neither side holds once all closing shares are gone
    have hmore := mul_le_mul_of_nonneg_right hopen (le_of_lt hcost)
    have hprices := mul_le_mul_of_nonneg_right hopen (le_of_lt hprice)
    rw [margin_left_opening hopen]
    constructor
    · intro h
      linarith
    · intro h
      linarith

/-- The second branch: margin lasts to the joint. -/
theorem le_limit_opening (hprice : 0 < price) (hlf : 0 ≤ leverage * fee) (hbp : 0 ≤ buying_power)
    (hn : 0 ≤ n)
    (hlasts : ¬ (0 < leverage * fee - price ∧
      buying_power < closing * (leverage * fee - price))) :
    n ≤ (buying_power + 2 * closing * price) / (price + leverage * fee) ↔
      0 ≤ margin_left leverage fee price buying_power closing n := by
  have hdiv : 0 < price + leverage * fee := by linarith
  rw [le_div_iff₀ hdiv]
  rcases le_total n closing with hclose | hopen
  · -- both sides hold among the closing shares
    have hfits : n * (leverage * fee - price) ≤ buying_power := by
      rcases lt_or_ge 0 (leverage * fee - price) with hcost | hcost
      · have hle := not_lt.mp (fun h => hlasts ⟨hcost, h⟩)
        exact le_trans (mul_le_mul_of_nonneg_right hclose (le_of_lt hcost)) hle
      · exact le_trans (mul_nonpos_of_nonneg_of_nonpos hn hcost) hbp
    have hprices := mul_le_mul_of_nonneg_right hclose (le_of_lt hprice)
    rw [margin_left_closing hclose]
    constructor
    · intro _
      linarith
    · intro _
      linarith
  · rw [margin_left_opening hopen, sub_nonneg]

/-- **The margin part of the limit** is the last quantity that leaves no
    margin missing. -/
theorem le_margin_limit_iff (hprice : 0 < price) (hlf : 0 ≤ leverage * fee)
    (hbp : 0 ≤ buying_power) (hn : 0 ≤ n) :
    n ≤ (if 0 < leverage * fee - price ∧ buying_power < closing * (leverage * fee - price) then
        buying_power / (leverage * fee - price)
      else (buying_power + 2 * closing * price) / (price + leverage * fee)) ↔
      0 ≤ margin_left leverage fee price buying_power closing n := by
  split
  · rename_i hcostly
    exact le_limit_closing hprice hcostly.1 hcostly.2
  · rename_i hlasts
    exact le_limit_opening hprice hlf hbp hn hlasts

end Margin

/-! ### The limit of the executor -/

variable (cfg : Config) (s : Executor)

/-- The cash part of the limit, as a number. -/
def cash_limit (price : ℚ) (side : Side) (margin : ℚ) : ℚ :=
  match side with
  | .buy => min margin (max 0 s.cash / (price + cfg.commission_per_share))
  | .sell =>
      if price < cfg.commission_per_share then
        min margin (max 0 s.cash / (cfg.commission_per_share - price))
      else margin

/-- At a positive price the limit is a number. -/
theorem commission_quantity_limit_eq {price : ℚ} (hprice : 0 < price)
    (hlf : 0 ≤ cfg.leverage * cfg.commission_per_share) (side : Side) (equity current : ℚ) :
    commission_quantity_limit cfg s price side (.fin equity) current =
      some (.fin (max 0 (cash_limit cfg s price side
        (margin_limit cfg.leverage cfg.commission_per_share price (buying_power cfg s equity)
          (closing_quantity side current))))) := by
  rw [commission_quantity_limit_cap cfg s hprice hlf side equity current]
  unfold cash_cap cash_limit
  cases side with
  | buy => simp only [PyFloat.py_min_fin, PyFloat.py_max_fin]
  | sell =>
    simp only
    split
    · simp only [PyFloat.py_min_fin, PyFloat.py_max_fin]
    · simp only [PyFloat.py_max_fin]

/-- The cash an order of `n` real shares pays out is there. -/
def CashPays (price : ℚ) (side : Side) (n : ℝ) : Prop :=
  match side with
  | .buy => n * (price + cfg.commission_per_share : ℚ) ≤ (max 0 s.cash : ℚ)
  | .sell => n * (cfg.commission_per_share - price : ℚ) ≤ (max 0 s.cash : ℚ)

theorem le_cash_limit_iff {price : ℚ} (hprice : 0 < price) (side : Side) (margin : ℚ) {n : ℝ}
    (hn : 0 ≤ n) :
    n ≤ (cash_limit cfg s price side margin : ℚ) ↔ n ≤ margin ∧ CashPays cfg s price side n := by
  have hfee := cfg.commission_nonneg
  unfold cash_limit CashPays
  cases side with
  | buy =>
    have hdiv : (0 : ℝ) < (price + cfg.commission_per_share : ℚ) := by
      exact_mod_cast add_pos_of_pos_of_nonneg hprice hfee
    simp only
    rw [Rat.cast_min, le_min_iff, Rat.cast_div, le_div_iff₀ hdiv]
  | sell =>
    simp only
    split
    · rename_i hcash
      have hdiv : (0 : ℝ) < (cfg.commission_per_share - price : ℚ) := by
        exact_mod_cast sub_pos.mpr hcash
      rw [Rat.cast_min, le_min_iff, Rat.cast_div, le_div_iff₀ hdiv]
    · rename_i hproceeds
      -- proceeds cover the fee, whatever cash there is
      have hfree : n * (cfg.commission_per_share - price : ℚ) ≤ (max 0 s.cash : ℚ) := by
        have hneg : ((cfg.commission_per_share - price : ℚ) : ℝ) ≤ 0 := by
          exact_mod_cast sub_nonpos.mpr (not_lt.mp hproceeds)
        have hcash : (0 : ℝ) ≤ (max 0 s.cash : ℚ) := by exact_mod_cast le_max_left 0 s.cash
        exact le_trans (mul_nonpos_of_nonneg_of_nonpos hn hneg) hcash
      exact ⟨fun h => ⟨h, hfree⟩, And.left⟩

theorem le_margin_limit_cast {price : ℚ} (hprice : 0 < price)
    (hlf : 0 ≤ cfg.leverage * cfg.commission_per_share) (equity closing : ℚ) {n : ℝ}
    (hn : 0 ≤ n) :
    n ≤ (margin_limit cfg.leverage cfg.commission_per_share price (buying_power cfg s equity)
        closing : ℚ) ↔
      0 ≤ margin_left (cfg.leverage : ℝ) cfg.commission_per_share price
        (buying_power cfg s equity) closing n := by
  have hprice' : (0 : ℝ) < price := by exact_mod_cast hprice
  have hlf' : (0 : ℝ) ≤ cfg.leverage * cfg.commission_per_share := by exact_mod_cast hlf
  have hbp : (0 : ℝ) ≤ buying_power cfg s equity := by
    exact_mod_cast le_max_left 0 (equity * cfg.leverage - gross_position_value cfg s)
  rw [← le_margin_limit_iff hprice' hlf' hbp hn]
  unfold margin_limit
  rw [apply_ite (Rat.cast : ℚ → ℝ)]
  norm_cast

/-- Nothing at all always fits. -/
theorem cash_limit_nonneg {price : ℚ} (hprice : 0 < price)
    (hlf : 0 ≤ cfg.leverage * cfg.commission_per_share) (side : Side) (equity current : ℚ) :
    0 ≤ cash_limit cfg s price side
      (margin_limit cfg.leverage cfg.commission_per_share price (buying_power cfg s equity)
        (closing_quantity side current)) := by
  have hcash : CashPays cfg s price side 0 := by
    have hzero : (0 : ℝ) ≤ (max 0 s.cash : ℚ) := by exact_mod_cast le_max_left 0 s.cash
    cases side with
    | buy =>
      show (0 : ℝ) * _ ≤ _
      rwa [zero_mul]
    | sell =>
      show (0 : ℝ) * _ ≤ _
      rwa [zero_mul]
  have hmargin : (0 : ℝ) ≤ margin_left (cfg.leverage : ℝ) cfg.commission_per_share price
      (buying_power cfg s equity) (closing_quantity side current) 0 := by
    have hclosing : (0 : ℝ) ≤ closing_quantity side current := by
      exact_mod_cast closing_quantity_nonneg side current
    rw [margin_left_closing hclosing, zero_mul, sub_zero]
    exact_mod_cast le_max_left 0 (equity * cfg.leverage - gross_position_value cfg s)
  have hreal := (le_cash_limit_iff cfg s hprice side _ (le_refl (0 : ℝ))).mpr
    ⟨(le_margin_limit_cast cfg s hprice hlf equity _ (le_refl 0)).mpr hmargin, hcash⟩
  exact_mod_cast hreal

/-- **The commission limit is exact.** At a positive price a quantity is within
    `_commission_quantity_limit` exactly when it leaves no margin missing and
    cash pays for it. -/
theorem commission_limit_exact (price : ℚ) (hprice : 0 < price) (hlev : 1 ≤ cfg.leverage)
    (side : Side) (equity current : ℚ) :
    ∃ limit : ℚ, commission_quantity_limit cfg s price side (.fin equity) current =
      some (.fin limit) ∧ ∀ n : ℝ, 0 ≤ n →
        (n ≤ limit ↔
          0 ≤ margin_left (cfg.leverage : ℝ) cfg.commission_per_share price
            (buying_power cfg s equity) (closing_quantity side current) n ∧
          CashPays cfg s price side n) := by
  have hlf : 0 ≤ cfg.leverage * cfg.commission_per_share :=
    mul_nonneg (by linarith) cfg.commission_nonneg
  have hlimit := commission_quantity_limit_eq cfg s hprice hlf side equity current
  rw [max_eq_right (cash_limit_nonneg cfg s hprice hlf side equity current)] at hlimit
  refine ⟨_, hlimit, ?_⟩
  intro n hn
  rw [le_cash_limit_iff cfg s hprice side _ hn, le_margin_limit_cast cfg s hprice hlf equity _ hn]

/-- Selling through a long of 5 at a commission of 1 a share. -/
theorem commission_limit_exact_flip :
    ∃ limit : ℚ, commission_quantity_limit (two_shorts_config 1 zero_le_one) two_shorts_state 10
        .sell (.fin 1000) 5 = some (.fin limit) ∧ ∀ n : ℝ, 0 ≤ n →
      (n ≤ limit ↔
        0 ≤ margin_left ((two_shorts_config 1 zero_le_one).leverage : ℝ)
          (two_shorts_config 1 zero_le_one).commission_per_share ((10 : ℚ) : ℝ)
          (buying_power (two_shorts_config 1 zero_le_one) two_shorts_state 1000)
          (closing_quantity .sell 5) n ∧
        CashPays (two_shorts_config 1 zero_le_one) two_shorts_state 10 .sell n) :=
  commission_limit_exact _ _ 10 (by norm_num) (by norm_num [two_shorts_config]) .sell 1000 5

end Engine
