import BacktestVisualizer.Engine.FastReplay

/-! # What a Fast Run Can Lose

  The weights of a day are never negative and add up to one or to nothing,
  so fast mode neither sells short nor borrows, and no more than twice the
  portfolio changes hands in an evening. With the returns of the tickers
  bounded, the value of the portfolio is.
-/

open Columns

namespace FastMode

variable {sqrt : ℚ → ℚ} {columns : List Ticker}

/-! ### Sums over the columns -/

theorem row_sum_mono {f g : Ticker → ℚ} (h : ∀ t ∈ columns, f t ≤ g t) :
    row_sum columns f ≤ row_sum columns g := List.sum_le_sum h

theorem row_sum_mul (f : Ticker → ℚ) (c : ℚ) :
    row_sum columns (fun t => f t * c) = row_sum columns f * c :=
  List.sum_map_mul_right _ _ _

theorem row_sum_add (f g : Ticker → ℚ) :
    row_sum columns (fun t => f t + g t) = row_sum columns f + row_sum columns g :=
  List.sum_map_add

theorem row_sum_nonneg {f : Ticker → ℚ} (h : ∀ t ∈ columns, 0 ≤ f t) : 0 ≤ row_sum columns f := by
  have hzero : row_sum columns (fun _ => 0) = 0 := by simp [row_sum]
  rw [← hzero]
  exact row_sum_mono h

/-! ### Weights -/

/-- Long only and without credit. -/
structure Simplex (columns : List Ticker) (w : Ticker → ℚ) : Prop where
  nonneg : ∀ t, 0 ≤ w t
  total : row_sum columns w ≤ 1

theorem simplex_zero : Simplex columns (fun _ => 0) where
  nonneg := fun _ => le_refl 0
  total := by simp [row_sum]

theorem sum_active (active : Ticker → Bool) :
    row_sum columns (fun t => if active t then 1 else 0) = columns.countP active := by
  unfold row_sum
  induction columns with
  | nil => simp
  | cons t columns ih =>
    rw [List.map_cons, List.sum_cons, ih, List.countP_cons]
    by_cases h : active t = true
    · simp [h, add_comm]
    · simp [h]

/-- The weights of a day are spread over the tickers held. -/
theorem total_normalised (active : Ticker → Bool) :
    row_sum columns (normalise_active_weights columns active) =
      if columns.countP active = 0 then 0 else 1 := by
  unfold normalise_active_weights
  by_cases h : columns.countP active = 0
  · simp [h, row_sum]
  · simp only [h, if_false]
    have hne : (columns.countP active : ℚ) ≠ 0 := Nat.cast_ne_zero.mpr h
    simp only [div_eq_mul_inv]
    rw [row_sum_mul, sum_active, mul_inv_cancel₀ hne]

theorem simplex_normalised (active : Ticker → Bool) :
    Simplex columns (normalise_active_weights columns active) where
  nonneg := by
    intro t
    unfold normalise_active_weights
    dsimp only
    split
    · exact le_refl 0
    · apply div_nonneg
      · split
        · exact zero_le_one
        · exact le_refl 0
      · exact Nat.cast_nonneg _
  total := by
    rw [total_normalised]
    split
    · exact zero_le_one
    · exact le_refl 1

/-- What long weights earn lies between the worst and the best return. -/
theorem Simplex.earns {w r : Ticker → ℚ} (h : Simplex columns w) {lo hi : ℚ} (hlo : lo ≤ 0)
    (hhi : 0 ≤ hi) (hr : ∀ t ∈ columns, lo ≤ r t ∧ r t ≤ hi) :
    lo ≤ row_sum columns (fun t => w t * r t) ∧ row_sum columns (fun t => w t * r t) ≤ hi := by
  have hlow := row_sum_mono (fun t ht => mul_le_mul_of_nonneg_left (hr t ht).1 (h.nonneg t))
  have hhigh := row_sum_mono (fun t ht => mul_le_mul_of_nonneg_left (hr t ht).2 (h.nonneg t))
  rw [row_sum_mul] at hlow hhigh
  have hnonneg : 0 ≤ row_sum columns w := row_sum_nonneg (fun t _ => h.nonneg t)
  have htotal := h.total
  constructor
  · nlinarith
  · nlinarith

/-- No more than all that is sold and all that is bought changes hands. -/
theorem Simplex.turns {w last : Ticker → ℚ} (h : Simplex columns w) (hlast : Simplex columns last) :
    0 ≤ row_sum columns (fun t => |w t - last t|) ∧
      row_sum columns (fun t => |w t - last t|) ≤ 2 := by
  constructor
  · exact row_sum_nonneg (fun t _ => abs_nonneg _)
  · have hsum : row_sum columns (fun t => |w t - last t|) ≤
        row_sum columns (fun t => w t + last t) := by
      apply row_sum_mono
      intro t _
      have := h.nonneg t
      have := hlast.nonneg t
      rw [abs_le]
      constructor <;> linarith
    rw [row_sum_add] at hsum
    have := h.total
    have := hlast.total
    linarith

theorem mem_shift {α : Type} {k : ℕ} {fill x : α} {xs : List α} (h : x ∈ shift k fill xs) :
    x = fill ∨ x ∈ xs := by
  rcases List.mem_append.mp (List.mem_of_mem_take h) with hfill | hmem
  · exact .inl (List.eq_of_mem_replicate hfill)
  · exact .inr hmem

theorem simplex_target_weights {adapter : Adapter} {closes : List Row} {w : Ticker → ℚ}
    (h : w ∈ target_weights adapter columns closes) : Simplex columns w := by
  obtain ⟨active, _, rfl⟩ := List.mem_map.mp h
  exact simplex_normalised active

theorem simplex_lagged_weights {adapter : Adapter} {closes : List Row} {w : Ticker → ℚ}
    (h : w ∈ lagged_weights adapter columns closes) : Simplex columns w := by
  rcases mem_shift h with rfl | hmem
  · exact simplex_zero
  · exact simplex_target_weights hmem

theorem mem_of_mem_window {α : Type} {m : Matrix} {first last : ℤ} {xs : List α} {x : α}
    (h : x ∈ m.window first last xs) : x ∈ xs := by
  obtain ⟨row, hrow, rfl⟩ := List.mem_map.mp h
  exact (List.of_mem_zip (List.mem_of_mem_filter hrow)).2

theorem mem_zipWith {α β γ : Type} {g : α → β → γ} {xs : List α} {ys : List β} {z : γ}
    (h : z ∈ List.zipWith g xs ys) : ∃ x ∈ xs, ∃ y ∈ ys, z = g x y := by
  rw [← List.map_uncurry_zip_eq_zipWith] at h
  obtain ⟨pair, hpair, rfl⟩ := List.mem_map.mp h
  exact ⟨pair.1, (List.of_mem_zip hpair).1, pair.2, (List.of_mem_zip hpair).2, rfl⟩

theorem mem_turnover {weights : List (Ticker → ℚ)} {x : ℚ} (hall : ∀ w ∈ weights, Simplex columns w)
    (h : x ∈ turnover columns weights) : 0 ≤ x ∧ x ≤ 2 := by
  obtain ⟨w, hw, last, hlast, rfl⟩ := mem_zipWith h
  rcases mem_shift hlast with rfl | hmem
  · exact ⟨le_refl 0, zero_le_two⟩
  · obtain ⟨v, hv, rfl⟩ := List.mem_map.mp hmem
    exact (hall w hw).turns (hall v hv)

/-! ### Values -/

/-- The returns of the window, ticker by ticker. -/
structure Bounded (cfg : FastConfig) (m : Matrix) (lo hi : ℚ) : Prop where
  low : lo ≤ 0
  high : 0 ≤ hi
  within : ∀ r ∈ m.returns_window cfg, ∀ t ∈ m.columns, lo ≤ r t ∧ r t ≤ hi

section Run

variable {cfg : FastConfig} {adapter : Adapter} {m : Matrix} {lo hi : ℚ}

theorem turnover_bounds {x : ℚ} (h : x ∈ turnover m.columns (m.weights_window cfg adapter)) :
    0 ≤ x ∧ x ≤ 2 :=
  mem_turnover (fun _ hw => simplex_target_weights (mem_of_mem_window hw)) h

theorem strategy_returns_bounds (hbounded : Bounded cfg m lo hi) (hslippage : 0 ≤ cfg.slippage) {r : ℚ}
    (h : r ∈ strategy_returns cfg adapter m) : lo - 2 * cfg.slippage ≤ r ∧ r ≤ hi := by
  obtain ⟨gross, hgross, turned, hturned, rfl⟩ := mem_zipWith h
  obtain ⟨w, hw, day, hday, rfl⟩ := mem_zipWith hgross
  have hearns := (simplex_lagged_weights (mem_of_mem_window hw)).earns hbounded.low hbounded.high
    (hbounded.within day hday)
  obtain ⟨hnone, htwice⟩ := turnover_bounds hturned
  constructor
  · nlinarith
  · nlinarith

/-- Growth by bounded returns, from any total. -/
theorem scan_growth_bounds {rs : List ℚ} {a b low high total : ℚ} (ha : 0 ≤ 1 + a)
    (hall : ∀ r ∈ rs, a ≤ r ∧ r ≤ b) (hlow : 0 ≤ low) (htotal : low ≤ total ∧ total ≤ high) {i : ℕ}
    {v : ℚ} (h : (scan (fun total r : ℚ => (total * (1 + r), total * (1 + r))) total rs)[i]? = some v) :
    low * (1 + a) ^ (i + 1) ≤ v ∧ v ≤ high * (1 + b) ^ (i + 1) := by
  induction rs generalizing total low high i with
  | nil => simp [scan] at h
  | cons r rs ih =>
    obtain ⟨hra, hrb⟩ := hall r List.mem_cons_self
    have hnext : low * (1 + a) ≤ total * (1 + r) ∧ total * (1 + r) ≤ high * (1 + b) := by
      constructor
      · exact mul_le_mul htotal.1 (by linarith) ha (le_trans hlow htotal.1)
      · exact mul_le_mul htotal.2 (by linarith) (by linarith)
          (le_trans hlow (le_trans htotal.1 htotal.2))
    cases i with
    | zero =>
      rw [show v = total * (1 + r) from (Option.some.inj h).symm, zero_add, pow_one, pow_one]
      exact hnext
    | succ i =>
      have hrest := ih (fun r hr => hall r (List.mem_cons_of_mem _ hr)) (mul_nonneg hlow ha) hnext h
      rw [mul_assoc, mul_assoc, ← pow_succ', ← pow_succ'] at hrest
      exact hrest

/-- **What a fast run can lose**: with the returns of every ticker between
    `lo` and `hi`, a day costs at most `lo` and the charge for selling and
    buying all of the portfolio. -/
theorem fast_values_bounded {class_name : String} {tickers : List Ticker} {rows : List DailyClose}
    {report : FastReport} (hbounded : Bounded cfg (close_matrix tickers rows) lo hi)
    (hslippage : 0 ≤ cfg.slippage) (hcapital : 0 ≤ cfg.initial_capital)
    (hsafe : 0 ≤ 1 + (lo - 2 * cfg.slippage))
    (hrun : run_fast_vectorized sqrt cfg class_name tickers rows = some report) {i : ℕ} {row : PerfRow}
    (hrow : report.performance[i]? = some row) :
    (1 + (lo - 2 * cfg.slippage)) ^ (i + 1) * cfg.initial_capital ≤ row.portfolio_value ∧
      row.portfolio_value ≤ (1 + hi) ^ (i + 1) * cfg.initial_capital ∧
      0 ≤ row.turnover ∧ row.turnover ≤ 2 := by
  obtain ⟨adapter, hadapter, _, rfl⟩ := (run_fast_vectorized_eq_some sqrt).mp hrun
  have hvalue := congrArg (fun values => values[i]?)
    (@performance_values (close_matrix tickers rows) cfg adapter (causal_adapter hadapter _))
  simp only [List.getElem?_map, hrow, Option.map_some] at hvalue
  obtain ⟨v, hv, heq⟩ := Option.map_eq_some_iff.mp hvalue.symm
  have hstart : (1 : ℚ) ≤ 1 ∧ (1 : ℚ) ≤ 1 := ⟨le_refl 1, le_refl 1⟩
  have hgrowth := scan_growth_bounds hsafe
    (fun r hr => strategy_returns_bounds hbounded hslippage hr) zero_le_one hstart hv
  rw [one_mul, one_mul] at hgrowth
  have hturned : row.turnover ∈ turnover (close_matrix tickers rows).columns
      ((close_matrix tickers rows).weights_window cfg adapter) := by
    obtain ⟨day, _, entry, hentry, heq⟩ := mem_zipWith (List.mem_of_getElem? hrow)
    rw [heq]
    exact (List.of_mem_zip hentry).2
  rw [← heq]
  exact ⟨mul_le_mul_of_nonneg_right hgrowth.1 hcapital,
    mul_le_mul_of_nonneg_right hgrowth.2 hcapital, turnover_bounds hturned⟩

/-- The last row of the sample run. -/
def sample_row : PerfRow := ⟨6, .fin 21, 5214 / 5, 214 / 5000, 0⟩

theorem sample_values_bounded :
    (1 + (0 - 2 * sample_config.slippage)) ^ (6 + 1) * sample_config.initial_capital ≤
        sample_row.portfolio_value ∧
      sample_row.portfolio_value ≤ (1 + 1 / 10) ^ (6 + 1) * sample_config.initial_capital ∧
      0 ≤ sample_row.turnover ∧ sample_row.turnover ≤ 2 := by
  have hbounded : Bounded sample_config (close_matrix sample_tickers sample_rows) 0 (1 / 10) :=
    ⟨by norm_num, by norm_num, by decide +kernel⟩
  exact fast_values_bounded hbounded (by norm_num [sample_config]) (by norm_num [sample_config])
    (by norm_num [sample_config]) sample_run_reports (by decide +kernel)

end Run

end FastMode
