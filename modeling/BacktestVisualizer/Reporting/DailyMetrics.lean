import Mathlib.Order.Bounds.Basic
import Mathlib.Tactic

/-! # Daily Metrics

  `daily_metrics` of `services/reporting.py` computes the figures of a report
  from its daily equity, in exact arithmetic, where every value is finite.
  Roots and powers come from outside.

  The drawdown is found in one pass that keeps the highest equity so far. It
  is the worst fall between any two observations.
-/

namespace DailyMetrics

def PERIODS_PER_YEAR : ℚ := 252
def RISK_FREE_RATE : ℚ := 2 / 100

inductive MetricsError where
  /-- "A completed report needs a finite daily equity series.". -/
  | no_equity
  /-- "Report initial capital must be finite and positive.". -/
  | bad_capital
  deriving DecidableEq, Repr

structure Metrics where
  total_return : Option ℚ
  cagr : Option ℚ
  sharpe : Option ℚ
  sortino : Option ℚ
  max_drawdown : Option ℚ
  volatility : Option ℚ
  deriving DecidableEq, Repr

/-! ### The figures -/

def fmean (xs : List ℚ) : ℚ := xs.sum / xs.length

/-- `current / previous - 1` for every two neighbours. -/
def returns_of (equity : List ℚ) : List ℚ :=
  (equity.zip equity.tail).filterMap fun pair =>
    if pair.1 ≠ 0 then some (pair.2 / pair.1 - 1) else none

/-- The highest equity so far, and the drawdown so far. -/
structure Falls where
  peak : ℚ
  drawdown : ℚ
  deriving DecidableEq, Repr

def Falls.observe (s : Falls) (value : ℚ) : Falls :=
  let peak := max s.peak value
  ⟨peak, min s.drawdown (if peak ≠ 0 then value / peak - 1 else 0)⟩

/-- The loop over the equity, from its first value. -/
def drawdown_of (first : ℚ) (equity : List ℚ) : ℚ :=
  (equity.foldl Falls.observe ⟨first, 0⟩).drawdown

/-- A value that a report can show. -/
def shown (value : Option ℚ) : Option ℚ := value.filter (fun x => |x| < 10000000000)

section Figures

variable (sqrt : ℚ → ℚ) (power : ℚ → ℚ → Option ℚ)

def stdev (xs : List ℚ) : ℚ :=
  sqrt ((xs.map (fun x => (x - fmean xs) ^ 2)).sum / (xs.length - 1))

/-- `None` where the power overflows. -/
def cagr_of (first last : ℚ) (n : ℕ) : Option ℚ :=
  if 2 ≤ n ∧ 0 < first ∧ 0 ≤ last then
    (power (last / first) (PERIODS_PER_YEAR / (n - 1))).map (· - 1)
  else none

/-- `sharpe`, `sortino` and `volatility`. -/
def risk_of (returns : List ℚ) : Option ℚ × Option ℚ × Option ℚ :=
  if 2 ≤ returns.length then
    let excess := returns.map (· - RISK_FREE_RATE / PERIODS_PER_YEAR)
    let deviation := stdev sqrt excess
    let downside := (excess.filter (· < 0)).map (fun x => x * x)
    let downside_deviation := if downside ≠ [] then sqrt (fmean downside) else 0
    (if deviation ≠ 0 then some (fmean excess / deviation * sqrt PERIODS_PER_YEAR) else none,
      if downside_deviation ≠ 0 then
        some (fmean excess / downside_deviation * sqrt PERIODS_PER_YEAR)
      else none,
      some (stdev sqrt returns * sqrt PERIODS_PER_YEAR))
  else (none, none, none)

def daily_metrics (equity : List ℚ) (initial_capital : ℚ) : Except MetricsError Metrics :=
  match equity with
  | [] => .error .no_equity
  | first :: rest =>
      if initial_capital ≤ 0 then .error .bad_capital
      else
        let last := (first :: rest).getLastD first
        let risk := risk_of sqrt (returns_of (first :: rest))
        .ok {
          total_return := shown (some (last / initial_capital - 1))
          cagr := shown (cagr_of power first last (first :: rest).length)
          sharpe := shown risk.1
          sortino := shown risk.2.1
          max_drawdown := shown (some (drawdown_of first (first :: rest)))
          volatility := shown risk.2.2 }

end Figures

/-! ### Falls between two observations -/

/-- From an observation to itself or a later one. -/
def falls (equity : List ℚ) : Set ℚ :=
  {x | ∃ i j, ∃ hij : i ≤ j, ∃ hj : j < equity.length,
    x = equity[j] / equity[i] - 1}

variable {equity : List ℚ} {first : ℚ}

/-- A new observation adds the falls that end with it. -/
theorem mem_falls_append {value x : ℚ} :
    x ∈ falls (equity ++ [value]) ↔
      x ∈ falls equity ∨ ∃ high ∈ equity ++ [value], x = value / high - 1 := by
  constructor
  · intro ⟨i, j, hij, hj, hx⟩
    by_cases hlast : j < equity.length
    · left
      refine ⟨i, j, hij, hlast, ?_⟩
      rw [hx, List.getElem_append_left hlast, List.getElem_append_left (lt_of_le_of_lt hij hlast)]
    · right
      have hj' : j = equity.length := by
        rw [List.length_append, List.length_singleton] at hj
        omega
      subst hj'
      refine ⟨(equity ++ [value])[i], List.getElem_mem _, ?_⟩
      rw [hx, List.getElem_concat_length rfl]
  · intro h
    rcases h with ⟨i, j, hij, hj, hx⟩ | ⟨high, hhigh, hx⟩
    · have hj' : j < (equity ++ [value]).length := by
        rw [List.length_append]
        omega
      refine ⟨i, j, hij, hj', ?_⟩
      rw [hx, List.getElem_append_left hj, List.getElem_append_left (lt_of_le_of_lt hij hj)]
    · obtain ⟨i, hi, hget⟩ := List.getElem_of_mem hhigh
      rw [List.length_append, List.length_singleton] at hi
      refine ⟨i, equity.length, by omega, by simp, ?_⟩
      rw [hx, hget, List.getElem_concat_length rfl]

theorem falls_singleton (h : first ≠ 0) : falls [first] = {0} := by
  ext x
  rw [Set.mem_singleton_iff]
  constructor
  · intro ⟨i, j, hij, hj, hx⟩
    rw [List.length_singleton] at hj
    obtain rfl : j = 0 := by omega
    obtain rfl : i = 0 := by omega
    rw [hx, List.getElem_singleton, div_self h, sub_self]
  · intro hx
    refine ⟨0, 0, le_refl 0, by simp, ?_⟩
    rw [hx, List.getElem_singleton, div_self h, sub_self]

/-! ### The pass over the equity -/

/-- What the pass knows after some observations. -/
structure Known (seen : List ℚ) (s : Falls) : Prop where
  peak : IsGreatest {x | x ∈ seen} s.peak
  drawdown : IsLeast (falls seen) s.drawdown

theorem Known.start (h : first ≠ 0) : Known [first] ⟨first, 0⟩ where
  peak := by
    refine ⟨List.mem_singleton.mpr rfl, ?_⟩
    intro x hx
    exact le_of_eq (List.mem_singleton.mp hx)
  drawdown := by
    rw [falls_singleton h]
    exact isLeast_singleton

/-- One observation more. The peak is among what is behind the new falls, and
    no other start makes them deeper. -/
theorem Known.observe {seen : List ℚ} {s : Falls} {value : ℚ} (h : Known seen s)
    (hseen : ∀ x ∈ seen, 0 < x) (hvalue : 0 < value) :
    Known (seen ++ [value]) (s.observe value) := by
  have hpeak : IsGreatest {x | x ∈ seen ++ [value]} (max s.peak value) := by
    constructor
    · rcases le_total s.peak value with hle | hle
      · rw [max_eq_right hle]
        exact List.mem_append_right _ (List.mem_singleton.mpr rfl)
      · rw [max_eq_left hle]
        exact List.mem_append_left _ h.peak.1
    · intro x hx
      rcases List.mem_append.mp hx with hold | hnew
      · exact le_max_of_le_left (h.peak.2 hold)
      · rw [List.mem_singleton.mp hnew]
        exact le_max_right _ _
  have hpos : 0 < max s.peak value := lt_max_of_lt_right hvalue
  refine ⟨hpeak, ?_⟩
  show IsLeast (falls (seen ++ [value]))
    (min s.drawdown (if max s.peak value ≠ 0 then value / max s.peak value - 1 else 0))
  rw [if_pos (ne_of_gt hpos)]
  constructor
  · rcases le_total s.drawdown (value / max s.peak value - 1) with hle | hle
    · rw [min_eq_left hle]
      exact mem_falls_append.mpr (Or.inl h.drawdown.1)
    · rw [min_eq_right hle]
      exact mem_falls_append.mpr (Or.inr ⟨_, hpeak.1, rfl⟩)
  · intro x hx
    rcases mem_falls_append.mp hx with hold | ⟨high, hhigh, rfl⟩
    · exact min_le_of_left_le (h.drawdown.2 hold)
    · have hhighpos : 0 < high := by
        rcases List.mem_append.mp hhigh with hold | hnew
        · exact hseen high hold
        · rw [List.mem_singleton.mp hnew]
          exact hvalue
      have hle : high ≤ max s.peak value := hpeak.2 hhigh
      apply min_le_of_right_le
      have hdiv : value / max s.peak value ≤ value / high :=
        div_le_div_of_nonneg_left (le_of_lt hvalue) hhighpos hle
      linarith

/-- The whole pass. -/
theorem known_foldl {rest : List ℚ} (hpos : ∀ x ∈ first :: rest, 0 < x) :
    Known (first :: rest) (rest.foldl Falls.observe ⟨first, 0⟩) := by
  induction rest using List.reverseRecOn with
  | nil => exact Known.start (ne_of_gt (hpos first List.mem_cons_self))
  | append_singleton rest value ih =>
    have hrest : ∀ x ∈ first :: rest, 0 < x := by
      intro x hx
      apply hpos
      rw [← List.cons_append]
      exact List.mem_append_left _ hx
    have hvalue : 0 < value := hpos value (by simp)
    rw [List.foldl_append, ← List.cons_append]
    exact (ih hrest).observe hrest hvalue

/-- The first observation is seen twice, and falls by nothing. -/
theorem drawdown_isLeast {rest : List ℚ} (hpos : ∀ x ∈ first :: rest, 0 < x) :
    IsLeast (falls (first :: rest)) (drawdown_of first (first :: rest)) := by
  have hfirst : first ≠ 0 := ne_of_gt (hpos first List.mem_cons_self)
  have hsame : (⟨first, 0⟩ : Falls).observe first = ⟨first, 0⟩ := by
    unfold Falls.observe
    simp only [max_self]
    rw [if_pos hfirst, div_self hfirst, sub_self, min_self]
  unfold drawdown_of
  rw [List.foldl_cons, hsame]
  exact (known_foldl hpos).drawdown

/-- No fall takes everything. -/
theorem falls_gt (hpos : ∀ x ∈ equity, 0 < x) {x : ℚ} (hx : x ∈ falls equity) : -1 < x := by
  obtain ⟨i, j, hij, hj, rfl⟩ := hx
  have hlow : 0 < equity[j] := hpos _ (List.getElem_mem hj)
  have hhigh : 0 < equity[i] := hpos _ (List.getElem_mem (lt_of_le_of_lt hij hj))
  have hratio := div_pos hlow hhigh
  linarith

/-- The unit of the equity does not matter. -/
theorem falls_scale {c : ℚ} (hc : c ≠ 0) : falls (equity.map (c * ·)) = falls equity := by
  ext x
  unfold falls
  simp only [Set.mem_ofPred_eq, List.length_map, List.getElem_map]
  constructor
  · intro ⟨i, j, hij, hj, hx⟩
    exact ⟨i, j, hij, hj, by rw [hx, mul_div_mul_left _ _ hc]⟩
  · intro ⟨i, j, hij, hj, hx⟩
    exact ⟨i, j, hij, hj, by rw [hx, mul_div_mul_left _ _ hc]⟩

/-! ### The drawdown of a report -/

/-- What the report shows for a drawdown, it shows as it is. -/
theorem shown_drawdown {x : ℚ} (hlow : -1 < x) (hhigh : x ≤ 0) : shown (some x) = some x := by
  unfold shown
  rw [Option.filter_some, if_pos]
  rw [decide_eq_true_eq, abs_lt]
  constructor
  · linarith
  · linarith

/-- **The reported drawdown is the true one**: the worst fall between any two
    observations, in whatever unit the equity is counted. -/
theorem max_drawdown_true (sqrt : ℚ → ℚ) (power : ℚ → ℚ → Option ℚ) {equity : List ℚ}
    {initial_capital : ℚ} (hsome : equity ≠ []) (hpos : ∀ x ∈ equity, 0 < x)
    (hcapital : 0 < initial_capital) :
    ∃ metrics drawdown, daily_metrics sqrt power equity initial_capital = .ok metrics ∧
      metrics.max_drawdown = some drawdown ∧ IsLeast (falls equity) drawdown ∧
      -1 < drawdown ∧ drawdown ≤ 0 ∧
      ∀ c capital, 0 < c → 0 < capital →
        ∃ scaled, daily_metrics sqrt power (equity.map (c * ·)) capital = .ok scaled ∧
          scaled.max_drawdown = some drawdown := by
  obtain ⟨first, rest, rfl⟩ := List.exists_cons_of_ne_nil hsome
  have hleast := drawdown_isLeast hpos
  have hlow := falls_gt hpos hleast.1
  have hhigh : drawdown_of first (first :: rest) ≤ 0 := by
    have hfirst : first ≠ 0 := ne_of_gt (hpos first List.mem_cons_self)
    have hnone : (0 : ℚ) ∈ falls (first :: rest) := by
      refine ⟨0, 0, le_refl 0, by simp, ?_⟩
      rw [List.getElem_cons_zero, div_self hfirst, sub_self]
    exact hleast.2 hnone
  refine ⟨_, _, if_neg (not_le.mpr hcapital), shown_drawdown hlow hhigh, hleast, hlow, hhigh, ?_⟩
  intro c capital hc hcapital'
  refine ⟨_, if_neg (not_le.mpr hcapital'), ?_⟩
  have hscaled : ∀ x ∈ c * first :: rest.map (c * ·), 0 < x := by
    intro x hx
    rw [← List.map_cons (f := (c * ·))] at hx
    obtain ⟨y, hy, rfl⟩ := List.mem_map.mp hx
    exact mul_pos hc (hpos y hy)
  have hsame : drawdown_of (c * first) (c * first :: rest.map (c * ·)) =
      drawdown_of first (first :: rest) := by
    have hleast' := drawdown_isLeast hscaled
    rw [← List.map_cons (f := (c * ·)), falls_scale (ne_of_gt hc)] at hleast'
    exact hleast'.unique hleast
  show shown (some (drawdown_of (c * first) (c * first :: rest.map (c * ·)))) = _
  rw [hsame]
  exact shown_drawdown hlow hhigh

/-- A series that falls and recovers. -/
theorem max_drawdown_of_four : ∃ metrics drawdown,
    daily_metrics (fun x => x) (fun _ _ => none) [2, 4, 1, 3] 2 = .ok metrics ∧
      metrics.max_drawdown = some drawdown ∧ IsLeast (falls [2, 4, 1, 3]) drawdown := by
  have hsome : ([2, 4, 1, 3] : List ℚ) ≠ [] := by simp
  have hpos : ∀ x ∈ ([2, 4, 1, 3] : List ℚ), 0 < x := by simp
  have hcapital : (0 : ℚ) < 2 := by norm_num
  obtain ⟨metrics, drawdown, hmetrics, hshown, hleast, _⟩ :=
    max_drawdown_true (fun x => x) (fun _ _ => none) hsome hpos hcapital
  exact ⟨metrics, drawdown, hmetrics, hshown, hleast⟩

end DailyMetrics
