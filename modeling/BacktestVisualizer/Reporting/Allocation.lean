import BacktestVisualizer.Engine.StrategyContext
import BacktestVisualizer.Reporting.Benchmark

/-! # What Is Traded and What It Is Compared With

  `_allocation_weight` of `engine/strategies/order_interface.py` sizes the
  orders of a strategy, `benchmark_weights` of `engine/analytics/reporting.py`
  the holdings it is compared with. Each reads the configured `WEIGHTS` on
  its own. `share` says what a configuration gives a ticker, and both are
  shown to compute it.
-/

open Engine

namespace Reporting

/-! ### `_allocation_weight` -/

/-- `_portfolio_config`, as far as `_allocation_weight` reads it. -/
structure PortfolioConfig where
  tickers : List String
  weights : RawWeights

/-- `float(weight)` and the check of it. -/
def checked_weight (weight : Option PyFloat) : Except OrderError PyFloat :=
  match weight with
  | none => .error .not_a_number
  | some weight =>
      if weight.is_finite ∧ ¬ weight < .fin 0 then .ok weight else .error .weights_values

/-- `_allocation_weight`, of any text as the ticker. -/
def config_allocation_weight (config : PortfolioConfig) (ticker : String) :
    Except OrderError PyFloat :=
  let tickers := universe_of config.tickers
  if ticker ∉ tickers then .ok (.fin 0)
  else
    match config.weights with
    | .absent => .ok (.fin (1 / tickers.length))
    | .mapping weights => checked_weight ((weights.get ticker).getD (some (.fin 0)))
    | .sequence weights =>
        if weights.length = tickers.length then
          checked_weight (weights.getD (tickers.idxOf ticker) none)
        else .error .weights_shape
    | .other => .error .weights_shape

/-- The `weights` a context holds of a configured `WEIGHTS`. -/
def RawWeights.in_context : RawWeights → Weights
  | .absent => .absent
  | .mapping weights => .mapping (fun ticker => weights.get ticker.symbol)
  | .sequence weights => .listed weights
  | .other => .other

/-! ### What a configuration gives -/

/-- The cell of `WEIGHTS` that speaks of a ticker of the universe; `none`
    where the shape fits no universe. -/
def weight_cell (weights : RawWeights) (tickers : List String) (ticker : String) :
    Option (Option PyFloat) :=
  match weights with
  | .absent => some (some (.fin (1 / tickers.length)))
  | .mapping weights => some ((weights.get ticker).getD (some (.fin 0)))
  | .sequence weights =>
      if weights.length = tickers.length then some (weights.getD (tickers.idxOf ticker) none)
      else none
  | .other => none

/-- The share of the capital a configuration gives a ticker of its universe. -/
def share (weights : RawWeights) (tickers : List String) (ticker : String) : Option ℚ :=
  (weight_cell weights tickers ticker).bind weight_value

/-! ### The strategy reads the share -/

theorem checked_weight_ok {cell : Option PyFloat} {x : PyFloat} :
    checked_weight cell = .ok x ↔ ∃ w, weight_value cell = some w ∧ x = .fin w := by
  cases cell with
  | none => simp [checked_weight, weight_value]
  | some weight =>
    cases weight with
    | fin q =>
      by_cases hq : 0 ≤ q
      · have hnot : ¬ PyFloat.fin q < PyFloat.fin 0 := by
          rw [PyFloat.fin_lt]
          exact not_lt.mpr hq
        simp [checked_weight, weight_value, hq, eq_comm]
      · simp [checked_weight, weight_value, hq, lt_of_not_ge hq]
    | pos_inf => simp [checked_weight, weight_value, PyFloat.is_finite]
    | neg_inf => simp [checked_weight, weight_value, PyFloat.is_finite]
    | nan => simp [checked_weight, weight_value, PyFloat.is_finite]

theorem mem_universe_of {tickers : List String} {t : String} :
    t ∈ universe_of tickers ↔ t ∈ tickers := by
  constructor
  · exact Batches.mem_of_mem_drop_duplicates
  · intro h
    have hkept : ∃ b ∈ universe_of tickers, b = t := Batches.exists_mem_drop_duplicates h
    obtain ⟨b, hb, rfl⟩ := hkept
    exact hb

variable {config : PortfolioConfig} {weights : RawWeights} {tickers : List String}
  {t : String} {x : PyFloat}

theorem allocation_outside (h : t ∉ config.tickers) :
    config_allocation_weight config t = .ok (.fin 0) := by
  unfold config_allocation_weight
  exact if_pos (fun hmem => h (mem_universe_of.mp hmem))

/-- Inside the universe the strategy reads the share. -/
theorem allocation_inside (h : t ∈ config.tickers) :
    config_allocation_weight config t = .ok x ↔
      ∃ w, share config.weights (universe_of config.tickers) t = some w ∧ x = .fin w := by
  unfold config_allocation_weight share weight_cell
  have hmem : ¬ t ∉ universe_of config.tickers := not_not.mpr (mem_universe_of.mpr h)
  simp only [if_neg hmem]
  cases config.weights with
  | absent =>
    have hshare : (0 : ℚ) ≤ 1 / (universe_of config.tickers).length := by positivity
    simp [weight_value, eq_comm]
  | mapping weights => exact checked_weight_ok
  | sequence weights =>
    by_cases hlen : weights.length = (universe_of config.tickers).length
    · simp only [if_pos hlen]
      exact checked_weight_ok
    · simp [if_neg hlen]
  | other => simp

/-! ### The context's own reading -/

theorem symbol_injective : Function.Injective Ticker.symbol := by
  intro a b h
  cases a
  cases b
  simpa using h

/-- Both ways of removing duplicates leave the same tickers. -/
theorem universe_of_symbols (tickers : List Ticker) :
    universe_of (tickers.map Ticker.symbol) = tickers.eraseDups.map Ticker.symbol := by
  -- `eraseDups` filters before it recurses, so the induction is on the length
  induction hn : tickers.length using Nat.strong_induction_on generalizing tickers with
  | _ n ih =>
    cases tickers with
    | nil => rfl
    | cons t rest =>
      have hshort : (rest.filter (fun b => !b == t)).length < n := by
        have := List.length_filter_le (fun b => !b == t) rest
        rw [List.length_cons] at hn
        omega
      have hsame : (fun b : Ticker => !b == t) = (fun b => !b.symbol == t.symbol) := by
        funext b
        by_cases hb : b = t
        · simp [hb]
        · have hsymbol : b.symbol ≠ t.symbol := fun h => hb (symbol_injective h)
          simp [hb, hsymbol]
      rw [List.eraseDups_cons, List.map_cons, List.map_cons, ← ih _ hshort _ rfl, hsame]
      show t.symbol :: (universe_of _).filter (fun b => b ≠ t.symbol) = _
      congr 1
      rw [← Function.comp_def (fun b => !b == t.symbol), List.filter_map.symm]
      have hne : (fun b : String => decide (b ≠ t.symbol)) = (fun b => !b == t.symbol) := by
        funext b
        by_cases hb : b = t.symbol <;> simp [hb]
      rw [hne]
      exact Batches.filter_drop_duplicates (fun b => !b == t.symbol) _

theorem idxOf_map {f : Ticker → String} (hf : Function.Injective f) (t : Ticker)
    (tickers : List Ticker) : (tickers.map f).idxOf (f t) = tickers.idxOf t := by
  induction tickers with
  | nil => rfl
  | cons u rest ih =>
    by_cases hu : u = t
    · simp [hu]
    · rw [List.map_cons, List.idxOf_cons_ne _ (fun h => hu (hf h)), List.idxOf_cons_ne _ hu, ih]

/-- A context whose configuration names these tickers and weights allocates
    by them. -/
theorem allocation_weight_eq {ctx : StrategyContext} (h : ctx.weights = weights.in_context)
    (t : Ticker) :
    allocation_weight ctx t =
      config_allocation_weight ⟨ctx.tickers.map Ticker.symbol, weights⟩ t.symbol := by
  unfold allocation_weight config_allocation_weight
  have hmem : t.symbol ∈ universe_of (ctx.tickers.map Ticker.symbol) ↔
      t ∈ ctx.tickers.eraseDups := by
    rw [universe_of_symbols]
    exact List.mem_map_of_injective symbol_injective
  have hlength : (universe_of (ctx.tickers.map Ticker.symbol)).length =
      ctx.tickers.eraseDups.length := by
    rw [universe_of_symbols, List.length_map]
  have hindex : (universe_of (ctx.tickers.map Ticker.symbol)).idxOf t.symbol =
      ctx.tickers.eraseDups.idxOf t := by
    rw [universe_of_symbols, idxOf_map symbol_injective]
  simp only [hmem, hlength, hindex, h]
  cases weights with
  | absent => rfl
  | mapping weights => rfl
  | sequence weights => rfl
  | other => rfl

/-! ### The benchmark reads the share -/

theorem PyDict.mem_of_get {β : Type} {d : PyDict β} {key : String} {value : β}
    (h : d.get key = some value) : (key, value) ∈ d.items := by
  obtain ⟨item, hitem, hvalue⟩ := Option.map_eq_some_iff.mp h
  have hkey : item.1 = key := by simpa using List.find?_some hitem
  rw [← hkey, ← hvalue]
  exact List.mem_of_find?_eq_some hitem

theorem PyDict.eq_iff {β : Type} {d e : PyDict β} : d = e ↔ d.items = e.items := by
  cases d
  cases e
  simp

theorem read_weights_ok {raw : PyDict (Option PyFloat)} {cell : String → Option PyFloat}
    {shares : PyDict ℚ} (hraw : raw.items = tickers.map (fun t => (t, cell t))) :
    read_weights raw = .ok shares ↔
      (∀ t ∈ tickers, ∃ w, weight_value (cell t) = some w) ∧
      shares.items = tickers.map (fun t => (t, (weight_value (cell t)).getD 0)) := by
  have hall : (∀ item ∈ raw.items, (weight_value item.2).isSome) ↔
      ∀ t ∈ tickers, ∃ w, weight_value (cell t) = some w := by
    rw [hraw, List.forall_mem_map]
    simp only [Option.isSome_iff_exists]
  have hitems : (raw.map (fun w => (weight_value w).getD 0)).items =
      tickers.map (fun t => (t, (weight_value (cell t)).getD 0)) := by
    show raw.items.map _ = _
    rw [hraw, List.map_map]
    rfl
  unfold read_weights
  rw [← hall, ← hitems]
  by_cases hvalid : ∀ item ∈ raw.items, (weight_value item.2).isSome
  · rw [if_pos hvalid, Except.ok.injEq, PyDict.eq_iff]
    exact ⟨fun h => ⟨hvalid, h.symm⟩, fun h => h.2.symm⟩
  · rw [if_neg hvalid]
    exact ⟨fun h => absurd h (by simp), fun h => absurd h.1 hvalid⟩

/-- A positional list, read as a dictionary. -/
theorem zip_eq_map (hdistinct : tickers.Nodup) {cells : List (Option PyFloat)}
    (hlen : cells.length = tickers.length) :
    tickers.zip cells = tickers.map (fun t => (t, cells.getD (tickers.idxOf t) none)) := by
  apply List.ext_getElem
  · simp [hlen]
  · intro i hi hj
    have hi' : i < tickers.length := by simpa using hj
    simp [hdistinct.idxOf_getElem i hi', hlen, hi']

/-- The benchmark accepts when every ticker has a share, and holds the shares. -/
theorem benchmark_weights_ok {shares : PyDict ℚ} :
    benchmark_weights weights (some tickers) = .ok shares ↔
      (∀ t ∈ universe_of tickers, ∃ w, share weights (universe_of tickers) t = some w) ∧
      shares.items = (universe_of tickers).map
        (fun t => (t, (share weights (universe_of tickers) t).getD 0)) := by
  have hdistinct := universe_of_nodup tickers
  unfold benchmark_weights
  by_cases hkeys : benchmark_universe weights (some tickers) = []
  · -- no ticker, and `WEIGHTS` is not looked at
    rw [if_pos hkeys, Except.ok.injEq, PyDict.eq_iff]
    have hempty : universe_of tickers = [] := hkeys
    simp [hempty, eq_comm]
  · rw [if_neg hkeys]
    cases weights with
    | absent =>
      have hshare : ∀ t, share .absent (universe_of tickers) t = some (1 / ((universe_of tickers).length : ℚ)) := by
        intro t
        have hnonneg : (0 : ℚ) ≤ 1 / (universe_of tickers).length := by positivity
        exact if_pos hnonneg
      show Except.ok (PyDict.from_keys (universe_of tickers) hdistinct
        (fun _ => 1 / ((universe_of tickers).length : ℚ))) = _ ↔ _
      simp only [hshare, Except.ok.injEq, PyDict.eq_iff, PyDict.from_keys]
      simp [eq_comm]
    | mapping weights => exact read_weights_ok rfl
    | sequence cells =>
      by_cases hlen : (universe_of tickers).length = cells.length
      · have hzip : (((universe_of tickers).zip cells).map Prod.fst).Nodup := by
          rwa [List.map_fst_zip (le_of_eq hlen)]
        have hshare : ∀ t, share (.sequence cells) (universe_of tickers) t =
            weight_value (cells.getD ((universe_of tickers).idxOf t) none) := by
          intro t
          simp only [share, weight_cell, if_pos hlen.symm, Option.bind_some]
        simp only [hshare]
        have hraw : (⟨(universe_of tickers).zip cells, hzip⟩ : PyDict _).items = _ :=
          zip_eq_map hdistinct hlen.symm
        rw [← read_weights_ok hraw]
        exact iff_of_eq (congrArg (· = _) (dif_pos hlen))
      · obtain ⟨t, ht⟩ := List.exists_mem_of_ne_nil _ hkeys
        have hshare : share (.sequence cells) (universe_of tickers) t = none := by
          simp only [share, weight_cell, if_neg (Ne.symm hlen), Option.bind_none]
        have hrefused : (if hlen : (universe_of tickers).length = cells.length then
            read_weights ⟨(universe_of tickers).zip cells, by
              rwa [List.map_fst_zip (le_of_eq hlen)]⟩
            else .error .weights_shape) = Except.error BenchmarkError.weights_shape := dif_neg hlen
        refine ⟨fun h => absurd (hrefused.symm.trans h) (by simp), fun h => ?_⟩
        obtain ⟨w, hw⟩ := h.1 t ht
        rw [hshare] at hw
        cases hw
    | other =>
      obtain ⟨t, ht⟩ := List.exists_mem_of_ne_nil _ hkeys
      exact ⟨fun h => absurd h (by simp), fun h => by
        obtain ⟨w, hw⟩ := h.1 t ht
        cases hw⟩

/-! ### Both read the same -/

/-- What the benchmark holds is what the strategy allocates, and a
    configuration the strategy reads for its whole universe is one the
    benchmark reads. -/
theorem allocation_reads_as_benchmark (config : PortfolioConfig) :
    (∀ shares, benchmark_weights config.weights (some config.tickers) = .ok shares →
      shares.keys = universe_of config.tickers ∧
      (∀ t w, shares.get t = some w → config_allocation_weight config t = .ok (.fin w)) ∧
      ∀ t, t ∉ universe_of config.tickers → config_allocation_weight config t = .ok (.fin 0)) ∧
    ((∀ t ∈ universe_of config.tickers, ∃ x, config_allocation_weight config t = .ok x) →
      ∃ shares, benchmark_weights config.weights (some config.tickers) = .ok shares) := by
  constructor
  · intro shares hbenchmark
    obtain ⟨hall, hitems⟩ := benchmark_weights_ok.mp hbenchmark
    refine ⟨?_, ?_, ?_⟩
    · show shares.items.map Prod.fst = _
      rw [hitems, List.map_map]
      exact List.map_id _
    · intro t w hget
      have hmem := PyDict.mem_of_get hget
      rw [hitems] at hmem
      obtain ⟨t', ht', heq⟩ := List.mem_map.mp hmem
      cases heq
      obtain ⟨w, hw⟩ := hall t ht'
      rw [hw]
      exact (allocation_inside (mem_universe_of.mp ht')).mpr ⟨w, hw, rfl⟩
    · intro t ht
      exact allocation_outside (fun hmem => ht (mem_universe_of.mpr hmem))
  · intro hall
    have hshare : ∀ t ∈ universe_of config.tickers,
        ∃ w, share config.weights (universe_of config.tickers) t = some w := by
      intro t ht
      obtain ⟨x, hx⟩ := hall t ht
      obtain ⟨w, hw, -⟩ := (allocation_inside (mem_universe_of.mp ht)).mp hx
      exact ⟨w, hw⟩
    exact ⟨.from_keys _ (universe_of_nodup _) _, benchmark_weights_ok.mpr ⟨hshare, rfl⟩⟩

end Reporting
