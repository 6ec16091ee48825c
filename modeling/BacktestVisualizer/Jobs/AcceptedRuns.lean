import BacktestVisualizer.Jobs.RunOverlay

/-! # What an Accepted Form Gives the Worker

  `_build_request` of `workers/run_job.py` reads numbers and lists out of the
  stored parameters with no check of its own. What `split_controls` and
  `_validated_params` let through is of the kinds it reads, within the bounds
  of the form; only the gate may still fail to load.
-/

namespace RunControls

variable {normalise : String → String} {settings : Settings} {raw params controls : Params}
  {default_universe selected : List String} {mode : String} {strategy : RunnableStrategy}

/-! ### The values of the controls -/

/-- What may stand under the controls the worker reads. -/
inductive Allowed : String → Value → Prop where
  | slippage (x : ℚ) (h : 0 ≤ x ∧ x ≤ 1000) : Allowed "slippageBps" (.float (.fin x))
  | commission (x : ℚ) (h : 0 ≤ x ∧ x ≤ 100) : Allowed "commissionPerShare" (.float (.fin x))
  | gate (x : ℚ) (h : -1 ≤ x ∧ x ≤ 0) : Allowed "sentimentGate"
      (.dict [("enabled", .bool true), ("threshold", .float (.fin x))])
  | bar_size (n : ℤ) (h : n ∈ bar_seconds_choices ∧ n / 60 < session_minutes) :
      Allowed "BAR_INTERVAL_SECONDS" (.int n)

/-- What an allowed value under one of the keys is. -/
theorem Allowed.cases_key {key : String} {value : Value} (h : Allowed key value) :
    (key = "slippageBps" → ∃ x, value = .float (.fin x) ∧ 0 ≤ x ∧ x ≤ 1000) ∧
    (key = "commissionPerShare" → ∃ x, value = .float (.fin x) ∧ 0 ≤ x ∧ x ≤ 100) ∧
    (key = "sentimentGate" → ∃ x, value = .dict [("enabled", .bool true),
      ("threshold", .float (.fin x))] ∧ -1 ≤ x ∧ x ≤ 0) ∧
    (key = "BAR_INTERVAL_SECONDS" → ∃ n, value = .int n ∧ n ∈ bar_seconds_choices ∧
      n / 60 < session_minutes) := by
  cases h with
  | slippage x hx =>
    exact ⟨fun _ => ⟨x, rfl, hx⟩, fun h => absurd h (by decide), fun h => absurd h (by decide),
      fun h => absurd h (by decide)⟩
  | commission x hx =>
    exact ⟨fun h => absurd h (by decide), fun _ => ⟨x, rfl, hx⟩, fun h => absurd h (by decide),
      fun h => absurd h (by decide)⟩
  | gate x hx =>
    exact ⟨fun h => absurd h (by decide), fun h => absurd h (by decide), fun _ => ⟨x, rfl, hx⟩,
      fun h => absurd h (by decide)⟩
  | bar_size n hn =>
    exact ⟨fun h => absurd h (by decide), fun h => absurd h (by decide),
      fun h => absurd h (by decide), fun _ => ⟨n, rfl, hn⟩⟩

/-- The controls with a kind of their own. -/
def ranged_keys : List String :=
  ["slippageBps", "commissionPerShare", "sentimentGate", "BAR_INTERVAL_SECONDS"]

/-- The controls so far are known, and have the kinds and the bounds of the
    form. -/
def Ranged (controls : Params) : Prop :=
  ∀ key value, controls.get key = some value →
    (key ∈ recorded_keys ∨ key ∈ overlay_keys) ∧ (key ∈ ranged_keys → Allowed key value)

theorem ranged_empty : Ranged ∅ := fun _ _ h => absurd h (by simp)

theorem Ranged.insert (h : Ranged controls) {key : String} {value : Value}
    (hkey : key ∈ recorded_keys ∨ key ∈ overlay_keys)
    (hvalue : key ∈ ranged_keys → Allowed key value) : Ranged (controls.insert key value) := by
  intro other v hv
  rw [Keyed.get_insert] at hv
  by_cases heq : other = key
  · subst heq
    rw [if_pos rfl] at hv
    rw [← Option.some.inj hv]
    exact ⟨hkey, hvalue⟩
  · rw [if_neg heq] at hv
    exact h other v hv

/-- A control of another kind. -/
theorem Ranged.insert_other (h : Ranged controls) {key : String} (value : Value)
    (hkey : (key ∈ recorded_keys ∨ key ∈ overlay_keys) ∧ key ∉ ranged_keys) :
    Ranged (controls.insert key value) :=
  h.insert hkey.1 (fun hmem => absurd hmem hkey.2)

theorem ranged_universe_controls
    (h : universe_controls normalise raw default_universe = .ok (controls, selected)) :
    Ranged controls := by
  unfold universe_controls at h
  split at h
  · obtain ⟨rfl, _⟩ := Prod.mk.inj (Except.ok.inj h)
    exact ranged_empty
  · obtain ⟨tickers, _, hrest⟩ := Fallible.bind_ok h
    simp only at hrest
    split at hrest
    · obtain ⟨rfl, _⟩ := Prod.mk.inj (Except.ok.inj hrest)
      exact ranged_empty.insert_other _ (by decide)
    · obtain ⟨rfl, _⟩ := Prod.mk.inj (Except.ok.inj hrest)
      exact ((ranged_empty.insert_other _ (by decide)).insert_other _ (by decide)).insert_other _
        (by decide)

theorem ranged_weights_controls {controls' : Params} (hranged : Ranged controls)
    (h : weights_controls normalise raw selected controls = .ok controls') : Ranged controls' := by
  unfold weights_controls at h
  split at h
  · rw [← Except.ok.inj h]
    exact hranged
  · obtain ⟨weights, _, hrest⟩ := Fallible.bind_ok h
    rw [← Except.ok.inj hrest]
    exact ((hranged.insert_other _ (by decide)).insert_other _ (by decide)).insert_other _
      (by decide)

theorem ranged_amount_control {controls' : Params} {amount : String × ℕ}
    (hamount : amount ∈ amounts) (h : amount_control raw controls amount = .ok controls')
    (hranged : Ranged controls) : Ranged controls' := by
  unfold amount_control at h
  split at h
  · rw [← Except.ok.inj h]
    exact hranged
  · obtain ⟨number, _, hrest⟩ := Fallible.bind_ok h
    cases number with
    | none => exact absurd hrest (by simp)
    | some x =>
      simp only at hrest
      split at hrest
      · rename_i hbounds
        rw [← Except.ok.inj hrest]
        have hamounts : ∀ amount ∈ amounts, amount.1 ∈ recorded_keys := by decide
        apply hranged.insert (.inl (hamounts amount hamount))
        intro _
        -- the two amounts have bounds of their own
        unfold amounts at hamount
        rcases List.mem_cons.mp hamount with rfl | hamount
        · exact .slippage x (by simpa using hbounds)
        · obtain rfl := List.mem_singleton.mp hamount
          exact .commission x (by simpa using hbounds)
      · exact absurd hrest (by simp)

theorem bar_seconds_mem {value : Value} {n : ℤ} (h : bar_seconds value = some n) :
    n ∈ bar_seconds_choices := by
  unfold bar_seconds at h
  split at h
  · split at h
    · rename_i hmem
      rw [← Option.some.inj h]
      exact hmem
    · exact absurd h (by simp)
  · exact List.mem_of_find?_eq_some h
  · exact absurd h (by simp)

theorem ranged_bar_controls {controls' : Params} (hranged : Ranged controls)
    (h : bar_controls raw mode controls = .ok controls') : Ranged controls' := by
  unfold bar_controls at h
  split at h
  · rw [← Except.ok.inj h]
    exact hranged
  · obtain ⟨entries, hentries, hrest⟩ := Fallible.bind_ok h
    rw [← Except.ok.inj hrest]
    unfold bar_interval_controls at hentries
    split at hentries
    · exact absurd hentries (by simp)
    · rename_i seconds hseconds
      have hlabel : Ranged (controls.insert "barIntervalSeconds" (.int seconds)) :=
        hranged.insert_other _ (by decide)
      split at hentries
      · rename_i hshort
        split at hentries
        · exact absurd hentries (by simp)
        · obtain rfl := Except.ok.inj hentries
          have hbar : Ranged ((controls.insert "barIntervalSeconds" (.int seconds)).insert
              "BAR_INTERVAL_SECONDS" (.int seconds)) :=
            hlabel.insert (by decide) (fun _ => .bar_size seconds ⟨bar_seconds_mem hseconds, hshort⟩)
          exact hbar.insert_other (.int 0) (by decide)
      · obtain rfl := Except.ok.inj hentries
        exact hlabel

theorem ranged_gate_controls {controls' : Params} (hranged : Ranged controls)
    (h : gate_controls settings raw mode controls = .ok controls') : Ranged controls' := by
  unfold gate_controls at h
  split at h
  · rw [← Except.ok.inj h]
    exact hranged
  · obtain ⟨gate, hgate, hrest⟩ := Fallible.bind_ok h
    cases gate with
    | none =>
      rw [← Except.ok.inj hrest]
      exact hranged
    | some gate =>
      rw [← Except.ok.inj hrest]
      apply hranged.insert (by decide)
      intro _
      -- the gate is stored with its switch and its threshold only
      unfold validated_sentiment_gate at hgate
      split at hgate
      · split at hgate
        · exact absurd hgate (by simp)
        · obtain ⟨number, _, hthreshold⟩ := Fallible.bind_ok hgate
          cases number with
          | none => exact absurd hthreshold (by simp)
          | some x =>
            simp only at hthreshold
            split at hthreshold
            · exact absurd hthreshold (by simp)
            · rename_i hbounds
              split at hthreshold
              · exact absurd hthreshold (by simp)
              · split at hthreshold
                · exact absurd hthreshold (by simp)
                · rw [← Option.some.inj (Except.ok.inj hthreshold)]
                  exact .gate x (not_not.mp hbounds)
        · exact absurd hgate (by simp)
      · exact absurd hgate (by simp)

theorem split_controls_ranged
    (h : split_controls normalise settings raw default_universe mode =
      .ok (params, controls, selected)) :
    params = Keyed.erase_all raw control_keys ∧ Ranged controls := by
  unfold split_controls at h
  obtain ⟨⟨controls₁, selected₁⟩, h₁, hrest₁⟩ := Fallible.bind_ok h
  obtain ⟨controls₂, h₂, hrest₂⟩ := Fallible.bind_ok hrest₁
  obtain ⟨controls₃, h₃, hrest₃⟩ := Fallible.bind_ok hrest₂
  have hranged₂ := ranged_weights_controls (ranged_universe_controls h₁) h₂
  have hranged₃ : Ranged controls₃ := by
    apply Fallible.foldlM_preserves (P := Ranged) _ h₃ hranged₂
    intro _ _ amount hamount hstep hold
    exact ranged_amount_control hamount hstep hold
  split at hrest₃
  · exact absurd hrest₃ (by simp)
  · obtain ⟨controls₄, h₄, hrest₄⟩ := Fallible.bind_ok hrest₃
    have hranged₄ := ranged_bar_controls hranged₃ h₄
    split at hrest₄
    · exact absurd hrest₄ (by simp)
    · obtain ⟨controls₅, h₅, hrest₅⟩ := Fallible.bind_ok hrest₄
      cases hrest₅
      exact ⟨rfl, ranged_gate_controls hranged₄ h₅⟩

/-! ### The strategy's parameters -/

/-- The bounds of a specification. -/
structure InRange (spec : ParamSpec) (number : ℚ) : Prop where
  above : ∀ minimum ∈ spec.minimum, ¬ PyFloat.fin number < minimum
  below : ∀ maximum ∈ spec.maximum, ¬ maximum < PyFloat.fin number

/-- What a parameter may be, by the type of its specification. -/
inductive Meets (spec : ParamSpec) : Value → Prop where
  | boolean (b : Bool) (h : spec.type = "boolean") : Meets spec (.bool b)
  | whole (n : ℤ) (h : spec.type ≠ "boolean") (hrange : InRange spec n) : Meets spec (.int n)
  | number (q : ℚ) (h : spec.type ≠ "boolean" ∧ spec.type ≠ "integer") (hrange : InRange spec q) :
      Meets spec (.float (.fin q))

theorem check_param_range_ok {key : String} {number : ℚ} {spec : ParamSpec}
    (h : check_param_range key number spec = .ok ()) : InRange spec number := by
  unfold check_param_range at h
  split at h
  · exact absurd h (by simp)
  · rename_i hmin
    split at h
    · exact absurd h (by simp)
    · rename_i hmax
      constructor
      · intro minimum hminimum hlt
        rw [Option.mem_def] at hminimum
        simp [hminimum, Option.filter, hlt] at hmin
      · intro maximum hmaximum hlt
        rw [Option.mem_def] at hmaximum
        simp [hmaximum, Option.filter, hlt] at hmax

theorem den_of_not_fractional {value : Value} {number : ℚ}
    (hfinite : finite_number value = .ok (some number)) (h : is_fractional value number = false) :
    number.den = 1 := by
  cases value with
  | int n =>
    simp only [finite_number] at hfinite
    split at hfinite
    · exact absurd hfinite (by simp)
    · rw [← Option.some.inj (Except.ok.inj hfinite)]
      exact Rat.den_intCast n
  | _ => simpa [is_fractional] using h

theorem validated_param_value_ok {key : String} {value v : Value} {spec : ParamSpec}
    (h : validated_param_value key value spec = .ok v) : Meets spec v := by
  unfold validated_param_value at h
  split at h
  · rename_i htype
    split at h
    · rw [← Except.ok.inj h]
      exact .boolean _ htype
    · exact absurd h (by simp)
  · rename_i htype
    split at h
    · exact absurd h (by simp)
    · rename_i hnumber
      split at h
      · exact absurd h (by simp)
      · exact absurd h (by simp)
      · rename_i number hfinite
        split at h
        · rename_i hinteger
          split at h
          · exact absurd h (by simp)
          · rename_i hwhole
            obtain ⟨⟨⟩, hcheck, hv⟩ := Fallible.bind_ok h
            rw [← Except.ok.inj hv]
            have hnum : (number.num : ℚ) = number := by
              rw [← Rat.den_eq_one_iff]
              exact den_of_not_fractional hfinite (by simpa using hwhole)
            refine .whole _ htype ?_
            rw [hnum]
            exact check_param_range_ok hcheck
        · rename_i hother
          obtain ⟨⟨⟩, hcheck, hv⟩ := Fallible.bind_ok h
          rw [← Except.ok.inj hv]
          have hrange := check_param_range_ok hcheck
          -- the value is the number it was read as
          cases value with
          | int n =>
            have hn : number = n := by
              simp only [finite_number] at hfinite
              split at hfinite
              · exact absurd hfinite (by simp)
              · exact (Option.some.inj (Except.ok.inj hfinite)).symm
            rw [hn] at hrange
            exact .whole n htype hrange
          | float x =>
            cases x with
            | fin q =>
              obtain rfl := Option.some.inj (Except.ok.inj hfinite)
              exact .number q ⟨htype, hother⟩ hrange
            | _ => exact absurd hfinite (by simp [finite_number])
          | _ => exact absurd (not_not.mp hnumber) (by simp [is_number])

theorem validated_params_meet {submitted validated : Params}
    (h : validated_params strategy submitted = .ok validated) (key : String) (value : Value)
    (hkey : validated.get key = some value) :
    ∃ spec, spec_of strategy key = some spec ∧ Meets spec value := by
  have hall : ∀ key value, validated.get key = some value →
      ∃ spec, spec_of strategy key = some spec ∧ Meets spec value := by
    apply Fallible.foldlM_preserves (P := fun validated : Params => ∀ key value,
      validated.get key = some value →
        ∃ spec, spec_of strategy key = some spec ∧ Meets spec value) _ h
    · exact fun _ _ hnone => absurd hnone (by simp)
    · intro before after entry _ hstep hold key value hkey
      unfold validated_param at hstep
      split at hstep
      · exact absurd hstep (by simp)
      · split at hstep
        · exact absurd hstep (by simp)
        · rename_i spec hspec
          obtain ⟨v, hv, hrest⟩ := Fallible.bind_ok hstep
          rw [← Except.ok.inj hrest, Keyed.get_insert] at hkey
          by_cases heq : key = entry.1
          · rw [if_pos heq] at hkey
            rw [heq, ← Option.some.inj hkey]
            exact ⟨spec, hspec, validated_param_value_ok hv⟩
          · rw [if_neg heq] at hkey
            exact hold key value hkey
  exact hall key value hkey

/-! ### The worker -/

/-- What is stored of an accepted form. -/
structure Stored (strategy : RunnableStrategy) (mode : String) (stored : Params) : Prop where
  mode_text : stored.get mode_key = some (.str mode)
  tickers : ∃ selected, stored.get "universe" = some (tickers_value selected)
  ranged : ∀ key ∈ ["slippageBps", "commissionPerShare", "sentimentGate"], ∀ value,
    stored.get key = some value → Allowed key value
  declared : ∀ key value, stored.get key = some value →
    key ∈ recorded_keys ∨ key ∈ overlay_keys ∨ key = mode_key ∨
      ∃ spec, spec_of strategy key = some spec ∧ Meets spec value

theorem stored_of_submission {admitted : Params → List String → Except SubmissionError Unit}
    {stored : Params}
    (h : submit_backtest_run normalise settings admitted strategy raw mode = .ok stored) :
    Stored strategy mode stored := by
  unfold submit_backtest_run at h
  obtain ⟨⟨params, controls, selected⟩, hmap, hrest⟩ := Fallible.bind_ok h
  have hsplit := Fallible.mapError_ok.mp hmap
  obtain ⟨validated, hvalid, hchecks⟩ := Fallible.bind_ok hrest
  obtain ⟨_, _, hstored⟩ := Fallible.bind_ok hchecks
  obtain rfl := Except.ok.inj hstored
  obtain ⟨hparams, hranged⟩ := split_controls_ranged hsplit
  have hget : ∀ key, Keyed.get (stored_params validated controls selected mode) key =
      if key = mode_key then some (.str mode)
      else if key = "universe" then some (tickers_value selected)
      else (controls.get key).or (validated.get key) := by
    intro key
    unfold stored_params
    rw [Keyed.get_insert, Keyed.get_insert, Keyed.get_union]
  -- a control is no parameter of the strategy
  have hapart : ∀ key ∈ control_keys, validated.get key = none := by
    intro key hkey
    by_contra hsome
    apply (validated_params_declared hvalid key hsome).1
    rw [hparams, get_params, if_pos hkey]
  refine ⟨?_, ⟨selected, ?_⟩, ?_, ?_⟩
  · rw [hget, if_pos rfl]
  · rw [hget, if_neg (by decide), if_pos rfl]
  · intro key hkey value hvalue
    have hkeys : ∀ key ∈ ["slippageBps", "commissionPerShare", "sentimentGate"],
        key ≠ mode_key ∧ key ≠ "universe" ∧ key ∈ control_keys ∧ key ∈ ranged_keys := by decide
    obtain ⟨hmode, huniverse, hcontrol, hrange⟩ := hkeys key hkey
    rw [hget, if_neg hmode, if_neg huniverse, hapart key hcontrol, Option.or_none] at hvalue
    exact (hranged key value hvalue).2 hrange
  · intro key value hvalue
    rw [hget] at hvalue
    by_cases hmode : key = mode_key
    · exact .inr (.inr (.inl hmode))
    · rw [if_neg hmode] at hvalue
      by_cases huniverse : key = "universe"
      · rw [huniverse]
        exact .inl (by decide)
      · rw [if_neg huniverse] at hvalue
        cases hcontrol : controls.get key with
        | some control =>
          rcases (hranged key control hcontrol).1 with hrecorded | hoverlay
          · exact .inl hrecorded
          · exact .inr (.inl hoverlay)
        | none =>
          rw [hcontrol, Option.none_or] at hvalue
          exact .inr (.inr (.inr (validated_params_meet hvalid key value hvalue)))

section

variable {Gate : Type} (read_float : String → Option PyFloat)
  (load_sentiment_gate : PyFloat → List Value → Except RequestError Gate)
  (strategy_universe : Params → List Value) {stored : Params}

/-- A control of the request that is a number, or its default of 0. -/
theorem as_float_amount (bound : ℚ) {value : Option Value}
    (h : ∀ v, value = some v → ∃ x, v = .float (.fin x) ∧ 0 ≤ x ∧ x ≤ bound) (hbound : 0 ≤ bound) :
    ∃ x, as_float read_float (value.getD (.float (.fin 0))) = .ok (.fin x) ∧ 0 ≤ x ∧ x ≤ bound := by
  cases value with
  | none => exact ⟨0, rfl, le_refl 0, hbound⟩
  | some v =>
    obtain ⟨x, rfl, hx⟩ := h v rfl
    exact ⟨x, rfl, hx⟩

/-- The gate is read, and then loaded. -/
theorem sentiment_gate_cases (params : Params) (selected : List String) {control : Option Value}
    (h : ∀ v, control = some v → Allowed "sentimentGate" v) :
    (∃ gate, sentiment_gate read_float load_sentiment_gate strategy_universe params
        (some (tickers_value selected)) control = .ok gate) ∨
      ∃ x e tickers, -1 ≤ x ∧ x ≤ 0 ∧ load_sentiment_gate (.fin x) tickers = .error e ∧
        sentiment_gate read_float load_sentiment_gate strategy_universe params
          (some (tickers_value selected)) control = .error e := by
  cases control with
  | none => exact .inl ⟨none, rfl⟩
  | some v =>
    obtain ⟨x, rfl, hx⟩ := (h v rfl).cases_key.2.2.1 rfl
    -- the tickers are a list, so they can be read
    obtain ⟨tickers, htickers⟩ : ∃ tickers, gate_tickers strategy_universe params
        (some (tickers_value selected)) = .ok tickers := by
      unfold gate_tickers
      simp only
      split
      · exact ⟨_, rfl⟩
      · exact ⟨_, rfl⟩
    have hgate : sentiment_gate read_float load_sentiment_gate strategy_universe params
        (some (tickers_value selected))
        (some (.dict [("enabled", .bool true), ("threshold", .float (.fin x))])) =
        (do let gate ← load_sentiment_gate (.fin x) tickers
            .ok (some gate)) := by
      show (do
        let tickers ← gate_tickers strategy_universe params (some (tickers_value selected))
        let gate ← load_sentiment_gate (.fin x) tickers
        Except.ok (some gate)) = _
      rw [htickers]
      rfl
    rw [hgate]
    cases hload : load_sentiment_gate (.fin x) tickers with
    | ok gate => exact .inl ⟨some gate, rfl⟩
    | error e => exact .inr ⟨x, e, tickers, hx.1, hx.2, hload, rfl⟩

/-- `_build_request`, with every reading made of the parameters as they came. -/
theorem build_request_eq (value : Value) (params : Params) :
    build_request read_float load_sentiment_gate strategy_universe value params = (do
      let slippage ← as_float read_float ((params.get "slippageBps").getD (.float (.fin 0)))
      let commission ← as_float read_float
        ((params.get "commissionPerShare").getD (.float (.fin 0)))
      let gate ← sentiment_gate read_float load_sentiment_gate strategy_universe params
        (params.get "universe") (params.get "sentimentGate")
      .ok { mode := value, params := Keyed.erase_all params stripped_keys,
            slippage := slippage.div_rat 10000, commission_per_share := commission,
            sentiment_gate := gate }) := by
  unfold build_request
  have hcommission : Keyed.get (params.erase "slippageBps") "commissionPerShare" =
      params.get "commissionPerShare" := by
    rw [Keyed.get_erase, if_neg (by decide)]
  have huniverse : Keyed.get (((params.erase "slippageBps").erase "commissionPerShare").erase
      "barIntervalSeconds") "universe" = params.get "universe" := by
    rw [Keyed.get_erase, if_neg (by decide), Keyed.get_erase, if_neg (by decide), Keyed.get_erase,
      if_neg (by decide)]
  have hgate : Keyed.get (((((params.erase "slippageBps").erase "commissionPerShare").erase
      "barIntervalSeconds").erase "universe").erase "weights") "sentimentGate" =
      params.get "sentimentGate" := by
    rw [Keyed.get_erase, if_neg (by decide), Keyed.get_erase, if_neg (by decide), Keyed.get_erase,
      if_neg (by decide), Keyed.get_erase, if_neg (by decide), Keyed.get_erase,
      if_neg (by decide)]
  simp only [hcommission, huniverse, hgate]
  rfl

/-- **An accepted form builds a request**: out of what is stored of it the
    worker makes a request, unless the gate cannot be loaded. The mode is the
    form's, slippage and commission are within the bounds of the form, and what
    the strategy is sent besides the overlay was declared by it and is within
    the bounds it declared. The artifact folder and the class of a strategy
    whose stored universe is empty are taken to be there. -/
theorem accepted_run_builds {admitted : Params → List String → Except SubmissionError Unit}
    (h : submit_backtest_run normalise settings admitted strategy raw mode = .ok stored) :
    (∀ e, worker_request read_float load_sentiment_gate strategy_universe stored = .error e →
      ∃ x tickers, -1 ≤ x ∧ x ≤ 0 ∧ load_sentiment_gate (.fin x) tickers = .error e) ∧
    ∀ request, worker_request read_float load_sentiment_gate strategy_universe stored =
        .ok request →
      request.mode = .str mode ∧
      (∃ x, request.slippage = .fin x ∧ 0 ≤ x ∧ x ≤ 1 / 10) ∧
      (∃ x, request.commission_per_share = .fin x ∧ 0 ≤ x ∧ x ≤ 100) ∧
      ∀ key value, request.params.get key = some value → key ∈ overlay_keys ∨
        ∃ spec, spec_of strategy key = some spec ∧ Meets spec value := by
  have hstored := stored_of_submission h
  obtain ⟨selected, htickers⟩ := hstored.tickers
  have hget : ∀ key, key ≠ mode_key →
      Keyed.get (stored.erase mode_key) key = stored.get key := by
    intro key hkey
    rw [Keyed.get_erase, if_neg hkey]
  obtain ⟨slip, hslip, hslip0, hslip1⟩ := as_float_amount read_float 1000
    (fun v hv => ((hstored.ranged "slippageBps" (by decide) v hv).cases_key).1 rfl) (by norm_num)
  obtain ⟨cost, hcost, hcost0, hcost1⟩ := as_float_amount read_float 100
    (fun v hv => ((hstored.ranged "commissionPerShare" (by decide) v hv).cases_key).2.1 rfl)
    (by norm_num)
  have hworker : worker_request read_float load_sentiment_gate strategy_universe stored = (do
      let gate ← sentiment_gate read_float load_sentiment_gate strategy_universe
        (stored.erase mode_key) (some (tickers_value selected)) (stored.get "sentimentGate")
      .ok { mode := .str mode, params := Keyed.erase_all (stored.erase mode_key) stripped_keys,
            slippage := (PyFloat.fin slip).div_rat 10000, commission_per_share := .fin cost,
            sentiment_gate := gate }) := by
    unfold worker_request
    rw [build_request_eq, hstored.mode_text, hget "slippageBps" (by decide),
      hget "commissionPerShare" (by decide), hget "universe" (by decide),
      hget "sentimentGate" (by decide), htickers, hslip, hcost]
    rfl
  have hgate := sentiment_gate_cases read_float load_sentiment_gate strategy_universe
    (stored.erase mode_key) selected (fun v hv => hstored.ranged "sentimentGate" (by decide) v hv)
  rw [hworker]
  constructor
  · intro e herror
    rcases hgate with ⟨gate, hok⟩ | ⟨x, e', tickers, hx0, hx1, hload, hfail⟩
    · rw [hok] at herror
      exact absurd herror (by simp [bind, Except.bind])
    · rw [hfail] at herror
      rw [← Except.error.inj herror]
      exact ⟨x, tickers, hx0, hx1, hload⟩
  · intro request hrequest
    obtain ⟨gate, _, hrest⟩ := Fallible.bind_ok hrequest
    obtain rfl := Except.ok.inj hrest
    refine ⟨rfl, ⟨slip / 10000, rfl, by positivity, ?_⟩, ⟨cost, rfl, hcost0, hcost1⟩, ?_⟩
    · rw [div_le_iff₀ (by norm_num)]
      linarith
    · intro key value hvalue
      simp only at hvalue
      rw [Keyed.get_erase_all, Keyed.get_erase] at hvalue
      by_cases hstrip : key ∈ stripped_keys
      · rw [if_pos hstrip] at hvalue
        exact absurd hvalue (by simp)
      · rw [if_neg hstrip] at hvalue
        by_cases hmode : key = mode_key
        · rw [if_pos hmode] at hvalue
          exact absurd hvalue (by simp)
        · rw [if_neg hmode] at hvalue
          have hkeys : ∀ key ∈ recorded_keys, key ∈ stripped_keys := by decide
          rcases hstored.declared key value hvalue with hrecorded | hoverlay | heq | hspec
          · exact absurd (hkeys key hrecorded) hstrip
          · exact .inl hoverlay
          · exact absurd heq hmode
          · exact .inr hspec

/-- The sample form is accepted, and its request is built. -/
theorem sample_request_builds :
    ∃ stored, submit_backtest_run Text.strip_upper ⟨false⟩ (fun _ _ => .ok ()) sample_strategy
        sample_form "event" = .ok stored ∧
      ∀ request : RunRequest Unit,
        worker_request (fun _ => none) (fun _ _ => .ok ()) (fun _ => []) stored = .ok request →
        request.mode = .str "event" ∧
        ∃ x, request.slippage = .fin x ∧ 0 ≤ x ∧ x ≤ 1 / 10 := by
  have haccepted : (submit_backtest_run Text.strip_upper ⟨false⟩ (fun _ _ => .ok ())
      sample_strategy sample_form "event").isOk = true := by decide +kernel
  obtain ⟨stored, hstored⟩ := Fallible.exists_of_isOk haccepted
  obtain ⟨_, hrequest⟩ := accepted_run_builds (fun _ => none) (fun _ _ => Except.ok ())
    (fun _ => []) hstored
  refine ⟨stored, hstored, ?_⟩
  intro request hok
  obtain ⟨hmode, hslippage, _⟩ := hrequest request hok
  exact ⟨hmode, hslippage⟩

end

end RunControls
