import BacktestVisualizer.Jobs.RunControls

/-! # From the Form to the Engine

  `submit_backtest_run` of `services/backtests.py` checks the parameters that
  are left for the strategy and stores them with the controls; the worker
  takes the mode off again (`execute_report` of `workers/report_job.py`) and
  `_build_request` of `workers/run_job.py` the controls. The stored universe
  and the one the engine trades are followed to the end.
-/

namespace RunControls

/-! ### The strategy's own parameters -/

/-- A parameter specification as it is read: its key, its type in lower case
    and the bounds that are numbers. -/
structure ParamSpec where
  key : String
  type : String
  minimum : Option PyFloat
  maximum : Option PyFloat

/-- `_RunnableStrategy`. The specifications are the dictionaries with a key. -/
structure RunnableStrategy where
  key : String
  default_universe : List String
  param_specs : List ParamSpec

/-- `RunSubmissionError`, where it comes from. -/
inductive SubmissionError where
  | controls (e : ControlError)
  | reserved_mode
  | unknown_param (key : String)
  | not_boolean (key : String) (value : Value)
  | not_number (key : String) (value : Value)
  | not_finite (key : String) (value : Value)
  | not_whole (key : String) (value : Value)
  | below (key : String) (minimum : PyFloat) (value : ℚ)
  | above (key : String) (maximum : PyFloat) (value : ℚ)
  /-- `OverflowError`, which is no `RunSubmissionError`. -/
  | overflow
  /-- The intraday size or the coverage of the window. -/
  | refused (detail : String)

/-- `specs.get(key)`: of specifications with one key the last. -/
def spec_of (strategy : RunnableStrategy) (key : String) : Option ParamSpec :=
  strategy.param_specs.reverse.find? (fun spec => spec.key = key)

/-- `_check_param_range`. -/
def check_param_range (key : String) (value : ℚ) (spec : ParamSpec) :
    Except SubmissionError Unit :=
  match spec.minimum.filter (fun minimum => PyFloat.fin value < minimum) with
  | some minimum => .error (.below key minimum value)
  | none =>
      match spec.maximum.filter (fun maximum => maximum < PyFloat.fin value) with
      | some maximum => .error (.above key maximum value)
      | none => .ok ()

/-- `isinstance(value, bool) or not isinstance(value, (int, float))` is false. -/
def is_number : Value → Bool
  | .int _ => true
  | .float _ => true
  | _ => false

/-- `float(value) != int(value)`, of a number that `float` has room for. -/
def is_fractional (value : Value) (number : ℚ) : Bool :=
  match value with
  | .int n => rounds n
  | _ => number.den ≠ 1

/-- `_validated_param_value`: type first, then range. -/
def validated_param_value (key : String) (value : Value) (spec : ParamSpec) :
    Except SubmissionError Value :=
  if spec.type = "boolean" then
    match value with
    | .bool b => .ok (.bool b)
    | _ => .error (.not_boolean key value)
  else if ¬ is_number value then .error (.not_number key value)
  else
    match finite_number value with
    | .error _ => .error .overflow
    | .ok none => .error (.not_finite key value)
    | .ok (some number) =>
        if spec.type = "integer" then
          if is_fractional value number then .error (.not_whole key value)
          else do
            check_param_range key number spec
            .ok (.int number.num)
        else do
          -- an unknown type is a mistake of the seed: the number is checked all the same
          check_param_range key number spec
          .ok value

/-- `MODE_KEY`. -/
def mode_key : String := "mode"

/-- A turn of the loop of `_validated_params`. -/
def validated_param (strategy : RunnableStrategy) (validated : Params)
    (entry : (_ : String) × Value) : Except SubmissionError Params :=
  if entry.1 = mode_key then .error .reserved_mode
  else
    match spec_of strategy entry.1 with
    | none => .error (.unknown_param entry.1)
    | some spec => do
        let value ← validated_param_value entry.1 entry.2 spec
        .ok (validated.insert entry.1 value)

/-- `_validated_params`. -/
def validated_params (strategy : RunnableStrategy) (submitted : Params) :
    Except SubmissionError Params :=
  submitted.entries.foldlM (validated_param strategy) ∅

/-! ### Submission -/

/-- `{**params, **controls, "universe": universe, MODE_KEY: mode}`. -/
def stored_params (params controls : Params) (selected : List String) (mode : String) : Params :=
  ((controls ∪ params).insert "universe" (tickers_value selected)).insert mode_key (.str mode)

/-- The part of `submit_backtest_run` that makes the run's parameters;
    `admitted` stands for the checks of the intraday size and of the coverage. -/
def submit_backtest_run (normalise : String → String) (settings : Settings)
    (admitted : Params → List String → Except SubmissionError Unit) (strategy : RunnableStrategy)
    (raw : Params) (mode : String) : Except SubmissionError Params := do
  let (strategy_params, controls, selected) ←
    (split_controls normalise settings raw strategy.default_universe mode).mapError .controls
  let params ← validated_params strategy strategy_params
  admitted controls selected
  .ok (stored_params params controls selected mode)

/-! ### The worker -/

/-- What `_build_request` raises. -/
inductive RequestError where
  | not_a_number
  | not_iterable
  | no_threshold
  | overflow
  /-- The gate could not be loaded. -/
  | gate

/-- `RunRequest`, as far as the parameters decide it. -/
structure RunRequest (Gate : Type) where
  mode : Value
  params : Params
  slippage : PyFloat
  commission_per_share : PyFloat
  sentiment_gate : Option Gate

section

/- `float` of a text, the loading of the gate from the news database, and the
   tickers of the strategy's class. -/
variable {Gate : Type} (read_float : String → Option PyFloat)
  (load_sentiment_gate : PyFloat → List Value → Except RequestError Gate)
  (strategy_universe : Params → List Value)

/-- `float(value)`. -/
def as_float : Value → Except RequestError PyFloat
  | .float x => .ok x
  | .int n => if overflows n then .error .overflow else .ok (.fin n)
  | .bool b => .ok (.fin (if b then 1 else 0))
  | .str s =>
      match read_float s with
      | some x => .ok x
      | none => .error .not_a_number
  | _ => .error .not_a_number

/-- `list(value)`. -/
def as_list : Value → Except RequestError (List Value)
  | .list items => .ok items
  | .str s => .ok (s.toList.map (fun c => .str c.toString))
  | .dict pairs => .ok (pairs.map (fun pair => .str pair.1))
  | _ => .error .not_iterable

/-- `list(universe or _strategy_universe(context))`. -/
def gate_tickers (params : Params) (selected : Option Value) : Except RequestError (List Value) :=
  match selected with
  | some value => if value.truthy then as_list value else .ok (strategy_universe params)
  | none => .ok (strategy_universe params)

/-- The sentiment gate of a run; none where the control is absent or off. -/
def sentiment_gate (params : Params) (selected : Option Value) (gate_control : Option Value) :
    Except RequestError (Option Gate) :=
  match gate_control with
  | some (.dict pairs) =>
      if ((item pairs "enabled").getD .null).truthy then
        match item pairs "threshold" with
        | none => .error .no_threshold
        | some threshold => do
            let threshold ← as_float read_float threshold
            let tickers ← gate_tickers strategy_universe params selected
            let gate ← load_sentiment_gate threshold tickers
            .ok (some gate)
      else .ok none
  | _ => .ok none

/-- `_build_request`; `params.pop` is a reading and an erasure. -/
def build_request (mode : Value) (params : Params) : Except RequestError (RunRequest Gate) := do
  let slippage ← as_float read_float ((params.get "slippageBps").getD (.float (.fin 0)))
  let engine_params : Params := params.erase "slippageBps"
  let commission ← as_float read_float
    ((engine_params.get "commissionPerShare").getD (.float (.fin 0)))
  let engine_params : Params := engine_params.erase "commissionPerShare"
  let engine_params : Params := engine_params.erase "barIntervalSeconds"
  let selected := engine_params.get "universe"
  let engine_params : Params := engine_params.erase "universe"
  let engine_params : Params := engine_params.erase "weights"
  let gate_control := engine_params.get "sentimentGate"
  let engine_params : Params := engine_params.erase "sentimentGate"
  let gate ← sentiment_gate read_float load_sentiment_gate strategy_universe params selected
    gate_control
  .ok { mode := mode, params := engine_params, slippage := slippage.div_rat 10000,
        commission_per_share := commission, sentiment_gate := gate }

/-- The worker: the mode comes off first. -/
def worker_request (stored : Params) : Except RequestError (RunRequest Gate) :=
  build_request read_float load_sentiment_gate strategy_universe
    ((stored.get mode_key).getD (.str "event")) (stored.erase mode_key)

end

/-! ### What each step leaves -/

variable {normalise : String → String} {settings : Settings} {raw params controls : Params}
  {selected : List String} {mode : String} {strategy : RunnableStrategy}

/-- A validated parameter was submitted, and the strategy declares it. -/
theorem validated_params_declared {submitted validated : Params}
    (h : validated_params strategy submitted = .ok validated) (key : String)
    (hkey : validated.get key ≠ none) :
    submitted.get key ≠ none ∧ key ≠ mode_key ∧ ∃ spec ∈ strategy.param_specs, spec.key = key := by
  have hall : ∀ key, validated.get key ≠ none → submitted.get key ≠ none ∧ key ≠ mode_key ∧
      ∃ spec ∈ strategy.param_specs, spec.key = key := by
    -- what has been validated so far has these properties
    apply Fallible.foldlM_preserves (P := fun validated : Params =>
      ∀ key, validated.get key ≠ none → submitted.get key ≠ none ∧ key ≠ mode_key ∧
        ∃ spec ∈ strategy.param_specs, spec.key = key) _ h
    · exact fun _ hnone => absurd rfl hnone
    · intro before after entry hentry hstep hold key hkey
      unfold validated_param at hstep
      split at hstep
      · exact absurd hstep (by simp)
      · rename_i hmode
        split at hstep
        · exact absurd hstep (by simp)
        · rename_i spec hspec
          obtain ⟨value, _, hrest⟩ := Fallible.bind_ok hstep
          obtain rfl := Except.ok.inj hrest
          rw [Keyed.get_insert] at hkey
          by_cases heq : key = entry.1
          · subst heq
            refine ⟨?_, hmode, spec, ?_, ?_⟩
            · exact Keyed.mem_keys.mp (List.mem_map_of_mem hentry)
            · exact List.mem_reverse.mp (List.mem_of_find?_eq_some hspec)
            · simpa using List.find?_some hspec
          · rw [if_neg heq] at hkey
            exact hold key hkey
  exact hall key hkey

/-- The keys `_build_request` takes off. -/
def stripped_keys : List String :=
  ["slippageBps", "commissionPerShare", "barIntervalSeconds", "universe", "weights",
    "sentimentGate"]

section

variable {Gate : Type} {read_float : String → Option PyFloat}
  {load_sentiment_gate : PyFloat → List Value → Except RequestError Gate}
  {strategy_universe : Params → List Value} {stored : Params} {request : RunRequest Gate}

theorem build_request_params {value : Value}
    (h : build_request read_float load_sentiment_gate strategy_universe value params =
      .ok request) : request.params = Keyed.erase_all params stripped_keys := by
  unfold build_request at h
  obtain ⟨_, _, h₁⟩ := Fallible.bind_ok h
  obtain ⟨_, _, h₂⟩ := Fallible.bind_ok h₁
  obtain ⟨_, _, h₃⟩ := Fallible.bind_ok h₂
  obtain rfl := Except.ok.inj h₃
  rfl

/-- What the engine reads under a key that is neither the mode nor taken off. -/
theorem worker_request_get (h : worker_request read_float load_sentiment_gate strategy_universe
      (stored_params params controls selected mode) = .ok request) (key : String) :
    request.params.get key =
      if key ∈ stripped_keys ∨ key = mode_key then none
      else (controls.get key).or (params.get key) := by
  have hstripped : "universe" ∈ stripped_keys := by decide
  rw [build_request_params h, Keyed.get_erase_all, Keyed.get_erase]
  unfold stored_params
  rw [Keyed.get_insert, Keyed.get_insert, Keyed.get_union]
  by_cases hkey : key ∈ stripped_keys
  · rw [if_pos hkey, if_pos (.inl hkey)]
  · have huniverse : key ≠ "universe" := fun heq => hkey (heq ▸ hstripped)
    rw [if_neg hkey]
    by_cases hmode : key = mode_key
    · rw [if_pos hmode, if_pos (.inr hmode)]
    · rw [if_neg hmode, if_neg hmode, if_neg huniverse, if_neg (not_or.mpr ⟨hkey, hmode⟩)]

/-! ### The overlay -/

variable (read_float load_sentiment_gate strategy_universe)

/-- The overlay of a run is consistent. The controls either leave the universe
    as it is or name it together with its weights; the strategy is sent no
    control; and the engine is sent no control, and besides the strategy's
    own parameters only the overlay. -/
theorem run_overlay_consistent (hdefault : strategy.default_universe.Nodup)
    (h : split_controls normalise settings raw strategy.default_universe mode =
      .ok (params, controls, selected)) :
    ((controls.get "TICKERS" = none ∧ controls.get "WEIGHTS" = none ∧
        selected.Perm strategy.default_universe) ∨
      (controls.get "TICKERS" = some (tickers_value selected) ∧
        ∃ weights, controls.get "WEIGHTS" = some (weights_value weights) ∧
          weights.map Prod.fst = selected ∧ selected.Nodup ∧
          (∀ entry ∈ weights, 0 ≤ entry.2) ∧
          (weights.map Prod.snd).sum ≤ 1 + 1 / 1000000)) ∧
    (∀ key ∈ control_keys, params.get key = none) ∧
    ∀ admitted stored, submit_backtest_run normalise settings admitted strategy raw mode = .ok stored →
      ∃ validated, validated_params strategy params = .ok validated ∧
        ∀ request : RunRequest Gate,
          worker_request read_float load_sentiment_gate strategy_universe stored = .ok request →
          ∀ key, request.params.get key ≠ none →
            key ∉ control_keys ∧ (validated.get key ≠ none ∨ key ∈ overlay_keys) := by
  obtain ⟨hparams, hsound⟩ := split_controls_ok hdefault h
  refine ⟨?_, ?_, ?_⟩
  · cases hsound.consistent with
    | untouched htickers hweights hsame => exact .inl ⟨htickers, hweights, hsame⟩
    | overlaid weights htickers hweights halloc =>
      exact .inr ⟨htickers, weights, hweights, halloc.named, halloc.distinct, halloc.nonneg,
        halloc.within⟩
  · intro key hkey
    rw [hparams, get_params, if_pos hkey]
  · intro admitted stored hsubmit
    unfold submit_backtest_run at hsubmit
    obtain ⟨split, hsplit, hrest⟩ := Fallible.bind_ok hsubmit
    rw [Fallible.mapError_ok, h] at hsplit
    obtain rfl := Except.ok.inj hsplit
    obtain ⟨validated, hvalid, hchecks⟩ := Fallible.bind_ok hrest
    obtain ⟨_, _, hstored⟩ := Fallible.bind_ok hchecks
    obtain rfl := Except.ok.inj hstored
    refine ⟨validated, hvalid, ?_⟩
    intro request hrequest key hkey
    rw [worker_request_get hrequest] at hkey
    have hkept : ¬ (key ∈ stripped_keys ∨ key = mode_key) := by
      intro hgone
      exact hkey (if_pos hgone)
    rw [if_neg hkept] at hkey
    have hvalidated : validated.get key ≠ none → key ∉ control_keys := by
      intro hsome hcontrol
      apply (validated_params_declared hvalid key hsome).1
      rw [hparams, get_params, if_pos hcontrol]
    by_cases hcontrols : controls.get key = none
    · have hsome : validated.get key ≠ none := by
        rwa [hcontrols, Option.none_or] at hkey
      exact ⟨hvalidated hsome, .inl hsome⟩
    · rcases hsound.known key hcontrols with hcontrol | hoverlay
      · have hstripped : ∀ key ∈ recorded_keys, key ∈ stripped_keys := by decide
        exact absurd (.inl (hstripped key hcontrol)) hkept
      · have hapart : ∀ key ∈ overlay_keys, key ∉ control_keys := by decide
        exact ⟨hapart key hoverlay, .inr hoverlay⟩

/-- A form with weights for the strategy's own universe, and a parameter. -/
def sample_form : Params :=
  ((∅ : Params).insert "weights" (.dict [("aapl", .float (.fin (1 / 2)))])).insert
    "LOOKBACK_DAYS" (.int 30)

/-- A strategy of one ticker and one parameter. -/
def sample_strategy : RunnableStrategy where
  key := "sample"
  default_universe := ["AAPL"]
  param_specs := [{ key := "LOOKBACK_DAYS", type := "integer", minimum := some (.fin 1),
                    maximum := none }]

theorem sample_overlay :
    ∃ params controls selected,
      split_controls Text.strip_upper ⟨false⟩ sample_form sample_strategy.default_universe "event" =
        .ok (params, controls, selected) ∧
      (∀ key ∈ control_keys, params.get key = none) ∧
      ∀ stored, submit_backtest_run Text.strip_upper ⟨false⟩ (fun _ _ => .ok ()) sample_strategy
          sample_form "event" = .ok stored →
        ∃ validated, validated_params sample_strategy params = .ok validated ∧
          ∀ request : RunRequest Unit,
            worker_request (fun _ => none) (fun _ _ => .ok ()) (fun _ => []) stored = .ok request →
            ∀ key, request.params.get key ≠ none →
              key ∉ control_keys ∧ (validated.get key ≠ none ∨ key ∈ overlay_keys) := by
  have haccepted : (split_controls Text.strip_upper ⟨false⟩ sample_form
      sample_strategy.default_universe "event").isOk = true := by decide +kernel
  generalize hsplit : split_controls Text.strip_upper ⟨false⟩ sample_form
    sample_strategy.default_universe "event" = split at haccepted ⊢
  obtain ⟨⟨params, controls, selected⟩, rfl⟩ := Fallible.exists_of_isOk haccepted
  have hdefault : sample_strategy.default_universe.Nodup := by decide
  obtain ⟨_, hparams, hrequest⟩ := run_overlay_consistent (fun _ => none)
    (fun _ _ => Except.ok ()) (fun _ => []) hdefault hsplit
  refine ⟨params, controls, selected, rfl, hparams, ?_⟩
  intro stored hstored
  exact hrequest _ stored hstored

end

end RunControls
