import BacktestVisualizer.Data.Backfill
import BacktestVisualizer.Data.IntradaySize
import BacktestVisualizer.Framework.IsoDates
import BacktestVisualizer.Jobs.AcceptedRuns
import BacktestVisualizer.Jobs.JobManager

/-! # Submitting a Run

  `submit_backtest_run` of `services/backtests.py`: a form is checked field by
  field, against the registry of strategies and against the market data, and
  becomes the specification of a job. Nothing is registered when a check fails.

  The days of the market data count from 1970.
-/

open Coverage Fmp RunControls

namespace Submission

/-! ### The form -/

/-- `BacktestRunRequest`. -/
structure BacktestRunRequest where
  name : String
  strategy_key : String
  start_date : String
  end_date : String
  initial_capital : PyFloat
  mode : String
  params : Params

/-- A row of the strategy registry, as far as a submission reads it. -/
structure StrategyRow where
  key : String
  name : String
  status : String
  enabled : Bool
  default_universe : List String
  param_specs : List ParamSpec
  kind : String
  class_path : Option String
  storage_key : Option String

structure Settings where
  max_backtest_window_days : ℤ
  /-- `strategy_store_backend == "s3"`. -/
  stored_in_s3 : Bool
  controls : RunControls.Settings
  coverage : Coverage.Settings

/-- What a submission finds: the registry, now and when the job is made, the
    packages, what FMP says of a symbol, and the market data. -/
structure Env (clock : CloseClock) where
  settings : Settings
  registry : String → Option StrategyRow
  registry_at_creation : String → Option StrategyRow
  package_available : Option String → Bool
  /-- `date.fromisoformat`. -/
  fromisoformat : String → Option Date
  symbol_exists : String → Except SymbolLookup.Error Bool
  market : Market
  yesterday : ℤ
  table : PriceTable clock

/-! ### Refusals -/

/-- What a submission raises: a `RunSubmissionError`, but for the last four. -/
inductive Refusal where
  | no_name
  | long_name (length : ℕ)
  | no_strategy_key
  | no_strategy (key : String)
  | unavailable (status key : String)
  | no_package (key : String)
  | not_a_date (field raw : String)
  | reversed (start finish : Date)
  | too_long (span limit : ℤ)
  | capital_not_finite (raw : PyFloat)
  | capital_not_positive (capital : ℚ)
  | mode (raw : String)
  | controls (e : ControlError)
  | params (e : SubmissionError)
  | too_many_bars (e : Intraday.WindowTooLarge)
  | ticker_count
  | ticker_symbol
  | unknown (tickers : List String)
  | no_history (tickers : List Ticker)
  | no_shared_window (selected : List String)
  | outside (start finish : String) (selected : List String)
  | gone
  /-- `FMPUnavailable`, or what else a symbol lookup raises. -/
  | lookup (e : SymbolLookup.Error)
  | fmp (e : FmpError)
  /-- `OverflowError`. -/
  | overflow
  /-- The `ValueError` of `register`. -/
  | no_owner

def NAME_LIMIT : ℕ := 120

/-- `", ".join(texts)`. -/
def joined (texts : List String) : String := ", ".intercalate texts

section

/- `repr` of a text, of a number and of a value, and `format(x, "g")`. -/
variable (quote : String → String) (number : PyFloat → String) (repr : Value → String)
  (general : PyFloat → String)

/-- `_unavailable_reason`. -/
def unavailable_reason (status key : String) : String :=
  if status = "validating" then
    "Strategy " ++ quote key ++ " is still being validated. " ++
      "It becomes runnable when its validation backtest passes."
  else if status = "failed_validation" then
    "Strategy " ++ quote key ++ " failed validation and cannot be run. " ++
      "Open its validation run to see the error, then upload a fix."
  else if status = "archived" then
    "Strategy " ++ quote key ++ " is archived and no longer accepts new runs."
  else "Strategy " ++ quote key ++ " is not available to run."

/-- What is said of a parameter; the accepted ones are named in order. -/
def params_message (strategy : RunnableStrategy) : SubmissionError → String
  | .reserved_mode =>
      quote mode_key ++ " is reserved for the run's execution mode and " ++
        "cannot be sent as a strategy parameter; use the top-level " ++ quote mode_key ++
        " field instead."
  | .unknown_param key =>
      if strategy.param_specs = [] then
        "Strategy " ++ quote strategy.key ++ " takes no parameters, but " ++ quote key ++ " was sent."
      else
        quote key ++ " is not a parameter of strategy " ++ quote strategy.key ++ ". " ++
          "Accepted parameters: " ++
          joined (((strategy.param_specs.map ParamSpec.key).dedup).mergeSort (fun s t => s ≤ t)) ++ "."
  | .not_boolean key value =>
      "Parameter " ++ quote key ++ " must be true or false; got " ++ repr value ++ "."
  | .not_number key value =>
      "Parameter " ++ quote key ++ " must be a number; got " ++ repr value ++ "."
  | .not_finite key value =>
      "Parameter " ++ quote key ++ " must be a finite number; got " ++ repr value ++ "."
  | .not_whole key value =>
      "Parameter " ++ quote key ++ " must be a whole number; got " ++ repr value ++ "."
  | .below key minimum value =>
      "Parameter " ++ quote key ++ " must be at least " ++ general minimum ++ "; got " ++
        general (.fin value) ++ "."
  | .above key maximum value =>
      "Parameter " ++ quote key ++ " must be at most " ++ general maximum ++ "; got " ++
        general (.fin value) ++ "."
  | .controls e => e.message repr (fun q => general (.fin q))
  | .overflow => "int too large to convert to float"
  | .refused detail => detail

/-- `str(exc)`. The sizes of intraday windows and the provider's failures have
    texts of their own. -/
def Refusal.message (strategy : RunnableStrategy) (too_many_bars : Intraday.WindowTooLarge → String)
    (lookup : SymbolLookup.Error → String) (fmp : FmpError → String) : Refusal → String
  | .no_name => "Give the run a name so you can find it later."
  | .long_name length =>
      "The run name is " ++ toString length ++ " characters; keep it to " ++ toString NAME_LIMIT ++
        " or fewer."
  | .no_strategy_key => "strategyKey is required — pick a strategy to run."
  | .no_strategy key =>
      "There is no strategy named " ++ quote key ++ ". " ++
        "Pick one from the catalogue at GET /api/strategies."
  | .unavailable status key => unavailable_reason quote status key
  | .no_package key =>
      "Strategy " ++ quote key ++ " has no complete package in the configured " ++
        "S3 store. Publish or restore it before running a backtest."
  | .not_a_date field raw =>
      field ++ " must be an ISO date like 2025-01-02; got " ++ quote raw ++ "."
  | .reversed start finish =>
      "startDate must be before endDate; got " ++ start.isoformat ++ " to " ++ finish.isoformat ++ "."
  | .too_long span limit =>
      "That window is " ++ toString span ++ " days long; the maximum is " ++ toString limit ++ ". " ++
        "Pick a shorter range."
  | .capital_not_finite raw => "initialCapital must be a finite number; got " ++ number raw ++ "."
  | .capital_not_positive capital =>
      "initialCapital must be greater than zero; got " ++ general (.fin capital) ++ "."
  | .mode raw => "mode must be 'event'; got " ++ quote raw ++ "."
  | .controls e => e.message repr (fun q => general (.fin q))
  | .params e => params_message quote repr general strategy e
  | .too_many_bars e => too_many_bars e
  | .ticker_count => "Pass between 1 and 50 ticker symbols."
  | .ticker_symbol => "Enter valid ticker symbols of at most 20 characters."
  | .unknown tickers =>
      "FMP does not recognize these ticker symbols: " ++ joined tickers ++ ". " ++
        "Check the spelling and exchange suffix."
  | .no_history tickers =>
      "There is no available market-data history for " ++ joined (tickers.map Ticker.symbol) ++
        ". " ++ "Choose tickers with historical prices before submitting a run."
  | .no_shared_window selected =>
      "There is no shared market-data window for " ++ joined selected ++ ". " ++
        "Choose tickers with overlapping history."
  | .outside start finish selected =>
      "There is only data from " ++ start ++ " to " ++ finish ++ " for " ++ joined selected ++
        ". Pick a window inside that range."
  | .gone => "The selected strategy no longer exists."
  | .lookup e => lookup e
  | .fmp e => fmp e
  | .overflow => "int too large to convert to float"
  | .no_owner => "A user backtest requires an owner."

end

/-! ### Field by field -/

/-- `raw.strip()`. -/
def strip (raw : String) : String := String.ofList (Text.strip raw.toList)

def validated_name (raw : String) : Except Refusal String :=
  let name := strip raw
  if name = "" then .error .no_name
  else if NAME_LIMIT < name.length then .error (.long_name name.length)
  else .ok name

section

variable {clock : CloseClock} (env : Env clock)

/-- The snapshot of the row, and the checks that the strategy can run. -/
def load_runnable_strategy (strategy_key : String) : Except Refusal RunnableStrategy :=
  let key := strip strategy_key
  if key = "" then .error .no_strategy_key
  else
    match env.registry key with
    | none => .error (.no_strategy key)
    | some row =>
        if row.enabled = false then .error (.unavailable row.status key)
        else if env.settings.stored_in_s3 ∧ env.package_available row.storage_key = false then
          .error (.no_package key)
        else .ok ⟨row.key, row.default_universe, row.param_specs⟩

def validated_date (raw field : String) : Except Refusal Date :=
  match env.fromisoformat (strip raw) with
  | some d => .ok d
  | none => .error (.not_a_date field raw)

def validated_window (request : BacktestRunRequest) : Except Refusal (Date × Date) := do
  let start ← validated_date env request.start_date "startDate"
  let finish ← validated_date env request.end_date "endDate"
  if finish.toordinal ≤ start.toordinal then .error (.reversed start finish)
  else if env.settings.max_backtest_window_days < finish.toordinal - start.toordinal then
    .error (.too_long (finish.toordinal - start.toordinal) env.settings.max_backtest_window_days)
  else .ok (start, finish)

def validated_capital (raw : PyFloat) : Except Refusal PyFloat :=
  match raw with
  | .fin capital => if capital ≤ 0 then .error (.capital_not_positive capital) else .ok raw
  | _ => .error (.capital_not_finite raw)

/-- `RUN_MODES`. -/
def RUN_MODES : List String := ["event"]

def validated_mode (raw : String) : Except Refusal String :=
  -- no lower case of a letter beyond ASCII is a letter of a mode
  let mode := (strip raw).toLower
  if mode ∈ RUN_MODES then .ok mode else .error (.mode raw)

/-- The day of the market data that a date is: 1970-01-01 is day 0. -/
def day_of (d : Date) : ℤ := d.toordinal - 719163

/-- `_validated_intraday_size`; the seconds are one of the bar sizes. -/
def validated_intraday_size (controls : Params) (selected : List String) (start finish : Date) :
    Except Refusal Unit :=
  match controls.get "BAR_INTERVAL_SECONDS" with
  | some (.int seconds) =>
      match Intraday.check_intraday_size selected.length (day_of start) (day_of finish)
          (seconds / 60).toNat with
      | .ok () => .ok ()
      | .error e => .error (.too_many_bars e)
  | _ => .ok ()

/-! ### Market data -/

/-- `normalize_tickers`. -/
def normalize_tickers (tickers : List String) : Except Refusal (List String) :=
  if ¬ (1 ≤ tickers.length ∧ tickers.length ≤ 50) then .error .ticker_count
  else
    let wanted := tickers.map Text.strip_upper
    if ¬ wanted.all valid_symbol then .error .ticker_symbol
    else .ok (Batches.drop_duplicates (fun t => t) wanted)

/-- `validate_tickers`, where FMP is the source: nothing is known without it. -/
def unknown_tickers (tickers : List String) : Except Refusal (List String) := do
  let wanted ← normalize_tickers tickers
  let verdicts ← wanted.mapM (fun t =>
    match env.symbol_exists t with
    | .ok found => .ok (t, found)
    | .error e => .error (.lookup e))
  .ok ((verdicts.filter (fun verdict => verdict.2 = false)).map Prod.fst)

/-- `_iso`. -/
def iso (day : ℤ) : Option String :=
  (Date.fromordinal (day + 719163).toNat).map Date.isoformat

/-- The tickers are known to FMP, if it is the source. -/
def known_tickers (selected : List String) : Except Refusal Unit :=
  match env.settings.coverage.source with
  | .database => .ok ()
  | .fmp => do
      let unknown ← unknown_tickers env selected
      if unknown ≠ [] then .error (.unknown unknown) else .ok ()

/-- `_validated_coverage`; the texts of the dates are compared. -/
def validated_coverage (selected : List String) (start finish : Date) : Except Refusal Unit :=
  if selected = [] then .ok ()
  else do
    known_tickers env selected
    let coverage ← (coverage_for env.settings.coverage env.market env.yesterday selected
      env.table).2.mapError .fmp
    if coverage.missing ≠ [] then .error (.no_history coverage.missing)
    else
      match coverage.start.bind iso, coverage.finish.bind iso with
      | some first, some last =>
          if start.isoformat < first ∨ last < finish.isoformat then
            .error (.outside first last selected)
          else .ok ()
      | _, _ => .error (.no_shared_window selected)

/-! ### The job -/

/-- `RunSpec`, without its id and its time. -/
structure RunSpec where
  owner_id : Option Jobs.Owner
  name : String
  strategy_key : String
  strategy_name : String
  kind : String
  class_path : Option String
  storage_key : Option String
  start_date : Date
  end_date : Date
  initial_capital : PyFloat
  symbol : String
  params : Params
  purpose : Jobs.Purpose

/-- `_symbol_for`. -/
def symbol_for (selected : List String) : String :=
  match (selected.map strip).filter (fun t => t ≠ "") with
  | [ticker] => ticker
  | _ => "MULTI"

/-- `create_backtest_run`, up to `register`. -/
def create_backtest_run (name strategy_key : String) (start_date end_date : Date)
    (initial_capital : PyFloat) (symbol : String) (params : Params) (purpose : Jobs.Purpose)
    (owner_id : Option Jobs.Owner) : Except Refusal RunSpec :=
  match env.registry_at_creation strategy_key with
  | none => .error .gone
  | some row =>
      if purpose = .user ∧ owner_id = none then .error .no_owner
      else .ok { owner_id, name, strategy_key, strategy_name := row.name, kind := row.kind,
                 class_path := row.class_path, storage_key := row.storage_key, start_date,
                 end_date, initial_capital, symbol, params, purpose }

/-- `submit_backtest_run`: the job that is registered, or the refusal. -/
def submit_backtest_run (request : BacktestRunRequest) (owner_id : Option Jobs.Owner) :
    Except Refusal RunSpec := do
  let name ← validated_name request.name
  let strategy ← load_runnable_strategy env request.strategy_key
  let (start_date, end_date) ← validated_window env request
  let initial_capital ← validated_capital request.initial_capital
  let mode ← validated_mode request.mode
  let (strategy_params, controls, selected) ← (split_controls Text.strip_upper
    env.settings.controls request.params strategy.default_universe mode).mapError .controls
  let params ← (validated_params strategy strategy_params).mapError .params
  validated_intraday_size controls selected start_date end_date
  validated_coverage env selected start_date end_date
  create_backtest_run env name strategy.key start_date end_date initial_capital
    (symbol_for selected) (stored_params params controls selected mode) .user owner_id

end

/-! ### What is registered -/

variable {clock : CloseClock} {env : Env clock}

theorem strip_strip (raw : String) : strip (strip raw) = strip raw := by
  unfold strip
  rw [String.toList_ofList, Text.strip_strip]

theorem validated_name_ok {raw name : String} (h : validated_name raw = .ok name) :
    name ≠ "" ∧ name.length ≤ NAME_LIMIT ∧ strip name = name := by
  unfold validated_name at h
  simp only at h
  split at h
  · exact absurd h (by simp)
  · rename_i hne
    split at h
    · exact absurd h (by simp)
    · rename_i hlength
      rw [← Except.ok.inj h]
      exact ⟨hne, not_lt.mp hlength, strip_strip raw⟩

/-- The strategy a job names can run. -/
structure Runnable (env : Env clock) (strategy : RunnableStrategy) (row : StrategyRow) : Prop where
  key : strategy.key = row.key
  enabled : row.enabled = true
  packaged : env.settings.stored_in_s3 = true → env.package_available row.storage_key = true

theorem load_runnable_strategy_ok {strategy_key : String} {strategy : RunnableStrategy}
    (h : load_runnable_strategy env strategy_key = .ok strategy) :
    ∃ row, env.registry (strip strategy_key) = some row ∧ Runnable env strategy row := by
  unfold load_runnable_strategy at h
  simp only at h
  split at h
  · exact absurd h (by simp)
  · split at h
    · exact absurd h (by simp)
    · rename_i row hrow
      split at h
      · exact absurd h (by simp)
      · rename_i henabled
        split at h
        · exact absurd h (by simp)
        · rename_i hpackage
          obtain rfl := Except.ok.inj h
          refine ⟨row, hrow, rfl, by simpa using henabled, ?_⟩
          intro hs3
          by_contra hmissing
          exact hpackage ⟨hs3, by simpa using hmissing⟩

theorem validated_window_ok {request : BacktestRunRequest} {start finish : Date}
    (h : validated_window env request = .ok (start, finish)) :
    start.toordinal < finish.toordinal ∧
      finish.toordinal - start.toordinal ≤ env.settings.max_backtest_window_days := by
  unfold validated_window at h
  obtain ⟨start', _, h₁⟩ := Fallible.bind_ok h
  obtain ⟨finish', _, h₂⟩ := Fallible.bind_ok h₁
  split at h₂
  · exact absurd h₂ (by simp)
  · split at h₂
    · exact absurd h₂ (by simp)
    · obtain ⟨rfl, rfl⟩ := Prod.mk.inj (Except.ok.inj h₂)
      omega

theorem validated_capital_ok {raw capital : PyFloat} (h : validated_capital raw = .ok capital) :
    ∃ q, capital = .fin q ∧ 0 < q := by
  unfold validated_capital at h
  split at h
  · split at h
    · exact absurd h (by simp)
    · rename_i q hpos
      exact ⟨q, (Except.ok.inj h).symm, not_le.mp hpos⟩
  · exact absurd h (by simp)

theorem validated_mode_ok {raw mode : String} (h : validated_mode raw = .ok mode) :
    mode = "event" := by
  unfold validated_mode at h
  simp only at h
  split at h
  · rename_i hmem
    rw [← Except.ok.inj h]
    exact List.mem_singleton.mp hmem
  · exact absurd h (by simp)

theorem validated_intraday_size_ok {controls : Params} {selected : List String}
    {start finish : Date} (h : validated_intraday_size controls selected start finish = .ok ())
    {seconds : ℤ} (hbar : controls.get "BAR_INTERVAL_SECONDS" = some (.int seconds)) :
    Intraday.estimate_bar_count selected.length (day_of start) (day_of finish)
      (seconds / 60).toNat ≤ Intraday.MAX_INTRADAY_BARS := by
  unfold validated_intraday_size at h
  rw [hbar] at h
  simp only [Intraday.check_intraday_size] at h
  by_contra hlarge
  rw [if_pos (not_le.mp hlarge)] at h
  exact absurd h (by simp)

/-- The text of a day is the text of its date. -/
theorem iso_some {day : ℤ} {text : String} (h : iso day = some text) :
    ∃ d : Date, d.isoformat = text ∧ day_of d = day := by
  obtain ⟨d, hd, rfl⟩ := Option.map_eq_some_iff.mp h
  have hordinal := Date.toordinal_fromordinal hd
  have hpos := Date.toordinal_pos d
  refine ⟨d, rfl, ?_⟩
  unfold day_of
  omega

/-- A date that is not before a day's text is not before the day. -/
theorem le_of_texts {day : ℤ} {text : String} (h : iso day = some text) (d : Date) :
    (¬ d.isoformat < text ↔ day ≤ day_of d) ∧ (¬ text < d.isoformat ↔ day_of d ≤ day) := by
  obtain ⟨d', rfl, hday⟩ := iso_some h
  rw [Date.isoformat_lt_iff, Date.isoformat_lt_iff]
  unfold day_of at *
  omega

theorem normalize_tickers_ok {tickers known : List String}
    (h : normalize_tickers tickers = .ok known) :
    ∀ t, t ∈ known ↔ t ∈ tickers.map Text.strip_upper := by
  unfold normalize_tickers at h
  split at h
  · exact absurd h (by simp)
  · simp only at h
    split at h
    · exact absurd h (by simp)
    · rw [← Except.ok.inj h]
      intro t
      constructor
      · exact Batches.mem_of_mem_drop_duplicates
      · intro ht
        obtain ⟨t', ht', heq⟩ : ∃ t' ∈ Batches.drop_duplicates (fun t : String => t)
            (tickers.map Text.strip_upper), t' = t := Batches.exists_mem_drop_duplicates ht
        exact heq ▸ ht'

/-- Every ticker was found, and none was in doubt. -/
theorem known_tickers_ok {selected : List String} (hsource : env.settings.coverage.source = .fmp)
    (h : known_tickers env selected = .ok ()) :
    ∀ t ∈ selected, env.symbol_exists (Text.strip_upper t) = .ok true := by
  unfold known_tickers at h
  rw [hsource] at h
  obtain ⟨unknown, hunknown, hrest⟩ := Fallible.bind_ok h
  have hnone : unknown = [] := by
    by_contra hne
    rw [if_pos hne] at hrest
    exact absurd hrest (by simp)
  unfold unknown_tickers at hunknown
  obtain ⟨known, hknown, hloop⟩ := Fallible.bind_ok hunknown
  obtain ⟨verdicts, hverdicts, heq⟩ := Fallible.bind_ok hloop
  intro t ht
  have hmem := (normalize_tickers_ok hknown (Text.strip_upper t)).mpr (List.mem_map_of_mem ht)
  obtain ⟨verdict, hverdict, hlookup⟩ :=
    Fallible.exists_right (Fallible.forall₂_of_mapM_ok hverdicts) hmem
  cases hexists : env.symbol_exists (Text.strip_upper t) with
  | error e =>
    rw [hexists] at hlookup
    exact absurd hlookup (by simp)
  | ok found =>
    rw [hexists] at hlookup
    cases found with
    | true => rfl
    | false =>
      -- a symbol that does not exist is named
      have hlisted : Text.strip_upper t ∈
          (verdicts.filter (fun verdict => verdict.2 = false)).map Prod.fst := by
        refine List.mem_map.mpr ⟨verdict, List.mem_filter.mpr ⟨hverdict, ?_⟩, ?_⟩
        · rw [← Except.ok.inj hlookup]
          rfl
        · rw [← Except.ok.inj hlookup]
      rw [Except.ok.inj heq, hnone] at hlisted
      exact absurd hlisted List.not_mem_nil

/-- The history of every ticker reaches over a day. -/
def Reaches (env : Env clock) (selected : List String) (d : Date) : Prop :=
  ∃ response table', coverage_for env.settings.coverage env.market env.yesterday selected
      env.table = (table', .ok response) ∧
    ∀ t ∈ wanted selected,
      Within (days_of env.settings.coverage env.market env.yesterday table' t) (day_of d)

theorem validated_coverage_ok {selected : List String} {start finish : Date}
    (hne : selected ≠ []) (hle : day_of start ≤ day_of finish)
    (h : validated_coverage env selected start finish = .ok ()) :
    Reaches env selected start ∧ Reaches env selected finish ∧
      (env.settings.coverage.source = .fmp →
        ∀ t ∈ selected, env.symbol_exists (Text.strip_upper t) = .ok true) := by
  unfold validated_coverage at h
  rw [if_neg hne] at h
  obtain ⟨_, hknown, hrest⟩ := Fallible.bind_ok h
  obtain ⟨response, hmap, hchecks⟩ := Fallible.bind_ok hrest
  have hcoverage : coverage_for env.settings.coverage env.market env.yesterday selected
      env.table = (_, .ok response) := Prod.ext rfl (Fallible.mapError_ok.mp hmap)
  split at hchecks
  · exact absurd hchecks (by simp)
  · split at hchecks
    · rename_i first last hfirst hlast
      obtain ⟨s, hs, hfirst'⟩ := Option.bind_eq_some_iff.mp hfirst
      obtain ⟨e, he, hlast'⟩ := Option.bind_eq_some_iff.mp hlast
      have hinside : ¬ (start.isoformat < first ∨ last < finish.isoformat) := by
        intro hout
        rw [if_pos hout] at hchecks
        exact absurd hchecks (by simp)
      rw [not_or] at hinside
      have hs' := (le_of_texts hfirst' start).1.mp hinside.1
      have he' := (le_of_texts hlast' finish).2.mp hinside.2
      have hwindow := (coverage_window hcoverage).1
      have hstart := (hwindow (day_of start)).mp ⟨s, hs, e, he, hs', by omega⟩
      have hfinish := (hwindow (day_of finish)).mp ⟨s, hs, e, he, by omega, he'⟩
      exact ⟨⟨response, _, hcoverage, hstart.2⟩, ⟨response, _, hcoverage, hfinish.2⟩,
        fun hsource => known_tickers_ok hsource hknown⟩
    · exact absurd hchecks (by simp)

/-- What a registered job is, with the strategy it runs, and the controls and
    tickers of its form. -/
structure WellFormed (env : Env clock) (request : BacktestRunRequest)
    (strategy : RunnableStrategy) (controls : Params) (selected : List String) (spec : RunSpec) :
    Prop where
  named : spec.name ≠ "" ∧ spec.name.length ≤ NAME_LIMIT ∧ strip spec.name = spec.name
  owned : spec.purpose = .user ∧ spec.owner_id ≠ none
  window : spec.start_date.toordinal < spec.end_date.toordinal ∧
    spec.end_date.toordinal - spec.start_date.toordinal ≤ env.settings.max_backtest_window_days
  capital : ∃ q, spec.initial_capital = .fin q ∧ 0 < q
  runnable : ∃ row, env.registry (strip request.strategy_key) = some row ∧
    Runnable env strategy row ∧ spec.strategy_key = row.key
  controlled : ∃ params, split_controls Text.strip_upper env.settings.controls request.params
    strategy.default_universe "event" = .ok (params, controls, selected)
  /-- The parameters are those that the worker takes apart again. -/
  overlay : RunControls.submit_backtest_run Text.strip_upper env.settings.controls
    (fun _ _ => .ok ()) strategy request.params "event" = .ok spec.params
  tickers : spec.params.get "universe" = some (tickers_value selected) ∧
    spec.symbol = symbol_for selected
  /-- The market data reaches over the window, whatever the source. -/
  data : selected ≠ [] → Reaches env selected spec.start_date ∧ Reaches env selected spec.end_date ∧
    (env.settings.coverage.source = .fmp →
      ∀ t ∈ selected, env.symbol_exists (Text.strip_upper t) = .ok true)
  /-- An intraday run loads no more bars than it may. -/
  bars : ∀ value, controls.get "BAR_INTERVAL_SECONDS" = some value → ∃ n, value = .int n ∧
    Intraday.estimate_bar_count selected.length (day_of spec.start_date) (day_of spec.end_date)
      (n / 60).toNat ≤ Intraday.MAX_INTRADAY_BARS

theorem create_backtest_run_ok {name strategy_key symbol : String} {start_date end_date : Date}
    {initial_capital : PyFloat} {params : Params} {owner_id : Option Jobs.Owner} {spec : RunSpec}
    (h : create_backtest_run env name strategy_key start_date end_date initial_capital symbol
      params .user owner_id = .ok spec) :
    owner_id ≠ none ∧ spec.name = name ∧ spec.strategy_key = strategy_key ∧
      spec.start_date = start_date ∧ spec.end_date = end_date ∧
      spec.initial_capital = initial_capital ∧ spec.symbol = symbol ∧ spec.params = params ∧
      spec.owner_id = owner_id ∧ spec.purpose = .user := by
  unfold create_backtest_run at h
  split at h
  · exact absurd h (by simp)
  · split at h
    · exact absurd h (by simp)
    · rename_i howner
      obtain rfl := Except.ok.inj h
      exact ⟨fun hnone => howner ⟨rfl, hnone⟩, rfl, rfl, rfl, rfl, rfl, rfl, rfl, rfl, rfl⟩

/-- **A registered job is well formed**: whatever the form, the registry and
    the market data are, a job is registered only under a stripped name of at
    most 120 characters, for a strategy that was enabled, with a positive
    capital and a window within the limit that starts before it ends. Every
    ticker has bars on or before its first day and on or after its last, and
    its parameters are those that the worker can take apart. -/
theorem registered_job_well_formed {request : BacktestRunRequest}
    {owner_id : Option Jobs.Owner} {spec : RunSpec}
    (h : submit_backtest_run env request owner_id = .ok spec) :
    ∃ strategy controls selected, WellFormed env request strategy controls selected spec := by
  unfold submit_backtest_run at h
  obtain ⟨name, hname, h₁⟩ := Fallible.bind_ok h
  obtain ⟨strategy, hstrategy, h₂⟩ := Fallible.bind_ok h₁
  obtain ⟨⟨start, finish⟩, hwindow, h₃⟩ := Fallible.bind_ok h₂
  obtain ⟨capital, hcapital, h₄⟩ := Fallible.bind_ok h₃
  obtain ⟨mode, hmode, h₅⟩ := Fallible.bind_ok h₄
  obtain rfl := validated_mode_ok hmode
  obtain ⟨⟨params, controls, selected⟩, hmap, h₆⟩ := Fallible.bind_ok h₅
  have hsplit := Fallible.mapError_ok.mp hmap
  obtain ⟨validated, hmap', h₇⟩ := Fallible.bind_ok h₆
  have hvalid := Fallible.mapError_ok.mp hmap'
  obtain ⟨⟨⟩, hbars, h₈⟩ := Fallible.bind_ok h₇
  obtain ⟨⟨⟩, hcoverage, hcreate⟩ := Fallible.bind_ok h₈
  obtain ⟨hnamed, hspan⟩ : _ ∧ _ := ⟨validated_name_ok hname, validated_window_ok hwindow⟩
  obtain ⟨row, hrow, hrunnable⟩ := load_runnable_strategy_ok hstrategy
  obtain ⟨howner, hn, hk, hs, hf, hc, hy, hp, ho, hu⟩ := create_backtest_run_ok hcreate
  have hdays : day_of start ≤ day_of finish := by
    unfold day_of
    omega
  refine ⟨strategy, controls, selected, ⟨?_, ?_, ?_, ?_, ?_, ⟨params, hsplit⟩, ?_, ?_, ?_, ?_⟩⟩
  · rw [hn]
    exact hnamed
  · exact ⟨hu, ho ▸ howner⟩
  · rw [hs, hf]
    exact hspan
  · rw [hc]
    exact validated_capital_ok hcapital
  · exact ⟨row, hrow, hrunnable, hk.trans hrunnable.key⟩
  · rw [hp]
    unfold RunControls.submit_backtest_run
    rw [hsplit]
    show (do
      let params ← validated_params strategy params
      Except.ok (stored_params params controls selected "event")) = _
    rw [hvalid]
    rfl
  · rw [hp]
    refine ⟨?_, hy⟩
    unfold stored_params
    rw [Keyed.get_insert, if_neg (by decide), Keyed.get_insert, if_pos rfl]
  · intro hne
    rw [hs, hf]
    exact validated_coverage_ok hne hdays hcoverage
  · intro value hvalue
    have hallowed := ((split_controls_ranged hsplit).2 _ value hvalue).2 (by decide)
    obtain ⟨n, rfl, _⟩ := hallowed.cases_key.2.2.2 rfl
    rw [hs, hf]
    exact ⟨n, rfl, validated_intraday_size_ok hbars hvalue⟩

/-! ### A sample -/

def january_1 : Date := ⟨1970, 1, 1, by decide⟩

def january_5 : Date := ⟨1970, 1, 5, by decide⟩

/-- A strategy of one ticker. -/
def sample_row : StrategyRow where
  key := "sample"
  name := "Sample"
  status := "available"
  enabled := true
  default_universe := ["MSFT"]
  param_specs := []
  kind := "builtin"
  class_path := none
  storage_key := none

/-- One strategy, and a table with the first and the fifth of January. -/
def sample_env : Env winter_close where
  settings := ⟨1825, false, ⟨false⟩, ⟨.database, true⟩⟩
  registry := fun key => if key = "sample" then some sample_row else none
  registry_at_creation := fun key => if key = "sample" then some sample_row else none
  package_available := fun _ => false
  fromisoformat := fun text =>
    [january_1, january_5].find? (fun d => d.isoformat = text)
  symbol_exists := fun _ => .ok true
  market := third_market
  yesterday := 20
  table := stocked

def sample_request : BacktestRunRequest where
  name := " A run "
  strategy_key := "sample"
  start_date := "1970-01-01"
  end_date := "1970-01-05"
  initial_capital := .fin 1000
  mode := "Event"
  params := ∅

theorem sample_job_well_formed :
    ∃ spec, submit_backtest_run sample_env sample_request (some 1) = .ok spec ∧
      ∃ strategy controls selected,
        WellFormed sample_env sample_request strategy controls selected spec := by
  have haccepted : (submit_backtest_run sample_env sample_request (some 1)).isOk = true := by
    decide +kernel
  obtain ⟨spec, hspec⟩ := Fallible.exists_of_isOk haccepted
  exact ⟨spec, hspec, registered_job_well_formed hspec⟩

end Submission
