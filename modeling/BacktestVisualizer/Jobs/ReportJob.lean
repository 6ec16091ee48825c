import BacktestVisualizer.Engine.EventLoop
import BacktestVisualizer.Framework.Triples
import BacktestVisualizer.Jobs.JobManager

/-! # A Report Job

  `workers/report_job.py` in a worker process: `execute_report` runs one
  backtest through `run_single`, `BacktestEngine.run` and `BacktestRunner.run`
  in event mode. On the way the run reports its progress and asks whether it
  was cancelled; both go through the `JobControl` of the job, which shares a
  dictionary with the job manager.

  What the code around the event loop computes or raises is given by an
  `Env`. The model follows the order of the calls, the percentages, and every
  way a run may stop.
-/

open Engine Program

namespace ReportJob

/-! ### Errors -/

/-- What a run raises. -/
inductive Raised where
  | run_cancelled (text : String)
  /-- Another `EngineError`. -/
  | engine_error (type_name text : String)
  | other (type_name text : String)
  deriving DecidableEq, Repr

/-- `failure_message`: the engine's own errors read as written. -/
def failure_message : Raised → String
  | .run_cancelled text => if text = "" then "RunCancelled" else text
  | .engine_error type_name text => if text = "" then type_name else text
  | .other type_name text => if text = "" then type_name else s!"{type_name}: {text}"

/-- `NoMarketData`. -/
def no_market_data (tickers : List String) (start finish reason : String) : Raised :=
  let ticker_list := if tickers = [] then "<none>" else ", ".intercalate tickers
  .engine_error "NoMarketData" s!"{reason} for [{ticker_list}] between {start} and {finish}. Check the ticker coverage from the configured market-data source for this window."

def CANCELLED_MESSAGE : String := "Cancelled by user"

/-! ### The control of a job -/

/-- `JobControl`. -/
structure JobControl where
  /-- `-inf` at first. -/
  last_poll : Option ℚ
  cancelled : Bool
  last_progress : Option (ℕ × String)
  deriving DecidableEq, Repr

/-- The control with what the job has done to the outside. -/
structure World where
  control : JobControl
  /-- How often the job has asked for a cancellation. -/
  polls : ℕ
  /-- When it looked into the shared dictionary for it. -/
  reads : List ℚ
  /-- The calls of `on_progress`. -/
  reported : List (ℤ × String)
  /-- The values of `state["progress_pct"]`. -/
  shown : List ℕ
  deriving DecidableEq, Repr

def World.init : World where
  control := { last_poll := none, cancelled := false, last_progress := none }
  polls := 0
  reads := []
  reported := []
  shown := [0]

abbrev Job (α : Type) := Program World Raised α

/-- What surrounds the event loop: the clock, the flag of the manager, and
    what the calls on the way return or raise. -/
structure Env (Report : Type) where
  /-- `time.monotonic()` at a poll. -/
  monotonic : ℕ → ℚ
  /-- `state.get("cancel_requested")` at a poll. -/
  cancel_requested : ℕ → Bool
  strategy_name : String
  /-- The tickers and the dates of the request. -/
  tickers : List String
  start : String
  finish : String
  /-- Those of the runner: what the portfolio trades, between its moments. -/
  data_tickers : List String
  data_start : String
  data_finish : String
  show_time : ℤ → String
  /-- `execute_report` before `run_single`. -/
  prepare : Except Raised Unit
  /-- The checks of `run_single`, and `setup`. -/
  checks : Except Raised Unit
  /-- `config.json`. -/
  configure : Except Raised Unit
  from_fmp : Bool
  /-- The strategy's constructor, with the history it needs. -/
  construct : Except Raised Unit
  /-- `_fetch_bars`. -/
  load : Except Raised Backtest
  script : Script
  /-- What the code called at a timestamp raises. -/
  at_timestamp : ℤ → Except Raised Unit
  /-- `generate_backtest_report`. -/
  write_report : Except Raised Unit
  /-- The benchmark, the curve and the metrics of `run_single`. -/
  summarise : Except Raised Unit
  /-- `build_report`. -/
  build_report : LoopState → Except Raised Report

/-- A call that may raise. -/
def call {α : Type} (x : Except Raised α) : Job α := act (fun w => (x, w))

/-- Stop here on a condition. -/
def raise_if (c : Prop) [Decidable c] (e : Raised) : Job Unit := if c then throw e else pure ()

/-- `max(0, min(99, int(pct)))`. -/
def clamped (pct : ℤ) : ℕ := (max 0 (min 99 pct)).toNat

def World.report (w : World) (pct : ℤ) (stage : String) : World :=
  let progress := (clamped pct, stage)
  if some progress = w.control.last_progress then
    { w with reported := w.reported ++ [(pct, stage)] }
  else { w with reported := w.reported ++ [(pct, stage)]
                shown := w.shown ++ [clamped pct]
                control := { w.control with last_progress := some progress } }

/-- `JobControl.on_progress`. -/
def on_progress (pct : ℤ) (stage : String) : Job Unit := modify (fun w => w.report pct stage)

section Runs

variable {Report : Type} (env : Env Report)

/-- The dictionary is looked at again after a tenth of a second. -/
def fresh_look (last_poll : Option ℚ) (now : ℚ) : Bool :=
  match last_poll with
  | none => true
  | some last => 1 / 10 ≤ now - last

def World.poll (w : World) : World :=
  let now := env.monotonic w.polls
  if fresh_look w.control.last_poll now then
    { w with
      polls := w.polls + 1
      reads := w.reads ++ [now]
      control := { w.control with
        last_poll := some now
        cancelled := w.control.cancelled || env.cancel_requested w.polls } }
  else { w with polls := w.polls + 1 }

/-- `JobControl.should_cancel`. -/
def should_cancel : Job Bool :=
  act (fun w => (.ok (w.poll env).control.cancelled, w.poll env))

/-- Stop here if the run is cancelled. -/
def check_cancelled (text : String) : Job Unit := do
  let cancelled ← should_cancel env
  raise_if cancelled (.run_cancelled text)

/-! ### The event loop -/

/-- A percentage is reported once. -/
def report_pct (last_reported_pct pct : ℤ) : Job Unit :=
  if pct ≠ last_reported_pct then on_progress pct "simulating" else pure ()

variable (bt : Backtest)

/-- The loop body, with the percentage last reported. -/
def simulate_step (total_steps : ℕ) (acc : ℤ × LoopState) (x : ℤ × ℕ) :
    Job (ℤ × LoopState) := do
  let time := env.show_time x.1
  let step := x.2
  check_cancelled env s!"Run cancelled at {time} ({step}/{total_steps} steps)"
  let pct : ℤ := x.2 * 100 / total_steps
  report_pct acc.1 pct
  call (env.at_timestamp x.1)
  pure (pct, loop_step bt env.script acc.2 x.1)

/-- `_run_event_loop`. -/
def run_event_loop : Job LoopState :=
  if loop_timestamps bt = [] then pure (LoopState.init bt)
  else do
    let acc ← ((loop_timestamps bt).zipIdx 1).foldlM
      (simulate_step env bt (loop_timestamps bt).length) (-1, LoopState.init bt)
    pure (close_curve bt acc.2)

/-! ### The runs around it -/

/-- The report files, if there is anything to report. -/
def write_report (st : LoopState) : Job Unit :=
  if st.perf_records = [] then pure ()
  else do
    on_progress 100 "writing report"
    call env.write_report

/-- `BacktestRunner.run`, in strict mode. -/
def runner_run : Job LoopState := do
  check_cancelled env "Run cancelled before data preparation"
  on_progress 0 "loading data"
  let bt ← call env.load
  raise_if (bt.main_data = [])
    (no_market_data env.data_tickers env.data_start env.data_finish "no market data")
  let st ← run_event_loop env bt
  write_report env st
  pure st

/-- FMP's history is announced before it is loaded. -/
def load_fmp_data : Job Unit :=
  if env.from_fmp then on_progress 0 "loading FMP data" else pure ()

/-- `BacktestEngine.run`, in strict mode. -/
def engine_run : Job LoopState := do
  let name := env.strategy_name
  check_cancelled env s!"Run cancelled before {name} started"
  call env.configure
  load_fmp_data env
  call env.construct
  runner_run env

/-- The body of `run_single`. -/
def run_body : Job LoopState := do
  call env.checks
  on_progress 0 "starting"
  let st ← engine_run env
  raise_if (st.perf_records = [])
    (no_market_data env.tickers env.start env.finish
      "the backtest produced no performance records")
  call env.summarise
  on_progress 100 "completed"
  pure st

/-- `RunResult`. -/
inductive RunResult where
  | completed (st : LoopState)
  | cancelled (error : String)
  | failed (error : String)

/-- A run over with an error. -/
def RunResult.of_error : Raised → RunResult
  | .run_cancelled text => .cancelled text
  | e => .failed (failure_message e)

/-- `run_single`: it never raises. -/
def run_single (w : World) : RunResult × World :=
  match start (run_body env) w with
  | (.ok st, w') => (.completed st, w')
  | (.error e, w') => (.of_error e, w')

/-- What is made of the result of a run. -/
def report_of : RunResult → Job (Jobs.Outcome Report)
  | .cancelled _ => pure (.error CANCELLED_MESSAGE)
  | .failed error => pure (.error (if error = "" then "The backtest failed." else error))
  | .completed st => do
      let cancelled ← should_cancel env
      if cancelled then pure (.error CANCELLED_MESSAGE)
      else do
        let report ← call (env.build_report st)
        pure (.report report)

/-- `state.update(status="running", progress_pct=0)`. -/
def World.running (w : World) : World := { w with shown := w.shown ++ [0] }

/-- The body of `execute_report`. -/
def report_body : Job (Jobs.Outcome Report) := do
  let cancelled ← should_cancel env
  if cancelled then pure (.error CANCELLED_MESSAGE)
  else do
    modify World.running
    call env.prepare
    let result ← act (fun w => (.ok (run_single env w).1, (run_single env w).2))
    report_of env result

/-- `execute_report`: a report, or the text of an error. -/
def execute_report (w : World) : Jobs.Outcome Report × World :=
  match start (report_body env) w with
  | (.ok outcome, w') => (outcome, w')
  | (.error e, w') => (.error (Jobs.truncated (failure_message e)), w')

end Runs

/-! ### What every call keeps -/

/-- The percentages reported and shown so far do not exceed `k`, none came
    after a greater one, 100 is never shown, and the dictionary was not looked
    at too often. The reports in `told` have been made. -/
structure Kept (k : ℤ) (told : List (ℤ × String)) (w : World) : Prop where
  nonneg : 0 ≤ k
  reported_sorted : w.reported.Pairwise (fun a b => a.1 ≤ b.1)
  reported_le : ∀ r ∈ w.reported, 0 ≤ r.1 ∧ r.1 ≤ k
  shown_sorted : w.shown.Pairwise (· ≤ ·)
  shown_le : ∀ p ∈ w.shown, p ≤ 99 ∧ (p : ℤ) ≤ k
  spaced : w.reads.IsChain (fun a b => a + 1 / 10 ≤ b)
  last_read : w.control.last_poll = w.reads.getLast?
  told_mem : told ⊆ w.reported

section Kept

variable {k pct : ℤ} {told : List (ℤ × String)} {w : World}

theorem Kept.mono {k' : ℤ} {told' : List (ℤ × String)} (h : Kept k told w) (hk : k ≤ k')
    (htold : told' ⊆ told) : Kept k' told' w :=
  ⟨le_trans h.nonneg hk, h.reported_sorted,
    fun r hr => ⟨(h.reported_le r hr).1, le_trans (h.reported_le r hr).2 hk⟩, h.shown_sorted,
    fun p hp => ⟨(h.shown_le p hp).1, le_trans (h.shown_le p hp).2 hk⟩, h.spaced, h.last_read,
    fun _ hr => h.told_mem (htold hr)⟩

/-- Something that is not smaller goes to the end of a sorted list. -/
theorem pairwise_le_concat {α β : Type} [Preorder β] {f : α → β} {l : List α} {a : α}
    (hl : l.Pairwise (fun x y => f x ≤ f y)) (ha : ∀ x ∈ l, f x ≤ f a) :
    (l ++ [a]).Pairwise (fun x y => f x ≤ f y) := by
  rw [List.pairwise_append]
  refine ⟨hl, List.pairwise_singleton _ a, ?_⟩
  intro x hx y hy
  rw [List.mem_singleton.mp hy]
  exact ha x hx

/-- **A report** that is not smaller than the last one. -/
theorem Kept.report (h : Kept k told w) (hk : k ≤ pct) (hpct : pct ≤ 100) (stage : String) :
    Kept pct ((pct, stage) :: told) (w.report pct stage) := by
  have hpos : 0 ≤ pct := le_trans h.nonneg hk
  have hclamped : clamped pct ≤ 99 ∧ (clamped pct : ℤ) ≤ pct := by
    unfold clamped
    omega
  have hreported : (w.reported ++ [(pct, stage)]).Pairwise (fun a b => a.1 ≤ b.1) :=
    pairwise_le_concat h.reported_sorted (fun r hr => le_trans (h.reported_le r hr).2 hk)
  have hle : ∀ r ∈ w.reported ++ [(pct, stage)], 0 ≤ r.1 ∧ r.1 ≤ pct := by
    intro r hr
    rcases List.mem_append.mp hr with hr | hr
    · exact ⟨(h.reported_le r hr).1, le_trans (h.reported_le r hr).2 hk⟩
    · rw [List.mem_singleton.mp hr]
      exact ⟨hpos, le_refl pct⟩
  have hshown : ∀ p ∈ w.shown, p ≤ 99 ∧ (p : ℤ) ≤ pct :=
    fun p hp => ⟨(h.shown_le p hp).1, le_trans (h.shown_le p hp).2 hk⟩
  have htold : (pct, stage) :: told ⊆ w.reported ++ [(pct, stage)] := by
    intro r hr
    rcases List.mem_cons.mp hr with rfl | hr
    · exact List.mem_append_right _ (List.mem_singleton_self _)
    · exact List.mem_append_left _ (h.told_mem hr)
  unfold World.report
  simp only
  split
  · exact ⟨hpos, hreported, hle, h.shown_sorted, hshown, h.spaced, h.last_read, htold⟩
  · refine ⟨hpos, hreported, hle, ?_, ?_, h.spaced, h.last_read, htold⟩
    · apply pairwise_le_concat (f := fun p : ℕ => p) h.shown_sorted
      intro p hp
      -- the clamped values keep the order of the percentages
      have hold := h.shown_le p hp
      unfold clamped
      omega
    · intro p hp
      rcases List.mem_append.mp hp with hp | hp
      · exact hshown p hp
      · rw [List.mem_singleton.mp hp]
        exact hclamped

theorem report_control (w : World) (pct : ℤ) (stage : String) :
    (w.report pct stage).control.cancelled = w.control.cancelled := by
  unfold World.report
  simp only
  split
  · rfl
  · rfl

/-- **A poll** looks into the dictionary a tenth of a second after the last
    look, or not at all. -/
theorem Kept.poll {Report : Type} (env : Env Report) (h : Kept k told w) :
    Kept k told (w.poll env) := by
  unfold World.poll
  simp only
  by_cases hlook : fresh_look w.control.last_poll (env.monotonic w.polls)
  · rw [if_pos hlook]
    refine ⟨h.nonneg, h.reported_sorted, h.reported_le, h.shown_sorted, h.shown_le, ?_, ?_,
      h.told_mem⟩
    · rw [List.isChain_append]
      refine ⟨h.spaced, List.isChain_singleton _, ?_⟩
      intro last hlast now hnow
      obtain rfl : env.monotonic w.polls = now := by simpa using hnow
      rw [h.last_read, hlast] at hlook
      unfold fresh_look at hlook
      simp only [decide_eq_true_eq] at hlook
      linarith
    · rw [List.getLast?_concat]
  · rw [if_neg hlook]
    exact ⟨h.nonneg, h.reported_sorted, h.reported_le, h.shown_sorted, h.shown_le, h.spaced,
      h.last_read, h.told_mem⟩

end Kept

/-- The run goes on: no poll has seen a cancellation. -/
def Running (k : ℤ) (told : List (ℤ × String)) (w : World) : Prop :=
  Kept k told w ∧ w.control.cancelled = false

/-- The run was stopped; after a poll that saw a cancellation, by that. -/
def Stopped (e : Raised) (w : World) : Prop :=
  Kept 100 [] w ∧ (w.control.cancelled = true → ∃ text, e = .run_cancelled text)

section Triples

variable {Report : Type} {env : Env Report} {k pct : ℤ} {told : List (ℤ × String)}

theorem Running.stopped {w : World} (h : Running k told w) (hk : k ≤ 100) (e : Raised) :
    Stopped e w := by
  refine ⟨h.1.mono hk (List.nil_subset told), ?_⟩
  intro hcancelled
  rw [h.2] at hcancelled
  cases hcancelled

theorem triple_call_running {α : Type} (x : Except Raised α) :
    Triple (Running k told) (call x) (fun a w => Running k told w ∧ x = .ok a)
      (fun _ => Running k told) :=
  .except (fun _ _ hx hw => ⟨hw, hx⟩) (fun _ _ _ hw => hw)

theorem triple_call {α : Type} (hk : k ≤ 100) (x : Except Raised α) :
    Triple (Running k told) (call x) (fun a w => Running k told w ∧ x = .ok a) Stopped :=
  (triple_call_running x).weaken (fun _ h => h) (fun _ _ h => h) (fun e _ hw => hw.stopped hk e)

theorem triple_on_progress (hk : k ≤ pct) (hpct : pct ≤ 100) (stage : String) :
    Triple (Running k told) (on_progress pct stage)
      (fun _ => Running pct ((pct, stage) :: told)) Stopped := by
  apply Triple.modify
  intro w hw
  exact ⟨hw.1.report hk hpct stage, (report_control w pct stage).trans hw.2⟩

theorem triple_should_cancel {E : Raised → World → Prop} :
    Triple (Running k told) (should_cancel env)
      (fun cancelled w => Kept k told w ∧ w.control.cancelled = cancelled) E :=
  fun _ hw => ⟨hw.1.poll env, rfl⟩

theorem triple_check_cancelled (hk : k ≤ 100) (text : String) :
    Triple (Running k told) (check_cancelled env text) (fun _ => Running k told) Stopped := by
  apply Triple.bind triple_should_cancel
  intro cancelled
  apply Triple.ite
  · intro _
    apply Triple.throw
    intro w hw
    exact ⟨hw.1.mono hk (List.nil_subset told), fun _ => ⟨text, rfl⟩⟩
  · intro hfalse
    apply Triple.pure
    intro w hw
    exact ⟨hw.1, hw.2.trans (Bool.not_eq_true _ ▸ hfalse)⟩

theorem triple_raise_if (hk : k ≤ 100) (c : Prop) [Decidable c] (e : Raised) :
    Triple (Running k told) (raise_if c e) (fun _ w => Running k told w ∧ ¬ c) Stopped := by
  apply Triple.ite
  · intro _
    exact Triple.throw (fun w hw => hw.stopped hk e)
  · intro hc
    exact Triple.pure (fun w hw => ⟨hw, hc⟩)

/-! ### The loop -/

/-- The percentage after some of the steps. -/
def pct_of (total_steps : ℕ) (done : List (ℤ × ℕ)) : ℤ := (done.length : ℤ) * 100 / total_steps

/-- What has been reported of the simulation. -/
def told_of (total_steps : ℕ) (done : List (ℤ × ℕ)) : List (ℤ × String) :=
  if done = [] then [] else [(pct_of total_steps done, "simulating")]

variable {bt : Backtest} {total_steps : ℕ}

theorem pct_of_le {done : List (ℤ × ℕ)} (h : done.length ≤ total_steps) :
    pct_of total_steps done ≤ 100 := by
  unfold pct_of
  rcases Nat.eq_zero_or_pos total_steps with rfl | hpos
  · simp
  · have hscaled : (done.length : ℤ) * 100 ≤ 100 * total_steps := by omega
    exact Int.ediv_le_of_le_mul (by exact_mod_cast hpos) hscaled

theorem pct_of_mono {done done' : List (ℤ × ℕ)} (h : done.length ≤ done'.length) :
    pct_of total_steps done ≤ pct_of total_steps done' := by
  unfold pct_of
  rcases Nat.eq_zero_or_pos total_steps with rfl | hpos
  · simp
  · exact Int.ediv_le_ediv (by exact_mod_cast hpos) (by omega)

/-- What holds in the loop after some of its steps. -/
structure Simulated (env : Env Report) (bt : Backtest) (total_steps : ℕ) (done : List (ℤ × ℕ))
    (acc : ℤ × LoopState) (w : World) : Prop where
  running : Running (pct_of total_steps done) (told_of total_steps done) w
  last_reported : done = [] ∧ acc.1 = -1 ∨ done ≠ [] ∧ acc.1 = pct_of total_steps done
  state : acc.2 = Engine.run_event_loop bt env.script (done.map Prod.fst)
  called : ∀ x ∈ done, env.at_timestamp x.1 = .ok ()

/-- A percentage that was reported before is not reported again. -/
theorem triple_report_pct {done done' : List (ℤ × ℕ)} {last_reported_pct : ℤ}
    (hlength : done'.length = done.length + 1) (hle : done'.length ≤ total_steps)
    (hlast : done = [] ∧ last_reported_pct = -1 ∨
      done ≠ [] ∧ last_reported_pct = pct_of total_steps done) :
    Triple (Running (pct_of total_steps done) (told_of total_steps done))
      (report_pct last_reported_pct (pct_of total_steps done'))
      (fun _ => Running (pct_of total_steps done') (told_of total_steps done')) Stopped := by
  have hne : done' ≠ [] := List.ne_nil_of_length_pos (by omega)
  have hmono : pct_of total_steps done ≤ pct_of total_steps done' := pct_of_mono (by omega)
  have htold : told_of total_steps done' = [(pct_of total_steps done', "simulating")] :=
    if_neg hne
  apply Triple.ite
  · intro _
    apply (triple_on_progress hmono (pct_of_le hle) "simulating").weaken
    · exact fun w hw => hw
    · intro _ w hw
      rw [htold]
      exact ⟨hw.1.mono (le_refl _) (by simp), hw.2⟩
    · exact fun e w hw => hw
  · intro hsame
    apply Triple.pure
    intro w hw
    rw [not_not] at hsame
    rcases hlast with ⟨_, hfirst⟩ | ⟨hsome, hpct⟩
    · -- the first percentage is new
      have hpos : 0 ≤ pct_of total_steps done' := le_trans hw.1.nonneg hmono
      omega
    · have hold : told_of total_steps done = [(pct_of total_steps done, "simulating")] :=
        if_neg hsome
      rw [hold] at hw
      rw [htold, hsame, hpct]
      exact hw

/-- **One step of the loop.** -/
theorem triple_simulate_step {done rest : List (ℤ × ℕ)} {x : ℤ × ℕ} {acc : ℤ × LoopState}
    (hsteps : total_steps = (done ++ x :: rest).length) (hstep : x.2 = done.length + 1) :
    Triple (Simulated env bt total_steps done acc) (simulate_step env bt total_steps acc x)
      (Simulated env bt total_steps (done ++ [x])) Stopped := by
  have hlength : (done ++ [x]).length = done.length + 1 := by simp
  have hle : (done ++ [x]).length ≤ total_steps := by
    rw [hsteps]
    simp
  have hpct : (x.2 : ℤ) * 100 / total_steps = pct_of total_steps (done ++ [x]) := by
    unfold pct_of
    rw [hstep, hlength]
  have hk : pct_of total_steps done ≤ 100 := pct_of_le (by omega)
  intro w hw
  unfold simulate_step
  simp only
  rw [hpct]
  -- the facts about the steps done do not speak of the world
  refine Triple.bind (triple_check_cancelled hk _) (fun _ =>
    Triple.bind (triple_report_pct hlength hle hw.last_reported) (fun _ =>
      Triple.bind (triple_call (pct_of_le hle) (env.at_timestamp x.1)) (fun _ => ?_)))
    w hw.running
  apply Triple.pure
  intro w' hw'
  obtain ⟨hrunning, hcalled⟩ := hw'
  refine ⟨hrunning, .inr ⟨by simp, rfl⟩, ?_, ?_⟩
  · rw [List.map_append, List.map_singleton, run_event_loop_snoc, ← hw.state]
  · intro y hy
    rcases List.mem_append.mp hy with hy | hy
    · exact hw.called y hy
    · rw [List.mem_singleton.mp hy]
      exact hcalled

/-- A loop that went through. -/
structure WholeLoop (env : Env Report) (bt : Backtest) (st : LoopState) : Prop where
  state : st = close_curve bt (Engine.run_event_loop bt env.script (loop_timestamps bt))
  called : ∀ ts ∈ loop_timestamps bt, env.at_timestamp ts = .ok ()

/-- **The loop** reports 100 % after its last step. -/
theorem triple_run_event_loop (hne : loop_timestamps bt ≠ []) :
    Triple (Running 0 []) (run_event_loop env bt)
      (fun st w => Running 100 [(100, "simulating")] w ∧ WholeLoop env bt st) Stopped := by
  generalize hsteps : (loop_timestamps bt).zipIdx 1 = steps
  have hlength : steps.length = (loop_timestamps bt).length := by
    rw [← hsteps, List.length_zipIdx]
  have hfst : steps.map Prod.fst = loop_timestamps bt := by
    rw [← hsteps, List.zipIdx_map_fst]
  have hnonempty : steps ≠ [] := by
    intro hnil
    rw [hnil] at hfst
    exact hne hfst.symm
  unfold run_event_loop
  rw [if_neg hne, hsteps, ← hlength]
  have hloop : Triple (Simulated env bt steps.length [] (-1, LoopState.init bt))
      (steps.foldlM (simulate_step env bt steps.length) (-1, LoopState.init bt))
      (Simulated env bt steps.length steps) Stopped := by
    apply Triple.foldlM
    intro done x rest acc hl
    apply triple_simulate_step (by rw [hl])
    have hget : steps[done.length]? = some x := by
      rw [hl]
      simp
    rw [← hsteps, List.getElem?_zipIdx] at hget
    obtain ⟨ts, _, rfl⟩ := Option.map_eq_some_iff.mp hget
    simp only
    omega
  apply Triple.bind
  · apply hloop.weaken
    · intro w hw
      refine ⟨?_, .inl ⟨rfl, rfl⟩, rfl, fun x hx => absurd hx (List.not_mem_nil)⟩
      unfold pct_of told_of
      simpa using hw
    · exact fun _ _ h => h
    · exact fun _ _ h => h
  · intro acc
    apply Triple.pure
    intro w hw
    have hpos : (0 : ℤ) < steps.length := by
      have := List.length_pos_iff.mpr hnonempty
      exact_mod_cast this
    have hfull : pct_of steps.length steps = 100 := by
      unfold pct_of
      rw [mul_comm]
      exact Int.mul_ediv_cancel _ (ne_of_gt hpos)
    have htold : told_of steps.length steps = [(100, "simulating")] := by
      unfold told_of
      rw [if_neg hnonempty, hfull]
    refine ⟨?_, ?_, ?_⟩
    · have hrunning := hw.running
      rw [hfull, htold] at hrunning
      exact hrunning
    · rw [hw.state, hfst]
    · intro ts hts
      rw [← hfst] at hts
      obtain ⟨x, hx, rfl⟩ := List.mem_map.mp hts
      exact hw.called x hx

/-! ### The runs -/

/-- A run over all timestamps, none of which raised anything. -/
def WholeRun (env : Env Report) (st : LoopState) : Prop :=
  ∃ bt, env.load = .ok bt ∧ loop_timestamps bt ≠ [] ∧ WholeLoop env bt st

/-- What is known after a run through the whole loop. -/
def Through (env : Env Report) (st : LoopState) (w : World) : Prop :=
  Running 100 [(100, "simulating")] w ∧ WholeRun env st

theorem triple_on_progress_again (stage : String) :
    Triple (Running 100 told) (on_progress 100 stage) (fun _ => Running 100 told) Stopped :=
  (triple_on_progress (le_refl 100) (le_refl 100) stage).weaken (fun _ h => h)
    (fun _ _ h => ⟨h.1.mono (le_refl 100) (List.subset_cons_self _ _), h.2⟩) (fun _ _ h => h)

theorem triple_on_progress_zero (stage : String) :
    Triple (Running 0 []) (on_progress 0 stage) (fun _ => Running 0 []) Stopped :=
  (triple_on_progress (le_refl 0) (by norm_num) stage).weaken (fun _ h => h)
    (fun _ _ h => ⟨h.1.mono (le_refl 0) (List.nil_subset _), h.2⟩) (fun _ _ h => h)

theorem triple_write_report (st : LoopState) :
    Triple (Running 100 told) (write_report env st) (fun _ => Running 100 told) Stopped := by
  apply Triple.ite
  · intro _
    exact Triple.pure (fun _ h => h)
  · intro _
    apply Triple.bind (triple_on_progress_again "writing report")
    intro _
    exact (triple_call (le_refl 100) env.write_report).weaken (fun _ h => h) (fun _ _ h => h.1)
      (fun _ _ h => h)

/-- **The runner** goes through the whole loop or has nothing to show. -/
theorem triple_runner_run :
    Triple (Running 0 []) (runner_run env)
      (fun st w => Through env st w ∨ (Running 100 [] w ∧ st.perf_records = [])) Stopped := by
  have hzero : (0 : ℤ) ≤ 100 := by norm_num
  apply Triple.bind (triple_check_cancelled hzero _)
  intro _
  apply Triple.bind (triple_on_progress_zero _)
  intro _
  apply Triple.bind (triple_call hzero env.load)
  intro bt
  apply Triple.bind (Q := fun _ w => Running 0 [] w ∧ env.load = .ok bt)
  · intro w hw
    exact (triple_raise_if hzero _ _).weaken (fun _ h => h) (fun _ _ h => ⟨h.1, hw.2⟩)
      (fun _ _ h => h) w hw.1
  intro _
  by_cases hne : loop_timestamps bt = []
  · -- the frame ends before the run starts
    apply Triple.bind (Q := fun st w => Running 100 [] w ∧ st.perf_records = [])
    · unfold run_event_loop
      rw [if_pos hne]
      apply Triple.pure
      intro w hw
      exact ⟨⟨hw.1.1.mono hzero (List.nil_subset _), hw.1.2⟩, rfl⟩
    · intro st w hw
      refine Triple.bind (triple_write_report st) (fun _ => Triple.pure (fun w' hw' => ?_)) w hw.1
      exact .inr ⟨hw', hw.2⟩
  · apply Triple.bind (Q := Through env)
    · intro w hw
      exact (triple_run_event_loop hne).weaken (fun _ h => h)
        (fun _ _ h => ⟨h.1, bt, hw.2, hne, h.2⟩) (fun _ _ h => h) w hw.1
    · intro st w hw
      refine Triple.bind (triple_write_report st) (fun _ => Triple.pure (fun w' hw' => ?_)) w hw.1
      exact .inl ⟨hw', hw.2⟩

theorem triple_load_fmp_data :
    Triple (Running 0 []) (load_fmp_data env) (fun _ => Running 0 []) Stopped := by
  apply Triple.ite
  · intro _
    exact triple_on_progress_zero _
  · intro _
    exact Triple.pure (fun _ h => h)

theorem triple_engine_run :
    Triple (Running 0 []) (engine_run env)
      (fun st w => Through env st w ∨ (Running 100 [] w ∧ st.perf_records = [])) Stopped := by
  have hzero : (0 : ℤ) ≤ 100 := by norm_num
  apply Triple.bind (triple_check_cancelled hzero _)
  intro _
  apply Triple.bind ((triple_call hzero env.configure).weaken (fun _ h => h) (fun _ _ h => h.1)
    (fun _ _ h => h))
  intro _
  apply Triple.bind triple_load_fmp_data
  intro _
  apply Triple.bind ((triple_call hzero env.construct).weaken (fun _ h => h) (fun _ _ h => h.1)
    (fun _ _ h => h))
  intro _
  exact triple_runner_run

theorem triple_run_body : Triple (Running 0 []) (run_body env) (Through env) Stopped := by
  have hzero : (0 : ℤ) ≤ 100 := by norm_num
  apply Triple.bind ((triple_call hzero env.checks).weaken (fun _ h => h) (fun _ _ h => h.1)
    (fun _ _ h => h))
  intro _
  apply Triple.bind (triple_on_progress_zero _)
  intro _
  apply Triple.bind triple_engine_run
  intro st
  apply Triple.bind (Q := fun _ => Through env st)
  · -- a run without records is not completed
    intro w hw
    rcases hw with hthrough | ⟨hrunning, hempty⟩
    · exact (triple_raise_if (le_refl 100) _ _).weaken (fun _ h => h)
        (fun _ _ h => ⟨h.1, hthrough.2⟩) (fun _ _ h => h) w hthrough.1
    · exact (triple_raise_if (le_refl 100) _ _).weaken (fun _ h => h)
        (fun _ _ h => absurd hempty h.2) (fun _ _ h => h) w hrunning
  intro _ w hw
  refine Triple.bind ((triple_call (le_refl 100) env.summarise).weaken (fun _ h => h)
    (fun _ _ h => h.1) (fun _ _ h => h)) (fun _ => Triple.bind (triple_on_progress_again _)
      (fun _ => Triple.pure (fun w' hw' => ?_))) w hw.1
  exact ⟨hw', hw.2⟩

/-! ### The job -/

/-- What is known of the result of a run. -/
def ResultOf (env : Env Report) (w : World) : RunResult → Prop
  | .completed st => Through env st w
  | .cancelled _ => Kept 100 [] w
  | .failed _ => Running 100 [] w

theorem run_single_result {w : World} (h : Running 0 [] w) :
    ResultOf env (run_single env w).2 (run_single env w).1 := by
  unfold run_single
  cases hrun : start (run_body env) w with
  | mk r w' =>
    cases r with
    | ok st => exact triple_run_body.ok h hrun
    | error e =>
      obtain ⟨hkept, hcancelled⟩ := triple_run_body.error h hrun
      cases hflag : w'.control.cancelled with
      | true =>
        obtain ⟨text, rfl⟩ := hcancelled hflag
        exact hkept
      | false =>
        cases e with
        | run_cancelled text => exact hkept
        | engine_error type_name text => exact ⟨hkept, hflag⟩
        | other type_name text => exact ⟨hkept, hflag⟩

/-- A report that was made of a whole run. -/
def ReportOf (env : Env Report) (report : Report) (w : World) : Prop :=
  Running 100 [(100, "simulating")] w ∧
    ∃ st, WholeRun env st ∧ env.build_report st = .ok report

/-- What is known of the outcome of a job. -/
structure OutcomeOf (env : Env Report) (outcome : Jobs.Outcome Report) (w : World) : Prop where
  kept : Kept 100 [] w
  cancelled : w.control.cancelled = true → outcome = .error CANCELLED_MESSAGE
  report : ∀ report, outcome = .report report → ReportOf env report w

theorem OutcomeOf.of_error {w : World} (h : Running 100 [] w) (message : String) :
    OutcomeOf env (.error message) w := by
  refine ⟨h.1, ?_, ?_⟩
  · intro hcancelled
    rw [h.2] at hcancelled
    cases hcancelled
  · intro report hreport
    cases hreport

theorem OutcomeOf.of_cancelled {w : World} (h : Kept 100 [] w) :
    OutcomeOf env (.error CANCELLED_MESSAGE) w := by
  refine ⟨h, fun _ => rfl, ?_⟩
  intro report hreport
  cases hreport

theorem triple_report_of (result : RunResult) :
    Triple (fun w => ResultOf env w result) (report_of env result) (OutcomeOf env)
      (fun _ => Running 100 []) := by
  cases result with
  | cancelled text => exact Triple.pure (fun w hw => .of_cancelled hw)
  | failed text => exact Triple.pure (fun w hw => .of_error hw _)
  | completed st =>
    intro w hw
    obtain ⟨hrunning, hwhole⟩ := hw
    have hpoll : Triple (Running 100 [(100, "simulating")]) (should_cancel env)
        (fun cancelled w => Kept 100 [(100, "simulating")] w ∧ w.control.cancelled = cancelled)
        (fun _ => Running 100 []) := triple_should_cancel
    refine Triple.bind hpoll (fun cancelled => ?_) w hrunning
    apply Triple.ite
    · intro _
      exact Triple.pure (fun w' hw' => .of_cancelled (hw'.1.mono (le_refl 100) (List.nil_subset _)))
    · intro hfalse
      apply Triple.bind (Q := fun report w' =>
        Running 100 [(100, "simulating")] w' ∧ env.build_report st = .ok report)
      · apply (triple_call_running (env.build_report st)).weaken
        · intro w' hw'
          exact ⟨hw'.1, hw'.2.trans (Bool.not_eq_true _ ▸ hfalse)⟩
        · exact fun _ _ h => h
        · exact fun _ _ h => ⟨h.1.mono (le_refl 100) (List.nil_subset _), h.2⟩
      · intro report
        apply Triple.pure
        intro w' hw'
        obtain ⟨hkept, hflag⟩ := hw'.1
        refine ⟨hkept.mono (le_refl 100) (List.nil_subset _), ?_, ?_⟩
        · intro hcancelled
          rw [hflag] at hcancelled
          cases hcancelled
        · intro report' hreport
          obtain rfl : report = report' := by injection hreport
          exact ⟨hw'.1, st, hwhole, hw'.2⟩

theorem Kept.running {w : World} (h : Kept 0 [] w) : Kept 0 [] w.running := by
  refine ⟨h.nonneg, h.reported_sorted, h.reported_le, ?_, ?_, h.spaced, h.last_read, h.told_mem⟩
  · apply pairwise_le_concat (f := fun p : ℕ => p) h.shown_sorted
    intro p hp
    have hold := (h.shown_le p hp).2
    omega
  · intro p hp
    rcases List.mem_append.mp hp with hp | hp
    · exact h.shown_le p hp
    · rw [List.mem_singleton.mp hp]
      norm_num

theorem triple_report_body :
    Triple (Running 0 []) (report_body env) (OutcomeOf env) (fun _ => Running 100 []) := by
  have hzero : (0 : ℤ) ≤ 100 := by norm_num
  apply Triple.bind triple_should_cancel
  intro cancelled
  apply Triple.ite
  · intro _
    exact Triple.pure (fun w hw => .of_cancelled (hw.1.mono hzero (List.nil_subset _)))
  · intro hfalse
    apply Triple.bind (Q := fun _ => Running 0 [])
    · apply Triple.modify
      intro w hw
      exact ⟨hw.1.running, hw.2.trans (Bool.not_eq_true _ ▸ hfalse)⟩
    · intro _
      apply Triple.bind (Q := fun _ => Running 0 [])
      · exact (triple_call_running env.prepare).weaken (fun _ h => h) (fun _ _ h => h.1)
          (fun _ _ h => ⟨h.1.mono hzero (List.nil_subset _), h.2⟩)
      · intro _
        apply Triple.bind (Q := fun result w => ResultOf env w result)
        · exact Triple.act (fun w hw => run_single_result hw)
        · exact triple_report_of

theorem running_init : Running 0 [] World.init := by
  refine ⟨⟨le_refl 0, ?_, ?_, ?_, ?_, ?_, rfl, ?_⟩, rfl⟩
  · exact List.Pairwise.nil
  · exact fun r hr => absurd hr (List.not_mem_nil)
  · exact List.pairwise_singleton _ 0
  · intro p hp
    rw [List.mem_singleton.mp hp]
    norm_num
  · exact List.isChain_nil
  · exact List.nil_subset _

theorem execute_report_outcome (env : Env Report) :
    OutcomeOf env (execute_report env .init).1 (execute_report env .init).2 := by
  unfold execute_report
  cases hrun : start (report_body env) .init with
  | mk r w' =>
    cases r with
    | ok outcome => exact triple_report_body.ok running_init hrun
    | error e => exact .of_error (triple_report_body.error running_init hrun) _

end Triples

/-- **The progress of a job.** However a job ends and whatever the code
    around it does: the run reports percentages between 0 and 100, none after
    a greater one; the manager sees none below an earlier one, and never 100;
    and the shared dictionary is not asked for a cancellation twice within a
    tenth of a second. -/
theorem report_job_progress {Report : Type} (env : Env Report) :
    (execute_report env .init).2.reported.Pairwise (fun a b => a.1 ≤ b.1) ∧
    (∀ r ∈ (execute_report env .init).2.reported, 0 ≤ r.1 ∧ r.1 ≤ 100) ∧
    (execute_report env .init).2.shown.Pairwise (· ≤ ·) ∧
    (∀ p ∈ (execute_report env .init).2.shown, p ≤ 99) ∧
    (execute_report env .init).2.reads.IsChain (fun a b => a + 1 / 10 ≤ b) := by
  have hkept := (execute_report_outcome env).kept
  exact ⟨hkept.reported_sorted, hkept.reported_le, hkept.shown_sorted,
    fun p hp => (hkept.shown_le p hp).1, hkept.spaced⟩

/-- **The outcome of a job.** Once a poll has seen a cancellation the job ends
    as cancelled, whatever it was doing. A report is only made of a whole run:
    no poll saw a cancellation, the loop went through every timestamp of the
    window and reported 100 %, there was at least one, nothing raised there,
    and the report is that of the final state of the event loop. -/
theorem report_job_outcome {Report : Type} (env : Env Report) :
    ((execute_report env .init).2.control.cancelled = true →
      (execute_report env .init).1 = .error CANCELLED_MESSAGE) ∧
    ∀ report, (execute_report env .init).1 = .report report →
      (execute_report env .init).2.control.cancelled = false ∧
      (100, "simulating") ∈ (execute_report env .init).2.reported ∧
      ∃ bt, env.load = .ok bt ∧ loop_timestamps bt ≠ [] ∧
        (∀ ts ∈ loop_timestamps bt, env.at_timestamp ts = .ok ()) ∧
        env.build_report
          (close_curve bt (Engine.run_event_loop bt env.script (loop_timestamps bt))) =
            .ok report := by
  obtain ⟨_, hcancelled, hreport⟩ := execute_report_outcome env
  refine ⟨hcancelled, ?_⟩
  intro report h
  obtain ⟨⟨hkept, hflag⟩, st, ⟨bt, hload, hne, hwhole⟩, hbuild⟩ := hreport report h
  refine ⟨hflag, hkept.told_mem (List.mem_singleton_self _), bt, hload, hne, hwhole.called, ?_⟩
  rw [← hwhole.state]
  exact hbuild

end ReportJob
