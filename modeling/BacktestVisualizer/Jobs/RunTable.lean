import BacktestVisualizer.Jobs.JobManager

/-! # The Run Table

  `src/workers/run_job.py`, `src/workers/reconciler.py` and
  `src/repositories/runs.py`: a run is a row of `backtest_runs`, and its
  status says what the workers, the API and the startup repair may do with
  it. A worker claims the row with `UPDATE ... WHERE status = 'queued'`,
  beats while it works, and leaves the row completed or failed; a startup
  fails the running rows whose beat is old.

  The system follows one run. A step is one SQL statement or transaction,
  or a move of one worker between two of them. The same id may be delivered
  to any number of workers.
-/

open LTS

namespace RunTable

open Jobs (Status truncated cancelled_message)

variable {Report : Type}

/-! ### States -/

/-- The columns of a run that decide what happens to it, with what
    `_persist_success` stored under its id. -/
structure RunRow (Report : Type) where
  status : Status
  cancel_requested : Bool
  progress_pct : ℕ
  heartbeat_at : Option ℤ
  error_message : Option String
  results : Option Report
  deriving DecidableEq, Repr

/-- `create_run`. -/
def RunRow.queued : RunRow Report where
  status := .queued
  cancel_requested := false
  progress_pct := 0
  heartbeat_at := none
  error_message := none
  results := none

/-- What `run_job` returns. -/
inductive Outcome where
  | completed
  | failed
  | skipped
  deriving DecidableEq, Repr

/-- Where `run_job` stands. A worker fails with or without having claimed
    the run; `dead` is a process that was taken away. -/
inductive Phase (Report : Type) where
  | starting
  | loading
  | polling
  | simulating
  | persisting (report : Report)
  | failing (claimed : Bool) (message : String)
  | over (outcome : Outcome)
  | dead
  deriving DecidableEq, Repr

/-- A worker with its `_RunHeartbeat`. -/
structure Worker (Report : Type) where
  phase : Phase Report
  beating : Bool
  cancelled : Bool
  deriving DecidableEq, Repr

/-- `run_job` begins. -/
def Worker.started : Worker Report where
  phase := .starting
  beating := false
  cancelled := false

structure State (Report : Type) where
  now : ℤ
  created : Bool
  row : Option (RunRow Report)
  workers : ℕ → Option (Worker Report)

/-- Functional update of one worker. -/
def set_worker (f : ℕ → Option (Worker Report)) (w : ℕ) (x : Worker Report) :
    ℕ → Option (Worker Report) :=
  fun v => if v = w then some x else f v

@[simp] theorem set_worker_self (f : ℕ → Option (Worker Report)) (w : ℕ) (x : Worker Report) :
    set_worker f w x w = some x := by
  simp [set_worker]

@[simp] theorem set_worker_ne (f : ℕ → Option (Worker Report)) {w v : ℕ} (x : Worker Report)
    (h : v ≠ w) : set_worker f w x v = f v := by
  simp [set_worker, h]

theorem set_worker_twice (f : ℕ → Option (Worker Report)) (w : ℕ) (x y : Worker Report) :
    set_worker (set_worker f w x) w y = set_worker f w y := by
  funext v
  by_cases h : v = w
  · simp [h]
  · simp [h]

/-! ### Statements on the row -/

/-- `INTERRUPTED_MESSAGE`. -/
def interrupted_message : String := "Interrupted by server restart"

/-- `_claim`, on a queued row. -/
def RunRow.claim (now : ℤ) (row : RunRow Report) : RunRow Report :=
  { row with status := .running, heartbeat_at := some now, progress_pct := 0, error_message := none }

/-- `_persist_success`. -/
def RunRow.complete (report : Report) (row : RunRow Report) : RunRow Report :=
  { row with status := .completed, results := some report, progress_pct := 100, error_message := none }

/-- The message of a failure, never empty and cut to the limit. -/
def failure_text (message : String) : String :=
  truncated (if message = "" then "the run failed without a reason" else message)

/-- The values that every failure writes. -/
def RunRow.fail (message : String) (row : RunRow Report) : RunRow Report :=
  { row with status := .failed, error_message := some message }

/-- Beats older than `stale` mean the worker is gone; so does none. -/
def RunRow.stale_at (stale now : ℤ) (row : RunRow Report) : Bool :=
  match row.heartbeat_at with
  | none => true
  | some beat => decide (beat < now - stale)

/-- `reconcile_interrupted_runs`, on one row. -/
def RunRow.reconcile (stale now : ℤ) (row : RunRow Report) : RunRow Report :=
  if row.status = .running ∧ row.stale_at stale now = true then row.fail interrupted_message else row

/-- An update with a status in its `WHERE`. -/
def RunRow.fail_if (status : Status) (message : String) (row : RunRow Report) : RunRow Report :=
  if row.status = status then row.fail message else row

/-! ### Steps -/

/-- What `run_single` returns. -/
inductive EngineResult (Report : Type) where
  | completed (report : Report)
  | cancelled
  | failed (error : String)
  deriving DecidableEq, Repr

inductive WorkerAction (Report : Type) where
  /-- `_claim`, and whether the row count was 1. -/
  | claim (won : Bool)
  /-- The schema check or the claim raised. -/
  | break_down (exc : String)
  /-- The claimed run's setup or its engine raised. -/
  | raise (exc : String)
  /-- `_load_context`, or what it raised; then the heartbeat starts. -/
  | load (exc : Option String)
  /-- A beat of the thread. -/
  | beat
  /-- A poll that reached the database. -/
  | poll (pct : ℕ)
  /-- The first `should_cancel` says no, and `run_single` is called. -/
  | start
  /-- The first `should_cancel` says yes. -/
  | stop_early
  | finish (result : EngineResult Report)
  /-- `_persist_success`, or what it raised. -/
  | persist (exc : Option String)
  /-- `_fail`, and whether its update went through. -/
  | fail (written : Bool)
  /-- `stop` of the heartbeat, once the run is over. -/
  | rest
  | crash

inductive Action (Report : Type) where
  | create
  /-- The pool hands the id to a worker, for the first time or again. -/
  | deliver (w : ℕ)
  | worker (w : ℕ) (a : WorkerAction Report)
  | request_cancel
  | delete_unclaimed
  | fail_unclaimed (message : String)
  | delete_run
  | fail_running (message : String)
  | reconcile
  | tick (d : ℕ)

/-- The phases in which the worker may poll. -/
def Phase.polls : Phase Report → Bool
  | .polling => true
  | .simulating => true
  | _ => false

/-- The phases of a worker that has claimed the run. -/
def Phase.holds : Phase Report → Bool
  | .loading => true
  | .polling => true
  | .simulating => true
  | .persisting _ => true
  | .failing claimed _ => claimed
  | _ => false

/-- What follows the engine. -/
def EngineResult.next : EngineResult Report → Phase Report
  | .completed report => .persisting report
  | .cancelled => .failing true cancelled_message
  | .failed error => .failing true error

/-- A step of one worker, on the row. A transaction that raises is taken to have
    left nothing; a commit whose acknowledgement is lost is none of the steps. -/
def work (now : ℤ) (x : Worker Report) (row : Option (RunRow Report)) (x' : Worker Report)
    (row' : Option (RunRow Report)) : WorkerAction Report → Prop
  -- the condition of the update is all that keeps two workers apart
  | .claim true => x.phase = .starting ∧ ∃ r, row = some r ∧ r.status = .queued ∧
      row' = some (r.claim now) ∧ x' = { x with phase := .loading }
  -- the row is gone, claimed or over
  | .claim false => x.phase = .starting ∧ (∀ r, row = some r → r.status ≠ .queued) ∧
      row' = row ∧ x' = { x with phase := .over .skipped }
  -- the handler fails the run, although nobody has claimed it
  | .break_down exc => x.phase = .starting ∧ row' = row ∧ x' = { x with phase := .failing false exc }
  | .raise exc => x.phase.polls = true ∧ row' = row ∧ x' = { x with phase := .failing true exc }
  | .load none => x.phase = .loading ∧ row' = row ∧ x' = { x with phase := .polling, beating := true }
  | .load (some exc) => x.phase = .loading ∧ row' = row ∧ x' = { x with phase := .failing true exc }
  | .beat => x.beating = true ∧ row' = row.map (fun r => { r with heartbeat_at := some now }) ∧ x' = x
  -- one statement publishes the progress and returns the flag
  | .poll pct => x.phase.polls = true ∧ x.cancelled = false ∧
      row' = row.map (fun r => { r with progress_pct := pct }) ∧
      x' = { x with cancelled := row.any (fun r => r.cancel_requested) }
  | .start => x.phase = .polling ∧ x.cancelled = false ∧ row' = row ∧
      x' = { x with phase := .simulating }
  | .stop_early => x.phase = .polling ∧ x.cancelled = true ∧ row' = row ∧
      x' = { x with phase := .failing true cancelled_message }
  | .finish result => x.phase = .simulating ∧ row' = row ∧ x' = { x with phase := result.next }
  | .persist none => ∃ report r, x.phase = .persisting report ∧ row = some r ∧
      row' = some (r.complete report) ∧ x' = { x with phase := .over .completed }
  -- without the row the inserts violate their foreign keys
  | .persist (some exc) => ∃ report, x.phase = .persisting report ∧ row' = row ∧
      x' = { x with phase := .failing true ("result could not be stored: " ++ exc) }
  -- best effort, and whatever the status of the row is
  | .fail written => ∃ claimed message, x.phase = .failing claimed message ∧
      row' = (if written then row.map (RunRow.fail (failure_text message)) else row) ∧
      x' = { x with phase := .over .failed }
  -- the heart stops in the `finally`, after the last update
  | .rest => (∃ outcome, x.phase = .over outcome) ∧ row' = row ∧ x' = { x with beating := false }
  | .crash => row' = row ∧ x' = { x with phase := .dead, beating := false }

/-- A step of the system; `stale` is the age at which a beat no longer counts. -/
def step (stale : ℤ) (s : State Report) : Action Report → State Report → Prop
  | .create, t => s.created = false ∧ t = { s with created := true, row := some .queued }
  | .deliver w, t => s.workers w = none ∧ t = { s with workers := set_worker s.workers w .started }
  | .worker w a, t => ∃ x x' row', s.workers w = some x ∧ work s.now x s.row x' row' a ∧
      t = { s with row := row', workers := set_worker s.workers w x' }
  | .request_cancel, t =>
      t = { s with row := s.row.map (fun r => { r with cancel_requested := true }) }
  -- the next two carry the condition of the claim
  | .delete_unclaimed, t => t = { s with row := s.row.filter (fun r => r.status ≠ .queued) }
  | .fail_unclaimed message, t =>
      t = { s with row := s.row.map (RunRow.fail_if .queued (truncated message)) }
  | .delete_run, t => t = { s with row := none }
  | .fail_running message, t =>
      t = { s with row := s.row.map (RunRow.fail_if .running (failure_text message)) }
  | .reconcile, t => t = { s with row := s.row.map (RunRow.reconcile stale s.now) }
  | .tick d, t => t = { s with now := s.now + d }

/-- The run, its workers, the API and the startup repair. -/
def system (stale : ℤ) : System (State Report) (Action Report) where
  init := fun s => s.created = false ∧ s.row = none ∧ s.workers = fun _ => none
  step := step stale

/-! ### What a step can do -/

/-- The worker has claimed the run and is not done with it. -/
def State.Holder (s : State Report) (w : ℕ) : Prop :=
  ∃ x, s.workers w = some x ∧ x.phase.holds = true

/-- What a step can do to the row. -/
inductive RowMove (stale : ℤ) (s t : State Report) : Action Report → Prop where
  | kept (l : Action Report) (row : t.row = s.row) : RowMove stale s t l
  | created (h : s.created = false) (row : t.row = some .queued) : RowMove stale s t .create
  | claimed (w : ℕ) {r : RunRow Report} (before : s.row = some r) (queued : r.status = .queued)
      (row : t.row = some (r.claim s.now)) : RowMove stale s t (.worker w (.claim true))
  | beaten (w : ℕ) {r : RunRow Report} (before : s.row = some r)
      (row : t.row = some { r with heartbeat_at := some s.now }) : RowMove stale s t (.worker w .beat)
  | polled (w pct : ℕ) {r : RunRow Report} (before : s.row = some r)
      (row : t.row = some { r with progress_pct := pct }) : RowMove stale s t (.worker w (.poll pct))
  | cancelled {r : RunRow Report} (before : s.row = some r)
      (row : t.row = some { r with cancel_requested := true }) : RowMove stale s t .request_cancel
  | completed (w : ℕ) (report : Report) {r : RunRow Report} {x : Worker Report}
      (worker : s.workers w = some x) (phase : x.phase = .persisting report) (before : s.row = some r)
      (row : t.row = some (r.complete report)) : RowMove stale s t (.worker w (.persist none))
  | failed (w : ℕ) (claimed : Bool) (message : String) {r : RunRow Report} {x : Worker Report}
      (worker : s.workers w = some x) (phase : x.phase = .failing claimed message)
      (before : s.row = some r) (row : t.row = some (r.fail (failure_text message))) :
      RowMove stale s t (.worker w (.fail true))
  | refused (message : String) {r : RunRow Report} (before : s.row = some r)
      (queued : r.status = .queued) (row : t.row = some (r.fail (truncated message))) :
      RowMove stale s t (.fail_unclaimed message)
  | ended (message : String) {r : RunRow Report} (before : s.row = some r)
      (running : r.status = .running) (row : t.row = some (r.fail (failure_text message))) :
      RowMove stale s t (.fail_running message)
  | repaired {r : RunRow Report} (before : s.row = some r) (running : r.status = .running)
      (old : r.stale_at stale s.now = true) (row : t.row = some (r.fail interrupted_message)) :
      RowMove stale s t .reconcile
  | deleted (l : Action Report) (row : t.row = none) : RowMove stale s t l

theorem row_move {stale : ℤ} {s t : State Report} {l : Action Report} (h : step stale s l t) :
    RowMove stale s t l := by
  cases l with
  | create =>
    obtain ⟨hnew, rfl⟩ := h
    exact .created hnew rfl
  | deliver w =>
    obtain ⟨_, rfl⟩ := h
    exact .kept _ rfl
  | request_cancel =>
    obtain rfl := h
    cases hrow : s.row with
    | none => exact .kept _ (by simp [hrow])
    | some r => exact .cancelled hrow (by simp)
  | delete_unclaimed =>
    obtain rfl := h
    cases hrow : s.row with
    | none => exact .kept _ (by simp [hrow])
    | some r =>
      by_cases hqueued : r.status = .queued
      · exact .deleted _ (by simp [hqueued])
      · exact .kept _ (by simp [hrow, Option.filter, hqueued])
  | fail_unclaimed message =>
    obtain rfl := h
    cases hrow : s.row with
    | none => exact .kept _ (by simp [hrow])
    | some r =>
      by_cases hqueued : r.status = .queued
      · exact .refused message hrow hqueued (by simp [RunRow.fail_if, hqueued])
      · exact .kept _ (by simp [hrow, RunRow.fail_if, hqueued])
  | delete_run =>
    obtain rfl := h
    exact .deleted _ rfl
  | fail_running message =>
    obtain rfl := h
    cases hrow : s.row with
    | none => exact .kept _ (by simp [hrow])
    | some r =>
      by_cases hrunning : r.status = .running
      · exact .ended message hrow hrunning (by simp [RunRow.fail_if, hrunning])
      · exact .kept _ (by simp [hrow, RunRow.fail_if, hrunning])
  | reconcile =>
    obtain rfl := h
    cases hrow : s.row with
    | none => exact .kept _ (by simp [hrow])
    | some r =>
      by_cases hold : r.status = .running ∧ r.stale_at stale s.now = true
      · exact .repaired hrow hold.1 hold.2 (by simp [RunRow.reconcile, hold])
      · exact .kept _ (by simp [hrow, RunRow.reconcile, hold])
  | tick d =>
    obtain rfl := h
    exact .kept _ rfl
  | worker w a =>
    obtain ⟨x, x', row', hx, hwork, rfl⟩ := h
    cases a with
    | claim won =>
      cases won with
      | true =>
        obtain ⟨_, r, hrow, hqueued, rfl, _⟩ := hwork
        exact .claimed w hrow hqueued rfl
      | false => exact .kept _ hwork.2.2.1
    | break_down exc => exact .kept _ hwork.2.1
    | raise exc => exact .kept _ hwork.2.1
    | load exc =>
      cases exc with
      | none => exact .kept _ hwork.2.1
      | some exc => exact .kept _ hwork.2.1
    | beat =>
      obtain ⟨_, rfl, _⟩ := hwork
      cases hrow : s.row with
      | none => exact .kept _ (by simp [hrow])
      | some r => exact .beaten w hrow (by simp)
    | poll pct =>
      obtain ⟨_, _, rfl, _⟩ := hwork
      cases hrow : s.row with
      | none => exact .kept _ (by simp [hrow])
      | some r => exact .polled w pct hrow (by simp)
    | start => exact .kept _ hwork.2.2.1
    | stop_early => exact .kept _ hwork.2.2.1
    | finish result => exact .kept _ hwork.2.1
    | persist exc =>
      cases exc with
      | none =>
        obtain ⟨report, r, hphase, hrow, rfl, _⟩ := hwork
        exact .completed w report hx hphase hrow rfl
      | some exc =>
        obtain ⟨report, _, hrow, _⟩ := hwork
        exact .kept _ hrow
    | fail written =>
      obtain ⟨claimed, message, hphase, rfl, _⟩ := hwork
      cases written with
      | false => exact .kept _ rfl
      | true =>
        cases hrow : s.row with
        | none => exact .kept _ (by simp [hrow])
        | some r => exact .failed w claimed message hx hphase hrow (by simp)
    | rest => exact .kept _ hwork.2.1
    | crash => exact .kept _ hwork.1

/-! ### What a step can do to a worker -/

variable {stale : ℤ} {s t : State Report} {l : Action Report}

/-- A worker of the next state was there before, has just been started, or
    took the step itself. -/
theorem worker_after (h : step stale s l t) {v : ℕ} {y : Worker Report} (hy : t.workers v = some y) :
    (s.workers v = some y ∧ ∀ a, l ≠ .worker v a) ∨ (y = .started ∧ l = .deliver v) ∨
    ∃ a x row', l = .worker v a ∧ s.workers v = some x ∧ work s.now x s.row y row' a := by
  cases l with
  | deliver w =>
    obtain ⟨_, rfl⟩ := h
    by_cases hv : v = w
    · subst hv
      exact .inr (.inl ⟨by simpa using hy.symm, by simp⟩)
    · exact .inl ⟨by simpa [hv] using hy, by simp⟩
  | worker w a =>
    obtain ⟨x, x', row', hx, hwork, rfl⟩ := h
    by_cases hv : v = w
    · subst hv
      obtain rfl : x' = y := by simpa using hy
      exact .inr (.inr ⟨a, x, row', rfl, hx, hwork⟩)
    · exact .inl ⟨by simpa [hv] using hy, by simp [Ne.symm hv]⟩
  | create =>
    obtain ⟨_, rfl⟩ := h
    exact .inl ⟨hy, by simp⟩
  | request_cancel => obtain rfl := h; exact .inl ⟨hy, by simp⟩
  | delete_unclaimed => obtain rfl := h; exact .inl ⟨hy, by simp⟩
  | fail_unclaimed message => obtain rfl := h; exact .inl ⟨hy, by simp⟩
  | delete_run => obtain rfl := h; exact .inl ⟨hy, by simp⟩
  | fail_running message => obtain rfl := h; exact .inl ⟨hy, by simp⟩
  | reconcile => obtain rfl := h; exact .inl ⟨hy, by simp⟩
  | tick d => obtain rfl := h; exact .inl ⟨hy, by simp⟩

/-- The phases between the claim and the engine. -/
def Phase.ready : Phase Report → Bool
  | .loading => true
  | .polling => true
  | _ => false

theorem Phase.holds_of_ready {p : Phase Report} (h : p.ready = true) : p.holds = true := by
  cases p with
  | loading => rfl
  | polling => rfl
  | _ => simp [Phase.ready] at h

theorem Phase.holds_of_polls {p : Phase Report} (h : p.polls = true) : p.holds = true := by
  cases p with
  | polling => rfl
  | simulating => rfl
  | _ => simp [Phase.polls] at h

section Work

variable {now : ℤ} {x x' : Worker Report} {row row' : Option (RunRow Report)} {a : WorkerAction Report}

/-- Only a won claim makes a worker hold the run. -/
theorem work_holds (h : work now x row x' row' a) (hx' : x'.phase.holds = true) :
    x.phase.holds = true ∨ a = .claim true := by
  cases a with
  | claim won =>
    cases won with
    | true => exact .inr rfl
    | false =>
      obtain ⟨_, _, _, rfl⟩ := h
      simp [Phase.holds] at hx'
  | break_down exc =>
    obtain ⟨_, _, rfl⟩ := h
    simp [Phase.holds] at hx'
  | raise exc => exact .inl (Phase.holds_of_polls h.1)
  | load exc => cases exc <;> simp [work] at h <;> simp [h.1, Phase.holds]
  | beat =>
    obtain ⟨_, _, rfl⟩ := h
    exact .inl hx'
  | poll pct => exact .inl (Phase.holds_of_polls h.1)
  | start => simp [h.1, Phase.holds]
  | stop_early => simp [h.1, Phase.holds]
  | finish result => simp [h.1, Phase.holds]
  | persist exc =>
    cases exc with
    | none =>
      obtain ⟨_, _, _, _, _, rfl⟩ := h
      simp [Phase.holds] at hx'
    | some exc =>
      obtain ⟨_, hphase, _⟩ := h
      simp [hphase, Phase.holds]
  | fail written =>
    obtain ⟨_, _, _, _, rfl⟩ := h
    simp [Phase.holds] at hx'
  | rest =>
    obtain ⟨_, _, rfl⟩ := h
    exact .inl hx'
  | crash =>
    obtain ⟨_, rfl⟩ := h
    simp [Phase.holds] at hx'

/-- Nor does another step bring a worker before the engine. -/
theorem work_ready (h : work now x row x' row' a) (hx' : x'.phase.ready = true) :
    (x.phase.ready = true ∧ a ≠ .start) ∨ a = .claim true := by
  cases a with
  | claim won =>
    cases won with
    | true => exact .inr rfl
    | false =>
      obtain ⟨_, _, _, rfl⟩ := h
      simp [Phase.ready] at hx'
  | load exc => cases exc <;> simp [work] at h <;> simp [h.1, Phase.ready]
  | beat =>
    obtain ⟨_, _, rfl⟩ := h
    exact .inl ⟨hx', by simp⟩
  | poll pct =>
    obtain ⟨_, _, _, rfl⟩ := h
    exact .inl ⟨hx', by simp⟩
  | rest =>
    obtain ⟨_, _, rfl⟩ := h
    exact .inl ⟨hx', by simp⟩
  | finish result =>
    obtain ⟨_, _, rfl⟩ := h
    cases result <;> simp [EngineResult.next, Phase.ready] at hx'
  | persist exc =>
    cases exc with
    | none =>
      obtain ⟨_, _, _, _, _, rfl⟩ := h
      simp [Phase.ready] at hx'
    | some exc =>
      obtain ⟨_, _, _, rfl⟩ := h
      simp [Phase.ready] at hx'
  | fail written =>
    obtain ⟨_, _, _, _, rfl⟩ := h
    simp [Phase.ready] at hx'
  | break_down exc => simp [h.2.2, Phase.ready] at hx'
  | raise exc => simp [h.2.2, Phase.ready] at hx'
  | start => simp [h.2.2.2, Phase.ready] at hx'
  | stop_early => simp [h.2.2.2, Phase.ready] at hx'
  | crash => simp [h.2, Phase.ready] at hx'

end Work

theorem holder_after (h : step stale s l t) {v : ℕ} (hv : t.Holder v) :
    s.Holder v ∨ l = .worker v (.claim true) := by
  obtain ⟨y, hy, hholds⟩ := hv
  rcases worker_after h hy with ⟨hy, _⟩ | ⟨rfl, _⟩ | ⟨a, x, row', rfl, hx, hwork⟩
  · exact .inl ⟨y, hy, hholds⟩
  · simp [Worker.started, Phase.holds] at hholds
  · rcases work_holds hwork hholds with hbefore | rfl
    · exact .inl ⟨x, hx, hbefore⟩
    · exact .inr rfl

/-- The worker has claimed the run and not called the engine. -/
def State.Ready (s : State Report) (w : ℕ) : Prop :=
  ∃ x, s.workers w = some x ∧ x.phase.ready = true

theorem State.Ready.holder {w : ℕ} (h : s.Ready w) : s.Holder w := by
  obtain ⟨x, hx, hready⟩ := h
  exact ⟨x, hx, Phase.holds_of_ready hready⟩

theorem ready_after (h : step stale s l t) {v : ℕ} (hv : t.Ready v) :
    (s.Ready v ∧ l ≠ .worker v .start) ∨ l = .worker v (.claim true) := by
  obtain ⟨y, hy, hready⟩ := hv
  rcases worker_after h hy with ⟨hy, hother⟩ | ⟨rfl, _⟩ | ⟨a, x, row', rfl, hx, hwork⟩
  · exact .inl ⟨⟨y, hy, hready⟩, hother _⟩
  · simp [Worker.started, Phase.ready] at hready
  · rcases work_ready hwork hready with ⟨hbefore, hne⟩ | rfl
    · exact .inl ⟨⟨x, hx, hbefore⟩, by simpa using hne⟩
    · exact .inr rfl

end RunTable
