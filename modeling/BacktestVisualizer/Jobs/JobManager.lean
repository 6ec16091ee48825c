import BacktestVisualizer.Framework.LTS
import Mathlib.Tactic

/-! # The Job Manager

  `src/workers/job_manager.py`: jobs live in memory, a process pool runs
  them, and a completion callback saves the report of a successful one.

  One step of the model is one critical section of a job's lock, one
  database transaction made inside such a section, or one move of the pool.
  Where `_on_done` holds the lock across the report insert and the verdict
  update, the job records what its lock holder still has to do
  (`Section`); everything else that needs the lock waits until it is free.

  `cancel` and `submit` look the job up before they take its lock, so a
  caller may still reach the lock after the entry was pruned or the manager
  was closed: the locked parts do not ask for `listed` or for `closed`.
-/

open LTS

namespace Jobs

/-- A run id (`uuid4`): never handed out twice. -/
abbrev JobId := Nat

/-- A user id. -/
abbrev Owner := Nat

/-- The primary key of the strategy registry. -/
abbrev StrategyKey := String

/-! ### Jobs -/

inductive Purpose where
  | user
  | validation
  deriving DecidableEq, Repr

/-- The part of `RunSpec` the manager reads. -/
structure RunSpec where
  id : JobId
  owner_id : Option Owner
  strategy_key : StrategyKey
  purpose : Purpose
  deriving DecidableEq, Repr

/-- `state["status"]`. -/
inductive Status where
  | queued
  | running
  | failed
  | completed
  deriving DecidableEq, Repr

/-- The dictionary a worker process shares with the manager. -/
structure SharedState where
  status : Status
  progress_pct : Nat
  cancel_requested : Bool
  error_message : Option String
  deriving DecidableEq, Repr

/-- What a worker hands back: `{"report": ...}`, `{"error": ...}`, or an
    exception raised by `future.result()`. -/
inductive Outcome (Report : Type) where
  | report (r : Report)
  | error (message : String)
  | exception (message : String)
  deriving DecidableEq, Repr

/-- The states of a `concurrent.futures.Future`. -/
inductive Future (Report : Type) where
  | pending
  | running
  | cancelled
  | done (outcome : Outcome Report)
  deriving DecidableEq, Repr

/-- What `job.detail` may hold: the empty detail of a failed run, or the
    report of a validation run nobody owns. -/
inductive Detail (Report : Type) where
  | empty (status : Status) (progress : Nat) (error : Option String)
  | report (r : Report)
  deriving DecidableEq, Repr

/-- What the holder of a job's lock still has to do before releasing it. -/
inductive Section (Report : Type) where
  /-- Nobody holds the lock. -/
  | free
  /-- `_on_done` is about to insert the report. -/
  | saving (r : Report)
  /-- The insert committed; `job.saved` is not set yet. -/
  | committed
  /-- `_settle_validation(job, passed)` is about to run. -/
  | settling (passed : Bool)
  deriving DecidableEq, Repr

/-- `_Job`, with its lock. `called_back` says that the future has invoked
    `_on_done`, which it does once. -/
structure Job (Report : Type) where
  spec : RunSpec
  state : SharedState
  future : Option (Future Report)
  finished : Bool
  detail : Option (Detail Report)
  saved : Bool
  called_back : Bool
  lock : Section Report
  deriving DecidableEq, Repr

variable {Report : Type}

/-- `_Job(spec, self._ipc.dict(status="queued", ...))`. -/
def Job.queued (spec : RunSpec) : Job Report where
  spec := spec
  state := { status := .queued, progress_pct := 0, cancel_requested := false,
             error_message := none }
  future := none
  finished := false
  detail := none
  saved := false
  called_back := false
  lock := .free

/-- `str(message)[:2000]`. -/
def truncated (message : String) : String := String.ofList (message.toList.take 2000)

/-- `_fail`: the run ends without a report. -/
def Job.fail (j : Job Report) (message : String) : Job Report :=
  { j with
    detail := some (.empty .failed 0 (some (truncated message)))
    state := { j.state with status := .failed, error_message := some (truncated message) }
    finished := true }

/-- `_fail` followed by `_settle_validation(job, False)` under the same lock. -/
def Job.fail_and_settle (j : Job Report) (message : String) : Job Report :=
  { j.fail message with lock := .settling false }

/-- `job.state["cancel_requested"] = True`. -/
def Job.request_cancel (j : Job Report) : Job Report :=
  { j with state := { j.state with cancel_requested := true } }

def interrupted_message : String := "Interrupted by server shutdown"

def cancelled_message : String := "Cancelled by user"

/-- The message of the `except` branch of `_on_done`. -/
def persistence_message (exc : String) : String :=
  "Backtest or report persistence failed: " ++ exc

/-- The message of a refused dispatch. -/
def queue_message (exc : String) : String := "Could not queue the backtest: " ++ exc

/-- Is the future's own cancellation the reason it is done? -/
def Future.is_cancelled : Future Report → Bool
  | .cancelled => true
  | _ => false

/-- A future that has its result, or will never have one. -/
def Future.is_done : Future Report → Bool
  | .cancelled => true
  | .done _ => true
  | _ => false

/-- The pool broke under the job. `_on_done` runs before the pool terminates
    the workers that are still alive, so one of them may go on writing. -/
def Job.Abandoned (j : Job Report) : Prop := ∃ m, j.future = some (.done (.exception m))

/-- `state.update(status="running", progress_pct=0)` of `execute_report`. -/
def Job.report_running (j : Job Report) : Job Report :=
  { j with state := { j.state with status := .running, progress_pct := 0 } }

/-- `_on_done` up to its first database transaction. `refusal` is what
    `BacktestDetail.model_validate` raises on the worker's document. -/
def Job.on_done (closed : Bool) (refusal : Option String) (j : Job Report)
    (f : Future Report) : Job Report :=
  let j := { j with called_back := true }
  if closed || j.state.cancel_requested || f.is_cancelled then
    j.fail_and_settle (if closed then interrupted_message else cancelled_message)
  else
    match f with
    | .done (.error message) => j.fail_and_settle message
    | .done (.exception exc) => j.fail_and_settle (persistence_message exc)
    | .done (.report r) =>
        match refusal with
        | some exc => j.fail_and_settle (persistence_message exc)
        | none =>
            match j.spec.owner_id with
            | some _ => { j with lock := .saving r }
            | none =>
                { j with
                  detail := some (.report r)
                  state := { j.state with status := .completed, progress_pct := 100 }
                  finished := true
                  lock := .settling true }
    | _ => j

/-- The answers of `cancel`. -/
inductive CancelAnswer where
  | not_found
  | saved
  | deleted
  | cancel_requested
  deriving DecidableEq, Repr

/-- The locked part of `cancel`. Cancelling a future that has not started
    runs `_on_done` right here, through the re-entrant lock. -/
def Job.cancel (closed : Bool) (j : Job Report) : CancelAnswer × Job Report :=
  if j.saved then (.saved, j)
  else if j.finished then (.deleted, j)
  else
    match j.future with
    | none => (.cancel_requested, j.request_cancel.fail cancelled_message)
    | some .pending =>
        (.cancel_requested,
          { j.request_cancel with future := some .cancelled }.on_done closed none .cancelled)
    | some _ => (.cancel_requested, j.request_cancel)

/-- The locked part of `submit`; the pool's answer is `accepted`, and `exc`
    is what it raised when it refused. -/
def Job.submit (accepted : Bool) (exc : String) (j : Job Report) : Job Report :=
  if j.future.isSome then j
  else if j.finished then j
  else if accepted then { j with future := some .pending }
  else j.fail_and_settle (queue_message exc)

/-- The pass of `shutdown` over one job. -/
def Job.sweep (j : Job Report) : Job Report :=
  if j.finished then j
  else
    match j.future with
    | none => j.request_cancel.fail_and_settle interrupted_message
    | some _ => j.request_cancel

/-- `reports.save` inside `_on_done`: it commits, or raises `failure`. -/
def Job.save (failure : Option String) (j : Job Report) : Job Report :=
  match failure with
  | none => { j with lock := .committed }
  | some exc => j.fail_and_settle (persistence_message exc)

/-- `_on_done` after the insert committed. When the last state update fails
    (`notified` is false) the exception handler keeps the saved flag and
    stops there. -/
def Job.conclude (notified : Bool) (j : Job Report) : Job Report :=
  if notified then
    { j with
      saved := true
      state := { j.state with status := .completed, progress_pct := 100 }
      finished := true
      lock := .settling true }
  else { j with saved := true, lock := .free }

/-! ### What the locked sections can do -/

/-- The message a run fails with when `_on_done` finds it cancelled. -/
def cancel_message (closed : Bool) : String :=
  if closed then interrupted_message else cancelled_message

/-- The callback fails the run, goes on to save its report, or completes a
    run that nobody owns. -/
theorem Job.on_done_cases (closed : Bool) (refusal : Option String) (j : Job Report)
    {f : Future Report} (hdone : f.is_done = true) :
    (∃ m, j.on_done closed refusal f = { j with called_back := true }.fail_and_settle m) ∨
    (∃ r owner, closed = false ∧ j.state.cancel_requested = false ∧
      f = .done (.report r) ∧ j.spec.owner_id = some owner ∧
      j.on_done closed refusal f = { j with called_back := true, lock := .saving r }) ∨
    (∃ r, closed = false ∧ j.state.cancel_requested = false ∧
      f = .done (.report r) ∧ j.spec.owner_id = none ∧
      j.on_done closed refusal f =
        { j with
          called_back := true
          detail := some (.report r)
          state := { j.state with status := .completed, progress_pct := 100 }
          finished := true
          lock := .settling true }) := by
  by_cases hstop : (closed || j.state.cancel_requested || f.is_cancelled) = true
  · exact Or.inl ⟨_, by simp only [Job.on_done, if_pos hstop]; rfl⟩
  · have hclosed : closed = false := by simp_all
    have hflag : j.state.cancel_requested = false := by simp_all
    -- only a future that is done calls back, and only a valid report is kept
    match f with
    | .pending => simp [Future.is_done] at hdone
    | .running => simp [Future.is_done] at hdone
    | .cancelled => simp [Future.is_cancelled] at hstop
    | .done (.error m) =>
      exact Or.inl ⟨m, by simp [Job.on_done, hclosed, hflag, Future.is_cancelled]⟩
    | .done (.exception exc) =>
      exact Or.inl ⟨persistence_message exc, by
        simp [Job.on_done, hclosed, hflag, Future.is_cancelled]⟩
    | .done (.report r) =>
      cases refusal with
      | some exc =>
        exact Or.inl ⟨persistence_message exc, by
          simp [Job.on_done, hclosed, hflag, Future.is_cancelled]⟩
      | none =>
        cases howner : j.spec.owner_id with
        | some owner =>
          refine Or.inr (Or.inl ⟨r, owner, hclosed, hflag, rfl, rfl, ?_⟩)
          simp [Job.on_done, hclosed, hflag, howner, Future.is_cancelled]
        | none =>
          refine Or.inr (Or.inr ⟨r, hclosed, hflag, rfl, rfl, ?_⟩)
          simp [Job.on_done, hclosed, hflag, howner, Future.is_cancelled]

/-- `cancel` answers that the run is saved or over, fails a run that was
    never dispatched, cancels a future that has not started, or leaves a
    request for the callback. -/
theorem Job.cancel_cases (closed : Bool) (j : Job Report) :
    (j.saved = true ∧ j.cancel closed = (.saved, j)) ∨
    (j.saved = false ∧ j.finished = true ∧ j.cancel closed = (.deleted, j)) ∨
    (j.saved = false ∧ j.finished = false ∧ j.future = none ∧
      j.cancel closed = (.cancel_requested, j.request_cancel.fail cancelled_message)) ∨
    (j.saved = false ∧ j.finished = false ∧ j.future = some .pending ∧
      j.cancel closed = (.cancel_requested,
        { j.request_cancel with
          future := some .cancelled
          called_back := true }.fail_and_settle (cancel_message closed))) ∨
    (j.saved = false ∧ j.finished = false ∧ j.future ≠ none ∧ j.future ≠ some .pending ∧
      j.cancel closed = (.cancel_requested, j.request_cancel)) := by
  cases hs : j.saved with
  | true => exact Or.inl ⟨rfl, by simp [Job.cancel, hs]⟩
  | false =>
    cases hf : j.finished with
    | true => exact Or.inr (Or.inl ⟨rfl, rfl, by simp [Job.cancel, hs, hf]⟩)
    | false =>
      cases hfut : j.future with
      | none => simp [Job.cancel, hs, hf, hfut]
      | some f =>
        cases f <;>
          simp [Job.cancel, hs, hf, hfut, Job.on_done, Future.is_cancelled, cancel_message,
            Job.request_cancel]

theorem Job.submit_cases (accepted : Bool) (exc : String) (j : Job Report) :
    j.submit accepted exc = j ∨
    (j.future = none ∧ j.finished = false ∧
      j.submit accepted exc = { j with future := some .pending }) ∨
    (j.future = none ∧ j.finished = false ∧
      j.submit accepted exc = j.fail_and_settle (queue_message exc)) := by
  cases hfut : j.future with
  | some f => simp [Job.submit, hfut]
  | none =>
    cases hf : j.finished with
    | true => simp [Job.submit, hfut, hf]
    | false => cases accepted <;> simp [Job.submit, hfut, hf]

theorem Job.sweep_cases (j : Job Report) :
    (j.finished = true ∧ j.sweep = j) ∨
    (j.finished = false ∧ j.future = none ∧
      j.sweep = j.request_cancel.fail_and_settle interrupted_message) ∨
    (j.finished = false ∧ j.future ≠ none ∧ j.sweep = j.request_cancel) := by
  cases hf : j.finished with
  | true => simp [Job.sweep, hf]
  | false => cases hfut : j.future <;> simp [Job.sweep, hf, hfut]

/-! ### Strategy rows -/

inductive Kind where
  | builtin
  | user
  deriving DecidableEq, Repr

inductive StrategyStatus where
  | active
  | validating
  | failed_validation
  | archived
  deriving DecidableEq, Repr

/-- The lifecycle columns of `app.strategies`. -/
structure Row where
  kind : Kind
  status : StrategyStatus
  enabled : Bool
  validation_job_id : Option JobId
  deriving DecidableEq, Repr

abbrev Strategies := StrategyKey → Option Row

/-- The verdict columns `_settle_validation` writes. -/
def Row.settle (row : Row) (id : JobId) (passed : Bool) : Row :=
  { row with
    status := if passed then .active else .failed_validation
    enabled := passed
    validation_job_id := some id }

/-- `UPDATE ... WHERE key = :key AND kind = 'user'`. -/
def update_user_row (t : Strategies) (key : StrategyKey) (f : Row → Row) : Strategies :=
  fun k => if k = key then (t k).map (fun row => if row.kind = .user then f row else row) else t k

@[simp] theorem update_user_row_ne (t : Strategies) {key k : StrategyKey} (f : Row → Row)
    (h : k ≠ key) : update_user_row t key f k = t k := by
  simp [update_user_row, h]

theorem update_user_row_self (t : Strategies) {key : StrategyKey} (f : Row → Row) {row : Row}
    (h : t key = some row) (hkind : row.kind = .user) :
    update_user_row t key f key = some (f row) := by
  simp [update_user_row, h, hkind]

/-- `_settle_validation`: a run that is no validation has no verdict. -/
def settle_validation (t : Strategies) (spec : RunSpec) (passed : Bool) : Strategies :=
  match spec.purpose with
  | .user => t
  | .validation => update_user_row t spec.strategy_key (fun row => row.settle spec.id passed)

/-! ### Actions and labels -/

/-- What can happen to one job. -/
inductive Action (Report : Type) where
  /-- `register(spec)`. -/
  | register (spec : RunSpec)
  /-- The locked part of `submit`; `exc` is what a refusing pool raised. -/
  | submit (accepted : Bool) (exc : String)
  /-- `cancel(run_id, caller)` and what it answered. -/
  | cancel (caller : Option Owner) (answer : CancelAnswer)
  /-- A worker takes the job and reports `running`, also after the pool broke. -/
  | start_worker
  /-- A worker reports progress. -/
  | progress (pct : Nat)
  /-- The future gets its result, or the pool breaks under it. -/
  | finish_worker (outcome : Outcome Report)
  /-- `pool.shutdown(cancel_futures=True)` cancels a future that has not started. -/
  | cancel_future
  /-- The future invokes `_on_done`, which takes the lock; `refusal` is what
      `model_validate` raises, as `type: message`. -/
  | on_done (refusal : Option String)
  /-- `reports.save`: commits, or raises `failure` without committing. -/
  | save (failure : Option String)
  /-- `_on_done` sets the flags of a saved report. -/
  | conclude (notified : Bool)
  /-- `_settle_validation` writes the verdict, or logs that it could not. -/
  | settle (written : Bool)
  /-- The pass of `shutdown` over the job. -/
  | sweep
  /-- `_prune` drops a finished job. -/
  | prune
  /-- The database half of `delete_backtest`, and whether a row went. -/
  | remove (caller : Owner) (removed : Bool)
  deriving DecidableEq, Repr

/-- Labels of the manager: `shutdown` closes the manager, sweeps its jobs
    one by one and then stops the pool. -/
inductive Label (Report : Type) where
  | close
  | stop_pool
  | job (id : JobId) (a : Action Report)
  deriving DecidableEq, Repr

/-- The answer `delete_backtest` gives at an action, if it answers there: a
    `cancel` that finds the run saved or unknown goes on to the database. -/
inductive DeleteOutcome where
  | deleted
  | cancel_requested
  | not_found
  deriving DecidableEq, Repr

def Action.delete_outcome : Action Report → Option DeleteOutcome
  | .cancel _ .cancel_requested => some .cancel_requested
  | .cancel _ .deleted => some .deleted
  | .remove _ true => some .deleted
  | .remove _ false => some .not_found
  | _ => none

/-! ### States and steps -/

/-- Everything kept under one run id: the job object once it is registered,
    whether `_jobs` still lists it, and the owner of its saved report. -/
structure Slot (Report : Type) where
  job : Option (Job Report)
  listed : Bool
  report : Option Owner
  deriving DecidableEq, Repr

structure State (Report : Type) where
  closed : Bool
  pool_open : Bool
  slots : JobId → Slot Report
  strategies : Strategies

/-- Functional update of one slot. -/
def set_slot (f : JobId → Slot Report) (id : JobId) (x : Slot Report) : JobId → Slot Report :=
  fun k => if k = id then x else f k

@[simp] theorem set_slot_self (f : JobId → Slot Report) (id : JobId) (x : Slot Report) :
    set_slot f id x id = x := by
  simp [set_slot]

@[simp] theorem set_slot_ne (f : JobId → Slot Report) (id k : JobId) (x : Slot Report)
    (h : k ≠ id) : set_slot f id x k = f k := by
  simp [set_slot, h]

/-- One action on one registered job. `closed` and `pool_open` are the manager's. -/
def job_step (closed pool_open : Bool) (j : Job Report) (a : Action Report)
    (j' : Job Report) : Prop :=
  match a with
  | .register _ => False
  | .submit accepted exc =>
      j.lock = .free ∧ (accepted = true → pool_open = true) ∧ j' = j.submit accepted exc
  | .cancel caller answer =>
      j.lock = .free ∧ j.spec.owner_id = caller ∧
      answer = (j.cancel closed).1 ∧ j' = (j.cancel closed).2
  | .start_worker =>
      (j.future = some .pending ∧ j' = { j.report_running with future := some .running }) ∨
      (j.Abandoned ∧ j' = j.report_running)
  | .progress pct =>
      (j.future = some .running ∨ j.Abandoned) ∧
      j' = { j with state := { j.state with progress_pct := min 99 pct } }
  | .finish_worker outcome =>
      (j.future = some .running ∨ j.future = some .pending ∧ ∃ m, outcome = .exception m) ∧
      j' = { j with future := some (.done outcome) }
  | .cancel_future =>
      pool_open = false ∧ j.future = some .pending ∧ j' = { j with future := some .cancelled }
  | .on_done refusal =>
      ∃ f, j.lock = .free ∧ j.future = some f ∧ f.is_done = true ∧
        j.called_back = false ∧ j' = j.on_done closed refusal f
  | .save failure =>
      ∃ r owner, j.lock = .saving r ∧ j.spec.owner_id = some owner ∧ j' = j.save failure
  | .conclude notified => j.lock = .committed ∧ j' = j.conclude notified
  | .settle _ => ∃ passed, j.lock = .settling passed ∧ j' = { j with lock := .free }
  | .sweep => closed = true ∧ j.lock = .free ∧ j' = j.sweep
  | .prune => j.finished = true ∧ j' = j
  | .remove _ _ => False

/-- `_jobs` drops a finished job that its owner deletes or that is too old. -/
def listed_after (listed : Bool) : Action Report → Bool
  | .cancel _ .deleted => false
  | .prune => false
  | _ => listed

/-- `reports.save` commits a row for the owner of the run. -/
def report_after (report owner : Option Owner) : Action Report → Option Owner
  | .save none => owner
  | _ => report

/-- One action on one slot. -/
def slot_step (closed pool_open : Bool) (x : Slot Report) (a : Action Report)
    (x' : Slot Report) : Prop :=
  match a with
  | .register spec =>
      closed = false ∧ pool_open = true ∧
      (spec.purpose = .user → spec.owner_id ≠ none) ∧
      x.job = none ∧ x.report = none ∧
      x' = { x with job := some (Job.queued spec), listed := true }
  | .cancel caller .not_found =>
      (x.listed = false ∨ ∀ j, x.job = some j → j.spec.owner_id ≠ caller) ∧ x' = x
  | .remove caller removed =>
      removed = decide (x.report = some caller) ∧
      x' = { x with report := if removed then none else x.report }
  | a =>
      ∃ j j', x.job = some j ∧ job_step closed pool_open j a j' ∧
        (a = .save none → x.report = none) ∧
        x' = { job := some j'
               listed := listed_after x.listed a
               report := report_after x.report j.spec.owner_id a }

/-- What an action writes to the strategy registry. -/
def settled_strategies (t : Strategies) (x : Slot Report) (a : Action Report) : Strategies :=
  match a, x.job with
  | .settle true, some j =>
      match j.lock with
      | .settling passed => settle_validation t j.spec passed
      | _ => t
  | _, _ => t

/-- What a caller of `register` promises: the spec goes under its own id, and
    a validation is started once for a strategy, whose key is fresh. -/
def register_ok (s : State Report) (id : JobId) (a : Action Report) : Prop :=
  match a with
  | .register spec =>
      spec.id = id ∧
      (spec.purpose = .validation → ∀ k j, (s.slots k).job = some j →
        j.spec.purpose = .validation → j.spec.strategy_key ≠ spec.strategy_key)
  | _ => True

/-- The job manager as a labelled transition system. -/
def job_manager : System (State Report) (Label Report) where
  init := fun s => s.closed = false ∧ s.pool_open = true ∧ ∀ id, (s.slots id).job = none
  step := fun s l s' =>
    match l with
    | .close => s' = { s with closed := true }
    | .stop_pool => s.closed = true ∧ s' = { s with pool_open := false }
    | .job id a =>
        register_ok s id a ∧ ∃ x', slot_step s.closed s.pool_open (s.slots id) a x' ∧
          s' = { s with
                  slots := set_slot s.slots id x'
                  strategies := settled_strategies s.strategies (s.slots id) a }

/-! ### What a step can do to one slot -/

/-- Seen from the slot `k`, a step either leaves it alone or is an action on it. -/
theorem step_at {s s' : State Report} {l : Label Report} (h : job_manager.step s l s')
    (k : JobId) :
    (s'.slots k = s.slots k ∧ ∀ a, l ≠ .job k a) ∨
      ∃ a, l = .job k a ∧ slot_step s.closed s.pool_open (s.slots k) a (s'.slots k) := by
  match l with
  | .close => subst h; exact Or.inl ⟨rfl, nofun⟩
  | .stop_pool => obtain ⟨_, rfl⟩ := h; exact Or.inl ⟨rfl, nofun⟩
  | .job id a =>
    obtain ⟨_, x', hslot, rfl⟩ := h
    by_cases hk : k = id
    · subst hk
      exact Or.inr ⟨a, rfl, by simpa using hslot⟩
    · refine Or.inl ⟨by simp [hk], ?_⟩
      intro b hb
      injection hb with hid
      exact hk hid.symm

/-- An action on a slot registers its job, moves it, or leaves it alone. -/
theorem slot_step_cases {closed pool_open : Bool} {x x' : Slot Report} {a : Action Report}
    (h : slot_step closed pool_open x a x') :
    (∃ spec, a = .register spec ∧ closed = false ∧ x.job = none ∧ x.report = none ∧
      x'.job = some (Job.queued spec) ∧ x'.report = none) ∨
    (∃ j j', x.job = some j ∧ x'.job = some j' ∧ job_step closed pool_open j a j' ∧
      (a = .save none → x.report = none) ∧
      x'.report = report_after x.report j.spec.owner_id a) ∨
    (x'.job = x.job ∧ (∀ answer caller, a = .cancel caller answer → answer = .not_found) ∧
      (∀ c, a ≠ .save c) ∧
      ((∀ caller, a ≠ .remove caller true) → x'.report = x.report) ∧
      (∀ caller, a = .remove caller true → x'.report = none ∧ x.report = some caller)) := by
  match a with
  | .register spec =>
    obtain ⟨hopen, _, _, hjob, hrep, rfl⟩ := h
    exact Or.inl ⟨spec, rfl, hopen, hjob, hrep, rfl, hrep⟩
  | .cancel caller .not_found => obtain ⟨_, rfl⟩ := h; simp
  | .remove caller removed =>
    obtain ⟨hrem, rfl⟩ := h
    refine Or.inr (Or.inr ⟨rfl, by simp, by simp, fun ha => ?_, ?_⟩)
    · cases removed with
      | true => exact absurd rfl (ha caller)
      | false => rfl
    · rintro _ ⟨⟩
      exact ⟨rfl, by simpa using hrem⟩
  | .cancel _ .saved | .cancel _ .deleted | .cancel _ .cancel_requested | .submit _ _
  | .start_worker | .progress _ | .finish_worker _ | .cancel_future | .on_done _ | .save _
  | .conclude _ | .settle _ | .sweep | .prune =>
    obtain ⟨j, j', hj, hstep, hrep, rfl⟩ := h
    exact Or.inr (Or.inl ⟨j, j', hj, rfl, hstep, hrep, rfl⟩)

/-- An action that moves no job stores no report. -/
theorem report_idle {x x' : Slot Report} {a : Action Report}
    (hkeep : (∀ caller, a ≠ .remove caller true) → x'.report = x.report)
    (hgone : ∀ caller, a = .remove caller true → x'.report = none ∧ x.report = some caller) :
    x'.report = x.report ∨ x'.report = none := by
  by_cases hrem : ∃ caller, a = .remove caller true
  · obtain ⟨caller, hrem⟩ := hrem
    exact Or.inr (hgone caller hrem).1
  · exact Or.inl (hkeep (not_exists.mp hrem))

/-- A closed manager stays closed. -/
theorem closed_persist {s s' : State Report} {l : Label Report}
    (h : job_manager.step s l s') (hc : s.closed = true) : s'.closed = true := by
  match l with
  | .close => subst h; rfl
  | .stop_pool => obtain ⟨_, rfl⟩ := h; exact hc
  | .job _ _ => obtain ⟨_, _, _, rfl⟩ := h; exact hc

end Jobs
