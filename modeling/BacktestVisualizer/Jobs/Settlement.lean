import BacktestVisualizer.Jobs.CancelExcludesSave

/-! # Every Finished Validation Settles Its Strategy

  A run of purpose `validation` decides whether the uploaded strategy may be
  used: `_settle_validation` writes the verdict onto the registry row. Every
  path that finishes a job writes it, in the same critical section, with one
  exception: `cancel` on a job that has no future yet calls `_fail` alone.

  The module follows one job `k` along the runs that never take that path
  and whose verdict update commits.
-/

open LTS

namespace Jobs

variable {Report : Type}

/-! ### Outcomes -/

/-- The run completed and its report is stored: in the database for an
    owned run, in the job itself for a run nobody owns. -/
def Job.passed (j : Job Report) : Bool :=
  j.state.status = .completed &&
    (j.saved || match j.detail with
      | some (.report _) => true
      | _ => false)

/-- What a finished job must never change: all but its lock. -/
def Job.unlocked (j : Job Report) : Job Report := { j with lock := .free }

theorem spec_step {closed pool_open : Bool} {j j' : Job Report} {a : Action Report}
    (hstep : job_step closed pool_open j a j') : j'.spec = j.spec := by
  match a with
  | .register _ => exact hstep.elim
  | .submit accepted exc =>
    obtain ⟨_, _, rfl⟩ := hstep
    rcases j.submit_cases accepted exc with heq | ⟨_, _, heq⟩ | ⟨_, _, heq⟩ <;>
      simp [heq, Job.fail_and_settle, Job.fail]
  | .cancel caller answer =>
    obtain ⟨_, _, _, rfl⟩ := hstep
    rcases j.cancel_cases closed with ⟨_, heq⟩ | ⟨_, _, heq⟩ | ⟨_, _, _, heq⟩ |
      ⟨_, _, _, heq⟩ | ⟨_, _, _, _, heq⟩ <;>
      simp [heq, Job.fail_and_settle, Job.fail, Job.request_cancel]
  | .start_worker => obtain ⟨_, rfl⟩ | ⟨_, rfl⟩ := hstep <;> rfl
  | .progress pct => obtain ⟨_, rfl⟩ := hstep; rfl
  | .finish_worker outcome => obtain ⟨_, rfl⟩ := hstep; rfl
  | .cancel_future => obtain ⟨_, _, rfl⟩ := hstep; rfl
  | .on_done refusal =>
    obtain ⟨f, _, _, hdone, _, rfl⟩ := hstep
    rcases j.on_done_cases closed refusal hdone with ⟨m, heq⟩ | ⟨r, owner, _, _, _, _, heq⟩ |
      ⟨r, _, _, _, _, heq⟩ <;> simp [heq, Job.fail_and_settle, Job.fail]
  | .save failure => obtain ⟨r, owner, _, _, rfl⟩ := hstep; cases failure <;> rfl
  | .conclude notified => obtain ⟨_, rfl⟩ := hstep; cases notified <;> rfl
  | .settle _ => obtain ⟨passed, _, rfl⟩ := hstep; rfl
  | .sweep =>
    obtain ⟨_, _, rfl⟩ := hstep
    rcases j.sweep_cases with ⟨_, heq⟩ | ⟨_, _, heq⟩ | ⟨_, _, heq⟩ <;>
      simp [heq, Job.fail_and_settle, Job.fail, Job.request_cancel]
  | .prune => obtain ⟨_, rfl⟩ := hstep; rfl
  | .remove _ _ => exact hstep.elim

/-- A finished job has no future left to move it. -/
theorem Job.WF.finished_future {j : Job Report} (h : j.WF) (hfin : j.finished = true)
    {f : Future Report} (hfut : j.future = some f) : f.is_done = true ∧ j.called_back = true := by
  rcases h.finished_back hfin with hnone | hback
  · simp [hfut] at hnone
  · obtain ⟨g, hg, hdone⟩ := h.called_back_done hback
    obtain rfl : f = g := by simpa [hfut] using hg
    exact ⟨hdone, hback⟩

/-- What a worker writes into the shared dictionary. -/
def Action.writes_state : Action Report → Bool
  | .start_worker => true
  | .progress _ => true
  | _ => false

/-- Two things still happen to a finished job: the verdict update of the
    critical section that finished it, and the state writes of a worker that
    outlived its pool. -/
theorem finished_step {closed pool_open : Bool} {j j' : Job Report} {a : Action Report}
    (hwf : j.WF) (hfin : j.finished = true) (hstep : job_step closed pool_open j a j') :
    j' = j ∨
    ((∃ written passed, a = .settle written ∧ j.lock = .settling passed) ∧ j' = j.unlocked) ∨
    (j.Abandoned ∧ a.writes_state = true ∧ ∃ st, j' = { j with state := st }) := by
  match a with
  | .register _ => exact hstep.elim
  | .submit accepted exc =>
    obtain ⟨_, _, rfl⟩ := hstep
    rcases j.submit_cases accepted exc with heq | ⟨_, hnot, _⟩ | ⟨_, hnot, _⟩
    · exact Or.inl heq
    all_goals simp [hfin] at hnot
  | .cancel caller answer =>
    obtain ⟨_, _, _, rfl⟩ := hstep
    rcases j.cancel_cases closed with ⟨_, heq⟩ | ⟨_, _, heq⟩ | ⟨_, hnot, _⟩ |
      ⟨_, hnot, _⟩ | ⟨_, hnot, _⟩
    · exact Or.inl (by rw [heq])
    · exact Or.inl (by rw [heq])
    all_goals simp [hfin] at hnot
  | .start_worker =>
    obtain ⟨hfut, _⟩ | ⟨habandoned, rfl⟩ := hstep
    · simpa [Future.is_done] using (hwf.finished_future hfin hfut).1
    · exact Or.inr (Or.inr ⟨habandoned, rfl, _, rfl⟩)
  | .progress pct =>
    obtain ⟨hfut | habandoned, rfl⟩ := hstep
    · simpa [Future.is_done] using (hwf.finished_future hfin hfut).1
    · exact Or.inr (Or.inr ⟨habandoned, rfl, _, rfl⟩)
  | .finish_worker outcome =>
    obtain ⟨hfut | ⟨hfut, _⟩, _⟩ := hstep <;>
      simpa [Future.is_done] using (hwf.finished_future hfin hfut).1
  | .cancel_future =>
    obtain ⟨_, hfut, _⟩ := hstep
    simpa [Future.is_done] using (hwf.finished_future hfin hfut).1
  | .on_done refusal =>
    obtain ⟨f, _, hfut, _, hback, _⟩ := hstep
    simp [(hwf.finished_future hfin hfut).2] at hback
  | .save failure =>
    obtain ⟨r, owner, hlock, _⟩ := hstep
    have := (hwf.saving_back r hlock).2.2
    simp [hfin] at this
  | .conclude notified =>
    obtain ⟨hlock, _⟩ := hstep
    have := (hwf.committed_back hlock).2.2
    simp [hfin] at this
  | .settle written =>
    obtain ⟨passed, hlock, rfl⟩ := hstep
    exact Or.inr (Or.inl ⟨⟨written, passed, rfl, hlock⟩, rfl⟩)
  | .sweep =>
    obtain ⟨_, _, rfl⟩ := hstep
    rcases j.sweep_cases with ⟨_, heq⟩ | ⟨hnot, _⟩ | ⟨hnot, _⟩
    · exact Or.inl heq
    all_goals simp [hfin] at hnot
  | .prune => obtain ⟨_, rfl⟩ := hstep; exact Or.inl rfl
  | .remove _ _ => exact hstep.elim

/-! ### What a stored report rests on -/

/-- The worker handed back a report. -/
def Job.Reported (j : Job Report) : Prop := ∃ r, j.future = some (.done (.report r))

/-- Whatever a job keeps of a report, its worker has handed back. -/
structure Job.Backed (j : Job Report) : Prop where
  saving : ∀ r, j.lock = .saving r → j.Reported
  committed : j.lock = .committed → j.Reported
  saved : j.saved = true → j.Reported
  detail : ∀ r, j.detail = some (.report r) → j.Reported

theorem Job.not_reported {j : Job Report} {f : Option (Future Report)} (hfut : j.future = f)
    (hf : ∀ r, f ≠ some (.done (.report r))) : ¬ j.Reported := by
  rintro ⟨r, hr⟩
  exact hf r (hfut.symm.trans hr)

/-- A lock that holds no report has none to rest on. -/
theorem Job.Backed.of_kept {j : Job Report} (hsaving : ∀ r, j.lock ≠ .saving r)
    (hcommitted : j.lock ≠ .committed) (hsaved : j.saved = true → j.Reported)
    (hdetail : ∀ r, j.detail = some (.report r) → j.Reported) : j.Backed :=
  ⟨fun r hr => absurd hr (hsaving r), fun hc => absurd hc hcommitted, hsaved, hdetail⟩

theorem Job.backed_queued (spec : RunSpec) : (Job.queued spec : Job Report).Backed := by
  constructor <;> simp [Job.queued]

theorem Job.Backed.with_state {j : Job Report} (h : j.Backed) (st : SharedState) :
    { j with state := st }.Backed := ⟨h.saving, h.committed, h.saved, h.detail⟩

theorem Job.Backed.fail {j : Job Report} (h : j.Backed) (m : String) : (j.fail m).Backed :=
  ⟨h.saving, h.committed, h.saved, by simp [Job.fail]⟩

theorem Job.Backed.fail_and_settle {j : Job Report} (h : j.Backed) (m : String) :
    (j.fail_and_settle m).Backed :=
  .of_kept (by simp [Job.fail_and_settle]) (by simp [Job.fail_and_settle]) h.saved
    (by simp [Job.fail_and_settle, Job.fail])

/-- The future may move as long as it has no result yet. -/
theorem Job.Backed.move_future {j : Job Report} (h : j.Backed) (hopen : ¬ j.Reported)
    (f : Option (Future Report)) (st : SharedState) :
    { j with future := f, state := st }.Backed :=
  ⟨fun r hr => absurd (h.saving r hr) hopen, fun hc => absurd (h.committed hc) hopen,
    fun hs => absurd (h.saved hs) hopen, fun r hr => absurd (h.detail r hr) hopen⟩

/-- A job that goes on from a report has that report. -/
theorem Job.Backed.on_done {j : Job Report} (h : j.Backed) (closed : Bool)
    (refusal : Option String) {f : Future Report} (hfut : j.future = some f)
    (hdone : f.is_done = true) : (j.on_done closed refusal f).Backed := by
  have hcalled : { j with called_back := true }.Backed := ⟨h.saving, h.committed, h.saved, h.detail⟩
  rcases j.on_done_cases closed refusal hdone with ⟨m, heq⟩ | ⟨r, owner, _, _, rfl, _, heq⟩ |
    ⟨r, _, _, rfl, _, heq⟩ <;> rw [heq]
  · exact hcalled.fail_and_settle m
  · exact ⟨fun _ _ => ⟨r, hfut⟩, by simp, h.saved, h.detail⟩
  · exact .of_kept (by simp) (by simp) h.saved (fun _ _ => ⟨r, hfut⟩)

theorem Job.Backed.cancel {j : Job Report} (h : j.Backed) (closed : Bool) :
    (j.cancel closed).2.Backed := by
  rcases j.cancel_cases closed with ⟨_, heq⟩ | ⟨_, _, heq⟩ | ⟨_, _, _, heq⟩ |
    ⟨_, _, hfut, heq⟩ | ⟨_, _, _, _, heq⟩ <;> rw [heq]
  · exact h
  · exact h
  · exact (h.with_state _).fail _
  · have hopen : ¬ j.Reported := Job.not_reported hfut (by simp)
    have hmoved := h.move_future hopen (some .cancelled) j.request_cancel.state
    exact Job.Backed.fail_and_settle (j := { j.request_cancel with
      future := some .cancelled, called_back := true })
      ⟨hmoved.saving, hmoved.committed, hmoved.saved, hmoved.detail⟩ _
  · exact h.with_state _

theorem Job.Backed.step {closed pool_open : Bool} {j j' : Job Report} {a : Action Report}
    (h : j.Backed) (hstep : job_step closed pool_open j a j') : j'.Backed := by
  -- a future that still moves has no report to lose
  have hopen : ∀ f, j.future = some f → f.is_done = false → ¬ j.Reported := by
    intro f hfut hf
    apply Job.not_reported hfut
    intro r hr
    obtain rfl := Option.some.inj hr
    simp [Future.is_done] at hf
  cases a with
  | register _ => exact hstep.elim
  | submit accepted exc =>
    obtain ⟨_, _, rfl⟩ := hstep
    rcases j.submit_cases accepted exc with heq | ⟨hfut, _, heq⟩ | ⟨_, _, heq⟩ <;> rw [heq]
    · exact h
    · exact h.move_future (Job.not_reported hfut (by simp)) _ _
    · exact h.fail_and_settle _
  | cancel caller answer => obtain ⟨_, _, _, rfl⟩ := hstep; exact h.cancel closed
  | start_worker =>
    obtain ⟨hfut, rfl⟩ | ⟨_, rfl⟩ := hstep
    · exact h.move_future (hopen _ hfut rfl) _ _
    · -- a worker that outlives its pool writes the state and nothing else
      exact h.with_state _
  | progress pct => obtain ⟨_, rfl⟩ := hstep; exact h.with_state _
  | finish_worker outcome =>
    obtain ⟨hfut | ⟨hfut, _⟩, rfl⟩ := hstep <;> exact h.move_future (hopen _ hfut rfl) _ _
  | cancel_future =>
    obtain ⟨_, hfut, rfl⟩ := hstep
    exact h.move_future (hopen _ hfut rfl) _ _
  | on_done refusal =>
    obtain ⟨f, _, hfut, hdone, _, rfl⟩ := hstep
    exact h.on_done closed refusal hfut hdone
  | save failure =>
    cases failure with
    | none =>
      -- what is committed is the report the lock held
      obtain ⟨r, owner, hlock, _, rfl⟩ := hstep
      exact ⟨by simp [Job.save], fun _ => h.saving r hlock, h.saved, h.detail⟩
    | some exc =>
      obtain ⟨r, owner, _, _, rfl⟩ := hstep
      exact h.fail_and_settle _
  | conclude notified =>
    -- `saved` is set whether the state can still be written or not
    obtain ⟨hlock, rfl⟩ := hstep
    cases notified with
    | true =>
      exact .of_kept (by simp [Job.conclude]) (by simp [Job.conclude]) (fun _ => h.committed hlock)
        h.detail
    | false =>
      exact .of_kept (by simp [Job.conclude]) (by simp [Job.conclude]) (fun _ => h.committed hlock)
        h.detail
  | settle _ =>
    obtain ⟨passed, _, rfl⟩ := hstep
    exact .of_kept (by simp) (by simp) h.saved h.detail
  | sweep =>
    obtain ⟨_, _, rfl⟩ := hstep
    rcases j.sweep_cases with ⟨_, heq⟩ | ⟨_, _, heq⟩ | ⟨_, _, heq⟩ <;> rw [heq]
    · exact h
    · exact (h.with_state _).fail_and_settle _
    · exact h.with_state _
  | prune => obtain ⟨_, rfl⟩ := hstep; exact h
  | remove _ _ => exact hstep.elim

/-- A job whose pool broke has not passed, whatever its state says. -/
theorem Job.Backed.not_passed {j : Job Report} (h : j.Backed) (habandoned : j.Abandoned)
    (st : SharedState) : { j with state := st }.passed = false := by
  obtain ⟨m, hm⟩ := habandoned
  have hopen : ¬ j.Reported := Job.not_reported hm (by simp)
  have hsaved : j.saved = false := by
    by_contra hs
    exact hopen (h.saved (by simpa using hs))
  cases hdetail : j.detail with
  | none => simp [Job.passed, hsaved]
  | some d =>
    cases d with
    | empty _ _ _ => simp [Job.passed, hsaved]
    | report r => exact absurd (h.detail r hdetail) hopen

/-! ### Steps that finish a job -/

/-- The lock holder of a finished job is about to write its verdict. -/
def Job.Settling (j : Job Report) : Prop := j.finished = true ∧ j.lock = .settling j.passed

theorem Job.settling_fail {j : Job Report} (m : String) : (j.fail_and_settle m).Settling :=
  ⟨rfl, by simp [Job.fail_and_settle, Job.fail, Job.passed]⟩

/-- The callback either goes on to save, or finishes the job and settles. -/
theorem Job.settling_on_done (j : Job Report) (closed : Bool) (refusal : Option String)
    {f : Future Report} (hdone : f.is_done = true) :
    (j.on_done closed refusal f).Settling ∨
      (j.on_done closed refusal f).finished = j.finished ∧
        ∃ r, (j.on_done closed refusal f).lock = .saving r := by
  rcases j.on_done_cases closed refusal hdone with ⟨m, heq⟩ | ⟨r, owner, _, _, _, _, heq⟩ |
    ⟨r, _, _, _, _, heq⟩ <;> rw [heq]
  · exact Or.inl (Job.settling_fail m)
  · exact Or.inr ⟨rfl, r, rfl⟩
  · exact Or.inl ⟨rfl, by simp [Job.passed]⟩

/-- Every step that finishes a job leaves its lock holder about to write the
    verdict, except a `cancel` that finds no future. A step that leaves the
    job unfinished has no verdict to write. -/
theorem finishing_step {closed pool_open : Bool} {j j' : Job Report} {a : Action Report}
    (hfin : j.finished = false) (hlock : ∀ p, j.lock ≠ .settling p)
    (hstep : job_step closed pool_open j a j') :
    j'.Settling ∨ (j'.finished = false ∧ ∀ p, j'.lock ≠ .settling p) ∨
      (j.future = none ∧ ∃ caller, a = .cancel caller .cancel_requested) := by
  match a with
  | .register _ => exact hstep.elim
  | .submit accepted exc =>
    obtain ⟨_, _, rfl⟩ := hstep
    rcases j.submit_cases accepted exc with heq | ⟨_, _, heq⟩ | ⟨_, _, heq⟩ <;> rw [heq]
    · exact Or.inr (Or.inl ⟨hfin, hlock⟩)
    · exact Or.inr (Or.inl ⟨hfin, hlock⟩)
    · exact Or.inl (Job.settling_fail _)
  | .cancel caller answer =>
    obtain ⟨_, _, hans, rfl⟩ := hstep
    rcases j.cancel_cases closed with ⟨_, heq⟩ | ⟨_, _, heq⟩ | ⟨_, _, hfut, heq⟩ |
      ⟨_, _, _, heq⟩ | ⟨_, _, _, _, heq⟩ <;> rw [heq] at hans ⊢
    · exact Or.inr (Or.inl ⟨hfin, hlock⟩)
    · exact Or.inr (Or.inl ⟨hfin, hlock⟩)
    · exact Or.inr (Or.inr ⟨hfut, caller, by rw [hans]⟩)
    · exact Or.inl (Job.settling_fail _)
    · exact Or.inr (Or.inl ⟨hfin, hlock⟩)
  | .start_worker =>
    obtain ⟨_, rfl⟩ | ⟨_, rfl⟩ := hstep <;> exact Or.inr (Or.inl ⟨hfin, hlock⟩)
  | .progress pct => obtain ⟨_, rfl⟩ := hstep; exact Or.inr (Or.inl ⟨hfin, hlock⟩)
  | .finish_worker outcome => obtain ⟨_, rfl⟩ := hstep; exact Or.inr (Or.inl ⟨hfin, hlock⟩)
  | .cancel_future => obtain ⟨_, _, rfl⟩ := hstep; exact Or.inr (Or.inl ⟨hfin, hlock⟩)
  | .on_done refusal =>
    obtain ⟨f, _, _, hdone, _, rfl⟩ := hstep
    rcases j.settling_on_done closed refusal hdone with h | ⟨h, r, hr⟩
    · exact Or.inl h
    · exact Or.inr (Or.inl ⟨by rw [h, hfin], by simp [hr]⟩)
  | .save none =>
    obtain ⟨r, owner, _, _, rfl⟩ := hstep
    exact Or.inr (Or.inl ⟨hfin, by simp [Job.save]⟩)
  | .save (some exc) =>
    obtain ⟨r, owner, _, _, rfl⟩ := hstep
    exact Or.inl (Job.settling_fail _)
  | .conclude true =>
    obtain ⟨_, rfl⟩ := hstep
    exact Or.inl ⟨rfl, by simp [Job.conclude, Job.passed]⟩
  | .conclude false =>
    obtain ⟨_, rfl⟩ := hstep
    exact Or.inr (Or.inl ⟨hfin, by simp [Job.conclude]⟩)
  | .settle _ =>
    obtain ⟨passed, hl, _⟩ := hstep
    exact absurd hl (hlock passed)
  | .sweep =>
    obtain ⟨_, _, rfl⟩ := hstep
    rcases j.sweep_cases with ⟨_, heq⟩ | ⟨_, _, heq⟩ | ⟨_, _, heq⟩ <;> rw [heq]
    · exact Or.inr (Or.inl ⟨hfin, hlock⟩)
    · exact Or.inl (Job.settling_fail _)
    · exact Or.inr (Or.inl ⟨hfin, hlock⟩)
  | .prune => obtain ⟨_, rfl⟩ := hstep; exact Or.inr (Or.inl ⟨hfin, hlock⟩)
  | .remove _ _ => exact hstep.elim

/-- A job between two steps: unfinished with no verdict to write, about to
    write it, or finished with its lock released. -/
def Job.Orderly (j : Job Report) : Prop :=
  (j.finished = false ∧ ∀ p, j.lock ≠ .settling p) ∨ j.Settling ∨
    (j.finished = true ∧ j.lock = .free)

theorem Job.Orderly.step {closed pool_open : Bool} {j j' : Job Report} {a : Action Report}
    (h : j.Orderly) (hwf : j.WF) (hbacked : j.Backed) (hstep : job_step closed pool_open j a j')
    (ha : ∀ caller, a = .cancel caller .cancel_requested → j.future ≠ none) : j'.Orderly := by
  rcases h with ⟨hfin, hlock⟩ | ⟨hfin, hlock⟩ | ⟨hfin, hlock⟩
  · rcases finishing_step hfin hlock hstep with hset | hopen | ⟨hfut, caller, rfl⟩
    · exact Or.inr (Or.inl hset)
    · exact Or.inl hopen
    · exact absurd hfut (ha caller rfl)
  · rcases finished_step hwf hfin hstep with rfl | ⟨_, rfl⟩ | ⟨habandoned, _, st, rfl⟩
    · exact Or.inr (Or.inl ⟨hfin, hlock⟩)
    · exact Or.inr (Or.inr ⟨hfin, rfl⟩)
    · refine Or.inr (Or.inl ⟨hfin, ?_⟩)
      rw [hbacked.not_passed habandoned st, ← hbacked.not_passed habandoned j.state]
      exact hlock
  · rcases finished_step hwf hfin hstep with rfl | ⟨_, rfl⟩ | ⟨_, _, st, rfl⟩
    · exact Or.inr (Or.inr ⟨hfin, hlock⟩)
    · exact Or.inr (Or.inr ⟨hfin, rfl⟩)
    · exact Or.inr (Or.inr ⟨hfin, hlock⟩)

/-! ### Strategy rows along a run -/

/-- The row shows the verdict of the run `id`. -/
structure Row.Shows (row : Row) (id : JobId) (passed : Bool) : Prop where
  status : row.status = if passed then .active else .failed_validation
  enabled : row.enabled = passed
  job_id : row.validation_job_id = some id

/-- The registry changes only when the lock holder of a validation writes its verdict. -/
theorem strategies_step {s s' : State Report} {l : Label Report}
    (hstep : job_manager.step s l s') :
    s'.strategies = s.strategies ∨
      ∃ id j passed, l = .job id (.settle true) ∧ (s.slots id).job = some j ∧
        j.lock = .settling passed ∧
        s'.strategies = settle_validation s.strategies j.spec passed := by
  match l with
  | .close => subst hstep; exact Or.inl rfl
  | .stop_pool => obtain ⟨_, rfl⟩ := hstep; exact Or.inl rfl
  | .job id (.settle true) =>
    obtain ⟨_, x', ⟨j, j', hj, ⟨passed, hlock, rfl⟩, _, rfl⟩, rfl⟩ := hstep
    exact Or.inr ⟨id, j, passed, rfl, hj, hlock, by simp [settled_strategies, hj, hlock]⟩
  | .job id (.settle false) | .job id (.register _) | .job id (.submit _ _)
  | .job id (.cancel _ _) | .job id .start_worker | .job id (.progress _)
  | .job id (.finish_worker _) | .job id .cancel_future | .job id (.on_done _)
  | .job id (.save _) | .job id (.conclude _) | .job id .sweep | .job id .prune
  | .job id (.remove _ _) => obtain ⟨_, _, _, rfl⟩ := hstep; exact Or.inl rfl

theorem settle_writes {s s' : State Report} {k : JobId} {j : Job Report} {passed : Bool}
    (hstep : job_manager.step s (.job k (.settle true)) s') (hj : (s.slots k).job = some j)
    (hlock : j.lock = .settling passed) :
    s'.strategies = settle_validation s.strategies j.spec passed := by
  obtain ⟨_, _, _, rfl⟩ := hstep
  simp [settled_strategies, hj, hlock]

/-- A user row found after a verdict was written under its key shows that verdict. -/
theorem settle_validation_shows {t : Strategies} {spec : RunSpec} {passed : Bool} {row : Row}
    (hval : spec.purpose = .validation)
    (hrow : settle_validation t spec passed spec.strategy_key = some row)
    (hkind : row.kind = .user) : row.Shows spec.id passed := by
  cases hold : t spec.strategy_key with
  | none => simp [settle_validation, hval, update_user_row, hold] at hrow
  | some old =>
    by_cases huser : old.kind = .user
    · obtain rfl : old.settle spec.id passed = row := by
        simpa [settle_validation, hval, update_user_row, hold, huser] using hrow
      exact ⟨rfl, rfl, rfl⟩
    · obtain rfl : old = row := by
        simpa [settle_validation, hval, update_user_row, hold, huser] using hrow
      exact absurd hkind huser

theorem settle_validation_ne {t : Strategies} {spec : RunSpec} {passed : Bool}
    {key : StrategyKey} (h : spec.purpose = .validation → spec.strategy_key ≠ key) :
    settle_validation t spec passed key = t key := by
  cases hp : spec.purpose with
  | user => simp [settle_validation, hp]
  | validation => simp [settle_validation, hp, (h hp).symm]

/-! ### One validation per strategy -/

/-- Jobs are filed under their own id, and two validations never share a strategy. -/
structure Filed (s : State Report) : Prop where
  own_id : ∀ k j, (s.slots k).job = some j → j.spec.id = k
  apart : ∀ k₁ k₂ j₁ j₂, k₁ ≠ k₂ → (s.slots k₁).job = some j₁ → (s.slots k₂).job = some j₂ →
    j₁.spec.purpose = .validation → j₂.spec.purpose = .validation →
    j₁.spec.strategy_key ≠ j₂.spec.strategy_key

/-- What a step does to the spec filed under `k`: it was there, or it is being registered. -/
theorem spec_at {s s' : State Report} {l : Label Report} {k : JobId} {j : Job Report}
    (hstep : job_manager.step s l s') (hj : (s'.slots k).job = some j) :
    (∃ j₀, (s.slots k).job = some j₀ ∧ j.spec = j₀.spec) ∨
      (l = .job k (.register j.spec) ∧ register_ok s k (.register j.spec)) := by
  rcases step_at hstep k with ⟨heq, _⟩ | ⟨a, rfl, hslot⟩
  · exact Or.inl ⟨j, by rw [← heq]; exact hj, rfl⟩
  · rcases slot_step_cases hslot with ⟨spec, rfl, _, _, _, hnew, _⟩ |
      ⟨j₀, j', h₀, hj', hjob, _⟩ | ⟨heq, _⟩
    · obtain rfl : j = Job.queued spec := by simpa [hnew] using hj.symm
      exact Or.inr ⟨rfl, hstep.1⟩
    · obtain rfl : j = j' := by simpa [hj'] using hj.symm
      exact Or.inl ⟨j₀, h₀, spec_step hjob⟩
    · exact Or.inl ⟨j, by rw [← heq]; exact hj, rfl⟩

theorem filed_step {s s' : State Report} {l : Label Report}
    (hstep : job_manager.step s l s') (h : Filed s) : Filed s' := by
  constructor
  · intro k j hj
    rcases spec_at hstep hj with ⟨j₀, h₀, hspec⟩ | ⟨_, hok⟩
    · rw [hspec]; exact h.own_id k j₀ h₀
    · exact hok.1
  · intro k₁ k₂ j₁ j₂ hne h₁ h₂ hv₁ hv₂
    rcases spec_at hstep h₁ with ⟨i₁, hi₁, hs₁⟩ | ⟨hl₁, hok₁⟩
    · rcases spec_at hstep h₂ with ⟨i₂, hi₂, hs₂⟩ | ⟨_, hok₂⟩
      · rw [hs₁] at hv₁ ⊢
        rw [hs₂] at hv₂ ⊢
        exact h.apart k₁ k₂ i₁ i₂ hne hi₁ hi₂ hv₁ hv₂
      · rw [hs₁] at hv₁ ⊢
        exact hok₂.2 hv₂ k₁ i₁ hi₁ hv₁
    · rcases spec_at hstep h₂ with ⟨i₂, hi₂, hs₂⟩ | ⟨hl₂, _⟩
      · rw [hs₂] at hv₂ ⊢
        exact (hok₁.2 hv₁ k₂ i₂ hi₂ hv₂).symm
      · rw [hl₁] at hl₂
        injection hl₂ with hk
        exact absurd hk hne

/-! ### Every finished validation settles -/

/-- No `cancel` reaches the run `k` before it has a future, and its verdict
    update commits. -/
def settles_ok (k : JobId) (s : State Report) : Label Report → Prop
  | .job id (.cancel _ .cancel_requested) =>
      id = k → ∀ j, (s.slots k).job = some j → j.future ≠ none
  | .job id (.settle written) => id = k → written = true
  | _ => True

/-- The registry shows the verdict of the job `k`, once it finished and
    released its lock. -/
def RowSettled (k : JobId) (s : State Report) : Prop :=
  ∀ j, (s.slots k).job = some j → j.finished = true → j.lock = .free →
    j.spec.purpose = .validation → ∀ row, s.strategies j.spec.strategy_key = some row →
      row.kind = .user → row.Shows k j.passed

/-- What holds of the job `k` between two steps. -/
structure SettleInv (k : JobId) (s : State Report) : Prop where
  wf : AllWF s
  filed : Filed s
  backed : ∀ j, (s.slots k).job = some j → j.Backed
  orderly : ∀ j, (s.slots k).job = some j → j.Orderly
  row : RowSettled k s

/-- A step of the manager, seen from a registered job that stays registered:
    either the label is not about it, or the job makes the step. -/
theorem job_at {s s' : State Report} {l : Label Report} {k : JobId} {j' : Job Report}
    (hstep : job_manager.step s l s') (hj' : (s'.slots k).job = some j') :
    (∃ spec, j' = Job.queued spec) ∨ (s.slots k).job = some j' ∨
      ∃ j a, l = .job k a ∧ (s.slots k).job = some j ∧
        job_step s.closed s.pool_open j a j' := by
  rcases step_at hstep k with ⟨heq, _⟩ | ⟨a, rfl, hslot⟩
  · exact Or.inr (Or.inl (by rw [← heq]; exact hj'))
  · rcases slot_step_cases hslot with ⟨spec, _, _, _, _, hnew, _⟩ |
      ⟨j, j₁, hj, hj₁, hjob, _⟩ | ⟨heq, _⟩
    · exact Or.inl ⟨spec, by simpa [hnew] using hj'.symm⟩
    · obtain rfl : j' = j₁ := by simpa [hj₁] using hj'.symm
      exact Or.inr (Or.inr ⟨j, a, rfl, hj, hjob⟩)
    · exact Or.inr (Or.inl (by rw [← heq]; exact hj'))

theorem backed_step {s s' : State Report} {l : Label Report} {k : JobId}
    (hstep : job_manager.step s l s') (h : ∀ j, (s.slots k).job = some j → j.Backed) :
    ∀ j, (s'.slots k).job = some j → j.Backed := by
  intro j' hj'
  rcases job_at hstep hj' with ⟨spec, rfl⟩ | hsame | ⟨j, a, _, hj, hjob⟩
  · exact Job.backed_queued spec
  · exact h j' hsame
  · exact (h j hj).step hjob

theorem orderly_step {s s' : State Report} {l : Label Report} {k : JobId}
    (hok : settles_ok k s l) (hstep : job_manager.step s l s') (h : SettleInv k s) :
    ∀ j, (s'.slots k).job = some j → j.Orderly := by
  intro j' hj'
  rcases job_at hstep hj' with ⟨spec, rfl⟩ | hsame | ⟨j, a, rfl, hj, hjob⟩
  · exact Or.inl ⟨rfl, by simp [Job.queued]⟩
  · exact h.orderly j' hsame
  · refine (h.orderly j hj).step (h.wf k j hj) (h.backed j hj) hjob ?_
    rintro caller rfl
    exact hok rfl j hj

/-- Another job never writes the row of the validation `k`. -/
theorem strategies_other {s s' : State Report} {l : Label Report} {k : JobId} {j : Job Report}
    (hstep : job_manager.step s l s') (hfiled : Filed s) (hj : (s.slots k).job = some j)
    (hval : j.spec.purpose = .validation) (hfree : j.lock = .free) :
    s'.strategies j.spec.strategy_key = s.strategies j.spec.strategy_key := by
  rcases strategies_step hstep with heq | ⟨id, i, passed, rfl, hi, hlock, heq⟩
  · rw [heq]
  · rw [heq]
    refine settle_validation_ne (fun hv => ?_)
    by_cases hid : id = k
    · subst hid
      obtain rfl : j = i := by simpa [hj] using hi
      simp [hfree] at hlock
    · exact hfiled.apart id k i j hid hi hj hv hval

theorem row_step {s s' : State Report} {l : Label Report} {k : JobId}
    (hok : settles_ok k s l) (hstep : job_manager.step s l s') (h : SettleInv k s) :
    RowSettled k s' := by
  intro j' hj' hfin hfree hval row hrow hkind
  rcases job_at hstep hj' with ⟨spec, rfl⟩ | hsame | ⟨j, a, rfl, hj, hjob⟩
  · simp [Job.queued] at hfin
  · rw [strategies_other hstep h.filed hsame hval hfree] at hrow
    exact h.row j' hsame hfin hfree hval row hrow hkind
  · have hspec := spec_step hjob
    rcases h.orderly j hj with ⟨hopen, hlock⟩ | ⟨hdone, hlock⟩ | ⟨hdone, hlock⟩
    · -- a step that finishes the job does not release its lock
      rcases finishing_step hopen hlock hjob with ⟨_, hset⟩ | ⟨hnot, _⟩ | ⟨hfut, caller, rfl⟩
      · simp [hfree] at hset
      · simp [hfin] at hnot
      · exact absurd hfut (hok rfl j hj)
    · rcases finished_step (h.wf k j hj) hdone hjob with rfl | ⟨⟨written, passed, rfl, _⟩, rfl⟩ |
        ⟨_, _, st, rfl⟩
      · simp [hfree] at hlock
      · obtain rfl : written = true := hok rfl
        rw [settle_writes hstep hj hlock] at hrow
        have hshow : row.Shows j.spec.id j.passed := settle_validation_shows hval hrow hkind
        rw [h.filed.own_id k j hj] at hshow
        exact hshow
      · exact absurd (hfree.symm.trans hlock) (by simp)
    · rw [hspec] at hrow hval
      rw [strategies_other hstep h.filed hj hval hlock] at hrow
      have hshow := h.row j hj hdone hlock hval row hrow hkind
      rcases finished_step (h.wf k j hj) hdone hjob with rfl | ⟨_, rfl⟩ | ⟨habandoned, _, st, rfl⟩
      · exact hshow
      · exact hshow
      · -- a late write leaves a failed job failed
        rw [(h.backed j hj).not_passed habandoned st,
          ← (h.backed j hj).not_passed habandoned j.state]
        exact hshow

theorem settle_inv_step {s s' : State Report} {l : Label Report} {k : JobId}
    (hok : settles_ok k s l) (hstep : job_manager.step s l s') (h : SettleInv k s) :
    SettleInv k s' where
  wf := all_wf_step hstep h.wf
  filed := filed_step hstep h.filed
  backed := backed_step hstep h.backed
  orderly := orderly_step hok hstep h
  row := row_step hok hstep h

theorem settle_inv {ls : List (Label Report)} {s : State Report} {k : JobId}
    (h : (job_manager.restrict (settles_ok k)).Trace ls s) : SettleInv k s := by
  refine System.invariant (P := SettleInv k) ?_ ?_ h
  · rintro s ⟨_, _, hnone⟩
    exact ⟨fun k j hj => by simp [hnone k] at hj,
      ⟨fun k j hj => by simp [hnone k] at hj, fun k₁ _ j₁ _ _ h₁ => by simp [hnone k₁] at h₁⟩,
      fun j hj => by simp [hnone k] at hj, fun j hj => by simp [hnone k] at hj,
      fun j hj => by simp [hnone k] at hj⟩
  · rintro s l t hinv ⟨hok, hstep⟩
    exact settle_inv_step hok hstep hinv

/-- What a finished job `j` keeps along a run: all but its lock and the
    state a late worker writes, and with a free lock the row of its strategy. -/
structure Kept (k : JobId) (j : Job Report) (s t : State Report) (j' : Job Report) : Prop where
  job : (t.slots k).job = some j'
  same : j' = { j with state := j'.state, lock := j'.lock }
  passed : j'.passed = j.passed
  row : j.lock = .free → j'.lock = .free ∧
    t.strategies j.spec.strategy_key = s.strategies j.spec.strategy_key

theorem Kept.finished {k : JobId} {j j' : Job Report} {s t : State Report}
    (h : Kept k j s t j') : j'.finished = j.finished := by rw [h.same]

theorem Kept.spec {k : JobId} {j j' : Job Report} {s t : State Report}
    (h : Kept k j s t j') : j'.spec = j.spec := by rw [h.same]

/-- One step keeps a finished job, and its state too unless a worker writes. -/
theorem Kept.step {k : JobId} {j j' : Job Report} {s t u : State Report} {l : Label Report}
    (h : Kept k j s t j') (hinv : SettleInv k t) (hfin : j.finished = true)
    (hval : j.spec.purpose = .validation) (hstep : job_manager.step t l u) :
    ∃ j'', Kept k j s u j'' ∧
      ((∀ a, l = .job k a → a.writes_state = false) → j''.state = j'.state) := by
  have hfin' : j'.finished = true := h.finished.trans hfin
  -- once settled, nothing writes to this strategy's row
  have hrow : j.lock = .free →
      u.strategies j.spec.strategy_key = s.strategies j.spec.strategy_key := by
    intro hfree
    obtain ⟨hfree', hsame⟩ := h.row hfree
    have hother := strategies_other hstep hinv.filed h.job (by rw [h.spec]; exact hval) hfree'
    rw [h.spec] at hother
    rw [hother, hsame]
  rcases registered_step hstep h.job with hsame | ⟨a, j'', hl, hj'', hjob⟩
  · exact ⟨j', ⟨hsame, h.same, h.passed, fun hl => ⟨(h.row hl).1, hrow hl⟩⟩, fun _ => rfl⟩
  · rcases finished_step (hinv.wf k j' h.job) hfin' hjob with rfl | ⟨_, rfl⟩ |
      ⟨habandoned, hwrites, st, rfl⟩
    · exact ⟨j'', ⟨hj'', h.same, h.passed, fun hl => ⟨(h.row hl).1, hrow hl⟩⟩, fun _ => rfl⟩
    · exact ⟨j'.unlocked, ⟨hj'', by rw [h.same]; rfl, h.passed, fun hl => ⟨rfl, hrow hl⟩⟩,
        fun _ => rfl⟩
    · refine ⟨_, ⟨hj'', by rw [h.same], ?_, fun hl => ⟨(h.row hl).1, hrow hl⟩⟩, fun hquiet => ?_⟩
      · rw [← h.passed, (hinv.backed j' h.job).not_passed habandoned st,
          ← (hinv.backed j' h.job).not_passed habandoned j'.state]
      · simp [hquiet a hl] at hwrites

theorem finished_persist {s t : State Report} {ms : List (Label Report)} {k : JobId}
    {j : Job Report} (hrun : (job_manager.restrict (settles_ok k)).Run s ms t)
    (hinv : SettleInv k s) (hj : (s.slots k).job = some j) (hfin : j.finished = true)
    (hval : j.spec.purpose = .validation) :
    ∃ j', Kept k j s t j' ∧
      ((∀ a, Label.job k a ∈ ms → a.writes_state = false) → j'.state = j.state) := by
  have hboth : SettleInv k t ∧ ∃ j', Kept k j s t j' ∧
      ((∀ a, Label.job k a ∈ ms → a.writes_state = false) → j'.state = j.state) := by
    refine System.Run.label_invariant (P := fun ms t => SettleInv k t ∧ ∃ j', Kept k j s t j' ∧
      ((∀ a, Label.job k a ∈ ms → a.writes_state = false) → j'.state = j.state)) ?_
      ⟨hinv, j, ⟨hj, rfl, rfl, fun hfree => ⟨hfree, rfl⟩⟩, fun _ => rfl⟩ hrun
    rintro ms t l u ⟨ht, j', hkept, hstate⟩ ⟨hok, hstep⟩
    refine ⟨settle_inv_step hok hstep ht, ?_⟩
    obtain ⟨j'', hkept', hstate'⟩ := hkept.step ht hfin hval hstep
    refine ⟨j'', hkept', fun hquiet => ?_⟩
    rw [hstate' fun a ha => hquiet a (by simp [ha])]
    exact hstate fun a ha => hquiet a (List.mem_append_left _ ha)
  exact hboth.2

/-- **Every finished validation job settles its strategy**, in every run
    where no `cancel` reaches the job before its future and its verdict
    update commits: a finished job either still holds its lock to write its
    verdict, or the row shows it; and neither the job nor the verdict ever
    changes again. Only a worker that outlives its broken pool may still
    write the state the job shares with it. -/
theorem finished_validation_settles {ls : List (Label Report)} {s : State Report} {k : JobId}
    {j : Job Report} (h : (job_manager.restrict (settles_ok k)).Trace ls s)
    (hj : (s.slots k).job = some j) (hfin : j.finished = true)
    (hval : j.spec.purpose = .validation) :
    (j.lock = .settling j.passed ∨ j.lock = .free ∧
      ∀ row, s.strategies j.spec.strategy_key = some row → row.kind = .user →
        row.Shows k j.passed) ∧
    ∀ ms t, (job_manager.restrict (settles_ok k)).Run s ms t →
      ∃ j', (t.slots k).job = some j' ∧ j' = { j with state := j'.state, lock := j'.lock } ∧
        j'.passed = j.passed ∧
        ((∀ a, Label.job k a ∈ ms → a.writes_state = false) → j'.state = j.state) ∧
        (j.lock = .free →
          t.strategies j.spec.strategy_key = s.strategies j.spec.strategy_key) := by
  have hinv := settle_inv h
  constructor
  · rcases hinv.orderly j hj with ⟨hnot, _⟩ | ⟨_, hlock⟩ | ⟨_, hlock⟩
    · simp [hfin] at hnot
    · exact Or.inl hlock
    · exact Or.inr ⟨hlock, hinv.row j hj hfin hlock hval⟩
  · intro ms t hrun
    obtain ⟨j', hkept, hstate⟩ := finished_persist hrun hinv hj hfin hval
    exact ⟨j', hkept.job, hkept.same, hkept.passed, hstate, fun hl => (hkept.row hl).2⟩

/-- The registry of an upload waiting for its verdict. -/
def draft_registry : Strategies := fun key =>
  if key = "user_draft" then
    some { kind := .user, status := .validating, enabled := false, validation_job_id := none }
  else none

/-- A fresh manager beside that registry. -/
def draft_state : State Unit where
  closed := false
  pool_open := true
  slots := fun _ => { job := none, listed := false, report := none }
  strategies := draft_registry

def draft_validation : RunSpec :=
  { id := 7, owner_id := some 1, strategy_key := "user_draft", purpose := .validation }

/-- A validation that passes. -/
def passing_run : List (Label Unit) :=
  [.job 7 (.register draft_validation), .job 7 (.submit true ""), .job 7 .start_worker,
   .job 7 (.finish_worker (.report ())), .job 7 (.on_done none), .job 7 (.save none),
   .job 7 (.conclude true), .job 7 (.settle true)]

theorem passing_run_ends : ∃ s,
    (job_manager.restrict (settles_ok 7)).Run draft_state passing_run s ∧
    ∃ j, (s.slots 7).job = some j ∧ j.finished = true ∧ j.lock = .free ∧
      j.spec = draft_validation ∧ j.passed = true ∧
      s.strategies "user_draft" = some
        { kind := .user, status := .active, enabled := true, validation_job_id := some 7 } := by
  refine System.Run.exists_cons
    ⟨trivial, ⟨rfl, fun _ k j hj => by simp [draft_state] at hj⟩, _,
      ⟨rfl, rfl, nofun, rfl, rfl, rfl⟩, rfl⟩ ?_
  refine System.Run.exists_cons
    ⟨trivial, trivial, _, ⟨_, _, rfl, ⟨rfl, fun _ => rfl, rfl⟩, nofun, rfl⟩, rfl⟩ ?_
  refine System.Run.exists_cons
    ⟨trivial, trivial, _, ⟨_, _, rfl, Or.inl ⟨rfl, rfl⟩, nofun, rfl⟩, rfl⟩ ?_
  refine System.Run.exists_cons
    ⟨trivial, trivial, _, ⟨_, _, rfl, ⟨Or.inl rfl, rfl⟩, nofun, rfl⟩, rfl⟩ ?_
  refine System.Run.exists_cons
    ⟨trivial, trivial, _, ⟨_, _, rfl, ⟨_, rfl, rfl, rfl, rfl, rfl⟩, nofun, rfl⟩, rfl⟩ ?_
  refine System.Run.exists_cons
    ⟨trivial, trivial, _, ⟨_, _, rfl, ⟨_, _, rfl, rfl, rfl⟩, fun _ => rfl, rfl⟩, rfl⟩ ?_
  refine System.Run.exists_cons
    ⟨trivial, trivial, _, ⟨_, _, rfl, ⟨rfl, rfl⟩, nofun, rfl⟩, rfl⟩ ?_
  refine System.Run.exists_cons
    ⟨fun _ => rfl, trivial, _, ⟨_, _, rfl, ⟨_, rfl, rfl⟩, nofun, rfl⟩, rfl⟩ ?_
  exact System.Run.exists_refl ⟨_, rfl, rfl, rfl, rfl, rfl, rfl⟩

theorem passing_run_active : ∃ s row,
    (job_manager.restrict (settles_ok 7)).Trace passing_run s ∧
    s.strategies "user_draft" = some row ∧ row.Shows 7 true := by
  obtain ⟨s, hrun, j, hj, hfin, hlock, hspec, hpassed, hrow⟩ := passing_run_ends
  have h : (job_manager.restrict (settles_ok 7)).Trace passing_run s :=
    ⟨draft_state, ⟨rfl, rfl, fun _ => rfl⟩, hrun⟩
  rcases (finished_validation_settles h hj hfin (by rw [hspec]; rfl)).1 with hset | ⟨_, hshow⟩
  · simp [hlock] at hset
  · rw [hspec, hpassed] at hshow
    exact ⟨s, _, h, hrow, hshow _ hrow rfl⟩

/-- A validation that its owner cancels before it is dispatched. -/
def undispatched_run : List (Label Unit) :=
  [.job 7 (.register draft_validation), .job 7 (.cancel (some 1) .cancel_requested)]

/-- The job is finished, its lock is free, and its strategy still waits. -/
theorem cancel_before_dispatch_unsettled : ∃ s j row,
    job_manager.Trace undispatched_run s ∧ (s.slots 7).job = some j ∧
    j.finished = true ∧ j.lock = .free ∧ j.spec.purpose = .validation ∧
    s.strategies j.spec.strategy_key = some row ∧ row.kind = .user ∧
    row.status = .validating ∧ ¬ row.Shows 7 j.passed := by
  have hrun : ∃ s, job_manager.Run draft_state undispatched_run s ∧
      ∃ j row, (s.slots 7).job = some j ∧
        j.finished = true ∧ j.lock = .free ∧ j.spec.purpose = .validation ∧
        s.strategies j.spec.strategy_key = some row ∧ row.kind = .user ∧
        row.status = .validating ∧ ¬ row.Shows 7 j.passed := by
    refine System.Run.exists_cons
      ⟨⟨rfl, fun _ k j hj => by simp [draft_state] at hj⟩, _,
        ⟨rfl, rfl, nofun, rfl, rfl, rfl⟩, rfl⟩ ?_
    refine System.Run.exists_cons
      ⟨trivial, _, ⟨_, _, rfl, ⟨rfl, rfl, rfl, rfl⟩, nofun, rfl⟩, rfl⟩ ?_
    exact System.Run.exists_refl
      ⟨_, _, rfl, rfl, rfl, rfl, rfl, rfl, rfl, fun hshow => nomatch hshow.job_id⟩
  obtain ⟨s, hrun, j, row, hj⟩ := hrun
  exact ⟨s, j, row, ⟨draft_state, ⟨rfl, rfl, fun _ => rfl⟩, hrun⟩, hj⟩

/-- A worker that outlives its pool reports `running` whatever the callback did. -/
theorem late_write {s : State Report} {k : JobId} {j : Job Report}
    (hj : (s.slots k).job = some j) (habandoned : j.Abandoned) :
    ∃ t, job_manager.step s (.job k .start_worker) t ∧
      (t.slots k).job = some j.report_running := by
  refine ⟨_, ⟨trivial, _, ⟨j, _, hj, Or.inr ⟨habandoned, rfl⟩, nofun, rfl⟩, rfl⟩, ?_⟩
  exact congrArg Slot.job (set_slot_self _ _ _)

/-- A validation whose pool breaks: the callback fails it and settles. -/
def broken_pool_run : List (Label Unit) :=
  [.job 7 (.register draft_validation), .job 7 (.submit true ""),
   .job 7 (.finish_worker (.exception "BrokenProcessPool")), .job 7 (.on_done none),
   .job 7 (.settle true)]

/-- The worker that took the job before the pool broke still reports `running`. -/
theorem late_write_unsettles : ∃ s t j j',
    job_manager.Trace broken_pool_run s ∧ (s.slots 7).job = some j ∧
    j.finished = true ∧ j.lock = .free ∧ j.spec.purpose = .validation ∧
    j.state.status = .failed ∧ job_manager.step s (.job 7 .start_worker) t ∧
    (t.slots 7).job = some j' ∧ j'.state.status = .running := by
  have hrun : ∃ s, job_manager.Run draft_state broken_pool_run s ∧
      ∃ j, (s.slots 7).job = some j ∧ j.finished = true ∧ j.lock = .free ∧
        j.spec.purpose = .validation ∧ j.state.status = .failed ∧ j.Abandoned := by
    refine System.Run.exists_cons
      ⟨⟨rfl, fun _ k j hj => by simp [draft_state] at hj⟩, _,
        ⟨rfl, rfl, nofun, rfl, rfl, rfl⟩, rfl⟩ ?_
    refine System.Run.exists_cons
      ⟨trivial, _, ⟨_, _, rfl, ⟨rfl, fun _ => rfl, rfl⟩, nofun, rfl⟩, rfl⟩ ?_
    refine System.Run.exists_cons
      ⟨trivial, _, ⟨_, _, rfl, ⟨Or.inr ⟨rfl, _, rfl⟩, rfl⟩, nofun, rfl⟩, rfl⟩ ?_
    refine System.Run.exists_cons
      ⟨trivial, _, ⟨_, _, rfl, ⟨_, rfl, rfl, rfl, rfl, rfl⟩, nofun, rfl⟩, rfl⟩ ?_
    refine System.Run.exists_cons
      ⟨trivial, _, ⟨_, _, rfl, ⟨_, rfl, rfl⟩, nofun, rfl⟩, rfl⟩ ?_
    exact System.Run.exists_refl ⟨_, rfl, rfl, rfl, rfl, rfl, _, rfl⟩
  obtain ⟨s, hrun, j, hj, hfin, hfree, hval, hfailed, habandoned⟩ := hrun
  obtain ⟨t, hstep, hrunning⟩ := late_write hj habandoned
  exact ⟨s, t, j, j.report_running, ⟨draft_state, ⟨rfl, rfl, fun _ => rfl⟩, hrun⟩, hj, hfin,
    hfree, hval, hfailed, hstep, hrunning, rfl⟩

/-- A job can finish without its verdict, and change its status once finished. -/
theorem settlement_fails :
    (∃ s j row, job_manager.Trace undispatched_run s ∧ (s.slots 7).job = some j ∧
      j.finished = true ∧ j.lock = .free ∧ j.spec.purpose = .validation ∧
      s.strategies j.spec.strategy_key = some row ∧ row.kind = .user ∧
      row.status = .validating ∧ ¬ row.Shows 7 j.passed) ∧
    (∃ s t j j', job_manager.Trace broken_pool_run s ∧ (s.slots 7).job = some j ∧
      j.finished = true ∧ j.lock = .free ∧ j.spec.purpose = .validation ∧
      j.state.status = .failed ∧ job_manager.step s (.job 7 .start_worker) t ∧
      (t.slots 7).job = some j' ∧ j'.state.status = .running) :=
  ⟨cancel_before_dispatch_unsettled, late_write_unsettles⟩

end Jobs
