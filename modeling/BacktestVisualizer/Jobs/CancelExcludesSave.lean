import BacktestVisualizer.Jobs.JobManager

/-! # Cancel Excludes Save

  A job is in one of three phases as far as its report is concerned. It is
  *open* until something decides; it is *committed* once `reports.save`
  committed; it is *dead* once a cancel request, a failure or a closed
  manager rules the save out. Committed and dead are both stable, and
  neither lets a save commit.

  The theorem of this module reads the phases off the labels of a run.
-/

open LTS

namespace Jobs

variable {Report : Type}

/-! ### Well-formed jobs -/

/-- How the flags of a job hang together between two critical sections. -/
structure Job.WF (j : Job Report) : Prop where
  called_back_done : j.called_back = true → ∃ f, j.future = some f ∧ f.is_done = true
  finished_back : j.finished = true → j.future = none ∨ j.called_back = true
  saving_back : ∀ r, j.lock = .saving r →
    j.called_back = true ∧ j.saved = false ∧ j.finished = false
  committed_back : j.lock = .committed →
    j.called_back = true ∧ j.saved = false ∧ j.finished = false
  saved_back : j.saved = true → j.called_back = true

/-- `reports.save` has committed for this job. -/
def Job.Committed (j : Job Report) : Prop := j.lock = .committed ∨ j.saved = true

/-- No save can commit any more. -/
structure Job.Dead (closed : Bool) (j : Job Report) : Prop where
  not_saving : ∀ r, j.lock ≠ .saving r
  not_committed : j.lock ≠ .committed
  not_saved : j.saved = false
  cause : j.state.cancel_requested = true ∨ j.finished = true ∨ j.called_back = true ∨
    closed = true

/-- Before the callback nobody has anything to save. -/
theorem Job.WF.idle_lock {j : Job Report} (h : j.WF) (hback : j.called_back = false) :
    (∀ r, j.lock ≠ .saving r) ∧ j.lock ≠ .committed ∧ j.saved = false := by
  refine ⟨fun r hr => ?_, fun hc => ?_, ?_⟩
  · have := (h.saving_back r hr).1
    simp [hback] at this
  · have := (h.committed_back hc).1
    simp [hback] at this
  · by_contra hs
    have := h.saved_back (by simpa using hs)
    simp [hback] at this

theorem Job.WF.not_back {j : Job Report} (h : j.WF) (hfut : j.future = none) :
    j.called_back = false := by
  by_contra hb
  obtain ⟨f, hf, _⟩ := h.called_back_done (by simpa using hb)
  simp [hfut] at hf

theorem Job.wf_queued (spec : RunSpec) : (Job.queued spec : Job Report).WF := by
  constructor <;> simp [Job.queued]

theorem Job.WF.fail_and_settle {j : Job Report} (h : j.WF) (m : String)
    (hend : j.future = none ∨ j.called_back = true) : (j.fail_and_settle m).WF where
  called_back_done := h.called_back_done
  finished_back := fun _ => hend
  saving_back := by simp [Job.fail_and_settle]
  committed_back := by simp [Job.fail_and_settle]
  saved_back := h.saved_back

theorem Job.WF.on_done {j : Job Report} (h : j.WF) (closed : Bool) (refusal : Option String)
    {f : Future Report} (hfut : j.future = some f) (hdone : f.is_done = true) (hback : j.called_back = false) :
    (j.on_done closed refusal f).WF := by
  have hsaved := (h.idle_lock hback).2.2
  have hfin : j.finished = false := by
    by_contra hf
    rcases h.finished_back (by simpa using hf) with hnone | hb
    · simp [hfut] at hnone
    · simp [hback] at hb
  rcases j.on_done_cases closed refusal hdone with ⟨m, heq⟩ | ⟨r, owner, _, _, _, _, heq⟩ |
    ⟨r, _, _, _, _, heq⟩ <;> rw [heq]
  · constructor <;> simp [Job.fail_and_settle, Job.fail, hfut, hdone]
  · constructor <;> simp [hfut, hdone, hsaved, hfin]
  · constructor <;> simp [hfut, hdone, hsaved]

/-- What a worker writes into the shared dictionary moves no flag. -/
theorem Job.WF.with_state {j : Job Report} (h : j.WF) (st : SharedState) :
    { j with state := st }.WF :=
  ⟨h.called_back_done, h.finished_back, h.saving_back, h.committed_back, h.saved_back⟩

theorem Job.WF.request_cancel {j : Job Report} (h : j.WF) : j.request_cancel.WF := h.with_state _

theorem Job.WF.cancel {j : Job Report} (h : j.WF) (closed : Bool) (hfree : j.lock = .free) :
    (j.cancel closed).2.WF := by
  rcases j.cancel_cases closed with ⟨_, heq⟩ | ⟨_, _, heq⟩ | ⟨_, _, hfut, heq⟩ |
    ⟨_, _, _, heq⟩ | ⟨_, _, _, _, heq⟩ <;> rw [heq]
  · exact h
  · exact h
  · have hb := h.not_back hfut
    constructor <;> simp_all [Job.fail, Job.request_cancel, h.saved_back]
  · constructor <;> simp [Job.fail_and_settle, Job.fail, Future.is_done]
  · exact h.request_cancel

theorem Job.WF.submit {j : Job Report} (h : j.WF) (accepted : Bool) (exc : String) :
    (j.submit accepted exc).WF := by
  rcases j.submit_cases accepted exc with heq | ⟨hfut, hfin, heq⟩ | ⟨hfut, _, heq⟩ <;> rw [heq]
  · exact h
  · have hb := h.not_back hfut
    exact ⟨by simp [hb], by simp [hfin], h.saving_back, h.committed_back, h.saved_back⟩
  · exact h.fail_and_settle _ (Or.inl hfut)

theorem Job.WF.sweep {j : Job Report} (h : j.WF) : j.sweep.WF := by
  rcases j.sweep_cases with ⟨_, heq⟩ | ⟨_, hfut, heq⟩ | ⟨_, _, heq⟩ <;> rw [heq]
  · exact h
  · exact h.request_cancel.fail_and_settle _ (Or.inl hfut)
  · exact h.request_cancel

theorem Job.WF.conclude {j : Job Report} (h : j.WF) (notified : Bool)
    (hlock : j.lock = .committed) : (j.conclude notified).WF := by
  have hb := (h.committed_back hlock).1
  have hfin := (h.committed_back hlock).2.2
  cases notified <;> constructor <;> simp [Job.conclude, hb, hfin, h.called_back_done hb]

/-- A future that has not been called back may move on by itself. -/
theorem Job.WF.move_future {j : Job Report} (h : j.WF) (hback : j.called_back = false)
    (hsome : j.future ≠ none) (f : Future Report) (st : SharedState) :
    { j with future := some f, state := st }.WF := by
  refine ⟨by simp [hback], fun hfin => ?_, h.saving_back, h.committed_back, h.saved_back⟩
  rcases h.finished_back hfin with hnone | hb
  · exact absurd hnone hsome
  · exact Or.inr hb

/-- A future that is not done has not been called back. -/
theorem Job.WF.not_done {j : Job Report} (h : j.WF) {f : Future Report}
    (hfut : j.future = some f) (hf : f.is_done = false) : j.called_back = false := by
  by_contra hb
  obtain ⟨g, hg, hdone⟩ := h.called_back_done (by simpa using hb)
  obtain rfl : f = g := by simpa [hfut] using hg
  simp [hf] at hdone

theorem Job.WF.step {closed pool_open : Bool} {j j' : Job Report} {a : Action Report}
    (h : j.WF) (hstep : job_step closed pool_open j a j') : j'.WF := by
  match a with
  | .register _ => exact hstep.elim
  | .submit accepted exc => obtain ⟨_, _, rfl⟩ := hstep; exact h.submit accepted exc
  | .cancel caller answer => obtain ⟨hfree, _, _, rfl⟩ := hstep; exact h.cancel closed hfree
  | .start_worker =>
    obtain ⟨hfut, rfl⟩ | ⟨_, rfl⟩ := hstep
    · exact h.move_future (h.not_done hfut rfl) (by simp [hfut]) _ _
    · exact h.with_state _
  | .progress pct => obtain ⟨_, rfl⟩ := hstep; exact h.with_state _
  | .finish_worker outcome =>
    obtain ⟨hfut, rfl⟩ := hstep
    have hback : j.called_back = false := by
      rcases hfut with hfut | ⟨hfut, _⟩ <;> exact h.not_done hfut rfl
    exact h.move_future hback (by rcases hfut with hfut | ⟨hfut, _⟩ <;> simp [hfut]) _ _
  | .cancel_future =>
    obtain ⟨_, hfut, rfl⟩ := hstep
    exact h.move_future (h.not_done hfut rfl) (by simp [hfut]) _ _
  | .on_done refusal =>
    obtain ⟨f, _, hfut, hdone, hback, rfl⟩ := hstep
    exact h.on_done closed refusal hfut hdone hback
  | .save none =>
    obtain ⟨r, owner, hlock, _, rfl⟩ := hstep
    have hs := h.saving_back r hlock
    constructor <;> simp [Job.save, hs, h.called_back_done]
  | .save (some exc) =>
    obtain ⟨r, owner, hlock, _, rfl⟩ := hstep
    exact h.fail_and_settle _ (Or.inr (h.saving_back r hlock).1)
  | .conclude notified => obtain ⟨hlock, rfl⟩ := hstep; exact h.conclude notified hlock
  | .settle _ =>
    obtain ⟨passed, _, rfl⟩ := hstep
    exact ⟨h.called_back_done, h.finished_back, by simp, by simp, h.saved_back⟩
  | .sweep => obtain ⟨_, _, rfl⟩ := hstep; exact h.sweep
  | .prune => obtain ⟨_, rfl⟩ := hstep; exact h
  | .remove _ _ => exact hstep.elim

/-! ### Committed jobs stay committed -/

theorem Job.Committed.step {closed pool_open : Bool} {j j' : Job Report} {a : Action Report}
    (h : j.Committed) (hwf : j.WF) (hstep : job_step closed pool_open j a j') :
    j'.Committed := by
  -- a job whose lock is free can only be committed by its saved flag
  have hsaved : j.lock = .free → j.saved = true := by
    intro hfree
    rcases h with hlock | hsaved
    · simp [hfree] at hlock
    · exact hsaved
  match a with
  | .register _ => exact hstep.elim
  | .submit accepted exc =>
    obtain ⟨hfree, _, rfl⟩ := hstep
    have hs := hsaved hfree
    rcases j.submit_cases accepted exc with heq | ⟨_, _, heq⟩ | ⟨_, _, heq⟩ <;>
      exact Or.inr (by simp [heq, hs, Job.fail_and_settle, Job.fail])
  | .cancel caller answer =>
    obtain ⟨hfree, _, _, rfl⟩ := hstep
    exact Or.inr (by simp [Job.cancel, hsaved hfree])
  | .start_worker => obtain ⟨_, rfl⟩ | ⟨_, rfl⟩ := hstep <;> exact h
  | .progress pct => obtain ⟨_, rfl⟩ := hstep; exact h
  | .finish_worker outcome => obtain ⟨_, rfl⟩ := hstep; exact h
  | .cancel_future => obtain ⟨_, _, rfl⟩ := hstep; exact h
  | .on_done refusal =>
    obtain ⟨f, hfree, _, _, hback, _⟩ := hstep
    have := hwf.saved_back (hsaved hfree)
    simp [hback] at this
  | .save failure =>
    obtain ⟨r, owner, hlock, _⟩ := hstep
    have := (hwf.saving_back r hlock).2.1
    rcases h with hc | hc <;> simp_all
  | .conclude notified => obtain ⟨_, rfl⟩ := hstep; exact Or.inr (by cases notified <;> rfl)
  | .settle _ =>
    obtain ⟨passed, hlock, rfl⟩ := hstep
    rcases h with hc | hc
    · simp [hlock] at hc
    · exact Or.inr hc
  | .sweep =>
    obtain ⟨_, hfree, rfl⟩ := hstep
    have hs := hsaved hfree
    rcases j.sweep_cases with ⟨_, heq⟩ | ⟨_, _, heq⟩ | ⟨_, _, heq⟩ <;>
      exact Or.inr (by simp [heq, hs, Job.fail_and_settle, Job.fail, Job.request_cancel])
  | .prune => obtain ⟨_, rfl⟩ := hstep; exact h
  | .remove _ _ => exact hstep.elim

/-! ### Dead jobs stay dead -/

theorem Job.Dead.close {closed : Bool} {j : Job Report} (h : j.Dead closed) : j.Dead true :=
  ⟨h.not_saving, h.not_committed, h.not_saved, Or.inr (Or.inr (Or.inr rfl))⟩

/-- A job that just failed is dead. -/
theorem Job.dead_fail_and_settle {closed : Bool} {j : Job Report} (m : String)
    (hs : j.saved = false) : (j.fail_and_settle m).Dead closed :=
  ⟨by simp [Job.fail_and_settle], by simp [Job.fail_and_settle], hs, Or.inr (Or.inl rfl)⟩

/-- An unsaved job whose lock is free is dead once a cause is there. -/
theorem Job.dead_of_free {closed : Bool} {j : Job Report} (hfree : j.lock = .free)
    (hs : j.saved = false)
    (cause : j.state.cancel_requested = true ∨ j.finished = true ∨ j.called_back = true ∨
      closed = true) : j.Dead closed :=
  ⟨by simp [hfree], by simp [hfree], hs, cause⟩

/-- Every answer of `cancel` but `saved` leaves the job dead. -/
theorem Job.dead_cancel {closed : Bool} {j : Job Report} (hfree : j.lock = .free)
    (h : (j.cancel closed).1 ≠ .saved) : (j.cancel closed).2.Dead closed := by
  rcases j.cancel_cases closed with ⟨_, heq⟩ | ⟨hs, hfin, heq⟩ | ⟨hs, _, _, heq⟩ |
    ⟨hs, _, _, heq⟩ | ⟨hs, _, _, _, heq⟩ <;> rw [heq] at h ⊢
  · simp at h
  · exact Job.dead_of_free hfree hs (Or.inr (Or.inl hfin))
  · exact Job.dead_of_free hfree hs (Or.inr (Or.inl rfl))
  · exact Job.dead_fail_and_settle _ hs
  · exact Job.dead_of_free hfree hs (Or.inl rfl)

/-- `cancel` finds a run saved only when it is. -/
theorem Job.cancel_saved {closed : Bool} {j : Job Report} (h : (j.cancel closed).1 = .saved) :
    j.saved = true := by
  rcases j.cancel_cases closed with ⟨hs, _⟩ | ⟨_, _, heq⟩ | ⟨_, _, _, heq⟩ |
    ⟨_, _, _, heq⟩ | ⟨_, _, _, _, heq⟩
  · exact hs
  all_goals simp [heq] at h

theorem Job.Dead.step {closed pool_open : Bool} {j j' : Job Report} {a : Action Report}
    (h : j.Dead closed) (hwf : j.WF) (hstep : job_step closed pool_open j a j') :
    j'.Dead closed := by
  match a with
  | .register _ => exact hstep.elim
  | .submit accepted exc =>
    obtain ⟨_, _, rfl⟩ := hstep
    rcases j.submit_cases accepted exc with heq | ⟨_, _, heq⟩ | ⟨_, _, heq⟩ <;> rw [heq]
    · exact h
    · exact ⟨h.not_saving, h.not_committed, h.not_saved, h.cause⟩
    · exact Job.dead_fail_and_settle _ h.not_saved
  | .cancel caller answer =>
    obtain ⟨hfree, _, _, rfl⟩ := hstep
    refine Job.dead_cancel hfree (fun hans => ?_)
    simpa [h.not_saved] using Job.cancel_saved hans
  | .start_worker =>
    obtain ⟨_, rfl⟩ | ⟨_, rfl⟩ := hstep <;>
      exact ⟨h.not_saving, h.not_committed, h.not_saved, h.cause⟩
  | .progress pct =>
    obtain ⟨_, rfl⟩ := hstep
    exact ⟨h.not_saving, h.not_committed, h.not_saved, h.cause⟩
  | .finish_worker outcome =>
    obtain ⟨_, rfl⟩ := hstep
    exact ⟨h.not_saving, h.not_committed, h.not_saved, h.cause⟩
  | .cancel_future =>
    obtain ⟨_, _, rfl⟩ := hstep
    exact ⟨h.not_saving, h.not_committed, h.not_saved, h.cause⟩
  | .on_done refusal =>
    obtain ⟨f, _, hfut, hdone, hback, rfl⟩ := hstep
    rcases j.on_done_cases closed refusal hdone with ⟨m, heq⟩ | ⟨r, owner, hopen, hflag, _⟩ |
      ⟨r, hopen, hflag, _⟩
    · rw [heq]
      exact Job.dead_fail_and_settle m h.not_saved
    all_goals
      -- a job that goes on was neither finished nor stopped: it was not dead
      rcases h.cause with hc | hc | hc | hc
      · simp [hflag] at hc
      · rcases hwf.finished_back hc with hnone | hb
        · simp [hfut] at hnone
        · simp [hback] at hb
      · simp [hback] at hc
      · simp [hopen] at hc
  | .save failure =>
    obtain ⟨r, owner, hlock, _⟩ := hstep
    exact absurd hlock (h.not_saving r)
  | .conclude notified =>
    obtain ⟨hlock, _⟩ := hstep
    exact absurd hlock h.not_committed
  | .settle _ =>
    obtain ⟨passed, _, rfl⟩ := hstep
    exact ⟨by simp, by simp, h.not_saved, h.cause⟩
  | .sweep =>
    obtain ⟨_, hfree, rfl⟩ := hstep
    rcases j.sweep_cases with ⟨_, heq⟩ | ⟨_, _, heq⟩ | ⟨_, _, heq⟩ <;> rw [heq]
    · exact h
    · exact Job.dead_fail_and_settle _ h.not_saved
    · exact Job.dead_of_free hfree h.not_saved (Or.inl rfl)
  | .prune => obtain ⟨_, rfl⟩ := hstep; exact h
  | .remove _ _ => exact hstep.elim

/-! ### What a save needs and does -/

theorem save_step {closed pool_open : Bool} {j j' : Job Report}
    (hstep : job_step closed pool_open j (.save none) j') :
    (∃ r, j.lock = .saving r) ∧ j'.Committed := by
  obtain ⟨r, owner, hlock, _, rfl⟩ := hstep
  exact ⟨⟨r, hlock⟩, Or.inl rfl⟩

theorem Job.Dead.not_committed_job {closed : Bool} {j : Job Report} (h : j.Dead closed) :
    ¬ j.Committed := by
  rintro (hlock | hsaved)
  · exact h.not_committed hlock
  · simp [h.not_saved] at hsaved

/-- A committed or a dead job does not save. -/
theorem no_save_step {closed pool_open : Bool} {j j' : Job Report} {a : Action Report}
    (hwf : j.WF) (h : j.Committed ∨ j.Dead closed) (hstep : job_step closed pool_open j a j') :
    a ≠ .save none := by
  rintro rfl
  obtain ⟨⟨r, hlock⟩, _⟩ := save_step hstep
  rcases h with (hc | hc) | hd
  · simp [hlock] at hc
  · simp [(hwf.saving_back r hlock).2.1] at hc
  · exact hd.not_saving r hlock

/-- Only the callback itself, or a cancel that runs it inline, marks a job as called back. -/
theorem called_back_step {closed pool_open : Bool} {j j' : Job Report} {a : Action Report}
    (hstep : job_step closed pool_open j a j') (hback : j.called_back = false)
    (ha : ∀ refusal, a ≠ .on_done refusal) : j'.called_back = false ∨ j'.Dead closed := by
  match a with
  | .register _ => exact hstep.elim
  | .submit accepted exc =>
    obtain ⟨_, _, rfl⟩ := hstep
    rcases j.submit_cases accepted exc with heq | ⟨_, _, heq⟩ | ⟨_, _, heq⟩ <;>
      exact Or.inl (by simp [heq, hback, Job.fail_and_settle, Job.fail])
  | .cancel caller answer =>
    obtain ⟨hfree, _, _, rfl⟩ := hstep
    -- a cancel that comes too late leaves the job to its report
    by_cases hans : (j.cancel closed).1 = .saved
    · refine Or.inl ?_
      simp [Job.cancel, Job.cancel_saved hans, hback]
    · exact Or.inr (Job.dead_cancel hfree hans)
  | .start_worker => obtain ⟨_, rfl⟩ | ⟨_, rfl⟩ := hstep <;> exact Or.inl hback
  | .progress pct => obtain ⟨_, rfl⟩ := hstep; exact Or.inl hback
  | .finish_worker outcome => obtain ⟨_, rfl⟩ := hstep; exact Or.inl hback
  | .cancel_future => obtain ⟨_, _, rfl⟩ := hstep; exact Or.inl hback
  | .on_done refusal => exact absurd rfl (ha refusal)
  | .save failure =>
    obtain ⟨r, owner, _, _, rfl⟩ := hstep
    exact Or.inl (by cases failure <;> exact hback)
  | .conclude notified =>
    obtain ⟨_, rfl⟩ := hstep
    exact Or.inl (by cases notified <;> exact hback)
  | .settle _ => obtain ⟨passed, _, rfl⟩ := hstep; exact Or.inl hback
  | .sweep =>
    obtain ⟨_, _, rfl⟩ := hstep
    rcases j.sweep_cases with ⟨_, heq⟩ | ⟨_, _, heq⟩ | ⟨_, _, heq⟩ <;>
      exact Or.inl (by simp [heq, hback, Job.fail_and_settle, Job.fail, Job.request_cancel])
  | .prune => obtain ⟨_, rfl⟩ := hstep; exact Or.inl hback
  | .remove _ _ => exact hstep.elim

/-! ### Phases along a run -/

/-- Every registered job is well formed. -/
def AllWF (s : State Report) : Prop := ∀ k j, (s.slots k).job = some j → j.WF

theorem all_wf_step {s s' : State Report} {l : Label Report}
    (hstep : job_manager.step s l s') (h : AllWF s) : AllWF s' := by
  intro k j hj
  rcases step_at hstep k with ⟨heq, _⟩ | ⟨a, _, hslot⟩
  · exact h k j (by rw [← heq]; exact hj)
  · rcases slot_step_cases hslot with ⟨spec, _, _, _, _, hnew, _⟩ | ⟨j₀, j', h₀, hj', hjob, _⟩ |
      ⟨heq, _⟩
    · obtain rfl : j = Job.queued spec := by simpa [hnew] using hj.symm
      exact Job.wf_queued spec
    · obtain rfl : j = j' := by simpa [hj'] using hj.symm
      exact (h k j₀ h₀).step hjob
    · exact h k j (by rw [← heq]; exact hj)

theorem all_wf {ls : List (Label Report)} {s : State Report} (h : job_manager.Trace ls s) :
    AllWF s :=
  System.invariant (P := AllWF) (fun s hinit k j hj => by simp [hinit.2.2 k] at hj)
    (fun _ _ _ h hstep => all_wf_step hstep h) h

/-- A registered job stays registered, and moves by job steps only. -/
theorem registered_step {s s' : State Report} {l : Label Report} {k : JobId} {j : Job Report}
    (hstep : job_manager.step s l s') (hj : (s.slots k).job = some j) :
    (s'.slots k).job = some j ∨
      ∃ a j', l = .job k a ∧ (s'.slots k).job = some j' ∧
        job_step s.closed s.pool_open j a j' := by
  rcases step_at hstep k with ⟨heq, _⟩ | ⟨a, hl, hslot⟩
  · exact Or.inl (by rw [heq]; exact hj)
  · rcases slot_step_cases hslot with ⟨_, _, _, hnone, _⟩ | ⟨j₀, j', h₀, hj', hjob, _⟩ | ⟨heq, _⟩
    · simp [hj] at hnone
    · obtain rfl : j = j₀ := by simpa [hj] using h₀
      exact Or.inr ⟨a, j', hl, hj', hjob⟩
    · exact Or.inl (by rw [heq]; exact hj)

/-- `reports.save` has committed for the run of this slot. -/
def Slot.Committed (x : Slot Report) : Prop := ∃ j, x.job = some j ∧ j.Committed

/-- The run of this slot is registered and will never save a report. -/
def Slot.Dead (closed : Bool) (x : Slot Report) : Prop := ∃ j, x.job = some j ∧ j.Dead closed

theorem committed_persist {s s' : State Report} {l : Label Report} {k : JobId}
    (hstep : job_manager.step s l s') (hwf : AllWF s) (h : (s.slots k).Committed) :
    (s'.slots k).Committed := by
  obtain ⟨j, hj, hc⟩ := h
  rcases registered_step hstep hj with hsame | ⟨_, j', _, hj', hjob⟩
  · exact ⟨j, hsame, hc⟩
  · exact ⟨j', hj', hc.step (hwf k j hj) hjob⟩

/-- Closing the manager only adds a cause. -/
theorem dead_closed_step {s s' : State Report} {l : Label Report} {j : Job Report}
    (hstep : job_manager.step s l s') (h : j.Dead s.closed) : j.Dead s'.closed := by
  cases hc : s.closed with
  | true => rw [closed_persist hstep hc]; rwa [hc] at h
  | false =>
    cases hc' : s'.closed with
    | true => exact h.close
    | false => rwa [hc] at h

theorem dead_persist {s s' : State Report} {l : Label Report} {k : JobId}
    (hstep : job_manager.step s l s') (hwf : AllWF s) (h : (s.slots k).Dead s.closed) :
    (s'.slots k).Dead s'.closed := by
  obtain ⟨j, hj, hd⟩ := h
  rcases registered_step hstep hj with hsame | ⟨_, j', _, hj', hjob⟩
  · exact ⟨j, hsame, dead_closed_step hstep hd⟩
  · exact ⟨j', hj', dead_closed_step hstep (hd.step (hwf k j hj) hjob)⟩

/-! ### Counting saves -/

/-- A committed `reports.save` of the run `k`. -/
def Label.saves_report (k : JobId) : Label Report → Bool
  | .job id (.save none) => decide (id = k)
  | _ => false

/-- How often a report was saved for the run `k`. -/
def saves (k : JobId) (ls : List (Label Report)) : Nat := ls.countP (Label.saves_report k)

theorem saves_snoc (k : JobId) (ls : List (Label Report)) (l : Label Report) :
    saves k (ls ++ [l]) = saves k ls + if l.saves_report k then 1 else 0 := by
  simp [saves, List.countP_append, List.countP_cons]

theorem saves_report_iff {k : JobId} {l : Label Report} :
    l.saves_report k = true ↔ l = .job k (.save none) := by
  constructor
  · intro h
    match l with
    | .job id (.save none) =>
      obtain rfl : id = k := by simpa [Label.saves_report] using h
      rfl
  · rintro rfl
    simp [Label.saves_report]

theorem save_label {s s' : State Report} {k : JobId}
    (hstep : job_manager.step s (.job k (.save none)) s') (hwf : AllWF s) :
    ¬ (s.slots k).Committed ∧ (s'.slots k).Committed := by
  obtain ⟨_, x', ⟨j, j', hj, hjob, _, rfl⟩, rfl⟩ := hstep
  constructor
  · rintro ⟨j₀, h₀, hc⟩
    obtain rfl : j = j₀ := by simpa [hj] using h₀
    exact no_save_step (hwf k j hj) (Or.inl hc) hjob rfl
  · exact ⟨j', by simp, (save_step hjob).2⟩

/-- A run's report is saved once, and then the run is committed. -/
theorem saves_committed {ls : List (Label Report)} {s : State Report}
    (h : job_manager.Trace ls s) (k : JobId) :
    saves k ls = 0 ∨ saves k ls = 1 ∧ (s.slots k).Committed := by
  have hinv : AllWF s ∧ (saves k ls = 0 ∨ saves k ls = 1 ∧ (s.slots k).Committed) := by
    refine System.trace_invariant (P := fun ls s => AllWF s ∧
      (saves k ls = 0 ∨ saves k ls = 1 ∧ (s.slots k).Committed)) ?_ ?_ h
    · rintro s ⟨_, _, hnone⟩
      exact ⟨fun k j hj => by simp [hnone k] at hj, Or.inl rfl⟩
    · rintro ls s l t ⟨hwf, hcount⟩ hstep
      refine ⟨all_wf_step hstep hwf, ?_⟩
      rw [saves_snoc]
      by_cases hl : l.saves_report k = true
      · obtain rfl := saves_report_iff.mp hl
        obtain ⟨hnot, hnow⟩ := save_label hstep hwf
        rcases hcount with hzero | ⟨_, hc⟩
        · exact Or.inr ⟨by simp [hl, hzero], hnow⟩
        · exact absurd hc hnot
      · rcases hcount with hzero | ⟨hone, hc⟩
        · exact Or.inl (by simp [hl, hzero])
        · exact Or.inr ⟨by simp [hl, hone], committed_persist hstep hwf hc⟩
  exact hinv.2

/-- A run that ends dead has saved nothing. -/
theorem dead_no_save {ls : List (Label Report)} {s : State Report}
    (h : job_manager.Trace ls s) {k : JobId} (hd : (s.slots k).Dead s.closed) :
    saves k ls = 0 := by
  rcases saves_committed h k with hzero | ⟨_, j, hj, hc⟩
  · exact hzero
  · obtain ⟨j', hj', hd⟩ := hd
    obtain rfl : j = j' := by simpa [hj] using hj'
    exact absurd hc hd.not_committed_job

/-- Dead at some state of a run, dead at its end. -/
theorem dead_run {s t : State Report} {ls : List (Label Report)} {k : JobId}
    (hrun : job_manager.Run s ls t) (hwf : AllWF s) (hd : (s.slots k).Dead s.closed) :
    (t.slots k).Dead t.closed := by
  have hboth : AllWF t ∧ (t.slots k).Dead t.closed := by
    refine System.Run.preserves (P := fun s => AllWF s ∧ (s.slots k).Dead s.closed) ?_ ⟨hwf, hd⟩ hrun
    rintro s l t hstep ⟨hwf, hd⟩
    exact ⟨all_wf_step hstep hwf, dead_persist hstep hwf hd⟩
  exact hboth.2

/-! ### What the labels tell about the phase -/

/-- After `cancel` answered that it requested a cancellation, or that the
    run is deleted, the run is dead. -/
theorem dead_of_cancel {s s' : State Report} {k : JobId} {caller : Option Owner}
    {answer : CancelAnswer} (hstep : job_manager.step s (.job k (.cancel caller answer)) s')
    (hans : answer = .cancel_requested ∨ answer = .deleted) :
    (s'.slots k).Dead s'.closed := by
  obtain ⟨_, x', hslot, rfl⟩ := hstep
  have hcancel : ∀ j j' : Job Report, job_step s.closed s.pool_open j (.cancel caller answer) j' →
      j'.Dead s.closed := by
    rintro j j' ⟨hfree, _, hj, rfl⟩
    exact Job.dead_cancel hfree (by rw [← hj]; rcases hans with rfl | rfl <;> simp)
  rcases hans with rfl | rfl
  all_goals
    obtain ⟨j, j', _, hjob, _, rfl⟩ := hslot
    exact ⟨j', by simp, hcancel j j' hjob⟩

/-- A run whose callback has not taken the lock has nothing to save. -/
theorem uncalled {ls : List (Label Report)} {s : State Report} (h : job_manager.Trace ls s)
    {k : JobId} (hls : ∀ refusal, Label.job k (.on_done refusal) ∉ ls) :
    ∀ j, (s.slots k).job = some j → j.called_back = false ∨ j.Dead s.closed := by
  have hinv : AllWF s ∧ ((∀ refusal, Label.job k (.on_done refusal) ∉ ls) →
      ∀ j, (s.slots k).job = some j → j.called_back = false ∨ j.Dead s.closed) := by
    refine System.trace_invariant (P := fun ls s => AllWF s ∧
      ((∀ refusal, Label.job k (.on_done refusal) ∉ ls) →
        ∀ j, (s.slots k).job = some j → j.called_back = false ∨ j.Dead s.closed)) ?_ ?_ h
    · rintro s ⟨_, _, hnone⟩
      exact ⟨fun k j hj => by simp [hnone k] at hj, fun _ j hj => by simp [hnone k] at hj⟩
    · rintro ls s l t ⟨hwf, ih⟩ hstep
      refine ⟨all_wf_step hstep hwf, fun hls j hj => ?_⟩
      have hls₁ : ∀ refusal, Label.job k (.on_done refusal) ∉ ls := fun refusal hmem =>
        hls refusal (List.mem_append_left _ hmem)
      have hl : ∀ refusal, l ≠ Label.job k (.on_done refusal) := fun refusal heq =>
        hls refusal (by simp [heq])
      -- a step elsewhere, or one of this job's own
      rcases step_at hstep k with ⟨heq, _⟩ | ⟨a, rfl, hslot⟩
      · rcases ih hls₁ j (by rw [← heq]; exact hj) with hb | hd
        · exact Or.inl hb
        · exact Or.inr (dead_closed_step hstep hd)
      · rcases slot_step_cases hslot with ⟨spec, _, _, _, _, hnew, _⟩ |
          ⟨j₀, j', h₀, hj', hjob, _⟩ | ⟨heq, _⟩
        · obtain rfl : j = Job.queued spec := by simpa [hnew] using hj.symm
          exact Or.inl rfl
        · obtain rfl : j = j' := by simpa [hj'] using hj.symm
          rcases ih hls₁ j₀ h₀ with hb | hd
          · rcases called_back_step hjob hb (fun refusal ha => hl refusal (by rw [ha])) with hb | hd
            · exact Or.inl hb
            · exact Or.inr (dead_closed_step hstep hd)
          · exact Or.inr (dead_closed_step hstep (hd.step (hwf k j₀ h₀) hjob))
        · rcases ih hls₁ j (by rw [← heq]; exact hj) with hb | hd
          · exact Or.inl hb
          · exact Or.inr (dead_closed_step hstep hd)
  exact hinv.2 hls

/-- The manager is closed and a registered run of this slot is dead: a run
    that is not registered yet never will be. -/
def Barred (k : JobId) (s : State Report) : Prop :=
  s.closed = true ∧ ∀ j, (s.slots k).job = some j → j.Dead true

theorem barred_step {s s' : State Report} {l : Label Report} {k : JobId}
    (hstep : job_manager.step s l s') (hwf : AllWF s) (h : Barred k s) : Barred k s' := by
  obtain ⟨hclosed, hd⟩ := h
  refine ⟨closed_persist hstep hclosed, fun j hj => ?_⟩
  rcases step_at hstep k with ⟨heq, _⟩ | ⟨a, _, hslot⟩
  · exact hd j (by rw [← heq]; exact hj)
  · rcases slot_step_cases hslot with ⟨_, _, hopen, _⟩ | ⟨j₀, j', h₀, hj', hjob, _⟩ | ⟨heq, _⟩
    · simp [hclosed] at hopen
    · obtain rfl : j = j' := by simpa [hj'] using hj.symm
      have hd₀ : j₀.Dead s.closed := by rw [hclosed]; exact hd j₀ h₀
      have hd' := hd₀.step (hwf k j₀ h₀) hjob
      rwa [hclosed] at hd'
    · exact hd j (by rw [← heq]; exact hj)

theorem barred_of_close {ls : List (Label Report)} {s t : State Report}
    (h : job_manager.Trace ls s) {k : JobId}
    (hls : ∀ refusal, Label.job k (.on_done refusal) ∉ ls) (hstep : job_manager.step s .close t) :
    Barred k t := by
  subst hstep
  refine ⟨rfl, fun j hj => ?_⟩
  rcases uncalled h hls j hj with hb | hd
  · obtain ⟨h₁, h₂, h₃⟩ := (all_wf h k j hj).idle_lock hb
    exact ⟨h₁, h₂, h₃, Or.inr (Or.inr (Or.inr rfl))⟩
  · exact hd.close

/-! ### Saved reports -/

/-- Until its save commits, no report is stored under the id of a registered run. -/
def Unreported (k : JobId) (s : State Report) : Prop :=
  ∀ j, (s.slots k).job = some j → ¬ j.Committed → (s.slots k).report = none

theorem report_after_ne {report owner : Option Owner} {a : Action Report}
    (ha : a ≠ .save none) : report_after report owner a = report := by
  match a with
  | .save none => exact absurd rfl ha
  | .save (some _) | .register _ | .submit _ _ | .cancel _ _ | .start_worker | .progress _
  | .finish_worker _ | .cancel_future | .on_done _ | .conclude _ | .settle _ | .sweep | .prune
  | .remove _ _ => rfl

theorem unreported_step {s s' : State Report} {l : Label Report} {k : JobId}
    (hstep : job_manager.step s l s') (hwf : AllWF s) (h : Unreported k s) :
    Unreported k s' := by
  intro j hj hnot
  rcases step_at hstep k with ⟨heq, _⟩ | ⟨a, _, hslot⟩
  · rw [heq] at hj ⊢
    exact h j hj hnot
  · rcases slot_step_cases hslot with ⟨_, _, _, _, _, _, hrep⟩ |
      ⟨j₀, j', h₀, hj', hjob, _, hrep⟩ | ⟨heq, _, _, hkeep, hgone⟩
    · exact hrep
    · obtain rfl : j = j' := by simpa [hj'] using hj.symm
      have hnot₀ : ¬ j₀.Committed := fun hc => hnot (hc.step (hwf k j₀ h₀) hjob)
      have ha : a ≠ .save none := by
        rintro rfl
        exact hnot (save_step hjob).2
      rw [hrep, report_after_ne ha]
      exact h j₀ h₀ hnot₀
    · rw [heq] at hj
      rcases report_idle hkeep hgone with hrep | hrep
      · rw [hrep]; exact h j hj hnot
      · exact hrep

theorem unreported {ls : List (Label Report)} {s : State Report}
    (h : job_manager.Trace ls s) (k : JobId) : Unreported k s := by
  have hinv : AllWF s ∧ Unreported k s := by
    refine System.invariant (P := fun s => AllWF s ∧ Unreported k s) ?_ ?_ h
    · rintro s ⟨_, _, hnone⟩
      exact ⟨fun k j hj => by simp [hnone k] at hj, fun j hj => by simp [hnone k] at hj⟩
    · rintro s l t ⟨hwf, hrep⟩ hstep
      exact ⟨all_wf_step hstep hwf, unreported_step hstep hwf hrep⟩
  exact hinv.2

/-- The run is over as far as its report is concerned, and no report is stored. -/
def Gone (k : JobId) (s : State Report) : Prop :=
  (s.slots k).report = none ∧
    ∃ j, (s.slots k).job = some j ∧ (j.Committed ∨ j.Dead s.closed)

theorem gone_step {s s' : State Report} {l : Label Report} {k : JobId}
    (hstep : job_manager.step s l s') (hwf : AllWF s) (h : Gone k s) : Gone k s' := by
  obtain ⟨hnone, j, hj, hphase⟩ := h
  rcases step_at hstep k with ⟨heq, _⟩ | ⟨a, _, hslot⟩
  · exact ⟨by rw [heq]; exact hnone, j, by rw [heq]; exact hj,
      hphase.imp_right (dead_closed_step hstep)⟩
  · rcases slot_step_cases hslot with ⟨_, _, _, hfresh, _⟩ |
      ⟨j₀, j', h₀, hj', hjob, _, hrep⟩ | ⟨heq, _, _, hkeep, hgone⟩
    · simp [hj] at hfresh
    · obtain rfl : j = j₀ := by simpa [hj] using h₀
      have ha := no_save_step (hwf k j hj) hphase hjob
      refine ⟨by rw [hrep, report_after_ne ha]; exact hnone, j', hj', ?_⟩
      rcases hphase with hc | hd
      · exact Or.inl (hc.step (hwf k j hj) hjob)
      · exact Or.inr (dead_closed_step hstep (hd.step (hwf k j hj) hjob))
    · refine ⟨?_, j, by rw [heq]; exact hj, hphase.imp_right (dead_closed_step hstep)⟩
      rcases report_idle hkeep hgone with hrep | hrep
      · rw [hrep]; exact hnone
      · exact hrep

/-- The two ways a DELETE ends well: `cancel` answers, or the row goes. -/
theorem delete_outcome_cases {a : Action Report}
    (h : a.delete_outcome = some .deleted ∨ a.delete_outcome = some .cancel_requested) :
    (∃ caller answer, a = .cancel caller answer ∧
      (answer = .cancel_requested ∨ answer = .deleted)) ∨
    (∃ caller, a = .remove caller true) := by
  cases a with
  | cancel caller answer => cases answer <;> simp_all [Action.delete_outcome]
  | remove caller removed => cases removed <;> simp_all [Action.delete_outcome]
  | _ => simp [Action.delete_outcome] at h

/-- A DELETE of a registered run that answers `deleted` or
    `cancel_requested` leaves no report behind. -/
theorem gone_of_delete {ls : List (Label Report)} {s t : State Report}
    (h : job_manager.Trace ls s) {k : JobId} {a : Action Report}
    (hstep : job_manager.step s (.job k a) t) (hreg : (s.slots k).job ≠ none)
    (hans : a.delete_outcome = some .deleted ∨ a.delete_outcome = some .cancel_requested) :
    Gone k t := by
  rcases delete_outcome_cases hans with ⟨caller, answer, rfl, hgone⟩ | ⟨caller, rfl⟩
  · obtain ⟨j, hj, hd⟩ := dead_of_cancel hstep hgone
    have hunrep := unreported (h.trans (System.Run.single hstep)) k
    exact ⟨hunrep j hj hd.not_committed_job, j, hj, Or.inr hd⟩
  · obtain ⟨_, x', ⟨hrem, rfl⟩, rfl⟩ := hstep
    obtain ⟨j, hj⟩ := Option.ne_none_iff_exists'.mp hreg
    have hrep : (s.slots k).report = some caller := by simpa using hrem
    have hc : j.Committed := by
      by_contra hnot
      simp [unreported h k j hj hnot] at hrep
    exact ⟨by simp, j, by simpa using hj, Or.inl hc⟩

theorem gone_run {s t : State Report} {ls : List (Label Report)} {k : JobId}
    (hrun : job_manager.Run s ls t) (hwf : AllWF s) (h : Gone k s) : Gone k t := by
  have hboth : AllWF t ∧ Gone k t := by
    refine System.Run.preserves (P := fun s => AllWF s ∧ Gone k s) ?_ ⟨hwf, h⟩ hrun
    rintro s l t hstep ⟨hwf, hg⟩
    exact ⟨all_wf_step hstep hwf, gone_step hstep hwf hg⟩
  exact hboth.2

/-- The `register` label leaves a job behind, for good. -/
theorem registered_of_label {ls : List (Label Report)} {s : State Report}
    (h : job_manager.Trace ls s) {k : JobId} {spec : RunSpec}
    (hmem : Label.job k (.register spec) ∈ ls) : (s.slots k).job ≠ none := by
  refine System.trace_invariant (P := fun ls s =>
    Label.job k (.register spec) ∈ ls → (s.slots k).job ≠ none) ?_ ?_ h hmem
  · simp
  · rintro ls s l t ih hstep hmem
    rcases List.mem_append.mp hmem with hold | hnew
    · obtain ⟨j, hj⟩ := Option.ne_none_iff_exists'.mp (ih hold)
      rcases registered_step hstep hj with hsame | ⟨_, j', _, hj', _⟩
      · simp [hsame]
      · simp [hj']
    · obtain rfl := List.mem_singleton.mp hnew
      obtain ⟨_, x', ⟨_, _, _, _, _, rfl⟩, rfl⟩ := hstep
      simp

/-! ### Cancel excludes save -/

/-- **Cancel excludes save.** Along every run of the manager, for every job:
    its report is saved at most once; it is not saved at all when some
    `cancel` answered `cancel_requested`, or when the manager was closed
    before the callback took the lock; and after a DELETE of the job answered
    `deleted` or `cancel_requested` no report is stored under its id. -/
theorem cancel_excludes_save {ls : List (Label Report)} {s : State Report}
    (h : job_manager.Trace ls s) (k : JobId) :
    saves k ls ≤ 1 ∧
    (∀ caller, Label.job k (.cancel caller .cancel_requested) ∈ ls → saves k ls = 0) ∧
    (∀ ls₁ ls₂, ls = ls₁ ++ .close :: ls₂ →
      (∀ refusal, Label.job k (.on_done refusal) ∉ ls₁) → saves k ls = 0) ∧
    (∀ ls₁ ls₂ a, ls = ls₁ ++ .job k a :: ls₂ →
      (∃ spec, Label.job k (.register spec) ∈ ls₁) →
      a.delete_outcome = some .deleted ∨ a.delete_outcome = some .cancel_requested →
      (s.slots k).report = none) := by
  refine ⟨?_, ?_, ?_, ?_⟩
  · rcases saves_committed h k with hzero | ⟨hone, _⟩ <;> omega
  · intro caller hmem
    obtain ⟨ls₁, ls₂, rfl⟩ := List.append_of_mem hmem
    obtain ⟨t, htrace, hrun⟩ := h.split
    obtain ⟨u, hstep, hrun⟩ := hrun.cons_inv
    have hwf := all_wf (htrace.trans (System.Run.single hstep))
    exact dead_no_save h (dead_run hrun hwf (dead_of_cancel hstep (Or.inl rfl)))
  · rintro ls₁ ls₂ rfl hls
    obtain ⟨t, htrace, hrun⟩ := h.split
    obtain ⟨u, hstep, hrun⟩ := hrun.cons_inv
    have hwf := all_wf (htrace.trans (System.Run.single hstep))
    have hend : AllWF s ∧ Barred k s := by
      refine System.Run.preserves (P := fun s => AllWF s ∧ Barred k s) ?_
        ⟨hwf, barred_of_close htrace hls hstep⟩ hrun
      rintro s l t hstep ⟨hwf, hb⟩
      exact ⟨all_wf_step hstep hwf, barred_step hstep hwf hb⟩
    obtain ⟨_, hclosed, hd⟩ := hend
    -- what was barred at the close has never committed
    rcases saves_committed h k with hzero | ⟨_, j, hj, hc⟩
    · exact hzero
    · exact absurd hc (hd j hj).not_committed_job
  · rintro ls₁ ls₂ a rfl ⟨spec, hmem⟩ hans
    obtain ⟨t, htrace, hrun⟩ := h.split
    obtain ⟨u, hstep, hrun⟩ := hrun.cons_inv
    have hwf := all_wf (htrace.trans (System.Run.single hstep))
    exact (gone_run hrun hwf
      (gone_of_delete htrace hstep (registered_of_label htrace hmem) hans)).1

/-- A user's run, cancelled while its worker is busy: the worker still
    delivers a report. -/
def cancelled_run : List (Label Unit) :=
  [.job 7 (.register { id := 7, owner_id := some 1, strategy_key := "momentum", purpose := .user }),
   .job 7 (.submit true ""), .job 7 .start_worker,
   .job 7 (.cancel (some 1) .cancel_requested), .job 7 (.finish_worker (.report ())),
   .job 7 (.on_done none), .job 7 (.settle true)]

theorem cancelled_run_trace : ∃ s, job_manager.Trace cancelled_run s := by
  let s₀ : State Unit :=
    { closed := false, pool_open := true, strategies := fun _ => none
      slots := fun _ => { job := none, listed := false, report := none } }
  have hrun : ∃ s, job_manager.Run s₀ cancelled_run s ∧ s.closed = false := by
    refine System.Run.exists_cons ⟨⟨rfl, by simp⟩, _, ⟨rfl, rfl, by simp, rfl, rfl, rfl⟩, rfl⟩ ?_
    refine System.Run.exists_cons
      ⟨trivial, _, ⟨_, _, rfl, ⟨rfl, fun _ => rfl, rfl⟩, nofun, rfl⟩, rfl⟩ ?_
    refine System.Run.exists_cons ⟨trivial, _, ⟨_, _, rfl, Or.inl ⟨rfl, rfl⟩, nofun, rfl⟩, rfl⟩ ?_
    refine System.Run.exists_cons
      ⟨trivial, _, ⟨_, _, rfl, ⟨rfl, rfl, rfl, rfl⟩, nofun, rfl⟩, rfl⟩ ?_
    refine System.Run.exists_cons
      ⟨trivial, _, ⟨_, _, rfl, ⟨Or.inl rfl, rfl⟩, nofun, rfl⟩, rfl⟩ ?_
    refine System.Run.exists_cons
      ⟨trivial, _, ⟨_, _, rfl, ⟨_, rfl, rfl, rfl, rfl, rfl⟩, nofun, rfl⟩, rfl⟩ ?_
    refine System.Run.exists_cons ⟨trivial, _, ⟨_, _, rfl, ⟨_, rfl, rfl⟩, nofun, rfl⟩, rfl⟩ ?_
    exact System.Run.exists_refl rfl
  obtain ⟨s, hrun, _⟩ := hrun
  exact ⟨s, s₀, ⟨rfl, rfl, fun _ => rfl⟩, hrun⟩

theorem cancelled_run_unsaved : ∃ s, job_manager.Trace cancelled_run s ∧
    saves 7 cancelled_run = 0 ∧ (s.slots 7).report = none := by
  obtain ⟨s, h⟩ := cancelled_run_trace
  obtain ⟨_, hcancel, _, hdelete⟩ := cancel_excludes_save h 7
  refine ⟨s, h, hcancel (some 1) (by simp [cancelled_run]), ?_⟩
  exact hdelete (cancelled_run.take 3) (cancelled_run.drop 4) _ rfl
    ⟨_, List.mem_cons_self⟩ (Or.inr rfl)

end Jobs
