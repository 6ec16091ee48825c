import BacktestVisualizer.Jobs.Settlement

/-! # Polling a Run

  `get_backtest` of `src/services/backtests.py`: a poll asks the job manager
  and, when that has no answer, reads the saved reports. In between the
  completion callback may move the run from the one to the other.

  The callback commits the report before it sets the saved flag, under the
  lock that the manager's answer needs. So the manager only stays silent
  about a run whose report can already be read.
-/

open LTS

namespace Jobs

variable {Report : Type}

/-! ### What a poll reads -/

/-- The status a detail shows. `build_report` only makes completed reports. -/
def Detail.status : Detail Report → Status
  | .empty status _ _ => status
  | .report _ => .completed

/-- The detail `get_backtest` returns. -/
inductive Seen (Report : Type) where
  | live (detail : Detail Report)
  | stored
  deriving DecidableEq, Repr

/-- `reports.to_detail` shows a stored report as completed. -/
def Seen.status : Seen Report → Status
  | .live detail => detail.status
  | .stored => .completed

def Status.terminal : Status → Bool
  | .failed => true
  | .completed => true
  | _ => false

/-- The locked part of `get_detail`. -/
def Job.get_detail (j : Job Report) : Option (Detail Report) :=
  if j.saved then none
  else
    match j.detail with
    | some detail => some detail
    | none => some (.empty j.state.status j.state.progress_pct j.state.error_message)

/-- `get_detail`: a job found under the caller's name answers once its lock is
    free, also when it is dropped while the caller waits. -/
def ask (x : Slot Report) (caller : Option Owner) (answer : Option (Detail Report)) : Prop :=
  (∃ j, x.job = some j ∧ j.spec.owner_id = caller ∧ j.lock = .free ∧ answer = j.get_detail) ∨
  ((x.listed = false ∨ ∀ j, x.job = some j → j.spec.owner_id ≠ caller) ∧ answer = none)

/-- The database half of `get_backtest`. -/
def Slot.read_report (x : Slot Report) (caller : Option Owner) : Option (Seen Report) :=
  if caller ≠ none ∧ x.report = caller then some .stored else none

/-! ### Polls in flight -/

abbrev PollId := Nat

/-- A call of `get_backtest`. -/
inductive Poll (Report : Type) where
  | idle
  | called (id : JobId) (caller : Option Owner)
  /-- The manager had no answer. -/
  | missed (id : JobId) (caller : Option Owner)
  | returned (id : JobId) (caller : Option Owner) (answer : Option (Seen Report))
  deriving DecidableEq, Repr

/-- The call has not read anything yet. -/
def Poll.unread : Poll Report → Bool
  | .idle => true
  | .called _ _ => true
  | _ => false

inductive PollAction where
  | call (id : JobId) (caller : Option Owner)
  | ask
  | read
  deriving DecidableEq, Repr

/-- A call after the manager's answer. -/
def Poll.asked (id : JobId) (caller : Option Owner) : Option (Detail Report) → Poll Report
  | some detail => .returned id caller (some (.live detail))
  | none => .missed id caller

/-- One action of one call. -/
def poll_step (m : State Report) (x : Poll Report) (a : PollAction) (x' : Poll Report) : Prop :=
  match a with
  | .call id caller => x = .idle ∧ x' = .called id caller
  | .ask => ∃ id caller answer, x = .called id caller ∧ ask (m.slots id) caller answer ∧
      x' = .asked id caller answer
  | .read => ∃ id caller, x = .missed id caller ∧
      x' = .returned id caller ((m.slots id).read_report caller)

/-- The manager and every call of `get_backtest`. -/
structure Polled (Report : Type) where
  manager : State Report
  polls : PollId → Poll Report

inductive PolledLabel (Report : Type) where
  | manager (l : Label Report)
  | poll (p : PollId) (a : PollAction)
  deriving DecidableEq, Repr

/-- Functional update of one call. -/
def set_poll (f : PollId → Poll Report) (p : PollId) (x : Poll Report) : PollId → Poll Report :=
  fun q => if q = p then x else f q

@[simp] theorem set_poll_self (f : PollId → Poll Report) (p : PollId) (x : Poll Report) :
    set_poll f p x p = x := by
  simp [set_poll]

@[simp] theorem set_poll_ne (f : PollId → Poll Report) {p q : PollId} (x : Poll Report)
    (h : q ≠ p) : set_poll f p x q = f q := by
  simp [set_poll, h]

/-- The manager with the calls that read it. -/
def polled : System (Polled Report) (PolledLabel Report) where
  init := fun s => job_manager.init s.manager ∧ ∀ p, s.polls p = .idle
  step := fun s l s' =>
    match l with
    | .manager l => ∃ m', job_manager.step s.manager l m' ∧ s' = { s with manager := m' }
    | .poll p a => ∃ x', poll_step s.manager (s.polls p) a x' ∧
        s' = { s with polls := set_poll s.polls p x' }

/-- The run leaves the manager or the database: it is deleted, or expires. -/
def Action.drops : Action Report → Bool
  | .cancel _ .deleted => true
  | .prune => true
  | .remove _ true => true
  | _ => false

/-- Neither a restart nor the loss of the run `k`. -/
def keeps_run (k : JobId) (_ : State Report) : Label Report → Prop
  | .close => False
  | .job id a => id = k → a.drops = false
  | .stop_pool => True

def keeps (k : JobId) (s : Polled Report) : PolledLabel Report → Prop
  | .manager l => keeps_run k s.manager l
  | .poll _ _ => True

/-! ### The manager's answers -/

theorem Job.get_detail_saved {j : Job Report} : j.get_detail = none ↔ j.saved = true := by
  unfold Job.get_detail
  by_cases hs : j.saved = true
  · simp [hs]
  · rw [if_neg hs]
    cases j.detail with
    | none => simp [hs]
    | some detail => simp [hs]

/-- What a job tells before and after it is over. -/
structure Job.Told (j : Job Report) : Prop where
  detail_finished : j.detail ≠ none → j.finished = true
  open_status : j.detail = none → j.saved = false →
    j.state.status = .queued ∨ j.state.status = .running
  saving_owner : ∀ r, j.lock = .saving r → j.spec.owner_id ≠ none

theorem Job.told_queued (spec : RunSpec) : (Job.queued spec : Job Report).Told :=
  ⟨fun h => absurd rfl h, fun _ _ => Or.inl rfl, nofun⟩

theorem Job.told_fail {j : Job Report} (hfree : j.lock = .free) (m : String) : (j.fail m).Told :=
  ⟨fun _ => rfl, nofun, fun _ hr => absurd (hfree.symm.trans hr) nofun⟩

theorem Job.told_fail_and_settle (j : Job Report) (m : String) : (j.fail_and_settle m).Told :=
  ⟨fun _ => rfl, nofun, nofun⟩

theorem Job.Told.step {closed pool_open : Bool} {j j' : Job Report} {a : Action Report}
    (h : j.Told) (hstep : job_step closed pool_open j a j') : j'.Told := by
  match a with
  | .register _ => exact hstep.elim
  | .submit accepted exc =>
    obtain ⟨_, _, rfl⟩ := hstep
    rcases j.submit_cases accepted exc with heq | ⟨_, _, heq⟩ | ⟨_, _, heq⟩ <;> rw [heq]
    · exact h
    · exact ⟨h.detail_finished, h.open_status, h.saving_owner⟩
    · exact Job.told_fail_and_settle _ _
  | .cancel caller answer =>
    obtain ⟨hfree, _, _, rfl⟩ := hstep
    rcases j.cancel_cases closed with ⟨_, heq⟩ | ⟨_, _, heq⟩ | ⟨_, _, _, heq⟩ |
      ⟨_, _, _, heq⟩ | ⟨_, _, _, _, heq⟩ <;> rw [heq]
    · exact h
    · exact h
    · exact Job.told_fail (j := j.request_cancel) hfree _
    · exact Job.told_fail_and_settle _ _
    · exact ⟨h.detail_finished, h.open_status, h.saving_owner⟩
  | .start_worker =>
    obtain ⟨_, rfl⟩ | ⟨_, rfl⟩ := hstep <;>
      exact ⟨h.detail_finished, fun _ _ => Or.inr rfl, h.saving_owner⟩
  | .progress pct =>
    obtain ⟨_, rfl⟩ := hstep
    exact ⟨h.detail_finished, h.open_status, h.saving_owner⟩
  | .finish_worker outcome =>
    obtain ⟨_, rfl⟩ := hstep
    exact ⟨h.detail_finished, h.open_status, h.saving_owner⟩
  | .cancel_future =>
    obtain ⟨_, _, rfl⟩ := hstep
    exact ⟨h.detail_finished, h.open_status, h.saving_owner⟩
  | .on_done refusal =>
    obtain ⟨f, _, _, hdone, _, rfl⟩ := hstep
    rcases j.on_done_cases closed refusal hdone with ⟨m, heq⟩ | ⟨r, owner, _, _, _, howner, heq⟩ |
      ⟨r, _, _, _, _, heq⟩ <;> rw [heq]
    · exact Job.told_fail_and_settle _ _
    · exact ⟨h.detail_finished, h.open_status, fun _ _ => by simp [howner]⟩
    · exact ⟨fun _ => rfl, nofun, nofun⟩
  | .save failure =>
    obtain ⟨r, owner, _, _, rfl⟩ := hstep
    cases failure with
    | none => exact ⟨h.detail_finished, h.open_status, nofun⟩
    | some exc => exact Job.told_fail_and_settle _ _
  | .conclude notified =>
    obtain ⟨_, rfl⟩ := hstep
    cases notified with
    | true => exact ⟨fun _ => rfl, fun _ => nofun, nofun⟩
    | false => exact ⟨h.detail_finished, fun _ => nofun, nofun⟩
  | .settle _ =>
    obtain ⟨passed, _, rfl⟩ := hstep
    exact ⟨h.detail_finished, h.open_status, nofun⟩
  | .sweep =>
    obtain ⟨_, _, rfl⟩ := hstep
    rcases j.sweep_cases with ⟨_, heq⟩ | ⟨_, _, heq⟩ | ⟨_, _, heq⟩ <;> rw [heq]
    · exact h
    · exact Job.told_fail_and_settle _ _
    · exact ⟨h.detail_finished, h.open_status, h.saving_owner⟩
  | .prune => obtain ⟨_, rfl⟩ := hstep; exact h
  | .remove _ _ => exact hstep.elim

/-! ### Runs that are over -/

/-- The run is over and shows this status: in its detail, or in the report. -/
def Job.Settled (j : Job Report) (status : Status) : Prop :=
  (j.saved = false ∧ j.finished = true ∧ ∃ d, j.detail = some d ∧ d.status = status) ∨
  (j.Committed ∧ status = .completed)

/-- A status once shown stays. -/
theorem Job.Settled.step {closed pool_open : Bool} {j j' : Job Report} {a : Action Report}
    {status : Status} (h : j.Settled status) (hwf : j.WF)
    (hstep : job_step closed pool_open j a j') : j'.Settled status := by
  rcases h with ⟨hs, hfin, hdetail⟩ | ⟨hc, hstatus⟩
  · -- a late write of a worker does not reach the detail
    rcases finished_step hwf hfin hstep with rfl | ⟨_, rfl⟩ | ⟨_, _, st, rfl⟩
    · exact Or.inl ⟨hs, hfin, hdetail⟩
    · exact Or.inl ⟨hs, hfin, hdetail⟩
    · exact Or.inl ⟨hs, hfin, hdetail⟩
  · exact Or.inr ⟨hc.step hwf hstep, hstatus⟩

/-- A terminal answer comes from a run that is over. -/
theorem Job.settled_of_detail {j : Job Report} (h : j.Told) {d : Detail Report}
    (hd : j.get_detail = some d) (hterminal : d.status.terminal = true) : j.Settled d.status := by
  have hs : j.saved = false := by
    by_contra hs
    rw [Job.get_detail_saved.mpr (by simpa using hs)] at hd
    exact absurd hd (by simp)
  unfold Job.get_detail at hd
  rw [hs] at hd
  cases hdetail : j.detail with
  | some d' =>
    rw [hdetail] at hd
    obtain rfl : d' = d := by simpa using hd
    exact Or.inl ⟨hs, h.detail_finished (by simp [hdetail]), d', hdetail, rfl⟩
  | none =>
    -- a run without a detail is still queued or running
    rw [hdetail] at hd
    obtain rfl : Detail.empty _ _ _ = d := by simpa using hd
    rcases h.open_status hdetail hs with hstatus | hstatus
    · simp [Detail.status, hstatus, Status.terminal] at hterminal
    · simp [Detail.status, hstatus, Status.terminal] at hterminal

theorem Job.Settled.detail {j : Job Report} {status : Status} (h : j.Settled status)
    (hfree : j.lock = .free) {d : Detail Report} (hd : j.get_detail = some d) :
    d.status = status := by
  rcases h with ⟨hs, _, d', hdetail, hstatus⟩ | ⟨hlock | hs, _⟩
  · unfold Job.get_detail at hd
    rw [hs, hdetail] at hd
    obtain rfl : d' = d := by simpa using hd
    exact hstatus
  · simp [hfree] at hlock
  · rw [Job.get_detail_saved.mpr hs] at hd
    exact absurd hd (by simp)

/-- A stored run can only be settled as completed. -/
theorem Job.Settled.completed {j : Job Report} {status : Status} (h : j.Settled status)
    (hwf : j.WF) (hc : j.Committed) : status = .completed := by
  rcases h with ⟨hs, hfin, _⟩ | ⟨_, hstatus⟩
  · rcases hc with hlock | hsaved
    · simp [(hwf.committed_back hlock).2.2] at hfin
    · simp [hs] at hsaved
  · exact hstatus

/-- Only a committed save makes a run committed. -/
theorem committed_back_step {closed pool_open : Bool} {j j' : Job Report} {a : Action Report}
    (hstep : job_step closed pool_open j a j') (hc : j'.Committed) (ha : a ≠ .save none) :
    j.Committed := by
  -- a job that just failed holds its lock for the verdict and is not saved
  have hfail : ∀ (i : Job Report) (m : String), i.saved = j.saved →
      (i.fail_and_settle m).Committed → j.Committed := by
    intro i m hs hc
    rcases hc with hlock | hsaved
    · exact absurd hlock (by simp [Job.fail_and_settle])
    · exact Or.inr (hs ▸ hsaved)
  cases a with
  | register _ => exact hstep.elim
  | submit accepted exc =>
    obtain ⟨_, _, rfl⟩ := hstep
    rcases j.submit_cases accepted exc with heq | ⟨_, _, heq⟩ | ⟨_, _, heq⟩ <;> rw [heq] at hc
    · exact hc
    · exact hc
    · exact hfail _ _ rfl hc
  | cancel caller answer =>
    obtain ⟨_, _, _, rfl⟩ := hstep
    rcases j.cancel_cases closed with ⟨_, heq⟩ | ⟨_, _, heq⟩ | ⟨_, _, _, heq⟩ |
      ⟨_, _, _, heq⟩ | ⟨_, _, _, _, heq⟩ <;> rw [heq] at hc
    · exact hc
    · exact hc
    · exact hc
    · exact hfail _ (cancel_message closed) rfl hc
    · exact hc
  | start_worker => obtain ⟨_, rfl⟩ | ⟨_, rfl⟩ := hstep <;> exact hc
  | progress pct => obtain ⟨_, rfl⟩ := hstep; exact hc
  | finish_worker outcome => obtain ⟨_, rfl⟩ := hstep; exact hc
  | cancel_future => obtain ⟨_, _, rfl⟩ := hstep; exact hc
  | on_done refusal =>
    obtain ⟨f, _, _, hdone, _, rfl⟩ := hstep
    rcases j.on_done_cases closed refusal hdone with ⟨m, heq⟩ | ⟨r, owner, _, _, _, _, heq⟩ |
      ⟨r, _, _, _, _, heq⟩ <;> rw [heq] at hc
    · exact hfail _ m rfl hc
    · exact Or.inr (hc.resolve_left (by simp))
    · exact Or.inr (hc.resolve_left (by simp))
  | save failure =>
    cases failure with
    | none => exact absurd rfl ha
    | some exc =>
      obtain ⟨r, owner, _, _, rfl⟩ := hstep
      exact hfail _ _ rfl hc
  | conclude notified => exact Or.inl hstep.1
  | settle _ =>
    obtain ⟨passed, _, rfl⟩ := hstep
    exact Or.inr (hc.resolve_left (by simp))
  | sweep =>
    obtain ⟨_, _, rfl⟩ := hstep
    rcases j.sweep_cases with ⟨_, heq⟩ | ⟨_, _, heq⟩ | ⟨_, _, heq⟩ <;> rw [heq] at hc
    · exact hc
    · exact hfail _ interrupted_message rfl hc
    · exact hc
  | prune => obtain ⟨_, rfl⟩ := hstep; exact hc
  | remove _ _ => exact hstep.elim

/-! ### Runs that are kept -/

theorem slot_keeps {closed pool_open : Bool} {x x' : Slot Report} {a : Action Report}
    (h : slot_step closed pool_open x a x') (ha : a.drops = false) (hjob : x.job ≠ none) :
    x'.listed = x.listed ∧ (a ≠ .save none → x'.report = x.report) := by
  match a with
  | .register _ => exact absurd h.2.2.2.1 hjob
  | .cancel _ .not_found => obtain ⟨_, rfl⟩ := h; exact ⟨rfl, fun _ => rfl⟩
  | .remove caller true => exact absurd ha (by simp [Action.drops])
  | .remove caller false => obtain ⟨_, rfl⟩ := h; exact ⟨rfl, fun _ => rfl⟩
  | .cancel _ .deleted => exact absurd ha (by simp [Action.drops])
  | .prune => exact absurd ha (by simp [Action.drops])
  | .save none => obtain ⟨_, _, _, _, _, rfl⟩ := h; exact ⟨rfl, fun hne => absurd rfl hne⟩
  | .save (some _) | .cancel _ .saved | .cancel _ .cancel_requested | .submit _ _
  | .start_worker | .progress _ | .finish_worker _ | .cancel_future | .on_done _
  | .conclude _ | .settle _ | .sweep =>
    obtain ⟨_, _, _, _, _, rfl⟩ := h
    exact ⟨rfl, fun _ => rfl⟩

/-- A registered run that its owner can see. -/
structure Job.Visible (x : Slot Report) (j : Job Report) : Prop where
  job : x.job = some j
  listed : x.listed = true
  told : j.Told
  wf : j.WF
  stored : j.Committed → x.report = j.spec.owner_id ∧ j.spec.owner_id ≠ none

theorem Job.visible_queued {closed pool_open : Bool} {x x' : Slot Report} {spec : RunSpec}
    (h : slot_step closed pool_open x (.register spec) x') :
    (Job.queued spec).Visible x' := by
  obtain ⟨_, _, _, _, _, rfl⟩ := h
  exact ⟨rfl, rfl, Job.told_queued spec, Job.wf_queued spec, by simp [Job.Committed, Job.queued]⟩

/-- A kept run stays visible, under the same owner, and shows what it showed. -/
theorem Job.Visible.step {s s' : State Report} {l : Label Report} {k : JobId} {j : Job Report}
    (h : j.Visible (s.slots k)) (hok : keeps_run k s l) (hstep : job_manager.step s l s') :
    ∃ j' : Job Report, j'.Visible (s'.slots k) ∧ j'.spec = j.spec ∧ (j.Committed → j'.Committed) ∧
      ∀ status, j.Settled status → j'.Settled status := by
  rcases step_at hstep k with ⟨heq, _⟩ | ⟨a, rfl, hslot⟩
  · rw [heq]
    exact ⟨j, h, rfl, fun hc => hc, fun _ hs => hs⟩
  · obtain ⟨hlisted, hreport⟩ := slot_keeps hslot (hok rfl) (by simp [h.job])
    rcases slot_step_cases hslot with ⟨_, _, _, hfresh, _⟩ | ⟨j₀, j', h₀, hj', hjob, _, hrep⟩ |
      ⟨heq, _, hsave, _⟩
    · simp [h.job] at hfresh
    · obtain rfl : j = j₀ := by simpa [h.job] using h₀
      have hspec := spec_step hjob
      refine ⟨j', ⟨hj', hlisted.trans h.listed, h.told.step hjob, h.wf.step hjob, ?_⟩, hspec,
        fun hc => hc.step h.wf hjob, fun _ hs => hs.step h.wf hjob⟩
      intro hc
      rw [hspec]
      by_cases ha : a = .save none
      · subst ha
        obtain ⟨r, owner, _, howner, _⟩ := hjob
        exact ⟨hrep, by simp [howner]⟩
      · rw [hreport ha]
        exact h.stored (committed_back_step hjob hc ha)
    · refine ⟨j, ⟨heq.trans h.job, hlisted.trans h.listed, h.told, h.wf, ?_⟩, rfl,
        fun hc => hc, fun _ hs => hs⟩
      rw [hreport (hsave none)]
      exact h.stored

/-! ### Calls along a run -/

/-- A step moves the manager, or one call. -/
theorem polled_step_cases {s s' : Polled Report} {l : PolledLabel Report}
    (h : polled.step s l s') :
    (∃ ml, l = .manager ml ∧ job_manager.step s.manager ml s'.manager ∧ s'.polls = s.polls) ∨
    (s'.manager = s.manager ∧ ∀ p, s'.polls p = s.polls p ∨
      ∃ a, poll_step s.manager (s.polls p) a (s'.polls p)) := by
  match l with
  | .manager ml =>
    obtain ⟨m', hmanager, rfl⟩ := h
    exact Or.inl ⟨ml, rfl, hmanager, rfl⟩
  | .poll q a =>
    obtain ⟨x', hpoll, rfl⟩ := h
    refine Or.inr ⟨rfl, ?_⟩
    intro p
    by_cases hq : p = q
    · subst hq
      exact Or.inr ⟨a, by simpa using hpoll⟩
    · exact Or.inl (set_poll_ne _ _ hq)

/-- The manager's part of a trace. -/
theorem manager_trace {ls : List (PolledLabel Report)} {s : Polled Report}
    (h : polled.Trace ls s) : ∃ ms, job_manager.Trace ms s.manager := by
  refine System.invariant (P := fun s => ∃ ms, job_manager.Trace ms s.manager) ?_ ?_ h
  · intro s hinit
    exact ⟨[], s.manager, hinit.1, System.Run.refl _⟩
  · rintro s l t ⟨ms, htrace⟩ hstep
    rcases polled_step_cases hstep with ⟨ml, _, hmanager, _⟩ | ⟨hsame, _⟩
    · exact ⟨_, htrace.trans (System.Run.single hmanager)⟩
    · exact ⟨ms, hsame ▸ htrace⟩

/-- What a call of the owner has found so far: it goes on to the saved reports
    only when the report is there, and a terminal answer is the run's last. -/
def Found (k : JobId) (owner : Option Owner) (j : Job Report) : Poll Report → Prop
  | .missed id caller => id = k → caller = owner → j.Committed
  | .returned id caller answer => id = k → caller = owner →
      ∃ seen, answer = some seen ∧ (seen.status.terminal = true → j.Settled seen.status)
  | _ => True

theorem Found.mono {k : JobId} {owner : Option Owner} {j j' : Job Report} {x : Poll Report}
    (h : Found k owner j x) (hc : j.Committed → j'.Committed)
    (hs : ∀ status, j.Settled status → j'.Settled status) : Found k owner j' x := by
  cases x with
  | idle => trivial
  | called id caller => trivial
  | missed id caller => exact fun hid hcaller => hc (h hid hcaller)
  | returned id caller answer =>
    intro hid hcaller
    obtain ⟨seen, hanswer, hterminal⟩ := h hid hcaller
    exact ⟨seen, hanswer, fun ht => hs _ (hterminal ht)⟩

/-- The manager has no answer for its owner only when the report is stored. -/
theorem Found.step {m : State Report} {k : JobId} {j : Job Report} {x x' : Poll Report}
    {a : PollAction} (hj : j.Visible (m.slots k)) (h : Found k j.spec.owner_id j x)
    (hstep : poll_step m x a x') : Found k j.spec.owner_id j x' := by
  match a with
  | .call id caller => obtain ⟨_, rfl⟩ := hstep; trivial
  | .ask =>
    obtain ⟨id, caller, answer, _, hask, rfl⟩ := hstep
    cases answer with
    | none =>
      rintro rfl rfl
      rcases hask with ⟨j', hj', _, _, hnone⟩ | ⟨hunlisted | hother, _⟩
      · obtain rfl : j = j' := by simpa [hj.job] using hj'
        exact Or.inr (Job.get_detail_saved.mp hnone.symm)
      · simp [hj.listed] at hunlisted
      · exact absurd rfl (hother j hj.job)
    | some d =>
      rintro rfl rfl
      rcases hask with ⟨j', hj', _, _, hd⟩ | ⟨_, hnone⟩
      · obtain rfl : j = j' := by simpa [hj.job] using hj'
        exact ⟨_, rfl, fun ht => Job.settled_of_detail hj.told hd.symm ht⟩
      · simp at hnone
  | .read =>
    obtain ⟨id, caller, rfl, rfl⟩ := hstep
    rintro rfl rfl
    have hc : j.Committed := h rfl rfl
    obtain ⟨hreport, howner⟩ := hj.stored hc
    exact ⟨.stored, if_pos ⟨howner, hreport⟩, fun _ => Or.inr ⟨hc, rfl⟩⟩

/-- A call that reads after the run was over shows its last status. -/
def Repeats (k : JobId) (owner : Option Owner) (status : Status) : Poll Report → Prop
  | .returned id caller answer => id = k → caller = owner →
      ∃ seen, answer = some seen ∧ seen.status = status
  | _ => True

theorem Repeats.step {m : State Report} {k : JobId} {j : Job Report} {x x' : Poll Report}
    {a : PollAction} {status : Status} (hj : j.Visible (m.slots k)) (hs : j.Settled status)
    (hfound : Found k j.spec.owner_id j x) (hstep : poll_step m x a x') :
    Repeats k j.spec.owner_id status x' := by
  match a with
  | .call id caller => obtain ⟨_, rfl⟩ := hstep; trivial
  | .ask =>
    obtain ⟨id, caller, answer, _, hask, rfl⟩ := hstep
    cases answer with
    | none => trivial
    | some d =>
      rintro rfl rfl
      rcases hask with ⟨j', hj', _, hfree, hd⟩ | ⟨_, hnone⟩
      · obtain rfl : j = j' := by simpa [hj.job] using hj'
        exact ⟨_, rfl, hs.detail hfree hd.symm⟩
      · simp at hnone
  | .read =>
    obtain ⟨id, caller, rfl, rfl⟩ := hstep
    rintro rfl rfl
    have hc : j.Committed := hfound rfl rfl
    obtain ⟨hreport, howner⟩ := hj.stored hc
    exact ⟨.stored, if_pos ⟨howner, hreport⟩, (hs.completed hj.wf hc).symm⟩

/-- What a kept run and the calls that read it have come to since a state. -/
structure Since (k : JobId) (j : Job Report) (s t : Polled Report) (j' : Job Report) : Prop where
  visible : j'.Visible (t.manager.slots k)
  spec : j'.spec = j.spec
  settled : ∀ status, j.Settled status → j'.Settled status
  found : ∀ p, (s.polls p).unread = true → Found k j.spec.owner_id j' (t.polls p)
  repeats : ∀ p, (s.polls p).unread = true → ∀ status, j.Settled status →
    Repeats k j.spec.owner_id status (t.polls p)

theorem found_of_unread {k : JobId} {owner : Option Owner} {j : Job Report} {x : Poll Report}
    (h : x.unread = true) : Found k owner j x := by
  cases x with
  | idle => trivial
  | called _ _ => trivial
  | missed _ _ => exact absurd h (by simp [Poll.unread])
  | returned _ _ _ => exact absurd h (by simp [Poll.unread])

theorem repeats_of_unread {k : JobId} {owner : Option Owner} {status : Status}
    {x : Poll Report} (h : x.unread = true) : Repeats k owner status x := by
  cases x with
  | returned _ _ _ => exact absurd h (by simp [Poll.unread])
  | _ => trivial

theorem Since.step {k : JobId} {j i : Job Report} {s t u : Polled Report}
    {l : PolledLabel Report} (h : Since k j s t i) (hok : keeps k t l)
    (hstep : polled.step t l u) : ∃ i', Since k j s u i' := by
  rcases polled_step_cases hstep with ⟨ml, rfl, hmanager, hpolls⟩ | ⟨hsame, hpolls⟩
  · obtain ⟨i', hvisible, hspec, hcommitted, hsettled⟩ := h.visible.step hok hmanager
    refine ⟨i', hvisible, hspec.trans h.spec, fun status hs => hsettled _ (h.settled _ hs), ?_, ?_⟩
    · intro p hp
      rw [hpolls]
      exact (h.found p hp).mono hcommitted hsettled
    · intro p hp
      rw [hpolls]
      exact h.repeats p hp
  · refine ⟨i, hsame ▸ h.visible, h.spec, h.settled, ?_, ?_⟩
    · intro p hp
      have hfound := h.found p hp
      rcases hpolls p with heq | ⟨a, hpoll⟩
      · rw [heq]
        exact hfound
      · rw [← h.spec] at hfound ⊢
        exact hfound.step h.visible hpoll
    · intro p hp status hs
      have hfound := h.found p hp
      rcases hpolls p with heq | ⟨a, hpoll⟩
      · rw [heq]
        exact h.repeats p hp status hs
      · rw [← h.spec] at hfound ⊢
        exact Repeats.step h.visible (h.settled status hs) hfound hpoll

theorem since_run {k : JobId} {j : Job Report} {s t : Polled Report}
    {ms : List (PolledLabel Report)} (hj : j.Visible (s.manager.slots k))
    (hrun : (polled.restrict (keeps k)).Run s ms t) : ∃ i, Since k j s t i := by
  refine System.Run.preserves (P := fun t => ∃ i, Since k j s t i) ?_ ?_ hrun
  · rintro t l u ⟨hok, hstep⟩ ⟨i, hi⟩
    exact hi.step hok hstep
  · exact ⟨j, hj, rfl, fun _ hs => hs, fun _ hp => found_of_unread hp,
      fun _ hp _ _ => repeats_of_unread hp⟩

/-- A registered run that has been kept is visible. -/
theorem visible_of_trace {k : JobId} {j : Job Report} {ls : List (PolledLabel Report)}
    {s : Polled Report} (h : (polled.restrict (keeps k)).Trace ls s)
    (hj : (s.manager.slots k).job = some j) : j.Visible (s.manager.slots k) := by
  have hinv : ∀ j, (s.manager.slots k).job = some j → j.Visible (s.manager.slots k) := by
    refine System.invariant (P := fun s : Polled Report =>
      ∀ j, (s.manager.slots k).job = some j → j.Visible (s.manager.slots k)) ?_ ?_ h
    · intro s hinit j hj
      simp [hinit.1.2.2 k] at hj
    · rintro s l t ih ⟨hok, hstep⟩ j' hj'
      rcases polled_step_cases hstep with ⟨ml, rfl, hmanager, _⟩ | ⟨hsame, _⟩
      · cases hj : (s.manager.slots k).job with
        | some j =>
          obtain ⟨i, hi, _⟩ := (ih j hj).step hok hmanager
          obtain rfl : j' = i := by simpa [hi.job] using hj'.symm
          exact hi
        | none =>
          -- the run has just been registered
          rcases step_at hmanager k with ⟨heq, _⟩ | ⟨a, rfl, hslot⟩
          · rw [heq, hj] at hj'
            exact absurd hj' (by simp)
          · rcases slot_step_cases hslot with ⟨spec, rfl, _⟩ | ⟨j₀, _, h₀, _⟩ | ⟨heq, _⟩
            · have hqueued := Job.visible_queued hslot
              obtain rfl : j' = Job.queued spec := by simpa [hqueued.job] using hj'.symm
              exact hqueued
            · simp [hj] at h₀
            · rw [heq, hj] at hj'
              exact absurd hj' (by simp)
      · rw [hsame] at hj' ⊢
        exact ih j' hj'
  exact hinv j hj

/-! ### Other callers -/

/-- A stored report is its run's owner's. -/
def Owned (k : JobId) (m : State Report) : Prop :=
  ∀ j, (m.slots k).job = some j → ∀ c, (m.slots k).report = some c → j.spec.owner_id = some c

theorem owned_step {m m' : State Report} {l : Label Report} {k : JobId}
    (hstep : job_manager.step m l m') (h : Owned k m) : Owned k m' := by
  intro j' hj' c hc
  rcases step_at hstep k with ⟨heq, _⟩ | ⟨a, _, hslot⟩
  · rw [heq] at hj' hc
    exact h j' hj' c hc
  · rcases slot_step_cases hslot with ⟨_, _, _, _, _, _, hnone⟩ |
      ⟨j, i, hj, hi, hjob, _, hrep⟩ | ⟨heq, _, _, hkeep, hgone⟩
    · simp [hnone] at hc
    · obtain rfl : j' = i := by simpa [hi] using hj'.symm
      rw [spec_step hjob]
      rw [hrep] at hc
      by_cases ha : a = .save none
      · subst ha
        exact hc
      · rw [report_after_ne ha] at hc
        exact h j hj c hc
    · rw [heq] at hj'
      rcases report_idle hkeep hgone with hrep | hrep
      · rw [hrep] at hc
        exact h j' hj' c hc
      · simp [hrep] at hc

theorem owned {ls : List (Label Report)} {m : State Report} (h : job_manager.Trace ls m)
    (k : JobId) : Owned k m :=
  System.invariant (P := Owned k) (fun s hinit j hj => by simp [hinit.2.2 k] at hj)
    (fun _ _ _ h hstep => owned_step hstep h) h

/-- Nobody else has been told about the run. -/
def Private (k : JobId) (owner : Option Owner) : Poll Report → Prop
  | .returned id caller answer => id = k → caller ≠ owner → answer = none
  | _ => True

theorem Private.step {m : State Report} {k : JobId} {j : Job Report} {x x' : Poll Report}
    {a : PollAction} (hj : (m.slots k).job = some j) (howned : Owned k m)
    (hstep : poll_step m x a x') : Private k j.spec.owner_id x' := by
  match a with
  | .call id caller => obtain ⟨_, rfl⟩ := hstep; trivial
  | .ask =>
    obtain ⟨id, caller, answer, _, hask, rfl⟩ := hstep
    cases answer with
    | none => trivial
    | some d =>
      rintro rfl hother
      rcases hask with ⟨j', hj', howner, _⟩ | ⟨_, hnone⟩
      · obtain rfl : j = j' := by simpa [hj] using hj'
        exact absurd howner.symm hother
      · simp at hnone
  | .read =>
    obtain ⟨id, caller, rfl, rfl⟩ := hstep
    rintro rfl hother
    apply if_neg
    rintro ⟨hcaller, hreport⟩
    obtain ⟨c, rfl⟩ := Option.ne_none_iff_exists'.mp hcaller
    exact hother (howned j hj c hreport).symm

theorem private_of_unread {k : JobId} {owner : Option Owner} {x : Poll Report}
    (h : x.unread = true) : Private k owner x := by
  cases x with
  | returned _ _ _ => exact absurd h (by simp [Poll.unread])
  | _ => trivial

theorem private_run {k : JobId} {j : Job Report} {s t : Polled Report}
    {ms : List (PolledLabel Report)} (hj : (s.manager.slots k).job = some j)
    (howned : Owned k s.manager) {p : PollId} (hp : (s.polls p).unread = true)
    (hrun : polled.Run s ms t) : Private k j.spec.owner_id (t.polls p) := by
  have hinv : Owned k t.manager ∧ (∃ i, (t.manager.slots k).job = some i ∧ i.spec = j.spec) ∧
      Private k j.spec.owner_id (t.polls p) := by
    refine System.Run.preserves (P := fun t : Polled Report => Owned k t.manager ∧
      (∃ i, (t.manager.slots k).job = some i ∧ i.spec = j.spec) ∧
      Private k j.spec.owner_id (t.polls p)) ?_ ?_ hrun
    · rintro t l u hstep ⟨ho, ⟨i, hi, hspec⟩, hprivate⟩
      rcases polled_step_cases hstep with ⟨ml, _, hmanager, hpolls⟩ | ⟨hsame, hpolls⟩
      · refine ⟨owned_step hmanager ho, ?_, by rw [hpolls]; exact hprivate⟩
        rcases registered_step hmanager hi with hkept | ⟨_, i', _, hi', hjob⟩
        · exact ⟨i, hkept, hspec⟩
        · exact ⟨i', hi', (spec_step hjob).trans hspec⟩
      · refine ⟨hsame ▸ ho, ⟨i, hsame ▸ hi, hspec⟩, ?_⟩
        rcases hpolls p with heq | ⟨a, hpoll⟩
        · rw [heq]
          exact hprivate
        · rw [← hspec]
          exact Private.step hi ho hpoll
    · exact ⟨howned, ⟨j, hj, rfl⟩, private_of_unread hp⟩
  exact hinv.2.2

/-! ### Every call can return -/

/-- An action on the run, made in the system with the calls. -/
theorem run_of_action {k : JobId} {s : Polled Report} {a : Action Report} {x' : Slot Report}
    (hslot : slot_step s.manager.closed s.manager.pool_open (s.manager.slots k) a x')
    (hreg : register_ok s.manager k a) (ha : a.drops = false) :
    ∃ t : Polled Report, (polled.restrict (keeps k)).Run s [.manager (.job k a)] t ∧
      t.manager.slots k = x' ∧ t.polls = s.polls := by
  refine ⟨⟨_, s.polls⟩, System.Run.single ⟨fun _ => ha, _, ⟨hreg, x', hslot, rfl⟩, rfl⟩, ?_, rfl⟩
  exact set_slot_self _ _ _

/-- The holder of a job's lock is never blocked. -/
theorem lock_released {k : JobId} {j : Job Report} {s : Polled Report}
    (hj : j.Visible (s.manager.slots k)) :
    ∃ ms t j', (polled.restrict (keeps k)).Run s ms t ∧ (t.manager.slots k).job = some j' ∧
      j'.lock = .free ∧ j'.spec = j.spec ∧ t.polls = s.polls := by
  have hsettle : ∀ (s : Polled Report) (j : Job Report) passed,
      (s.manager.slots k).job = some j → j.lock = .settling passed →
      ∃ ms t j', (polled.restrict (keeps k)).Run s ms t ∧ (t.manager.slots k).job = some j' ∧
        j'.lock = .free ∧ j'.spec = j.spec ∧ t.polls = s.polls := by
    intro s j passed hj hlock
    obtain ⟨t, hrun, hslot, hpolls⟩ := run_of_action (a := .settle true)
      ⟨j, j.unlocked, hj, ⟨passed, hlock, rfl⟩, nofun, rfl⟩ trivial rfl
    exact ⟨_, t, j.unlocked, hrun, by rw [hslot], rfl, rfl, hpolls⟩
  cases hlock : j.lock with
  | free => exact ⟨[], s, j, System.Run.refl s, hj.job, hlock, rfl, rfl⟩
  | saving r =>
    -- a save that raises goes on to the verdict
    obtain ⟨owner, howner⟩ := Option.ne_none_iff_exists'.mp (hj.told.saving_owner r hlock)
    obtain ⟨t, hrun, hslot, hpolls⟩ := run_of_action (a := .save (some "OperationalError"))
      ⟨j, _, hj.job, ⟨r, owner, hlock, howner, rfl⟩, nofun, rfl⟩ trivial rfl
    obtain ⟨ms, u, j', hrest, hj', hfree, hspec, hpolls'⟩ :=
      hsettle t _ false (by rw [hslot]) rfl
    exact ⟨_, u, j', hrun.trans hrest, hj', hfree, hspec, hpolls'.trans hpolls⟩
  | committed =>
    obtain ⟨t, hrun, hslot, hpolls⟩ := run_of_action (a := .conclude false)
      ⟨j, _, hj.job, ⟨hlock, rfl⟩, nofun, rfl⟩ trivial rfl
    exact ⟨_, t, j.conclude false, hrun, by rw [hslot], rfl, rfl, hpolls⟩
  | settling passed => exact hsettle s j passed hj.job hlock

/-- A call of the owner that waits can return. -/
theorem call_can_return {k : JobId} {j : Job Report} {s : Polled Report} {p : PollId}
    (hj : j.Visible (s.manager.slots k)) (hp : s.polls p = .called k j.spec.owner_id) :
    ∃ ms t answer, (polled.restrict (keeps k)).Run s ms t ∧
      t.polls p = .returned k j.spec.owner_id answer := by
  obtain ⟨ms, t, j', hrun, hj', hfree, hspec, hpolls⟩ := lock_released hj
  have hcalled : t.polls p = .called k j.spec.owner_id := by rw [hpolls, hp]
  have hask : (polled.restrict (keeps k)).step t (.poll p .ask)
      ⟨t.manager, set_poll t.polls p (.asked k j.spec.owner_id j'.get_detail)⟩ :=
    ⟨trivial, _, ⟨k, _, _, hcalled, Or.inl ⟨j', hj', by rw [hspec], hfree, rfl⟩, rfl⟩, rfl⟩
  cases hd : j'.get_detail with
  | some d =>
    rw [hd] at hask
    exact ⟨_, _, _, hrun.snoc hask, set_poll_self _ _ _⟩
  | none =>
    rw [hd] at hask
    generalize hv : set_poll t.polls p (.asked k j.spec.owner_id none) = polls at hask
    have hmissed : polls p = .missed k j.spec.owner_id := by rw [← hv, set_poll_self]; rfl
    have hread : (polled.restrict (keeps k)).step ⟨t.manager, polls⟩ (.poll p .read)
        ⟨t.manager, set_poll polls p (.returned k j.spec.owner_id
          ((t.manager.slots k).read_report j.spec.owner_id))⟩ :=
      ⟨trivial, _, ⟨k, _, hmissed, rfl⟩, rfl⟩
    exact ⟨_, _, _, (hrun.snoc hask).snoc hread, set_poll_self _ _ _⟩

/-- **A run is never invisible to its owner.** Nobody else is ever told about a
    registered run. As long as it is neither deleted nor expired and the
    process goes on, every call its owner makes can return, returns a detail,
    and after a terminal status every later call returns that status. -/
theorem run_never_invisible (k : JobId) :
    (∀ (ls : List (PolledLabel Report)) s j, polled.Trace ls s →
      (s.manager.slots k).job = some j → ∀ ms t p caller answer, (s.polls p).unread = true →
      polled.Run s ms t → t.polls p = .returned k caller answer →
      caller ≠ j.spec.owner_id → answer = none) ∧
    (∀ (ls : List (PolledLabel Report)) s j, (polled.restrict (keeps k)).Trace ls s →
      (s.manager.slots k).job = some j →
      (∀ p, s.polls p = .called k j.spec.owner_id → ∃ ms t answer,
        (polled.restrict (keeps k)).Run s ms t ∧
        t.polls p = .returned k j.spec.owner_id answer) ∧
      ∀ ms t p answer, (s.polls p).unread = true → (polled.restrict (keeps k)).Run s ms t →
        t.polls p = .returned k j.spec.owner_id answer →
        ∃ seen, answer = some seen ∧ (seen.status.terminal = true →
          ∀ ms' u q answer', (t.polls q).unread = true →
            (polled.restrict (keeps k)).Run t ms' u →
            u.polls q = .returned k j.spec.owner_id answer' →
            ∃ seen', answer' = some seen' ∧ seen'.status = seen.status)) := by
  constructor
  · intro ls s j h hj ms t p caller answer hp hrun hreturned hother
    obtain ⟨_, hmanager⟩ := manager_trace h
    have hprivate := private_run hj (owned hmanager k) hp hrun
    rw [hreturned] at hprivate
    exact hprivate rfl hother
  · intro ls s j h hj
    have hvisible := visible_of_trace h hj
    refine ⟨fun p hp => call_can_return hvisible hp, ?_⟩
    intro ms t p answer hp hrun hreturned
    -- the first answer fixes what every later one says
    obtain ⟨i, hi⟩ := since_run hvisible hrun
    have hfound := hi.found p hp
    rw [hreturned] at hfound
    obtain ⟨seen, rfl, hterminal⟩ := hfound rfl rfl
    refine ⟨seen, rfl, ?_⟩
    intro hover ms' u q answer' hq hrun' hreturned'
    obtain ⟨i', hi'⟩ := since_run hi.visible hrun'
    have hrepeats := hi'.repeats q hq seen.status (hterminal hover)
    rw [hi.spec, hreturned'] at hrepeats
    exact hrepeats rfl rfl

def owned_run : RunSpec :=
  { id := 7, owner_id := some 1, strategy_key := "momentum", purpose := .user }

/-- The run as it is registered. -/
def registered_state : Polled Unit where
  manager := { draft_state with
    slots := set_slot draft_state.slots 7 ⟨some (Job.queued owned_run), true, none⟩ }
  polls := fun _ => .idle

/-- A call that waits while the run is saved. -/
def handed_over : List (PolledLabel Unit) :=
  [.poll 0 (.call 7 (some 1)), .manager (.job 7 (.submit true "")),
   .manager (.job 7 .start_worker), .manager (.job 7 (.finish_worker (.report ()))),
   .manager (.job 7 (.on_done none)), .manager (.job 7 (.save none)),
   .manager (.job 7 (.conclude true)), .manager (.job 7 (.settle true)),
   .poll 0 .ask, .poll 0 .read]

theorem registered_step_polled : polled.step ⟨draft_state, fun _ => Poll.idle⟩
    (.manager (.job 7 (.register owned_run))) registered_state :=
  ⟨_, ⟨⟨rfl, fun _ k j hj => by simp [draft_state] at hj⟩, _,
    ⟨rfl, rfl, by simp [owned_run], rfl, rfl, rfl⟩, rfl⟩, rfl⟩

/-- The report of the run is found where the callback has put it. -/
theorem handed_over_run_seen : ∃ t seen,
    (polled.restrict (keeps 7)).Run registered_state handed_over t ∧
    t.polls 0 = .returned 7 (some 1) (some seen) := by
  have hregister : (polled.restrict (keeps 7)).step ⟨draft_state, fun _ => Poll.idle⟩
      (.manager (.job 7 (.register owned_run))) registered_state :=
    ⟨fun _ => rfl, registered_step_polled⟩
  have htrace : (polled.restrict (keeps 7)).Trace _ registered_state :=
    ⟨_, ⟨⟨rfl, rfl, fun _ => rfl⟩, fun _ => rfl⟩, System.Run.single hregister⟩
  -- the job runs and saves while the poll is under way
  have hrun : ∃ t, (polled.restrict (keeps 7)).Run registered_state handed_over t ∧
      ∃ answer, t.polls 0 = .returned 7 (some 1) answer := by
    refine System.Run.exists_cons ⟨trivial, _, ⟨rfl, rfl⟩, rfl⟩ ?_
    refine System.Run.exists_cons ⟨fun _ => rfl, _,
      ⟨trivial, _, ⟨_, _, rfl, ⟨rfl, fun _ => rfl, rfl⟩, by simp, rfl⟩, rfl⟩, rfl⟩ ?_
    refine System.Run.exists_cons ⟨fun _ => rfl, _,
      ⟨trivial, _, ⟨_, _, rfl, Or.inl ⟨rfl, rfl⟩, by simp, rfl⟩, rfl⟩, rfl⟩ ?_
    refine System.Run.exists_cons ⟨fun _ => rfl, _,
      ⟨trivial, _, ⟨_, _, rfl, ⟨Or.inl rfl, rfl⟩, by simp, rfl⟩, rfl⟩, rfl⟩ ?_
    refine System.Run.exists_cons ⟨fun _ => rfl, _,
      ⟨trivial, _, ⟨_, _, rfl, ⟨_, rfl, rfl, rfl, rfl, rfl⟩, by simp, rfl⟩, rfl⟩, rfl⟩ ?_
    refine System.Run.exists_cons ⟨fun _ => rfl, _,
      ⟨trivial, _, ⟨_, _, rfl, ⟨_, _, rfl, rfl, rfl⟩, fun _ => rfl, rfl⟩, rfl⟩, rfl⟩ ?_
    refine System.Run.exists_cons ⟨fun _ => rfl, _,
      ⟨trivial, _, ⟨_, _, rfl, ⟨rfl, rfl⟩, by simp, rfl⟩, rfl⟩, rfl⟩ ?_
    refine System.Run.exists_cons ⟨fun _ => rfl, _,
      ⟨trivial, _, ⟨_, _, rfl, ⟨_, rfl, rfl⟩, by simp, rfl⟩, rfl⟩, rfl⟩ ?_
    refine System.Run.exists_cons ⟨trivial, _,
      ⟨7, _, none, rfl, Or.inl ⟨_, rfl, rfl, rfl, rfl⟩, rfl⟩, rfl⟩ ?_
    refine System.Run.exists_cons ⟨trivial, _, ⟨7, _, rfl, rfl⟩, rfl⟩ ?_
    exact System.Run.exists_refl ⟨_, rfl⟩
  obtain ⟨t, hrun, answer, hreturned⟩ := hrun
  obtain ⟨seen, rfl, _⟩ := ((run_never_invisible 7).2 _ _ _ htrace rfl).2 _ _ 0 _ rfl hrun hreturned
  exact ⟨t, seen, hrun, hreturned⟩

/-- A call that has asked the manager, whose run its owner then deletes. -/
def deleted_under_poll : List (PolledLabel Unit) :=
  [.poll 0 (.call 7 (some 1)), .manager (.job 7 (.submit true "")),
   .manager (.job 7 .start_worker), .manager (.job 7 (.finish_worker (.report ()))),
   .manager (.job 7 (.on_done none)), .manager (.job 7 (.save none)),
   .manager (.job 7 (.conclude true)), .manager (.job 7 (.settle true)), .poll 0 .ask,
   .manager (.job 7 (.cancel (some 1) .saved)), .manager (.job 7 (.remove 1 true)),
   .poll 0 .read]

/-- The manager sends the call on to the database, and the row goes before it
    is read: a call made before the deletion returns nothing. -/
theorem deleted_under_poll_unseen : ∃ ls t,
    polled.Trace ls registered_state ∧ (registered_state.manager.slots 7).job.isSome = true ∧
    (registered_state.polls 0).unread = true ∧
    polled.Run registered_state deleted_under_poll t ∧
    t.polls 0 = .returned 7 owned_run.owner_id none := by
  have htrace : polled.Trace _ registered_state :=
    ⟨_, ⟨⟨rfl, rfl, fun _ => rfl⟩, fun _ => rfl⟩, System.Run.single registered_step_polled⟩
  have hrun : ∃ t, polled.Run registered_state deleted_under_poll t ∧
      t.polls 0 = .returned 7 owned_run.owner_id none := by
    refine System.Run.exists_cons ⟨_, ⟨rfl, rfl⟩, rfl⟩ ?_
    refine System.Run.exists_cons
      ⟨_, ⟨trivial, _, ⟨_, _, rfl, ⟨rfl, fun _ => rfl, rfl⟩, by simp, rfl⟩, rfl⟩, rfl⟩ ?_
    refine System.Run.exists_cons
      ⟨_, ⟨trivial, _, ⟨_, _, rfl, Or.inl ⟨rfl, rfl⟩, by simp, rfl⟩, rfl⟩, rfl⟩ ?_
    refine System.Run.exists_cons
      ⟨_, ⟨trivial, _, ⟨_, _, rfl, ⟨Or.inl rfl, rfl⟩, by simp, rfl⟩, rfl⟩, rfl⟩ ?_
    refine System.Run.exists_cons
      ⟨_, ⟨trivial, _, ⟨_, _, rfl, ⟨_, rfl, rfl, rfl, rfl, rfl⟩, by simp, rfl⟩, rfl⟩, rfl⟩ ?_
    refine System.Run.exists_cons
      ⟨_, ⟨trivial, _, ⟨_, _, rfl, ⟨_, _, rfl, rfl, rfl⟩, fun _ => rfl, rfl⟩, rfl⟩, rfl⟩ ?_
    refine System.Run.exists_cons
      ⟨_, ⟨trivial, _, ⟨_, _, rfl, ⟨rfl, rfl⟩, by simp, rfl⟩, rfl⟩, rfl⟩ ?_
    refine System.Run.exists_cons
      ⟨_, ⟨trivial, _, ⟨_, _, rfl, ⟨_, rfl, rfl⟩, by simp, rfl⟩, rfl⟩, rfl⟩ ?_
    refine System.Run.exists_cons
      ⟨_, ⟨7, _, none, rfl, Or.inl ⟨_, rfl, rfl, rfl, rfl⟩, rfl⟩, rfl⟩ ?_
    -- `cancel` finds the run saved, so the DELETE goes on to the row
    refine System.Run.exists_cons
      ⟨_, ⟨trivial, _, ⟨_, _, rfl, ⟨rfl, rfl, rfl, rfl⟩, by simp, rfl⟩, rfl⟩, rfl⟩ ?_
    refine System.Run.exists_cons ⟨_, ⟨trivial, _, ⟨rfl, rfl⟩, rfl⟩, rfl⟩ ?_
    refine System.Run.exists_cons ⟨_, ⟨7, _, rfl, rfl⟩, rfl⟩ ?_
    exact System.Run.exists_refl rfl
  obtain ⟨t, hrun, hreturned⟩ := hrun
  exact ⟨_, t, htrace, rfl, rfl, hrun, hreturned⟩

end Jobs
