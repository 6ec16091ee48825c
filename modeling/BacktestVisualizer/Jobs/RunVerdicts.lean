import BacktestVisualizer.Jobs.RunSafety

/-! # When a Verdict Stands

  The predicates of the updates do not make a verdict final by themselves:
  that needs a worker whose claim does not raise, and for failures a heart
  that beats in time. A run that everybody has left is ended by the repair.
-/

open LTS

namespace RunTable

open Jobs (Status truncated cancelled_message)

variable {Report : Type} {stale : ℤ} {s t u : State Report} {l : Action Report}
  {ls ms : List (Action Report)}

/-! ### Verdicts -/

/-- What a reader is told of a run. -/
def RunRow.verdict (r : RunRow Report) : Status × Option String × Option Report :=
  (r.status, r.error_message, r.results)

/-- The run is in a terminal state. -/
def RunRow.Over (r : RunRow Report) : Prop := r.status = .completed ∨ r.status = .failed

/-- No worker is about to fail a run it has not claimed. -/
def Clean (s : State Report) : Prop :=
  ∀ w x message, s.workers w = some x → x.phase ≠ .failing false message

/-- Neither the schema check nor a claim raises. -/
def Answered (l : Action Report) : Prop := ∀ w exc, l ≠ .worker w (.break_down exc)

theorem work_clean {now : ℤ} {x x' : Worker Report} {row row' : Option (RunRow Report)}
    {a : WorkerAction Report} {message : String} (h : work now x row x' row' a)
    (hx' : x'.phase = .failing false message) :
    x.phase = .failing false message ∨ ∃ exc, a = .break_down exc := by
  cases a with
  | claim won =>
    cases won with
    | true => simp [work] at h; obtain ⟨_, _, _, _, _, rfl⟩ := h; simp at hx'
    | false => simp [h.2.2.2] at hx'
  | break_down exc => exact .inr ⟨exc, rfl⟩
  | raise exc => simp [h.2.2] at hx'
  | load exc => cases exc <;> simp [h.2.2] at hx'
  | beat =>
    obtain ⟨_, _, rfl⟩ := h
    exact .inl hx'
  | poll pct =>
    obtain ⟨_, _, _, rfl⟩ := h
    exact .inl hx'
  | start => simp [h.2.2.2] at hx'
  | stop_early => simp [h.2.2.2] at hx'
  | finish result =>
    obtain ⟨_, _, rfl⟩ := h
    cases result <;> simp [EngineResult.next] at hx'
  | persist exc =>
    cases exc with
    | none =>
      obtain ⟨_, _, _, _, _, rfl⟩ := h
      simp at hx'
    | some exc =>
      obtain ⟨_, _, _, rfl⟩ := h
      simp at hx'
  | fail written =>
    obtain ⟨_, _, _, _, rfl⟩ := h
    simp at hx'
  | rest =>
    obtain ⟨_, _, rfl⟩ := h
    exact .inl hx'
  | crash => simp [h.2] at hx'

theorem clean_after (hs : Clean s) (hl : Answered l) (h : step stale s l t) : Clean t := by
  intro w y message hy hphase
  rcases worker_after h hy with ⟨hy, _⟩ | ⟨rfl, _⟩ | ⟨a, x, row', rfl, hx, hwork⟩
  · exact hs w y message hy hphase
  · simp [Worker.started] at hphase
  · rcases work_clean hwork hphase with hbefore | ⟨exc, rfl⟩
    · exact hs w x message hx hbefore
    · exact hl w exc rfl

/-- In a clean state only the worker that holds the run fails it. -/
theorem Clean.fails {w : ℕ} {claimed : Bool} {message : String} {x : Worker Report} (hs : Clean s)
    (hx : s.workers w = some x) (hphase : x.phase = .failing claimed message) : s.Holder w := by
  cases claimed with
  | true => exact ⟨x, hx, by simp [hphase, Phase.holds]⟩
  | false => exact absurd hphase (hs w x message hx)

theorem persists {w : ℕ} {report : Report} {x : Worker Report} (hx : s.workers w = some x)
    (hphase : x.phase = .persisting report) : s.Holder w :=
  ⟨x, hx, by simp [hphase, Phase.holds]⟩

/-- The verdict on a run stands, unless the run is deleted. -/
structure Final (r : RunRow Report) (s : State Report) : Prop where
  closed : Closed s
  clean : Clean s
  created : s.created = true
  row : s.row = none ∨ ∃ r', s.row = some r' ∧ r'.verdict = r.verdict

theorem verdict_after {r : RunRow Report} (hclosed : Closed s) (hclean : Clean s)
    (hrow : s.row = some r) (hover : r.Over) (h : step stale s l t) :
    t.row = none ∨ ∃ r', t.row = some r' ∧ r'.verdict = r.verdict := by
  have hqueued : r.status ≠ .queued := by
    rcases hover with h | h <;> simp [h]
  have hrunning : r.status ≠ .running := by
    rcases hover with h | h <;> simp [h]
  cases row_move h with
  | kept l row => exact .inr ⟨r, row.trans hrow, rfl⟩
  | created hnew _ => exact absurd (.inl hnew) hclosed.claimable
  | claimed w before queued _ =>
    obtain rfl := Option.some.inj (before.symm.trans hrow)
    exact absurd queued hqueued
  | beaten w before row =>
    obtain rfl := Option.some.inj (before.symm.trans hrow)
    exact .inr ⟨_, row, rfl⟩
  | polled w pct before row =>
    obtain rfl := Option.some.inj (before.symm.trans hrow)
    exact .inr ⟨_, row, rfl⟩
  | cancelled before row =>
    obtain rfl := Option.some.inj (before.symm.trans hrow)
    exact .inr ⟨_, row, rfl⟩
  -- who completes or fails the run holds it, and nobody does
  | completed w report worker phase _ _ => exact absurd (persists worker phase) (hclosed.idle w)
  | failed w claimed message worker phase _ _ =>
    exact absurd (hclean.fails worker phase) (hclosed.idle w)
  | refused message before queued _ =>
    obtain rfl := Option.some.inj (before.symm.trans hrow)
    exact absurd queued hqueued
  | ended message before running _ =>
    obtain rfl := Option.some.inj (before.symm.trans hrow)
    exact absurd running hrunning
  | repaired before running _ _ =>
    obtain rfl := Option.some.inj (before.symm.trans hrow)
    exact absurd running hrunning
  | deleted l row => exact .inl row

/-- A row that is gone does not come back. -/
theorem gone_after (hcreated : s.created = true) (hrow : s.row = none) (h : step stale s l t) :
    t.row = none := by
  cases row_move h with
  | kept l row => exact row.trans hrow
  | created hnew _ => simp [hcreated] at hnew
  | deleted l row => exact row
  | _ => simp_all

theorem final_after {r : RunRow Report} (hover : r.Over) (hs : Final r s) (hl : Answered l)
    (h : step stale s l t) : Final r t := by
  refine ⟨closed_after hs.closed h, clean_after hs.clean hl h, created_after h hs.created, ?_⟩
  rcases hs.row with hrow | ⟨r', hrow, hsame⟩
  · exact .inl (gone_after hs.created hrow h)
  · have hover' : r'.Over := by
      have hstatus : r'.status = r.status := congrArg Prod.fst hsame
      unfold RunRow.Over
      rw [hstatus]
      exact hover
    rcases verdict_after hs.closed hs.clean hrow hover' h with hnone | ⟨r'', hrow', hsame'⟩
    · exact .inl hnone
    · exact .inr ⟨r'', hrow', hsame'.trans hsame⟩

theorem final_run {r : RunRow Report} {ok : State Report → Action Report → Prop}
    (hok : ∀ s l, ok s l → Answered l) (hover : r.Over) (hs : Final r s)
    (h : ((system stale).restrict ok).Run s ms t) : Final r t := by
  have hstep : ∀ s l t, ((system stale).restrict ok).step s l t → Final r s → Final r t :=
    fun s l _ hstep hs => final_after hover hs (hok s l hstep.1) hstep.2
  exact h.preserves hstep hs

/-! ### Completed runs -/

theorem persist_leaves {w : ℕ} (h : step stale s (.worker w (.persist none)) t) : ¬t.Holder w := by
  obtain ⟨x, x', row', _, ⟨_, _, _, _, _, rfl⟩, rfl⟩ := h
  rintro ⟨y, hy, hholds⟩
  obtain rfl : { x with phase := .over .completed } = y := by simpa using hy
  simp [Phase.holds] at hholds

theorem fail_leaves {w : ℕ} {written : Bool} (h : step stale s (.worker w (.fail written)) t) :
    ¬t.Holder w := by
  obtain ⟨x, x', row', _, ⟨_, _, _, _, rfl⟩, rfl⟩ := h
  rintro ⟨y, hy, hholds⟩
  obtain rfl : { x with phase := .over .failed } = y := by simpa using hy
  simp [Phase.holds] at hholds

/-- Results are stored with the status, and nobody works on what is complete. -/
structure Settled (s : State Report) : Prop where
  clean : Clean s
  idle : ∀ r, s.row = some r → r.status = .completed → ∀ w, ¬s.Holder w
  results : ∀ r, s.row = some r → (r.results.isSome ↔ r.status = .completed)

theorem settled_init (h : (system stale).init s) : Settled s := by
  obtain ⟨_, hrow, hworkers⟩ := h
  constructor
  · intro w x message hx
    simp [hworkers] at hx
  · intro r hr
    simp [hrow] at hr
  · intro r hr
    simp [hrow] at hr

/-- Results are there for exactly the completed rows, in the next row as well. -/
theorem results_after (hs : Settled s) (h : step stale s l t) {r : RunRow Report}
    (hr : t.row = some r) : r.results.isSome ↔ r.status = .completed := by
  cases row_move h with
  | kept l row => exact hs.results r (row ▸ hr)
  | created _ row =>
    obtain rfl := Option.some.inj (row.symm.trans hr)
    simp [RunRow.queued]
  | claimed w before queued row =>
    obtain rfl := Option.some.inj (row.symm.trans hr)
    have hbefore := hs.results _ before
    simp [queued] at hbefore
    simp [RunRow.claim, hbefore]
  | beaten w before row =>
    obtain rfl := Option.some.inj (row.symm.trans hr)
    have hbefore := hs.results _ before
    exact hbefore
  | polled w pct before row =>
    obtain rfl := Option.some.inj (row.symm.trans hr)
    have hbefore := hs.results _ before
    exact hbefore
  | cancelled before row =>
    obtain rfl := Option.some.inj (row.symm.trans hr)
    have hbefore := hs.results _ before
    exact hbefore
  | completed w report _ _ _ row =>
    obtain rfl := Option.some.inj (row.symm.trans hr)
    simp [RunRow.complete]
  | failed w claimed message worker phase before row =>
    obtain rfl := Option.some.inj (row.symm.trans hr)
    -- the worker that fails the run holds it, so the run is not complete
    have hnone := mt (hs.results _ before).mp
      (fun hcompleted => hs.idle _ before hcompleted w (hs.clean.fails worker phase))
    simp [RunRow.fail, hnone]
  | refused message before queued row =>
    obtain rfl := Option.some.inj (row.symm.trans hr)
    have hbefore := hs.results _ before
    simp [queued] at hbefore
    simp [RunRow.fail, hbefore]
  | ended message before running row =>
    obtain rfl := Option.some.inj (row.symm.trans hr)
    have hbefore := hs.results _ before
    simp [running] at hbefore
    simp [RunRow.fail, hbefore]
  | repaired before running _ row =>
    obtain rfl := Option.some.inj (row.symm.trans hr)
    have hbefore := hs.results _ before
    simp [running] at hbefore
    simp [RunRow.fail, hbefore]
  | deleted l row => simp [row] at hr

/-- The worker that completes the run is the last to hold it. -/
theorem idle_after (honce : Once ls s) (hs : Settled s) (h : step stale s l t) {r : RunRow Report}
    (hr : t.row = some r) (hcompleted : r.status = .completed) (w : ℕ) : ¬t.Holder w := by
  intro hw
  rcases holder_after h hw with hbefore | rfl
  · cases row_move h with
    | kept l row => exact hs.idle r (row ▸ hr) hcompleted w hbefore
    | beaten v before row =>
      obtain rfl := Option.some.inj (row.symm.trans hr)
      exact hs.idle _ before hcompleted w hbefore
    | polled v pct before row =>
      obtain rfl := Option.some.inj (row.symm.trans hr)
      exact hs.idle _ before hcompleted w hbefore
    | cancelled before row =>
      obtain rfl := Option.some.inj (row.symm.trans hr)
      exact hs.idle _ before hcompleted w hbefore
    -- the last holder is the worker that completes the run, and it leaves
    | completed v report worker phase _ _ =>
      obtain rfl := honce.single w v hbefore (persists worker phase)
      exact persist_leaves h hw
    | created _ row =>
      obtain rfl := Option.some.inj (row.symm.trans hr)
      simp [RunRow.queued] at hcompleted
    | deleted l row => simp [row] at hr
    | _ =>
      rename_i row
      obtain rfl := Option.some.inj (row.symm.trans hr)
      simp [RunRow.claim, RunRow.fail] at hcompleted
  · obtain ⟨r', _, _, hrow, _⟩ := claim_wins h
    obtain rfl := Option.some.inj (hrow.symm.trans hr)
    simp [RunRow.claim] at hcompleted

theorem settled_after (honce : Once ls s) (hs : Settled s) (hl : Answered l) (h : step stale s l t) :
    Settled t where
  clean := clean_after hs.clean hl h
  idle := fun _ hr hcompleted => idle_after honce hs h hr hcompleted
  results := fun _ hr => results_after hs h hr

/-- The system in which no schema check and no claim raises. -/
def answering (stale : ℤ) : System (State Report) (Action Report) :=
  (system stale).restrict (fun _ l => Answered l)

theorem settled_of_trace (h : (answering stale).Trace ls s) : Once ls s ∧ Settled s := by
  have hstep : ∀ (ls : List (Action Report)) s l t, Once ls s ∧ Settled s →
      (answering stale).step s l t → Once (ls ++ [l]) t ∧ Settled t := by
    intro ls s l t hs hstep
    obtain ⟨hl, hstep⟩ := hstep
    exact ⟨once_step hs.1 hstep, settled_after hs.1 hs.2 hl hstep⟩
  have hinit : ∀ s : State Report, (system stale).init s → Once [] s ∧ Settled s :=
    fun _ hinit => ⟨once_init hinit, settled_init hinit⟩
  exact System.trace_invariant hinit hstep h

theorem final_of_idle (hs : s.Fresh) (hclean : Clean s) (hidle : ∀ w, ¬s.Holder w)
    {r : RunRow Report} (hrow : s.row = some r) (hover : r.Over) : Final r s := by
  have hcreated := created_of_row hs hrow
  refine ⟨⟨hs, ?_, hidle⟩, hclean, hcreated, .inr ⟨r, hrow, rfl⟩⟩
  rintro (hnew | ⟨r', hr', hqueued⟩)
  · simp [hcreated] at hnew
  · obtain rfl := Option.some.inj (hrow.symm.trans hr')
    rcases hover with h | h <;> simp [h] at hqueued

/-- **A completed run stays completed.** Results are stored for exactly the
    completed rows, and what is read of such a row never changes again, until
    the run is deleted. -/
theorem completed_is_final (h : (answering stale).Trace ls s) {r : RunRow Report}
    (hrow : s.row = some r) :
    (r.results.isSome ↔ r.status = .completed) ∧
      (r.status = .completed → ∀ ms t, (answering stale).Run s ms t →
        t.row = none ∨ ∃ r', t.row = some r' ∧ r'.verdict = r.verdict) := by
  obtain ⟨honce, hs⟩ := settled_of_trace h
  refine ⟨hs.results r hrow, ?_⟩
  intro hcompleted ms t hrun
  have hfinal := final_of_idle honce.fresh hs.clean (hs.idle r hrow hcompleted) hrow (.inl hcompleted)
  exact (final_run (fun _ _ hl => hl) (.inl hcompleted) hfinal hrun).row

def completed_row : RunRow ℕ := claimed_row.complete 7

def completed_state : State ℕ := lone 0 (some completed_row) ⟨.over .completed, true, false⟩

def completing_actions : List (Action ℕ) :=
  [.worker 0 .start, .worker 0 (.finish (.completed 7)), .worker 0 (.persist none)]

/-- The engine completes, and its report is stored. -/
theorem lone_completed :
    (system 90).Run (lone 0 (some claimed_row) ⟨.polling, true, false⟩) completing_actions
      completed_state := by
  have hstart : (system 90).step (lone 0 (some claimed_row) ⟨.polling, true, false⟩)
      (.worker 0 .start) (lone 0 (some claimed_row) ⟨.simulating, true, false⟩) :=
    lone_step ⟨rfl, rfl, rfl, rfl⟩
  have hfinish : (system 90).step (lone 0 (some claimed_row) ⟨.simulating, true, false⟩)
      (.worker 0 (.finish (.completed 7)))
      (lone 0 (some claimed_row) ⟨.persisting 7, true, false⟩) :=
    lone_step ⟨rfl, rfl, rfl⟩
  have hpersist : (system 90).step (lone 0 (some claimed_row) ⟨.persisting 7, true, false⟩)
      (.worker 0 (.persist none)) completed_state :=
    lone_step ⟨7, _, rfl, rfl, rfl, rfl⟩
  exact .cons hstart (.cons hfinish (.single hpersist))

theorem sample_completed :
    (completed_row.results.isSome ↔ completed_row.status = .completed) ∧
      (completed_row.status = .completed → ∀ ms t, (answering 90).Run completed_state ms t →
        t.row = none ∨ ∃ r', t.row = some r' ∧ r'.verdict = completed_row.verdict) := by
  have hok : ∀ l ∈ claiming_actions ++ completing_actions, ∀ _ : State ℕ, Answered l := by
    simp [claiming_actions, completing_actions, Answered]
  have hrun := (lone_claimed.trans lone_completed).restrict hok
  exact completed_is_final ⟨blank, ⟨rfl, rfl, rfl⟩, hrun⟩ rfl

/-! ### Beats in time -/

/-- Time passes no faster than the holder beats, and the API ends a run only
    when its worker is gone. -/
def Punctual (stale : ℤ) (s : State Report) : Action Report → Prop
  | .tick d => ∀ w r, s.Holder w → s.row = some r → r.stale_at stale (s.now + d) = false
  | .fail_running _ => ∀ w, ¬s.Holder w
  | _ => True

/-- The system in which moreover the hearts beat in time. -/
def punctual (stale : ℤ) : System (State Report) (Action Report) :=
  (system stale).restrict (fun s l => Answered l ∧ Punctual stale s l)

/-- A run that a worker holds says so, and its beat counts. -/
def Held (stale : ℤ) (s : State Report) : Prop :=
  ∀ w r, s.Holder w → s.row = some r → r.status = .running ∧ r.stale_at stale s.now = false

theorem now_after (h : step stale s l t) : t.now = s.now ∨ ∃ d, l = .tick d ∧ t.now = s.now + d := by
  cases l with
  | tick d =>
    obtain rfl := h
    exact .inr ⟨d, rfl, rfl⟩
  | create => simp [h.2]
  | deliver w => simp [h.2]
  | worker w a =>
    obtain ⟨_, _, _, _, _, rfl⟩ := h
    exact .inl rfl
  | request_cancel => obtain rfl := h; exact .inl rfl
  | delete_unclaimed => obtain rfl := h; exact .inl rfl
  | fail_unclaimed message => obtain rfl := h; exact .inl rfl
  | delete_run => obtain rfl := h; exact .inl rfl
  | fail_running message => obtain rfl := h; exact .inl rfl
  | reconcile => obtain rfl := h; exact .inl rfl

theorem now_same (h : step stale s l t) (hl : ∀ d, l ≠ .tick d) : t.now = s.now := by
  rcases now_after h with hsame | ⟨d, rfl, _⟩
  · exact hsame
  · exact absurd rfl (hl d)

/-- A beat of this moment counts. -/
theorem beats_now (hstale : 0 ≤ stale) {r : RunRow Report} {now : ℤ}
    (hbeat : r.heartbeat_at = some now) : r.stale_at stale now = false := by
  simp only [RunRow.stale_at, hbeat, decide_eq_false_iff_not]
  omega

theorem held_claim (hstale : 0 ≤ stale) {w : ℕ} (h : step stale s (.worker w (.claim true)) t)
    {r : RunRow Report} (hr : t.row = some r) :
    r.status = .running ∧ r.stale_at stale t.now = false := by
  obtain ⟨r', _, _, hrow, _⟩ := claim_wins h
  obtain rfl := Option.some.inj (hrow.symm.trans hr)
  rw [now_same h (by simp)]
  exact ⟨rfl, beats_now hstale rfl⟩

theorem held_after (hstale : 0 ≤ stale) (honce : Once ls s) (hclean : Clean s) (hs : Held stale s)
    (hl : Punctual stale s l) (h : step stale s l t) : Held stale t := by
  intro w r hw hr
  rcases holder_after h hw with hbefore | rfl
  · cases row_move h with
    | kept l row =>
      have hrow : s.row = some r := row ▸ hr
      obtain ⟨hrunning, hfresh⟩ := hs w r hbefore hrow
      rcases now_after h with hsame | ⟨d, rfl, hlater⟩
      · exact ⟨hrunning, hsame ▸ hfresh⟩
      · exact ⟨hrunning, hlater ▸ hl w r hbefore hrow⟩
    | created hnew _ => exact absurd hbefore ((honce.claimable (.inl hnew)).1 w)
    | claimed v before queued _ =>
      exact absurd hbefore ((honce.claimable (.inr ⟨_, before, queued⟩)).1 w)
    | beaten v before row =>
      obtain rfl := Option.some.inj (row.symm.trans hr)
      rw [now_same h (by simp)]
      exact ⟨(hs w _ hbefore before).1, beats_now hstale rfl⟩
    | polled v pct before row =>
      obtain rfl := Option.some.inj (row.symm.trans hr)
      rw [now_same h (by simp)]
      have hrunning := hs w _ hbefore before
      exact hrunning
    | cancelled before row =>
      obtain rfl := Option.some.inj (row.symm.trans hr)
      rw [now_same h (by simp)]
      have hrunning := hs w _ hbefore before
      exact hrunning
    -- a worker that writes a verdict is the holder, and leaves
    | completed v report worker phase _ _ =>
      obtain rfl := honce.single w v hbefore (persists worker phase)
      exact absurd hw (persist_leaves h)
    | failed v claimed message worker phase _ _ =>
      obtain rfl := honce.single w v hbefore (hclean.fails worker phase)
      exact absurd hw (fail_leaves h)
    | refused message before queued _ =>
      exact absurd hbefore ((honce.claimable (.inr ⟨_, before, queued⟩)).1 w)
    | ended message _ _ _ => exact absurd hbefore (hl w)
    -- the repair finds an old beat, and the holder's is not
    | repaired before _ old _ =>
      have hfresh := (hs w _ hbefore before).2
      simp [old] at hfresh
    | deleted l row => simp [row] at hr
  · exact held_claim hstale h hr

theorem held_of_trace (hstale : 0 ≤ stale) (h : (punctual stale).Trace ls s) :
    Once ls s ∧ Clean s ∧ Held stale s := by
  have hinit : ∀ s : State Report, (system stale).init s → Once [] s ∧ Clean s ∧ Held stale s := by
    intro s hinit
    have honce := once_init hinit
    refine ⟨honce, (settled_init hinit).clean, ?_⟩
    intro w r hw
    exact absurd hw ((honce.claimable (.inl hinit.1)).1 w)
  have hstep : ∀ (ls : List (Action Report)) s l t, Once ls s ∧ Clean s ∧ Held stale s →
      (punctual stale).step s l t → Once (ls ++ [l]) t ∧ Clean t ∧ Held stale t := by
    intro ls s l t hs hstep
    obtain ⟨⟨hl, htime⟩, hstep⟩ := hstep
    exact ⟨once_step hs.1 hstep, clean_after hs.2.1 hl hstep,
      held_after hstale hs.1 hs.2.1 hs.2.2 htime hstep⟩
  exact System.trace_invariant hinit hstep h

/-- **Every verdict is final while the hearts beat in time.** A run that a
    worker holds reads running, whatever a startup repairs meanwhile, and once
    it reads completed or failed this never changes, until it is deleted. -/
theorem terminal_is_final (hstale : 0 ≤ stale) (h : (punctual stale).Trace ls s)
    {r : RunRow Report} (hrow : s.row = some r) :
    (∀ w, s.Holder w → r.status = .running) ∧
      (r.Over → ∀ ms t, (punctual stale).Run s ms t →
        t.row = none ∨ ∃ r', t.row = some r' ∧ r'.verdict = r.verdict) := by
  obtain ⟨honce, hclean, hheld⟩ := held_of_trace hstale h
  refine ⟨fun w hw => (hheld w r hw hrow).1, ?_⟩
  intro hover ms t hrun
  have hidle : ∀ w, ¬s.Holder w := by
    intro w hw
    have hrunning := (hheld w r hw hrow).1
    rcases hover with h | h <;> simp [h] at hrunning
  have hfinal := final_of_idle honce.fresh hclean hidle hrow hover
  exact (final_run (fun _ _ hl => hl.1) hover hfinal hrun).row

def failed_row : RunRow ℕ := claimed_row.fail (failure_text "LookupError: no bars")

def failed_state : State ℕ := lone 0 (some failed_row) ⟨.over .failed, true, false⟩

def failing_actions : List (Action ℕ) :=
  [.worker 0 (.raise "LookupError: no bars"), .worker 0 (.fail true)]

/-- The set-up of the engine raises. -/
theorem lone_failed :
    (system 90).Run (lone 0 (some claimed_row) ⟨.polling, true, false⟩) failing_actions
      failed_state := by
  have hraise : (system 90).step (lone 0 (some claimed_row) ⟨.polling, true, false⟩)
      (.worker 0 (.raise "LookupError: no bars"))
      (lone 0 (some claimed_row) ⟨.failing true "LookupError: no bars", true, false⟩) :=
    lone_step ⟨rfl, rfl, rfl⟩
  have hfail : (system 90).step
      (lone 0 (some claimed_row) ⟨.failing true "LookupError: no bars", true, false⟩)
      (.worker 0 (.fail true)) failed_state :=
    lone_step ⟨true, _, rfl, rfl, rfl⟩
  exact .cons hraise (.single hfail)

theorem sample_terminal :
    (∀ w, failed_state.Holder w → failed_row.status = .running) ∧
      (failed_row.Over → ∀ ms t, (punctual 90).Run failed_state ms t →
        t.row = none ∨ ∃ r', t.row = some r' ∧ r'.verdict = failed_row.verdict) := by
  have hok : ∀ l ∈ claiming_actions ++ failing_actions, ∀ s : State ℕ,
      Answered l ∧ Punctual 90 s l := by
    simp [claiming_actions, failing_actions, Answered, Punctual]
  have hrun := (lone_claimed.trans lone_failed).restrict hok
  exact terminal_is_final (by decide) ⟨blank, ⟨rfl, rfl, rfl⟩, hrun⟩ rfl

/-! ### A run whose worker is gone -/

/-- Nobody works on the run and nobody beats. -/
def Abandoned (s : State Report) : Prop :=
  ∀ w x, s.workers w = some x → x.phase.holds = false ∧ x.beating = false

theorem Abandoned.idle (hs : Abandoned s) (w : ℕ) : ¬s.Holder w := by
  rintro ⟨x, hx, hholds⟩
  simp [(hs w x hx).1] at hholds

/-- Only a worker that holds the run begins to beat. -/
theorem work_beats {now : ℤ} {x x' : Worker Report} {row row' : Option (RunRow Report)}
    {a : WorkerAction Report} (h : work now x row x' row' a) (hx' : x'.beating = true) :
    x.beating = true ∨ x.phase.holds = true := by
  cases a with
  | claim won =>
    cases won with
    | true =>
      obtain ⟨_, _, _, _, _, rfl⟩ := h
      exact .inl hx'
    | false =>
      obtain ⟨_, _, _, rfl⟩ := h
      exact .inl hx'
  | break_down exc =>
    obtain ⟨_, _, rfl⟩ := h
    exact .inl hx'
  | raise exc => exact .inr (Phase.holds_of_polls h.1)
  | load exc => cases exc <;> simp [work] at h <;> simp [h.1, Phase.holds]
  | beat => exact .inl h.1
  | poll pct => exact .inr (Phase.holds_of_polls h.1)
  | start => simp [h.1, Phase.holds]
  | stop_early => simp [h.1, Phase.holds]
  | finish result => simp [h.1, Phase.holds]
  | persist exc =>
    cases exc with
    | none =>
      obtain ⟨_, _, hphase, _⟩ := h
      simp [hphase, Phase.holds]
    | some exc =>
      obtain ⟨_, hphase, _⟩ := h
      simp [hphase, Phase.holds]
  | fail written =>
    obtain ⟨_, _, _, _, rfl⟩ := h
    exact .inl hx'
  | rest => simp [h.2.2] at hx'
  | crash => simp [h.2] at hx'

theorem beat_beats {w : ℕ} (h : step stale s (.worker w .beat) t) :
    ∃ x, s.workers w = some x ∧ x.beating = true := by
  obtain ⟨x, _, _, hx, ⟨hbeating, _⟩, _⟩ := h
  exact ⟨x, hx, hbeating⟩

theorem abandoned_after (hclosed : Closed s) (hs : Abandoned s) (h : step stale s l t) :
    Abandoned t := by
  intro w y hy
  rcases worker_after h hy with ⟨hy, _⟩ | ⟨rfl, _⟩ | ⟨a, x, row', rfl, hx, hwork⟩
  · exact hs w y hy
  · exact ⟨rfl, rfl⟩
  · obtain ⟨hholds, hbeating⟩ := hs w x hx
    constructor
    · by_contra hnow
      rcases work_holds hwork (by simpa using hnow) with hbefore | rfl
      · simp [hholds] at hbefore
      · exact hclosed.not_wins h rfl
    · by_contra hnow
      rcases work_beats hwork (by simpa using hnow) with hbefore | hbefore
      · simp [hbeating] at hbefore
      · simp [hholds] at hbefore

/-- A beat is written with the time of its step. -/
theorem heartbeat_after (h : step stale s l t) {r : RunRow Report} (hr : t.row = some r) {b : ℤ}
    (hb : r.heartbeat_at = some b) :
    b = s.now ∨ ∃ r', s.row = some r' ∧ r'.heartbeat_at = some b := by
  cases row_move h with
  | kept l row => exact .inr ⟨r, row ▸ hr, hb⟩
  | created _ row =>
    obtain rfl := Option.some.inj (row.symm.trans hr)
    simp [RunRow.queued] at hb
  | claimed w before _ row =>
    obtain rfl := Option.some.inj (row.symm.trans hr)
    exact .inl (Option.some.inj hb).symm
  | beaten w before row =>
    obtain rfl := Option.some.inj (row.symm.trans hr)
    exact .inl (Option.some.inj hb).symm
  | polled w pct before row =>
    obtain rfl := Option.some.inj (row.symm.trans hr)
    exact .inr ⟨_, before, hb⟩
  | cancelled before row =>
    obtain rfl := Option.some.inj (row.symm.trans hr)
    exact .inr ⟨_, before, hb⟩
  | completed w report _ _ before row =>
    obtain rfl := Option.some.inj (row.symm.trans hr)
    exact .inr ⟨_, before, hb⟩
  | failed w claimed message _ _ before row =>
    obtain rfl := Option.some.inj (row.symm.trans hr)
    exact .inr ⟨_, before, hb⟩
  | refused message before _ row =>
    obtain rfl := Option.some.inj (row.symm.trans hr)
    exact .inr ⟨_, before, hb⟩
  | ended message before _ row =>
    obtain rfl := Option.some.inj (row.symm.trans hr)
    exact .inr ⟨_, before, hb⟩
  | repaired before _ _ row =>
    obtain rfl := Option.some.inj (row.symm.trans hr)
    exact .inr ⟨_, before, hb⟩
  | deleted l row => simp [row] at hr

/-- No beat is in the future. -/
def PastBeats (s : State Report) : Prop :=
  ∀ r b, s.row = some r → r.heartbeat_at = some b → b ≤ s.now

theorem past_beats (h : (system stale).Trace ls s) : PastBeats s := by
  have hinit : ∀ s : State Report, (system stale).init s → PastBeats s := by
    intro s hinit r b hr
    simp [hinit.2.1] at hr
  have hstep : ∀ (s : State Report) l t, PastBeats s → (system stale).step s l t → PastBeats t := by
    intro s l t hs hstep r b hr hb
    have hnow : s.now ≤ t.now := by
      rcases now_after hstep with hsame | ⟨d, _, hlater⟩
      · omega
      · omega
    rcases heartbeat_after hstep hr hb with rfl | ⟨r', hr', hb'⟩
    · exact hnow
    · exact (hs r' b hr' hb').trans hnow
  exact System.invariant hinit hstep h

/-- The last beat was no later than `since`, and nobody will beat again. -/
structure Left (since : ℤ) (s : State Report) : Prop where
  closed : Closed s
  abandoned : Abandoned s
  row : ∀ r, s.row = some r → r.status = .failed ∨
    (r.status = .running ∧ ∀ b, r.heartbeat_at = some b → b ≤ since)

theorem left_after {since : ℤ} (hs : Left since s) (h : step stale s l t) : Left since t := by
  refine ⟨closed_after hs.closed h, abandoned_after hs.closed hs.abandoned h, ?_⟩
  intro r hr
  cases row_move h with
  | kept l row => exact hs.row r (row ▸ hr)
  | created hnew _ => exact absurd (.inl hnew) hs.closed.claimable
  | claimed w before queued _ => exact absurd (.inr ⟨_, before, queued⟩) hs.closed.claimable
  | beaten w _ _ =>
    obtain ⟨x, hx, hbeating⟩ := beat_beats h
    simp [(hs.abandoned w x hx).2] at hbeating
  | polled w pct before row =>
    obtain rfl := Option.some.inj (row.symm.trans hr)
    have hbefore := hs.row _ before
    exact hbefore
  | cancelled before row =>
    obtain rfl := Option.some.inj (row.symm.trans hr)
    have hbefore := hs.row _ before
    exact hbefore
  | completed w report worker phase _ _ =>
    exact absurd (persists worker phase) (hs.closed.idle w)
  | deleted l row => simp [row] at hr
  -- the other updates write `failed`
  | _ =>
    rename_i row
    obtain rfl := Option.some.inj (row.symm.trans hr)
    exact .inl rfl

theorem left_run {since : ℤ} (hs : Left since s) (h : (system stale).Run s ms t) : Left since t :=
  System.Run.preserves (P := Left since) (fun _ _ _ hstep hs => left_after hs hstep) hs h

/-- **The startup repair ends what nobody works on.** A running row that all
    its workers have left reads failed, or is gone, after the first repair
    that comes more than `stale` later, whatever happens in between. -/
theorem abandoned_run_ends (h : (system stale).Trace ls s) (hleft : Abandoned s)
    {r : RunRow Report} (hrow : s.row = some r) (hrunning : r.status = .running)
    (hrun : (system stale).Run s ms t) (hlate : s.now + stale < t.now)
    (hstep : step stale t .reconcile u) :
    u.row = none ∨ ∃ r', u.row = some r' ∧ r'.status = .failed := by
  have hfresh := (once_of_trace h).fresh
  have hclosed : Closed s := by
    refine ⟨hfresh, ?_, hleft.idle⟩
    rintro (hnew | ⟨r', hr', hqueued⟩)
    · simp [created_of_row hfresh hrow] at hnew
    · obtain rfl := Option.some.inj (hrow.symm.trans hr')
      simp [hrunning] at hqueued
  have hbeats : ∀ r', s.row = some r' → r'.status = .failed ∨
      (r'.status = .running ∧ ∀ b, r'.heartbeat_at = some b → b ≤ s.now) := by
    intro r' hr'
    obtain rfl := Option.some.inj (hrow.symm.trans hr')
    exact .inr ⟨hrunning, fun b hb => past_beats h r b hrow hb⟩
  have hafter := left_run ⟨hclosed, hleft, hbeats⟩ hrun
  obtain rfl := hstep
  cases hnow : t.row with
  | none => exact .inl rfl
  | some r' =>
    refine .inr ⟨r'.reconcile stale t.now, rfl, ?_⟩
    rcases hafter.row r' hnow with hfailed | ⟨hstill, hold⟩
    · simp [RunRow.reconcile, hfailed]
    · have hgone : r'.stale_at stale t.now = true := by
        cases hbeat : r'.heartbeat_at with
        | none => simp [RunRow.stale_at, hbeat]
        | some b =>
          have hb := hold b hbeat
          simp only [RunRow.stale_at, hbeat, decide_eq_true_eq]
          omega
      simp [RunRow.reconcile, hstill, hgone, RunRow.fail]

/-- The worker is taken away; a startup 100 seconds later ends the run. -/
theorem sample_abandoned :
    (lone 100 (some (claimed_row.reconcile 90 100)) ⟨.dead, false, false⟩).row = none ∨
      ∃ r', (lone 100 (some (claimed_row.reconcile 90 100)) ⟨.dead, false, false⟩).row = some r' ∧
        r'.status = .failed := by
  have hcrash : (system 90).step (lone 0 (some claimed_row) ⟨.polling, true, false⟩)
      (.worker 0 .crash) (lone 0 (some claimed_row) ⟨.dead, false, false⟩) :=
    lone_step ⟨rfl, rfl⟩
  have hleft : Abandoned (lone 0 (some claimed_row) ⟨.dead, false, false⟩) := by
    intro w x hx
    by_cases hw : w = 0
    · obtain rfl : ⟨.dead, false, false⟩ = x := by simpa [lone, hw] using hx
      exact ⟨rfl, rfl⟩
    · simp [lone, hw] at hx
  have htick : (system 90).step (lone 0 (some claimed_row) ⟨.dead, false, false⟩) (.tick 100)
      (lone 100 (some claimed_row) ⟨.dead, false, false⟩) := rfl
  have hrepair : step 90 (lone 100 (some claimed_row) ⟨.dead, false, false⟩) .reconcile
      (lone 100 (some (claimed_row.reconcile 90 100)) ⟨.dead, false, false⟩) := rfl
  exact abandoned_run_ends (lone_trace (.snoc lone_claimed hcrash)) hleft rfl rfl (.single htick)
    (by decide) hrepair

end RunTable
