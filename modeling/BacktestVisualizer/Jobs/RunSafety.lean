import BacktestVisualizer.Jobs.RunTable

/-! # What the Run Table Keeps Apart

  The predicates of the updates are the whole concurrency design of
  `run_job`. However workers, requests, restarts and crashes interleave,
  they give a run to one worker at most, and so to the engine once at most,
  and not at all once it is taken back.
-/

open LTS

namespace RunTable

open Jobs (Status truncated cancelled_message)

variable {Report : Type} {stale : ℤ} {s t u : State Report} {l : Action Report}
  {ls ms : List (Action Report)}

/-! ### One claim -/

/-- A worker may still win the run, now or once it is created. -/
def State.Claimable (s : State Report) : Prop :=
  s.created = false ∨ ∃ r, s.row = some r ∧ r.status = .queued

theorem created_after (h : step stale s l t) (hs : s.created = true) : t.created = true := by
  cases l with
  | create => simp [h.2]
  | deliver w => simp [h.2, hs]
  | worker w a =>
    obtain ⟨_, _, _, _, _, rfl⟩ := h
    exact hs
  | request_cancel => obtain rfl := h; exact hs
  | delete_unclaimed => obtain rfl := h; exact hs
  | fail_unclaimed message => obtain rfl := h; exact hs
  | delete_run => obtain rfl := h; exact hs
  | fail_running message => obtain rfl := h; exact hs
  | reconcile => obtain rfl := h; exact hs
  | tick d => obtain rfl := h; exact hs

theorem created_before (h : step stale s l t) (ht : t.created = false) : s.created = false := by
  by_contra hs
  have hcreated := created_after h (by simpa using hs)
  simp [ht] at hcreated

/-- Before it is created the run has no row. -/
def State.Fresh (s : State Report) : Prop := s.created = false → s.row = none

theorem fresh_after (h : step stale s l t) (hs : s.Fresh) : t.Fresh := by
  intro ht
  have hrow : s.row = none := hs (created_before h ht)
  cases row_move h with
  | kept l row => rw [row, hrow]
  | created _ _ =>
    obtain ⟨_, rfl⟩ := h
    simp at ht
  | deleted l row => exact row
  | _ => simp_all

/-- Only a run that could be claimed can be claimed afterwards. -/
theorem claimable_after (h : step stale s l t) (ht : t.Claimable) : s.Claimable := by
  rcases ht with ht | ⟨r', hr', hqueued⟩
  · exact .inl (created_before h ht)
  · cases row_move h with
    | kept l row => exact .inr ⟨r', row ▸ hr', hqueued⟩
    | created hnew _ => exact .inl hnew
    | beaten w before row =>
      obtain rfl := Option.some.inj (row.symm.trans hr')
      exact .inr ⟨_, before, hqueued⟩
    | polled w pct before row =>
      obtain rfl := Option.some.inj (row.symm.trans hr')
      exact .inr ⟨_, before, hqueued⟩
    | cancelled before row =>
      obtain rfl := Option.some.inj (row.symm.trans hr')
      exact .inr ⟨_, before, hqueued⟩
    | deleted l row => simp [row] at hr'
    -- the other updates leave the row running, completed or failed
    | _ =>
      rename_i row
      obtain rfl := Option.some.inj (row.symm.trans hr')
      simp [RunRow.claim, RunRow.complete, RunRow.fail] at hqueued

theorem claim_wins {w : ℕ} (h : step stale s (.worker w (.claim true)) t) :
    ∃ r, s.row = some r ∧ r.status = .queued ∧ t.row = some (r.claim s.now) ∧
      t.created = s.created := by
  obtain ⟨x, x', row', _, ⟨_, r, hrow, hqueued, rfl, _⟩, rfl⟩ := h
  exact ⟨r, hrow, hqueued, rfl, rfl⟩

theorem claim_closes {w : ℕ} (h : step stale s (.worker w (.claim true)) t) (hs : s.Fresh) :
    s.Claimable ∧ ¬t.Claimable := by
  obtain ⟨r, hrow, hqueued, hrow', hcreated⟩ := claim_wins h
  refine ⟨.inr ⟨r, hrow, hqueued⟩, ?_⟩
  rintro (hnew | ⟨r', hr', hqueued'⟩)
  · have hnone := hs (hcreated ▸ hnew)
    simp [hrow] at hnone
  · obtain rfl := Option.some.inj (hrow'.symm.trans hr')
    simp [RunRow.claim] at hqueued'

/-- A worker calls `run_single`. -/
def Action.starts : Action Report → Bool
  | .worker _ .start => true
  | _ => false

/-- A claim with a row count of 1. -/
def Action.wins : Action Report → Bool
  | .worker _ (.claim true) => true
  | _ => false

theorem Action.wins_iff : l.wins = true ↔ ∃ w, l = .worker w (.claim true) := by
  constructor
  · intro h
    unfold Action.wins at h
    split at h
    · exact ⟨_, rfl⟩
    · simp at h
  · rintro ⟨w, rfl⟩
    rfl

theorem Action.starts_iff : l.starts = true ↔ ∃ w, l = .worker w .start := by
  constructor
  · intro h
    unfold Action.starts at h
    split at h
    · exact ⟨_, rfl⟩
    · simp at h
  · rintro ⟨w, rfl⟩
    rfl

theorem start_ready {w : ℕ} (h : step stale s (.worker w .start) t) : s.Ready w := by
  obtain ⟨x, x', row', hx, ⟨hphase, _⟩, rfl⟩ := h
  exact ⟨x, hx, by simp [hphase, Phase.ready]⟩

/-- The labels so far against the state they led to. -/
structure Once (ls : List (Action Report)) (s : State Report) : Prop where
  fresh : s.Fresh
  claimable : s.Claimable → (∀ w, ¬s.Holder w) ∧ ls.countP Action.wins = 0
  held : ∀ w, s.Holder w → ls.countP Action.wins = 1
  single : ∀ v w, s.Holder v → s.Holder w → v = w
  ready : ∀ w, s.Ready w → ls.countP Action.starts = 0
  claimed : ls.countP Action.wins ≤ 1
  started : ls.countP Action.starts ≤ ls.countP Action.wins

theorem once_init (h : (system stale).init s) : Once [] s := by
  obtain ⟨hnew, hrow, hworkers⟩ := h
  have hidle : ∀ w, ¬s.Holder w := by
    rintro w ⟨x, hx, _⟩
    simp [hworkers] at hx
  constructor
  · exact fun _ => hrow
  · exact fun _ => ⟨hidle, rfl⟩
  · exact fun w hw => absurd hw (hidle w)
  · exact fun v w hv => absurd hv (hidle v)
  · exact fun w hw => absurd hw.holder (hidle w)
  · simp
  · simp

/-- The claim that wins finds no other worker at the run. -/
theorem once_claim {w : ℕ} (hs : Once ls s) (h : step stale s (.worker w (.claim true)) t) :
    Once (ls ++ [.worker w (.claim true)]) t := by
  obtain ⟨hopen, hclosed⟩ := claim_closes h hs.fresh
  obtain ⟨hidle, hwins⟩ := hs.claimable hopen
  have hstarts : ls.countP Action.starts = 0 := by
    have := hs.started
    omega
  have hone : (ls ++ [Action.worker w (.claim true)]).countP Action.wins = 1 := by
    simp [hwins, Action.wins]
  have hsame : (ls ++ [Action.worker w (.claim true)]).countP Action.starts = 0 := by
    simp [hstarts, Action.starts]
  have hholder : ∀ v, t.Holder v → v = w := by
    intro v hv
    rcases holder_after h hv with hbefore | heq
    · exact absurd hbefore (hidle v)
    · simpa using heq.symm
  constructor
  · exact fresh_after h hs.fresh
  · exact fun ht => absurd ht hclosed
  · exact fun _ _ => hone
  · exact fun v v' hv hv' => (hholder v hv).trans (hholder v' hv').symm
  · exact fun _ _ => hsame
  · omega
  · omega

theorem once_step (hs : Once ls s) (h : step stale s l t) : Once (ls ++ [l]) t := by
  by_cases hwins : l.wins = true
  · obtain ⟨w, rfl⟩ := Action.wins_iff.mp hwins
    exact once_claim hs h
  have hother : ∀ w, l ≠ .worker w (.claim true) := fun w hl => hwins (Action.wins_iff.mpr ⟨w, hl⟩)
  have hwon : (ls ++ [l]).countP Action.wins = ls.countP Action.wins := by
    simp [hwins]
  have hholder : ∀ v, t.Holder v → s.Holder v := fun v hv =>
    (holder_after h hv).resolve_right (hother v)
  have hready : ∀ v, t.Ready v → s.Ready v ∧ l ≠ .worker v .start := fun v hv =>
    (ready_after h hv).resolve_right (hother v)
  have hopen : t.Claimable → (∀ w, ¬t.Holder w) ∧ (ls ++ [l]).countP Action.wins = 0 := by
    intro ht
    obtain ⟨hidle, hzero⟩ := hs.claimable (claimable_after h ht)
    exact ⟨fun w hw => hidle w (hholder w hw), by rw [hwon, hzero]⟩
  by_cases hstart : l.starts = true
  · -- the worker was before the engine, so the engine has not been called
    obtain ⟨w, rfl⟩ := Action.starts_iff.mp hstart
    have hbefore := start_ready h
    have hzero := hs.ready w hbefore
    have hone := hs.held w hbefore.holder
    have hnow : (ls ++ [Action.worker w .start]).countP Action.starts = 1 := by
      simp [hzero, Action.starts]
    refine ⟨fresh_after h hs.fresh, hopen, fun v hv => hwon.trans (hs.held v (hholder v hv)),
      fun v v' hv hv' => hs.single v v' (hholder v hv) (hholder v' hv'), ?_, by omega, by omega⟩
    intro v hv
    obtain ⟨hv, hne⟩ := hready v hv
    obtain rfl := hs.single v w hv.holder hbefore.holder
    exact absurd rfl hne
  · have hsame : (ls ++ [l]).countP Action.starts = ls.countP Action.starts := by
      simp [hstart]
    have hclaimed := hs.claimed
    have hstarted := hs.started
    exact ⟨fresh_after h hs.fresh, hopen, fun v hv => hwon.trans (hs.held v (hholder v hv)),
      fun v v' hv hv' => hs.single v v' (hholder v hv) (hholder v' hv'),
      fun v hv => hsame.trans (hs.ready v (hready v hv).1), by omega, by omega⟩

theorem once_of_trace (h : (system stale).Trace ls s) : Once ls s :=
  System.trace_invariant (fun _ => once_init) (fun _ _ _ _ => once_step) h

/-- Who is about to call the engine, or has called it, has won the run. -/
structure Earned (ls : List (Action Report)) (s : State Report) : Prop where
  ready : ∀ w, s.Ready w → .worker w (.claim true) ∈ ls
  started : ∀ w, .worker w .start ∈ ls → .worker w (.claim true) ∈ ls

theorem earned_init (h : (system stale).init s) : Earned [] s where
  ready := by
    obtain ⟨_, _, hworkers⟩ := h
    rintro w ⟨x, hx, _⟩
    simp [hworkers] at hx
  started := fun _ hw => absurd hw List.not_mem_nil

theorem earned_step (hs : Earned ls s) (h : step stale s l t) : Earned (ls ++ [l]) t where
  ready := by
    intro w hw
    rcases ready_after h hw with ⟨hbefore, _⟩ | rfl
    · exact List.mem_append_left _ (hs.ready w hbefore)
    · exact List.mem_append_right _ List.mem_cons_self
  started := by
    intro w hw
    rcases List.mem_append.mp hw with hbefore | hnow
    · exact List.mem_append_left _ (hs.started w hbefore)
    · -- a worker that calls the engine was ready to
      obtain rfl := List.mem_singleton.mp hnow
      exact List.mem_append_left _ (hs.ready w (start_ready h))

theorem earned_of_trace (h : (system stale).Trace ls s) : Earned ls s :=
  System.trace_invariant (fun _ => earned_init) (fun _ _ _ _ => earned_step) h

/-- **A run is executed at most once**, whatever is delivered again: one
    claim wins, and the engine is called by its worker only. -/
theorem executed_at_most_once (h : (system stale).Trace ls s) :
    ls.countP Action.starts ≤ ls.countP Action.wins ∧ ls.countP Action.wins ≤ 1 ∧
      (∀ w, .worker w .start ∈ ls → .worker w (.claim true) ∈ ls) ∧
      ∀ v w, s.Holder v → s.Holder w → v = w := by
  have honce := once_of_trace h
  exact ⟨honce.started, honce.claimed, (earned_of_trace h).started, honce.single⟩

/-! ### A lone worker -/

/-- The run with worker 0 alone at it. -/
def lone (now : ℤ) (row : Option (RunRow ℕ)) (x : Worker ℕ) : State ℕ where
  now := now
  created := true
  row := row
  workers := set_worker (fun _ => none) 0 x

def blank : State ℕ where
  now := 0
  created := false
  row := none
  workers := fun _ => none

def claimed_row : RunRow ℕ := RunRow.queued.claim 0

theorem lone_step {now : ℤ} {row row' : Option (RunRow ℕ)} {x x' : Worker ℕ} {a : WorkerAction ℕ}
    (h : work now x row x' row' a) :
    (system stale).step (lone now row x) (.worker 0 a) (lone now row' x') := by
  refine ⟨x, x', row', by simp [lone], h, ?_⟩
  simp [lone, set_worker_twice]

/-- The run is created, and its id handed to the worker. -/
theorem lone_queued : (system 90).Run blank [.create, .deliver 0] (lone 0 (some .queued) .started) := by
  have hcreate : (system 90).step blank .create { blank with created := true, row := some .queued } :=
    ⟨rfl, rfl⟩
  have hdeliver : (system 90).step { blank with created := true, row := some .queued } (.deliver 0)
      (lone 0 (some .queued) .started) := ⟨rfl, rfl⟩
  exact .cons hcreate (.single hdeliver)

def claiming_actions : List (Action ℕ) :=
  [.create, .deliver 0, .worker 0 (.claim true), .worker 0 (.load none)]

/-- The worker claims the run, loads it and beats. -/
theorem lone_claimed :
    (system 90).Run blank claiming_actions
      (lone 0 (some claimed_row) ⟨.polling, true, false⟩) := by
  have hclaim : (system 90).step (lone 0 (some .queued) .started) (.worker 0 (.claim true))
      (lone 0 (some claimed_row) ⟨.loading, false, false⟩) :=
    lone_step ⟨rfl, _, rfl, rfl, rfl, rfl⟩
  have hload : (system 90).step (lone 0 (some claimed_row) ⟨.loading, false, false⟩)
      (.worker 0 (.load none)) (lone 0 (some claimed_row) ⟨.polling, true, false⟩) :=
    lone_step ⟨rfl, rfl, rfl⟩
  exact lone_queued.trans (.cons hclaim (.single hload))

theorem lone_trace {ls : List (Action ℕ)} {s : State ℕ} (h : (system 90).Run blank ls s) :
    (system 90).Trace ls s :=
  ⟨blank, ⟨rfl, rfl, rfl⟩, h⟩

/-- The worker calls the engine. -/
def started_actions : List (Action ℕ) := claiming_actions ++ [.worker 0 .start]

def started_state : State ℕ := lone 0 (some claimed_row) ⟨.simulating, true, false⟩

theorem sample_executed_once :
    started_actions.countP Action.starts ≤ started_actions.countP Action.wins ∧
      started_actions.countP Action.wins ≤ 1 ∧
      (∀ w, .worker w .start ∈ started_actions → .worker w (.claim true) ∈ started_actions) ∧
      ∀ v w, started_state.Holder v → started_state.Holder w → v = w := by
  have hstart : (system 90).step (lone 0 (some claimed_row) ⟨.polling, true, false⟩)
      (.worker 0 .start) started_state := lone_step ⟨rfl, rfl, rfl, rfl⟩
  exact executed_at_most_once (lone_trace (.snoc lone_claimed hstart))

/-! ### A run that is taken back -/

/-- The updates that the claim excludes. -/
def Action.withdraws : Action Report → Prop
  | .delete_unclaimed => True
  | .fail_unclaimed _ => True
  | .delete_run => True
  | _ => False

/-- Nobody has the run, and nobody can claim it. -/
structure Closed (s : State Report) : Prop where
  fresh : s.Fresh
  claimable : ¬s.Claimable
  idle : ∀ w, ¬s.Holder w

theorem Closed.not_wins (hs : Closed s) (h : step stale s l t) {w : ℕ} : l ≠ .worker w (.claim true) := by
  rintro rfl
  exact hs.claimable (claim_closes h hs.fresh).1

theorem closed_after (hs : Closed s) (h : step stale s l t) : Closed t where
  fresh := fresh_after h hs.fresh
  claimable := fun ht => hs.claimable (claimable_after h ht)
  idle := fun w hw => hs.idle w ((holder_after h hw).resolve_right (hs.not_wins h))

theorem Closed.not_starts (hs : Closed s) (h : step stale s l t) : l.starts = false := by
  by_contra hstart
  obtain ⟨w, rfl⟩ := Action.starts_iff.mp (by simpa using hstart)
  exact hs.idle w (start_ready h).holder

theorem closed_run (hs : Closed s) (h : (system stale).Run s ms t) :
    Closed t ∧ ms.countP Action.starts = 0 := by
  induction h with
  | refl => exact ⟨hs, rfl⟩
  | snoc _ hstep ih =>
    obtain ⟨hclosed, hzero⟩ := ih
    refine ⟨closed_after hclosed hstep, ?_⟩
    simp [hzero, hclosed.not_starts hstep]

theorem created_of_row (hs : s.Fresh) {r : RunRow Report} (hrow : s.row = some r) : s.created = true := by
  by_contra hnew
  have hnone := hs (by simpa using hnew)
  simp [hrow] at hnone

/-- A run that is queued before one of these updates is not claimable after it. -/
theorem withdrawn (hs : Once ls s) {r : RunRow Report} (hrow : s.row = some r)
    (hqueued : r.status = .queued) (hl : l.withdraws) (h : step stale s l t) : Closed t := by
  have hidle := (hs.claimable (.inr ⟨r, hrow, hqueued⟩)).1
  have hnow := created_after h (created_of_row hs.fresh hrow)
  have hother : ∀ w, l ≠ .worker w (.claim true) := by
    rintro w rfl
    exact hl
  refine ⟨fresh_after h hs.fresh, ?_, fun w hw => hidle w ((holder_after h hw).resolve_right (hother w))⟩
  rintro (hnew | ⟨r', hr', hqueued'⟩)
  · simp [hnow] at hnew
  · cases l with
    | delete_unclaimed =>
      obtain rfl := h
      have hkept : r = r' ∧ ¬r'.status = .queued := by simpa [hrow] using hr'
      exact hkept.2 hqueued'
    | fail_unclaimed message =>
      obtain rfl := h
      obtain rfl : (r.fail_if .queued (truncated message)) = r' := by simpa [hrow] using hr'
      simp [RunRow.fail_if, hqueued, RunRow.fail] at hqueued'
    | delete_run =>
      obtain rfl := h
      simp at hr'
    | _ => exact hl

/-- **A run that was deleted or refused while it was queued is never
    executed**, neither before nor after, by a worker that has the id already
    or by one that gets it later. -/
theorem withdrawn_never_runs (h : (system stale).Trace ls s) {r : RunRow Report} (hrow : s.row = some r)
    (hqueued : r.status = .queued) (hl : l.withdraws) (hstep : step stale s l t)
    (hrun : (system stale).Run t ms u) :
    (ls ++ l :: ms).countP Action.starts = 0 := by
  have honce := once_of_trace h
  have hbefore : ls.countP Action.starts = 0 := by
    have hwins := (honce.claimable (.inr ⟨r, hrow, hqueued⟩)).2
    have hstarted := honce.started
    omega
  have hafter := (closed_run (withdrawn honce hrow hqueued hl hstep) hrun).2
  have hself : l.starts = false := by
    cases l with
    | worker w a => exact absurd hl id
    | _ => rfl
  simp [hbefore, hafter, hself]

/-- The run is deleted before its worker claims it. -/
theorem sample_withdrawn :
    ([.create, .deliver 0, .delete_unclaimed, .worker 0 (.claim false)] : List (Action ℕ)).countP
      Action.starts = 0 := by
  have hdelete : step 90 (lone 0 (some .queued) .started) .delete_unclaimed
      (lone 0 none .started) := rfl
  have hskip : (system 90).step (lone 0 none .started) (.worker 0 (.claim false))
      (lone 0 none ⟨.over .skipped, false, false⟩) :=
    lone_step ⟨rfl, fun _ h => absurd h (by simp), rfl, rfl⟩
  exact withdrawn_never_runs (lone_trace lone_queued) rfl rfl trivial hdelete (.single hskip)

end RunTable
