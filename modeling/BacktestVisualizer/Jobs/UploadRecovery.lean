import BacktestVisualizer.Jobs.Settlement

/-! # Uploads and Their Recovery at Startup

  `src/services/strategies.py` (`submit_strategy`, `_begin_validation`) creates
  a `validating` row, starts a validation run and records its id on the row;
  the job manager writes the verdict. Each of these is a transaction of its
  own, and everything but the database is lost when the process stops. At
  startup `_recover_validation_outcomes` settles what the last process left.

  The system below is the job manager together with the upload flows, one
  per strategy key, and the stops and starts of the process.
-/

open LTS Jobs

namespace Uploads

variable {Report : Type}

/-! ### States -/

/-- Where `submit_strategy` stands, after its row was created. -/
inductive Stage where
  /-- The row is committed; `start_validation` is about to run. -/
  | created
  /-- `create_backtest_run` registered the job. -/
  | registered (id : JobId)
  /-- `_dispatch` returned; the id is about to be attached. -/
  | dispatched (id : JobId)
  /-- `start_validation` raised; the row is about to be parked. -/
  | failing
  deriving DecidableEq, Repr

/-- The process and its database. `issued` collects the run ids handed out. -/
structure State (Report : Type) where
  manager : Jobs.State Report
  flows : StrategyKey → Option Stage
  issued : List JobId
  up : Bool

/-- Functional update of one flow. -/
def set_flow (f : StrategyKey → Option Stage) (key : StrategyKey) (x : Option Stage) :
    StrategyKey → Option Stage :=
  fun k => if k = key then x else f k

@[simp] theorem set_flow_self (f : StrategyKey → Option Stage) (key : StrategyKey)
    (x : Option Stage) : set_flow f key x key = x := by
  simp [set_flow]

@[simp] theorem set_flow_ne (f : StrategyKey → Option Stage) {key k : StrategyKey}
    (x : Option Stage) (h : k ≠ key) : set_flow f key x k = f k := by
  simp [set_flow, h]

/-! ### Transactions on the strategy row -/

/-- The row `submit_strategy` inserts. -/
def draft_row : Row :=
  { kind := .user, status := .validating, enabled := false, validation_job_id := none }

/-- `create_strategy`. -/
def create_strategy (t : Strategies) (key : StrategyKey) : Strategies :=
  fun k => if k = key then some draft_row else t k

/-- `attach_validation_run`: a row that already names another run is left alone. -/
def attach_validation_run (t : Strategies) (key : StrategyKey) (id : JobId) : Strategies :=
  update_user_row t key (fun row =>
    if row.validation_job_id = none ∨ row.validation_job_id = some id then
      { row with validation_job_id := some id }
    else row)

/-- `mark_validation_unstarted`: `set_validation_state` on whatever row is there. -/
def mark_validation_unstarted (t : Strategies) (key : StrategyKey) : Strategies :=
  fun k =>
    if k = key then
      (t k).map (fun row => { row with status := .failed_validation, enabled := false })
    else t k

/-- The new columns of a row that `_recover_validation_outcomes` selects. -/
def recovered (saved : JobId → Bool) (row : Row) : Row :=
  if row.kind = .user ∧ row.status = .validating then
    match row.validation_job_id with
    | some id =>
        { row with
          status := if saved id then .active else .failed_validation
          enabled := saved id }
    | none => row
  else row

/-- `_recover_validation_outcomes`. -/
def recover_validation_outcomes (m : Jobs.State Report) : Strategies :=
  fun key => (m.strategies key).map (recovered (fun id => (m.slots id).report.isSome))

/-! ### Steps -/

/-- Labels of the upload system. The flow's own moves carry its key; `committed`
    tells whether the transaction went through. -/
inductive Label (Report : Type) where
  /-- `create_strategy` commits. -/
  | create (key : StrategyKey)
  /-- `create_backtest_run` returns. -/
  | registered (key : StrategyKey) (id : JobId)
  /-- `_dispatch` returns. -/
  | dispatched (key : StrategyKey)
  /-- `start_validation` raises. -/
  | start_raises (key : StrategyKey)
  | attach (key : StrategyKey) (committed : Bool)
  | mark (key : StrategyKey) (committed : Bool)
  /-- A step of the job manager, registrations and dispatches included. -/
  | manager (l : Jobs.Label Report)
  /-- The process stops, in order or by a crash. -/
  | stop
  /-- The process starts; its recovery commits, or is logged as failed. -/
  | recover (committed : Bool)
  deriving DecidableEq, Repr

/-- What is left of the manager when the process stops: the database. -/
def restarted (m : Jobs.State Report) : Jobs.State Report where
  closed := false
  pool_open := true
  slots := fun id => { job := none, listed := false, report := (m.slots id).report }
  strategies := m.strategies

/-- A registration takes a fresh id, and a validation is registered by its
    own upload flow only. -/
def register_guard (s : State Report) : Jobs.Label Report → Prop
  | .job id (.register spec) =>
      id ∉ s.issued ∧
      (spec.purpose = .validation → s.flows spec.strategy_key = some .created)
  | _ => True

def issued_after (issued : List JobId) : Jobs.Label Report → List JobId
  | .job id (.register _) => id :: issued
  | _ => issued

/-- Replace the registry. -/
def State.with_strategies (s : State Report) (t : Strategies) : State Report :=
  { s with manager := { s.manager with strategies := t } }

/-- Move one flow. -/
def State.with_flow (s : State Report) (key : StrategyKey) (x : Option Stage) : State Report :=
  { s with flows := set_flow s.flows key x }

/-- The upload system. -/
def uploads : System (State Report) (Label Report) where
  init := fun s =>
    s.up = false ∧ job_manager.init s.manager ∧ (∀ key, s.flows key = none) ∧
    ∀ id, (s.manager.slots id).report ≠ none → id ∈ s.issued
  step := fun s l s' =>
    match l with
    | .create key =>
        s.up = true ∧ s.manager.strategies key = none ∧
        s' = (s.with_strategies (create_strategy s.manager.strategies key)).with_flow key
          (some .created)
    | .registered key id =>
        s.flows key = some .created ∧
        (∃ j, (s.manager.slots id).job = some j ∧ j.spec.purpose = .validation ∧
          j.spec.strategy_key = key) ∧
        s' = s.with_flow key (some (.registered id))
    | .dispatched key =>
        ∃ id j, s.flows key = some (.registered id) ∧ (s.manager.slots id).job = some j ∧
          j.future ≠ none ∧ s' = s.with_flow key (some (.dispatched id))
    | .start_raises key =>
        (s.flows key = some .created ∨ ∃ id, s.flows key = some (.registered id)) ∧
        s' = s.with_flow key (some .failing)
    | .attach key committed =>
        ∃ id, s.flows key = some (.dispatched id) ∧
          s' = (s.with_strategies
            (if committed then attach_validation_run s.manager.strategies key id
             else s.manager.strategies)).with_flow key none
    | .mark key committed =>
        s.flows key = some .failing ∧
        s' = (s.with_strategies
          (if committed then mark_validation_unstarted s.manager.strategies key
           else s.manager.strategies)).with_flow key none
    | .manager l =>
        s.up = true ∧ register_guard s l ∧
        ∃ m, job_manager.step s.manager l m ∧
          s' = { s with manager := m, issued := issued_after s.issued l }
    | .stop =>
        s.up = true ∧
        s' = { s with manager := restarted s.manager, flows := fun _ => none, up := false }
    | .recover committed =>
        s.up = false ∧
        s' = { s with
                up := true
                manager := { s.manager with
                              strategies := if committed then recover_validation_outcomes s.manager
                                            else s.manager.strategies } }

/-! ### What a run has written -/

/-- The manager's step behind a label. -/
def Label.manager_label : Label Report → Option (Jobs.Label Report)
  | .manager l => some l
  | _ => none

/-- The job manager's part of a run. -/
def manager_labels (ls : List (Label Report)) : List (Jobs.Label Report) :=
  ls.filterMap Label.manager_label

/-- The run `id` was registered as the validation of `key`. -/
def Registered (key : StrategyKey) (id : JobId) (ms : List (Jobs.Label Report)) : Prop :=
  ∃ spec : RunSpec, spec.purpose = .validation ∧ spec.strategy_key = key ∧
    Jobs.Label.job id (.register spec) ∈ ms

/-- `reports.save` committed for the run `id`. -/
def Saved (id : JobId) (ms : List (Jobs.Label Report)) : Prop :=
  Jobs.Label.job id (.save none) ∈ ms

/-- A DELETE removed the report of the run `id`. -/
def Removed (id : JobId) (ms : List (Jobs.Label Report)) : Prop :=
  ∃ caller, Jobs.Label.job id (.remove caller true) ∈ ms

/-- Some transaction after `create_strategy` wrote the row of `key`: its run
    was attached, the row was parked, or its validation settled. -/
def Written (key : StrategyKey) (ls : List (Label Report)) : Prop :=
  Label.attach key true ∈ ls ∨ Label.mark key true ∈ ls ∨
    ∃ id, Registered key id (manager_labels ls) ∧
      Jobs.Label.job id (.settle true) ∈ manager_labels ls

theorem manager_labels_snoc (ls : List (Label Report)) (l : Label Report) :
    manager_labels (ls ++ [l]) = manager_labels ls ++ l.manager_label.toList := by
  unfold manager_labels
  cases h : l.manager_label <;> simp [h]

@[simp] theorem mem_manager_labels {ls : List (Label Report)} {m : Jobs.Label Report} :
    m ∈ manager_labels ls ↔ Label.manager m ∈ ls := by
  constructor
  · intro h
    obtain ⟨l, hl, heq⟩ := List.mem_filterMap.mp h
    match l with
    | .manager l =>
      obtain rfl : l = m := by simpa [Label.manager_label] using heq
      exact hl
  · intro h
    exact List.mem_filterMap.mpr ⟨_, h, rfl⟩

theorem registered_snoc {key : StrategyKey} {id : JobId} {ms : List (Jobs.Label Report)}
    {l : Jobs.Label Report} (h : Registered key id (ms ++ [l])) :
    Registered key id ms ∨ ∃ spec : RunSpec, spec.purpose = .validation ∧
      spec.strategy_key = key ∧ l = .job id (.register spec) := by
  obtain ⟨spec, hval, hkey, hmem⟩ := h
  rcases List.mem_append.mp hmem with hold | hnew
  · exact Or.inl ⟨spec, hval, hkey, hold⟩
  · exact Or.inr ⟨spec, hval, hkey, (List.mem_singleton.mp hnew).symm⟩

theorem Registered.snoc {key : StrategyKey} {id : JobId} {ms : List (Jobs.Label Report)}
    (h : Registered key id ms) (l : Jobs.Label Report) : Registered key id (ms ++ [l]) := by
  obtain ⟨spec, hval, hkey, hmem⟩ := h
  exact ⟨spec, hval, hkey, List.mem_append_left _ hmem⟩

/-! ### The manager across restarts -/

/-- What the manager's labels tell about its jobs and reports. -/
structure ManagerInv (ms : List (Jobs.Label Report)) (issued : List JobId)
    (m : Jobs.State Report) : Prop where
  wf : AllWF m
  filed : Filed m
  job_issued : ∀ id j, (m.slots id).job = some j → id ∈ issued
  report_issued : ∀ id, (m.slots id).report ≠ none → id ∈ issued
  label_issued : ∀ id a, Jobs.Label.job id a ∈ ms →
    a = .settle true ∨ a = .save none ∨ (∃ caller, a = .remove caller true) ∨
      (∃ spec, a = .register spec) → id ∈ issued
  registered_spec : ∀ key id, Registered key id ms → ∀ j, (m.slots id).job = some j →
    j.spec.purpose = .validation ∧ j.spec.strategy_key = key
  validation_registered : ∀ id j, (m.slots id).job = some j → j.spec.purpose = .validation →
    Registered j.spec.strategy_key id ms
  saved_committed : ∀ id, Saved id ms → ∀ j, (m.slots id).job = some j → j.Committed
  stored : ∀ key id, Registered key id ms →
    (Removed id ms → Saved id ms) ∧
    ((m.slots id).report ≠ none ↔ Saved id ms ∧ ¬ Removed id ms)

/-- A registration uses an id that was never issued. -/
def fresh (issued : List JobId) : Jobs.Label Report → Prop
  | .job id (.register _) => id ∉ issued
  | _ => True

theorem ManagerInv.registered_issued {ms : List (Jobs.Label Report)} {issued : List JobId}
    {m : Jobs.State Report} (h : ManagerInv ms issued m) {key : StrategyKey} {id : JobId}
    (hreg : Registered key id ms) : id ∈ issued := by
  obtain ⟨spec, _, _, hmem⟩ := hreg
  exact h.label_issued id _ hmem (by simp)

theorem issued_mono {issued : List JobId} {l : Jobs.Label Report} {id : JobId}
    (h : id ∈ issued) : id ∈ issued_after issued l := by
  unfold issued_after
  split
  · exact List.mem_cons_of_mem _ h
  · exact h

/-- A job seen after a step was there before, or is being registered. -/
theorem job_issued_step {ms : List (Jobs.Label Report)} {issued : List JobId}
    {m m' : Jobs.State Report} {l : Jobs.Label Report} (h : ManagerInv ms issued m)
    (hstep : job_manager.step m l m') :
    ∀ id j, (m'.slots id).job = some j → id ∈ issued_after issued l := by
  intro id j hj
  rcases spec_at hstep hj with ⟨j₀, h₀, _⟩ | ⟨rfl, _⟩
  · exact issued_mono (h.job_issued id j₀ h₀)
  · simp [issued_after]

/-- What a step does to the report of a run, by its label. -/
theorem report_at {m m' : Jobs.State Report} {l : Jobs.Label Report} (id : JobId)
    (hstep : job_manager.step m l m') :
    (l = .job id (.save none) ∧ (m.slots id).report = none ∧ (m'.slots id).report ≠ none ∧
      ∃ j r, (m.slots id).job = some j ∧ j.lock = .saving r) ∨
    (∃ caller, l = .job id (.remove caller true) ∧ (m.slots id).report ≠ none ∧
      (m'.slots id).report = none) ∨
    (l ≠ .job id (.save none) ∧ (∀ caller, l ≠ .job id (.remove caller true)) ∧
      (m'.slots id).report = (m.slots id).report) := by
  rcases step_at hstep id with ⟨heq, hl⟩ | ⟨a, rfl, hslot⟩
  · exact Or.inr (Or.inr ⟨hl _, fun caller => hl _, by rw [heq]⟩)
  · rcases slot_step_cases hslot with ⟨spec, rfl, _, _, hnone, _, hrep⟩ |
      ⟨j, j', hj, hj', hjob, hfree, hrep⟩ | ⟨_, _, hsave, hkeep, hgone⟩
    · exact Or.inr (Or.inr ⟨by simp, by simp, by rw [hrep, hnone]⟩)
    · by_cases ha : a = .save none
      · subst ha
        obtain ⟨r, owner, hlock, howner, _⟩ := hjob
        exact Or.inl ⟨rfl, hfree rfl, by simp [hrep, report_after, howner], j, r, hj, hlock⟩
      · refine Or.inr (Or.inr ⟨by simpa using ha, fun caller hl => ?_, ?_⟩)
        · injection hl with _ ha
          subst ha
          exact hjob.elim
        · rw [hrep, report_after_ne ha]
    · by_cases hrem : ∃ caller, a = .remove caller true
      · obtain ⟨caller, rfl⟩ := hrem
        exact Or.inr (Or.inl ⟨caller, rfl, by simp [(hgone caller rfl).2], (hgone caller rfl).1⟩)
      · refine Or.inr (Or.inr ⟨by simpa using hsave none, fun caller hl => ?_, ?_⟩)
        · injection hl with _ ha
          exact hrem ⟨caller, ha⟩
        · exact hkeep (not_exists.mp hrem)

theorem label_issued_step {ms : List (Jobs.Label Report)} {issued : List JobId}
    {m m' : Jobs.State Report} {l : Jobs.Label Report} (h : ManagerInv ms issued m)
    (hstep : job_manager.step m l m') {id : JobId} {a : Action Report}
    (hmem : Jobs.Label.job id a ∈ ms ++ [l])
    (ha : a = .settle true ∨ a = .save none ∨ (∃ caller, a = .remove caller true) ∨
      (∃ spec, a = .register spec)) : id ∈ issued_after issued l := by
  rcases List.mem_append.mp hmem with hold | hnew
  · exact issued_mono (h.label_issued id a hold ha)
  · obtain rfl := List.mem_singleton.mp hnew
    rcases ha with rfl | rfl | ⟨caller, rfl⟩ | ⟨spec, rfl⟩
    · obtain ⟨_, _, ⟨j, _, hj, _⟩, _⟩ := hstep
      exact issued_mono (h.job_issued id j hj)
    · obtain ⟨_, _, ⟨j, _, hj, _⟩, _⟩ := hstep
      exact issued_mono (h.job_issued id j hj)
    · obtain ⟨_, _, ⟨hrem, _⟩, _⟩ := hstep
      have hrep : (m.slots id).report = some caller := by simpa using hrem
      exact issued_mono (h.report_issued id (by simp [hrep]))
    · simp [issued_after]

theorem saved_committed_step {ms : List (Jobs.Label Report)} {issued : List JobId}
    {m m' : Jobs.State Report} {l : Jobs.Label Report} (h : ManagerInv ms issued m)
    (hstep : job_manager.step m l m') (hfresh : fresh issued l) {id : JobId}
    (hsaved : Saved id (ms ++ [l])) {j : Job Report} (hj : (m'.slots id).job = some j) :
    j.Committed := by
  rcases List.mem_append.mp hsaved with hold | hnew
  · rcases spec_at hstep hj with ⟨j₀, h₀, _⟩ | ⟨rfl, _⟩
    · obtain ⟨j₁, h₁, hc⟩ := committed_persist (k := id) hstep h.wf
        ⟨j₀, h₀, h.saved_committed id hold j₀ h₀⟩
      obtain rfl : j = j₁ := by simpa [hj] using h₁
      exact hc
    · -- an id that saved a report was issued before
      exact absurd (h.label_issued id _ hold (by simp)) hfresh
  · obtain rfl := List.mem_singleton.mp hnew
    obtain ⟨j₁, h₁, hc⟩ := (save_label hstep h.wf).2
    obtain rfl : j = j₁ := by simpa [hj] using h₁
    exact hc

theorem stored_step {ms : List (Jobs.Label Report)} {issued : List JobId}
    {m m' : Jobs.State Report} {l : Jobs.Label Report} (h : ManagerInv ms issued m)
    (hstep : job_manager.step m l m') (hfresh : fresh issued l) {key : StrategyKey} {id : JobId}
    (hreg : Registered key id (ms ++ [l])) :
    (Removed id (ms ++ [l]) → Saved id (ms ++ [l])) ∧
    ((m'.slots id).report ≠ none ↔ Saved id (ms ++ [l]) ∧ ¬ Removed id (ms ++ [l])) := by
  have hsnoc : Saved id (ms ++ [l]) ↔ Saved id ms ∨ l = .job id (.save none) := by
    simp [Saved, eq_comm]
  have hrsnoc : Removed id (ms ++ [l]) ↔
      Removed id ms ∨ ∃ caller, l = .job id (.remove caller true) := by
    simp [Removed, eq_comm, exists_or]
  -- a run that is only now registered has neither saved nor removed anything
  have hbefore : (Removed id ms → Saved id ms) ∧
      ((m.slots id).report ≠ none ↔ Saved id ms ∧ ¬ Removed id ms) := by
    rcases registered_snoc hreg with hold | ⟨spec, _, _, rfl⟩
    · exact h.stored key id hold
    · have hsaved : ¬ Saved id ms := fun hs => hfresh (h.label_issued id _ hs (by simp))
      refine ⟨?_, ?_⟩
      · rintro ⟨caller, hmem⟩
        exact absurd (h.label_issued id _ hmem (by simp)) hfresh
      · constructor
        · intro hrep
          exact absurd (h.report_issued id hrep) hfresh
        · rintro ⟨hs, _⟩
          exact absurd hs hsaved
  rw [hsnoc, hrsnoc]
  rcases report_at id hstep with ⟨rfl, hnone, hsome, j, r, hj, hlock⟩ |
    ⟨caller, rfl, hsome, hnone⟩ | ⟨hsave, hrem, heq⟩
  · have hnot : ¬ Saved id ms := by
      intro hs
      rcases h.saved_committed id hs j hj with hc | hc
      · simp [hlock] at hc
      · simp [((h.wf id j hj).saving_back r hlock).2.1] at hc
    have hkept : ¬ Removed id ms := fun hr => hnot (hbefore.1 hr)
    simp [hsome, hkept]
  · have hs := (hbefore.2.mp hsome).1
    simp [hs, hnone]
  · simpa [hsave, hrem, heq] using hbefore

/-- One step of the manager. -/
theorem ManagerInv.step {ms : List (Jobs.Label Report)} {issued : List JobId}
    {m m' : Jobs.State Report} {l : Jobs.Label Report} (h : ManagerInv ms issued m)
    (hstep : job_manager.step m l m') (hfresh : fresh issued l) :
    ManagerInv (ms ++ [l]) (issued_after issued l) m' where
  wf := all_wf_step hstep h.wf
  filed := filed_step hstep h.filed
  job_issued := job_issued_step h hstep
  report_issued := by
    intro id hrep
    rcases report_at id hstep with ⟨rfl, _, _, j, _, hj, _⟩ | ⟨_, _, _, hnone⟩ | ⟨_, _, heq⟩
    · exact issued_mono (h.job_issued id j hj)
    · exact absurd hnone hrep
    · exact issued_mono (h.report_issued id (by rw [← heq]; exact hrep))
  label_issued := fun id a hmem ha => label_issued_step h hstep hmem ha
  registered_spec := by
    intro key id hreg j hj
    -- an id registered before is not registered again
    rcases spec_at hstep hj with ⟨j₀, h₀, hspec⟩ | ⟨rfl, _⟩
    · rcases registered_snoc hreg with hold | ⟨spec, _, _, rfl⟩
      · rw [hspec]
        exact h.registered_spec key id hold j₀ h₀
      · exact absurd (h.job_issued id j₀ h₀) hfresh
    · rcases registered_snoc hreg with hold | ⟨spec, hval, hkey, heq⟩
      · exact absurd (h.registered_issued hold) hfresh
      · injection heq with _ heq
        injection heq with heq
        rw [heq]
        exact ⟨hval, hkey⟩
  validation_registered := by
    intro id j hj hval
    rcases spec_at hstep hj with ⟨j₀, h₀, hspec⟩ | ⟨rfl, _⟩
    · rw [hspec] at hval ⊢
      exact (h.validation_registered id j₀ h₀ hval).snoc l
    · exact ⟨j.spec, hval, rfl, by simp⟩
  saved_committed := fun id hsaved j hj => saved_committed_step h hstep hfresh hsaved hj
  stored := fun key id hreg => stored_step h hstep hfresh hreg

/-- The manager's invariant does not speak about the registry. -/
theorem ManagerInv.with_strategies {ms : List (Jobs.Label Report)} {issued : List JobId}
    {m : Jobs.State Report} (h : ManagerInv ms issued m) (t : Strategies) :
    ManagerInv ms issued { m with strategies := t } :=
  ⟨h.wf, ⟨h.filed.own_id, h.filed.apart⟩, h.job_issued, h.report_issued, h.label_issued,
    h.registered_spec, h.validation_registered, h.saved_committed, h.stored⟩

/-- A restart keeps the reports and forgets the jobs. -/
theorem ManagerInv.restart {ms : List (Jobs.Label Report)} {issued : List JobId}
    {m : Jobs.State Report} (h : ManagerInv ms issued m) :
    ManagerInv ms issued (restarted m) where
  wf := by simp [AllWF, restarted]
  filed := by constructor <;> simp [restarted]
  job_issued := by simp [restarted]
  report_issued := h.report_issued
  label_issued := h.label_issued
  registered_spec := by simp [restarted]
  validation_registered := by simp [restarted]
  saved_committed := by simp [restarted]
  stored := h.stored

/-! ### What a step does to one upload -/

/-- Where the flow of `key` can be after a step. -/
theorem flow_at {s s' : State Report} {l : Label Report} (hstep : uploads.step s l s')
    {key : StrategyKey} {st : Stage} (h : s'.flows key = some st) :
    s.flows key = some st ∨ l = .create key ∧ st = .created ∨
      s.flows key ≠ none ∧ (st = .failing ∨
        (∃ id j, st = .registered id ∧ (s.manager.slots id).job = some j ∧
          j.spec.purpose = .validation ∧ j.spec.strategy_key = key) ∨
        ∃ id, s.flows key = some (.registered id) ∧ st = .dispatched id) := by
  -- a flow label moves its own flow only
  have hmove : ∀ {k : StrategyKey} {x : Option Stage}, k ≠ key →
      set_flow s.flows k x key = some st → s.flows key = some st := by
    intro k x hk h
    rwa [set_flow_ne _ _ hk.symm] at h
  match l with
  | .create k =>
    obtain ⟨_, _, rfl⟩ := hstep
    by_cases hk : k = key
    · subst hk
      exact Or.inr (Or.inl ⟨rfl, by simpa [State.with_flow] using h.symm⟩)
    · exact Or.inl (hmove hk h)
  | .registered k id =>
    obtain ⟨hcreated, ⟨j, hj, hval, hkey⟩, rfl⟩ := hstep
    by_cases hk : k = key
    · subst hk
      refine Or.inr (Or.inr ⟨by simp [hcreated], Or.inr (Or.inl ⟨id, j, ?_, hj, hval, hkey⟩)⟩)
      simpa [State.with_flow] using h.symm
    · exact Or.inl (hmove hk h)
  | .dispatched k =>
    obtain ⟨id, j, hreg, _, _, rfl⟩ := hstep
    by_cases hk : k = key
    · subst hk
      refine Or.inr (Or.inr ⟨by simp [hreg], Or.inr (Or.inr ⟨id, hreg, ?_⟩)⟩)
      simpa [State.with_flow] using h.symm
    · exact Or.inl (hmove hk h)
  | .start_raises k =>
    obtain ⟨hold, rfl⟩ := hstep
    by_cases hk : k = key
    · subst hk
      refine Or.inr (Or.inr ⟨?_, Or.inl (by simpa [State.with_flow] using h.symm)⟩)
      rcases hold with hold | ⟨id, hold⟩ <;> simp [hold]
    · exact Or.inl (hmove hk h)
  | .attach k _ =>
    obtain ⟨id, _, rfl⟩ := hstep
    by_cases hk : k = key
    · subst hk
      simp [State.with_flow] at h
    · exact Or.inl (hmove hk h)
  | .mark k _ =>
    obtain ⟨_, rfl⟩ := hstep
    by_cases hk : k = key
    · subst hk
      simp [State.with_flow] at h
    · exact Or.inl (hmove hk h)
  | .manager _ => obtain ⟨_, _, _, _, rfl⟩ := hstep; exact Or.inl h
  | .stop => obtain ⟨_, rfl⟩ := hstep; simp at h
  | .recover _ => obtain ⟨_, rfl⟩ := hstep; exact Or.inl h

/-- What a step does to the row of `key`. -/
theorem row_at {s s' : State Report} {l : Label Report} (hstep : uploads.step s l s')
    (key : StrategyKey) :
    (l = .create key ∧ s.manager.strategies key = none ∧
      s'.manager.strategies key = some draft_row) ∨
    (∃ id, l = .attach key true ∧ s.flows key = some (.dispatched id) ∧
      s'.manager.strategies = attach_validation_run s.manager.strategies key id) ∨
    (l = .mark key true ∧ s.flows key = some .failing ∧
      s'.manager.strategies = mark_validation_unstarted s.manager.strategies key) ∨
    (∃ id j passed, l = .manager (.job id (.settle true)) ∧
      (s.manager.slots id).job = some j ∧ j.spec.purpose = .validation ∧
      j.spec.strategy_key = key ∧
      s'.manager.strategies = settle_validation s.manager.strategies j.spec passed) ∨
    (l = .recover true ∧ s'.manager.strategies = recover_validation_outcomes s.manager) ∨
    (s'.manager.strategies key = s.manager.strategies key ∧ l ≠ .create key ∧
      l ≠ .attach key true ∧ l ≠ .mark key true ∧
      ∀ id j, (s.manager.slots id).job = some j → j.spec.purpose = .validation →
        j.spec.strategy_key = key → l ≠ .manager (.job id (.settle true))) := by
  match l with
  | .create k =>
    obtain ⟨_, hnone, rfl⟩ := hstep
    by_cases hk : k = key
    · subst hk
      exact Or.inl ⟨rfl, hnone, by simp [State.with_flow, State.with_strategies, create_strategy]⟩
    · have hk' : key ≠ k := fun h => hk h.symm
      simp [State.with_flow, State.with_strategies, create_strategy, hk, hk']
  | .registered _ _ => obtain ⟨_, _, rfl⟩ := hstep; simp [State.with_flow]
  | .dispatched _ => obtain ⟨_, _, _, _, _, rfl⟩ := hstep; simp [State.with_flow]
  | .start_raises _ => obtain ⟨_, rfl⟩ := hstep; simp [State.with_flow]
  | .attach k true =>
    obtain ⟨id, hflow, rfl⟩ := hstep
    by_cases hk : k = key
    · subst hk
      exact Or.inr (Or.inl ⟨id, rfl, hflow, rfl⟩)
    · have hk' : key ≠ k := fun h => hk h.symm
      simp [State.with_flow, State.with_strategies, attach_validation_run, hk, hk']
  | .attach _ false =>
    obtain ⟨_, _, rfl⟩ := hstep; simp [State.with_flow, State.with_strategies]
  | .mark k true =>
    obtain ⟨hflow, rfl⟩ := hstep
    by_cases hk : k = key
    · subst hk
      exact Or.inr (Or.inr (Or.inl ⟨rfl, hflow, rfl⟩))
    · have hk' : key ≠ k := fun h => hk h.symm
      simp [State.with_flow, State.with_strategies, mark_validation_unstarted, hk, hk']
  | .mark _ false =>
    obtain ⟨_, rfl⟩ := hstep; simp [State.with_flow, State.with_strategies]
  | .manager l =>
    obtain ⟨_, _, m, hm, rfl⟩ := hstep
    -- of the manager's steps only a settlement writes to the rows
    rcases strategies_step hm with heq | ⟨id, j, passed, rfl, hj, hlock, heq⟩
    · by_cases hset : ∃ id j, (s.manager.slots id).job = some j ∧
          j.spec.purpose = .validation ∧ j.spec.strategy_key = key ∧ l = .job id (.settle true)
      · obtain ⟨id, j, hj, hval, hkey, rfl⟩ := hset
        obtain ⟨passed, hlock⟩ : ∃ passed, j.lock = .settling passed := by
          obtain ⟨_, _, ⟨j₁, _, h₁, ⟨passed, hlock, _⟩, _⟩, _⟩ := hm
          obtain rfl : j = j₁ := by simpa [hj] using h₁
          exact ⟨passed, hlock⟩
        exact Or.inr (Or.inr (Or.inr (Or.inl
          ⟨id, j, passed, rfl, hj, hval, hkey, settle_writes hm hj hlock⟩)))
      · refine Or.inr (Or.inr (Or.inr (Or.inr (Or.inr
          ⟨by rw [heq], by simp, by simp, by simp, ?_⟩))))
        rintro id j hj hval hkey hl
        injection hl with hl
        exact hset ⟨id, j, hj, hval, hkey, hl⟩
    · by_cases hkey : j.spec.purpose = .validation ∧ j.spec.strategy_key = key
      · exact Or.inr (Or.inr (Or.inr (Or.inl
          ⟨id, j, passed, rfl, hj, hkey.1, hkey.2, heq⟩)))
      · refine Or.inr (Or.inr (Or.inr (Or.inr (Or.inr
          ⟨?_, by simp, by simp, by simp, ?_⟩))))
        · show m.strategies key = s.manager.strategies key
          rw [heq]
          exact settle_validation_ne (fun hval h => hkey ⟨hval, h⟩)
        · rintro id' j' hj' hval' hkey' hl
          injection hl with hl
          injection hl with hid
          subst hid
          obtain rfl : j = j' := by simpa [hj] using hj'
          exact hkey ⟨hval', hkey'⟩
  | .stop => obtain ⟨_, rfl⟩ := hstep; simp [restarted]
  | .recover true =>
    obtain ⟨_, rfl⟩ := hstep
    exact Or.inr (Or.inr (Or.inr (Or.inr (Or.inl ⟨rfl, rfl⟩))))
  | .recover false => obtain ⟨_, rfl⟩ := hstep; simp

/-! ### Rows and flows along a run -/

/-- What the labels of a run tell about the rows of its uploads. -/
structure UploadInv (ls : List (Label Report)) (s : State Report) : Prop where
  manager : ManagerInv (manager_labels ls) s.issued s.manager
  created_row : ∀ key, Label.create key ∈ ls →
    ∃ row, s.manager.strategies key = some row ∧ row.kind = .user
  flow_created : ∀ key st, s.flows key = some st → Label.create key ∈ ls
  flow_id : ∀ key id, s.flows key = some (.registered id) ∨ s.flows key = some (.dispatched id) →
    Registered key id (manager_labels ls)
  registered_created : ∀ key id, Registered key id (manager_labels ls) → Label.create key ∈ ls
  row_id : ∀ key row id, Label.create key ∈ ls → s.manager.strategies key = some row →
    row.validation_job_id = some id → Registered key id (manager_labels ls)
  written_created : ∀ key, Written key ls → Label.create key ∈ ls
  untouched : ∀ key row, Label.create key ∈ ls → s.manager.strategies key = some row →
    (row.status = .validating ∧ row.validation_job_id = none ↔ ¬ Written key ls)
  down : s.up = false → (∀ key, s.flows key = none) ∧ ∀ id, (s.manager.slots id).job = none

theorem fresh_of_guard {s : State Report} {l : Jobs.Label Report} (h : register_guard s l) :
    fresh s.issued l := by
  match l with
  | .job id (.register spec) => exact h.1
  | .close | .stop_pool | .job _ (.submit _ _) | .job _ (.cancel _ _) | .job _ .start_worker
  | .job _ (.progress _) | .job _ (.finish_worker _) | .job _ .cancel_future
  | .job _ (.on_done _) | .job _ (.save _) | .job _ (.conclude _) | .job _ (.settle _)
  | .job _ .sweep | .job _ .prune | .job _ (.remove _ _) => trivial

theorem manager_step {s s' : State Report} {l : Label Report} {ls : List (Label Report)}
    (hstep : uploads.step s l s')
    (h : ManagerInv (manager_labels ls) s.issued s.manager) :
    ManagerInv (manager_labels (ls ++ [l])) s'.issued s'.manager := by
  rw [manager_labels_snoc]
  have hsame : ManagerInv (manager_labels ls ++ []) s.issued s.manager := by simpa using h
  match l with
  | .create _ => obtain ⟨_, _, rfl⟩ := hstep; exact hsame.with_strategies _
  | .registered _ _ => obtain ⟨_, _, rfl⟩ := hstep; exact hsame
  | .dispatched _ => obtain ⟨_, _, _, _, _, rfl⟩ := hstep; exact hsame
  | .start_raises _ => obtain ⟨_, rfl⟩ := hstep; exact hsame
  | .attach _ _ => obtain ⟨_, _, rfl⟩ := hstep; exact hsame.with_strategies _
  | .mark _ _ => obtain ⟨_, rfl⟩ := hstep; exact hsame.with_strategies _
  | .manager l =>
    obtain ⟨_, hguard, m, hm, rfl⟩ := hstep
    exact h.step hm (fresh_of_guard hguard)
  | .stop => obtain ⟨_, rfl⟩ := hstep; exact hsame.restart
  | .recover _ => obtain ⟨_, rfl⟩ := hstep; exact hsame.with_strategies _

/-- A registration stays on record. -/
theorem Registered.later {key : StrategyKey} {id : JobId} {ls : List (Label Report)}
    (h : Registered key id (manager_labels ls)) (l : Label Report) :
    Registered key id (manager_labels (ls ++ [l])) := by
  obtain ⟨spec, hval, hkey, hmem⟩ := h
  rw [manager_labels_snoc]
  exact ⟨spec, hval, hkey, List.mem_append_left _ hmem⟩

/-- A registration on record is old, or the step just made, by the flow of its key. -/
theorem registered_at {s s' : State Report} {l : Label Report} {ls : List (Label Report)}
    {key : StrategyKey} {id : JobId} (hstep : uploads.step s l s')
    (hreg : Registered key id (manager_labels (ls ++ [l]))) :
    Registered key id (manager_labels ls) ∨
      s.flows key = some .created ∧ id ∉ s.issued ∧
        ∃ spec, l = .manager (.job id (.register spec)) := by
  obtain ⟨spec, hval, hkey, hmem⟩ := hreg
  rcases List.mem_append.mp (mem_manager_labels.mp hmem) with hold | hnew
  · exact Or.inl ⟨spec, hval, hkey, mem_manager_labels.mpr hold⟩
  · obtain rfl := List.mem_singleton.mp hnew
    obtain ⟨_, ⟨hid, hflow⟩, _⟩ := hstep
    rw [hkey] at hflow
    exact Or.inr ⟨hflow hval, hid, spec, rfl⟩

/-- What the last label adds to what is written. -/
theorem written_snoc {s s' : State Report} {l : Label Report} {ls : List (Label Report)}
    (hstep : uploads.step s l s') (h : UploadInv ls s) (key : StrategyKey) :
    Written key (ls ++ [l]) ↔ Written key ls ∨ l = .attach key true ∨ l = .mark key true ∨
      ∃ id, Registered key id (manager_labels ls) ∧ l = .manager (.job id (.settle true)) := by
  constructor
  · rintro (hatt | hmark | ⟨id, hreg, hset⟩)
    · rcases List.mem_append.mp hatt with hold | hnew
      · exact Or.inl (Or.inl hold)
      · exact Or.inr (Or.inl (List.mem_singleton.mp hnew).symm)
    · rcases List.mem_append.mp hmark with hold | hnew
      · exact Or.inl (Or.inr (Or.inl hold))
      · exact Or.inr (Or.inr (Or.inl (List.mem_singleton.mp hnew).symm))
    · rcases List.mem_append.mp (mem_manager_labels.mp hset) with hold | hnew
      · have hissued := h.manager.label_issued id _ (mem_manager_labels.mpr hold) (by simp)
        rcases registered_at hstep hreg with hreg | ⟨_, hid, _⟩
        · exact Or.inl (Or.inr (Or.inr ⟨id, hreg, mem_manager_labels.mpr hold⟩))
        · -- an id that settled a verdict was issued before
          exact absurd hissued hid
      · obtain rfl := List.mem_singleton.mp hnew
        rcases registered_at hstep hreg with hreg | ⟨_, _, _, hl⟩
        · exact Or.inr (Or.inr (Or.inr ⟨id, hreg, rfl⟩))
        · simp at hl
  · rintro ((hatt | hmark | ⟨id, hreg, hset⟩) | rfl | rfl | ⟨id, hreg, rfl⟩)
    · exact Or.inl (List.mem_append_left _ hatt)
    · exact Or.inr (Or.inl (List.mem_append_left _ hmark))
    · refine Or.inr (Or.inr ⟨id, hreg.later l, ?_⟩)
      exact mem_manager_labels.mpr (List.mem_append_left _ (mem_manager_labels.mp hset))
    · exact Or.inl (by simp)
    · exact Or.inr (Or.inl (by simp))
    · exact Or.inr (Or.inr ⟨id, hreg.later _, by simp⟩)

/-! ### Rows under the writes -/

@[simp] theorem recovered_kind (saved : JobId → Bool) (row : Row) :
    (recovered saved row).kind = row.kind := by
  unfold recovered
  split
  · cases row.validation_job_id <;> rfl
  · rfl

@[simp] theorem recovered_job_id (saved : JobId → Bool) (row : Row) :
    (recovered saved row).validation_job_id = row.validation_job_id := by
  unfold recovered
  split
  · cases h : row.validation_job_id <;> simp [h]
  · rfl

/-- The recovery leaves a row waiting exactly when it names no run. -/
theorem recovered_waiting {saved : JobId → Bool} {row : Row} (hkind : row.kind = .user) :
    (recovered saved row).status = .validating ↔
      row.status = .validating ∧ row.validation_job_id = none := by
  by_cases hst : row.status = .validating
  · cases hid : row.validation_job_id with
    | none => simp [recovered, hkind, hst, hid]
    | some id => cases hs : saved id <;> simp [recovered, hkind, hst, hid, hs]
  · simp [recovered, hst]

theorem recovered_fixed {saved : JobId → Bool} {row : Row}
    (h : row.status = .validating → row.validation_job_id = none) :
    recovered saved row = row := by
  by_cases hst : row.kind = .user ∧ row.status = .validating
  · simp [recovered, hst, h hst.2]
  · simp [recovered, hst]

theorem attach_validation_run_self {t : Strategies} {key : StrategyKey} (id : JobId) {row : Row}
    (hrow : t key = some row) (hkind : row.kind = .user) :
    ∃ row', attach_validation_run t key id key = some row' ∧ row'.kind = .user ∧
      (row'.validation_job_id = some id ∨
        row'.validation_job_id = row.validation_job_id ∧ row.validation_job_id ≠ none) := by
  refine ⟨_, update_user_row_self t _ hrow hkind, ?_⟩
  by_cases hid : row.validation_job_id = none ∨ row.validation_job_id = some id
  · simp [hid, hkind]
  · rw [if_neg hid]
    exact ⟨hkind, Or.inr ⟨rfl, fun h => hid (Or.inl h)⟩⟩

theorem settle_validation_self {t : Strategies} {spec : RunSpec} {row : Row} (passed : Bool)
    (hval : spec.purpose = .validation) (hrow : t spec.strategy_key = some row)
    (hkind : row.kind = .user) :
    settle_validation t spec passed spec.strategy_key = some (row.settle spec.id passed) := by
  simp only [settle_validation, hval]
  exact update_user_row_self t _ hrow hkind

/-- How the row of a created upload changes in one step. -/
theorem created_row_at {s s' : State Report} {l : Label Report} {ls : List (Label Report)}
    (hstep : uploads.step s l s') (h : UploadInv ls s) {key : StrategyKey} {row : Row}
    (hrow : s.manager.strategies key = some row) (hkind : row.kind = .user) :
    ∃ row', s'.manager.strategies key = some row' ∧ row'.kind = .user ∧ l ≠ .create key ∧
      (row' = row ∧ l ≠ .attach key true ∧ l ≠ .mark key true ∧
          (∀ id, Registered key id (manager_labels ls) →
            l ≠ .manager (.job id (.settle true))) ∨
        l = .recover true ∧
          row' = recovered (fun id => (s.manager.slots id).report.isSome) row ∨
        l = .mark key true ∧ row' = { row with status := .failed_validation, enabled := false } ∨
        (l = .attach key true ∨ ∃ id, Registered key id (manager_labels ls) ∧
            l = .manager (.job id (.settle true))) ∧
          row'.validation_job_id ≠ none ∧
          ∀ id, row'.validation_job_id = some id →
            row.validation_job_id = some id ∨ Registered key id (manager_labels ls)) := by
  rcases row_at hstep key with ⟨_, hnone, _⟩ | ⟨id, rfl, hflow, heq⟩ | ⟨rfl, _, heq⟩ |
    ⟨id, j, passed, rfl, hj, hval, hkey, heq⟩ | ⟨rfl, heq⟩ | ⟨heq, hcreate, hatt, hmark, hset⟩
  · simp [hrow] at hnone
  · obtain ⟨row', hrow', hkind', hid⟩ := attach_validation_run_self id hrow hkind
    refine ⟨row', by rw [heq]; exact hrow', hkind', by simp, ?_⟩
    refine Or.inr (Or.inr (Or.inr ⟨Or.inl rfl, ?_, ?_⟩))
    · rcases hid with hid | ⟨hid, hne⟩ <;> simp_all
    · intro id' hid'
      rcases hid with hid | ⟨hid, _⟩
      · obtain rfl : id = id' := by simpa [hid] using hid'
        exact Or.inr (h.flow_id key id (Or.inr hflow))
      · exact Or.inl (by rw [← hid]; exact hid')
  · refine ⟨{ row with status := .failed_validation, enabled := false },
      by rw [heq]; simp [mark_validation_unstarted, hrow], hkind, by simp, ?_⟩
    exact Or.inr (Or.inr (Or.inl ⟨rfl, rfl⟩))
  · subst hkey
    have hreg := h.manager.validation_registered id j hj hval
    have hown := h.manager.filed.own_id id j hj
    refine ⟨row.settle j.spec.id passed,
      by rw [heq]; exact settle_validation_self passed hval hrow hkind, hkind, by simp, ?_⟩
    refine Or.inr (Or.inr (Or.inr ⟨Or.inr ⟨id, hreg, rfl⟩, by simp [Row.settle], ?_⟩))
    intro id' hid'
    obtain rfl : id = id' := by simpa [Row.settle, hown] using hid'
    exact Or.inr hreg
  · refine ⟨recovered (fun id => (s.manager.slots id).report.isSome) row,
      by rw [heq]; simp [recover_validation_outcomes, hrow], by simpa using hkind,
      by simp, Or.inr (Or.inl ⟨rfl, rfl⟩)⟩
  · refine ⟨row, by rw [heq]; exact hrow, hkind, hcreate, Or.inl ⟨rfl, hatt, hmark, ?_⟩⟩
    rintro id hreg rfl
    -- the verdict is written by a job, and the job is the one registered for the key
    obtain ⟨_, _, _, ⟨_, _, ⟨j, _, hj, _⟩, _⟩, _⟩ := hstep
    obtain ⟨hval, hkey⟩ := h.manager.registered_spec key id hreg j hj
    exact hset id j hj hval hkey rfl

theorem created_row_step {s s' : State Report} {l : Label Report} {ls : List (Label Report)}
    (hstep : uploads.step s l s') (h : UploadInv ls s) {key : StrategyKey}
    (hc : Label.create key ∈ ls ++ [l]) :
    ∃ row, s'.manager.strategies key = some row ∧ row.kind = .user := by
  rcases List.mem_append.mp hc with hold | hnew
  · obtain ⟨row, hrow, hkind⟩ := h.created_row key hold
    obtain ⟨row', hrow', hkind', _⟩ := created_row_at hstep h hrow hkind
    exact ⟨row', hrow', hkind'⟩
  · obtain rfl := List.mem_singleton.mp hnew
    obtain ⟨_, _, rfl⟩ := hstep
    exact ⟨draft_row, by simp [State.with_flow, State.with_strategies, create_strategy], rfl⟩

theorem flow_created_step {s s' : State Report} {l : Label Report} {ls : List (Label Report)}
    (hstep : uploads.step s l s') (h : UploadInv ls s) {key : StrategyKey} {st : Stage}
    (hflow : s'.flows key = some st) : Label.create key ∈ ls ++ [l] := by
  rcases flow_at hstep hflow with hold | ⟨rfl, _⟩ | ⟨hsome, _⟩
  · exact List.mem_append_left _ (h.flow_created key st hold)
  · simp
  · obtain ⟨old, hold⟩ := Option.ne_none_iff_exists'.mp hsome
    exact List.mem_append_left _ (h.flow_created key old hold)

theorem flow_id_step {s s' : State Report} {l : Label Report} {ls : List (Label Report)}
    (hstep : uploads.step s l s') (h : UploadInv ls s) {key : StrategyKey} {id : JobId}
    (hflow : s'.flows key = some (.registered id) ∨ s'.flows key = some (.dispatched id)) :
    Registered key id (manager_labels (ls ++ [l])) := by
  refine Registered.later ?_ l
  rcases hflow with hflow | hflow
  · rcases flow_at hstep hflow with hold | ⟨_, hst⟩ | ⟨_, hst | ⟨id', j, hst, hj, hval, hkey⟩ |
      ⟨_, _, hst⟩⟩
    · exact h.flow_id key id (Or.inl hold)
    · simp at hst
    · simp at hst
    · obtain rfl : id = id' := by simpa using hst
      rw [← hkey]
      exact h.manager.validation_registered id j hj hval
    · simp at hst
  · rcases flow_at hstep hflow with hold | ⟨_, hst⟩ | ⟨_, hst | ⟨_, _, hst, _⟩ | ⟨id', hold, hst⟩⟩
    · exact h.flow_id key id (Or.inr hold)
    · simp at hst
    · simp at hst
    · simp at hst
    · obtain rfl : id = id' := by simpa using hst
      exact h.flow_id key id (Or.inl hold)

/-- A row is created under a key that nothing was recorded for. -/
theorem not_created {s s' : State Report} {key : StrategyKey} {ls : List (Label Report)}
    (hstep : uploads.step s (.create key) s') (h : UploadInv ls s) :
    Label.create key ∉ ls := by
  intro hc
  obtain ⟨row, hrow, _⟩ := h.created_row key hc
  obtain ⟨_, hnone, _⟩ := hstep
  simp [hrow] at hnone

theorem row_id_step {s s' : State Report} {l : Label Report} {ls : List (Label Report)}
    (hstep : uploads.step s l s') (h : UploadInv ls s) {key : StrategyKey} {row : Row} {id : JobId}
    (hc : Label.create key ∈ ls ++ [l]) (hrow : s'.manager.strategies key = some row)
    (hid : row.validation_job_id = some id) :
    Registered key id (manager_labels (ls ++ [l])) := by
  rcases List.mem_append.mp hc with hold | hnew
  · refine Registered.later ?_ l
    obtain ⟨old, hrow₀, hkind⟩ := h.created_row key hold
    obtain ⟨row', hrow', _, _, hcases⟩ := created_row_at hstep h hrow₀ hkind
    obtain rfl : row = row' := by simpa [hrow] using hrow'
    rcases hcases with ⟨rfl, _⟩ | ⟨_, rfl⟩ | ⟨_, rfl⟩ | ⟨_, _, hnew⟩
    · exact h.row_id key row id hold hrow₀ hid
    · exact h.row_id key old id hold hrow₀ (by simpa using hid)
    · exact h.row_id key old id hold hrow₀ hid
    · rcases hnew id hid with hsame | hreg
      · exact h.row_id key old id hold hrow₀ hsame
      · exact hreg
  · obtain rfl := List.mem_singleton.mp hnew
    obtain ⟨_, _, rfl⟩ := hstep
    obtain rfl : draft_row = row := by
      simpa [State.with_flow, State.with_strategies, create_strategy] using hrow
    simp [draft_row] at hid

theorem written_created_step {s s' : State Report} {l : Label Report} {ls : List (Label Report)}
    (hstep : uploads.step s l s') (h : UploadInv ls s) {key : StrategyKey}
    (hw : Written key (ls ++ [l])) : Label.create key ∈ ls ++ [l] := by
  refine List.mem_append_left _ ?_
  rcases (written_snoc hstep h key).mp hw with hold | rfl | rfl | ⟨id, hreg, _⟩
  · exact h.written_created key hold
  · obtain ⟨id, hflow, _⟩ := hstep
    exact h.flow_created key _ hflow
  · exact h.flow_created key _ hstep.1
  · exact h.registered_created key id hreg

theorem untouched_step {s s' : State Report} {l : Label Report} {ls : List (Label Report)}
    (hstep : uploads.step s l s') (h : UploadInv ls s) {key : StrategyKey} {row : Row}
    (hc : Label.create key ∈ ls ++ [l]) (hrow : s'.manager.strategies key = some row) :
    row.status = .validating ∧ row.validation_job_id = none ↔ ¬ Written key (ls ++ [l]) := by
  rw [written_snoc hstep h key]
  rcases List.mem_append.mp hc with hold | hnew
  · obtain ⟨old, hrow₀, hkind⟩ := h.created_row key hold
    have hbefore := h.untouched key old hold hrow₀
    obtain ⟨row', hrow', _, _, hcases⟩ := created_row_at hstep h hrow₀ hkind
    obtain rfl : row = row' := by simpa [hrow] using hrow'
    rcases hcases with ⟨rfl, hatt, hmark, hset⟩ | ⟨rfl, rfl⟩ | ⟨rfl, rfl⟩ | ⟨hl, hsome, _⟩
    · rw [hbefore]
      have hset' : ¬ ∃ id, Registered key id (manager_labels ls) ∧
          l = .manager (.job id (.settle true)) := fun ⟨id, hreg, heq⟩ => hset id hreg heq
      simp [hatt, hmark, hset']
    · rw [recovered_waiting hkind, recovered_job_id]
      simpa using hbefore
    · simp
    · have hnot : ¬ (row.status = .validating ∧ row.validation_job_id = none) :=
        fun hh => hsome hh.2
      rcases hl with rfl | ⟨id, hreg, rfl⟩
      · simp [hnot]
      · exact ⟨fun hh => absurd hh hnot,
          fun hh => absurd (Or.inr (Or.inr (Or.inr ⟨id, hreg, rfl⟩))) hh⟩
  · obtain rfl := List.mem_singleton.mp hnew
    have hfirst := not_created hstep h
    obtain ⟨_, _, rfl⟩ := hstep
    obtain rfl : draft_row = row := by
      simpa [State.with_flow, State.with_strategies, create_strategy] using hrow
    have hnot : ¬ Written key ls := fun hw => hfirst (h.written_created key hw)
    simp [draft_row, hnot]

theorem down_step {s s' : State Report} {l : Label Report} {ls : List (Label Report)}
    (hstep : uploads.step s l s') (h : UploadInv ls s) (hdown : s'.up = false) :
    (∀ key, s'.flows key = none) ∧ ∀ id, (s'.manager.slots id).job = none := by
  -- while the process is down there is no flow that could move
  have hflow : ∀ {key : StrategyKey} {st : Stage}, s.flows key = some st → s.up = true := by
    intro key st hst
    by_contra hup
    have := (h.down (by simpa using hup)).1 key
    simp [hst] at this
  match l with
  | .create _ =>
    obtain ⟨hup, _, rfl⟩ := hstep
    simp [State.with_flow, State.with_strategies, hup] at hdown
  | .registered _ _ =>
    obtain ⟨hst, _, rfl⟩ := hstep
    simp [State.with_flow, hflow hst] at hdown
  | .dispatched _ =>
    obtain ⟨_, _, hst, _, _, rfl⟩ := hstep
    simp [State.with_flow, hflow hst] at hdown
  | .start_raises _ =>
    obtain ⟨hst | ⟨_, hst⟩, rfl⟩ := hstep <;> simp [State.with_flow, hflow hst] at hdown
  | .attach _ _ =>
    obtain ⟨_, hst, rfl⟩ := hstep
    simp [State.with_flow, State.with_strategies, hflow hst] at hdown
  | .mark _ _ =>
    obtain ⟨hst, rfl⟩ := hstep
    simp [State.with_flow, State.with_strategies, hflow hst] at hdown
  | .manager _ => obtain ⟨hup, _, _, _, rfl⟩ := hstep; simp [hup] at hdown
  | .stop => obtain ⟨_, rfl⟩ := hstep; exact ⟨fun _ => rfl, fun _ => rfl⟩
  | .recover _ => obtain ⟨_, rfl⟩ := hstep; simp at hdown

theorem upload_inv_step {s s' : State Report} {l : Label Report} {ls : List (Label Report)}
    (hstep : uploads.step s l s') (h : UploadInv ls s) : UploadInv (ls ++ [l]) s' where
  manager := manager_step hstep h.manager
  created_row := fun _ hc => created_row_step hstep h hc
  flow_created := fun _ _ hflow => flow_created_step hstep h hflow
  flow_id := fun _ _ hflow => flow_id_step hstep h hflow
  registered_created := by
    intro key id hreg
    refine List.mem_append_left _ ?_
    rcases registered_at hstep hreg with hold | ⟨hflow, _⟩
    · exact h.registered_created key id hold
    · exact h.flow_created key _ hflow
  row_id := fun _ _ _ hc hrow hid => row_id_step hstep h hc hrow hid
  written_created := fun _ hw => written_created_step hstep h hw
  untouched := fun _ _ hc hrow => untouched_step hstep h hc hrow
  down := down_step hstep h

theorem upload_inv {ls : List (Label Report)} {s : State Report} (h : uploads.Trace ls s) :
    UploadInv ls s := by
  refine System.trace_invariant (P := UploadInv) ?_ (fun _ _ _ _ h hstep => upload_inv_step hstep h) h
  rintro s ⟨_, ⟨_, _, hjobs⟩, hflows, hreports⟩
  have hreg : ∀ key id, ¬ Registered key id (manager_labels ([] : List (Label Report))) := by
    rintro key id ⟨_, _, _, hmem⟩
    simp at hmem
  refine ⟨⟨?_, ?_, ?_, hreports, ?_, ?_, ?_, ?_, ?_⟩, ?_, ?_, ?_, ?_, ?_, ?_, ?_, ?_⟩
  · intro k j hj; simp [hjobs k] at hj
  · exact ⟨fun k j hj => by simp [hjobs k] at hj, fun k₁ _ j₁ _ _ h₁ => by simp [hjobs k₁] at h₁⟩
  · intro id j hj; simp [hjobs id] at hj
  · intro id a hmem; simp at hmem
  · intro key id hr; exact absurd hr (hreg key id)
  · intro id j hj; simp [hjobs id] at hj
  · intro id hs; simp [Saved] at hs
  · intro key id hr; exact absurd hr (hreg key id)
  · intro key hc; simp at hc
  · intro key st hst; simp [hflows key] at hst
  · intro key id hst; simp [hflows key] at hst
  · intro key id hr; exact absurd hr (hreg key id)
  · intro key row id hc; simp at hc
  · rintro key (hw | hw | ⟨id, hr, _⟩)
    · simp at hw
    · simp at hw
    · exact absurd hr (hreg key id)
  · intro key row hc; simp at hc
  · intro _; exact ⟨hflows, hjobs⟩

/-! ### After the recovery -/

/-- Nothing is left of the upload of `key` but its row, and no recovery
    selects that row. -/
structure Orphan (key : StrategyKey) (row : Row) (s : State Report) : Prop where
  no_flow : s.flows key = none
  no_job : ∀ id j, (s.manager.slots id).job = some j → j.spec.purpose = .validation →
    j.spec.strategy_key ≠ key
  kept : s.manager.strategies key = some row
  kind : row.kind = .user
  passed_over : row.status = .validating → row.validation_job_id = none

theorem orphan_step {s s' : State Report} {l : Label Report} {key : StrategyKey} {row : Row}
    (hstep : uploads.step s l s') (h : Orphan key row s) : Orphan key row s' := by
  refine ⟨?_, ?_, ?_, h.kind, h.passed_over⟩
  · by_contra hsome
    obtain ⟨st, hst⟩ := Option.ne_none_iff_exists'.mp hsome
    rcases flow_at hstep hst with hold | ⟨rfl, _⟩ | ⟨hold, _⟩
    · simp [h.no_flow] at hold
    · obtain ⟨_, hnone, _⟩ := hstep
      simp [h.kept] at hnone
    · exact hold h.no_flow
  · intro id j hj hval
    match l with
    | .create _ => obtain ⟨_, _, rfl⟩ := hstep; exact h.no_job id j hj hval
    | .registered _ _ => obtain ⟨_, _, rfl⟩ := hstep; exact h.no_job id j hj hval
    | .dispatched _ => obtain ⟨_, _, _, _, _, rfl⟩ := hstep; exact h.no_job id j hj hval
    | .start_raises _ => obtain ⟨_, rfl⟩ := hstep; exact h.no_job id j hj hval
    | .attach _ _ => obtain ⟨_, _, rfl⟩ := hstep; exact h.no_job id j hj hval
    | .mark _ _ => obtain ⟨_, rfl⟩ := hstep; exact h.no_job id j hj hval
    | .manager l =>
      obtain ⟨_, hguard, m, hm, rfl⟩ := hstep
      rcases spec_at hm hj with ⟨j₀, h₀, hspec⟩ | ⟨rfl, _⟩
      · rw [hspec] at hval ⊢
        exact h.no_job id j₀ h₀ hval
      · -- a new validation belongs to a flow, and this key has none
        rintro rfl
        have hflow := hguard.2 hval
        simp [h.no_flow] at hflow
    | .stop => obtain ⟨_, rfl⟩ := hstep; simp [restarted] at hj
    | .recover _ => obtain ⟨_, rfl⟩ := hstep; exact h.no_job id j hj hval
  · rcases row_at hstep key with ⟨_, hnone, _⟩ | ⟨id, _, hflow, _⟩ | ⟨_, hflow, _⟩ |
      ⟨id, j, passed, _, hj, hval, hkey, _⟩ | ⟨_, heq⟩ | ⟨heq, _⟩
    · simp [h.kept] at hnone
    · simp [h.no_flow] at hflow
    · simp [h.no_flow] at hflow
    · exact absurd hkey (h.no_job id j hj hval)
    · rw [heq]
      simp [recover_validation_outcomes, h.kept, recovered_fixed h.passed_over]
    · rw [heq]
      exact h.kept

/-- The row a recovery leaves behind for a created upload. -/
theorem orphan_of_recover {ls : List (Label Report)} {s s' : State Report} {key : StrategyKey}
    (h : UploadInv ls s) (hstep : uploads.step s (.recover true) s')
    (hc : Label.create key ∈ ls) :
    ∃ row, s.manager.strategies key = some row ∧ row.kind = .user ∧
      Orphan key (recovered (fun id => (s.manager.slots id).report.isSome) row) s' := by
  obtain ⟨row, hrow, hkind⟩ := h.created_row key hc
  obtain ⟨hdown, rfl⟩ := hstep
  obtain ⟨hflows, hjobs⟩ := h.down hdown
  refine ⟨row, hrow, hkind, hflows key, ?_, ?_, by simpa using hkind, ?_⟩
  · intro id j hj
    simp [hjobs id] at hj
  · simp [recover_validation_outcomes, hrow]
  · intro hst
    rw [recovered_job_id]
    exact ((recovered_waiting hkind).mp hst).2

/-- The verdict the recovery gives a row that names its run. -/
theorem recovered_active {saved : JobId → Bool} {row : Row} {id : JobId}
    (hkind : row.kind = .user) (hst : row.status = .validating)
    (hid : row.validation_job_id = some id) :
    ((recovered saved row).status = .active ∧ (recovered saved row).enabled = true ↔
      saved id = true) := by
  cases hs : saved id <;> simp [recovered, hkind, hst, hid, hs]

/-- **What the recovery settles.** After a recovery that committed, and for
    ever after, the row of an earlier upload is `validating` exactly when
    nothing had been written for it since `create_strategy`: no run attached,
    no verdict, no parking. A row that the recovery did settle is active and
    enabled exactly when the report of its run was saved, unless a DELETE
    removed that report first. -/
theorem recovery_settles_uploads {ls ms : List (Label Report)} {s s' t : State Report}
    {key : StrategyKey} (h : uploads.Trace ls s) (hstep : uploads.step s (.recover true) s')
    (hrun : uploads.Run s' ms t) (hc : Label.create key ∈ ls) :
    ∃ before row, s.manager.strategies key = some before ∧
      t.manager.strategies key = some row ∧
      (row.status = .validating ↔ ¬ Written key ls) ∧
      (before.status = .validating → Written key ls →
        ∃ id, before.validation_job_id = some id ∧ Registered key id (manager_labels ls) ∧
          (¬ Removed id (manager_labels ls) →
            (row.status = .active ∧ row.enabled = true ↔ Saved id (manager_labels ls)))) := by
  have hinv := upload_inv h
  obtain ⟨before, hbefore, hkind, horphan⟩ := orphan_of_recover hinv hstep hc
  have hend := System.Run.preserves
    (P := Orphan key (recovered (fun id => (s.manager.slots id).report.isSome) before))
    (fun _ _ _ hstep h => orphan_step hstep h) horphan hrun
  refine ⟨before, _, hbefore, hend.kept, ?_, ?_⟩
  · rw [recovered_waiting hkind]
    exact hinv.untouched key before hc hbefore
  · intro hst hw
    have hid : before.validation_job_id ≠ none := fun hid =>
      (hinv.untouched key before hc hbefore).mp ⟨hst, hid⟩ hw
    obtain ⟨id, hid⟩ := Option.ne_none_iff_exists'.mp hid
    have hreg := hinv.row_id key before id hc hbefore hid
    refine ⟨id, hid, hreg, fun hkept => ?_⟩
    rw [recovered_active hkind hst hid]
    have hstored := (hinv.manager.stored key id hreg).2
    simpa [hkept, Option.isSome_iff_ne_none] using hstored

/-! ### Two runs -/

/-- A database with no strategy, no report and no process. -/
def empty_state : State Unit where
  manager :=
    { closed := false
      pool_open := true
      slots := fun _ => { job := none, listed := false, report := none }
      strategies := fun _ => none }
  flows := fun _ => none
  issued := []
  up := false

theorem empty_state_init : uploads.init empty_state :=
  ⟨rfl, ⟨rfl, rfl, fun _ => rfl⟩, fun _ => rfl, fun _ h => absurd rfl h⟩

def draft_spec : RunSpec :=
  { id := 7, owner_id := some 1, strategy_key := "user_draft", purpose := .validation }

/-- The process stops after the report was saved, before its verdict is written. -/
def interrupted_run : List (Label Unit) :=
  [.recover true, .create "user_draft", .manager (.job 7 (.register draft_spec)),
   .registered "user_draft" 7, .manager (.job 7 (.submit true "")), .dispatched "user_draft",
   .attach "user_draft" true, .manager (.job 7 .start_worker),
   .manager (.job 7 (.finish_worker (.report ()))), .manager (.job 7 (.on_done none)),
   .manager (.job 7 (.save none)), .stop]

theorem interrupted_run_ends : ∃ s, uploads.Run empty_state interrupted_run s ∧
    s.up = false ∧ s.manager.strategies "user_draft" = some
      { kind := .user, status := .validating, enabled := false, validation_job_id := some 7 } := by
  refine System.Run.exists_cons ⟨rfl, rfl⟩ ?_
  refine System.Run.exists_cons ⟨rfl, rfl, rfl⟩ ?_
  refine System.Run.exists_cons ⟨rfl, ⟨nofun, fun _ => rfl⟩, _,
    ⟨⟨rfl, fun _ k j hj => by simp [empty_state, State.with_flow, State.with_strategies] at hj⟩, _,
      ⟨rfl, rfl, nofun, rfl, rfl, rfl⟩, rfl⟩, rfl⟩ ?_
  refine System.Run.exists_cons ⟨rfl, ⟨_, rfl, rfl, rfl⟩, rfl⟩ ?_
  refine System.Run.exists_cons ⟨rfl, trivial, _,
    ⟨trivial, _, ⟨_, _, rfl, ⟨rfl, fun _ => rfl, rfl⟩, nofun, rfl⟩, rfl⟩, rfl⟩ ?_
  refine System.Run.exists_cons ⟨_, _, rfl, rfl, nofun, rfl⟩ ?_
  refine System.Run.exists_cons ⟨_, rfl, rfl⟩ ?_
  refine System.Run.exists_cons ⟨rfl, trivial, _,
    ⟨trivial, _, ⟨_, _, rfl, Or.inl ⟨rfl, rfl⟩, nofun, rfl⟩, rfl⟩, rfl⟩ ?_
  refine System.Run.exists_cons ⟨rfl, trivial, _,
    ⟨trivial, _, ⟨_, _, rfl, ⟨Or.inl rfl, rfl⟩, nofun, rfl⟩, rfl⟩, rfl⟩ ?_
  refine System.Run.exists_cons ⟨rfl, trivial, _,
    ⟨trivial, _, ⟨_, _, rfl, ⟨_, rfl, rfl, rfl, rfl, rfl⟩, nofun, rfl⟩, rfl⟩, rfl⟩ ?_
  refine System.Run.exists_cons ⟨rfl, trivial, _,
    ⟨trivial, _, ⟨_, _, rfl, ⟨_, _, rfl, rfl, rfl⟩, fun _ => rfl, rfl⟩, rfl⟩, rfl⟩ ?_
  refine System.Run.exists_cons ⟨rfl, rfl⟩ ?_
  exact System.Run.exists_refl ⟨rfl, rfl⟩

/-- The next start activates that upload. -/
theorem interrupted_run_recovers : ∃ s s' row,
    uploads.Trace interrupted_run s ∧ uploads.step s (.recover true) s' ∧
    s'.manager.strategies "user_draft" = some row ∧ row.status = .active ∧
    row.enabled = true := by
  obtain ⟨s, hrun, hdown, hrow⟩ := interrupted_run_ends
  have h : uploads.Trace interrupted_run s := ⟨empty_state, empty_state_init, hrun⟩
  obtain ⟨s', hstep⟩ : ∃ s', uploads.step s (.recover true) s' := ⟨_, hdown, rfl⟩
  obtain ⟨before, row, hbefore, hafter, _, hverdict⟩ :=
    recovery_settles_uploads h hstep (System.Run.refl s')
      (by simp [interrupted_run] : Label.create "user_draft" ∈ interrupted_run)
  obtain rfl : _ = before := by simpa [hrow] using hbefore
  obtain ⟨id, hid, _, hsaved⟩ := hverdict rfl (Or.inl (by simp [interrupted_run]))
  obtain rfl : 7 = id := by simpa using hid
  have hactive := (hsaved (by simp [Removed, interrupted_run])).mpr
    (by simp [Saved, interrupted_run])
  exact ⟨s, s', row, h, hstep, hafter, hactive⟩

/-- The process stops right after `create_strategy`: the next recovery
    passes the row over, and no job is left to settle it. -/
theorem stopped_before_attach_stuck : ∃ s s' row,
    uploads.Trace [.recover true, .create "user_draft", .stop] s ∧
    uploads.step (s : State Unit) (.recover true) s' ∧
    s'.manager.strategies "user_draft" = some row ∧ row.kind = .user ∧
    row.status = .validating ∧ ∀ id, (s'.manager.slots id).job = none := by
  have hrun : ∃ s, uploads.Run empty_state [.recover true, .create "user_draft", .stop] s ∧
      ∃ s', uploads.step s (.recover true) s' ∧
        s'.manager.strategies "user_draft" = some draft_row ∧
        ∀ id, (s'.manager.slots id).job = none := by
    refine System.Run.exists_cons ⟨rfl, rfl⟩ ?_
    refine System.Run.exists_cons ⟨rfl, rfl, rfl⟩ ?_
    refine System.Run.exists_cons ⟨rfl, rfl⟩ ?_
    exact System.Run.exists_refl ⟨_, ⟨rfl, rfl⟩, rfl, fun _ => rfl⟩
  obtain ⟨s, hrun, s', hstep, hrow, hjobs⟩ := hrun
  exact ⟨s, s', draft_row, ⟨empty_state, empty_state_init, hrun⟩, hstep, hrow, rfl, rfl, hjobs⟩

end Uploads
