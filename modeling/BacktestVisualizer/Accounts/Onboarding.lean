import BacktestVisualizer.Accounts.StarterReports

/-! # Onboarding Happens Once

  A transaction that decides holds the lock of the user row, and the row has
  no marker until it commits. So there is one decision, it is made on what is
  committed, and what follows from it is committed with the marker.

  The decision looks at the reports that are there when it is made:
  `deleted_while_locked` is a run in which the only report of the user is
  deleted after the lock was taken and before they are looked at.
-/

open LTS

namespace Onboarding

variable {db db' : Db} {n m : ℕ} {x : Txn}

/-! ### The invariant -/

/-- The transaction decides: it has the lock, and there is no marker. -/
structure Holds (db : Db) (n : ℕ) : Prop where
  lock : db.lock = some n
  unseeded : db.starter_reports_seeded_at = none

theorem Holds.unique (h : Holds db n) (h' : Holds db m) : n = m := by
  have hsame := h.lock.symm.trans h'.lock
  exact Option.some.inj hsame

/-- No example of the user is committed. -/
def NoStarters (db : Db) : Prop := ∀ r ∈ db.reports, ∀ key, r.id ≠ .starter key

/-- A transaction that has written nothing. -/
structure Clean (db : Db) (n : ℕ) (x : Txn) : Prop where
  inserted : x.inserted = []
  marker : x.marker = none
  not_failed : x.phase ≠ .failed
  locked : x.phase = .locked → Holds db n
  choosing : ∀ keys seeded_at, x.phase = .choosing keys seeded_at → Holds db n ∧ NoStarters db

/-- A transaction that has written its decision. -/
structure Decided (db : Db) (n : ℕ) (x : Txn) : Prop where
  returned : x.phase = .returned
  holds : Holds db n
  marker : x.marker.isSome
  inserted : x.inserted = [] ∨ x.inserted = examples ∧ NoStarters db

def TxnOk (db : Db) (n : ℕ) (x : Txn) : Prop := Clean db n x ∨ Decided db n x

structure Inv (db : Db) : Prop where
  txn : ∀ n, TxnOk db n (db.txns n)
  visible : ∀ r ∈ db.reports, ∀ key, r.id = .starter key → r.visible
  seeded : db.seedings = [] ∨ db.seedings = [examples] ∧ db.starter_reports_seeded_at.isSome

/-- A phase before the lock, or after a return without a decision. -/
theorem clean_at {phase : Phase} (hlocked : phase ≠ .locked) (hfailed : phase ≠ .failed)
    (hchoosing : ∀ keys seeded_at, phase ≠ .choosing keys seeded_at) :
    Clean db n (.at phase) where
  inserted := rfl
  marker := rfl
  not_failed := hfailed
  locked := fun h => absurd h hlocked
  choosing := fun keys seeded_at h => absurd h (hchoosing keys seeded_at)

/-- What a transaction may rely on carries over to a later state. -/
theorem TxnOk.transfer (h : TxnOk db n x)
    (hkept : Holds db n → Holds db' n ∧ (NoStarters db → NoStarters db')) : TxnOk db' n x := by
  rcases h with hclean | hdecided
  · left
    refine ⟨hclean.inserted, hclean.marker, hclean.not_failed, ?_, ?_⟩
    · intro hlocked
      exact (hkept (hclean.locked hlocked)).1
    · intro keys seeded_at hchoosing
      obtain ⟨hholds, hnone⟩ := hclean.choosing keys seeded_at hchoosing
      exact ⟨(hkept hholds).1, (hkept hholds).2 hnone⟩
  · right
    obtain ⟨hholds, hnone⟩ := hkept hdecided.holds
    refine ⟨hdecided.returned, hholds, hdecided.marker, ?_⟩
    rcases hdecided.inserted with hempty | ⟨hexamples, hstarters⟩
    · exact Or.inl hempty
    · exact Or.inr ⟨hexamples, hnone hstarters⟩

theorem TxnOk.not_failed (h : TxnOk db n x) : x.phase ≠ .failed := by
  rcases h with hclean | hdecided
  · exact hclean.not_failed
  · rw [hdecided.returned]
    simp

/-- A transaction that has written something decides. -/
theorem TxnOk.holds (h : TxnOk db n x) (hwritten : x.inserted ≠ [] ∨ x.marker ≠ none) :
    Holds db n := by
  rcases h with hclean | hdecided
  · rcases hwritten with hinserted | hmarker
    · exact absurd hclean.inserted hinserted
    · exact absurd hclean.marker hmarker
  · exact hdecided.holds

theorem TxnOk.locked (h : TxnOk db n x) (hphase : x.phase = .locked) : Holds db n := by
  rcases h with hclean | hdecided
  · exact hclean.locked hphase
  · rw [hdecided.returned] at hphase
    exact absurd hphase (by simp)

theorem TxnOk.choosing {keys : List String} {seeded_at : Time} (h : TxnOk db n x)
    (hphase : x.phase = .choosing keys seeded_at) : Holds db n ∧ NoStarters db := by
  rcases h with hclean | hdecided
  · exact hclean.choosing keys seeded_at hphase
  · rw [hdecided.returned] at hphase
    exact absurd hphase (by simp)

/-! ### Steps within a transaction -/

/-- A step that moves one transaction and nothing else. -/
theorem Inv.set_txn (h : Inv db) (hx : TxnOk db n x) : Inv (db.set_txn n x) where
  txn := by
    intro m
    by_cases hm : m = n
    · subst hm
      rw [set_txn_self]
      exact hx.transfer (fun hholds => ⟨⟨hholds.lock, hholds.unseeded⟩, id⟩)
    · rw [set_txn_ne db x hm]
      exact (h.txn m).transfer (fun hholds => ⟨⟨hholds.lock, hholds.unseeded⟩, id⟩)
  visible := h.visible
  seeded := h.seeded

/-- Where nothing is visible there is no example. -/
theorem Inv.no_starters (h : Inv db) (hnone : owner_has_visible_reports db.reports = false) :
    NoStarters db := by
  intro r hr key hid
  have hvisible := h.visible r hr key hid
  have hnot := List.any_eq_false.mp hnone r hr
  exact hnot hvisible

theorem Inv.check (h : Inv db) (hphase : (db.txns n).phase = .locked) (seeded_at : Time) :
    TxnOk db n (if owner_has_visible_reports db.reports then
        { phase := .returned, inserted := [], marker := some seeded_at }
      else .at (.choosing starter_strategy_keys seeded_at)) := by
  have hholds := (h.txn n).locked hphase
  split
  · exact Or.inr ⟨rfl, hholds, rfl, Or.inl rfl⟩
  · rename_i hnone
    have hstarters := h.no_starters (by simpa using hnone)
    left
    refine ⟨rfl, rfl, by simp [Txn.at], by simp [Txn.at], ?_⟩
    intro _ _ _
    exact ⟨hholds, hstarters⟩

theorem Inv.get_strategy (h : Inv db) {keys keys' : List String} {seeded_at : Time}
    (hphase : (db.txns n).phase = .choosing keys seeded_at) (ok : Bool) :
    TxnOk db n (.at (if ok then .choosing keys' seeded_at else .returned)) := by
  have hchoosing := (h.txn n).choosing hphase
  left
  cases ok with
  | true =>
    refine ⟨rfl, rfl, by simp [Txn.at], by simp [Txn.at], ?_⟩
    intro _ _ _
    exact hchoosing
  | false => exact clean_at (by simp) (by simp) (by simp)

/-- **No duplicate key**: where a call inserts, no example is there. -/
theorem Inv.no_clash (h : Inv db) {seeded_at : Time}
    (hphase : (db.txns n).phase = .choosing [] seeded_at) : ¬ db.clashes n := by
  obtain ⟨hholds, hnone⟩ := (h.txn n).choosing hphase
  intro hclash
  obtain ⟨key, _, ⟨r, hr, hid⟩ | ⟨m, hm, r, hr, _⟩⟩ := hclash
  · exact hnone r hr key hid
  · -- another transaction with an insert would hold the lock
    have hother := (h.txn m).holds (Or.inl (List.ne_nil_of_mem hr))
    exact hm (hother.unique hholds)

theorem Inv.add (h : Inv db) {seeded_at : Time}
    (hphase : (db.txns n).phase = .choosing [] seeded_at) :
    TxnOk db n { phase := .returned, inserted := examples, marker := some seeded_at } := by
  obtain ⟨hholds, hnone⟩ := (h.txn n).choosing hphase
  exact Or.inr ⟨rfl, hholds, rfl, Or.inr ⟨rfl, hnone⟩⟩

/-! ### The lock -/

theorem Inv.lock (h : Inv db) (hfree : db.lock = none) :
    Inv { db.set_txn n (.at (if db.starter_reports_seeded_at.isSome then .returned
            else .locked)) with lock := some n } where
  txn := by
    intro m
    -- nobody has the lock, so nobody decides
    have hnobody : ∀ k, ¬ Holds db k := by
      intro k hholds
      have hlock := hholds.lock
      rw [hfree] at hlock
      exact absurd hlock (by simp)
    by_cases hm : m = n
    · subst hm
      show TxnOk _ m ((db.set_txn m _).txns m)
      rw [set_txn_self]
      left
      split
      · exact clean_at (by simp) (by simp) (by simp)
      · rename_i hseeded
        have hnone : db.starter_reports_seeded_at = none := by simpa using hseeded
        refine ⟨rfl, rfl, by simp [Txn.at], ?_, by simp [Txn.at]⟩
        intro _
        exact ⟨rfl, hnone⟩
    · show TxnOk _ m ((db.set_txn n _).txns m)
      rw [set_txn_ne db _ hm]
      exact (h.txn m).transfer (fun hholds => absurd hholds (hnobody m))
  visible := h.visible
  seeded := h.seeded

/-- The end of a transaction leaves the lock of the others alone. -/
theorem Holds.released (h : Holds db m) (hm : m ≠ n) : db.released n = some m := by
  unfold Db.released
  rw [if_neg]
  · exact h.lock
  · rw [h.lock]
    simpa using hm

theorem Inv.rollback (h : Inv db) :
    Inv { db.set_txn n (.at .idle) with lock := db.released n } where
  txn := by
    intro m
    by_cases hm : m = n
    · subst hm
      show TxnOk _ m ((db.set_txn m _).txns m)
      rw [set_txn_self]
      exact Or.inl (clean_at (by simp) (by simp) (by simp))
    · show TxnOk _ m ((db.set_txn n _).txns m)
      rw [set_txn_ne db _ hm]
      apply (h.txn m).transfer
      intro hholds
      exact ⟨⟨hholds.released hm, hholds.unseeded⟩, id⟩
  visible := h.visible
  seeded := h.seeded

/-- The database after a commit. -/
def Db.committed (db : Db) (n : ℕ) : Db :=
  { db.set_txn n (.at .idle) with
    starter_reports_seeded_at := (db.txns n).marker.or db.starter_reports_seeded_at
    reports := db.reports ++ (db.txns n).inserted
    lock := db.released n
    seedings := if (db.txns n).inserted = [] then db.seedings
      else db.seedings ++ [(db.txns n).inserted] }

/-- A commit without a decision changes nothing but the lock. -/
theorem committed_clean (h : Clean db n (db.txns n)) :
    (db.committed n).starter_reports_seeded_at = db.starter_reports_seeded_at ∧
    (db.committed n).reports = db.reports ∧ (db.committed n).seedings = db.seedings := by
  refine ⟨?_, ?_, ?_⟩
  · show (db.txns n).marker.or _ = _
    rw [h.marker, Option.none_or]
  · show db.reports ++ (db.txns n).inserted = _
    rw [h.inserted, List.append_nil]
  · exact if_pos h.inserted

/-- A commit of a decision comes after none, and sets the marker. -/
theorem Inv.committed_decided (h : Inv db) (hdecided : Decided db n (db.txns n)) :
    db.seedings = [] ∧ (db.committed n).starter_reports_seeded_at = (db.txns n).marker ∧
      (db.committed n).starter_reports_seeded_at.isSome := by
  have hmarker := hdecided.marker
  have hseeded : (db.committed n).starter_reports_seeded_at = (db.txns n).marker := by
    show (db.txns n).marker.or _ = _
    rw [hdecided.holds.unseeded, Option.or_none]
  refine ⟨?_, hseeded, by rwa [hseeded]⟩
  rcases h.seeded with hempty | ⟨_, hsome⟩
  · exact hempty
  · rw [hdecided.holds.unseeded] at hsome
    exact absurd hsome (by simp)

theorem examples_visible {r : Report} (hr : r ∈ examples) : r.visible := by
  obtain ⟨key, _, rfl⟩ := List.mem_map.mp hr
  simp [Report.visible, Report.is_example, build_report]

theorem Inv.commit (h : Inv db) : Inv (db.committed n) where
  txn := by
    intro m
    by_cases hm : m = n
    · subst hm
      show TxnOk _ m ((db.set_txn m _).txns m)
      rw [set_txn_self]
      exact Or.inl (clean_at (by simp) (by simp) (by simp))
    · show TxnOk _ m ((db.set_txn n _).txns m)
      rw [set_txn_ne db _ hm]
      apply (h.txn m).transfer
      intro hholds
      -- the other one decides, so this one has written nothing
      rcases h.txn n with hclean | hdecided
      · obtain ⟨hseeded, hreports, _⟩ := committed_clean hclean
        refine ⟨⟨hholds.released hm, hseeded.trans hholds.unseeded⟩, ?_⟩
        intro hnone r hr
        rw [hreports] at hr
        exact hnone r hr
      · exact absurd (hholds.unique hdecided.holds) hm
  visible := by
    intro r hr key hid
    rcases h.txn n with hclean | hdecided
    · rw [(committed_clean hclean).2.1] at hr
      exact h.visible r hr key hid
    · rcases List.mem_append.mp hr with hbefore | hinserted
      · exact h.visible r hbefore key hid
      · rcases hdecided.inserted with hempty | ⟨hexamples, _⟩
        · rw [hempty] at hinserted
          exact absurd hinserted (by simp)
        · rw [hexamples] at hinserted
          exact examples_visible hinserted
  seeded := by
    rcases h.txn n with hclean | hdecided
    · obtain ⟨hseeded, _, hseedings⟩ := committed_clean hclean
      rw [hseedings, hseeded]
      exact h.seeded
    · obtain ⟨hfirst, _, hsome⟩ := h.committed_decided hdecided
      show (if (db.txns n).inserted = [] then db.seedings
        else db.seedings ++ [(db.txns n).inserted]) = [] ∨ _
      rcases hdecided.inserted with hempty | ⟨hexamples, _⟩
      · rw [if_pos hempty]
        exact Or.inl hfirst
      · right
        refine ⟨?_, hsome⟩
        show (if (db.txns n).inserted = [] then db.seedings
          else db.seedings ++ [(db.txns n).inserted]) = [examples]
        rw [hexamples, if_neg (by simp [examples, starter_strategy_keys]), hfirst, List.nil_append]

/-! ### The rest of the system -/

theorem Inv.save (h : Inv db) {r : Report} {k : ℕ} (hr : r.id = .run k) :
    Inv { db with reports := db.reports ++ [r] } where
  txn := by
    intro m
    apply (h.txn m).transfer
    intro hholds
    refine ⟨⟨hholds.lock, hholds.unseeded⟩, ?_⟩
    intro hnone r' hr' key
    rcases List.mem_append.mp hr' with hbefore | hnew
    · exact hnone r' hbefore key
    · rw [List.mem_singleton.mp hnew, hr]
      simp
  visible := by
    intro r' hr' key hid
    rcases List.mem_append.mp hr' with hbefore | hnew
    · exact h.visible r' hbefore key hid
    · rw [List.mem_singleton.mp hnew, hr] at hid
      exact absurd hid (by simp)
  seeded := h.seeded

theorem Inv.remove (h : Inv db) (id : ReportId) :
    Inv { db with reports := db.reports.filter (fun r => r.id ≠ id) } where
  txn := by
    intro m
    apply (h.txn m).transfer
    intro hholds
    refine ⟨⟨hholds.lock, hholds.unseeded⟩, ?_⟩
    intro hnone r hr
    exact hnone r (List.mem_of_mem_filter hr)
  visible := fun r hr => h.visible r (List.mem_of_mem_filter hr)
  seeded := h.seeded

theorem inv_init (h : ensure_starter_reports.init db) : Inv db := by
  obtain ⟨hidle, hlock, hseedings, hvisible⟩ := h
  refine ⟨?_, hvisible, Or.inl hseedings⟩
  intro n
  rw [hidle n]
  exact Or.inl (clean_at (by simp) (by simp) (by simp))

/-- **Every step** keeps the invariant. -/
theorem Inv.step {l : Label} (h : Inv db) (hstep : ensure_starter_reports.step db l db') :
    Inv db' := by
  cases l with
  | load n =>
    obtain ⟨_, rfl⟩ := hstep
    exact h.set_txn (Or.inl (clean_at (by simp) (by simp) (by simp)))
  | look n =>
    obtain ⟨copy, _, rfl⟩ := hstep
    apply h.set_txn
    left
    split
    · exact clean_at (by simp) (by simp) (by simp)
    · exact clean_at (by simp) (by simp) (by simp)
  | lock n =>
    obtain ⟨_, hfree, rfl⟩ := hstep
    exact h.lock hfree
  | check n seeded_at =>
    obtain ⟨hphase, rfl⟩ := hstep
    exact h.set_txn (h.check hphase seeded_at)
  | get_strategy n =>
    obtain ⟨key, keys, seeded_at, hphase, rfl⟩ := hstep
    exact h.set_txn (h.get_strategy hphase _)
  | add_completed_reports n =>
    obtain ⟨seeded_at, hphase, rfl⟩ := hstep
    rw [if_neg (h.no_clash hphase)]
    exact h.set_txn (h.add hphase)
  | commit n =>
    obtain ⟨_, _, rfl⟩ := hstep
    exact h.commit
  | rollback n =>
    obtain ⟨_, rfl⟩ := hstep
    exact h.rollback
  | save r =>
    obtain ⟨⟨k, hr⟩, _, rfl⟩ := hstep
    exact h.save hr
  | remove id =>
    obtain rfl := hstep
    exact h.remove id
  | change key strategy =>
    obtain rfl := hstep
    refine ⟨fun m => (h.txn m).transfer ?_, h.visible, h.seeded⟩
    intro hholds
    exact ⟨⟨hholds.lock, hholds.unseeded⟩, id⟩

theorem inv_trace {ls : List Label} (h : ensure_starter_reports.Trace ls db) : Inv db :=
  System.invariant (fun _ => inv_init) (fun _ _ _ hinv hstep => hinv.step hstep) h

/-! ### What a step can do -/

/-- **A step** moves one transaction and perhaps the lock, or commits, or is
    one of the rest of the system. Only a rollback moves a transaction that has
    returned. -/
theorem step_cases {l : Label} (hstep : ensure_starter_reports.step db l db') :
    (∃ m x lock, l.of_call ∧ ((db.txns m).phase ≠ .returned ∨ l = .rollback m) ∧
      db' = { db.set_txn m x with lock := lock }) ∨
    (∃ m, l = .commit m ∧ db' = db.committed m) ∨
    (∃ r, l = .save r ∧ db' = { db with reports := db.reports ++ [r] }) ∨
    (∃ id, l = .remove id ∧
      db' = { db with reports := db.reports.filter (fun r => r.id ≠ id) }) ∨
    (∃ key strategy, l = .change key strategy ∧
      db' = { db with strategies := fun k => if k = key then strategy else db.strategies k }) := by
  cases l with
  | load n =>
    obtain ⟨hphase, rfl⟩ := hstep
    exact Or.inl ⟨n, _, db.lock, trivial, Or.inl (by rw [hphase]; simp), rfl⟩
  | look n =>
    obtain ⟨_, hphase, rfl⟩ := hstep
    exact Or.inl ⟨n, _, db.lock, trivial, Or.inl (by rw [hphase]; simp), rfl⟩
  | lock n =>
    obtain ⟨hphase, _, rfl⟩ := hstep
    exact Or.inl ⟨n, _, some n, trivial, Or.inl (by rw [hphase]; simp), rfl⟩
  | check n seeded_at =>
    obtain ⟨hphase, rfl⟩ := hstep
    exact Or.inl ⟨n, _, db.lock, trivial, Or.inl (by rw [hphase]; simp), rfl⟩
  | get_strategy n =>
    obtain ⟨_, _, _, hphase, rfl⟩ := hstep
    exact Or.inl ⟨n, _, db.lock, trivial, Or.inl (by rw [hphase]; simp), rfl⟩
  | add_completed_reports n =>
    obtain ⟨_, hphase, rfl⟩ := hstep
    exact Or.inl ⟨n, _, db.lock, trivial, Or.inl (by rw [hphase]; simp), rfl⟩
  | commit n =>
    obtain ⟨_, _, rfl⟩ := hstep
    exact Or.inr (Or.inl ⟨n, rfl, rfl⟩)
  | rollback n =>
    obtain ⟨_, rfl⟩ := hstep
    exact Or.inl ⟨n, _, db.released n, trivial, Or.inr rfl, rfl⟩
  | save r =>
    obtain ⟨_, _, rfl⟩ := hstep
    exact Or.inr (Or.inr (Or.inl ⟨r, rfl, rfl⟩))
  | remove id =>
    exact Or.inr (Or.inr (Or.inr (Or.inl ⟨id, rfl, hstep⟩)))
  | change key strategy =>
    exact Or.inr (Or.inr (Or.inr (Or.inr ⟨key, strategy, rfl, hstep⟩)))

/-! ### After the marker -/

/-- Once there is a marker no transaction has written anything. -/
theorem Inv.clean (h : Inv db) {marker : Time}
    (hseeded : db.starter_reports_seeded_at = some marker) (n : ℕ) : Clean db n (db.txns n) := by
  rcases h.txn n with hclean | hdecided
  · exact hclean
  · have hnone := hdecided.holds.unseeded
    rw [hseeded] at hnone
    exact absurd hnone (by simp)

/-- **A step after the marker** leaves it, inserts no examples, and changes no
    report if it is one of a call. -/
theorem Inv.seeded_step {l : Label} {marker : Time} (h : Inv db)
    (hseeded : db.starter_reports_seeded_at = some marker)
    (hstep : ensure_starter_reports.step db l db') :
    db'.starter_reports_seeded_at = some marker ∧ db'.seedings = db.seedings ∧
      (l.of_call → db'.reports = db.reports) := by
  rcases step_cases hstep with ⟨m, x, lock, _, _, rfl⟩ | ⟨m, rfl, rfl⟩ | ⟨r, rfl, rfl⟩ |
    ⟨id, rfl, rfl⟩ | ⟨key, strategy, rfl, rfl⟩
  · exact ⟨hseeded, rfl, fun _ => rfl⟩
  · obtain ⟨hmarker, hreports, hseedings⟩ := committed_clean (h.clean hseeded m)
    exact ⟨hmarker.trans hseeded, hseedings, fun _ => hreports⟩
  · exact ⟨hseeded, rfl, fun hcall => absurd hcall not_false⟩
  · exact ⟨hseeded, rfl, fun hcall => absurd hcall not_false⟩
  · exact ⟨hseeded, rfl, fun hcall => absurd hcall not_false⟩

/-- What a run after the marker keeps. -/
theorem Inv.seeded_run {ls : List Label} {marker : Time} (h : Inv db)
    (hseeded : db.starter_reports_seeded_at = some marker)
    (hrun : ensure_starter_reports.Run db ls db') :
    Inv db' ∧ db'.starter_reports_seeded_at = some marker ∧ db'.seedings = db.seedings := by
  induction hrun with
  | refl => exact ⟨h, hseeded, rfl⟩
  | snoc _ hstep ih =>
    obtain ⟨hinv, hmarker, hseedings⟩ := ih
    obtain ⟨hmarker', hseedings', _⟩ := hinv.seeded_step hmarker hstep
    exact ⟨hinv.step hstep, hmarker', hseedings'.trans hseedings⟩

/-! ### The decision -/

/-- A report stays until it is deleted. -/
theorem report_kept {l : Label} {r : Report} (hstep : ensure_starter_reports.step db l db')
    (hl : l ≠ .remove r.id) (hr : r ∈ db.reports) : r ∈ db'.reports := by
  rcases step_cases hstep with ⟨m, x, lock, _, _, rfl⟩ | ⟨m, rfl, rfl⟩ | ⟨r', rfl, rfl⟩ |
    ⟨id, rfl, rfl⟩ | ⟨key, strategy, rfl, rfl⟩
  · exact hr
  · exact List.mem_append_left _ hr
  · exact List.mem_append_left _ hr
  · apply List.mem_filter.mpr
    refine ⟨hr, ?_⟩
    have hne : r.id ≠ id := fun heq => hl (by rw [heq])
    simpa using hne
  · exact hr

theorem report_kept_run {ls : List Label} {r : Report} (hr : r ∈ db.reports)
    (hrun : ensure_starter_reports.Run db ls db') (hls : .remove r.id ∉ ls) :
    r ∈ db'.reports := by
  induction hrun with
  | refl => exact hr
  | snoc _ hstep ih =>
    rw [List.mem_append, not_or] at hls
    apply report_kept hstep
    · intro hl
      exact hls.2 (by rw [hl]; simp)
    · exact ih hls.1

/-- A transaction that has returned waits for its end. -/
theorem returned_waits {l : Label} (hstep : ensure_starter_reports.step db l db')
    (hphase : (db.txns n).phase = .returned) (hcommit : l ≠ .commit n)
    (hrollback : l ≠ .rollback n) : db'.txns n = db.txns n := by
  rcases step_cases hstep with ⟨m, x, lock, _, hmoved, rfl⟩ | ⟨m, rfl, rfl⟩ | ⟨r, rfl, rfl⟩ |
    ⟨id, rfl, rfl⟩ | ⟨key, strategy, rfl, rfl⟩
  · apply set_txn_ne
    intro hnm
    subst hnm
    rcases hmoved with hphase' | hend
    · exact hphase' hphase
    · exact hrollback hend
  · exact set_txn_ne db _ (fun hnm => hcommit (by rw [hnm]))
  · rfl
  · rfl
  · rfl

theorem returned_waits_run {ls : List Label} (hrun : ensure_starter_reports.Run db ls db')
    (hphase : (db.txns n).phase = .returned) (hcommit : .commit n ∉ ls)
    (hrollback : .rollback n ∉ ls) : db'.txns n = db.txns n := by
  induction hrun with
  | refl => rfl
  | snoc _ hstep ih =>
    rw [List.mem_append, not_or, List.mem_singleton] at hcommit hrollback
    have hsame := ih hcommit.1 hrollback.1
    rw [← hsame]
    apply returned_waits hstep
    · rw [hsame, hphase]
    · exact fun hl => hcommit.2 hl.symm
    · exact fun hl => hrollback.2 hl.symm

/-- A transaction takes the lock, looks at the reports after `before`, and
    commits after `after`. -/
def Decides (db : Db) (n : ℕ) (before : List Label) (seeded_at : Time) (after : List Label)
    (db' : Db) : Prop :=
  ∃ db₁ db₂ db₃ db₄, ensure_starter_reports.step db (.lock n) db₁ ∧
    ensure_starter_reports.Run db₁ before db₂ ∧ .commit n ∉ before ∧ .rollback n ∉ before ∧
    ensure_starter_reports.step db₂ (.check n seeded_at) db₃ ∧
    ensure_starter_reports.Run db₃ after db₄ ∧ .commit n ∉ after ∧ .rollback n ∉ after ∧
    ensure_starter_reports.step db₄ (.commit n) db'

/-- **A visible report that is still there** when the deciding transaction
    looks makes it mark the user, and insert nothing. -/
theorem Inv.retained (h : Inv db) {before after : List Label} {seeded_at : Time} {r : Report}
    (hr : r ∈ db.reports) (hvisible : r.visible) (hkept : .remove r.id ∉ before)
    (hdecides : Decides db n before seeded_at after db') :
    Inv db' ∧ db'.starter_reports_seeded_at = some seeded_at ∧ db'.seedings = [] := by
  obtain ⟨db₁, db₂, db₃, db₄, hlock, hbefore, _, _, hcheck, hafter, hcommit, hrollback, hend⟩ :=
    hdecides
  have hinv₂ : Inv db₂ := System.Run.preserves (fun _ _ _ hs hi => hi.step hs) (h.step hlock) hbefore
  have hr₁ : r ∈ db₁.reports := report_kept hlock (by simp) hr
  have hr₂ : r ∈ db₂.reports := report_kept_run hr₁ hbefore hkept
  have hseen : owner_has_visible_reports db₂.reports = true :=
    List.any_eq_true.mpr ⟨r, hr₂, hvisible⟩
  have hinv₃ := hinv₂.step hcheck
  obtain ⟨_, rfl⟩ := hcheck
  rw [if_pos hseen] at hafter hinv₃
  have hwaits := returned_waits_run (n := n) hafter (by simp) hcommit hrollback
  rw [set_txn_self] at hwaits
  have hinv₄ : Inv db₄ := System.Run.preserves (fun _ _ _ hs hi => hi.step hs) hinv₃ hafter
  have hdecided : Decided db₄ n (db₄.txns n) := by
    rcases hinv₄.txn n with hclean | hdecided
    · have hmarker := hclean.marker
      rw [hwaits] at hmarker
      exact absurd hmarker (by simp)
    · exact hdecided
  obtain ⟨hfirst, hseeded, _⟩ := hinv₄.committed_decided hdecided
  refine ⟨hinv₄.step hend, ?_⟩
  obtain ⟨_, _, rfl⟩ := hend
  constructor
  · show (db₄.committed n).starter_reports_seeded_at = _
    rw [hseeded, hwaits]
  · show (if (db₄.txns n).inserted = [] then db₄.seedings else _) = []
    rw [hwaits, if_pos rfl, hfirst]

/-- **Onboarding happens once.** Over any run the examples are inserted by at
    most one committed transaction, both of them; no insert meets a duplicate
    key; after the marker no call changes anything; and a user with a visible
    report that was committed before the deciding transaction took the lock,
    and is not deleted before it looks, never receives them. -/
theorem starter_reports_once :
    (∀ ls db, ensure_starter_reports.Trace ls db → db.seedings = [] ∨ db.seedings = [examples]) ∧
    (∀ ls db n, ensure_starter_reports.Trace ls db → (db.txns n).phase ≠ .failed) ∧
    (∀ ls db marker ls' db', ensure_starter_reports.Trace ls db →
      db.starter_reports_seeded_at = some marker → ensure_starter_reports.Run db ls' db' →
      db'.starter_reports_seeded_at = some marker ∧ db'.seedings = db.seedings ∧
      ∀ l db'', l.of_call → ensure_starter_reports.step db' l db'' →
        db''.reports = db'.reports ∧ db''.starter_reports_seeded_at = some marker) ∧
    (∀ ls db n before seeded_at after db' ls' db'' r, ensure_starter_reports.Trace ls db →
      r ∈ db.reports → r.visible → .remove r.id ∉ before →
      Decides db n before seeded_at after db' → ensure_starter_reports.Run db' ls' db'' →
      db''.seedings = []) := by
  refine ⟨?_, ?_, ?_, ?_⟩
  · intro ls db h
    rcases (inv_trace h).seeded with hnone | ⟨hone, _⟩
    · exact Or.inl hnone
    · exact Or.inr hone
  · intro ls db n h
    exact ((inv_trace h).txn n).not_failed
  · intro ls db marker ls' db' h hseeded hrun
    obtain ⟨hinv, hmarker, hseedings⟩ := (inv_trace h).seeded_run hseeded hrun
    refine ⟨hmarker, hseedings, ?_⟩
    intro l db'' hcall hstep
    obtain ⟨hmarker', _, hreports⟩ := hinv.seeded_step hmarker hstep
    exact ⟨hreports hcall, hmarker'⟩
  · intro ls db n before seeded_at after db' ls' db'' r h hr hvisible hkept hdecides hrun
    obtain ⟨hinv, hseeded, hnone⟩ := (inv_trace h).retained hr hvisible hkept hdecides
    obtain ⟨_, _, hseedings⟩ := hinv.seeded_run hseeded hrun
    rw [hseedings, hnone]

/-! ### Two runs -/

/-- A report of a run. -/
def sample_report : Report where
  id := .run 0
  metadata := { purpose := none, generated := none, source := none }

/-- A user with some reports, and both strategies to be had. -/
def sample_db (reports : List Report) : Db where
  starter_reports_seeded_at := none
  reports := reports
  strategies := fun _ => some { enabled := true, kind := "builtin", status := "active" }
  lock := none
  txns := fun _ => .at .idle
  seedings := []

theorem sample_init : ensure_starter_reports.init (sample_db []) ∧
    ensure_starter_reports.init (sample_db [sample_report]) := by
  constructor
  · refine ⟨fun _ => rfl, rfl, rfl, ?_⟩
    intro r hr
    exact absurd hr (by simp [sample_db])
  · refine ⟨fun _ => rfl, rfl, rfl, ?_⟩
    intro r hr key hid
    rw [List.mem_singleton.mp hr] at hid
    exact absurd hid (by simp [sample_report])

theorem set_txn_phase (db : Db) (n : ℕ) (phase : Phase) :
    ((db.set_txn n (.at phase)).txns n).phase = phase := by
  rw [set_txn_self]
  rfl

theorem set_txn_twice (db : Db) (n : ℕ) (x y : Txn) :
    (db.set_txn n x).set_txn n y = db.set_txn n y := by
  unfold Db.set_txn
  congr 1
  funext m
  by_cases hm : m = n
  · simp [hm]
  · simp [hm]

/-- A call of a user without a marker gets to the lock, -/
theorem waits (db : Db) (n : ℕ) (hidle : (db.txns n).phase = .idle)
    (hunseeded : db.starter_reports_seeded_at = none) :
    ensure_starter_reports.Run db [.load n, .look n] (db.set_txn n (.at .locking)) := by
  have hload : ensure_starter_reports.step db (.load n) (db.set_txn n (.at (.loaded none))) :=
    ⟨hidle, by rw [hunseeded]⟩
  have hlook : ensure_starter_reports.step (db.set_txn n (.at (.loaded none))) (.look n)
      (db.set_txn n (.at .locking)) :=
    ⟨none, set_txn_phase _ _ _, by rw [set_txn_twice]; rfl⟩
  exact System.Run.cons hload (System.Run.single hlook)

/-- takes it when it is free, -/
theorem locks (db : Db) (n : ℕ) (hfree : db.lock = none) (hunseeded : db.starter_reports_seeded_at = none) :
    ensure_starter_reports.step (db.set_txn n (.at .locking)) (.lock n)
      { db.set_txn n (.at .locked) with lock := some n } := by
  refine ⟨set_txn_phase _ _ _, hfree, ?_⟩
  rw [set_txn_twice]
  show _ = { db.set_txn n (.at (if db.starter_reports_seeded_at.isSome then .returned
    else .locked)) with lock := some n }
  rw [hunseeded]
  rfl

/-- and goes on to the strategies when it sees no reports. -/
theorem finds_none (db : Db) (n : ℕ) (hlocked : (db.txns n).phase = .locked)
    (hnone : owner_has_visible_reports db.reports = false) (seeded_at : Time) :
    ensure_starter_reports.step db (.check n seeded_at)
      (db.set_txn n (.at (.choosing starter_strategy_keys seeded_at))) := by
  refine ⟨hlocked, ?_⟩
  rw [if_neg (by rw [hnone]; exact Bool.false_ne_true)]

theorem choose_step {key : String} {keys : List String} {seeded_at : Time}
    (hphase : (db.txns n).phase = .choosing (key :: keys) seeded_at)
    (havailable : available (db.strategies key)) :
    ensure_starter_reports.step db (.get_strategy n)
      (db.set_txn n (.at (.choosing keys seeded_at))) :=
  ⟨key, keys, seeded_at, hphase, by rw [if_pos havailable]⟩

theorem add_step (h : Inv db) {seeded_at : Time}
    (hphase : (db.txns n).phase = .choosing [] seeded_at) :
    ensure_starter_reports.step db (.add_completed_reports n)
      (db.set_txn n { phase := .returned, inserted := examples, marker := some seeded_at }) :=
  ⟨seeded_at, hphase, by rw [if_neg (h.no_clash hphase)]⟩

/-- Where both strategies are to be had, a decision without visible reports
    ends in a commit of the examples. -/
theorem seeds (h : Inv db) {seeded_at : Time}
    (hphase : (db.txns n).phase = .choosing starter_strategy_keys seeded_at)
    (havailable : ∀ key, available (db.strategies key)) :
    ∃ db₁ db', ensure_starter_reports.Run db
        [.get_strategy n, .get_strategy n, .add_completed_reports n] db₁ ∧
      ensure_starter_reports.step db₁ (.commit n) db' ∧
      db'.seedings = db.seedings ++ [examples] ∧ db'.reports = db.reports ++ examples ∧
      db'.starter_reports_seeded_at = some seeded_at := by
  have hfirst := choose_step hphase (havailable _)
  have hinv₁ := h.step hfirst
  have hsecond := choose_step (set_txn_phase db n (.choosing ["portfolio_2"] seeded_at))
    (havailable "portfolio_2")
  have hinv₂ := hinv₁.step hsecond
  have hthird := add_step hinv₂ (set_txn_phase _ n (.choosing [] seeded_at))
  refine ⟨_, _, System.Run.cons hfirst (System.Run.cons hsecond (System.Run.single hthird)),
    ⟨?_, ?_, rfl⟩, ?_, ?_, ?_⟩
  · rw [set_txn_self]
    simp
  · rw [set_txn_self]
    simp
  · simp only [set_txn_self]
    exact if_neg (by simp [examples, starter_strategy_keys])
  · simp only [set_txn_self]
    rfl
  · simp only [set_txn_self]
    rfl

/-- The lock is taken while the report is there, and the report is deleted
    before the transaction looks: the examples are inserted. -/
theorem deleted_while_locked :
    ∃ ls db before after db', ensure_starter_reports.Trace ls db ∧
      sample_report ∈ db.reports ∧ sample_report.visible = true ∧
      Decides db 0 before 7 after db' ∧ db'.seedings = [examples] := by
  have hinit := sample_init.2
  have hwaits := waits (sample_db [sample_report]) 0 rfl rfl
  have htrace : ensure_starter_reports.Trace [.load 0, .look 0]
      ((sample_db [sample_report]).set_txn 0 (.at .locking)) := ⟨_, hinit, hwaits⟩
  have hlock := locks (sample_db [sample_report]) 0 rfl rfl
  -- the deletion does not wait for the lock of the user row
  have hremove : ensure_starter_reports.step
      { (sample_db [sample_report]).set_txn 0 (.at .locked) with lock := some 0 }
      (.remove (.run 0)) { (sample_db []).set_txn 0 (.at .locked) with lock := some 0 } := rfl
  have hcheck := finds_none { (sample_db []).set_txn 0 (.at .locked) with lock := some 0 }
    0 rfl rfl 7
  have hinv := ((((inv_trace htrace).step hlock).step hremove).step hcheck)
  obtain ⟨db₁, db', hrun, hcommit, hseedings, _, _⟩ :=
    seeds hinv (set_txn_phase _ _ _) (fun _ => rfl)
  refine ⟨_, _, [.remove (.run 0)],
    [.get_strategy 0, .get_strategy 0, .add_completed_reports 0], db', htrace, List.mem_singleton.mpr rfl, rfl, ?_, hseedings⟩
  refine ⟨_, _, _, db₁, hlock, System.Run.single hremove, by simp, by simp, hcheck, hrun, by simp,
    by simp, hcommit⟩

/-- A first call inserts the examples. They are deleted, and a call after that
    changes nothing. -/
theorem deleted_for_good :
    ∃ ls db ls' db', ensure_starter_reports.Trace ls db ∧ db.reports = examples ∧
      ensure_starter_reports.Run db ls' db' ∧ db'.reports = [] ∧
      ∀ l db'', l.of_call → ensure_starter_reports.step db' l db'' → db''.reports = [] := by
  have hinit := sample_init.1
  have hwaits := waits (sample_db []) 0 rfl rfl
  have hlock := locks (sample_db []) 0 rfl rfl
  have hcheck := finds_none { (sample_db []).set_txn 0 (.at .locked) with lock := some 0 }
    0 rfl rfl 7
  have hchoosing := (hwaits.trans (System.Run.single hlock)).trans (System.Run.single hcheck)
  obtain ⟨db₁, db, hrun, hcommit, _, hreports, hseeded⟩ :=
    seeds (inv_trace ⟨_, hinit, hchoosing⟩) (set_txn_phase _ _ _) (fun _ => rfl)
  have htrace := (hchoosing.trans hrun).trans (System.Run.single hcommit)
  obtain ⟨_, _, hafter, _⟩ := starter_reports_once
  -- both of them are deleted
  have hremoved : ensure_starter_reports.Run db
      [.remove (.starter "portfolio_1"), .remove (.starter "portfolio_2")]
      { db with reports := [] } := by
    have hfirst : ensure_starter_reports.step db (.remove (.starter "portfolio_1"))
        { db with reports := [build_report "portfolio_2"] } := by
      show _ = { db with reports := db.reports.filter _ }
      rw [hreports]
      rfl
    exact System.Run.cons hfirst (System.Run.single rfl)
  refine ⟨_, db, _, _, ⟨_, hinit, htrace⟩, hreports, hremoved, rfl, ?_⟩
  intro l db'' hcall hstep
  obtain ⟨_, _, hcalls⟩ := hafter _ db 7 _ _ ⟨_, hinit, htrace⟩ hseeded hremoved
  exact (hcalls l db'' hcall hstep).1

end Onboarding
