import BacktestVisualizer.Framework.LTS
import Mathlib.Tactic

/-! # Starter Reports

  `src/services/starter_reports.py`, with `lock_user` of
  `src/repositories/users.py` and the report queries of
  `src/repositories/reports.py`: the first authenticated request of a user
  inserts two example reports, once. The marker on the user row and the
  reports are written by one transaction.

  The system is one user's row and reports in a READ COMMITTED database, with
  any number of transactions that call `ensure_starter_reports`. A statement
  sees what is committed; a row lock is held to the end of its transaction.
-/

open LTS

namespace Onboarding

/-! ### Reports -/

/-- An aware datetime, in microseconds. -/
abbrev Time := ℤ

/-- The id of a report: `uuid5` of owner and strategy key for an example, a
    `uuid4` for a run. The two differ in the version they carry. -/
inductive ReportId where
  | starter (strategy_key : String)
  | run (n : ℕ)
  deriving DecidableEq, Repr

/-- The texts of `reportMetadata` that the queries read; `none` is SQL's NULL. -/
structure Metadata where
  purpose : Option String
  /-- `starterExample.generated`. -/
  generated : Option String
  /-- `marketData.source`. -/
  source : Option String
  deriving DecidableEq, Repr

structure Report where
  id : ReportId
  metadata : Metadata
  deriving DecidableEq, Repr

/-- `_example_predicate`. -/
def Report.is_example (r : Report) : Bool :=
  r.metadata.purpose = some "example" ∨ r.metadata.generated = some "true" ∨
    r.metadata.source = some "bundled_starter_example"

/-- The rows `owner_has_visible_reports` looks for. -/
def Report.visible (r : Report) : Bool :=
  r.metadata.purpose.getD "user" = "user" ∨ r.is_example

/-- `owner_has_visible_reports`, over the committed reports. -/
def owner_has_visible_reports (reports : List Report) : Bool := reports.any Report.visible

/-- `STARTER_STRATEGY_KEYS`. -/
def starter_strategy_keys : List String := ["portfolio_1", "portfolio_2"]

/-- `_build_report`. -/
def build_report (strategy_key : String) : Report where
  id := .starter strategy_key
  metadata :=
    { purpose := some "example", generated := some "true"
      source := some "bundled_starter_example" }

/-- The two examples. -/
def examples : List Report := starter_strategy_keys.map build_report

/-- The fields of a strategy that a call reads. -/
structure Strategy where
  enabled : Bool
  kind : String
  status : String
  deriving DecidableEq, Repr

/-- The strategy can be shown in an example. -/
def available : Option Strategy → Bool
  | none => false
  | some strategy => strategy.enabled ∧ strategy.kind = "builtin" ∧ strategy.status = "active"

/-! ### Transactions -/

/-- Where a call is. A call that has returned waits for its caller to commit
    or roll back. -/
inductive Phase where
  | idle
  /-- The session holds the user as it was read. -/
  | loaded (starter_reports_seeded_at : Option Time)
  /-- In `lock_user`. -/
  | locking
  /-- The row is locked and, read again, has no marker. -/
  | locked
  /-- There are no visible reports; these strategies are still to be looked at. -/
  | choosing (keys : List String) (seeded_at : Time)
  | returned
  /-- A duplicate key. Only a rollback is left. -/
  | failed
  deriving DecidableEq, Repr

/-- A transaction with what it has written and not committed. -/
structure Txn where
  phase : Phase
  inserted : List Report
  marker : Option Time
  deriving DecidableEq, Repr

/-- A transaction that has written nothing. -/
def Txn.at (phase : Phase) : Txn := { phase := phase, inserted := [], marker := none }

/-- What is committed, who holds the lock of the user row, and the
    transactions. -/
structure Db where
  starter_reports_seeded_at : Option Time
  reports : List Report
  strategies : String → Option Strategy
  lock : Option ℕ
  txns : ℕ → Txn
  /-- The reports that committed transactions have inserted, oldest first.
      The database does not keep this. -/
  seedings : List (List Report)

def Db.set_txn (db : Db) (n : ℕ) (x : Txn) : Db :=
  { db with txns := fun m => if m = n then x else db.txns m }

@[simp] theorem set_txn_self (db : Db) (n : ℕ) (x : Txn) : (db.set_txn n x).txns n = x := by
  simp [Db.set_txn]

@[simp] theorem set_txn_ne (db : Db) {n m : ℕ} (x : Txn) (h : m ≠ n) :
    (db.set_txn n x).txns m = db.txns m := by
  simp [Db.set_txn, h]

/-- The lock after the end of a transaction. -/
def Db.released (db : Db) (n : ℕ) : Option ℕ := if db.lock = some n then none else db.lock

/-- An id of the examples is there already, committed or written by another
    transaction. -/
def Db.clashes (db : Db) (n : ℕ) : Prop :=
  ∃ key ∈ starter_strategy_keys,
    (∃ r ∈ db.reports, r.id = .starter key) ∨
    ∃ m ≠ n, ∃ r ∈ (db.txns m).inserted, r.id = .starter key

/-! ### Steps -/

inductive Label where
  /-- The session reads the user. -/
  | load (n : ℕ)
  /-- The first look at the marker. -/
  | look (n : ℕ)
  /-- `lock_user` gets the lock and reads the row again. -/
  | lock (n : ℕ)
  /-- `owner_has_visible_reports`, at a time taken just before. -/
  | check (n : ℕ) (seeded_at : Time)
  /-- The next `get_strategy`. -/
  | get_strategy (n : ℕ)
  /-- `add_completed_reports`, and the marker. -/
  | add_completed_reports (n : ℕ)
  | commit (n : ℕ)
  | rollback (n : ℕ)
  /-- A real report is saved. -/
  | save (r : Report)
  /-- A report of the user is deleted. -/
  | remove (id : ReportId)
  /-- A strategy changes. -/
  | change (key : String) (strategy : Option Strategy)

/-- A step of a call or of its caller. -/
def Label.of_call : Label → Prop
  | .save _ | .remove _ | .change _ _ => False
  | _ => True

open Classical in
/-- The steps of `ensure_starter_reports` and of the rest of the system. -/
def ensure_starter_reports : System Db Label where
  init := fun db =>
    (∀ n, db.txns n = .at .idle) ∧
    db.lock = none ∧
    db.seedings = [] ∧
    -- an example of this user that is there already is one of the examples
    (∀ r ∈ db.reports, ∀ key, r.id = .starter key → r.visible)
  step := fun db l db' =>
    match l with
    | .load n =>
        (db.txns n).phase = .idle ∧
        db' = db.set_txn n (.at (.loaded db.starter_reports_seeded_at))
    | .look n =>
        ∃ copy, (db.txns n).phase = .loaded copy ∧
        db' = db.set_txn n (.at (if copy.isSome then .returned else .locking))
    | .lock n =>
        (db.txns n).phase = .locking ∧
        db.lock = none ∧
        db' = { db.set_txn n
                  (.at (if db.starter_reports_seeded_at.isSome then .returned else .locked)) with
                lock := some n }
    | .check n seeded_at =>
        (db.txns n).phase = .locked ∧
        db' = db.set_txn n
          (if owner_has_visible_reports db.reports then
            { phase := .returned, inserted := [], marker := some seeded_at }
          else .at (.choosing starter_strategy_keys seeded_at))
    | .get_strategy n =>
        ∃ key keys seeded_at, (db.txns n).phase = .choosing (key :: keys) seeded_at ∧
        db' = db.set_txn n
          (.at (if available (db.strategies key) then .choosing keys seeded_at else .returned))
    | .add_completed_reports n =>
        ∃ seeded_at, (db.txns n).phase = .choosing [] seeded_at ∧
        db' = db.set_txn n
          (if db.clashes n then .at .failed
          else { phase := .returned, inserted := examples, marker := some seeded_at })
    | .commit n =>
        (db.txns n).phase ≠ .idle ∧
        (db.txns n).phase ≠ .failed ∧
        db' = { db.set_txn n (.at .idle) with
                starter_reports_seeded_at :=
                  (db.txns n).marker.or db.starter_reports_seeded_at
                reports := db.reports ++ (db.txns n).inserted
                lock := db.released n
                seedings := if (db.txns n).inserted = [] then db.seedings
                  else db.seedings ++ [(db.txns n).inserted] }
    | .rollback n =>
        (db.txns n).phase ≠ .idle ∧
        db' = { db.set_txn n (.at .idle) with lock := db.released n }
    | .save r =>
        (∃ k, r.id = .run k) ∧
        (∀ r' ∈ db.reports, r'.id ≠ r.id) ∧
        db' = { db with reports := db.reports ++ [r] }
    | .remove id =>
        db' = { db with reports := db.reports.filter (fun r => r.id ≠ id) }
    | .change key strategy =>
        db' = { db with strategies := fun k => if k = key then strategy else db.strategies k }

end Onboarding
