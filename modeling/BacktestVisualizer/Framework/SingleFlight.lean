import Mathlib.Logic.Basic
import Mathlib.Tactic

/-! # Single Flight

  Concurrent calls that ask for the same key share one computation. The first
  call of a key enters itself as pending and leads; the calls that find it
  there wait on its future. The leader computes, sets the future, and then
  takes its entry out again.

  A future is named by the call that leads it. `Inv` says how entries,
  futures and calls hang together, and every operation keeps it: one leader a
  key, an entry only as long as its leader is at work, and for every waiter
  the outcome of its leader.
-/

namespace SingleFlight

variable {κ σ α ε : Type}

/-- What a future is set to. -/
inductive Outcome (α ε : Type) where
  | answer (a : α)
  | raised (e : ε)
  deriving DecidableEq, Repr

/-- Where a call is. What a leader does while its future is not set is its
    stage. -/
inductive Phase (κ σ α ε : Type) where
  | idle
  /-- It was answered without joining. -/
  | hit (k : κ) (a : α)
  | leading (k : κ) (stage : σ)
  /-- Its future is set, its entry still there. -/
  | published (k : κ) (o : Outcome α ε)
  | led (k : κ) (o : Outcome α ε)
  | waiting (k : κ) (leader : ℕ)
  | followed (k : κ) (leader : ℕ) (o : Outcome α ε)

/-- The entry of the key is this call's. -/
def Phase.leads (p : Phase κ σ α ε) (k : κ) : Prop :=
  (∃ stage, p = .leading k stage) ∨ ∃ o, p = .published k o

/-- It led the key to this outcome. -/
def Phase.leads_to (p : Phase κ σ α ε) (k : κ) (o : Outcome α ε) : Prop :=
  p = .published k o ∨ p = .led k o

section Phases

variable {k j : κ} {m : ℕ} {a : α} {o o' : Outcome α ε} {stage : σ}

@[simp] theorem not_leads_idle : ¬ (Phase.idle : Phase κ σ α ε).leads k := by
  simp [Phase.leads]

@[simp] theorem not_leads_hit : ¬ (Phase.hit j a : Phase κ σ α ε).leads k := by
  simp [Phase.leads]

@[simp] theorem leads_leading : (Phase.leading j stage : Phase κ σ α ε).leads k ↔ j = k := by
  simp [Phase.leads]

@[simp] theorem leads_published : (Phase.published j o : Phase κ σ α ε).leads k ↔ j = k := by
  simp [Phase.leads]

@[simp] theorem not_leads_led : ¬ (Phase.led j o : Phase κ σ α ε).leads k := by
  simp [Phase.leads]

@[simp] theorem not_leads_waiting : ¬ (Phase.waiting j m : Phase κ σ α ε).leads k := by
  simp [Phase.leads]

@[simp] theorem not_leads_followed : ¬ (Phase.followed j m o : Phase κ σ α ε).leads k := by
  simp [Phase.leads]

@[simp] theorem not_leads_to_idle : ¬ (Phase.idle : Phase κ σ α ε).leads_to k o := by
  simp [Phase.leads_to]

@[simp] theorem not_leads_to_hit : ¬ (Phase.hit j a : Phase κ σ α ε).leads_to k o := by
  simp [Phase.leads_to]

@[simp] theorem not_leads_to_leading :
    ¬ (Phase.leading j stage : Phase κ σ α ε).leads_to k o := by
  simp [Phase.leads_to]

@[simp] theorem leads_to_published :
    (Phase.published j o' : Phase κ σ α ε).leads_to k o ↔ j = k ∧ o' = o := by
  simp [Phase.leads_to]

@[simp] theorem leads_to_led :
    (Phase.led j o' : Phase κ σ α ε).leads_to k o ↔ j = k ∧ o' = o := by
  simp [Phase.leads_to]

@[simp] theorem not_leads_to_waiting :
    ¬ (Phase.waiting j m : Phase κ σ α ε).leads_to k o := by
  simp [Phase.leads_to]

@[simp] theorem not_leads_to_followed :
    ¬ (Phase.followed j m o' : Phase κ σ α ε).leads_to k o := by
  simp [Phase.leads_to]

end Phases

/-- The pending entries, the futures, and the calls. -/
structure Flight (κ σ α ε : Type) where
  pending : κ → Option ℕ
  future : ℕ → Option (Outcome α ε)
  call : ℕ → Phase κ σ α ε

/-- Nobody has called. -/
def Flight.empty : Flight κ σ α ε where
  pending := fun _ => none
  future := fun _ => none
  call := fun _ => .idle

/-! ### Operations -/

section Operations

variable (f : Flight κ σ α ε) (n : ℕ)

def Flight.move (p : Phase κ σ α ε) : Flight κ σ α ε :=
  { f with call := fun m => if m = n then p else f.call m }

@[simp] theorem move_self (p : Phase κ σ α ε) : (f.move n p).call n = p := by
  simp [Flight.move]

@[simp] theorem move_ne (p : Phase κ σ α ε) {m : ℕ} (h : m ≠ n) :
    (f.move n p).call m = f.call m := by
  simp [Flight.move, h]

/-- The call enters itself and leads. -/
def Flight.enter [DecidableEq κ] (k : κ) (stage : σ) : Flight κ σ α ε :=
  { f.move n (.leading k stage) with
    pending := fun j => if j = k then some n else f.pending j }

/-- The call joins: it leads, or waits on the one that does. -/
def Flight.join [DecidableEq κ] (k : κ) (stage : σ) : Flight κ σ α ε :=
  match f.pending k with
  | none => f.enter n k stage
  | some leader => f.move n (.waiting k leader)

/-- The leader sets its future. -/
def Flight.publish (k : κ) (o : Outcome α ε) : Flight κ σ α ε :=
  { f.move n (.published k o) with
    future := fun m => if m = n then some o else f.future m }

/-- The leader takes its entry out. -/
def Flight.leave [DecidableEq κ] (k : κ) (o : Outcome α ε) : Flight κ σ α ε :=
  { f.move n (.led k o) with
    pending := fun j => if j = k then none else f.pending j }

end Operations

/-! ### The invariant -/

/-- How entries, futures and calls hang together. -/
structure Inv (f : Flight κ σ α ε) : Prop where
  entry : ∀ k n, f.pending k = some n ↔ (f.call n).leads k
  outcome : ∀ n o, f.future n = some o ↔ ∃ k, (f.call n).leads_to k o
  waiting : ∀ n k m, f.call n = .waiting k m →
    (f.call m).leads k ∨ ∃ o, (f.call m).leads_to k o
  followed : ∀ n k m o, f.call n = .followed k m o → (f.call m).leads_to k o

theorem Inv.empty : Inv (Flight.empty : Flight κ σ α ε) where
  entry := by
    intro k n
    simp [Flight.empty]
  outcome := by
    intro n o
    simp [Flight.empty]
  waiting := fun _ _ _ h => absurd h (by simp [Flight.empty])
  followed := fun _ _ _ _ h => absurd h (by simp [Flight.empty])

section Rules

variable {f : Flight κ σ α ε} {n m : ℕ} {k : κ}

/-- **One leader a key.** -/
theorem Inv.one_leader (h : Inv f) (hn : (f.call n).leads k) (hm : (f.call m).leads k) : n = m := by
  have hsame := ((h.entry k n).mpr hn).symm.trans ((h.entry k m).mpr hm)
  exact Option.some.inj hsame

/-- What a future is set to is the outcome of the call that leads or led. -/
theorem Inv.future_outcome (h : Inv f) {o : Outcome α ε} (hwaits : f.call n = .waiting k m)
    (hset : f.future m = some o) : (f.call m).leads_to k o := by
  obtain ⟨j, hj⟩ := (h.outcome m o).mp hset
  suffices hjk : j = k by rwa [← hjk]
  rcases h.waiting n k m hwaits with hleads | ⟨o', ho'⟩
  · rcases hj with heq | heq
    · rw [heq, leads_published] at hleads
      exact hleads
    · rw [heq] at hleads
      exact absurd hleads (by simp)
  · rcases hj with heq | heq
    · rw [heq, leads_to_published] at ho'
      exact ho'.1
    · rw [heq, leads_to_led] at ho'
      exact ho'.1

/-- One call moves on; what the others rely on it keeps. -/
theorem Inv.moves {f' : Flight κ σ α ε} {p : Phase κ σ α ε} (h : Inv f)
    (hcall : f'.call = (f.move n p).call)
    (hfuture : ∀ m, m ≠ n → f'.future m = f.future m)
    (hentry : ∀ k m, f'.pending k = some m ↔ (f'.call m).leads k)
    (houtcome : ∀ o, f'.future n = some o ↔ ∃ k, p.leads_to k o)
    (hwaiting : ∀ k m, p = .waiting k m →
      m ≠ n ∧ ((f.call m).leads k ∨ ∃ o, (f.call m).leads_to k o))
    (hfollowed : ∀ k m o, p = .followed k m o → m ≠ n ∧ (f.call m).leads_to k o)
    (hleads : ∀ k, (f.call n).leads k → p.leads k ∨ ∃ o, p.leads_to k o)
    (hout : ∀ k o, (f.call n).leads_to k o → p.leads_to k o) : Inv f' where
  entry := hentry
  outcome := by
    intro m o
    rw [hcall]
    by_cases hmn : m = n
    · rw [hmn, move_self]
      exact houtcome o
    · rw [move_ne f n p hmn, hfuture m hmn]
      exact h.outcome m o
  waiting := by
    intro m k leader hm
    rw [hcall] at hm ⊢
    have hkept : (f.call leader).leads k ∨ (∃ o, (f.call leader).leads_to k o) →
        ((f.move n p).call leader).leads k ∨ ∃ o, ((f.move n p).call leader).leads_to k o := by
      intro hleader
      by_cases hln : leader = n
      · subst hln
        rw [move_self]
        rcases hleader with hl | ⟨o, ho⟩
        · exact hleads k hl
        · exact Or.inr ⟨o, hout k o ho⟩
      · rwa [move_ne f n p hln]
    by_cases hmn : m = n
    · rw [hmn, move_self] at hm
      exact hkept (hwaiting k leader hm).2
    · rw [move_ne f n p hmn] at hm
      exact hkept (h.waiting m k leader hm)
  followed := by
    intro m k leader o hm
    rw [hcall] at hm ⊢
    have hkept : (f.call leader).leads_to k o → ((f.move n p).call leader).leads_to k o := by
      intro hleader
      by_cases hln : leader = n
      · subst hln
        rw [move_self]
        exact hout k o hleader
      · rwa [move_ne f n p hln]
    by_cases hmn : m = n
    · rw [hmn, move_self] at hm
      exact hkept (hfollowed k leader o hm).2
    · rw [move_ne f n p hmn] at hm
      exact hkept (h.followed m k leader o hm)

/-- One call moves on and neither enters nor leaves, nor sets its future. -/
theorem Inv.move {p : Phase κ σ α ε} (h : Inv f)
    (hleads : ∀ k, p.leads k ↔ (f.call n).leads k)
    (hout : ∀ k o, p.leads_to k o ↔ (f.call n).leads_to k o)
    (hwaiting : ∀ k m, p = .waiting k m →
      m ≠ n ∧ ((f.call m).leads k ∨ ∃ o, (f.call m).leads_to k o))
    (hfollowed : ∀ k m o, p = .followed k m o → m ≠ n ∧ (f.call m).leads_to k o) :
    Inv (f.move n p) := by
  apply h.moves (n := n) (p := p) rfl _ _ _ hwaiting hfollowed
  · intro k hk
    exact Or.inl ((hleads k).mpr hk)
  · intro k o ho
    exact (hout k o).mpr ho
  · intro m _
    rfl
  · intro k m
    show f.pending k = some m ↔ _
    rw [h.entry k m]
    by_cases hmn : m = n
    · rw [hmn, move_self]
      exact (hleads k).symm
    · rw [move_ne f n p hmn]
  · intro o
    show f.future n = some o ↔ _
    rw [h.outcome n o]
    exact exists_congr fun k => (hout k o).symm

/-! ### The operations keep it -/

/-- A call is answered without joining. -/
theorem Inv.hit (h : Inv f) (hidle : f.call n = .idle) (k : κ) (a : α) :
    Inv (f.move n (.hit k a)) := by
  apply h.move
  · intro j
    rw [hidle]
    simp
  · intro j o
    rw [hidle]
    simp
  · intro j m heq
    exact absurd heq (by simp)
  · intro j m o heq
    exact absurd heq (by simp)

/-- A leader gets on with its work. -/
theorem Inv.advance (h : Inv f) {stage : σ} (hleading : f.call n = .leading k stage)
    (stage' : σ) : Inv (f.move n (.leading k stage')) := by
  apply h.move
  · intro j
    rw [hleading]
    simp
  · intro j o
    rw [hleading]
    simp
  · intro j m heq
    exact absurd heq (by simp)
  · intro j m o heq
    exact absurd heq (by simp)

/-- A waiter takes what its leader's future was set to. -/
theorem Inv.wake (h : Inv f) {o : Outcome α ε} (hwaits : f.call n = .waiting k m)
    (hset : f.future m = some o) : Inv (f.move n (.followed k m o)) := by
  have hout := h.future_outcome hwaits hset
  apply h.move
  · intro j
    rw [hwaits]
    simp
  · intro j o'
    rw [hwaits]
    simp
  · intro j m' heq
    exact absurd heq (by simp)
  · intro j m' o' heq
    obtain ⟨rfl, rfl, rfl⟩ := Phase.followed.inj heq
    refine ⟨?_, hout⟩
    intro hmn
    rw [hmn, hwaits] at hout
    exact absurd hout (by simp)

/-- The leader sets its future. -/
theorem Inv.publish (h : Inv f) {stage : σ} (hleading : f.call n = .leading k stage)
    (o : Outcome α ε) : Inv (f.publish n k o) := by
  have hcall : (f.publish n k o).call = (f.move n (.published k o)).call := rfl
  apply h.moves hcall
  · intro m hm
    exact if_neg hm
  · intro j m
    show f.pending j = some m ↔ ((f.move n (.published k o)).call m).leads j
    rw [h.entry j m]
    by_cases hmn : m = n
    · rw [hmn, move_self, hleading]
      simp
    · rw [move_ne f n _ hmn]
  · intro o'
    show (if n = n then some o else f.future n) = some o' ↔ _
    simp
  · intro j m heq
    exact absurd heq (by simp)
  · intro j m o' heq
    exact absurd heq (by simp)
  · intro j hj
    rw [hleading, leads_leading] at hj
    exact Or.inl (leads_published.mpr hj)
  · intro j o' hout
    rw [hleading] at hout
    exact absurd hout (by simp)

/-- The leader ends and takes its entry out. -/
theorem Inv.leave [DecidableEq κ] (h : Inv f) {o : Outcome α ε}
    (hpublished : f.call n = .published k o) : Inv (f.leave n k o) := by
  have hcall : (f.leave n k o).call = (f.move n (.led k o)).call := rfl
  apply h.moves hcall
  · intro m _
    rfl
  · intro j m
    show (if j = k then none else f.pending j) = some m ↔ ((f.move n (.led k o)).call m).leads j
    have hentry := h.entry j m
    by_cases hmn : m = n
    · -- the only entry of the leader is the one it takes out
      rw [hmn, hpublished, leads_published] at hentry
      rw [hmn, move_self]
      split
      · simp
      · rename_i hjk
        rw [hentry]
        simpa using fun hkj : k = j => hjk hkj.symm
    · rw [move_ne f n _ hmn, ← hentry]
      split
      · rename_i hjk
        have hn : (f.call n).leads j := by rw [hpublished, leads_published, hjk]
        constructor
        · intro heq
          exact absurd heq (by simp)
        · intro hj
          exact absurd (h.one_leader (hentry.mp hj) hn) hmn
      · exact Iff.rfl
  · intro o'
    show f.future n = some o' ↔ _
    rw [h.outcome n o', hpublished]
    simp
  · intro j m heq
    exact absurd heq (by simp)
  · intro j m o' heq
    exact absurd heq (by simp)
  · intro j hj
    rw [hpublished, leads_published] at hj
    exact Or.inr ⟨o, leads_to_led.mpr ⟨hj, rfl⟩⟩
  · intro j o' hout
    rw [hpublished, leads_to_published] at hout
    exact leads_to_led.mpr hout

/-- A call joins. -/
theorem Inv.join [DecidableEq κ] (h : Inv f) (hidle : f.call n = .idle) (k : κ) (stage : σ) :
    Inv (f.join n k stage) := by
  unfold Flight.join
  cases hk : f.pending k with
  | none =>
    have hcall : (f.enter n k stage).call = (f.move n (.leading k stage)).call := rfl
    apply h.moves hcall
    · intro m _
      rfl
    · intro j m
      show (if j = k then some n else f.pending j) = some m
        ↔ ((f.move n (.leading k stage)).call m).leads j
      have hentry := h.entry j m
      by_cases hmn : m = n
      · rw [hmn, hidle] at hentry
        rw [hmn, move_self, leads_leading]
        split
        · rename_i hjk
          simp [hjk]
        · rename_i hjk
          rw [hentry]
          simpa using fun hkj : k = j => hjk hkj.symm
      · rw [move_ne f n _ hmn, ← hentry]
        split
        · rename_i hjk
          rw [hjk, hk]
          simpa using fun heq : n = m => hmn heq.symm
        · exact Iff.rfl
    · intro o
      show f.future n = some o ↔ _
      rw [h.outcome n o, hidle]
      simp
    · intro j m heq
      exact absurd heq (by simp)
    · intro j m o heq
      exact absurd heq (by simp)
    · intro j hj
      rw [hidle] at hj
      exact absurd hj (by simp)
    · intro j o hout
      rw [hidle] at hout
      exact absurd hout (by simp)
  | some leader =>
    have hleads := (h.entry k leader).mp hk
    apply h.move
    · intro j
      rw [hidle]
      simp
    · intro j o
      rw [hidle]
      simp
    · intro j m heq
      obtain ⟨rfl, rfl⟩ := Phase.waiting.inj heq
      refine ⟨?_, Or.inl hleads⟩
      intro hln
      rw [hln, hidle] at hleads
      exact absurd hleads (by simp)
    · intro j m o heq
      exact absurd heq (by simp)

end Rules

end SingleFlight
