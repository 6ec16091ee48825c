import BacktestVisualizer.Framework.SingleFlight
import BacktestVisualizer.Framework.Storage

/-! # Single Flight in Front of a Cache

  A lookup is answered from a cache while its entry lasts. Past that the call
  joins the flight of its key, and the leader asks a provider, writes the
  answer into the cache, hands it to the waiters and leaves. A failure goes
  to the waiters only.

  `Sound` is the invariant over the actions so far: nothing is in the cache
  but what a call was answered and wrote, or what somebody else vouched for.
-/

namespace CachedFlight

open SingleFlight

variable {κ ρ τ α ε : Type}

/-- How replies are read, how long answers last, and how many are kept. -/
structure Policy (κ ρ τ α ε : Type) where
  reading : κ → ρ → Except ε α
  expires : τ → α → τ
  size : ℕ

/-- What a leader is at. -/
inductive Stage (α ε : Type) where
  | asking
  | answered (a : α)
  | written (a : α)
  | failing (e : ε)
  deriving DecidableEq, Repr

structure Lookup (κ τ α ε : Type) where
  cache : Keyed κ (τ × α)
  flight : Flight κ (Stage α ε) α ε

/-- What a call does next. -/
inductive Action (κ ρ : Type) where
  | ask (n : ℕ) (k : κ)
  | reply (n : ℕ) (r : ρ)
  | write (n : ℕ)
  | publish (n : ℕ)
  | leave (n : ℕ)
  | wake (n : ℕ)

def Action.caller : Action κ ρ → ℕ
  | .ask n _ => n
  | .reply n _ => n
  | .write n => n
  | .publish n => n
  | .leave n => n
  | .wake n => n

/-- What a reading settles a future to. -/
def settled : Except ε α → Outcome α ε
  | .ok a => .answer a
  | .error e => .raised e

/-- Where a leader goes with a reading. -/
def stage_of : Except ε α → Stage α ε
  | .ok a => .answered a
  | .error e => .failing e

/-! ### Steps -/

section Steps

variable [DecidableEq κ]

/-- Nobody has asked. -/
def Lookup.empty : Lookup κ τ α ε := ⟨∅, Flight.empty⟩

/-- A new call: an entry that still lasts answers it, else it joins. -/
def Lookup.ask [LT τ] [DecidableLT τ] (l : Lookup κ τ α ε) (now : τ) (n : ℕ) (k : κ) :
    Lookup κ τ α ε :=
  match l.cache.get k with
  | some (expires, a) =>
      if now < expires then ⟨l.cache.move_to_end k, l.flight.move n (.hit k a)⟩
      else ⟨l.cache, l.flight.join n k .asking⟩
  | none => ⟨l.cache, l.flight.join n k .asking⟩

/-- The leader writes its answer, as the newest. -/
def Lookup.write (policy : Policy κ ρ τ α ε) (l : Lookup κ τ α ε) (now : τ) (n : ℕ) (k : κ)
    (a : α) : Lookup κ τ α ε :=
  ⟨Keyed.trim policy.size (l.cache.insert k (policy.expires now a, a)),
    l.flight.move n (.leading k (.written a))⟩

/-- One action of one call. -/
def Lookup.step [LT τ] [DecidableLT τ] (policy : Policy κ ρ τ α ε) (now : τ)
    (l : Lookup κ τ α ε) (action : Action κ ρ) (l' : Lookup κ τ α ε) : Prop :=
  match action with
  | .ask n k => l.flight.call n = .idle ∧ l' = l.ask now n k
  | .reply n r =>
      ∃ k, l.flight.call n = .leading k .asking ∧
        l' = ⟨l.cache, l.flight.move n (.leading k (stage_of (policy.reading k r)))⟩
  | .write n =>
      ∃ k a, l.flight.call n = .leading k (.answered a) ∧ l' = l.write policy now n k a
  | .publish n =>
      ∃ k o, ((∃ a, o = .answer a ∧ l.flight.call n = .leading k (.written a))
          ∨ ∃ e, o = .raised e ∧ l.flight.call n = .leading k (.failing e)) ∧
        l' = ⟨l.cache, l.flight.publish n k o⟩
  | .leave n =>
      ∃ k o, l.flight.call n = .published k o ∧ l' = ⟨l.cache, l.flight.leave n k o⟩
  | .wake n =>
      ∃ k m o, l.flight.call n = .waiting k m ∧ l.flight.future m = some o ∧
        l' = ⟨l.cache, l.flight.move n (.followed k m o)⟩

end Steps

/-! ### What became of a call -/

/-- What the provider's reply to the call came to. -/
def verdict : Phase κ (Stage α ε) α ε → Option (κ × Outcome α ε)
  | .leading k (.answered a) => some (k, .answer a)
  | .leading k (.written a) => some (k, .answer a)
  | .leading k (.failing e) => some (k, .raised e)
  | .published k o => some (k, o)
  | .led k o => some (k, o)
  | _ => none

/-- What the call has written. -/
def wrote : Phase κ (Stage α ε) α ε → Option (κ × α)
  | .leading k (.written a) => some (k, a)
  | .published k (.answer a) => some (k, a)
  | .led k (.answer a) => some (k, a)
  | _ => none

/-- Only an answer is written. -/
theorem verdict_of_wrote {p : Phase κ (Stage α ε) α ε} {k : κ} {a : α}
    (h : wrote p = some (k, a)) : verdict p = some (k, .answer a) := by
  unfold wrote at h
  split at h
  all_goals
    first
    | (obtain ⟨rfl, rfl⟩ := Prod.mk.inj (Option.some.inj h); rfl)
    | exact absurd h (by simp)

/-- How an action moves its caller on. -/
inductive Moves (policy : Policy κ ρ τ α ε) :
    Action κ ρ → Phase κ (Stage α ε) α ε → Phase κ (Stage α ε) α ε → Prop where
  | hit (n : ℕ) (k : κ) (a : α) : Moves policy (.ask n k) .idle (.hit k a)
  | lead (n : ℕ) (k : κ) : Moves policy (.ask n k) .idle (.leading k .asking)
  | wait (n : ℕ) (k : κ) (m : ℕ) : Moves policy (.ask n k) .idle (.waiting k m)
  | read (n : ℕ) (r : ρ) (k : κ) :
      Moves policy (.reply n r) (.leading k .asking) (.leading k (stage_of (policy.reading k r)))
  | write (n : ℕ) (k : κ) (a : α) :
      Moves policy (.write n) (.leading k (.answered a)) (.leading k (.written a))
  | answer (n : ℕ) (k : κ) (a : α) :
      Moves policy (.publish n) (.leading k (.written a)) (.published k (.answer a))
  | fail (n : ℕ) (k : κ) (e : ε) :
      Moves policy (.publish n) (.leading k (.failing e)) (.published k (.raised e))
  | leave (n : ℕ) (k : κ) (o : Outcome α ε) :
      Moves policy (.leave n) (.published k o) (.led k o)
  | wake (n : ℕ) (k : κ) (m : ℕ) (o : Outcome α ε) :
      Moves policy (.wake n) (.waiting k m) (.followed k m o)

section MovesRules

variable {policy : Policy κ ρ τ α ε} {action : Action κ ρ} {p p' : Phase κ (Stage α ε) α ε}

/-- What a call wrote, it has written. -/
theorem Moves.wrote (h : Moves policy action p p') {w : κ × α}
    (hw : wrote p = some w) : CachedFlight.wrote p' = some w := by
  cases h with
  | answer n k a => exact hw
  | leave n k o => cases o with
    | answer a => exact hw
    | raised e => exact absurd hw (by simp [CachedFlight.wrote])
  | _ => exact absurd hw (by simp [CachedFlight.wrote])

/-- A verdict is old, or the reading of the reply that just came. -/
theorem Moves.verdict_new (h : Moves policy action p p') {k : κ} {o : Outcome α ε}
    (hv : CachedFlight.verdict p' = some (k, o)) :
    CachedFlight.verdict p = some (k, o) ∨
      ∃ r, action = .reply action.caller r ∧ settled (policy.reading k r) = o := by
  cases h with
  | read n r j =>
    right
    refine ⟨r, rfl, ?_⟩
    cases hreading : policy.reading j r with
    | ok a =>
      rw [hreading] at hv
      obtain ⟨rfl, rfl⟩ := Prod.mk.inj (Option.some.inj hv)
      rw [hreading]
      rfl
    | error e =>
      rw [hreading] at hv
      obtain ⟨rfl, rfl⟩ := Prod.mk.inj (Option.some.inj hv)
      rw [hreading]
      rfl
  | hit n j a => exact absurd hv (by simp [CachedFlight.verdict])
  | lead n j => exact absurd hv (by simp [CachedFlight.verdict])
  | wait n j m => exact absurd hv (by simp [CachedFlight.verdict])
  | wake n j m o => exact absurd hv (by simp [CachedFlight.verdict])
  | _ => exact Or.inl hv

end MovesRules

/-! ### What a step does -/

section StepRules

variable [DecidableEq κ] [LT τ] [DecidableLT τ] {policy : Policy κ ρ τ α ε} {now : τ}
  {l l' : Lookup κ τ α ε} {action : Action κ ρ}

/-- A step moves one call on. -/
theorem Lookup.step_moves (h : l.step policy now action l') :
    ∃ p, Moves policy action (l.flight.call action.caller) p ∧
      l'.flight.call = (l.flight.move action.caller p).call := by
  cases action with
  | ask n k =>
    obtain ⟨hidle, rfl⟩ := h
    show ∃ p, Moves policy _ (l.flight.call n) p ∧ _
    rw [hidle]
    have hjoin : ∃ p, Moves policy (.ask n k) .idle p ∧
        (l.flight.join n k .asking).call = (l.flight.move n p).call := by
      unfold Flight.join
      cases l.flight.pending k with
      | none => exact ⟨_, Moves.lead n k, rfl⟩
      | some leader => exact ⟨_, Moves.wait n k leader, rfl⟩
    unfold Lookup.ask
    split
    · rename_i expires a _
      split
      · exact ⟨_, Moves.hit n k a, rfl⟩
      · exact hjoin
    · exact hjoin
  | reply n r =>
    obtain ⟨k, hasking, rfl⟩ := h
    show ∃ p, Moves policy _ (l.flight.call n) p ∧ _
    rw [hasking]
    exact ⟨_, Moves.read n r k, rfl⟩
  | write n =>
    obtain ⟨k, a, hanswered, rfl⟩ := h
    show ∃ p, Moves policy _ (l.flight.call n) p ∧ _
    rw [hanswered]
    exact ⟨_, Moves.write n k a, rfl⟩
  | publish n =>
    obtain ⟨k, o, hstage, rfl⟩ := h
    show ∃ p, Moves policy _ (l.flight.call n) p ∧ _
    rcases hstage with ⟨a, rfl, hwritten⟩ | ⟨e, rfl, hfailing⟩
    · rw [hwritten]
      exact ⟨_, Moves.answer n k a, rfl⟩
    · rw [hfailing]
      exact ⟨_, Moves.fail n k e, rfl⟩
  | leave n =>
    obtain ⟨k, o, hpublished, rfl⟩ := h
    show ∃ p, Moves policy _ (l.flight.call n) p ∧ _
    rw [hpublished]
    exact ⟨_, Moves.leave n k o, rfl⟩
  | wake n =>
    obtain ⟨k, m, o, hwaits, _, rfl⟩ := h
    show ∃ p, Moves policy _ (l.flight.call n) p ∧ _
    rw [hwaits]
    exact ⟨_, Moves.wake n k m o, rfl⟩

/-- What a call wrote, it has written. -/
theorem Lookup.step_wrote (h : l.step policy now action l') {m : ℕ} {w : κ × α}
    (hw : wrote (l.flight.call m) = some w) : wrote (l'.flight.call m) = some w := by
  obtain ⟨p, hmoves, hcall⟩ := Lookup.step_moves h
  rw [hcall]
  by_cases hm : m = action.caller
  · rw [hm] at hw ⊢
    rw [move_self]
    exact hmoves.wrote hw
  · rw [move_ne _ _ p hm]
    exact hw

/-- Entries, futures and calls keep hanging together. -/
theorem Lookup.step_inv (h : l.step policy now action l') (hinv : Inv l.flight) :
    Inv l'.flight := by
  cases action with
  | ask n k =>
    obtain ⟨hidle, rfl⟩ := h
    unfold Lookup.ask
    split
    · rename_i expires a _
      split
      · exact hinv.hit hidle k a
      · exact hinv.join hidle k .asking
    · exact hinv.join hidle k .asking
  | reply n r =>
    obtain ⟨k, hasking, rfl⟩ := h
    exact hinv.advance hasking _
  | write n =>
    obtain ⟨k, a, hanswered, rfl⟩ := h
    exact hinv.advance hanswered _
  | publish n =>
    obtain ⟨k, o, hstage, rfl⟩ := h
    rcases hstage with ⟨a, rfl, hwritten⟩ | ⟨e, rfl, hfailing⟩
    · exact hinv.publish hwritten _
    · exact hinv.publish hfailing _
  | leave n =>
    obtain ⟨k, o, hpublished, rfl⟩ := h
    exact hinv.leave hpublished
  | wake n =>
    obtain ⟨k, m, o, hwaits, hset, rfl⟩ := h
    exact hinv.wake hwaits hset

/-- A verdict is old, or the reading of the reply that just came. -/
theorem Lookup.verdict_of_step (h : l.step policy now action l') {m : ℕ} {k : κ}
    {o : Outcome α ε} (hv : verdict (l'.flight.call m) = some (k, o)) :
    verdict (l.flight.call m) = some (k, o) ∨
      ∃ r, action = .reply m r ∧ settled (policy.reading k r) = o := by
  obtain ⟨p, hmoves, hcall⟩ := Lookup.step_moves h
  rw [hcall] at hv
  by_cases hm : m = action.caller
  · rw [hm] at hv ⊢
    rw [move_self] at hv
    exact hmoves.verdict_new hv
  · rw [move_ne _ _ p hm] at hv
    exact Or.inl hv

/-- An entry is old, or the answer the caller just wrote. -/
theorem Lookup.cached_of_step (h : l.step policy now action l') {k : κ} {x : τ} {a : α}
    (hentry : l'.cache.get k = some (x, a)) :
    l.cache.get k = some (x, a) ∨ ∃ n, wrote (l'.flight.call n) = some (k, a) := by
  cases action with
  | ask n j =>
    obtain ⟨_, rfl⟩ := h
    left
    unfold Lookup.ask at hentry
    split at hentry
    · split at hentry
      · rwa [Keyed.get_move_to_end] at hentry
      · exact hentry
    · exact hentry
  | reply n r =>
    obtain ⟨_, _, rfl⟩ := h
    exact Or.inl hentry
  | write n =>
    obtain ⟨j, b, _, rfl⟩ := h
    have hinserted := Keyed.get_of_trim hentry
    rw [Keyed.get_insert] at hinserted
    split at hinserted
    · rename_i hkj
      right
      refine ⟨n, ?_⟩
      show wrote ((l.flight.move n (.leading j (.written b))).call n) = _
      rw [move_self, hkj, (Prod.mk.inj (Option.some.inj hinserted)).2]
      rfl
    · exact Or.inl hinserted
  | publish n =>
    obtain ⟨_, _, _, rfl⟩ := h
    exact Or.inl hentry
  | leave n =>
    obtain ⟨_, _, _, rfl⟩ := h
    exact Or.inl hentry
  | wake n =>
    obtain ⟨_, _, _, _, _, rfl⟩ := h
    exact Or.inl hentry

/-- The cache grows by writes only, and a write trims it. -/
theorem Lookup.step_bounded (h : l.step policy now action l')
    (hbounded : l.cache.entries.length ≤ policy.size) :
    l'.cache.entries.length ≤ policy.size := by
  cases action with
  | ask n k =>
    obtain ⟨_, rfl⟩ := h
    unfold Lookup.ask
    split
    · split
      · show (l.cache.move_to_end k).entries.length ≤ policy.size
        rw [Keyed.length_move_to_end]
        exact hbounded
      · exact hbounded
    · exact hbounded
  | reply n r =>
    obtain ⟨_, _, rfl⟩ := h
    exact hbounded
  | write n =>
    obtain ⟨_, _, _, rfl⟩ := h
    exact Keyed.length_trim _ _
  | publish n =>
    obtain ⟨_, _, _, rfl⟩ := h
    exact hbounded
  | leave n =>
    obtain ⟨_, _, _, rfl⟩ := h
    exact hbounded
  | wake n =>
    obtain ⟨_, _, _, _, _, rfl⟩ := h
    exact hbounded

/-- A hit is old, or was in the cache. -/
theorem Lookup.hit_of_step (h : l.step policy now action l') {n : ℕ} {k : κ} {a : α}
    (hhit : l'.flight.call n = .hit k a) :
    l.flight.call n = .hit k a ∨ ∃ x, l.cache.get k = some (x, a) := by
  obtain ⟨p, hmoves, hcall⟩ := Lookup.step_moves h
  have hold := hhit
  rw [hcall] at hhit
  by_cases hn : n = action.caller
  · rw [hn, move_self] at hhit
    rw [hhit] at hmoves
    generalize l.flight.call action.caller = old at hmoves
    cases hmoves with
    | hit m j b =>
      -- the only way to a hit is an entry that lasts
      right
      obtain ⟨_, rfl⟩ := h
      rw [hn] at hold
      change (l.ask now m k).flight.call m = .hit k a at hold
      have hjoin : (l.flight.join m k .asking).call m ≠ .hit k a := by
        unfold Flight.join
        cases l.flight.pending k with
        | none =>
          show (l.flight.move m _).call m ≠ _
          rw [move_self]
          simp
        | some leader =>
          show (l.flight.move m _).call m ≠ _
          rw [move_self]
          simp
      unfold Lookup.ask at hold
      split at hold
      · rename_i x b hentry
        split at hold
        · change (l.flight.move m (.hit k b)).call m = _ at hold
          rw [move_self] at hold
          obtain rfl := (Phase.hit.inj hold).2
          exact ⟨x, hentry⟩
        · exact absurd hold hjoin
      · exact absurd hold hjoin
  · rw [move_ne _ _ p hn] at hhit
    exact Or.inl hhit

/-- Who writes has written. -/
theorem Lookup.wrote_of_step {n : ℕ} (h : l.step policy now (.write n) l') :
    ∃ k a, wrote (l'.flight.call n) = some (k, a) := by
  obtain ⟨k, a, _, rfl⟩ := h
  refine ⟨k, a, ?_⟩
  show wrote ((l.flight.move n (.leading k (.written a))).call n) = _
  rw [move_self]
  rfl

end StepRules

/-! ### The invariant -/

/-- After the actions: what is cached, and what a call was answered from the
    cache, some call was told and wrote, or it is vouched for. What a call was
    told is how the reply to it reads. Only calls that were answered write. -/
structure Sound [DecidableEq κ] (policy : Policy κ ρ τ α ε) (vouched : κ → α → Prop)
    (actions : List (Action κ ρ)) (l : Lookup κ τ α ε) : Prop where
  inv : Inv l.flight
  bounded : l.cache.entries.length ≤ policy.size
  cached : ∀ k x a, l.cache.get k = some (x, a) →
    (∃ n, wrote (l.flight.call n) = some (k, a)) ∨ vouched k a
  hits : ∀ n k a, l.flight.call n = .hit k a →
    (∃ m, wrote (l.flight.call m) = some (k, a)) ∨ vouched k a
  replied : ∀ n k o, verdict (l.flight.call n) = some (k, o) →
    ∃ r, Action.reply n r ∈ actions ∧ settled (policy.reading k r) = o
  writes : ∀ n, Action.write n ∈ actions → ∃ k a, wrote (l.flight.call n) = some (k, a)

section SoundRules

variable [DecidableEq κ] {policy : Policy κ ρ τ α ε} {vouched : κ → α → Prop}
  {actions : List (Action κ ρ)} {l l' : Lookup κ τ α ε}

theorem Sound.empty : Sound policy vouched [] (Lookup.empty : Lookup κ τ α ε) where
  inv := Inv.empty
  bounded := Nat.zero_le _
  cached := by
    intro k x a h
    exact absurd h (by simp [Lookup.empty])
  hits := by
    intro n k a h
    exact absurd h (by simp [Lookup.empty, Flight.empty])
  replied := by
    intro n k o h
    exact absurd h (by simp [Lookup.empty, Flight.empty, verdict])
  writes := by
    intro n h
    exact absurd h (by simp)

/-- One action keeps it. -/
theorem Sound.step [LT τ] [DecidableLT τ] {now : τ} {action : Action κ ρ}
    (hs : Sound policy vouched actions l) (h : l.step policy now action l') :
    Sound policy vouched (actions ++ [action]) l' where
  inv := Lookup.step_inv h hs.inv
  bounded := Lookup.step_bounded h hs.bounded
  cached := by
    intro k x a hentry
    rcases Lookup.cached_of_step h hentry with hold | hwrote
    · rcases hs.cached k x a hold with ⟨n, hn⟩ | hvouched
      · exact Or.inl ⟨n, Lookup.step_wrote h hn⟩
      · exact Or.inr hvouched
    · exact Or.inl hwrote
  hits := by
    intro n k a hhit
    have hsource : (∃ m, wrote (l.flight.call m) = some (k, a)) ∨ vouched k a := by
      rcases Lookup.hit_of_step h hhit with hold | ⟨x, hentry⟩
      · exact hs.hits n k a hold
      · exact hs.cached k x a hentry
    rcases hsource with ⟨m, hm⟩ | hvouched
    · exact Or.inl ⟨m, Lookup.step_wrote h hm⟩
    · exact Or.inr hvouched
  replied := by
    intro n k o hv
    rcases Lookup.verdict_of_step h hv with hold | ⟨r, rfl, hreading⟩
    · obtain ⟨r, hr, hreading⟩ := hs.replied n k o hold
      exact ⟨r, List.mem_append_left _ hr, hreading⟩
    · exact ⟨r, List.mem_append_right _ (List.mem_singleton.mpr rfl), hreading⟩
  writes := by
    intro n hn
    rcases List.mem_append.mp hn with hold | hnew
    · obtain ⟨k, a, hwrote⟩ := hs.writes n hold
      exact ⟨k, a, Lookup.step_wrote h hwrote⟩
    · obtain rfl := List.mem_singleton.mp hnew
      exact Lookup.wrote_of_step h

/-- Somebody else writes into the cache what is vouched for. -/
theorem Sound.with_cache {vouched' : κ → α → Prop} {cache : Keyed κ (τ × α)}
    (hs : Sound policy vouched actions l) (hmono : ∀ k a, vouched k a → vouched' k a)
    (hbounded : cache.entries.length ≤ policy.size)
    (hcache : ∀ k x a, cache.get k = some (x, a) → l.cache.get k = some (x, a) ∨ vouched' k a) :
    Sound policy vouched' actions ⟨cache, l.flight⟩ where
  inv := hs.inv
  bounded := hbounded
  cached := by
    intro k x a hentry
    rcases hcache k x a hentry with hold | hvouched
    · exact (hs.cached k x a hold).imp_right (hmono k a)
    · exact Or.inr hvouched
  hits := by
    intro n k a hhit
    exact (hs.hits n k a hhit).imp_right (hmono k a)
  replied := hs.replied
  writes := hs.writes

/-- A call that failed has written nothing. -/
theorem Sound.failed_silent (hs : Sound policy vouched actions l) {n : ℕ} {k : κ} {e : ε}
    (hfailed : verdict (l.flight.call n) = some (k, .raised e)) :
    Action.write n ∉ actions := by
  intro hwrite
  obtain ⟨j, a, hwrote⟩ := hs.writes n hwrite
  rw [verdict_of_wrote hwrote] at hfailed
  exact absurd (Prod.mk.inj (Option.some.inj hfailed)).2 (by simp)

end SoundRules

end CachedFlight
