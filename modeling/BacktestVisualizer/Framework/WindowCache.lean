import BacktestVisualizer.Framework.Fallible

/-! # Window Caches

  A source answers for a key and a window of dates, or fails. A cache
  remembers for each key the answer for one window. A window it does not
  cover is widened to the hull of the two and asked for again; answers are
  stored one by one until the first failure.

  An entry always is the source's answer for its bounds, whatever failed
  before, and after a complete round every key asked for covers the window.
-/

namespace WindowCache

variable {κ F ε : Type}

/-- A remembered window and its answer. -/
structure Entry (F : Type) where
  first : ℤ
  last : ℤ
  frame : F

def Entry.covers (e : Entry F) (start stop : ℤ) : Prop := e.first ≤ start ∧ stop ≤ e.last

instance (e : Entry F) (start stop : ℤ) : Decidable (e.covers start stop) :=
  inferInstanceAs (Decidable (_ ∧ _))

abbrev Store (κ F : Type) := κ → Option (Entry F)

/-- A key and the window to ask for. -/
structure Request (κ : Type) where
  key : κ
  first : ℤ
  last : ℤ
  deriving DecidableEq, Repr

/-- What to ask for, to cover a window: nothing when it is remembered. -/
def request_for (store : Store κ F) (start stop : ℤ) (k : κ) : Option (Request κ) :=
  match store k with
  | none => some ⟨k, start, stop⟩
  | some e =>
      if e.covers start stop then none else some ⟨k, min start e.first, max stop e.last⟩

/-- The requests of a round. -/
def needed (store : Store κ F) (keys : List κ) (start stop : ℤ) : List (Request κ) :=
  keys.filterMap (request_for store start stop)

/-- Every entry is the source's answer for its bounds. -/
def Sound (source : κ → ℤ → ℤ → Except ε F) (store : Store κ F) : Prop :=
  ∀ k e, store k = some e → source k e.first e.last = .ok e.frame

variable {source fetch : κ → ℤ → ℤ → Except ε F} {store : Store κ F}

theorem sound_empty : Sound source (fun _ => none) := by
  intro k e h
  exact absurd h (by simp)

theorem request_for_key {start stop : ℤ} {k : κ} {r : Request κ}
    (h : request_for store start stop k = some r) : r.key = k := by
  unfold request_for at h
  split at h
  · rw [← Option.some.inj h]
  · split at h
    · exact absurd h (by simp)
    · rw [← Option.some.inj h]

theorem needed_keys (keys : List κ) (start stop : ℤ) :
    ((needed store keys start stop).map Request.key).Sublist keys := by
  unfold needed
  induction keys with
  | nil => exact List.Sublist.refl _
  | cons k keys ih =>
    rw [List.filterMap_cons]
    cases hk : request_for store start stop k with
    | none => exact ih.cons k
    | some r =>
      simp only [List.map_cons]
      rw [request_for_key hk]
      exact ih.cons_cons k

/-- A remembered window asks for nothing. -/
theorem not_needed {keys : List κ} {start stop : ℤ} {k : κ} {e : Entry F}
    (he : store k = some e) (hcovers : e.covers start stop) :
    ∀ r ∈ needed store keys start stop, r.key ≠ k := by
  intro r hr hkey
  obtain ⟨k', _, hreq⟩ := List.mem_filterMap.mp hr
  obtain rfl : k' = k := (request_for_key hreq).symm.trans hkey
  unfold request_for at hreq
  rw [he] at hreq
  simp only at hreq
  rw [if_pos hcovers] at hreq
  exact absurd hreq (by simp)

variable [DecidableEq κ]

def Store.set (store : Store κ F) (k : κ) (e : Entry F) : Store κ F :=
  fun k' => if k' = k then some e else store k'

@[simp] theorem Store.set_self (store : Store κ F) (k : κ) (e : Entry F) :
    store.set k e k = some e := by
  simp [Store.set]

@[simp] theorem Store.set_ne (store : Store κ F) {k k' : κ} (e : Entry F) (h : k' ≠ k) :
    store.set k e k' = store k' := by
  simp [Store.set, h]

/-- Store the answers in order, up to the first failure. -/
def fill (fetch : κ → ℤ → ℤ → Except ε F) (store : Store κ F) :
    List (Request κ) → Store κ F × Except ε Unit
  | [] => (store, .ok ())
  | r :: rest =>
      match fetch r.key r.first r.last with
      | .error e => (store, .error e)
      | .ok frame => fill fetch (store.set r.key ⟨r.first, r.last, frame⟩) rest

theorem Sound.set (h : Sound source store) {k : κ} {e : Entry F}
    (he : source k e.first e.last = .ok e.frame) : Sound source (store.set k e) := by
  intro k' e' hk'
  by_cases hk : k' = k
  · subst hk
    rw [Store.set_self] at hk'
    obtain rfl := Option.some.inj hk'
    exact he
  · rw [Store.set_ne _ _ hk] at hk'
    exact h k' e' hk'

/-- A round keeps the entries sound, also one that breaks off. -/
theorem Sound.fill (h : Sound source store)
    (hfetch : ∀ k a b frame, fetch k a b = .ok frame → source k a b = .ok frame)
    (requests : List (Request κ)) : Sound source (fill fetch store requests).1 := by
  induction requests generalizing store with
  | nil => exact h
  | cons r rest ih =>
    rw [WindowCache.fill]
    cases hr : fetch r.key r.first r.last with
    | error e => exact h
    | ok frame => exact ih (h.set (hfetch _ _ _ _ hr))

/-- A round leaves the keys it does not ask for alone. -/
theorem fill_other {requests : List (Request κ)} {k : κ} (hk : ∀ r ∈ requests, r.key ≠ k) :
    (fill fetch store requests).1 k = store k := by
  induction requests generalizing store with
  | nil => rfl
  | cons r rest ih =>
    rw [fill]
    cases fetch r.key r.first r.last with
    | error e => rfl
    | ok frame =>
      show (fill fetch (store.set r.key ⟨r.first, r.last, frame⟩) rest).1 k = store k
      rw [ih (fun r' hr' => hk r' (List.mem_cons_of_mem _ hr')),
        Store.set_ne _ _ (hk r List.mem_cons_self).symm]

/-- A complete round remembers every window it asked for. -/
theorem fill_ok {requests : List (Request κ)} (hkeys : (requests.map Request.key).Nodup)
    (h : (fill fetch store requests).2 = .ok ()) {r : Request κ} (hr : r ∈ requests) :
    ∃ frame, (fill fetch store requests).1 r.key = some ⟨r.first, r.last, frame⟩ := by
  induction requests generalizing store with
  | nil => exact absurd hr (by simp)
  | cons a rest ih =>
    obtain ⟨hfresh, hrest⟩ := List.nodup_cons.mp hkeys
    rw [fill] at h ⊢
    cases ha : fetch a.key a.first a.last with
    | error e =>
      rw [ha] at h
      exact absurd h (by simp)
    | ok frame =>
      rw [ha] at h
      rcases List.mem_cons.mp hr with rfl | hin
      · have hother : ∀ r' ∈ rest, r'.key ≠ r.key := by
          intro r' hr' heq
          exact hfresh (heq ▸ List.mem_map_of_mem hr')
        refine ⟨frame, ?_⟩
        show (fill fetch (store.set r.key ⟨r.first, r.last, frame⟩) rest).1 r.key = _
        rw [fill_other hother, Store.set_self]
      · exact ih hrest h hin

/-- **After a complete round** every key asked for covers the window. -/
theorem covers_of_fill {keys : List κ} (hkeys : keys.Nodup) {start stop : ℤ}
    (h : (fill fetch store (needed store keys start stop)).2 = .ok ()) {k : κ} (hk : k ∈ keys) :
    ∃ e, (fill fetch store (needed store keys start stop)).1 k = some e ∧
      e.covers start stop := by
  have hdistinct : ((needed store keys start stop).map Request.key).Nodup :=
    hkeys.sublist (needed_keys keys start stop)
  cases hreq : request_for store start stop k with
  | some r =>
    have hr : r ∈ needed store keys start stop := List.mem_filterMap.mpr ⟨k, hk, hreq⟩
    obtain ⟨frame, hframe⟩ := fill_ok hdistinct h hr
    rw [request_for_key hreq] at hframe
    refine ⟨_, hframe, ?_⟩
    unfold request_for at hreq
    split at hreq
    · rw [← Option.some.inj hreq]
      exact ⟨le_refl _, le_refl _⟩
    · split at hreq
      · exact absurd hreq (by simp)
      · rw [← Option.some.inj hreq]
        exact ⟨min_le_left _ _, le_max_left _ _⟩
  | none =>
    -- a key without a request is remembered, and the round leaves it alone
    unfold request_for at hreq
    split at hreq
    · exact absurd hreq (by simp)
    · rename_i e he
      split at hreq
      · rename_i hcovers
        refine ⟨e, ?_, hcovers⟩
        rw [fill_other (not_needed he hcovers), he]
      · exact absurd hreq (by simp)

end WindowCache
