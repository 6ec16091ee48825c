import BacktestVisualizer.Data.SymbolLookup

/-! # Symbol Lookups Are Honest

  Over every interleaving of lookups, searches and the clock: one request a
  ticker, nobody waits for a lookup that is over, and what is cached about a
  ticker was answered to a lookup, or a search has listed it. Only a lookup
  that was told so on a page that is not full makes a ticker unknown.
-/

open SingleFlight CachedFlight LTS

namespace SymbolLookup

/-- Some search has it on its page. -/
def Listed (searches : Lookup String ℚ Page Error) (ticker : String) : Prop :=
  ∃ n query page, wrote (searches.flight.call n) = some (query, page) ∧
    ticker ∈ page.found.map SymbolMatch.symbol

/-- Being listed vouches for a ticker. -/
def Vouched (searches : Lookup String ℚ Page Error) (ticker : String) (known : Bool) : Prop :=
  known = true ∧ Listed searches ticker

/-- The actions of the lookups in a run. -/
def lookup_actions (ls : List Label) : List (Action String (Except Error (List Row))) :=
  ls.filterMap fun l => match l with
    | .lookup action => some action
    | _ => none

/-- The actions of the searches in a run. -/
def search_actions (ls : List Label) : List (Action String SearchReply) :=
  ls.filterMap fun l => match l with
    | .search action => some action
    | _ => none

theorem mem_lookup_actions {ls : List Label} {action : Action String (Except Error (List Row))} :
    action ∈ lookup_actions ls ↔ Label.lookup action ∈ ls := by
  unfold lookup_actions
  rw [List.mem_filterMap]
  constructor
  · intro ⟨l, hl, haction⟩
    cases l with
    | lookup a =>
      obtain rfl := Option.some.inj haction
      exact hl
    | tick d => exact absurd haction (by simp)
    | search a => exact absurd haction (by simp)
  · intro h
    exact ⟨_, h, rfl⟩

/-! ### What a search tells the lookups -/

theorem get_remember {pending : String → Option ℕ} {now : ℚ} {cache : Keyed String (ℚ × Bool)}
    {symbols : List String} {ticker : String} {x : ℚ} {known : Bool}
    (h : (remember_symbols pending now cache symbols).get ticker = some (x, known)) :
    cache.get ticker = some (x, known) ∨ (known = true ∧ ticker ∈ symbols) := by
  have hfolded := Keyed.get_of_trim h
  clear h
  induction symbols generalizing cache with
  | nil => exact Or.inl hfolded
  | cons symbol symbols ih =>
    rw [List.foldl_cons] at hfolded
    rcases ih hfolded with hold | ⟨hknown, hmem⟩
    · split at hold
      · exact Or.inl hold
      · rw [Keyed.get_insert] at hold
        split at hold
        · rename_i hticker
          right
          refine ⟨(Prod.mk.inj (Option.some.inj hold)).2.symm, ?_⟩
          rw [hticker]
          exact List.mem_cons_self
        · exact Or.inl hold
    · exact Or.inr ⟨hknown, List.mem_cons_of_mem _ hmem⟩

theorem Listed.step {now : ℚ} {searches searches' : Lookup String ℚ Page Error}
    {action : Action String SearchReply} {ticker : String} (h : Listed searches ticker)
    (hstep : searches.step search_policy now action searches') : Listed searches' ticker := by
  obtain ⟨n, query, page, hwrote, hmem⟩ := h
  exact ⟨n, query, page, Lookup.step_wrote hstep hwrote, hmem⟩

section Remember

variable {s : State} {searches : Lookup String ℚ Page Error} {action : Action String SearchReply}

/-- What a search leaves in the cache of the lookups was there, or is listed. -/
theorem get_state_remember {ticker : String} {x : ℚ} {known : Bool}
    (h : (s.remember searches action).get ticker = some (x, known)) :
    s.symbols.cache.get ticker = some (x, known) ∨ Vouched searches ticker known := by
  unfold State.remember at h
  split at h
  · split at h
    · rename_i n _ query page hwrote
      rcases get_remember h with hold | ⟨hknown, hmem⟩
      · exact Or.inl hold
      · exact Or.inr ⟨hknown, n, query, page, hwrote, hmem⟩
    · exact Or.inl h
  · exact Or.inl h

theorem length_state_remember (hbounded : s.symbols.cache.entries.length ≤ 512) :
    (s.remember searches action).entries.length ≤ 512 := by
  unfold State.remember
  split
  · split
    · exact Keyed.length_trim 512 _
    · exact hbounded
  · exact hbounded

end Remember

/-! ### The invariant -/

/-- Both flights are sound, the one of the lookups with what searches list. -/
structure AllSound (ls : List Label) (s : State) : Prop where
  symbols : Sound symbol_policy (Vouched s.searches) (lookup_actions ls) s.symbols
  searches : Sound search_policy (fun _ _ => False) (search_actions ls) s.searches

theorem AllSound.init {s : State} (h : symbol_lookups.init s) : AllSound [] s where
  symbols := by
    rw [h.1]
    exact Sound.empty
  searches := by
    rw [h.2]
    exact Sound.empty

theorem AllSound.step {ls : List Label} {s s' : State} {l : Label} (h : AllSound ls s)
    (hstep : symbol_lookups.step s l s') : AllSound (ls ++ [l]) s' := by
  cases l with
  | tick d =>
    obtain ⟨_, rfl⟩ := hstep
    refine ⟨?_, ?_⟩
    · simpa [lookup_actions] using h.symbols
    · simpa [search_actions] using h.searches
  | lookup action =>
    obtain ⟨symbols, hlookup, rfl⟩ := hstep
    refine ⟨?_, ?_⟩
    · simpa [lookup_actions] using h.symbols.step hlookup
    · simpa [search_actions] using h.searches
  | search action =>
    obtain ⟨searches, hsearch, rfl⟩ := hstep
    refine ⟨?_, ?_⟩
    · have hvouched : ∀ ticker known, Vouched s.searches ticker known →
          Vouched searches ticker known := by
        intro ticker known ⟨hknown, hlisted⟩
        exact ⟨hknown, hlisted.step hsearch⟩
      have hsymbols : Sound symbol_policy (Vouched searches) (lookup_actions ls)
          ⟨s.remember searches action, s.symbols.flight⟩ :=
        h.symbols.with_cache hvouched (length_state_remember h.symbols.bounded)
          (fun _ _ _ hget => get_state_remember hget)
      simpa [lookup_actions] using hsymbols
    · simpa [search_actions] using h.searches.step hsearch

theorem all_sound {ls : List Label} {s : State} (h : symbol_lookups.Trace ls s) : AllSound ls s :=
  System.trace_invariant (fun _ => AllSound.init) (fun _ _ _ _ => AllSound.step) h

/-! ### The page of a lookup -/

/-- The provider was asked for exactly this ticker and answered in full. -/
structure Answered (ls : List Label) (s : State) (n : ℕ) (ticker : String) (known : Bool) :
    Prop where
  wrote : wrote (s.symbols.flight.call n) = some (ticker, known)
  page : ∃ rows, Label.lookup (.reply n (.ok rows)) ∈ ls ∧
    (known = true ↔ ∃ row ∈ rows, Text.strip_upper row.symbol = ticker) ∧
    (known = false → rows.length < SYMBOL_SEARCH_LIMIT)

theorem symbol_exists_ok {ticker : String} {rows : List Row} {known : Bool}
    (h : symbol_exists ticker rows = .ok known) :
    (known = true ↔ ∃ row ∈ rows, Text.strip_upper row.symbol = ticker) ∧
      (known = false → rows.length < SYMBOL_SEARCH_LIMIT) := by
  unfold symbol_exists at h
  split at h
  · rename_i hany
    obtain rfl := Except.ok.inj h
    simpa using hany
  · rename_i hany
    split at h
    · exact absurd h (by simp)
    · rename_i hroom
      obtain rfl := Except.ok.inj h
      refine ⟨?_, fun _ => not_le.mp hroom⟩
      simpa using hany

theorem AllSound.answered {ls : List Label} {s : State} (h : AllSound ls s) {n : ℕ}
    {ticker : String} {known : Bool}
    (hwrote : wrote (s.symbols.flight.call n) = some (ticker, known)) :
    Answered ls s n ticker known := by
  refine ⟨hwrote, ?_⟩
  obtain ⟨r, hr, hreading⟩ := h.symbols.replied n ticker _ (verdict_of_wrote hwrote)
  have hmem := mem_lookup_actions.mp hr
  cases r with
  | error e => exact absurd hreading (by simp [settled, symbol_policy, Except.bind])
  | ok rows =>
    refine ⟨rows, hmem, ?_⟩
    apply symbol_exists_ok
    change settled (symbol_exists ticker rows) = .answer known at hreading
    cases hexists : symbol_exists ticker rows with
    | error e =>
      rw [hexists] at hreading
      exact absurd hreading (by simp [settled])
    | ok b =>
      rw [hexists] at hreading
      rw [Outcome.answer.inj hreading]

/-! ### Single flight and honesty -/

/-- What is promised of a state that was reached over these labels. -/
structure Honest (ls : List Label) (s : State) : Prop where
  /-- At most one call asks the provider about a ticker. -/
  one_request : ∀ n m ticker, (s.symbols.flight.call n).leads ticker →
    (s.symbols.flight.call m).leads ticker → n = m
  /-- A waiter gets what its leader got, answer or exception. -/
  same_outcome : ∀ n m ticker o, s.symbols.flight.call n = .followed ticker m o →
    (s.symbols.flight.call m).leads_to ticker o
  /-- A waiter has a leader at work, or can take the outcome and go. -/
  none_lost : ∀ n m ticker, s.symbols.flight.call n = .waiting ticker m →
    (∃ stage, s.symbols.flight.call m = .leading ticker stage) ∨
    ∃ o, (s.symbols.flight.call m).leads_to ticker o ∧
      ∃ s', symbol_lookups.step s (.lookup (.wake n)) s' ∧
        s'.symbols.flight.call n = .followed ticker m o
  /-- A cached unknown was the answer to a lookup of exactly that ticker. -/
  unknown_answered : ∀ ticker x, s.symbols.cache.get ticker = some (x, false) →
    ∃ n, Answered ls s n ticker false
  /-- What is cached was answered, or is a symbol on the page of a search. -/
  cached : ∀ ticker x known, s.symbols.cache.get ticker = some (x, known) →
    (∃ n, Answered ls s n ticker known) ∨ known = true ∧ Listed s.searches ticker
  /-- A lookup that failed has written nothing. -/
  failures_uncached : ∀ n ticker e,
    verdict (s.symbols.flight.call n) = some (ticker, .raised e) →
    Label.lookup (.write n) ∉ ls
  bounded : s.symbols.cache.entries.length ≤ 512
  /-- Only a call that is not through has an entry. -/
  pending_at_work : ∀ ticker n, s.symbols.flight.pending ticker = some n →
    (s.symbols.flight.call n).leads ticker
  /-- Nothing is left of a call that is. -/
  none_left : ∀ n ticker o, s.symbols.flight.call n = .led ticker o →
    ∀ other, s.symbols.flight.pending other ≠ some n

/-- **Symbol lookups are single-flight and honest**, whatever the order of
    the calls, the searches and the clock. -/
theorem lookups_honest {ls : List Label} {s : State} (h : symbol_lookups.Trace ls s) :
    Honest ls s := by
  have hsound := all_sound h
  have hinv := hsound.symbols.inv
  constructor
  case one_request =>
    intro n m ticker hn hm
    exact hinv.one_leader hn hm
  case same_outcome =>
    intro n m ticker o hfollowed
    exact hinv.followed n ticker m o hfollowed
  case none_lost =>
    intro n m ticker hwaits
    have hwake : ∀ o, (s.symbols.flight.call m).leads_to ticker o →
        ∃ s', symbol_lookups.step s (.lookup (.wake n)) s' ∧
          s'.symbols.flight.call n = .followed ticker m o := by
      intro o hout
      have hset := (hinv.outcome m o).mpr ⟨ticker, hout⟩
      exact ⟨_, ⟨_, ⟨ticker, m, o, hwaits, hset, rfl⟩, rfl⟩, move_self _ _ _⟩
    rcases hinv.waiting n ticker m hwaits with (hleading | ⟨o, hpublished⟩) | ⟨o, hout⟩
    · exact Or.inl hleading
    · exact Or.inr ⟨o, Or.inl hpublished, hwake o (Or.inl hpublished)⟩
    · exact Or.inr ⟨o, hout, hwake o hout⟩
  case unknown_answered =>
    intro ticker x hentry
    rcases hsound.symbols.cached ticker x false hentry with ⟨n, hwrote⟩ | ⟨hknown, _⟩
    · exact ⟨n, hsound.answered hwrote⟩
    · exact absurd hknown (by simp)
  case cached =>
    intro ticker x known hentry
    rcases hsound.symbols.cached ticker x known hentry with ⟨n, hwrote⟩ | hvouched
    · exact Or.inl ⟨n, hsound.answered hwrote⟩
    · exact Or.inr hvouched
  case failures_uncached =>
    intro n ticker e hfailed hwrite
    exact hsound.symbols.failed_silent hfailed (mem_lookup_actions.mpr hwrite)
  case bounded => exact hsound.symbols.bounded
  case pending_at_work =>
    intro ticker n hpending
    exact (hinv.entry ticker n).mp hpending
  case none_left =>
    intro n ticker o hled other hpending
    have hleads := (hinv.entry other n).mp hpending
    rw [hled] at hleads
    exact absurd hleads (by simp)

/-- A second call waits for the first and gets its answer. -/
theorem second_call_follows :
    ∃ s, symbol_lookups.Trace
        [.lookup (.ask 0 "AAPL"), .lookup (.ask 1 "AAPL"), .lookup (.reply 0 (.ok [])),
          .lookup (.write 0), .lookup (.publish 0), .lookup (.wake 1), .lookup (.leave 0)] s ∧
      s.symbols.flight.call 1 = .followed "AAPL" 0 (.answer false) ∧
      (s.symbols.flight.call 0).leads_to "AAPL" (.answer false) := by
  have hinit : symbol_lookups.init ⟨0, Lookup.empty, Lookup.empty⟩ := ⟨rfl, rfl⟩
  have hrun : ∃ s, symbol_lookups.Run ⟨0, Lookup.empty, Lookup.empty⟩
      [.lookup (.ask 0 "AAPL"), .lookup (.ask 1 "AAPL"), .lookup (.reply 0 (.ok [])),
        .lookup (.write 0), .lookup (.publish 0), .lookup (.wake 1), .lookup (.leave 0)] s ∧
      s.symbols.flight.call 1 = .followed "AAPL" 0 (.answer false) := by
    refine System.Run.exists_cons ⟨_, ⟨rfl, rfl⟩, rfl⟩ ?_
    refine System.Run.exists_cons ⟨_, ⟨rfl, rfl⟩, rfl⟩ ?_
    refine System.Run.exists_cons ⟨_, ⟨"AAPL", rfl, rfl⟩, rfl⟩ ?_
    refine System.Run.exists_cons ⟨_, ⟨"AAPL", false, rfl, rfl⟩, rfl⟩ ?_
    refine System.Run.exists_cons
      ⟨_, ⟨"AAPL", .answer false, Or.inl ⟨false, rfl, rfl⟩, rfl⟩, rfl⟩ ?_
    refine System.Run.exists_cons ⟨_, ⟨"AAPL", 0, .answer false, rfl, rfl, rfl⟩, rfl⟩ ?_
    refine System.Run.exists_cons ⟨_, ⟨"AAPL", .answer false, rfl, rfl⟩, rfl⟩ ?_
    exact System.Run.exists_refl rfl
  obtain ⟨s, hrun, hfollowed⟩ := hrun
  have htrace : symbol_lookups.Trace _ s := ⟨_, hinit, hrun⟩
  exact ⟨s, htrace, hfollowed, (lookups_honest htrace).same_outcome 1 0 _ _ hfollowed⟩

end SymbolLookup
