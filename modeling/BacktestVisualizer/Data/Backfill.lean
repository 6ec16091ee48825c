import BacktestVisualizer.Data.Coverage

/-! # Backfill

  What `coverage_for` does to the table when the database is the source. A
  ticker without bars is loaded over the window of the others; nothing that is
  stored changes, also when FMP breaks off an answer and the call raises. After
  an answer the same call writes nothing and answers the same, and a window that
  has been offered is offered from then on, whatever else is loaded and whatever
  the live system inserts.
-/

open Batches Fmp History UniqueIndex

namespace Coverage

variable {clock : CloseClock} {table : PriceTable clock} {market : Market} {start stop : ℤ}
  {t : Ticker}

/-! ### Insertions -/

theorem PriceTable.eq_of_bars {table' : PriceTable clock} (h : ∀ t, table.bars t = table'.bars t) :
    table = table' := by
  cases table
  cases table'
  congr
  exact funext h

@[simp] theorem insert_bars_self (rows : List (StoredBar clock)) :
    (table.insert t rows).bars t = insert_all (fun bar => bar.timestamp) (table.bars t) rows :=
  if_pos rfl

theorem insert_bars_ne (rows : List (StoredBar clock)) {t' : Ticker} (h : t' ≠ t) :
    (table.insert t rows).bars t' = table.bars t' :=
  if_neg h

theorem insert_nil : table.insert t [] = table := by
  apply PriceTable.eq_of_bars
  intro t'
  by_cases h : t' = t
  · subst h
    rw [insert_bars_self, insert_all_nil]
  · exact insert_bars_ne [] h

/-- The table after `insert_daily_bars`. -/
theorem insert_daily_bars_table (rows : List (StoredBar clock)) :
    (insert_daily_bars table t rows).1 = table.insert t rows := by
  unfold insert_daily_bars
  split
  · rfl
  · rename_i hnone
    cases rows with
    | nil => exact insert_nil.symm
    | cons row rows =>
      exact (hnone _ _ List.min?_cons' List.max?_cons').elim

/-- The count is 0 exactly when nothing was written. -/
theorem insert_daily_bars_count (rows : List (StoredBar clock)) :
    (insert_daily_bars table t rows).2 = 0 ↔ table.insert t rows = table := by
  unfold insert_daily_bars
  split
  · rename_i first last hmin hmax
    have hrange : ∀ row ∈ rows,
        decide (first ≤ row.timestamp ∧ row.timestamp ≤ last) = true := by
      intro row hrow
      have hmem := List.mem_map_of_mem (f := fun row : StoredBar clock => row.timestamp) hrow
      have hlow := (List.min?_eq_some_iff.mp hmin).2 _ hmem
      have hhigh := (List.max?_eq_some_iff.mp hmax).2 _ hmem
      exact decide_eq_true ⟨hlow, hhigh⟩
    constructor
    · intro hzero
      apply PriceTable.eq_of_bars
      intro t'
      by_cases h : t' = t
      · subst h
        rw [insert_bars_self]
        apply insert_all_eq_of_count hrange
        rw [← insert_bars_self]
        simp only [count_bars] at hzero
        omega
      · exact insert_bars_ne rows h
    · intro heq
      simp only [heq]
      omega
  · rename_i hnone
    cases rows with
    | nil => simp [insert_nil]
    | cons row rows =>
      exact (hnone _ _ List.min?_cons' List.max?_cons').elim

/-! ### What FMP gives for a ticker -/

theorem close_at_lt {d d' : ℤ} (h : d < d') : clock.close_at d < clock.close_at d' := by
  by_contra hle
  have hdates := clock.date_mono (clock.close_at d') (clock.close_at d) (not_lt.mp hle)
  have hd := date_close clock d
  have hd' := date_close clock d'
  unfold Clock.date at hd hd'
  omega

/-- An answer of FMP that breaks off with an error other than
    `FMPUnavailable`. -/
def Market.Breaks (market : Market) (start stop : ℤ) (t : Ticker) : Prop :=
  market.outage t start stop = some .uncaught ∨ market.listings t = .error .uncaught

/-- What the loop does not catch is a broken answer. -/
theorem load_error (ht : wanted [t.symbol] = [t]) (hle : start ≤ stop) {e : FmpError}
    (h : load market clock start stop t = .error e) (he : e.unavailable = false) :
    e = .request_failed t .uncaught ∧ market.Breaks start stop t := by
  rcases Fallible.bind_error h with hfetch | ⟨frame, _, hrest⟩
  · obtain ⟨t', hmem, rfl, hout⟩ := fetch_error hle hfetch he
    rw [ht, List.mem_singleton] at hmem
    subst hmem
    refine ⟨rfl, .inl ?_⟩
    unfold Market.refuses at hout
    split at hout
    · exact absurd hout (by simp)
    · exact hout
  · rcases Fallible.bind_error hrest with hlisting | ⟨_, _, hframe⟩
    · cases hlistings : market.listings t with
      | ok rows =>
        rw [hlistings] at hlisting
        exact absurd hlisting (by simp [Except.mapError])
      | error failure =>
        rw [hlistings] at hlisting
        obtain rfl := Except.error.inj hlisting
        obtain rfl := uncaught_of_request he
        exact ⟨rfl, .inr hlistings⟩
    · exact absurd hframe (by simp [pure, Except.pure])

/-- The rows one ticker is filled with. -/
def loaded (market : Market) (clock : CloseClock) (start stop : ℤ) (t : Ticker) :
    List (StoredBar clock) :=
  match load market clock start stop t with
  | .ok rows => rows
  | .error _ => []

/-- A turn of the loop inserts what was loaded, if only nothing. -/
@[simp] theorem backfill_ticker_table :
    (backfill_ticker market start stop t table).1 =
      table.insert t (loaded market clock start stop t) := by
  unfold backfill_ticker loaded
  cases load market clock start stop t with
  | error e =>
    show (if e.unavailable = true then (table, Except.ok (0 : ℤ)) else (table, .error e)).1 = _
    rw [insert_nil]
    split
    · rfl
    · rfl
  | ok rows => exact insert_daily_bars_table rows

/-- A turn that does not raise counts what it wrote. -/
theorem backfill_ticker_ok {count : ℤ} (h : (backfill_ticker market start stop t table).2 = .ok count) :
    count = 0 ↔ table.insert t (loaded market clock start stop t) = table := by
  unfold backfill_ticker at h
  unfold loaded
  cases hload : load market clock start stop t with
  | error e =>
    simp only [hload] at h
    split at h
    · rw [← Except.ok.inj h]
      simp [insert_nil]
    · exact absurd h (by simp)
  | ok rows =>
    simp only [hload] at h
    rw [← Except.ok.inj h]
    exact insert_daily_bars_count rows

/-- A turn raises what FMP gave, unless it is an `FMPUnavailable`. -/
theorem backfill_ticker_error_iff {e : FmpError} :
    (backfill_ticker market start stop t table).2 = .error e ↔
      load market clock start stop t = .error e ∧ e.unavailable = false := by
  unfold backfill_ticker
  cases load market clock start stop t with
  | error e' =>
    by_cases he' : e'.unavailable = true
    · simp only [he', if_true]
      constructor
      · intro h
        exact absurd h (by simp)
      · intro h
        rw [← Except.error.inj h.1, he'] at h
        exact absurd h.2 (by simp)
    · simp only [he', if_false, Bool.false_eq_true]
      constructor
      · intro h
        rw [← Except.error.inj h]
        exact ⟨rfl, by simpa using he'⟩
      · intro h
        exact congrArg Except.error (Except.error.inj h.1)
  | ok rows => simp

/-- A loaded bar is one of the provider's, with the window's date. -/
structure FromFmp (market : Market) (start stop : ℤ) (t : Ticker) (bar : StoredBar clock) :
    Prop where
  within : start ≤ bar.date ∧ bar.date ≤ stop
  labelled : bar.timestamp = clock.close_at bar.date
  listed : ∃ raw ∈ market.provider.daily t, ∃ row, read_daily t raw = some row ∧
    raw.date = bar.date ∧ bar.close_price = some row.prices.close_price

theorem frame_of_fetch {provider : Provider} {outage : Outage} (ht : wanted [t.symbol] = [t])
    {frame : List DailyRow}
    (h : fetch_daily_history provider outage [t.symbol] start stop false = .ok frame) :
    frame = daily_frame provider start stop [t] := by
  obtain ⟨_, _, _, hframe⟩ := fetch_daily_history_ok_iff.mp (fetch_daily_history_mono h)
  rw [hframe, ht]

theorem mem_daily_frame {provider : Provider} {row : DailyRow}
    (h : row ∈ daily_frame provider start stop [t]) : row ∈ window_rows provider start stop t := by
  rw [daily_frame_singleton] at h
  exact mem_of_mem_drop_duplicates ((DataFrame.mem_sort_values row_order).mp h)

/-- The frame of one ticker has every date once, in order. -/
theorem daily_frame_dates (provider : Provider) (start stop : ℤ) (t : Ticker) :
    (daily_frame provider start stop [t]).Pairwise (fun a b => a.date < b.date) := by
  have hsorted : (daily_frame provider start stop [t]).Pairwise
      (fun a b => row_order a ≤ row_order b) := by
    rw [daily_frame_singleton]
    exact DataFrame.sort_values_sorted row_order _
  have hdistinct : (daily_frame provider start stop [t]).Pairwise
      (fun a b => row_key a ≠ row_key b) := by
    rw [daily_frame_singleton]
    exact (DataFrame.sort_values_perm row_order _).symm.pairwise (drop_duplicates_nodup _)
      (fun hne heq => hne heq.symm)
  apply (List.Pairwise.and_mem.mp (hsorted.and hdistinct)).imp
  intro a b h
  obtain ⟨ha, hb, hle, hne⟩ := h
  have hticker : a.ticker = b.ticker :=
    (mem_window_rows (mem_daily_frame ha)).1.trans (mem_window_rows (mem_daily_frame hb)).1.symm
  rcases Prod.Lex.toLex_le_toLex.mp hle with hlt | ⟨heq, _⟩
  · exact hlt
  · exact absurd (Prod.ext hticker heq) hne

/-- What is loaded comes from a frame of the window. -/
theorem loaded_eq (ht : wanted [t.symbol] = [t]) :
    loaded market clock start stop t = [] ∨ ∃ exchange, loaded market clock start stop t =
      (daily_frame market.provider start stop [t]).map (daily_bar clock exchange) := by
  unfold loaded
  cases hload : load market clock start stop t with
  | error e => exact .inl rfl
  | ok rows =>
    obtain ⟨frame, hfetch, hrest⟩ := Fallible.bind_ok hload
    obtain ⟨page, _, hrows⟩ := Fallible.bind_ok hrest
    obtain rfl := frame_of_fetch ht hfetch
    exact .inr ⟨listing_exchange t page, (Except.ok.inj hrows).symm⟩

theorem loaded_ordered (ht : wanted [t.symbol] = [t]) :
    Ordered (fun bar => bar.timestamp) (loaded market clock start stop t) := by
  rcases loaded_eq ht with hnil | ⟨exchange, hloaded⟩
  · rw [hnil]
    exact List.Pairwise.nil
  · rw [hloaded]
    exact List.pairwise_map.mpr ((daily_frame_dates _ start stop t).imp close_at_lt)

theorem mem_loaded (ht : wanted [t.symbol] = [t]) {bar : StoredBar clock}
    (h : bar ∈ loaded market clock start stop t) : FromFmp market start stop t bar := by
  rcases loaded_eq ht with hnil | ⟨exchange, hloaded⟩
  · rw [hnil] at h
    exact absurd h List.not_mem_nil
  · rw [hloaded] at h
    obtain ⟨row, hrow, rfl⟩ := List.mem_map.mp h
    have hwindow := mem_daily_frame hrow
    obtain ⟨raw, hraw, hread⟩ := List.mem_filterMap.mp hwindow
    refine ⟨(mem_window_rows hwindow).2, rfl, raw, (List.mem_filter.mp hraw).1, row, hread, ?_, rfl⟩
    exact (read_daily_spec hread).2.symm

/-! ### The loop -/

/-- The tickers a backfill is for: they have no bars yet. -/
structure Absent (table : PriceTable clock) (absent : List Ticker) : Prop where
  nodup : absent.Nodup
  empty : ∀ t ∈ absent, table.bars t = []
  normal : ∀ t ∈ absent, wanted [t.symbol] = [t]

/-- The table after a turn for the first of them. -/
theorem Absent.turn {rest : List Ticker} (h : Absent table (t :: rest)) (market : Market)
    (start stop : ℤ) :
    (table.insert t (loaded market clock start stop t)).bars t =
        loaded market clock start stop t ∧
      Absent (table.insert t (loaded market clock start stop t)) rest := by
  obtain ⟨hfresh, hrest⟩ := List.nodup_cons.mp h.nodup
  obtain ⟨ht, hempty⟩ := List.forall_mem_cons.mp h.empty
  obtain ⟨hsymbol, hnormal⟩ := List.forall_mem_cons.mp h.normal
  refine ⟨?_, hrest, ?_, hnormal⟩
  · rw [insert_bars_self, ht]
    exact insert_all_nil_of_ordered (loaded_ordered hsymbol)
  · intro t' ht'
    have hne : t' ≠ t := by
      rintro rfl
      exact hfresh ht'
    rw [insert_bars_ne _ hne]
    exact hempty t' ht'

/-- A turn that raises ends the loop. -/
theorem backfill_missing_raised {rest : List Ticker} {e : FmpError}
    (h : (backfill_ticker market start stop t table).2 = .error e) :
    backfill_missing market start stop (t :: rest) table =
      ((backfill_ticker market start stop t table).1, .error e) := by
  unfold backfill_missing
  simp only [h]

/-- Any other turn goes on to the next ticker. -/
theorem backfill_missing_turn {rest : List Ticker} {count : ℤ}
    (h : (backfill_ticker market start stop t table).2 = .ok count) :
    backfill_missing market start stop (t :: rest) table =
      ((backfill_missing market start stop rest (backfill_ticker market start stop t table).1).1,
        (backfill_missing market start stop rest
          (backfill_ticker market start stop t table).1).2.map
          (fun written => (t, count) :: written)) := by
  conv_lhs => unfold backfill_missing
  simp only [h]

/-- **The loop of the backfill**: a ticker keeps its bars, or gets what is
    loaded for it, also when a later turn raises. -/
theorem backfill_missing_table (market : Market) (start stop : ℤ) {absent : List Ticker}
    (h : Absent table absent) (t : Ticker) :
    (backfill_missing market start stop absent table).1.bars t = table.bars t ∨
      t ∈ absent ∧ (backfill_missing market start stop absent table).1.bars t =
        loaded market clock start stop t := by
  induction absent generalizing table with
  | nil => exact .inl rfl
  | cons t₀ rest ih =>
    obtain ⟨hfirst, hrest⟩ := h.turn market start stop
    -- what one turn does to the bars of a ticker
    have hturn : (backfill_ticker market start stop t₀ table).1.bars t = table.bars t ∨
        t = t₀ ∧ (backfill_ticker market start stop t₀ table).1.bars t =
          loaded market clock start stop t := by
      rw [backfill_ticker_table]
      by_cases ht : t = t₀
      · subst ht
        exact .inr ⟨rfl, hfirst⟩
      · exact .inl (insert_bars_ne _ ht)
    cases hcount : (backfill_ticker market start stop t₀ table).2 with
    | error e =>
      rw [backfill_missing_raised hcount]
      rcases hturn with hsame | ⟨rfl, hloaded⟩
      · exact .inl hsame
      · exact .inr ⟨List.mem_cons_self, hloaded⟩
    | ok count =>
      rw [← backfill_ticker_table] at hrest
      rw [backfill_missing_turn hcount]
      rcases ih hrest with hsame | ⟨hmem, hloaded⟩
      · rcases hturn with hturn | ⟨rfl, hturn⟩
        · exact .inl (hsame.trans hturn)
        · exact .inr ⟨List.mem_cons_self, hsame.trans hturn⟩
      · exact .inr ⟨List.mem_cons_of_mem _ hmem, hloaded⟩

/-- A loop that raises has met a ticker that the loop does not catch. -/
theorem backfill_missing_error {absent : List Ticker} {e : FmpError}
    (h : (backfill_missing market start stop absent table).2 = .error e) :
    ∃ t ∈ absent, load market clock start stop t = .error e ∧ e.unavailable = false := by
  induction absent generalizing table with
  | nil => exact absurd h (by simp [backfill_missing])
  | cons t rest ih =>
    cases hturn : (backfill_ticker market start stop t table).2 with
    | error e' =>
      rw [backfill_missing_raised hturn] at h
      rw [← Except.error.inj h]
      exact ⟨t, List.mem_cons_self, backfill_ticker_error_iff.mp hturn⟩
    | ok count =>
      rw [backfill_missing_turn hturn] at h
      cases hothers : (backfill_missing market start stop rest
          (backfill_ticker market start stop t table).1).2 with
      | error e' =>
        simp only [hothers] at h
        obtain rfl := Except.error.inj h
        obtain ⟨t', ht', hload⟩ := ih hothers
        exact ⟨t', List.mem_cons_of_mem _ ht', hload⟩
      | ok written =>
        simp only [hothers] at h
        exact absurd h (by simp [Except.map])

/-- A loop that ends has caught every failure. -/
theorem backfill_missing_caught {absent : List Ticker} {written : List (Ticker × ℤ)}
    (hloop : (backfill_missing market start stop absent table).2 = .ok written) :
    ∀ t ∈ absent, ∀ e, load market clock start stop t = .error e → e.unavailable = true := by
  induction absent generalizing table written with
  | nil => simp
  | cons t rest ih =>
    cases hturn : (backfill_ticker market start stop t table).2 with
    | error e =>
      rw [backfill_missing_raised hturn] at hloop
      exact absurd hloop (by simp)
    | ok count =>
      rw [backfill_missing_turn hturn] at hloop
      obtain ⟨others, hothers, _⟩ := Fallible.map_ok hloop
      intro t' ht' e hload
      rcases List.mem_cons.mp ht' with rfl | hrest
      · by_contra he
        have hraised : (backfill_ticker market start stop t' table).2 = .error e :=
          backfill_ticker_error_iff.mpr ⟨hload, by simpa using he⟩
        rw [hturn] at hraised
        exact absurd hraised (by simp)
      · exact ih hothers t' hrest e hload

/-- A loop that ends has filled every ticker with what was loaded for it, and
    something is written if there is anything. -/
theorem backfill_missing_ok {absent : List Ticker} (h : Absent table absent)
    {written : List (Ticker × ℤ)}
    (hloop : (backfill_missing market start stop absent table).2 = .ok written) :
    (∀ t, (backfill_missing market start stop absent table).1.bars t =
      if t ∈ absent then loaded market clock start stop t else table.bars t) ∧
    (written.any (fun entry => entry.2 ≠ 0) = true ↔
      ∃ t ∈ absent, loaded market clock start stop t ≠ []) := by
  induction absent generalizing table written with
  | nil =>
    rw [← Except.ok.inj hloop]
    simp [backfill_missing]
  | cons t rest ih =>
    obtain ⟨hfresh, _⟩ := List.nodup_cons.mp h.nodup
    obtain ⟨hfirst, hrest⟩ := h.turn market start stop
    rw [← backfill_ticker_table] at hrest
    cases hturn : (backfill_ticker market start stop t table).2 with
    | error e =>
      rw [backfill_missing_raised hturn] at hloop
      exact absurd hloop (by simp)
    | ok count =>
      rw [backfill_missing_turn hturn] at hloop ⊢
      obtain ⟨others, hothers, hcons⟩ := Fallible.map_ok hloop
      obtain ⟨hbars, hwritten⟩ := ih hrest hothers
      constructor
      · intro t'
        rw [hbars t', backfill_ticker_table]
        by_cases ht' : t' = t
        · subst ht'
          rw [if_neg hfresh, if_pos List.mem_cons_self, hfirst]
        · rw [insert_bars_ne _ ht']
          simp only [List.mem_cons, ht', false_or]
      · -- the first count is 0 exactly when nothing was loaded
        have hcount : count = 0 ↔ loaded market clock start stop t = [] := by
          rw [backfill_ticker_ok hturn]
          constructor
          · intro heq
            rw [← hfirst, heq]
            exact h.empty t List.mem_cons_self
          · intro hnil
            rw [hnil, insert_nil]
        rw [← hcons, List.any_cons, Bool.or_eq_true, hwritten, decide_eq_true_eq,
          List.exists_mem_cons_iff]
        exact or_congr (not_congr hcount) Iff.rfl

/-- A loop that has written nothing has left the table as it was. -/
theorem backfill_missing_unwritten {absent : List Ticker} (h : Absent table absent)
    {written : List (Ticker × ℤ)}
    (hloop : (backfill_missing market start stop absent table).2 = .ok written)
    (hany : ¬ written.any (fun entry => entry.2 ≠ 0) = true) :
    (backfill_missing market start stop absent table).1 = table := by
  obtain ⟨hbars, hwritten⟩ := backfill_missing_ok h hloop
  apply PriceTable.eq_of_bars
  intro t
  rw [hbars t]
  by_cases ht : t ∈ absent
  · rw [if_pos ht, h.empty t ht]
    by_contra hne
    exact hany (hwritten.mpr ⟨t, ht, hne⟩)
  · exact if_neg ht

/-! ### Coverage from the database -/

/-- The window of the tickers that have bars. -/
structure Hull (spans : Spans) (window : ℤ × ℤ) : Prop where
  first : ∃ bound ∈ present spans, bound.1 = window.1
  last : ∃ bound ∈ present spans, bound.2 = window.2
  within : ∀ bound ∈ present spans, window.1 ≤ bound.1 ∧ bound.2 ≤ window.2

theorem Hull.backfill_window {spans : Spans} {window : ℤ × ℤ} (h : Hull spans window)
    (yesterday : ℤ) : backfill_window spans yesterday = window := by
  obtain ⟨low, hlow, hfirst⟩ := h.first
  obtain ⟨high, hhigh, hlast⟩ := h.last
  have hmin : ((present spans).map Prod.fst).min? = some window.1 := by
    apply List.min?_eq_some_iff.mpr
    refine ⟨hfirst ▸ List.mem_map_of_mem hlow, ?_⟩
    intro a ha
    obtain ⟨bound, hbound, rfl⟩ := List.mem_map.mp ha
    exact (h.within bound hbound).1
  have hmax : ((present spans).map Prod.snd).max? = some window.2 := by
    apply List.max?_eq_some_iff.mpr
    refine ⟨hlast ▸ List.mem_map_of_mem hhigh, ?_⟩
    intro b hb
    obtain ⟨bound, hbound, rfl⟩ := List.mem_map.mp hb
    exact (h.within bound hbound).2
  unfold Coverage.backfill_window
  rw [hmin, hmax]

theorem exists_hull {spans : Spans} (h : present spans ≠ []) : ∃ window, Hull spans window := by
  obtain ⟨bound, hbound⟩ := List.exists_mem_of_ne_nil _ h
  obtain ⟨low, hmin⟩ := Option.isSome_iff_exists.mp
    (List.isSome_min?_of_mem (List.mem_map_of_mem (f := Prod.fst) hbound))
  obtain ⟨high, hmax⟩ := Option.isSome_iff_exists.mp
    (List.isSome_max?_of_mem (List.mem_map_of_mem (f := Prod.snd) hbound))
  obtain ⟨hlow, hall⟩ := List.min?_eq_some_iff.mp hmin
  obtain ⟨hhigh, hall'⟩ := List.max?_eq_some_iff.mp hmax
  refine ⟨(low, high), List.mem_map.mp hlow, List.mem_map.mp hhigh, ?_⟩
  intro other hother
  exact ⟨hall _ (List.mem_map_of_mem hother), hall' _ (List.mem_map_of_mem hother)⟩

/-- The spans of a table are those of the tickers with bars. -/
theorem mem_present_coverage {tickers : List Ticker} (hnodup : tickers.Nodup) {bound : ℤ × ℤ} :
    bound ∈ present (ticker_coverage table tickers) ↔
      ∃ t ∈ tickers, span (table.bars t) = some bound := by
  unfold ticker_coverage
  rw [drop_duplicates_eq_self hnodup, mem_present]
  simp

theorem backfill_window_le (table : PriceTable clock) (tickers : List Ticker) (yesterday : ℤ) :
    (backfill_window (ticker_coverage table tickers) yesterday).1 ≤
      (backfill_window (ticker_coverage table tickers) yesterday).2 := by
  unfold backfill_window
  split
  · rename_i first last hmin hmax
    obtain ⟨bound, hbound, rfl⟩ := List.mem_map.mp (List.min?_eq_some_iff.mp hmin).1
    have hlast := (List.max?_eq_some_iff.mp hmax).2 bound.2 (List.mem_map_of_mem hbound)
    -- the first bar of a ticker is not after its last
    obtain ⟨entry, hentry, hspan⟩ := mem_present.mp hbound
    obtain ⟨t, _, rfl⟩ := List.mem_map.mp hentry
    obtain ⟨hfirst, _, hall⟩ := (tells_span (table.ordered t)).between bound.1 bound.2 hspan
    have hle := (hall bound.1 hfirst).2
    show bound.1 ≤ last
    omega
  · show yesterday - 730 ≤ yesterday
    omega

/-- The bars of a ticker after `coverage_for`. -/
def filled (settings : Settings) (market : Market) (yesterday : ℤ) (tickers : List Ticker)
    (table : PriceTable clock) (t : Ticker) : List (StoredBar clock) :=
  let window := backfill_window (ticker_coverage table tickers) yesterday
  if t ∈ tickers ∧ table.bars t = [] ∧ settings.market_data_backfill_enabled then
    loaded market clock window.1 window.2 t
  else table.bars t

theorem mem_missing_coverage {tickers : List Ticker} (hnodup : tickers.Nodup) :
    t ∈ missing_of (ticker_coverage table tickers) ↔ t ∈ tickers ∧ table.bars t = [] := by
  rw [missing_of_faithful (faithful_ticker_coverage table hnodup), List.mem_filter]
  simp

theorem absent_missing {tickers : List Ticker} (hnodup : tickers.Nodup)
    (hnormal : ∀ t ∈ tickers, wanted [t.symbol] = [t]) :
    Absent table (missing_of (ticker_coverage table tickers)) where
  nodup := by
    rw [missing_of_faithful (faithful_ticker_coverage table hnodup)]
    exact hnodup.filter _
  empty := fun _ ht => ((mem_missing_coverage hnodup).mp ht).2
  normal := fun t ht => hnormal t ((mem_missing_coverage hnodup).mp ht).1

section FromDatabase

variable {settings : Settings} {yesterday : ℤ} {tickers : List Ticker}

theorem database_coverage_of_fill
    (h : missing_of (ticker_coverage table tickers) ≠ [] ∧
      settings.market_data_backfill_enabled = true) :
    database_coverage settings market yesterday tickers table =
      let window := backfill_window (ticker_coverage table tickers) yesterday
      let filled := backfill_missing market window.1 window.2
        (missing_of (ticker_coverage table tickers)) table
      (filled.1, filled.2.map (fun written =>
        if written.any (fun entry => entry.2 ≠ 0) then ticker_coverage filled.1 tickers
        else ticker_coverage table tickers)) := if_pos h

theorem database_coverage_of_not
    (h : ¬ (missing_of (ticker_coverage table tickers) ≠ [] ∧
      settings.market_data_backfill_enabled = true)) :
    database_coverage settings market yesterday tickers table =
      (table, .ok (ticker_coverage table tickers)) := if_neg h

/-- A ticker without bars is filled, or left as it is if a turn before it
    raises. -/
theorem database_coverage_table (settings : Settings) (market : Market) (yesterday : ℤ)
    (table : PriceTable clock) (hnodup : tickers.Nodup)
    (hnormal : ∀ t ∈ tickers, wanted [t.symbol] = [t]) (t : Ticker) :
    (database_coverage settings market yesterday tickers table).1.bars t = table.bars t ∨
      (database_coverage settings market yesterday tickers table).1.bars t =
        filled settings market yesterday tickers table t := by
  by_cases hfill : missing_of (ticker_coverage table tickers) ≠ [] ∧
      settings.market_data_backfill_enabled = true
  · rw [database_coverage_of_fill hfill]
    rcases backfill_missing_table market
        (backfill_window (ticker_coverage table tickers) yesterday).1
        (backfill_window (ticker_coverage table tickers) yesterday).2
        (absent_missing hnodup hnormal) t with hsame | ⟨hmem, hloaded⟩
    · exact .inl hsame
    · obtain ⟨ht, hempty⟩ := (mem_missing_coverage hnodup).mp hmem
      refine .inr (hloaded.trans ?_)
      unfold filled
      exact (if_pos ⟨ht, hempty, hfill.2⟩).symm
  · rw [database_coverage_of_not hfill]
    exact .inl rfl

/-- **Coverage from the database** fills the tickers without bars and tells of
    the table after that. -/
theorem database_coverage_ok (hnodup : tickers.Nodup)
    (hnormal : ∀ t ∈ tickers, wanted [t.symbol] = [t]) {spans : Spans}
    (h : (database_coverage settings market yesterday tickers table).2 = .ok spans) :
    spans = ticker_coverage (database_coverage settings market yesterday tickers table).1 tickers ∧
      ∀ t, (database_coverage settings market yesterday tickers table).1.bars t =
        filled settings market yesterday tickers table t := by
  by_cases hfill : missing_of (ticker_coverage table tickers) ≠ [] ∧
      settings.market_data_backfill_enabled = true
  · rw [database_coverage_of_fill hfill] at h ⊢
    obtain ⟨written, hloop, hspans⟩ := Fallible.map_ok h
    obtain ⟨hbars, _⟩ := backfill_missing_ok (absent_missing hnodup hnormal) hloop
    constructor
    · rw [← hspans]
      by_cases hany : written.any (fun entry => entry.2 ≠ 0) = true
      · exact if_pos hany
      · -- nothing was written, so the first reading still holds
        refine (if_neg hany).trans ?_
        exact congrArg (fun table => ticker_coverage table tickers)
          (backfill_missing_unwritten (absent_missing hnodup hnormal) hloop hany).symm
    · intro t
      refine (hbars t).trans ?_
      unfold filled
      simp only [mem_missing_coverage hnodup, hfill.2, and_true]
  · rw [database_coverage_of_not hfill] at h ⊢
    refine ⟨(Except.ok.inj h).symm, ?_⟩
    intro t
    unfold filled
    rw [if_neg]
    intro hcond
    exact hfill ⟨List.ne_nil_of_mem ((mem_missing_coverage hnodup).mpr ⟨hcond.1, hcond.2.1⟩),
      hcond.2.2⟩

/-- It raises what FMP gave for a ticker without bars. -/
theorem database_coverage_error (hnodup : tickers.Nodup) {e : FmpError}
    (h : (database_coverage settings market yesterday tickers table).2 = .error e) :
    settings.market_data_backfill_enabled = true ∧ ∃ t ∈ tickers, table.bars t = [] ∧
      load market clock (backfill_window (ticker_coverage table tickers) yesterday).1
        (backfill_window (ticker_coverage table tickers) yesterday).2 t = .error e ∧
      e.unavailable = false := by
  by_cases hfill : missing_of (ticker_coverage table tickers) ≠ [] ∧
      settings.market_data_backfill_enabled = true
  · rw [database_coverage_of_fill hfill] at h
    obtain ⟨t, ht, hload⟩ := backfill_missing_error (Fallible.map_error h)
    obtain ⟨hmem, hempty⟩ := (mem_missing_coverage hnodup).mp ht
    exact ⟨hfill.2, t, hmem, hempty, hload⟩
  · rw [database_coverage_of_not hfill] at h
    exact absurd h (by simp)

/-- A call that answers has caught every failure. -/
theorem database_coverage_caught (hnodup : tickers.Nodup) {spans : Spans}
    (h : (database_coverage settings market yesterday tickers table).2 = .ok spans)
    (hfill : settings.market_data_backfill_enabled = true) (ht : t ∈ tickers)
    (hempty : table.bars t = []) {e : FmpError}
    (hload : load market clock (backfill_window (ticker_coverage table tickers) yesterday).1
      (backfill_window (ticker_coverage table tickers) yesterday).2 t = .error e) :
    e.unavailable = true := by
  have hmissing := (mem_missing_coverage hnodup).mpr ⟨ht, hempty⟩
  rw [database_coverage_of_fill ⟨List.ne_nil_of_mem hmissing, hfill⟩] at h
  obtain ⟨written, hloop, _⟩ := Fallible.map_ok h
  exact backfill_missing_caught hloop t hmissing e hload

/-- When every ticker has bars, FMP is asked for nothing. -/
theorem database_coverage_present (hnodup : tickers.Nodup) (h : ∀ t ∈ tickers, table.bars t ≠ []) :
    database_coverage settings market yesterday tickers table =
      (table, .ok (ticker_coverage table tickers)) := by
  apply database_coverage_of_not
  intro hfill
  apply hfill.1
  apply List.eq_nil_iff_forall_not_mem.mpr
  intro t ht
  obtain ⟨hmem, hempty⟩ := (mem_missing_coverage hnodup).mp ht
  exact h t hmem hempty

end FromDatabase

/-! ### `coverage_for` -/

section Answers

variable {settings : Settings} {yesterday : ℤ} {tickers : List String}
  {response : CoverageResponse} {table' : PriceTable clock}

theorem coverage_for_of_database (hsource : settings.source = .database) :
    coverage_for settings market yesterday tickers table =
      ((database_coverage settings market yesterday (wanted tickers) table).1,
        (database_coverage settings market yesterday (wanted tickers) table).2.map respond) := by
  unfold coverage_for
  rw [hsource]

theorem coverage_for_of_fmp (hsource : settings.source = .fmp) :
    coverage_for settings market yesterday tickers table =
      (table, (fmp_coverage market yesterday (wanted tickers)).map respond) := by
  unfold coverage_for
  rw [hsource]

/-- An answer from the database tells of the table after the call. -/
theorem coverage_for_database (hsource : settings.source = .database)
    (h : coverage_for settings market yesterday tickers table = (table', .ok response)) :
    response = respond (ticker_coverage table' (wanted tickers)) ∧
      ∀ t, table'.bars t = filled settings market yesterday (wanted tickers) table t := by
  rw [coverage_for_of_database hsource] at h
  obtain ⟨rfl, hmap⟩ := Prod.mk.inj h
  obtain ⟨spans, hspans, hrespond⟩ := Fallible.map_ok hmap
  obtain ⟨heq, hbars⟩ := database_coverage_ok (wanted_nodup tickers)
    (fun t ht => wanted_symbol ht) hspans
  rw [heq] at hrespond
  exact ⟨hrespond.symm, hbars⟩

/-- When every ticker has bars, the database answers whatever FMP does. -/
theorem coverage_for_present (hsource : settings.source = .database)
    (h : ∀ t ∈ wanted tickers, table.bars t ≠ []) :
    coverage_for settings market yesterday tickers table =
      (table, .ok (respond (ticker_coverage table (wanted tickers)))) := by
  rw [coverage_for_of_database hsource, database_coverage_present (wanted_nodup tickers) h]
  rfl

/-- What is answered tells of the days of every ticker. -/
theorem coverage_for_faithful
    (h : coverage_for settings market yesterday tickers table = (table', .ok response)) :
    ∃ spans, response = respond spans ∧
      Faithful (wanted tickers) (days_of settings market yesterday table') spans := by
  cases hsource : settings.source with
  | fmp =>
    rw [coverage_for_of_fmp hsource] at h
    obtain ⟨spans, hspans, rfl⟩ := Fallible.map_ok (Prod.mk.inj h).2
    refine ⟨spans, rfl, ?_⟩
    unfold days_of
    rw [hsource]
    exact faithful_fmp_coverage hspans
  | database =>
    refine ⟨_, (coverage_for_database hsource h).1, ?_⟩
    unfold days_of
    rw [hsource]
    exact faithful_ticker_coverage table' (wanted_nodup tickers)

/-- **The window offered** is what the histories of all tickers have in
    common: a day lies in it exactly when every ticker has a bar on it or
    before, and one on it or after. It has both its ends or none, and the
    tickers reported missing are those without a bar. -/
theorem coverage_window
    (h : coverage_for settings market yesterday tickers table = (table', .ok response)) :
    (∀ d, (∃ start ∈ response.start, ∃ finish ∈ response.finish, start ≤ d ∧ d ≤ finish) ↔
      wanted tickers ≠ [] ∧
        ∀ t ∈ wanted tickers, Within (days_of settings market yesterday table' t) d) ∧
    ((∃ start finish, response.start = some start ∧ response.finish = some finish ∧
      start ≤ finish) ∨ (response.start = none ∧ response.finish = none)) ∧
    response.missing =
      (wanted tickers).filter (fun t => days_of settings market yesterday table' t = []) ∧
    response.tickers.map TickerCoverage.ticker = wanted tickers := by
  obtain ⟨spans, rfl, hspans⟩ := coverage_for_faithful h
  refine ⟨respond_window hspans, respond_ends spans, missing_of_faithful hspans, ?_⟩
  rw [← hspans.tickers]
  show (spans.map _).map TickerCoverage.ticker = _
  rw [List.map_map]
  rfl

/-- New York in winter, where days have 24 hours. -/
def winter_close : CloseClock where
  toClock := winter_clock
  close_at := fun d => d * day_us + 57600000000 + 5 * hour_us
  wall_close := by
    intro d
    show d * day_us + 57600000000 + 5 * hour_us - 5 * hour_us = _
    omega

/-- A day of the provider, as it would be stored. -/
def stored_day (d : ℤ) : StoredBar winter_close :=
  daily_bar winter_close "NASDAQ" ⟨Intraday.msft, d, ⟨1, 1, 1, 1, 1⟩⟩

def apple : Ticker := ⟨"AAPL", aapl_nonempty⟩

/-- A table with two tickers whose histories overlap. -/
def stocked : PriceTable winter_close where
  bars := fun t =>
    if t.symbol = "MSFT" then [stored_day 0, stored_day 4]
    else if t.symbol = "AAPL" then [stored_day 2, stored_day 6]
    else []
  ordered := by
    have hordered : ∀ d d' : ℤ, d < d' →
        Ordered (fun bar : StoredBar winter_close => bar.timestamp)
          [stored_day d, stored_day d'] := by
      intro d d' h
      have hlt : winter_close.close_at d < winter_close.close_at d' := close_at_lt h
      exact List.pairwise_pair.mpr hlt
    intro t
    split
    · exact hordered 0 4 (by omega)
    · split
      · exact hordered 2 6 (by omega)
      · exact List.Pairwise.nil

/-- A provider that has a day of one ticker, does not know another, and lists
    no exchange. -/
def third_market : Market where
  provider := ⟨fun t => if t.symbol = "IBM" then [flat_day 3] else [], fun _ _ => []⟩
  outage := answering
  unknown := fun t => t.symbol = "GE"
  listings := fun _ => .ok []

/-- The table has both tickers, so the provider is not asked. -/
theorem stocked_coverage :
    coverage_for ⟨.database, true⟩ third_market 20 ["MSFT", "AAPL"] stocked =
      (stocked, .ok (respond (ticker_coverage stocked (wanted ["MSFT", "AAPL"])))) := by
  apply coverage_for_present rfl
  have hwanted : wanted ["MSFT", "AAPL"] = [Intraday.msft, apple] := by decide +kernel
  rw [hwanted]
  intro t ht
  rcases List.mem_pair.mp ht with rfl | rfl
  · simp [stocked, Intraday.msft]
  · simp [stocked, apple]

theorem stocked_window :
    ∃ response table',
      coverage_for ⟨.database, true⟩ third_market 20 ["MSFT", "AAPL"] stocked =
        (table', .ok response) ∧
      response.start = some 2 ∧ response.finish = some 4 ∧
      ∀ d, (∃ start ∈ response.start, ∃ finish ∈ response.finish, start ≤ d ∧ d ≤ finish) ↔
        wanted ["MSFT", "AAPL"] ≠ [] ∧ ∀ t ∈ wanted ["MSFT", "AAPL"],
          Within (days_of ⟨.database, true⟩ third_market 20 table' t) d :=
  ⟨_, _, stocked_coverage, by decide +kernel, by decide +kernel,
    (coverage_window stocked_coverage).1⟩

/-! ### What the backfill does to the table -/

/-- A ticker that has bars, or is not asked for, keeps its bars. -/
theorem filled_of_present {tickers : List Ticker} (h : t ∉ tickers ∨ table.bars t ≠ []) :
    filled settings market yesterday tickers table t = table.bars t := by
  unfold filled
  apply if_neg
  intro hcond
  rcases h with hout | hbars
  · exact hout hcond.1
  · exact hbars hcond.2.1

theorem filled_grows (settings : Settings) (market : Market) (yesterday : ℤ)
    (tickers : List Ticker) (table : PriceTable clock) (t : Ticker) :
    (table.bars t).Sublist (filled settings market yesterday tickers table t) := by
  by_cases h : table.bars t = []
  · rw [h]
    exact List.nil_sublist _
  · rw [filled_of_present (.inr h)]

/-- The backfill stays inside the window of the tickers that had bars, so the
    next one has the same window. -/
theorem backfill_window_filled {tickers : List Ticker} (hnodup : tickers.Nodup)
    (hnormal : ∀ t ∈ tickers, wanted [t.symbol] = [t])
    (hbars : ∀ t, table'.bars t = filled settings market yesterday tickers table t)
    (hsome : ∃ t ∈ tickers, table.bars t ≠ []) (yesterday' : ℤ) :
    backfill_window (ticker_coverage table' tickers) yesterday' =
      backfill_window (ticker_coverage table tickers) yesterday := by
  obtain ⟨t₀, ht₀, hne⟩ := hsome
  obtain ⟨bound₀, hspan₀⟩ := Option.ne_none_iff_exists'.mp
    (fun hnone => hne (by simpa using (tells_span (table.ordered t₀)).absent.mp hnone))
  obtain ⟨window, hwindow⟩ := exists_hull
    (List.ne_nil_of_mem ((mem_present_coverage hnodup).mpr ⟨t₀, ht₀, hspan₀⟩))
  rw [hwindow.backfill_window]
  -- the spans there were are there still
  have hkept : ∀ bound ∈ present (ticker_coverage table tickers),
      bound ∈ present (ticker_coverage table' tickers) := by
    intro bound hbound
    obtain ⟨t, ht, hspan⟩ := (mem_present_coverage hnodup).mp hbound
    have hbars' : table.bars t ≠ [] := by
      intro hnil
      rw [hnil] at hspan
      exact absurd hspan (by simp [span])
    apply (mem_present_coverage hnodup).mpr
    exact ⟨t, ht, by rw [hbars t, filled_of_present (.inr hbars'), hspan]⟩
  have hfull : Hull (ticker_coverage table' tickers) window := by
    refine ⟨?_, ?_, ?_⟩
    · obtain ⟨bound, hbound, heq⟩ := hwindow.first
      exact ⟨bound, hkept bound hbound, heq⟩
    · obtain ⟨bound, hbound, heq⟩ := hwindow.last
      exact ⟨bound, hkept bound hbound, heq⟩
    · intro bound hbound
      obtain ⟨t, ht, hspan⟩ := (mem_present_coverage hnodup).mp hbound
      obtain ⟨hfirst, hlast, _⟩ := (tells_span (table'.ordered t)).between bound.1 bound.2 hspan
      rw [hbars t] at hspan hfirst hlast
      by_cases hcond : t ∈ tickers ∧ table.bars t = [] ∧
          settings.market_data_backfill_enabled = true
      · -- what was loaded lies in the window
        have hloaded : filled settings market yesterday tickers table t =
            loaded market clock window.1 window.2 t := by
          unfold filled
          rw [hwindow.backfill_window]
          exact if_pos hcond
        rw [hloaded] at hfirst hlast
        obtain ⟨a, ha, heqa⟩ := List.mem_map.mp hfirst
        obtain ⟨b, hb, heqb⟩ := List.mem_map.mp hlast
        rw [← heqa, ← heqb]
        exact ⟨(mem_loaded (hnormal t ht) ha).within.1, (mem_loaded (hnormal t ht) hb).within.2⟩
      · have hsame : filled settings market yesterday tickers table t = table.bars t := if_neg hcond
        rw [hsame] at hspan
        exact hwindow.within bound ((mem_present_coverage hnodup).mpr ⟨t, ht, hspan⟩)
  exact hfull.backfill_window yesterday'

/-- FMP answers for a ticker as it did, as far as the window goes. -/
structure Market.Agrees (market market' : Market) (start stop : ℤ) (t : Ticker) : Prop where
  daily : (market'.provider.daily t).filter (fun raw => start ≤ raw.date ∧ raw.date ≤ stop) =
    (market.provider.daily t).filter (fun raw => start ≤ raw.date ∧ raw.date ≤ stop)
  outage : market'.outage t start stop = market.outage t start stop
  unknown : market'.unknown t = market.unknown t
  listings : market'.listings t = market.listings t

/-- Then the loop loads the same. -/
theorem Market.Agrees.load {market' : Market} (h : market.Agrees market' start stop t)
    (ht : wanted [t.symbol] = [t]) :
    load market' clock start stop t = load market clock start stop t := by
  have hhistory : ticker_history market'.provider market'.refuses start stop t =
      ticker_history market.provider market.refuses start stop t := by
    unfold ticker_history request_list Market.refuses
    rw [h.daily, h.outage, h.unknown]
  have hfetch : fetch_daily_history market'.provider market'.refuses [t.symbol] start stop false =
      fetch_daily_history market.provider market.refuses [t.symbol] start stop false := by
    unfold fetch_daily_history get_historical_data
    simp only [ht, List.map_cons, List.map_nil, List.mapM_cons, List.mapM_nil, hhistory]
  unfold Coverage.load
  rw [hfetch, h.listings]

/-- The call again, on the table it has left. -/
theorem coverage_again {market' : Market} {first last : ℤ} (hsource : settings.source = .database)
    (hwindow : backfill_window (ticker_coverage table (wanted tickers)) yesterday = (first, last))
    (h : coverage_for settings market yesterday tickers table = (table', .ok response))
    (hsome : ∃ t ∈ wanted tickers, table.bars t ≠ [])
    (hagrees : ∀ t ∈ wanted tickers, table'.bars t = [] → market.Agrees market' first last t)
    (yesterday' : ℤ) :
    coverage_for settings market' yesterday' tickers table' = (table', .ok response) := by
  obtain ⟨hresponse, hbars⟩ := coverage_for_database hsource h
  have hwindow' : backfill_window (ticker_coverage table' (wanted tickers)) yesterday' =
      (first, last) := by
    rw [← hwindow]
    exact backfill_window_filled (wanted_nodup tickers) (fun t ht => wanted_symbol ht) hbars hsome
      yesterday'
  have hempty : ∀ t, table'.bars t = [] → table.bars t = [] := by
    intro t ht
    have hgrows := filled_grows settings market yesterday (wanted tickers) table t
    rw [← hbars t, ht] at hgrows
    exact List.sublist_nil.mp hgrows
  -- a ticker that is still without bars is offered the same, which is nothing
  have hload : ∀ t ∈ wanted tickers, table'.bars t = [] →
      load market' clock first last t = load market clock first last t :=
    fun t ht hnil => (hagrees t ht hnil).load (wanted_symbol ht)
  cases hagain : (database_coverage settings market' yesterday' (wanted tickers) table').2 with
  | error e =>
    -- the first call would have raised as well
    obtain ⟨henabled, t, ht, hnil, hfails, he⟩ :=
      database_coverage_error (wanted_nodup tickers) hagain
    rw [hwindow', hload t ht hnil] at hfails
    rw [coverage_for_of_database hsource] at h
    obtain ⟨spans, hspans, _⟩ := Fallible.map_ok (Prod.mk.inj h).2
    have hcaught := database_coverage_caught (wanted_nodup tickers) hspans henabled ht
      (hempty t hnil) (by rw [hwindow]; exact hfails)
    rw [he] at hcaught
    exact absurd hcaught (by simp)
  | ok spans =>
    obtain ⟨rfl, hbars'⟩ := database_coverage_ok (wanted_nodup tickers)
      (fun t ht => wanted_symbol ht) hagain
    have hsame : (database_coverage settings market' yesterday' (wanted tickers) table').1 =
        table' := by
      -- a ticker that is empty now got nothing the first time, from the same window
      apply PriceTable.eq_of_bars
      intro t
      rw [hbars' t]
      unfold filled
      by_cases hcond : t ∈ wanted tickers ∧ table'.bars t = [] ∧
          settings.market_data_backfill_enabled = true
      · rw [if_pos hcond, hbars t]
        unfold filled
        rw [if_pos ⟨hcond.1, hempty t hcond.2.1, hcond.2.2⟩, hwindow, hwindow']
        unfold loaded
        rw [hload t hcond.1 hcond.2.1]
      · exact if_neg hcond
    rw [coverage_for_of_database hsource, hagain, hsame, hresponse]
    rfl

/-- **The backfill only adds**: a call that reads the database keeps all bars
    of tickers that have some, whether it answers or raises. Any other bar is
    one of FMP, at 16:00 of its day, in the window of the backfill. It raises
    only what broke off an answer about a ticker without bars. When it answers
    and one of the tickers had bars, the call again writes nothing and answers
    the same, as long as FMP says the same of the tickers still without. -/
theorem backfill_only_adds (settings : Settings) (market : Market) (yesterday : ℤ)
    (tickers : List String) (table : PriceTable clock) (hsource : settings.source = .database) :
    ∃ first last table' result,
      backfill_window (ticker_coverage table (wanted tickers)) yesterday = (first, last) ∧
      coverage_for settings market yesterday tickers table = (table', result) ∧
      (∀ t, table.bars t ≠ [] ∨ t ∉ wanted tickers → table'.bars t = table.bars t) ∧
      (∀ t, ∀ bar ∈ table'.bars t, bar ∈ table.bars t ∨ FromFmp market first last t bar) ∧
      (∀ e, result = .error e → settings.market_data_backfill_enabled = true ∧
        ∃ t ∈ wanted tickers, table.bars t = [] ∧ e = .request_failed t .uncaught ∧
          market.Breaks first last t) ∧
      (∀ response, result = .ok response → (∃ t ∈ wanted tickers, table.bars t ≠ []) →
        ∀ market' yesterday',
          (∀ t ∈ wanted tickers, table'.bars t = [] → market.Agrees market' first last t) →
          coverage_for settings market' yesterday' tickers table' = (table', .ok response)) := by
  have hnormal : ∀ t ∈ wanted tickers, wanted [t.symbol] = [t] := fun t ht => wanted_symbol ht
  have hle := backfill_window_le table (wanted tickers) yesterday
  have hbars := database_coverage_table settings market yesterday table (wanted_nodup tickers)
    hnormal
  refine ⟨_, _, _, _, rfl, coverage_for_of_database hsource, ?_, ?_, ?_, ?_⟩
  · intro t h
    rcases hbars t with hsame | hfilled
    · exact hsame
    · rw [hfilled]
      exact filled_of_present h.symm
  · intro t bar hbar
    rcases hbars t with hsame | hfilled
    · rw [hsame] at hbar
      exact .inl hbar
    · rw [hfilled] at hbar
      unfold filled at hbar
      by_cases hcond : t ∈ wanted tickers ∧ table.bars t = [] ∧
          settings.market_data_backfill_enabled = true
      · rw [if_pos hcond] at hbar
        exact .inr (mem_loaded (hnormal t hcond.1) hbar)
      · rw [if_neg hcond] at hbar
        exact .inl hbar
  · intro e h
    obtain ⟨henabled, t, ht, hempty, hload, he⟩ :=
      database_coverage_error (wanted_nodup tickers) (Fallible.map_error h)
    obtain ⟨hbroken, hbreaks⟩ := load_error (hnormal t ht) hle hload he
    exact ⟨henabled, t, ht, hempty, hbroken, hbreaks⟩
  · intro response h hsome market' yesterday' hagrees
    refine coverage_again hsource rfl ?_ hsome hagrees yesterday'
    rw [coverage_for_of_database hsource, h]

/-- Two tickers in stock, one that is loaded and one that FMP does not know;
    later FMP breaks off all answers about the two in stock. -/
theorem stocked_again :
    ∃ response table',
      coverage_for ⟨.database, true⟩ third_market 20 ["MSFT", "AAPL", "IBM", "GE"] stocked =
        (table', .ok response) ∧
      coverage_for ⟨.database, true⟩ { third_market with
          outage := fun t _ _ => if (stocked.bars t).isEmpty then none else some .uncaught }
        21 ["MSFT", "AAPL", "IBM", "GE"] table' = (table', .ok response) := by
  obtain ⟨first, last, table', result, _, hcall, hkept, _, herror, hagain⟩ :=
    backfill_only_adds ⟨.database, true⟩ third_market 20 ["MSFT", "AAPL", "IBM", "GE"] stocked rfl
  cases result with
  | error e =>
    obtain ⟨_, t, _, _, _, hbreaks⟩ := herror e rfl
    rcases hbreaks with hout | hlist
    · exact absurd hout (by simp [third_market, answering])
    · exact absurd hlist (by simp [third_market])
  | ok response =>
    refine ⟨response, table', hcall, hagain response rfl ?_ _ 21 ?_⟩
    · exact ⟨Intraday.msft, by decide +kernel, by simp [stocked, Intraday.msft]⟩
    · intro t _ hnil
      have hempty : stocked.bars t = [] := by
        by_contra hne
        rw [hkept t (.inl hne)] at hnil
        exact hne hnil
      refine ⟨rfl, ?_, rfl, rfl⟩
      show (if (stocked.bars t).isEmpty then none else some Failure.uncaught) = none
      rw [hempty]
      rfl

/-! ### Windows that were offered -/

/-- What writes to the table: a call of `coverage_for`, or an insertion of the
    live system, which owns its rows and takes none back. -/
inductive Write (clock : CloseClock) where
  | coverage (settings : Settings) (market : Market) (yesterday : ℤ) (tickers : List String)
  | live (t : Ticker) (rows : List (StoredBar clock))

/-- The table after a write, also of a call that raises. -/
def PriceTable.write (table : PriceTable clock) : Write clock → PriceTable clock
  | .coverage settings market yesterday tickers =>
      (coverage_for settings market yesterday tickers table).1
  | .live t rows => table.insert t rows

/-- The writes as a system. -/
def writes (clock : CloseClock) : LTS.System (PriceTable clock) (Write clock) where
  init := fun _ => True
  step := fun table call table' => table' = table.write call

/-- No bar is lost. -/
def Grows (table table' : PriceTable clock) : Prop :=
  ∀ t, (table.bars t).Sublist (table'.bars t)

theorem grows_write (table : PriceTable clock) (call : Write clock) :
    Grows table (table.write call) := by
  intro t
  cases call with
  | live t' rows =>
    show (table.bars t).Sublist ((table.insert t' rows).bars t)
    by_cases h : t = t'
    · subst h
      rw [insert_bars_self]
      exact sublist_insert_all _ rows
    · rw [insert_bars_ne rows h]
  | coverage settings market yesterday tickers =>
    show (table.bars t).Sublist ((coverage_for settings market yesterday tickers table).1.bars t)
    cases hsource : settings.source with
    | fmp =>
      rw [coverage_for_of_fmp hsource]
    | database =>
      rw [coverage_for_of_database hsource]
      rcases database_coverage_table settings market yesterday table (wanted_nodup tickers)
        (fun t ht => wanted_symbol ht) t with hsame | hfilled
      · rw [hsame]
      · rw [hfilled]
        exact filled_grows settings market yesterday (wanted tickers) table t

theorem grows_run {calls : List (Write clock)} {table' : PriceTable clock}
    (h : (writes clock).Run table calls table') : Grows table table' := by
  apply LTS.System.Run.preserves (P := fun later => Grows table later) _ _ h
  · intro s call s' hstep hgrows t
    rw [hstep]
    exact (hgrows t).trans (grows_write s call t)
  · exact fun t => List.Sublist.refl _

/-- **A window that was offered stays offered**: whatever is loaded or inserted
    afterwards, by these calls or by the live system, and whatever FMP does,
    the same tickers are offered a window that contains it, and nothing is
    loaded for them. -/
theorem offered_window_stays (hsource : settings.source = .database)
    (h : coverage_for settings market yesterday tickers table = (table', .ok response))
    {start finish : ℤ} (hstart : response.start = some start)
    (hfinish : response.finish = some finish) {calls : List (Write clock)}
    {later : PriceTable clock} (hrun : (writes clock).Run table' calls later)
    (market' : Market) (yesterday' : ℤ) :
    ∃ response', coverage_for settings market' yesterday' tickers later =
        (later, .ok response') ∧
      ∃ start' ∈ response'.start, ∃ finish' ∈ response'.finish,
        start' ≤ start ∧ finish ≤ finish' := by
  obtain ⟨hbefore, hends, _⟩ := coverage_window h
  have hle : start ≤ finish := by
    rcases hends with ⟨s, e, hs, he, hle⟩ | ⟨hnone, _⟩
    · rw [hstart] at hs
      rw [hfinish] at he
      rw [Option.some.inj hs, Option.some.inj he]
      exact hle
    · rw [hstart] at hnone
      exact absurd hnone (by simp)
  -- the days of a ticker are still there
  have hdays : ∀ t, days_of settings market yesterday table' t ⊆
      days_of settings market' yesterday' later t := by
    intro t
    unfold days_of
    rw [hsource]
    exact List.map_subset _ (grows_run hrun t).subset
  have hwithin : ∀ d, start ≤ d → d ≤ finish → wanted tickers ≠ [] ∧ ∀ t ∈ wanted tickers,
      Within (days_of settings market' yesterday' later t) d := by
    intro d hlow hhigh
    obtain ⟨hne, hall⟩ := (hbefore d).mp ⟨start, hstart, finish, hfinish, hlow, hhigh⟩
    exact ⟨hne, fun t ht => (hall t ht).mono (hdays t)⟩
  -- so every ticker has bars, and FMP is not asked
  have hpresent : ∀ t ∈ wanted tickers, later.bars t ≠ [] := by
    intro t ht hnil
    obtain ⟨⟨a, ha, _⟩, _⟩ := (hwithin start (le_refl _) hle).2 t ht
    unfold days_of at ha
    simp only [hsource, hnil, List.map_nil] at ha
    exact absurd ha List.not_mem_nil
  have hagain : coverage_for settings market' yesterday' tickers later =
      (later, .ok (respond (ticker_coverage later (wanted tickers)))) :=
    coverage_for_present hsource hpresent
  obtain ⟨hafter, _⟩ := coverage_window hagain
  obtain ⟨s, hs, e, he, hsle, _⟩ := (hafter start).mpr (hwithin start (le_refl _) hle)
  obtain ⟨s', _, e', he', _, hele⟩ := (hafter finish).mpr (hwithin finish hle (le_refl _))
  obtain rfl : e = e' := Option.some.inj (he.symm.trans he')
  exact ⟨_, hagain, s, hs, e, he, hsle, hele⟩

/-- Another day is inserted, and a third ticker is loaded. -/
theorem stocked_window_stays :
    ∃ response, coverage_for ⟨.database, true⟩ third_market 30 ["MSFT", "AAPL"]
        ((stocked.write (.live Intraday.msft [stored_day 5])).write
          (.coverage ⟨.database, true⟩ third_market 20 ["IBM"])) =
        ((stocked.write (.live Intraday.msft [stored_day 5])).write
          (.coverage ⟨.database, true⟩ third_market 20 ["IBM"]), .ok response) ∧
      ∃ start ∈ response.start, ∃ finish ∈ response.finish, start ≤ 2 ∧ 4 ≤ finish :=
  offered_window_stays rfl stocked_coverage (by decide +kernel) (by decide +kernel)
    ((LTS.System.Run.single rfl).snoc rfl) third_market 30

end Answers

end Coverage
