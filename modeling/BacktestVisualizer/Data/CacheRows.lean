import BacktestVisualizer.Data.CacheFailures

/-! # Cached History Against a Direct Read

  Without failures the cached frames have every day of a window. The module
  shows that they have the bars a single query over the window would return,
  one a day, when no slab ends inside a day: then the part of a day that a
  query sees is either all of it, or its last row alone, which is cached
  already.
-/

open Batches

namespace History

variable {table : MarketTable} {clock : Clock} {t : Ticker}

/-- `p` lies inside the session rows of some day. -/
def SplitsDay (table : MarketTable) (clock : Clock) (t : Ticker) (p : ℤ) : Prop :=
  ∃ d, Splits table clock t d p

theorem not_splits_null {p : ℤ} (h : ¬ SplitsDay table clock t p) :
    ¬ SplitsNull table clock t p := by
  intro hnull
  obtain ⟨d, _, hd⟩ := hnull
  exact h ⟨d, hd⟩

/-- Every bar of a frame is that of its whole day. -/
structure Exact (table : MarketTable) (clock : Clock) (t : Ticker) (df : List DayBar) : Prop where
  ordered : Ordered df
  whole : ∀ b ∈ df, whole_bar table clock t (clock.date b.timestamp) = some b

/-- The bar of a whole day sits at its last row. -/
theorem whole_bar_last {d : ℤ} {b : DayBar} (h : whole_bar table clock t d = some b)
    {r : MarketRow} (hr : r ∈ day_rows table clock t d) : r.timestamp ≤ b.timestamp := by
  obtain ⟨last, hlast, _, hts, _⟩ := day_bar_some h
  rw [hts]
  exact ((getLast_iff (day_rows_sublist d)).mp hlast).2 r hr

/-- A whole bar splits no day. -/
theorem Exact.not_splits {df : List DayBar} (h : Exact table clock t df) {b : DayBar}
    (hb : b ∈ df) : ¬ SplitsDay table clock t b.timestamp := by
  intro hsplit
  obtain ⟨d, r, hr, r', hr', hlo, hhi⟩ := hsplit
  obtain rfl : clock.date b.timestamp = d := date_between hr hr' hlo (le_of_lt hhi)
  have := whole_bar_last (h.whole b hb) hr'
  omega

/-- A window that holds every row of a day yields its whole bar. -/
theorem rows_of_whole_day {w : Window} {d : ℤ}
    (h : ∀ r ∈ day_rows table clock t d, w.holds r.timestamp) :
    rows_of_day table clock t w d = day_rows table clock t d := by
  unfold rows_of_day session_rows day_rows
  rw [List.filter_filter]
  apply List.filter_congr
  intro r hr
  have hmem : clock.in_session r.timestamp → clock.date r.timestamp = d → w.holds r.timestamp :=
    fun hin hdate => h r (mem_day_rows.mpr ⟨hr, hin, hdate⟩)
  unfold Window.holds at hmem
  by_cases hin : clock.in_session r.timestamp <;> by_cases hdate : clock.date r.timestamp = d
  · simp [hin, hdate, hmem hin hdate]
  · simp [hdate]
  · simp [hin]
  · simp [hin]

/-! ### One round -/

section Rounds

variable {files : Files} {c : Call}

/-- No slab ends inside a day. -/
theorem slab_end_whole (hdates : c.by_date clock)
    (hedges : c.no_edge files (SplitsDay table clock)) {u : Ticker} (hu : u ∈ c.tickers)
    (hexact : Exact table clock u (load files u)) {g : Window}
    (hg : g ∈ missing_ranges (load files u) c.window.start c.window.finish) {w : Window}
    (hw : w ∈ slabs g) : ¬ SplitsDay table clock u w.finish := by
  apply slab_end_unsplit hedges hu ?_ (fun b hb => hexact.not_splits hb) hg hw
  intro hsplit
  obtain ⟨d, hd⟩ := hsplit
  exact not_splits_of_closed hdates.2 d hd

/-- A slab that cuts off the beginning of a day comes after a bar of that
    day: the slab before it, or the cached bar at which the gap begins, has
    brought one. -/
theorem cut_day_known {T : List Ticker} (hown : OwnFiles T)
    (hordered : ∀ v ∈ T, Ordered (load files v)) (hT : ∀ v ∈ c.tickers, v ∈ T)
    (hdates : c.by_date clock) (hedges : c.no_edge files (SplitsDay table clock))
    {qs : List Query} {q : Query} (hpre : qs ++ [q] <+: c.plan files) {u : Ticker}
    (hu : u ∈ q.chunk) {d : ℤ} (hvalid : Valid table clock u d) {r r' : MarketRow} (hr : r ∈ day_rows table clock u d)
    (hr' : r' ∈ day_rows table clock u d) (hcut : r.timestamp < q.slab.start)
    (hseen : q.slab.start ≤ r'.timestamp) :
    Known clock ((run_queries table clock (Call.store files) qs).caches u) d := by
  obtain ⟨hin, hg, hslab⟩ := mem_queries (hpre.subset (by simp : q ∈ qs ++ [q])) u hu
  have hchunk : ∀ q' ∈ qs, ∀ v ∈ q'.chunk, v ∈ T := fun q' hq' v hv =>
    hT v (mem_queries (hpre.subset (List.mem_append_left _ hq')) v hv).1
  have hsync : InSync T (Call.store files) := fun v hv => ⟨rfl, hordered v hv⟩
  have hkept := ((run_queries_spec table clock hown hchunk hsync).2 u
    (hT u hin)).2
  have hknown : ∀ b, (b ∈ load files u ∨
      ∃ q' ∈ qs, u ∈ q'.chunk ∧ b ∈ ticker_bars table clock u q'.slab) →
      clock.date b.timestamp = d →
      Known clock ((run_queries table clock (Call.store files) qs).caches u) d := by
    intro b hb hdate
    obtain ⟨b', hb', hts⟩ := hkept b hb
    exact ⟨b', hb', by rw [hts, hdate]⟩
  have hopen : ¬ q.slab.start = c.window.start := by
    intro heq
    apply hdates.1
    rw [← heq]
    exact in_session_between hr hr' (le_of_lt hcut) hseen
  obtain ⟨done, hdone, hiff⟩ := plan_broken_off hpre hin hg
  have hmem : q.slab ∈ done := (hiff q.slab).mp ⟨q, by simp, rfl, hu, rfl⟩
  obtain ⟨earlier, later, rfl⟩ := List.append_of_mem hmem
  have hchain : earlier ++ [q.slab] <+: slabs q.gap :=
    List.IsPrefix.trans ⟨later, by simp⟩ hdone
  rcases prefix_chain hchain with ⟨_, hstart⟩ | ⟨v, hv, hfinish⟩
  · -- the first slab of the gap after the newest cached bar
    cases hspan : span (load files u) with
    | none =>
      rw [span_none.mp hspan, missing_ranges_empty] at hg
      rw [hg] at hstart
      exact absurd hstart hopen
    | some s =>
      rcases (mem_missing_ranges hspan).mp hg with ⟨_, hgap⟩ | ⟨_, hgap⟩
      · rw [hgap] at hstart
        exact absurd hstart hopen
      · obtain ⟨b, hb, hts⟩ := (span_some hspan).2.1
        rw [hgap] at hstart
        have hstart' : q.slab.start = s.2 := hstart
        refine hknown b (Or.inl hb) ?_
        rw [hts, ← hstart']
        exact date_between hr hr' (le_of_lt hcut) hseen
  · -- a slab that follows another one
    have hvdone : v ∈ earlier ++ q.slab :: later := List.mem_append_left _ hv
    have hvslab : v ∈ slabs q.gap := hdone.subset hvdone
    have hstart_lt := (slab_within hslab).2.1
    obtain ⟨q', hq', hgap', hin', rfl⟩ := (hiff v).mpr hvdone
    have hq'qs : q' ∈ qs := by
      rcases List.mem_append.mp hq' with hold | hnew
      · exact hold
      · obtain rfl := List.mem_singleton.mp hnew
        omega
    have hinner : q'.slab.finish < q.gap.finish := by
      have := (slab_within hslab).2.2
      omega
    have hwhole : ¬ SplitsDay table clock u q'.slab.finish :=
      hedges u hin q.gap hg q'.slab hvslab hinner
    -- so the rest of the day is the one row at the edge
    have hedge : r'.timestamp ≤ q'.slab.finish := by
      by_contra hlt
      exact hwhole ⟨d, r, hr, r', hr', by omega, not_le.mp hlt⟩
    have hheld : q'.slab.holds r'.timestamp := by
      have := (slab_within hvslab).2.1
      exact ⟨by omega, hedge⟩
    obtain ⟨b, hb, hdate⟩ :=
      (ticker_bars_dates (not_splits_null hwhole) d).mpr ⟨hvalid, r', hr', hheld⟩
    exact hknown b (Or.inr ⟨q', hq'qs, hin', hb⟩) hdate

/-- **One round** adds whole bars only. -/
theorem exact_round {T : List Ticker} (hown : OwnFiles T)
    (hexact : ∀ v ∈ T, Exact table clock v (load files v)) (hT : ∀ v ∈ c.tickers, v ∈ T)
    (hdates : c.by_date clock) (hedges : c.no_edge files (SplitsDay table clock))
    {qs : List Query} {q : Query} (hpre : qs ++ [q] <+: c.plan files)
    (hbefore : ∀ v ∈ T, Exact table clock v
      ((run_queries table clock (Call.store files) qs).caches v)) :
    ∀ v ∈ T, Exact table clock v
      ((run_queries table clock (Call.store files) (qs ++ [q])).caches v) := by
  have hordered : ∀ v ∈ T, Ordered (load files v) := fun v hv => (hexact v hv).ordered
  have hround : ∀ q' ∈ qs ++ [q], ∀ v ∈ q'.chunk, v ∈ c.tickers ∧
      q'.gap ∈ missing_ranges (load files v) c.window.start c.window.finish ∧
      q'.slab ∈ slabs q'.gap := fun q' hq' v hv => mem_queries (hpre.subset hq') v hv
  have hsync : InSync T (Call.store files) := fun v hv => ⟨rfl, hordered v hv⟩
  have hsync' := (run_queries_spec table clock hown
    (fun q' hq' v hv => hT v (hround q' (List.mem_append_left _ hq') v hv).1) hsync).1
  obtain ⟨hsync'', hmem⟩ := run_query_spec table clock hown
    (fun v hv => hT v (hround q (by simp) v hv).1) hsync'
  intro u hu
  rw [run_queries_snoc]
  refine ⟨(hsync'' u hu).2, fun b hb => ?_⟩
  rcases (hmem u hu b).mp hb with hold | ⟨hin, hbar, hfresh⟩
  · exact (hbefore u hu).whole b hold
  · obtain ⟨htickers, hg, hslab⟩ := hround q (by simp) u hin
    have hwhole := slab_end_whole hdates hedges htickers (hexact u hu) hg hslab
    obtain ⟨_, hheld, r, hr, hts⟩ := ticker_bar_row hbar
    have hlast := last_row_seen (fun h => hwhole ⟨_, h⟩) hr (hts ▸ hheld)
    obtain ⟨last, hgot, hclose, hts', _⟩ := day_bar_some (mem_ticker_bars.mp hbar)
    rw [hlast] at hgot
    obtain ⟨b', hb'⟩ := day_bar_exists (t := u) hgot (by simp [hclose])
    have hvalid : Valid table clock u (clock.date b.timestamp) := ⟨b', hb'⟩
    -- a day with a bar keeps it, so this one is new
    have hnew : ¬ Known clock ((run_queries table clock (Call.store files) qs).caches u)
        (clock.date b.timestamp) := by
      intro hknown
      obtain ⟨b'', hb'', hdate⟩ := hknown
      have hw'' := (hbefore u hu).whole b'' hb''
      rw [hdate] at hw''
      obtain ⟨last', hgot', _, hts'', _⟩ := day_bar_some hw''
      obtain rfl : last = last' := Option.some.inj (hgot.symm.trans hgot')
      exact hfresh b'' hb'' (hts'.trans hts''.symm)
    have hall : ∀ r' ∈ day_rows table clock u (clock.date b.timestamp),
        q.slab.holds r'.timestamp := by
      intro r' hr'
      have hle : r'.timestamp ≤ b.timestamp := by
        rw [hts']
        exact ((getLast_iff (day_rows_sublist _)).mp hgot).2 r' hr'
      refine ⟨?_, le_trans hle hheld.2⟩
      by_contra hcut
      exact hnew (cut_day_known hown hordered hT hdates hedges hpre hin hvalid hr' hr
        (not_le.mp hcut) (by rw [hts]; exact hheld.1))
    have hbar' := mem_ticker_bars.mp hbar
    rw [rows_of_whole_day hall] at hbar'
    exact hbar'

/-- **All rounds** do. -/
theorem exact_rounds {T : List Ticker} (hown : OwnFiles T)
    (hexact : ∀ v ∈ T, Exact table clock v (load files v)) (hT : ∀ v ∈ c.tickers, v ∈ T)
    (hdates : c.by_date clock) (hedges : c.no_edge files (SplitsDay table clock))
    {qs : List Query} (hpre : qs <+: c.plan files) :
    ∀ v ∈ T, Exact table clock v
      ((run_queries table clock (Call.store files) qs).caches v) := by
  induction qs using List.reverseRecOn with
  | nil => exact hexact
  | append_singleton qs q ih =>
    exact exact_round hown hexact hT hdates hedges hpre
      (ih ((List.prefix_append _ _).trans hpre))

end Rounds

/-! ### Calls -/

/-- What a call must meet for the cache to hold whole days: its queries
    succeed, it lists no ticker twice, its window is given by dates and no
    slab ends inside a day. -/
structure WholeDays (table : MarketTable) (clock : Clock) (files : Files) (c : Call) : Prop where
  succeeds : c.fails_at = none
  nodup : c.tickers.Nodup
  by_date : c.by_date clock
  edges : c.no_edge files (SplitsDay table clock)

theorem WholeDays.fails {files : Files} {c : Call} (h : WholeDays table clock files c) :
    c.fails files = false := by
  unfold Call.fails
  rw [h.succeeds]

theorem WholeDays.harmless {files : Files} {c : Call} (h : WholeDays table clock files c) :
    Harmless table clock files c :=
  ⟨h.by_date, fun u hu g hg w hw hlt => not_splits_null (h.edges u hu g hg w hw hlt), fun hf => by
    rw [h.fails] at hf
    cases hf⟩

variable (table clock) in
/-- The files of a run hold whole days, and no frame has a hole. -/
theorem whole_days_run {T : List Ticker} (hown : OwnFiles T) {calls : List Call}
    (hT : ∀ c ∈ calls, ∀ u ∈ c.tickers, u ∈ T)
    (h : ∀ before c, before ++ [c] <+: calls →
      WholeDays table clock (files_after table clock no_files before) c) :
    (∀ u ∈ T, Exact table clock u (load (files_after table clock no_files calls) u)) ∧
    ∀ u ∈ T, Covered table clock u (load (files_after table clock no_files calls) u) := by
  have hcovered := harmless_calls table clock hown hT
    (fun before c hpre => (h before c hpre).harmless)
  refine ⟨?_, hcovered⟩
  clear hcovered
  induction calls using List.reverseRecOn with
  | nil => exact fun u _ => ⟨List.Pairwise.nil, by simp [files_after, no_files, load]⟩
  | append_singleton calls c ih =>
    have hprev := ih (fun c' hc' => hT c' (List.mem_append_left _ hc'))
      (fun before c' hpre => h before c' (hpre.trans (List.prefix_append _ _)))
    have hc := h calls c (List.prefix_refl _)
    intro u hu
    rw [files_after_snoc, (frames_spec table clock hown
      (fun v hv => (hprev v hv).ordered) (hT c (by simp))).1 u hu]
    exact exact_rounds hown hprev (hT c (by simp)) hc.by_date hc.edges done_initial u hu

/-- The splice of an exact frame that has every day of the window is the
    direct read. -/
theorem splice_eq_direct {u : Ticker} {df : List DayBar} {w : Window}
    (hexact : Exact table clock u df) (hstart : ¬ clock.in_session w.start)
    (hfinish : ¬ clock.in_session w.finish)
    (hdays : ∀ d, Known clock (splice df w) d ↔
      Valid table clock u d ∧ ∃ r ∈ day_rows table clock u d, w.holds r.timestamp) :
    splice df w = ticker_bars table clock u w := by
  have hordered : Ordered (splice df w) := List.Pairwise.filter _ hexact.ordered
  have hnodup : ∀ {l : List DayBar}, Ordered l → l.Nodup := fun h =>
    List.Pairwise.imp (fun hlt heq => by rw [heq] at hlt; exact lt_irrefl _ hlt) h
  have hmem : ∀ b, b ∈ splice df w ↔ b ∈ ticker_bars table clock u w := by
    intro b
    rw [mem_ticker_bars]
    constructor
    · intro hb
      obtain ⟨hdf, hheld⟩ := List.mem_filter.mp hb
      have hwhole := hexact.whole b hdf
      obtain ⟨r, hlast, _, hts, _⟩ := day_bar_some hwhole
      have hr := ((getLast_iff (day_rows_sublist _)).mp hlast).1
      have hheld' : w.holds r.timestamp := by
        rw [← hts]
        simpa [Window.holds] using hheld
      rw [rows_of_whole_day (fun r' hr' => holds_of_same_day hstart hfinish hr hr' hheld')]
      exact hwhole
    · intro hb
      obtain ⟨r, hlast, _, hts, _⟩ := day_bar_some hb
      obtain ⟨hr, hheld⟩ :=
        mem_rows_of_day.mp ((getLast_iff (rows_of_day_sublist w _)).mp hlast).1
      rw [rows_of_whole_day (fun r' hr' => holds_of_same_day hstart hfinish hr hr' hheld)] at hb
      obtain ⟨b', hb', hdate⟩ := (hdays _).mpr ⟨⟨b, hb⟩, r, hr, hheld⟩
      have hwhole := hexact.whole b' (List.mem_filter.mp hb').1
      rw [hdate] at hwhole
      obtain rfl : b = b' := Option.some.inj (hb.symm.trans hwhole)
      exact hb'
  refine List.Perm.eq_of_pairwise
    (fun (a b : DayBar) _ _ (hab : a.timestamp < b.timestamp) (hba : b.timestamp < a.timestamp) =>
      absurd hba (by omega)) hordered (ticker_bars_ordered w) ?_
  exact (List.perm_ext_iff_of_nodup (hnodup hordered) (hnodup (ticker_bars_ordered w))).mpr hmem

/-- The rows of one ticker in a frame put together from the tickers of a
    call. -/
theorem frame_filter {tickers : List Ticker} (hnodup : tickers.Nodup)
    (part : Ticker → List DayBar) (hticker : ∀ v ∈ tickers, ∀ b ∈ part v, b.ticker = v)
    (hordered : ∀ v ∈ tickers, Ordered (part v)) {u : Ticker} (hu : u ∈ tickers) :
    (sort_values (tickers.flatMap part)).filter (fun b => b.ticker = u) = part u := by
  have hflat : ∀ l : List Ticker, l.Nodup → (∀ v ∈ l, v ∈ tickers) →
      (l.flatMap part).filter (fun b => b.ticker = u) = if u ∈ l then part u else [] := by
    intro l
    induction l with
    | nil => intro _ _; simp
    | cons v l ih =>
      intro hl hsub
      obtain ⟨hv, hl'⟩ := List.nodup_cons.mp hl
      have hvt := hsub v List.mem_cons_self
      rw [List.flatMap_cons, List.filter_append,
        ih hl' (fun x hx => hsub x (List.mem_cons_of_mem _ hx))]
      by_cases huv : u = v
      · subst huv
        rw [if_neg hv, if_pos List.mem_cons_self, List.append_nil]
        exact List.filter_eq_self.mpr (fun b hb => by simpa using hticker u hvt b hb)
      · have hnone : (part v).filter (fun b => b.ticker = u) = [] := by
          refine List.filter_eq_nil_iff.mpr (fun b hb => ?_)
          rw [hticker v hvt b hb]
          simpa using fun h => huv h.symm
        rw [hnone, List.nil_append]
        simp [huv]
  have hperm : ((sort_values (tickers.flatMap part)).filter (fun b => b.ticker = u)).Perm
      (part u) := by
    have := (List.perm_insertionSort (fun a b : DayBar => a.timestamp ≤ b.timestamp)
      (tickers.flatMap part)).filter (fun b => b.ticker = u)
    rwa [hflat tickers hnodup (fun _ h => h), if_pos hu] at this
  -- among the rows of one ticker the order by timestamp is strict
  have hsorted : Ordered ((sort_values (tickers.flatMap part)).filter (fun b => b.ticker = u)) := by
    have hdistinct := hperm.symm.pairwise (hordered u hu).distinct (fun h => h.symm)
    have hle := List.Pairwise.filter (fun b => b.ticker = u)
      (sort_values_sorted (tickers.flatMap part))
    exact hle.imp₂ (fun _ _ hle hne => lt_of_le_of_ne hle hne) hdistinct
  exact List.Perm.eq_of_pairwise
    (fun (a b : DayBar) _ _ (hab : a.timestamp < b.timestamp) (hba : b.timestamp < a.timestamp) =>
      absurd hba (by omega)) hsorted (hordered u hu) hperm

/-- **Cached history equals a direct read** in a run in which every ticker has
    its own file, no query fails, no call lists a ticker twice, windows are
    given by dates and no slab ends inside a day: every call returns, for
    each of its tickers, the bars that one query over its whole window would
    return, and no two of one day. -/
theorem cached_history_eq_direct (table : MarketTable) (clock : Clock) (calls : List Call)
    (hown : OwnFiles (calls.flatMap Call.tickers))
    (h : ∀ before c, before ++ [c] <+: calls →
      WholeDays table clock (files_after table clock no_files before) c)
    (before : List Call) (c : Call) (hpre : before ++ [c] <+: calls) :
    ∃ frame, (fetch_historical_data table clock (files_after table clock no_files before) c).1 =
        some frame ∧
      ∀ u ∈ c.tickers,
        frame.filter (fun b => b.ticker = u) =
          (fetch_from_db table clock c.tickers c.window).filter (fun b => b.ticker = u) ∧
        (frame.filter (fun b => b.ticker = u)).Pairwise
          (fun a b => clock.date a.timestamp ≠ clock.date b.timestamp) := by
  have hsub : ∀ c' ∈ before ++ [c], ∀ u ∈ c'.tickers, u ∈ calls.flatMap Call.tickers :=
    fun c' hc' u hu => List.mem_flatMap.mpr ⟨c', hpre.subset hc', hu⟩
  have hT := hsub c (by simp)
  obtain ⟨hexact, hcov⟩ := whole_days_run table clock hown
    (fun c' hc' => hsub c' (List.mem_append_left _ hc'))
    (fun b c' hp => h b c' (hp.trans ((List.prefix_append _ _).trans hpre)))
  have hc := h before c hpre
  let files := files_after table clock no_files before
  have hupdated := (frames_spec table clock hown
    (fun v hv => (hexact v hv).ordered) hT).2
  have hexact' := exact_rounds hown hexact hT hc.by_date hc.edges done_initial
  have hparts : ∀ u ∈ c.tickers,
      splice ((frames_after table clock files c).caches u) c.window =
        ticker_bars table clock u c.window := fun u hu =>
    splice_eq_direct (hexact' u (hT u hu)) hc.by_date.1 hc.by_date.2
      ((hupdated u (hT u hu)).returned hu hc.by_date hc.harmless.edges (hcov u (hT u hu)) hc.fails)
  by_cases hnil : c.tickers = []
  · refine ⟨[], ?_, fun u hu => ?_⟩
    · unfold fetch_historical_data
      rw [if_pos hnil]
    · rw [hnil] at hu
      exact absurd hu List.not_mem_nil
  refine ⟨sort_values (c.tickers.flatMap
    (fun v => splice ((frames_after table clock files c).caches v) c.window)), ?_, fun u hu => ?_⟩
  · unfold fetch_historical_data
    rw [if_neg hnil]
    simp only [files, hc.fails, frames_after]
    rfl
  · have hfilter := frame_filter hc.nodup
      (fun v => splice ((frames_after table clock files c).caches v) c.window)
      (fun v hv b hb => by
        simp only [hparts v hv] at hb
        exact (ticker_bar_row hb).1)
      (fun v hv => by
        simp only [hparts v hv]
        exact ticker_bars_ordered c.window) hu
    rw [hfilter, fetch_filter hu]
    simp only [hparts u hu, true_and]
    -- whole bars of one day are one bar
    refine (ticker_bars_ordered c.window).imp_of_mem (fun {a b} ha hb hlt hdate => ?_)
    rw [← hparts u hu] at ha hb
    have hwa := (hexact' u (hT u hu)).whole a (List.mem_filter.mp ha).1
    have hwb := (hexact' u (hT u hu)).whole b (List.mem_filter.mp hb).1
    rw [hdate] at hwa
    obtain rfl : a = b := Option.some.inj (hwa.symm.trans hwb)
    exact lt_irrefl _ hlt

/-! ### A slab that ends inside a day -/

/-- The first day stops at 15:00; a year of 365 days later there are rows at
    15:00 and 16:00. -/
def short_day_table : MarketTable where
  rows := fun t => if t = aapl then [row_at 0 15, row_at 365 15, row_at 365 16] else []
  sorted := by
    intro t
    by_cases ht : t = aapl
    · simp [ht, row_at, day_us, hour_us]
    · simp [ht]

/-- The gap after the cached bar of 15:00 is cut at 15:00 of day 365, and
    that day comes back twice. -/
theorem short_day_returned_twice :
    ∃ frame, (fetch_historical_data short_day_table winter_clock
        (files_after short_day_table winter_clock no_files [call_for 0 0 none])
        (call_for 0 366 none)).1 = some frame ∧
      frame.filter (fun b => b.ticker = aapl) ≠
        (fetch_from_db short_day_table winter_clock [aapl]
          (call_for 0 366 none).window).filter (fun b => b.ticker = aapl) ∧
      ∃ a ∈ frame, ∃ b ∈ frame, a.ticker = aapl ∧ b.ticker = aapl ∧ a.timestamp < b.timestamp ∧
        winter_clock.date a.timestamp = winter_clock.date b.timestamp := by
  have hsome : ((fetch_historical_data short_day_table winter_clock
      (files_after short_day_table winter_clock no_files [call_for 0 0 none])
      (call_for 0 366 none)).1).isSome := by
    decide +kernel
  obtain ⟨frame, hframe⟩ := Option.isSome_iff_exists.mp hsome
  have hlength : (((fetch_historical_data short_day_table winter_clock
      (files_after short_day_table winter_clock no_files [call_for 0 0 none])
      (call_for 0 366 none)).1.getD []).filter (fun b => b.ticker = aapl)).length ≠
      ((fetch_from_db short_day_table winter_clock [aapl]
        (call_for 0 366 none).window).filter (fun b => b.ticker = aapl)).length := by
    decide +kernel
  have htwice : ∃ a ∈ (fetch_historical_data short_day_table winter_clock
      (files_after short_day_table winter_clock no_files [call_for 0 0 none])
      (call_for 0 366 none)).1.getD [], ∃ b ∈ (fetch_historical_data short_day_table winter_clock
      (files_after short_day_table winter_clock no_files [call_for 0 0 none])
      (call_for 0 366 none)).1.getD [], a.ticker = aapl ∧ b.ticker = aapl ∧
      a.timestamp < b.timestamp ∧
      winter_clock.date a.timestamp = winter_clock.date b.timestamp := by
    decide +kernel
  rw [hframe] at hlength htwice
  exact ⟨frame, hframe, fun heq => hlength (by simpa using congrArg List.length heq), htwice⟩

/-- The sparse table has one row a day. -/
theorem sparse_not_splits_day (u : Ticker) (p : ℤ) :
    ¬ SplitsDay sparse_table winter_clock u p := by
  intro h
  obtain ⟨d, r, hr, r', hr', hlo, hhi⟩ := h
  obtain ⟨hmem, _, hdate⟩ := mem_day_rows.mp hr
  obtain ⟨hmem', _, hdate'⟩ := mem_day_rows.mp hr'
  by_cases hu : u = aapl
  · simp only [sparse_table, if_pos hu, List.mem_cons, List.not_mem_nil, or_false] at hmem hmem'
    unfold Clock.date at hdate hdate'
    rcases hmem with rfl | rfl | rfl <;> rcases hmem' with rfl | rfl | rfl <;>
      simp only [row_at, winter_clock, day_us, hour_us] at hdate hdate' hlo hhi <;> omega
  · simp [sparse_table, hu] at hmem

/-- A window that grows on both sides of a cached day. -/
theorem grown_window_is_direct :
    ∃ frame, (fetch_historical_data sparse_table winter_clock
        (files_after sparse_table winter_clock no_files [call_for 400 400 none])
        (call_for 0 800 none)).1 = some frame ∧
      frame.length = 3 ∧
      frame.filter (fun b => b.ticker = aapl) =
        (fetch_from_db sparse_table winter_clock [aapl]
          (call_for 0 800 none).window).filter (fun b => b.ticker = aapl) := by
  have hown : OwnFiles ([call_for 400 400 none, call_for 0 800 none].flatMap Call.tickers) := by
    intro u hu v hv _
    simp only [call_for, List.flatMap_cons, List.flatMap_nil, List.append_nil, List.cons_append,
      List.nil_append, List.mem_cons, List.not_mem_nil, or_false, or_self] at hu hv
    rw [hu, hv]
  have hcall : ∀ files first last,
      WholeDays sparse_table winter_clock files (call_for first last none) :=
    fun files first last => ⟨rfl, by simp [call_for], call_for_by_date _ _ _,
      fun u _ _ _ w _ _ => sparse_not_splits_day u w.finish⟩
  have hsafe : ∀ before c,
      before ++ [c] <+: [call_for 400 400 none, call_for 0 800 none] →
      WholeDays sparse_table winter_clock
        (files_after sparse_table winter_clock no_files before) c := by
    intro before c hpre
    have hc := hpre.subset (List.mem_append_right before (List.mem_singleton.mpr rfl))
    simp only [List.mem_cons, List.not_mem_nil, or_false] at hc
    rcases hc with rfl | rfl
    · exact hcall _ _ _
    · exact hcall _ _ _
  obtain ⟨frame, hframe, hdirect⟩ := cached_history_eq_direct sparse_table winter_clock
    [call_for 400 400 none, call_for 0 800 none] hown hsafe [call_for 400 400 none]
    (call_for 0 800 none) (List.prefix_refl _)
  have hlength : ((fetch_historical_data sparse_table winter_clock
      (files_after sparse_table winter_clock no_files [call_for 400 400 none])
      (call_for 0 800 none)).1.getD []).length = 3 := by
    decide +kernel
  rw [hframe] at hlength
  exact ⟨frame, hframe, hlength, (hdirect aapl (by simp [call_for])).1⟩

end History
