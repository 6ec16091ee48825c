import BacktestVisualizer.Data.CachePlan

/-! # The Cache After Failed Downloads

  Coverage is read off the oldest and the newest cached bar, so a frame must
  have every day between them. The module finds out when a call keeps it so
  although a query of it fails: the slabs after the newest bar arrive in
  order and leave no hole; the slabs before the oldest one arrive from the
  far end, and what is missing next to the oldest bar is never asked for
  again.
-/

open Batches

namespace History

variable {table : MarketTable} {clock : Clock} {t : Ticker}

/-! ### Spans and gaps -/

theorem span_none {df : List DayBar} : span df = none ↔ df = [] := by
  unfold span
  cases df with
  | nil => simp
  | cons b df => simp

theorem span_some {df : List DayBar} {lo hi : ℤ} (h : span df = some (lo, hi)) :
    (∃ b ∈ df, b.timestamp = lo) ∧ (∃ b ∈ df, b.timestamp = hi) ∧
      ∀ b ∈ df, lo ≤ b.timestamp ∧ b.timestamp ≤ hi := by
  unfold span at h
  cases hmin : (df.map DayBar.timestamp).min? with
  | none => simp [hmin] at h
  | some first =>
    cases hmax : (df.map DayBar.timestamp).max? with
    | none => simp [hmin, hmax] at h
    | some last =>
      simp only [hmin, hmax, Option.bind_eq_bind, Option.bind_some, Option.some.injEq,
        Prod.mk.injEq] at h
      obtain ⟨rfl, rfl⟩ := h
      obtain ⟨hmem, hle⟩ := List.min?_eq_some_iff.mp hmin
      obtain ⟨hmem', hge⟩ := List.max?_eq_some_iff.mp hmax
      obtain ⟨b, hb, hts⟩ := List.mem_map.mp hmem
      obtain ⟨b', hb', hts'⟩ := List.mem_map.mp hmem'
      exact ⟨⟨b, hb, hts⟩, ⟨b', hb', hts'⟩, fun c hc =>
        ⟨hle _ (List.mem_map_of_mem hc), hge _ (List.mem_map_of_mem hc)⟩⟩

theorem missing_ranges_empty {start finish : ℤ} {g : Window} :
    g ∈ missing_ranges [] start finish ↔ g = { start := start, finish := finish } := by
  simp [missing_ranges, span]

theorem mem_missing_ranges {df : List DayBar} {lo hi start finish : ℤ}
    (h : span df = some (lo, hi)) {g : Window} :
    g ∈ missing_ranges df start finish ↔
      (start < lo ∧ g = { start := start, finish := lo }) ∨
        (hi < finish ∧ g = { start := hi, finish := finish }) := by
  unfold missing_ranges
  rw [h]
  simp only [List.mem_append]
  by_cases hlo : start < lo <;> by_cases hhi : hi < finish <;> simp [hlo, hhi]

/-! ### What holds of a cached frame -/

/-- A frame has a bar of the day. -/
def Known (clock : Clock) (df : List DayBar) (d : ℤ) : Prop :=
  ∃ b ∈ df, clock.date b.timestamp = d

/-- Every bar of a frame came from a window that did not end inside a day
    that lacks a close. -/
def Sound (table : MarketTable) (clock : Clock) (t : Ticker) (df : List DayBar) : Prop :=
  ∀ b ∈ df, ∃ w, b ∈ ticker_bars table clock t w ∧ ¬ SplitsNull table clock t w.finish

/-- The bars of a frame lie in a window, and no day of the window is
    missing. -/
structure Complete (table : MarketTable) (clock : Clock) (t : Ticker) (df : List DayBar)
    (w : Window) : Prop where
  within : ∀ b ∈ df, w.holds b.timestamp
  days : ∀ d, Valid table clock t d → (∃ r ∈ day_rows table clock t d, w.holds r.timestamp) →
    Known clock df d

/-- A frame without holes. -/
structure Covered (table : MarketTable) (clock : Clock) (t : Ticker) (df : List DayBar) : Prop where
  ordered : Ordered df
  sound : Sound table clock t df
  complete : ∃ w, Complete table clock t df w

theorem covered_nil : Covered table clock t [] :=
  ⟨List.Pairwise.nil, by simp [Sound], { start := 1, finish := 0 }, by simp, by
    intro d _ h
    obtain ⟨r, _, hlo, hhi⟩ := h
    simp only at hlo hhi
    omega⟩

/-- A sound bar is of a valid day, at one of its rows. -/
theorem Sound.bar {df : List DayBar} (h : Sound table clock t df) {b : DayBar} (hb : b ∈ df) :
    b.ticker = t ∧ Valid table clock t (clock.date b.timestamp) ∧
      (∃ r ∈ day_rows table clock t (clock.date b.timestamp), r.timestamp = b.timestamp) ∧
      ¬ SplitsNull table clock t b.timestamp := by
  obtain ⟨w, hw, hsplit⟩ := h b hb
  obtain ⟨hticker, _, hrow⟩ := ticker_bar_row hw
  exact ⟨hticker, ((ticker_bars_dates hsplit _).mp ⟨b, hw, rfl⟩).1, hrow,
    bar_not_splits_null hsplit hw⟩

/-! ### Conditions on a call -/

section Conditions

variable (table : MarketTable) (clock : Clock) (files : Files) (c : Call)

/-- The window of a call begins and ends while the market is closed, as one
    that is given by dates does. -/
def Call.by_date : Prop := ¬ clock.in_session c.window.start ∧ ¬ clock.in_session c.window.finish

/-- No slab of the call ends at an instant with the property, the ends of its
    gaps apart. -/
def Call.no_edge (bad : Ticker → ℤ → Prop) : Prop :=
  ∀ u ∈ c.tickers, ∀ g ∈ missing_ranges (load files u) c.window.start c.window.finish,
    ∀ w ∈ slabs g, w.finish < g.finish → ¬ bad u w.finish

/-- The rounds that went through leave no hole before the oldest cached bar:
    either those of that gap brought nothing, or those left out would bring
    no further day. -/
def Call.no_hole (u : Ticker) : Prop :=
  ∀ cached_min cached_max, span (load files u) = some (cached_min, cached_max) →
    c.window.start < cached_min →
    let gap : Window := { start := c.window.start, finish := cached_min }
    (∀ slab, Queried (c.done files) gap u slab → ticker_bars table clock u slab = []) ∨
    (∀ slab ∈ slabs gap, ¬ Queried (c.done files) gap u slab →
      ∀ b ∈ ticker_bars table clock u slab, ∃ b', (b' ∈ load files u ∨
        ∃ q ∈ c.done files, u ∈ q.chunk ∧ b' ∈ ticker_bars table clock u q.slab) ∧
        clock.date b'.timestamp = clock.date b.timestamp)

end Conditions

/-! ### Progress through a gap -/

theorem slab_td_pos : 0 < slab_td := by decide

theorem slab_within {g w : Window} (h : w ∈ slabs g) :
    g.start ≤ w.start ∧ w.start < w.finish ∧ w.finish ≤ g.finish :=
  windows_within slab_td_pos h

theorem slabs_cover {g : Window} (h : g.start < g.finish) {p : ℤ} (hp : g.holds p) :
    ∃ w ∈ slabs g, w.holds p :=
  (windows_cover slab_td_pos (le_refl _) h p).mpr hp

section CallLemmas

variable {files : Files} {c : Call}

theorem done_initial : c.done files <+: c.plan files := by
  unfold Call.done
  cases c.fails_at with
  | none => exact List.prefix_refl _
  | some k => exact List.take_prefix _ _

theorem done_of_not_fails (h : c.fails files = false) : c.done files = c.plan files := by
  unfold Call.done
  unfold Call.fails at h
  cases hk : c.fails_at with
  | none => rfl
  | some k =>
    simp only [hk, decide_eq_false_iff_not, not_lt] at h
    exact List.take_of_length_le h

/-- The rounds of a gap that went through hold exactly its instants up to
    some bound. -/
theorem gap_progress {u : Ticker} (hu : u ∈ c.tickers) {g : Window}
    (hg : g ∈ missing_ranges (load files u) c.window.start c.window.finish) :
    ∃ b, b ≤ max g.finish (g.start - 1) ∧
      (∀ w, Queried (c.done files) g u w → ∀ p, w.holds p → g.start ≤ p ∧ p ≤ b) ∧
      (∀ p, g.start ≤ p → p ≤ b → ∃ w, Queried (c.done files) g u w ∧ w.holds p) := by
  have hpre : c.done files <+: c.plan files := done_initial
  obtain ⟨done, hdone, hiff⟩ := plan_broken_off hpre hu hg
  by_cases hne : done = []
  · subst hne
    refine ⟨g.start - 1, le_max_right _ _, fun w hw => ?_, fun p hlo hhi => by omega⟩
    exact absurd ((hiff w).mp hw) List.not_mem_nil
  · obtain ⟨b, _, hb, _, hcover⟩ := prefix_covers slab_td_pos hdone hne
    refine ⟨b, le_max_of_le_left hb, fun w hw p hp => ?_, fun p hlo hhi => ?_⟩
    · exact (hcover p).mp ⟨w, (hiff w).mp hw, hp⟩
    · obtain ⟨w, hw, hp⟩ := (hcover p).mpr ⟨hlo, hhi⟩
      exact ⟨w, (hiff w).mpr hw, hp⟩

/-- A round asks for a slab of a gap of each of its tickers. -/
theorem done_round {q : Query} (hq : q ∈ c.done files) {u : Ticker} (hu : u ∈ q.chunk) :
    u ∈ c.tickers ∧ q.gap ∈ missing_ranges (load files u) c.window.start c.window.finish ∧
      q.slab ∈ slabs q.gap ∧ Queried (c.done files) q.gap u q.slab := by
  obtain ⟨htickers, hmissing, hslab⟩ := mem_queries (done_initial.subset hq) u hu
  exact ⟨htickers, hmissing, hslab, q, hq, rfl, hu, rfl⟩

/-- Where a slab ends, a day is not split: not where the gap goes on, not at the
    end of the call, and not at a cached bar. -/
theorem slab_end_unsplit {Splits : Ticker → ℤ → Prop} (hedges : c.no_edge files Splits)
    {u : Ticker} (hu : u ∈ c.tickers) (hclosed : ¬ Splits u c.window.finish)
    (hcached : ∀ b ∈ load files u, ¬ Splits u b.timestamp) {g : Window}
    (hg : g ∈ missing_ranges (load files u) c.window.start c.window.finish) {w : Window}
    (hw : w ∈ slabs g) : ¬ Splits u w.finish := by
  by_cases hinner : w.finish < g.finish
  · exact hedges u hu g hg w hw hinner
  · have hend : w.finish = g.finish := le_antisymm (slab_within hw).2.2 (not_lt.mp hinner)
    rw [hend]
    cases hspan : span (load files u) with
    | none =>
      rw [span_none.mp hspan, missing_ranges_empty] at hg
      rw [hg]
      exact hclosed
    | some s =>
      rcases (mem_missing_ranges hspan).mp hg with ⟨_, rfl⟩ | ⟨_, rfl⟩
      · -- the front gap ends at the oldest bar
        obtain ⟨b, hb, hts⟩ := (span_some hspan).1
        show ¬ Splits u s.1
        rw [← hts]
        exact hcached b hb
      · exact hclosed

theorem slab_end_clean (hdates : c.by_date clock)
    (hedges : c.no_edge files (SplitsNull table clock)) {u : Ticker} (hu : u ∈ c.tickers)
    (hsound : Sound table clock u (load files u)) {g : Window}
    (hg : g ∈ missing_ranges (load files u) c.window.start c.window.finish) {w : Window}
    (hw : w ∈ slabs g) : ¬ SplitsNull table clock u w.finish := by
  apply slab_end_unsplit hedges hu ?_ (fun b hb => (hsound.bar hb).2.2.2) hg hw
  intro hsplit
  obtain ⟨d, _, hd⟩ := hsplit
  exact not_splits_of_closed hdates.2 d hd

/-! ### One call -/

/-- The frame of a ticker after the rounds of a call. -/
structure Updated (table : MarketTable) (clock : Clock) (files : Files) (c : Call) (u : Ticker)
    (df : List DayBar) : Prop where
  ordered : Ordered df
  origin : ∀ b ∈ df, b ∈ load files u ∨
    ∃ q ∈ c.done files, u ∈ q.chunk ∧ b ∈ ticker_bars table clock u q.slab
  kept : ∀ b, (b ∈ load files u ∨
    ∃ q ∈ c.done files, u ∈ q.chunk ∧ b ∈ ticker_bars table clock u q.slab) →
    ∃ b' ∈ df, b'.timestamp = b.timestamp

theorem Updated.known {u : Ticker} {df : List DayBar} (h : Updated table clock files c u df)
    {b : DayBar} (hb : b ∈ load files u ∨
      ∃ q ∈ c.done files, u ∈ q.chunk ∧ b ∈ ticker_bars table clock u q.slab) :
    Known clock df (clock.date b.timestamp) := by
  obtain ⟨b', hb', hts⟩ := h.kept b hb
  exact ⟨b', hb', by rw [hts]⟩

/-- Days seen by a round that went through are known. -/
theorem Updated.queried {u : Ticker} {df : List DayBar} (h : Updated table clock files c u df)
    {g w : Window} (hw : Queried (c.done files) g u w) (hclean : ¬ SplitsNull table clock u w.finish)
    {d : ℤ} (hvalid : Valid table clock u d) {r : MarketRow}
    (hr : r ∈ day_rows table clock u d) (hheld : w.holds r.timestamp) : Known clock df d := by
  obtain ⟨q, hq, _, hin, rfl⟩ := hw
  obtain ⟨b, hb, rfl⟩ := (ticker_bars_dates hclean d).mpr ⟨hvalid, r, hr, hheld⟩
  exact h.known (Or.inr ⟨q, hq, hin, hb⟩)

/-- No slab of the ticker's gaps ends inside a day that lacks a close. -/
def CleanEnds (table : MarketTable) (clock : Clock) (files : Files) (c : Call) (u : Ticker) :
    Prop :=
  ∀ g ∈ missing_ranges (load files u) c.window.start c.window.finish, ∀ w ∈ slabs g,
    ¬ SplitsNull table clock u w.finish

/-- Days whose rows the rounds of a gap have reached are known. -/
theorem Updated.reached {u : Ticker} {df : List DayBar} (h : Updated table clock files c u df)
    (hclean : CleanEnds table clock files c u) {g w : Window}
    (hw : Queried (c.done files) g u w) {d : ℤ} (hvalid : Valid table clock u d)
    {r : MarketRow} (hr : r ∈ day_rows table clock u d) (hheld : w.holds r.timestamp) :
    Known clock df d := by
  obtain ⟨q, hq, hgap, hin, rfl⟩ := hw
  obtain ⟨_, hmissing, hslab, _⟩ := done_round hq hin
  exact h.queried ⟨q, hq, hgap, hin, rfl⟩ (hclean _ hmissing _ hslab) hvalid hr hheld

/-- A bar that a round brought lies in the gap of the round. -/
theorem brought_in_gap {u : Ticker} {q : Query} (hq : q ∈ c.done files) (hin : u ∈ q.chunk)
    {b : DayBar} (hb : b ∈ ticker_bars table clock u q.slab) : q.gap.holds b.timestamp := by
  obtain ⟨_, _, hslab, _⟩ := done_round hq hin
  have hw := slab_within hslab
  have hp := (ticker_bar_row hb).2.1
  exact ⟨le_trans hw.1 hp.1, le_trans hp.2 hw.2.2⟩

/-- With nothing cached, the frame comes to hold an initial part of the
    window. -/
theorem Updated.complete_of_empty {u : Ticker} {df : List DayBar}
    (h : Updated table clock files c u df) (hu : u ∈ c.tickers)
    (hclean : CleanEnds table clock files c u) (hnil : load files u = []) :
    ∃ w, Complete table clock u df w := by
  have hg : c.window ∈ missing_ranges (load files u) c.window.start c.window.finish := by
    rw [hnil]
    exact missing_ranges_empty.mpr rfl
  obtain ⟨b, _, hheld, hreach⟩ := gap_progress hu hg
  refine ⟨{ start := c.window.start, finish := b }, fun b' hb' => ?_, fun d hvalid hrow => ?_⟩
  · rcases h.origin b' hb' with hold | ⟨q, hq, hin, hbar⟩
    · rw [hnil] at hold
      exact absurd hold List.not_mem_nil
    · obtain ⟨_, hgap, _, hqueried⟩ := done_round hq hin
      rw [hnil] at hgap
      rw [missing_ranges_empty.mp hgap] at hqueried
      exact hheld _ hqueried _ (ticker_bar_row hbar).2.1
  · obtain ⟨r, hr, hlo, hhi⟩ := hrow
    obtain ⟨w, hw, hp⟩ := hreach r.timestamp hlo hhi
    exact h.reached hclean hw hvalid hr hp

section Cached

variable {u : Ticker} {df : List DayBar} {lo hi : ℤ}

/-- The gap before the oldest cached bar. -/
def front_gap (c : Call) (lo : ℤ) : Window := { start := c.window.start, finish := lo }

/-- The gap after the newest one. -/
def back_gap (c : Call) (hi : ℤ) : Window := { start := hi, finish := c.window.finish }

/-- A round belongs to one of the two gaps of its ticker, and says so by its
    place. -/
theorem round_gap (hspan : span (load files u) = some (lo, hi)) {q : Query}
    (hq : q ∈ c.done files) (hin : u ∈ q.chunk) :
    (c.window.start < lo ∧ q.gap = front_gap c lo) ∨
      (hi < c.window.finish ∧ q.gap = back_gap c hi) := by
  obtain ⟨_, hmissing, _, _⟩ := done_round hq hin
  exact (mem_missing_ranges hspan).mp hmissing

theorem span_le {df : List DayBar} (hspan : span df = some (lo, hi)) : lo ≤ hi := by
  obtain ⟨⟨b, hb, hlo⟩, _, hall⟩ := span_some hspan
  have := hall b hb
  omega

/-- After the newest bar: the frame grows without a hole. -/
theorem Updated.back (h : Updated table clock files c u df) (hu : u ∈ c.tickers)
    (hclean : CleanEnds table clock files c u) (hspan : span (load files u) = some (lo, hi))
    {last : ℤ} (hlast : hi ≤ last) :
    ∃ last', last ≤ last' ∧
      (∀ q ∈ c.done files, u ∈ q.chunk → q.gap = back_gap c hi →
        ∀ b ∈ ticker_bars table clock u q.slab, b.timestamp ≤ last') ∧
      (∀ d, Valid table clock u d → ∀ r ∈ day_rows table clock u d,
        last < r.timestamp → r.timestamp ≤ last' → Known clock df d) := by
  by_cases hlt : hi < c.window.finish
  · have hg : back_gap c hi ∈ missing_ranges (load files u) c.window.start c.window.finish :=
      (mem_missing_ranges hspan).mpr (Or.inr ⟨hlt, rfl⟩)
    obtain ⟨b, _, hheld, hreach⟩ := gap_progress hu hg
    refine ⟨max last b, le_max_left _ _, fun q hq hin hgap b' hb' => ?_,
      fun d hvalid r hr hlo' hhi' => ?_⟩
    · exact le_max_of_le_right
        (hheld q.slab ⟨q, hq, hgap, hin, rfl⟩ _ (ticker_bar_row hb').2.1).2
    · have hafter : (back_gap c hi).start ≤ r.timestamp := by
        show hi ≤ r.timestamp
        omega
      obtain ⟨w, hw, hp⟩ := hreach r.timestamp hafter (by omega)
      exact h.reached hclean hw hvalid hr hp
  · refine ⟨last, le_refl _, fun q hq hin hgap => ?_, fun d _ r _ hlo' hhi' => by omega⟩
    rcases round_gap hspan hq hin with ⟨hfront, hgap'⟩ | ⟨hlt', _⟩
    · have hstart : c.window.start = hi := congrArg Window.start (hgap'.symm.trans hgap)
      have := span_le hspan
      omega
    · exact absurd hlt' hlt

/-- Before the oldest bar: nothing is brought, or no day is left out. -/
theorem Updated.front (h : Updated table clock files c u df) (hu : u ∈ c.tickers)
    (hclean : CleanEnds table clock files c u) (hspan : span (load files u) = some (lo, hi))
    (hhole : c.fails files = true → c.no_hole table clock files u) :
    (∀ q ∈ c.done files, u ∈ q.chunk → q.gap = front_gap c lo →
      ticker_bars table clock u q.slab = []) ∨
    (c.window.start < lo ∧ ∀ d, Valid table clock u d →
      ∀ r ∈ day_rows table clock u d, (front_gap c lo).holds r.timestamp → Known clock df d) := by
  by_cases hlt : c.window.start < lo
  · have hg : front_gap c lo ∈ missing_ranges (load files u) c.window.start c.window.finish :=
      (mem_missing_ranges hspan).mpr (Or.inl ⟨hlt, rfl⟩)
    by_cases hfails : c.fails files = true
    · rcases hhole hfails _ _ hspan hlt with hnothing | hrest
      · exact Or.inl (fun q hq hin hgap => hnothing q.slab ⟨q, hq, hgap, hin, rfl⟩)
      · refine Or.inr ⟨hlt, fun d hvalid r hr hheld => ?_⟩
        obtain ⟨slab, hslab, hp⟩ := slabs_cover (g := front_gap c lo) hlt hheld
        by_cases hqueried : Queried (c.done files) (front_gap c lo) u slab
        · exact h.reached hclean hqueried hvalid hr hp
        · -- a slab left out brings no day that is not known
          obtain ⟨b, hb, rfl⟩ := (ticker_bars_dates (hclean _ hg _ hslab) d).mpr ⟨hvalid, r, hr, hp⟩
          obtain ⟨b', hb', hdate⟩ := hrest slab hslab hqueried b hb
          rw [← hdate]
          exact h.known hb'
    -- a call that does not fail asks for every slab
    · refine Or.inr ⟨hlt, fun d hvalid r hr hheld => ?_⟩
      obtain ⟨slab, hslab, hp⟩ := slabs_cover (g := front_gap c lo) hlt hheld
      have hqueried : Queried (c.done files) (front_gap c lo) u slab := by
        rw [done_of_not_fails (by simpa using hfails)]
        exact plan_complete hu hg hslab
      exact h.reached hclean hqueried hvalid hr hp
  · refine Or.inl (fun q hq hin hgap => ?_)
    rcases round_gap hspan hq hin with ⟨hlt', _⟩ | ⟨hback, hgap'⟩
    · exact absurd hlt' hlt
    · have hfinish : c.window.finish = lo := congrArg Window.finish (hgap'.symm.trans hgap)
      have := span_le hspan
      omega

/-- Around the cached bars, the frame stays complete. -/
theorem Updated.complete_of_cached (h : Updated table clock files c u df) (hu : u ∈ c.tickers)
    (hclean : CleanEnds table clock files c u) (hspan : span (load files u) = some (lo, hi))
    (hhole : c.fails files = true → c.no_hole table clock files u) {w : Window}
    (hw : Complete table clock u (load files u) w) : ∃ w', Complete table clock u df w' := by
  obtain ⟨⟨first, hfirst, hlo⟩, ⟨last, hlast, hhi⟩, _⟩ := span_some hspan
  have hwlo : w.start ≤ lo := hlo ▸ (hw.within first hfirst).1
  have hwhi : hi ≤ w.finish := hhi ▸ (hw.within last hlast).2
  have hlohi := span_le hspan
  obtain ⟨fin, hfin, hback, hback_days⟩ := h.back hu hclean hspan hwhi
  have hkeep : ∀ d, Valid table clock u d →
      (∃ r ∈ day_rows table clock u d, w.holds r.timestamp) → Known clock df d := by
    intro d hvalid hrow
    obtain ⟨b, hb, rfl⟩ := hw.days d hvalid hrow
    exact h.known (Or.inl hb)
  -- nothing lies behind the back gap
  have hupper : ∀ b ∈ df, b.timestamp ≤ fin := by
    intro b hb
    rcases h.origin b hb with hold | ⟨q, hq, hin, hbar⟩
    · exact le_trans (hw.within b hold).2 hfin
    · rcases round_gap hspan hq hin with ⟨_, hgap⟩ | ⟨_, hgap⟩
      · have hheld := brought_in_gap hq hin hbar
        rw [hgap] at hheld
        have : b.timestamp ≤ lo := hheld.2
        omega
      · exact hback q hq hin hgap b hbar
  -- the window grows at its end, and at its start where the front gap was filled
  rcases h.front hu hclean hspan hhole with hnothing | ⟨hlt, hfront_days⟩
  · refine ⟨{ start := w.start, finish := fin }, fun b hb => ⟨?_, hupper b hb⟩,
      fun d hvalid hrow => ?_⟩
    · rcases h.origin b hb with hold | ⟨q, hq, hin, hbar⟩
      · exact (hw.within b hold).1
      · rcases round_gap hspan hq hin with ⟨_, hgap⟩ | ⟨_, hgap⟩
        · rw [hnothing q hq hin hgap] at hbar
          exact absurd hbar List.not_mem_nil
        · have hheld := brought_in_gap hq hin hbar
          rw [hgap] at hheld
          have : hi ≤ b.timestamp := hheld.1
          show w.start ≤ b.timestamp
          omega
    · obtain ⟨r, hr, hge, hle⟩ := hrow
      by_cases hin : r.timestamp ≤ w.finish
      · exact hkeep d hvalid ⟨r, hr, hge, hin⟩
      · exact hback_days d hvalid r hr (not_le.mp hin) hle
  · refine ⟨{ start := min c.window.start w.start, finish := fin },
      fun b hb => ⟨?_, hupper b hb⟩, fun d hvalid hrow => ?_⟩
    · show min c.window.start w.start ≤ b.timestamp
      rcases h.origin b hb with hold | ⟨q, hq, hin, hbar⟩
      · exact le_trans (min_le_right _ _) (hw.within b hold).1
      · have hheld := brought_in_gap hq hin hbar
        rcases round_gap hspan hq hin with ⟨_, hgap⟩ | ⟨_, hgap⟩
        · rw [hgap] at hheld
          exact le_trans (min_le_left _ _) hheld.1
        · rw [hgap] at hheld
          have : hi ≤ b.timestamp := hheld.1
          omega
    · obtain ⟨r, hr, hge, hle⟩ := hrow
      have hge' : min c.window.start w.start ≤ r.timestamp := hge
      by_cases hbefore : r.timestamp < w.start
      · exact hfront_days d hvalid r hr
          ⟨show c.window.start ≤ r.timestamp by omega, show r.timestamp ≤ lo by omega⟩
      · by_cases hin : r.timestamp ≤ w.finish
        · exact hkeep d hvalid ⟨r, hr, not_lt.mp hbefore, hin⟩
        · exact hback_days d hvalid r hr (not_le.mp hin) hle

end Cached

/-- **One call keeps a frame covered**, if it leaves no hole. -/
theorem Updated.covered {u : Ticker} {df : List DayBar} (h : Updated table clock files c u df)
    (hu : u ∈ c.tickers) (hdates : c.by_date clock)
    (hedges : c.no_edge files (SplitsNull table clock))
    (hcov : Covered table clock u (load files u))
    (hhole : c.fails files = true → c.no_hole table clock files u) :
    Covered table clock u df := by
  have hclean : CleanEnds table clock files c u :=
    fun g hg w hw => slab_end_clean hdates hedges hu hcov.sound hg hw
  refine ⟨h.ordered, fun b hb => ?_, ?_⟩
  · rcases h.origin b hb with hold | ⟨q, hq, hin, hbar⟩
    · exact hcov.sound b hold
    · obtain ⟨_, hg, hslab, _⟩ := done_round hq hin
      exact ⟨q.slab, hbar, hclean _ hg _ hslab⟩
  · cases hspan : span (load files u) with
    | none => exact h.complete_of_empty hu hclean (span_none.mp hspan)
    | some s =>
      obtain ⟨w, hw⟩ := hcov.complete
      exact h.complete_of_cached hu hclean hspan hhole hw

/-- When no query fails, the days of the window are known. -/
theorem Updated.knows_window {u : Ticker} {df : List DayBar}
    (h : Updated table clock files c u df) (hu : u ∈ c.tickers) (hdates : c.by_date clock)
    (hclean : CleanEnds table clock files c u) (hcov : Covered table clock u (load files u))
    (hok : c.fails files = false) {d : ℤ} (hvalid : Valid table clock u d) {r : MarketRow}
    (hr : r ∈ day_rows table clock u d) (hheld : c.window.holds r.timestamp) :
    Known clock df d := by
  have hgap : ∀ g ∈ missing_ranges (load files u) c.window.start c.window.finish,
      g.start < g.finish → g.holds r.timestamp → Known clock df d := by
    intro g hg hlt hp
    obtain ⟨slab, hslab, hp⟩ := slabs_cover hlt hp
    have hqueried : Queried (c.done files) g u slab := by
      rw [done_of_not_fails hok]
      exact plan_complete hu hg hslab
    exact h.reached hclean hqueried hvalid hr hp
  cases hspan : span (load files u) with
  | none =>
    have hg : c.window ∈ missing_ranges (load files u) c.window.start c.window.finish := by
      rw [span_none.mp hspan]
      exact missing_ranges_empty.mpr rfl
    -- a window of one instant would lie in the session
    have hlt : c.window.start < c.window.finish := by
      have hne : c.window.start ≠ r.timestamp := by
        intro heq
        apply hdates.1
        rw [heq]
        exact (mem_day_rows.mp hr).2.1
      have := hheld.1
      have := hheld.2
      omega
    exact hgap _ hg hlt hheld
  | some s =>
    obtain ⟨lo, hi⟩ := s
    by_cases hbefore : r.timestamp < lo
    · have hlt : c.window.start < lo := lt_of_le_of_lt hheld.1 hbefore
      exact hgap (front_gap c lo) ((mem_missing_ranges hspan).mpr (Or.inl ⟨hlt, rfl⟩)) hlt
        ⟨hheld.1, le_of_lt hbefore⟩
    · by_cases hafter : hi < r.timestamp
      · have hlt : hi < c.window.finish := lt_of_lt_of_le hafter hheld.2
        exact hgap (back_gap c hi) ((mem_missing_ranges hspan).mpr (Or.inr ⟨hlt, rfl⟩)) hlt
          ⟨le_of_lt hafter, hheld.2⟩
      · obtain ⟨w, hw⟩ := hcov.complete
        obtain ⟨⟨first, hfirst, hlo⟩, ⟨last, hlast, hhi⟩, _⟩ := span_some hspan
        have hwlo := (hw.within first hfirst).1
        have hwhi := (hw.within last hlast).2
        obtain ⟨b, hb, rfl⟩ := hw.days d hvalid ⟨r, hr, by omega, by omega⟩
        exact h.known (Or.inl hb)

/-- Bars of one day are on the same side of a closed instant. -/
theorem holds_of_same_day {w : Window} (hstart : ¬ clock.in_session w.start)
    (hfinish : ¬ clock.in_session w.finish) {u : Ticker} {d : ℤ} {r r' : MarketRow}
    (hr : r ∈ day_rows table clock u d) (hr' : r' ∈ day_rows table clock u d)
    (hheld : w.holds r.timestamp) : w.holds r'.timestamp := by
  refine ⟨?_, ?_⟩
  · by_contra hlt
    exact hstart (in_session_between hr' hr (le_of_lt (not_le.mp hlt)) hheld.1)
  · by_contra hlt
    exact hfinish (in_session_between hr hr' hheld.2 (le_of_lt (not_le.mp hlt)))

/-- **What a successful call returns** for a ticker: the days that have a bar
    and rows in the window. It does not depend on the files. -/
theorem Updated.returned {u : Ticker} {df : List DayBar} (h : Updated table clock files c u df)
    (hu : u ∈ c.tickers) (hdates : c.by_date clock)
    (hedges : c.no_edge files (SplitsNull table clock))
    (hcov : Covered table clock u (load files u)) (hok : c.fails files = false) (d : ℤ) :
    Known clock (splice df c.window) d ↔
      Valid table clock u d ∧ ∃ r ∈ day_rows table clock u d, c.window.holds r.timestamp := by
  have hclean : CleanEnds table clock files c u :=
    fun g hg w hw => slab_end_clean hdates hedges hu hcov.sound hg hw
  have hsound := (h.covered hu hdates hedges hcov (fun hf => by rw [hok] at hf; cases hf)).sound
  constructor
  · intro hknown
    obtain ⟨b, hb, rfl⟩ := hknown
    obtain ⟨hmem, hheld⟩ := List.mem_filter.mp hb
    obtain ⟨_, hvalid, ⟨r, hr, hts⟩, _⟩ := hsound.bar hmem
    refine ⟨hvalid, r, hr, ?_⟩
    rw [hts]
    simpa [Window.holds] using hheld
  · intro hday
    obtain ⟨hvalid, r, hr, hheld⟩ := hday
    obtain ⟨b, hb, rfl⟩ := h.knows_window hu hdates hclean hcov hok hvalid hr hheld
    obtain ⟨_, _, ⟨r', hr', hts⟩, _⟩ := hsound.bar hb
    have hheld' := holds_of_same_day hdates.1 hdates.2 hr hr' hheld
    rw [hts] at hheld'
    exact ⟨b, List.mem_filter.mpr ⟨hb, by simpa [Window.holds] using hheld'⟩, rfl⟩

end CallLemmas

/-! ### Calls on the files -/

/-- The frames a call leaves in memory. -/
def frames_after (table : MarketTable) (clock : Clock) (files : Files) (c : Call) : Store :=
  run_queries table clock (Call.store files) (c.done files)

theorem fetch_files {files : Files} {c : Call} :
    (fetch_historical_data table clock files c).2 =
      if c.tickers = [] then files else (frames_after table clock files c).files := by
  unfold fetch_historical_data frames_after
  by_cases hnil : c.tickers = []
  · rw [if_pos hnil, if_pos hnil]
  · rw [if_neg hnil, if_neg hnil]
    by_cases hf : c.fails files = true
    · simp only [if_pos hf]
    · simp only [if_neg hf]

variable (table clock) in
/-- After a call, the file of each ticker holds its updated frame; the other
    files are as they were. -/
theorem frames_spec {T : List Ticker} (hown : OwnFiles T) {files : Files}
    (hordered : ∀ u ∈ T, Ordered (load files u)) {c : Call} (hT : ∀ u ∈ c.tickers, u ∈ T) :
    (∀ u ∈ T, load (fetch_historical_data table clock files c).2 u =
      (frames_after table clock files c).caches u) ∧
    ∀ u ∈ T, Updated table clock files c u ((frames_after table clock files c).caches u) := by
  have hchunk : ∀ q ∈ c.done files, ∀ u ∈ q.chunk, u ∈ T :=
    fun q hq u hu => hT u (done_round hq hu).1
  have hsync : InSync T (Call.store files) := fun u hu => ⟨rfl, hordered u hu⟩
  obtain ⟨hsync', hspec⟩ := run_queries_spec table clock hown hchunk hsync
  refine ⟨fun u hu => ?_, fun u hu => ⟨(hsync' u hu).2, (hspec u hu).1, (hspec u hu).2⟩⟩
  rw [fetch_files]
  by_cases hnil : c.tickers = []
  · have hdone : c.done files = [] := by
      apply List.prefix_nil.mp
      have hplan : c.plan files = [] := by
        unfold Call.plan queries range_to_tickers
        rw [hnil]
        rfl
      rw [← hplan]
      exact done_initial
    rw [if_pos hnil]
    unfold frames_after
    rw [hdone]
    rfl
  · rw [if_neg hnil]
    exact (hsync' u hu).1

/-- A ticker the call does not name keeps its frame. -/
theorem frames_other {T : List Ticker} (hown : OwnFiles T) {files : Files}
    (hordered : ∀ u ∈ T, Ordered (load files u)) {c : Call} (hT : ∀ u ∈ c.tickers, u ∈ T)
    {u : Ticker} (hu : u ∈ T) (hnot : u ∉ c.tickers)
    (hcov : Covered table clock u (load files u)) :
    Covered table clock u ((frames_after table clock files c).caches u) := by
  have h := (frames_spec table clock hown hordered hT).2 u hu
  have hnone : ∀ q ∈ c.done files, u ∉ q.chunk :=
    fun q hq hin => hnot (done_round hq hin).1
  obtain ⟨w, hw⟩ := hcov.complete
  refine ⟨h.ordered, fun b hb => ?_, w, fun b hb => ?_, fun d hvalid hrow => ?_⟩
  · rcases h.origin b hb with hold | ⟨q, hq, hin, _⟩
    · exact hcov.sound b hold
    · exact absurd hin (hnone q hq)
  · rcases h.origin b hb with hold | ⟨q, hq, hin, _⟩
    · exact hw.within b hold
    · exact absurd hin (hnone q hq)
  · obtain ⟨b, hb, rfl⟩ := hw.days d hvalid hrow
    exact h.known (Or.inl hb)

/-- What a call must meet for the cache to stay free of holes. -/
structure Harmless (table : MarketTable) (clock : Clock) (files : Files) (c : Call) : Prop where
  by_date : c.by_date clock
  edges : c.no_edge files (SplitsNull table clock)
  hole : c.fails files = true → ∀ u ∈ c.tickers, c.no_hole table clock files u

/-- **One call** that meets them keeps every frame covered. -/
theorem harmless_call {T : List Ticker} (hown : OwnFiles T) {files : Files} {c : Call}
    (hT : ∀ u ∈ c.tickers, u ∈ T) (hcov : ∀ u ∈ T, Covered table clock u (load files u))
    (h : Harmless table clock files c) :
    ∀ u ∈ T, Covered table clock u (load (fetch_historical_data table clock files c).2 u) := by
  intro u hu
  have hordered : ∀ v ∈ T, Ordered (load files v) := fun v hv => (hcov v hv).ordered
  obtain ⟨hload, hupdated⟩ := frames_spec table clock hown hordered hT
  rw [hload u hu]
  by_cases hin : u ∈ c.tickers
  · exact (hupdated u hu).covered hin h.by_date h.edges (hcov u hu) (fun hf => h.hole hf u hin)
  · exact frames_other hown hordered hT hu hin (hcov u hu)

variable (table clock) in
/-- **Any calls** that meet them do. -/
theorem harmless_calls {T : List Ticker} (hown : OwnFiles T) {calls : List Call}
    (hT : ∀ c ∈ calls, ∀ u ∈ c.tickers, u ∈ T)
    (h : ∀ before c, before ++ [c] <+: calls →
      Harmless table clock (files_after table clock no_files before) c) :
    ∀ u ∈ T, Covered table clock u (load (files_after table clock no_files calls) u) := by
  induction calls using List.reverseRecOn with
  | nil => exact fun u _ => covered_nil
  | append_singleton calls c ih =>
    have hprev := ih (fun c' hc' => hT c' (List.mem_append_left _ hc'))
      (fun before c' hpre => h before c' (hpre.trans (List.prefix_append _ _)))
    rw [files_after_snoc]
    exact harmless_call hown (hT c (by simp)) hprev (h calls c (List.prefix_refl _))

/-- The days a frame has for a ticker. -/
def HasDay (clock : Clock) (frame : List DayBar) (u : Ticker) (d : ℤ) : Prop :=
  ∃ b ∈ frame, b.ticker = u ∧ clock.date b.timestamp = d

/-- The days of what a call returns are those of the spliced frames. -/
theorem returned_days {T : List Ticker} (hown : OwnFiles T) {files : Files} {c : Call}
    (hT : ∀ u ∈ c.tickers, u ∈ T) (hcov : ∀ u ∈ T, Covered table clock u (load files u))
    (hdates : c.by_date clock) (hedges : c.no_edge files (SplitsNull table clock))
    {frame : List DayBar} (hframe : (fetch_historical_data table clock files c).1 = some frame)
    {u : Ticker} (hu : u ∈ c.tickers) (d : ℤ) :
    HasDay clock frame u d ↔
      Valid table clock u d ∧ ∃ r ∈ day_rows table clock u d, c.window.holds r.timestamp := by
  have hnil : c.tickers ≠ [] := fun h => by rw [h] at hu; exact List.not_mem_nil hu
  have hok : c.fails files = false := by
    unfold fetch_historical_data at hframe
    rw [if_neg hnil] at hframe
    cases hf : c.fails files with
    | false => rfl
    | true => simp [hf] at hframe
  have hordered : ∀ v ∈ T, Ordered (load files v) := fun v hv => (hcov v hv).ordered
  have hupdated := (frames_spec table clock hown hordered hT).2
  have heq : frame = sort_values
      (c.tickers.flatMap (fun v => splice ((frames_after table clock files c).caches v) c.window)) := by
    unfold fetch_historical_data at hframe
    rw [if_neg hnil] at hframe
    simpa [hok, frames_after] using hframe.symm
  rw [← (hupdated u (hT u hu)).returned hu hdates hedges (hcov u (hT u hu)) hok d]
  -- each file holds bars of its own ticker
  have hticker : ∀ v ∈ c.tickers, ∀ b ∈ splice ((frames_after table clock files c).caches v) c.window,
      b.ticker = v := by
    intro v hv b hb
    have hsound := ((hupdated v (hT v hv)).covered hv hdates hedges (hcov v (hT v hv))
      (fun hf => by rw [hok] at hf; cases hf)).sound
    exact (hsound.bar (List.mem_filter.mp hb).1).1
  constructor
  · intro hday
    obtain ⟨b, hb, hbu, hdate⟩ := hday
    rw [heq, mem_sort_values] at hb
    obtain ⟨v, hv, hb⟩ := List.mem_flatMap.mp hb
    obtain rfl : v = u := (hticker v hv b hb).symm.trans hbu
    exact ⟨b, hb, hdate⟩
  · intro hknown
    obtain ⟨b, hb, hdate⟩ := hknown
    refine ⟨b, ?_, hticker u hu b hb, hdate⟩
    rw [heq, mem_sort_values]
    exact List.mem_flatMap.mpr ⟨u, hu, hb⟩

/-- **A failed download does no harm** in a run in which every ticker has its
    own file, windows are given by dates, no slab ends inside a day that
    lacks a close, and a failing call leaves no hole before the oldest cached
    bar: every call that succeeds returns, for each of its tickers, the days
    it would have returned from an empty cache. -/
theorem failed_download_harmless (table : MarketTable) (clock : Clock) (calls : List Call)
    (hown : OwnFiles (calls.flatMap Call.tickers))
    (h : ∀ before c, before ++ [c] <+: calls →
      Harmless table clock (files_after table clock no_files before) c ∧
        c.no_edge no_files (SplitsNull table clock))
    (before : List Call) (c : Call) (hpre : before ++ [c] <+: calls) (frame : List DayBar)
    (hframe : (fetch_historical_data table clock
      (files_after table clock no_files before) c).1 = some frame) :
    ∃ fresh, (fetch_historical_data table clock no_files { c with fails_at := none }).1 =
        some fresh ∧
      ∀ u ∈ c.tickers, ∀ d, HasDay clock frame u d ↔ HasDay clock fresh u d := by
  have hsub : ∀ c' ∈ before ++ [c], ∀ u ∈ c'.tickers, u ∈ calls.flatMap Call.tickers :=
    fun c' hc' u hu => List.mem_flatMap.mpr ⟨c', hpre.subset hc', hu⟩
  have hT := hsub c (by simp)
  have hcov := harmless_calls table clock hown
    (fun c' hc' => hsub c' (List.mem_append_left _ hc'))
    (fun b c' hp => (h b c' (hp.trans ((List.prefix_append _ _).trans hpre))).1)
  obtain ⟨hcall, hfresh_edges⟩ := h before c hpre
  let again : Call := { c with fails_at := none }
  have hsome : ∃ fresh,
      (fetch_historical_data table clock no_files again).1 = some fresh := by
    unfold fetch_historical_data
    by_cases hnil : again.tickers = []
    · exact ⟨[], by rw [if_pos hnil]⟩
    · have hok : again.fails no_files = false := rfl
      simp [if_neg hnil, hok]
  obtain ⟨fresh, hfresh⟩ := hsome
  refine ⟨fresh, hfresh, fun u hu d => ?_⟩
  -- both calls return the same days, those of the table
  rw [returned_days hown hT hcov hcall.by_date hcall.edges hframe hu d,
    returned_days (c := again) hown hT (fun v _ => covered_nil) hcall.by_date hfresh_edges
      hfresh hu d]
  exact Iff.rfl

/-! ### A broken download on each side -/

def aapl : Ticker := ⟨"AAPL", aapl_nonempty⟩

/-- A row at some hour of a day, New York time. -/
def row_at (date hour : ℤ) : MarketRow where
  timestamp := date * day_us + (hour + 5) * hour_us
  open_price := some 10
  high_price := some 12
  low_price := some 9
  close_price := some 11
  volume := some 100

/-- The closing rows of three days, each more than a year after the last. -/
def sparse_table : MarketTable where
  rows := fun t => if t = aapl then [row_at 0 16, row_at 400 16, row_at 800 16] else []
  sorted := by
    intro t
    by_cases ht : t = aapl
    · simp [ht, row_at, day_us, hour_us]
    · simp [ht]

/-- A call for the days `first` to `last`. -/
def call_for (first last : ℤ) (fails_at : Option ℕ) : Call where
  tickers := [aapl]
  start_date := first * day_us + 5 * hour_us
  end_date := last * day_us + 5 * hour_us
  fails_at := fails_at

/-- The newest day is cached, and the download of the days before it fails
    after its first slab: day 400 counts as covered and is lost. -/
theorem hole_never_fetched :
    (fetch_historical_data sparse_table winter_clock
      (files_after sparse_table winter_clock no_files [call_for 800 800 none])
      (call_for 0 800 (some 1))).1 = none ∧
    ∃ frame fresh,
      (fetch_historical_data sparse_table winter_clock
        (files_after sparse_table winter_clock no_files
          [call_for 800 800 none, call_for 0 800 (some 1)]) (call_for 400 400 none)).1 =
        some frame ∧
      (fetch_historical_data sparse_table winter_clock no_files (call_for 400 400 none)).1 =
        some fresh ∧
      HasDay winter_clock fresh aapl 400 ∧ ¬ HasDay winter_clock frame aapl 400 := by
  refine ⟨by decide +kernel, [], (ticker_bars sparse_table winter_clock aapl
    (call_for 400 400 none).window), by decide +kernel, by decide +kernel, ?_, ?_⟩
  · unfold HasDay
    decide +kernel
  · unfold HasDay
    decide +kernel

/-- Every row of the sparse table has a close. -/
theorem sparse_not_splits_null (u : Ticker) (p : ℤ) :
    ¬ SplitsNull sparse_table winter_clock u p := by
  intro h
  obtain ⟨d, ⟨r, hr, hnull⟩, _⟩ := h
  have hmem : r ∈ sparse_table.rows u := (mem_day_rows.mp hr).1
  by_cases hu : u = aapl
  · simp only [sparse_table, if_pos hu, List.mem_cons, List.not_mem_nil, or_false] at hmem
    rcases hmem with rfl | rfl | rfl <;> simp [row_at] at hnull
  · simp [sparse_table, hu] at hmem

theorem call_for_by_date (first last : ℤ) (fails_at : Option ℕ) :
    (call_for first last fails_at).by_date winter_clock := by
  unfold Call.by_date Clock.in_session
  simp only [call_for, Call.window, winter_clock, day_us, hour_us]
  omega

/-- The oldest day is cached, and the download of the days after it fails
    after its first slab: day 400 is still fetched when it is asked for. -/
theorem broken_tail_is_fetched :
    (fetch_historical_data sparse_table winter_clock
      (files_after sparse_table winter_clock no_files [call_for 0 0 none])
      (call_for 1 800 (some 1))).1 = none ∧
    ∃ frame, (fetch_historical_data sparse_table winter_clock
        (files_after sparse_table winter_clock no_files
          [call_for 0 0 none, call_for 1 800 (some 1)]) (call_for 400 400 none)).1 = some frame ∧
      HasDay winter_clock frame aapl 400 := by
  have hown : OwnFiles
      ([call_for 0 0 none, call_for 1 800 (some 1), call_for 400 400 none].flatMap
        Call.tickers) := by
    intro u hu v hv _
    simp only [call_for, List.flatMap_cons, List.flatMap_nil, List.append_nil, List.cons_append,
      List.nil_append, List.mem_cons, List.not_mem_nil, or_false, or_self] at hu hv
    rw [hu, hv]
  have hspan : span (load (files_after sparse_table winter_clock no_files [call_for 0 0 none])
      aapl) = some (21 * hour_us, 21 * hour_us) := by
    decide +kernel
  have hedges : ∀ files (c : Call),
      c.no_edge files (SplitsNull sparse_table winter_clock) :=
    fun _ _ u _ _ _ w _ _ => sparse_not_splits_null u w.finish
  have hsafe : ∀ before c,
      before ++ [c] <+: [call_for 0 0 none, call_for 1 800 (some 1), call_for 400 400 none] →
      Harmless sparse_table winter_clock
          (files_after sparse_table winter_clock no_files before) c ∧
        c.no_edge no_files (SplitsNull sparse_table winter_clock) := by
    intro before c hpre
    obtain ⟨rest, hrest⟩ := hpre
    match before with
    | [] =>
      obtain ⟨rfl, _⟩ := List.cons.inj hrest
      exact ⟨⟨call_for_by_date _ _ _, hedges _ _, fun hf => by cases hf⟩, hedges _ _⟩
    | [_] =>
      simp only [List.cons_append, List.nil_append, List.cons.injEq] at hrest
      obtain ⟨rfl, rfl, _⟩ := hrest
      refine ⟨⟨call_for_by_date _ _ _, hedges _ _, fun _ u hu lo hi hlohi hlt => ?_⟩, hedges _ _⟩
      -- the call begins after the cached bar
      obtain rfl := List.mem_singleton.mp hu
      rw [hspan] at hlohi
      obtain ⟨rfl, rfl⟩ := Prod.mk.inj (Option.some.inj hlohi)
      simp only [call_for, Call.window, day_us, hour_us] at hlt
      omega
    | [_, _] =>
      simp only [List.cons_append, List.nil_append, List.cons.injEq] at hrest
      obtain ⟨rfl, rfl, rfl, _⟩ := hrest
      exact ⟨⟨call_for_by_date _ _ _, hedges _ _, fun hf => by cases hf⟩, hedges _ _⟩
    | _ :: _ :: _ :: _ => simp at hrest
  have hframe : ((fetch_historical_data sparse_table winter_clock
      (files_after sparse_table winter_clock no_files
        [call_for 0 0 none, call_for 1 800 (some 1)]) (call_for 400 400 none)).1).isSome := by
    decide +kernel
  obtain ⟨frame, hframe⟩ := Option.isSome_iff_exists.mp hframe
  obtain ⟨fresh, hfresh, hdays⟩ := failed_download_harmless sparse_table winter_clock
    [call_for 0 0 none, call_for 1 800 (some 1), call_for 400 400 none] hown hsafe
    [call_for 0 0 none, call_for 1 800 (some 1)] (call_for 400 400 none)
    (List.prefix_refl _) frame hframe
  have hday : HasDay winter_clock ((fetch_historical_data sparse_table winter_clock no_files
      { call_for 400 400 none with fails_at := none }).1.getD []) aapl 400 := by
    unfold HasDay
    decide +kernel
  rw [hfresh] at hday
  exact ⟨by decide +kernel, frame, hframe, (hdays aapl (by simp [call_for]) 400).mpr hday⟩

end History
