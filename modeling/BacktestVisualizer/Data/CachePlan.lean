import BacktestVisualizer.Data.DayBars

/-! # The Rounds of a Call

  Which rounds a call makes is settled by the spans of the cached frames.
  Broken off anywhere, the rounds of a gap that went through are the first of
  its slabs, for every ticker of the gap; and what a round does to a frame is
  add the bars of its ticker that are not there yet.
-/

open Batches

namespace History

variable {table : MarketTable} {clock : Clock} {t : Ticker}

/-! ### Merging -/

instance : Std.Total (fun a b : DayBar => a.timestamp ≤ b.timestamp) :=
  ⟨fun a b => le_total a.timestamp b.timestamp⟩

instance : IsTrans DayBar (fun a b => a.timestamp ≤ b.timestamp) :=
  ⟨fun _ _ _ => le_trans⟩

theorem mem_sort_values {df : List DayBar} {b : DayBar} : b ∈ sort_values df ↔ b ∈ df :=
  List.mem_insertionSort _

theorem sort_values_sorted (df : List DayBar) :
    (sort_values df).Pairwise (fun a b => a.timestamp ≤ b.timestamp) :=
  List.pairwise_insertionSort _ df

/-- A frame in order, no timestamp twice. -/
def Ordered (df : List DayBar) : Prop :=
  df.Pairwise (fun a b => a.timestamp < b.timestamp)

theorem Ordered.distinct {df : List DayBar} (h : Ordered df) :
    df.Pairwise (fun a b => a.timestamp ≠ b.timestamp) :=
  List.Pairwise.imp (fun hlt => ne_of_lt hlt) h

theorem Ordered.sorted {df : List DayBar} (h : Ordered df) : sort_values df = df :=
  List.Pairwise.insertionSort_eq (List.Pairwise.imp (fun hlt => le_of_lt hlt) h)

theorem merge_ordered {cached : List DayBar} (h : Ordered cached) (new : List DayBar) :
    Ordered (merge cached new) := by
  unfold merge
  by_cases hnew : new = []
  · rw [if_pos hnew]
    exact h
  · rw [if_neg hnew]
    have hdistinct : (sort_values (drop_duplicates DayBar.timestamp (cached ++ new))).Pairwise
        (fun a b => a.timestamp ≠ b.timestamp) :=
      (List.perm_insertionSort _ _).symm.pairwise (drop_duplicates_nodup _) (fun h => h.symm)
    exact (sort_values_sorted _).imp₂ (fun _ _ hle hne => lt_of_le_of_ne hle hne) hdistinct

/-- Every timestamp of both frames is kept. -/
theorem exists_mem_merge {cached new : List DayBar} {b : DayBar} (h : b ∈ cached ∨ b ∈ new) :
    ∃ b' ∈ merge cached new, b'.timestamp = b.timestamp := by
  unfold merge
  by_cases hnew : new = []
  · rw [if_pos hnew]
    subst hnew
    exact ⟨b, h.resolve_right (List.not_mem_nil), rfl⟩
  · rw [if_neg hnew]
    obtain ⟨b', hb', hts⟩ : ∃ b' ∈ drop_duplicates DayBar.timestamp (cached ++ new),
        b'.timestamp = b.timestamp := exists_mem_drop_duplicates (List.mem_append.mpr h)
    exact ⟨b', mem_sort_values.mpr hb', hts⟩

/-- Old bars stay, and a new one comes in if its timestamp is new. -/
theorem mem_merge {cached new : List DayBar} (h : Ordered cached) (hnew : Ordered new)
    (b : DayBar) : b ∈ merge cached new ↔
      b ∈ cached ∨ (b ∈ new ∧ ∀ b' ∈ cached, b.timestamp ≠ b'.timestamp) := by
  unfold merge
  by_cases hnil : new = []
  · subst hnil
    simp
  · rw [if_neg hnil, mem_sort_values, mem_drop_duplicates_append h.distinct]
    have hself : ∀ b, b ∈ drop_duplicates DayBar.timestamp new ↔ b ∈ new := by
      intro b
      have := mem_drop_duplicates_append (m := []) hnew.distinct b
      simpa [drop_duplicates] using this
    rw [hself]

/-! ### One round -/

/-- The files hold the frames in memory, for every ticker of `T`. -/
def InSync (T : List Ticker) (s : Store) : Prop :=
  ∀ u ∈ T, s.files (path u) = s.caches u ∧ Ordered (s.caches u)

/-- No two tickers share a file. -/
def OwnFiles (T : List Ticker) : Prop :=
  ∀ u ∈ T, ∀ v ∈ T, path u = path v → u = v

theorem merge_ticker_sync {T : List Ticker} (hown : OwnFiles T) {s : Store} (h : InSync T s)
    {u : Ticker} (hu : u ∈ T) (fetched : List DayBar) :
    InSync T (merge_ticker fetched s u) ∧
    (merge_ticker fetched s u).caches =
      set_cache s.caches u (merge (s.caches u) (fetched.filter (fun r => r.ticker = u))) := by
  obtain ⟨hfile, hordered⟩ := h u hu
  unfold merge_ticker merge_and_save
  by_cases hnil : fetched.filter (fun r => r.ticker = u) = []
  · simp only [if_pos hnil]
    -- nothing fetched, and nothing written
    have hmerge : merge (s.caches u) (fetched.filter (fun r => r.ticker = u)) = s.caches u := by
      rw [hnil]
      rfl
    have hset : set_cache s.caches u (s.caches u) = s.caches := by
      funext v
      by_cases hv : v = u
      · subst hv
        simp
      · simp [hv]
    rw [hmerge, hset]
    exact ⟨h, rfl⟩
  · simp only [if_neg hnil]
    refine ⟨fun v hv => ?_, trivial⟩
    have hmerged := merge_ordered hordered (fetched.filter (fun r => r.ticker = u))
    have hne : merge (s.caches u) (fetched.filter (fun r => r.ticker = u)) ≠ [] := by
      intro hempty
      obtain ⟨b, hb⟩ := List.exists_mem_of_ne_nil _ hnil
      obtain ⟨b', hb', _⟩ : ∃ b' ∈ merge (s.caches u) (fetched.filter (fun r => r.ticker = u)),
          b'.timestamp = b.timestamp := exists_mem_merge (Or.inr hb)
      rw [hempty] at hb'
      exact List.not_mem_nil hb'
    -- only the file of this ticker is written
    by_cases huv : v = u
    · subst huv
      simp only [set_cache_self, save, if_neg hne, set_file, if_pos, hmerged.sorted]
      exact ⟨trivial, hmerged⟩
    · have hpath : path v ≠ path u := fun hp => huv (hown v hv u hu hp)
      simp only [set_cache_ne _ _ huv, save, if_neg hne, set_file, if_neg hpath]
      exact h v hv

/-- What a query brings for a ticker of its chunk. -/
theorem fetch_filter {chunk : List Ticker} (ht : t ∈ chunk) (w : Window) :
    (fetch_from_db table clock chunk w).filter (fun r => r.ticker = t) =
      ticker_bars table clock t w := by
  have hother : ∀ u, (ticker_bars table clock u w).filter (fun r => r.ticker = t) =
      if u = t then ticker_bars table clock t w else [] := by
    intro u
    by_cases hu : u = t
    · subst hu
      rw [if_pos rfl]
      exact List.filter_eq_self.mpr (fun b hb => by simpa using (ticker_bar_row hb).1)
    · rw [if_neg hu]
      refine List.filter_eq_nil_iff.mpr (fun b hb => ?_)
      rw [(ticker_bar_row hb).1]
      simpa using hu
  -- by induction on the chunk, which names each ticker once
  have hlist : ∀ l : List Ticker, l.Nodup → t ∈ l →
      (l.flatMap (fun u => ticker_bars table clock u w)).filter (fun r => r.ticker = t) =
        ticker_bars table clock t w := by
    intro l
    induction l with
    | nil => intro _ h; simp at h
    | cons u l ih =>
      intro hnodup hmem
      obtain ⟨hu, hl⟩ := List.nodup_cons.mp hnodup
      rw [List.flatMap_cons, List.filter_append, hother]
      rcases List.mem_cons.mp hmem with rfl | hin
      · have hnone : (l.flatMap (fun u => ticker_bars table clock u w)).filter
            (fun r => r.ticker = t) = [] := by
          rw [List.filter_flatMap, List.flatMap_eq_nil_iff]
          intro v hv
          have hvt : ¬ v = t := fun h => hu (h ▸ hv)
          rw [hother, if_neg hvt]
        rw [if_pos rfl, hnone, List.append_nil]
      · have hut : ¬ u = t := fun h => hu (h ▸ hin)
        rw [if_neg hut, List.nil_append, ih hl hin]
  exact hlist chunk.dedup (List.nodup_dedup chunk) (List.mem_dedup.mpr ht)

theorem ticker_bars_dates_sorted (w : Window) :
    (trade_dates table clock t w).Pairwise (· < ·) := by
  have hle : ((session_rows table clock t w).map (fun r => clock.date r.timestamp)).Pairwise
      (· ≤ ·) := by
    refine List.pairwise_map.mpr ?_
    exact (rows_sorted _ List.filter_sublist).imp
      (fun hlt => clock.date_mono _ _ (le_of_lt hlt))
  have hsub := hle.sublist (List.dedup_sublist _)
  exact hsub.imp₂ (fun _ _ hle hne => lt_of_le_of_ne hle hne) (List.nodup_dedup _)

theorem ticker_bars_ordered (w : Window) : Ordered (ticker_bars table clock t w) := by
  unfold Ordered ticker_bars
  refine (ticker_bars_dates_sorted w).filterMap _ (fun d d' hlt b hb b' hb' => ?_)
  have hdate : ∀ {e : ℤ} {c : DayBar},
      day_bar t (rows_of_day table clock t w e) = some c → clock.date c.timestamp = e := by
    intro e c hc
    obtain ⟨r, hlast, _, hts, _⟩ := day_bar_some hc
    rw [hts]
    exact (mem_day_rows.mp
      (mem_rows_of_day.mp ((getLast_iff (rows_of_day_sublist w e)).mp hlast).1).1).2.2
  by_contra hge
  have := clock.date_mono _ _ (not_lt.mp hge)
  have h1 := hdate hb
  have h2 := hdate hb'
  unfold Clock.date at h1 h2
  omega

/-- Merging the answer of a query, ticker by ticker. -/
theorem merge_chunk {T : List Ticker} (hown : OwnFiles T) (fetched : List DayBar)
    {chunk : List Ticker} (hchunk : ∀ u ∈ chunk, u ∈ T)
    (hnew : ∀ u ∈ chunk, Ordered (fetched.filter (fun r => r.ticker = u))) {s : Store}
    (h : InSync T s) :
    InSync T (chunk.foldl (merge_ticker fetched) s) ∧
    ∀ u ∈ T, ∀ b, b ∈ (chunk.foldl (merge_ticker fetched) s).caches u ↔
      b ∈ s.caches u ∨ (u ∈ chunk ∧ b ∈ fetched.filter (fun r => r.ticker = u) ∧
        ∀ b' ∈ s.caches u, b.timestamp ≠ b'.timestamp) := by
  induction chunk generalizing s with
  | nil => exact ⟨h, by simp⟩
  | cons v chunk ih =>
    have hv : v ∈ T := hchunk v List.mem_cons_self
    obtain ⟨hsync, hcaches⟩ := merge_ticker_sync hown h hv fetched
    obtain ⟨hsync', hmem⟩ := ih (fun u hu => hchunk u (List.mem_cons_of_mem _ hu))
      (fun u hu => hnew u (List.mem_cons_of_mem _ hu)) hsync
    refine ⟨hsync', fun u hu b => ?_⟩
    rw [List.foldl_cons, hmem u hu b, hcaches]
    by_cases huv : u = v
    · -- merging the same rows a second time adds nothing
      subst huv
      simp only [set_cache_self, List.mem_cons, true_or, true_and]
      rw [mem_merge (h u hu).2 (hnew u List.mem_cons_self)]
      constructor
      · intro hb
        rcases hb with hb | ⟨_, hb, hfresh⟩
        · exact hb
        · obtain ⟨b', hb', hts⟩ : ∃ b' ∈ merge (s.caches u) (fetched.filter (fun r => r.ticker = u)),
              b'.timestamp = b.timestamp := exists_mem_merge (Or.inr hb)
          exact absurd hts.symm (hfresh b' hb')
      · exact Or.inl
    · simp only [set_cache_ne _ _ huv, List.mem_cons, huv, false_or]

variable (table clock) in
/-- **A round** keeps the files in step and adds the bars of each ticker of
    its chunk that are not there yet. -/
theorem run_query_spec {T : List Ticker} (hown : OwnFiles T) {q : Query}
    (hchunk : ∀ u ∈ q.chunk, u ∈ T) {s : Store} (h : InSync T s) :
    InSync T (run_query table clock s q) ∧
    ∀ u ∈ T, ∀ b, b ∈ (run_query table clock s q).caches u ↔
      b ∈ s.caches u ∨ (u ∈ q.chunk ∧ b ∈ ticker_bars table clock u q.slab ∧
        ∀ b' ∈ s.caches u, b.timestamp ≠ b'.timestamp) := by
  unfold run_query
  by_cases hnil : fetch_from_db table clock q.chunk q.slab = []
  · simp only [if_pos hnil]
    refine ⟨h, fun u _ b => ⟨Or.inl, fun hb => ?_⟩⟩
    rcases hb with hb | ⟨hu, hb, _⟩
    · exact hb
    · rw [← fetch_filter hu, hnil] at hb
      simp at hb
  · simp only [if_neg hnil]
    have hnew : ∀ u ∈ q.chunk, Ordered ((fetch_from_db table clock q.chunk q.slab).filter
        (fun r => r.ticker = u)) := by
      intro u hu
      rw [fetch_filter hu]
      exact ticker_bars_ordered q.slab
    obtain ⟨hsync, hmem⟩ := merge_chunk hown _ hchunk hnew h
    refine ⟨hsync, fun u hu b => ?_⟩
    rw [hmem u hu b]
    by_cases hin : u ∈ q.chunk
    · rw [fetch_filter hin]
    · simp [hin]

theorem run_queries_snoc (s : Store) (qs : List Query) (q : Query) :
    run_queries table clock s (qs ++ [q]) =
      run_query table clock (run_queries table clock s qs) q := by
  simp [run_queries, List.foldl_append]

variable (table clock) in
/-- **Rounds**: every bar was there or was brought, and every timestamp that
    was there or was brought is there. -/
theorem run_queries_spec {T : List Ticker} (hown : OwnFiles T) {qs : List Query}
    (hchunk : ∀ q ∈ qs, ∀ u ∈ q.chunk, u ∈ T) {s : Store} (h : InSync T s) :
    InSync T (run_queries table clock s qs) ∧
    ∀ u ∈ T,
      (∀ b ∈ (run_queries table clock s qs).caches u, b ∈ s.caches u ∨
        ∃ q ∈ qs, u ∈ q.chunk ∧ b ∈ ticker_bars table clock u q.slab) ∧
      (∀ b, (b ∈ s.caches u ∨ ∃ q ∈ qs, u ∈ q.chunk ∧ b ∈ ticker_bars table clock u q.slab) →
        ∃ b' ∈ (run_queries table clock s qs).caches u, b'.timestamp = b.timestamp) := by
  induction qs using List.reverseRecOn with
  | nil =>
    refine ⟨h, fun u _ => ⟨fun b hb => Or.inl hb, fun b hb => ?_⟩⟩
    rcases hb with hb | ⟨q, hq, _⟩
    · exact ⟨b, hb, rfl⟩
    · simp at hq
  | append_singleton qs q ih =>
    obtain ⟨hsync, hspec⟩ := ih (fun q' hq' => hchunk q' (List.mem_append_left _ hq'))
    obtain ⟨hsync', hmem⟩ :=
      run_query_spec table clock hown (hchunk q (by simp)) hsync
    rw [run_queries_snoc]
    refine ⟨hsync', fun u hu => ⟨fun b hb => ?_, fun b hb => ?_⟩⟩
    · rcases (hmem u hu b).mp hb with hold | ⟨hin, hbar, _⟩
      · rcases (hspec u hu).1 b hold with hold | ⟨q', hq', hrest⟩
        · exact Or.inl hold
        · exact Or.inr ⟨q', List.mem_append_left _ hq', hrest⟩
      · exact Or.inr ⟨q, by simp, hin, hbar⟩
    · have hkept : (∃ b' ∈ (run_queries table clock s qs).caches u,
          b'.timestamp = b.timestamp) ∨
          (u ∈ q.chunk ∧ b ∈ ticker_bars table clock u q.slab) := by
        rcases hb with hb | ⟨q', hq', hin, hbar⟩
        · exact Or.inl ((hspec u hu).2 b (Or.inl hb))
        · rcases List.mem_append.mp hq' with hq' | hq'
          · exact Or.inl ((hspec u hu).2 b (Or.inr ⟨q', hq', hin, hbar⟩))
          · obtain rfl := List.mem_singleton.mp hq'
            exact Or.inr ⟨hin, hbar⟩
      rcases hkept with ⟨b', hb', hts⟩ | ⟨hin, hbar⟩
      · exact ⟨b', (hmem u hu b').mpr (Or.inl hb'), hts⟩
      · by_cases hfresh : ∀ b' ∈ (run_queries table clock s qs).caches u,
            b.timestamp ≠ b'.timestamp
        · exact ⟨b, (hmem u hu b).mpr (Or.inr ⟨hin, hbar, hfresh⟩), rfl⟩
        · obtain ⟨b', hb'⟩ := not_forall.mp hfresh
          obtain ⟨hb', hts⟩ := not_forall.mp hb'
          exact ⟨b', (hmem u hu b').mpr (Or.inl hb'), (not_not.mp hts).symm⟩

/-! ### The plan -/

/-- The ranges that `range_to_tickers` has collected from the given pairs:
    one entry a gap, with its tickers. -/
structure Collected (pairs : List (Window × Ticker)) (ranges : List (Window × List Ticker)) :
    Prop where
  nodup : (ranges.map Prod.fst).Nodup
  mem : ∀ g u, (∃ r ∈ ranges, r.1 = g ∧ u ∈ r.2) ↔ (g, u) ∈ pairs

theorem add_range_collected {pairs : List (Window × Ticker)}
    {ranges : List (Window × List Ticker)} (h : Collected pairs ranges) (g : Window) (u : Ticker) :
    Collected (pairs ++ [(g, u)]) (add_range ranges g u) := by
  unfold add_range
  by_cases hg : g ∈ ranges.map Prod.fst
  · rw [if_pos hg]
    have hkeys : (ranges.map (fun r => if r.1 = g then (r.1, r.2 ++ [u]) else r)).map Prod.fst =
        ranges.map Prod.fst := by
      rw [List.map_map]
      apply List.map_congr_left
      intro r _
      by_cases hr : r.1 = g <;> simp [hr]
    refine ⟨by rw [hkeys]; exact h.nodup, fun g' u' => ?_⟩
    rw [List.mem_append, ← h.mem g' u', List.mem_singleton, Prod.mk.injEq]
    constructor
    · intro hex
      obtain ⟨r', hr', hfst, hu'⟩ := hex
      obtain ⟨r, hr, rfl⟩ := List.mem_map.mp hr'
      by_cases hrg : r.1 = g
      · rw [if_pos hrg] at hfst hu'
        rcases List.mem_append.mp hu' with hold | hnew
        · exact Or.inl ⟨r, hr, hfst, hold⟩
        · exact Or.inr ⟨hfst.symm.trans hrg, List.mem_singleton.mp hnew⟩
      · rw [if_neg hrg] at hfst hu'
        exact Or.inl ⟨r, hr, hfst, hu'⟩
    · intro hex
      rcases hex with ⟨r, hr, hfst, hu'⟩ | ⟨rfl, rfl⟩
      · refine ⟨_, List.mem_map.mpr ⟨r, hr, rfl⟩, ?_⟩
        by_cases hrg : r.1 = g
        · rw [if_pos hrg]
          exact ⟨hfst, List.mem_append_left _ hu'⟩
        · rw [if_neg hrg]
          exact ⟨hfst, hu'⟩
      · obtain ⟨r, hr, hfst⟩ := List.mem_map.mp hg
        refine ⟨_, List.mem_map.mpr ⟨r, hr, rfl⟩, ?_⟩
        rw [if_pos hfst]
        exact ⟨hfst, by simp⟩
  · rw [if_neg hg]
    refine ⟨?_, fun g' u' => ?_⟩
    · rw [List.map_append]
      refine List.nodup_append.mpr ⟨h.nodup, by simp, fun a ha b hb => ?_⟩
      obtain rfl : b = g := by simpa using hb
      intro hab
      exact hg (hab ▸ ha)
    · rw [List.mem_append, ← h.mem g' u', List.mem_singleton, Prod.mk.injEq]
      constructor
      · intro hex
        obtain ⟨r, hr, hfst, hu'⟩ := hex
        rcases List.mem_append.mp hr with hr | hr
        · exact Or.inl ⟨r, hr, hfst, hu'⟩
        · obtain rfl := List.mem_singleton.mp hr
          exact Or.inr ⟨hfst.symm, by simpa using hu'⟩
      · intro hex
        rcases hex with ⟨r, hr, hfst, hu'⟩ | ⟨rfl, rfl⟩
        · exact ⟨r, List.mem_append_left _ hr, hfst, hu'⟩
        · exact ⟨(g', [u']), by simp, rfl, by simp⟩

/-- **The ranges of a call**: each ticker is listed under its own gaps. -/
theorem ranges_collected (caches : Caches) (tickers : List Ticker) (start finish : ℤ) :
    Collected (tickers.flatMap
        (fun u => (missing_ranges (caches u) start finish).map (fun g => (g, u))))
      (range_to_tickers caches tickers start finish) := by
  have hfold : ∀ pairs : List (Window × Ticker),
      Collected pairs (pairs.foldl (fun ranges x => add_range ranges x.1 x.2) []) := by
    intro pairs
    induction pairs using List.reverseRecOn with
    | nil => exact ⟨by simp, by simp⟩
    | append_singleton pairs x ih =>
      rw [List.foldl_append]
      exact add_range_collected ih x.1 x.2
  exact hfold _

theorem mem_ranges {caches : Caches} {tickers : List Ticker} {start finish : ℤ} {g : Window}
    {u : Ticker} :
    (∃ r ∈ range_to_tickers caches tickers start finish, r.1 = g ∧ u ∈ r.2) ↔
      u ∈ tickers ∧ g ∈ missing_ranges (caches u) start finish := by
  rw [(ranges_collected caches tickers start finish).mem g u, List.mem_flatMap]
  constructor
  · intro h
    obtain ⟨v, hv, hmem⟩ := h
    obtain ⟨g', hg', heq⟩ := List.mem_map.mp hmem
    obtain ⟨rfl, rfl⟩ := Prod.mk.inj heq
    exact ⟨hv, hg'⟩
  · intro h
    exact ⟨u, h.1, List.mem_map.mpr ⟨g, h.2, rfl⟩⟩

/-- The slabs of a gap that some rounds have queried for a ticker. -/
def Queried (qs : List Query) (g : Window) (u : Ticker) (w : Window) : Prop :=
  ∃ q ∈ qs, q.gap = g ∧ u ∈ q.chunk ∧ q.slab = w

theorem mem_gap_queries {r : Window × List Ticker} {q : Query} (h : q ∈ gap_queries r) :
    q.gap = r.1 ∧ q.slab ∈ slabs r.1 ∧ ∀ u ∈ q.chunk, u ∈ r.2 := by
  obtain ⟨slab, hslab, hq⟩ := List.mem_flatMap.mp h
  obtain ⟨chunk, hchunk, rfl⟩ := List.mem_map.mp hq
  exact ⟨rfl, hslab, fun u hu => mem_of_mem_chunks hchunk hu⟩

/-- A ticker of a gap is in a chunk of every slab. -/
theorem queried_all {r : Window × List Ticker} {u : Ticker} (hu : u ∈ r.2) (done : List Window)
    (w : Window) :
    Queried (done.flatMap (fun slab => (chunks ticker_chunk r.2).map
      (fun chunk => ({ gap := r.1, slab := slab, chunk := chunk } : Query)))) r.1 u w ↔
      w ∈ done := by
  constructor
  · intro h
    obtain ⟨q, hq, _, _, rfl⟩ := h
    obtain ⟨slab, hslab, hq⟩ := List.mem_flatMap.mp hq
    obtain ⟨chunk, _, rfl⟩ := List.mem_map.mp hq
    exact hslab
  · intro h
    obtain ⟨chunk, hchunk, hin⟩ := exists_mem_chunks (k := ticker_chunk) (by decide) hu
    exact ⟨_, List.mem_flatMap.mpr ⟨w, h, List.mem_map.mpr ⟨chunk, hchunk, rfl⟩⟩, rfl, hin, rfl⟩

/-- Broken off anywhere, a gap has its first slabs queried for a ticker. -/
theorem gap_broken_off {r : Window × List Ticker} {u : Ticker} (hu : u ∈ r.2) {qs : List Query}
    (h : qs <+: gap_queries r) :
    ∃ done, done <+: slabs r.1 ∧ ∀ w, Queried qs r.1 u w ↔ w ∈ done := by
  obtain ⟨done, rest, part, hsplit, rfl, hpart⟩ := prefix_flatMap h
  have hfull := queried_all hu done
  have happend : ∀ w, Queried (done.flatMap (fun slab => (chunks ticker_chunk r.2).map
      (fun chunk => ({ gap := r.1, slab := slab, chunk := chunk } : Query))) ++ part) r.1 u w ↔
      w ∈ done ∨ Queried part r.1 u w := by
    intro w
    rw [← hfull w]
    unfold Queried
    simp only [List.mem_append, or_and_right, exists_or]
  rcases hpart with rfl | ⟨slab, later, rfl, hpart⟩
  · refine ⟨done, ⟨rest, hsplit.symm⟩, fun w => ?_⟩
    rw [happend w]
    simp [Queried]
  · -- the part may or may not have reached the chunk of this ticker
    have hslab : ∀ q ∈ part, q.slab = slab ∧ q.gap = r.1 := by
      intro q hq
      obtain ⟨chunk, _, rfl⟩ := List.mem_map.mp (hpart.subset hq)
      exact ⟨rfl, rfl⟩
    by_cases hreached : ∃ q ∈ part, u ∈ q.chunk
    · refine ⟨done ++ [slab], ⟨later, by rw [hsplit]; simp⟩, fun w => ?_⟩
      rw [happend w, List.mem_append, List.mem_singleton]
      refine or_congr_right ⟨fun hq => ?_, fun hw => ?_⟩
      · obtain ⟨q, hq, _, _, rfl⟩ := hq
        exact (hslab q hq).1
      · obtain ⟨q, hq, hin⟩ := hreached
        subst hw
        exact ⟨q, hq, (hslab q hq).2, hin, (hslab q hq).1⟩
    · refine ⟨done, ⟨slab :: later, hsplit.symm⟩, fun w => ?_⟩
      rw [happend w]
      exact or_iff_left (fun hq => hreached (by
        obtain ⟨q, hq, _, hin, _⟩ := hq
        exact ⟨q, hq, hin⟩))

/-- **Broken off anywhere**, a call has the first slabs of each gap queried
    for each of its tickers. -/
theorem plan_broken_off {caches : Caches} {tickers : List Ticker} {start finish : ℤ}
    {qs : List Query} (h : qs <+: queries caches tickers start finish) {u : Ticker}
    (hu : u ∈ tickers) {g : Window} (hg : g ∈ missing_ranges (caches u) start finish) :
    ∃ done, done <+: slabs g ∧ ∀ w, Queried qs g u w ↔ w ∈ done := by
  obtain ⟨r, hr, rfl, hur⟩ := mem_ranges.mpr ⟨hu, hg⟩
  have hnodup := (ranges_collected caches tickers start finish).nodup
  obtain ⟨full, rest, part, hsplit, rfl, hpart⟩ := prefix_flatMap h
  -- rounds of other gaps do not count
  have hother : ∀ (l : List (Window × List Ticker)) w, r.1 ∉ l.map Prod.fst →
      ¬ Queried (l.flatMap gap_queries) r.1 u w := by
    intro l w hl hq
    obtain ⟨q, hq, hgap, _, _⟩ := hq
    obtain ⟨r', hr', hq⟩ := List.mem_flatMap.mp hq
    exact hl (List.mem_map.mpr ⟨r', hr', (mem_gap_queries hq).1.symm.trans hgap⟩)
  have happend : ∀ (l m : List Query) w,
      Queried (l ++ m) r.1 u w ↔ Queried l r.1 u w ∨ Queried m r.1 u w := by
    intro l m w
    unfold Queried
    simp only [List.mem_append, or_and_right, exists_or]
  rw [hsplit] at hr
  rw [hsplit, List.map_append, List.nodup_append] at hnodup
  obtain ⟨hnodup_full, hnodup_rest, hdisjoint⟩ := hnodup
  have hpart_gap : ∀ x later, rest = x :: later → part <+: gap_queries x → x.1 ≠ r.1 →
      ∀ w, ¬ Queried part r.1 u w := by
    intro x later _ hpre hne w hq
    obtain ⟨q, hq, hgap, _, _⟩ := hq
    exact hne ((mem_gap_queries (hpre.subset hq)).1.symm.trans hgap)
  rcases List.mem_append.mp hr with hin | hin
  · -- a gap that is done
    refine ⟨slabs r.1, List.prefix_refl _, fun w => ?_⟩
    obtain ⟨before, after, rfl⟩ := List.append_of_mem hin
    rw [List.map_append, List.map_cons, List.nodup_append] at hnodup_full
    obtain ⟨_, hafter, hbefore⟩ := hnodup_full
    have hpart_none : ¬ Queried part r.1 u w := by
      rcases hpart with rfl | ⟨x, later, rfl, hpre⟩
      · simp [Queried]
      · refine hpart_gap x later rfl hpre (fun hx => ?_) w
        exact hdisjoint r.1 (by simp) x.1 (by simp) hx.symm
    rw [happend, List.flatMap_append, List.flatMap_cons, happend, happend]
    have hown := queried_all hur (slabs r.1) w
    rw [or_iff_left hpart_none, or_iff_right (hother before w (fun hb =>
      hbefore r.1 hb r.1 List.mem_cons_self rfl)),
      or_iff_left (hother after w (List.nodup_cons.mp hafter).1)]
    exact hown
  · have hfull_none : ∀ w, ¬ Queried (full.flatMap gap_queries) r.1 u w := by
      intro w
      refine hother full w (fun hb => ?_)
      exact hdisjoint r.1 hb r.1 (List.mem_map.mpr ⟨r, hin, rfl⟩) rfl
    rcases hpart with rfl | ⟨x, later, rfl, hpre⟩
    · refine ⟨[], List.nil_prefix, fun w => ?_⟩
      rw [happend]
      simpa [Queried] using hfull_none w
    · rcases List.mem_cons.mp hin with rfl | hlater
      · -- the gap that is broken off
        obtain ⟨done, hdone, hiff⟩ := gap_broken_off hur hpre
        refine ⟨done, hdone, fun w => ?_⟩
        rw [happend, or_iff_right (hfull_none w)]
        exact hiff w
      · -- a gap not begun
        refine ⟨[], List.nil_prefix, fun w => ?_⟩
        have hne : x.1 ≠ r.1 := by
          intro hx
          rw [List.map_cons, List.nodup_cons] at hnodup_rest
          exact hnodup_rest.1 (hx ▸ List.mem_map.mpr ⟨r, hlater, rfl⟩)
        rw [happend]
        simpa [hfull_none w] using hpart_gap x later rfl hpre hne w

/-- A whole plan queries every slab. -/
theorem plan_complete {caches : Caches} {tickers : List Ticker} {start finish : ℤ} {u : Ticker}
    (hu : u ∈ tickers) {g : Window} (hg : g ∈ missing_ranges (caches u) start finish) {w : Window}
    (hw : w ∈ slabs g) : Queried (queries caches tickers start finish) g u w := by
  obtain ⟨r, hr, rfl, hur⟩ := mem_ranges.mpr ⟨hu, hg⟩
  obtain ⟨q, hq, hrest⟩ := (queried_all hur (slabs r.1) w).mpr hw
  exact ⟨q, List.mem_flatMap.mpr ⟨r, hr, hq⟩, hrest⟩

/-- A round asks for a slab of a gap of every ticker of its chunk. -/
theorem mem_queries {caches : Caches} {tickers : List Ticker} {start finish : ℤ} {q : Query}
    (hq : q ∈ queries caches tickers start finish) :
    ∀ u ∈ q.chunk, u ∈ tickers ∧ q.gap ∈ missing_ranges (caches u) start finish ∧
      q.slab ∈ slabs q.gap := by
  intro u hu
  obtain ⟨r, hr, hq⟩ := List.mem_flatMap.mp hq
  obtain ⟨hgap, hslab, hsub⟩ := mem_gap_queries hq
  obtain ⟨htickers, hmissing⟩ := mem_ranges.mp ⟨r, hr, rfl, hsub u hu⟩
  rw [hgap]
  exact ⟨htickers, hmissing, hslab⟩

end History
