import BacktestVisualizer.Engine.EventLoop

/-! # What the Indicators of a Run See

  The warm-up feeds an indicator the days before the run, the first poll one
  row per ticker, and every later poll the rows since the last one, as far as
  the lookback window reaches. `indicators_fed_once` says when these three
  selections fit together: every bar of the run once and in order.
-/

open Timeline

namespace Engine

variable (bt : Backtest) (script : Script)

/-! ### The property and its condition -/

/-- No bar is fed twice, and none after a later one. -/
def InOrder (fed : List Update) : Prop := fed.Pairwise (fun u v => u.timestamp < v.timestamp)

/-- Every bar of the run up to `now` that has a price is fed. -/
def FedUpTo (i : Indicator) (now : ℤ) (fed : List Update) : Prop :=
  ∀ row ∈ bt.main_data, row.ticker = i.ticker → bt.backtest_loop_start_date ≤ row.timestamp →
    row.timestamp ≤ now → ∀ q, i.price row = some q →
      ∃ u ∈ fed, u.timestamp = row.timestamp ∧ u.data_point = q

/-- No two bars with a price share a timestamp. -/
def Distinct (i : Indicator) (rows : List Bar) : Prop :=
  rows.Pairwise (fun a b => i.price a ≠ none → i.price b ≠ none → a.timestamp ≠ b.timestamp)

/-- The bars of the ticker of an indicator between two instants. -/
def bars_between (i : Indicator) (after upto : ℤ) : List Bar :=
  bt.main_data.filter (fun row =>
    row.ticker = i.ticker ∧ after < row.timestamp ∧ row.timestamp ≤ upto)

/-- The bars of the ticker in the slice of a poll. -/
def bars_in_slice (i : Indicator) (now : ℤ) : List Bar :=
  (historical_slice bt now).filter (fun row => row.ticker = i.ticker)

/-- The slice of a poll reaches back over the bars since the last poll. -/
def Reaches (i : Indicator) (last now : ℤ) : Prop :=
  (∀ row ∈ bars_between bt i last now, i.price row ≠ none →
    now - bt.strategy_lookback_window ≤ row.timestamp) ∧
  Distinct i (bars_between bt i last now)

/-- If the slice of the first poll has a price, its newest bar is newer than
    what the warm-up fed; and the bars at the first timestamp agree on the
    price. -/
def StartsFresh (d : Declaration) (first : ℤ) : Prop :=
  (∀ newest, (bars_in_slice bt d.indicator first).getLast? = some newest →
    (∃ row ∈ bars_in_slice bt d.indicator first, d.indicator.price row ≠ none) →
    ∀ w ∈ warmup_rows d, d.indicator.price w ≠ none → w.timestamp < newest.timestamp) ∧
  ∀ a ∈ bt.main_data, ∀ b ∈ bt.main_data, a.ticker = d.indicator.ticker →
    b.ticker = d.indicator.ticker → a.timestamp = first → b.timestamp = first →
    ∀ p q, d.indicator.price a = some p → d.indicator.price b = some q → p = q

/-- The three selections fit together. -/
structure Aligned (d : Declaration) (polls : List ℤ) : Prop where
  warmup : Distinct d.indicator (warmup_rows d)
  first : ∀ first ∈ polls.head?, StartsFresh bt d first
  later : polls.IsChain (Reaches bt d.indicator)

/-! ### Updates in order -/

theorem in_order_append {fed new : List Update} :
    InOrder (fed ++ new) ↔ InOrder fed ∧ InOrder new ∧
      ∀ u ∈ fed, ∀ v ∈ new, u.timestamp < v.timestamp := List.pairwise_append

/-- The updates of sorted rows are in order if the rows are distinct. -/
theorem in_order_updates_iff {i : Indicator} {rows : List Bar}
    (hrows : Sorted Bar.timestamp rows) :
    InOrder (rows.filterMap (update_from_row i)) ↔ Distinct i rows := by
  unfold InOrder Distinct
  rw [List.pairwise_filterMap]
  constructor
  · intro h
    refine h.imp (fun {a b} hlt ha hb => ?_)
    obtain ⟨u, hu⟩ := exists_update_iff.mpr (Option.ne_none_iff_exists'.mp ha)
    obtain ⟨v, hv⟩ := exists_update_iff.mpr (Option.ne_none_iff_exists'.mp hb)
    have := hlt u hu v hv
    rw [(update_from_row_eq_some hu).1, (update_from_row_eq_some hv).1] at this
    exact ne_of_lt this
  · intro h
    refine (hrows.and h).imp (fun {a b} hab u hu v hv => ?_)
    obtain ⟨hle, hne⟩ := hab
    obtain ⟨hut, hup⟩ := update_from_row_eq_some hu
    obtain ⟨hvt, hvp⟩ := update_from_row_eq_some hv
    rw [hut, hvt]
    exact lt_of_le_of_ne hle (hne (by simp [hup]) (by simp [hvp]))

/-- What a poll feeds an indicator. -/
def poll_updates (i : Indicator) (last : Option ℤ) (now : ℤ) : List Update :=
  updates i (sort_bars (new_data last (historical_slice bt now)))

/-- The warm-up. -/
theorem add_indicator_fed (d : Declaration) :
    (add_indicator d).fed = (warmup_rows d).filterMap (update_from_row d.indicator) := by
  simp [add_indicator, foldl_update, Registered.indicator]

theorem add_indicator_declaration (d : Declaration) : (add_indicator d).declaration = d := by
  simp [add_indicator, foldl_update]

theorem warmup_rows_sorted (d : Declaration) : Sorted Bar.timestamp (warmup_rows d) :=
  List.pairwise_insertionSort _ _

/-- The warm-up ends before the run. -/
theorem warmup_rows_before {d : Declaration} (hd : d ∈ bt.indicators) {row : Bar}
    (h : row ∈ warmup_rows d) : row.timestamp < bt.backtest_loop_start_date := by
  have hmem : row ∈ d.warmup := by
    have := (List.perm_insertionSort _ _).mem_iff.mp h
    exact List.mem_of_mem_filter this
  exact bt.warmup_before d hd row hmem

/-! ### A later poll -/

section Later

variable {bt} {i : Indicator} {last now : ℤ} {fed : List Update}

/-- What a later poll feeds. -/
theorem later_updates_eq (hnow : ∃ row ∈ bt.main_data, row.timestamp = now) :
    poll_updates bt i (some last) now =
      ((bars_between bt i last now).filter (fun row =>
        now - bt.strategy_lookback_window ≤ row.timestamp)).filterMap (update_from_row i) := by
  have hsorted : Sorted Bar.timestamp (new_data (some last) (historical_slice bt now)) :=
    (historical_slice_sorted bt hnow).filter _
  unfold poll_updates
  rw [sort_bars_eq hsorted]
  unfold updates new_data bars_between
  rw [historical_slice_eq bt hnow, List.filter_filter, List.filter_filter, List.filter_filter]
  congr 1
  apply List.filter_congr
  intro row _
  simp only [← Bool.decide_and, decide_eq_decide]
  tauto

theorem mem_later_updates (hnow : ∃ row ∈ bt.main_data, row.timestamp = now) {u : Update} :
    u ∈ poll_updates bt i (some last) now ↔
      ∃ row ∈ bars_between bt i last now, now - bt.strategy_lookback_window ≤ row.timestamp ∧
        update_from_row i row = some u := by
  rw [later_updates_eq hnow]
  simp [List.mem_filterMap, and_assoc]

theorem mem_bars_between {row : Bar} :
    row ∈ bars_between bt i last now ↔
      row ∈ bt.main_data ∧ row.ticker = i.ticker ∧ last < row.timestamp ∧ row.timestamp ≤ now := by
  simp [bars_between]

/-- The bars of the slice are all bars with a price, if it reaches them. -/
theorem later_updates_reach (hnow : ∃ row ∈ bt.main_data, row.timestamp = now)
    (hreach : ∀ row ∈ bars_between bt i last now, i.price row ≠ none →
      now - bt.strategy_lookback_window ≤ row.timestamp) :
    poll_updates bt i (some last) now =
      (bars_between bt i last now).filterMap (update_from_row i) := by
  rw [later_updates_eq hnow, List.filterMap_filter]
  apply List.filterMap_congr
  intro row hrow
  cases hu : update_from_row i row with
  | none => simp
  | some u =>
    have hprice : i.price row ≠ none := by simp [(update_from_row_eq_some hu).2]
    simp [hreach row hrow hprice]

/-- **A later poll** keeps the feed in order and complete exactly when its
    slice reaches back to the last poll. -/
theorem later_poll_iff (hnow : ∃ row ∈ bt.main_data, row.timestamp = now) (hlt : last < now)
    (hstart : bt.backtest_loop_start_date ≤ last) (hfed : ∀ u ∈ fed, u.timestamp ≤ last) :
    (InOrder (fed ++ poll_updates bt i (some last) now) ∧
      FedUpTo bt i now
        (fed ++ poll_updates bt i (some last) now)) ↔
    (InOrder fed ∧ FedUpTo bt i last fed) ∧ Reaches bt i last now := by
  have hnew : ∀ v ∈ poll_updates bt i (some last) now,
      last < v.timestamp := by
    intro v hv
    obtain ⟨row, hrow, _, hu⟩ := (mem_later_updates hnow).mp hv
    rw [(update_from_row_eq_some hu).1]
    exact (mem_bars_between.mp hrow).2.2.1
  have hsorted : Sorted Bar.timestamp (bars_between bt i last now) :=
    bt.main_data_sorted.filter _
  constructor
  · intro h
    obtain ⟨horder, hall⟩ := h
    obtain ⟨hold, hneworder, _⟩ := in_order_append.mp horder
    have hreach : ∀ row ∈ bars_between bt i last now, i.price row ≠ none →
        now - bt.strategy_lookback_window ≤ row.timestamp := by
      intro row hrow hprice
      obtain ⟨hmem, ht, hafter, hle⟩ := mem_bars_between.mp hrow
      obtain ⟨q, hq⟩ := Option.ne_none_iff_exists'.mp hprice
      obtain ⟨u, hu, huts, _⟩ := hall row hmem ht (by omega) hle q hq
      rcases List.mem_append.mp hu with hufed | hunew
      · have := hfed u hufed
        omega
      · obtain ⟨row', _, hreach', hu'⟩ := (mem_later_updates hnow).mp hunew
        rw [← huts, (update_from_row_eq_some hu').1]
        exact hreach'
    refine ⟨⟨hold, fun row hrow ht hts hle q hq => ?_⟩, hreach, ?_⟩
    · obtain ⟨u, hu, huts, hdata⟩ := hall row hrow ht hts (by omega) q hq
      rcases List.mem_append.mp hu with hufed | hunew
      · exact ⟨u, hufed, huts, hdata⟩
      · have := hnew u hunew
        omega
    · rw [later_updates_reach hnow hreach, in_order_updates_iff hsorted] at hneworder
      exact hneworder
  · intro h
    obtain ⟨⟨hold, hall⟩, hreach, hdistinct⟩ := h
    constructor
    · rw [in_order_append]
      refine ⟨hold, ?_, fun u hu v hv => lt_of_le_of_lt (hfed u hu) (hnew v hv)⟩
      rw [later_updates_reach hnow hreach, in_order_updates_iff hsorted]
      exact hdistinct
    · intro row hrow ht hts hle q hq
      by_cases hafter : last < row.timestamp
      · have hbar : row ∈ bars_between bt i last now :=
          mem_bars_between.mpr ⟨hrow, ht, hafter, hle⟩
        obtain ⟨u, hu⟩ := exists_update_iff.mpr ⟨q, hq⟩
        obtain ⟨huts, hdata⟩ := update_from_row_eq_some hu
        refine ⟨u, List.mem_append_right _ ((mem_later_updates hnow).mpr ⟨row, hbar, ?_, hu⟩),
          huts, Option.some.inj (hdata.symm.trans hq)⟩
        exact hreach row hbar (by simp [hq])
      · obtain ⟨u, hu, huts, hdata⟩ := hall row hrow ht hts (not_lt.mp hafter) q hq
        exact ⟨u, List.mem_append_left _ hu, huts, hdata⟩

end Later

/-! ### The first poll -/

section First

variable {bt} {i : Indicator} {now : ℤ}

/-- The price of the row of a group is the last price of the group. -/
theorem price_last_of_group {group : List Bar} {row : Bar} (h : last_of_group group = some row) :
    i.price row = (group.filterMap i.price).getLast? := by
  obtain ⟨newest, _, rfl⟩ := Option.map_eq_some_iff.mp h
  have hcell : ∀ c, i.data_col = c → i.price = fun row => (row.cell c).join := by
    intro c hc
    funext row
    rw [Indicator.price, hc]
  cases hc : i.data_col with
  | missing name =>
    rw [hcell _ hc]
    simp [Bar.cell]
  | _ =>
    rw [hcell _ hc]
    simp [Bar.cell, last_value]

theorem last_of_group_ticker {t : Ticker} {rows : List Bar} {row : Bar}
    (h : last_of_group (rows.filter (fun row => row.ticker = t)) = some row) : row.ticker = t := by
  obtain ⟨newest, hnewest, rfl⟩ := Option.map_eq_some_iff.mp h
  simpa using (newest_mem hnewest).2

/-- Of one row per ticker, those of one ticker. -/
theorem filter_groups (rows : List Bar) (t : Ticker) {tickers : List Ticker}
    (hnodup : tickers.Nodup) (hall : t ∉ tickers → rows.filter (fun row => row.ticker = t) = []) :
    (tickers.filterMap (fun t => last_of_group (rows.filter (fun row => row.ticker = t)))).filter
        (fun row => row.ticker = t) =
      (last_of_group (rows.filter (fun row => row.ticker = t))).toList := by
  induction tickers with
  | nil => simp [hall (by simp), last_of_group]
  | cons u tickers ih =>
    obtain ⟨hu, htail⟩ := List.nodup_cons.mp hnodup
    rw [List.filterMap_cons]
    by_cases hut : u = t
    · subst hut
      -- no later group is of the ticker
      have hrest : (tickers.filterMap (fun t =>
          last_of_group (rows.filter (fun row => row.ticker = t)))).filter
            (fun row => row.ticker = u) = [] := by
        rw [List.filter_eq_nil_iff]
        intro row hrow hticker
        obtain ⟨t, ht, hlast⟩ := List.mem_filterMap.mp hrow
        have := last_of_group_ticker hlast
        simp only [decide_eq_true_eq] at hticker
        rw [← this, hticker] at ht
        exact hu ht
      cases hlast : last_of_group (rows.filter (fun row => row.ticker = u)) with
      | none => simpa using hrest
      | some row =>
        rw [List.filter_cons_of_pos (by simpa using last_of_group_ticker hlast), hrest]
        rfl
    · have hne : t ≠ u := fun h => hut h.symm
      have ih' := ih htail (fun h => hall (by simp [hne, h]))
      cases hlast : last_of_group (rows.filter (fun row => row.ticker = u)) with
      | none => exact ih'
      | some row =>
        have hticker := last_of_group_ticker hlast
        rw [List.filter_cons_of_neg (by simpa [hticker] using hut)]
        exact ih'

/-- The first poll takes one row of the ticker. -/
theorem first_new_data (hnow : ∃ row ∈ bt.main_data, row.timestamp = now) :
    (sort_bars (new_data none (historical_slice bt now))).filter
      (fun row => row.ticker = i.ticker) = (last_of_group (bars_in_slice bt i now)).toList := by
  have hrows : (new_data none (historical_slice bt now)).filter (fun row => row.ticker = i.ticker) =
      (last_of_group (bars_in_slice bt i now)).toList := by
    unfold new_data
    simp only [sort_bars_eq (historical_slice_sorted bt hnow)]
    apply filter_groups _ _ (List.nodup_dedup _)
    intro hnone
    rw [List.filter_eq_nil_iff]
    intro row hrow ht
    apply hnone
    rw [List.mem_dedup, List.mem_map]
    exact ⟨row, hrow, by simpa using ht⟩
  have hperm : ((sort_bars (new_data none (historical_slice bt now))).filter
      (fun row => row.ticker = i.ticker)).Perm
        (last_of_group (bars_in_slice bt i now)).toList := by
    rw [← hrows]
    exact (List.perm_insertionSort _ _).filter _
  cases hlast : last_of_group (bars_in_slice bt i now) with
  | none =>
    rw [hlast] at hperm
    exact List.perm_nil.mp hperm
  | some row =>
    rw [hlast] at hperm
    exact List.perm_singleton.mp hperm

/-- **The first poll** feeds one update, at the newest bar of the slice and
    with its last price, if the slice has a price. -/
theorem first_updates_cases (hnow : ∃ row ∈ bt.main_data, row.timestamp = now) :
    ((∀ row ∈ bars_in_slice bt i now, i.price row = none) ∧
      poll_updates bt i none now = []) ∨
    (∃ newest u, (bars_in_slice bt i now).getLast? = some newest ∧
      poll_updates bt i none now = [u] ∧
      u.timestamp = newest.timestamp ∧
      ((bars_in_slice bt i now).filterMap i.price).getLast? = some u.data_point) := by
  have hupdates : poll_updates bt i none now =
      (last_of_group (bars_in_slice bt i now)).toList.filterMap (update_from_row i) := by
    unfold poll_updates updates
    rw [first_new_data hnow]
  rw [hupdates]
  cases hnewest : (bars_in_slice bt i now).getLast? with
  | none =>
    have hnil := List.getLast?_eq_none_iff.mp hnewest
    left
    simp [hnil, last_of_group]
  | some newest =>
    obtain ⟨row, hrow⟩ : ∃ row, last_of_group (bars_in_slice bt i now) = some row :=
      ⟨_, by unfold last_of_group; rw [hnewest]; rfl⟩
    have hts : row.timestamp = newest.timestamp := by
      unfold last_of_group at hrow
      rw [hnewest] at hrow
      rw [← Option.some.inj hrow]
    have hprice : i.price row = ((bars_in_slice bt i now).filterMap i.price).getLast? :=
      price_last_of_group hrow
    rw [hrow]
    cases hlast : ((bars_in_slice bt i now).filterMap i.price).getLast? with
    | none =>
      left
      rw [hlast] at hprice
      have hnil := List.getLast?_eq_none_iff.mp hlast
      constructor
      · intro row' hrow'
        exact List.filterMap_eq_nil_iff.mp hnil row' hrow'
      · cases hu : update_from_row i row with
        | none => simp [hu]
        | some u => simp [(update_from_row_eq_some hu).2] at hprice
    | some q =>
      right
      rw [hlast] at hprice
      obtain ⟨u, hu⟩ := exists_update_iff.mpr ⟨q, hprice⟩
      obtain ⟨huts, hdata⟩ := update_from_row_eq_some hu
      exact ⟨newest, u, rfl, by simp [hu], huts.trans hts, hprice.symm.trans hdata⟩

/-- What the warm-up fed. -/
theorem mem_warmup {d : Declaration} {u : Update} :
    u ∈ (add_indicator d).fed ↔
      ∃ w ∈ warmup_rows d, update_from_row d.indicator w = some u := by
  rw [add_indicator_fed, List.mem_filterMap]

/-- **The first poll** keeps the feed in order and complete exactly when it
    starts fresh. -/
theorem first_poll_iff {d : Declaration} (hd : d ∈ bt.indicators)
    (hlook : 0 ≤ bt.strategy_lookback_window) (hrun : [now] <+: loop_timestamps bt) :
    (InOrder ((add_indicator d).fed ++
        poll_updates bt d.indicator none now) ∧
      FedUpTo bt d.indicator now ((add_indicator d).fed ++
        poll_updates bt d.indicator none now)) ↔
    InOrder (add_indicator d).fed ∧ StartsFresh bt d now := by
  have hfirst : [] ++ [now] <+: loop_timestamps bt := hrun
  obtain ⟨hnow, hstart⟩ := exists_bar bt hfirst
  -- the bars of the run up to its first timestamp are those at it
  have hat : ∀ row ∈ bt.main_data, bt.backtest_loop_start_date ≤ row.timestamp →
      row.timestamp ≤ now → row.timestamp = now := by
    intro row hrow hts hle
    have hnot : ¬ row.timestamp < now := fun hlt =>
      absurd ((mem_before bt hfirst hrow).mpr ⟨hts, hlt⟩) (by simp)
    omega
  have hwarm : ∀ u ∈ (add_indicator d).fed, u.timestamp < bt.backtest_loop_start_date := by
    intro u hu
    obtain ⟨w, hw, hwu⟩ := mem_warmup.mp hu
    rw [(update_from_row_eq_some hwu).1]
    exact warmup_rows_before bt hd hw
  have hslice : ∀ row, row ∈ bars_in_slice bt d.indicator now ↔ row ∈ bt.main_data ∧
      (now - bt.strategy_lookback_window ≤ row.timestamp ∧ row.timestamp ≤ now) ∧
      row.ticker = d.indicator.ticker := by
    intro row
    unfold bars_in_slice
    rw [historical_slice_eq bt hnow]
    simp only [List.mem_filter, decide_eq_true_eq, and_assoc]
  have hsorted : Sorted Bar.timestamp (bars_in_slice bt d.indicator now) :=
    (historical_slice_sorted bt hnow).filter _
  rcases first_updates_cases (i := d.indicator) hnow with
    ⟨hnone, hempty⟩ | ⟨newest, u, hnewest, hone, huts, hdata⟩
  · -- no price in the slice: nothing is fed, and nothing has to be
    rw [hempty, List.append_nil]
    constructor
    · intro h
      refine ⟨h.1, fun _ _ hsome => ?_, fun a ha b hb hat' hbt hanow _ p q hp _ => ?_⟩
      · obtain ⟨row, hrow, hprice⟩ := hsome
        exact absurd (hnone row hrow) hprice
      · have hmem := (hslice a).mpr ⟨ha, ⟨by omega, by omega⟩, hat'⟩
        rw [hnone a hmem] at hp
        exact absurd hp (by simp)
    · intro h
      refine ⟨h.1, fun row hrow ht hts hle q hq => ?_⟩
      have hrownow := hat row hrow hts hle
      have hmem := (hslice row).mpr ⟨hrow, ⟨by omega, hle⟩, ht⟩
      rw [hnone row hmem] at hq
      exact absurd hq (by simp)
  · rw [hone]
    constructor
    · intro h
      obtain ⟨horder, hall⟩ := h
      obtain ⟨hold, _, hcross⟩ := in_order_append.mp horder
      refine ⟨hold, fun newest' hnewest' _ w hw hprice => ?_,
        fun a ha b hb hat' hbt hanow hbnow p q hp hq => ?_⟩
      · obtain rfl : newest = newest' := Option.some.inj (hnewest.symm.trans hnewest')
        obtain ⟨v, hv⟩ := exists_update_iff.mpr (Option.ne_none_iff_exists'.mp hprice)
        have hlt := hcross v (mem_warmup.mpr ⟨w, hw, hv⟩) u (by simp)
        rw [(update_from_row_eq_some hv).1, huts] at hlt
        exact hlt
      · have hfed : ∀ row ∈ bt.main_data, row.ticker = d.indicator.ticker →
            row.timestamp = now → ∀ q, d.indicator.price row = some q → u.data_point = q := by
          intro row hrow ht hts q hq
          obtain ⟨v, hv, hvts, hvdata⟩ := hall row hrow ht (by omega) (by omega) q hq
          rcases List.mem_append.mp hv with hvwarm | hvnew
          · have := hwarm v hvwarm
            omega
          · rw [List.mem_singleton.mp hvnew] at hvdata
            exact hvdata
        exact (hfed a ha hat' hanow p hp).symm.trans (hfed b hb hbt hbnow q hq)
    · intro h
      obtain ⟨hold, hnewer, hagree⟩ := h
      obtain ⟨priced, hpriced, hprice⟩ := newest_value hdata
      obtain ⟨hmem, hsome⟩ := newest_mem hpriced
      constructor
      · rw [in_order_append]
        refine ⟨hold, List.pairwise_singleton _ _, fun v hv v' hv' => ?_⟩
        rw [List.mem_singleton.mp hv', huts]
        obtain ⟨w, hw, hwu⟩ := mem_warmup.mp hv
        obtain ⟨hvts, hvprice⟩ := update_from_row_eq_some hwu
        rw [hvts]
        exact hnewer newest hnewest ⟨priced, hmem, by simp [hprice]⟩ w hw (by simp [hvprice])
      · intro row hrow ht hts hle q hq
        have hrownow := hat row hrow hts hle
        have hrowmem := (hslice row).mpr ⟨hrow, ⟨by omega, hle⟩, ht⟩
        -- the newest bar and the newest priced one are at the first timestamp
        have hpricednow : row.timestamp ≤ priced.timestamp :=
          key_le_newest hsorted hpriced hrowmem (by simp [hq])
        have hnewestnow : row.timestamp ≤ newest.timestamp := by
          have hself : (bars_in_slice bt d.indicator now).filter (fun _ => true) =
              bars_in_slice bt d.indicator now := List.filter_eq_self.mpr (fun _ _ => rfl)
          rw [← hself] at hnewest
          exact key_le_newest hsorted hnewest hrowmem rfl
        have hnewestmem := (hslice newest).mp (List.mem_of_getLast? hnewest)
        have hpricedmem := (hslice priced).mp hmem
        refine ⟨u, by simp, by omega, ?_⟩
        exact hagree priced hpricedmem.1 row hrow hpricedmem.2.2 ht (by omega) hrownow _ _
          hprice hq

end First

/-! ### The run -/

/-- The portfolio remembers its last poll. -/
theorem last_processed_run (hlook : 0 ≤ bt.strategy_lookback_window) {timestamps : List ℤ}
    (hrun : timestamps <+: loop_timestamps bt) :
    (run_event_loop bt script timestamps).last_processed_timestamp =
      (poll_times bt timestamps).getLast? := by
  induction timestamps using List.reverseRecOn with
  | nil => rfl
  | append_singleton timestamps now ih =>
    have hslice := historical_slice_nonempty bt hlook (exists_bar bt hrun).1
    rw [run_event_loop_snoc, poll_times_snoc, ← last_poll_time_run bt script]
    unfold loop_step
    simp only
    split
    · simp [poll, record_performance, hslice, generate_signals_and_trade]
    · exact ih ((List.prefix_append _ _).trans hrun)

/-- A step feeds every indicator on its own, at a poll. -/
theorem indicators_step (hlook : 0 ≤ bt.strategy_lookback_window) {timestamps : List ℤ} {now : ℤ}
    (hrun : timestamps ++ [now] <+: loop_timestamps bt) :
    (run_event_loop bt script (timestamps ++ [now])).indicators =
      if due bt (poll_times bt timestamps).getLast? now then
        (run_event_loop bt script timestamps).indicators.map (fun st =>
          { st with fed := st.fed ++
              poll_updates bt st.indicator (poll_times bt timestamps).getLast? now })
      else (run_event_loop bt script timestamps).indicators := by
  have hslice := historical_slice_nonempty bt hlook (exists_bar bt hrun).1
  have hprocessed := last_processed_run bt script hlook ((List.prefix_append _ _).trans hrun)
  rw [run_event_loop_snoc, ← last_poll_time_run bt script]
  unfold loop_step
  simp only
  split
  · rw [last_poll_time_run, ← hprocessed]
    simp only [poll, record_performance, if_neg hslice, generate_signals_and_trade]
    exact update_indicators_eq _ _ _
  · rfl

theorem aligned_snoc {d : Declaration} {polls : List ℤ} {now : ℤ} :
    Aligned bt d (polls ++ [now]) ↔ Aligned bt d polls ∧
      (polls = [] → StartsFresh bt d now) ∧
      ∀ last ∈ polls.getLast?, Reaches bt d.indicator last now := by
  constructor
  · intro h
    obtain ⟨hwarm, hfirst, hlater⟩ := h
    rw [List.isChain_append] at hlater
    refine ⟨⟨hwarm, fun first hin => hfirst first ?_, hlater.1⟩, fun hnil => ?_,
      fun last hlast => hlater.2.2 last hlast now (by simp)⟩
    · cases polls with
      | nil => simp at hin
      | cons p polls => exact hin
    · subst hnil
      exact hfirst now (by simp)
  · intro h
    obtain ⟨⟨hwarm, hfirst, hlater⟩, hfresh, hreach⟩ := h
    refine ⟨hwarm, fun first hin => ?_, ?_⟩
    · cases polls with
      | nil =>
        obtain rfl : now = first := by simpa using hin
        exact hfresh rfl
      | cons p polls => exact hfirst first hin
    · rw [List.isChain_append]
      refine ⟨hlater, List.isChain_singleton _, fun last hlast now' hnow' => ?_⟩
      obtain rfl : now = now' := by simpa using hnow'
      exact hreach last hlast

/-- What a run keeps for an indicator: its feed is in order and complete
    exactly as far as the selections fit together. -/
structure FeedInv (timestamps : List ℤ) (st : Registered) : Prop where
  declared : st.declaration ∈ bt.indicators
  fresh : poll_times bt timestamps = [] → st = add_indicator st.declaration
  bounded : ∀ last ∈ (poll_times bt timestamps).getLast?, ∀ u ∈ st.fed, u.timestamp ≤ last
  iff : (InOrder st.fed ∧
      ∀ now ∈ (poll_times bt timestamps).getLast?, FedUpTo bt st.indicator now st.fed) ↔
    Aligned bt st.declaration (poll_times bt timestamps)

theorem feed_inv_init {d : Declaration} (hd : d ∈ bt.indicators) :
    FeedInv bt [] (add_indicator d) := by
  have hdecl := add_indicator_declaration d
  refine ⟨by rw [hdecl]; exact hd, fun _ => by rw [hdecl], fun last hlast => by simp at hlast, ?_⟩
  rw [hdecl, add_indicator_fed, in_order_updates_iff (warmup_rows_sorted d)]
  constructor
  · intro h
    exact ⟨h.1, fun _ hfirst => by simp at hfirst, by simp⟩
  · intro h
    exact ⟨h.warmup, fun _ hlast => by simp at hlast⟩

/-- What a poll feeds is not newer than the poll. -/
theorem updates_le {i : Indicator} {now : ℤ} (hnow : ∃ row ∈ bt.main_data, row.timestamp = now)
    (last : Option ℤ) :
    ∀ u ∈ poll_updates bt i last now, u.timestamp ≤ now := by
  intro u hu
  cases last with
  | some last =>
    obtain ⟨row, hrow, _, hrowu⟩ := (mem_later_updates hnow).mp hu
    rw [(update_from_row_eq_some hrowu).1]
    exact (mem_bars_between.mp hrow).2.2.2
  | none =>
    rcases first_updates_cases (i := i) hnow with
      ⟨_, hempty⟩ | ⟨newest, v, hnewest, hone, hvts, _⟩
    · rw [hempty] at hu
      exact absurd hu (by simp)
    · rw [hone] at hu
      rw [List.mem_singleton.mp hu, hvts]
      have hmem := List.mem_of_getLast? hnewest
      unfold bars_in_slice at hmem
      rw [historical_slice_eq bt hnow] at hmem
      simp only [List.mem_filter, decide_eq_true_eq] at hmem
      exact hmem.1.2.2

/-- **One poll** keeps the invariant. -/
theorem feed_inv_poll {timestamps : List ℤ} {now : ℤ}
    (hlook : 0 ≤ bt.strategy_lookback_window)
    (hrun : timestamps ++ [now] <+: loop_timestamps bt)
    (hdue : due bt (poll_times bt timestamps).getLast? now = true) {st : Registered}
    (h : FeedInv bt timestamps st) :
    FeedInv bt (timestamps ++ [now])
      { st with fed := st.fed ++
          poll_updates bt st.indicator (poll_times bt timestamps).getLast? now } := by
  obtain ⟨hnow, hstart⟩ := exists_bar bt hrun
  have hsnoc : poll_times bt (timestamps ++ [now]) = poll_times bt timestamps ++ [now] := by
    rw [poll_times_snoc, if_pos hdue]
  have hpoll : ∀ last ∈ (poll_times bt timestamps).getLast?,
      bt.backtest_loop_start_date ≤ last ∧ last < now := by
    intro last hlast
    have hmem : last ∈ timestamps :=
      (poll_times_sublist bt timestamps).subset (List.mem_of_getLast? hlast)
    have hin : last ∈ loop_timestamps bt := hrun.subset (List.mem_append_left _ hmem)
    exact ⟨((mem_loop_timestamps bt).mp hin).2, before_lt bt hrun last hmem⟩
  have hbounded : ∀ u ∈ st.fed, u.timestamp ≤ now := by
    intro u hu
    cases hlast : (poll_times bt timestamps).getLast? with
    | some last =>
      have := h.bounded last hlast u hu
      have := (hpoll last hlast).2
      omega
    | none =>
      rw [h.fresh (List.getLast?_eq_none_iff.mp hlast)] at hu
      obtain ⟨w, hw, hwu⟩ := mem_warmup.mp hu
      have := warmup_rows_before bt h.declared hw
      rw [(update_from_row_eq_some hwu).1]
      omega
  refine ⟨h.declared, fun hnil => by simp [hsnoc] at hnil, fun last hlast u hu => ?_, ?_⟩
  · obtain rfl : now = last := by simpa [hsnoc] using hlast
    rcases List.mem_append.mp hu with hold | hnew
    · exact hbounded u hold
    · exact updates_le bt hnow _ u hnew
  · rw [hsnoc, aligned_snoc, ← h.iff]
    simp only [List.getLast?_append, List.getLast?_singleton, Option.some_or, Option.mem_def,
      Option.some.injEq, forall_eq']
    cases hlast : (poll_times bt timestamps).getLast? with
    | some last =>
      have hne : poll_times bt timestamps ≠ [] := by
        intro hnil
        simp [hnil] at hlast
      obtain ⟨hlaststart, hlt⟩ := hpoll last hlast
      have hiff := later_poll_iff (i := st.indicator) hnow hlt hlaststart (h.bounded last hlast)
      simp only [Option.some.injEq, forall_eq', hne, false_implies, true_and]
      exact hiff
    | none =>
      have hnil := List.getLast?_eq_none_iff.mp hlast
      have htimestamps := poll_times_eq_nil bt hnil
      subst htimestamps
      have hiff := first_poll_iff h.declared hlook hrun
      rw [← h.fresh hnil] at hiff
      simp only [hnil, reduceCtorEq, false_implies, implies_true, and_true, true_implies]
      exact hiff

theorem feed_inv_run (hlook : 0 ≤ bt.strategy_lookback_window) {timestamps : List ℤ}
    (hrun : timestamps <+: loop_timestamps bt) :
    ∀ st ∈ (run_event_loop bt script timestamps).indicators, FeedInv bt timestamps st := by
  induction timestamps using List.reverseRecOn with
  | nil =>
    intro st hst
    obtain ⟨d, hd, rfl⟩ := List.mem_map.mp hst
    exact feed_inv_init bt hd
  | append_singleton timestamps now ih =>
    intro st hst
    have hold := ih ((List.prefix_append _ _).trans hrun)
    rw [indicators_step bt script hlook hrun] at hst
    by_cases hdue : due bt (poll_times bt timestamps).getLast? now = true
    · rw [if_pos hdue] at hst
      obtain ⟨st', hst', rfl⟩ := List.mem_map.mp hst
      exact feed_inv_poll bt hlook hrun hdue (hold st' hst')
    · rw [if_neg hdue] at hst
      have hsame : poll_times bt (timestamps ++ [now]) = poll_times bt timestamps := by
        rw [poll_times_snoc, if_neg hdue]
      obtain ⟨hdecl, hfresh, hbounded, hiff⟩ := hold st hst
      refine ⟨hdecl, ?_, ?_, ?_⟩
      · rw [hsame]
        exact hfresh
      · rw [hsame]
        exact hbounded
      · rw [hsame]
        exact hiff

/-- **What an indicator sees.** In every run whose poll interval is no longer
    than the lookback window, the bars fed to an indicator by its warm-up and
    by the polls so far have increasing timestamps and include every priced
    bar of the run up to the last poll exactly when the warm-up, the first
    poll and the later polls are aligned. -/
theorem indicators_fed_once {timestamps : List ℤ} (hrun : timestamps <+: loop_timestamps bt)
    (hinterval : 0 ≤ bt.poll_interval)
    (hlook : bt.poll_interval ≤ bt.strategy_lookback_window) {st : Registered}
    (hst : st ∈ (run_event_loop bt script timestamps).indicators) :
    (InOrder st.fed ∧
      ∀ now ∈ (poll_times bt timestamps).getLast?, FedUpTo bt st.indicator now st.fed) ↔
    Aligned bt st.declaration (poll_times bt timestamps) :=
  (feed_inv_run bt script (le_trans hinterval hlook) hrun st hst).iff

/-! ### A bar the warm-up has fed -/

/-- A moving average of the closes of `AAPL`, warmed up on one bar. -/
def close_average : Declaration where
  indicator :=
    { ticker := tick_a, price_col := some .close_price, vol_col := none, high_col := none
      low_col := none, close_col := none, takes_columns := true }
  kwargs_price_col := none
  kwargs_close_col := none
  warmup := [bar_at (-10) tick_a (some 10)]

/-- A run with that indicator over some bars. -/
def feed_backtest (rows : List Bar) (h : Sorted Bar.timestamp rows) : Backtest where
  cfg :=
    { initial_capital := 1000, tickers := [tick_a, tick_b], leverage := 1, slippage := 0
      cost_model := none, adv_lookup := fun _ => 0, sigma_lookup := fun _ => 0
      commission_per_share := 0, commission_nonneg := no_commission_nonneg, sentiment_gate := none }
  portfolio_id := "p"
  weights := .absent
  poll_interval := 0
  strategy_lookback_window := 100
  zone := { offset_at := fun _ => 0, offset_of_wall := fun _ => 0 }
  has_order_manager := false
  backtest_loop_start_date := 0
  frame := rows
  main_data := rows
  main_data_perm := List.Perm.refl _
  main_data_sorted := h
  indicators := [close_average]
  indicator_tickers := by simp [close_average]
  warmup_before := by simp [close_average, bar_at]

def no_orders : Script where
  children := fun _ => []
  on_data := fun _ => []

/-- `AAPL` has no bar at the first timestamp of the run. -/
def late_bars : List Bar :=
  [bar_at (-10) tick_a (some 10), bar_at 0 tick_b (some 20), bar_at 5 tick_a (some 11)]

theorem late_bars_sorted : Sorted Bar.timestamp late_bars := by
  simp [Sorted, late_bars, bar_at]

/-- The first poll feeds the last bar of the warm-up again. -/
theorem warmup_bar_fed_twice :
    [0, 5] <+: loop_timestamps (feed_backtest late_bars late_bars_sorted) ∧
    (run_event_loop (feed_backtest late_bars late_bars_sorted) no_orders [0, 5]).indicators.map
      (fun st => st.fed.map Update.timestamp) = [[-10, -10, 5]] ∧
    ∃ st ∈ (run_event_loop (feed_backtest late_bars late_bars_sorted) no_orders
      [0, 5]).indicators, ¬ InOrder st.fed := by
  have hfed : (run_event_loop (feed_backtest late_bars late_bars_sorted) no_orders
      [0, 5]).indicators.map (fun st => st.fed.map Update.timestamp) = [[-10, -10, 5]] := by
    decide +kernel
  refine ⟨by decide +kernel, hfed, ?_⟩
  obtain ⟨st, hst, heq⟩ := List.mem_map.mp
    (show [-10, -10, 5] ∈ _ from hfed ▸ List.mem_singleton_self _)
  refine ⟨st, hst, fun horder => ?_⟩
  have hlt : (st.fed.map Update.timestamp).Pairwise (· < ·) := List.pairwise_map.mpr horder
  rw [heq] at hlt
  exact absurd hlt (by decide)

/-- `AAPL` has a bar at the first timestamp. -/
def punctual_bars : List Bar := [bar_at 0 tick_a (some 10), bar_at 5 tick_a (some 11)]

theorem punctual_bars_sorted : Sorted Bar.timestamp punctual_bars := by
  simp [Sorted, punctual_bars, bar_at]

/-- Then its bars are fed once and in order. -/
theorem punctual_bars_fed_once :
    ∃ st, (run_event_loop (feed_backtest punctual_bars punctual_bars_sorted) no_orders
        [0, 5]).indicators = [st] ∧ InOrder st.fed ∧
      FedUpTo (feed_backtest punctual_bars punctual_bars_sorted) st.indicator 5 st.fed := by
  obtain ⟨st, hall⟩ : ∃ st, (run_event_loop (feed_backtest punctual_bars punctual_bars_sorted)
      no_orders [0, 5]).indicators = [st] := List.length_eq_one_iff.mp (by decide +kernel)
  have hst : st ∈ (run_event_loop (feed_backtest punctual_bars punctual_bars_sorted) no_orders
      [0, 5]).indicators := by
    rw [hall]
    exact List.mem_singleton_self st
  have hrun : [0, 5] <+: loop_timestamps (feed_backtest punctual_bars punctual_bars_sorted) := by
    decide +kernel
  -- what is left are the conditions, each about five rows at most
  have hiff := indicators_fed_once (feed_backtest punctual_bars punctual_bars_sorted) no_orders
    hrun (by decide +kernel) (by decide +kernel) hst
  have hpolls : poll_times (feed_backtest punctual_bars punctual_bars_sorted) [0, 5] = [0, 5] := by
    decide +kernel
  have hdecl : st.declaration = close_average := by
    have hmap : (run_event_loop (feed_backtest punctual_bars punctual_bars_sorted) no_orders
        [0, 5]).indicators.map Registered.declaration = [close_average] := by decide +kernel
    rw [hall] at hmap
    exact (List.cons.inj hmap).1
  rw [hpolls, hdecl] at hiff
  have hslice : bars_in_slice (feed_backtest punctual_bars punctual_bars_sorted)
      close_average.indicator 0 = [bar_at 0 tick_a (some 10)] := by decide +kernel
  have hwarmup : warmup_rows close_average = [bar_at (-10) tick_a (some 10)] := by decide +kernel
  have hfresh : StartsFresh (feed_backtest punctual_bars punctual_bars_sorted) close_average 0 := by
    constructor
    · intro newest hnewest _ w hw _
      rw [hslice] at hnewest
      rw [hwarmup, List.mem_singleton] at hw
      rw [hw, ← Option.some.inj hnewest]
      decide
    · intro a ha b hb _ _ hanow hbnow p q hp hq
      have honly : ∀ row ∈ punctual_bars, row.timestamp = 0 → row = bar_at 0 tick_a (some 10) := by
        decide +kernel
      rw [honly a ha hanow] at hp
      rw [honly b hb hbnow] at hq
      exact Option.some.inj (hp.symm.trans hq)
  have hlater : Reaches (feed_backtest punctual_bars punctual_bars_sorted)
      close_average.indicator 0 5 := by
    unfold Reaches Distinct
    decide +kernel
  have hfirst : ∀ first ∈ ([0, 5] : List ℤ).head?,
      StartsFresh (feed_backtest punctual_bars punctual_bars_sorted) close_average first := by
    intro first hfirst
    obtain rfl : 0 = first := by simpa using hfirst
    exact hfresh
  obtain ⟨horder, hfed⟩ := hiff.mpr
    ⟨by unfold Distinct; decide +kernel, hfirst, by simpa using hlater⟩
  exact ⟨st, hall, horder, hfed 5 rfl⟩

end Engine
