import BacktestVisualizer.Framework.StableSort
import BacktestVisualizer.Reporting.LotBook

/-! # Tickers Are Independent Books

  The rows of one ticker depend on the fills of that ticker alone. The place
  of a fill in the log only breaks ties of time, and the place of a lot in the
  opening order only orders the open rows, so neither carries anything from
  one book to another.
-/

namespace Reporting

/-! ### The place in the log -/

/-- The fill as it would be at another place in the log. -/
def Fill.at_index (j : ℕ) (fill : Fill) : Fill :=
  { fill with sort_key := (fill.sort_key.1, j) }

theorem number_at {index : ℕ} {field : FillField} {raw : RawNumber} {q : ℚ}
    (h : number index field raw = .ok q) (j : ℕ) : number j field raw = .ok q := by
  rw [number_ok h]
  rfl

theorem timestamp_at {index : ℕ} {raw : RawTime} {m : Moment} (h : timestamp index raw = .ok m)
    (j : ℕ) : timestamp j raw = .ok m := by
  cases raw with
  | moment => exact h
  | day => exact h
  | text parsed =>
    cases parsed with
    | none => simp [timestamp] at h
    | some => exact h
  | unusable => simp [timestamp] at h

theorem direction_at {index : ℕ} {raw : Signal} {d : Direction} (h : direction index raw = .ok d)
    (j : ℕ) : direction j raw = .ok d := by
  cases raw with
  | buy => exact h
  | sell => exact h
  | hold => simp [direction] at h
  | invalid => simp [direction] at h

theorem ticker_at {index : ℕ} {raw : Option Ticker} {t : Ticker} (h : ticker index raw = .ok t)
    (j : ℕ) : ticker j raw = .ok t := by
  rw [ticker_ok h]
  rfl

/-- **A valid fill** is taken over alike at any place. -/
theorem normalise_fill_at {zone : Option Zone} {index : ℕ} {raw : RawFill} {found : Option Fill}
    (h : normalise_fill zone index raw = .ok found) (j : ℕ) :
    normalise_fill zone j raw = .ok (found.map (Fill.at_index j)) := by
  unfold normalise_fill at h ⊢
  obtain ⟨quantity, hshares, hrest⟩ := Fallible.bind_ok h
  split at hrest
  · rename_i hdust
    obtain rfl := Except.ok.inj hrest
    -- dust is dropped before anything else is read
    simp only [number_at hshares j, bind, Except.bind, if_pos hdust]
    rfl
  rename_i hmore
  obtain ⟨moment, hmoment, hrest⟩ := Fallible.bind_ok hrest
  simp only at hrest
  split at hrest
  · rename_i hmissing
    obtain ⟨_, hnone, hrest⟩ := Fallible.bind_ok hrest
    obtain rfl := Except.ok.inj hnone
    obtain ⟨way, hway, hrest⟩ := Fallible.bind_ok hrest
    obtain ⟨t, hticker, hrest⟩ := Fallible.bind_ok hrest
    obtain ⟨price, hprice, hrest⟩ := Fallible.bind_ok hrest
    obtain rfl := Except.ok.inj hrest
    simp only [number_at hshares j, timestamp_at hmoment j, direction_at hway j,
      ticker_at hticker j, number_at hprice j, if_neg hmore, if_pos hmissing, bind, Except.bind,
      pure, Except.pure]
    rfl
  · rename_i hfee
    obtain ⟨fees, hfees, hrest⟩ := Fallible.bind_ok hrest
    obtain ⟨way, hway, hrest⟩ := Fallible.bind_ok hrest
    obtain ⟨t, hticker, hrest⟩ := Fallible.bind_ok hrest
    obtain ⟨price, hprice, hrest⟩ := Fallible.bind_ok hrest
    obtain rfl := Except.ok.inj hrest
    simp only [number_at hshares j, timestamp_at hmoment j, number_at hfees j, direction_at hway j,
      ticker_at hticker j, number_at hprice j, if_neg hmore, if_neg hfee, bind, Except.bind, pure,
      Except.pure]
    rfl

/-! ### Normalising one ticker -/

/-- What `_normalise` makes of a fill, its place aside. -/
def kept (zone : Option Zone) (raw : RawFill) : Option Fill :=
  ((normalise_fill zone 0 raw).toOption).join

instance : IsTrans Fill fill_le where
  trans a b c hab hbc := by
    unfold fill_le at *
    omega

instance : Std.Total fill_le where
  total a b := by
    unfold fill_le
    omega

/-- The fills found, at place 0, and the places they were found at. -/
theorem found_fills {zone : Option Zone} {fills : List RawFill} {found : List (Option Fill)} {k : ℕ}
    (h : (fills.zipIdx k).mapM (fun x => normalise_fill zone x.2 x.1) = .ok found) :
    (found.filterMap id).map (Fill.at_index 0) = fills.filterMap (kept zone) ∧
    (found.filterMap id).Pairwise (fun a b => a.sort_key.2 ≤ b.sort_key.2) ∧
    ∀ fill ∈ found.filterMap id, k ≤ fill.sort_key.2 := by
  have hall := Fallible.forall₂_of_mapM_ok h
  clear h
  induction fills generalizing found k with
  | nil =>
    rw [List.zipIdx_nil] at hall
    cases hall
    simp
  | cons raw fills ih =>
    rw [List.zipIdx_cons] at hall
    cases hall with
    | @cons _ o _ found hok hrest =>
      obtain ⟨hmap, hordered, hplaces⟩ := ih hrest
      have hkept : kept zone raw = o.map (Fill.at_index 0) := by
        unfold kept
        rw [normalise_fill_at hok 0]
        rfl
      cases o with
      | none =>
        rw [List.filterMap_cons_none (by rfl), List.filterMap_cons_none hkept]
        exact ⟨hmap, hordered, fun fill hfill => le_trans (Nat.le_succ k) (hplaces fill hfill)⟩
      | some fill =>
        have hplace : fill.sort_key.2 = k := by
          have hagain := normalise_fill_at hok k
          rw [hok] at hagain
          have hsame : some fill = some (fill.at_index k) := Except.ok.inj hagain
          rw [Option.some.inj hsame]
          rfl
        rw [List.filterMap_cons_some (by rfl), List.filterMap_cons_some hkept, List.map_cons, hmap]
        refine ⟨rfl, List.pairwise_cons.mpr ⟨fun b hb => ?_, hordered⟩, fun b hb => ?_⟩
        · have := hplaces b hb
          omega
        · rcases List.mem_cons.mp hb with rfl | hb
          · exact le_of_eq hplace.symm
          · have := hplaces b hb
            omega

/-- **Normalising**, places aside, is a stable sort of what each fill becomes. -/
theorem normalise_at_zero {zone : Option Zone} {fills : List RawFill} {normalised : List Fill}
    (h : normalise fills zone = .ok normalised) :
    normalised.map (Fill.at_index 0) = (fills.filterMap (kept zone)).insertionSort fill_le := by
  obtain ⟨found, hfound, hrest⟩ := Fallible.bind_ok h
  obtain rfl := Except.ok.inj hrest
  obtain ⟨hmap, hordered, _⟩ := found_fills hfound
  rw [StableSort.map_insertionSort (s := fill_le), hmap]
  apply hordered.imp
  intro a b hplaces
  simp only [fill_le, Fill.at_index]
  omega

/-- The fills of one ticker, raw or normalised. -/
theorem filter_kept (zone : Option Zone) (t : Ticker) (fills : List RawFill) :
    of_ticker t (fills.filterMap (kept zone)) = (raw_of t fills).filterMap (kept zone) := by
  have hticker : ∀ raw fill, kept zone raw = some fill → raw.ticker = some fill.ticker := by
    intro raw fill hkept
    unfold kept at hkept
    cases hok : normalise_fill zone 0 raw with
    | error e =>
      rw [hok] at hkept
      exact absurd hkept (by simp [Except.toOption])
    | ok found =>
      rw [hok] at hkept
      obtain rfl : found = some fill := by simpa [Except.toOption] using hkept
      cases normalise_fill_normalised hok with
      | kept hticker => exact hticker
  induction fills with
  | nil => rfl
  | cons raw fills ih =>
    rw [raw_of_cons]
    cases hkept : kept zone raw with
    | none =>
      rw [List.filterMap_cons_none hkept, ih]
      split
      · rw [List.filterMap_cons_none hkept]
      · rfl
    | some fill =>
      rw [List.filterMap_cons_some hkept, of_ticker_cons, hticker raw fill hkept, ih]
      by_cases ht : fill.ticker = t
      · rw [if_pos ht, if_pos (congrArg some ht), List.filterMap_cons_some hkept]
      · rw [if_neg ht, if_neg (fun heq => ht (Option.some.inj heq))]

/-- Valid fills stay valid without the others. -/
theorem normalise_raw_of {zone : Option Zone} {fills : List RawFill} {normalised : List Fill}
    (h : normalise fills zone = .ok normalised) (t : Ticker) :
    ∃ own, normalise (raw_of t fills) zone = .ok own ∧
      own.map (Fill.at_index 0) = (of_ticker t normalised).map (Fill.at_index 0) := by
  obtain ⟨found, hfound, _⟩ := Fallible.bind_ok h
  have hvalid : ∀ raw ∈ fills, ∀ j, ∃ o, normalise_fill zone j raw = .ok o := by
    intro raw hraw j
    obtain ⟨i, hi⟩ := List.getElem?_of_mem hraw
    obtain ⟨o, ho⟩ := Fallible.ok_of_mapM_ok hfound (raw, i) (List.mem_zipIdx_iff_getElem?.mpr hi)
    exact ⟨_, normalise_fill_at ho j⟩
  have hown : ∃ own, normalise (raw_of t fills) zone = .ok own := by
    obtain ⟨r, hr⟩ := Fallible.exists_mapM_ok (f := fun x => normalise_fill zone x.2 x.1)
      (raw_of t fills).zipIdx (by
        rintro ⟨raw, j⟩ hmem
        have hraw := List.mem_of_getElem? (List.mem_zipIdx_iff_getElem?.mp hmem)
        exact hvalid raw (List.mem_of_mem_filter hraw) j)
    refine ⟨(r.filterMap id).insertionSort fill_le, ?_⟩
    unfold normalise
    rw [hr]
    rfl
  obtain ⟨own, hown⟩ := hown
  refine ⟨own, hown, ?_⟩
  rw [normalise_at_zero hown, ← filter_kept, of_ticker, ← StableSort.filter_insertionSort,
    ← normalise_at_zero h, List.filter_map]
  rfl

/-! ### Pairing one ticker -/

/-- Pairing does not look at the place of a fill. -/
theorem close_lots_at (j : ℕ) (fill : Fill) (lots : List Lot) (remaining : ℚ) :
    close_lots (fill.at_index j) lots remaining = close_lots fill lots remaining := by
  induction lots generalizing remaining with
  | nil => rfl
  | cons lot lots ih =>
    simp only [close_lots, ih]
    rfl

theorem pair_all_at (j : ℕ) (fills : List Fill) :
    pair_all (fills.map (Fill.at_index j)) = pair_all fills := by
  have hstep : ∀ s fill, pair_fill s (Fill.at_index j fill) = pair_fill s fill := by
    intro s fill
    unfold pair_fill
    rw [close_lots_at]
    rfl
  unfold pair_all
  rw [List.foldl_map]
  simp only [hstep]

/-- The lot without its place in the opening order. -/
def Lot.unplaced (lot : Lot) : Lot := { lot with open_index := 0 }

/-- Nor at the places of the lots. -/
theorem close_lots_unplaced (fill : Fill) (lots : List Lot) (remaining : ℚ) :
    let r := close_lots fill lots remaining
    close_lots fill (lots.map Lot.unplaced) remaining = (r.1, r.2.1.map Lot.unplaced, r.2.2) := by
  induction lots generalizing remaining with
  | nil => rfl
  | cons lot lots ih =>
    simp only [List.map_cons, close_lots]
    have hdirection : lot.unplaced.direction = lot.direction := rfl
    have hquantity : lot.unplaced.quantity = lot.quantity := rfl
    rw [hdirection, hquantity]
    split
    · split
      · rw [ih]
        rfl
      · rfl
    · rfl

theorem lots_after_unplaced (fill : Fill) (i j : ℕ) {r r' : List Row × List Lot × ℚ}
    (hlots : r.2.1.map Lot.unplaced = r'.2.1.map Lot.unplaced) (hremaining : r.2.2 = r'.2.2) :
    (lots_after fill i r).map Lot.unplaced = (lots_after fill j r').map Lot.unplaced := by
  unfold lots_after
  rw [← hremaining]
  split
  · rw [List.map_append, List.map_append, hlots]
    rfl
  · exact hlots

/-- **One ticker**: the fills of the others leave no trace in its rows. -/
theorem pair_all_of_ticker (t : Ticker) (fills : List Fill) :
    rows_of t (pair_all fills).closed = rows_of t (pair_all (of_ticker t fills)).closed ∧
    ((pair_all fills).open_lots t).map Lot.unplaced =
      ((pair_all (of_ticker t fills)).open_lots t).map Lot.unplaced := by
  induction fills using List.reverseRecOn with
  | nil => exact ⟨rfl, rfl⟩
  | append_singleton fills fill ih =>
    obtain ⟨hclosed, hopen⟩ := ih
    rw [pair_all_snoc, of_ticker_snoc]
    by_cases ht : fill.ticker = t
    · rw [if_pos ht, pair_all_snoc]
      obtain ⟨hopen₁, hclosed₁⟩ := pair_fill_own (s := pair_all fills) ht
      obtain ⟨hopen₂, hclosed₂⟩ := pair_fill_own (s := pair_all (of_ticker t fills)) ht
      -- both runs close the same lots, their places aside
      have hsame : close_lots fill (((pair_all fills).open_lots t).map Lot.unplaced) fill.quantity =
          close_lots fill (((pair_all (of_ticker t fills)).open_lots t).map Lot.unplaced)
            fill.quantity := by
        rw [hopen]
      rw [close_lots_unplaced, close_lots_unplaced] at hsame
      obtain ⟨hrows, hrest⟩ := Prod.mk.inj hsame
      obtain ⟨hlots, hremaining⟩ := Prod.mk.inj hrest
      constructor
      · rw [hclosed₁, hclosed₂, hclosed, hrows]
      · rw [hopen₁, hopen₂]
        exact lots_after_unplaced fill _ _ hlots hremaining
    · rw [if_neg ht, List.append_nil]
      obtain ⟨hopen', hclosed'⟩ := pair_fill_other (s := pair_all fills) ht
      rw [hopen', hclosed']
      exact ⟨hclosed, hopen⟩

/-- With the fills of one ticker there is nothing else. -/
theorem pair_all_only (t : Ticker) {fills : List Fill} (h : ∀ fill ∈ fills, fill.ticker = t) :
    rows_of t (pairing_rows (pair_all fills)) = pairing_rows (pair_all fills) := by
  have honly : (∀ row ∈ (pair_all fills).closed, row.symbol = t) ∧
      ∀ u, u ≠ t → (pair_all fills).open_lots u = [] := by
    induction fills using List.reverseRecOn with
    | nil => simp [pair_all, Pairing.start]
    | append_singleton fills fill ih =>
      obtain ⟨hclosed, hopen⟩ := ih (fun f hf => h f (List.mem_append_left _ hf))
      have ht := h fill (by simp)
      rw [pair_all_snoc]
      constructor
      · rw [(pair_fill_eq _ _).2.2]
        intro row hrow
        rcases List.mem_append.mp hrow with hold | hnew
        · exact hclosed row hold
        · rw [(close_lots_rows fill _ _ row hnew).1, ht]
      · intro u hu
        rw [(pair_fill_other (fun heq => hu (heq.symm.trans ht))).1]
        exact hopen u hu
  apply List.filter_eq_self.mpr
  intro row hrow
  rcases List.mem_append.mp hrow with hclosed | hopen
  · simpa using honly.1 row hclosed
  · obtain ⟨⟨u, lot⟩, hmem, rfl⟩ := List.mem_map.mp hopen
    have hlot := (mem_with_ticker (pair_all_booked fills)).mp hmem
    show decide (u = t) = true
    by_contra hu
    rw [honly.2 u (by simpa using hu)] at hlot
    exact absurd hlot List.not_mem_nil

/-- The rows of one ticker, in a report of all. -/
theorem rows_of_all (t : Ticker) (fills : List Fill) :
    rows_of t (pairing_rows (pair_all fills)) = pairing_rows (pair_all (of_ticker t fills)) := by
  obtain ⟨hclosed, hopen⟩ := pair_all_of_ticker t fills
  have hown : ∀ fill ∈ of_ticker t fills, fill.ticker = t := by
    intro fill hfill
    simpa using (List.mem_filter.mp hfill).2
  have honly := pair_all_only t hown
  have hrows : ∀ lots : List Lot,
      lots.map (open_row t) = (lots.map Lot.unplaced).map (open_row t) := by
    intro lots
    rw [List.map_map]
    rfl
  rw [← honly, rows_of_pairing (pair_all_booked _), rows_of_pairing (pair_all_booked _), hclosed,
    hrows, hopen, ← hrows]

/-! ### The report -/

/-- The rows of one ticker, without their numbers. -/
def ticker_rows (t : Ticker) (trades : List TradeRow) : List Row :=
  (trades.filter (fun trade => trade.symbol = t)).map (fun trade => trade.toRow)

theorem ticker_rows_numbered (t : Ticker) (rows : List Row) :
    ticker_rows t (numbered rows) = rows_of t rows := by
  unfold ticker_rows rows_of
  conv_rhs => rw [← (numbered_seq rows).2]
  rw [List.filter_map]
  rfl

/-- **Tickers are independent books**: the rows of a ticker are the rows of its
    fills alone, so lists of fills that agree ticker by ticker have the same
    rows ticker by ticker. -/
theorem tickers_are_independent (zone : Option Zone) :
    (∀ fills trades, pair_fills fills zone = .ok trades → ∀ t,
      ∃ own, pair_fills (raw_of t fills) zone = .ok own ∧
        own.map (fun trade => trade.toRow) = ticker_rows t trades) ∧
    (∀ fills fills' trades trades', pair_fills fills zone = .ok trades →
      pair_fills fills' zone = .ok trades' → (∀ t, raw_of t fills = raw_of t fills') →
      ∀ t, ticker_rows t trades = ticker_rows t trades') := by
  have halone : ∀ fills trades, pair_fills fills zone = .ok trades → ∀ t,
      ∃ own, pair_fills (raw_of t fills) zone = .ok own ∧
        own.map (fun trade => trade.toRow) = ticker_rows t trades := by
    intro fills trades h t
    obtain ⟨normalised, hok, hrest⟩ := Fallible.bind_ok h
    obtain rfl := Except.ok.inj hrest
    obtain ⟨own, hown, hsame⟩ := normalise_raw_of hok t
    refine ⟨numbered (pairing_rows (pair_all own)), ?_, ?_⟩
    · unfold pair_fills
      rw [hown]
      rfl
    -- the index of a fill only orders it, and pairing looks at no index
    · have hbook : pair_all own = pair_all (of_ticker t normalised) := by
        rw [← pair_all_at 0 own, hsame, pair_all_at]
      have hrows := ticker_rows_numbered t (pairing_rows (pair_all normalised))
      rw [rows_of_all, ← hbook] at hrows
      rw [(numbered_seq _).2]
      exact hrows.symm
  refine ⟨halone, ?_⟩
  intro fills fills' trades trades' h h' hsame t
  obtain ⟨own, hown, hrows⟩ := halone fills trades h t
  obtain ⟨own', hown', hrows'⟩ := halone fills' trades' h' t
  rw [hsame t, hown'] at hown
  rw [← hrows, ← hrows', Except.ok.inj hown]

/-- A sale of MSFT. -/
def msft_fill : RawFill := { aapl_fill 2 .sell 2 with ticker := some ⟨"MSFT", msft_nonempty⟩ }

/-- Two tickers, in turn and one after the other. -/
theorem tickers_are_independent_swapped :
    ∃ trades trades',
      pair_fills [aapl_fill 1 .buy 3, msft_fill, aapl_fill 3 .sell 3] none = .ok trades ∧
      pair_fills [msft_fill, aapl_fill 1 .buy 3, aapl_fill 3 .sell 3] none = .ok trades' ∧
      ∀ t, ticker_rows t trades = ticker_rows t trades' := by
  have hvalid : (pair_fills [aapl_fill 1 .buy 3, msft_fill, aapl_fill 3 .sell 3]
        none).toOption.isSome ∧
      (pair_fills [msft_fill, aapl_fill 1 .buy 3, aapl_fill 3 .sell 3] none).toOption.isSome := by
    decide +kernel
  cases h : pair_fills [aapl_fill 1 .buy 3, msft_fill, aapl_fill 3 .sell 3] none with
  | error e =>
    rw [h] at hvalid
    exact absurd hvalid.1 (by simp [Except.toOption])
  | ok trades =>
    cases h' : pair_fills [msft_fill, aapl_fill 1 .buy 3, aapl_fill 3 .sell 3] none with
    | error e =>
      rw [h'] at hvalid
      exact absurd hvalid.2 (by simp [Except.toOption])
    | ok trades' =>
      refine ⟨trades, trades', rfl, rfl, ?_⟩
      apply (tickers_are_independent none).2 _ _ trades trades' h h'
      intro t
      simp only [raw_of_cons]
      -- each ticker sees its own fills in the same order
      by_cases ht : msft_fill.ticker = some t
      · have hne : ∀ wall signal shares, (aapl_fill wall signal shares).ticker ≠ some t := by
          intro wall signal shares heq
          exact absurd (heq.trans ht.symm) (by simp [aapl_fill, msft_fill])
        simp [ht, hne]
      · simp [ht]

end Reporting
