import BacktestVisualizer.Reporting.TradePairing
import BacktestVisualizer.Engine.Ledger
import BacktestVisualizer.Framework.Fallible

/-! # The Trade Table Adds Up to the Equity

  The executor settles cash and shares, `pair_fills` matches the log first
  in first out, and `open_positions` marks what is left open. The module
  shows that the three agree: initial capital, realised gains, unrealised
  gains and fees add up to the equity the executor reports.

  The fills are whole shares, so the tolerance of the matching never drops
  any. What one fill does to the queue of its ticker is `close_lots_gain`:
  matching a lot turns part of its open gain, and of the gain the fill would
  have opened with, into realised gain.
-/

open Engine

namespace Reporting

/-! ### Whole shares -/

/-- A whole number of shares. -/
def whole (q : ℚ) : Prop := ∃ n : ℕ, q = n

theorem whole_nonneg {q : ℚ} (h : whole q) : 0 ≤ q := by
  obtain ⟨n, rfl⟩ := h
  exact Nat.cast_nonneg n

/-- The tolerance separates no shares from one share. -/
theorem eps_lt_iff {q : ℚ} (h : whole q) : eps < q ↔ 0 < q := by
  obtain ⟨n, rfl⟩ := h
  unfold eps
  constructor
  · intro hn
    exact lt_trans (by norm_num) hn
  · intro hn
    have hone : (1 : ℚ) ≤ n := by exact_mod_cast hn
    exact lt_of_lt_of_le (by norm_num) hone

theorem le_eps_iff {q : ℚ} (h : whole q) : q ≤ eps ↔ q = 0 := by
  rw [← not_lt, eps_lt_iff h, not_lt]
  exact ⟨fun hq => le_antisymm hq (whole_nonneg h), fun hq => by rw [hq]⟩

theorem whole_sub {a b : ℚ} (ha : whole a) (hb : whole b) (hle : b ≤ a) : whole (a - b) := by
  obtain ⟨n, rfl⟩ := ha
  obtain ⟨m, rfl⟩ := hb
  refine ⟨n - m, ?_⟩
  rw [Nat.cast_sub (by exact_mod_cast hle)]

theorem whole_min {a b : ℚ} (ha : whole a) (hb : whole b) : whole (min a b) := by
  rcases min_choice a b with h | h <;> rw [h]
  · exact ha
  · exact hb

/-! ### Gains -/

/-- What a lot has gained, marked at `mark`. -/
def Lot.gain (mark : ℚ) (lot : Lot) : ℚ := lot.direction.sign * lot.quantity * (mark - lot.price)

/-- The fees a lot still carries. -/
def Lot.fees (lot : Lot) : ℚ := lot.quantity * lot.fee_per_share

/-- What a fill would gain if all of it stayed open. -/
def Fill.gain (mark : ℚ) (fill : Fill) : ℚ :=
  fill.direction.sign * fill.quantity * (mark - fill.price)

def Fill.fees (fill : Fill) : ℚ := fill.quantity * fill.fee_per_share

/-- Every lot of a queue holds a whole number of shares, and at least one. -/
def WholeLots (lots : List Lot) : Prop := ∀ lot ∈ lots, whole lot.quantity ∧ 0 < lot.quantity

/-- Against a lot of the other direction a fill has the opposite sign. -/
theorem opposite_sign {d e : Direction} (h : d ≠ e) : d.sign = -e.sign := by
  cases d <;> cases e <;> simp_all [Direction.sign]

theorem round_trip_pnl (lot : Lot) (fill : Fill) (q mark : ℚ)
    (h : lot.direction ≠ fill.direction) :
    (round_trip lot fill q).pnl =
      lot.direction.sign * q * (mark - lot.price) +
        fill.direction.sign * q * (mark - fill.price) := by
  simp only [round_trip, opposite_sign h]
  ring

/-- **Matching a fill**: realised gain, what stays open of the queue and what
    stays of the fill add up to the queue and the fill; so do the fees. -/
theorem close_lots_gain (fill : Fill) (mark : ℚ) (lots : List Lot) (remaining : ℚ)
    (hlots : WholeLots lots) (hrem : whole remaining) :
    let r := close_lots fill lots remaining
    (r.1.map Row.pnl).sum + (r.2.1.map (Lot.gain mark)).sum +
        fill.direction.sign * r.2.2 * (mark - fill.price) =
      (lots.map (Lot.gain mark)).sum + fill.direction.sign * remaining * (mark - fill.price) ∧
    (r.1.map Row.fees).sum + (r.2.1.map Lot.fees).sum + r.2.2 * fill.fee_per_share =
      (lots.map Lot.fees).sum + remaining * fill.fee_per_share ∧
    WholeLots r.2.1 ∧ whole r.2.2 ∧ ∀ row ∈ r.1, row.exit_date ≠ none := by
  induction lots generalizing remaining with
  | nil => simp [close_lots, hlots, hrem]
  | cons lot lots ih =>
    obtain ⟨hwhole, hpos⟩ := hlots lot List.mem_cons_self
    have hrest : WholeLots lots := fun l hl => hlots l (List.mem_cons_of_mem _ hl)
    by_cases hmatch : eps < remaining ∧ lot.direction ≠ fill.direction
    · have hm : whole (min remaining lot.quantity) := whole_min hrem hwhole
      have hleft : whole (lot.quantity - min remaining lot.quantity) :=
        whole_sub hwhole hm (min_le_right _ _)
      have hrem' : whole (remaining - min remaining lot.quantity) :=
        whole_sub hrem hm (min_le_left _ _)
      have hpnl := round_trip_pnl lot fill (min remaining lot.quantity) mark hmatch.2
      by_cases hgone : lot.quantity - min remaining lot.quantity ≤ eps
      · have hall : min remaining lot.quantity = lot.quantity := by
          have := (le_eps_iff hleft).mp hgone
          linarith
        obtain ⟨hgain, hfees, hw, hr, hrows⟩ := ih _ hrest hrem'
        simp only [close_lots, if_pos hmatch, if_pos hgone]
        refine ⟨?_, ?_, hw, hr, ?_⟩
        · simp only [List.map_cons, List.sum_cons, hpnl]
          rw [hall] at hgain ⊢
          simp only [Lot.gain]
          linear_combination hgain
        · simp only [List.map_cons, List.sum_cons, round_trip]
          rw [hall] at hfees ⊢
          simp only [Lot.fees]
          linear_combination hfees
        · intro row hrow
          rcases List.mem_cons.mp hrow with rfl | hrow
          · simp [round_trip]
          · exact hrows row hrow
      · simp only [close_lots, if_pos hmatch, if_neg hgone]
        refine ⟨?_, ?_, ?_, hrem', by simp [round_trip]⟩
        · simp only [List.map_cons, List.map_nil, List.sum_cons, List.sum_nil, hpnl, Lot.gain]
          ring
        · simp only [List.map_cons, List.map_nil, List.sum_cons, List.sum_nil, round_trip,
            Lot.fees]
          ring
        · intro l hl
          rcases List.mem_cons.mp hl with rfl | hl
          · exact ⟨hleft, lt_of_le_of_ne (whole_nonneg hleft)
              (fun h => hgone ((le_eps_iff hleft).mpr h.symm))⟩
          · exact hrest l hl
    · simp [close_lots, if_neg hmatch, hlots, hrem]

/-! ### The pairing state -/

/-- The queues of the symbols seen so far hold whole shares, and no other
    queue holds anything; every row closed so far has an exit. -/
structure Pairing.WF (s : Pairing) : Prop where
  nodup : s.symbols.Nodup
  covered : ∀ t, t ∉ s.symbols → s.open_lots t = []
  lots : ∀ t, WholeLots (s.open_lots t)
  exits : ∀ row ∈ s.closed, row.exit_date ≠ none

/-- A quantity summed over the open lots. -/
def open_total (g : Ticker → Lot → ℚ) (s : Pairing) : ℚ :=
  (s.symbols.map (fun t => ((s.open_lots t).map (g t)).sum)).sum

/-- Replacing one queue changes the total by the difference of the queues. -/
theorem open_total_set (g : Ticker → Lot → ℚ) {s s' : Pairing} (hwf : s.WF) {t : Ticker}
    {lots : List Lot}
    (hsymbols : s'.symbols = if t ∈ s.symbols then s.symbols else s.symbols ++ [t])
    (hlots : s'.open_lots = set_lots s.open_lots t lots) :
    open_total g s' =
      open_total g s - ((s.open_lots t).map (g t)).sum + (lots.map (g t)).sum := by
  have hpoint : (fun u => ((s'.open_lots u).map (g u)).sum) =
      fun u => if u = t then (lots.map (g t)).sum else ((s.open_lots u).map (g u)).sum := by
    funext u
    by_cases hu : u = t
    · subst hu
      simp [hlots]
    · simp [hlots, hu]
  have hsum := List.sum_map_ite_eq s.symbols (fun _ => (lots.map (g t)).sum)
    (fun u => ((s.open_lots u).map (g u)).sum) t
  unfold open_total
  rw [hpoint, hsymbols]
  by_cases ht : t ∈ s.symbols
  · rw [if_pos ht, hsum, List.count_eq_one_of_mem hwf.nodup ht, one_smul]
    ring
  · rw [if_neg ht, List.map_append, List.sum_append, hsum, List.count_eq_zero_of_not_mem ht,
      zero_smul, hwf.covered t ht]
    simp

theorem start_wf : Pairing.start.WF := by
  constructor <;> simp [Pairing.start, WholeLots]

/-- What `pair_fill` puts in place of the queue of its ticker. -/
def lots_after (fill : Fill) (open_index : ℕ) (r : List Row × List Lot × ℚ) : List Lot :=
  if eps < r.2.2 then
    r.2.1 ++ [{ direction := fill.direction, quantity := r.2.2, price := fill.price,
                day := fill.day, fee_per_share := fill.fee_per_share, open_index := open_index }]
  else r.2.1

theorem pair_fill_eq (s : Pairing) (fill : Fill) :
    let r := close_lots fill (s.open_lots fill.ticker) fill.quantity
    (pair_fill s fill).symbols =
        (if fill.ticker ∈ s.symbols then s.symbols else s.symbols ++ [fill.ticker]) ∧
      (pair_fill s fill).open_lots =
        set_lots s.open_lots fill.ticker (lots_after fill s.open_index r) ∧
      (pair_fill s fill).closed = s.closed ++ r.1 := by
  intro r
  unfold pair_fill lots_after
  by_cases h : eps < r.2.2
  · simp only [r] at h
    simp [h, r]
  · simp only [r] at h
    simp [h, r]

/-- A whole fill of at least one share. -/
def WholeFill (fill : Fill) : Prop := whole fill.quantity ∧ 0 < fill.quantity

theorem pair_fill_wf {s : Pairing} (h : s.WF) {fill : Fill} (hfill : WholeFill fill) :
    (pair_fill s fill).WF := by
  obtain ⟨hsymbols, hlots, hclosed⟩ := pair_fill_eq s fill
  obtain ⟨_, _, hw, hr, hrows⟩ :=
    close_lots_gain fill 0 (s.open_lots fill.ticker) fill.quantity (h.lots _) hfill.1
  constructor
  · rw [hsymbols]
    by_cases ht : fill.ticker ∈ s.symbols
    · rw [if_pos ht]
      exact h.nodup
    · rw [if_neg ht]
      exact List.nodup_append.mpr ⟨h.nodup, by simp, by
        intro a ha b hb
        obtain rfl := List.mem_singleton.mp hb
        rintro rfl
        exact ht ha⟩
  · intro t ht
    rw [hsymbols] at ht
    have hne : t ≠ fill.ticker := by
      rintro rfl
      by_cases hmem : fill.ticker ∈ s.symbols
      · exact ht (by rw [if_pos hmem]; exact hmem)
      · exact ht (by rw [if_neg hmem]; simp)
    rw [hlots, set_lots_ne _ _ hne]
    refine h.covered t (fun hmem => ht ?_)
    by_cases hin : fill.ticker ∈ s.symbols
    · rwa [if_pos hin]
    · rw [if_neg hin]
      exact List.mem_append_left _ hmem
  · intro t
    rw [hlots]
    by_cases ht : t = fill.ticker
    · subst ht
      rw [set_lots_self]
      unfold lots_after
      by_cases heps : eps < (close_lots fill (s.open_lots fill.ticker) fill.quantity).2.2
      · rw [if_pos heps]
        intro lot hlot
        rcases List.mem_append.mp hlot with hold | hnew
        · exact hw lot hold
        · obtain rfl := List.mem_singleton.mp hnew
          exact ⟨hr, (eps_lt_iff hr).mp heps⟩
      · rw [if_neg heps]
        exact hw
    · rw [set_lots_ne _ _ ht]
      exact h.lots t
  · rw [hclosed]
    intro row hrow
    rcases List.mem_append.mp hrow with hold | hnew
    · exact h.exits row hold
    · exact hrows row hnew

/-- The lot that a fill leaves open is worth what is left of the fill. -/
theorem lots_after_sum (fill : Fill) (open_index : ℕ) {r : List Row × List Lot × ℚ}
    (hr : whole r.2.2) (mark : ℚ) :
    ((lots_after fill open_index r).map (Lot.gain mark)).sum =
      (r.2.1.map (Lot.gain mark)).sum + fill.direction.sign * r.2.2 * (mark - fill.price) ∧
    ((lots_after fill open_index r).map Lot.fees).sum =
      (r.2.1.map Lot.fees).sum + r.2.2 * fill.fee_per_share := by
  unfold lots_after
  by_cases heps : eps < r.2.2
  · rw [if_pos heps]
    simp [Lot.gain, Lot.fees]
  · have hzero : r.2.2 = 0 := (le_eps_iff hr).mp (not_lt.mp heps)
    rw [if_neg heps]
    simp [hzero]

/-- **One fill**: realised plus open gain grow by the gain of the fill. -/
theorem pair_fill_gain {s : Pairing} (h : s.WF) {fill : Fill} (hfill : WholeFill fill)
    (mark : Ticker → ℚ) :
    ((pair_fill s fill).closed.map Row.pnl).sum +
        open_total (fun t => Lot.gain (mark t)) (pair_fill s fill) =
      (s.closed.map Row.pnl).sum + open_total (fun t => Lot.gain (mark t)) s +
        fill.gain (mark fill.ticker) ∧
    ((pair_fill s fill).closed.map Row.fees).sum +
        open_total (fun _ => Lot.fees) (pair_fill s fill) =
      (s.closed.map Row.fees).sum + open_total (fun _ => Lot.fees) s + fill.fees := by
  obtain ⟨hsymbols, hlots, hclosed⟩ := pair_fill_eq s fill
  obtain ⟨hgain, hfees, _, hr, _⟩ := close_lots_gain fill (mark fill.ticker)
    (s.open_lots fill.ticker) fill.quantity (h.lots _) hfill.1
  obtain ⟨hafter, hafter_fees⟩ :=
    lots_after_sum fill s.open_index hr (mark fill.ticker)
  constructor
  · rw [open_total_set _ h hsymbols hlots, hclosed, List.map_append, List.sum_append, hafter]
    unfold Fill.gain
    linear_combination hgain
  · rw [open_total_set _ h hsymbols hlots, hclosed, List.map_append, List.sum_append, hafter_fees]
    unfold Fill.fees
    linear_combination hfees

theorem pair_all_snoc (fills : List Fill) (fill : Fill) :
    pair_all (fills ++ [fill]) = pair_fill (pair_all fills) fill := by
  simp [pair_all, List.foldl_append]

/-- **All fills**: realised plus open gain is the gain of the fills, whatever
    their order. -/
theorem pair_all_gain (fills : List Fill) (hfills : ∀ fill ∈ fills, WholeFill fill)
    (mark : Ticker → ℚ) :
    (pair_all fills).WF ∧
    ((pair_all fills).closed.map Row.pnl).sum +
        open_total (fun t => Lot.gain (mark t)) (pair_all fills) =
      (fills.map (fun fill => fill.gain (mark fill.ticker))).sum ∧
    ((pair_all fills).closed.map Row.fees).sum + open_total (fun _ => Lot.fees) (pair_all fills) =
      (fills.map Fill.fees).sum := by
  induction fills using List.reverseRecOn with
  | nil => exact ⟨start_wf, by simp [pair_all, Pairing.start, open_total]⟩
  | append_singleton fills fill ih =>
    obtain ⟨hwf, hgain, hfees⟩ := ih (fun f hf => hfills f (List.mem_append_left _ hf))
    have hfill := hfills fill (by simp)
    obtain ⟨hgain', hfees'⟩ := pair_fill_gain hwf hfill mark
    rw [pair_all_snoc]
    refine ⟨pair_fill_wf hwf hfill, ?_, ?_⟩
    · rw [hgain', hgain]
      simp
    · rw [hfees', hfees]
      simp

/-! ### From the log to the fills -/

/-- A log entry as `pair_fills` reads it. -/
def raw_fill (e : Entry) : RawFill where
  timestamp := match e.timestamp with
    | some m => .moment m
    | none => .unusable
  ticker := some e.ticker
  signal_type := match e.signal_type with
    | .buy => .buy
    | .sell => .sell
  shares := .number e.shares
  fill_price := .number e.fill_price
  fees := .number e.fees

/-- An entry of whole shares with a time. -/
structure WholeEntry (e : Entry) : Prop where
  shares : whole e.shares
  positive : 0 < e.shares
  dated : e.timestamp ≠ none

/-- The direction of the lot a fill opens. -/
def lot_direction : Side → Direction
  | .buy => .long
  | .sell => .short

theorem lot_direction_sign (side : Side) : (lot_direction side).sign = side.sign := by
  cases side <;> rfl

/-- `_normalise` takes every such entry over. -/
theorem normalise_entry (zone : Option Zone) (index : ℕ) {e : Entry} (h : WholeEntry e) :
    ∃ fill, normalise_fill zone index (raw_fill e) = .ok (some fill) ∧
      fill.direction = lot_direction e.signal_type ∧ fill.ticker = e.ticker ∧
      fill.quantity = e.shares ∧ fill.price = e.fill_price ∧
      fill.fee_per_share = e.fees / e.shares := by
  obtain ⟨m, hm⟩ := Option.ne_none_iff_exists'.mp h.dated
  have hmany : ¬ e.shares ≤ eps := not_le.mpr ((eps_lt_iff h.shares).mpr h.positive)
  cases hside : e.signal_type <;>
    exact ⟨_, by simp [normalise_fill, raw_fill, number, timestamp, direction, ticker, hm, hmany,
      hside, pure, Except.pure, bind, Except.bind]; rfl, rfl, rfl, rfl, rfl, rfl⟩

/-- The fill `_normalise` makes of an entry. -/
structure FillOf (e : Entry) (fill : Fill) : Prop where
  direction : fill.direction = lot_direction e.signal_type
  ticker : fill.ticker = e.ticker
  quantity : fill.quantity = e.shares
  price : fill.price = e.fill_price
  fee_per_share : fill.fee_per_share = e.fees / e.shares

/-- Before sorting, the fills follow the log one to one. -/
theorem normalise_fills (zone : Option Zone) (log : List Entry) (hlog : ∀ e ∈ log, WholeEntry e)
    (k : ℕ) :
    ∃ fills, ((log.map raw_fill).zipIdx k).mapM (fun x => normalise_fill zone x.2 x.1) =
        .ok (fills.map some) ∧ List.Forall₂ FillOf log fills := by
  induction log generalizing k with
  | nil => exact ⟨[], rfl, List.Forall₂.nil⟩
  | cons e log ih =>
    obtain ⟨fill, hok, hdir, hticker, hquantity, hprice, hfee⟩ :=
      normalise_entry zone k (hlog e List.mem_cons_self)
    obtain ⟨fills, hfills, hforall⟩ := ih (fun e' he' => hlog e' (List.mem_cons_of_mem _ he')) (k + 1)
    refine ⟨fill :: fills, ?_, List.Forall₂.cons ⟨hdir, hticker, hquantity, hprice, hfee⟩ hforall⟩
    rw [List.map_cons, List.zipIdx_cons, List.mapM_cons, hok, hfills]
    rfl

/-- The fills of a log are whole, and their gains and fees are those of the
    entries. -/
theorem fills_of_log {log : List Entry} {fills : List Fill} (h : List.Forall₂ FillOf log fills)
    (hlog : ∀ e ∈ log, WholeEntry e) (mark : Ticker → ℚ) :
    (∀ fill ∈ fills, WholeFill fill) ∧
    (fills.map (fun fill => fill.gain (mark fill.ticker))).sum =
      (log.map (fun e => e.signed_shares * (mark e.ticker - e.fill_price))).sum ∧
    (fills.map Fill.fees).sum = (log.map Entry.fees).sum := by
  induction h with
  | nil => simp
  | @cons e fill log fills hfill _ ih =>
    obtain ⟨hwhole, hgain, hfees⟩ := ih (fun e' he' => hlog e' (List.mem_cons_of_mem _ he'))
    have hentry := hlog e List.mem_cons_self
    refine ⟨?_, ?_, ?_⟩
    · intro f hf
      rcases List.mem_cons.mp hf with rfl | hf
      · unfold WholeFill
        rw [hfill.quantity]
        exact ⟨hentry.shares, hentry.positive⟩
      · exact hwhole f hf
    · rw [List.map_cons, List.map_cons, List.sum_cons, List.sum_cons, hgain, Fill.gain,
        hfill.direction, hfill.quantity, hfill.price, hfill.ticker, lot_direction_sign,
        Entry.signed_shares]
    · have hshares : e.shares ≠ 0 := ne_of_gt hentry.positive
      rw [List.map_cons, List.map_cons, List.sum_cons, List.sum_cons, hfees, Fill.fees,
        hfill.quantity, hfill.fee_per_share, mul_div_cancel₀ _ hshares]

/-- **Normalising the log**: no fill is dropped or refused, and sorting the
    fills changes no sum. -/
theorem normalise_log (zone : Option Zone) (log : List Entry) (hlog : ∀ e ∈ log, WholeEntry e)
    (mark : Ticker → ℚ) :
    ∃ fills, normalise (log.map raw_fill) zone = .ok fills ∧ (∀ fill ∈ fills, WholeFill fill) ∧
      (fills.map (fun fill => fill.gain (mark fill.ticker))).sum =
        (log.map (fun e => e.signed_shares * (mark e.ticker - e.fill_price))).sum ∧
      (fills.map Fill.fees).sum = (log.map Entry.fees).sum := by
  obtain ⟨fills, hok, hforall⟩ := normalise_fills zone log hlog 0
  obtain ⟨hwhole, hgain, hfees⟩ := fills_of_log hforall hlog mark
  have hperm : (fills.insertionSort fill_le).Perm fills := List.perm_insertionSort _ _
  refine ⟨fills.insertionSort fill_le, ?_, fun f hf => hwhole f (hperm.mem_iff.mp hf), ?_, ?_⟩
  · unfold normalise
    rw [hok]
    simp [bind, Except.bind, pure, Except.pure, List.filterMap_map]
  · rw [← hgain]
    exact (hperm.map _).sum_eq
  · rw [← hfees]
    exact (hperm.map _).sum_eq

/-! ### The rows of the report -/

/-- The lots left open, listed ticker by ticker or by age, sum to the same. -/
theorem with_ticker_sum (g : Ticker → Lot → ℚ) (s : Pairing) :
    ((with_ticker s).map (fun x => g x.1 x.2)).sum = open_total g s := by
  have hperm : (with_ticker s).Perm
      (s.symbols.flatMap (fun t => (s.open_lots t).map (fun lot => (t, lot)))) :=
    List.perm_insertionSort _ _
  rw [(hperm.map _).sum_eq]
  unfold open_total
  induction s.symbols with
  | nil => simp
  | cons t symbols ih =>
    rw [List.flatMap_cons, List.map_append, List.sum_append, ih]
    simp [List.map_map, Function.comp_def]

/-- Numbering the rows keeps every sum over them. -/
theorem sum_numbered (g : Row → ℚ) (rows : List Row) (keep : Row → Bool) (k : ℕ) :
    ((((rows.zipIdx k).map (fun x => ({ toRow := x.1, seq := x.2 } : TradeRow))).filter
        (fun trade => keep trade.toRow)).map (fun trade => g trade.toRow)).sum =
      ((rows.filter keep).map g).sum := by
  induction rows generalizing k with
  | nil => rfl
  | cons row rows ih =>
    rw [List.zipIdx_cons, List.map_cons]
    by_cases hkeep : keep row
    · rw [List.filter_cons_of_pos (by simpa using hkeep), List.filter_cons_of_pos hkeep,
        List.map_cons, List.sum_cons, ih, List.map_cons, List.sum_cons]
    · rw [List.filter_cons_of_neg (by simpa using hkeep), List.filter_cons_of_neg hkeep, ih]

/-- Sum of `pnl` over the closed rows. -/
def realized_pnl (trades : List TradeRow) : ℚ :=
  ((trades.filter (fun trade => trade.exit_date ≠ none)).map (fun trade => trade.pnl)).sum

/-- Sum of `unrealizedPnl` over the marked open rows; a row without a mark
    has none. -/
def unrealized_pnl (positions : List OpenPosition) : ℚ :=
  (positions.map (fun p => p.unrealized_pnl.getD 0)).sum

/-- Sum of `fees` over all rows. -/
def total_fees (trades : List TradeRow) : ℚ := (trades.map (fun trade => trade.fees)).sum

/-- The rows of `pair_fills`: first the round trips, then the open lots. -/
def pairing_rows (s : Pairing) : List Row :=
  s.closed ++ (with_ticker s).map (fun x => open_row x.1 x.2)

def numbered (rows : List Row) : List TradeRow :=
  rows.zipIdx.map (fun x => { toRow := x.1, seq := x.2 })

/-- Only round trips have an exit. -/
theorem closed_rows {s : Pairing} (h : s.WF) :
    (pairing_rows s).filter (fun row => row.exit_date ≠ none) = s.closed ∧
    (pairing_rows s).filter (fun row => row.exit_date = none) =
      (with_ticker s).map (fun x => open_row x.1 x.2) := by
  have hopen : ∀ row ∈ (with_ticker s).map (fun x => open_row x.1 x.2), row.exit_date = none := by
    intro row hrow
    obtain ⟨x, _, rfl⟩ := List.mem_map.mp hrow
    rfl
  unfold pairing_rows
  rw [List.filter_append, List.filter_append]
  constructor
  · rw [List.filter_eq_self.mpr (fun row hrow => by simpa using h.exits row hrow),
      List.filter_eq_nil_iff.mpr (fun row hrow => by simpa using hopen row hrow), List.append_nil]
  · rw [List.filter_eq_nil_iff.mpr (fun row hrow => by simpa using h.exits row hrow),
      List.filter_eq_self.mpr (fun row hrow => by simpa using hopen row hrow), List.nil_append]

theorem realized_pnl_numbered {s : Pairing} (h : s.WF) :
    realized_pnl (numbered (pairing_rows s)) = (s.closed.map Row.pnl).sum := by
  rw [← (closed_rows h).1]
  exact sum_numbered Row.pnl (pairing_rows s) (fun row => row.exit_date ≠ none) 0

theorem total_fees_numbered (s : Pairing) :
    total_fees (numbered (pairing_rows s)) =
      (s.closed.map Row.fees).sum + open_total (fun _ => Lot.fees) s := by
  have hall := sum_numbered Row.fees (pairing_rows s) (fun _ => true) 0
  simp only [List.filter_true] at hall
  unfold total_fees numbered
  rw [hall, pairing_rows, List.map_append, List.sum_append,
    ← with_ticker_sum (fun _ => Lot.fees) s, List.map_map]
  rfl

/-- At usable marks the open rows carry the gain of the open lots. -/
theorem unrealized_pnl_numbered {s : Pairing} (h : s.WF) (mark : Ticker → ℚ)
    (final_prices : Ticker → Option PyFloat)
    (hmark : ∀ trade ∈ numbered (pairing_rows s), trade.exit_date = none →
      usable_mark (final_prices trade.symbol) = some (mark trade.symbol)) :
    unrealized_pnl (open_positions (numbered (pairing_rows s)) final_prices) =
      open_total (fun t => Lot.gain (mark t)) s := by
  let gain : Row → ℚ := fun row =>
    row.side.sign * (mark row.symbol - row.entry_price) * row.quantity
  have hrow : ∀ trade ∈ (numbered (pairing_rows s)).filter (fun trade => trade.exit_date = none),
      ((fun p => p.unrealized_pnl.getD 0) ∘ open_position final_prices) trade =
        gain trade.toRow := by
    intro trade htrade
    obtain ⟨hmem, hopen⟩ := List.mem_filter.mp htrade
    simp [open_position, hmark trade hmem (by simpa using hopen), gain]
  unfold unrealized_pnl open_positions
  rw [List.map_map, List.map_congr_left hrow]
  calc (((numbered (pairing_rows s)).filter (fun trade => trade.exit_date = none)).map
          (fun trade => gain trade.toRow)).sum
      = (((pairing_rows s).filter (fun row => row.exit_date = none)).map gain).sum :=
        sum_numbered gain (pairing_rows s) (fun row => row.exit_date = none) 0
    _ = (((with_ticker s).map (fun x => open_row x.1 x.2)).map gain).sum := by
        rw [(closed_rows h).2]
    _ = ((with_ticker s).map (fun x => Lot.gain (mark x.1) x.2)).sum := by
        rw [List.map_map]
        congr 1
        apply List.map_congr_left
        intro x _
        simp only [Function.comp_def, gain, open_row, Lot.gain]
        ring
    _ = open_total (fun t => Lot.gain (mark t)) s :=
        with_ticker_sum (fun t => Lot.gain (mark t)) s

/-! ### The log of a run -/

/-- Price updates, and orders with a time on tickers of the universe. -/
def on_universe (cfg : Config) : Call → Prop
  | .update_price _ _ => True
  | .set_time _ => True
  | .execute_trade r => r.ticker ∈ cfg.tickers ∧ r.timestamp ≠ none
  | .execute_child_order _ _ => False

theorem on_universe_logged {cfg : Config} {c : Call} (hc : on_universe cfg c) (s : Executor) :
    Logged cfg s c := by
  rintro child timestamp _ _ _ rfl
  exact hc.elim

/-- Every entry of such a run is whole, dated and on the universe. -/
theorem run_log (cfg : Config) (calls : List Call) (hcalls : ∀ c ∈ calls, on_universe cfg c) :
    ∀ e ∈ (run cfg calls).trade_log, WholeEntry e ∧ e.ticker ∈ cfg.tickers := by
  induction calls using List.reverseRecOn with
  | nil => simp [Executor.init]
  | append_singleton calls c ih =>
    have hprev := ih (fun c' hc' => hcalls c' (List.mem_append_left _ hc'))
    have hc : on_universe cfg c := hcalls c (by simp)
    rw [run_snoc]
    cases c with
    | update_price t p =>
      show ∀ e ∈ (update_price cfg (run cfg calls) t p).trade_log, _
      unfold update_price
      by_cases ht : t ∈ cfg.tickers
      · rw [if_pos ht]
        exact hprev
      · rw [if_neg ht]
        exact hprev
    | set_time now => exact hprev
    | execute_child_order child ts => exact hc.elim
    | execute_trade r =>
      obtain ⟨hticker, hdated⟩ := hc
      show ∀ e ∈ (execute_trade cfg (run cfg calls) r).2.trade_log, _
      rcases execute_trade_cases cfg (run cfg calls) r with hsame | ⟨z, side, conf, _, hq, _, heq⟩
      · rw [hsame]
        exact hprev
      · rw [heq]
        intro e he
        rcases List.mem_append.mp he with hold | hnew
        · exact hprev e hold
        · obtain rfl := List.mem_singleton.mp hnew
          -- the sized quantity is a positive integer
          have hnat : ((z.quantity.toNat : ℕ) : ℚ) = z.quantity := by
            exact_mod_cast Int.toNat_of_nonneg (le_of_lt hq)
          have hpos : (0 : ℚ) < z.quantity := by exact_mod_cast hq
          exact ⟨⟨⟨z.quantity.toNat, hnat.symm⟩, hpos, hdated⟩, hticker⟩

/-- Off the universe no price is ever set. -/
theorem run_price (cfg : Config) (calls : List Call) {t : Ticker} (ht : t ∉ cfg.tickers) :
    (run cfg calls).latest_prices t = 0 := by
  induction calls using List.reverseRecOn with
  | nil => rfl
  | append_singleton calls c ih =>
    rw [run_snoc]
    cases c with
    | update_price u p =>
      show (update_price cfg (run cfg calls) u p).latest_prices t = 0
      unfold update_price
      by_cases hu : u ∈ cfg.tickers
      · have hne : t ≠ u := fun h => ht (h ▸ hu)
        rw [if_pos hu]
        show set_amount (run cfg calls).latest_prices u p t = 0
        rw [set_amount_ne _ _ hne]
        exact ih
      · rw [if_neg hu]
        exact ih
    | set_time now => exact ih
    | execute_trade r =>
      show (execute_trade cfg (run cfg calls) r).2.latest_prices t = 0
      rcases execute_trade_cases cfg (run cfg calls) r with hsame | ⟨_, _, _, _, _, _, heq⟩
      · rw [hsame]
        exact ih
      · rw [heq]
        exact ih
    | execute_child_order child ts =>
      show (execute_child_order cfg (run cfg calls) child ts).2.latest_prices t = 0
      rcases execute_child_order_cases cfg (run cfg calls) child ts with
        hsame | ⟨_, _, _, hsettles⟩
      · rw [hsame]
        exact ih
      · rcases hsettles.outcome ts with ⟨_, heq⟩ | ⟨_, _, heq⟩ <;> rw [heq] <;> exact ih

/-- The marks the runner reports: the latest prices of the universe. -/
def final_prices (cfg : Config) (s : Executor) (t : Ticker) : Option PyFloat :=
  if t ∈ cfg.tickers then some (.fin (s.latest_prices t)) else none

/-- A positive latest price is a usable mark. -/
theorem usable_final_price {cfg : Config} {calls : List Call} {t : Ticker}
    (h : 0 < (run cfg calls).latest_prices t) :
    usable_mark (final_prices cfg (run cfg calls) t) = some ((run cfg calls).latest_prices t) := by
  have ht : t ∈ cfg.tickers := by
    by_contra hoff
    rw [run_price cfg calls hoff] at h
    exact lt_irrefl _ h
  unfold final_prices
  rw [if_pos ht]
  simp [usable_mark, not_le.mpr h]

/-- **The books reconcile.** Pairing the log of any run over a universe
    without duplicates succeeds, and when every open row has a positive
    latest price, initial capital plus realised plus unrealised gains minus
    all fees is the portfolio value of the executor. -/
theorem trades_reconcile (cfg : Config) (calls : List Call) (market_zone : Option Zone)
    (hnodup : cfg.tickers.Nodup) (hcalls : ∀ c ∈ calls, on_universe cfg c) :
    ∃ trades, pair_fills ((run cfg calls).trade_log.map raw_fill) market_zone = .ok trades ∧
      ((∀ trade ∈ trades, trade.exit_date = none →
          0 < (run cfg calls).latest_prices trade.symbol) →
        cfg.initial_capital + realized_pnl trades +
            unrealized_pnl (open_positions trades (final_prices cfg (run cfg calls))) -
            total_fees trades =
          get_port_notional cfg (run cfg calls)) := by
  let s := run cfg calls
  let mark := s.latest_prices
  have hlog := run_log cfg calls hcalls
  obtain ⟨fills, hok, hwhole, hgain, hfees⟩ :=
    normalise_log market_zone s.trade_log (fun e he => (hlog e he).1) mark
  obtain ⟨hwf, hpaired, hpaired_fees⟩ := pair_all_gain fills hwhole mark
  refine ⟨numbered (pairing_rows (pair_all fills)), ?_, fun hmarks => ?_⟩
  · unfold pair_fills
    rw [hok]
    rfl
  · have hopen := unrealized_pnl_numbered hwf mark (final_prices cfg s)
      (fun trade htrade hnone => usable_final_price (hmarks trade htrade hnone))
    have hbooks := balanced_run cfg fun before c hpre =>
      on_universe_logged (hcalls c (hpre.subset (by simp))) (run cfg before)
    have hvalue : (cfg.tickers.map (fun t => s.positions t * mark t)).sum =
        (s.trade_log.map (fun e => e.signed_shares * mark e.ticker)).sum := by
      rw [← sum_replay_position hnodup mark s.trade_log (fun e he => (hlog e he).2)]
      congr 1
      apply List.map_congr_left
      intro t _
      rw [hbooks.positions t]
    have hcash := hbooks.cash
    rw [replay_cash_eq] at hcash
    have hsplit : (s.trade_log.map
          (fun e => e.signed_shares * (mark e.ticker - e.fill_price))).sum =
        (s.trade_log.map (fun e => e.signed_shares * mark e.ticker)).sum -
          (s.trade_log.map (fun e => e.signed_shares * e.fill_price)).sum := by
      rw [eq_sub_iff_add_eq, ← List.sum_map_add]
      congr 1
      apply List.map_congr_left
      intro e _
      ring
    rw [hopen, realized_pnl_numbered hwf, total_fees_numbered, get_port_notional, hvalue, hcash]
    linear_combination hpaired - hpaired_fees + hgain - hfees + hsplit

/-- One ticker, traded with slippage and commissions. -/
def flip_config : Config where
  initial_capital := 1000
  tickers := [⟨"AAPL", aapl_nonempty⟩]
  leverage := 2
  slippage := 1 / 100
  cost_model := none
  adv_lookup := fun _ => 0
  sigma_lookup := fun _ => 0
  commission_per_share := 1 / 2
  commission_nonneg := by norm_num
  sentiment_gate := none

def flip_order (target : ℚ) (now : ℤ) : TradeRequest where
  signal_type := .buy
  ticker := ⟨"AAPL", aapl_nonempty⟩
  arrival_price := some (.fin 100)
  confidence := some (.fin 1)
  port_notional := some (.fin 1000)
  ticker_weight := some (.fin 0)
  target_weight := some (some (.fin target))
  portfolio_id := "p"
  timestamp := some { wall := now, utcoffset := none }

/-- Four shares are bought and then flipped to a short of five. -/
def flip_calls : List Call :=
  [.update_price ⟨"AAPL", aapl_nonempty⟩ 100, .execute_trade (flip_order (1 / 2) 1),
    .update_price ⟨"AAPL", aapl_nonempty⟩ 120, .execute_trade (flip_order (-1 / 2) 2)]

theorem trades_reconcile_flip :
    (run flip_config flip_calls).trade_log.length = 2 ∧
    ∃ trades, pair_fills ((run flip_config flip_calls).trade_log.map raw_fill) none = .ok trades ∧
      1000 + realized_pnl trades +
          unrealized_pnl (open_positions trades
            (final_prices flip_config (run flip_config flip_calls))) -
          total_fees trades =
        get_port_notional flip_config (run flip_config flip_calls) := by
  have hcalls : ∀ c ∈ flip_calls, on_universe flip_config c := by
    simp [flip_calls, flip_order, flip_config, on_universe]
  have hmarks : ∀ trade ∈ ((pair_fills ((run flip_config flip_calls).trade_log.map raw_fill)
      none).toOption.getD []), trade.exit_date = none →
      0 < (run flip_config flip_calls).latest_prices trade.symbol := by
    decide +kernel
  obtain ⟨trades, hok, hsum⟩ :=
    trades_reconcile flip_config flip_calls none (by simp [flip_config]) hcalls
  rw [hok] at hmarks
  exact ⟨by decide +kernel, trades, hok, hsum hmarks⟩

end Reporting
