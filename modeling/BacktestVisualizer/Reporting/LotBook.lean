import BacktestVisualizer.Reporting.Reconciliation
import BacktestVisualizer.Framework.LTS

/-! # The Lot Book

  The two loops of `pair_fills` as a transition system: a fill is taken, it
  closes one lot after another, and what is left of it is opened. The points
  between these steps are all the states the function passes through, and
  `pair_all` is the last of them.

  At every point the queue of a ticker is a FIFO book (`Queue`). What a fill
  can lose to the tolerance is at most the tolerance, once.
-/

namespace Reporting

/-! ### The loops, step by step -/

/-- A point of the loops: the fills still to come, the fill at hand with the
    shares left of it, and the queues. -/
structure Point where
  pending : List Fill
  current : Option (Fill × ℚ)
  state : Pairing

/-- Look up the queue of a ticker, which makes it a key of `open_lots`. -/
def Pairing.touch (s : Pairing) (t : Ticker) : Pairing :=
  { s with symbols := if t ∈ s.symbols then s.symbols else s.symbols ++ [t] }

/-- A queue whose first lot has `matched` of its shares closed. -/
def reduce_front (lot : Lot) (lots : List Lot) (matched : ℚ) : List Lot :=
  if lot.quantity - matched ≤ eps then lots
  else { lot with quantity := lot.quantity - matched } :: lots

/-- Close round trips, and leave `lots` in the queue. -/
def Pairing.close (s : Pairing) (t : Ticker) (rows : List Row) (lots : List Lot) : Pairing :=
  { s with open_lots := set_lots s.open_lots t lots, closed := s.closed ++ rows }

/-- The lot a fill opens. -/
def opened_lot (fill : Fill) (quantity : ℚ) (open_index : ℕ) : Lot where
  direction := fill.direction
  quantity := quantity
  price := fill.price
  day := fill.day
  fee_per_share := fill.fee_per_share
  open_index := open_index

/-- What is left of a fill opens a lot, unless it is within the tolerance. -/
def Pairing.open_rest (s : Pairing) (fill : Fill) (remaining : ℚ) : Pairing :=
  if eps < remaining then
    { s with
      open_lots := set_lots s.open_lots fill.ticker
        (s.open_lots fill.ticker ++ [opened_lot fill remaining s.open_index])
      open_index := s.open_index + 1 }
  else s

/-- The condition of the `while` loop. -/
def can_close (fill : Fill) (remaining : ℚ) (lots : List Lot) : Prop :=
  ∃ lot rest, lots = lot :: rest ∧ eps < remaining ∧ lot.direction ≠ fill.direction

inductive PairingLabel where
  | take (fill : Fill)
  | close (row : Row)
  | finish

/-- One step of the loops of `pair_fills`. -/
inductive pairing_step : Point → PairingLabel → Point → Prop where
  | take {fill : Fill} {pending : List Fill} {s : Pairing} :
      pairing_step ⟨fill :: pending, none, s⟩ (.take fill)
        ⟨pending, some (fill, fill.quantity), s.touch fill.ticker⟩
  | close {fill : Fill} {pending : List Fill} {s : Pairing} {remaining : ℚ} {lot : Lot}
      {lots : List Lot} (hqueue : s.open_lots fill.ticker = lot :: lots)
      (hmore : eps < remaining) (hopposite : lot.direction ≠ fill.direction) :
      pairing_step ⟨pending, some (fill, remaining), s⟩
        (.close (round_trip lot fill (min remaining lot.quantity)))
        ⟨pending, some (fill, remaining - min remaining lot.quantity),
          s.close fill.ticker [round_trip lot fill (min remaining lot.quantity)]
            (reduce_front lot lots (min remaining lot.quantity))⟩
  | finish {fill : Fill} {pending : List Fill} {s : Pairing} {remaining : ℚ}
      (hstop : ¬ can_close fill remaining (s.open_lots fill.ticker)) :
      pairing_step ⟨pending, some (fill, remaining), s⟩ .finish
        ⟨pending, none, s.open_rest fill remaining⟩

/-- `pair_fills` on the fills of `_normalise`. -/
def pairing_system (fills : List Fill) : LTS.System Point PairingLabel where
  init := fun p => p = { pending := fills, current := none, state := .start }
  step := pairing_step

/-! ### The functions are the runs -/

/-- The round trips among the labels. -/
def closed_by (labels : List PairingLabel) : List Row :=
  labels.filterMap (fun label => match label with
    | .close row => some row
    | _ => none)

@[simp] theorem closed_by_append (ls ms : List PairingLabel) :
    closed_by (ls ++ ms) = closed_by ls ++ closed_by ms :=
  List.filterMap_append

theorem close_nothing {s : Pairing} {t : Ticker} {lots : List Lot} (h : s.open_lots t = lots) :
    s.close t [] lots = s := by
  have hsame : set_lots s.open_lots t lots = s.open_lots := by
    funext u
    by_cases hu : u = t
    · rw [hu, set_lots_self, h]
    · rw [set_lots_ne _ _ hu]
  unfold Pairing.close
  rw [hsame, List.append_nil]

theorem close_close (s : Pairing) (t : Ticker) (rows rows' : List Row) (lots lots' : List Lot) :
    (s.close t rows lots).close t rows' lots' = s.close t (rows ++ rows') lots' := by
  have hlast : set_lots (set_lots s.open_lots t lots) t lots' = set_lots s.open_lots t lots' := by
    funext u
    by_cases hu : u = t
    · rw [hu, set_lots_self, set_lots_self]
    · rw [set_lots_ne _ _ hu, set_lots_ne _ _ hu, set_lots_ne _ _ hu]
  unfold Pairing.close
  rw [hlast, List.append_assoc]

/-- A fill is taken, its loop run, and the rest of it opened. -/
theorem pair_fill_steps (s : Pairing) (fill : Fill) :
    let r := close_lots fill (s.open_lots fill.ticker) fill.quantity
    pair_fill s fill =
      ((s.touch fill.ticker).close fill.ticker r.1 r.2.1).open_rest fill r.2.2 := by
  intro r
  unfold pair_fill Pairing.open_rest
  by_cases hrest : eps < r.2.2
  · simp only [r] at hrest
    have hlast := congrArg Pairing.open_lots (close_close s fill.ticker [] [] r.2.1
      (r.2.1 ++ [opened_lot fill r.2.2 s.open_index]))
    simp only [Pairing.close, r] at hlast
    simp only [hrest, if_true, Pairing.touch, Pairing.close, set_lots_self, r]
    rw [hlast]
    rfl
  · simp only [r] at hrest
    simp only [hrest, if_false, r]
    rfl

section Runs

variable {system : LTS.System Point PairingLabel}

/-- **The inner loop** is a run of `close` steps that stops where the
    condition fails. -/
theorem close_lots_run (hstep : system.step = pairing_step) (fill : Fill) (pending : List Fill)
    (lots : List Lot) (remaining : ℚ) (s : Pairing) (hqueue : s.open_lots fill.ticker = lots) :
    let r := close_lots fill lots remaining
    (∃ ls, system.Run ⟨pending, some (fill, remaining), s⟩ ls
      ⟨pending, some (fill, r.2.2), s.close fill.ticker r.1 r.2.1⟩) ∧
    ¬ can_close fill r.2.2 r.2.1 := by
  induction lots generalizing remaining s with
  | nil =>
    constructor
    · refine ⟨[], ?_⟩
      simp only [close_lots]
      rw [close_nothing hqueue]
      exact LTS.System.Run.refl _
    · rintro ⟨lot, rest, hnone, _⟩
      exact absurd hnone (by simp [close_lots])
  | cons lot lots ih =>
    by_cases hmatch : eps < remaining ∧ lot.direction ≠ fill.direction
    · have hclose := @pairing_step.close fill pending s remaining lot lots hqueue hmatch.1 hmatch.2
      rw [← hstep] at hclose
      by_cases hgone : lot.quantity - min remaining lot.quantity ≤ eps
      · -- the lot is popped, and the loop goes on with the next one
        have hqueue' : (s.close fill.ticker [round_trip lot fill (min remaining lot.quantity)]
            lots).open_lots fill.ticker = lots := set_lots_self _ _ _
        obtain ⟨⟨ls, hrun⟩, hstop⟩ := ih (remaining - min remaining lot.quantity) _ hqueue'
        rw [close_close] at hrun
        rw [reduce_front, if_pos hgone] at hclose
        simp only [close_lots, if_pos hmatch, if_pos hgone]
        exact ⟨⟨_, LTS.System.Run.cons hclose hrun⟩, hstop⟩
      · -- the lot survives, so the fill is used up
        rw [reduce_front, if_neg hgone] at hclose
        simp only [close_lots, if_pos hmatch, if_neg hgone]
        refine ⟨⟨_, LTS.System.Run.single hclose⟩, ?_⟩
        rintro ⟨_, _, _, hmore, _⟩
        rcases min_choice remaining lot.quantity with hall | hlot
        · rw [hall, sub_self] at hmore
          exact absurd hmore (by norm_num [eps])
        · rw [hlot, sub_self] at hgone
          exact hgone (by norm_num [eps])
    · simp only [close_lots, if_neg hmatch]
      constructor
      · refine ⟨[], ?_⟩
        rw [close_nothing hqueue]
        exact LTS.System.Run.refl _
      · rintro ⟨front, rest, hfront, hcond⟩
        obtain ⟨rfl, rfl⟩ := List.cons.inj hfront
        exact hmatch hcond

/-- One pass of the outer loop. -/
theorem pair_fill_run (hstep : system.step = pairing_step) (fill : Fill) (pending : List Fill)
    (s : Pairing) :
    ∃ ls, system.Run ⟨fill :: pending, none, s⟩ ls ⟨pending, none, pair_fill s fill⟩ := by
  have htake := @pairing_step.take fill pending s
  obtain ⟨⟨ls, hrun⟩, hstop⟩ := close_lots_run hstep fill pending (s.open_lots fill.ticker)
    fill.quantity (s.touch fill.ticker) rfl
  have hqueue : ((s.touch fill.ticker).close fill.ticker
      (close_lots fill (s.open_lots fill.ticker) fill.quantity).1
      (close_lots fill (s.open_lots fill.ticker) fill.quantity).2.1).open_lots fill.ticker =
      (close_lots fill (s.open_lots fill.ticker) fill.quantity).2.1 := set_lots_self _ _ _
  rw [← hqueue] at hstop
  have hfinish := @pairing_step.finish fill pending _ _ hstop
  rw [← hstep] at htake hfinish
  rw [pair_fill_steps]
  exact ⟨_, LTS.System.Run.cons htake (LTS.System.Run.snoc hrun hfinish)⟩

/-- **The outer loop** reaches the state of `pair_all`. -/
theorem pair_all_run (hstep : system.step = pairing_step) (fills : List Fill) (s : Pairing) :
    ∃ ls, system.Run ⟨fills, none, s⟩ ls ⟨[], none, fills.foldl pair_fill s⟩ := by
  induction fills generalizing s with
  | nil => exact ⟨[], LTS.System.Run.refl _⟩
  | cons fill fills ih =>
    obtain ⟨ls, hrun⟩ := pair_fill_run hstep fill fills s
    obtain ⟨ls', hrun'⟩ := ih (pair_fill s fill)
    exact ⟨ls ++ ls', hrun.trans hrun'⟩

end Runs

/-! ### The book at every point -/

/-- A FIFO book: lots of one direction, the oldest first, each above the
    tolerance. -/
structure Queue (lots : List Lot) : Prop where
  one_direction : ∀ a ∈ lots, ∀ b ∈ lots, a.direction = b.direction
  opening_order : lots.Pairwise (fun a b => a.open_index < b.open_index)
  above_tolerance : ∀ lot ∈ lots, eps < lot.quantity

/-- Every queue is a book, and no two lots were opened at the same place. -/
structure Pairing.Booked (s : Pairing) : Prop where
  nodup : s.symbols.Nodup
  covered : ∀ t, t ∉ s.symbols → s.open_lots t = []
  queues : ∀ t, Queue (s.open_lots t)
  opened : ∀ t, ∀ lot ∈ s.open_lots t, lot.open_index < s.open_index
  distinct : ∀ t u, ∀ a ∈ s.open_lots t, ∀ b ∈ s.open_lots u, a.open_index = b.open_index → t = u

theorem Queue.empty : Queue [] := by
  constructor <;> simp

theorem Queue.tail {lot : Lot} {lots : List Lot} (h : Queue (lot :: lots)) : Queue lots where
  one_direction := fun a ha b hb =>
    h.one_direction a (List.mem_cons_of_mem _ ha) b (List.mem_cons_of_mem _ hb)
  opening_order := (List.pairwise_cons.mp h.opening_order).2
  above_tolerance := fun l hl => h.above_tolerance l (List.mem_cons_of_mem _ hl)

/-- Closing part of the front leaves a book. -/
theorem Queue.reduce_front {lot : Lot} {lots : List Lot} (h : Queue (lot :: lots)) (matched : ℚ) :
    Queue (reduce_front lot lots matched) := by
  unfold Reporting.reduce_front
  split
  · exact h.tail
  · rename_i hleft
    have hdirection : ∀ a ∈ lots, lot.direction = a.direction := fun a ha =>
      h.one_direction lot List.mem_cons_self a (List.mem_cons_of_mem _ ha)
    constructor
    · intro a ha b hb
      rcases List.mem_cons.mp ha with rfl | ha
      · rcases List.mem_cons.mp hb with rfl | hb
        · rfl
        · exact hdirection b hb
      · rcases List.mem_cons.mp hb with rfl | hb
        · exact (hdirection a ha).symm
        · exact h.tail.one_direction a ha b hb
    · exact List.pairwise_cons.mpr (List.pairwise_cons.mp h.opening_order)
    · intro l hl
      rcases List.mem_cons.mp hl with rfl | hl
      · exact not_le.mp hleft
      · exact h.tail.above_tolerance l hl

/-- What is left in the queue was opened where it was. -/
theorem mem_reduce_front {lot l : Lot} {lots : List Lot} {matched : ℚ}
    (h : l ∈ reduce_front lot lots matched) :
    ∃ l' ∈ lot :: lots, l'.open_index = l.open_index := by
  unfold reduce_front at h
  split at h
  · exact ⟨l, List.mem_cons_of_mem _ h, rfl⟩
  · rcases List.mem_cons.mp h with rfl | h
    · exact ⟨lot, List.mem_cons_self, rfl⟩
    · exact ⟨l, List.mem_cons_of_mem _ h, rfl⟩

/-- Where the loop stops with shares left, the queue runs in the direction of
    the fill. -/
theorem Queue.append_opened {fill : Fill} {remaining : ℚ} {lots : List Lot} {open_index : ℕ}
    (h : Queue lots) (hstop : ¬ can_close fill remaining lots) (hmore : eps < remaining)
    (hold : ∀ lot ∈ lots, lot.open_index < open_index) :
    Queue (lots ++ [opened_lot fill remaining open_index]) := by
  have hdirection : ∀ a ∈ lots, a.direction = fill.direction := by
    cases lots with
    | nil => simp
    | cons lot lots =>
      intro a ha
      rw [h.one_direction a ha lot List.mem_cons_self]
      by_contra hne
      exact hstop ⟨lot, lots, rfl, hmore, hne⟩
  -- the rest is opened only where the book has no lot of the other side
  have hmem : ∀ a ∈ lots ++ [opened_lot fill remaining open_index],
      a ∈ lots ∨ a = opened_lot fill remaining open_index := by
    intro a ha
    rwa [List.mem_append, List.mem_singleton] at ha
  have hall : ∀ a ∈ lots ++ [opened_lot fill remaining open_index], a.direction = fill.direction := by
    intro a ha
    rcases hmem a ha with ha | rfl
    · exact hdirection a ha
    · rfl
  constructor
  · intro a ha b hb
    rw [hall a ha, hall b hb]
  · apply List.pairwise_append.mpr
    refine ⟨h.opening_order, List.pairwise_singleton _ _, ?_⟩
    intro a ha b hb
    rw [List.mem_singleton] at hb
    rw [hb]
    exact hold a ha
  · intro a ha
    rcases hmem a ha with ha | rfl
    · exact h.above_tolerance a ha
    · exact hmore

theorem start_booked : Pairing.start.Booked := by
  constructor
  · exact List.nodup_nil
  · intro t _
    rfl
  · intro t
    exact Queue.empty
  · intro t lot hlot
    exact absurd hlot List.not_mem_nil
  · intro t u a ha
    exact absurd ha List.not_mem_nil

theorem mem_touch (s : Pairing) (t : Ticker) : t ∈ (s.touch t).symbols := by
  unfold Pairing.touch
  simp only
  split
  · assumption
  · simp

theorem Pairing.Booked.touch {s : Pairing} (h : s.Booked) (t : Ticker) : (s.touch t).Booked := by
  constructor
  · unfold Pairing.touch
    simp only
    split
    · exact h.nodup
    · rename_i ht
      rw [← List.concat_eq_append]
      exact h.nodup.concat ht
  · intro u hu
    apply h.covered u
    intro hmem
    apply hu
    unfold Pairing.touch
    simp only
    split
    · exact hmem
    · exact List.mem_append_left _ hmem
  · exact h.queues
  · exact h.opened
  · exact h.distinct

/-- Replacing one queue: the lots of the new one keep their places, or take
    the next one. -/
theorem Pairing.Booked.replace {s : Pairing} (h : s.Booked) {t : Ticker} {lots : List Lot}
    (closed : List Row) {open_index : ℕ} (ht : t ∈ s.symbols) (hqueue : Queue lots)
    (hindex : s.open_index ≤ open_index)
    (hplaces : ∀ lot ∈ lots, (∃ old ∈ s.open_lots t, old.open_index = lot.open_index) ∨
      (s.open_index = lot.open_index ∧ lot.open_index < open_index)) :
    ({ symbols := s.symbols
       open_lots := set_lots s.open_lots t lots
       closed := closed
       open_index := open_index } : Pairing).Booked := by
  -- a lot of the new queue is at no place of another queue
  have hapart : ∀ u, u ≠ t → ∀ a ∈ lots, ∀ b ∈ s.open_lots u, a.open_index ≠ b.open_index := by
    intro u hu a ha b hb hsame
    rcases hplaces a ha with ⟨old, hold, hplace⟩ | ⟨hplace, _⟩
    · exact hu (h.distinct t u old hold b hb (hplace.trans hsame)).symm
    · have := h.opened u b hb
      omega
  constructor
  · exact h.nodup
  · intro u hu
    have hne : u ≠ t := by
      rintro rfl
      exact hu ht
    show set_lots s.open_lots t lots u = []
    rw [set_lots_ne _ _ hne]
    exact h.covered u hu
  · intro u
    show Queue (set_lots s.open_lots t lots u)
    by_cases hu : u = t
    · rw [hu, set_lots_self]
      exact hqueue
    · rw [set_lots_ne _ _ hu]
      exact h.queues u
  · intro u lot hlot
    have hlot : lot ∈ set_lots s.open_lots t lots u := hlot
    show lot.open_index < open_index
    by_cases hu : u = t
    · rw [hu, set_lots_self] at hlot
      rcases hplaces lot hlot with ⟨old, hold, hplace⟩ | ⟨_, hnew⟩
      · have := h.opened t old hold
        omega
      · exact hnew
    · rw [set_lots_ne _ _ hu] at hlot
      have := h.opened u lot hlot
      omega
  · intro u v a ha b hb hsame
    have ha : a ∈ set_lots s.open_lots t lots u := ha
    have hb : b ∈ set_lots s.open_lots t lots v := hb
    by_cases hu : u = t
    · by_cases hv : v = t
      · rw [hu, hv]
      · rw [hu, set_lots_self] at ha
        rw [set_lots_ne _ _ hv] at hb
        exact absurd hsame (hapart v hv a ha b hb)
    · rw [set_lots_ne _ _ hu] at ha
      by_cases hv : v = t
      · rw [hv, set_lots_self] at hb
        exact absurd hsame.symm (hapart u hu b hb a ha)
      · rw [set_lots_ne _ _ hv] at hb
        exact h.distinct u v a ha b hb hsame

/-- The invariant of the points: the queues are books, and the ticker of the
    fill at hand has one. -/
structure Point.Booked (p : Point) : Prop where
  state : p.state.Booked
  touched : ∀ fill remaining, p.current = some (fill, remaining) → fill.ticker ∈ p.state.symbols

/-- **Every step keeps the books.** -/
theorem Point.Booked.step {p p' : Point} {label : PairingLabel} (h : p.Booked)
    (hstep : pairing_step p label p') : p'.Booked := by
  cases hstep with
  | take =>
    constructor
    · exact h.state.touch _
    · intro fill remaining hcurrent
      obtain ⟨rfl, _⟩ := Prod.mk.inj (Option.some.inj hcurrent)
      exact mem_touch _ _
  | @close fill pending s remaining lot lots hqueue hmore hopposite =>
    -- what is left of the first lot keeps its place
    have ht := h.touched fill remaining rfl
    have hfront : Queue (lot :: lots) := by
      have hbook := h.state.queues fill.ticker
      rwa [hqueue] at hbook
    constructor
    · apply h.state.replace _ ht (hfront.reduce_front _) (le_refl _)
      intro l hl
      left
      obtain ⟨old, hold, hplace⟩ := mem_reduce_front hl
      exact ⟨old, hqueue ▸ hold, hplace⟩
    · intro fill' remaining' hcurrent
      obtain ⟨rfl, _⟩ := Prod.mk.inj (Option.some.inj hcurrent)
      exact ht
  | @finish fill pending s remaining hstop =>
    constructor
    · unfold Pairing.open_rest
      split
      · rename_i hmore
        have hbook := (h.state.queues fill.ticker).append_opened hstop hmore
          (h.state.opened fill.ticker)
        apply h.state.replace _ (h.touched fill remaining rfl) hbook (Nat.le_succ _)
        intro l hl
        rcases List.mem_append.mp hl with hold | hnew
        · exact Or.inl ⟨l, hold, rfl⟩
        · rw [List.mem_singleton] at hnew
          rw [hnew]
          exact Or.inr ⟨rfl, Nat.lt_succ_self _⟩
      · exact h.state
    · intro fill' remaining' hcurrent
      exact absurd hcurrent (by simp)

/-- **The lot book**: at every point each queue is a book. -/
theorem points_booked (fills : List Fill) {labels : List PairingLabel} {p : Point}
    (h : (pairing_system fills).Trace labels p) : p.Booked := by
  apply LTS.System.invariant _ _ h
  · intro p hinit
    rw [hinit]
    constructor
    · exact start_booked
    · intro fill remaining hcurrent
      exact absurd hcurrent (by simp)
  · intro p label p' hp hstep
    exact hp.step hstep

/-- The round trips are listed in the order they closed. -/
theorem points_closed (fills : List Fill) {labels : List PairingLabel} {p : Point}
    (h : (pairing_system fills).Trace labels p) : p.state.closed = closed_by labels := by
  apply LTS.System.trace_invariant (P := fun ls p => p.state.closed = closed_by ls) _ _ h
  · intro p hinit
    rw [hinit]
    rfl
  · intro ls p label p' hp hstep
    rw [closed_by_append, ← hp]
    cases hstep with
    | take => exact (List.append_nil _).symm
    | close => rfl
    | finish =>
      show (Pairing.open_rest _ _ _).closed = _ ++ []
      rw [List.append_nil]
      unfold Pairing.open_rest
      split
      · rfl
      · rfl

/-- A step that closes a row matches the fill at hand against the oldest lot
    of its ticker; all its lots run against the fill, and no newer one is
    touched. -/
structure MatchesOldest (p : Point) (row : Row) (p' : Point) : Prop where
  matched : ∃ fill remaining lot lots, p.current = some (fill, remaining) ∧
    p.state.open_lots fill.ticker = lot :: lots ∧ 
    (∀ l ∈ lot :: lots, l.direction ≠ fill.direction) ∧
    (∀ l ∈ lots, lot.open_index < l.open_index) ∧
    row = round_trip lot fill (min remaining lot.quantity) ∧ 0 < row.quantity ∧
    p'.state.open_lots fill.ticker = reduce_front lot lots (min remaining lot.quantity) ∧
    (∀ u, u ≠ fill.ticker → p'.state.open_lots u = p.state.open_lots u) ∧
    p'.state.closed = p.state.closed ++ [row]

theorem Point.Booked.matches_oldest {p p' : Point} {row : Row} (h : p.Booked)
    (hstep : pairing_step p (.close row) p') : MatchesOldest p row p' := by
  cases hstep with
  | @close fill pending s remaining lot lots hqueue hmore hopposite =>
    have hbook := h.state.queues fill.ticker
    have hfront : Queue (lot :: lots) := by
      rwa [hqueue] at hbook
    have heps : (0 : ℚ) < eps := by norm_num [eps]
    refine ⟨fill, remaining, lot, lots, rfl, hqueue, ?_, ?_, rfl, ?_, ?_, ?_, rfl⟩
    · intro l hl
      rw [hfront.one_direction l hl lot List.mem_cons_self]
      exact hopposite
    · exact (List.pairwise_cons.mp hfront.opening_order).1
    · exact lt_min (lt_trans heps hmore)
        (lt_trans heps (hfront.above_tolerance lot List.mem_cons_self))
    · exact set_lots_self _ _ _
    · intro u hu
      exact set_lots_ne _ _ hu

/-- The state of `pair_all` is the last point. -/
theorem pair_all_point (fills : List Fill) :
    ∃ labels, (pairing_system fills).Trace labels ⟨[], none, pair_all fills⟩ := by
  obtain ⟨labels, hrun⟩ : ∃ ls, (pairing_system fills).Run ⟨fills, none, .start⟩ ls
      ⟨[], none, pair_all fills⟩ := pair_all_run rfl fills .start
  exact ⟨labels, _, rfl, hrun⟩

theorem pair_all_booked (fills : List Fill) : (pair_all fills).Booked := by
  obtain ⟨labels, htrace⟩ := pair_all_point fills
  exact (points_booked fills htrace).state

/-! ### What the tolerance can lose -/

def Lot.signed (lot : Lot) : ℚ := lot.direction.sign * lot.quantity

def Fill.signed (fill : Fill) : ℚ := fill.direction.sign * fill.quantity

theorem abs_sign_mul (d : Direction) {q : ℚ} (hq : 0 ≤ q) : |d.sign * q| = q := by
  cases d with
  | long => rw [Direction.sign, one_mul, abs_of_nonneg hq]
  | short => rw [Direction.sign, neg_one_mul, abs_neg, abs_of_nonneg hq]

theorem close_lots_stop {fill : Fill} {lots : List Lot} {remaining : ℚ}
    (h : ¬ can_close fill remaining lots) :
    close_lots fill lots remaining = ([], lots, remaining) := by
  cases lots with
  | nil => rfl
  | cons lot lots =>
    have hcond : ¬ (eps < remaining ∧ lot.direction ≠ fill.direction) :=
      fun hcond => h ⟨lot, lots, rfl, hcond⟩
    simp only [close_lots, if_neg hcond]

/-- Opening what is left, or dropping it, is exact to the tolerance. -/
theorem lots_after_near (fill : Fill) (open_index : ℕ) (rows : List Row) (lots : List Lot)
    {remaining : ℚ} (hrem : 0 ≤ remaining) :
    |((lots_after fill open_index (rows, lots, remaining)).map Lot.signed).sum -
      ((lots.map Lot.signed).sum + fill.direction.sign * remaining)| ≤ eps := by
  unfold lots_after
  by_cases hmore : eps < remaining
  · rw [if_pos hmore]
    have heps : (0 : ℚ) ≤ eps := by norm_num [eps]
    simpa [Lot.signed] using heps
  · rw [if_neg hmore]
    have hdust : (lots.map Lot.signed).sum -
        ((lots.map Lot.signed).sum + fill.direction.sign * remaining) =
        -(fill.direction.sign * remaining) := by ring
    rw [hdust, abs_neg, abs_sign_mul _ hrem]
    exact not_lt.mp hmore

/-- **A fill is exact to the tolerance**: either a lot is dropped within it, and
    then the fill is used up, or what is left of the fill is. -/
theorem close_lots_near (fill : Fill) (open_index : ℕ) (lots : List Lot) {remaining : ℚ}
    (hrem : 0 ≤ remaining) (hlots : ∀ lot ∈ lots, 0 < lot.quantity) :
    |((lots_after fill open_index (close_lots fill lots remaining)).map Lot.signed).sum -
      ((lots.map Lot.signed).sum + fill.direction.sign * remaining)| ≤ eps := by
  induction lots generalizing remaining with
  | nil => exact lots_after_near fill open_index [] [] hrem
  | cons lot lots ih =>
    have hrest : ∀ l ∈ lots, 0 < l.quantity := fun l hl => hlots l (List.mem_cons_of_mem _ hl)
    by_cases hmatch : eps < remaining ∧ lot.direction ≠ fill.direction
    · have hsign := opposite_sign hmatch.2
      have hdust : ¬ eps < (0 : ℚ) := by norm_num [eps]
      by_cases hall : lot.quantity ≤ remaining
      · -- the whole lot is closed
        have hgone : lot.quantity - min remaining lot.quantity ≤ eps := by
          rw [min_eq_right hall, sub_self]
          exact not_lt.mp hdust
        have hnext := ih (sub_nonneg.mpr hall) hrest
        have hsum : ((lot :: lots).map Lot.signed).sum + fill.direction.sign * remaining =
            (lots.map Lot.signed).sum + fill.direction.sign * (remaining - lot.quantity) := by
          rw [List.map_cons, List.sum_cons, Lot.signed, hsign]
          ring
        simp only [close_lots, if_pos hmatch, if_pos hgone]
        rw [min_eq_right hall, hsum]
        exact hnext
      · -- the fill is used up
        have hused : min remaining lot.quantity = remaining := min_eq_left (le_of_lt (not_le.mp hall))
        have hstop : ¬ can_close fill 0 lots := by
          rintro ⟨_, _, _, hmore, _⟩
          exact hdust hmore
        by_cases hgone : lot.quantity - remaining ≤ eps
        · have hdiff : (lots.map Lot.signed).sum -
              (((lot :: lots).map Lot.signed).sum + fill.direction.sign * remaining) =
              fill.direction.sign * (lot.quantity - remaining) := by
            rw [List.map_cons, List.sum_cons, Lot.signed, hsign]
            ring
          simp only [close_lots, if_pos hmatch, hused, if_pos hgone, sub_self,
            close_lots_stop hstop, lots_after, if_neg hdust]
          rw [hdiff, abs_sign_mul _ (by linarith [not_le.mp hall])]
          exact hgone
        · simp only [close_lots, if_pos hmatch, hused, if_neg hgone, sub_self, lots_after,
            if_neg hdust]
          have hsame : (({ lot with quantity := lot.quantity - remaining } :: lots).map
              Lot.signed).sum = ((lot :: lots).map Lot.signed).sum +
                fill.direction.sign * remaining := by
            rw [List.map_cons, List.sum_cons, List.map_cons, List.sum_cons, Lot.signed, Lot.signed,
              hsign]
            ring
          rw [hsame, sub_self, abs_zero]
          exact not_lt.mp hdust
    · have hstop : ¬ can_close fill remaining (lot :: lots) := by
        rintro ⟨front, rest, hfront, hcond⟩
        obtain ⟨rfl, rfl⟩ := List.cons.inj hfront
        exact hmatch hcond
      rw [close_lots_stop hstop]
      exact lots_after_near fill open_index [] (lot :: lots) hrem

/-- Signed quantities are differences of gains. -/
theorem signed_eq_gain (lots : List Lot) :
    (lots.map Lot.signed).sum = (lots.map (Lot.gain 1)).sum - (lots.map (Lot.gain 0)).sum := by
  induction lots with
  | nil => simp
  | cons lot lots ih =>
    simp only [List.map_cons, List.sum_cons, ih, Lot.signed, Lot.gain]
    ring

/-- **In whole shares nothing is lost.** -/
theorem close_lots_whole (fill : Fill) (open_index : ℕ) {lots : List Lot} {remaining : ℚ}
    (hlots : WholeLots lots) (hrem : whole remaining) :
    let r := close_lots fill lots remaining
    ((lots_after fill open_index r).map Lot.signed).sum =
      (lots.map Lot.signed).sum + fill.direction.sign * remaining ∧
    (r.1.map Row.fees).sum + ((lots_after fill open_index r).map Lot.fees).sum =
      (lots.map Lot.fees).sum + remaining * fill.fee_per_share ∧
    WholeLots (lots_after fill open_index r) := by
  intro r
  -- the gain at two marks that are one apart tells the shares
  obtain ⟨hgain₁, hfees, hw, hr, _⟩ := close_lots_gain fill 1 lots remaining hlots hrem
  obtain ⟨hgain₀, _⟩ := close_lots_gain fill 0 lots remaining hlots hrem
  obtain ⟨hafter₁, hafter_fees⟩ := lots_after_sum fill open_index hr 1
  obtain ⟨hafter₀, _⟩ := lots_after_sum fill open_index hr 0
  refine ⟨?_, ?_, ?_⟩
  · rw [signed_eq_gain, signed_eq_gain, hafter₁, hafter₀]
    linear_combination hgain₁ - hgain₀
  · rw [hafter_fees]
    linear_combination hfees
  · unfold lots_after
    split
    · rename_i hmore
      intro lot hlot
      rcases List.mem_append.mp hlot with hold | hnew
      · exact hw lot hold
      · obtain rfl := List.mem_singleton.mp hnew
        exact ⟨hr, (eps_lt_iff hr).mp hmore⟩
    · exact hw

/-! ### The book of one ticker -/

/-- The round trips of a fill are closed, and of its ticker. -/
theorem close_lots_rows (fill : Fill) (lots : List Lot) (remaining : ℚ) :
    ∀ row ∈ (close_lots fill lots remaining).1,
      row.symbol = fill.ticker ∧ row.exit_date ≠ none := by
  induction lots generalizing remaining with
  | nil => simp [close_lots]
  | cons lot lots ih =>
    simp only [close_lots]
    split
    · split
      · intro row hrow
        rcases List.mem_cons.mp hrow with rfl | hrow
        · exact ⟨rfl, by simp [round_trip]⟩
        · exact ih _ row hrow
      · intro row hrow
        obtain rfl := List.mem_singleton.mp hrow
        exact ⟨rfl, by simp [round_trip]⟩
    · simp

theorem pair_all_exits (fills : List Fill) :
    ∀ row ∈ (pair_all fills).closed, row.exit_date ≠ none := by
  induction fills using List.reverseRecOn with
  | nil => simp [pair_all, Pairing.start]
  | append_singleton fills fill ih =>
    rw [pair_all_snoc, (pair_fill_eq _ _).2.2]
    intro row hrow
    rcases List.mem_append.mp hrow with hold | hnew
    · exact ih row hold
    · exact (close_lots_rows fill _ _ row hnew).2

/-- The fills of one ticker. -/
def of_ticker (t : Ticker) (fills : List Fill) : List Fill :=
  fills.filter (fun fill => fill.ticker = t)

/-- The round trips of one ticker. -/
def rows_of (t : Ticker) (rows : List Row) : List Row := rows.filter (fun row => row.symbol = t)

theorem of_ticker_snoc (t : Ticker) (fills : List Fill) (fill : Fill) :
    of_ticker t (fills ++ [fill]) =
      of_ticker t fills ++ if fill.ticker = t then [fill] else [] := by
  unfold of_ticker
  rw [List.filter_append]
  by_cases h : fill.ticker = t
  · simp [h]
  · simp [h]

/-- A fill of another ticker leaves a queue alone, and closes none of its rows. -/
theorem pair_fill_other {s : Pairing} {fill : Fill} {t : Ticker} (h : fill.ticker ≠ t) :
    (pair_fill s fill).open_lots t = s.open_lots t ∧
    rows_of t (pair_fill s fill).closed = rows_of t s.closed := by
  obtain ⟨_, hlots, hclosed⟩ := pair_fill_eq s fill
  constructor
  · rw [hlots, set_lots_ne _ _ (Ne.symm h)]
  · have hnone : rows_of t (close_lots fill (s.open_lots fill.ticker) fill.quantity).1 = [] := by
      apply List.filter_eq_nil_iff.mpr
      intro row hrow
      rw [(close_lots_rows fill _ _ row hrow).1]
      simpa using h
    rw [hclosed, rows_of, List.filter_append]
    rw [rows_of] at hnone
    rw [hnone, List.append_nil]
    rfl

/-- A fill of the ticker runs through its queue, and closes rows of it. -/
theorem pair_fill_own {s : Pairing} {fill : Fill} {t : Ticker} (h : fill.ticker = t) :
    (pair_fill s fill).open_lots t =
      lots_after fill s.open_index (close_lots fill (s.open_lots t) fill.quantity) ∧
    rows_of t (pair_fill s fill).closed =
      rows_of t s.closed ++ (close_lots fill (s.open_lots t) fill.quantity).1 := by
  subst h
  obtain ⟨_, hlots, hclosed⟩ := pair_fill_eq s fill
  constructor
  · rw [hlots, set_lots_self]
  · rw [hclosed, rows_of, List.filter_append]
    congr 1
    apply List.filter_eq_self.mpr
    intro row hrow
    simpa using (close_lots_rows fill _ _ row hrow).1

/-- **Any fills**: the queue is the signed sum of the fills, to the tolerance
    once a fill. -/
theorem pair_all_near (t : Ticker) {fills : List Fill} (hfills : ∀ fill ∈ fills, 0 ≤ fill.quantity) :
    |(((pair_all fills).open_lots t).map Lot.signed).sum -
      ((of_ticker t fills).map Fill.signed).sum| ≤ (of_ticker t fills).length * eps := by
  induction fills using List.reverseRecOn with
  | nil => simp [pair_all, Pairing.start, of_ticker]
  | append_singleton fills fill ih =>
    have hprev := ih (fun f hf => hfills f (List.mem_append_left _ hf))
    rw [pair_all_snoc, of_ticker_snoc]
    by_cases ht : fill.ticker = t
    · rw [if_pos ht, (pair_fill_own ht).1, List.map_append, List.sum_append, List.length_append]
      have heps : (0 : ℚ) < eps := by norm_num [eps]
      have hlots : ∀ lot ∈ (pair_all fills).open_lots t, 0 < lot.quantity := fun lot hlot =>
        lt_trans heps (((pair_all_booked fills).queues t).above_tolerance lot hlot)
      have hnear := close_lots_near fill (pair_all fills).open_index
        ((pair_all fills).open_lots t) (hfills fill (by simp)) hlots
      -- each fill adds at most one tolerance
      have htriangle := abs_sub_le
        ((lots_after fill (pair_all fills).open_index
          (close_lots fill ((pair_all fills).open_lots t) fill.quantity)).map Lot.signed).sum
        ((((pair_all fills).open_lots t).map Lot.signed).sum + fill.direction.sign * fill.quantity)
        (((of_ticker t fills).map Fill.signed).sum + fill.direction.sign * fill.quantity)
      rw [add_sub_add_right_eq_sub] at htriangle
      simp only [List.map_cons, List.map_nil, List.sum_cons, List.sum_nil, add_zero,
        List.length_cons, List.length_nil, Fill.signed]
      push_cast
      linarith
    · rw [if_neg ht, (pair_fill_other ht).1, List.append_nil]
      exact hprev

/-- **Whole fills**: it is their signed sum exactly, and the fees are all in the
    rows. -/
theorem pair_all_whole (t : Ticker) {fills : List Fill}
    (hfills : ∀ fill ∈ fills, fill.ticker = t → WholeFill fill) :
    WholeLots ((pair_all fills).open_lots t) ∧
    (((pair_all fills).open_lots t).map Lot.signed).sum =
      ((of_ticker t fills).map Fill.signed).sum ∧
    ((rows_of t (pair_all fills).closed).map Row.fees).sum +
        (((pair_all fills).open_lots t).map Lot.fees).sum =
      ((of_ticker t fills).map Fill.fees).sum := by
  induction fills using List.reverseRecOn with
  | nil => simp [pair_all, Pairing.start, of_ticker, rows_of, WholeLots]
  | append_singleton fills fill ih =>
    obtain ⟨hlots, hsigned, hfees⟩ := ih (fun f hf => hfills f (List.mem_append_left _ hf))
    rw [pair_all_snoc, of_ticker_snoc]
    by_cases ht : fill.ticker = t
    · obtain ⟨hopen, hrows⟩ := pair_fill_own (s := pair_all fills) ht
      obtain ⟨hsigned', hfees', hlots'⟩ := close_lots_whole fill (pair_all fills).open_index hlots
        (hfills fill (by simp) ht).1
      rw [if_pos ht, hopen, hrows]
      refine ⟨hlots', ?_, ?_⟩
      · rw [hsigned', hsigned]
        simp [Fill.signed]
      · simp only [List.map_append, List.sum_append, List.map_cons, List.map_nil, List.sum_cons,
          List.sum_nil, Fill.fees]
        linear_combination hfees + hfees'
    · obtain ⟨hopen, hrows⟩ := pair_fill_other (s := pair_all fills) ht
      rw [if_neg ht, hopen, hrows, List.append_nil]
      exact ⟨hlots, hsigned, hfees⟩

/-! ### The open rows -/

/-- The lots left, ticker by ticker. -/
theorem with_ticker_perm (s : Pairing) :
    (with_ticker s).Perm
      (s.symbols.flatMap (fun t => (s.open_lots t).map (fun lot => (t, lot)))) :=
  List.perm_insertionSort _ _

theorem mem_with_ticker {s : Pairing} (h : s.Booked) {t : Ticker} {lot : Lot} :
    (t, lot) ∈ with_ticker s ↔ lot ∈ s.open_lots t := by
  rw [(with_ticker_perm s).mem_iff, List.mem_flatMap]
  constructor
  · rintro ⟨u, _, hu⟩
    obtain ⟨l, hl, heq⟩ := List.mem_map.mp hu
    obtain ⟨rfl, rfl⟩ := Prod.mk.inj heq
    exact hl
  · intro hlot
    refine ⟨t, ?_, List.mem_map.mpr ⟨lot, hlot, rfl⟩⟩
    by_contra ht
    rw [h.covered t ht] at hlot
    exact absurd hlot List.not_mem_nil

/-- **Open rows** are listed in the order their lots opened. -/
theorem with_ticker_opening_order {s : Pairing} (h : s.Booked) :
    (with_ticker s).Pairwise (fun a b => a.2.open_index < b.2.open_index) := by
  have hsorted : (with_ticker s).Pairwise (fun a b => a.2.open_index ≤ b.2.open_index) :=
    List.pairwise_insertionSort (fun a b : Ticker × Lot => a.2.open_index ≤ b.2.open_index) _
  have hapart : (with_ticker s).Pairwise (fun a b => a.2.open_index ≠ b.2.open_index) := by
    apply (with_ticker_perm s).symm.pairwise _ (fun hne => Ne.symm hne)
    apply List.pairwise_flatMap.mpr
    constructor
    · intro t _
      exact List.pairwise_map.mpr ((h.queues t).opening_order.imp (fun hlt => ne_of_lt hlt))
    · apply h.nodup.imp
      intro t u htu a ha b hb hsame
      obtain ⟨lot, hlot, rfl⟩ := List.mem_map.mp ha
      obtain ⟨lot', hlot', rfl⟩ := List.mem_map.mp hb
      exact htu (h.distinct t u lot hlot lot' hlot' hsame)
  exact (hsorted.and hapart).imp (fun hboth => lt_of_le_of_ne hboth.1 hboth.2)

/-- Those of one ticker are its queue. -/
theorem filter_with_ticker {s : Pairing} (h : s.Booked) (t : Ticker) :
    (with_ticker s).filter (fun x => x.1 = t) = (s.open_lots t).map (fun lot => (t, lot)) := by
  have hleft := (with_ticker_opening_order h).filter (fun x => decide (x.1 = t))
  have hright : ((s.open_lots t).map (fun lot => (t, lot))).Pairwise
      (fun a b => a.2.open_index < b.2.open_index) :=
    List.pairwise_map.mpr (h.queues t).opening_order
  have hnodup : ∀ {l : List (Ticker × Lot)},
      l.Pairwise (fun a b => a.2.open_index < b.2.open_index) → l.Nodup := by
    intro l hl
    apply hl.imp
    rintro a b hlt rfl
    exact lt_irrefl _ hlt
  apply List.Perm.eq_of_pairwise _ hleft hright
  · apply (List.perm_ext_iff_of_nodup (hnodup hleft) (hnodup hright)).mpr
    rintro ⟨u, lot⟩
    rw [List.mem_filter, mem_with_ticker h, List.mem_map]
    constructor
    · rintro ⟨hlot, hu⟩
      obtain rfl : u = t := by simpa using hu
      exact ⟨lot, hlot, rfl⟩
    · rintro ⟨l, hl, heq⟩
      obtain ⟨rfl, rfl⟩ := Prod.mk.inj heq
      exact ⟨hl, by simp⟩
  · intro a b _ _ hab hba
    omega

/-- The rows of one ticker: its round trips, then its queue. -/
theorem rows_of_pairing {s : Pairing} (h : s.Booked) (t : Ticker) :
    rows_of t (pairing_rows s) = rows_of t s.closed ++ (s.open_lots t).map (open_row t) := by
  have hopen : ((with_ticker s).map (fun x => open_row x.1 x.2)).filter
      (fun row => row.symbol = t) = (s.open_lots t).map (open_row t) := by
    rw [List.filter_map]
    have hsymbol : ((fun row : Row => decide (row.symbol = t)) ∘
        fun x : Ticker × Lot => open_row x.1 x.2) = fun x => decide (x.1 = t) := rfl
    rw [hsymbol, filter_with_ticker h, List.map_map]
    rfl
  unfold rows_of pairing_rows
  rw [List.filter_append, hopen]

/-! ### From the raw fills -/

/-- The shares, the fee and the direction that a raw fill states. -/
def RawFill.quantity (raw : RawFill) : ℚ :=
  match raw.shares with
  | .number q => q
  | _ => 0

def RawFill.fee (raw : RawFill) : ℚ :=
  match raw.fees with
  | .number q => q
  | _ => 0

def RawFill.signed (raw : RawFill) : ℚ :=
  match raw.signal_type with
  | .buy => raw.quantity
  | .sell => -raw.quantity
  | _ => 0

/-- The raw fills of one ticker. -/
def raw_of (t : Ticker) (fills : List RawFill) : List RawFill :=
  fills.filter (fun raw => raw.ticker = some t)

/-- What `_normalise` makes of a fill. -/
inductive Normalised (raw : RawFill) : Option Fill → Prop where
  | skipped (hdust : raw.quantity ≤ eps) : Normalised raw none
  | kept {fill : Fill} (hticker : raw.ticker = some fill.ticker)
      (hquantity : raw.quantity = fill.quantity) (hmore : eps < fill.quantity)
      (hsigned : raw.signed = fill.signed) (hfee : raw.fee = fill.fees) :
      Normalised raw (some fill)

theorem number_ok {index : ℕ} {field : FillField} {raw : RawNumber} {q : ℚ}
    (h : number index field raw = .ok q) : raw = .number q := by
  cases raw with
  | missing => simp [number] at h
  | not_numeric => simp [number] at h
  | number r => rw [Except.ok.inj h]

theorem ticker_ok {index : ℕ} {raw : Option Ticker} {t : Ticker} (h : ticker index raw = .ok t) :
    raw = some t := by
  cases raw with
  | none => simp [ticker] at h
  | some u => exact congrArg some (Except.ok.inj h)

/-- A missing fee is no fee. -/
theorem fee_read {index : ℕ} {raw : RawFill} {found : Option Fill}
    {rest : ℚ → Except PairingError (Option Fill)}
    (h : (if raw.fees = .missing then rest 0 else number index .fees raw.fees >>= rest) =
      .ok found) :
    ∃ fees, raw.fee = fees ∧ raw.fees ≠ .not_numeric ∧ rest fees = .ok found := by
  split at h
  · rename_i hmissing
    exact ⟨0, by rw [RawFill.fee, hmissing], by simp [hmissing], h⟩
  · obtain ⟨fees, hnumber, h⟩ := Fallible.bind_ok h
    have hraw := number_ok hnumber
    exact ⟨fees, by rw [RawFill.fee, hraw], by simp [hraw], h⟩

/-- A fill that is taken over has all its fields. -/
theorem normalise_fill_cases {zone : Option Zone} {index : ℕ} {raw : RawFill}
    {found : Option Fill} (h : normalise_fill zone index raw = .ok found) :
    (raw.quantity ≤ eps ∧ found = none) ∨
    ∃ fill moment, found = some fill ∧ raw.shares = .number fill.quantity ∧ eps < fill.quantity ∧
      timestamp index raw.timestamp = .ok moment ∧ direction index raw.signal_type = .ok fill.direction ∧
      raw.ticker = some fill.ticker ∧ raw.fill_price = .number fill.price ∧
      raw.fees ≠ .not_numeric ∧ raw.fee / fill.quantity = fill.fee_per_share := by
  unfold normalise_fill at h
  obtain ⟨quantity, hshares, hrest⟩ := Fallible.bind_ok h
  have hshares := number_ok hshares
  split at hrest
  · rename_i hdust
    left
    exact ⟨by rwa [RawFill.quantity, hshares], (Except.ok.inj hrest).symm⟩
  · rename_i hmore
    right
    obtain ⟨moment, hmoment, hrest⟩ := Fallible.bind_ok hrest
    simp only at hrest
    obtain ⟨fees, hfee, hnumeric, hrest⟩ := fee_read hrest
    obtain ⟨way, hway, hrest⟩ := Fallible.bind_ok hrest
    obtain ⟨t, hticker, hrest⟩ := Fallible.bind_ok hrest
    obtain ⟨price, hprice, hrest⟩ := Fallible.bind_ok hrest
    refine ⟨_, moment, (Except.ok.inj hrest).symm, hshares, not_le.mp hmore, hmoment, hway,
      ticker_ok hticker, number_ok hprice, hnumeric, ?_⟩
    rw [hfee]

theorem normalise_fill_normalised {zone : Option Zone} {index : ℕ} {raw : RawFill}
    {found : Option Fill} (h : normalise_fill zone index raw = .ok found) :
    Normalised raw found := by
  rcases normalise_fill_cases h with ⟨hdust, rfl⟩ |
    ⟨fill, moment, rfl, hshares, hmore, _, hway, hticker, _, _, hfee⟩
  · exact .skipped hdust
  have hquantity : raw.quantity = fill.quantity := by rw [RawFill.quantity, hshares]
  have hpos : fill.quantity ≠ 0 := by
    have heps : (0 : ℚ) < eps := by norm_num [eps]
    exact ne_of_gt (lt_trans heps hmore)
  apply Normalised.kept hticker hquantity hmore
  · unfold RawFill.signed Fill.signed
    rw [hquantity]
    cases hraw : raw.signal_type with
    | buy =>
      rw [hraw] at hway
      rw [← Except.ok.inj hway]
      simp [Direction.sign]
    | sell =>
      rw [hraw] at hway
      rw [← Except.ok.inj hway]
      simp [Direction.sign]
    | hold => simp [hraw, direction] at hway
    | invalid => simp [hraw, direction] at hway
  · rw [Fill.fees, ← hfee, mul_div_cancel₀ _ hpos]

/-- `_normalise` decides one fill after another, and sorts what it keeps. -/
theorem normalise_all {fills : List RawFill} {zone : Option Zone} {normalised : List Fill}
    (h : normalise fills zone = .ok normalised) :
    ∃ found, List.Forall₂ Normalised fills found ∧ normalised.Perm (found.filterMap id) := by
  obtain ⟨found, hfound, hrest⟩ := Fallible.bind_ok h
  obtain rfl := Except.ok.inj hrest
  refine ⟨found, ?_, List.perm_insertionSort _ _⟩
  have hall := Fallible.forall₂_of_mapM_ok hfound
  clear h hfound hrest
  generalize 0 = k at hall
  induction fills generalizing found k with
  | nil =>
    rw [List.zipIdx_nil] at hall
    cases hall
    exact List.Forall₂.nil
  | cons raw fills ih =>
    rw [List.zipIdx_cons] at hall
    cases hall with
    | cons hok hrest =>
      exact List.Forall₂.cons (normalise_fill_normalised hok) (ih _ _ hrest)

theorem raw_of_cons (t : Ticker) (raw : RawFill) (fills : List RawFill) :
    raw_of t (raw :: fills) = if raw.ticker = some t then raw :: raw_of t fills
      else raw_of t fills := by
  unfold raw_of
  by_cases h : raw.ticker = some t
  · simp [h]
  · simp [h]

theorem of_ticker_cons (t : Ticker) (fill : Fill) (fills : List Fill) :
    of_ticker t (fill :: fills) = if fill.ticker = t then fill :: of_ticker t fills
      else of_ticker t fills := by
  unfold of_ticker
  by_cases h : fill.ticker = t
  · simp [h]
  · simp [h]

/-- A dropped fill is dust. -/
theorem abs_signed_le (raw : RawFill) (h : 0 ≤ raw.quantity) : |raw.signed| ≤ raw.quantity := by
  unfold RawFill.signed
  cases raw.signal_type with
  | buy => exact le_of_eq (abs_of_nonneg h)
  | sell => exact le_of_eq (by rw [abs_neg, abs_of_nonneg h])
  | hold => rwa [abs_zero]
  | invalid => rwa [abs_zero]

/-- What is kept is above the tolerance. -/
theorem normalised_above {fills : List RawFill} {found : List (Option Fill)}
    (h : List.Forall₂ Normalised fills found) : ∀ fill ∈ found.filterMap id, eps < fill.quantity := by
  induction h with
  | nil => simp
  | cons hraw _ ih =>
    cases hraw with
    | skipped hdust => exact ih
    | kept hticker hquantity hmore hsigned hfee =>
      intro fill hfill
      rw [List.filterMap_cons_some (by rfl)] at hfill
      rcases List.mem_cons.mp hfill with rfl | hfill
      · exact hmore
      · exact ih fill hfill

/-- **Normalising** loses the tolerance at most once for each fill it drops. -/
theorem normalised_near (t : Ticker) {fills : List RawFill} {found : List (Option Fill)}
    (h : List.Forall₂ Normalised fills found) (hnonneg : ∀ raw ∈ fills, 0 ≤ raw.quantity) :
    |((of_ticker t (found.filterMap id)).map Fill.signed).sum -
        ((raw_of t fills).map RawFill.signed).sum| +
      (of_ticker t (found.filterMap id)).length * eps ≤ (raw_of t fills).length * eps := by
  induction h with
  | nil => simp [of_ticker, raw_of]
  | @cons raw o fills found hraw _ ih =>
    have hprev := ih (fun r hr => hnonneg r (List.mem_cons_of_mem _ hr))
    rw [raw_of_cons]
    cases hraw with
    | skipped hdust =>
      -- a fill that is dropped is itself within the tolerance
      have hsmall := le_trans (abs_signed_le raw (hnonneg raw List.mem_cons_self)) hdust
      rw [List.filterMap_cons_none (by rfl)]
      split
      · rw [List.map_cons, List.sum_cons, List.length_cons]
        have htriangle := abs_sub_le (((of_ticker t (found.filterMap id)).map Fill.signed).sum)
          (((raw_of t fills).map RawFill.signed).sum)
          (raw.signed + ((raw_of t fills).map RawFill.signed).sum)
        rw [sub_add_cancel_right, abs_neg] at htriangle
        push_cast
        linarith
      · exact hprev
    | @kept fill hticker hquantity hmore hsigned hfee =>
      rw [List.filterMap_cons_some (by rfl), of_ticker_cons, hticker]
      by_cases ht : fill.ticker = t
      · rw [if_pos ht, if_pos (by rw [ht])]
        simp only [List.map_cons, List.sum_cons, List.length_cons, hsigned,
          add_sub_add_left_eq_sub]
        push_cast
        linarith
      · rw [if_neg ht, if_neg (fun heq => ht (Option.some.inj heq))]
        exact hprev

/-- Whole fills are all kept. -/
theorem normalised_whole (t : Ticker) {fills : List RawFill} {found : List (Option Fill)}
    (h : List.Forall₂ Normalised fills found)
    (hwhole : ∀ raw ∈ raw_of t fills, whole raw.quantity ∧ 0 < raw.quantity) :
    (∀ fill ∈ found.filterMap id, fill.ticker = t → WholeFill fill) ∧
    ((of_ticker t (found.filterMap id)).map Fill.signed).sum =
      ((raw_of t fills).map RawFill.signed).sum ∧
    ((of_ticker t (found.filterMap id)).map Fill.fees).sum =
      ((raw_of t fills).map RawFill.fee).sum := by
  induction h with
  | nil => simp [of_ticker, raw_of]
  | @cons raw o fills found hraw _ ih =>
    rw [raw_of_cons] at hwhole ⊢
    cases hraw with
    | skipped hdust =>
      rw [List.filterMap_cons_none (by rfl)]
      split at hwhole
      -- a whole share is more than dust
      · obtain ⟨hw, hpos⟩ := hwhole raw List.mem_cons_self
        exact absurd hdust (not_le.mpr ((eps_lt_iff hw).mpr hpos))
      · rename_i ht
        rw [if_neg ht]
        exact ih hwhole
    | @kept fill hticker hquantity hmore hsigned hfee =>
      rw [List.filterMap_cons_some (by rfl), of_ticker_cons]
      rw [hticker] at hwhole ⊢
      by_cases ht : fill.ticker = t
      · have hsame : some fill.ticker = some t := congrArg some ht
        rw [if_pos hsame] at hwhole
        obtain ⟨hwholes, hsum, hfees⟩ := ih (fun r hr => hwhole r (List.mem_cons_of_mem _ hr))
        have hfill := hwhole raw List.mem_cons_self
        rw [hquantity] at hfill
        rw [if_pos ht, if_pos hsame]
        simp only [List.map_cons, List.sum_cons, hsigned, hfee, hsum, hfees, and_self, and_true]
        intro f hf hft
        rcases List.mem_cons.mp hf with rfl | hf
        · exact hfill
        · exact hwholes f hf hft
      · have hne : ¬ some fill.ticker = some t := fun heq => ht (Option.some.inj heq)
        rw [if_neg hne] at hwhole ⊢
        obtain ⟨hwholes, hsum, hfees⟩ := ih hwhole
        rw [if_neg ht]
        refine ⟨?_, hsum, hfees⟩
        intro f hf hft
        rcases List.mem_cons.mp hf with rfl | hf
        · exact absurd hft ht
        · exact hwholes f hf hft

/-! ### The report -/

/-- The signed shares of the open rows of one ticker. -/
def open_shares (t : Ticker) (trades : List TradeRow) : ℚ :=
  ((trades.filter (fun trade => trade.symbol = t ∧ trade.exit_date = none)).map
    (fun trade => trade.side.sign * trade.quantity)).sum

/-- The fees of all rows of one ticker. -/
def fees_of (t : Ticker) (trades : List TradeRow) : ℚ :=
  ((trades.filter (fun trade => trade.symbol = t)).map (fun trade => trade.fees)).sum

theorem open_shares_numbered {s : Pairing} (h : s.Booked)
    (hexits : ∀ row ∈ s.closed, row.exit_date ≠ none) (t : Ticker) :
    open_shares t (numbered (pairing_rows s)) = ((s.open_lots t).map Lot.signed).sum := by
  have hnumbered := sum_numbered (fun row => row.side.sign * row.quantity) (pairing_rows s)
    (fun row => row.symbol = t ∧ row.exit_date = none) 0
  have hopen : (pairing_rows s).filter (fun row => row.symbol = t ∧ row.exit_date = none) =
      (s.open_lots t).map (open_row t) := by
    have hsplit : (pairing_rows s).filter (fun row => row.symbol = t ∧ row.exit_date = none) =
        (rows_of t (pairing_rows s)).filter (fun row => row.exit_date = none) := by
      rw [rows_of, List.filter_filter]
      apply List.filter_congr
      intro row _
      rw [Bool.decide_and, Bool.and_comm]
    -- closed rows have their exits, and open ones have none
    have hclosed : (rows_of t s.closed).filter (fun row => row.exit_date = none) = [] := by
      apply List.filter_eq_nil_iff.mpr
      intro row hrow
      simpa using hexits row (List.mem_of_mem_filter hrow)
    rw [hsplit, rows_of_pairing h, List.filter_append, hclosed, List.nil_append]
    apply List.filter_eq_self.mpr
    intro row hrow
    obtain ⟨lot, _, rfl⟩ := List.mem_map.mp hrow
    rfl
  unfold open_shares numbered
  refine hnumbered.trans ?_
  rw [hopen, List.map_map]
  rfl

theorem fees_of_numbered {s : Pairing} (h : s.Booked) (t : Ticker) :
    fees_of t (numbered (pairing_rows s)) =
      ((rows_of t s.closed).map Row.fees).sum + ((s.open_lots t).map Lot.fees).sum := by
  have hnumbered := sum_numbered Row.fees (pairing_rows s) (fun row => row.symbol = t) 0
  have hrows : (pairing_rows s).filter (fun row => row.symbol = t) =
      rows_of t s.closed ++ (s.open_lots t).map (open_row t) := rows_of_pairing h t
  unfold fees_of numbered
  refine hnumbered.trans ?_
  rw [hrows, List.map_append, List.sum_append, List.map_map]
  rfl

/-- Rows are numbered from 0, in their order. -/
theorem numbered_seq (rows : List Row) :
    (numbered rows).map (fun trade => trade.seq) = List.range (numbered rows).length ∧
    (numbered rows).map (fun trade => trade.toRow) = rows := by
  unfold numbered
  constructor
  · rw [List.map_map, List.length_map, List.length_zipIdx]
    exact (List.zipIdx_map_snd 0 rows).trans (List.range_eq_range' ▸ rfl)
  · rw [List.map_map]
    exact List.zipIdx_map_fst 0 rows

/-- **The lot book.** At every point of the loops each ticker has a FIFO book,
    the round trips stand in closing order, and the next one takes the oldest
    lot. The report numbers them from 0, then the open lots in opening order;
    and ticker by ticker the open rows are the signed sum of the fills: exactly,
    with all the fees, in whole shares, and otherwise to the tolerance once a
    fill. -/
theorem fifo_lot_book (fills : List RawFill) (zone : Option Zone) (normalised : List Fill)
    (hok : normalise fills zone = .ok normalised) (hnonneg : ∀ raw ∈ fills, 0 ≤ raw.quantity) :
    (∀ labels p, (pairing_system normalised).Trace labels p →
      (∀ t, Queue (p.state.open_lots t)) ∧ p.state.closed = closed_by labels ∧
      ∀ row p', pairing_step p (.close row) p' → MatchesOldest p row p') ∧
    ∃ labels final trades, (pairing_system normalised).Trace labels ⟨[], none, final⟩ ∧
      pair_fills fills zone = .ok trades ∧
      trades.map (fun trade => trade.seq) = List.range trades.length ∧
      trades.map (fun trade => trade.toRow) =
        final.closed ++ (with_ticker final).map (fun x => open_row x.1 x.2) ∧
      (with_ticker final).Pairwise (fun a b => a.2.open_index < b.2.open_index) ∧
      (∀ t lot, (t, lot) ∈ with_ticker final ↔ lot ∈ final.open_lots t) ∧
      ∀ t,
        ((∀ raw ∈ raw_of t fills, whole raw.quantity ∧ 0 < raw.quantity) →
          open_shares t trades = ((raw_of t fills).map RawFill.signed).sum ∧
          fees_of t trades = ((raw_of t fills).map RawFill.fee).sum) ∧
        |open_shares t trades - ((raw_of t fills).map RawFill.signed).sum| ≤
          (raw_of t fills).length * eps := by
  constructor
  · intro labels p htrace
    have hbooked := points_booked normalised htrace
    refine ⟨hbooked.state.queues, points_closed normalised htrace, ?_⟩
    intro row p' hstep
    exact hbooked.matches_oldest hstep
  obtain ⟨labels, htrace⟩ := pair_all_point normalised
  obtain ⟨found, hfound, hperm⟩ := normalise_all hok
  have hbooked := pair_all_booked normalised
  obtain ⟨hseq, hrows⟩ := numbered_seq (pairing_rows (pair_all normalised))
  refine ⟨labels, pair_all normalised, numbered (pairing_rows (pair_all normalised)), htrace, ?_,
    hseq, hrows, with_ticker_opening_order hbooked, fun t lot => mem_with_ticker hbooked, ?_⟩
  · unfold pair_fills
    rw [hok]
    rfl
  intro t
  rw [open_shares_numbered hbooked (pair_all_exits normalised), fees_of_numbered hbooked]
  -- sorting moves no fill from one ticker to another
  have hsorted : (of_ticker t normalised).Perm (of_ticker t (found.filterMap id)) :=
    hperm.filter _
  have hsigned := (hsorted.map Fill.signed).sum_eq
  have hfees := (hsorted.map Fill.fees).sum_eq
  constructor
  · intro hwhole
    obtain ⟨hwholes, hsum, hfee⟩ := normalised_whole t hfound hwhole
    obtain ⟨_, hopen, hall⟩ := pair_all_whole t
      (fun fill (hfill : fill ∈ normalised) ht => hwholes fill (hperm.mem_iff.mp hfill) ht)
    exact ⟨by rw [hopen, hsigned, hsum], by rw [hall, hfees, hfee]⟩
  · have hquantities : ∀ fill ∈ normalised, 0 ≤ fill.quantity := by
      intro fill hfill
      have heps : (0 : ℚ) ≤ eps := by norm_num [eps]
      exact le_trans heps (le_of_lt (normalised_above hfound fill (hperm.mem_iff.mp hfill)))
    have hnear := pair_all_near t hquantities
    have hdropped := normalised_near t hfound hnonneg
    have htriangle := abs_sub_le (((pair_all normalised).open_lots t).map Lot.signed).sum
      ((of_ticker t normalised).map Fill.signed).sum ((raw_of t fills).map RawFill.signed).sum
    rw [hsorted.length_eq] at hnear
    rw [hsigned] at htriangle hnear
    linarith

/-- A fill of AAPL. -/
def aapl_fill (wall : ℤ) (signal : Signal) (shares : ℚ) : RawFill where
  timestamp := .moment { wall := wall, utcoffset := none }
  ticker := some ⟨"AAPL", aapl_nonempty⟩
  signal_type := signal
  shares := .number shares
  fill_price := .number 10
  fees := .number 1

/-- Two lots are closed by one sale, which flips to a short of 2. -/
def flip_fills : List RawFill :=
  [aapl_fill 1 .buy 3, aapl_fill 3 .sell 9, aapl_fill 2 .buy 4]

theorem fifo_lot_book_flip :
    ∃ trades, pair_fills flip_fills none = .ok trades ∧
      trades.map (fun trade => trade.quantity) = [3, 4, 2] ∧
      open_shares ⟨"AAPL", by decide⟩ trades = -2 ∧ fees_of ⟨"AAPL", by decide⟩ trades = 3 := by
  cases hok : normalise flip_fills none with
  | error e =>
    -- none of these fills is refused
    have hgood : (normalise flip_fills none).toOption ≠ none := by decide +kernel
    rw [hok] at hgood
    exact absurd rfl hgood
  | ok normalised =>
    have hfills : ∀ raw ∈ flip_fills, whole raw.quantity ∧ 0 < raw.quantity := by
      intro raw hraw
      simp only [flip_fills, List.mem_cons, List.not_mem_nil, or_false] at hraw
      rcases hraw with rfl | rfl | rfl
      · exact ⟨⟨3, rfl⟩, by decide +kernel⟩
      · exact ⟨⟨9, rfl⟩, by decide +kernel⟩
      · exact ⟨⟨4, rfl⟩, by decide +kernel⟩
    obtain ⟨_, labels, final, trades, _, hpaired, _, _, _, _, hsums⟩ :=
      fifo_lot_book flip_fills none normalised hok (fun raw hraw => le_of_lt (hfills raw hraw).2)
    obtain ⟨hopen, hfees⟩ := (hsums ⟨"AAPL", by decide⟩).1
      (fun raw hraw => hfills raw (List.mem_of_mem_filter hraw))
    refine ⟨trades, hpaired, ?_, ?_, ?_⟩
    · have hquantities : ((pair_fills flip_fills none).toOption.getD []).map
          (fun trade => trade.quantity) = [3, 4, 2] := by decide +kernel
      rw [hpaired] at hquantities
      exact hquantities
    · rw [hopen]
      decide +kernel
    · rw [hfees]
      decide +kernel

end Reporting
