import BacktestVisualizer.Framework.RollingWindow

/-! # Columns Over Time

  Operators on the columns of a table whose rows come one after the other in
  time. An operator is *causal* when it answers row by row and no answer reads
  a later row. Causal operators compose, and such an operator is the same as
  the value it gives at the end of every history.
-/

namespace Columns

open Rolling

variable {α β γ δ κ σ : Type*}

/-- One answer for every row, and no answer reads a later row. -/
structure Causal (f : List α → List β) : Prop where
  length : ∀ xs, (f xs).length = xs.length
  earlier : ∀ xs ys, f xs <+: f (xs ++ ys)

/-! ### Rows and the rows up to them -/

theorem Causal.nil {f : List α → List β} (hf : Causal f) : f [] = [] :=
  List.eq_nil_of_length_eq_zero (hf.length [])

/-- More rows only add answers. -/
theorem Causal.of_extended {f : List α → List β} (hf : Causal f) {xs xs' : List α} (h : xs <+: xs') :
    f xs <+: f xs' := by
  obtain ⟨rest, rfl⟩ := h
  exact hf.earlier xs rest

theorem zipWith_extended {h : α → β → γ} {xs xs' : List α} {ys ys' : List β} (hx : xs <+: xs')
    (hy : ys <+: ys') (hlength : xs.length = ys.length) :
    List.zipWith h xs ys <+: List.zipWith h xs' ys' := by
  obtain ⟨rest, rfl⟩ := hx
  obtain ⟨rest', rfl⟩ := hy
  rw [List.zipWith_append hlength]
  exact List.prefix_append _ _

/-- The last answer, which the whole history decides. -/
def latest (f : List α → List β) (default : β) (history : List α) : β :=
  (f history).getLastD default

/-- One row more: the old answers stay, and there is a new one. -/
theorem Causal.snoc {f : List α → List β} (hf : Causal f) (default : β) (xs : List α) (x : α) :
    f (xs ++ [x]) = f xs ++ [latest f default (xs ++ [x])] := by
  obtain ⟨rest, hrest⟩ := hf.earlier xs [x]
  have hlength := hf.length (xs ++ [x])
  rw [← hrest, List.length_append, hf.length, List.length_append, List.length_singleton,
    Nat.add_left_cancel_iff] at hlength
  obtain ⟨y, rfl⟩ := List.length_eq_one_iff.mp hlength
  unfold latest
  rw [← hrest]
  simp

/-- `expanding`: every row from the rows up to it. -/
def expanding (f : List α → β) (xs : List α) : List β :=
  (List.range xs.length).map (fun i => f (xs.take (i + 1)))

theorem causal_expanding (f : List α → β) : Causal (expanding f) where
  length := by
    intro xs
    unfold expanding
    rw [List.length_map, List.length_range]
  earlier := by
    intro xs ys
    unfold expanding
    rw [List.length_append, List.range_add, List.map_append]
    have hsame : ∀ i ∈ List.range xs.length,
        f (xs.take (i + 1)) = f ((xs ++ ys).take (i + 1)) := by
      intro i hi
      have := List.mem_range.mp hi
      rw [List.take_append_of_le_length (by omega)]
    rw [List.map_congr_left hsame]
    exact List.prefix_append _ _

/-- **A causal operator** gives every row the last answer of its history. -/
theorem Causal.eq_expanding {f : List α → List β} (hf : Causal f) (default : β) (xs : List α) :
    f xs = expanding (latest f default) xs := by
  induction xs using List.reverseRecOn with
  | nil => exact hf.nil
  | append_singleton xs x ih =>
    have hall := (causal_expanding (latest f default)).snoc default xs x
    rw [hf.snoc default, ih, hall]
    congr 2
    unfold latest
    rw [hf.snoc default, ih]
    unfold expanding
    rw [List.length_append, List.length_singleton, List.range_succ, List.map_append,
      List.map_singleton]
    simp only [List.getLastD_concat]
    show _ = latest f default _
    rw [show (xs ++ [x]).take (xs.length + 1) = xs ++ [x] from List.take_of_length_le (by simp)]

/-! ### The answers after some rows -/

/-- What is answered for the rows of `xs`, with others before them. -/
def since (f : List α → List β) (before xs : List α) : List β := (f (before ++ xs)).drop before.length

theorem Causal.since_nil {f : List α → List β} (hf : Causal f) (before : List α) :
    since f before [] = [] := by
  apply List.drop_eq_nil_of_le
  rw [hf.length, List.append_nil]

/-- The first of them ends the history before the others. -/
theorem Causal.since_cons {f : List α → List β} (hf : Causal f) (default : β) (before : List α)
    (x : α) (xs : List α) :
    since f before (x :: xs) =
      latest f default (before ++ [x]) :: since f (before ++ [x]) xs := by
  unfold since
  rw [show before ++ x :: xs = before ++ [x] ++ xs by simp]
  obtain ⟨rest, hrest⟩ := hf.earlier (before ++ [x]) xs
  have hbefore : before.length = (f before).length := (hf.length before).symm
  have hfirst : (before ++ [x]).length = (f (before ++ [x])).length := (hf.length _).symm
  rw [← hrest, hfirst, List.drop_left, hf.snoc default, List.append_assoc, hbefore, List.drop_left]
  rfl

/-! ### Operators -/

/-- A value for every row alone. -/
theorem causal_map (g : α → β) : Causal (List.map g) where
  length := fun xs => List.length_map g
  earlier := by
    intro xs ys
    rw [List.map_append]
    exact List.prefix_append _ _

theorem causal_id : Causal (fun xs : List α => xs) where
  length := fun _ => rfl
  earlier := fun xs ys => List.prefix_append xs ys

theorem Causal.comp {g : List β → List γ} {f : List α → List β} (hg : Causal g) (hf : Causal f) :
    Causal (fun xs => g (f xs)) where
  length := by
    intro xs
    rw [hg.length, hf.length]
  earlier := by
    intro xs ys
    obtain ⟨rest, hrest⟩ := hf.earlier xs ys
    rw [← hrest]
    exact hg.earlier _ _

/-- Two columns, row by row. -/
theorem Causal.zipWith (h : β → γ → δ) {f : List α → List β} {g : List α → List γ}
    (hf : Causal f) (hg : Causal g) : Causal (fun xs => List.zipWith h (f xs) (g xs)) where
  length := by
    intro xs
    rw [List.length_zipWith, hf.length, hg.length, min_self]
  earlier := by
    intro xs ys
    obtain ⟨rest, hrest⟩ := hf.earlier xs ys
    obtain ⟨rest', hrest'⟩ := hg.earlier xs ys
    rw [← hrest, ← hrest', List.zipWith_append (by rw [hf.length, hg.length])]
    exact List.prefix_append _ _

/-- `shift`: every row shows the row `k` before it. -/
def shift (k : ℕ) (fill : α) (xs : List α) : List α :=
  (List.replicate k fill ++ xs).take xs.length

theorem causal_shift (k : ℕ) (fill : α) : Causal (shift k fill) where
  length := by
    intro xs
    unfold shift
    rw [List.length_take, List.length_append]
    omega
  earlier := by
    intro xs ys
    unfold shift
    rw [← List.append_assoc, List.length_append]
    rw [show (List.replicate k fill ++ xs).take xs.length =
      (List.replicate k fill ++ xs ++ ys).take xs.length from
        (List.take_append_of_le_length (by rw [List.length_append]; omega)).symm]
    exact List.take_prefix_take_left (by omega)

/-- The last answer, one row later. -/
theorem latest_shift {f : List α → List β} (hf : Causal f) (fill default : β) (xs : List α) (x : α) :
    latest (fun xs => shift 1 fill (f xs)) default (xs ++ [x]) = (f xs).getLastD fill := by
  show (shift 1 fill (f (xs ++ [x]))).getLastD default = _
  unfold shift
  rw [hf.snoc default, List.length_append, List.length_singleton, List.replicate_one,
    List.singleton_append, List.take_succ_cons, List.take_left, List.getLastD_cons]

/-- A running state with an answer at every row. -/
def scan (step : σ → α → σ × β) : σ → List α → List β
  | _, [] => []
  | s, x :: xs => (step s x).2 :: scan step (step s x).1 xs

theorem causal_scan (step : σ → α → σ × β) (s : σ) : Causal (scan step s) where
  length := by
    intro xs
    induction xs generalizing s with
    | nil => rfl
    | cons x xs ih =>
      show (scan step _ xs).length + 1 = _
      rw [ih, List.length_cons]
  earlier := by
    intro xs ys
    induction xs generalizing s with
    | nil => exact List.nil_prefix
    | cons x xs ih => exact List.cons_prefix_cons.mpr ⟨rfl, ih _⟩

/-- `rolling`: every row from the last `n` rows up to it. -/
def rolling (n : ℕ) (f : List α → β) : List α → List β :=
  expanding (fun history => f (history.rtake n))

theorem causal_rolling (n : ℕ) (f : List α → β) : Causal (rolling n f) := causal_expanding _

/-! ### Tables -/

/-- A table put together from its columns. -/
def table (column : κ → List α → List β) (default : β) (xs : List α) : List (κ → β) :=
  (List.range xs.length).map (fun i k => (column k xs).getD i default)

theorem causal_table {column : κ → List α → List β} (h : ∀ k, Causal (column k)) (default : β) :
    Causal (table column default) where
  length := by
    intro xs
    unfold table
    rw [List.length_map, List.length_range]
  earlier := by
    intro xs ys
    unfold table
    rw [List.length_append, List.range_add, List.map_append]
    have hsame : ∀ i ∈ List.range xs.length,
        (fun k => (column k xs).getD i default) =
          fun k => (column k (xs ++ ys)).getD i default := by
      intro i hi
      funext k
      have hlt : i < (column k xs).length := by
        rw [(h k).length]
        exact List.mem_range.mp hi
      obtain ⟨rest, hrest⟩ := (h k).earlier xs ys
      rw [← hrest, List.getD_eq_getElem?_getD, List.getD_eq_getElem?_getD,
        List.getElem?_append_left hlt]
    rw [List.map_congr_left hsame]
    exact List.prefix_append _ _

theorem column_table {column : κ → List α → List β} {k : κ} (h : Causal (column k)) (default : β)
    (xs : List α) : (table column default xs).map (fun row => row k) = column k xs := by
  unfold table
  apply List.ext_getElem
  · rw [List.length_map, List.length_map, List.length_range, h.length]
  · intro i _ hi
    rw [List.getElem_map, List.getElem_map, List.getElem_range, List.getD_eq_getElem?_getD,
      List.getElem?_eq_getElem hi]
    rfl

/-- The last row of a table has the last answer of every column. -/
theorem latest_table {column : κ → List α → List β} (h : ∀ k, Causal (column k)) (default : β)
    {xs : List α} (hne : xs ≠ []) :
    latest (table column default) (fun _ => default) xs = fun k => latest (column k) default xs := by
  obtain ⟨ys, x, rfl⟩ : ∃ ys x, xs = ys ++ [x] :=
    (List.eq_nil_or_concat' xs).resolve_left hne
  funext k
  unfold latest table
  rw [List.length_append, List.length_singleton, List.range_succ, List.map_append,
    List.map_singleton, List.getLastD_concat, (h k).snoc default, List.getLastD_concat,
    List.getD_eq_getElem?_getD, List.getElem?_append_right (by rw [(h k).length]), (h k).length,
    Nat.sub_self]
  rfl

end Columns
