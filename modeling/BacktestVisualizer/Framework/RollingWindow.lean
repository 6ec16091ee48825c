import Mathlib.Algebra.BigOperators.Group.List.Basic
import Mathlib.Algebra.Group.Basic
import Mathlib.Data.List.DropRight

/-! # Rolling Windows

  A buffer of bounded length gives up its oldest entry for a new one. A
  `Window` also keeps the total of its entries, corrected by what comes in
  and what goes out: after any stream it has the last entries of the stream
  and their sum.
-/

namespace Rolling

variable {α : Type*}

/-! ### Bounded buffers -/

/-- A new entry at the end; only the last `size` entries stay. -/
def push (size : ℕ) (buffer : List α) (x : α) : List α := (buffer ++ [x]).rtake size

theorem length_rtake (n : ℕ) (xs : List α) : (xs.rtake n).length = min n xs.length := by
  rw [List.rtake, List.length_drop]
  omega

theorem rtake_eq_self {n : ℕ} {xs : List α} (h : xs.length ≤ n) : xs.rtake n = xs := by
  rw [List.rtake, show xs.length - n = 0 by omega, List.drop_zero]

theorem rtake_rtake {m n : ℕ} (h : n ≤ m) (xs : List α) : (xs.rtake m).rtake n = xs.rtake n := by
  simp only [List.rtake, List.length_drop, List.drop_drop]
  congr 1
  omega

/-- There is room for one more. -/
theorem push_of_lt {size : ℕ} {buffer : List α} (h : buffer.length < size) (x : α) :
    push size buffer x = buffer ++ [x] := by
  apply rtake_eq_self
  rw [List.length_append, List.length_singleton]
  omega

/-- The oldest entry goes. -/
theorem push_full (oldest : α) (rest : List α) (x : α) :
    push (rest.length + 1) (oldest :: rest) x = rest ++ [x] := by
  unfold push
  rw [List.rtake_concat_succ, List.rtake]
  simp

/-- A buffer that already gave up entries goes on as if it had not. -/
theorem push_rtake (size : ℕ) (xs : List α) (x : α) :
    push size (xs.rtake size) x = (xs ++ [x]).rtake size := by
  unfold push
  cases size with
  | zero => simp
  | succ n => rw [List.rtake_concat_succ, List.rtake_concat_succ, rtake_rtake (Nat.le_succ n)]

/-! ### Points and the points before them -/

section Lagged

variable {β : Type*} {f : α → α → β} {m : ℕ}

/-- Every point with the point `m` before it. -/
def lagged (m : ℕ) (f : α → α → β) (xs : List α) : List β := List.zipWith f xs (xs.drop m)

theorem length_lagged (m : ℕ) (f : α → α → β) (xs : List α) :
    (lagged m f xs).length = xs.length - m := by
  unfold lagged
  rw [List.length_zipWith, List.length_drop]
  omega

/-- No point reaches back that far. -/
theorem lagged_short {xs : List α} (h : xs.length ≤ m) : lagged m f xs = [] := by
  rw [← List.length_eq_zero_iff, length_lagged]
  omega

/-- The newest point comes last. -/
theorem lagged_snoc (hm : 0 < m) {xs : List α} (h : m ≤ xs.length) (x : α) :
    lagged m f (xs ++ [x]) = lagged m f xs ++ [f (xs[xs.length - m]) x] := by
  -- the points before the last `m` are those that have a partner already
  have hsplit : xs = xs.take (xs.length - m) ++ xs.drop (xs.length - m) :=
    (List.take_append_drop _ _).symm
  have hlength : (xs.take (xs.length - m)).length = (xs.drop m).length := by
    rw [List.length_take, List.length_drop]
    omega
  have hold : lagged m f xs = List.zipWith f (xs.take (xs.length - m)) (xs.drop m) := by
    unfold lagged
    nth_rewrite 1 [hsplit]
    rw [← List.append_nil (xs.drop m), List.zipWith_append hlength, List.zipWith_nil_right,
      List.append_nil, List.append_nil]
  have hfirst : xs.drop (xs.length - m) = xs[xs.length - m] :: xs.drop (xs.length - m + 1) :=
    List.drop_eq_getElem_cons (by omega)
  rw [hold]
  unfold lagged
  rw [List.drop_append_of_le_length h]
  nth_rewrite 1 [hsplit]
  rw [List.append_assoc, List.zipWith_append hlength]
  congr 1
  rw [hfirst, List.cons_append, List.zipWith_cons_cons, List.zipWith_nil_right]

end Lagged

/-! ### Values of the last entries -/

section Recent

variable {β γ : Type*} {f : List α → β} {n : ℕ}

/-- Only the last `n` entries of a stream decide the value. -/
def Recent (n : ℕ) (f : List α → β) : Prop :=
  ∀ earlier xs, n ≤ xs.length → f (earlier ++ xs) = f xs

/-- Entries may be changed one by one before. -/
theorem Recent.of_map (hf : Recent n f) (g : γ → α) : Recent n (fun xs => f (xs.map g)) := by
  intro earlier xs h
  show f ((earlier ++ xs).map g) = f (xs.map g)
  rw [List.map_append]
  apply hf
  rw [List.length_map]
  exact h

theorem recent_rtake (n : ℕ) : Recent n (fun xs : List α => xs.rtake n) := by
  intro earlier xs h
  show (earlier ++ xs).drop _ = xs.drop _
  have hcount : (earlier ++ xs).length - n = earlier.length + (xs.length - n) := by
    rw [List.length_append]
    omega
  rw [hcount, List.drop_append, List.drop_of_length_le (by omega), Nat.add_sub_cancel_left,
    List.nil_append]

/-- A partner further back needs as many entries more. -/
theorem Recent.of_lagged (hf : Recent n f) {m : ℕ} (hm : 0 < m) (g : γ → γ → α) :
    Recent (n + m) (fun xs => f (lagged m g xs)) := by
  intro earlier xs h
  show f (lagged m g (earlier ++ xs)) = f (lagged m g xs)
  -- the pairs of the longer stream end with those of the shorter
  have hpairs : ∃ before, lagged m g (earlier ++ xs) = before ++ lagged m g xs := by
    induction earlier with
    | nil => exact ⟨[], rfl⟩
    | cons y earlier ih =>
      obtain ⟨before, hbefore⟩ := ih
      have hlong : m ≤ (earlier ++ xs).length := by
        rw [List.length_append]
        omega
      obtain ⟨k, rfl⟩ : ∃ k, m = k + 1 := ⟨m - 1, by omega⟩
      have hk : k < (earlier ++ xs).length := by omega
      refine ⟨g y (earlier ++ xs)[k] :: before, ?_⟩
      rw [List.cons_append, List.cons_append, ← hbefore]
      unfold lagged
      rw [List.drop_succ_cons, List.drop_eq_getElem_cons hk, List.zipWith_cons_cons]
  obtain ⟨before, hbefore⟩ := hpairs
  rw [hbefore]
  apply hf
  rw [length_lagged]
  omega

end Recent

/-! ### Running totals -/

/-- A bounded buffer with the total of its entries. -/
structure Window (α : Type*) [AddCommGroup α] where
  size : ℕ
  buffer : List α
  total : α
  size_pos : 0 < size
  length_le : buffer.length ≤ size
  total_eq : total = buffer.sum

section Window

variable [AddCommGroup α]

/-- Nothing seen so far. -/
def Window.empty {size : ℕ} (h : 0 < size) : Window α where
  size := size
  buffer := []
  total := 0
  size_pos := h
  length_le := Nat.zero_le _
  total_eq := rfl

/-- The total once the oldest entry of a full buffer is about to go. -/
def total_kept (size : ℕ) (buffer : List α) (total : α) : α :=
  if buffer.length = size then total - buffer.headD 0 else total

theorem total_push {size : ℕ} {buffer : List α} {total : α} (hsize : 0 < size)
    (hlength : buffer.length ≤ size) (htotal : total = buffer.sum) (x : α) :
    total_kept size buffer total + x = (push size buffer x).sum := by
  unfold total_kept
  by_cases hfull : buffer.length = size
  · cases buffer with
    | nil =>
      rw [List.length_nil] at hfull
      omega
    | cons oldest rest =>
      rw [if_pos hfull, htotal, ← hfull, List.length_cons, push_full]
      simp
  · rw [if_neg hfull, htotal, push_of_lt (by omega)]
    simp

/-- One entry more: the total is corrected, not computed anew. -/
def Window.slide (w : Window α) (x : α) : Window α where
  size := w.size
  buffer := push w.size w.buffer x
  total := total_kept w.size w.buffer w.total + x
  size_pos := w.size_pos
  length_le := by
    unfold push
    rw [length_rtake]
    exact min_le_left _ _
  total_eq := total_push w.size_pos w.length_le w.total_eq x

/-- The window after a stream. -/
def Window.after (w : Window α) (xs : List α) : Window α := xs.foldl Window.slide w

@[simp] theorem Window.after_nil (w : Window α) : w.after [] = w := rfl

@[simp] theorem Window.after_snoc (w : Window α) (xs : List α) (x : α) :
    w.after (xs ++ [x]) = (w.after xs).slide x := by
  simp [Window.after]

@[simp] theorem Window.after_size (w : Window α) (xs : List α) : (w.after xs).size = w.size := by
  induction xs using List.reverseRecOn with
  | nil => rfl
  | append_singleton xs x ih => rw [after_snoc, ← ih, slide]

variable {size : ℕ} (h : 0 < size)

theorem Window.after_buffer (xs : List α) :
    ((Window.empty (α := α) h).after xs).buffer = xs.rtake size := by
  induction xs using List.reverseRecOn with
  | nil => simp [empty]
  | append_singleton xs x ih =>
    rw [after_snoc]
    show push ((Window.empty h).after xs).size ((Window.empty h).after xs).buffer x = _
    rw [ih, after_size]
    exact push_rtake size xs x

/-- **The running total** is the sum of the last entries. -/
theorem Window.after_total (xs : List α) :
    ((Window.empty (α := α) h).after xs).total = (xs.rtake size).sum := by
  rw [total_eq, after_buffer]

/-- A window is full once the stream is as long. -/
theorem Window.after_full (xs : List α) :
    ((Window.empty (α := α) h).after xs).buffer.length = size ↔ size ≤ xs.length := by
  rw [after_buffer, length_rtake]
  omega

end Window

end Rolling
