import Mathlib.Data.List.Sort
import Mathlib.Tactic

/-! # Timelines

  A list of rows in the order of a key, such as a table sorted by its
  timestamps. A binary search and the position of the last row of a key cut
  a slice out of the list; the slice is what a filter on the key selects.
  The last row of a selection is its newest.
-/

namespace Timeline

variable {α κ : Type} [LinearOrder κ] {key : α → κ}

/-- Rows in the order of their keys. Rows that share a key stand in any
    order. -/
def Sorted (key : α → κ) (l : List α) : Prop := l.Pairwise (fun a b => key a ≤ key b)

/-! ### Slices -/

/-- `searchsorted(x, side="left")`: how many rows come before the key. -/
def searchsorted_left (key : α → κ) (l : List α) (x : κ) : ℕ :=
  (l.takeWhile (fun a => key a < x)).length

/-- The position of the last row with a key. -/
def last_index (key : α → κ) (l : List α) (x : κ) : Option ℕ :=
  ((l.zipIdx.filter (fun p => key p.1 = x)).map Prod.snd).max?

/-- A list whose first `m` elements fail `p` and whose others have it. -/
theorem filter_eq_drop {p : α → Bool} {l : List α} {m : ℕ} (hbefore : ∀ a ∈ l.take m, p a = false)
    (hafter : ∀ a ∈ l.drop m, p a = true) : l.filter p = l.drop m := by
  have hsplit : l.filter p = (l.take m).filter p ++ (l.drop m).filter p := by
    rw [← List.filter_append, List.take_append_drop]
  rw [hsplit, List.filter_eq_self.mpr hafter,
    List.filter_eq_nil_iff.mpr (fun a ha => by simp [hbefore a ha]), List.nil_append]

/-- A list whose first `m` elements have `p` and whose others fail it. -/
theorem filter_eq_take {p : α → Bool} {l : List α} {m : ℕ} (hbefore : ∀ a ∈ l.take m, p a = true)
    (hafter : ∀ a ∈ l.drop m, p a = false) : l.filter p = l.take m := by
  have hsplit : l.filter p = (l.take m).filter p ++ (l.drop m).filter p := by
    rw [← List.filter_append, List.take_append_drop]
  rw [hsplit, List.filter_eq_self.mpr hbefore,
    List.filter_eq_nil_iff.mpr (fun a ha => by simp [hafter a ha]), List.append_nil]

theorem searchsorted_left_spec {l : List α} (hl : Sorted key l) (x : κ) :
    (∀ a ∈ l.take (searchsorted_left key l x), key a < x) ∧
    ∀ a ∈ l.drop (searchsorted_left key l x), x ≤ key a := by
  unfold searchsorted_left
  induction l with
  | nil => simp
  | cons a l ih =>
    obtain ⟨hhead, htail⟩ := List.pairwise_cons.mp hl
    by_cases hlt : key a < x
    · rw [List.takeWhile_cons_of_pos (by simpa using hlt)]
      obtain ⟨hbefore, hafter⟩ := ih htail
      refine ⟨fun b hb => ?_, hafter⟩
      rcases List.mem_cons.mp hb with rfl | hb
      · exact hlt
      · exact hbefore b hb
    · rw [List.takeWhile_cons_of_neg (by simpa using hlt)]
      refine ⟨by simp, fun b hb => ?_⟩
      rcases List.mem_cons.mp hb with rfl | hb
      · exact not_lt.mp hlt
      · exact le_trans (not_lt.mp hlt) (hhead b hb)

theorem last_index_spec {l : List α} (hl : Sorted key l) {x : κ} {n : ℕ}
    (hn : last_index key l x = some n) :
    (∀ a ∈ l.take (n + 1), key a ≤ x) ∧ ∀ a ∈ l.drop (n + 1), x < key a := by
  have hmem : ∀ i, i ∈ (l.zipIdx.filter (fun p => key p.1 = x)).map Prod.snd ↔
      ∃ a, l[i]? = some a ∧ key a = x := by
    intro i
    simp [List.mem_zipIdx_iff_getElem?]
  obtain ⟨hin, hmax⟩ := List.max?_eq_some_iff.mp hn
  obtain ⟨c, hc, hkey⟩ := (hmem n).mp hin
  have horder : ∀ (i j : ℕ) (a b : α), i < j → l[i]? = some a → l[j]? = some b → key a ≤ key b := by
    intro i j a b hij ha hb
    obtain ⟨hi, rfl⟩ := List.getElem?_eq_some_iff.mp ha
    obtain ⟨hj, rfl⟩ := List.getElem?_eq_some_iff.mp hb
    exact List.pairwise_iff_getElem.mp hl i j hi hj hij
  constructor
  · intro a ha
    obtain ⟨i, hi⟩ := List.mem_iff_getElem?.mp ha
    rw [List.getElem?_take] at hi
    split at hi
    · rename_i hlt
      rcases Nat.lt_or_eq_of_le (Nat.lt_succ_iff.mp hlt) with hlt | heq
      · exact le_of_le_of_eq (horder i n a c hlt hi hc) hkey
      · subst heq
        obtain rfl : a = c := Option.some.inj (hi.symm.trans hc)
        exact le_of_eq hkey
    · exact absurd hi (by simp)
  · intro a ha
    obtain ⟨i, hi⟩ := List.mem_iff_getElem?.mp ha
    rw [List.getElem?_drop] at hi
    have hle : x ≤ key a := by
      rw [← hkey]
      exact horder n (n + 1 + i) c a (by omega) hc hi
    -- a later row with the key would have a larger index
    refine lt_of_le_of_ne hle (fun heq => ?_)
    have := hmax _ ((hmem (n + 1 + i)).mpr ⟨a, hi, heq.symm⟩)
    omega

theorem exists_last_index {l : List α} {a : α} (ha : a ∈ l) :
    ∃ n, last_index key l (key a) = some n := by
  unfold last_index
  obtain ⟨i, hi⟩ := List.mem_iff_getElem?.mp ha
  apply Option.ne_none_iff_exists'.mp
  intro hnone
  have hnil := List.map_eq_nil_iff.mp (List.max?_eq_none_iff.mp hnone)
  have hmem : (a, i) ∈ l.zipIdx.filter (fun p => key p.1 = key a) := by
    rw [List.mem_filter]
    exact ⟨List.mem_zipIdx_iff_getElem?.mpr hi, by simp⟩
  rw [hnil] at hmem
  exact absurd hmem (by simp)

/-- Dropping what a binary search counts, from the front of a list. -/
theorem drop_take_eq_filter {l : List α} (hl : Sorted key l) (low : κ) (n : ℕ) :
    (l.take n).drop (searchsorted_left key l low) = (l.take n).filter (fun a => low ≤ key a) := by
  obtain ⟨hlow, hlow'⟩ := searchsorted_left_spec hl low
  symm
  apply filter_eq_drop
  · intro a ha
    rw [List.take_take, Nat.min_comm, ← List.take_take] at ha
    simpa using hlow a (List.mem_of_mem_take ha)
  · intro a ha
    rw [List.drop_take] at ha
    simpa using hlow' a (List.mem_of_mem_take ha)

/-- **A slice** from a binary search to the last row of a key holds the rows
    between the two keys. -/
theorem slice_eq_filter {l : List α} (hl : Sorted key l) {low high : κ} {n : ℕ}
    (hn : last_index key l high = some n) :
    (l.take (n + 1)).drop (searchsorted_left key l low) =
      l.filter (fun a => low ≤ key a ∧ key a ≤ high) := by
  obtain ⟨hhigh, hhigh'⟩ := last_index_spec hl hn
  have htake : l.filter (fun a => key a ≤ high) = l.take (n + 1) :=
    filter_eq_take (fun a ha => by simpa using hhigh a ha) (fun a ha => by simpa using hhigh' a ha)
  rw [drop_take_eq_filter hl, ← htake, List.filter_filter]
  congr 1
  funext a
  simp

/-- A slice between two binary searches. -/
theorem between_eq_filter {l : List α} (hl : Sorted key l) (low high : κ) :
    (l.take (searchsorted_left key l high)).drop (searchsorted_left key l low) =
      l.filter (fun a => low ≤ key a ∧ key a < high) := by
  obtain ⟨hhigh, hhigh'⟩ := searchsorted_left_spec hl high
  have htake : l.filter (fun a => key a < high) = l.take (searchsorted_left key l high) :=
    filter_eq_take (fun a ha => by simpa using hhigh a ha) (fun a ha => by simpa using hhigh' a ha)
  rw [drop_take_eq_filter hl, ← htake, List.filter_filter]
  congr 1
  funext a
  simp

theorem searchsorted_left_le (l : List α) (x : κ) : searchsorted_left key l x ≤ l.length :=
  (List.takeWhile_sublist _).length_le

/-! ### Cutting a timeline in two -/

/-- Rows before a key come first. -/
theorem filter_cut {l : List α} (hl : Sorted key l) (p : α → Bool) (c : κ) :
    l.filter p = l.filter (fun a => p a && decide (key a < c)) ++
      l.filter (fun a => p a && decide (c ≤ key a)) := by
  obtain ⟨hbefore, hafter⟩ := searchsorted_left_spec hl c
  have hlow : l.filter (fun a => decide (key a < c)) = l.take (searchsorted_left key l c) :=
    filter_eq_take (fun a ha => by simpa using hbefore a ha)
      (fun a ha => by simpa using hafter a ha)
  have hhigh : l.filter (fun a => decide (c ≤ key a)) = l.drop (searchsorted_left key l c) :=
    filter_eq_drop (fun a ha => by simpa using hbefore a ha)
      (fun a ha => by simpa using hafter a ha)
  rw [← List.filter_filter, ← List.filter_filter, hlow, hhigh, ← List.filter_append,
    List.take_append_drop]

/-- The rows up to a key, then the rows after it. -/
theorem filter_le_append_filter_lt {l : List α} (hl : Sorted key l) (c : κ) :
    l.filter (fun a => key a ≤ c) ++ l.filter (fun a => c < key a) = l := by
  induction l with
  | nil => rfl
  | cons a l ih =>
    obtain ⟨hhead, htail⟩ := List.pairwise_cons.mp hl
    by_cases ha : key a ≤ c
    · rw [List.filter_cons_of_pos (by simpa using ha),
        List.filter_cons_of_neg (by simpa using ha), List.cons_append, ih htail]
    · have hlate : ∀ b ∈ a :: l, c < key b := by
        intro b hb
        rcases List.mem_cons.mp hb with rfl | hb
        · exact not_le.mp ha
        · exact lt_of_lt_of_le (not_le.mp ha) (hhead b hb)
      rw [List.filter_eq_nil_iff.mpr (fun b hb => by simpa using hlate b hb), List.nil_append]
      apply List.filter_eq_self.mpr
      intro b hb
      simpa using hlate b hb

/-! ### Newest rows -/

/-- The newest row of a selection is the newest of any smaller selection it
    is in. -/
theorem newest_of_imp {p q : α → Bool} {l : List α} {a : α}
    (h : (l.filter p).getLast? = some a) (hqp : ∀ b ∈ l, q b = true → p b = true)
    (ha : q a = true) : (l.filter q).getLast? = some a := by
  have hfilter : l.filter q = (l.filter p).filter q := by
    rw [List.filter_filter]
    apply List.filter_congr
    intro b hb
    cases hq : q b with
    | false => simp
    | true => simp [hqp b hb hq]
  obtain ⟨l', hl'⟩ := List.getLast?_eq_some_iff.mp h
  rw [hfilter, hl', List.filter_append, List.filter_cons_of_pos ha]
  simp

theorem key_le_newest {l : List α} (hl : Sorted key l) {p : α → Bool} {a b : α}
    (h : (l.filter p).getLast? = some a) (hb : b ∈ l) (hp : p b = true) : key b ≤ key a := by
  obtain ⟨l', hl'⟩ := List.getLast?_eq_some_iff.mp h
  have hsorted : Sorted key (l' ++ [a]) := by
    rw [← hl']
    exact hl.filter p
  have hmem : b ∈ l' ++ [a] := by
    rw [← hl']
    exact List.mem_filter.mpr ⟨hb, hp⟩
  rcases List.mem_append.mp hmem with hold | hnew
  · exact (List.pairwise_append.mp hsorted).2.2 b hold a (by simp)
  · rw [List.mem_singleton.mp hnew]

theorem newest_mem {p : α → Bool} {l : List α} {a : α} (h : (l.filter p).getLast? = some a) :
    a ∈ l ∧ p a = true :=
  List.mem_filter.mp (List.mem_of_getLast? h)

/-- The last value of a column is that of the newest row that has one. -/
theorem newest_value {β : Type} {f : α → Option β} {l : List α} {b : β}
    (h : (l.filterMap f).getLast? = some b) :
    ∃ a, (l.filter (fun a => (f a).isSome)).getLast? = some a ∧ f a = some b := by
  induction l using List.reverseRecOn with
  | nil => simp at h
  | append_singleton l a ih =>
    rw [List.filterMap_append] at h
    rw [List.filter_append]
    cases hf : f a with
    | none =>
      have hrest : (l.filterMap f).getLast? = some b := by simpa [hf] using h
      obtain ⟨a', ha', hfa'⟩ := ih hrest
      refine ⟨a', ?_, hfa'⟩
      rw [List.filter_cons_of_neg (by simp [hf]), List.filter_nil, List.append_nil]
      exact ha'
    | some b' =>
      obtain rfl : b' = b := by simpa [hf] using h
      refine ⟨a, ?_, hf⟩
      rw [List.filter_cons_of_pos (by simp [hf]), List.filter_nil, List.getLast?_append]
      rfl

/-! ### The keys of a run -/

/-- In a list without repetition in order, what was there before an element
    is what is smaller. -/
theorem mem_before_iff {l before : List κ} {now x : κ} (hl : l.Pairwise (· < ·))
    (hpre : before ++ [now] <+: l) (hx : x ∈ l) : x ∈ before ↔ x < now := by
  obtain ⟨after, rfl⟩ := hpre
  obtain ⟨hfirst, _, hcross⟩ := List.pairwise_append.mp hl
  obtain ⟨_, _, hbefore⟩ := List.pairwise_append.mp hfirst
  constructor
  · intro h
    exact hbefore x h now (by simp)
  · intro hlt
    rcases List.mem_append.mp hx with hin | hafter
    · rcases List.mem_append.mp hin with h | hnow
      · exact h
      · exact absurd hlt (by simp [List.mem_singleton.mp hnow])
    · exact absurd hlt (not_lt.mpr (le_of_lt (hcross now (by simp) x hafter)))

/-- The distinct keys of a timeline are in order. -/
theorem dedup_keys_sorted {l : List α} (hl : Sorted key l) :
    (l.map key).dedup.Pairwise (· < ·) := by
  have hle : (l.map key).dedup.Pairwise (· ≤ ·) :=
    (List.pairwise_map.mpr hl).sublist (List.dedup_sublist _)
  exact (hle.and (List.nodup_dedup _)).imp (fun h => lt_of_le_of_ne h.1 h.2)

end Timeline
