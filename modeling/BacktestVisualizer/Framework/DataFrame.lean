import BacktestVisualizer.Framework.Timeline

/-! # Data Frames

  The operations of a data-frame library on a list of rows: a stable sort,
  dropping all but the last row of a key, differences within groups, sums of
  groups and running totals. Each commutes with the selection of whole
  groups, so a fact about a table is proved one group at a time.
-/

open Timeline

namespace DataFrame

variable {α κ ι M : Type}

/-! ### Stable sorting -/

section Sorting

variable [LinearOrder κ] (key : α → κ)

/-- `sort_values(key, kind="stable")`: rows that share a key keep their
    order. -/
def sort_values (l : List α) : List α := l.insertionSort (fun a b => key a ≤ key b)

theorem sort_values_sorted (l : List α) : Sorted key (sort_values key l) :=
  List.pairwise_insertionSort (fun a b => key a ≤ key b) l

theorem sort_values_perm (l : List α) : (sort_values key l).Perm l :=
  List.perm_insertionSort (fun a b => key a ≤ key b) l

@[simp] theorem mem_sort_values {l : List α} {a : α} : a ∈ sort_values key l ↔ a ∈ l :=
  (sort_values_perm key l).mem_iff

variable {key} in
theorem sort_values_eq_self {l : List α} (hl : Sorted key l) : sort_values key l = l :=
  List.Pairwise.insertionSort_eq hl

variable {key} in
theorem orderedInsert_eq_cons {l : List α} {a : α} (ha : ∀ b ∈ l, key a ≤ key b) :
    l.orderedInsert (fun a b => key a ≤ key b) a = a :: l := by
  cases l with
  | nil => rfl
  | cons b l =>
    apply List.orderedInsert_cons_of_le
    exact ha b (List.mem_cons_self)

variable {key} in
theorem filter_orderedInsert (p : α → Bool) {l : List α} (hl : Sorted key l) (a : α) :
    (l.orderedInsert (fun a b => key a ≤ key b) a).filter p =
      if p a then (l.filter p).orderedInsert (fun a b => key a ≤ key b) a else l.filter p := by
  induction l with
  | nil =>
    by_cases hp : p a = true
    · simp [hp]
    · simp [hp]
  | cons b l ih =>
    obtain ⟨hhead, htail⟩ := List.pairwise_cons.mp hl
    by_cases hab : key a ≤ key b
    · -- the new row goes in front of every row
      have hfront : ∀ c ∈ b :: l, key a ≤ key c := by
        intro c hc
        rcases List.mem_cons.mp hc with rfl | hc
        · exact hab
        · exact le_trans hab (hhead c hc)
      rw [orderedInsert_eq_cons hfront,
        orderedInsert_eq_cons (fun c hc => hfront c (List.mem_of_mem_filter hc)), List.filter_cons]
    · have hinsert : (b :: l).orderedInsert (fun a b => key a ≤ key b) a =
          b :: l.orderedInsert (fun a b => key a ≤ key b) a :=
        List.orderedInsert_of_not_le _ l hab
      rw [hinsert, List.filter_cons, List.filter_cons, ih htail]
      by_cases hpb : p b = true
      · rw [if_pos hpb, if_pos hpb]
        by_cases hpa : p a = true
        · rw [if_pos hpa, if_pos hpa]
          exact (List.orderedInsert_of_not_le (fun a b => key a ≤ key b) _ hab).symm
        · rw [if_neg hpa, if_neg hpa]
      · rw [if_neg hpb, if_neg hpb]

/-- A stable sort and a selection commute. -/
theorem filter_sort_values (p : α → Bool) (l : List α) :
    (sort_values key l).filter p = sort_values key (l.filter p) := by
  induction l with
  | nil => rfl
  | cons a l ih =>
    have hinsert : sort_values key (a :: l) =
      (sort_values key l).orderedInsert (fun a b => key a ≤ key b) a := rfl
    rw [hinsert, filter_orderedInsert p (sort_values_sorted key l), ih, List.filter_cons]
    split
    · rfl
    · rfl

variable {key} in
/-- Rows that share a key are in the order they came in. -/
theorem sort_values_of_key {l : List α} {k : κ} (h : ∀ a ∈ l, key a = k) :
    sort_values key l = l := by
  apply sort_values_eq_self
  apply List.pairwise_of_forall_mem_list
  intro a ha b hb
  rw [h a ha, h b hb]

/-- Distinct keys have one order. -/
theorem sort_values_of_perm {l m : List α} (h : l.Perm m)
    (hl : l.Pairwise (fun a b => key a ≠ key b)) : sort_values key l = sort_values key m := by
  have hsorted : ∀ {k : List α}, k.Pairwise (fun a b => key a ≠ key b) →
      (sort_values key k).Pairwise (fun a b => key a < key b) := by
    intro k hk
    have hdistinct : (sort_values key k).Pairwise (fun a b => key a ≠ key b) :=
      (sort_values_perm key k).symm.pairwise hk (fun h => h.symm)
    exact ((sort_values_sorted key k).and hdistinct).imp (fun h => lt_of_le_of_ne h.1 h.2)
  have hirrefl : Std.Irrefl (fun a b : α => key a < key b) := ⟨fun a => lt_irrefl (key a)⟩
  have hantisymm : Std.Antisymm (fun a b : α => key a < key b) :=
    ⟨fun a b hab hba => absurd hab (lt_asymm hba)⟩
  apply List.Pairwise.eq_of_mem_iff (hsorted hl) (hsorted (h.pairwise hl (fun h => h.symm)))
  intro a
  rw [mem_sort_values, mem_sort_values, h.mem_iff]

end Sorting

/-! ### Selections -/

/-- A selection before a partial map, and one after it. -/
theorem filter_filterMap_comm {β : Type} {f : α → Option β} {p : α → Bool} {q : β → Bool}
    (h : ∀ a b, f a = some b → q b = p a) (l : List α) :
    (l.filterMap f).filter q = (l.filter p).filterMap f := by
  induction l with
  | nil => rfl
  | cons a l ih =>
    rw [List.filterMap_cons]
    cases ha : f a with
    | none =>
      simp only
      rw [ih, List.filter_cons]
      split
      · rw [List.filterMap_cons, ha]
      · rfl
    | some b =>
      simp only
      rw [List.filter_cons, List.filter_cons, h a b ha, ih]
      split
      · rw [List.filterMap_cons, ha]
      · rfl

/-! ### The last row of a key -/

section Duplicates

variable [DecidableEq ι] (key : α → ι)

/-- `drop_duplicates(keep="last")`. -/
def keep_last : List α → List α
  | [] => []
  | a :: l => if ∃ b ∈ l, key b = key a then keep_last l else a :: keep_last l

theorem keep_last_sublist (l : List α) : (keep_last key l).Sublist l := by
  induction l with
  | nil => exact List.Sublist.refl _
  | cons a l ih =>
    rw [keep_last]
    split
    · exact ih.cons a
    · exact ih.cons_cons a

theorem keep_last_distinct (l : List α) :
    (keep_last key l).Pairwise (fun a b => key a ≠ key b) := by
  induction l with
  | nil => exact List.Pairwise.nil
  | cons a l ih =>
    rw [keep_last]
    split
    · exact ih
    · rename_i hlast
      apply List.Pairwise.cons _ ih
      intro b hb heq
      exact hlast ⟨b, (keep_last_sublist key l).subset hb, heq.symm⟩

theorem exists_mem_keep_last {l : List α} {a : α} (ha : a ∈ l) :
    ∃ b ∈ keep_last key l, key b = key a := by
  induction l generalizing a with
  | nil => exact absurd ha (by simp)
  | cons c l ih =>
    rw [keep_last]
    split
    · rename_i hdup
      rcases List.mem_cons.mp ha with rfl | ha
      · -- a later row stands for this one
        obtain ⟨b, hb, heq⟩ := hdup
        rw [← heq]
        exact ih hb
      · exact ih ha
    · rcases List.mem_cons.mp ha with rfl | ha
      · exact ⟨a, List.mem_cons_self, rfl⟩
      · obtain ⟨b, hb, heq⟩ := ih ha
        exact ⟨b, List.mem_cons_of_mem _ hb, heq⟩

/-- Dropping duplicates keeps whole groups apart. -/
theorem filter_keep_last (q : ι → Bool) (l : List α) :
    (keep_last key l).filter (fun a => q (key a)) = keep_last key (l.filter (fun a => q (key a))) := by
  induction l with
  | nil => rfl
  | cons a l ih =>
    rw [keep_last]
    by_cases hq : q (key a) = true
    · rw [List.filter_cons_of_pos (p := fun a => q (key a)) hq, keep_last]
      by_cases hdup : ∃ b ∈ l, key b = key a
      · obtain ⟨b, hb, heq⟩ := hdup
        have hmem : b ∈ l.filter (fun a => q (key a)) :=
          List.mem_filter.mpr ⟨hb, by rw [heq]; exact hq⟩
        rw [if_pos ⟨b, hb, heq⟩, if_pos ⟨b, hmem, heq⟩, ih]
      · have hdup' : ¬ ∃ b ∈ l.filter (fun a => q (key a)), key b = key a := by
          rintro ⟨b, hb, heq⟩
          exact hdup ⟨b, List.mem_of_mem_filter hb, heq⟩
        rw [if_neg hdup, if_neg hdup', List.filter_cons_of_pos (p := fun a => q (key a)) hq, ih]
    · rw [List.filter_cons_of_neg (p := fun a => q (key a)) hq]
      split
      · exact ih
      · rw [List.filter_cons_of_neg (p := fun a => q (key a)) hq, ih]

/-- Only which rows share a key matters. -/
theorem keep_last_congr {ρ : Type} [DecidableEq ρ] {key' : α → ρ} {l : List α}
    (h : ∀ a ∈ l, ∀ b ∈ l, key b = key a ↔ key' b = key' a) :
    keep_last key l = keep_last key' l := by
  induction l with
  | nil => rfl
  | cons a l ih =>
    have hdup : (∃ b ∈ l, key b = key a) ↔ ∃ b ∈ l, key' b = key' a := by
      constructor
      · intro ⟨b, hb, heq⟩
        exact ⟨b, hb, (h a List.mem_cons_self b (List.mem_cons_of_mem _ hb)).mp heq⟩
      · intro ⟨b, hb, heq⟩
        exact ⟨b, hb, (h a List.mem_cons_self b (List.mem_cons_of_mem _ hb)).mpr heq⟩
    have hrest := ih (fun b hb c hc =>
      h b (List.mem_cons_of_mem _ hb) c (List.mem_cons_of_mem _ hc))
    rw [keep_last, keep_last, hrest]
    by_cases hlast : ∃ b ∈ l, key b = key a
    · rw [if_pos hlast, if_pos (hdup.mp hlast)]
    · rw [if_neg hlast, if_neg (fun h' => hlast (hdup.mpr h'))]

/-- Of rows that all share a key the last one stays. -/
theorem keep_last_of_key {l : List α} {k : ι} (h : ∀ a ∈ l, key a = k) :
    keep_last key l = l.getLast?.toList := by
  induction l with
  | nil => rfl
  | cons a l ih =>
    rw [keep_last]
    cases l with
    | nil => simp [keep_last]
    | cons b l =>
      have hdup : ∃ c ∈ b :: l, key c = key a :=
        ⟨b, List.mem_cons_self, by rw [h b (by simp), h a (by simp)]⟩
      rw [if_pos hdup, ih (fun c hc => h c (List.mem_cons_of_mem _ hc)), List.getLast?_cons_cons]

theorem keep_last_eq_self {l : List α} (hl : l.Pairwise (fun a b => key a ≠ key b)) :
    keep_last key l = l := by
  induction l with
  | nil => rfl
  | cons a l ih =>
    obtain ⟨hhead, htail⟩ := List.pairwise_cons.mp hl
    rw [keep_last, if_neg (fun ⟨b, hb, heq⟩ => hhead b hb heq.symm), ih htail]

/-- The row that stays for a key. -/
theorem filter_key_keep_last (l : List α) (k : ι) :
    (keep_last key l).filter (fun a => key a = k) =
      (l.filter (fun a => key a = k)).getLast?.toList := by
  have hfilter := filter_keep_last key (fun i => decide (i = k)) l
  rw [hfilter]
  apply keep_last_of_key key
  intro a ha
  simpa using (List.mem_filter.mp ha).2

/-- The last row that came in for a key. -/
def last_at (l : List α) (k : ι) : Option α := (l.filter (fun a => key a = k)).getLast?

variable {key} in
theorem last_at_spec {l : List α} {k : ι} {a : α} (h : last_at key l k = some a) :
    a ∈ l ∧ key a = k := by
  have hmem := List.mem_filter.mp (List.mem_of_getLast? h)
  exact ⟨hmem.1, by simpa using hmem.2⟩

theorem mem_keep_last {l : List α} {a : α} :
    a ∈ keep_last key l ↔ last_at key l (key a) = some a := by
  have hfilter : a ∈ keep_last key l ↔ a ∈ (keep_last key l).filter (fun b => key b = key a) := by
    simp [List.mem_filter]
  rw [hfilter, filter_key_keep_last, Option.mem_toList]
  rfl

theorem exists_last_at {l : List α} {a : α} (ha : a ∈ l) : ∃ b, last_at key l (key a) = some b := by
  unfold last_at
  apply Option.ne_none_iff_exists'.mp
  intro hnone
  have hnil := List.getLast?_eq_none_iff.mp hnone
  have hmem : a ∈ l.filter (fun b => key b = key a) := List.mem_filter.mpr ⟨ha, by simp⟩
  rw [hnil] at hmem
  exact absurd hmem (by simp)

@[simp] theorem last_at_nil (k : ι) : last_at key [] k = none := rfl

theorem last_at_append (l m : List α) (k : ι) :
    last_at key (l ++ m) k = (last_at key m k).or (last_at key l k) := by
  unfold last_at
  rw [List.filter_append, List.getLast?_append]

/-- A selection of whole groups. -/
theorem last_at_filter (q : ι → Bool) (l : List α) (k : ι) :
    last_at key (l.filter (fun a => q (key a))) k = if q k then last_at key l k else none := by
  unfold last_at
  rw [List.filter_filter]
  by_cases hq : q k = true
  · rw [if_pos hq]
    congr 1
    apply List.filter_congr
    intro a _
    by_cases hk : key a = k
    · simp [hk, hq]
    · simp [hk]
  · rw [if_neg hq, List.getLast?_eq_none_iff, List.filter_eq_nil_iff]
    intro a _
    by_cases hk : key a = k
    · simp [hk, hq]
    · simp [hk]

@[simp] theorem last_at_keep_last (l : List α) (k : ι) :
    last_at key (keep_last key l) k = last_at key l k := by
  unfold last_at
  rw [filter_key_keep_last]
  cases (l.filter (fun a => key a = k)).getLast? with
  | none => rfl
  | some a => rfl

/-- A table in parts, in some of which a key has the same last row. -/
theorem last_at_flatMap {β : Type} {f : β → List α} {p : β → Prop} [DecidablePred p] {k : ι}
    {row : Option α} {parts : List β}
    (h : ∀ b ∈ parts, last_at key (f b) k = if p b then row else none) :
    last_at key (parts.flatMap f) k = if ∃ b ∈ parts, p b then row else none := by
  induction parts with
  | nil => simp
  | cons b parts ih =>
    rw [List.flatMap_cons, last_at_append, h b List.mem_cons_self,
      ih (fun b' hb' => h b' (List.mem_cons_of_mem _ hb'))]
    by_cases hb : p b
    · rw [if_pos hb, if_pos (⟨b, List.mem_cons_self, hb⟩ : ∃ b' ∈ b :: parts, p b')]
      split
      · exact Option.or_self
      · rfl
    · have hiff : (∃ b' ∈ b :: parts, p b') ↔ ∃ b' ∈ parts, p b' := by simp [hb]
      simp only [hiff, if_neg hb, Option.or_none]

/-- The last rows say which rows stay. -/
theorem keep_last_perm {l m : List α} (h : ∀ k, last_at key l k = last_at key m k) :
    (keep_last key l).Perm (keep_last key m) := by
  have hnodup : ∀ l : List α, (keep_last key l).Nodup := fun l =>
    (keep_last_distinct key l).imp (fun hne heq => hne (by rw [heq]))
  apply (List.perm_ext_iff_of_nodup (hnodup l) (hnodup m)).mpr
  intro a
  rw [mem_keep_last, mem_keep_last, h]

end Duplicates

/-! ### One row a key -/

section Marks

variable [LinearOrder κ] {key : α → κ}

/-- Rows in the order of their keys, one a key: the last that came in. -/
structure Marks (key : α → κ) (l marks : List α) : Prop where
  sorted : marks.Pairwise (fun a b => key a < key b)
  row_at : ∀ k, marks.filter (fun a => key a = k) = (last_at key l k).toList

variable {l marks : List α}

theorem Marks.mem_iff (h : Marks key l marks) {a : α} :
    a ∈ marks ↔ last_at key l (key a) = some a := by
  have hfilter : a ∈ marks ↔ a ∈ marks.filter (fun b => key b = key a) := by
    simp [List.mem_filter]
  rw [hfilter, h.row_at, Option.mem_toList]

theorem Marks.exists_mark (h : Marks key l marks) {a : α} (ha : a ∈ l) :
    ∃ b ∈ marks, key b = key a := by
  obtain ⟨b, hb⟩ := exists_last_at key ha
  have hkey := (last_at_spec hb).2
  refine ⟨b, h.mem_iff.mpr ?_, hkey⟩
  rw [hkey]
  exact hb

/-- The first mark is at the smallest key. -/
theorem Marks.head (h : Marks key l marks) :
    marks.head? = (l.map key).min?.bind (last_at key l) := by
  cases hmarks : marks with
  | nil =>
    have hnil : l = [] := by
      by_contra hne
      obtain ⟨a, ha⟩ := List.exists_mem_of_ne_nil l hne
      obtain ⟨b, hb, _⟩ := h.exists_mark ha
      rw [hmarks] at hb
      exact absurd hb (by simp)
    rw [hnil]
    rfl
  | cons m rest =>
    have hlast : last_at key l (key m) = some m := h.mem_iff.mp (by simp [hmarks])
    have hmin : (l.map key).min? = some (key m) := by
      apply List.min?_eq_some_iff.mpr
      refine ⟨List.mem_map_of_mem (last_at_spec hlast).1, ?_⟩
      intro k hk
      obtain ⟨a, ha, rfl⟩ := List.mem_map.mp hk
      obtain ⟨b, hb, heq⟩ := h.exists_mark ha
      rw [← heq]
      have hsorted := h.sorted
      rw [hmarks] at hb hsorted
      rcases List.mem_cons.mp hb with rfl | hb
      · exact le_refl _
      · exact le_of_lt ((List.pairwise_cons.mp hsorted).1 b hb)
    rw [hmin]
    exact hlast.symm

/-- The last mark up to a key is at the largest key up to it. -/
theorem Marks.last (h : Marks key l marks) (c : κ) :
    (marks.filter (fun a => key a ≤ c)).getLast? =
      ((l.map key).filter (· ≤ c)).max?.bind (last_at key l) := by
  cases hlast : (marks.filter (fun a => key a ≤ c)).getLast? with
  | none =>
    have hnil : (l.map key).filter (· ≤ c) = [] := by
      apply List.filter_eq_nil_iff.mpr
      intro k hk hle
      obtain ⟨a, ha, rfl⟩ := List.mem_map.mp hk
      obtain ⟨b, hb, heq⟩ := h.exists_mark ha
      have hmem : b ∈ marks.filter (fun a => key a ≤ c) := by
        rw [List.mem_filter, heq]
        exact ⟨hb, hle⟩
      rw [List.getLast?_eq_none_iff.mp hlast] at hmem
      exact absurd hmem (by simp)
    rw [hnil]
    rfl
  | some m =>
    have hm := List.mem_filter.mp (List.mem_of_getLast? hlast)
    have hrow : last_at key l (key m) = some m := h.mem_iff.mp hm.1
    have hmax : ((l.map key).filter (· ≤ c)).max? = some (key m) := by
      apply List.max?_eq_some_iff.mpr
      refine ⟨List.mem_filter.mpr ⟨List.mem_map_of_mem (last_at_spec hrow).1, hm.2⟩, ?_⟩
      intro k hk
      obtain ⟨hk, hle⟩ := List.mem_filter.mp hk
      obtain ⟨a, ha, rfl⟩ := List.mem_map.mp hk
      obtain ⟨b, hb, heq⟩ := h.exists_mark ha
      rw [← heq]
      have hsorted : Sorted key marks := h.sorted.imp le_of_lt
      apply key_le_newest hsorted hlast hb
      rw [heq]
      exact hle
    rw [hmax]
    exact hrow.symm

/-- Marks are determined by the rows they stand for. -/
theorem Marks.unique {l' marks' : List α} (h : Marks key l marks) (h' : Marks key l' marks')
    (hrows : ∀ k, last_at key l k = last_at key l' k) : marks = marks' := by
  have hirrefl : Std.Irrefl (fun a b : α => key a < key b) := ⟨fun a => lt_irrefl (key a)⟩
  have hantisymm : Std.Antisymm (fun a b : α => key a < key b) :=
    ⟨fun a b hab hba => absurd hab (lt_asymm hba)⟩
  apply List.Pairwise.eq_of_mem_iff h.sorted h'.sorted
  intro a
  rw [h.mem_iff, h'.mem_iff, hrows]

/-- The last row of a stable sort is the last that came in at the largest
    key. -/
theorem getLast?_sort_values (l : List α) :
    (sort_values key l).getLast? = (l.map key).max?.bind (last_at key l) := by
  cases hlast : (sort_values key l).getLast? with
  | none =>
    have hnil : l = [] := by
      have hsort := (sort_values_perm key l)
      rw [List.getLast?_eq_none_iff.mp hlast] at hsort
      exact List.nil_perm.mp hsort
    rw [hnil]
    rfl
  | some a =>
    obtain ⟨before, hbefore⟩ := List.getLast?_eq_some_iff.mp hlast
    have hmem : a ∈ l := (mem_sort_values key).mp (List.mem_of_getLast? hlast)
    have hmax : (l.map key).max? = some (key a) := by
      apply List.max?_eq_some_iff.mpr
      refine ⟨List.mem_map_of_mem hmem, ?_⟩
      intro k hk
      obtain ⟨b, hb, rfl⟩ := List.mem_map.mp hk
      have hall : ((sort_values key l).filter (fun _ => true)).getLast? = some a := by
        rw [List.filter_true]
        exact hlast
      exact key_le_newest (sort_values_sorted key l) hall ((mem_sort_values key).mpr hb) rfl
    have hrow : l.filter (fun b => key b = key a) =
        before.filter (fun b => key b = key a) ++ [a] := by
      rw [← sort_values_of_key (l := l.filter (fun b => key b = key a)) (k := key a),
        ← filter_sort_values, hbefore, List.filter_append, List.filter_cons_of_pos (by simp),
        List.filter_nil]
      intro b hb
      simpa using (List.mem_filter.mp hb).2
    rw [hmax]
    show some a = last_at key l (key a)
    unfold last_at
    rw [hrow, List.getLast?_append]
    rfl

/-- Sorting and dropping all but the last row of a key leaves the marks. -/
theorem marks_keep_last (l : List α) : Marks key l (keep_last key (sort_values key l)) := by
  refine ⟨?_, ?_⟩
  · have hle := (sort_values_sorted key l).sublist (keep_last_sublist key _)
    exact (hle.and (keep_last_distinct key _)).imp (fun h => lt_of_le_of_ne h.1 h.2)
  · intro k
    rw [filter_key_keep_last, filter_sort_values, sort_values_of_key (k := k), last_at]
    intro a ha
    simpa using (List.mem_filter.mp ha).2

/-- So does sorting what dropping leaves. -/
theorem marks_sort_values (l : List α) : Marks key l (sort_values key (keep_last key l)) := by
  refine ⟨?_, ?_⟩
  · have hdistinct : (sort_values key (keep_last key l)).Pairwise (fun a b => key a ≠ key b) :=
      (sort_values_perm key _).symm.pairwise (keep_last_distinct key l) (fun h => h.symm)
    exact ((sort_values_sorted key _).and hdistinct).imp (fun h => lt_of_le_of_ne h.1 h.2)
  · intro k
    rw [filter_sort_values, filter_key_keep_last, sort_values_of_key (k := k), last_at]
    intro a ha
    obtain ⟨b, hb⟩ : ∃ b, (l.filter (fun a => key a = k)).getLast? = some b :=
      Option.ne_none_iff_exists'.mp (fun hnone => by simp [hnone] at ha)
    rw [hb] at ha
    obtain rfl : a = b := by simpa using ha
    exact (last_at_spec hb).2

end Marks

/-! ### Differences within groups -/

section Differences

variable [DecidableEq ι] [AddCommGroup M] (group : α → ι) (value : α → M)

/-- `groupby(group)[value].diff().fillna(0)`: each row with the change from
    the last row seen of its group. -/
def group_diff (seen : List α) : List α → List (α × M)
  | [] => []
  | a :: l =>
      (a, match (seen.filter (fun b => group b = group a)).getLast? with
        | none => 0
        | some b => value a - value b) :: group_diff (seen ++ [a]) l

theorem group_diff_rows (seen l : List α) : (group_diff group value seen l).map Prod.fst = l := by
  induction l generalizing seen with
  | nil => rfl
  | cons a l ih => rw [group_diff, List.map_cons, ih]

theorem group_diff_append (seen l m : List α) :
    group_diff group value seen (l ++ m) =
      group_diff group value seen l ++ group_diff group value (seen ++ l) m := by
  induction l generalizing seen with
  | nil => simp [group_diff]
  | cons a l ih =>
    rw [List.cons_append, group_diff, group_diff, ih (seen ++ [a]), List.cons_append,
      List.append_assoc, List.singleton_append]

/-- The differences of a group are those of its rows alone. -/
theorem filter_group_diff (k : ι) (seen l : List α) :
    (group_diff group value seen l).filter (fun p => group p.1 = k) =
      group_diff group value (seen.filter (fun a => group a = k))
        (l.filter (fun a => group a = k)) := by
  induction l generalizing seen with
  | nil => rfl
  | cons a l ih =>
    rw [group_diff]
    by_cases hk : group a = k
    · have hseen : (seen.filter (fun b => group b = k)).filter (fun b => group b = group a) =
          seen.filter (fun b => group b = group a) := by
        rw [List.filter_filter]
        apply List.filter_congr
        intro b _
        simp [hk]
      rw [List.filter_cons_of_pos (by simpa using hk), List.filter_cons_of_pos (by simpa using hk),
        group_diff, hseen, ih (seen ++ [a]), List.filter_append,
        List.filter_cons_of_pos (by simpa using hk), List.filter_nil]
    · rw [List.filter_cons_of_neg (by simpa using hk), List.filter_cons_of_neg (by simpa using hk),
        ih (seen ++ [a]), List.filter_append, List.filter_cons_of_neg (by simpa using hk),
        List.filter_nil, List.append_nil]

/-- After a first row the differences of one group add up to the change from
    it to the last row. -/
theorem sum_group_diff_of_seen {k : ι} {seen l : List α} (hseen : ∀ a ∈ seen, group a = k)
    (hl : ∀ a ∈ l, group a = k) {first : α} (hfirst : seen.getLast? = some first) :
    ((group_diff group value seen l).map Prod.snd).sum =
      value (l.getLastD first) - value first := by
  induction l generalizing seen first with
  | nil => simp [group_diff]
  | cons a l ih =>
    have hgroup : seen.filter (fun b => group b = group a) = seen := by
      apply List.filter_eq_self.mpr
      intro b hb
      simp [hseen b hb, hl a List.mem_cons_self]
    have hseen' : ∀ b ∈ seen ++ [a], group b = k := by
      intro b hb
      rcases List.mem_append.mp hb with hb | hb
      · exact hseen b hb
      · rw [List.mem_singleton.mp hb]
        exact hl a List.mem_cons_self
    have hrest : ((group_diff group value (seen ++ [a]) l).map Prod.snd).sum =
        value (l.getLastD a) - value a :=
      ih hseen' (fun b hb => hl b (List.mem_cons_of_mem _ hb)) (by simp)
    rw [group_diff, hgroup, hfirst, List.map_cons, List.sum_cons, hrest, List.getLastD_cons]
    show value a - value first + _ = _
    abel

/-- **Telescoping**: the differences of one group add up to the change from
    its first row to its last. -/
theorem sum_group_diff {k : ι} {l : List α} (hl : ∀ a ∈ l, group a = k) {first last : α}
    (hfirst : l.head? = some first) (hlast : l.getLast? = some last) :
    ((group_diff group value [] l).map Prod.snd).sum = value last - value first := by
  cases l with
  | nil => exact absurd hfirst (by simp)
  | cons a l =>
    obtain rfl : a = first := by simpa using hfirst
    have hrest : ((group_diff group value [a] l).map Prod.snd).sum =
        value (l.getLastD a) - value a :=
      sum_group_diff_of_seen group value (by simpa using hl a List.mem_cons_self)
        (fun b hb => hl b (List.mem_cons_of_mem _ hb)) rfl
    rw [group_diff, List.filter_nil, List.nil_append, List.map_cons, List.sum_cons, hrest]
    rw [List.getLast?_cons] at hlast
    rw [← Option.some.inj hlast]
    simp

end Differences

/-! ### Sums of groups and running totals -/

section Totals

variable [AddCommMonoid M]

/-- The sums of groups that cover a list add up to its sum. -/
theorem sum_of_groups [DecidableEq ι] (group : α → ι) (value : α → M) {ks : List ι}
    (hks : ks.Nodup) {l : List α} (hl : ∀ a ∈ l, group a ∈ ks) :
    (ks.map (fun k => ((l.filter (fun a => group a = k)).map value).sum)).sum =
      (l.map value).sum := by
  induction l with
  | nil => simp
  | cons a l ih =>
    have hsplit : ∀ k, (((a :: l).filter (fun b => group b = k)).map value).sum =
        (if group a = k then value a else 0) + ((l.filter (fun b => group b = k)).map value).sum := by
      intro k
      by_cases hk : group a = k
      · rw [List.filter_cons_of_pos (by simpa using hk), if_pos hk]
        simp
      · rw [List.filter_cons_of_neg (by simpa using hk), if_neg hk, zero_add]
    have hone : (ks.map (fun k => if group a = k then value a else 0)).sum = value a := by
      rw [List.sum_map_eq_nsmul_single (group a) _ (fun k hk _ => if_neg (fun h => hk h.symm)),
        List.count_eq_one_of_mem hks (hl a List.mem_cons_self), one_nsmul, if_pos rfl]
    simp only [hsplit]
    rw [List.sum_map_add, hone, ih (fun b hb => hl b (List.mem_cons_of_mem _ hb)), List.map_cons,
      List.sum_cons]

/-- `cumsum()`, from a total so far. -/
def cumsum (total : M) : List M → List M
  | [] => []
  | x :: l => (total + x) :: cumsum (total + x) l

/-- The running total at a key is the sum of everything up to the key. -/
theorem cumsum_map [LinearOrder κ] (g : κ → M) (total : M) {ks : List κ}
    (hks : ks.Pairwise (· < ·)) :
    cumsum total (ks.map g) =
      ks.map (fun k => total + ((ks.filter (· ≤ k)).map g).sum) := by
  induction ks generalizing total with
  | nil => rfl
  | cons k ks ih =>
    obtain ⟨hhead, htail⟩ := List.pairwise_cons.mp hks
    have hnone : ks.filter (· ≤ k) = [] := by
      apply List.filter_eq_nil_iff.mpr
      intro x hx
      simpa using hhead x hx
    rw [List.map_cons, cumsum, ih (total + g k) htail, List.map_cons,
      List.filter_cons_of_pos (by simp), hnone]
    congr 1
    · simp
    · apply List.map_congr_left
      intro x hx
      rw [List.filter_cons_of_pos (by simpa using le_of_lt (hhead x hx)), List.map_cons,
        List.sum_cons, add_assoc]

end Totals

end DataFrame
