import Mathlib.Data.List.Sort
import Mathlib.Tactic

/-! # Stable Sorting

  Insertion sort keeps rows of one key in their order. So sorting a selection
  is selecting from the sorted list, and a position that only breaks ties can
  be left out of the key.
-/

namespace StableSort

variable {α β : Type} {r : α → α → Prop} [DecidableRel r] {s : β → β → Prop} [DecidableRel s]

theorem filter_orderedInsert [IsTrans α r] (p : α → Bool) (a : α) {l : List α}
    (hl : l.Pairwise r) :
    (l.orderedInsert r a).filter p =
      if p a then (l.filter p).orderedInsert r a else l.filter p := by
  induction l with
  | nil => cases h : p a <;> simp [h]
  | cons b l ih =>
    obtain ⟨hb, hrest⟩ := List.pairwise_cons.mp hl
    have ih := ih hrest
    by_cases hab : r a b
    · -- `a` comes before all of the list, so also before what is selected
      have hfirst : (l.filter p).orderedInsert r a = a :: l.filter p := by
        cases hsel : l.filter p with
        | nil => rfl
        | cons c rest =>
          have hc : c ∈ l := List.mem_of_mem_filter (p := p) (by rw [hsel]; exact List.mem_cons_self)
          exact List.orderedInsert_cons_of_le r rest (IsTrans.trans a b c hab (hb c hc))
      rw [List.orderedInsert_cons_of_le r l hab]
      cases hpb : p b <;> cases hpa : p a <;> simp [hpb, hpa, hab, hfirst]
    · rw [List.orderedInsert_of_not_le r l hab]
      cases hpb : p b <;> cases hpa : p a <;> simp_all

/-- **Sorting a selection** is selecting from the sorted list. -/
theorem filter_insertionSort [IsTrans α r] [Std.Total r] (p : α → Bool) (l : List α) :
    (l.insertionSort r).filter p = (l.filter p).insertionSort r := by
  induction l with
  | nil => rfl
  | cons a l ih =>
    rw [List.insertionSort_cons, filter_orderedInsert p a (List.pairwise_insertionSort r l), ih]
    cases h : p a with
    | true => rw [if_pos rfl, List.filter_cons_of_pos h, List.insertionSort_cons]
    | false => rw [if_neg (by simp), List.filter_cons_of_neg (by simp [h])]

theorem map_orderedInsert (f : α → β) (a : α) {l : List α}
    (h : ∀ b ∈ l, r a b ↔ s (f a) (f b)) :
    (l.orderedInsert r a).map f = (l.map f).orderedInsert s (f a) := by
  induction l with
  | nil => rfl
  | cons b l ih =>
    have hb := h b List.mem_cons_self
    have ih := ih (fun c hc => h c (List.mem_cons_of_mem _ hc))
    by_cases hab : r a b
    · rw [List.orderedInsert_cons_of_le r l hab, List.map_cons, List.map_cons,
        List.orderedInsert_cons_of_le s _ (hb.mp hab)]
    · rw [List.orderedInsert_of_not_le r l hab, List.map_cons, List.map_cons,
        List.orderedInsert_of_not_le s _ (fun hs => hab (hb.mpr hs)), ih]

/-- **Ties**: an order that two keys agree on for each element and the later
    ones sorts both ways alike. -/
theorem map_insertionSort (f : α → β) {l : List α}
    (h : l.Pairwise (fun a b => r a b ↔ s (f a) (f b))) :
    (l.insertionSort r).map f = (l.map f).insertionSort s := by
  induction l with
  | nil => rfl
  | cons a l ih =>
    obtain ⟨ha, hrest⟩ := List.pairwise_cons.mp h
    rw [List.insertionSort_cons, List.map_cons, List.insertionSort_cons, ← ih hrest]
    apply map_orderedInsert
    intro b hb
    exact ha b ((List.mem_insertionSort r).mp hb)

end StableSort
