import Mathlib.Data.List.Sort
import Mathlib.Tactic

/-! # Rows Under a Unique Index

  `INSERT ... ON CONFLICT DO NOTHING`: the rows of a table are listed in the
  order of a key that none of them share. A row whose key is taken is not
  inserted, and the rows that are there stay as they are.
-/

namespace UniqueIndex

variable {α κ : Type} [LinearOrder κ] (key : α → κ)

/-- The rows are in the order of the index, which has no key twice. -/
def Ordered (l : List α) : Prop := l.Pairwise (fun a b => key a < key b)

/-- One row is inserted where its key belongs, unless the key is taken. -/
def insert_missing (a : α) : List α → List α
  | [] => [a]
  | b :: l =>
      if key a < key b then a :: b :: l
      else if key a = key b then b :: l
      else b :: insert_missing a l

/-- A batch is inserted row by row. -/
def insert_all (l batch : List α) : List α := batch.foldl (fun l a => insert_missing key a l) l

variable {key} {l batch : List α} {a x : α}

@[simp] theorem insert_all_nil : insert_all key l [] = l := rfl

@[simp] theorem insert_all_cons :
    insert_all key l (a :: batch) = insert_all key (insert_missing key a l) batch := rfl

/-! ### One row -/

theorem sublist_insert_missing (a : α) (l : List α) : l.Sublist (insert_missing key a l) := by
  induction l with
  | nil => exact List.nil_sublist _
  | cons b l ih =>
    unfold insert_missing
    split
    · exact List.sublist_cons_self a (b :: l)
    · split
      · exact List.Sublist.refl _
      · exact ih.cons_cons b

theorem mem_insert_missing (hl : Ordered key l) :
    x ∈ insert_missing key a l ↔ x ∈ l ∨ (x = a ∧ ∀ b ∈ l, key b ≠ key a) := by
  induction l with
  | nil => simp [insert_missing]
  | cons b l ih =>
    obtain ⟨hb, hrest⟩ := List.pairwise_cons.mp hl
    unfold insert_missing
    split
    · rename_i hlt
      -- every later key is larger still
      have hfree : ∀ c ∈ b :: l, key c ≠ key a := by
        intro c hc
        rcases List.mem_cons.mp hc with rfl | hc
        · exact hlt.ne'
        · exact (hlt.trans (hb c hc)).ne'
      rw [List.mem_cons]
      tauto
    · split
      · rename_i heq
        have htaken : ¬ ∀ c ∈ b :: l, key c ≠ key a :=
          fun h => h b List.mem_cons_self heq.symm
        tauto
      · rename_i hne
        rw [List.mem_cons, ih hrest, List.mem_cons, List.forall_mem_cons]
        have hne' : key b ≠ key a := fun h => hne h.symm
        tauto

theorem ordered_insert_missing (hl : Ordered key l) (a : α) :
    Ordered key (insert_missing key a l) := by
  induction l with
  | nil => exact List.pairwise_singleton _ a
  | cons b l ih =>
    obtain ⟨hb, hrest⟩ := List.pairwise_cons.mp hl
    unfold insert_missing
    split
    · rename_i hlt
      refine List.pairwise_cons.mpr ⟨?_, hl⟩
      intro c hc
      rcases List.mem_cons.mp hc with rfl | hc
      · exact hlt
      · exact hlt.trans (hb c hc)
    · split
      · exact hl
      · rename_i hle hne
        refine List.pairwise_cons.mpr ⟨?_, ih hrest⟩
        intro c hc
        rcases (mem_insert_missing hrest).mp hc with hc | ⟨rfl, _⟩
        · exact hb c hc
        · exact lt_of_le_of_ne (not_lt.mp hle) (fun h => hne h.symm)

/-- Only rows that satisfy `p` are added where the new row does, so counting
    them counts what was added. -/
theorem length_insert_missing (key : α → κ) {p : α → Bool} (ha : p a = true) (l : List α) :
    ((insert_missing key a l).filter p).length + l.length =
      (l.filter p).length + (insert_missing key a l).length := by
  induction l with
  | nil => simp [insert_missing, ha]
  | cons b l ih =>
    unfold insert_missing
    split
    · rw [List.filter_cons_of_pos ha, List.length_cons, List.length_cons (a := a)]
      omega
    · split
      · rfl
      · rw [List.filter_cons, List.filter_cons]
        split
        · simp only [List.length_cons]
          omega
        · simp only [List.length_cons]
          omega

/-! ### Batches -/

theorem sublist_insert_all (l batch : List α) : l.Sublist (insert_all key l batch) := by
  induction batch generalizing l with
  | nil => exact List.Sublist.refl l
  | cons a batch ih => exact (sublist_insert_missing a l).trans (ih (insert_missing key a l))

theorem ordered_insert_all (hl : Ordered key l) (batch : List α) :
    Ordered key (insert_all key l batch) := by
  induction batch generalizing l with
  | nil => exact hl
  | cons a batch ih => exact ih (ordered_insert_missing hl a)

theorem length_insert_all (key : α → κ) {p : α → Bool} (hbatch : ∀ a ∈ batch, p a = true)
    (l : List α) :
    ((insert_all key l batch).filter p).length + l.length =
      (l.filter p).length + (insert_all key l batch).length := by
  induction batch generalizing l with
  | nil => rfl
  | cons a batch ih =>
    obtain ⟨ha, hrest⟩ := List.forall_mem_cons.mp hbatch
    have hstep := length_insert_missing key ha l
    have hall := ih hrest (insert_missing key a l)
    rw [insert_all_cons]
    omega

/-- Nothing was added when a count over the batch has not changed. -/
theorem insert_all_eq_of_count {p : α → Bool} (hbatch : ∀ a ∈ batch, p a = true)
    (hcount : ((insert_all key l batch).filter p).length = (l.filter p).length) :
    insert_all key l batch = l := by
  have hlength := length_insert_all key hbatch l
  exact ((sublist_insert_all l batch).eq_of_length (by omega)).symm

/-- Rows that come after one another take the place of nothing. -/
theorem insert_all_nil_of_ordered (h : Ordered key batch) : insert_all key [] batch = batch := by
  have happend : ∀ l, Ordered key (l ++ batch) → insert_all key l batch = l ++ batch := by
    induction batch with
    | nil =>
      intro l _
      rw [insert_all_nil, List.append_nil]
    | cons a batch ih =>
      intro l hl
      -- a row behind all the others goes to the end
      have hend : insert_missing key a l = l ++ [a] := by
        have hlast : ∀ b ∈ l, key b < key a := by
          intro b hb
          exact (List.pairwise_append.mp hl).2.2 b hb a List.mem_cons_self
        clear hl
        induction l with
        | nil => rfl
        | cons b l ih =>
          obtain ⟨hb, hrest⟩ := List.forall_mem_cons.mp hlast
          unfold insert_missing
          rw [if_neg hb.not_gt, if_neg hb.ne', ih hrest]
          rfl
      rw [insert_all_cons, hend, ih h.of_cons (l ++ [a]), List.append_assoc]
      · rfl
      · rwa [List.append_assoc]
  exact happend [] h

end UniqueIndex
