import Mathlib.Data.List.Sort
import Mathlib.Tactic

/-! # Batched Loops

  Work on an interval cut into windows, and on a list cut into chunks, done
  in order and possibly broken off: what has been done is a prefix, and the
  windows done cover an initial part of the interval.

  `drop_duplicates` keeps the first of the elements that share a key.
-/

namespace Batches

variable {α β κ : Type}

/-! ### Prefixes of nested loops -/

/-- A prefix of a nested loop: some outer rounds in full, and a part of the
    next one. -/
theorem prefix_flatMap {f : α → List β} {L : List α} {l : List β} (h : l <+: L.flatMap f) :
    ∃ done rest part, L = done ++ rest ∧ l = done.flatMap f ++ part ∧
      (part = [] ∨ ∃ x later, rest = x :: later ∧ part <+: f x) := by
  induction L generalizing l with
  | nil =>
    have hnil : l = [] := List.prefix_nil.mp h
    exact ⟨[], [], [], rfl, by simp [hnil], Or.inl rfl⟩
  | cons a L ih =>
    rw [List.flatMap_cons] at h
    rcases List.prefix_or_prefix_of_prefix h (List.prefix_append (f a) _) with hshort | hlong
    · exact ⟨[], a :: L, l, rfl, rfl, Or.inr ⟨a, L, rfl, hshort⟩⟩
    · obtain ⟨l', rfl⟩ := hlong
      obtain ⟨done, rest, part, hL, hl, hpart⟩ := ih ((List.prefix_append_right_inj _).mp h)
      exact ⟨a :: done, rest, part, by simp [hL], by simp [hl], hpart⟩

/-! ### Chunks -/

/-- `[l[i : i + k] for i in range(0, len(l), k)]`. -/
def chunks (k : ℕ) (l : List α) : List (List α) :=
  (List.range ((l.length + k - 1) / k)).map (fun i => (l.drop (i * k)).take k)

theorem mem_of_mem_chunks {k : ℕ} {l c : List α} {a : α} (hc : c ∈ chunks k l) (ha : a ∈ c) :
    a ∈ l := by
  obtain ⟨i, _, rfl⟩ := List.mem_map.mp hc
  exact List.mem_of_mem_drop (List.mem_of_mem_take ha)

theorem exists_mem_chunks {k : ℕ} (hk : 0 < k) {l : List α} {a : α} (ha : a ∈ l) :
    ∃ c ∈ chunks k l, a ∈ c := by
  obtain ⟨i, hi, rfl⟩ := List.mem_iff_getElem.mp ha
  have hdiv : i / k < (l.length + k - 1) / k := by
    rw [Nat.div_lt_iff_lt_mul hk]
    have hlast : (l.length - 1) / k < (l.length + k - 1) / k := by
      rw [show l.length + k - 1 = l.length - 1 + k by omega, Nat.add_div_right _ hk]
      omega
    have hle : i / k ≤ (l.length - 1) / k := Nat.div_le_div_right (by omega)
    have hlt : i / k < (l.length + k - 1) / k := lt_of_le_of_lt hle hlast
    exact (Nat.div_lt_iff_lt_mul hk).mp hlt
  refine ⟨_, List.mem_map.mpr ⟨i / k, List.mem_range.mpr hdiv, rfl⟩, ?_⟩
  apply List.mem_iff_getElem.mpr
  have hmod : i % k < k := Nat.mod_lt _ hk
  have hsplit : i / k * k + i % k = i := Nat.div_add_mod' i k
  refine ⟨i % k, ?_, ?_⟩
  · rw [List.length_take, List.length_drop]
    omega
  · rw [List.getElem_take, List.getElem_drop]
    simp [hsplit]

/-- The chunks hold what the list holds. -/
theorem mem_flatten_chunks {k : ℕ} (hk : 0 < k) {l : List α} {a : α} :
    a ∈ (chunks k l).flatten ↔ a ∈ l := by
  rw [List.mem_flatten]
  constructor
  · rintro ⟨c, hc, ha⟩
    exact mem_of_mem_chunks hc ha
  · intro ha
    exact exists_mem_chunks hk ha

/-! ### Windows -/

/-- A closed interval of instants. -/
structure Window where
  start : ℤ
  finish : ℤ
  deriving DecidableEq, Repr

def Window.holds (w : Window) (p : ℤ) : Prop := w.start ≤ p ∧ p ≤ w.finish

/-- The windows of `width` from `x` to `y`, in order; two neighbours share an
    end. The fuel counts windows. -/
def windows (width : ℤ) : ℕ → ℤ → ℤ → List Window
  | 0, _, _ => []
  | fuel + 1, x, y =>
      if x < y then
        { start := x, finish := min (x + width) y } :: windows width fuel (min (x + width) y) y
      else []

variable {width : ℤ}

/-- Every window lies inside, is not empty, and starts where an earlier one
    ends unless it is the first. -/
theorem windows_within {fuel : ℕ} {x y : ℤ} (hwidth : 0 < width) {w : Window}
    (hw : w ∈ windows width fuel x y) : x ≤ w.start ∧ w.start < w.finish ∧ w.finish ≤ y := by
  induction fuel generalizing x with
  | zero => simp [windows] at hw
  | succ fuel ih =>
    unfold windows at hw
    by_cases hlt : x < y
    · rw [if_pos hlt] at hw
      rcases List.mem_cons.mp hw with rfl | hw
      · show x ≤ x ∧ x < min (x + width) y ∧ min (x + width) y ≤ y
        omega
      · have := ih hw
        omega
    · simp [if_neg hlt] at hw

/-- **Prefixes cover prefixes**: the first windows of an interval hold
    exactly the points up to some bound. -/
theorem prefix_covers {fuel : ℕ} {x y : ℤ} (hwidth : 0 < width) {done : List Window}
    (hdone : done <+: windows width fuel x y) (hne : done ≠ []) :
    ∃ b, x ≤ b ∧ b ≤ y ∧ (∃ w ∈ done, w.finish = b) ∧
      ∀ p, (∃ w ∈ done, w.holds p) ↔ x ≤ p ∧ p ≤ b := by
  induction fuel generalizing x done with
  | zero =>
    simp only [windows, List.prefix_nil] at hdone
    exact absurd hdone hne
  | succ fuel ih =>
    unfold windows at hdone
    by_cases hlt : x < y
    · rw [if_pos hlt] at hdone
      cases done with
      | nil => exact absurd rfl hne
      | cons w later =>
        obtain ⟨rfl, hlater⟩ := List.cons_prefix_cons.mp hdone
        by_cases hlast : later = []
        · subst hlast
          refine ⟨min (x + width) y, by omega, by omega, ⟨_, List.mem_singleton.mpr rfl, rfl⟩, ?_⟩
          intro p
          simp [Window.holds]
        · obtain ⟨b, hxb, hby, ⟨w, hw, hwb⟩, hcover⟩ := ih hlater hlast
          refine ⟨b, by omega, hby, ⟨w, List.mem_cons_of_mem _ hw, hwb⟩, fun p => ?_⟩
          rw [List.exists_mem_cons_iff, hcover p]
          simp only [Window.holds]
          omega
    · rw [if_neg hlt, List.prefix_nil] at hdone
      exact absurd hdone hne

/-- All windows, given enough fuel, hold the whole interval. -/
theorem windows_cover {fuel : ℕ} {x y : ℤ} (hwidth : 0 < width) (hfuel : (y - x).toNat ≤ fuel)
    (hlt : x < y) (p : ℤ) :
    (∃ w ∈ windows width fuel x y, w.holds p) ↔ x ≤ p ∧ p ≤ y := by
  induction fuel generalizing x with
  | zero => omega
  | succ fuel ih =>
    unfold windows
    rw [if_pos hlt, List.exists_mem_cons_iff]
    by_cases hmore : min (x + width) y < y
    · rw [ih (by omega) hmore]
      simp only [Window.holds]
      omega
    · have hnone : windows width fuel (min (x + width) y) y = [] := by
        cases fuel with
        | zero => rfl
        | succ fuel =>
          unfold windows
          rw [if_neg hmore]
      rw [hnone]
      simp only [Window.holds, List.not_mem_nil, false_and, exists_false, or_false]
      omega

/-- In a prefix of the windows, a window is the first one or follows an
    earlier one that ends where it starts. -/
theorem prefix_chain {fuel : ℕ} {x y : ℤ} {done : List Window} {w : Window}
    (hdone : done ++ [w] <+: windows width fuel x y) :
    (done = [] ∧ w.start = x) ∨ ∃ v ∈ done, v.finish = w.start := by
  induction fuel generalizing x done with
  | zero => simp [windows] at hdone
  | succ fuel ih =>
    unfold windows at hdone
    by_cases hlt : x < y
    · rw [if_pos hlt] at hdone
      cases done with
      | nil =>
        rw [List.nil_append, List.cons_prefix_cons] at hdone
        exact Or.inl ⟨rfl, by rw [hdone.1]⟩
      | cons v later =>
        rw [List.cons_append, List.cons_prefix_cons] at hdone
        obtain ⟨rfl, hlater⟩ := hdone
        right
        rcases ih hlater with ⟨_, hstart⟩ | ⟨u, hu, hfinish⟩
        · exact ⟨_, List.mem_cons_self, hstart.symm⟩
        · exact ⟨u, List.mem_cons_of_mem _ hu, hfinish⟩
    · simp [if_neg hlt] at hdone

/-! ### Dropping duplicates -/

variable [DecidableEq κ] (key : α → κ)

/-- `drop_duplicates`: the first element of each key. -/
def drop_duplicates : List α → List α
  | [] => []
  | a :: l => a :: (drop_duplicates l).filter (fun b => key b ≠ key a)

variable {key}

theorem mem_of_mem_drop_duplicates {l : List α} {a : α} (h : a ∈ drop_duplicates key l) :
    a ∈ l := by
  induction l with
  | nil => exact h
  | cons b l ih =>
    rcases List.mem_cons.mp h with rfl | h
    · exact List.mem_cons_self
    · exact List.mem_cons_of_mem _ (ih (List.mem_filter.mp h).1)

/-- No key is lost. -/
theorem exists_mem_drop_duplicates {l : List α} {a : α} (h : a ∈ l) :
    ∃ b ∈ drop_duplicates key l, key b = key a := by
  induction l with
  | nil => simp at h
  | cons b l ih =>
    by_cases hkey : key a = key b
    · exact ⟨b, List.mem_cons_self, hkey.symm⟩
    · rcases List.mem_cons.mp h with rfl | h
      · exact absurd rfl hkey
      · obtain ⟨c, hc, hca⟩ := ih h
        refine ⟨c, List.mem_cons_of_mem _ (List.mem_filter.mpr ⟨hc, ?_⟩), hca⟩
        simpa [hca] using hkey

/-- No key is left twice. -/
theorem drop_duplicates_nodup (l : List α) :
    (drop_duplicates key l).Pairwise (fun a b => key a ≠ key b) := by
  induction l with
  | nil => exact List.Pairwise.nil
  | cons b l ih =>
    refine List.pairwise_cons.mpr ⟨fun c hc => ?_, ih.filter _⟩
    have hne := (List.mem_filter.mp hc).2
    intro heq
    simp [heq] at hne

/-- Dropping duplicates keeps whole groups apart. -/
theorem filter_drop_duplicates (q : κ → Bool) (l : List α) :
    (drop_duplicates key l).filter (fun a => q (key a)) =
      drop_duplicates key (l.filter (fun a => q (key a))) := by
  induction l with
  | nil => rfl
  | cons a l ih =>
    have hcomm : ((drop_duplicates key l).filter (fun b => key b ≠ key a)).filter
        (fun b => q (key b)) =
        ((drop_duplicates key l).filter (fun b => q (key b))).filter (fun b => key b ≠ key a) :=
      List.filter_comm _ _ _
    rw [drop_duplicates]
    by_cases hq : q (key a) = true
    · rw [List.filter_cons_of_pos (p := fun b => q (key b)) hq,
        List.filter_cons_of_pos (p := fun b => q (key b)) hq, drop_duplicates, hcomm, ih]
    · rw [List.filter_cons_of_neg (p := fun b => q (key b)) hq,
        List.filter_cons_of_neg (p := fun b => q (key b)) hq, hcomm, ih]
      apply List.filter_eq_self.mpr
      intro b hb
      have hqb := (List.mem_filter.mp (mem_of_mem_drop_duplicates hb)).2
      simp only [decide_eq_true_eq]
      intro heq
      rw [heq] at hqb
      exact hq hqb

/-- Lists without a key in common. -/
theorem drop_duplicates_append {l m : List α} (h : ∀ a ∈ l, ∀ b ∈ m, key b ≠ key a) :
    drop_duplicates key (l ++ m) = drop_duplicates key l ++ drop_duplicates key m := by
  induction l with
  | nil => rfl
  | cons a l ih =>
    have hm : (drop_duplicates key m).filter (fun b => key b ≠ key a) = drop_duplicates key m := by
      apply List.filter_eq_self.mpr
      intro b hb
      simpa using h a List.mem_cons_self b (mem_of_mem_drop_duplicates hb)
    rw [List.cons_append, drop_duplicates, drop_duplicates,
      ih (fun c hc => h c (List.mem_cons_of_mem _ hc)), List.filter_append, hm, List.cons_append]

/-- Parts without a key in common. -/
theorem drop_duplicates_flatMap {f : β → List α} {parts : List β}
    (h : parts.Pairwise (fun b c => ∀ x ∈ f b, ∀ y ∈ f c, key y ≠ key x)) :
    drop_duplicates key (parts.flatMap f) = parts.flatMap (fun b => drop_duplicates key (f b)) := by
  induction parts with
  | nil => rfl
  | cons b parts ih =>
    obtain ⟨hhead, htail⟩ := List.pairwise_cons.mp h
    rw [List.flatMap_cons, List.flatMap_cons, drop_duplicates_append, ih htail]
    intro x hx y hy
    obtain ⟨c, hc, hy⟩ := List.mem_flatMap.mp hy
    exact hhead c hc x hx y hy

theorem drop_duplicates_eq_self {l : List α} (hl : l.Pairwise (fun a b => key a ≠ key b)) :
    drop_duplicates key l = l := by
  induction l with
  | nil => rfl
  | cons a l ih =>
    obtain ⟨hhead, htail⟩ := List.pairwise_cons.mp hl
    rw [drop_duplicates, ih htail]
    congr 1
    apply List.filter_eq_self.mpr
    intro b hb
    simpa using (hhead b hb).symm

/-- What comes first stays, if its keys differ. -/
theorem mem_drop_duplicates_append {l m : List α} (hl : l.Pairwise (fun a b => key a ≠ key b))
    (a : α) : a ∈ drop_duplicates key (l ++ m) ↔
      a ∈ l ∨ (a ∈ drop_duplicates key m ∧ ∀ b ∈ l, key a ≠ key b) := by
  induction l with
  | nil => simp
  | cons c l ih =>
    obtain ⟨hc, hl'⟩ := List.pairwise_cons.mp hl
    rw [List.cons_append, drop_duplicates, List.mem_cons, List.mem_filter, ih hl', List.mem_cons]
    constructor
    · rintro (rfl | ⟨hin | ⟨hm, hall⟩, hne⟩)
      · exact Or.inl (Or.inl rfl)
      · exact Or.inl (Or.inr hin)
      · refine Or.inr ⟨hm, fun b hb => ?_⟩
        rcases List.mem_cons.mp hb with rfl | hb
        · simpa using hne
        · exact hall b hb
    · rintro ((rfl | hin) | ⟨hm, hall⟩)
      · exact Or.inl rfl
      · exact Or.inr ⟨Or.inl hin, by simpa using fun h => hc a hin h.symm⟩
      · exact Or.inr ⟨Or.inr ⟨hm, fun b hb => hall b (List.mem_cons_of_mem _ hb)⟩,
          by simpa using hall c List.mem_cons_self⟩

end Batches
