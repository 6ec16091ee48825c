import Mathlib.Data.Nat.Count
import Mathlib.Order.Interval.Finset.Basic
import Mathlib.Tactic

/-! # Weekdays

  Days are numbered, and day 0 is a Thursday. Any seven days in a row have
  five from Monday to Friday, so the number of these in a window is that of
  its full weeks and of the days that are left.
-/

namespace Weekdays

/-- Monday is 0. -/
def weekday (d : ℤ) : ℤ := (d + 3) % 7

/-- From Monday to Friday. -/
def Working (d : ℤ) : Prop := weekday d < 5

instance : DecidablePred Working := fun d => inferInstanceAs (Decidable (weekday d < 5))

/-- The days from Monday to Friday in a window. -/
noncomputable def working_days (start stop : ℤ) : Finset ℤ := (Finset.Icc start stop).filter Working

theorem mem_working_days {start stop d : ℤ} :
    d ∈ working_days start stop ↔ (start ≤ d ∧ d ≤ stop) ∧ Working d := by
  unfold working_days
  rw [Finset.mem_filter, Finset.mem_Icc]

theorem working_add_week (d : ℤ) : Working (d + 7) ↔ Working d := by
  unfold Working weekday
  omega

/-- How many of the first `n` days from `start` are working days. -/
def count_from (start : ℤ) (n : ℕ) : ℕ := Nat.count (fun o : ℕ => Working (start + o)) n

theorem card_working_days (start stop : ℤ) :
    (working_days start stop).card = count_from start (stop - start + 1).toNat := by
  have hdays : Finset.Icc start stop =
      (Finset.range (stop - start + 1).toNat).map
        ⟨fun o : ℕ => start + o, fun a b h => by
          have hsame : start + (a : ℤ) = start + b := h
          omega⟩ := by
    ext d
    rw [Finset.mem_map, Finset.mem_Icc]
    constructor
    · intro ⟨hlow, hhigh⟩
      refine ⟨(d - start).toNat, Finset.mem_range.mpr (by omega), ?_⟩
      show start + ((d - start).toNat : ℤ) = d
      omega
    · intro ⟨o, ho, hd⟩
      have ho' := Finset.mem_range.mp ho
      have hd' : start + (o : ℤ) = d := hd
      omega
  unfold working_days count_from
  rw [hdays, Finset.filter_map, Finset.card_map, Nat.count_eq_card_filter_range]
  rfl

/-- Every full week has five. -/
theorem count_week (start : ℤ) : count_from start 7 = 5 := by
  have hday : ∀ o : ℕ, Working (start + o) ↔ (weekday start + o) % 7 < 5 := by
    intro o
    unfold Working weekday
    omega
  have hlow : 0 ≤ weekday start := Int.emod_nonneg _ (by decide)
  have hhigh : weekday start < 7 := Int.emod_lt_of_pos _ (by decide)
  unfold count_from
  simp only [hday]
  generalize weekday start = w at hlow hhigh
  interval_cases w
  all_goals decide

theorem count_add (start : ℤ) (m n : ℕ) :
    count_from start (m + n) = count_from start m + count_from (start + m) n := by
  unfold count_from
  rw [Nat.count_add]
  congr 1
  congr 1
  funext o
  rw [Nat.cast_add, add_assoc]

/-- A week later it is the same. -/
theorem count_shift_week (start : ℤ) (n : ℕ) : count_from (start + 7) n = count_from start n := by
  unfold count_from
  congr 1
  funext o
  rw [show start + 7 + (o : ℤ) = start + o + 7 by ring]
  exact propext (working_add_week _)

theorem count_weeks (start : ℤ) (q r : ℕ) :
    count_from start (7 * q + r) = 5 * q + count_from start r := by
  induction q with
  | zero => simp
  | succ q ih =>
    rw [show 7 * (q + 1) + r = 7 + (7 * q + r) by ring, count_add, count_week]
    have hshift := count_shift_week start (7 * q + r)
    rw [show ((7 : ℕ) : ℤ) = 7 by rfl, hshift, ih]
    ring

/-- Of the days that are left at most two are no working days. -/
theorem count_rest_ge (start : ℤ) {r : ℕ} (hr : r < 7) : r ≤ count_from start r + 2 := by
  have hweek := count_week start
  have hsplit := count_add start r (7 - r)
  have hrest : count_from (start + r) (7 - r) ≤ 7 - r := Nat.count_le _
  rw [show r + (7 - r) = 7 by omega, hweek] at hsplit
  omega

end Weekdays
