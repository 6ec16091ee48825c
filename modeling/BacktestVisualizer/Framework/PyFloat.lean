import Mathlib.Algebra.Order.Field.Rat
import Mathlib.Algebra.Order.Floor.Defs
import Mathlib.Data.Rat.Floor
import Mathlib.Tactic

/-! # Floats Without Rounding

  The values a Python float computation can see: a finite number, the two
  infinities and NaN. Finite values are rationals and arithmetic on them is
  exact; the special values follow the usual rules, and every comparison
  with NaN is false. There is one zero.

  `py_min` and `py_max` are the two-argument built-ins: they keep their
  first argument unless the second one is strictly better, so a NaN in the
  second place is ignored and one in the first place wins.
-/

/-- A float. -/
inductive PyFloat where
  | fin (q : ℚ)
  | pos_inf
  | neg_inf
  | nan
  deriving DecidableEq, Repr

namespace PyFloat

/-! ### Arithmetic -/

def neg : PyFloat → PyFloat
  | fin a => fin (-a)
  | pos_inf => neg_inf
  | neg_inf => pos_inf
  | nan => nan

instance : Neg PyFloat := ⟨neg⟩

def add : PyFloat → PyFloat → PyFloat
  | fin a, fin b => fin (a + b)
  | nan, _ => nan
  | _, nan => nan
  | pos_inf, neg_inf => nan
  | neg_inf, pos_inf => nan
  | pos_inf, _ => pos_inf
  | _, pos_inf => pos_inf
  | neg_inf, _ => neg_inf
  | _, neg_inf => neg_inf

instance : Add PyFloat := ⟨add⟩

instance : Sub PyFloat := ⟨fun a b => a + -b⟩

/-- A finite number times an infinity or NaN. -/
def scale (a : ℚ) (x : PyFloat) : PyFloat :=
  if a = 0 then nan else if 0 < a then x else -x

def mul : PyFloat → PyFloat → PyFloat
  | fin a, fin b => fin (a * b)
  | fin a, x => scale a x
  | x, fin b => scale b x
  | nan, _ => nan
  | _, nan => nan
  | pos_inf, x => x
  | neg_inf, x => -x

instance : Mul PyFloat := ⟨mul⟩

/-- Division by a finite number other than zero. -/
def div_rat (x : PyFloat) (d : ℚ) : PyFloat :=
  match x with
  | fin a => fin (a / d)
  | x => scale d x

def abs : PyFloat → PyFloat
  | fin a => fin |a|
  | nan => nan
  | _ => pos_inf

/-! ### Rounding -/

/-- To the nearest integer, a tie to the even one. -/
def round_half_even (q : ℚ) : ℤ :=
  if q - ⌊q⌋ < 1 / 2 then ⌊q⌋
  else if 1 / 2 < q - ⌊q⌋ then ⌊q⌋ + 1
  else if ⌊q⌋ % 2 = 0 then ⌊q⌋ else ⌊q⌋ + 1

theorem round_half_even_close (q : ℚ) : |(round_half_even q : ℚ) - q| ≤ 1 / 2 := by
  have hlow := Int.floor_le q
  have hhigh := Int.lt_floor_add_one q
  unfold round_half_even
  rw [abs_le]
  split
  · constructor <;> linarith
  · split
    · push_cast
      constructor <;> linarith
    · split
      · constructor <;> linarith
      · push_cast
        constructor <;> linarith

/-! ### Comparisons -/

/-- Python's `<`. -/
def lt : PyFloat → PyFloat → Bool
  | fin a, fin b => a < b
  | neg_inf, fin _ => true
  | neg_inf, pos_inf => true
  | fin _, pos_inf => true
  | _, _ => false

/-- Python's `<=`. -/
def le : PyFloat → PyFloat → Bool
  | fin a, fin b => a ≤ b
  | nan, _ => false
  | _, nan => false
  | neg_inf, _ => true
  | _, pos_inf => true
  | _, _ => false

instance : LT PyFloat := ⟨fun a b => lt a b = true⟩

instance : LE PyFloat := ⟨fun a b => le a b = true⟩

instance (a b : PyFloat) : Decidable (a < b) := inferInstanceAs (Decidable (lt a b = true))

instance (a b : PyFloat) : Decidable (a ≤ b) := inferInstanceAs (Decidable (le a b = true))

def is_finite : PyFloat → Bool
  | fin _ => true
  | _ => false

/-- `min(a, b)`. -/
def py_min (a b : PyFloat) : PyFloat := if b < a then b else a

/-- `max(a, b)`. -/
def py_max (a b : PyFloat) : PyFloat := if a < b then b else a

/-- `math.floor`: raises on an infinity and on NaN. -/
def floor : PyFloat → Option ℤ
  | fin a => some ⌊a⌋
  | _ => none

/-- The number behind a finite value. -/
def val : PyFloat → ℚ
  | fin a => a
  | _ => 0

/-! ### Finite values -/

@[simp] theorem fin_add (a b : ℚ) : fin a + fin b = fin (a + b) := rfl

@[simp] theorem neg_fin (a : ℚ) : -fin a = fin (-a) := rfl

@[simp] theorem fin_sub (a b : ℚ) : fin a - fin b = fin (a - b) := by
  show fin (a + -b) = fin (a - b)
  rw [sub_eq_add_neg]

@[simp] theorem fin_mul (a b : ℚ) : fin a * fin b = fin (a * b) := rfl

@[simp] theorem div_rat_fin (a d : ℚ) : (fin a).div_rat d = fin (a / d) := rfl

@[simp] theorem abs_fin (a : ℚ) : (fin a).abs = fin |a| := rfl

@[simp] theorem fin_lt (a b : ℚ) : fin a < fin b ↔ a < b := by
  show decide (a < b) = true ↔ a < b
  exact decide_eq_true_iff

@[simp] theorem fin_le (a b : ℚ) : fin a ≤ fin b ↔ a ≤ b := by
  show decide (a ≤ b) = true ↔ a ≤ b
  exact decide_eq_true_iff

@[simp] theorem is_finite_fin (a : ℚ) : (fin a).is_finite = true := rfl

@[simp] theorem floor_fin (a : ℚ) : (fin a).floor = some ⌊a⌋ := rfl

@[simp] theorem val_fin (a : ℚ) : (fin a).val = a := rfl

@[simp] theorem py_min_fin (a b : ℚ) : py_min (fin a) (fin b) = fin (min a b) := by
  unfold py_min
  by_cases h : b < a
  · rw [if_pos (by simpa using h), min_eq_right (le_of_lt h)]
  · rw [if_neg (by simpa using h), min_eq_left (not_lt.mp h)]

@[simp] theorem py_max_fin (a b : ℚ) : py_max (fin a) (fin b) = fin (max a b) := by
  unfold py_max
  by_cases h : a < b
  · rw [if_pos (by simpa using h), max_eq_right (le_of_lt h)]
  · rw [if_neg (by simpa using h), max_eq_left (not_lt.mp h)]

theorem is_finite_iff {x : PyFloat} : x.is_finite = true ↔ ∃ q, x = fin q := by
  cases x <;> simp [is_finite]

/-- A product with a finite factor is finite only if the other factor is. -/
theorem mul_fin_eq_fin {x : PyFloat} {m p : ℚ} (h : x * fin m = fin p) :
    ∃ a, x = fin a ∧ p = a * m := by
  have hscale : ∀ y : PyFloat, (∀ q, y ≠ fin q) → (∀ q, -y ≠ fin q) → scale m y ≠ fin p := by
    intro y hy hneg
    unfold scale
    by_cases hzero : m = 0
    · simp [hzero]
    · by_cases hpos : 0 < m
      · rw [if_neg hzero, if_pos hpos]
        exact hy p
      · rw [if_neg hzero, if_neg hpos]
        exact hneg p
  cases x with
  | fin a => exact ⟨a, rfl, (fin.inj h).symm⟩
  | pos_inf => exact absurd h (hscale pos_inf (fun _ => by simp) (fun _ => by simp [Neg.neg, neg]))
  | neg_inf => exact absurd h (hscale neg_inf (fun _ => by simp) (fun _ => by simp [Neg.neg, neg]))
  | nan => exact absurd h (hscale nan (fun _ => by simp) (fun _ => by simp [Neg.neg, neg]))

theorem floor_some {x : PyFloat} {n : ℤ} (h : x.floor = some n) :
    ∃ q, x = fin q ∧ n = ⌊q⌋ := by
  cases x with
  | fin q => exact ⟨q, rfl, by simpa [floor] using h.symm⟩
  | pos_inf => simp [floor] at h
  | neg_inf => simp [floor] at h
  | nan => simp [floor] at h

/-! ### Bounds -/

/-- No finite number up to `x` is above `c`. NaN has none up to it. -/
def at_most (x : PyFloat) (c : ℚ) : Prop := ∀ q : ℚ, fin q ≤ x → q ≤ c

@[simp] theorem at_most_fin (a c : ℚ) : (fin a).at_most c ↔ a ≤ c := by
  constructor
  · intro h
    exact h a (by simp)
  · intro h q hq
    rw [fin_le] at hq
    exact le_trans hq h

theorem le_of_le_of_lt {q : ℚ} {x y : PyFloat} (h : fin q ≤ x) (hlt : x < y) : fin q ≤ y := by
  cases x with
  | fin a =>
    cases y with
    | fin b =>
      rw [fin_le] at h ⊢
      rw [fin_lt] at hlt
      linarith
    | pos_inf => rfl
    | neg_inf => exact absurd hlt Bool.false_ne_true
    | nan => exact absurd hlt Bool.false_ne_true
  | pos_inf => exact absurd hlt (by cases y <;> exact Bool.false_ne_true)
  | neg_inf => exact absurd h Bool.false_ne_true
  | nan => exact absurd h Bool.false_ne_true

theorem at_most_py_min_left {a : PyFloat} {c : ℚ} (h : a.at_most c) (b : PyFloat) :
    (py_min a b).at_most c := by
  unfold py_min
  split
  · rename_i hlt
    intro q hq
    exact h q (le_of_le_of_lt hq hlt)
  · exact h

theorem at_most_py_min_right (a : PyFloat) (c : ℚ) : (py_min a (fin c)).at_most c := by
  unfold py_min
  split
  · rw [at_most_fin]
  · rename_i hnot
    intro q hq
    cases a with
    | fin x =>
      rw [fin_lt, not_lt] at hnot
      rw [fin_le] at hq
      exact le_trans hq hnot
    | pos_inf => exact absurd rfl hnot
    | neg_inf => exact absurd hq Bool.false_ne_true
    | nan => exact absurd hq Bool.false_ne_true

/-- What is bounded from both sides is a number. -/
theorem py_max_at_most {x : PyFloat} {c : ℚ} (h : x.at_most c) (hc : 0 ≤ c) :
    ∃ q, py_max (fin 0) x = fin q ∧ q ≤ c := by
  unfold py_max
  split
  · rename_i hpos
    cases x with
    | fin q => exact ⟨q, rfl, (at_most_fin q c).mp h⟩
    | pos_inf => exact absurd (h (c + 1) rfl) (by linarith)
    | neg_inf => exact absurd hpos Bool.false_ne_true
    | nan => exact absurd hpos Bool.false_ne_true
  · exact ⟨0, rfl, hc⟩

theorem at_most_div {x : PyFloat} {c p : ℚ} (h : x.at_most c) (hp : 0 < p) :
    (x.div_rat p).at_most (c / p) := by
  cases x with
  | fin a =>
    rw [div_rat_fin, at_most_fin]
    rw [at_most_fin] at h
    exact div_le_div_of_nonneg_right h (le_of_lt hp)
  | pos_inf => exact absurd (h (c + 1) rfl) (by linarith)
  | neg_inf =>
    intro q hq
    have hscale : neg_inf.div_rat p = neg_inf := by
      show scale p neg_inf = neg_inf
      rw [scale, if_neg (ne_of_gt hp), if_pos hp]
    rw [hscale] at hq
    exact absurd hq Bool.false_ne_true
  | nan =>
    intro q hq
    have hscale : nan.div_rat p = nan := by
      show scale p nan = nan
      rw [scale, if_neg (ne_of_gt hp), if_pos hp]
    rw [hscale] at hq
    exact absurd hq Bool.false_ne_true

theorem at_most_floor {x : PyFloat} {c : ℚ} (h : x.at_most c) {n : ℤ} (hn : x.floor = some n) :
    (n : ℚ) ≤ c := by
  obtain ⟨q, rfl, rfl⟩ := floor_some hn
  rw [at_most_fin] at h
  exact le_trans (Int.floor_le q) h

theorem mul_comm_float (x y : PyFloat) : x * y = y * x := by
  cases x with
  | fin a =>
    cases y with
    | fin b => rw [fin_mul, fin_mul, mul_comm]
    | pos_inf => rfl
    | neg_inf => rfl
    | nan => rfl
  | pos_inf => cases y <;> rfl
  | neg_inf => cases y <;> rfl
  | nan => cases y <;> rfl

/-- A finite product has two finite factors. -/
theorem mul_eq_fin {x y : PyFloat} {p : ℚ} (h : x * y = fin p) :
    ∃ a b, x = fin a ∧ y = fin b ∧ p = a * b := by
  have hspecial : ∀ x y : PyFloat, x.is_finite = false → y.is_finite = false → x * y ≠ fin p := by
    intro x y hx hy
    cases x <;> cases y <;> simp_all [is_finite, HMul.hMul, Mul.mul, mul, Neg.neg, neg]
  cases hx : x.is_finite with
  | true =>
    obtain ⟨a, rfl⟩ := is_finite_iff.mp hx
    rw [mul_comm_float] at h
    obtain ⟨b, rfl, hp⟩ := mul_fin_eq_fin h
    exact ⟨a, b, rfl, rfl, by rw [hp, mul_comm]⟩
  | false =>
    cases hy : y.is_finite with
    | true =>
      obtain ⟨b, rfl⟩ := is_finite_iff.mp hy
      obtain ⟨a, rfl, hp⟩ := mul_fin_eq_fin h
      exact ⟨a, b, rfl, rfl, hp⟩
    | false => exact absurd h (hspecial x y hx hy)

/-- Nothing is smaller or larger than NaN, so `min(1.0, nan)` is `1.0`. -/
example : py_max (fin 0) (py_min (fin 1) nan) = fin 1 := by decide +kernel

end PyFloat
