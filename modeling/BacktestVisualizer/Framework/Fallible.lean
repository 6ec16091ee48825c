import Mathlib.Tactic

/-! # Computations That May Fail

  A chain of fallible steps and a loop of them, taken apart: what succeeded
  did so at every step.
-/

namespace Fallible

variable {α β ε : Type}

theorem bind_ok {x : Except ε α} {f : α → Except ε β} {b : β} (h : (x >>= f) = .ok b) :
    ∃ a, x = .ok a ∧ f a = .ok b := by
  cases x with
  | error e => exact absurd h (by simp [bind, Except.bind])
  | ok a => exact ⟨a, rfl, h⟩

/-- The same, where it is known what came first. -/
theorem bind_ok_of {x : Except ε α} {f : α → Except ε β} {a : α} {b : β} (hx : x = .ok a)
    (h : (x >>= f) = .ok b) : f a = .ok b := by
  rw [hx] at h
  exact h

/-- A chain fails at its first step, or after it. -/
theorem bind_error {x : Except ε α} {f : α → Except ε β} {e : ε} (h : (x >>= f) = .error e) :
    x = .error e ∨ ∃ a, x = .ok a ∧ f a = .error e := by
  cases x with
  | error e' => exact .inl (congrArg Except.error (Except.error.inj h))
  | ok a => exact .inr ⟨a, rfl, h⟩

theorem map_ok {x : Except ε α} {f : α → β} {b : β} (h : x.map f = .ok b) :
    ∃ a, x = .ok a ∧ f a = b := by
  cases x with
  | error e => exact absurd h (by simp [Except.map])
  | ok a => exact ⟨a, rfl, Except.ok.inj h⟩

theorem map_error {x : Except ε α} {f : α → β} {e : ε} (h : x.map f = .error e) :
    x = .error e := by
  cases x with
  | error e' => exact congrArg Except.error (Except.error.inj h)
  | ok a => exact absurd h (by simp [Except.map])

theorem exists_of_isOk {x : Except ε α} (h : x.isOk = true) : ∃ a, x = .ok a := by
  cases x with
  | error e => exact absurd h Bool.false_ne_true
  | ok a => exact ⟨a, rfl⟩

/-- What comes through with another name for its errors has come through. -/
theorem mapError_ok {ε' : Type} {x : Except ε α} {f : ε → ε'} {a : α} :
    x.mapError f = .ok a ↔ x = .ok a := by
  cases x with
  | error e => simp [Except.mapError]
  | ok b => simp [Except.mapError]

/-- A loop of steps that all succeed. -/
theorem mapM_ok {f : α → Except ε β} {g : α → β} (l : List α)
    (h : ∀ x ∈ l, f x = .ok (g x)) : l.mapM f = .ok (l.map g) := by
  induction l with
  | nil => rfl
  | cons x l ih =>
    rw [List.mapM_cons, h x List.mem_cons_self, ih (fun y hy => h y (List.mem_cons_of_mem _ hy))]
    rfl

theorem exists_mapM_ok {f : α → Except ε β} (l : List α) (h : ∀ x ∈ l, ∃ y, f x = .ok y) :
    ∃ r, l.mapM f = .ok r := by
  induction l with
  | nil => exact ⟨[], rfl⟩
  | cons a l ih =>
    obtain ⟨y, hy⟩ := h a List.mem_cons_self
    obtain ⟨r, hr⟩ := ih (fun x hx => h x (List.mem_cons_of_mem _ hx))
    refine ⟨y :: r, ?_⟩
    rw [List.mapM_cons, hy, hr]
    rfl

/-- A loop fails at one of its steps. -/
theorem exists_of_mapM_error {f : α → Except ε β} {l : List α} {e : ε}
    (h : l.mapM f = .error e) : ∃ x ∈ l, f x = .error e := by
  induction l with
  | nil => exact absurd h (by simp [pure, Except.pure])
  | cons a l ih =>
    rw [List.mapM_cons] at h
    rcases bind_error h with hfirst | ⟨b, _, hrest⟩
    · exact ⟨a, List.mem_cons_self, hfirst⟩
    · rcases bind_error hrest with hloop | ⟨r, _, hlast⟩
      · obtain ⟨x, hx, heq⟩ := ih hloop
        exact ⟨x, List.mem_cons_of_mem a hx, heq⟩
      · exact absurd hlast (by simp [pure, Except.pure])

/-- A loop that succeeds does so at each element, in order. -/
theorem forall₂_of_mapM_ok {f : α → Except ε β} {l : List α} {r : List β} (h : l.mapM f = .ok r) :
    List.Forall₂ (fun x y => f x = .ok y) l r := by
  induction l generalizing r with
  | nil =>
    obtain rfl : [] = r := Except.ok.inj h
    exact List.Forall₂.nil
  | cons a l ih =>
    rw [List.mapM_cons] at h
    obtain ⟨y, hy, hrest⟩ := bind_ok h
    obtain ⟨r', hr', hcons⟩ := bind_ok hrest
    obtain rfl : y :: r' = r := Except.ok.inj hcons
    exact List.Forall₂.cons hy (ih hr')

/-- What a loop made of one of its inputs, and of which input. -/
theorem exists_right {R : α → β → Prop} {l : List α} {r : List β} (h : List.Forall₂ R l r)
    {a : α} (ha : a ∈ l) : ∃ b ∈ r, R a b := by
  induction h with
  | nil => exact absurd ha List.not_mem_nil
  | cons hab _ ih =>
    rcases List.mem_cons.mp ha with rfl | ha
    · exact ⟨_, List.mem_cons_self, hab⟩
    · obtain ⟨b, hb, hR⟩ := ih ha
      exact ⟨b, List.mem_cons_of_mem _ hb, hR⟩

theorem exists_left {R : α → β → Prop} {l : List α} {r : List β} (h : List.Forall₂ R l r)
    {b : β} (hb : b ∈ r) : ∃ a ∈ l, R a b := exists_right h.flip hb

theorem ok_of_mapM_ok {f : α → Except ε β} {l : List α} {r : List β} (h : l.mapM f = .ok r) :
    ∀ x ∈ l, ∃ y, f x = .ok y := by
  intro x hx
  obtain ⟨y, _, hy⟩ := exists_right (forall₂_of_mapM_ok h) hx
  exact ⟨y, hy⟩

/-- A loop that succeeds collects what each step can only answer. -/
theorem eq_map_of_mapM_ok {f : α → Except ε β} {g : α → β} {l : List α} {r : List β}
    (h : l.mapM f = .ok r) (hg : ∀ x ∈ l, ∀ y, f x = .ok y → y = g x) : r = l.map g := by
  have hall : ∀ x ∈ l, f x = .ok (g x) := by
    intro x hx
    obtain ⟨y, hy⟩ := ok_of_mapM_ok h x hx
    rw [hy, hg x hx y hy]
  rw [mapM_ok l hall] at h
  exact (Except.ok.inj h).symm

/-- A step that succeeds more often succeeds in the loop. -/
theorem mapM_ok_mono {f g : α → Except ε β} {l : List α} {r : List β}
    (hfg : ∀ x y, f x = .ok y → g x = .ok y) (h : l.mapM f = .ok r) : l.mapM g = .ok r := by
  induction l generalizing r with
  | nil => exact h
  | cons a l ih =>
    rw [List.mapM_cons] at h ⊢
    obtain ⟨y, hy, hrest⟩ := bind_ok h
    obtain ⟨r', hr', hcons⟩ := bind_ok hrest
    rw [hfg a y hy, ih hr']
    exact hcons

theorem length_of_mapM_ok {f : α → Except ε β} {l : List α} {r : List β}
    (h : l.mapM f = .ok r) : r.length = l.length :=
  (forall₂_of_mapM_ok h).length_eq.symm

/-- **Loop rule**: what every step that succeeds preserves holds at the end. -/
theorem foldlM_preserves {P : β → Prop} {f : β → α → Except ε β} {l : List α} {b b' : β}
    (hstep : ∀ b b' a, a ∈ l → f b a = .ok b' → P b → P b') (h : l.foldlM f b = .ok b')
    (hb : P b) : P b' := by
  induction l generalizing b with
  | nil =>
    obtain rfl : b = b' := Except.ok.inj h
    exact hb
  | cons a l ih =>
    rw [List.foldlM_cons] at h
    obtain ⟨c, hc, hrest⟩ := bind_ok h
    exact ih (fun b b' x hx => hstep b b' x (List.mem_cons_of_mem _ hx)) hrest
      (hstep b c a List.mem_cons_self hc hb)

end Fallible
