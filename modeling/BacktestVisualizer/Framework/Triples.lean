import BacktestVisualizer.Framework.Programs

/-! # What Is Left Behind

  A triple says what holds after a program in both cases: of the value and
  the world when it returns, of the error and the world when it raises. It is
  what an invariant needs that an error must not break either.
-/

namespace Program

variable {ω ε α β : Type}

/-- Started with `P`, a program leaves `Q` if it returns and `E` if it
    raises. -/
def Triple (P : ω → Prop) (m : Program ω ε α) (Q : α → ω → Prop) (E : ε → ω → Prop) : Prop :=
  ∀ w, P w →
    match start m w with
    | (.ok a, w') => Q a w'
    | (.error e, w') => E e w'

variable {P P' : ω → Prop} {Q Q' : α → ω → Prop} {E E' : ε → ω → Prop}

theorem Triple.ok {m : Program ω ε α} (h : Triple P m Q E) {w w' : ω} {a : α} (hw : P w)
    (hrun : start m w = (.ok a, w')) : Q a w' := by
  have hpost := h w hw
  rw [hrun] at hpost
  exact hpost

theorem Triple.error {m : Program ω ε α} (h : Triple P m Q E) {w w' : ω} {e : ε} (hw : P w)
    (hrun : start m w = (.error e, w')) : E e w' := by
  have hpost := h w hw
  rw [hrun] at hpost
  exact hpost

theorem Triple.pure {a : α} (h : ∀ w, P w → Q a w) : Triple P (pure a : Program ω ε α) Q E :=
  fun w hw => h w hw

theorem Triple.throw {e : ε} (h : ∀ w, P w → E e w) :
    Triple P (throw e : Program ω ε α) Q E :=
  fun w hw => h w hw

theorem Triple.modify {f : ω → ω} {Q : Unit → ω → Prop} (h : ∀ w, P w → Q () (f w)) :
    Triple P (modify f : Program ω ε Unit) Q E :=
  fun w hw => h w hw

/-- A step that does not raise. -/
theorem Triple.act {f : ω → α × ω} (h : ∀ w, P w → Q (f w).1 (f w).2) :
    Triple P (act (fun w => (.ok (f w).1, (f w).2)) : Program ω ε α) Q E :=
  fun w hw => h w hw

/-- A step that changes nothing. -/
theorem Triple.except {x : Except ε α} (hok : ∀ a w, x = .ok a → P w → Q a w)
    (herror : ∀ e w, x = .error e → P w → E e w) :
    Triple P (Program.act (fun w => (x, w))) Q E := by
  intro w hw
  cases x with
  | ok a => exact hok a w rfl hw
  | error e => exact herror e w rfl hw

theorem Triple.bind {Q' : β → ω → Prop} {m : Program ω ε α} {f : α → Program ω ε β}
    (hm : Triple P m Q E) (hf : ∀ a, Triple (Q a) (f a) Q' E) : Triple P (m >>= f) Q' E := by
  intro w hw
  have hpost := hm w hw
  cases hrun : start m w with
  | mk r w₁ =>
    rw [hrun] at hpost
    cases r with
    | ok a =>
      rw [start_bind_ok hrun]
      exact hf a w₁ hpost
    | error e =>
      rw [start_bind_error hrun]
      exact hpost

theorem Triple.weaken {m : Program ω ε α} (h : Triple P m Q E) (hP : ∀ w, P' w → P w)
    (hQ : ∀ a w, Q a w → Q' a w) (hE : ∀ e w, E e w → E' e w) : Triple P' m Q' E' := by
  intro w hw
  have hpost := h w (hP w hw)
  cases hrun : start m w with
  | mk r w' =>
    rw [hrun] at hpost
    cases r with
    | ok a => exact hQ a w' hpost
    | error e => exact hE e w' hpost

theorem Triple.ite {c : Prop} [Decidable c] {m m' : Program ω ε α}
    (h : c → Triple P m Q E) (h' : ¬ c → Triple P m' Q E) :
    Triple P (if c then m else m') Q E := by
  split
  · next hc => exact h hc
  · next hc => exact h' hc

/-- A loop that carries a value: what each turn keeps for the elements done
    holds for all of them at the end. -/
theorem Triple.foldlM {f : β → α → Program ω ε β} {I : List α → β → ω → Prop} {l : List α}
    (h : ∀ done a rest b, l = done ++ a :: rest → Triple (I done b) (f b a) (I (done ++ [a])) E)
    (b : β) : Triple (I [] b) (l.foldlM f b) (I l) E := by
  suffices hrest : ∀ rest done b, l = done ++ rest → Triple (I done b) (rest.foldlM f b) (I l) E by
    exact hrest l [] b rfl
  intro rest
  induction rest with
  | nil =>
    intro done b hl
    rw [List.append_nil] at hl
    subst hl
    exact .pure (fun w hw => hw)
  | cons a rest ih =>
    intro done b hl
    rw [List.foldlM_cons]
    apply Triple.bind (h done a rest b hl)
    intro b'
    apply ih
    rw [hl, List.append_assoc, List.singleton_append]

end Program
