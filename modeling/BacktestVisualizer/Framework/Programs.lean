import Mathlib.Order.Defs.Unbundled
import Mathlib.Tactic

/-! # Programs That Act on a World

  A program reads and changes a world and returns or raises. Two kinds of
  statement about it, each with its rules for the constructs of a program:
  what it does to the world however it ends and what is true once it has
  returned (`Spec`), and that it does return (`Returns`).
-/

/-- A program over worlds `ω` that may raise an `ε`. -/
abbrev Program (ω ε : Type) := ExceptT ε (StateM ω)

namespace Program

variable {ω ε α β : Type}

/-- A step that is given as what it does to a world. -/
def act (f : ω → Except ε α × ω) : Program ω ε α := ExceptT.mk f

/-- Run a program in a world. -/
def start (m : Program ω ε α) (w : ω) : Except ε α × ω := m.run.run w

@[simp] theorem start_act (f : ω → Except ε α × ω) (w : ω) : start (act f) w = f w := rfl

@[simp] theorem start_pure (a : α) (w : ω) : start (pure a : Program ω ε α) w = (.ok a, w) := rfl

@[simp] theorem start_throw (e : ε) (w : ω) :
    start (throw e : Program ω ε α) w = (.error e, w) := rfl

@[simp] theorem start_get (w : ω) : start (get : Program ω ε ω) w = (.ok w, w) := rfl

@[simp] theorem start_modify (f : ω → ω) (w : ω) :
    start (modify f : Program ω ε Unit) w = (.ok (), f w) := rfl

theorem start_bind (m : Program ω ε α) (f : α → Program ω ε β) (w : ω) :
    start (m >>= f) w =
      match start m w with
      | (.ok a, w') => start (f a) w'
      | (.error e, w') => (.error e, w') := by
  cases h : start m w with
  | mk r w' =>
    have hrun : StateT.run (ExceptT.run m) w = (r, w') := h
    cases r with
    | ok a =>
      simp only [start, StateT.run_bind, ExceptT.run_bind, hrun]
      rfl
    | error e =>
      simp only [start, StateT.run_bind, ExceptT.run_bind, hrun]
      rfl

theorem forM_cons (f : α → Program ω ε PUnit) (a : α) (l : List α) :
    (a :: l).forM f = f a >>= fun _ => l.forM f := rfl

theorem start_bind_ok {m : Program ω ε α} {f : α → Program ω ε β} {w w' : ω} {a : α}
    (h : start m w = (.ok a, w')) : start (m >>= f) w = start (f a) w' := by
  rw [start_bind, h]

theorem start_bind_error {m : Program ω ε α} {f : α → Program ω ε β} {w w' : ω} {e : ε}
    (h : start m w = (.error e, w')) : start (m >>= f) w = (.error e, w') := by
  rw [start_bind, h]

/-! ### However it ends -/

/-- Started with `P`, a program relates the two worlds by `R` however it ends,
    and leaves `Q` once it has returned. -/
def Spec (R : ω → ω → Prop) (P : ω → Prop) (m : Program ω ε α) (Q : α → ω → Prop) : Prop :=
  ∀ w, P w → R w (start m w).2 ∧ ∀ a w', start m w = (.ok a, w') → Q a w'

/-- A fact that no step in `R` undoes. -/
def Stable (R : ω → ω → Prop) (F : ω → Prop) : Prop := ∀ w w', R w w' → F w → F w'

section
variable {R : ω → ω → Prop} {F G : ω → Prop}

theorem Stable.const (c : Prop) : Stable R (fun _ => c) := fun _ _ _ hc => hc

theorem Stable.and (hF : Stable R F) (hG : Stable R G) : Stable R (fun w => F w ∧ G w) :=
  fun w w' hR hw => ⟨hF w w' hR hw.1, hG w w' hR hw.2⟩

theorem Stable.or (hF : Stable R F) (hG : Stable R G) : Stable R (fun w => F w ∨ G w) :=
  fun w w' hR hw => hw.imp (hF w w' hR) (hG w w' hR)

theorem Stable.exists {γ : Type} {G : γ → ω → Prop} (hG : ∀ x, Stable R (G x)) :
    Stable R (fun w => ∃ x, G x w) :=
  fun w w' hR hw => hw.imp (fun x => hG x w w' hR)

/-- A fact about every element of a list, -/
theorem Stable.all {l : List α} {G : α → ω → Prop} (hG : ∀ a, Stable R (G a)) :
    Stable R (fun w => ∀ a ∈ l, G a w) :=
  fun w w' hR hw a ha => hG a w w' hR (hw a ha)

/-- and about what stands at the same place in two. -/
theorem Stable.forall₂ {l : List α} {l' : List β} {G : α → β → ω → Prop}
    (hG : ∀ a b, Stable R (G a b)) : Stable R (fun w => List.Forall₂ (fun a b => G a b w) l l') :=
  fun w w' hR hw => hw.imp (fun a b => hG a b w w' hR)

end

section
variable {R : ω → ω → Prop} {P : ω → Prop} {Q : α → ω → Prop}

theorem Spec.act {f : ω → Except ε α × ω}
    (h : ∀ w, P w → R w (f w).2 ∧ ∀ a, (f w).1 = .ok a → Q a (f w).2) : Spec R P (act f) Q := by
  intro w hw
  refine ⟨(h w hw).1, ?_⟩
  intro a w' hrun
  have hf : f w = (.ok a, w') := hrun
  have hok := (h w hw).2 a (by rw [hf])
  rw [hf] at hok
  exact hok

theorem Spec.pure [IsPreorder ω R] {a : α} (h : ∀ w, P w → Q a w) :
    Spec R P (pure a : Program ω ε α) Q := by
  show Spec R P (Program.act (fun w => (.ok a, w))) Q
  apply Spec.act
  intro w hw
  refine ⟨refl_of R w, ?_⟩
  intro b hb
  rw [← Except.ok.inj hb]
  exact h w hw

theorem Spec.throw [IsPreorder ω R] (e : ε) : Spec R P (throw e : Program ω ε α) Q := by
  show Spec R P (Program.act (fun w => (.error e, w))) Q
  apply Spec.act
  intro w _
  exact ⟨refl_of R w, by simp⟩

theorem Spec.modify {f : ω → ω} {Q : Unit → ω → Prop} (h : ∀ w, P w → R w (f w) ∧ Q () (f w)) :
    Spec R P (modify f : Program ω ε Unit) Q := by
  show Spec R P (Program.act (fun w => (.ok (), f w))) Q
  apply Spec.act
  intro w hw
  exact ⟨(h w hw).1, fun _ _ => (h w hw).2⟩

theorem Spec.bind [IsPreorder ω R] {Q' : β → ω → Prop} {m : Program ω ε α}
    {f : α → Program ω ε β} (hm : Spec R P m Q) (hf : ∀ a, Spec R (Q a) (f a) Q') :
    Spec R P (m >>= f) Q' := by
  intro w hw
  obtain ⟨hfirst, hok⟩ := hm w hw
  cases hrun : start m w with
  | mk r w₁ =>
    rw [hrun] at hfirst
    cases r with
    | ok a =>
      obtain ⟨hsecond, hok'⟩ := hf a w₁ (hok a w₁ hrun)
      rw [start_bind_ok hrun]
      exact ⟨trans_of R hfirst hsecond, hok'⟩
    | error e =>
      rw [start_bind_error hrun]
      refine ⟨hfirst, ?_⟩
      intro b w' h
      exact absurd (Prod.mk.inj h).1 (by simp)

theorem Spec.weaken {P' : ω → Prop} {Q' : α → ω → Prop} {m : Program ω ε α} (h : Spec R P m Q)
    (hP : ∀ w, P' w → P w) (hQ : ∀ a w, Q a w → Q' a w) : Spec R P' m Q' := by
  intro w hw
  obtain ⟨hR, hok⟩ := h w (hP w hw)
  exact ⟨hR, fun a w' hrun => hQ a w' (hok a w' hrun)⟩

/-- A condition that does not speak of the world. -/
theorem Spec.of_imp {c : Prop} {m : Program ω ε α} (h : c → Spec R P m Q) :
    Spec R (fun w => c ∧ P w) m Q := fun w hw => h hw.1 w hw.2

/-- What is shown for every value of something in the world before. -/
theorem Spec.ghost {γ : Type} {f : ω → γ} {Q : γ → α → ω → Prop} {m : Program ω ε α}
    (h : ∀ x, Spec R (fun w => P w ∧ f w = x) m (Q x)) : Spec R P m (fun a w => ∃ x, Q x a w) := by
  intro w hw
  obtain ⟨hR, hok⟩ := h (f w) w ⟨hw, rfl⟩
  exact ⟨hR, fun a w' hrun => ⟨f w, hok a w' hrun⟩⟩

/-- What no step undoes is still true afterwards. -/
theorem Spec.frame {F : ω → Prop} {m : Program ω ε α} (h : Spec R P m Q) (hF : Stable R F) :
    Spec R (fun w => P w ∧ F w) m (fun a w => Q a w ∧ F w) := by
  intro w hw
  obtain ⟨hR, hok⟩ := h w hw.1
  refine ⟨hR, ?_⟩
  intro a w' hrun
  rw [hrun] at hR
  exact ⟨hok a w' hrun, hF _ _ hR hw.2⟩

/-- A stable condition that is all a program needs is kept by it. -/
theorem Spec.keep {F : ω → Prop} {m : Program ω ε α} (h : Spec R P m Q) (hF : Stable R F)
    (hP : ∀ w, F w → P w) : Spec R F m (fun _ => F) :=
  (h.frame hF).weaken (fun w hw => ⟨hP w hw, hw⟩) (fun _ _ hw => hw.2)

/-- The two branches of a test. -/
theorem Spec.ite {c : Prop} [Decidable c] {m m' : Program ω ε α}
    (h : c → Spec R P m Q) (h' : ¬ c → Spec R P m' Q) : Spec R P (if c then m else m') Q := by
  split
  · rename_i hc
    exact h hc
  · rename_i hc
    exact h' hc

/-- Each turn of a loop has brought about what it brings about. -/
theorem Spec.mapM [IsPreorder ω R] {f : α → Program ω ε β} {G : α → β → ω → Prop} {l : List α}
    (hP : Stable R P) (hG : ∀ a b, Stable R (G a b)) (h : ∀ a ∈ l, Spec R P (f a) (G a)) :
    Spec R P (l.mapM f) (fun bs w => P w ∧ List.Forall₂ (fun a b => G a b w) l bs) := by
  induction l with
  | nil =>
    rw [List.mapM_nil]
    exact .pure (fun w hw => ⟨hw, .nil⟩)
  | cons a l ih =>
    rw [List.mapM_cons]
    have hone := (h a List.mem_cons_self).frame hP
    apply Spec.bind (hone.weaken (fun w hw => ⟨hw, hw⟩) (fun b w hw => hw))
    intro b
    have hall := (ih (fun a' ha' => h a' (List.mem_cons_of_mem _ ha'))).frame (hG a b)
    apply Spec.bind (hall.weaken (fun w hw => ⟨hw.2, hw.1⟩) (fun bs w hw => hw))
    intro bs
    exact .pure (fun w hw => ⟨hw.1.1, .cons hw.2 hw.1.2⟩)

theorem Spec.forM [IsPreorder ω R] {f : α → Program ω ε PUnit} {G : α → ω → Prop} {l : List α}
    (hP : Stable R P) (hG : ∀ a, Stable R (G a)) (h : ∀ a ∈ l, Spec R P (f a) (fun _ => G a)) :
    Spec R P (l.forM f) (fun _ w => P w ∧ ∀ a ∈ l, G a w) := by
  induction l with
  | nil => exact .pure (fun w hw => ⟨hw, by simp⟩)
  | cons a l ih =>
    rw [forM_cons]
    have hone := (h a List.mem_cons_self).frame hP
    apply Spec.bind (hone.weaken (fun w hw => ⟨hw, hw⟩) (fun b w hw => hw))
    intro _
    have hall := (ih (fun a' ha' => h a' (List.mem_cons_of_mem _ ha'))).frame (hG a)
    apply hall.weaken
    · exact fun w hw => ⟨hw.2, hw.1⟩
    · rintro _ w ⟨⟨hw, hrest⟩, hfirst⟩
      refine ⟨hw, ?_⟩
      intro a' ha'
      rcases List.mem_cons.mp ha' with rfl | ha'
      · exact hfirst
      · exact hrest a' ha'

end

/-! ### It returns -/

/-- From every world with `P` a program returns. -/
def Returns (P : ω → Prop) (m : Program ω ε α) : Prop :=
  ∀ w, P w → ∃ a w', start m w = (.ok a, w')

section
variable {R : ω → ω → Prop} {P : ω → Prop} {Q : α → ω → Prop}

theorem Returns.pure {a : α} : Returns P (pure a : Program ω ε α) := fun w _ => ⟨a, w, rfl⟩

theorem Returns.modify {f : ω → ω} : Returns P (modify f : Program ω ε Unit) :=
  fun w _ => ⟨(), f w, rfl⟩

/-- The rest returns from what the first part leaves. -/
theorem Returns.bind {m : Program ω ε α} {f : α → Program ω ε β} (h : Returns P m)
    (hm : Spec R P m Q) (hf : ∀ a, Returns (Q a) (f a)) : Returns P (m >>= f) := by
  intro w hw
  obtain ⟨a, w₁, hone⟩ := h w hw
  obtain ⟨b, w₂, hrest⟩ := hf a w₁ ((hm w hw).2 a w₁ hone)
  exact ⟨b, w₂, (start_bind_ok hone).trans hrest⟩

theorem Returns.weaken {P' : ω → Prop} {m : Program ω ε α} (h : Returns P m)
    (hP : ∀ w, P' w → P w) : Returns P' m := fun w hw => h w (hP w hw)

/-- A condition that does not speak of the world. -/
theorem Returns.of_imp {c : Prop} {m : Program ω ε α} (h : c → Returns P m) :
    Returns (fun w => c ∧ P w) m := fun w hw => h hw.1 w hw.2

/-- A loop returns where every turn does and keeps what the turns need. -/
theorem Returns.mapM {f : α → Program ω ε β} {l : List α}
    (hspec : ∀ a ∈ l, Spec R P (f a) (fun _ => P)) (h : ∀ a ∈ l, Returns P (f a)) :
    Returns P (l.mapM f) := by
  induction l with
  | nil =>
    rw [List.mapM_nil]
    exact .pure
  | cons a l ih =>
    rw [List.mapM_cons]
    apply Returns.bind (h a List.mem_cons_self) (hspec a List.mem_cons_self)
    intro b w hw
    obtain ⟨bs, w', hrest⟩ := ih (fun a' ha' => hspec a' (List.mem_cons_of_mem _ ha'))
      (fun a' ha' => h a' (List.mem_cons_of_mem _ ha')) w hw
    exact ⟨b :: bs, w', by rw [start_bind_ok hrest, start_pure]⟩

theorem Returns.forM {f : α → Program ω ε PUnit} {l : List α}
    (hspec : ∀ a ∈ l, Spec R P (f a) (fun _ => P)) (h : ∀ a ∈ l, Returns P (f a)) :
    Returns P (l.forM f) := by
  induction l with
  | nil => exact .pure
  | cons a l ih =>
    rw [forM_cons]
    apply Returns.bind (h a List.mem_cons_self) (hspec a List.mem_cons_self)
    intro _
    exact ih (fun a' ha' => hspec a' (List.mem_cons_of_mem _ ha'))
      (fun a' ha' => h a' (List.mem_cons_of_mem _ ha'))

end

end Program
