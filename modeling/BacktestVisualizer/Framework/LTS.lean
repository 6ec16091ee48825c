import Mathlib.Data.List.Induction

/-! # Labelled Transition Systems: Finite Runs

  A small framework for systems whose state moves by labelled steps.
  A run is finite and carries the list of its labels, newest last, so a
  property of a run can speak about what happened before the state it
  reached.

  The proof rules are the usual ones: a property of the initial state
  that every step preserves holds of every reachable state
  (`System.invariant`), possibly together with the labels seen so far
  (`System.trace_invariant`), and a property that every step preserves
  stays true along a run (`System.Run.preserves`).
-/

namespace LTS

universe u v

/-- A labelled transition system. -/
structure System (State : Type u) (Label : Type v) where
  init : State → Prop
  step : State → Label → State → Prop

variable {State : Type u} {Label : Type v} {sys : System State Label}

/-! ### Runs -/

/-- `sys.Run s ls t`: the steps labelled `ls` lead from `s` to `t`. -/
inductive System.Run (sys : System State Label) : State → List Label → State → Prop where
  | refl (s : State) : sys.Run s [] s
  | snoc {s t u : State} {ls : List Label} {l : Label} :
      sys.Run s ls t → sys.step t l u → sys.Run s (ls ++ [l]) u

/-- `sys.Trace ls s`: the steps labelled `ls` lead from an initial state to `s`. -/
def System.Trace (sys : System State Label) (ls : List Label) (s : State) : Prop :=
  ∃ s₀, sys.init s₀ ∧ sys.Run s₀ ls s

theorem System.Run.single {s t : State} {l : Label} (h : sys.step s l t) :
    sys.Run s [l] t :=
  System.Run.snoc (System.Run.refl s) h

theorem System.Run.trans {s t u : State} {ls ms : List Label}
    (h₁ : sys.Run s ls t) (h₂ : sys.Run t ms u) : sys.Run s (ls ++ ms) u := by
  induction h₂ with
  | refl => simpa using h₁
  | snoc _ hstep ih =>
    rw [← List.append_assoc]
    exact System.Run.snoc ih hstep

theorem System.Run.cons {s t u : State} {l : Label} {ls : List Label}
    (h : sys.step s l t) (hrun : sys.Run t ls u) : sys.Run s (l :: ls) u :=
  (System.Run.single h).trans hrun

/-- A concrete run to a state with `P` is exhibited step by step, its states
    left to unification. -/
theorem System.Run.exists_cons {s t : State} {l : Label} {ls : List Label} {P : State → Prop}
    (h : sys.step s l t) (hrun : ∃ u, sys.Run t ls u ∧ P u) :
    ∃ u, sys.Run s (l :: ls) u ∧ P u := by
  obtain ⟨u, hrun, hu⟩ := hrun
  exact ⟨u, System.Run.cons h hrun, hu⟩

theorem System.Run.exists_refl {s : State} {P : State → Prop} (h : P s) :
    ∃ u, sys.Run s [] u ∧ P u :=
  ⟨s, System.Run.refl s, h⟩

/-- The last step of a run. -/
theorem System.Run.snoc_inv {s u : State} {ls : List Label} {l : Label}
    (h : sys.Run s (ls ++ [l]) u) : ∃ t, sys.Run s ls t ∧ sys.step t l u := by
  generalize hall : ls ++ [l] = all at h
  cases h with
  | refl => simp at hall
  | snoc hrun hstep =>
    obtain ⟨rfl, hlast⟩ := List.append_inj' hall rfl
    obtain rfl : l = _ := by simpa using hlast
    exact ⟨_, hrun, hstep⟩

theorem System.Run.nil_inv {s u : State} (h : sys.Run s [] u) : u = s := by
  generalize hall : ([] : List Label) = all at h
  cases h with
  | refl => rfl
  | snoc => simp at hall

/-- A run over `ls ++ ms` passes through a state reached over `ls`. -/
theorem System.Run.split {s u : State} {ls ms : List Label}
    (h : sys.Run s (ls ++ ms) u) : ∃ t, sys.Run s ls t ∧ sys.Run t ms u := by
  induction ms using List.reverseRecOn generalizing u with
  | nil => exact ⟨u, by simpa using h, System.Run.refl u⟩
  | append_singleton ms l ih =>
    rw [← List.append_assoc] at h
    obtain ⟨v, hrun, hstep⟩ := h.snoc_inv
    obtain ⟨t, h₁, h₂⟩ := ih hrun
    exact ⟨t, h₁, System.Run.snoc h₂ hstep⟩

/-- The first step of a run. -/
theorem System.Run.cons_inv {s u : State} {l : Label} {ls : List Label}
    (h : sys.Run s (l :: ls) u) : ∃ t, sys.step s l t ∧ sys.Run t ls u := by
  have happ : sys.Run s ([l] ++ ls) u := h
  obtain ⟨t, h₁, h₂⟩ := happ.split
  have hsnoc : sys.Run s ([] ++ [l]) t := h₁
  obtain ⟨s', hnil, hstep⟩ := hsnoc.snoc_inv
  obtain rfl := hnil.nil_inv
  exact ⟨t, hstep, h₂⟩

theorem System.Trace.split {u : State} {ls ms : List Label}
    (h : sys.Trace (ls ++ ms) u) : ∃ t, sys.Trace ls t ∧ sys.Run t ms u := by
  obtain ⟨s₀, hinit, hrun⟩ := h
  obtain ⟨t, h₁, h₂⟩ := hrun.split
  exact ⟨t, ⟨s₀, hinit, h₁⟩, h₂⟩

theorem System.Trace.trans {s t : State} {ls ms : List Label}
    (h₁ : sys.Trace ls s) (h₂ : sys.Run s ms t) : sys.Trace (ls ++ ms) t := by
  obtain ⟨s₀, hinit, hrun⟩ := h₁
  exact ⟨s₀, hinit, hrun.trans h₂⟩

/-! ### Proof rules -/

/-- A property that every step preserves stays true along a run. -/
theorem System.Run.preserves {P : State → Prop}
    (hstep : ∀ s l t, sys.step s l t → P s → P t)
    {s t : State} {ls : List Label} (hs : P s) (h : sys.Run s ls t) : P t := by
  induction h with
  | refl => exact hs
  | snoc _ hl ih => exact hstep _ _ _ hl ih

/-- A property of the labels seen since a state and the state they led to,
    true at the start and preserved by every step, holds of every run from it. -/
theorem System.Run.label_invariant {P : List Label → State → Prop}
    (hstep : ∀ ls s l t, P ls s → sys.step s l t → P (ls ++ [l]) t)
    {s t : State} {ls : List Label} (hs : P [] s) (h : sys.Run s ls t) : P ls t := by
  induction h with
  | refl => exact hs
  | snoc _ hl ih => exact hstep _ _ _ _ ih hl

/-- **Trace invariant rule**: a property of the labels seen so far and the
    state they led to, true initially and preserved by every step, holds of
    every trace. -/
theorem System.trace_invariant {P : List Label → State → Prop}
    (hinit : ∀ s, sys.init s → P [] s)
    (hstep : ∀ ls s l t, P ls s → sys.step s l t → P (ls ++ [l]) t)
    {ls : List Label} {s : State} (h : sys.Trace ls s) : P ls s := by
  obtain ⟨s₀, h₀, hrun⟩ := h
  exact System.Run.label_invariant hstep (hinit s₀ h₀) hrun

/-- **Invariant rule**: a property true initially and preserved by every
    step holds of every reachable state. -/
theorem System.invariant {P : State → Prop}
    (hinit : ∀ s, sys.init s → P s)
    (hstep : ∀ s l t, P s → sys.step s l t → P t)
    {ls : List Label} {s : State} (h : sys.Trace ls s) : P s :=
  System.trace_invariant (P := fun _ s => P s) hinit (fun _ s l t => hstep s l t) h

/-! ### Runs whose steps all meet a condition -/

/-- The system that takes only the steps of `sys` on which `ok` holds. -/
def System.restrict (sys : System State Label) (ok : State → Label → Prop) :
    System State Label where
  init := sys.init
  step := fun s l t => ok s l ∧ sys.step s l t

theorem System.Run.restrict {ok : State → Label → Prop} {s t : State} {ls : List Label}
    (h : sys.Run s ls t) (hok : ∀ l ∈ ls, ∀ s, ok s l) : (sys.restrict ok).Run s ls t := by
  induction h with
  | refl => exact System.Run.refl _
  | snoc _ hl ih =>
    refine System.Run.snoc (ih fun l hmem => hok l (by simp [hmem])) ⟨?_, hl⟩
    exact hok _ (by simp) _

end LTS
