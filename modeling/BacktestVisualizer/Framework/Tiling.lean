import Mathlib.Data.List.Chain
import Mathlib.Tactic

/-! # Tilings

  Inclusive windows of days that follow each other without a gap, each no
  longer than a cap. A loop that cuts a range makes one window and goes on
  behind it, and `Tiles` follows the loop. What a reader wants to know of all
  windows together comes from it.
-/

namespace Tiling

/-- A window of days, with its first and its last. -/
abbrev Window := ℤ × ℤ

/-- `ws` cuts the days from `start` to `stop`, a window at a time. -/
inductive Tiles (cap : ℤ) (stop : ℤ) : ℤ → List Window → Prop where
  | done {start : ℤ} (h : stop < start) : Tiles cap stop start []
  | cut {start last : ℤ} {ws : List Window} (hfirst : start ≤ last) (hlast : last ≤ stop)
      (hcap : last - start + 1 ≤ cap) (hrest : Tiles cap stop (last + 1) ws) :
      Tiles cap stop start ((start, last) :: ws)

variable {cap start stop : ℤ} {ws : List Window}

theorem Tiles.bounds (h : Tiles cap stop start ws) :
    ∀ w ∈ ws, start ≤ w.1 ∧ w.1 ≤ w.2 ∧ w.2 ≤ stop ∧ w.2 - w.1 + 1 ≤ cap := by
  induction h with
  | done _ =>
    intro w hw
    exact absurd hw List.not_mem_nil
  | cut hfirst hlast hcap _ ih =>
    intro w hw
    rcases List.mem_cons.mp hw with rfl | hrest
    · exact ⟨le_refl _, hfirst, hlast, hcap⟩
    · obtain ⟨hlow, hrest⟩ := ih w hrest
      exact ⟨by omega, hrest⟩

/-- No day is in two windows, and they come in order. -/
theorem Tiles.disjoint (h : Tiles cap stop start ws) :
    ws.Pairwise (fun a b => a.2 < b.1) := by
  induction h with
  | done _ => exact List.Pairwise.nil
  | cut _ _ _ hrest ih =>
    refine List.pairwise_cons.mpr ⟨?_, ih⟩
    intro w hw
    have hlow := (hrest.bounds w hw).1
    show _ < w.1
    omega

/-- A day is in a window if and only if it is in the range. -/
theorem Tiles.cover (h : Tiles cap stop start ws) (d : ℤ) :
    (start ≤ d ∧ d ≤ stop) ↔ ∃ w ∈ ws, w.1 ≤ d ∧ d ≤ w.2 := by
  constructor
  · induction h with
    | done hout =>
      intro ⟨hlow, hhigh⟩
      omega
    | @cut start last ws _ _ _ _ ih =>
      intro ⟨hlow, hhigh⟩
      by_cases hd : d ≤ last
      · exact ⟨_, List.mem_cons_self, hlow, hd⟩
      · obtain ⟨w, hw, hin⟩ := ih ⟨by omega, hhigh⟩
        exact ⟨w, List.mem_cons_of_mem _ hw, hin⟩
  · intro ⟨w, hw, hlow, hhigh⟩
    obtain ⟨hstart, _, hstop, _⟩ := h.bounds w hw
    omega

/-- The windows of a tiling start where the range does. -/
theorem Tiles.head_start (h : Tiles cap stop start ws) : ∀ w ∈ ws.head?, w.1 = start := by
  cases h with
  | done _ => simp
  | cut _ _ _ _ => simp

/-- A window starts on the day after the one before it ends. -/
theorem Tiles.consecutive (h : Tiles cap stop start ws) :
    ws.IsChain (fun a b => b.1 = a.2 + 1) := by
  induction h with
  | done _ => exact List.IsChain.nil
  | cut _ _ _ hrest ih =>
    apply List.isChain_cons.mpr
    exact ⟨hrest.head_start, ih⟩

theorem Tiles.ends (h : Tiles cap stop start ws) (hrange : start ≤ stop) :
    ∃ first last, ws.head? = some first ∧ first.1 = start ∧
      ws.getLast? = some last ∧ last.2 = stop := by
  induction h with
  | done hout => omega
  | @cut start last ws hfirst hlast _ hrest ih =>
    by_cases hmore : last + 1 ≤ stop
    · obtain ⟨_, final, hhead, _, hfinal, hstop⟩ := ih hmore
      refine ⟨_, final, rfl, rfl, ?_, hstop⟩
      cases ws with
      | nil => exact absurd hhead (by simp)
      | cons w ws => rw [List.getLast?_cons_cons, hfinal]
    · cases hrest with
      | done _ => exact ⟨_, _, rfl, rfl, rfl, by show last = stop; omega⟩
      | cut hfirst' hlast' _ _ => omega

end Tiling
