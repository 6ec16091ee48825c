import BacktestVisualizer.Data.FmpHistory
import BacktestVisualizer.Framework.Tiling

/-! # Request Windows

  `fmp_chunks` and `spacing_probe_windows` of `engine/data/intraday.py`, as
  the loops they are. The chunks of a download tile its window. The probes of
  the stored spacing begin and end with the window and are never more than
  sixty days apart.

  Days are integers. At the ends of the calendar, where the cursor of a loop
  leaves it, the code raises an `OverflowError`.
-/

open Tiling

namespace Requests

/-! ### `fmp_chunks` -/

/-- The loop, for windows of `span` days after their first. -/
def chunk_loop (span : ℕ) (stop chunk_start : ℤ) : List (ℤ × ℤ) :=
  if chunk_start ≤ stop then
    let chunk_end := min stop (chunk_start + span)
    (chunk_start, chunk_end) :: chunk_loop span stop (chunk_end + 1)
  else []
termination_by (stop + 1 - chunk_start).toNat

def fmp_chunks (start stop : ℤ) (interval : Fmp.FmpInterval) : List (ℤ × ℤ) :=
  chunk_loop (interval.chunk_days - 1) stop start

theorem chunk_loop_tiles (span : ℕ) (stop chunk_start : ℤ) :
    Tiles (span + 1) stop chunk_start (chunk_loop span stop chunk_start) := by
  induction chunk_start using chunk_loop.induct span stop with
  | case1 chunk_start hle chunk_end ih =>
    rw [chunk_loop, if_pos hle]
    apply Tiles.cut
    · exact le_min hle (by omega)
    · exact min_le_left _ _
    · have hend : min stop (chunk_start + span) ≤ chunk_start + span := min_le_right _ _
      omega
    · exact ih
  | case2 chunk_start hgt =>
    rw [chunk_loop, if_neg hgt]
    exact Tiles.done (by omega)

theorem fmp_chunks_tiles (start stop : ℤ) (interval : Fmp.FmpInterval) :
    Tiles interval.chunk_days stop start (fmp_chunks start stop interval) := by
  have htiles := chunk_loop_tiles (interval.chunk_days - 1) stop start
  have hpos := Fmp.chunk_days_pos interval
  rwa [show ((interval.chunk_days - 1 : ℕ) : ℤ) + 1 = interval.chunk_days by omega] at htiles

/-- The loop makes the windows that the downloads are told to take. -/
theorem chunk_loop_eq_slabs (span : ℕ) (stop chunk_start : ℤ) :
    chunk_loop span stop chunk_start = Intraday.slabs (span + 1) chunk_start stop := by
  have hdays : ((span + 1 : ℕ) : ℤ) = span + 1 := by push_cast; rfl
  have hpos : (0 : ℤ) < span + 1 := by omega
  induction chunk_start using chunk_loop.induct span stop with
  | case1 chunk_start hle chunk_end ih =>
    have hcount : (stop - chunk_start + (span + 1)) / (span + 1 : ℤ) =
        (stop - chunk_start) / (span + 1 : ℤ) + 1 := by
      rw [Int.add_ediv_of_dvd_right (dvd_refl _), Int.ediv_self (ne_of_gt hpos)]
    have hnonneg : 0 ≤ (stop - chunk_start) / (span + 1 : ℤ) :=
      Int.ediv_nonneg (by omega) (le_of_lt hpos)
    rw [chunk_loop, if_pos hle]
    show (chunk_start, chunk_end) :: chunk_loop span stop (chunk_end + 1) = _
    rw [ih]
    unfold Intraday.slabs
    rw [hdays, hcount]
    rw [show ((stop - chunk_start) / (span + 1 : ℤ) + 1).toNat =
      ((stop - chunk_start) / (span + 1 : ℤ)).toNat + 1 by omega]
    rw [List.range_succ_eq_map, List.map_cons, List.map_map]
    have hfirst : (chunk_start, chunk_end) = (chunk_start + (span + 1) * ((0 : ℕ) : ℤ),
        min stop (chunk_start + (span + 1) * ((0 : ℕ) : ℤ) + (span + 1 - 1))) := by
      simp [chunk_end]
    rw [← hfirst]
    congr 1
    by_cases hmore : chunk_start + span ≤ stop
    · have hend : chunk_end + 1 = chunk_start + (span + 1) := by
        show min stop (chunk_start + span) + 1 = _
        rw [min_eq_right hmore]
        ring
      rw [hend, show stop - (chunk_start + (span + 1)) + (span + 1) = stop - chunk_start by ring]
      apply List.map_congr_left
      intro i _
      simp only [Function.comp_apply]
      rw [show chunk_start + (span + 1) + (span + 1) * (i : ℤ) =
        chunk_start + (span + 1) * ((i + 1 : ℕ) : ℤ) by push_cast; ring]
    · -- the window reaches the end, and neither goes on
      have hend : chunk_end + 1 = stop + 1 := by
        show min stop (chunk_start + span) + 1 = _
        rw [min_eq_left (by omega)]
      have hnone : (stop - chunk_start) / (span + 1 : ℤ) = 0 :=
        Int.ediv_eq_zero_of_lt (by omega) (by omega)
      have hrest : (stop - (stop + 1) + (span + 1)) / (span + 1 : ℤ) = 0 :=
        Int.ediv_eq_zero_of_lt (by omega) (by omega)
      rw [hend, hrest, hnone]
      rfl
  | case2 chunk_start hgt =>
    have hnone : ((stop - chunk_start + (span + 1)) / (span + 1 : ℤ)).toNat = 0 := by
      have hlt : (stop - chunk_start + (span + 1)) / (span + 1 : ℤ) < 1 :=
        Int.ediv_lt_of_lt_mul hpos (by omega)
      omega
    rw [chunk_loop, if_neg hgt]
    unfold Intraday.slabs
    rw [hdays, hnone]
    rfl

theorem fmp_chunks_eq_slabs (start stop : ℤ) (interval : Fmp.FmpInterval) :
    fmp_chunks start stop interval = Intraday.slabs interval.chunk_days start stop := by
  have hpos := Fmp.chunk_days_pos interval
  unfold fmp_chunks
  rw [chunk_loop_eq_slabs, show interval.chunk_days - 1 + 1 = interval.chunk_days by omega]

/-! ### `spacing_probe_windows` -/

/-- The loop over the cursor. -/
def probe_loop (stop cursor : ℤ) : List (ℤ × ℤ) :=
  if cursor ≤ stop then (cursor, min stop (cursor + 4)) :: probe_loop stop (cursor + 60)
  else []
termination_by (stop + 1 - cursor).toNat

/-- `None` where the windows have no last one. -/
def spacing_probe_windows (start stop : ℤ) : Option (List (ℤ × ℤ)) :=
  let windows := probe_loop stop start
  let last_start := max start (stop - 4)
  windows.getLast?.map fun last =>
    if last_start ≤ last.2 then windows.dropLast ++ [(last.1, stop)]
    else windows ++ [(last_start, stop)]

theorem probe_loop_eq (stop cursor : ℤ) (h : cursor ≤ stop) :
    probe_loop stop cursor = (List.range (((stop - cursor) / 60).toNat + 1)).map
      (fun i : ℕ => (cursor + 60 * i, min stop (cursor + 60 * i + 4))) := by
  induction cursor using probe_loop.induct stop with
  | case1 cursor hle ih =>
    rw [probe_loop, if_pos hle, List.range_succ_eq_map, List.map_cons, List.map_map]
    congr 1
    · simp
    · by_cases hmore : cursor + 60 ≤ stop
      · rw [ih hmore, show ((stop - cursor) / 60).toNat =
          ((stop - (cursor + 60)) / 60).toNat + 1 by omega]
        apply List.map_congr_left
        intro i _
        simp only [Function.comp_apply]
        rw [show cursor + 60 + 60 * (i : ℤ) = cursor + 60 * ((i + 1 : ℕ) : ℤ) by push_cast; ring]
      · rw [probe_loop, if_neg hmore, show ((stop - cursor) / 60).toNat = 0 by omega]
        rfl
  | case2 cursor hgt => omega

/-- The probes of the loop are those the stored spacing is measured with. -/
theorem spacing_probe_windows_eq {start stop : ℤ} (h : start ≤ stop) :
    spacing_probe_windows start stop = some (Intraday.spacing_probe_windows start stop) := by
  have hloop := probe_loop_eq stop start h
  unfold spacing_probe_windows Intraday.spacing_probe_windows
  simp only [← hloop]
  cases hlast : (probe_loop stop start).getLast? with
  | none =>
    rw [probe_loop, if_pos h] at hlast
    exact absurd hlast (by simp)
  | some last => rfl

/-- What the loop leaves: the probes before the last one, and where that
    begins. -/
structure Probed (stop cursor : ℤ) (before : List (ℤ × ℤ)) (last : ℤ) : Prop where
  windows : probe_loop stop cursor = before ++ [(last, min stop (last + 4))]
  last_in : cursor ≤ last ∧ last ≤ stop ∧ stop < last + 60
  before_in : ∀ w ∈ before, cursor ≤ w.1 ∧ w.1 ≤ w.2 ∧ w.2 < last
  ordered : before.Pairwise (fun a b => a.2 < b.1)
  first : (before ++ [(last, stop)]).head?.map Prod.fst = some cursor
  near : ∀ d, cursor ≤ d → d < last → ∃ w ∈ before, w.1 ≤ d ∧ d - w.1 ≤ 60

theorem probed (stop cursor : ℤ) (h : cursor ≤ stop) :
    ∃ before last, Probed stop cursor before last := by
  induction cursor using probe_loop.induct stop with
  | case1 cursor hle ih =>
    have hloop : probe_loop stop cursor =
        (cursor, min stop (cursor + 4)) :: probe_loop stop (cursor + 60) := by
      rw [probe_loop, if_pos hle]
    by_cases hmore : cursor + 60 ≤ stop
    · obtain ⟨before, last, hrest⟩ := ih hmore
      obtain ⟨hlow, hhigh, hend⟩ := hrest.last_in
      have hfull : min stop (cursor + 4) = cursor + 4 := min_eq_right (by omega)
      refine ⟨(cursor, cursor + 4) :: before, last, ?_, ⟨by omega, hhigh, hend⟩, ?_, ?_, rfl, ?_⟩
      · rw [hloop, hrest.windows, hfull]
        rfl
      · intro w hw
        rcases List.mem_cons.mp hw with rfl | hw
        · show cursor ≤ cursor ∧ cursor ≤ cursor + 4 ∧ cursor + 4 < last
          omega
        · obtain ⟨hfirst, hrest'⟩ := hrest.before_in w hw
          exact ⟨by omega, hrest'⟩
      · refine List.pairwise_cons.mpr ⟨?_, hrest.ordered⟩
        intro w hw
        have hfirst := (hrest.before_in w hw).1
        show cursor + 4 < w.1
        omega
      · intro d hd hd'
        by_cases hnear : d < cursor + 60
        · refine ⟨_, List.mem_cons_self, hd, ?_⟩
          show d - cursor ≤ 60
          omega
        · obtain ⟨w, hw, hin⟩ := hrest.near d (by omega) hd'
          exact ⟨w, List.mem_cons_of_mem _ hw, hin⟩
    · have hdone : probe_loop stop (cursor + 60) = [] := by
        rw [probe_loop, if_neg hmore]
      refine ⟨[], cursor, ?_, ⟨le_refl _, hle, by omega⟩, ?_, List.Pairwise.nil, rfl, ?_⟩
      · rw [hloop, hdone]
        rfl
      · intro w hw
        exact absurd hw List.not_mem_nil
      · intro d hd hd'
        omega
  | case2 cursor hgt => omega

/-- What is asked of the probes of a window. -/
structure Samples (start stop : ℤ) (ws : List (ℤ × ℤ)) : Prop where
  ordered : ws.Pairwise (fun a b => a.2 < b.1)
  within : ∀ w ∈ ws, start ≤ w.1 ∧ w.1 ≤ w.2 ∧ w.2 ≤ stop
  first : ws.head?.map Prod.fst = some start
  last : ws.getLast?.map Prod.snd = some stop
  near : ∀ d, start ≤ d → d ≤ stop → ∃ w ∈ ws, w.1 ≤ d ∧ d - w.1 ≤ 60

/-- The probes before the last one, and a last one up to the end. -/
theorem samples_extended {start stop last : ℤ} {before : List (ℤ × ℤ)}
    (h : Probed stop start before last) : Samples start stop (before ++ [(last, stop)]) where
  ordered := by
    refine List.pairwise_append.mpr ⟨h.ordered, List.pairwise_singleton _ _, ?_⟩
    intro w hw v hv
    rw [List.mem_singleton.mp hv]
    exact (h.before_in w hw).2.2
  within := by
    obtain ⟨hlow, hhigh, _⟩ := h.last_in
    intro w hw
    rcases List.mem_append.mp hw with hw | hw
    · obtain ⟨hfirst, hle, hend⟩ := h.before_in w hw
      exact ⟨hfirst, hle, by omega⟩
    · rw [List.mem_singleton.mp hw]
      exact ⟨hlow, hhigh, le_refl _⟩
  first := h.first
  last := by
    rw [List.getLast?_concat]
    rfl
  near := by
    obtain ⟨_, hhigh, hend⟩ := h.last_in
    intro d hd hd'
    by_cases hlast : d < last
    · obtain ⟨w, hw, hin⟩ := h.near d hd hlast
      exact ⟨w, List.mem_append_left _ hw, hin⟩
    · refine ⟨_, List.mem_append_right _ (List.mem_singleton.mpr rfl), ?_⟩
      show last ≤ d ∧ d - last ≤ 60
      omega

/-- The last probe ends before the last days, which get one of their own. -/
theorem samples_appended {start stop last : ℤ} {before : List (ℤ × ℤ)}
    (h : Probed stop start before last) (hgap : last + 4 < stop - 4) :
    Samples start stop (before ++ [(last, last + 4)] ++ [(stop - 4, stop)]) where
  ordered := by
    refine List.pairwise_append.mpr ⟨?_, List.pairwise_singleton _ _, ?_⟩
    · refine List.pairwise_append.mpr ⟨h.ordered, List.pairwise_singleton _ _, ?_⟩
      intro w hw v hv
      rw [List.mem_singleton.mp hv]
      exact (h.before_in w hw).2.2
    · intro w hw v hv
      rw [List.mem_singleton.mp hv]
      show w.2 < stop - 4
      rcases List.mem_append.mp hw with hw | hw
      · have hend := (h.before_in w hw).2.2
        omega
      · rw [List.mem_singleton.mp hw]
        exact hgap
  within := by
    obtain ⟨hlow, hhigh, _⟩ := h.last_in
    intro w hw
    rcases List.mem_append.mp hw with hw | hw
    · rcases List.mem_append.mp hw with hw | hw
      · obtain ⟨hfirst, hle, hend⟩ := h.before_in w hw
        exact ⟨hfirst, hle, by omega⟩
      · rw [List.mem_singleton.mp hw]
        show start ≤ last ∧ last ≤ last + 4 ∧ last + 4 ≤ stop
        omega
    · rw [List.mem_singleton.mp hw]
      show start ≤ stop - 4 ∧ stop - 4 ≤ stop ∧ stop ≤ stop
      omega
  first := by
    have hfirst := h.first
    cases before with
    | nil => exact hfirst
    | cons w before => exact hfirst
  last := by
    rw [List.getLast?_concat]
    rfl
  near := by
    obtain ⟨_, _, hend⟩ := h.last_in
    intro d hd hd'
    by_cases hlast : d < last
    · obtain ⟨w, hw, hin⟩ := h.near d hd hlast
      exact ⟨w, List.mem_append_left _ (List.mem_append_left _ hw), hin⟩
    · refine ⟨(last, last + 4), ?_, ?_⟩
      · exact List.mem_append_left _ (List.mem_append_right _ (List.mem_singleton.mpr rfl))
      · show last ≤ d ∧ d - last ≤ 60
        omega

theorem spacing_probe_windows_samples {start stop : ℤ} (h : start ≤ stop) :
    ∃ ws, spacing_probe_windows start stop = some ws ∧ Samples start stop ws := by
  obtain ⟨before, last, hprobed⟩ := probed stop start h
  obtain ⟨hlow, hhigh, _⟩ := hprobed.last_in
  unfold spacing_probe_windows
  simp only [hprobed.windows, List.getLast?_concat, Option.map_some, List.dropLast_concat]
  by_cases hextend : max start (stop - 4) ≤ min stop (last + 4)
  · rw [if_pos hextend]
    exact ⟨_, rfl, samples_extended hprobed⟩
  · rw [if_neg hextend]
    -- the end is more than a probe away from the last one
    have hgap : last + 4 < stop - 4 := by omega
    rw [min_eq_right (by omega), max_eq_right (by omega)]
    exact ⟨_, rfl, samples_appended hprobed hgap⟩

/-! ### The windows of a range -/

/-- The windows of a download: no longer than a request may be, one behind
    the other, and together the range. -/
structure Cut (cap start stop : ℤ) (ws : List (ℤ × ℤ)) : Prop where
  first : ws.head?.map Prod.fst = some start
  last : ws.getLast?.map Prod.snd = some stop
  consecutive : ws.IsChain (fun a b => b.1 = a.2 + 1)
  disjoint : ws.Pairwise (fun a b => a.2 < b.1)
  capped : ∀ w ∈ ws, w.1 ≤ w.2 ∧ w.2 - w.1 + 1 ≤ cap
  union : ∀ d, (start ≤ d ∧ d ≤ stop) ↔ ∃ w ∈ ws, w.1 ≤ d ∧ d ≤ w.2

/-- **Request windows tile the range**, and the probes sample it from its
    start to its end. -/
theorem request_windows {start stop : ℤ} (h : start ≤ stop) :
    (∀ interval : Fmp.FmpInterval,
      Cut interval.chunk_days start stop (fmp_chunks start stop interval)) ∧
    ∃ ws, spacing_probe_windows start stop = some ws ∧ Samples start stop ws := by
  refine ⟨?_, spacing_probe_windows_samples h⟩
  intro interval
  have htiles := fmp_chunks_tiles start stop interval
  obtain ⟨first, last, hhead, hfirst, hlast, hstop⟩ := htiles.ends h
  constructor
  case first => rw [hhead, Option.map_some, hfirst]
  case last => rw [hlast, Option.map_some, hstop]
  case consecutive => exact htiles.consecutive
  case disjoint => exact htiles.disjoint
  case capped =>
    intro w hw
    obtain ⟨_, hle, _, hcap⟩ := htiles.bounds w hw
    exact ⟨hle, hcap⟩
  case union => exact htiles.cover

/-- A hundred days: four chunks of the quarter hours, the last one shorter, and
    a probe appended behind two. -/
theorem request_windows_hundred_days :
    (fmp_chunks 0 99 .min15 = [(0, 29), (30, 59), (60, 89), (90, 99)] ∧
      Cut 30 0 99 (fmp_chunks 0 99 .min15)) ∧
    spacing_probe_windows 0 99 = some [(0, 4), (60, 64), (95, 99)] ∧
    ∃ ws, spacing_probe_windows 0 99 = some ws ∧ Samples 0 99 ws := by
  obtain ⟨hchunks, hprobes⟩ := request_windows (by decide : (0 : ℤ) ≤ 99)
  refine ⟨⟨?_, hchunks .min15⟩, ?_, hprobes⟩
  · rw [fmp_chunks_eq_slabs]
    decide
  · unfold spacing_probe_windows
    rw [probe_loop_eq 99 0 (by decide)]
    decide

end Requests
