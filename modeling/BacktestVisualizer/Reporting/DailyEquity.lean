import BacktestVisualizer.Framework.Fallible
import BacktestVisualizer.Reporting.Benchmark

/-! # The Daily Equity Report

  `_equity_curve` in `engine/run_single.py` aligns benchmark marks with the
  samples of a run, `_equity_rows` in `workers/run_job.py` keeps the last
  point of each exchange date, and both writers of a report compare its last
  row with the run's final equity. `daily_equity_report` says what the rows
  carry and that the comparison never fails.
-/

open Timeline DataFrame PyFloat

namespace Reporting

/-! ### `_equity_curve` -/

/-- A row of the performance frame. -/
structure PerfRow where
  timestamp : Option Moment
  portfolio_value : Option PyFloat
  deriving DecidableEq, Repr

/-- A row of the benchmark frame. -/
structure MarkRow where
  timestamp : Option Moment
  buy_and_hold_value : PyFloat
  deriving DecidableEq, Repr

/-- A performance row with a valid timestamp and finite equity. -/
structure Sample where
  timestamp : ℤ
  equity : ℚ
  deriving DecidableEq, Repr

/-- A benchmark mark with a valid timestamp. -/
structure Mark where
  timestamp : ℤ
  value : PyFloat
  deriving DecidableEq, Repr

/-- `EquityPoint`; the date is the number of the day. -/
structure EquityPoint where
  date : ℤ
  equity : ℚ
  benchmark : Option PyFloat
  deriving DecidableEq, Repr

inductive CurveError where
  | invalid_performance
  | merge_keys
  deriving DecidableEq, Repr

def CurveError.message : CurveError → String
  | .invalid_performance => "The engine produced invalid performance timestamps or equity."
  | .merge_keys => "Merge keys contain null values on right side"

def sample_of (zone : MarketZone) (row : PerfRow) : Except CurveError Sample :=
  match market_timestamp zone row.timestamp, to_numeric row.portfolio_value with
  | some timestamp, .fin equity => .ok ⟨timestamp, equity⟩
  | _, _ => .error .invalid_performance

def mark_of (zone : MarketZone) (row : MarkRow) : Except CurveError Mark :=
  match market_timestamp zone row.timestamp with
  | some timestamp => .ok ⟨timestamp, row.buy_and_hold_value⟩
  | none => .error .merge_keys

/-- The right side of the merge: sorted marks, the last of each timestamp. -/
def merge_marks (marks : List Mark) : List Mark :=
  keep_last Mark.timestamp (sort_values Mark.timestamp marks)

/-- `merge_asof(direction="backward")` of a sample. -/
def merge_asof (marks : List Mark) (s : Sample) : PyFloat :=
  match ((merge_marks marks).filter (fun m => m.timestamp ≤ s.timestamp)).getLast? with
  | none => .nan
  | some m => m.value

/-- The point of a sample; a benchmark that is NaN is none. -/
def point_of (zone : MarketZone) (marks : List Mark) (s : Sample) : EquityPoint where
  date := zone.date s.timestamp
  equity := s.equity
  benchmark := if merge_asof marks s = .nan then none else some (merge_asof marks s)

/-- The capital baseline before the first point. -/
def insert_baseline (initial_capital : Option ℚ) (points : List EquityPoint) :
    List EquityPoint :=
  match initial_capital, points with
  | some capital, first :: rest =>
      ⟨first.date, capital, first.benchmark.map (fun _ => .fin capital)⟩ :: first :: rest
  | _, points => points

/-- `_equity_curve`. -/
def equity_curve (zone : MarketZone) (perf_df : List PerfRow) (benchmark_df : Option (List MarkRow))
    (initial_capital : Option ℚ) : Except CurveError (List EquityPoint) := do
  if perf_df = [] then return []
  let samples ← perf_df.mapM (sample_of zone)
  let marks ← (benchmark_df.getD []).mapM (mark_of zone)
  return insert_baseline initial_capital
    ((sort_values Sample.timestamp samples).map (point_of zone marks))

/-- `final_equity` of a run. -/
def run_final_equity (curve : List EquityPoint) : Option ℚ :=
  curve.getLast?.map EquityPoint.equity

/-! ### `_equity_rows` -/

/-- `_MONEY_LIMIT`. -/
def money_limit : ℚ := 10 ^ 14

/-- `_decimal`. -/
def decimal (value : Option PyFloat) (limit : ℚ) : Option ℚ :=
  match value with
  | some (.fin q) => if limit ≤ |q| then none else some q
  | _ => none

/-- `_money`. -/
def money (value : Option PyFloat) : Option ℚ := decimal value money_limit

/-- What the writers of a report raise. -/
inductive ReportError where
  | not_storable (field : String) (original : Option PyFloat)
  | no_equity_curve
  | final_equity_mismatch
  deriving DecidableEq, Repr

/-- `_money_required`. -/
def money_required (value : Option PyFloat) (field : String) : Except ReportError ℚ :=
  match money value with
  | none => .error (.not_storable field value)
  | some q => .ok q

/-- `quantize(Decimal("0.000001"))`. -/
def quantize (q : ℚ) : ℚ := round_half_even (q * 10 ^ 6) / 10 ^ 6

/-- An equity row; the run's id, the same in all of them, is left out. -/
structure EquityRow where
  seq : ℕ
  date : ℤ
  equity : ℚ
  benchmark : Option ℚ
  deriving DecidableEq, Repr

/-- The points of `by_day`, by day. -/
def daily_points (curve : List EquityPoint) : List EquityPoint :=
  sort_values EquityPoint.date (keep_last EquityPoint.date curve)

def equity_row (point : EquityPoint) (seq : ℕ) : Except ReportError EquityRow := do
  let equity ← money_required (some (.fin point.equity)) "equity"
  return ⟨seq, point.date, quantize equity, money point.benchmark⟩

/-- `_equity_rows`. -/
def equity_rows (curve : List EquityPoint) : Except ReportError (List EquityRow) :=
  (daily_points curve).zipIdx.mapM (fun x => equity_row x.1 x.2)

/-- The final equity of `build_report` and `_persist_success`, after its
    comparison with what the engine returned. -/
def report_final_equity (rows : List EquityRow) (final_equity : Option ℚ) :
    Except ReportError ℚ :=
  match rows.getLast? with
  | none => .error .no_equity_curve
  | some last =>
      match final_equity with
      | none => .ok last.equity
      | some reported => do
          let reported ← money_required (some (.fin reported)) "final_equity"
          if 1 / 10 ^ 4 < |reported - last.equity| then throw .final_equity_mismatch
          return last.equity

/-! ### Rounding -/

/-- Six places are kept. -/
theorem quantize_close (q : ℚ) : |q - quantize q| ≤ 1 / 10 ^ 4 := by
  have hround := abs_le.mp (round_half_even_close (q * 10 ^ 6))
  unfold quantize
  rw [abs_le]
  constructor
  · linarith
  · linarith

/-! ### The specification -/

/-- The last sample of an exchange date; of samples at one timestamp the last
    row counts. -/
def last_sample (zone : MarketZone) (samples : List Sample) (date : ℤ) : Option Sample :=
  let day := samples.filter (fun s => zone.date s.timestamp = date)
  (day.map Sample.timestamp).max?.bind (last_at Sample.timestamp day)

/-- The last benchmark mark at or before a timestamp. -/
def last_mark (marks : List Mark) (t : ℤ) : Option Mark :=
  ((marks.map Mark.timestamp).filter (· ≤ t)).max?.bind (last_at Mark.timestamp marks)

theorem last_sample_spec {zone : MarketZone} {samples : List Sample} {date : ℤ} {s : Sample}
    (h : last_sample zone samples date = some s) :
    s ∈ samples ∧ zone.date s.timestamp = date := by
  obtain ⟨t, _, hrow⟩ := Option.bind_eq_some_iff.mp h
  have hmem := List.mem_filter.mp (last_at_spec hrow).1
  exact ⟨hmem.1, by simpa using hmem.2⟩

theorem exists_last_sample {zone : MarketZone} {samples : List Sample} {s : Sample}
    (h : s ∈ samples) : ∃ s', last_sample zone samples (zone.date s.timestamp) = some s' := by
  unfold last_sample
  simp only
  rw [← getLast?_sort_values]
  apply Option.ne_none_iff_exists'.mp
  intro hnone
  have hmem : s ∈ sort_values Sample.timestamp
      (samples.filter (fun s' => zone.date s'.timestamp = zone.date s.timestamp)) :=
    (mem_sort_values Sample.timestamp).mpr (List.mem_filter.mpr ⟨h, by simp⟩)
  rw [List.getLast?_eq_none_iff.mp hnone] at hmem
  exact absurd hmem (by simp)

/-! ### The curve -/

section Curve

variable {zone : MarketZone} {samples : List Sample} {marks : List Mark}

/-- The points of the sorted samples. -/
def sample_points (zone : MarketZone) (samples : List Sample) (marks : List Mark) :
    List EquityPoint :=
  (sort_values Sample.timestamp samples).map (point_of zone marks)

/-- The last point of a date is the one of its last sample. -/
theorem last_at_sample_points (date : ℤ) :
    last_at EquityPoint.date (sample_points zone samples marks) date =
      (last_sample zone samples date).map (point_of zone marks) := by
  unfold last_at sample_points last_sample
  simp only
  rw [List.filter_map, List.getLast?_map, ← getLast?_sort_values, ← filter_sort_values]
  rfl

/-- The baseline shares its date with the first point, which comes later. -/
theorem last_at_insert_baseline (initial_capital : Option ℚ) (points : List EquityPoint)
    (date : ℤ) :
    last_at EquityPoint.date (insert_baseline initial_capital points) date =
      last_at EquityPoint.date points date := by
  unfold insert_baseline
  split
  · rename_i capital first rest
    unfold last_at
    by_cases hdate : first.date = date
    · rw [List.filter_cons_of_pos (by simpa using hdate),
        List.filter_cons_of_pos (by simpa using hdate), List.getLast?_cons_cons]
    · rw [List.filter_cons_of_neg (by simpa using hdate)]
  · rfl

theorem getLast?_insert_baseline (initial_capital : Option ℚ) (points : List EquityPoint) :
    (insert_baseline initial_capital points).getLast? = points.getLast? := by
  unfold insert_baseline
  split
  · exact List.getLast?_cons_cons
  · rfl

theorem daily_points_insert_baseline (initial_capital : Option ℚ) (points : List EquityPoint) :
    daily_points (insert_baseline initial_capital points) = daily_points points :=
  (marks_sort_values _).unique (marks_sort_values _)
    (last_at_insert_baseline initial_capital points)

/-- The points that become rows. -/
theorem mem_daily_points {p : EquityPoint} :
    p ∈ daily_points (sample_points zone samples marks) ↔
      ∃ s, last_sample zone samples p.date = some s ∧ point_of zone marks s = p := by
  unfold daily_points
  rw [(marks_sort_values _).mem_iff, last_at_sample_points, Option.map_eq_some_iff]

/-- Dates follow the samples, so the last row is the point of the last
    sample. -/
theorem getLast?_daily_points :
    (daily_points (sample_points zone samples marks)).getLast? =
      (sample_points zone samples marks).getLast? := by
  have hmarks : Marks EquityPoint.date (sample_points zone samples marks)
      (daily_points (sample_points zone samples marks)) := marks_sort_values _
  have horder : Sorted EquityPoint.date (sample_points zone samples marks) := by
    unfold sample_points
    apply List.pairwise_map.mpr
    exact (sort_values_sorted Sample.timestamp samples).imp
      (fun h => zone.dates_in_order _ _ h)
  cases hlast : (sample_points zone samples marks).getLast? with
  | none =>
    have hnil := List.getLast?_eq_none_iff.mp hlast
    rw [hnil]
    rfl
  | some p =>
    obtain ⟨before, hbefore⟩ := List.getLast?_eq_some_iff.mp hlast
    have hrow : last_at EquityPoint.date (sample_points zone samples marks) p.date = some p := by
      unfold last_at
      rw [hbefore, List.filter_append, List.filter_cons_of_pos (by simp), List.filter_nil,
        List.getLast?_append]
      rfl
    have hp : p ∈ daily_points (sample_points zone samples marks) := hmarks.mem_iff.mpr hrow
    have hall : ((sample_points zone samples marks).filter (fun _ => true)).getLast? = some p := by
      rw [List.filter_true]
      exact hlast
    cases hz : (daily_points (sample_points zone samples marks)).getLast? with
    | none =>
      rw [List.getLast?_eq_none_iff.mp hz] at hp
      exact absurd hp (by simp)
    | some z =>
      have hz' := hmarks.mem_iff.mp (List.mem_of_getLast? hz)
      have hzall : ((daily_points (sample_points zone samples marks)).filter
          (fun _ => true)).getLast? = some z := by
        rw [List.filter_true]
        exact hz
      have hle : z.date ≤ p.date := key_le_newest horder hall (last_at_spec hz').1 rfl
      have hge : p.date ≤ z.date :=
        key_le_newest (hmarks.sorted.imp le_of_lt) hzall hp rfl
      rw [le_antisymm hle hge, hrow] at hz'
      exact hz'.symm

end Curve

/-! ### The rows -/

/-- The row of a storable point. -/
def row_of (x : EquityPoint × ℕ) : EquityRow :=
  ⟨x.2, x.1.date, quantize x.1.equity, money x.1.benchmark⟩

theorem money_of_lt {q : ℚ} (h : |q| < money_limit) : money (some (.fin q)) = some q :=
  if_neg (not_le.mpr h)

theorem money_of_ge {q : ℚ} (h : money_limit ≤ |q|) : money (some (.fin q)) = none := if_pos h

theorem money_required_of_lt {q : ℚ} (h : |q| < money_limit) (field : String) :
    money_required (some (.fin q)) field = .ok q := by
  unfold money_required
  rw [money_of_lt h]

theorem equity_row_of_lt {point : EquityPoint} (h : |point.equity| < money_limit) (seq : ℕ) :
    equity_row point seq = .ok (row_of (point, seq)) := by
  unfold equity_row
  rw [money_required_of_lt h]
  rfl

theorem lt_of_equity_row {point : EquityPoint} {seq : ℕ} {row : EquityRow}
    (h : equity_row point seq = .ok row) : |point.equity| < money_limit := by
  by_contra hlimit
  unfold equity_row money_required at h
  rw [money_of_ge (not_lt.mp hlimit)] at h
  exact absurd h (by simp [bind, Except.bind])

/-- The rows of a curve whose daily points are storable, and of no other. -/
theorem equity_rows_ok_iff {curve : List EquityPoint} {rows : List EquityRow} :
    equity_rows curve = .ok rows ↔
      (∀ p ∈ daily_points curve, |p.equity| < money_limit) ∧
        rows = (daily_points curve).zipIdx.map row_of := by
  have hok : (∀ p ∈ daily_points curve, |p.equity| < money_limit) →
      equity_rows curve = .ok ((daily_points curve).zipIdx.map row_of) := by
    intro hlimit
    apply Fallible.mapM_ok
    intro x hx
    exact equity_row_of_lt (hlimit x.1 (List.fst_mem_of_mem_zipIdx hx)) x.2
  constructor
  · intro h
    have hlimit : ∀ p ∈ daily_points curve, |p.equity| < money_limit := by
      intro p hp
      obtain ⟨i, hi⟩ := List.mem_iff_getElem?.mp hp
      obtain ⟨row, hrow⟩ :=
        Fallible.ok_of_mapM_ok h (p, i) (List.mem_zipIdx_iff_getElem?.mpr hi)
      exact lt_of_equity_row hrow
    exact ⟨hlimit, Except.ok.inj (h.symm.trans (hok hlimit))⟩
  · intro ⟨hlimit, hrows⟩
    rw [hrows]
    exact hok hlimit

variable {zone : MarketZone} {samples : List Sample} {marks : List Mark}

/-- The benchmark of a row: the last mark at or before its sample. -/
theorem money_benchmark (s : Sample) :
    money (point_of zone marks s).benchmark =
      (last_mark marks s.timestamp).bind (fun m => money (some m.value)) := by
  have hmark : ((merge_marks marks).filter (fun m => m.timestamp ≤ s.timestamp)).getLast? =
      last_mark marks s.timestamp := (marks_keep_last marks).last s.timestamp
  have hasof : merge_asof marks s = match last_mark marks s.timestamp with
      | none => .nan
      | some m => m.value := by
    unfold merge_asof
    rw [hmark]
  unfold point_of
  simp only
  rw [hasof]
  cases last_mark marks s.timestamp with
  | none => rfl
  | some m =>
    show money (if m.value = .nan then none else some m.value) = money (some m.value)
    by_cases hnan : m.value = .nan
    · rw [if_pos hnan, hnan]
      rfl
    · rw [if_neg hnan]

/-- What the rows of a curve carry. -/
structure DailyReport (zone : MarketZone) (samples : List Sample) (marks : List Mark)
    (rows : List EquityRow) : Prop where
  dates_increasing : (rows.map EquityRow.date).Pairwise (· < ·)
  contiguous : rows.map EquityRow.seq = List.range rows.length
  one_a_date : ∀ d, d ∈ rows.map EquityRow.date ↔ ∃ s ∈ samples, zone.date s.timestamp = d
  last_of_date : ∀ row ∈ rows, ∃ s, last_sample zone samples row.date = some s ∧
    row.equity = quantize s.equity ∧
    row.benchmark = (last_mark marks s.timestamp).bind (fun m => money (some m.value))

theorem daily_report_of_points :
    DailyReport zone samples marks
      ((daily_points (sample_points zone samples marks)).zipIdx.map row_of) := by
  have hmarks : Marks EquityPoint.date (sample_points zone samples marks)
      (daily_points (sample_points zone samples marks)) := marks_sort_values _
  have hdates : ((daily_points (sample_points zone samples marks)).zipIdx.map row_of).map
      EquityRow.date = (daily_points (sample_points zone samples marks)).map EquityPoint.date := by
    rw [List.map_map, ← List.zipIdx_map_fst 0 (daily_points _), List.map_map]
    simp only [List.zipIdx_map_fst]
    rfl
  constructor
  · rw [hdates]
    exact List.pairwise_map.mpr hmarks.sorted
  · rw [List.map_map, List.length_map, List.length_zipIdx, List.range_eq_range']
    exact List.zipIdx_map_snd 0 _
  · intro d
    rw [hdates, List.mem_map]
    constructor
    · intro ⟨p, hp, hd⟩
      obtain ⟨s, hs, _⟩ := mem_daily_points.mp hp
      rw [hd] at hs
      exact ⟨s, last_sample_spec hs⟩
    · intro ⟨s, hs, hd⟩
      obtain ⟨s', hs'⟩ : ∃ s', last_sample zone samples (zone.date s.timestamp) = some s' :=
        exists_last_sample hs
      rw [hd] at hs'
      have hdate : (point_of zone marks s').date = d := (last_sample_spec hs').2
      refine ⟨point_of zone marks s', mem_daily_points.mpr ⟨s', ?_, rfl⟩, hdate⟩
      rw [hdate]
      exact hs'
  · intro row hrow
    obtain ⟨x, hx, rfl⟩ := List.mem_map.mp hrow
    obtain ⟨s, hs, hpoint⟩ := mem_daily_points.mp (List.fst_mem_of_mem_zipIdx hx)
    refine ⟨s, hs, ?_, ?_⟩
    · show quantize x.1.equity = quantize s.equity
      rw [← hpoint]
      rfl
    · rw [← money_benchmark s, hpoint]
      rfl

theorem equity_curve_ok {perf_df : List PerfRow} {samples : List Sample} (hperf : perf_df ≠ [])
    (hsamples : perf_df.mapM (sample_of zone) = .ok samples)
    {benchmark_df : Option (List MarkRow)} {marks : List Mark}
    (hmarks : (benchmark_df.getD []).mapM (mark_of zone) = .ok marks)
    (initial_capital : Option ℚ) :
    equity_curve zone perf_df benchmark_df initial_capital =
      .ok (insert_baseline initial_capital (sample_points zone samples marks)) := by
  unfold equity_curve
  rw [if_neg hperf, hsamples, hmarks]
  rfl

/-- The last row is the point of the last sample. -/
theorem getLast?_rows {p : EquityPoint}
    (hp : (sample_points zone samples marks).getLast? = some p) :
    ∃ n, ((daily_points (sample_points zone samples marks)).zipIdx.map row_of).getLast? =
      some (row_of (p, n)) := by
  rw [List.getLast?_map, List.getLast?_zipIdx, getLast?_daily_points, hp]
  exact ⟨_, rfl⟩

/-- The comparison with the final equity is within the rounding. -/
theorem report_final_equity_ok {rows : List EquityRow} {p : EquityPoint} {n : ℕ}
    (hlast : rows.getLast? = some (row_of (p, n))) (hp : |p.equity| < money_limit) :
    report_final_equity rows (some p.equity) = .ok (quantize p.equity) := by
  have hclose : ¬ 1 / 10 ^ 4 < |p.equity - (row_of (p, n)).equity| := not_lt.mpr (quantize_close _)
  unfold report_final_equity
  rw [hlast]
  simp only [money_required_of_lt hp, bind, Except.bind]
  rw [if_neg hclose]
  rfl

/-- **The daily equity report.** For a finite performance frame that is not
    empty the curve exists, its capital baseline plays no part in the rows,
    and there are rows exactly when the last sample of each date can be
    stored. The rows then have increasing dates, one for each exchange date
    of a sample, and carry the last sample of the date and the last storable
    mark at or before it; the last one is the final equity of the run, and
    the report's comparison accepts it. -/
theorem daily_equity_report {perf_df : List PerfRow} {samples : List Sample}
    (hperf : perf_df ≠ []) (hsamples : perf_df.mapM (sample_of zone) = .ok samples)
    {benchmark_df : Option (List MarkRow)} {marks : List Mark}
    (hmarks : (benchmark_df.getD []).mapM (mark_of zone) = .ok marks)
    (initial_capital : Option ℚ) :
    ∃ curve bare, equity_curve zone perf_df benchmark_df initial_capital = .ok curve ∧
      equity_curve zone perf_df benchmark_df none = .ok bare ∧
      equity_rows curve = equity_rows bare ∧
      ((∃ rows, equity_rows curve = .ok rows) ↔
        ∀ d s, last_sample zone samples d = some s → |s.equity| < money_limit) ∧
      ∀ rows, equity_rows curve = .ok rows →
        DailyReport zone samples marks rows ∧
        ∃ final last, run_final_equity curve = some final ∧ rows.getLast? = some last ∧
          last.equity = quantize final ∧
          report_final_equity rows (run_final_equity curve) = .ok last.equity := by
  have hdaily := daily_points_insert_baseline initial_capital (sample_points zone samples marks)
  have hrows : equity_rows (insert_baseline initial_capital (sample_points zone samples marks)) =
      equity_rows (sample_points zone samples marks) := by
    unfold equity_rows
    rw [hdaily]
  refine ⟨_, sample_points zone samples marks, equity_curve_ok hperf hsamples hmarks _,
    equity_curve_ok hperf hsamples hmarks none, hrows, ?_, ?_⟩
  · rw [hrows]
    constructor
    · intro ⟨rows, h⟩ d s hs
      have hdate : (point_of zone marks s).date = d := (last_sample_spec hs).2
      apply (equity_rows_ok_iff.mp h).1 (point_of zone marks s)
      apply mem_daily_points.mpr
      rw [hdate]
      exact ⟨s, hs, rfl⟩
    · intro h
      refine ⟨_, equity_rows_ok_iff.mpr ⟨?_, rfl⟩⟩
      intro p hp
      obtain ⟨s, hs, rfl⟩ := mem_daily_points.mp hp
      exact h _ s hs
  · intro rows h
    rw [hrows] at h
    obtain ⟨hlimit, rfl⟩ := equity_rows_ok_iff.mp h
    refine ⟨daily_report_of_points, ?_⟩
    have hne : (sample_points zone samples marks).getLast? ≠ none := by
      intro hnone
      have hnil := List.map_eq_nil_iff.mp (List.getLast?_eq_none_iff.mp hnone)
      have hsort := sort_values_perm Sample.timestamp samples
      rw [hnil] at hsort
      have hlen := Fallible.length_of_mapM_ok hsamples
      rw [List.nil_perm.mp hsort] at hlen
      exact hperf (List.length_eq_zero_iff.mp hlen.symm)
    obtain ⟨p, hp⟩ := Option.ne_none_iff_exists'.mp hne
    obtain ⟨n, hlast⟩ := getLast?_rows hp
    have hfinal : run_final_equity
        (insert_baseline initial_capital (sample_points zone samples marks)) = some p.equity := by
      unfold run_final_equity
      rw [getLast?_insert_baseline, hp]
      rfl
    have hstored : |p.equity| < money_limit := by
      apply hlimit p
      apply List.mem_of_getLast?
      rw [getLast?_daily_points]
      exact hp
    refine ⟨p.equity, _, hfinal, hlast, rfl, ?_⟩
    rw [hfinal]
    exact report_final_equity_ok hlast hstored

/-- Two samples of one date, in the wrong order. -/
def two_samples : List PerfRow :=
  [⟨some ⟨20 * hour_us, some 0⟩, some (.fin 110)⟩, ⟨some ⟨15 * hour_us, some 0⟩, some (.fin 90)⟩]

def one_mark : List MarkRow := [⟨some ⟨18 * hour_us, some 0⟩, .fin 105⟩]

theorem daily_report_of_two_samples :
    ∃ curve rows,
      equity_curve eastern_standard two_samples (some one_mark) (some 100) = .ok curve ∧
      equity_rows curve = .ok rows ∧
      DailyReport eastern_standard [⟨20 * hour_us, 110⟩, ⟨15 * hour_us, 90⟩]
        [⟨18 * hour_us, .fin 105⟩] rows := by
  obtain ⟨curve, _, hcurve, _, _, hstored, hreport⟩ :=
    daily_equity_report (by decide : two_samples ≠ [])
      (rfl : two_samples.mapM (sample_of eastern_standard) =
        .ok [⟨20 * hour_us, 110⟩, ⟨15 * hour_us, 90⟩])
      (rfl : ((some one_mark).getD []).mapM (mark_of eastern_standard) =
        .ok [⟨18 * hour_us, .fin 105⟩]) (some 100)
  have hsmall : ∀ d s, last_sample eastern_standard [⟨20 * hour_us, 110⟩, ⟨15 * hour_us, 90⟩] d =
      some s → |s.equity| < money_limit := by
    intro d s hs
    have hmem := (last_sample_spec hs).1
    unfold money_limit
    rcases List.mem_cons.mp hmem with rfl | hmem
    · norm_num
    · rw [List.mem_singleton.mp hmem]
      norm_num
  obtain ⟨rows, hrows⟩ := hstored.mpr hsmall
  exact ⟨curve, rows, hcurve, hrows, (hreport rows hrows).1⟩

/-- A mark, or an equity, that the columns cannot hold. -/
theorem large_values_not_stored :
    (∃ curve rows,
      equity_curve eastern_standard [⟨some ⟨0, some 0⟩, some (.fin 100)⟩]
        (some [⟨some ⟨0, some 0⟩, .fin (10 ^ 14)⟩]) (some 100) = .ok curve ∧
      equity_rows curve = .ok rows ∧
      last_mark [⟨0, .fin (10 ^ 14)⟩] 0 = some ⟨0, .fin (10 ^ 14)⟩ ∧
      rows.map EquityRow.benchmark = [none]) ∧
    ∃ curve,
      equity_curve eastern_standard [⟨some ⟨0, some 0⟩, some (.fin (10 ^ 14))⟩] none none =
        .ok curve ∧
      equity_rows curve = .error (.not_storable "equity" (some (.fin (10 ^ 14)))) :=
  ⟨⟨[⟨-1, 100, some (.fin 100)⟩, ⟨-1, 100, some (.fin (10 ^ 14))⟩], [⟨0, -1, 100, none⟩],
    by decide +kernel, by decide +kernel, by decide +kernel, rfl⟩,
    [⟨-1, 10 ^ 14, none⟩], by decide +kernel, by decide +kernel⟩

end Reporting
