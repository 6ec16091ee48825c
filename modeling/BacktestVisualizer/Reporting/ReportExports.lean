import BacktestVisualizer.Framework.Csv
import BacktestVisualizer.Framework.Text
import BacktestVisualizer.Reporting.ReportRoundTrip

/-! # Report Exports

  `services/report_exports.py` writes a report as JSON or as one of three CSV
  tables. Texts that a spreadsheet would run as a formula get an apostrophe
  in front; numbers stay numbers. An example says so in every row.

  `str_of` is `str()` of a value that is no text, and `dumps` the indented
  JSON text.
-/

open RunControls SavedReports Csv

namespace ReportExports

variable (str_of : Value → String) (dumps : Pairs → String)

/-! ### Cells -/

/-- A spreadsheet may take such a text for a formula. -/
def starts_formula (text : List Char) : Bool :=
  text.head?.any (fun c => c = '\t' || c = '\r' || c = '\n') ||
    (text.dropWhile Text.is_space).head?.any (fun c => c = '=' || c = '+' || c = '-' || c = '@')

/-- `_spreadsheet_safe`. -/
def spreadsheet_safe : Value → Value
  | .str s => if starts_formula s.toList then .str ("'" ++ s) else .str s
  | v => v

/-- What `csv.writer` writes for a value. -/
def cell_text : Value → Field
  | .str s => s.toList
  | .null => []
  | v => (str_of v).toList

/-- `rowdict.get(column, restval)`. -/
def cell (row : Pairs) (column : String) : Value := (item row column).getD (.str "")

/-! ### Tables -/

structure Table where
  columns : List String
  rows : List Pairs

/-- The columns and rows of `_csv`: an example is labelled in every row. -/
def labelled (d : BacktestDetail) (t : Table) : Table :=
  if is_str "example" (item d.report_metadata "purpose") then
    { columns := "reportType" :: "reportName" :: t.columns
      rows := t.rows.map (fun row =>
        update row [("reportType", .str "simulated_example"), ("reportName", .str d.name)]) }
  else t

/-- The header and the rows that `DictWriter` writes. -/
def csv_records (t : Table) : List Record :=
  t.columns.map String.toList ::
    t.rows.map (fun row =>
      t.columns.map (fun column =>
        cell_text str_of (cell (row.map (fun pair => (pair.1, spreadsheet_safe pair.2))) column)))

/-- `_csv`. -/
def csv (d : BacktestDetail) (t : Table) : String :=
  String.ofList (write_rows (csv_records str_of (labelled d t)))

/-- The entries of a dumped model. -/
def entries : Value → Pairs
  | .dict pairs => pairs
  | _ => []

def equity_columns : List String := ["date", "equity", "benchmark"]

def equity_table (d : BacktestDetail) : Table where
  columns := equity_columns
  rows := d.equity_curve.map (fun p => entries p.dump)

def trades_columns : List String :=
  ["id", "symbol", "side", "entryDate", "exitDate", "entryPrice", "exitPrice", "quantity", "pnl",
    "returnPct", "fees"]

def trades_table (d : BacktestDetail) : Table where
  columns := trades_columns
  rows := d.trades.map (fun t => entries t.dump)

/-- `data["metrics"].get("unavailable", {})`. -/
def unavailable (d : BacktestDetail) : Pairs :=
  entries ((item (entries d.metrics.dump) "unavailable").getD (.dict []))

/-- The rows of the metrics; one that is unavailable has its reason for a value. -/
def metric_rows (d : BacktestDetail) : List Pairs :=
  ((entries d.metrics.dump).filter (fun pair => pair.1 ≠ "unavailable")).map (fun pair =>
    [("metric", .str pair.1),
      ("value", if (item (unavailable d) pair.1).isSome then .null else pair.2),
      ("unavailableReason", (item (unavailable d) pair.1).getD (.str ""))])

/-- A row that is never unavailable. -/
def capital_row (key : String) (value : PyFloat) : Pairs :=
  [("metric", .str key), ("value", .float value), ("unavailableReason", .str "")]

def metrics_columns : List String := ["metric", "value", "unavailableReason"]

def metrics_table (d : BacktestDetail) : Table where
  columns := metrics_columns
  rows := metric_rows d ++
    [capital_row "initialCapital" d.initial_capital, capital_row "finalEquity" d.final_equity]

/-! ### `export_report` -/

def EXPORT_NAMES : List String := ["equity.csv", "trades.csv", "metrics.csv", "report.json"]

inductive ExportError where
  | unknown
  | not_compliant
  deriving DecidableEq, Repr

/-- `str(exc)`. -/
def ExportError.message : ExportError → String
  | .unknown => "Unknown report export."
  | .not_compliant => "Out of range float values are not JSON compliant"

structure ReportExport where
  content : String
  media_type : String
  deriving DecidableEq, Repr

/-- The text of a status. -/
def status_text : BacktestStatus → String
  | .queued => "queued"
  | .running => "running"
  | .completed => "completed"
  | .failed => "failed"

/-- `detail.model_dump(mode="json", by_alias=True)`: the dump with the fields
    that a stored document leaves out, each in its place. -/
def model_dump (d : BacktestDetail) : Pairs :=
  d.dump.take 6 ++ [("status", .str (status_text d.status))] ++ (d.dump.drop 6).take 12 ++
    [("progressPct", dump_optional .int d.progress_pct),
      ("errorMessage", dump_optional .str d.error_message)] ++ d.dump.drop 18

/-- The table of a CSV export: of the metrics, if it is none of the others. -/
def csv_table (d : BacktestDetail) (filename : String) : Table :=
  if filename = "equity.csv" then equity_table d
  else if filename = "trades.csv" then trades_table d
  else metrics_table d

def export_report (d : BacktestDetail) (filename : String) : Except ExportError ReportExport :=
  if filename ∉ EXPORT_NAMES then .error .unknown
  else if filename = "report.json" then
    if compliant_pairs (model_dump d) then .ok ⟨dumps (model_dump d) ++ "\n", "application/json"⟩
    else .error .not_compliant
  else .ok ⟨csv str_of d (csv_table d filename), "text/csv"⟩

/-! ### Safe cells -/

theorem quote_not_space : Text.is_space '\'' = false := by decide

/-- A guarded text starts no formula. -/
theorem starts_formula_guarded (s : String) :
    starts_formula (if starts_formula s.toList then "'" ++ s else s).toList = false := by
  by_cases h : starts_formula s.toList = true
  · rw [if_pos h]
    have hlist : ("'" ++ s).toList = '\'' :: s.toList := by simp
    rw [hlist]
    unfold starts_formula
    rw [List.dropWhile_cons_of_neg (by simp [quote_not_space])]
    simp
  · rw [if_neg h]
    simpa using h

def is_number : Value → Bool
  | .int _ => true
  | .float _ => true
  | _ => false

/-- What a table may hold. -/
def is_cell : Value → Bool
  | .null => true
  | .str _ => true
  | v => is_number v

theorem number_of_formula {v : Value} (hcell : is_cell v = true)
    (h : starts_formula (cell_text str_of (spreadsheet_safe v)) = true) :
    is_number v = true ∧ cell_text str_of (spreadsheet_safe v) = (str_of v).toList := by
  cases v with
  | null => simp [spreadsheet_safe, cell_text, starts_formula] at h
  | int n => exact ⟨rfl, rfl⟩
  | float x => exact ⟨rfl, rfl⟩
  | str s =>
    have htext : cell_text str_of (spreadsheet_safe (.str s)) =
        (if starts_formula s.toList then "'" ++ s else s).toList := by
      show cell_text str_of (if starts_formula s.toList then .str ("'" ++ s) else .str s) = _
      split
      · rfl
      · rfl
    rw [htext, starts_formula_guarded] at h
    exact absurd h (by simp)
  | bool b => exact absurd hcell (by simp [is_cell, is_number])
  | list items => exact absurd hcell (by simp [is_cell, is_number])
  | dict pairs => exact absurd hcell (by simp [is_cell, is_number])

theorem item_map (g : Value → Value) (row : Pairs) (key : String) :
    item (row.map (fun pair => (pair.1, g pair.2))) key = (item row key).map g := by
  induction row with
  | nil => rfl
  | cons pair row ih =>
    rw [List.map_cons]
    show item ((pair.1, g pair.2) :: _) key = (item ((pair.1, pair.2) :: row) key).map g
    rw [item_cons, item_cons]
    split
    · rfl
    · exact ih

/-- A cell as it is written. -/
theorem cell_safe (row : Pairs) (column : String) :
    cell (row.map (fun pair => (pair.1, spreadsheet_safe pair.2))) column =
      spreadsheet_safe (cell row column) := by
  unfold cell
  rw [item_map]
  cases item row column with
  | none => rfl
  | some v => rfl

/-! ### What the tables hold -/

/-- A table of cells, whose header starts no formula. -/
structure Table.Plain (t : Table) : Prop where
  columns : t.columns ≠ []
  header : ∀ column ∈ t.columns, starts_formula column.toList = false
  rows : ∀ row ∈ t.rows, ∀ pair ∈ row, is_cell pair.2 = true

theorem is_cell_optional {α : Type} {dump : α → Value} (h : ∀ a, is_cell (dump a) = true)
    (x : Option α) : is_cell (dump_optional dump x) = true := by
  cases x with
  | none => rfl
  | some a => exact h a

theorem is_cell_of_number {v : Value} (h : is_number v = true) : is_cell v = true := by
  cases v with
  | int n => rfl
  | float x => rfl
  | null => rfl
  | str s => rfl
  | bool b => exact absurd h (by simp [is_number])
  | list items => exact absurd h (by simp [is_number])
  | dict pairs => exact absurd h (by simp [is_number])

/-- A missing cell is an empty text. -/
theorem is_cell_cell {row : Pairs} (h : ∀ pair ∈ row, is_cell pair.2 = true) (column : String) :
    is_cell (cell row column) = true := by
  unfold cell item
  cases hfind : row.find? (fun pair => pair.1 = column) with
  | none => rfl
  | some pair => exact h pair (List.mem_of_find?_eq_some hfind)

theorem mem_set_item {key : String} {value : Value} {pairs : Pairs} {pair : String × Value}
    (h : pair ∈ set_item key value pairs) : pair = (key, value) ∨ pair ∈ pairs := by
  induction pairs with
  | nil => exact .inl (List.mem_singleton.mp h)
  | cons first pairs ih =>
    obtain ⟨k, v⟩ := first
    unfold set_item at h
    split at h
    · rcases List.mem_cons.mp h with rfl | h
      · exact .inl rfl
      · exact .inr (List.mem_cons_of_mem _ h)
    · rcases List.mem_cons.mp h with rfl | h
      · exact .inr List.mem_cons_self
      · exact (ih h).imp_right (List.mem_cons_of_mem _)

theorem plain_equity_table (d : BacktestDetail) : (equity_table d).Plain where
  columns := by simp [equity_table, equity_columns]
  header := by
    show ∀ column ∈ equity_columns, starts_formula column.toList = false
    decide
  rows := by
    intro row hrow pair hpair
    obtain ⟨p, _, rfl⟩ := List.mem_map.mp hrow
    simp only [entries, EquityPoint.dump, List.mem_cons, List.not_mem_nil, or_false] at hpair
    rcases hpair with rfl | rfl | rfl
    · rfl
    · rfl
    · exact is_cell_optional (fun _ => rfl) p.benchmark

theorem plain_trades_table (d : BacktestDetail) : (trades_table d).Plain where
  columns := by simp [trades_table, trades_columns]
  header := by
    show ∀ column ∈ trades_columns, starts_formula column.toList = false
    decide
  rows := by
    intro row hrow pair hpair
    obtain ⟨t, _, rfl⟩ := List.mem_map.mp hrow
    have hside : is_cell t.side.dump = true := by
      cases t.side with
      | long => rfl
      | short => rfl
    simp only [entries, Trade.dump, List.mem_cons, List.not_mem_nil, or_false] at hpair
    rcases hpair with rfl | rfl | rfl | rfl | rfl | rfl | rfl | rfl | rfl | rfl | rfl
    all_goals first
      | rfl
      | exact hside
      | exact is_cell_optional (fun _ => rfl) _

/-- The metrics, but for the reasons. -/
theorem metric_pair {m : PerformanceMetrics} {pair : String × Value} (h : pair ∈ entries m.dump)
    (hkey : pair.1 ≠ "unavailable") : is_number pair.2 = true := by
  simp only [entries, PerformanceMetrics.dump, List.mem_cons, List.not_mem_nil, or_false] at h
  rcases h with rfl | rfl | rfl | rfl | rfl | rfl | rfl | rfl | rfl | rfl
  all_goals first
    | exact absurd rfl hkey
    | rfl

theorem unavailable_eq (d : BacktestDetail) :
    unavailable d = d.metrics.unavailable.map (fun pair => (pair.1, .str pair.2)) := by
  simp [unavailable, entries, PerformanceMetrics.dump, item]

theorem is_cell_reason (d : BacktestDetail) (key : String) :
    is_cell ((item (unavailable d) key).getD (.str "")) = true := by
  rw [unavailable_eq]
  apply is_cell_cell
  intro pair hpair
  obtain ⟨reason, _, rfl⟩ := List.mem_map.mp hpair
  rfl

theorem plain_metrics_table (d : BacktestDetail) : (metrics_table d).Plain where
  columns := by simp [metrics_table, metrics_columns]
  header := by
    show ∀ column ∈ metrics_columns, starts_formula column.toList = false
    decide
  rows := by
    intro row hrow pair hpair
    rcases List.mem_append.mp hrow with hmetric | hcapital
    · obtain ⟨metric, hmem, rfl⟩ := List.mem_map.mp hmetric
      obtain ⟨hmem, hkey⟩ := List.mem_filter.mp hmem
      have hnumber := metric_pair hmem (by simpa using hkey)
      simp only [List.mem_cons, List.not_mem_nil, or_false] at hpair
      rcases hpair with rfl | rfl | rfl
      · rfl
      · dsimp only
        split
        · rfl
        · exact is_cell_of_number hnumber
      · exact is_cell_reason d _
    · simp only [List.mem_cons, List.not_mem_nil, or_false] at hcapital
      rcases hcapital with rfl | rfl
      all_goals
        simp only [capital_row, List.mem_cons, List.not_mem_nil, or_false] at hpair
        rcases hpair with rfl | rfl | rfl
        · rfl
        · rfl
        · rfl

/-- The two columns of an example are texts. -/
theorem Table.Plain.labelled {t : Table} (h : t.Plain) (d : BacktestDetail) :
    (labelled d t).Plain := by
  unfold ReportExports.labelled
  split
  · refine ⟨by simp, ?_, ?_⟩
    · intro column hcolumn
      simp only [List.mem_cons] at hcolumn
      rcases hcolumn with rfl | rfl | hcolumn
      · decide
      · decide
      · exact h.header column hcolumn
    · intro row hrow pair hpair
      obtain ⟨row, hmem, rfl⟩ := List.mem_map.mp hrow
      rcases mem_set_item hpair with rfl | hpair
      · rfl
      · rcases mem_set_item hpair with rfl | hpair
        · rfl
        · exact h.rows row hmem pair hpair
  · exact h

theorem plain_csv_table (d : BacktestDetail) (filename : String) :
    (labelled d (csv_table d filename)).Plain := by
  apply Table.Plain.labelled
  unfold csv_table
  split
  · exact plain_equity_table d
  · split
    · exact plain_trades_table d
    · exact plain_metrics_table d

/-! ### Exports read back -/

section Exports

variable {str_of dumps}
variable {d : BacktestDetail} {filename : String} {e : ReportExport}

theorem mem_csv_records {t : Table} {record : Record} {f : Field} (h : record ∈ csv_records str_of t)
    (hf : f ∈ record) : (∃ column ∈ t.columns, f = column.toList) ∨
      ∃ row ∈ t.rows, ∃ column ∈ t.columns, f = cell_text str_of (spreadsheet_safe (cell row column)) := by
  rcases List.mem_cons.mp h with rfl | h
  · obtain ⟨column, hcolumn, rfl⟩ := List.mem_map.mp hf
    exact .inl ⟨column, hcolumn, rfl⟩
  · obtain ⟨row, hrow, rfl⟩ := List.mem_map.mp h
    obtain ⟨column, hcolumn, rfl⟩ := List.mem_map.mp hf
    exact .inr ⟨row, hrow, column, hcolumn, by rw [cell_safe]⟩

theorem read_csv_records {t : Table} (h : t.columns ≠ []) :
    read (write_rows (csv_records str_of t)) = some (csv_records str_of t) := by
  apply read_write_rows
  intro fields hfields
  rcases List.mem_cons.mp hfields with rfl | hfields
  · simpa using h
  · obtain ⟨row, _, rfl⟩ := List.mem_map.mp hfields
    simpa using h

theorem export_csv (h : export_report str_of dumps d filename = .ok e) (hcsv : filename ≠ "report.json") :
    e.content = csv str_of d (csv_table d filename) := by
  unfold export_report at h
  split at h
  · exact absurd h (by simp)
  · rw [← Except.ok.inj h]

/-- What a reader gets of a CSV export. -/
theorem read_export (h : export_report str_of dumps d filename = .ok e)
    (hcsv : filename ≠ "report.json") :
    read e.content.toList = some (csv_records str_of (labelled d (csv_table d filename))) := by
  rw [export_csv h hcsv]
  unfold csv
  rw [String.toList_ofList]
  exact read_csv_records (plain_csv_table d filename).columns

/-- **Exports read back**: a CSV export is read as the header and the rows of
    its table, every record as long as the header. -/
theorem export_reads_back (h : export_report str_of dumps d filename = .ok e)
    (hcsv : filename ≠ "report.json") :
    read e.content.toList = some (csv_records str_of (labelled d (csv_table d filename))) ∧
      ∀ record ∈ csv_records str_of (labelled d (csv_table d filename)),
        record.length = (labelled d (csv_table d filename)).columns.length := by
  refine ⟨read_export h hcsv, ?_⟩
  intro record hrecord
  rcases List.mem_cons.mp hrecord with rfl | hrecord
  · exact List.length_map _
  · obtain ⟨row, _, rfl⟩ := List.mem_map.mp hrecord
    exact List.length_map _

/-- **No text of an export starts a formula**: a cell that does, as it is read
    back, is a number of the table. -/
theorem only_numbers_start_formulas (h : export_report str_of dumps d filename = .ok e)
    (hcsv : filename ≠ "report.json") :
    ∃ records, read e.content.toList = some records ∧
      ∀ record ∈ records, ∀ f ∈ record, starts_formula f = true →
        ∃ row ∈ (labelled d (csv_table d filename)).rows,
          ∃ column ∈ (labelled d (csv_table d filename)).columns,
            is_number (cell row column) = true ∧ f = (str_of (cell row column)).toList := by
  have htable := plain_csv_table d filename
  refine ⟨_, read_export h hcsv, ?_⟩
  intro record hrecord f hf hformula
  rcases mem_csv_records hrecord hf with ⟨column, hcolumn, rfl⟩ | ⟨row, hrow, column, hcolumn, rfl⟩
  · rw [htable.header column hcolumn] at hformula
    exact absurd hformula (by simp)
  · obtain ⟨hnumber, htext⟩ := number_of_formula str_of
      (is_cell_cell (htable.rows row hrow) column) hformula
    exact ⟨row, hrow, column, hcolumn, hnumber, htext⟩

/-- A carriage return is quoted, and reads back. -/
example : read (write_rows [["A\rB".toList, ['1']]]) = some [["A\rB".toList, ['1']]] := by decide

/-! ### A sample -/

/-- An example whose name looks like a formula, with a trade of a symbol that
    begins with a carriage return. -/
def sample_detail : BacktestDetail :=
  { one_day_report [("purpose", .str "example")] with
    name := "=1+1, \"simulated\""
    trades := [⟨"1", "\rAAPL", .short, "2026-03-04", none, .fin 20, none, .fin 5, .fin (-100),
      .fin (-100), .fin 1⟩] }

theorem sample_reads_back :
    read (csv (fun _ => "-100.0") sample_detail (csv_table sample_detail "trades.csv")).toList =
        some (csv_records (fun _ => "-100.0")
          (labelled sample_detail (csv_table sample_detail "trades.csv"))) ∧
      ∀ record ∈ csv_records (fun _ => "-100.0")
          (labelled sample_detail (csv_table sample_detail "trades.csv")),
        record.length = (labelled sample_detail (csv_table sample_detail "trades.csv")).columns.length :=
  @export_reads_back (fun _ => "-100.0") (fun _ => "") sample_detail "trades.csv"
    ⟨csv (fun _ => "-100.0") sample_detail (csv_table sample_detail "trades.csv"), "text/csv"⟩
    rfl (by decide)

theorem sample_only_numbers :
    ∃ records, read (csv (fun _ => "-100.0") sample_detail
        (csv_table sample_detail "trades.csv")).toList = some records ∧
      ∀ record ∈ records, ∀ f ∈ record, starts_formula f = true →
        ∃ row ∈ (labelled sample_detail (csv_table sample_detail "trades.csv")).rows,
          ∃ column ∈ (labelled sample_detail (csv_table sample_detail "trades.csv")).columns,
            is_number (cell row column) = true ∧ f = "-100.0".toList :=
  @only_numbers_start_formulas (fun _ => "-100.0") (fun _ => "") sample_detail "trades.csv"
    ⟨csv (fun _ => "-100.0") sample_detail (csv_table sample_detail "trades.csv"), "text/csv"⟩
    rfl (by decide)

end Exports

end ReportExports
