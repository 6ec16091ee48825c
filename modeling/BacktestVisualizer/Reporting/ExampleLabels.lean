import BacktestVisualizer.Accounts.StarterReports
import BacktestVisualizer.Reporting.ReportRoundTrip

/-! # What an Example Is

  The lists of `repositories/reports.py` ask the database which reports are
  examples, by the texts of three fields; a report that is opened is asked in
  Python, by their values. The two differ on one kind of document: the text
  `"true"` where the flag `true` is meant.
-/

namespace SavedReports

open RunControls

/-! ### JSON in SQL -/

/-- No letter comes first. -/
def StartsPlain (s : String) : Prop := ∀ c ∈ s.toList.head?, c.isAlpha = false

/-- The text that the database has for a number, an array or an object. -/
structure JsonText where
  text : Value → String
  int : ∀ n, StartsPlain (text (.int n))
  float : ∀ x : PyFloat, x.is_finite = true → StartsPlain (text (.float x))
  list : ∀ items, StartsPlain (text (.list items))
  dict : ∀ pairs, StartsPlain (text (.dict pairs))

/-- `v -> key`; `none` is NULL. -/
def arrow (v : Option Value) (key : String) : Option Value :=
  match v with
  | some (.dict pairs) => item pairs key
  | _ => none

/-- `a OR b` of truth values that may be NULL. -/
def sql_or : Option Bool → Option Bool → Option Bool
  | some true, _ => some true
  | some false, b => b
  | none, some true => some true
  | none, _ => none

/-- `a = text`. -/
def sql_eq (a : Option String) (text : String) : Option Bool := a.map (fun s => s = text)

section

variable (t : JsonText)

/-- The text of a value, NULL for `null`; `v ->> key` is that of `v -> key`. -/
def astext : Option Value → Option String
  | none => none
  | some .null => none
  | some (.bool b) => some (if b then "true" else "false")
  | some (.str s) => some s
  | some v => some (t.text v)

/-- `_example_predicate()`, on the document of a row. -/
def example_predicate (results : Pairs) : Bool :=
  let metadata := item results "reportMetadata"
  (sql_or (sql_eq (astext t (arrow metadata "purpose")) "example")
    (sql_or (sql_eq (astext t (arrow (arrow metadata "starterExample") "generated")) "true")
      (sql_eq (astext t (arrow (arrow metadata "marketData") "source"))
        "bundled_starter_example"))).getD false

/-- `_visible_owner_predicates(owner_id, examples=examples)`. -/
def visible_owner_predicates (owner_id : UUID) (examples : Bool) (report : BacktestReport) : Bool :=
  if examples then report.owner_id = owner_id && example_predicate t report.results.pairs
  else report.owner_id = owner_id && !example_predicate t report.results.pairs &&
    (astext t (arrow (item report.results.pairs "reportMetadata") "purpose")).getD "user" = "user"

/-- The fields of the document that a list shows. -/
def list_fields : List String :=
  ["strategyName", "symbol", "timeframe", "startDate", "endDate", "initialCapital", "finalEquity",
    "totalReturn", "sharpe", "maxDrawdown"]

variable (lax : Lax) (repr : Value → String)

/-- The name that `list_reports` shows. -/
def list_name (report : BacktestReport) : String :=
  if example_predicate t report.results.pairs then
    example_name (format repr ((item report.results.pairs "strategyName").getD .null))
  else report.name

/-- One row of `list_reports`. -/
def list_item (report : BacktestReport) : Except ReadError BacktestSummary :=
  read_summary lax (update
    (list_fields.map (fun name => (name, (item report.results.pairs name).getD .null)))
    [("id", .str (String.ofList report.id.text)), ("name", .str (list_name t repr report)),
      ("strategyId", .str report.strategy_key),
      ("createdAt", .str (String.ofList report.created_at.isoformat)),
      ("status", .str "completed")])

/-! ### Texts and values -/

variable {t}

/-- A letter comes first. -/
def IsWord (s : String) : Prop := ∃ c ∈ s.toList.head?, c.isAlpha = true

theorem StartsPlain.ne {s w : String} (h : StartsPlain s) (hw : IsWord w) : s ≠ w := by
  rintro rfl
  obtain ⟨c, hhead, hc⟩ := hw
  rw [h c hhead] at hc
  exact absurd hc (by simp)

theorem getD_sql_or (a b : Option Bool) :
    (sql_or a b).getD false = (a.getD false || b.getD false) := by
  rcases a with _ | _ | _
  · rcases b with _ | _ | _
    · rfl
    · rfl
    · rfl
  · rfl
  · rfl

/-- The text of a value is a word only if the value is: a string, or a truth
    value. -/
theorem sql_eq_astext {v : Option Value} (hv : ∀ x ∈ v, compliant x = true) {w : String}
    (hw : IsWord w) (hfalse : w ≠ "false") :
    (sql_eq (astext t v) w).getD false = (is_str w v || (w = "true" && is_true v)) := by
  have hplain : ∀ {s : String}, StartsPlain s → decide (s = w) = false := fun h =>
    decide_eq_false (h.ne hw)
  rcases v with _ | x
  · simp [astext, sql_eq, is_str, is_true]
  · cases x with
    | null => simp [astext, sql_eq, is_str, is_true]
    | bool b =>
      cases b with
      | false => simp [astext, sql_eq, is_str, is_true, hfalse.symm]
      | true => simp [astext, sql_eq, is_str, is_true, eq_comm]
    | int n => simpa [astext, sql_eq, is_str, is_true] using (t.int n).ne hw
    | float x => simpa [astext, sql_eq, is_str, is_true] using (t.float x (hv _ rfl)).ne hw
    | str s => simp [astext, sql_eq, is_str, is_true, eq_comm]
    | list items => simpa [astext, sql_eq, is_str, is_true] using (t.list items).ne hw
    | dict pairs => simpa [astext, sql_eq, is_str, is_true] using (t.dict pairs).ne hw

theorem compliant_arrow {v : Option Value} (hv : ∀ x ∈ v, compliant x = true) (key : String) :
    ∀ x ∈ arrow v key, compliant x = true := by
  intro x hx
  unfold arrow at hx
  split at hx
  · exact compliant_item (hv _ rfl) hx
  · exact absurd hx (by simp)

/-- A condition that NULL does not meet, of a field of an object. -/
theorem dict_has_eq {p : Option Value → Bool} (hp : p none = false) (key : String)
    (v : Option Value) : dict_has key p v = p (arrow v key) := by
  cases v with
  | none => exact hp.symm
  | some x =>
    cases x with
    | dict pairs => rfl
    | _ => exact hp.symm

/-! ### The two decisions -/

/-- The flag of an example, as a text. -/
def text_generated (metadata : Pairs) : Bool :=
  dict_has "generated" (is_str "true") (item metadata "starterExample")

/-- The metadata says that it is an example, apart from the flag. -/
def other_sign (metadata : Pairs) : Bool :=
  is_str "example" (item metadata "purpose") ||
    dict_has "source" (is_str "bundled_starter_example") (item metadata "marketData")

theorem is_example_metadata_eq (metadata : Pairs) :
    is_example_metadata metadata =
      (dict_has "generated" is_true (item metadata "starterExample") || other_sign metadata) := by
  unfold is_example_metadata other_sign
  cases is_str "example" (item metadata "purpose") with
  | false => simp
  | true => simp

/-- The database takes the text `"true"` for the flag. -/
theorem example_predicate_eq {results metadata : Pairs} (hresults : compliant_pairs results = true)
    (h : item results "reportMetadata" = some (.dict metadata)) :
    example_predicate t results = (is_example_metadata metadata || text_generated metadata) := by
  have hmetadata : ∀ x ∈ some (Value.dict metadata), compliant x = true := by
    intro x hx
    exact compliant_item hresults (h.trans hx)
  have hpurpose := sql_eq_astext (t := t) (compliant_arrow hmetadata "purpose")
    (w := "example") ⟨'e', rfl, rfl⟩ (by decide)
  have hgenerated := sql_eq_astext (t := t)
    (compliant_arrow (compliant_arrow hmetadata "starterExample") "generated")
    (w := "true") ⟨'t', rfl, rfl⟩ (by decide)
  have hsource := sql_eq_astext (t := t)
    (compliant_arrow (compliant_arrow hmetadata "marketData") "source")
    (w := "bundled_starter_example") ⟨'b', rfl, rfl⟩ (by decide)
  unfold example_predicate
  simp only [h, getD_sql_or, hpurpose, hgenerated, hsource]
  rw [is_example_metadata_eq]
  unfold other_sign text_generated
  rw [dict_has_eq rfl, dict_has_eq rfl, dict_has_eq rfl]
  show _ = (is_true (arrow (arrow (some (.dict metadata)) "starterExample") "generated") ||
    (is_str "example" (arrow (some (.dict metadata)) "purpose") ||
      is_str "bundled_starter_example"
        (arrow (arrow (some (.dict metadata)) "marketData") "source")) ||
    is_str "true" (arrow (arrow (some (.dict metadata)) "starterExample") "generated"))
  simp
  generalize is_true _ = a
  generalize is_str "example" _ = b
  generalize is_str "bundled_starter_example" _ = c
  generalize is_str "true" _ = d
  revert a b c d
  decide

/-- A text is no flag. -/
theorem is_true_of_is_str {v : Option Value} {w : String} (h : is_str w v = true) :
    is_true v = false := by
  rcases v with _ | x
  · rfl
  · cases x with
    | bool b => exact absurd h (by simp [is_str])
    | _ => rfl

/-- The two decisions agree unless the flag is a text and nothing else speaks
    for an example. -/
theorem decisions_agree_iff {results metadata : Pairs} (hresults : compliant_pairs results = true)
    (h : item results "reportMetadata" = some (.dict metadata)) :
    example_predicate t results = is_example_metadata metadata ↔
      text_generated metadata = false ∨ other_sign metadata = true := by
  rw [example_predicate_eq hresults h, is_example_metadata_eq]
  cases htext : text_generated metadata with
  | false => simp
  | true =>
    have hflag : dict_has "generated" is_true (item metadata "starterExample") = false := by
      unfold text_generated at htext
      rw [dict_has_eq rfl] at htext ⊢
      exact is_true_of_is_str htext
    rw [hflag]
    cases other_sign metadata with
    | false => simp
    | true => simp

/-! ### Names -/

variable {lax : Lax} {repr : Value → String}

theorem read_summary_name {pairs : Pairs} {s : BacktestSummary}
    (h : read_summary lax pairs = .ok s) : required read_str pairs "name" "name" = .ok s.name := by
  unfold read_summary at h
  obtain ⟨_, _, h⟩ := Fallible.bind_ok h
  obtain ⟨name, hname, h⟩ := Fallible.bind_ok h
  iterate 13 obtain ⟨_, _, h⟩ := Fallible.bind_ok h
  rw [hname, ← Except.ok.inj h]

theorem read_detail_summary {pairs : Pairs} {d : BacktestDetail}
    (h : read_detail lax pairs = .ok d) : read_summary lax pairs = .ok d.toBacktestSummary := by
  unfold read_detail at h
  obtain ⟨summary, hsummary, h⟩ := Fallible.bind_ok h
  iterate 8 obtain ⟨_, _, h⟩ := Fallible.bind_ok h
  rw [hsummary, ← Except.ok.inj h]

/-- A list shows the name it made. -/
theorem name_of_list_item {report : BacktestReport} {s : BacktestSummary}
    (h : list_item t lax repr report = .ok s) : s.name = list_name t repr report := by
  have hname := read_summary_name h
  rw [required_of (v := .str (list_name t repr report)) "name"
    (by simp [update, item_set_item])] at hname
  exact (Except.ok.inj hname).symm

/-- A report that is opened shows the name it made. -/
theorem name_of_to_detail {report : BacktestReport} {metadata : Pairs} {d : BacktestDetail}
    (h : item report.results.pairs "reportMetadata" = some (.dict metadata))
    (hd : to_detail lax repr report = .ok d) : detail_name repr report metadata = .ok d.name := by
  have hmetadata : metadata_of report.results.pairs = .ok metadata := by
    unfold metadata_of
    rw [h]
    cases metadata with
    | nil => rfl
    | cons pair pairs => rfl
  unfold to_detail at hd
  by_cases hversion : report.version ≠ report_version
  · rw [if_pos hversion] at hd
    exact absurd hd (by simp [bind, Except.bind])
  rw [if_neg hversion, hmetadata] at hd
  obtain ⟨name, hname, hread⟩ := Fallible.bind_ok (f := fun name => read_detail lax _) hd
  have hshown := read_summary_name (read_detail_summary hread)
  rw [required_of (v := .str name) "name" (by simp [update, item_set_item])] at hshown
  rw [hname, Except.ok.inj hshown]

/-- Both name an example in the same way. -/
theorem detail_name_eq {report : BacktestReport} {metadata : Pairs}
    (hsame : example_predicate t report.results.pairs = is_example_metadata metadata) {name : String}
    (hname : detail_name repr report metadata = .ok name) : list_name t repr report = name := by
  unfold detail_name at hname
  unfold list_name
  rw [hsame]
  by_cases hexample : is_example_metadata metadata = true
  · rw [if_pos hexample] at hname ⊢
    cases hstrategy : item report.results.pairs "strategyName" with
    | none =>
      rw [hstrategy] at hname
      exact absurd hname (by simp)
    | some v =>
      rw [hstrategy] at hname
      exact Except.ok.inj hname
  · rw [if_neg hexample] at hname ⊢
    exact Except.ok.inj hname

/-! ### What onboarding reads -/

/-- The three texts that the queries read. -/
def texts_of (t : JsonText) (results : Pairs) : Onboarding.Metadata where
  purpose := astext t (arrow (item results "reportMetadata") "purpose")
  generated := astext t (arrow (arrow (item results "reportMetadata") "starterExample") "generated")
  source := astext t (arrow (arrow (item results "reportMetadata") "marketData") "source")

theorem getD_sql_eq (a : Option String) (w : String) :
    (sql_eq a w).getD false = decide (a = some w) := by
  cases a with
  | none => simp [sql_eq]
  | some s => simp [sql_eq]

theorem is_example_texts (id : Onboarding.ReportId) (results : Pairs) :
    Onboarding.Report.is_example ⟨id, texts_of t results⟩ = example_predicate t results := by
  unfold example_predicate Onboarding.Report.is_example
  rw [Bool.eq_iff_iff]
  simp only [getD_sql_or, getD_sql_eq, texts_of, decide_eq_true_eq, Bool.or_eq_true]
  exact decide_eq_true_iff

/-- The reports that keep onboarding from adding examples are those of either
    list. -/
theorem visible_texts (id : Onboarding.ReportId) (report : BacktestReport) :
    Onboarding.Report.visible ⟨id, texts_of t report.results.pairs⟩ =
      (visible_owner_predicates t report.owner_id true report ||
        visible_owner_predicates t report.owner_id false report) := by
  unfold Onboarding.Report.visible visible_owner_predicates
  rw [Bool.decide_or, is_example_texts]
  cases example_predicate t report.results.pairs with
  | false =>
    simp only [texts_of, decide_true, Bool.or_false, Bool.and_false, Bool.false_or, Bool.not_false,
      Bool.true_and, if_true, Bool.false_eq_true, if_false, decide_false]
    congr
  | true => simp

/-! ### Where the two agree -/

variable (t lax repr)

/-- Lists and details treat a report alike. -/
structure Agree (report : BacktestReport) (metadata : Pairs) : Prop where
  decided : example_predicate t report.results.pairs = is_example_metadata metadata
  one_list : ∀ owner_id, ¬ (visible_owner_predicates t owner_id true report = true ∧
    visible_owner_predicates t owner_id false report = true)
  labelled : ∀ summary detail, list_item t lax repr report = .ok summary →
    to_detail lax repr report = .ok detail → summary.name = detail.name

/-- No report is in both lists. -/
theorem in_one_list (owner_id : UUID) (report : BacktestReport) :
    ¬ (visible_owner_predicates t owner_id true report = true ∧
      visible_owner_predicates t owner_id false report = true) := by
  rintro ⟨hexamples, hreal⟩
  simp only [visible_owner_predicates, if_true, Bool.and_eq_true, Bool.false_eq_true,
    if_false] at hexamples hreal
  rw [hexamples.2] at hreal
  exact absurd hreal.1.2 (by simp)

/-- Database and program agree on a report exactly if its flag is no text, or
    something else makes it an example. -/
theorem examples_agree_iff (report : BacktestReport) {metadata : Pairs}
    (h : item report.results.pairs "reportMetadata" = some (.dict metadata)) :
    Agree t lax repr report metadata ↔
      text_generated metadata = false ∨ other_sign metadata = true := by
  rw [← decisions_agree_iff (t := t) report.results.compliant h]
  constructor
  · intro hagree
    exact hagree.decided
  · intro hsame
    refine ⟨hsame, fun owner_id => in_one_list t owner_id report, ?_⟩
    intro summary detail hsummary hdetail
    rw [name_of_list_item hsummary]
    exact detail_name_eq hsame (name_of_to_detail h hdetail)

end

/-- Texts for documents without numbers. -/
def plain_text : JsonText where
  text
    | .list _ => "[]"
    | .dict _ => "\x7b\x7d"
    | _ => "0"
  int := fun _ => by simp [StartsPlain]
  float := fun _ _ => by simp [StartsPlain]
  list := fun _ => by simp [StartsPlain]
  dict := fun _ => by simp [StartsPlain]

/-- The row of a report with one observation. -/
def one_day_row (metadata : Pairs) (h : compliant_pairs metadata = true) : BacktestReport where
  id := ⟨0x201⟩
  owner_id := ⟨0x201⟩
  created_at := ⟨⟨2026, 3, 5, 0, 0, 0, 0, some 0⟩, by decide⟩
  strategy_key := "portfolio_1"
  name := "My actual run"
  version := report_version
  results := ⟨(one_day_report metadata).dump, compliant_dump (one_day_report_saveable h).finite,
    by rfl⟩

theorem user_report_agrees :
    Agree plain_text ⟨fun _ => none, fun _ => none⟩ (fun _ => "")
      (one_day_row [("purpose", .str "user")] rfl) [("purpose", .str "user")] :=
  (examples_agree_iff _ _ _ _ (by rfl)).mpr (Or.inl (by rfl))

/-- Listed among the examples, opened as a real report. -/
theorem text_flag_divides :
    ¬ Agree plain_text ⟨fun _ => none, fun _ => none⟩ (fun _ => "")
      (one_day_row [("starterExample", .dict [("generated", .str "true")])] rfl)
      [("starterExample", .dict [("generated", .str "true")])] := by
  intro hagree
  exact absurd hagree.decided (by decide)

end SavedReports
