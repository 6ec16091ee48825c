import BacktestVisualizer.Reporting.SavedReports

/-! # Saved Reports Read Back

  What a report is written with is what it is read with: every field is found
  under the alias it was dumped under, and the fields that were left out come
  from the columns. The disclosure of an example is made once; made again, it
  finds everything in its place.
-/

namespace SavedReports

open RunControls

/-! ### Dictionaries -/

@[simp] theorem item_nil (key : String) : item [] key = none := rfl

theorem item_cons (k : String) (v : Value) (pairs : Pairs) (key : String) :
    item ((k, v) :: pairs) key = if k = key then some v else item pairs key := by
  unfold item
  by_cases h : k = key
  · simp [h]
  · simp [h]

theorem item_set_item (key : String) (value : Value) (pairs : Pairs) (j : String) :
    item (set_item key value pairs) j = if key = j then some value else item pairs j := by
  induction pairs with
  | nil => rw [set_item, item_cons]
  | cons pair pairs ih =>
    obtain ⟨k, v⟩ := pair
    rw [set_item]
    by_cases hk : k = key
    · rw [if_pos hk, item_cons, item_cons, hk]
      by_cases hj : key = j
      · rw [if_pos hj, if_pos hj]
      · rw [if_neg hj, if_neg hj, if_neg hj]
    · rw [if_neg hk, item_cons, item_cons, ih]
      by_cases hj : key = j
      · rw [if_neg (fun h => hk (h.trans hj.symm)), if_pos hj, if_pos hj]
      · rw [if_neg hj, if_neg hj]

/-- Writing what is there already changes nothing, not even the order. -/
theorem set_item_self {key : String} {value : Value} {pairs : Pairs}
    (h : item pairs key = some value) : set_item key value pairs = pairs := by
  induction pairs with
  | nil => exact absurd h (by simp)
  | cons pair pairs ih =>
    obtain ⟨k, v⟩ := pair
    rw [item_cons] at h
    rw [set_item]
    by_cases hk : k = key
    · rw [if_pos hk] at h ⊢
      rw [Option.some.inj h, hk]
    · rw [if_neg hk] at h ⊢
      rw [ih h]

theorem compliant_item {pairs : Pairs} (hpairs : compliant_pairs pairs = true) {key : String}
    {v : Value} (h : item pairs key = some v) : compliant v = true := by
  induction pairs with
  | nil => exact absurd h (by simp)
  | cons pair pairs ih =>
    obtain ⟨k, w⟩ := pair
    rw [compliant_pairs, Bool.and_eq_true] at hpairs
    rw [item_cons] at h
    by_cases hk : k = key
    · rw [if_pos hk] at h
      rw [← Option.some.inj h]
      exact hpairs.1
    · rw [if_neg hk] at h
      exact ih hpairs.2 h

theorem compliant_set_item {key : String} {value : Value} {pairs : Pairs}
    (hvalue : compliant value = true) (hpairs : compliant_pairs pairs = true) :
    compliant_pairs (set_item key value pairs) = true := by
  induction pairs with
  | nil => simp [set_item, compliant_pairs, hvalue]
  | cons pair pairs ih =>
    obtain ⟨k, v⟩ := pair
    rw [compliant_pairs, Bool.and_eq_true] at hpairs
    rw [set_item]
    split
    · simp [compliant_pairs, hvalue, hpairs.2]
    · simp [compliant_pairs, hpairs.1, ih hpairs.2]

/-! ### Fields -/

theorem required_of {α : Type} {read : Value → Except ReadError α} {pairs : Pairs}
    {alias_ : String} (name : String) {v : Value} (h : item pairs alias_ = some v) :
    required read pairs alias_ name = read v := by
  unfold required field
  rw [h]
  rfl

/-- A field that may be `None` is read back if what it holds otherwise is. -/
theorem read_optional_dump {α : Type} (read : Value → Except ReadError α) (dump : α → Value)
    (h : ∀ a, read (dump a) = .ok a) (hnull : ∀ a, dump a ≠ .null) (x : Option α) :
    read_optional read (dump_optional dump x) = .ok x := by
  cases x with
  | none => rfl
  | some a =>
    have hread : read_optional read (dump a) = (read (dump a)).map some := by
      unfold read_optional
      split
      · rename_i heq
        exact absurd heq (hnull a)
      · rfl
    show read_optional read (dump a) = _
    rw [hread, h a]
    rfl

theorem read_list_dump {α : Type} (read : Value → Except ReadError α) (dump : α → Value)
    (h : ∀ a, read (dump a) = .ok a) (l : List α) : read_list read (.list (l.map dump)) = .ok l := by
  have hmap := Fallible.mapM_ok (f := read ∘ dump) (g := id) l (fun a _ => h a)
  show (l.map dump).mapM read = .ok l
  rw [List.mapM_map, hmap, List.map_id]

variable (lax : Lax)

theorem read_optional_float (x : Option PyFloat) :
    read_optional (read_float lax) (dump_optional .float x) = .ok x :=
  read_optional_dump (read_float lax) .float (fun _ => rfl) (by simp) x

theorem read_optional_str (x : Option String) :
    read_optional read_str (dump_optional .str x) = .ok x :=
  read_optional_dump read_str .str (fun _ => rfl) (by simp) x

/-- The values of fields, found in what was dumped. -/
theorem read_point_dump (p : EquityPoint) : read_point lax p.dump = .ok p := by
  simp [read_point, EquityPoint.dump, read_dict, required, defaulted, field, item_cons,
    read_optional_float, read_str, read_float, bind, Except.bind]

theorem read_side_dump (s : Side) : read_side s.dump = .ok s := by
  cases s with
  | long => rfl
  | short => rfl

theorem read_trade_dump (t : Trade) : read_trade lax t.dump = .ok t := by
  simp [read_trade, Trade.dump, read_dict, required, defaulted, field, item_cons,
    read_optional_float, read_optional_str, read_side_dump, read_str, read_float, bind, Except.bind]

theorem read_texts_dump (texts : List (String × String)) :
    read_texts (.dict (texts.map (fun pair => (pair.1, .str pair.2)))) = .ok texts := by
  show (texts.map (fun pair => (pair.1, Value.str pair.2))).mapM
    (fun pair => (read_str pair.2).map (fun s => (pair.1, s))) = .ok texts
  rw [List.mapM_map]
  have hmap := Fallible.mapM_ok
    (f := (fun pair => (read_str pair.2).map (fun s => (pair.1, s))) ∘
      fun pair : String × String => (pair.1, Value.str pair.2)) (g := id) texts (fun _ _ => rfl)
  rw [hmap, List.map_id]

theorem read_metrics_dump (m : PerformanceMetrics) : read_metrics lax m.dump = .ok m := by
  simp [read_metrics, PerformanceMetrics.dump, read_dict, required, defaulted, field, item_cons,
    read_texts_dump, read_float, read_int, bind, Except.bind]

theorem read_positions_dump (positions : List Pairs) :
    read_list read_dict (.list (positions.map .dict)) = .ok positions :=
  read_list_dump read_dict .dict (fun _ => rfl) positions

/-! ### What a row shows -/

/-- The fields that `to_detail` sets on the document, with the values they have
    for a detail. -/
def overrides (id name : String) (metadata : Pairs) (strategy_id created_at : String) : Pairs :=
  [("id", .str id), ("name", .str name), ("reportMetadata", .dict metadata),
    ("strategyId", .str strategy_id), ("createdAt", .str created_at),
    ("status", .str "completed"), ("progressPct", .int 100), ("errorMessage", .null)]

theorem read_detail_update (d : BacktestDetail) (id name : String) (metadata : Pairs)
    (strategy_id created_at : String) :
    read_detail lax (update d.dump (overrides id name metadata strategy_id created_at)) =
      .ok { d with
        id := id, name := name, strategy_id := strategy_id, status := .completed
        created_at := created_at, progress_pct := some 100, error_message := none
        report_metadata := metadata } := by
  simp [read_detail, read_summary, BacktestDetail.dump, overrides, update, required, defaulted,
    field, item_cons, item_set_item, read_metrics_dump, read_positions_dump,
    read_list_dump _ _ (read_point_dump lax), read_list_dump _ _ (read_trade_dump lax),
    read_str, read_float, read_int, read_status, read_dict, read_optional, bind, Except.bind,
    Except.map]

/-! ### Details that can be saved -/

def EquityPoint.Finite (p : EquityPoint) : Prop :=
  p.equity.is_finite ∧ ∀ x ∈ p.benchmark, x.is_finite

def Trade.Finite (t : Trade) : Prop :=
  t.entry_price.is_finite ∧ (∀ x ∈ t.exit_price, x.is_finite) ∧ t.quantity.is_finite ∧
    t.pnl.is_finite ∧ t.return_pct.is_finite ∧ t.fees.is_finite

def PerformanceMetrics.Finite (m : PerformanceMetrics) : Prop :=
  m.total_return.is_finite ∧ m.cagr.is_finite ∧ m.sharpe.is_finite ∧ m.sortino.is_finite ∧
    m.max_drawdown.is_finite ∧ m.volatility.is_finite ∧ m.win_rate.is_finite ∧
    m.profit_factor.is_finite

def BacktestSummary.Finite (s : BacktestSummary) : Prop :=
  s.initial_capital.is_finite ∧ s.final_equity.is_finite ∧ s.total_return.is_finite ∧
    s.sharpe.is_finite ∧ s.max_drawdown.is_finite

/-- No number of a detail is NaN or infinite. -/
structure BacktestDetail.Finite (d : BacktestDetail) : Prop where
  summary : d.toBacktestSummary.Finite
  metrics : d.metrics.Finite
  equity_curve : ∀ p ∈ d.equity_curve, p.Finite
  trades : ∀ t ∈ d.trades, t.Finite
  parameters : compliant_pairs d.parameters = true
  report_metadata : compliant_pairs d.report_metadata = true
  open_positions : ∀ pairs ∈ d.open_positions, compliant_pairs pairs = true

/-- `str` of a UUID. -/
def CanonicalId (id : String) : Prop := ∃ u : UUID, id = String.ofList u.text

/-- `isoformat` of a UTC datetime, with `Z` for its offset. -/
def CanonicalTime (created_at : String) : Prop :=
  ∃ t : DateTime, t.utcoffset = some 0 ∧ created_at = created_at_text t

/-- A completed, non-empty, finite detail, with an id and a `createdAt` as the
    app writes them. -/
structure Saveable (d : BacktestDetail) : Prop where
  completed : d.status = .completed
  observed : d.equity_curve ≠ []
  finite : d.Finite
  id : CanonicalId d.id
  created_at : CanonicalTime d.created_at

theorem compliant_items_map {α : Type} (dump : α → Value) {l : List α}
    (h : ∀ a ∈ l, compliant (dump a) = true) : compliant_items (l.map dump) = true := by
  induction l with
  | nil => rfl
  | cons a l ih =>
    rw [List.map_cons, compliant_items, h a List.mem_cons_self,
      ih (fun b hb => h b (List.mem_cons_of_mem a hb))]
    rfl

theorem compliant_optional {x : Option PyFloat} (h : ∀ y ∈ x, y.is_finite = true) :
    compliant (dump_optional .float x) = true := by
  cases x with
  | none => rfl
  | some y => exact h y rfl

theorem compliant_optional_str (x : Option String) :
    compliant (dump_optional .str x) = true := by
  cases x with
  | none => rfl
  | some y => rfl

theorem compliant_texts (texts : List (String × String)) :
    compliant_pairs (texts.map (fun pair => (pair.1, .str pair.2))) = true := by
  induction texts with
  | nil => rfl
  | cons text texts ih => exact ih

theorem compliant_point {p : EquityPoint} (h : p.Finite) : compliant p.dump = true := by
  simp [EquityPoint.dump, compliant, compliant_pairs, h.1, compliant_optional h.2]

theorem compliant_trade {t : Trade} (h : t.Finite) : compliant t.dump = true := by
  obtain ⟨hentry, hexit, hquantity, hpnl, hreturn, hfees⟩ := h
  have hside : compliant t.side.dump = true := by
    cases t.side with
    | long => rfl
    | short => rfl
  simp [Trade.dump, compliant, compliant_pairs, hentry, compliant_optional hexit, hquantity, hpnl,
    hreturn, hfees, hside, compliant_optional_str]

theorem compliant_metrics {m : PerformanceMetrics} (h : m.Finite) : compliant m.dump = true := by
  obtain ⟨hreturn, hcagr, hsharpe, hsortino, hdrawdown, hvolatility, hwins, hprofit⟩ := h
  simp [PerformanceMetrics.dump, compliant, compliant_pairs, hreturn, hcagr, hsharpe, hsortino,
    hdrawdown, hvolatility, hwins, hprofit, compliant_texts]

/-- A finite detail has a JSON text. -/
theorem compliant_dump {d : BacktestDetail} (h : d.Finite) : compliant_pairs d.dump = true := by
  obtain ⟨hcapital, hequity, hreturn, hsharpe, hdrawdown⟩ := h.summary
  have hpoints := compliant_items_map EquityPoint.dump
    (fun p hp => compliant_point (h.equity_curve p hp))
  have htrades := compliant_items_map Trade.dump (fun t ht => compliant_trade (h.trades t ht))
  have hopen := compliant_items_map Value.dict (fun pairs hp => h.open_positions pairs hp)
  simp [BacktestDetail.dump, compliant, compliant_pairs, hcapital, hequity, hreturn, hsharpe,
    hdrawdown, compliant_metrics h.metrics, hpoints, htrades, hopen, h.parameters,
    h.report_metadata]

/-! ### The columns -/

theorem offset_marks : "+00:00".toList = '+' :: ['0', '0', ':', '0', '0'] := by rfl

theorem isoformat_utc {t : DateTime} (h : t.utcoffset = some 0) :
    t.isoformat = DateTime.body t.toTimeParts ++ '+' :: ['0', '0', ':', '0', '0'] := by
  unfold DateTime.isoformat
  rw [h]
  rfl

theorem created_at_text_utc {t : DateTime} (h : t.utcoffset = some 0) :
    created_at_text t = String.ofList (DateTime.body t.toTimeParts ++ ['Z']) := by
  have hplus : '+' ∉ DateTime.body t.toTimeParts :=
    DateTime.not_mem_body t.toTimeParts (by decide) (by decide)
  unfold created_at_text
  rw [isoformat_utc h, offset_marks, Text.replace_end _ hplus]

/-- The text of a UTC time is read as that time. -/
theorem fromisoformat_created_at {t : DateTime} (h : t.utcoffset = some 0) :
    DateTime.fromisoformat (with_offset (created_at_text t)) = some t := by
  have hZ : 'Z' ∉ DateTime.body t.toTimeParts :=
    DateTime.not_mem_body t.toTimeParts (by decide) (by decide)
  have hback : with_offset (created_at_text t) = t.isoformat := by
    have hlist : (created_at_text t).toList = DateTime.body t.toTimeParts ++ ['Z'] := by
      rw [created_at_text_utc h]
      exact String.toList_ofList
    unfold with_offset
    rw [hlist, Text.replace_end _ hZ, offset_marks, isoformat_utc h]
  rw [hback, DateTime.fromisoformat_isoformat]

theorem document_ok {d : BacktestDetail} {results : Document} (h : document d = .ok results) :
    results.pairs = d.dump := by
  unfold document at h
  split at h
  · exact absurd h (by simp)
  split at h
  · exact absurd h (by simp)
  split at h
  · rw [← Except.ok.inj h]
  · exact absurd h (by simp)

theorem document_of_finite {d : BacktestDetail} (hcompleted : d.status = .completed)
    (hobserved : d.equity_curve ≠ []) (hfinite : d.Finite) :
    ∃ results, document d = .ok results := by
  have hcurve : d.equity_curve.isEmpty = false := by simp [hobserved]
  refine ⟨⟨d.dump, compliant_dump hfinite, by rfl⟩, ?_⟩
  unfold document
  rw [if_neg (not_not.mpr hcompleted), if_neg (by simp [hcurve]), dif_pos (compliant_dump hfinite)]

theorem parse_id_text (u : UUID) : parse_id (String.ofList u.text) = .ok u := by
  unfold parse_id
  rw [String.toList_ofList, UUID.parse_text]

theorem parse_created_at_text {t : DateTime} (h : t.utcoffset = some 0) :
    parse_created_at (created_at_text t) = .ok t := by
  unfold parse_created_at
  rw [fromisoformat_created_at h]

/-- The row that a detail gets. -/
theorem record_values_ok {owner_id : UUID} {d : BacktestDetail} {row : BacktestReport}
    (h : record_values owner_id d = .ok row) :
    ∃ u t results, document d = .ok results ∧
      row = { id := u, owner_id := owner_id, created_at := t, strategy_key := d.strategy_id
              name := d.name, version := report_version, results := results } := by
  unfold record_values at h
  obtain ⟨u, _, h⟩ := Fallible.bind_ok h
  obtain ⟨t, _, h⟩ := Fallible.bind_ok h
  obtain ⟨results, hresults, h⟩ := Fallible.bind_ok h
  exact ⟨u, t, results, hresults, (Except.ok.inj h).symm⟩

theorem record_values_of (owner_id : UUID) {d : BacktestDetail} {u : UUID} {t : DateTime}
    {results : Document} (hid : parse_id d.id = .ok u)
    (hcreated : parse_created_at d.created_at = .ok t) (hresults : document d = .ok results) :
    record_values owner_id d = .ok
      { id := u, owner_id := owner_id, created_at := t, strategy_key := d.strategy_id
        name := d.name, version := report_version, results := results } := by
  unfold record_values
  rw [hid, hcreated, hresults]
  rfl

/-! ### Reading back -/

variable (repr : Value → String)

/-- What a saved detail reads as. -/
def shown (d : BacktestDetail) : BacktestDetail :=
  { d with
    name := if is_example_metadata d.report_metadata then example_name d.strategy_name else d.name
    status := .completed, progress_pct := some 100, error_message := none
    report_metadata := detail_metadata d.report_metadata }

/-- Save a detail and read it: `none` where either raises. -/
def reread (owner_id : UUID) (d : BacktestDetail) : Option BacktestDetail :=
  match record_values owner_id d with
  | .ok row => (to_detail lax repr row).toOption
  | .error _ => none

/-- Save and read, over and over, for one owner after the other. -/
def rereads (owner_ids : List UUID) (d : BacktestDetail) : Option BacktestDetail :=
  owner_ids.foldlM (fun d owner_id => reread lax repr owner_id d) d

theorem metadata_of_dump (d : BacktestDetail) : metadata_of d.dump = .ok d.report_metadata := by
  have hitem : item d.dump "reportMetadata" = some (.dict d.report_metadata) := by rfl
  unfold metadata_of
  rw [hitem]
  cases hm : d.report_metadata with
  | nil => rfl
  | cons pair pairs => rfl

/-- Every row that was saved can be read. What it shows has the id and the time
    of the row in their standard form. -/
theorem to_detail_record {owner_id : UUID} {d : BacktestDetail} {row : BacktestReport}
    (h : record_values owner_id d = .ok row) :
    to_detail lax repr row = .ok { shown d with
      id := String.ofList row.id.text, created_at := created_at_text row.created_at } := by
  obtain ⟨u, t, results, hdocument, rfl⟩ := record_values_ok h
  have hresults := document_ok hdocument
  have hstrategy : item d.dump "strategyName" = some (.str d.strategy_name) := by rfl
  have hshown : detail_name repr
      { id := u, owner_id := owner_id, created_at := t, strategy_key := d.strategy_id
        name := d.name, version := report_version, results := results } d.report_metadata =
      .ok (shown d).name := by
    unfold detail_name shown
    simp only [hresults, hstrategy]
    split
    · rfl
    · rfl
  have hread := read_detail_update lax d (String.ofList u.text) (shown d).name
    (detail_metadata d.report_metadata) d.strategy_id (created_at_text t)
  unfold to_detail
  rw [if_neg (not_not.mpr rfl)]
  simp only [hresults, metadata_of_dump, hshown, bind, Except.bind]
  unfold overrides at hread
  rw [hread]
  rfl

/-- Saving and reading succeeds on every detail that can be saved. -/
theorem record_and_read (owner_id : UUID) {d : BacktestDetail} (h : Saveable d) :
    ∃ row, record_values owner_id d = .ok row ∧ to_detail lax repr row = .ok (shown d) := by
  obtain ⟨u, hid⟩ := h.id
  obtain ⟨t, hutc, hcreated⟩ := h.created_at
  obtain ⟨results, hresults⟩ := document_of_finite h.completed h.observed h.finite
  have hrow := record_values_of owner_id (hid ▸ parse_id_text u)
    (hcreated ▸ parse_created_at_text hutc) hresults
  refine ⟨_, hrow, ?_⟩
  rw [to_detail_record lax repr hrow]
  simp only [← hid, ← hcreated]
  rfl

theorem reread_of_saveable (owner_id : UUID) {d : BacktestDetail} (h : Saveable d) :
    reread lax repr owner_id d = some (shown d) := by
  obtain ⟨row, hrow, hread⟩ := record_and_read lax repr owner_id h
  unfold reread
  rw [hrow]
  show (to_detail lax repr row).toOption = _
  rw [hread]
  rfl

/-! ### Disclosing twice -/

theorem item_purpose_disclose (metadata : Pairs) :
    item (disclose metadata) "purpose" = some (.str "example") := by
  unfold disclose
  rw [item_set_item, if_neg (by decide), item_set_item, if_pos rfl]

theorem item_starter_disclose (metadata : Pairs) :
    item (disclose metadata) "starterExample" =
      some (.dict (disclosed_starter (item metadata "starterExample"))) := by
  unfold disclose
  simp only [item_set_item]
  rfl

/-- What was disclosed is an example. -/
theorem is_example_disclose (metadata : Pairs) : is_example_metadata (disclose metadata) = true := by
  unfold is_example_metadata
  rw [item_purpose_disclose]
  rfl

theorem disclosed_starter_again (starter : Option Value) :
    disclosed_starter (some (.dict (disclosed_starter starter))) = disclosed_starter starter := by
  have hgenerated : item (disclosed_starter starter) "generated" = some (.bool true) := by
    simp [disclosed_starter, update, item_set_item]
  have hdeletable : item (disclosed_starter starter) "deletable" = some (.bool true) := by
    simp [disclosed_starter, update, item_set_item]
  have hmessage : item (disclosed_starter starter) "message" = some (.str example_warning) := by
    simp [disclosed_starter, update, item_set_item]
  show set_item "message" _ (set_item "deletable" _ (set_item "generated" _
    (disclosed_starter starter))) = _
  rw [set_item_self hgenerated, set_item_self hdeletable, set_item_self hmessage]

/-- Disclosed metadata is disclosed as it is. -/
theorem disclose_disclose (metadata : Pairs) : disclose (disclose metadata) = disclose metadata := by
  have hpurpose := set_item_self (item_purpose_disclose metadata)
  have hstarter := set_item_self (item_starter_disclose metadata)
  show set_item "starterExample" (.dict (disclosed_starter
    (item (set_item "purpose" (.str "example") (disclose metadata)) "starterExample")))
    (set_item "purpose" (.str "example") (disclose metadata)) = _
  rw [hpurpose, item_starter_disclose, disclosed_starter_again, hstarter]

theorem compliant_disclose {metadata : Pairs} (h : compliant_pairs metadata = true) :
    compliant_pairs (disclose metadata) = true := by
  have hpurpose : compliant_pairs (set_item "purpose" (.str "example") metadata) = true :=
    compliant_set_item rfl h
  have hkept : compliant_pairs
      (entries_of (item (set_item "purpose" (.str "example") metadata) "starterExample")) = true := by
    unfold entries_of
    split
    · rename_i hstarter
      exact compliant_item hpurpose hstarter
    · rfl
  exact compliant_set_item (compliant_set_item rfl (compliant_set_item rfl
    (compliant_set_item rfl hkept))) hpurpose

theorem detail_metadata_again (metadata : Pairs) :
    detail_metadata (detail_metadata metadata) = detail_metadata metadata := by
  unfold detail_metadata
  cases h : is_example_metadata metadata with
  | false => simp [h]
  | true => simp [is_example_disclose, disclose_disclose]

theorem is_example_detail_metadata (metadata : Pairs) :
    is_example_metadata (detail_metadata metadata) = is_example_metadata metadata := by
  unfold detail_metadata
  cases h : is_example_metadata metadata with
  | false => simp [h]
  | true => simp [is_example_disclose]

/-- What is shown is shown as it is. -/
theorem shown_shown (d : BacktestDetail) : shown (shown d) = shown d := by
  unfold shown
  simp only [is_example_detail_metadata, detail_metadata_again]
  cases is_example_metadata d.report_metadata with
  | false => rfl
  | true => rfl

/-- What is shown can be saved. -/
theorem Saveable.shown {d : BacktestDetail} (h : Saveable d) : Saveable (shown d) where
  completed := rfl
  observed := h.observed
  finite :=
    { summary := h.finite.summary
      metrics := h.finite.metrics
      equity_curve := h.finite.equity_curve
      trades := h.finite.trades
      parameters := h.finite.parameters
      report_metadata := by
        show compliant_pairs (detail_metadata d.report_metadata) = true
        unfold detail_metadata
        split
        · exact compliant_disclose h.finite.report_metadata
        · exact h.finite.report_metadata
      open_positions := h.finite.open_positions }
  id := h.id
  created_at := h.created_at

/-- After the first reading nothing changes any more. -/
theorem rereads_shown {d : BacktestDetail} (h : Saveable d) (owner_ids : List UUID) :
    rereads lax repr owner_ids (shown d) = some (shown d) := by
  induction owner_ids with
  | nil => rfl
  | cons owner_id owner_ids ih =>
    have hstep : reread lax repr owner_id (shown d) = some (shown d) := by
      rw [reread_of_saveable lax repr owner_id h.shown, shown_shown]
    unfold rereads at ih ⊢
    rw [List.foldlM_cons, hstep]
    exact ih

/-- A real report reads back as what was saved. An example reads back
    disclosed, and the disclosed report reads back as itself. -/
theorem saved_report_reads_back (owner_id : UUID) {d : BacktestDetail} (h : Saveable d) :
    (is_example_metadata d.report_metadata = false → d.progress_pct = some 100 →
      d.error_message = none →
      ∃ row, record_values owner_id d = .ok row ∧ to_detail lax repr row = .ok d) ∧
    (is_example_metadata d.report_metadata = true →
      ∃ first, reread lax repr owner_id d = some first ∧
        ∀ owner_ids, rereads lax repr owner_ids first = some first) := by
  constructor
  · intro hreal hprogress herror
    obtain ⟨row, hrow, hread⟩ := record_and_read lax repr owner_id h
    have hsame : shown d = d := by
      obtain ⟨summary, metrics, equity_curve, trades, parameters, progress_pct, error_message,
        report_metadata, open_positions⟩ := d
      obtain rfl : progress_pct = some 100 := hprogress
      obtain rfl : error_message = none := herror
      have hcompleted : summary.status = .completed := h.completed
      have hexample : is_example_metadata report_metadata = false := hreal
      simp [shown, detail_metadata, hexample, ← hcompleted]
    exact ⟨row, hrow, by rw [hread, hsame]⟩
  · intro _
    exact ⟨shown d, reread_of_saveable lax repr owner_id h, rereads_shown lax repr h⟩

/-- A report of one day with its benchmark, a closed trade and an open one. -/
def one_day_report (metadata : Pairs) : BacktestDetail where
  id := "00000000-0000-0000-0000-000000000201"
  name := "My actual run"
  strategy_id := "portfolio_1"
  strategy_name := "Volatility Momentum"
  symbol := "AAPL"
  timeframe := "1d"
  status := .completed
  start_date := "2026-03-04"
  end_date := "2026-03-04"
  created_at := "2026-03-05T00:00:00Z"
  initial_capital := .fin 100
  final_equity := .fin 104
  total_return := .fin 4
  sharpe := .fin 0
  max_drawdown := .fin 0
  metrics := ⟨.fin 4, .fin 0, .fin 0, .fin 0, .fin 0, .fin 0, .fin 100, .fin 0, 1,
    [("sharpe", "one daily return is needed")]⟩
  equity_curve := [⟨"2026-03-04", .fin 104, some (.fin 101)⟩]
  trades := [⟨"1", "AAPL", .long, "2026-03-04", some "2026-03-04", .fin 20, some (.fin 21), .fin 4,
      .fin 3, .fin (15 / 4), .fin 1⟩,
    ⟨"2", "AAPL", .short, "2026-03-04", none, .fin 21, none, .fin 1, .fin 0, .fin 0, .fin 1⟩]
  parameters := [("mode", .str "event")]
  progress_pct := some 100
  error_message := none
  report_metadata := metadata
  open_positions := [[("symbol", .str "AAPL"), ("side", .str "short"), ("quantity", .float (.fin 1)),
    ("entryPrice", .float (.fin 21)), ("markPrice", .float (.fin 19)),
    ("unrealizedPnl", .float (.fin 2))]]

theorem one_day_report_saveable {metadata : Pairs} (h : compliant_pairs metadata = true) :
    Saveable (one_day_report metadata) where
  completed := rfl
  observed := by simp [one_day_report]
  finite :=
    { summary := ⟨rfl, rfl, rfl, rfl, rfl⟩
      metrics := ⟨rfl, rfl, rfl, rfl, rfl, rfl, rfl, rfl⟩
      equity_curve := by
        intro p hp
        rw [List.mem_singleton.mp hp]
        exact ⟨rfl, fun x hx => by rw [← Option.some.inj hx]; rfl⟩
      trades := by
        intro t ht
        rcases List.mem_pair.mp ht with rfl | rfl
        · exact ⟨rfl, fun x hx => by rw [← Option.some.inj hx]; rfl, rfl, rfl, rfl, rfl⟩
        · exact ⟨rfl, fun x hx => absurd hx (by simp), rfl, rfl, rfl, rfl⟩
      parameters := rfl
      report_metadata := h
      open_positions := by
        intro pairs hpairs
        rw [List.mem_singleton.mp hpairs]
        rfl }
  id := ⟨⟨0x201⟩, by rfl⟩
  created_at := ⟨⟨⟨2026, 3, 5, 0, 0, 0, 0, some 0⟩, by decide⟩, rfl, by rfl⟩

theorem one_day_report_reads_back :
    (∃ row, record_values ⟨0x201⟩ (one_day_report [("purpose", .str "user")]) = .ok row ∧
      to_detail ⟨fun _ => none, fun _ => none⟩ (fun _ => "") row =
        .ok (one_day_report [("purpose", .str "user")])) ∧
    ∃ first, reread ⟨fun _ => none, fun _ => none⟩ (fun _ => "") ⟨0x201⟩
        (one_day_report [("starterExample", .dict [("generated", .bool true)])]) = some first ∧
      ∀ owner_ids, rereads ⟨fun _ => none, fun _ => none⟩ (fun _ => "") owner_ids first =
        some first :=
  ⟨(saved_report_reads_back _ _ _ (one_day_report_saveable rfl)).1 rfl rfl rfl,
    (saved_report_reads_back _ _ _ (one_day_report_saveable rfl)).2 rfl⟩

end SavedReports
