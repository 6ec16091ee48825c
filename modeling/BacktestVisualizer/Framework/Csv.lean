import Mathlib.Data.List.Basic
import Mathlib.Tactic

/-! # Comma-Separated Values

  `csv.writer` with the line terminator `\n`: a field is quoted if it holds a
  comma, a quote, a line feed or a carriage return, and quotes inside are
  doubled. `csv.reader` is a state machine over the characters. What is written
  reads back, whatever the fields hold.
-/

namespace Csv

/-- A field, and the fields of a record. -/
abbrev Field := List Char

abbrev Record := List Field

/-! ### The writer -/

/-- `QUOTE_MINIMAL`. -/
def needs_quotes (f : Field) : Bool :=
  f.any (fun c => c = ',' || c = '"' || c = '\n' || c = '\r')

/-- `doublequote`. -/
def double (f : Field) : List Char := f.flatMap (fun c => if c = '"' then ['"', '"'] else [c])

def write_field (f : Field) : List Char :=
  if needs_quotes f then '"' :: (double f ++ ['"']) else f

/-- The fields with commas between them. -/
def join_fields : Record → List Char
  | [] => []
  | [f] => write_field f
  | f :: g :: fields => write_field f ++ ',' :: join_fields (g :: fields)

/-- `writerow`. A record of one empty field is quoted, or it would be none. -/
def write_row (fields : Record) : List Char :=
  (if fields = [[]] then ['"', '"'] else join_fields fields) ++ ['\n']

/-- `writerows`. -/
def write_rows (records : List Record) : List Char := records.flatMap write_row

/-! ### The reader -/

inductive Mode where
  | start_record
  | start_field
  | in_field
  | in_quoted_field
  | quote_in_quoted_field
  | eat_crnl
  deriving DecidableEq, Repr

structure Reader where
  mode : Mode
  field : Field
  fields : Record
  records : List Record
  deriving DecidableEq, Repr

/-- `parse_add_char`. -/
def Reader.add (r : Reader) (c : Char) (mode : Mode) : Reader :=
  { r with mode := mode, field := r.field ++ [c] }

/-- `parse_save_field`. -/
def Reader.save (r : Reader) (mode : Mode) : Reader :=
  { r with mode := mode, field := [], fields := r.fields ++ [r.field] }

/-- The record is complete. -/
def Reader.finish (r : Reader) : Reader := ⟨.start_record, [], [], r.records ++ [r.fields]⟩

/-- The end of a line, of which a carriage return may be the first half. -/
def Reader.end_line (r : Reader) (c : Char) : Reader :=
  if c = '\r' then r.save .eat_crnl else (r.save .start_record).finish

/-- The first character of a field. -/
def Reader.begin_field (r : Reader) (c : Char) : Reader :=
  if c = '\n' ∨ c = '\r' then r.end_line c
  else if c = '"' then { r with mode := .in_quoted_field }
  else if c = ',' then r.save .start_field
  else r.add c .in_field

/-- `parse_process_char`; a character after a carriage return is an error. -/
def Reader.step (r : Reader) (c : Char) : Option Reader :=
  match r.mode with
  | .start_record =>
      if c = '\n' then some r.finish
      else if c = '\r' then some { r with mode := .eat_crnl }
      else some (r.begin_field c)
  | .start_field => some (r.begin_field c)
  | .in_field =>
      if c = '\n' ∨ c = '\r' then some (r.end_line c)
      else if c = ',' then some (r.save .start_field)
      else some (r.add c .in_field)
  | .in_quoted_field =>
      if c = '"' then some { r with mode := .quote_in_quoted_field }
      else some (r.add c .in_quoted_field)
  | .quote_in_quoted_field =>
      if c = '"' then some (r.add c .in_quoted_field)
      else if c = ',' then some (r.save .start_field)
      else if c = '\n' ∨ c = '\r' then some (r.end_line c)
      else some (r.add c .in_field)
  | .eat_crnl =>
      if c = '\n' then some r.finish else if c = '\r' then some r else none

/-- The end of the text. -/
def Reader.close (r : Reader) : List Record :=
  match r.mode with
  | .start_record => r.records
  | .eat_crnl => r.finish.records
  | _ => (r.save .start_record).finish.records

/-- `list(csv.reader(text))`. -/
def read (text : List Char) : Option (List Record) :=
  (text.foldlM Reader.step ⟨.start_record, [], [], []⟩).map Reader.close

/-! ### Fields -/

/-- At the start of a field. -/
def Reader.Fresh (r : Reader) : Prop :=
  (r.mode = .start_record ∨ r.mode = .start_field) ∧ r.field = []

theorem plain_char {f : Field} (hplain : needs_quotes f = false) {c : Char} (hc : c ∈ f) :
    c ≠ ',' ∧ c ≠ '"' ∧ c ≠ '\n' ∧ c ≠ '\r' := by
  have hnone := List.any_eq_false.mp hplain c hc
  simp only [Bool.or_eq_true, decide_eq_true_eq, not_or] at hnone
  exact ⟨hnone.1.1.1, hnone.1.1.2, hnone.1.2, hnone.2⟩

/-- The rest of a field without quotes. -/
theorem read_plain {r : Reader} (hmode : r.mode = .in_field) {f : Field}
    (hf : ∀ c ∈ f, c ≠ ',' ∧ c ≠ '"' ∧ c ≠ '\n' ∧ c ≠ '\r') :
    f.foldlM Reader.step r = some { r with field := r.field ++ f } := by
  induction f generalizing r with
  | nil => simp
  | cons c f ih =>
    obtain ⟨hcomma, _, hline, hreturn⟩ := hf c List.mem_cons_self
    have hstep : r.step c = some (r.add c .in_field) := by
      unfold Reader.step
      rw [hmode]
      simp [hcomma, hline, hreturn]
    rw [List.foldlM_cons, hstep]
    show f.foldlM Reader.step (r.add c .in_field) = _
    rw [ih rfl (fun d hd => hf d (List.mem_cons_of_mem c hd))]
    simp [Reader.add, hmode]

/-- A field between quotes, up to the closing one. -/
theorem read_quoted {r : Reader} (hmode : r.mode = .in_quoted_field) (f : Field) :
    (double f).foldlM Reader.step r = some { r with field := r.field ++ f } := by
  induction f generalizing r with
  | nil => simp [double]
  | cons c f ih =>
    have hadd : (double f).foldlM Reader.step (r.add c .in_quoted_field) =
        some { r with field := r.field ++ c :: f } := by
      rw [ih rfl]
      simp [Reader.add, hmode]
    by_cases hc : c = '"'
    · -- the first quote closes the field, the second opens it again
      subst hc
      show (['"', '"'] ++ double f).foldlM Reader.step r = _
      rw [List.foldlM_append]
      have hpair : ['"', '"'].foldlM Reader.step r = some (r.add '"' .in_quoted_field) := by
        simp [Reader.step, hmode, Reader.add]
      rw [hpair]
      exact hadd
    · have hdouble : double (c :: f) = c :: double f := by simp [double, hc]
      have hstep : r.step c = some (r.add c .in_quoted_field) := by
        unfold Reader.step
        rw [hmode]
        simp [hc]
      rw [hdouble, List.foldlM_cons, hstep]
      exact hadd

/-- Where the reader may stand after a field. -/
def Ended (mode : Mode) : Prop := mode ≠ .in_quoted_field ∧ mode ≠ .eat_crnl

theorem begin_plain {r : Reader} {c : Char} (hcomma : c ≠ ',') (hquote : c ≠ '"') (hline : c ≠ '\n')
    (hreturn : c ≠ '\r') (hfresh : r.Fresh) : r.step c = some (r.add c .in_field) := by
  unfold Reader.step
  rcases hfresh.1 with hmode | hmode
  · rw [hmode]
    simp [hline, hreturn, Reader.begin_field, hquote, hcomma]
  · rw [hmode]
    simp [hline, hreturn, Reader.begin_field, hquote, hcomma]

theorem begin_quoted {r : Reader} (hfresh : r.Fresh) :
    r.step '"' = some { r with mode := .in_quoted_field } := by
  unfold Reader.step
  rcases hfresh.1 with hmode | hmode
  · rw [hmode]
    simp [Reader.begin_field]
  · rw [hmode]
    simp [Reader.begin_field]

/-- **A written field** is read up to its end. -/
theorem read_field {r : Reader} (hfresh : r.Fresh) (f : Field) :
    ∃ mode, (write_field f).foldlM Reader.step r = some { r with mode := mode, field := f } ∧
      Ended mode ∧ (mode = .start_record → r.mode = .start_record ∧ write_field f = []) := by
  by_cases hquotes : needs_quotes f = true
  · refine ⟨.quote_in_quoted_field, ?_, by simp [Ended], by simp⟩
    unfold write_field
    rw [if_pos hquotes, List.foldlM_cons, begin_quoted hfresh]
    show (double f ++ ['"']).foldlM Reader.step { r with mode := .in_quoted_field } = _
    rw [List.foldlM_append, read_quoted rfl]
    simp [Reader.step, hfresh.2]
  · have hplain : needs_quotes f = false := by simpa using hquotes
    have hwrite : write_field f = f := if_neg hquotes
    rw [hwrite]
    cases f with
    | nil =>
      have hended : Ended r.mode := by
        rcases hfresh.1 with hmode | hmode <;> simp [Ended, hmode]
      refine ⟨r.mode, ?_, hended, fun h => ⟨h, rfl⟩⟩
      rw [List.foldlM_nil, ← hfresh.2]
      rfl
    | cons c f =>
      obtain ⟨hcomma, hquote, hline, hreturn⟩ := plain_char hplain List.mem_cons_self
      refine ⟨.in_field, ?_, by simp [Ended], by simp⟩
      rw [List.foldlM_cons, begin_plain hcomma hquote hline hreturn hfresh]
      show f.foldlM Reader.step (r.add c .in_field) = _
      rw [read_plain rfl (fun d hd => plain_char hplain (List.mem_cons_of_mem c hd))]
      simp [Reader.add, hfresh.2]

/-! ### Records -/

/-- The comma after a field. -/
theorem step_comma {r : Reader} (h : Ended r.mode) : r.step ',' = some (r.save .start_field) := by
  unfold Reader.step
  cases hmode : r.mode with
  | start_record => simp [Reader.begin_field]
  | start_field => simp [Reader.begin_field]
  | in_field => simp
  | quote_in_quoted_field => simp
  | in_quoted_field => exact absurd hmode h.1
  | eat_crnl => exact absurd hmode h.2

/-- The line feed after the last field; an empty line has no field. -/
theorem step_line {r : Reader} (h : Ended r.mode) (hsome : r.mode ≠ .start_record) :
    r.step '\n' = some (r.save .start_record).finish := by
  unfold Reader.step
  cases hmode : r.mode with
  | start_record => exact absurd hmode hsome
  | start_field => simp [Reader.begin_field, Reader.end_line]
  | in_field => simp [Reader.end_line]
  | quote_in_quoted_field => simp [Reader.end_line]
  | in_quoted_field => exact absurd hmode h.1
  | eat_crnl => exact absurd hmode h.2

/-- The fields after the first, each with its comma before it. -/
theorem read_fields {r : Reader} (hmode : r.mode = .start_field) (hfield : r.field = [])
    (f : Field) (fields : Record) :
    (join_fields (f :: fields) ++ ['\n']).foldlM Reader.step r =
      some ⟨.start_record, [], [], r.records ++ [r.fields ++ f :: fields]⟩ := by
  induction fields generalizing r f with
  | nil =>
    obtain ⟨mode, hread, hended, hstart⟩ := read_field ⟨.inr hmode, hfield⟩ f
    have hline : mode ≠ .start_record := by
      intro h
      rw [(hstart h).1] at hmode
      exact absurd hmode (by simp)
    rw [join_fields, List.foldlM_append, hread]
    show ['\n'].foldlM Reader.step _ = _
    rw [List.foldlM_cons, step_line hended hline]
    rfl
  | cons g fields ih =>
    obtain ⟨mode, hread, hended, _⟩ := read_field ⟨.inr hmode, hfield⟩ f
    rw [join_fields, List.append_assoc, List.foldlM_append, hread]
    show (',' :: (join_fields (g :: fields) ++ ['\n'])).foldlM Reader.step _ = _
    rw [List.foldlM_cons, step_comma hended]
    show (join_fields (g :: fields) ++ ['\n']).foldlM Reader.step _ = _
    rw [ih rfl rfl]
    simp [Reader.save]

/-- **A written record** is read in full. -/
theorem read_row {records : List Record} {fields : Record} (hne : fields ≠ []) :
    (write_row fields).foldlM Reader.step ⟨.start_record, [], [], records⟩ =
      some ⟨.start_record, [], [], records ++ [fields]⟩ := by
  unfold write_row
  by_cases hempty : fields = [[]]
  · rw [if_pos hempty, hempty]
    rfl
  · rw [if_neg hempty]
    obtain ⟨f, rest, rfl⟩ := List.exists_cons_of_ne_nil hne
    obtain ⟨mode, hread, hended, hstart⟩ :=
      read_field (r := ⟨.start_record, [], [], records⟩) ⟨.inl rfl, rfl⟩ f
    cases rest with
    | nil =>
      -- the only field is not empty, so the line is not
      have hline : mode ≠ .start_record := by
        intro h
        have hnil := (hstart h).2
        apply hempty
        unfold write_field at hnil
        split at hnil
        · exact absurd hnil (by simp)
        · rw [hnil]
      rw [join_fields, List.foldlM_append, hread]
      show ['\n'].foldlM Reader.step _ = _
      rw [List.foldlM_cons, step_line hended hline]
      rfl
    | cons g rest =>
      rw [join_fields, List.append_assoc, List.foldlM_append, hread]
      show (',' :: (join_fields (g :: rest) ++ ['\n'])).foldlM Reader.step _ = _
      rw [List.foldlM_cons, step_comma hended]
      show (join_fields (g :: rest) ++ ['\n']).foldlM Reader.step _ = _
      rw [read_fields rfl rfl]
      rfl

/-- **Reading what was written** gives the records back. -/
theorem read_write_rows {records : List Record} (hne : ∀ fields ∈ records, fields ≠ []) :
    read (write_rows records) = some records := by
  suffices h : ∀ before : List Record,
      (write_rows records).foldlM Reader.step ⟨.start_record, [], [], before⟩ =
        some ⟨.start_record, [], [], before ++ records⟩ by
    unfold read
    rw [h []]
    rfl
  induction records with
  | nil =>
    intro before
    rw [List.append_nil]
    rfl
  | cons fields records ih =>
    intro before
    show (write_row fields ++ write_rows records).foldlM Reader.step _ = _
    rw [List.foldlM_append, read_row (hne fields List.mem_cons_self)]
    show (write_rows records).foldlM Reader.step ⟨.start_record, [], [], before ++ [fields]⟩ = _
    rw [ih (fun g hg => hne g (List.mem_cons_of_mem fields hg)), List.append_assoc]
    rfl

end Csv
