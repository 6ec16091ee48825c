import BacktestVisualizer.Framework.Text

/-! # Segments

  Text cut at a separator, as paths and object keys are. A folder is a text
  that ends in the separator: with it, no folder is the start of another
  folder beside it, whatever their names have in common.
-/

namespace Segments

/-- `s.strip(...)`, of the characters where `p` holds. -/
def strip_of (p : Char → Bool) (s : String) : String :=
  String.ofList ((s.toList.dropWhile p).reverse.dropWhile p).reverse

/-- `s.startswith(start)`. -/
def starts_with (s start : String) : Bool := start.toList.isPrefixOf s.toList

/-- `s[len(start):]`. -/
def drop_start (s start : String) : String := String.ofList (s.toList.drop start.toList.length)

variable (sep : Char)

/-- `s.endswith(sep)`. -/
def ends_with (s : String) : Bool := s.toList.getLast? == some sep

/-- `sep.join(parts)`. -/
def join (parts : List String) : String :=
  String.ofList ([sep].intercalate (parts.map String.toList))

/-- `s.split(sep)`. -/
def split (s : String) : List String := (s.toList.splitOn sep).map String.ofList

/-- The separator does not occur. -/
def Uncut (s : String) : Prop := sep ∉ s.toList

/-- The text of a folder under a base. -/
def folder (base name : String) : String := base ++ name ++ String.singleton sep

/-! ### Cutting -/

variable {sep}

/-- The first separator is in one place. -/
theorem first_cut {a b rest rest' : List Char} (ha : sep ∉ a) (hb : sep ∉ b)
    (h : a ++ sep :: rest = b ++ sep :: rest') : a = b ∧ rest = rest' := by
  induction a generalizing b with
  | nil =>
    cases b with
    | nil => exact ⟨rfl, (List.cons.inj h).2⟩
    | cons c b =>
      obtain ⟨rfl, _⟩ := List.cons.inj h
      exact absurd (List.mem_cons_self) hb
  | cons c a ih =>
    cases b with
    | nil =>
      obtain ⟨rfl, _⟩ := List.cons.inj h
      exact absurd (List.mem_cons_self) ha
    | cons d b =>
      obtain ⟨rfl, htail⟩ := List.cons.inj h
      obtain ⟨rfl, hrest⟩ := ih (fun hmem => ha (List.mem_cons_of_mem _ hmem))
        (fun hmem => hb (List.mem_cons_of_mem _ hmem)) htail
      exact ⟨rfl, hrest⟩

/-- **Splitting** undoes joining. -/
theorem split_join {parts : List String} (h : ∀ s ∈ parts, Uncut sep s) (hne : parts ≠ []) :
    split sep (join sep parts) = parts := by
  unfold split join
  rw [String.toList_ofList, List.splitOn_intercalate]
  · simp
  · intro l hl
    obtain ⟨s, hs, rfl⟩ := List.mem_map.mp hl
    exact h s hs
  · simpa using hne

@[simp] theorem join_singleton (s : String) : join sep [s] = s := by
  unfold join
  simp

/-- Joining undoes splitting. -/
@[simp] theorem join_split (s : String) : join sep (split sep s) = s := by
  unfold split join
  rw [List.map_map]
  have hid : String.toList ∘ String.ofList = id := by
    funext l
    exact String.toList_ofList
  rw [hid, List.map_id, List.intercalate_splitOn, String.ofList_toList]

theorem split_ne_nil (s : String) : split sep s ≠ [] := by
  unfold split
  rw [ne_eq, List.map_eq_nil_iff]
  exact List.splitOn_ne_nil _ _

theorem join_snoc {parts : List String} (h : parts ≠ []) (s : String) :
    join sep (parts ++ [s]) = join sep parts ++ String.singleton sep ++ s := by
  apply String.toList_inj.mp
  unfold join
  simp only [String.toList_append, String.toList_ofList, String.toList_singleton, List.map_append,
    List.map_cons, List.map_nil]
  induction parts with
  | nil => exact absurd rfl h
  | cons part parts ih =>
    by_cases hnil : parts = []
    · subst hnil
      simp
    · have hmap : parts.map String.toList ≠ [] := by simpa using hnil
      rw [List.map_cons, List.cons_append, List.intercalate_cons_of_ne_nil (by simp), ih hnil,
        List.intercalate_cons_of_ne_nil hmap]
      simp only [List.append_assoc]

/-- Texts without the separator are told from how they are joined. -/
theorem join_inj {parts parts' : List String} (h : ∀ s ∈ parts, Uncut sep s)
    (h' : ∀ s ∈ parts', Uncut sep s) (hne : parts ≠ []) (hne' : parts' ≠ [])
    (heq : join sep parts = join sep parts') : parts = parts' := by
  rw [← split_join h hne, heq, split_join h' hne']

theorem split_uncut {s : String} (h : Uncut sep s) : split sep s = [s] := by
  have hsplit : split sep (join sep [s]) = [s] := split_join (by simpa using h) (by simp)
  rwa [join_singleton] at hsplit

/-! ### Folders -/

@[simp] theorem toList_folder (base name : String) :
    (folder sep base name).toList = base.toList ++ (name.toList ++ [sep]) := by
  simp [folder]

/-- Stripping takes the separator off the end of a folder. -/
theorem strip_folder {base name : String} (hbase : ∃ c l, base.toList = c :: l ∧ c ≠ sep)
    (hname : name ≠ "") (h : Uncut sep name) :
    strip_of (· == sep) (folder sep base name) = base ++ name := by
  obtain ⟨c, l, hcons, hc⟩ := hbase
  unfold strip_of
  have hfront : (folder sep base name).toList.dropWhile (· == sep) =
      base.toList ++ (name.toList ++ [sep]) := by
    rw [toList_folder, hcons]
    exact List.dropWhile_cons_of_neg (by simpa using hc)
  have hback : (base.toList ++ name.toList).reverse.dropWhile (· == sep) =
      (base.toList ++ name.toList).reverse := by
    apply Text.dropWhile_eq_self
    intro d hd
    -- the last character is one of the name
    have hlast : name.toList ≠ [] := by
      intro hnil
      exact hname (String.toList_inj.mp (by simpa using hnil))
    rw [List.head?_reverse, List.getLast?_append_of_ne_nil _ hlast] at hd
    have hmem : d ∈ name.toList := List.mem_of_getLast? hd
    have hne : d ≠ sep := fun heq => h (heq ▸ hmem)
    simpa using hne
  rw [hfront, ← List.append_assoc, List.reverse_append, List.reverse_singleton,
    List.singleton_append, List.dropWhile_cons_of_pos (by simp), hback, List.reverse_reverse]
  apply String.ext
  simp

/-- **The boundary**: a text is in the folder its next segment names. -/
theorem starts_with_folder {base name other rest : String} (h : Uncut sep name)
    (hother : Uncut sep other) :
    starts_with (folder sep base other ++ rest) (folder sep base name) = true ↔ other = name := by
  unfold starts_with
  rw [List.isPrefixOf_iff_prefix, String.toList_append, toList_folder, toList_folder,
    List.append_assoc, List.prefix_append_right_inj]
  constructor
  · rintro ⟨tail, htail⟩
    simp only [List.append_assoc, List.singleton_append] at htail
    obtain ⟨hnames, _⟩ := first_cut hother h htail.symm
    exact String.toList_inj.mp hnames
  · rintro rfl
    exact List.prefix_append _ _

/-- A text in a folder tells its folder and the rest. -/
theorem folder_append_inj {base name other rest rest' : String} (h : Uncut sep name)
    (hother : Uncut sep other) :
    folder sep base name ++ rest = folder sep base other ++ rest' ↔ name = other ∧ rest = rest' := by
  constructor
  · intro heq
    have hlists := congrArg String.toList heq
    simp only [String.toList_append, toList_folder, List.append_assoc,
      List.append_cancel_left_eq, List.singleton_append] at hlists
    obtain ⟨hnames, hrest⟩ := first_cut h hother hlists
    exact ⟨String.toList_inj.mp hnames, String.toList_inj.mp hrest⟩
  · rintro ⟨rfl, rfl⟩
    rfl

@[simp] theorem drop_start_append (s rest : String) : drop_start (s ++ rest) s = rest := by
  unfold drop_start
  rw [String.toList_append, List.drop_left, String.ofList_toList]

theorem append_drop_start {s start : String} (h : starts_with s start) :
    start ++ drop_start s start = s := by
  obtain ⟨rest, hrest⟩ := List.isPrefixOf_iff_prefix.mp h
  apply String.toList_inj.mp
  rw [drop_start, String.toList_append, String.toList_ofList, ← hrest, List.drop_left]

end Segments
