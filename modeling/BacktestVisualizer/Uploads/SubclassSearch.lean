import BacktestVisualizer.Uploads.Compatibility

/-! # The Subclass Search

  `_strategy_class_nodes` grows a set of names until a round adds nothing.
  The loop ends, because every other round takes a class of the file in, and
  it ends at the names that are reached from `BasePortfolio` by the classes
  of the file, in whatever order, however often a name is used and whether or
  not the bases go round in a circle.
-/

namespace Compatibility

open PyModule (ClassDef)
open PyTree Uploads

/-! ### The loop -/

/-- `while True` runs from these names to its `break` with those. -/
inductive Loops (classes : List ClassDef) : List String → List String → Prop where
  | stop {names : List String} (h : grown classes names = []) : Loops classes names names
  | round {names result : List String} (h : grown classes names ≠ [])
      (hrest : Loops classes (names ++ grown classes names) result) : Loops classes names result

/-- A class whose name comes from `BasePortfolio`, itself or through a base
    that is the name of such a class. -/
inductive Inherited (classes : List ClassDef) : String → Prop where
  | direct {d : ClassDef} (hd : d ∈ classes) (h : extends_base_portfolio d = true) :
      Inherited classes d.name
  | through {d : ClassDef} {base : String} (hd : d ∈ classes) (hbase : .name base ∈ d.bases)
      (h : Inherited classes base) : Inherited classes d.name

variable {classes : List ClassDef} {names result : List String}

theorem mem_grown_iff {n : String} :
    n ∈ grown classes names ↔
      ∃ d ∈ classes, d.name = n ∧ n ∉ names ∧ ∃ base ∈ names, .name base ∈ d.bases := by
  unfold grown
  rw [List.mem_map]
  constructor
  · intro hgrown
    obtain ⟨d, hd, hname⟩ := hgrown
    rw [List.mem_filter, Bool.and_eq_true] at hd
    obtain ⟨hmem, hout, hbases⟩ := hd
    obtain ⟨b, hb, hnamed⟩ := List.any_eq_true.mp hbases
    cases b with
    | name base =>
      refine ⟨d, hmem, hname, ?_, base, by simpa [is_named] using hnamed, hb⟩
      rw [← hname]
      simpa using hout
    | attr value name => exact absurd hnamed Bool.false_ne_true
    | other k parts => exact absurd hnamed Bool.false_ne_true
  · intro hclass
    obtain ⟨d, hmem, hname, hout, base, hbase, hb⟩ := hclass
    refine ⟨d, ?_, hname⟩
    rw [List.mem_filter, Bool.and_eq_true]
    refine ⟨hmem, ?_, List.any_eq_true.mpr ⟨_, hb, by simpa [is_named] using hbase⟩⟩
    rw [hname]
    simpa using hout

/-- **The loop ends** within as many rounds as there are classes left out. -/
theorem loops_grow {fuel : ℕ}
    (hfuel : (classes.filter (fun d => d.name ∉ names)).length ≤ fuel) :
    Loops classes names (grow fuel classes names) := by
  induction fuel generalizing names with
  | zero =>
    apply Loops.stop
    rw [List.eq_nil_iff_forall_not_mem]
    intro n hn
    -- a name that is added is the name of a class that is left out
    obtain ⟨d, hd, rfl, hout, _⟩ := mem_grown_iff.mp hn
    have hmem : d ∈ classes.filter (fun d => d.name ∉ names) := by
      rw [List.mem_filter]
      exact ⟨hd, by simpa using hout⟩
    have hpos := List.length_pos_of_mem hmem
    omega
  | succ fuel ih =>
    unfold grow
    split
    · rename_i hnone
      exact Loops.stop hnone
    · rename_i hsome
      have hlt := left_out_lt hsome
      exact Loops.round hsome (ih (by omega))

/-- It ends with what it started with, and nothing can be added. -/
theorem Loops.ends (h : Loops classes names result) :
    names ⊆ result ∧ grown classes result = [] := by
  induction h with
  | stop h => exact ⟨List.Subset.refl _, h⟩
  | round _ _ ih => exact ⟨List.Subset.trans (List.subset_append_left _ _) ih.1, ih.2⟩

/-- There is one way to run it. -/
theorem Loops.unique (h : Loops classes names result) {other : List String}
    (h' : Loops classes names other) : result = other := by
  induction h with
  | stop hnone =>
    cases h' with
    | stop => rfl
    | round hsome => exact absurd hnone hsome
  | round hsome _ ih =>
    cases h' with
    | stop hnone => exact absurd hnone hsome
    | round _ hrest => exact ih hrest

/-- A round only adds names that are inherited. -/
theorem Loops.sound (h : Loops classes names result) (hnames : ∀ n ∈ names, Inherited classes n) :
    ∀ n ∈ result, Inherited classes n := by
  induction h with
  | stop _ => exact hnames
  | round _ _ ih =>
    apply ih
    intro n hn
    rcases List.mem_append.mp hn with hold | hnew
    · exact hnames n hold
    · obtain ⟨d, hd, rfl, _, base, hbase, hb⟩ := mem_grown_iff.mp hnew
      exact Inherited.through hd hb (hnames base hbase)

/-- Nothing that is inherited is missing at the end. -/
theorem Loops.complete (h : Loops classes names result)
    (hdirect : ∀ d ∈ classes, extends_base_portfolio d = true → d.name ∈ names) {n : String}
    (hn : Inherited classes n) : n ∈ result := by
  obtain ⟨hsubset, hclosed⟩ := h.ends
  induction hn with
  | direct hd hbase => exact hsubset (hdirect _ hd hbase)
  | @through d base hd hbase _ ih =>
    by_contra hout
    have hgrown : d.name ∈ grown classes result :=
      mem_grown_iff.mpr ⟨d, hd, rfl, hout, base, ih, hbase⟩
    rw [hclosed] at hgrown
    exact absurd hgrown List.not_mem_nil

/-! ### The search -/

/-- The names the loop starts with. -/
def direct_names (classes : List ClassDef) : List String :=
  (classes.filter extends_base_portfolio).map ClassDef.name

theorem loops_subclass_names (classes : List ClassDef) :
    Loops classes (direct_names classes) (subclass_names classes) :=
  loops_grow (List.length_filter_le _ classes)

theorem mem_direct_names {n : String} :
    n ∈ direct_names classes ↔ ∃ d ∈ classes, extends_base_portfolio d = true ∧ d.name = n := by
  unfold direct_names
  rw [List.mem_map]
  constructor
  · intro ⟨d, hd, hname⟩
    obtain ⟨hmem, hbase⟩ := List.mem_filter.mp hd
    exact ⟨d, hmem, hbase, hname⟩
  · intro ⟨d, hmem, hbase, hname⟩
    exact ⟨d, List.mem_filter.mpr ⟨hmem, hbase⟩, hname⟩

theorem mem_subclass_names_iff {n : String} :
    n ∈ subclass_names classes ↔ Inherited classes n := by
  have hloops := loops_subclass_names classes
  constructor
  · apply hloops.sound
    intro n hn
    obtain ⟨d, hd, hbase, rfl⟩ := mem_direct_names.mp hn
    exact Inherited.direct hd hbase
  · apply hloops.complete
    intro d hd hbase
    exact mem_direct_names.mpr ⟨d, hd, hbase, rfl⟩

/-- The class statements of a tree, in the order of the walk. -/
def class_defs (tree : List Node) : List ClassDef := (walk tree).filterMap class_def_of

theorem filterMap_class_defs (tree : List Node) :
    ((walk tree).filter (fun n => (class_def_of n).isSome)).filterMap class_def_of =
      class_defs tree := by
  unfold class_defs
  induction walk tree with
  | nil => rfl
  | cons n nodes ih =>
    cases h : class_def_of n with
    | none => simp [h, ih]
    | some d => simp [h, ih]

open Classical in
/-- **The search finds the inheritance closure**: its loop ends, in the one
    way it can, and it keeps of the walk, in its order, the class statements
    whose name is inherited. -/
theorem search_is_closure (tree : List Node) :
    Loops (class_defs tree) (direct_names (class_defs tree)) (subclass_names (class_defs tree)) ∧
    strategy_classes tree = (walk tree).filter (fun n =>
      ∃ d, class_def_of n = some d ∧ Inherited (class_defs tree) d.name) := by
  refine ⟨loops_subclass_names _, ?_⟩
  unfold strategy_classes
  simp only
  rw [filterMap_class_defs, List.filter_filter]
  apply List.filter_congr
  intro n _
  cases hclass : class_def_of n with
  | none => simp
  | some d =>
    have hname : class_name_of n = d.name := by
      unfold class_name_of
      rw [hclass]
      rfl
    rw [hname]
    simp [mem_subclass_names_iff]

end Compatibility
