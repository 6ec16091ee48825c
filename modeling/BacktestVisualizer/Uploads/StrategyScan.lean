import BacktestVisualizer.Framework.PyModule

/-! # The Upload Scan and the Loader

  `services/strategy_validation/scanning.py` reads the file of an uploaded
  strategy, and `engine/strategies/user_loader.py` imports it. Both have to
  find the one class to run: the scan among the class statements, by the
  names they are written with, and the loader among what the names of the
  module denote once the file has run.

  A problem is told without the line it stands on. A file that does not parse
  has no syntax tree here.
-/

namespace Uploads

open PyModule

/-! ### What a file may not contain -/

/-- `ALLOWED_IMPORT_ROOTS`. -/
def allowed_import_roots : List String :=
  ["engine", "pandas", "numpy", "math", "datetime", "typing", "collections", "statistics",
    "logging"]

/-- `BANNED_NAMES`. -/
def banned_names : List String :=
  ["exec", "eval", "compile", "__import__", "open", "input", "breakpoint"]

/-- `BANNED_MODULE_ROOTS`. -/
def banned_module_roots : List String :=
  ["os", "sys", "subprocess", "shutil", "socket", "requests", "urllib", "importlib", "builtins",
    "ctypes", "pickle", "pathlib"]

/-- `BANNED_ATTRIBUTES`. -/
def banned_attributes : List String :=
  ["__globals__", "__builtins__", "__subclasses__", "__code__", "__loader__", "__mro__",
    "__import__"]

/-- `BASE_CLASS_NAME`. -/
def base_class_name : String := "BasePortfolio"

/-- The reasons to refuse a node. -/
inductive Violation where
  /-- "importing ... is not allowed ...". -/
  | import_refusal (module : String)
  /-- "relative imports are not allowed ...". -/
  | relative_import
  /-- "... is not allowed in an uploaded strategy ...". -/
  | banned_name (id : String)
  /-- "the attribute ... is not allowed in an uploaded strategy.". -/
  | banned_attribute (name : String)
  /-- "... is not allowed. An uploaded strategy may not reach ...". -/
  | banned_module (id name : String)
  deriving DecidableEq, Repr

/-- `name.split(".")[0]`. -/
def import_root (module : String) : String := String.ofList (module.toList.takeWhile (· != '.'))

/-- `_violation`. -/
def violation : Node → Option Violation
  | .stmt (.import_module names) =>
      (names.find? (fun names => import_root names.1 ∉ allowed_import_roots)).map
        (fun names => .import_refusal names.1)
  | .stmt (.import_from level module _) =>
      if level ≠ 0 then some .relative_import
      else if import_root module ∉ allowed_import_roots then some (.import_refusal module)
      else none
  | .stmt (.class_stmt _ _ _) => none
  | .stmt (.assign _ _) => none
  | .expr (.name id) => if id ∈ banned_names then some (.banned_name id) else none
  | .expr (.attr value name) =>
      if name ∈ banned_attributes then some (.banned_attribute name)
      else
        match value with
        | .name id => if id ∈ banned_module_roots then some (.banned_module id name) else none
        | _ => none
  | .expr (.other _ _) => none

/-! ### The strategy classes of a file -/

/-- A base that reads `BasePortfolio`, plain or dotted. -/
def is_base_portfolio : Expr → Bool
  | .name id => id = base_class_name
  | .attr _ name => name = base_class_name
  | .other _ _ => false

/-- `_extends_base_portfolio`. -/
def extends_base_portfolio (d : ClassDef) : Bool := d.bases.any is_base_portfolio

/-- A base that is one of these names. -/
def is_named (names : List String) : Expr → Bool
  | .name id => id ∈ names
  | .attr _ _ => false
  | .other _ _ => false

/-- The names that one round adds. -/
def grown (classes : List ClassDef) (names : List String) : List String :=
  (classes.filter (fun d => d.name ∉ names && d.bases.any (is_named names))).map ClassDef.name

/-- The loop that grows the names until nothing is added. -/
def grow : ℕ → List ClassDef → List String → List String
  | 0, _, names => names
  | fuel + 1, classes, names =>
      if grown classes names = [] then names
      else grow fuel classes (names ++ grown classes names)

/-- `subclass_names`. Every round but the last adds the name of a class. -/
def subclass_names (classes : List ClassDef) : List String :=
  grow classes.length classes ((classes.filter extends_base_portfolio).map ClassDef.name)

/-- The `ast.ClassDef` nodes of the walk. -/
def class_nodes (source : List Stmt) : List ClassDef :=
  (walk_file source).filterMap Node.class_def

/-- `_strategy_class_nodes`. -/
def strategy_class_nodes (source : List Stmt) : List ClassDef :=
  (class_nodes source).filter (fun d => d.name ∈ subclass_names (class_nodes source))

/-- A `StrategyValidationError`. -/
inductive ScanError where
  | refused (violation : Violation)
  /-- "This file defines no BasePortfolio subclass ...". -/
  | no_subclass
  /-- "This file defines ... strategies ...". -/
  | several (names : List String)
  deriving DecidableEq, Repr

/-- `_sole_strategy_class_name`. -/
def sole_strategy_class_name (source : List Stmt) : Except ScanError String :=
  match (strategy_class_nodes source).map ClassDef.name with
  | [] => .error .no_subclass
  | [name] => .ok name
  | names => .error (.several (names.insertionSort (· ≤ ·)))

/-- `scan_source`. -/
def scan_source (source : List Stmt) : Except ScanError String :=
  match (walk_file source).findSome? violation with
  | some violation => .error (.refused violation)
  | none => sole_strategy_class_name source

/-! ### The loader -/

variable (host : Host) (base : ℕ)

/-- `isinstance(value, type) and issubclass(value, BasePortfolio)`. -/
def is_subclass (m : Frame) : Value → Bool
  | .object i => m.classes[i]?.any (fun c => .outside base ∈ c.made.mro)
  | .outside e => base ∈ host.mro e
  | .text _ => false

/-- `value.__name__`. -/
def class_name (m : Frame) : Value → String
  | .object i => (m.classes[i]?.map ClassObject.name).getD ""
  | .outside e => host.name_of e
  | .text _ => ""

/-- What the loader looks for among the values of a module. -/
def is_candidate (m : Frame) (module_name : String) (v : Value) : Bool :=
  is_subclass host base m v && v ≠ .outside base &&
    own_attr host m v "__module__" = some (.text module_name)

/-- A `UserStrategyError` of the search. -/
inductive LoaderError where
  /-- "strategy.py defines no BasePortfolio subclass ...". -/
  | no_subclass
  /-- "strategy.py defines more than one BasePortfolio subclass ...". -/
  | more_than_one (names : List String)
  deriving DecidableEq, Repr

/-- `_sole_strategy_class`. -/
def sole_strategy_class (m : Frame) (module_name : String) : Except LoaderError Value :=
  match (m.globals.entries.map Sigma.snd).filter (is_candidate host base m module_name) with
  | [] => .error .no_subclass
  | [v] => .ok v
  | candidates =>
      .error (.more_than_one ((candidates.map (class_name host m)).insertionSort (· ≤ ·)))

/-! ### What the scan counts -/

theorem mem_strategy_class_nodes {source : List Stmt} {d : ClassDef} :
    d ∈ strategy_class_nodes source ↔
      d ∈ class_nodes source ∧ d.name ∈ subclass_names (class_nodes source) := by
  unfold strategy_class_nodes
  rw [List.mem_filter, decide_eq_true_eq]

theorem mem_grown {classes : List ClassDef} {names : List String} {d : ClassDef}
    (hd : d ∈ classes) (hout : d.name ∉ names) (hbase : d.bases.any (is_named names) = true) :
    d.name ∈ grown classes names := by
  apply List.mem_map_of_mem
  rw [List.mem_filter]
  exact ⟨hd, by simpa [hout] using hbase⟩

theorem subset_grow (fuel : ℕ) (classes : List ClassDef) (names : List String) :
    names ⊆ grow fuel classes names := by
  induction fuel generalizing names with
  | zero => exact List.Subset.refl names
  | succ fuel ih =>
    unfold grow
    split
    · exact List.Subset.refl names
    · exact List.Subset.trans (List.subset_append_left _ _) (ih _)

/-- A round that adds a name leaves fewer classes out. -/
theorem left_out_lt {classes : List ClassDef} {names : List String}
    (h : grown classes names ≠ []) :
    (classes.filter (fun d => d.name ∉ names ++ grown classes names)).length <
      (classes.filter (fun d => d.name ∉ names)).length := by
  have hsplit : classes.filter (fun d => d.name ∉ names ++ grown classes names) =
      (classes.filter (fun d => d.name ∉ names)).filter
        (fun d => d.name ∉ grown classes names) := by
    rw [List.filter_filter]
    apply List.filter_congr
    intro d _
    simp [Bool.and_comm]
  obtain ⟨n, hn⟩ := List.exists_mem_of_ne_nil _ h
  obtain ⟨d, hd, rfl⟩ := List.mem_map.mp hn
  have hout : d ∈ classes.filter (fun d => d.name ∉ names) := by
    rw [List.mem_filter, Bool.and_eq_true] at hd
    exact List.mem_filter.mpr ⟨hd.1, hd.2.1⟩
  rw [hsplit, List.length_filter_lt_length_iff_exists]
  exact ⟨d, hout, by simpa using hn⟩

/-- The loop stops at names no class of the file can be added to. -/
theorem grow_closed {fuel : ℕ} {classes : List ClassDef} {names : List String}
    (hfuel : (classes.filter (fun d => d.name ∉ names)).length ≤ fuel) {d : ClassDef}
    (hd : d ∈ classes) (hbase : d.bases.any (is_named (grow fuel classes names)) = true) :
    d.name ∈ grow fuel classes names := by
  induction fuel generalizing names with
  | zero =>
    -- no class is left out
    by_contra hout
    have hmem : d ∈ classes.filter (fun d => d.name ∉ names) := by
      rw [List.mem_filter]
      exact ⟨hd, by simpa [grow] using hout⟩
    have hpos := List.length_pos_of_mem hmem
    omega
  | succ fuel ih =>
    unfold grow at hbase ⊢
    split
    · rename_i hnone
      rw [if_pos hnone] at hbase
      by_contra hout
      have hmem := mem_grown hd hout hbase
      rw [hnone] at hmem
      exact absurd hmem List.not_mem_nil
    · rename_i hsome
      rw [if_neg hsome] at hbase
      have hlt := left_out_lt hsome
      apply ih _ hbase
      omega

/-- **The scan follows inheritance** through the classes of the file, whatever
    the order they stand in. -/
theorem subclass_names_closed {classes : List ClassDef} {d : ClassDef} (hd : d ∈ classes)
    (hbase : d.bases.any (is_named (subclass_names classes)) = true) :
    d.name ∈ subclass_names classes :=
  grow_closed (List.length_filter_le _ classes) hd hbase

theorem mem_subclass_names {classes : List ClassDef} {d : ClassDef} (hd : d ∈ classes)
    (hbase : extends_base_portfolio d = true) : d.name ∈ subclass_names classes :=
  subset_grow _ _ _ (List.mem_map_of_mem (List.mem_filter.mpr ⟨hd, hbase⟩))

/-- Names grow from a class that extends `BasePortfolio` itself. -/
theorem exists_extends {classes : List ClassDef} {n : String} (h : n ∈ subclass_names classes) :
    ∃ d ∈ classes, extends_base_portfolio d = true := by
  by_contra hnone
  have hstart : classes.filter extends_base_portfolio = [] := by
    rw [List.filter_eq_nil_iff]
    intro d hd hbase
    exact hnone ⟨d, hd, hbase⟩
  have hgrown : grown classes [] = [] := by
    have hbase : ∀ b, is_named [] b = false := by
      intro b
      cases b with
      | name id => simp [is_named]
      | attr value name => rfl
      | other k parts => rfl
    simp [grown, hbase]
  have hgrow : grow classes.length classes [] = [] := by
    unfold grow
    split
    · rfl
    · rw [if_pos hgrown]
  unfold subclass_names at h
  rw [hstart, List.map_nil, hgrow] at h
  exact absurd h List.not_mem_nil

/-- What an accepted file comes to: one class statement is counted, it has the
    name that is told, and it extends `BasePortfolio` itself. -/
theorem scan_source_ok {source : List Stmt} {name : String} (h : scan_source source = .ok name) :
    ∃ d, strategy_class_nodes source = [d] ∧ d.name = name ∧ extends_base_portfolio d = true := by
  unfold scan_source at h
  split at h
  · exact absurd h (by simp)
  unfold sole_strategy_class_name at h
  split at h
  · exact absurd h (by simp)
  · rename_i hnodes
    obtain ⟨d, hone, hname⟩ := List.map_eq_singleton_iff.mp hnodes
    have hd : d ∈ strategy_class_nodes source := by
      rw [hone]
      exact List.mem_singleton_self d
    obtain ⟨e, he, hbase⟩ := exists_extends (mem_strategy_class_nodes.mp hd).2
    -- a class that extends it is counted, so it is the one there is
    have hmem := mem_strategy_class_nodes.mpr ⟨he, mem_subclass_names he hbase⟩
    rw [hone, List.mem_singleton] at hmem
    refine ⟨d, hone, hname.trans (Except.ok.inj h), ?_⟩
    rw [← hmem]
    exact hbase
  · exact absurd h (by simp)

/-! ### Names and objects -/

/-- `BasePortfolio`, wherever a class statement has it for a base, denotes the
    class of the engine. -/
def BaseNamed (m : Frame) : Prop :=
  ∀ c ∈ m.made, ∀ b ∈ c.bases, is_base_portfolio b.1 = true → b.2 = .outside base

/-- A class made by the file that descends from the class of the engine. -/
def Descends (m : Frame) (i : ℕ) (c : ClassMade) : Prop :=
  m.made[i]? = some c ∧ .outside base ∈ c.mro

/-- Descent is written by names: a class that descends from the class of the
    engine has a base which reads `BasePortfolio`, or one which denotes
    another such class by the name of its statement. -/
def DescentNamed (m : Frame) : Prop :=
  ∀ i c, Descends base m i c → ∃ b ∈ c.bases, is_base_portfolio b.1 = true ∨
    ∃ j d, b = (.name d.statement, .object j) ∧ Descends base m j d

variable {host base}

/-- A class of the module is made by a class statement of the walk. -/
theorem class_def_mem {module_name : String} {source : List Stmt} {m : Frame}
    (himport : import_file host module_name source = some m) {i : ℕ} {c : ClassMade}
    (hc : m.made[i]? = some c) : c.class_def ∈ class_nodes source := by
  apply class_def_mem_walk_file
  rw [← import_file_class_defs himport]
  exact List.mem_map_of_mem (List.mem_of_getElem? hc)

/-- **The scan counts what descends**, when descent is written by names. -/
theorem descends_counted {module_name : String} {source : List Stmt} {m : Frame}
    (himport : import_file host module_name source = some m) (hnamed : DescentNamed base m)
    {i : ℕ} {c : ClassMade} (hc : Descends base m i c) :
    c.class_def ∈ strategy_class_nodes source := by
  -- induction on when the class was made: its bases were there before it
  induction i using Nat.strong_induction_on generalizing c with
  | _ i ih =>
    have hnode := class_def_mem himport hc.1
    refine mem_strategy_class_nodes.mpr ⟨hnode, ?_⟩
    obtain ⟨b, hb, hbase | ⟨j, d, rfl, hd⟩⟩ := hnamed i c hc
    · apply mem_subclass_names hnode
      exact List.any_eq_true.mpr ⟨b.1, List.mem_map_of_mem hb, hbase⟩
    · have hbefore := import_file_bases_before himport i c hc.1 _ hb j rfl
      have hcounted := (mem_strategy_class_nodes.mp (ih j hbefore hd)).2
      apply subclass_names_closed hnode
      exact List.any_eq_true.mpr ⟨_, List.mem_map_of_mem hb, decide_eq_true hcounted⟩

/-- The class the scan tells descends from the class of the engine. -/
theorem scanned_descends {module_name : String} {source : List Stmt} {m : Frame}
    (himport : import_file host module_name source = some m) (hbase : BaseNamed base m)
    {name : String} (hscan : scan_source source = .ok name) {i : ℕ} {c : ClassMade}
    (hc : m.made[i]? = some c) (hname : c.statement = name) : Descends base m i c := by
  obtain ⟨d, hone, hd, hextends⟩ := scan_source_ok hscan
  have hcounted : d ∈ strategy_class_nodes source := by
    rw [hone]
    exact List.mem_singleton_self d
  have hnames := (mem_strategy_class_nodes.mp hcounted).2
  -- every statement of the name that is told is counted
  have hmem : c.class_def ∈ strategy_class_nodes source := by
    apply mem_strategy_class_nodes.mpr ⟨class_def_mem himport hc, _⟩
    show c.statement ∈ subclass_names (class_nodes source)
    rw [hname, ← hd]
    exact hnames
  rw [hone, List.mem_singleton] at hmem
  rw [← hmem] at hextends
  obtain ⟨e, he, hreads⟩ := List.any_eq_true.mp hextends
  obtain ⟨b, hb, rfl⟩ := List.mem_map.mp he
  refine ⟨hc, ?_⟩
  rw [← hbase c (List.mem_of_getElem? hc) b hb hreads]
  exact c.bases_in_mro b hb

/-! ### The loader on a file the scan accepts -/

/-- Nothing that was imported has the module's name for its `__module__`: the
    name is of this run alone, and the file has not set it. -/
structure ModuleFresh (host : Host) (m : Frame) (module_name : String) : Prop where
  outside : ∀ e, host.own e "__module__" ≠ some (.text module_name)
  kept : ∀ e, m.patched.get (e, "__module__") = none

/-- The class of one statement, bound once: `n` and no other name of the module
    denotes it, and it has the name and the module it was made with. -/
structure BoundOnce (m : Frame) (module_name name n : String) (i : ℕ) (c : ClassObject) :
    Prop where
  denoted : m.globals.get n = some (.object i)
  made : m.classes[i]? = some c
  statement : c.made.statement = name
  class_name : c.name = name
  module : c.names.get "__module__" = some (.text module_name)
  once : ∀ n' j d, m.globals.get n' = some (.object j) → m.classes[j]? = some d →
    d.made.statement = name → n' = n

theorem getElem?_made {m : Frame} {i : ℕ} {c : ClassObject} (h : m.classes[i]? = some c) :
    m.made[i]? = some c.made := by
  simp [Frame.made, h]

/-- A candidate is a class of the file that descends from that of the engine. -/
theorem candidate_cases {m : Frame} {module_name : String}
    (hfresh : ModuleFresh host m module_name) {v : Value}
    (h : is_candidate host base m module_name v = true) :
    ∃ i c, v = .object i ∧ m.classes[i]? = some c ∧ Descends base m i c.made := by
  unfold is_candidate at h
  rw [Bool.and_eq_true, Bool.and_eq_true, decide_eq_true_eq, decide_eq_true_eq] at h
  obtain ⟨⟨hsub, _⟩, hmodule⟩ := h
  cases v with
  | object i =>
    obtain ⟨c, hc, hbase⟩ := (Option.any_eq_true _ _).mp hsub
    exact ⟨i, c, rfl, hc, getElem?_made hc, of_decide_eq_true hbase⟩
  | outside e =>
    have hown : (m.patched.get (e, "__module__")).or (host.own e "__module__") =
        some (.text module_name) := hmodule
    rw [hfresh.kept, Option.none_or] at hown
    exact absurd hown (hfresh.outside e)
  | text s => exact absurd hsub (by simp [is_subclass])

/-- The class of a statement that descends is a candidate. -/
theorem BoundOnce.candidate {m : Frame} {module_name name n : String} {i : ℕ} {c : ClassObject}
    (h : BoundOnce m module_name name n i c) (hbase : Descends base m i c.made) :
    is_candidate host base m module_name (.object i) = true := by
  have hmodule : own_attr host m (.object i) "__module__" = some (.text module_name) := by
    simp [own_attr, h.made, h.module]
  have hsub : is_subclass host base m (.object i) = true := by
    simp [is_subclass, h.made, hbase.2]
  simp [is_candidate, hmodule, hsub]

/-- **The scan and the loader agree.** A file the scan accepts as the strategy
    `name` is imported, `BasePortfolio` denotes the class of the engine, and
    descent is written by names. Then the loader finds the class of that
    statement, if it is bound once. -/
theorem loader_finds_scanned {module_name : String} {source : List Stmt} {m : Frame}
    (himport : import_file host module_name source = some m) (hbase : BaseNamed base m)
    (hfresh : ModuleFresh host m module_name) (hnamed : DescentNamed base m) {name : String}
    (hscan : scan_source source = .ok name) {n : String} {i : ℕ} {c : ClassObject}
    (hbound : BoundOnce m module_name name n i c) :
    sole_strategy_class host base m module_name = .ok (.object i) ∧
      class_name host m (.object i) = name := by
  obtain ⟨d, hone, hd, _⟩ := scan_source_ok hscan
  have hdescends : Descends base m i c.made :=
    scanned_descends himport hbase hscan (getElem?_made hbound.made) hbound.statement
  -- among the entries of the module, the candidates are that of `n`
  have hentries : ∀ entry ∈ m.globals.entries,
      is_candidate host base m module_name entry.2 = decide (entry = ⟨n, .object i⟩) := by
    intro entry hentry
    have hget : m.globals.get entry.1 = some entry.2 := AList.mem_lookup_iff.mpr hentry
    rw [Bool.eq_iff_iff, decide_eq_true_eq]
    constructor
    · intro hcandidate
      obtain ⟨j, c', hv, hc', hdescends'⟩ := candidate_cases hfresh hcandidate
      have hcounted := descends_counted himport hnamed hdescends'
      rw [hone, List.mem_singleton] at hcounted
      have hstatement : c'.made.statement = name := by
        rw [← hd, ← hcounted]
        rfl
      rw [hv] at hget
      have hn := hbound.once entry.1 j c' hget hc' hstatement
      rw [hn, hbound.denoted] at hget
      obtain ⟨k, v⟩ := entry
      simp only at hn hv hget
      rw [hn, hv, Option.some.inj hget]
    · intro heq
      rw [heq]
      exact hbound.candidate hdescends
  have hcandidates : (m.globals.entries.map Sigma.snd).filter
      (is_candidate host base m module_name) = [.object i] := by
    have hmem : (⟨n, .object i⟩ : Sigma fun _ : String => Value) ∈ m.globals.entries :=
      AList.mem_lookup_iff.mp hbound.denoted
    rw [List.filter_map]
    show (m.globals.entries.filter (fun entry =>
      is_candidate host base m module_name entry.2)).map Sigma.snd = _
    rw [List.filter_congr hentries, List.filter_eq,
      List.count_eq_one_of_mem m.globals.nodupKeys.nodup hmem]
    rfl
  constructor
  · unfold sole_strategy_class
    rw [hcandidates]
  · simp [class_name, hbound.made, hbound.class_name]

/-! ### Two files -/

/-- Outside the file: `BasePortfolio`, which is `0`, and `object`, which is `1`. -/
def engine_host : Host where
  builtins := fun _ => none
  module := fun _ => none
  member := fun module name =>
    if module = "engine.strategies.portfolio_BASE.strategy" ∧ name = "BasePortfolio" then
      some (.outside 0)
    else none
  members := fun _ => []
  object := 1
  mro := fun e => if e = 0 then [0, 1] else if e = 1 then [1] else []
  own := fun e a =>
    if e = 0 ∧ a = "__module__" then some (.text "engine.strategies.portfolio_BASE.strategy")
    else none
  getattr := fun _ _ => none
  type_attr := fun _ _ => none
  other := fun _ _ => none
  name_of := fun e => if e = 0 then "BasePortfolio" else "object"

theorem fresh_engine_host {m : Frame} {module_name : String}
    (hname : module_name ≠ "engine.strategies.portfolio_BASE.strategy")
    (hpatched : m.patched.entries = []) : ModuleFresh engine_host m module_name where
  outside := by
    intro e
    simp only [engine_host]
    split
    · simpa using hname.symm
    · simp
  kept := by
    intro e
    show List.dlookup (e, "__module__") m.patched.entries = none
    rw [hpatched]
    rfl

/-- `from engine.strategies.portfolio_BASE.strategy import BasePortfolio`. -/
def import_base : Stmt :=
  .import_from 0 "engine.strategies.portfolio_BASE.strategy" [("BasePortfolio", none)]

/-- A strategy, with a class of its own for its parameters. -/
def momentum_file : List Stmt :=
  [import_base, .class_stmt "Window" [] [],
    .class_stmt "Momentum" [.name "BasePortfolio"] [.class_stmt "Parameters" [.name "Window"] []]]

def momentum_module : Frame :=
  (import_file engine_host "mqs_user_strategy_1" momentum_file).get (by decide +kernel)

theorem loader_finds_momentum :
    sole_strategy_class engine_host 0 momentum_module "mqs_user_strategy_1" = .ok (.object 2) ∧
      class_name engine_host momentum_module (.object 2) = "Momentum" := by
  have himport : import_file engine_host "mqs_user_strategy_1" momentum_file =
      some momentum_module := (Option.some_get _).symm
  have hscan : scan_source momentum_file = .ok "Momentum" := by decide +kernel
  have hbase : BaseNamed 0 momentum_module := by
    unfold BaseNamed
    decide +kernel
  have hfresh : ModuleFresh engine_host momentum_module "mqs_user_strategy_1" :=
    fresh_engine_host (by decide) (by decide +kernel)
  have hnamed : DescentNamed 0 momentum_module := by
    have hdirect : ∀ c ∈ momentum_module.made, .outside 0 ∈ c.mro →
        ∃ b ∈ c.bases, is_base_portfolio b.1 = true := by decide +kernel
    intro i c hc
    obtain ⟨b, hb, hreads⟩ := hdirect c (List.mem_of_getElem? hc.1) hc.2
    exact ⟨b, hb, Or.inl hreads⟩
  have hbound : BoundOnce momentum_module "mqs_user_strategy_1" "Momentum" "Momentum" 2
      (momentum_module.classes.get ⟨2, by decide +kernel⟩) := by
    constructor
    · decide +kernel
    · exact List.getElem?_eq_getElem (by decide +kernel)
    · decide +kernel
    · decide +kernel
    · decide +kernel
    · have hstatement : ∀ j < momentum_module.classes.length,
          (momentum_module.classes[j]?.map (fun d => d.made.statement)) = some "Momentum" →
            j = 2 := by decide +kernel
      have honce : ∀ entry ∈ momentum_module.globals.entries, entry.2 = .object 2 →
          entry.1 = "Momentum" := by decide +kernel
      intro n j d hn hd hname
      obtain ⟨hj, _⟩ := List.getElem?_eq_some_iff.mp hd
      obtain rfl := hstatement j hj (by rw [hd, Option.map_some, hname])
      exact honce ⟨n, .object 2⟩ (AList.mem_lookup_iff.mp hn) rfl
  exact loader_finds_scanned himport hbase hfresh hnamed hscan hbound

/-- A second strategy whose base is another name for `BasePortfolio`. -/
def aliased_file : List Stmt :=
  [import_base, .assign [.name "Base"] (.name "BasePortfolio"),
    .class_stmt "Helper" [.name "Base"] [], .class_stmt "Momentum" [.name "BasePortfolio"] []]

/-- The scan reads names, and so it does not count a class whose base is an
    alias. The loader does. -/
theorem aliased_base_not_counted :
    ¬ ∀ (host : Host) (base : ℕ) (module_name : String) (source : List Stmt) (m : Frame)
      (name : String), import_file host module_name source = some m → BaseNamed base m →
        ModuleFresh host m module_name → scan_source source = .ok name →
          ∃ v, sole_strategy_class host base m module_name = .ok v ∧
            class_name host m v = name := by
  intro h
  have hsome : (import_file engine_host "mqs_user_strategy_1" aliased_file).isSome = true := by
    decide +kernel
  obtain ⟨m, himport⟩ := Option.isSome_iff_exists.mp hsome
  have hrun : ∀ m ∈ import_file engine_host "mqs_user_strategy_1" aliased_file,
      (∀ c ∈ m.made, ∀ b ∈ c.bases, is_base_portfolio b.1 = true → b.2 = .outside 0) ∧
        m.patched.entries = [] ∧ sole_strategy_class engine_host 0 m "mqs_user_strategy_1" =
          .error (.more_than_one ["Helper", "Momentum"]) := by decide +kernel
  obtain ⟨hbase, hpatched, hloader⟩ := hrun m himport
  have hscan : scan_source aliased_file = .ok "Momentum" := by decide +kernel
  obtain ⟨v, hv, _⟩ := h engine_host 0 "mqs_user_strategy_1" aliased_file m "Momentum" himport
    hbase (fresh_engine_host (by decide) hpatched) hscan
  rw [hloader] at hv
  exact absurd hv (by simp)

end Uploads
