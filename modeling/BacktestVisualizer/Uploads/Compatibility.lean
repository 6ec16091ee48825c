import BacktestVisualizer.Framework.PyRepr
import BacktestVisualizer.Framework.PyTree
import BacktestVisualizer.Uploads.StrategyScan

/-! # The Compatibility Check

  `services/strategy_validation/scanning.py` reads a file twice over. The scan
  in front of an upload raises at the first thing it refuses, and the check of
  the editor collects everything and reports it, line by line. Here both are
  told with their messages and the lines these name, on syntax trees with
  lines.

  A file that the check passes is not refused by the scan.
-/

namespace Compatibility

open PyTree Uploads

/-! ### Messages -/

/-- What the platform brings along: which characters are printed, how a name
    is written in small letters, the indicators of the engine, and the order
    a set of names is walked in. -/
structure Platform where
  printable : Char → Bool
  lower : String → String
  /-- `known_indicators()`. -/
  known_indicators : List String
  /-- `ONDATA_MISSPELLINGS`, as it is walked. -/
  misspellings : List String

variable (P : Platform)

/-- `{name!r}`. -/
def repr_name (name : String) : String := String.ofList (PyRepr.repr_str P.printable name.toList)

/-- `", ".join(sorted(names))`. -/
def join_sorted (names : List String) : String :=
  ", ".intercalate (names.insertionSort (· ≤ ·))

/-- What `_violation` says of a node it refuses. -/
def violation_message : Violation → String
  | .import_refusal module =>
      "importing " ++ repr_name P module ++
        " is not allowed. An uploaded strategy may import only: " ++
        join_sorted allowed_import_roots ++ "."
  | .relative_import =>
      "relative imports are not allowed. An uploaded strategy is a single file with no package " ++
        "around it."
  | .banned_name id =>
      repr_name P id ++ " is not allowed in an uploaded strategy. A strategy computes from the " ++
        "data it is given; it does not load code or touch files."
  | .banned_attribute name =>
      "the attribute " ++ repr_name P name ++ " is not allowed in an uploaded strategy."
  | .banned_module id name =>
      id ++ "." ++ name ++ " is not allowed. An uploaded strategy may not reach the operating " ++
        "system, the filesystem, or the network."

/-- What is told of a file without a strategy. -/
def no_subclass_tail : String :=
  " file defines no BasePortfolio subclass. A strategy is a class that inherits from " ++
    "BasePortfolio and implements OnData(self, context)."

/-- What is told of a file with several strategies. -/
def several_tail (names : List String) : String :=
  " file defines " ++ toString names.length ++ " strategies (" ++ join_sorted names ++
    "). Upload one BasePortfolio subclass per file so there is no question which one to run."

/-! ### The upload scan -/

/-- An expression as far as the scan reads it. -/
def expr_of : Node → PyModule.Expr
  | .node _ (.name id) _ => .name id
  | .node _ (.attribute attr) _ => .attr (.other 0 []) attr
  | _ => .other 0 []

/-- A node as far as `_violation` reads it. -/
def node_of : Node → Option PyModule.Node
  | .node _ (.import_module names) _ => some (.stmt (.import_module names))
  | .node _ (.import_from level module names) _ =>
      some (.stmt (.import_from level (module.getD "") names))
  | .node _ (.name id) _ => some (.expr (.name id))
  | .node line (.attribute attr) fields =>
      match (Node.node line (.attribute attr) fields).field 0 with
      | value :: _ => some (.expr (.attr (expr_of value) attr))
      | [] => some (.expr (.attr (.other 0 []) attr))
  | _ => none

/-- `_violation`. -/
def node_violation (n : Node) : Option String :=
  ((node_of n).bind violation).map (violation_message P)

/-- The name and the bases of a class statement. -/
def class_def_of : Node → Option PyModule.ClassDef
  | .node line (.class_def name) fields =>
      some ⟨name, ((Node.node line (.class_def name) fields).field 0).map expr_of⟩
  | _ => none

/-- `node.name`. -/
def class_name_of (n : Node) : String := ((class_def_of n).map PyModule.ClassDef.name).getD ""

/-- `_strategy_class_nodes`. -/
def strategy_classes (tree : List Node) : List Node :=
  let classes := (walk tree).filter (fun n => (class_def_of n).isSome)
  classes.filter (fun n => class_name_of n ∈ subclass_names (classes.filterMap class_def_of))

/-- `_sole_strategy_class_name`. -/
def sole_class_name (tree : List Node) : Except String String :=
  match (strategy_classes tree).map class_name_of with
  | [] => .error ("This" ++ no_subclass_tail)
  | [name] => .ok name
  | names => .error ("This" ++ several_tail names)

/-- `node.lineno`, and 0 for a node without. -/
def line_of (n : Node) : ℕ := n.line.getD 0

/-- `scan_source`. -/
def scan_source (tree : List Node) : Except String String :=
  match (walk tree).findSome? (fun n => (node_violation P n).map (fun message => (n, message))) with
  | some (n, message) => .error ("Line " ++ toString (line_of n) ++ ": " ++ message)
  | none => sole_class_name tree

/-! ### The contract of the engine -/

/-- A reason a file would not run, and the line that causes it. -/
structure CompatibilityIssue where
  line : ℕ
  message : String
  deriving DecidableEq, Repr

/-- Everything the check learned. -/
structure CompatibilityReport where
  compatible : Bool
  class_name : Option String
  issues : List CompatibilityIssue
  warnings : List CompatibilityIssue

/-- `ONDATA_METHOD`. -/
def ondata_method : String := "OnData"

/-- The name of a function. -/
def function_name : Node → Option String
  | .node _ (.function_def _ name) _ => some name
  | _ => none

/-- The body of a class. -/
def class_body (strategy : Node) : List Node := strategy.field 2

/-- `_method_named`. -/
def method_named (strategy : Node) (name : String) : Option Node :=
  (class_body strategy).find? (fun n => function_name n = some name)

/-- The targets of an assignment in a class. -/
def assignment_targets (n : Node) : List Node :=
  match n.kind with
  | .assign => n.field 0
  | .ann_assign => n.field 0
  | _ => []

/-- The names among some nodes. -/
def names_of (nodes : List Node) : List String :=
  nodes.filterMap (fun n => match n.kind with | .name id => some id | _ => none)

/-- `_assigns_attribute`. -/
def assigns_attribute (strategy : Node) (name : String) : Bool :=
  (class_body strategy).any (fun n => name ∈ names_of (assignment_targets n))

/-- `_has_decorator`. -/
def has_decorator (method : Node) (name : String) : Bool := name ∈ names_of (method.field 2)

/-- `len(args.posonlyargs) + len(args.args)`. -/
def positional (method : Node) : ℕ :=
  match method.field 0 with
  | arguments :: _ => (arguments.field 0).length + (arguments.field 1).length
  | [] => 0

/-- `args.vararg is None`. -/
def no_vararg (method : Node) : Bool :=
  match method.field 0 with
  | arguments :: _ => (arguments.field 2).isEmpty
  | [] => true

def is_async : Node → Bool
  | .node _ (.function_def is_async _) _ => is_async
  | _ => false

/-- `_contract_issues`. -/
def contract_issues (strategy : Node) : List CompatibilityIssue :=
  match method_named strategy ondata_method with
  | none =>
      if assigns_attribute strategy ondata_method then []
      else
        match P.misspellings.findSome? (method_named strategy) with
        | some misspelled =>
            [⟨line_of misspelled, class_name_of strategy ++ "." ++
              (function_name misspelled).getD "" ++ " should be spelled OnData. The engine " ++
              "calls that exact name, capital O and capital D."⟩]
        | none =>
            [⟨line_of strategy, class_name_of strategy ++ " does not implement OnData(self, " ++
              "context). The engine calls it once per bar; a strategy without it cannot be " ++
              "instantiated."⟩]
  | some method =>
      let required := if has_decorator method "staticmethod" then 1 else 2
      let expected := if required = 1 then "OnData(context)" else "OnData(self, context)"
      (if is_async method then
          [⟨line_of method, "OnData is declared 'async def'. The engine calls it synchronously " ++
            "inside the bar loop and would never await the coroutine it returns."⟩]
        else []) ++
        if positional method < required ∧ no_vararg method then
          [⟨line_of method, "OnData takes " ++ toString (positional method) ++
            " argument(s); the engine calls OnData(context), so it must be defined as " ++
            expected ++ "."⟩]
        else []

/-- A call of `super().__init__`. -/
def is_super_init (n : Node) : Bool :=
  n.kind = .call && (n.field 0).any (fun func =>
    func.kind = .attribute "__init__" && (func.field 0).any (fun value =>
      value.kind = .call && (value.field 0).any (fun called => called.kind = .name "super")))

/-- `_calls_super_init`. -/
def calls_super_init (initializer : Node) : Bool := (walk [initializer]).any is_super_init

/-- `_contract_warnings`. -/
def contract_warnings (strategy : Node) : List CompatibilityIssue :=
  match method_named strategy "__init__" with
  | none => []
  | some initializer =>
      if calls_super_init initializer then []
      else
        [⟨line_of initializer, class_name_of strategy ++ ".__init__ never calls " ++
          "super().__init__(...). BasePortfolio is what reads config.json and sets " ++
          "self.tickers, self.logger and the indicator machinery, so skipping it usually fails " ++
          "on the first bar."⟩]

/-! ### Indicators -/

/-- The text of a constant that is a string. -/
def text_of (n : Node) : Option String :=
  match n.kind with
  | .constant text => text
  | _ => none

/-- The strings that head the tuples among the values of a dict. -/
def tuple_heads (dict : Node) : List Node :=
  if dict.kind = .dict then
    (dict.field 1).filterMap (fun value =>
      if value.kind = .tuple then
        (value.field 0).head?.filter (fun head => (text_of head).isSome)
      else none)
  else []

/-- `_declared_indicator_nodes`. -/
def declared_indicator_nodes (strategy : Node) : List Node :=
  (class_body strategy).flatMap (fun n =>
    if "INDICATORS" ∈ names_of (assignment_targets n) then
      (n.field (if n.kind = .assign then 1 else 2)).flatMap tuple_heads
    else [])

/-- `_indicator_name_nodes`. -/
def indicator_name_nodes (n : Node) : List Node :=
  if n.kind = .call then
    match (n.field 0).map Node.kind with
    | [.attribute "AddIndicator"] =>
        ((n.field 1).head?.filter (fun first => (text_of first).isSome)).toList
    | [.attribute "RegisterIndicatorSet"] => (n.field 1).flatMap tuple_heads
    | _ => []
  else []

/-- `re.sub("(.)([A-Z][a-z]+)", r"\1_\2", name)`. -/
def split_words : ℕ → List Char → List Char
  | fuel + 1, c :: d :: cs =>
      if c ≠ '\n' ∧ 'A' ≤ d ∧ d ≤ 'Z' ∧ cs.head?.any (fun e => 'a' ≤ e ∧ e ≤ 'z') then
        c :: '_' :: d :: (cs.takeWhile (fun e => 'a' ≤ e ∧ e ≤ 'z') ++
          split_words fuel (cs.dropWhile (fun e => 'a' ≤ e ∧ e ≤ 'z')))
      else c :: split_words fuel (d :: cs)
  | _, cs => cs

/-- `re.sub("([a-z0-9])([A-Z])", r"\1_\2", name)`. -/
def split_capitals : List Char → List Char
  | c :: d :: cs =>
      if (('a' ≤ c ∧ c ≤ 'z') ∨ ('0' ≤ c ∧ c ≤ '9')) ∧ 'A' ≤ d ∧ d ≤ 'Z' then
        c :: '_' :: d :: split_capitals cs
      else c :: split_capitals (d :: cs)
  | cs => cs

/-- `_camel_to_snake`. -/
def camel_to_snake (name : String) : String :=
  P.lower (String.ofList (split_capitals (split_words name.length name.toList)))

/-- `_indicator_issues`. -/
def indicator_issues (strategy : Node) : List CompatibilityIssue :=
  if P.known_indicators.isEmpty then []
  else
    (declared_indicator_nodes strategy ++ (walk [strategy]).flatMap indicator_name_nodes).filterMap
      (fun n =>
        let name := (text_of n).getD ""
        if name ∈ P.known_indicators then none
        else some ⟨line_of n, "there is no indicator called " ++ repr_name P name ++
          ". The engine looks for engine/indicators/" ++ camel_to_snake P name ++
          ".py and finds nothing. Available: " ++ join_sorted P.known_indicators ++ "."⟩)

/-! ### The check -/

/-- The first occurrences, in their order. -/
def first_of (seen : List CompatibilityIssue) : List CompatibilityIssue → List CompatibilityIssue
  | [] => []
  | issue :: issues =>
      if issue ∈ seen then first_of seen issues
      else issue :: first_of (issue :: seen) issues

/-- `_deduplicated`. -/
def deduplicated (issues : List CompatibilityIssue) : List CompatibilityIssue :=
  (first_of [] issues).insertionSort (fun a b => a.line ≤ b.line)

/-- The refusals of the scan, all of them. -/
def violation_issues (tree : List Node) : List CompatibilityIssue :=
  (walk tree).filterMap (fun n =>
    (node_violation P n).map (fun message => ⟨line_of n, message⟩))

/-- What the check says of the classes of a file. -/
def class_issues (tree : List Node) : List CompatibilityIssue :=
  match strategy_classes tree with
  | [] => [⟨0, "this" ++ no_subclass_tail⟩]
  | [strategy] => contract_issues P strategy ++ indicator_issues P strategy
  | first :: second :: rest =>
      [⟨line_of second, "this" ++ several_tail ((first :: second :: rest).map class_name_of)⟩]

/-- `check_compatibility`, of a file that parses. -/
def check_compatibility (tree : List Node) : CompatibilityReport :=
  let issues := deduplicated (violation_issues P tree ++ class_issues P tree)
  let sole := match strategy_classes tree with
    | [strategy] => some strategy
    | _ => none
  { compatible := issues.isEmpty
    class_name := sole.map class_name_of
    issues := issues
    warnings := deduplicated (sole.map contract_warnings |>.getD []) }

/-! ### Telling the messages apart -/

/-- A message that `_violation` gives for some node. -/
def IsViolation (issue : CompatibilityIssue) : Prop :=
  ∃ n, node_violation P n = some issue.message

/-- A message about the number of strategies in a file. -/
def IsClassCount (issue : CompatibilityIssue) : Prop :=
  issue.message = "this" ++ no_subclass_tail ∨ ∃ names, issue.message = "this" ++ several_tail names

/-- The ends of the refusals. -/
def refusal_ends : List String := ["ing.", " it.", "les.", "egy.", "ork.", "xt).", "run."]

/-- A text that starts neither like what is told of the method, nor like what
    is told of an indicator. -/
def StartsApart (text : List Char) : Prop :=
  ∃ c cs, text = c :: cs ∧ c ≠ 'O' ∧ (c ≠ 't' ∨ 3 ≤ cs.length ∧ cs.take 3 ≠ ['h', 'e', 'r'])

/-- How a refusal starts and ends. -/
structure RefusalText (message : String) : Prop where
  starts : StartsApart message.toList
  ends : ∃ ending ∈ refusal_ends, ending.toList <:+ message.toList

theorem ends_append {ending last : String} (h : ending.toList <:+ last.toList) (first : String) :
    ending.toList <:+ (first ++ last).toList := by
  rw [String.toList_append]
  exact h.trans (List.suffix_append _ _)

theorem StartsApart.append {first : String} (h : StartsApart first.toList) (last : String) :
    StartsApart (first ++ last).toList := by
  obtain ⟨c, cs, hfirst, hc, hrest⟩ := h
  refine ⟨c, cs ++ last.toList, by rw [String.toList_append, hfirst, List.cons_append], hc, ?_⟩
  rcases hrest with hrest | ⟨hlength, hrest⟩
  · exact Or.inl hrest
  · refine Or.inr ⟨by rw [List.length_append]; omega, ?_⟩
    rw [List.take_append_of_le_length hlength]
    exact hrest

theorem startsApart_of_head {text : List Char} {c : Char} (h : text.head? = some c) (hO : c ≠ 'O')
    (ht : c ≠ 't') : StartsApart text := by
  cases text with
  | nil => exact absurd h (by simp)
  | cons d cs =>
    obtain rfl := Option.some.inj h
    exact ⟨d, cs, rfl, hO, Or.inl ht⟩

theorem repr_name_starts (name : String) : StartsApart (repr_name P name).toList := by
  have hhead : (repr_name P name).toList.head? = some (PyRepr.quote_of name.toList) := by
    rw [repr_name, String.toList_ofList]
    rfl
  rcases PyRepr.quote_of_quote name.toList with hquote | hquote
  · rw [hquote] at hhead
    exact startsApart_of_head hhead (by decide) (by decide)
  · rw [hquote] at hhead
    exact startsApart_of_head hhead (by decide) (by decide)

theorem import_root_text : join_sorted allowed_import_roots =
    "collections, datetime, engine, logging, math, numpy, pandas, statistics, typing" := by
  decide +kernel

/-- A module that is refused by an attribute is one of those on the list. -/
theorem banned_of_violation {n : PyModule.Node} {id name : String}
    (h : violation n = some (.banned_module id name)) : id ∈ banned_module_roots := by
  unfold violation at h
  split at h
  · obtain ⟨_, _, heq⟩ := Option.map_eq_some_iff.mp h
    exact absurd heq (by simp)
  · split at h
    · exact absurd h (by simp)
    · split at h
      · exact absurd h (by simp)
      · exact absurd h (by simp)
  · exact absurd h (by simp)
  · exact absurd h (by simp)
  · split at h
    · exact absurd h (by simp)
    · exact absurd h (by simp)
  · split at h
    · exact absurd h (by simp)
    · split at h
      · split at h
        · rename_i hmem
          obtain ⟨rfl, _⟩ := Violation.banned_module.inj (Option.some.inj h)
          exact hmem
        · exact absurd h (by simp)
      · exact absurd h (by simp)
  · exact absurd h (by simp)

theorem violation_text {n : PyModule.Node} {v : Violation} (h : violation n = some v) :
    RefusalText (violation_message P v) := by
  cases v with
  | import_refusal module =>
    have hstart : StartsApart "importing ".toList :=
      startsApart_of_head (c := 'i') (by decide) (by decide) (by decide)
    have hend : "ing.".toList <:+ (join_sorted allowed_import_roots ++ ".").toList := by
      rw [import_root_text]
      decide +kernel
    constructor
    · exact (((hstart.append _).append _).append _).append _
    · have htext := ends_append hend ("importing " ++ repr_name P module ++
        " is not allowed. An uploaded strategy may import only: ")
      rw [← String.append_assoc] at htext
      exact ⟨"ing.", by decide, htext⟩
  | relative_import =>
    have hstart : StartsApart ("relative imports are not allowed. An uploaded strategy is a " ++
        "single file with no package ").toList :=
      startsApart_of_head (c := 'r') (by decide +kernel) (by decide) (by decide)
    exact ⟨hstart.append "around it.", " it.", by decide, ends_append (by decide) _⟩
  | banned_name id =>
    constructor
    · exact ((repr_name_starts P id).append _).append _
    · exact ⟨"les.", by decide, ends_append (by decide) _⟩
  | banned_attribute name =>
    have hstart : StartsApart "the attribute ".toList :=
      ⟨'t', "he attribute ".toList, by decide, by decide, Or.inr (by decide)⟩
    constructor
    · exact (hstart.append _).append _
    · exact ⟨"egy.", by decide, ends_append (by decide) _⟩
  | banned_module id name =>
    have hall : ∀ id ∈ banned_module_roots,
        id.toList.head?.any (fun c => c ≠ 'O' ∧ c ≠ 't') = true := by
      decide +kernel
    have hstart : StartsApart id.toList := by
      have hhead := hall id (banned_of_violation h)
      cases hlist : id.toList with
      | nil => exact absurd hhead (by simp [hlist])
      | cons c cs =>
        rw [hlist] at hhead
        obtain ⟨hO, ht⟩ : c ≠ 'O' ∧ c ≠ 't' := by simpa using hhead
        exact startsApart_of_head rfl hO ht
    constructor
    · exact (((hstart.append _).append _).append _).append _
    · exact ⟨"ork.", by decide, ends_append (by decide) _⟩

theorem refusal_of_violation {issue : CompatibilityIssue} (h : IsViolation P issue) :
    RefusalText issue.message := by
  obtain ⟨n, hn⟩ := h
  obtain ⟨v, hv, hmessage⟩ := Option.map_eq_some_iff.mp hn
  obtain ⟨m, _, hm⟩ := Option.bind_eq_some_iff.mp hv
  rw [← hmessage]
  exact violation_text P hm

theorem refusal_of_class_count {issue : CompatibilityIssue} (h : IsClassCount issue) :
    RefusalText issue.message := by
  have hstart : StartsApart "this".toList := ⟨'t', ['h', 'i', 's'], by decide, by decide,
    Or.inr (by decide)⟩
  rcases h with h | ⟨names, h⟩
  · rw [h]
    exact ⟨hstart.append _, "xt).", by decide, ends_append (ends_append (by decide) _) _⟩
  · rw [h]
    exact ⟨hstart.append _, "run.", by decide, ends_append (ends_append (by decide +kernel) _) _⟩

/-- Two ends of one text are the same, if they are of one length. -/
theorem end_unique {a b : String} {text : List Char} (ha : a.toList <:+ text)
    (hb : b.toList <:+ text) (hlength : a.toList.length = b.toList.length) : a = b := by
  have hsame := (List.suffix_of_suffix_length_le ha hb (le_of_eq hlength)).eq_of_length hlength
  exact String.toList_injective hsame

theorem eq_of_mem_ite {α : Type} {p : Prop} [Decidable p] {a b : α}
    (h : a ∈ if p then [b] else []) : a = b := by
  split at h
  · exact List.mem_singleton.mp h
  · exact absurd h List.not_mem_nil

/-- A text about the method starts like none of the refusals. -/
theorem not_refusal_of_ondata {text : String} (h : ∃ rest, text = "OnData" ++ rest) :
    ¬ RefusalText text := by
  obtain ⟨rest, rfl⟩ := h
  intro hrefusal
  obtain ⟨c, cs, heq, hO, _⟩ := hrefusal.starts
  have hhead : ("OnData" ++ rest).toList = 'O' :: (['n', 'D', 'a', 't', 'a'] ++ rest.toList) := by
    rw [String.toList_append]
    rfl
  rw [hhead] at heq
  exact hO (List.cons.inj heq).1.symm

/-- A text about an indicator starts like none of them. -/
theorem not_refusal_of_indicator {text : String}
    (h : ∃ rest, text = "there is no indicator called " ++ rest) : ¬ RefusalText text := by
  obtain ⟨rest, rfl⟩ := h
  intro hrefusal
  obtain ⟨c, cs, heq, _, hstart⟩ := hrefusal.starts
  have hhead : ("there is no indicator called " ++ rest).toList =
      't' :: ("here is no indicator called ".toList ++ rest.toList) := by
    rw [String.toList_append]
    rfl
  rw [hhead] at heq
  obtain ⟨rfl, rfl⟩ := List.cons.inj heq
  rcases hstart with hstart | ⟨_, hstart⟩
  · exact hstart rfl
  · rw [List.take_append_of_le_length (by decide)] at hstart
    exact hstart (by decide)

/-- A text with another end than the refusals have. -/
theorem not_refusal_of_end {text ending : String} (h : ending.toList <:+ text.toList)
    (hlength : ending.toList.length = 4) (hother : ending ∉ refusal_ends) : ¬ RefusalText text := by
  intro hrefusal
  obtain ⟨other, hmem, hend⟩ := hrefusal.ends
  have hfour : ∀ e ∈ refusal_ends, e.toList.length = 4 := by decide
  have hsame : ending = other := end_unique h hend (by rw [hlength, hfour other hmem])
  rw [hsame] at hother
  exact hother hmem

theorem not_refusal_contract {strategy : Node} {issue : CompatibilityIssue}
    (h : issue ∈ contract_issues P strategy) : ¬ RefusalText issue.message := by
  unfold contract_issues at h
  split at h
  · split at h
    · exact absurd h List.not_mem_nil
    split at h
    · rw [List.mem_singleton.mp h]
      have hend : "l D.".toList <:+ "calls that exact name, capital O and capital D.".toList := by
        decide
      exact not_refusal_of_end (ends_append hend _) (by decide) (by decide)
    · rw [List.mem_singleton.mp h]
      have hend : "ted.".toList <:+ "instantiated.".toList := by decide
      exact not_refusal_of_end (ends_append hend _) (by decide) (by decide)
  · have htakes : "OnData takes " = "OnData" ++ " takes " := by decide
    have hdeclared : "OnData is declared 'async def'. The engine calls it synchronously " =
        "OnData" ++ " is declared 'async def'. The engine calls it synchronously " := by
      decide +kernel
    rcases List.mem_append.mp h with h | h
    · rw [eq_of_mem_ite h]
      apply not_refusal_of_ondata
      rw [hdeclared, String.append_assoc]
      exact ⟨_, rfl⟩
    · rw [eq_of_mem_ite h]
      apply not_refusal_of_ondata
      rw [htakes, String.append_assoc, String.append_assoc, String.append_assoc,
        String.append_assoc]
      exact ⟨_, rfl⟩

theorem not_refusal_indicator {strategy : Node} {issue : CompatibilityIssue}
    (h : issue ∈ indicator_issues P strategy) : ¬ RefusalText issue.message := by
  unfold indicator_issues at h
  split at h
  · exact absurd h List.not_mem_nil
  · obtain ⟨n, _, hn⟩ := List.mem_filterMap.mp h
    simp only at hn
    split at hn
    · exact absurd hn (by simp)
    · rw [← Option.some.inj hn]
      apply not_refusal_of_indicator
      simp only [String.append_assoc]
      exact ⟨_, rfl⟩

/-! ### What a report keeps -/

theorem mem_first_of {seen issues : List CompatibilityIssue} {issue : CompatibilityIssue} :
    issue ∈ first_of seen issues ↔ issue ∈ issues ∧ issue ∉ seen := by
  induction issues generalizing seen with
  | nil => simp [first_of]
  | cons first issues ih =>
    rw [first_of]
    split
    · rename_i hseen
      rw [ih, List.mem_cons]
      constructor
      · exact fun h => ⟨Or.inr h.1, h.2⟩
      · intro ⟨h, hout⟩
        rcases h with rfl | h
        · exact absurd hseen hout
        · exact ⟨h, hout⟩
    · rename_i hout
      rw [List.mem_cons, List.mem_cons, ih, List.mem_cons]
      constructor
      · intro h
        rcases h with rfl | ⟨h, hnot⟩
        · exact ⟨Or.inl rfl, hout⟩
        · exact ⟨Or.inr h, fun hmem => hnot (Or.inr hmem)⟩
      · intro ⟨h, hnot⟩
        by_cases hfirst : issue = first
        · exact Or.inl hfirst
        · refine Or.inr ⟨h.resolve_left hfirst, ?_⟩
          intro hmem
          rcases hmem with hmem | hmem
          · exact hfirst hmem
          · exact hnot hmem

theorem nodup_first_of (seen issues : List CompatibilityIssue) : (first_of seen issues).Nodup := by
  induction issues generalizing seen with
  | nil => exact List.nodup_nil
  | cons first issues ih =>
    rw [first_of]
    split
    · exact ih seen
    · refine List.nodup_cons.mpr ⟨?_, ih _⟩
      intro hmem
      exact (mem_first_of.mp hmem).2 List.mem_cons_self

/-- **Nothing is lost**: a report has the issues that were collected. -/
theorem mem_deduplicated {issues : List CompatibilityIssue} {issue : CompatibilityIssue} :
    issue ∈ deduplicated issues ↔ issue ∈ issues := by
  unfold deduplicated
  rw [List.mem_insertionSort, mem_first_of]
  simp

theorem nodup_deduplicated (issues : List CompatibilityIssue) : (deduplicated issues).Nodup :=
  (List.perm_insertionSort _ _).nodup_iff.mpr (nodup_first_of [] issues)

theorem sorted_deduplicated (issues : List CompatibilityIssue) :
    (deduplicated issues).Pairwise (fun a b => a.line ≤ b.line) := by
  have htotal : Std.Total (fun a b : CompatibilityIssue => a.line ≤ b.line) :=
    ⟨fun a b => Nat.le_total a.line b.line⟩
  have htrans : IsTrans CompatibilityIssue (fun a b => a.line ≤ b.line) :=
    ⟨fun a b c hab hbc => Nat.le_trans hab hbc⟩
  exact List.pairwise_insertionSort _ _

/-! ### The check and the scan -/

theorem mem_violation_issues {tree : List Node} {issue : CompatibilityIssue} :
    issue ∈ violation_issues P tree ↔
      ∃ n ∈ walk tree, node_violation P n = some issue.message ∧ line_of n = issue.line := by
  unfold violation_issues
  rw [List.mem_filterMap]
  constructor
  · intro ⟨n, hn, h⟩
    obtain ⟨message, hmessage, rfl⟩ := Option.map_eq_some_iff.mp h
    exact ⟨n, hn, hmessage, rfl⟩
  · intro ⟨n, hn, hmessage, hline⟩
    refine ⟨n, hn, ?_⟩
    rw [hmessage, Option.map_some, hline]

/-- What the scan comes to. -/
theorem scan_source_ok {tree : List Node} {name : String} :
    scan_source P tree = .ok name ↔
      (∀ n ∈ walk tree, node_violation P n = none) ∧
        ∃ strategy, strategy_classes tree = [strategy] ∧ class_name_of strategy = name := by
  unfold scan_source
  constructor
  · intro h
    split at h
    · exact absurd h (by simp)
    · rename_i hnone
      refine ⟨?_, ?_⟩
      · intro n hn
        have hn := List.findSome?_eq_none_iff.mp hnone n hn
        simpa using hn
      · unfold sole_class_name at h
        split at h
        · exact absurd h (by simp)
        · rename_i hnames
          obtain ⟨strategy, hone, hname⟩ := List.map_eq_singleton_iff.mp hnames
          exact ⟨strategy, hone, hname.trans (Except.ok.inj h)⟩
        · exact absurd h (by simp)
  · intro ⟨hnone, strategy, hone, hname⟩
    have hfind : (walk tree).findSome?
        (fun n => (node_violation P n).map (fun message => (n, message))) = none := by
      rw [List.findSome?_eq_none_iff]
      intro n hn
      rw [hnone n hn]
      rfl
    rw [hfind]
    show sole_class_name tree = .ok name
    unfold sole_class_name
    rw [hone, ← hname]
    rfl

/-- The issues of one strategy are no refusals; any other number of them is
    refused. -/
theorem class_issues_cases (tree : List Node) :
    (∃ strategy, strategy_classes tree = [strategy] ∧
      ∀ issue ∈ class_issues P tree, ¬ RefusalText issue.message) ∨
    (∀ strategy, strategy_classes tree ≠ [strategy]) ∧
      ∃ issue ∈ class_issues P tree, IsClassCount issue := by
  unfold class_issues
  cases hclasses : strategy_classes tree with
  | nil => exact Or.inr ⟨by simp, _, List.mem_singleton_self _, Or.inl rfl⟩
  | cons first rest =>
    cases rest with
    | nil =>
      refine Or.inl ⟨first, rfl, ?_⟩
      intro issue hissue
      rcases List.mem_append.mp hissue with hissue | hissue
      · exact not_refusal_contract P hissue
      · exact not_refusal_indicator P hissue
    | cons second rest =>
      exact Or.inr ⟨by simp, _, List.mem_singleton_self _, Or.inr ⟨_, rfl⟩⟩

/-- **The check tells what the scan refuses**: the scan accepts a file if and
    only if no issue of the check is a refusal or counts the strategies. -/
theorem scan_source_iff (tree : List Node) :
    (∃ name, scan_source P tree = .ok name) ↔
      ∀ issue ∈ (check_compatibility P tree).issues, ¬ IsViolation P issue ∧ ¬ IsClassCount issue := by
  have hissues : ∀ issue, issue ∈ (check_compatibility P tree).issues ↔
      issue ∈ violation_issues P tree ∨ issue ∈ class_issues P tree := by
    intro issue
    show issue ∈ deduplicated _ ↔ _
    rw [mem_deduplicated, List.mem_append]
  constructor
  · intro ⟨name, h⟩ issue hissue
    obtain ⟨hnone, strategy, hone, _⟩ := (scan_source_ok P).mp h
    rcases (hissues issue).mp hissue with hissue | hissue
    · obtain ⟨n, hn, hmessage, _⟩ := (mem_violation_issues P).mp hissue
      rw [hnone n hn] at hmessage
      exact absurd hmessage (by simp)
    · rcases class_issues_cases P tree with ⟨_, _, hclean⟩ | ⟨hother, _⟩
      · exact ⟨fun hv => hclean issue hissue (refusal_of_violation P hv),
          fun hc => hclean issue hissue (refusal_of_class_count hc)⟩
      · exact absurd hone (hother strategy)
  · intro h
    rcases class_issues_cases P tree with ⟨strategy, hone, _⟩ | ⟨_, issue, hissue, hcount⟩
    · refine ⟨class_name_of strategy, (scan_source_ok P).mpr ⟨?_, strategy, hone, rfl⟩⟩
      intro n hn
      cases hmessage : node_violation P n with
      | none => rfl
      | some message =>
        -- the refusal would be an issue
        have hissue : ⟨line_of n, message⟩ ∈ violation_issues P tree :=
          (mem_violation_issues P).mpr ⟨n, hn, hmessage, rfl⟩
        exact absurd ⟨n, hmessage⟩ (h _ ((hissues _).mpr (Or.inl hissue))).1
    · exact absurd hcount (h issue ((hissues issue).mpr (Or.inr hissue))).2

/-- **The check never passes what the upload refuses**, and tells all of what
    it refuses, in the order of the lines. -/
theorem check_compatibility_refines (tree : List Node) :
    ((∃ name, scan_source P tree = .ok name) ↔
      ∀ issue ∈ (check_compatibility P tree).issues,
        ¬ IsViolation P issue ∧ ¬ IsClassCount issue) ∧
    ((check_compatibility P tree).compatible = true →
      ∃ name, scan_source P tree = .ok name ∧
        (check_compatibility P tree).class_name = some name) ∧
    (∀ n, InTree tree n → ∀ message, node_violation P n = some message →
      ⟨line_of n, message⟩ ∈ (check_compatibility P tree).issues) ∧
    (check_compatibility P tree).issues.Pairwise (fun a b => a.line ≤ b.line) ∧
    (check_compatibility P tree).issues.Nodup := by
  refine ⟨scan_source_iff P tree, ?_, ?_, sorted_deduplicated _, nodup_deduplicated _⟩
  · intro hcompatible
    have hnil : (check_compatibility P tree).issues = [] := List.isEmpty_iff.mp hcompatible
    obtain ⟨name, h⟩ := (scan_source_iff P tree).mpr (by rw [hnil]; simp)
    obtain ⟨_, strategy, hone, hname⟩ := (scan_source_ok P).mp h
    refine ⟨name, h, ?_⟩
    simp only [check_compatibility, hone, Option.map_some, hname]
  · intro n hn message hmessage
    show _ ∈ deduplicated _
    rw [mem_deduplicated, List.mem_append]
    exact Or.inl ((mem_violation_issues P).mpr ⟨n, mem_walk.mpr hn, hmessage, rfl⟩)

end Compatibility
