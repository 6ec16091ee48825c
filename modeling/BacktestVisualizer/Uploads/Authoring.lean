import BacktestVisualizer.Framework.Fallible
import BacktestVisualizer.Framework.PyRepr
import BacktestVisualizer.Framework.Text

/-! # Strategies Written as a Fragment

  `services/strategy_validation/authoring.py` makes a file out of the body of
  one method, which a member types, and of what is to be registered for it.
  The body is indented into the method and the file around it is generated.
  A check of the syntax tree is to catch a body that is not all inside of the
  method.

  A fragment stays inside if the docstring does not swallow the quotes behind
  it and no line of the fragment has its indentation taken back by a form
  feed. The check does not see all that gets out otherwise.
-/

namespace Authoring

open PySource PyRepr

/-! ### Drafts -/

/-- `GENERATED_CLASS_NAME`. -/
def generated_class_name : List Char := "MyStrategy".toList

/-- `BASE_CLASS_NAME`. -/
def base_class_name : List Char := "BasePortfolio".toList

/-- The one method of a file that is made. -/
def on_data : List Char := "OnData".toList

/-- An indicator to register: the attribute, the class, its parameters. -/
structure IndicatorSpec where
  attr : List Char
  indicator : List Char
  params : List (List Char × Json)

/-- What a member wrote. -/
structure StrategyDraft where
  body : List Char
  indicators : List IndicatorSpec := []
  state : Option (List (List Char × Json)) := none
  docstring : List Char := "One sentence on what edge this is trying to capture.".toList

/-- A complete file, and where the fragment is in it. -/
structure Assembled where
  source : List Char
  /-- The line of the source that has the fragment's first one. -/
  body_offset : ℕ
  body_lines : ℕ

/-- `ScaffoldEscape`, by what it says. -/
inductive ScaffoldEscape where
  /-- "indicator {field} {value!r} is not a Python identifier.". -/
  | not_an_identifier (field : String) (value : List Char)
  /-- "two indicators share the attribute ...". -/
  | shared_attribute (attr : List Char)
  /-- "the body defines something outside the strategy class.". -/
  | outside_the_class
  /-- "the body replaced the generated strategy class.". -/
  | replaced_the_class
  /-- "the body added or removed a method on the class.". -/
  | methods_changed
  /-- "the body extends past the method it was written in.". -/
  | past_the_method
  deriving DecidableEq, Repr

/-! ### The generated text -/

/-- `_IDENTIFIER.match`. The `$` also matches in front of a last newline. -/
def is_identifier (value : List Char) : Bool :=
  match if value.getLast? = some '\n' then value.dropLast else value with
  | [] => false
  | c :: cs => (c.isAlpha || c = '_') && cs.all (fun c => c.isAlphanum || c = '_')

/-- What the loop over the indicators checks, with the attributes `seen`. -/
def check_indicators : List (List Char) → List IndicatorSpec → Except ScaffoldEscape Unit
  | _, [] => .ok ()
  | seen, spec :: indicators =>
      if is_identifier spec.attr = false then
        .error (.not_an_identifier "attribute" spec.attr)
      else if is_identifier spec.indicator = false then
        .error (.not_an_identifier "indicator" spec.indicator)
      else if spec.attr ∈ seen then .error (.shared_attribute spec.attr)
      else check_indicators (spec.attr :: seen) indicators

variable (printable : Char → Bool)

/-- One entry of the rendered `INDICATORS`. -/
def render_indicator (spec : IndicatorSpec) : List Char :=
  "\n        \"".toList ++ spec.attr ++ "\": (\"".toList ++ spec.indicator ++
    "\", ".toList ++ repr_dict printable spec.params ++ "),".toList

/-- `_render_indicators`. -/
def render_indicators (indicators : List IndicatorSpec) : Except ScaffoldEscape (List Char) :=
  if indicators = [] then .ok []
  else
    (check_indicators [] indicators).map (fun _ =>
      (indicators.insertionSort (fun a b => a.attr ≤ b.attr)).flatMap
        (render_indicator printable) ++ "\n    ".toList)

/-- `not line.strip()`. -/
def is_blank (line : List Char) : Bool := line.all Text.is_space

/-- `text.replace("\t", "    ")`. -/
def expand_tabs (text : List Char) : List Char :=
  text.flatMap (fun c => if c = '\t' then [' ', ' ', ' ', ' '] else [c])

/-- `text.split("\n")`. -/
def split_lines : List Char → List (List Char)
  | [] => [[]]
  | c :: cs =>
      if c = '\n' then [] :: split_lines cs
      else
        match split_lines cs with
        | [] => [[c]]
        | line :: lines => (c :: line) :: lines

/-- `_normalise`. -/
def normalise (body : List Char) : List (List Char) :=
  let lines := split_lines (expand_tabs (translate_newlines body))
  let kept := (lines.reverse.dropWhile is_blank).reverse
  if kept = [] then ["pass".toList] else kept

/-- `docstring.replace('"""', "'''")`. -/
def replace_quotes : List Char → List Char
  | '"' :: '"' :: '"' :: cs => '\'' :: '\'' :: '\'' :: replace_quotes cs
  | c :: cs => c :: replace_quotes cs
  | [] => []

/-- The first lines of `_PRELUDE`, up to the quotes of the docstring. -/
def prelude_head : List Char :=
  "from engine.strategies.order_interface import StrategyContext\n".toList ++
    "from engine.strategies.portfolio_BASE.strategy import BasePortfolio\n\n\n".toList ++
    "class MyStrategy(BasePortfolio):\n    ".toList

def def_line : List Char := "def OnData(self, context: StrategyContext):".toList

/-- `_PRELUDE.format(...)`. -/
def render_prelude (docstring indicators state : List Char) : List Char :=
  prelude_head ++ ("\"\"\"".toList ++ docstring ++ "\"\"\"".toList) ++
    "\n\n    INDICATORS = \x7b".toList ++ indicators ++ "\x7d\n\n    STATE = ".toList ++ state ++
    "\n\n    ".toList ++ def_line ++ ['\n']

/-- Blank lines stay blank. -/
def indent (line : List Char) : List Char :=
  if is_blank line then [] else List.replicate 8 ' ' ++ line

/-- The lines of the fragment as they stand in the file. -/
def fragment (draft : StrategyDraft) : List Char :=
  ((normalise draft.body).map (fun line => indent line ++ ['\n'])).flatten

/-- `repr(dict(draft.state or {}))`. -/
def render_state (draft : StrategyDraft) : List Char :=
  repr_dict printable (draft.state.getD [])

/-- `assemble`. -/
def assemble (draft : StrategyDraft) : Except ScaffoldEscape Assembled :=
  (render_indicators printable draft.indicators).map (fun indicators =>
    let before := render_prelude (replace_quotes draft.docstring) indicators
      (render_state printable draft)
    { source := before ++ fragment draft
      body_offset := newlines before + 1
      body_lines := (normalise draft.body).length })

/-! ### The check of the tree -/

def is_import : Stmt → Bool
  | .simple _ .import_module _ => true
  | .simple _ (.import_from _ _) _ => true
  | _ => false

/-- The name of a method and its body. -/
def method : Stmt → Option (List Char × List Stmt)
  | .compound _ (.function_def name) _ body _ => some (name, body)
  | .compound _ (.async_function_def name) _ body _ => some (name, body)
  | _ => none

/-- What `_assert_shape` asks of the tree of an assembled file. -/
def check_shape (assembled : Assembled) (tree : List Stmt) : Except ScaffoldEscape Unit :=
  match tree.filter (fun s => !is_import s) with
  | [.compound _ (.class_def name bases) _ body _] =>
      if name ≠ generated_class_name ∨ some base_class_name ∉ bases then .error .replaced_the_class
      else
        match body.filterMap method with
        | [(name, inner)] =>
            if name ≠ on_data then .error .methods_changed
            else if (block_lines inner).all (fun line => assembled.body_offset ≤ line &&
                line < assembled.body_offset + assembled.body_lines) then .ok ()
            else .error .past_the_method
        | _ => .error .methods_changed
  | _ => .error .outside_the_class

variable (F : FStrings) (G : Grammar)

/-- `_assert_shape`. A syntax error is told by the check that comes after. -/
def assert_shape (assembled : Assembled) : Except ScaffoldEscape Unit :=
  match parse F G assembled.source with
  | none => .ok ()
  | some tree => check_shape assembled tree

/-- `assemble_checked`. -/
def assemble_checked (draft : StrategyDraft) : Except ScaffoldEscape Assembled :=
  (assemble printable draft).bind (fun assembled =>
    (assert_shape F G assembled).map (fun _ => assembled))

/-! ### Where the scaffold stands -/

/-- The docstring as it stands in the file. -/
def docstring_text (draft : StrategyDraft) : List Char :=
  translate_newlines (replace_quotes draft.docstring)

/-- Whether the quotes behind a docstring close it: the last of the
    backslashes at its end does not escape them. -/
def closes (docstring : List Char) : Bool := !escaped_after false docstring

def indicators_line (draft : StrategyDraft) : ℕ := 8 + newlines (docstring_text draft)

def state_line (draft : StrategyDraft) : ℕ :=
  indicators_line draft + (if draft.indicators = [] then 0 else draft.indicators.length + 1) + 2

def method_line (draft : StrategyDraft) : ℕ := state_line draft + 2

def fragment_line (draft : StrategyDraft) : ℕ := method_line draft + 1

/-- A line of the file that has a line of the fragment. -/
def OnFragment (draft : StrategyDraft) (line : ℕ) : Prop :=
  fragment_line draft ≤ line ∧ line < fragment_line draft + (normalise draft.body).length

variable (F : FStrings)

/-- The logical lines of the fragment. -/
def fragment_lines (draft : StrategyDraft) : Option (List LogicalLine) :=
  logical_lines (fragment_line draft) (Place.start : Place F) (fragment draft)

/-- The generated statements, with `body` for the body of the method. -/
def Scaffold (draft : StrategyDraft) (body : List Stmt) (tree : List Stmt) : Prop :=
  ∃ context_nodes base_nodes class_nodes docstring_nodes indicators_nodes state_nodes method_nodes,
    tree =
      [ .simple 1 (.import_from "engine.strategies.order_interface".toList
          ["StrategyContext".toList]) context_nodes,
        .simple 2 (.import_from "engine.strategies.portfolio_BASE.strategy".toList
          [base_class_name]) base_nodes,
        .compound 5 (.class_def generated_class_name [some base_class_name]) class_nodes
          [ .simple 6 .string docstring_nodes,
            .simple (indicators_line draft) (.assign "INDICATORS".toList) indicators_nodes,
            .simple (state_line draft) (.assign "STATE".toList) state_nodes,
            .compound (method_line draft) (.function_def on_data) method_nodes body [] ]
          [] ]

/-- The statements of a file are the generated ones and those of a body, and
    what starts on a line of the fragment is in the body. -/
def Confined (draft : StrategyDraft) (tree : List Stmt) : Prop :=
  ∃ body, Scaffold draft body tree ∧
    ∀ s ∈ block_statements tree, OnFragment draft s.line → s ∈ block_statements body

def context_line : List Char :=
  "from engine.strategies.order_interface import StrategyContext".toList

def base_line : List Char :=
  "from engine.strategies.portfolio_BASE.strategy import BasePortfolio".toList

def class_line : List Char := "class MyStrategy(BasePortfolio):".toList

/-- What the grammar of Python says of the generated lines. -/
structure ReadsScaffold (G : Grammar) : Prop where
  context : ∃ nodes, G.statement context_line =
    some (.simple (.import_from "engine.strategies.order_interface".toList
      ["StrategyContext".toList]) nodes [])
  base : ∃ nodes, G.statement base_line =
    some (.simple (.import_from "engine.strategies.portfolio_BASE.strategy".toList
      [base_class_name]) nodes [])
  class_head : ∃ nodes, G.statement class_line =
    some (.head (.class_def generated_class_name [some base_class_name]) nodes [])
  method_head : ∃ nodes, G.statement def_line =
    some (.head (.function_def on_data) nodes [])
  strings : ReadsStrings F G
  displays : ReadsDisplays F G

/-! ### The text of a file -/

theorem not_return_of_inLine {cs : List Char} (h : ∀ c ∈ cs, InLine c) : ∀ c ∈ cs, c ≠ '\r' :=
  fun c hc => (h c hc).2

/-- A docstring that was written into the file has no three quotes in a row. -/
theorem calm_replace_quotes (cs : List Char) :
    calm 0 (replace_quotes cs) = true ∧
      ((∀ rest, cs ≠ '"' :: '"' :: rest) → calm 1 (replace_quotes cs) = true) ∧
      ((∀ rest, cs ≠ '"' :: rest) → calm 2 (replace_quotes cs) = true) := by
  fun_induction replace_quotes cs with
  | case1 cs ih =>
    refine ⟨by simpa [calm] using ih.1, ?_, ?_⟩
    · exact fun h => absurd rfl (h _)
    · exact fun h => absurd rfl (h _)
  | case2 c cs hne ih =>
    have hquote : c = '"' → ∀ rest, cs ≠ '"' :: '"' :: rest :=
      fun hc rest hcs => hne rest hc hcs
    refine ⟨?_, ?_, ?_⟩
    · rw [calm]
      split
      · rename_i hc
        simpa using ih.2.1 (hquote hc)
      · exact ih.1
    · intro htwo
      rw [calm]
      split
      · rename_i hc
        have hone : ∀ rest, cs ≠ '"' :: rest := fun rest hcs => htwo rest (by rw [hc, hcs])
        simpa using ih.2.2 hone
      · exact ih.1
    · intro hone
      rw [calm, if_neg (fun hc => hone cs (by rw [hc]))]
      exact ih.1
  | case3 => exact ⟨rfl, fun _ => rfl, fun _ => rfl⟩

theorem escaped_after_replace_quotes (e : Bool) (cs : List Char) :
    escaped_after e (replace_quotes cs) = escaped_after e cs := by
  fun_induction replace_quotes cs generalizing e with
  | case1 cs ih => simpa [escaped_after] using ih false
  | case2 c cs hne ih => exact ih _
  | case3 => rfl

/-- How the tokenizer reads a docstring: it stays in it, behind an open escape
    or not. -/
theorem read_docstring (draft : StrategyDraft) :
    ∃ k, k ≤ 2 ∧ (Mode.triple '"' 0 false [] : Mode F).read (docstring_text draft) =
      some (.triple '"' k (!closes draft.docstring) []) := by
  have hcalm := calm_translate_newlines (calm_replace_quotes draft.docstring).1
  obtain ⟨k, hk, hread⟩ := triple_read_calm (F := F) hcalm (le_refl 0) (by omega) false []
  refine ⟨k, hk, ?_⟩
  rw [escaped_after_translate_newlines, escaped_after_replace_quotes] at hread
  rw [closes, Bool.not_not]
  exact hread


theorem check_indicators_ok {seen : List (List Char)} {indicators : List IndicatorSpec}
    (h : check_indicators seen indicators = .ok ()) :
    ∀ spec ∈ indicators, is_identifier spec.attr = true ∧ is_identifier spec.indicator = true := by
  induction indicators generalizing seen with
  | nil => exact fun spec hspec => absurd hspec List.not_mem_nil
  | cons first indicators ih =>
    rw [check_indicators] at h
    split at h
    · exact absurd h (by simp)
    rename_i hattr
    split at h
    · exact absurd h (by simp)
    rename_i hindicator
    split at h
    · exact absurd h (by simp)
    exact List.forall_mem_cons.mpr ⟨⟨by simpa using hattr, by simpa using hindicator⟩, ih h⟩

/-- A name that the pattern matches is one, but for a newline behind it. -/
theorem is_identifier_cases {value : List Char} (h : is_identifier value = true) :
    ∃ name, name ≠ [] ∧ (∀ c ∈ name, is_word c = true) ∧ (value = name ∨ value = name ++ ['\n']) := by
  have hword : ∀ name : List Char, (match name with
      | [] => false
      | c :: cs => (c.isAlpha || c = '_') && cs.all (fun c => c.isAlphanum || c = '_')) = true →
      name ≠ [] ∧ ∀ c ∈ name, is_word c = true := by
    intro name hname
    cases name with
    | nil => exact absurd hname (by simp)
    | cons c cs =>
      simp only [Bool.and_eq_true, Bool.or_eq_true, decide_eq_true_eq, List.all_eq_true] at hname
      refine ⟨List.cons_ne_nil _ _, List.forall_mem_cons.mpr ⟨?_, ?_⟩⟩
      · rcases hname.1 with hc | hc
        · simp [is_word, Char.isAlphanum, hc]
        · simp [is_word, hc]
      · intro d hd
        rcases hname.2 d hd with hc | hc
        · simp [is_word, hc]
        · simp [is_word, hc]
  unfold is_identifier at h
  split at h
  · exact absurd h (by simp)
  · rename_i c cs heq
    obtain ⟨hsome, hall⟩ := hword (c :: cs) h
    refine ⟨c :: cs, hsome, hall, ?_⟩
    split at heq
    · rename_i hlast
      apply Or.inr
      rw [← heq]
      exact (List.dropLast_append_getLast? _ hlast).symm
    · exact Or.inl heq

/-- A name in quotes. -/
theorem read_name {name : List Char} (hsome : name ≠ []) (h : ∀ c ∈ name, is_word c = true)
    (depth rest : List Char) :
    (Mode.code [] depth : Mode F).read ('"' :: (name ++ rest)) =
      (Mode.single '"' false depth : Mode F).read rest := by
  have hplain : ∀ c ∈ name, Plain '"' c := by
    intro c hc
    have hne : ∀ d, is_word d = false → c ≠ d := by
      intro d hd heq
      rw [← heq, h c hc] at hd
      exact absurd hd (by simp)
    exact ⟨hne _ rfl, hne _ rfl, hne _ rfl⟩
  cases name with
  | nil => exact absurd rfl hsome
  | cons c cs =>
    rw [List.cons_append, read_opened (Or.inr rfl) (hplain c List.mem_cons_self).1,
      ← List.cons_append, Mode.read_append, single_read_plain hplain]
    rfl

/-- No newline in the names. -/
def Clean (spec : IndicatorSpec) : Prop := '\n' ∉ spec.attr ∧ '\n' ∉ spec.indicator

/-- The names of a clean entry. -/
theorem clean_name {value : List Char} (h : is_identifier value = true) (hclean : '\n' ∉ value) :
    value ≠ [] ∧ ∀ c ∈ value, is_word c = true := by
  obtain ⟨name, hsome, hword, rfl | rfl⟩ := is_identifier_cases h
  · exact ⟨hsome, hword⟩
  · exact absurd (List.mem_append_right _ (List.mem_singleton_self _)) hclean

variable {F} in
theorem read_glue (d : Char) (ds : List Char) :
    (Mode.code [] (d :: ds) : Mode F).read "\n        \"".toList =
        (Mode.code [] (d :: ds) : Mode F).read ['"'] ∧
      (Mode.single '"' false (d :: ds) : Mode F).read "\": (\"".toList =
        (Mode.code [] (')' :: d :: ds) : Mode F).read ['"'] ∧
      (Mode.single '"' false (')' :: d :: ds) : Mode F).read "\", ".toList =
        some (.code [] (')' :: d :: ds)) := ⟨rfl, rfl, rfl⟩


/-- Reading on behind a text that comes to the same as another one. -/
theorem read_congr {m m' : Mode F} {cs ds : List Char} (h : m.read cs = m'.read ds)
    (rest : List Char) : m.read (cs ++ rest) = m'.read (ds ++ rest) := by
  rw [Mode.read_append, Mode.read_append, h]

/-- The start of an entry, up to its second name. -/
theorem read_attr {spec : IndicatorSpec} (hattr : is_identifier spec.attr = true)
    (hclean : '\n' ∉ spec.attr) (d : Char) (ds rest : List Char) :
    (Mode.code [] (d :: ds) : Mode F).read
        ("\n        \"".toList ++ (spec.attr ++ ("\": (\"".toList ++ rest))) =
      (Mode.code [] (')' :: d :: ds) : Mode F).read ('"' :: rest) := by
  obtain ⟨hsome, hword⟩ := clean_name hattr hclean
  rw [read_congr F (read_glue d ds).1, List.singleton_append, read_name F hsome hword,
    read_congr F (read_glue d ds).2.1, List.singleton_append]

theorem render_indicator_eq (spec : IndicatorSpec) :
    render_indicator printable spec =
      "\n        \"".toList ++ (spec.attr ++ ("\": (\"".toList ++ (spec.indicator ++
        ("\", ".toList ++ (repr_dict printable spec.params ++ "),".toList))))) := by
  unfold render_indicator
  simp only [List.append_assoc]

/-- A clean entry closes what it opens. -/
theorem read_render_indicator {spec : IndicatorSpec} (hattr : is_identifier spec.attr = true)
    (hindicator : is_identifier spec.indicator = true) (hclean : Clean spec) (d : Char)
    (ds : List Char) :
    (Mode.code [] (d :: ds) : Mode F).read (render_indicator printable spec) =
      some (.code [] (d :: ds)) := by
  obtain ⟨hsome, hword⟩ := clean_name hindicator hclean.2
  obtain ⟨m, hparams, hsettled⟩ := settles_repr (F := F) printable (.dict spec.params)
    (')' :: d :: ds) (List.cons_ne_nil _ _)
  rw [render_indicator_eq, read_attr F hattr hclean.1, read_name F hsome hword, Mode.read_append,
    (read_glue d ds).2.2]
  exact Mode.read_of_append hparams ((hsettled.read rfl _).trans rfl)

theorem read_render_indicators {specs : List IndicatorSpec}
    (h : ∀ spec ∈ specs, is_identifier spec.attr = true ∧ is_identifier spec.indicator = true)
    (hclean : ∀ spec ∈ specs, Clean spec) (d : Char) (ds : List Char) :
    (Mode.code [] (d :: ds) : Mode F).read (specs.flatMap (render_indicator printable)) =
      some (.code [] (d :: ds)) := by
  induction specs with
  | nil => rfl
  | cons spec specs ih =>
    obtain ⟨hspec, hspecs⟩ := List.forall_mem_cons.mp h
    obtain ⟨hfirst, hrest⟩ := List.forall_mem_cons.mp hclean
    rw [List.flatMap_cons]
    exact Mode.read_of_append (read_render_indicator printable F hspec.1 hspec.2 hfirst d ds)
      (ih hspecs hrest)

/-- A newline in a name breaks its string off. -/
theorem stuck_at_name {value : List Char} (h : is_identifier value = true)
    (hnewline : '\n' ∈ value) {m : Mode F} {before : List Char} {d : Char} {ds : List Char}
    (hbefore : m.read before = (Mode.code [] (d :: ds) : Mode F).read ['"'])
    (n line col : ℕ) (text rest : List Char) :
    logical_lines n (.inside line col text m) (before ++ (value ++ rest)) = none := by
  obtain ⟨name, hsome, hword, rfl | rfl⟩ := is_identifier_cases h
  · exact absurd (hword _ hnewline) (by decide)
  · have hread : m.read (before ++ name) = some (.single '"' false (d :: ds)) := by
      rw [read_congr F hbefore, List.singleton_append]
      have hname := read_name F hsome hword (d :: ds) []
      rw [List.append_nil] at hname
      exact hname
    rw [List.append_assoc, ← List.append_assoc, logical_lines_inside hread]
    exact logical_lines_stuck rfl _ _ _ _ _

/-- **A name with a newline** is no Python: a file that parses has clean
    entries only. -/
theorem clean_of_lines {specs : List IndicatorSpec}
    (h : ∀ spec ∈ specs, is_identifier spec.attr = true ∧ is_identifier spec.indicator = true)
    {n line col : ℕ} {text rest : List Char} {d : Char} {ds : List Char}
    {lines : List LogicalLine}
    (hlines : logical_lines n (.inside line col text (.code [] (d :: ds) : Mode F))
      (specs.flatMap (render_indicator printable) ++ rest) = some lines) :
    ∀ spec ∈ specs, Clean spec := by
  induction specs generalizing n text with
  | nil => exact fun spec hspec => absurd hspec List.not_mem_nil
  | cons spec specs ih =>
    obtain ⟨⟨hattr, hindicator⟩, hspecs⟩ := List.forall_mem_cons.mp h
    rw [List.flatMap_cons, List.append_assoc] at hlines
    have hfirst : Clean spec := by
      rw [render_indicator_eq] at hlines
      simp only [List.append_assoc] at hlines
      constructor
      · intro hmem
        rw [stuck_at_name F hattr hmem (read_glue d ds).1] at hlines
        exact absurd hlines (by simp)
      · intro hmem
        by_cases hclean : '\n' ∈ spec.attr
        · rw [stuck_at_name F hattr hclean (read_glue d ds).1] at hlines
          exact absurd hlines (by simp)
        · have hread : (Mode.code [] (d :: ds) : Mode F).read
              ("\n        \"".toList ++ (spec.attr ++ "\": (\"".toList)) =
                (Mode.code [] (')' :: d :: ds) : Mode F).read ['"'] := by
            have happend := read_attr F hattr hclean d ds []
            rwa [List.append_nil] at happend
          have hstuck := stuck_at_name F hindicator hmem hread n line col text
            ("\", ".toList ++ (repr_dict printable spec.params ++ ("),".toList ++
              (specs.flatMap (render_indicator printable) ++ rest))))
          simp only [List.append_assoc] at hstuck
          rw [hstuck] at hlines
          exact absurd hlines (by simp)
    refine List.forall_mem_cons.mpr ⟨hfirst, ?_⟩
    rw [logical_lines_inside (read_render_indicator printable F hattr hindicator hfirst d ds)]
      at hlines
    exact ih hspecs hlines

/-- A clean entry takes a line of its own. -/
theorem newlines_render_indicator {spec : IndicatorSpec} (hclean : Clean spec) :
    newlines (render_indicator printable spec) = 1 := by
  have hattr : newlines spec.attr = 0 := List.count_eq_zero.mpr hclean.1
  have hindicator : newlines spec.indicator = 0 := List.count_eq_zero.mpr hclean.2
  have hparams : newlines (repr_dict printable spec.params) = 0 :=
    newlines_of_inLine (inLine_dict printable spec.params)
  rw [render_indicator_eq, newlines_append, newlines_append, newlines_append, newlines_append,
    newlines_append, newlines_append, hattr, hindicator, hparams]
  rfl

theorem newlines_render_indicators {specs : List IndicatorSpec}
    (hclean : ∀ spec ∈ specs, Clean spec) :
    newlines (specs.flatMap (render_indicator printable)) = specs.length := by
  induction specs with
  | nil => rfl
  | cons spec specs ih =>
    obtain ⟨hfirst, hrest⟩ := List.forall_mem_cons.mp hclean
    rw [List.flatMap_cons, newlines_append, newlines_render_indicator printable hfirst, ih hrest,
      List.length_cons]
    omega


/-- What is rendered for the indicators, in a file that parses. -/
structure Rendered (draft : StrategyDraft) (indicators : List Char) : Prop where
  settles : Settles F indicators
  lines : newlines indicators =
    if draft.indicators = [] then 0 else draft.indicators.length + 1

theorem render_indicators_cases {draft : StrategyDraft} {indicators : List Char}
    (h : render_indicators printable draft.indicators = .ok indicators) :
    (draft.indicators = [] ∧ indicators = []) ∨
      draft.indicators ≠ [] ∧ ∃ specs : List IndicatorSpec, specs.Perm draft.indicators ∧
        (∀ spec ∈ specs, is_identifier spec.attr = true ∧ is_identifier spec.indicator = true) ∧
        indicators = specs.flatMap (render_indicator printable) ++ "\n    ".toList := by
  unfold render_indicators at h
  split at h
  · rename_i hnone
    exact Or.inl ⟨hnone, (Except.ok.inj h).symm⟩
  · rename_i hsome
    cases hcheck : check_indicators [] draft.indicators with
    | error e => exact absurd h (by simp [hcheck, Except.map])
    | ok u =>
      rw [hcheck] at h
      refine Or.inr ⟨hsome, _, List.perm_insertionSort _ _, ?_, (Except.ok.inj h).symm⟩
      intro spec hspec
      exact check_indicators_ok hcheck spec ((List.perm_insertionSort _ _).mem_iff.mp hspec)

theorem rendered_of_lines {draft : StrategyDraft} {indicators : List Char}
    (h : render_indicators printable draft.indicators = .ok indicators) {n line col : ℕ}
    {text rest : List Char} {lines : List LogicalLine}
    (hlines : logical_lines n (.inside line col text (.code [] ['}'] : Mode F))
      (indicators ++ rest) = some lines) : Rendered F draft indicators := by
  rcases render_indicators_cases printable h with ⟨hnone, rfl⟩ | ⟨hsome, specs, hperm, hnames, rfl⟩
  · exact ⟨settles_nil, by rw [if_pos hnone]; rfl⟩
  · rw [List.append_assoc] at hlines
    have hclean := clean_of_lines printable F hnames hlines
    constructor
    · intro depth hdepth
      cases depth with
      | nil => exact absurd rfl hdepth
      | cons d ds =>
        refine ⟨.code [] (d :: ds), ?_, settled_code _ _⟩
        exact Mode.read_of_append (read_render_indicators printable F hnames hclean d ds) rfl
    · rw [newlines_append, newlines_render_indicators printable hclean, if_neg hsome,
        hperm.length_eq]
      rfl

/-- A fixed text ends no line with a return. -/
theorem not_return_of_all {cs : List Char} (h : cs.all (fun c => c ≠ '\r') = true) :
    ∀ c ∈ cs, c ≠ '\r' := fun c hc => by simpa using List.all_eq_true.mp h c hc

theorem not_return_append {cs ds : List Char} (h : ∀ c ∈ cs, c ≠ '\r')
    (h' : ∀ c ∈ ds, c ≠ '\r') : ∀ c ∈ cs ++ ds, c ≠ '\r' :=
  List.forall_mem_append.mpr ⟨h, h'⟩

theorem not_return_indicators {draft : StrategyDraft} {indicators : List Char}
    (h : render_indicators printable draft.indicators = .ok indicators) :
    ∀ c ∈ indicators, c ≠ '\r' := by
  have hname : ∀ value, is_identifier value = true → ∀ c ∈ value, c ≠ '\r' := by
    intro value hvalue c hc
    obtain ⟨name, _, hword, hcases⟩ := is_identifier_cases hvalue
    have hwordc : ∀ c ∈ name, c ≠ '\r' := not_return_of_inLine (inLine_word hword)
    rcases hcases with rfl | rfl
    · exact hwordc c hc
    · rcases List.mem_append.mp hc with hc | hc
      · exact hwordc c hc
      · rw [List.mem_singleton.mp hc]
        decide
  rcases render_indicators_cases printable h with ⟨_, rfl⟩ | ⟨_, specs, _, hnames, rfl⟩
  · exact fun c hc => absurd hc List.not_mem_nil
  · apply not_return_append _ (not_return_of_all (by decide))
    intro c hc
    obtain ⟨spec, hspec, hc⟩ := List.mem_flatMap.mp hc
    obtain ⟨hattr, hindicator⟩ := hnames spec hspec
    have hparams := not_return_of_inLine (inLine_dict printable spec.params)
    have hentry : ∀ c ∈ render_indicator printable spec, c ≠ '\r' := by
      rw [render_indicator_eq]
      apply not_return_append (not_return_of_all (by decide))
      apply not_return_append (hname _ hattr)
      apply not_return_append (not_return_of_all (by decide))
      apply not_return_append (hname _ hindicator)
      apply not_return_append (not_return_of_all (by decide))
      exact not_return_append hparams (not_return_of_all (by decide))
    exact hentry c hc


/-! ### The logical lines of a file -/

def docstring_line (draft : StrategyDraft) : List Char :=
  '"' :: '"' :: '"' :: (docstring_text draft ++ ['"', '"', '"'])

def assignment (name text : List Char) : List Char :=
  name ++ [' ', '=', ' ', '{'] ++ text ++ ['}']

def state_pairs (draft : StrategyDraft) : List Char :=
  repr_pairs printable (draft.state.getD [])

/-- The file from the docstring on. -/
def class_text (draft : StrategyDraft) (indicators : List Char) : List Char :=
  List.replicate 4 ' ' ++ (docstring_line draft ++ '\n' :: '\n' ::
    (List.replicate 4 ' ' ++ (assignment "INDICATORS".toList indicators ++ '\n' :: '\n' ::
      (List.replicate 4 ' ' ++ (assignment "STATE".toList (state_pairs printable draft) ++
        '\n' :: '\n' :: (List.replicate 4 ' ' ++ (def_line ++ '\n' :: fragment draft)))))))

def head_text : List Char :=
  context_line ++ '\n' :: (base_line ++ '\n' :: '\n' :: '\n' :: (class_line ++ ['\n']))

theorem mem_split_lines {text line : List Char} (h : line ∈ split_lines text) :
    ∀ c ∈ line, c ∈ text := by
  induction text generalizing line with
  | nil =>
    rw [List.mem_singleton.mp h]
    exact fun c hc => hc
  | cons c cs ih =>
    rw [split_lines] at h
    split at h
    · rcases List.mem_cons.mp h with rfl | h
      · exact fun d hd => absurd hd List.not_mem_nil
      · exact fun d hd => List.mem_cons_of_mem _ (ih h d hd)
    split at h
    · rw [List.mem_singleton.mp h]
      exact fun d hd => List.mem_cons.mpr (Or.inl (List.mem_singleton.mp hd))
    · rename_i first lines hlines
      rw [hlines] at ih
      rcases List.mem_cons.mp h with rfl | h
      · intro d hd
        rcases List.mem_cons.mp hd with rfl | hd
        · exact List.mem_cons_self
        · exact List.mem_cons_of_mem _ (ih List.mem_cons_self d hd)
      · exact fun d hd => List.mem_cons_of_mem _ (ih (List.mem_cons_of_mem _ h) d hd)

theorem normalise_ne_nil (body : List Char) : normalise body ≠ [] := by
  unfold normalise
  simp only
  split
  · exact List.cons_ne_nil _ _
  · assumption

/-- A fragment has the characters of the body, and blanks. -/
theorem not_return_normalise {body line : List Char} (h : line ∈ normalise body) :
    ∀ c ∈ line, c ≠ '\r' := by
  unfold normalise at h
  simp only at h
  split at h
  · rw [List.mem_singleton.mp h]
    exact not_return_of_all (by decide)
  · have hline : line ∈ split_lines (expand_tabs (translate_newlines body)) := by
      apply List.mem_reverse.mp
      exact (List.dropWhile_sublist _).mem (List.mem_reverse.mp h)
    intro c hc
    obtain ⟨d, hd, hc⟩ := List.mem_flatMap.mp (mem_split_lines hline c hc)
    split at hc
    · exact not_return_of_all (by decide) c hc
    · rw [List.mem_singleton.mp hc]
      exact not_mem_translate_newlines body d hd

theorem not_return_fragment (draft : StrategyDraft) : ∀ c ∈ fragment draft, c ≠ '\r' := by
  intro c hc
  obtain ⟨text, htext, hc⟩ := List.mem_flatten.mp hc
  obtain ⟨line, hline, rfl⟩ := List.mem_map.mp htext
  have hindent : ∀ c ∈ indent line, c ≠ '\r' := by
    unfold indent
    split
    · exact fun c hc => absurd hc List.not_mem_nil
    · exact not_return_append (not_return_of_all (by decide)) (not_return_normalise hline)
  exact not_return_append hindent (not_return_of_all (by decide)) c hc

theorem fragment_ends (draft : StrategyDraft) : ∃ cs, fragment draft = cs ++ ['\n'] := by
  obtain ⟨lines, last, hlines⟩ :=
    List.eq_nil_or_concat (normalise draft.body) |>.resolve_left (normalise_ne_nil draft.body)
  refine ⟨(lines.map (fun line => indent line ++ ['\n'])).flatten ++ indent last, ?_⟩
  unfold fragment
  rw [hlines]
  simp

/-- The prelude, line by line. -/
theorem prelude_eq (draft : StrategyDraft) (indicators : List Char) :
    prelude_head ++ ("\"\"\"".toList ++ (docstring_text draft ++ ("\"\"\"".toList ++
      ("\n\n    INDICATORS = \x7b".toList ++ (indicators ++ ("\x7d\n\n    STATE = ".toList ++
        (render_state printable draft ++ ("\n\n    ".toList ++ (def_line ++
          (['\n'] ++ fragment draft)))))))))) =
      head_text ++ class_text printable draft indicators := by
  have hhead : prelude_head = head_text ++ List.replicate 4 ' ' := by decide +kernel
  have hindicators : "\n\n    INDICATORS = \x7b".toList =
      '\n' :: '\n' :: (List.replicate 4 ' ' ++ ("INDICATORS".toList ++ [' ', '=', ' ', '{'])) := by
    decide
  have hstate : "\x7d\n\n    STATE = ".toList =
      '}' :: '\n' :: '\n' :: (List.replicate 4 ' ' ++ ("STATE".toList ++ [' ', '=', ' '])) := by
    decide
  have hdef : "\n\n    ".toList = '\n' :: '\n' :: List.replicate 4 ' ' := by decide
  have hquotes : "\"\"\"".toList = ['"', '"', '"'] := by decide
  rw [hhead, hindicators, hstate, hdef, hquotes]
  simp only [class_text, docstring_line, assignment, render_state, repr_dict, state_pairs,
    List.append_assoc, List.cons_append, List.nil_append]

/-- The text that Python reads is the generated one. -/
theorem translate_source {draft : StrategyDraft} {assembled : Assembled}
    (h : assemble printable draft = .ok assembled) :
    ∃ indicators, render_indicators printable draft.indicators = .ok indicators ∧
      end_last_line (translate_newlines assembled.source) =
        head_text ++ class_text printable draft indicators := by
  unfold assemble at h
  cases hrender : render_indicators printable draft.indicators with
  | error e => exact absurd h (by simp [hrender, Except.map])
  | ok indicators =>
    rw [hrender] at h
    obtain rfl := (Except.ok.inj h).symm
    refine ⟨indicators, rfl, ?_⟩
    have hindicators := not_return_indicators printable hrender
    have hstate : ∀ c ∈ render_state printable draft, c ≠ '\r' :=
      not_return_of_inLine (inLine_dict printable _)
    -- what stands behind the docstring has no return in it
    have htail : ∀ c ∈ "\"\"\"".toList ++ ("\n\n    INDICATORS = \x7b".toList ++ (indicators ++
        ("\x7d\n\n    STATE = ".toList ++ (render_state printable draft ++
          ("\n\n    ".toList ++ (def_line ++ (['\n'] ++ fragment draft))))))), c ≠ '\r' := by
      apply not_return_append (not_return_of_all (by decide))
      apply not_return_append (not_return_of_all (by decide))
      apply not_return_append hindicators
      apply not_return_append (not_return_of_all (by decide))
      apply not_return_append hstate
      apply not_return_append (not_return_of_all (by decide))
      apply not_return_append (not_return_of_all (by decide +kernel))
      exact not_return_append (not_return_of_all (by decide)) (not_return_fragment draft)
    have hsource : translate_newlines (render_prelude (replace_quotes draft.docstring) indicators
        (render_state printable draft) ++ fragment draft) =
          head_text ++ class_text printable draft indicators := by
      have hhead : ∀ c ∈ prelude_head, c ≠ '\r' := not_return_of_all (by decide +kernel)
      have hquotes : ∀ c ∈ "\"\"\"".toList, c ≠ '\r' := not_return_of_all (by decide)
      unfold render_prelude
      simp only [List.append_assoc]
      rw [translate_newlines_append hhead, translate_newlines_append hquotes,
        translate_newlines_split _ (by simp), translate_newlines_self htail]
      exact prelude_eq printable draft indicators
    have hend : ∃ cs, head_text ++ class_text printable draft indicators = cs ++ ['\n'] := by
      obtain ⟨cs, hcs⟩ := fragment_ends draft
      unfold class_text
      rw [hcs]
      simp only [← List.append_assoc, ← List.cons_append]
      exact ⟨_, rfl⟩
    obtain ⟨cs, hcs⟩ := hend
    rw [hsource, hcs, end_last_line_self]

theorem whole_context : Whole F context_line := ⟨by decide, by decide, _, rfl, rfl⟩

theorem whole_base : Whole F base_line := ⟨by decide, by decide, _, rfl, rfl⟩

theorem whole_class : Whole F class_line := ⟨by decide, by decide, _, rfl, rfl⟩

theorem whole_def : Whole F def_line := ⟨by decide, by decide, _, rfl, rfl⟩

/-- The lines in front of the docstring. -/
theorem head_lines (rest : List Char) :
    logical_lines 1 (Place.start : Place F) (head_text ++ rest) =
      (logical_lines 6 (Place.start : Place F) rest).map
        (fun lines => ⟨1, 0, context_line⟩ :: ⟨2, 0, base_line⟩ :: ⟨5, 0, class_line⟩ :: lines) := by
  have hcontext : newlines context_line = 0 := by decide
  have hbase : newlines base_line = 0 := by decide
  have hclass : newlines class_line = 0 := by decide
  unfold head_text
  simp only [List.append_assoc, List.cons_append, List.nil_append]
  rw [logical_lines_whole_left (whole_context F), logical_lines_whole_left (whole_base F),
    logical_lines_newline, logical_lines_newline, logical_lines_whole_left (whole_class F),
    hcontext, hbase, hclass, Option.map_map, Option.map_map]
  rfl


/-- What `logical_lines` needs of a line that starts with these quotes. -/
theorem docstring_head (text : List Char) :
    (∀ c ∈ ('"' :: text).head?, is_margin c = false) ∧ '"' :: text ≠ [] :=
  ⟨fun c hc => by rw [← Option.some.inj hc]; rfl, List.cons_ne_nil _ _⟩

/-- Behind the text of the docstring. -/
theorem read_quoted (draft : StrategyDraft) : ∃ k, k ≤ 2 ∧
    (Mode.code [] [] : Mode F).read ('"' :: '"' :: '"' :: docstring_text draft) =
      some (.triple '"' k (!closes draft.docstring) []) := by
  obtain ⟨k, hk, hread⟩ := read_docstring F draft
  exact ⟨k, hk, hread⟩

/-- A string in three quotes, and perhaps an empty one behind it. -/
def IsDocstring (text : List Char) : Prop :=
  Whole F text ∧
    ∃ literal more, text = literal ++ more ∧ Literal F literal ∧ (more = [] ∨ more = ['"', '"'])

/-- A docstring that closes is a line of its own. -/
theorem docstring_closed {draft : StrategyDraft} (hcloses : closes draft.docstring = true)
    {n : ℕ} {rest : List Char} {lines : List LogicalLine}
    (h : logical_lines n (Place.start : Place F)
      (List.replicate 4 ' ' ++ (docstring_line draft ++ '\n' :: rest)) = some lines) :
    IsDocstring F (docstring_line draft) := by
  obtain ⟨k, hk, hread⟩ := read_quoted F draft
  obtain ⟨_, _, hinner⟩ := read_docstring F draft
  rw [hcloses] at hread
  have hhead : (∀ c ∈ (docstring_line draft).head?, is_margin c = false) ∧
      docstring_line draft ≠ [] := docstring_head _
  have hinner' : (Mode.triple '"' 0 false [] : Mode F).read (docstring_text draft) =
      some (.triple '"' k false []) := hread
  obtain rfl | rfl | rfl : k = 0 ∨ k = 1 ∨ k = 2 := by omega
  · refine ⟨⟨hhead.1, hhead.2, .code [] [], ?_, rfl⟩, docstring_line draft, [], ?_, ?_, Or.inl rfl⟩
    · exact Mode.read_of_append hread rfl
    · rw [List.append_nil]
    · refine ⟨docstring_text draft ++ ['"', '"'], ?_, Mode.read_of_append hinner' rfl⟩
      simp [docstring_line]
  · -- one quote more is left over, and opens a string that does not end
    have hopen : (Mode.code [] [] : Mode F).read (docstring_line draft) =
        some (.opened false [] '"' []) := Mode.read_of_append hread rfl
    rw [logical_lines_into hhead.1 hhead.2 hopen, logical_lines_stuck rfl] at h
    exact absurd h (by simp)
  · refine ⟨⟨hhead.1, hhead.2, .opened true [] '"' [], ?_, rfl⟩,
      '"' :: '"' :: '"' :: (docstring_text draft ++ ['"']), ['"', '"'], ?_, ?_, Or.inr rfl⟩
    · exact Mode.read_of_append hread rfl
    · simp [docstring_line]
    · exact ⟨docstring_text draft, rfl, hinner'⟩

/-- The lines of a file whose docstring closes. -/
structure ClosedLines (draft : StrategyDraft) (indicators : List Char)
    (lines : List LogicalLine) : Prop where
  docstring : IsDocstring F (docstring_line draft)
  settles : Settles F indicators
  lines : ∃ inner, fragment_lines F draft = some inner ∧
    lines = [⟨1, 0, context_line⟩, ⟨2, 0, base_line⟩, ⟨5, 0, class_line⟩,
      ⟨6, 4, docstring_line draft⟩,
      ⟨indicators_line draft, 4, assignment "INDICATORS".toList indicators⟩,
      ⟨state_line draft, 4, assignment "STATE".toList (state_pairs printable draft)⟩,
      ⟨method_line draft, 4, def_line⟩] ++ inner

/-- An assignment of braces is a line of its own. -/
theorem whole_assignment {name : List Char} (hname : name = "INDICATORS".toList ∨
    name = "STATE".toList) {text : List Char} (h : Settles F text) :
    Whole F (assignment name text) := by
  obtain ⟨m, hread, hsettled⟩ := h ['}'] (List.cons_ne_nil _ _)
  have hassign : (Mode.code [] [] : Mode F).read (name ++ [' ', '=', ' ', '{']) =
      some (.code [] ['}']) := by
    rcases hname with rfl | rfl
    · rfl
    · rfl
  refine ⟨?_, ?_, .code [] [], ?_, rfl⟩
  · rcases hname with rfl | rfl
    · exact fun c hc => by rw [← Option.some.inj hc]; rfl
    · exact fun c hc => by rw [← Option.some.inj hc]; rfl
  · simp [assignment]
  · exact Mode.read_of_append (Mode.read_of_append hassign hread) (hsettled.read rfl _)

theorem newlines_docstring_line (draft : StrategyDraft) :
    newlines (docstring_line draft) = newlines (docstring_text draft) := by
  unfold docstring_line
  rw [newlines_cons, newlines_cons, newlines_cons, newlines_append]
  rfl

theorem newlines_assignment {name : List Char} (hname : newlines name = 0) (text : List Char) :
    newlines (assignment name text) = newlines text := by
  unfold assignment
  rw [newlines_append, newlines_append, newlines_append, hname]
  show 0 + 0 + newlines text + 0 = newlines text
  omega

/-- The generated dict of indicators, in a file that parses. -/
theorem rendered_of_assignment {draft : StrategyDraft} {indicators : List Char}
    (hrender : render_indicators printable draft.indicators = .ok indicators) {n : ℕ}
    {rest : List Char} {lines : List LogicalLine}
    (h : logical_lines n (Place.start : Place F) (List.replicate 4 ' ' ++
      (assignment "INDICATORS".toList indicators ++ rest)) = some lines) :
    Rendered F draft indicators := by
  have hread : (Mode.code [] [] : Mode F).read ("INDICATORS".toList ++ [' ', '=', ' ', '{']) =
      some (.code [] ['}']) := rfl
  unfold assignment at h
  rw [List.append_assoc, List.append_assoc (_ ++ _) _ _,
    logical_lines_into (fun c hc => by rw [← Option.some.inj hc]; rfl) (by simp) hread] at h
  exact rendered_of_lines printable F hrender h

theorem closed_lines {draft : StrategyDraft} {indicators : List Char}
    (hrender : render_indicators printable draft.indicators = .ok indicators)
    (hcloses : closes draft.docstring = true) {lines : List LogicalLine}
    (h : logical_lines 1 (Place.start : Place F)
      (head_text ++ class_text printable draft indicators) = some lines) :
    ClosedLines printable F draft indicators lines := by
  rw [head_lines] at h
  obtain ⟨lines₁, h₁, rfl⟩ := Option.map_eq_some_iff.mp h
  unfold class_text at h₁
  have hdocstring := docstring_closed F hcloses h₁
  have hdoc : 6 + newlines (docstring_line draft) + 1 + 1 = indicators_line draft := by
    rw [newlines_docstring_line, indicators_line]
    omega
  rw [logical_lines_whole hdocstring.1] at h₁
  obtain ⟨lines₂, h₂, rfl⟩ := Option.map_eq_some_iff.mp h₁
  rw [logical_lines_newline, hdoc] at h₂
  have hrendered := rendered_of_assignment printable F hrender h₂
  have hindicators : indicators_line draft +
      newlines (assignment "INDICATORS".toList indicators) + 1 + 1 = state_line draft := by
    rw [newlines_assignment (by decide), hrendered.lines, state_line]
  rw [logical_lines_whole (whole_assignment F (Or.inl rfl) hrendered.settles)] at h₂
  obtain ⟨lines₃, h₃, rfl⟩ := Option.map_eq_some_iff.mp h₂
  have hpairs : newlines (state_pairs printable draft) = 0 :=
    newlines_of_inLine (inLine_pairs printable _)
  have hstate : state_line draft + newlines (assignment "STATE".toList
      (state_pairs printable draft)) + 1 + 1 = method_line draft := by
    rw [newlines_assignment (by decide), hpairs, method_line]
  have hsettles : Settles F (state_pairs printable draft) := settles_pairs printable _
  rw [logical_lines_newline, hindicators,
    logical_lines_whole (whole_assignment F (Or.inr rfl) hsettles)] at h₃
  obtain ⟨lines₄, h₄, rfl⟩ := Option.map_eq_some_iff.mp h₃
  have hdef : newlines def_line = 0 := by decide
  rw [logical_lines_newline, hstate, logical_lines_whole (whole_def F), hdef] at h₄
  obtain ⟨inner, h₅, rfl⟩ := Option.map_eq_some_iff.mp h₄
  exact ⟨hdocstring, hrendered.settles, inner, h₅, rfl⟩

/-- The text between the docstring and the first line end behind the start of
    `INDICATORS`. -/
theorem indicators_start {draft : StrategyDraft} {indicators : List Char}
    (hrender : render_indicators printable draft.indicators = .ok indicators) (rest : List Char) :
    ∃ glue rest', assignment "INDICATORS".toList indicators ++ '\n' :: rest = glue ++ rest' ∧
      newlines glue = 1 ∧
      (Mode.triple '"' 0 false [] : Mode F).read glue = some (.triple '"' 0 false []) := by
  rcases render_indicators_cases printable hrender with ⟨_, rfl⟩ | ⟨hsome, specs, hperm, _, rfl⟩
  · refine ⟨assignment "INDICATORS".toList [] ++ ['\n'], rest, ?_, by decide, rfl⟩
    rw [List.append_assoc, List.singleton_append]
  · cases specs with
    | nil => exact absurd hperm.symm.eq_nil hsome
    | cons spec specs =>
      have hnewline : "\n        \"".toList = '\n' :: (List.replicate 8 ' ' ++ ['"']) := by decide
      obtain ⟨tail, htail⟩ : ∃ tail, render_indicator printable spec = '\n' :: tail := by
        rw [render_indicator_eq, hnewline]
        exact ⟨_, rfl⟩
      refine ⟨"INDICATORS".toList ++ [' ', '=', ' ', '{'] ++ ['\n'],
        tail ++ (specs.flatMap (render_indicator printable) ++ ("\n    ".toList ++
          ('}' :: '\n' :: rest))), ?_, by decide, rfl⟩
      rw [assignment, List.flatMap_cons, htail]
      simp only [List.append_assoc, List.cons_append, List.nil_append]

/-- The lines of a file whose docstring swallows the quotes behind it: the
    string goes on beyond the line that `INDICATORS` is to start on. -/
structure OpenLines (draft : StrategyDraft) (lines : List LogicalLine) : Prop where
  lines : ∃ literal more inner, Literal F literal ∧
    lines = [⟨1, 0, context_line⟩, ⟨2, 0, base_line⟩, ⟨5, 0, class_line⟩,
      ⟨6, 4, literal ++ more⟩] ++ inner ∧
    indicators_line draft < 6 + newlines literal ∧ ∀ l ∈ inner, indicators_line draft < l.line

theorem open_lines {draft : StrategyDraft} {indicators : List Char}
    (hrender : render_indicators printable draft.indicators = .ok indicators)
    (hopen : closes draft.docstring = false) {lines : List LogicalLine}
    (h : logical_lines 1 (Place.start : Place F)
      (head_text ++ class_text printable draft indicators) = some lines) :
    OpenLines F draft lines := by
  rw [head_lines] at h
  obtain ⟨lines₁, h₁, rfl⟩ := Option.map_eq_some_iff.mp h
  obtain ⟨glue, rest, hglue, hlines, hread⟩ := indicators_start printable F hrender
    ('\n' :: (List.replicate 4 ' ' ++ (assignment "STATE".toList (state_pairs printable draft) ++
      '\n' :: '\n' :: (List.replicate 4 ' ' ++ (def_line ++ '\n' :: fragment draft)))))
  unfold class_text at h₁
  rw [hglue] at h₁
  obtain ⟨k, hk, hdoc⟩ := read_docstring F draft
  rw [hopen] at hdoc
  -- the first of the quotes is escaped, and the other two end nothing
  have hquotes : (Mode.triple '"' k (!false) [] : Mode F).read
      (['"', '"', '"'] ++ '\n' :: '\n' :: List.replicate 4 ' ') =
        some (.triple '"' 0 false []) := rfl
  have hinside : (Mode.triple '"' 0 false [] : Mode F).read (docstring_text draft ++
      (['"', '"', '"'] ++ '\n' :: '\n' :: List.replicate 4 ' ') ++ glue) =
        some (.triple '"' 0 false []) :=
    Mode.read_of_append (Mode.read_of_append hdoc hquotes) hread
  generalize hinner : docstring_text draft ++
    (['"', '"', '"'] ++ '\n' :: '\n' :: List.replicate 4 ' ') ++ glue = inside at hinside
  have hstart : (Mode.code [] [] : Mode F).read ('"' :: '"' :: '"' :: inside) =
      some (.triple '"' 0 false []) := hinside
  have htext : docstring_line draft ++ '\n' :: '\n' :: (List.replicate 4 ' ' ++ (glue ++ rest)) =
      ('"' :: '"' :: '"' :: inside) ++ rest := by
    rw [← hinner, docstring_line]
    simp only [List.append_assoc, List.cons_append, List.nil_append]
  have hcount : newlines inside = newlines (docstring_text draft) + 3 := by
    rw [← hinner, newlines_append, newlines_append, hlines]
    rfl
  have hhead := docstring_head ('"' :: '"' :: inside)
  rw [htext, logical_lines_into hhead.1 hhead.2 hstart] at h₁
  obtain ⟨tail, rest', rfl, htail, h₂⟩ :=
    logical_lines_triple _ 6 4 _ (by decide) (by decide) 0 false rest h₁
  obtain ⟨more, inner, rfl, hbelow⟩ := logical_lines_from _ _ _ h₂
  have hliteral : newlines ('"' :: '"' :: '"' :: (inside ++ tail ++ ['"'])) =
      newlines (docstring_text draft) + 3 + newlines tail := by
    rw [newlines_cons, newlines_cons, newlines_cons, newlines_append, newlines_append, hcount]
    rfl
  refine ⟨'"' :: '"' :: '"' :: (inside ++ tail ++ ['"']), more, inner, ?_, ?_, ?_, ?_⟩
  · exact ⟨inside ++ tail, rfl, Mode.read_of_append hinside htail⟩
  · simp
  · rw [hliteral, indicators_line]
    omega
  · intro l hl
    have hle := hbelow l hl
    rw [newlines_cons, newlines_cons, newlines_cons, hcount] at hle
    simp at hle
    rw [indicators_line]
    omega


/-! ### The statements of a file -/

theorem gather_simple {s : Stmt} {ps : List Piece} {statements : List Stmt}
    (h : gather (.simples [s] :: ps) = some ([], statements)) :
    ∃ rest, gather ps = some ([], rest) ∧ statements = s :: rest := by
  rw [gather] at h
  obtain ⟨⟨clauses, rest⟩, hps, h⟩ := Option.bind_eq_some_iff.mp h
  simp only at h
  split at h
  · rename_i hnone
    obtain rfl : clauses = [] := hnone
    exact ⟨rest, hps, (Prod.mk.inj (Option.some.inj h)).2.symm⟩
  · exact absurd h (by simp)

/-- A definition takes no clauses. -/
theorem gather_definition {line : ℕ} {head : Head} {nodes : List ℕ} {body : List Stmt}
    {ps : List Piece} {statements : List Stmt}
    (hhead : ∀ clauses, head.accepts clauses = true → clauses = [])
    (h : gather (.head line head nodes body [] :: ps) = some ([], statements)) :
    ∃ rest, gather ps = some ([], rest) ∧
      statements = .compound line head nodes body [] :: rest := by
  rw [gather] at h
  obtain ⟨⟨clauses, rest⟩, hps, h⟩ := Option.bind_eq_some_iff.mp h
  simp only [List.nil_append] at h
  split at h
  · rename_i haccepts
    obtain rfl : clauses = [] := List.map_eq_nil_iff.mp (hhead _ haccepts)
    exact ⟨rest, hps, (Prod.mk.inj (Option.some.inj h)).2.symm⟩
  · exact absurd h (by simp)

theorem assemble_block_some {ps : List Piece} {statements : List Stmt}
    (h : assemble_block ps = some statements) : gather ps = some ([], statements) := by
  unfold assemble_block at h
  obtain ⟨⟨clauses, rest⟩, hps, h⟩ := Option.bind_eq_some_iff.mp h
  simp only at h
  split at h
  · rename_i hnone
    obtain rfl : clauses = [] := hnone
    rw [hps, Option.some.inj h]
  · exact absurd h (by simp)

variable {F} {G : Grammar}

/-- What parses is a block of lines in the first column. -/
theorem parse_some {source : List Char} {tree : List Stmt} (h : parse F G source = some tree) :
    ∃ lines ps, file_lines F source = some lines ∧ pieces G (layout lines) = some ps ∧
      gather ps = some ([], tree) := by
  unfold parse at h
  split at h
  · exact absurd h (by simp)
  obtain ⟨lines, hlines, h⟩ := Option.bind_eq_some_iff.mp h
  split at h
  · unfold block at h
    split at h
    · obtain ⟨ps, hps, h⟩ := Option.bind_eq_some_iff.mp h
      exact ⟨lines, ps, hlines, hps, assemble_block_some h⟩
    · exact absurd h (by simp)
  · exact absurd h (by simp)

/-- A simple statement on a line of its own. -/
theorem pieces_simple {l : LogicalLine} {children ts : List PySource.Tree} {ps : List Piece} {kind : Simple}
    {nodes : List ℕ} (hform : G.statement l.text = some (.simple kind nodes []))
    (h : pieces G (.node l children :: ts) = some ps) :
    ∃ nodes rest, pieces G ts = some rest ∧ ps = .simples [.simple l.line kind nodes] :: rest := by
  rw [pieces] at h
  obtain ⟨p, hp, h⟩ := Option.bind_eq_some_iff.mp h
  obtain ⟨rest, hrest, rfl⟩ := Option.map_eq_some_iff.mp h
  rw [piece, hform] at hp
  simp only at hp
  split at hp
  · rw [← Option.some.inj hp]
    exact ⟨_, rest, hrest, rfl⟩
  · exact absurd hp (by simp)

/-- A line of a block that parses has a form. -/
theorem form_of_pieces {l : LogicalLine} {children ts : List PySource.Tree} {ps : List Piece}
    (h : pieces G (.node l children :: ts) = some ps) : ∃ form, G.statement l.text = some form := by
  rw [pieces] at h
  obtain ⟨p, hp, _⟩ := Option.bind_eq_some_iff.mp h
  rw [piece] at hp
  cases hform : G.statement l.text with
  | none => exact absurd hp (by simp [hform])
  | some form => exact ⟨form, rfl⟩

theorem docstring_form (hG : ReadsStrings F G) {text : List Char} (htext : IsDocstring F text)
    {l : LogicalLine} {n : ℕ} (hl : l = ⟨n, 4, text⟩) {children ts : List PySource.Tree}
    {ps : List Piece} (h : pieces G (.node l children :: ts) = some ps) :
    ∃ nodes, G.statement l.text = some (.simple .string nodes []) := by
  obtain ⟨form, hform⟩ := form_of_pieces h
  obtain ⟨_, literal, more, hsplit, hliteral, hmore⟩ := htext
  have hstatement : G.statement (literal ++ more) = some form := by
    rw [← hsplit, ← hform, hl]
  obtain ⟨nodes, rfl⟩ := hG.strings literal hliteral more hmore form hstatement
  exact ⟨nodes, hform⟩

theorem assignment_form (hG : ReadsDisplays F G) {name text : List Char}
    (hname : ∀ c ∈ name, c.isUpper = true) (htext : Settles F text) {l : LogicalLine}
    (hl : l.text = assignment name text) {children ts : List PySource.Tree}
    {ps : List Piece} (h : pieces G (.node l children :: ts) = some ps) :
    ∃ nodes, G.statement l.text = some (.simple (.assign name) nodes []) := by
  obtain ⟨form, hform⟩ := form_of_pieces h
  have hstatement : G.statement (name ++ [' ', '=', ' ', '{'] ++ text ++ ['}']) = some form := by
    rw [← hform, hl]
    rfl
  obtain ⟨nodes, rfl⟩ := hG name text hname htext form hstatement
  exact ⟨nodes, hform⟩

/-- A definition with the block below it. -/
theorem pieces_definition {l : LogicalLine} {children ts : List PySource.Tree} {ps : List Piece}
    {head : Head} {nodes : List ℕ} (hform : G.statement l.text = some (.head head nodes []))
    (hhead : head ≠ .match_block) (h : pieces G (.node l children :: ts) = some ps) :
    ∃ nodes body inner rest, pieces G children = some inner ∧ gather inner = some ([], body) ∧
      pieces G ts = some rest ∧ ps = .head l.line head nodes body [] :: rest := by
  rw [pieces] at h
  obtain ⟨p, hp, h⟩ := Option.bind_eq_some_iff.mp h
  obtain ⟨rest, hrest, rfl⟩ := Option.map_eq_some_iff.mp h
  rw [piece, hform] at hp
  simp only at hp
  obtain ⟨body, hbody, rfl⟩ := Option.map_eq_some_iff.mp hp
  unfold body_of at hbody
  split at hbody
  · exact absurd hbody (by simp)
  split at hbody
  · obtain ⟨inner, hinner, hbody⟩ := Option.bind_eq_some_iff.mp hbody
    exact ⟨_, body, inner, rest, hinner, assemble_block_some hbody, hrest, rfl⟩
  · exact absurd hbody (by simp)

/-- The first three lines of a file. -/
theorem file_statements (hG : ReadsScaffold F G) {l₁ l₂ l₃ : LogicalLine}
    (h₁ : l₁ = ⟨1, 0, context_line⟩) (h₂ : l₂ = ⟨2, 0, base_line⟩)
    (h₃ : l₃ = ⟨5, 0, class_line⟩) {children ts : List PySource.Tree} {ps : List Piece}
    {tree : List Stmt}
    (h : pieces G (.node l₁ [] :: .node l₂ [] :: .node l₃ children :: ts) = some ps)
    (htree : gather ps = some ([], tree)) :
    ∃ context_nodes base_nodes class_nodes inner body ps' rest,
      pieces G children = some inner ∧ gather inner = some ([], body) ∧
      pieces G ts = some ps' ∧ gather ps' = some ([], rest) ∧
      tree = [ .simple 1 (.import_from "engine.strategies.order_interface".toList
          ["StrategyContext".toList]) context_nodes,
        .simple 2 (.import_from "engine.strategies.portfolio_BASE.strategy".toList
          [base_class_name]) base_nodes,
        .compound 5 (.class_def generated_class_name [some base_class_name]) class_nodes body []]
          ++ rest := by
  obtain ⟨_, hcontext⟩ := hG.context
  obtain ⟨_, hbase⟩ := hG.base
  obtain ⟨_, hclass⟩ := hG.class_head
  have htext₁ : l₁.text = context_line := by rw [h₁]
  have htext₂ : l₂.text = base_line := by rw [h₂]
  have htext₃ : l₃.text = class_line := by rw [h₃]
  have hline₁ : l₁.line = 1 := by rw [h₁]
  have hline₂ : l₂.line = 2 := by rw [h₂]
  have hline₃ : l₃.line = 5 := by rw [h₃]
  rw [← htext₁] at hcontext
  rw [← htext₂] at hbase
  rw [← htext₃] at hclass
  obtain ⟨context_nodes, ps₁, hps₁, rfl⟩ := pieces_simple hcontext h
  obtain ⟨base_nodes, ps₂, hps₂, rfl⟩ := pieces_simple hbase hps₁
  obtain ⟨class_nodes, body, inner, ps₃, hinner, hbody, hps₃, rfl⟩ :=
    pieces_definition hclass (by simp) hps₂
  obtain ⟨rest₁, htree₁, rfl⟩ := gather_simple htree
  obtain ⟨rest₂, htree₂, rfl⟩ := gather_simple htree₁
  obtain ⟨rest, hrest, rfl⟩ := gather_definition (by simp [Head.accepts]) htree₂
  rw [hline₁, hline₂, hline₃]
  exact ⟨_, _, _, inner, body, ps₃, rest, hinner, hbody, hps₃, hrest, rfl⟩

/-- A line in front of one that is indented no more has nothing below it. -/
theorem layout_flat {l : LogicalLine} {lines : List LogicalLine} {t : PySource.Tree} {ts : List PySource.Tree}
    (h : layout lines = t :: ts) (hcol : t.col ≤ l.col) :
    layout (l :: lines) = .node l [] :: t :: ts := by
  have hnot : ¬ l.col < t.col := by omega
  rw [layout_cons, h]
  simp [hnot]

/-- The layout of a class with its first lines. What is behind column 4 is
    below the last of these, and what is behind column 0 is in the class. -/
theorem layout_class {l₃ l₄ l₅ l₆ l₇ : LogicalLine} (h₃ : l₃.col = 0) (h₄ : l₄.col = 4)
    (h₅ : l₅.col = 4) (h₆ : l₆.col = 4) (h₇ : l₇.col = 4) (inner : List LogicalLine) :
    layout (l₃ :: l₄ :: l₅ :: l₆ :: l₇ :: inner) =
      .node l₃ (.node l₄ [] :: .node l₅ [] :: .node l₆ [] ::
        .node l₇ ((layout inner).takeWhile (fun t => 4 < t.col)) ::
        ((layout inner).dropWhile (fun t => 4 < t.col)).takeWhile (fun t => 0 < t.col)) ::
      ((layout inner).dropWhile (fun t => 4 < t.col)).dropWhile (fun t => 0 < t.col) := by
  have hcol : ∀ (l : LogicalLine) (children : List Tree), (PySource.Tree.node l children).col = l.col :=
    fun _ _ => rfl
  have hlast := layout_cons l₇ inner
  rw [h₇] at hlast
  have hstate := layout_flat (l := l₆) hlast (by rw [hcol]; omega)
  have hindicators := layout_flat (l := l₅) hstate (by rw [hcol]; omega)
  have hdocstring := layout_flat (l := l₄) hindicators (by rw [hcol]; omega)
  rw [layout_cons, hdocstring, h₃]
  simp [hcol, h₄, h₅, h₆, h₇]

/-- The layout of a class whose first line is followed by others. -/
theorem layout_open {l₃ l₄ : LogicalLine} (h₃ : l₃.col = 0) (h₄ : l₄.col = 4)
    (inner : List LogicalLine) :
    layout (l₃ :: l₄ :: inner) =
      .node l₃ (.node l₄ ((layout inner).takeWhile (fun t => 4 < t.col)) ::
        ((layout inner).dropWhile (fun t => 4 < t.col)).takeWhile (fun t => 0 < t.col)) ::
      ((layout inner).dropWhile (fun t => 4 < t.col)).dropWhile (fun t => 0 < t.col) := by
  have hcol : ∀ (l : LogicalLine) (children : List Tree), (PySource.Tree.node l children).col = l.col :=
    fun _ _ => rfl
  rw [layout_cons, layout_cons, h₃, h₄]
  simp [hcol, h₄]

/-- The imports in front of a class. -/
theorem layout_imports {l₁ l₂ l₃ : LogicalLine} (h₁ : l₁.col = 0) (h₂ : l₂.col = 0)
    (h₃ : l₃.col = 0) (lines : List LogicalLine) :
    layout (l₁ :: l₂ :: l₃ :: lines) = .node l₁ [] :: .node l₂ [] :: layout (l₃ :: lines) := by
  have hclass := layout_cons l₃ lines
  have hbase := layout_flat (l := l₂) hclass (by rw [h₂]; exact le_of_eq h₃)
  have hcontext := layout_flat (l := l₁) hbase (by rw [h₁]; exact le_of_eq h₂)
  rw [hcontext, hclass]

/-- The statements of the class, as far as they are generated. -/
theorem class_statements (hG : ReadsScaffold F G) {draft : StrategyDraft} {indicators : List Char}
    (hdocstring : IsDocstring F (docstring_line draft)) (hindicators : Settles F indicators)
    {l₄ l₅ l₆ l₇ : LogicalLine} (h₄ : l₄ = ⟨6, 4, docstring_line draft⟩)
    (h₅ : l₅ = ⟨indicators_line draft, 4, assignment "INDICATORS".toList indicators⟩)
    (h₆ : l₆ = ⟨state_line draft, 4, assignment "STATE".toList (state_pairs printable draft)⟩)
    (h₇ : l₇ = ⟨method_line draft, 4, def_line⟩) {below out : List PySource.Tree}
    {ps : List Piece} {body : List Stmt}
    (h : pieces G (.node l₄ [] :: .node l₅ [] :: .node l₆ [] :: .node l₇ below :: out) = some ps)
    (hbody : gather ps = some ([], body)) :
    ∃ docstring_nodes indicators_nodes state_nodes method_nodes inner ps' rest,
      pieces G out = some ps' ∧ gather ps' = some ([], rest) ∧
      body = [ .simple 6 .string docstring_nodes,
        .simple (indicators_line draft) (.assign "INDICATORS".toList) indicators_nodes,
        .simple (state_line draft) (.assign "STATE".toList) state_nodes,
        .compound (method_line draft) (.function_def on_data) method_nodes inner [] ]
          ++ rest := by
  obtain ⟨_, hmethod⟩ := hG.method_head
  have htext₇ : l₇.text = def_line := by rw [h₇]
  have hline₄ : l₄.line = 6 := by rw [h₄]
  have hline₅ : l₅.line = indicators_line draft := by rw [h₅]
  have hline₆ : l₆.line = state_line draft := by rw [h₆]
  have hline₇ : l₇.line = method_line draft := by rw [h₇]
  rw [← htext₇] at hmethod
  have hstate : Settles F (state_pairs printable draft) := settles_pairs printable _
  have htext₅ : l₅.text = assignment "INDICATORS".toList indicators := by rw [h₅]
  have htext₆ : l₆.text = assignment "STATE".toList (state_pairs printable draft) := by rw [h₆]
  obtain ⟨_, hform₄⟩ := docstring_form hG.strings hdocstring h₄ h
  obtain ⟨docstring_nodes, ps₄, hps₄, rfl⟩ := pieces_simple hform₄ h
  obtain ⟨_, hform₅⟩ := assignment_form hG.displays (by decide) hindicators htext₅ hps₄
  obtain ⟨indicators_nodes, ps₅, hps₅, rfl⟩ := pieces_simple hform₅ hps₄
  obtain ⟨_, hform₆⟩ := assignment_form hG.displays (by decide) hstate htext₆ hps₅
  obtain ⟨state_nodes, ps₆, hps₆, rfl⟩ := pieces_simple hform₆ hps₅
  obtain ⟨method_nodes, inner, _, ps₇, _, _, hps₇, rfl⟩ :=
    pieces_definition hmethod (by simp) hps₆
  obtain ⟨rest₁, hbody₁, rfl⟩ := gather_simple hbody
  obtain ⟨rest₂, hbody₂, rfl⟩ := gather_simple hbody₁
  obtain ⟨rest₃, hbody₃, rfl⟩ := gather_simple hbody₂
  obtain ⟨rest, hrest, rfl⟩ := gather_definition (by simp [Head.accepts]) hbody₃
  rw [hline₄, hline₅, hline₆, hline₇]
  exact ⟨_, _, _, _, inner, ps₇, rest, hps₇, hrest, rfl⟩

/-- Lines that come to no statement are no lines. -/
theorem trees_of_gather {ts : List PySource.Tree} {ps : List Piece} {rest : List Stmt}
    (hps : pieces G ts = some ps) (hrest : gather ps = some ([], rest)) :
    rest = [] ↔ ts = [] := by
  constructor
  · intro hnone
    by_contra hsome
    rcases gather_ne_nil hrest (pieces_ne_nil G hps hsome) (pieces_ne_simples G hps) with h | h
    · exact h rfl
    · exact h hnone
  · intro hnone
    rw [hnone] at hps
    obtain rfl := Option.some.inj hps
    exact (Prod.mk.inj (Option.some.inj hrest)).2.symm

/-- The lines that are not below the method. -/
theorem out_eq_nil {inner : List LogicalLine} :
    (((layout inner).dropWhile (fun t => 4 < t.col)).takeWhile (fun t => 0 < t.col) = [] ∧
      ((layout inner).dropWhile (fun t => 4 < t.col)).dropWhile (fun t => 0 < t.col) = []) ↔
      ∀ l ∈ inner, 4 < l.col := by
  have hcol := @layout_col inner 4
  rw [← hcol]
  constructor
  · intro ⟨hclass, hfile⟩
    have hout := List.takeWhile_append_dropWhile (p := fun t => decide (0 < PySource.Tree.col t))
      (l := (layout inner).dropWhile (fun t => 4 < t.col))
    rw [hclass, hfile] at hout
    intro t ht
    simpa using List.dropWhile_eq_nil_iff.mp hout.symm t ht
  · intro h
    have hout : (layout inner).dropWhile (fun t => 4 < t.col) = [] := by
      rw [List.dropWhile_eq_nil_iff]
      intro t ht
      simpa using h t ht
    rw [hout]
    exact ⟨rfl, rfl⟩

/-- What starts on a line of the fragment is in the method. -/
theorem confined_of_scaffold {draft : StrategyDraft} {body tree : List Stmt}
    (h : Scaffold draft body tree) : Confined draft tree := by
  refine ⟨body, h, ?_⟩
  obtain ⟨_, _, _, _, _, _, _, rfl⟩ := h
  intro s hs hline
  have hlines : fragment_line draft = method_line draft + 1 ∧
      method_line draft = state_line draft + 2 ∧ indicators_line draft + 2 ≤ state_line draft ∧
      8 ≤ indicators_line draft := by
    unfold fragment_line method_line state_line indicators_line
    omega
  have hstart : fragment_line draft ≤ s.line := hline.1
  simp only [block_statements, Stmt.statements, clause_statements, List.mem_append, List.mem_cons,
    List.not_mem_nil, or_false, List.append_nil] at hs
  rcases hs with rfl | rfl | rfl | rfl | rfl | rfl | rfl | hs
  · simp only [Stmt.line] at hstart; omega
  · simp only [Stmt.line] at hstart; omega
  · simp only [Stmt.line] at hstart; omega
  · simp only [Stmt.line] at hstart; omega
  · simp only [Stmt.line] at hstart; omega
  · simp only [Stmt.line] at hstart; omega
  · simp only [Stmt.line] at hstart; omega
  · exact hs

/-- With a docstring that closes, the fragment is in the method if all of its
    lines are behind column 4. -/
theorem confined_closed (hG : ReadsScaffold F G) {draft : StrategyDraft} {indicators : List Char}
    {lines : List LogicalLine} (hlines : ClosedLines printable F draft indicators lines)
    {ps : List Piece} {tree : List Stmt} (hps : pieces G (layout lines) = some ps)
    (htree : gather ps = some ([], tree)) :
    Confined draft tree ↔
      ∀ inner, fragment_lines F draft = some inner → ∀ l ∈ inner, 4 < l.col := by
  obtain ⟨hdocstring, hsettles, inner, hinner, rfl⟩ := hlines
  generalize h₁ : (⟨1, 0, context_line⟩ : LogicalLine) = l₁ at hps
  generalize h₂ : (⟨2, 0, base_line⟩ : LogicalLine) = l₂ at hps
  generalize h₃ : (⟨5, 0, class_line⟩ : LogicalLine) = l₃ at hps
  generalize h₄ : (⟨6, 4, docstring_line draft⟩ : LogicalLine) = l₄ at hps
  generalize h₅ : (⟨indicators_line draft, 4, assignment "INDICATORS".toList indicators⟩ :
    LogicalLine) = l₅ at hps
  generalize h₆ : (⟨state_line draft, 4, assignment "STATE".toList (state_pairs printable draft)⟩ :
    LogicalLine) = l₆ at hps
  generalize h₇ : (⟨method_line draft, 4, def_line⟩ : LogicalLine) = l₇ at hps
  simp only [List.cons_append, List.nil_append] at hps
  rw [layout_imports (by rw [← h₁]) (by rw [← h₂]) (by rw [← h₃]),
    layout_class (by rw [← h₃]) (by rw [← h₄]) (by rw [← h₅]) (by rw [← h₆]) (by rw [← h₇])]
    at hps
  obtain ⟨_, _, _, _, body, ps', rest, hchildren, hbody, hfile, hrest, rfl⟩ :=
    file_statements hG h₁.symm h₂.symm h₃.symm hps htree
  obtain ⟨_, _, _, _, method, ps'', more, hclass, hmore, rfl⟩ :=
    class_statements printable hG hdocstring hsettles h₄.symm h₅.symm h₆.symm h₇.symm hchildren
      hbody
  have hcols : (∀ inner, fragment_lines F draft = some inner → ∀ l ∈ inner, 4 < l.col) ↔
      more = [] ∧ rest = [] := by
    rw [trees_of_gather hclass hmore, trees_of_gather hfile hrest, out_eq_nil]
    constructor
    · exact fun h => h inner hinner
    · intro h inner' hinner'
      rw [hinner] at hinner'
      rw [← Option.some.inj hinner']
      exact h
  rw [hcols]
  constructor
  · intro ⟨body, hscaffold, _⟩
    obtain ⟨_, _, _, _, _, _, _, htree⟩ := hscaffold
    -- the lists agree, so nothing follows the class and the method
    obtain ⟨hclassdef, hrestnil⟩ :=
      List.cons.inj (List.cons.inj (List.cons.inj htree).2).2
    have hbodies := (Stmt.compound.inj hclassdef).2.2.2.1
    have hmorenil :=
      (List.cons.inj (List.cons.inj (List.cons.inj (List.cons.inj hbodies).2).2).2).2
    exact ⟨hmorenil, hrestnil⟩
  · intro ⟨hnone, hnone'⟩
    apply confined_of_scaffold
    rw [hnone, hnone']
    exact ⟨_, _, _, _, _, _, _, rfl⟩

/-- Simple statements come from a line of simple statements. -/
theorem simples_of_piece {l : LogicalLine} {children : List PySource.Tree} {first : List Stmt}
    (h : piece G (.node l children) = some (.simples first)) :
    ∃ kind nodes behind, G.statement l.text = some (.simple kind nodes behind) ∧
      first = .simple l.line kind (nodes.map (l.line + ·)) ::
        behind.map (Written.stmt l.line) := by
  rw [piece] at h
  split at h
  · exact absurd h (by simp)
  · rename_i kind nodes behind hform
    split at h
    · exact ⟨kind, nodes, behind, hform, (Piece.simples.inj (Option.some.inj h)).symm⟩
    · exact absurd h (by simp)
  · split at h
    · obtain ⟨_, _, heq⟩ := Option.map_eq_some_iff.mp h
      exact absurd heq (by simp)
    · exact absurd h (by simp)
  · obtain ⟨_, _, heq⟩ := Option.map_eq_some_iff.mp h
    exact absurd heq (by simp)
  · obtain ⟨_, _, heq⟩ := Option.map_eq_some_iff.mp h
    exact absurd heq (by simp)
  · split at h
    · exact absurd h (by simp)
    · exact absurd h (by simp)

/-- With a docstring that does not close, the statement behind it is not where
    `INDICATORS` is to be. -/
theorem not_confined_open (hG : ReadsScaffold F G) {draft : StrategyDraft}
    {lines : List LogicalLine} (hlines : OpenLines F draft lines) {ps : List Piece}
    {tree : List Stmt} (hps : pieces G (layout lines) = some ps)
    (htree : gather ps = some ([], tree)) : ¬ Confined draft tree := by
  obtain ⟨literal, text, inner, hliteral, rfl, hbelow, hinner⟩ := hlines
  generalize h₁ : (⟨1, 0, context_line⟩ : LogicalLine) = l₁ at hps
  generalize h₂ : (⟨2, 0, base_line⟩ : LogicalLine) = l₂ at hps
  generalize h₃ : (⟨5, 0, class_line⟩ : LogicalLine) = l₃ at hps
  simp only [List.cons_append, List.nil_append] at hps
  rw [layout_imports (by rw [← h₁]) (by rw [← h₂]) (by rw [← h₃]),
    layout_open (by rw [← h₃]) rfl] at hps
  obtain ⟨_, _, _, _, body, ps', rest, hchildren, hbody, _, _, rfl⟩ :=
    file_statements hG h₁.symm h₂.symm h₃.symm hps htree
  intro ⟨_, ⟨_, _, _, _, _, _, _, hscaffold⟩, _⟩
  obtain ⟨hclassdef, _⟩ := List.cons.inj (List.cons.inj (List.cons.inj hscaffold).2).2
  have hbodies := (Stmt.compound.inj hclassdef).2.2.2.1
  rw [hbodies] at hbody
  -- the first line of the class is the one with the docstring
  rw [pieces] at hchildren
  obtain ⟨p, hp, hchildren⟩ := Option.bind_eq_some_iff.mp hchildren
  obtain ⟨others, hothers, rfl⟩ := Option.map_eq_some_iff.mp hchildren
  have hlater : ∀ q ∈ others, q.Below (indicators_line draft + 1) := by
    apply pieces_below G hothers
    intro t ht
    exact hinner _ (layout_line ((List.dropWhile_sublist _).mem ((List.takeWhile_sublist _).mem ht)))
  rw [gather] at hbody
  obtain ⟨⟨clauses, statements⟩, hgather, hbody⟩ := Option.bind_eq_some_iff.mp hbody
  have hbelow' := gather_below hgather hlater
  cases p with
  | simples first =>
    obtain ⟨kind, nodes, behind, hform, rfl⟩ := simples_of_piece hp
    have hbehind := hG.strings.behind literal text kind _ behind hliteral hform
    simp only at hbody
    split at hbody
    · have hsecond := (List.cons.inj (Prod.mk.inj (Option.some.inj hbody)).2).2
      cases behind with
      | nil =>
        -- it comes from a line behind the string
        have hline : indicators_line draft + 1 ≤ indicators_line draft := by
          apply hbelow' (.simple (indicators_line draft) (.assign "INDICATORS".toList) _)
          rw [show statements = _ from hsecond]
          exact List.mem_cons_self
        omega
      | cons w behind =>
        -- it stands behind a semicolon
        have hline : 6 + w.below = indicators_line draft :=
          (Stmt.simple.inj (List.cons.inj hsecond).1).1
        have hle := hbehind w List.mem_cons_self
        omega
    · exact absurd hbody (by simp)
  | head line head nodes body cases =>
    simp only at hbody
    split at hbody
    · exact absurd (Prod.mk.inj (Option.some.inj hbody)).2 (by simp)
    · exact absurd hbody (by simp)
  | clause clause nodes body =>
    exact absurd (Prod.mk.inj (Option.some.inj hbody)).1 (by simp)
  | decorator nodes =>
    simp only at hbody
    split at hbody
    · obtain ⟨decorated, hdecorate, heq⟩ := Option.map_eq_some_iff.mp hbody
      rw [(Prod.mk.inj heq).2] at hdecorate
      unfold decorate at hdecorate
      split at hdecorate
      · split at hdecorate
        · exact absurd (Option.some.inj hdecorate) (by simp)
        · exact absurd hdecorate (by simp)
      · exact absurd hdecorate (by simp)
    · exact absurd hbody (by simp)

/-! ### Drafts of a few lines -/

/-- No f-strings. -/
def no_fstrings : FStrings where
  State := Unit
  start := fun _ _ _ => ()
  step := fun _ _ => none

/-- The lines of a scaffold, and two more. -/
def few_lines : Grammar where
  statement := fun text =>
    match text.dropWhile Char.isUpper with
    | ' ' :: '=' :: ' ' :: '{' :: _ =>
        some (.simple (.assign (text.takeWhile Char.isUpper)) [0] [])
    | '"' :: _ => some (.simple .string [0] [])
    | _ =>
        if text = context_line then
          some (.simple (.import_from "engine.strategies.order_interface".toList
            ["StrategyContext".toList]) [0] [])
        else if text = base_line then
          some (.simple (.import_from "engine.strategies.portfolio_BASE.strategy".toList
            [base_class_name]) [0] [])
        else if text = class_line then
          some (.head (.class_def generated_class_name [some base_class_name]) [0] [])
        else if text = def_line then some (.head (.function_def on_data) [0] [])
        else if text = "pass".toList then some (.simple .other [0] [])
        else if text = "import math".toList then some (.simple .import_module [0] [])
        else none
  case_line := fun _ => none

theorem few_lines_string {text : List Char} (h : Literal no_fstrings text) (more : List Char) :
    few_lines.statement (text ++ more) = some (.simple .string [0] []) := by
  obtain ⟨inner, rfl, _⟩ := h
  rfl

theorem few_lines_scaffold : ReadsScaffold no_fstrings few_lines where
  context := ⟨[0], by decide +kernel⟩
  base := ⟨[0], by decide +kernel⟩
  class_head := ⟨[0], by decide +kernel⟩
  method_head := ⟨[0], by decide +kernel⟩
  strings :=
    { strings := by
        intro text htext more _ form hform
        rw [few_lines_string htext] at hform
        exact ⟨[0], (Option.some.inj hform).symm⟩
      behind := by
        intro text more kind nodes others htext hform
        rw [few_lines_string htext] at hform
        rw [← (Form.simple.inj (Option.some.inj hform)).2.2]
        exact fun w hw => absurd hw List.not_mem_nil }
  displays := by
    intro name inner hname _ form hform
    have hdrop : (name ++ [' ', '=', ' ', '{'] ++ inner ++ ['}']).dropWhile Char.isUpper =
        ' ' :: '=' :: ' ' :: '{' :: (inner ++ ['}']) := by
      rw [List.append_assoc, List.append_assoc, List.dropWhile_append_of_pos hname]
      rfl
    have htake : (name ++ [' ', '=', ' ', '{'] ++ inner ++ ['}']).takeWhile Char.isUpper = name := by
      rw [List.append_assoc, List.append_assoc, List.takeWhile_append_of_pos hname]
      simp
    have hstatement : few_lines.statement (name ++ [' ', '=', ' ', '{'] ++ inner ++ ['}']) =
        some (.simple (.assign name) [0] []) := by
      simp only [few_lines, hdrop, htake]
    rw [hstatement] at hform
    exact ⟨[0], (Option.some.inj hform).symm⟩

/-- A method that does nothing. -/
def idle : StrategyDraft := { body := "pass".toList }

/-- A form feed takes the indentation of the second line back. -/
def form_feed : StrategyDraft := { body := "pass\n\x0cimport math".toList }

/-- The tree of an assembled draft. -/
def tree_of (draft : StrategyDraft) : Option (List Stmt) :=
  match assemble_checked (fun _ => true) no_fstrings few_lines draft with
  | .ok assembled => parse no_fstrings few_lines assembled.source
  | .error _ => none

theorem tree_of_length {draft : StrategyDraft} {n : ℕ}
    (h : (tree_of draft).map List.length = some n) : ∃ assembled tree,
    assemble_checked (fun _ => true) no_fstrings few_lines draft = .ok assembled ∧
      parse no_fstrings few_lines assembled.source = some tree ∧ tree.length = n := by
  unfold tree_of at h
  cases hassembled : assemble_checked (fun _ => true) no_fstrings few_lines draft with
  | error e => exact absurd h (by simp [hassembled])
  | ok assembled =>
    rw [hassembled] at h
    obtain ⟨tree, htree, hlength⟩ := Option.map_eq_some_iff.mp h
    exact ⟨assembled, tree, rfl, htree, hlength⟩

/-- **The fragment stays in the method** exactly if its docstring closes and
    all of its logical lines start behind column 4. -/
theorem assemble_checked_confined (hG : ReadsScaffold F G) {draft : StrategyDraft}
    {assembled : Assembled} (h : assemble_checked printable F G draft = .ok assembled)
    {tree : List Stmt} (htree : parse F G assembled.source = some tree) :
    Confined draft tree ↔
      closes draft.docstring = true ∧
        ∀ lines, fragment_lines F draft = some lines → ∀ l ∈ lines, 4 < l.col := by
  have hassemble : assemble printable draft = .ok assembled := by
    unfold assemble_checked at h
    obtain ⟨a, ha, hshape⟩ := Fallible.bind_ok h
    obtain ⟨_, _, hsame⟩ := Fallible.map_ok hshape
    rw [ha, hsame]
  obtain ⟨indicators, hrender, hsource⟩ := translate_source printable hassemble
  obtain ⟨lines, ps, hlines, hps, hgather⟩ := parse_some htree
  unfold file_lines at hlines
  rw [hsource] at hlines
  cases hcloses : closes draft.docstring with
  | true =>
    rw [confined_closed printable hG (closed_lines printable F hrender hcloses hlines) hps hgather]
    simp
  | false =>
    have hnot := not_confined_open hG (open_lines printable F hrender hcloses hlines) hps hgather
    simp [hnot]

/-- A fragment of one line stays inside. -/
theorem idle_confined : ∃ assembled tree,
    assemble_checked (fun _ => true) no_fstrings few_lines idle = .ok assembled ∧
      parse no_fstrings few_lines assembled.source = some tree ∧ Confined idle tree := by
  have hidle : (tree_of idle).map List.length = some 3 := by decide +kernel
  obtain ⟨assembled, tree, h, htree, _⟩ := tree_of_length hidle
  refine ⟨assembled, tree, h, htree,
    (assemble_checked_confined _ few_lines_scaffold h htree).mpr ⟨by decide +kernel, ?_⟩⟩
  intro lines hlines
  have hsome : fragment_lines no_fstrings idle = some [⟨13, 8, "pass".toList⟩] := by
    decide +kernel
  rw [hsome] at hlines
  rw [← Option.some.inj hlines]
  decide

/-- The import behind a form feed is a statement of the module. -/
theorem form_feed_escapes : ∃ assembled tree,
    assemble_checked (fun _ => true) no_fstrings few_lines form_feed = .ok assembled ∧
      parse no_fstrings few_lines assembled.source = some tree ∧ ¬ Confined form_feed tree := by
  have hescape : (tree_of form_feed).map List.length = some 4 := by decide +kernel
  obtain ⟨assembled, tree, h, htree, hlength⟩ := tree_of_length hescape
  refine ⟨assembled, tree, h, htree, ?_⟩
  intro ⟨_, ⟨_, _, _, _, _, _, _, hscaffold⟩, _⟩
  rw [hscaffold] at hlength
  exact absurd hlength (by simp)

end Authoring
