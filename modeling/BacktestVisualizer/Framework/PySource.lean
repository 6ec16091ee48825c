import Mathlib

/-! # Source Text of Python

  How `ast.parse` gets from the text of a file to its statements. The
  characters are joined to logical lines, each with the column it is indented
  to. A line that is indented more than another one before it belongs to the
  block of that one. From every line come the statements that are written on
  it, and the block behind the head of a compound statement is its body.

  What stands on one logical line is read by a grammar that comes from
  outside, and so are the characters of an f-string. The limits on the depth
  of brackets and of blocks are left out.
-/

namespace PySource

/-! ### Lines of text -/

/-- `\r\n` and a lone `\r` end a line like `\n`. -/
def translate_newlines : List Char → List Char
  | [] => []
  | '\r' :: '\n' :: cs => '\n' :: translate_newlines cs
  | '\r' :: cs => '\n' :: translate_newlines cs
  | c :: cs => c :: translate_newlines cs

/-- The last line is ended as well. -/
def end_last_line (cs : List Char) : List Char :=
  if cs = [] ∨ cs.getLast? = some '\n' then cs else cs ++ ['\n']

def newlines (cs : List Char) : ℕ := cs.count '\n'

section Decidable

variable (p : Char → Prop) [DecidablePred p]

/-- What holds of the characters of a text is decided along the text, not by
    going through all characters there are. -/
scoped instance (priority := 2000) decidable_forall_mem_text (cs : List Char) :
    Decidable (∀ c ∈ cs, p c) :=
  List.decidableBAll p cs

scoped instance (priority := 2000) decidable_forall_mem_first (first : Option Char) :
    Decidable (∀ c ∈ first, p c) :=
  Option.decidableForallMem first

end Decidable

/-- Texts are compared letter by letter. -/
scoped instance lawful_text : LawfulBEq (List Char) := inferInstance

/-! ### Inside a logical line -/

/-- How the characters of an f-string are read, from behind its opening quotes
    on. The string is told apart by its letters, its quote and whether that
    stands three times. -/
structure FStrings where
  State : Type
  start : List Char → Char → Bool → State
  /-- `none` is an error, and `some none` is the end of the string. -/
  step : State → Char → Option (Option State)

variable {F : FStrings}

/-- Where the tokenizer is between two characters of a logical line. The
    brackets that are open are told by what closes them, the inner ones
    first. -/
inductive Mode (F : FStrings) where
  /-- In code, behind these letters of a name. -/
  | code (word : List Char) (depth : List Char)
  | comment (depth : List Char)
  /-- Behind a backslash that joins two lines. -/
  | backslash (depth : List Char)
  /-- Behind the first quote of a string, or its second one. -/
  | opened (twice : Bool) (letters : List Char) (quote : Char) (depth : List Char)
  | single (quote : Char) (escaped : Bool) (depth : List Char)
  /-- In a string of three quotes, behind `n` quotes that may close it. -/
  | triple (quote : Char) (n : ℕ) (escaped : Bool) (depth : List Char)
  | formatted (state : F.State) (depth : List Char)

/-- A letter of a name. -/
def is_word (c : Char) : Bool := c.isAlphanum || c = '_' || 128 ≤ c.toNat

/-- The letters in front of an f-string. -/
def is_formatted (letters : List Char) : Bool :=
  letters.map Char.toLower ∈ [['f'], ['r', 'f'], ['f', 'r']]

/-- What a bracket opens, by what closes it. -/
def closing : Char → Option Char
  | '(' => some ')'
  | '[' => some ']'
  | '{' => some '}'
  | _ => none

def is_closing (c : Char) : Bool := c = ')' || c = ']' || c = '}'

/-- One character of code. The logical line ends (`some none`) with a newline
    outside of all brackets; `none` is an error. -/
def code_step (word depth : List Char) (c : Char) : Option (Option (Mode F)) :=
  if c = '\n' then
    if depth = [] then some none else some (some (.code [] depth))
  else if c = '#' then some (some (.comment depth))
  else if c = '\\' then some (some (.backslash depth))
  else if c = '"' ∨ c = '\'' then some (some (.opened false word c depth))
  else if is_word c then some (some (.code (word ++ [c]) depth))
  else if is_closing c then
    match depth with
    | [] => none
    | d :: depth => if c = d then some (some (.code [] depth)) else none
  else
    match closing c with
    | some d => some (some (.code [] (d :: depth)))
    | none => some (some (.code [] depth))

/-- One character of a string in single quotes. -/
def single_step (quote : Char) (escaped : Bool) (depth : List Char) (c : Char) :
    Option (Option (Mode F)) :=
  if escaped then some (some (.single quote false depth))
  else if c = '\\' then some (some (.single quote true depth))
  else if c = quote then some (some (.code [] depth))
  else if c = '\n' then none
  else some (some (.single quote false depth))

/-- One character of a string in three quotes. -/
def triple_step (quote : Char) (n : ℕ) (escaped : Bool) (depth : List Char) (c : Char) :
    Option (Option (Mode F)) :=
  if escaped then some (some (.triple quote 0 false depth))
  else if c = '\\' then some (some (.triple quote 0 true depth))
  else if c = quote then
    if n = 2 then some (some (.code [] depth)) else some (some (.triple quote (n + 1) false depth))
  else some (some (.triple quote 0 false depth))

def formatted_step (state : F.State) (depth : List Char) (c : Char) : Option (Option (Mode F)) :=
  (F.step state c).map (fun
    | some state => some (.formatted state depth)
    | none => some (.code [] depth))

/-- One character of a logical line. -/
def Mode.step : Mode F → Char → Option (Option (Mode F))
  | .code word depth, c => code_step word depth c
  | .comment depth, c => if c = '\n' then code_step [] depth c else some (some (.comment depth))
  | .backslash depth, c => if c = '\n' then some (some (.code [] depth)) else none
  | .opened false letters quote depth, c =>
      if c = quote then some (some (.opened true letters quote depth))
      else if is_formatted letters then formatted_step (F.start letters quote false) depth c
      else single_step quote false depth c
  | .opened true letters quote depth, c =>
      if c = quote then
        if is_formatted letters then some (some (.formatted (F.start letters quote true) depth))
        else some (some (.triple quote 0 false depth))
      -- two quotes alone are the empty string
      else code_step [] depth c
  | .single quote escaped depth, c => single_step quote escaped depth c
  | .triple quote n escaped depth, c => triple_step quote n escaped depth c
  | .formatted state depth, c => formatted_step state depth c

/-- Characters that do not end the logical line. -/
def Mode.read (m : Mode F) : List Char → Option (Mode F)
  | [] => some m
  | c :: cs =>
      match m.step c with
      | some (some m) => m.read cs
      | some none => none
      | none => none

/-! ### Logical lines -/

/-- A logical line: the line of the file its first character stands on, the
    column of that, and the text from there on. -/
structure LogicalLine where
  line : ℕ
  col : ℕ
  text : List Char
  deriving DecidableEq, Repr

/-- Where the tokenizer is in a file. -/
inductive Place (F : FStrings) where
  /-- In the indentation of a line, at this column. `first` is the column of a
      backslash that joined the line to the one before it, or 0. Behind such
      a backslash the file does not end (`joined`). -/
  | indent (col first : ℕ) (joined : Bool)
  | backslash (col first : ℕ)
  /-- In a line that is a comment only. -/
  | skip
  | inside (line col : ℕ) (text : List Char) (m : Mode F)

def Place.start : Place F := .indent 0 0 false

/-- The logical lines of a text, which starts on line `n` of the file. -/
def logical_lines : ℕ → Place F → List Char → Option (List LogicalLine)
  | _, .indent _ _ false, [] => some []
  | _, .indent _ _ true, [] => none
  | _, .backslash _ _, [] => none
  | _, .skip, [] => none
  | _, .inside _ _ _ _, [] => none
  | n, .skip, c :: cs =>
      if c = '\n' then logical_lines (n + 1) .start cs else logical_lines n .skip cs
  | n, .backslash col first, c :: cs =>
      if c = '\n' then logical_lines (n + 1) (.indent col first true) cs else none
  | n, .indent col first _, c :: cs =>
      if c = ' ' then logical_lines n (.indent (col + 1) first false) cs
      else if c = '\t' then logical_lines n (.indent ((col / 8 + 1) * 8) first false) cs
      -- a form feed starts the line over
      else if c = '\x0c' then logical_lines n (.indent 0 first false) cs
      else if c = '\\' then
        logical_lines n (.backslash col (if first = 0 then col else first)) cs
      else if c = '\n' then logical_lines (n + 1) .start cs
      else if c = '#' then logical_lines n .skip cs
      else
        match code_step [] [] c with
        | some (some m) =>
            logical_lines n (.inside n (if first = 0 then col else first) [c] m) cs
        | some none => none
        | none => none
  | n, .inside line col text m, c :: cs =>
      match m.step c with
      | some (some m) =>
          logical_lines (if c = '\n' then n + 1 else n) (.inside line col (c :: text) m) cs
      | some none =>
          (logical_lines (n + 1) .start cs).map (fun lines => ⟨line, col, text.reverse⟩ :: lines)
      | none => none

/-! ### Blocks -/

/-- A logical line, and the lines of its block. -/
inductive Tree where
  | node (line : LogicalLine) (children : List Tree)

def Tree.line : Tree → LogicalLine
  | .node line _ => line

def Tree.col (t : Tree) : ℕ := t.line.col

/-- A line takes the lines behind it that are indented more than it is. -/
def layout : List LogicalLine → List Tree
  | [] => []
  | l :: lines =>
      let trees := layout lines
      .node l (trees.takeWhile (fun t => l.col < t.col)) ::
        trees.dropWhile (fun t => l.col < t.col)

/-- The lines of a block start in one column. -/
def aligned : List Tree → Bool
  | [] => true
  | t :: trees => trees.all (fun t' => t'.col = t.col)

/-! ### Statements -/

/-- What is told of a simple statement. -/
inductive Simple where
  | import_module
  | import_from (module : List Char) (names : List (List Char))
  /-- An assignment to one name. -/
  | assign (name : List Char)
  /-- An expression that is a string. -/
  | string
  | other
  deriving DecidableEq, Repr

/-- What is told of the head of a compound statement. A base is told where it
    is a name. -/
inductive Head where
  | class_def (name : List Char) (bases : List (Option (List Char)))
  | function_def (name : List Char)
  | async_function_def (name : List Char)
  | if_block
  | loop
  | try_block
  | with_block
  | match_block
  deriving DecidableEq, Repr

/-- A clause that goes on with a compound statement. -/
inductive Clause where
  | elif_clause
  | else_clause
  | except_clause
  | finally_clause
  | case_clause
  deriving DecidableEq, Repr

/-- A statement, the line it starts on and the lines of the other nodes that
    are written with it. -/
inductive Stmt where
  | simple (line : ℕ) (kind : Simple) (nodes : List ℕ)
  | compound (line : ℕ) (head : Head) (nodes : List ℕ) (body : List Stmt)
      (clauses : List (Clause × List ℕ × List Stmt))

def Stmt.line : Stmt → ℕ
  | .simple line _ _ => line
  | .compound line _ _ _ _ => line

mutual

/-- The lines of all nodes of a statement. -/
def Stmt.lines : Stmt → List ℕ
  | .simple line _ nodes => line :: nodes
  | .compound line _ nodes body clauses =>
      line :: nodes ++ block_lines body ++ clause_lines clauses

def block_lines : List Stmt → List ℕ
  | [] => []
  | s :: body => s.lines ++ block_lines body

def clause_lines : List (Clause × List ℕ × List Stmt) → List ℕ
  | [] => []
  | (_, nodes, body) :: clauses => nodes ++ block_lines body ++ clause_lines clauses

end

mutual

/-- A statement and the statements in it. -/
def Stmt.statements : Stmt → List Stmt
  | .simple line kind nodes => [.simple line kind nodes]
  | .compound line head nodes body clauses =>
      .compound line head nodes body clauses ::
        (block_statements body ++ clause_statements clauses)

def block_statements : List Stmt → List Stmt
  | [] => []
  | s :: body => s.statements ++ block_statements body

def clause_statements : List (Clause × List ℕ × List Stmt) → List Stmt
  | [] => []
  | (_, _, body) :: clauses => block_statements body ++ clause_statements clauses

end

/-- A simple statement on a logical line: how many lines below its first line
    the statement and its other nodes start. -/
structure Written where
  below : ℕ
  kind : Simple
  nodes : List ℕ
  deriving DecidableEq, Repr

/-- What a logical line comes to. The nodes of a head or a clause are told
    like those of a simple statement. What follows the colon on the same line
    is the `suite`; without one a block follows. -/
inductive Form where
  /-- Simple statements; the first one starts with the line. -/
  | simple (kind : Simple) (nodes : List ℕ) (others : List Written)
  | head (head : Head) (nodes : List ℕ) (suite : List Written)
  | clause (clause : Clause) (nodes : List ℕ) (suite : List Written)
  | decorator (nodes : List ℕ)
  deriving DecidableEq, Repr

/-- The grammar of a logical line. Its text is a syntax error where there is
    none. The block of a `match` has lines of its own. -/
structure Grammar where
  statement : List Char → Option Form
  case_line : List Char → Option (List ℕ × List Written)

/-- The clauses a compound statement may have. -/
def Head.accepts : Head → List Clause → Bool
  | .if_block, clauses =>
      (clauses.dropWhile (fun c => c = .elif_clause)) ∈ [[], [.else_clause]]
  | .loop, clauses => clauses ∈ [[], [.else_clause]]
  | .try_block, clauses =>
      if clauses.head? = some .except_clause then
        (clauses.dropWhile (fun c => c = .except_clause)) ∈
          [[], [.else_clause], [.finally_clause], [.else_clause, .finally_clause]]
      else clauses = [.finally_clause]
  | .match_block, clauses => clauses ≠ [] && clauses.all (fun c => c = .case_clause)
  | .class_def _ _, clauses => clauses = []
  | .function_def _, clauses => clauses = []
  | .async_function_def _, clauses => clauses = []
  | .with_block, clauses => clauses = []

def Head.is_decorated : Head → Bool
  | .class_def _ _ => true
  | .function_def _ => true
  | .async_function_def _ => true
  | .if_block => false
  | .loop => false
  | .try_block => false
  | .with_block => false
  | .match_block => false

/-- A logical line with its block. -/
inductive Piece where
  | simples (statements : List Stmt)
  | head (line : ℕ) (head : Head) (nodes : List ℕ) (body : List Stmt)
      (cases : List (Clause × List ℕ × List Stmt))
  | clause (clause : Clause) (nodes : List ℕ) (body : List Stmt)
  | decorator (nodes : List ℕ)

def Written.stmt (line : ℕ) (w : Written) : Stmt :=
  .simple (line + w.below) w.kind (w.nodes.map (line + ·))

/-- A decorator belongs to the definition below it. -/
def decorate (nodes : List ℕ) : List Stmt → Option (List Stmt)
  | .compound line head others body clauses :: statements =>
      if head.is_decorated then
        some (.compound line head (nodes ++ others) body clauses :: statements)
      else none
  | _ => none

/-- The statements of a block, and the clauses in front of them that go on
    with a statement before. -/
def gather : List Piece → Option (List (Clause × List ℕ × List Stmt) × List Stmt)
  | [] => some ([], [])
  | p :: pieces =>
      (gather pieces).bind fun (clauses, statements) =>
        match p with
        | .simples first => if clauses = [] then some ([], first ++ statements) else none
        | .head line head nodes body cases =>
            if head.accepts ((cases ++ clauses).map Prod.fst) then
              some ([], .compound line head nodes body (cases ++ clauses) :: statements)
            else none
        | .clause clause nodes body => some ((clause, nodes, body) :: clauses, statements)
        | .decorator nodes =>
            if clauses = [] then (decorate nodes statements).map (fun s => ([], s)) else none

/-- The statements of a block. -/
def assemble_block (pieces : List Piece) : Option (List Stmt) :=
  (gather pieces).bind (fun gathered => if gathered.1 = [] then some gathered.2 else none)

/-- The body behind a colon: on the line itself, or the block below it. -/
def body_of (line : ℕ) (suite : List Written) (children : List Tree)
    (block : Option (List Piece)) : Option (List Stmt) :=
  if children = [] then
    if suite = [] then none else some (suite.map (Written.stmt line))
  else if suite = [] ∧ aligned children then block.bind assemble_block
  else none

variable (G : Grammar)

mutual

/-- What a line of a block comes to, with the lines below it. -/
def piece : Tree → Option Piece
  | .node l children =>
      match G.statement l.text with
      | none => none
      | some (.simple kind nodes others) =>
          if children = [] then
            some (.simples (.simple l.line kind (nodes.map (l.line + ·)) ::
              others.map (Written.stmt l.line)))
          else none
      | some (.head .match_block nodes suite) =>
          if suite = [] ∧ aligned children then
            (case_pieces children).map (.head l.line .match_block (nodes.map (l.line + ·)) [])
          else none
      | some (.head head nodes suite) =>
          (body_of l.line suite children (pieces children)).map
            (fun body => .head l.line head (nodes.map (l.line + ·)) body [])
      | some (.clause clause nodes suite) =>
          (body_of l.line suite children (pieces children)).map
            (.clause clause (nodes.map (l.line + ·)))
      | some (.decorator nodes) =>
          if children = [] then some (.decorator (nodes.map (l.line + ·))) else none

def pieces : List Tree → Option (List Piece)
  | [] => some []
  | t :: trees => (piece t).bind (fun p => (pieces trees).map (p :: ·))

/-- A line of the block of a `match`. -/
def case_piece : Tree → Option (Clause × List ℕ × List Stmt)
  | .node l children =>
      match G.case_line l.text with
      | none => none
      | some (nodes, suite) =>
          (body_of l.line suite children (pieces children)).map
            (fun body => (.case_clause, nodes.map (l.line + ·), body))

def case_pieces : List Tree → Option (List (Clause × List ℕ × List Stmt))
  | [] => some []
  | t :: trees => (case_piece t).bind (fun c => (case_pieces trees).map (c :: ·))

end

/-- The statements of a block of lines. -/
def block (trees : List Tree) : Option (List Stmt) :=
  if aligned trees then (pieces G trees).bind assemble_block else none

variable (F)

/-- The logical lines of a file. -/
def file_lines (source : List Char) : Option (List LogicalLine) :=
  logical_lines 1 (Place.start : Place F) (end_last_line (translate_newlines source))

/-- `ast.parse`. The first column of a file is that of its first lines. -/
def parse (source : List Char) : Option (List Stmt) :=
  if '\x00' ∈ source then none
  else
    (file_lines F source).bind (fun lines =>
      if (layout lines).all (fun t => t.col = 0) then block G (layout lines) else none)

/-! ### Ends of lines -/

theorem translate_newlines_append {cs : List Char} (h : ∀ c ∈ cs, c ≠ '\r') (ds : List Char) :
    translate_newlines (cs ++ ds) = cs ++ translate_newlines ds := by
  induction cs with
  | nil => rfl
  | cons c cs ih =>
    have hc : c ≠ '\r' := h c List.mem_cons_self
    rw [List.cons_append, translate_newlines, ih (fun c hc => h c (List.mem_cons_of_mem _ hc))]
    · rfl
    · intro ds' heq _
      exact hc heq
    · exact hc

theorem translate_newlines_self {cs : List Char} (h : ∀ c ∈ cs, c ≠ '\r') :
    translate_newlines cs = cs := by
  have happend := translate_newlines_append h []
  rwa [List.append_nil, translate_newlines, List.append_nil] at happend

/-- A text that does not start with a newline is translated on its own. -/
theorem translate_newlines_split (cs : List Char) {ds : List Char} (h : ds.head? ≠ some '\n') :
    translate_newlines (cs ++ ds) = translate_newlines cs ++ translate_newlines ds := by
  fun_induction translate_newlines cs with
  | case1 => rfl
  | case2 cs ih =>
    rw [List.cons_append, List.cons_append, translate_newlines, ih]
    rfl
  | case3 cs hne ih =>
    rw [List.cons_append, translate_newlines, ih]
    · rfl
    · intro rest heq
      cases cs with
      | nil =>
        apply h
        rw [List.nil_append] at heq
        rw [heq]
        rfl
      | cons c cs =>
        obtain ⟨rfl, _⟩ := List.cons.inj heq
        exact hne cs rfl
  | case4 c cs hne hc ih =>
    rw [List.cons_append, translate_newlines, ih]
    · rfl
    · intro rest heq _
      exact hc heq
    · exact hc

theorem not_mem_translate_newlines (cs : List Char) :
    ∀ c ∈ translate_newlines cs, c ≠ '\r' := by
  fun_induction translate_newlines cs with
  | case1 => exact fun c hc => absurd hc List.not_mem_nil
  | case2 cs ih => exact List.forall_mem_cons.mpr ⟨by decide, ih⟩
  | case3 cs hne ih => exact List.forall_mem_cons.mpr ⟨by decide, ih⟩
  | case4 c cs hne hc ih => exact List.forall_mem_cons.mpr ⟨hc, ih⟩

theorem end_last_line_self (cs : List Char) : end_last_line (cs ++ ['\n']) = cs ++ ['\n'] := by
  unfold end_last_line
  rw [if_pos]
  exact Or.inr (by simp)

/-! ### Reading a logical line -/

variable {F}

@[simp] theorem Mode.read_nil (m : Mode F) : m.read [] = some m := rfl

theorem Mode.read_cons (m : Mode F) (c : Char) (cs : List Char) :
    m.read (c :: cs) = (m.step c).bind (fun next => next.bind (fun m => m.read cs)) := by
  rw [Mode.read]
  cases m.step c with
  | none => rfl
  | some next =>
    cases next with
    | none => rfl
    | some m' => rfl

/-- The first of some characters, and the rest of them. -/
theorem Mode.read_cons_some {m m' : Mode F} {c : Char} {cs : List Char}
    (h : m.read (c :: cs) = some m') :
    ∃ m₁, m.step c = some (some m₁) ∧ m₁.read cs = some m' := by
  rw [Mode.read_cons] at h
  obtain ⟨next, hnext, h⟩ := Option.bind_eq_some_iff.mp h
  obtain ⟨m₁, rfl, h⟩ := Option.bind_eq_some_iff.mp h
  exact ⟨m₁, hnext, h⟩

theorem Mode.read_append (m : Mode F) (cs ds : List Char) :
    m.read (cs ++ ds) = (m.read cs).bind (fun m => m.read ds) := by
  induction cs generalizing m with
  | nil => rfl
  | cons c cs ih =>
    rw [List.cons_append, Mode.read_cons, Mode.read_cons, Option.bind_assoc]
    congr 1
    funext next
    cases next with
    | none => rfl
    | some m' => exact ih m'

theorem Mode.read_of_append {m m' m'' : Mode F} {cs ds : List Char} (h : m.read cs = some m')
    (h' : m'.read ds = some m'') : m.read (cs ++ ds) = some m'' := by
  rw [Mode.read_append, h]
  exact h'

theorem newlines_append (cs ds : List Char) : newlines (cs ++ ds) = newlines cs + newlines ds :=
  List.count_append

theorem newlines_cons (c : Char) (cs : List Char) :
    newlines (c :: cs) = newlines cs + if c = '\n' then 1 else 0 := by
  unfold newlines
  rw [List.count_cons]
  simp

/-! One character of a file, by where it stands. -/

theorem logical_lines_skip_cons (n : ℕ) (c : Char) (cs : List Char) :
    logical_lines n (.skip : Place F) (c :: cs) =
      if c = '\n' then logical_lines (n + 1) (Place.start : Place F) cs
      else logical_lines n (.skip : Place F) cs := rfl

theorem logical_lines_backslash_cons (n col first : ℕ) (c : Char) (cs : List Char) :
    logical_lines n (.backslash col first : Place F) (c :: cs) =
      if c = '\n' then logical_lines (n + 1) (.indent col first true : Place F) cs else none := rfl

theorem logical_lines_indent_cons (n col first : ℕ) (joined : Bool) (c : Char) (cs : List Char) :
    logical_lines n (.indent col first joined : Place F) (c :: cs) =
      if c = ' ' then logical_lines n (.indent (col + 1) first false : Place F) cs
      else if c = '\t' then
        logical_lines n (.indent ((col / 8 + 1) * 8) first false : Place F) cs
      else if c = '\x0c' then logical_lines n (.indent 0 first false : Place F) cs
      else if c = '\\' then
        logical_lines n (.backslash col (if first = 0 then col else first) : Place F) cs
      else if c = '\n' then logical_lines (n + 1) (Place.start : Place F) cs
      else if c = '#' then logical_lines n (.skip : Place F) cs
      else
        match (code_step [] [] c : Option (Option (Mode F))) with
        | some (some m) =>
            logical_lines n (.inside n (if first = 0 then col else first) [c] m) cs
        | some none => none
        | none => none := by
  cases joined with
  | false => rfl
  | true => rfl

theorem logical_lines_inside_cons (n line col : ℕ) (text : List Char) (m : Mode F) (c : Char)
    (cs : List Char) :
    logical_lines n (.inside line col text m) (c :: cs) =
      match m.step c with
      | some (some m) =>
          logical_lines (if c = '\n' then n + 1 else n) (.inside line col (c :: text) m) cs
      | some none =>
          (logical_lines (n + 1) (Place.start : Place F) cs).map
            (fun lines => ⟨line, col, text.reverse⟩ :: lines)
      | none => none := rfl

/-- A file ends where a line may start. -/
theorem logical_lines_nil {n : ℕ} {p : Place F} {lines : List LogicalLine}
    (h : logical_lines n p [] = some lines) :
    lines = [] ∧ ∃ col first, p = .indent col first false := by
  cases p with
  | indent col first joined =>
    cases joined with
    | false => exact ⟨(Option.some.inj h).symm, col, first, rfl⟩
    | true => exact nomatch h
  | backslash col first => exact nomatch h
  | skip => exact nomatch h
  | inside line col text m => exact nomatch h

/-- Characters that stay in the logical line are its text. -/
theorem logical_lines_inside {m m' : Mode F} {cs : List Char} (h : m.read cs = some m')
    (n line col : ℕ) (text rest : List Char) :
    logical_lines n (.inside line col text m) (cs ++ rest) =
      logical_lines (n + newlines cs) (.inside line col (cs.reverse ++ text) m') rest := by
  induction cs generalizing m n text with
  | nil =>
    obtain rfl := Option.some.inj h
    rfl
  | cons c cs ih =>
    obtain ⟨m₁, hstep, h⟩ := Mode.read_cons_some h
    rw [List.cons_append, logical_lines_inside_cons, hstep]
    simp only
    rw [ih h, newlines_cons, List.reverse_cons, List.append_assoc]
    congr 1
    split
    · omega
    · omega

/-- Blanks count as the column. -/
theorem logical_lines_blanks (n col k : ℕ) (rest : List Char) :
    logical_lines n (.indent col 0 false : Place F) (List.replicate k ' ' ++ rest) =
      logical_lines n (.indent (col + k) 0 false : Place F) rest := by
  induction k generalizing col with
  | zero => rfl
  | succ k ih =>
    rw [List.replicate_succ, List.cons_append, logical_lines_indent_cons, if_pos rfl, ih]
    congr 2
    omega

/-- The characters a line does not start with: those of the indentation. -/
def is_margin (c : Char) : Bool := c ∈ [' ', '\t', '\x0c', '\\', '\n', '#']

variable (F)

/-- A text that is one logical line, up to its end. -/
def Whole (text : List Char) : Prop :=
  (∀ c ∈ text.head?, is_margin c = false) ∧ text ≠ [] ∧
    ∃ m : Mode F, (Mode.code [] []).read text = some m ∧ m.step '\n' = some none

variable {F}

/-- The first character of a line leads into it. -/
theorem logical_lines_first {c : Char} (hmargin : is_margin c = false) (n col : ℕ)
    (rest : List Char) {m : Mode F} (h : code_step [] [] c = some (some m)) :
    logical_lines n (.indent col 0 false : Place F) (c :: rest) =
      logical_lines n (.inside n col [c] m) rest := by
  simp [is_margin] at hmargin
  rw [logical_lines_indent_cons]
  simp [hmargin, h]

/-- The start of a logical line, behind its indentation. -/
theorem logical_lines_into {text : List Char} (hhead : ∀ c ∈ text.head?, is_margin c = false)
    (hsome : text ≠ []) {m : Mode F} (hread : (Mode.code [] [] : Mode F).read text = some m)
    (n k : ℕ) (rest : List Char) :
    logical_lines n (Place.start : Place F) (List.replicate k ' ' ++ (text ++ rest)) =
      logical_lines (n + newlines text) (.inside n k text.reverse m) rest := by
  cases text with
  | nil => exact absurd rfl hsome
  | cons c cs =>
    have hmargin : is_margin c = false := hhead c rfl
    obtain ⟨m₁, hstep, hread⟩ := Mode.read_cons_some hread
    have hline : newlines (c :: cs) = newlines cs := by
      rw [newlines_cons]
      simp [is_margin] at hmargin
      simp [hmargin]
    rw [Place.start, logical_lines_blanks, Nat.zero_add, List.cons_append,
      logical_lines_first hmargin n k _ hstep, logical_lines_inside hread, hline,
      List.reverse_cons]

/-- **A logical line** that is one as a text is one in a file, and the next
    line starts behind it. -/
theorem logical_lines_whole {text : List Char} (h : Whole F text) (n k : ℕ) (rest : List Char) :
    logical_lines n (Place.start : Place F) (List.replicate k ' ' ++ (text ++ '\n' :: rest)) =
      (logical_lines (n + newlines text + 1) (Place.start : Place F) rest).map
        (fun lines => ⟨n, k, text⟩ :: lines) := by
  obtain ⟨hhead, hsome, m, hread, hend⟩ := h
  rw [logical_lines_into hhead hsome hread, logical_lines_inside_cons, hend]
  simp

theorem logical_lines_whole_left {text : List Char} (h : Whole F text) (n : ℕ)
    (rest : List Char) :
    logical_lines n (Place.start : Place F) (text ++ '\n' :: rest) =
      (logical_lines (n + newlines text + 1) (Place.start : Place F) rest).map
        (fun lines => ⟨n, 0, text⟩ :: lines) := by
  exact logical_lines_whole h n 0 rest

theorem logical_lines_newline (n : ℕ) (rest : List Char) :
    logical_lines n (Place.start : Place F) ('\n' :: rest) =
      logical_lines (n + 1) (Place.start : Place F) rest := by
  rw [Place.start, logical_lines_indent_cons]
  simp [Place.start]

theorem logical_lines_stuck {m : Mode F} {c : Char} (h : m.step c = none) (n line col : ℕ)
    (text rest : List Char) : logical_lines n (.inside line col text m) (c :: rest) = none := by
  rw [logical_lines_inside_cons, h]

/-- A logical line that was started on a line of the file comes out with that
    line, and those behind it start further down. -/
theorem logical_lines_from (n : ℕ) (p : Place F) (cs : List Char) {lines : List LogicalLine}
    (h : logical_lines n p cs = some lines) :
    match p with
    | .inside line col text _ => ∃ more rest,
        lines = ⟨line, col, text.reverse ++ more⟩ :: rest ∧ ∀ l ∈ rest, n ≤ l.line
    | _ => ∀ l ∈ lines, n ≤ l.line := by
  induction cs generalizing n p lines with
  | nil =>
    obtain ⟨rfl, col, first, rfl⟩ := logical_lines_nil h
    exact fun l hl => absurd hl List.not_mem_nil
  | cons c cs ih =>
    -- what comes on a later line comes on this one or below it
    have hlater : ∀ {p' : Place F}, (∀ line col text m, p' ≠ .inside line col text m) →
        logical_lines (n + 1) p' cs = some lines → ∀ l ∈ lines, n ≤ l.line := by
      intro p' hout h' l hl
      have hle := ih _ _ h'
      cases p' with
      | indent col first joined => exact le_trans (by omega) (hle l hl)
      | backslash col first => exact le_trans (by omega) (hle l hl)
      | skip => exact le_trans (by omega) (hle l hl)
      | inside line col text m => exact absurd rfl (hout line col text m)
    cases p with
    | skip =>
      rw [logical_lines_skip_cons] at h
      split at h
      · exact hlater (by simp [Place.start]) h
      · exact ih _ _ h
    | backslash col first =>
      rw [logical_lines_backslash_cons] at h
      split at h
      · exact hlater (by simp) h
      · exact absurd h (by simp)
    | indent col first joined =>
      rw [logical_lines_indent_cons] at h
      split at h
      · exact ih _ _ h
      split at h
      · exact ih _ _ h
      split at h
      · exact ih _ _ h
      split at h
      · exact ih _ _ h
      split at h
      · exact hlater (by simp [Place.start]) h
      split at h
      · exact ih _ _ h
      split at h
      · obtain ⟨more, rest, rfl, hrest⟩ := ih _ _ h
        intro l hl
        rcases List.mem_cons.mp hl with rfl | hl
        · exact le_refl n
        · exact hrest l hl
      · exact absurd h (by simp)
      · exact absurd h (by simp)
    | inside line col text m =>
      rw [logical_lines_inside_cons] at h
      split at h
      · rename_i m' _
        obtain ⟨more, rest, rfl, hrest⟩ := ih _ _ h
        refine ⟨c :: more, rest, ?_, ?_⟩
        · simp
        · intro l hl
          have hle := hrest l hl
          split at hle
          · omega
          · exact hle
      · obtain ⟨rest, hrest, rfl⟩ := Option.map_eq_some_iff.mp h
        refine ⟨[], rest, by simp, ?_⟩
        intro l hl
        have hle := ih _ _ hrest l hl
        omega
      · exact absurd h (by simp)

/-- A character in a string of three quotes closes it or stays in it. -/
theorem triple_step_cases {q : Char} (hq : q ≠ '\\') (k : ℕ) (e : Bool) (depth : List Char)
    (c : Char) :
    (e = false ∧ c = q ∧ k = 2 ∧
      (Mode.triple q k e depth : Mode F).step c = some (some (.code [] depth))) ∨
    ∃ k' e', (Mode.triple q k e depth : Mode F).step c = some (some (.triple q k' e' depth)) := by
  cases e with
  | true => exact Or.inr ⟨0, false, rfl⟩
  | false =>
    by_cases hback : c = '\\'
    · exact Or.inr ⟨0, true, by simp [Mode.step, triple_step, hback]⟩
    by_cases hquote : c = q
    · by_cases htwo : k = 2
      · exact Or.inl ⟨rfl, hquote, htwo, by simp [Mode.step, triple_step, hq, hquote, htwo]⟩
      · exact Or.inr ⟨k + 1, false, by simp [Mode.step, triple_step, hq, hquote, htwo]⟩
    · exact Or.inr ⟨0, false, by simp [Mode.step, triple_step, hback, hquote]⟩

/-- A string in three quotes that a file goes on with is closed somewhere. -/
theorem logical_lines_triple (n line col : ℕ) (text : List Char) {q : Char} (hq : q ≠ '\\')
    (hline : q ≠ '\n') (k : ℕ) (e : Bool) (cs : List Char) {lines : List LogicalLine}
    (h : logical_lines n (.inside line col text (.triple q k e [] : Mode F)) cs = some lines) :
    ∃ inner rest, cs = inner ++ q :: rest ∧
      (Mode.triple q k e [] : Mode F).read inner = some (.triple q 2 false []) ∧
      logical_lines (n + newlines inner)
        (.inside line col (q :: (inner.reverse ++ text)) (.code [] [] : Mode F)) rest =
          some lines := by
  induction cs generalizing n text k e with
  | nil =>
    obtain ⟨_, _, _, hplace⟩ := logical_lines_nil h
    exact nomatch hplace
  | cons c cs ih =>
    rw [logical_lines_inside_cons] at h
    rcases triple_step_cases (F := F) hq k e [] c with ⟨rfl, rfl, rfl, hstep⟩ | ⟨k', e', hstep⟩
    · rw [hstep] at h
      exact ⟨[], cs, rfl, rfl, by simpa [hline, newlines] using h⟩
    · rw [hstep] at h
      obtain ⟨inner, rest, rfl, hread, hrest⟩ := ih _ _ _ _ h
      refine ⟨c :: inner, rest, rfl, ?_, ?_⟩
      · rw [Mode.read_cons, hstep]
        exact hread
      · rw [newlines_cons, List.reverse_cons, List.append_assoc]
        rw [← hrest]
        congr 1
        split
        · omega
        · omega

/-! ### Text between three quotes -/

/-- Whether a backslash escapes what comes next, behind these characters. -/
def escaped_after (escaped : Bool) (cs : List Char) : Bool :=
  cs.foldl (fun escaped c => !escaped && c = '\\') escaped

/-- Behind `n` quotes, no three quotes stand in a row. -/
def calm : ℕ → List Char → Bool
  | _, [] => true
  | n, c :: cs => if c = '"' then n < 2 && calm (n + 1) cs else calm 0 cs

/-- A text without three quotes in a row does not close a string of three. -/
theorem triple_read_calm {n k : ℕ} {cs : List Char} (h : calm n cs = true) (hk : k ≤ n)
    (hn : n ≤ 2) (e : Bool) (depth : List Char) :
    ∃ k', k' ≤ 2 ∧ (Mode.triple '"' k e depth : Mode F).read cs =
      some (.triple '"' k' (escaped_after e cs) depth) := by
  induction cs generalizing n k e with
  | nil => exact ⟨k, by omega, rfl⟩
  | cons c cs ih =>
    rw [calm] at h
    cases e with
    | true =>
      -- an escaped character counts for nothing
      by_cases hquote : c = '"'
      · rw [if_pos hquote, Bool.and_eq_true, decide_eq_true_eq] at h
        obtain ⟨k', hk', hread⟩ := ih (k := 0) h.2 (by omega) (by omega) false
        exact ⟨k', hk', hread⟩
      · rw [if_neg hquote] at h
        obtain ⟨k', hk', hread⟩ := ih (k := 0) h (by omega) (by omega) false
        exact ⟨k', hk', hread⟩
    | false =>
      by_cases hquote : c = '"'
      · rw [if_pos hquote, Bool.and_eq_true, decide_eq_true_eq] at h
        subst hquote
        obtain ⟨k', hk', hread⟩ := ih (k := k + 1) h.2 (by omega) (by omega) false
        refine ⟨k', hk', ?_⟩
        have hstep : (Mode.triple '"' k false depth : Mode F).step '"' =
            some (some (.triple '"' (k + 1) false depth)) := by
          have hne : k ≠ 2 := by omega
          simp [Mode.step, triple_step, hne]
        rw [Mode.read_cons, hstep]
        exact hread
      · rw [if_neg hquote] at h
        by_cases hback : c = '\\'
        · subst hback
          obtain ⟨k', hk', hread⟩ := ih (k := 0) h (by omega) (by omega) true
          exact ⟨k', hk', hread⟩
        · obtain ⟨k', hk', hread⟩ := ih (k := 0) h (by omega) (by omega) false
          refine ⟨k', hk', ?_⟩
          have hstep : (Mode.triple '"' k false depth : Mode F).step c =
              some (some (.triple '"' 0 false depth)) := by
            simp [Mode.step, triple_step, hback, hquote]
          rw [Mode.read_cons, hstep]
          simpa [escaped_after, hback] using hread

/-- The ends of lines are neither quotes nor backslashes. -/
theorem calm_translate_newlines {n : ℕ} {cs : List Char} (h : calm n cs = true) :
    calm n (translate_newlines cs) = true := by
  fun_induction translate_newlines cs generalizing n with
  | case1 => rfl
  | case2 cs ih => exact ih (by simpa [calm] using h)
  | case3 cs hne ih => exact ih (by simpa [calm] using h)
  | case4 c cs hne hc ih =>
    rw [calm] at h ⊢
    split
    · rename_i hquote
      rw [if_pos hquote, Bool.and_eq_true] at h
      rw [Bool.and_eq_true]
      exact ⟨h.1, ih h.2⟩
    · rename_i hquote
      rw [if_neg hquote] at h
      exact ih h

theorem escaped_after_translate_newlines (e : Bool) (cs : List Char) :
    escaped_after e (translate_newlines cs) = escaped_after e cs := by
  fun_induction translate_newlines cs generalizing e with
  | case1 => rfl
  | case2 cs ih => simpa [escaped_after] using ih false
  | case3 cs hne ih => simpa [escaped_after] using ih false
  | case4 c cs hne hc ih => exact ih _

/-! ### The layout of lines -/

theorem layout_cons (l : LogicalLine) (lines : List LogicalLine) :
    layout (l :: lines) =
      .node l ((layout lines).takeWhile (fun t => l.col < t.col)) ::
        (layout lines).dropWhile (fun t => l.col < t.col) := rfl

/-- The lines of a text are all behind a column if those are that no line
    takes. -/
theorem layout_col {lines : List LogicalLine} {k : ℕ} :
    (∀ t ∈ layout lines, k < t.col) ↔ ∀ l ∈ lines, k < l.col := by
  induction lines with
  | nil => simp [layout]
  | cons l lines ih =>
    rw [layout_cons]
    constructor
    · intro h
      have hl : k < l.col := h _ List.mem_cons_self
      have hrest : ∀ t ∈ layout lines, k < t.col := by
        intro t ht
        rw [← List.takeWhile_append_dropWhile (p := fun t => decide (l.col < t.col))
          (l := layout lines), List.mem_append] at ht
        rcases ht with ht | ht
        · -- a line that `l` takes is behind `l`
          have hlt : l.col < t.col := by simpa using List.mem_takeWhile_imp ht
          omega
        · exact h t (List.mem_cons_of_mem _ ht)
      intro l' hl'
      rcases List.mem_cons.mp hl' with rfl | hl'
      · exact hl
      · exact ih.mp hrest l' hl'
    · intro h t ht
      rcases List.mem_cons.mp ht with rfl | ht
      · exact h l List.mem_cons_self
      · have hmem : t ∈ layout lines :=
          List.Sublist.mem ht (List.dropWhile_sublist _)
        exact ih.mpr (fun l' hl' => h l' (List.mem_cons_of_mem _ hl')) t hmem

/-! ### The statements of a block -/

theorem pieces_ne_nil {ts : List Tree} {ps : List Piece} (h : pieces G ts = some ps)
    (hts : ts ≠ []) : ps ≠ [] := by
  cases ts with
  | nil => exact absurd rfl hts
  | cons t ts =>
    rw [pieces] at h
    obtain ⟨p, _, h⟩ := Option.bind_eq_some_iff.mp h
    obtain ⟨ps', _, rfl⟩ := Option.map_eq_some_iff.mp h
    exact List.cons_ne_nil _ _

/-- Every line of a block has something on it. -/
theorem piece_ne_simples {t : Tree} {p : Piece} (h : piece G t = some p) : p ≠ .simples [] := by
  cases t with
  | node l children =>
    rw [piece] at h
    split at h
    · exact absurd h (by simp)
    · split at h
      · rw [← Option.some.inj h]
        simp
      · exact absurd h (by simp)
    · split at h
      · obtain ⟨cases, _, rfl⟩ := Option.map_eq_some_iff.mp h
        simp
      · exact absurd h (by simp)
    · obtain ⟨body, _, rfl⟩ := Option.map_eq_some_iff.mp h
      simp
    · obtain ⟨body, _, rfl⟩ := Option.map_eq_some_iff.mp h
      simp
    · split at h
      · rw [← Option.some.inj h]
        simp
      · exact absurd h (by simp)

theorem pieces_ne_simples {ts : List Tree} {ps : List Piece} (h : pieces G ts = some ps) :
    ∀ p ∈ ps, p ≠ .simples [] := by
  induction ts generalizing ps with
  | nil =>
    obtain rfl := Option.some.inj h
    exact fun p hp => absurd hp List.not_mem_nil
  | cons t ts ih =>
    rw [pieces] at h
    obtain ⟨p, hp, h⟩ := Option.bind_eq_some_iff.mp h
    obtain ⟨ps', hps, rfl⟩ := Option.map_eq_some_iff.mp h
    intro p' hp'
    rcases List.mem_cons.mp hp' with rfl | hp'
    · exact piece_ne_simples G hp
    · exact ih hps p' hp'

theorem decorate_ne_nil {nodes : List ℕ} {statements decorated : List Stmt}
    (h : decorate nodes statements = some decorated) : decorated ≠ [] := by
  unfold decorate at h
  split at h
  · split at h
    · rw [← Option.some.inj h]
      exact List.cons_ne_nil _ _
    · exact absurd h (by simp)
  · exact absurd h (by simp)

/-- The lines of a block come to clauses or to statements. -/
theorem gather_ne_nil {ps : List Piece} {clauses : List (Clause × List ℕ × List Stmt)}
    {statements : List Stmt} (h : gather ps = some (clauses, statements)) (hps : ps ≠ [])
    (hsome : ∀ p ∈ ps, p ≠ .simples []) : clauses ≠ [] ∨ statements ≠ [] := by
  cases ps with
  | nil => exact absurd rfl hps
  | cons p ps =>
    rw [gather] at h
    obtain ⟨⟨cs, ss⟩, _, h⟩ := Option.bind_eq_some_iff.mp h
    cases p with
    | simples first =>
      have hfirst : first ≠ [] := by
        intro hnil
        exact hsome _ List.mem_cons_self (by rw [hnil])
      simp only at h
      split at h
      · obtain ⟨rfl, rfl⟩ := Prod.mk.inj (Option.some.inj h)
        exact Or.inr (by simp [hfirst])
      · exact absurd h (by simp)
    | head line head nodes body cases =>
      simp only at h
      split at h
      · obtain ⟨rfl, rfl⟩ := Prod.mk.inj (Option.some.inj h)
        exact Or.inr (List.cons_ne_nil _ _)
      · exact absurd h (by simp)
    | clause clause nodes body =>
      obtain ⟨rfl, rfl⟩ := Prod.mk.inj (Option.some.inj h)
      exact Or.inl (List.cons_ne_nil _ _)
    | decorator nodes =>
      simp only at h
      split at h
      · obtain ⟨s, hs, heq⟩ := Option.map_eq_some_iff.mp h
        obtain ⟨rfl, rfl⟩ := Prod.mk.inj heq
        exact Or.inr (decorate_ne_nil hs)
      · exact absurd h (by simp)

theorem layout_line {lines : List LogicalLine} {t : Tree} (h : t ∈ layout lines) :
    t.line ∈ lines := by
  induction lines with
  | nil => exact absurd h List.not_mem_nil
  | cons l lines ih =>
    rw [layout_cons] at h
    rcases List.mem_cons.mp h with rfl | h
    · exact List.mem_cons_self
    · exact List.mem_cons_of_mem _ (ih ((List.dropWhile_sublist _).mem h))

/-- What a line comes to starts no further up than the line. -/
def Piece.Below (k : ℕ) : Piece → Prop
  | .simples statements => ∀ s ∈ statements, k ≤ s.line
  | .head line _ _ _ _ => k ≤ line
  | .clause _ _ _ => True
  | .decorator _ => True

theorem piece_below {t : Tree} {p : Piece} (h : piece G t = some p) {k : ℕ}
    (hk : k ≤ t.line.line) : p.Below k := by
  cases t with
  | node l children =>
    have hline : k ≤ l.line := hk
    rw [piece] at h
    split at h
    · exact absurd h (by simp)
    · split at h
      · rw [← Option.some.inj h]
        intro s hs
        rcases List.mem_cons.mp hs with rfl | hs
        · exact hline
        · obtain ⟨w, _, rfl⟩ := List.mem_map.mp hs
          show k ≤ l.line + w.below
          omega
      · exact absurd h (by simp)
    · split at h
      · obtain ⟨cases, _, rfl⟩ := Option.map_eq_some_iff.mp h
        exact hline
      · exact absurd h (by simp)
    · obtain ⟨body, _, rfl⟩ := Option.map_eq_some_iff.mp h
      exact hline
    · obtain ⟨body, _, rfl⟩ := Option.map_eq_some_iff.mp h
      trivial
    · split at h
      · rw [← Option.some.inj h]
        trivial
      · exact absurd h (by simp)

theorem pieces_below {ts : List Tree} {ps : List Piece} (h : pieces G ts = some ps) {k : ℕ}
    (hk : ∀ t ∈ ts, k ≤ t.line.line) : ∀ p ∈ ps, p.Below k := by
  induction ts generalizing ps with
  | nil =>
    obtain rfl := Option.some.inj h
    exact fun p hp => absurd hp List.not_mem_nil
  | cons t ts ih =>
    rw [pieces] at h
    obtain ⟨p, hp, h⟩ := Option.bind_eq_some_iff.mp h
    obtain ⟨ps', hps, rfl⟩ := Option.map_eq_some_iff.mp h
    obtain ⟨hfirst, hrest⟩ := List.forall_mem_cons.mp hk
    exact List.forall_mem_cons.mpr ⟨piece_below G hp hfirst, ih hps hrest⟩

/-- A decorator leaves the statements where they are. -/
theorem decorate_below {nodes : List ℕ} {statements decorated : List Stmt}
    (h : decorate nodes statements = some decorated) {k : ℕ} (hk : ∀ s ∈ statements, k ≤ s.line) :
    ∀ s ∈ decorated, k ≤ s.line := by
  unfold decorate at h
  split at h
  · split at h
    · obtain ⟨hfirst, hrest⟩ := List.forall_mem_cons.mp hk
      rw [← Option.some.inj h]
      exact List.forall_mem_cons.mpr ⟨hfirst, hrest⟩
    · exact absurd h (by simp)
  · exact absurd h (by simp)

theorem gather_below {ps : List Piece} {clauses : List (Clause × List ℕ × List Stmt)}
    {statements : List Stmt} (h : gather ps = some (clauses, statements)) {k : ℕ}
    (hk : ∀ p ∈ ps, p.Below k) : ∀ s ∈ statements, k ≤ s.line := by
  induction ps generalizing clauses statements with
  | nil =>
    obtain ⟨rfl, rfl⟩ := Prod.mk.inj (Option.some.inj h)
    exact fun s hs => absurd hs List.not_mem_nil
  | cons p ps ih =>
    rw [gather] at h
    obtain ⟨⟨cs, ss⟩, hgather, h⟩ := Option.bind_eq_some_iff.mp h
    obtain ⟨hfirst, hrest⟩ := List.forall_mem_cons.mp hk
    have hss := ih hgather hrest
    cases p with
    | simples first =>
      simp only at h
      split at h
      · obtain ⟨rfl, rfl⟩ := Prod.mk.inj (Option.some.inj h)
        exact List.forall_mem_append.mpr ⟨hfirst, hss⟩
      · exact absurd h (by simp)
    | head line head nodes body cases =>
      simp only at h
      split at h
      · obtain ⟨rfl, rfl⟩ := Prod.mk.inj (Option.some.inj h)
        exact List.forall_mem_cons.mpr ⟨hfirst, hss⟩
      · exact absurd h (by simp)
    | clause clause nodes body =>
      obtain ⟨rfl, rfl⟩ := Prod.mk.inj (Option.some.inj h)
      exact hss
    | decorator nodes =>
      simp only at h
      split at h
      · obtain ⟨s, hs, heq⟩ := Option.map_eq_some_iff.mp h
        obtain ⟨rfl, rfl⟩ := Prod.mk.inj heq
        exact decorate_below hs hss
      · exact absurd h (by simp)

/-! ### String literals -/

variable (F)

/-- A string in three double quotes. -/
def Literal (text : List Char) : Prop :=
  ∃ inner, text = '"' :: '"' :: '"' :: (inner ++ ['"']) ∧
    (Mode.triple '"' 0 false [] : Mode F).read inner = some (.triple '"' 2 false [])

/-- What the grammar of Python says of a line that starts with a string in
    three quotes: nothing but strings is a string, and what stands behind a
    semicolon starts after the string. -/
structure ReadsStrings : Prop where
  strings : ∀ text, Literal F text → ∀ more, more = [] ∨ more = ['"', '"'] → ∀ form,
    G.statement (text ++ more) = some form → ∃ nodes, form = .simple .string nodes []
  behind : ∀ text more kind nodes others, Literal F text →
    G.statement (text ++ more) = some (.simple kind nodes others) →
      ∀ w ∈ others, newlines text ≤ w.below

end PySource
