import BacktestVisualizer.Framework.PySource

/-! # Literals of Python

  `repr` of the values that JSON has, and what the tokenizer makes of it: a
  literal opens no bracket that it does not close, closes none that it did
  not open, and ends where it seems to end.
-/

namespace PyRepr

open PySource

/-! ### Values and their text -/

/-- The text of a number: digits, a sign, a point, an exponent, `inf` or
    `nan`. -/
structure Numeral where
  text : List Char
  plain : ∀ c ∈ text, is_word c = true ∨ c = '.' ∨ c = '-' ∨ c = '+'

/-- The values of JSON, as Python has them. -/
inductive Json where
  | null
  | bool (b : Bool)
  | number (n : Numeral)
  | str (s : List Char)
  | list (items : List Json)
  | dict (pairs : List (List Char × Json))

/-- The last `w` hexadecimal digits of a number. -/
def hex (w n : ℕ) : List Char :=
  (List.range w).reverse.map (fun i => Nat.digitChar (n / 16 ^ i % 16))

variable (printable : Char → Bool)

/-- One character of a string between quotes `q`. Beyond ASCII it depends on
    the character whether it is printed. -/
def escape_char (q c : Char) : List Char :=
  if c = q ∨ c = '\\' then ['\\', c]
  else if c = '\t' then ['\\', 't']
  else if c = '\n' then ['\\', 'n']
  else if c = '\r' then ['\\', 'r']
  else if c.toNat < 32 ∨ c.toNat = 127 then '\\' :: 'x' :: hex 2 c.toNat
  else if c.toNat < 127 ∨ printable c then [c]
  else if c.toNat < 256 then '\\' :: 'x' :: hex 2 c.toNat
  else if c.toNat < 65536 then '\\' :: 'u' :: hex 4 c.toNat
  else '\\' :: 'U' :: hex 8 c.toNat

/-- The quotes around a string: double ones around one that has single ones
    only. -/
def quote_of (s : List Char) : Char :=
  if '\'' ∈ s ∧ '"' ∉ s then '"' else '\''

/-- `repr` of a string. -/
def repr_str (s : List Char) : List Char :=
  quote_of s :: (s.flatMap (escape_char printable (quote_of s)) ++ [quote_of s])

mutual

/-- `repr` of a value. -/
def Json.repr : Json → List Char
  | .null => ['N', 'o', 'n', 'e']
  | .bool true => ['T', 'r', 'u', 'e']
  | .bool false => ['F', 'a', 'l', 's', 'e']
  | .number n => n.text
  | .str s => repr_str printable s
  | .list items => '[' :: (repr_items items ++ [']'])
  | .dict pairs => '{' :: (repr_pairs pairs ++ ['}'])

def repr_items : List Json → List Char
  | [] => []
  | v :: items =>
      v.repr ++ if items.isEmpty then [] else ',' :: ' ' :: repr_items items

def repr_pairs : List (List Char × Json) → List Char
  | [] => []
  | (k, v) :: pairs =>
      repr_str printable k ++ ':' :: ' ' :: v.repr ++
        if pairs.isEmpty then [] else ',' :: ' ' :: repr_pairs pairs

end

/-- `repr` of a dict. -/
def repr_dict (pairs : List (List Char × Json)) : List Char :=
  '{' :: (repr_pairs printable pairs ++ ['}'])

/-! ### Text that stays within its brackets -/

variable {F : FStrings}

/-- The characters that stand behind a literal. -/
def is_glue (c : Char) : Bool := c ∈ [',', ':', ']', '}', ')']

/-- What follows is read as code. -/
def Settled (m : Mode F) (depth : List Char) : Prop :=
  ∀ c, is_glue c = true → m.step c = code_step [] depth c

variable (F)

/-- A text that leaves the brackets around it alone, whatever they are. -/
def Settles (text : List Char) : Prop :=
  ∀ depth, depth ≠ [] → ∃ m : Mode F,
    (Mode.code [] depth).read text = some m ∧ Settled m depth

variable {F}

theorem settled_code (word depth : List Char) : Settled (Mode.code word depth : Mode F) depth := by
  intro c hc
  simp [is_glue] at hc
  rcases hc with rfl | rfl | rfl | rfl | rfl
  · rfl
  · rfl
  · rfl
  · rfl
  · rfl

/-- Two quotes alone are a string as soon as something else follows. -/
theorem settled_empty {q : Char} (hq : is_glue q = false) (depth : List Char) :
    Settled (Mode.opened true [] q depth : Mode F) depth := by
  intro c hc
  have hne : c ≠ q := by
    intro h
    rw [h, hq] at hc
    exact absurd hc (by simp)
  simp [Mode.step, hne]

theorem Settled.read {m : Mode F} {depth : List Char} (h : Settled m depth) {c : Char}
    (hc : is_glue c = true) (cs : List Char) :
    m.read (c :: cs) = (Mode.code [] depth).read (c :: cs) := by
  rw [Mode.read_cons, Mode.read_cons, h c hc]
  rfl

/-! ### Strings -/

/-- A character that a string has as it is. -/
def Plain (q c : Char) : Prop := c ≠ q ∧ c ≠ '\\' ∧ c ≠ '\n'

theorem single_read_plain {q : Char} {cs : List Char} (h : ∀ c ∈ cs, Plain q c)
    (depth : List Char) :
    (Mode.single q false depth : Mode F).read cs = some (.single q false depth) := by
  induction cs with
  | nil => rfl
  | cons c cs ih =>
    obtain ⟨hquote, hback, hline⟩ := h c List.mem_cons_self
    rw [Mode.read_cons]
    simp only [Mode.step, single_step, hquote, hback, hline, Bool.false_eq_true, if_false,
      Option.bind_some]
    exact ih (fun c hc => h c (List.mem_cons_of_mem _ hc))

theorem single_read_escaped {q : Char} {c : Char} {cs : List Char} (h : ∀ c ∈ cs, Plain q c)
    (depth : List Char) :
    (Mode.single q false depth : Mode F).read ('\\' :: c :: cs) =
      some (.single q false depth) := by
  rw [Mode.read_cons]
  show (Mode.single q true depth : Mode F).read (c :: cs) = _
  rw [Mode.read_cons]
  show (Mode.single q false depth : Mode F).read cs = _
  exact single_read_plain h depth

theorem plain_hex {q : Char} (hq : q = '\'' ∨ q = '"') (w n : ℕ) : ∀ c ∈ hex w n, Plain q c := by
  intro c hc
  obtain ⟨i, _, rfl⟩ := List.mem_map.mp hc
  have hlt : n / 16 ^ i % 16 < 16 := Nat.mod_lt _ (by omega)
  revert hlt
  generalize n / 16 ^ i % 16 = k
  intro hlt
  rcases hq with rfl | rfl
  · revert k
    unfold Plain
    decide
  · revert k
    unfold Plain
    decide

/-- An escaped character is read inside its string. -/
theorem single_read_escape_char {q : Char} (hq : q = '\'' ∨ q = '"') (c : Char)
    (depth : List Char) :
    (Mode.single q false depth : Mode F).read (escape_char printable q c) =
      some (.single q false depth) := by
  have hnil : ∀ c ∈ ([] : List Char), Plain q c := fun _ h => absurd h List.not_mem_nil
  unfold escape_char
  split
  · exact single_read_escaped hnil depth
  rename_i hout
  split
  · exact single_read_escaped hnil depth
  split
  · exact single_read_escaped hnil depth
  rename_i hline
  split
  · exact single_read_escaped hnil depth
  split
  · exact single_read_escaped (plain_hex hq _ _) depth
  split
  · apply single_read_plain
    intro d hd
    rw [List.mem_singleton.mp hd]
    exact ⟨fun h => hout (Or.inl h), fun h => hout (Or.inr h), hline⟩
  split
  · exact single_read_escaped (plain_hex hq _ _) depth
  split
  · exact single_read_escaped (plain_hex hq _ _) depth
  · exact single_read_escaped (plain_hex hq _ _) depth

theorem single_read_escapes {q : Char} (hq : q = '\'' ∨ q = '"') (s depth : List Char) :
    (Mode.single q false depth : Mode F).read (s.flatMap (escape_char printable q)) =
      some (.single q false depth) := by
  induction s with
  | nil => rfl
  | cons c s ih =>
    rw [List.flatMap_cons]
    exact Mode.read_of_append (single_read_escape_char printable hq c depth) ih

theorem quote_of_quote (s : List Char) : quote_of s = '\'' ∨ quote_of s = '"' := by
  unfold quote_of
  split
  · exact Or.inr rfl
  · exact Or.inl rfl

/-- A string is opened with its first character, if that is no quote. -/
theorem read_opened {q c : Char} (hq : q = '\'' ∨ q = '"') (hc : c ≠ q) (cs depth : List Char) :
    (Mode.code [] depth : Mode F).read (q :: c :: cs) =
      (Mode.single q false depth : Mode F).read (c :: cs) := by
  have hopen : (Mode.code [] depth : Mode F).step q = some (some (.opened false [] q depth)) := by
    rcases hq with rfl | rfl
    · rfl
    · rfl
  have hfirst : (Mode.opened false [] q depth : Mode F).step c =
      (Mode.single q false depth : Mode F).step c := by
    simp [Mode.step, hc, is_formatted]
  rw [Mode.read_cons, hopen]
  show (Mode.opened false [] q depth : Mode F).read (c :: cs) = _
  rw [Mode.read_cons, Mode.read_cons, hfirst]

/-- The first character of an escape is no quote. -/
theorem head_escape_char (q : Char) (hq : q = '\'' ∨ q = '"') (c : Char) :
    ∃ d ds, escape_char printable q c = d :: ds ∧ d ≠ q := by
  have hback : '\\' ≠ q := by
    rcases hq with rfl | rfl
    · decide
    · decide
  unfold escape_char
  split
  · exact ⟨_, _, rfl, hback⟩
  rename_i hout
  split
  · exact ⟨_, _, rfl, hback⟩
  split
  · exact ⟨_, _, rfl, hback⟩
  split
  · exact ⟨_, _, rfl, hback⟩
  split
  · exact ⟨_, _, rfl, hback⟩
  split
  · exact ⟨_, _, rfl, fun h => hout (Or.inl h)⟩
  split
  · exact ⟨_, _, rfl, hback⟩
  split
  · exact ⟨_, _, rfl, hback⟩
  · exact ⟨_, _, rfl, hback⟩

theorem settles_str (s : List Char) : Settles F (repr_str printable s) := by
  intro depth _
  have hq := quote_of_quote s
  unfold repr_str
  generalize quote_of s = q at hq
  cases s with
  | nil =>
    refine ⟨.opened true [] q depth, ?_, ?_⟩
    · rcases hq with rfl | rfl
      · rfl
      · rfl
    · apply settled_empty
      rcases hq with rfl | rfl
      · rfl
      · rfl
  | cons c s =>
    refine ⟨.code [] depth, ?_, settled_code [] depth⟩
    obtain ⟨d, ds, hd, hne⟩ := head_escape_char printable q hq c
    rw [List.flatMap_cons, hd, List.cons_append, List.cons_append, read_opened hq hne]
    rw [← List.cons_append, ← List.cons_append, ← hd, ← List.flatMap_cons]
    apply Mode.read_of_append (single_read_escapes printable hq (c :: s) depth)
    rcases hq with rfl | rfl
    · rfl
    · rfl

/-! ### Values -/

/-- A text that is no more than letters, digits and signs. -/
theorem read_numeral {text : List Char}
    (h : ∀ c ∈ text, is_word c = true ∨ c = '.' ∨ c = '-' ∨ c = '+') (word depth : List Char) :
    ∃ word', (Mode.code word depth : Mode F).read text = some (.code word' depth) := by
  induction text generalizing word with
  | nil => exact ⟨word, rfl⟩
  | cons c text ih =>
    have hstep : ∃ word', (Mode.code word depth : Mode F).step c =
        some (some (.code word' depth)) := by
      rcases h c List.mem_cons_self with hc | rfl | rfl | rfl
      · refine ⟨word ++ [c], ?_⟩
        have hne : ∀ d, is_word d = false → c ≠ d := by
          intro d hd heq
          rw [heq, hd] at hc
          exact absurd hc (by simp)
        simp [Mode.step, code_step, hc, hne '\n' rfl, hne '#' rfl, hne '\\' rfl, hne '"' rfl,
          hne '\'' rfl]
      · exact ⟨[], rfl⟩
      · exact ⟨[], rfl⟩
      · exact ⟨[], rfl⟩
    obtain ⟨word₁, hstep⟩ := hstep
    obtain ⟨word', hread⟩ := ih (fun c hc => h c (List.mem_cons_of_mem _ hc)) word₁
    refine ⟨word', ?_⟩
    rw [Mode.read_cons, hstep]
    exact hread

theorem settles_numeral {text : List Char}
    (h : ∀ c ∈ text, is_word c = true ∨ c = '.' ∨ c = '-' ∨ c = '+') : Settles F text := by
  intro depth _
  obtain ⟨word, hread⟩ := read_numeral h [] depth
  exact ⟨.code word depth, hread, settled_code word depth⟩

theorem settles_nil : Settles F [] := fun depth _ => ⟨.code [] depth, rfl, settled_code [] depth⟩

/-- A literal, a comma or a colon, a blank and what settles. -/
theorem Settles.glue {text rest : List Char} (h : Settles F text) {c : Char}
    (hc : c = ',' ∨ c = ':') (hrest : Settles F rest) : Settles F (text ++ c :: ' ' :: rest) := by
  intro depth hdepth
  obtain ⟨m, hread, hsettled⟩ := h depth hdepth
  obtain ⟨m', hread', hsettled'⟩ := hrest depth hdepth
  refine ⟨m', Mode.read_of_append hread ?_, hsettled'⟩
  rcases hc with rfl | rfl
  · rw [hsettled.read rfl]
    exact hread'
  · rw [hsettled.read rfl]
    exact hread'

/-- What settles in brackets. -/
theorem Settles.bracket {text : List Char} (h : Settles F text) {o c : Char}
    (hc : o = '[' ∧ c = ']' ∨ o = '{' ∧ c = '}' ∨ o = '(' ∧ c = ')') :
    Settles F (o :: (text ++ [c])) := by
  intro depth _
  obtain ⟨m, hread, hsettled⟩ := h (c :: depth) (List.cons_ne_nil _ _)
  refine ⟨.code [] depth, ?_, settled_code [] depth⟩
  rcases hc with ⟨rfl, rfl⟩ | ⟨rfl, rfl⟩ | ⟨rfl, rfl⟩
  · exact Mode.read_of_append hread ((hsettled.read rfl _).trans rfl)
  · exact Mode.read_of_append hread ((hsettled.read rfl _).trans rfl)
  · exact Mode.read_of_append hread ((hsettled.read rfl _).trans rfl)

mutual

/-- **A literal settles**: no text in it is taken for more than a literal. -/
theorem settles_repr : ∀ v : Json, Settles F (v.repr printable)
  | .null => (settles_numeral (by decide) : Settles F ['N', 'o', 'n', 'e'])
  | .bool true => (settles_numeral (by decide) : Settles F ['T', 'r', 'u', 'e'])
  | .bool false => (settles_numeral (by decide) : Settles F ['F', 'a', 'l', 's', 'e'])
  | .number n => settles_numeral n.plain
  | .str s => settles_str printable s
  | .list items => (settles_items items).bracket (Or.inl ⟨rfl, rfl⟩)
  | .dict pairs => (settles_pairs pairs).bracket (Or.inr (Or.inl ⟨rfl, rfl⟩))

theorem settles_items : ∀ items : List Json, Settles F (repr_items printable items)
  | [] => settles_nil
  | v :: items => by
    have hv := settles_repr v
    have hitems := settles_items items
    unfold repr_items
    split
    · rw [List.append_nil]
      exact hv
    · exact hv.glue (Or.inl rfl) hitems

theorem settles_pairs : ∀ pairs : List (List Char × Json), Settles F (repr_pairs printable pairs)
  | [] => settles_nil
  | (k, v) :: pairs => by
    have hv := settles_repr v
    have hpairs := settles_pairs pairs
    have hkey := settles_str (F := F) printable k
    unfold repr_pairs
    split
    · rw [List.append_nil]
      exact hkey.glue (Or.inr rfl) hv
    · rw [List.append_assoc]
      exact hkey.glue (Or.inr rfl) (hv.glue (Or.inl rfl) hpairs)

end

/-- What the grammar of Python says of a name and a brace that closes with the
    end of the line: it is an assignment to the name. -/
def ReadsDisplays (F : FStrings) (G : Grammar) : Prop :=
  ∀ name inner, (∀ c ∈ name, c.isUpper = true) → Settles F inner → ∀ form,
    G.statement (name ++ [' ', '=', ' ', '{'] ++ inner ++ ['}']) = some form →
      ∃ nodes, form = .simple (.assign name) nodes []

/-! ### A literal is on one line -/

/-- A character that ends no line. -/
def InLine (c : Char) : Prop := c ≠ '\n' ∧ c ≠ '\r'

theorem inLine_of_word {c : Char} (h : is_word c = true ∨ c = '.' ∨ c = '-' ∨ c = '+') :
    InLine c := by
  rcases h with h | rfl | rfl | rfl
  · constructor
    · intro heq
      rw [heq] at h
      exact absurd h (by decide)
    · intro heq
      rw [heq] at h
      exact absurd h (by decide)
  · exact ⟨by decide, by decide⟩
  · exact ⟨by decide, by decide⟩
  · exact ⟨by decide, by decide⟩

theorem inLine_digit {n : ℕ} (h : n < 16) : InLine (Nat.digitChar n) := by
  revert n
  unfold InLine
  decide

/-- An escape of a character is on one line. -/
theorem inLine_escape {c : Char} (hc : InLine c) (w n : ℕ) :
    ∀ d ∈ '\\' :: c :: hex w n, InLine d := by
  intro d hd
  rcases List.mem_cons.mp hd with rfl | hd
  · exact ⟨by decide, by decide⟩
  rcases List.mem_cons.mp hd with rfl | hd
  · exact hc
  obtain ⟨i, _, rfl⟩ := List.mem_map.mp hd
  exact inLine_digit (Nat.mod_lt _ (by omega))

theorem inLine_escape_char {q : Char} (hq : q = '\'' ∨ q = '"') (c : Char) :
    ∀ d ∈ escape_char printable q c, InLine d := by
  have hpair : ∀ c, InLine c → ∀ d ∈ ['\\', c], InLine d := fun c hc => inLine_escape hc 0 0
  unfold escape_char
  split
  · rename_i hsame
    apply hpair
    rcases hsame with rfl | rfl
    · rcases hq with rfl | rfl
      · exact ⟨by decide, by decide⟩
      · exact ⟨by decide, by decide⟩
    · exact ⟨by decide, by decide⟩
  split
  · exact hpair _ ⟨by decide, by decide⟩
  split
  · exact hpair _ ⟨by decide, by decide⟩
  rename_i hline
  split
  · exact hpair _ ⟨by decide, by decide⟩
  rename_i hreturn
  split
  · exact inLine_escape ⟨by decide, by decide⟩ _ _
  split
  · intro d hd
    rw [List.mem_singleton.mp hd]
    exact ⟨hline, hreturn⟩
  split
  · exact inLine_escape ⟨by decide, by decide⟩ _ _
  split
  · exact inLine_escape ⟨by decide, by decide⟩ _ _
  · exact inLine_escape ⟨by decide, by decide⟩ _ _

theorem inLine_str (s : List Char) : ∀ c ∈ repr_str printable s, InLine c := by
  have hq := quote_of_quote s
  have hquote : InLine (quote_of s) := by
    rcases hq with h | h
    · rw [h]
      exact ⟨by decide, by decide⟩
    · rw [h]
      exact ⟨by decide, by decide⟩
  intro c hc
  rcases List.mem_cons.mp hc with rfl | hc
  · exact hquote
  rcases List.mem_append.mp hc with hc | hc
  · obtain ⟨d, _, hd⟩ := List.mem_flatMap.mp hc
    exact inLine_escape_char printable hq d c hd
  · rw [List.mem_singleton.mp hc]
    exact hquote

/-- What stands around the parts of a literal. -/
theorem inLine_glue {c : Char} (h : c ∈ [' ', ',', ':', '[', ']', '{', '}']) : InLine c := by
  revert c
  unfold InLine
  decide

theorem inLine_word {text : List Char} (h : ∀ c ∈ text, is_word c = true) :
    ∀ c ∈ text, InLine c := fun c hc => inLine_of_word (Or.inl (h c hc))

mutual

theorem inLine_repr : ∀ (v : Json), ∀ c ∈ v.repr printable, InLine c
  | .null => (inLine_word (by decide) : ∀ c ∈ ['N', 'o', 'n', 'e'], InLine c)
  | .bool true => (inLine_word (by decide) : ∀ c ∈ ['T', 'r', 'u', 'e'], InLine c)
  | .bool false => (inLine_word (by decide) : ∀ c ∈ ['F', 'a', 'l', 's', 'e'], InLine c)
  | .number n => fun c hc => inLine_of_word (n.plain c hc)
  | .str s => inLine_str printable s
  | .list items => by
    intro c hc
    have hitems := inLine_items items
    rw [Json.repr, List.mem_cons, List.mem_append, List.mem_singleton] at hc
    rcases hc with rfl | hc | rfl
    · exact inLine_glue (by simp)
    · exact hitems c hc
    · exact inLine_glue (by simp)
  | .dict pairs => by
    intro c hc
    have hpairs := inLine_pairs pairs
    rw [Json.repr, List.mem_cons, List.mem_append, List.mem_singleton] at hc
    rcases hc with rfl | hc | rfl
    · exact inLine_glue (by simp)
    · exact hpairs c hc
    · exact inLine_glue (by simp)

theorem inLine_items : ∀ (items : List Json), ∀ c ∈ repr_items printable items, InLine c
  | [] => fun c hc => absurd hc List.not_mem_nil
  | v :: items => by
    intro c hc
    have hv := inLine_repr v
    have hitems := inLine_items items
    rw [repr_items, List.mem_append] at hc
    rcases hc with hc | hc
    · exact hv c hc
    split at hc
    · exact absurd hc List.not_mem_nil
    rw [List.mem_cons, List.mem_cons] at hc
    rcases hc with rfl | rfl | hc
    · exact inLine_glue (by simp)
    · exact inLine_glue (by simp)
    · exact hitems c hc

theorem inLine_pairs : ∀ (pairs : List (List Char × Json)),
    ∀ c ∈ repr_pairs printable pairs, InLine c
  | [] => fun c hc => absurd hc List.not_mem_nil
  | (k, v) :: pairs => by
    intro c hc
    have hv := inLine_repr v
    have hpairs := inLine_pairs pairs
    rw [repr_pairs, List.mem_append, List.mem_append, List.mem_cons, List.mem_cons] at hc
    rcases hc with (hc | rfl | rfl | hc) | hc
    · exact inLine_str printable k c hc
    · exact inLine_glue (by simp)
    · exact inLine_glue (by simp)
    · exact hv c hc
    split at hc
    · exact absurd hc List.not_mem_nil
    rw [List.mem_cons, List.mem_cons] at hc
    rcases hc with rfl | rfl | hc
    · exact inLine_glue (by simp)
    · exact inLine_glue (by simp)
    · exact hpairs c hc

end

theorem inLine_dict (pairs : List (List Char × Json)) :
    ∀ c ∈ repr_dict printable pairs, InLine c :=
  inLine_repr printable (.dict pairs)

theorem newlines_of_inLine {cs : List Char} (h : ∀ c ∈ cs, InLine c) : newlines cs = 0 := by
  unfold newlines
  rw [List.count_eq_zero]
  intro hmem
  exact (h _ hmem).1 rfl

end PyRepr
