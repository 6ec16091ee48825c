import BacktestVisualizer.Framework.UpperCase

/-! # Text

  `str.strip()` and `str.upper()`. Doing both again changes nothing.
  `str.replace()` leaves alone what does not hold the first character of what
  it looks for.
-/

namespace Text

/-- `strip()`. -/
def strip (l : List Char) : List Char :=
  ((l.dropWhile is_space).reverse.dropWhile is_space).reverse

/-- `upper()`. -/
def upper (s : String) : String := String.ofList (s.toList.flatMap upper_char)

/-- `strip().upper()`. -/
def strip_upper (s : String) : String := upper (String.ofList (strip s.toList))

/-! ### Upper case -/

theorem flatMap_upper_char (l : List Char) :
    (l.flatMap upper_char).flatMap upper_char = l.flatMap upper_char := by
  rw [List.flatMap_assoc]
  congr 1
  funext c
  -- every character of the upper case is its own
  have hself : ∀ d ∈ upper_char c, upper_char d = [d] := fun d hd => upper_char_of_mem hd
  rw [List.flatMap_congr hself]
  simp

@[simp] theorem upper_upper (s : String) : upper (upper s) = upper s := by
  unfold upper
  rw [String.toList_ofList, flatMap_upper_char]

theorem upper_ne_empty {s : String} (h : s ≠ "") : upper s ≠ "" := by
  intro hempty
  have hlist : s.toList.flatMap upper_char = [] := by
    simpa [upper] using congrArg String.toList hempty
  apply h
  apply String.toList_eq_nil_iff.mp
  apply List.eq_nil_iff_forall_not_mem.mpr
  intro c hc
  exact upper_char_ne_nil c (List.flatMap_eq_nil_iff.mp hlist c hc)

/-! ### Blanks -/

theorem dropWhile_eq_self {p : Char → Bool} {l : List Char} (h : ∀ c ∈ l.head?, p c = false) :
    l.dropWhile p = l := by
  cases l with
  | nil => rfl
  | cons c l =>
    rw [List.dropWhile_cons_of_neg]
    simp [h c rfl]

theorem head?_dropWhile (p : Char → Bool) (l : List Char) :
    ∀ c ∈ (l.dropWhile p).head?, p c = false := by
  induction l with
  | nil => simp
  | cons c l ih =>
    rw [List.dropWhile_cons]
    split
    · exact ih
    · rename_i hc
      intro d hd
      obtain rfl : c = d := by simpa using hd
      simpa using hc

theorem strip_strip (l : List Char) : strip (strip l) = strip l := by
  unfold strip
  generalize hm : l.dropWhile is_space = m
  have hhead : ∀ c ∈ m.head?, is_space c = false := by
    rw [← hm]
    exact head?_dropWhile _ l
  -- what is left of `m` without its last blanks starts like `m`
  have hfront : ∀ c ∈ ((m.reverse.dropWhile is_space).reverse).head?,
      is_space c = false := by
    intro c hc
    have hpre : (m.reverse.dropWhile is_space).reverse <+: m := by
      have hsuffix := List.dropWhile_suffix is_space (l := m.reverse)
      simpa using List.reverse_prefix.mpr hsuffix
    obtain ⟨rest, hrest⟩ := hpre
    apply hhead c
    rw [← hrest, List.head?_append]
    rw [Option.mem_def.mp hc]
    rfl
  rw [dropWhile_eq_self hfront, List.reverse_reverse,
    dropWhile_eq_self (head?_dropWhile is_space m.reverse)]

/-- Letter by letter a blank stays and nothing else turns blank, so the blanks
    in front are the same. -/
theorem dropWhile_flatMap {p : Char → Bool} {f : Char → List Char}
    (hblank : ∀ c, p c = true → f c = [c]) (hsome : ∀ c, f c ≠ [])
    (hother : ∀ c, p c = false → ∀ d ∈ f c, p d = false) (l : List Char) :
    (l.flatMap f).dropWhile p = (l.dropWhile p).flatMap f := by
  induction l with
  | nil => rfl
  | cons c l ih =>
    rw [List.flatMap_cons, List.dropWhile_cons]
    cases hc : p c with
    | true =>
      rw [hblank c hc, if_pos rfl, List.singleton_append, List.dropWhile_cons_of_pos hc, ih]
    | false =>
      rw [if_neg (by simp), List.flatMap_cons]
      apply dropWhile_eq_self
      intro d hd
      obtain ⟨e, rest, hrest⟩ := List.exists_cons_of_ne_nil (hsome c)
      have hde : d = e := by simpa [hrest] using hd.symm
      apply hother c hc
      rw [hrest, hde]
      exact List.mem_cons_self

theorem strip_flatMap_upper_char (l : List Char) :
    strip (l.flatMap upper_char) = (strip l).flatMap upper_char := by
  unfold strip
  rw [dropWhile_flatMap (fun c hc => upper_char_of_is_space hc) upper_char_ne_nil
      (fun c hc d hd => not_is_space_of_mem hc hd), List.reverse_flatMap,
    dropWhile_flatMap (f := List.reverse ∘ upper_char), List.reverse_flatMap]
  · simp [Function.comp_def]
  · intro c hc
    simp [upper_char_of_is_space hc]
  · intro c
    simp [upper_char_ne_nil]
  · intro c hc d hd
    exact not_is_space_of_mem hc (by simpa using hd)

/-- Doing both again changes nothing. -/
theorem strip_upper_strip_upper (s : String) : strip_upper (strip_upper s) = strip_upper s := by
  unfold strip_upper upper
  simp only [String.toList_ofList]
  rw [strip_flatMap_upper_char, strip_strip, flatMap_upper_char]

/-! ### Replacing -/

/-- Replace `old`, which is not empty, behind the next `skip` characters; these
    have been replaced already. -/
def replace_from (old new : List Char) : ℕ → List Char → List Char
  | _, [] => []
  | skip + 1, _ :: l => replace_from old new skip l
  | 0, c :: l =>
      if old.isPrefixOf (c :: l) then new ++ replace_from old new (old.length - 1) l
      else c :: replace_from old new 0 l

/-- `replace(old, new)`. -/
def replace (old new l : List Char) : List Char := replace_from old new 0 l

theorem replace_append {o : Char} {os : List Char} (new : List Char) {l : List Char} (h : o ∉ l)
    (m : List Char) : replace (o :: os) new (l ++ m) = l ++ replace (o :: os) new m := by
  induction l with
  | nil => rfl
  | cons c l ih =>
    obtain ⟨hc, hl⟩ := not_or.mp (fun hor => h (List.mem_cons.mpr hor))
    have hstep : replace (o :: os) new (c :: (l ++ m)) = c :: replace (o :: os) new (l ++ m) := by
      simp [replace, replace_from, List.isPrefixOf, hc]
    rw [List.cons_append, hstep, ih hl]
    rfl

theorem replace_of_not_mem {o : Char} {os : List Char} (new : List Char) {l : List Char}
    (h : o ∉ l) : replace (o :: os) new l = l := by
  have happend : replace (o :: os) new (l ++ []) = l ++ replace (o :: os) new [] :=
    replace_append new h []
  rw [List.append_nil] at happend
  rw [happend]
  exact List.append_nil l

theorem replace_from_length (old new l : List Char) : replace_from old new l.length l = [] := by
  induction l with
  | nil => rfl
  | cons c l ih => exact ih

/-- What is looked for, at the end and nowhere before. -/
theorem replace_end {o : Char} {os : List Char} (new : List Char) {l : List Char} (h : o ∉ l) :
    replace (o :: os) new (l ++ o :: os) = l ++ new := by
  rw [replace_append new h]
  congr 1
  have hpre : (o :: os).isPrefixOf (o :: os) = true := by simp
  show replace_from (o :: os) new 0 (o :: os) = new
  rw [replace_from, if_pos hpre]
  show new ++ replace_from (o :: os) new os.length os = new
  rw [replace_from_length, List.append_nil]

end Text
