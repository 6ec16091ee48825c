import BacktestVisualizer.Framework.Text

/-! # Identifiers and Times as Text

  Numbers with a fixed number of digits, and the two standard forms made of
  them: `str` of a UUID and `isoformat` of a datetime. What is written so is
  read back.
-/

/-! ### Numbers of fixed width -/

namespace Digits

/-- The last `w` digits of a number to the base `b`. -/
def write (b : ℕ) : ℕ → ℕ → List Char
  | 0, _ => []
  | w + 1, n => write b w (n / b) ++ [Nat.digitChar (n % b)]

/-- The value of a digit, of either case. -/
def digit_value (c : Char) : Option ℕ :=
  if '0' ≤ c ∧ c ≤ '9' then some (c.toNat - 48)
  else if 'a' ≤ c ∧ c ≤ 'f' then some (c.toNat - 87)
  else if 'A' ≤ c ∧ c ≤ 'F' then some (c.toNat - 55)
  else none

/-- The number that a text of digits is. -/
def read (b : ℕ) (text : List Char) : Option ℕ :=
  text.foldlM (fun n c => ((digit_value c).filter (· < b)).map (n * b + ·)) 0

/-- A number of `w` digits, and the text behind it. -/
def number (b w : ℕ) (text : List Char) : Option (ℕ × List Char) :=
  if w ≤ text.length then (read b (text.take w)).map (fun n => (n, text.drop w)) else none

@[simp] theorem length_write (b w n : ℕ) : (write b w n).length = w := by
  induction w generalizing n with
  | zero => rfl
  | succ w ih => simp [write, ih]

theorem mem_write {b w n : ℕ} (hb : 0 < b) {c : Char} (h : c ∈ write b w n) :
    ∃ d < b, c = Nat.digitChar d := by
  induction w generalizing n with
  | zero => exact absurd h List.not_mem_nil
  | succ w ih =>
    rcases List.mem_append.mp h with h | h
    · exact ih h
    · exact ⟨n % b, Nat.mod_lt n hb, List.mem_singleton.mp h⟩

/-- The characters of numbers are digits. -/
theorem not_mem_write {b w n : ℕ} (hb : 0 < b ∧ b ≤ 16) {c : Char} (hc : digit_value c = none) :
    c ∉ write b w n := by
  intro h
  obtain ⟨d, hd, rfl⟩ := mem_write hb.1 h
  have hdigit : ∀ d < 16, digit_value (Nat.digitChar d) = some d := by decide
  rw [hdigit d (by omega)] at hc
  exact absurd hc (by simp)

theorem read_write {b w n : ℕ} (hb : 0 < b ∧ b ≤ 16) (hn : n < b ^ w) :
    read b (write b w n) = some n := by
  induction w generalizing n with
  | zero =>
    obtain rfl : n = 0 := by simpa using hn
    rfl
  | succ w ih =>
    have hdiv : n / b < b ^ w := Nat.div_lt_of_lt_mul (by rwa [← Nat.pow_succ'])
    have hmod : n % b < b := Nat.mod_lt n hb.1
    have hdigit : ∀ d < 16, digit_value (Nat.digitChar d) = some d := by decide
    have hread := ih hdiv
    unfold read at hread ⊢
    rw [write, List.foldlM_append, hread]
    show ((digit_value (Nat.digitChar (n % b))).filter (· < b)).map (n / b * b + ·) >>= pure = _
    rw [hdigit _ (by omega)]
    simp [Option.filter, hmod, Nat.div_add_mod']

/-- A number is read off the front of a text. -/
theorem number_write {b w n : ℕ} (hb : 0 < b ∧ b ≤ 16) (hn : n < b ^ w) (rest : List Char) :
    number b w (write b w n ++ rest) = some (n, rest) := by
  have hlength := length_write b w n
  unfold number
  rw [if_pos (by simp), List.take_left' hlength, List.drop_left' hlength, read_write hb hn]
  rfl

end Digits

/-! ### UUIDs -/

/-- A UUID. -/
structure UUID where
  int : Fin (2 ^ 128)
  deriving DecidableEq

namespace UUID

/-- Its 32 digits. -/
def hex (u : UUID) : List Char := Digits.write 16 32 u.int

/-- `str(u)`. -/
def text (u : UUID) : List Char :=
  u.hex.take 8 ++ '-' :: ((u.hex.drop 8).take 4 ++ '-' :: ((u.hex.drop 12).take 4 ++
    '-' :: ((u.hex.drop 16).take 4 ++ '-' :: u.hex.drop 20)))

/-- The braces that may stand around a UUID. -/
def is_brace (c : Char) : Bool := c.toNat = 123 ∨ c.toNat = 125

/-- `hex.replace("urn:", "").replace("uuid:", "").strip("{}").replace("-", "")`. -/
def digits_of (text : List Char) : List Char :=
  let bare := Text.replace ['u', 'u', 'i', 'd', ':'] [] (Text.replace ['u', 'r', 'n', ':'] [] text)
  ((bare.dropWhile is_brace).reverse.dropWhile is_brace).reverse.filter (· ≠ '-')

/-- `uuid.UUID(text)`. -/
def parse (text : List Char) : Option UUID :=
  if (digits_of text).length = 32 then
    (Digits.read 16 (digits_of text)).bind (fun n =>
      if h : n < 2 ^ 128 then some ⟨n, h⟩ else none)
  else none

theorem not_mem_hex (u : UUID) {c : Char} (hc : Digits.digit_value c = none) : c ∉ u.hex :=
  Digits.not_mem_write (by decide) hc

/-- What a UUID is written with. -/
theorem not_mem_text (u : UUID) {c : Char} (hc : Digits.digit_value c = none) (hdash : c ≠ '-') :
    c ∉ u.text := by
  have hhex := u.not_mem_hex hc
  have hdrop : ∀ n, c ∉ u.hex.drop n := fun n h => hhex (List.mem_of_mem_drop h)
  have htake : ∀ n m, c ∉ (u.hex.drop n).take m := fun n m h => hdrop n (List.mem_of_mem_take h)
  have hfront : c ∉ u.hex.take 8 := fun h => hhex (List.mem_of_mem_take h)
  unfold text
  simp only [List.mem_append, List.mem_cons, hfront, htake, hdrop, hdash, not_false_iff,
    or_self]

theorem dropWhile_is_brace {l : List Char} (h : ∀ c ∈ l, is_brace c = false) :
    l.dropWhile is_brace = l :=
  Text.dropWhile_eq_self (fun c hc => h c (List.mem_of_mem_head? hc))

theorem filter_hex (u : UUID) {l : List Char} (h : ∀ c ∈ l, c ∈ u.hex) :
    l.filter (· ≠ '-') = l := by
  rw [List.filter_eq_self]
  intro c hc
  have hne : c ≠ '-' := by
    rintro rfl
    exact u.not_mem_hex (by decide) (h _ hc)
  simpa using hne

theorem digits_of_text (u : UUID) : digits_of u.text = u.hex := by
  have hletter : 'u' ∉ u.text := u.not_mem_text (by decide) (by decide)
  have hbrace : ∀ c ∈ u.text, is_brace c = false := by
    intro c hc
    cases hb : is_brace c with
    | false => rfl
    | true =>
      have hcode : c = Char.ofNat 123 ∨ c = Char.ofNat 125 := by
        rcases of_decide_eq_true hb with h | h
        · exact Or.inl (by rw [← h, Char.ofNat_toNat])
        · exact Or.inr (by rw [← h, Char.ofNat_toNat])
      rcases hcode with rfl | rfl
      · exact absurd hc (u.not_mem_text (by decide) (by decide))
      · exact absurd hc (u.not_mem_text (by decide) (by decide))
  have hfront := u.filter_hex (fun c (hc : c ∈ u.hex.take 8) => List.mem_of_mem_take hc)
  have hpart : ∀ n, ((u.hex.drop n).take 4).filter (· ≠ '-') = (u.hex.drop n).take 4 := fun n =>
    u.filter_hex (fun c hc => List.mem_of_mem_drop (List.mem_of_mem_take hc))
  have hlast := u.filter_hex (fun c (hc : c ∈ u.hex.drop 20) => List.mem_of_mem_drop hc)
  have hdash : ∀ l : List Char, ('-' :: l).filter (· ≠ '-') = l.filter (· ≠ '-') := fun l => by
    rw [List.filter_cons_of_neg (by simp)]
  have hjoin : ∀ n, (u.hex.drop n).take 4 ++ u.hex.drop (n + 4) = u.hex.drop n := fun n => by
    rw [← List.drop_drop, List.take_append_drop]
  unfold digits_of
  simp only [Text.replace_of_not_mem _ hletter]
  rw [dropWhile_is_brace hbrace,
    dropWhile_is_brace (fun c hc => hbrace c (List.mem_reverse.mp hc)), List.reverse_reverse]
  unfold text
  simp only [List.filter_append, hdash, hfront, hpart, hlast]
  rw [hjoin 16, hjoin 12, hjoin 8, List.take_append_drop]

/-- A UUID is read back. -/
theorem parse_text (u : UUID) : parse u.text = some u := by
  have hlength : u.hex.length = 32 := Digits.length_write 16 32 u.int
  have hread : Digits.read 16 u.hex = some u.int.val :=
    Digits.read_write (by decide) (lt_of_lt_of_eq u.int.isLt (by norm_num))
  unfold parse
  rw [digits_of_text, if_pos hlength, hread, Option.bind_some,
    dif_pos u.int.isLt]

end UUID

/-! ### Datetimes -/

/-- The days of a month. -/
def days_in_month (year month : ℕ) : ℕ :=
  if month = 2 then (if year % 4 = 0 ∧ (year % 100 ≠ 0 ∨ year % 400 = 0) then 29 else 28)
  else if month = 4 ∨ month = 6 ∨ month = 9 ∨ month = 11 then 30
  else 31

/-- The parts of a datetime: with a UTC offset in minutes, or naive. -/
structure TimeParts where
  year : ℕ
  month : ℕ
  day : ℕ
  hour : ℕ
  minute : ℕ
  second : ℕ
  microsecond : ℕ
  utcoffset : Option ℤ
  deriving DecidableEq

/-- The parts that a datetime can have. -/
def TimeParts.Valid (t : TimeParts) : Prop :=
  (1 ≤ t.year ∧ t.year ≤ 9999) ∧ (1 ≤ t.month ∧ t.month ≤ 12) ∧
    (1 ≤ t.day ∧ t.day ≤ days_in_month t.year t.month) ∧
    (t.hour < 24 ∧ t.minute < 60 ∧ t.second < 60) ∧ t.microsecond < 1000000 ∧
    ∀ m ∈ t.utcoffset, m.natAbs < 1440

instance (t : TimeParts) : Decidable t.Valid :=
  inferInstanceAs (Decidable (_ ∧ _ ∧ _ ∧ _ ∧ _ ∧ _))

/-- A `datetime`. -/
structure DateTime extends TimeParts where
  valid : toTimeParts.Valid
  deriving DecidableEq

namespace DateTime

/-- The offset as text. -/
def offset_text : Option ℤ → List Char
  | none => []
  | some m =>
      (if m < 0 then '-' else '+') ::
        (Digits.write 10 2 (m.natAbs / 60) ++ ':' :: Digits.write 10 2 (m.natAbs % 60))

/-- The microseconds as text: nothing when there are none. -/
def fraction_text (n : ℕ) : List Char := if n = 0 then [] else '.' :: Digits.write 10 6 n

/-- Everything but the offset. -/
def body (t : TimeParts) : List Char :=
  Digits.write 10 4 t.year ++ '-' :: (Digits.write 10 2 t.month ++ '-' ::
    (Digits.write 10 2 t.day ++ 'T' :: (Digits.write 10 2 t.hour ++ ':' ::
      (Digits.write 10 2 t.minute ++ ':' :: (Digits.write 10 2 t.second ++
        fraction_text t.microsecond)))))

/-- `t.isoformat()`. -/
def isoformat (t : DateTime) : List Char := body t.toTimeParts ++ offset_text t.utcoffset

/-- One character that is fixed. -/
def literal (c : Char) : List Char → Option (List Char)
  | [] => none
  | d :: text => if d = c then some text else none

/-- The microseconds, if there are any. -/
def fraction : List Char → Option (ℕ × List Char)
  | '.' :: text => Digits.number 10 6 text
  | text => some (0, text)

/-- The offset at the end of a text, if there is one. -/
def offset : List Char → Option (Option ℤ)
  | [] => some none
  | c :: text => do
      let (hours, text) ← Digits.number 10 2 text
      let text ← literal ':' text
      let (minutes, text) ← Digits.number 10 2 text
      if text ≠ [] then none
      else if c = '+' then some (some (hours * 60 + minutes))
      else if c = '-' then some (some (-(hours * 60 + minutes)))
      else none

/-- The parts that a text names. -/
def parts (text : List Char) : Option TimeParts := do
  let (year, text) ← Digits.number 10 4 text
  let text ← literal '-' text
  let (month, text) ← Digits.number 10 2 text
  let text ← literal '-' text
  let (day, text) ← Digits.number 10 2 text
  let text ← literal 'T' text
  let (hour, text) ← Digits.number 10 2 text
  let text ← literal ':' text
  let (minute, text) ← Digits.number 10 2 text
  let text ← literal ':' text
  let (second, text) ← Digits.number 10 2 text
  let (microsecond, text) ← fraction text
  let utcoffset ← offset text
  some ⟨year, month, day, hour, minute, second, microsecond, utcoffset⟩

/-- `datetime.fromisoformat(text)`, of the form that `isoformat` writes. -/
def fromisoformat (text : List Char) : Option DateTime :=
  (parts text).bind (fun t => if h : t.Valid then some ⟨t, h⟩ else none)

/-! ### Reading a datetime back -/

@[simp] theorem literal_self (c : Char) (text : List Char) : literal c (c :: text) = some text := by
  simp [literal]

theorem number_write {w n : ℕ} (h : n < 10 ^ w) (rest : List Char) :
    Digits.number 10 w (Digits.write 10 w n ++ rest) = some (n, rest) :=
  Digits.number_write (by decide) h rest

theorem days_in_month_le (year month : ℕ) : days_in_month year month ≤ 31 := by
  unfold days_in_month
  split
  · split
    · omega
    · omega
  · split
    · omega
    · omega

theorem offset_offset_text {m : Option ℤ} (h : ∀ k ∈ m, k.natAbs < 1440) :
    offset (offset_text m) = some m := by
  cases m with
  | none => rfl
  | some m =>
    have hm := h m rfl
    have hhours := number_write (w := 2) (show m.natAbs / 60 < 10 ^ 2 by omega)
    have hminutes := number_write (w := 2) (show m.natAbs % 60 < 10 ^ 2 by omega) []
    rw [List.append_nil] at hminutes
    unfold offset_text offset
    simp only [hhours, literal_self, hminutes, Option.bind_eq_bind, Option.bind_some]
    by_cases hneg : m < 0
    · simp only [if_pos hneg]
      show some (some (-(((m.natAbs / 60 : ℕ) : ℤ) * 60 + ((m.natAbs % 60 : ℕ) : ℤ)))) = _
      congr
      omega
    · simp only [if_neg hneg]
      show some (some (((m.natAbs / 60 : ℕ) : ℤ) * 60 + ((m.natAbs % 60 : ℕ) : ℤ))) = _
      congr
      omega

theorem fraction_of_ne {c : Char} (hc : c ≠ '.') (text : List Char) :
    fraction (c :: text) = some (0, c :: text) := by
  unfold fraction
  split
  · rename_i heq
    exact absurd (List.cons.inj heq).1 hc
  · rfl

/-- No offset starts with a point. -/
theorem fraction_fraction_text {n : ℕ} (hn : n < 1000000) (m : Option ℤ) :
    fraction (fraction_text n ++ offset_text m) = some (n, offset_text m) := by
  unfold fraction_text
  split
  · rename_i hzero
    rw [hzero, List.nil_append]
    cases m with
    | none => rfl
    | some m =>
      have hsign : (if m < 0 then '-' else '+') ≠ '.' := by
        split
        · decide
        · decide
      exact fraction_of_ne hsign _
  · rw [List.cons_append]
    show Digits.number 10 6 (Digits.write 10 6 n ++ offset_text m) = _
    exact number_write (by omega) _

theorem parts_isoformat (t : DateTime) : parts t.isoformat = some t.toTimeParts := by
  obtain ⟨hyear, hmonth, hday, ⟨hhour, hminute, hsecond⟩, hmicro, hoffset⟩ := t.valid
  have hdays := days_in_month_le t.year t.month
  have hy := number_write (w := 4) (show t.year < 10 ^ 4 by omega)
  have hmo := number_write (w := 2) (show t.month < 10 ^ 2 by omega)
  have hd := number_write (w := 2) (show t.day < 10 ^ 2 by omega)
  have hh := number_write (w := 2) (show t.hour < 10 ^ 2 by omega)
  have hmi := number_write (w := 2) (show t.minute < 10 ^ 2 by omega)
  have hs := number_write (w := 2) (show t.second < 10 ^ 2 by omega)
  unfold parts isoformat body
  simp only [List.append_assoc, List.cons_append, hy, hmo, hd, hh, hmi, hs, literal_self,
    fraction_fraction_text hmicro, offset_offset_text hoffset, Option.bind_eq_bind,
    Option.bind_some]

/-- A datetime is read back. -/
theorem fromisoformat_isoformat (t : DateTime) : fromisoformat t.isoformat = some t := by
  unfold fromisoformat
  rw [parts_isoformat, Option.bind_some, dif_pos t.valid]

/-- What stands before the offset is made of digits and of four marks. -/
theorem not_mem_body (t : TimeParts) {c : Char} (hc : Digits.digit_value c = none)
    (hmark : c ∉ ['-', 'T', ':', '.']) : c ∉ body t := by
  have hdigits : ∀ w n, c ∉ Digits.write 10 w n := fun w n =>
    Digits.not_mem_write (by decide) hc
  simp only [List.mem_cons, List.not_mem_nil, or_false, not_or] at hmark
  obtain ⟨hdash, hT, hcolon, hpoint⟩ := hmark
  have hfraction : c ∉ fraction_text t.microsecond := by
    unfold fraction_text
    split
    · exact List.not_mem_nil
    · simp only [List.mem_cons, hpoint, hdigits, or_self, not_false_iff]
  unfold body
  simp only [List.mem_append, List.mem_cons, hdigits, hdash, hT, hcolon, hfraction, or_self,
    not_false_iff]

end DateTime
