import BacktestVisualizer.Framework.StandardText

/-! # Dates

  `datetime.date` of Python: `toordinal` counts the days, and `isoformat`
  writes year, month and day with a fixed number of digits. Both keep the
  order, so that comparing two texts is comparing the dates.
-/

/-! ### Texts of fixed width in order -/

namespace Digits

theorem div_mod_lt_iff {b n m : ℕ} (hb : 0 < b) :
    n < m ↔ n / b < m / b ∨ (n / b = m / b ∧ n % b < m % b) := by
  have hn := Nat.div_add_mod n b
  have hm := Nat.div_add_mod m b
  have hnb := Nat.mod_lt n hb
  have hmb := Nat.mod_lt m hb
  constructor
  · intro h
    rcases lt_or_eq_of_le (Nat.div_le_div_right (c := b) h.le) with hlt | heq
    · exact .inl hlt
    · rw [heq] at hn
      exact .inr ⟨heq, by omega⟩
  · intro h
    rcases h with hlt | ⟨heq, hmod⟩
    · exact Nat.lt_of_div_lt_div hlt
    · rw [heq] at hn
      omega

/-- Numbers of one width are in the order of their texts, and what follows
    decides where they are equal. -/
theorem write_lt_iff {w n m : ℕ} (hn : n < 10 ^ w) (hm : m < 10 ^ w) (rest rest' : List Char) :
    write 10 w n ++ rest < write 10 w m ++ rest' ↔ n < m ∨ (n = m ∧ rest < rest') := by
  induction w generalizing n m rest rest' with
  | zero =>
    obtain rfl : n = 0 := by simpa using hn
    obtain rfl : m = 0 := by simpa using hm
    simp [write]
  | succ w ih =>
    have hn' : n / 10 < 10 ^ w := Nat.div_lt_of_lt_mul (by rwa [← Nat.pow_succ'])
    have hm' : m / 10 < 10 ^ w := Nat.div_lt_of_lt_mul (by rwa [← Nat.pow_succ'])
    -- digits are in the order of their characters
    have hdigits : ∀ a < 10, ∀ c < 10,
        (Nat.digitChar a < Nat.digitChar c ↔ a < c) ∧ (Nat.digitChar a = Nat.digitChar c ↔ a = c) := by
      decide
    obtain ⟨hlt, heq⟩ := hdigits (n % 10) (Nat.mod_lt n (by omega)) (m % 10) (Nat.mod_lt m (by omega))
    rw [write, write, List.append_assoc, List.append_assoc, ih hn' hm']
    show _ ∨ (_ ∧ Nat.digitChar (n % 10) :: rest < Nat.digitChar (m % 10) :: rest') ↔ _
    rw [List.cons_lt_cons_iff, hlt, heq, div_mod_lt_iff (n := n) (m := m) (b := 10) (by omega)]
    have hsame : n = m ↔ n / 10 = m / 10 ∧ n % 10 = m % 10 := by omega
    rw [hsame]
    tauto

end Digits

/-! ### Dates -/

/-- A `date`. -/
structure Date where
  year : ℕ
  month : ℕ
  day : ℕ
  valid : (1 ≤ year ∧ year ≤ 9999) ∧ (1 ≤ month ∧ month ≤ 12) ∧
    (1 ≤ day ∧ day ≤ days_in_month year month)
  deriving DecidableEq

namespace Date

/-- The days before January 1st. -/
def days_before_year (year : ℕ) : ℕ :=
  (year - 1) * 365 + (year - 1) / 4 - (year - 1) / 100 + (year - 1) / 400

/-- The days of the first months of a year. -/
def days_of_months (year : ℕ) : ℕ → ℕ
  | 0 => 0
  | month + 1 => days_of_months year month + days_in_month year (month + 1)

/-- `d.toordinal()`. -/
def toordinal (d : Date) : ℤ :=
  days_before_year d.year + days_of_months d.year (d.month - 1) + d.day

/-- `d.isoformat()`. -/
def isoformat (d : Date) : String :=
  String.ofList (Digits.write 10 4 d.year ++ '-' :: (Digits.write 10 2 d.month ++ '-' ::
    Digits.write 10 2 d.day))

/-- The order of dates. -/
def Before (a b : Date) : Prop :=
  a.year < b.year ∨ (a.year = b.year ∧ (a.month < b.month ∨ (a.month = b.month ∧ a.day < b.day)))

/-! ### Counting days -/

theorem days_of_months_mono {year m n : ℕ} (h : m ≤ n) :
    days_of_months year m ≤ days_of_months year n := by
  induction h with
  | refl => exact le_refl _
  | step _ ih => exact ih.trans (Nat.le_add_right _ _)

theorem days_of_twelve (year : ℕ) : days_of_months year 12 =
    if year % 4 = 0 ∧ (year % 100 ≠ 0 ∨ year % 400 = 0) then 366 else 365 := by
  have hsum : days_of_months year 12 = 337 + days_in_month year 2 := by
    simp [days_of_months, days_in_month]
    omega
  rw [hsum]
  unfold days_in_month
  rw [if_pos rfl]
  split
  · rfl
  · rfl

/-- A year has the days of its twelve months. -/
theorem days_of_year (year : ℕ) (h : 1 ≤ year) :
    days_before_year year + days_of_months year 12 = days_before_year (year + 1) := by
  obtain ⟨k, rfl⟩ : ∃ k, year = k + 1 := ⟨year - 1, by omega⟩
  have h100 : k / 100 ≤ k := Nat.div_le_self k 100
  have hnext : ∀ c, 0 < c → (k + 1) / c = k / c + if (k + 1) % c = 0 then 1 else 0 := by
    intro c _
    rw [Nat.succ_div]
    simp only [Nat.dvd_iff_mod_eq_zero]
  have hfour : (k + 1) % 100 = 0 → (k + 1) % 4 = 0 := by omega
  have hhundred : (k + 1) % 400 = 0 → (k + 1) % 100 = 0 := by omega
  rw [days_of_twelve]
  unfold days_before_year
  simp only [Nat.add_sub_cancel]
  rw [hnext 4 (by omega), hnext 100 (by omega), hnext 400 (by omega)]
  generalize k / 4 = four, k / 100 = hundred, k / 400 = fourhundred at *
  -- the leap years among the multiples of 4, 100 and 400
  by_cases h4 : (k + 1) % 4 = 0
  · by_cases h100' : (k + 1) % 100 = 0
    · by_cases h400 : (k + 1) % 400 = 0
      · rw [if_pos ⟨h4, .inr h400⟩, if_pos h4, if_pos h100', if_pos h400]
        omega
      · rw [if_neg (fun h => h.2.elim (fun hne => hne h100') h400), if_pos h4, if_pos h100',
          if_neg h400]
        omega
    · have h400 : ¬ (k + 1) % 400 = 0 := fun h => h100' (hhundred h)
      rw [if_pos ⟨h4, .inl h100'⟩, if_pos h4, if_neg h100', if_neg h400]
      omega
  · have h100' : ¬ (k + 1) % 100 = 0 := fun h => h4 (hfour h)
    have h400 : ¬ (k + 1) % 400 = 0 := fun h => h100' (hhundred h)
    rw [if_neg (fun h => h4 h.1), if_neg h4, if_neg h100', if_neg h400]
    omega

theorem days_before_year_mono {y z : ℕ} (hy : 1 ≤ y) (h : y ≤ z) :
    days_before_year y ≤ days_before_year z := by
  obtain ⟨k, rfl⟩ := Nat.exists_eq_add_of_le h
  induction k with
  | zero => exact le_refl _
  | succ k ih =>
    have hnext := days_of_year (y + k) (by omega)
    have hle := ih (by omega)
    rw [← Nat.add_assoc]
    omega

/-- The days of a year up to a date of it. -/
theorem day_of_year_le (d : Date) :
    days_of_months d.year (d.month - 1) + d.day ≤ days_of_months d.year d.month := by
  obtain ⟨_, ⟨hmonth, _⟩, _, hday⟩ := d.valid
  obtain ⟨m, hm⟩ : ∃ m, d.month = m + 1 := ⟨d.month - 1, by omega⟩
  rw [hm] at hday ⊢
  show days_of_months d.year m + d.day ≤ days_of_months d.year m + days_in_month d.year (m + 1)
  omega

theorem toordinal_lt_of_before {a b : Date} (h : a.Before b) : a.toordinal < b.toordinal := by
  unfold toordinal
  obtain ⟨⟨hyear, _⟩, ⟨_, hmonth⟩, _⟩ := a.valid
  obtain ⟨_, _, hday, _⟩ := b.valid
  have ha := day_of_year_le a
  have hrest : days_of_months a.year a.month ≤ days_of_months a.year 12 := days_of_months_mono hmonth
  rcases h with hlt | ⟨heq, hlt | ⟨hmon, hlt⟩⟩
  · have hwhole := days_of_year a.year hyear
    have hyears : days_before_year (a.year + 1) ≤ days_before_year b.year :=
      days_before_year_mono (by omega) hlt
    omega
  · rw [← heq]
    have hmonths : days_of_months a.year a.month ≤ days_of_months a.year (b.month - 1) :=
      days_of_months_mono (by omega)
    omega
  · rw [← heq, ← hmon]
    omega

theorem eq_of_parts {a b : Date} (hyear : a.year = b.year) (hmonth : a.month = b.month)
    (hday : a.day = b.day) : a = b := by
  cases a
  cases b
  simp_all

theorem before_trichotomy (a b : Date) : a.Before b ∨ a = b ∨ b.Before a := by
  unfold Before
  by_cases hsame : a.year = b.year ∧ a.month = b.month ∧ a.day = b.day
  · exact .inr (.inl (eq_of_parts hsame.1 hsame.2.1 hsame.2.2))
  · omega

/-- Ordinals are in the order of the dates. -/
theorem toordinal_lt_iff {a b : Date} : a.toordinal < b.toordinal ↔ a.Before b := by
  constructor
  · intro h
    rcases before_trichotomy a b with hlt | heq | hgt
    · exact hlt
    · rw [heq] at h
      exact absurd h (lt_irrefl _)
    · exact absurd (toordinal_lt_of_before hgt) h.not_gt
  · exact toordinal_lt_of_before

theorem toordinal_pos (d : Date) : 0 < d.toordinal := by
  obtain ⟨_, _, hday, _⟩ := d.valid
  unfold toordinal
  omega

/-! ### From days to dates -/

/-- `date.fromordinal(n)`: the last year that begins before the day, and the
    last month of it that does. -/
def fromordinal (n : ℕ) : Option Date :=
  let year := Nat.findGreatest (fun y => days_before_year y < n) 9999
  let month := Nat.findGreatest
    (fun m => days_before_year year + days_of_months year (m - 1) < n) 12
  let day := n - (days_before_year year + days_of_months year (month - 1))
  if h : (1 ≤ year ∧ year ≤ 9999) ∧ (1 ≤ month ∧ month ≤ 12) ∧
      (1 ≤ day ∧ day ≤ days_in_month year month) then some ⟨year, month, day, h⟩
  else none

theorem toordinal_fromordinal {n : ℕ} {d : Date} (h : fromordinal n = some d) :
    d.toordinal = n := by
  unfold fromordinal at h
  simp only at h
  split at h
  · rename_i hvalid
    obtain rfl := Option.some.inj h
    unfold toordinal
    simp only
    obtain ⟨_, _, hday, _⟩ := hvalid
    omega
  · exact absurd h (by simp)

/-- Every date is found. -/
theorem fromordinal_toordinal (d : Date) : fromordinal d.toordinal.toNat = some d := by
  obtain ⟨⟨hyear, hlast⟩, ⟨hmonth, htwelve⟩, hday, hend⟩ := d.valid
  have hn : d.toordinal.toNat =
      days_before_year d.year + days_of_months d.year (d.month - 1) + d.day := by
    unfold toordinal
    omega
  have hle := day_of_year_le d
  have hwhole := days_of_year d.year hyear
  have hmonths : days_of_months d.year d.month ≤ days_of_months d.year 12 :=
    days_of_months_mono htwelve
  have hfound : Nat.findGreatest (fun y => days_before_year y < d.toordinal.toNat) 9999 = d.year := by
    refine Nat.findGreatest_eq_iff.mpr ⟨hlast, fun _ => by omega, ?_⟩
    intro y hlt _
    have hlater : days_before_year (d.year + 1) ≤ days_before_year y :=
      days_before_year_mono (by omega) hlt
    omega
  have hfound' : Nat.findGreatest (fun m => days_before_year d.year +
      days_of_months d.year (m - 1) < d.toordinal.toNat) 12 = d.month := by
    refine Nat.findGreatest_eq_iff.mpr ⟨htwelve, fun _ => by omega, ?_⟩
    intro m hlt _
    have hlater : days_of_months d.year d.month ≤ days_of_months d.year (m - 1) :=
      days_of_months_mono (by omega)
    omega
  have hrest : d.toordinal.toNat - (days_before_year d.year +
      days_of_months d.year (d.month - 1)) = d.day := by omega
  unfold fromordinal
  simp only [hfound, hfound', hrest]
  rw [dif_pos d.valid]

/-! ### Texts -/

/-- **Texts are in the order of the dates.** -/
theorem isoformat_lt_iff {a b : Date} : a.isoformat < b.isoformat ↔ a.toordinal < b.toordinal := by
  obtain ⟨⟨_, hyear⟩, ⟨_, hmonth⟩, _, hday⟩ := a.valid
  obtain ⟨⟨_, hyear'⟩, ⟨_, hmonth'⟩, _, hday'⟩ := b.valid
  have hle := DateTime.days_in_month_le a.year a.month
  have hle' := DateTime.days_in_month_le b.year b.month
  have hlast : ∀ n m : ℕ, n < 10 ^ 2 → m < 10 ^ 2 →
      (Digits.write 10 2 n < Digits.write 10 2 m ↔ n < m) := by
    intro n m hn hm
    have hiff := Digits.write_lt_iff hn hm [] []
    rw [List.append_nil, List.append_nil] at hiff
    rw [hiff]
    simp
  rw [toordinal_lt_iff, isoformat, isoformat, String.lt_iff, String.toList_ofList,
    String.toList_ofList, Digits.write_lt_iff (by omega) (by omega), List.cons_lt_cons_iff,
    Digits.write_lt_iff (by omega) (by omega), List.cons_lt_cons_iff,
    hlast a.day b.day (by omega) (by omega)]
  unfold Before
  simp

end Date
