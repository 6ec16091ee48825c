import Mathlib.Tactic

/-! # Upper Case

  `str.upper()` over the whole of Unicode 15, from a table: the runs of code
  points whose upper case is one code point, and the code points whose upper
  case is several. Upper case is its own upper case, and it makes no blank
  and unmakes none.
-/

namespace Text

/-! ### The table -/

/-- Every `step`th code point from `first` to `last`; the upper case of the
    first is `upper`, that of the others lies as far behind. -/
structure CaseRun where
  first : ℕ
  last : ℕ
  step : ℕ
  upper : ℕ

def CaseRun.covers (run : CaseRun) (n : ℕ) : Bool :=
  Nat.ble run.first n && Nat.ble n run.last && (n - run.first) % run.step == 0

/-- The upper case of the last. -/
def CaseRun.last_upper (run : CaseRun) : ℕ := run.upper + (run.last - run.first)

/-- The code points beyond ASCII with an upper case of one code point. -/
def case_runs : List CaseRun :=
  [⟨181, 181, 1, 924⟩, ⟨224, 246, 1, 192⟩, ⟨248, 254, 1, 216⟩, ⟨255, 255, 1, 376⟩,
   ⟨257, 303, 2, 256⟩, ⟨305, 305, 1, 73⟩, ⟨307, 311, 2, 306⟩, ⟨314, 328, 2, 313⟩,
   ⟨331, 375, 2, 330⟩, ⟨378, 382, 2, 377⟩, ⟨383, 383, 1, 83⟩, ⟨384, 384, 1, 579⟩,
   ⟨387, 389, 2, 386⟩, ⟨392, 392, 1, 391⟩, ⟨396, 396, 1, 395⟩, ⟨402, 402, 1, 401⟩,
   ⟨405, 405, 1, 502⟩, ⟨409, 409, 1, 408⟩, ⟨410, 410, 1, 573⟩, ⟨414, 414, 1, 544⟩,
   ⟨417, 421, 2, 416⟩, ⟨424, 424, 1, 423⟩, ⟨429, 429, 1, 428⟩, ⟨432, 432, 1, 431⟩,
   ⟨436, 438, 2, 435⟩, ⟨441, 441, 1, 440⟩, ⟨445, 445, 1, 444⟩, ⟨447, 447, 1, 503⟩,
   ⟨453, 453, 1, 452⟩, ⟨454, 454, 1, 452⟩, ⟨456, 456, 1, 455⟩, ⟨457, 457, 1, 455⟩,
   ⟨459, 459, 1, 458⟩, ⟨460, 460, 1, 458⟩, ⟨462, 476, 2, 461⟩, ⟨477, 477, 1, 398⟩,
   ⟨479, 495, 2, 478⟩, ⟨498, 498, 1, 497⟩, ⟨499, 499, 1, 497⟩, ⟨501, 501, 1, 500⟩,
   ⟨505, 543, 2, 504⟩, ⟨547, 563, 2, 546⟩, ⟨572, 572, 1, 571⟩, ⟨575, 576, 1, 11390⟩,
   ⟨578, 578, 1, 577⟩, ⟨583, 591, 2, 582⟩, ⟨592, 592, 1, 11375⟩, ⟨593, 593, 1, 11373⟩,
   ⟨594, 594, 1, 11376⟩, ⟨595, 595, 1, 385⟩, ⟨596, 596, 1, 390⟩, ⟨598, 599, 1, 393⟩,
   ⟨601, 601, 1, 399⟩, ⟨603, 603, 1, 400⟩, ⟨604, 604, 1, 42923⟩, ⟨608, 608, 1, 403⟩,
   ⟨609, 609, 1, 42924⟩, ⟨611, 611, 1, 404⟩, ⟨613, 613, 1, 42893⟩, ⟨614, 614, 1, 42922⟩,
   ⟨616, 616, 1, 407⟩, ⟨617, 617, 1, 406⟩, ⟨618, 618, 1, 42926⟩, ⟨619, 619, 1, 11362⟩,
   ⟨620, 620, 1, 42925⟩, ⟨623, 623, 1, 412⟩, ⟨625, 625, 1, 11374⟩, ⟨626, 626, 1, 413⟩,
   ⟨629, 629, 1, 415⟩, ⟨637, 637, 1, 11364⟩, ⟨640, 640, 1, 422⟩, ⟨642, 642, 1, 42949⟩,
   ⟨643, 643, 1, 425⟩, ⟨647, 647, 1, 42929⟩, ⟨648, 648, 1, 430⟩, ⟨649, 649, 1, 580⟩,
   ⟨650, 651, 1, 433⟩, ⟨652, 652, 1, 581⟩, ⟨658, 658, 1, 439⟩, ⟨669, 669, 1, 42930⟩,
   ⟨670, 670, 1, 42928⟩, ⟨837, 837, 1, 921⟩, ⟨881, 883, 2, 880⟩, ⟨887, 887, 1, 886⟩,
   ⟨891, 893, 1, 1021⟩, ⟨940, 940, 1, 902⟩, ⟨941, 943, 1, 904⟩, ⟨945, 961, 1, 913⟩,
   ⟨962, 962, 1, 931⟩, ⟨963, 971, 1, 931⟩, ⟨972, 972, 1, 908⟩, ⟨973, 974, 1, 910⟩,
   ⟨976, 976, 1, 914⟩, ⟨977, 977, 1, 920⟩, ⟨981, 981, 1, 934⟩, ⟨982, 982, 1, 928⟩,
   ⟨983, 983, 1, 975⟩, ⟨985, 1007, 2, 984⟩, ⟨1008, 1008, 1, 922⟩, ⟨1009, 1009, 1, 929⟩,
   ⟨1010, 1010, 1, 1017⟩, ⟨1011, 1011, 1, 895⟩, ⟨1013, 1013, 1, 917⟩, ⟨1016, 1016, 1, 1015⟩,
   ⟨1019, 1019, 1, 1018⟩, ⟨1072, 1103, 1, 1040⟩, ⟨1104, 1119, 1, 1024⟩, ⟨1121, 1153, 2, 1120⟩,
   ⟨1163, 1215, 2, 1162⟩, ⟨1218, 1230, 2, 1217⟩, ⟨1231, 1231, 1, 1216⟩, ⟨1233, 1327, 2, 1232⟩,
   ⟨1377, 1414, 1, 1329⟩, ⟨4304, 4346, 1, 7312⟩, ⟨4349, 4351, 1, 7357⟩, ⟨5112, 5117, 1, 5104⟩,
   ⟨7296, 7296, 1, 1042⟩, ⟨7297, 7297, 1, 1044⟩, ⟨7298, 7298, 1, 1054⟩, ⟨7299, 7300, 1, 1057⟩,
   ⟨7301, 7301, 1, 1058⟩, ⟨7302, 7302, 1, 1066⟩, ⟨7303, 7303, 1, 1122⟩, ⟨7304, 7304, 1, 42570⟩,
   ⟨7545, 7545, 1, 42877⟩, ⟨7549, 7549, 1, 11363⟩, ⟨7566, 7566, 1, 42950⟩, ⟨7681, 7829, 2, 7680⟩,
   ⟨7835, 7835, 1, 7776⟩, ⟨7841, 7935, 2, 7840⟩, ⟨7936, 7943, 1, 7944⟩, ⟨7952, 7957, 1, 7960⟩,
   ⟨7968, 7975, 1, 7976⟩, ⟨7984, 7991, 1, 7992⟩, ⟨8000, 8005, 1, 8008⟩, ⟨8017, 8023, 2, 8025⟩,
   ⟨8032, 8039, 1, 8040⟩, ⟨8048, 8049, 1, 8122⟩, ⟨8050, 8053, 1, 8136⟩, ⟨8054, 8055, 1, 8154⟩,
   ⟨8056, 8057, 1, 8184⟩, ⟨8058, 8059, 1, 8170⟩, ⟨8060, 8061, 1, 8186⟩, ⟨8112, 8113, 1, 8120⟩,
   ⟨8126, 8126, 1, 921⟩, ⟨8144, 8145, 1, 8152⟩, ⟨8160, 8161, 1, 8168⟩, ⟨8165, 8165, 1, 8172⟩,
   ⟨8526, 8526, 1, 8498⟩, ⟨8560, 8575, 1, 8544⟩, ⟨8580, 8580, 1, 8579⟩, ⟨9424, 9449, 1, 9398⟩,
   ⟨11312, 11359, 1, 11264⟩, ⟨11361, 11361, 1, 11360⟩, ⟨11365, 11365, 1, 570⟩,
   ⟨11366, 11366, 1, 574⟩, ⟨11368, 11372, 2, 11367⟩, ⟨11379, 11379, 1, 11378⟩,
   ⟨11382, 11382, 1, 11381⟩, ⟨11393, 11491, 2, 11392⟩, ⟨11500, 11502, 2, 11499⟩,
   ⟨11507, 11507, 1, 11506⟩, ⟨11520, 11557, 1, 4256⟩, ⟨11559, 11559, 1, 4295⟩,
   ⟨11565, 11565, 1, 4301⟩, ⟨42561, 42605, 2, 42560⟩, ⟨42625, 42651, 2, 42624⟩,
   ⟨42787, 42799, 2, 42786⟩, ⟨42803, 42863, 2, 42802⟩, ⟨42874, 42876, 2, 42873⟩,
   ⟨42879, 42887, 2, 42878⟩, ⟨42892, 42892, 1, 42891⟩, ⟨42897, 42899, 2, 42896⟩,
   ⟨42900, 42900, 1, 42948⟩, ⟨42903, 42921, 2, 42902⟩, ⟨42933, 42947, 2, 42932⟩,
   ⟨42952, 42954, 2, 42951⟩, ⟨42961, 42961, 1, 42960⟩, ⟨42967, 42969, 2, 42966⟩,
   ⟨42998, 42998, 1, 42997⟩, ⟨43859, 43859, 1, 42931⟩, ⟨43888, 43967, 1, 5024⟩,
   ⟨65345, 65370, 1, 65313⟩, ⟨66600, 66639, 1, 66560⟩, ⟨66776, 66811, 1, 66736⟩,
   ⟨66967, 67003, 2, 66928⟩, ⟨66968, 66976, 2, 66929⟩, ⟨66980, 66992, 2, 66941⟩,
   ⟨66996, 67000, 2, 66957⟩, ⟨67004, 67004, 1, 66965⟩, ⟨68800, 68850, 1, 68736⟩,
   ⟨71872, 71903, 1, 71840⟩, ⟨93792, 93823, 1, 93760⟩, ⟨125218, 125251, 1, 125184⟩]

/-- The code points with an upper case of several. -/
def special_upper : List (ℕ × List ℕ) :=
  [(223, [83, 83]), (329, [700, 78]), (496, [74, 780]), (912, [921, 776, 769]),
   (944, [933, 776, 769]), (1415, [1333, 1362]), (7830, [72, 817]), (7831, [84, 776]),
   (7832, [87, 778]), (7833, [89, 778]), (7834, [65, 702]), (8016, [933, 787]),
   (8018, [933, 787, 768]), (8020, [933, 787, 769]), (8022, [933, 787, 834]), (8064, [7944, 921]),
   (8065, [7945, 921]), (8066, [7946, 921]), (8067, [7947, 921]), (8068, [7948, 921]),
   (8069, [7949, 921]), (8070, [7950, 921]), (8071, [7951, 921]), (8072, [7944, 921]),
   (8073, [7945, 921]), (8074, [7946, 921]), (8075, [7947, 921]), (8076, [7948, 921]),
   (8077, [7949, 921]), (8078, [7950, 921]), (8079, [7951, 921]), (8080, [7976, 921]),
   (8081, [7977, 921]), (8082, [7978, 921]), (8083, [7979, 921]), (8084, [7980, 921]),
   (8085, [7981, 921]), (8086, [7982, 921]), (8087, [7983, 921]), (8088, [7976, 921]),
   (8089, [7977, 921]), (8090, [7978, 921]), (8091, [7979, 921]), (8092, [7980, 921]),
   (8093, [7981, 921]), (8094, [7982, 921]), (8095, [7983, 921]), (8096, [8040, 921]),
   (8097, [8041, 921]), (8098, [8042, 921]), (8099, [8043, 921]), (8100, [8044, 921]),
   (8101, [8045, 921]), (8102, [8046, 921]), (8103, [8047, 921]), (8104, [8040, 921]),
   (8105, [8041, 921]), (8106, [8042, 921]), (8107, [8043, 921]), (8108, [8044, 921]),
   (8109, [8045, 921]), (8110, [8046, 921]), (8111, [8047, 921]), (8114, [8122, 921]),
   (8115, [913, 921]), (8116, [902, 921]), (8118, [913, 834]), (8119, [913, 834, 921]),
   (8124, [913, 921]), (8130, [8138, 921]), (8131, [919, 921]), (8132, [905, 921]),
   (8134, [919, 834]), (8135, [919, 834, 921]), (8140, [919, 921]), (8146, [921, 776, 768]),
   (8147, [921, 776, 769]), (8150, [921, 834]), (8151, [921, 776, 834]), (8162, [933, 776, 768]),
   (8163, [933, 776, 769]), (8164, [929, 787]), (8166, [933, 834]), (8167, [933, 776, 834]),
   (8178, [8186, 921]), (8179, [937, 921]), (8180, [911, 921]), (8182, [937, 834]),
   (8183, [937, 834, 921]), (8188, [937, 921]), (64256, [70, 70]), (64257, [70, 73]),
   (64258, [70, 76]), (64259, [70, 70, 73]), (64260, [70, 70, 76]), (64261, [83, 84]),
   (64262, [83, 84]), (64275, [1348, 1350]), (64276, [1348, 1333]), (64277, [1348, 1339]),
   (64278, [1358, 1350]), (64279, [1348, 1341])]

/-- The code points of the upper case of a code point. -/
def upper_codes (n : ℕ) : List ℕ :=
  if n < 128 then [if 97 ≤ n ∧ n ≤ 122 then n - 32 else n]
  else
    match special_upper.find? (fun entry => entry.1 == n) with
    | some entry => entry.2
    | none =>
        match case_runs.find? (fun run => run.covers n) with
        | some run => [run.upper + (n - run.first)]
        | none => [n]

/-- The upper case of a character. -/
def upper_char (c : Char) : List Char := (upper_codes c.toNat).map Char.ofNat

/-- The blanks of `str.isspace()`, as code points. -/
def blank_codes : List ℕ :=
  [9, 10, 11, 12, 13, 28, 29, 30, 31, 32, 133, 160, 5760, 8192, 8193, 8194, 8195, 8196, 8197, 8198,
   8199, 8200, 8201, 8202, 8232, 8233, 8239, 8287, 12288]

/-- `isspace()`, of one character. -/
def is_space (c : Char) : Bool := blank_codes.contains c.toNat

/-! ### What is to be seen in the table -/

/-- Neither the table nor ASCII has another upper case for it. -/
def is_upper (n : ℕ) : Bool :=
  if n < 128 then !(97 ≤ n && n ≤ 122)
  else special_upper.all (fun entry => entry.1 != n) && case_runs.all (fun run => !run.covers n)

/-- The upper case of `run` has nothing between two code points. -/
def CaseRun.misses (run : CaseRun) (low high : ℕ) : Bool :=
  Nat.blt run.last_upper low || Nat.blt high run.upper

/-- The upper case of `run` has nothing that `other` covers: it lies elsewhere,
    or upper and lower case take turns. -/
def CaseRun.apart (run other : CaseRun) : Bool :=
  run.misses other.first other.last ||
    ((run.first == run.last || run.step == 2) && other.step == 2 &&
      run.upper % 2 != other.first % 2)

theorem case_runs_apart : case_runs.all (fun run => case_runs.all run.apart) = true := by
  decide +kernel

theorem case_runs_miss :
    case_runs.all (fun run => run.misses 97 122 && run.misses 0xd800 0xdfff &&
      run.last_upper < 0x110000 && special_upper.all (fun entry => run.misses entry.1 entry.1) &&
      blank_codes.all (fun blank => run.misses blank blank)) = true := by
  decide +kernel

theorem special_upper_checked :
    special_upper.all (fun entry => !entry.2.isEmpty && entry.2.all (fun m =>
      is_upper m && m.isValidChar && !blank_codes.contains m)) = true := by
  decide +kernel

theorem blank_codes_checked : blank_codes.all is_upper = true := by
  decide +kernel

/-! ### The upper case of a code point -/

theorem upper_codes_of_is_upper {n : ℕ} (h : is_upper n = true) : upper_codes n = [n] := by
  unfold is_upper at h
  unfold upper_codes
  by_cases hascii : n < 128
  · rw [if_pos hascii] at h ⊢
    rw [if_neg (by simp at h; omega)]
  · rw [if_neg hascii] at h ⊢
    simp only [Bool.and_eq_true, List.all_eq_true] at h
    have hspecial : special_upper.find? (fun entry => entry.1 == n) = none :=
      List.find?_eq_none.mpr (fun entry hentry => by simpa using h.1 entry hentry)
    have hruns : case_runs.find? (fun run => run.covers n) = none :=
      List.find?_eq_none.mpr (fun run hrun => by simpa using h.2 run hrun)
    rw [hspecial, hruns]

theorem CaseRun.upper_of_misses {run : CaseRun} {n low high : ℕ} (h : run.misses low high = true)
    (hn : run.covers n = true) :
    run.upper + (n - run.first) < low ∨ high < run.upper + (n - run.first) := by
  unfold CaseRun.misses CaseRun.last_upper at h
  unfold CaseRun.covers at hn
  simp only [Bool.or_eq_true, Bool.and_eq_true, Nat.ble_eq, Nat.blt_eq, beq_iff_eq] at h hn
  omega

theorem CaseRun.not_covers_of_apart {run other : CaseRun} {n : ℕ} (h : run.apart other = true)
    (hn : run.covers n = true) : other.covers (run.upper + (n - run.first)) = false := by
  by_contra hcovers
  rw [Bool.not_eq_false] at hcovers
  unfold CaseRun.apart at h
  rw [Bool.or_eq_true] at h
  rcases h with hmisses | hturns
  · have helsewhere := CaseRun.upper_of_misses hmisses hn
    unfold CaseRun.covers at hcovers
    simp only [Bool.and_eq_true, Nat.ble_eq] at hcovers
    omega
  · unfold CaseRun.covers at hn hcovers
    simp only [Bool.or_eq_true, Bool.and_eq_true, Nat.ble_eq, beq_iff_eq,
      bne_iff_ne] at hturns hn hcovers
    obtain ⟨⟨hstep, hother⟩, hparity⟩ := hturns
    rw [hother] at hcovers
    rcases hstep with hpoint | hstep
    · omega
    · rw [hstep] at hn
      omega

/-- What a run makes of a code point is a character, its own upper case, and no
    blank. -/
theorem CaseRun.upper_checked {run : CaseRun} {n : ℕ} (hmem : run ∈ case_runs)
    (hcovers : run.covers n = true) :
    is_upper (run.upper + (n - run.first)) = true ∧ (run.upper + (n - run.first)).isValidChar ∧
      run.upper + (n - run.first) ∉ blank_codes := by
  have hmiss := List.all_eq_true.mp case_runs_miss run hmem
  have hapart := List.all_eq_true.mp case_runs_apart run hmem
  simp only [Bool.and_eq_true, decide_eq_true_eq, List.all_eq_true] at hmiss hapart
  obtain ⟨⟨⟨⟨hlower, hsurrogate⟩, hmax⟩, hentries⟩, hblanks⟩ := hmiss
  have hlower := CaseRun.upper_of_misses hlower hcovers
  have hsurrogate := CaseRun.upper_of_misses hsurrogate hcovers
  refine ⟨?_, ?_, ?_⟩
  · unfold is_upper
    split
    · simp
      omega
    · simp only [Bool.and_eq_true, List.all_eq_true]
      refine ⟨?_, ?_⟩
      · intro entry hentry
        have helsewhere := CaseRun.upper_of_misses (hentries entry hentry) hcovers
        simp
        omega
      · intro other hother
        rw [CaseRun.not_covers_of_apart (hapart other hother) hcovers]
        rfl
  · -- below the last code point, and on one side of the surrogates
    unfold CaseRun.covers at hcovers
    unfold CaseRun.last_upper at hmax
    simp only [Bool.and_eq_true, Nat.ble_eq] at hcovers
    unfold Nat.isValidChar
    omega
  · intro hblank
    have helsewhere := CaseRun.upper_of_misses (hblanks _ hblank) hcovers
    omega

/-- The code points of an upper case. Beyond ASCII they are those of an entry. -/
theorem upper_codes_cases (n : ℕ) :
    upper_codes n = [n] ∨ (∃ m, upper_codes n = [m] ∧ 65 ≤ m ∧ m ≤ 90) ∨
      (∃ entry ∈ special_upper, upper_codes n = entry.2) ∨
      ∃ run ∈ case_runs, run.covers n = true ∧
        upper_codes n = [run.upper + (n - run.first)] := by
  unfold upper_codes
  by_cases hascii : n < 128
  · rw [if_pos hascii]
    by_cases hlower : 97 ≤ n ∧ n ≤ 122
    · rw [if_pos hlower]
      exact .inr (.inl ⟨n - 32, rfl, by omega, by omega⟩)
    · rw [if_neg hlower]
      exact .inl rfl
  · rw [if_neg hascii]
    cases hspecial : special_upper.find? (fun entry => entry.1 == n) with
    | some entry =>
      exact .inr (.inr (.inl ⟨entry, List.mem_of_find?_eq_some hspecial, rfl⟩))
    | none =>
      cases hrun : case_runs.find? (fun run => run.covers n) with
      | some run =>
        exact .inr (.inr (.inr ⟨run, List.mem_of_find?_eq_some hrun,
          List.find?_some (p := fun run : CaseRun => run.covers n) hrun, rfl⟩))
      | none => exact .inl rfl

theorem upper_codes_ne_nil (n : ℕ) : upper_codes n ≠ [] := by
  rcases upper_codes_cases n with hsame | ⟨m, hascii, -⟩ | ⟨entry, hentry, hspecial⟩ |
    ⟨run, -, -, hrun⟩
  · simp [hsame]
  · simp [hascii]
  · have hchecked := List.all_eq_true.mp special_upper_checked entry hentry
    rw [hspecial]
    simp only [Bool.and_eq_true, Bool.not_eq_true', List.isEmpty_eq_false_iff] at hchecked
    exact hchecked.1
  · simp [hrun]

/-- The upper case of a code point that has another is of characters, its own
    upper case, and has no blank. -/
theorem upper_codes_checked {n m : ℕ} (h : m ∈ upper_codes n) :
    upper_codes n = [n] ∧ m = n ∨ is_upper m = true ∧ m.isValidChar ∧ m ∉ blank_codes := by
  rcases upper_codes_cases n with hsame | ⟨k, hascii, hlow, hhigh⟩ | ⟨entry, hentry, hspecial⟩ |
    ⟨run, hmem, hcovers, hrun⟩
  · rw [hsame] at h
    exact .inl ⟨hsame, List.mem_singleton.mp h⟩
  · rw [hascii] at h
    obtain rfl := List.mem_singleton.mp h
    -- a letter from A to Z
    refine .inr ⟨?_, .inl (by omega), ?_⟩
    · unfold is_upper
      rw [if_pos (by omega)]
      simp
      omega
    · simp [blank_codes]
      omega
  · rw [hspecial] at h
    have hchecked := List.all_eq_true.mp special_upper_checked entry hentry
    rw [Bool.and_eq_true] at hchecked
    have hm := List.all_eq_true.mp hchecked.2 m h
    simp only [Bool.and_eq_true, Bool.not_eq_true', decide_eq_true_eq, List.contains_eq_mem,
      decide_eq_false_iff_not] at hm
    exact .inr ⟨hm.1.1, hm.1.2, hm.2⟩
  · rw [hrun] at h
    obtain rfl := List.mem_singleton.mp h
    exact .inr (CaseRun.upper_checked hmem hcovers)

/-! ### The upper case of a character -/

theorem toNat_ofNat {n : ℕ} (h : n.isValidChar) : (Char.ofNat n).toNat = n := by
  unfold Char.ofNat
  rw [dif_pos h]
  rfl

theorem upper_char_ne_nil (c : Char) : upper_char c ≠ [] := by
  simp [upper_char, upper_codes_ne_nil]

/-- Upper case is its own upper case. -/
theorem upper_char_of_mem {c d : Char} (h : d ∈ upper_char c) : upper_char d = [d] := by
  obtain ⟨m, hm, rfl⟩ := List.mem_map.mp h
  rcases upper_codes_checked hm with ⟨hsame, rfl⟩ | ⟨hupper, hvalid, -⟩
  · simp [upper_char, hsame]
  · simp [upper_char, toNat_ofNat hvalid, upper_codes_of_is_upper hupper]

theorem upper_char_of_is_space {c : Char} (h : is_space c = true) : upper_char c = [c] := by
  have hupper := List.all_eq_true.mp blank_codes_checked c.toNat (by simpa [is_space] using h)
  simp [upper_char, upper_codes_of_is_upper hupper]

theorem not_is_space_of_mem {c d : Char} (hc : is_space c = false) (h : d ∈ upper_char c) :
    is_space d = false := by
  obtain ⟨m, hm, rfl⟩ := List.mem_map.mp h
  rcases upper_codes_checked hm with ⟨-, rfl⟩ | ⟨-, hvalid, hblank⟩
  · rwa [Char.ofNat_toNat]
  · simpa [is_space, toNat_ofNat hvalid] using hblank

end Text
