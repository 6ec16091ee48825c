import BacktestVisualizer.Framework.PyFloat
import BacktestVisualizer.Framework.Storage
import BacktestVisualizer.Framework.Text

/-! # The Controls of a Run

  `services/run_controls.py` takes the execution controls out of what a form
  sends, `submit_backtest_run` of `services/backtests.py` stores them beside
  the strategy's own parameters, and `_build_request` of `workers/run_job.py`
  strips them again before the engine runs. What reaches the engine of the
  controls is the overlay of universe, weights and bar size.
-/

namespace RunControls

/-! ### Values -/

/-- The values of JSON, as Python holds them. -/
inductive Value where
  | null
  | bool (b : Bool)
  | int (n : ℤ)
  | float (x : PyFloat)
  | str (s : String)
  | list (items : List Value)
  | dict (pairs : List (String × Value))

/-- A dictionary of such values. -/
abbrev Params := Keyed String Value

/-- `bool(value)`. -/
def Value.truthy : Value → Bool
  | .null => false
  | .bool b => b
  | .int n => n ≠ 0
  | .float x => x ≠ .fin 0
  | .str s => s ≠ ""
  | .list items => ¬ items.isEmpty
  | .dict pairs => ¬ pairs.isEmpty

/-- `value.get(key)` of a dictionary. -/
def item (pairs : List (String × Value)) (key : String) : Option Value :=
  (pairs.find? (fun pair => pair.1 = key)).map Prod.snd

/-- The integers `float` has no room for. -/
def overflows (n : ℤ) : Bool := (2 : ℤ) ^ 1024 - 2 ^ 970 ≤ |n|

/-- Those it rounds: more than 53 binary digits, not counting zeros at the
    end. -/
def rounds (n : ℤ) : Bool := n.natAbs % 2 ^ (n.natAbs.log2 - 52) ≠ 0

example : rounds (2 ^ 53) = false ∧ rounds (2 ^ 53 + 1) = true ∧ rounds (2 ^ 53 + 2) = false := by
  decide

/-! ### Errors -/

/-- What `split_controls` raises: a `ValueError`, or `overflow` for an integer
    that is no float. -/
inductive ControlError where
  | universe_size
  | universe_not_text
  | universe_symbol
  | universe_twice
  | amount (key : String) (maximum : ℕ)
  | commission_mode
  | bar_size (value : Value)
  | intraday_mode
  | signals
  | weights_shape
  | weights_twice (ticker : String)
  | weights_value (ticker : String)
  | weights_names (missing extra : List String)
  | weights_zero
  | weights_total (total : ℚ)
  | gate_shape
  | gate_threshold
  | gate_mode
  | gate_database
  | overflow

/-- `str(exc)`; `repr` and `general` write values and numbers. -/
def ControlError.message (repr : Value → String) (general : ℚ → String) : ControlError → String
  | .universe_size => "universe must contain between 1 and 50 ticker symbols."
  | .universe_not_text => "Every universe ticker must be a string."
  | .universe_symbol => "universe contains an invalid ticker symbol."
  | .universe_twice => "universe must not contain duplicate tickers."
  | .amount key maximum => key ++ " must be a finite number from 0 to " ++ toString maximum ++ "."
  | .commission_mode =>
      "Per-share commission requires event mode; use event mode or set commission to zero."
  | .bar_size value =>
      "Bar interval must be one of 60, 300, 900, 1800, 3600, 86400 seconds; got " ++ repr value ++ "."
  | .intraday_mode =>
      "Intraday bars require event mode; use event mode or a 1-day bar interval."
  | .signals =>
      "Signal overrides are not supported. Indicators are defined by the strategy code."
  | .weights_shape => "weights must be an object mapping each ticker to a fraction."
  | .weights_twice ticker => "weights names " ++ ticker ++ " more than once."
  | .weights_value ticker => "weights for " ++ ticker ++ " must be a finite number of 0 or more."
  | .weights_names missing extra =>
      let parts := [if missing = [] then "" else "missing " ++ ", ".intercalate missing,
        if extra = [] then "" else "not in the universe: " ++ ", ".intercalate extra]
      "weights must name every universe ticker exactly (" ++
        "; ".intercalate (parts.filter (fun part => part ≠ "")) ++ ")."
  | .weights_zero => "weights must allocate something; every weight is 0."
  | .weights_total total =>
      "weights add up to " ++ general total ++ "; they must add up to 1 or less."
  | .gate_shape => "sentimentGate must be an object with a boolean 'enabled'."
  | .gate_threshold => "sentimentGate threshold must be a number from -1 to 0."
  | .gate_mode => "The sentiment gate requires event mode."
  | .gate_database =>
      "The sentiment gate needs the live news database, which this server has not been configured to reach."
  | .overflow => "int too large to convert to float"

/-- The number of a value that is an `int` or a `float` but no `bool`, and
    finite. -/
def finite_number : Value → Except ControlError (Option ℚ)
  | .int n => if overflows n then .error .overflow else .ok (some n)
  | .float (.fin q) => .ok (some q)
  | _ => .ok none

/-! ### `split_controls` -/

/-- `CONTROL_KEYS`. -/
def control_keys : List String :=
  ["universe", "slippageBps", "commissionPerShare", "signals", "sentimentGate",
    "barIntervalSeconds", "weights"]

/-- What the engine reads of the controls. -/
def overlay_keys : List String := ["TICKERS", "WEIGHTS", "BAR_INTERVAL_SECONDS", "INTERVAL"]

/-- `settings.news_database_configured`. -/
structure Settings where
  news_database_configured : Bool

/-- The characters `[A-Z0-9^]` and `[A-Z0-9.^=-]`. -/
def symbol_start (c : Char) : Bool := c.isUpper || c.isDigit || c == '^'

def symbol_rest (c : Char) : Bool := symbol_start c || c == '.' || c == '=' || c == '-'

/-- `re.fullmatch(r"[A-Z0-9^][A-Z0-9.^=-]{0,19}", ticker)`. -/
def valid_symbol (ticker : String) : Bool :=
  match ticker.toList with
  | [] => false
  | c :: rest => symbol_start c && rest.length ≤ 19 && rest.all symbol_rest

/-- A list of tickers as a value. -/
def tickers_value (tickers : List String) : Value := .list (tickers.map .str)

/-- A dictionary of weights as a value. -/
def weights_value (weights : List (String × ℚ)) : Value :=
  .dict (weights.map (fun entry => (entry.1, .float (.fin entry.2))))

/-- `_WEIGHT_SUM_TOLERANCE`. -/
def weight_sum_tolerance : ℚ := 1 / 1000000

section

/- `text.strip().upper()`; its Unicode tables play no part. -/
variable (normalise : String → String)

/-- The strings of a list, when all are. -/
def texts (items : List Value) : Option (List String) :=
  items.mapM (fun item =>
    match item with
    | .str s => some s
    | _ => none)

/-- The universe a run names. -/
def named_universe (value : Value) : Except ControlError (List String) :=
  match value with
  | .list items =>
      if 1 ≤ items.length ∧ items.length ≤ 50 then
        match texts items with
        | none => .error .universe_not_text
        | some tickers =>
            let selected := tickers.map normalise
            if ¬ selected.all valid_symbol then .error .universe_symbol
            else if ¬ selected.Nodup then .error .universe_twice
            else .ok selected
      else .error .universe_size
  | _ => .error .universe_size

/-- The branch of `universe`: the controls and the universe after it. -/
def universe_controls (raw : Params) (default_universe : List String) :
    Except ControlError (Params × List String) :=
  match raw.get "universe" with
  | none => .ok (∅, default_universe)
  | some value => do
      let selected ← named_universe normalise value
      let controls := (∅ : Params).insert "universe" (tickers_value selected)
      -- `set(universe) != set(default_universe)`
      if selected ⊆ default_universe ∧ default_universe ⊆ selected then .ok (controls, selected)
      else
        .ok ((controls.insert "TICKERS" (tickers_value selected)).insert "WEIGHTS"
          (weights_value (selected.map (fun ticker => (ticker, 1 / (selected.length : ℚ))))),
          selected)

/-- The loop of `_validated_weights`: the weights read so far and an item. -/
def read_weight (weights : List (String × ℚ)) (pair : String × Value) :
    Except ControlError (List (String × ℚ)) := do
  let ticker := normalise pair.1
  if ticker ∈ weights.map Prod.fst then .error (.weights_twice ticker)
  else
    match ← finite_number pair.2 with
    | none => .error (.weights_value ticker)
    | some value =>
        if value < 0 then .error (.weights_value ticker)
        else .ok (weights ++ [(ticker, value)])

/-- `weights[ticker]`. -/
def weight_of (weights : List (String × ℚ)) (ticker : String) : ℚ :=
  ((weights.find? (fun entry => entry.1 = ticker)).map Prod.snd).getD 0

/-- `sorted(set(a) - set(b))`. -/
def sorted_difference (a b : List String) : List String :=
  ((a.filter (fun s => s ∉ b)).dedup).mergeSort (fun s t => s ≤ t)

/-- `_validated_weights`. -/
def validated_weights (raw : Value) (selected : List String) :
    Except ControlError (List (String × ℚ)) :=
  match raw with
  | .dict pairs => do
      let weights ← pairs.foldlM (read_weight normalise) []
      let names := weights.map Prod.fst
      if names ⊆ selected ∧ selected ⊆ names then
        let total := (weights.map Prod.snd).sum
        if total ≤ 0 then .error .weights_zero
        else if total > 1 + weight_sum_tolerance then .error (.weights_total total)
        else .ok (selected.map (fun ticker => (ticker, weight_of weights ticker)))
      else .error (.weights_names (sorted_difference selected names)
        (sorted_difference names selected))
  | _ => .error .weights_shape

/-- The branch of `weights`. -/
def weights_controls (raw : Params) (selected : List String) (controls : Params) :
    Except ControlError Params :=
  match raw.get "weights" with
  | none => .ok controls
  | some value => do
      let weights ← validated_weights normalise value selected
      .ok (((controls.insert "weights" (weights_value weights)).insert "TICKERS"
        (tickers_value selected)).insert "WEIGHTS" (weights_value weights))

end

/-- A turn of the loop over `slippageBps` and `commissionPerShare`. -/
def amount_control (raw controls : Params) (amount : String × ℕ) : Except ControlError Params :=
  match raw.get amount.1 with
  | none => .ok controls
  | some value => do
      match ← finite_number value with
      | none => .error (.amount amount.1 amount.2)
      | some x =>
          if 0 ≤ x ∧ x ≤ amount.2 then .ok (controls.insert amount.1 (.float (.fin x)))
          else .error (.amount amount.1 amount.2)

def amounts : List (String × ℕ) := [("slippageBps", 1000), ("commissionPerShare", 100)]

/-- `controls.get("commissionPerShare", 0) != 0`. -/
def charges_commission (controls : Params) : Bool :=
  match controls.get "commissionPerShare" with
  | some value => value.truthy
  | none => false

/-- `BAR_SECONDS_CHOICES`. -/
def bar_seconds_choices : List ℤ := [60, 300, 900, 1800, 3600, 86400]

/-- `SESSION_MINUTES`. -/
def session_minutes : ℤ := 390

/-- `int(value)` of a value that is one of the choices; a float may be equal
    to one. -/
def bar_seconds (value : Value) : Option ℤ :=
  match value with
  | .int n => if n ∈ bar_seconds_choices then some n else none
  | .float (.fin q) => bar_seconds_choices.find? (fun n => (n : ℚ) = q)
  | _ => none

/-- `_bar_interval_controls`. -/
def bar_interval_controls (value : Value) (mode : String) :
    Except ControlError (List (String × ℤ)) :=
  match bar_seconds value with
  | none => .error (.bar_size value)
  | some seconds =>
      if seconds / 60 < session_minutes then
        if mode = "fast" then .error .intraday_mode
        else .ok [("barIntervalSeconds", seconds), ("BAR_INTERVAL_SECONDS", seconds),
          ("INTERVAL", 0)]
      else .ok [("barIntervalSeconds", seconds)]

/-- `controls.update(...)` of whole numbers. -/
def update (controls : Params) (entries : List (String × ℤ)) : Params :=
  entries.foldl (fun controls entry => controls.insert entry.1 (.int entry.2)) controls

/-- The branch of `barIntervalSeconds`. -/
def bar_controls (raw : Params) (mode : String) (controls : Params) :
    Except ControlError Params :=
  match raw.get "barIntervalSeconds" with
  | none => .ok controls
  | some value => do
      let entries ← bar_interval_controls value mode
      .ok (update controls entries)

/-- `_validated_sentiment_gate`. -/
def validated_sentiment_gate (settings : Settings) (raw : Value) (mode : String) :
    Except ControlError (Option Value) :=
  match raw with
  | .dict pairs =>
      match item pairs "enabled" with
      | some (.bool false) => .ok none
      | some (.bool true) => do
          match ← finite_number ((item pairs "threshold").getD .null) with
          | none => .error .gate_threshold
          | some threshold =>
              if ¬ (-1 ≤ threshold ∧ threshold ≤ 0) then .error .gate_threshold
              else if mode = "fast" then .error .gate_mode
              else if ¬ settings.news_database_configured then .error .gate_database
              else .ok (some (.dict [("enabled", .bool true), ("threshold", .float (.fin threshold))]))
      | _ => .error .gate_shape
  | _ => .error .gate_shape

/-- The branch of `sentimentGate`. -/
def gate_controls (settings : Settings) (raw : Params) (mode : String) (controls : Params) :
    Except ControlError Params :=
  match raw.get "sentimentGate" with
  | none => .ok controls
  | some value => do
      match ← validated_sentiment_gate settings value mode with
      | none => .ok controls
      | some gate => .ok (controls.insert "sentimentGate" gate)

/-- `raw["signals"] != []`. -/
def overrides_signals (raw : Params) : Bool :=
  match raw.get "signals" with
  | none => false
  | some (.list []) => false
  | some _ => true

/-- `split_controls`. -/
def split_controls (normalise : String → String) (settings : Settings) (raw : Params)
    (default_universe : List String) (mode : String) :
    Except ControlError (Params × Params × List String) := do
  let params := Keyed.erase_all raw control_keys
  let (controls, selected) ← universe_controls normalise raw default_universe
  let controls ← weights_controls normalise raw selected controls
  let controls ← amounts.foldlM (amount_control raw) controls
  if mode = "fast" ∧ charges_commission controls then .error .commission_mode
  else do
    let controls ← bar_controls raw mode controls
    if overrides_signals raw then .error .signals
    else do
      let controls ← gate_controls settings raw mode controls
      .ok (params, controls, selected)

/-! ### The weights of a run -/

/-- The allocation a run trades: every ticker of the universe has a weight,
    and together they are at most the capital. -/
structure Allocation (selected : List String) (weights : List (String × ℚ)) : Prop where
  named : weights.map Prod.fst = selected
  distinct : selected.Nodup
  nonneg : ∀ entry ∈ weights, 0 ≤ entry.2
  within : (weights.map Prod.snd).sum ≤ 1 + weight_sum_tolerance

variable {normalise : String → String} {settings : Settings} {raw controls controls' : Params}
  {default_universe selected : List String} {mode : String} {weights : List (String × ℚ)}

/-- The equal weights of a changed universe. -/
theorem equal_weights (hdistinct : selected.Nodup) (hne : selected ≠ []) :
    Allocation selected
      (selected.map (fun ticker => (ticker, 1 / (selected.length : ℚ)))) where
  named := by
    rw [List.map_map]
    exact List.map_id _
  distinct := hdistinct
  nonneg := by
    intro entry hentry
    obtain ⟨ticker, _, rfl⟩ := List.mem_map.mp hentry
    positivity
  within := by
    have hlen : (selected.length : ℚ) ≠ 0 :=
      Nat.cast_ne_zero.mpr (fun h => hne (List.length_eq_zero_iff.mp h))
    have hsum : (((selected.map (fun ticker => (ticker, 1 / (selected.length : ℚ)))).map
        Prod.snd).sum) = 1 := by
      rw [List.map_map]
      show (selected.map (fun _ => 1 / (selected.length : ℚ))).sum = 1
      rw [List.map_const', List.sum_replicate, nsmul_eq_mul]
      exact mul_one_div_cancel hlen
    rw [hsum]
    unfold weight_sum_tolerance
    norm_num

/-- What the loop of `_validated_weights` has read. -/
def Read (weights : List (String × ℚ)) : Prop :=
  (weights.map Prod.fst).Nodup ∧ ∀ entry ∈ weights, 0 ≤ entry.2

theorem read_weight_ok {weights' : List (String × ℚ)} {pair : String × Value}
    (h : read_weight normalise weights pair = .ok weights') (hread : Read weights) :
    Read weights' := by
  unfold read_weight at h
  simp only at h
  split at h
  · exact absurd h (by simp)
  · rename_i hnew
    obtain ⟨number, _, hrest⟩ := Fallible.bind_ok h
    cases number with
    | none => exact absurd hrest (by simp)
    | some value =>
      simp only at hrest
      split at hrest
      · exact absurd hrest (by simp)
      · rename_i hneg
        obtain rfl := Except.ok.inj hrest
        constructor
        · rw [List.map_append]
          apply List.nodup_append.mpr
          refine ⟨hread.1, by simp, ?_⟩
          intro a ha b hb heq
          rw [List.map_singleton, List.mem_singleton] at hb
          rw [heq, hb] at ha
          exact hnew ha
        · intro entry hentry
          rcases List.mem_append.mp hentry with hold | hlast
          · exact hread.2 entry hold
          · rw [List.mem_singleton.mp hlast]
            exact not_lt.mp hneg

theorem weight_of_mem (hread : Read weights) {entry : String × ℚ} (h : entry ∈ weights) :
    weight_of weights entry.1 = entry.2 := by
  unfold weight_of
  cases hfind : weights.find? (fun e => e.1 = entry.1) with
  | none => exact absurd (List.find?_eq_none.mp hfind entry h) (by simp)
  | some found =>
    have hkey : found.1 = entry.1 := by simpa using List.find?_some hfind
    have hsame := List.inj_on_of_nodup_map hread.1 (List.mem_of_find?_eq_some hfind) h hkey
    rw [hsame]
    rfl

/-- The weights in the order of the universe are the weights that were read. -/
theorem sum_weight_of (hread : Read weights) (hperm : selected.Perm (weights.map Prod.fst)) :
    (selected.map (weight_of weights)).sum = (weights.map Prod.snd).sum := by
  rw [(hperm.map (weight_of weights)).sum_eq, List.map_map]
  congr 1
  apply List.map_congr_left
  intro entry hentry
  exact weight_of_mem hread hentry

theorem perm_of_subset (hselected : selected.Nodup) {names : List String} (hnames : names.Nodup)
    (h : names ⊆ selected ∧ selected ⊆ names) : selected.Perm names :=
  (List.perm_ext_iff_of_nodup hselected hnames).mpr (fun _ => ⟨fun h' => h.2 h', fun h' => h.1 h'⟩)

theorem validated_weights_ok {value : Value} (hselected : selected.Nodup)
    (h : validated_weights normalise value selected = .ok weights) :
    Allocation selected weights := by
  unfold validated_weights at h
  split at h
  · rename_i pairs
    obtain ⟨read, hloop, hrest⟩ := Fallible.bind_ok h
    have hread : Read read := by
      apply Fallible.foldlM_preserves (P := Read) _ hloop
      · exact ⟨List.nodup_nil, by simp⟩
      · intro _ _ _ _ hstep hold
        exact read_weight_ok hstep hold
    simp only at hrest
    split at hrest
    · rename_i hnames
      split at hrest
      · exact absurd hrest (by simp)
      · split at hrest
        · exact absurd hrest (by simp)
        · rename_i htotal
          obtain rfl := Except.ok.inj hrest
          have hperm := perm_of_subset hselected hread.1 hnames
          refine ⟨?_, hselected, ?_, ?_⟩
          · rw [List.map_map]
            exact List.map_id _
          · intro entry hentry
            obtain ⟨ticker, hticker, rfl⟩ := List.mem_map.mp hentry
            obtain ⟨old, hold, rfl⟩ := List.mem_map.mp (hperm.subset hticker)
            show 0 ≤ weight_of read old.1
            rw [weight_of_mem hread hold]
            exact hread.2 old hold
          · rw [List.map_map]
            show (selected.map (weight_of read)).sum ≤ _
            rw [sum_weight_of hread hperm]
            exact not_lt.mp htotal
    · exact absurd hrest (by simp)
  · exact absurd h (by simp)

/-! ### What the controls say of the universe -/

/-- Either nothing is overlaid and the tickers are the strategy's own, or the
    overlay names the tickers and allocates to them. -/
inductive Consistent (default_universe selected : List String) (controls : Params) : Prop where
  | untouched (htickers : controls.get "TICKERS" = none) (hweights : controls.get "WEIGHTS" = none)
      (hsame : selected.Perm default_universe)
  | overlaid (weights : List (String × ℚ))
      (htickers : controls.get "TICKERS" = some (tickers_value selected))
      (hweights : controls.get "WEIGHTS" = some (weights_value weights))
      (halloc : Allocation selected weights)

/-- The controls that are stored; `signals` never is. -/
def recorded_keys : List String :=
  ["universe", "slippageBps", "commissionPerShare", "sentimentGate", "barIntervalSeconds",
    "weights"]

/-- The controls are stored controls, or what the engine reads of them. -/
def Known (controls : Params) : Prop :=
  ∀ key, controls.get key ≠ none → key ∈ recorded_keys ∨ key ∈ overlay_keys

/-- What holds of the controls after each branch. -/
structure Sound (default_universe selected : List String) (controls : Params) : Prop where
  consistent : Consistent default_universe selected controls
  known : Known controls

theorem known_empty : Known ∅ := fun _ h => absurd rfl h

theorem Known.insert (h : Known controls) {key : String} (value : Value)
    (hkey : key ∈ recorded_keys ∨ key ∈ overlay_keys) : Known (controls.insert key value) := by
  intro other hother
  rw [Keyed.get_insert] at hother
  by_cases heq : other = key
  · rw [heq]
    exact hkey
  · rw [if_neg heq] at hother
    exact h other hother

/-- A control beside the allocation. -/
theorem Sound.insert (h : Sound default_universe selected controls) {k : String} (value : Value)
    (hkey : k ∈ recorded_keys ∨ k ∈ ["BAR_INTERVAL_SECONDS", "INTERVAL"]) :
    Sound default_universe selected (controls.insert k value) := by
  have htickers : Keyed.get (controls.insert k value) "TICKERS" = controls.get "TICKERS" := by
    rw [Keyed.get_insert, if_neg]
    intro heq
    rw [← heq] at hkey
    exact absurd hkey (by decide)
  have hweights : Keyed.get (controls.insert k value) "WEIGHTS" = controls.get "WEIGHTS" := by
    rw [Keyed.get_insert, if_neg]
    intro heq
    rw [← heq] at hkey
    exact absurd hkey (by decide)
  constructor
  · cases h.consistent with
    | untouched ht hw hsame => exact .untouched (htickers.trans ht) (hweights.trans hw) hsame
    | overlaid weights ht hw halloc =>
      exact .overlaid weights (htickers.trans ht) (hweights.trans hw) halloc
  · apply h.known.insert
    rcases hkey with hcontrol | hbar
    · exact .inl hcontrol
    · right
      revert hbar
      unfold overlay_keys
      simp only [List.mem_cons, List.not_mem_nil, or_false]
      exact fun hbar => .inr (.inr hbar)

/-! ### Branch by branch -/

theorem named_universe_ok {value : Value} (h : named_universe normalise value = .ok selected) :
    selected.Nodup ∧ selected ≠ [] := by
  unfold named_universe at h
  split at h
  · rename_i items
    split at h
    · rename_i hlen
      split at h
      · exact absurd h (by simp)
      · rename_i tickers htexts
        simp only at h
        split at h
        · exact absurd h (by simp)
        · split at h
          · exact absurd h (by simp)
          · rename_i hdistinct
            obtain rfl := Except.ok.inj h
            refine ⟨not_not.mp hdistinct, ?_⟩
            intro hempty
            obtain rfl := List.map_eq_nil_iff.mp hempty
            cases items with
            | nil => exact absurd hlen.1 (by simp)
            | cons head rest =>
              unfold texts at htexts
              rw [List.mapM_cons] at htexts
              obtain ⟨_, _, hcons⟩ := Option.bind_eq_some_iff.mp htexts
              obtain ⟨_, _, hpure⟩ := Option.bind_eq_some_iff.mp hcons
              exact absurd (Option.some.inj hpure) (by simp)
    · exact absurd h (by simp)
  · exact absurd h (by simp)

theorem universe_controls_ok (hdefault : default_universe.Nodup)
    (h : universe_controls normalise raw default_universe = .ok (controls, selected)) :
    Sound default_universe selected controls ∧ selected.Nodup := by
  unfold universe_controls at h
  split at h
  · obtain ⟨rfl, rfl⟩ := Prod.mk.inj (Except.ok.inj h)
    exact ⟨⟨.untouched rfl rfl (List.Perm.refl _), known_empty⟩, hdefault⟩
  · rename_i value _
    obtain ⟨tickers, hnamed, hrest⟩ := Fallible.bind_ok h
    obtain ⟨hdistinct, hne⟩ := named_universe_ok hnamed
    simp only at hrest
    have hknown : Known ((∅ : Params).insert "universe" (tickers_value tickers)) :=
      known_empty.insert _ (by decide)
    split at hrest
    · rename_i hsame
      obtain ⟨rfl, rfl⟩ := Prod.mk.inj (Except.ok.inj hrest)
      refine ⟨⟨.untouched ?_ ?_ ?_, hknown⟩, hdistinct⟩
      · rw [Keyed.get_insert]
        rfl
      · rw [Keyed.get_insert]
        rfl
      · exact perm_of_subset hdistinct hdefault hsame.symm
    · obtain ⟨rfl, rfl⟩ := Prod.mk.inj (Except.ok.inj hrest)
      refine ⟨⟨.overlaid _ ?_ ?_ (equal_weights hdistinct hne), ?_⟩, hdistinct⟩
      · rw [Keyed.get_insert, Keyed.get_insert]
        rfl
      · rw [Keyed.get_insert]
        rfl
      · exact (hknown.insert _ (by decide)).insert _ (by decide)

theorem weights_controls_ok (hselected : selected.Nodup)
    (hsound : Sound default_universe selected controls)
    (h : weights_controls normalise raw selected controls = .ok controls') :
    Sound default_universe selected controls' := by
  unfold weights_controls at h
  split at h
  · obtain rfl := Except.ok.inj h
    exact hsound
  · obtain ⟨weights, hvalid, hrest⟩ := Fallible.bind_ok h
    obtain rfl := Except.ok.inj hrest
    constructor
    · apply Consistent.overlaid weights _ _ (validated_weights_ok hselected hvalid)
      · rw [Keyed.get_insert, Keyed.get_insert]
        rfl
      · rw [Keyed.get_insert]
        rfl
    · exact ((hsound.known.insert _ (by decide)).insert _ (by decide)).insert _ (by decide)

theorem amount_control_ok {amount : String × ℕ} (hamount : amount ∈ amounts)
    (h : amount_control raw controls amount = .ok controls')
    (hsound : Sound default_universe selected controls) :
    Sound default_universe selected controls' := by
  have hamounts : ∀ amount ∈ amounts, amount.1 ∈ recorded_keys := by decide
  unfold amount_control at h
  split at h
  · obtain rfl := Except.ok.inj h
    exact hsound
  · obtain ⟨number, _, hrest⟩ := Fallible.bind_ok h
    cases number with
    | none => exact absurd hrest (by simp)
    | some x =>
      simp only at hrest
      split at hrest
      · obtain rfl := Except.ok.inj hrest
        exact hsound.insert _ (.inl (hamounts amount hamount))
      · exact absurd hrest (by simp)

theorem bar_controls_ok (hsound : Sound default_universe selected controls)
    (h : bar_controls raw mode controls = .ok controls') :
    Sound default_universe selected controls' := by
  unfold bar_controls at h
  split at h
  · obtain rfl := Except.ok.inj h
    exact hsound
  · obtain ⟨entries, hentries, hrest⟩ := Fallible.bind_ok h
    obtain rfl := Except.ok.inj hrest
    unfold bar_interval_controls at hentries
    split at hentries
    · exact absurd hentries (by simp)
    · rename_i seconds _
      split at hentries
      · split at hentries
        · exact absurd hentries (by simp)
        · obtain rfl := Except.ok.inj hentries
          have hbar := hsound.insert (k := "barIntervalSeconds") (.int seconds) (by decide)
          have hoverlay := hbar.insert (k := "BAR_INTERVAL_SECONDS") (.int seconds) (by decide)
          exact hoverlay.insert (k := "INTERVAL") (.int 0) (by decide)
      · obtain rfl := Except.ok.inj hentries
        exact hsound.insert (k := "barIntervalSeconds") (.int seconds) (by decide)

theorem gate_controls_ok (hsound : Sound default_universe selected controls)
    (h : gate_controls settings raw mode controls = .ok controls') :
    Sound default_universe selected controls' := by
  unfold gate_controls at h
  split at h
  · obtain rfl := Except.ok.inj h
    exact hsound
  · obtain ⟨gate, _, hrest⟩ := Fallible.bind_ok h
    cases gate with
    | none =>
      obtain rfl := Except.ok.inj hrest
      exact hsound
    | some gate =>
      obtain rfl := Except.ok.inj hrest
      exact hsound.insert _ (by decide)

/-! ### The whole of it -/

/-- The parameters left for the strategy are those that are no controls. -/
theorem get_params (key : String) :
    (Keyed.erase_all raw control_keys).get key =
      if key ∈ control_keys then none else raw.get key :=
  Keyed.get_erase_all raw control_keys key

theorem split_controls_ok {params : Params} (hdefault : default_universe.Nodup)
    (h : split_controls normalise settings raw default_universe mode =
      .ok (params, controls, selected)) :
    params = Keyed.erase_all raw control_keys ∧ Sound default_universe selected controls := by
  unfold split_controls at h
  obtain ⟨⟨controls₁, selected₁⟩, h₁, hrest₁⟩ := Fallible.bind_ok h
  obtain ⟨hsound₁, hselected⟩ := universe_controls_ok hdefault h₁
  obtain ⟨controls₂, h₂, hrest₂⟩ := Fallible.bind_ok hrest₁
  have hsound₂ := weights_controls_ok hselected hsound₁ h₂
  obtain ⟨controls₃, h₃, hrest₃⟩ := Fallible.bind_ok hrest₂
  have hsound₃ : Sound default_universe selected₁ controls₃ := by
    apply Fallible.foldlM_preserves (P := Sound default_universe selected₁) _ h₃ hsound₂
    intro _ _ amount hamount hstep hold
    exact amount_control_ok hamount hstep hold
  split at hrest₃
  · exact absurd hrest₃ (by simp)
  · obtain ⟨controls₄, h₄, hrest₄⟩ := Fallible.bind_ok hrest₃
    have hsound₄ := bar_controls_ok hsound₃ h₄
    split at hrest₄
    · exact absurd hrest₄ (by simp)
    · obtain ⟨controls₅, h₅, hrest₅⟩ := Fallible.bind_ok hrest₄
      have hsound₅ := gate_controls_ok hsound₄ h₅
      cases hrest₅
      exact ⟨rfl, hsound₅⟩

end RunControls
