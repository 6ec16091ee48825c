import BacktestVisualizer.Jobs.Submission

/-! # The Run That Validates an Upload

  `services/strategy_validation/runs.py`: an uploaded strategy is run once over
  a short window at the end of the data its tickers have. With the database as
  the source the window ends on `latest_market_data_date`, with FMP on the last
  day of the coverage.
-/

open Coverage Fmp RunControls

namespace Submission

variable {clock : CloseClock}

/-! ### The window -/

/-- A turn of the loop of `latest_market_data_date`: the earliest of the last
    days so far. -/
def earlier_last (table : PriceTable clock) (latest : Option ℤ) (t : Ticker) :
    Option (Option ℤ) :=
  match (table.bars t).getLast? with
  | none => none
  | some bar =>
      match latest with
      | none => some (some bar.date)
      | some day => some (some (min day bar.date))

/-- `latest_market_data_date`; the symbols are stripped, not raised. -/
def latest_market_data_date (table : PriceTable clock) (tickers : List String) : Option ℤ :=
  (((tickers.map strip).filterMap as_ticker).foldlM (earlier_last table) none).join

/-- What `start_validation` raises, as far as the window goes. -/
inductive ValidationStartError where
  | fmp (e : FmpError)
  | no_shared_history (tickers : List String)
  | no_market_data (tickers : List String)
  deriving DecidableEq, Repr

/-- `validation_window`. -/
def validation_window (env : Env clock) (validation_window_days : ℤ) (tickers : List String) :
    Except ValidationStartError (ℤ × ℤ) :=
  match env.settings.coverage.source with
  | .fmp => do
      let coverage ← (coverage_for env.settings.coverage env.market env.yesterday tickers
        env.table).2.mapError .fmp
      match coverage.start, coverage.finish with
      | some earliest, some latest =>
          .ok (max earliest (latest - max validation_window_days 1), latest)
      | _, _ => .error (.no_shared_history tickers)
  | .database =>
      match latest_market_data_date env.table tickers with
      | none => .error (.no_market_data tickers)
      | some latest => .ok (latest - max validation_window_days 1, latest)

/-! ### Where it ends -/

variable {env : Env clock} {table : PriceTable clock} {tickers : List String}

/-- The last day so far: every ticker read has a bar on it or later, and one
    has none later. -/
structure LastDay (table : PriceTable clock) (ts : List Ticker) (latest : Option ℤ) : Prop where
  none : latest = none → ts = []
  reached : ∀ day ∈ latest, ∀ t ∈ ts, ∃ bar ∈ table.bars t, day ≤ bar.date
  newest : ∀ day ∈ latest, ∃ t ∈ ts, ∀ bar ∈ table.bars t, bar.date ≤ day

/-- The last bar has the last date. -/
theorem date_le_last {t : Ticker} {last : StoredBar clock}
    (h : (table.bars t).getLast? = some last) : ∀ bar ∈ table.bars t, bar.date ≤ last.date := by
  have hdates := dates_ordered (table.ordered t)
  obtain ⟨rest, hrest⟩ := List.getLast?_eq_some_iff.mp h
  rw [hrest] at hdates ⊢
  intro bar hbar
  rcases List.mem_append.mp hbar with hmem | hend
  · exact (List.pairwise_append.mp hdates).2.2 bar hmem last List.mem_cons_self
  · rw [List.mem_singleton.mp hend]

theorem LastDay.step {ts : List Ticker} {latest latest' : Option ℤ} {t : Ticker}
    (h : LastDay table ts latest) (hstep : earlier_last table latest t = some latest') :
    LastDay table (ts ++ [t]) latest' := by
  unfold earlier_last at hstep
  cases hlast : (table.bars t).getLast? with
  | none =>
    rw [hlast] at hstep
    exact absurd hstep (by simp)
  | some last =>
    rw [hlast] at hstep
    have hnewest := date_le_last hlast
    have hmem := List.mem_of_getLast? hlast
    cases latest with
    | none =>
      obtain rfl := Option.some.inj hstep
      obtain rfl := h.none rfl
      refine ⟨fun hnone => absurd hnone (by simp), ?_, ?_⟩
      · intro day hday t' ht'
        rw [← Option.some.inj hday]
        rw [List.mem_singleton.mp ht']
        exact ⟨last, hmem, le_refl _⟩
      · intro day hday
        rw [← Option.some.inj hday]
        exact ⟨t, List.mem_cons_self, hnewest⟩
    | some day =>
      obtain rfl := Option.some.inj hstep
      refine ⟨fun hnone => absurd hnone (by simp), ?_, ?_⟩
      · intro day' hday' t' ht'
        rw [← Option.some.inj hday']
        rcases List.mem_append.mp ht' with hold | hnew
        · obtain ⟨bar, hbar, hle⟩ := h.reached day rfl t' hold
          exact ⟨bar, hbar, (min_le_left _ _).trans hle⟩
        · rw [List.mem_singleton.mp hnew]
          exact ⟨last, hmem, min_le_right _ _⟩
      · intro day' hday'
        rw [← Option.some.inj hday']
        rcases le_total day last.date with hle | hle
        · obtain ⟨t', ht', hall⟩ := h.newest day rfl
          rw [min_eq_left hle]
          exact ⟨t', List.mem_append_left _ ht', hall⟩
        · rw [min_eq_right hle]
          exact ⟨t, List.mem_append_right _ List.mem_cons_self, hnewest⟩

theorem LastDay.loop {ts rest : List Ticker} {latest latest' : Option ℤ}
    (h : LastDay table ts latest) (hloop : rest.foldlM (earlier_last table) latest = some latest') :
    LastDay table (ts ++ rest) latest' := by
  induction rest generalizing ts latest with
  | nil =>
    obtain rfl := Option.some.inj hloop
    rwa [List.append_nil]
  | cons t rest ih =>
    rw [List.foldlM_cons] at hloop
    obtain ⟨next, hstep, hrest⟩ := Option.bind_eq_some_iff.mp hloop
    have hall := ih (h.step hstep) hrest
    rwa [List.append_assoc] at hall

theorem latest_market_data_date_spec {latest : ℤ}
    (h : latest_market_data_date table tickers = some latest) :
    LastDay table ((tickers.map strip).filterMap as_ticker) (some latest) := by
  have hloop := Option.join_eq_some_iff.mp h
  have hnone : LastDay table [] none :=
    ⟨fun _ => rfl, fun _ h => absurd h (by simp), fun _ h => absurd h (by simp)⟩
  exact hnone.loop hloop

/-- **The window of a validation** is no longer than the setting, but for a
    setting below one day, and ends with the data. From FMP the tickers have
    their history in common all over the window, and no longer after it. From
    the database every ticker has bars up to its end, and one has none after. -/
theorem validation_window_ends_with_data {validation_window_days start finish : ℤ}
    (h : validation_window env validation_window_days tickers = .ok (start, finish)) :
    (start ≤ finish ∧ finish - start ≤ max validation_window_days 1) ∧
    (env.settings.coverage.source = .fmp → ∃ response table',
      coverage_for env.settings.coverage env.market env.yesterday tickers env.table =
        (table', .ok response) ∧
      ∀ d, start ≤ d → (d ≤ finish ↔ ∀ t ∈ wanted tickers,
        Within (days_of env.settings.coverage env.market env.yesterday table' t) d)) ∧
    (env.settings.coverage.source = .database →
      (∀ t ∈ (tickers.map strip).filterMap as_ticker, ∃ bar ∈ env.table.bars t,
        finish ≤ bar.date) ∧
      ∃ t ∈ (tickers.map strip).filterMap as_ticker, ∀ bar ∈ env.table.bars t,
        bar.date ≤ finish) := by
  unfold validation_window at h
  cases hsource : env.settings.coverage.source with
  | fmp =>
    rw [hsource] at h
    obtain ⟨response, hmap, hrest⟩ := Fallible.bind_ok h
    have hcoverage : coverage_for env.settings.coverage env.market env.yesterday tickers
        env.table = (_, .ok response) := Prod.ext rfl (Fallible.mapError_ok.mp hmap)
    obtain ⟨hwindow, hends, _⟩ := coverage_window hcoverage
    rcases hends with ⟨earliest, latest, hstart, hfinish, hle⟩ | ⟨hstart, _⟩
    · simp only [hstart, hfinish] at hrest hwindow
      obtain ⟨rfl, rfl⟩ := Prod.mk.inj (Except.ok.inj hrest)
      have hlow : max earliest (latest - max validation_window_days 1) ≤ latest := by omega
      refine ⟨⟨hlow, by omega⟩, fun _ => ⟨response, _, hcoverage, ?_⟩, fun hother => ?_⟩
      · intro d hd
        constructor
        · intro hle'
          exact ((hwindow d).mp ⟨earliest, rfl, latest, rfl, by omega, hle'⟩).2
        · intro hall
          -- a window was offered, so there are tickers
          have hne := ((hwindow latest).mp ⟨earliest, rfl, latest, rfl, hle, le_refl _⟩).1
          obtain ⟨_, _, last, hlast, _, hd'⟩ := (hwindow d).mpr ⟨hne, hall⟩
          rwa [← Option.some.inj hlast] at hd'
      · exact absurd hother (by simp)
    · simp only [hstart] at hrest
      exact absurd hrest (by simp)
  | database =>
    rw [hsource] at h
    simp only at h
    cases hlatest : latest_market_data_date env.table tickers with
    | none =>
      rw [hlatest] at h
      exact absurd h (by simp)
    | some latest =>
      rw [hlatest] at h
      obtain ⟨rfl, rfl⟩ := Prod.mk.inj (Except.ok.inj h)
      have hday := latest_market_data_date_spec hlatest
      refine ⟨⟨by omega, by omega⟩, fun hother => absurd hother (by simp), fun _ => ?_⟩
      exact ⟨hday.reached latest rfl, hday.newest latest rfl⟩

/-- The sample's strategy is validated over the days up to the fifth. -/
theorem sample_validation_window :
    validation_window sample_env 30 ["MSFT"] = .ok (-26, 4) ∧
      ∃ t ∈ (["MSFT"].map strip).filterMap as_ticker, ∀ bar ∈ sample_env.table.bars t,
        bar.date ≤ 4 := by
  have hwindow : validation_window sample_env 30 ["MSFT"] = .ok (-26, 4) := by decide +kernel
  exact ⟨hwindow, ((validation_window_ends_with_data hwindow).2.2 rfl).2⟩

end Submission
