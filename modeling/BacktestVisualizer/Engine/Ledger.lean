import BacktestVisualizer.Engine.Executor
import Mathlib.Data.List.Induction

/-! # The Ledger of the Executor

  Cash, positions and the trade log are three records of the same fills.
  Two settlement paths write them, and both end in `settle`; so a call either
  leaves the books alone or appends one fill to all three.

  `replay_cash` and `replay_position` recompute the books from the log alone.
-/

namespace Engine

/-! ### Calls and runs -/

/-- The calls that move the state of an executor. -/
inductive Call where
  | update_price (ticker : Ticker) (price : ℚ)
  /-- The runner stamps the time of a bar. -/
  | set_time (now : Moment)
  | execute_trade (r : TradeRequest)
  | execute_child_order (child : ChildOrder) (timestamp : Option Moment)

/-- One call: what it returns, if it returns anything, and the new state. -/
def perform (cfg : Config) (s : Executor) : Call → Outcome × Executor
  | .update_price ticker price => (.no_trade, update_price cfg s ticker price)
  | .set_time now => (.no_trade, { s with current_time := some now })
  | .execute_trade r => execute_trade cfg s r
  | .execute_child_order child timestamp => execute_child_order cfg s child timestamp

/-- A sequence of calls on a new executor. -/
def run (cfg : Config) (calls : List Call) : Executor :=
  calls.foldl (fun s c => (perform cfg s c).2) (Executor.init cfg)

@[simp] theorem run_nil (cfg : Config) : run cfg [] = Executor.init cfg := rfl

theorem run_snoc (cfg : Config) (calls : List Call) (c : Call) :
    run cfg (calls ++ [c]) = (perform cfg (run cfg calls) c).2 := by
  simp [run, List.foldl_append]

/-! ### What a call can do -/

/-- The three records a call must keep in agreement. -/
def SameBooks (s s' : Executor) : Prop :=
  s'.cash = s.cash ∧ s'.positions = s.positions ∧ s'.trade_log = s.trade_log

theorem SameBooks.refl (s : Executor) : SameBooks s s := ⟨rfl, rfl, rfl⟩

/-- `execute_trade` fills or does nothing. -/
theorem execute_trade_cases (cfg : Config) (s : Executor) (r : TradeRequest) :
    (execute_trade cfg s r).2 = s ∨
    (∃ z side conf, default_trade_size cfg s r.toSizeRequest = some z ∧ 0 < z.quantity ∧
      side = (if .fin 0 < z.desired_notional then Side.buy else Side.sell) ∧
      execute_trade cfg s r =
        (.success z.quantity z.exec_price.val (z.quantity * cfg.commission_per_share),
          settle cfg s r.ticker side z.quantity z.exec_price.val conf r.portfolio_id
            r.timestamp)) := by
  unfold execute_trade
  cases hz : default_trade_size cfg s r.toSizeRequest with
  | none => exact Or.inl rfl
  | some z =>
    by_cases hq : z.quantity ≤ 0
    · exact Or.inl (by simp [hq])
    · exact Or.inr ⟨z, _, .fin (clamp_confidence (r.confidence.getD (.fin 0))), rfl,
        not_le.mp hq, rfl, by simp [hq]⟩

/-- A child order that passes every check, for `q` shares at the price `p`. -/
structure ChildOrder.Settles (cfg : Config) (s : Executor) (child : ChildOrder) (side : Side)
    (q p : ℚ) : Prop where
  direction : child.signal_type.side = some side
  quantity : child.target_quantity = some (.fin q)
  quantity_pos : 0 < q
  mark_pos : 0 < s.latest_prices child.ticker
  price_pos : 0 < p
  slippage : apply_slippage cfg (.fin (s.latest_prices child.ticker)) side child.ticker
    (.fin (q * s.latest_prices child.ticker)) = .fin p
  affordable : child_affordable cfg s child.ticker side q p = some true

/-- The order moves the books, and logs the fill if its confidence converts. -/
theorem ChildOrder.Settles.outcome {cfg : Config} {s : Executor} {child : ChildOrder}
    {side : Side} {q p : ℚ} (h : child.Settles cfg s side q p) (timestamp : Option Moment) :
    (child.confidence = none ∧ execute_child_order cfg s child timestamp =
      (.raised, transfer cfg s child.ticker side q p)) ∨
    (∃ confidence, child.confidence = some confidence ∧
      execute_child_order cfg s child timestamp =
        (.success q p (q * cfg.commission_per_share),
          settle cfg s child.ticker side q p confidence child.portfolio_id timestamp)) := by
  cases hconf : child.confidence with
  | none =>
    refine Or.inl ⟨rfl, ?_⟩
    simp [execute_child_order, h.quantity, not_le.mpr h.quantity_pos, h.direction,
      not_le.mpr h.mark_pos, h.slippage, not_le.mpr h.price_pos, h.affordable, hconf]
  | some confidence =>
    refine Or.inr ⟨confidence, rfl, ?_⟩
    simp [execute_child_order, h.quantity, not_le.mpr h.quantity_pos, h.direction,
      not_le.mpr h.mark_pos, h.slippage, not_le.mpr h.price_pos, h.affordable, hconf]

/-- `execute_child_order` settles or does nothing. -/
theorem execute_child_order_cases (cfg : Config) (s : Executor) (child : ChildOrder)
    (timestamp : Option Moment) :
    (execute_child_order cfg s child timestamp).2 = s ∨
    (∃ side q p, child.Settles cfg s side q p) := by
  unfold execute_child_order
  cases hq : child.target_quantity with
  | none => exact Or.inl rfl
  | some quantity =>
    cases quantity with
    | pos_inf => exact Or.inl rfl
    | neg_inf => exact Or.inl rfl
    | nan => exact Or.inl rfl
    | fin q =>
      -- each guard of the order in turn, the last one being the money
      by_cases hpos : q ≤ 0
      · exact Or.inl (by simp [hpos])
      cases hside : child.signal_type.side with
      | none => exact Or.inl (by simp [hpos])
      | some side =>
        by_cases hprice : s.latest_prices child.ticker ≤ 0
        · exact Or.inl (by simp [hpos, hprice])
        cases hslip : apply_slippage cfg (.fin (s.latest_prices child.ticker)) side child.ticker
            (.fin (q * s.latest_prices child.ticker)) with
        | pos_inf => exact Or.inl (by simp [hpos, hprice, hslip])
        | neg_inf => exact Or.inl (by simp [hpos, hprice, hslip])
        | nan => exact Or.inl (by simp [hpos, hprice, hslip])
        | fin p =>
          by_cases hp : p ≤ 0
          · exact Or.inl (by simp [hpos, hprice, hslip, hp])
          cases haff : child_affordable cfg s child.ticker side q p with
          | none => exact Or.inl (by simp [hpos, hprice, hslip, hp, haff])
          | some ok =>
            cases ok with
            | false => exact Or.inl (by simp [hpos, hprice, hslip, hp, haff])
            | true =>
              exact Or.inr ⟨side, q, p, hside, hq, not_le.mp hpos, not_le.mp hprice,
                not_le.mp hp, hslip, haff⟩

/-- A child order that settles has a confidence to log. `execute_trade`
    converts its confidence before it sizes. -/
def Logged (cfg : Config) (s : Executor) (c : Call) : Prop :=
  ∀ child timestamp side q p, c = .execute_child_order child timestamp →
    child.Settles cfg s side q p → child.confidence ≠ none

/-- A call leaves the books alone, settles one fill and says so, or raises
    between settling a child order and logging it. -/
theorem perform_cases (cfg : Config) (s : Executor) (c : Call) :
    SameBooks s (perform cfg s c).2 ∨
    (∃ t side q p conf id ts, perform cfg s c =
      (.success q p (q * cfg.commission_per_share), settle cfg s t side q p conf id ts)) ∨
    (∃ t side q p, 0 < q ∧ ¬ Logged cfg s c ∧
      perform cfg s c = (.raised, transfer cfg s t side q p)) := by
  match c with
  | .update_price t p =>
    refine Or.inl ?_
    show SameBooks s (update_price cfg s t p)
    unfold update_price
    by_cases ht : t ∈ cfg.tickers
    · rw [if_pos ht]
      exact ⟨rfl, rfl, rfl⟩
    · rw [if_neg ht]
      exact SameBooks.refl s
  | .set_time now => exact Or.inl ⟨rfl, rfl, rfl⟩
  | .execute_trade r =>
    rcases execute_trade_cases cfg s r with hsame | ⟨z, side, c, _, _, _, heq⟩
    · refine Or.inl ?_
      show SameBooks s (execute_trade cfg s r).2
      rw [hsame]
      exact SameBooks.refl s
    · exact Or.inr (Or.inl ⟨_, _, _, _, _, _, _, heq⟩)
  | .execute_child_order child ts =>
    rcases execute_child_order_cases cfg s child ts with hsame | ⟨side, q, p, hsettles⟩
    · refine Or.inl ?_
      show SameBooks s (execute_child_order cfg s child ts).2
      rw [hsame]
      exact SameBooks.refl s
    · rcases hsettles.outcome ts with ⟨hconf, heq⟩ | ⟨confidence, _, heq⟩
      · exact Or.inr (Or.inr ⟨_, side, q, p, hsettles.quantity_pos,
          fun hlogged => hlogged child ts side q p rfl hsettles hconf, heq⟩)
      · exact Or.inr (Or.inl ⟨_, _, _, _, _, _, _, heq⟩)

/-! ### Replaying the log -/

/-- The value of the fills on one side. -/
def traded (side : Side) (log : List Entry) : ℚ :=
  ((log.filter (fun e => e.signal_type = side)).map (fun e => e.shares * e.fill_price)).sum

def paid_fees (log : List Entry) : ℚ := (log.map Entry.fees).sum

/-- Cash, from the log alone. -/
def replay_cash (initial_capital : ℚ) (log : List Entry) : ℚ :=
  initial_capital - traded .buy log + traded .sell log - paid_fees log

/-- The shares an entry adds to its position. -/
def Entry.signed_shares (e : Entry) : ℚ := e.signal_type.sign * e.shares

/-- The position in `t`, from the log alone. -/
def replay_position (log : List Entry) (t : Ticker) : ℚ :=
  ((log.filter (fun e => e.ticker = t)).map Entry.signed_shares).sum

theorem replay_cash_snoc (c : ℚ) (log : List Entry) (e : Entry) :
    replay_cash c (log ++ [e]) =
      replay_cash c log - e.signal_type.sign * (e.shares * e.fill_price) - e.fees := by
  unfold replay_cash traded paid_fees
  cases hside : e.signal_type <;> simp [List.filter_append, hside] <;> ring

theorem replay_position_snoc (log : List Entry) (e : Entry) (t : Ticker) :
    replay_position (log ++ [e]) t =
      replay_position log t + if e.ticker = t then e.signed_shares else 0 := by
  unfold replay_position
  by_cases h : e.ticker = t <;> simp [List.filter_append, h]

/-- Cash, fill by fill. -/
theorem replay_cash_eq (c : ℚ) (log : List Entry) :
    replay_cash c log =
      c - (log.map (fun e => e.signed_shares * e.fill_price)).sum - (log.map Entry.fees).sum := by
  induction log using List.reverseRecOn with
  | nil => simp [replay_cash, traded, paid_fees]
  | append_singleton log e ih =>
    rw [replay_cash_snoc, ih]
    simp only [List.map_append, List.sum_append, List.map_cons, List.map_nil, List.sum_cons,
      List.sum_nil, Entry.signed_shares]
    ring

/-- The value of all positions, fill by fill. -/
theorem sum_replay_position {tickers : List Ticker} (hnodup : tickers.Nodup)
    (mark : Ticker → ℚ) (log : List Entry) (hlog : ∀ e ∈ log, e.ticker ∈ tickers) :
    (tickers.map (fun t => replay_position log t * mark t)).sum =
      (log.map (fun e => e.signed_shares * mark e.ticker)).sum := by
  induction log using List.reverseRecOn with
  | nil => simp [replay_position]
  | append_singleton log e ih =>
    have hsplit : (fun t => replay_position (log ++ [e]) t * mark t) = fun t =>
        replay_position log t * mark t +
          if t = e.ticker then e.signed_shares * mark e.ticker else 0 := by
      funext t
      rw [replay_position_snoc]
      by_cases ht : t = e.ticker
      · subst ht
        simp [add_mul]
      · have ht' : ¬ e.ticker = t := fun h => ht h.symm
        simp [ht, ht']
    have hone : tickers.count e.ticker = 1 :=
      List.count_eq_one_of_mem hnodup (hlog e (by simp))
    rw [hsplit, List.sum_map_add, ih (fun e' he' => hlog e' (List.mem_append_left _ he')),
      List.sum_map_ite_eq tickers (fun _ => e.signed_shares * mark e.ticker) (fun _ => 0), hone]
    simp

/-- The books agree: cash and positions are what the log replays to, and so
    are the running values in every entry. -/
structure Balanced (initial_capital : ℚ) (s : Executor) : Prop where
  cash : s.cash = replay_cash initial_capital s.trade_log
  positions : ∀ t, s.positions t = replay_position s.trade_log t
  entries : ∀ i (hi : i < s.trade_log.length),
    (s.trade_log[i]).cash_after = replay_cash initial_capital (s.trade_log.take (i + 1)) ∧
    (s.trade_log[i]).position_size =
      replay_position (s.trade_log.take (i + 1)) (s.trade_log[i]).ticker

theorem Balanced.same_books {c : ℚ} {s s' : Executor} (h : Balanced c s)
    (hsame : SameBooks s s') : Balanced c s' := by
  obtain ⟨hcash, hpos, hlog⟩ := hsame
  constructor
  · rw [hcash, hlog]
    exact h.cash
  · intro t
    rw [hpos, hlog]
    exact h.positions t
  · rw [hlog]
    exact h.entries

/-- **Settlement keeps the books**: the fill goes into cash, position and
    log at once. -/
theorem Balanced.settle {c : ℚ} {cfg : Config} {s : Executor} (h : Balanced c s) (t : Ticker)
    (side : Side) (q p : ℚ) (conf : PyFloat) (id : String) (ts : Option Moment) :
    Balanced c (settle cfg s t side q p conf id ts) := by
  have hcash : (Engine.settle cfg s t side q p conf id ts).cash =
      replay_cash c (Engine.settle cfg s t side q p conf id ts).trade_log := by
    simp only [Engine.settle]
    rw [replay_cash_snoc, ← h.cash]
  have hposition : ∀ u, (Engine.settle cfg s t side q p conf id ts).positions u =
      replay_position (Engine.settle cfg s t side q p conf id ts).trade_log u := by
    intro u
    simp only [Engine.settle]
    rw [replay_position_snoc, ← h.positions]
    by_cases hu : u = t
    · subst hu
      simp [Entry.signed_shares]
    · have hu' : ¬ t = u := fun h => hu h.symm
      simp [hu, hu']
  refine ⟨hcash, hposition, fun i hi => ?_⟩
  -- older entries see the same prefix, the new one sees the whole log
  by_cases hold : i < s.trade_log.length
  · have hentry := h.entries i hold
    simp only [Engine.settle]
    rw [List.getElem_append_left hold, List.take_append_of_le_length (by omega)]
    exact hentry
  · have hlen : i = s.trade_log.length := by
      simp [Engine.settle] at hi
      omega
    subst hlen
    have htake : (Engine.settle cfg s t side q p conf id ts).trade_log.take
        (s.trade_log.length + 1) = (Engine.settle cfg s t side q p conf id ts).trade_log := by
      apply List.take_of_length_le
      simp [Engine.settle]
    rw [htake, ← hcash, ← hposition]
    simp [Engine.settle]

theorem balanced_init (cfg : Config) : Balanced cfg.initial_capital (Executor.init cfg) := by
  constructor
  · simp [Executor.init, replay_cash, traded, paid_fees]
  · intro t
    simp [Executor.init, replay_position]
  · intro i hi
    simp [Executor.init] at hi

/-- A transfer that is not logged throws the books out of balance. -/
theorem not_balanced_transfer {c : ℚ} {cfg : Config} {s : Executor} (h : Balanced c s)
    (t : Ticker) (side : Side) {q : ℚ} (hq : 0 < q) (p : ℚ) :
    ¬ Balanced c (transfer cfg s t side q p) := by
  intro hafter
  have hmoved : s.positions t + side.sign * q = replay_position s.trade_log t := by
    simpa [transfer] using hafter.positions t
  rw [← h.positions t] at hmoved
  cases side with
  | buy => simp at hmoved; linarith
  | sell => simp at hmoved; linarith

/-- A call with something to log keeps the balance; any other call loses it. -/
theorem balanced_perform_iff {c₀ : ℚ} {cfg : Config} {s : Executor} (h : Balanced c₀ s)
    (c : Call) : Balanced c₀ (perform cfg s c).2 ↔ Logged cfg s c := by
  constructor
  · intro hafter child ts side q p hc hsettles hconf
    subst hc
    rcases hsettles.outcome ts with ⟨_, heq⟩ | ⟨confidence, hsome, _⟩
    · rw [perform, heq] at hafter
      exact not_balanced_transfer h _ side hsettles.quantity_pos p hafter
    · simp [hconf] at hsome
  · intro hlogged
    rcases perform_cases cfg s c with hsame | ⟨t, side, q, p, conf, id, ts, heq⟩ |
      ⟨_, _, _, _, _, hnot, _⟩
    · exact h.same_books hsame
    · rw [heq]
      exact h.settle t side q p conf id ts
    · exact absurd hlogged hnot

theorem balanced_run (cfg : Config) {calls : List Call}
    (hlogged : ∀ before c, before ++ [c] <+: calls → Logged cfg (run cfg before) c) :
    Balanced cfg.initial_capital (run cfg calls) := by
  induction calls using List.reverseRecOn with
  | nil => exact balanced_init cfg
  | append_singleton calls c ih =>
    have hbefore := ih fun before c' hpre => hlogged before c' (hpre.trans (List.prefix_append _ _))
    rw [run_snoc]
    exact (balanced_perform_iff hbefore c).mpr (hlogged calls c List.prefix_rfl)

/-- **Ledger replay.** Along any calls, cash and every position are what the
    trade log replays to, and every entry carries the cash and the position
    of the log up to and including it, exactly when no child order settles
    whose confidence does not convert. A call that does not fill leaves the
    books unchanged. -/
theorem ledger_replay (cfg : Config) (calls : List Call) :
    ((∀ before, before <+: calls → Balanced cfg.initial_capital (run cfg before)) ↔
      ∀ before c, before ++ [c] <+: calls → Logged cfg (run cfg before) c) ∧
    ∀ c, (Logged cfg (run cfg calls) c →
        (∃ q p f, (perform cfg (run cfg calls) c).1 = .success q p f) ∨
          SameBooks (run cfg calls) (perform cfg (run cfg calls) c).2) ∧
      ((perform cfg (run cfg calls) c).1 = .no_trade ∨
          (∃ message, (perform cfg (run cfg calls) c).1 = .error message) →
        SameBooks (run cfg calls) (perform cfg (run cfg calls) c).2) := by
  refine ⟨⟨fun h before c hpre => ?_, fun h before hpre => ?_⟩, fun c => ?_⟩
  · have hbefore := h before ((List.prefix_append before [c]).trans hpre)
    have hafter := h (before ++ [c]) hpre
    rw [run_snoc] at hafter
    exact (balanced_perform_iff hbefore c).mp hafter
  · exact balanced_run cfg fun earlier c hearlier => h earlier c (hearlier.trans hpre)
  · rcases perform_cases cfg (run cfg calls) c with hsame | ⟨_, _, q, p, _, _, _, heq⟩ |
      ⟨_, _, _, _, _, hnot, heq⟩
    · exact ⟨fun _ => Or.inr hsame, fun _ => hsame⟩
    · refine ⟨fun _ => Or.inl ⟨q, p, q * cfg.commission_per_share, by rw [heq]⟩, ?_⟩
      rw [heq]
      rintro (hnone | ⟨m, hm⟩)
      · exact absurd hnone (by simp)
      · exact absurd hm (by simp)
    · refine ⟨fun hlogged => absurd hlogged hnot, ?_⟩
      rw [heq]
      rintro (hnone | ⟨m, hm⟩)
      · exact absurd hnone (by simp)
      · exact absurd hm (by simp)

def tick_a : Ticker := ⟨"AAPL", aapl_nonempty⟩

/-- One ticker, no leverage and no costs. -/
def plain_config : Config where
  initial_capital := 100
  tickers := [tick_a]
  leverage := 1
  slippage := 0
  cost_model := none
  adv_lookup := fun _ => 0
  sigma_lookup := fun _ => 0
  commission_per_share := 0
  commission_nonneg := no_commission_nonneg
  sentiment_gate := none

/-- One share is bought, by an order whose confidence is `None`. -/
def unlogged_calls : List Call :=
  [.update_price tick_a 10, .execute_child_order ⟨tick_a, .buy, some (.fin 1), none, "p"⟩ none]

/-- The share is held and paid for, and the log is empty. -/
theorem unlogged_calls_unbalanced :
    (run plain_config unlogged_calls).positions tick_a = 1 ∧
    (run plain_config unlogged_calls).cash = 90 ∧
    (run plain_config unlogged_calls).trade_log = [] ∧
    ¬ Balanced plain_config.initial_capital (run plain_config unlogged_calls) := by
  have hend : run plain_config unlogged_calls =
      transfer plain_config
        (update_price plain_config (Executor.init plain_config) tick_a 10) tick_a .buy 1 10 := by
    norm_num [run, unlogged_calls, perform, execute_child_order, update_price, plain_config,
      Executor.init, Signal.side, apply_slippage, child_affordable]
  have hlog : (run plain_config unlogged_calls).trade_log = [] := by rw [hend]; rfl
  have hpos : (run plain_config unlogged_calls).positions tick_a = 1 := by
    rw [hend]
    simp [transfer, update_price, plain_config, Executor.init]
  refine ⟨hpos, ?_, hlog, fun hbalanced => ?_⟩
  · rw [hend]
    norm_num [transfer, update_price, plain_config, Executor.init]
  · have := hbalanced.positions tick_a
    rw [hpos, hlog] at this
    simp [replay_position] at this

end Engine
