import BacktestVisualizer.Engine.EventLoop

/-! # Fill Prices and Marks

  An order is filled at the close its context shows, and the portfolio is
  valued at the marks of the executor. The context sees the whole lookback
  window; the executor is marked from the start of the run on, and only in
  the tickers of its universe. `fill_price_is_mark` says when the two agree:
  the newest bar of the ticker must be one of the run and must have a close.
-/

open Timeline

namespace Engine

variable (bt : Backtest) (script : Script)

/-! ### Marks -/

/-- The mark a chunk sets. -/
def chunk_price (chunk : List Bar) (t : Ticker) : Option ℚ :=
  (chunk.filter (fun row => row.ticker = t)).getLast?.bind Bar.close_price

/-- Updates that agree with the chunk. -/
theorem foldl_set_mark (chunk : List Bar) (t : Ticker) (updates : List (Ticker × Option ℚ))
    (s : Executor) (hall : ∀ u ∈ updates, u.2 = chunk_price chunk u.1) :
    (updates.foldl (set_mark bt) s).latest_prices t =
      if t ∈ bt.cfg.tickers ∧ t ∈ updates.map Prod.fst then
        (chunk_price chunk t).getD (s.latest_prices t)
      else s.latest_prices t := by
  induction updates generalizing s with
  | nil => simp
  | cons u updates ih =>
    have hu : u.2 = chunk_price chunk u.1 := hall u (by simp)
    rw [List.foldl_cons, ih _ (fun u hu => hall u (List.mem_cons_of_mem _ hu))]
    have hset : (set_mark bt s u).latest_prices t =
        if t ∈ bt.cfg.tickers ∧ t = u.1 then (chunk_price chunk t).getD (s.latest_prices t)
        else s.latest_prices t := by
      unfold set_mark update_price
      by_cases ht : t = u.1
      · subst ht
        rw [← hu]
        cases u.2 <;> by_cases hin : u.1 ∈ bt.cfg.tickers <;> simp [hin]
      · cases u.2 <;> by_cases hin : u.1 ∈ bt.cfg.tickers <;> simp [hin, ht]
    simp only [hset, List.map_cons, List.mem_cons]
    by_cases hin : t ∈ bt.cfg.tickers
    · by_cases ht : t = u.1
      · subst ht
        cases hprice : chunk_price chunk u.1 <;> simp [hin]
      · simp only [hin, ht, and_false, if_false, false_or]
    · simp [hin]

theorem mark_prices_latest (s : Executor) (chunk : List Bar) (t : Ticker) :
    (mark_prices bt s chunk).latest_prices t =
      if t ∈ bt.cfg.tickers then (chunk_price chunk t).getD (s.latest_prices t)
      else s.latest_prices t := by
  have hkeys : ∀ u ∈ price_updates chunk, u.2 = chunk_price chunk u.1 := by
    intro u hu
    obtain ⟨t', _, hrow⟩ := List.mem_filterMap.mp hu
    obtain ⟨row, hlast, rfl⟩ := Option.map_eq_some_iff.mp hrow
    simp [chunk_price, hlast]
  unfold mark_prices
  rw [foldl_set_mark bt chunk t _ s hkeys]
  by_cases ht : t ∈ (price_updates chunk).map Prod.fst
  · simp [ht]
  · -- a ticker without an update has no row in the chunk
    have hnone : chunk_price chunk t = none := by
      cases hlast : (chunk.filter (fun row => row.ticker = t)).getLast? with
      | none => simp only [chunk_price, hlast, Option.bind_none]
      | some row =>
        obtain ⟨hrow, hrt⟩ := newest_mem hlast
        refine absurd ?_ ht
        rw [List.mem_map]
        refine ⟨(t, row.close_price),
          List.mem_filterMap.mpr ⟨t, ?_, by simp only [hlast, Option.map_some]⟩, rfl⟩
        rw [List.mem_dedup, List.mem_map]
        exact ⟨row, hrow, by simpa using hrt⟩
    simp [hnone, ht]

/-- Orders and child orders do not move a mark. -/
theorem issue_latest_prices (cfg : Config) (ctx : StrategyContext) (s : Executor)
    (order : Order) : (issue cfg ctx s order).2.latest_prices = s.latest_prices := by
  rcases issue_cases cfg ctx s order with hsame | ⟨_, r, _, _, heq, _⟩
  · rw [hsame]
  · rw [heq]
    rcases execute_trade_cases cfg s r with hsame | ⟨_, _, _, _, _, _, hfill⟩
    · rw [hsame]
    · rw [hfill]
      rfl

theorem issue_all_latest_prices (cfg : Config) (ctx : StrategyContext) (s : Executor)
    (orders : List Order) : (issue_all cfg ctx s orders).latest_prices = s.latest_prices := by
  induction orders using List.reverseRecOn with
  | nil => rfl
  | append_singleton orders order ih => rw [issue_all_snoc, issue_latest_prices, ih]

theorem execute_children_latest_prices (s : Executor) (now : ℤ) (children : List ChildOrder) :
    (execute_children bt s now children).latest_prices = s.latest_prices := by
  unfold execute_children
  induction children generalizing s with
  | nil => rfl
  | cons child children ih =>
    rw [List.foldl_cons, ih]
    rcases execute_child_order_cases bt.cfg s child (some (sim_time bt now)) with
      hsame | ⟨_, _, _, hsettles⟩
    · rw [hsame]
    · rcases hsettles.outcome (some (sim_time bt now)) with ⟨_, hfill⟩ | ⟨_, _, hfill⟩ <;>
        rw [hfill] <;> rfl

theorem before_poll_latest_prices (s : Executor) (now : ℤ) :
    (before_poll bt script s now).latest_prices = (marked bt s now).latest_prices := by
  unfold before_poll
  split
  · exact execute_children_latest_prices bt _ now _
  · rfl

theorem loop_step_latest_prices (st : LoopState) (now : ℤ) :
    (loop_step bt script st now).executor.latest_prices =
      (marked bt st.executor now).latest_prices := by
  rw [← before_poll_latest_prices bt script]
  unfold loop_step poll generate_signals_and_trade record_performance
  simp only
  split
  · split
    · rfl
    · exact issue_all_latest_prices _ _ _ _
  · rfl

/-! ### Marks along a run -/

/-- The newest bar of a ticker in the chunks of some timestamps. -/
def newest_seen (timestamps : List ℤ) (t : Ticker) : Option Bar :=
  (bt.main_data.filter (fun row => row.ticker = t ∧ row.timestamp ∈ timestamps)).getLast?

/-- The marks of a run over some timestamps: those of the newest bars, where
    these have a close, and none for a ticker without a bar. -/
structure Follows (timestamps : List ℤ) (s : Executor) : Prop where
  outside : ∀ t, t ∉ bt.cfg.tickers → s.latest_prices t = 0
  unseen : ∀ t, newest_seen bt timestamps t = none → s.latest_prices t = 0
  seen : ∀ t row q, t ∈ bt.cfg.tickers → newest_seen bt timestamps t = some row →
    row.close_price = some q → s.latest_prices t = q

/-- A ticker with a bar at `now` is seen there last. -/
theorem newest_seen_now {before : List ℤ} {now : ℤ} (hbefore : ∀ ts ∈ before, ts < now)
    {t : Ticker} {row : Bar}
    (h : ((current_data_chunk bt now).filter (fun row => row.ticker = t)).getLast? = some row) :
    newest_seen bt (before ++ [now]) t = some row := by
  have hcut := filter_cut bt.main_data_sorted
    (fun row => decide (row.ticker = t ∧ row.timestamp ∈ before ++ [now])) now
  unfold newest_seen
  rw [hcut, List.getLast?_append]
  have hchunk : bt.main_data.filter (fun row =>
      decide (row.ticker = t ∧ row.timestamp ∈ before ++ [now]) &&
        decide (now ≤ row.timestamp)) =
      (current_data_chunk bt now).filter (fun row => row.ticker = t) := by
    unfold current_data_chunk
    rw [List.filter_filter]
    apply List.filter_congr
    intro row _
    rw [← Bool.decide_and, ← Bool.decide_and]
    apply decide_eq_decide.mpr
    constructor
    · intro h
      obtain ⟨⟨ht, hmem⟩, hle⟩ := h
      refine ⟨ht, ?_⟩
      rcases List.mem_append.mp hmem with hold | hnow
      · have := hbefore _ hold
        omega
      · exact List.mem_singleton.mp hnow
    · intro h
      exact ⟨⟨h.1, by simp [h.2]⟩, by omega⟩
  rw [hchunk, h]
  rfl

/-- A ticker without a bar at `now` keeps its newest. -/
theorem newest_seen_before {before : List ℤ} {now : ℤ} {t : Ticker}
    (h : ((current_data_chunk bt now).filter (fun row => row.ticker = t)).getLast? = none) :
    newest_seen bt (before ++ [now]) t = newest_seen bt before t := by
  have hnone : ∀ row ∈ bt.main_data, row.timestamp = now → row.ticker ≠ t := by
    intro row hrow hts ht
    have hnil := List.getLast?_eq_none_iff.mp h
    have hmem : row ∈ (current_data_chunk bt now).filter (fun row => row.ticker = t) := by
      simp [current_data_chunk, hrow, hts, ht]
    rw [hnil] at hmem
    exact absurd hmem (by simp)
  unfold newest_seen
  congr 1
  apply List.filter_congr
  intro row hrow
  apply decide_eq_decide.mpr
  constructor
  · intro h
    obtain ⟨ht, hmem⟩ := h
    rcases List.mem_append.mp hmem with hold | hnow
    · exact ⟨ht, hold⟩
    · exact absurd ht (hnone row hrow (List.mem_singleton.mp hnow))
  · intro h
    exact ⟨h.1, List.mem_append_left _ h.2⟩

theorem Follows.marked {before : List ℤ} {now : ℤ} {s : Executor} (h : Follows bt before s)
    (hbefore : ∀ ts ∈ before, ts < now) : Follows bt (before ++ [now]) (marked bt s now) := by
  have hlatest : ∀ t, (Engine.marked bt s now).latest_prices t =
      if t ∈ bt.cfg.tickers then
        (chunk_price (current_data_chunk bt now) t).getD (s.latest_prices t)
      else s.latest_prices t := fun t => mark_prices_latest bt _ _ t
  refine ⟨fun t ht => ?_, fun t hnew => ?_, fun t row q ht hnew hclose => ?_⟩
  · rw [hlatest, if_neg ht]
    exact h.outside t ht
  · cases hchunk : ((current_data_chunk bt now).filter (fun row => row.ticker = t)).getLast? with
    | none =>
      rw [newest_seen_before bt hchunk] at hnew
      rw [hlatest, chunk_price, hchunk]
      simp [h.unseen t hnew]
    | some row =>
      rw [newest_seen_now bt hbefore hchunk] at hnew
      simp at hnew
  · rw [hlatest, if_pos ht]
    cases hchunk : ((current_data_chunk bt now).filter (fun row => row.ticker = t)).getLast? with
    | none =>
      rw [newest_seen_before bt hchunk] at hnew
      rw [chunk_price, hchunk]
      simp [h.seen t row q ht hnew hclose]
    | some row' =>
      obtain rfl : row' = row :=
        Option.some.inj ((newest_seen_now bt hbefore hchunk).symm.trans hnew)
      simp [chunk_price, hchunk, hclose]

theorem follows_run {timestamps : List ℤ} (hrun : timestamps <+: loop_timestamps bt) :
    Follows bt timestamps (run_event_loop bt script timestamps).executor := by
  induction timestamps using List.reverseRecOn with
  | nil =>
    exact ⟨fun _ _ => rfl, fun _ _ => rfl, fun t row q _ hnew _ => by simp [newest_seen] at hnew⟩
  | append_singleton timestamps now ih =>
    have hmarked := (ih ((List.prefix_append _ _).trans hrun)).marked bt (before_lt bt hrun)
    have hlatest := loop_step_latest_prices bt script (run_event_loop bt script timestamps) now
    rw [← run_event_loop_snoc] at hlatest
    refine ⟨?_, ?_, ?_⟩
    · rw [hlatest]
      exact hmarked.outside
    · rw [hlatest]
      exact hmarked.unseen
    · rw [hlatest]
      exact hmarked.seen

/-- The executor when the loop reaches the poll gate. -/
theorem follows_before_poll {before : List ℤ} {now : ℤ}
    (hrun : before ++ [now] <+: loop_timestamps bt) :
    Follows bt (before ++ [now])
      (before_poll bt script (run_event_loop bt script before).executor now) := by
  have hmarked := (follows_run bt script ((List.prefix_append _ _).trans hrun)).marked bt
    (before_lt bt hrun)
  have hlatest := before_poll_latest_prices bt script (run_event_loop bt script before).executor now
  refine ⟨?_, ?_, ?_⟩
  · rw [hlatest]
    exact hmarked.outside
  · rw [hlatest]
    exact hmarked.unseen
  · rw [hlatest]
    exact hmarked.seen

/-! ### What the context shows -/

/-- The newest bar of a ticker at an instant. -/
def newest_bar (now : ℤ) (t : Ticker) : Option Bar :=
  (bt.main_data.filter (fun row => row.ticker = t ∧ row.timestamp ≤ now)).getLast?

/-- The context shows the newest bar, if it is in the lookback window. -/
theorem market_newest {before : List ℤ} {now : ℤ} (hrun : before ++ [now] <+: loop_timestamps bt)
    {t : Ticker} {asset : AssetData}
    (h : market_data (historical_slice bt now) now t = some asset) :
    ∃ row, newest_bar bt now t = some row ∧ asset.Close = cell_float row.close_price ∧
      asset.Timestamp = row.timestamp := by
  unfold market_data AssetData.init at h
  cases hlast : (((historical_slice bt now).filter (fun row => row.ticker = t)).filter
      (fun row => row.timestamp ≤ now)).getLast? with
  | none =>
    rw [hlast] at h
    exact absurd h (by simp)
  | some row =>
    rw [hlast] at h
    simp only [Option.bind_eq_bind, Option.bind_some, Option.some.injEq] at h
    subst h
    refine ⟨row, ?_, rfl, rfl⟩
    rw [historical_slice_eq bt (exists_bar bt hrun).1, List.filter_filter,
      List.filter_filter] at hlast
    obtain ⟨hrow, hp⟩ := newest_mem hlast
    simp only [Bool.and_eq_true, decide_eq_true_eq] at hp
    -- bars outside of the window are older
    cases hnewest : newest_bar bt now t with
    | none =>
      have hnil := List.getLast?_eq_none_iff.mp hnewest
      have hmem : row ∈ bt.main_data.filter
          (fun row => row.ticker = t ∧ row.timestamp ≤ now) := by
        simp [hrow, hp.1]
      rw [hnil] at hmem
      exact absurd hmem (by simp)
    | some newest =>
      have hle : row.timestamp ≤ newest.timestamp := by
        apply key_le_newest bt.main_data_sorted hnewest hrow
        simp [hp.1]
      obtain ⟨_, hnp⟩ := newest_mem hnewest
      simp only [decide_eq_true_eq] at hnp
      have hwindow := newest_of_imp (q := fun row => decide (row.timestamp ≤ now) &&
          decide (row.ticker = t) && decide (now - bt.strategy_lookback_window ≤ row.timestamp ∧
            row.timestamp ≤ now)) hnewest
        (fun row _ hq => by
          simp only [Bool.and_eq_true, decide_eq_true_eq] at hq
          simp [hq.1])
        (by
          simp only [Bool.and_eq_true, decide_eq_true_eq]
          exact ⟨⟨hnp.2, hnp.1⟩, by omega, hnp.2⟩)
      rw [hlast] at hwindow
      exact hwindow.symm

/-- The newest bar at `now` is the newest seen, if it is one of the run. -/
theorem newest_seen_eq {before : List ℤ} {now : ℤ} (hrun : before ++ [now] <+: loop_timestamps bt)
    {t : Ticker} {row : Bar} (h : newest_bar bt now t = some row) :
    (bt.backtest_loop_start_date ≤ row.timestamp →
      newest_seen bt (before ++ [now]) t = some row) ∧
    (row.timestamp < bt.backtest_loop_start_date → newest_seen bt (before ++ [now]) t = none) := by
  obtain ⟨_, hstart⟩ := exists_bar bt hrun
  have hmem : ∀ row ∈ bt.main_data, row.timestamp ∈ before ++ [now] ↔
      bt.backtest_loop_start_date ≤ row.timestamp ∧ row.timestamp ≤ now := by
    intro row hrow
    rw [List.mem_append, mem_before bt hrun hrow, List.mem_singleton]
    omega
  obtain ⟨hrow, hp⟩ := newest_mem h
  simp only [decide_eq_true_eq] at hp
  constructor
  · intro hin
    refine newest_of_imp h (fun row' hrow' hq => ?_) ?_
    · simp only [decide_eq_true_eq] at hq ⊢
      exact ⟨hq.1, ((hmem row' hrow').mp hq.2).2⟩
    · simp only [decide_eq_true_eq]
      exact ⟨hp.1, (hmem row hrow).mpr ⟨hin, hp.2⟩⟩
  · intro hold
    unfold newest_seen
    rw [List.getLast?_eq_none_iff, List.filter_eq_nil_iff]
    intro row' hrow' hq
    simp only [decide_eq_true_eq] at hq
    obtain ⟨ht, hts⟩ := hq
    have hbounds := (hmem row' hrow').mp hts
    have := key_le_newest bt.main_data_sorted h hrow' (by simp [ht, hbounds.2])
    omega

/-- The ticker is one of the universe, and its newest bar is one of the run
    and has a close. -/
def MarkedAt (now : ℤ) (t : Ticker) : Prop :=
  t ∈ bt.cfg.tickers ∧ ∃ row, newest_bar bt now t = some row ∧
    bt.backtest_loop_start_date ≤ row.timestamp ∧ row.close_price ≠ none

/-- **The close of a context** is the mark when the ticker is marked;
    otherwise there is no mark yet, or the close is NaN. -/
theorem close_is_mark {before : List ℤ} {now : ℤ} (hrun : before ++ [now] <+: loop_timestamps bt)
    {s : Executor} (hs : Follows bt (before ++ [now]) s) {t : Ticker} {asset : AssetData}
    (hasset : market_data (historical_slice bt now) now t = some asset) :
    (MarkedAt bt now t → asset.Close = .fin (s.latest_prices t)) ∧
    (¬ MarkedAt bt now t → asset.Close = .nan ∨ s.latest_prices t = 0) := by
  obtain ⟨row, hnewest, hvalue, _⟩ := market_newest bt hrun hasset
  obtain ⟨hseen, hunseen⟩ := newest_seen_eq bt hrun hnewest
  constructor
  · intro hmarked
    obtain ⟨ht, row', hnewest', hstart, hprice⟩ := hmarked
    obtain rfl : row = row' := Option.some.inj (hnewest.symm.trans hnewest')
    obtain ⟨q, hq⟩ := Option.ne_none_iff_exists'.mp hprice
    rw [hvalue, hs.seen t row q ht (hseen hstart) hq, hq]
    rfl
  · intro hnot
    cases hprice : row.close_price with
    | none =>
      left
      rw [hvalue, hprice]
      rfl
    | some q =>
      right
      by_cases ht : t ∈ bt.cfg.tickers
      · apply hs.unseen t
        apply hunseen
        by_contra hstart
        exact hnot ⟨ht, row, hnewest, not_lt.mp hstart, by simp [hprice]⟩
      · exact hs.outside t ht

/-! ### Fills -/

/-- Trading is free of costs: no slippage, no cost model in its place, and no
    commission. -/
structure Costless (cfg : Config) : Prop where
  slippage : cfg.slippage = 0
  cost_model : cfg.cost_model = none
  commission : cfg.commission_per_share = 0

/-- What a fill without a commission does to the portfolio value. -/
theorem notional_after_fill {cfg : Config} (hfree : cfg.commission_per_share = 0) (s : Executor)
    (t : Ticker) (side : Side) (n p : ℚ) (conf : PyFloat) (id : String) (ts : Option Moment) :
    get_port_notional cfg (settle cfg s t side n p conf id ts) =
      get_port_notional cfg s +
        side.sign * n * (cfg.tickers.count t * s.latest_prices t - p) := by
  unfold get_port_notional settle
  simp only
  rw [sum_set_amount_count cfg.tickers t (fun u q => q * s.latest_prices u), hfree]
  ring

/-- A fill at a positive price leaves the value alone exactly when the price
    is what the universe values a share at. -/
theorem notional_unchanged_iff {cfg : Config} (hfree : cfg.commission_per_share = 0)
    (s : Executor) (t : Ticker) (side : Side) {n p : ℚ} (hn : 0 < n) (conf : PyFloat)
    (id : String) (ts : Option Moment) :
    get_port_notional cfg (settle cfg s t side n p conf id ts) = get_port_notional cfg s ↔
      cfg.tickers.count t * s.latest_prices t = p := by
  have hsign : side.sign * n ≠ 0 := by
    cases side with
    | buy => simpa using ne_of_gt hn
    | sell => simpa using ne_of_gt hn
  rw [notional_after_fill hfree, add_eq_left, mul_eq_zero, or_iff_right hsign, sub_eq_zero]

/-- Without trading costs an order fills at a finite, positive arrival
    price. -/
theorem execute_trade_at_arrival {cfg : Config} (h : Costless cfg) (s : Executor)
    (r : TradeRequest) :
    (execute_trade cfg s r).2 = s ∨
    ∃ side, ∃ n : ℚ, ∃ p conf, 0 < n ∧ 0 < p ∧ r.arrival_price = some (.fin p) ∧
      (execute_trade cfg s r).2 =
        settle cfg s r.ticker side n p conf r.portfolio_id r.timestamp := by
  rcases execute_trade_cases cfg s r with hsame | ⟨z, side, conf, hz, hq, _, heq⟩
  · exact Or.inl hsame
  · obtain ⟨x, weight, notional, p, hconv, _, _, hslip, hp, hsize⟩ :=
      default_trade_size_cases cfg s r.toSizeRequest hz hq
    obtain ⟨a, ha, rfl⟩ := apply_slippage_fin cfg h.cost_model hslip
    have harrival : r.arrival_price = some (.fin a) := by
      rw [(convert_cases hconv).1, ha]
    rw [h.slippage, mul_zero, add_zero, mul_one] at hp hsize
    refine Or.inr ⟨side, z.quantity, a, conf, by exact_mod_cast hq, hp, harrival, ?_⟩
    rw [heq, size_at_exec_price cfg s x hsize]
    rfl

/-- **An order** without trading costs. -/
theorem issue_notional {before : List ℤ} {now : ℤ} (hrun : before ++ [now] <+: loop_timestamps bt)
    (hcost : Costless bt.cfg) {ctx : StrategyContext}
    (hmarket : ctx.market = market_data (historical_slice bt now) now) {s : Executor}
    (hs : Follows bt (before ++ [now]) s) {order : Order} (hfills : Fills bt.cfg ctx s order) :
    get_port_notional bt.cfg (issue bt.cfg ctx s order).2 = get_port_notional bt.cfg s ↔
      MarkedAt bt now order.ticker ∧ bt.cfg.tickers.count order.ticker = 1 := by
  rcases issue_cases bt.cfg ctx s order with
    hsame | ⟨asset, r, hasset, _, heq, ht, harrival, _⟩
  · exact absurd (by rw [hsame]) hfills
  rcases execute_trade_at_arrival hcost s r with hsame | ⟨side, n, p, conf, hn, hp, hprice, hfill⟩
  · exact absurd (by rw [heq, hsame]) hfills
  rw [heq, hfill, notional_unchanged_iff hcost.commission s r.ticker side hn, ht]
  rw [hmarket] at hasset
  obtain ⟨hmark, hno_mark⟩ := close_is_mark bt hrun hs hasset
  have hclose : asset.Close = .fin p := Option.some.inj (harrival.symm.trans hprice)
  by_cases hmarked : MarkedAt bt now order.ticker
  · have heqp : s.latest_prices order.ticker = p :=
      PyFloat.fin.inj ((hmark hmarked).symm.trans hclose)
    rw [heqp, mul_eq_right₀ (ne_of_gt hp)]
    exact ⟨fun h => ⟨hmarked, by exact_mod_cast h⟩, fun h => by exact_mod_cast h.2⟩
  · rcases hno_mark hmarked with hnan | hzero
    · rw [hclose] at hnan
      exact absurd hnan (by simp)
    · rw [hzero, mul_zero]
      exact ⟨fun h => absurd h (ne_of_lt hp), fun h => absurd h.1 hmarked⟩

/-- **A child order** without trading costs. -/
theorem child_notional {cfg : Config} (hcost : Costless cfg) (s : Executor) (child : ChildOrder)
    (ts : Option Moment)
    (hfills : (execute_child_order cfg s child ts).2.trade_log ≠ s.trade_log) :
    get_port_notional cfg (execute_child_order cfg s child ts).2 = get_port_notional cfg s ↔
      cfg.tickers.count child.ticker = 1 := by
  rcases execute_child_order_cases cfg s child ts with hsame | ⟨side, q, p, hsettles⟩
  · exact absurd (by rw [hsame]) hfills
  have hq := hsettles.quantity_pos
  have hprice := hsettles.mark_pos
  obtain ⟨a, ha, rfl⟩ := apply_slippage_fin cfg hcost.cost_model hsettles.slippage
  obtain rfl := PyFloat.fin.inj ha
  rcases hsettles.outcome ts with ⟨_, heq⟩ | ⟨_, _, heq⟩
  · -- a fill that raised before its log entry has logged nothing
    exact absurd (by rw [heq]; rfl) hfills
  rw [heq]
  show get_port_notional cfg (settle cfg s _ _ _ _ _ _ _) = _ ↔ _
  rw [notional_unchanged_iff hcost.commission s child.ticker side hq, hcost.slippage, mul_zero,
    add_zero, mul_one, mul_eq_right₀ (ne_of_gt hprice)]
  exact_mod_cast Iff.rfl

/-- **Fill price and mark.** At every step of a run, an order whose market
    data passes the check of `_place` is priced at the mark exactly when its
    ticker is marked. Without trading costs a fill of such an order leaves
    the portfolio value alone exactly when, besides, the universe lists the
    ticker once, and a fill of a child order exactly when it does that. -/
theorem fill_price_is_mark {before : List ℤ} {now : ℤ}
    (hrun : before ++ [now] <+: loop_timestamps bt) :
    (∀ issued order, issued ++ [order] <+: script.on_data now →
      let s := before_poll bt script (run_event_loop bt script before).executor now
      let ctx := context bt s now
      let at_order := issue_all bt.cfg ctx s issued
      (∀ asset, ctx.market order.ticker = some asset → ¬ asset.Close ≤ .fin 0 →
        (asset.Close = .fin (at_order.latest_prices order.ticker) ↔
          MarkedAt bt now order.ticker)) ∧
      (Costless bt.cfg → Fills bt.cfg ctx at_order order →
        (get_port_notional bt.cfg (issue bt.cfg ctx at_order order).2 =
            get_port_notional bt.cfg at_order ↔
          MarkedAt bt now order.ticker ∧ bt.cfg.tickers.count order.ticker = 1))) ∧
    (∀ executed child, executed ++ [child] <+: script.children now →
      let s := marked bt (run_event_loop bt script before).executor now
      let at_child := execute_children bt s now executed
      let after_child := (execute_child_order bt.cfg at_child child (some (sim_time bt now))).2
      Costless bt.cfg → after_child.trade_log ≠ at_child.trade_log →
        (get_port_notional bt.cfg after_child = get_port_notional bt.cfg at_child ↔
          bt.cfg.tickers.count child.ticker = 1)) := by
  constructor
  · intro issued order _ s ctx at_order
    have hmarks := issue_all_latest_prices bt.cfg ctx s issued
    have hfollows : Follows bt (before ++ [now]) at_order := by
      obtain ⟨houtside, hunseen, hseen⟩ := follows_before_poll bt script hrun
      refine ⟨?_, ?_, ?_⟩
      · rw [hmarks]
        exact houtside
      · rw [hmarks]
        exact hunseen
      · rw [hmarks]
        exact hseen
    refine ⟨fun asset hasset hclose => ?_, fun hcost hfills => ?_⟩
    · obtain ⟨hmark, hno_mark⟩ := close_is_mark bt hrun hfollows hasset
      refine ⟨fun heq => ?_, hmark⟩
      by_contra hmarked
      rcases hno_mark hmarked with hnan | hzero
      · rw [heq] at hnan
        exact absurd hnan (by simp)
      · exact hclose (by rw [heq, hzero]; decide +kernel)
    · exact issue_notional bt hrun hcost rfl hfollows hfills
  · intro executed child _ s at_child after_child hcost hfills
    exact child_notional hcost at_child child _ hfills

/-! ### A close from before the run -/

/-- `AAPL` has traded before the run and not since, `MSFT` trades in it. -/
def stale_backtest : Backtest where
  cfg :=
    { initial_capital := 1000, tickers := [tick_a, tick_b], leverage := 1, slippage := 0
      cost_model := none, adv_lookup := fun _ => 0, sigma_lookup := fun _ => 0
      commission_per_share := 0, commission_nonneg := no_commission_nonneg, sentiment_gate := none }
  portfolio_id := "p"
  weights := .absent
  poll_interval := 0
  strategy_lookback_window := 100
  zone := { offset_at := fun _ => 0, offset_of_wall := fun _ => 0 }
  has_order_manager := false
  backtest_loop_start_date := 0
  frame := [bar_at (-10) tick_a (some 10), bar_at 0 tick_b (some 10)]
  main_data := [bar_at (-10) tick_a (some 10), bar_at 0 tick_b (some 10)]
  main_data_perm := List.Perm.refl _
  main_data_sorted := by simp [Sorted, bar_at]
  indicators := []
  indicator_tickers := by simp
  warmup_before := by simp

/-- Half of the portfolio in each. -/
def half_each : Script where
  children := fun _ => []
  on_data := fun _ => [.target_weight tick_a (some (.fin (1 / 2))) (some (.fin 1)),
    .target_weight tick_b (some (.fin (1 / 2))) (some (.fin 1))]

/-- The executor at the only poll, before its orders. -/
def stale_poll : Executor :=
  before_poll stale_backtest half_each (run_event_loop stale_backtest half_each []).executor 0

/-- `AAPL` is bought at its close of before the run, while its mark is 0; half
    of the portfolio value is gone. -/
theorem stale_close_fill :
    [] ++ [0] <+: loop_timestamps stale_backtest ∧ Costless stale_backtest.cfg ∧
    ((context stale_backtest stale_poll 0).market tick_a).map AssetData.Close = some (.fin 10) ∧
    stale_poll.latest_prices tick_a = 0 ∧
    Fills stale_backtest.cfg (context stale_backtest stale_poll 0) stale_poll
      (.target_weight tick_a (some (.fin (1 / 2))) (some (.fin 1))) ∧
    get_port_notional stale_backtest.cfg stale_poll = 1000 ∧
    get_port_notional stale_backtest.cfg
      (issue stale_backtest.cfg (context stale_backtest stale_poll 0) stale_poll
        (.target_weight tick_a (some (.fin (1 / 2))) (some (.fin 1)))).2 = 500 := by
  refine ⟨by decide +kernel, ⟨rfl, rfl, rfl⟩, by decide +kernel, by decide +kernel, ?_,
    by decide +kernel, by decide +kernel⟩
  unfold Fills
  decide +kernel

/-- `MSFT` is bought at its mark. -/
theorem marked_close_fill :
    get_port_notional stale_backtest.cfg
      (issue stale_backtest.cfg (context stale_backtest stale_poll 0)
        (issue_all stale_backtest.cfg (context stale_backtest stale_poll 0) stale_poll
          [.target_weight tick_a (some (.fin (1 / 2))) (some (.fin 1))])
        (.target_weight tick_b (some (.fin (1 / 2))) (some (.fin 1)))).2 =
    get_port_notional stale_backtest.cfg
      (issue_all stale_backtest.cfg (context stale_backtest stale_poll 0) stale_poll
        [.target_weight tick_a (some (.fin (1 / 2))) (some (.fin 1))]) := by
  have hrun : ([] : List ℤ) ++ [0] <+: loop_timestamps stale_backtest := by decide +kernel
  obtain ⟨_, hnotional⟩ := (fill_price_is_mark stale_backtest half_each hrun).1
    [.target_weight tick_a (some (.fin (1 / 2))) (some (.fin 1))]
    (.target_weight tick_b (some (.fin (1 / 2))) (some (.fin 1))) (List.prefix_refl _)
  refine (hnotional ⟨rfl, rfl, rfl⟩ ?_).mpr ⟨⟨by decide +kernel, ?_⟩, by decide +kernel⟩
  · unfold Fills
    decide +kernel
  · exact ⟨bar_at 0 tick_b (some 10), by decide +kernel, by decide +kernel, by decide +kernel⟩

end Engine
