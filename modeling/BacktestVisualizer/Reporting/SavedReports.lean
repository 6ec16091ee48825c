import BacktestVisualizer.Framework.Fallible
import BacktestVisualizer.Framework.StandardText
import BacktestVisualizer.Jobs.RunControls

/-! # Saved Reports

  `repositories/reports.py`, with the response models of
  `schemas/backtests.py`: a completed backtest is stored as one row, whose
  document leaves out what the columns or the table itself say, and is read
  back into the model it came from. Examples are disclosed on the way out.
-/

namespace SavedReports

open RunControls

/-- The entries of a JSON object, in their order. -/
abbrev Pairs := List (String × Value)

/-! ### Dictionaries -/

/-- `pairs[key] = value`: in its place, or at the end. -/
def set_item (key : String) (value : Value) : Pairs → Pairs
  | [] => [(key, value)]
  | (k, v) :: pairs => if k = key then (key, value) :: pairs else (k, v) :: set_item key value pairs

/-- `{**pairs, **overrides}`. -/
def update (pairs overrides : Pairs) : Pairs :=
  overrides.foldl (fun pairs pair => set_item pair.1 pair.2 pairs) pairs

mutual

/-- `json.dumps(value, allow_nan=False)` has a text for it. -/
def compliant : Value → Bool
  | .float x => x.is_finite
  | .list items => compliant_items items
  | .dict pairs => compliant_pairs pairs
  | _ => true

def compliant_items : List Value → Bool
  | [] => true
  | v :: items => compliant v && compliant_items items

def compliant_pairs : List (String × Value) → Bool
  | [] => true
  | (_, v) :: pairs => compliant v && compliant_pairs pairs

end

/-! ### The response models -/

structure EquityPoint where
  date : String
  equity : PyFloat
  benchmark : Option PyFloat

inductive Side where
  | long
  | short
  deriving DecidableEq

structure Trade where
  id : String
  symbol : String
  side : Side
  entry_date : String
  exit_date : Option String
  entry_price : PyFloat
  exit_price : Option PyFloat
  quantity : PyFloat
  pnl : PyFloat
  return_pct : PyFloat
  fees : PyFloat

structure PerformanceMetrics where
  total_return : PyFloat
  cagr : PyFloat
  sharpe : PyFloat
  sortino : PyFloat
  max_drawdown : PyFloat
  volatility : PyFloat
  win_rate : PyFloat
  profit_factor : PyFloat
  total_trades : ℤ
  unavailable : List (String × String)

inductive BacktestStatus where
  | queued
  | running
  | completed
  | failed
  deriving DecidableEq

structure BacktestSummary where
  id : String
  name : String
  strategy_id : String
  strategy_name : String
  symbol : String
  timeframe : String
  status : BacktestStatus
  start_date : String
  end_date : String
  created_at : String
  initial_capital : PyFloat
  final_equity : PyFloat
  total_return : PyFloat
  sharpe : PyFloat
  max_drawdown : PyFloat

structure BacktestDetail extends BacktestSummary where
  metrics : PerformanceMetrics
  equity_curve : List EquityPoint
  trades : List Trade
  parameters : Pairs
  progress_pct : Option ℤ
  error_message : Option String
  report_metadata : Pairs
  open_positions : List Pairs

/-! ### `model_dump(mode="json", by_alias=True)` -/

/-- A field that may be `None`. -/
def dump_optional {α : Type} (dump : α → Value) : Option α → Value
  | none => .null
  | some a => dump a

def EquityPoint.dump (p : EquityPoint) : Value :=
  .dict [("date", .str p.date), ("equity", .float p.equity),
    ("benchmark", dump_optional .float p.benchmark)]

def Side.dump : Side → Value
  | .long => .str "long"
  | .short => .str "short"

def Trade.dump (t : Trade) : Value :=
  .dict [("id", .str t.id), ("symbol", .str t.symbol), ("side", t.side.dump),
    ("entryDate", .str t.entry_date), ("exitDate", dump_optional .str t.exit_date),
    ("entryPrice", .float t.entry_price), ("exitPrice", dump_optional .float t.exit_price),
    ("quantity", .float t.quantity), ("pnl", .float t.pnl), ("returnPct", .float t.return_pct),
    ("fees", .float t.fees)]

def PerformanceMetrics.dump (m : PerformanceMetrics) : Value :=
  .dict [("totalReturn", .float m.total_return), ("cagr", .float m.cagr),
    ("sharpe", .float m.sharpe), ("sortino", .float m.sortino),
    ("maxDrawdown", .float m.max_drawdown), ("volatility", .float m.volatility),
    ("winRate", .float m.win_rate), ("profitFactor", .float m.profit_factor),
    ("totalTrades", .int m.total_trades),
    ("unavailable", .dict (m.unavailable.map (fun pair => (pair.1, .str pair.2))))]

/-- The dump of a detail, with `status`, `progress_pct` and `error_message`
    excluded. -/
def BacktestDetail.dump (d : BacktestDetail) : Pairs :=
  [("id", .str d.id), ("name", .str d.name), ("strategyId", .str d.strategy_id),
    ("strategyName", .str d.strategy_name), ("symbol", .str d.symbol),
    ("timeframe", .str d.timeframe), ("startDate", .str d.start_date),
    ("endDate", .str d.end_date), ("createdAt", .str d.created_at),
    ("initialCapital", .float d.initial_capital), ("finalEquity", .float d.final_equity),
    ("totalReturn", .float d.total_return), ("sharpe", .float d.sharpe),
    ("maxDrawdown", .float d.max_drawdown), ("metrics", d.metrics.dump),
    ("equityCurve", .list (d.equity_curve.map EquityPoint.dump)),
    ("trades", .list (d.trades.map Trade.dump)), ("parameters", .dict d.parameters),
    ("reportMetadata", .dict d.report_metadata),
    ("openPositions", .list (d.open_positions.map .dict))]

/-! ### The row -/

/-- `REPORT_VERSION`. -/
def report_version : ℤ := 1

/-- A document that the table takes: JSON, and without a status
    (`ck_report_document`). -/
structure Document where
  pairs : Pairs
  compliant : compliant_pairs pairs = true
  stateless : item pairs "status" = none

/-- A row of `backtest_reports`. -/
structure BacktestReport where
  id : UUID
  owner_id : UUID
  created_at : DateTime
  strategy_key : String
  name : String
  version : ℤ
  results : Document

/-- What saving raises; all are `ValueError`s. -/
inductive SaveError where
  | not_successful
  | no_observations
  | not_compliant
  | bad_id
  | bad_created_at (text : String)
  deriving DecidableEq, Repr

/-- `str(exc)`. -/
def SaveError.message : SaveError → String
  | .not_successful => "Only successful backtests can be saved."
  | .no_observations => "A completed report must contain equity observations."
  | .not_compliant => "Out of range float values are not JSON compliant"
  | .bad_id => "badly formed hexadecimal UUID string"
  | .bad_created_at text => "Invalid isoformat string: '" ++ text ++ "'"

/-- `document(detail)`. -/
def document (d : BacktestDetail) : Except SaveError Document :=
  if d.status ≠ .completed then .error .not_successful
  else if d.equity_curve.isEmpty then .error .no_observations
  else if h : compliant_pairs d.dump = true then .ok ⟨d.dump, h, by rfl⟩
  else .error .not_compliant

/-- `created_at.replace("Z", "+00:00")`. -/
def with_offset (created_at : String) : List Char :=
  Text.replace ['Z'] "+00:00".toList created_at.toList

/-- `created_at.isoformat().replace("+00:00", "Z")`. -/
def created_at_text (t : DateTime) : String :=
  String.ofList (Text.replace "+00:00".toList ['Z'] t.isoformat)

/-- `uuid.UUID(detail.id)`. -/
def parse_id (id : String) : Except SaveError UUID :=
  match UUID.parse id.toList with
  | some u => .ok u
  | none => .error .bad_id

/-- `datetime.fromisoformat(detail.created_at.replace("Z", "+00:00"))`. -/
def parse_created_at (created_at : String) : Except SaveError DateTime :=
  match DateTime.fromisoformat (with_offset created_at) with
  | some t => .ok t
  | none => .error (.bad_created_at (String.ofList (with_offset created_at)))

/-- `_record_values(owner_id, detail)`. -/
def record_values (owner_id : UUID) (d : BacktestDetail) : Except SaveError BacktestReport := do
  let id ← parse_id d.id
  let created_at ← parse_created_at d.created_at
  let results ← document d
  .ok { id := id, owner_id := owner_id, created_at := created_at, strategy_key := d.strategy_id
        name := d.name, version := report_version, results := results }

/-! ### Examples -/

/-- `EXAMPLE_WARNING`. -/
def example_warning : String :=
  "Simulated onboarding example. Prices, trades, and returns are generated illustrations; " ++
    "no FMP market data was fetched and no backtest engine was executed. " ++
    "Excluded from real backtest history and performance totals."

/-- `example_name(strategy_name)`. -/
def example_name (strategy_name : String) : String := "Example: " ++ strategy_name ++ " (simulated)"

/-- `value == text`. -/
def is_str (text : String) : Option Value → Bool
  | some (.str s) => s = text
  | _ => false

/-- `value is True`. -/
def is_true : Option Value → Bool
  | some (.bool b) => b
  | _ => false

/-- A dictionary that has such a value at a key. -/
def dict_has (key : String) (p : Option Value → Bool) : Option Value → Bool
  | some (.dict pairs) => p (item pairs key)
  | _ => false

/-- `_is_example_metadata(metadata)`. -/
def is_example_metadata (metadata : Pairs) : Bool :=
  is_str "example" (item metadata "purpose") ||
    dict_has "generated" is_true (item metadata "starterExample") ||
    dict_has "source" (is_str "bundled_starter_example") (item metadata "marketData")

/-- `starter if isinstance(starter, dict) else {}`. -/
def entries_of : Option Value → Pairs
  | some (.dict pairs) => pairs
  | _ => []

/-- What `to_detail` shows under `starterExample`. -/
def disclosed_starter (starter : Option Value) : Pairs :=
  update (entries_of starter) [("generated", .bool true), ("deletable", .bool true),
    ("message", .str example_warning)]

/-- The metadata of an example, as `to_detail` shows it. -/
def disclose (metadata : Pairs) : Pairs :=
  let metadata := set_item "purpose" (.str "example") metadata
  set_item "starterExample" (.dict (disclosed_starter (item metadata "starterExample"))) metadata

/-! ### `model_validate` -/

/-- What reading raises. -/
inductive ReadError where
  | unsupported_version (version : ℤ)
  | metadata_shape
  | no_strategy_name
  | validation
  deriving DecidableEq, Repr

/-- `str(exc)` of what the module raises itself. -/
def ReadError.message : ReadError → Option String
  | .unsupported_version version => some ("Unsupported saved report version: " ++ toString version)
  | _ => none

/-- The numbers that pydantic takes from text. -/
structure Lax where
  float_of : String → Option PyFloat
  int_of : String → Option ℤ

/-- A field by its alias or, failing that, by its name. -/
def field (pairs : Pairs) (alias_ name : String) : Option Value :=
  (item pairs alias_).or (item pairs name)

/-- A field that must be there. -/
def required {α : Type} (read : Value → Except ReadError α) (pairs : Pairs)
    (alias_ name : String) : Except ReadError α :=
  match field pairs alias_ name with
  | some v => read v
  | none => .error .validation

/-- A field with a default. -/
def defaulted {α : Type} (read : Value → Except ReadError α) (default : α) (pairs : Pairs)
    (alias_ name : String) : Except ReadError α :=
  match field pairs alias_ name with
  | some v => read v
  | none => .ok default

def of_option {α : Type} : Option α → Except ReadError α
  | some a => .ok a
  | none => .error .validation

def read_str : Value → Except ReadError String
  | .str s => .ok s
  | _ => .error .validation

def read_float (lax : Lax) : Value → Except ReadError PyFloat
  | .float x => .ok x
  | .int n => if overflows n then .error .validation else .ok (.fin n)
  | .bool b => .ok (.fin (if b then 1 else 0))
  | .str s => of_option (lax.float_of s)
  | _ => .error .validation

def read_int (lax : Lax) : Value → Except ReadError ℤ
  | .int n => .ok n
  | .float (.fin q) => if q.den = 1 then .ok q.num else .error .validation
  | .bool b => .ok (if b then 1 else 0)
  | .str s => of_option (lax.int_of s)
  | _ => .error .validation

def read_optional {α : Type} (read : Value → Except ReadError α) :
    Value → Except ReadError (Option α)
  | .null => .ok none
  | v => (read v).map some

def read_list {α : Type} (read : Value → Except ReadError α) : Value → Except ReadError (List α)
  | .list items => items.mapM read
  | _ => .error .validation

def read_dict : Value → Except ReadError Pairs
  | .dict pairs => .ok pairs
  | _ => .error .validation

/-- `dict[str, str]`. -/
def read_texts (v : Value) : Except ReadError (List (String × String)) := do
  let pairs ← read_dict v
  pairs.mapM (fun pair => (read_str pair.2).map (fun s => (pair.1, s)))

def read_side : Value → Except ReadError Side
  | .str s =>
      if s = "long" then .ok .long else if s = "short" then .ok .short else .error .validation
  | _ => .error .validation

def read_status : Value → Except ReadError BacktestStatus
  | .str s =>
      if s = "queued" then .ok .queued
      else if s = "running" then .ok .running
      else if s = "completed" then .ok .completed
      else if s = "failed" then .ok .failed
      else .error .validation
  | _ => .error .validation

variable (lax : Lax)

def read_point (v : Value) : Except ReadError EquityPoint := do
  let pairs ← read_dict v
  let date ← required read_str pairs "date" "date"
  let equity ← required (read_float lax) pairs "equity" "equity"
  let benchmark ← defaulted (read_optional (read_float lax)) none pairs "benchmark" "benchmark"
  .ok ⟨date, equity, benchmark⟩

def read_trade (v : Value) : Except ReadError Trade := do
  let pairs ← read_dict v
  let id ← required read_str pairs "id" "id"
  let symbol ← required read_str pairs "symbol" "symbol"
  let side ← required read_side pairs "side" "side"
  let entry_date ← required read_str pairs "entryDate" "entry_date"
  let exit_date ← required (read_optional read_str) pairs "exitDate" "exit_date"
  let entry_price ← required (read_float lax) pairs "entryPrice" "entry_price"
  let exit_price ← required (read_optional (read_float lax)) pairs "exitPrice" "exit_price"
  let quantity ← required (read_float lax) pairs "quantity" "quantity"
  let pnl ← required (read_float lax) pairs "pnl" "pnl"
  let return_pct ← required (read_float lax) pairs "returnPct" "return_pct"
  let fees ← defaulted (read_float lax) (.fin 0) pairs "fees" "fees"
  .ok ⟨id, symbol, side, entry_date, exit_date, entry_price, exit_price, quantity, pnl, return_pct,
    fees⟩

def read_metrics (v : Value) : Except ReadError PerformanceMetrics := do
  let pairs ← read_dict v
  let total_return ← required (read_float lax) pairs "totalReturn" "total_return"
  let cagr ← required (read_float lax) pairs "cagr" "cagr"
  let sharpe ← required (read_float lax) pairs "sharpe" "sharpe"
  let sortino ← required (read_float lax) pairs "sortino" "sortino"
  let max_drawdown ← required (read_float lax) pairs "maxDrawdown" "max_drawdown"
  let volatility ← required (read_float lax) pairs "volatility" "volatility"
  let win_rate ← required (read_float lax) pairs "winRate" "win_rate"
  let profit_factor ← required (read_float lax) pairs "profitFactor" "profit_factor"
  let total_trades ← required (read_int lax) pairs "totalTrades" "total_trades"
  let unavailable ← defaulted read_texts [] pairs "unavailable" "unavailable"
  .ok ⟨total_return, cagr, sharpe, sortino, max_drawdown, volatility, win_rate, profit_factor,
    total_trades, unavailable⟩

/-- `BacktestSummary.model_validate(pairs)`. -/
def read_summary (pairs : Pairs) : Except ReadError BacktestSummary := do
  let id ← required read_str pairs "id" "id"
  let name ← required read_str pairs "name" "name"
  let strategy_id ← required read_str pairs "strategyId" "strategy_id"
  let strategy_name ← required read_str pairs "strategyName" "strategy_name"
  let symbol ← required read_str pairs "symbol" "symbol"
  let timeframe ← required read_str pairs "timeframe" "timeframe"
  let status ← required read_status pairs "status" "status"
  let start_date ← required read_str pairs "startDate" "start_date"
  let end_date ← required read_str pairs "endDate" "end_date"
  let created_at ← required read_str pairs "createdAt" "created_at"
  let initial_capital ← required (read_float lax) pairs "initialCapital" "initial_capital"
  let final_equity ← required (read_float lax) pairs "finalEquity" "final_equity"
  let total_return ← required (read_float lax) pairs "totalReturn" "total_return"
  let sharpe ← required (read_float lax) pairs "sharpe" "sharpe"
  let max_drawdown ← required (read_float lax) pairs "maxDrawdown" "max_drawdown"
  .ok ⟨id, name, strategy_id, strategy_name, symbol, timeframe, status, start_date, end_date,
    created_at, initial_capital, final_equity, total_return, sharpe, max_drawdown⟩

/-- `BacktestDetail.model_validate(pairs)`. -/
def read_detail (pairs : Pairs) : Except ReadError BacktestDetail := do
  let summary ← read_summary lax pairs
  let metrics ← required (read_metrics lax) pairs "metrics" "metrics"
  let equity_curve ← required (read_list (read_point lax)) pairs "equityCurve" "equity_curve"
  let trades ← required (read_list (read_trade lax)) pairs "trades" "trades"
  let parameters ← defaulted read_dict [] pairs "parameters" "parameters"
  let progress_pct ←
    defaulted (read_optional (read_int lax)) none pairs "progressPct" "progress_pct"
  let error_message ← defaulted (read_optional read_str) none pairs "errorMessage" "error_message"
  let report_metadata ← defaulted read_dict [] pairs "reportMetadata" "report_metadata"
  let open_positions ←
    defaulted (read_list read_dict) [] pairs "openPositions" "open_positions"
  .ok ⟨summary, metrics, equity_curve, trades, parameters, progress_pct, error_message,
    report_metadata, open_positions⟩

/-! ### Reading a row -/

/-- `f"{value}"`; `repr` writes what is no text. -/
def format (repr : Value → String) : Value → String
  | .str s => s
  | v => repr v

/-- `dict(results.get("reportMetadata") or {})`. -/
def metadata_of (results : Pairs) : Except ReadError Pairs :=
  match item results "reportMetadata" with
  | none => .ok []
  | some v =>
      if v.truthy then
        match v with
        | .dict pairs => .ok pairs
        | _ => .error .metadata_shape
      else .ok []

variable (repr : Value → String)

/-- The name that `to_detail` shows. -/
def detail_name (report : BacktestReport) (metadata : Pairs) : Except ReadError String :=
  if is_example_metadata metadata then
    match item report.results.pairs "strategyName" with
    | some v => .ok (example_name (format repr v))
    | none => .error .no_strategy_name
  else .ok report.name

/-- The metadata that `to_detail` shows. -/
def detail_metadata (metadata : Pairs) : Pairs :=
  if is_example_metadata metadata then disclose metadata else metadata

/-- `to_detail(report)`. -/
def to_detail (report : BacktestReport) : Except ReadError BacktestDetail := do
  if report.version ≠ report_version then .error (.unsupported_version report.version)
  let metadata ← metadata_of report.results.pairs
  let name ← detail_name repr report metadata
  read_detail lax (update report.results.pairs
    [("id", .str (String.ofList report.id.text)), ("name", .str name),
      ("reportMetadata", .dict (detail_metadata metadata)),
      ("strategyId", .str report.strategy_key),
      ("createdAt", .str (created_at_text report.created_at)),
      ("status", .str "completed"), ("progressPct", .int 100), ("errorMessage", .null)])

end SavedReports
