import BacktestVisualizer.Framework.LTS
import BacktestVisualizer.Framework.PyFloat
import BacktestVisualizer.Framework.Batches
import BacktestVisualizer.Framework.Timeline
import BacktestVisualizer.Framework.DataFrame
import BacktestVisualizer.Framework.Fallible
import BacktestVisualizer.Framework.StableSort
import BacktestVisualizer.Framework.UpperCase
import BacktestVisualizer.Framework.Text
import BacktestVisualizer.Framework.WindowCache
import BacktestVisualizer.Framework.Segments
import BacktestVisualizer.Framework.Storage
import BacktestVisualizer.Framework.PyModule
import BacktestVisualizer.Framework.Programs
import BacktestVisualizer.Framework.PySource
import BacktestVisualizer.Framework.PyRepr
import BacktestVisualizer.Framework.PyTree
import BacktestVisualizer.Framework.SingleFlight
import BacktestVisualizer.Framework.CachedFlight
import BacktestVisualizer.Jobs.JobManager
import BacktestVisualizer.Jobs.CancelExcludesSave
import BacktestVisualizer.Jobs.Settlement
import BacktestVisualizer.Jobs.UploadRecovery
import BacktestVisualizer.Engine.Values
import BacktestVisualizer.Engine.SentimentGate
import BacktestVisualizer.Engine.CostModel
import BacktestVisualizer.Engine.Executor
import BacktestVisualizer.Engine.Ledger
import BacktestVisualizer.Engine.StrategyContext
import BacktestVisualizer.Engine.Margin
import BacktestVisualizer.Engine.OrderPaths
import BacktestVisualizer.Engine.CommissionLimit
import BacktestVisualizer.Engine.SizedFill
import BacktestVisualizer.Engine.OrderSafety
import BacktestVisualizer.Engine.ExplicitTargets
import BacktestVisualizer.Engine.Reissue
import BacktestVisualizer.Engine.Indicators
import BacktestVisualizer.Engine.EventLoop
import BacktestVisualizer.Engine.FillPrice
import BacktestVisualizer.Engine.IndicatorFeed
import BacktestVisualizer.Engine.LookAhead
import BacktestVisualizer.Engine.PointInTime
import BacktestVisualizer.Reporting.TradePairing
import BacktestVisualizer.Reporting.Reconciliation
import BacktestVisualizer.Reporting.LotBook
import BacktestVisualizer.Reporting.TickerBooks
import BacktestVisualizer.Reporting.Benchmark
import BacktestVisualizer.Reporting.DailyEquity
import BacktestVisualizer.Data.HistoryCache
import BacktestVisualizer.Data.DayBars
import BacktestVisualizer.Data.CachePlan
import BacktestVisualizer.Data.CacheFailures
import BacktestVisualizer.Data.CacheRows
import BacktestVisualizer.Data.IntradayBars
import BacktestVisualizer.Data.FmpHistory
import BacktestVisualizer.Jobs.Polling
import BacktestVisualizer.Storage.StrategyStore
import BacktestVisualizer.Storage.Interchangeable
import BacktestVisualizer.Storage.Materialize
import BacktestVisualizer.Storage.PackageWrites
import BacktestVisualizer.Storage.Migration
import BacktestVisualizer.Storage.MigrationRuns
import BacktestVisualizer.Storage.MigrationRerun
import BacktestVisualizer.Uploads.StrategyScan
import BacktestVisualizer.Uploads.Authoring
import BacktestVisualizer.Uploads.Compatibility
import BacktestVisualizer.Reporting.Allocation
import BacktestVisualizer.Jobs.RunControls
import BacktestVisualizer.Jobs.RunOverlay
import BacktestVisualizer.Engine.RegimeAdaptive
import BacktestVisualizer.Engine.RegimeBook
import BacktestVisualizer.Engine.RegimeSizing
import BacktestVisualizer.Engine.VolMomentum
import BacktestVisualizer.Engine.BullishHoldings
import BacktestVisualizer.Accounts.StarterReports
import BacktestVisualizer.Accounts.Onboarding
import BacktestVisualizer.Framework.Weekdays
import BacktestVisualizer.Framework.Tiling
import BacktestVisualizer.Framework.StandardText
import BacktestVisualizer.Data.SymbolLookup
import BacktestVisualizer.Data.HonestLookups
import BacktestVisualizer.Data.IntradaySize
import BacktestVisualizer.Data.RequestWindows
import BacktestVisualizer.Feeds.ArticlePage
import BacktestVisualizer.Feeds.PublicHops
import BacktestVisualizer.Uploads.SubclassSearch
import BacktestVisualizer.Reporting.DailyMetrics
import BacktestVisualizer.Reporting.TechnicalIndicators
import BacktestVisualizer.Reporting.SavedReports
import BacktestVisualizer.Reporting.ReportRoundTrip
import BacktestVisualizer.Reporting.ExampleLabels
import BacktestVisualizer.Framework.RollingWindow
import BacktestVisualizer.Engine.IndicatorValues
import BacktestVisualizer.Engine.IndicatorStreams
import BacktestVisualizer.Engine.IndicatorRelations
import BacktestVisualizer.Engine.IndicatorRuns
import BacktestVisualizer.Reporting.IndicatorAgreement
import BacktestVisualizer.Data.SessionCloses
import BacktestVisualizer.Reporting.MarketContext
import BacktestVisualizer.Framework.Triples
import BacktestVisualizer.Jobs.ReportJob
import BacktestVisualizer.Framework.UniqueIndex
import BacktestVisualizer.Framework.IsoDates
import BacktestVisualizer.Data.Coverage
import BacktestVisualizer.Data.Backfill
import BacktestVisualizer.Jobs.AcceptedRuns
import BacktestVisualizer.Jobs.Submission
import BacktestVisualizer.Jobs.ValidationRuns
import BacktestVisualizer.Framework.Columns
import BacktestVisualizer.Engine.FastMode
import BacktestVisualizer.Engine.FastCausal
import BacktestVisualizer.Engine.FastReplay
import BacktestVisualizer.Engine.FastBounds
import BacktestVisualizer.Framework.Csv
import BacktestVisualizer.Reporting.ReportExports
import BacktestVisualizer.Jobs.RunTable
import BacktestVisualizer.Jobs.RunSafety
import BacktestVisualizer.Jobs.RunVerdicts
