import OptionsData.Kit.Run
import OptionsData.Kit.Decimal
import OptionsData.Kit.Dict
import OptionsData.Kit.Ohlc
import OptionsData.Kit.Ordered
import OptionsData.Kit.Paging
import OptionsData.Kit.Grouping
import OptionsData.Kit.Sweep
import OptionsData.Kit.Zone
import OptionsData.Kit.Stepping
import OptionsData.Kit.Runs
import OptionsData.Kit.ReadCommitted
import OptionsData.Kit.Versions
import OptionsData.Kit.Bisection
import OptionsData.Kit.WeightedMean
import OptionsData.Kit.Rollup
import OptionsData.Kit.StandardNormal
import OptionsData.Kit.BlackFormula
import OptionsData.Db.Models
import OptionsData.Db.Upsert
import OptionsData.Sources.AsyncUtils
import OptionsData.Sources.CollectEvents
import OptionsData.Sources.StopCauses
import OptionsData.Sources.WithTimeout
import OptionsData.Sources.EventQueue
import OptionsData.Sources.CandleSubscriptions
import OptionsData.Sources.TastyTradeSource
import OptionsData.Sources.StreamerLocks
import OptionsData.Sources.Reconnect
import OptionsData.Sources.LateReport
import OptionsData.Sources.DeadConnection
import OptionsData.Sources.SequentialCalls
import OptionsData.Sources.WireSubscriptions
import OptionsData.Sources.Connections
import OptionsData.Ingestion.BarAggregator
import OptionsData.Ingestion.AggregatorCalls
import OptionsData.Ingestion.FailedFlushes
import OptionsData.Ingestion.QuotePairs
import OptionsData.Ingestion.NanPrices
import OptionsData.Ingestion.ContractManager
import OptionsData.Ingestion.ContractHistories
import OptionsData.Ingestion.Subscriptions
import OptionsData.Ingestion.Pipeline
import OptionsData.Ingestion.PipelineBars
import OptionsData.Ingestion.OptionBuckets
import OptionsData.Ingestion.LiveRows
import OptionsData.Ingestion.OptionBars
import OptionsData.Ingestion.LivePrices
import OptionsData.Ingestion.Shutdown
import OptionsData.Ingestion.TradeAggregator
import OptionsData.Ingestion.TradeMinutes
import OptionsData.Ingestion.TradePoller
import OptionsData.Ingestion.FailedPoll
import OptionsData.Ingestion.TradeStream
import OptionsData.Ingestion.CandleWriter
import OptionsData.Ingestion.BackfillPass
import OptionsData.Sources.CandleRequests
import OptionsData.Ingestion.BackfillTasks
import OptionsData.Ingestion.ConcurrentBackfill
import OptionsData.Ingestion.BackfillJob
import OptionsData.Ingestion.BackfillRuns
import OptionsData.Ingestion.CandlePolls
import OptionsData.Ingestion.CatchUp
import OptionsData.Ingestion.GapDetection
import OptionsData.Ingestion.GapReconcile
import OptionsData.Ingestion.MissingMinutes
import OptionsData.Ingestion.MaximalGaps
import OptionsData.Ingestion.LiveOptions
import OptionsData.Ingestion.ContractRows
import OptionsData.Ingestion.PolledContracts
import OptionsData.Ingestion.Scheduler
import OptionsData.Ingestion.NextRun
import OptionsData.Ingestion.OverlappingWriters
import OptionsData.Ingestion.PollLoop
import OptionsData.Greeks.BlackScholes
import OptionsData.Greeks.ImpliedVolatility
import OptionsData.Greeks.PutCallParity
import OptionsData.Greeks.Sensitivities
import OptionsData.Greeks.RealVolatility
import OptionsData.Greeks.PriceBounds
import OptionsData.Greeks.BackfillJob
import OptionsData.Greeks.Batches
import OptionsData.Greeks.FullRun
import OptionsData.Greeks.NightlyRuns
import OptionsData.Db.KeySelects
import OptionsData.Greeks.CappedRuns
import OptionsData.Db.BarWriters
import OptionsData.Ingestion.LockedWriters
import OptionsData.Ingestion.UnderlyingCloses
import OptionsData.Db.Aggregations
import OptionsData.Api.Routes
import OptionsData.Api.Pages
import OptionsData.Api.CoarseBars
import OptionsData.Db.VolumeWeighted
import OptionsData.Db.Rollups
import OptionsData.Api.ServedBars
import OptionsData.Api.Gaps
import OptionsData.Api.ReconciledGaps
