import TradeWatch.Lib.Transducer
import TradeWatch.Lib.OrderStatistics
import TradeWatch.Lib.Empirical
import TradeWatch.Lib.OrderedDict
import TradeWatch.Lib.Buckets
import TradeWatch.Lib.Suffix
import TradeWatch.Lib.Spacing
import TradeWatch.Lib.SlidingWindow
import TradeWatch.Lib.Bounded
import TradeWatch.Lib.PyFloat
import TradeWatch.Lib.Double
import TradeWatch.Lib.Rounding
import TradeWatch.Lib.Returns
import TradeWatch.Lib.Ensures
import TradeWatch.Lib.Limited
import TradeWatch.Lib.Json
import TradeWatch.Lib.JsonText
import TradeWatch.Lib.JsonNesting
import TradeWatch.Lib.JsonTree
import TradeWatch.Lib.JsonPrefix
import TradeWatch.Lib.JsonTorn
import TradeWatch.Lib.TaskGraph
import TradeWatch.Lib.RotatingFile
import TradeWatch.Lib.SqlLogic
import TradeWatch.Lib.Statistics
import TradeWatch.Lib.GroupBy
import TradeWatch.Lib.TextFormat
import TradeWatch.Lib.Split
import TradeWatch.Lib.PyText
import TradeWatch.Models
import TradeWatch.EventTime
import TradeWatch.Config
import TradeWatch.Windows
import TradeWatch.Tape
import TradeWatch.Detectors.Rules
import TradeWatch.Detectors.IsolationForest
import TradeWatch.Detectors.Base
import TradeWatch.Engine
import TradeWatch.Watch
import TradeWatch.Cooldown
import TradeWatch.Accounting
import TradeWatch.Isolation
import TradeWatch.Retraining
import TradeWatch.Symmetry
import TradeWatch.Velocity
import TradeWatch.Recency
import TradeWatch.Eviction
import TradeWatch.PriorMedian
import TradeWatch.Deviation
import TradeWatch.Crosses
import TradeWatch.CrossOrder
import TradeWatch.RuleErrors
import TradeWatch.Ml.Features
import TradeWatch.Ml.OnlineHistory
import TradeWatch.Streaming
import TradeWatch.Guardrails
import TradeWatch.Broadcaster
import TradeWatch.Metrics
import TradeWatch.Series
import TradeWatch.Latency
import TradeWatch.Conservation
import TradeWatch.Prometheus
import TradeWatch.Exposition
import TradeWatch.Api.Security
import TradeWatch.Api.RateLimit
import TradeWatch.Api.App
import TradeWatch.Api.Middleware
import TradeWatch.Api.Admission
import TradeWatch.Api.Wiring
import TradeWatch.Api.Agreement
import TradeWatch.Api.Containment
import TradeWatch.Api.Pump
import TradeWatch.Api.Subscriptions
import TradeWatch.Api.Delivery
import TradeWatch.Wire
import TradeWatch.Sources.Kafka
import TradeWatch.Replay
import TradeWatch.Sources.Simulator
import TradeWatch.Sources.Stream
import TradeWatch.Sources.Calendar
import TradeWatch.Sources.Soundness
import TradeWatch.Evaluate
import TradeWatch.Episodes
import TradeWatch.Hadoop.Mapper
import TradeWatch.Hadoop.Reducer
import TradeWatch.Hadoop.Framing
import TradeWatch.Hadoop.Validation
import TradeWatch.Spark.DetectionSql
import TradeWatch.Spark.StreamingJob
import TradeWatch.Warehouse.LoadSnowflake
import TradeWatch.Hadoop.Groups
import TradeWatch.Hadoop.MapReduce
import TradeWatch.Hadoop.OnlineZscore
import TradeWatch.Platform.BatchRunner
import TradeWatch.Platform.Health
import TradeWatch.Platform.Heartbeat
import TradeWatch.Airflow.TradewatchEtl
import TradeWatch.Sinks.JsonlFile
import TradeWatch.Api.AuditTrail
import TradeWatch.Observability
import TradeWatch.Interruption
import TradeWatch.Partitions
import TradeWatch.Simulate
import TradeWatch.Ml.Train
import TradeWatch.Spark.BatchBacktest
import TradeWatch.Api.Clients
import TradeWatch.Restart
import TradeWatch.Sources.Symbols
import TradeWatch.Injected
import TradeWatch.Bursts
import TradeWatch.Sources.KafkaProducer
import TradeWatch.Platform.History
import TradeWatch.Platform.BatchLoop
import TradeWatch.Api.Footprint
import TradeWatch.Scrape
