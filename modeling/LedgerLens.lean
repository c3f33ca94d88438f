import LedgerLens.Library.Runs
import LedgerLens.Library.Interleaving
import LedgerLens.Library.UniqueTable
import LedgerLens.Library.TwoWayIndex
import LedgerLens.Library.FileTree
import LedgerLens.Library.UnionFind
import LedgerLens.Library.Interpolation
import LedgerLens.Library.Sha256
import LedgerLens.Library.Raising
import LedgerLens.Library.Checks
import LedgerLens.Library.Json
import LedgerLens.Library.LineFile
import LedgerLens.Library.SetDict
import LedgerLens.Library.CursorPages
import LedgerLens.Library.Mutex
import LedgerLens.Library.Broadcasting
import LedgerLens.Library.BatchLedger
import LedgerLens.Library.BestFirstSearch
import LedgerLens.Library.Quantile
import LedgerLens.Library.TrimmedMean
import LedgerLens.Library.OrderStatistics
import LedgerLens.Library.HashTree
import LedgerLens.Library.LargestEntries
import LedgerLens.Library.ExpiringRows
import LedgerLens.Library.PowerIteration
import LedgerLens.Library.StackSearch
import LedgerLens.Library.PyJson
import LedgerLens.ExactlyOnce.Basic
import LedgerLens.ExactlyOnce.SqlBackend
import LedgerLens.ExactlyOnce.SqlRace
import LedgerLens.ExactlyOnce.SqlHistory
import LedgerLens.ExactlyOnce.RedisBackend
import LedgerLens.ExactlyOnce.RedisStore
import LedgerLens.Ingestion.SeenEventCache
import LedgerLens.Ingestion.CanonicalTradeKey
import LedgerLens.Ingestion.CrossSourceDedup
import LedgerLens.Ingestion.BatchProcessor
import LedgerLens.Ingestion.BatchResume
import LedgerLens.Ingestion.WatermarkTracker
import LedgerLens.Ingestion.WatermarkLock
import LedgerLens.Ingestion.WatermarkRuns
import LedgerLens.Utils.CircuitBreaker
import LedgerLens.Utils.BreakerRuns
import LedgerLens.Utils.PipelineCheckpoint
import LedgerLens.Utils.PipelineProgress
import LedgerLens.Ingestion.TradeBackfill
import LedgerLens.Ingestion.BackfillRuns
import LedgerLens.Ingestion.PaymentPaths
import LedgerLens.Ingestion.PaymentWalks
import LedgerLens.Ingestion.PaymentTraces
import LedgerLens.Ingestion.PathFlowMerge
import LedgerLens.Utils.Checkpointing
import LedgerLens.Utils.CheckpointContents
import LedgerLens.Utils.WorkflowIsolation
import LedgerLens.Utils.WorkflowRuns
import LedgerLens.Utils.IdempotencyLedger
import LedgerLens.Utils.IdempotencyRace
import LedgerLens.Utils.IdempotentReplay
import LedgerLens.Streaming.KafkaWorker
import LedgerLens.Streaming.OffsetCommits
import LedgerLens.Streaming.BackPressure
import LedgerLens.Streaming.DeadLetterStore
import LedgerLens.Streaming.DeadLetters
import LedgerLens.Streaming.AlertLedger
import LedgerLens.Streaming.AlertDispatcher
import LedgerLens.Streaming.AlertCrashes
import LedgerLens.Streaming.AlertDrops
import LedgerLens.Streaming.FeatureBuffer
import LedgerLens.Streaming.FeatureRedelivery
import LedgerLens.Streaming.FeatureMaps
import LedgerLens.Streaming.WsAuth
import LedgerLens.Streaming.PubSubRouter
import LedgerLens.Streaming.WsServer
import LedgerLens.Streaming.WsPermissions
import LedgerLens.Streaming.WsFanOut
import LedgerLens.Streaming.WsSessions
import LedgerLens.Pipeline.CheckpointStore
import LedgerLens.Pipeline.Recovery
import LedgerLens.Pipeline.RecoveryGate
import LedgerLens.Pipeline.ResumePoint
import LedgerLens.Pipeline.CheckpointResults
import LedgerLens.Pipeline.RowExpiry
import LedgerLens.Pipeline.IdempotentUpsert
import LedgerLens.Federated.SecretSharing
import LedgerLens.Federated.CertAuthority
import LedgerLens.Federated.CertRevocation
import LedgerLens.Federated.AuditTrail
import LedgerLens.Federated.Krum
import LedgerLens.Federated.RoundState
import LedgerLens.Federated.PairwiseMasks
import LedgerLens.Federated.MaskedDeltas
import LedgerLens.Federated.LosslessRounds
import LedgerLens.Federated.AsyncCoordinator
import LedgerLens.Federated.RoundAccounting
import LedgerLens.Federated.AsyncAccounting
import LedgerLens.Federated.UnanimousUpdates
import LedgerLens.Federated.SecureAggregation
import LedgerLens.Federated.KrumMinority
import LedgerLens.Federated.GradientCompression
import LedgerLens.Audit.MerkleChain
import LedgerLens.Audit.FailedAppend
import LedgerLens.Audit.RootCommitment
import LedgerLens.Audit.Tampering
import LedgerLens.Audit.MerkleBinding
import LedgerLens.Integrations.SorobanEventListener
import LedgerLens.Integrations.SorobanListenerRuns
import LedgerLens.Integrations.ReorgProcessor
import LedgerLens.Integrations.ScoreOracleListener
import LedgerLens.Integrations.ScoreOracleRuns
import LedgerLens.Integrations.MultisigProposals
import LedgerLens.Integrations.GovernanceContract
import LedgerLens.Integrations.GovernanceContractRuns
import LedgerLens.Integrations.EmergencyPauseContract
import LedgerLens.Integrations.EmergencyPauseRuns
import LedgerLens.Integrations.Keccak256
import LedgerLens.Integrations.BridgeAttestation
import LedgerLens.Integrations.VaaLayout
import LedgerLens.Detection.WormholePayload
import LedgerLens.Detection.EnsembleVote
import LedgerLens.Detection.ListOverride
import LedgerLens.Detection.FeatureCache
import LedgerLens.Detection.CacheInvalidation
import LedgerLens.Detection.FailedEvictions
import LedgerLens.Detection.ModelArtifact
import LedgerLens.Detection.VerifierBinding
import LedgerLens.Detection.ArtifactRegistry
import LedgerLens.Detection.ArtifactLifecycle
import LedgerLens.Detection.ArtifactHistory
import LedgerLens.Detection.FailedPromotion
import LedgerLens.Detection.PromotionGates
import LedgerLens.Detection.Publications
import LedgerLens.Detection.Governance
import LedgerLens.Detection.Promotion
import LedgerLens.Detection.CriticalSection
import LedgerLens.Detection.PromotionAudit
import LedgerLens.Detection.Rollback
import LedgerLens.Detection.GovernanceEffects
import LedgerLens.Detection.RollbackHistory
import LedgerLens.Detection.GraphPartition
import LedgerLens.Detection.ShardBookkeeping
import LedgerLens.Detection.ShardComponents
import LedgerLens.Detection.LabelClasses
import LedgerLens.Detection.PartitionedComponents
import LedgerLens.Detection.IdentityGraph
import LedgerLens.Detection.StrongestLinks
import LedgerLens.Detection.ConnectedComponent
import LedgerLens.Detection.RiskPropagation
import LedgerLens.Detection.PagerankMass
import LedgerLens.Detection.WeightedPropagation
import LedgerLens.Detection.RiskScorer
import LedgerLens.Detection.BatchScores
import LedgerLens.Detection.ConformalCalibrator
import LedgerLens.Detection.PredictionSet
import LedgerLens.Detection.SlidingWindowBenford
import LedgerLens.Detection.WindowCounts
import LedgerLens.Detection.PrivacyBudget
import LedgerLens.Detection.GovernanceAuditTrail
import LedgerLens.Data.Partitioning
import LedgerLens.Data.PartitionKeys
import LedgerLens.Data.DatasetFiles
import LedgerLens.Data.DatasetInvariant
import LedgerLens.Data.DatasetRuns
import LedgerLens.Library.SuffixSums
import LedgerLens.Monitoring.CusumDetector
import LedgerLens.Monitoring.CusumAlarms
import LedgerLens.Monitoring.EmergencyWatchdog
import LedgerLens.Detection.ScoreIntervals
import LedgerLens.Integrations.BenfordProof
import LedgerLens.Library.PositionalNotation
import LedgerLens.Detection.Base58
import LedgerLens.Detection.Ed25519Curve
import LedgerLens.Detection.ProgramAddress
import LedgerLens.Detection.RegressionCoverage
import LedgerLens.Detection.AnnotationIntegrity
import LedgerLens.Detection.AnnotationUniqueness
import LedgerLens.Integrations.EventIdentity
import LedgerLens.Library.FScore
import LedgerLens.Detection.ThresholdTuner
import LedgerLens.Library.Smoothing
import LedgerLens.Detection.DynamicWeights
import LedgerLens.Library.TokenBucket
import LedgerLens.Ingestion.TokenBucketLimiter
import LedgerLens.Library.SortedSet
import LedgerLens.Detection.ScoreNormaliser
import LedgerLens.Data.PartitionFilters
import LedgerLens.Library.DecimalArithmetic
import LedgerLens.Utils.Stroops
import LedgerLens.Library.DecimalText
import LedgerLens.Utils.BenfordDigits
import LedgerLens.Library.ClosedWalks
import LedgerLens.Detection.MotifCensus
import LedgerLens.Ingestion.ParallelOutcome
import LedgerLens.Ingestion.PartitionedExecutor
