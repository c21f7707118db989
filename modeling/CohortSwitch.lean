import CohortSwitch.Python
import CohortSwitch.Rearrangement
import CohortSwitch.Operators
import CohortSwitch.Hashing
import CohortSwitch.Models
import CohortSwitch.Engine
import CohortSwitch.Schemas
import CohortSwitch.Rearranged
import CohortSwitch.Flags
import CohortSwitch.RowOrder
import CohortSwitch.RoundTrip
import CohortSwitch.Transactions
import CohortSwitch.Database
import CohortSwitch.Access
import CohortSwitch.FlagTransactions
import CohortSwitch.Scheduler
import CohortSwitch.Service
import CohortSwitch.ChildRows
import CohortSwitch.Effects
import CohortSwitch.Programs
import CohortSwitch.Endpoints
import CohortSwitch.Batches
import CohortSwitch.Commits
import CohortSwitch.VersionHistory
import CohortSwitch.LinearHistory
import CohortSwitch.Revisions
import CohortSwitch.AtomicRead
import CohortSwitch.Rollback
import CohortSwitch.RuleSemantics
import CohortSwitch.RolloutGrowth
import CohortSwitch.Auth
import CohortSwitch.Chains
import CohortSwitch.TokenEffects
import CohortSwitch.TokenFamilies
import CohortSwitch.TokenReuse
import CohortSwitch.Listings
import CohortSwitch.CacheAside
import CohortSwitch.Staleness
import CohortSwitch.Cache
import CohortSwitch.Freshness
import CohortSwitch.Followed
import CohortSwitch.Footprint
import CohortSwitch.Runs
import CohortSwitch.TableWrites
import CohortSwitch.Evaluation
import CohortSwitch.KeyScopes
import CohortSwitch.ScheduledOnce
import CohortSwitch.ScheduleOrder
import CohortSwitch.AddRule
import CohortSwitch.Export
import CohortSwitch.Shares
import CohortSwitch.InputInverse
import CohortSwitch.BuildOutcome
import CohortSwitch.OperatorErrors
import CohortSwitch.Dictionaries
import CohortSwitch.Texts
import CohortSwitch.LocalLimiter
import CohortSwitch.SharedLimit
import CohortSwitch.JsonText
import CohortSwitch.SdkClient
import CohortSwitch.ManagementReads
import CohortSwitch.Refusals
import CohortSwitch.SdkKeys
import CohortSwitch.PublishedRevisions
import CohortSwitch.ArchivedFlags
import CohortSwitch.SoloRuns
import CohortSwitch.ChangeMeaning
import CohortSwitch.BatchRounds
import CohortSwitch.BatchConstraints
import CohortSwitch.BatchOutcome
import CohortSwitch.HashTuples
import CohortSwitch.ProgressiveGrowth
import CohortSwitch.NumericOrder
import CohortSwitch.LimiterMemory
import CohortSwitch.SdkErrors
import CohortSwitch.RotatedTokens
import CohortSwitch.RuleLocality
import CohortSwitch.BatchLoading
import CohortSwitch.ForeignRows
import CohortSwitch.KeyUsage
import CohortSwitch.Journals
import CohortSwitch.AuditEvents
import CohortSwitch.AuditLog
import CohortSwitch.Confinement
import CohortSwitch.AuditTrail
import CohortSwitch.Attribution
import CohortSwitch.Barriers
import CohortSwitch.KeyRevocation
import CohortSwitch.Pagination
import CohortSwitch.AuditPages
import CohortSwitch.Calendar
import CohortSwitch.TextReplacement
import CohortSwitch.Timestamps
import CohortSwitch.Documents
import CohortSwitch.Responses
import CohortSwitch.Decisions
import CohortSwitch.SdkPruning
import CohortSwitch.PubSub
import CohortSwitch.Publications
import CohortSwitch.Frames
import CohortSwitch.Streams
import CohortSwitch.Recovery
import CohortSwitch.VersionedStore
import CohortSwitch.StoreRefinement
import CohortSwitch.SchedulerLoop
import CohortSwitch.Exceptions
import CohortSwitch.Conflicts
