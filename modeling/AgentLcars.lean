import AgentLcars.Lib.Counting
import AgentLcars.Lib.OrderedMap
import AgentLcars.Lib.Runs
import AgentLcars.Lib.Text
import AgentLcars.Lib.Collation
import AgentLcars.Model
import AgentLcars.ProviderCooldown
import AgentLcars.Decide
import AgentLcars.CredentialOperation
import AgentLcars.ProviderFallback
import AgentLcars.Delivery
import AgentLcars.ProviderRouting
import AgentLcars.QueueAdmission
import AgentLcars.Selection
import AgentLcars.MemoryStore
import AgentLcars.Orchestrator
import AgentLcars.Derive
import AgentLcars.System
import AgentLcars.Drain
import AgentLcars.Transition
import AgentLcars.Effect
import AgentLcars.DecideEffect
import AgentLcars.OperationEffect
import AgentLcars.RequestEffect
import AgentLcars.StoreEffect
import AgentLcars.Coherence
import AgentLcars.Closing
import AgentLcars.EventLog
import AgentLcars.Admission
import AgentLcars.Fairness
import AgentLcars.ClaimAuthority
import AgentLcars.CredentialFence
import AgentLcars.Outbox
import AgentLcars.Lease
import AgentLcars.Dispatch
import AgentLcars.Requests
import AgentLcars.Bindings
import AgentLcars.DeliveryAgreement
import AgentLcars.LabelRouting
import AgentLcars.Recovery
import AgentLcars.Revisions
import AgentLcars.Deferral
import AgentLcars.ItemState
import AgentLcars.Startup
import AgentLcars.Backoff
import AgentLcars.NeedsHuman
import AgentLcars.Cooldowns
import AgentLcars.FallbackAdmission
import AgentLcars.DeferredCompletion
import AgentLcars.RevisionAttempts
import AgentLcars.Watermark
import AgentLcars.WorkSpec
import AgentLcars.Cron
import AgentLcars.WorkMint
import AgentLcars.ItemWork
import AgentLcars.Schedules
import AgentLcars.ScheduleTick
import AgentLcars.Lib.Reservations
import AgentLcars.ScheduleMoves
import AgentLcars.ScheduleActs
import AgentLcars.ScheduleSlots
import AgentLcars.Schema
import AgentLcars.Sealed
import AgentLcars.SealedDecide
import AgentLcars.SealedProgress
import AgentLcars.SealedOperations
import AgentLcars.SealedRequests
import AgentLcars.SchemaClosure
import AgentLcars.Starvation
import AgentLcars.ExitEvidence
import AgentLcars.AnchorProjection
import AgentLcars.JobProcesses
import AgentLcars.JobSlots
import AgentLcars.JobVetoes
import AgentLcars.BackgroundPublications
import AgentLcars.BrokerSafety
import AgentLcars.JobFlights
import AgentLcars.LifecycleMetrics
import AgentLcars.PublicationEvidence
import AgentLcars.TranscriptReducer
import AgentLcars.CodexAdapter
import AgentLcars.CodexOwnership
import AgentLcars.Lib.JsonStrings
import AgentLcars.ReplyOnce
import AgentLcars.KubernetesHandoff
import AgentLcars.RetiredExits
import AgentLcars.Spool
import AgentLcars.SpoolOnce
import AgentLcars.HookSequence
import AgentLcars.FileLock
import AgentLcars.LockExclusion
import AgentLcars.RevisionOrder
import AgentLcars.Calendar
import AgentLcars.CronGrammar
import AgentLcars.CronSlots
import AgentLcars.ScheduleChanges
import AgentLcars.ScheduleChecks
import AgentLcars.SupersededSlots
import AgentLcars.ReviewHolds
import AgentLcars.Lib.ShellGrammar
import AgentLcars.LiteralCommands
import AgentLcars.ArtifactRepair
import AgentLcars.HookIntegration
import AgentLcars.Lib.Numerals
import AgentLcars.WorkIds
import AgentLcars.Lib.Rotation
import AgentLcars.Lib.StableSorting
import AgentLcars.SessionPages
import AgentLcars.SweepCursor
import AgentLcars.ReportedReset
import AgentLcars.TokenMinutes
import AgentLcars.Lib.Grouping
import AgentLcars.SessionSpend
import AgentLcars.Lib.Replays
import AgentLcars.TranscriptSummary
import AgentLcars.HistogramWindow
