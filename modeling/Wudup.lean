import Wudup.AuthDatabase
import Wudup.AuthRecovery
import Wudup.ClientAddress
import Wudup.CommentTokens
import Wudup.ComposeConcurrency
import Wudup.ComposePersistence
import Wudup.ComposeRewrite
import Wudup.DbSchema
import Wudup.DigestHandover
import Wudup.DigestSoundness
import Wudup.DiscordDigest
import Wudup.ExactTags
import Wudup.ExclusionMerge
import Wudup.ExclusionPlanning
import Wudup.ExclusionReplay
import Wudup.FilterAmbiguity
import Wudup.FlowBounds
import Wudup.HealthGate
import Wudup.ImageRewrites
import Wudup.Images
import Wudup.JobRegistry
import Wudup.JobView
import Wudup.JobViewRaces
import Wudup.LabelApproval
import Wudup.LabelScalars
import Wudup.Library.Calendar
import Wudup.Library.DepthFirst
import Wudup.Library.Dict
import Wudup.Library.JsonRecord
import Wudup.Library.Keyed
import Wudup.Library.Lines
import Wudup.Library.Program
import Wudup.Library.ProgramRefinement
import Wudup.Library.Regex
import Wudup.Library.RegexEngine
import Wudup.Library.Saturate
import Wudup.Library.Slots
import Wudup.Library.Splice
import Wudup.Library.Sql
import Wudup.Library.Text
import Wudup.Library.Topological
import Wudup.Library.Transaction
import Wudup.Library.Transition
import Wudup.Library.Versioned
import Wudup.Library.YamlScalar
import Wudup.LineSpecs
import Wudup.LoginLimit
import Wudup.LsioUpdates
import Wudup.Matching
import Wudup.Models
import Wudup.MutationGate
import Wudup.NetworkModes
import Wudup.NotificationCooldown
import Wudup.NotificationSafety
import Wudup.ObservationRetention
import Wudup.OrphanRemoval
import Wudup.PendingCoalescing
import Wudup.PendingFreshness
import Wudup.PendingLoads
import Wudup.PendingPlans
import Wudup.PendingRoundTrip
import Wudup.PendingSources
import Wudup.PlanIdentity
import Wudup.PlanMatching
import Wudup.PlanRaces
import Wudup.Redaction
import Wudup.ReleaseSecurity
import Wudup.ReleaseSkips
import Wudup.ResolvedTagMarkers
import Wudup.RetagApply
import Wudup.RetagPatterns
import Wudup.RetagRollback
import Wudup.RewriteSpans
import Wudup.RunAudit
import Wudup.RunVerification
import Wudup.RunVerificationSafety
import Wudup.RunnerMatching
import Wudup.RunningImages
import Wudup.ScheduleOnce
import Wudup.SchedulerSafety
import Wudup.SchedulerSlots
import Wudup.SchedulerTicks
import Wudup.SchemaMigrations
import Wudup.SchemaSafety
import Wudup.SecurityComparison
import Wudup.SelectionSafety
import Wudup.SelfScopeSafety
import Wudup.SelfUpdatePrepare
import Wudup.ServiceCommands
import Wudup.ServiceLabels
import Wudup.ServiceOrder
import Wudup.ServiceRuntime
import Wudup.SourceLines
import Wudup.StackRollback
import Wudup.StackServices
import Wudup.StackUpdate
import Wudup.StoppedProviders
import Wudup.StreamDelivery
import Wudup.TagExclusions
import Wudup.TagSelection
import Wudup.TagSplice
import Wudup.TagStreams
import Wudup.TodoRewrites
import Wudup.TrackingFilters
import Wudup.TrackingRollback
import Wudup.UpdaterEntries
import Wudup.UpdaterFate
import Wudup.UpdaterRun
import Wudup.VersionRanges
import Wudup.WudCache
import Wudup.WudCacheSafety
import Wudup.WudFile
import Wudup.WudObservations
import Wudup.WudTargets
import Wudup.CommentClearing
import Wudup.CommentViews
import Wudup.RegistryOrigins
import Wudup.RegistryRequests
import Wudup.RequestConfinement
import Wudup.FileLocks
import Wudup.TrackingGuide
import Wudup.SecurityScanner
import Wudup.SecurityStore
import Wudup.SecurityCache
import Wudup.RequestScopes
import Wudup.RequestReuse
import Wudup.ReadonlyTokens
import Wudup.ReadonlyTokenSafety
import Wudup.RollbackPlans
import Wudup.RollbackReadiness
import Wudup.ManagedSettings
import Wudup.SettingValues
import Wudup.SettingsInEffect
import Wudup.SettingsPage
import Wudup.WebhookSecrecy
