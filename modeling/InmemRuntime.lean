import InmemRuntime.OrderedDict
import InmemRuntime.AncestorChain
import InmemRuntime.CheckpointData
import InmemRuntime.SizeState
import InmemRuntime.Saver
import InmemRuntime.DeltaWalk
import InmemRuntime.Prune
import InmemRuntime.PruneHistory
import InmemRuntime.DeleteForRuns
import InmemRuntime.Survivors
import InmemRuntime.ThreadCopy
import InmemRuntime.SizeAccounting
import InmemRuntime.SizeOperations
import InmemRuntime.SizeCopy
import InmemRuntime.SizeExact
import InmemRuntime.TaskPool
import InmemRuntime.ObjectHeap
import InmemRuntime.ThreadTtl
import InmemRuntime.Store
import InmemRuntime.Server
import InmemRuntime.ThreadOps
import InmemRuntime.RunOps
import InmemRuntime.JointStatus
import InmemRuntime.TtlSweep
import InmemRuntime.Tasks
import InmemRuntime.StoreWrites
import InmemRuntime.ThreadRecords
import InmemRuntime.PatchUpdates
import InmemRuntime.ThreadDeletion
import InmemRuntime.SweepSafety
import InmemRuntime.RunExclusion
import InmemRuntime.Sequential
import InmemRuntime.BusyThreads
import InmemRuntime.RunDeletion
import InmemRuntime.Streams
import InmemRuntime.RunContexts
import InmemRuntime.CancelSignals
import InmemRuntime.StreamUpkeep
import InmemRuntime.StreamLifecycle
import InmemRuntime.StreamClients
import InmemRuntime.StreamFeeds
import InmemRuntime.ClientQueues
import InmemRuntime.RunReplay
import InmemRuntime.ThreadReplay
import InmemRuntime.Histories
import InmemRuntime.Persistence
import InmemRuntime.SingleWriter
import InmemRuntime.SystemAssistants
import InmemRuntime.PoolCycles
import InmemRuntime.PoolRestarts
import InmemRuntime.PoolHistory
import InmemRuntime.PoolContents
import InmemRuntime.AssistantOps
import InmemRuntime.VersionHistory
import InmemRuntime.RecordCreation
import InmemRuntime.RecordIds
import InmemRuntime.CopyFidelity
import InmemRuntime.DeletionOrder
import InmemRuntime.PostgresHistory
import InmemRuntime.BackendRetention
import InmemRuntime.PythonJson
import InmemRuntime.PythonInt
import InmemRuntime.JsonbContainment
import InmemRuntime.AuthFilters
import InmemRuntime.FilterSemantics
import InmemRuntime.FilterErrors
import InmemRuntime.PruneExactness
import InmemRuntime.DecodeFailures
import InmemRuntime.DeletionIndependence
import InmemRuntime.JointAtomicity
import InmemRuntime.ListingAgreement
import InmemRuntime.RunDispatch
import InmemRuntime.RunClaims
import InmemRuntime.SweepRun
import InmemRuntime.SweepRest
import InmemRuntime.SweepExactness
import InmemRuntime.WorkerQueue
import InmemRuntime.Mutations
import InmemRuntime.RecordFrames
import InmemRuntime.Refusals
import InmemRuntime.RefusedThreads
import InmemRuntime.RefusedRuns
import InmemRuntime.DeniedMutations
import InmemRuntime.References
import InmemRuntime.WorldReferences
import InmemRuntime.DanglingReferences
import InmemRuntime.ItemExpiry
import InmemRuntime.ItemSidecars
import InmemRuntime.SubscriberRelease
import InmemRuntime.ResumeCursors
import InmemRuntime.RefusedRequests
import InmemRuntime.RunIdentity
import InmemRuntime.StartupCleanup
import InmemRuntime.CheckpointLookup
import InmemRuntime.MetadataPrivacy
import InmemRuntime.FailedBatches
import InmemRuntime.ContextSync
import InmemRuntime.CronRecords
import InmemRuntime.CronUpdates
import InmemRuntime.CronInvariant
import InmemRuntime.RingLog
import InmemRuntime.DeployOperations
import InmemRuntime.DeployReader
import InmemRuntime.DeployStream
import InmemRuntime.DeployGuard
import InmemRuntime.TextReplace
import InmemRuntime.JsonString
import InmemRuntime.JsonText
import InmemRuntime.Base64
import InmemRuntime.UuidTexts
import InmemRuntime.IdReplacement
import InmemRuntime.CopiedCheckpoints
import InmemRuntime.Serialization
import InmemRuntime.StoreSerial
import InmemRuntime.StoreReads
import InmemRuntime.PostgresIntegrity
import InmemRuntime.VisibleRecords
import InmemRuntime.QueueStats
import InmemRuntime.SharedTable
import InmemRuntime.CronPasses
import InmemRuntime.Draining
import InmemRuntime.QueueDrain
import InmemRuntime.SweepRounds
import InmemRuntime.ThreadFrames
import InmemRuntime.ThreadIsolation
import InmemRuntime.UntouchedThreads
import InmemRuntime.SaverEffects
import InmemRuntime.LatestStates
import InmemRuntime.JointAgreement
import InmemRuntime.OtherCode
