import Confuse.KeyedMap
import Confuse.Interaction
import Confuse.Strings
import Confuse.Types
import Confuse.PathKey
import Confuse.Resolver
import Confuse.ResolverOp
import Confuse.ResolverLedger
import Confuse.NotifierLedger
import Confuse.TtlOverflow
import Confuse.Filesystem
import Confuse.Adapter
import Confuse.Helpers
import Confuse.PathRoutes
import Confuse.CreateRoutes
import Confuse.DirectoryRoutes
import Confuse.Handlers
import Confuse.PlainRoutes
import Confuse.ResolverBound
import Confuse.EventLog
import Confuse.Callbacks
import Confuse.PanickingRuns
import Confuse.CallbackCalls
import Confuse.CallbackLedger
import Confuse.ForgetOrder
import Confuse.ResolverHistory
import Confuse.AttributeHistory
import Confuse.MountOptions
import Confuse.ConfiguredResolvers
import Confuse.LoggedHistories
import Confuse.ReportedAnswers
import Confuse.LastingReplies
import Confuse.ListingLedger
import Confuse.Sessions
import Confuse.HandleLedger
import Confuse.CreateOutcome
import Confuse.OpenFlags
import Confuse.OpenedKind
import Confuse.LockingBackend
import Confuse.LockExclusion
import Confuse.NameTree
import Confuse.ResolverEntries
import Confuse.Coherence
import Confuse.TruthfulHost
import Confuse.CachedWalk
import Confuse.NamespaceRoutes
import Confuse.MemoryBackend
import Confuse.NamespaceCoherence
import Confuse.Dispositions
import Confuse.GenerationHistory
import Confuse.TimedAttributes
import Confuse.InFlight
import Confuse.SharedCells
import Confuse.ListingRuns
import Confuse.DirectoryHandles
import Confuse.OwnMutations
import Confuse.MutationRoutes
import Confuse.AttributeVisibility
import Confuse.Spellings
import Confuse.TaskPool
import Confuse.TokioAdapter
import Confuse.TokioReplies
import Confuse.ChildRecords
import Confuse.Rekeying
import Confuse.RenamedKeys
import Confuse.OpenStateRuns
import Confuse.FailedCallbacks
import Confuse.RenamedOpenState
import Confuse.SortedCursor
import Confuse.DirectoryReading
import Confuse.ResumedListings
import Confuse.PagedDirectories
import Confuse.Transitions
import Confuse.Teardown
import Confuse.QueuedForgets
import Confuse.DrainedCallbacks
import Confuse.HandlerDrains
import Confuse.RenameCollisions
import Confuse.SevereStatuses
import Confuse.ReportedFailures
import Confuse.WritePlans
import Confuse.SplitPaths
import Confuse.LockRanges
import Confuse.DescriptorCopies
import Confuse.ByteReader
import Confuse.DescriptorLayout
import Confuse.WideStrings
import Confuse.Feeding
import Confuse.ListingPlans
import Confuse.UnfilteredListings
import Confuse.ListingFallback
import Confuse.CanonicalKeys
import Confuse.WideNames
import Confuse.SubtreeInvalidation
import Confuse.Rerooting
import Confuse.ResolverInvariant
import Confuse.KernelConfigs
import Confuse.Notifications
import Confuse.Capacity
import Confuse.DirectoryReplies
import Confuse.Mutexes
import Confuse.Tokens
import Confuse.LockOrder
import Confuse.ByteContents
import Confuse.MemFs
import Confuse.MapValues
import Confuse.MemFsTokens
import Confuse.MemFsInterleavings
import Confuse.MemFsLocks
import Confuse.MemFsCalls
import Confuse.MemFsListing
import Confuse.MemFsRuns
import Confuse.MemFsNames
import Confuse.RootedTrees
import Confuse.MemFsTree
import Confuse.MemFsContents
import Confuse.MemFsDirectories
import Confuse.MemFsPages
import Confuse.AskedCalls
import Confuse.AgreeingHosts
import Confuse.MountedMemFs
import Confuse.MountedNames
import Confuse.MountedListings
import Confuse.GuardedMemFs
import Confuse.MemFsNamespace
import Confuse.TruthfulMemFs
import Confuse.MountedPaths
import Confuse.RecentAnswers
import Confuse.MountedAttributes
