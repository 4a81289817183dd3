import Semnav.ForStd.DefaultHasher
import Semnav.ForStd.Greedy
import Semnav.Graph.Reconcile
import Semnav.Spec.DbInvariant
import Semnav.Spec.MatchCorrect
import Semnav.Spec.WriteSymbols
import Semnav.Spec.WriteRun
import Semnav.Spec.ReclaimRows
import Semnav.Spec.LinkParents
import Semnav.Spec.ReconcileCorrect
import Semnav.Spec.ReconcileCommits
import Semnav.Spec.ReconcilePost
import Semnav.Spec.ReconcileAgain
import Semnav.Indexer.Symbol
import Semnav.Spec.LineShift
import Semnav.ForStd.Prog
import Semnav.Query.Filter
import Semnav.Query.LspQuery
import Semnav.Query.Engine
import Semnav.Query.Resolver
import Semnav.Query.Ops
import Semnav.Query.Pool
import Semnav.Spec.QueryCommands
import Semnav.Spec.FailedCalls
import Semnav.Spec.DegradedFlag
import Semnav.ForStd.BoundedBfs
import Semnav.Spec.CallEdges
import Semnav.Spec.CallPathSearch
import Semnav.Spec.CallPathCorrect
import Semnav.Spec.History
import Semnav.Spec.DefiniteNo
import Semnav.Indexer.Pipeline
import Semnav.Spec.IndexCorrect
import Semnav.Spec.FlattenTree
import Semnav.Indexer.Reconcile
import Semnav.Spec.FilesIndependent
import Semnav.Spec.IndexAgrees
import Semnav.Spec.ModuleRoot
import Semnav.Spec.Reindex
import Semnav.Spec.Reachable
import Semnav.Spec.GracePeriod
import Semnav.Spec.IncomingEdges
import Semnav.ForStd.Tasks
import Semnav.Spec.Marker
import Semnav.ForStd.Interleaving
import Semnav.Spec.ConcurrentCallees
import Semnav.Spec.FileView
import Semnav.Spec.TaskRuns
import Semnav.Spec.StaleOverwrite
import Semnav.Spec.DriftSkip
import Semnav.Spec.Paging
import Semnav.ForStd.BufRead
import Semnav.ForStd.Utf8
import Semnav.Lsp.Proto
import Semnav.Lsp.Transport
import Semnav.Spec.FrameRoundTrip
import Semnav.Lsp.Client
import Semnav.Spec.RequestPairing
import Semnav.Spec.Handshake
import Semnav.Lsp.Documents
import Semnav.Spec.DocumentVersions
import Semnav.ForStd.Protocol
import Semnav.Lsp.Supervisor
import Semnav.Spec.SupervisorState
import Semnav.Lsp.Server
import Semnav.Query.Supervisors
import Semnav.Spec.OneServer
import Semnav.Spec.ContainedIndex
import Semnav.Spec.Containment
import Semnav.Spec.CallersCallees
import Semnav.ForStd.Pending
import Semnav.Spec.HeldRows
import Semnav.Spec.Grants
import Semnav.Spec.HoverColumns
import Semnav.Spec.RenameMatching
import Semnav.Spec.UpsertNode
import Semnav.Spec.Revival
import Semnav.Spec.SessionAnswers
import Semnav.Spec.ProxiedCalls
import Semnav.Spec.Shutdown
import Semnav.Spec.RestartSchedule
import Semnav.Spec.RunIndex
import Semnav.Spec.OutgoingExact
import Semnav.Spec.DeletedFiles
import Semnav.ForStd.Processes
import Semnav.Daemon.Discovery
import Semnav.Daemon.Lifecycle
import Semnav.Spec.DaemonSteps
import Semnav.Spec.LiveSocket
import Semnav.Spec.DaemonStop
import Semnav.Daemon.Client
import Semnav.Spec.Reconnect
import Semnav.ForStd.Json
import Semnav.ForStd.FileTree
import Semnav.ForStd.Serde
import Semnav.Mcp.Dto
import Semnav.Daemon.Protocol
import Semnav.Spec.ProtocolRoundTrip
import Semnav.Indexer.Discovery
import Semnav.Indexer.Watcher
import Semnav.Spec.WatcherScope
import Semnav.Spec.EdgeKeys
import Semnav.Spec.Externality
import Semnav.Spec.FrameEnds
import Semnav.Spec.PositionLookup
import Semnav.Spec.SuspiciousEmpty
import Semnav.Spec.WatcherLoop
import Semnav.Query.Activity
import Semnav.Spec.QueryIdle
import Semnav.ForStd.PosixFs
import Semnav.Query.Confine
import Semnav.Spec.Confine
import Semnav.Spec.LosingStarter
import Semnav.Spec.LiveClients
import Semnav.Spec.CalleesCacheExact
import Semnav.ForStd.Preorder
import Semnav.Spec.GroupByNode
import Semnav.Daemon.Server
import Semnav.Spec.IdleShutdown
import Semnav.Spec.WarmCallers
import Semnav.Spec.DbActor
import Semnav.ForStd.Forks
import Semnav.Spec.SingleFlight
import Semnav.Mcp.Runtime
import Semnav.Spec.ToolPages
