import UniversalFencingHub.Library.Transition
import UniversalFencingHub.Queue.Operations
import UniversalFencingHub.Queue.Represents
import UniversalFencingHub.GenAlloc
import UniversalFencingHub.MsgHeader
import UniversalFencingHub.Shared.CharBuffer
import UniversalFencingHub.Shared.QTree
import UniversalFencingHub.Shared.Protocol
import UniversalFencingHub.ServerConnector.NetClient
import UniversalFencingHub.ServerConnector.ProcessMessage
import UniversalFencingHub.ServerConnector.Request
import UniversalFencingHub.Library.Framing
import UniversalFencingHub.ServerConnector.Message
import UniversalFencingHub.ServerConnector.Session
import UniversalFencingHub.ServerConnector.Connector
import UniversalFencingHub.ServerConnector.Placement
import UniversalFencingHub.ServerConnector.Dialogue
import UniversalFencingHub.Threads.State
import UniversalFencingHub.Threads.Step
import UniversalFencingHub.ServerConnector.Consistent
import UniversalFencingHub.ServerConnector.PerformIo
import UniversalFencingHub.ServerConnector.ActionQueue
import UniversalFencingHub.ServerConnector.Complete
import UniversalFencingHub.Threads.Holding
import UniversalFencingHub.Threads.Invariant
import UniversalFencingHub.Threads.Workers
import UniversalFencingHub.Threads.Selector
import UniversalFencingHub.Threads.Pass
import UniversalFencingHub.Threads.Cleanup
import UniversalFencingHub.Threads.Reachable
import UniversalFencingHub.Properties.Connections
import UniversalFencingHub.Threads.Wakeup
import UniversalFencingHub.Properties.Wakeup
import UniversalFencingHub.Properties.TriggerPipe
import UniversalFencingHub.Library.Counting
import UniversalFencingHub.ServerConnector.Walks
import UniversalFencingHub.Threads.Pending
import UniversalFencingHub.Properties.WorkerBatch
import UniversalFencingHub.Properties.WorkerPool
import UniversalFencingHub.Shared.WireFormat
import UniversalFencingHub.Client.Connector
import UniversalFencingHub.Client.Transfer
import UniversalFencingHub.Properties.PeerGone
import UniversalFencingHub.Client.Arguments
import UniversalFencingHub.Client.Main
import UniversalFencingHub.Library.Raising
import UniversalFencingHub.Client.Containment
import UniversalFencingHub.Client.Parameters
import UniversalFencingHub.Client.Reply
import UniversalFencingHub.Client.Request
import UniversalFencingHub.Properties.ClientExit
import UniversalFencingHub.Properties.FailingConnection
import UniversalFencingHub.Library.Lifetime
import UniversalFencingHub.Server.Run
import UniversalFencingHub.Properties.PluginLifetime
import UniversalFencingHub.Properties.Isolation
import UniversalFencingHub.Library.Locking
import UniversalFencingHub.Properties.Deadlock
import UniversalFencingHub.Properties.Conservation
import UniversalFencingHub.Properties.LockDiscipline
import UniversalFencingHub.Properties.Shutdown
import UniversalFencingHub.Properties.IoPass
import UniversalFencingHub.Properties.IoPhases
import UniversalFencingHub.Properties.RequestGrammar
import UniversalFencingHub.Properties.ArgumentLists
import UniversalFencingHub.Properties.InputLines
import UniversalFencingHub.Properties.ClientReceive
import UniversalFencingHub.Properties.ServerSend
import UniversalFencingHub.Properties.Acceptance
import UniversalFencingHub.Threads.Operations
import UniversalFencingHub.Library.Descriptors
import UniversalFencingHub.Properties.CloseFd
import UniversalFencingHub.Properties.MessageFraming
import UniversalFencingHub.Properties.Fencing
import UniversalFencingHub.Library.Resources
import UniversalFencingHub.Properties.PoolAllocator
import UniversalFencingHub.Queue.Updates
import UniversalFencingHub.Properties.QueueLists
import UniversalFencingHub.Properties.FieldDecoding
import UniversalFencingHub.Library.Ranking
import UniversalFencingHub.Threads.Moves
import UniversalFencingHub.Threads.Ownership
import UniversalFencingHub.Properties.Progress
import UniversalFencingHub.Threads.Rank
import UniversalFencingHub.Properties.ShutdownEnds
import UniversalFencingHub.ServerConnector.Separate
import UniversalFencingHub.Threads.Serving
import UniversalFencingHub.Properties.ObjectAccess
import UniversalFencingHub.ServerConnector.Release
import UniversalFencingHub.Properties.Release
import UniversalFencingHub.Library.Fifo
import UniversalFencingHub.Properties.Dispatch
import UniversalFencingHub.Server.Startup
import UniversalFencingHub.Properties.ServerRun
import UniversalFencingHub.Server.Plugin
import UniversalFencingHub.Properties.PluginLoading
import UniversalFencingHub.Client.Memory
import UniversalFencingHub.Client.StandardInput
import UniversalFencingHub.Properties.ExitCode
import UniversalFencingHub.Server.Parameters
import UniversalFencingHub.Properties.CommandLine
