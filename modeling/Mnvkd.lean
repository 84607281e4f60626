import Mnvkd.Lib.Circular
import Mnvkd.Lib.Blocks
import Mnvkd.Lib.Channel
import Mnvkd.Lib.Carve
import Mnvkd.Lib.Loop
import Mnvkd.Lib.Fifo
import Mnvkd.Lib.MarkedQueue
import Mnvkd.Lib.Slist
import Mnvkd.VectoringFifo
import Mnvkd.RingFlags
import Mnvkd.Socket
import Mnvkd.ProcLocal
import Mnvkd.SocketHandler
import Mnvkd.ThreadIo
import Mnvkd.SocketHandlerSpec
import Mnvkd.Readline
import Mnvkd.ReadlineStream
import Mnvkd.FdTable
import Mnvkd.Execute
import Mnvkd.Unblock
import Mnvkd.HandlerFrame
import Mnvkd.Machine
import Mnvkd.MachineFrame
import Mnvkd.Wakes
import Mnvkd.Ownership
import Mnvkd.Schedule
import Mnvkd.QueueFlags
import Mnvkd.HandlerMoves
import Mnvkd.Postpoll
import Mnvkd.PipeSpec
import Mnvkd.VirtualPipe
import Mnvkd.Messages
import Mnvkd.Hangup
import Mnvkd.Eof
import Mnvkd.Accepted
import Mnvkd.AcceptQueue
import Mnvkd.AcceptSetup
import Mnvkd.BlockedQueue
import Mnvkd.Paused
import Mnvkd.Responder
import Mnvkd.Future
import Mnvkd.Heap
import Mnvkd.HeapFaults
import Mnvkd.Poller
import Mnvkd.Kern
import Mnvkd.Ended
import Mnvkd.KernFrame
import Mnvkd.KernQueues
import Mnvkd.KernSound
import Mnvkd.KernShutdown
import Mnvkd.KernHeaps
import Mnvkd.KernGuard
import Mnvkd.KernIsolation
import Mnvkd.KernTouches
import Mnvkd.KernReports
import Mnvkd.FdOwner
import Mnvkd.Drivers
import Mnvkd.Kqueue
import Mnvkd.KqueueRuns
import Mnvkd.FdLists
import Mnvkd.PollAgree
import Mnvkd.Interest
import Mnvkd.IoBatch
import Mnvkd.IoOp
import Mnvkd.IoPaths
import Mnvkd.Rounds
import Mnvkd.KernDrivers
import Mnvkd.Stack
import Mnvkd.Wrapguard
import Mnvkd.Pool
import Mnvkd.StackBytes
import Mnvkd.ThreadLife
import Mnvkd.Lowering
import Mnvkd.KernTenure
import Mnvkd.LazyFlush
import Mnvkd.LineSearch
import Mnvkd.ReadExact
import Mnvkd.HandlerReach
import Mnvkd.ForwardHandler
import Mnvkd.Conduit
import Mnvkd.ForwardExact
import Mnvkd.PipePasses
import Mnvkd.PipeProgress
import Mnvkd.RingsWf
import Mnvkd.FdStream
import Mnvkd.Relay
import Mnvkd.FdClose
import Mnvkd.Closure
import Mnvkd.VectoringAlike
import Mnvkd.HandlerAlike
import Mnvkd.Reuse
import Mnvkd.Listen
import Mnvkd.Lib.Text
import Mnvkd.Lib.Search
import Mnvkd.Fetch
import Mnvkd.Reader
import Mnvkd.Redis
import Mnvkd.RedisFraming
import Mnvkd.RedisClient
import Mnvkd.RedisResponse
import Mnvkd.RedisReplies
import Mnvkd.RedisSession
import Mnvkd.Lib.Heads
import Mnvkd.Lib.Image
import Mnvkd.Rfc
import Mnvkd.RfcHeader
import Mnvkd.RfcChunk
import Mnvkd.Http
import Mnvkd.HttpRequest
import Mnvkd.HttpResponse
import Mnvkd.HttpFraming
import Mnvkd.HttpWire
import Mnvkd.HttpService
import Mnvkd.Echo
import Mnvkd.Client
import Mnvkd.Isolate
import Mnvkd.IsolateWindow
import Mnvkd.IsolateTrap
