import Sylar.Lib.Bytes
import Sylar.Lib.Segment
import Sylar.Lib.OrderedSet
import Sylar.Lib.Slots
import Sylar.Lib.Run
import Sylar.Lib.History
import Sylar.ByteArray.Chain
import Sylar.ByteArray.Flat
import Sylar.ByteArray.Refinement
import Sylar.ByteArray.Scalar
import Sylar.ByteArray.RoundTrip
import Sylar.ByteArray.Sequence
import Sylar.Timer.Manager
import Sylar.Timer.Invariant
import Sylar.Timer.Frame
import Sylar.Timer.Expiry
import Sylar.Scheduler.Workers
import Sylar.Scheduler.Moves
import Sylar.Scheduler.Counters
import Sylar.Scheduler.Shutdown
import Sylar.Scheduler.Exclusive
import Sylar.IOManager.Events
import Sylar.IOManager.Accounting
import Sylar.IOManager.Sound
import Sylar.IOManager.Resize
import Sylar.IOManager.Tickle
import Sylar.Hook.Timeout
import Sylar.Hook.Protocol
import Sylar.Fd.Manager
import Sylar.Hook.Nonblock
import Sylar.Http.Servlet
import Sylar.Config.SetValue
import Sylar.Log.Define
import Sylar.Log.Cast
import Sylar.Log.Logger
import Sylar.Log.Initer
import Sylar.Scheduler.Tickets
import Sylar.Scheduler.Affinity
import Sylar.Scheduler.Custody
import Sylar.Scheduler.Departure
import Sylar.Scheduler.Ledger
import Sylar.Http.Request
import Sylar.Http.Parser
import Sylar.Http.Tokens
import Sylar.Http.Session
import Sylar.Http.Split
import Sylar.Http.Pipeline
import Sylar.Lib.Preorder
import Sylar.Config.Load
import Sylar.Socket.AddressCache
import Sylar.Log.Formatters
import Sylar.Http.Server
import Sylar.Log.Export
import Sylar.ByteArray.Capacity
import Sylar.IOManager.Dispatch
import Sylar.Http.Body
import Sylar.Stream.FixSize
import Sylar.Timer.Due
import Sylar.Timer.Wakeup
import Sylar.ByteArray.Strings
import Sylar.ByteArray.File
import Sylar.ByteArray.Varint
import Sylar.ByteArray.Buffers
import Sylar.ByteArray.Positional
import Sylar.Address.IPv6
import Sylar.Lib.Hex
import Sylar.Log.Pattern
import Sylar.Log.Escape
import Sylar.Address.Subnet
import Sylar.Address.Lookup
import Sylar.Scheduler.Lifecycle
import Sylar.Scheduler.Slices
import Sylar.Scheduler.Projection
import Sylar.IOManager.Wait
import Sylar.Hook.Sleep
import Sylar.Http.Framing
import Sylar.Http.Methods
import Sylar.Http.Accessors
import Sylar.Http.ResponseParser
import Sylar.Tcp.Server
import Sylar.Log.FileAppender
import Sylar.Lib.KeyedMap
import Sylar.Http.HeaderMap
import Sylar.Http.Machine
import Sylar.Http.Safety
import Sylar.Http.Clean
import Sylar.Http.Words
import Sylar.Http.Head
import Sylar.Http.RoundTrip
import Sylar.Http.Exchange
import Sylar.Http.ResponseRoundTrip
import Sylar.Http.Conversation
import Sylar.Config.Shared
import Sylar.Lib.Interference
import Sylar.Config.Exclusion
import Sylar.Stream.Transfer
