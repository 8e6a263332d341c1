import Dv8.Lib.Bytes
import Dv8.Lib.Machine
import Dv8.Lib.Prefix
import Dv8.Lib.Unicode
import Dv8.Lib.Cuts
import Dv8.Lib.LinkedList
import Dv8.Lib.Merge
import Dv8.Lib.Digits
import Dv8.V8.Utf8Decoder
import Dv8.V8.Utf8Pieces
import Dv8.V8.Utf8Ascii
import Dv8.V8.WriteUtf8
import Dv8.V8.WriteText
import Dv8.V8.Json
import Dv8.V8.JsonParser
import Dv8.V8.JsonStrings
import Dv8.V8.JsonRoundTrip
import Dv8.Builtins.Buffer
import Dv8.Builtins.RoundTrip
import Dv8.Builtins.Memory
import Dv8.Builtins.EnvVars
import Dv8.Fs.ReadFile
import Dv8.Pico.HeaderScan
import Dv8.Zlib.Windows
import Dv8.Ipc.Parser
import Dv8.Ipc.Bytewise
import Dv8.Ipc.Frames
import Dv8.Ipc.Stream
import Dv8.Ipc.RoundTrip
import Dv8.Ipc.Resume
import Dv8.Ipc.Throwing
import Dv8.Ipc.SelfDescribing
import Dv8.Ipc.Payloads
import Dv8.Ipc.Bounded
import Dv8.Uv.Stream
import Dv8.Uv.AllocChunk
import Dv8.Socket.Socket
import Dv8.Socket.Steps
import Dv8.Plugins.Chain
import Dv8.Socket.Connection
import Dv8.Socket.ClosePath
import Dv8.Socket.WritePath
import Dv8.Socket.Drain
import Dv8.Ipc.Channel
import Dv8.Tls.SecureSocket
import Dv8.Tls.Output
import Dv8.Tls.Records
import Dv8.Tls.Reads
import Dv8.Tls.Input
import Dv8.Tls.Retry
import Dv8.Tls.Staging
import Dv8.Http.HttpParser
import Dv8.Http.Block
import Dv8.Http.Lengths
import Dv8.Http.Pause
import Dv8.Http.Bounds
import Dv8.Http.Errors
import Dv8.Http.Parser
import Dv8.Http.Execute
import Dv8.Http.Moves
import Dv8.Http.Reached
import Dv8.Http.Lockstep
import Dv8.Http.Chunks
import Dv8.Http.Takes
import Dv8.Http.StartLine
import Dv8.Http.Fields
import Dv8.Http.Bodies
import Dv8.Http.Sent
import Dv8.Http.Served
import Dv8.Http.Course
import Dv8.Http.Order
import Dv8.Thread.StartBlock
import Dv8.Loop.NextTick
import Dv8.Loop.Timers
import Dv8.Loop.Shutdown
import Dv8.Loop.ListHandles
import Dv8.Thread.Identity
import Dv8.Thread.Completion
import Dv8.Thread.CStrings
import Dv8.Socket.DeferredClose
import Dv8.Socket.Handles
import Dv8.Socket.Accounting
import Dv8.Socket.Requests
import Dv8.Socket.Paused
import Dv8.Socket.Connect
import Dv8.Tty.Tty
import Dv8.Tty.ClosedOnce
import Dv8.Tty.SameWrite
import Dv8.Udp.Send
import Dv8.Plugins.Dispatch
import Dv8.Plugins.Lists
import Dv8.Os.Signals
