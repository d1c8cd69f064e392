import SocksProxy.Transition.Path
import SocksProxy.Transition.Component
import SocksProxy.Lib.Selector
import SocksProxy.Lib.SelectorTable
import SocksProxy.Lib.Buffer
import SocksProxy.Lib.Fifo
import SocksProxy.Lib.BufferQueue
import SocksProxy.Lib.Parser
import SocksProxy.Lib.ParserWalk
import SocksProxy.Lib.Heap
import SocksProxy.Lib.Stm
import SocksProxy.Lib.ByteOrder
import SocksProxy.Client.Hello
import SocksProxy.Client.Request
import SocksProxy.Client.Machine
import SocksProxy.Client.Run
import SocksProxy.Client.Frame
import SocksProxy.Client.Handlers
import SocksProxy.Client.Attempts
import SocksProxy.Client.Relay
import SocksProxy.Client.Steps
import SocksProxy.Client.Wired
import SocksProxy.Client.Gate
import SocksProxy.Client.Exec
import SocksProxy.Client.Phases
import SocksProxy.Client.Negotiation
import SocksProxy.Client.Integrity
import SocksProxy.Client.Stranded
import SocksProxy.Client.NoAbort
import SocksProxy.Monitor.Auth
import SocksProxy.Monitor.Machine
import SocksProxy.Monitor.Run
import SocksProxy.Monitor.Handlers
import SocksProxy.Monitor.Wired
import SocksProxy.Monitor.Exec
import SocksProxy.Monitor.Gate
import SocksProxy.Server.NoAbort
import SocksProxy.Lib.Sentinel
import SocksProxy.Server.MethodChange
import SocksProxy.Server.AcceptedMethod
import SocksProxy.Client.Messages
import SocksProxy.Client.Parsing
import SocksProxy.Lib.CappedMap
import SocksProxy.Server.UsersTable
import SocksProxy.System.Sockets
import SocksProxy.System.Kernel
import SocksProxy.Server.World
import SocksProxy.Server.Upkeep
import SocksProxy.Server.Registry
import SocksProxy.Server.Counters
import SocksProxy.Client.Connected
import SocksProxy.Client.Login
import SocksProxy.Client.Custody
import SocksProxy.Monitor.Custody
import SocksProxy.Lib.CString
import SocksProxy.Lib.SignedByte
import SocksProxy.Server.UsersFile
import SocksProxy.Server.UsersFormat
import SocksProxy.Monitor.Verdict
import SocksProxy.Monitor.Answered
import SocksProxy.Monitor.Turns
import SocksProxy.Monitor.Screening
import SocksProxy.Monitor.Effects
import SocksProxy.Monitor.Decode
import SocksProxy.Management.Requests
import SocksProxy.Management.Methods
import SocksProxy.Management.Statistics
import SocksProxy.Lib.Lines
import SocksProxy.Lib.Logger
import SocksProxy.Lib.LoggerRun
import SocksProxy.Server.Errno
import SocksProxy.Server.UserLimits
import SocksProxy.Management.Login
import SocksProxy.Management.Program
import SocksProxy.Management.Administration
import SocksProxy.Management.Agreement
import SocksProxy.Lib.Getopt
import SocksProxy.Management.CommandLine
import SocksProxy.Management.Invocation
import SocksProxy.Client.Framing
import SocksProxy.Client.Decoding
import SocksProxy.Client.Fallback
import SocksProxy.Client.Handshake
import SocksProxy.Client.Segmentation
import SocksProxy.Client.Failures
import SocksProxy.Client.Conversation
import SocksProxy.Client.HalfClose
import SocksProxy.Client.Registrations
import SocksProxy.Client.Apart
import SocksProxy.Monitor.Apart
import SocksProxy.Server.Lives
import SocksProxy.Server.Authority
import SocksProxy.Server.Iteration
import SocksProxy.Transition.Progress
import SocksProxy.Server.Served
import SocksProxy.Server.Startup
import SocksProxy.Server.Shutdown
import SocksProxy.Server.Restarts
import SocksProxy.Server.CommandLine
import SocksProxy.Server.Logging
import SocksProxy.Server.ParserTables
import SocksProxy.Monitor.Memory
import SocksProxy.Monitor.Release
import SocksProxy.Monitor.Dispatch
