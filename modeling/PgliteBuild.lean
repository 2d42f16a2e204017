import PgliteBuild.Foundation.BlockMemory
import PgliteBuild.Foundation.CInt
import PgliteBuild.Foundation.CString
import PgliteBuild.Foundation.CellLoop
import PgliteBuild.Foundation.Effect
import PgliteBuild.Foundation.Fairness
import PgliteBuild.Foundation.FileStore
import PgliteBuild.Foundation.Framing
import PgliteBuild.Foundation.Jumps
import PgliteBuild.Foundation.PyString
import PgliteBuild.Foundation.Runs
import PgliteBuild.Foundation.ShellWords
import PgliteBuild.Foundation.Splitting
import PgliteBuild.Foundation.TracedBlock
import PgliteBuild.Pqcomm.Basic
import PgliteBuild.Pqcomm.CmaBounds
import PgliteBuild.Pqcomm.InputOnce
import PgliteBuild.Pqcomm.Overflow
import PgliteBuild.Pqcomm.Receive
import PgliteBuild.Pqcomm.Refill
import PgliteBuild.Pqcomm.Send
import PgliteBuild.Pqcomm.SendBuffer
import PgliteBuild.Pqcomm.Unread
import PgliteBuild.InteractiveOne.ArmedHandler
import PgliteBuild.InteractiveOne.Calls
import PgliteBuild.InteractiveOne.Code
import PgliteBuild.InteractiveOne.Entry
import PgliteBuild.InteractiveOne.Events
import PgliteBuild.InteractiveOne.Machine
import PgliteBuild.InteractiveOne.Modes
import PgliteBuild.InteractiveOne.Moves
import PgliteBuild.InteractiveOne.State
import PgliteBuild.Session.AuthGate
import PgliteBuild.Session.Basic
import PgliteBuild.Session.Call
import PgliteBuild.Session.CallsEnd
import PgliteBuild.Session.ErrorBatch
import PgliteBuild.Session.FileReply
import PgliteBuild.Session.Isolation
import PgliteBuild.Session.Leftover
import PgliteBuild.Session.MemoryArea
import PgliteBuild.Session.Messages
import PgliteBuild.Session.Output
import PgliteBuild.Session.Packets
import PgliteBuild.Session.Password
import PgliteBuild.Session.Reading
import PgliteBuild.Session.ReadyForQuery
import PgliteBuild.Session.Recovery
import PgliteBuild.Session.Repl
import PgliteBuild.Session.ReplyCount
import PgliteBuild.Session.ReplyIntegrity
import PgliteBuild.Session.Simulation
import PgliteBuild.Session.SkipMode
import PgliteBuild.Session.Streams
import PgliteBuild.Session.Transports
import PgliteBuild.Initdb.FeedSplit
import PgliteBuild.Initdb.InteractiveFile
import PgliteBuild.Initdb.Lifecycle
import PgliteBuild.Initdb.PgMain
import PgliteBuild.Initdb.RunFiles
import PgliteBuild.Initdb.ShellString
import PgliteBuild.SocketFile.FileEffects
import PgliteBuild.SocketFile.Handshake
import PgliteBuild.SocketFile.Progress
import PgliteBuild.Dlfcn.Dict
import PgliteBuild.Dlfcn.Dlopen
import PgliteBuild.Dlfcn.FiniteMap
import PgliteBuild.Startup.ArgEnv
import PgliteBuild.Startup.CopyArgv
import PgliteBuild.Startup.Strconcat
import PgliteBuild.WasiPort.Shm
import PgliteBuild.WasiPort.SigSet
import PgliteBuild.WasiPort.SignalRuns
import PgliteBuild.WasiPort.Signals
import PgliteBuild.LinkTools.Entries
import PgliteBuild.LinkTools.ExtensionImports
import PgliteBuild.LinkTools.Getsyms
import PgliteBuild.LinkTools.LinkImports
import PgliteBuild.LinkTools.PackExtension
import PgliteBuild.LinkTools.Symbols
