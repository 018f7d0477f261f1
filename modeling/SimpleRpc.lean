import SimpleRpc.Base.Deadline
import SimpleRpc.Base.MergedEnumerator
import SimpleRpc.Base.Queue
import SimpleRpc.Base.RunLater
import SimpleRpc.Base.SpinLock
import SimpleRpc.Base.ThreadPool
import SimpleRpc.Gen.Acceptance
import SimpleRpc.Gen.Agreement
import SimpleRpc.Gen.CppStubs
import SimpleRpc.Gen.Layout
import SimpleRpc.Gen.Lexemes
import SimpleRpc.Gen.Parser
import SimpleRpc.Gen.PyStubs
import SimpleRpc.Gen.RoundTrip
import SimpleRpc.Gen.Scanner
import SimpleRpc.Gen.Service
import SimpleRpc.Gen.StubNames
import SimpleRpc.Gen.Stubs
import SimpleRpc.Gen.Syntax
import SimpleRpc.Gen.TypeStrings
import SimpleRpc.Lib.Bindings
import SimpleRpc.Lib.LookAhead
import SimpleRpc.Py.Call
import SimpleRpc.Py.Marshal
import SimpleRpc.Rlog.Client
import SimpleRpc.Rlog.LogService
import SimpleRpc.Rlog.Qps
import SimpleRpc.Rlog.Sessions
import SimpleRpc.Rpc.Asserts
import SimpleRpc.Rpc.ClientPool
import SimpleRpc.Rpc.CloseRace
import SimpleRpc.Rpc.Closing
import SimpleRpc.Rpc.Datagrams
import SimpleRpc.Rpc.EndToEnd
import SimpleRpc.Rpc.FutureWait
import SimpleRpc.Rpc.Liveness
import SimpleRpc.Rpc.OneReply
import SimpleRpc.Rpc.PendingFutures
import SimpleRpc.Rpc.PollSockets
import SimpleRpc.Rpc.PollThread
import SimpleRpc.Rpc.Polling
import SimpleRpc.Rpc.Process
import SimpleRpc.Rpc.ReadEvents
import SimpleRpc.Rpc.Reconnect
import SimpleRpc.Rpc.References
import SimpleRpc.Rpc.Registration
import SimpleRpc.Rpc.RemoteCall
import SimpleRpc.Rpc.ReplyLength
import SimpleRpc.Rpc.Segmentation
import SimpleRpc.Rpc.ServerLife
import SimpleRpc.Rpc.ServerStart
import SimpleRpc.Rpc.Sharing
import SimpleRpc.Rpc.Shutdown
import SimpleRpc.Rpc.SizeHeader
import SimpleRpc.Rpc.Sockets
import SimpleRpc.Rpc.UdpShutdown
import SimpleRpc.Rpc.Varints
import SimpleRpc.Rpc.WrapperSteps
import SimpleRpc.Rpc.WriteEvents
