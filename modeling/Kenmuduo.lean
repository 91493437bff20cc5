import Kenmuduo.Transition
import Kenmuduo.Storage
import Kenmuduo.Buffer
import Kenmuduo.BufferFifo
import Kenmuduo.ScatterRead
import Kenmuduo.BufferGrowth
import Kenmuduo.StaleBytes
import Kenmuduo.Channel
import Kenmuduo.EPollPoller
import Kenmuduo.Registration
import Kenmuduo.CurrentInterest
import Kenmuduo.TcpConnection
import Kenmuduo.SendPath
import Kenmuduo.FailedRead
import Kenmuduo.Draining
import Kenmuduo.HighWater
import Kenmuduo.BatchLog
import Kenmuduo.EventLoop
import Kenmuduo.FunctorQueue
import Kenmuduo.FunctorsAtQuit
import Kenmuduo.Wakeup
import Kenmuduo.EarlyFunctors
import Kenmuduo.EventLoopThread
import Kenmuduo.QuitSticky
import Kenmuduo.StartLoop
import Kenmuduo.ThreadTeardown
import Kenmuduo.CrossThreadSend
import Kenmuduo.Shutdown
import Kenmuduo.WriteComplete
import Kenmuduo.TcpServer
import Kenmuduo.InetAddress
import Kenmuduo.ConnectionNames
import Kenmuduo.Token
import Kenmuduo.CallbackProtocol
import Kenmuduo.ServerWork
import Kenmuduo.ServerInvariant
import Kenmuduo.CallbackOrder
import Kenmuduo.ServerSteps
import Kenmuduo.AnyOrder
import Kenmuduo.StateOrder
import Kenmuduo.EmptyCallbacks
import Kenmuduo.PollerCalls
import Kenmuduo.Confinement
import Kenmuduo.DestroyedQuiet
import Kenmuduo.ServerTeardown
import Kenmuduo.Ownership
import Kenmuduo.UseCount
import Kenmuduo.LoopQueue
import Kenmuduo.FunctorLifetime
import Kenmuduo.ChannelLifetime
import Kenmuduo.Handles
import Kenmuduo.DescriptorLedger
import Kenmuduo.DescriptorReuse
import Kenmuduo.Potential
import Kenmuduo.BoundedWork
import Kenmuduo.AtRest
import Kenmuduo.SenderOrder
import Kenmuduo.QuitEnds
import Kenmuduo.SentOnce
import Kenmuduo.Receiving
import Kenmuduo.EchoServer
import Kenmuduo.StartServer
import Kenmuduo.RoundRobin
import Kenmuduo.EventList
import Kenmuduo.RoundLog
import Kenmuduo.PromptFunctors
import Kenmuduo.AddressText
import Kenmuduo.LoopLedger
import Kenmuduo.StartThread
import Kenmuduo.ServerRounds
import Kenmuduo.Remembered
