import Muzi.ByteQueue
import Muzi.OutputStream
import Muzi.EventLoop
import Muzi.GracefulShutdown
import Muzi.ConnectionClose
import Muzi.OrderedSet
import Muzi.TimerQueue
import Muzi.TimerFiring
import Muzi.TimerFd
import Muzi.TimerThreads
import Muzi.EpollPoller
import Muzi.LoopQuit
import Muzi.QuitHandshake
import Muzi.WriteInterest
import Muzi.AsyncOutputer
import Muzi.LogFile
import Muzi.Connector
import Muzi.ConnectAttempts
import Muzi.TcpClient
import Muzi.TcpServer
import Muzi.ServerDestruction
import Muzi.Monitor
import Muzi.ThreadPool
import Muzi.PoolFifo
import Muzi.PoolStop
import Muzi.StopHandshake
import Muzi.Acceptor
import Muzi.ChainReading
import Muzi.ChainInvariant
import Muzi.OldBuffer
import Muzi.OldBufferOperations
import Muzi.ByteDeque
import Muzi.ConnectionStates
import Muzi.ChainCursor
import Muzi.ChainRetract
import Muzi.Loop
import Muzi.AcceptorDescriptors
import Muzi.FixedMemPool
import Muzi.PoolClear
import Muzi.SelfAppend
import Muzi.Grouping
import Muzi.SendReentry
import Muzi.OldBufferIterator
import Muzi.OldBufferRoom
import Muzi.Integers
import Muzi.OldBufferIntegers
import Muzi.BufferRotation
import Muzi.RollAccounting
import Muzi.Printf
import Muzi.SendLength
import Muzi.SocketOps
import Muzi.LogStream
import Muzi.Timestamp
import Muzi.Relay
import Muzi.EchoServer
import Muzi.PingPong
import Muzi.MutexLock
import Muzi.CountdownLatch
import Muzi.RunAndWait
import Muzi.EventLoopThread
import Muzi.EventLoopThreadPool
import Muzi.ConnectionLifetime
import Muzi.LogOverload
import Muzi.RetryDelay
import Muzi.ClientDestruction
import Muzi.ServerSteps
import Muzi.DescriptorReuse
import Muzi.ActiveChannels
import Muzi.LogPipeline
import Muzi.BufferChoice
import Muzi.LogRecord
import Muzi.TokenRing
import Muzi.GetConnection
import Muzi.Thread
