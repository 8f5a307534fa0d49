import Muduo.Support.Checked
import Muduo.Support.Machine
import Muduo.Support.Memory
import Muduo.Net.Buffer
import Muduo.Net.BufferSpec
import Muduo.Net.BufferDeque
import Muduo.Net.ByteQueue
import Muduo.Net.Channel
import Muduo.Net.TcpConnection
import Muduo.Net.TcpConnectionOutput
import Muduo.Net.TcpConnectionState
import Muduo.Net.ServerConnection
import Muduo.Net.TimerQueue
import Muduo.Net.TimerIndex
import Muduo.Net.TimerOwnership
import Muduo.Net.TimerCancel
import Muduo.Support.Incremental
import Muduo.Net.HttpContext
import Muduo.Net.HttpParse
import Muduo.Net.HttpServer
import Muduo.Net.BufferInt
import Muduo.Support.Protobuf
import Muduo.Net.ProtobufCodecLite
import Muduo.Net.ProtobufCodecFrames
import Muduo.Net.EventLoop
import Muduo.Net.EventLoopWakeup
import Muduo.Net.RpcProto
import Muduo.Net.RpcChannel
import Muduo.Net.RpcMatching
import Muduo.Support.SlotTable
import Muduo.Net.Poller
import Muduo.Net.PollPoller
import Muduo.Net.PollPollerSlots
import Muduo.Net.EPollPoller
import Muduo.Net.PollerEquivalence
import Muduo.Net.Connector
import Muduo.Net.ConnectorSockets
import Muduo.Net.TcpClient
import Muduo.Net.TcpClientAttempts
import Muduo.Net.TimerAlarm
import Muduo.Net.HttpPipeline
import Muduo.Support.Frames
import Muduo.Net.ProtobufCodecInput
import Muduo.Net.TcpServer
import Muduo.Net.TcpServerLifeCycle
import Muduo.Net.EventLoopFunctors
import Muduo.Net.EventLoopThread
import Muduo.Support.Lines
import Muduo.Net.HttpHeaderEnd
import Muduo.Base.AsyncLogging
import Muduo.Support.Packing
import Muduo.Base.AsyncLoggingBuffers
import Muduo.Base.AsyncLoggingLines
import Muduo.Base.AsyncLoggingStop
import Muduo.Base.BoundedBlockingQueue
import Muduo.Base.ThreadPool
import Muduo.Net.ConnectionThreads
import Muduo.Net.ShutdownOrder
import Muduo.Net.ConnectionDeregistered
import Muduo.Net.BufferIntQueue
import Muduo.Net.HttpRendering
import Muduo.Net.TcpConnectionMarks
import Muduo.Net.TimerBatch
import Muduo.Net.TimerThreads
import Muduo.Net.ZlibStream
import Muduo.Support.LowerBound
import Muduo.Support.Reader
import Muduo.Base.TimeZone
import Muduo.Base.TimeZoneFile
import Muduo.Support.IntegerType
import Muduo.Base.LogStream
import Muduo.Base.LogTime
import Muduo.Base.Logging
import Muduo.Support.CInt
import Muduo.Support.Staircase
import Muduo.Base.Date
import Muduo.Base.UtcTime
import Muduo.Base.LocalTime
import Muduo.Net.HttpResponseFrames
import Muduo.Support.Rounding
import Muduo.Support.Scale
import Muduo.Base.FormatSize
import Muduo.Support.Monitor
import Muduo.Base.Mutex
import Muduo.Base.BlockingQueue
import Muduo.Base.BoundedBlockingQueueSections
import Muduo.Base.CountDownLatch
import Muduo.Base.Thread
import Muduo.Base.FileUtil
import Muduo.Base.LogFile
import Muduo.Base.AsyncLogFile
import Muduo.Base.ThreadPoolTasks
import Muduo.Net.EPollPolling
import Muduo.Net.PollerPolling
import Muduo.Net.ConnectionBytes
import Muduo.Net.TcpPair
import Muduo.Net.HttpExchange
