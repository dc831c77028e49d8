import TstMuduo.Net.OutputStream
import TstMuduo.Net.EventLoop
import TstMuduo.Net.EventLoopThread
import TstMuduo.Net.HalfClose
import TstMuduo.Lib.OrderedSet
import TstMuduo.Net.Timer
import TstMuduo.Net.TimerQueue
import TstMuduo.Net.TimerOwnership
import TstMuduo.Net.TimerRuns
import TstMuduo.Net.TimerArming
import TstMuduo.Net.TimerFiring
import TstMuduo.Net.TcpServer
import TstMuduo.Net.Lifecycle
import TstMuduo.Net.LifecycleRuns
import TstMuduo.Net.BufferQueue
import TstMuduo.Lib.Incremental
import TstMuduo.Net.ProtobufCodecLite
import TstMuduo.Net.HttpContext
import TstMuduo.Net.HttpServer
import TstMuduo.Net.Poller
import TstMuduo.Net.Connector
import TstMuduo.Net.ConnectorRuns
import TstMuduo.Net.RpcChannel
import TstMuduo.Net.RpcCalls
import TstMuduo.Lib.Endian
import TstMuduo.Net.BufferInt
import TstMuduo.Base.AsyncLogging
import TstMuduo.Base.AsyncLoggingStop
import TstMuduo.Base.ThreadPool
import TstMuduo.Base.ThriftConnectionPool
import TstMuduo.Base.ThriftPoolWaiters
import TstMuduo.Base.Date
import TstMuduo.Base.UtcTime
import TstMuduo.Base.TimeZone
import TstMuduo.Base.ZoneFile
import TstMuduo.Cthrift.BinaryProtocol
import TstMuduo.Lib.Framing
import TstMuduo.Cthrift.Responses
import TstMuduo.Cthrift.ClientFrames
import TstMuduo.Cthrift.ServerFrames
import TstMuduo.Cthrift.SvrPool
import TstMuduo.Cthrift.SvrList
import TstMuduo.Cthrift.ChooseConn
import TstMuduo.Cthrift.WeightIndex
import TstMuduo.Cthrift.SendReq
import TstMuduo.Cthrift.AvailableConns
import TstMuduo.Cthrift.Transport
import TstMuduo.Cthrift.WorkerSharing
import TstMuduo.Cthrift.SeqIds
import TstMuduo.Base.LogFile
import TstMuduo.ConnHash.ConsistentHash
import TstMuduo.ConnHash.ServerName
import TstMuduo.Lib.ByteMemory
import TstMuduo.ShmQueue.Queue
import TstMuduo.ShmQueue.Fifo
import TstMuduo.ShmQueue.TwoProcesses
import TstMuduo.Cthrift.ThriftFormat
import TstMuduo.ConnHash.RbTree
import TstMuduo.ConnHash.RbTreeRep
import TstMuduo.ConnHash.RbTreeFixup
import TstMuduo.ConnHash.RbTreeInsert
import TstMuduo.ConnHash.RbTreeDelete
import TstMuduo.ConnHash.RbTreeRuns
import TstMuduo.Net.HttpGrammar
import TstMuduo.Net.PollSlots
import TstMuduo.Net.ProtobufRawCb
import TstMuduo.Lib.NodeList
import TstMuduo.Lru.LRUCache
import TstMuduo.MemPool.Palloc
import TstMuduo.MemPool.PoolRanges
import TstMuduo.Lib.Linked
import TstMuduo.Timers.TimeWheel
import TstMuduo.Timers.WheelRuns
import TstMuduo.Lib.StdHeap
import TstMuduo.Timers.TimerHeap
import TstMuduo.Timers.HeapRuns
import TstMuduo.LevelWheel.TimeWheel
import TstMuduo.LevelWheel.Placement
import TstMuduo.LevelWheel.Periods
import TstMuduo.Transfer.Exchanges
import TstMuduo.Base.Convert
import TstMuduo.Base.ReplaceLine
import TstMuduo.Base.LogStream
import TstMuduo.Base.Logging
import TstMuduo.Net.PollScratch
import TstMuduo.Cthrift.IdleWheel
import TstMuduo.ConnHash.RbTreeSearch
import TstMuduo.ConnHash.RbTreeCheck
import TstMuduo.Cthrift.WeightedChoice
import TstMuduo.Cthrift.AsyncHeader
import TstMuduo.ShmQueue.EmptyQueue
import TstMuduo.Base.IntegerText
import TstMuduo.Base.StreamMemory
import TstMuduo.Base.AsyncLoggingQueue
import TstMuduo.Base.CountDownLatch
import TstMuduo.ConnHash.Md5
import TstMuduo.Cthrift.RoundTrips
import TstMuduo.Lib.Descriptors
import TstMuduo.Lib.ListUpdate
import TstMuduo.Lib.FrameCodec
import TstMuduo.Net.Acceptor
import TstMuduo.Net.ServerRuns
import TstMuduo.Net.ProtobufCodec
import TstMuduo.Net.TcpClient
import TstMuduo.Net.TcpClientRetry
import TstMuduo.Lib.Varint
import TstMuduo.Net.ProtobufWire
import TstMuduo.Net.RpcMail
import TstMuduo.Net.RpcMailRuns
import TstMuduo.Net.RpcMessageFormat
