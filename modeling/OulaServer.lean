import OulaServer.Lib.Run
import OulaServer.Buffer.ByteQueue
import OulaServer.Channel
import OulaServer.Poller.Epoll
import OulaServer.Poller.Poll
import OulaServer.EventLoop.Basic
import OulaServer.EventLoop.Wakeup
import OulaServer.TcpConnection.Basic
import OulaServer.TcpConnection.Stream
import OulaServer.TcpConnection.Loop
import OulaServer.TcpConnection.Close
import OulaServer.TcpConnection.Shutdown
import OulaServer.TcpConnection.Send
import OulaServer.TcpServer.Basic
import OulaServer.TcpServer.Stages
import OulaServer.TcpServer.Bookkeeping
import OulaServer.Lib.OrderedSet
import OulaServer.TimerQueue.Cancel
import OulaServer.TimerQueue.Armed
import OulaServer.TimerQueue.Threads
import OulaServer.EventLoop.Fifo
import OulaServer.ThreadPool.Shutdown
import OulaServer.ThreadPool.Basic
import OulaServer.ThreadPool.Drain
import OulaServer.Connector.Basic
import OulaServer.Connector.Loop
import OulaServer.Connector.Spec
import OulaServer.Connector.Sockets
import OulaServer.Connector.StartStop
import OulaServer.TcpClient.Basic
import OulaServer.TcpClient.Spec
import OulaServer.TcpClient.Disconnect
import OulaServer.TcpClient.References
import OulaServer.TcpClient.Functions
import OulaServer.TcpClient.Lifetime
import OulaServer.TcpServer.Lifetime
import OulaServer.Lifetime
import OulaServer.TcpClient.Attempts
import OulaServer.TcpClient.Errors
import OulaServer.TcpClient.Reconnect
import OulaServer.TcpConnection.Read
import OulaServer.TimerQueue.Clock
import OulaServer.TcpConnection.Interest
import OulaServer.TimerQueue.Batch
import OulaServer.TcpConnection.Endpoint
import OulaServer.TcpConnection.Pending
import OulaServer.TcpConnection.Echo
import OulaServer.TcpConnection.Conversation
import OulaServer.TcpConnection.Requests
import OulaServer.Lib.Potential
import OulaServer.ThreadPool.Progress
import OulaServer.TcpServer.Startup
import OulaServer.TcpServer.Startup.Progress
import OulaServer.TcpServer.Usage
import OulaServer.Poller.Interface
import OulaServer.TcpServer.Placement
import OulaServer.TimerQueue.Schedule
import OulaServer.Buffer.Memory
