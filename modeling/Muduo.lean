import Muduo.Library.Machine
import Muduo.Library.Memory
import Muduo.Library.Fifo
import Muduo.Library.Log
import Muduo.Buffer.Basic
import Muduo.Buffer.Operations
import Muduo.Buffer.Refinement
import Muduo.Poller.Basic
import Muduo.Poller.Registration
import Muduo.EventLoop.Basic
import Muduo.EventLoop.Batches
import Muduo.Connection.Basic
import Muduo.Connection.Phases
import Muduo.Connection.Notifications
import Muduo.Connection.Stream
import Muduo.EventLoop.Order
import Muduo.EventLoop.Wakeup
import Muduo.EventLoop.Calling
import Muduo.EventLoop.Startup
import Muduo.EventLoop.Quit
import Muduo.Connection.HalfClose
import Muduo.Connection.Effects
import Muduo.Connection.HighWater
import Muduo.Connection.Teardown
import Muduo.Connection.CallerBuffer
import Muduo.Server.Basic
import Muduo.Server.Placement
import Muduo.Server.Teardown
import Muduo.Server.Loop
import Muduo.Server.Process
import Muduo.Server.LateCalls
import Muduo.Server.Waiting
import Muduo.Connection.Interest
import Muduo.Connection.Completion
import Muduo.Connection.Shutdown
import Muduo.Poller.Mirror
import Muduo.Poller.Disable
import Muduo.Poller.Refusal
import Muduo.Connection.States
import Muduo.Connection.Ownership
import Muduo.EventLoop.Thread
import Muduo.EventLoop.QuitRequest
import Muduo.Library.Decimal
import Muduo.Server.Names
import Muduo.Server.ThreadPool
import Muduo.Buffer.Retrieve
import Muduo.Buffer.ReadFd
import Muduo.Connection.Alone
import Muduo.Connection.SharedLoop
import Muduo.Library.RoundRobin
import Muduo.Poller.Poll
import Muduo.Library.Refinement
import Muduo.Connection.Buffered
import Muduo.Library.Fairness
import Muduo.EventLoop.Progress
import Muduo.Server.Progress
import Muduo.Connection.Delivery
import Muduo.EventLoop.Rounds
import Muduo.Library.Numeral
import Muduo.Server.Address
import Muduo.Server.Acceptor
import Muduo.Library.Product
import Muduo.Connection.Looped
import Muduo.Server.Service
import Muduo.EventLoop.Joining
