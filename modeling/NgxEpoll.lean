import NgxEpoll.Common.DecodeContract
import NgxEpoll.Common.RoundTrip
import NgxEpoll.Common.EncodeBounds
import NgxEpoll.Server.Ownership
import NgxEpoll.Request.Delivery
import NgxEpoll.Server.Payloads
import NgxEpoll.Server.Closing
import NgxEpoll.Request.Responses
import NgxEpoll.Server.Pool
import NgxEpoll.Server.ReadHandler
import NgxEpoll.Server.WriteTimer
import NgxEpoll.Server.Resuming
import NgxEpoll.Server.Stalling
import NgxEpoll.Epoll.Interest
import NgxEpoll.Server.Dispatching
import NgxEpoll.Tasks.Notice
import NgxEpoll.Timer.Expire
import NgxEpoll.ConnPool.Sharing
import NgxEpoll.Events.Posted
import NgxEpoll.Shmem.Runs
import NgxEpoll.Slabs.Runs
import NgxEpoll.Slabs.Requests
import NgxEpoll.MemPool.Runs
import NgxEpoll.Tasks.RingQueue
import NgxEpoll.Request.Rounds
import NgxEpoll.Shmem.Largest
import NgxEpoll.Listen.AddEvent
import NgxEpoll.Threads.Startup
import NgxEpoll.Output.Runs
import NgxEpoll.Conf.RoundTrip
import NgxEpoll.Conf.Order
import NgxEpoll.Conf.Defaults
import NgxEpoll.Conf.Blanks
import NgxEpoll.Shmem.Create
import NgxEpoll.MemPool.Depth
import NgxEpoll.HlPool.Runs
import NgxEpoll.Mblks.Runs
import NgxEpoll.Hashtable.Runs
import NgxEpoll.Core.Base64
import NgxEpoll.Queue.Sort
import NgxEpoll.Output.Append
import NgxEpoll.Output.Limited
import NgxEpoll.Conf.Numbers
import NgxEpoll.Conf.Binds
import NgxEpoll.Conf.Overruns
import NgxEpoll.Conf.Content
import NgxEpoll.Conf.Arrays
import NgxEpoll.Hashtable.Primes
import NgxEpoll.Output.Updates
import NgxEpoll.Time.Gmtime
import NgxEpoll.Strings.Unescape
import NgxEpoll.Strings.Numbers
import NgxEpoll.Strings.Search
import NgxEpoll.Strings.Utf8Length
import NgxEpoll.Strings.Decimals
import NgxEpoll.Processes.Respawn
import NgxEpoll.Processes.Workers
import NgxEpoll.ConnPool.Interleaving
import NgxEpoll.ConnPool.Accepting
import NgxEpoll.Listen.Open
import NgxEpoll.Des.WeakKeys
import NgxEpoll.Time.Http
import NgxEpoll.Time.Cached
import NgxEpoll.Log.Lines
