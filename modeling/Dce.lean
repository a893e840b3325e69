import Dce.Pthread.MutexSafety
import Dce.Semaphore.Wakeups
import Dce.Pipe.Closing
import Dce.LocalStream.Wakeups
import Dce.Netlink.Ports
import Dce.Netlink.Groups
import Dce.Netlink.RoundTrip
import Dce.Netlink.Acknowledge
import Dce.Descriptors.Pipes
import Dce.Heap.Blocks
import Dce.Heap.Cloning
import Dce.Processes.Reaping
import Dce.Threads.Accounting
import Dce.Threads.Safety
import Dce.Pipe.Storage
import Dce.Exec.Confinement
import Dce.Identifiers.Distinct
import Dce.Binder.Registry
import Dce.Datagram.Room
import Dce.Datagram.Boundaries
import Dce.Polling.Runs
import Dce.Pthread.Once
import Dce.Keys.Runs
import Dce.Env.Names
import Dce.Processes.AtExit
import Dce.Execution.Failure
import Dce.Loader.Exactness
import Dce.Kernel.Globals
import Dce.Teardown.Runs
import Dce.Netlink.Routes
import Dce.Traffic.Reports
import Dce.Metrics.Sums
import Dce.Pthread.TimedWait
import Dce.LocalStream.WholeMessages
import Dce.Streams.Reopening
import Dce.HostFiles.Closing
import Dce.ControlMessages.RoundTrip
import Dce.Processes.Allocation
import Dce.Signals.Kill
import Dce.Polling.Timeouts
import Dce.Polling.SelectSets
import Dce.Positional.Neutral
import Dce.TaskManager.FiniteSleeps
import Dce.Timers.Accounting
import Dce.Delivery.Once
import Dce.Delivery.Interruption
import Dce.Connections.Runs
import Dce.Readiness.Wakes
import Dce.ElfLdd.Offsets
import Dce.ElfLdd.Ordering
import Dce.Exec.Normal
import Dce.Exec.Script
import Dce.Streams.ClosingAll
import Dce.UnixDatagram.Messages
import Dce.UnixStream.Peeking
import Dce.UnixStream.Shutting
import Dce.UnixStream.Connecting
import Dce.Env.HandOver
import Dce.NetDb.NameInfo
import Dce.Netlink.Progress
import Dce.UnixStream.Readers
import Dce.UnixStream.Backlog
import Dce.UnixStream.HalfClosed
import Dce.Report.Summary
import Dce.Report.Json
import Dce.Exec.Splitting
import Dce.HostFiles.CurrentDirectory
import Dce.Loader.Cache
import Dce.LinuxSocket.Polling
