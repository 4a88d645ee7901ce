import RtThread.Dfs.MountResolution
import RtThread.Dfs.MountTable
import RtThread.Dfs.Normalize
import RtThread.Dfs.Ramfs
import RtThread.Dfs.Romfs
import RtThread.Dfs.TmpfsFile
import RtThread.Dfs.VnodeCount
import RtThread.Drivers.Clk
import RtThread.Drivers.ClkPll
import RtThread.Drivers.Completion
import RtThread.Drivers.DataQueueRun
import RtThread.Drivers.PciResource
import RtThread.Drivers.PciWalk
import RtThread.Drivers.PipeProgress
import RtThread.Drivers.PllDividers
import RtThread.Drivers.RingBlkAlloc
import RtThread.Drivers.RingBlkLists
import RtThread.Drivers.RingBlkQueue
import RtThread.Drivers.RingBlkRun
import RtThread.Drivers.RingFifo
import RtThread.Drivers.WaitQueue
import RtThread.Drivers.WorkqueueSync
import RtThread.Ipc.MailboxDeque
import RtThread.Ipc.Semaphore
import RtThread.Ipc.Waiting
import RtThread.Ipc.Wakeup
import RtThread.Kernel.TimerCheck
import RtThread.Kservice.HeapAlign
import RtThread.Kservice.NumberBuffer
import RtThread.Kservice.Tokens
import RtThread.Kservice.Truncation
import RtThread.Libc.CtimeRoundTrip
import RtThread.Lwp.ChannelRun
import RtThread.Lwp.FutexRun
import RtThread.Lwp.PidTable
import RtThread.Lwp.ReapRun
import RtThread.Lwp.ShmRun
import RtThread.Mem.MemheapBest
import RtThread.Mem.MemheapFit
import RtThread.Mem.MemheapOrder
import RtThread.Mem.MemheapRun
import RtThread.Mem.MempoolRun
import RtThread.Mem.SlabPages
import RtThread.Mem.SmallHeap
import RtThread.Mem.SmallRealloc
import RtThread.Mm.Aspace
import RtThread.Mm.AspaceDetach
import RtThread.Mm.AspaceFree
import RtThread.Mm.AspaceLimits
import RtThread.Mm.AspacePlace
import RtThread.Mm.AspaceRun
import RtThread.Mm.AspaceScan
import RtThread.Mm.AspaceSearch
import RtThread.Mm.AspaceTree
import RtThread.Mm.AvlTree
import RtThread.Mm.PageInstall
import RtThread.Mm.PageOrders
import RtThread.Mm.Pages
import RtThread.Mm.VareaFrames
import RtThread.Mutex.ErrorPath
import RtThread.Mutex.Exclusion
import RtThread.Mutex.WaitLinks
import RtThread.Ofw.Alias
import RtThread.Ofw.CpuNode
import RtThread.Ofw.Phandle
import RtThread.Ofw.PhandleCells
import RtThread.Ofw.TranslateHistory
import RtThread.Sched.RoundRobin
import RtThread.Signal.Pending
import RtThread.Signal.Waiting
import RtThread.Smp.Highest
import RtThread.Smp.Queues
import RtThread.Smp.Scheduler
