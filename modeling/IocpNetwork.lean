import IocpNetwork.Lib.Runs
import IocpNetwork.Lib.Sections
import IocpNetwork.Lib.MachineWords
import IocpNetwork.Lib.ByteMemory
import IocpNetwork.Lib.Fifo
import IocpNetwork.CircularBuffer
import IocpNetwork.CircularBufferRegions
import IocpNetwork.CircularBufferQueue
import IocpNetwork.CircularBufferReservation
import IocpNetwork.CircularBufferFreeSpace
import IocpNetwork.CircularBufferOutstanding
import IocpNetwork.Lib.LinkChain
import IocpNetwork.Lib.ThreadCount
import IocpNetwork.FastSpinLock
import IocpNetwork.FastSpinLockGuard
import IocpNetwork.Lib.FairRuns
import IocpNetwork.FastSpinLockProgress
import IocpNetwork.EnterLock
import IocpNetwork.MemoryPool
import IocpNetwork.MemoryPoolTable
import IocpNetwork.MemoryPoolServing
import IocpNetwork.MemoryPoolThreads
import IocpNetwork.MemoryPoolAccounting
import IocpNetwork.XTL
import IocpNetwork.Player
import IocpNetwork.PlayerRegistry
import IocpNetwork.PlayerManagerThreads
import IocpNetwork.PlayerWideEvents
import IocpNetwork.PlayerBuffs
import IocpNetwork.PlayerManagerLock
import IocpNetwork.ObjectPool
import IocpNetwork.ObjectPoolFreeList
import IocpNetwork.ObjectPoolGrowth
import IocpNetwork.ObjectPoolThreads
import IocpNetwork.ObjectPoolServing
import IocpNetwork.ObjectPoolExclusion
import IocpNetwork.MssqlUsage.Session
import IocpNetwork.MssqlUsage.SessionSteps
import IocpNetwork.MssqlUsage.SessionReferences
import IocpNetwork.MssqlUsage.SessionDisconnect
import IocpNetwork.MssqlUsage.SessionThreads
import IocpNetwork.MssqlUsage.SessionThreadReferences
import IocpNetwork.MssqlUsage.SessionThreadCalls
import IocpNetwork.MssqlUsage.SendPipeline
import IocpNetwork.MssqlUsage.SendScopes
import IocpNetwork.MssqlUsage.SendBufferThreads
import IocpNetwork.MssqlUsage.EchoStream
import IocpNetwork.MssqlUsage.SendCoverage
import IocpNetwork.MssqlUsage.SendDrain
import IocpNetwork.MssqlUsage.EchoBack
import IocpNetwork.MssqlUsage.WorkerThread
import IocpNetwork.WinIocp.ClientSession
import IocpNetwork.WinIocp.SessionRecycling
import IocpNetwork.WinIocp.FailedCompletion
import IocpNetwork.WinIocp.EchoLoop
import IocpNetwork.CompletionLoops
