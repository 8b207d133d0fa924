import OpenKernel.RunInvariants
import OpenKernel.SchedulerTable
import OpenKernel.DispatchLoop
import OpenKernel.FinishCommit
import OpenKernel.CyclicDistance
import OpenKernel.RoundRobinFairness
import OpenKernel.SeparatedText
import OpenKernel.PathMap
import OpenKernel.VfsTree
import OpenKernel.VfsLookup
import OpenKernel.VfsRefinement
import OpenKernel.WorkingDirectory
import OpenKernel.EventAccounting
import OpenKernel.InputEvents
import OpenKernel.InputPolling
import OpenKernel.LockPrograms
import OpenKernel.GrowableDeque
import OpenKernel.InputBuffer
import OpenKernel.KernelLocks
import OpenKernel.InterruptDeadlock
import OpenKernel.CountedLoops
import OpenKernel.Framebuffer
import OpenKernel.VgaFont
import OpenKernel.TextTerminal
import OpenKernel.Console
import OpenKernel.ConsoleRefinement
import OpenKernel.ResolvedPaths
import OpenKernel.BootMemoryMap
import OpenKernel.FrameAllocator
import OpenKernel.ElfLoader
import OpenKernel.ElfImage
import OpenKernel.NetworkStack
import OpenKernel.Shell
import OpenKernel.ConsoleSafety
import OpenKernel.LineEcho
import OpenKernel.ConsoleErasing
import OpenKernel.LineQueue
import OpenKernel.StoreHistory
import OpenKernel.RamDisk
import OpenKernel.ProcessMemory
import OpenKernel.PathSplitters
import OpenKernel.CalendarTime
import OpenKernel.Rtc
import OpenKernel.RtcReads
import OpenKernel.MemoryHandOff
import OpenKernel.KeyboardStream
import OpenKernel.ShellFiles
import OpenKernel.ScrollCopy
import OpenKernel.CommandEffects
import OpenKernel.MainLoop
import OpenKernel.LoopRefinement
import OpenKernel.TypedSessions
import OpenKernel.PathShell
import OpenKernel.ClientPrograms
import OpenKernel.PageMapper
import OpenKernel.HeapSetup
import OpenKernel.TaskLifetimes
import OpenKernel.NumberText
import OpenKernel.ReusedReplies
import OpenKernel.Network
import OpenKernel.TaskReports
import OpenKernel.KernelHalts
import OpenKernel.LoopPacing
import OpenKernel.LoggerLifetime
import OpenKernel.BootChain
