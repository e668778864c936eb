import NosmeriOs.Bytes
import NosmeriOs.SimpleFs
import NosmeriOs.SimpleFsView
import NosmeriOs.SimpleFsInvariant
import NosmeriOs.SimpleFsOps
import NosmeriOs.DirTree
import NosmeriOs.SimpleFsRefine
import NosmeriOs.Vfs
import NosmeriOs.VfsRun
import NosmeriOs.SimpleFsAlloc
import NosmeriOs.VfsErrors
import NosmeriOs.VfsFiles
import NosmeriOs.Paths
import NosmeriOs.VfsPath
import NosmeriOs.Bitmap
import NosmeriOs.Pmm
import NosmeriOs.PmmSafety
import NosmeriOs.PmmPreemption
import NosmeriOs.PmmAvailable
import NosmeriOs.Memory
import NosmeriOs.Links
import NosmeriOs.Heap
import NosmeriOs.HeapBlocks
import NosmeriOs.HeapRun
import NosmeriOs.Ring
import NosmeriOs.HeapOwned
import NosmeriOs.HeapCanonical
import NosmeriOs.HeapFit
import NosmeriOs.Vmm
import NosmeriOs.VmmSpec
import NosmeriOs.VmmHeap
import NosmeriOs.Tasks
import NosmeriOs.TaskSpec
import NosmeriOs.TaskProgress
import NosmeriOs.TaskList
import NosmeriOs.TaskRing
import NosmeriOs.TaskContext
import NosmeriOs.TaskInsertion
import NosmeriOs.TaskFiles
import NosmeriOs.TaskOpenClose
import NosmeriOs.Ledger
import NosmeriOs.FrameUse
import NosmeriOs.FrameBytes
import NosmeriOs.TaskFrames
import NosmeriOs.TaskIsolation
import NosmeriOs.HeapPages
import NosmeriOs.X86
import NosmeriOs.ContextSwitch
import NosmeriOs.VfsSession
import NosmeriOs.VfsRoundTrip
import NosmeriOs.VfsResolve
import NosmeriOs.VfsGetPath
import NosmeriOs.VfsCursor
import NosmeriOs.HostTool
import NosmeriOs.HostToolSpec
import NosmeriOs.HostToolPut
import NosmeriOs.HostToolRun
import NosmeriOs.HostToolKernel
import NosmeriOs.TaskBytes
import NosmeriOs.TaskLeftover
import NosmeriOs.PmmStatistics
import NosmeriOs.RingBuffer
import NosmeriOs.Keyboard
import NosmeriOs.TaskSchedule
import NosmeriOs.TaskSleep
import NosmeriOs.VmmWalk
import NosmeriOs.TaskDirectory
import NosmeriOs.TaskPrograms
import NosmeriOs.TaskExhausted
import NosmeriOs.HeapTables
import NosmeriOs.TaskFailure
import NosmeriOs.Terminal
import NosmeriOs.Vga
import NosmeriOs.Console
import NosmeriOs.Numerals
import NosmeriOs.Itoa
import NosmeriOs.Atoi
import NosmeriOs.Shell
import NosmeriOs.TaskLeak
import NosmeriOs.HeapSpaces
import NosmeriOs.TaskStacks
import NosmeriOs.TaskSwitch
import NosmeriOs.PortIo
import NosmeriOs.Ata
import NosmeriOs.AtaDriver
import NosmeriOs.DiskProg
import NosmeriOs.AtaSimpleFs
import NosmeriOs.AtaVfs
import NosmeriOs.PowerLoss
import NosmeriOs.TaskFairness
import NosmeriOs.Interrupts
import NosmeriOs.InterruptStubs
import NosmeriOs.InterruptRun
import NosmeriOs.TreeShell
import NosmeriOs.VfsTree
import NosmeriOs.ShellFiles
import NosmeriOs.ShellRefine
import NosmeriOs.ShellReadBack
import NosmeriOs.Pic8259
import NosmeriOs.Pic
import NosmeriOs.PicRun
