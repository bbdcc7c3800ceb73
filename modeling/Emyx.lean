import Emyx.Lib.Bits
import Emyx.Lib.Memory
import Emyx.Lib.Outcome
import Emyx.Machine
import Emyx.Multiboot
import Emyx.Pmm.Bitmap
import Emyx.Pmm.Init
import Emyx.Pmm.Run
import Emyx.Initramfs
import Emyx.ModuleSurvival
import Emyx.Heap.Model
import Emyx.Heap.Blocks
import Emyx.Heap.Spec
import Emyx.Heap.Run
import Emyx.Lib.Ownership
import Emyx.Vmm.Walk
import Emyx.Vmm.Model
import Emyx.Vmm.Invariant
import Emyx.Vmm.Init
import Emyx.Vmm.Spec
import Emyx.Vmm.Run
import Emyx.Vmm.Refine
import Emyx.Vmm.KernelHalf
import Emyx.Kernel.Sched
import Emyx.Kernel.User
import Emyx.Kernel.Step
import Emyx.Kernel.Control
import Emyx.Kernel.Tables
import Emyx.Kernel.ProcessTable
import Emyx.Kernel.ExitStatus
import Emyx.Kernel.Memory
import Emyx.Pmm.Placement
import Emyx.Pmm.Accounting
import Emyx.Pmm.RealRam
import Emyx.Lib.Orbit
import Emyx.MmapWalk
import Emyx.Vmm.Rights
import Emyx.KeyboardIrq
import Emyx.ContextSwitch
import Emyx.Archive
import Emyx.Kernel.Stacks
import Emyx.Kernel.Threads
import Emyx.Kernel.Spaces
import Emyx.Kernel.Processes
import Emyx.Heap.Tiling
import Emyx.Overlap
import Emyx.Heap.Answer
import Emyx.Lookup
import Emyx.Vmm.Clients
import Emyx.Kernel.Runs
import Emyx.Kernel.Calls
import Emyx.Kernel.Spawn
import Emyx.Kernel.Load
import Emyx.Kernel.Forward
import Emyx.PrintkFormat
import Emyx.Terminal
import Emyx.Kshell
import Emyx.Kernel.RoundRobin
import Emyx.Pmm.Search
import Emyx.Lib.Coverage
import Emyx.Pmm.KernelLocation
import Emyx.Vmm.Bootstrap
import Emyx.Kernel.Emxf
import Emyx.Kernel.SmallMachine
import Emyx.Kernel.Scenes
import Emyx.Kernel.Wrap
import Emyx.Kernel.ParentChild
import Emyx.Kernel.Partition
import Emyx.Kernel.Loaded
import Emyx.Kernel.Isolation
import Emyx.Kernel.Shared
import Emyx.Kernel.Stale
import Emyx.Kernel.Syscall
import Emyx.Kernel.Progress
import Emyx.Kernel.FailedSpawn
import Emyx.Kernel.Events
import Emyx.Kernel.Untouched
import Emyx.Kernel.Programs
import Emyx.Kernel.Damage
import Emyx.Kernel.Disclosure
import Emyx.Lib.Family
import Emyx.Kernel.Family
import Emyx.Lib.Trap
import Emyx.Descriptors
import Emyx.Stubs
import Emyx.Exceptions
import Emyx.UserMode
import Emyx.Lib.Pic
import Emyx.Pic
import Emyx.KshellLoop
