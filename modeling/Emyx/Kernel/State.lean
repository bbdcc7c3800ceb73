/-
  File:      Emyx/Kernel/State.lean
  Subject:   THE STATE OF THE KERNEL: tasks (sched.c), process records (user.c), and the memory
             they live in.

  A task's saved context (its stack pointer and what lies on its stack) is modelled by `Cont`:
  where the task goes on when it is switched to. The tables have 16 slots each (`MAX_TASKS`,
  `USER_PROCESS_MAX`), so a slot is a `Fin 16`; a pointer to a record is its slot.

  `Ctl` is the part that the scheduler and the process table are about; `Kernel` adds memory, the
  processor's registers, the keyboard and the screen.
-/
import Emyx.Initramfs
import Emyx.Keyboard
import Emyx.Mm

namespace Emyx

open Lib

/-- `MAX_TASKS` and `USER_PROCESS_MAX` are not zero. -/
instance instNeZeroSlots : NeZero 16 := ⟨by decide⟩

/-! ## 1. Tasks -/

/-- `task_state` -/
inductive TaskState where
  | unused
  | runnable
  | running
  | zombie
  deriving DecidableEq, Repr

/-- The function a task starts with: `user_exec_task`, or another kernel function. -/
inductive Entry where
  | userExecTask
  | thread
  deriving DecidableEq, Repr

/-- Where a task goes on. -/
inductive Cont where
  /-- in `kthread_trampoline`, before it calls `entry` -/
  | start
  /-- in kernel code of its own: task 0, or a kernel thread's function -/
  | kernel
  /-- in user mode, or about to return to it from a system call -/
  | user
  /-- in the loop of `user_wait(pid)`, after `sched_yield`; `caller` is the caller's record -/
  | waiting (caller : Fin 16) (pid : Nat)
  deriving DecidableEq, Repr

/-- `task` -/
structure Task where
  id : Nat
  state : TaskState
  addressSpace : Nat
  stack : Nat
  entry : Option Entry
  cont : Cont
  deriving DecidableEq, Repr

/-- An unused slot, as `sched_init` and `task_cleanup` leave it. -/
def Task.empty : Task := ⟨0, .unused, 0, 0, none, .start⟩

/-! ## 2. Process records -/

/-- `user_process_state` -/
inductive ProcessState where
  | free
  | created
  | running
  | exited
  deriving DecidableEq, Repr

/-- `user_page` -/
structure UserPage where
  vaddr : Nat
  paddr : Nat
  deriving DecidableEq, Repr

/-- `user_process`; `pages` is `pages[0 .. page_count)`, `path` the bytes before the terminator. -/
structure UserProcess where
  pid : Nat
  taskId : Nat
  parentPid : Nat
  addressSpace : Nat
  entry : Nat
  stack : Nat
  stackSize : Nat
  exitStatus : Nat
  state : ProcessState
  path : List Byte
  pages : List UserPage
  deriving DecidableEq, Repr

/-- A record of zero bytes. -/
def UserProcess.zero : UserProcess := ⟨0, 0, 0, 0, 0, 0, 0, 0, .free, [], []⟩

/-! ## 3. The kernel -/

/-- The tables of the scheduler and of the processes. -/
structure Ctl where
  tasks : Fin 16 → Task
  currentTask : Fin 16
  nextTaskId : Nat
  processes : Fin 16 → UserProcess
  nextPid : Nat

structure Kernel extends Ctl where
  mm : Mm
  /-- the directory last given to `paging_load_directory` -/
  cr3 : Nat
  /-- the stack the processor switches to when it leaves user mode -/
  esp0 : Nat
  bootModule : BootModule
  /-- the address of `kthread_trampoline` -/
  kthreadTrampoline : Nat
  keyboard : Keyboard
  /-- what was sent to the terminal -/
  console : List Byte

/-- The conversion of a `uint32_t` to `int`. -/
def toInt32 (n : Nat) : Int := if n < 2 ^ 31 then n else n - 2 ^ 32

theorem toInt32_nonneg {a : Nat} (h : a < 2 ^ 31) : 0 ≤ toInt32 a := by
  unfold toInt32
  rw [if_pos h]
  exact Int.natCast_nonneg a

theorem toInt32_toNat {n : Nat} (hn : n < 2 ^ 32) (h : 0 ≤ toInt32 n) :
    (toInt32 n).toNat = n := by
  unfold toInt32 at h ⊢
  split_ifs at h ⊢ with hlt
  · exact Int.toNat_natCast n
  · omega

end Emyx
