/-
  File:      Emyx/Kernel/Step.lean
  Subject:   RUNS OF THE KERNEL: what the current task may do next, and the states reached.

  One step is one call by the task that is running: the kernel is not preempted, so between two
  calls of `sched_yield` a task has the tables to itself. What a task may do is given by its
  `Cont`: kernel code spawns, creates threads and yields; user code makes system calls and stores
  to its own pages; a task that has just been switched to runs its entry, or goes on waiting.

  `user_wait` and `user_exit_current` are called by system calls only.
-/
import Emyx.Kernel.User

namespace Emyx

open Lib

/-! ## 1. Steps -/

inductive Op where
  /-- `user_spawn`, from kernel code or by the system call -/
  | spawn (path : Option (List Byte))
  /-- `kthread_create` of a kernel thread -/
  | create
  /-- `sched_yield`, from kernel code or by the system call -/
  | yield
  /-- a task that was never switched to runs its entry -/
  | start
  /-- the system call `wait` -/
  | wait (pid : Nat)
  /-- a task goes on in the loop of `user_wait` -/
  | resume
  /-- the system call `exit` -/
  | exit (status : Nat)
  /-- a kernel thread's function returns -/
  | threadExit
  /-- user code stores the byte `b` at `v` -/
  | store (v : Nat) (b : Byte)

/-- The current task's `Cont`. -/
def Ctl.cont (c : Ctl) : Cont := (c.tasks c.currentTask).cont

/-- The task that is running is at a point where it can do this. -/
def Op.Legal (c : Ctl) : Op → Prop
  | .spawn _ => c.cont = .kernel ∨ c.cont = .user
  | .create => c.cont = .kernel
  | .yield => c.cont = .kernel ∨ c.cont = .user
  | .start => c.cont = .start
  | .wait pid => c.cont = .user ∧ pid < 2 ^ 32
  | .resume => ∃ caller pid, c.cont = .waiting caller pid
  | .exit status => c.cont = .user ∧ status < 2 ^ 32
  | .threadExit => c.cont = .kernel
  | .store v _ => c.cont = .user ∧ v < 2 ^ 32

/-- `kthread_trampoline` from its start. -/
def kthreadTrampoline (k : Kernel) : Except Stop Kernel :=
  match (k.tasks k.currentTask).entry with
  | some .userExecTask => do
    let (entered, k) ← userExecTask k
    if entered then return k else kthreadExit k
  | _ => return { k with toCtl := k.setCont .kernel }

/-- `sys_exit` -/
def sysExit (k : Kernel) (status : Nat) : Except Stop Kernel := do
  let k ← userExitCurrent k status
  kthreadExit { k with console := k.console ++ ascii "user: exited status=" ++ u32ToHex status ++
                                  ascii "\n" }

/-- One step, and the value the call returned (`none` when it returns nothing, or not yet). -/
def Kernel.exec (k : Kernel) : Op → Except Stop (Option Int × Kernel)
  | .spawn path => do
    let (r, k) ← userSpawn k path
    return (some r, k)
  | .create => do
    let (r, k) ← kthreadCreate k (some .thread)
    return (some r, k)
  | .yield => do
    let (_, k) ← schedYield k
    return (none, k)
  | .start => do
    let k ← Emyx.kthreadTrampoline k
    return (none, k)
  | .wait pid => userWait k pid
  | .resume =>
    match k.cont with
    | .waiting caller pid => waitLoop k caller pid
    | _ => return (none, k)
  | .exit status => do
    let k ← sysExit k status
    return (none, k)
  | .threadExit => do
    let k ← kthreadExit k
    return (none, k)
  | .store v b =>
    match userPhys k.mm.mem k.cr3 v true with
    | some a => return (none, { k with mm := { k.mm with mem := wr8 k.mm.mem a b } })
    | none => .error (.pageFault v)

/-! ## 2. Runs -/

/-- `sched_init`, on a kernel whose memory management is up: task 0 is what runs. -/
def schedInit (mm : Mm) (bootModule : BootModule) (kthreadTrampoline esp0 : Nat) : Kernel :=
  { tasks := fun i =>
      if i = 0 then ⟨0, .running, mm.kernelPageDirectory, 0, none, .kernel⟩ else Task.empty
    currentTask := 0
    nextTaskId := 1
    processes := fun _ => UserProcess.zero
    nextPid := 1
    mm := mm
    cr3 := mm.kernelPageDirectory
    esp0 := esp0
    bootModule := bootModule
    kthreadTrampoline := kthreadTrampoline
    keyboard := ⟨fun _ => 0, 0, 0⟩
    console := [] }

/-- The kernel `k` is reached from `k0` by the steps `ops`, each of which met the condition `C`
    between the states before and after it. -/
inductive KRun (C : Kernel → Op → Kernel → Prop) (k0 : Kernel) : List Op → Kernel → Prop where
  | boot : KRun C k0 [] k0
  | step {ops : List Op} {k k' : Kernel} {op : Op} {r : Option Int} : KRun C k0 ops k →
    op.Legal k.toCtl → C k op k' → k.exec op = .ok (r, k') → KRun C k0 (ops ++ [op]) k'

/-- A step of any kind. -/
def AnyStep (_ : Kernel) (_ : Op) (_ : Kernel) : Prop := True

end Emyx
