/-
  File:      Emyx/Kernel/Control.lean
  Subject:   THE KERNEL'S CONTROL, WITHOUT MEMORY: what a step can do to the tables of the scheduler
             and of the processes.

  Whether a step finds memory, a file or a well-formed program depends on the rest of the kernel;
  here it may go either way. `exec_ctl` connects the two levels: every step of the kernel is a
  step of its control. What holds of the tables in every run is proved of `CtlStep`.

  * `exec_ctl` -- **the kernel refines its control**.
-/
import Emyx.Kernel.Step

namespace Emyx

open Lib

/-! ## 1. Steps -/

/-- `sched_yield` switches. -/
def YieldsTo (c c' : Ctl) : Prop :=
  ∃ idx, c.reap.nextRunnable = some idx ∧ c' = c.reap.switchTo idx

/-- `kthread_exit` switches. -/
def ExitsTo (c c' : Ctl) : Prop := c.currentTask ≠ 0 ∧ YieldsTo c.zombify c'

/-- `kthread_create` fills the slot `j` with `t`, which starts in `e`. -/
structure NewTask (c : Ctl) (e : Entry) (j : Fin 16) (t : Task) : Prop where
  slot : c.reap.freeSlot = some j
  id : t.id = c.nextTaskId
  state : t.state = .runnable
  entry : t.entry = some e
  cont : t.cont = .start

/-- The record that `user_spawn` leaves for `path` and the directory `d`. -/
def Ctl.spawned (c : Ctl) (path : List Byte) (d : Nat) : UserProcess :=
  { UserProcess.fresh with
    pid := c.nextPid, parentPid := c.callerPid, path := path, addressSpace := d
    taskId := (toInt32 c.nextTaskId).toNat }

/-- The step goes on in `user_wait`: the caller's record and the pid it waits for. -/
def Op.waiter (c : Ctl) : Op → Option (Fin 16 × Nat)
  | .wait pid => c.caller.map fun i => (i, pid)
  | .resume =>
    match c.cont with
    | .waiting i pid => some (i, pid)
    | _ => none
  | _ => none

/-- What a step does to the tables, and what the call returns. -/
inductive CtlStep (c : Ctl) : Op → Option Int → Ctl → Prop where
  | spawnRefused (path) : CtlStep c (.spawn path) (some (-1)) c
  | spawnNoDirectory (path i) (hi : userProcessAlloc c.processes = some i) :
    CtlStep c (.spawn path) (some (-1)) (c.skipPid i)
  | spawnNoTask (path i) (hi : userProcessAlloc c.processes = some i) :
    CtlStep c (.spawn path) (some (-1)) (c.skipPid i).reap
  | spawnBadId (path i j t) (hi : userProcessAlloc c.processes = some i)
    (ht : NewTask c .userExecTask j t) (hid : toInt32 c.nextTaskId < 0) :
    CtlStep c (.spawn path) (some (-1)) ((c.skipPid i).reap.addTask j t)
  | spawn (path i j t d) (hi : userProcessAlloc c.processes = some i)
    (ht : NewTask c .userExecTask j t) (hid : 0 ≤ toInt32 c.nextTaskId) :
    CtlStep c (.spawn (some path)) (some (toInt32 c.nextPid))
      ((c.addProcess i (c.spawned path d)).reap.addTask j t)
  | createFails : CtlStep c .create (some (-1)) c.reap
  | create (j t) (ht : NewTask c .thread j t) :
    CtlStep c .create (some (toInt32 c.nextTaskId)) (c.reap.addTask j t)
  | yieldStays (hn : c.reap.nextRunnable = none) : CtlStep c .yield none c.reap
  | yield (c') (h : YieldsTo c c') : CtlStep c .yield none c'
  | startThread (he : (c.tasks c.currentTask).entry ≠ some .userExecTask) :
    CtlStep c .start none (c.setCont .kernel)
  | startNoRecord (c') (he : (c.tasks c.currentTask).entry = some .userExecTask)
    (hc : c.caller = none) (h : ExitsTo c c') : CtlStep c .start none c'
  | startFails (i c') (he : (c.tasks c.currentTask).entry = some .userExecTask)
    (hc : c.caller = some i)
    (h : ExitsTo { c with processes := userProcessRelease c.processes i } c') :
    CtlStep c .start none c'
  | start (i p) (he : (c.tasks c.currentTask).entry = some .userExecTask)
    (hc : c.caller = some i) (hp : (c.processes i).SameButLoaded p) (h0 : c.currentTask ≠ 0) :
    CtlStep c .start none (c.enter i p)
  | waitNoCaller (pid) (hc : c.caller = none) : CtlStep c (.wait pid) (some (-1)) c
  | waitReturns (op i pid r ps) (hop : op.waiter c = some (i, pid))
    (hr : waitTurn c.processes i pid = some (r, ps)) :
    CtlStep c op (some r) { c.setCont .user with processes := ps }
  | waitYields (op i pid c') (hop : op.waiter c = some (i, pid))
    (hr : waitTurn c.processes i pid = none) (h : YieldsTo (c.setCont (.waiting i pid)) c') :
    CtlStep c op none c'
  | exitNoRecord (status c') (hc : c.caller = none) (h : ExitsTo c c') :
    CtlStep c (.exit status) none c'
  | exit (status i c') (hc : c.caller = some i)
    (h : ExitsTo { c with processes := c.exitRecords i status } c') :
    CtlStep c (.exit status) none c'
  | threadExit (c') (h : ExitsTo c c') : CtlStep c .threadExit none c'
  | store (v b) : CtlStep c (.store v b) none c

/-! ## 2. The kernel refines its control -/

theorem kthreadExit_exitsTo {k k' : Kernel} (h : kthreadExit k = .ok k') :
    ExitsTo k.toCtl k'.toCtl := by
  obtain ⟨h0, idx, hn, hk⟩ := kthreadExit_ctl h
  exact ⟨h0, idx, hn, by rw [hk]⟩

theorem spawn_ctl {k k' : Kernel} {path : Option (List Byte)} {r : Int}
    (h : userSpawn k path = .ok (r, k')) : CtlStep k.toCtl (.spawn path) (some r) k'.toCtl := by
  unfold userSpawn at h
  cases path with
  | none =>
    cases h
    exact .spawnRefused _
  | some path =>
    dsimp only at h
    split_ifs at h with hlen
    · cases h
      exact .spawnRefused _
    obtain ⟨file, -, h⟩ := bind_ok.mp h
    cases file with
    | none =>
      cases h
      exact .spawnRefused _
    | some f =>
      dsimp only at h
      cases hi : userProcessAlloc k.processes with
      | none =>
        rw [hi] at h
        cases h
        exact .spawnRefused _
      | some i =>
        rw [hi] at h
        change spawnInto { k with
          processes := Function.update k.processes i
            { UserProcess.fresh with pid := k.nextPid, parentPid := k.callerPid, path := path }
          nextPid := (k.nextPid + 1) % 2 ^ 32 } i = _ at h
        obtain ⟨rfl, hk⟩ | ⟨rfl, hk⟩ | ⟨j, t, hj, ht, hs, he, hc, hcase⟩ := spawnInto_ctl h
        · rw [hk]
          simp only [userProcessRelease, Function.update_idem]
          exact .spawnNoDirectory _ i hi
        · rw [hk]
          simp only [userProcessRelease, Function.update_idem]
          exact .spawnNoTask _ i hi
        · obtain ⟨hneg, rfl, hk⟩ | ⟨d, hpos, rfl, hk⟩ := hcase
          · rw [hk]
            simp only [userProcessRelease, Function.update_idem]
            exact .spawnBadId _ i j t hi ⟨hj, ht, hs, he, hc⟩ hneg
          · rw [hk]
            simp only [Function.update_idem, Function.update_self]
            exact .spawn path i j t d hi ⟨hj, ht, hs, he, hc⟩ hpos

theorem start_ctl {k k' : Kernel} (h : kthreadTrampoline k = .ok k') :
    CtlStep k.toCtl .start none k'.toCtl := by
  unfold kthreadTrampoline at h
  by_cases he : (k.tasks k.currentTask).entry = some .userExecTask
  · rw [he] at h
    obtain ⟨⟨entered, k₁⟩, h₁, h₂⟩ := bind_ok.mp h
    obtain ⟨hc, rfl, rfl⟩ | ⟨i, hc, hcase⟩ := userExecTask_ctl h₁
    · exact .startNoRecord _ he hc (kthreadExit_exitsTo h₂)
    · obtain ⟨rfl, hk₁⟩ | ⟨p, hp, rfl, h0, -, hk₁⟩ := hcase
      · refine .startFails i _ he hc ?_
        rw [← hk₁]
        exact kthreadExit_exitsTo h₂
      · cases h₂
        rw [hk₁]
        exact .start i p he hc hp h0
  · cases hentry : (k.tasks k.currentTask).entry with
    | none =>
      rw [hentry] at h
      cases h
      exact .startThread he
    | some e =>
      rw [hentry] at h
      cases e with
      | userExecTask => exact absurd hentry he
      | thread =>
        cases h
        exact .startThread he

theorem waitLoop_ctl {k k' : Kernel} {op : Op} {i : Fin 16} {pid : Nat} {r : Option Int}
    (hop : op.waiter k.toCtl = some (i, pid)) (h : waitLoop k i pid = .ok (r, k')) :
    CtlStep k.toCtl op r k'.toCtl := by
  unfold waitLoop at h
  cases ht : waitTurn k.processes i pid with
  | some out =>
    rw [ht] at h
    cases h
    exact .waitReturns op i pid _ _ hop ht
  | none =>
    rw [ht] at h
    obtain ⟨⟨b, k₁⟩, h₁, h⟩ := bind_ok.mp h
    obtain ⟨rfl, -, -⟩ | ⟨idx, rfl, hn, hk₁⟩ := schedYield_ctl h₁
    · cases h
    · cases h
      exact .waitYields op i pid _ hop ht ⟨idx, hn, by rw [hk₁]⟩

theorem wait_ctl {k k' : Kernel} {pid : Nat} {r : Option Int} (h : userWait k pid = .ok (r, k')) :
    CtlStep k.toCtl (.wait pid) r k'.toCtl := by
  unfold userWait at h
  rw [Ctl.caller_eq] at h
  cases hc : k.caller with
  | none =>
    rw [hc] at h
    cases h
    exact .waitNoCaller pid hc
  | some i =>
    rw [hc] at h
    exact waitLoop_ctl (by simp [Op.waiter, hc]) h

theorem exit_ctl {k k' : Kernel} {status : Nat} (h : sysExit k status = .ok k') :
    CtlStep k.toCtl (.exit status) none k'.toCtl := by
  obtain ⟨k₁, h₁, h⟩ := bind_ok.mp h
  have hexit := kthreadExit_exitsTo h
  obtain ⟨hc, rfl⟩ | ⟨i, hc, hk₁⟩ := userExitCurrent_ctl h₁
  · exact .exitNoRecord _ _ hc hexit
  · rw [hk₁] at hexit
    exact .exit _ i _ hc hexit

/-- **The kernel refines its control**: a step of the kernel does to the tables what a step of the
    control can do, and returns the same value. -/
theorem exec_ctl {k k' : Kernel} {op : Op} {r : Option Int} (hop : op.Legal k.toCtl)
    (h : k.exec op = .ok (r, k')) : CtlStep k.toCtl op r k'.toCtl := by
  cases op with
  | spawn path =>
    obtain ⟨⟨r', k₁⟩, h₁, h⟩ := bind_ok.mp h
    cases h
    exact spawn_ctl h₁
  | create =>
    obtain ⟨⟨r', k₁⟩, h₁, h⟩ := bind_ok.mp h
    cases h
    obtain ⟨rfl, hk⟩ | ⟨j, t, hj, ht, hs, he, hc, rfl, hk⟩ := kthreadCreate_ctl h₁
    · rw [hk]
      exact .createFails
    · rw [hk]
      exact .create j t ⟨hj, ht, hs, he, hc⟩
  | yield =>
    obtain ⟨⟨b, k₁⟩, h₁, h⟩ := bind_ok.mp h
    cases h
    obtain ⟨-, hn, hk⟩ | ⟨idx, -, hn, hk⟩ := schedYield_ctl h₁
    · rw [hk]
      exact .yieldStays hn
    · exact .yield _ ⟨idx, hn, by rw [hk]⟩
  | start =>
    obtain ⟨k₁, h₁, h⟩ := bind_ok.mp h
    cases h
    exact start_ctl h₁
  | wait pid => exact wait_ctl h
  | resume =>
    obtain ⟨i, pid, hc⟩ := hop
    change (match k.cont with | .waiting caller pid => waitLoop k caller pid | _ => _) = _ at h
    rw [hc] at h
    exact waitLoop_ctl (by simp [Op.waiter, hc]) h
  | exit status =>
    obtain ⟨k₁, h₁, h⟩ := bind_ok.mp h
    cases h
    exact exit_ctl h₁
  | threadExit =>
    obtain ⟨k₁, h₁, h⟩ := bind_ok.mp h
    cases h
    exact .threadExit _ (kthreadExit_exitsTo h₁)
  | store v b =>
    unfold Kernel.exec at h
    cases hp : userPhys k.mm.mem k.cr3 v true with
    | none =>
      simp only [hp] at h
      cases h
    | some a =>
      simp only [hp] at h
      cases h
      exact .store v b

end Emyx
