/-
  File:      Emyx/Kernel/Sched.lean
  Subject:   THE SCHEDULER (sched.c, arch/i386/sched.c): cooperative, round robin over 16 slots.

  `sched_yield` does not return to its caller in the model: it switches to another task's context,
  and that task goes on by its `Cont`. `schedYield` says whether it switched.

  * `Ctl.reap`, `Ctl.switchTo`, `Ctl.addTask` -- what the functions do to the tables;
  * `reapZombies_ctl`, `kthreadCreate_ctl`, `schedYield_ctl`, `kthreadExit_ctl` -- each function,
    when it returns, did that to the tables and left the rest of the kernel's control state alone.
-/
import Emyx.Heap.Model
import Emyx.Kernel.State
import Emyx.Printk
import Emyx.Vmm.Model

namespace Emyx

open Lib

/-! ## 1. The functions -/

/-- `sched_current_task_id` -/
def schedCurrentTaskId (c : Ctl) : Nat := (c.tasks c.currentTask).id

/-- `sched_set_current_address_space` -/
def schedSetCurrentAddressSpace (k : Kernel) (addressSpace : Nat) : Int × Kernel :=
  if k.currentTask = 0 ∨ addressSpace = 0 then (-1, k)
  else
    let t := { k.tasks k.currentTask with addressSpace := addressSpace }
    (0, { k with tasks := Function.update k.tasks k.currentTask t, cr3 := addressSpace })

/-- `(stack + size) & ~15`, the aligned top of a kernel stack. -/
def stackTop (stack : Nat) : Nat := (stack + 2048) % 2 ^ 32 &&& 0xfffffff0

theorem land_align16 {v : Nat} (h : v < 2 ^ 32) : v &&& 0xfffffff0 = v / 16 * 16 := by
  rw [show 0xfffffff0 = 2 ^ 32 - 2 ^ 4 from rfl, land_highMask (by decide) h]
  rfl

/-- `sched_prepare_kthread_stack`, on memory. -/
def schedPrepareKthreadStack (m : Mem) (stack trampoline : Nat) : Except Stop Mem := do
  let top := stackTop stack
  let m ← poke32 m (top - 4) 0
  let m ← poke32 m (top - 8) trampoline
  let m ← poke32 m (top - 12) 0
  let m ← poke32 m (top - 16) 0
  let m ← poke32 m (top - 20) 0
  poke32 m (top - 24) 0

/-- `task_cleanup` -/
def taskCleanup (k : Kernel) (idx : Fin 16) : Except Stop Kernel := do
  let t := k.tasks idx
  let mm ← (if t.addressSpace ≠ 0 ∧ t.addressSpace ≠ k.mm.kernelPageDirectory then
    vmmDestroyAddressSpace k.mm t.addressSpace else .ok k.mm)
  let mm ← (if t.stack ≠ 0 then kfree mm t.stack else .ok mm)
  return { k with tasks := Function.update k.tasks idx Task.empty, mm := mm }

/-- The slots 1 … 15. -/
def slots : List (Fin 16) := (List.finRange 16).tail

/-- `reap_zombies` -/
def reapZombies (k : Kernel) : Except Stop Kernel :=
  slots.foldlM (fun k i =>
    if i = k.currentTask ∨ (k.tasks i).state ≠ .zombie then .ok k else taskCleanup k i) k

/-- The slot `kthread_create` takes. -/
def Ctl.freeSlot (c : Ctl) : Option (Fin 16) := slots.find? fun i => (c.tasks i).state = .unused

/-- `kthread_create` -/
def kthreadCreate (k : Kernel) (entry : Option Entry) : Except Stop (Int × Kernel) :=
  match entry with
  | none => return (-1, k)
  | some entry => do
    let k ← reapZombies k
    match k.freeSlot with
    | none => return (-1, k)
    | some i => do
      let (stack, mm) ← kmalloc k.mm 2048
      if stack = 0 then return (-1, { k with mm := mm })
      else do
        let id := k.nextTaskId
        let m ← schedPrepareKthreadStack mm.mem stack k.kthreadTrampoline
        let t : Task := ⟨id, .runnable, mm.kernelPageDirectory, stack, some entry, .start⟩
        return (toInt32 id,
          { k with mm := { mm with mem := m }, nextTaskId := (id + 1) % 2 ^ 32,
                   tasks := Function.update k.tasks i t })

/-- The slot `sched_yield` switches to: the first runnable one after the current one. -/
def Ctl.nextRunnable (c : Ctl) : Option (Fin 16) :=
  ((List.finRange 16).map fun i => c.currentTask + 1 + i).find? fun idx =>
    (c.tasks idx).state = .runnable

/-- The tables after the switch to `idx`. -/
def Ctl.switchTo (c : Ctl) (idx : Fin 16) : Ctl :=
  let old := c.tasks c.currentTask
  let tasks := if old.state = .running then
    Function.update c.tasks c.currentTask { old with state := .runnable } else c.tasks
  { c with tasks := Function.update tasks idx { tasks idx with state := .running },
           currentTask := idx }

/-- `sched_yield`, and whether it switched. -/
def schedYield (k : Kernel) : Except Stop (Bool × Kernel) := do
  let k ← reapZombies k
  match k.nextRunnable with
  | none => return (false, { k with console := k.console ++ ascii "sched: no runnable tasks\n" })
  | some idx =>
    let k := { k with toCtl := k.switchTo idx }
    let esp0 := if (k.tasks idx).stack ≠ 0 then stackTop (k.tasks idx).stack else k.esp0
    return (true, { k with esp0 := esp0, cr3 := (k.tasks idx).addressSpace })

/-- Where the current task goes on when it is switched to again. -/
def Ctl.setCont (c : Ctl) (cont : Cont) : Ctl :=
  { c with tasks := Function.update c.tasks c.currentTask
                      { c.tasks c.currentTask with cont := cont } }

/-- The current task becomes a zombie. -/
def Ctl.zombify (c : Ctl) : Ctl :=
  { c with tasks := Function.update c.tasks c.currentTask
                      { c.tasks c.currentTask with state := .zombie } }

/-- `kthread_exit` -/
def kthreadExit (k : Kernel) : Except Stop Kernel :=
  if k.currentTask = 0 then .error (.panic "sched: task 0 exited")
  else do
    let (switched, k) ← schedYield { k with toCtl := k.zombify }
    if switched then return k else .error (.panic "sched: zombie task resumed")

/-! ## 2. What they do to the tables -/

/-- The tables after `reap_zombies`: no zombie is left but the current task. -/
def Ctl.reap (c : Ctl) : Ctl :=
  { c with tasks := fun i =>
      if i ≠ 0 ∧ i ≠ c.currentTask ∧ (c.tasks i).state = .zombie then Task.empty
      else c.tasks i }

/-- The tables after `kthread_create` filled slot `i`. -/
def Ctl.addTask (c : Ctl) (i : Fin 16) (t : Task) : Ctl :=
  { c with tasks := Function.update c.tasks i t, nextTaskId := (t.id + 1) % 2 ^ 32 }

theorem taskCleanup_ctl {k k' : Kernel} {i : Fin 16} (h : taskCleanup k i = .ok k') :
    k' = { k with tasks := Function.update k.tasks i Task.empty, mm := k'.mm } := by
  obtain ⟨mm₁, -, h⟩ := bind_ok.mp h
  obtain ⟨mm₂, -, h⟩ := bind_ok.mp h
  cases h
  rfl

/-- The loop of `reap_zombies` over the slots `l`. -/
theorem reap_loop (l : List (Fin 16)) {k k' : Kernel}
    (h : l.foldlM (fun k i => if i = k.currentTask ∨ (k.tasks i).state ≠ .zombie then .ok k
      else taskCleanup k i) k = .ok k') :
    k' = { k with mm := k'.mm, tasks := fun i =>
      if i ∈ l ∧ i ≠ k.currentTask ∧ (k.tasks i).state = .zombie then Task.empty
      else k.tasks i } := by
  induction l generalizing k with
  | nil => cases h; simp
  | cons j l ih =>
    obtain ⟨k₁, h₁, h⟩ := bind_ok.mp h
    have hrest := ih h
    by_cases hj : j = k.currentTask ∨ (k.tasks j).state ≠ .zombie
    · cases (if_pos hj).symm.trans h₁
      rw [hrest]
      congr 2
      funext i
      by_cases hi : i = j
      · subst hi
        rw [if_neg (by tauto), if_neg (by tauto)]
      · simp [hi]
    · have hclean := taskCleanup_ctl ((if_neg hj).symm.trans h₁)
      rw [hrest, hclean]
      congr 2
      funext i
      by_cases hi : i = j
      · subst hi
        rw [not_or, not_not] at hj
        simp [hj.1, hj.2]
      · simp [hi]

theorem mem_slots (i : Fin 16) : i ∈ slots ↔ i ≠ 0 := by
  revert i; decide

/-- **`reap_zombies` empties the slots of the zombies that do not run**, and changes memory and
    nothing else. -/
theorem reapZombies_ctl {k k' : Kernel} (h : reapZombies k = .ok k') :
    k' = { k with toCtl := k.reap, mm := k'.mm } := by
  rw [reap_loop slots h]
  simp only [mem_slots]
  rfl

theorem kthreadCreate_ctl {k k' : Kernel} {e : Entry} {r : Int}
    (h : kthreadCreate k (some e) = .ok (r, k')) :
    (r = -1 ∧ k' = { k with toCtl := k.reap, mm := k'.mm }) ∨
    ∃ i t, k.reap.freeSlot = some i ∧ t.id = k.nextTaskId ∧ t.state = .runnable ∧
      t.entry = some e ∧ t.cont = .start ∧ r = toInt32 k.nextTaskId ∧
      k' = { k with toCtl := k.reap.addTask i t, mm := k'.mm } := by
  obtain ⟨k₁, h₁, h⟩ := bind_ok.mp h
  rw [reapZombies_ctl h₁] at h
  dsimp only at h
  cases hi : k.reap.freeSlot with
  | none =>
    rw [hi] at h
    cases h
    exact .inl ⟨rfl, rfl⟩
  | some i =>
    rw [hi] at h
    obtain ⟨⟨stack, mm⟩, -, h⟩ := bind_ok.mp h
    dsimp only at h
    by_cases hs : stack = 0
    · rw [if_pos hs] at h
      cases h
      exact .inl ⟨rfl, rfl⟩
    · rw [if_neg hs] at h
      obtain ⟨m, -, h⟩ := bind_ok.mp h
      cases h
      exact .inr ⟨i, _, rfl, rfl, rfl, rfl, rfl, rfl, rfl⟩

theorem schedYield_ctl {k k' : Kernel} {b : Bool} (h : schedYield k = .ok (b, k')) :
    (b = false ∧ k.reap.nextRunnable = none ∧
      k' = { k with toCtl := k.reap, mm := k'.mm, console := k'.console }) ∨
    ∃ idx, b = true ∧ k.reap.nextRunnable = some idx ∧
      k' = { k with toCtl := k.reap.switchTo idx, mm := k'.mm, esp0 := k'.esp0,
                    cr3 := ((k.reap.switchTo idx).tasks idx).addressSpace } := by
  obtain ⟨k₁, h₁, h⟩ := bind_ok.mp h
  rw [reapZombies_ctl h₁] at h
  dsimp only at h
  cases hi : k.reap.nextRunnable with
  | none =>
    rw [hi] at h
    cases h
    exact .inl ⟨rfl, rfl, rfl⟩
  | some idx =>
    rw [hi] at h
    cases h
    exact .inr ⟨idx, rfl, rfl, rfl⟩

theorem kthreadExit_ctl {k k' : Kernel} (h : kthreadExit k = .ok k') :
    k.currentTask ≠ 0 ∧ ∃ idx, k.zombify.reap.nextRunnable = some idx ∧
      k' = { k with toCtl := k.zombify.reap.switchTo idx, mm := k'.mm, esp0 := k'.esp0,
                    cr3 := ((k.zombify.reap.switchTo idx).tasks idx).addressSpace } := by
  unfold kthreadExit at h
  by_cases h0 : k.currentTask = 0
  · rw [if_pos h0] at h
    cases h
  · rw [if_neg h0] at h
    obtain ⟨⟨b, k₁⟩, h₁, h⟩ := bind_ok.mp h
    cases b with
    | false => cases h
    | true =>
      cases h
      obtain ⟨hb, -⟩ | ⟨idx, -, hn, hk⟩ := schedYield_ctl h₁
      · cases hb
      · exact ⟨h0, idx, hn, hk⟩

end Emyx
