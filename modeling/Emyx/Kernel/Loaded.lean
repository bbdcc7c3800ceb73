/-
  File:      Emyx/Kernel/Loaded.lean
  Subject:   THE LOADED DIRECTORY: the processor is on the address space of the task that runs, and
             that address space is there.

  * `CtlStep.keepsSpace` -- a step other than a task's first leaves the address space of the task
    that made it alone;
  * `DirectoryLoaded` -- the directory last loaded is the running task's, its frame is taken, and
    `esp0` is the top of the task's stack;
  * **`directory_loaded`** -- so it is in every run in which each task that is created gets an id
    not in use, and no step destroys the directory while it is loaded;
  * `directory_not_loaded` -- and not when `next_task_id` has come round: the processor is then on
    a directory whose frame is free.
-/
import Emyx.Kernel.Partition

namespace Emyx

open Lib

/-! ## 1. A step leaves the space of its task alone -/

section

variable {c c' : Ctl}

/-- The slot of the task that runs in `c` is still in use in `c'`, on the same address space. -/
def Ctl.KeepsSpace (c c' : Ctl) : Prop :=
  (c'.tasks c.currentTask).state ≠ .unused ∧
    (c'.tasks c.currentTask).addressSpace = (c.tasks c.currentTask).addressSpace

theorem YieldsTo.keepsSpace (h : YieldsTo c c') (hu : (c.tasks c.currentTask).state ≠ .unused) :
    c.KeepsSpace c' := by
  obtain ⟨idx, -, rfl⟩ := h
  obtain ⟨st, he, hidx, hother⟩ := c.reap.switchTo_tasks idx c.currentTask
  unfold Ctl.KeepsSpace
  rw [he, Ctl.reap_current]
  refine ⟨?_, rfl⟩
  by_cases hi : c.currentTask = idx
  · rw [hidx hi]
    exact nofun
  · rw [Ctl.reap_current] at hother
    obtain ⟨hs, -⟩ | ⟨-, -, hs⟩ := hother hi
    · rw [hs]
      exact hu
    · rw [hs]
      exact nofun

/-- What the step did to the slot before it yielded does not matter. -/
theorem Ctl.KeepsSpace.of_update {c₁ : Ctl} {t : Task} (h : c₁.KeepsSpace c')
    (hcur : c₁.currentTask = c.currentTask) (ht : c₁.tasks c.currentTask = t)
    (ha : t.addressSpace = (c.tasks c.currentTask).addressSpace) : c.KeepsSpace c' := by
  unfold Ctl.KeepsSpace at h
  rw [hcur, ht, ha] at h
  exact h

theorem ExitsTo.keepsSpace (h : ExitsTo c c') : c.KeepsSpace c' := by
  have hz : c.zombify.tasks c.currentTask = { c.tasks c.currentTask with state := .zombie } :=
    Function.update_self ..
  refine (h.2.keepsSpace ?_).of_update rfl hz rfl
  rw [show c.zombify.currentTask = c.currentTask from rfl, hz]
  exact nofun

/-- **A step other than a task's first** leaves the address space of its task alone. -/
theorem CtlStep.keepsSpace (hr : c.Runs) {op : Op} {r : Option Int} (hs : CtlStep c op r c')
    (hop : op.Legal c) (hstart : c.cont ≠ .start) : c.KeepsSpace c' := by
  have hu : (c.tasks c.currentTask).state ≠ .unused := hr.live.used
  have hset : ∀ cont, (c.setCont cont).tasks c.currentTask =
      { c.tasks c.currentTask with cont := cont } := fun cont => Function.update_self ..
  by_cases hc : op.creates = true
  · obtain ⟨-, he⟩ := hs.current_kept hr hc
    unfold Ctl.KeepsSpace
    rw [he]
    exact ⟨hu, rfl⟩
  cases hs with
  | yieldStays hn =>
    unfold Ctl.KeepsSpace
    rw [Ctl.reap_current]
    exact ⟨hu, rfl⟩
  | yield c' hy => exact hy.keepsSpace hu
  | startThread he => exact absurd hop hstart
  | startNoRecord c' he hc hx => exact absurd hop hstart
  | startFails i c' he hc hx => exact absurd hop hstart
  | start i p he hc hp h0 => exact absurd hop hstart
  | waitNoCaller pid hc => exact ⟨hu, rfl⟩
  | waitReturns op i pid r ps hw hturn =>
    unfold Ctl.KeepsSpace
    dsimp only
    rw [hset]
    exact ⟨hu, rfl⟩
  | waitYields op i pid c' hw hturn hy =>
    refine (hy.keepsSpace ?_).of_update rfl (hset _) rfl
    rw [show (c.setCont (.waiting i pid)).currentTask = c.currentTask from rfl, hset]
    exact hu
  | exitNoRecord status c' hc hx => exact hx.keepsSpace
  | exit status i c' hc hx => exact hx.keepsSpace.of_update rfl rfl rfl
  | threadExit c' hx => exact hx.keepsSpace
  | store v b => exact ⟨hu, rfl⟩
  | _ => exact absurd rfl hc

end

/-! ## 2. The loaded directory -/

/-- The directory last loaded is the running task's, its frame is taken, and `esp0` is the top of
    the task's stack. -/
structure DirectoryLoaded (p0 : Pmm) (k : Kernel) : Prop where
  current : k.cr3 = (k.tasks k.currentTask).addressSpace
  taken : Allocated p0 k.mm.pmm k.cr3
  esp0 : (k.tasks k.currentTask).stack ≠ 0 → k.esp0 = stackTop (k.tasks k.currentTask).stack

/-- The step from `k` to `k'` destroyed address spaces in use only, and not the one that was loaded:
    a step loads another directory, if it does, after the last `vmm_destroy_address_space`. -/
def Kernel.KeepsLoaded (k k' : Kernel) : Prop :=
  k'.mm.strayDestroys = 0 ∧ (k.cr3 = k.mm.kernelPageDirectory ∨ k.cr3 ∈ k'.mm.spaces)

section

variable {m : Mem} {img : KernelImage} {mbi : MultibootInfo} {p0 : Pmm} {s0 : Mm} {k k' : Kernel}

/-- The processor is on a directory. -/
theorem KernelInv.isDir_cr3 (h : KernelInv p0 s0 k) : IsDir k.mm k.cr3 := by
  obtain ⟨bs, ho⟩ := h.owned
  rw [h.cpu.cr3]
  exact ho.isDir h.runs.live.used

/-- A task that has not run yet is on the kernel's directory. -/
theorem KernelInv.cr3_start (h : KernelInv p0 s0 k) (hstart : k.toCtl.cont = .start) :
    k.cr3 = k.mm.kernelPageDirectory := by
  obtain ⟨bs, ho⟩ := h.owned
  rw [h.cpu.cr3]
  refine ho.held.kernel _ h.runs.live fun hu => ?_
  rcases hu with hu | ⟨i, pid, hu⟩
  · cases hstart.symm.trans hu
  · cases hstart.symm.trans hu

theorem KernelInv.cr3_kept (h : KernelInv p0 s0 k) (hc : HalfClosed s0) {op : Op} {r : Option Int}
    (hop : op.Legal k.toCtl) (hf : FreshSteps k op k') (e : k.exec op = .ok (r, k')) :
    k.KeepsLoaded k' := by
  obtain ⟨bs, ho⟩ := h.owned
  obtain ⟨bs', ho'⟩ := (h.exec hc hf hop e).owned
  refine ⟨ho'.mm.stray, ?_⟩
  by_cases hstart : k.toCtl.cont = .start
  · exact .inl (h.cr3_start hstart)
  obtain ⟨hu, ha⟩ := (exec_ctl hop e).keepsSpace h.runs hop hstart
  rw [h.cpu.cr3, ← ha]
  refine (ho'.isDir hu).imp_left fun hk => ?_
  rw [hk, ho'.mm.kernel, ho.mm.kernel]

/-- **The directory of the running task is loaded and there**, in every state of a run in which ids
    stay fresh. -/
theorem directory_loaded {bm : BootModule} {tr esp0 : Nat} {ops : List Op}
    (hb : Booted m img mbi p0 s0) (h : KRun FreshSteps (schedInit s0 bm tr esp0) ops k) :
    DirectoryLoaded p0 k ∧ ∀ op r k', op.Legal k.toCtl → FreshSteps k op k' →
      k.exec op = .ok (r, k') → k.KeepsLoaded k' := by
  have hk := h.kernelInv hb
  obtain ⟨bs, ho⟩ := hk.owned
  have htaken : Allocated p0 k.mm.pmm k.cr3 := ho.mm.vm.own.mem (frameOf_dir hk.isDir_cr3)
  exact ⟨⟨hk.cpu.cr3, htaken, hk.cpu.esp0⟩,
    fun op r k' hop hf e => hk.cr3_kept hb.halfClosed hop hf e⟩

end

/-- The first process, on its own directory. -/
theorem directory_loaded_started : ∃ s0 k,
    Booted (smallMem selfArchive) smallImage smallInfo (smallPmm selfArchive) s0 ∧
    KRun FreshSteps (schedInit s0 selfModule 0 0)
      [.spawn (some [0x2f, 0x61]), .yield, .start] k ∧
    k.cr3 = 0x116000 ∧ DirectoryLoaded (smallPmm selfArchive) k ∧
    ∀ op r k', op.Legal k.toCtl → FreshSteps k op k' → k.exec op = .ok (r, k') → k.KeepsLoaded k' := by
  obtain ⟨s0, hs⟩ := selfBooted
  obtain ⟨k, p, f, g, hrun, -, h⟩ := hs.started
  exact ⟨s0, k, hs.booted, hrun, h.cr3, directory_loaded hs.booted hrun⟩

/-- **The loaded directory is free**: task 0 yields to the process whose directory the younger one
    with the same task id has given back. -/
theorem directory_not_loaded : ∃ s0 ops k,
    Booted (smallMem selfArchive) smallImage smallInfo (smallPmm selfArchive) s0 ∧
    bootInit (smallMem selfArchive) smallInfo = .ok selfModule ∧
    KRun AnyStep (schedInit s0 selfModule 0 0) ops k ∧
    k.cr3 = 0x116000 ∧ ¬ DirectoryLoaded (smallPmm selfArchive) k := by
  obtain ⟨s0, hs⟩ := selfBooted
  obtain ⟨k, p₁, p₂, d₂, hl, h, -, hnot⟩ := hs.destroyed
  obtain ⟨k', t, h', hmm, -⟩ := h.yield (.inl rfl)
    (oneZombie_two nofun nofun (by decide) fun _ => rfl) (rfl : _ = some (1 : Fin 16))
  obtain ⟨ops, hrun⟩ := hl.took t
  have hcr3 : k'.cr3 = 0x116000 := h'.cr3
  refine ⟨s0, ops, k', hs.booted, hs.module, hrun.any, hcr3, fun hd => hnot ?_⟩
  have := hd.taken
  rw [hcr3, hmm] at this
  exact this

end Emyx
