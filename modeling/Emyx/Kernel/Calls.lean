/-
  File:      Emyx/Kernel/Calls.lean
  Subject:   THE PAGE ALLOCATOR UNDER THE KERNEL: whatever a step does to it, it does through
             `pmm_alloc_page` and `pmm_free_page`.

  One lemma for each function that works on memory, up to a step and a run. No invariant is used.

  * `Kernel.exec_calls` -- one step;
  * **`KRun.calls`** -- every run from boot, so the counter of free pages stays in 32 bits
    (`KRun.free_lt`).
-/
import Emyx.Kernel.Step
import Emyx.Vmm.Clients

namespace Emyx

open Lib

variable {p0 : Pmm} {s s' : Mm} {k k' : Kernel} {r : Int}

/-! ## 1. The heap -/

theorem newBlock_calls {q : Nat} (h : PmmCalls p0 s.pmm) (e : newBlock s = .ok (q, s')) :
    PmmCalls p0 s'.pmm := by
  unfold newBlock at e
  simp only at e
  split_ifs at e
  · cases e
    exact .alloc h
  · cases e
    exact .free _ (.alloc h)
  · obtain ⟨_, _, e⟩ := bind_ok.mp e
    obtain ⟨_, _, e⟩ := bind_ok.mp e
    obtain ⟨_, _, e⟩ := bind_ok.mp e
    cases e
    exact .alloc h

theorem kmallocFrom_calls {n q : Nat} (h : PmmCalls p0 s.pmm)
    (e : kmallocFrom s n = .ok (q, s')) : PmmCalls p0 s'.pmm := by
  unfold kmallocFrom at e
  obtain ⟨⟨found, last⟩, -, e⟩ := bind_ok.mp e
  cases found with
  | some b =>
    obtain ⟨_, _, e⟩ := bind_ok.mp e
    cases e
    exact h
  | none =>
    obtain ⟨⟨b, s₁⟩, e₁, e⟩ := bind_ok.mp e
    have h₁ := newBlock_calls h e₁
    simp only at e
    split at e
    · cases e
      exact h₁
    · obtain ⟨_, _, e⟩ := bind_ok.mp e
      obtain ⟨_, _, e⟩ := bind_ok.mp e
      cases e
      exact h₁

theorem kmalloc_calls {n q : Nat} (h : PmmCalls p0 s.pmm) (e : kmalloc s n = .ok (q, s')) :
    PmmCalls p0 s'.pmm := by
  unfold kmalloc at e
  cases hn : alignSize n with
  | none =>
    rw [hn] at e
    cases e
    exact h
  | some asize =>
    rw [hn] at e
    simp only at e
    split_ifs at e
    · cases e
      exact h
    · obtain ⟨⟨b, s₁⟩, e₁, e⟩ := bind_ok.mp e
      have h₁ := newBlock_calls h e₁
      simp only at e
      split at e
      · cases e
        exact h₁
      · exact @kmallocFrom_calls p0 { s₁ with list := b } s' asize q h₁ e
    · exact kmallocFrom_calls h e

theorem kfree_pmm {ptr : Nat} (e : kfree s ptr = .ok s') : s'.pmm = s.pmm := by
  unfold kfree at e
  split at e
  · cases e
    rfl
  · obtain ⟨_, _, e⟩ := bind_ok.mp e
    obtain ⟨_, _, e⟩ := bind_ok.mp e
    cases e
    rfl

/-! ## 2. The scheduler -/

theorem taskCleanup_calls {i : Fin 16} (h : PmmCalls p0 k.mm.pmm)
    (e : taskCleanup k i = .ok k') : PmmCalls p0 k'.mm.pmm := by
  obtain ⟨s₁, e₁, e⟩ := bind_ok.mp e
  obtain ⟨s₂, e₂, e⟩ := bind_ok.mp e
  cases e
  have h₁ : PmmCalls p0 s₁.pmm := by
    split at e₁
    · exact vmmDestroyAddressSpace_calls h e₁
    · cases e₁
      exact h
  show PmmCalls p0 s₂.pmm
  split at e₂
  · rw [kfree_pmm e₂]
    exact h₁
  · cases e₂
    exact h₁

theorem reapZombies_calls (h : PmmCalls p0 k.mm.pmm) (e : reapZombies k = .ok k') :
    PmmCalls p0 k'.mm.pmm :=
  foldlM_ok (I := fun k => PmmCalls p0 k.mm.pmm) (fun k i k' _ hk hi => by
    split at hi
    · cases hi
      exact hk
    · exact taskCleanup_calls hk hi) h e

theorem kthreadCreate_calls {entry : Option Entry} (h : PmmCalls p0 k.mm.pmm)
    (e : kthreadCreate k entry = .ok (r, k')) : PmmCalls p0 k'.mm.pmm := by
  cases entry with
  | none =>
    cases e
    exact h
  | some entry =>
    obtain ⟨k₁, e₁, e⟩ := bind_ok.mp e
    have h₁ := reapZombies_calls h e₁
    cases hi : k₁.freeSlot with
    | none =>
      rw [hi] at e
      cases e
      exact h₁
    | some i =>
      rw [hi] at e
      obtain ⟨⟨stack, mm⟩, e₂, e⟩ := bind_ok.mp e
      have h₂ := kmalloc_calls h₁ e₂
      simp only at e
      split at e
      · cases e
        exact h₂
      · obtain ⟨m, -, e⟩ := bind_ok.mp e
        cases e
        exact h₂

theorem schedYield_calls {b : Bool} (h : PmmCalls p0 k.mm.pmm) (e : schedYield k = .ok (b, k')) :
    PmmCalls p0 k'.mm.pmm := by
  obtain ⟨k₁, e₁, e⟩ := bind_ok.mp e
  have h₁ := reapZombies_calls h e₁
  cases hi : k₁.nextRunnable with
  | none =>
    rw [hi] at e
    cases e
    exact h₁
  | some i =>
    rw [hi] at e
    cases e
    exact h₁

theorem kthreadExit_calls (h : PmmCalls p0 k.mm.pmm) (e : kthreadExit k = .ok k') :
    PmmCalls p0 k'.mm.pmm := by
  unfold kthreadExit at e
  split at e
  · cases e
  · obtain ⟨⟨b, k₁⟩, e₁, e⟩ := bind_ok.mp e
    have h₁ := @schedYield_calls p0 { k with toCtl := k.zombify } k₁ b h e₁
    simp only at e
    split at e
    · cases e
      exact h₁
    · cases e

/-! ## 3. Processes -/

theorem userProcessFreePages_calls {i : Fin 16} (h : PmmCalls p0 k.mm.pmm)
    (e : userProcessFreePages k i = .ok k') : PmmCalls p0 k'.mm.pmm := by
  obtain ⟨mm, e₁, e⟩ := bind_ok.mp e
  cases e
  exact foldlM_ok (I := fun s => PmmCalls p0 s.pmm) (fun s page s' _ hs hi => by
    obtain ⟨⟨q, s₁⟩, e₁, e⟩ := bind_ok.mp hi
    cases e
    refine .free _ ?_
    rw [vmmUnmapPageIn_pmm e₁]
    exact hs) h e₁

theorem Mm.copyIn_pmm {dst src n : Nat} (e : s.copyIn dst src n = .ok s') : s'.pmm = s.pmm := by
  unfold Mm.copyIn at e
  obtain ⟨a, -, e⟩ := bind_ok.mp e
  split at e
  · cases e
    rfl
  · cases e

theorem mapCopiedUserPage_calls {i : Fin 16} {v size flags : Nat} {src : Option Nat}
    (h : PmmCalls p0 k.mm.pmm) (e : mapCopiedUserPage k i v src size flags = .ok (r, k')) :
    PmmCalls p0 k'.mm.pmm := by
  unfold mapCopiedUserPage at e
  dsimp only at e
  split_ifs at e
  · cases e
    exact h
  · cases e
    exact h
  · cases e
    exact .alloc h
  · cases e
    exact .free _ (.alloc h)
  · obtain ⟨s₁, e₁, e⟩ := bind_ok.mp e
    obtain ⟨s₂, e₂, e⟩ := bind_ok.mp e
    obtain ⟨⟨q, s₃⟩, e₃, e⟩ := bind_ok.mp e
    have h₁ : PmmCalls p0 s₁.pmm := by
      rw [Mm.clearPage_pmm e₁]
      exact .alloc h
    have h₂ : PmmCalls p0 s₂.pmm := by
      cases src with
      | none =>
        cases e₂
        exact h₁
      | some a =>
        rw [Mm.copyIn_pmm e₂]
        exact h₁
    have h₃ := vmmMapPageIn_calls h₂ e₃
    dsimp only at e
    split_ifs at e
    · cases e
      exact .free _ h₃
    · cases e
      exact h₃

theorem loadEmxf_calls {i : Fin 16} {image size : Nat} (h : PmmCalls p0 k.mm.pmm)
    (e : loadEmxf k i image size = .ok (r, k')) : PmmCalls p0 k'.mm.pmm := by
  obtain ⟨hdr, -, e⟩ := bind_ok.mp e
  cases hdr with
  | none =>
    cases e
    exact h
  | some c =>
    obtain ⟨⟨q, k₁⟩, e₁, e⟩ := bind_ok.mp e
    have h₁ := mapCopiedUserPage_calls h e₁
    dsimp only at e
    split_ifs at e
    · cases e
      exact h₁
    · cases e
      exact h₁

theorem prepareExecSteps_calls {i : Fin 16} {path : List Byte} (h : PmmCalls p0 k.mm.pmm)
    (e : prepareExecSteps k i path = .ok (r, k')) : PmmCalls p0 k'.mm.pmm := by
  obtain ⟨file, -, e⟩ := bind_ok.mp e
  cases file with
  | none =>
    cases e
    exact h
  | some f =>
    obtain ⟨⟨q, k₁⟩, e₁, e⟩ := bind_ok.mp e
    have h₁ := loadEmxf_calls h e₁
    dsimp only at e
    split_ifs at e
    · cases e
      exact h₁
    · obtain ⟨⟨q₂, k₂⟩, e₂, e⟩ := bind_ok.mp e
      have h₂ := mapCopiedUserPage_calls h₁ e₂
      dsimp only at e
      split_ifs at e
      · cases e
        exact h₂
      · cases e
        exact h₂

theorem userPrepareExec_calls {i : Fin 16} {path : List Byte} (h : PmmCalls p0 k.mm.pmm)
    (e : userPrepareExec k i path = .ok (r, k')) : PmmCalls p0 k'.mm.pmm := by
  obtain ⟨⟨q, k₁⟩, e₁, e⟩ := bind_ok.mp e
  have h₁ := prepareExecSteps_calls h e₁
  dsimp only at e
  split_ifs at e
  · obtain ⟨k₂, e₂, e⟩ := bind_ok.mp e
    cases e
    exact userProcessFreePages_calls h₁ e₂
  · cases e
    exact h₁

theorem spawnInto_calls {i : Fin 16} (h : PmmCalls p0 k.mm.pmm)
    (e : spawnInto k i = .ok (r, k')) : PmmCalls p0 k'.mm.pmm := by
  obtain ⟨⟨d, mm⟩, e₁, e⟩ := bind_ok.mp e
  have h₁ := vmmCreateAddressSpace_calls h e₁
  dsimp only at e
  split_ifs at e
  · cases e
    exact h₁
  obtain ⟨⟨id, k₁⟩, e₂, e⟩ := bind_ok.mp e
  have h₂ : PmmCalls p0 k₁.mm.pmm := kthreadCreate_calls h₁ e₂
  dsimp only at e
  split_ifs at e
  · obtain ⟨mm', e₃, e⟩ := bind_ok.mp e
    cases e
    exact vmmDestroyAddressSpace_calls h₂ e₃
  · cases e
    exact h₂

theorem userSpawn_calls {path : Option (List Byte)} (h : PmmCalls p0 k.mm.pmm)
    (e : userSpawn k path = .ok (r, k')) : PmmCalls p0 k'.mm.pmm := by
  unfold userSpawn at e
  cases path with
  | none =>
    cases e
    exact h
  | some path =>
    dsimp only at e
    split_ifs at e
    · cases e
      exact h
    obtain ⟨file, -, e⟩ := bind_ok.mp e
    cases file with
    | none =>
      cases e
      exact h
    | some f =>
      dsimp only at e
      cases hi : userProcessAlloc k.processes with
      | none =>
        rw [hi] at e
        cases e
        exact h
      | some i =>
        rw [hi] at e
        refine spawnInto_calls ?_ e
        exact h

theorem userExecTask_calls {b : Bool} (h : PmmCalls p0 k.mm.pmm)
    (e : userExecTask k = .ok (b, k')) : PmmCalls p0 k'.mm.pmm := by
  unfold userExecTask at e
  rw [Ctl.caller_eq] at e
  cases hc : k.caller with
  | none =>
    rw [hc] at e
    cases e
    exact h
  | some i =>
    rw [hc] at e
    obtain ⟨⟨q, k₁⟩, e₁, e⟩ := bind_ok.mp e
    have h₁ := userPrepareExec_calls h e₁
    obtain ⟨⟨q₂, k₂⟩, e₂, e⟩ := bind_ok.mp e
    dsimp only at e₂ e
    have h₂ : PmmCalls p0 k₂.mm.pmm := by
      by_cases hq : q ≠ 0
      · cases (if_pos hq).symm.trans e₂
        exact h₁
      rw [if_neg hq] at e₂
      unfold schedSetCurrentAddressSpace at e₂
      by_cases hset : k₁.currentTask = 0 ∨ (k₁.processes i).addressSpace = 0
      · rw [if_pos hset] at e₂
        obtain ⟨k₃, e₃, e₂⟩ := bind_ok.mp e₂
        cases e₂
        exact userProcessFreePages_calls h₁ e₃
      · rw [if_neg hset] at e₂
        cases e₂
        exact h₁
    by_cases hq₂ : q₂ ≠ 0
    · rw [if_pos hq₂] at e
      obtain ⟨mm, e₃, e⟩ := bind_ok.mp e
      cases e
      show PmmCalls p0 mm.pmm
      split at e₃
      · exact vmmDestroyAddressSpace_calls h₂ e₃
      · cases e₃
        exact h₂
    · rw [if_neg hq₂] at e
      cases e
      exact h₂

theorem userExitCurrent_calls {status : Nat} (h : PmmCalls p0 k.mm.pmm)
    (e : userExitCurrent k status = .ok k') : PmmCalls p0 k'.mm.pmm := by
  unfold userExitCurrent at e
  rw [Ctl.caller_eq] at e
  cases hc : k.caller with
  | none =>
    rw [hc] at e
    cases e
    exact h
  | some i =>
    rw [hc] at e
    obtain ⟨k₁, e₁, e⟩ := bind_ok.mp e
    have hfree : ∀ k₀ : Kernel, userProcessFreePages k₀ i = .ok k₁ → k₀.mm = k.mm →
        PmmCalls p0 k₁.mm.pmm := fun k₀ e hk => userProcessFreePages_calls (by rw [hk]; exact h) e
    have h₁ := hfree _ e₁ rfl
    cases e
    exact h₁

theorem waitLoop_calls {i : Fin 16} {pid : Nat} {out : Option Int} (h : PmmCalls p0 k.mm.pmm)
    (e : waitLoop k i pid = .ok (out, k')) : PmmCalls p0 k'.mm.pmm := by
  unfold waitLoop at e
  cases ht : waitTurn k.processes i pid with
  | some a =>
    rw [ht] at e
    cases e
    exact h
  | none =>
    rw [ht] at e
    obtain ⟨⟨b, k₁⟩, e₁, e⟩ := bind_ok.mp e
    have h₁ : PmmCalls p0 k₁.mm.pmm := by
      refine schedYield_calls ?_ e₁
      exact h
    dsimp only at e
    split_ifs at e
    cases e
    exact h₁

/-! ## 4. Steps and runs -/

/-- **One step.** -/
theorem Kernel.exec_calls {op : Op} {out : Option Int} (h : PmmCalls p0 k.mm.pmm)
    (e : k.exec op = .ok (out, k')) : PmmCalls p0 k'.mm.pmm := by
  cases op with
  | spawn path =>
    obtain ⟨⟨q, k₁⟩, e₁, e⟩ := bind_ok.mp e
    cases e
    exact userSpawn_calls h e₁
  | create =>
    obtain ⟨⟨q, k₁⟩, e₁, e⟩ := bind_ok.mp e
    cases e
    exact kthreadCreate_calls h e₁
  | yield =>
    obtain ⟨⟨b, k₁⟩, e₁, e⟩ := bind_ok.mp e
    cases e
    exact schedYield_calls h e₁
  | start =>
    obtain ⟨k₁, e₁, e⟩ := bind_ok.mp e
    cases e
    unfold Emyx.kthreadTrampoline at e₁
    split at e₁
    · obtain ⟨⟨b, k₂⟩, e₂, e₁⟩ := bind_ok.mp e₁
      have h₂ := userExecTask_calls h e₂
      dsimp only at e₁
      split_ifs at e₁
      · cases e₁
        exact h₂
      · exact kthreadExit_calls h₂ e₁
    · cases e₁
      exact h
  | wait pid =>
    have e : userWait k pid = .ok (out, k') := e
    unfold userWait at e
    split at e
    · cases e
      exact h
    · exact waitLoop_calls h e
  | resume =>
    unfold Kernel.exec at e
    dsimp only at e
    split at e
    · exact waitLoop_calls h e
    · cases e
      exact h
  | exit status =>
    obtain ⟨k₁, e₁, e⟩ := bind_ok.mp e
    cases e
    obtain ⟨k₂, e₂, e₁⟩ := bind_ok.mp e₁
    have h₂ := userExitCurrent_calls h e₂
    refine kthreadExit_calls ?_ e₁
    exact h₂
  | threadExit =>
    obtain ⟨k₁, e₁, e⟩ := bind_ok.mp e
    cases e
    exact kthreadExit_calls h e₁
  | store v b =>
    unfold Kernel.exec at e
    dsimp only at e
    split at e
    · cases e
      exact h
    · cases e

/-- **Every run from boot.** -/
theorem KRun.calls {C : Kernel → Op → Kernel → Prop} {m : Mem} {img : KernelImage}
    {mbi : MultibootInfo} {s0 : Mm} (hb : Booted m img mbi p0 s0) {bm : BootModule} {tr esp0 : Nat}
    {ops : List Op} (h : KRun C (schedInit s0 bm tr esp0) ops k) : PmmCalls p0 k.mm.pmm := by
  induction h with
  | boot => exact vmmInit_pmm (J := PmmCalls p0) (fun _ hp => hp.alloc) .boot hb.vmmInit
  | step _ _ _ e ih => exact Kernel.exec_calls ih e

/-- The counter of free pages is a 32-bit value. -/
theorem KRun.free_lt {C : Kernel → Op → Kernel → Prop} {m : Mem} {img : KernelImage}
    {mbi : MultibootInfo} {s0 : Mm} (hb : Booted m img mbi p0 s0) {bm : BootModule} {tr esp0 : Nat}
    {ops : List Op} (h : KRun C (schedInit s0 bm tr esp0) ops k) : k.mm.pmm.freePages < 2 ^ 32 :=
  (h.calls hb).free_lt (pmmInit_free_lt hb.pmmInit)

end Emyx
