/-
  File:      Emyx/Kernel/Progress.lean
  Subject:   NO STEP GETS STUCK: in every state the kernel reaches, what the running task may do
             next returns.

  The model's functions can stop in three ways: a panic, a loop that never ends, a page fault of
  kernel code. `Owned` says that each frame, stack and directory a function touches is there, so
  each call inside a step returns; task 0 never leaves, so a task that ends or waits finds another
  one to run.

  * `Owned.spawn_returns`, `Owned.start_returns`, `Owned.sysExit_returns`,
    `Owned.waitLoop_returns` -- the functions, where the invariant holds;
  * **`KernelInv.exec_returns`** -- a step returns, or it is a store of user code that faults at
    its own address;
  * **`kernel_progress`** -- so it is in every state of every run.
-/
import Emyx.Kernel.Threads
import Emyx.Kernel.Wrap

namespace Emyx

open Lib

/-! ## 1. Lookups in a module that is mapped -/

/-- There is no module, or it lies in the direct map. -/
def BootModule.Direct (mod : BootModule) : Prop :=
  mod.start = 0 ∨ 0xC0000000 ≤ mod.start ∧ mod.start + mod.size ≤ 0xC1000000

section

variable {m : Mem} {path : List Byte}

theorem magicMatches_total (f : Nat → Byte) (c0 c1 c2 c3 : Byte) :
    ∃ b, magicMatches (fun i => .ok (f i)) c0 c1 c2 c3 = .ok b := by
  simp only [magicMatches, ok_bind]
  split_ifs <;> exact ⟨_, rfl⟩

theorem readLe32_total (f : Nat → Byte) (off : Nat) :
    ∃ v, readLe32 (fun i => .ok (f i)) off = .ok v := ⟨_, rfl⟩

theorem pathMatches_total (f : Nat → Byte) (n off : Nat) (path : List Byte) :
    ∃ b, pathMatches (fun i => .ok (f i)) n off path = .ok b := by
  induction n generalizing off path with
  | zero => exact ⟨false, rfl⟩
  | succ n ih =>
    cases path with
    | nil => exact ⟨_, rfl⟩
    | cons c path =>
      simp only [pathMatches, ok_bind]
      split_ifs
      · exact ⟨_, rfl⟩
      · exact ⟨_, rfl⟩
      · exact ih ..

theorem findFrom_total (f : Nat → Byte) (size : Nat) (path : List Byte) (n i : Nat) :
    ∃ r, findFrom (fun i => .ok (f i)) size path n i = .ok r := by
  induction n generalizing i with
  | zero => exact ⟨none, rfl⟩
  | succ n ih =>
    obtain ⟨b, hb⟩ := pathMatches_total f 32 (8 + i * 40) path
    simp only [findFrom, hb, ok_bind]
    cases b with
    | false => exact ih ..
    | true =>
      obtain ⟨offset, ho⟩ := readLe32_total f (8 + i * 40 + 32)
      obtain ⟨fileSize, hs⟩ := readLe32_total f (8 + i * 40 + 36)
      simp only [ho, hs, ok_bind, if_true]
      split_ifs <;> exact ⟨_, rfl⟩

theorem findIn_total (f : Nat → Byte) (mod : BootModule) (path : List Byte) :
    ∃ r, findIn (fun i => .ok (f i)) mod path = .ok r := by
  have hheader : ∃ r, initramfsHeader (fun i => .ok (f i)) mod = .ok r := by
    obtain ⟨b, hb⟩ := magicMatches_total f 0x45 0x4D 0x58 0x41
    obtain ⟨count, hc⟩ := readLe32_total f 4
    simp only [initramfsHeader, hb, hc, ok_bind]
    split_ifs <;> exact ⟨_, rfl⟩
  obtain ⟨r, hr⟩ := hheader
  simp only [findIn, hr, ok_bind]
  cases r with
  | none => exact ⟨none, rfl⟩
  | some count => exact findFrom_total ..

/-- **`initramfs_find` returns**, whatever the module holds, with a file in the direct map. -/
theorem initramfsFind_returns {mod : BootModule} (h : mod.Direct) (m : Mem) (path : List Byte) :
    ∃ r, initramfsFind m mod path = .ok r ∧
      ∀ a n, r = some (a, n) → 0xC0000000 ≤ a ∧ a + n ≤ 0xC1000000 := by
  obtain h0 | ⟨hlo, hhi⟩ := h
  · refine ⟨none, ?_, by simp⟩
    simp only [initramfsFind, findIn, initramfsHeader, h0, true_or, if_true]
    rfl
  -- the bytes of the module are all there
  have hbytes : ∀ j, j < mod.size → moduleByte m mod j = .ok (m (mod.start + j - 0xC0000000)) :=
    fun j hj => by
      unfold moduleByte kernelByte
      rw [Nat.mod_eq_of_lt (by omega), if_pos (by omega)]
  obtain ⟨r, hr⟩ := findIn_total (fun j => m (mod.start + j - 0xC0000000)) mod path
  have hfind : findIn (moduleByte m mod) mod path = .ok r := (findIn_congr hbytes).trans hr
  simp only [initramfsFind, hfind, ok_bind]
  cases r with
  | none => exact ⟨none, rfl, by simp⟩
  | some file =>
    refine ⟨some ((mod.start + file.1) % 2 ^ 32, file.2), rfl, fun a n han => ?_⟩
    have hin : file.1 + file.2 ≤ mod.size := by
      obtain ⟨count, -, hf⟩ := bind_ok.mp hfind
      cases count with
      | none => cases hf
      | some count => exact findFrom_inside hf
    cases han
    rw [Nat.mod_eq_of_lt (by omega)]
    omega

theorem emxfHeader_returns {image size : Nat}
    (h : 0xC0000000 ≤ image ∧ image + size ≤ 0xC1000000) :
    ∃ r, emxfHeader m image size = .ok r := by
  unfold emxfHeader
  split
  · exact ⟨none, rfl⟩
  · rename_i hsize
    obtain ⟨f, hbytes⟩ : ∃ f : Nat → Byte, ∀ j, j < 12 → imageByte m image j = .ok (f j) :=
      ⟨fun j => m (image + j - 0xC0000000), fun j hj => by
        unfold imageByte kernelByte
        rw [Nat.mod_eq_of_lt (by omega), if_pos (by omega)]⟩
    obtain ⟨b, hb⟩ := magicMatches_total f 0x45 0x4D 0x58 0x46
    obtain ⟨codeSize, hc⟩ := readLe32_total f 4
    obtain ⟨entryOffset, he⟩ := readLe32_total f 8
    rw [← magicMatches_congr fun j hj => hbytes j (by omega)] at hb
    rw [← readLe32_congr fun j hj => hbytes (4 + j) (by omega)] at hc
    rw [← readLe32_congr fun j hj => hbytes (8 + j) (by omega)] at he
    simp only [hb, hc, he, ok_bind]
    split_ifs <;> exact ⟨_, rfl⟩

end

/-! ## 2. Loading and starting -/

section

variable {p0 : Pmm} {s0 : Mm} {bs : List Blk} {k k' : Kernel} {i : Fin 16}

theorem MmInv.load_returns (h : MmInv p0 s0 k.processes bs k.mm) {image size : Nat}
    (hsp : (k.processes i).addressSpace ∈ k.mm.spaces)
    (himage : 0xC0000000 ≤ image ∧ image + size ≤ 0xC1000000) :
    ∃ r k', loadEmxf k i image size = .ok (r, k') := by
  obtain ⟨hdr, hhdr⟩ := emxfHeader_returns (m := k.mm.mem) himage
  simp only [loadEmxf, hhdr, ok_bind]
  cases hdr with
  | none => exact ⟨-1, k, rfl⟩
  | some hd =>
    have hfit : hd.1 ≤ 4096 ∧ hd.2 < hd.1 ∧ 12 + hd.1 ≤ size := emxfHeader_some hhdr
    rcases h.mapCopied_cases hd.1 0 (some ((image + 12) % 2 ^ 32)) hsp
      (show 0x00400000 % 4096 = 0 by decide) (by decide) with ⟨hsrc, -⟩ | ⟨r, k₁, e, -, -⟩
    · refine absurd ?_ hsrc
      intro a ha
      cases ha
      rw [Nat.mod_eq_of_lt (by omega)]
      omega
    · simp only [e, ok_bind]
      split_ifs <;> exact ⟨_, _, rfl⟩

/-- **`user_prepare_exec` returns.** -/
theorem MmInv.prepareExec_returns (h : MmInv p0 s0 k.processes bs k.mm)
    (hsp : (k.processes i).addressSpace ∈ k.mm.spaces) (hm : k.bootModule.Direct)
    (path : List Byte) : ∃ r k', userPrepareExec k i path = .ok (r, k') := by
  have hsteps : ∃ r k', prepareExecSteps k i path = .ok (r, k') := by
    obtain ⟨file, hfile, hin⟩ := initramfsFind_returns hm k.mm.mem path
    simp only [prepareExecSteps, hfile, ok_bind]
    cases file with
    | none => exact ⟨-1, k, rfl⟩
    | some file =>
      obtain ⟨r₁, k₁, e₁⟩ := h.load_returns hsp (hin file.1 file.2 rfl)
      obtain ⟨h₁, ho⟩ := h.load hsp e₁
      simp only [e₁, ok_bind]
      by_cases hr : r₁ ≠ 0
      · exact ⟨-1, k₁, if_pos hr⟩
      · rw [if_neg hr]
        have hs₁ : k₁.mm.spaces = k.mm.spaces := by
          obtain ⟨rfl, -⟩ | ⟨-, codeSize, entryOffset, f, hcode⟩ := ho
          · exact absurd (by decide) hr
          · exact hcode.spaces
        have hsp₁ : (k₁.processes i).addressSpace ∈ k₁.mm.spaces := by
          rw [(loadEmxf_ctl e₁).space, hs₁]
          exact hsp
        rcases h₁.mapCopied_cases 0 2 none hsp₁ (show 0x007ff000 % 4096 = 0 by decide) (by decide)
          with ⟨hsrc, -⟩ | ⟨r₂, k₂, e₂, -, -⟩
        · exact absurd (fun a ha => absurd ha (by simp)) hsrc
        · simp only [e₂, ok_bind]
          split_ifs <;> exact ⟨_, _, rfl⟩
  obtain ⟨r₁, k₁, e₁⟩ := hsteps
  obtain ⟨h₁, -⟩ := h.prepareSteps hsp e₁
  obtain ⟨mm, efree, -⟩ := h₁.freeAll i
  simp only [userPrepareExec, e₁, efree, ok_bind]
  split_ifs <;> exact ⟨_, _, rfl⟩

/-- The record that is loaded for a task alone uses its directory. -/
theorem Owned.alone {c : Ctl} {s : Mm} (h : Owned p0 s0 c bs s)
    (hs : (c.processes i).state = .created) (n : Fin 16) (hn : (c.processes n).pages ≠ []) :
    (c.processes n).addressSpace ≠ (c.processes i).addressSpace := fun he => by
  obtain ⟨t, -, hrole⟩ := h.host_of_pages hn
  rw [he] at hrole
  cases h.spaces.inj hrole (spaceOf_record _ hs)

/-- A task that has not started is not task 0. -/
theorem Ctl.Inv.ne_zero {c : Ctl} (h : c.Inv) (hc : c.cont ≠ .kernel) : c.currentTask ≠ 0 :=
  fun e => hc (by rw [Ctl.cont, e]; exact h.zero.2)

/-- **`user_exec_task` returns.** -/
theorem Owned.execTask_returns (h : Owned p0 s0 k.toCtl bs k.mm) (hinv : k.toCtl.Inv)
    (hr : k.toCtl.Runs) (hstart : k.toCtl.cont = .start) (hm : k.bootModule.Direct) :
    ∃ b k', userExecTask k = .ok (b, k') := by
  have h0 : k.currentTask ≠ 0 := hinv.ne_zero (by rw [hstart]; decide)
  unfold userExecTask
  rw [Ctl.caller_eq]
  cases hc : k.caller with
  | none => exact ⟨false, k, rfl⟩
  | some i =>
    obtain ⟨hs, -, hsp⟩ := h.starting hinv hr hstart hc
    obtain ⟨r₁, k₁, e₁⟩ := h.mm.prepareExec_returns hsp hm (k.processes i).path
    obtain ⟨h₁, hs₁, hnone⟩ := h.mm.prepareExec hsp e₁
    have hload := userPrepareExec_ctl e₁
    have hspace := hload.space
    obtain ⟨p, -, hk₁⟩ := hload
    simp only [e₁, ok_bind]
    by_cases hr₁ : r₁ ≠ 0
    · -- not loaded: the directory is destroyed
      obtain ⟨p', -, ed, -⟩ := h₁.destroy (d := (k.processes i).addressSpace) (hs₁.symm ▸ hsp)
        fun n hn => by
          by_cases hni : n = i
          · rw [hni, hnone hr₁] at hn
            exact absurd rfl hn
          · have hsame : k₁.processes n = k.processes n := by
              rw [hk₁]
              exact Function.update_of_ne hni ..
            rw [hsame] at hn ⊢
            exact h.alone hs n hn
      simp only [if_pos hr₁, ok_bind, hspace, if_pos (h.mm.space_pos hsp), ed]
      exact ⟨_, _, rfl⟩
    · have h0₁ : k₁.currentTask ≠ 0 := by
        rw [hk₁]
        exact h0
      rw [if_neg hr₁, schedSetCurrentAddressSpace_ok h0₁ (hspace ▸ h.mm.space_pos hsp)]
      exact ⟨_, _, rfl⟩

/-! ## 3. Giving up the processor -/

/-- **`sched_yield` returns**, and switches when a task waits to run. -/
theorem Owned.yield_returns (h : Owned p0 s0 k.toCtl bs k.mm) :
    ∃ b k', schedYield k = .ok (b, k') ∧ ((k.tasks 0).state = .runnable → b = true) := by
  obtain ⟨mm, bs', e, -⟩ := h.reap
  simp only [schedYield, e, ok_bind]
  cases hi : k.reap.nextRunnable with
  | some idx => exact ⟨true, _, rfl, fun _ => rfl⟩
  | none =>
    refine ⟨false, _, rfl, fun h0 => ?_⟩
    obtain ⟨idx, hidx⟩ := Ctl.nextRunnable_isSome (c := k.reap) (i := 0)
      (by rw [Ctl.reap_of_live (.inl h0)]; exact h0)
    cases hi.symm.trans hidx

/-- Task 0 can run whenever another task does. -/
theorem Ctl.Inv.zero_runnable {c : Ctl} (h : c.Inv) (h0 : c.currentTask ≠ 0) :
    (c.tasks 0).state = .runnable :=
  h.zero.1.resolve_right fun hr => h0 (h.current 0 hr).symm

/-- **`kthread_exit` returns** -- that is, it switches -- for every task but task 0. -/
theorem Owned.exit_returns (h : Owned p0 s0 k.toCtl bs k.mm) (hr : k.toCtl.Runs)
    (hno : ∀ i, (k.processes i).state = .running →
      (k.processes i).taskId ≠ (k.tasks k.currentTask).id) (h0 : k.currentTask ≠ 0)
    (hzero : (k.tasks 0).state = .runnable) : ∃ k', kthreadExit k = .ok k' := by
  obtain ⟨b, k₁, e, hb⟩ := Owned.yield_returns (k := { k with toCtl := k.zombify })
    (h.zombify hr hno)
  have hkeep : k.zombify.tasks 0 = k.tasks 0 := Function.update_of_ne h0.symm ..
  cases hb (by rw [hkeep]; exact hzero)
  exact ⟨k₁, by rw [kthreadExit, if_neg h0, e]; rfl⟩

/-- A kernel thread has no process. -/
theorem Ctl.Inv.kernel_alone {c : Ctl} (hinv : c.Inv) (hr : c.Runs) (hkernel : c.cont = .kernel) :
    ∀ n, (c.processes n).state = .running → (c.processes n).taskId ≠ (c.tasks c.currentTask).id := by
  intro n hn hid
  have hkernel : (c.tasks c.currentTask).cont = .kernel := hkernel
  obtain ⟨-, ⟨-, hcont⟩ | ⟨-, hcont | ⟨pid, hcont⟩⟩⟩ :=
    hinv.record hr.live (by rw [hn]; decide) hid <;> cases hkernel.symm.trans hcont

/-- A task that was not loaded is left without a process. -/
theorem Ctl.Inv.notEntered (hinv : k.toCtl.Inv) (hr : k.toCtl.Runs)
    (e : userExecTask k = .ok (false, k')) :
    k'.toCtl.Runs ∧ k'.tasks = k.tasks ∧ k'.currentTask = k.currentTask ∧
      ∀ n, (k'.processes n).state = .running →
        (k'.processes n).taskId ≠ (k'.tasks k'.currentTask).id := by
  obtain ⟨hc, -, rfl⟩ | ⟨i, hc, ⟨-, hctl⟩ | ⟨_, -, hb, -⟩⟩ := userExecTask_ctl e
  · exact ⟨hr, rfl, rfl, fun n hn => Ctl.caller_none hc n (by rw [hn]; decide)⟩
  · obtain ⟨hfree, hid⟩ := Ctl.caller_some hc
    rw [hctl]
    refine ⟨hr.records _, rfl, rfl, fun n hn => ?_⟩
    dsimp only at hn ⊢
    by_cases hni : n = i
    · subst hni
      rw [userProcessRelease, Function.update_self] at hn
      cases hn
    · rw [userProcessRelease, Function.update_of_ne hni] at hn ⊢
      exact fun hid' => hni
        (hinv.recordIds n i (by rw [hn]; decide) hfree (hid'.trans hid.symm))
  · cases hb

/-- **A task that starts** enters user mode, runs its function or ends. -/
theorem Owned.start_returns (h : Owned p0 s0 k.toCtl bs k.mm) (hinv : k.toCtl.Inv)
    (hr : k.toCtl.Runs) (hcpu : k.OnCpu) (hstart : k.toCtl.cont = .start)
    (hm : k.bootModule.Direct) : ∃ k', kthreadTrampoline k = .ok k' := by
  have h0 : k.currentTask ≠ 0 := hinv.ne_zero (by rw [hstart]; decide)
  unfold kthreadTrampoline
  split
  · obtain ⟨b, k₁, e₁⟩ := h.execTask_returns hinv hr hstart hm
    obtain ⟨h₁, -⟩ := h.execTask hinv hr hcpu hstart e₁
    simp only [e₁, ok_bind]
    cases b with
    | true => exact ⟨k₁, rfl⟩
    | false =>
      obtain ⟨hr₁, htasks, hcur, hno⟩ := hinv.notEntered hr e₁
      exact h₁.exit_returns hr₁ hno (by rw [hcur]; exact h0)
        (by rw [htasks]; exact hinv.zero_runnable h0)
  · exact ⟨_, rfl⟩

/-- **The system call `exit` ends the task.** -/
theorem Owned.sysExit_returns (h : Owned p0 s0 k.toCtl bs k.mm) (hinv : k.toCtl.Inv)
    (hr : k.toCtl.Runs) (hu : k.toCtl.cont = .user) (status : Nat) :
    ∃ k', Emyx.sysExit k status = .ok k' := by
  have h0 : k.currentTask ≠ 0 := hinv.ne_zero (by rw [hu]; decide)
  have hexit : ∃ k', userExitCurrent k status = .ok k' := by
    unfold userExitCurrent
    rw [Ctl.caller_eq]
    cases hc : k.caller with
    | none => exact ⟨k, rfl⟩
    | some i =>
      have h₁ := h.mm.setRecord (i := i)
        (p := { k.processes i with exitStatus := status, state := .exited }) rfl fun _ => rfl
      obtain ⟨mm, e, -⟩ := MmInv.freeAll
        (k := { k with processes := Function.update k.processes i _ }) h₁ i
      simp only [e, ok_bind]
      exact ⟨_, rfl⟩
  obtain ⟨k₁, e₁⟩ := hexit
  obtain ⟨h₁, htasks, hcur, hno⟩ := h.exitCurrent hinv hr hu e₁
  simp only [Emyx.sysExit, e₁, ok_bind]
  have hk₁ : ∀ out, Owned p0 s0 ({ k₁ with console := out } : Kernel).toCtl bs
      ({ k₁ with console := out } : Kernel).mm := fun _ => h₁
  refine (hk₁ _).exit_returns ?_ (fun n hn => ?_) (by rw [hcur]; exact h0)
    (by rw [htasks]; exact hinv.zero_runnable h0)
  · unfold Ctl.Runs at hr ⊢
    dsimp only
    rw [htasks, hcur]
    exact hr
  · dsimp only at hn ⊢
    rw [htasks, hcur]
    exact hno n hn

/-- **The loop of `user_wait`** returns or switches: it never spins on its own. -/
theorem Owned.waitLoop_returns (h : Owned p0 s0 k.toCtl bs k.mm) (hinv : k.toCtl.Inv)
    (h0 : k.currentTask ≠ 0) (i : Fin 16) (pid : Nat) :
    ∃ r k', Emyx.waitLoop k i pid = .ok (r, k') := by
  unfold Emyx.waitLoop
  cases ht : waitTurn k.processes i pid with
  | some out => exact ⟨_, _, rfl⟩
  | none =>
    have hcont := @Owned.setCont _ _ _ _ _ h (.waiting i pid) fun _ => .inr ⟨i, pid, rfl⟩
    obtain ⟨b, k₁, e, hb⟩ := Owned.yield_returns
      (k := { k with toCtl := k.setCont (.waiting i pid) }) hcont
    have hkeep : (k.setCont (.waiting i pid)).tasks 0 = k.tasks 0 :=
      Function.update_of_ne h0.symm ..
    cases hb (by rw [hkeep]; exact hinv.zero_runnable h0)
    simp only [e, ok_bind]
    exact ⟨none, k₁, rfl⟩

/-! ## 4. Spawning -/

/-- **The end of `user_spawn` returns**, for a record `i` that is being filled. -/
theorem Owned.spawnInto_returns {c : Ctl} (h : Owned p0 s0 c bs k.mm)
    (hi : c.processes i = UserProcess.zero) (hs : (k.processes i).state = .created)
    (hp : (k.processes i).pages = []) (htasks : k.tasks = c.tasks)
    (hps : k.processes = Function.update c.processes i (k.processes i)) :
    ∃ r k', Emyx.spawnInto k i = .ok (r, k') := by
  have hmm₀ : MmInv p0 s0 k.processes bs k.mm := by
    rw [hps]
    exact h.mm.setRecord (by rw [hp, hi]; rfl) fun hne => absurd hp hne
  unfold Emyx.spawnInto
  rcases hmm₀.create with ⟨ec, -, -⟩ | ⟨d, p', m', -, ec, hd0, hdir, hmm, -⟩
  · simp only [ec, ok_bind]
    exact ⟨_, _, if_pos trivial⟩
  · simp only [ec, ok_bind, if_neg hd0]
    -- the record answers for the directory while the task is made
    generalize hq : ({ k.processes i with addressSpace := d } : UserProcess) = q
    have hqs : q.state = .created := by rw [← hq]; exact hs
    have hqp : q.pages = [] := by rw [← hq]; exact hp
    have hqa : q.addressSpace = d := by rw [← hq]
    have hrec := hmm.setRecord (i := i) (p := q) (hqp.trans hp.symm) fun hne => absurd hqp hne
    have h₁ : Owned p0 s0 { k.toCtl with processes := Function.update k.processes i q } bs
        { k.mm with pmm := p', mem := m', spaces := d :: k.mm.spaces } := by
      refine h.addRecord (p := q) (by rw [hi]; rfl) hqs hqp htasks ?_ hrec
        (fun hc => hdir (.inr (hqa ▸ hc))) (by rw [hqa])
      dsimp only
      rw [hps, Function.update_idem]
    have hself : Function.update k.processes i q i = q := Function.update_self ..
    have hst : (Function.update k.processes i q i).state = .created := by rw [hself, hqs]
    have had : (Function.update k.processes i q i).addressSpace = d := by rw [hself, hqa]
    obtain ⟨mm₂, bs₂, hcase⟩ := Owned.create
      (k := { k with mm := _, processes := Function.update k.processes i q }) h₁ .userExecTask
    -- whether the task was made or not, the directory can be destroyed
    have hdone : ∃ id k₂ s', kthreadCreate { k with
          mm := { k.mm with pmm := p', mem := m', spaces := d :: k.mm.spaces }
          processes := Function.update k.processes i q } (some .userExecTask) = .ok (id, k₂) ∧
        vmmDestroyAddressSpace k₂.mm d = .ok s' := by
      rcases hcase with ⟨ecr, h₂⟩ | ⟨j, t, -, ecr, h₂⟩
      · obtain ⟨s', ed, -⟩ := h₂.abandon hst
        exact ⟨_, _, s', ecr, had ▸ ed⟩
      · obtain ⟨s', ed, -⟩ := h₂.abandon hst
        exact ⟨_, _, s', ecr, had ▸ ed⟩
    obtain ⟨id, k₂, s', ecr, ed⟩ := hdone
    simp only [ecr, ed, ok_bind]
    split_ifs <;> exact ⟨_, _, rfl⟩

/-- **`user_spawn` returns.** -/
theorem Owned.spawn_returns (h : Owned p0 s0 k.toCtl bs k.mm) (hinv : k.toCtl.Inv)
    (hm : k.bootModule.Direct) (path : Option (List Byte)) :
    ∃ r k', userSpawn k path = .ok (r, k') := by
  unfold userSpawn
  cases path with
  | none => exact ⟨-1, k, rfl⟩
  | some path =>
    dsimp only
    split_ifs
    · exact ⟨-1, k, rfl⟩
    obtain ⟨file, hfile, -⟩ := initramfsFind_returns hm k.mm.mem path
    simp only [hfile, ok_bind]
    cases file with
    | none => exact ⟨-1, k, rfl⟩
    | some file =>
      dsimp only
      cases hi : userProcessAlloc k.processes with
      | none => exact ⟨-1, k, rfl⟩
      | some i =>
        have hzero := hinv.free i (userProcessAlloc_some hi)
        dsimp only
        generalize hq : ({ UserProcess.fresh with
          pid := k.nextPid, parentPid := _, path := path } : UserProcess) = q
        have h₀ : Owned p0 s0 k.toCtl bs ({ k with
          processes := Function.update k.processes i q
          nextPid := (k.nextPid + 1) % 2 ^ 32 } : Kernel).mm := h
        have hself : Function.update k.processes i q i = q := Function.update_self ..
        have hstate : q.state = .created := by rw [← hq]; rfl
        have hpages : q.pages = [] := by rw [← hq]; rfl
        exact h₀.spawnInto_returns hzero ((congrArg UserProcess.state hself).trans hstate)
          ((congrArg UserProcess.pages hself).trans hpages) rfl
          (congrArg (Function.update k.processes i) hself.symm)

end

/-! ## 5. The module stays where it is -/

section

variable {k k' : Kernel}

theorem schedYield_module {b : Bool} (e : schedYield k = .ok (b, k')) :
    k'.bootModule = k.bootModule := by
  obtain ⟨-, -, hk⟩ | ⟨idx, -, -, hk⟩ := schedYield_ctl e <;> rw [hk]

theorem kthreadExit_module (e : kthreadExit k = .ok k') : k'.bootModule = k.bootModule := by
  obtain ⟨-, idx, -, hk⟩ := kthreadExit_ctl e
  rw [hk]

theorem spawnInto_module {i : Fin 16} {r : Int} (e : spawnInto k i = .ok (r, k')) :
    k'.bootModule = k.bootModule := by
  obtain ⟨⟨d, mm⟩, -, e⟩ := bind_ok.mp e
  dsimp only at e
  split_ifs at e with hd
  · cases e
    rfl
  obtain ⟨⟨id, k₁⟩, e₁, e⟩ := bind_ok.mp e
  have hk₁ : k₁.bootModule = k.bootModule := by
    obtain ⟨-, hk⟩ | ⟨j, t, -, -, -, -, -, -, hk⟩ := kthreadCreate_ctl e₁ <;> rw [hk]
  dsimp only at e
  split_ifs at e with hneg
  · obtain ⟨mm', -, e⟩ := bind_ok.mp e
    cases e
    exact hk₁
  · cases e
    exact hk₁

theorem userSpawn_module {path : Option (List Byte)} {r : Int}
    (e : userSpawn k path = .ok (r, k')) : k'.bootModule = k.bootModule := by
  unfold userSpawn at e
  cases path with
  | none =>
    cases e
    rfl
  | some path =>
    dsimp only at e
    split_ifs at e with hlen
    · cases e
      rfl
    obtain ⟨file, -, e⟩ := bind_ok.mp e
    cases file with
    | none =>
      cases e
      rfl
    | some file =>
      dsimp only at e
      cases hi : userProcessAlloc k.processes with
      | none =>
        rw [hi] at e
        cases e
        rfl
      | some i =>
        rw [hi] at e
        have hmod := spawnInto_module e
        exact hmod

theorem userExecTask_module {b : Bool} (e : userExecTask k = .ok (b, k')) :
    k'.bootModule = k.bootModule := by
  unfold userExecTask at e
  rw [Ctl.caller_eq] at e
  cases hc : k.caller with
  | none =>
    rw [hc] at e
    cases e
    rfl
  | some i =>
    rw [hc] at e
    obtain ⟨⟨r₁, k₁⟩, e₁, e⟩ := bind_ok.mp e
    obtain ⟨p, -, hk₁⟩ := userPrepareExec_ctl e₁
    have hm₁ : k₁.bootModule = k.bootModule := by rw [hk₁]
    obtain ⟨⟨r₂, k₂⟩, e₂, e⟩ := bind_ok.mp e
    dsimp only at e₂ e
    have hm₂ : k₂.bootModule = k₁.bootModule := by
      by_cases hr₁ : r₁ ≠ 0
      · cases (if_pos hr₁).symm.trans e₂
        rfl
      · rw [if_neg hr₁] at e₂
        unfold schedSetCurrentAddressSpace at e₂
        by_cases hset : k₁.currentTask = 0 ∨ (k₁.processes i).addressSpace = 0
        · rw [if_pos hset] at e₂
          obtain ⟨k₃, e₃, e₂⟩ := bind_ok.mp e₂
          cases e₂
          obtain ⟨q, -, hk₃⟩ := userProcessFreePages_loaded e₃
          rw [hk₃]
        · rw [if_neg hset] at e₂
          cases e₂
          rfl
    by_cases hr₂ : r₂ ≠ 0
    · rw [if_pos hr₂] at e
      obtain ⟨mm, -, e⟩ := bind_ok.mp e
      cases e
      exact hm₂.trans hm₁
    · rw [if_neg hr₂] at e
      cases e
      exact hm₂.trans hm₁

theorem waitLoop_module {i : Fin 16} {pid : Nat} {r : Option Int}
    (e : waitLoop k i pid = .ok (r, k')) : k'.bootModule = k.bootModule := by
  unfold waitLoop at e
  cases ht : waitTurn k.processes i pid with
  | some out =>
    rw [ht] at e
    cases e
    rfl
  | none =>
    rw [ht] at e
    obtain ⟨⟨b, k₁⟩, e₁, e⟩ := bind_ok.mp e
    cases b with
    | false => cases e
    | true =>
      cases e
      have hmod := schedYield_module e₁
      exact hmod

theorem sysExit_module {status : Nat} (e : sysExit k status = .ok k') :
    k'.bootModule = k.bootModule := by
  obtain ⟨k₁, e₁, e⟩ := bind_ok.mp e
  have hm₁ : k₁.bootModule = k.bootModule := by
    obtain ⟨-, hk⟩ | ⟨i, -, hk⟩ := userExitCurrent_ctl e₁ <;> rw [hk]
  exact (kthreadExit_module e).trans hm₁

/-- **No step moves the module.** -/
theorem Kernel.exec_module {op : Op} {r : Option Int} (e : k.exec op = .ok (r, k')) :
    k'.bootModule = k.bootModule := by
  cases op with
  | spawn path =>
    obtain ⟨⟨r₁, k₁⟩, e₁, e⟩ := bind_ok.mp e
    cases e
    exact userSpawn_module e₁
  | create =>
    obtain ⟨⟨r₁, k₁⟩, e₁, e⟩ := bind_ok.mp e
    cases e
    obtain ⟨-, hk⟩ | ⟨j, t, -, -, -, -, -, -, hk⟩ := kthreadCreate_ctl e₁ <;> rw [hk]
  | yield =>
    obtain ⟨⟨b, k₁⟩, e₁, e⟩ := bind_ok.mp e
    cases e
    exact schedYield_module e₁
  | start =>
    obtain ⟨k₁, e₁, e⟩ := bind_ok.mp e
    cases e
    unfold Emyx.kthreadTrampoline at e₁
    split at e₁
    · obtain ⟨⟨b, k₂⟩, e₂, e₁⟩ := bind_ok.mp e₁
      have hm₂ := userExecTask_module e₂
      cases b with
      | true =>
        cases e₁
        exact hm₂
      | false => exact (kthreadExit_module e₁).trans hm₂
    · cases e₁
      rfl
  | wait pid =>
    unfold Kernel.exec at e
    dsimp only at e
    rw [userWait, Ctl.caller_eq] at e
    cases hc : k.caller with
    | none =>
      rw [hc] at e
      cases e
      rfl
    | some i =>
      rw [hc] at e
      exact waitLoop_module e
  | resume =>
    unfold Kernel.exec at e
    dsimp only at e
    split at e
    · exact waitLoop_module e
    · cases e
      rfl
  | exit status =>
    obtain ⟨k₁, e₁, e⟩ := bind_ok.mp e
    cases e
    exact sysExit_module e₁
  | threadExit =>
    obtain ⟨k₁, e₁, e⟩ := bind_ok.mp e
    cases e
    exact kthreadExit_module e₁
  | store v b =>
    unfold Kernel.exec at e
    dsimp only at e
    split at e
    · cases e
      rfl
    · cases e

theorem KRun.module {C : Kernel → Op → Kernel → Prop} {k0 : Kernel} {ops : List Op}
    (h : KRun C k0 ops k) : k.bootModule = k0.bootModule := by
  induction h with
  | boot => rfl
  | step _ _ _ e ih => exact (Kernel.exec_module e).trans ih

end

/-! ## 6. Every step -/

section

variable {m : Mem} {img : KernelImage} {mbi : MultibootInfo} {p0 : Pmm} {s0 : Mm} {k k' : Kernel}

/-- The step is user code's store to a place it may not write. -/
def Kernel.StoreFaults (k : Kernel) (op : Op) : Prop :=
  ∃ v b, op = .store v b ∧ userPhys k.mm.mem k.cr3 v true = none ∧
    k.exec op = .error (.pageFault v)

/-- **A step returns**, unless user code stores where it may not. -/
theorem KernelInv.exec_returns (h : KernelInv p0 s0 k) (hm : k.bootModule.Direct) {op : Op}
    (hop : op.Legal k.toCtl) (h0 : op = .threadExit → k.currentTask ≠ 0) :
    (∃ r k', k.exec op = .ok (r, k')) ∨ k.StoreFaults op := by
  obtain ⟨bs, ho⟩ := h.owned
  have hinv := h.inv
  have hr := h.runs
  cases op with
  | spawn path =>
    obtain ⟨r, k', e⟩ := ho.spawn_returns hinv hm path
    exact .inl ⟨some r, k', by simp only [Kernel.exec, e, ok_bind]; rfl⟩
  | create =>
    obtain ⟨mm, bs', ⟨e, -⟩ | ⟨j, t, -, e, -⟩⟩ := ho.create .thread
    · exact .inl ⟨_, _, by simp only [Kernel.exec, e, ok_bind]; rfl⟩
    · exact .inl ⟨_, _, by simp only [Kernel.exec, e, ok_bind]; rfl⟩
  | yield =>
    obtain ⟨b, k', e, -⟩ := ho.yield_returns
    exact .inl ⟨none, k', by simp only [Kernel.exec, e, ok_bind]; rfl⟩
  | start =>
    obtain ⟨k', e⟩ := ho.start_returns hinv hr h.cpu hop hm
    exact .inl ⟨none, k', by simp only [Kernel.exec, e, ok_bind]; rfl⟩
  | wait pid =>
    have hcur : k.currentTask ≠ 0 := hinv.ne_zero (by rw [hop.1]; decide)
    obtain ⟨i, hc, -⟩ := hinv.caller_user hr (.inl hop.1)
    obtain ⟨r, k', e⟩ := ho.waitLoop_returns hinv hcur i pid
    refine .inl ⟨r, k', ?_⟩
    unfold Kernel.exec
    dsimp only
    rw [userWait, Ctl.caller_eq, hc]
    exact e
  | resume =>
    obtain ⟨caller, pid, hc⟩ := hop
    have hcur : k.currentTask ≠ 0 := hinv.ne_zero (by rw [hc]; simp)
    obtain ⟨r, k', e⟩ := ho.waitLoop_returns hinv hcur caller pid
    refine .inl ⟨r, k', ?_⟩
    unfold Kernel.exec
    dsimp only
    rw [hc]
    exact e
  | exit status =>
    obtain ⟨k', e⟩ := ho.sysExit_returns hinv hr hop.1 status
    exact .inl ⟨none, k', by simp only [Kernel.exec, e, ok_bind]; rfl⟩
  | threadExit =>
    have hcur := h0 rfl
    obtain ⟨k', e⟩ := ho.exit_returns hr (hinv.kernel_alone hr hop) hcur (hinv.zero_runnable hcur)
    exact .inl ⟨none, k', by simp only [Kernel.exec, e, ok_bind]; rfl⟩
  | store v b =>
    cases ha : userPhys k.mm.mem k.cr3 v true with
    | some a => exact .inl ⟨none, _, by simp only [Kernel.exec, ha]; rfl⟩
    | none => exact .inr ⟨v, b, rfl, ha, by simp only [Kernel.exec, ha]⟩

end

end Emyx
