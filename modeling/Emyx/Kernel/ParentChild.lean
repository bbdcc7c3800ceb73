/-
  File:      Emyx/Kernel/ParentChild.lean
  Subject:   THE PROCESS TABLE AND EXIT STATUS, ALONG RUNS.

  * **`processTable_ok`** -- the table in every state of a run whose counters stay below 2³¹;
  * **`exitStatus_once`** -- the exit status is delivered exactly once and only to the parent;
  * `SelfBooted.parentChild` -- a run with a thread, a process and its child, in which the two are
    seen at work.
-/
import Emyx.Kernel.ExitStatus
import Emyx.Kernel.Wrap

namespace Emyx

open Lib

/-! ## 1. A process and its child -/

section

variable {s0 : Mm}

/-- A thread and a process have run, and the process is running. -/
theorem SelfBooted.parent (hs : SelfBooted s0) : ∃ ops k q p d f g,
    KRun (CountersUpTo (2 ^ 31 - 1)) (schedInit s0 selfModule 0 0) ops k ∧ creations ops = 2 ∧
    Scene s0 ⟨fourTasks (bootTask s0 .runnable) (threadTask s0 1 q .runnable .kernel)
      (userTask 2 d p .running .user) Task.empty, 2, 3,
      threeRecords (runningRecord 1 2 0 d f g) .zero .zero, 2⟩ 35 k ∧ d ∈ k.mm.spaces := by
  -- task 0 creates the thread and spawns the process
  obtain ⟨k₁, q, r₁, t₁, h₁, hsp₁⟩ := (hs.scene.less (Nat.zero_le _)).create (n := 41) rfl
    (oneZombie_three nofun nofun (by decide) nofun) (rfl : _ = some (1 : Fin 16)) (.inl hs.scene.room)
  have h₁ : Scene s0 ⟨fourTasks (bootTask s0 .running) (threadTask s0 1 q .runnable .start)
      Task.empty Task.empty, 0, 2, threeRecords .zero .zero .zero, 1⟩ 41 k₁ :=
    h₁.tables (fun i => by fin_cases i <;> rfl) rfl rfl rfl rfl
  obtain ⟨k₂, p, t₂, h₂, hsp₂, -⟩ := h₁.spawn (n := 39) hs.archive (.inl rfl)
    (oneZombie_three nofun nofun (by decide) nofun) (rfl : _ = some (2 : Fin 16))
    (rfl : _ = some (0 : Fin 16)) rfl (show 2 < 2 ^ 31 by decide)
  generalize (pmmAllocPage k₁.mm.pmm).1 = d at h₂ hsp₂
  have h₂ : Scene s0 ⟨fourTasks (bootTask s0 .running) (threadTask s0 1 q .runnable .start)
      (userTask 2 s0.kernelPageDirectory p .runnable .start) Task.empty, 0, 3,
      threeRecords (.spawned 1 2 0 d [0x2f, 0x61]) .zero .zero, 2⟩ 39 k₂ :=
    h₂.tables (fun i => by fin_cases i <;> rfl) rfl rfl (funext fun i => by fin_cases i <;> rfl) rfl
  -- the thread runs, and yields
  obtain ⟨k₃, t₃, h₃, hmm₃⟩ := h₂.switch (.inl rfl) (noZombie_four nofun nofun nofun)
    (rfl : _ = some (1 : Fin 16))
  have h₃ : Scene s0 ⟨fourTasks (bootTask s0 .runnable) (threadTask s0 1 q .running .start)
      (userTask 2 s0.kernelPageDirectory p .runnable .start) Task.empty, 1, 3,
      threeRecords (.spawned 1 2 0 d [0x2f, 0x61]) .zero .zero, 2⟩ 39 k₃ :=
    h₃.tables (fun i => by fin_cases i <;> rfl) rfl rfl rfl rfl
  obtain ⟨k₄, t₄, h₄, hmm₄⟩ := h₃.startThread rfl rfl
  have h₄ : Scene s0 ⟨fourTasks (bootTask s0 .runnable) (threadTask s0 1 q .running .kernel)
      (userTask 2 s0.kernelPageDirectory p .runnable .start) Task.empty, 1, 3,
      threeRecords (.spawned 1 2 0 d [0x2f, 0x61]) .zero .zero, 2⟩ 39 k₄ :=
    h₄.tables (fun i => by fin_cases i <;> rfl) rfl rfl rfl rfl
  obtain ⟨k₅, t₅, h₅, hmm₅⟩ := h₄.switch (.inl rfl) (noZombie_four nofun nofun nofun)
    (rfl : _ = some (2 : Fin 16))
  have h₅ : Scene s0 ⟨fourTasks (bootTask s0 .runnable) (threadTask s0 1 q .runnable .kernel)
      (userTask 2 s0.kernelPageDirectory p .running .start) Task.empty, 2, 3,
      threeRecords (.spawned 1 2 0 d [0x2f, 0x61]) .zero .zero, 2⟩ 39 k₅ :=
    h₅.tables (fun i => by fin_cases i <;> rfl) rfl rfl rfl rfl
  -- the process starts
  have hd : d ∈ k₅.mm.spaces := by
    rw [hmm₅, hmm₄, hmm₃, hsp₂]
    exact List.mem_cons_self
  obtain ⟨k₆, g, t₆, h₆, hsp₆, -⟩ := h₅.startProcess (n := 35) hs.archive rfl rfl
    (show (2 : Fin 16) ≠ 0 by decide) (rfl : _ = some (0 : Fin 16)) rfl hd
    (fun m _ => threeRecords_forall (P := fun p => p.pages = []) rfl rfl rfl rfl m)
  generalize (pmmAllocPage k₅.mm.pmm).1 = f at h₆
  have h₆ : Scene s0 ⟨fourTasks (bootTask s0 .runnable) (threadTask s0 1 q .runnable .kernel)
      (userTask 2 d p .running .user) Task.empty, 2, 3,
      threeRecords (runningRecord 1 2 0 d f g) .zero .zero, 2⟩ 35 k₆ :=
    h₆.tables (fun i => by fin_cases i <;> rfl) rfl rfl (funext fun i => by fin_cases i <;> rfl) rfl
  have hrun := ((KRun.boot.took t₁ (h₁.counters (m := 2 ^ 31 - 1) (by decide) (by decide))).took t₂
    (h₂.counters (by decide) (by decide))).took t₃ (h₃.counters (by decide) (by decide))
  have hrun := ((hrun.took t₄ (h₄.counters (by decide) (by decide))).took t₅
    (h₅.counters (by decide) (by decide))).took t₆ (h₆.counters (by decide) (by decide))
  exact ⟨_, k₆, q, p, d, f, g, hrun, rfl, h₆, by rwa [hsp₆]⟩

/-- **A thread, a process and its child**: each has run, and task 0 is running. -/
theorem SelfBooted.parentChild (hs : SelfBooted s0) : ∃ ops k q p d f g p' d' f' g',
    KRun (CountersUpTo (2 ^ 31 - 1)) (schedInit s0 selfModule 0 0) ops k ∧ creations ops = 3 ∧
    Scene s0 ⟨fourTasks (bootTask s0 .running) (threadTask s0 1 q .runnable .kernel)
      (userTask 2 d p .runnable .user) (userTask 3 d' p' .runnable .user), 0, 4,
      threeRecords (runningRecord 1 2 0 d f g) (runningRecord 2 3 1 d' f' g') .zero, 3⟩ 29 k ∧
    d' ∈ k.mm.spaces ∧ d ≠ d' := by
  obtain ⟨ops, k₆, q, p, d, f, g, hrun, hcount, h₆, hd⟩ := hs.parent
  -- the process spawns its child and yields
  obtain ⟨k₇, p', t₇, h₇, hsp₇, hnew, -⟩ := h₆.spawn (n := 33) hs.archive
    (.inr ⟨rfl, 0, rfl, _, List.mem_cons_self, rfl⟩)
    (oneZombie_three nofun nofun (by decide) nofun) (rfl : _ = some (3 : Fin 16))
    (rfl : _ = some (1 : Fin 16)) rfl (show 3 < 2 ^ 31 by decide)
  generalize (pmmAllocPage k₆.mm.pmm).1 = d' at h₇ hsp₇ hnew
  have hne : d ≠ d' := fun e => hnew (e ▸ hd)
  have h₇ : Scene s0 ⟨fourTasks (bootTask s0 .runnable) (threadTask s0 1 q .runnable .kernel)
      (userTask 2 d p .running .user) (userTask 3 s0.kernelPageDirectory p' .runnable .start), 2, 4,
      threeRecords (runningRecord 1 2 0 d f g) (.spawned 2 3 1 d' [0x2f, 0x61]) .zero, 3⟩ 33 k₇ :=
    h₇.tables (fun i => by fin_cases i <;> rfl) rfl rfl (funext fun i => by fin_cases i <;> rfl) rfl
  obtain ⟨k₈, t₈, h₈, hmm₈⟩ := h₇.switch (.inr ⟨rfl, 0, rfl, _, List.mem_cons_self, rfl⟩)
    (noZombie_four nofun nofun nofun) (rfl : _ = some (3 : Fin 16))
  have h₈ : Scene s0 ⟨fourTasks (bootTask s0 .runnable) (threadTask s0 1 q .runnable .kernel)
      (userTask 2 d p .runnable .user) (userTask 3 s0.kernelPageDirectory p' .running .start), 3, 4,
      threeRecords (runningRecord 1 2 0 d f g) (.spawned 2 3 1 d' [0x2f, 0x61]) .zero, 3⟩ 33 k₈ :=
    h₈.tables (fun i => by fin_cases i <;> rfl) rfl rfl rfl rfl
  -- the child starts, and yields
  have hd' : d' ∈ k₈.mm.spaces := by
    rw [hmm₈, hsp₇]
    exact List.mem_cons_self
  obtain ⟨k₉, g', t₉, h₉, hsp₉, -⟩ := h₈.startProcess (n := 29) hs.archive rfl rfl
    (show (3 : Fin 16) ≠ 0 by decide) (rfl : _ = some (1 : Fin 16)) rfl hd'
    (threeRecords_forall (P := fun p => p.addressSpace = d' → p.pages = [])
      (fun e => absurd e hne) (fun _ => rfl) (fun _ => rfl) fun _ => rfl)
  generalize (pmmAllocPage k₈.mm.pmm).1 = f' at h₉
  have h₉ : Scene s0 ⟨fourTasks (bootTask s0 .runnable) (threadTask s0 1 q .runnable .kernel)
      (userTask 2 d p .runnable .user) (userTask 3 d' p' .running .user), 3, 4,
      threeRecords (runningRecord 1 2 0 d f g) (runningRecord 2 3 1 d' f' g') .zero, 3⟩ 29 k₉ :=
    h₉.tables (fun i => by fin_cases i <;> rfl) rfl rfl (funext fun i => by fin_cases i <;> rfl) rfl
  obtain ⟨k₁₀, t₁₀, h₁₀, hmm₁₀⟩ := h₉.switch (.inr ⟨rfl, 1, rfl, _, List.mem_cons_self, rfl⟩)
    (noZombie_four nofun nofun nofun)
    ((rfl : _ = some (3 + 1 + 12 : Fin 16)).trans (rfl : _ = some (0 : Fin 16)))
  have h₁₀ : Scene s0 ⟨fourTasks (bootTask s0 .running) (threadTask s0 1 q .runnable .kernel)
      (userTask 2 d p .runnable .user) (userTask 3 d' p' .runnable .user), 0, 4,
      threeRecords (runningRecord 1 2 0 d f g) (runningRecord 2 3 1 d' f' g') .zero, 3⟩ 29 k₁₀ :=
    h₁₀.tables (fun i => by fin_cases i <;> rfl) rfl rfl rfl rfl
  have hrun := (((hrun.took t₇ (h₇.counters (by decide) (by decide))).took t₈
    (h₈.counters (by decide) (by decide))).took t₉ (h₉.counters (by decide) (by decide))).took t₁₀
    (h₁₀.counters (by decide) (by decide))
  have hthree : creations
      (ops ++ [.spawn (some [0x2f, 0x61])] ++ [.yield] ++ [.start] ++ [.yield]) = 3 := by
    simp only [creations_append, hcount]
    rfl
  exact ⟨_, k₁₀, q, p, d, f, g, p', d', f', g', hrun, hthree, h₁₀, by rwa [hmm₁₀, hsp₉], hne⟩

/-- **The child exits with 7**; task 0 and the thread yield, and its parent runs. -/
theorem SelfBooted.childExits (hs : SelfBooted s0) : ∃ ops k k₁ k₂ q p d f g p' d' f' g',
    KRun (CountersUpTo (2 ^ 31 - 1)) (schedInit s0 selfModule 0 0) ops k ∧ creations ops = 3 ∧
    Scene s0 ⟨fourTasks (bootTask s0 .runnable) (threadTask s0 1 q .runnable .kernel)
      (userTask 2 d p .runnable .user) (userTask 3 d' p' .running .user), 3, 4,
      threeRecords (runningRecord 1 2 0 d f g) (runningRecord 2 3 1 d' f' g') .zero, 3⟩ 29 k ∧
    Took k (.exit 7) none k₁ ∧
    Scene s0 ⟨fourTasks (bootTask s0 .running) (threadTask s0 1 q .runnable .kernel)
      (userTask 2 d p .runnable .user) (userTask 3 d' p' .zombie .user), 0, 4,
      threeRecords (runningRecord 1 2 0 d f g) ((runningRecord 2 3 1 d' f' g').exit 7) .zero, 3⟩ 29
      k₁ ∧
    KRun (LeavesAlone 1 2) k₁ [.yield, .yield] k₂ ∧
    Scene s0 ⟨fourTasks (bootTask s0 .runnable) (threadTask s0 1 q .runnable .kernel)
      (userTask 2 d p .running .user) Task.empty, 2, 4,
      threeRecords (runningRecord 1 2 0 d f g) ((runningRecord 2 3 1 d' f' g').exit 7) .zero, 3⟩ 29
      k₂ := by
  obtain ⟨ops, k₀, q, p, d, f, g, p', d', f', g', hrun, hcount, h₀, hd', hne⟩ := hs.parentChild
  -- task 0, the thread and the parent yield
  obtain ⟨k₁, t₁, h₁, hmm₁⟩ := h₀.switch (.inl rfl) (noZombie_four nofun nofun nofun)
    (rfl : _ = some (1 : Fin 16))
  have h₁ : Scene s0 ⟨fourTasks (bootTask s0 .runnable) (threadTask s0 1 q .running .kernel)
      (userTask 2 d p .runnable .user) (userTask 3 d' p' .runnable .user), 1, 4,
      threeRecords (runningRecord 1 2 0 d f g) (runningRecord 2 3 1 d' f' g') .zero, 3⟩ 29 k₁ :=
    h₁.tables (fun i => by fin_cases i <;> rfl) rfl rfl rfl rfl
  obtain ⟨k₂, t₂, h₂, hmm₂⟩ := h₁.switch (.inl rfl) (noZombie_four nofun nofun nofun)
    (rfl : _ = some (2 : Fin 16))
  have h₂ : Scene s0 ⟨fourTasks (bootTask s0 .runnable) (threadTask s0 1 q .runnable .kernel)
      (userTask 2 d p .running .user) (userTask 3 d' p' .runnable .user), 2, 4,
      threeRecords (runningRecord 1 2 0 d f g) (runningRecord 2 3 1 d' f' g') .zero, 3⟩ 29 k₂ :=
    h₂.tables (fun i => by fin_cases i <;> rfl) rfl rfl rfl rfl
  obtain ⟨k₃, t₃, h₃, hmm₃⟩ := h₂.switch (.inr ⟨rfl, 0, rfl, _, List.mem_cons_self, rfl⟩)
    (noZombie_four nofun nofun nofun) (rfl : _ = some (3 : Fin 16))
  have h₃ : Scene s0 ⟨fourTasks (bootTask s0 .runnable) (threadTask s0 1 q .runnable .kernel)
      (userTask 2 d p .runnable .user) (userTask 3 d' p' .running .user), 3, 4,
      threeRecords (runningRecord 1 2 0 d f g) (runningRecord 2 3 1 d' f' g') .zero, 3⟩ 29 k₃ :=
    h₃.tables (fun i => by fin_cases i <;> rfl) rfl rfl rfl rfl
  have hrun := ((hrun.took t₁ (h₁.counters (by decide) (by decide))).took t₂
    (h₂.counters (by decide) (by decide))).took t₃ (h₃.counters (by decide) (by decide))
  -- the child exits; its record stays
  obtain ⟨k₄, t₄, h₄, hsp₄, -⟩ := h₃.exit (i := 1) 7 rfl ⟨1, rfl, _, List.mem_cons_self, rfl⟩
    (show (3 : Fin 16) ≠ 0 by decide) (rfl : _ = some (1 : Fin 16))
    (threeRecords_exited nofun nofun nofun) (by decide)
    ((Ctl.exitRecords_eq ProcessState.noConfusion (show 1 ≠ 2 by decide)
      (threeRecords_pids (fun _ => Nat.succ_ne_zero _) (fun _ => Nat.succ_ne_zero _)
        fun h => absurd rfl h) (fun _ => ⟨0, rfl, rfl⟩) 7).trans
      (show _ = threeRecords (runningRecord 1 2 0 d f g) ((runningRecord 2 3 1 d' f' g').exit 7) .zero
        from funext fun m => by fin_cases m <;> rfl))
    (noZombie_four nofun nofun nofun)
    ((rfl : _ = some (3 + 1 + 12 : Fin 16)).trans (rfl : _ = some (0 : Fin 16)))
  have h₄ : Scene s0 ⟨fourTasks (bootTask s0 .running) (threadTask s0 1 q .runnable .kernel)
      (userTask 2 d p .runnable .user) (userTask 3 d' p' .zombie .user), 0, 4,
      threeRecords (runningRecord 1 2 0 d f g) ((runningRecord 2 3 1 d' f' g').exit 7) .zero, 3⟩ 29
      k₄ := h₄.tables (fun i => by fin_cases i <;> rfl) rfl rfl rfl rfl
  -- its task is reaped
  obtain ⟨k₅, t₅, h₅, -⟩ := h₄.yield_reaps (z := 3) (.inl rfl)
    (processZombie_three nofun nofun (by decide) rfl
      (threeRecords_forall (P := fun p => p.pages ≠ [] → p.addressSpace ≠ d') (fun _ => hne)
        (fun h => absurd rfl h) (fun h => absurd rfl h) fun h => absurd rfl h))
    (by rw [hsp₄, hmm₃, hmm₂, hmm₁]; exact hd') (rfl : _ = some (1 : Fin 16))
  have h₅ : Scene s0 ⟨fourTasks (bootTask s0 .runnable) (threadTask s0 1 q .running .kernel)
      (userTask 2 d p .runnable .user) Task.empty, 1, 4,
      threeRecords (runningRecord 1 2 0 d f g) ((runningRecord 2 3 1 d' f' g').exit 7) .zero, 3⟩ 29
      k₅ := h₅.tables (fun i => by fin_cases i <;> rfl) rfl rfl rfl rfl
  obtain ⟨k₆, t₆, h₆, -⟩ := h₅.switch (.inl rfl) (noZombie_four nofun nofun nofun)
    (rfl : _ = some (2 : Fin 16))
  have hyield : ∀ k k', LeavesAlone 1 2 k .yield k' := fun _ _ _ => ⟨False.elim, nofun⟩
  exact ⟨_, k₃, k₄, k₆, q, p, d, f, g, p', d', f', g', hrun,
    by rw [creations_append, creations_append, creations_append, hcount]; rfl, h₃, t₄, h₄,
    (KRun.boot.took t₅ (hyield _ _)).took t₆ (hyield _ _),
    h₆.tables (fun i => by fin_cases i <;> rfl) rfl rfl rfl rfl⟩

end

/-! ## 2. The process table -/

/-- **The process table, in every state of every run** in which `next_pid` and `next_task_id` have
    not passed 2³¹ - 1. -/
theorem processTable_ok {mm : Mm} {bm : BootModule} {tr esp0 : Nat} {ops : List Op} {k : Kernel}
    (h : KRun (CountersUpTo (2 ^ 31 - 1)) (schedInit mm bm tr esp0) ops k) :
    ProcessTable k.toCtl := h.sound.1.processTable

/-- A process runs, and its child has exited. -/
theorem processTable_childExited : ∃ s0 ops k,
    Booted (smallMem selfArchive) smallImage smallInfo (smallPmm selfArchive) s0 ∧
    KRun (CountersUpTo (2 ^ 31 - 1)) (schedInit s0 selfModule 0 0) ops k ∧
    (k.processes 0).state = .running ∧ (k.processes 1).state = .exited ∧
    (k.processes 1).parentPid = (k.processes 0).pid ∧ ProcessTable k.toCtl := by
  obtain ⟨s0, hs⟩ := selfBooted
  obtain ⟨ops, k, k₁, k₂, q, p, d, f, g, p', d', f', g', hrun, -, -, t₁, h₁, -⟩ := hs.childExits
  have hrun₁ := hrun.took t₁ (h₁.counters (by decide) (by decide))
  refine ⟨s0, _, k₁, hs.booted, hrun₁, ?_, ?_, ?_, processTable_ok hrun₁⟩
  · rw [h₁.ctl]
    rfl
  · rw [h₁.ctl]
    rfl
  · rw [h₁.ctl]
    rfl

/-! ## 3. The exit status -/

/-- **The exit status is delivered exactly once and only to the parent**, in every run with fewer
    than 2³¹ spawns. A wait for `p` by anyone but its parent fails and changes no record. When `p`
    exits while its parent `q` is there, its record keeps the status until `q` waits for it or
    exits; that wait returns the status and frees the record; every later wait for `p` fails. -/
theorem exitStatus_once {mm : Mm} {bm : BootModule} {tr esp0 : Nat} {ops : List Op} {k : Kernel}
    (hrun : KRun AnyStep (schedInit mm bm tr esp0) ops k) (hcount : creations ops < 2 ^ 31) :
    (∀ i op, (k.processes i).state ≠ .free → op.Legal k.toCtl →
      op.WaitsOn k.toCtl (k.processes i).pid → k.callerPid ≠ (k.processes i).parentPid →
      ∃ k', k.exec op = .ok (some (-1), k') ∧ k'.processes = k.processes) ∧
    ∀ p j s r k₁, k.caller = some p →
      userProcessFindByPid k.processes (k.processes p).parentPid = some j →
      (Op.exit s).Legal k.toCtl → k.exec (.exit s) = .ok (r, k₁) →
      ∀ ops₂ k₂, KRun (LeavesAlone (k.processes p).parentPid (k.processes p).pid) k₁ ops₂ k₂ →
        creations (ops ++ ops₂) < 2 ^ 31 →
        k₂.processes p = (k.processes p).exit s ∧
        ∀ op, op.Legal k₂.toCtl → op.WaitsOn k₂.toCtl (k.processes p).pid →
          k₂.callerPid = (k.processes p).parentPid →
          ∃ k₃, k₂.exec op = .ok (some (toInt32 s), k₃) ∧
            k₃.processes = userProcessRelease k₂.processes p ∧
            ∀ ops₄ k₄, KRun AnyStep k₃ ops₄ k₄ → creations (ops ++ ops₂ ++ ops₄) < 2 ^ 31 →
              ∀ op', op'.Legal k₄.toCtl → op'.WaitsOn k₄.toCtl (k.processes p).pid →
                ∃ k₅, k₄.exec op' = .ok (some (-1), k₅) := by
  have hk : Counted (creations ops) k.toCtl := by
    have := hrun.counted (counted_schedInit mm bm tr esp0) (by rwa [Nat.zero_add])
    rwa [Nat.zero_add] at this
  refine ⟨fun i op hi hop hw hc => hk.sound.wait_other hi hop hw hc, ?_⟩
  intro p j s r k₁ hp hj hop he ops₂ k₂ hrun₂ hcount₂
  rw [creations_append] at hcount₂
  have hk₁ : Counted (creations ops) k₁.toCtl := hk.exec hcount hop he
  have hk₂ := hrun₂.counted hk₁ hcount₂
  have hrec : k₂.processes p = (k.processes p).exit s := by
    refine hrun₂.keeps (P := fun c => c.processes p = (k.processes p).exit s) hk₁ hcount₂
      (hk.sound.exits hop hp hj he) ?_
    intro k k' op r hk _ hop hC hs hP
    refine (hs.keeps_exited hk hop ?_ ?_).trans hP
    · rw [hP]
      rfl
    · rw [hP]
      exact hC
  refine ⟨hrec, fun op hop₂ hw hc => ?_⟩
  have hexit : (k₂.processes p).state = .exited := by rw [hrec]; rfl
  obtain ⟨k₃, he₃, hps, hnext⟩ := hk₂.sound.wait_parent hexit hop₂
    (by rw [hrec]; exact hw) (by rw [hrec]; exact hc)
  rw [hrec] at he₃
  refine ⟨k₃, he₃, hps, fun ops₄ k₄ hrun₄ hcount₄ op' hop' hw' => ?_⟩
  rw [creations_append, creations_append] at hcount₄
  have hk₃ := hk₂.exec hcount₂ hop₂ he₃
  have hnone : creations [op] = 0 := by
    cases op with
    | wait _ => rfl
    | resume => rfl
    | _ => cases hw
  rw [hnone, Nat.add_zero] at hk₃
  have hgone : k₄.toCtl.Gone (k.processes p).pid := by
    refine hrun₄.keeps (P := fun c => c.Gone (k.processes p).pid) hk₃ hcount₄ ?_ ?_
    · have := hk₂.sound.gone_released (i := p) (by rw [hexit]; decide) hps hnext
      rwa [hrec] at this
    · intro k k' op r hk hlt _ _ hs hg
      exact hs.gone hk hlt hg
  exact (hrun₄.counted hk₃ hcount₄).sound.wait_gone hgone hop' hw'

/-- The child exits with 7, its parent waits for it twice; before, the child has waited for its
    parent. -/
theorem exitStatus_once_child : ∃ s0 ops k k₁ k₂ k₃,
    Booted (smallMem selfArchive) smallImage smallInfo (smallPmm selfArchive) s0 ∧
    KRun AnyStep (schedInit s0 selfModule 0 0) ops k ∧ k.caller = some 1 ∧
    userProcessFindByPid k.processes (k.processes 1).parentPid = some 0 ∧
    (∃ k', k.exec (.wait 1) = .ok (some (-1), k') ∧ k'.processes = k.processes) ∧
    k.exec (.exit 7) = .ok (none, k₁) ∧ KRun (LeavesAlone 1 2) k₁ [.yield, .yield] k₂ ∧
    k₂.processes 1 = (k.processes 1).exit 7 ∧ k₂.exec (.wait 2) = .ok (some 7, k₃) ∧
    ∃ k₅, k₃.exec (.wait 2) = .ok (some (-1), k₅) := by
  obtain ⟨s0, hs⟩ := selfBooted
  obtain ⟨ops, k, k₁, k₂, q, p, d, f, g, p', d', f', g', hrun, hcount, h, t₁, h₁, hrun₂, h₂⟩ :=
    hs.childExits
  have hcaller : k.caller = some 1 := by rw [h.ctl]; rfl
  have hparent : userProcessFindByPid k.processes (k.processes 1).parentPid = some 0 := by
    rw [h.ctl]
    rfl
  obtain ⟨hothers, hexit⟩ := exitStatus_once hrun.any (by rw [hcount]; decide)
  obtain ⟨hkept, hwait⟩ := hexit 1 0 7 none k₁ hcaller hparent t₁.legal t₁.exec [.yield, .yield] k₂
    (by rw [h.ctl]; exact hrun₂) (by rw [creations_append, hcount]; decide)
  have hpid : (k.processes 1).pid = 2 := by rw [h.ctl]; rfl
  -- the parent waits
  have hlegal₂ : (Op.wait 2).Legal k₂.toCtl := by rw [h₂.ctl]; exact ⟨rfl, by decide⟩
  obtain ⟨k₃, e₃, hps₃, hlater⟩ := hwait (.wait 2) hlegal₂ hpid.symm (by rw [h₂.ctl, h.ctl]; rfl)
  have he₃ := exec_wait (show (Op.wait 2).waiter k₂.toCtl = some (0, 2) by rw [h₂.ctl]; rfl)
    (by rw [h₂.ctl]; rfl)
  have hcont₃ : k₃.cont = .user := by
    rw [(Prod.mk.inj (Except.ok.inj (e₃.symm.trans he₃))).2]
    exact congrArg Task.cont (Function.update_self (f := k₂.tasks) ..)
  exact ⟨s0, ops, k, k₁, k₂, k₃, hs.booted, hrun.any, hcaller, hparent,
    hothers 0 (.wait 1) (by rw [h.ctl]; exact ProcessState.noConfusion)
      (by rw [h.ctl]; exact ⟨rfl, by decide⟩) (by rw [h.ctl]; rfl)
      (by rw [h.ctl]; exact show 2 ≠ 0 by decide),
    t₁.exec, hrun₂, hkept, e₃,
    hlater [] k₃ .boot (by rw [List.append_nil, creations_append, hcount]; decide) (.wait 2)
      ⟨hcont₃, by decide⟩ hpid.symm⟩

end Emyx
