/-
  File:      Emyx/Kernel/Wrap.lean
  Subject:   A RUN IN WHICH TASK IDS WRAP: two processes with one task id.

  `next_task_id` is 32 bits wide and nothing checks that the id it gives is free. A process that
  lives through 2³² creations meets its own id again: the next process spawned gets it too, and
  its task, looking for its record by id, finds the record of the older one.

  * `Scene.cycle` -- a thread is created, runs and ends: only `next_task_id` has moved;
  * **`SelfBooted.wrapped`** -- after 2³² - 1 of these the next id is that of the process in slot 1;
  * **`SelfBooted.destroyed`** -- the process spawned then destroys the address space of the older
    one.
-/
import Emyx.Kernel.Scenes

namespace Emyx

open Lib

/-! ## 1. One cycle -/

section

variable {s0 : Mm} {k : Kernel} {c : Task} {x pid n : Nat} {ps : Fin 16 → UserProcess}

/-- **One cycle**: a thread is created in slot 2, the process in slot 1 has its turn, the thread
    runs and ends. -/
theorem Scene.cycle {d₁ p₁ : Nat} (h : Scene s0 ⟨fourTasks (bootTask s0 .running)
      (userTask 1 d₁ p₁ .runnable .user) c Task.empty, 0, x, ps, pid⟩ 0 k)
    (hcode : ∃ i, (ps i).addressSpace = d₁ ∧ ∃ y ∈ (ps i).pages, y.vaddr = 0x00400000)
    (hc : c = Task.empty ∧ Room k.mm.pmm (n + 1) ∨
      (∃ y p, c = threadTask s0 y p .zombie .kernel) ∧ Room k.mm.pmm n) :
    ∃ k' p, Leads k k' ∧ Scene s0 ⟨fourTasks (bootTask s0 .running)
      (userTask 1 d₁ p₁ .runnable .user) (threadTask s0 x p .zombie .kernel) Task.empty, 0,
      (x + 1) % 2 ^ 32, ps, pid⟩ n k' := by
  have hz : c.state = .zombie → c.addressSpace = s0.kernelPageDirectory := fun hcz => by
    rcases hc with ⟨rfl, -⟩ | ⟨⟨y, p, rfl⟩, -⟩
    · cases hcz
    · rfl
  have hreap : Ctl.reap ⟨fourTasks (bootTask s0 .running) (userTask 1 d₁ p₁ .runnable .user) c
      Task.empty, 0, x, ps, pid⟩ = ⟨fourTasks (bootTask s0 .running)
      (userTask 1 d₁ p₁ .runnable .user) Task.empty Task.empty, 0, x, ps, pid⟩ := by
    unfold Ctl.reap
    congr 1
    funext t
    rcases hc with ⟨rfl, -⟩ | ⟨⟨y, p, rfl⟩, -⟩ <;> fin_cases t <;> rfl
  obtain ⟨k₁, p, r, t₁, h₁, -⟩ := h.create rfl (oneZombie_two nofun nofun (by decide) hz)
    (by rw [hreap]; exact (rfl : _ = some (2 : Fin 16))) (hc.imp And.right fun hc => by
      obtain ⟨⟨y, p, rfl⟩, hroom⟩ := hc
      exact ⟨rfl, hroom⟩)
  rw [hreap] at h₁
  have h₁ : Scene s0 ⟨fourTasks (bootTask s0 .running) (userTask 1 d₁ p₁ .runnable .user)
      (threadTask s0 x p .runnable .start) Task.empty, 0, (x + 1) % 2 ^ 32, ps, pid⟩ n k₁ :=
    h₁.tables (fun i => by fin_cases i <;> rfl) rfl rfl rfl rfl
  -- the process
  obtain ⟨k₂, t₂, h₂, -⟩ := h₁.switch (.inl rfl) (noZombie_four nofun nofun nofun)
    (rfl : _ = some (1 : Fin 16))
  have h₂ : Scene s0 ⟨fourTasks (bootTask s0 .runnable) (userTask 1 d₁ p₁ .running .user)
      (threadTask s0 x p .runnable .start) Task.empty, 1, (x + 1) % 2 ^ 32, ps, pid⟩ n k₂ :=
    h₂.tables (fun i => by fin_cases i <;> rfl) rfl rfl rfl rfl
  -- the thread
  obtain ⟨k₃, t₃, h₃, -⟩ := h₂.switch (.inr ⟨rfl, hcode⟩) (noZombie_four nofun nofun nofun)
    (rfl : _ = some (2 : Fin 16))
  have h₃ : Scene s0 ⟨fourTasks (bootTask s0 .runnable) (userTask 1 d₁ p₁ .runnable .user)
      (threadTask s0 x p .running .start) Task.empty, 2, (x + 1) % 2 ^ 32, ps, pid⟩ n k₃ :=
    h₃.tables (fun i => by fin_cases i <;> rfl) rfl rfl rfl rfl
  obtain ⟨k₄, hl₄, h₄, -⟩ := h₃.threadTurn rfl rfl (show (2 : Fin 16) ≠ 0 by decide)
    (noZombie_four nofun nofun nofun)
    ((rfl : _ = some (2 + 1 + 13 : Fin 16)).trans (rfl : _ = some (0 : Fin 16)))
  exact ⟨k₄, p, ((t₁.leads.took t₂).took t₃).trans hl₄,
    h₄.tables (fun i => by fin_cases i <;> rfl) rfl rfl rfl rfl⟩

end

/-! ## 2. The run -/

/-- The record of the first process once it runs, with its two pages. -/
def olderRecord (f g : Nat) : UserProcess := runningRecord 1 1 0 0x116000 f g

section

variable {s0 : Mm} {k : Kernel}

/-- The machine with the archive has booted. -/
structure SelfBooted (s0 : Mm) : Prop where
  booted : Booted (smallMem selfArchive) smallImage smallInfo (smallPmm selfArchive) s0
  module : bootInit (smallMem selfArchive) smallInfo = .ok selfModule
  archive : HoldsBytes s0.mem 0x50000 selfArchive
  free : FreeFrom s0.pmm 0x116
  pages : s0.pmm.maxPage = 0x140

theorem selfBooted : ∃ s0, SelfBooted s0 := by
  obtain ⟨s0, hb, hbm, hfree, hmax, hs⟩ := booted_small selfArchive (by decide)
  exact ⟨s0, hb, hbm, hs, hfree, hmax⟩

/-- After boot. -/
theorem SelfBooted.scene (h : SelfBooted s0) :
    Scene s0 ⟨fourTasks (bootTask s0 .running) Task.empty Task.empty Task.empty, 0, 1,
      threeRecords .zero .zero .zero, 1⟩ 42 (schedInit s0 selfModule 0 0) := by
  have ho := owned_boot h.booted selfModule 0 0
  have hroom := h.free.room (by rw [h.pages]; decide)
  rw [h.pages] at hroom
  have h : Scene s0 (schedInit s0 selfModule 0 0).toCtl 42 (schedInit s0 selfModule 0 0) :=
    ⟨rfl, rfl, rfl, rfl, ⟨[], ho.mm, ho.owned⟩, hroom⟩
  exact h.tables (fun i => by fin_cases i <;> rfl) rfl rfl (funext fun i => by fin_cases i <;> rfl) rfl

/-- **Task 0 spawns the first process.** Its directory is the first page the allocator has. -/
theorem SelfBooted.spawned (hs : SelfBooted s0) : ∃ k p,
    KRun FreshSteps (schedInit s0 selfModule 0 0) [.spawn (some [0x2f, 0x61])] k ∧
    Leads (schedInit s0 selfModule 0 0) k ∧ Scene s0 ⟨fourTasks (bootTask s0 .running)
      (userTask 1 s0.kernelPageDirectory p .runnable .start) Task.empty Task.empty, 0, 2,
      threeRecords (.spawned 1 1 0 0x116000 [0x2f, 0x61]) .zero .zero, 2⟩ 40 k ∧
    0x116000 ∈ k.mm.spaces ∧ ∀ x, x < 768 → dirWord k.mm.mem 0x116000 x = 0 := by
  have halloc : (pmmAllocPage s0.pmm).1 = 0x116000 := by
    rw [(hs.free.alloc (by rw [hs.pages]; decide)).1]
  obtain ⟨k, p, t, h, hsp, -, hdir⟩ := hs.scene.spawn hs.archive (.inl rfl)
    (oneZombie_two nofun nofun (by decide) nofun) (rfl : _ = some (1 : Fin 16))
    (rfl : _ = some (0 : Fin 16)) rfl (show 1 < 2 ^ 31 by decide)
  rw [show (schedInit s0 selfModule 0 0).mm.pmm = s0.pmm from rfl, halloc] at h hsp hdir
  have hfresh := schedInit_freshId s0 selfModule 0 0
  exact ⟨k, p, KRun.boot.took t fun _ => hfresh, t.leads, h.tables (fun i => by fin_cases i <;> rfl)
    rfl rfl (funext fun i => by fin_cases i <;> rfl) rfl, by rw [hsp]; exact List.mem_cons_self, hdir⟩

/-- **The process starts.** -/
theorem SelfBooted.started (hs : SelfBooted s0) : ∃ k p f g,
    KRun FreshSteps (schedInit s0 selfModule 0 0)
      [.spawn (some [0x2f, 0x61]), .yield, .start] k ∧ Leads (schedInit s0 selfModule 0 0) k ∧
    Scene s0 ⟨fourTasks (bootTask s0 .runnable) (userTask 1 0x116000 p .running .user)
      Task.empty Task.empty, 1, 2, threeRecords (olderRecord f g) .zero .zero, 2⟩ 36 k := by
  obtain ⟨k₁, p, hrun, hl₁, h₁, hsp₁, -⟩ := hs.spawned
  obtain ⟨k₂, t₂, h₂, hmm₂⟩ := h₁.switch (.inl rfl) (noZombie_four nofun nofun nofun)
    (rfl : _ = some (1 : Fin 16))
  have h₂ : Scene s0 ⟨fourTasks (bootTask s0 .runnable)
      (userTask 1 s0.kernelPageDirectory p .running .start) Task.empty Task.empty, 1, 2,
      threeRecords (.spawned 1 1 0 0x116000 [0x2f, 0x61]) .zero .zero, 2⟩ 40 k₂ :=
    h₂.tables (fun i => by fin_cases i <;> rfl) rfl rfl rfl rfl
  obtain ⟨k₃, g, t₃, h₃, -⟩ := h₂.startProcess (n := 36) hs.archive rfl rfl
    (show (1 : Fin 16) ≠ 0 by decide) (rfl : _ = some (0 : Fin 16)) rfl
    (by rw [hmm₂]; exact hsp₁) (fun m _ => by fin_cases m <;> rfl)
  exact ⟨k₃, p, _, g, (hrun.took t₂ nofun).took t₃ nofun, (hl₁.took t₂).took t₃,
    h₃.tables (fun i => by fin_cases i <;> rfl) rfl rfl (funext fun i => by fin_cases i <;> rfl) rfl⟩

/-- `N + 1` cycles. -/
theorem Scene.cycles {d₁ p₁ x pid n : Nat} {ps : Fin 16 → UserProcess} (N : Nat)
    (h : Scene s0 ⟨fourTasks (bootTask s0 .running) (userTask 1 d₁ p₁ .runnable .user) Task.empty
      Task.empty, 0, x, ps, pid⟩ (n + 1) k)
    (hcode : ∃ i, (ps i).addressSpace = d₁ ∧ ∃ y ∈ (ps i).pages, y.vaddr = 0x00400000) :
    ∃ k' y p, Leads k k' ∧ Scene s0 ⟨fourTasks (bootTask s0 .running)
      (userTask 1 d₁ p₁ .runnable .user) (threadTask s0 y p .zombie .kernel) Task.empty, 0,
      (x + (N + 1)) % 2 ^ 32, ps, pid⟩ n k' := by
  induction N with
  | zero =>
    obtain ⟨k', p, hl, h'⟩ := (h.less (Nat.zero_le _)).cycle hcode (.inl ⟨rfl, h.room⟩)
    exact ⟨k', x, p, hl, h'⟩
  | succ N ih =>
    obtain ⟨k₁, y, p, hl, h₁⟩ := ih
    obtain ⟨k', p', hl', h'⟩ := (h₁.less (Nat.zero_le _)).cycle hcode (.inr ⟨⟨y, p, rfl⟩, h₁.room⟩)
    refine ⟨k', (x + (N + 1)) % 2 ^ 32, p', hl.trans hl', ?_⟩
    rwa [Nat.mod_add_mod] at h'

/-- **The ids have wrapped**: the process in slot 1 is alive, and the next id is its own. -/
theorem SelfBooted.wrapped (hs : SelfBooted s0) : ∃ k p₁ f g y p,
    Leads (schedInit s0 selfModule 0 0) k ∧ Scene s0 ⟨fourTasks (bootTask s0 .running)
      (userTask 1 0x116000 p₁ .runnable .user) (threadTask s0 y p .zombie .kernel) Task.empty, 0, 1,
      threeRecords (olderRecord f g) .zero .zero, 2⟩ 35 k := by
  obtain ⟨k₀, p₁, f, g, -, hl₀, h₀⟩ := hs.started
  obtain ⟨k₁, t₁, h₁, -⟩ := h₀.switch (.inr ⟨rfl, 0, rfl, _, List.mem_cons_self, rfl⟩)
    (noZombie_four nofun nofun nofun)
    ((rfl : _ = some (1 + 1 + 14 : Fin 16)).trans (rfl : _ = some (0 : Fin 16)))
  have h₁ : Scene s0 ⟨fourTasks (bootTask s0 .running) (userTask 1 0x116000 p₁ .runnable .user)
      Task.empty Task.empty, 0, 2, threeRecords (olderRecord f g) .zero .zero, 2⟩ 36 k₁ :=
    h₁.tables (fun i => by fin_cases i <;> rfl) rfl rfl rfl rfl
  obtain ⟨k₂, y, p, hl₂, h₂⟩ := h₁.cycles (n := 35) (2 ^ 32 - 2)
    ⟨0, rfl, _, List.mem_cons_self, rfl⟩
  exact ⟨k₂, p₁, f, g, y, p, (hl₀.took t₁).trans hl₂, h₂⟩

end

/-! ## 3. The collision -/

section

variable {s0 : Mm} {k : Kernel} {d : Task} {idx : Fin 16} {p₁ p₂ f g x pid n : Nat} {q r : UserProcess}

/-- **The task in slot 2 has the id of the process in slot 1**: when its turn comes it destroys the
    address space of that process, and ends. -/
theorem Scene.collide (hs : HoldsBytes s0.mem 0x50000 selfArchive)
    (h : Scene s0 ⟨fourTasks (bootTask s0 .running) (userTask 1 0x116000 p₁ .runnable .user)
      (userTask 1 s0.kernelPageDirectory p₂ .runnable .start) d, 0, x,
      threeRecords (olderRecord f g) q r, pid⟩ n k) (hd : d.state ≠ .zombie) (hq : q.pages = [])
    (hr : r.pages = []) (hn : Ctl.nextRunnable (Ctl.zombify ⟨fourTasks (bootTask s0 .runnable)
      (userTask 1 0x116000 p₁ .runnable .user)
      (userTask 1 s0.kernelPageDirectory p₂ .running .start) d, 2, x,
      threeRecords (olderRecord f g) q r, pid⟩) = some idx) :
    ∃ k', Leads k k' ∧ Scene s0 (Ctl.switchTo ⟨fourTasks (bootTask s0 .runnable)
      (userTask 1 0x116000 p₁ .runnable .user)
      (userTask 1 s0.kernelPageDirectory p₂ .zombie .start) d, 2, x,
      threeRecords .zero q r, pid⟩ idx) n k' ∧
      k'.mm.spaces = k.mm.spaces.erase 0x116000 ∧
      ¬ Allocated (smallPmm selfArchive) k'.mm.pmm 0x116000 := by
  obtain ⟨k₁, t₁, h₁, hmm₁⟩ := h.switch (.inl rfl) (noZombie_four nofun nofun hd)
    (rfl : _ = some (1 : Fin 16))
  have h₁ : Scene s0 ⟨fourTasks (bootTask s0 .runnable) (userTask 1 0x116000 p₁ .running .user)
      (userTask 1 s0.kernelPageDirectory p₂ .runnable .start) d, 1, x,
      threeRecords (olderRecord f g) q r, pid⟩ n k₁ :=
    h₁.tables (fun i => by fin_cases i <;> rfl) rfl rfl rfl rfl
  obtain ⟨k₂, t₂, h₂, hmm₂⟩ := h₁.switch (.inr ⟨rfl, 0, rfl, _, List.mem_cons_self, rfl⟩)
    (noZombie_four nofun nofun hd)
    (rfl : _ = some (2 : Fin 16))
  have h₂ : Scene s0 ⟨fourTasks (bootTask s0 .runnable) (userTask 1 0x116000 p₁ .runnable .user)
      (userTask 1 s0.kernelPageDirectory p₂ .running .start) d, 2, x,
      threeRecords (olderRecord f g) q r, pid⟩ n k₂ :=
    h₂.tables (fun i => by fin_cases i <;> rfl) rfl rfl rfl rfl
  obtain ⟨k₃, t₃, h₃, hsp, hfreed⟩ := h₂.startMapped (x := ⟨0x00400000, f⟩) hs rfl rfl
    (show (2 : Fin 16) ≠ 0 by decide) (rfl : _ = some (0 : Fin 16)) rfl
    (threeRecords_alone (fun h => absurd rfl h) (fun _ h => absurd hq h) fun _ h => absurd hr h)
    List.mem_cons_self rfl (noZombie_four nofun nofun hd) hn
  refine ⟨k₃, (t₁.leads.took t₂).took t₃, ?_, ?_, hfreed⟩
  · have hz : Ctl.zombify ⟨fourTasks (bootTask s0 .runnable) (userTask 1 0x116000 p₁ .runnable .user)
        (userTask 1 s0.kernelPageDirectory p₂ .running .start) d, 2, x,
        threeRecords (olderRecord f g) q r, pid⟩ = ⟨fourTasks (bootTask s0 .runnable)
        (userTask 1 0x116000 p₁ .runnable .user)
        (userTask 1 s0.kernelPageDirectory p₂ .zombie .start) d, 2, x,
        threeRecords (olderRecord f g) q r, pid⟩ := by
      unfold Ctl.zombify
      congr 1
      funext t
      fin_cases t <;> rfl
    have hrel : userProcessRelease (threeRecords (olderRecord f g) q r) 0 = threeRecords .zero q r := by
      funext t
      fin_cases t <;> rfl
    rw [hz, hrel] at h₃
    exact h₃
  · rw [hsp, hmm₂, hmm₁]
    rfl

/-- **The younger process is spawned** with the task id of the older one. -/
theorem SelfBooted.twice (hs : SelfBooted s0) : ∃ k p₁ p₂ f g d₂,
    Leads (schedInit s0 selfModule 0 0) k ∧ Scene s0 ⟨fourTasks (bootTask s0 .running)
      (userTask 1 0x116000 p₁ .runnable .user)
      (userTask 1 s0.kernelPageDirectory p₂ .runnable .start) Task.empty, 0, 2,
      threeRecords (olderRecord f g) (.spawned 2 1 0 d₂ [0x2f, 0x61]) .zero, 3⟩ 33 k := by
  obtain ⟨k₀, p₁, f, g, y, p, hl₀, h₀⟩ := hs.wrapped
  obtain ⟨k₁, p₂, t₁, h₁, -⟩ := h₀.spawn (n := 33) hs.archive (.inl rfl)
    (oneZombie_two nofun nofun (by decide) fun _ => rfl) (rfl : _ = some (2 : Fin 16))
    (rfl : _ = some (1 : Fin 16)) rfl (show 1 < 2 ^ 31 by decide)
  exact ⟨k₁, p₁, p₂, f, g, _, hl₀.took t₁, h₁.tables (fun i => by fin_cases i <;> rfl) rfl rfl
    (funext fun i => by fin_cases i <;> rfl) rfl⟩

/-- **The address space of a process that runs is destroyed.** Task 0 runs again; the process
    in slot 1 is still on the directory at `0x116000`, and its frame is free. -/
theorem SelfBooted.destroyed (hs : SelfBooted s0) : ∃ k p₁ p₂ d₂,
    Leads (schedInit s0 selfModule 0 0) k ∧ Scene s0 ⟨fourTasks (bootTask s0 .running)
      (userTask 1 0x116000 p₁ .runnable .user)
      (userTask 1 s0.kernelPageDirectory p₂ .zombie .start) Task.empty, 0, 2,
      threeRecords .zero (.spawned 2 1 0 d₂ [0x2f, 0x61]) .zero, 3⟩ 33 k ∧
    0x116000 ∉ k.mm.spaces ∧ ¬ Allocated (smallPmm selfArchive) k.mm.pmm 0x116000 := by
  obtain ⟨k₁, p₁, p₂, f, g, d₂, hl₁, h₁⟩ := hs.twice
  obtain ⟨k₂, hl₂, h₂, hsp, hfreed⟩ := h₁.collide hs.archive nofun rfl rfl
    ((rfl : _ = some (2 + 1 + 13 : Fin 16)).trans (rfl : _ = some (0 : Fin 16)))
  refine ⟨k₂, p₁, p₂, d₂, hl₁.trans hl₂,
    h₂.tables (fun i => by fin_cases i <;> rfl) rfl rfl rfl rfl, ?_, hfreed⟩
  obtain ⟨bs, hb₁⟩ := h₁.backed
  rw [hsp]
  exact hb₁.mm.spaces_nodup.not_mem_erase

end

end Emyx
