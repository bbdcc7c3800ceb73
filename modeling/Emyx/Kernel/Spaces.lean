/-
  File:      Emyx/Kernel/Spaces.lean
  Subject:   WHO ANSWERS FOR WHICH ADDRESS SPACE: tasks, records, and the memory behind them.

  A directory is made by `user_spawn` for a record, handed over to the record's task by
  `user_exec_task`, and destroyed by the reaper after the task ended; the two failure labels
  destroy it earlier. `Owned` says that at each moment one of them answers for it.

  * `spaceOf`, `Held`, `Owned` -- the directory of a task or of a record whose task did not take it
    over yet, what the tables say about pages and directories, and **the invariant of the tables and
    memory together**;
  * `Owned.cleanup`, `Owned.reap`, `Owned.create`, `Owned.yield`, `Owned.exit` -- the scheduler's
    functions keep it.
-/
import Emyx.Kernel.Memory
import Emyx.Kernel.Stacks
import Emyx.Kernel.Tables

namespace Emyx

open Lib

/-! ## 1. The invariant -/

/-- The directory that a task, or a record whose task did not take it over yet, answers for. -/
def spaceOf (kd : Nat) (c : Ctl) : Fin 16 ⊕ Fin 16 → Option Nat
  | .inl t =>
    if (c.tasks t).state ≠ .unused ∧ (c.tasks t).addressSpace ≠ kd then
      some (c.tasks t).addressSpace
    else none
  | .inr i => if (c.processes i).state = .created then some (c.processes i).addressSpace else none

/-- What the tables say about pages and directories. -/
structure Held (kd : Nat) (c : Ctl) : Prop where
  zero : (c.tasks 0).addressSpace = kd
  pages : ∀ i, (c.processes i).pages ≠ [] → (c.processes i).state = .running
  running : ∀ i, (c.processes i).state = .running → ∃ t, c.Hosts t i ∧
    (c.tasks t).addressSpace = (c.processes i).addressSpace ∧ (c.tasks t).addressSpace ≠ kd
  exited : ∀ i, (c.processes i).state = .exited → (c.processes i).addressSpace = 0
  kernel : ∀ t, (c.tasks t).Live → ¬ (c.tasks t).InUserland → (c.tasks t).addressSpace = kd

/-- **The tables and memory together**: the frames, the stacks and the directories are those the
    tables know. -/
structure Owned (p0 : Pmm) (s0 : Mm) (c : Ctl) (bs : List Blk) (s : Mm) : Prop where
  mm : MmInv p0 s0 c.processes bs s
  owned : StacksOwned c.tasks (allocs bs)
  spaces : Own (spaceOf s.kernelPageDirectory c) (· ∈ s.spaces)
  held : Held s.kernelPageDirectory c

section

variable {p0 : Pmm} {s0 s : Mm} {c c' : Ctl} {bs : List Blk} {k k' : Kernel}

theorem spaceOf_task {kd : Nat} {t : Fin 16} (hu : (c.tasks t).state ≠ .unused)
    (hk : (c.tasks t).addressSpace ≠ kd) :
    spaceOf kd c (.inl t) = some (c.tasks t).addressSpace := if_pos ⟨hu, hk⟩

theorem spaceOf_record (kd : Nat) {i : Fin 16} (h : (c.processes i).state = .created) :
    spaceOf kd c (.inr i) = some (c.processes i).addressSpace := if_pos h

theorem spaceOf_task_congr {kd : Nat} {t : Fin 16}
    (ha : (c'.tasks t).addressSpace = (c.tasks t).addressSpace)
    (hu : (c'.tasks t).state = .unused ↔ (c.tasks t).state = .unused) :
    spaceOf kd c' (.inl t) = spaceOf kd c (.inl t) :=
  if_congr (and_congr (not_congr hu) (by rw [ha])) (congrArg some ha) rfl

theorem spaceOf_record_congr {kd : Nat} {i : Fin 16}
    (hs : (c'.processes i).state = (c.processes i).state)
    (ha : (c'.processes i).addressSpace = (c.processes i).addressSpace) :
    spaceOf kd c' (.inr i) = spaceOf kd c (.inr i) :=
  if_congr (by rw [hs]) (congrArg some ha) rfl

theorem spaceOf_record_none (kd : Nat) {i : Fin 16} (h : (c.processes i).state ≠ .created) :
    spaceOf kd c (.inr i) = none := if_neg h

/-- The directory of a used task is the kernel's or an address space in use. -/
theorem Owned.isDir (h : Owned p0 s0 c bs s) {t : Fin 16} (hu : (c.tasks t).state ≠ .unused) :
    IsDir s (c.tasks t).addressSpace := by
  by_cases hk : (c.tasks t).addressSpace = s.kernelPageDirectory
  · exact .inl hk
  · exact .inr (h.spaces.mem (spaceOf_task hu hk))

/-- Pages belong to a record that runs, in the directory of its task. -/
theorem Owned.host_of_pages (h : Owned p0 s0 c bs s) {i : Fin 16} (hp : (c.processes i).pages ≠ []) :
    ∃ t, (c.tasks t).Live ∧
      spaceOf s.kernelPageDirectory c (.inl t) = some (c.processes i).addressSpace := by
  obtain ⟨t, ht, he, hk⟩ := h.held.running i (h.held.pages i hp)
  exact ⟨t, ht.live, by rw [spaceOf_task ht.live.used hk, he]⟩

/-! ## 2. Changes of the tables -/

/-- Another task table, with the same directories and stacks: no task becomes live, and the tasks
    of the records that run stay theirs. -/
theorem Owned.of_tasks (h : Owned p0 s0 c bs s) (hps : c'.processes = c.processes)
    (hsame : ∀ t, (c'.tasks t).addressSpace = (c.tasks t).addressSpace ∧
      (c'.tasks t).stack = (c.tasks t).stack ∧
      ((c'.tasks t).state = .unused ↔ (c.tasks t).state = .unused))
    (hlive : ∀ t, (c'.tasks t).Live → (c.tasks t).Live ∧
      ((c.tasks t).InUserland → (c'.tasks t).InUserland))
    (hhosts : ∀ i t, (c.processes i).state = .running → c.Hosts t i → c'.Hosts t i) :
    Owned p0 s0 c' bs s where
  mm := hps ▸ h.mm
  owned := h.owned.congr fun t => by
    unfold stackOf
    rw [(hsame t).2.1]
    exact if_congr (and_congr_right fun _ => not_congr (hsame t).2.2) rfl rfl
  spaces := h.spaces.congr (fun r => by
    cases r with
    | inl t => exact spaceOf_task_congr (hsame t).1 (hsame t).2.2
    | inr i => exact spaceOf_record_congr (by rw [hps]) (by rw [hps])) fun _ => Iff.rfl
  held :=
    { zero := (hsame 0).1.trans h.held.zero
      pages := hps ▸ h.held.pages
      running := fun i hi => by
        rw [hps] at hi
        obtain ⟨t, ht, he, hk⟩ := h.held.running i hi
        exact ⟨t, hhosts i t hi ht, by rw [(hsame t).1, hps]; exact he, by rwa [(hsame t).1]⟩
      exited := hps ▸ h.held.exited
      kernel := fun t ht hu => by
        obtain ⟨hl, hcont⟩ := hlive t ht
        rw [(hsame t).1]
        exact h.held.kernel t hl fun hc => hu (hcont hc) }

/-- What may become of a record that answers for no directory and has no pages. -/
def UserProcess.Drops (p p' : UserProcess) : Prop :=
  p.state ≠ .created ∧ (p' = UserProcess.zero ∨
    p'.state = .exited ∧ p'.addressSpace = 0 ∧ p'.pages = [])

/-- The record says the same about its task, its directory and its pages. -/
structure UserProcess.SameHold (p p' : UserProcess) : Prop where
  state : p'.state = p.state
  taskId : p.state = .running → p'.taskId = p.taskId
  addressSpace : p'.addressSpace = p.addressSpace
  pages : p'.pages = p.pages

/-- Other records, with the same tasks: some are dropped. Memory is already that of the new
    records. -/
theorem Owned.of_records (h : Owned p0 s0 c bs s) {s' : Mm} (htasks : c'.tasks = c.tasks)
    (hmm : MmInv p0 s0 c'.processes bs s') (hsp : s'.spaces = s.spaces)
    (hps : ∀ i, (c.processes i).SameHold (c'.processes i) ∨
      (c.processes i).Drops (c'.processes i)) : Owned p0 s0 c' bs s' := by
  have hk : s'.kernelPageDirectory = s.kernelPageDirectory := hmm.kernel.trans h.mm.kernel.symm
  have hstate : ∀ i, (c'.processes i).state = .created ∨ (c'.processes i).state = .running →
      (c.processes i).SameHold (c'.processes i) := by
    intro i hi
    refine (hps i).resolve_right ?_
    rintro ⟨-, h0 | ⟨he, -⟩⟩
    · rw [h0] at hi
      rcases hi with hi | hi <;> cases hi
    · rw [he] at hi
      rcases hi with hi | hi <;> cases hi
  refine ⟨hmm, by rw [htasks]; exact h.owned, ?_, ?_⟩
  · rw [hk, hsp]
    refine h.spaces.congr (fun r => ?_) fun _ => Iff.rfl
    cases r with
    | inl t => exact spaceOf_task_congr (by rw [htasks]) (by rw [htasks])
    | inr i =>
      by_cases hc : (c'.processes i).state = .created
      · exact spaceOf_record_congr (hstate i (.inl hc)).state (hstate i (.inl hc)).addressSpace
      · rw [spaceOf_record_none _ hc, spaceOf_record_none]
        rcases hps i with hi | ⟨hi, -⟩
        · rwa [← hi.state]
        · exact hi
  · rw [hk]
    exact
      { zero := htasks ▸ h.held.zero
        pages := fun i hne => by
          rcases hps i with hi | ⟨-, h0 | ⟨-, -, hp⟩⟩
          · rw [hi.pages] at hne
            exact hi.state.trans (h.held.pages i hne)
          · rw [h0] at hne
            exact absurd rfl hne
          · exact absurd hp hne
        running := fun i hi => by
          have hs := hstate i (.inr hi)
          have hi' := hs.state.symm.trans hi
          obtain ⟨t, ht, he, hne⟩ := h.held.running i hi'
          exact ⟨t, ⟨htasks ▸ ht.live, by rw [htasks, hs.taskId hi']; exact ht.id, htasks ▸ ht.entry⟩,
            by rw [htasks, hs.addressSpace]; exact he, by rwa [htasks]⟩
        exited := fun i hi => by
          rcases hps i with hs | ⟨-, h0 | ⟨-, ha, -⟩⟩
          · exact hs.addressSpace.trans (h.held.exited i (hs.state.symm.trans hi))
          · rw [h0]
            rfl
          · exact ha
        kernel := htasks ▸ h.held.kernel }

theorem UserProcess.SameHold.refl (p : UserProcess) : p.SameHold p :=
  ⟨rfl, fun _ => rfl, rfl, rfl⟩

/-! ## 3. The scheduler -/

theorem Held.clear {kd : Nat} (h : Held kd c) {i : Fin 16} (hi : i ≠ 0) (hl : ¬ (c.tasks i).Live) :
    Held kd { c with tasks := Function.update c.tasks i Task.empty } := by
  have hother : ∀ t, t ≠ i → Function.update c.tasks i Task.empty t = c.tasks t := fun t ht =>
    Function.update_of_ne ht ..
  have hne : ∀ t, (c.tasks t).Live → t ≠ i := fun t ht e => hl (e ▸ ht)
  exact
    { zero := by
        dsimp only
        rw [hother 0 hi.symm]
        exact h.zero
      pages := h.pages
      running := fun n hn => by
        obtain ⟨t, ht, he, hk⟩ := h.running n hn
        have ho := hother t (hne t ht.live)
        refine ⟨t, ⟨?_, ?_, ?_⟩, ?_, ?_⟩
        all_goals
          dsimp only
          rw [ho]
        · exact ht.live
        · exact ht.id
        · exact ht.entry
        · exact he
        · exact hk
      exited := h.exited
      kernel := fun t ht hu => by
        have hti : t ≠ i := by
          rintro rfl
          dsimp only at ht
          rw [Function.update_self] at ht
          exact ht.used rfl
        dsimp only at ht hu ⊢
        rw [hother t hti] at ht hu ⊢
        exact h.kernel t ht hu }

/-- The tables once slot `i` is empty. -/
def Ctl.clearSlot (c : Ctl) (i : Fin 16) : Ctl :=
  { c with tasks := Function.update c.tasks i Task.empty }

theorem spaceOf_clearSlot (kd : Nat) (c : Ctl) (i : Fin 16) (r : Fin 16 ⊕ Fin 16) :
    spaceOf kd (c.clearSlot i) r = if r = .inl i then none else spaceOf kd c r := by
  cases r with
  | inr n => rw [if_neg nofun]; rfl
  | inl t =>
    by_cases ht : t = i
    · subst ht
      rw [if_pos rfl]
      exact if_neg fun hc => hc.1 (by simp only [Ctl.clearSlot, Function.update_self]; rfl)
    · rw [if_neg fun e => ht (Sum.inl.inj e)]
      exact spaceOf_task_congr (by simp only [Ctl.clearSlot, Function.update_of_ne ht])
        (by simp only [Ctl.clearSlot, Function.update_of_ne ht])

theorem Task.not_live {t : Task} (h : t.state = .zombie) : ¬ t.Live := by
  rintro (hc | hc) <;> rw [h] at hc <;> cases hc

/-- A zombie's own directory is an address space in use, of no record. -/
theorem Owned.zombie_space (h : Owned p0 s0 c bs s) {i : Fin 16} (hz : (c.tasks i).state = .zombie)
    (hk : (c.tasks i).addressSpace ≠ s.kernelPageDirectory) :
    (c.tasks i).addressSpace ∈ s.spaces ∧
      ∀ n, (c.processes n).pages ≠ [] → (c.processes n).addressSpace ≠ (c.tasks i).addressSpace := by
  have hrole := spaceOf_task (by rw [hz]; nofun) hk
  refine ⟨h.spaces.mem hrole, fun n hn e => ?_⟩
  obtain ⟨t, ht, hrole'⟩ := h.host_of_pages hn
  rw [e] at hrole'
  cases h.spaces.inj hrole hrole'
  exact Task.not_live hz ht

/-- The first half of `task_cleanup` of a zombie: its directory is destroyed. -/
theorem Owned.cleanup_space (h : Owned p0 s0 k.toCtl bs k.mm) {i : Fin 16}
    (hz : (k.tasks i).state = .zombie) :
    ∃ s₁, (if (k.tasks i).addressSpace ≠ 0 ∧
        (k.tasks i).addressSpace ≠ k.mm.kernelPageDirectory then
        vmmDestroyAddressSpace k.mm (k.tasks i).addressSpace else .ok k.mm) = .ok s₁ ∧
      MmInv p0 s0 k.processes bs s₁ ∧
      Own (spaceOf k.mm.kernelPageDirectory (k.clearSlot i)) (· ∈ s₁.spaces) := by
  by_cases hk : (k.tasks i).addressSpace = k.mm.kernelPageDirectory
  · refine ⟨k.mm, if_neg fun hc => hc.2 hk, h.mm, h.spaces.congr (fun r => ?_) fun _ => Iff.rfl⟩
    rw [spaceOf_clearSlot]
    split
    · rename_i hr
      rw [hr]
      exact (if_neg fun hc => hc.2 hk).symm
    · rfl
  · obtain ⟨hsp, halone⟩ := h.zombie_space hz hk
    obtain ⟨p', -, e, hmm⟩ := h.mm.destroy hsp halone
    refine ⟨_, (if_pos ⟨h.mm.space_pos hsp, hk⟩).trans e, hmm,
      h.spaces.del (spaceOf_task (by rw [hz]; nofun) hk) ?_ (fun r hr => ?_)
        fun d => h.mm.spaces_nodup.mem_erase_iff⟩
    · rw [spaceOf_clearSlot, if_pos rfl]
    · rw [spaceOf_clearSlot, if_neg hr]

/-- The second half: its stack is freed. -/
theorem Owned.cleanup_stack (h : Owned p0 s0 k.toCtl bs k.mm) {i : Fin 16} (hi : i ≠ 0)
    (hz : (k.tasks i).state = .zombie) {s₁ : Mm} {m' : Mem} {bs' : List Blk}
    (e₁ : (if (k.tasks i).addressSpace ≠ 0 ∧
      (k.tasks i).addressSpace ≠ k.mm.kernelPageDirectory then
      vmmDestroyAddressSpace k.mm (k.tasks i).addressSpace else .ok k.mm) = .ok s₁)
    (hmm₁ : MmInv p0 s0 k.processes bs s₁)
    (hown₁ : Own (spaceOf k.mm.kernelPageDirectory (k.clearSlot i)) (· ∈ s₁.spaces))
    (e₂ : kfree s₁ (k.tasks i).stack = .ok { s₁ with mem := m' })
    (hrel : Released s₁ bs ((k.tasks i).stack, 2048) m' bs') :
    taskCleanup k i = .ok { k with toCtl := k.clearSlot i, mm := { s₁ with mem := m' } } ∧
      Owned p0 s0 (k.clearSlot i) bs' { s₁ with mem := m' } := by
  have hu : (k.tasks i).state ≠ .unused := by rw [hz]; nofun
  have hstack := h.owned.mem hi hu
  have hne : (k.tasks i).stack ≠ 0 := fun h0 => by
    have := (h.mm.heap.alloc_bounds hstack).1
    rw [h0] at this
    cases this
  have hmm₂ : MmInv p0 s0 k.processes bs' { s₁ with mem := m' } :=
    hmm₁.of_clients (fun x hx => hrel.heapOnly x (not_inPages hx)) hrel.inv
  refine ⟨bind_ok.mpr ⟨s₁, e₁, bind_ok.mpr ⟨_, (if_pos hne).trans e₂, rfl⟩⟩, hmm₂, ?_, ?_, ?_⟩
  · refine (h.owned.release hi hu h.mm.heap.allocs_nodup).perm ?_
    have := hrel.allocs.erase ((k.tasks i).stack, 2048)
    rw [List.erase_cons_head] at this
    exact this.symm
  · show Own (spaceOf s₁.kernelPageDirectory (k.clearSlot i)) (· ∈ s₁.spaces)
    rw [hmm₁.kernel, ← h.mm.kernel]
    exact hown₁
  · show Held s₁.kernelPageDirectory (k.clearSlot i)
    rw [hmm₁.kernel, ← h.mm.kernel]
    exact h.held.clear hi (Task.not_live hz)

/-- **`task_cleanup` of a zombie** destroys its directory and frees its stack. -/
theorem Owned.cleanup (h : Owned p0 s0 k.toCtl bs k.mm) {i : Fin 16} (hi : i ≠ 0)
    (hz : (k.tasks i).state = .zombie) :
    ∃ k' bs', taskCleanup k i = .ok k' ∧ Owned p0 s0 k'.toCtl bs' k'.mm := by
  obtain ⟨s₁, e₁, hmm₁, hown₁⟩ := h.cleanup_space hz
  obtain ⟨m', bs', e₂, hrel⟩ := kfree_spec hmm₁.heap (h.owned.mem hi (by rw [hz]; nofun))
  obtain ⟨e, h'⟩ := h.cleanup_stack hi hz e₁ hmm₁ hown₁ e₂ hrel
  exact ⟨_, bs', e, h'⟩

/-- **`reap_zombies` returns.** -/
theorem Owned.reap (h : Owned p0 s0 k.toCtl bs k.mm) :
    ∃ mm bs', reapZombies k = .ok { k with toCtl := k.reap, mm := mm } ∧
      Owned p0 s0 k.reap bs' mm := by
  have hI : ∃ bs, Owned p0 s0 k.toCtl bs k.mm := ⟨bs, h⟩
  obtain ⟨k', e, bs', h'⟩ := reapZombies_returns (I := fun k => ∃ bs, Owned p0 s0 k.toCtl bs k.mm)
    (fun k i ⟨_, hk⟩ hi _ hz => by
      obtain ⟨k', bs', e, hk'⟩ := hk.cleanup hi hz
      exact ⟨k', e, bs', hk'⟩) hI
  have hk' := reapZombies_ctl e
  rw [hk'] at e h'
  exact ⟨k'.mm, bs', e, h'⟩

/-- A new task in a free slot, on the kernel's directory and a stack of its own. -/
theorem Owned.addTask (h : Owned p0 s0 c bs s) {j : Fin 16} {t : Task} {bs' : List Blk} {s' : Mm}
    (hj : (c.tasks j).state = .unused) (hj0 : j ≠ 0) (hs : t.state = .runnable)
    (hkd : t.addressSpace = s.kernelPageDirectory)
    (hperm : (allocs bs').Perm ((t.stack, 2048) :: allocs bs))
    (hmm : MmInv p0 s0 c.processes bs' s') (hsp : s'.spaces = s.spaces) :
    Owned p0 s0 (c.addTask j t) bs' s' := by
  have hk : s'.kernelPageDirectory = s.kernelPageDirectory := hmm.kernel.trans h.mm.kernel.symm
  have hself : (c.addTask j t).tasks j = t := Function.update_self ..
  have hother : ∀ u, u ≠ j → (c.addTask j t).tasks u = c.tasks u := fun u hu =>
    Function.update_of_ne hu ..
  have hne : ∀ u, (c.tasks u).state ≠ .unused → u ≠ j := fun u hu e => hu (e ▸ hj)
  refine ⟨hmm, (h.owned.take hj0 hj (by rw [hs]; nofun) ?_).perm hperm, ?_, ?_⟩
  · exact (List.nodup_cons.mp (hperm.nodup_iff.mp hmm.heap.allocs_nodup)).1
  · rw [hk, hsp]
    refine h.spaces.congr (fun r => ?_) fun _ => Iff.rfl
    cases r with
    | inr i => rfl
    | inl u =>
      by_cases hu : u = j
      · subst hu
        refine (if_neg fun hc => hc.2 ?_).trans (if_neg fun hc => hc.1 hj).symm
        rw [hself, hkd]
      · exact spaceOf_task_congr (by rw [hother u hu]) (by rw [hother u hu])
  · rw [hk]
    exact
      { zero := by
          rw [hother 0 hj0.symm]
          exact h.held.zero
        pages := h.held.pages
        running := fun i hi => by
          obtain ⟨u, hu, he, hne'⟩ := h.held.running i hi
          have ho := hother u (hne u hu.live.used)
          exact ⟨u, ⟨ho ▸ hu.live, ho ▸ hu.id, ho ▸ hu.entry⟩, ho ▸ he, ho ▸ hne'⟩
        exited := h.held.exited
        kernel := fun u hl hu => by
          by_cases huj : u = j
          · rw [huj, hself, hkd]
          · rw [hother u huj] at hl hu ⊢
            exact h.held.kernel u hl hu }

/-- **`kthread_create` returns**: it reaps, and fills a free slot or gives up. -/
theorem Owned.create (h : Owned p0 s0 k.toCtl bs k.mm) (e : Entry) :
    ∃ mm bs',
      (kthreadCreate k (some e) = .ok (-1, { k with toCtl := k.reap, mm := mm }) ∧
        Owned p0 s0 k.reap bs' mm) ∨
      ∃ j t, NewTask k.toCtl e j t ∧ kthreadCreate k (some e) =
          .ok (toInt32 k.nextTaskId, { k with toCtl := k.reap.addTask j t, mm := mm }) ∧
        Owned p0 s0 (k.reap.addTask j t) bs' mm := by
  obtain ⟨mm₁, bs₁, e₁, h₁⟩ := h.reap
  unfold kthreadCreate
  simp only [e₁, ok_bind]
  cases hj : k.reap.freeSlot with
  | none => exact ⟨mm₁, bs₁, .inl ⟨rfl, h₁⟩⟩
  | some j =>
    obtain ⟨p, s', bs', e₂, hserved, hmm⟩ := h₁.mm.kmalloc 2048
    simp only [e₂, ok_bind]
    have hallocs := hserved.allocs
    by_cases hp : p = 0
    · rw [if_pos hp] at hallocs
      refine ⟨s', bs', .inl ⟨if_pos hp, hmm, h₁.owned.perm hallocs, ?_, ?_⟩⟩
      · rw [hserved.vm.1, hserved.vm.2.1]
        exact h₁.spaces
      · rw [hserved.vm.1]
        exact h₁.held
    · rw [if_neg hp] at hallocs
      have ha := hallocs.symm.subset List.mem_cons_self
      obtain ⟨hlo, hhi⟩ := hserved.inv.alloc_bounds ha
      obtain ⟨m, em, hm⟩ := schedPrepareKthreadStack_ok s'.mem k.kthreadTrampoline hlo.le hhi
      refine ⟨{ s' with mem := m }, bs', .inr ⟨j, ⟨k.nextTaskId, .runnable, s'.kernelPageDirectory, p,
        some e, .start⟩, ⟨hj, rfl, rfl, rfl, rfl⟩, ?_, ?_⟩⟩
      · rw [if_neg hp, em]
        rfl
      · exact h₁.addTask (Ctl.freeSlot_some hj) ((mem_slots j).mp (List.mem_of_find?_eq_some hj)) rfl
          hserved.vm.1 hallocs (hmm.allocWrite ha hm) hserved.vm.2.1

theorem Owned.switchTo (h : Owned p0 s0 c bs s) {idx : Fin 16}
    (hidx : (c.tasks idx).state = .runnable) : Owned p0 s0 (c.switchTo idx) bs s := by
  -- only states change, and no task becomes or stops being live
  have hstate : ∀ t, ∃ st, (c.switchTo idx).tasks t = { c.tasks t with state := st } ∧
      (st = .unused ↔ (c.tasks t).state = .unused) ∧
      ((st = .runnable ∨ st = .running) ↔ (c.tasks t).Live) := fun t => by
    obtain ⟨st, he, hrun, hother⟩ := c.switchTo_tasks idx t
    refine ⟨st, he, ?_⟩
    by_cases ht : t = idx
    · simp [hrun ht, ht, hidx, Task.Live]
    · obtain ⟨rfl, -⟩ | ⟨-, hs, rfl⟩ := hother ht
      · simp [Task.Live]
      · simp [hs, Task.Live]
  refine h.of_tasks rfl (fun t => ?_) (fun t => ?_) fun i t _ ht => ?_
  all_goals obtain ⟨st, he, hu, hl⟩ := hstate t
  · rw [he]
    exact ⟨rfl, rfl, hu⟩
  · rw [he]
    exact fun hc => ⟨hl.mp hc, id⟩
  · have hl' := hl.mpr ht.live
    exact ⟨by rw [he]; exact hl', by rw [he]; exact ht.id, by rw [he]; exact ht.entry⟩

/-- The current task ends, and no record that runs is left to it. -/
theorem Owned.zombify (h : Owned p0 s0 c bs s) (hr : c.Runs)
    (hno : ∀ i, (c.processes i).state = .running →
      (c.processes i).taskId ≠ (c.tasks c.currentTask).id) : Owned p0 s0 c.zombify bs s := by
  have hself : c.zombify.tasks c.currentTask = { c.tasks c.currentTask with state := .zombie } :=
    Function.update_self ..
  have hother : ∀ t, t ≠ c.currentTask → c.zombify.tasks t = c.tasks t := fun t ht =>
    Function.update_of_ne ht ..
  refine h.of_tasks rfl (fun t => ?_) (fun t ht => ?_) fun i t hi ht => ?_
  · by_cases htc : t = c.currentTask
    · rw [htc, hself]
      exact ⟨rfl, rfl, iff_of_false nofun hr.live.used⟩
    · rw [hother t htc]
      exact ⟨rfl, rfl, Iff.rfl⟩
  · have htc : t ≠ c.currentTask := by
      rintro rfl
      rw [hself] at ht
      rcases ht with ht | ht <;> cases ht
    rw [hother t htc] at ht ⊢
    exact ⟨ht, id⟩
  · have htc : t ≠ c.currentTask := by
      rintro rfl
      exact hno i hi ht.id.symm
    have ho := hother t htc
    exact ⟨ho ▸ ht.live, ho ▸ ht.id, ho ▸ ht.entry⟩

/-- The current task goes on elsewhere, and stays in user code if it was there. -/
theorem Owned.setCont (h : Owned p0 s0 c bs s) {cont : Cont}
    (hcont : (c.tasks c.currentTask).InUserland →
      Task.InUserland { c.tasks c.currentTask with cont := cont }) :
    Owned p0 s0 (c.setCont cont) bs s := by
  have hself : (c.setCont cont).tasks c.currentTask =
      { c.tasks c.currentTask with cont := cont } := Function.update_self ..
  have hother : ∀ t, t ≠ c.currentTask → (c.setCont cont).tasks t = c.tasks t := fun t ht =>
    Function.update_of_ne ht ..
  refine h.of_tasks rfl (fun t => ?_) (fun t ht => ?_) fun i t _ ht => ?_
  all_goals by_cases htc : t = c.currentTask
  · rw [htc, hself]
    exact ⟨rfl, rfl, Iff.rfl⟩
  · rw [hother t htc]
    exact ⟨rfl, rfl, Iff.rfl⟩
  · rw [htc, hself] at ht
    rw [htc, hself]
    exact ⟨ht, hcont⟩
  · rw [hother t htc] at ht ⊢
    exact ⟨ht, id⟩
  · subst htc
    exact ⟨by rw [hself]; exact ht.live, by rw [hself]; exact ht.id, by rw [hself]; exact ht.entry⟩
  · have ho := hother t htc
    exact ⟨ho ▸ ht.live, ho ▸ ht.id, ho ▸ ht.entry⟩

/-- The processor is on the current task's directory and kernel stack. -/
structure Kernel.OnCpu (k : Kernel) : Prop where
  cr3 : k.cr3 = (k.tasks k.currentTask).addressSpace
  esp0 : (k.tasks k.currentTask).stack ≠ 0 → k.esp0 = stackTop (k.tasks k.currentTask).stack

/-- The same task runs, on the same directory and stack. -/
theorem Kernel.OnCpu.same (h : k.OnCpu) (hcur : k'.currentTask = k.currentTask)
    (ha : (k'.tasks k.currentTask).addressSpace = (k.tasks k.currentTask).addressSpace)
    (hs : (k'.tasks k.currentTask).stack = (k.tasks k.currentTask).stack) (hcr3 : k'.cr3 = k.cr3)
    (hesp : k'.esp0 = k.esp0) : k'.OnCpu where
  cr3 := by rw [hcr3, hcur, ha, h.cr3]
  esp0 := by
    rw [hcur, hs, hesp]
    exact h.esp0

/-- **`sched_yield`** keeps the invariant, and a switch puts the processor on the new task. -/
theorem Owned.yield (h : Owned p0 s0 k.toCtl bs k.mm) {b : Bool} (e : schedYield k = .ok (b, k')) :
    ∃ bs', Owned p0 s0 k'.toCtl bs' k'.mm ∧ ((b = true ∨ k.OnCpu) → k'.OnCpu) := by
  obtain ⟨mm₁, bs₁, e₁, h₁⟩ := h.reap
  unfold schedYield at e
  simp only [e₁, ok_bind] at e
  cases hi : k.reap.nextRunnable with
  | none =>
    rw [hi] at e
    cases e
    refine ⟨bs₁, h₁, fun hb => ?_⟩
    have hcpu := hb.resolve_left nofun
    refine hcpu.same rfl ?_ ?_ rfl rfl
    · rw [Ctl.reap_current]
    · rw [Ctl.reap_current]
  | some idx =>
    rw [hi] at e
    cases e
    exact ⟨bs₁, h₁.switchTo (Ctl.nextRunnable_some hi), fun _ => ⟨rfl, fun hs => if_pos hs⟩⟩

/-- **`kthread_exit`** keeps the invariant. -/
theorem Owned.exit (h : Owned p0 s0 k.toCtl bs k.mm) (hr : k.toCtl.Runs)
    (hno : ∀ i, (k.processes i).state = .running →
      (k.processes i).taskId ≠ (k.tasks k.currentTask).id) (e : kthreadExit k = .ok k') :
    ∃ bs', Owned p0 s0 k'.toCtl bs' k'.mm ∧ k'.OnCpu := by
  unfold kthreadExit at e
  by_cases h0 : k.currentTask = 0
  · rw [if_pos h0] at e
    cases e
  · rw [if_neg h0] at e
    obtain ⟨⟨b, k₁⟩, e₁, e⟩ := bind_ok.mp e
    have hz := h.zombify hr hno
    obtain ⟨bs', h', hcpu⟩ := Owned.yield (k := { k with toCtl := k.zombify }) hz e₁
    cases b with
    | false => cases e
    | true =>
      cases e
      exact ⟨bs', h', hcpu (.inl rfl)⟩

end

end Emyx
