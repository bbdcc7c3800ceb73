/-
  File:      Emyx/Kernel/Forward.lean
  Subject:   STEPS THAT GO THROUGH: what each call does when nothing stands against it.

  The invariants say what holds after a call that returned. Here the calls are computed: from the
  tables and the free pages before, that the call returns, the tables after it, and the frames it
  took.

  * `Room` -- so many pages are free, all in the direct map;
  * `Backed` -- memory's invariant, and a stack of its own for every task;
  * `Backed.reap`, `Backed.kthread`, `Backed.yield`, `Backed.kexit` -- the scheduler's calls;
  * `Backed.spawn` -- a process is spawned;
  * `MmInv.execTask_ok` -- its program is loaded into its address space, and entered;
  * `MmInv.execTask_mapped` -- a task that takes the record of a process that runs for its own
    destroys it;
  * `Backed.reap_space`, `Backed.spawn_reaps`, `Backed.exitCurrent` -- a process ends.
-/
import Emyx.Kernel.Load

namespace Emyx

open Lib

/-! ## 1. Free pages -/

/-- All pages are in the direct map, and `n` of them are free. -/
def Room (p : Pmm) (n : Nat) : Prop :=
  p.maxPage ≤ 0x1000 ∧ ∃ F : Finset Nat, n ≤ F.card ∧ ∀ r ∈ F, 1 ≤ r ∧ r < p.maxPage ∧ ¬ p.isSet r

theorem Room.le {p : Pmm} {n n' : Nat} (h : Room p n) (hn : n' ≤ n) : Room p n' := by
  obtain ⟨hmax, F, hF, hfree⟩ := h
  exact ⟨hmax, F, hn.trans hF, hfree⟩

/-- Pages that are given back make no less room. -/
theorem Room.of_sub {p p' : Pmm} {n : Nat} (h : Room p n) (hmax : p'.maxPage = p.maxPage)
    (hsub : ∀ r, 1 ≤ r → r < p.maxPage → p'.isSet r → p.isSet r) : Room p' n := by
  obtain ⟨hlow, F, hF, hfree⟩ := h
  refine ⟨hmax ▸ hlow, F, hF, fun r hr => ?_⟩
  obtain ⟨h1, h2, hc⟩ := hfree r hr
  exact ⟨h1, hmax ▸ h2, fun hs => hc (hsub r h1 h2 hs)⟩

/-- The pages from `a` on are room for as many frames. -/
theorem FreeFrom.room {p : Pmm} {a : Nat} (h : FreeFrom p a) (hmax : p.maxPage ≤ 0x1000) :
    Room p (p.maxPage - a) := by
  refine ⟨hmax, Finset.Ico a p.maxPage, (Nat.card_Ico ..).ge, fun r hr => ?_⟩
  obtain ⟨h1, h2⟩ := Finset.mem_Ico.mp hr
  have hpos := h.pos
  exact ⟨by omega, h2, fun hs => absurd ((h.set r (by omega) h2).mp hs) (by omega)⟩

/-- The first clear page is what `pmm_alloc_page` takes. -/
theorem FirstClear.alloc {p : Pmm} {i : Nat} (hi : FirstClear p i) (hlow : p.maxPage ≤ 2 ^ 20) :
    pmmAllocPage p = (i * 4096, takePage p i) := by
  have hlt := hi.2.1
  rcases pmmAllocPage_cases p with ⟨hall, -⟩ | ⟨j, hj, e⟩
  · exact absurd (hall i hi.1 hlt) hi.2.2.1
  · obtain rfl := hj.unique hi
    rw [e, Nat.mod_eq_of_lt (by omega)]

/-- **With room for a frame one is taken**, and the rest is still there. -/
theorem Room.alloc {p : Pmm} {n : Nat} (h : Room p (n + 1)) :
    ∃ i, FirstClear p i ∧ pmmAllocPage p = (i * 4096, takePage p i) ∧ Room (takePage p i) n := by
  obtain ⟨hlow, F, hF, hfree⟩ := h
  rcases pmmAllocPage_cases p with ⟨hall, -⟩ | ⟨i, hi, -⟩
  · obtain ⟨r, hr⟩ := Finset.card_pos.mp (show 0 < F.card by omega)
    obtain ⟨h1, h2, hc⟩ := hfree r hr
    exact absurd (hall r h1 h2) hc
  · refine ⟨i, hi, hi.alloc (by omega), hlow, F.erase i, ?_, fun r hr => ?_⟩
    · have := Finset.pred_card_le_card_erase (s := F) (a := i)
      omega
    · obtain ⟨hne, hr⟩ := Finset.mem_erase.mp hr
      obtain ⟨h1, h2, hc⟩ := hfree r hr
      exact ⟨h1, h2, fun hs => (((takePage_isSet p i r).mp hs).elim hne hc)⟩

/-- The frame is in the direct map. -/
theorem Room.low {s : Mm} {n : Nat} (h : Room s.pmm (n + 1)) : ¬ NoLowPage s := by
  obtain ⟨i, hi, e, -⟩ := h.alloc
  have hmax := h.1
  have h1 := hi.1
  have h2 := hi.2.1
  unfold NoLowPage
  rw [e]
  dsimp only
  omega

theorem Room.next {p : Pmm} {n : Nat} (h : Room p (n + 1)) : Room (pmmAllocPage p).2 n := by
  obtain ⟨i, -, e, hroom⟩ := h.alloc
  rw [e]
  exact hroom

/-! ## 2. Threads -/

/-- Memory's invariant holds, and every task but the first has a stack of its own. -/
structure Backed (p0 : Pmm) (s0 : Mm) (k : Kernel) (bs : List Blk) : Prop where
  mm : MmInv p0 s0 k.processes bs k.mm
  owned : StacksOwned k.tasks (allocs bs)

section

variable {p0 : Pmm} {s0 s s' : Mm} {bs bs' : List Blk} {k k' k₁ : Kernel} {z j : Fin 16}

/-- Only pages of the heap were written. -/
theorem MmInv.sameDirs_heap {ps : Fin 16 → UserProcess} (h : MmInv p0 s0 ps bs s) {m' : Mem}
    (hm : AgreeOn (fun x => ¬ InPages s.heapPages x) s.mem m') : SameDirs s m' :=
  (h.vm.words_same (h.vm.clients_write fun x hx => hm x (not_inPages hx)).1).1

/-- The stack of a zombie is freed. -/
theorem Backed.freeStack (h : Backed p0 s0 k bs) (hz : (k.tasks z).state = .zombie) (hz0 : z ≠ 0)
    (hmm : MmInv p0 s0 k.processes bs s) :
    ∃ m' bs', (k.tasks z).stack ≠ 0 ∧ kfree s (k.tasks z).stack = .ok { s with mem := m' } ∧
      Backed p0 s0 { k with toCtl := k.clearSlot z, mm := { s with mem := m' } } bs' ∧
      (∃ b ∈ bs', b.Serves 2048) ∧ AgreeOn (fun x => ¬ InPages s.heapPages x) s.mem m' := by
  have hu : (k.tasks z).state ≠ .unused := by rw [hz]; nofun
  have hstack := h.owned.mem hz0 hu
  have hne : (k.tasks z).stack ≠ 0 := fun h0 => by
    have := (hmm.heap.alloc_bounds hstack).1
    rw [h0] at this
    cases this
  obtain ⟨m', bs', e, hrel, hmm'⟩ := hmm.kfree hstack
  refine ⟨m', bs', hne, e, ⟨hmm', ?_⟩, hrel.room, hrel.heapOnly⟩
  refine (h.owned.release hz0 hu hmm.heap.allocs_nodup).perm ?_
  have := hrel.allocs.erase ((k.tasks z).stack, 2048)
  rw [List.erase_cons_head] at this
  exact this.symm

/-- `task_cleanup` of a zombie frees its stack, after what it does about the address space. -/
theorem Backed.cleanup (h : Backed p0 s0 k bs) (hz : (k.tasks z).state = .zombie) (hz0 : z ≠ 0)
    (hmm : MmInv p0 s0 k.processes bs s)
    (ed : (if (k.tasks z).addressSpace ≠ 0 ∧ (k.tasks z).addressSpace ≠ k.mm.kernelPageDirectory then
      vmmDestroyAddressSpace k.mm (k.tasks z).addressSpace else .ok k.mm) = .ok s) :
    ∃ m' bs', taskCleanup k z = .ok { k with toCtl := k.clearSlot z, mm := { s with mem := m' } } ∧
      Backed p0 s0 { k with toCtl := k.clearSlot z, mm := { s with mem := m' } } bs' ∧
      (∃ b ∈ bs', b.Serves 2048) ∧ AgreeOn (fun x => ¬ InPages s.heapPages x) s.mem m' := by
  obtain ⟨m', bs', hne, e, hb⟩ := h.freeStack hz hz0 hmm
  exact ⟨m', bs', bind_ok.mpr ⟨s, ed, bind_ok.mpr ⟨_, (if_pos hne).trans e, rfl⟩⟩, hb⟩

/-- With one zombie to reap, `reap_zombies` is its clean-up. -/
theorem reapZombies_one (hz : (k.tasks z).state = .zombie) (hz0 : z ≠ 0) (hcur : z ≠ k.currentTask)
    (honly : ∀ t, t ≠ 0 → t ≠ k.currentTask → (k.tasks t).state = .zombie → t = z)
    (e : taskCleanup k z = .ok k₁) : reapZombies k = .ok k₁ := by
  have hctl := taskCleanup_ctl e
  have htasks : k₁.tasks = Function.update k.tasks z Task.empty := by rw [hctl]
  have hcur₁ : k₁.currentTask = k.currentTask := by rw [hctl]
  -- the loop is at `k` until it meets `z`, and at `k₁` from then on
  obtain ⟨k', e', hk'⟩ := reapZombies_returns (k := k) (I := fun k' => k' = k ∨ k' = k₁)
    (fun k' i hk' hi hc hzi => by
      rcases hk' with rfl | rfl
      · cases honly i hi hc hzi
        exact ⟨_, e, .inr rfl⟩
      · rw [htasks] at hzi
        by_cases hiz : i = z
        · subst hiz
          rw [Function.update_self] at hzi
          cases hzi
        · rw [Function.update_of_ne hiz] at hzi
          exact absurd (honly i hi (hcur₁ ▸ hc) hzi) hiz) (.inl rfl)
  rcases hk' with rfl | rfl
  · -- no zombie is left but the current task
    have hreap := congrArg (fun k' : Kernel => (k'.tasks z).state) (reapZombies_ctl e')
    simp [Ctl.reap, hz, hz0, hcur, Task.empty] at hreap
  · exact e'

/-- `kthread_create` after the zombies are gone, with a stack from the heap. -/
theorem Backed.create (h : Backed p0 s0 k₁ bs) (er : reapZombies k = .ok k₁)
    (hj : k₁.freeSlot = some j) {p : Nat} (em : kmalloc k₁.mm 2048 = .ok (p, s'))
    (hs : Served k₁.mm bs 2048 p s' bs') (hmm : MmInv p0 s0 k₁.processes bs' s') (hp : p ≠ 0)
    (e : Entry) :
    ∃ m, kthreadCreate k (some e) = .ok (toInt32 k₁.nextTaskId,
        { k₁ with toCtl := k₁.addTask j ⟨k₁.nextTaskId, .runnable, k₁.mm.kernelPageDirectory, p,
                    some e, .start⟩
                  mm := { s' with mem := m } }) ∧
      Backed p0 s0 { k₁ with toCtl := k₁.addTask j ⟨k₁.nextTaskId, .runnable,
                               k₁.mm.kernelPageDirectory, p, some e, .start⟩
                             mm := { s' with mem := m } } bs' ∧
      AgreeOn (fun x => ¬ InPages s'.heapPages x) k₁.mm.mem m := by
  have hallocs := hs.allocs
  rw [if_neg hp] at hallocs
  have ha := hallocs.symm.subset List.mem_cons_self
  obtain ⟨hlo, hhi⟩ := hs.inv.alloc_bounds ha
  obtain ⟨m, em', hm⟩ := schedPrepareKthreadStack_ok s'.mem k₁.kthreadTrampoline hlo.le hhi
  have hmm' := hmm.allocWrite ha hm
  refine ⟨m, ?_, ⟨hmm', ?_⟩, ?_⟩
  · unfold kthreadCreate
    simp only [er, ok_bind, hj, em, if_neg hp, em', hs.vm.1]
    rfl
  · have hj0 : j ≠ 0 := (mem_slots j).mp (List.mem_of_find?_eq_some hj)
    refine (h.owned.take hj0 (Ctl.freeSlot_some hj)
      (show TaskState.runnable ≠ .unused by decide) ?_).perm hallocs
    exact (List.nodup_cons.mp (hallocs.nodup_iff.mp hmm.heap.allocs_nodup)).1
  · intro x hx
    rw [hm x fun hin => hx ?_, hs.heapOnly x hx]
    obtain ⟨b, hb, hr, hpay⟩ := mem_allocs.mp ha
    have hfit := hmm.heap.shape.fits b hb _ hr
    unfold Blk.payload Blk.ptr at hpay
    exact hmm.heap.shape.inside b hb x (by omega) (by omega)

/-- A stack from a free block of the heap. -/
theorem MmInv.kmalloc_room {ps : Fin 16 → UserProcess} (h : MmInv p0 s0 ps bs s)
    (hroom : ∃ b ∈ bs, b.Serves 2048) :
    ∃ p m' bs', Emyx.kmalloc s 2048 = .ok (p, { s with mem := m' }) ∧ p ≠ 0 ∧
      Served s bs 2048 p { s with mem := m' } bs' ∧ MmInv p0 s0 ps bs' { s with mem := m' } := by
  obtain ⟨p, m', e, hp⟩ := kmalloc_reuses (k := 2048) h.heap (by decide) (by decide) hroom
  obtain ⟨p', s', bs', e', hs, hmm⟩ := h.kmalloc 2048
  cases e.symm.trans e'
  exact ⟨p, m', bs', e, hp, hs, hmm⟩

/-- A stack from the heap, which may take a page for it. -/
theorem MmInv.kmalloc_free {ps : Fin 16 → UserProcess} (h : MmInv p0 s0 ps bs s) {n : Nat}
    (hroom : Room s.pmm (n + 1)) :
    ∃ p s' bs', Emyx.kmalloc s 2048 = .ok (p, s') ∧ p ≠ 0 ∧ Served s bs 2048 p s' bs' ∧
      MmInv p0 s0 ps bs' s' ∧ Room s'.pmm n := by
  obtain ⟨p, s', bs', e, hs, hmm⟩ := h.kmalloc 2048
  have hlow := hroom.low
  unfold NoLowPage at hlow
  have hp : p ≠ 0 := fun h0 => by
    rcases hs.refused h0 with hr | hr | hr
    · exact absurd (hr 2048 (by decide)) (by decide)
    · exact hlow (.inl hr)
    · exact hlow (.inr hr)
  refine ⟨p, s', bs', e, hp, hs, hmm, ?_⟩
  rcases hs.pages with ⟨hpm, -⟩ | ⟨r, hg⟩
  · exact hpm ▸ hroom.le (Nat.le_succ n)
  · generalize s'.pmm = p', s'.heapPages = pages' at hg
    cases hg with
    | none h0 => exact absurd (.inl h0) hlow
    | high hge => exact absurd (.inr hge) hlow
    | page _ _ => exact hroom.next

/-- The slot `z` is the only one that may hold a zombie to reap, and then a thread's. -/
structure Kernel.OneZombie (k : Kernel) (z : Fin 16) : Prop where
  slot : z ≠ 0 ∧ z ≠ k.currentTask
  only : ∀ t, t ≠ 0 → t ≠ k.currentTask → (k.tasks t).state = .zombie →
    t = z ∧ (k.tasks z).addressSpace = k.mm.kernelPageDirectory

theorem Ctl.reap_none {c : Ctl} (h : ∀ t, t ≠ 0 → t ≠ c.currentTask → (c.tasks t).state ≠ .zombie) :
    c.reap = c := by
  unfold Ctl.reap
  congr 1
  funext t
  exact if_neg fun hc => h t hc.1 hc.2.1 hc.2.2

theorem Ctl.reap_one {c : Ctl} (hz : (c.tasks z).state = .zombie) (hz0 : z ≠ 0)
    (hcur : z ≠ c.currentTask)
    (honly : ∀ t, t ≠ 0 → t ≠ c.currentTask → (c.tasks t).state = .zombie → t = z) :
    c.reap = c.clearSlot z := by
  unfold Ctl.reap Ctl.clearSlot
  congr 1
  funext t
  by_cases ht : t = z
  · rw [ht, Function.update_self, if_pos ⟨hz0, hcur, hz⟩]
  · rw [Function.update_of_ne ht, if_neg fun hc => ht (honly t hc.1 hc.2.1 hc.2.2)]

/-- **The reaper**, with one zombie at most. -/
theorem Backed.reap (h : Backed p0 s0 k bs) (hz : k.OneZombie z) :
    ∃ m' bs', reapZombies k = .ok { k with toCtl := k.reap, mm := { k.mm with mem := m' } } ∧
      Backed p0 s0 { k with toCtl := k.reap, mm := { k.mm with mem := m' } } bs' ∧
      SameDirs k.mm m' ∧ ((k.tasks z).state = .zombie → ∃ b ∈ bs', b.Serves 2048) := by
  obtain ⟨hz0, hcur⟩ := hz.slot
  by_cases hzz : (k.tasks z).state = .zombie
  · have hkd := (hz.only z hz0 hcur hzz).2
    have honly : ∀ t, t ≠ 0 → t ≠ k.currentTask → (k.tasks t).state = .zombie → t = z :=
      fun t h0 hc ht => (hz.only t h0 hc ht).1
    obtain ⟨m', bs', e, hb, hroom, hheap⟩ := h.cleanup hzz hz0 h.mm (if_neg fun hc => hc.2 hkd)
    rw [Ctl.reap_one hzz hz0 hcur honly]
    exact ⟨m', bs', reapZombies_one hzz hz0 hcur honly e, hb, h.mm.sameDirs_heap hheap,
      fun _ => hroom⟩
  · have hnone : ∀ t, t ≠ 0 → t ≠ k.currentTask → (k.tasks t).state ≠ .zombie :=
      fun t h0 hc ht => hzz ((hz.only t h0 hc ht).1 ▸ ht)
    rw [Ctl.reap_none hnone]
    exact ⟨k.mm.mem, bs, reapZombies_none hnone, h, fun _ _ _ _ => rfl, fun hc => absurd hc hzz⟩

/-- **A thread or a process's task is created**, on a stack that was given back or on a new one. -/
theorem Backed.kthread (h : Backed p0 s0 k bs) (hz : k.OneZombie z) (hj : k.reap.freeSlot = some j)
    {n : Nat} (hroom : Room k.mm.pmm (n + 1) ∨ (k.tasks z).state = .zombie ∧ Room k.mm.pmm n)
    (e : Entry) :
    ∃ p mm bs', kthreadCreate k (some e) = .ok (toInt32 k.nextTaskId, { k with
        toCtl := k.reap.addTask j ⟨k.nextTaskId, .runnable, k.mm.kernelPageDirectory, p, some e, .start⟩
        mm := mm }) ∧
      Backed p0 s0 { k with
        toCtl := k.reap.addTask j ⟨k.nextTaskId, .runnable, k.mm.kernelPageDirectory, p, some e, .start⟩
        mm := mm } bs' ∧
      Room mm.pmm n ∧ mm.spaces = k.mm.spaces ∧ SameDirs k.mm mm.mem := by
  obtain ⟨m', bs₁, er, h₁, hdirs, hblock⟩ := h.reap hz
  have hserve : ∃ p s' bs', kmalloc { k.mm with mem := m' } 2048 = .ok (p, s') ∧ p ≠ 0 ∧
      Served { k.mm with mem := m' } bs₁ 2048 p s' bs' ∧ MmInv p0 s0 k.processes bs' s' ∧
      Room s'.pmm n := by
    rcases hroom with hroom | ⟨hzz, hroom⟩
    · exact h₁.mm.kmalloc_free hroom
    · obtain ⟨p, m₂, bs', e, hp, hs, hmm⟩ := h₁.mm.kmalloc_room (hblock hzz)
      exact ⟨p, _, bs', e, hp, hs, hmm, hroom⟩
  obtain ⟨p, s', bs', em, hp, hs, hmm, hroom'⟩ := hserve
  obtain ⟨m, ec, hb, hheap⟩ := h₁.create er hj em hs hmm hp e
  refine ⟨p, _, bs', ec, hb, hroom', hs.vm.2.1, fun d i hd hi => ?_⟩
  have hd' : IsDir { s' with mem := m } d := by
    show d = s'.kernelPageDirectory ∨ d ∈ s'.spaces
    rw [hs.vm.1, hs.vm.2.1]
    exact hd
  exact (hb.mm.sameDirs_heap (fun x hx => (hheap x hx).symm) d i hd' hi).symm.trans (hdirs d i hd hi)

end

/-! ## 3. Switches -/

section

variable {p0 : Pmm} {s0 : Mm} {bs : List Blk} {c c' : Ctl} {k k' k₁ : Kernel} {idx : Fin 16}

/-- The tasks of `c'` are on the stacks of those of `c`. -/
def Ctl.SameStacks (c c' : Ctl) : Prop :=
  ∀ t, (c'.tasks t).stack = (c.tasks t).stack ∧
    ((c'.tasks t).state = .unused ↔ (c.tasks t).state = .unused)

theorem Backed.of_tasks (h : Backed p0 s0 k bs) (hps : k'.processes = k.processes)
    (hmm : k'.mm = k.mm) (hs : k.toCtl.SameStacks k'.toCtl) : Backed p0 s0 k' bs := by
  refine ⟨by rw [hps, hmm]; exact h.mm, h.owned.congr fun t => ?_⟩
  unfold stackOf
  rw [(hs t).1]
  exact if_congr (and_congr_right fun _ => not_congr (hs t).2) rfl rfl

theorem Ctl.sameStacks_switchTo (hidx : (c.tasks idx).state = .runnable) :
    c.SameStacks (c.switchTo idx) := fun t => by
  obtain ⟨st, he, hrun, hother⟩ := c.switchTo_tasks idx t
  rw [he]
  refine ⟨rfl, ?_⟩
  by_cases ht : t = idx
  · simp [hrun ht, ht, hidx]
  · obtain ⟨rfl, -⟩ | ⟨-, hs, rfl⟩ := hother ht
    · exact Iff.rfl
    · simp [hs]

/-- The current task changes in its state or in where it goes on. -/
theorem Ctl.sameStacks_current {t : Task}
    (ht : c'.tasks = Function.update c.tasks c.currentTask t)
    (hs : t.stack = (c.tasks c.currentTask).stack)
    (hu : t.state = .unused ↔ (c.tasks c.currentTask).state = .unused) : c.SameStacks c' := fun u => by
  rw [ht]
  by_cases hc : u = c.currentTask
  · subst hc
    rw [Function.update_self]
    exact ⟨hs, hu⟩
  · rw [Function.update_of_ne hc]
    exact ⟨rfl, Iff.rfl⟩

/-- `sched_yield` switches to the next runnable task, once the zombies are gone. -/
theorem schedYield_switch (er : reapZombies k = .ok k₁) (hn : k₁.nextRunnable = some idx) :
    ∃ esp0, schedYield k = .ok (true, { k₁ with
      toCtl := k₁.switchTo idx
      esp0 := esp0
      cr3 := ((k₁.switchTo idx).tasks idx).addressSpace }) := by
  unfold schedYield
  simp only [er, ok_bind, hn]
  exact ⟨_, rfl⟩

theorem kthreadExit_switch (h0 : k.currentTask ≠ 0)
    (er : reapZombies { k with toCtl := k.zombify } = .ok k₁) (hn : k₁.nextRunnable = some idx) :
    ∃ esp0, kthreadExit k = .ok { k₁ with
      toCtl := k₁.switchTo idx
      esp0 := esp0
      cr3 := ((k₁.switchTo idx).tasks idx).addressSpace } := by
  obtain ⟨esp0, e⟩ := schedYield_switch er hn
  refine ⟨esp0, ?_⟩
  unfold kthreadExit
  rw [if_neg h0, e]
  rfl

/-- **A yield** to the next runnable task. -/
theorem Backed.yield (h : Backed p0 s0 k bs) {z : Fin 16} (hz : k.OneZombie z)
    (hn : k.reap.nextRunnable = some idx) :
    ∃ m' esp0 bs', schedYield k = .ok (true, { k with
        toCtl := k.reap.switchTo idx
        mm := { k.mm with mem := m' }
        esp0 := esp0
        cr3 := ((k.reap.switchTo idx).tasks idx).addressSpace }) ∧
      Backed p0 s0 { k with
        toCtl := k.reap.switchTo idx
        mm := { k.mm with mem := m' }
        esp0 := esp0
        cr3 := ((k.reap.switchTo idx).tasks idx).addressSpace } bs' ∧
      ((k.tasks z).state ≠ .zombie → m' = k.mm.mem) := by
  obtain ⟨m', bs', er, h', -⟩ := h.reap hz
  obtain ⟨esp0, e⟩ := schedYield_switch er hn
  refine ⟨m', esp0, bs', e, h'.of_tasks rfl rfl
    (Ctl.sameStacks_switchTo (Ctl.nextRunnable_some hn)), fun hno => ?_⟩
  have hnone : ∀ t, t ≠ 0 → t ≠ k.currentTask → (k.tasks t).state ≠ .zombie :=
    fun t h0 hc ht => hno ((hz.only t h0 hc ht).1 ▸ ht)
  exact congrArg (fun k : Kernel => k.mm.mem) (Except.ok.inj (er.symm.trans (reapZombies_none hnone)))

/-- **A task ends** when there is no other zombie. -/
theorem Backed.kexit (h : Backed p0 s0 k bs) (h0 : k.currentTask ≠ 0)
    (hu : (k.tasks k.currentTask).state ≠ .unused)
    (hnone : ∀ t, t ≠ 0 → t ≠ k.currentTask → (k.tasks t).state ≠ .zombie)
    (hn : k.zombify.nextRunnable = some idx) :
    ∃ esp0, kthreadExit k = .ok { k with
        toCtl := k.zombify.switchTo idx
        esp0 := esp0
        cr3 := ((k.zombify.switchTo idx).tasks idx).addressSpace } ∧
      Backed p0 s0 { k with
        toCtl := k.zombify.switchTo idx
        esp0 := esp0
        cr3 := ((k.zombify.switchTo idx).tasks idx).addressSpace } bs := by
  have her : reapZombies { k with toCtl := k.zombify } = .ok { k with toCtl := k.zombify } :=
    reapZombies_none fun t ht hc => by
      rw [show ({ k with toCtl := k.zombify } : Kernel).tasks t = k.tasks t from
        Function.update_of_ne hc ..]
      exact hnone t ht hc
  obtain ⟨esp0, e⟩ := kthreadExit_switch h0 her hn
  have hz : Backed p0 s0 { k with toCtl := k.zombify } bs := h.of_tasks rfl rfl
    (Ctl.sameStacks_current rfl rfl (iff_of_false nofun hu))
  exact ⟨esp0, e, hz.of_tasks rfl rfl (Ctl.sameStacks_switchTo (Ctl.nextRunnable_some hn))⟩

end

/-! ## 4. Processes -/

section

variable {p0 : Pmm} {s0 s s' : Mm} {bs bs' : List Blk} {k k' k₁ k₂ : Kernel} {i : Fin 16}
  {ps ps' : Fin 16 → UserProcess}

/-- `user_spawn`, when each of its calls succeeds. -/
theorem userSpawn_of {name : List Byte} {file : Nat × Nat} {f : Nat} {mm₁ : Mm} {id : Int}
    (h0 : name.length ≠ 0) (h32 : name.length < 32)
    (hfile : initramfsFind k.mm.mem k.bootModule name = .ok (some file))
    (hi : userProcessAlloc k.processes = some i)
    (hc : vmmCreateAddressSpace k.mm = .ok (f, mm₁)) (hf : f ≠ 0)
    (ht : kthreadCreate { k with
        mm := mm₁
        processes := Function.update k.processes i
          { UserProcess.fresh with pid := k.nextPid, parentPid := k.callerPid, path := name
                                   addressSpace := f }
        nextPid := (k.nextPid + 1) % 2 ^ 32 } (some .userExecTask) = .ok (id, k₂)) (hid : 0 ≤ id) :
    userSpawn k (some name) = .ok (toInt32 k.nextPid, { k₂ with
      processes := Function.update k₂.processes i { k₂.processes i with taskId := id.toNat }
      keyboard := keyboardBufferClear k₂.keyboard }) := by
  unfold userSpawn spawnInto
  simp only [hfile, ok_bind, hi, hc, if_neg hf, Function.update_self, Function.update_idem,
    if_neg (show ¬ (name.length = 0 ∨ name.length ≥ 32) by omega)]
  have hpid : (k₂.processes i).pid = k.nextPid := by
    obtain ⟨-, hk⟩ | ⟨_, _, -, -, -, -, -, -, hk⟩ := kthreadCreate_ctl ht <;> rw [hk] <;>
      exact congrArg UserProcess.pid (Function.update_self (f := k.processes) ..)
  unfold Ctl.callerPid Ctl.caller at ht
  simp only [ht, ok_bind, if_neg (show ¬ id < 0 by omega), hpid]
  rfl

/-- A file is found, a record is free, and there is no page for the directory. -/
theorem userSpawn_noDirectory {name : List Byte} {file : Nat × Nat} {mm : Mm}
    (h0 : name.length ≠ 0) (h32 : name.length < 32)
    (hfile : initramfsFind k.mm.mem k.bootModule name = .ok (some file))
    (hi : userProcessAlloc k.processes = some i) (hc : vmmCreateAddressSpace k.mm = .ok (0, mm)) :
    ∃ k', userSpawn k (some name) = .ok (-1, k') ∧ k'.mm = mm := by
  unfold userSpawn spawnInto
  simp only [hfile, ok_bind, hi, hc, if_neg (show ¬ (name.length = 0 ∨ name.length ≥ 32) by omega)]
  exact ⟨_, rfl, rfl⟩

/-- Frames in use are still in use, if no directory, page of the heap or page of a record is new. -/
theorem MmInv.allocated_sub (h : MmInv p0 s0 ps bs s) (h' : MmInv p0 s0 ps' bs' s')
    (hsp : ∀ d ∈ s'.spaces, d ∈ s.spaces) (hheap : s'.heapPages = s.heapPages)
    (hfr : ∀ n f, f ∈ (ps' n).frames → f ∈ (ps n).frames) (hdirs : SameDirs s s'.mem) {f : Nat}
    (ha : Allocated p0 s'.pmm f) : Allocated p0 s.pmm f := by
  have hkd : s'.kernelPageDirectory = s.kernelPageDirectory := h'.kernel.trans h.kernel.symm
  have hdir : ∀ d, IsDir s' d → IsDir s d := fun d => Or.imp (fun e => e.trans hkd) (hsp d)
  obtain ⟨r, hr⟩ := (h'.vm.own.taken f).mp ha
  cases r with
  | dir d =>
    obtain ⟨hd, rfl⟩ := frameOf_dir_some.mp hr
    exact h.vm.own.mem (frameOf_dir (hdir _ hd))
  | table d j =>
    obtain ⟨⟨hd, hj⟩, ht⟩ := Option.ite_none_right_eq_some.mp hr
    have hown : ownEntries s' d = ownEntries s d := by
      unfold ownEntries
      rw [hkd]
    rw [hown] at hj
    have hj' := Nat.lt_of_lt_of_le hj (ownEntries_le s d).2
    refine h.vm.own.mem ((frameOf_table (hdir d hd) hj).trans ?_)
    exact (tableOf_congr (hdirs d j (hdir d hd) hj')).symm.trans ht
  | client c =>
    rcases heldBy_some hr with ⟨rfl, hin⟩ | ⟨n, rfl, hin⟩
    · exact h.vm.own.mem (frameOf_heap (hheap ▸ hin))
    · exact h.vm.own.mem (frameOf_page (hfr n f hin))

/-- Then there is no less room. -/
theorem MmInv.room (h : MmInv p0 s0 ps bs s) (h' : MmInv p0 s0 ps' bs' s')
    (hsub : ∀ f, Allocated p0 s'.pmm f → Allocated p0 s.pmm f) {n : Nat} (hroom : Room s.pmm n) :
    Room s'.pmm n := by
  have hmax : s'.pmm.maxPage = s.pmm.maxPage := h'.vm.pmm.maxPage.trans h.vm.pmm.maxPage.symm
  refine hroom.of_sub hmax fun r h1 h2 hset => ?_
  by_cases h0 : p0.isSet r
  · exact h.vm.pmm.kept r h0
  · have hr : r < p0.maxPage := by rwa [h.vm.pmm.maxPage] at h2
    have hlow := h.vm.low
    obtain ⟨q, hq, -, -, -, hs, -⟩ := hsub (r * 4096) ⟨r, rfl, h1, hr, by omega, hset, h0⟩
    rwa [show r = q by omega]

/-- The frame of a directory that was destroyed is free. -/
theorem MmInv.freed (h : MmInv p0 s0 ps bs s) {d : Nat} (hd : d ∈ s.spaces) :
    ¬ Allocated p0 ((ownFrames s d).foldl pmmFreePage s.pmm) d := fun hc => by
  obtain ⟨-, hall⟩ := pmmFreePage_list h.vm.pmm (fun f hf => h.vm.ownFrames_role (.inr hd) hf)
    (h.vm.ownFrames_nodup (.inr hd))
  exact ((hall d).mp hc).2 (mem_ownFrames.mpr (.inr rfl))

end

section

variable {p0 : Pmm} {s0 s s' : Mm} {bs bs' : List Blk} {k k' k₁ k₂ : Kernel} {i z j : Fin 16} {n : Nat}

/-- The record of a process that was spawned. -/
def UserProcess.spawned (pid taskId parentPid addressSpace : Nat) (path : List Byte) : UserProcess :=
  ⟨pid, taskId, parentPid, addressSpace, 0, 0, 0, 0, .created, path, []⟩

/-- The tables after a process was spawned to the slot `j` and the record `i`, with the stack `p`
    and the directory `f`. -/
def Ctl.spawn (c : Ctl) (j i : Fin 16) (kd p f : Nat) (path : List Byte) : Ctl :=
  { c.reap.addTask j ⟨c.nextTaskId, .runnable, kd, p, some .userExecTask, .start⟩ with
    processes := Function.update c.processes i (.spawned c.nextPid c.nextTaskId c.callerPid f path)
    nextPid := (c.nextPid + 1) % 2 ^ 32 }

/-- **A process is spawned**: a record, an empty directory, and a task that is to run it. -/
theorem Backed.spawn (h : Backed p0 s0 k bs) (hz : k.OneZombie z) (hj : k.reap.freeSlot = some j)
    {name : List Byte} {file : Nat × Nat} (h0 : name.length ≠ 0) (h32 : name.length < 32)
    (hfile : initramfsFind k.mm.mem k.bootModule name = .ok (some file))
    (hi : userProcessAlloc k.processes = some i) (hpages : (k.processes i).pages = [])
    (hroom : Room k.mm.pmm (n + 2)) (hid : k.nextTaskId < 2 ^ 31) :
    ∃ k' p bs', userSpawn k (some name) = .ok (toInt32 k.nextPid, k') ∧
      k'.toCtl = k.toCtl.spawn j i k.mm.kernelPageDirectory p (pmmAllocPage k.mm.pmm).1 name ∧
      k'.bootModule = k.bootModule ∧ k'.cr3 = k.cr3 ∧ Backed p0 s0 k' bs' ∧ Room k'.mm.pmm n ∧
      k'.mm.spaces = (pmmAllocPage k.mm.pmm).1 :: k.mm.spaces ∧
      (pmmAllocPage k.mm.pmm).1 ∉ k.mm.spaces ∧
      ∀ x, x < 768 → dirWord k'.mm.mem (pmmAllocPage k.mm.pmm).1 x = 0 := by
  rcases h.mm.create with ⟨-, -, hno⟩ | ⟨f, p', m', ep, ec, hf0, -, hmm, hnew, -⟩
  · exact absurd hno hroom.low
  rw [ep]
  have hroom' : Room p' (n + 1) := by
    have := hroom.next
    rwa [ep] at this
  have hid' : (0 : Int) ≤ toInt32 k.nextTaskId := toInt32_nonneg hid
  -- the directory is there; the task is created
  have hb₁ : Backed p0 s0 { k with
      mm := { k.mm with pmm := p', mem := m', spaces := f :: k.mm.spaces }
      processes := Function.update k.processes i
        { UserProcess.fresh with pid := k.nextPid, parentPid := k.callerPid, path := name
                                 addressSpace := f }
      nextPid := (k.nextPid + 1) % 2 ^ 32 } bs :=
    ⟨hmm.setRecord hpages.symm fun hne => absurd rfl hne, h.owned⟩
  obtain ⟨p, mm, bs', et, hb₂, hr₂, hsp, hdirs⟩ :=
    hb₁.kthread ⟨hz.slot, hz.only⟩ hj (.inl hroom') .userExecTask
  refine ⟨_, p, bs', userSpawn_of h0 h32 hfile hi ec hf0 et hid', ?_, rfl, rfl, ?_, hr₂, hsp,
    (List.nodup_cons.mp hmm.spaces_nodup).1, fun x hx => ?_⟩
  · dsimp only [Ctl.addTask, Ctl.reap]
    rw [toInt32_toNat (by omega) hid', Function.update_self, Function.update_idem]
    rfl
  · refine ⟨?_, hb₂.owned⟩
    exact hb₂.mm.setRecord rfl fun hne => rfl
  · exact (hdirs f x (.inr List.mem_cons_self) (by omega)).trans ((hnew x (by omega)).trans (if_pos hx))

end

/-! ## 5. Programs -/

section

variable {p0 : Pmm} {s0 : Mm} {bs : List Blk} {k k' k₁ k₂ : Kernel} {i : Fin 16}
  {v size flags image codeSize entryOffset f g n : Nat} {src : Option Nat} {path : List Byte}

/-- A page that no record has in this address space can be mapped there. -/
theorem MmInv.canCopy (h : MmInv p0 s0 k.processes bs k.mm) (v size : Nat)
    (hsp : (k.processes i).addressSpace ∈ k.mm.spaces) (hv : v < 0xC0000000)
    (hlen : (k.processes i).pages.length < 16) (hsize : size ≤ 4096)
    (hroom : Room k.mm.pmm (n + 2))
    (hnot : ∀ f, ¬ RecordMaps k.processes (k.processes i).addressSpace (v / 4096) f) :
    ¬ CannotCopy k i v size := by
  rintro (hfull | hbig | hno | hmapped | ⟨-, hno⟩)
  · omega
  · omega
  · exact hroom.low hno
  · have hown : pdeIndex v < ownEntries k.mm (k.processes i).addressSpace := by
      refine Nat.lt_of_lt_of_le (m := 768) ?_ (ownEntries_le _ _).1
      rw [pdeIndex_eq]
      omega
    have hmap := mapOf_page (v := v) (.inr hsp) (by omega) hown
    exact hnot _ ((h.maps _ hsp _ _).mp (hmap.trans (if_pos hmapped)))
  · exact Room.low (s := { k.mm with pmm := (pmmAllocPage k.mm.pmm).2 }) hroom.next hno

/-- A page costs its frame, and one for its table at most. -/
theorem CopiedTo.room (hc : CopiedTo p0 k k' i v src size flags f) (hroom : Room k.mm.pmm (n + 2)) :
    Room k'.mm.pmm n := by
  obtain ⟨p', m', t, -, -, -, ep, et⟩ := hc.mapped
  have hp' : Room p' (n + 1) := by
    have := hroom.next
    rwa [ep] at this
  unfold tableFrom at et
  split at et
  · have := hp'.next
    rwa [show (pmmAllocPage p').2 = k'.mm.pmm from congrArg Prod.snd et] at this
  · rw [← show p' = k'.mm.pmm from congrArg Prod.snd et]
    exact hp'.le (Nat.le_succ n)

/-- **A program is loaded**, if its image is in order and its address space empty. -/
theorem MmInv.prepareExec_ok (h : MmInv p0 s0 k.processes bs k.mm)
    (hsp : (k.processes i).addressSpace ∈ k.mm.spaces)
    (hempty : ∀ m, (k.processes m).addressSpace = (k.processes i).addressSpace →
      (k.processes m).pages = [])
    (hfind : initramfsFind k.mm.mem k.bootModule path = .ok (some (image, size)))
    (hhdr : emxfHeader k.mm.mem image size = .ok (some (codeSize, entryOffset)))
    (hsrc : SourceOk (some ((image + 12) % 2 ^ 32)) codeSize) (hroom : Room k.mm.pmm (n + 4)) :
    ∃ k₁ k₂ f g, userPrepareExec k i path = .ok (0, { k₂ with
        processes := Function.update k₂.processes i
          { k₂.processes i with stack := 0x007ff000, stackSize := 4096 } }) ∧
      CodeLoaded p0 k k₁ i image size codeSize entryOffset f ∧
      MmInv p0 s0 k₁.processes bs k₁.mm ∧ CopiedTo p0 k₁ k₂ i 0x007ff000 none 0 2 g ∧
      MmInv p0 s0 k₂.processes bs k₂.mm ∧ Room k₂.mm.pmm n := by
  obtain ⟨hcs, -, -⟩ := emxfHeader_some hhdr
  have hpages := hempty i rfl
  have hcan := h.canCopy 0x00400000 codeSize hsp (by decide)
    (by rw [hpages]; decide) hcs hroom (by
      rintro f ⟨m, hm, x, hx, -⟩
      rw [hempty m hm] at hx
      cases hx)
  obtain ⟨k₀, f, e₀, h₀, hc₀⟩ := h.mapCopied_ok 0 hsp (by decide) (by decide) hcan hsrc
  have hroom₀ := hc₀.room hroom
  obtain ⟨k₁, hk₁⟩ : ∃ k₁ : Kernel, k₁ = { k₀ with
      processes := Function.update k₀.processes i
        { k₀.processes i with entry := (0x00400000 + entryOffset) % 2 ^ 32 } } := ⟨_, rfl⟩
  have hcode : CodeLoaded p0 k k₁ i image size codeSize entryOffset f := ⟨hhdr, k₀, hc₀, hk₁⟩
  have h₁ : MmInv p0 s0 k₁.processes bs k₁.mm := by
    rw [hk₁]
    exact h₀.setRecord rfl fun _ => rfl
  have hroom₁ : Room k₁.mm.pmm (n + 2) := by
    rw [hk₁]
    exact hroom₀
  have eload : loadEmxf k i image size = .ok (0, k₁) := by
    rw [hk₁]
    exact bind_ok.mpr ⟨_, hhdr, bind_ok.mpr ⟨_, e₀, if_neg (not_not.mpr rfl)⟩⟩
  obtain ⟨hspace, hpages₁, -, hother⟩ := hcode.record
  rw [hpages, List.nil_append] at hpages₁
  have hsp₁ : (k₁.processes i).addressSpace ∈ k₁.mm.spaces := by
    rw [hspace, hcode.spaces]
    exact hsp
  -- the code page is the only one, and not at the stack's address
  have hcan₁ := h₁.canCopy 0x007ff000 0 hsp₁ (by decide)
    (by rw [hpages₁]; exact (show 1 < 16 by decide)) (by decide) hroom₁ (by
      rintro g ⟨m, hm, x, hx, hn, -⟩
      by_cases hmi : m = i
      · rw [hmi, hpages₁, List.mem_singleton] at hx
        rw [hx] at hn
        dsimp only at hn
        omega
      · rw [hother m hmi, hspace] at hm
        rw [hother m hmi, hempty m hm] at hx
        cases hx)
  have hnone : SourceOk none 0 := fun a ha => by cases ha
  obtain ⟨k₂, g, e₂, h₂, hc₂⟩ := h₁.mapCopied_ok 2 hsp₁ (by decide) (by decide) hcan₁ hnone
  refine ⟨k₁, k₂, f, g, ?_, hcode, h₁, hc₂, h₂, hc₂.room hroom₁⟩
  unfold userPrepareExec prepareExecSteps
  simp only [hfind, ok_bind, eload, ne_eq, not_true_eq_false, if_false, e₂]
  rfl

end

section

variable {p0 : Pmm} {s0 : Mm} {bs : List Blk} {k k' k₁ k₂ : Kernel} {i : Fin 16}
  {image size codeSize entryOffset f g n : Nat}

/-- A record with the two pages of its program. -/
def UserProcess.loaded (p : UserProcess) (entryOffset f g : Nat) : UserProcess :=
  { p with
    entry := (0x00400000 + entryOffset) % 2 ^ 32
    stack := 0x007ff000
    stackSize := 4096
    pages := [⟨0x00400000, f⟩, ⟨0x007ff000, g⟩] }

/-- Loading changed memory, and gave the record its pages. -/
theorem CodeLoaded.kernel (hc : CodeLoaded p0 k k₁ i image size codeSize entryOffset f)
    (hs : CopiedTo p0 k₁ k₂ i 0x007ff000 none 0 2 g) (hpages : (k.processes i).pages = []) :
    { k₂ with
      processes := Function.update k₂.processes i
        { k₂.processes i with stack := 0x007ff000, stackSize := 4096 } } =
    { k with
      mm := { k.mm with pmm := k₂.mm.pmm, mem := k₂.mm.mem }
      processes := Function.update k.processes i ((k.processes i).loaded entryOffset f g) } := by
  obtain ⟨k₀, hc₀, hk₁⟩ := hc.copied
  have hk₀ := hc₀.kernel
  have hk₂ := hs.kernel
  rw [hpages, List.nil_append] at hk₀
  generalize k₂.mm.pmm = p₂, k₂.mm.mem = m₂ at hk₂
  generalize k₀.mm.pmm = p₁, k₀.mm.mem = m₁ at hk₀
  subst hk₂ hk₁ hk₀
  simp only [withPages, Function.update_self, Function.update_idem]
  rfl

end

section

variable {p0 : Pmm} {s0 : Mm} {bs : List Blk} {k k' k₁ k₂ : Kernel} {i : Fin 16}
  {image size codeSize entryOffset f g n : Nat}

/-- The frame of the code is the first that was free, and holds the code. -/
theorem CodeLoaded.code (hc : CodeLoaded p0 k k₁ i image size codeSize entryOffset f)
    (h₁ : MmInv p0 s0 k₁.processes bs k₁.mm) (hs : CopiedTo p0 k₁ k₂ i 0x007ff000 none 0 2 g)
    (hout : ∀ x, x < codeSize → Outside p0 ((image + 12) % 2 ^ 32 - 0xC0000000 + x)) :
    f = (pmmAllocPage k.mm.pmm).1 ∧ ∀ x, x < codeSize →
      k₂.mm.mem (f + x) = k.mm.mem ((image + 12) % 2 ^ 32 - 0xC0000000 + x) := by
  obtain ⟨hcs, -, -⟩ := emxfHeader_some hc.header
  obtain ⟨-, hpages, -, -⟩ := hc.record
  have hmem : f ∈ (k₁.processes i).frames := by
    unfold UserProcess.frames
    rw [hpages]
    simp
  have hkeep : SamePage k₁.mm.mem k₂.mm.mem f := hs.keeps h₁ (c := .page i f) (if_pos hmem)
  obtain ⟨k₀, hc₀, rfl⟩ := hc.copied
  obtain ⟨p', -, -, -, -, -, ep, -⟩ := hc₀.mapped
  refine ⟨by rw [ep], fun x hx => ?_⟩
  refine (hkeep _ (by omega)).trans ((hc₀.bytes (fun a ha y hy => ?_) (by omega)).trans (if_pos hx))
  cases ha
  exact hout y hy

/-- `user_exec_task`, when the program was loaded. -/
theorem userExecTask_of (hcall : k.caller = some i)
    (e : userPrepareExec k i (k.processes i).path = .ok (0, k₁)) (h0 : k₁.currentTask ≠ 0)
    (ha : (k₁.processes i).addressSpace ≠ 0) :
    userExecTask k = .ok (true, { k₁ with
      toCtl := k₁.toCtl.enter i (k₁.processes i)
      cr3 := (k₁.processes i).addressSpace }) := by
  unfold Ctl.caller at hcall
  unfold userExecTask
  rw [hcall]
  simp only [e, ok_bind, ne_eq, not_true_eq_false, if_false, schedSetCurrentAddressSpace_ok h0 ha,
    pure_bind, Ctl.setCont, Ctl.enter, Function.update_self, Function.update_idem]
  rfl

/-- **A process starts**: its program is loaded and its task enters it. -/
theorem MmInv.execTask_ok (h : MmInv p0 s0 k.processes bs k.mm) (h0 : k.currentTask ≠ 0)
    (hcall : k.caller = some i) (hsp : (k.processes i).addressSpace ∈ k.mm.spaces)
    (hempty : ∀ m, (k.processes m).addressSpace = (k.processes i).addressSpace →
      (k.processes m).pages = [])
    (hfind : initramfsFind k.mm.mem k.bootModule (k.processes i).path = .ok (some (image, size)))
    (hhdr : emxfHeader k.mm.mem image size = .ok (some (codeSize, entryOffset)))
    (hsrc : SourceOk (some ((image + 12) % 2 ^ 32)) codeSize)
    (hout : ∀ x, x < codeSize → Outside p0 ((image + 12) % 2 ^ 32 - 0xC0000000 + x))
    (hroom : Room k.mm.pmm (n + 4)) :
    ∃ k' g, userExecTask k = .ok (true, k') ∧ k'.toCtl =
        k.toCtl.enter i ((k.processes i).loaded entryOffset (pmmAllocPage k.mm.pmm).1 g) ∧
      k'.bootModule = k.bootModule ∧ k'.cr3 = (k.processes i).addressSpace ∧
      MmInv p0 s0 k'.processes bs k'.mm ∧ Room k'.mm.pmm n ∧
      k'.mm.spaces = k.mm.spaces ∧ ∀ x, x < codeSize → k'.mm.mem ((pmmAllocPage k.mm.pmm).1 + x) =
        k.mm.mem ((image + 12) % 2 ^ 32 - 0xC0000000 + x) := by
  obtain ⟨k₁, k₂, f, g, e, hcode, h₁, hs, h₂, hr₂⟩ :=
    h.prepareExec_ok hsp hempty hfind hhdr hsrc hroom
  obtain ⟨rfl, hbytes⟩ := hcode.code h₁ hs hout
  have hmm := h₂.setRecord (i := i) (p := { k₂.processes i with stack := 0x007ff000
                                                                stackSize := 4096 }) rfl fun _ => rfl
  have hk := hcode.kernel hs (hempty i rfl)
  have hps := congrArg (fun k : Kernel => k.processes) hk
  dsimp only at hps
  have hmm₂ : k₂.mm = { k.mm with pmm := k₂.mm.pmm, mem := k₂.mm.mem } :=
    congrArg (fun k : Kernel => k.mm) hk
  rw [hk] at e
  rw [hps, hmm₂] at hmm
  have hmm' := hmm.setRecord (i := i)
    (p := { (k.processes i).loaded entryOffset (pmmAllocPage k.mm.pmm).1 g with state := .running })
    (by rw [Function.update_self]) fun _ => by rw [Function.update_self]
  rw [Function.update_idem] at hmm'
  refine ⟨{ k with
    toCtl := k.toCtl.enter i ((k.processes i).loaded entryOffset (pmmAllocPage k.mm.pmm).1 g)
    mm := { k.mm with pmm := k₂.mm.pmm, mem := k₂.mm.mem }
    cr3 := (k.processes i).addressSpace }, g, ?_, rfl, rfl, rfl, hmm', hr₂, rfl, hbytes⟩
  have he := userExecTask_of hcall e h0 (by
    dsimp only
    rw [Function.update_self]
    exact h.space_pos hsp)
  simp only [Ctl.enter, Function.update_self, Function.update_idem] at he
  exact he

end

section

variable {p0 : Pmm} {s0 : Mm} {bs : List Blk} {k k' k₁ : Kernel} {i : Fin 16}
  {image size codeSize entryOffset n : Nat} {x : UserPage}

/-- A page that is mapped is not mapped again. -/
theorem MmInv.copied_new (h : MmInv p0 s0 k.processes bs k.mm) (hx : x ∈ (k.processes i).pages)
    {v flags f : Nat} {src : Option Nat} (h' : MmInv p0 s0 k'.processes bs k'.mm)
    (hc : CopiedTo p0 k k' i v src size flags f) : x.vaddr / 4096 ≠ v / 4096 := fun hv => by
  have hpages := hc.pages
  have hd : (k'.processes i).addressSpace ∈ k'.mm.spaces :=
    (h'.pages i).space (by rw [hpages]; exact List.concat_ne_nil _ _)
  have hold : mapOf k'.mm (k'.processes i).addressSpace (v / 4096) = some x.paddr :=
    (h'.maps _ hd _ _).mpr ⟨i, rfl, x, by rw [hpages]; exact List.mem_append_left _ hx, hv, rfl⟩
  have hnew : mapOf k'.mm (k'.processes i).addressSpace (v / 4096) = some f :=
    (h'.maps _ hd _ _).mpr ⟨i, rfl, ⟨v, f⟩, by rw [hpages]; simp, rfl, rfl⟩
  obtain ⟨p', -, -, hf, -⟩ := hc.mapped
  refine hf.new ?_
  rw [Option.some.inj (hnew.symm.trans hold)]
  exact h.vm.own.mem (frameOf_page (List.mem_map_of_mem hx))

/-- `user_exec_task`, when the program could not be loaded. -/
theorem userExecTask_fails (hcall : k.caller = some i)
    (e : userPrepareExec k i (k.processes i).path = .ok (-1, k₁))
    (ha : (k₁.processes i).addressSpace ≠ 0) {mm : Mm}
    (ed : vmmDestroyAddressSpace k₁.mm (k₁.processes i).addressSpace = .ok mm) :
    ∃ console, userExecTask k = .ok (false, { k₁ with
      mm := mm
      processes := userProcessRelease k₁.processes i
      console := console }) := by
  unfold Ctl.caller at hcall
  unfold userExecTask
  rw [hcall]
  simp only [e, ok_bind, if_pos (show (-1 : Int) ≠ 0 by decide), if_pos ha, ed]
  exact ⟨_, rfl⟩

/-- **A task that finds the record of a process that runs** takes it for its own: it cannot load
    the program again, and destroys what is there. -/
theorem MmInv.execTask_mapped (h : MmInv p0 s0 k.processes bs k.mm) (hcall : k.caller = some i)
    (hsp : (k.processes i).addressSpace ∈ k.mm.spaces)
    (halone : ∀ m, m ≠ i → (k.processes m).pages ≠ [] →
      (k.processes m).addressSpace ≠ (k.processes i).addressSpace)
    (hx : x ∈ (k.processes i).pages) (hv : x.vaddr = 0x00400000)
    (hfind : initramfsFind k.mm.mem k.bootModule (k.processes i).path = .ok (some (image, size)))
    (hhdr : emxfHeader k.mm.mem image size = .ok (some (codeSize, entryOffset)))
    (hsrc : SourceOk (some ((image + 12) % 2 ^ 32)) codeSize) :
    ∃ k', userExecTask k = .ok (false, k') ∧
      k'.toCtl = { k.toCtl with processes := userProcessRelease k.processes i } ∧
      k'.bootModule = k.bootModule ∧ MmInv p0 s0 k'.processes bs k'.mm ∧
      k'.mm.spaces = k.mm.spaces.erase (k.processes i).addressSpace ∧
      ¬ Allocated p0 k'.mm.pmm (k.processes i).addressSpace ∧
      ∀ f, Allocated p0 k'.mm.pmm f → Allocated p0 k.mm.pmm f := by
  rcases h.mapCopied_cases codeSize 0 (some ((image + 12) % 2 ^ 32)) hsp (v := 0x00400000)
    (by decide) (by decide) with ⟨hno, -⟩ | ⟨r, k₁, e₁, h₁, ho⟩
  · exact absurd hsrc hno
  obtain ⟨rfl, hn, -⟩ | ⟨-, f, hc⟩ := ho
  swap
  · exact absurd (by rw [hv]) (h.copied_new hx h₁ hc)
  -- nothing was copied, so the record is as it was; its pages go
  obtain ⟨mm₂, e₂, h₂, hsp₂, hheap₂, hdirs₂, -⟩ := h₁.freeAll i
  have hk₁ := hn.2
  have hps : k₁.processes = k.processes := by rw [hk₁]
  have hspace : (withPages k₁.processes i [] i).addressSpace = (k.processes i).addressSpace := by
    rw [withPages_space, hps]
  have eprep : userPrepareExec k i (k.processes i).path = .ok (-1, { k₁ with
      mm := mm₂, processes := withPages k₁.processes i [] }) := by
    unfold userPrepareExec prepareExecSteps loadEmxf
    simp only [hfind, ok_bind, hhdr, e₁, if_pos (show (-1 : Int) ≠ 0 by decide), pure_bind, e₂]
    rfl
  -- then its directory
  have hsp₃ : (k.processes i).addressSpace ∈ mm₂.spaces := by
    rw [hsp₂, hn.spaces]
    exact hsp
  have hfreed := h₂.freed hsp₃
  obtain ⟨p', hp', ed, h₃⟩ := h₂.destroy hsp₃ fun m hm => by
    by_cases hmi : m = i
    · rw [hmi, withPages_self] at hm
      exact absurd rfl hm
    · rw [withPages_of_ne hmi, hps] at hm ⊢
      exact halone m hmi hm
  have ha : (withPages k₁.processes i [] i).addressSpace ≠ 0 := by
    rw [hspace]
    exact h.space_pos hsp
  rw [← hspace] at ed
  obtain ⟨console, e⟩ := userExecTask_fails hcall eprep ha ed
  have hrel : userProcessRelease (withPages k₁.processes i []) i =
      userProcessRelease k.processes i := by
    rw [hps]
    exact Function.update_idem ..
  have h₄ : MmInv p0 s0 (userProcessRelease k.processes i) bs
      { mm₂ with pmm := p', spaces := mm₂.spaces.erase (k.processes i).addressSpace } := by
    rw [← hrel]
    exact h₃.setRecord (withPages_self ..).symm fun hne => absurd rfl hne
  rw [hp'] at hfreed
  refine ⟨_, e, ?_, ?_, ?_, ?_, hfreed, fun f hf => ?_⟩
  · dsimp only
    rw [hrel, hk₁]
  · rw [hk₁]
  · dsimp only
    rw [hrel, hspace]
    exact h₄
  · dsimp only
    rw [hspace, hsp₂, hn.spaces]
  · have hf : Allocated p0 p' f := hf
    refine h.allocated_sub h₄ (fun d hd => ?_) ?_ (fun m g hg => ?_) ?_ hf
    · rw [← hn.spaces, ← hsp₂]
      exact List.mem_of_mem_erase hd
    · exact hheap₂.trans (by rw [hk₁])
    · by_cases hmi : m = i
      · rw [hmi, userProcessRelease, Function.update_self] at hg
        cases hg
      · rwa [userProcessRelease, Function.update_of_ne hmi] at hg
    · obtain ⟨hdir, -⟩ := h.vm.words_same hn.1
      have hkd₁ : k₁.mm.kernelPageDirectory = k.mm.kernelPageDirectory := by rw [hk₁]
      exact fun d j hd hj => (hdirs₂ d j ((isDir_same hkd₁ hn.spaces).mpr hd) hj).trans (hdir d j hd hj)

end

/-! ## 6. Processes that end -/

/-- The slot `z` holds the only zombie to reap, a process's: its address space has no pages left. -/
structure Ctl.ProcessZombie (c : Ctl) (z : Fin 16) : Prop where
  slot : z ≠ 0 ∧ z ≠ c.currentTask
  zombie : (c.tasks z).state = .zombie
  only : ∀ t, t ≠ 0 → t ≠ c.currentTask → (c.tasks t).state = .zombie → t = z
  pages : ∀ m, (c.processes m).pages ≠ [] →
    (c.processes m).addressSpace ≠ (c.tasks z).addressSpace

section

variable {p0 : Pmm} {s0 s : Mm} {bs : List Blk} {ps : Fin 16 → UserProcess} {k : Kernel}
  {i j z : Fin 16} {d n : Nat}

/-- A frame of another use is no page of the heap. -/
theorem MmInv.not_heap (h : MmInv p0 s0 ps bs s) {r : Role Client} {g x : Nat}
    (hr : frameOf s (heldBy s.heapPages ps) r = some g) (hne : ∀ c, r ≠ .client (.heap c))
    (hx : InPage g x) : ¬ InPages s.heapPages x := fun ⟨c, hc, hcx⟩ => by
  have hheap : frameOf s (heldBy s.heapPages ps) (.client (.heap c)) = some c := frameOf_heap hc
  have hgc : g ≠ c := fun e => by
    rw [← e] at hheap
    exact hne _ (h.vm.own.inj hr hheap)
  exact not_inPage (h.vm.aligned hr) (h.vm.aligned hheap) hgc hcx hx

theorem MmInv.dir_not_heap (h : MmInv p0 s0 ps bs s) (hd : IsDir s d) {x : Nat} (hx : InPage d x) :
    ¬ InPages s.heapPages x := h.not_heap (frameOf_dir hd) nofun hx

/-- **The reaper destroys the address space of a process that ended.** -/
theorem Backed.reap_space (h : Backed p0 s0 k bs) (hz : k.toCtl.ProcessZombie z)
    (hd : (k.tasks z).addressSpace ∈ k.mm.spaces) :
    ∃ mm bs', reapZombies k = .ok { k with toCtl := k.reap, mm := mm } ∧
      Backed p0 s0 { k with toCtl := k.reap, mm := mm } bs' ∧
      mm.spaces = k.mm.spaces.erase (k.tasks z).addressSpace ∧ mm.heapPages = k.mm.heapPages ∧
      ¬ Allocated p0 mm.pmm (k.tasks z).addressSpace ∧
      (∀ f, Allocated p0 mm.pmm f → Allocated p0 k.mm.pmm f) ∧ (∃ b ∈ bs', b.Serves 2048) ∧
      AgreeOn (fun x => ¬ InPages k.mm.heapPages x) k.mm.mem mm.mem := by
  obtain ⟨hz0, hcur⟩ := hz.slot
  have hfreed := h.mm.freed hd
  obtain ⟨-, hall⟩ := pmmFreePage_list h.mm.vm.pmm (fun f hf => h.mm.vm.ownFrames_role (.inr hd) hf)
    (h.mm.vm.ownFrames_nodup (.inr hd))
  obtain ⟨p', hp', ed, hmm⟩ := h.mm.destroy hd hz.pages
  rw [hp'] at hfreed hall
  obtain ⟨m', bs', et, hb, hserve, hheap⟩ := h.cleanup hz.zombie hz0 hmm
    ((if_pos ⟨h.mm.space_pos hd, h.mm.space_ne_kernel hd⟩).trans ed)
  rw [Ctl.reap_one hz.zombie hz0 hcur hz.only]
  exact ⟨_, bs', reapZombies_one hz.zombie hz0 hcur hz.only et, hb, rfl, rfl, hfreed,
    fun f hf => ((hall f).mp hf).1, hserve, hheap⟩

/-- **A process is spawned when another has ended**: the frame for its directory is taken first,
    then the address space of the other one is destroyed -- which may be the one just taken -- and
    the new task has its stack. -/
theorem Backed.spawn_reaps (h : Backed p0 s0 k bs) (hz : k.toCtl.ProcessZombie z)
    (hd : (k.tasks z).addressSpace ∈ (pmmAllocPage k.mm.pmm).1 :: k.mm.spaces)
    (hj : k.reap.freeSlot = some j) {name : List Byte} {file : Nat × Nat} (hlen : name.length ≠ 0)
    (h32 : name.length < 32)
    (hfile : initramfsFind k.mm.mem k.bootModule name = .ok (some file))
    (hi : userProcessAlloc k.processes = some i) (hpages : (k.processes i).pages = [])
    (hroom : Room k.mm.pmm (n + 1)) (hid : k.nextTaskId < 2 ^ 31) :
    ∃ k' p bs', userSpawn k (some name) = .ok (toInt32 k.nextPid, k') ∧
      k'.toCtl = k.toCtl.spawn j i k.mm.kernelPageDirectory p (pmmAllocPage k.mm.pmm).1 name ∧
      k'.bootModule = k.bootModule ∧ k'.cr3 = k.cr3 ∧ Backed p0 s0 k' bs' ∧ Room k'.mm.pmm n ∧
      k'.mm.spaces = ((pmmAllocPage k.mm.pmm).1 :: k.mm.spaces).erase (k.tasks z).addressSpace ∧
      (pmmAllocPage k.mm.pmm).1 ∉ k.mm.spaces ∧
      ¬ Allocated p0 k'.mm.pmm (k.tasks z).addressSpace ∧
      ∀ x, x < 768 → dirWord k'.mm.mem (pmmAllocPage k.mm.pmm).1 x = 0 := by
  rcases h.mm.create with ⟨-, -, hno⟩ | ⟨f, p', m', ep, ec, hf0, -, hmm, hnew, -⟩
  · exact absurd hno hroom.low
  have hroom₁ : Room p' n := by
    have := hroom.next
    rwa [ep] at this
  rw [ep] at hd ⊢
  have hid' : (0 : Int) ≤ toInt32 k.nextTaskId := toInt32_nonneg hid
  generalize hp : ({ UserProcess.fresh with pid := k.nextPid, parentPid := k.callerPid, path := name
                                            addressSpace := f } : UserProcess) = p
  have hp0 : p.pages = [] := by rw [← hp]; rfl
  have hb₁ : Backed p0 s0 { k with
      mm := { k.mm with pmm := p', mem := m', spaces := f :: k.mm.spaces }
      processes := Function.update k.processes i p
      nextPid := (k.nextPid + 1) % 2 ^ 32 } bs :=
    ⟨hmm.setRecord (hp0.trans hpages.symm) fun hne => absurd hp0 hne, h.owned⟩
  have hz₁ : Ctl.ProcessZombie { k.toCtl with
      processes := Function.update k.processes i p
      nextPid := (k.nextPid + 1) % 2 ^ 32 } z :=
    ⟨hz.slot, hz.zombie, hz.only, fun m hm => by
      dsimp only at hm ⊢
      by_cases hmi : m = i
      · rw [hmi, Function.update_self] at hm
        exact absurd hp0 hm
      · rw [Function.update_of_ne hmi] at hm ⊢
        exact hz.pages m hm⟩
  obtain ⟨mm₂, bs₂, er, hb₂, hsp₂, hheap₂, hfreed, hsub, hserve, hagree₂⟩ := hb₁.reap_space hz₁ hd
  have hroom₂ : Room mm₂.pmm n := hb₁.mm.room hb₂.mm hsub hroom₁
  -- the new task takes the stack that was given back
  obtain ⟨q, m₃, bs₃, em, hq, hs, hmm₃⟩ := hb₂.mm.kmalloc_room hserve
  obtain ⟨m₄, ek, hb₄, hagree₄⟩ := hb₂.create er hj em hs hmm₃ hq .userExecTask
  have hkept : ∀ x, InPage f x → m₄ x = m' x := fun x hx => by
    have hnot := hb₁.mm.dir_not_heap (.inr List.mem_cons_self) hx
    have hnot₂ : ¬ InPages mm₂.heapPages x := by rwa [hheap₂]
    exact (hagree₄ x hnot₂).trans (hagree₂ x hnot)
  have hkd : mm₂.kernelPageDirectory = k.mm.kernelPageDirectory :=
    hb₂.mm.kernel.trans h.mm.kernel.symm
  subst hp
  refine ⟨_, q, bs₃, userSpawn_of hlen h32 hfile hi ec hf0 ek hid', ?_, rfl, rfl,
    ⟨?_, hb₄.owned⟩, hroom₂, hsp₂, (List.nodup_cons.mp hmm.spaces_nodup).1, hfreed,
    fun x hx => ?_⟩
  · unfold Ctl.spawn
    dsimp only [Ctl.addTask, Ctl.reap]
    rw [toInt32_toNat (by omega) hid', Function.update_self, Function.update_idem, hkd]
    rfl
  · exact hb₄.mm.setRecord rfl fun _ => rfl
  · have hword : dirWord m₄ f x = dirWord m' f x :=
      rd32_congr fun y hy => hkept _ (by unfold InPage; omega)
    exact hword.trans ((hnew x (by omega)).trans (if_pos hx))

/-- **The process that is running gives its pages back.** -/
theorem Backed.exitCurrent (h : Backed p0 s0 k bs) (hc : k.caller = some i)
    (hx : ∀ m, (k.processes m).state = .exited → (k.processes m).pages = []) (status : Nat) :
    ∃ mm, userExitCurrent k status = .ok { k with mm := mm, processes := k.exitRecords i status } ∧
      Backed p0 s0 { k with mm := mm, processes := k.exitRecords i status } bs ∧
      mm.spaces = k.mm.spaces ∧ SameDirs k.mm mm.mem ∧
      ∀ f, Allocated p0 mm.pmm f → Allocated p0 k.mm.pmm f := by
  obtain ⟨mm, e, hmm, hsp, hheap, hdirs, -⟩ := h.mm.exitCurrent hc hx status
  refine ⟨mm, e, ⟨hmm, h.owned⟩, hsp, hdirs, fun f hf => ?_⟩
  refine h.mm.allocated_sub hmm (fun d hd => hsp ▸ hd) hheap (fun m g hg => ?_) hdirs hf
  unfold UserProcess.frames at hg ⊢
  obtain ⟨-, hsame⟩ := k.exitRecords_pages (List.ne_nil_of_mem (List.mem_map.mp hg).choose_spec.1)
  rwa [hsame.pages] at hg

end

end Emyx
