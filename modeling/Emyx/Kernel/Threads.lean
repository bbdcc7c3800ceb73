/-
  File:      Emyx/Kernel/Threads.lean
  Subject:   THE SCHEDULER AND ITS STACKS, in every run of `kthread_create`, `sched_yield` and
             `kthread_exit`.

  * `Ctl.Sched` -- one task runs, task 0 is live, at most one zombie waits for the reaper;
  * `ThreadMem` -- each used slot holds a stack of its own, and the heap's pages are frames taken
    from the page allocator;
  * `Frees` -- which stacks a step gives back: those of the zombies that do not run, each once;
  * **`scheduler_ok`** -- in every run whose creations find a page with a 32-bit address if they
    find one, the scheduler is in order and the next step returns;
  * **`stacks_shared`** -- with RAM above 4 GiB two threads may get one stack.
-/
import Emyx.Kernel.Stacks
import Emyx.Kernel.Tables
import Emyx.Vmm.Init

namespace Emyx

open Lib

/-! ## 1. The slots -/

/-- **The invariant of the slots.** -/
structure Ctl.Sched (c : Ctl) : Prop where
  running : ∀ t, (c.tasks t).state = .running ↔ t = c.currentTask
  zero : (c.tasks 0).Live
  zombie : ∀ t u, (c.tasks t).state = .zombie → (c.tasks u).state = .zombie → t = u

section

variable {c c' : Ctl}

/-- No zombie is left by `reap_zombies` but the current task. -/
theorem Ctl.reap_zombie {t : Fin 16} (h0 : (c.tasks 0).Live)
    (h : (c.reap.tasks t).state = .zombie) : t = c.currentTask ∧ (c.tasks t).state = .zombie := by
  have he := Ctl.reap_used (c := c) (t := t) (by rw [h]; decide)
  rw [he] at h
  refine ⟨?_, h⟩
  by_contra hc
  have ht0 : t ≠ 0 := fun e => by
    subst e
    rcases h0 with h0 | h0 <;> cases h.symm.trans h0
  have hempty : c.reap.tasks t = Task.empty := if_pos ⟨ht0, hc, h⟩
  rw [← he, hempty] at h
  cases h

theorem Ctl.reap_live {t : Fin 16} : (c.reap.tasks t).Live ↔ (c.tasks t).Live :=
  ⟨fun h => by rwa [Ctl.reap_used h.used] at h, fun h => by rwa [Ctl.reap_of_live h]⟩

theorem Ctl.reap_running {t : Fin 16} :
    (c.reap.tasks t).state = .running ↔ (c.tasks t).state = .running := by
  constructor
  · intro h
    rwa [Ctl.reap_used (by rw [h]; decide)] at h
  · intro h
    rwa [Ctl.reap_of_live (.inr h)]

theorem Ctl.Sched.reap (h : c.Sched) : c.reap.Sched where
  running t := Ctl.reap_running.trans (h.running t)
  zero := Ctl.reap_live.mpr h.zero
  zombie _ _ ht hu := (Ctl.reap_zombie h.zero ht).1.trans (Ctl.reap_zombie h.zero hu).1.symm

/-- Only the states of the slots count. -/
theorem Ctl.Sched.of_states (h : c.Sched) (hc : c'.currentTask = c.currentTask)
    (hstate : ∀ t, (c'.tasks t).state = (c.tasks t).state) : c'.Sched := by
  refine ⟨fun t => ?_, ?_, fun t u ht hu => ?_⟩
  · rw [hstate, hc]
    exact h.running t
  · unfold Task.Live
    rw [hstate]
    exact h.zero
  · rw [hstate] at ht hu
    exact h.zombie t u ht hu

/-- The current task goes on, with other data. -/
theorem Ctl.Sched.of_update (h : c.Sched) {task : Task} (hc : c'.currentTask = c.currentTask)
    (ht : c'.tasks = Function.update c.tasks c.currentTask task)
    (hs : task.state = (c.tasks c.currentTask).state) : c'.Sched := by
  refine h.of_states hc fun t => ?_
  rw [ht]
  by_cases htc : t = c.currentTask
  · subst htc
    rw [Function.update_self]
    exact hs
  · rw [Function.update_of_ne htc]

theorem Ctl.Sched.setCont (h : c.Sched) (cont : Cont) : (c.setCont cont).Sched :=
  h.of_update rfl rfl rfl

theorem Ctl.Sched.addTask (h : c.Sched) {j : Fin 16} {t : Task} (hj : (c.tasks j).state = .unused)
    (ht : t.state = .runnable) : (c.addTask j t).Sched := by
  have hself : ((c.addTask j t).tasks j).state = .runnable := by
    rw [show (c.addTask j t).tasks j = t from Function.update_self ..]
    exact ht
  have hother : ∀ u, u ≠ j → (c.addTask j t).tasks u = c.tasks u := fun u hu =>
    Function.update_of_ne hu ..
  have hne : ∀ u, ((c.addTask j t).tasks u).state ≠ .runnable → u ≠ j := fun u hu e =>
    hu (e ▸ hself)
  refine ⟨fun u => ?_, ?_, fun u v hu hv => ?_⟩
  · by_cases hu : u = j
    · subst hu
      rw [hself]
      refine iff_of_false (by decide) fun e => ?_
      cases hj.symm.trans ((h.running u).mpr e)
    · rw [hother u hu]
      exact h.running u
  · rw [hother 0 fun e => h.zero.used (e ▸ hj)]
    exact h.zero
  · rw [hother u (hne u (by rw [hu]; decide))] at hu
    rw [hother v (hne v (by rw [hv]; decide))] at hv
    exact h.zombie u v hu hv

/-- A switch, away from a task that runs or has just become a zombie. -/
theorem Ctl.sched_switchTo {idx : Fin 16} (hrun : ∀ t, (c.tasks t).state = .running →
    t = c.currentTask) (h0 : (c.tasks 0).Live) (hz : ∀ t, (c.tasks t).state = .zombie →
    t = c.currentTask) : (c.switchTo idx).Sched := by
  have hcases : ∀ t, t ≠ idx → ((c.switchTo idx).tasks t).state ≠ .running ∧
      (((c.switchTo idx).tasks t).state = .zombie → t = c.currentTask) ∧
      ((c.tasks t).Live → ((c.switchTo idx).tasks t).Live) := fun t ht => by
    obtain ⟨s, he, -, hs⟩ := c.switchTo_tasks idx t
    unfold Task.Live
    rw [he]
    rcases hs ht with ⟨rfl, hcur⟩ | ⟨hc, -, rfl⟩
    · exact ⟨fun hr => hcur (hrun t hr) hr, hz t, id⟩
    · exact ⟨fun e => (by cases e), fun e => (by cases e), fun _ => .inl rfl⟩
  have hself : ((c.switchTo idx).tasks idx).state = .running := by
    obtain ⟨s, he, hs, -⟩ := c.switchTo_tasks idx idx
    rw [he]
    exact hs rfl
  refine ⟨fun t => ⟨fun ht => ?_, fun ht => ht ▸ hself⟩, ?_, fun t u ht hu => ?_⟩
  · by_contra hne
    exact (hcases t hne).1 ht
  · by_cases hi : (0 : Fin 16) = idx
    · exact .inr (by rw [hi]; exact hself)
    · exact (hcases 0 hi).2.2 h0
  · have hne : ∀ t, ((c.switchTo idx).tasks t).state = .zombie → t ≠ idx := fun t ht e => by
      cases (e ▸ ht).symm.trans hself
    exact ((hcases t (hne t ht)).2.1 ht).trans ((hcases u (hne u hu)).2.1 hu).symm

theorem Ctl.Sched.yieldsTo (h : c.Sched) (hy : YieldsTo c c') : c'.Sched := by
  obtain ⟨idx, -, rfl⟩ := hy
  exact Ctl.sched_switchTo (fun t ht => (h.reap.running t).mp ht) h.reap.zero
    fun t ht => (Ctl.reap_zombie h.zero ht).1

/-- What `kthread_exit` leaves when it calls `sched_yield`. -/
theorem Ctl.Sched.zombify (h : c.Sched) (h0 : c.currentTask ≠ 0) :
    (∀ t, (c.zombify.tasks t).state ≠ .running) ∧ (c.zombify.tasks 0).state = .runnable := by
  have hother : ∀ t, t ≠ c.currentTask → c.zombify.tasks t = c.tasks t := fun t ht =>
    Function.update_of_ne ht ..
  refine ⟨fun t ht => ?_, ?_⟩
  · by_cases hc : t = c.currentTask
    · subst hc
      rw [show c.zombify.tasks c.currentTask =
        { c.tasks c.currentTask with state := .zombie } from Function.update_self ..] at ht
      cases ht
    · rw [hother t hc] at ht
      exact hc ((h.running t).mp ht)
  · rw [hother 0 h0.symm]
    exact h.zero.resolve_right fun hr => h0 ((h.running 0).mp hr).symm

theorem Ctl.Sched.exitsTo (h : c.Sched) (he : ExitsTo c c') : c'.Sched := by
  obtain ⟨h0, idx, -, rfl⟩ := he
  obtain ⟨hrun, hzero⟩ := h.zombify h0
  exact Ctl.sched_switchTo (fun t ht => absurd (Ctl.reap_running.mp ht) (hrun t))
    (Ctl.reap_live.mpr (.inl hzero)) fun t ht => (Ctl.reap_zombie (.inl hzero) ht).1

/-- `sched_yield` looks at every slot. -/
theorem Ctl.nextRunnable_isSome {i : Fin 16} (h : (c.tasks i).state = .runnable) :
    ∃ idx, c.nextRunnable = some idx := by
  refine Option.isSome_iff_exists.mp (List.find?_isSome.mpr ⟨i, ?_, by simpa using h⟩)
  refine List.mem_map.mpr ⟨i - (c.currentTask + 1), List.mem_finRange _, ?_⟩
  exact add_sub_cancel ..

/-- **A task that exits always finds another one to run.** -/
theorem Ctl.Sched.exit_finds (h : c.Sched) (h0 : c.currentTask ≠ 0) :
    ∃ idx, c.zombify.reap.nextRunnable = some idx := by
  have hzero := (h.zombify h0).2
  refine Ctl.nextRunnable_isSome (i := 0) ?_
  rw [Ctl.reap_of_live (.inl hzero)]
  exact hzero

end

/-! ## 2. The stacks -/

/-- **The invariant of the stacks**, while every task is a kernel thread. -/
structure ThreadMem (p0 : Pmm) (out : List (Nat × Nat)) (k : Kernel) : Prop where
  pmm : PmmOk p0 k.mm.pmm
  pages : ∀ f ∈ k.mm.heapPages, Allocated p0 k.mm.pmm f
  heap : HeapReach k.mm out
  owned : StacksOwned k.tasks out
  space : ∀ t, (k.tasks t).state ≠ .unused →
    (k.tasks t).addressSpace = k.mm.kernelPageDirectory
  entry : ∀ t, (k.tasks t).entry ≠ some .userExecTask

/-- `kfree` is called for the pointers `ps`, in this order. -/
inductive Frees : Mm → List Nat → Mm → Prop where
  | nil (s : Mm) : Frees s [] s
  | cons {s s₁ s' : Mm} {p : Nat} {ps : List Nat} (h : kfree s p = .ok s₁) (hs : Frees s₁ ps s') :
    Frees s (p :: ps) s'

/-- The stacks of the zombies among the slots `l` that do not run. -/
def Ctl.zombieStacks (c : Ctl) (l : List (Fin 16)) : List Nat :=
  (l.filter fun i => i ≠ c.currentTask ∧ (c.tasks i).state = .zombie).map fun i =>
    (c.tasks i).stack

/-- The current task does not count. -/
theorem Ctl.zombieStacks_congr {c c' : Ctl} {l : List (Fin 16)}
    (hc : c'.currentTask = c.currentTask)
    (ht : ∀ j ∈ l, j ≠ c.currentTask → c'.tasks j = c.tasks j) :
    c'.zombieStacks l = c.zombieStacks l := by
  have hf : l.filter (fun i => i ≠ c.currentTask ∧ (c'.tasks i).state = .zombie) =
      l.filter fun i => i ≠ c.currentTask ∧ (c.tasks i).state = .zombie :=
    List.filter_congr fun j hj => decide_eq_decide.mpr (and_congr_right fun hne => by rw [ht j hj hne])
  unfold Ctl.zombieStacks
  rw [hc, hf]
  refine List.map_congr_left fun j hj => ?_
  obtain ⟨hmem, hj⟩ := List.mem_filter.mp hj
  rw [ht j hmem (of_decide_eq_true hj).1]

theorem Ctl.zombieStacks_cons {c : Ctl} {i : Fin 16} (l : List (Fin 16)) (hi : i ≠ c.currentTask)
    (hz : (c.tasks i).state = .zombie) :
    c.zombieStacks (i :: l) = (c.tasks i).stack :: c.zombieStacks l := by
  unfold Ctl.zombieStacks
  rw [List.filter_cons_of_pos (by simpa using ⟨hi, hz⟩), List.map_cons]

theorem Ctl.zombieStacks_skip {c : Ctl} {i : Fin 16} (l : List (Fin 16))
    (hi : ¬ (i ≠ c.currentTask ∧ (c.tasks i).state = .zombie)) :
    c.zombieStacks (i :: l) = c.zombieStacks l := by
  unfold Ctl.zombieStacks
  rw [List.filter_cons_of_neg (by rwa [decide_eq_true_eq])]

/-- The slot holds what it held. -/
structure Task.SameHold (t t' : Task) : Prop where
  stack : t'.stack = t.stack
  addressSpace : t'.addressSpace = t.addressSpace
  entry : t'.entry = t.entry
  unused : t'.state = .unused ↔ t.state = .unused

section

variable {p0 : Pmm} {out : List (Nat × Nat)} {k k' : Kernel}

theorem ThreadMem.of_tasks (h : ThreadMem p0 out k) (hm : k'.mm = k.mm)
    (ht : ∀ t, (k.tasks t).SameHold (k'.tasks t)) : ThreadMem p0 out k' := by
  refine ⟨hm ▸ h.pmm, hm ▸ h.pages, hm ▸ h.heap, h.owned.congr fun t => ?_, fun t hu => ?_,
    fun t => ?_⟩
  · unfold stackOf
    rw [(ht t).stack]
    exact if_congr (and_congr_right fun _ => not_congr (ht t).unused) rfl rfl
  · rw [hm, (ht t).addressSpace]
    exact h.space t fun e => hu ((ht t).unused.mpr e)
  · rw [(ht t).entry]
    exact h.entry t

/-- The allocation of a used slot's stack. -/
theorem ThreadMem.stack_mem (h : ThreadMem p0 out k) {bs : List Blk}
    (hp : (allocs bs).Perm out) {i : Fin 16} (hi : i ≠ 0) (hu : (k.tasks i).state ≠ .unused) :
    ((k.tasks i).stack, 2048) ∈ allocs bs := hp.symm.subset (h.owned.mem hi hu)

/-- **`task_cleanup` frees the slot's stack**, and nothing else. -/
theorem ThreadMem.cleanup (h : ThreadMem p0 out k) {i : Fin 16} (hi : i ≠ 0)
    (hu : (k.tasks i).state ≠ .unused) :
    ∃ m', kfree k.mm (k.tasks i).stack = .ok { k.mm with mem := m' } ∧
      taskCleanup k i = .ok { k with tasks := Function.update k.tasks i Task.empty,
                                     mm := { k.mm with mem := m' } } ∧
      ThreadMem p0 (out.erase ((k.tasks i).stack, 2048))
        { k with tasks := Function.update k.tasks i Task.empty, mm := { k.mm with mem := m' } } := by
  obtain ⟨bs, hinv, hperm⟩ := heapInv_reach h.heap
  have hmem := h.stack_mem hperm hi hu
  obtain ⟨m', bs', e, -⟩ := kfree_spec hinv hmem
  have hne : (k.tasks i).stack ≠ 0 := fun h0 => by
    have := (hinv.alloc_bounds hmem).1
    rw [h0] at this
    cases this
  refine ⟨m', e, ?_, h.pmm, h.pages, .kfree _ _ _ _ h.heap (h.owned.mem hi hu) e,
    h.owned.release hi hu (hperm.nodup_iff.mp hinv.allocs_nodup), fun t ht => ?_, fun t => ?_⟩
  · exact bind_ok.mpr ⟨k.mm, if_neg fun hc => hc.2 (h.space i hu),
      bind_ok.mpr ⟨_, (if_pos hne).trans e, rfl⟩⟩
  · dsimp only at ht ⊢
    have hti : t ≠ i := fun hc => ht (by rw [hc, Function.update_self]; rfl)
    rw [Function.update_of_ne hti] at ht ⊢
    exact h.space t ht
  · by_cases hti : t = i
    · subst hti
      dsimp only
      rw [Function.update_self]
      exact fun hc => by cases hc
    · dsimp only
      rw [Function.update_of_ne hti]
      exact h.entry t

/-- The reaper's loop over the slots `l`. -/
theorem ThreadMem.reap_loop {l : List (Fin 16)} (hl : l.Nodup) (h0 : (0 : Fin 16) ∉ l)
    (h : ThreadMem p0 out k) :
    ∃ k' out', l.foldlM (fun k i => if i = k.currentTask ∨ (k.tasks i).state ≠ .zombie then .ok k
        else taskCleanup k i) k = .ok k' ∧ ThreadMem p0 out' k' ∧
      Frees k.mm (k.zombieStacks l) k'.mm ∧ k'.mm.pmm = k.mm.pmm := by
  induction l generalizing k out with
  | nil => exact ⟨k, out, rfl, h, .nil _, rfl⟩
  | cons i l ih =>
    obtain ⟨hil, hl⟩ := List.nodup_cons.mp hl
    have hi0 : i ≠ 0 := fun e => h0 (e ▸ List.mem_cons_self)
    have h0l : (0 : Fin 16) ∉ l := fun hc => h0 (List.mem_cons_of_mem _ hc)
    by_cases hz : i = k.currentTask ∨ (k.tasks i).state ≠ .zombie
    · obtain ⟨k', out', e, hk', hfr, hp⟩ := ih hl h0l h
      refine ⟨k', out', bind_ok.mpr ⟨k, if_pos hz, e⟩, hk', ?_, hp⟩
      rwa [Ctl.zombieStacks_skip l (by tauto)]
    · have hz' := hz
      rw [not_or, not_not] at hz'
      obtain ⟨m', hfree, hclean, hk₁⟩ := h.cleanup hi0 (by rw [hz'.2]; decide)
      obtain ⟨k', out', e, hk', hfr, hp⟩ := ih hl h0l hk₁
      refine ⟨k', out', bind_ok.mpr ⟨_, (if_neg hz).trans hclean, e⟩, hk', ?_, hp⟩
      -- the slots still to come are as they were
      have hrest : ∀ j ∈ l, Function.update k.tasks i Task.empty j = k.tasks j := fun j hj =>
        Function.update_of_ne (fun e : j = i => hil (e ▸ hj)) ..
      rw [Ctl.zombieStacks_cons l hz'.1 hz'.2]
      refine .cons hfree ?_
      convert hfr using 1
      exact Eq.symm (Ctl.zombieStacks_congr rfl fun j hj _ => hrest j hj)

/-- **`reap_zombies` frees the stacks of the zombies that do not run.** -/
theorem ThreadMem.reap (h : ThreadMem p0 out k) :
    ∃ k' out', reapZombies k = .ok k' ∧ ThreadMem p0 out' k' ∧
      Frees k.mm (k.zombieStacks slots) k'.mm ∧ k'.mm.pmm = k.mm.pmm :=
  h.reap_loop (by decide) (by decide)

end

/-! ## 3. Creation -/

/-- The heap's pages are frames that were taken, whatever a call did to them. -/
theorem PagesStep.allocated {p0 : Pmm} {s s' : Mm} (hok : PmmOk p0 s.pmm) (ha : Addressable s.pmm)
    (hp : ∀ f ∈ s.heapPages, Allocated p0 s.pmm f) (h : PagesStep s s') :
    PmmOk p0 s'.pmm ∧ ∀ f ∈ s'.heapPages, Allocated p0 s'.pmm f := by
  rcases h with ⟨e1, e2⟩ | ⟨r, hg⟩
  · rw [e1, e2]
    exact ⟨hok, hp⟩
  · generalize s'.pmm = p', s'.heapPages = pages' at hg
    rcases pmmAllocPage_spec hok ha with ⟨-, e⟩ | ⟨f, q, e, h0, hq, -, -, -, hall, -⟩
    · cases hg with
      | none _ =>
        rw [e]
        exact ⟨hok, hp⟩
      | high hf =>
        rw [e] at hf
        cases hf
      | page hf _ =>
        rw [e] at hf
        exact absurd rfl hf
    · cases hg with
      | none hf =>
        rw [e] at hf
        exact absurd hf h0
      | high _ =>
        obtain ⟨hok', hall'⟩ := pmmFreePage_undo hok ha (by rw [e]; exact h0)
        exact ⟨hok', fun g hg => (hall' g).mpr (hp g hg)⟩
      | page _ _ =>
        rw [e]
        refine ⟨hq, fun g hg => (hall g).mpr ?_⟩
        exact (List.mem_cons.mp hg).imp id (hp g)

section

variable {p0 : Pmm} {out : List (Nat × Nat)} {k k' : Kernel}

/-- The page allocator gives the heap no page it has. -/
theorem ThreadMem.fresh_page (h : ThreadMem p0 out k) (ha : Addressable k.mm.pmm)
    (h0 : (pmmAllocPage k.mm.pmm).1 ≠ 0) : (pmmAllocPage k.mm.pmm).1 ∉ k.mm.heapPages := by
  rcases pmmAllocPage_spec h.pmm ha with ⟨-, e⟩ | ⟨f, q, e, -, -, -, -, hnew, -⟩
  · rw [e] at h0
    exact absurd rfl h0
  · rw [e]
    exact fun hf => hnew (h.pages f hf)

/-- A step that changed memory management only, as a heap call does. -/
theorem ThreadMem.of_served (h : ThreadMem p0 out k) {s' : Mm} {out' : List (Nat × Nat)}
    (hheap : HeapReach s' out') (hpmm : PmmOk p0 s'.pmm)
    (hpages : ∀ f ∈ s'.heapPages, Allocated p0 s'.pmm f)
    (hkd : s'.kernelPageDirectory = k.mm.kernelPageDirectory) (hout : out' = out) :
    ThreadMem p0 out' { k with mm := s' } :=
  ⟨hpmm, hpages, hheap, hout ▸ h.owned, fun t ht => (h.space t ht).trans hkd.symm, h.entry⟩

/-- **`kthread_create` returns**: it reaps, and fills a free slot with a new stack or gives up. -/
theorem ThreadMem.create (h : ThreadMem p0 out k) (ha : Addressable k.mm.pmm) :
    ∃ r k' out' s, kthreadCreate k (some .thread) = .ok (r, k') ∧ ThreadMem p0 out' k' ∧
      Frees k.mm (k.zombieStacks slots) s ∧
      (k'.mm = s ∨ ∃ p s' m, kmalloc s 2048 = .ok (p, s') ∧ k'.mm = { s' with mem := m }) := by
  obtain ⟨k₁, out₁, e₁, h₁, hfr, hpmm⟩ := h.reap
  unfold kthreadCreate
  simp only [e₁, ok_bind]
  cases hi : k₁.freeSlot with
  | none => exact ⟨-1, k₁, out₁, k₁.mm, rfl, h₁, hfr, .inl rfl⟩
  | some i =>
    rw [← hpmm] at ha
    obtain ⟨bs, hinv, hperm⟩ := heapInv_reach h₁.heap
    have hfresh := h₁.fresh_page ha
    obtain ⟨p, s', bs', e, hs⟩ := kmalloc_spec hinv 2048 hfresh
    obtain ⟨hok, hpages⟩ := hs.pages.allocated h₁.pmm ha h₁.pages
    have hheap := HeapReach.kmalloc _ _ _ _ _ h₁.heap hfresh e
    simp only [e, ok_bind]
    by_cases hp : p = 0
    · rw [if_pos hp]
      exact ⟨-1, _, _, k₁.mm, rfl, h₁.of_served hheap hok hpages hs.vm.1 (if_pos hp), hfr,
        .inr ⟨p, s', s'.mem, e, rfl⟩⟩
    · rw [if_neg hp] at hheap ⊢
      have hperm' : (allocs bs').Perm ((p, 2048) :: out₁) := by
        have := hs.allocs
        rw [if_neg hp] at this
        exact this.trans (hperm.cons _)
      obtain ⟨hlo, hhi⟩ := hs.inv.alloc_bounds (hperm'.symm.subset List.mem_cons_self)
      obtain ⟨m, em, hm⟩ := schedPrepareKthreadStack_ok s'.mem k₁.kthreadTrampoline hlo.le hhi
      rw [em]
      refine ⟨_, _, (p, 2048) :: out₁, k₁.mm, rfl, ⟨hok, hpages, ?_, ?_, fun t ht => ?_, fun t => ?_⟩,
        hfr, .inr ⟨p, s', m, e, rfl⟩⟩
      · -- the frame lies in the new stack
        exact .client _ _ _ hheap rfl rfl fun x hx => hm x (hx.2 _ List.mem_cons_self)
      · refine h₁.owned.take (t := ⟨_, .runnable, _, p, _, _⟩) ?_ ?_ nofun ?_
        · exact (mem_slots i).mp (List.mem_of_find?_eq_some hi)
        · exact Ctl.freeSlot_some hi
        · exact (List.nodup_cons.mp (hperm'.nodup_iff.mp hs.inv.allocs_nodup)).1
      · dsimp only at ht ⊢
        by_cases hti : t = i
        · subst hti
          rw [Function.update_self]
        · rw [Function.update_of_ne hti] at ht ⊢
          exact (h₁.space t ht).trans hs.vm.1.symm
      · dsimp only
        by_cases hti : t = i
        · subst hti
          rw [Function.update_self]
          exact fun hc => by cases hc
        · rw [Function.update_of_ne hti]
          exact h₁.entry t

end

/-! ## 4. Runs -/

/-- The steps of kernel threads: a new task enters its function, and functions create threads,
    yield and return. -/
def Op.OfThread : Op → Prop
  | .create => True
  | .yield => True
  | .start => True
  | .threadExit => True
  | _ => False

/-- A creation finds a page with a 32-bit address, if it finds one at all. -/
def ThreadStep (k : Kernel) (op : Op) (_ : Kernel) : Prop :=
  op.OfThread ∧ (op = .create → Addressable k.mm.pmm)

/-- The heap calls of a step: the stacks of the zombies that do not run are freed, in the order of
    their slots, and a creation may ask for one new stack after that. -/
def StackStep (k : Kernel) (op : Op) (k' : Kernel) : Prop :=
  match op with
  | .start => k'.mm = k.mm
  | .create => ∃ s, Frees k.mm (k.zombieStacks slots) s ∧
    (k'.mm = s ∨ ∃ p s' m, kmalloc s 2048 = .ok (p, s') ∧ k'.mm = { s' with mem := m })
  | _ => Frees k.mm (k.zombieStacks slots) k'.mm

/-- **The scheduler is in order.** -/
structure SchedOk (k : Kernel) : Prop where
  running : ∀ t, (k.tasks t).state = .running ↔ t = k.currentTask
  zero : (k.tasks 0).state = .runnable ∨ (k.tasks 0).state = .running
  selects : ∀ idx, k.reap.nextRunnable = some idx → (k.tasks idx).state = .runnable
  exits : k.currentTask ≠ 0 → ∃ idx, k.zombify.reap.nextRunnable = some idx ∧
    (k.tasks idx).state = .runnable
  zombies : ∀ t u, (k.tasks t).state = .zombie → (k.tasks u).state = .zombie →
    t ≠ k.currentTask → u ≠ k.currentTask → t = u
  owned : ∃ out, HeapReach k.mm out ∧ StacksOwned k.tasks out

section

variable {p0 : Pmm} {out : List (Nat × Nat)} {k k' : Kernel}

theorem Ctl.selects_runnable {c : Ctl} {idx : Fin 16} (h : c.reap.nextRunnable = some idx) :
    (c.tasks idx).state = .runnable := by
  have hr := Ctl.nextRunnable_some h
  rwa [Ctl.reap_used (by rw [hr]; decide)] at hr

theorem Ctl.Sched.schedOk (h : k.toCtl.Sched) (hm : ThreadMem p0 out k) : SchedOk k where
  running := h.running
  zero := h.zero
  selects _ hidx := Ctl.selects_runnable hidx
  exits h0 := by
    obtain ⟨idx, hidx⟩ := h.exit_finds h0
    refine ⟨idx, hidx, ?_⟩
    have hr := Ctl.selects_runnable hidx
    have hne : idx ≠ k.currentTask := fun e => by
      rw [e, show k.zombify.tasks k.currentTask =
        { k.tasks k.currentTask with state := .zombie } from Function.update_self ..] at hr
      cases hr
    rwa [show k.zombify.tasks idx = k.tasks idx from Function.update_of_ne hne ..] at hr
  zombies t u ht hu _ _ := h.zombie t u ht hu
  owned := ⟨out, hm.heap, hm.owned⟩

/-- A switch changes states only. -/
theorem ThreadMem.switchTo (h : ThreadMem p0 out k) {idx : Fin 16}
    (hidx : (k.tasks idx).state ≠ .unused) (hm : k'.mm = k.mm)
    (ht : k'.tasks = (k.switchTo idx).tasks) : ThreadMem p0 out k' := by
  refine h.of_tasks hm fun t => ?_
  obtain ⟨s, he, h1, h2⟩ := k.switchTo_tasks idx t
  rw [ht, he]
  refine ⟨rfl, rfl, rfl, ?_⟩
  show s = .unused ↔ _
  by_cases hti : t = idx
  · rw [h1 hti, hti]
    exact iff_of_false (by decide) hidx
  · rcases h2 hti with ⟨rfl, -⟩ | ⟨-, hr, rfl⟩
    · exact Iff.rfl
    · rw [hr]
      exact iff_of_false (by decide) (by decide)

/-- **`sched_yield` returns**, or switches. -/
theorem ThreadMem.yield (h : ThreadMem p0 out k) :
    ∃ b k' out', schedYield k = .ok (b, k') ∧ ThreadMem p0 out' k' ∧
      Frees k.mm (k.zombieStacks slots) k'.mm ∧ b = k.reap.nextRunnable.isSome := by
  obtain ⟨k₁, out₁, e₁, h₁, hfr, -⟩ := h.reap
  have hk₁ : k₁.toCtl = k.reap := by rw [reapZombies_ctl e₁]
  unfold schedYield
  simp only [e₁, ok_bind, ← hk₁]
  cases hi : k₁.nextRunnable with
  | none => exact ⟨false, _, out₁, rfl, h₁.of_tasks rfl fun t => ⟨rfl, rfl, rfl, Iff.rfl⟩, hfr, rfl⟩
  | some idx =>
    have hidx : (k₁.tasks idx).state ≠ .unused := by
      rw [Ctl.nextRunnable_some hi]
      decide
    exact ⟨true, _, out₁, rfl, h₁.switchTo hidx rfl rfl, hfr, rfl⟩

theorem ThreadMem.setCurrent (h : ThreadMem p0 out k) {t : Task}
    (ht : (k.tasks k.currentTask).SameHold t) (hm : k'.mm = k.mm)
    (hk : k'.tasks = Function.update k.tasks k.currentTask t) : ThreadMem p0 out k' := by
  refine h.of_tasks hm fun u => ?_
  rw [hk]
  by_cases hu : u = k.currentTask
  · subst hu
    rwa [Function.update_self]
  · rw [Function.update_of_ne hu]
    exact ⟨rfl, rfl, rfl, Iff.rfl⟩

/-- **`kthread_exit` switches**, on every task but task 0. -/
theorem ThreadMem.exit (hs : k.toCtl.Sched) (h : ThreadMem p0 out k) (h0 : k.currentTask ≠ 0) :
    ∃ k' out', kthreadExit k = .ok k' ∧ ThreadMem p0 out' k' ∧
      Frees k.mm (k.zombieStacks slots) k'.mm := by
  have hrun := (hs.running k.currentTask).mpr rfl
  have hz : ThreadMem p0 out { k with toCtl := k.zombify } := by
    refine h.setCurrent (t := { k.tasks k.currentTask with state := .zombie })
      ⟨rfl, rfl, rfl, ?_⟩ rfl rfl
    rw [hrun]
    exact iff_of_false nofun nofun
  obtain ⟨b, k', out', e, hk', hfr, hb⟩ := hz.yield
  obtain ⟨idx, hidx⟩ := hs.exit_finds h0
  have hb' : b = true := by
    rw [hb]
    exact congrArg Option.isSome hidx
  subst hb'
  refine ⟨k', out', (if_neg h0).trans (bind_ok.mpr ⟨_, e, rfl⟩), hk', ?_⟩
  -- the task that exits is not among the zombies that are reaped
  convert hfr using 1
  exact Eq.symm (Ctl.zombieStacks_congr rfl fun j _ hj => Function.update_of_ne hj ..)

end

section

variable {p0 : Pmm} {out : List (Nat × Nat)} {k k' : Kernel}

theorem Op.OfThread.waiter {c : Ctl} {op : Op} (h : op.OfThread) : op.waiter c = none := by
  cases op with
  | wait pid => exact h.elim
  | resume => exact h.elim
  | _ => rfl

/-- A thread's step keeps the slots in order. -/
theorem CtlStep.sched {c c' : Ctl} {op : Op} {r : Option Int} (hs : CtlStep c op r c')
    (h : c.Sched) (he : ∀ t, (c.tasks t).entry ≠ some .userExecTask) (hop : op.OfThread) :
    c'.Sched := by
  cases hs with
  | spawnRefused => exact hop.elim
  | spawnNoDirectory => exact hop.elim
  | spawnNoTask => exact hop.elim
  | spawnBadId => exact hop.elim
  | spawn => exact hop.elim
  | createFails => exact h.reap
  | create j t ht => exact h.reap.addTask ht.unused ht.state
  | yieldStays => exact h.reap
  | yield _ hy => exact h.yieldsTo hy
  | startThread => exact h.setCont _
  | startNoRecord _ hu => exact absurd hu (he _)
  | startFails _ _ hu => exact absurd hu (he _)
  | start _ _ hu => exact absurd hu (he _)
  | waitNoCaller => exact hop.elim
  | waitReturns _ _ _ _ _ hw => cases (hop.waiter (c := c)).symm.trans hw
  | waitYields _ _ _ _ hw => cases (hop.waiter (c := c)).symm.trans hw
  | exitNoRecord => exact hop.elim
  | exit => exact hop.elim
  | threadExit _ hx => exact h.exitsTo hx
  | store => exact hop.elim

/-- Task 0 does not exit. -/
theorem CtlStep.currentTask_ne_zero {c c' : Ctl} {r : Option Int}
    (h : CtlStep c .threadExit r c') : c.currentTask ≠ 0 := by
  cases h with
  | threadExit _ hx => exact hx.1
  | waitReturns _ _ _ _ _ hw => cases hw
  | waitYields _ _ _ _ hw => cases hw

/-- **A thread's step returns and keeps the invariant of the stacks.** -/
theorem ThreadMem.exec (hs : k.toCtl.Sched) (h : ThreadMem p0 out k) {op : Op} (hop : op.OfThread)
    (ha : op = .create → Addressable k.mm.pmm) (h0 : op = .threadExit → k.currentTask ≠ 0) :
    ∃ r k' out', k.exec op = .ok (r, k') ∧ ThreadMem p0 out' k' ∧ StackStep k op k' := by
  cases op with
  | create =>
    obtain ⟨r, k', out', s, e, hk', hfr, hmm⟩ := h.create (ha rfl)
    exact ⟨some r, k', out', bind_ok.mpr ⟨_, e, rfl⟩, hk', s, hfr, hmm⟩
  | yield =>
    obtain ⟨b, k', out', e, hk', hfr, -⟩ := h.yield
    exact ⟨none, k', out', bind_ok.mpr ⟨_, e, rfl⟩, hk', hfr⟩
  | start =>
    have e : kthreadTrampoline k = .ok { k with toCtl := k.setCont .kernel } := by
      unfold kthreadTrampoline
      split
      · rename_i hu
        exact absurd hu (h.entry _)
      · rfl
    exact ⟨none, _, out, bind_ok.mpr ⟨_, e, rfl⟩,
      h.setCurrent (t := { k.tasks k.currentTask with cont := .kernel })
        ⟨rfl, rfl, rfl, Iff.rfl⟩ rfl rfl, rfl⟩
  | threadExit =>
    obtain ⟨k', out', e, hk', hfr⟩ := h.exit hs (h0 rfl)
    exact ⟨none, k', out', bind_ok.mpr ⟨_, e, rfl⟩, hk', hfr⟩
  | _ => exact hop.elim

/-- What `sched_init` leaves in a slot. -/
theorem schedInit_slot (mm : Mm) (bm : BootModule) (tr esp0 : Nat) (t : Fin 16) :
    ((schedInit mm bm tr esp0).tasks t).state = .running ∧ t = 0 ∨
      (schedInit mm bm tr esp0).tasks t = Task.empty ∧ t ≠ 0 := by
  by_cases ht : t = 0
  · subst ht
    exact .inl ⟨rfl, rfl⟩
  · exact .inr ⟨if_neg ht, ht⟩

theorem schedInit_sched (mm : Mm) (bm : BootModule) (tr esp0 : Nat) :
    (schedInit mm bm tr esp0).toCtl.Sched := by
  have hz : ∀ t, ((schedInit mm bm tr esp0).tasks t).state ≠ .zombie := fun t e => by
    rcases schedInit_slot mm bm tr esp0 t with ⟨h, -⟩ | ⟨h, -⟩
    · cases e.symm.trans h
    · rw [h] at e
      cases e
  refine ⟨fun t => ?_, .inr rfl, fun t _ ht _ => absurd ht (hz t)⟩
  rcases schedInit_slot mm bm tr esp0 t with ⟨h, ht⟩ | ⟨h, ht⟩
  · exact iff_of_true h ht
  · rw [h]
    exact iff_of_false (by decide) ht

/-- The state `sched_init` leaves after `vmm_init`. -/
theorem threadMem_schedInit {mm : Mm} (hl : mm.list = 0) (hp : mm.heapPages = [])
    (bm : BootModule) (tr esp0 : Nat) : ThreadMem mm.pmm [] (schedInit mm bm tr esp0) := by
  have hother : ∀ t, t ≠ 0 → (schedInit mm bm tr esp0).tasks t = Task.empty := fun t ht => if_neg ht
  have hslot := schedInit_slot mm bm tr esp0
  refine ⟨.refl _, fun f hf => ?_, .boot _ hl hp, ⟨⟨fun {t t' f} ht _ => ?_, fun f => ?_⟩, nofun⟩,
    fun t ht => ?_, fun t => ?_⟩
  · rw [show (schedInit mm bm tr esp0).mm.heapPages = [] from hp] at hf
    cases hf
  · obtain ⟨⟨h0, hu⟩, -⟩ := Option.ite_none_right_eq_some.mp ht
    exact absurd (by rw [hother t h0]; rfl) hu
  · refine iff_of_false List.not_mem_nil ?_
    rintro ⟨t, ht⟩
    obtain ⟨⟨h0, hu⟩, -⟩ := Option.ite_none_right_eq_some.mp ht
    exact hu (by rw [hother t h0]; rfl)
  · rcases hslot t with ⟨-, rfl⟩ | ⟨h, -⟩
    · rfl
    · rw [h] at ht
      exact absurd rfl ht
  · rcases hslot t with ⟨-, rfl⟩ | ⟨h, -⟩
    · exact nofun
    · rw [h]
      exact nofun

/-- `vmm_init` leaves the heap empty. -/
theorem vmmInit_heap {m : Mem} {p : Pmm} {limit : Nat} {mm : Mm} (h : vmmInit m p limit = .ok mm) :
    mm.list = 0 ∧ mm.heapPages = [] := by
  unfold vmmInit at h
  obtain ⟨-, h⟩ := ite_error_ok.mp h
  obtain ⟨-, h⟩ := ite_error_ok.mp h
  obtain ⟨-, h⟩ := ite_error_ok.mp h
  obtain ⟨-, h⟩ := ite_error_ok.mp h
  obtain ⟨st, -, h⟩ := bind_ok.mp h
  cases h
  exact ⟨rfl, rfl⟩

theorem threads_run {mm : Mm} {bm : BootModule} {tr esp0 : Nat} (hl : mm.list = 0)
    (hp : mm.heapPages = []) {ops : List Op} (h : KRun ThreadStep (schedInit mm bm tr esp0) ops k) :
    k.toCtl.Sched ∧ ∃ out, ThreadMem mm.pmm out k := by
  induction h with
  | boot => exact ⟨schedInit_sched mm bm tr esp0, [], threadMem_schedInit hl hp bm tr esp0⟩
  | step _ hop hc e ih =>
    obtain ⟨hs, out, hm⟩ := ih
    have hctl := exec_ctl hop e
    obtain ⟨r, k', out', e', hm', -⟩ := hm.exec hs hc.1 hc.2 fun hx => by
      rw [hx] at hctl
      exact hctl.currentTask_ne_zero
    cases e.symm.trans e'
    exact ⟨hctl.sched hs hm.entry hc.1, out', hm'⟩

/-- **THE SCHEDULER**: in every state of every run of thread creations, yields and exits, one task
    runs, task 0 is live, a yield selects a runnable task and an exit finds one, at most one zombie
    waits, and each used slot holds a stack of its own. The next step returns, and frees the stacks
    of the zombies that do not run. -/
theorem scheduler_ok {m : Mem} {p : Pmm} {mm : Mm} (hv : vmmInit m p 0x1000000 = .ok mm)
    {bm : BootModule} {tr esp0 : Nat} {ops : List Op}
    (h : KRun ThreadStep (schedInit mm bm tr esp0) ops k) :
    SchedOk k ∧ ∀ op : Op, op.OfThread → op.Legal k.toCtl → (op = .create → Addressable k.mm.pmm) →
      (op = .threadExit → k.currentTask ≠ 0) →
      ∃ r k', k.exec op = .ok (r, k') ∧ StackStep k op k' := by
  obtain ⟨hl, hp⟩ := vmmInit_heap hv
  obtain ⟨hs, out, hm⟩ := threads_run hl hp h
  refine ⟨hs.schedOk hm, fun op hop _ ha h0 => ?_⟩
  obtain ⟨r, k', _, e, -, hstep⟩ := hm.exec hs hop ha h0
  exact ⟨r, k', e, hstep⟩

end

/-- The small machine creates a thread. -/
theorem scheduler_ok_create : ∃ mm k, vmmInit lowMem
      (lowPmm lowMem) 0x1000000 = .ok mm ∧
    KRun ThreadStep (schedInit mm ⟨0, 0⟩ 0 0) [.create] k ∧ SchedOk k := by
  obtain ⟨mm, hb, -, hmax⟩ := booted_lowMem
  have ha : Addressable mm.pmm := addressable_of_maxPage (by rw [hmax]; decide)
  have h0 : KRun ThreadStep (schedInit mm ⟨0, 0⟩ 0 0) [] (schedInit mm ⟨0, 0⟩ 0 0) := .boot
  obtain ⟨r, k, e, -⟩ := (scheduler_ok hb.vmmInit h0).2 .create trivial rfl (fun _ => ha) nofun
  have h1 : KRun ThreadStep (schedInit mm ⟨0, 0⟩ 0 0) ([] ++ [.create]) k :=
    .step h0 rfl ⟨trivial, fun _ => ha⟩ e
  exact ⟨mm, k, hb.vmmInit, h1, (scheduler_ok hb.vmmInit h1).1⟩

/-! ## 5. RAM above 4 GiB -/

/-- RAM for the kernel, a bitmap of `0x20027` bytes, and six pages more. -/
def sixPagesRam : MmapEntry := ⟨20, 0x100000, 0x37000, 1⟩

/-- One page of RAM, 4 GiB above the last of the six. -/
def aliasRam : MmapEntry := ⟨20, 0x100136000, 0x1000, 1⟩

def aliasMem : Mem := wrEntry (wrEntry (fun _ => 0) 0x9000 sixPagesRam) 0x9018 aliasRam

def aliasPmm : Pmm :=
  pmmSetup aliasMem smallImage [sixPagesRam, aliasRam] [sixPagesRam, aliasRam] 0x110000

theorem pmmInit_aliasMem : pmmInit aliasMem smallImage (mapInfo 2) = .ok aliasPmm :=
  pmmInit_clear (by decide +kernel) (by decide +kernel) (by decide +kernel) (by decide)
    (by decide +kernel) (by decide) (by decide) (by decide) (by decide +kernel)

theorem aliasPmm_maxPage : aliasPmm.maxPage = 0x100137 := by
  unfold aliasPmm
  rw [(pmmSetup_geometry _ _ _ _ _).1]
  decide

/-- The six pages are free, and one more. -/
theorem aliasPmm_isSet {r : Nat} (hr : r < 0x100137) :
    aliasPmm.isSet r ↔ ¬ (0x131 ≤ r ∧ r < 0x137) ∧ r ≠ 0x100136 := by
  have hmax : findMaxPage [sixPagesRam, aliasRam] = 0x100137 := by decide
  have hbytes : bitmapBytesFor 0x100137 = 0x20027 := by decide
  have hlow : clearRange 0x100137 sixPagesRam = (0x100, 0x137) := by decide
  have hhigh : clearRange 0x100137 aliasRam = (0x100136, 0x100137) := by decide
  have hu : Usable 0x100137 [sixPagesRam, aliasRam] r ↔ (0x100 ≤ r ∧ r < 0x137) ∨ r = 0x100136 := by
    unfold Usable
    simp only [List.mem_cons, List.not_mem_nil, or_false, exists_eq_or_imp, exists_eq_left, hlow,
      hhigh]
    omega
  unfold aliasPmm
  rw [pmmSetup_isSet _ _ _ _ (by decide), hmax, hbytes, hu]
  unfold Reserved FilledSet
  rw [show smallImage.physicalStart = 0x100000 from rfl,
    show smallImage.physicalEnd = 0x110000 from rfl]
  omega

/-- The pages of `aliasPmm` below the window of the alias. -/
theorem aliasPmm_freeUpTo : FreeUpTo aliasPmm 0x131 0x137 where
  pos := by decide
  low := by decide
  max := by
    rw [aliasPmm_maxPage]
    decide
  set r _ h2 := by
    rw [aliasPmm_isSet (by omega)]
    omega

/-- With the six pages taken, the next page is the one above 4 GiB, and its address is cut to
    that of the last of the six. -/
theorem alloc_alias {p : Pmm} (h : FreeUpTo p 0x137 0x137) (ha : SameAbove 0x137 aliasPmm p) :
    (pmmAllocPage p).1 = 0x136000 := by
  have hmax : p.maxPage = 0x100137 := ha.maxPage.trans aliasPmm_maxPage
  have hclear : ¬ p.isSet 0x100136 := by
    rw [ha.set _ (by decide), aliasPmm_isSet (by decide)]
    decide
  rcases pmmAllocPage_cases p with ⟨hall, -⟩ | ⟨i, hi, e⟩
  · exact absurd (hall 0x100136 (by decide) (by rw [hmax]; decide)) hclear
  · have hle := hi.le (by decide) hclear
    have hge : i = 0x100136 := by
      by_contra hne
      refine hi.2.2.1 ?_
      by_cases hlt : i < 0x137
      · exact (h.set i hi.1 hlt).mpr hlt
      · rw [ha.set i (by omega), aliasPmm_isSet (by omega)]
        omega
    rw [e, hge]
    exact (by decide : 0x100136 * 4096 % 2 ^ 32 = 0x136000)

/-- `kthread_create` when all goes well. -/
theorem kthreadCreate_of {k : Kernel} {i : Fin 16} {p : Nat} {s' : Mm} {m : Mem} (e : Entry)
    (hz : ∀ t, (k.tasks t).state ≠ .zombie) (hi : k.freeSlot = some i)
    (hk : kmalloc k.mm 2048 = .ok (p, s')) (hp : p ≠ 0)
    (hm : schedPrepareKthreadStack s'.mem p k.kthreadTrampoline = .ok m) :
    kthreadCreate k (some e) = .ok (toInt32 k.nextTaskId,
      { k with mm := { s' with mem := m }, nextTaskId := (k.nextTaskId + 1) % 2 ^ 32,
               tasks := Function.update k.tasks i
                 ⟨k.nextTaskId, .runnable, s'.kernelPageDirectory, p, some e, .start⟩ }) := by
  unfold kthreadCreate
  simp only [reapZombies_none fun t _ _ => hz t, ok_bind, hi, hk, if_neg hp, hm]
  rfl

theorem freeSlot_one {c : Ctl} (h : (c.tasks 1).state = .unused) : c.freeSlot = some 1 := by
  unfold Ctl.freeSlot
  rw [show slots = 1 :: slots.tail from rfl, List.find?_cons_of_pos (by simpa using h)]

theorem freeSlot_two {c : Ctl} (h1 : (c.tasks 1).state ≠ .unused)
    (h2 : (c.tasks 2).state = .unused) : c.freeSlot = some 2 := by
  unfold Ctl.freeSlot
  rw [show slots = 1 :: 2 :: slots.tail.tail from rfl, List.find?_cons_of_neg (by simpa using h1),
    List.find?_cons_of_pos (by simpa using h2)]

/-- A page cut for a stack. -/
theorem splitBlock_stack (f : Nat) : splitBlock (pageBlock f) 2048 2048 =
    [⟨f, 2048, some 2048⟩] ++ [⟨f + 2060, 2024, none⟩] := by
  have hsize : (pageBlock f).size = 4084 := rfl
  unfold splitBlock
  rw [hsize, if_pos (by decide), show (pageBlock f).addr = f from rfl]
  simp [Nat.add_assoc]

/-- A page allocator that gives the heap one page twice gives two threads one stack. -/
theorem create_twice {k : Kernel} {f : Nat} {p₁ p₂ : Pmm} (hz : ∀ t, (k.tasks t).state ≠ .zombie)
    (hu : ∀ t, t ≠ 0 → (k.tasks t).state = .unused) (hl : k.mm.list = 0)
    (e₁ : pmmAllocPage k.mm.pmm = (f, p₁)) (e₂ : pmmAllocPage p₁ = (f, p₂)) (h0 : f ≠ 0)
    (hlt : f < 0x1000000) :
    ∃ r₁ k₁ r₂ k₂, kthreadCreate k (some .thread) = .ok (r₁, k₁) ∧
      kthreadCreate k₁ (some .thread) = .ok (r₂, k₂) ∧ k₁.currentTask = k.currentTask ∧
      k₁.tasks 0 = k.tasks 0 ∧ stackOf k₂.tasks 1 = stackOf k₂.tasks 2 ∧
      stackOf k₂.tasks 1 ≠ none := by
  have hal := pmmAllocPage_aligned k.mm.pmm
  rw [e₁] at hal
  have hsize : alignSize 2048 = some 2048 := by decide
  have hpay : (pageBlock f).payload = 0xC0000000 + f + 12 := rfl
  have hprep := fun m : Mem => @schedPrepareKthreadStack_ok m (pageBlock f).payload
    k.kthreadTrampoline (by omega) (by simp only at hal; omega)
  -- the first thread, and what the heap's list is then
  obtain ⟨m₁, ek₁, hseg⟩ := kmalloc_first hl e₁ h0 hlt hsize (by decide)
  obtain ⟨m₁', em₁, hm₁⟩ := hprep m₁
  have ec₁ := kthreadCreate_of .thread hz (freeSlot_one (hu 1 (by decide))) ek₁
    (payload_ne_zero _) em₁
  rw [splitBlock_stack] at hseg
  have haddr : ∀ b ∈ [(⟨f, 2048, some 2048⟩ : Blk)] ++ [⟨f + 2060, 2024, none⟩],
      (b.addr = f ∨ b.addr = f + 2060) ∧ ¬ b.Serves 2048 := fun b hb => by
    rcases List.mem_cons.mp hb with rfl | hb
    · exact ⟨.inl rfl, fun h => by cases h.1⟩
    · rw [List.mem_singleton.mp hb]
      exact ⟨.inr rfl, fun h => absurd h.2 (by decide : ¬ 2048 ≤ 2024)⟩
  have hseg' := hseg.congr fun b hb x h1 h2 => hm₁ x fun hx => by
    rcases (haddr b hb).1 with h | h <;> omega
  -- the second one
  obtain ⟨m₂, ek₂⟩ := kmalloc_next (s := { k.mm with
      pmm := p₁, heapPages := f :: k.mm.heapPages, list := (pageBlock f).ptr, mem := m₁' }) hseg'
    (fun b hb => by rcases (haddr b hb).1 with h | h <;> simp only at hal <;> omega)
    (by decide : 1 < 2 ^ 32) (fun b hb => (haddr b hb).2) e₂ h0 hlt (.inr (by simp)) hsize (by decide)
  obtain ⟨m₂', em₂, -⟩ := hprep m₂
  refine ⟨_, _, _, _, ec₁, kthreadCreate_of .thread (fun t => ?_) (freeSlot_two ?_ ?_) ek₂
    (payload_ne_zero _) em₂, rfl, ?_, ?_, ?_⟩
  · by_cases ht : t = 1
    · subst ht
      dsimp only
      rw [Function.update_self]
      exact nofun
    · dsimp only
      rw [Function.update_of_ne ht]
      exact hz t
  · dsimp only
    rw [Function.update_self]
    exact nofun
  · dsimp only
    rw [Function.update_of_ne (by decide)]
    exact hu 2 (by decide)
  · dsimp only
    rw [Function.update_of_ne (by decide)]
  · dsimp only
    rw [stackOf_update_of_ne _ (by decide), stackOf_update_self (by decide) (by nofun),
      stackOf_update_self (by decide) (by nofun)]
  · dsimp only
    rw [stackOf_update_of_ne _ (by decide), stackOf_update_self (by decide) (by nofun)]
    exact nofun

/-- **With RAM above 4 GiB two threads may share a stack.** Six pages are free below 4 GiB; the
    kernel's tables take five and the first stack the sixth. The page allocator then hands out the
    page above 4 GiB at the address of the sixth, and the second thread gets the first one's
    stack. -/
theorem stacks_shared :
    ¬ ∀ (m : Mem) (img : KernelImage) (mbi : MultibootInfo) (p0 : Pmm) (mm : Mm) (bm : BootModule)
      (tr esp0 : Nat) (ops : List Op) (k : Kernel), pmmInit m img mbi = .ok p0 →
      vmmInit m p0 0x1000000 = .ok mm →
      KRun (fun _ op _ => op.OfThread) (schedInit mm bm tr esp0) ops k → SchedOk k := by
  intro hall
  obtain ⟨mm, hv, hfree, habove⟩ := vmmInit_freeUpTo aliasMem aliasPmm_freeUpTo (by decide)
    (by decide)
  obtain ⟨e, hfree', habove'⟩ := hfree.alloc (by decide)
  have e' := alloc_alias hfree' (habove.trans habove')
  have hother : ∀ t, t ≠ 0 → (schedInit mm ⟨0, 0⟩ 0 0).tasks t = Task.empty := fun t ht => if_neg ht
  have hz : ∀ t, ((schedInit mm ⟨0, 0⟩ 0 0).tasks t).state ≠ .zombie := fun t => by
    by_cases ht : t = 0
    · rw [ht]
      exact nofun
    · rw [hother t ht]
      exact nofun
  obtain ⟨r₁, k₁, r₂, k₂, e₁, e₂, hcur, hzero, hshare, hsome⟩ :=
    create_twice hz (fun t ht => congrArg Task.state (hother t ht)) (vmmInit_heap hv).1 e
      (Prod.ext e' rfl) (by decide) (by decide)
  have hrun : KRun (fun _ op _ => op.OfThread) (schedInit mm ⟨0, 0⟩ 0 0)
      ([] ++ [.create] ++ [.create]) k₂ := by
    refine .step (.step .boot rfl trivial (bind_ok.mpr ⟨_, e₁, rfl⟩)) ?_ trivial
      (bind_ok.mpr ⟨_, e₂, rfl⟩)
    show (k₁.tasks k₁.currentTask).cont = .kernel
    rw [hcur]
    exact (congrArg Task.cont hzero).trans rfl
  obtain ⟨out, -, hown⟩ := (hall _ _ _ _ _ _ _ _ _ _ pmmInit_aliasMem hv hrun).owned
  obtain ⟨p, hp⟩ := Option.ne_none_iff_exists'.mp hsome
  exact absurd (hown.own.inj hp (hshare ▸ hp)) (by decide)

end Emyx
