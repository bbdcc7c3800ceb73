/-
  File:      Emyx/Kernel/Spawn.lean
  Subject:   A SPAWN THAT FAILS: what `user_spawn` leaves when it returns -1.

  By then it may have filled a record, created a directory, reaped zombies and asked for a stack.
  The reaper runs with the new directory in place, so the call is compared with the reaper alone:
  two memories that differ by one empty directory stay so under everything the reaper does.

  * `PageApart`, `DirApart` -- two page allocators, two memories, one page apart;
  * `reap_apart` -- the reaper on both;
  * **`spawnMeets_iff`** -- a failed spawn leaves no trace, exactly if no page was taken with the
    counter of free pages at zero.
-/
import Emyx.Heap.Answer
import Emyx.Kernel.Calls
import Emyx.Kernel.Runs
import Emyx.Kernel.Threads
import Emyx.Lookup

namespace Emyx

open Lib

/-! ## 1. Two page allocators, one page apart -/

/-- The bits are the bitmap. -/
theorem Pmm.bitmap_ext {p p' : Pmm} (h : ∀ r, p'.isSet r ↔ p.isSet r) : p'.bitmap = p.bitmap := by
  funext b
  apply BitVec.eq_of_getLsbD_eq
  intro j hj
  have hbit := h (8 * b + j)
  rw [Pmm.isSet_iff, Pmm.isSet_iff, show (8 * b + j) / 8 = b by omega,
    show (8 * b + j) % 8 = j by omega] at hbit
  exact Bool.eq_iff_iff.mpr hbit

/-- In `p'` the page `q` is taken as well, and the counter is `n` behind. -/
structure PageApart (q n : Nat) (p p' : Pmm) : Prop where
  max : p'.maxPage = p.maxPage
  clear : ¬ p.isSet q
  set : ∀ r, p'.isSet r ↔ r = q ∨ p.isSet r
  count : p.freePages = (p'.freePages + n) % 2 ^ 32

section

variable {q n f : Nat} {p p' : Pmm}

theorem pmmFreePage_of {p : Pmm} {f : Nat} (h0 : f / 4096 ≠ 0) (hlt : f / 4096 < p.maxPage)
    (hs : p.isSet (f / 4096)) :
    pmmFreePage p f = { bitmapClear p (f / 4096) with freePages := (p.freePages + 1) % 2 ^ 32 } := by
  unfold pmmFreePage
  rw [show f >>> 12 = f / 4096 from Nat.shiftRight_eq_div_pow f 12]
  exact if_pos ⟨h0, hlt, hs⟩

theorem pmmFreePage_ignored {p : Pmm} {f : Nat}
    (h : ¬ (f / 4096 ≠ 0 ∧ f / 4096 < p.maxPage ∧ p.isSet (f / 4096))) : pmmFreePage p f = p := by
  unfold pmmFreePage
  rw [show f >>> 12 = f / 4096 from Nat.shiftRight_eq_div_pow f 12]
  exact if_neg h

/-- Taking a page. -/
theorem pageApart_take (hc : ¬ p.isSet q) (hlt : p.freePages < 2 ^ 32) :
    PageApart q (if p.freePages = 0 then 0 else 1) p (takePage p q) := by
  refine ⟨rfl, hc, takePage_isSet p q, ?_⟩
  unfold takePage
  split <;> simp only <;> split <;> omega

/-- Giving back another page. -/
theorem PageApart.free (h : PageApart q n p p') (hf : f / 4096 ≠ q) :
    PageApart q n (pmmFreePage p f) (pmmFreePage p' f) := by
  have hset : p'.isSet (f / 4096) ↔ p.isSet (f / 4096) := by
    rw [h.set]
    exact or_iff_right hf
  by_cases hc : f / 4096 ≠ 0 ∧ f / 4096 < p.maxPage ∧ p.isSet (f / 4096)
  · obtain ⟨h0, hlt, hs⟩ := hc
    rw [pmmFreePage_of h0 hlt hs, pmmFreePage_of h0 (h.max ▸ hlt) (hset.mpr hs)]
    have hcount := h.count
    refine ⟨h.max, fun hc => h.clear ?_, fun r => ?_, ?_⟩
    · exact ((isSet_bitmapClear p (f / 4096) q).mp hc).2
    · refine (isSet_bitmapClear p' (f / 4096) r).trans ?_
      rw [h.set]
      refine Iff.trans ?_ (or_congr_right (isSet_bitmapClear p (f / 4096) r)).symm
      constructor
      · rintro ⟨hr, hq | hs⟩
        · exact .inl hq
        · exact .inr ⟨hr, hs⟩
      · rintro (hq | ⟨hr, hs⟩)
        · exact ⟨fun e => hf (e.symm.trans hq), .inl hq⟩
        · exact ⟨hr, .inr hs⟩
    · show (p.freePages + 1) % 2 ^ 32 = ((p'.freePages + 1) % 2 ^ 32 + n) % 2 ^ 32
      omega
  · have hc' : ¬ (f / 4096 ≠ 0 ∧ f / 4096 < p'.maxPage ∧ p'.isSet (f / 4096)) := by
      rw [hset, h.max]
      exact hc
    rw [pmmFreePage_ignored hc, pmmFreePage_ignored hc']
    exact h

theorem PageApart.freeList {l : List Nat} (h : PageApart q n p p') (hl : ∀ f ∈ l, f / 4096 ≠ q) :
    PageApart q n (l.foldl pmmFreePage p) (l.foldl pmmFreePage p') := by
  induction l generalizing p p' with
  | nil => exact h
  | cons f l ih =>
    exact ih (h.free (hl f List.mem_cons_self)) fun g hg => hl g (List.mem_cons_of_mem _ hg)

/-- Giving back that page: the bitmaps are the same, and the counter goes up. -/
theorem PageApart.close (h : PageApart (f / 4096) n p p') (h0 : f / 4096 ≠ 0)
    (hlt : f / 4096 < p.maxPage) (m : Nat) :
    (pmmFreePage { p' with freePages := m } f).bitmap = p.bitmap ∧
      (pmmFreePage { p' with freePages := m } f).freePages = (m + 1) % 2 ^ 32 := by
  have hs : Pmm.isSet { p' with freePages := m } (f / 4096) := (h.set _).mpr (.inl rfl)
  rw [pmmFreePage_of h0 (h.max ▸ hlt) hs]
  refine ⟨Pmm.bitmap_ext fun r => ?_, rfl⟩
  refine (isSet_bitmapClear p' (f / 4096) r).trans ?_
  rw [h.set]
  constructor
  · rintro ⟨hr, hs⟩
    exact hs.resolve_left hr
  · exact fun hs => ⟨fun e => h.clear (e ▸ hs), .inr hs⟩

end

/-! ## 2. Two memories, one directory apart -/

/-- `s'` has one more address space, at `d`, with an empty user half. -/
structure DirApart (d n : Nat) (s s' : Mm) : Prop where
  pmm : PageApart (d / 4096) n s.pmm s'.pmm
  kernel : s'.kernelPageDirectory = s.kernelPageDirectory
  spaces : s'.spaces = d :: s.spaces
  heapPages : s'.heapPages = s.heapPages
  empty : ∀ i, i < 768 → tableOf s'.mem d i = none
  mem : ∀ x, ¬ InPage d x → ¬ InPages s.heapPages x → s'.mem x = s.mem x

section

variable {p0 : Pmm} {s0 s s' : Mm} {ps : Fin 16 → UserProcess} {bs : List Blk} {d n : Nat}

/-- What `s` holds outside the heap is the same in both. -/
theorem DirApart.samePage (ha : DirApart d n s s') (h : MmInv p0 s0 ps bs s)
    (h' : MmInv p0 s0 ps bs s') {r : Role Client} {g : Nat}
    (hr : frameOf s (heldBy s.heapPages ps) r = some g) (hheap : ∀ f, r ≠ .client (.heap f)) :
    SamePage s.mem s'.mem g := fun x hx => by
  have hd : frameOf s' (heldBy s'.heapPages ps) (.dir d) = some d :=
    frameOf_dir (.inr (by rw [ha.spaces]; exact List.mem_cons_self))
  have hgal := h.vm.own.mem hr
  refine ha.mem x (not_inPage (h'.vm.aligned hd) (h.vm.aligned hr) ?_ hx) ?_
  · -- the page of `d` is free in `s`
    rintro rfl
    obtain ⟨page, hp, -, -, -, hset, -⟩ := hgal
    refine ha.pmm.clear ?_
    rw [hp, Nat.mul_div_cancel _ (by decide)]
    exact hset
  · rintro ⟨f, hf, hin⟩
    have hfr : frameOf s (heldBy s.heapPages ps) (.client (.heap f)) = some f := frameOf_heap hf
    exact not_inPage (h.vm.aligned hfr) (h.vm.aligned hr)
      (fun e => hheap f (h.vm.own.inj hr (e ▸ hfr))) hx hin

/-- **Another address space is destroyed** in both. -/
theorem DirApart.destroy (ha : DirApart d n s s') (h : MmInv p0 s0 ps bs s)
    (h' : MmInv p0 s0 ps bs s') {d' : Nat} (hd : d' ∈ s.spaces)
    (hp : ∀ i, (ps i).pages ≠ [] → (ps i).addressSpace ≠ d') :
    ∃ s₁ s₁', vmmDestroyAddressSpace s d' = .ok s₁ ∧ vmmDestroyAddressSpace s' d' = .ok s₁' ∧
      MmInv p0 s0 ps bs s₁' ∧ DirApart d n s₁ s₁' := by
  have hd' : d' ∈ s'.spaces := by
    rw [ha.spaces]
    exact List.mem_cons_of_mem _ hd
  have hne : d ≠ d' := by
    rintro rfl
    have := h'.spaces_nodup
    rw [ha.spaces] at this
    exact (List.nodup_cons.mp this).1 hd
  have hdir : IsDir s d' := .inr hd
  have hsame := ha.samePage h h' (frameOf_dir hdir) nofun
  obtain ⟨p₁, hp₁, e, -⟩ := h.destroy hd hp
  obtain ⟨p₁', hp₁', e', hmm⟩ := h'.destroy hd' hp
  refine ⟨_, _, e, e', hmm, ?_, ha.kernel, ?_, ha.heapPages, ha.empty, ha.mem⟩
  · show PageApart (d / 4096) n p₁ p₁'
    rw [← hp₁, ← hp₁', ownFrames_congr hsame]
    refine ha.pmm.freeList fun f hf hq => ?_
    obtain ⟨page, hp, -, -, -, hset, -⟩ := h.vm.ownFrames_role hdir hf
    refine ha.pmm.clear ?_
    rw [← hq, hp, Nat.mul_div_cancel _ (by decide)]
    exact hset
  · dsimp only
    rw [ha.spaces, List.erase_cons_tail (by simpa using hne)]

/-- **An allocation is freed** in both, with the same blocks left. -/
theorem DirApart.kfree (ha : DirApart d n s s') (h : MmInv p0 s0 ps bs s)
    (h' : MmInv p0 s0 ps bs s') {a : Nat × Nat} (hal : a ∈ allocs bs) :
    ∃ m m' bs₁, kfree s a.1 = .ok { s with mem := m } ∧ Released s bs a m bs₁ ∧
      kfree s' a.1 = .ok { s' with mem := m' } ∧ MmInv p0 s0 ps bs₁ { s' with mem := m' } ∧
      DirApart d n { s with mem := m } { s' with mem := m' } := by
  obtain ⟨b, hbm, hreq, hpay⟩ := mem_allocs.mp hal
  obtain ⟨pre, post, rfl⟩ := List.append_of_mem hbm
  obtain ⟨m, e, hr⟩ := kfree_on h.heap hreq
  obtain ⟨m', e', hr'⟩ := kfree_on h'.heap hreq
  rw [hpay] at e hr e' hr'
  refine ⟨m, m', _, e, hr, e', ?_, ha.pmm, ha.kernel, ha.spaces, ha.heapPages, fun i hi => ?_,
    fun x hx hx' => ?_⟩
  · exact h'.of_clients (fun x hx => hr'.heapOnly x (not_inPages hx)) hr'.inv
  · -- the directory is no page of the heap
    refine (tableOf_congr (dirWord_congr (fun x hx => hr'.heapOnly x ?_) (by omega))).trans
      (ha.empty i hi)
    have hd : frameOf s' (heldBy s'.heapPages ps) (.dir d) = some d :=
      frameOf_dir (.inr (by rw [ha.spaces]; exact List.mem_cons_self))
    rintro ⟨f, hf, hin⟩
    have hfr : frameOf s' (heldBy s'.heapPages ps) (.client (.heap f)) = some f := frameOf_heap hf
    exact not_inPage (h'.vm.aligned hfr) (h'.vm.aligned hd)
      (h'.vm.frame_ne hfr hd nofun) hx hin
  · rw [← ha.heapPages] at hx'
    exact (hr'.heapOnly x hx').trans ((ha.mem x hx (ha.heapPages ▸ hx')).trans
      (hr.heapOnly x (ha.heapPages ▸ hx')).symm)

end

/-! ## 3. The reaper on both -/

/-- The reaper has come from `k₀` to `k` and, with the directory `d` in place, from `k₀'` to `k'`:
    nothing was reaped, or there is room for a stack. -/
structure Reaping (p0 : Pmm) (s0 : Mm) (d n : Nat) (k₀ k₀' k k' : Kernel) : Prop where
  inv : ∃ bs, Owned p0 s0 k.toCtl bs k.mm ∧ MmInv p0 s0 k.processes bs k'.mm ∧
    (k = k₀ ∧ k' = k₀' ∨ ∃ b ∈ bs, b.Serves 2048)
  apart : DirApart d n k.mm k'.mm
  same : k' = { k with mm := k'.mm, processes := k'.processes, nextPid := k'.nextPid }

section

variable {p0 : Pmm} {s0 : Mm} {d n : Nat} {k₀ k₀' k k' : Kernel}

/-- One zombie. -/
theorem Reaping.cleanup (h : Reaping p0 s0 d n k₀ k₀' k k') {i : Fin 16} (hi : i ≠ 0)
    (hz : (k.tasks i).state = .zombie) :
    ∃ k₁ k₁', taskCleanup k i = .ok k₁ ∧ taskCleanup k' i = .ok k₁' ∧
      Reaping p0 s0 d n k₀ k₀' k₁ k₁' := by
  obtain ⟨bs, ho, hmm', -⟩ := h.inv
  have hsame := h.same
  generalize hs' : k'.mm = s', hps : k'.processes = ps', hn : k'.nextPid = n' at hsame hmm'
  have ha := h.apart
  rw [hs'] at ha
  subst hsame
  obtain ⟨s₁, e₁, hmm₁, hown₁⟩ := ho.cleanup_space hz
  -- the directory
  have hdir : ∃ s₁', (if (k.tasks i).addressSpace ≠ 0 ∧
        (k.tasks i).addressSpace ≠ s'.kernelPageDirectory then
        vmmDestroyAddressSpace s' (k.tasks i).addressSpace else .ok s') = .ok s₁' ∧
      MmInv p0 s0 k.processes bs s₁' ∧ DirApart d n s₁ s₁' := by
    rw [ha.kernel]
    by_cases hk : (k.tasks i).addressSpace = k.mm.kernelPageDirectory
    · rw [if_neg fun hc => hc.2 hk] at e₁ ⊢
      cases e₁
      exact ⟨s', rfl, hmm', ha⟩
    · obtain ⟨hsp, halone⟩ := ho.zombie_space hz hk
      rw [if_pos ⟨ho.mm.space_pos hsp, hk⟩] at e₁ ⊢
      obtain ⟨s₂, s₂', e₂, e₂', hmm₂, ha₂⟩ := ha.destroy ho.mm hmm' hsp halone
      cases e₂.symm.trans e₁
      exact ⟨s₂', e₂', hmm₂, ha₂⟩
  obtain ⟨s₁', e₁', hmm₁', ha₁⟩ := hdir
  -- the stack
  have hstack := ho.owned.mem hi (by rw [hz]; nofun)
  have hne : (k.tasks i).stack ≠ 0 := fun h0 => by
    have := (ho.mm.heap.alloc_bounds hstack).1
    rw [h0] at this
    cases this
  obtain ⟨m, m', bs₁, e₂, hrel, e₂', hmm₂', ha₂⟩ := ha₁.kfree hmm₁ hmm₁' hstack
  obtain ⟨e, ho'⟩ := ho.cleanup_stack hi hz e₁ hmm₁ hown₁ e₂ hrel
  exact ⟨_, _, e, bind_ok.mpr ⟨s₁', e₁', bind_ok.mpr ⟨_, (if_pos hne).trans e₂', rfl⟩⟩,
    ⟨bs₁, ho', hmm₂', .inr hrel.room⟩, ha₂, rfl⟩

/-- **The whole reaper.** -/
theorem reap_apart (h : Reaping p0 s0 d n k₀ k₀' k₀ k₀') :
    ∃ k k', reapZombies k₀ = .ok k ∧ reapZombies k₀' = .ok k' ∧
      Reaping p0 s0 d n k₀ k₀' k k' := by
  refine foldlM_related (fun k k' i hi hk => ?_) h
  have htasks : k'.tasks = k.tasks := by rw [hk.same]
  have hcur : k'.currentTask = k.currentTask := by rw [hk.same]
  rw [htasks, hcur]
  by_cases hz : i = k.currentTask ∨ (k.tasks i).state ≠ .zombie
  · exact ⟨k, k', if_pos hz, if_pos hz, hk⟩
  · rw [if_neg hz, if_neg hz]
    rw [not_or, not_not] at hz
    exact hk.cleanup ((mem_slots i).mp hi) hz.2

end

/-! ## 4. A spawn that fails -/

/-- `k'` is `kr` but for the next pid, the counter of free pages, and what lies in the heap's pages
    and in free ones: the heap's blocks are the same. -/
structure Undone (p0 : Pmm) (kr k' : Kernel) : Prop where
  control : k' = { kr with mm := k'.mm, nextPid := k'.nextPid }
  heap : ∃ bs, Seg kr.mm.mem kr.mm.list bs 0 ∧ Seg k'.mm.mem k'.mm.list bs 0
  heapPages : k'.mm.heapPages = kr.mm.heapPages
  bitmap : k'.mm.pmm.bitmap = kr.mm.pmm.bitmap
  kernel : k'.mm.kernelPageDirectory = kr.mm.kernelPageDirectory
  spaces : k'.mm.spaces = kr.mm.spaces
  frames : ∀ f, Allocated p0 kr.mm.pmm f → f ∉ kr.mm.heapPages → SamePage kr.mm.mem k'.mm.mem f

/-- **A failed spawn left no trace**: everything is as before the call, or as the reaper alone
    leaves it. -/
def SpawnMeets (p0 : Pmm) (k k' : Kernel) : Prop :=
  ∃ kr, (kr = k ∨ reapZombies k = .ok kr) ∧ Undone p0 kr k' ∧
    k'.mm.pmm.freePages = kr.mm.pmm.freePages

/-- The call comes to its first allocation. -/
def SpawnAllocates (k : Kernel) (path : Option (List Byte)) : Prop :=
  ∃ name, path = some name ∧ name.length ≠ 0 ∧ name.length < 32 ∧
    (∃ file, initramfsFind k.mm.mem k.bootModule name = .ok (some file)) ∧
    userProcessAlloc k.processes ≠ none

/-- A page is taken with the counter of free pages at zero: for the directory; or the directory
    takes the last page that is counted, and the stack is to come from a page beyond the direct
    map. -/
def TakesUncounted (k : Kernel) : Prop :=
  ∃ i, FirstClear k.mm.pmm i ∧ (k.mm.pmm.freePages = 0 ∨
    k.mm.pmm.freePages = 1 ∧ i * 4096 < 0x1000000 ∧ (∀ t, (k.tasks t).state ≠ .zombie) ∧
      k.freeSlot ≠ none ∧ (∃ bs, Seg k.mm.mem k.mm.list bs 0 ∧ ∀ b ∈ bs, ¬ b.Serves 2048) ∧
      ∃ j, FirstClear (takePage k.mm.pmm i) j ∧ 0x1000000 ≤ j * 4096)

section

variable {p0 : Pmm} {s0 : Mm} {k k' kr : Kernel}

/-- With a task that runs, the reaper that changes no task does nothing. -/
theorem no_zombie_of_reap (hinv : k.toCtl.Inv) (hr : k.toCtl.Runs) (ht : k.reap.tasks = k.tasks)
    (t : Fin 16) : (k.tasks t).state ≠ .zombie := fun hz => by
  have hcur : t ≠ k.currentTask := by
    rintro rfl
    exact Task.not_live hz hr.live
  have h0 : t ≠ 0 := by
    rintro rfl
    exact Task.not_live hz hinv.zero.1
  have he : k.reap.tasks t = Task.empty := if_pos ⟨h0, hcur, hz⟩
  rw [ht] at he
  rw [he] at hz
  cases hz

theorem reapZombies_same (hinv : k.toCtl.Inv) (hr : k.toCtl.Runs) (e : reapZombies k = .ok kr)
    (ht : kr.tasks = k.tasks) : kr = k := by
  have hk := reapZombies_ctl e
  have htasks : k.reap.tasks = k.tasks := by
    rw [hk] at ht
    exact ht
  have he := reapZombies_none fun t _ _ => no_zombie_of_reap hinv hr htasks t
  cases he.symm.trans e
  rfl

/-- What the call is compared with is determined. -/
theorem Undone.unique {kr₁ kr₂ : Kernel} (hinv : k.toCtl.Inv) (hr : k.toCtl.Runs)
    (h₁ : kr₁ = k ∨ reapZombies k = .ok kr₁) (h₂ : kr₂ = k ∨ reapZombies k = .ok kr₂)
    (hu₁ : Undone p0 kr₁ k') (hu₂ : Undone p0 kr₂ k') : kr₁ = kr₂ := by
  have htasks : kr₁.tasks = kr₂.tasks := by
    have t₁ : k'.tasks = kr₁.tasks := by rw [hu₁.control]
    have t₂ : k'.tasks = kr₂.tasks := by rw [hu₂.control]
    exact t₁.symm.trans t₂
  rcases h₁ with rfl | e₁ <;> rcases h₂ with rfl | e₂
  · rfl
  · exact (reapZombies_same hinv hr e₂ htasks.symm).symm
  · exact reapZombies_same hinv hr e₁ htasks
  · cases e₁.symm.trans e₂
    rfl

end

section

variable {p0 : Pmm} {s0 : Mm} {k k' : Kernel}

/-- The start of both runs: the directory has been created. -/
theorem reaping_created {bs : List Blk} (ho : Owned p0 s0 k.toCtl bs k.mm)
    (hlt : k.mm.pmm.freePages < 2 ^ 32) {i f : Nat} {m' : Mem} {ps : Fin 16 → UserProcess}
    {pid : Nat} (hi : FirstClear k.mm.pmm i) (hf : f / 4096 = i)
    (hmm : MmInv p0 s0 k.processes bs
      { k.mm with pmm := takePage k.mm.pmm i, mem := m', spaces := f :: k.mm.spaces })
    (hnew : ∀ j, j < 1024 → dirWord m' f j =
      if j < 768 then 0 else dirWord k.mm.mem k.mm.kernelPageDirectory j)
    (hoff : ∀ x, ¬ InPage f x → m' x = k.mm.mem x) {k₁ : Kernel}
    (hk₁ : k₁ = { k with processes := ps, nextPid := pid
                         mm := { k.mm with pmm := takePage k.mm.pmm i, mem := m'
                                           spaces := f :: k.mm.spaces } }) :
    Reaping p0 s0 f (if k.mm.pmm.freePages = 0 then 0 else 1) k k₁ k k₁ := by
  subst hk₁
  refine ⟨⟨bs, ho, hmm, .inl ⟨rfl, rfl⟩⟩, ⟨?_, rfl, rfl, rfl, fun j hj => ?_, fun x hx _ =>
    hoff x hx⟩, rfl⟩
  · rw [hf]
    exact pageApart_take hi.2.2.1 hlt
  · refine if_neg ?_
    rw [hnew j (by omega), if_pos hj]
    decide

end

section

variable {p0 : Pmm} {s0 : Mm} {d n : Nat} {k₀ k₀' k k' : Kernel}

/-- The directory is destroyed again, with the counter at `m`. -/
theorem Reaping.close (h : Reaping p0 s0 d n k₀ k₀' k k') {m : Nat} {bs : List Blk}
    (hmm : MmInv p0 s0 k.processes bs
      { k'.mm with pmm := { k'.mm.pmm with freePages := m } }) :
    ∃ p₂, vmmDestroyAddressSpace { k'.mm with pmm := { k'.mm.pmm with freePages := m } } d =
        .ok { k'.mm with pmm := p₂, spaces := k.mm.spaces } ∧
      p₂.bitmap = k.mm.pmm.bitmap ∧ p₂.freePages = (m + 1) % 2 ^ 32 := by
  obtain ⟨bs₁, ho, -, -⟩ := h.inv
  have ha := h.apart
  have hd : d ∈ k'.mm.spaces := by
    rw [ha.spaces]
    exact List.mem_cons_self
  have hnew : d ∉ k.mm.spaces := by
    have := hmm.spaces_nodup
    rw [show Mm.spaces _ = _ from ha.spaces] at this
    exact (List.nodup_cons.mp this).1
  obtain ⟨p₂, hp₂, e, -⟩ := hmm.destroy hd fun i hi he =>
    hnew (he ▸ (ho.mm.pages i).space hi)
  obtain ⟨page, hpage, h1, h2, -⟩ := hmm.vm.own.mem (frameOf_dir (.inr hd))
  have hdiv : d / 4096 = page := by
    rw [hpage]
    exact Nat.mul_div_cancel _ (by decide)
  have hmax : page < k.mm.pmm.maxPage := by
    rw [ho.mm.vm.pmm.maxPage]
    exact h2
  have hown : ownFrames { k'.mm with pmm := { k'.mm.pmm with freePages := m } } d = [d] :=
    ownFrames_empty ha.empty
  have hclose := ha.pmm.close (by omega) (hdiv ▸ hmax) m
  rw [hown] at hp₂
  refine ⟨p₂, ?_, ?_⟩
  · rw [e]
    show Except.ok { k'.mm with pmm := p₂, spaces := k'.mm.spaces.erase d } = _
    rw [ha.spaces, List.erase_cons_head]
  · rw [← hp₂]
    exact hclose

/-- Then nothing is left of it. -/
theorem Reaping.undone (h : Reaping p0 s0 d n k₀ k₀' k k') {p₂ : Pmm} {pid : Nat}
    (hbits : p₂.bitmap = k.mm.pmm.bitmap) :
    Undone p0 k { k with nextPid := pid, mm := { k'.mm with pmm := p₂, spaces := k.mm.spaces } } := by
  obtain ⟨bs, ho, hmm, -⟩ := h.inv
  have ha := h.apart
  refine ⟨rfl, ⟨bs, ho.mm.heap.seg, hmm.heap.seg⟩, ha.heapPages, hbits, ha.kernel, rfl,
    fun f hf hheap => ?_⟩
  obtain ⟨r, hr⟩ := (ho.mm.vm.own.taken f).mp hf
  refine ha.samePage ho.mm hmm hr ?_
  rintro g rfl
  obtain ⟨hg, e⟩ := Option.ite_none_right_eq_some.mp
    (show (if g ∈ k.mm.heapPages then some g else none) = some f from hr)
  cases e
  exact hheap hg

end

section

variable {p0 : Pmm} {s0 : Mm} {d n : Nat} {k₀ k₀' k k' : Kernel}

/-- The stack is asked for and refused: the counter moved only if the page went uncounted. -/
theorem Reaping.refused (h : Reaping p0 s0 d n k₀ k₀' k k') (hmax : k'.mm.pmm.maxPage ≤ 2 ^ 20)
    (hlt : k'.mm.pmm.freePages < 2 ^ 32) {mm : Mm} (e : kmalloc k'.mm 2048 = .ok (0, mm)) :
    ∃ m bs, mm = { k'.mm with pmm := { k'.mm.pmm with freePages := m } } ∧
      MmInv p0 s0 k.processes bs { k'.mm with pmm := { k'.mm.pmm with freePages := m } } ∧
      (UncountedPage k'.mm 2048 → m = 1) ∧
      (¬ UncountedPage k'.mm 2048 → m = k'.mm.pmm.freePages) := by
  obtain ⟨bs, ho, hmm, -⟩ := h.inv
  obtain ⟨p, s', bs', e', -, hon⟩ := kmalloc_on hmm.heap 2048 hmm.fresh_page
  cases e'.symm.trans e
  obtain ⟨rfl, m, hs', hone, hsame⟩ := hon.null_state hmm.heap.seg hmax hlt rfl
  obtain ⟨p₂, s₂, bs₂, e₂, -, hmm₂⟩ := hmm.kmalloc 2048
  cases e₂.symm.trans e
  rw [hs'] at hmm₂
  exact ⟨m, bs₂, hs', hmm₂, hone, hsame⟩

/-- A page goes uncounted for the stack only if nothing was reaped. -/
theorem Reaping.uncounted (h : Reaping p0 s0 d n k₀ k₀' k k') (hun : UncountedPage k'.mm 2048) :
    k = k₀ ∧ k' = k₀' := by
  obtain ⟨bs, ho, hmm, hsame | ⟨b, hb, hserves⟩⟩ := h.inv
  · exact hsame
  · obtain ⟨-, -, -, ⟨bs', hseg, hnone⟩, -⟩ := hun
    exact absurd hserves (noneServes_congr (seg_unique hseg hmm.heap.seg) hnone b hb)

end

section

variable {p0 : Pmm} {s0 : Mm} {d n : Nat} {k₀ k₀' k k' : Kernel}

/-- `kthread_create` fails with the directory in place: it reaped, and asked for a stack if there
    was a slot. -/
theorem Reaping.createFailed (h : Reaping p0 s0 d n k₀ k₀' k k') (er : reapZombies k₀' = .ok k')
    (hmax : k'.mm.pmm.maxPage ≤ 2 ^ 20) (hlt : k'.mm.pmm.freePages < 2 ^ 32)
    (hid : k'.nextTaskId < 2 ^ 31) {en : Entry} {id : Int} {k₂ : Kernel}
    (e : kthreadCreate k₀' (some en) = .ok (id, k₂)) (hneg : id < 0) :
    ∃ m bs, k₂ = { k' with mm := { k'.mm with pmm := { k'.mm.pmm with freePages := m } } } ∧
      MmInv p0 s0 k.processes bs { k'.mm with pmm := { k'.mm.pmm with freePages := m } } ∧
      (k'.freeSlot ≠ none ∧ UncountedPage k'.mm 2048 → m = 1) ∧
      (¬ (k'.freeSlot ≠ none ∧ UncountedPage k'.mm 2048) → m = k'.mm.pmm.freePages) := by
  obtain ⟨k₁, e₁, e⟩ := bind_ok.mp e
  cases er.symm.trans e₁
  cases hj : k'.freeSlot with
  | none =>
    rw [hj] at e
    cases e
    obtain ⟨bs, -, hmm, -⟩ := h.inv
    exact ⟨k'.mm.pmm.freePages, bs, rfl, hmm, fun hun => absurd rfl hun.1, fun _ => rfl⟩
  | some j =>
    rw [hj] at e
    obtain ⟨⟨stack, mm⟩, e₂, e⟩ := bind_ok.mp e
    dsimp only at e
    split_ifs at e with hs
    · subst hs
      cases e
      obtain ⟨m, bs, rfl, hmm, hone, hsame⟩ := h.refused hmax hlt e₂
      exact ⟨m, bs, rfl, hmm, fun hun => hone hun.2, fun hun => hsame fun hu => hun ⟨nofun, hu⟩⟩
    · obtain ⟨m, -, e⟩ := bind_ok.mp e
      cases e
      have := toInt32_nonneg hid
      omega

/-- When there is no page for the directory, that one is the only one taken. -/
theorem takesUncounted_noDirectory (hmax : k.mm.pmm.maxPage ≤ 2 ^ 20) (hno : NoLowPage k.mm) :
    TakesUncounted k ↔ k.mm.pmm.freePages = 0 ∧ ∃ i, FirstClear k.mm.pmm i := by
  constructor
  · rintro ⟨i, hi, h0 | ⟨-, hlow, -⟩⟩
    · exact ⟨h0, i, hi⟩
    · rcases pmmAllocPage_answer hmax with ⟨-, hfull, -⟩ | ⟨j, hj, hpage, hne⟩
      · exact absurd hfull hi.not_full
      · obtain rfl := hi.unique hj
        rcases hno with hno | hno
        · exact absurd hno hne
        · omega
  · rintro ⟨h0, i, hi⟩
    exact ⟨i, hi, .inl h0⟩

/-- When there is, the stack's may be another. -/
theorem Reaping.takesUncounted (h : Reaping p0 s0 d n k₀ k₀' k k') (hinv : k₀.toCtl.Inv)
    (hr : k₀.toCtl.Runs) (er : reapZombies k₀ = .ok k) (er' : reapZombies k₀' = .ok k') {i : Nat}
    (hi : FirstClear k₀.mm.pmm i) (hlow : i * 4096 < 0x1000000)
    (hpmm : k₀'.mm.pmm = takePage k₀.mm.pmm i) (htasks : k₀'.tasks = k₀.tasks)
    (hheap : ∃ bs, Seg k₀.mm.mem k₀.mm.list bs 0 ∧ Seg k₀'.mm.mem k₀'.mm.list bs 0) :
    TakesUncounted k₀ ↔
      k₀.mm.pmm.freePages = 0 ∨ k'.freeSlot ≠ none ∧ UncountedPage k'.mm 2048 := by
  obtain ⟨bs, hseg, hseg'⟩ := hheap
  have hslot : k₀'.freeSlot = k₀.freeSlot := by
    unfold Ctl.freeSlot
    rw [htasks]
  constructor
  · rintro ⟨i', hi', h0 | ⟨h1, -, hz, hfree, ⟨bs', hs', hnone⟩, j, hj, hge⟩⟩
    · exact .inl h0
    · obtain rfl := hi'.unique hi
      cases (reapZombies_none (by rw [htasks]; exact fun t _ _ => hz t)).symm.trans er'
      refine .inr ⟨by rw [hslot]; exact hfree, ?_, by decide, by decide, ⟨bs, hseg', ?_⟩, j, ?_, hge⟩
      · rw [hpmm]
        simp [takePage, h1]
      · exact noneServes_congr (seg_unique hs' hseg) hnone
      · rw [hpmm]
        exact hj
  · rintro (h0 | ⟨hfree, hun⟩)
    · exact ⟨i, hi, .inl h0⟩
    · by_cases h0 : k₀.mm.pmm.freePages = 0
      · exact ⟨i, hi, .inl h0⟩
      · obtain ⟨rfl, rfl⟩ := h.uncounted hun
        obtain ⟨hcount, -, -, ⟨bs', hs', hnone⟩, j, hj, hge⟩ := hun
        have hk := reapZombies_ctl er
        have hreap : k.reap.tasks = k.tasks := (congrArg (fun k : Kernel => k.tasks) hk).symm
        rw [hpmm] at hcount hj
        refine ⟨i, hi, .inr ⟨?_, hlow, no_zombie_of_reap hinv hr hreap, by rw [← hslot]; exact hfree,
          ⟨bs, hseg, noneServes_congr (seg_unique hs' hseg') hnone⟩, j, hj, hge⟩⟩
        have hcount : (if k.mm.pmm.freePages > 0 then k.mm.pmm.freePages - 1
          else k.mm.pmm.freePages) = 0 := hcount
        split at hcount <;> omega

end

section

variable {p0 : Pmm} {s0 : Mm} {k k' : Kernel}

/-- **A directory, and no task for it**: the directory goes, and what is left is what the reaper
    alone leaves. -/
theorem noTask_undone (h : KernelInv p0 s0 k) {bs : List Blk}
    (ho : Owned p0 s0 k.toCtl bs k.mm) (hcalls : PmmCalls p0 k.mm.pmm)
    (hlow : p0.maxPage ≤ 2 ^ 20) (hfree : p0.freePages < 2 ^ 32) (hid : k.nextTaskId < 2 ^ 31)
    {q : Nat} {m' : Mem} {ps : Fin 16 → UserProcess} {pid : Nat} (hq : FirstClear k.mm.pmm q)
    (hmm : MmInv p0 s0 k.processes bs
      { k.mm with pmm := takePage k.mm.pmm q, mem := m', spaces := q * 4096 :: k.mm.spaces })
    (hnew : ∀ j, j < 1024 → dirWord m' (q * 4096) j =
      if j < 768 then 0 else dirWord k.mm.mem k.mm.kernelPageDirectory j)
    (hoff : ∀ x, ¬ InPage (q * 4096) x → m' x = k.mm.mem x) {k₁ k₂ : Kernel}
    (hk₁ : k₁ = { k with processes := ps, nextPid := pid
                         mm := { k.mm with pmm := takePage k.mm.pmm q, mem := m'
                                           spaces := q * 4096 :: k.mm.spaces } })
    (hcalls₁ : PmmCalls p0 k₁.mm.pmm) {en : Entry} {id : Int}
    (e : kthreadCreate k₁ (some en) = .ok (id, k₂)) (hneg : id < 0) :
    ∃ kr p₂, reapZombies k = .ok kr ∧ k₂ = { kr with processes := ps, nextPid := pid, mm := k₂.mm } ∧
      vmmDestroyAddressSpace k₂.mm (q * 4096) =
        .ok { k₂.mm with pmm := p₂, spaces := kr.mm.spaces } ∧
      Undone p0 kr { kr with nextPid := pid
                             mm := { k₂.mm with pmm := p₂, spaces := kr.mm.spaces } } ∧
      (p₂.freePages = kr.mm.pmm.freePages ↔ ¬ TakesUncounted k) := by
  have hlt := hcalls.free_lt hfree
  have hstart := reaping_created ho hlt hq (Nat.mul_div_cancel q (by decide)) hmm hnew hoff hk₁
  obtain ⟨kr, kr', er, er', hR⟩ := reap_apart hstart
  have hcalls' := reapZombies_calls hcalls₁ er'
  have hmax' : kr'.mm.pmm.maxPage ≤ 2 ^ 20 := by
    rw [hcalls'.maxPage]
    exact hlow
  have hctl' := reapZombies_ctl er'
  have hid' : kr'.nextTaskId < 2 ^ 31 := by
    rw [hctl', hk₁]
    exact hid
  obtain ⟨c, bs₂, rfl, hmm₂, hone, hsame⟩ :=
    hR.createFailed er' hmax' (hcalls'.free_lt hfree) hid' e hneg
  obtain ⟨p₂, ed, hbits, hcount⟩ := hR.close hmm₂
  have hlim := hmm.vm.dirLimit (q * 4096) (.inr List.mem_cons_self)
  have htakes := hR.takesUncounted h.inv h.runs er er' hq (by omega) (by rw [hk₁]) (by rw [hk₁])
    ⟨bs, ho.mm.heap.seg, by rw [hk₁]; exact hmm.heap.seg⟩
  refine ⟨kr, p₂, er, ?_, ed, hR.undone hbits, ?_⟩
  · have hps : kr'.processes = ps ∧ kr'.nextPid = pid := by
      rw [hctl', hk₁]
      exact ⟨rfl, rfl⟩
    have hsame := hR.same
    rw [hps.1, hps.2] at hsame
    rw [hsame]
  · rw [htakes, hcount]
    have hap := hR.apart.pmm.count
    by_cases hun : kr'.freeSlot ≠ none ∧ UncountedPage kr'.mm 2048
    · -- uncounted for the stack
      rw [hone hun]
      have hzero := hun.2.1
      refine iff_of_false (fun hc => ?_) fun hno => hno (.inr hun)
      rw [hap, hzero] at hc
      split at hc <;> omega
    · rw [hsame hun]
      by_cases h0 : k.mm.pmm.freePages = 0
      · refine iff_of_false (fun hc => ?_) fun hno => hno (.inl h0)
        rw [hap, if_pos h0] at hc
        omega
      · rw [hap, if_neg h0]
        exact iff_of_true rfl fun hc => hc.elim h0 hun

/-- **The end of `user_spawn`, when it fails**, for the free record `i`. -/
theorem spawnInto_failed (h : KernelInv p0 s0 k) (hcalls : PmmCalls p0 k.mm.pmm)
    (hlow : p0.maxPage ≤ 2 ^ 20) (hfree : p0.freePages < 2 ^ 32) (hid : k.nextTaskId < 2 ^ 31)
    {i : Fin 16} {p : UserProcess} {pid : Nat} (hi : k.processes i = UserProcess.zero)
    (hpid : p.pid < 2 ^ 31) (e : spawnInto { k with processes := Function.update k.processes i p
                                                    nextPid := pid } i = .ok (-1, k')) :
    ∃ kr, (kr = k ∨ reapZombies k = .ok kr) ∧ Undone p0 kr k' ∧
      (k'.mm.pmm.freePages = kr.mm.pmm.freePages ↔ ¬ TakesUncounted k) := by
  obtain ⟨bs, ho⟩ := h.owned
  have hlt := hcalls.free_lt hfree
  have hmax : k.mm.pmm.maxPage ≤ 2 ^ 20 := by
    rw [hcalls.maxPage]
    exact hlow
  have hzero : ∀ q, userProcessRelease (Function.update k.processes i q) i = k.processes := fun q => by
    rw [userProcessRelease, Function.update_idem, ← hi, Function.update_eq_self]
  obtain ⟨⟨f, mm⟩, ec, e⟩ := bind_ok.mp e
  have hcalls₁ := vmmCreateAddressSpace_calls hcalls ec
  dsimp only at e ec
  rcases ho.mm.create with ⟨ec', hmm, hno⟩ | ⟨f', p', m', ep, ec', hf0, hfd, hmm, hnew, hoff⟩
  · -- no directory
    cases ec'.symm.trans ec
    cases (if_pos rfl).symm.trans e
    obtain ⟨c, hundo, hone, hsame⟩ := undoPage_counter hmax hlt
    refine ⟨k, .inl rfl, ⟨?_, ⟨bs, ho.mm.heap.seg, ho.mm.heap.seg⟩, rfl, ?_, rfl, rfl,
      fun f _ _ => .refl _ f⟩, ?_⟩
    · dsimp only
      rw [hzero]
    · dsimp only
      rw [hundo]
    · rw [takesUncounted_noDirectory hmax hno]
      dsimp only
      rw [hundo]
      refine ⟨fun hc hun => ?_, hsame⟩
      have hc : c = k.mm.pmm.freePages := hc
      rw [hone hun, hun.1] at hc
      cases hc
  · cases ec'.symm.trans ec
    rcases pmmAllocPage_cases k.mm.pmm with ⟨-, ea⟩ | ⟨q, hq, ea⟩
    · cases ep.symm.trans ea
      exact absurd rfl hf0
    have hqlt : q * 4096 % 2 ^ 32 = q * 4096 := by
      have := hq.2.1
      exact Nat.mod_eq_of_lt (by omega)
    rw [hqlt] at ea
    cases ep.symm.trans ea
    rw [if_neg hf0] at e
    obtain ⟨⟨id, k₂⟩, e₂, e₃⟩ := bind_ok.mp e
    dsimp only at e₃
    by_cases hneg : id < 0
    · -- no task
      rw [if_pos hneg] at e₃
      obtain ⟨kr, p₂, er, hk₂, ed, hundone, hcount⟩ :=
        noTask_undone h ho hcalls hlow hfree hid hq hmm hnew hoff rfl hcalls₁ e₂ hneg
      rw [ed] at e₃
      cases e₃
      refine ⟨kr, .inr er, ?_, hcount⟩
      have hps : kr.processes = k.processes := by rw [reapZombies_ctl er]; rfl
      rw [hk₂] at hundone ⊢
      dsimp only at hundone ⊢
      rw [Function.update_idem, hzero, ← hps]
      exact hundone
    · -- then the pid is returned
      rw [if_neg hneg] at e₃
      have hps : (k₂.processes i).pid = p.pid := by
        obtain ⟨-, hk⟩ | ⟨j, t, -, -, -, -, -, -, hk⟩ := kthreadCreate_ctl e₂ <;>
        · rw [hk]
          simp [Ctl.reap, Ctl.addTask]
      have hr : toInt32 (k₂.processes i).pid = -1 := (Prod.mk.inj (Except.ok.inj e₃)).1
      have := toInt32_nonneg hpid
      rw [hps] at hr
      omega

end

section

variable {m : Mem} {img : KernelImage} {mbi : MultibootInfo} {p0 : Pmm} {s0 : Mm} {k k' : Kernel}

theorem Undone.refl {bs : List Blk} (ho : Owned p0 s0 k.toCtl bs k.mm) : Undone p0 k k :=
  ⟨rfl, ⟨bs, ho.mm.heap.seg, ho.mm.heap.seg⟩, rfl, rfl, rfl, rfl, fun f _ _ => .refl _ f⟩

theorem userProcessAlloc_free {ps : Fin 16 → UserProcess} {i : Fin 16}
    (h : userProcessAlloc ps = some i) : (ps i).state = .free := by
  simpa using List.find?_some h

/-- **`user_spawn`, when it fails.** -/
theorem userSpawn_failed (h : KernelInv p0 s0 k) (hcalls : PmmCalls p0 k.mm.pmm)
    (hlow : p0.maxPage ≤ 2 ^ 20) (hfree : p0.freePages < 2 ^ 32) (hid : k.nextTaskId < 2 ^ 31)
    (hpid : k.nextPid < 2 ^ 31) {path : Option (List Byte)}
    (e : userSpawn k path = .ok (-1, k')) :
    ∃ kr, (kr = k ∨ reapZombies k = .ok kr) ∧ Undone p0 kr k' ∧
      (k'.mm.pmm.freePages = kr.mm.pmm.freePages ↔ ¬ (SpawnAllocates k path ∧ TakesUncounted k)) := by
  obtain ⟨bs, ho⟩ := h.owned
  -- before its first allocation the call has changed nothing
  have hearly : ¬ SpawnAllocates k path → k' = k →
      ∃ kr, (kr = k ∨ reapZombies k = .ok kr) ∧ Undone p0 kr k' ∧
        (k'.mm.pmm.freePages = kr.mm.pmm.freePages ↔
          ¬ (SpawnAllocates k path ∧ TakesUncounted k)) := by
    rintro hno rfl
    exact ⟨_, .inl rfl, .refl ho, iff_of_true rfl fun hc => hno hc.1⟩
  cases path with
  | none =>
    cases e
    refine hearly ?_ rfl
    rintro ⟨name, hname, -⟩
    cases hname
  | some name =>
    unfold userSpawn at e
    dsimp only at e
    split_ifs at e with hlen
    · cases e
      refine hearly ?_ rfl
      rintro ⟨_, ⟨⟩, h0, h32, -⟩
      omega
    obtain ⟨file, ef, e⟩ := bind_ok.mp e
    cases file with
    | none =>
      cases e
      refine hearly ?_ rfl
      rintro ⟨_, ⟨⟩, -, -, ⟨file, hf⟩, -⟩
      cases ef.symm.trans hf
    | some file =>
      dsimp only at e
      cases hi : userProcessAlloc k.processes with
      | none =>
        rw [hi] at e
        cases e
        refine hearly ?_ rfl
        rintro ⟨_, ⟨⟩, -, -, -, hno⟩
        exact hno hi
      | some i =>
        rw [hi] at e
        have hall : SpawnAllocates k (some name) :=
          ⟨name, rfl, by omega, by omega, ⟨file, ef⟩, by rw [hi]; nofun⟩
        rw [and_iff_right hall]
        exact spawnInto_failed h hcalls hlow hfree hid
          (h.inv.free i (userProcessAlloc_free hi)) (by exact hpid) e

/-- So it left no trace exactly if no page went uncounted. -/
theorem spawnMeets_iff (h : KernelInv p0 s0 k) (hcalls : PmmCalls p0 k.mm.pmm)
    (hlow : p0.maxPage ≤ 2 ^ 20) (hfree : p0.freePages < 2 ^ 32) (hid : k.nextTaskId < 2 ^ 31)
    (hpid : k.nextPid < 2 ^ 31) {path : Option (List Byte)}
    (e : userSpawn k path = .ok (-1, k')) :
    SpawnMeets p0 k k' ↔ ¬ (SpawnAllocates k path ∧ TakesUncounted k) := by
  obtain ⟨kr, hkr, hundone, hcount⟩ := userSpawn_failed h hcalls hlow hfree hid hpid e
  constructor
  · rintro ⟨kr₂, hkr₂, hundone₂, hcount₂⟩
    obtain rfl := hundone.unique h.inv h.runs hkr hkr₂ hundone₂
    exact hcount.mp hcount₂
  · exact fun hno => ⟨kr, hkr, hundone, hcount.mpr hno⟩

end

end Emyx
