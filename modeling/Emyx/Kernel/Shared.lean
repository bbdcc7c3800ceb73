/-
  File:      Emyx/Kernel/Shared.lean
  Subject:   TWO TASKS ON ONE DIRECTORY: it is destroyed under the process it was made for.

  `vmm_destroy_address_space` gives the frames of a directory and its tables back and clears
  nothing, so a task that is on the directory goes on until a frame is taken again. Here the
  reaper destroys the directory of a process that runs, as that of another one that has ended, and
  the process then ends itself: its pages are given back after its directory. The state is the
  same as if it had been the other way round.

  * `userExitCurrent_other` -- `user_exit_current` does not ask who holds the directory;
  * **`Scene.yield_exit`** -- the yield that destroys the directory, and the exit after it;
  * `SelfBooted.loose` -- when `next_task_id` has come round, a process that waits for its turn has
    lost its directory;
  * `SelfBooted.shared` -- the next process is loaded into that directory before the other goes on;
  * **`SelfBooted.stale`** -- a process is spawned whose directory is given back at once.
-/
import Emyx.Kernel.Isolation

namespace Emyx

open Lib

/-! ## 1. Pages given back after their directory -/

/-- The same memory, with another allocator and other address spaces in use. -/
def Mm.other (s : Mm) (p : Pmm) (l : List Nat) : Mm := { s with pmm := p, spaces := l }

section

variable {s s' : Mm} {a v : Nat}

/-- `vmm_unmap_page_in` reads and writes memory only. -/
theorem vmmUnmapPageIn_other {r : Int} (e : vmmUnmapPageIn s a v = .ok (r, s')) :
    s'.pmm = s.pmm ∧ ∀ p l, vmmUnmapPageIn (s.other p l) a v = .ok (r, s'.other p l) := by
  have hget : ∀ p l, vmmGetPageTableIn (s.other p l) a v = vmmGetPageTableIn s a v :=
    fun _ _ => rfl
  have hload : ∀ p l q i, (s.other p l).load q i = s.load q i := fun _ _ _ _ => rfl
  have hkd : ∀ p l, (s.other p l).kernelPageDirectory = s.kernelPageDirectory := fun _ _ => rfl
  unfold vmmUnmapPageIn at e ⊢
  simp only [hget, hload, hkd]
  by_cases h1 : a = 0 ∨ v &&& (4096 - 1) ≠ 0
  · rw [if_pos h1] at e
    cases e
    exact ⟨rfl, fun _ _ => if_pos h1⟩
  by_cases h2 : a ≠ s.kernelPageDirectory ∧ pdeIndex v ≥ 768
  · rw [if_neg h1, if_pos h2] at e
    cases e
    exact ⟨rfl, fun _ _ => (if_neg h1).trans (if_pos h2)⟩
  rw [if_neg h1, if_neg h2] at e
  obtain ⟨t, et, e⟩ := bind_ok.mp e
  simp only [if_neg h1, if_neg h2, et, ok_bind]
  by_cases ht : t = 0
  · rw [if_pos ht] at e
    cases e
    exact ⟨rfl, fun _ _ => if_pos ht⟩
  rw [if_neg ht] at e
  obtain ⟨w, ew, e⟩ := bind_ok.mp e
  simp only [if_neg ht, ew, ok_bind]
  by_cases hw : w &&& 1 = 0
  · rw [if_pos hw] at e
    cases e
    exact ⟨rfl, fun _ _ => if_pos hw⟩
  rw [if_neg hw] at e
  obtain ⟨s₁, es, e⟩ := bind_ok.mp e
  cases e
  obtain ⟨x, ex, es⟩ := bind_ok.mp es
  cases es
  refine ⟨rfl, fun p l => ?_⟩
  have hstore : (s.other p l).store t (pteIndex v) 0 =
      .ok (Mm.other { s with mem := wr32 s.mem x 0 } p l) := bind_ok.mpr ⟨x, ex, rfl⟩
  rw [if_neg hw, hstore]
  rfl

/-- The loop of `user_process_free_pages`: what it does to the allocator does not depend on memory,
    nor the other way round. -/
theorem freePages_other {pages : List UserPage}
    (e : pages.foldlM (fun mm page => do
      let (_, mm) ← vmmUnmapPageIn mm a page.vaddr
      return mm.freePage page.paddr) s = .ok s') :
    s'.pmm = (pages.map UserPage.paddr).foldl pmmFreePage s.pmm ∧ ∀ p l,
      pages.foldlM (fun mm page => do
        let (_, mm) ← vmmUnmapPageIn mm a page.vaddr
        return mm.freePage page.paddr) (s.other p l) =
      .ok (s'.other ((pages.map UserPage.paddr).foldl pmmFreePage p) l) := by
  induction pages generalizing s with
  | nil =>
    cases e
    exact ⟨rfl, fun _ _ => rfl⟩
  | cons page pages ih =>
    rw [List.foldlM_cons] at e
    obtain ⟨s₁, e₁, e⟩ := bind_ok.mp e
    obtain ⟨⟨r, s₂⟩, eu, e₁⟩ := bind_ok.mp e₁
    cases e₁
    obtain ⟨hpmm, hunmap⟩ := vmmUnmapPageIn_other eu
    obtain ⟨hpmm', hloop⟩ := ih e
    refine ⟨hpmm'.trans ?_, fun p l => ?_⟩
    · rw [List.map_cons, List.foldl_cons, ← hpmm]
      rfl
    · rw [List.foldlM_cons, hunmap p l]
      exact hloop (pmmFreePage p page.paddr) l

/-- `kfree` reads and writes memory only. -/
theorem kfree_other (e : kfree s a = .ok s') (p : Pmm) (l : List Nat) :
    kfree (s.other p l) a = .ok (s'.other p l) := by
  unfold kfree at e ⊢
  by_cases h0 : a = 0
  · rw [if_pos h0] at e ⊢
    cases e
    rfl
  · rw [if_neg h0] at e ⊢
    obtain ⟨m₁, e₁, e⟩ := bind_ok.mp e
    obtain ⟨m₂, e₂, e⟩ := bind_ok.mp e
    cases e
    exact bind_ok.mpr ⟨m₁, e₁, bind_ok.mpr ⟨m₂, e₂, rfl⟩⟩

end

/-- **`user_exit_current` does not ask who holds the directory**: with another allocator it gives
    the same pages back. -/
theorem userExitCurrent_other {k k' : Kernel} {i : Fin 16} {status : Nat} (hc : k.caller = some i)
    (e : userExitCurrent k status = .ok k') :
    k'.mm.pmm = (k.processes i).frames.foldl pmmFreePage k.mm.pmm ∧ ∀ p l,
      userExitCurrent { k with mm := k.mm.other p l } status =
      .ok { k' with mm := k'.mm.other ((k.processes i).frames.foldl pmmFreePage p) l } := by
  unfold userExitCurrent at e ⊢
  dsimp only
  rw [Ctl.caller_eq] at e ⊢
  rw [hc] at e ⊢
  obtain ⟨k₁, e₁, e⟩ := bind_ok.mp e
  obtain ⟨mm, ef, e₁⟩ := bind_ok.mp e₁
  cases e₁
  cases e
  dsimp only at ef
  rw [Function.update_self] at ef
  obtain ⟨hpmm, hother⟩ := freePages_other ef
  refine ⟨hpmm, fun p l => bind_ok.mpr ⟨_, bind_ok.mpr
    ⟨mm.other ((k.processes i).frames.foldl pmmFreePage p) l, ?_, rfl⟩, rfl⟩⟩
  dsimp only
  rw [Function.update_self]
  exact hother p l

/-! ## 2. A yield and an exit -/

section

variable {p0 : Pmm} {s0 : Mm} {c : Ctl} {n d status : Nat} {k : Kernel} {z i idx idx' : Fin 16}
  {ps : Fin 16 → UserProcess}

/-- The frames of a directory, from its words. -/
theorem ownFrames_words {s s' : Mm} (h : ∀ j, j < 1024 → dirWord s'.mem d j = dirWord s.mem d j) :
    ownFrames s' d = ownFrames s d := by
  have htables : (List.range 768).filterMap (tableOf s'.mem d) =
      (List.range 768).filterMap (tableOf s.mem d) := List.filterMap_congr fun j hj => by
    have := List.mem_range.mp hj
    exact tableOf_congr (h j (by omega))
  unfold ownFrames
  rw [htables]

/-- **The process ends, and its directory is gone already**: the state is the one in which the
    process gave its pages back before its directory was destroyed. -/
theorem Backed.exit_destroyed {bs : List Blk} (h : Backed p0 s0 k bs) (hc : k.caller = some i)
    (hx : ∀ m, (k.processes m).state = .exited → (k.processes m).pages = []) (hd : d ∈ k.mm.spaces)
    (hother : ∀ m, m ≠ i → (k.processes m).pages ≠ [] → (k.processes m).addressSpace ≠ d)
    (status : Nat) :
    ∃ mm, userExitCurrent
        { k with mm := k.mm.other ((ownFrames k.mm d).foldl pmmFreePage k.mm.pmm)
                         (k.mm.spaces.erase d) } status =
        .ok { k with mm := mm, processes := k.exitRecords i status } ∧
      Backed p0 s0 { k with mm := mm, processes := k.exitRecords i status } bs ∧
      ¬ Allocated p0 mm.pmm d ∧ ∀ f, Allocated p0 mm.pmm f → Allocated p0 k.mm.pmm f := by
  obtain ⟨mm, e, hb, hsp, hdirs, hsub⟩ := h.exitCurrent hc hx status
  obtain ⟨hpmm, hexit⟩ := userExitCurrent_other hc e
  have hdm : d ∈ mm.spaces := hsp ▸ hd
  have hgone : ∀ m, (k.exitRecords i status m).pages ≠ [] →
      (k.exitRecords i status m).addressSpace ≠ d := fun m hm => by
    obtain ⟨hmi, hsame⟩ := k.exitRecords_pages hm
    rw [hsame.pages] at hm
    rw [hsame.addressSpace]
    exact hother m hmi hm
  have hfreed := hb.mm.freed hdm
  obtain ⟨-, hall⟩ := pmmFreePage_list hb.mm.vm.pmm
    (fun f hf => hb.mm.vm.ownFrames_role (.inr hdm) hf) (hb.mm.vm.ownFrames_nodup (.inr hdm))
  obtain ⟨p, hp, -, hmm⟩ := hb.mm.destroy hdm hgone
  rw [hp] at hfreed hall
  -- the pages and the frames of the directory are given back in either order
  have horder : (k.processes i).frames.foldl pmmFreePage
      ((ownFrames k.mm d).foldl pmmFreePage k.mm.pmm) = p := by
    rw [pmmFreePage_lists, ← hp, ← hpmm, ownFrames_words fun j hj => hdirs d j (.inr hd) hj]
  have hexit := hexit ((ownFrames k.mm d).foldl pmmFreePage k.mm.pmm) (mm.spaces.erase d)
  rw [horder] at hexit
  refine ⟨mm.other p (mm.spaces.erase d), ?_, ⟨hmm, hb.owned⟩, hfreed,
    fun f hf => hsub f ((hall f).mp hf).1⟩
  rw [← hsp]
  exact hexit

/-- **The directory of the process that runs next is destroyed**, as that of the zombie in slot
    `z`, and the process ends. -/
theorem Scene.yield_exit {e : Ctl} (h : Scene s0 c n k) (hc : c.CanCall) (hz0 : z ≠ 0)
    (hcur : z ≠ c.currentTask) (hz : (c.tasks z).state = .zombie)
    (honly : ∀ t, t ≠ 0 → t ≠ c.currentTask → (c.tasks t).state = .zombie → t = z)
    (hd : (c.tasks z).addressSpace = d) (hn : c.reap.nextRunnable = some idx)
    (hsw : c.reap.switchTo idx = e) (hcont : e.cont = .user) (h0 : idx ≠ 0)
    (hspace : (e.tasks idx).addressSpace = d) (hcall : e.caller = some i) {x : UserPage}
    (hrec : (c.processes i).addressSpace = d) (hx : x ∈ (c.processes i).pages)
    (hv : x.vaddr = 0x00400000)
    (hother : ∀ m, m ≠ i → (c.processes m).pages ≠ [] → (c.processes m).addressSpace ≠ d)
    (hexited : ∀ m, (c.processes m).state = .exited → (c.processes m).pages = [])
    (hst : status < 2 ^ 32) (hps : e.exitRecords i status = ps)
    (hnone : ∀ t, t ≠ 0 → t ≠ idx → (e.tasks t).state ≠ .zombie)
    (hn' : (Ctl.zombify { e with processes := ps }).nextRunnable = some idx') :
    ∃ k₁ k₂, Took k .yield none k₁ ∧ Took k₁ (.exit status) none k₂ ∧
      Scene s0 ((Ctl.zombify { e with processes := ps }).switchTo idx') n k₂ ∧
      ¬ Allocated (smallPmm selfArchive) k₂.mm.pmm d := by
  subst hsw
  obtain ⟨bs, hb⟩ := h.backed
  have hcode := h.codeThere hc .yield
  obtain rfl := h.ctl
  subst hps
  have hreap : k.toCtl.reap = k.clearSlot z := Ctl.reap_one hz hz0 hcur honly
  have hdm : d ∈ k.mm.spaces := hrec ▸ (hb.mm.pages i).space (List.ne_nil_of_mem hx)
  -- what the reaper does: the directory and its tables go, then the zombie's stack
  obtain ⟨ed, -⟩ := vmmDestroyAddressSpace_spec hb.mm.vm hdm
  generalize hp₁ : (ownFrames k.mm d).foldl pmmFreePage k.mm.pmm = p₁ at ed
  generalize hl : k.mm.spaces.erase d = l at ed
  have ed : vmmDestroyAddressSpace k.mm d = .ok (k.mm.other p₁ l) := ed
  obtain ⟨m, bs₁, hne, ef, hb₁, -, hheap⟩ := hb.freeStack hz hz0 hb.mm
  have hdirs := hb.mm.sameDirs_heap hheap
  generalize hs₁ : ({ k.mm with mem := m } : Mm) = s₁ at ef hb₁
  have et : taskCleanup k z = .ok { k with toCtl := k.clearSlot z, mm := s₁.other p₁ l } := by
    refine bind_ok.mpr ⟨k.mm.other p₁ l, ?_,
      bind_ok.mpr ⟨s₁.other p₁ l, (if_pos hne).trans (kfree_other ef p₁ l), rfl⟩⟩
    rw [hd]
    exact (if_pos ⟨hb.mm.space_pos hdm, hb.mm.space_ne_kernel hdm⟩).trans ed
  rw [hreap] at hn hcont hspace hcall hnone hn' ⊢
  obtain ⟨esp0, ey⟩ := schedYield_switch (reapZombies_one hz hz0 hcur honly et) hn
  -- the same state with the directory still there, in which memory is in order
  obtain ⟨kv, hkv⟩ : ∃ kv : Kernel, kv = { k with
      toCtl := (k.clearSlot z).switchTo idx
      mm := s₁
      esp0 := esp0
      cr3 := (((k.clearSlot z).switchTo idx).tasks idx).addressSpace } := ⟨_, rfl⟩
  have hbv : Backed (smallPmm selfArchive) s0 kv bs₁ := by
    rw [hkv]
    exact hb₁.of_tasks rfl rfl (Ctl.sameStacks_switchTo (Ctl.nextRunnable_some hn))
  have hctl : kv.toCtl = (k.clearSlot z).switchTo idx := by rw [hkv]
  have hmm : kv.mm = s₁ := by rw [hkv]
  have hprocs : kv.processes = k.processes := by rw [hkv]; rfl
  have ey : k.exec .yield = .ok (none, { kv with mm := kv.mm.other p₁ l }) := by
    rw [hkv]
    exact bind_ok.mpr ⟨_, ey, rfl⟩
  rw [← hctl] at hcont hspace hcall hnone hn' ⊢
  -- there the process gives its pages back first, then its directory goes
  have hdv : d ∈ kv.mm.spaces := by
    rw [hmm, ← hs₁]
    exact hdm
  obtain ⟨mm, hexit, hb₂, hfreed, hsub⟩ := hbv.exit_destroyed hcall (by rwa [hprocs]) hdv
    (by rwa [hprocs]) status
  have hown : ownFrames kv.mm d = ownFrames k.mm d := ownFrames_words fun j hj => by
    rw [hmm, ← hs₁]
    exact hdirs d j (.inr hdm) hj
  have hpmm₁ : kv.mm.pmm = k.mm.pmm := by rw [hmm, ← hs₁]
  have hspaces : kv.mm.spaces.erase d = l := by rw [← hl, hmm, ← hs₁]
  rw [hown, hpmm₁, hp₁, hspaces] at hexit
  have hb₃ : Backed (smallPmm selfArchive) s0 { kv with
      mm := mm
      processes := kv.exitRecords i status
      console := kv.console ++ ascii "user: exited status=" ++ u32ToHex status ++ ascii "\n" }
      bs₁ := ⟨hb₂.mm, hb₂.owned⟩
  have hcurv : kv.currentTask = idx := by rw [hctl]; rfl
  have hrun : (kv.tasks kv.currentTask).state = .running := by
    rw [hctl]
    exact Ctl.switchTo_running ..
  obtain ⟨esp0', ek, hb₄⟩ := hb₃.kexit (by rw [hcurv]; exact h0) (by rw [hrun]; nofun)
    (by rw [hcurv]; exact hnone) hn'
  have hwalk : walk kv.mm.mem kv.cr3 0x00400000 ≠ none := by
    have hcr3 : kv.cr3 = d := by
      rw [hkv, ← hctl]
      exact hspace
    have := hbv.mm.walk_page (i := i) (by rw [hprocs]; exact hx)
    rwa [hprocs, hrec, hv, ← hcr3] at this
  exact ⟨{ kv with mm := kv.mm.other p₁ l }, _, ⟨hc.legal, hcode _, ey⟩,
    ⟨⟨hcont, hst⟩, fun _ => hwalk, bind_ok.mpr ⟨_, bind_ok.mpr ⟨_, hexit, ek⟩, rfl⟩⟩,
    ⟨rfl, Ctl.switchTo_running .., rfl, by rw [hkv]; exact h.module, ⟨bs₁, hb₄⟩,
      hb.mm.room hb₃.mm (fun f hf => hpmm₁ ▸ hsub f hf) h.room⟩, hfreed⟩

end

/-! ## 3. The run -/

section

variable {s0 : Mm} {k : Kernel}

/-- The first process has ended, and the second one is about to start. -/
theorem SelfBooted.first_ended (hs : SelfBooted s0) : ∃ k p₁ p₂ d,
    Leads (schedInit s0 selfModule 0 0) k ∧ Scene s0 ⟨fourTasks (bootTask s0 .runnable)
      (userTask 1 0x116000 p₁ .zombie .user)
      (userTask 2 s0.kernelPageDirectory p₂ .running .start) Task.empty, 2, 3,
      threeRecords .zero (.spawned 2 2 0 d [0x2f, 0x61]) .zero, 3⟩ 34 k ∧
    d ≠ 0x116000 ∧ d ∈ k.mm.spaces ∧ 0x116000 ∈ k.mm.spaces := by
  obtain ⟨k₁, p₁, -, hl₁, h₁, hsp₁, -⟩ := hs.spawned
  obtain ⟨k₂, p₂, t₂, h₂, hsp₂, hnew₂, -⟩ := h₁.spawn (n := 38) hs.archive (.inl rfl)
    (oneZombie_two nofun nofun (by decide) nofun) (rfl : _ = some (2 : Fin 16))
    (rfl : _ = some (1 : Fin 16)) rfl (show 2 < 2 ^ 31 by decide)
  generalize (pmmAllocPage k₁.mm.pmm).1 = d at h₂ hsp₂ hnew₂
  have hd : d ≠ 0x116000 := fun e => hnew₂ (e ▸ hsp₁)
  have h₂ : Scene s0 ⟨fourTasks (bootTask s0 .running)
      (userTask 1 s0.kernelPageDirectory p₁ .runnable .start)
      (userTask 2 s0.kernelPageDirectory p₂ .runnable .start) Task.empty, 0, 3,
      threeRecords (.spawned 1 1 0 0x116000 [0x2f, 0x61]) (.spawned 2 2 0 d [0x2f, 0x61]) .zero,
      3⟩ 38 k₂ :=
    h₂.tables (fun i => by fin_cases i <;> rfl) rfl rfl (funext fun i => by fin_cases i <;> rfl) rfl
  obtain ⟨k₃, t₃, h₃, hmm₃⟩ := h₂.switch (.inl rfl) (noZombie_four nofun nofun nofun)
    (rfl : _ = some (1 : Fin 16))
  have h₃ : Scene s0 ⟨fourTasks (bootTask s0 .runnable)
      (userTask 1 s0.kernelPageDirectory p₁ .running .start)
      (userTask 2 s0.kernelPageDirectory p₂ .runnable .start) Task.empty, 1, 3,
      threeRecords (.spawned 1 1 0 0x116000 [0x2f, 0x61]) (.spawned 2 2 0 d [0x2f, 0x61]) .zero,
      3⟩ 38 k₃ := h₃.tables (fun i => by fin_cases i <;> rfl) rfl rfl rfl rfl
  have hsp₃ : 0x116000 ∈ k₃.mm.spaces := by
    rw [hmm₃, hsp₂]
    exact List.mem_cons_of_mem _ hsp₁
  obtain ⟨k₄, g₁, t₄, h₄, hsp₄', -⟩ := h₃.startProcess (n := 34) hs.archive rfl rfl
    (show (1 : Fin 16) ≠ 0 by decide) (rfl : _ = some (0 : Fin 16)) rfl hsp₃
    (fun m _ => threeRecords_forall (P := fun p => p.pages = []) rfl rfl rfl rfl m)
  generalize (pmmAllocPage k₃.mm.pmm).1 = f₁ at h₄
  have h₄ : Scene s0 ⟨fourTasks (bootTask s0 .runnable) (userTask 1 0x116000 p₁ .running .user)
      (userTask 2 s0.kernelPageDirectory p₂ .runnable .start) Task.empty, 1, 3,
      threeRecords (runningRecord 1 1 0 0x116000 f₁ g₁) (.spawned 2 2 0 d [0x2f, 0x61]) .zero,
      3⟩ 34 k₄ :=
    h₄.tables (fun i => by fin_cases i <;> rfl) rfl rfl (funext fun i => by fin_cases i <;> rfl) rfl
  obtain ⟨k₅, t₅, h₅, hsp₅, -⟩ := h₄.exit_root rfl ⟨0, rfl, _, List.mem_cons_self, rfl⟩
    (show (1 : Fin 16) ≠ 0 by decide) (rfl : _ = some (0 : Fin 16))
    (threeRecords_exited nofun nofun nofun) rfl (threeRecords_pids (fun _ => Nat.succ_ne_zero _)
      (fun _ => Nat.succ_ne_zero _) fun h => absurd rfl h)
    (show ∀ m, _ = threeRecords .zero (.spawned 2 2 0 d [0x2f, 0x61]) .zero m from
      fun m => by fin_cases m <;> rfl)
    (noZombie_four nofun nofun nofun) (rfl : _ = some (2 : Fin 16))
  have h₅ : Scene s0 ⟨fourTasks (bootTask s0 .runnable) (userTask 1 0x116000 p₁ .zombie .user)
      (userTask 2 s0.kernelPageDirectory p₂ .running .start) Task.empty, 2, 3,
      threeRecords .zero (.spawned 2 2 0 d [0x2f, 0x61]) .zero, 3⟩ 34 k₅ :=
    h₅.tables (fun i => by fin_cases i <;> rfl) rfl rfl rfl rfl
  refine ⟨k₅, p₁, p₂, d, (((hl₁.took t₂).took t₃).took t₄).took t₅, h₅, hd, ?_⟩
  rw [hsp₅, hsp₄', hmm₃, hsp₂]
  exact ⟨List.mem_cons_self, List.mem_cons_of_mem _ hsp₁⟩

/-- **The first frame is the directory of the process in slot 2.** The first process, whose
    directory it was, ends; before its slot is free again the second one spawns a third, which
    takes another frame and that slot, and ends as well. The fourth takes the frame and slot 2. -/
theorem SelfBooted.second (hs : SelfBooted s0) : ∃ k p₃ p₄ e,
    Leads (schedInit s0 selfModule 0 0) k ∧ Scene s0 ⟨fourTasks (bootTask s0 .running)
      (userTask 3 s0.kernelPageDirectory p₃ .runnable .start)
      (userTask 4 s0.kernelPageDirectory p₄ .runnable .start) Task.empty, 0, 5,
      threeRecords (.spawned 3 3 0 e [0x2f, 0x61]) (.spawned 4 4 0 0x116000 [0x2f, 0x61]) .zero,
      5⟩ 28 k ∧
    e ≠ 0x116000 ∧ e ∈ k.mm.spaces ∧ 0x116000 ∈ k.mm.spaces := by
  obtain ⟨k₅, p₁, p₂, d, hl₅, h₅, hd, hsp₅'⟩ := hs.first_ended
  -- the second process runs, spawns the third and ends
  obtain ⟨k₆, g₂, t₆, h₆, hsp₆, -⟩ := h₅.startProcess (n := 30) hs.archive rfl rfl
    (show (2 : Fin 16) ≠ 0 by decide) (rfl : _ = some (1 : Fin 16)) rfl hsp₅'.1
    (fun m _ => threeRecords_forall (P := fun p => p.pages = []) rfl rfl rfl rfl m)
  generalize (pmmAllocPage k₅.mm.pmm).1 = f₂ at h₆
  have h₆ : Scene s0 ⟨fourTasks (bootTask s0 .runnable) (userTask 1 0x116000 p₁ .zombie .user)
      (userTask 2 d p₂ .running .user) Task.empty, 2, 3,
      threeRecords .zero (runningRecord 2 2 0 d f₂ g₂) .zero, 3⟩ 30 k₆ :=
    h₆.tables (fun i => by fin_cases i <;> rfl) rfl rfl (funext fun i => by fin_cases i <;> rfl) rfl
  obtain ⟨k₇, p₃, t₇, h₇, hsp₇, hnew₇, hfreed₇, -⟩ := h₆.spawn_reaps (n := 29) (z := 1) hs.archive
    (.inr ⟨rfl, 1, rfl, _, List.mem_cons_self, rfl⟩)
    (processZombie_one nofun nofun (by decide) rfl (threeRecords_spaces nofun (fun _ => hd) nofun))
    (by rw [hsp₆]; exact List.mem_cons_of_mem _ hsp₅'.2) (rfl : _ = some (1 : Fin 16))
    (rfl : _ = some (0 : Fin 16)) rfl (show 3 < 2 ^ 31 by decide)
  generalize (pmmAllocPage k₆.mm.pmm).1 = e at h₇ hsp₇ hnew₇
  have he : e ≠ 0x116000 := fun h => hnew₇ (by rw [h, hsp₆]; exact hsp₅'.2)
  have hed : e ≠ d := fun h => hnew₇ (by rw [h, hsp₆]; exact hsp₅'.1)
  have h₇ : Scene s0 ⟨fourTasks (bootTask s0 .runnable)
      (userTask 3 s0.kernelPageDirectory p₃ .runnable .start) (userTask 2 d p₂ .running .user)
      Task.empty, 2, 4,
      threeRecords (.spawned 3 3 2 e [0x2f, 0x61]) (runningRecord 2 2 0 d f₂ g₂) .zero, 4⟩ 29 k₇ :=
    h₇.tables (fun i => by fin_cases i <;> rfl) rfl rfl (funext fun i => by fin_cases i <;> rfl) rfl
  have hsp₇' : e ∈ k₇.mm.spaces ∧ d ∈ k₇.mm.spaces := by
    rw [hsp₇, hsp₆]
    exact ⟨(List.mem_erase_of_ne he).mpr List.mem_cons_self,
      (List.mem_erase_of_ne hd).mpr (List.mem_cons_of_mem _ hsp₅'.1)⟩
  obtain ⟨k₈, t₈, h₈, hsp₈, hsub₈⟩ := h₇.exit_root rfl ⟨1, rfl, _, List.mem_cons_self, rfl⟩
    (show (2 : Fin 16) ≠ 0 by decide) (rfl : _ = some (1 : Fin 16))
    (threeRecords_exited nofun nofun nofun) rfl (threeRecords_pids (fun _ => Nat.succ_ne_zero _)
      (fun _ => Nat.succ_ne_zero _) fun h => absurd rfl h)
    (show ∀ m, _ = threeRecords (.spawned 3 3 0 e [0x2f, 0x61]) .zero .zero m from
      fun m => by fin_cases m <;> rfl)
    (noZombie_four nofun nofun nofun)
    ((rfl : _ = some (2 + 1 + 13 : Fin 16)).trans (rfl : _ = some (0 : Fin 16)))
  have h₈ : Scene s0 ⟨fourTasks (bootTask s0 .running)
      (userTask 3 s0.kernelPageDirectory p₃ .runnable .start) (userTask 2 d p₂ .zombie .user)
      Task.empty, 0, 4, threeRecords (.spawned 3 3 0 e [0x2f, 0x61]) .zero .zero, 4⟩ 29 k₈ :=
    h₈.tables (fun i => by fin_cases i <;> rfl) rfl rfl rfl rfl
  -- the frame is the first that is free
  obtain ⟨bs₈, hb₈⟩ := h₈.backed
  have halloc := hs.alloc_stale hb₈.mm fun h => hfreed₇ (hsub₈ _ h)
  obtain ⟨k₉, p₄, t₉, h₉, hsp₉, -⟩ := h₈.spawn_reaps (n := 28) (z := 2) hs.archive (.inl rfl)
    (processZombie_two nofun nofun (by decide) rfl (threeRecords_spaces nofun nofun nofun))
    (by rw [hsp₈]; exact List.mem_cons_of_mem _ hsp₇'.2) (rfl : _ = some (2 : Fin 16))
    (rfl : _ = some (1 : Fin 16)) rfl (show 4 < 2 ^ 31 by decide)
  rw [halloc] at h₉ hsp₉
  refine ⟨k₉, p₃, p₄, e,
    (((hl₅.took t₆).took t₇).took t₈).took t₉,
    h₉.tables (fun i => by fin_cases i <;> rfl) rfl rfl (funext fun i => by fin_cases i <;> rfl) rfl,
    he, ?_⟩
  rw [hsp₉, hsp₈]
  exact ⟨(List.mem_erase_of_ne hed).mpr (List.mem_cons_of_mem _ hsp₇'.1),
    (List.mem_erase_of_ne (Ne.symm hd)).mpr List.mem_cons_self⟩

/-- **Both processes run**, in their turns. -/
theorem SelfBooted.both (hs : SelfBooted s0) : ∃ k p₃ p₄ e f₁ g₁ f₂ g₂,
    Leads (schedInit s0 selfModule 0 0) k ∧ Scene s0 ⟨fourTasks (bootTask s0 .running)
      (userTask 3 e p₃ .runnable .user) (userTask 4 0x116000 p₄ .runnable .user) Task.empty, 0, 5,
      threeRecords (runningRecord 3 3 0 e f₁ g₁) (runningRecord 4 4 0 0x116000 f₂ g₂) .zero, 5⟩ 20 k ∧
    e ≠ 0x116000 := by
  obtain ⟨k₀, p₃, p₄, e, hl₀, h₀, he, hsp₀⟩ := hs.second
  obtain ⟨k₁, t₁, h₁, hmm₁⟩ := h₀.switch (.inl rfl) (noZombie_four nofun nofun nofun)
    (rfl : _ = some (1 : Fin 16))
  have h₁ : Scene s0 ⟨fourTasks (bootTask s0 .runnable)
      (userTask 3 s0.kernelPageDirectory p₃ .running .start)
      (userTask 4 s0.kernelPageDirectory p₄ .runnable .start) Task.empty, 1, 5,
      threeRecords (.spawned 3 3 0 e [0x2f, 0x61]) (.spawned 4 4 0 0x116000 [0x2f, 0x61]) .zero,
      5⟩ 28 k₁ := h₁.tables (fun i => by fin_cases i <;> rfl) rfl rfl rfl rfl
  rw [← hmm₁] at hsp₀
  obtain ⟨k₂, g₁, t₂, h₂, hsp₂, -⟩ := h₁.startProcess (n := 24) hs.archive rfl rfl
    (show (1 : Fin 16) ≠ 0 by decide) (rfl : _ = some (0 : Fin 16)) rfl hsp₀.1
    (fun m _ => threeRecords_forall (P := fun p => p.pages = []) rfl rfl rfl rfl m)
  generalize (pmmAllocPage k₁.mm.pmm).1 = f₁ at h₂
  have h₂ : Scene s0 ⟨fourTasks (bootTask s0 .runnable) (userTask 3 e p₃ .running .user)
      (userTask 4 s0.kernelPageDirectory p₄ .runnable .start) Task.empty, 1, 5,
      threeRecords (runningRecord 3 3 0 e f₁ g₁) (.spawned 4 4 0 0x116000 [0x2f, 0x61]) .zero,
      5⟩ 24 k₂ :=
    h₂.tables (fun i => by fin_cases i <;> rfl) rfl rfl (funext fun i => by fin_cases i <;> rfl) rfl
  obtain ⟨k₃, t₃, h₃, hmm₃⟩ := h₂.switch (.inr ⟨rfl, 0, rfl, _, List.mem_cons_self, rfl⟩)
    (noZombie_four nofun nofun nofun) (rfl : _ = some (2 : Fin 16))
  have h₃ : Scene s0 ⟨fourTasks (bootTask s0 .runnable) (userTask 3 e p₃ .runnable .user)
      (userTask 4 s0.kernelPageDirectory p₄ .running .start) Task.empty, 2, 5,
      threeRecords (runningRecord 3 3 0 e f₁ g₁) (.spawned 4 4 0 0x116000 [0x2f, 0x61]) .zero,
      5⟩ 24 k₃ := h₃.tables (fun i => by fin_cases i <;> rfl) rfl rfl rfl rfl
  obtain ⟨k₄, g₂, t₄, h₄, -⟩ := h₃.startProcess (n := 20) hs.archive rfl rfl
    (show (2 : Fin 16) ≠ 0 by decide) (rfl : _ = some (1 : Fin 16)) rfl
    (by rw [hmm₃, hsp₂]; exact hsp₀.2)
    (threeRecords_forall (P := fun p => p.addressSpace = 0x116000 → p.pages = [])
      (fun h => absurd h he) (fun _ => rfl) (fun _ => rfl) fun _ => rfl)
  generalize (pmmAllocPage k₃.mm.pmm).1 = f₂ at h₄
  have h₄ : Scene s0 ⟨fourTasks (bootTask s0 .runnable) (userTask 3 e p₃ .runnable .user)
      (userTask 4 0x116000 p₄ .running .user) Task.empty, 2, 5,
      threeRecords (runningRecord 3 3 0 e f₁ g₁) (runningRecord 4 4 0 0x116000 f₂ g₂) .zero,
      5⟩ 20 k₄ :=
    h₄.tables (fun i => by fin_cases i <;> rfl) rfl rfl (funext fun i => by fin_cases i <;> rfl) rfl
  obtain ⟨k₅, t₅, h₅, -⟩ := h₄.switch (.inr ⟨rfl, 1, rfl, _, List.mem_cons_self, rfl⟩)
    (noZombie_four nofun nofun nofun)
    ((rfl : _ = some (2 + 1 + 13 : Fin 16)).trans (rfl : _ = some (0 : Fin 16)))
  exact ⟨k₅, p₃, p₄, e, f₁, g₁, f₂, g₂, ((((hl₀.took t₁).took t₂).took t₃).took t₄).took t₅,
    h₅.tables (fun i => by fin_cases i <;> rfl) rfl rfl rfl rfl, he⟩

end

section

variable {s0 : Mm} {k : Kernel} {d : Task} {x pid n y₁ e₁ p₁ y₂ e₂ p₂ : Nat}
  {ps : Fin 16 → UserProcess}

/-- One cycle of `Scene.cycle`, with a process in slot 2 as well and the thread in slot 3. -/
theorem Scene.cycle_both (h : Scene s0 ⟨fourTasks (bootTask s0 .running)
      (userTask y₁ e₁ p₁ .runnable .user) (userTask y₂ e₂ p₂ .runnable .user) d, 0, x, ps, pid⟩ 0 k)
    (hcode₁ : ∃ i, (ps i).addressSpace = e₁ ∧ ∃ y ∈ (ps i).pages, y.vaddr = 0x00400000)
    (hcode₂ : ∃ i, (ps i).addressSpace = e₂ ∧ ∃ y ∈ (ps i).pages, y.vaddr = 0x00400000)
    (hd : d = Task.empty ∧ Room k.mm.pmm (n + 1) ∨
      (∃ y p, d = threadTask s0 y p .zombie .kernel) ∧ Room k.mm.pmm n) :
    ∃ k' p, Leads k k' ∧ Scene s0 ⟨fourTasks (bootTask s0 .running)
      (userTask y₁ e₁ p₁ .runnable .user) (userTask y₂ e₂ p₂ .runnable .user)
      (threadTask s0 x p .zombie .kernel), 0, (x + 1) % 2 ^ 32, ps, pid⟩ n k' := by
  have hz : d.state = .zombie → d.addressSpace = s0.kernelPageDirectory := fun hdz => by
    rcases hd with ⟨rfl, -⟩ | ⟨⟨y, p, rfl⟩, -⟩
    · cases hdz
    · rfl
  have hreap : Ctl.reap ⟨fourTasks (bootTask s0 .running) (userTask y₁ e₁ p₁ .runnable .user)
      (userTask y₂ e₂ p₂ .runnable .user) d, 0, x, ps, pid⟩ = ⟨fourTasks (bootTask s0 .running)
      (userTask y₁ e₁ p₁ .runnable .user) (userTask y₂ e₂ p₂ .runnable .user) Task.empty, 0, x, ps,
      pid⟩ := by
    unfold Ctl.reap
    congr 1
    funext t
    rcases hd with ⟨rfl, -⟩ | ⟨⟨y, p, rfl⟩, -⟩ <;> fin_cases t <;> rfl
  obtain ⟨k₁, p, r, t₁, h₁, -⟩ := h.create rfl (oneZombie_three nofun nofun (by decide) hz)
    (by rw [hreap]; exact (rfl : _ = some (3 : Fin 16))) (hd.imp And.right fun hd => by
      obtain ⟨⟨y, p, rfl⟩, hroom⟩ := hd
      exact ⟨rfl, hroom⟩)
  rw [hreap] at h₁
  have h₁ : Scene s0 ⟨fourTasks (bootTask s0 .running) (userTask y₁ e₁ p₁ .runnable .user)
      (userTask y₂ e₂ p₂ .runnable .user) (threadTask s0 x p .runnable .start), 0,
      (x + 1) % 2 ^ 32, ps, pid⟩ n k₁ := h₁.tables (fun i => by fin_cases i <;> rfl) rfl rfl rfl rfl
  obtain ⟨k₂, t₂, h₂, -⟩ := h₁.switch (.inl rfl) (noZombie_four nofun nofun nofun)
    (rfl : _ = some (1 : Fin 16))
  have h₂ : Scene s0 ⟨fourTasks (bootTask s0 .runnable) (userTask y₁ e₁ p₁ .running .user)
      (userTask y₂ e₂ p₂ .runnable .user) (threadTask s0 x p .runnable .start), 1,
      (x + 1) % 2 ^ 32, ps, pid⟩ n k₂ := h₂.tables (fun i => by fin_cases i <;> rfl) rfl rfl rfl rfl
  obtain ⟨k₃, t₃, h₃, -⟩ := h₂.switch (.inr ⟨rfl, hcode₁⟩) (noZombie_four nofun nofun nofun)
    (rfl : _ = some (2 : Fin 16))
  have h₃ : Scene s0 ⟨fourTasks (bootTask s0 .runnable) (userTask y₁ e₁ p₁ .runnable .user)
      (userTask y₂ e₂ p₂ .running .user) (threadTask s0 x p .runnable .start), 2,
      (x + 1) % 2 ^ 32, ps, pid⟩ n k₃ := h₃.tables (fun i => by fin_cases i <;> rfl) rfl rfl rfl rfl
  obtain ⟨k₄, t₄, h₄, -⟩ := h₃.switch (.inr ⟨rfl, hcode₂⟩) (noZombie_four nofun nofun nofun)
    (rfl : _ = some (3 : Fin 16))
  have h₄ : Scene s0 ⟨fourTasks (bootTask s0 .runnable) (userTask y₁ e₁ p₁ .runnable .user)
      (userTask y₂ e₂ p₂ .runnable .user) (threadTask s0 x p .running .start), 3,
      (x + 1) % 2 ^ 32, ps, pid⟩ n k₄ := h₄.tables (fun i => by fin_cases i <;> rfl) rfl rfl rfl rfl
  obtain ⟨k₅, hl₅, h₅, -⟩ := h₄.threadTurn rfl rfl (show (3 : Fin 16) ≠ 0 by decide)
    (noZombie_four nofun nofun nofun)
    ((rfl : _ = some (3 + 1 + 12 : Fin 16)).trans (rfl : _ = some (0 : Fin 16)))
  exact ⟨k₅, p, (((t₁.leads.took t₂).took t₃).took t₄).trans hl₅,
    h₅.tables (fun i => by fin_cases i <;> rfl) rfl rfl rfl rfl⟩

/-- `N + 1` cycles. -/
theorem Scene.cycles_both (N : Nat) (h : Scene s0 ⟨fourTasks (bootTask s0 .running)
      (userTask y₁ e₁ p₁ .runnable .user) (userTask y₂ e₂ p₂ .runnable .user) Task.empty, 0, x, ps,
      pid⟩ (n + 1) k)
    (hcode₁ : ∃ i, (ps i).addressSpace = e₁ ∧ ∃ y ∈ (ps i).pages, y.vaddr = 0x00400000)
    (hcode₂ : ∃ i, (ps i).addressSpace = e₂ ∧ ∃ y ∈ (ps i).pages, y.vaddr = 0x00400000) :
    ∃ k' y p, Leads k k' ∧ Scene s0 ⟨fourTasks (bootTask s0 .running)
      (userTask y₁ e₁ p₁ .runnable .user) (userTask y₂ e₂ p₂ .runnable .user)
      (threadTask s0 y p .zombie .kernel), 0, (x + (N + 1)) % 2 ^ 32, ps, pid⟩ n k' := by
  induction N with
  | zero =>
    obtain ⟨k', p, hl, h'⟩ := (h.less (Nat.zero_le _)).cycle_both hcode₁ hcode₂
      (.inl ⟨rfl, h.room⟩)
    exact ⟨k', x, p, hl, h'⟩
  | succ N ih =>
    obtain ⟨k₁, y, p, hl, h₁⟩ := ih
    obtain ⟨k', p', hl', h'⟩ := (h₁.less (Nat.zero_le _)).cycle_both hcode₁ hcode₂
      (.inr ⟨⟨y, p, rfl⟩, h₁.room⟩)
    refine ⟨k', (x + (N + 1)) % 2 ^ 32, p', hl.trans hl', ?_⟩
    rwa [Nat.mod_add_mod] at h'

end

section

variable {s0 : Mm}

/-- **The frame is free, and the process in slot 2 still on it**: a fifth process has its task id,
    and has destroyed its address space. Slot 1 is free. -/
theorem SelfBooted.loose (hs : SelfBooted s0) : ∃ k p₄ p₅ d₅,
    Leads (schedInit s0 selfModule 0 0) k ∧ Scene s0 ⟨fourTasks (bootTask s0 .running) Task.empty
      (userTask 4 0x116000 p₄ .runnable .user)
      (userTask 4 s0.kernelPageDirectory p₅ .zombie .start), 0, 5,
      threeRecords .zero .zero (.spawned 5 4 0 d₅ [0x2f, 0x61]), 6⟩ 17 k ∧
    ¬ Allocated (smallPmm selfArchive) k.mm.pmm 0x116000 := by
  obtain ⟨k₀, p₃, p₄, e, f₁, g₁, f₂, g₂, hl₀, h₀, he⟩ := hs.both
  obtain ⟨k₁, y, p, hl₁, h₁⟩ := h₀.cycles_both (n := 19) (2 ^ 32 - 2)
    ⟨0, rfl, _, List.mem_cons_self, rfl⟩ ⟨1, rfl, _, List.mem_cons_self, rfl⟩
  have h₁ : Scene s0 ⟨fourTasks (bootTask s0 .running) (userTask 3 e p₃ .runnable .user)
      (userTask 4 0x116000 p₄ .runnable .user) (threadTask s0 y p .zombie .kernel), 0, 4,
      threeRecords (runningRecord 3 3 0 e f₁ g₁) (runningRecord 4 4 0 0x116000 f₂ g₂) .zero,
      5⟩ 19 k₁ := h₁
  obtain ⟨k₂, p₅, t₂, h₂, -⟩ := h₁.spawn (n := 17) hs.archive (.inl rfl)
    (oneZombie_three nofun nofun (by decide) fun _ => rfl) (rfl : _ = some (3 : Fin 16))
    (rfl : _ = some (2 : Fin 16)) rfl (show 4 < 2 ^ 31 by decide)
  generalize (pmmAllocPage k₁.mm.pmm).1 = d₅ at h₂
  have h₂ : Scene s0 ⟨fourTasks (bootTask s0 .running) (userTask 3 e p₃ .runnable .user)
      (userTask 4 0x116000 p₄ .runnable .user)
      (userTask 4 s0.kernelPageDirectory p₅ .runnable .start), 0, 5,
      threeRecords (runningRecord 3 3 0 e f₁ g₁) (runningRecord 4 4 0 0x116000 f₂ g₂)
        (.spawned 5 4 0 d₅ [0x2f, 0x61]), 6⟩ 17 k₂ :=
    h₂.tables (fun i => by fin_cases i <;> rfl) rfl rfl (funext fun i => by fin_cases i <;> rfl) rfl
  -- the process in slot 1 ends
  obtain ⟨k₃, t₃, h₃, -⟩ := h₂.switch (.inl rfl) (noZombie_four nofun nofun nofun)
    (rfl : _ = some (1 : Fin 16))
  have h₃ : Scene s0 ⟨fourTasks (bootTask s0 .runnable) (userTask 3 e p₃ .running .user)
      (userTask 4 0x116000 p₄ .runnable .user)
      (userTask 4 s0.kernelPageDirectory p₅ .runnable .start), 1, 5,
      threeRecords (runningRecord 3 3 0 e f₁ g₁) (runningRecord 4 4 0 0x116000 f₂ g₂)
        (.spawned 5 4 0 d₅ [0x2f, 0x61]), 6⟩ 17 k₃ :=
    h₃.tables (fun i => by fin_cases i <;> rfl) rfl rfl rfl rfl
  obtain ⟨bs₃, hb₃⟩ := h₃.backed
  have hsp₃ : e ∈ k₃.mm.spaces := by
    have := (hb₃.mm.pages 0).space
    rw [h₃.ctl] at this
    exact this nofun
  obtain ⟨k₄, t₄, h₄, hsp₄, -⟩ := h₃.exit_root rfl ⟨0, rfl, _, List.mem_cons_self, rfl⟩
    (show (1 : Fin 16) ≠ 0 by decide) (rfl : _ = some (0 : Fin 16))
    (threeRecords_exited nofun nofun nofun) rfl (threeRecords_pids (fun _ => Nat.succ_ne_zero _)
      (fun _ => Nat.succ_ne_zero _) fun _ => Nat.succ_ne_zero _)
    (show ∀ m, _ = threeRecords .zero (runningRecord 4 4 0 0x116000 f₂ g₂)
      (.spawned 5 4 0 d₅ [0x2f, 0x61]) m from fun m => by fin_cases m <;> rfl)
    (noZombie_four nofun nofun nofun) (rfl : _ = some (2 : Fin 16))
  have h₄ : Scene s0 ⟨fourTasks (bootTask s0 .runnable) (userTask 3 e p₃ .zombie .user)
      (userTask 4 0x116000 p₄ .running .user)
      (userTask 4 s0.kernelPageDirectory p₅ .runnable .start), 2, 5,
      threeRecords .zero (runningRecord 4 4 0 0x116000 f₂ g₂) (.spawned 5 4 0 d₅ [0x2f, 0x61]),
      6⟩ 17 k₄ := h₄.tables (fun i => by fin_cases i <;> rfl) rfl rfl rfl rfl
  obtain ⟨k₅, t₅, h₅, -⟩ := h₄.yield_reaps (z := 1)
    (.inr ⟨rfl, 1, rfl, _, List.mem_cons_self, rfl⟩)
    (processZombie_one nofun nofun (by decide) rfl
      (threeRecords_spaces nofun (fun _ => Ne.symm he) nofun))
    (by rw [hsp₄]; exact hsp₃) (rfl : _ = some (3 : Fin 16))
  have h₅ : Scene s0 ⟨fourTasks (bootTask s0 .runnable) Task.empty
      (userTask 4 0x116000 p₄ .runnable .user)
      (userTask 4 s0.kernelPageDirectory p₅ .running .start), 3, 5,
      threeRecords .zero (runningRecord 4 4 0 0x116000 f₂ g₂) (.spawned 5 4 0 d₅ [0x2f, 0x61]),
      6⟩ 17 k₅ := h₅.tables (fun i => by fin_cases i <;> rfl) rfl rfl rfl rfl
  -- the younger one takes the record of the one in slot 2
  obtain ⟨k₆, t₆, h₆, -, hfreed⟩ := h₅.startMapped (x := ⟨0x00400000, f₂⟩) hs.archive rfl rfl
    (show (3 : Fin 16) ≠ 0 by decide) (rfl : _ = some (1 : Fin 16)) rfl
    (threeRecords_alone nofun (fun h => absurd rfl h) nofun) List.mem_cons_self rfl
    (noZombie_four nofun nofun nofun)
    ((rfl : _ = some (3 + 1 + 12 : Fin 16)).trans (rfl : _ = some (0 : Fin 16)))
  exact ⟨k₆, p₄, p₅, d₅,
    ((((((hl₀.trans hl₁).took t₂).took t₃).took t₄).took t₅).took t₆),
    h₆.tables (fun i => by fin_cases i <;> rfl) rfl rfl (funext fun i => by fin_cases i <;> rfl) rfl,
    hfreed⟩

/-- **Two processes on one directory**: a sixth process has taken the frame and slot 1, and its
    program is loaded there when the one in slot 2 goes on -- and ends. -/
theorem SelfBooted.shared (hs : SelfBooted s0) : ∃ k p₄ p₆ f g,
    Leads (schedInit s0 selfModule 0 0) k ∧ Scene s0 ⟨fourTasks (bootTask s0 .running)
      (userTask 5 0x116000 p₆ .runnable .user) (userTask 4 0x116000 p₄ .zombie .user) Task.empty, 0,
      6, threeRecords (runningRecord 6 5 0 0x116000 f g) .zero .zero, 7⟩ 11 k := by
  obtain ⟨k₀, p₄, p₅, d₅, hl₀, h₀, hfreed⟩ := hs.loose
  obtain ⟨bs₀, hb₀⟩ := h₀.backed
  obtain ⟨k₁, p₆, t₁, h₁, hsp₁, -⟩ := h₀.spawn (n := 15) hs.archive (.inl rfl)
    (oneZombie_three nofun nofun (by decide) fun _ => rfl) (rfl : _ = some (1 : Fin 16))
    (rfl : _ = some (0 : Fin 16)) rfl (show 5 < 2 ^ 31 by decide)
  rw [hs.alloc_stale hb₀.mm hfreed] at h₁ hsp₁
  have h₁ : Scene s0 ⟨fourTasks (bootTask s0 .running)
      (userTask 5 s0.kernelPageDirectory p₆ .runnable .start)
      (userTask 4 0x116000 p₄ .runnable .user) Task.empty, 0, 6,
      threeRecords (.spawned 6 5 0 0x116000 [0x2f, 0x61]) .zero (.spawned 5 4 0 d₅ [0x2f, 0x61]),
      7⟩ 15 k₁ :=
    h₁.tables (fun i => by fin_cases i <;> rfl) rfl rfl (funext fun i => by fin_cases i <;> rfl) rfl
  -- its program is loaded
  obtain ⟨k₂, t₂, h₂, hmm₂⟩ := h₁.switch (.inl rfl) (noZombie_four nofun nofun nofun)
    (rfl : _ = some (1 : Fin 16))
  have h₂ : Scene s0 ⟨fourTasks (bootTask s0 .runnable)
      (userTask 5 s0.kernelPageDirectory p₆ .running .start)
      (userTask 4 0x116000 p₄ .runnable .user) Task.empty, 1, 6,
      threeRecords (.spawned 6 5 0 0x116000 [0x2f, 0x61]) .zero (.spawned 5 4 0 d₅ [0x2f, 0x61]),
      7⟩ 15 k₂ := h₂.tables (fun i => by fin_cases i <;> rfl) rfl rfl rfl rfl
  obtain ⟨k₃, g, t₃, h₃, -⟩ := h₂.startProcess (n := 11) hs.archive rfl rfl
    (show (1 : Fin 16) ≠ 0 by decide) (rfl : _ = some (0 : Fin 16)) rfl
    (by rw [hmm₂, hsp₁]; exact List.mem_cons_self)
    (fun m _ => threeRecords_forall (P := fun p => p.pages = []) rfl rfl rfl rfl m)
  generalize (pmmAllocPage k₂.mm.pmm).1 = f at h₃
  have h₃ : Scene s0 ⟨fourTasks (bootTask s0 .runnable) (userTask 5 0x116000 p₆ .running .user)
      (userTask 4 0x116000 p₄ .runnable .user) Task.empty, 1, 6,
      threeRecords (runningRecord 6 5 0 0x116000 f g) .zero (.spawned 5 4 0 d₅ [0x2f, 0x61]),
      7⟩ 11 k₃ :=
    h₃.tables (fun i => by fin_cases i <;> rfl) rfl rfl (funext fun i => by fin_cases i <;> rfl) rfl
  -- the other one goes on in the code that is there now, and finds the record with its id
  obtain ⟨k₄, t₄, h₄, -⟩ := h₃.switch (.inr ⟨rfl, 0, rfl, _, List.mem_cons_self, rfl⟩)
    (noZombie_four nofun nofun nofun) (rfl : _ = some (2 : Fin 16))
  have h₄ : Scene s0 ⟨fourTasks (bootTask s0 .runnable) (userTask 5 0x116000 p₆ .runnable .user)
      (userTask 4 0x116000 p₄ .running .user) Task.empty, 2, 6,
      threeRecords (runningRecord 6 5 0 0x116000 f g) .zero (.spawned 5 4 0 d₅ [0x2f, 0x61]),
      7⟩ 11 k₄ := h₄.tables (fun i => by fin_cases i <;> rfl) rfl rfl rfl rfl
  obtain ⟨k₅, t₅, h₅, -⟩ := h₄.exit_root rfl ⟨0, rfl, _, List.mem_cons_self, rfl⟩
    (show (2 : Fin 16) ≠ 0 by decide) (rfl : _ = some (2 : Fin 16))
    (threeRecords_exited nofun nofun nofun) rfl (threeRecords_pids (fun _ => Nat.succ_ne_zero _)
      (fun h => absurd rfl h) fun _ => Nat.succ_ne_zero _)
    (show ∀ m, _ = threeRecords (runningRecord 6 5 0 0x116000 f g) .zero .zero m from
      fun m => by fin_cases m <;> rfl)
    (noZombie_four nofun nofun nofun)
    ((rfl : _ = some (2 + 1 + 13 : Fin 16)).trans (rfl : _ = some (0 : Fin 16)))
  exact ⟨k₅, p₄, p₆, f, g, ((((hl₀.took t₁).took t₂).took t₃).took t₄).took t₅,
    h₅.tables (fun i => by fin_cases i <;> rfl) rfl rfl rfl rfl⟩

/-- **The directory of a process is free while it waits to start.** The reaper destroys the
    directory as the one of the process that has ended; the other one ends too, and is a zombie on a
    directory that is free. The next process to be spawned takes the frame, and the reaper, which
    `kthread_create` calls then, destroys it as the zombie's. -/
theorem SelfBooted.stale (hs : SelfBooted s0) : ∃ k bs,
    Leads (schedInit s0 selfModule 0 0) k ∧ k.bootModule = selfModule ∧
    MmInv (smallPmm selfArchive) s0 k.processes bs k.mm ∧ FreshSpace k 0 ∧
    (k.processes 0).addressSpace = 0x116000 ∧
    ¬ Allocated (smallPmm selfArchive) k.mm.pmm 0x116000 := by
  obtain ⟨k₀, p₄, p₆, f, g, hl₀, h₀⟩ := hs.shared
  -- the reaper takes the directory from under the process that runs next, which ends too
  obtain ⟨k₁, k₂, t₁, t₂, h₂, hfreed⟩ := h₀.yield_exit (e := ⟨fourTasks (bootTask s0 .runnable)
      (userTask 5 0x116000 p₆ .running .user) Task.empty Task.empty, 1, 6,
      threeRecords (runningRecord 6 5 0 0x116000 f g) .zero .zero, 7⟩) (z := 2)
    (x := ⟨0x00400000, f⟩) (.inl rfl) (by decide) (show (2 : Fin 16) ≠ 0 by decide) rfl
    (fun _ h0 _ ht => fourTasks_only (fun _ => by nofun) (fun h => absurd rfl h)
      (fun _ => by nofun) h0 ht) rfl
    (rfl : _ = some (1 : Fin 16))
    (Ctl.tables_eq (fun i => by fin_cases i <;> rfl) rfl rfl rfl rfl) rfl (by decide) rfl
    (rfl : _ = some (0 : Fin 16)) rfl List.mem_cons_self rfl
    (threeRecords_alone (fun h => absurd rfl h) (fun _ h => absurd rfl h) fun _ h => absurd rfl h)
    (threeRecords_exited nofun nofun nofun) (show 0 < 2 ^ 32 by decide)
    ((Ctl.exitRecords_root ProcessState.noConfusion rfl
      (threeRecords_pids (fun _ => Nat.succ_ne_zero _) (fun h => absurd rfl h)
        fun h => absurd rfl h) 0).trans
      (show _ = threeRecords .zero .zero .zero from funext fun m => by fin_cases m <;> rfl))
    (noZombie_four nofun nofun nofun)
    ((rfl : _ = some (1 + 1 + 14 : Fin 16)).trans (rfl : _ = some (0 : Fin 16)))
  have h₂ : Scene s0 ⟨fourTasks (bootTask s0 .running) (userTask 5 0x116000 p₆ .zombie .user)
      Task.empty Task.empty, 0, 6, threeRecords .zero .zero .zero, 7⟩ 11 k₂ :=
    h₂.tables (fun i => by fin_cases i <;> rfl) rfl rfl rfl rfl
  -- the next process is spawned
  obtain ⟨bs₂, hb₂⟩ := h₂.backed
  have halloc := hs.alloc_stale hb₂.mm hfreed
  obtain ⟨k₃, p₇, t₃, h₃, -, -, hnot, hdir⟩ := h₂.spawn_reaps (n := 10) hs.archive (.inl rfl)
    (processZombie_one nofun nofun (by decide) rfl
      fun m hm => absurd (threeRecords_forall (P := fun p => p.pages = []) rfl rfl rfl rfl m) hm)
    (by rw [halloc]; exact List.mem_cons_self) (rfl : _ = some (1 : Fin 16))
    (rfl : _ = some (0 : Fin 16)) rfl (show 6 < 2 ^ 31 by decide)
  rw [halloc] at h₃ hdir
  obtain ⟨bs₃, hb₃⟩ := h₃.backed
  have hrec : k₃.processes 0 = .spawned 7 6 0 0x116000 [0x2f, 0x61] := by
    rw [h₃.ctl]
    rfl
  exact ⟨k₃, bs₃, ((hl₀.took t₁).took t₂).took t₃, h₃.module, hb₃.mm,
    ⟨by rw [hrec]; rfl, by rw [hrec]; rfl, by rw [hrec]; exact hdir⟩, by rw [hrec]; rfl, hnot⟩

end

end Emyx
