/-
  File:      Emyx/Kernel/FailedSpawn.lean
  Subject:   SPAWNS THAT FAIL, ALONG RUNS.

  * **`spawnFailed_iff`** -- a failed spawn leaves no trace, exactly if no page was taken with the
    counter of free pages at zero;
  * `SelfBooted.threads` -- a run that fills every slot, so that a spawn fails once it has its
    directory;
  * `spawnFailed_uncounted` -- the machine on which the counter leaves zero.
-/
import Emyx.Kernel.Progress
import Emyx.Kernel.Spawn

namespace Emyx

open Lib

/-! ## 1. Every slot is taken -/

/-- Task 0 runs, and the slots 1 … `n` have threads with the stacks `p`. -/
def threadTasks (s0 : Mm) (p : Fin 16 → Nat) (n : Nat) : Fin 16 → Task := fun t =>
  if t = 0 then bootTask s0 .running
  else if t.val ≤ n then threadTask s0 t.val (p t) .runnable .start
  else Task.empty

/-- `n` threads and no process. -/
def threadTables (s0 : Mm) (p : Fin 16 → Nat) (n : Nat) : Ctl :=
  ⟨threadTasks s0 p n, 0, n + 1, threeRecords .zero .zero .zero, 1⟩

section

variable {s0 : Mm} {p : Fin 16 → Nat} {n : Nat} {k : Kernel} {t : Fin 16}

theorem threadTasks_not_zombie : (threadTasks s0 p n t).state ≠ .zombie := by
  unfold threadTasks
  split_ifs <;> nofun

theorem threadTasks_unused (h0 : t ≠ 0) :
    (threadTasks s0 p n t).state = .unused ↔ n < t.val := by
  unfold threadTasks
  rw [if_neg h0]
  split_ifs with h
  · exact iff_of_false nofun (by omega)
  · exact iff_of_true rfl (by omega)

/-- One more thread. -/
theorem threadTasks_succ (hn : n + 1 < 16) (q : Nat) :
    Function.update (threadTasks s0 p n) ⟨n + 1, hn⟩ (threadTask s0 (n + 1) q .runnable .start) =
      threadTasks s0 (Function.update p ⟨n + 1, hn⟩ q) (n + 1) := by
  funext t
  rcases eq_or_ne t ⟨n + 1, hn⟩ with rfl | ht
  · rw [Function.update_self]
    unfold threadTasks
    rw [if_neg (Fin.ne_of_val_ne (Nat.succ_ne_zero n)), if_pos (le_refl _), Function.update_self]
  · rw [Function.update_of_ne ht]
    unfold threadTasks
    have hne : t.val ≠ n + 1 := fun e => ht (Fin.ext e)
    have hle : t.val ≤ n + 1 ↔ t.val ≤ n := by omega
    simp only [Function.update_of_ne ht, hle]

theorem threadTables_reap : (threadTables s0 p n).reap = threadTables s0 p n :=
  Ctl.reap_none fun _ _ _ => threadTasks_not_zombie

/-- The first slot after the threads is free. -/
theorem threadTables_freeSlot (hn : n + 1 < 16) :
    (threadTables s0 p n).freeSlot = some ⟨n + 1, hn⟩ := by
  have hslots : ∀ n : Fin 15, slots.find? (fun t => n.val < t.val) = some n.succ := by decide
  refine Eq.trans ?_ (hslots ⟨n, by omega⟩)
  refine List.find?_congr fun t ht => ?_
  exact decide_eq_decide.mpr (threadTasks_unused ((mem_slots t).mp ht))

theorem threadTables_full : (threadTables s0 p 15).freeSlot = none := by
  refine List.find?_eq_none.mpr fun t ht hu => ?_
  have := (threadTasks_unused ((mem_slots t).mp ht)).mp (of_decide_eq_true hu)
  omega

/-- Task 0 creates one more thread. -/
theorem Scene.moreThreads (h : Scene s0 (threadTables s0 p n) (42 - n) k) (hn : n + 1 < 16) :
    ∃ k' q r, Took k .create r k' ∧ Scene s0 (threadTables s0 q (n + 1)) (42 - (n + 1)) k' := by
  have hj : (threadTables s0 p n).reap.freeSlot = some ⟨n + 1, hn⟩ := by
    rw [threadTables_reap]
    exact threadTables_freeSlot hn
  have hz : (threadTables s0 p n).OneZombie s0.kernelPageDirectory 1 :=
    ⟨⟨by decide, show (1 : Fin 16) ≠ 0 by decide⟩,
      fun _ _ _ hz => absurd hz threadTasks_not_zombie⟩
  obtain ⟨k', q, r, ht, h', -⟩ := (h.less (Nat.zero_le _)).create rfl hz hj
    (.inl (h.room.le (show 42 - (n + 1) + 1 ≤ 42 - n by omega)))
  refine ⟨k', Function.update p ⟨n + 1, hn⟩ q, r, ht, ?_⟩
  rw [threadTables_reap] at h'
  have hid : (n + 1 + 1) % 2 ^ 32 = n + 1 + 1 := Nat.mod_eq_of_lt (by omega)
  exact h'.tables (fun i => congrFun (threadTasks_succ hn q) i) rfl hid rfl rfl

/-- **A run with a thread in every slot.** -/
theorem SelfBooted.threads (hs : SelfBooted s0) : ∀ n, n < 16 → ∃ ops k p,
    KRun (CountersUpTo (2 ^ 31 - 1)) (schedInit s0 selfModule 0 0) ops k ∧
    Scene s0 (threadTables s0 p n) (42 - n) k := by
  intro n
  induction n with
  | zero =>
    intro _
    refine ⟨[], _, fun _ => 0, .boot, ?_⟩
    exact hs.scene.tables (fun i => by fin_cases i <;> rfl) rfl rfl rfl rfl
  | succ n ih =>
    intro hn
    obtain ⟨ops, k, p, hrun, h⟩ := ih (by omega)
    obtain ⟨k', q, r, ht, h'⟩ := h.moreThreads hn
    exact ⟨_, k', q, hrun.took ht (h'.counters (by decide) (by omega)), h'⟩

end

/-- On the machine with the archive the counter of free pages is exact in every state reached. -/
theorem SelfBooted.counted {s0 : Mm} (hs : SelfBooted s0) {C : Kernel → Op → Kernel → Prop}
    {ops : List Op} {k : Kernel} (hrun : KRun C (schedInit s0 selfModule 0 0) ops k) :
    k.mm.pmm.Counted := by
  have hmap := smallMem_holds selfArchive
  have hes := mmapEntries_small selfArchive
  have hpmm := pmmInit_small selfArchive
  refine ((hrun.calls hs.booted).accounted (pmmInit_accounted (by decide) (by decide) hes
    (fun e he _ => ?_) (List.pairwise_singleton _ _) (fun e b hb => ?_) hpmm).1).1.free
  · rw [List.mem_singleton.mp he]
    decide
  · refine entriesClear_holds hmap ?_
    rw [hb.eq_bitmapBase (by decide) (by decide) hes hpmm, show (smallPmm selfArchive).bitmapBase =
      0x110000 by unfold smallPmm lowPmm; exact (pmmSetup_geometry ..).2.1]
    decide

/-! ## 2. A failed spawn leaves no trace -/

section

variable {m : Mem} {img : KernelImage} {mbi : MultibootInfo} {p0 : Pmm} {s0 : Mm} {k k' : Kernel}

/-- **A FAILED SPAWN LEAVES NO TRACE**, exactly if no page is taken with the counter of free pages
    at zero: in every state reached from boot with RAM below 4 GiB and with the counters of pids and
    task ids at most 2³¹ - 1, and for every path. -/
theorem spawnFailed_iff (hb : Booted m img mbi p0 s0) {bm : BootModule} {tr esp0 : Nat}
    {ops : List Op} (h : KRun (CountersUpTo (2 ^ 31 - 1)) (schedInit s0 bm tr esp0) ops k)
    {path : Option (List Byte)} (e : userSpawn k path = .ok (-1, k')) :
    SpawnMeets p0 k k' ↔ ¬ (SpawnAllocates k path ∧ TakesUncounted k) := by
  obtain ⟨-, hpid, hid⟩ := h.sound
  exact spawnMeets_iff (h.kernelInv_counters hb) (h.calls hb) hb.low (pmmInit_free_lt hb.pmmInit)
    (by omega) (by omega) e

end

/-- Every slot is taken: the spawn has its record and its directory, finds no slot for the task, and
    gives both back. -/
theorem spawnFailed_noSlot : ∃ s0 ops k k',
    Booted (smallMem selfArchive) smallImage smallInfo (smallPmm selfArchive) s0 ∧
    KRun (CountersUpTo (2 ^ 31 - 1)) (schedInit s0 selfModule 0 0) ops k ∧
    SpawnAllocates k (some [0x2f, 0x61]) ∧ k.freeSlot = none ∧
    userSpawn k (some [0x2f, 0x61]) = .ok (-1, k') ∧ SpawnMeets (smallPmm selfArchive) k k' := by
  obtain ⟨s0, hs⟩ := selfBooted
  obtain ⟨ops, k, p, hrun, h⟩ := hs.threads 15 (by decide)
  obtain ⟨bs, hb⟩ := h.backed
  have hinv := hrun.kernelInv_counters hs.booted
  have hslot : k.freeSlot = none := by
    rw [h.ctl]
    exact threadTables_full
  have halloc : SpawnAllocates k (some [0x2f, 0x61]) := by
    have hfind := (hasProgram hb.mm hs.archive).find
    rw [← h.module] at hfind
    refine ⟨_, rfl, by decide, by decide, ⟨_, hfind⟩, ?_⟩
    rw [h.ctl]
    exact show userProcessAlloc (threeRecords .zero .zero .zero) ≠ none by decide
  obtain ⟨bs', ho⟩ := hinv.owned
  have hdirect : k.bootModule.Direct := by
    rw [h.module]
    exact .inr ⟨by decide, by decide⟩
  obtain ⟨r, k', e⟩ := ho.spawn_returns hinv.inv hdirect (some [0x2f, 0x61])
  have hr : r = -1 := by
    have hctl := spawn_ctl e
    generalize k'.toCtl = c' at hctl
    cases hctl with
    | spawnRefused => rfl
    | spawnNoDirectory => rfl
    | spawnNoTask => rfl
    | spawnBadId => rfl
    | spawn _ i j t d hi ht =>
      have hfree := ht.slot
      rw [h.ctl, threadTables_reap, threadTables_full] at hfree
      cases hfree
    | waitReturns _ _ _ _ _ hw => cases hw
  subst hr
  refine ⟨s0, ops, k, k', hs.booted, hrun, halloc, hslot, e, ?_⟩
  refine (spawnFailed_iff hs.booted hrun e).mpr ?_
  -- the counter is exact, and pages are free
  rintro ⟨-, i, hi, hzero | ⟨-, -, -, hfree, -⟩⟩
  · have hcount := hs.counted hrun
    have hmem : i ∈ k.mm.pmm.clearPages := Pmm.mem_clearPages.mpr ⟨hi.2.1, hi.2.2.1⟩
    have hcard := Finset.card_pos.mpr ⟨i, hmem⟩
    unfold Pmm.Counted Pmm.CountedOff at hcount
    omega
  · exact hfree hslot

/-- A memory with the archive of one file at `0x50000`, listed as the first module. -/
def archiveMem : Mem :=
  wr32 (wr32 (put (fun _ => 0) 0x50000 49 fun i => oneFile.getD i 0) 0x40000 0x50000)
    0x40004 0x50031

theorem holds_archiveMem : HoldsBytes (overlapMem archiveMem) 0x50000 oneFile := fun i x hx => by
  obtain ⟨hi, rfl⟩ := List.getElem?_eq_some_iff.mp hx
  have hi : i < 49 := hi
  have hmem : overlapMem archiveMem (0x50000 + i) = oneFile.getD i 0 := by
    unfold overlapMem archiveMem
    rw [if_neg (by omega), wr32_outside (by omega), wr32_outside (by omega), put_inside hi]
  exact congrArg Except.ok (hmem.trans (List.getD_eq_getElem _ _ hi))

/-- **On the machine with the overlapping regions a spawn that fails leaves a trace**: no directory
    can be had, and the counter of free pages leaves zero. -/
theorem spawnFailed_uncounted : ∃ (m : Mem) (mbi : MultibootInfo) (p0 : Pmm) (s : Mm)
    (bm : BootModule) (k' : Kernel), Booted m smallImage mbi p0 s ∧ bootInit m mbi = .ok bm ∧
    userSpawn (schedInit s bm 0 0) (some [0x2f, 0x61]) = .ok (-1, k') ∧
    s.pmm.freePages = 0 ∧ k'.mm.pmm.freePages = 1 ∧ ¬ SpawnMeets p0 (schedInit s bm 0 0) k' := by
  obtain ⟨s, hb, hfree, hfirst⟩ := booted_overlap archiveMem
  have hword : ∀ x, 0x40000 ≤ x → overlapMem archiveMem x = archiveMem x := fun x hx =>
    if_neg (by omega)
  have hstart : modStart (overlapMem archiveMem) overlapInfo = 0x50000 := by
    refine (rd32_congr fun i hi => hword _ (by show 0x40000 ≤ 0x40000 + i; omega)).trans ?_
    exact (rd32_wr32_outside (by decide)).trans (rd32_wr32 _ _ _)
  have hend : modEnd (overlapMem archiveMem) overlapInfo = 0x50031 := by
    refine (rd32_congr fun i hi => hword _ (by show 0x40000 ≤ 0x40004 + i; omega)).trans ?_
    exact rd32_wr32 _ _ _
  have hbm := @bootInit_listed (overlapMem archiveMem) overlapInfo (by decide) (by decide)
    (by decide) (by rw [hstart]; decide)
  rw [hstart, hend] at hbm
  have hbm : bootInit (overlapMem archiveMem) overlapInfo = .ok ⟨0xC0050000, 49⟩ := hbm
  -- the archive lies in a page that is never handed out
  have hholds : HoldsBytes s.mem 0x50000 oneFile := holds_archiveMem.congr fun i hi => by
    have hi : i < 49 := hi
    refine vmmInit_outside hb _ (outside_of_set ?_)
    rw [overlapPmm_isSet _ (by omega) (by omega)]
    omega
  have hfile : initramfsFind s.mem ⟨0xC0050000, 49⟩ [0x2f, 0x61] = .ok (some (0xC0050030, 1)) :=
    initramfsFind_file hholds (by decide) (by decide) fileAt_oneFile
  have hinv := kernelInv_boot hb ⟨0xC0050000, 49⟩ 0 0
  have hcalls : PmmCalls (overlapPmm archiveMem) s.pmm :=
    (KRun.boot : KRun (CountersUpTo 1) (schedInit s ⟨0xC0050000, 49⟩ 0 0) [] _).calls hb
  -- the first clear page is beyond the direct map
  have hcreate : vmmCreateAddressSpace s = .ok (0, { s with pmm := undoPage s.pmm }) := by
    obtain ⟨bs, ho⟩ := hinv.owned
    rcases ho.mm.create with ⟨ec, -⟩ | ⟨f, p', m', ef, -, -, -, hmm, -⟩
    · exact ec
    · have hlim := hmm.vm.dirLimit f (.inr List.mem_cons_self)
      rcases pmmAllocPage_answer (p := s.pmm) (by rw [hcalls.maxPage]; exact hb.low) with
        ⟨-, hfull, -⟩ | ⟨i, hi, hpage, -⟩
      · exact absurd hfull hfirst.not_full
      · obtain rfl := hi.unique hfirst
        have hf : f = 0x1000 * 4096 := (congrArg Prod.fst ef).symm.trans hpage
        omega
  have hundo : (undoPage s.pmm).freePages = 1 := by
    obtain ⟨c, hc, hone, -⟩ := @undoPage_counter s.pmm (by rw [hcalls.maxPage]; exact hb.low)
      (by rw [hfree]; decide)
    rw [hc]
    exact hone ⟨hfree, _, hfirst⟩
  obtain ⟨k', e, hmm⟩ := @userSpawn_noDirectory (schedInit s ⟨0xC0050000, 49⟩ 0 0) 0
    [0x2f, 0x61] _ _ (by decide) (by decide) hfile rfl hcreate
  refine ⟨_, _, _, s, ⟨0xC0050000, 49⟩, k', hb, hbm, e, hfree, by rw [hmm]; exact hundo, ?_⟩
  have hone : 1 < 2 ^ 31 := by decide
  rw [spawnMeets_iff hinv hcalls hb.low (pmmInit_free_lt hb.pmmInit) hone hone e, not_not]
  exact ⟨⟨_, rfl, by decide, by decide, ⟨_, hfile⟩, nofun⟩, 0x1000, hfirst, .inl hfree⟩

end Emyx
