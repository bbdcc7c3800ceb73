/-
  File:      Emyx/Kernel/Stale.lean
  Subject:   LOADING A PROGRAM, WHATEVER FREE FRAMES HOLD.

  * `StaleCopy` -- the same kernel, with other bytes in the frames that are free;
  * **`prepareExec_loads`** -- in every state of a run in which each task that is created gets an
    id not in use, `user_prepare_exec` loads exactly the image into a fresh address space, or
    leaves nothing behind;
  * `prepareExec_fails` -- when `next_task_id` has come round, a process is spawned whose directory
    is given back before `user_spawn` returns: its program is loaded over its own directory.
-/
import Emyx.Kernel.Shared

namespace Emyx

open Lib

/-! ## 1. Loading keeps its promise -/

/-- `k` is `k₀` but for the bytes of frames that may be taken and are not. -/
structure StaleCopy (p0 : Pmm) (k₀ k : Kernel) : Prop where
  kernel : k = { k₀ with mm := { k₀.mm with mem := k.mm.mem } }
  memory : ∀ x, Outside p0 x ∨ (∃ f, Allocated p0 k₀.mm.pmm f ∧ InPage f x) →
    k.mm.mem x = k₀.mm.mem x

section

variable {m : Mem} {img : KernelImage} {mbi : MultibootInfo} {p0 : Pmm} {s0 : Mm}
variable {k₀ k k' : Kernel} {i : Fin 16} {path : List Byte}

theorem StaleCopy.refl (p0 : Pmm) (k : Kernel) : StaleCopy p0 k k := ⟨rfl, fun _ _ => rfl⟩

/-- The frames in use are the same, so memory's invariant is. -/
theorem StaleCopy.mmInv (hk : StaleCopy p0 k₀ k) {bs : List Blk}
    (h : MmInv p0 s0 k₀.processes bs k₀.mm) : MmInv p0 s0 k.processes bs k.mm := by
  have hpage : ∀ (r : Role Client) g,
      frameOf k₀.mm (heldBy k₀.mm.heapPages k₀.processes) r = some g → SamePage k₀.mm.mem k.mm.mem g :=
    fun r g hr x hx => hk.memory x (.inr ⟨g, h.vm.own.mem hr, hx⟩)
  have htab := sameTables_of_roles hpage
  obtain ⟨hdir, -⟩ := h.vm.words_same htab
  have hheap : HeapInv { k₀.mm with mem := k.mm.mem } bs :=
    h.heap.of_pages rfl rfl fun g hg => hpage (.client (.heap g)) g (frameOf_heap hg)
  rw [hk.kernel]
  refine h.of_same ⟨rfl, rfl, fun d j hd _ hj => hdir d j hd hj, fun x hx => hk.memory x (.inl hx)⟩
    (fun d hd => hd) (h.vm.of_sameTables htab) hheap (fun d hd n f => ?_) h.pages
  rw [h.vm.mapOf_same htab]
  exact h.maps d hd n f

/-- **`user_prepare_exec` loads the image or leaves nothing**, in every state of a run in which ids
    stay fresh, whatever the free frames hold. -/
theorem prepareExec_loads {bm : BootModule} {tr esp0 : Nat} {ops : List Op} {r : Int}
    (hb : Booted m img mbi p0 s0) (h : KRun FreshSteps (schedInit s0 bm tr esp0) ops k₀)
    (hk : StaleCopy p0 k₀ k) (hm : ModuleApart img p0 k.bootModule) (hf : FreshSpace k i)
    (e : userPrepareExec k i path = .ok (r, k')) :
    r = 0 ∧ LoadsImage k i path k' ∨ r = -1 ∧ LeavesNothing p0 k i k' := by
  obtain ⟨bs, ho⟩ := (h.kernelInv hb).owned
  have hps : k.processes = k₀.processes := by rw [hk.kernel]
  have hcreated : (k₀.processes i).state = .created := hps ▸ hf.created
  have hsp : (k.processes i).addressSpace ∈ k.mm.spaces := by
    rw [hk.kernel]
    exact ho.spaces.mem (spaceOf_record _ hcreated)
  exact (hk.mmInv ho.mm).prepareExec_cases hb.halfClosed hf hsp hm e

end

/-- The archive lies apart from the frames, from the kernel and from the screen. -/
theorem moduleApart_self : ModuleApart smallImage (smallPmm selfArchive) selfModule := by
  have hlow : ∀ x, selfModule.Covers x → x < 0x60000 := by
    rintro x ⟨i, hi, hx⟩
    have hi : i < 114 := hi
    have hx : (0xC0050000 + i) % 2 ^ 32 = 0xC0000000 + x := hx
    omega
  have hbase : (smallPmm selfArchive).bitmapBase = 0x110000 := by
    unfold smallPmm lowPmm
    exact (pmmSetup_geometry ..).2.1
  refine ⟨fun x hx => smallPmm_outside _ ?_, fun x hx => .inl ?_, fun x hx h => ?_,
    fun x hx => .inl ?_⟩ <;> have := hlow x hx
  · omega
  · exact show x < 0x100000 by omega
  · have := h.1
    omega
  · omega

/-- The first process, before it starts. -/
theorem prepareExec_loads_spawned : ∃ s0 k r k',
    Booted (smallMem selfArchive) smallImage smallInfo (smallPmm selfArchive) s0 ∧
    KRun FreshSteps (schedInit s0 selfModule 0 0) [.spawn (some [0x2f, 0x61])] k ∧
    FreshSpace k 0 ∧ userPrepareExec k 0 [0x2f, 0x61] = .ok (r, k') ∧
    (r = 0 ∧ LoadsImage k 0 [0x2f, 0x61] k' ∨
      r = -1 ∧ LeavesNothing (smallPmm selfArchive) k 0 k') := by
  obtain ⟨s0, hs⟩ := selfBooted
  obtain ⟨k, p, hrun, -, h, hsp, hdir⟩ := hs.spawned
  obtain ⟨bs, hb⟩ := h.backed
  have hrec : k.processes = threeRecords (.spawned 1 1 0 0x116000 [0x2f, 0x61]) .zero .zero := by
    rw [h.ctl]
  have hf : FreshSpace k 0 := ⟨by rw [hrec]; rfl, by rw [hrec]; rfl, by rw [hrec]; exact hdir⟩
  have hprog := hasProgram hb.mm hs.archive
  have hfind := hprog.find
  rw [← h.module] at hfind
  obtain ⟨k₁, k₂, f, g, e, -⟩ := hb.mm.prepareExec_ok (n := 36) (i := 0) (by rw [hrec]; exact hsp)
    (fun j _ => by rw [hrec]; fin_cases j <;> rfl) hfind hprog.header hprog.source h.room
  refine ⟨s0, k, _, _, hs.booted, hrun, hf, e, ?_⟩
  exact prepareExec_loads hs.booted hrun (.refl _ k) (by rw [h.module]; exact moduleApart_self) hf e

/-! ## 2. The program is loaded over its directory -/

section

variable {p0 : Pmm} {s0 : Mm} {bs : List Blk} {k : Kernel} {i : Fin 16} {d a w size : Nat}

/-- `vmm_map_page_in` refuses a page whose directory entry leads back to the directory. -/
theorem mapPageIn_self {s : Mm} {flags : Nat} (hdm : DirectMap s) (hd : d % 4096 = 0) (hd0 : d ≠ 0)
    (hlim : d + 4096 ≤ 0x1000000) (hw : w &&& 1 ≠ 0) (hframe : entryFrame w = d)
    (h0 : rd32 s.mem d = w) (h1 : rd32 s.mem (d + 4) = w) :
    vmmMapPageIn s d 0x00400000 d flags = .ok (-1, s) := by
  have hland : d &&& (4096 - 1) = 0 := by
    rw [show (4096 : Nat) - 1 = 2 ^ 12 - 1 by decide, Nat.and_two_pow_sub_one_eq_mod]
    exact hd
  have hptr : vmmPhysToVirt d = 0xC0000000 + d := vmmPhysToVirt_of_lt (by omega)
  have hpde : s.load (0xC0000000 + d) 1 = .ok w := (hdm.load hlim (by decide)).trans (by rw [h1])
  have hpte : s.load (0xC0000000 + d) 0 = .ok w :=
    (hdm.load hlim (by decide)).trans (by rw [← h0]; rfl)
  have hsmall : ¬ (d ≠ s.kernelPageDirectory ∧ pdeIndex 0x00400000 ≥ 768) := fun h =>
    absurd h.2 (by decide)
  unfold vmmMapPageIn mapTable mapEntry
  rw [if_neg (by rintro (h | h); exacts [hd0 h, h (by decide)]), if_neg (not_not.mpr hland),
    if_neg hsmall, hptr, show pdeIndex 0x00400000 = 1 by decide,
    show pteIndex 0x00400000 = 0 by decide]
  simp only [hpde, ok_bind, if_pos hw, hframe, hptr, pure_bind, hpte]
  rw [if_neg (by omega), if_neg (by omega)]
  rfl

/-- `map_copied_user_page` takes the directory for the page: it clears it, copies the code to it,
    and finds entries there. -/
theorem mapCopied_self (h : MmInv p0 s0 k.processes bs k.mm)
    (hsp : (k.processes i).addressSpace = d) (hpages : (k.processes i).pages = [])
    (halloc : (pmmAllocPage k.mm.pmm).1 = d) (hfreed : ¬ Allocated p0 k.mm.pmm d)
    (hd : d % 4096 = 0) (hd0 : d ≠ 0) (hlim : d + 4096 ≤ 0x1000000)
    (hsize : 8 ≤ size) (hsize' : size ≤ 4096) (ha : 0xC0000000 ≤ a ∧ a + size ≤ 0xC1000000)
    (hapart : ∀ x, x < size → ¬ InPage d (a - 0xC0000000 + x))
    (hw : w &&& 1 ≠ 0) (hframe : entryFrame w = d) (hw32 : w < 2 ^ 32)
    (hcode : HoldsBytes k.mm.mem (a - 0xC0000000) (le32 w ++ le32 w)) :
    ∃ k', mapCopiedUserPage k i 0x00400000 (some a) size 0 = .ok (-1, k') ∧
      k'.processes = k.processes ∧ rd32 k'.mm.mem d = w ∧ rd32 k'.mm.mem (d + 4) = w := by
  have hfill : Filled k.mm.mem _ d (some a) size := filled_copy hsize' (.inr ha)
  have hset : DirectMap { k.mm with
      pmm := (pmmAllocPage k.mm.pmm).2, mem := memset k.mm.mem d 0 4096 } :=
    (h.vm.of_samePages (h.vm.fresh_write hfreed hd (filled_clear _ _ 0).other)).direct
  have hfilled : DirectMap { k.mm with
      pmm := (pmmAllocPage k.mm.pmm).2
      mem := memcpy (memset k.mm.mem d 0 4096) d (a - 0xC0000000) size } :=
    (h.vm.of_samePages (h.vm.fresh_write hfreed hd hfill.other)).direct
  have hbytes : HoldsBytes _ d (le32 w ++ le32 w) := hcode.congr fun x (hx : x < 8) =>
    (hfill.bytes (fun b hb => by cases hb; exact hapart) x (by omega)).trans (if_pos (by omega))
  obtain ⟨hb0, hb1⟩ := reads_append.mp hbytes
  have h0 := HoldsBytes.rd32_le32 hb0 hw32
  have h1 := HoldsBytes.rd32_le32 hb1 hw32
  have emap := @mapPageIn_self d w _ (1 ||| 4 ||| 0) hfilled hd hd0 hlim hw hframe h0 h1
  refine ⟨{ k with mm := Mm.freePage { k.mm with
      pmm := (pmmAllocPage k.mm.pmm).2
      mem := memcpy (memset k.mm.mem d 0 4096) d (a - 0xC0000000) size } d }, ?_, rfl, h0, h1⟩
  have hclear : DirectMap { k.mm with pmm := (pmmAllocPage k.mm.pmm).2 } := h.vm.direct
  unfold mapCopiedUserPage Mm.allocPage
  dsimp only
  rw [halloc, hpages, if_neg (show ¬ ([] : List UserPage).length ≥ 16 by decide),
    if_neg (show ¬ size > 4096 by omega), if_neg hd0, vmmPhysToVirt_of_lt (by omega),
    if_neg (by omega), hclear.clearPage hlim, ok_bind, hsp]
  simp only [Mm.copyIn, hset.direct (show d < 0x1000000 by omega), ok_bind, if_pos (Or.inr ha),
    pure_bind, emap, if_pos (show (-1 : Int) ≠ 0 by decide)]
  rfl

/-- The two words lead from the directory back to it. -/
theorem walk_self {m : Mem} (hw : w % 2 = 1) (hframe : entryFrame w = d) (h0 : rd32 m d = w)
    (h1 : rd32 m (d + 4) = w) : walk m d 0x00400000 ≠ none := by
  have hpte : pteWord m d 1 0 = w := by
    unfold pteWord
    rw [tableOf_of_word (i := 1) h1 hw, hframe]
    exact h0
  unfold walk
  rw [show pdeIndex 0x00400000 = 1 by decide, show pteIndex 0x00400000 = 0 by decide, hpte,
    if_pos hw]
  exact nofun

end

/-- **A failed load leaves a page mapped**: the directory was given back before the program was
    loaded, and becomes the page its code is copied to. -/
theorem prepareExec_fails : ∃ s0 ops k r k',
    Booted (smallMem selfArchive) smallImage smallInfo (smallPmm selfArchive) s0 ∧
    bootInit (smallMem selfArchive) smallInfo = .ok selfModule ∧
    KRun CodeThere (schedInit s0 selfModule 0 0) ops k ∧
    ModuleApart smallImage (smallPmm selfArchive) k.bootModule ∧ FreshSpace k 0 ∧
    userPrepareExec k 0 [0x2f, 0x61] = .ok (r, k') ∧
    ¬ (r = 0 ∧ LoadsImage k 0 [0x2f, 0x61] k' ∨
      r = -1 ∧ LeavesNothing (smallPmm selfArchive) k 0 k') := by
  obtain ⟨s0, hs⟩ := selfBooted
  obtain ⟨k, bs, ⟨ops, hrun⟩, hmod, hmm, hf, hsp, hnot⟩ := hs.stale
  have hprog := hasProgram hmm hs.archive
  have hfind := hprog.find
  rw [← hmod] at hfind
  obtain ⟨k₁, e₁, hps, h0, h1⟩ := mapCopied_self (w := 0x00116007) hmm hsp hf.pages
    (hs.alloc_stale hmm hnot) hnot (by decide) (by decide) (by decide) (a := 0xC005003C)
    (show 8 ≤ 54 by decide) (by decide) (by decide) (fun x hx => by unfold InPage; omega)
    (by decide) (by decide) (by decide) (reads_append.mp hprog.code).1
  have hnil : (k₁.processes 0).pages = [] := by
    rw [hps]
    exact hf.pages
  have e : userPrepareExec k 0 [0x2f, 0x61] = .ok (-1, k₁) := by
    unfold userPrepareExec prepareExecSteps loadEmxf
    rw [show 0xC005003C = (0xC0050030 + 12) % 2 ^ 32 by decide] at e₁
    simp only [hfind, ok_bind, hprog.header, e₁, if_pos (show (-1 : Int) ≠ 0 by decide), pure_bind,
      userProcessFreePages_nil hnil]
    rfl
  refine ⟨s0, ops, k, -1, k₁, hs.booted, hs.module, hrun, by rw [hmod]; exact moduleApart_self, hf,
    e, ?_⟩
  rintro (⟨h, -⟩ | ⟨-, h⟩)
  · cases h
  · have hwalk := h.maps 0x00400000 (by decide)
    rw [hsp] at hwalk
    exact walk_self (w := 0x00116007) (by decide) (by decide) h0 h1 hwalk

end Emyx
