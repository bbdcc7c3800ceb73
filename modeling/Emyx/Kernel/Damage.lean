/-
  File:      Emyx/Kernel/Damage.lean
  Subject:   THE CALLS THAT REAP, ON A DAMAGED HEAP.

  A zombie's stack is a block of the heap, and `kfree` follows the block's `next`. If that word is
  no address of a block, the reaper faults, and with it every call that comes to the reaper:
  `user_wait`, `sys_exit`, `user_spawn` and `sched_yield`.

  * `Mm.damage` -- memory with such a word; `MmInv.damage` -- all else is in order there;
  * `Kernel.Damaged` -- a zombie's stack has such a block; what each call then does.
-/
import Emyx.Kernel.Forward

namespace Emyx

open Lib

/-! ## 1. A block that leads nowhere -/

/-- `kfree` of the block at `b`, whose `next` is 1. -/
theorem kfree_damaged {s : Mm} {b : Nat} (hb : b + 12 ≤ 0x1000000) (hw : rd32 s.mem (b + 8) = 1) :
    kfree s (0xC0000000 + b + 12) = .error (.pageFault 1) := by
  have hblock : (0xC0000000 + b + 12 + 2 ^ 32 - 12) % 2 ^ 32 = 0xC0000000 + b := by omega
  have hword : rd32 (wr8 s.mem (b + 4) 1) (b + 8) = 1 := by
    rw [← hw]
    exact rd32_congr fun j _ => wr8_outside (.inr (by omega))
  have hload : loadBlock (wr8 s.mem (b + 4) 1) (0xC0000000 + b) =
      .ok ⟨rd32 (wr8 s.mem (b + 4) 1) b, wr8 s.mem (b + 4) 1 (b + 4), 1⟩ := by
    unfold loadBlock
    rw [if_pos (by omega), Nat.add_sub_cancel_left, hword]
  have hcoalesce : coalesceNext (0xC0000000 + b) (2 ^ 32 + 1) (wr8 s.mem (b + 4) 1) =
      .error (.pageFault 1) := by
    rw [coalesceNext, hload, ok_bind, if_neg Nat.one_ne_zero]
    rfl
  unfold kfree
  rw [if_neg (by omega), hblock]
  dsimp only
  rw [poke8_ok (b + 4) (by omega) (by omega), ok_bind, hcoalesce]
  rfl

/-- The word at `a` is 1, and the list of the heap is empty. -/
def Mm.damage (s : Mm) (a : Nat) : Mm := { s with mem := wr32 s.mem a 1, list := 0 }

section

variable {p0 : Pmm} {s0 s : Mm} {ps : Fin 16 → UserProcess} {bs : List Blk} {a : Nat}

theorem Mm.damage_mem {x : Nat} (ha : ∀ y, a ≤ y → y < a + 4 → InPages s.heapPages y)
    (hx : ¬ InPages s.heapPages x) : (s.damage a).mem x = s.mem x := by
  refine wr32_outside ?_
  by_contra h
  exact hx (ha x (by omega) (by omega))

/-- A frame that is no page of the heap is as it was. -/
theorem MmInv.damage_page (h : MmInv p0 s0 ps bs s)
    (ha : ∀ y, a ≤ y → y < a + 4 → InPages s.heapPages y) {r : Role Client} {g : Nat}
    (hr : frameOf s (heldBy s.heapPages ps) r = some g) (hne : ∀ c, r ≠ .client (.heap c)) :
    SamePage s.mem (s.damage a).mem g := fun _ hx => Mm.damage_mem ha (h.not_heap hr hne hx)

/-- **All but the heap is in order**, and the heap is when it has no blocks. -/
theorem MmInv.damage (h : MmInv p0 s0 ps bs s)
    (ha : ∀ y, a ≤ y → y < a + 4 → InPages s.heapPages y) : MmInv p0 s0 ps [] (s.damage a) := by
  have htab : SameTables s (s.damage a).mem :=
    ⟨fun _ hd => h.damage_page ha (frameOf_dir hd) nofun,
      fun _ _ _ hd hi ht => h.damage_page ha ((frameOf_table hd hi).trans ht) nofun⟩
  obtain ⟨hdir, -⟩ := h.vm.words_same htab
  have hvm := h.vm.of_sameTables htab
  refine h.of_same ⟨rfl, rfl, fun d j hd _ hj => hdir d j hd hj, fun x hx => ?_⟩ (fun d hd => hd)
    ⟨hvm.pmm, hvm.low, hvm.own, hvm.nodup, hvm.dirLimit, hvm.tableLimit, hvm.shared, hvm.direct⟩
    ⟨⟨h.heap.shape.page, .nil, nofun, nofun⟩, rfl⟩ (fun d hd n f => ?_) h.pages
  · refine Mm.damage_mem ha fun ⟨g, hg, hgx⟩ => ?_
    exact hx _ _ (h.vm.own.mem (frameOf_heap hg)) hgx
  · have hmap := h.vm.mapOf_same htab
    exact (iff_of_eq (congrArg (fun g : AddressMap => g d n = some f) hmap)).trans (h.maps d hd n f)

end

/-! ## 2. The calls -/

/-- The zombie in slot `z` is a thread's, the only one there is, and the block of its stack, at `b`,
    has its `next` at 1. -/
structure Kernel.Damaged (k : Kernel) (z : Fin 16) (b : Nat) : Prop where
  slot : z ≠ 0 ∧ z ≠ k.currentTask
  zombie : (k.tasks z).state = .zombie
  only : ∀ t, t ≠ 0 → t ≠ k.currentTask → (k.tasks t).state = .zombie → t = z
  space : (k.tasks z).addressSpace = k.mm.kernelPageDirectory
  stack : (k.tasks z).stack = 0xC0000000 + b + 12
  low : b + 12 ≤ 0x1000000
  word : rd32 k.mm.mem (b + 8) = 1

section

variable {p0 : Pmm} {s0 : Mm} {bs : List Blk} {k k' : Kernel} {z i : Fin 16} {b pid : Nat}

/-- What the call does to the current task and elsewhere in memory does not matter. -/
theorem Kernel.Damaged.congr (h : k.Damaged z b) (hcur : k'.currentTask = k.currentTask)
    (htasks : ∀ t, t ≠ k.currentTask → k'.tasks t = k.tasks t)
    (hkd : k'.mm.kernelPageDirectory = k.mm.kernelPageDirectory)
    (hword : ∀ x, b + 8 ≤ x → x < b + 12 → k'.mm.mem x = k.mm.mem x) : k'.Damaged z b where
  slot := by rw [hcur]; exact h.slot
  zombie := by rw [htasks z h.slot.2]; exact h.zombie
  only t h0 hc ht := by
    rw [hcur] at hc
    rw [htasks t hc] at ht
    exact h.only t h0 hc ht
  space := by rw [htasks z h.slot.2, hkd]; exact h.space
  stack := by rw [htasks z h.slot.2]; exact h.stack
  low := h.low
  word := (rd32_congr fun j hj => hword _ (by omega) (by omega)).trans h.word

/-- **The reaper faults.** -/
theorem Kernel.Damaged.reapZombies (h : k.Damaged z b) :
    Emyx.reapZombies k = .error (.pageFault 1) := by
  refine foldlM_error ((mem_slots z).mpr h.slot.1) (fun t ht hne => if_pos ?_) ?_
  · by_contra hc
    rw [not_or, not_not] at hc
    exact hne (h.only t ((mem_slots t).mp ht) hc.1 hc.2)
  · have hstack : (k.tasks z).stack ≠ 0 := by
      rw [h.stack]
      omega
    rw [if_neg (by rw [not_or, not_not]; exact ⟨h.slot.2, h.zombie⟩)]
    unfold taskCleanup
    dsimp only
    rw [if_neg (fun hc => hc.2 h.space), ok_bind, if_pos hstack, h.stack,
      kfree_damaged h.low h.word]
    rfl

theorem Kernel.Damaged.schedYield (h : k.Damaged z b) :
    Emyx.schedYield k = .error (.pageFault 1) := bind_error h.reapZombies _

/-- **`user_wait` faults** when it has to yield. -/
theorem Kernel.Damaged.userWait (h : k.Damaged z b) (hc : k.caller = some i)
    (ht : waitTurn k.processes i pid = none) : Emyx.userWait k pid = .error (.pageFault 1) := by
  have hset : Kernel.Damaged { k with toCtl := k.setCont (.waiting i pid) } z b :=
    h.congr rfl (fun t ht => Function.update_of_ne ht ..) rfl fun _ _ _ => rfl
  unfold Emyx.userWait waitLoop
  rw [Ctl.caller_eq, hc]
  dsimp only
  rw [ht]
  exact bind_error hset.schedYield _

theorem Kernel.Damaged.kthreadExit (h : k.Damaged z b) (h0 : k.currentTask ≠ 0) :
    Emyx.kthreadExit k = .error (.pageFault 1) := by
  have hzombie : Kernel.Damaged { k with toCtl := k.zombify } z b :=
    h.congr rfl (fun t ht => Function.update_of_ne ht ..) rfl fun _ _ _ => rfl
  exact (if_neg h0).trans (bind_error hzombie.schedYield _)

/-- **`sys_exit` faults**, after the process has given its pages back. -/
theorem Kernel.Damaged.sysExit (h : k.Damaged z b) (hmm : MmInv p0 s0 k.processes bs k.mm)
    (hb : ∀ x, b + 8 ≤ x → x < b + 12 → InPages k.mm.heapPages x) (h0 : k.currentTask ≠ 0)
    (hc : k.caller = some i) (hx : ∀ m, (k.processes m).state = .exited → (k.processes m).pages = [])
    (status : Nat) : Emyx.sysExit k status = .error (.pageFault 1) := by
  obtain ⟨mm, e, hmm', -, -, -, hheap⟩ := hmm.exitCurrent hc hx status
  have hexit : ∀ out, Kernel.Damaged { k with
      mm := mm, processes := k.exitRecords i status, console := out } z b := fun _ =>
    h.congr rfl (fun _ _ => rfl) (hmm'.kernel.trans hmm.kernel.symm)
      fun x h1 h2 => hheap x (hb x h1 h2)
  unfold Emyx.sysExit
  rw [e, ok_bind]
  exact (hexit _).kthreadExit h0

/-- **`user_spawn` faults**, after the directory is there. -/
theorem Kernel.Damaged.userSpawn (h : k.Damaged z b) (hmm : MmInv p0 s0 k.processes bs k.mm)
    (hb : ∀ x, b + 8 ≤ x → x < b + 12 → InPages k.mm.heapPages x) {name : List Byte}
    {file : Nat × Nat} (hlen : name.length ≠ 0) (h32 : name.length < 32)
    (hfile : initramfsFind k.mm.mem k.bootModule name = .ok (some file))
    (hi : userProcessAlloc k.processes = some i) {n : Nat} (hroom : Room k.mm.pmm (n + 1)) :
    Emyx.userSpawn k (some name) = .error (.pageFault 1) := by
  rcases hmm.create with ⟨-, -, hno⟩ | ⟨f, p', m', -, ec, hf0, -, hmm', -, hoff⟩
  · exact absurd hno hroom.low
  have hword : ∀ x, b + 8 ≤ x → x < b + 12 → m' x = k.mm.mem x := fun x h1 h2 => by
    refine hoff x fun hin => hmm'.dir_not_heap (.inr List.mem_cons_self) hin ?_
    exact hb x h1 h2
  unfold Emyx.userSpawn spawnInto
  simp only [hfile, ok_bind, hi, ec, if_neg hf0,
    if_neg (show ¬ (name.length = 0 ∨ name.length ≥ 32) by omega)]
  refine bind_error (bind_error ?_ _) _
  exact Kernel.Damaged.reapZombies (z := z) (b := b) (h.congr rfl (fun _ _ => rfl) rfl hword)

end

end Emyx
