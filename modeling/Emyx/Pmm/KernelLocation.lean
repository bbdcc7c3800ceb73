/-
  File:      Emyx/Pmm/KernelLocation.lean
  Subject:   DOES `check_kernel_location` CHECK THAT THE KERNEL LIES IN RAM?

  It adds up how many bytes of the kernel lie in each type 1 region. A byte in two regions counts
  twice, so a map with entries that overlap passes with bytes missing.

  * `overlapBytes_card` -- `overlap_bytes` counts the bytes of a range in one region;
  * `checkKernelLocation_iff` -- the check passes when no more bytes are missing than are counted
    again;
  * **`kernelLocation_iff`** -- so it is sound exactly on maps that leave no byte out, or leave out
    more than they count again; **`kernelLocation_repeated`** -- a map on which it is not.
-/
import Emyx.Lib.Coverage
import Emyx.Pmm.Run
import Mathlib.Order.Interval.Finset.Nat

namespace Emyx

open Lib

/-! ## 1. The sum -/

/-- The byte `x` counts for the entry: it lies in its type 1 region, and the region does not wrap at
    `2^64`. -/
def Counts (e : MmapEntry) (x : Nat) : Prop :=
  e.type = 1 ∧ e.addr ≤ x ∧ x < e.addr + e.len ∧ e.addr + e.len < 2 ^ 64

instance (e : MmapEntry) : DecidablePred (Counts e) := fun x =>
  inferInstanceAs (Decidable (e.type = 1 ∧ e.addr ≤ x ∧ x < e.addr + e.len ∧ e.addr + e.len < 2 ^ 64))

/-- The bytes of the kernel image. -/
def KernelImage.bytes (img : KernelImage) : Finset Nat := Finset.Ico img.physicalStart img.physicalEnd

/-- The fields of an entry are 64-bit words. -/
structure MmapEntry.Words (e : MmapEntry) : Prop where
  addr : e.addr < 2 ^ 64
  len : e.len < 2 ^ 64

/-- **`overlap_bytes`** counts the bytes of the range that lie in the region. -/
theorem overlapBytes_card {e : MmapEntry} (he : e.Words) {start stop : Nat} (hstop : stop < 2 ^ 64) :
    overlapBytes e start stop = ((Finset.Ico start stop).filter (Counts e)).card := by
  have haddr := he.addr
  have hlen := he.len
  unfold overlapBytes
  by_cases ht : e.type = 1
  · rw [if_neg (by simpa using ht)]
    dsimp only
    by_cases hw : e.addr + e.len < 2 ^ 64
    · have hset : (Finset.Ico start stop).filter (Counts e) =
          Finset.Ico (max start e.addr) (min stop (e.addr + e.len)) := by
        ext x
        simp only [Finset.mem_filter, Finset.mem_Ico, Counts, ht, hw, true_and, and_true]
        omega
      rw [hset, Nat.card_Ico, Nat.mod_eq_of_lt hw]
      split_ifs <;> omega
    · have hset : (Finset.Ico start stop).filter (Counts e) = ∅ :=
        Finset.filter_eq_empty_iff.mpr fun x _ hc => hw hc.2.2.2
      rw [hset, Finset.card_empty]
      split_ifs <;> omega
  · have hset : (Finset.Ico start stop).filter (Counts e) = ∅ :=
      Finset.filter_eq_empty_iff.mpr fun x _ hc => ht hc.1
    rw [if_pos ht, hset, Finset.card_empty]

/-- A sum that is cut to a machine word after every addition. -/
theorem foldl_add_mod {β : Type} (f : β → Nat) (M : Nat) (l : List β) {n : Nat} (hn : n < M) :
    l.foldl (fun n b => (n + f b) % M) n = (n + (l.map f).sum) % M := by
  induction l generalizing n with
  | nil => simp [Nat.mod_eq_of_lt hn]
  | cons b l ih =>
    rw [List.foldl_cons, ih (Nat.mod_lt _ (by omega)), List.map_cons, List.sum_cons,
      Nat.mod_add_mod, Nat.add_assoc]

/-! ## 2. The entries of a map -/

theorem rd64_lt (m : Mem) (a : Nat) : rd64 m a < 2 ^ 64 := by
  have h1 := rd32_lt m a
  have h2 := rd32_lt m (a + 4)
  unfold rd64
  omega

/-- A walk visits at most as many entries as it has turns, and their fields are words. -/
theorem mmapWalk_entries {m : Mem} {stop fuel ptr : Nat} {es : List MmapEntry}
    (h : mmapWalk m stop fuel ptr = .ok es) : es.length ≤ fuel ∧ ∀ e ∈ es, e.Words := by
  induction fuel generalizing ptr es with
  | zero => cases h
  | succ fuel ih =>
    unfold mmapWalk at h
    split_ifs at h
    · obtain ⟨rest, hrest, h⟩ := bind_ok.mp h
      cases h
      obtain ⟨hlen, hwords⟩ := ih hrest
      refine ⟨Nat.succ_le_succ hlen, List.forall_mem_cons.mpr ⟨?_, hwords⟩⟩
      exact ⟨rd64_lt _ _, rd64_lt _ _⟩
    · cases h
      exact ⟨Nat.zero_le _, by simp⟩

/-! ## 3. The check -/

section

variable {img : KernelImage} {es : List MmapEntry}

/-- **The check passes when no more bytes are missing than are counted again.** -/
theorem checkKernelLocation_iff (hwords : ∀ e ∈ es, e.Words) (hlen : es.length ≤ 2 ^ 32 + 1) :
    checkKernelLocation img es = .ok () ↔
      (uncovered Counts img.bytes es).card ≤ recovered Counts img.bytes es := by
  have hk := img.linked
  have hcard : img.bytes.card = img.physicalEnd - img.physicalStart := Nat.card_Ico ..
  have hoverlap : es.map (fun e => overlapBytes e img.physicalStart img.physicalEnd) =
      es.map fun e => (img.bytes.filter (Counts e)).card :=
    List.map_congr_left fun e he => overlapBytes_card (hwords e he) (by omega)
  have hsum := sum_coverage Counts img.bytes es
  -- the sum stays far below `2^64`
  have hbound : (es.map fun e => (img.bytes.filter (Counts e)).card).sum ≤
      es.length * 0x40000000 := by
    have := List.sum_le_card_nsmul (es.map fun e => (img.bytes.filter (Counts e)).card) 0x40000000
      fun n hn => by
        obtain ⟨e, -, rfl⟩ := List.mem_map.mp hn
        exact (Finset.card_filter_le _ _).trans (by omega)
    rwa [List.length_map, smul_eq_mul] at this
  unfold checkKernelLocation
  dsimp only
  rw [foldl_add_mod _ _ _ (by decide), hoverlap, Nat.zero_add, Nat.mod_eq_of_lt (by omega)]
  split_ifs with hlt
  · exact iff_of_false (fun h => by cases h) (by omega)
  · exact iff_of_true rfl (by omega)

/-- **`check_kernel_location` is sound if and only if** the map leaves no byte of the kernel out, or
    leaves out more bytes than it counts again. -/
theorem kernelLocation_iff {m : Mem} {mbi : MultibootInfo} (hes : mmapEntries m mbi = .ok es) :
    (checkKernelLocation img es = .ok () →
      ∀ x, img.physicalStart ≤ x → x < img.physicalEnd → InRam es x) ↔
    (∀ x, img.physicalStart ≤ x → x < img.physicalEnd → InRam es x) ∨
      recovered Counts img.bytes es < (uncovered Counts img.bytes es).card := by
  obtain ⟨hlen, hwords⟩ := mmapWalk_entries hes
  rw [checkKernelLocation_iff hwords hlen, ← Nat.not_le]
  exact imp_iff_or_not

end

/-- RAM for the lower half of the kernel. -/
def halfRam : MmapEntry := ⟨20, 0x100000, 0x8000, 1⟩

/-- The machine whose map lists that RAM twice. -/
def halfMem : Mem := wrEntry (wrEntry (fun _ => 0) 0x9000 halfRam) 0x9018 halfRam

/-- **With an entry listed twice, half of the kernel passes for all of it.** -/
theorem kernelLocation_repeated :
    checkMmap halfMem (mapInfo 2) = .ok () ∧ mmapEntries halfMem (mapInfo 2) = .ok [halfRam, halfRam] ∧
      checkKernelLocation smallImage [halfRam, halfRam] = .ok () ∧
      ∃ x, smallImage.physicalStart ≤ x ∧ x < smallImage.physicalEnd ∧
        ¬ InRam [halfRam, halfRam] x := by
  refine ⟨by decide +kernel, by decide +kernel, by decide +kernel, 0x108000, by decide, by decide, ?_⟩
  intro h
  obtain ⟨e, he, -, -, hlt⟩ := h
  have heq : e = halfRam := by simpa using he
  rw [heq] at hlt
  exact absurd hlt (by decide)

/-- The kernel of the machine with RAM from 1 MiB on. -/
theorem kernelLocation_lowMem :
    checkKernelLocation smallImage [lowRam] = .ok () ∧
      ∀ x, smallImage.physicalStart ≤ x → x < smallImage.physicalEnd → InRam [lowRam] x := by
  have hes : mmapEntries lowMem (mapInfo 1) = .ok [lowRam] := by decide +kernel
  have hk : checkKernelLocation smallImage [lowRam] = .ok () := by decide +kernel
  refine ⟨hk, (kernelLocation_iff hes).mpr (.inl fun x hlo hhi => ?_) hk⟩
  have hlow : 0x100000 ≤ x := hlo
  have hend : x < 0x110000 := hhi
  refine ⟨lowRam, List.mem_singleton_self _, rfl, hlow, ?_⟩
  show x < 0x140000
  omega

end Emyx
