/-
  File:      Emyx/Multiboot.lean
  Subject:   THE MULTIBOOT INFORMATION AND THE WALK OVER ITS MEMORY MAP (boot.h, the loops of
             pmm.c).

  The memory map is a byte buffer. Every function of pmm.c that reads it runs the same loop: a
  pointer starts at the buffer's virtual address and advances by `entry->size + 4` (32-bit
  arithmetic on untrusted data) until it passes the end. `mmapWalk` is that loop; it yields the
  entries it visits, in order, or the way it fails to end.

  The walk runs under the bootstrap tables of boot.S, which map physical `[0, 16 MiB)` twice, at
  `0` and at `0xC0000000`; an access anywhere else faults.
-/
import Emyx.Machine

namespace Emyx

open Lib

/-- `multiboot_info`, with the fields the kernel reads. -/
structure MultibootInfo where
  /-- where it lies: `vmm_virt_to_phys(mbi)` -/
  addr : Nat
  flags : Nat
  modsCount : Nat
  modsAddr : Nat
  mmapLength : Nat
  mmapAddr : Nat
  deriving DecidableEq

/-- `sizeof(multiboot_info)` -/
def MultibootInfo.size : Nat := 52

/-- `multiboot_mmap_entry` -/
structure MmapEntry where
  size : Nat
  addr : Nat
  len : Nat
  type : Nat
  deriving DecidableEq

/-! ## 1. Reading under the bootstrap tables -/

/-- The `n` bytes at the virtual address `v` are mapped. -/
def BootReadable (v n : Nat) : Prop :=
  v + n ≤ 0x1000000 ∨ 0xC0000000 ≤ v ∧ v + n ≤ 0xC1000000

instance (v n : Nat) : Decidable (BootReadable v n) :=
  inferInstanceAs (Decidable (_ ∨ _ ∧ _))

/-- The physical address behind a mapped virtual one. -/
def bootPhys (v : Nat) : Nat := if v < 0x1000000 then v else v - 0xC0000000

/-- `*(multiboot_mmap_entry *)ptr` (packed: 4 + 8 + 8 + 4 bytes). -/
def entryAt (m : Mem) (ptr : Nat) : MmapEntry where
  size := rd32 m (bootPhys ptr)
  addr := rd64 m (bootPhys ptr + 4)
  len := rd64 m (bootPhys ptr + 12)
  type := rd32 m (bootPhys ptr + 20)

/-- An entry is its 24 bytes. -/
theorem entryAt_congr {m m' : Mem} {p p' : Nat}
    (h : ∀ i, i < 24 → m (bootPhys p + i) = m' (bootPhys p' + i)) : entryAt m p = entryAt m' p' := by
  have hword : ∀ k, k + 4 ≤ 24 → rd32 m (bootPhys p + k) = rd32 m' (bootPhys p' + k) := fun k hk => by
    unfold rd32
    simp only [Nat.add_assoc]
    rw [h k (by omega), h (k + 1) (by omega), h (k + 2) (by omega), h (k + 3) (by omega)]
  unfold entryAt rd64
  simp only [Nat.add_assoc]
  rw [show rd32 m (bootPhys p) = rd32 m' (bootPhys p') from hword 0 (by decide), hword 4 (by decide),
    hword (4 + 4) (by decide), hword 12 (by decide), hword (12 + 4) (by decide),
    hword 20 (by decide)]

/-! ## 2. The walk -/

/-- `ptr + (entry->size + sizeof(entry->size))` -/
def mmapNext (ptr size : Nat) : Nat := (ptr + (size + 4) % 2 ^ 32) % 2 ^ 32

/-- The loop `while (ptr < end) { ...; ptr += entry->size + sizeof(entry->size); }`: the entries
    it visits. The pointer takes at most `2^32` values and the map does not change, so a walk of
    more than `2^32` turns never ends. -/
def mmapWalk (m : Mem) (stop : Nat) : Nat → Nat → Except Stop (List MmapEntry)
  | 0, _ => .error .hang
  | fuel + 1, ptr =>
    if ptr < stop then
      if BootReadable ptr 24 then do
        let rest ← mmapWalk m stop fuel (mmapNext ptr (entryAt m ptr).size)
        return entryAt m ptr :: rest
      else .error (.pageFault ptr)
    else return []

/-- The loop of `check_mmap`: `entry->size` is read and checked before the other fields, which
    the progress message prints. -/
def checkMmapFrom (m : Mem) (stop : Nat) : Nat → Nat → Except Stop Unit
  | 0, _ => .error .hang
  | fuel + 1, ptr =>
    if ptr < stop then
      if BootReadable ptr 4 then
        if (entryAt m ptr).size < 20 then .error (.panic "multiboot: mmap entry size too small\n")
        else if BootReadable ptr 24 then
          checkMmapFrom m stop fuel (mmapNext ptr (entryAt m ptr).size)
        else .error (.pageFault ptr)
      else .error (.pageFault ptr)
    else return ()

/-- `ptr + mbi->mmap_length` -/
def MultibootInfo.mmapStop (mbi : MultibootInfo) : Nat :=
  (vmmPhysToVirt mbi.mmapAddr + mbi.mmapLength) % 2 ^ 32

/-- `check_mmap` -/
def checkMmap (m : Mem) (mbi : MultibootInfo) : Except Stop Unit :=
  if mbi.flags &&& 0x40 = 0 then .error (.panic "multiboot: mmap not present\n")
  else if vmmPhysToVirt mbi.mmapAddr = 0 then
    .error (.panic "multiboot: mmap is outside direct map\n")
  else checkMmapFrom m mbi.mmapStop (2 ^ 32 + 1) (vmmPhysToVirt mbi.mmapAddr)

/-- The entries the memory map's readers visit after `check_mmap`. -/
def mmapEntries (m : Mem) (mbi : MultibootInfo) : Except Stop (List MmapEntry) :=
  mmapWalk m mbi.mmapStop (2 ^ 32 + 1) (vmmPhysToVirt mbi.mmapAddr)

/-- A map that passes `check_mmap` is walked to its end by every later reader. -/
theorem mmapWalk_of_check {m : Mem} {stop fuel ptr : Nat}
    (h : checkMmapFrom m stop fuel ptr = .ok ()) : ∃ es, mmapWalk m stop fuel ptr = .ok es := by
  induction fuel generalizing ptr with
  | zero => cases h
  | succ fuel ih =>
    unfold checkMmapFrom at h
    unfold mmapWalk
    split at h
    · rename_i hlt
      split at h
      · split at h
        · cases h
        · split at h
          · rename_i h24
            obtain ⟨es, hes⟩ := ih h
            rw [if_pos hlt, if_pos h24, hes]
            exact ⟨_, rfl⟩
          · cases h
      · cases h
    · rename_i hlt
      rw [if_neg hlt]
      exact ⟨_, rfl⟩

/-- The pointers at which the loop of a reader of the map visits an entry. -/
def mmapPtrs (m : Mem) (stop : Nat) : Nat → Nat → Except Stop (List Nat)
  | 0, _ => .error .hang
  | fuel + 1, ptr =>
    if ptr < stop then
      if BootReadable ptr 24 then do
        let rest ← mmapPtrs m stop fuel (mmapNext ptr (entryAt m ptr).size)
        return ptr :: rest
      else .error (.pageFault ptr)
    else return []

/-- The entries of a walk are those at its pointers. -/
theorem mmapWalk_eq (m : Mem) (stop fuel ptr : Nat) :
    mmapWalk m stop fuel ptr = (mmapPtrs m stop fuel ptr).map (List.map (entryAt m)) := by
  induction fuel generalizing ptr with
  | zero => rfl
  | succ fuel ih =>
    unfold mmapWalk mmapPtrs
    split_ifs
    · rw [ih]
      cases mmapPtrs m stop fuel (mmapNext ptr (entryAt m ptr).size) <;> rfl
    · rfl
    · rfl

/-- An entry as a boot loader writes it, 24 bytes at the physical address `a`. -/
def wrEntry (m : Mem) (a : Nat) (e : MmapEntry) : Mem :=
  put m a 24 fun i =>
    if i < 4 then byteOf e.size i
    else if i < 12 then byteOf e.addr (i - 4)
    else if i < 20 then byteOf e.len (i - 12)
    else byteOf e.type (i - 20)

/-! ## 3. What the map says -/

/-- The byte `x` lies in a type 1 region of the map (exact integers). -/
def InRam (es : List MmapEntry) (x : Nat) : Prop :=
  ∃ e ∈ es, e.type = 1 ∧ e.addr ≤ x ∧ x < e.addr + e.len

/-- All RAM is below 4 GiB: every type 1 region ends there at the latest (exact integers). -/
def RamBelow4G (es : List MmapEntry) : Prop :=
  ∀ e ∈ es, e.type = 1 → e.addr + e.len ≤ 2 ^ 32

end Emyx
