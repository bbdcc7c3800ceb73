/-
  File:      Emyx/Mm.lean
  Subject:   THE STATE OF MEMORY MANAGEMENT: physical memory and the static variables of pmm.c,
             vmm.c and kmalloc.c, which share it.

  Three fields are history, written by the operations and read by none of them: the pages the
  heap took, the address spaces created and not destroyed, and how often a directory was
  destroyed that was not one of them.

  Kernel pointers are virtual addresses in the direct map; `poke32`, `poke8` are the stores through
  one, and fault outside the map.
-/
import Emyx.Pmm.Bitmap

namespace Emyx

open Lib

structure Mm where
  mem : Mem
  pmm : Pmm
  /-- `kernel_page_directory`, a physical address -/
  kernelPageDirectory : Nat
  /-- `list`, the head of the heap's block list (`0` for `NULL`) -/
  list : Nat
  /-- history: the pages the heap took -/
  heapPages : List Nat
  /-- history: the directories created and not destroyed -/
  spaces : List Nat
  /-- history: calls that destroyed a directory not in `spaces` -/
  strayDestroys : Nat

/-- `pmm_alloc_page` -/
def Mm.allocPage (s : Mm) : Nat × Mm :=
  ((pmmAllocPage s.pmm).1, { s with pmm := (pmmAllocPage s.pmm).2 })

/-- `pmm_free_page` -/
def Mm.freePage (s : Mm) (paddr : Nat) : Mm := { s with pmm := pmmFreePage s.pmm paddr }

/-! ## Stores through a kernel pointer -/

/-- Store the word `v` at `p`. -/
def poke32 (m : Mem) (p v : Nat) : Except Stop Mem :=
  if 0xC0000000 ≤ p ∧ p + 4 ≤ 0xC1000000 then .ok (wr32 m (p - 0xC0000000) v)
  else .error (.pageFault p)

/-- Store the byte `b` at `p`. -/
def poke8 (m : Mem) (p : Nat) (b : Byte) : Except Stop Mem :=
  if 0xC0000000 ≤ p ∧ p < 0xC1000000 then .ok (wr8 m (p - 0xC0000000) b)
  else .error (.pageFault p)

theorem poke32_ok {m : Mem} {p v : Nat} (x : Nat) (hp : p = 0xC0000000 + x)
    (h : x + 4 ≤ 0x1000000) : poke32 m p v = .ok (wr32 m x v) := by
  subst hp
  unfold poke32
  rw [if_pos (by omega), Nat.add_sub_cancel_left]

theorem poke8_ok {m : Mem} {p : Nat} {b : Byte} (x : Nat) (hp : p = 0xC0000000 + x)
    (h : x < 0x1000000) : poke8 m p b = .ok (wr8 m x b) := by
  subst hp
  unfold poke8
  rw [if_pos (by omega), Nat.add_sub_cancel_left]

end Emyx
