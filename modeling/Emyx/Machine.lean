/-
  File:      Emyx/Machine.lean
  Subject:   WHAT EVERY PART OF THE KERNEL MODEL SHARES: how an execution can end without
             returning, the kernel image, and the direct map.

  Words are `Nat` and wrap where the C code wraps (`% 2^32`, `% 2^64`). The constants of the
  headers are written as numerals: `4096` is `PMM_PAGE_SIZE` (`12` its shift), `0xC0000000` is
  `VMM_KERNEL_VIRTUAL_BASE`, `0x1000000` is `VMM_DIRECT_MAP_LIMIT`.

  Physical memory is one `Mem`. A kernel pointer is a virtual address; the kernel reaches
  physical memory through the direct map, so a pointer `p` that `vmm_phys_to_virt` returned is
  read at the physical address `p - 0xC0000000`.
-/
import Emyx.Lib.Memory
import Emyx.Lib.Outcome

namespace Emyx

open Lib

/-- How an execution ends without returning to its caller. -/
inductive Stop where
  /-- `panic(msg)` -/
  | panic (msg : String)
  /-- an access to an unmapped virtual address: `ex_handler` halts, or the machine resets -/
  | pageFault (vaddr : Nat)
  /-- a loop that never ends -/
  | hang
  deriving DecidableEq, Repr

/-- The kernel image `[__kernel_physical_start, __kernel_physical_end)`. The linker script
    starts it at 1 MiB and links its end at `0xC0000000 + __kernel_physical_end`, a 32-bit
    address. -/
structure KernelImage where
  physicalEnd : Nat
  nonempty : 0x100000 < physicalEnd
  linked : physicalEnd ≤ 0x40000000

/-- `__kernel_physical_start` -/
def KernelImage.physicalStart (_ : KernelImage) : Nat := 0x100000

/-- `vmm_phys_to_virt`; `NULL` is `0`. -/
def vmmPhysToVirt (paddr : Nat) : Nat :=
  if paddr ≥ 0x1000000 then 0 else 0xC0000000 + paddr

theorem vmmPhysToVirt_of_lt {p : Nat} (h : p < 0x1000000) : vmmPhysToVirt p = 0xC0000000 + p := by
  unfold vmmPhysToVirt
  rw [if_neg (by omega)]

theorem vmmPhysToVirt_of_ge {p : Nat} (h : 0x1000000 ≤ p) : vmmPhysToVirt p = 0 := by
  unfold vmmPhysToVirt
  rw [if_pos h]

theorem vmmPhysToVirt_eq_zero {p : Nat} : vmmPhysToVirt p = 0 ↔ 0x1000000 ≤ p := by
  unfold vmmPhysToVirt
  split <;> omega

/-- `*(const uint8_t *)p` for a pointer into the direct map. -/
def kernelByte (m : Mem) (p : Nat) : Except Stop Byte :=
  if 0xC0000000 ≤ p ∧ p < 0xC1000000 then .ok (m (p - 0xC0000000)) else .error (.pageFault p)

theorem kernelByte_of_lt {m : Mem} {x : Nat} (h : x < 0x1000000) :
    kernelByte m (0xC0000000 + x) = .ok (m x) := by
  unfold kernelByte
  rw [if_pos (by omega), Nat.add_sub_cancel_left]

/-- The ranges `[a, b)` and `[c, d)` share no address. -/
def Apart (a b c d : Nat) : Prop := ∀ x, a ≤ x → x < b → ¬ (c ≤ x ∧ x < d)

end Emyx
