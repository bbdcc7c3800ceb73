/-
  File:      Emyx/Vmm/Model.lean
  Subject:   ADDRESS SPACES (vmm.c), as they run on memory.

  After `vmm_init` the kernel reaches directories and tables through the direct map, and the
  direct map is itself part of the tables: every access `ptr[i]` is translated by the processor.
  `direct` is that translation -- through the kernel directory, whose tables for the direct map
  every address space shares. Translation caches are not modelled; vmm.c invalidates the page it
  changes.

  A result of `0` or `-1` is the C `int`; an address space is the physical address of its
  directory.
-/
import Emyx.Mm
import Emyx.Vmm.Walk

namespace Emyx

open Lib

/-! ## 1. Accesses through the direct map -/

/-- The physical address behind the kernel pointer `p`. -/
def Mm.direct (s : Mm) (p : Nat) : Except Stop Nat :=
  match walk s.mem s.kernelPageDirectory p with
  | some a => .ok a
  | none => .error (.pageFault p)

/-- `ptr[i]` of a `uint32_t *` -/
def Mm.load (s : Mm) (ptr i : Nat) : Except Stop Nat := do
  let a ← s.direct (ptr + 4 * i)
  return rd32 s.mem a

/-- `ptr[i] = v` -/
def Mm.store (s : Mm) (ptr i v : Nat) : Except Stop Mm := do
  let a ← s.direct (ptr + 4 * i)
  return { s with mem := wr32 s.mem a v }

/-- `memset(ptr, 0, PMM_PAGE_SIZE)` for a page-aligned pointer -/
def Mm.clearPage (s : Mm) (ptr : Nat) : Except Stop Mm := do
  let a ← s.direct ptr
  return { s with mem := memset s.mem a 0 4096 }

/-! ## 2. `vmm_init` -/

/-- One turn of the loop of `vmm_init`: the table for the `i`th 4 MiB of the direct map. It runs
    under the bootstrap tables, where the direct map is in place. -/
def initTable (kernelPageDirectory : Nat) (st : Mem × Pmm) (i : Nat) : Except Stop (Mem × Pmm) :=
  let (t, p) := pmmAllocPage st.2
  if t = 0 then .error (.panic "vmm: page table allocation failed")
  else if vmmPhysToVirt t = 0 then .error (.panic "vmm: page table is outside direct map")
  else
    let m := memset st.1 t 0 4096
    let m := fillWords m t 1024 fun j => (i * (1024 * 4096) + j * 4096) ||| 0x3
    return (wr32 m (kernelPageDirectory + 4 * (768 + i)) (t ||| 0x3), p)

/-- `vmm_init` -/
def vmmInit (m : Mem) (p : Pmm) (limit : Nat) : Except Stop Mm :=
  if limit < 1 then .error (.panic "vmm: limit must be more than 0")
  else if limit % (1024 * 4096) ≠ 0 then
    .error (.panic "vmm: limit must be a multiple of page table span")
  else
    let (kd, p) := pmmAllocPage p
    if kd = 0 then .error (.panic "vmm: page directory allocation failed")
    else if vmmPhysToVirt kd = 0 then .error (.panic "vmm: page directory is outside direct map")
    else do
      let (m, p) ← (List.range (limit / (1024 * 4096))).foldlM (initTable kd)
        (memset m kd 0 4096, p)
      return { mem := m, pmm := p, kernelPageDirectory := kd, list := 0, heapPages := [],
               spaces := [], strayDestroys := 0 }

/-! ## 3. Creating and destroying -/

/-- One turn of the loop of `vmm_create_address_space`: `new_pd[i] = current_pd[i]`. -/
def copyEntry (currentPd newPd : Nat) (s : Mm) (i : Nat) : Except Stop Mm := do
  let e ← s.load currentPd i
  s.store newPd i e

/-- `vmm_create_address_space`; `0` when it fails. -/
def vmmCreateAddressSpace (s : Mm) : Except Stop (Nat × Mm) :=
  let (addressSpace, s) := s.allocPage
  if addressSpace = 0 then return (0, s)
  else
    let newPd := vmmPhysToVirt addressSpace
    if newPd = 0 then return (0, s.freePage addressSpace)
    else do
      let s ← s.clearPage newPd
      let currentPd := vmmPhysToVirt s.kernelPageDirectory
      let s ← (List.range' 768 256).foldlM (copyEntry currentPd newPd) s
      return (addressSpace, { s with spaces := addressSpace :: s.spaces })

/-- One turn of the loop of `vmm_destroy_address_space`: free the table of entry `i`. -/
def freeTable (pdPtr : Nat) (s : Mm) (i : Nat) : Except Stop Mm := do
  let e ← s.load pdPtr i
  if e &&& 1 ≠ 0 then return s.freePage (entryFrame e) else return s

/-- `vmm_destroy_address_space` -/
def vmmDestroyAddressSpace (s : Mm) (addressSpace : Nat) : Except Stop Mm :=
  if addressSpace = 0 ∨ addressSpace = s.kernelPageDirectory then return s
  else
    let pdPtr := vmmPhysToVirt addressSpace
    if pdPtr = 0 then return s
    else do
      let s ← (List.range 768).foldlM (freeTable pdPtr) s
      let s := s.freePage addressSpace
      if addressSpace ∈ s.spaces then return { s with spaces := s.spaces.erase addressSpace }
      else return { s with strayDestroys := s.strayDestroys + 1 }

/-! ## 4. Mapping -/

/-- `vmm_get_page_table_in`; `0` is `NULL`. -/
def vmmGetPageTableIn (s : Mm) (addressSpace vaddr : Nat) : Except Stop Nat :=
  if addressSpace = 0 then return 0
  else
    let pdPtr := vmmPhysToVirt addressSpace
    if pdPtr = 0 then return 0
    else do
      let pde ← s.load pdPtr (pdeIndex vaddr)
      if pde &&& 1 = 0 then return 0 else return vmmPhysToVirt (entryFrame pde)

/-- The page table `vmm_map_page_in` writes to: the one behind the entry, or a new one. `0` when
    there is none. -/
def mapTable (s : Mm) (pdPtr pdIdx : Nat) : Except Stop (Nat × Mm) := do
  let pde ← s.load pdPtr pdIdx
  if pde &&& 1 ≠ 0 then return (vmmPhysToVirt (entryFrame pde), s)
  else
    let (pageTable, s) := s.allocPage
    if pageTable = 0 then return (0, s)
    else
      let ptPtr := vmmPhysToVirt pageTable
      if ptPtr = 0 then return (0, s.freePage pageTable)
      else do
        let s ← s.clearPage ptPtr
        let s ← s.store pdPtr pdIdx (pageTable ||| 1)
        return (ptPtr, s)

/-- The end of `vmm_map_page_in`: refuse a present entry, else write directory and table entry. -/
def mapEntry (s : Mm) (pdPtr pdIdx ptPtr ptIdx paddr flags : Nat) : Except Stop (Int × Mm) := do
  let pte ← s.load ptPtr ptIdx
  if pte &&& 1 ≠ 0 then return (-1, s)
  else do
    let pde ← s.load pdPtr pdIdx
    let s ← s.store pdPtr pdIdx (pde ||| (flags &&& (2 ||| 4)))
    let s ← s.store ptPtr ptIdx (paddr ||| (flags &&& 0xfff))
    return (0, s)

/-- `vmm_map_page_in` -/
def vmmMapPageIn (s : Mm) (addressSpace vaddr paddr flags : Nat) : Except Stop (Int × Mm) :=
  if addressSpace = 0 ∨ vaddr &&& (4096 - 1) ≠ 0 then return (-1, s)
  else if paddr &&& (4096 - 1) ≠ 0 then return (-1, s)
  else if addressSpace ≠ s.kernelPageDirectory ∧ pdeIndex vaddr ≥ 768 then return (-1, s)
  else
    let pdPtr := vmmPhysToVirt addressSpace
    if pdPtr = 0 then return (-1, s)
    else do
      let (ptPtr, s) ← mapTable s pdPtr (pdeIndex vaddr)
      if ptPtr = 0 then return (-1, s)
      else mapEntry s pdPtr (pdeIndex vaddr) ptPtr (pteIndex vaddr) paddr flags

/-- `vmm_map_page` -/
def vmmMapPage (s : Mm) (vaddr paddr flags : Nat) : Except Stop (Int × Mm) :=
  if vaddr &&& (4096 - 1) ≠ 0 ∨ paddr &&& (4096 - 1) ≠ 0 then return (-1, s)
  else do
    let ptPtr ← vmmGetPageTableIn s s.kernelPageDirectory vaddr
    let s ← if ptPtr ≠ 0 then s.store ptPtr (pteIndex vaddr) 0 else pure s
    vmmMapPageIn s s.kernelPageDirectory vaddr paddr flags

/-- `vmm_unmap_page_in` -/
def vmmUnmapPageIn (s : Mm) (addressSpace vaddr : Nat) : Except Stop (Int × Mm) :=
  if addressSpace = 0 ∨ vaddr &&& (4096 - 1) ≠ 0 then return (-1, s)
  else if addressSpace ≠ s.kernelPageDirectory ∧ pdeIndex vaddr ≥ 768 then return (-1, s)
  else do
    let ptPtr ← vmmGetPageTableIn s addressSpace vaddr
    if ptPtr = 0 then return (-1, s)
    else do
      let pte ← s.load ptPtr (pteIndex vaddr)
      if pte &&& 1 = 0 then return (-1, s)
      else do
        let s ← s.store ptPtr (pteIndex vaddr) 0
        return (0, s)

/-- `vmm_unmap_page` -/
def vmmUnmapPage (s : Mm) (vaddr : Nat) : Except Stop (Int × Mm) :=
  vmmUnmapPageIn s s.kernelPageDirectory vaddr

/-- `vmm_get_paddr_in`; `some` is success with `*paddr`. -/
def vmmGetPaddrIn (s : Mm) (addressSpace vaddr : Nat) : Except Stop (Option Nat) := do
  let ptPtr ← vmmGetPageTableIn s addressSpace vaddr
  if ptPtr = 0 then return none
  else do
    let pte ← s.load ptPtr (pteIndex vaddr)
    if pte &&& 1 = 0 then return none
    else return some (entryFrame pte ||| (vaddr &&& 0xfff))

/-- `vmm_get_paddr` -/
def vmmGetPaddr (s : Mm) (vaddr : Nat) : Except Stop (Option Nat) :=
  vmmGetPaddrIn s s.kernelPageDirectory vaddr

end Emyx
