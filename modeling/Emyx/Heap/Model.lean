/-
  File:      Emyx/Heap/Model.lean
  Subject:   THE KERNEL HEAP (kmalloc.c), as it runs on memory.

  A block is a header of 12 bytes -- `size` at 0, `free` at 4, `next` at 8 -- and `size` bytes of
  payload behind it. The blocks form one singly linked list through the direct map. The two loops
  that follow it visit at most `2^32` different headers, so one that takes more turns never ends.
-/
import Emyx.Mm

namespace Emyx

open Lib

/-- `heap_block`; `sizeof(heap_block)` is 12. -/
structure HeapBlock where
  size : Nat
  free : Byte
  next : Nat
  deriving DecidableEq

/-- The header a block pointer points at. -/
def loadBlock (m : Mem) (p : Nat) : Except Stop HeapBlock :=
  if 0xC0000000 ≤ p ∧ p + 12 ≤ 0xC1000000 then
    .ok ⟨rd32 m (p - 0xC0000000), m (p - 0xC0000000 + 4), rd32 m (p - 0xC0000000 + 8)⟩
  else .error (.pageFault p)

/-- `align_size`; `none` is its failure. -/
def alignSize (size : Nat) : Option Nat :=
  if size = 0 then none
  else if size > 2 ^ 32 - 1 - (8 - 1) then none
  else some ((size + 8 - 1) % 2 ^ 32 &&& (2 ^ 32 - 1 - (8 - 1)))

/-- `new_block`; `0` is `NULL`. -/
def newBlock (s : Mm) : Except Stop (Nat × Mm) :=
  let (paddr, s) := s.allocPage
  if paddr = 0 then return (0, s)
  else
    let block := vmmPhysToVirt paddr
    if block = 0 then return (0, s.freePage paddr)
    else do
      let m ← poke32 s.mem block (4096 - 12)
      let m ← poke8 m (block + 4) 1
      let m ← poke32 m (block + 8) 0
      return (block, { s with mem := m, heapPages := paddr :: s.heapPages })

/-- `alloc_from_block` -/
def allocFromBlock (m : Mem) (block size : Nat) : Except Stop (Nat × Mem) := do
  let b ← loadBlock m block
  let remaining := (b.size + 2 ^ 32 - size) % 2 ^ 32
  let m ←
    if remaining ≥ 12 + 8 then do
      let next := (block + 12 + size) % 2 ^ 32
      let m ← poke8 m (next + 4) 1
      let m ← poke32 m next (remaining - 12)
      let m ← poke32 m (next + 8) b.next
      poke32 m (block + 8) next
    else pure m
  let m ← poke8 m (block + 4) 0
  let m ← poke32 m block size
  return (block + 12, m)

/-- `coalesce_next` -/
def coalesceNext (block : Nat) : Nat → Mem → Except Stop Mem
  | 0, _ => .error .hang
  | fuel + 1, m => do
    let b ← loadBlock m block
    if b.next = 0 then return m
    else do
      let n ← loadBlock m b.next
      if n.free ≠ 0 ∧ (block + 12 + b.size) % 2 ^ 32 = b.next then do
        let m ← poke32 m block ((b.size + (12 + n.size)) % 2 ^ 32)
        let m ← poke32 m (block + 8) n.next
        coalesceNext block fuel m
      else return m

/-- The search loop of `kmalloc`: the first free block that is large enough (`none` at the end of
    the list), and `last`. -/
def findFree (m : Mem) (asize : Nat) : Nat → Nat → Nat → Except Stop (Option Nat × Nat)
  | 0, _, _ => .error .hang
  | fuel + 1, current, last =>
    if current = 0 then return (none, last)
    else do
      let b ← loadBlock m current
      if b.free ≠ 0 ∧ b.size ≥ asize then return (some current, last)
      else findFree m asize fuel b.next current

/-- `kmalloc` once `list` is not `NULL`: serve `asize` bytes from the list, or from a new page
    appended to it. -/
def kmallocFrom (s : Mm) (asize : Nat) : Except Stop (Nat × Mm) := do
  let (found, last) ← findFree s.mem asize (2 ^ 32 + 1) s.list 0
  match found with
  | some current => do
    let (p, m) ← allocFromBlock s.mem current asize
    return (p, { s with mem := m })
  | none => do
    let (current, s) ← newBlock s
    if current = 0 then return (0, s)
    else do
      let m ← poke32 s.mem (last + 8) current
      let (p, m) ← allocFromBlock m current asize
      return (p, { s with mem := m })

/-- `kmalloc`; `0` is `NULL`. -/
def kmalloc (s : Mm) (size : Nat) : Except Stop (Nat × Mm) :=
  match alignSize size with
  | none => return (0, s)
  | some asize =>
    if asize > 4096 - 12 then return (0, s)
    else if s.list = 0 then do
      let (block, s) ← newBlock s
      let s := { s with list := block }
      if s.list = 0 then return (0, s) else kmallocFrom s asize
    else kmallocFrom s asize

/-- `kfree` -/
def kfree (s : Mm) (ptr : Nat) : Except Stop Mm :=
  if ptr = 0 then return s
  else do
    let block := (ptr + 2 ^ 32 - 12) % 2 ^ 32
    let m ← poke8 s.mem (block + 4) 1
    let m ← coalesceNext block (2 ^ 32 + 1) m
    return { s with mem := m }

end Emyx
