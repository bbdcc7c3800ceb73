/-
  File:      Emyx/Kernel/SmallMachine.lean
  Subject:   A SMALL MACHINE WITH A BOOT MODULE, up to the first process.

  * `smallMem` -- 256 KiB of RAM, and the module at `0x50000`;
  * **`booted_small`** -- the kernel boots on it, finds the module, and has the pages from `0x116`
    on to give;
  * `freshProcess_small` -- `user_spawn` up to the directory of its first process.
-/
import Emyx.Kernel.Forward
import Emyx.Lookup
import Emyx.Overlap

namespace Emyx

open Lib

/-! ## 1. The machine -/

/-- The module `xs` at `0x50000`, and the module list at `0x40000`. -/
def listedMem (xs : List Byte) : Mem :=
  wr32 (wr32 (put (fun _ => 0) 0x50000 xs.length fun i => xs.getD i 0) 0x40000 0x50000)
    0x40004 (0x50000 + xs.length)

/-- The same with the memory map at `0x9000`. -/
def smallMem (xs : List Byte) : Mem := wrEntry (listedMem xs) 0x9000 lowRam

/-- The multiboot info of the map and the module list. -/
def smallInfo : MultibootInfo := ⟨0x8000, 0x48, 1, 0x40000, 24, 0x9000⟩

/-- The page allocator after `pmm_init`. -/
def smallPmm (xs : List Byte) : Pmm := lowPmm (smallMem xs)

section

variable (xs : List Byte)

theorem smallMem_above {x : Nat} (hx : 0x9018 ≤ x) : smallMem xs x = listedMem xs x := by
  unfold smallMem wrEntry
  exact put_outside (.inr hx)

theorem smallMem_entry : entryAt (smallMem xs) (0xC0000000 + 0x9000) = lowRam := by
  have hlow : entryAt lowMem (0xC0000000 + 0x9000) = lowRam := by decide +kernel
  refine (entryAt_congr fun i hi => ?_).trans hlow
  unfold smallMem lowMem wrEntry
  rw [show bootPhys (0xC0000000 + 0x9000) = 0x9000 by decide, put_inside hi, put_inside hi]

theorem smallMem_holds : MapHolds (smallMem xs) smallInfo [lowRam] :=
  ⟨⟨smallMem_entry xs, rfl, trivial⟩, rfl, by decide, by decide⟩

theorem mmapEntries_small : mmapEntries (smallMem xs) smallInfo = .ok [lowRam] :=
  mmapEntries_holds (smallMem_holds xs)

theorem pmmInit_small : pmmInit (smallMem xs) smallImage smallInfo = .ok (smallPmm xs) := by
  have hmap := smallMem_holds xs
  have hend : smallInfo.mmapAddr + 24 * [lowRam].length ≤ 0x110000 := by decide
  unfold smallPmm lowPmm
  exact pmmInit_clear (checkMmap_holds hmap (by decide)) (mmapEntries_small xs) (by decide +kernel)
    (by decide) (by decide +kernel) (by decide) (by decide) (by decide)
    (entriesClear_holds hmap hend)

/-- The first megabyte is never handed out. -/
theorem smallPmm_outside {x : Nat} (hx : x < 0x100000) : Outside (smallPmm xs) x := by
  obtain ⟨hmax, hfree⟩ := freeFrom_lowRam (smallMem xs)
  rintro p f ⟨page, rfl, h0, h1, -, -, hclear⟩ hin
  unfold InPage at hin
  exact hclear ((hfree.set page (by omega) (by rw [hmax]; omega)).mpr (by omega))

/-- **The small machine boots**, with its module in place. -/
theorem booted_small (hlen : xs.length ≤ 0xB0000) :
    ∃ s, Booted (smallMem xs) smallImage smallInfo (smallPmm xs) s ∧
      bootInit (smallMem xs) smallInfo = .ok ⟨0xC0050000, xs.length⟩ ∧
      FreeFrom s.pmm 0x116 ∧ s.pmm.maxPage = 0x140 ∧ HoldsBytes s.mem 0x50000 xs := by
  obtain ⟨s, hb, hfree, hmax⟩ := booted_lowRam (mmapEntries_small xs) (pmmInit_small xs)
  refine ⟨s, hb, ?_, hfree, hmax, fun i x hx => ?_⟩
  · have hstart : modStart (smallMem xs) smallInfo = 0x50000 := by
      refine (rd32_congr fun i hi => smallMem_above xs (show 0x9018 ≤ 0x40000 + i by omega)).trans ?_
      exact (rd32_wr32_outside (by decide)).trans (rd32_wr32 _ _ _)
    have hend : modEnd (smallMem xs) smallInfo = 0x50000 + xs.length := by
      refine (rd32_congr fun i hi => smallMem_above xs (show 0x9018 ≤ 0x40004 + i by omega)).trans ?_
      exact (rd32_wr32 _ _ _).trans (Nat.mod_eq_of_lt (by omega))
    have hbm := @bootInit_listed (smallMem xs) smallInfo (by decide) (by decide) (by decide)
      (by rw [hstart]; decide)
    rw [hstart, hend] at hbm
    rwa [show (0x50000 + xs.length + 2 ^ 32 - 0x50000) % 2 ^ 32 = xs.length by omega] at hbm
  · obtain ⟨hi, rfl⟩ := List.getElem?_eq_some_iff.mp hx
    refine congrArg Except.ok ?_
    rw [vmmInit_outside hb _ (smallPmm_outside xs (show 0x50000 + i < 0x100000 by omega)),
      smallMem_above xs (by omega), listedMem, wr32_outside (by omega), wr32_outside (by omega),
      put_inside hi]
    exact List.getD_eq_getElem _ _ hi

end

/-! ## 2. What stays in place -/

section

variable {xs : List Byte} {s0 s : Mm} {ps : Fin 16 → UserProcess} {bs : List Blk}

/-- The module is never written to. -/
theorem MmInv.holds_small (h : MmInv (smallPmm xs) s0 ps bs s) (hlen : xs.length ≤ 0xB0000)
    (hs : HoldsBytes s0.mem 0x50000 xs) : HoldsBytes s.mem 0x50000 xs :=
  hs.congr fun i hi => h.outside _ (smallPmm_outside xs (by omega))

/-- What is in memory can be read through the direct map. -/
theorem HoldsBytes.image {m : Mem} {a : Nat} (h : HoldsBytes m a xs)
    (hlim : a + xs.length ≤ 0x1000000) : Reads (imageByte m (0xC0000000 + a)) 0 xs := fun i x hx => by
  obtain ⟨hi, -⟩ := List.getElem?_eq_some_iff.mp hx
  unfold imageByte
  rw [Nat.zero_add, Nat.mod_eq_of_lt (by omega), Nat.add_assoc, kernelByte_of_lt (by omega)]
  exact congrArg Except.ok (Except.ok.inj (h i x hx))

/-- The state `user_spawn` is in when it has the directory of its first process. -/
theorem freshProcess_small (xs : List Byte) (hlen : xs.length ≤ 0xB0000) :
    ∃ s0 k, Booted (smallMem xs) smallImage smallInfo (smallPmm xs) s0 ∧
      MmInv (smallPmm xs) s0 k.processes [] k.mm ∧ FreshSpace k 0 ∧
      (k.processes 0).addressSpace ∈ k.mm.spaces ∧ Room k.mm.pmm 2 ∧
      Reads (imageByte k.mm.mem 0xC0050000) 0 xs := by
  obtain ⟨s0, hb, -, hfree, hmax, hxs⟩ := booted_small xs hlen
  have hroom : Room s0.pmm (2 + 1) := (hfree.room (by rw [hmax]; decide)).le (by rw [hmax]; decide)
  have h := (owned_boot hb ⟨0xC0050000, xs.length⟩ 0 0).mm
  rcases h.create with ⟨-, -, hno⟩ | ⟨f, p', m', ep, -, -, -, hmm, hnew, -⟩
  · exact absurd hno hroom.low
  have hmm' := hmm.setRecord (i := 0) (p := .spawned 1 1 0 f []) rfl fun hne => absurd rfl hne
  have hroom' : Room p' 2 := by
    have := hroom.next
    rwa [ep] at this
  refine ⟨s0, { schedInit s0 ⟨0xC0050000, xs.length⟩ 0 0 with
      mm := { s0 with pmm := p', mem := m', spaces := f :: s0.spaces }
      processes := Function.update (fun _ => UserProcess.zero) 0 (.spawned 1 1 0 f []) },
    hb, hmm', ⟨rfl, rfl, fun j hj => ?_⟩, List.mem_cons_self, hroom',
    (hmm'.holds_small hlen hxs).image (by omega)⟩
  exact (hnew j (by omega)).trans (if_pos hj)

end

end Emyx
