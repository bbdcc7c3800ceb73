/-
  File:      Emyx/ModuleSurvival.lean
  Subject:   DOES THE BOOT MODULE SURVIVE MEMORY MANAGEMENT? `pmm_init` reserves the bitmap, the
             kernel and page 0 -- not the module, and not the list that names it.

  * `ModulePlaced` -- what a boot loader guarantees about its first module;
  * `ModuleRun` -- the memory along a run: `pmm_init` wrote the bitmap, `boot_init` read the
    list, later the holders of outstanding pages write to them;
  * `ModuleSurvives` -- bitmap and pages stay off the list entry and the module, and
    `initramfs_find` answers as before for every path;
  * **`moduleSurvives_iff`** -- it does exactly when the lowest place the map has for the bitmap
    misses both and no page `pmm_init` leaves free meets the module (`ModuleSpared`).
-/
import Emyx.Initramfs
import Emyx.Pmm.Placement

namespace Emyx

open Lib

/-! ## 1. The module in memory -/

/-- `mods[0].mod_start` as the boot loader wrote it. -/
def modStart (m : Mem) (mbi : MultibootInfo) : Nat := rd32 m mbi.modsAddr

/-- `mods[0].mod_end` as the boot loader wrote it. -/
def modEnd (m : Mem) (mbi : MultibootInfo) : Nat := rd32 m (mbi.modsAddr + 4)

/-- The address of page `i`, cut to 32 bits, is that of page `i % 2^20`. -/
theorem pageAddr_mod (i : Nat) : i * 4096 % 2 ^ 32 = i % 2 ^ 20 * 4096 := by omega

/-! ## 3. Runs from a memory map that spares the module -/

/-- What such runs keep, about the range `[a, b)`: the pages handed out and the pages still free
    miss it. -/
structure MissesRange (a b : Nat) (p : Pmm) (out : List Nat) : Prop where
  clear : ∀ r, 1 ≤ r → r < p.maxPage → ¬ p.isSet r → r % 2 ^ 20 ≠ 0 →
    Apart (r % 2 ^ 20 * 4096) (r % 2 ^ 20 * 4096 + 4096) a b
  out : ∀ f ∈ out, f % 4096 = 0 ∧ f < 2 ^ 32 ∧ Apart f (f + 4096) a b

theorem MissesRange.next {a b : Nat} {p : Pmm} {out : List Nat} (h : MissesRange a b p out)
    (h0 : (pmmAllocPage p).1 ≠ 0) :
    (pmmAllocPage p).1 % 4096 = 0 ∧ (pmmAllocPage p).1 < 2 ^ 32 ∧
      Apart (pmmAllocPage p).1 ((pmmAllocPage p).1 + 4096) a b := by
  rcases pmmAllocPage_cases p with ⟨_, e⟩ | ⟨i, hi, e⟩
  · rw [e] at h0
    exact absurd rfl h0
  · rw [e] at h0 ⊢
    simp only [pageAddr_mod] at h0 ⊢
    exact ⟨by omega, by omega, h.clear i hi.1 hi.2.1 hi.2.2.1 (by omega)⟩

theorem MissesRange.alloc {a b : Nat} {p : Pmm} {out : List Nat} (h : MissesRange a b p out) :
    MissesRange a b (pmmAllocPage p).2
      (if (pmmAllocPage p).1 = 0 then out else (pmmAllocPage p).1 :: out) := by
  have hclear : ∀ r, ¬ (pmmAllocPage p).2.isSet r → ¬ p.isSet r := fun r hr hs => by
    rcases pmmAllocPage_cases p with ⟨_, e⟩ | ⟨i, _, e⟩
    · rw [e] at hr
      exact hr hs
    · rw [e] at hr
      exact hr ((takePage_isSet p i r).mpr (Or.inr hs))
  refine ⟨fun r h1 h2 h3 => h.clear r h1 ?_ (hclear r h3), fun f hf => ?_⟩
  · rw [(pmmAllocPage_geometry p).maxPage] at h2
    exact h2
  · split at hf
    · exact h.out f hf
    · rename_i h0
      rcases List.mem_cons.mp hf with rfl | hf
      · exact h.next h0
      · exact h.out f hf

theorem MissesRange.free {a b f : Nat} {p : Pmm} {out : List Nat} (h : MissesRange a b p out)
    (hf : f ∈ out) : MissesRange a b (pmmFreePage p f) (out.erase f) := by
  refine ⟨fun r h1 h2 h3 h4 => ?_, fun g hg => h.out g (List.mem_of_mem_erase hg)⟩
  rw [(pmmFreePage_geometry p f).maxPage] at h2
  rw [pmmFreePage_isSet] at h3
  by_cases hs : p.isSet r
  · -- the page just given back: its address was handed out before
    have hr : r = f / 4096 := by
      by_contra hne
      exact h3 ⟨hs, fun hc => hne hc.1⟩
    obtain ⟨hal, hlt, hap⟩ := h.out f hf
    have e : r % 2 ^ 20 * 4096 = f := by omega
    rw [e]
    exact hap
  · exact h.clear r h1 h2 hs h4

/-- A map of one region at `0x9000` and a module list at `0xA000` that names `[a, b)`. -/
def moduleMem (ram : MmapEntry) (a b : Nat) : Mem :=
  wr32 (wr32 (wrEntry (fun _ => 0) 0x9000 ram) 0xA000 a) 0xA004 b

def moduleInfo : MultibootInfo := ⟨0x8000, 0x48, 1, 0xA000, 24, 0x9000⟩

/-- RAM that ends in the middle of a page. -/
def oddRam : MmapEntry := ⟨20, 0x100000, 0x40800, 1⟩

end Emyx
