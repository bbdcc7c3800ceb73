/-
  File:      Emyx/Kernel/Emxf.lean
  Subject:   THE BUILD'S CHECK OF A PROGRAM (scripts/check-emxf.py) AGAINST THE LOADER (user.c).

  The build accepts a file whose code is as long as its header says and starts at offset 0. The
  loader has one page for the code.

  * `checkEmxf` -- the script's check of the file's bytes;
  * `emxfHeader_bytes` -- the loader's header on a file that lies in the direct map;
  * **`checkedEmxf_loads_iff`** -- of the files the build accepts, the loader takes exactly those
    with at most a page of code.
-/
import Emyx.Kernel.SmallMachine

namespace Emyx

open Lib

/-! ## 1. The script -/

/-- `check-emxf.py` on the bytes of the file: its message, if it stops with one. -/
def checkEmxf (data : List Byte) : Except String Unit :=
  if data.length < 13 then .error "EMXF file is too small"
  else if data.take 4 ≠ [0x45, 0x4D, 0x58, 0x46] then .error "missing EMXF magic"
  else
    let codeSize := wordAt data 4
    let entryOffset := wordAt data 8
    if codeSize ≠ data.length - 12 then .error "EMXF code size does not match payload"
    else if entryOffset ≠ 0 then .error "EMXF entry offset is not zero"
    else .ok ()

/-- What the script accepts. -/
theorem checkEmxf_ok {data : List Byte} : checkEmxf data = .ok () ↔ 13 ≤ data.length ∧
    data.take 4 = [0x45, 0x4D, 0x58, 0x46] ∧ wordAt data 4 = data.length - 12 ∧ wordAt data 8 = 0 := by
  unfold checkEmxf
  dsimp only
  split_ifs with h1 h2 h3 h4
  · exact iff_of_false nofun fun hc => absurd hc.1 (by omega)
  · exact iff_of_false nofun fun hc => h2 hc.2.1
  · exact iff_of_false nofun fun hc => h3 hc.2.2.1
  · exact iff_of_false nofun fun hc => h4 hc.2.2.2
  · exact iff_of_true rfl ⟨by omega, not_not.mp h2, not_not.mp h3, not_not.mp h4⟩

/-! ## 2. The loader -/

section

variable {m : Mem} {image i : Nat} {data : List Byte}

/-- A byte that can be read is in the direct map. -/
theorem imageByte_window {b : Byte} (h : imageByte m image i = .ok b) :
    0xC0000000 ≤ (image + i) % 2 ^ 32 ∧ (image + i) % 2 ^ 32 < 0xC1000000 := by
  unfold imageByte kernelByte at h
  split_ifs at h with hin
  exact hin

theorem reads_bytes (h : Reads (imageByte m image) 0 data) (hi : i < data.length) :
    imageByte m image i = bytesAt data i := by
  have hb := h i data[i] (List.getElem?_eq_getElem hi)
  rw [Nat.zero_add] at hb
  rw [hb, bytesAt, List.getElem?_eq_getElem hi]

/-- The header of a file of more than 12 bytes, as `load_emxf` reads it. -/
theorem emxfHeader_bytes (h : Reads (imageByte m image) 0 data) (hlen : 13 ≤ data.length)
    (hmagic : data.take 4 = [0x45, 0x4D, 0x58, 0x46]) :
    emxfHeader m image data.length = .ok (
      if wordAt data 4 > 4096 then none
      else if wordAt data 8 ≥ wordAt data 4 then none
      else if 12 + wordAt data 4 > data.length then none
      else some (wordAt data 4, wordAt data 8)) := by
  have himage : image ≠ 0 := by
    rintro rfl
    have := imageByte_window (reads_bytes h (show 0 < data.length by omega) ▸
      bytesAt_of_lt (show 0 < data.length by omega))
    omega
  have hword : ∀ off, off + 4 ≤ data.length →
      readLe32 (imageByte m image) off = .ok (wordAt data off) := fun off hoff =>
    (readLe32_congr fun j hj => reads_bytes h (by omega)).trans (readLe32_bytesAt hoff)
  unfold emxfHeader
  rw [if_neg fun hc => hc.elim himage (by omega),
    magicMatches_congr fun j hj => reads_bytes h (by omega), magicMatches_bytesAt (by omega), ok_bind,
    decide_eq_true hmagic, if_neg (by decide), hword 4 (by omega), ok_bind, hword 8 (by omega), ok_bind]
  split_ifs <;> rfl

end

/-! ## 3. The two agree on programs of one page -/

/-- The next two pages `pmm_alloc_page` hands out are in the direct map. -/
def TwoLowPages (s : Mm) : Prop :=
  ¬ NoLowPage s ∧ ¬ NoLowPage { s with pmm := (pmmAllocPage s.pmm).2 }

section

variable {p0 : Pmm} {s0 : Mm} {bs : List Blk} {k : Kernel} {i : Fin 16} {image size : Nat}
  {data : List Byte}

/-- Nothing stands against the code page of a fresh process. -/
theorem FreshSpace.canCopy (hf : FreshSpace k i) (hlow : TwoLowPages k.mm) (hsize : size ≤ 4096) :
    ¬ CannotCopy k i 0x00400000 size := by
  rintro (hfull | hbig | hno | hmapped | ⟨-, hno⟩)
  · rw [hf.pages] at hfull
    cases hfull
  · omega
  · exact hlow.1 hno
  · rw [show pdeIndex 0x00400000 = 1 by decide,
      (userHalf_empty hf.empty).pte _ (pteIndex_lt _)] at hmapped
    cases hmapped
  · exact hlow.2 hno

/-- **THE LOADER TAKES WHAT THE BUILD ACCEPTS, exactly if the code fits a page**: for every byte
    string that `check-emxf.py` accepts, wherever it lies in the direct map, every fresh process
    and every state of memory with two pages to give. -/
theorem checkedEmxf_loads_iff (h : MmInv p0 s0 k.processes bs k.mm) (hf : FreshSpace k i)
    (hsp : (k.processes i).addressSpace ∈ k.mm.spaces) (hlow : TwoLowPages k.mm)
    (hdata : Reads (imageByte k.mm.mem image) 0 data) (hc : checkEmxf data = .ok ()) :
    (∃ k', loadEmxf k i image data.length = .ok (0, k')) ↔ data.length ≤ 12 + 4096 := by
  obtain ⟨hlen, hmagic, hsize, hentry⟩ := checkEmxf_ok.mp hc
  have hhdr := emxfHeader_bytes hdata hlen hmagic
  rw [hsize, hentry, if_neg (show ¬ (0 ≥ data.length - 12) by omega),
    if_neg (show ¬ (12 + (data.length - 12) > data.length) by omega)] at hhdr
  by_cases hfit : data.length ≤ 12 + 4096
  · refine iff_of_true ?_ hfit
    rw [if_neg (by omega)] at hhdr
    -- the first and the last byte of the code are in the direct map, so all of it is
    have hwindow := fun j (hj : j < data.length) =>
      imageByte_window ((reads_bytes hdata hj).trans (bytesAt_of_lt hj))
    have hfirst := hwindow 12 (by omega)
    have hlast := hwindow (data.length - 1) (by omega)
    have hsrc : SourceOk (some ((image + 12) % 2 ^ 32)) (data.length - 12) := fun a ha => by
      cases ha
      exact .inr ⟨hfirst.1, by omega⟩
    obtain ⟨k', f, e, -, -⟩ := h.mapCopied_ok 0 hsp (by decide) (by decide)
      (hf.canCopy hlow (show data.length - 12 ≤ 4096 by omega)) hsrc
    exact ⟨_, bind_ok.mpr ⟨_, hhdr, bind_ok.mpr ⟨_, e, if_neg (not_not.mpr rfl)⟩⟩⟩
  · refine iff_of_false ?_ hfit
    rintro ⟨k', e⟩
    rw [if_pos (by omega)] at hhdr
    obtain ⟨hdr, hhdr', e⟩ := bind_ok.mp e
    cases hhdr.symm.trans hhdr'
    cases e

end

theorem Room.twoLowPages {s : Mm} (h : Room s.pmm 2) : TwoLowPages s :=
  ⟨h.low, Room.low (s := { s with pmm := (pmmAllocPage s.pmm).2 }) h.next⟩

/-- A program of `n` zeros. -/
def zeroProgram (n : Nat) : List Byte :=
  [0x45, 0x4D, 0x58, 0x46] ++ le32 n ++ le32 0 ++ List.replicate n 0

theorem length_zeroProgram (n : Nat) : (zeroProgram n).length = 12 + n := by
  simp [zeroProgram]
  omega

/-- A program of one byte is accepted and loaded. -/
theorem checkedEmxf_loads_one : ∃ k k', checkEmxf (zeroProgram 1) = .ok () ∧
    loadEmxf k 0 0xC0050000 (zeroProgram 1).length = .ok (0, k') := by
  obtain ⟨s0, k, -, h, hf, hsp, hroom, hdata⟩ := freshProcess_small (zeroProgram 1) (by decide)
  have hc : checkEmxf (zeroProgram 1) = .ok () := by decide
  obtain ⟨k', e⟩ := (checkedEmxf_loads_iff h hf hsp hroom.twoLowPages hdata hc).mpr (by decide)
  exact ⟨k, k', hc, e⟩

/-- **A program of a page and a byte is accepted, and not loaded.** -/
theorem checkedEmxf_rejected : ∃ (p0 : Pmm) (s0 : Mm) (k : Kernel),
    MmInv p0 s0 k.processes [] k.mm ∧ FreshSpace k 0 ∧ (k.processes 0).addressSpace ∈ k.mm.spaces ∧
    TwoLowPages k.mm ∧ Reads (imageByte k.mm.mem 0xC0050000) 0 (zeroProgram 4097) ∧
    checkEmxf (zeroProgram 4097) = .ok () ∧
    loadEmxf k 0 0xC0050000 (zeroProgram 4097).length = .ok (-1, k) := by
  have hlen := length_zeroProgram 4097
  have hmagic : (zeroProgram 4097).take 4 = [0x45, 0x4D, 0x58, 0x46] := rfl
  have hsize : wordAt (zeroProgram 4097) 4 = 4097 := by decide
  have hentry : wordAt (zeroProgram 4097) 8 = 0 := by decide
  obtain ⟨s0, k, -, h, hf, hsp, hroom, hdata⟩ := freshProcess_small (zeroProgram 4097)
    (by rw [hlen]; decide)
  refine ⟨_, s0, k, h, hf, hsp, hroom.twoLowPages, hdata,
    checkEmxf_ok.mpr ⟨by rw [hlen]; decide, hmagic, by rw [hsize, hlen], hentry⟩, ?_⟩
  have hhdr := emxfHeader_bytes hdata (by rw [hlen]; decide) hmagic
  rw [hsize, if_pos (by decide)] at hhdr
  unfold loadEmxf
  rw [hhdr]
  rfl

end Emyx
