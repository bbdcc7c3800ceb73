/-
  File:      Emyx/Pmm/Search.lean
  Subject:   `find_segment` ENDS, AND FINDS THE LEAST SEGMENT of the first region that has one, as
             long as no sum of addresses wraps.

  * `Segment` -- a segment of a region as the comment over `find_segment` asks for it;
  * `findInRegion_ends` -- each jump leaves one of the three ranges behind, so there are at most
    three;
  * **`findSegment_least`** -- the search over a whole map, for any number of bytes.
-/
import Emyx.Pmm.Placement

namespace Emyx

open Lib

/-- The `bytes` bytes at the page boundary `s` lie in the region of `e`, not at address 0, and clear
    of the kernel, the multiboot info and the map buffer. -/
structure Segment (img : KernelImage) (mbi : MultibootInfo) (bytes : Nat) (e : MmapEntry) (s : Nat) :
    Prop where
  page : s % 4096 = 0
  notNull : s ≠ 0
  ram : ∀ x, s ≤ x → x < s + bytes → e.addr ≤ x ∧ x < e.addr + e.len
  kernel : Apart s (s + bytes) img.physicalStart img.physicalEnd
  info : Apart s (s + bytes) mbi.addr (mbi.addr + MultibootInfo.size)
  buffer : Apart s (s + bytes) mbi.mmapAddr (mbi.mmapAddr + mbi.mmapLength)

/-- `b` is the least segment of the first type 1 region in list order that has one, or 0 when none
    has one. -/
def FirstSegment (img : KernelImage) (mbi : MultibootInfo) (bytes : Nat) (es : List MmapEntry)
    (b : Nat) : Prop :=
  (∃ before e after, es = before ++ e :: after ∧ e.type = 1 ∧
    (∀ e' ∈ before, e'.type = 1 → ∀ s, ¬ Segment img mbi bytes e' s) ∧
    Segment img mbi bytes e b ∧ ∀ s, Segment img mbi bytes e s → b ≤ s) ∨
  b = 0 ∧ ∀ e ∈ es, e.type = 1 → ∀ s, ¬ Segment img mbi bytes e s

/-- The ranges `find_segment` keeps clear of lie below 1 GiB and are not empty. -/
structure LowRanges (mbi : MultibootInfo) : Prop where
  info : mbi.addr + MultibootInfo.size ≤ 0x40000000
  nonempty : 0 < mbi.mmapLength
  buffer : mbi.mmapAddr + mbi.mmapLength ≤ 0x40000000

section

variable {img : KernelImage} {mbi : MultibootInfo} {bytes : Nat} {e : MmapEntry}

/-! ## 1. The search ends -/

/-- How many of the three ranges end behind `start`. -/
def pendingRanges (img : KernelImage) (mbi : MultibootInfo) (start : Nat) : Nat :=
  (if start < img.physicalEnd then 1 else 0) +
    (if start < mbi.addr + MultibootInfo.size then 1 else 0) +
    (if start < mbi.mmapAddr + mbi.mmapLength then 1 else 0)

/-- A jump to the end of a range that was pending. -/
theorem pendingRanges_jump {start hi : Nat} (hlt : start < hi) (hhi : hi + 4095 < 2 ^ 32)
    (hr : hi = img.physicalEnd ∨ hi = mbi.addr + MultibootInfo.size ∨
      hi = mbi.mmapAddr + mbi.mmapLength) :
    pendingRanges img mbi (alignUp hi 4096) < pendingRanges img mbi start := by
  have hge : hi ≤ alignUp hi 4096 := by
    rw [alignUp_page hhi]
    omega
  unfold pendingRanges
  split_ifs <;> omega

/-- **The inner loop ends**, without a sum that wraps: every jump leaves a range behind. -/
theorem findInRegion_ends (hr : LowRanges mbi) {eend : Nat} (hend : eend + bytes + 4096 < 2 ^ 32)
    {fuel start : Nat} (hstart : start + bytes < 2 ^ 32)
    (hfuel : pendingRanges img mbi start < fuel) :
    ∃ r, findInRegion img mbi bytes eend fuel start = .ok r ∧
      ∀ b, r = some b → b + bytes < 2 ^ 32 := by
  have hk := img.linked
  have hinfo := hr.info
  have hbuf := hr.buffer
  induction fuel generalizing start with
  | zero => omega
  | succ fuel ih =>
    unfold findInRegion
    simp only [Nat.mod_eq_of_lt (show mbi.mmapAddr + mbi.mmapLength < 2 ^ 32 by omega),
      Nat.mod_eq_of_lt hstart]
    by_cases hfit : start + bytes ≤ eend
    · rw [if_pos hfit]
      have hnext : ∀ hi, start < hi → hi ≤ 0x40000000 →
          (hi = img.physicalEnd ∨ hi = mbi.addr + MultibootInfo.size ∨
            hi = mbi.mmapAddr + mbi.mmapLength) →
          ∃ r, findInRegion img mbi bytes eend fuel (alignUp hi 4096) = .ok r ∧
            ∀ b, r = some b → b + bytes < 2 ^ 32 := by
        intro hi hlt hle hcase
        have hpend := pendingRanges_jump hlt (by omega) hcase
        refine ih ?_ (by omega)
        rw [alignUp_page (by omega)]
        omega
      split_ifs with hov1 hov2 hov3
      · exact hnext _ (rangesOverlap_iff.mp hov1).1 hk (.inl rfl)
      · exact hnext _ (rangesOverlap_iff.mp hov2).1 hinfo (.inr (.inl rfl))
      · exact hnext _ (rangesOverlap_iff.mp hov3).1 hbuf (.inr (.inr rfl))
      · refine ⟨some start, rfl, fun b hb => ?_⟩
        cases hb
        exact hstart
    · rw [if_neg hfit]
      exact ⟨none, rfl, fun b hb => by cases hb⟩

/-! ## 2. What it finds -/

/-- The first page boundary of a low region that is not address 0. -/
theorem cutStart_low (h : e.addr + 4096 < 2 ^ 32) :
    cutStart e % 4096 = 0 ∧ cutStart e ≠ 0 ∧ cutStart e < e.addr + 4097 ∧
      ∀ s, s % 4096 = 0 → s ≠ 0 → (e.addr ≤ s ↔ cutStart e ≤ s) := by
  unfold cutStart
  by_cases h0 : e.addr = 0
  · rw [if_pos h0, alignUp_page (by decide)]
    refine ⟨by decide, by decide, by omega, fun s hs hne => ?_⟩
    omega
  · have hmod : e.addr % 2 ^ 32 = e.addr := Nat.mod_eq_of_lt (by omega)
    rw [if_neg h0, hmod, alignUp_page (by omega)]
    refine ⟨by omega, by omega, by omega, fun s hs hne => ?_⟩
    omega

theorem apart_iff {a b c d : Nat} (h1 : a < b) (h2 : c < d) :
    Apart a b c d ↔ ¬ rangesOverlap a b c d := by
  refine ⟨fun h hov => ?_, apart_of_not_overlap⟩
  have := rangesOverlap_iff.mp hov
  exact h (max a c) (by omega) (by omega) ⟨by omega, by omega⟩

/-- In a low region a place is a segment. -/
theorem place_iff_segment (hb : 0 < bytes) (hr : LowRanges mbi)
    (hlow : e.addr + e.len + bytes + 4096 < 2 ^ 32) {s : Nat} :
    Place img mbi bytes e s ∧ s ≠ 0 ↔ Segment img mbi bytes e s := by
  have hk := img.nonempty
  have hlen := hr.nonempty
  have hsize : MultibootInfo.size = 52 := rfl
  have hcut : cutEnd e = e.addr + e.len := Nat.mod_eq_of_lt (by omega)
  obtain ⟨-, -, -, hstart⟩ := cutStart_low (e := e) (by omega)
  constructor
  · intro h
    obtain ⟨hp, hs0⟩ := h
    exact ⟨hp.page, hs0, hp.inRegion (by omega), apart_of_not_overlap hp.clear.kernel,
      apart_of_not_overlap hp.clear.info, apart_of_not_overlap hp.clear.buffer⟩
  · intro h
    have hfirst := (h.ram s (Nat.le_refl s) (by omega)).1
    have hlast := (h.ram (s + bytes - 1) (by omega) (by omega)).2
    refine ⟨⟨h.page, (hstart s h.page h.notNull).mp hfirst, by omega, ?_, ?_, ?_⟩, h.notNull⟩
    · exact (apart_iff (by omega) hk).mp h.kernel
    · exact (apart_iff (by omega) (by omega)).mp h.info
    · exact (apart_iff (by omega) (by omega)).mp h.buffer

/-- **The search in one region** ends with its least segment, or finds that it has none. -/
theorem findInRegion_least (img : KernelImage) (hb : 0 < bytes) (hr : LowRanges mbi)
    (hlow : e.addr + e.len + bytes + 4096 < 2 ^ 32) :
    (findInRegion img mbi bytes (cutEnd e) 6 (cutStart e) = .ok none ∧
      ∀ s, ¬ Segment img mbi bytes e s) ∨
    ∃ b, findInRegion img mbi bytes (cutEnd e) 6 (cutStart e) = .ok (some b) ∧
      Segment img mbi bytes e b ∧ ∀ s, Segment img mbi bytes e s → b ≤ s := by
  have hcut : cutEnd e = e.addr + e.len := Nat.mod_eq_of_lt (by omega)
  obtain ⟨hpage, hne, hlt, -⟩ := cutStart_low (e := e) (by omega)
  have hpend : pendingRanges img mbi (cutStart e) < 6 := by
    unfold pendingRanges
    split_ifs <;> omega
  have hend : cutEnd e + bytes + 4096 < 2 ^ 32 := by omega
  obtain ⟨r, h, hwrap⟩ := findInRegion_ends hr hend (by omega) hpend
  have hinfo := hr.info
  have hbuf := hr.buffer
  have hfound := findInRegion_spec (by omega) (by omega) hpage h
  have hseg : ∀ s, Segment img mbi bytes e s → Place img mbi bytes e s := fun s hs =>
    ((place_iff_segment hb hr hlow).mpr hs).1
  cases r with
  | none =>
    refine .inl ⟨h, fun s hs => ?_⟩
    have hp := hseg s hs
    have := hfound s hp.start hp.page hp.clear
    have := hp.stop
    omega
  | some b =>
    obtain ⟨h1, h2, h3, h4, h5⟩ := hfound (hwrap b rfl)
    refine .inr ⟨b, h, (place_iff_segment hb hr hlow).mp ⟨⟨h2, h1, h3, h4⟩, by omega⟩, fun s hs => ?_⟩
    have hp := hseg s hs
    exact h5 s hp.start hp.page hp.clear

/-- An entry without a segment is passed over. -/
theorem FirstSegment.cons {es : List MmapEntry} {b : Nat} (h : FirstSegment img mbi bytes es b)
    (hno : e.type = 1 → ∀ s, ¬ Segment img mbi bytes e s) :
    FirstSegment img mbi bytes (e :: es) b := by
  rcases h with ⟨before, e', after, hes, ht, hbefore, hseg⟩ | ⟨h0, hnone⟩
  · exact .inl ⟨e :: before, e', after, by rw [hes]; rfl, ht,
      List.forall_mem_cons.mpr ⟨hno, hbefore⟩, hseg⟩
  · exact .inr ⟨h0, List.forall_mem_cons.mpr ⟨hno, hnone⟩⟩

/-- `find_segment` over a list of entries. -/
theorem findSegment_entries (img : KernelImage) (hb : 0 < bytes) (hr : LowRanges mbi)
    {es : List MmapEntry}
    (hlow : ∀ e ∈ es, e.type = 1 → e.addr + e.len + bytes + 4096 < 2 ^ 32) :
    ∃ b, findSegment img mbi bytes es = .ok b ∧ FirstSegment img mbi bytes es b := by
  induction es with
  | nil => exact ⟨0, rfl, .inr ⟨rfl, fun e he => absurd he List.not_mem_nil⟩⟩
  | cons a es ih =>
    obtain ⟨b, hfind, hfirst⟩ := ih fun e he => hlow e (List.mem_cons_of_mem _ he)
    rw [findSegment_cons]
    by_cases ht : a.type ≠ 1
    · rw [if_pos ht]
      exact ⟨b, hfind, hfirst.cons fun h => absurd h ht⟩
    · rw [if_neg ht]
      rw [not_not] at ht
      rcases findInRegion_least img hb hr (hlow a List.mem_cons_self ht) with
        ⟨hnone, hno⟩ | ⟨c, hsome, hseg, hmin⟩
      · rw [hnone, ok_bind]
        exact ⟨b, hfind, hfirst.cons fun _ => hno⟩
      · rw [hsome, ok_bind]
        exact ⟨c, rfl, .inl ⟨[], a, es, rfl, ht, by simp, hseg, hmin⟩⟩

/-- **`find_segment` IS COMPLETE, MINIMAL AND TERMINATING**: on a map that passes `check_mmap`, with
    no sum that wraps, it returns the least segment of the first region in list order that has one,
    and 0 when no region has one. -/
theorem findSegment_least {m : Mem} (hb : 0 < bytes) (hc : checkMmap m mbi = .ok ())
    (hr : LowRanges mbi) (hlow : ∀ es, mmapEntries m mbi = .ok es → ∀ e ∈ es, e.type = 1 →
      e.addr + e.len + bytes + 4096 < 2 ^ 32) :
    ∃ es b, mmapEntries m mbi = .ok es ∧ findSegment img mbi bytes es = .ok b ∧
      FirstSegment img mbi bytes es b := by
  obtain ⟨-, haddr, hfrom⟩ := checkMmap_ok hc
  rw [← vmmPhysToVirt_of_lt haddr] at hfrom
  obtain ⟨es, hes⟩ := mmapWalk_of_check hfrom
  obtain ⟨b, h⟩ := findSegment_entries img hb hr (hlow es hes)
  exact ⟨es, b, hes, h⟩

end

/-- The bitmap of the machine with RAM from 1 MiB on stands right behind its kernel. -/
theorem findSegment_least_lowMem :
    findSegment smallImage (mapInfo 1) 0x400 [lowRam] = .ok 0x110000 ∧
      FirstSegment smallImage (mapInfo 1) 0x400 [lowRam] 0x110000 := by
  have hes : mmapEntries lowMem (mapInfo 1) = .ok [lowRam] := by decide +kernel
  have hfind : findSegment smallImage (mapInfo 1) 0x400 [lowRam] = .ok 0x110000 := by decide +kernel
  have hr : LowRanges (mapInfo 1) := ⟨by decide, by decide, by decide⟩
  have hlow : ∀ es, mmapEntries lowMem (mapInfo 1) = .ok es → ∀ e ∈ es, e.type = 1 →
      e.addr + e.len + 0x400 + 4096 < 2 ^ 32 := by
    intro es h e he _
    cases hes.symm.trans h
    rw [List.mem_singleton.mp he]
    decide
  have hpos : 0 < 0x400 := by decide
  obtain ⟨es, b, hes', hb, hfirst⟩ : ∃ es b, mmapEntries lowMem (mapInfo 1) = .ok es ∧
      findSegment smallImage (mapInfo 1) 0x400 es = .ok b ∧
      FirstSegment smallImage (mapInfo 1) 0x400 es b :=
    findSegment_least hpos (by decide +kernel) hr hlow
  cases Except.ok.inj (hes.symm.trans hes')
  rw [← Except.ok.inj (hfind.symm.trans hb)] at hfirst
  exact ⟨hfind, hfirst⟩

end Emyx
