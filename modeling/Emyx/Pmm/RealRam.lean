/-
  File:      Emyx/Pmm/RealRam.lean
  Subject:   WHICH PAGES `pmm_init` MAKES ALLOCATABLE.

  `clear_usable_pages` shifts a region's start and length apart, so a region that starts in the
  middle of a page clears that page, and a region from 16 TiB on clears pages of cut numbers. It
  also reads the map anew, and an entry under the bitmap is then none of the map. Those pages are
  stray; all others lie in a region of the map.

  * `StrayPage` -- a page that is cleared for an entry and does not lie in a region of that name;
  * `strayPage_unaligned` -- below 16 TiB that is the page an unaligned region starts in;
  * `onlyRam_iff` -- every clear page is RAM if and only if the stray pages happen to be.
-/
import Emyx.Pmm.Placement

namespace Emyx

open Lib

/-- All bytes of the page lie in type 1 regions. -/
def PageInRam (es : List MmapEntry) (page : Nat) : Prop :=
  ∀ x, page * 4096 ≤ x → x < (page + 1) * 4096 → InRam es x

/-- Every page that can be allocated is RAM. -/
def OnlyRam (es : List MmapEntry) (p : Pmm) : Prop :=
  ∀ page, page < p.maxPage → ¬ p.isSet page → PageInRam es page

/-- `clear_usable_pages` clears the page for the entry, but the map does not have that entry or the
    page does not lie in its region. -/
structure StrayPage (es : List MmapEntry) (maxPage : Nat) (e : MmapEntry) (page : Nat) : Prop where
  cleared : (clearRange maxPage e).1 ≤ page ∧ page < (clearRange maxPage e).2
  outside : e ∈ es → page * 4096 < e.addr ∨ e.addr + e.len < (page + 1) * 4096

/-- Only a type 1 entry clears pages. -/
theorem clearRange_type {maxPage page : Nat} {e : MmapEntry}
    (h : (clearRange maxPage e).1 ≤ page ∧ page < (clearRange maxPage e).2) : e.type = 1 := by
  by_contra ht
  unfold clearRange at h
  rw [if_neg ht] at h
  omega

/-- **Below 16 TiB a region's only stray page is the one it starts in the middle of.** -/
theorem strayPage_unaligned {es : List MmapEntry} {maxPage page : Nat} {e : MmapEntry}
    (hmem : e ∈ es) (he : e.addr + e.len < 2 ^ 44) (h : StrayPage es maxPage e page) :
    page = e.addr / 4096 ∧ e.addr % 4096 ≠ 0 := by
  obtain ⟨hc, hout⟩ := h
  have hout := hout hmem
  have ht := clearRange_type hc
  unfold clearRange at hc
  simp only [if_pos ht, Nat.shiftRight_eq_div_pow] at hc
  rw [Nat.mod_eq_of_lt (show e.addr / 2 ^ 12 < 2 ^ 32 by omega),
    Nat.mod_eq_of_lt (show e.len / 2 ^ 12 < 2 ^ 32 by omega),
    Nat.mod_eq_of_lt (show e.addr / 2 ^ 12 + e.len / 2 ^ 12 < 2 ^ 32 by omega)] at hc
  split_ifs at hc <;> simp only at hc <;> omega

/-- A page that is cleared for an entry and no stray lies in RAM. -/
theorem pageInRam_of_not_stray {maxPage page : Nat} {es : List MmapEntry} {e : MmapEntry}
    (hc : (clearRange maxPage e).1 ≤ page ∧ page < (clearRange maxPage e).2)
    (hs : ¬ StrayPage es maxPage e page) : PageInRam es page := by
  intro x h1 h2
  have hin : ¬ (e ∈ es → page * 4096 < e.addr ∨ e.addr + e.len < (page + 1) * 4096) := fun h =>
    hs ⟨hc, h⟩
  push Not at hin
  obtain ⟨he, h3, h4⟩ := hin
  exact ⟨e, he, clearRange_type hc, by omega, by omega⟩

/-- **Only RAM becomes allocatable if and only if** every stray page of an entry that
    `clear_usable_pages` meets (and, should the bitmap be sized too small to be filled, every page
    whose bit was clear in memory) is RAM or is reserved. -/
theorem onlyRam_iff {m : Mem} {img : KernelImage} {mbi : MultibootInfo} {p : Pmm}
    {es : List MmapEntry} (hmbi : mbi.addr < 0x1000000) (hlen : mbi.mmapLength < 2 ^ 32)
    (hes : mmapEntries m mbi = .ok es) (h : pmmInit m img mbi = .ok p) :
    OnlyRam es p ↔
      ∀ e b us, FirstPlace img mbi (bitmapBytesFor (findMaxPage es)) es e b →
        Reread m mbi.mmapStop (vmmPhysToVirt mbi.mmapAddr) (pmmFilled m es b) us →
        (∀ e' ∈ us, ∀ page, StrayPage es (findMaxPage es) e' page →
          PageInRam es page ∨ Reserved img b (bitmapBytesFor (findMaxPage es)) page) ∧
        ∀ page, page < findMaxPage es → ¬ FilledSet m b (bitmapBytesFor (findMaxPage es)) page →
          PageInRam es page ∨ Reserved img b (bitmapBytesFor (findMaxPage es)) page := by
  obtain ⟨base, us, hlim, hus, rfl, _, e, hfirst⟩ := pmmInit_firstPlace hmbi hlen hes h
  have hset := pmmSetup_isSet m img es us hlim
  have hmax := (pmmSetup_geometry m img es us base).1
  unfold OnlyRam
  rw [hmax]
  constructor
  · intro honly e' b us' h' hus'
    obtain ⟨rfl, rfl⟩ := hfirst.unique h'
    cases hus.unique hus'
    refine ⟨fun e' he' page hs => ?_, fun page hlt hf => ?_⟩
    · have hu : Usable (findMaxPage es) us page := ⟨e', he', hs.cleared⟩
      by_cases hr : Reserved img base (bitmapBytesFor (findMaxPage es)) page
      · exact .inr hr
      · refine .inl (honly page hu.lt fun hc => ?_)
        rcases (hset page).mp hc with ⟨_, hn⟩ | ⟨hc, _⟩
        · exact hn hu
        · exact hr hc
    · by_cases hr : Reserved img base (bitmapBytesFor (findMaxPage es)) page
      · exact .inr hr
      · refine .inl (honly page hlt fun hc => ?_)
        rcases (hset page).mp hc with ⟨hc, _⟩ | ⟨hc, _⟩
        · exact hf hc
        · exact hr hc
  · intro hcond page hlt hclear
    obtain ⟨hstray, hfill⟩ := hcond e base us hfirst hus
    rw [hset] at hclear
    have hr : ¬ Reserved img base (bitmapBytesFor (findMaxPage es)) page := fun hr =>
      hclear (.inr ⟨hr, hlt⟩)
    by_cases hf : FilledSet m base (bitmapBytesFor (findMaxPage es)) page
    · have hu : Usable (findMaxPage es) us page := by
        by_contra hn
        exact hclear (.inl ⟨hf, hn⟩)
      obtain ⟨e', he', hc⟩ := hu
      by_cases hs : StrayPage es (findMaxPage es) e' page
      · exact (hstray e' he' page hs).resolve_right hr
      · exact pageInRam_of_not_stray hc hs
    · exact (hfill page hlt hf).resolve_right hr

/-- RAM from the middle of page `0x200` on. -/
def unalignedRam : MmapEntry := ⟨20, 0x200800, 0x2000, 1⟩

def unalignedMem : Mem := wrEntry (wrEntry (fun _ => 0) 0x9000 lowRam) 0x9018 unalignedRam

theorem entries_unalignedMem :
    mmapEntries unalignedMem (mapInfo 2) = .ok [lowRam, unalignedRam] := by decide +kernel

/-- What `pmm_init` leaves there. -/
def unalignedPmm : Pmm :=
  pmmSetup unalignedMem smallImage [lowRam, unalignedRam] [lowRam, unalignedRam] 0x110000

theorem pmmInit_unalignedMem : pmmInit unalignedMem smallImage (mapInfo 2) = .ok unalignedPmm :=
  pmmInit_clear (by decide +kernel) entries_unalignedMem (by decide +kernel) (by decide)
    (by decide +kernel) (by decide) (by decide) (by decide) (by decide +kernel)

theorem onlyRam_lowMem : OnlyRam [lowRam] (lowPmm lowMem) := by
  have hmax : findMaxPage [lowRam] = 0x140 := by decide
  have hbytes : bitmapBytesFor 0x140 = 0x28 := by decide
  have hentries : mmapEntries lowMem (mapInfo 1) = .ok [lowRam] := by decide +kernel
  refine (onlyRam_iff (by decide) (by decide) hentries pmmInit_lowMem).mpr
    fun e b us hb hus => ⟨fun e' he' page hs => ?_, fun page hlt hf => ?_⟩
  · obtain ⟨hr, _⟩ := EntriesClear.reread (p := pmmFilled lowMem [lowRam] b) (firstPlace_lowMem hb).2
      (pmmFilled_over lowMem (by decide) b) hentries
    cases hus.unique hr
    rw [List.mem_singleton.mp he'] at hs
    exact absurd (strayPage_unaligned (List.mem_singleton_self _) (by decide) hs).2 (by decide)
  · refine absurd (.inl ?_) hf
    rw [hmax] at hlt ⊢
    rw [hbytes]
    omega

/-- **A page that is not RAM becomes allocatable**: with RAM from `0x200800` on, page `0x200` is
    clear, and its first half lies in no type 1 region. -/
theorem clear_page_outside_ram :
    mmapEntries unalignedMem (mapInfo 2) = .ok [lowRam, unalignedRam] ∧
    ∃ p, pmmInit unalignedMem smallImage (mapInfo 2) = .ok p ∧ 0x200 < p.maxPage ∧
      ¬ p.isSet 0x200 ∧ ¬ InRam [lowRam, unalignedRam] 0x200000 ∧
      ¬ OnlyRam [lowRam, unalignedRam] p := by
  have hmax : findMaxPage [lowRam, unalignedRam] = 0x202 := by decide
  have hclear : ¬ unalignedPmm.isSet 0x200 := by
    unfold unalignedPmm
    rw [pmmSetup_isSet _ _ _ _ (by decide)]
    rintro (⟨_, hu⟩ | ⟨hr, _⟩)
    · exact hu ⟨unalignedRam, by simp, by decide, by decide⟩
    · revert hr
      unfold Reserved
      decide
  have hlt : 0x200 < unalignedPmm.maxPage := by
    unfold unalignedPmm
    rw [(pmmSetup_geometry _ _ _ _ _).1, hmax]
    decide
  have hout : ¬ InRam [lowRam, unalignedRam] 0x200000 := by
    unfold InRam
    decide
  exact ⟨entries_unalignedMem, _, pmmInit_unalignedMem, hlt, hclear, hout, fun honly =>
    hout (honly 0x200 hlt hclear 0x200000 (by decide) (by decide))⟩

end Emyx
