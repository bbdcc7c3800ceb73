/-
  File:      Emyx/Pmm/Placement.lean
  Subject:   WHERE `pmm_init` PUTS THE BITMAP.

  `find_segment` reads a region's bounds cut to 32 bits. Within those bounds its search is what
  its comment says, the lowest page boundary clear of the kernel, the multiboot info and the map
  buffer (`findInRegion_spec`); but a region at or above 4 GiB has other bounds after the cut.

  * `Place`, `FirstPlace` -- a place for the bitmap in a region as it is read, and the lowest one
    of the first region that has one;
  * `findSegment_place` -- `find_segment` returns that one;
  * `bitmapPlaced_iff` -- when the bitmap then lies in RAM and clear of everything.
-/
import Emyx.Pmm.Run

namespace Emyx

open Lib

/-! ## 1. Places -/

/-- The first page boundary of a region, from its start cut to 32 bits (never address 0 itself). -/
def cutStart (e : MmapEntry) : Nat := alignUp (if e.addr = 0 then 1 else e.addr % 2 ^ 32) 4096

/-- The end of a region, cut to 32 bits. -/
def cutEnd (e : MmapEntry) : Nat := (e.addr + e.len) % 2 ^ 32

/-- A bitmap of `bytes` bytes at `s` meets none of the ranges that must survive. -/
structure Clear (img : KernelImage) (mbi : MultibootInfo) (bytes s : Nat) : Prop where
  kernel : ¬ rangesOverlap s (s + bytes) img.physicalStart img.physicalEnd
  info : ¬ rangesOverlap s (s + bytes) mbi.addr (mbi.addr + MultibootInfo.size)
  buffer : ¬ rangesOverlap s (s + bytes) mbi.mmapAddr (mbi.mmapAddr + mbi.mmapLength)

/-- The bitmap fits at the page boundary `s` of the region, as `find_segment` reads its bounds. -/
structure Place (img : KernelImage) (mbi : MultibootInfo) (bytes : Nat) (e : MmapEntry) (s : Nat) :
    Prop where
  page : s % 4096 = 0
  start : cutStart e ≤ s
  stop : s + bytes ≤ cutEnd e
  clear : Clear img mbi bytes s

/-- The lowest place of the first type 1 entry that has one. -/
inductive FirstPlace (img : KernelImage) (mbi : MultibootInfo) (bytes : Nat) :
    List MmapEntry → MmapEntry → Nat → Prop where
  | here {e : MmapEntry} {es : List MmapEntry} {b : Nat} : e.type = 1 → Place img mbi bytes e b →
    (∀ s, Place img mbi bytes e s → b ≤ s) → FirstPlace img mbi bytes (e :: es) e b
  | later {e e' : MmapEntry} {es : List MmapEntry} {b : Nat} :
    ¬ (e.type = 1 ∧ ∃ s, Place img mbi bytes e s) → FirstPlace img mbi bytes es e' b →
    FirstPlace img mbi bytes (e :: es) e' b

section

variable {img : KernelImage} {mbi : MultibootInfo} {bytes : Nat}

theorem FirstPlace.unique {es : List MmapEntry} {e e' : MmapEntry} {b b' : Nat}
    (h : FirstPlace img mbi bytes es e b) (h' : FirstPlace img mbi bytes es e' b') :
    e = e' ∧ b = b' := by
  induction h with
  | here ht hp hmin =>
    cases h' with
    | here _ hp' hmin' => exact ⟨rfl, Nat.le_antisymm (hmin _ hp') (hmin' _ hp)⟩
    | later hno _ => exact absurd ⟨ht, _, hp⟩ hno
  | later hno _ ih =>
    cases h' with
    | here ht hp _ => exact absurd ⟨ht, _, hp⟩ hno
    | later _ h' => exact ih h'

theorem FirstPlace.place {es : List MmapEntry} {e : MmapEntry} {b : Nat}
    (h : FirstPlace img mbi bytes es e b) : e ∈ es ∧ e.type = 1 ∧ Place img mbi bytes e b := by
  induction h with
  | here ht hp _ => exact ⟨List.mem_cons_self, ht, hp⟩
  | later _ _ ih => exact ⟨List.mem_cons_of_mem _ ih.1, ih.2⟩

/-! ## 2. The search -/

/-- `align_up` to a page, when the sum does not wrap. -/
theorem alignUp_page {a : Nat} (h : a + 4095 < 2 ^ 32) : alignUp a 4096 = (a + 4095) / 4096 * 4096 := by
  have := @alignUp_eq 32 12 a (by decide) (by omega)
  rw [show (2 : Nat) ^ 12 = 4096 from rfl] at this
  exact this

/-- `align_up` to a page gives a page boundary. -/
theorem alignUp_aligned (a : Nat) : alignUp a 4096 % 4096 = 0 := by
  have hlt : (a + 4096 - 1) % 2 ^ 32 < 2 ^ 32 := Nat.mod_lt _ (by decide)
  have := @land_highMask 32 12 _ (by decide) hlt
  rw [show (2 : Nat) ^ 12 = 4096 from rfl] at this
  unfold alignUp
  rw [show (2 : Nat) ^ 32 - 1 - (4096 - 1) = 2 ^ 32 - 4096 by decide, this]
  exact Nat.mul_mod_left _ _

theorem rangesOverlap_iff {a b c d : Nat} : rangesOverlap a b c d = true ↔ a < d ∧ c < b := by
  unfold rangesOverlap
  simp

/-- What the search from `start` has found, for the end `eend`. -/
def Found (img : KernelImage) (mbi : MultibootInfo) (bytes eend start : Nat) : Option Nat → Prop
  | none => ∀ s, start ≤ s → s % 4096 = 0 → Clear img mbi bytes s → eend < s + bytes
  | some b => b + bytes < 2 ^ 32 → start ≤ b ∧ b % 4096 = 0 ∧ b + bytes ≤ eend ∧
      Clear img mbi bytes b ∧ ∀ s, start ≤ s → s % 4096 = 0 → Clear img mbi bytes s → b ≤ s

/-- A candidate that meets the range `[lo, hi)` is passed over: so is every page boundary before
    the range's end. -/
theorem Found.jump {eend start lo hi : Nat} {r : Option Nat} (hhi : hi + 4095 < 2 ^ 32)
    (hov : start < hi ∧ lo < start + bytes)
    (hmeet : ∀ s, Clear img mbi bytes s → ¬ (s < hi ∧ lo < s + bytes))
    (h : Found img mbi bytes eend (alignUp hi 4096) r) : Found img mbi bytes eend start r := by
  rw [alignUp_page hhi] at h
  have hnext : ∀ s, start ≤ s → s % 4096 = 0 → Clear img mbi bytes s →
      (hi + 4095) / 4096 * 4096 ≤ s := fun s h1 h2 h3 => by
    have := hmeet s h3
    omega
  cases r with
  | none => exact fun s h1 h2 h3 => h s (hnext s h1 h2 h3) h2 h3
  | some b =>
    intro hb
    obtain ⟨h1, h2, h3, h4, h5⟩ := h hb
    exact ⟨by omega, h2, h3, h4, fun s hs hs2 hs3 => h5 s (hnext s hs hs2 hs3) hs2 hs3⟩

/-- **The search in one region finds its lowest place.** -/
theorem findInRegion_spec (hmbi : mbi.addr < 0x80000000)
    (hbuf : mbi.mmapAddr + mbi.mmapLength < 0x80000000) {eend fuel start : Nat} {r : Option Nat}
    (ha : start % 4096 = 0) (h : findInRegion img mbi bytes eend fuel start = .ok r) :
    Found img mbi bytes eend start r := by
  have hk := img.linked
  have hsize : MultibootInfo.size = 52 := rfl
  induction fuel generalizing start with
  | zero => cases h
  | succ fuel ih =>
    have hstop : (start + bytes) % 2 ^ 32 ≤ start + bytes := Nat.mod_le _ _
    unfold findInRegion at h
    simp only [Nat.mod_eq_of_lt (show mbi.mmapAddr + mbi.mmapLength < 2 ^ 32 by omega)] at h
    split_ifs at h with hfit hov1 hov2 hov3
    · rw [rangesOverlap_iff] at hov1
      refine Found.jump (by omega) ⟨hov1.1, Nat.lt_of_lt_of_le hov1.2 hstop⟩ (fun s hs => ?_)
        (ih (alignUp_aligned _) h)
      exact fun hc => hs.kernel (rangesOverlap_iff.mpr hc)
    · rw [rangesOverlap_iff] at hov2
      refine Found.jump (by omega) ⟨hov2.1, Nat.lt_of_lt_of_le hov2.2 hstop⟩ (fun s hs => ?_)
        (ih (alignUp_aligned _) h)
      exact fun hc => hs.info (rangesOverlap_iff.mpr hc)
    · rw [rangesOverlap_iff] at hov3
      refine Found.jump (by omega) ⟨hov3.1, Nat.lt_of_lt_of_le hov3.2 hstop⟩ (fun s hs => ?_)
        (ih (alignUp_aligned _) h)
      exact fun hc => hs.buffer (rangesOverlap_iff.mpr hc)
    · cases h
      intro hb
      rw [Nat.mod_eq_of_lt hb] at hfit hov1 hov2 hov3
      exact ⟨Nat.le_refl _, ha, hfit, ⟨hov1, hov2, hov3⟩, fun s hs _ _ => hs⟩
    · cases h
      intro s hs _ _
      omega

theorem findSegment_cons (e : MmapEntry) (es : List MmapEntry) :
    findSegment img mbi bytes (e :: es) =
      if e.type ≠ 1 then findSegment img mbi bytes es
      else (findInRegion img mbi bytes (cutEnd e) 6 (cutStart e) >>= fun r => match r with
        | some start => return start
        | none => findSegment img mbi bytes es) := rfl

/-- **`find_segment` returns the lowest place of the first region that has one.** -/
theorem findSegment_place (hmbi : mbi.addr < 0x80000000)
    (hbuf : mbi.mmapAddr + mbi.mmapLength < 0x80000000) {es : List MmapEntry} {b : Nat}
    (h : findSegment img mbi bytes es = .ok b) (h0 : b ≠ 0) (hb : b + bytes < 2 ^ 32) :
    ∃ e, FirstPlace img mbi bytes es e b := by
  induction es with
  | nil =>
    cases h
    exact absurd rfl h0
  | cons e es ih =>
    rw [findSegment_cons] at h
    by_cases ht : e.type ≠ 1
    · rw [if_pos ht] at h
      obtain ⟨e', h'⟩ := ih h
      exact ⟨e', .later (fun hc => ht hc.1) h'⟩
    · rw [if_neg ht] at h
      obtain ⟨r, hr, h⟩ := bind_ok.mp h
      have hfound := findInRegion_spec hmbi hbuf (alignUp_aligned _) hr
      cases r with
      | some c =>
        cases h
        obtain ⟨h1, h2, h3, h4, h5⟩ := hfound hb
        exact ⟨e, .here (not_not.mp ht) ⟨h2, h1, h3, h4⟩ fun s hs => h5 s hs.start hs.page hs.clear⟩
      | none =>
        obtain ⟨e', h'⟩ := ih h
        refine ⟨e', .later (fun hc => ?_) h'⟩
        obtain ⟨_, s, hs⟩ := hc
        exact absurd hs.stop (Nat.not_le.mpr (hfound s hs.start hs.page hs.clear))

end

/-! ## 3. The bitmap `pmm_init` leaves -/

theorem pmmInit_checked {m : Mem} {img : KernelImage} {mbi : MultibootInfo} {p : Pmm}
    (h : pmmInit m img mbi = .ok p) : checkMmap m mbi = .ok () := by
  unfold pmmInit at h
  obtain ⟨_, hc, _⟩ := bind_ok.mp h
  exact hc

theorem checkMmap_ok {m : Mem} {mbi : MultibootInfo} (h : checkMmap m mbi = .ok ()) :
    mbi.flags &&& 0x40 ≠ 0 ∧ mbi.mmapAddr < 0x1000000 ∧
      checkMmapFrom m mbi.mmapStop (2 ^ 32 + 1) (0xC0000000 + mbi.mmapAddr) = .ok () := by
  unfold checkMmap at h
  rw [ite_error_ok, ite_error_ok, vmmPhysToVirt_eq_zero] at h
  obtain ⟨h1, h2, h3⟩ := h
  rw [vmmPhysToVirt_of_lt (by omega)] at h3
  exact ⟨h1, by omega, h3⟩

/-- A walk that visits an entry started below the end of the buffer. -/
theorem mmapEntries_nonempty {m : Mem} {mbi : MultibootInfo} {es : List MmapEntry}
    (h : mmapEntries m mbi = .ok es) (hne : es ≠ []) :
    vmmPhysToVirt mbi.mmapAddr < mbi.mmapStop := by
  unfold mmapEntries mmapWalk at h
  by_contra hlt
  rw [if_neg hlt] at h
  cases h
  exact hne rfl

/-- The buffer of a map with entries ends below the top of the address space. -/
theorem mmapBuffer_bound {m : Mem} {mbi : MultibootInfo} {es : List MmapEntry}
    (hc : checkMmap m mbi = .ok ()) (h : mmapEntries m mbi = .ok es) (hne : es ≠ [])
    (hlen : mbi.mmapLength < 2 ^ 32) : mbi.mmapAddr + mbi.mmapLength < 0x40000000 := by
  have haddr := (checkMmap_ok hc).2.1
  have hlt := mmapEntries_nonempty h hne
  unfold MultibootInfo.mmapStop at hlt
  rw [vmmPhysToVirt_of_lt haddr] at hlt
  omega

/-- The `bytes` bytes at `b` lie in one type 1 region of the map. -/
def InOneRegion (es : List MmapEntry) (b bytes : Nat) : Prop :=
  ∃ e ∈ es, e.type = 1 ∧ ∀ x, b ≤ x → x < b + bytes → e.addr ≤ x ∧ x < e.addr + e.len

/-- The bitmap lies in RAM the kernel can address, clear of what must survive. -/
structure BitmapPlaced (img : KernelImage) (mbi : MultibootInfo) (es : List MmapEntry)
    (base bytes : Nat) : Prop where
  ram : InOneRegion es base bytes
  reach : base + bytes ≤ 0x1000000
  notNull : ¬ (base ≤ 0 ∧ 0 < base + bytes)
  kernel : Apart base (base + bytes) img.physicalStart img.physicalEnd
  info : Apart base (base + bytes) mbi.addr (mbi.addr + MultibootInfo.size)
  buffer : Apart base (base + bytes) mbi.mmapAddr (mbi.mmapAddr + mbi.mmapLength)

theorem apart_of_not_overlap {a b c d : Nat} (h : ¬ rangesOverlap a b c d) : Apart a b c d := by
  intro x h1 h2 h3
  exact h (rangesOverlap_iff.mpr ⟨by omega, by omega⟩)

/-- A place in a region that starts below 4 GiB, its last page apart, lies in the region. -/
theorem Place.inRegion {img : KernelImage} {mbi : MultibootInfo} {bytes b : Nat} {e : MmapEntry}
    (h : Place img mbi bytes e b) (ha : e.addr ≤ 0xFFFFF000) :
    ∀ x, b ≤ x → x < b + bytes → e.addr ≤ x ∧ x < e.addr + e.len := by
  have hstop := h.stop
  have hcut : cutEnd e ≤ e.addr + e.len := Nat.mod_le _ _
  have hstart : e.addr ≤ cutStart e := by
    unfold cutStart
    by_cases h0 : e.addr = 0
    · rw [h0]
      exact Nat.zero_le _
    · rw [if_neg h0, Nat.mod_eq_of_lt (by omega), alignUp_page (by omega)]
      omega
  intro x h1 h2
  have := h.start
  omega

/-- `pmm_init` completes with the bitmap at the lowest place of the first region that has one. -/
theorem pmmInit_firstPlace {m : Mem} {img : KernelImage} {mbi : MultibootInfo} {p : Pmm}
    {es : List MmapEntry} (hmbi : mbi.addr < 0x1000000) (hlen : mbi.mmapLength < 2 ^ 32)
    (hes : mmapEntries m mbi = .ok es) (h : pmmInit m img mbi = .ok p) :
    ∃ base us, base + bitmapBytesFor (findMaxPage es) ≤ 0x1000000 ∧
      Reread m mbi.mmapStop (vmmPhysToVirt mbi.mmapAddr) (pmmFilled m es base) us ∧
      p = pmmSetup m img es us base ∧ base ≠ 0 ∧
      ∃ e, FirstPlace img mbi (bitmapBytesFor (findMaxPage es)) es e base := by
  have hc := pmmInit_checked h
  obtain ⟨es', us, base, hes', hbase, h0, hlim, hus, rfl⟩ := pmmInit_ok h
  cases hes.symm.trans hes'
  have hne : es ≠ [] := by
    rintro rfl
    cases hbase
    exact h0 rfl
  have hbuf := mmapBuffer_bound hc hes hne hlen
  exact ⟨base, us, hlim, hus, rfl, h0, findSegment_place (by omega) (by omega) hbase h0 (by omega)⟩

/-- That place is where the bitmap is. -/
theorem FirstPlace.eq_bitmapBase {m : Mem} {img : KernelImage} {mbi : MultibootInfo} {p : Pmm}
    {es : List MmapEntry} {e : MmapEntry} {b : Nat} (hmbi : mbi.addr < 0x1000000)
    (hlen : mbi.mmapLength < 2 ^ 32) (hes : mmapEntries m mbi = .ok es)
    (h : pmmInit m img mbi = .ok p)
    (hb : FirstPlace img mbi (bitmapBytesFor (findMaxPage es)) es e b) : b = p.bitmapBase := by
  obtain ⟨base, us, _, _, rfl, _, _, hfirst⟩ := pmmInit_firstPlace hmbi hlen hes h
  rw [(pmmSetup_geometry m img es us base).2.1]
  exact (hb.unique hfirst).2

/-- **`pmm_init` places the bitmap safely if and only if** the first region that seems to have
    room for it starts low enough to keep its address when cut to 32 bits, or its place is RAM all
    the same. -/
theorem bitmapPlaced_iff {m : Mem} {img : KernelImage} {mbi : MultibootInfo} {p : Pmm}
    {es : List MmapEntry} (hmbi : mbi.addr < 0x1000000) (hlen : mbi.mmapLength < 2 ^ 32)
    (hes : mmapEntries m mbi = .ok es) (h : pmmInit m img mbi = .ok p) :
    BitmapPlaced img mbi es p.bitmapBase p.bitmapBytes ↔
      ∀ e b, FirstPlace img mbi (bitmapBytesFor (findMaxPage es)) es e b →
        e.addr ≤ 0xFFFFF000 ∨ InOneRegion es b (bitmapBytesFor (findMaxPage es)) := by
  obtain ⟨base, us, hlim, _, rfl, h0, e, hfirst⟩ := pmmInit_firstPlace hmbi hlen hes h
  obtain ⟨_, hgb, hgs⟩ := pmmSetup_geometry m img es us base
  rw [hgb, hgs]
  generalize bitmapBytesFor (findMaxPage es) = bytes at *
  obtain ⟨hmem, ht, hplace⟩ := hfirst.place
  constructor
  · intro hp e' b' h'
    obtain ⟨rfl, rfl⟩ := hfirst.unique h'
    exact .inr hp.ram
  · intro hcond
    refine ⟨?_, hlim, by omega, apart_of_not_overlap hplace.clear.kernel,
      apart_of_not_overlap hplace.clear.info, apart_of_not_overlap hplace.clear.buffer⟩
    rcases hcond e base hfirst with ha | hin
    · exact ⟨e, hmem, ht, hplace.inRegion ha⟩
    · exact hin

/-- On the machine with RAM from 1 MiB on that place is `0x110000`, above the map. -/
theorem firstPlace_lowMem {e : MmapEntry} {b : Nat}
    (hb : FirstPlace smallImage (mapInfo 1) (bitmapBytesFor (findMaxPage [lowRam])) [lowRam] e b) :
    b = 0x110000 ∧ EntriesClear lowMem (mapInfo 1) b (bitmapBytesFor (findMaxPage [lowRam])) := by
  have hbase : b = 0x110000 :=
    (hb.eq_bitmapBase (by decide) (by decide) (by decide +kernel) pmmInit_lowMem).trans
      (pmmSetup_geometry _ _ _ _ _).2.1
  subst hbase
  exact ⟨rfl, by decide +kernel⟩

/-- RAM at 4 GiB + 8 KiB, listed before the RAM of the kernel: cut to 32 bits it seems to start at
    `0x2000`. -/
def wrappedRam : MmapEntry := ⟨20, 0x100002000, 0xFE000, 1⟩

/-- The RAM the kernel lies in, and no more. -/
def kernelRam : MmapEntry := ⟨20, 0x100000, 0x10000, 1⟩

def wrappedMem : Mem := wrEntry (wrEntry (fun _ => 0) 0x9000 wrappedRam) 0x9018 kernelRam

theorem entries_wrappedMem : mmapEntries wrappedMem (mapInfo 2) = .ok [wrappedRam, kernelRam] := by
  decide +kernel

/-- What `pmm_init` leaves there. -/
def wrappedPmm : Pmm :=
  pmmSetup wrappedMem smallImage [wrappedRam, kernelRam] [wrappedRam, kernelRam] 0xA000

theorem pmmInit_wrappedMem : pmmInit wrappedMem smallImage (mapInfo 2) = .ok wrappedPmm :=
  pmmInit_clear (by decide +kernel) entries_wrappedMem (by decide +kernel) (by decide)
    (by decide +kernel) (by decide) (by decide) (by decide) (by decide +kernel)

/-- The condition is met on the machine with RAM from 1 MiB on. -/
theorem bitmapPlaced_lowMem :
    BitmapPlaced smallImage (mapInfo 1) [lowRam] (lowPmm lowMem).bitmapBase
      (lowPmm lowMem).bitmapBytes := by
  refine (bitmapPlaced_iff (by decide) (by decide) (by decide +kernel) pmmInit_lowMem).mpr ?_
  intro e b hb
  rw [List.mem_singleton.mp hb.place.1]
  exact .inl (by decide)

/-- **A bitmap outside RAM**: `pmm_init` completes with the bitmap at `0xA000`, which no type 1
    region contains. -/
theorem bitmap_outside_ram :
    mmapEntries wrappedMem (mapInfo 2) = .ok [wrappedRam, kernelRam] ∧
    ∃ p, pmmInit wrappedMem smallImage (mapInfo 2) = .ok p ∧ p.bitmapBase = 0xA000 ∧
      p.bitmapBytes = 0x20020 ∧
      ¬ BitmapPlaced smallImage (mapInfo 2) [wrappedRam, kernelRam] p.bitmapBase p.bitmapBytes := by
  obtain ⟨_, hb, hs⟩ : _ ∧ wrappedPmm.bitmapBase = 0xA000 ∧ wrappedPmm.bitmapBytes = _ :=
    pmmSetup_geometry _ _ _ _ _
  refine ⟨entries_wrappedMem, _, pmmInit_wrappedMem, hb, hs.trans (by decide), fun hp => ?_⟩
  obtain ⟨e, he, _, hin⟩ := hp.ram
  rw [hb, hs] at hin
  have h1 := (hin 0xA000 (Nat.le_refl _) (by decide)).1
  rcases List.mem_cons.mp he with rfl | he
  · exact absurd h1 (by decide)
  · rw [List.mem_singleton.mp he] at h1
    exact absurd h1 (by decide)

end Emyx
