/-
  File:      Emyx/Overlap.lean
  Subject:   REGIONS THAT OVERLAP: a counter that says no page is free while pages are.

  `clear_usable_pages` counts a page once for every region that holds it, in 32 bits. A map may
  list one region many times, with all its RAM below 4 GiB; the sum then passes `2^32` and the
  counter of free pages starts lower than the number of clear bits.

  * `MapHolds`, `checkMmap_holds`, `mmapEntries_holds`, `entriesClear_holds` -- the walks over a
    buffer of entries;
  * `pmmCounted_overlap` -- the counter is `2^19` short of the clear bits (`Pmm.CountedOff`), and
    taking pages keeps it so, down to zero;
  * **`booted_overlap`** -- a machine whose map lists a 2 GiB region 8192 times boots with the
    counter at zero and half a million pages free, the lowest at 16 MiB.
-/
import Emyx.Pmm.Accounting
import Emyx.Vmm.Init

namespace Emyx

open Lib

/-! ## 1. `vmm_init` and the allocator -/

/-- What every allocation keeps, `vmm_init` keeps. -/
theorem vmmInit_pmm {J : Pmm → Prop} (halloc : ∀ p, J p → J (pmmAllocPage p).2) {m : Mem} {p : Pmm}
    {limit : Nat} {s : Mm} (h : J p) (e : vmmInit m p limit = .ok s) : J s.pmm := by
  have hstep : ∀ {kd : Nat} {st st' : Mem × Pmm} {i : Nat}, J st.2 →
      initTable kd st i = .ok st' → J st'.2 := fun {kd st st' i} hst e => by
    unfold initTable at e
    simp only at e
    split_ifs at e
    cases e
    exact halloc _ hst
  have hloop : ∀ {kd : Nat} (l : List Nat) {st st' : Mem × Pmm}, J st.2 →
      l.foldlM (initTable kd) st = .ok st' → J st'.2 := fun {kd} l => by
    induction l with
    | nil =>
      intro st st' hst e
      cases e
      exact hst
    | cons i l ih =>
      intro st st' hst e
      rw [List.foldlM_cons] at e
      obtain ⟨st₁, e₁, e⟩ := bind_ok.mp e
      exact ih (hstep hst e₁) e
  unfold vmmInit at e
  simp only at e
  split_ifs at e
  obtain ⟨st, e₁, e⟩ := bind_ok.mp e
  cases e
  exact hloop _ (show J (_, _).2 from halloc _ h) e₁

/-! ## 2. A buffer of entries -/

/-- The entries lie one behind the other from the physical address `a` on. -/
def HoldsEntries (m : Mem) : Nat → List MmapEntry → Prop
  | _, [] => True
  | a, e :: es => entryAt m (0xC0000000 + a) = e ∧ e.size = 20 ∧ HoldsEntries m (a + 24) es

theorem mmapNext_entry {a : Nat} (h : a + 24 ≤ 0x1000000) :
    mmapNext (0xC0000000 + a) 20 = 0xC0000000 + (a + 24) := by
  unfold mmapNext
  omega

/-- The walk visits the entries and nothing outside the buffer. -/
theorem mmapPtrs_holds {m : Mem} {es : List MmapEntry} {a fuel : Nat} (h : HoldsEntries m a es)
    (hlim : a + 24 * es.length ≤ 0x1000000) (hf : es.length < fuel) :
    ∃ ptrs, mmapPtrs m (0xC0000000 + a + 24 * es.length) fuel (0xC0000000 + a) = .ok ptrs ∧
      ptrs.map (entryAt m) = es ∧
      ∀ ptr ∈ ptrs, 0xC0000000 + a ≤ ptr ∧ ptr + 24 ≤ 0xC0000000 + a + 24 * es.length := by
  induction es generalizing a fuel with
  | nil =>
    obtain ⟨fuel, rfl⟩ : ∃ f, fuel = f + 1 := ⟨fuel - 1, by omega⟩
    rw [mmapPtrs, if_neg (by simp)]
    exact ⟨[], rfl, rfl, fun ptr hptr => absurd hptr List.not_mem_nil⟩
  | cons e es ih =>
    obtain ⟨fuel, rfl⟩ : ∃ f, fuel = f + 1 := ⟨fuel - 1, by omega⟩
    obtain ⟨he, hsize, hrest⟩ := h
    rw [List.length_cons] at hlim hf ⊢
    have hread : BootReadable (0xC0000000 + a) 24 := .inr ⟨by omega, by omega⟩
    have hstop : 0xC0000000 + a + 24 * (es.length + 1) =
        0xC0000000 + (a + 24) + 24 * es.length := by omega
    obtain ⟨ptrs, hptrs, hmap, hin⟩ := @ih (a + 24) fuel hrest (by omega) (by omega)
    rw [mmapPtrs, if_pos (by omega), if_pos hread, he, hsize, mmapNext_entry (by omega), hstop,
      hptrs]
    refine ⟨_, rfl, by rw [List.map_cons, he, hmap], fun ptr hptr => ?_⟩
    rcases List.mem_cons.mp hptr with rfl | hptr
    · omega
    · have := hin ptr hptr
      omega

theorem checkMmapFrom_holds {m : Mem} {es : List MmapEntry} {a fuel : Nat}
    (h : HoldsEntries m a es) (hlim : a + 24 * es.length ≤ 0x1000000) (hf : es.length < fuel) :
    checkMmapFrom m (0xC0000000 + a + 24 * es.length) fuel (0xC0000000 + a) = .ok () := by
  induction es generalizing a fuel with
  | nil =>
    obtain ⟨fuel, rfl⟩ : ∃ f, fuel = f + 1 := ⟨fuel - 1, by omega⟩
    rw [checkMmapFrom, if_neg (by simp)]
    rfl
  | cons e es ih =>
    obtain ⟨fuel, rfl⟩ : ∃ f, fuel = f + 1 := ⟨fuel - 1, by omega⟩
    obtain ⟨he, hsize, hrest⟩ := h
    rw [List.length_cons] at hlim hf ⊢
    have hread : BootReadable (0xC0000000 + a) 24 := .inr ⟨by omega, by omega⟩
    have hread4 : BootReadable (0xC0000000 + a) 4 := .inr ⟨by omega, by omega⟩
    have hstop : 0xC0000000 + a + 24 * (es.length + 1) =
        0xC0000000 + (a + 24) + 24 * es.length := by omega
    rw [checkMmapFrom, if_pos (by omega), if_pos hread4, he, hsize, if_neg (by decide),
      if_pos hread, mmapNext_entry (by omega), hstop]
    exact ih hrest (by omega) (by omega)

/-- The map's buffer holds the entries `es` and ends with the last. -/
structure MapHolds (m : Mem) (mbi : MultibootInfo) (es : List MmapEntry) : Prop where
  entries : HoldsEntries m mbi.mmapAddr es
  length : mbi.mmapLength = 24 * es.length
  start : mbi.mmapAddr < 0x1000000
  fits : mbi.mmapAddr + 24 * es.length ≤ 0x1000000

theorem MapHolds.stop {m : Mem} {mbi : MultibootInfo} {es : List MmapEntry}
    (h : MapHolds m mbi es) : mbi.mmapStop = 0xC0000000 + mbi.mmapAddr + 24 * es.length := by
  have hfits := h.fits
  unfold MultibootInfo.mmapStop
  rw [h.length, vmmPhysToVirt_of_lt h.start]
  omega

/-- `check_mmap` passes. -/
theorem checkMmap_holds {m : Mem} {mbi : MultibootInfo} {es : List MmapEntry}
    (h : MapHolds m mbi es) (hflag : mbi.flags &&& 0x40 ≠ 0) : checkMmap m mbi = .ok () := by
  have hfits := h.fits
  have hstart := h.start
  unfold checkMmap
  rw [if_neg hflag, if_neg (by rw [vmmPhysToVirt_eq_zero]; omega), vmmPhysToVirt_of_lt hstart,
    h.stop]
  exact checkMmapFrom_holds h.entries hfits (by omega)

/-- The readers visit `es`. -/
theorem mmapEntries_holds {m : Mem} {mbi : MultibootInfo} {es : List MmapEntry}
    (h : MapHolds m mbi es) : mmapEntries m mbi = .ok es := by
  have hfits := h.fits
  obtain ⟨ptrs, hptrs, hmap, _⟩ := @mmapPtrs_holds _ _ _ (2 ^ 32 + 1) h.entries hfits (by omega)
  unfold mmapEntries
  rw [mmapWalk_eq, vmmPhysToVirt_of_lt h.start, h.stop, hptrs, ← hmap]
  rfl

/-- A bitmap behind the buffer lies on no entry. -/
theorem entriesClear_holds {m : Mem} {mbi : MultibootInfo} {es : List MmapEntry} {base bytes : Nat}
    (h : MapHolds m mbi es) (hbase : mbi.mmapAddr + 24 * es.length ≤ base) :
    EntriesClear m mbi base bytes := by
  have hfits := h.fits
  obtain ⟨ptrs, hptrs, _, hin⟩ := @mmapPtrs_holds _ _ _ (2 ^ 32 + 1) h.entries hfits (by omega)
  rw [← h.stop, ← vmmPhysToVirt_of_lt h.start] at hptrs
  refine (entriesClear_iff hptrs).mp fun ptr hptr hov => ?_
  have hb := hin ptr hptr
  rw [rangesOverlap_iff] at hov
  unfold bootPhys at hov
  rw [if_neg (by omega)] at hov
  omega

/-! ## 3. The machine -/

/-- RAM for the kernel, the bitmap and five pages more. -/
def fewRam : MmapEntry := ⟨20, 0x100000, 0x26000, 1⟩

/-- 2 GiB of RAM from 16 MiB on. -/
def manyRam : MmapEntry := ⟨20, 0x1000000, 0x80000000, 1⟩

/-- The map lists the large region 8192 times. -/
@[irreducible] def overlapEntries : List MmapEntry := fewRam :: List.replicate 8192 manyRam

/-- The map at `0x9000`, in any memory. -/
def overlapMem (base : Mem) : Mem := fun x =>
  if 0x9000 ≤ x ∧ x < 0x9000 + 24 * 8193 then
    wrEntry (fun _ => 0) 0 (if x < 0x9018 then fewRam else manyRam) ((x - 0x9000) % 24)
  else base x

/-- The multiboot info: the map, and a module list at `0x40000`. -/
def overlapInfo : MultibootInfo := ⟨0x8000, 0x48, 1, 0x40000, 24 * 8193, 0x9000⟩

theorem entryAt_wrEntry_few : entryAt (wrEntry (fun _ => 0) 0 fewRam) 0 = fewRam := by
  decide +kernel

theorem entryAt_wrEntry_many : entryAt (wrEntry (fun _ => 0) 0 manyRam) 0 = manyRam := by
  decide +kernel

/-- The `k`th entry of the buffer. -/
theorem entryAt_overlap (base : Mem) {k : Nat} (hk : k < 8193) :
    entryAt (overlapMem base) (0xC0000000 + (0x9000 + 24 * k)) =
      if k = 0 then fewRam else manyRam := by
  have hphys : bootPhys (0xC0000000 + (0x9000 + 24 * k)) = 0x9000 + 24 * k := by
    unfold bootPhys
    rw [if_neg (by omega)]
    omega
  have hcopy : entryAt (overlapMem base) (0xC0000000 + (0x9000 + 24 * k)) =
      entryAt (wrEntry (fun _ => 0) 0 (if k = 0 then fewRam else manyRam)) 0 := by
    refine entryAt_congr fun i hi => ?_
    rw [hphys, show bootPhys 0 + i = i by simp [bootPhys]]
    unfold overlapMem
    rw [if_pos (by omega)]
    have hoff : (0x9000 + 24 * k + i - 0x9000) % 24 = i := by omega
    have hfirst : 0x9000 + 24 * k + i < 0x9018 ↔ k = 0 := by omega
    simp only [hoff, hfirst]
  rw [hcopy]
  split
  · exact entryAt_wrEntry_few
  · exact entryAt_wrEntry_many

theorem holdsEntries_many (base : Mem) {n k : Nat} (hk : 1 ≤ k) (hn : k + n ≤ 8193) :
    HoldsEntries (overlapMem base) (0x9000 + 24 * k) (List.replicate n manyRam) := by
  induction n generalizing k with
  | zero => trivial
  | succ n ih =>
    refine ⟨?_, rfl, ?_⟩
    · rw [entryAt_overlap base (by omega), if_neg (by omega)]
    · have := @ih (k + 1) (by omega) (by omega)
      rwa [show 0x9000 + 24 * (k + 1) = 0x9000 + 24 * k + 24 by omega] at this

theorem holdsEntries_overlap (base : Mem) :
    HoldsEntries (overlapMem base) 0x9000 overlapEntries := by
  unfold overlapEntries
  exact ⟨entryAt_overlap base (k := 0) (by decide), rfl,
    holdsEntries_many base (k := 1) (Nat.le_refl 1) (Nat.le_refl _)⟩

theorem length_overlapEntries : overlapEntries.length = 8193 := by
  unfold overlapEntries
  rw [List.length_cons, List.length_replicate]

theorem mapHolds_overlap (base : Mem) : MapHolds (overlapMem base) overlapInfo overlapEntries :=
  ⟨holdsEntries_overlap base, by rw [length_overlapEntries]; rfl, by decide,
    by rw [length_overlapEntries]; decide⟩

theorem findMaxPage_overlap : findMaxPage overlapEntries = 0x81000 := by
  have hrest : ∀ n, (List.replicate n manyRam).foldl maxPageStep 0x81000 = 0x81000 := fun n => by
    induction n with
    | zero => rfl
    | succ n ih =>
      rw [List.replicate_succ, List.foldl_cons, show maxPageStep 0x81000 manyRam = 0x81000 by decide]
      exact ih
  have hmany : ∀ n, n ≠ 0 → (List.replicate n manyRam).foldl maxPageStep 0x126 = 0x81000 :=
    fun n hn => by
      obtain ⟨k, rfl⟩ := Nat.exists_eq_succ_of_ne_zero hn
      rw [List.replicate_succ, List.foldl_cons, show maxPageStep 0x126 manyRam = 0x81000 by decide]
      exact hrest k
  rw [findMaxPage, overlapEntries, List.foldl_cons, show maxPageStep 0 fewRam = 0x126 by decide,
    hmany 8192 (by decide)]
  decide

theorem bitmapBytes_overlap : bitmapBytesFor (findMaxPage overlapEntries) = 0x10200 := by
  rw [findMaxPage_overlap]
  rfl

theorem findSegment_overlap : findSegment smallImage overlapInfo 0x10200 overlapEntries =
    .ok 0x110000 := by
  have hfirst : findInRegion smallImage overlapInfo 0x10200 0x126000 6 0x100000 =
      .ok (some 0x110000) := by decide +kernel
  unfold overlapEntries
  rw [findSegment, if_neg (by decide)]
  exact bind_ok.mpr ⟨_, hfirst, rfl⟩

theorem checkKernelLocation_overlap : checkKernelLocation smallImage overlapEntries = .ok () := by
  have hmany : ∀ n, (List.replicate n manyRam).foldl (fun n e =>
      (n + overlapBytes e smallImage.physicalStart smallImage.physicalEnd) % 2 ^ 64) 0x10000 =
      0x10000 := fun n => by
    induction n with
    | zero => rfl
    | succ n ih =>
      rw [List.replicate_succ, List.foldl_cons]
      exact ih
  unfold checkKernelLocation
  simp only
  rw [overlapEntries, List.foldl_cons,
    show (0 + overlapBytes fewRam smallImage.physicalStart smallImage.physicalEnd) % 2 ^ 64 = 0x10000
      by decide, hmany, if_neg (by decide)]
  rfl

/-- What `pmm_init` leaves. -/
def overlapPmm (base : Mem) : Pmm :=
  pmmSetup (overlapMem base) smallImage overlapEntries overlapEntries 0x110000

theorem pmmInit_overlap (base : Mem) :
    pmmInit (overlapMem base) smallImage overlapInfo = .ok (overlapPmm base) := by
  have hmap := mapHolds_overlap base
  have hseg := findSegment_overlap
  rw [← bitmapBytes_overlap] at hseg
  have hend : overlapInfo.mmapAddr + 24 * overlapEntries.length ≤ 0x110000 := by
    rw [length_overlapEntries]
    decide
  refine pmmInit_clear (checkMmap_holds hmap (by decide)) (mmapEntries_holds hmap) hseg (by decide)
    checkKernelLocation_overlap ?_ (by decide) ?_ (entriesClear_holds hmap hend)
  · rw [bitmapBytes_overlap]
    decide
  · rw [findMaxPage_overlap]
    decide

theorem ramBelow4G_overlap : RamBelow4G overlapEntries := by
  intro e he _
  unfold overlapEntries at he
  rcases List.mem_cons.mp he with rfl | he
  · decide
  · rw [List.eq_of_mem_replicate he]
    decide

theorem clearRange_few : clearRange 0x81000 fewRam = (0x100, 0x126) := by decide

theorem clearRange_many : clearRange 0x81000 manyRam = (0x1000, 0x81000) := by decide

/-- The pages the map's entries clear. -/
theorem usable_overlap (r : Nat) :
    Usable 0x81000 overlapEntries r ↔ 0x100 ≤ r ∧ r < 0x126 ∨ 0x1000 ≤ r ∧ r < 0x81000 := by
  have hmany : ∀ e ∈ List.replicate 8192 manyRam, e = manyRam := fun e he =>
    List.eq_of_mem_replicate he
  unfold Usable overlapEntries
  rw [List.exists_mem_cons_iff, clearRange_few]
  refine or_congr Iff.rfl ⟨fun h => ?_, fun h => ?_⟩
  · obtain ⟨e, he, hr⟩ := h
    rw [hmany e he, clearRange_many] at hr
    exact hr
  · refine ⟨manyRam, List.mem_replicate.mpr ⟨by decide, rfl⟩, ?_⟩
    rw [clearRange_many]
    exact h

/-- The sum over the entries: 38 pages, and `2^32` that the counter does not see. -/
theorem sum_overlap : (overlapEntries.map (clearedLength 0x81000)).sum = 38 + 2 ^ 32 := by
  have hfew : clearedLength 0x81000 fewRam = 38 := by decide
  have hmany : clearedLength 0x81000 manyRam = 0x80000 := by decide
  rw [overlapEntries, List.map_cons, List.sum_cons, List.map_replicate, List.sum_replicate, hfew,
    hmany, smul_eq_mul]
  decide

/-- When `pmm_init` has cleared the pages, its counter is `2^19` short. -/
theorem pmmCounted_overlap (base : Mem) :
    (pmmCounted (overlapMem base) overlapEntries overlapEntries 0x110000).CountedOff 0 0x80000 := by
  have hclear := pmmCounted_clearPages (overlapMem base) overlapEntries 0x110000
    (show findMaxPage overlapEntries ≤ 2 ^ 20 by rw [findMaxPage_overlap]; decide)
  have hpages : clearedPages (findMaxPage overlapEntries) overlapEntries =
      Finset.Ico 0x100 0x126 ∪ Finset.Ico 0x1000 0x81000 := by
    ext r
    rw [mem_clearedPages, findMaxPage_overlap, usable_overlap, Finset.mem_union, Finset.mem_Ico,
      Finset.mem_Ico]
  have hdis : Disjoint (Finset.Ico 0x100 0x126) (Finset.Ico 0x1000 0x81000) :=
    Finset.disjoint_left.mpr fun r h h' => by
      rw [Finset.mem_Ico] at h h'
      omega
  have hfree :
      (pmmCounted (overlapMem base) overlapEntries overlapEntries 0x110000).freePages = 38 := by
    rw [pmmCounted_free, findMaxPage_overlap, sum_overlap]
    decide
  unfold Pmm.CountedOff
  rw [hclear, hpages, Finset.card_union_of_disjoint hdis, Nat.card_Ico, Nat.card_Ico, hfree]

theorem overlapPmm_short (base : Mem) : (overlapPmm base).CountedOff 0 0x80000 := by
  unfold overlapPmm pmmSetup
  exact pmmReserve_countedOff smallImage (pmmCounted_overlap base)

theorem overlapPmm_maxPage (base : Mem) : (overlapPmm base).maxPage = 0x81000 :=
  (pmmSetup_geometry _ _ _ _ _).1.trans findMaxPage_overlap

/-- The bits `pmm_init` leaves: five low pages and the large region are free. -/
theorem overlapPmm_isSet (base : Mem) {r : Nat} (h1 : 1 ≤ r) (h2 : r < 0x81000) :
    (overlapPmm base).isSet r ↔ ¬ (0x121 ≤ r ∧ r < 0x126 ∨ 0x1000 ≤ r) := by
  unfold overlapPmm
  rw [pmmSetup_isSet _ _ _ _ (by rw [bitmapBytes_overlap]; decide), bitmapBytes_overlap,
    findMaxPage_overlap, usable_overlap]
  unfold Reserved FilledSet
  rw [show smallImage.physicalStart = 0x100000 from rfl,
    show smallImage.physicalEnd = 0x110000 from rfl]
  omega

/-- **A machine boots whose counter says that no page is free**, while pages from 16 MiB on are. -/
theorem booted_overlap (base : Mem) : ∃ s,
    Booted (overlapMem base) smallImage overlapInfo (overlapPmm base) s ∧
    s.pmm.freePages = 0 ∧ FirstClear s.pmm 0x1000 := by
  have hmax := overlapPmm_maxPage base
  have hfree : FreeUpTo (overlapPmm base) 0x121 0x126 :=
    ⟨by decide, by decide, by rw [hmax]; decide, fun r h1 h2 => by
      rw [overlapPmm_isSet base h1 (by omega)]
      omega⟩
  obtain ⟨s, e, hs, habove⟩ := vmmInit_freeUpTo (overlapMem base) hfree (by decide) (by decide)
  have hlow : ∀ r, 1 ≤ r → r < 0x126 → s.pmm.isSet r := fun r h1 h2 => (hs.set r h1 h2).mpr h2
  have hhigh : ∀ r, 0x126 ≤ r → r < 0x81000 → (s.pmm.isSet r ↔ r < 0x1000) := fun r h1 h2 => by
    rw [habove.set r h1, overlapPmm_isSet base (by omega) h2]
    omega
  have hzero : s.pmm.isSet 0 := by
    have hp0 : (overlapPmm base).isSet 0 := by
      unfold overlapPmm
      rw [pmmSetup_isSet _ _ _ _ (by rw [bitmapBytes_overlap]; decide)]
      exact .inr ⟨.inr (.inr rfl), by rw [findMaxPage_overlap]; decide⟩
    exact vmmInit_pmm (J := fun p => p.isSet 0) (fun p hp => by
      rcases pmmAllocPage_cases p with ⟨_, e⟩ | ⟨i, _, e⟩
      · rw [e]
        exact hp
      · rw [e]
        exact (takePage_isSet p i 0).mpr (.inr hp)) hp0 e
  have hshort : s.pmm.CountedOff 0 0x80000 :=
    vmmInit_pmm (J := fun p => p.CountedOff 0 0x80000) (fun _ => pmmAllocPage_countedOff)
      (overlapPmm_short base) e
  have hclear : s.pmm.clearPages ⊆ Finset.Ico 0x1000 0x81000 := fun r hr => by
    obtain ⟨hlt, hc⟩ := Pmm.mem_clearPages.mp hr
    rw [habove.maxPage, hmax] at hlt
    rw [Finset.mem_Ico]
    refine ⟨?_, hlt⟩
    by_contra hr'
    by_cases h0 : r = 0
    · exact hc (h0 ▸ hzero)
    · by_cases h126 : r < 0x126
      · exact hc (hlow r (by omega) h126)
      · exact hc ((hhigh r (by omega) hlt).mpr (by omega))
  have hcard := Finset.card_le_card hclear
  rw [Nat.card_Ico] at hcard
  refine ⟨s, ⟨fun es hes => ?_, pmmInit_overlap base, e⟩, ?_, by decide, ?_, ?_, fun r h1 h2 => ?_⟩
  · cases (mmapEntries_holds (mapHolds_overlap base)).symm.trans hes
    exact ramBelow4G_overlap
  · unfold Pmm.CountedOff at hshort
    omega
  · rw [habove.maxPage, hmax]
    decide
  · rw [hhigh 0x1000 (by decide) (by decide)]
    decide
  · by_cases h126 : r < 0x126
    · exact hlow r h1 h126
    · exact (hhigh r (by omega) (by omega)).mpr h2

end Emyx
