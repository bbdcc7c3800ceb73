/-
  File:      Emyx/Pmm/Accounting.lean
  Subject:   THE COUNTERS OF THE PAGE ALLOCATOR: `pmm_get_free_pages` and `pmm_get_total_pages`.

  The counter of free pages is set once, from a sum over the regions, and then moved by one with
  each bit that changes. `Pmm.Counted` says that it is the number of clear bits below
  `pmm_max_page`.

  * `takePage_counted`, `pmmFreePage_counted`, … -- every operation keeps it; the guards against
    a counter below zero never apply;
  * `clearUsablePages_count` -- regions that share no byte clear page ranges that share no page,
    so the sum is the size of the union;
  * `freePages_exact` -- the counters after any calls.
-/
import Emyx.Pmm.Placement

namespace Emyx

open Lib

/-- `pmm_get_free_pages` -/
def pmmGetFreePages (p : Pmm) : Nat := p.freePages

/-- `pmm_get_total_pages` -/
def pmmGetTotalPages (p : Pmm) : Nat := p.totalPages

/-! ## 1. Clear bits -/

/-- The pages below `pmm_max_page` whose bit is clear. -/
def Pmm.clearPages (p : Pmm) : Finset Nat := (Finset.range p.maxPage).filter fun r => ¬ p.isSet r

/-- The counter is the number of clear bits, `c` more and `d` less, or stands at zero. -/
def Pmm.CountedOff (p : Pmm) (c d : Nat) : Prop := p.freePages = p.clearPages.card + c - d

/-- The counter is the number of clear bits. -/
def Pmm.Counted (p : Pmm) : Prop := p.CountedOff 0 0

theorem Pmm.CountedOff.surplus {p : Pmm} {c : Nat} (h : p.CountedOff c 0) :
    pmmGetFreePages p = ((Finset.range p.maxPage).filter fun r => ¬ p.isSet r).card + c := h

theorem Pmm.mem_clearPages {p : Pmm} {r : Nat} : r ∈ p.clearPages ↔ r < p.maxPage ∧ ¬ p.isSet r := by
  unfold Pmm.clearPages
  rw [Finset.mem_filter, Finset.mem_range]

theorem Pmm.card_clearPages_le (p : Pmm) : p.clearPages.card ≤ p.maxPage :=
  (Finset.card_filter_le _ _).trans (by rw [Finset.card_range])

theorem takePage_clearPages (p : Pmm) (q : Nat) :
    (takePage p q).clearPages = p.clearPages.erase q := by
  ext r
  rw [Finset.mem_erase, Pmm.mem_clearPages, Pmm.mem_clearPages, takePage_isSet, not_or,
    (takePage_geometry p q).maxPage]
  tauto

/-- Taking a clear page counts one down. -/
theorem takePage_countedOff {p : Pmm} {q c d : Nat} (h : p.CountedOff c d) (hq : q < p.maxPage)
    (hc : ¬ p.isSet q) : (takePage p q).CountedOff c d := by
  have hmem : q ∈ p.clearPages := Pmm.mem_clearPages.mpr ⟨hq, hc⟩
  have hpos := Finset.card_pos.mpr ⟨q, hmem⟩
  unfold Pmm.CountedOff at h ⊢
  rw [takePage_clearPages, Finset.card_erase_of_mem hmem]
  unfold takePage
  simp only
  split_ifs <;> omega

theorem reservePage_countedOff {p : Pmm} {c d : Nat} (q : Nat) (h : p.CountedOff c d) :
    (reservePage p q).CountedOff c d := by
  unfold reservePage
  split_ifs with hq hs
  · exact h
  · exact takePage_countedOff h (Nat.not_le.mp hq) fun hc => hc hs
  · exact h

theorem reserveSegment_countedOff {p : Pmm} {c d : Nat} (a b : Nat) (h : p.CountedOff c d) :
    (reserveSegment p a b).CountedOff c d :=
  List.foldlRecOn (motive := fun p : Pmm => p.CountedOff c d) _ _ h fun _ hp q _ =>
    reservePage_countedOff q hp

theorem pmmReserve_countedOff {p : Pmm} {c d : Nat} (img : KernelImage) (h : p.CountedOff c d) :
    (pmmReserve img p).CountedOff c d :=
  reservePage_countedOff 0 (reserveSegment_countedOff _ _ (reserveSegment_countedOff _ _ h))

theorem pmmAllocPage_countedOff {p : Pmm} {c d : Nat} (h : p.CountedOff c d) :
    (pmmAllocPage p).2.CountedOff c d := by
  rcases pmmAllocPage_cases p with ⟨_, e⟩ | ⟨i, hi, e⟩
  · rw [e]
    exact h
  · rw [e]
    exact takePage_countedOff h hi.2.1 hi.2.2.1

/-- Freeing a set page counts one up, without overflow: there are fewer than `2^32` pages. -/
theorem pmmFreePage_counted {p : Pmm} (a : Nat) (h : p.Counted) (hmax : p.maxPage < 2 ^ 32) :
    (pmmFreePage p a).Counted := by
  have hfree : p.freePages = p.clearPages.card := h
  by_cases hc : a >>> 12 ≠ 0 ∧ a >>> 12 < p.maxPage ∧ bitmapTest p (a >>> 12) ≠ 0
  · obtain ⟨h0, hlt, hs⟩ := hc
    have hset : (pmmFreePage p a).clearPages = insert (a >>> 12) p.clearPages := by
      ext r
      rw [Finset.mem_insert, Pmm.mem_clearPages, Pmm.mem_clearPages, pmmFreePage_isSet,
        (pmmFreePage_geometry p a).maxPage]
      rw [Nat.shiftRight_eq_div_pow] at h0 hlt ⊢
      constructor
      · intro hr
        by_cases e : r = a / 2 ^ 12
        · exact .inl e
        · exact .inr ⟨hr.1, fun hs => hr.2 ⟨hs, fun hc => e hc.1⟩⟩
      · intro hr
        rcases hr with rfl | hr
        · exact ⟨hlt, fun hs => hs.2 ⟨rfl, h0, hlt⟩⟩
        · exact ⟨hr.1, fun hs => hr.2 hs.1⟩
    have hnew : a >>> 12 ∉ p.clearPages := fun hm => (Pmm.mem_clearPages.mp hm).2 hs
    have hle := (pmmFreePage p a).card_clearPages_le
    rw [(pmmFreePage_geometry p a).maxPage, hset, Finset.card_insert_of_notMem hnew, ← hfree] at hle
    show (pmmFreePage p a).freePages = (pmmFreePage p a).clearPages.card
    rw [hset, Finset.card_insert_of_notMem hnew, ← hfree]
    unfold pmmFreePage
    simp only
    rw [if_pos ⟨h0, hlt, hs⟩]
    exact Nat.mod_eq_of_lt (by omega)
  · unfold pmmFreePage
    simp only
    rw [if_neg hc]
    exact h

/-! ## 2. The sum over the regions -/

/-- The pages of the ranges `clear_usable_pages` clears, each once. -/
def clearedPages (maxPage : Nat) : List MmapEntry → Finset Nat
  | [] => ∅
  | e :: es => Finset.Ico (clearRange maxPage e).1 (clearRange maxPage e).2 ∪ clearedPages maxPage es

theorem clearedPages_cons (maxPage : Nat) (e : MmapEntry) (es : List MmapEntry) :
    clearedPages maxPage (e :: es) =
      Finset.Ico (clearRange maxPage e).1 (clearRange maxPage e).2 ∪ clearedPages maxPage es := rfl

theorem mem_clearedPages {maxPage r : Nat} {es : List MmapEntry} :
    r ∈ clearedPages maxPage es ↔ Usable maxPage es r := by
  unfold Usable
  induction es with
  | nil => simp [clearedPages]
  | cons e es ih =>
    rw [clearedPages_cons, Finset.mem_union, Finset.mem_Ico, ih, List.exists_mem_cons_iff]

/-- No two type 1 regions share a byte. -/
def RegionsDisjoint (es : List MmapEntry) : Prop :=
  es.Pairwise fun e e' => e.type = 1 → e'.type = 1 →
    Apart e.addr (e.addr + e.len) e'.addr (e'.addr + e'.len)

/-- The range of a type 1 region below 4 GiB is that of its shifted start and length. -/
theorem clearRange_low {maxPage : Nat} {e : MmapEntry} (ht : e.type = 1)
    (hlim : e.addr + e.len ≤ 2 ^ 32) (hmax : (e.addr + e.len) / 4096 ≤ maxPage) (r : Nat) :
    ((clearRange maxPage e).1 ≤ r ∧ r < (clearRange maxPage e).2) ↔
      (e.addr / 4096 ≤ r ∧ r < e.addr / 4096 + e.len / 4096) := by
  unfold clearRange
  simp only [if_pos ht, Nat.shiftRight_eq_div_pow]
  rw [Nat.mod_eq_of_lt (show e.addr / 2 ^ 12 < 2 ^ 32 by omega),
    Nat.mod_eq_of_lt (show e.len / 2 ^ 12 < 2 ^ 32 by omega),
    Nat.mod_eq_of_lt (show e.addr / 2 ^ 12 + e.len / 2 ^ 12 < 2 ^ 32 by omega)]
  split_ifs <;> simp only <;> omega

/-- A range that is not of a type 1 region is empty. -/
theorem clearRange_other {maxPage : Nat} {e : MmapEntry} (ht : e.type ≠ 1) (r : Nat) :
    ¬ ((clearRange maxPage e).1 ≤ r ∧ r < (clearRange maxPage e).2) := by
  unfold clearRange
  rw [if_neg ht]
  simp

/-- **Regions that share no byte clear ranges that share no page**, though starts and lengths are
    rounded apart. -/
theorem cleared_disjoint {maxPage : Nat} {e : MmapEntry} {es : List MmapEntry}
    (hlow : RamBelow4G (e :: es))
    (hmax : ∀ e' ∈ e :: es, e'.type = 1 → (e'.addr + e'.len) / 4096 ≤ maxPage)
    (hdis : ∀ e' ∈ es, e.type = 1 → e'.type = 1 →
      Apart e.addr (e.addr + e.len) e'.addr (e'.addr + e'.len)) :
    Disjoint (Finset.Ico (clearRange maxPage e).1 (clearRange maxPage e).2)
      (clearedPages maxPage es) := by
  rw [Finset.disjoint_left]
  intro r hr hr'
  rw [Finset.mem_Ico] at hr
  obtain ⟨e', he', h'⟩ := mem_clearedPages.mp hr'
  have hmem' : e' ∈ e :: es := List.mem_cons_of_mem _ he'
  by_cases ht : e.type = 1
  · by_cases ht' : e'.type = 1
    · rw [clearRange_low ht (hlow e List.mem_cons_self ht) (hmax e List.mem_cons_self ht)] at hr
      rw [clearRange_low ht' (hlow e' hmem' ht') (hmax e' hmem' ht')] at h'
      -- the later of the two starts is a byte of both regions
      refine hdis e' he' ht ht' (max e.addr e'.addr) (le_max_left _ _) ?_ ⟨le_max_right _ _, ?_⟩
      · rcases Nat.le_total e.addr e'.addr with h | h
        · rw [max_eq_right h]
          omega
        · rw [max_eq_left h]
          omega
      · rcases Nat.le_total e.addr e'.addr with h | h
        · rw [max_eq_right h]
          omega
        · rw [max_eq_left h]
          omega
    · exact clearRange_other ht' r h'
  · exact clearRange_other ht r hr

/-- The count is the sum over the entries, in 32 bits. -/
theorem clearEntries_sum (us : List MmapEntry) (p : Pmm) (n : Nat) :
    (clearEntries (p, n % 2 ^ 32) us).2 =
      (n + (us.map (clearedLength p.maxPage)).sum) % 2 ^ 32 := by
  induction us generalizing p n with
  | nil => rfl
  | cons e us ih =>
    have hg := (clearEntry_isSet p e).1
    have hrest := ih (clearEntry p e) (n + clearedLength p.maxPage e)
    rw [hg.maxPage] at hrest
    rw [List.map_cons, List.sum_cons, ← Nat.add_assoc, ← hrest]
    unfold clearEntries
    simp only [List.foldl_cons, Nat.mod_add_mod]

/-- The counter before the reservations. -/
theorem pmmCounted_free (m : Mem) (es us : List MmapEntry) (base : Nat) :
    (pmmCounted m es us base).freePages =
      (us.map (clearedLength (findMaxPage es))).sum % 2 ^ 32 := by
  have h := clearEntries_sum us (pmmFilled m es base) 0
  rw [Nat.zero_add] at h
  exact h

/-- The ranges of disjoint regions add up. -/
theorem card_clearedPages {maxPage : Nat} {es : List MmapEntry} (hlow : RamBelow4G es)
    (hmax : ∀ e ∈ es, e.type = 1 → (e.addr + e.len) / 4096 ≤ maxPage) (hdis : RegionsDisjoint es) :
    (clearedPages maxPage es).card = (es.map (clearedLength maxPage)).sum := by
  induction es with
  | nil => rfl
  | cons e es ih =>
    obtain ⟨hhead, htail⟩ := List.pairwise_cons.mp hdis
    have hrest := ih (fun e' he' => hlow e' (List.mem_cons_of_mem _ he'))
      (fun e' he' => hmax e' (List.mem_cons_of_mem _ he')) htail
    rw [clearedPages_cons, Finset.card_union_of_disjoint (cleared_disjoint hlow hmax hhead),
      Nat.card_Ico, hrest, List.map_cons, List.sum_cons]
    rfl

/-! ## 3. The counters -/

/-- The kernel lies in RAM, so there are pages: `check_kernel_location` passed. -/
theorem checkKernelLocation_ok {img : KernelImage} {es : List MmapEntry}
    (h : checkKernelLocation img es = .ok ()) :
    ∃ e ∈ es, e.type = 1 ∧ 0x100000 < (e.addr + e.len) % 2 ^ 64 := by
  by_contra hno
  push Not at hno
  have hzero : ∀ e ∈ es, overlapBytes e img.physicalStart img.physicalEnd = 0 := fun e he => by
    have hstart : img.physicalStart = 0x100000 := rfl
    unfold overlapBytes
    by_cases ht : e.type = 1
    · have := hno e he ht
      simp only [ht, ne_eq, not_true_eq_false, if_false]
      split_ifs <;> omega
    · rw [if_pos ht]
  have hsum : es.foldl
      (fun n e => (n + overlapBytes e img.physicalStart img.physicalEnd) % 2 ^ 64) 0 = 0 := by
    refine List.foldlRecOn (motive := fun n => n = 0) es _ rfl fun n hn e he => ?_
    rw [hn, hzero e he]
    rfl
  have hsize : 0 < img.physicalEnd - img.physicalStart := by
    have := img.nonempty
    have hstart : img.physicalStart = 0x100000 := rfl
    omega
  unfold checkKernelLocation at h
  simp only at h
  rw [hsum, if_pos hsize] at h
  cases h

theorem pmmInit_kernel {m : Mem} {img : KernelImage} {mbi : MultibootInfo} {p : Pmm}
    {es : List MmapEntry} (hes : mmapEntries m mbi = .ok es) (h : pmmInit m img mbi = .ok p) :
    checkKernelLocation img es = .ok () := by
  unfold pmmInit at h
  obtain ⟨_, _, h⟩ := bind_ok.mp h
  obtain ⟨es', hes', h⟩ := bind_ok.mp h
  cases hes.symm.trans hes'
  obtain ⟨base, _, h⟩ := bind_ok.mp h
  rw [ite_error_ok] at h
  obtain ⟨_, hk, _⟩ := bind_ok.mp h.2
  exact hk

/-- The counter of all pages is set once. -/
theorem reservePage_total (p : Pmm) (q : Nat) : (reservePage p q).totalPages = p.totalPages := by
  unfold reservePage
  split_ifs <;> rfl

theorem reserveSegment_total (p : Pmm) (a b : Nat) :
    (reserveSegment p a b).totalPages = p.totalPages :=
  List.foldlRecOn (motive := fun p' => p'.totalPages = p.totalPages) _ _ rfl fun p' hp q _ =>
    (reservePage_total p' q).trans hp

/-- What the counters say, and page 0 is taken. -/
structure Accounted (total : Nat) (p : Pmm) : Prop where
  free : p.Counted
  zero : p.isSet 0
  total : p.totalPages = total
  bound : p.maxPage < 2 ^ 32

theorem Accounted.alloc {total : Nat} {p : Pmm} (h : Accounted total p) :
    Accounted total (pmmAllocPage p).2 := by
  refine ⟨pmmAllocPage_countedOff h.free, ?_, ?_, ?_⟩
  · rcases pmmAllocPage_cases p with ⟨_, e⟩ | ⟨i, _, e⟩
    · rw [e]
      exact h.zero
    · rw [e]
      exact (takePage_isSet p i 0).mpr (.inr h.zero)
  · rcases pmmAllocPage_cases p with ⟨_, e⟩ | ⟨i, _, e⟩ <;> rw [e] <;> exact h.total
  · rw [(pmmAllocPage_geometry p).maxPage]
    exact h.bound

theorem Accounted.release {total : Nat} {p : Pmm} (h : Accounted total p) (a : Nat) :
    Accounted total (pmmFreePage p a) := by
  refine ⟨pmmFreePage_counted a h.free h.bound, ?_, ?_, ?_⟩
  · exact (pmmFreePage_isSet p a 0).mpr ⟨h.zero, fun hc => hc.2.1 rfl⟩
  · refine Eq.trans ?_ h.total
    unfold pmmFreePage
    simp only
    split_ifs <;> rfl
  · rw [(pmmFreePage_geometry p a).maxPage]
    exact h.bound

/-- Before the reservations the clear bits are those of the ranges. -/
theorem pmmCounted_clearPages (m : Mem) {es : List MmapEntry} (us : List MmapEntry) (base : Nat)
    (hle : findMaxPage es ≤ 2 ^ 20) :
    (pmmCounted m es us base).clearPages = clearedPages (findMaxPage es) us := by
  have hmax : (pmmCounted m es us base).maxPage = findMaxPage es :=
    (pmmCounted_geometry m es us base).maxPage
  ext r
  rw [Pmm.mem_clearPages, mem_clearedPages, pmmCounted_isSet, hmax]
  constructor
  · intro hr
    by_contra hu
    refine hr.2 ⟨.inl ?_, hu⟩
    unfold bitmapBytesFor
    omega
  · exact fun hu => ⟨hu.lt, fun hs => hs.2 hu⟩

/-- `pmm_total_pages` is the count of `clear_usable_pages`. -/
theorem pmmSetup_total (m : Mem) (img : KernelImage) (es us : List MmapEntry) (base : Nat) :
    pmmGetTotalPages (pmmSetup m img es us base) =
      (us.map (clearedLength (findMaxPage es))).sum % 2 ^ 32 := by
  unfold pmmGetTotalPages
  rw [pmmSetup_eq, reservePage_total, reserveSegment_total, reserveSegment_total]
  exact pmmCounted_free m es us base

/-- The entries that `clear_usable_pages` meets are the map's own if none of those lies under the
    bitmap. -/
theorem pmmInit_undisturbed {m : Mem} {img : KernelImage} {mbi : MultibootInfo} {p : Pmm}
    {es : List MmapEntry} (hmbi : mbi.addr < 0x1000000) (hlen : mbi.mmapLength < 2 ^ 32)
    (hes : mmapEntries m mbi = .ok es) (hle : findMaxPage es ≤ 2 ^ 20)
    (hclear : ∀ e b, FirstPlace img mbi (bitmapBytesFor (findMaxPage es)) es e b →
      EntriesClear m mbi b (bitmapBytesFor (findMaxPage es)))
    (h : pmmInit m img mbi = .ok p) :
    ∃ base, base + bitmapBytesFor (findMaxPage es) ≤ 0x1000000 ∧ p = pmmSetup m img es es base := by
  obtain ⟨base, us, hlim, hus, rfl, _, e, hfirst⟩ := pmmInit_firstPlace hmbi hlen hes h
  obtain ⟨hes', _⟩ := EntriesClear.reread (p := pmmFilled m es base) (hclear e base hfirst)
    (pmmFilled_over m (by omega) base) hes
  rw [hus.unique hes']
  exact ⟨base, hlim, rfl⟩

/-- **`pmm_init` sets the counters right.** -/
theorem pmmInit_accounted {m : Mem} {img : KernelImage} {mbi : MultibootInfo} {p : Pmm}
    {es : List MmapEntry} (hmbi : mbi.addr < 0x1000000) (hlen : mbi.mmapLength < 2 ^ 32)
    (hes : mmapEntries m mbi = .ok es) (hlow : RamBelow4G es) (hdis : RegionsDisjoint es)
    (hclear : ∀ e b, FirstPlace img mbi (bitmapBytesFor (findMaxPage es)) es e b →
      EntriesClear m mbi b (bitmapBytesFor (findMaxPage es)))
    (h : pmmInit m img mbi = .ok p) :
    Accounted (clearedPages (findMaxPage es) es).card p ∧ p.maxPage = findMaxPage es := by
  obtain ⟨e, he, ht, hend⟩ := checkKernelLocation_ok (pmmInit_kernel hes h)
  have hle := findMaxPage_le hlow
  have hpos : 0 < findMaxPage es := by
    have := findMaxPage_ge hlow he ht
    have := hlow e he ht
    omega
  obtain ⟨base, hlim, rfl⟩ := pmmInit_undisturbed hmbi hlen hes hle hclear h
  have hpages := pmmCounted_clearPages m es base hle
  have hcard : (clearedPages (findMaxPage es) es).card ≤ findMaxPage es := by
    rw [← hpages]
    exact (Pmm.card_clearPages_le _).trans_eq (pmmCounted_geometry m es es base).maxPage
  have hsum : (es.map (clearedLength (findMaxPage es))).sum % 2 ^ 32 =
      (clearedPages (findMaxPage es) es).card := by
    rw [← card_clearedPages hlow (fun e he ht => findMaxPage_ge hlow he ht) hdis]
    exact Nat.mod_eq_of_lt (by omega)
  have hfree : (pmmCounted m es es base).Counted := by
    show (pmmCounted m es es base).freePages = (pmmCounted m es es base).clearPages.card
    rw [pmmCounted_free, hpages, hsum]
  have hgeom := (pmmSetup_geometry m img es es base).1
  refine ⟨⟨pmmReserve_countedOff img hfree, ?_, ?_, by omega⟩, hgeom⟩
  · exact (pmmSetup_isSet m img es es hlim 0).mpr (.inr ⟨.inr (.inr rfl), hpos⟩)
  · exact (pmmSetup_total m img es es base).trans hsum

/-! ## 4. Any calls -/

/-- Runs of the allocator in which any address is freed, at any time. -/
inductive PmmCalls (p0 : Pmm) : Pmm → Prop where
  | boot : PmmCalls p0 p0
  | alloc {p : Pmm} : PmmCalls p0 p → PmmCalls p0 (pmmAllocPage p).2
  | free {p : Pmm} (a : Nat) : PmmCalls p0 p → PmmCalls p0 (pmmFreePage p a)

theorem PmmCalls.accounted {p0 p : Pmm} {total : Nat} (h : PmmCalls p0 p)
    (h0 : Accounted total p0) : Accounted total p ∧ p.maxPage = p0.maxPage := by
  induction h with
  | boot => exact ⟨h0, rfl⟩
  | alloc _ ih => exact ⟨ih.1.alloc, (pmmAllocPage_geometry _).maxPage.trans ih.2⟩
  | free a _ ih => exact ⟨ih.1.release a, (pmmFreePage_geometry _ a).maxPage.trans ih.2⟩

/-- The counter stays a 32-bit word. -/
theorem PmmCalls.free_lt {p0 p : Pmm} (h : PmmCalls p0 p) (h0 : p0.freePages < 2 ^ 32) :
    p.freePages < 2 ^ 32 := by
  induction h with
  | boot => exact h0
  | @alloc p _ ih =>
    rcases pmmAllocPage_cases p with ⟨_, e⟩ | ⟨i, _, e⟩
    · rw [e]
      exact ih
    · rw [e]
      unfold takePage
      simp only
      split_ifs <;> omega
  | @free p a _ ih =>
    unfold pmmFreePage
    simp only
    split_ifs
    · exact Nat.mod_lt _ (by decide)
    · exact ih

theorem PmmCalls.maxPage {p0 p : Pmm} (h : PmmCalls p0 p) : p.maxPage = p0.maxPage := by
  induction h with
  | boot => rfl
  | alloc _ ih => exact (pmmAllocPage_geometry _).maxPage.trans ih
  | free a _ ih => exact (pmmFreePage_geometry _ a).maxPage.trans ih

theorem PmmCalls.trans {p0 p p' : Pmm} (h : PmmCalls p0 p) (h' : PmmCalls p p') :
    PmmCalls p0 p' := by
  induction h' with
  | boot => exact h
  | alloc _ ih => exact .alloc ih
  | free a _ ih => exact .free a ih

theorem reservePage_free_le (p : Pmm) (q : Nat) : (reservePage p q).freePages ≤ p.freePages := by
  unfold reservePage
  split
  · exact Nat.le_refl _
  · split
    · unfold takePage
      simp only
      split_ifs <;> omega
    · exact Nat.le_refl _

theorem reserveSegment_free_le (p : Pmm) (a b : Nat) :
    (reserveSegment p a b).freePages ≤ p.freePages :=
  List.foldlRecOn (motive := fun p' => p'.freePages ≤ p.freePages) _ _ (Nat.le_refl _)
    fun p' hp q _ => (reservePage_free_le p' q).trans hp

theorem pmmInit_free_lt {m : Mem} {img : KernelImage} {mbi : MultibootInfo} {p : Pmm}
    (h : pmmInit m img mbi = .ok p) : p.freePages < 2 ^ 32 := by
  obtain ⟨es, us, base, _, _, _, _, _, rfl⟩ := pmmInit_ok h
  rw [pmmSetup_eq]
  refine Nat.lt_of_le_of_lt ((reservePage_free_le _ _).trans ((reserveSegment_free_le _ _ _).trans
    (reserveSegment_free_le _ _ _))) ?_
  rw [pmmCounted_free]
  exact Nat.mod_lt _ (by decide)

/-- **The counters are exact**, whatever was allocated and whatever was freed, when the regions
    share no byte, end at 4 GiB at the latest, and no entry lies under the place of the bitmap. -/
theorem freePages_exact {m : Mem} {img : KernelImage} {mbi : MultibootInfo} {p0 p : Pmm}
    {es : List MmapEntry} (hmbi : mbi.addr < 0x1000000) (hlen : mbi.mmapLength < 2 ^ 32)
    (hes : mmapEntries m mbi = .ok es) (hlow : RamBelow4G es) (hdis : RegionsDisjoint es)
    (hclear : ∀ e b, FirstPlace img mbi (bitmapBytesFor (findMaxPage es)) es e b →
      EntriesClear m mbi b (bitmapBytesFor (findMaxPage es)))
    (hinit : pmmInit m img mbi = .ok p0) (h : PmmCalls p0 p) :
    pmmGetFreePages p = ((Finset.range p.maxPage).filter fun r => ¬ p.isSet r).card ∧
    p.isSet 0 ∧ pmmGetTotalPages p = (clearedPages p.maxPage es).card := by
  obtain ⟨h0, hmax0⟩ := pmmInit_accounted hmbi hlen hes hlow hdis hclear hinit
  obtain ⟨hp, hmax⟩ := h.accounted h0
  refine ⟨hp.free, hp.zero, ?_⟩
  rw [hmax, hmax0]
  exact hp.total

/-- A page freed twice, and one that never was taken. -/
theorem freePages_lowMem :
    pmmGetTotalPages
        (pmmFreePage (pmmFreePage (pmmAllocPage (lowPmm lowMem)).2 0x111000) 0x111800) =
      (clearedPages
        (pmmFreePage (pmmFreePage (pmmAllocPage (lowPmm lowMem)).2 0x111000) 0x111800).maxPage
        [lowRam]).card := by
  have hentries : mmapEntries lowMem (mapInfo 1) = .ok [lowRam] := by decide +kernel
  refine (freePages_exact (by decide) (by decide) hentries ?_ (List.pairwise_singleton _ _) ?_
    pmmInit_lowMem (.free 0x111800 (.free 0x111000 (.alloc .boot)))).2.2
  · intro e he _
    rw [List.mem_singleton.mp he]
    decide
  · intro e b hb
    exact (firstPlace_lowMem hb).2

/-! ## 5. An entry under the bitmap -/

/-- RAM below the video memory. -/
def convRam : MmapEntry := ⟨20, 0, 0x9F000, 1⟩

/-- RAM from 1 MiB to 1 GiB. -/
def gigRam : MmapEntry := ⟨20, 0x100000, 0x3FF00000, 1⟩

/-- The buffer's end cuts off the last byte of the third entry, the high byte of its type. -/
def cutInfo : MultibootInfo := ⟨0x8000, 0x40, 0, 0, 71, 0x9FB9⟩

/-- A map whose third entry is `e`. -/
def cutMem (e : MmapEntry) : Mem :=
  wrEntry (wrEntry (wrEntry (fun _ => 0) 0x9FB9 convRam) 0x9FD1 gigRam) 0x9FE9 e

/-- A page that the second region has already. The type is not 1, until its high byte is gone. -/
def twiceRam : MmapEntry := ⟨20, 0x200000, 0x1000, 0x80000001⟩

theorem entries_cutMem : mmapEntries (cutMem twiceRam) cutInfo = .ok [convRam, gigRam, twiceRam] := by
  decide +kernel

/-- A byte of the bitmap whose pages are all clear. -/
theorem bitmap_eq_zero {p : Pmm} {i : Nat} (h : ∀ r, r / 8 = i → ¬ p.isSet r) : p.bitmap i = 0 := by
  apply BitVec.eq_of_getLsbD_eq
  intro j hj
  have hr := h (8 * i + j) (by omega)
  rw [Pmm.isSet_iff, show (8 * i + j) / 8 = i by omega, show (8 * i + j) % 8 = j by omega,
    Bool.not_eq_true] at hr
  rw [hr]
  exact (BitVec.getLsbD_zero).symm

/-- The entry as it reads when the byte is zero. -/
def onceRam : MmapEntry := ⟨20, 0x200000, 0x1000, 1⟩

theorem entryAt_cut {p : Pmm} (hb : p.bitmapBase = 0xA000) (h0 : p.bitmap 0 = 0) :
    entryAt (p.memory (cutMem twiceRam)) 0xC0009FE9 = onceRam := by
  have hcut : entryAt (wr8 (cutMem twiceRam) 0xA000 0) 0xC0009FE9 = onceRam := by decide +kernel
  rw [← hcut]
  refine entryAt_congr fun i hi => ?_
  rw [show bootPhys 0xC0009FE9 = 0x9FE9 from rfl]
  unfold Pmm.memory
  by_cases hlast : i = 23
  · rw [hlast, hb, if_pos (by decide)]
    exact h0.trans (wr8_self _ _ _).symm
  · rw [if_neg (by omega)]
    exact (wr8_outside (by omega)).symm

/-- The first region clears the first eight pages, so the third entry is read as one of type 1. -/
theorem reread_cut :
    Reread (cutMem twiceRam) cutInfo.mmapStop (vmmPhysToVirt cutInfo.mmapAddr)
      (pmmFilled (cutMem twiceRam) [convRam, gigRam, twiceRam] 0xA000)
      [convRam, gigRam, onceRam] := by
  have hover := pmmFilled_over (cutMem twiceRam)
    (show findMaxPage [convRam, gigRam, twiceRam] + 7 < 2 ^ 32 by decide) 0xA000
  have hbytes : (pmmFilled (cutMem twiceRam) [convRam, gigRam, twiceRam] 0xA000).bitmapBytes =
      0x8000 := by decide
  have hmax : (pmmFilled (cutMem twiceRam) [convRam, gigRam, twiceRam] 0xA000).maxPage =
      0x40000 := by decide
  have hbase : (pmmFilled (cutMem twiceRam) [convRam, gigRam, twiceRam] 0xA000).bitmapBase =
      0xA000 := rfl
  generalize pmmFilled (cutMem twiceRam) [convRam, gigRam, twiceRam] 0xA000 = p0 at *
  obtain ⟨hg1, hs1⟩ := clearEntry_isSet p0 convRam
  have hover1 := clearEntry_over hover convRam
  generalize hp1 : clearEntry p0 convRam = p1 at *
  obtain ⟨hg2, hs2⟩ := clearEntry_isSet p1 gigRam
  have hover2 := clearEntry_over hover1 gigRam
  generalize hp2 : clearEntry p1 gigRam = p2 at *
  obtain ⟨hg3, hs3⟩ := clearEntry_isSet p2 onceRam
  have hfirst : entryAt (cutMem twiceRam) 0xC0009FB9 = convRam := by decide +kernel
  have hsecond : entryAt (cutMem twiceRam) 0xC0009FD1 = gigRam := by decide +kernel
  have hclear : ∀ r, r / 8 = 0 → ¬ p1.isSet r := fun r hr hs => by
    refine ((hs1 r).mp hs).2 ?_
    rw [hmax, show clearRange 0x40000 convRam = (0, 0x9F) by decide]
    omega
  have hzero2 : p2.bitmap 0 = 0 := bitmap_eq_zero fun r hr hs => hclear r hr ((hs2 r).mp hs).1
  have hzero3 : (clearEntry p2 onceRam).bitmap 0 = 0 := bitmap_eq_zero fun r hr hs =>
    hclear r hr ((hs2 r).mp ((hs3 r).mp hs).1).1
  have hb2 : p2.bitmapBase = 0xA000 := hg2.base.trans (hg1.base.trans hbase)
  have hthird : Reread (cutMem twiceRam) cutInfo.mmapStop 0xC0009FE9 p2 [onceRam] :=
    .turn (by decide) (by decide) (entryAt_cut hb2 hzero2)
      (entryAt_cut (hg3.base.trans hb2) hzero3) (.done (by decide))
  have hoff1 : EntryClear 0xA000 0x8000 0xC0009FB9 := by decide
  have hoff2 : EntryClear 0xA000 0x8000 0xC0009FD1 := by decide
  have hnext : Reread (cutMem twiceRam) cutInfo.mmapStop 0xC0009FD1 p1 [gigRam, onceRam] := by
    refine .turn (by decide) (by decide) ?_ ?_ (hp2 ▸ hthird)
    · rw [hover1.entryAt_eq (by rw [hg1.base, hg1.bytes, hbase, hbytes]; exact hoff2), hsecond]
    · rw [hp2, hover2.entryAt_eq
        (by rw [hg2.base, hg2.bytes, hg1.base, hg1.bytes, hbase, hbytes]; exact hoff2), hsecond]
  refine .turn (by decide) (by decide) ?_ ?_ (hp1 ▸ hnext)
  · rw [show vmmPhysToVirt cutInfo.mmapAddr = 0xC0009FB9 from rfl,
      hover.entryAt_eq (by rw [hbase, hbytes]; exact hoff1), hfirst]
  · rw [show vmmPhysToVirt cutInfo.mmapAddr = 0xC0009FB9 from rfl, hp1,
      hover1.entryAt_eq (by rw [hg1.base, hg1.bytes, hbase, hbytes]; exact hoff1), hfirst]

/-- What `pmm_init` leaves there. -/
def cutPmm : Pmm :=
  pmmSetup (cutMem twiceRam) smallImage [convRam, gigRam, twiceRam] [convRam, gigRam, onceRam] 0xA000

theorem pmmInit_cutMem : pmmInit (cutMem twiceRam) smallImage cutInfo = .ok cutPmm :=
  pmmInit_of (by decide +kernel) entries_cutMem (by decide +kernel) (by decide) (by decide +kernel)
    (by decide) (by decide) (by decide) reread_cut (by decide)

/-- Two of the three ranges are the pages of the map. -/
theorem clearedPages_cut : (clearedPages 0x40000 [convRam, gigRam, onceRam]).card = 262047 := by
  have hpages : clearedPages 0x40000 [convRam, gigRam, onceRam] =
      Finset.Ico 0 0x9F ∪ Finset.Ico 0x100 0x40000 := by
    ext r
    rw [mem_clearedPages]
    unfold Usable
    rw [List.exists_mem_cons_iff, List.exists_mem_cons_iff, List.exists_mem_cons_iff,
      show clearRange 0x40000 convRam = (0, 0x9F) by decide,
      show clearRange 0x40000 gigRam = (0x100, 0x40000) by decide,
      show clearRange 0x40000 onceRam = (0x200, 0x201) by decide, Finset.mem_union, Finset.mem_Ico,
      Finset.mem_Ico]
    constructor
    · rintro (h | h | h | ⟨e, he, _⟩)
      · exact .inl h
      · exact .inr h
      · exact .inr (by omega)
      · exact absurd he List.not_mem_nil
    · rintro (h | h)
      · exact .inl h
      · exact .inr (.inl h)
  have hdis : Disjoint (Finset.Ico 0 0x9F) (Finset.Ico 0x100 0x40000) :=
    Finset.disjoint_left.mpr fun r h h' => by
      rw [Finset.mem_Ico] at h h'
      omega
  rw [hpages, Finset.card_union_of_disjoint hdis, Nat.card_Ico, Nat.card_Ico]

/-- **A page is counted twice**: `find_segment` puts the bitmap right behind the buffer, on the last
    byte of the third entry, and `clear_usable_pages` reads that entry as RAM. The two counters
    are one too high. -/
theorem freePages_miscounted :
    mmapEntries (cutMem twiceRam) cutInfo = .ok [convRam, gigRam, twiceRam] ∧
    RamBelow4G [convRam, gigRam, twiceRam] ∧ RegionsDisjoint [convRam, gigRam, twiceRam] ∧
    ∃ p, pmmInit (cutMem twiceRam) smallImage cutInfo = .ok p ∧
      Reread (cutMem twiceRam) cutInfo.mmapStop (vmmPhysToVirt cutInfo.mmapAddr)
        (pmmFilled (cutMem twiceRam) [convRam, gigRam, twiceRam] p.bitmapBase)
        [convRam, gigRam, onceRam] ∧
      pmmGetTotalPages p = (clearedPages p.maxPage [convRam, gigRam, onceRam]).card + 1 ∧
      pmmGetFreePages p = ((Finset.range p.maxPage).filter fun r => ¬ p.isSet r).card + 1 := by
  have hmax : findMaxPage [convRam, gigRam, twiceRam] = 0x40000 := by decide
  obtain ⟨hm, hb, _⟩ : cutPmm.maxPage = findMaxPage [convRam, gigRam, twiceRam] ∧
      cutPmm.bitmapBase = 0xA000 ∧ _ := pmmSetup_geometry _ _ _ _ _
  have hsum : ([convRam, gigRam, onceRam].map (clearedLength 0x40000)).sum % 2 ^ 32 = 262048 := by
    decide
  have hcounted : (pmmCounted (cutMem twiceRam) [convRam, gigRam, twiceRam]
      [convRam, gigRam, onceRam] 0xA000).CountedOff 1 0 := by
    unfold Pmm.CountedOff
    rw [pmmCounted_free, pmmCounted_clearPages _ _ _ (by rw [hmax]; decide), hmax, hsum,
      clearedPages_cut]
  have hfree : cutPmm.CountedOff 1 0 := by
    unfold cutPmm pmmSetup
    exact pmmReserve_countedOff smallImage hcounted
  have htotal : pmmGetTotalPages cutPmm = 262048 := by
    unfold cutPmm
    rw [pmmSetup_total, hmax, hsum]
  have hcard : (clearedPages cutPmm.maxPage [convRam, gigRam, onceRam]).card = 262047 := by
    rw [hm, hmax, clearedPages_cut]
  refine ⟨entries_cutMem, ?_, ?_, cutPmm, pmmInit_cutMem, ?_, ?_, hfree.surplus⟩
  · unfold RamBelow4G
    decide
  · have hapart : Apart 0 (0 + 0x9F000) 0x100000 (0x100000 + 0x3FF00000) := by
      intro x _ _ _
      omega
    refine List.pairwise_cons.mpr ⟨fun e he ht ht' => ?_,
      List.pairwise_cons.mpr ⟨fun e he ht ht' => ?_, List.pairwise_singleton _ _⟩⟩
    · rcases List.mem_cons.mp he with rfl | he
      · exact hapart
      · rw [List.mem_singleton.mp he] at ht'
        exact absurd ht' (by decide)
    · rw [List.mem_singleton.mp he] at ht'
      exact absurd ht' (by decide)
  · rw [hb]
    exact reread_cut
  · rw [htotal, hcard]

end Emyx
