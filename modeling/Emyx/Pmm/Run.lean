/-
  File:      Emyx/Pmm/Run.lean
  Subject:   RUNS OF THE PAGE ALLOCATOR: which frames are taken since `pmm_init`, what one call
             does to that set, and what every run of `pmm_alloc_page` / `pmm_free_page` keeps.

  * `Allocated p0 p f` -- the frame `f` was free when `pmm_init` returned (`p0`) and is taken in
    `p`. `pmmAllocPage_spec` and `pmmFreePage_spec` say how the two calls change this set; all
    later parts of the kernel (page tables, heap, processes) use these two only;
  * `Addressable p` -- if some page is free, one with a 32-bit address is. `pmm_alloc_page`
    returns `i << 12` in 32 bits, so above 4 GiB the address it returns is another page's;
  * `PmmReach C p0 p out` -- runs from `p0` that free outstanding addresses only and whose
    allocations all start in a state meeting `C`;
  * **`pmmAllocPage_meets_iff`** -- along such runs the next allocation keeps the allocator's
    promise (`AllocMeets`) exactly when its state is `Addressable`.
-/
import Emyx.Pmm.Init

namespace Emyx

open Lib

/-! ## 1. The frames taken since `pmm_init` -/

/-- The two states share the bitmap's geometry, and what was taken at `p0` still is. -/
structure PmmOk (p0 p : Pmm) : Prop extends SameGeometry p0 p where
  kept : ∀ r, p0.isSet r → p.isSet r

/-- The frame at the physical address `f` was free at `p0` and is taken in `p`. -/
def Allocated (p0 p : Pmm) (f : Nat) : Prop :=
  ∃ page, f = page * 4096 ∧ 1 ≤ page ∧ page < p0.maxPage ∧ page < 2 ^ 20 ∧
    p.isSet page ∧ ¬ p0.isSet page

/-- If some page can be taken, one whose address fits 32 bits can. -/
def Addressable (p : Pmm) : Prop :=
  (∃ i, 1 ≤ i ∧ i < p.maxPage ∧ ¬ p.isSet i) →
    ∃ i, 1 ≤ i ∧ i < p.maxPage ∧ i < 2 ^ 20 ∧ ¬ p.isSet i

theorem PmmOk.refl (p : Pmm) : PmmOk p p := ⟨.refl p, fun _ h => h⟩

theorem not_allocated_self (p : Pmm) (f : Nat) : ¬ Allocated p p f := by
  intro h
  obtain ⟨page, _, _, _, _, h1, h2⟩ := h
  exact h2 h1

theorem Allocated.aligned {p0 p : Pmm} {f : Nat} (h : Allocated p0 p f) : f % 4096 = 0 := by
  obtain ⟨page, rfl, _⟩ := h
  omega

theorem Allocated.pos {p0 p : Pmm} {f : Nat} (h : Allocated p0 p f) : 4096 ≤ f := by
  obtain ⟨page, rfl, h1, _⟩ := h
  omega

theorem Allocated.lt {p0 p : Pmm} {f : Nat} (h : Allocated p0 p f) : f + 4096 ≤ 2 ^ 32 := by
  obtain ⟨page, rfl, _, _, h1, _⟩ := h
  omega

/-- **`pmm_alloc_page`, on the frames**: nothing is free and nothing changes, or a frame that was
    not taken is. -/
theorem pmmAllocPage_spec {p0 p : Pmm} (h : PmmOk p0 p) (ha : Addressable p) :
    ((∀ i, 1 ≤ i → i < p.maxPage → p.isSet i) ∧ pmmAllocPage p = (0, p)) ∨
    ∃ f p', pmmAllocPage p = (f, p') ∧ f ≠ 0 ∧ PmmOk p0 p' ∧ FirstClear p (f / 4096) ∧
      f % 4096 = 0 ∧ ¬ Allocated p0 p f ∧
      (∀ g, Allocated p0 p' g ↔ g = f ∨ Allocated p0 p g) ∧
      (∀ r, p'.isSet r ↔ r = f / 4096 ∨ p.isSet r) := by
  rcases pmmAllocPage_cases p with ⟨hall, e⟩ | ⟨i, hi, e⟩
  · exact Or.inl ⟨hall, e⟩
  · obtain ⟨j, hj1, _, hj3, hj4⟩ := ha ⟨i, hi.1, hi.2.1, hi.2.2.1⟩
    have hij := hi.le hj1 hj4
    have hi1 := hi.1
    have hi20 : i < 2 ^ 20 := by omega
    have hf : i * 4096 % 2 ^ 32 = i * 4096 := Nat.mod_eq_of_lt (by omega)
    have hpage : i * 4096 / 4096 = i := by omega
    have hset := takePage_isSet p i
    have hi0 : ¬ p0.isSet i := fun h0 => hi.2.2.1 (h.kept i h0)
    refine Or.inr ⟨i * 4096, _, by rw [e, hf], by omega,
      ⟨h.toSameGeometry.trans (takePage_geometry p i),
        fun r hr => (hset r).mpr (Or.inr (h.kept r hr))⟩,
      by rw [hpage]; exact hi, by omega, ?_, fun g => ?_, fun r => by rw [hset r, hpage]⟩
    · intro hc
      obtain ⟨page, he, _, _, _, hs, _⟩ := hc
      have : page = i := by omega
      subst this
      exact hi.2.2.1 hs
    · constructor
      · intro hg
        obtain ⟨page, he, h1, h2, h3, hs, h0⟩ := hg
        rcases (hset page).mp hs with hpi | hs'
        · exact Or.inl (by rw [he, hpi])
        · exact Or.inr ⟨page, he, h1, h2, h3, hs', h0⟩
      · intro hg
        rcases hg with rfl | hg
        · exact ⟨i, rfl, hi1, h.maxPage ▸ hi.2.1, hi20, (hset i).mpr (Or.inl rfl), hi0⟩
        · obtain ⟨page, he, h1, h2, h3, hs, h0⟩ := hg
          exact ⟨page, he, h1, h2, h3, (hset page).mpr (Or.inr hs), h0⟩

/-- **`pmm_free_page`, on the frames**: the frame given back is no longer taken. -/
theorem pmmFreePage_spec {p0 p : Pmm} (h : PmmOk p0 p) {f : Nat} (hf : Allocated p0 p f) :
    PmmOk p0 (pmmFreePage p f) ∧
    (∀ g, Allocated p0 (pmmFreePage p f) g ↔ g ≠ f ∧ Allocated p0 p g) ∧
    (∀ r, (pmmFreePage p f).isSet r ↔ r ≠ f / 4096 ∧ p.isSet r) := by
  obtain ⟨page, rfl, h1, h2, h3, hs, h0⟩ := hf
  have hpage : page * 4096 / 4096 = page := by omega
  have hset : ∀ r, (pmmFreePage p (page * 4096)).isSet r ↔ r ≠ page ∧ p.isSet r := fun r => by
    rw [pmmFreePage_isSet, hpage]
    constructor
    · intro hr
      refine ⟨fun e => hr.2 ⟨e, by omega, ?_⟩, hr.1⟩
      rw [e, h.maxPage]
      exact h2
    · intro hr
      exact ⟨hr.2, fun hc => hr.1 hc.1⟩
  refine ⟨⟨h.toSameGeometry.trans (pmmFreePage_geometry p _),
    fun r hr => (hset r).mpr ⟨?_, h.kept r hr⟩⟩, fun g => ?_, fun r => by rw [hset r, hpage]⟩
  · intro e
    subst e
    exact h0 hr
  · constructor
    · intro hg
      obtain ⟨q, he, hq1, hq2, hq3, hqs, hq0⟩ := hg
      obtain ⟨hne, hqs'⟩ := (hset q).mp hqs
      exact ⟨by omega, q, he, hq1, hq2, hq3, hqs', hq0⟩
    · intro hg
      obtain ⟨hne, q, he, hq1, hq2, hq3, hqs, hq0⟩ := hg
      refine ⟨q, he, hq1, hq2, hq3, (hset q).mpr ⟨?_, hqs⟩, hq0⟩
      intro e
      exact hne (by rw [he, e])

/-- With RAM below 4 GiB every page has a 32-bit address. -/
theorem addressable_of_maxPage {p : Pmm} (h : p.maxPage ≤ 2 ^ 20) : Addressable p := by
  intro hex
  obtain ⟨i, h1, h2, h3⟩ := hex
  exact ⟨i, h1, h2, by omega, h3⟩

/-- Taken frames given back one after the other, each once. -/
theorem pmmFreePage_list {p0 p : Pmm} (h : PmmOk p0 p) {l : List Nat}
    (hl : ∀ f ∈ l, Allocated p0 p f) (hnd : l.Nodup) :
    PmmOk p0 (l.foldl pmmFreePage p) ∧
    ∀ g, Allocated p0 (l.foldl pmmFreePage p) g ↔ Allocated p0 p g ∧ g ∉ l := by
  induction l generalizing p with
  | nil => exact ⟨h, fun g => ⟨fun hg => ⟨hg, List.not_mem_nil⟩, fun hg => hg.1⟩⟩
  | cons f l ih =>
    obtain ⟨hfl, hnd⟩ := List.nodup_cons.mp hnd
    obtain ⟨hok, hall, _⟩ := pmmFreePage_spec h (hl f List.mem_cons_self)
    have hrest : ∀ g ∈ l, Allocated p0 (pmmFreePage p f) g := fun g hg =>
      (hall g).mpr ⟨fun e => hfl (e ▸ hg), hl g (List.mem_cons_of_mem _ hg)⟩
    obtain ⟨hok', hall'⟩ := ih hok hrest hnd
    refine ⟨hok', fun g => (hall' g).trans ?_⟩
    rw [hall, List.mem_cons, not_or]
    exact ⟨fun hg => ⟨hg.1.2, hg.1.1, hg.2⟩, fun hg => ⟨⟨hg.2.1, hg.1⟩, hg.2.2⟩⟩

/-- A frame taken and given back at once: the taken frames are what they were. -/
theorem pmmFreePage_undo {p0 p : Pmm} (h : PmmOk p0 p) (ha : Addressable p)
    (h0 : (pmmAllocPage p).1 ≠ 0) :
    PmmOk p0 (pmmFreePage (pmmAllocPage p).2 (pmmAllocPage p).1) ∧
    ∀ g, Allocated p0 (pmmFreePage (pmmAllocPage p).2 (pmmAllocPage p).1) g ↔ Allocated p0 p g := by
  rcases pmmAllocPage_spec h ha with ⟨_, e⟩ | ⟨f, p', e, _, hok, _, _, hnew, hall, _⟩
  · rw [e] at h0
    exact absurd rfl h0
  · rw [e]
    obtain ⟨hok', hall', _⟩ := pmmFreePage_spec hok ((hall f).mpr (Or.inl rfl))
    refine ⟨hok', fun g => ?_⟩
    rw [hall', hall]
    exact ⟨fun hg => hg.2.resolve_left hg.1, fun hg => ⟨fun e => hnew (e ▸ hg), Or.inr hg⟩⟩

/-- What the page allocator's answer says, with RAM below 4 GiB. -/
theorem pmmAllocPage_answer {p : Pmm} (hmax : p.maxPage ≤ 2 ^ 20) :
    (pmmAllocPage p).1 = 0 ∧ (∀ i, 1 ≤ i → i < p.maxPage → p.isSet i) ∧ (pmmAllocPage p).2 = p ∨
    ∃ i, FirstClear p i ∧ (pmmAllocPage p).1 = i * 4096 ∧ (pmmAllocPage p).1 ≠ 0 := by
  rcases pmmAllocPage_cases p with ⟨hall, e⟩ | ⟨i, hi, e⟩
  · exact .inl ⟨by rw [e], hall, by rw [e]⟩
  · have h1 := hi.1
    have h2 := hi.2.1
    refine .inr ⟨i, hi, ?_, ?_⟩
    · rw [e]
      exact Nat.mod_eq_of_lt (by omega)
    · rw [e, Nat.mod_eq_of_lt (by omega)]
      omega

/-- Two first clear pages are one. -/
theorem FirstClear.unique {p : Pmm} {i j : Nat} (hi : FirstClear p i) (hj : FirstClear p j) : i = j :=
  Nat.le_antisymm (hi.le hj.1 hj.2.2.1) (hj.le hi.1 hi.2.2.1)

theorem FirstClear.not_full {p : Pmm} {i : Nat} (hi : FirstClear p i) :
    ¬ ∀ j, 1 ≤ j → j < p.maxPage → p.isSet j := fun hall => hi.2.2.1 (hall i hi.1 hi.2.1)

/-- **A page taken and given back at once**: the bitmap is what it was, and so is the counter of
    free pages, unless it stood at zero with a page free. -/
theorem pmmFreePage_alloc {p : Pmm} (hmax : p.maxPage ≤ 2 ^ 20) (hlt : p.freePages < 2 ^ 32)
    (h0 : (pmmAllocPage p).1 ≠ 0) :
    pmmFreePage (pmmAllocPage p).2 (pmmAllocPage p).1 =
      { p with freePages := if p.freePages = 0 then 1 else p.freePages } := by
  rcases pmmAllocPage_cases p with ⟨_, e⟩ | ⟨i, hi, e⟩
  · rw [e] at h0
    exact absurd rfl h0
  · have hi1 := hi.1
    have hi2 := hi.2.1
    have hpage : (i * 4096 % 2 ^ 32) >>> 12 = i := by
      rw [Nat.mod_eq_of_lt (by omega), Nat.shiftRight_eq_div_pow]
      omega
    have hclear : bitmapClear (takePage p i) i =
        { p with freePages := if p.freePages > 0 then p.freePages - 1 else p.freePages } := by
      have hundo := bitmapClear_bitmapSet hi.2.2.1
      unfold takePage bitmapClear
      rw [Pmm.mk.injEq]
      exact ⟨congrArg Pmm.bitmap hundo, rfl, rfl, rfl, rfl, rfl⟩
    rw [e]
    unfold pmmFreePage
    simp only
    rw [hpage, if_pos ⟨by omega, hi2, (takePage_isSet p i i).mpr (.inl rfl)⟩, hclear]
    have hcount : ((takePage p i).freePages + 1) % 2 ^ 32 =
        if p.freePages = 0 then 1 else p.freePages := by
      unfold takePage
      simp only
      split_ifs <;> omega
    rw [hcount]

/-! ## 2. Runs -/

/-- Runs of the allocator from `p0`: `out` lists the addresses handed out and not given back.
    Only outstanding addresses are freed; each allocation starts in a state meeting `C`. -/
inductive PmmReach (C : Pmm → Prop) (p0 : Pmm) : Pmm → List Nat → Prop where
  | boot : PmmReach C p0 p0 []
  | alloc (p : Pmm) (out : List Nat) (h : PmmReach C p0 p out) (hc : C p) :
      PmmReach C p0 (pmmAllocPage p).2
        (if (pmmAllocPage p).1 = 0 then out else (pmmAllocPage p).1 :: out)
  | free (p : Pmm) (out : List Nat) (a : Nat) (h : PmmReach C p0 p out) (ha : a ∈ out) :
      PmmReach C p0 (pmmFreePage p a) (out.erase a)

/-- The invariant of the runs: the outstanding addresses are the frames taken, each once. -/
structure PmmRunInv (p0 p : Pmm) (out : List Nat) : Prop where
  ok : PmmOk p0 p
  nodup : out.Nodup
  taken : ∀ a, a ∈ out ↔ Allocated p0 p a

theorem pmmRunInv_reach {p0 p : Pmm} {out : List Nat} (h : PmmReach Addressable p0 p out) :
    PmmRunInv p0 p out := by
  induction h with
  | boot =>
    exact ⟨PmmOk.refl p0, List.nodup_nil, fun a =>
      ⟨fun h => absurd h List.not_mem_nil, fun h => absurd h (not_allocated_self p0 a)⟩⟩
  | alloc p out _ hc ih =>
    rcases pmmAllocPage_spec ih.ok hc with ⟨_, e⟩ | ⟨f, p', e, hf, hok, _, _, hnew, hall, _⟩
    · rw [e]
      exact ih
    · rw [e]
      simp only [hf, if_false]
      refine ⟨hok, List.nodup_cons.mpr ⟨fun hm => hnew ((ih.taken f).mp hm), ih.nodup⟩,
        fun a => ?_⟩
      rw [List.mem_cons, hall, ih.taken]
  | free p out a _ ha ih =>
    obtain ⟨hok, hall, _⟩ := pmmFreePage_spec ih.ok ((ih.taken a).mp ha)
    refine ⟨hok, ih.nodup.erase a, fun b => ?_⟩
    rw [hall, ih.nodup.mem_erase_iff, ih.taken]

/-! ## 3. The allocator's promise -/

/-- What one `pmm_alloc_page` call promises in the state `p` with `out` outstanding: a non-zero
    address is aligned, not outstanding, the address of the page whose bit it sets, and clear of
    page 0, the kernel image and the bitmap; `0` means that no page is clear, and changes
    nothing. -/
structure AllocMeets (img : KernelImage) (p : Pmm) (out : List Nat) : Prop where
  aligned : (pmmAllocPage p).1 ≠ 0 → (pmmAllocPage p).1 % 4096 = 0
  fresh : (pmmAllocPage p).1 ≠ 0 → (pmmAllocPage p).1 ∉ out
  page : (pmmAllocPage p).1 ≠ 0 → ∃ i, 1 ≤ i ∧ i < p.maxPage ∧ (pmmAllocPage p).1 = i * 4096 ∧
    ¬ p.isSet i ∧ ∀ r, (pmmAllocPage p).2.isSet r ↔ r = i ∨ p.isSet r
  notPageZero : (pmmAllocPage p).1 ≠ 0 →
    Apart (pmmAllocPage p).1 ((pmmAllocPage p).1 + 4096) 0 4096
  notKernel : (pmmAllocPage p).1 ≠ 0 →
    Apart (pmmAllocPage p).1 ((pmmAllocPage p).1 + 4096) img.physicalStart img.physicalEnd
  notBitmap : (pmmAllocPage p).1 ≠ 0 →
    Apart (pmmAllocPage p).1 ((pmmAllocPage p).1 + 4096) p.bitmapBase (p.bitmapBase + p.bitmapBytes)
  exhausted : (pmmAllocPage p).1 = 0 →
    (∀ i, 1 ≤ i → i < p.maxPage → p.isSet i) ∧ (pmmAllocPage p).2 = p

/-- The pages `pmm_init` reserves are taken when it returns. -/
theorem pmmInit_reserved {m : Mem} {img : KernelImage} {mbi : MultibootInfo} {p : Pmm}
    (h : pmmInit m img mbi = .ok p) {page : Nat} (hp : page < p.maxPage)
    (hr : Reserved img p.bitmapBase p.bitmapBytes page) : p.isSet page := by
  obtain ⟨es, us, base, _, _, _, hlim, _, rfl⟩ := pmmInit_ok h
  obtain ⟨h1, h2, h3⟩ := pmmSetup_geometry m img es us base
  rw [h2, h3] at hr
  exact (pmmSetup_isSet m img es us hlim page).mpr (Or.inr ⟨hr, h1 ▸ hp⟩)

/-- A page that is not reserved is clear of page 0, the kernel and the bitmap. -/
theorem apart_of_not_reserved {img : KernelImage} {base bytes page : Nat}
    (h : ¬ Reserved img base bytes page) :
    Apart (page * 4096) (page * 4096 + 4096) 0 4096 ∧
    Apart (page * 4096) (page * 4096 + 4096) img.physicalStart img.physicalEnd ∧
    Apart (page * 4096) (page * 4096 + 4096) base (base + bytes) := by
  unfold Reserved at h
  push Not at h
  obtain ⟨h1, h2, h3⟩ := h
  refine ⟨fun x _ _ _ => ?_, fun x _ _ _ => ?_, fun x _ _ _ => ?_⟩
  · omega
  · have := h2 (by omega)
    omega
  · have := h1 (by omega)
    omega

/-- **NO DOUBLE ALLOCATION.** Along every run whose allocations were all addressable, the next
    `pmm_alloc_page` keeps its promise exactly when it is addressable too. -/
theorem pmmAllocPage_meets_iff {m : Mem} {img : KernelImage} {mbi : MultibootInfo} {p0 p : Pmm}
    {out : List Nat} (hinit : pmmInit m img mbi = .ok p0)
    (hr : PmmReach Addressable p0 p out) : AllocMeets img p out ↔ Addressable p := by
  have hI := pmmRunInv_reach hr
  constructor
  · intro hm hex
    rcases pmmAllocPage_cases p with ⟨hall, _⟩ | ⟨i, hi, e⟩
    · obtain ⟨i, h1, h2, h3⟩ := hex
      exact absurd (hall i h1 h2) h3
    · refine ⟨i, hi.1, hi.2.1, ?_, hi.2.2.1⟩
      by_contra hge
      -- the shift lost the page number: `0` for a free page, or another page's address
      by_cases h0 : i * 4096 % 2 ^ 32 = 0
      · exact hi.2.2.1 ((hm.exhausted (by rw [e]; exact h0)).1 i hi.1 hi.2.1)
      · obtain ⟨j, _, _, hj, hjs, hbits⟩ := hm.page (by rw [e]; exact h0)
        rw [e] at hj hbits
        have hji : j = i := by
          rcases (takePage_isSet p i j).mp ((hbits j).mpr (Or.inl rfl)) with hji | hji
          · exact hji
          · exact absurd hji hjs
        subst hji
        have := Nat.mod_lt (j * 4096) (show 0 < 2 ^ 32 by decide)
        omega
  · intro ha
    rcases pmmAllocPage_spec hI.ok ha with ⟨hall, e⟩ | ⟨f, p', e, hf, _, hfirst, hal, hnew, _, hset⟩
    · have h0 : (pmmAllocPage p).1 = 0 := by rw [e]
      exact ⟨fun h => absurd h0 h, fun h => absurd h0 h, fun h => absurd h0 h,
        fun h => absurd h0 h, fun h => absurd h0 h, fun h => absurd h0 h,
        fun _ => ⟨hall, by rw [e]⟩⟩
    · have e1 : (pmmAllocPage p).1 = f := by rw [e]
      have e2 : (pmmAllocPage p).2 = p' := by rw [e]
      have hpage : f / 4096 * 4096 = f := by omega
      have hres : ¬ Reserved img p.bitmapBase p.bitmapBytes (f / 4096) := fun hres => by
        have hlt : f / 4096 < p0.maxPage := hI.ok.maxPage ▸ hfirst.2.1
        rw [hI.ok.base, hI.ok.bytes] at hres
        exact hfirst.2.2.1 (hI.ok.kept _ (pmmInit_reserved hinit hlt hres))
      obtain ⟨hz, hk, hb⟩ := apart_of_not_reserved hres
      rw [hpage] at hz hk hb
      constructor
      · intro _
        rw [e1]
        exact hal
      · intro _
        rw [e1]
        exact fun hm => hnew ((hI.taken f).mp hm)
      · intro _
        refine ⟨f / 4096, hfirst.1, hfirst.2.1, by rw [e1]; exact hpage.symm, hfirst.2.2.1, ?_⟩
        rw [e2]
        exact hset
      · intro _
        rw [e1]
        exact hz
      · intro _
        rw [e1]
        exact hk
      · intro _
        rw [e1]
        exact hb
      · intro h0
        rw [e1] at h0
        exact absurd h0 hf

/-! ## 4. A map below 4 GiB and one above -/

/-- A kernel of 64 KiB. -/
def smallImage : KernelImage := ⟨0x110000, by decide, by decide⟩

/-- 256 KiB of RAM from 1 MiB on. -/
def lowRam : MmapEntry := ⟨20, 0x100000, 0x40000, 1⟩

/-- RAM for the kernel and a bitmap of 131073 bytes, no page more. -/
def tightRam : MmapEntry := ⟨20, 0x100000, 0x31000, 1⟩

/-- One page of RAM at 4 GiB. -/
def highRam : MmapEntry := ⟨20, 0x100000000, 0x1000, 1⟩

/-- The multiboot info of a map of `n` entries at `0x9000`. -/
def mapInfo (n : Nat) : MultibootInfo := ⟨0x8000, 0x40, 0, 0, 24 * n, 0x9000⟩

def lowMem : Mem := wrEntry (fun _ => 0) 0x9000 lowRam

/-- What `pmm_init` leaves on that map. -/
def lowPmm (m : Mem) : Pmm := pmmSetup m smallImage [lowRam] [lowRam] 0x110000

def highMem : Mem := wrEntry (wrEntry (fun _ => 0) 0x9000 tightRam) 0x9018 highRam

/-- What `pmm_init` leaves there. -/
def highPmm : Pmm :=
  pmmSetup highMem smallImage [tightRam, highRam] [tightRam, highRam] 0x110000

theorem pmmInit_lowMem : pmmInit lowMem smallImage (mapInfo 1) = .ok (lowPmm lowMem) :=
  pmmInit_clear (by decide +kernel) (by decide +kernel) (by decide +kernel) (by decide)
    (by decide +kernel) (by decide) (by decide) (by decide) (by decide +kernel)

theorem pmmInit_highMem : pmmInit highMem smallImage (mapInfo 2) = .ok highPmm :=
  pmmInit_clear (by decide +kernel) (by decide +kernel) (by decide +kernel) (by decide)
    (by decide +kernel) (by decide) (by decide) (by decide) (by decide +kernel)

/-- On the map with one page at 4 GiB every page below is reserved, and that page is clear. -/
theorem highMem_isSet (r : Nat) (hr : r < 2 ^ 20) : highPmm.isSet r := by
  unfold highPmm
  rw [pmmSetup_isSet _ _ _ _ (by decide)]
  by_cases hu : Usable (findMaxPage [tightRam, highRam]) [tightRam, highRam] r
  · refine Or.inr ⟨?_, ?_⟩
    · obtain ⟨e, he, h1, h2⟩ := hu
      have hbytes : bitmapBytesFor (findMaxPage [tightRam, highRam]) = 0x20001 := by decide
      rw [hbytes]
      have hk : smallImage.physicalStart = 0x100000 ∧ smallImage.physicalEnd = 0x110000 := ⟨rfl, rfl⟩
      unfold Reserved
      rw [hk.1, hk.2]
      rcases List.mem_cons.mp he with rfl | he
      · have hc : clearRange (findMaxPage [tightRam, highRam]) tightRam = (0x100, 0x131) := by
          decide
        rw [hc] at h1 h2
        simp only at h1 h2
        omega
      · have he' : e = highRam := by simpa using he
        subst he'
        have hc : clearRange (findMaxPage [tightRam, highRam]) highRam = (0x100000, 0x100001) := by
          decide
        rw [hc] at h1 h2
        simp only at h1 h2
        omega
    · have hm : findMaxPage [tightRam, highRam] = 0x100001 := by decide
      omega
  · refine Or.inl ⟨Or.inl ?_, hu⟩
    have hbytes : bitmapBytesFor (findMaxPage [tightRam, highRam]) = 0x20001 := by decide
    omega

theorem highMem_clear : ¬ highPmm.isSet 0x100000 := by
  unfold highPmm
  rw [pmmSetup_isSet _ _ _ _ (by decide)]
  intro h
  rcases h with ⟨_, h⟩ | ⟨h, _⟩
  · exact h ⟨highRam, by simp, by decide, by decide⟩
  · revert h
    unfold Reserved
    decide

/-- Exactly the pages from `a` on are free. -/
structure FreeFrom (p : Pmm) (a : Nat) : Prop where
  pos : 1 ≤ a
  low : p.maxPage ≤ 2 ^ 20
  set : ∀ r, 1 ≤ r → r < p.maxPage → (p.isSet r ↔ r < a)

/-- Below page `b`, exactly the pages from `a` on are free. -/
structure FreeUpTo (p : Pmm) (a b : Nat) : Prop where
  pos : 1 ≤ a
  low : b ≤ 2 ^ 20
  max : b ≤ p.maxPage
  set : ∀ r, 1 ≤ r → r < b → (p.isSet r ↔ r < a)

/-- The two states differ below page `b` only. -/
structure SameAbove (b : Nat) (p p' : Pmm) : Prop where
  maxPage : p'.maxPage = p.maxPage
  set : ∀ r, b ≤ r → (p'.isSet r ↔ p.isSet r)

theorem SameAbove.refl (b : Nat) (p : Pmm) : SameAbove b p p := ⟨rfl, fun _ _ => Iff.rfl⟩

theorem SameAbove.trans {b : Nat} {p p' p'' : Pmm} (h : SameAbove b p p')
    (h' : SameAbove b p' p'') : SameAbove b p p'' :=
  ⟨h'.maxPage.trans h.maxPage, fun r hr => (h'.set r hr).trans (h.set r hr)⟩

/-- Then the pages are handed out in order. -/
theorem FreeUpTo.alloc {p : Pmm} {a b : Nat} (h : FreeUpTo p a b) (ha : a < b) :
    pmmAllocPage p = (a * 4096, takePage p a) ∧ FreeUpTo (takePage p a) (a + 1) b ∧
      SameAbove b p (takePage p a) := by
  have hlow := h.low
  have hmax := h.max
  refine ⟨?_, ⟨by omega, hlow, hmax, fun r h1 h2 => ?_⟩, rfl, fun r hr => ?_⟩
  · rcases pmmAllocPage_cases p with ⟨hall, _⟩ | ⟨i, hi, e⟩
    · exact absurd ((h.set a h.pos ha).mp (hall a h.pos (by omega))) (by omega)
    · have hle := hi.le h.pos fun hs => absurd ((h.set a h.pos ha).mp hs) (by omega)
      have hge : ¬ i < a := fun hlt => hi.2.2.1 ((h.set i hi.1 (by omega)).mpr hlt)
      have : i = a := by omega
      subst this
      rw [e, Nat.mod_eq_of_lt (by omega)]
  · rw [takePage_isSet, h.set r h1 h2]
    omega
  · rw [takePage_isSet]
    exact or_iff_right (by omega)

theorem FreeFrom.upTo {p : Pmm} {a : Nat} (h : FreeFrom p a) : FreeUpTo p a p.maxPage :=
  ⟨h.pos, h.low, Nat.le_refl _, h.set⟩

theorem FreeFrom.alloc {p : Pmm} {a : Nat} (h : FreeFrom p a) (ha : a < p.maxPage) :
    pmmAllocPage p = (a * 4096, takePage p a) ∧ FreeFrom (takePage p a) (a + 1) := by
  obtain ⟨e, h', _⟩ := h.upTo.alloc ha
  exact ⟨e, h'.pos, h.low, h'.set⟩

/-- On the small machine the pages after the bitmap are free. -/
theorem freeFrom_lowRam (m : Mem) :
    (lowPmm m).maxPage = 0x140 ∧ FreeFrom (lowPmm m) 0x111 := by
  have hmax : (lowPmm m).maxPage = 0x140 := by
    unfold lowPmm
    rw [(pmmSetup_geometry _ _ _ _ _).1]
    decide
  refine ⟨hmax, ⟨by decide, by rw [hmax]; decide, fun r h1 h2 => ?_⟩⟩
  rw [hmax] at h2
  have hbytes : bitmapBytesFor (findMaxPage [lowRam]) = 40 := by decide
  have hc : clearRange (findMaxPage [lowRam]) lowRam = (0x100, 0x140) := by decide
  have hu : Usable (findMaxPage [lowRam]) [lowRam] r ↔ 0x100 ≤ r := by
    unfold Usable
    simp only [List.mem_singleton, exists_eq_left, hc]
    omega
  have hmp : findMaxPage [lowRam] = 0x140 := by decide
  unfold lowPmm
  rw [pmmSetup_isSet _ _ _ _ (by decide), hu, hbytes, hmp]
  unfold Reserved FilledSet
  rw [show smallImage.physicalStart = 0x100000 from rfl,
    show smallImage.physicalEnd = 0x110000 from rfl]
  omega

/-- The second allocation of a run on that machine: the page after the first one's. -/
theorem pmmAllocPage_meets_lowMem : ∃ p,
    PmmReach Addressable (lowPmm lowMem) p [0x111000] ∧ (pmmAllocPage p).1 = 0x112000 ∧
    AllocMeets smallImage p [0x111000] := by
  obtain ⟨hmax, hfree⟩ := freeFrom_lowRam lowMem
  obtain ⟨e1, hfree1⟩ := hfree.alloc (by rw [hmax]; decide)
  obtain ⟨e2, _⟩ := hfree1.alloc (by rw [(takePage_geometry _ _).maxPage, hmax]; decide)
  have hreach : PmmReach Addressable (lowPmm lowMem) (takePage (lowPmm lowMem) 0x111)
      [0x111000] := by
    have h := PmmReach.alloc _ _ .boot (addressable_of_maxPage hfree.low)
    rw [e1] at h
    exact h
  refine ⟨_, hreach, by rw [e2], ?_⟩
  exact (pmmAllocPage_meets_iff pmmInit_lowMem hreach).mpr (addressable_of_maxPage hfree1.low)

/-- **With RAM above 4 GiB the promise is broken**: the only free page is number `2^20`, whose
    address is cut to `0` -- the caller is told that memory is exhausted, and the page is gone. -/
theorem pmmAllocPage_loses_page :
    ¬ ∀ (m : Mem) (img : KernelImage) (mbi : MultibootInfo) (p0 p : Pmm) (out : List Nat),
      pmmInit m img mbi = .ok p0 → PmmReach (fun _ => True) p0 p out → AllocMeets img p out := by
  intro h
  have hm := h _ _ _ _ _ _ pmmInit_highMem .boot
  have hmax : highPmm.maxPage = 0x100001 := by
    unfold highPmm
    rw [(pmmSetup_geometry _ _ _ _ _).1]
    decide
  rcases pmmAllocPage_cases highPmm with ⟨hall, _⟩ | ⟨i, hi, e⟩
  · exact highMem_clear (hall 0x100000 (by decide) (by rw [hmax]; decide))
  · have hle := hi.le (by decide) highMem_clear
    have hge : 2 ^ 20 ≤ i := by
      by_contra hlt
      exact hi.2.2.1 (highMem_isSet i (by omega))
    have hi20 : i = 0x100000 := by omega
    subst hi20
    exact highMem_clear ((hm.exhausted (by rw [e]; rfl)).1 0x100000 (by decide) (by rw [hmax]; decide))

end Emyx
