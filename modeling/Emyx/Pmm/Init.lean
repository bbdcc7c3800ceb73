/-
  File:      Emyx/Pmm/Init.lean
  Subject:   `pmm_init` (pmm.c): sizing and placing the bitmap, clearing the usable pages,
             reserving the bitmap, the kernel and page 0.

  * `findMaxPage`, `findSegment`, `checkKernelLocation` -- the readers of the memory map before
    the bitmap is filled, over the entries the walk of `Emyx/Multiboot.lean` visits;
  * `clearUsablePages` -- the one reader after it. It walks the buffer again, in a memory that has
    the bitmap in it: `find_segment` keeps the bitmap off the buffer, but an entry that starts
    before the buffer's end and reaches past it may lie under the bitmap;
  * `Reread` -- the entries that walk meets, and `reread_entries`: they are the map's own when none
    of them reaches under the bitmap;
  * `pmmInit` -- the whole, with its three panics, the fault of a bitmap that leaves the direct
    map, and the ways the walks fail to end;
  * `pmmInit_ok` -- what is known when `pmm_init` completes: the bitmap's place and `pmmSetup`,
    the state it leaves;
  * `pmmSetup_isSet` -- every bit of that state.
-/
import Emyx.Multiboot
import Emyx.Pmm.Bitmap

namespace Emyx

open Lib

/-! ## 1. Placing the bitmap -/

/-- `align_up` -/
def alignUp (addr size : Nat) : Nat := (addr + size - 1) % 2 ^ 32 &&& (2 ^ 32 - 1 - (size - 1))

/-- One turn of the loop of `find_max_page`. -/
def maxPageStep (maxPage : Nat) (e : MmapEntry) : Nat :=
  if e.type = 1 then
    let entryMaxPage := ((e.addr + e.len) % 2 ^ 64) >>> 12
    if entryMaxPage > maxPage then entryMaxPage else maxPage
  else maxPage

/-- `find_max_page`: the last page index, cut to 32 bits on return. -/
def findMaxPage (es : List MmapEntry) : Nat := es.foldl maxPageStep 0 % 2 ^ 32

theorem maxPageStep_ge (n : Nat) (e : MmapEntry) :
    n ≤ maxPageStep n e ∧ (e.type = 1 → (e.addr + e.len) % 2 ^ 64 / 4096 ≤ maxPageStep n e) := by
  unfold maxPageStep
  simp only [Nat.shiftRight_eq_div_pow]
  split_ifs <;> omega

theorem maxPageStep_loop_le {es : List MmapEntry} (h : RamBelow4G es) :
    es.foldl maxPageStep 0 ≤ 2 ^ 20 := by
  refine List.foldlRecOn (motive := fun n => n ≤ 2 ^ 20) es _ (by decide) fun n hn e he => ?_
  unfold maxPageStep
  simp only [Nat.shiftRight_eq_div_pow]
  split_ifs with ht
  · have := h e he ht
    omega
  · exact hn
  · exact hn

theorem findMaxPage_le {es : List MmapEntry} (h : RamBelow4G es) : findMaxPage es ≤ 2 ^ 20 :=
  Nat.le_trans (Nat.mod_le _ _) (maxPageStep_loop_le h)

/-- The loop of `find_max_page` ends no lower than it starts, and no lower than the page where a
    type 1 region ends. -/
theorem maxPageStep_loop_ge (es : List MmapEntry) (n : Nat) :
    n ≤ es.foldl maxPageStep n ∧
      ∀ e ∈ es, e.type = 1 → (e.addr + e.len) % 2 ^ 64 / 4096 ≤ es.foldl maxPageStep n := by
  induction es generalizing n with
  | nil => exact ⟨Nat.le_refl n, fun e he => absurd he List.not_mem_nil⟩
  | cons a es ih =>
    obtain ⟨h1, h2⟩ := maxPageStep_ge n a
    obtain ⟨h3, h4⟩ := ih (maxPageStep n a)
    refine ⟨Nat.le_trans h1 h3, fun e he ht => ?_⟩
    rcases List.mem_cons.mp he with rfl | he
    · exact Nat.le_trans (h2 ht) h3
    · exact h4 e he ht

/-- A type 1 region below 4 GiB ends at or before `pmm_max_page`. -/
theorem findMaxPage_ge {es : List MmapEntry} (hlow : RamBelow4G es) {e : MmapEntry} (he : e ∈ es)
    (ht : e.type = 1) : (e.addr + e.len) / 4096 ≤ findMaxPage es := by
  have hle := maxPageStep_loop_le hlow
  have hend := (maxPageStep_loop_ge es 0).2 e he ht
  have hlim := hlow e he ht
  rw [Nat.mod_eq_of_lt (show e.addr + e.len < 2 ^ 64 by omega)] at hend
  unfold findMaxPage
  rw [Nat.mod_eq_of_lt (by omega)]
  exact hend

/-- `ranges_overlap` -/
def rangesOverlap (aStart aEnd bStart bEnd : Nat) : Bool := aStart < bEnd && bStart < aEnd

/-- The inner loop of `find_segment`, from the candidate `start`: past the kernel, the multiboot
    info or the map buffer when it meets one of them. A jump goes to one of three addresses, so a
    loop that has jumped five times never ends. -/
def findInRegion (img : KernelImage) (mbi : MultibootInfo) (bytes eend : Nat) :
    Nat → Nat → Except Stop (Option Nat)
  | 0, _ => .error .hang
  | fuel + 1, start =>
    let stop := (start + bytes) % 2 ^ 32
    let mbiEnd := mbi.addr + MultibootInfo.size
    let mmapEnd := (mbi.mmapAddr + mbi.mmapLength) % 2 ^ 32
    if stop ≤ eend then
      if rangesOverlap start stop img.physicalStart img.physicalEnd then
        findInRegion img mbi bytes eend fuel (alignUp img.physicalEnd 4096)
      else if rangesOverlap start stop mbi.addr mbiEnd then
        findInRegion img mbi bytes eend fuel (alignUp mbiEnd 4096)
      else if rangesOverlap start stop mbi.mmapAddr mmapEnd then
        findInRegion img mbi bytes eend fuel (alignUp mmapEnd 4096)
      else return some start
    else return none

/-- `find_segment`; `0` when no region has room. -/
def findSegment (img : KernelImage) (mbi : MultibootInfo) (bytes : Nat) :
    List MmapEntry → Except Stop Nat
  | [] => return 0
  | e :: es =>
    if e.type ≠ 1 then findSegment img mbi bytes es
    else do
      let estart := if e.addr = 0 then 1 else e.addr % 2 ^ 32
      let eend := (e.addr + e.len) % 2 ^ 32
      match ← findInRegion img mbi bytes eend 6 (alignUp estart 4096) with
      | some start => return start
      | none => findSegment img mbi bytes es

/-- `overlap_bytes` -/
def overlapBytes (e : MmapEntry) (start stop : Nat) : Nat :=
  if e.type ≠ 1 then 0
  else
    let eend := (e.addr + e.len) % 2 ^ 64
    let maxStart := if e.addr > start then e.addr else start
    let minEnd := if eend < stop then eend else stop
    if maxStart ≥ minEnd then 0 else minEnd - maxStart

/-- `check_kernel_location` -/
def checkKernelLocation (img : KernelImage) (es : List MmapEntry) : Except Stop Unit :=
  let kernelOverlap := es.foldl
    (fun n e => (n + overlapBytes e img.physicalStart img.physicalEnd) % 2 ^ 64) 0
  if kernelOverlap < img.physicalEnd - img.physicalStart then
    .error (.panic "pmm: kernel not fully located in usable RAM")
  else return ()

/-! ## 2. Clearing the usable pages -/

/-- The page range `clear_usable_pages` clears for one entry: start and end are shifted apart,
    cut to 32 bits and clamped to `pmm_max_page`. -/
def clearRange (maxPage : Nat) (e : MmapEntry) : Nat × Nat :=
  if e.type = 1 then
    let startPage := (e.addr >>> 12) % 2 ^ 32
    let regionPages := (e.len >>> 12) % 2 ^ 32
    let endPage := (startPage + regionPages) % 2 ^ 32
    if startPage ≥ maxPage then (0, 0)
    else (startPage, if endPage > maxPage ∨ endPage < startPage then maxPage else endPage)
  else (0, 0)

/-- How many pages the loop of `clear_usable_pages` clears for one entry. -/
def clearedLength (maxPage : Nat) (e : MmapEntry) : Nat :=
  (clearRange maxPage e).2 - (clearRange maxPage e).1

/-- The pages of that loop. -/
def clearedRange (maxPage : Nat) (e : MmapEntry) : List Nat :=
  List.range' (clearRange maxPage e).1 (clearedLength maxPage e)

/-- The entry's pages cleared in the bitmap. -/
def clearEntry (p : Pmm) (e : MmapEntry) : Pmm :=
  (clearedRange p.maxPage e).foldl bitmapClear p

/-- The pages of the entries `us` cleared in turn, and the sum `usable_pages` of their numbers. -/
def clearEntries (st : Pmm × Nat) (us : List MmapEntry) : Pmm × Nat :=
  us.foldl (fun st e => (clearEntry st.1 e, (st.2 + clearedLength st.1.maxPage e) % 2 ^ 32)) st

/-- The page is in the range some entry clears. -/
def Usable (maxPage : Nat) (es : List MmapEntry) (page : Nat) : Prop :=
  ∃ e ∈ es, (clearRange maxPage e).1 ≤ page ∧ page < (clearRange maxPage e).2

/-- Cleared pages are below `pmm_max_page`. -/
theorem Usable.lt {maxPage r : Nat} {es : List MmapEntry} (h : Usable maxPage es r) :
    r < maxPage := by
  obtain ⟨e, _, h1, h2⟩ := h
  unfold clearRange at h1 h2
  simp only at h1 h2
  split_ifs at h1 h2 <;> simp only at h1 h2 <;> omega

theorem foldl_bitmapClear (l : List Nat) (p : Pmm) :
    SameGeometry p (l.foldl bitmapClear p) ∧
    ∀ r, (l.foldl bitmapClear p).isSet r ↔ p.isSet r ∧ r ∉ l := by
  induction l generalizing p with
  | nil => exact ⟨.refl p, by simp⟩
  | cons q l ih =>
    obtain ⟨hg, hs⟩ := ih (bitmapClear p q)
    have hq : SameGeometry p (bitmapClear p q) := ⟨rfl, rfl, rfl⟩
    refine ⟨hq.trans hg, fun r => ?_⟩
    rw [List.foldl_cons, hs, isSet_bitmapClear, List.mem_cons, not_or]
    exact ⟨fun ⟨⟨h1, h2⟩, h3⟩ => ⟨h2, h1, h3⟩, fun ⟨h1, h2, h3⟩ => ⟨⟨h2, h1⟩, h3⟩⟩

theorem clearEntry_isSet (p : Pmm) (e : MmapEntry) :
    SameGeometry p (clearEntry p e) ∧
    ∀ r, (clearEntry p e).isSet r ↔
      p.isSet r ∧ ¬ ((clearRange p.maxPage e).1 ≤ r ∧ r < (clearRange p.maxPage e).2) := by
  obtain ⟨hg, hs⟩ := foldl_bitmapClear (clearedRange p.maxPage e) p
  refine ⟨hg, fun r => (hs r).trans (and_congr_right fun _ => not_congr ?_)⟩
  unfold clearedRange clearedLength
  rw [List.mem_range'_1]
  omega

/-- Clearing the entries clears the pages of their ranges and no other. -/
theorem clearEntries_isSet (us : List MmapEntry) (st : Pmm × Nat) :
    SameGeometry st.1 (clearEntries st us).1 ∧
    ∀ r, (clearEntries st us).1.isSet r ↔ st.1.isSet r ∧ ¬ Usable st.1.maxPage us r := by
  unfold clearEntries
  induction us generalizing st with
  | nil => exact ⟨.refl st.1, by simp [Usable]⟩
  | cons e us ih =>
    rw [List.foldl_cons]
    obtain ⟨hg0, hs0⟩ := clearEntry_isSet st.1 e
    obtain ⟨hg, hs⟩ := ih (clearEntry st.1 e, (st.2 + clearedLength st.1.maxPage e) % 2 ^ 32)
    refine ⟨hg0.trans hg, fun r => ?_⟩
    rw [hs, hs0, hg0.maxPage, and_assoc]
    refine and_congr_right fun _ => ?_
    unfold Usable
    rw [List.exists_mem_cons_iff, not_or]

/-! ## 3. `clear_usable_pages` -/

/-- Physical memory with the bitmap in it. (`Pmm.bitmap` goes on behind the bitmap's last byte with
    what memory holds there, so no upper bound is needed.) -/
def Pmm.memory (p : Pmm) (m : Mem) : Mem := fun x =>
  if p.bitmapBase ≤ x then p.bitmap (x - p.bitmapBase) else m x

/-- `bitmap_clear` under the bootstrap tables, where the byte has to lie in the direct map. -/
def bootBitmapClear (p : Pmm) (page : Nat) : Except Stop Pmm :=
  if p.bitmapBase + page / 8 < 0x1000000 then .ok (bitmapClear p page)
  else .error (.pageFault (0xC0000000 + p.bitmapBase + page / 8))

/-- The loop of `clear_usable_pages`. Each entry is read from memory as the fill and the turns
    before left it, and its size once more when its own pages are cleared. The pointer takes at
    most `2^32` values and the bits, fewer than `2^27`, are only ever cleared, so a loop of more
    than `2^60` turns never ends. -/
def clearUsableFrom (m : Mem) (stop : Nat) : Nat → Nat → Pmm → Nat → Except Stop (Pmm × Nat)
  | 0, _, _, _ => .error .hang
  | fuel + 1, ptr, p, usable =>
    if ptr < stop then
      if BootReadable ptr 24 then do
        let e := entryAt (p.memory m) ptr
        let p' ← (clearedRange p.maxPage e).foldlM bootBitmapClear p
        clearUsableFrom m stop fuel (mmapNext ptr (entryAt (p'.memory m) ptr).size) p'
          ((usable + clearedLength p.maxPage e) % 2 ^ 32)
      else .error (.pageFault ptr)
    else return (p, usable)

/-- `clear_usable_pages`, with the count it returns. -/
def clearUsablePages (m : Mem) (mbi : MultibootInfo) (p : Pmm) : Except Stop (Pmm × Nat) :=
  clearUsableFrom m mbi.mmapStop (2 ^ 60) (vmmPhysToVirt mbi.mmapAddr) p 0

/-- The entries `us` are those the loop meets from `ptr` on when the bitmap is `p`. -/
inductive Reread (m : Mem) (stop : Nat) : Nat → Pmm → List MmapEntry → Prop where
  | done {ptr : Nat} {p : Pmm} : stop ≤ ptr → Reread m stop ptr p []
  | entry {ptr : Nat} {p : Pmm} {us : List MmapEntry} : ptr < stop → BootReadable ptr 24 →
      Reread m stop
        (mmapNext ptr
          (entryAt ((clearEntry p (entryAt (p.memory m) ptr)).memory m) ptr).size)
        (clearEntry p (entryAt (p.memory m) ptr)) us →
      Reread m stop ptr p (entryAt (p.memory m) ptr :: us)

/-- One turn, for an entry that reads as `e`. -/
theorem Reread.turn {m : Mem} {stop ptr : Nat} {p : Pmm} {e : MmapEntry} {us : List MmapEntry}
    (hlt : ptr < stop) (hread : BootReadable ptr 24) (he : entryAt (p.memory m) ptr = e)
    (he' : entryAt ((clearEntry p e).memory m) ptr = e)
    (h : Reread m stop (mmapNext ptr e.size) (clearEntry p e) us) :
    Reread m stop ptr p (e :: us) := by
  rw [← show (entryAt ((clearEntry p e).memory m) ptr).size = e.size by rw [he']] at h
  subst he
  exact .entry hlt hread h

/-- There is one list of them. -/
theorem Reread.unique {m : Mem} {stop ptr : Nat} {p : Pmm} {us us' : List MmapEntry}
    (h : Reread m stop ptr p us) (h' : Reread m stop ptr p us') : us = us' := by
  induction h generalizing us' with
  | done hge =>
    cases h' with
    | done _ => rfl
    | entry hlt _ _ => omega
  | entry hlt _ _ ih =>
    cases h' with
    | done hge => omega
    | entry _ _ h' => rw [ih h']

theorem foldlM_bootBitmapClear {l : List Nat} {p p' : Pmm}
    (h : l.foldlM bootBitmapClear p = .ok p') : p' = l.foldl bitmapClear p := by
  induction l generalizing p with
  | nil =>
    cases h
    rfl
  | cons q l ih =>
    rw [List.foldlM_cons] at h
    obtain ⟨p1, h1, h2⟩ := bind_ok.mp h
    unfold bootBitmapClear at h1
    split at h1
    · cases h1
      exact ih h2
    · cases h1

/-- A loop that ends has cleared the entries it met. -/
theorem clearUsableFrom_ok {m : Mem} {stop fuel ptr : Nat} {p : Pmm} {usable : Nat}
    {st : Pmm × Nat} (h : clearUsableFrom m stop fuel ptr p usable = .ok st) :
    ∃ us, Reread m stop ptr p us ∧ st = clearEntries (p, usable) us := by
  induction fuel generalizing ptr p usable with
  | zero => cases h
  | succ fuel ih =>
    unfold clearUsableFrom at h
    split at h
    · rename_i hlt
      split at h
      · rename_i hrd
        obtain ⟨p', hp', h⟩ := bind_ok.mp h
        cases foldlM_bootBitmapClear hp'
        obtain ⟨us, hus, rfl⟩ := ih h
        exact ⟨_, .entry hlt hrd hus, rfl⟩
      · cases h
    · rename_i hge
      cases h
      exact ⟨[], .done (by omega), rfl⟩

/-- Behind the bitmap memory is as the boot loader left it, and the bitmap has a bit for every page
    there is. -/
structure Pmm.Over (p : Pmm) (m : Mem) : Prop where
  behind : ∀ i, p.bitmapBytes ≤ i → p.bitmap i = m (p.bitmapBase + i)
  room : p.maxPage ≤ 8 * p.bitmapBytes

/-- Outside the bitmap's place the two memories agree. -/
theorem Pmm.Over.memory_eq {p : Pmm} {m : Mem} (h : p.Over m) {x : Nat}
    (hx : x < p.bitmapBase ∨ p.bitmapBase + p.bitmapBytes ≤ x) : p.memory m x = m x := by
  unfold Pmm.memory
  by_cases hb : p.bitmapBase ≤ x
  · rw [if_pos hb, h.behind _ (by omega), Nat.add_sub_cancel' hb]
  · rw [if_neg hb]

theorem Pmm.Over.bitmapClear {p : Pmm} {m : Mem} (h : p.Over m) {page : Nat}
    (hp : page < p.maxPage) : (Emyx.bitmapClear p page).Over m := by
  have hroom := h.room
  refine ⟨fun i hi => ?_, hroom⟩
  have hi' : p.bitmapBytes ≤ i := hi
  show Function.update p.bitmap (page / 8) _ i = m (p.bitmapBase + i)
  rw [Function.update_of_ne (by omega), h.behind i hi']

theorem clearedRange_lt {maxPage page : Nat} {e : MmapEntry} (h : page ∈ clearedRange maxPage e) :
    page < maxPage := by
  unfold clearedRange clearedLength at h
  rw [List.mem_range'_1] at h
  exact Usable.lt ⟨e, List.mem_singleton_self e, h.1, by omega⟩

theorem foldl_bitmapClear_over {m : Mem} {l : List Nat} {p : Pmm} (h : p.Over m)
    (hl : ∀ q ∈ l, q < p.maxPage) : (l.foldl bitmapClear p).Over m := by
  induction l generalizing p with
  | nil => exact h
  | cons q l ih =>
    exact ih (h.bitmapClear (hl q List.mem_cons_self))
      (fun r hr => hl r (List.mem_cons_of_mem q hr))

theorem clearEntry_over {m : Mem} {p : Pmm} (h : p.Over m) (e : MmapEntry) :
    (clearEntry p e).Over m :=
  foldl_bitmapClear_over h fun _ => clearedRange_lt

/-- In the direct map no clear faults. -/
theorem foldlM_bootBitmapClear_of {l : List Nat} {p : Pmm}
    (hl : ∀ q ∈ l, p.bitmapBase + q / 8 < 0x1000000) :
    l.foldlM bootBitmapClear p = .ok (l.foldl bitmapClear p) := by
  induction l generalizing p with
  | nil => rfl
  | cons q l ih =>
    rw [List.foldlM_cons]
    refine bind_ok.mpr ⟨bitmapClear p q, if_pos (hl q List.mem_cons_self), ?_⟩
    exact ih fun r hr => hl r (List.mem_cons_of_mem q hr)

/-- A loop whose bitmap lies in the direct map, and that meets finitely many entries, ends. -/
theorem Reread.clearUsableFrom {m : Mem} {stop ptr : Nat} {p : Pmm} {us : List MmapEntry}
    (h : Reread m stop ptr p us) {fuel : Nat} (hf : us.length < fuel) (hp : p.Over m)
    (hlim : p.bitmapBase + p.bitmapBytes ≤ 0x1000000) (usable : Nat) :
    Emyx.clearUsableFrom m stop fuel ptr p usable = .ok (clearEntries (p, usable) us) := by
  induction h generalizing fuel usable with
  | done hge =>
    obtain ⟨fuel, rfl⟩ := Nat.exists_eq_add_one_of_ne_zero (Nat.ne_of_gt hf)
    unfold Emyx.clearUsableFrom
    rw [if_neg (by omega)]
    rfl
  | @entry ptr p us hlt hrd _ ih =>
    obtain ⟨fuel, rfl⟩ := Nat.exists_eq_add_one_of_ne_zero (Nat.ne_zero_of_lt hf)
    rw [List.length_cons] at hf
    have hroom := hp.room
    have hg := (clearEntry_isSet p (entryAt (p.memory m) ptr)).1
    unfold Emyx.clearUsableFrom
    rw [if_pos hlt, if_pos hrd]
    refine bind_ok.mpr ⟨clearEntry p (entryAt (p.memory m) ptr), ?_, ?_⟩
    · refine foldlM_bootBitmapClear_of fun q hq => ?_
      have := clearedRange_lt hq
      omega
    · exact ih (by omega) (clearEntry_over hp _) (by rw [hg.base, hg.bytes]; exact hlim) _

/-- The 24 bytes of the entry at `ptr` miss the `bytes` bytes at `base`. -/
def EntryClear (base bytes ptr : Nat) : Prop :=
  ¬ rangesOverlap base (base + bytes) (bootPhys ptr) (bootPhys ptr + 24)

instance (base bytes ptr : Nat) : Decidable (EntryClear base bytes ptr) :=
  inferInstanceAs (Decidable (¬ _))

/-- An entry off the bitmap reads the same. -/
theorem Pmm.Over.entryAt_eq {p : Pmm} {m : Mem} (h : p.Over m) {ptr : Nat}
    (hc : EntryClear p.bitmapBase p.bitmapBytes ptr) :
    entryAt (p.memory m) ptr = entryAt m ptr := by
  unfold EntryClear rangesOverlap at hc
  rw [Bool.and_eq_true, decide_eq_true_eq, decide_eq_true_eq] at hc
  exact entryAt_congr fun i hi => h.memory_eq (by omega)

/-- **Read again, a map is the same when none of its entries reaches under the bitmap.** -/
theorem reread_entries {m : Mem} {stop fuel ptr : Nat} {p : Pmm} {ptrs : List Nat} (h : p.Over m)
    (hw : mmapPtrs m stop fuel ptr = .ok ptrs)
    (hc : ∀ q ∈ ptrs, EntryClear p.bitmapBase p.bitmapBytes q) :
    Reread m stop ptr p (ptrs.map (entryAt m)) := by
  induction fuel generalizing ptr p ptrs with
  | zero => cases hw
  | succ fuel ih =>
    unfold mmapPtrs at hw
    split at hw
    · rename_i hlt
      split at hw
      · rename_i hread
        obtain ⟨rest, hrest, hw⟩ := bind_ok.mp hw
        cases hw
        have hg := (clearEntry_isSet p (entryAt m ptr)).1
        have hover := clearEntry_over h (entryAt m ptr)
        have hptr := hc ptr List.mem_cons_self
        refine .turn hlt hread (h.entryAt_eq hptr)
          (hover.entryAt_eq (by rw [hg.base, hg.bytes]; exact hptr)) (ih hover hrest fun q hq => ?_)
        rw [hg.base, hg.bytes]
        exact hc q (List.mem_cons_of_mem ptr hq)
      · cases hw
    · rename_i hge
      cases hw
      exact .done (by omega)

theorem mmapPtrs_length {m : Mem} {stop fuel ptr : Nat} {ptrs : List Nat}
    (h : mmapPtrs m stop fuel ptr = .ok ptrs) : ptrs.length < fuel := by
  induction fuel generalizing ptr ptrs with
  | zero => cases h
  | succ fuel ih =>
    unfold mmapPtrs at h
    split at h
    · split at h
      · obtain ⟨rest, hrest, h⟩ := bind_ok.mp h
        cases h
        have := ih hrest
        rw [List.length_cons]
        omega
      · cases h
    · cases h
      exact Nat.succ_pos fuel

/-- No entry the walk over the map meets reaches into the `bytes` bytes at `base`. -/
structure EntriesClear (m : Mem) (mbi : MultibootInfo) (base bytes : Nat) : Prop where
  clear : ∀ ptrs, mmapPtrs m mbi.mmapStop (2 ^ 32 + 1) (vmmPhysToVirt mbi.mmapAddr) = .ok ptrs →
    ∀ ptr ∈ ptrs, EntryClear base bytes ptr

theorem entriesClear_iff {m : Mem} {mbi : MultibootInfo} {base bytes : Nat} {ptrs : List Nat}
    (h : mmapPtrs m mbi.mmapStop (2 ^ 32 + 1) (vmmPhysToVirt mbi.mmapAddr) = .ok ptrs) :
    (∀ ptr ∈ ptrs, EntryClear base bytes ptr) ↔ EntriesClear m mbi base bytes := by
  refine ⟨fun hc => ⟨fun ptrs' h' => ?_⟩, fun hc => hc.clear ptrs h⟩
  cases h.symm.trans h'
  exact hc

instance (m : Mem) (mbi : MultibootInfo) (base bytes : Nat) :
    Decidable (EntriesClear m mbi base bytes) :=
  match h : mmapPtrs m mbi.mmapStop (2 ^ 32 + 1) (vmmPhysToVirt mbi.mmapAddr) with
  | .ok _ => decidable_of_iff _ (entriesClear_iff h)
  | .error _ => isTrue ⟨fun _ h' => by rw [h] at h'; cases h'⟩

/-- The walk of `clear_usable_pages` over such a map. -/
theorem EntriesClear.reread {m : Mem} {mbi : MultibootInfo} {p : Pmm} {es : List MmapEntry}
    (h : EntriesClear m mbi p.bitmapBase p.bitmapBytes) (hp : p.Over m)
    (hes : mmapEntries m mbi = .ok es) :
    Reread m mbi.mmapStop (vmmPhysToVirt mbi.mmapAddr) p es ∧ es.length < 2 ^ 60 := by
  unfold mmapEntries at hes
  rw [mmapWalk_eq] at hes
  cases hw : mmapPtrs m mbi.mmapStop (2 ^ 32 + 1) (vmmPhysToVirt mbi.mmapAddr) with
  | error stop =>
    rw [hw] at hes
    cases hes
  | ok ptrs =>
    rw [hw] at hes
    cases hes
    have hlen := mmapPtrs_length hw
    refine ⟨reread_entries hp hw (h.clear ptrs hw), ?_⟩
    rw [List.length_map]
    omega

/-! ## 4. `pmm_init` -/

/-- `pmm_bitmap_bytes` for a `pmm_max_page` (the sum wraps at `2^32`). -/
def bitmapBytesFor (maxPage : Nat) : Nat := (maxPage + 7) % 2 ^ 32 / 8

/-- The bitmap filled, before the usable pages are cleared. -/
def pmmFilled (m : Mem) (es : List MmapEntry) (base : Nat) : Pmm :=
  { bitmap := fun i => if i < bitmapBytesFor (findMaxPage es) then 0xFF else m (base + i)
    bitmapBase := base
    bitmapBytes := bitmapBytesFor (findMaxPage es)
    maxPage := findMaxPage es
    totalPages := 0
    freePages := 0 }

/-- `pmm_total_pages = usable_pages; pmm_free_pages = usable_pages;` -/
def withCount (cleared : Pmm × Nat) : Pmm :=
  { cleared.1 with totalPages := cleared.2, freePages := cleared.2 }

/-- The reservations: the bitmap, the kernel, and page 0, so that address 0 is never handed out. -/
def pmmReserve (img : KernelImage) (p : Pmm) : Pmm :=
  let bitmapReserved := reserveSegment p p.bitmapBase (p.bitmapBase + p.bitmapBytes)
  let kernelReserved := reserveSegment bitmapReserved img.physicalStart img.physicalEnd
  reservePage kernelReserved 0

/-- `pmm_init` -/
def pmmInit (m : Mem) (img : KernelImage) (mbi : MultibootInfo) : Except Stop Pmm := do
  checkMmap m mbi
  let es ← mmapEntries m mbi
  let base ← findSegment img mbi (bitmapBytesFor (findMaxPage es)) es
  if base = 0 then .error (.panic "pmm: pages bitmap does not fit in RAM\n")
  else do
    checkKernelLocation img es
    if vmmPhysToVirt base = 0 then .error (.panic "pmm: bitmap is outside direct map")
    -- only the first byte was checked: the fill faults where the direct map ends
    else if base + bitmapBytesFor (findMaxPage es) > 0x1000000 then
      .error (.pageFault 0xC1000000)
    else do
      let cleared ← clearUsablePages m mbi (pmmFilled m es base)
      return pmmReserve img (withCount cleared)

/-- The pages of the entries `us` cleared and counted, before the reservations. -/
def pmmCounted (m : Mem) (es us : List MmapEntry) (base : Nat) : Pmm :=
  withCount (clearEntries (pmmFilled m es base, 0) us)

/-- What `pmm_init` leaves: the bitmap sized for the entries `es` and placed at `base`, the pages
    of the entries `us` cleared. -/
def pmmSetup (m : Mem) (img : KernelImage) (es us : List MmapEntry) (base : Nat) : Pmm :=
  pmmReserve img (pmmCounted m es us base)

theorem pmmCounted_geometry (m : Mem) (es us : List MmapEntry) (base : Nat) :
    SameGeometry (pmmFilled m es base) (pmmCounted m es us base) := by
  have hg := (clearEntries_isSet us (pmmFilled m es base, 0)).1
  exact ⟨hg.maxPage, hg.base, hg.bytes⟩

theorem pmmSetup_eq (m : Mem) (img : KernelImage) (es us : List MmapEntry) (base : Nat) :
    pmmSetup m img es us base =
      reservePage (reserveSegment (reserveSegment (pmmCounted m es us base) base
        (base + bitmapBytesFor (findMaxPage es))) img.physicalStart img.physicalEnd) 0 := by
  have hg := pmmCounted_geometry m es us base
  unfold pmmSetup pmmReserve
  rw [hg.base, hg.bytes]
  rfl

/-- **What is known when `pmm_init` completes.** -/
theorem pmmInit_ok {m : Mem} {img : KernelImage} {mbi : MultibootInfo} {p : Pmm}
    (h : pmmInit m img mbi = .ok p) :
    ∃ es us base, mmapEntries m mbi = .ok es ∧
      findSegment img mbi (bitmapBytesFor (findMaxPage es)) es = .ok base ∧
      base ≠ 0 ∧ base + bitmapBytesFor (findMaxPage es) ≤ 0x1000000 ∧
      Reread m mbi.mmapStop (vmmPhysToVirt mbi.mmapAddr) (pmmFilled m es base) us ∧
      p = pmmSetup m img es us base := by
  unfold pmmInit at h
  obtain ⟨_, _, h⟩ := bind_ok.mp h
  obtain ⟨es, hes, h⟩ := bind_ok.mp h
  obtain ⟨base, hbase, h⟩ := bind_ok.mp h
  rw [ite_error_ok] at h
  obtain ⟨h0, h⟩ := h
  obtain ⟨_, _, h⟩ := bind_ok.mp h
  rw [ite_error_ok, ite_error_ok] at h
  obtain ⟨_, hlim, h⟩ := h
  obtain ⟨cleared, hcleared, h⟩ := bind_ok.mp h
  cases h
  obtain ⟨us, hus, rfl⟩ := clearUsableFrom_ok hcleared
  exact ⟨es, us, base, hes, hbase, h0, by omega, hus, rfl⟩

/-- Filled, the bitmap covers its own bytes only, unless `pmm_max_page + 7` wrapped. -/
theorem pmmFilled_over (m : Mem) {es : List MmapEntry} (hmax : findMaxPage es + 7 < 2 ^ 32)
    (base : Nat) : (pmmFilled m es base).Over m := by
  refine ⟨fun i hi => if_neg (Nat.not_lt.mpr hi), ?_⟩
  show findMaxPage es ≤ 8 * ((findMaxPage es + 7) % 2 ^ 32 / 8)
  omega

/-- `pmm_init` completes when each of its checks passes and its last walk over the map ends. -/
theorem pmmInit_of {m : Mem} {img : KernelImage} {mbi : MultibootInfo} {es us : List MmapEntry}
    {base : Nat} (hc : checkMmap m mbi = .ok ()) (hes : mmapEntries m mbi = .ok es)
    (hbase : findSegment img mbi (bitmapBytesFor (findMaxPage es)) es = .ok base)
    (h0 : base ≠ 0) (hk : checkKernelLocation img es = .ok ())
    (hlim : base + bitmapBytesFor (findMaxPage es) ≤ 0x1000000) (hlt : base < 0x1000000)
    (hmax : findMaxPage es + 7 < 2 ^ 32)
    (hr : Reread m mbi.mmapStop (vmmPhysToVirt mbi.mmapAddr) (pmmFilled m es base) us)
    (hlen : us.length < 2 ^ 60) :
    pmmInit m img mbi = .ok (pmmSetup m img es us base) := by
  unfold pmmInit
  refine bind_ok.mpr ⟨_, hc, bind_ok.mpr ⟨es, hes, bind_ok.mpr ⟨base, hbase, ?_⟩⟩⟩
  rw [if_neg h0]
  refine bind_ok.mpr ⟨_, hk, ?_⟩
  rw [if_neg (by rw [vmmPhysToVirt_eq_zero]; omega), if_neg (by omega)]
  exact bind_ok.mpr ⟨_, hr.clearUsableFrom hlen (pmmFilled_over m hmax base) hlim 0, rfl⟩

/-- On a map with no entry under the bitmap, `pmm_init` clears the pages of the map's entries. -/
theorem pmmInit_clear {m : Mem} {img : KernelImage} {mbi : MultibootInfo} {es : List MmapEntry}
    {base : Nat} (hc : checkMmap m mbi = .ok ()) (hes : mmapEntries m mbi = .ok es)
    (hbase : findSegment img mbi (bitmapBytesFor (findMaxPage es)) es = .ok base)
    (h0 : base ≠ 0) (hk : checkKernelLocation img es = .ok ())
    (hlim : base + bitmapBytesFor (findMaxPage es) ≤ 0x1000000) (hlt : base < 0x1000000)
    (hmax : findMaxPage es + 7 < 2 ^ 32)
    (hclear : EntriesClear m mbi base (bitmapBytesFor (findMaxPage es))) :
    pmmInit m img mbi = .ok (pmmSetup m img es es base) := by
  obtain ⟨hr, hlen⟩ := EntriesClear.reread (p := pmmFilled m es base) hclear
    (pmmFilled_over m hmax base) hes
  exact pmmInit_of hc hes hbase h0 hk hlim hlt hmax hr hlen

/-- The geometry `pmm_init` leaves. -/
theorem pmmSetup_geometry (m : Mem) (img : KernelImage) (es us : List MmapEntry) (base : Nat) :
    (pmmSetup m img es us base).maxPage = findMaxPage es ∧
    (pmmSetup m img es us base).bitmapBase = base ∧
    (pmmSetup m img es us base).bitmapBytes = bitmapBytesFor (findMaxPage es) := by
  have h1 := reserveSegment_geometry (pmmCounted m es us base) base
    (base + bitmapBytesFor (findMaxPage es))
  have h2 := reserveSegment_geometry (reserveSegment (pmmCounted m es us base) base
    (base + bitmapBytesFor (findMaxPage es))) img.physicalStart img.physicalEnd
  have h3 := (pmmCounted_geometry m es us base).trans
    (h1.trans (h2.trans (reservePage_geometry _ 0)))
  rw [pmmSetup_eq]
  exact ⟨h3.maxPage, h3.base, h3.bytes⟩

/-- The page is one `pmm_init` reserves: it meets the bitmap or the kernel, or is page 0. -/
def Reserved (img : KernelImage) (base bytes page : Nat) : Prop :=
  base / 4096 ≤ page ∧ page * 4096 < base + bytes ∨
  img.physicalStart / 4096 ≤ page ∧ page * 4096 < img.physicalEnd ∨ page = 0

/-- The bit is set before the usable pages are cleared: the fill reached it, or (when
    `pmm_max_page + 7` wrapped and the bitmap was sized too small) the memory behind it had it. -/
def FilledSet (m : Mem) (base bytes page : Nat) : Prop :=
  page / 8 < bytes ∨ (m (base + page / 8)).getLsbD (page % 8) = true

theorem pmmFilled_isSet (m : Mem) (es : List MmapEntry) (base r : Nat) :
    (pmmFilled m es base).isSet r ↔
      FilledSet m base (bitmapBytesFor (findMaxPage es)) r := by
  rw [Pmm.isSet_iff]
  unfold FilledSet pmmFilled
  by_cases h : r / 8 < bitmapBytesFor (findMaxPage es)
  · have h8 : r % 8 < 8 := Nat.mod_lt _ (by decide)
    simp only [h, if_true, true_or, iff_true]
    interval_cases r % 8 <;> rfl
  · simp [h]

theorem pmmCounted_isSet (m : Mem) (es us : List MmapEntry) (base r : Nat) :
    (pmmCounted m es us base).isSet r ↔
      FilledSet m base (bitmapBytesFor (findMaxPage es)) r ∧ ¬ Usable (findMaxPage es) us r := by
  rw [← pmmFilled_isSet]
  exact (clearEntries_isSet us (pmmFilled m es base, 0)).2 r

/-- **Every bit `pmm_init` leaves.** -/
theorem pmmSetup_isSet (m : Mem) (img : KernelImage) (es us : List MmapEntry) {base : Nat}
    (hb : base + bitmapBytesFor (findMaxPage es) ≤ 0x1000000) (r : Nat) :
    (pmmSetup m img es us base).isSet r ↔
      (FilledSet m base (bitmapBytesFor (findMaxPage es)) r ∧ ¬ Usable (findMaxPage es) us r) ∨
      (Reserved img base (bitmapBytesFor (findMaxPage es)) r ∧ r < findMaxPage es) := by
  have hk := img.linked
  have hmax : (pmmCounted m es us base).maxPage = findMaxPage es :=
    (pmmCounted_geometry m es us base).maxPage
  rw [pmmSetup_eq, reservePage_isSet, reserveSegment_isSet _ (by omega),
    reserveSegment_isSet _ (by omega)]
  simp only [(reserveSegment_geometry _ _ _).maxPage, hmax, pmmCounted_isSet]
  unfold Reserved
  constructor
  · intro h
    rcases h with ((h | h) | h) | h
    · exact Or.inl h
    · exact Or.inr ⟨Or.inl ⟨h.1, h.2.1⟩, h.2.2⟩
    · exact Or.inr ⟨Or.inr (Or.inl ⟨h.1, h.2.1⟩), h.2.2⟩
    · exact Or.inr ⟨Or.inr (Or.inr h.1), by omega⟩
  · intro h
    rcases h with h | ⟨h | h | h, h'⟩
    · exact Or.inl (Or.inl (Or.inl h))
    · exact Or.inl (Or.inl (Or.inr ⟨h.1, h.2, h'⟩))
    · exact Or.inl (Or.inr ⟨h.1, h.2, h'⟩)
    · exact Or.inr ⟨h, by omega⟩

end Emyx
