/-
  File:      Emyx/Vmm/Init.lean
  Subject:   `vmm_init` ESTABLISHES THE INVARIANT.

  * `TablesUpTo p0 kd k` -- the kernel directory at `kd` after `k` turns of the loop: entries
    768 … 768 + k - 1 hold tables of their own, each mapping its 4 MiB; every other entry is empty;
  * `initTable_step` -- one turn;
  * **`vmmInit_spec`** -- with all RAM below 4 GiB, the state `vmm_init` returns satisfies `VmInv`,
    has no address space, and maps the direct map and nothing else;
  * `Booted` -- `pmm_init` and `vmm_init` have completed on a memory map with all RAM below 4 GiB.
-/
import Emyx.Vmm.Invariant

namespace Emyx

open Lib

variable {κ : Type} {p0 : Pmm}

/-- The state of the tables while `vmm_init` runs. -/
def bootMm (kd : Nat) (st : Mem × Pmm) : Mm :=
  { mem := st.1, pmm := st.2, kernelPageDirectory := kd, list := 0, heapPages := [], spaces := [],
    strayDestroys := 0 }

/-- No client holds a page. -/
def noneHeld (_ : κ) : Option Nat := none

structure TablesUpTo (κ : Type) (p0 : Pmm) (kd k : Nat) (st : Mem × Pmm) : Prop where
  pmm : PmmOk p0 st.2
  own : Own (@frameOf κ (bootMm kd st) noneHeld) (Allocated p0 st.2)
  limit : kd + 4096 ≤ 0x1000000
  empty : ∀ i, i < 1024 → ¬ (768 ≤ i ∧ i < 768 + k) → tableOf st.1 kd i = none
  filled : ∀ i, 768 ≤ i → i < 768 + k → ∃ t, dirWord st.1 kd i = t + 3 ∧
    tableOf st.1 kd i = some t ∧ t + 4096 ≤ 0x1000000 ∧
    ∀ j, j < 1024 → rd32 st.1 (t + 4 * j) = (i - 768) * 4194304 + j * 4096 + 3

theorem isDir_bootMm {kd d : Nat} {st : Mem × Pmm} : IsDir (bootMm kd st) d ↔ d = kd :=
  or_iff_left List.not_mem_nil

theorem bootMm_dir (kd d : Nat) (st : Mem × Pmm) :
    frameOf (bootMm kd st) noneHeld (.dir d : Role κ) = if d = kd then some d else none :=
  if_congr isDir_bootMm rfl rfl

theorem bootMm_table (kd d i : Nat) (st : Mem × Pmm) :
    frameOf (bootMm kd st) noneHeld (.table d i : Role κ) =
      if d = kd ∧ i < 1024 then tableOf st.1 kd i else none := by
  by_cases hd : d = kd
  · subst hd
    have hown : ownEntries (bootMm d st) d = 1024 := if_pos rfl
    exact if_congr (and_congr isDir_bootMm (by rw [hown])) rfl rfl
  · exact (if_neg fun h => hd (isDir_bootMm.mp h.1)).trans (if_neg fun h => hd h.1).symm

/-- The first state of the loop: a cleared directory. -/
theorem tablesUpTo_zero {f : Nat} {p' : Pmm} (m : Mem) (hf : Fresh p0 p0 f p')
    (hlim : f + 4096 ≤ 0x1000000) : TablesUpTo κ p0 f 0 (memset m f 0 4096, p') := by
  have hempty : ∀ i, i < 1024 → tableOf (memset m f 0 4096) f i = none := fun i hi => by
    unfold tableOf dirWord
    rw [rd32_memset_zero (by omega) (by omega)]
    rfl
  have hnone : Own (fun _ : Role κ => none) (Allocated p0 p0) :=
    ⟨(fun h => by cases h), fun g => ⟨fun h => absurd h (not_allocated_self p0 g),
      fun ⟨_, h⟩ => by cases h⟩⟩
  refine ⟨hf.ok, hnone.add (r := .dir f) rfl hf.new ?_ (fun r hr => ?_) hf.taken, hlim,
    fun i hi _ => hempty i hi, fun i h1 h2 => by omega⟩
  · rw [bootMm_dir, if_pos rfl]
  · cases r with
    | client c => rfl
    | dir d => rw [bootMm_dir, if_neg fun e => hr (by rw [e])]
    | table d i =>
      rw [bootMm_table]
      split
      · exact hempty i (by omega)
      · rfl

/-- **One turn of the loop** adds the table for the next 4 MiB. -/
theorem initTable_step {kd k : Nat} {st st' : Mem × Pmm} (h : TablesUpTo κ p0 kd k st)
    (hlow : p0.maxPage ≤ 2 ^ 20) (hk : k < 256) (e : initTable kd st k = .ok st') :
    TablesUpTo κ p0 kd (k + 1) st' := by
  obtain ⟨m, p⟩ := st
  unfold initTable at e
  rcases fresh_alloc h.pmm (addressable_of_maxPage (h.pmm.maxPage.symm ▸ hlow)) with
    e0 | ⟨t, p', e0, hpos, hf⟩
  · rw [e0] at e
    cases e
  rw [e0] at e
  simp only at e
  rw [if_neg (by omega)] at e
  by_cases hlt : t < 0x1000000
  · rw [vmmPhysToVirt_of_lt hlt, if_neg (by omega)] at e
    have hta := hf.aligned
    have hkd := h.own.mem (show frameOf (bootMm kd (m, p)) noneHeld (.dir kd : Role κ) = some kd by
      rw [bootMm_dir, if_pos rfl])
    have hka := hkd.aligned
    have hne : t ≠ kd := fun e => hf.new (e ▸ hkd)
    have hold : ∀ i t', i < 1024 → tableOf m kd i = some t' → t' ≠ t ∧ t' ≠ kd ∧ t' % 4096 = 0 :=
      fun i t' hi ht' => by
        have hr : frameOf (bootMm kd (m, p)) noneHeld (.table kd i : Role κ) = some t' := by
          rw [bootMm_table, if_pos ⟨rfl, hi⟩]
          exact ht'
        refine ⟨fun e => hf.new (e ▸ h.own.mem hr), fun e => ?_, (h.own.mem hr).aligned⟩
        have hd : frameOf (bootMm kd (m, p)) noneHeld (.dir kd : Role κ) = some t' := by
          rw [bootMm_dir, if_pos rfl, e]
        cases h.own.inj hr hd
    cases e
    rw [frame_or_flags hta (by decide)]
    -- the table is filled first, then the directory entry is written
    generalize hm1 : fillWords (memset m t 0 4096) t 1024
      (fun j => (k * (1024 * 4096) + j * 4096) ||| 0x3) = m1
    have hsame : ∀ f, f % 4096 = 0 → f ≠ t → SamePage m m1 f := fun f hfa hft => by
      rw [← hm1]
      exact (samePage_memset hfa hta hft).trans (agreeOn_put fun x hx hin => by omega)
    have hdir : ∀ i, i < 1024 → dirWord (wr32 m1 (kd + 4 * (768 + k)) (t + 3)) kd i =
        if i = 768 + k then t + 3 else dirWord m kd i := fun i hi => by
      unfold dirWord
      split
      · rename_i e
        rw [e, rd32_wr32, Nat.mod_eq_of_lt (by omega)]
      · rw [rd32_wr32_outside (by omega)]
        exact dirWord_congr (hsame kd hka hne.symm) hi
    have htab : ∀ i, i < 1024 → i ≠ 768 + k →
        tableOf (wr32 m1 (kd + 4 * (768 + k)) (t + 3)) kd i = tableOf m kd i := fun i hi hik =>
      tableOf_congr ((hdir i hi).trans (if_neg hik))
    have hnew : tableOf (wr32 m1 (kd + 4 * (768 + k)) (t + 3)) kd (768 + k) = some t := by
      rw [tableOf_of_word ((hdir _ (by omega)).trans (if_pos rfl)) (by omega),
        entryFrame_eq (by omega)]
      congr 1
      omega
    refine ⟨hf.ok, ?_, h.limit, fun i hi hik => ?_, fun i h1 h2 => ?_⟩
    · refine h.own.add (r := .table kd (768 + k)) ?_ hf.new ?_ (fun r hr => ?_) hf.taken
      · rw [bootMm_table, if_pos ⟨rfl, by omega⟩]
        exact h.empty _ (by omega) (by omega)
      · rw [bootMm_table, if_pos ⟨rfl, by omega⟩]
        exact hnew
      · cases r with
        | client c => rfl
        | dir d => rw [bootMm_dir, bootMm_dir]
        | table d i =>
          rw [bootMm_table, bootMm_table]
          split
          · rename_i hd
            exact htab i hd.2 fun e => hr (by rw [hd.1, e])
          · rfl
    · exact (htab i hi (by omega)).trans (h.empty i hi (by omega))
    · by_cases e : i = 768 + k
      · subst e
        refine ⟨t, (hdir _ (by omega)).trans (if_pos rfl), hnew, by omega, fun j hj => ?_⟩
        rw [rd32_wr32_outside (by omega), ← hm1, rd32_fillWords hj,
          frame_or_flags (by omega) (by decide)]
        omega
      · obtain ⟨t', hd', ht', hlim', hw⟩ := h.filled i h1 (by omega)
        obtain ⟨h1', h2', h3'⟩ := hold i t' (by omega) ht'
        refine ⟨t', ((hdir i (by omega)).trans (if_neg e)).trans hd',
          (htab i (by omega) e).trans ht', hlim', fun j hj => ?_⟩
        rw [rd32_wr32_outside (by omega), (hsame t' h3' h1').word hj]
        exact hw j hj
  · rw [vmmPhysToVirt_of_ge (by omega), if_pos rfl] at e
    cases e

/-- **The map after `k` turns**: the first `k` times 4 MiB at `0xC0000000`, and nothing else. -/
theorem TablesUpTo.walk_eq {kd k : Nat} {st : Mem × Pmm} (h : TablesUpTo κ p0 kd k st)
    (hk : k ≤ 256) {v : Nat} (hv : v < 2 ^ 32) :
    walk st.1 kd v = if 0xC0000000 ≤ v ∧ v < 0xC0000000 + k * 4194304 then some (v - 0xC0000000)
      else none := by
  have hi := pdeIndex_eq v
  have hj := pteIndex_eq v
  unfold walk
  by_cases hr : 0xC0000000 ≤ v ∧ v < 0xC0000000 + k * 4194304
  · obtain ⟨t, _, ht, _, hw⟩ := h.filled (pdeIndex v) (by omega) (by omega)
    have hword : pteWord st.1 kd (pdeIndex v) (pteIndex v) =
        (v - 0xC0000000) / 4096 * 4096 + 3 := by
      rw [pteWord_of_table ht, hw _ (pteIndex_lt _)]
      omega
    have hphys : ((v - 0xC0000000) / 4096 * 4096 + 3) / 4096 * 4096 + v % 4096 = v - 0xC0000000 := by
      omega
    rw [if_pos hr, hword, if_pos (by omega), entryFrame_eq (by omega), hphys]
  · rw [if_neg hr, pteWord_of_none (h.empty _ (pdeIndex_lt v) (by omega))]
    rfl

/-- After the loop the direct map is in place. -/
theorem TablesUpTo.directMap {kd : Nat} {st : Mem × Pmm} (h : TablesUpTo κ p0 kd 4 st) :
    DirectMap (bootMm kd st) := by
  intro x hx
  show walk st.1 kd (0xC0000000 + x) = some x
  rw [h.walk_eq (by decide) (by omega), if_pos (by omega), Nat.add_sub_cancel_left]

/-- `vmm_init` leaves a kernel directory with all its tables filled. -/
theorem vmmInit_tables_limit (hlow : p0.maxPage ≤ 2 ^ 20) {m : Mem} {s : Mm} {limit : Nat}
    (hlim : limit ≤ 0x40000000) (e : vmmInit m p0 limit = .ok s) :
    limit % 4194304 = 0 ∧ ∃ kd st, TablesUpTo κ p0 kd (limit / 4194304) st ∧ s = bootMm kd st := by
  unfold vmmInit at e
  rw [ite_error_ok, ite_error_ok, not_not] at e
  obtain ⟨-, hmul, e⟩ := e
  refine ⟨hmul, ?_⟩
  rcases fresh_alloc (PmmOk.refl p0) (addressable_of_maxPage hlow) with
    e0 | ⟨kd, p', e0, hpos, hf⟩
  · rw [e0] at e
    cases e
  rw [e0] at e
  simp only at e
  rw [if_neg (by omega)] at e
  by_cases hlt : kd < 0x1000000
  · rw [vmmPhysToVirt_of_lt hlt, if_neg (by omega)] at e
    obtain ⟨st, e1, e2⟩ := bind_ok.mp e
    have h : TablesUpTo κ p0 kd (limit / 4194304) st := foldlM_range_ok
      (fun k st st' hk hst => initTable_step hst hlow (by omega))
      (tablesUpTo_zero m hf (by have := hf.aligned; omega)) e1
    cases e2
    exact ⟨kd, st, h, rfl⟩
  · rw [vmmPhysToVirt_of_ge (by omega), if_pos rfl] at e
    cases e

theorem vmmInit_tables (hlow : p0.maxPage ≤ 2 ^ 20) {m : Mem} {s : Mm}
    (e : vmmInit m p0 0x1000000 = .ok s) : ∃ kd st, TablesUpTo κ p0 kd 4 st ∧ s = bootMm kd st :=
  (vmmInit_tables_limit hlow (by decide) e).2

/-- **`vmm_init` establishes the invariant.** -/
theorem vmmInit_spec (hlow : p0.maxPage ≤ 2 ^ 20) {m : Mem} {s : Mm}
    (e : vmmInit m p0 0x1000000 = .ok s) :
    VmInv p0 (noneHeld : κ → Option Nat) s ∧ s.spaces = [] ∧ s.list = 0 ∧ s.heapPages = [] ∧
    s.strayDestroys = 0 ∧
    ∀ i, i < 1024 → ¬ (768 ≤ i ∧ i < 772) → tableOf s.mem s.kernelPageDirectory i = none := by
  obtain ⟨kd, st, h, rfl⟩ := @vmmInit_tables κ p0 hlow m s e
  have htab : ∀ i t, i < 1024 → tableOf st.1 kd i = some t → t + 4096 ≤ 0x1000000 :=
    fun i t hi ht => by
      by_cases hik : 768 ≤ i ∧ i < 772
      · obtain ⟨t', _, ht', hlim, _⟩ := h.filled i hik.1 hik.2
        rw [Option.some.inj (ht.symm.trans ht')]
        exact hlim
      · rw [h.empty i hi hik] at ht
        cases ht
  refine ⟨⟨h.pmm, hlow, h.own, List.nodup_singleton kd, fun d hd => ?_, fun d i t hd hi ht => ?_,
    fun d hd => absurd hd List.not_mem_nil, h.directMap⟩, rfl, rfl, rfl, rfl, h.empty⟩
  · rw [isDir_bootMm.mp hd]
    exact h.limit
  · rw [isDir_bootMm.mp hd] at ht
    exact htab i t (Nat.lt_of_lt_of_le hi (ownEntries_le _ d).2) ht

/-- The direct map is present and writable, and closed to user code. -/
theorem vmmInit_words (hlow : p0.maxPage ≤ 2 ^ 20) {m : Mem} {s : Mm}
    (e : vmmInit m p0 0x1000000 = .ok s) {i : Nat} (h1 : 768 ≤ i) (h2 : i < 772) :
    ∃ t, dirWord s.mem s.kernelPageDirectory i = t + 3 ∧
      tableOf s.mem s.kernelPageDirectory i = some t ∧ ∀ j, j < 1024 →
        pteWord s.mem s.kernelPageDirectory i j = (i - 768) * 4194304 + j * 4096 + 3 := by
  obtain ⟨kd, st, h, rfl⟩ := @vmmInit_tables Unit p0 hlow m s e
  obtain ⟨t, hd, ht, _, hw⟩ := h.filled i h1 h2
  exact ⟨t, hd, ht, fun j hj => (pteWord_of_table ht j).trans (hw j hj)⟩

/-! ## Booting -/

/-- The kernel has run `pmm_init` and `vmm_init`, and all RAM of the memory map is below 4 GiB. -/
structure Booted (m : Mem) (img : KernelImage) (mbi : MultibootInfo) (p0 : Pmm) (s : Mm) : Prop where
  below : ∀ es, mmapEntries m mbi = .ok es → RamBelow4G es
  pmmInit : pmmInit m img mbi = .ok p0
  vmmInit : vmmInit m p0 0x1000000 = .ok s

theorem Booted.low {m : Mem} {img : KernelImage} {mbi : MultibootInfo} {s : Mm}
    (h : Booted m img mbi p0 s) : p0.maxPage ≤ 2 ^ 20 := by
  obtain ⟨es, us, base, hes, _, _, _, _, rfl⟩ := pmmInit_ok h.pmmInit
  rw [(pmmSetup_geometry m img es us base).1]
  exact findMaxPage_le (h.below es hes)

/-- The loop of `vmm_init` takes the next `k` free pages. -/
theorem initTable_freeUpTo {p : Pmm} {a b : Nat} (m : Mem) (kd : Nat) (h : FreeUpTo p a b)
    (hlim : b ≤ 0x1000) {k : Nat} (ha : a + k ≤ b) :
    ∃ m' p', (List.range k).foldlM (initTable kd) (m, p) = .ok (m', p') ∧ FreeUpTo p' (a + k) b ∧
      SameAbove b p p' := by
  induction k with
  | zero => exact ⟨m, p, rfl, h, .refl b p⟩
  | succ k ih =>
    obtain ⟨m1, p1, e, h1, habove⟩ := ih (by omega)
    obtain ⟨e1, h2, habove1⟩ := h1.alloc (by omega)
    have hpos := h.pos
    have hstep : ∃ m', initTable kd (m1, p1) k = .ok (m', takePage p1 (a + k)) := by
      unfold initTable
      rw [e1]
      simp only
      rw [if_neg (by omega), if_neg (by rw [vmmPhysToVirt_eq_zero]; omega)]
      exact ⟨_, rfl⟩
    obtain ⟨m', e2⟩ := hstep
    refine ⟨m', takePage p1 (a + k), ?_, h2, habove.trans habove1⟩
    rw [List.range_succ, List.foldlM_append, e, ok_bind, List.foldlM_cons, e2]
    rfl

/-- `vmm_init` completes where five low pages are free. -/
theorem vmmInit_freeUpTo {p : Pmm} {a b : Nat} (m : Mem) (h : FreeUpTo p a b) (ha : a + 5 ≤ b)
    (hlim : b ≤ 0x1000) :
    ∃ s, vmmInit m p 0x1000000 = .ok s ∧ FreeUpTo s.pmm (a + 5) b ∧ SameAbove b p s.pmm := by
  obtain ⟨e0, h0, habove0⟩ := h.alloc (by omega)
  obtain ⟨m', p', e, h', habove⟩ := initTable_freeUpTo (memset m (a * 4096) 0 4096) (a * 4096) h0
    hlim (show a + 1 + 4 ≤ b by omega)
  have hpos := h.pos
  unfold vmmInit
  rw [if_neg (by decide), if_neg (by decide), e0]
  simp only
  rw [if_neg (by omega), if_neg (by rw [vmmPhysToVirt_eq_zero]; omega)]
  exact ⟨_, bind_ok.mpr ⟨_, e, rfl⟩, h', habove0.trans habove⟩

/-- A machine with 256 KiB of RAM boots, and the pages from `0x116` on are free. -/
theorem booted_lowRam {m : Mem} {mbi : MultibootInfo} (hes : mmapEntries m mbi = .ok [lowRam])
    (hinit : pmmInit m smallImage mbi = .ok (lowPmm m)) :
    ∃ s, Booted m smallImage mbi (lowPmm m) s ∧
      FreeFrom s.pmm 0x116 ∧ s.pmm.maxPage = 0x140 := by
  obtain ⟨hmax, hfree⟩ := freeFrom_lowRam m
  obtain ⟨s, e, hs, habove⟩ := vmmInit_freeUpTo m hfree.upTo (by rw [hmax]; decide)
    (by rw [hmax]; decide)
  have hm := habove.maxPage.trans hmax
  refine ⟨s, ⟨fun es hes' => ?_, hinit, e⟩, ⟨hs.pos, ?_, fun r h1 h2 => ?_⟩, hm⟩
  rotate_left
  · rw [hm]
    decide
  · exact hs.set r h1 (by rwa [habove.maxPage] at h2)
  cases hes.symm.trans hes'
  intro e he _
  rw [List.mem_singleton.mp he]
  decide

/-- The small machine boots. -/
theorem booted_lowMem : ∃ s, Booted lowMem smallImage (mapInfo 1)
      (lowPmm lowMem) s ∧
    FreeFrom s.pmm 0x116 ∧ s.pmm.maxPage = 0x140 :=
  booted_lowRam (by decide +kernel) pmmInit_lowMem

end Emyx
