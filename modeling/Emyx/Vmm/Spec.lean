/-
  File:      Emyx/Vmm/Spec.lean
  Subject:   THE FUNCTIONS OF vmm.c UNDER THE INVARIANT: each returns, keeps `VmInv`, and changes
             what `dirWord` and `pteWord` show only where it says.

  * `vmmGetPaddrIn_eq` -- the lookup is the processor's walk;
  * `vmmMapPageIn_spec`, `vmmUnmapPageIn_spec`, `vmmMapPage_spec` -- the mapping calls;
  * `vmmCreateAddressSpace_spec`, `vmmDestroyAddressSpace_spec`.

  Pages held by clients keep their contents through all of them.
-/
import Emyx.Vmm.Invariant

namespace Emyx

open Lib

variable {κ : Type} {p0 : Pmm} {held : κ → Option Nat} {s : Mm}

/-! ## 1. Lookups -/

theorem land_one_ne {w : Nat} : w &&& 1 ≠ 0 ↔ w % 2 = 1 := by
  rw [land_one_eq]
  omega

theorem land_one_zero {w : Nat} : w &&& 1 = 0 ↔ ¬ w % 2 = 1 := by
  rw [land_one_eq]
  omega

theorem land_page_zero {v : Nat} : v &&& (4096 - 1) ≠ 0 ↔ v % 4096 ≠ 0 := by
  rw [show 4096 - 1 = 2 ^ 12 - 1 from rfl, Nat.and_two_pow_sub_one_eq_mod]

theorem land_offset (v : Nat) : v &&& 0xfff = v % 4096 := by
  rw [show 0xfff = 2 ^ 12 - 1 from rfl, Nat.and_two_pow_sub_one_eq_mod]

/-- The pointer to a directory. -/
theorem VmInv.dirPtr (h : VmInv p0 held s) {d : Nat} (hd : IsDir s d) :
    vmmPhysToVirt d = 0xC0000000 + d :=
  vmmPhysToVirt_of_lt (by have := h.dirLimit d hd; omega)

theorem VmInv.loadDir (h : VmInv p0 held s) {d i : Nat} (hd : IsDir s d) (hi : i < 1024) :
    s.load (0xC0000000 + d) i = .ok (dirWord s.mem d i) := h.direct.load (h.dirLimit d hd) hi

/-- The kernel can read the entries of the directory `d` for the address `v`. -/
structure ReadsEntries (s : Mm) (d v : Nat) : Prop where
  pos : 0 < d
  low : d < 0x1000000
  dir : s.load (0xC0000000 + d) (pdeIndex v) = .ok (dirWord s.mem d (pdeIndex v))
  table : ∀ t, tableOf s.mem d (pdeIndex v) = some t → t < 0x1000000 ∧
    s.load (0xC0000000 + t) (pteIndex v) = .ok (rd32 s.mem (t + 4 * pteIndex v))

theorem ReadsEntries.getPageTable {d v : Nat} (h : ReadsEntries s d v) :
    vmmGetPageTableIn s d v =
      .ok (match tableOf s.mem d (pdeIndex v) with | some t => 0xC0000000 + t | none => 0) := by
  have hpos := h.pos
  unfold vmmGetPageTableIn
  rw [if_neg (by omega), vmmPhysToVirt_of_lt h.low]
  simp only
  rw [if_neg (by omega), h.dir, ok_bind]
  cases ht : tableOf s.mem d (pdeIndex v) with
  | none =>
    rw [if_pos (land_one_zero.mpr (tableOf_none ht))]
    rfl
  | some t =>
    obtain ⟨hp, hf⟩ := tableOf_some ht
    rw [if_neg (fun hz => land_one_zero.mp hz hp), hf, vmmPhysToVirt_of_lt (h.table t ht).1]
    rfl

/-- `vmm_get_paddr_in` does the processor's walk. -/
theorem ReadsEntries.getPaddr {d v : Nat} (h : ReadsEntries s d v) :
    vmmGetPaddrIn s d v = .ok (walk s.mem d v) := by
  unfold vmmGetPaddrIn walk
  rw [h.getPageTable, ok_bind]
  cases ht : tableOf s.mem d (pdeIndex v) with
  | none =>
    rw [pteWord_of_none ht]
    rfl
  | some t =>
    simp only
    rw [if_neg (by omega), (h.table t ht).2, ok_bind, pteWord_of_table ht]
    have hlt := rd32_lt s.mem (t + 4 * pteIndex v)
    generalize rd32 s.mem (t + 4 * pteIndex v) = pte at hlt ⊢
    by_cases hp : pte % 2 = 1
    · rw [if_neg (fun hz => land_one_zero.mp hz hp), if_pos hp, land_offset,
        frame_or_flags (by rw [entryFrame_eq hlt]; omega) (Nat.mod_lt _ (by decide))]
      rfl
    · rw [if_pos (land_one_zero.mpr hp), if_neg hp]
      rfl

theorem VmInv.readsEntries (h : VmInv p0 held s) {d : Nat} (hd : IsDir s d) (v : Nat) :
    ReadsEntries s d v where
  pos := Nat.lt_of_lt_of_le (by decide) (h.dir_pos hd)
  low := by
    have := h.dirLimit d hd
    omega
  dir := h.loadDir hd (pdeIndex_lt v)
  table t ht := by
    have hlim := h.table_limit hd (pdeIndex_lt v) ht
    exact ⟨by omega, h.direct.load hlim (pteIndex_lt v)⟩

theorem vmmGetPageTableIn_eq (h : VmInv p0 held s) {d : Nat} (hd : IsDir s d) (v : Nat) :
    vmmGetPageTableIn s d v =
      .ok (match tableOf s.mem d (pdeIndex v) with | some t => 0xC0000000 + t | none => 0) :=
  (h.readsEntries hd v).getPageTable

/-- **`vmm_get_paddr_in` is the processor's walk.** -/
theorem vmmGetPaddrIn_eq (h : VmInv p0 held s) {d : Nat} (hd : IsDir s d) (v : Nat) :
    vmmGetPaddrIn s d v = .ok (walk s.mem d v) := (h.readsEntries hd v).getPaddr

/-! ## 2. `vmm_map_page_in` -/

/-- The page allocator's answers under the invariant: none, a frame out of the direct map's reach,
    or one in it. -/
theorem VmInv.allocPage_cases (h : VmInv p0 held s) :
    (pmmAllocPage s.pmm).1 = 0 ∧ s.allocPage = (0, s) ∨
    ∃ f p', pmmAllocPage s.pmm = (f, p') ∧ s.allocPage = (f, { s with pmm := p' }) ∧ 4096 ≤ f ∧
      Fresh p0 s.pmm f p' ∧ VmInv p0 held { s with pmm := pmmFreePage p' f } := by
  unfold Mm.allocPage
  rcases h.alloc with e | ⟨f, p', e, hpos, hf⟩
  · rw [e]
    exact Or.inl ⟨rfl, rfl⟩
  · have hundo := pmmFreePage_undo h.pmm h.addressable (by rw [e]; simp only; omega)
    rw [e] at hundo ⊢
    exact Or.inr ⟨f, p', rfl, rfl, hpos, hf, h.of_pmm hundo.1 hundo.2⟩

/-- The page allocator after a page was asked for and, if there was one, given back. -/
def undoPage (p : Pmm) : Pmm :=
  if (pmmAllocPage p).1 = 0 then p else pmmFreePage (pmmAllocPage p).2 (pmmAllocPage p).1

theorem undoPage_none {p : Pmm} (h : (pmmAllocPage p).1 = 0) : undoPage p = p := if_pos h

theorem undoPage_some {p p' : Pmm} {f : Nat} (e : pmmAllocPage p = (f, p')) (hf : f ≠ 0) :
    undoPage p = pmmFreePage p' f := by
  unfold undoPage
  rw [e, if_neg hf]

/-- It is what it was, but for a counter that said zero while a page was free. -/
theorem undoPage_counter {p : Pmm} (hmax : p.maxPage ≤ 2 ^ 20) (hlt : p.freePages < 2 ^ 32) :
    ∃ n, undoPage p = { p with freePages := n } ∧
      (p.freePages = 0 ∧ (∃ i, FirstClear p i) → n = 1) ∧
      (¬ (p.freePages = 0 ∧ ∃ i, FirstClear p i) → n = p.freePages) := by
  rcases pmmAllocPage_answer hmax with ⟨h0, hfull, -⟩ | ⟨i, hi, -, h0⟩
  · refine ⟨p.freePages, undoPage_none h0, fun hun => ?_, fun _ => rfl⟩
    obtain ⟨-, i, hi⟩ := hun
    exact absurd hfull hi.not_full
  · exact ⟨_, (if_neg h0).trans (pmmFreePage_alloc hmax hlt h0), fun hun => if_pos hun.1,
      fun hun => if_neg fun hz => hun ⟨hz, i, hi⟩⟩

/-- The next page the allocator has to give is none, or out of the direct map's reach. -/
def NoLowPage (s : Mm) : Prop := (pmmAllocPage s.pmm).1 = 0 ∨ 0x1000000 ≤ (pmmAllocPage s.pmm).1

/-- A new table `t`, cleared, behind the empty entry `i` of `d`: nothing that `pteWord` shows has
    changed. -/
structure NewTable (held : κ → Option Nat) (s : Mm) (m' : Mem) (d i t : Nat) : Prop where
  table : tableOf m' d i = some t
  dir : ∀ d' i', IsDir s d' → i' < 1024 → dirWord m' d' i' =
    if d' = d ∧ i' = i then t + 1 else dirWord s.mem d' i'
  pte : ∀ d' i' j, IsDir s d' → i' < 1024 → j < 1024 → pteWord m' d' i' j = pteWord s.mem d' i' j
  clients : ∀ c g, held c = some g → SamePage s.mem m' g
  other : ∀ x, ¬ InPage d x → ¬ InPage t x → m' x = s.mem x

/-- The table behind the entry `i` of `d`, from the page allocator if there is none yet, and the
    page allocator then. -/
def tableFrom (s : Mm) (d i : Nat) : Nat × Pmm :=
  match tableOf s.mem d i with
  | none => pmmAllocPage s.pmm
  | some t => (t, s.pmm)

theorem tableFrom_none {d i : Nat} (h : tableOf s.mem d i = none) :
    tableFrom s d i = pmmAllocPage s.pmm := by
  unfold tableFrom
  rw [h]

theorem tableFrom_some {d i t : Nat} (h : tableOf s.mem d i = some t) :
    tableFrom s d i = (t, s.pmm) := by
  unfold tableFrom
  rw [h]

/-- The table `vmm_map_page_in` writes to: the one there is, none, or a new one. -/
theorem mapTable_spec (h : VmInv p0 held s) {d i : Nat} (hd : IsDir s d) (hi : i < ownEntries s d) :
    (∃ t, tableOf s.mem d i = some t ∧ mapTable s (0xC0000000 + d) i = .ok (0xC0000000 + t, s)) ∨
    (tableOf s.mem d i = none ∧
      ((mapTable s (0xC0000000 + d) i = .ok (0, { s with pmm := undoPage s.pmm }) ∧
        VmInv p0 held { s with pmm := undoPage s.pmm } ∧ NoLowPage s) ∨
      ∃ t p' m', pmmAllocPage s.pmm = (t, p') ∧ mapTable s (0xC0000000 + d) i =
          .ok (0xC0000000 + t, { s with pmm := p', mem := m' }) ∧
        VmInv p0 held { s with pmm := p', mem := m' } ∧ NewTable held s m' d i t)) := by
  have hi4 : i < 1024 := Nat.lt_of_lt_of_le hi (ownEntries_le s d).2
  unfold mapTable
  rw [h.loadDir hd hi4, ok_bind]
  cases ht : tableOf s.mem d i with
  | some t =>
    have hlim := h.table_limit hd hi4 ht
    obtain ⟨hp, hf⟩ := tableOf_some ht
    rw [if_pos (land_one_ne.mpr hp), hf, vmmPhysToVirt_of_lt (by omega)]
    exact Or.inl ⟨t, rfl, rfl⟩
  | none =>
    rw [if_neg fun hz => tableOf_none ht (land_one_ne.mp hz)]
    refine Or.inr ⟨rfl, ?_⟩
    rcases h.allocPage_cases with ⟨h0, e⟩ | ⟨f, p', ep, e, hpos, hf, hfree⟩
    · rw [e, undoPage_none h0]
      exact Or.inl ⟨if_pos rfl, h, Or.inl h0⟩
    · rw [e, undoPage_some ep (by omega)]
      simp only
      rw [if_neg (by omega)]
      by_cases hlt : f < 0x1000000
      · have hfa := hf.aligned
        have hlim : f + 4096 ≤ 0x1000000 := by omega
        obtain ⟨hinv, hdir, hpte, hsame⟩ := h.addTable hd hi ht hf hlim
        have hclear : DirectMap { s with pmm := p' } := h.direct
        have hset : DirectMap { s with pmm := p', mem := memset s.mem f 0 4096 } :=
          (h.of_samePages fun r g hr => samePage_memset (h.aligned hr) hfa
            (h.fresh_ne hf.new hr)).direct
        rw [vmmPhysToVirt_of_lt hlt, if_neg (by omega), hclear.clearPage hlim, ok_bind,
          hset.store (h.dirLimit d hd) hi4, ok_bind]
        refine Or.inr ⟨f, p', _, ep, rfl, hinv, ?_, hdir, hpte, fun c g hc => hsame (.client c) g hc ?_,
          fun x h1 h2 => ?_⟩
        · exact tableOf_present ((hdir d i hd hi4).trans (if_pos ⟨rfl, rfl⟩)) hfa (by omega)
        · exact h.frame_ne (r := .client c) hc (frameOf_dir hd) (by intro e; cases e)
        · unfold InPage at h1 h2
          exact (wr32_outside (by omega)).trans (memset_outside (by omega))
      · rw [vmmPhysToVirt_of_ge (by omega), if_pos rfl]
        exact Or.inl ⟨rfl, hfree, Or.inr (by rw [ep]; exact Nat.le_of_not_lt hlt)⟩

/-- Every entry of the direct map is present. -/
theorem DirectMap.present (h : DirectMap s) {i j : Nat} (h1 : 768 ≤ i) (h2 : i < 772)
    (hj : j < 1024) : pteWord s.mem s.kernelPageDirectory i j % 2 = 1 := by
  have hw := h ((i - 768) * 4194304 + j * 4096) (by omega)
  have e1 : pdeIndex (0xC0000000 + ((i - 768) * 4194304 + j * 4096)) = i := by
    rw [pdeIndex_eq]
    omega
  have e2 : pteIndex (0xC0000000 + ((i - 768) * 4194304 + j * 4096)) = j := by
    rw [pteIndex_eq]
    omega
  unfold walk at hw
  rw [e1, e2] at hw
  split at hw
  · assumption
  · cases hw

/-- What a successful mapping leaves: the entry is `pte`, behind a directory entry with the flags
    added; nothing else that `dirWord` and `pteWord` show has changed. -/
structure Mapped (held : κ → Option Nat) (s : Mm) (m' : Mem) (d i j t flags pte : Nat) : Prop where
  table : tableOf m' d i = some t
  old : ∀ t', tableOf s.mem d i = some t' → t' = t
  dir : dirWord m' d i =
    (if tableOf s.mem d i = none then t + 1 else dirWord s.mem d i) ||| (flags &&& (2 ||| 4))
  dirs : ∀ d' i', IsDir s d' → i' < 1024 → ¬ (d' = d ∧ i' = i) → dirWord m' d' i' = dirWord s.mem d' i'
  pte : ∀ d' i' j', IsDir s d' → i' < 1024 → j' < 1024 → pteWord m' d' i' j' =
    if tableOf m' d' i' = some t ∧ j' = j then pte else pteWord s.mem d' i' j'
  clients : ∀ c g, held c = some g → SamePage s.mem m' g
  other : ∀ x, ¬ InPage d x → ¬ InPage t x → m' x = s.mem x

theorem mapEntry_spec (h : VmInv p0 held s) {d i j t paddr : Nat} (flags : Nat) (hd : IsDir s d)
    (hi : i < ownEntries s d) (ht : tableOf s.mem d i = some t) (hj : j < 1024)
    (hp : paddr < 2 ^ 32) :
    (pteWord s.mem d i j % 2 = 1 ∧
      mapEntry s (0xC0000000 + d) i (0xC0000000 + t) j paddr flags = .ok (-1, s)) ∨
    (pteWord s.mem d i j % 2 = 0 ∧ ∃ m',
      mapEntry s (0xC0000000 + d) i (0xC0000000 + t) j paddr flags = .ok (0, { s with mem := m' }) ∧
      VmInv p0 held { s with mem := m' } ∧
      Mapped held s m' d i j t flags (paddr ||| (flags &&& 0xfff))) := by
  have hi4 : i < 1024 := Nat.lt_of_lt_of_le hi (ownEntries_le s d).2
  have hlim := h.table_limit hd hi4 ht
  unfold mapEntry
  rw [h.direct.load hlim hj, ok_bind, ← pteWord_of_table ht j]
  by_cases hpres : pteWord s.mem d i j % 2 = 1
  · rw [if_pos (land_one_ne.mpr hpres)]
    exact Or.inl ⟨hpres, rfl⟩
  · rw [if_neg fun hz => hpres (land_one_ne.mp hz)]
    refine Or.inr ⟨by omega, ?_⟩
    have hodd := tableOf_some ht
    have hk : flags &&& (2 ||| 4) < 4096 :=
      Nat.lt_of_le_of_lt Nat.and_le_right (show 2 ||| 4 < 4096 by decide)
    obtain ⟨hwlt, hwf, hwp⟩ := entry_or_flags (dirWord_lt s.mem d i) hk
    have hpte : paddr ||| (flags &&& 0xfff) < 2 ^ 32 := Nat.or_lt_two_pow hp
      (Nat.lt_of_le_of_lt Nat.and_le_right (show 0xfff < 2 ^ 32 by decide))
    have hwin : d = s.kernelPageDirectory → ¬ (768 ≤ i ∧ i < 772) := fun e hw => by
      rw [e] at hpres
      exact hpres (h.direct.present hw.1 hw.2 hj)
    -- the directory entry first, the table entry after it
    obtain ⟨h1, hpte1⟩ := h.writeDir hd hi4 ht hwlt (hwp hodd.1) (hwf.trans hodd.2)
    have hdir1 : ∀ d' i', IsDir s d' → i' < 1024 → _ := fun d' i' hd' hi' =>
      h.dirWord_write (w := dirWord s.mem d i ||| (flags &&& (2 ||| 4))) hd hi4 hd' hi'
    rw [h.loadDir hd hi4, ok_bind, h.direct.store (h.dirLimit d hd) hi4, ok_bind]
    generalize hm1 : wr32 s.mem (d + 4 * i) (dirWord s.mem d i ||| (flags &&& (2 ||| 4))) = m1 at *
    have hself : dirWord m1 d i = dirWord s.mem d i ||| (flags &&& (2 ||| 4)) :=
      ((hdir1 d i hd hi4).trans (if_pos ⟨rfl, rfl⟩)).trans (Nat.mod_eq_of_lt hwlt)
    have ht1 : tableOf m1 d i = some t := by
      rw [tableOf_of_word hself (hwp hodd.1), hwf, hodd.2]
    have h2 := h1.writeTable (paddr ||| (flags &&& 0xfff)) hd hi ht1 hj hwin
    obtain ⟨hdir2, hpte2⟩ := h1.words_writeTable (paddr ||| (flags &&& 0xfff)) hd hi4 ht1 hj
    rw [h1.direct.store hlim hj, ok_bind]
    refine ⟨_, rfl, h2, (tableOf_congr (hdir2 d i hd hi4)).trans ht1,
      fun t' ht' => Option.some.inj (ht'.symm.trans ht), ?_, fun d' i' hd' hi' hne => ?_,
      fun d' i' j' hd' hi' hj' => ?_, fun c g hc => ?_, fun x h1 h2 => ?_⟩
    · refine (hdir2 d i hd hi4).trans (hself.trans ?_)
      rw [if_neg fun e => by rw [ht] at e; cases e]
    · refine (hdir2 d' i' hd' hi').trans ?_
      rw [hdir1 d' i' hd' hi', if_neg hne]
    · refine (hpte2 d' i' j' hd' hi' hj').trans ?_
      rw [Nat.mod_eq_of_lt hpte, hpte1 d' i' j' hd' hi' hj', tableOf_congr (hdir2 d' i' hd' hi')]
    · have hcd : g ≠ d := h.frame_ne (r := .client c) hc (frameOf_dir hd) (by intro e; cases e)
      have hct : g ≠ t := h.frame_ne (r := .client c) hc ((frameOf_table hd hi).trans ht)
        (by intro e; cases e)
      have hga : g % 4096 = 0 := h.aligned (r := .client c) hc
      refine SamePage.trans ?_ (samePage_wr32 hga (tableOf_aligned ht) hct hj)
      rw [← hm1]
      exact samePage_wr32 hga (h.dir_aligned hd) hcd hi4
    · unfold InPage at h1 h2
      refine (wr32_outside (by omega)).trans ?_
      rw [← hm1]
      exact wr32_outside (by omega)

/-- The test that keeps address spaces out of the kernel half. -/
theorem not_own_iff {d i : Nat} (hi : i < 1024) :
    (d ≠ s.kernelPageDirectory ∧ i ≥ 768) ↔ ¬ i < ownEntries s d := by
  unfold ownEntries
  split
  · rename_i e
    exact ⟨fun h => absurd e h.1, fun h => absurd hi h⟩
  · rename_i e
    exact ⟨fun h => by omega, fun h => ⟨e, by omega⟩⟩

/-- A well-formed request for a page behind an empty directory entry: it takes a page for the
    table. -/
def NeedsTable (s : Mm) (d v paddr : Nat) : Prop :=
  v % 4096 = 0 ∧ paddr % 4096 = 0 ∧ pdeIndex v < ownEntries s d ∧ tableOf s.mem d (pdeIndex v) = none

instance (s : Mm) (d v paddr : Nat) : Decidable (NeedsTable s d v paddr) :=
  inferInstanceAs (Decidable (_ ∧ _ ∧ _ ∧ _))

/-- **`vmm_map_page_in` refuses, or maps the page.** It refuses a mapped page, and does not refuse
    a well-formed request for an unmapped page behind an existing table. -/
theorem vmmMapPageIn_spec (h : VmInv p0 held s) {d : Nat} (hd : IsDir s d) (v flags : Nat)
    {paddr : Nat} (hp : paddr < 2 ^ 32) :
    (∃ p', vmmMapPageIn s d v paddr flags = .ok (-1, { s with pmm := p' }) ∧
      VmInv p0 held { s with pmm := p' } ∧
      (v % 4096 = 0 → paddr % 4096 = 0 → pdeIndex v < ownEntries s d →
        pteWord s.mem d (pdeIndex v) (pteIndex v) % 2 = 1 ∨
          tableOf s.mem d (pdeIndex v) = none ∧ NoLowPage s) ∧
      p' = if NeedsTable s d v paddr then undoPage s.pmm else s.pmm) ∨
    ∃ t p' m', vmmMapPageIn s d v paddr flags = .ok (0, { s with pmm := p', mem := m' }) ∧
      VmInv p0 held { s with pmm := p', mem := m' } ∧ v % 4096 = 0 ∧ paddr % 4096 = 0 ∧
      pdeIndex v < ownEntries s d ∧ pteWord s.mem d (pdeIndex v) (pteIndex v) % 2 = 0 ∧
      Mapped held s m' d (pdeIndex v) (pteIndex v) t flags (paddr ||| (flags &&& 0xfff)) ∧
      tableFrom s d (pdeIndex v) = (t, p') := by
  have hpos := h.dir_pos hd
  have hi4 := pdeIndex_lt v
  have hj := pteIndex_lt v
  unfold vmmMapPageIn
  simp only [land_page_zero]
  by_cases hv : v % 4096 = 0
  · rw [if_neg (by omega)]
    by_cases hpa : paddr % 4096 = 0
    · rw [if_neg (by omega)]
      by_cases hown : pdeIndex v < ownEntries s d
      · rw [if_neg (fun hc => (not_own_iff hi4).mp hc hown), h.dirPtr hd, if_neg (by omega)]
        rcases mapTable_spec h hd hown with
          ⟨t, ht, e⟩ | ⟨hnone, ⟨e, hinv, hlow⟩ | ⟨t, p', m1, ep, e, hinv, ht⟩⟩
        · rw [e, ok_bind]
          simp only
          rw [if_neg (by omega)]
          rcases mapEntry_spec h flags hd hown ht hj hp with
            ⟨hpres, e2⟩ | ⟨hpres, m', e2, hinv', hmap⟩
          · refine Or.inl ⟨s.pmm, e2, h, fun _ _ _ => Or.inl hpres, (if_neg fun hn => ?_).symm⟩
            cases ht.symm.trans hn.2.2.2
          · exact Or.inr ⟨t, s.pmm, m', e2, hinv', hv, hpa, hown, hpres, hmap, tableFrom_some ht⟩
        · rw [e, ok_bind]
          exact Or.inl ⟨_, if_pos rfl, hinv, fun _ _ _ => Or.inr ⟨hnone, hlow⟩,
            (if_pos ⟨hv, hpa, hown, hnone⟩).symm⟩
        · have hword := ht.pte d _ _ hd hi4 hj
          rw [pteWord_of_none hnone] at hword
          rw [e, ok_bind]
          simp only
          rw [if_neg (by omega)]
          rcases mapEntry_spec hinv flags hd hown ht.table hj hp with
            ⟨hpres, _⟩ | ⟨_, m', e2, hinv', hmap⟩
          · -- a cleared table holds no mapping
            rw [hword] at hpres
            cases hpres
          · refine Or.inr ⟨t, p', m', e2, hinv', hv, hpa, hown, by rw [pteWord_of_none hnone],
              ⟨hmap.table, fun t' ht' => ?_, ?_, fun d' i' hd' hi' hne => ?_,
                fun d' i' j' hd' hi' hj' => ?_,
                fun c g hc => (ht.clients c g hc).trans (hmap.clients c g hc),
                fun x h1 h2 => (hmap.other x h1 h2).trans (ht.other x h1 h2)⟩,
              (tableFrom_none hnone).trans ep⟩
            · rw [hnone] at ht'
              cases ht'
            · have hdir := hmap.dir
              rw [if_neg (by rw [ht.table]; exact fun hc => by cases hc)] at hdir
              rw [hdir, if_pos hnone, ht.dir d _ hd hi4, if_pos ⟨rfl, rfl⟩]
            · rw [hmap.dirs d' i' hd' hi' hne]
              exact (ht.dir d' i' hd' hi').trans (if_neg hne)
            · rw [hmap.pte d' i' j' hd' hi' hj']
              exact if_congr Iff.rfl rfl (ht.pte d' i' j' hd' hi' hj')
      · rw [if_pos ((not_own_iff hi4).mpr hown)]
        exact Or.inl ⟨s.pmm, rfl, h, fun _ _ hc => absurd hc hown,
          (if_neg fun hn => hown hn.2.2.1).symm⟩
    · rw [if_pos hpa]
      exact Or.inl ⟨s.pmm, rfl, h, fun _ hc => absurd hc hpa, (if_neg fun hn => hpa hn.2.1).symm⟩
  · rw [if_pos (Or.inr hv)]
    exact Or.inl ⟨s.pmm, rfl, h, fun hc => absurd hc hv, (if_neg fun hn => hv hn.1).symm⟩

/-! ## 3. `vmm_unmap_page_in` and `vmm_map_page` -/

/-- The entry at `j` of the table behind `i` in `d` is not one of the direct map's. -/
def OffDirectMap (s : Mm) (d i : Nat) : Prop :=
  d = s.kernelPageDirectory → ¬ (768 ≤ i ∧ i < 772)

/-- What clearing an entry of the table `t` leaves. -/
structure Unmapped (held : κ → Option Nat) (s : Mm) (m' : Mem) (t j : Nat) : Prop where
  dirs : ∀ d' i', IsDir s d' → i' < 1024 → dirWord m' d' i' = dirWord s.mem d' i'
  pte : ∀ d' i' j', IsDir s d' → i' < 1024 → j' < 1024 → pteWord m' d' i' j' =
    if tableOf s.mem d' i' = some t ∧ j' = j then 0 else pteWord s.mem d' i' j'
  clients : ∀ c g, held c = some g → SamePage s.mem m' g
  other : ∀ x, ¬ InPage t x → m' x = s.mem x

theorem VmInv.clearEntry (h : VmInv p0 held s) {d i j t : Nat} (hd : IsDir s d)
    (hi : i < ownEntries s d) (ht : tableOf s.mem d i = some t) (hj : j < 1024)
    (hoff : OffDirectMap s d i) :
    s.store (0xC0000000 + t) j 0 = .ok { s with mem := wr32 s.mem (t + 4 * j) 0 } ∧
    VmInv p0 held { s with mem := wr32 s.mem (t + 4 * j) 0 } ∧
    Unmapped held s (wr32 s.mem (t + 4 * j) 0) t j := by
  have hi4 : i < 1024 := Nat.lt_of_lt_of_le hi (ownEntries_le s d).2
  obtain ⟨hdir, hpte⟩ := h.words_writeTable 0 hd hi4 ht hj
  refine ⟨h.direct.store (h.table_limit hd hi4 ht) hj, h.writeTable 0 hd hi ht hj hoff, hdir, hpte,
    fun c g hc => ?_, fun x hx => ?_⟩
  · exact samePage_wr32 (h.aligned (r := .client c) hc) (tableOf_aligned ht)
      (h.frame_ne (r := .client c) hc ((frameOf_table hd hi).trans ht) (by intro e; cases e)) hj
  · unfold InPage at hx
    exact wr32_outside (by omega)

/-- **`vmm_unmap_page_in` unmaps a mapped page** of the directory's own part, and refuses any
    other request. -/
theorem vmmUnmapPageIn_spec (h : VmInv p0 held s) {d : Nat} (hd : IsDir s d) {v : Nat}
    (hoff : OffDirectMap s d (pdeIndex v)) :
    (¬ (v % 4096 = 0 ∧ pdeIndex v < ownEntries s d ∧
        pteWord s.mem d (pdeIndex v) (pteIndex v) % 2 = 1) ∧
      vmmUnmapPageIn s d v = .ok (-1, s)) ∨
    ((v % 4096 = 0 ∧ pdeIndex v < ownEntries s d ∧
        pteWord s.mem d (pdeIndex v) (pteIndex v) % 2 = 1) ∧
      ∃ t m', tableOf s.mem d (pdeIndex v) = some t ∧
        vmmUnmapPageIn s d v = .ok (0, { s with mem := m' }) ∧
        VmInv p0 held { s with mem := m' } ∧ Unmapped held s m' t (pteIndex v)) := by
  have hpos := h.dir_pos hd
  have hi4 := pdeIndex_lt v
  have hj := pteIndex_lt v
  unfold vmmUnmapPageIn
  simp only [land_page_zero]
  by_cases hv : v % 4096 = 0
  · rw [if_neg (by omega)]
    by_cases hown : pdeIndex v < ownEntries s d
    · rw [if_neg (fun hc => (not_own_iff hi4).mp hc hown), vmmGetPageTableIn_eq h hd v, ok_bind]
      cases ht : tableOf s.mem d (pdeIndex v) with
      | none =>
        refine Or.inl ⟨fun hc => ?_, if_pos rfl⟩
        rw [pteWord_of_none ht] at hc
        exact absurd hc.2.2 (by decide)
      | some t =>
        simp only
        rw [if_neg (by omega), h.direct.load (h.table_limit hd hi4 ht) hj, ok_bind,
          ← pteWord_of_table ht]
        by_cases hp : pteWord s.mem d (pdeIndex v) (pteIndex v) % 2 = 1
        · obtain ⟨hst, hinv, hun⟩ := h.clearEntry hd hown ht hj hoff
          rw [if_neg fun hz => land_one_zero.mp hz hp, hst, ok_bind]
          exact Or.inr ⟨⟨hv, hown, hp⟩, t, _, rfl, rfl, hinv, hun⟩
        · rw [if_pos (land_one_zero.mpr hp)]
          exact Or.inl ⟨fun hc => hp hc.2.2, rfl⟩
    · rw [if_pos ((not_own_iff hi4).mpr hown)]
      exact Or.inl ⟨fun hc => hown hc.2.1, rfl⟩
  · rw [if_pos (Or.inr hv)]
    exact Or.inl ⟨fun hc => hv hc.1, rfl⟩

/-- **`vmm_map_page` maps the page in the kernel directory**, in place of what was mapped there. -/
theorem vmmMapPage_spec (h : VmInv p0 held s) {v : Nat} (flags : Nat) {paddr : Nat}
    (hp : paddr < 2 ^ 32) (hoff : OffDirectMap s s.kernelPageDirectory (pdeIndex v)) :
    (∃ p', vmmMapPage s v paddr flags = .ok (-1, { s with pmm := p' }) ∧
      VmInv p0 held { s with pmm := p' } ∧ (v % 4096 = 0 → paddr % 4096 = 0 →
        tableOf s.mem s.kernelPageDirectory (pdeIndex v) = none ∧ NoLowPage s) ∧
      p' = if NeedsTable s s.kernelPageDirectory v paddr then undoPage s.pmm else s.pmm) ∨
    ∃ t p' m', vmmMapPage s v paddr flags = .ok (0, { s with pmm := p', mem := m' }) ∧
      VmInv p0 held { s with pmm := p', mem := m' } ∧ v % 4096 = 0 ∧ paddr % 4096 = 0 ∧
      Mapped held s m' s.kernelPageDirectory (pdeIndex v) (pteIndex v) t flags
        (paddr ||| (flags &&& 0xfff)) := by
  have hi4 := pdeIndex_lt v
  have hj := pteIndex_lt v
  have hown : pdeIndex v < ownEntries s s.kernelPageDirectory := by
    rw [ownEntries_kernel]
    exact hi4
  unfold vmmMapPage
  simp only [land_page_zero]
  by_cases hal : v % 4096 ≠ 0 ∨ paddr % 4096 ≠ 0
  · rw [if_pos hal]
    exact Or.inl ⟨s.pmm, rfl, h, fun h1 h2 => by omega, (if_neg fun hn => by
      have := hn.1
      have := hn.2.1
      omega).symm⟩
  · rw [if_neg hal, vmmGetPageTableIn_eq h (isDir_kernel s) v, ok_bind]
    cases ht : tableOf s.mem s.kernelPageDirectory (pdeIndex v) with
    | none =>
      simp only [ne_eq, not_true_eq_false, if_false, pure_bind]
      rcases vmmMapPageIn_spec h (isDir_kernel s) v flags hp with
        ⟨p', e, hinv, hwhy, hundo⟩ | ⟨t, p', m', e, hinv, hv, hpa, _, _, hmap, _⟩
      · refine Or.inl ⟨p', e, hinv, fun h1 h2 => ?_, hundo⟩
        rcases hwhy h1 h2 hown with hc | hc
        · rw [pteWord_of_none ht] at hc
          cases hc
        · exact ⟨trivial, hc.2⟩
      · exact Or.inr ⟨t, p', m', e, hinv, hv, hpa, hmap⟩
    | some t =>
      obtain ⟨hst, h1, hun⟩ := h.clearEntry (isDir_kernel s) hown ht hj hoff
      have htab1 := (tableOf_congr (hun.dirs _ _ (isDir_kernel s) hi4)).trans ht
      have hpte1 := (hun.pte _ _ _ (isDir_kernel s) hi4 hj).trans (if_pos ⟨ht, rfl⟩)
      simp only
      rw [if_pos (by omega), hst, ok_bind]
      generalize wr32 s.mem (t + 4 * pteIndex v) 0 = m1 at *
      rcases vmmMapPageIn_spec h1 (isDir_kernel _) v flags hp with
        ⟨p', e, hinv, hwhy, _⟩ | ⟨t', p', m', e, hinv, hv, hpa, _, _, hmap, _⟩
      · -- the entry was cleared and its table is there
        rcases hwhy (by omega) (by omega) hown with hc | hc
        · rw [hpte1] at hc
          cases hc
        · rw [htab1] at hc
          cases hc.1
      · have htt := hmap.old t htab1
        subst htt
        refine Or.inr ⟨t, p', m', e, hinv, hv, hpa, hmap.table,
          fun t' ht' => Option.some.inj (ht'.symm.trans ht), ?_, fun d' i' hd' hi' hne => ?_,
          fun d' i' j' hd' hi' hj' => ?_,
          fun c g hc => (hun.clients c g hc).trans (hmap.clients c g hc),
          fun x h1 h2 => (hmap.other x h1 h2).trans (hun.other x h2)⟩
        · have hdir := hmap.dir
          rw [if_neg (by rw [htab1]; exact fun hc => by cases hc)] at hdir
          rw [hdir, hun.dirs _ _ (isDir_kernel s) hi4, if_neg (by rw [ht]; exact fun hc => by cases hc)]
        · exact (hmap.dirs d' i' hd' hi' hne).trans (hun.dirs d' i' hd' hi')
        · rw [hmap.pte d' i' j' hd' hi' hj']
          by_cases hc : tableOf m' d' i' = some t ∧ j' = pteIndex v
          · rw [if_pos hc, if_pos hc]
          · rw [if_neg hc, if_neg hc]
            refine (hun.pte d' i' j' hd' hi' hj').trans (if_neg fun hs => hc ⟨?_, hs.2⟩)
            by_cases hk : d' = s.kernelPageDirectory ∧ i' = pdeIndex v
            · rw [hk.1, hk.2]
              exact hmap.table
            · rw [tableOf_congr (hmap.dirs d' i' hd' hi' hk), tableOf_congr (hun.dirs d' i' hd' hi')]
              exact hs.1

/-! ## 4. Creating and destroying -/

/-- The copying loop of `vmm_create_address_space`, after `k` turns. -/
theorem copyEntry_loop (h : VmInv p0 held s) {f k : Nat} {m1 : Mem} (p' : Pmm) (hfa : f % 4096 = 0)
    (hlim : f + 4096 ≤ 0x1000000) (hk : k ≤ 256)
    (hfr : ∀ (r : Role κ) g, frameOf s held r = some g → g ≠ f)
    (hm1 : ∀ (r : Role κ) g, frameOf s held r = some g → SamePage s.mem m1 g) :
    (List.range' 768 k).foldlM (copyEntry (0xC0000000 + s.kernelPageDirectory) (0xC0000000 + f))
        { s with pmm := p', mem := m1 } =
      .ok { s with pmm := p'
                   mem := fillWords m1 (f + 4 * 768) k fun j =>
                     dirWord s.mem s.kernelPageDirectory (768 + j) } := by
  induction k with
  | zero =>
    have e : fillWords m1 (f + 4 * 768) 0 (fun j => dirWord s.mem s.kernelPageDirectory (768 + j)) =
        m1 := by
      funext x
      exact put_outside (by omega)
    rw [e]
    rfl
  | succ k ih =>
    -- the pages in use are as before the loop, so the directory is read where it is
    have hsame : ∀ (r : Role κ) g, frameOf s held r = some g → SamePage s.mem
        (fillWords m1 (f + 4 * 768) k fun j => dirWord s.mem s.kernelPageDirectory (768 + j)) g :=
      fun r g hr => (hm1 r g hr).trans (agreeOn_put fun x hx hin => by
        have := h.aligned hr
        have := hfr r g hr
        omega)
    have hread := dirWord_congr (hsame _ _ (frameOf_dir (isDir_kernel s)))
      (show 768 + k < 1024 by omega)
    have hlimk := h.dirLimit _ (isDir_kernel s)
    rw [List.range'_concat, List.foldlM_append, ih (by omega), ok_bind, fillWords_succ]
    generalize (fillWords m1 (f + 4 * 768) k fun j =>
      dirWord s.mem s.kernelPageDirectory (768 + j)) = mk at *
    have hdm : DirectMap { s with pmm := p', mem := mk } := (h.of_samePages hsame).direct
    simp only [List.foldlM_cons, List.foldlM_nil, Nat.one_mul]
    unfold copyEntry
    rw [hdm.load hlimk (by omega), ok_bind, hdm.store hlim (by omega), ok_bind]
    have hword : rd32 mk (s.kernelPageDirectory + 4 * (768 + k)) =
        dirWord s.mem s.kernelPageDirectory (768 + k) := hread
    simp only [hword]
    rw [show f + 4 * (768 + k) = f + 4 * 768 + 4 * k by omega]
    rfl

/-- **`vmm_create_address_space` fails, or adds an address space** with an empty user half. -/
theorem vmmCreateAddressSpace_spec (h : VmInv p0 held s) :
    (vmmCreateAddressSpace s = .ok (0, { s with pmm := undoPage s.pmm }) ∧
      VmInv p0 held { s with pmm := undoPage s.pmm } ∧ NoLowPage s) ∨
    ∃ f p' m', pmmAllocPage s.pmm = (f, p') ∧ vmmCreateAddressSpace s =
        .ok (f, { s with pmm := p', mem := m', spaces := f :: s.spaces }) ∧
      f ≠ 0 ∧ ¬ IsDir s f ∧ VmInv p0 held { s with pmm := p', mem := m', spaces := f :: s.spaces } ∧
      (∀ i, i < 1024 → dirWord m' f i =
        if i < 768 then 0 else dirWord s.mem s.kernelPageDirectory i) ∧
      (∀ (r : Role κ) g, frameOf s held r = some g → SamePage s.mem m' g) ∧
      ∀ x, ¬ InPage f x → m' x = s.mem x := by
  unfold vmmCreateAddressSpace
  rcases h.allocPage_cases with ⟨h0, e⟩ | ⟨f, p', ep, e, hpos, hf, hfree⟩
  · rw [e, undoPage_none h0]
    exact Or.inl ⟨if_pos rfl, h, Or.inl h0⟩
  · rw [e, undoPage_some ep (by omega)]
    simp only
    rw [if_neg (by omega)]
    by_cases hlt : f < 0x1000000
    · have hfa := hf.aligned
      have hlim : f + 4096 ≤ 0x1000000 := by omega
      have hfr : ∀ (r : Role κ) g, frameOf s held r = some g → g ≠ f := fun r g hr =>
        h.fresh_ne hf.new hr
      have hm1 : ∀ (r : Role κ) g, frameOf s held r = some g →
          SamePage s.mem (memset s.mem f 0 4096) g := fun r g hr =>
        samePage_memset (h.aligned hr) hfa (hfr r g hr)
      have hdm : DirectMap { s with pmm := p' } := h.direct
      rw [vmmPhysToVirt_of_lt hlt, if_neg (by omega), hdm.clearPage hlim, ok_bind,
        h.dirPtr (isDir_kernel s), copyEntry_loop h p' hfa hlim (Nat.le_refl 256) hfr hm1, ok_bind]
      have hsame : ∀ (r : Role κ) g, frameOf s held r = some g → SamePage s.mem
          (fillWords (memset s.mem f 0 4096) (f + 4 * 768) 256 fun j =>
            dirWord s.mem s.kernelPageDirectory (768 + j)) g :=
        fun r g hr => (hm1 r g hr).trans (agreeOn_put fun x hx hin => by
          have := h.aligned hr
          have := hfr r g hr
          omega)
      have hnew : ∀ i, i < 1024 → dirWord (fillWords (memset s.mem f 0 4096) (f + 4 * 768) 256
          fun j => dirWord s.mem s.kernelPageDirectory (768 + j)) f i =
          if i < 768 then 0 else dirWord s.mem s.kernelPageDirectory i := fun i hi => by
        unfold dirWord
        split
        · rw [rd32_fillWords_outside (by omega), rd32_memset_zero (by omega) (by omega)]
        · rw [show f + 4 * i = f + 4 * 768 + 4 * (i - 768) by omega, rd32_fillWords (by omega),
            Nat.mod_eq_of_lt (rd32_lt _ _), show 768 + (i - 768) = i by omega]
      have hother : ∀ x, ¬ InPage f x → fillWords (memset s.mem f 0 4096) (f + 4 * 768) 256
          (fun j => dirWord s.mem s.kernelPageDirectory (768 + j)) x = s.mem x := fun x hx => by
        unfold InPage at hx
        rw [fillWords_outside (by omega), memset_outside (by omega)]
      exact Or.inr ⟨f, p', _, ep, rfl, by omega, fun hd => hfr _ f (frameOf_dir hd) rfl,
        h.addSpace hf hlim hsame hnew, hnew, hsame, hother⟩
    · rw [vmmPhysToVirt_of_ge (by omega), if_pos rfl]
      exact Or.inl ⟨rfl, hfree, Or.inr (by rw [ep]; exact Nat.le_of_not_lt hlt)⟩

/-- The frames of the address space `d` itself, in the order `vmm_destroy_address_space` meets
    them: the tables of its user half, then the directory. -/
def ownFrames (s : Mm) (d : Nat) : List Nat := (List.range 768).filterMap (tableOf s.mem d) ++ [d]

theorem mem_ownFrames {d f : Nat} :
    f ∈ ownFrames s d ↔ (∃ i, i < 768 ∧ tableOf s.mem d i = some f) ∨ f = d := by
  unfold ownFrames
  simp only [List.mem_append, List.mem_filterMap, List.mem_range, List.mem_singleton]

theorem ownFrames_congr {s' : Mm} {d : Nat} (h : SamePage s.mem s'.mem d) :
    ownFrames s' d = ownFrames s d := by
  have htab : (List.range 768).filterMap (tableOf s'.mem d) =
      (List.range 768).filterMap (tableOf s.mem d) := List.filterMap_congr fun i hi =>
    tableOf_congr (dirWord_congr h (by have := List.mem_range.mp hi; omega))
  exact congrArg (· ++ [d]) htab

/-- An empty user half: the directory is all there is. -/
theorem ownFrames_empty {d : Nat} (h : ∀ i, i < 768 → tableOf s.mem d i = none) :
    ownFrames s d = [d] := by
  have htab : (List.range 768).filterMap (tableOf s.mem d) = [] :=
    List.filterMap_eq_nil_iff.mpr fun i hi => h i (List.mem_range.mp hi)
  exact congrArg (· ++ [d]) htab

/-- Each fills a role. -/
theorem VmInv.ownFrames_role (h : VmInv p0 held s) {d f : Nat} (hd : IsDir s d)
    (hf : f ∈ ownFrames s d) : Allocated p0 s.pmm f := by
  rcases mem_ownFrames.mp hf with ⟨i, hi, ht⟩ | rfl
  · exact h.own.mem ((frameOf_table hd (Nat.lt_of_lt_of_le hi (ownEntries_le s d).1)).trans ht)
  · exact h.own.mem (frameOf_dir hd)

/-- They are different frames. -/
theorem VmInv.ownFrames_nodup (h : VmInv p0 held s) {d : Nat} (hd : IsDir s d) :
    (ownFrames s d).Nodup := by
  have hrole : ∀ {i t}, i < 768 → tableOf s.mem d i = some t →
      frameOf s held (.table d i) = some t := fun hi hti =>
    (frameOf_table hd (Nat.lt_of_lt_of_le hi (ownEntries_le s d).1)).trans hti
  refine List.nodup_append.mpr ⟨?_, List.nodup_singleton d, fun t ht d' hd' => ?_⟩
  · refine List.pairwise_filterMap.mpr (List.nodup_range.imp_of_mem ?_)
    intro i j hi hj hne t ht t' ht' e
    subst e
    have := h.own.inj (hrole (List.mem_range.mp hi) ht) (hrole (List.mem_range.mp hj) ht')
    cases this
    exact hne rfl
  · obtain ⟨i, hi, hti⟩ := List.mem_filterMap.mp ht
    obtain rfl := List.mem_singleton.mp hd'
    exact h.table_ne_dir hd (Nat.lt_trans (List.mem_range.mp hi) (by decide)) hti hd

/-- The freeing loop of `vmm_destroy_address_space`, after `k` turns: the tables of the first `k`
    entries are free. -/
theorem freeTable_loop (h : VmInv p0 held s) {d k : Nat} (hd : IsDir s d) (hk : k ≤ 1024) :
    (List.range k).foldlM (freeTable (0xC0000000 + d)) s = .ok
      { s with pmm := ((List.range k).filterMap (tableOf s.mem d)).foldl pmmFreePage s.pmm } := by
  induction k with
  | zero => rfl
  | succ k ih =>
    rw [List.range_succ, List.foldlM_append, ih (by omega), ok_bind, List.filterMap_append,
      List.foldl_append]
    generalize ((List.range k).filterMap (tableOf s.mem d)).foldl pmmFreePage s.pmm = p'
    have hload : Mm.load { s with pmm := p' } (0xC0000000 + d) k = .ok (dirWord s.mem d k) :=
      h.loadDir hd (by omega)
    simp only [List.foldlM_cons, List.foldlM_nil, bind_pure]
    unfold freeTable
    rw [hload, ok_bind]
    cases ht : tableOf s.mem d k with
    | none =>
      rw [if_neg fun hz => tableOf_none ht (land_one_ne.mp hz), List.filterMap_cons_none ht]
      rfl
    | some t =>
      obtain ⟨hp, hf⟩ := tableOf_some ht
      rw [if_pos (land_one_ne.mpr hp), hf, List.filterMap_cons_some ht]
      rfl

/-- **`vmm_destroy_address_space` frees the directory and its user tables**, each once, and nothing
    else. -/
theorem vmmDestroyAddressSpace_spec (h : VmInv p0 held s) {d : Nat} (hd : d ∈ s.spaces) :
    vmmDestroyAddressSpace s d = .ok { s with pmm := (ownFrames s d).foldl pmmFreePage s.pmm
                                              spaces := s.spaces.erase d } ∧
      VmInv p0 held { s with pmm := (ownFrames s d).foldl pmmFreePage s.pmm
                             spaces := s.spaces.erase d } := by
  have hdir : IsDir s d := Or.inr hd
  have hpos := h.dir_pos hdir
  have hk : d ≠ s.kernelPageDirectory := fun e => (List.nodup_cons.mp h.nodup).1 (e ▸ hd)
  obtain ⟨hok, hall⟩ := pmmFreePage_list h.pmm (fun f hf => h.ownFrames_role hdir hf)
    (h.ownFrames_nodup hdir)
  refine ⟨?_, h.removeSpace hd hok fun g => (hall g).trans (and_congr_right fun _ => ?_)⟩
  · unfold vmmDestroyAddressSpace ownFrames
    rw [if_neg (by omega), h.dirPtr hdir, if_neg (by omega), freeTable_loop h hdir (by decide), ok_bind,
      List.foldl_append]
    generalize ((List.range 768).filterMap (tableOf s.mem d)).foldl pmmFreePage s.pmm = p'
    exact if_pos hd
  · rw [mem_ownFrames]
    exact ⟨fun hn => ⟨fun e => hn (.inr e), fun i hi e => hn (.inl ⟨i, hi, e⟩)⟩,
      fun hn hc => hc.elim (fun ⟨i, hi, e⟩ => hn.2 i hi e) hn.1⟩

/-- The kernel directory is never destroyed. -/
theorem vmmDestroyAddressSpace_kernel (s : Mm) :
    vmmDestroyAddressSpace s s.kernelPageDirectory = .ok s := if_pos (Or.inr rfl)

end Emyx
