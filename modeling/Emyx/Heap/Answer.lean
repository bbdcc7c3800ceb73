/-
  File:      Emyx/Heap/Answer.lean
  Subject:   WHAT `kmalloc` ANSWERS: where its pointers lie, when it returns `NULL`, and what a
             refused request leaves behind.

  * **`kmalloc_aligned_iff`** -- the pointers of a run are all multiples of 8 exactly if no request
    of the run can be served: the header has 12 bytes, so the first pointer of all is 4 bytes off;
  * `HeapShared s0` -- runs of the heap and of other users of the page allocator after boot, each
    giving back what it holds;
  * **`kmalloc_null_iff`** -- along these runs `kmalloc` returns `NULL` exactly when it must, and
    then list, bitmap and counter are as before, exactly if it did not have to give a page back
    with the counter of free pages at zero.
-/
import Emyx.Heap.Tiling
import Emyx.Overlap

namespace Emyx

open Lib

/-! ## 1. Where the pointers lie -/

/-- No block can serve a request for `k` bytes: its size is refused, or no block on the list is
    large enough and the page allocator has no page for it. -/
def Unserved (s : Mm) (k : Nat) : Prop :=
  ∀ bs n, Seg s.mem s.list bs 0 → alignSize k = some n → n ≤ 4096 - 12 →
    servingBlock s bs n = none

/-- A call of `kmalloc`: the state it met, the size it was given, the pointer it returned. -/
structure HeapRequest where
  before : Mm
  size : Nat
  answer : Nat

/-- Runs of the heap as in `HeapReach`, with the calls of `kmalloc` so far, and with pages from
    anywhere. -/
inductive HeapHistory : Mm → List (Nat × Nat) → List HeapRequest → Prop where
  | boot (s : Mm) (hl : s.list = 0) (hp : s.heapPages = []) : HeapHistory s [] []
  | kmalloc {s s' : Mm} {out : List (Nat × Nat)} {log : List HeapRequest} {n p : Nat}
      (h : HeapHistory s out log) (e : kmalloc s n = .ok (p, s')) :
      HeapHistory s' (if p = 0 then out else (p, n) :: out) (log ++ [⟨s, n, p⟩])
  | kfree {s s' : Mm} {out : List (Nat × Nat)} {log : List HeapRequest} {a : Nat × Nat}
      (h : HeapHistory s out log) (ha : a ∈ out) (e : kfree s a.1 = .ok s') :
      HeapHistory s' (out.erase a) log
  | kfreeNull {s s' : Mm} {out : List (Nat × Nat)} {log : List HeapRequest}
      (h : HeapHistory s out log) (e : kfree s 0 = .ok s') : HeapHistory s' out log
  | client {s s' : Mm} {out : List (Nat × Nat)} {log : List HeapRequest}
      (h : HeapHistory s out log) (hl : s'.list = s.list) (hp : s'.heapPages = s.heapPages)
      (hm : AgreeOn (HeapPrivate s out) s.mem s'.mem) : HeapHistory s' out log

/-- A heap without a block. -/
theorem heapInv_empty {s : Mm} (hl : s.list = 0) (hp : s.heapPages = []) : HeapInv s [] := by
  obtain ⟨bs, hinv, _⟩ := heapInv_reach (.boot s hl hp)
  rwa [hinv.list_eq_zero.mp hl] at hinv

/-- **The first request of all**: unless it cannot be served, its pointer is 12 bytes behind the
    start of a page. -/
theorem kmalloc_empty {s s' : Mm} {k p : Nat} (hl : s.list = 0) (hp : s.heapPages = [])
    (e : kmalloc s k = .ok (p, s')) :
    p = 0 ∧ Unserved s k ∧ s'.list = 0 ∧ s'.heapPages = [] ∨ p % 8 = 4 ∧ ¬ Unserved s k := by
  have hinv := heapInv_empty hl hp
  obtain ⟨p', s'', bs', e', -, hon⟩ := kmalloc_on hinv k fun _ => by
    rw [hp]
    exact List.not_mem_nil
  cases e'.symm.trans e
  have hnil : ∀ bs, Seg s.mem s.list bs 0 → bs = [] := fun bs hseg =>
    List.map_eq_nil_iff.mp (seg_unique hseg hinv.seg)
  cases hon with
  | refuse hbig =>
    refine .inl ⟨rfl, fun bs n _ hn hsize => ?_, hl, hp⟩
    have := hbig n hn
    omega
  | reuse _ _ he => exact absurd (List.append_eq_nil_iff.mp he.symm).2 (List.cons_ne_nil _ _)
  | @grow n f _ _ hn hsize hnone hf h0 hlt =>
    refine .inr ⟨?_, fun hun => ?_⟩
    · have halign : f % 4096 = 0 := by
        rcases pmmAllocPage_cases s.pmm with ⟨_, e₁⟩ | ⟨i, _, e₁⟩
        · rw [← hf, e₁]
          rfl
        · rw [← hf, e₁]
          simp only
          omega
      show (0xC0000000 + f + 12) % 8 = 4
      omega
    · have hserve := hun [] n hinv.seg hn hsize
      rw [servingBlock_none hnone, hf, if_pos ⟨h0, hlt⟩] at hserve
      cases hserve
  | @full n p' hn hsize hnone hpage =>
    refine .inl ⟨rfl, fun bs n' hseg hn' _ => ?_, hl, hp⟩
    cases hn.symm.trans hn'
    have hrefused := hpage.refused rfl
    rw [hnil bs hseg, servingBlock_none hnone, if_neg (by omega)]

/-- All requests of the history are unserved. -/
def NoneServed (log : List HeapRequest) : Prop := ∀ q ∈ log, Unserved q.before q.size

/-- All pointers of the history are multiples of 8. -/
def AllAligned (log : List HeapRequest) : Prop := ∀ q ∈ log, q.answer ≠ 0 → q.answer % 8 = 0

theorem noneServed_append {log : List HeapRequest} {q : HeapRequest} :
    NoneServed (log ++ [q]) ↔ NoneServed log ∧ Unserved q.before q.size := by
  unfold NoneServed
  rw [List.forall_mem_append, List.forall_mem_singleton]

theorem allAligned_append {log : List HeapRequest} {q : HeapRequest} :
    AllAligned (log ++ [q]) ↔ AllAligned log ∧ (q.answer ≠ 0 → q.answer % 8 = 0) := by
  unfold AllAligned
  rw [List.forall_mem_append, List.forall_mem_singleton]

/-- Until a request is served the heap has no block and nothing is outstanding. -/
theorem HeapHistory.empty {s : Mm} {out : List (Nat × Nat)} {log : List HeapRequest}
    (h : HeapHistory s out log) (hlog : NoneServed log) :
    s.list = 0 ∧ s.heapPages = [] ∧ out = [] := by
  induction h with
  | boot s hl hp => exact ⟨hl, hp, rfl⟩
  | kmalloc _ e ih =>
    obtain ⟨hlog, hun⟩ := noneServed_append.mp hlog
    obtain ⟨hl, hp, rfl⟩ := ih hlog
    rcases kmalloc_empty hl hp e with ⟨rfl, _, hl', hp'⟩ | ⟨_, hserved⟩
    · exact ⟨hl', hp', rfl⟩
    · exact absurd hun hserved
  | kfree _ ha _ ih =>
    rw [(ih hlog).2.2] at ha
    exact absurd ha List.not_mem_nil
  | kfreeNull _ e ih =>
    cases e
    exact ih hlog
  | client _ hl hp _ ih =>
    obtain ⟨hl', hp', hout⟩ := ih hlog
    exact ⟨hl.trans hl', hp.trans hp', hout⟩

/-- **THE POINTERS OF A RUN ARE ALIGNED EXACTLY IF THERE ARE NONE**: every pointer that `kmalloc`
    returned in a run is a multiple of 8 exactly if no request of the run could be served. -/
theorem kmalloc_aligned_iff {s : Mm} {out : List (Nat × Nat)} {log : List HeapRequest}
    (h : HeapHistory s out log) : AllAligned log ↔ NoneServed log := by
  induction h with
  | boot => exact ⟨fun _ => nofun, fun _ => nofun⟩
  | @kmalloc s s' out log n p h e ih =>
    rw [allAligned_append, noneServed_append, ih]
    refine and_congr_right fun hlog => ?_
    obtain ⟨hl, hp, _⟩ := h.empty hlog
    rcases kmalloc_empty hl hp e with ⟨rfl, hun, _⟩ | ⟨hodd, hserved⟩
    · exact ⟨fun _ => hun, fun _ h0 => absurd rfl h0⟩
    · refine ⟨fun hal => ?_, fun hun => absurd hun hserved⟩
      have h0 : p ≠ 0 := fun h0 => by rw [h0] at hodd; cases hodd
      have h8 : p % 8 = 0 := hal h0
      omega
  | kfree _ _ _ ih => exact ih
  | kfreeNull _ _ ih => exact ih
  | client _ _ _ _ ih => exact ih

/-- Two requests that are refused, and a third that is served. -/
theorem kmalloc_aligned_refused : ∃ p s',
    HeapHistory freshMm [] [⟨freshMm, 0, 0⟩, ⟨freshMm, 5000, 0⟩] ∧
    AllAligned [⟨freshMm, 0, 0⟩, ⟨freshMm, 5000, 0⟩] ∧
    HeapHistory s' [(p, 8)] [⟨freshMm, 0, 0⟩, ⟨freshMm, 5000, 0⟩, ⟨freshMm, 8, p⟩] ∧
    ¬ AllAligned [⟨freshMm, 0, 0⟩, ⟨freshMm, 5000, 0⟩, ⟨freshMm, 8, p⟩] := by
  obtain ⟨s', e, _⟩ := @kmalloc_freshMm 8 8 (by decide) (by decide)
  have e₀ : kmalloc freshMm 0 = .ok (0, freshMm) := rfl
  have e₁ : kmalloc freshMm 5000 = .ok (0, freshMm) := rfl
  have h₁ := HeapHistory.kmalloc (HeapHistory.kmalloc (.boot freshMm rfl rfl) e₀) e₁
  have h₂ := HeapHistory.kmalloc h₁ e
  have hnone : ∀ k, (∀ n, alignSize k = some n → 4096 - 12 < n) → Unserved freshMm k :=
    fun k hk bs n _ hn hsize => by
      have := hk n hn
      omega
  refine ⟨_, s', h₁, (kmalloc_aligned_iff h₁).mpr fun q hq => ?_, h₂, fun hal => ?_⟩
  · rcases List.mem_cons.mp hq with rfl | hq
    · exact hnone 0 (by decide)
    · rw [List.mem_singleton.mp hq]
      exact hnone 5000 (by decide)
  · have hserved := (kmalloc_aligned_iff h₂).mp hal _ (List.mem_append_right _ List.mem_cons_self)
    rcases kmalloc_empty rfl rfl e with ⟨h0, _⟩ | ⟨_, hs⟩
    · exact absurd h0 (by decide)
    · exact hs hserved

/-- The first pointer of all is 4 bytes off. -/
theorem kmalloc_misaligned : ∃ p s', HeapReach freshMm [] ∧ kmalloc freshMm 8 = .ok (p, s') ∧
    p ≠ 0 ∧ p % 8 = 4 := by
  obtain ⟨s', e, _⟩ := @kmalloc_freshMm 8 8 (by decide) (by decide)
  exact ⟨_, s', .boot _ rfl rfl, e, by decide, by decide⟩

/-! ## 2. The heap among other users of the page allocator -/

/-- Runs after boot: calls of `kmalloc` and `kfree` (`out` lists the allocations not yet freed),
    pages taken and given back by others (`fs` lists those they hold), and stores anywhere but in
    the heap's private bytes. -/
inductive HeapShared (s0 : Mm) : Mm → List (Nat × Nat) → List Nat → Prop where
  | boot : HeapShared s0 s0 [] []
  | kmalloc {s s' : Mm} {out : List (Nat × Nat)} {fs : List Nat} {n p : Nat}
      (h : HeapShared s0 s out fs) (e : kmalloc s n = .ok (p, s')) :
      HeapShared s0 s' (if p = 0 then out else (p, n) :: out) fs
  | kfree {s s' : Mm} {out : List (Nat × Nat)} {fs : List Nat} {a : Nat × Nat}
      (h : HeapShared s0 s out fs) (ha : a ∈ out) (e : kfree s a.1 = .ok s') :
      HeapShared s0 s' (out.erase a) fs
  | kfreeNull {s s' : Mm} {out : List (Nat × Nat)} {fs : List Nat} (h : HeapShared s0 s out fs)
      (e : kfree s 0 = .ok s') : HeapShared s0 s' out fs
  | alloc {s : Mm} {out : List (Nat × Nat)} {fs : List Nat} (h : HeapShared s0 s out fs) :
      HeapShared s0 { s with pmm := (pmmAllocPage s.pmm).2 } out
        (if (pmmAllocPage s.pmm).1 = 0 then fs else (pmmAllocPage s.pmm).1 :: fs)
  | free {s : Mm} {out : List (Nat × Nat)} {fs : List Nat} {f : Nat} (h : HeapShared s0 s out fs)
      (hf : f ∈ fs) : HeapShared s0 { s with pmm := pmmFreePage s.pmm f } out (fs.erase f)
  | store {s : Mm} {out : List (Nat × Nat)} {fs : List Nat} {m' : Mem} (h : HeapShared s0 s out fs)
      (hm : AgreeOn (HeapPrivate s out) s.mem m') : HeapShared s0 { s with mem := m' } out fs

/-- The heap's pages and the others' pages are taken, and none is both. -/
structure SharedInv (p0 : Pmm) (s : Mm) (out : List (Nat × Nat)) (fs : List Nat) : Prop where
  reach : HeapReach s out
  calls : PmmCalls p0 s.pmm
  ok : PmmOk p0 s.pmm
  pages : ∀ f ∈ s.heapPages, Allocated p0 s.pmm f
  frames : ∀ f ∈ fs, Allocated p0 s.pmm f
  apart : ∀ f ∈ fs, f ∉ s.heapPages
  nodup : fs.Nodup

/-- The page allocator has no page that is taken. -/
theorem not_allocated_next {p0 p : Pmm} (hok : PmmOk p0 p) (hlow : p0.maxPage ≤ 2 ^ 20)
    (h0 : (pmmAllocPage p).1 ≠ 0) : ¬ Allocated p0 p (pmmAllocPage p).1 := by
  have haddr : Addressable p := addressable_of_maxPage (by rw [hok.maxPage]; exact hlow)
  rcases pmmAllocPage_spec hok haddr with ⟨_, e⟩ | ⟨f, p', e, _, _, _, _, hnew, _⟩
  · rw [e] at h0
    exact absurd rfl h0
  · rw [e]
    exact hnew

section Shared

variable {p0 : Pmm} {s s' : Mm} {out : List (Nat × Nat)} {fs : List Nat}

theorem SharedInv.fresh (h : SharedInv p0 s out fs) (hlow : p0.maxPage ≤ 2 ^ 20) :
    (pmmAllocPage s.pmm).1 ≠ 0 → (pmmAllocPage s.pmm).1 ∉ s.heapPages := fun h0 hmem =>
  not_allocated_next h.ok hlow h0 (h.pages _ hmem)

/-- Only the page allocator moved, and took no page of the heap's or the others'. -/
theorem SharedInv.pmm (h : SharedInv p0 s out fs) {p' : Pmm} {fs' : List Nat}
    (hreach : HeapReach { s with pmm := p' } out) (hcalls : PmmCalls s.pmm p') (hok : PmmOk p0 p')
    (hpages : ∀ f ∈ s.heapPages, Allocated p0 p' f) (hframes : ∀ f ∈ fs', Allocated p0 p' f)
    (hapart : ∀ f ∈ fs', f ∉ s.heapPages) (hnd : fs'.Nodup) :
    SharedInv p0 { s with pmm := p' } out fs' :=
  ⟨hreach, h.calls.trans hcalls, hok, hpages, hframes, hapart, hnd⟩

/-- A call of `kmalloc`, whatever it did. -/
theorem SharedInv.kmalloc (h : SharedInv p0 s out fs) (hlow : p0.maxPage ≤ 2 ^ 20) {n p : Nat}
    (e : Emyx.kmalloc s n = .ok (p, s')) :
    SharedInv p0 s' (if p = 0 then out else (p, n) :: out) fs := by
  have hreach := HeapReach.kmalloc s s' out n p h.reach (h.fresh hlow) e
  have haddr : Addressable s.pmm := addressable_of_maxPage (by rw [h.ok.maxPage]; exact hlow)
  obtain ⟨bs, hinv, -⟩ := heapInv_reach h.reach
  obtain ⟨p', s'', bs', e', -, hon⟩ := kmalloc_on hinv n (h.fresh hlow)
  cases e'.symm.trans e
  cases hon with
  | refuse => exact ⟨hreach, h.calls, h.ok, h.pages, h.frames, h.apart, h.nodup⟩
  | reuse => exact ⟨hreach, h.calls, h.ok, h.pages, h.frames, h.apart, h.nodup⟩
  | @grow _ f _ _ _ _ _ hf h0 _ =>
    rcases pmmAllocPage_spec h.ok haddr with ⟨_, e₁⟩ | ⟨g, q, e₁, _, hok, _, _, hnew, hall, _⟩
    · rw [e₁] at hf
      exact absurd hf.symm h0
    · rw [e₁] at hf
      obtain rfl : g = f := hf
      have hcalls : PmmCalls p0 (pmmAllocPage s.pmm).2 := h.calls.alloc
      rw [e₁] at hcalls hreach ⊢
      refine ⟨hreach, hcalls, hok, fun f hf => (hall f).mpr ?_,
        fun f hf => (hall f).mpr (.inr (h.frames f hf)), fun f hf hmem => ?_, h.nodup⟩
      · exact (List.mem_cons.mp hf).imp id (h.pages f)
      · rcases List.mem_cons.mp hmem with rfl | hmem
        · exact hnew (h.frames _ hf)
        · exact h.apart f hf hmem
  | @full _ q _ _ _ hpage =>
    rcases hpage.refused_pmm rfl with ⟨h0, rfl⟩ | ⟨hge, rfl⟩
    · rcases pmmAllocPage_spec h.ok haddr with ⟨_, e₁⟩ | ⟨g, q, e₁, hg0, _⟩
      · rw [e₁] at hreach ⊢
        exact ⟨hreach, h.calls, h.ok, h.pages, h.frames, h.apart, h.nodup⟩
      · rw [e₁] at h0
        exact absurd h0 hg0
    · obtain ⟨hok, hall⟩ := pmmFreePage_undo h.ok haddr (by omega)
      exact ⟨hreach, h.calls.alloc.free _, hok, fun f hf => (hall f).mpr (h.pages f hf),
        fun f hf => (hall f).mpr (h.frames f hf), h.apart, h.nodup⟩

theorem sharedInv_run {s0 : Mm} {m : Mem} {img : KernelImage} {mbi : MultibootInfo}
    (hb : Booted m img mbi p0 s0) (h : HeapShared s0 s out fs) : SharedInv p0 s out fs := by
  have hlow := hb.low
  obtain ⟨hvm, _, hlist, hpages, _⟩ := @vmmInit_spec Unit p0 hlow m s0 hb.vmmInit
  induction h with
  | boot =>
    refine ⟨.boot s0 hlist hpages, ?_, hvm.pmm, ?_, nofun, nofun, List.nodup_nil⟩
    · exact vmmInit_pmm (J := PmmCalls p0) (fun _ hp => hp.alloc) .boot hb.vmmInit
    · rw [hpages]
      nofun
  | kmalloc _ e ih => exact ih.kmalloc hlow e
  | @kfree s s' out fs a _ ha e ih =>
    have hreach := HeapReach.kfree s s' out a ih.reach ha e
    obtain ⟨bs, hinv, hperm⟩ := heapInv_reach ih.reach
    obtain ⟨m', bs', e', -⟩ := kfree_spec hinv (hperm.symm.subset ha)
    cases e'.symm.trans e
    exact ⟨hreach, ih.calls, ih.ok, ih.pages, ih.frames, ih.apart, ih.nodup⟩
  | kfreeNull _ e ih =>
    cases e
    exact ih
  | @alloc s out fs _ ih =>
    have hreach : HeapReach { s with pmm := (pmmAllocPage s.pmm).2 } out :=
      .client s _ out ih.reach rfl rfl (.refl _ _)
    have haddr : Addressable s.pmm := addressable_of_maxPage (by rw [ih.ok.maxPage]; exact hlow)
    rcases pmmAllocPage_spec ih.ok haddr with ⟨_, e⟩ | ⟨f, q, e, hf0, hok, _, _, hnew, hall, _⟩
    · rw [e] at hreach ⊢
      exact ih
    · have hcalls : PmmCalls s.pmm (pmmAllocPage s.pmm).2 := PmmCalls.boot.alloc
      rw [e] at hcalls hreach ⊢
      simp only [hf0, if_false]
      refine ih.pmm hreach hcalls hok (fun g hg => (hall g).mpr (.inr (ih.pages g hg)))
        (fun g hg => (hall g).mpr ?_) (fun g hg hmem => ?_) ?_
      · exact (List.mem_cons.mp hg).imp id (ih.frames g)
      · rcases List.mem_cons.mp hg with rfl | hg
        · exact hnew (ih.pages _ hmem)
        · exact ih.apart g hg hmem
      · exact List.nodup_cons.mpr ⟨fun hmem => hnew (ih.frames _ hmem), ih.nodup⟩
  | @free s out fs f _ hf ih =>
    have hreach : HeapReach { s with pmm := pmmFreePage s.pmm f } out :=
      .client s _ out ih.reach rfl rfl (.refl _ _)
    obtain ⟨hok, hall, _⟩ := pmmFreePage_spec ih.ok (ih.frames f hf)
    refine ih.pmm hreach (PmmCalls.boot.free f) hok (fun g hg => (hall g).mpr ⟨?_, ih.pages g hg⟩)
      (fun g hg => (hall g).mpr ⟨?_, ih.frames g (List.mem_of_mem_erase hg)⟩)
      (fun g hg => ih.apart g (List.mem_of_mem_erase hg)) (ih.nodup.erase f)
    · rintro rfl
      exact ih.apart g hf hg
    · rintro rfl
      exact (ih.nodup.mem_erase_iff.mp hg).1 rfl
  | @store s out fs m' _ hm ih =>
    exact ⟨.client s _ out ih.reach rfl rfl hm, ih.calls, ih.ok, ih.pages, ih.frames, ih.apart,
      ih.nodup⟩

end Shared

/-! ## 3. When `kmalloc` returns `NULL` -/

/-- No block on the list can serve the request, and the page allocator has no page for it: none is
    free, or the lowest is beyond the direct map. -/
def NoRoom (s : Mm) (bs : List Blk) (k : Nat) : Prop :=
  (∀ b ∈ bs, ¬ b.Serves ((k + 7) / 8 * 8)) ∧
    ((∀ i, 1 ≤ i → i < s.pmm.maxPage → s.pmm.isSet i) ∨
      ∃ i, FirstClear s.pmm i ∧ 0x1000000 ≤ i * 4096)

/-- What `kmalloc` for `k` bytes promises: `NULL` exactly for a size that is zero or does not fit a
    page, or when there is no room; and then list, bitmap and counter are as before. -/
def NullMeets (s : Mm) (k : Nat) : Prop :=
  ∃ bs p s', Seg s.mem s.list bs 0 ∧ kmalloc s k = .ok (p, s') ∧
    (p = 0 ↔ k = 0 ∨ 4096 - 12 < (k + 7) / 8 * 8 ∨ NoRoom s bs k) ∧
    (p = 0 → s'.mem = s.mem ∧ s'.list = s.list ∧ s'.pmm.bitmap = s.pmm.bitmap ∧
      s'.pmm.freePages = s.pmm.freePages)

/-- The call takes a page beyond the direct map, and gives it back, with the counter of free pages
    at zero. -/
def UncountedPage (s : Mm) (k : Nat) : Prop :=
  s.pmm.freePages = 0 ∧ k ≠ 0 ∧ (k + 7) / 8 * 8 ≤ 4096 - 12 ∧
    (∃ bs, Seg s.mem s.list bs 0 ∧ ∀ b ∈ bs, ¬ b.Serves ((k + 7) / 8 * 8)) ∧
    ∃ i, FirstClear s.pmm i ∧ 0x1000000 ≤ i * 4096

/-- A size that `kmalloc` accepts is its exact rounding. -/
theorem alignSize_fits {k n : Nat} (hn : alignSize k = some n) (hsize : n ≤ 4096 - 12) :
    k ≠ 0 ∧ n = (k + 7) / 8 * 8 := by
  obtain ⟨hpos, hle⟩ := alignSize_some hn
  refine ⟨by omega, ?_⟩
  rw [alignSize_of hpos (by omega)] at hn
  exact (Option.some.inj hn).symm

section Null

variable {s s' : Mm} {bs bs' : List Blk} {k p : Nat}

/-- The answer is `NULL` exactly when it must be. -/
theorem KmallocOn.null_iff (h : KmallocOn s bs k p s' bs') (hmax : s.pmm.maxPage ≤ 2 ^ 20)
    (hk : k < 2 ^ 32) : p = 0 ↔ k = 0 ∨ 4096 - 12 < (k + 7) / 8 * 8 ∨ NoRoom s bs k := by
  cases h with
  | refuse hbig =>
    refine ⟨fun _ => ?_, fun _ => rfl⟩
    by_cases h0 : k = 0
    · exact .inl h0
    · refine .inr (.inl ?_)
      by_cases hle : k ≤ 2 ^ 32 - 8
      · exact hbig _ (alignSize_of (by omega) hle)
      · omega
  | @reuse n pre post b m' hn hsize e hb hfirst =>
    obtain ⟨h0, rfl⟩ := alignSize_fits hn hsize
    refine ⟨fun hp => absurd hp (payload_ne_zero b), fun hfail => ?_⟩
    rcases hfail with hfail | hfail | hfail
    · exact absurd hfail h0
    · omega
    · exact absurd hb (hfail.1 b (e ▸ List.mem_append_right _ List.mem_cons_self))
  | @grow n f list' m' hn hsize hnone hf hf0 hlt =>
    obtain ⟨h0, rfl⟩ := alignSize_fits hn hsize
    refine ⟨fun hp => absurd hp (payload_ne_zero _), fun hfail => ?_⟩
    rcases pmmAllocPage_answer hmax with ⟨hzero, _⟩ | ⟨i, hi, hpage, _⟩
    · exact absurd (hf.symm.trans hzero) hf0
    · rcases hfail with hfail | hfail | ⟨_, hall | ⟨j, hj, hge⟩⟩
      · exact absurd hfail h0
      · omega
      · exact absurd hall hi.not_full
      · rw [hj.unique hi] at hge
        omega
  | @full n p' hn hsize hnone hpage =>
    obtain ⟨h0, rfl⟩ := alignSize_fits hn hsize
    refine ⟨fun _ => .inr (.inr ⟨hnone, ?_⟩), fun _ => rfl⟩
    rcases pmmAllocPage_answer hmax with ⟨_, hall, _⟩ | ⟨i, hi, hi4, hne⟩
    · exact .inl hall
    · refine .inr ⟨i, hi, ?_⟩
      have := hpage.refused rfl
      omega

/-- `NULL` leaves everything but the counter of free pages, and that too unless a page went back
    uncounted. -/
theorem KmallocOn.null_state (h : KmallocOn s bs k p s' bs') (hseg : Seg s.mem s.list bs 0)
    (hmax : s.pmm.maxPage ≤ 2 ^ 20) (hlt : s.pmm.freePages < 2 ^ 32) (hp : p = 0) :
    bs' = bs ∧ ∃ n, s' = { s with pmm := { s.pmm with freePages := n } } ∧
      (UncountedPage s k → n = 1) ∧ (¬ UncountedPage s k → n = s.pmm.freePages) := by
  cases h with
  | refuse hbig =>
    refine ⟨rfl, s.pmm.freePages, rfl, fun hun => ?_, fun _ => rfl⟩
    obtain ⟨-, h0, hsize, -⟩ := hun
    have := hbig _ (alignSize_of (by omega) (by omega))
    omega
  | reuse => exact absurd hp (payload_ne_zero _)
  | grow => exact absurd hp (payload_ne_zero _)
  | @full n p' hn hsize hnone hpage =>
    obtain ⟨h0, rfl⟩ := alignSize_fits hn hsize
    refine ⟨rfl, ?_⟩
    rcases pmmAllocPage_answer hmax with ⟨hzero, hall, hsame⟩ | ⟨i, hi, hi4, hne⟩
    · rcases hpage.refused_pmm rfl with ⟨_, rfl⟩ | ⟨hge, _⟩
      · refine ⟨s.pmm.freePages, by rw [hsame], fun hun => ?_, fun _ => rfl⟩
        obtain ⟨-, -, -, -, j, hj, -⟩ := hun
        exact absurd hall hj.not_full
      · omega
    · rcases hpage.refused_pmm rfl with ⟨hzero, _⟩ | ⟨hge, rfl⟩
      · exact absurd hzero hne
      · refine ⟨_, by rw [pmmFreePage_alloc hmax hlt hne], fun hun => if_pos hun.1, fun hun => ?_⟩
        exact if_neg fun hfree => hun ⟨hfree, h0, hsize, ⟨bs, hseg, hnone⟩, i, hi, by omega⟩

/-- `NULL` leaves list and bitmap alone, and the counter unless a page went back uncounted. -/
theorem KmallocOn.null_keeps (h : KmallocOn s bs k p s' bs') (hseg : Seg s.mem s.list bs 0)
    (hmax : s.pmm.maxPage ≤ 2 ^ 20) (hlt : s.pmm.freePages < 2 ^ 32) (hp : p = 0) :
    s'.mem = s.mem ∧ s'.list = s.list ∧ s'.pmm.bitmap = s.pmm.bitmap ∧
      (s'.pmm.freePages = s.pmm.freePages ↔ ¬ UncountedPage s k) := by
  obtain ⟨-, n, rfl, hone, hsame⟩ := h.null_state hseg hmax hlt hp
  refine ⟨rfl, rfl, rfl, fun hfree hun => ?_, hsame⟩
  have hfree : n = s.pmm.freePages := hfree
  rw [hone hun, hun.1] at hfree
  cases hfree

end Null

/-- **`kmalloc` FAILS ONLY WHEN IT MUST, AND THEN CHANGES NOTHING**, exactly if it does not take a
    page beyond the direct map with the counter of free pages at zero: in every state after boot
    with RAM below 4 GiB, and for every size. -/
theorem kmalloc_null_iff {m : Mem} {img : KernelImage} {mbi : MultibootInfo} {p0 : Pmm}
    {s0 s : Mm} {out : List (Nat × Nat)} {fs : List Nat} (hb : Booted m img mbi p0 s0)
    (h : HeapShared s0 s out fs) {k : Nat} (hk : k < 2 ^ 32) :
    NullMeets s k ↔ ¬ UncountedPage s k := by
  have hrun := sharedInv_run hb h
  have hmax : s.pmm.maxPage ≤ 2 ^ 20 := by
    rw [hrun.ok.maxPage]
    exact hb.low
  have hlt := hrun.calls.free_lt (pmmInit_free_lt hb.pmmInit)
  obtain ⟨bs, hinv, -⟩ := heapInv_reach hrun.reach
  obtain ⟨p, s', bs', e, -, hon⟩ := kmalloc_on hinv k (hrun.fresh hb.low)
  have hnull := hon.null_iff hmax hk
  have hkeeps := hon.null_keeps hinv.seg hmax hlt
  constructor
  · intro hmeets hun
    obtain ⟨bs₂, p₂, s₂, hseg₂, e₂, hiff, hsame⟩ := hmeets
    cases e.symm.trans e₂
    obtain ⟨hfree, h0, hsize, ⟨bs₁, hseg₁, hnone⟩, i, hi, hge⟩ := id hun
    have hp : p = 0 := hnull.mpr (.inr (.inr
      ⟨noneServes_congr (seg_unique hseg₁ hinv.seg) hnone, .inr ⟨i, hi, hge⟩⟩))
    exact (hkeeps hp).2.2.2.mp (hsame hp).2.2.2 hun
  · intro hun
    refine ⟨bs, p, s', hinv.seg, e, hnull, fun hp => ?_⟩
    obtain ⟨hm, hl, hbits, hcount⟩ := hkeeps hp
    exact ⟨hm, hl, hbits, hcount.mpr hun⟩

/-- On the small machine a page is left, so a first request of any size meets the promise. -/
theorem kmalloc_null_lowMem : ∃ s, NullMeets s 5000 ∧ NullMeets s 100 := by
  obtain ⟨s, hb, hfree, hmax⟩ := booted_lowMem
  have hcount : ∀ k, ¬ UncountedPage s k := fun k hun => by
    obtain ⟨-, -, -, -, i, hi, hge⟩ := hun
    have := hi.2.1
    omega
  exact ⟨s, (kmalloc_null_iff hb .boot (by decide)).mpr (hcount 5000),
    (kmalloc_null_iff hb .boot (by decide)).mpr (hcount 100)⟩

/-- On the machine with the overlapping regions the first request returns `NULL`, and the counter
    of free pages leaves zero. -/
theorem kmalloc_null_uncounted : ∃ (m : Mem) (mbi : MultibootInfo) (p0 : Pmm) (s s' : Mm),
    Booted m smallImage mbi p0 s ∧ HeapShared s s [] [] ∧ kmalloc s 8 = .ok (0, s') ∧
    s.pmm.freePages = 0 ∧ s'.pmm.freePages ≠ 0 ∧ ¬ NullMeets s 8 := by
  obtain ⟨s, hb, hfree, hfirst⟩ := booted_overlap fun _ => 0
  have hrun := sharedInv_run hb .boot
  have hmax : s.pmm.maxPage ≤ 2 ^ 20 := by
    rw [hrun.ok.maxPage]
    exact hb.low
  obtain ⟨_, _, hlist, _⟩ := @vmmInit_spec Unit _ hb.low _ s hb.vmmInit
  have hun : UncountedPage s 8 := by
    refine ⟨hfree, by decide, by decide, ⟨[], ?_, nofun⟩, 0x1000, hfirst, by decide⟩
    exact hlist
  obtain ⟨bs, hinv, -⟩ := heapInv_reach hrun.reach
  obtain rfl := hinv.list_eq_zero.mp hlist
  obtain ⟨p, s', bs', e, -, hon⟩ := kmalloc_on hinv 8 (hrun.fresh hb.low)
  have hp : p = 0 := (hon.null_iff hmax (by decide)).mpr
    (.inr (.inr ⟨nofun, .inr ⟨0x1000, hfirst, by decide⟩⟩))
  have hkeeps := hon.null_keeps hinv.seg hmax (by rw [hfree]; decide) hp
  subst hp
  have hne : s'.pmm.freePages ≠ s.pmm.freePages := fun he => hkeeps.2.2.2.mp he hun
  refine ⟨_, _, _, s, s', hb, .boot, e, hfree, hfree ▸ hne, fun hmeets => ?_⟩
  obtain ⟨_, _, _, _, e₂, _, hsame⟩ := hmeets
  cases e.symm.trans e₂
  exact hne (hsame rfl).2.2.2

end Emyx
