/-
  File:      Emyx/Heap/Run.lean
  Subject:   HEAP SAFETY. Every run of `kmalloc` and `kfree`, among clients that keep to what they
             hold, keeps a list of disjoint blocks inside the heap's pages.

  * `HeapInv s bs` -- the memory of `s` holds the block list `bs`, which has its shape;
  * `kmalloc_spec`, `kfree_spec` -- the two calls return, keep the invariant, add or remove one
    allocation, and write only heap bytes that no one holds;
  * `HeapReach` -- runs, with the clients' stores and other users of the page allocator between
    the calls;
  * **`heapSafe_reach`** -- in every state of every run the heap is safe (`HeapSafe`) and the next
    call returns.
-/
import Emyx.Heap.Spec

namespace Emyx

open Lib

/-! ## 1. The invariant -/

structure HeapInv (s : Mm) (bs : List Blk) : Prop where
  shape : Shape s.heapPages bs
  seg : Seg s.mem s.list bs 0

/-- The byte belongs to the payload of a block in use. -/
def InUse (bs : List Blk) (x : Nat) : Prop :=
  ∃ b ∈ bs, b.req ≠ none ∧ b.addr + 12 ≤ x ∧ x < b.addr + 12 + b.size

theorem HeapInv.list_eq_zero {s : Mm} {bs : List Blk} (h : HeapInv s bs) : s.list = 0 ↔ bs = [] := by
  cases bs with
  | nil => exact ⟨fun _ => rfl, fun _ => h.seg⟩
  | cons b bs =>
    have hp : s.list = 0xC0000000 + b.addr := h.seg.1
    refine ⟨fun h0 => by omega, fun hc => by cases hc⟩

/-- The invariant survives any change of memory off the headers. -/
theorem HeapInv.congr {s s' : Mm} {bs : List Blk} (h : HeapInv s bs) (hl : s'.list = s.list)
    (hp : s'.heapPages = s.heapPages)
    (he : ∀ b ∈ bs, ∀ x, b.addr ≤ x → x < b.addr + 12 → s'.mem x = s.mem x) : HeapInv s' bs :=
  ⟨by rw [hp]; exact h.shape, by rw [hl]; exact h.seg.congr he⟩

/-- Bytes of a free block are not in use. -/
theorem not_inUse {bs pre post : List Blk} {b : Blk} (e : bs = pre ++ b :: post)
    (hap : bs.Pairwise Blk.Apart) (hb : b.req = none) {x : Nat} (h1 : b.addr ≤ x)
    (h2 : x < b.addr + 12 + b.size) : ¬ InUse bs x := by
  intro hx
  obtain ⟨c, hc, hr, h3, h4⟩ := hx
  have hbm : b ∈ bs := by
    rw [e]
    exact List.mem_append_right _ List.mem_cons_self
  have hne : b ≠ c := fun hbc => hr (hbc ▸ hb)
  have := hap.forall hbm hc hne
  unfold Blk.Apart at this
  omega

/-! ## 2. `kmalloc` -/

theorem alignSize_some {n a : Nat} (h : alignSize n = some a) : 0 < n ∧ n ≤ a := by
  unfold alignSize at h
  split at h
  · cases h
  · split at h
    · cases h
    · rename_i h0 hle
      cases h
      have := @alignUp_eq 32 3 n (by decide) (by omega)
      rw [show (2 : Nat) ^ 3 = 8 from rfl] at this
      rw [show (2 : Nat) ^ 32 - 1 - (8 - 1) = 2 ^ 32 - 8 by decide, this]
      omega

/-- `alloc_from_block` on a block of the list that can serve the request. -/
theorem HeapInv.take {s : Mm} {bs pre post : List Blk} {b : Blk} {n k : Nat} (h : HeapInv s bs)
    (e : bs = pre ++ b :: post) (hb : b.Serves n) (hk : k ≤ n) :
    ∃ m', allocFromBlock s.mem b.ptr n = .ok (b.payload, m') ∧
      HeapInv { s with mem := m' } (pre ++ (splitBlock b n k ++ post)) ∧
      (allocs (pre ++ (splitBlock b n k ++ post))).Perm ((b.payload, k) :: allocs bs) ∧
      AgreeOn (fun x => ¬ InPages s.heapPages x) s.mem m' ∧ AgreeOn (InUse bs) s.mem m' := by
  have hbm : b ∈ bs := by
    rw [e]
    exact List.mem_append_right _ List.mem_cons_self
  have hseg := h.seg
  have hshape := h.shape
  rw [e] at hseg hshape
  obtain ⟨next, hpre, hhold, hpost⟩ := seg_middle.mp hseg
  obtain ⟨m', halloc, hag, hmid⟩ := allocFromBlock_spec k hhold hb.2 (h.shape.bound hbm)
  refine ⟨m', halloc, ⟨hshape.split hb.2 hk, seg_change hshape.apart hpre hpost hag hmid⟩,
    ?_, ?_, ?_⟩
  · rw [e]
    exact allocs_split hb.1
  · exact hag.mono fun x hx hin => hx (h.shape.inside b hbm x hin.1 hin.2)
  · exact hag.mono fun x hx hin => not_inUse e h.shape.apart hb.1 hin.1 hin.2 hx

theorem payload_ne_zero (b : Blk) : b.payload ≠ 0 := by
  unfold Blk.payload Blk.ptr
  omega

theorem HeapInv.search {s : Mm} {bs : List Blk} (h : HeapInv s bs) (n : Nat) :
    (∃ pre b post last, bs = pre ++ b :: post ∧ b.Serves n ∧ (∀ c ∈ pre, ¬ c.Serves n) ∧
      findFree s.mem n (2 ^ 32 + 1) s.list 0 = .ok (some b.ptr, last)) ∨
    ((∀ b ∈ bs, ¬ b.Serves n) ∧
      findFree s.mem n (2 ^ 32 + 1) s.list 0 = .ok (none, lastPtr 0 bs)) := by
  have hlen : bs.length < 2 ^ 32 + 1 := by
    have := h.shape.length_le
    omega
  exact findFree_spec h.seg (fun b hb => by have := h.shape.bound hb; omega) hlen

/-- The list can serve the request: the first block that is large enough does, and no page is
    taken. -/
theorem kmallocFrom_found {s : Mm} {bs : List Blk} {n k : Nat} (h : HeapInv s bs) (hk : k ≤ n)
    (hex : ∃ b ∈ bs, b.Serves n) :
    ∃ pre b post m', bs = pre ++ b :: post ∧ b.Serves n ∧ (∀ c ∈ pre, ¬ c.Serves n) ∧
      kmallocFrom s n = .ok (b.payload, { s with mem := m' }) ∧
      HeapInv { s with mem := m' } (pre ++ (splitBlock b n k ++ post)) ∧
      (allocs (pre ++ (splitBlock b n k ++ post))).Perm ((b.payload, k) :: allocs bs) ∧
      AgreeOn (fun x => ¬ InPages s.heapPages x) s.mem m' ∧ AgreeOn (InUse bs) s.mem m' := by
  rcases h.search n with ⟨pre, b, post, last, e, hb, hfirst, hfind⟩ | ⟨hall, _⟩
  · obtain ⟨m', halloc, hrest⟩ := h.take e hb hk
    refine ⟨pre, b, post, m', e, hb, hfirst, ?_, hrest⟩
    unfold kmallocFrom
    rw [hfind]
    simp only [ok_bind]
    rw [halloc]
    rfl
  · obtain ⟨b, hb, hserve⟩ := hex
    exact absurd hserve (hall b hb)

/-- A page that the heap does not hold, linked in behind the last block. -/
theorem HeapInv.append {s : Mm} {pre : List Blk} {b : Blk} {f : Nat} {m1 : Mem} (p' : Pmm)
    (h : HeapInv s (pre ++ [b])) (hf : f ∉ s.heapPages) (hal : f % 4096 = 0)
    (hlt : f < 0x1000000) (hnew : Holds m1 (pageBlock f) 0)
    (hag : AgreeOn (fun x => ¬ (f ≤ x ∧ x < f + 12)) s.mem m1) :
    HeapInv { s with pmm := p', heapPages := f :: s.heapPages,
                     mem := wr32 m1 (b.addr + 8) (0xC0000000 + f) }
      (pre ++ [b] ++ [pageBlock f]) := by
  have hshape := h.shape.grow hf hal (by omega)
  have hbm : b ∈ pre ++ [b] := List.mem_append_right _ List.mem_cons_self
  have hpage : ∀ c ∈ pre ++ [b], c.Apart (pageBlock f) := fun c hc => by
    have := hshape.apart
    rw [List.pairwise_append] at this
    exact this.2.2 c hc _ List.mem_cons_self
  -- the old headers are in `m1` what they were, and only `b`'s link is written after that
  have hold : Seg m1 s.list (pre ++ [b]) 0 := h.seg.congr fun c hc x h1 h2 => hag x fun hx => by
    have := hpage c hc
    unfold Blk.Apart pageBlock at this
    simp only at this
    omega
  obtain ⟨next, hpre, hb, _⟩ := seg_middle.mp hold
  have hb' : Holds (wr32 m1 (b.addr + 8) (0xC0000000 + f)) b (0xC0000000 + f) := by
    refine ⟨?_, ?_, ?_⟩
    · rw [rd32_wr32_outside (by omega)]
      exact hb.size
    · rw [wr32_outside (by omega)]
      exact hb.free
    · rw [rd32_wr32]
      exact Nat.mod_eq_of_lt (by omega)
  have hoff : ∀ c : Blk, c.Apart b → ∀ x, c.addr ≤ x → x < c.addr + 12 →
      wr32 m1 (b.addr + 8) (0xC0000000 + f) x = m1 x := fun c hc x h1 h2 => by
    unfold Blk.Apart at hc
    exact wr32_outside (by omega)
  refine ⟨hshape, ?_⟩
  show Seg (wr32 m1 (b.addr + 8) (0xC0000000 + f)) s.list (pre ++ [b] ++ [pageBlock f]) 0
  refine seg_append.mpr ⟨0xC0000000 + f, seg_middle.mpr ⟨_, ?_, hb', rfl⟩, rfl, 0, ?_, rfl⟩
  · exact hpre.congr fun c hc => hoff c (symm_of _ (pairwise_middle h.shape.apart (Or.inl hc)))
  · exact hnew.congr (hoff _ (symm_of _ (hpage b hbm)))

theorem lastPtr_append (last : Nat) (pre : List Blk) (b : Blk) :
    lastPtr last (pre ++ [b]) = b.ptr := by
  induction pre generalizing last with
  | nil => rfl
  | cons c pre ih => exact ih c.ptr

/-- What a heap call does to the pages: nothing, or what one `new_block` does. -/
def PagesStep (s s' : Mm) : Prop :=
  s'.pmm = s.pmm ∧ s'.heapPages = s.heapPages ∨
  ∃ r, Grows s (pmmAllocPage s.pmm).1 s'.pmm s'.heapPages r

/-- Why a request for `k` bytes may fail: its size, or no page in the direct map's reach. -/
def HeapRefuses (s : Mm) (k : Nat) : Prop :=
  (∀ n, alignSize k = some n → 4096 - 12 < n) ∨
    (pmmAllocPage s.pmm).1 = 0 ∨ 0x1000000 ≤ (pmmAllocPage s.pmm).1

/-- **What `kmalloc` for `k` bytes can do** to the list `bs`: refuse the size; serve the request
    from the first block that is large enough; serve it from a new page behind the list; or find
    neither. -/
inductive KmallocOn (s : Mm) (bs : List Blk) (k : Nat) : Nat → Mm → List Blk → Prop where
  | refuse (h : ∀ n, alignSize k = some n → 4096 - 12 < n) : KmallocOn s bs k 0 s bs
  | reuse {n : Nat} {pre post : List Blk} {b : Blk} {m' : Mem} (hn : alignSize k = some n)
      (hsize : n ≤ 4096 - 12) (e : bs = pre ++ b :: post) (hb : b.Serves n)
      (hfirst : ∀ c ∈ pre, ¬ c.Serves n) :
      KmallocOn s bs k b.payload { s with mem := m' } (pre ++ (splitBlock b n k ++ post))
  | grow {n f list' : Nat} {m' : Mem} (hn : alignSize k = some n) (hsize : n ≤ 4096 - 12)
      (hnone : ∀ b ∈ bs, ¬ b.Serves n) (hf : (pmmAllocPage s.pmm).1 = f) (h0 : f ≠ 0)
      (hlt : f < 0x1000000) :
      KmallocOn s bs k (pageBlock f).payload
        { s with pmm := (pmmAllocPage s.pmm).2, heapPages := f :: s.heapPages, list := list',
                 mem := m' }
        (bs ++ splitBlock (pageBlock f) n k)
  | full {n : Nat} {p' : Pmm} (hn : alignSize k = some n) (hsize : n ≤ 4096 - 12)
      (hnone : ∀ b ∈ bs, ¬ b.Serves n)
      (hpage : Grows s (pmmAllocPage s.pmm).1 p' s.heapPages 0) :
      KmallocOn s bs k 0 { s with pmm := p' } bs

/-- What a call of `kmalloc` for `k` bytes that returned `p` leaves. -/
structure Served (s : Mm) (bs : List Blk) (k p : Nat) (s' : Mm) (bs' : List Blk) : Prop where
  inv : HeapInv s' bs'
  allocs : (allocs bs').Perm (if p = 0 then allocs bs else (p, k) :: allocs bs)
  pages : PagesStep s s'
  heapOnly : AgreeOn (fun x => ¬ InPages s'.heapPages x) s.mem s'.mem
  kept : AgreeOn (InUse bs) s.mem s'.mem
  vm : s'.kernelPageDirectory = s.kernelPageDirectory ∧ s'.spaces = s.spaces ∧
    s'.strayDestroys = s.strayDestroys
  refused : p = 0 → HeapRefuses s k

/-- The call changed nothing but the page allocator. -/
theorem served_none {s s' : Mm} {bs : List Blk} {k : Nat} (h : HeapInv s bs) (hm : s'.mem = s.mem)
    (hl : s'.list = s.list) (hg : s'.heapPages = s.heapPages) (hp : PagesStep s s')
    (hvm : s'.kernelPageDirectory = s.kernelPageDirectory ∧ s'.spaces = s.spaces ∧
      s'.strayDestroys = s.strayDestroys) (hr : HeapRefuses s k) : Served s bs k 0 s' bs := by
  refine ⟨h.congr hl hg fun b _ x _ _ => by rw [hm], .refl _, hp, ?_, ?_, hvm, fun _ => hr⟩
  · rw [hm]
    exact .refl _ _
  · rw [hm]
    exact .refl _ _

/-- The list cannot serve the request: a page is taken and appended, if there is one. -/
theorem kmallocFrom_grow {s : Mm} {pre : List Blk} {b : Blk} {n k : Nat}
    (h : HeapInv s (pre ++ [b])) (hk : alignSize k = some n) (hn : n ≤ 4096 - 12)
    (hnone : ∀ c ∈ pre ++ [b], ¬ c.Serves n)
    (hfresh : (pmmAllocPage s.pmm).1 ≠ 0 → (pmmAllocPage s.pmm).1 ∉ s.heapPages) :
    ∃ p s' bs', kmallocFrom s n = .ok (p, s') ∧ Served s (pre ++ [b]) k p s' bs' ∧
      KmallocOn s (pre ++ [b]) k p s' bs' := by
  rcases h.search n with ⟨pre', c, post, last, e, hc, _⟩ | ⟨_, hfind⟩
  · refine absurd hc (hnone c ?_)
    rw [e]
    exact List.mem_append_right _ List.mem_cons_self
  · obtain ⟨p', pages', m1, r, hnew, hgrow, hm0, hm1⟩ := newBlock_spec s
    unfold kmallocFrom
    rw [hfind]
    simp only [ok_bind, hnew]
    have hal := pmmAllocPage_aligned s.pmm
    have hgrow' := hgrow
    rcases hgrow with h0 | h0 | ⟨h0, hlt⟩
    · rw [if_pos rfl, hm0 rfl]
      exact ⟨0, _, _, rfl, served_none h rfl rfl rfl (Or.inr ⟨_, hgrow'⟩) ⟨rfl, rfl, rfl⟩
        (Or.inr (Or.inl h0)), .full hk hn hnone hgrow'⟩
    · rw [if_pos rfl, hm0 rfl]
      exact ⟨0, _, _, rfl, served_none h rfl rfl rfl (Or.inr ⟨_, hgrow'⟩) ⟨rfl, rfl, rfl⟩
        (Or.inr (Or.inr h0)), .full hk hn hnone hgrow'⟩
    · obtain ⟨hhold, hag⟩ := hm1 (by omega)
      have hpages' : PagesStep s
          { s with pmm := (pmmAllocPage s.pmm).2
                   heapPages := (pmmAllocPage s.pmm).1 :: s.heapPages } := Or.inr ⟨_, hgrow'⟩
      generalize hf : (pmmAllocPage s.pmm).1 = f at *
      have hinv := h.append (pmmAllocPage s.pmm).2 (hfresh h0) hal hlt hhold hag
      have hbm : b ∈ pre ++ [b] := List.mem_append_right _ List.mem_cons_self
      have hbl := h.shape.bound hbm
      obtain ⟨m', htake, hinv', hperm, hpages, hkept⟩ :=
        hinv.take (b := pageBlock f) (n := n) (k := k) rfl ⟨rfl, hn⟩ (alignSize_some hk).2
      rw [List.append_nil] at hinv' hperm
      have hptr : b.ptr = 0xC0000000 + b.addr := rfl
      rw [if_neg (by omega), lastPtr_append, poke32_ok (b.addr + 8) (by omega) (by omega), ok_bind]
      refine ⟨(pageBlock f).payload, _, _, bind_ok.mpr ⟨_, htake, rfl⟩, ⟨hinv', ?_,
        hpages', fun x hx => ?_, fun x hx => ?_, ⟨rfl, rfl, rfl⟩,
        fun h0 => absurd h0 (payload_ne_zero _)⟩, .grow hk hn hnone hf h0 hlt⟩
      · rw [if_neg (payload_ne_zero _)]
        rwa [allocs_append _ [pageBlock f], show allocs [pageBlock f] = [] from rfl,
          List.append_nil] at hperm
      · have hxb : x < b.addr + 8 ∨ b.addr + 8 + 4 ≤ x := by
          by_contra hc
          obtain ⟨g, hg, hin⟩ := h.shape.inside b hbm x (by omega) (by omega)
          exact hx ⟨g, List.mem_cons_of_mem _ hg, hin⟩
        refine (hpages x hx).trans ((wr32_outside hxb).trans (hag x fun hf => ?_))
        exact hx ⟨f, List.mem_cons_self, hf.1, by omega⟩
      · have hx' : InUse (pre ++ [b] ++ [pageBlock f]) x := by
          obtain ⟨c, hc, hcx⟩ := hx
          exact ⟨c, List.mem_append_left _ hc, hcx⟩
        have hxf : ¬ (f ≤ x ∧ x < f + 12) := fun hf =>
          not_inUse rfl hinv.shape.apart (b := pageBlock f) rfl hf.1 (by
            unfold pageBlock
            simp only
            omega) hx'
        have hxb : x < b.addr + 8 ∨ b.addr + 8 + 4 ≤ x := by
          obtain ⟨c, hc, _, h1, h2⟩ := hx
          by_cases hcb : b = c
          · subst hcb
            omega
          · have := h.shape.apart.forall hbm hc hcb
            unfold Blk.Apart at this
            omega
        exact (hkept x hx').trans ((wr32_outside hxb).trans (hag x hxf))

/-- **`kmalloc` returns**, and does one of the four things it can do. -/
theorem kmalloc_on {s : Mm} {bs : List Blk} (h : HeapInv s bs) (k : Nat)
    (hfresh : (pmmAllocPage s.pmm).1 ≠ 0 → (pmmAllocPage s.pmm).1 ∉ s.heapPages) :
    ∃ p s' bs', kmalloc s k = .ok (p, s') ∧ Served s bs k p s' bs' ∧ KmallocOn s bs k p s' bs' := by
  have hself : (∀ n, alignSize k = some n → 4096 - 12 < n) →
      Served s bs k 0 s bs ∧ KmallocOn s bs k 0 s bs := fun hr =>
    ⟨served_none h rfl rfl rfl (Or.inl ⟨rfl, rfl⟩) ⟨rfl, rfl, rfl⟩ (Or.inl hr), .refuse hr⟩
  unfold kmalloc
  cases hn : alignSize k with
  | none => exact ⟨0, s, bs, rfl, hself fun n hc => by rw [hn] at hc; cases hc⟩
  | some n =>
    obtain ⟨_, hk⟩ := alignSize_some hn
    simp only
    by_cases hbig : n > 4096 - 12
    · rw [if_pos hbig]
      exact ⟨0, s, bs, rfl, hself fun n' hc => by rw [hn] at hc; cases hc; exact hbig⟩
    · rw [if_neg hbig]
      have hsize : n ≤ 4096 - 12 := Nat.not_lt.mp hbig
      by_cases hl : s.list = 0
      · -- the first page: its block serves the request
        rw [if_pos hl]
        have hbs := h.list_eq_zero.mp hl
        subst hbs
        have hnone : ∀ b ∈ ([] : List Blk), ¬ b.Serves n := nofun
        have hlist : ∀ q, ({ s with pmm := q, list := 0 } : Mm) = { s with pmm := q } := fun q => by
          rw [← hl]
        obtain ⟨p', pages', m1, r, hnew, hgrow, hm0, hm1⟩ := newBlock_spec s
        rw [hnew]
        simp only [ok_bind]
        have hal := pmmAllocPage_aligned s.pmm
        have hgrow' := hgrow
        rcases hgrow with h0 | h0 | ⟨h0, hlt⟩
        · rw [if_pos rfl, hm0 rfl, hlist]
          exact ⟨0, _, _, rfl, served_none h rfl rfl rfl (Or.inr ⟨_, hgrow'⟩) ⟨rfl, rfl, rfl⟩
            (Or.inr (Or.inl h0)), .full hn hsize hnone hgrow'⟩
        · rw [if_pos rfl, hm0 rfl, hlist]
          exact ⟨0, _, _, rfl, served_none h rfl rfl rfl (Or.inr ⟨_, hgrow'⟩) ⟨rfl, rfl, rfl⟩
            (Or.inr (Or.inr h0)), .full hn hsize hnone hgrow'⟩
        · obtain ⟨hhold, hag⟩ := hm1 (by omega)
          have hpages' : PagesStep s
              { s with pmm := (pmmAllocPage s.pmm).2
                       heapPages := (pmmAllocPage s.pmm).1 :: s.heapPages } := Or.inr ⟨_, hgrow'⟩
          generalize hf : (pmmAllocPage s.pmm).1 = f at *
          have hinv : HeapInv { s with pmm := (pmmAllocPage s.pmm).2, heapPages := f :: s.heapPages,
                                       mem := m1, list := 0xC0000000 + f } [pageBlock f] :=
            ⟨h.shape.grow (hfresh h0) hal (by omega), rfl, 0, hhold, rfl⟩
          have hserves : (pageBlock f).Serves n := ⟨rfl, hsize⟩
          obtain ⟨pre, b, post, m', hsplit, _, _, e, hinv', hperm, hpg, hkept⟩ :=
            kmallocFrom_found hinv hk ⟨pageBlock f, List.mem_cons_self, hserves⟩
          obtain ⟨rfl, rfl, rfl⟩ : pre = [] ∧ b = pageBlock f ∧ post = [] := by
            cases pre with
            | nil =>
              cases hsplit
              exact ⟨rfl, rfl, rfl⟩
            | cons c pre =>
              have hlen := congrArg List.length hsplit
              simp at hlen
          rw [List.nil_append, List.append_nil] at hinv' hperm
          rw [if_neg (by omega), e]
          refine ⟨_, _, _, rfl, ⟨hinv', ?_, hpages', fun x hx => ?_, fun x hx => ?_,
            ⟨rfl, rfl, rfl⟩, fun h0 => absurd h0 (payload_ne_zero _)⟩,
            .grow hn hsize hnone hf h0 hlt⟩
          · rw [if_neg (payload_ne_zero _)]
            exact hperm
          · refine (hpg x hx).trans (hag x fun hf => ?_)
            exact hx ⟨f, List.mem_cons_self, hf.1, by omega⟩
          · obtain ⟨b, hb, _⟩ := hx
            cases hb
      · rw [if_neg hl]
        by_cases hex : ∃ b ∈ bs, b.Serves n
        · obtain ⟨pre, b, post, m', hsplit, hb, hfirst, e, hinv', hperm, hpg, hkept⟩ :=
            kmallocFrom_found h hk hex
          refine ⟨_, _, _, e, ⟨hinv', ?_, Or.inl ⟨rfl, rfl⟩, hpg, hkept, ⟨rfl, rfl, rfl⟩,
            fun h0 => absurd h0 (payload_ne_zero b)⟩, .reuse hn hsize hsplit hb hfirst⟩
          rw [if_neg (payload_ne_zero b)]
          exact hperm
        · push Not at hex
          have hne : bs ≠ [] := fun hc => hl (h.list_eq_zero.mpr hc)
          obtain ⟨pre, b, rfl⟩ := List.eq_nil_or_concat' bs |>.resolve_left hne
          exact kmallocFrom_grow h hn hsize hex hfresh

/-- **`kmalloc` returns**, with `NULL` or a pointer to a block of its own. -/
theorem kmalloc_spec {s : Mm} {bs : List Blk} (h : HeapInv s bs) (k : Nat)
    (hfresh : (pmmAllocPage s.pmm).1 ≠ 0 → (pmmAllocPage s.pmm).1 ∉ s.heapPages) :
    ∃ p s' bs', kmalloc s k = .ok (p, s') ∧ Served s bs k p s' bs' := by
  obtain ⟨p, s', bs', e, hs, _⟩ := kmalloc_on h k hfresh
  exact ⟨p, s', bs', e, hs⟩

/-- The first block that is large enough serves the request: no page is taken. -/
theorem kmalloc_reuse {s : Mm} {pre post : List Blk} {b : Blk} {k n : Nat}
    (h : HeapInv s (pre ++ b :: post)) (hn : alignSize k = some n) (hsize : n ≤ 4096 - 12)
    (hb : b.Serves n) (hfirst : ∀ c ∈ pre, ¬ c.Serves n) :
    ∃ m', kmalloc s k = .ok (b.payload, { s with mem := m' }) ∧
      HeapInv { s with mem := m' } (pre ++ (splitBlock b n k ++ post)) := by
  have hl : s.list ≠ 0 := fun hl => by
    have := h.list_eq_zero.mp hl
    simp at this
  obtain ⟨_, _, _, m', e', hb', hfirst', e, hinv, _⟩ := kmallocFrom_found h (alignSize_some hn).2
    ⟨b, List.mem_append_right _ List.mem_cons_self, hb⟩
  obtain ⟨rfl, rfl, rfl⟩ := first_unique e' hb hb' hfirst hfirst'
  refine ⟨m', ?_, hinv⟩
  unfold kmalloc
  rw [hn]
  simp only
  rw [if_neg (Nat.not_lt.mpr hsize), if_neg hl]
  exact e

/-- A free block that is large enough is used: no page is taken. -/
theorem kmalloc_reuses {s : Mm} {bs : List Blk} (h : HeapInv s bs) {k n : Nat}
    (hn : alignSize k = some n) (hsize : n ≤ 4096 - 12) (hex : ∃ b ∈ bs, b.Serves n) :
    ∃ p m', kmalloc s k = .ok (p, { s with mem := m' }) ∧ p ≠ 0 := by
  obtain ⟨pre, b, post, _, rfl, hb, hfirst, _⟩ := kmallocFrom_found h (alignSize_some hn).2 hex
  obtain ⟨m', e, _⟩ := kmalloc_reuse h hn hsize hb hfirst
  exact ⟨b.payload, m', e, payload_ne_zero b⟩

/-- The search on a list that cannot serve the request. -/
theorem findFree_none {m : Mem} {n p : Nat} {bs : List Blk} (h : Seg m p bs 0)
    (hlim : ∀ b ∈ bs, b.addr + 12 ≤ 0x1000000) (hlen : bs.length ≤ 2 ^ 32)
    (hnone : ∀ b ∈ bs, ¬ b.Serves n) :
    findFree m n (2 ^ 32 + 1) p 0 = .ok (none, lastPtr 0 bs) := by
  rcases findFree_spec h hlim (Nat.lt_succ_of_le hlen) with ⟨pre, b, post, _, rfl, hb, _⟩ | ⟨_, e⟩
  · exact absurd hb (hnone b (List.mem_append_right _ List.mem_cons_self))
  · exact e

/-- `new_block` when the page allocator has a page in the direct map. -/
theorem newBlock_page {s : Mm} {f : Nat} {p' : Pmm} (hf : pmmAllocPage s.pmm = (f, p')) (h0 : f ≠ 0)
    (hlt : f < 0x1000000) :
    ∃ m', newBlock s =
        .ok (0xC0000000 + f, { s with pmm := p', heapPages := f :: s.heapPages, mem := m' }) ∧
      Holds m' (pageBlock f) 0 ∧ (pageBlock f).addr + 12 + (pageBlock f).size ≤ 0x1000000 := by
  obtain ⟨q, pages, m', r, hnew, hgrow, -, hm'⟩ := newBlock_spec s
  have hal := pmmAllocPage_aligned s.pmm
  rw [hf] at hgrow hm' hal
  rcases hgrow with h | h | ⟨_, _⟩
  · exact absurd h h0
  · exact absurd hlt (Nat.not_lt.mpr h)
  rw [hf] at hnew
  refine ⟨m', hnew, (hm' (by omega)).1, ?_⟩
  unfold pageBlock
  simp only at hal ⊢
  omega

/-- The first request is served from the start of the first page. -/
theorem kmalloc_first {s : Mm} {f k n : Nat} {p' : Pmm} (hl : s.list = 0)
    (hf : pmmAllocPage s.pmm = (f, p')) (h0 : f ≠ 0) (hlt : f < 0x1000000)
    (hn : alignSize k = some n) (hsize : n ≤ 4096 - 12) :
    ∃ m', kmalloc s k = .ok ((pageBlock f).payload,
        { s with pmm := p', heapPages := f :: s.heapPages, list := (pageBlock f).ptr, mem := m' }) ∧
      Seg m' (pageBlock f).ptr (splitBlock (pageBlock f) n k) 0 := by
  obtain ⟨m1, hnew, hhold, hbound⟩ := newBlock_page hf h0 hlt
  obtain ⟨m', htake, -, hseg⟩ := allocFromBlock_spec k hhold hsize hbound
  refine ⟨m', ?_, hseg⟩
  have hptr : 0xC0000000 + f = (pageBlock f).ptr := rfl
  have hfind : findFree m1 n (2 ^ 32 + 1) (pageBlock f).ptr 0 = .ok (some (pageBlock f).ptr, 0) := by
    have hload := loadBlock_holds hhold (Nat.le_of_add_right_le hbound)
    rw [findFree, if_neg (by unfold Blk.ptr; omega)]
    exact bind_ok.mpr ⟨_, hload, if_pos ⟨by simp [pageBlock], hsize⟩⟩
  unfold kmalloc
  rw [hn]
  simp only
  rw [if_neg (Nat.not_lt.mpr hsize), if_pos hl, hnew]
  simp only [ok_bind]
  rw [if_neg (by omega), hptr]
  unfold kmallocFrom
  simp only [hfind, ok_bind, htake]
  rfl

/-- A request that the list cannot serve is served from the start of the next page, whatever that
    page was before: here it may be one the heap has. -/
theorem kmalloc_next {s : Mm} {f k n : Nat} {p' : Pmm} {pre : List Blk} {b : Blk}
    (hseg : Seg s.mem s.list (pre ++ [b]) 0)
    (hlim : ∀ c ∈ pre ++ [b], c.addr + 12 ≤ 0x1000000) (hlen : pre.length < 2 ^ 32)
    (hnone : ∀ c ∈ pre ++ [b], ¬ c.Serves n) (hf : pmmAllocPage s.pmm = (f, p')) (h0 : f ≠ 0)
    (hlt : f < 0x1000000) (hb : b.addr + 12 ≤ f ∨ f + 12 ≤ b.addr)
    (hn : alignSize k = some n) (hsize : n ≤ 4096 - 12) :
    ∃ m', kmalloc s k = .ok ((pageBlock f).payload,
      { s with pmm := p', heapPages := f :: s.heapPages, mem := m' }) := by
  have hl : s.list ≠ 0 := by
    rw [seg_append] at hseg
    obtain ⟨r, hpre, hlast⟩ := hseg
    cases pre with
    | nil =>
      rw [show s.list = r from hpre, hlast.1]
      unfold Blk.ptr
      omega
    | cons c pre =>
      rw [hpre.1]
      unfold Blk.ptr
      omega
  obtain ⟨m1, hnew, hhold, hbound⟩ := newBlock_page hf h0 hlt
  have hbl := hlim b (List.mem_append_right _ List.mem_cons_self)
  -- the link written into the last block is off the new header
  have hhold' : Holds (wr32 m1 (b.addr + 8) (0xC0000000 + f)) (pageBlock f) 0 :=
    hhold.congr fun x h1 h2 => wr32_outside (by
      unfold pageBlock at h1 h2
      simp only at h1 h2
      omega)
  obtain ⟨m', htake, -, -⟩ := allocFromBlock_spec k hhold' hsize hbound
  refine ⟨m', ?_⟩
  have hfind := findFree_none hseg hlim (by rw [List.length_append]; exact hlen) hnone
  unfold kmalloc
  rw [hn]
  simp only
  rw [if_neg (Nat.not_lt.mpr hsize), if_neg hl]
  unfold kmallocFrom
  rw [hfind]
  simp only [ok_bind, hnew]
  have hptr : b.ptr = 0xC0000000 + b.addr := rfl
  rw [if_neg (by omega), lastPtr_append, poke32_ok (b.addr + 8) (by omega) (by omega), ok_bind]
  exact bind_ok.mpr ⟨_, htake, rfl⟩

/-! ## 3. `kfree` -/

/-- What a call of `kfree` for the allocation `a` leaves. -/
structure Released (s : Mm) (bs : List Blk) (a : Nat × Nat) (m' : Mem) (bs' : List Blk) : Prop where
  inv : HeapInv { s with mem := m' } bs'
  allocs : (allocs bs).Perm (a :: allocs bs')
  heapOnly : AgreeOn (fun x => ¬ InPages s.heapPages x) s.mem m'
  kept : AgreeOn (InUse bs) s.mem m'
  room : ∃ b ∈ bs', b.Serves a.2

/-- **`kfree` returns**: the block is free again, merged with the free blocks that follow it in
    memory. -/
theorem kfree_on {s : Mm} {pre post : List Blk} {b : Blk} {k : Nat}
    (h : HeapInv s (pre ++ b :: post)) (hreq : b.req = some k) :
    ∃ m', kfree s b.payload = .ok { s with mem := m' } ∧
      Released s (pre ++ b :: post) (b.payload, k) m'
        (pre ++ mergeNext ⟨b.addr, b.size, none⟩ post) := by
  have hbm : b ∈ pre ++ b :: post := List.mem_append_right _ List.mem_cons_self
  have hbl := h.shape.bound hbm
  obtain ⟨next, hpre, hb, hpost⟩ := seg_middle.mp h.seg
  have hpay : b.payload = 0xC0000000 + b.addr + 12 := rfl
  have hptr : b.ptr = 0xC0000000 + b.addr := rfl
  -- the flag
  have hag1 : AgreeOn (fun x => ¬ (b.addr ≤ x ∧ x < b.addr + 12)) s.mem
      (wr8 s.mem (b.addr + 4) 1) := fun x hx => wr8_outside (by omega)
  have hb1 : Holds (wr8 s.mem (b.addr + 4) 1) ⟨b.addr, b.size, none⟩ next := by
    refine ⟨?_, wr8_self _ _ _, ?_⟩
    · rw [rd32_wr8_outside (by simp only; omega)]
      exact hb.size
    · rw [rd32_wr8_outside (by simp only; omega)]
      exact hb.next
  have hother : ∀ c, c ∈ pre ∨ c ∈ post → ∀ x, c.addr ≤ x → x < c.addr + 12 →
      ¬ (b.addr ≤ x ∧ x < b.addr + 12) := fun c hc x h1 h2 hx => by
    have := pairwise_middle h.shape.apart hc
    unfold Blk.Apart at this
    omega
  have hshape := h.shape.release
  have hap := (List.pairwise_append.mp hshape.apart).2.1
  have hlen : post.length < 2 ^ 32 + 1 := by
    have := h.shape.length_le
    rw [List.length_append, List.length_cons] at this
    omega
  obtain ⟨m', hco, hag2, hseg⟩ := coalesceNext_spec hb1 rfl
    (hpost.congr fun c hc x h1 h2 => hag1 x (hother c (Or.inr hc) x h1 h2)) hap
    (fun c hc => hshape.bound (List.mem_append_right _ hc)) hlen
  have hag : AgreeOn (fun x => ¬ (b.addr ≤ x ∧ x < b.addr + 12)) s.mem m' := hag1.trans hag2
  refine ⟨m', ?_, ⟨hshape.merge, ?_⟩, ?_, ?_, ?_, ?_⟩
  · unfold kfree
    have hblock : (b.payload + 2 ^ 32 - 12) % 2 ^ 32 = b.ptr := by omega
    rw [if_neg (by omega), hblock]
    exact bind_ok.mpr ⟨_, poke8_ok (b.addr + 4) (by omega) (by omega),
      bind_ok.mpr ⟨_, hco, rfl⟩⟩
  · exact seg_append.mpr
      ⟨b.ptr, hpre.congr fun c hc x h1 h2 => hag x (hother c (Or.inl hc) x h1 h2), hseg⟩
  · rw [allocs_append pre (mergeNext _ post), allocs_merge rfl, ← allocs_append]
    exact allocs_release hreq
  · exact hag.mono fun x hx hin => hx (h.shape.inside b hbm x hin.1 (by omega))
  · refine hag.mono fun x hx hin => ?_
    obtain ⟨c, hc, _, h1, h2⟩ := hx
    by_cases hcb : b = c
    · subst hcb
      omega
    · have := h.shape.apart.forall hbm hc hcb
      unfold Blk.Apart at this
      omega
  · obtain ⟨c, hc, hfree, hle⟩ := mergeNext_serves ⟨b.addr, b.size, none⟩ rfl post
    exact ⟨c, List.mem_append_right _ hc, hfree, (h.shape.fits b hbm _ hreq).trans hle⟩

/-- **`kfree` returns**, and takes the allocation off the list. -/
theorem kfree_spec {s : Mm} {bs : List Blk} (h : HeapInv s bs) {a : Nat × Nat}
    (ha : a ∈ allocs bs) :
    ∃ m' bs', kfree s a.1 = .ok { s with mem := m' } ∧ Released s bs a m' bs' := by
  obtain ⟨b, hbm, hreq, hpay⟩ := mem_allocs.mp ha
  obtain ⟨pre, post, rfl⟩ := List.append_of_mem hbm
  obtain ⟨m', e, hr⟩ := kfree_on h hreq
  rw [hpay] at e hr
  exact ⟨m', _, e, hr⟩

/-! ## 4. Runs -/

/-- The byte lies in a heap page, and no holder may write it. -/
def HeapPrivate (s : Mm) (out : List (Nat × Nat)) (x : Nat) : Prop :=
  InPages s.heapPages x ∧ ∀ a ∈ out, ¬ (a.1 ≤ 0xC0000000 + x ∧ 0xC0000000 + x < a.1 + a.2)

/-- Runs of the heap. `out` lists the allocations not yet freed, as pointer and size asked for.
    Between the calls the page allocator serves others, and memory changes anywhere but in the
    heap's private bytes. No page comes twice from the page allocator. -/
inductive HeapReach : Mm → List (Nat × Nat) → Prop where
  | boot (s : Mm) (hl : s.list = 0) (hp : s.heapPages = []) : HeapReach s []
  | kmalloc (s s' : Mm) (out : List (Nat × Nat)) (n p : Nat) (h : HeapReach s out)
      (hfresh : (pmmAllocPage s.pmm).1 ≠ 0 → (pmmAllocPage s.pmm).1 ∉ s.heapPages)
      (e : kmalloc s n = .ok (p, s')) : HeapReach s' (if p = 0 then out else (p, n) :: out)
  | kfree (s s' : Mm) (out : List (Nat × Nat)) (a : Nat × Nat) (h : HeapReach s out)
      (ha : a ∈ out) (e : kfree s a.1 = .ok s') : HeapReach s' (out.erase a)
  | kfreeNull (s s' : Mm) (out : List (Nat × Nat)) (h : HeapReach s out)
      (e : kfree s 0 = .ok s') : HeapReach s' out
  | client (s s' : Mm) (out : List (Nat × Nat)) (h : HeapReach s out) (hl : s'.list = s.list)
      (hp : s'.heapPages = s.heapPages) (hm : AgreeOn (HeapPrivate s out) s.mem s'.mem) :
      HeapReach s' out

/-- A header byte is private. -/
theorem HeapInv.header_private {s : Mm} {bs : List Blk} {out : List (Nat × Nat)} (h : HeapInv s bs)
    (hperm : (allocs bs).Perm out) {b : Blk} (hb : b ∈ bs) {x : Nat} (h1 : b.addr ≤ x)
    (h2 : x < b.addr + 12) : HeapPrivate s out x := by
  refine ⟨h.shape.inside b hb x h1 (by omega), fun a ha hx => ?_⟩
  obtain ⟨c, hc, hreq, hpay⟩ := mem_allocs.mp (hperm.symm.subset ha)
  have hfit := h.shape.fits c hc _ hreq
  have hpay' : a.1 = 0xC0000000 + c.addr + 12 := hpay.symm
  by_cases hbc : b = c
  · subst hbc
    omega
  · have := h.shape.apart.forall hb hc hbc
    unfold Blk.Apart at this
    omega

theorem heapInv_reach {s : Mm} {out : List (Nat × Nat)} (h : HeapReach s out) :
    ∃ bs, HeapInv s bs ∧ (allocs bs).Perm out := by
  induction h with
  | boot s hl hp =>
    refine ⟨[], ⟨⟨?_, List.Pairwise.nil, ?_, ?_⟩, hl⟩, .refl _⟩
    · rw [hp]
      exact fun g hg => absurd hg List.not_mem_nil
    · exact fun b hb => absurd hb List.not_mem_nil
    · exact fun b hb => absurd hb List.not_mem_nil
  | kmalloc s s' out n p _ hfresh e ih =>
    obtain ⟨bs, hinv, hperm⟩ := ih
    obtain ⟨p', s'', bs', e', hserved⟩ := kmalloc_spec hinv n hfresh
    obtain ⟨rfl, rfl⟩ := Prod.mk.inj (Except.ok.inj (e'.symm.trans e))
    refine ⟨bs', hserved.inv, hserved.allocs.trans ?_⟩
    split
    · exact hperm
    · exact hperm.cons _
  | kfree s s' out a _ ha e ih =>
    obtain ⟨bs, hinv, hperm⟩ := ih
    obtain ⟨m', bs', e', hrel⟩ := kfree_spec hinv (hperm.symm.subset ha)
    have hs := Except.ok.inj (e'.symm.trans e)
    subst hs
    refine ⟨bs', hrel.inv, ?_⟩
    have := (hrel.allocs.symm.trans hperm).erase a
    rwa [List.erase_cons_head] at this
  | kfreeNull s s' out _ e ih =>
    have hs : s = s' := Except.ok.inj e
    subst hs
    exact ih
  | client s s' out _ hl hp hm ih =>
    obtain ⟨bs, hinv, hperm⟩ := ih
    exact ⟨bs, hinv.congr hl hp fun b hb x h1 h2 => hm x (hinv.header_private hperm hb h1 h2), hperm⟩

/-! ## 5. Safety -/

/-- The heap is safe, with the block list `bs`. -/
structure HeapSafe (s : Mm) (out : List (Nat × Nat)) (bs : List Blk) : Prop where
  linked : Seg s.mem s.list bs 0
  acyclic : (bs.map Blk.addr).Nodup
  apart : bs.Pairwise Blk.Apart
  inside : ∀ b ∈ bs, ∀ x, b.addr ≤ x → x < b.addr + 12 + b.size → InPages s.heapPages x
  flag : ∀ b ∈ bs, s.mem (b.addr + 4) = 0 ↔ ∃ n, (b.payload, n) ∈ out
  owns : ∀ a ∈ out, ∃ b ∈ bs, b.payload = a.1 ∧ a.2 ≤ b.size
  offHeaders : ∀ a ∈ out, ∀ b ∈ bs, Apart a.1 (a.1 + a.2) b.ptr (b.ptr + 12)
  offPayloads : out.Pairwise fun a c => Apart a.1 (a.1 + a.2) c.1 (c.1 + c.2)

theorem Seg.holds {m : Mem} {p q : Nat} {bs : List Blk} (h : Seg m p bs q) {b : Blk}
    (hb : b ∈ bs) : ∃ next, Holds m b next := by
  obtain ⟨pre, post, rfl⟩ := List.append_of_mem hb
  obtain ⟨next, _, hhold, _⟩ := seg_middle.mp h
  exact ⟨next, hhold⟩

/-- The payloads two blocks' holders asked for are apart. -/
theorem payloads_apart {b c : Blk} {n k : Nat} (h : b.Apart c) (hn : n ≤ b.size) (hk : k ≤ c.size) :
    Apart b.payload (b.payload + n) c.payload (c.payload + k) := fun x h1 h2 h3 => by
  unfold Blk.Apart at h
  unfold Blk.payload Blk.ptr at h1 h2 h3
  omega

theorem HeapInv.safe {s : Mm} {bs : List Blk} {out : List (Nat × Nat)} (h : HeapInv s bs)
    (hperm : (allocs bs).Perm out) : HeapSafe s out bs := by
  have hsymm : ∀ a c : Nat × Nat, Apart a.1 (a.1 + a.2) c.1 (c.1 + c.2) →
      Apart c.1 (c.1 + c.2) a.1 (a.1 + a.2) := fun a c hac x h1 h2 h3 => hac x h3.1 h3.2 ⟨h1, h2⟩
  refine ⟨h.seg, ?_, h.shape.apart, h.shape.inside, fun b hb => ?_, fun a ha => ?_,
    fun a ha b hb x h1 h2 h3 => ?_, (hperm.pairwise_iff (hsymm _ _)).mp ?_⟩
  · refine List.pairwise_map.mpr (h.shape.apart.imp fun hbc e => ?_)
    unfold Blk.Apart at hbc
    omega
  · obtain ⟨next, hhold⟩ := h.seg.holds hb
    rw [hhold.free]
    constructor
    · intro h0
      cases hr : b.req with
      | none =>
        rw [hr, if_pos rfl] at h0
        cases h0
      | some n => exact ⟨n, hperm.subset (mem_allocs.mpr ⟨b, hb, hr, rfl⟩)⟩
    · intro hex
      obtain ⟨n, hn⟩ := hex
      obtain ⟨c, hc, hr, hpay⟩ := mem_allocs.mp (hperm.symm.subset hn)
      have hcb : c = b := h.shape.addr_inj hc hb (by
        unfold Blk.payload Blk.ptr at hpay
        omega)
      subst hcb
      rw [hr]
      rfl
  · obtain ⟨b, hb, hr, hpay⟩ := mem_allocs.mp (hperm.symm.subset ha)
    exact ⟨b, hb, hpay, h.shape.fits b hb _ hr⟩
  · have hpriv := h.header_private hperm hb (x := x - 0xC0000000) (by unfold Blk.ptr at h3; omega)
      (by unfold Blk.ptr at h3; omega)
    have hx : 0xC0000000 + (x - 0xC0000000) = x := by
      unfold Blk.ptr at h3
      omega
    refine hpriv.2 a ha ?_
    rw [hx]
    exact ⟨h1, h2⟩
  · refine List.pairwise_filterMap.mpr (h.shape.apart.imp_of_mem fun hb hc hbc a ha a' ha' => ?_)
    obtain ⟨n, hn, rfl⟩ := Option.map_eq_some_iff.mp ha
    obtain ⟨k, hk, rfl⟩ := Option.map_eq_some_iff.mp ha'
    exact payloads_apart hbc (h.shape.fits _ hb _ hn) (h.shape.fits _ hc _ hk)

/-- **HEAP SAFETY**: in every state of every run the heap is safe, and the next call of `kmalloc`
    or `kfree` returns. -/
theorem heapSafe_reach {s : Mm} {out : List (Nat × Nat)} (h : HeapReach s out) :
    (∃ bs, HeapSafe s out bs) ∧
    (∀ n, ((pmmAllocPage s.pmm).1 ≠ 0 → (pmmAllocPage s.pmm).1 ∉ s.heapPages) →
      ∃ p s', kmalloc s n = .ok (p, s')) ∧
    (∀ a ∈ out, ∃ s', kfree s a.1 = .ok s') := by
  obtain ⟨bs, hinv, hperm⟩ := heapInv_reach h
  refine ⟨⟨bs, hinv.safe hperm⟩, fun n hfresh => ?_, fun a ha => ?_⟩
  · obtain ⟨p, s', _, e, _⟩ := kmalloc_spec hinv n hfresh
    exact ⟨p, s', e⟩
  · obtain ⟨m', _, e, _⟩ := kfree_spec hinv (hperm.symm.subset ha)
    exact ⟨_, e⟩

/-- A machine with three free pages and an empty heap. -/
def freshMm : Mm :=
  { mem := fun _ => 0, pmm := ⟨fun _ => 0, 0x100000, 1, 4, 3, 3⟩, kernelPageDirectory := 0,
    list := 0, heapPages := [], spaces := [], strayDestroys := 0 }

theorem heapSafe_first_page : ∃ p s', kmalloc freshMm 100 = .ok (p, s') ∧
    ∃ bs, HeapSafe s' (if p = 0 then [] else [(p, 100)]) bs := by
  have hboot : HeapReach freshMm [] := .boot _ rfl rfl
  have hfresh : (pmmAllocPage freshMm.pmm).1 ≠ 0 → (pmmAllocPage freshMm.pmm).1 ∉ freshMm.heapPages :=
    fun _ => List.not_mem_nil
  obtain ⟨p, s', e⟩ := (heapSafe_reach hboot).2.1 100 hfresh
  exact ⟨p, s', e, (heapSafe_reach (.kmalloc _ _ _ _ _ hboot hfresh e)).1⟩

end Emyx
