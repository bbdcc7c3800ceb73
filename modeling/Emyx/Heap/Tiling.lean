/-
  File:      Emyx/Heap/Tiling.lean
  Subject:   BYTES THE HEAP LOSES, AND ROOM IT DOES NOT GET BACK.

  `alloc_from_block` sets `block->size` to the size asked for whether or not it splits the block
  off: a remainder below 20 bytes belongs to no block after that. And `coalesce_next` merges a
  freed block with what follows it, never with what is before it.

  * `CutsWhole s k` -- the block a request for `k` bytes is served from has exactly the rounded
    size, or at least 20 bytes more;
  * **`heapTiled_run`** -- along every run whose requests all cut whole blocks, the blocks tile the
    heap's pages; and the next request keeps the tiling exactly if it cuts a whole block;
  * `FreesAhead s a` -- the block before the one freed, in its page, is not free;
  * **`heapReusable`** -- along every run that also frees so, once all is freed any request up to
    4080 bytes is served from the pages the heap has; in any run it is so exactly if some block is
    large enough.
-/
import Emyx.Heap.Run

namespace Emyx

open Lib

/-! ## 1. Blocks that tile the pages -/

/-- The bytes of the blocks, headers included. -/
def heapBytes (bs : List Blk) : Nat := (bs.map fun b => 12 + b.size).sum

@[simp] theorem heapBytes_nil : heapBytes [] = 0 := rfl

@[simp] theorem heapBytes_cons (b : Blk) (bs : List Blk) :
    heapBytes (b :: bs) = 12 + b.size + heapBytes bs := by simp [heapBytes]

@[simp] theorem heapBytes_append (as bs : List Blk) :
    heapBytes (as ++ bs) = heapBytes as + heapBytes bs := by simp [heapBytes]

/-- The byte is one of the block's, header or payload. -/
def Blk.Has (b : Blk) (x : Nat) : Prop := b.addr ≤ x ∧ x < b.addr + 12 + b.size

/-- The blocks have as many bytes as the pages, and every byte of the pages is in one. -/
structure Tiles (pages : List Nat) (bs : List Blk) : Prop where
  bytes : heapBytes bs = 4096 * pages.length
  covers : ∀ x, InPages pages x → ∃ b ∈ bs, b.Has x

/-- Replace a stretch by blocks with the same bytes. -/
theorem Tiles.replace {pages : List Nat} {pre post : List Blk} (old mid : List Blk)
    (h : Tiles pages (pre ++ (old ++ post))) (hbytes : heapBytes mid = heapBytes old)
    (hcover : ∀ o ∈ old, ∀ x, o.Has x → ∃ z ∈ mid, z.Has x) : Tiles pages (pre ++ (mid ++ post)) := by
  refine ⟨?_, fun x hx => ?_⟩
  · have := h.bytes
    simp only [heapBytes_append] at this ⊢
    omega
  · obtain ⟨b, hb, hbx⟩ := h.covers x hx
    simp only [List.mem_append] at hb
    rcases hb with hb | hb | hb
    · exact ⟨b, List.mem_append_left _ hb, hbx⟩
    · obtain ⟨z, hz, hzx⟩ := hcover b hb x hbx
      exact ⟨z, List.mem_append_right _ (List.mem_append_left _ hz), hzx⟩
    · exact ⟨b, List.mem_append_right _ (List.mem_append_right _ hb), hbx⟩

/-- A new page, with its block behind the list. -/
theorem Tiles.grow {pages : List Nat} {bs : List Blk} (h : Tiles pages bs) (f : Nat) :
    Tiles (f :: pages) (bs ++ [pageBlock f]) := by
  refine ⟨?_, fun x hx => ?_⟩
  · have := h.bytes
    simp only [heapBytes_append, heapBytes_cons, heapBytes_nil, pageBlock, List.length_cons]
    omega
  · obtain ⟨g, hg, hgx⟩ := hx
    rcases List.mem_cons.mp hg with rfl | hg
    · refine ⟨pageBlock g, List.mem_append_right _ List.mem_cons_self, hgx.1, ?_⟩
      unfold pageBlock
      simp only
      omega
    · obtain ⟨b, hb, hbx⟩ := h.covers x ⟨g, hg, hgx⟩
      exact ⟨b, List.mem_append_left _ hb, hbx⟩

/-- A block given back by its holder keeps its bytes. -/
theorem Tiles.release {pages : List Nat} {pre post : List Blk} {b : Blk}
    (h : Tiles pages (pre ++ b :: post)) : Tiles pages (pre ++ ⟨b.addr, b.size, none⟩ :: post) := by
  refine h.replace [b] [⟨b.addr, b.size, none⟩] (by simp) fun o ho x hx => ?_
  rw [List.mem_singleton.mp ho] at hx
  exact ⟨_, List.mem_cons_self, hx⟩

/-- Merging keeps every byte. -/
theorem Tiles.merge {pages : List Nat} {pre post : List Blk} {b : Blk}
    (h : Tiles pages (pre ++ b :: post)) : Tiles pages (pre ++ mergeNext b post) := by
  induction post generalizing b with
  | nil => exact h
  | cons c cs ih =>
    unfold mergeNext
    split
    · rename_i hc
      refine ih (h.replace [b, c] [⟨b.addr, b.size + (12 + c.size), none⟩]
        (by simp only [heapBytes_cons, heapBytes_nil]; omega) fun o ho x hx => ?_)
      refine ⟨_, List.mem_cons_self, ?_⟩
      have hbc := hc.2
      unfold Blk.Has at hx ⊢
      simp only [List.mem_cons, List.not_mem_nil, or_false] at ho
      rcases ho with rfl | rfl <;> simp only <;> omega
    · exact h

/-- The block has exactly `n` bytes, or enough more for a block of their own. -/
def Blk.CutsWhole (b : Blk) (n : Nat) : Prop := b.size = n ∨ n + (12 + 8) ≤ b.size

instance (b : Blk) (n : Nat) : Decidable (b.CutsWhole n) := inferInstanceAs (Decidable (_ ∨ _))

theorem heapBytes_splitBlock {b : Blk} {n k : Nat} (hn : n ≤ b.size) :
    heapBytes (splitBlock b n k) = 12 + b.size ↔ b.CutsWhole n := by
  unfold splitBlock Blk.CutsWhole
  split
  · simp only [heapBytes_cons, heapBytes_nil]
    omega
  · simp only [heapBytes_cons, heapBytes_nil]
    omega

/-- **A cut keeps the tiling exactly if it is whole**: otherwise the remainder is lost. -/
theorem Tiles.split_iff {pages : List Nat} {pre post : List Blk} {b : Blk} {n k : Nat}
    (h : Tiles pages (pre ++ b :: post)) (hn : n ≤ b.size) :
    Tiles pages (pre ++ (splitBlock b n k ++ post)) ↔ b.CutsWhole n := by
  constructor
  · intro h'
    have h1 := h.bytes
    have h2 := h'.bytes
    simp only [heapBytes_append, heapBytes_cons] at h1 h2
    exact (heapBytes_splitBlock (k := k) hn).mp (by omega)
  · intro hcut
    refine h.replace [b] (splitBlock b n k)
      (by rw [(heapBytes_splitBlock hn).mpr hcut]; simp) fun o ho x hx => ?_
    rw [List.mem_singleton.mp ho] at hx
    unfold Blk.CutsWhole at hcut
    unfold Blk.Has at hx
    unfold splitBlock
    by_cases hx' : x < b.addr + 12 + n
    · exact ⟨_, List.mem_cons_self, hx.1, hx'⟩
    · rw [if_pos (by omega)]
      refine ⟨_, List.mem_cons_of_mem _ List.mem_cons_self, ?_⟩
      unfold Blk.Has
      simp only
      omega

/-! ## 2. The list a memory holds -/

/-- What the header of a block says. -/
def Blk.header (b : Blk) : Nat × Nat × Bool := (b.addr, b.size, b.req.isNone)

/-- One memory holds one list of headers. -/
theorem seg_unique {m : Mem} {p : Nat} {bs bs' : List Blk} (h : Seg m p bs 0)
    (h' : Seg m p bs' 0) : bs.map Blk.header = bs'.map Blk.header := by
  induction bs generalizing p bs' with
  | nil =>
    cases bs' with
    | nil => rfl
    | cons c cs =>
      have h0 : p = 0 := h
      have hc : p = 0xC0000000 + c.addr := h'.1
      omega
  | cons b bs ih =>
    have hb : p = 0xC0000000 + b.addr := h.1
    obtain ⟨-, next, hhold, hseg⟩ := h
    cases bs' with
    | nil =>
      have h0 : p = 0 := h'
      omega
    | cons c cs =>
      have hc : p = 0xC0000000 + c.addr := h'.1
      obtain ⟨-, next', hhold', hseg'⟩ := h'
      have haddr : b.addr = c.addr := by omega
      have hsize : b.size = c.size := by rw [← hhold.size, ← hhold'.size, haddr]
      have hnext : next = next' := by rw [← hhold.next, ← hhold'.next, haddr]
      have hfree : b.req.isNone = c.req.isNone := by
        have hflag := hhold.free.symm.trans ((by rw [haddr] : _ = _).trans hhold'.free)
        cases hr : b.req <;> cases hr' : c.req <;> simp_all
      subst hnext
      rw [List.map_cons, List.map_cons, ih hseg hseg']
      unfold Blk.header
      rw [haddr, hsize, hfree]

theorem heapBytes_header (bs : List Blk) :
    heapBytes bs = ((bs.map Blk.header).map fun h => 12 + h.2.1).sum := by
  simp [heapBytes, Blk.header, Function.comp_def]

/-- Tiling is a matter of the headers. -/
theorem Tiles.congr {pages : List Nat} {bs bs' : List Blk} (h : Tiles pages bs)
    (he : bs.map Blk.header = bs'.map Blk.header) : Tiles pages bs' := by
  refine ⟨by rw [heapBytes_header, ← he, ← heapBytes_header]; exact h.bytes, fun x hx => ?_⟩
  obtain ⟨b, hb, hbx⟩ := h.covers x hx
  have hmem : b.header ∈ bs'.map Blk.header := he ▸ List.mem_map_of_mem hb
  obtain ⟨c, hc, hcb⟩ := List.mem_map.mp hmem
  unfold Blk.header at hcb
  obtain ⟨haddr, hsize, -⟩ := by simpa using hcb
  refine ⟨c, hc, ?_⟩
  unfold Blk.Has at hbx ⊢
  omega

/-- **The blocks on the list tile the heap's pages.** -/
def HeapTiled (s : Mm) : Prop := ∃ bs, Seg s.mem s.list bs 0 ∧ Tiles s.heapPages bs

theorem HeapInv.tiled_iff {s : Mm} {bs : List Blk} (h : HeapInv s bs) :
    HeapTiled s ↔ Tiles s.heapPages bs := by
  refine ⟨fun ht => ?_, fun ht => ⟨bs, h.seg, ht⟩⟩
  obtain ⟨bs', hseg, ht⟩ := ht
  exact ht.congr (seg_unique hseg h.seg)

/-! ## 3. The block a request is served from -/

instance (b : Blk) (n : Nat) : Decidable (b.Serves n) := inferInstanceAs (Decidable (_ ∧ _))

/-- The block a request for `n` bytes is served from: the first that is large enough, else that of
    the page the page allocator has next, if the direct map reaches it. -/
def servingBlock (s : Mm) (bs : List Blk) (n : Nat) : Option Blk :=
  match bs.find? fun b => b.Serves n with
  | some b => some b
  | none =>
    let f := (pmmAllocPage s.pmm).1
    if f ≠ 0 ∧ f < 0x1000000 then some (pageBlock f) else none

theorem servingBlock_first {s : Mm} {pre post : List Blk} {b : Blk} {n : Nat} (hb : b.Serves n)
    (hfirst : ∀ c ∈ pre, ¬ c.Serves n) : servingBlock s (pre ++ b :: post) n = some b := by
  have hfind : (pre ++ b :: post).find? (fun b => decide (b.Serves n)) = some b := by
    rw [List.find?_eq_some_iff_append]
    exact ⟨by simpa using hb, pre, post, rfl, fun c hc => by simpa using hfirst c hc⟩
  unfold servingBlock
  rw [hfind]

theorem servingBlock_none {s : Mm} {bs : List Blk} {n : Nat} (hnone : ∀ b ∈ bs, ¬ b.Serves n) :
    servingBlock s bs n =
      if (pmmAllocPage s.pmm).1 ≠ 0 ∧ (pmmAllocPage s.pmm).1 < 0x1000000 then
        some (pageBlock (pmmAllocPage s.pmm).1)
      else none := by
  have hfind : bs.find? (fun b => decide (b.Serves n)) = none := by
    rw [List.find?_eq_none]
    exact fun b hb => by simpa using hnone b hb
  unfold servingBlock
  rw [hfind]

theorem Blk.serves_congr {b c : Blk} {n : Nat} (h : b.header = c.header) :
    b.Serves n ↔ c.Serves n := by
  unfold Blk.header at h
  obtain ⟨-, hsize, hfree⟩ := by simpa using h
  unfold Blk.Serves
  rw [hsize, ← Option.isNone_iff_eq_none, ← Option.isNone_iff_eq_none, hfree]

theorem noneServes_congr {bs bs' : List Blk} {n : Nat}
    (he : bs.map Blk.header = bs'.map Blk.header) (h : ∀ b ∈ bs, ¬ b.Serves n) :
    ∀ b ∈ bs', ¬ b.Serves n := fun c hc hserves => by
  have hmem : c.header ∈ bs.map Blk.header := he ▸ List.mem_map_of_mem hc
  obtain ⟨b, hb, hbc⟩ := List.mem_map.mp hmem
  exact h b hb ((Blk.serves_congr hbc).mpr hserves)

/-- Lists with the same headers serve a request from the same block. -/
theorem servingBlock_congr {s : Mm} {bs bs' : List Blk} {n : Nat} {b : Blk}
    (he : bs.map Blk.header = bs'.map Blk.header) (hb : servingBlock s bs n = some b) :
    ∃ c, servingBlock s bs' n = some c ∧ c.addr = b.addr ∧ c.size = b.size := by
  induction bs generalizing bs' with
  | nil =>
    obtain rfl : bs' = [] := by simpa using he.symm
    exact ⟨b, hb, rfl, rfl⟩
  | cons a as ih =>
    cases bs' with
    | nil => simp at he
    | cons c cs =>
      rw [List.map_cons, List.map_cons] at he
      obtain ⟨hac, hrest⟩ := List.cons.inj he
      by_cases ha : a.Serves n
      · have hb' := @servingBlock_first s [] as a n ha nofun
        have hc := @servingBlock_first s [] cs c n ((Blk.serves_congr hac).mp ha) nofun
        cases hb'.symm.trans hb
        unfold Blk.header at hac
        obtain ⟨haddr, hsize, -⟩ := by simpa using hac
        exact ⟨c, hc, haddr.symm, hsize.symm⟩
      · have hc : ¬ c.Serves n := fun h => ha ((Blk.serves_congr hac).mpr h)
        have hskip : ∀ {z : Blk} {zs : List Blk}, ¬ z.Serves n →
            servingBlock s (z :: zs) n = servingBlock s zs n := fun hz => by
          unfold servingBlock
          rw [List.find?_cons_of_neg (by simpa using hz)]
        rw [hskip ha] at hb
        rw [hskip hc]
        exact ih hrest hb

/-- The request for `k` bytes is served from a block that it cuts whole. -/
def CutsWhole (s : Mm) (k : Nat) : Prop :=
  ∀ bs n b, Seg s.mem s.list bs 0 → alignSize k = some n → n ≤ 4096 - 12 →
    servingBlock s bs n = some b → b.CutsWhole n

theorem HeapInv.cutsWhole_iff {s : Mm} {bs : List Blk} (h : HeapInv s bs) {k : Nat} :
    CutsWhole s k ↔ ∀ n b, alignSize k = some n → n ≤ 4096 - 12 →
      servingBlock s bs n = some b → b.CutsWhole n := by
  refine ⟨fun hc n b => hc bs n b h.seg, fun hc bs' n b hseg hn hsize hb => ?_⟩
  obtain ⟨c, hserve, haddr, hsame⟩ := servingBlock_congr (seg_unique hseg h.seg) hb
  have := hc n c hn hsize hserve
  unfold Blk.CutsWhole at this ⊢
  omega

/-- `new_block` returns `NULL` for want of a page in the direct map's reach; one out of reach goes
    back. -/
theorem Grows.refused_pmm {s : Mm} {f r : Nat} {p' : Pmm} {pages' : List Nat}
    (h : Grows s f p' pages' r) (hr : r = 0) :
    f = 0 ∧ p' = (pmmAllocPage s.pmm).2 ∨
      0x1000000 ≤ f ∧ p' = pmmFreePage (pmmAllocPage s.pmm).2 f := by
  cases h with
  | none h0 => exact .inl ⟨h0, rfl⟩
  | high hge => exact .inr ⟨hge, rfl⟩
  | page h0 hlt => omega

theorem Grows.refused {s : Mm} {f r : Nat} {p' : Pmm} {pages' : List Nat}
    (h : Grows s f p' pages' r) (hr : r = 0) : f = 0 ∨ 0x1000000 ≤ f :=
  (h.refused_pmm hr).imp And.left And.left

/-- **One request keeps the tiling exactly if it cuts a whole block.** -/
theorem KmallocOn.tiles_iff {s s' : Mm} {bs bs' : List Blk} {k p : Nat}
    (ht : Tiles s.heapPages bs) (h : KmallocOn s bs k p s' bs') :
    Tiles s'.heapPages bs' ↔ ∀ n b, alignSize k = some n → n ≤ 4096 - 12 →
      servingBlock s bs n = some b → b.CutsWhole n := by
  cases h with
  | refuse hbig =>
    refine ⟨fun _ n b hn hsize => ?_, fun _ => ht⟩
    have := hbig n hn
    omega
  | @reuse n pre post b m' hn hsize e hb hfirst =>
    subst e
    have hserve := @servingBlock_first s pre post b n hb hfirst
    rw [ht.split_iff hb.2]
    refine ⟨fun hc n' b' hn' _ hb' => ?_, fun hc => hc n b hn hsize hserve⟩
    cases hn.symm.trans hn'
    cases hserve.symm.trans hb'
    exact hc
  | @grow n f list' m' hn hsize hnone hf h0 hlt =>
    have hserve : servingBlock s bs n = some (pageBlock f) := by
      rw [servingBlock_none hnone, hf, if_pos ⟨h0, hlt⟩]
    have hsplit := @Tiles.split_iff _ bs [] _ n k (ht.grow f) hsize
    rw [List.append_nil] at hsplit
    rw [hsplit]
    refine ⟨fun hc n' b' hn' _ hb' => ?_, fun hc => hc n _ hn hsize hserve⟩
    cases hn.symm.trans hn'
    cases hserve.symm.trans hb'
    exact hc
  | @full n p' hn hsize hnone hpage =>
    refine ⟨fun _ n' b' hn' _ hb' => ?_, fun _ => ht⟩
    cases hn.symm.trans hn'
    rw [servingBlock_none hnone] at hb'
    split at hb'
    · rename_i hf
      have := hpage.refused rfl
      omega
    · cases hb'

/-! ## 4. Runs under a condition -/

/-- The runs of `HeapReach` whose requests meet `A` and whose frees meet `F`, in the state they are
    made in. -/
inductive HeapRun (A F : Mm → Nat → Prop) : Mm → List (Nat × Nat) → Prop where
  | boot (s : Mm) (hl : s.list = 0) (hp : s.heapPages = []) : HeapRun A F s []
  | kmalloc (s s' : Mm) (out : List (Nat × Nat)) (n p : Nat) (h : HeapRun A F s out) (hA : A s n)
      (hfresh : (pmmAllocPage s.pmm).1 ≠ 0 → (pmmAllocPage s.pmm).1 ∉ s.heapPages)
      (e : kmalloc s n = .ok (p, s')) : HeapRun A F s' (if p = 0 then out else (p, n) :: out)
  | kfree (s s' : Mm) (out : List (Nat × Nat)) (a : Nat × Nat) (h : HeapRun A F s out)
      (hF : F s a.1) (ha : a ∈ out) (e : kfree s a.1 = .ok s') : HeapRun A F s' (out.erase a)
  | kfreeNull (s s' : Mm) (out : List (Nat × Nat)) (h : HeapRun A F s out)
      (e : kfree s 0 = .ok s') : HeapRun A F s' out
  | client (s s' : Mm) (out : List (Nat × Nat)) (h : HeapRun A F s out) (hl : s'.list = s.list)
      (hp : s'.heapPages = s.heapPages) (hm : AgreeOn (HeapPrivate s out) s.mem s'.mem) :
      HeapRun A F s' out

theorem HeapRun.reach {A F : Mm → Nat → Prop} {s : Mm} {out : List (Nat × Nat)}
    (h : HeapRun A F s out) : HeapReach s out := by
  induction h with
  | boot s hl hp => exact .boot s hl hp
  | kmalloc s s' out n p _ _ hfresh e ih => exact .kmalloc s s' out n p ih hfresh e
  | kfree s s' out a _ _ ha e ih => exact .kfree s s' out a ih ha e
  | kfreeNull s s' out _ e ih => exact .kfreeNull s s' out ih e
  | client s s' out _ hl hp hm ih => exact .client s s' out ih hl hp hm

/-- What a run keeps: enough that an empty heap has it, and that each thing `kmalloc` can do and
    each `kfree` keeps it. -/
theorem HeapRun.inv {A F : Mm → Nat → Prop} {J : List Nat → List Blk → Prop} (h0 : J [] [])
    (hm : ∀ {s s' bs bs' k p}, HeapInv s bs → J s.heapPages bs → A s k →
      KmallocOn s bs k p s' bs' → J s'.heapPages bs')
    (hf : ∀ {s pre b post k}, HeapInv s (pre ++ b :: post) → J s.heapPages (pre ++ b :: post) →
      b.req = some k → F s b.payload →
      J s.heapPages (pre ++ mergeNext ⟨b.addr, b.size, none⟩ post))
    {s : Mm} {out : List (Nat × Nat)} (h : HeapRun A F s out) :
    ∃ bs, HeapInv s bs ∧ (allocs bs).Perm out ∧ J s.heapPages bs := by
  induction h with
  | boot s hl hp =>
    refine ⟨[], ⟨⟨?_, List.Pairwise.nil, nofun, nofun⟩, hl⟩, .refl _, by rw [hp]; exact h0⟩
    rw [hp]
    nofun
  | kmalloc s s' out n p _ hA hfresh e ih =>
    obtain ⟨bs, hinv, hperm, hJ⟩ := ih
    obtain ⟨p', s'', bs', e', hserved, hon⟩ := kmalloc_on hinv n hfresh
    obtain ⟨rfl, rfl⟩ := Prod.mk.inj (Except.ok.inj (e'.symm.trans e))
    refine ⟨bs', hserved.inv, hserved.allocs.trans ?_, hm hinv hJ hA hon⟩
    split
    · exact hperm
    · exact hperm.cons _
  | kfree s s' out a _ hF ha e ih =>
    obtain ⟨bs, hinv, hperm, hJ⟩ := ih
    obtain ⟨b, hbm, hreq, hpay⟩ := mem_allocs.mp (hperm.symm.subset ha)
    obtain ⟨pre, post, rfl⟩ := List.append_of_mem hbm
    obtain ⟨m', e', hrel⟩ := kfree_on hinv hreq
    have hkept := hf hinv hJ hreq (by rw [hpay]; exact hF)
    have hs := Except.ok.inj ((hpay ▸ e').symm.trans e)
    subst hs
    refine ⟨_, hrel.inv, ?_, hkept⟩
    have := (hrel.allocs.symm.trans hperm).erase a
    rwa [show (b.payload, a.2) = a from Prod.ext hpay rfl, List.erase_cons_head] at this
  | kfreeNull s s' out _ e ih =>
    have hs : s = s' := Except.ok.inj e
    subst hs
    exact ih
  | client s s' out _ hl hp hmem ih =>
    obtain ⟨bs, hinv, hperm, hJ⟩ := ih
    exact ⟨bs, hinv.congr hl hp fun b hb x h1 h2 => hmem x (hinv.header_private hperm hb h1 h2),
      hperm, by rw [hp]; exact hJ⟩

/-! ## 5. No byte is lost -/

theorem tiles_empty : Tiles [] [] := ⟨rfl, fun x hx => by obtain ⟨g, hg, _⟩ := hx; cases hg⟩

/-- The tiling along a run of whole cuts. -/
theorem tiles_run {F : Mm → Nat → Prop} {s : Mm} {out : List (Nat × Nat)}
    (h : HeapRun CutsWhole F s out) :
    ∃ bs, HeapInv s bs ∧ (allocs bs).Perm out ∧ Tiles s.heapPages bs :=
  h.inv tiles_empty
    (fun hinv hJ hA hon => (hon.tiles_iff hJ).mpr (hinv.cutsWhole_iff.mp hA))
    fun _ hJ _ _ => hJ.release.merge

/-- **NO BYTE IS LOST BY WHOLE CUTS, AND ONLY BY THEM**: in every state of every run whose requests
    all cut whole blocks, the blocks tile the heap's pages, and the next request keeps that
    exactly if it cuts a whole block too. -/
theorem heapTiled_run {s : Mm} {out : List (Nat × Nat)}
    (h : HeapRun CutsWhole (fun _ _ => True) s out) :
    HeapTiled s ∧
    ∀ k p s', ((pmmAllocPage s.pmm).1 ≠ 0 → (pmmAllocPage s.pmm).1 ∉ s.heapPages) →
      kmalloc s k = .ok (p, s') → (HeapTiled s' ↔ CutsWhole s k) := by
  obtain ⟨bs, hinv, -, ht⟩ := tiles_run h
  refine ⟨hinv.tiled_iff.mpr ht, fun k p s' hfresh e => ?_⟩
  obtain ⟨p', s'', bs', e', hserved, hon⟩ := kmalloc_on hinv k hfresh
  cases e'.symm.trans e
  rw [hserved.inv.tiled_iff, hinv.cutsWhole_iff]
  exact hon.tiles_iff ht

/-- The first request on a machine with an empty heap is served from the whole of its first page. -/
theorem servingBlock_freshMm {bs : List Blk} (h : Seg freshMm.mem freshMm.list bs 0) (n : Nat) :
    servingBlock freshMm bs n = some (pageBlock 0x1000) := by
  cases bs with
  | nil =>
    rw [servingBlock_none fun b hb => absurd hb List.not_mem_nil,
      show (pmmAllocPage freshMm.pmm).1 = 0x1000 by decide +kernel]
    rfl
  | cons b bs =>
    have hp : (0 : Nat) = 0xC0000000 + b.addr := h.1
    omega

theorem cutsWhole_freshMm {k n : Nat} (hn : alignSize k = some n) (hcut : n + 20 ≤ 4084) :
    CutsWhole freshMm k := by
  intro bs n' b hseg hn' _ hb
  rw [servingBlock_freshMm hseg] at hb
  cases hb
  cases hn.symm.trans hn'
  exact .inr hcut

theorem fresh_freshMm :
    (pmmAllocPage freshMm.pmm).1 ≠ 0 → (pmmAllocPage freshMm.pmm).1 ∉ freshMm.heapPages :=
  fun _ => List.not_mem_nil

theorem heapInv_freshMm : HeapInv freshMm [] := ⟨⟨nofun, List.Pairwise.nil, nofun, nofun⟩, rfl⟩

theorem heapTiled_hundred : ∃ p s', kmalloc freshMm 100 = .ok (p, s') ∧ HeapTiled s' := by
  have hboot : HeapRun CutsWhole (fun _ _ => True) freshMm [] := .boot _ rfl rfl
  obtain ⟨p, s', _, e, _⟩ := kmalloc_on heapInv_freshMm 100 fresh_freshMm
  have hcut : CutsWhole freshMm 100 := cutsWhole_freshMm (n := 104) (by decide) (by decide)
  exact ⟨p, s', e, ((heapTiled_run hboot).2 100 p s' fresh_freshMm e).mpr hcut⟩

/-- A request for 4080 bytes takes a page and leaves its last four bytes to no block. -/
theorem heap_loses_bytes : ∃ p s', kmalloc freshMm 4080 = .ok (p, s') ∧
    HeapReach s' [(p, 4080)] ∧ ¬ HeapTiled s' := by
  obtain ⟨m', e, hseg⟩ := @kmalloc_first freshMm 0x1000 4080 4080 (pmmAllocPage freshMm.pmm).2 rfl
    (Prod.ext (by decide +kernel) rfl) (by decide) (by decide) (by decide) (by decide)
  refine ⟨_, _, e, .kmalloc _ _ [] 4080 _ (.boot _ rfl rfl) fresh_freshMm e, fun ht => ?_⟩
  obtain ⟨bs, hseg', ht⟩ := ht
  have := (ht.congr (seg_unique hseg' hseg)).bytes
  simp [splitBlock, pageBlock, freshMm] at this

/-! ## 6. Room that comes back -/

/-- The block `b` may follow a block that ends at `e` and is free if `fr`: it starts there, and at
    a page boundary if both are free; or both are at page boundaries. -/
def Joins (e : Nat) (fr : Bool) (b : Blk) : Prop :=
  b.addr = e ∧ (fr = true → b.req = none → e % 4096 = 0) ∨ e % 4096 = 0 ∧ b.addr % 4096 = 0

/-- The blocks fill whole pages, in the order of the list, and no two free blocks meet inside a
    page. The list follows a block that ends at `e` and is free if `fr`. -/
def Packed : Nat → Bool → List Blk → Prop
  | e, _, [] => e % 4096 = 0
  | e, fr, b :: bs => Joins e fr b ∧ Packed (b.addr + 12 + b.size) b.req.isNone bs

/-- The block before may as well be in use. -/
theorem Packed.used {e : Nat} {fr : Bool} {bs : List Blk} (h : Packed e fr bs) :
    Packed e false bs := by
  cases bs with
  | nil => exact h
  | cons b bs =>
    refine ⟨?_, h.2⟩
    rcases h.1 with ⟨hb, _⟩ | hb
    · exact .inl ⟨hb, nofun⟩
    · exact .inr hb

theorem Packed.grow {e f : Nat} {fr : Bool} {bs : List Blk} (h : Packed e fr bs)
    (hf : f % 4096 = 0) : Packed e fr (bs ++ [pageBlock f]) := by
  induction bs generalizing e fr with
  | nil =>
    refine ⟨.inr ⟨h, hf⟩, ?_⟩
    show (f + 12 + (4096 - 12)) % 4096 = 0
    omega
  | cons b bs ih => exact ⟨h.1, ih h.2⟩

/-- A whole cut of a free block. -/
theorem Packed.split {e n k : Nat} {fr : Bool} {pre post : List Blk} {b : Blk}
    (h : Packed e fr (pre ++ b :: post)) (hb : b.Serves n) (hcut : b.CutsWhole n) :
    Packed e fr (pre ++ (splitBlock b n k ++ post)) := by
  induction pre generalizing e fr with
  | nil =>
    obtain ⟨hjoin, hrest⟩ := h
    have hused : Joins e fr ⟨b.addr, n, some k⟩ := by
      rcases hjoin with ⟨hj, _⟩ | hj
      · exact .inl ⟨hj, fun _ => nofun⟩
      · exact .inr hj
    rw [hb.1] at hrest
    show Packed e fr (splitBlock b n k ++ post)
    unfold splitBlock
    rcases hcut with hexact | hroom
    · rw [if_neg (by omega)]
      rw [hexact] at hrest
      exact ⟨hused, hrest.used⟩
    · rw [if_pos (by omega)]
      refine ⟨hused, .inl ⟨rfl, nofun⟩, ?_⟩
      have hend : b.addr + 12 + n + 12 + (b.size - n - 12) = b.addr + 12 + b.size := by omega
      show Packed (b.addr + 12 + n + 12 + (b.size - n - 12)) true post
      rw [hend]
      exact hrest
  | cons c pre ih => exact ⟨h.1, ih h.2⟩

/-- A free block merged with what follows it meets no free block any more. -/
theorem packed_mergeNext {e a z : Nat} {fr : Bool} {post : List Blk}
    (hjoin : Joins e fr ⟨a, z, none⟩) (h : Packed (a + 12 + z) false post) :
    Packed e fr (mergeNext ⟨a, z, none⟩ post) := by
  induction post generalizing z with
  | nil => exact ⟨hjoin, h⟩
  | cons c cs ih =>
    unfold mergeNext
    split
    · rename_i hc
      have hend : a + 12 + (z + (12 + c.size)) = c.addr + 12 + c.size := by
        have := hc.2
        simp only at this
        omega
      refine ih hjoin ?_
      rw [hend]
      exact h.2.used
    · rename_i hc
      refine ⟨hjoin, ?_, h.2⟩
      rcases h.1 with ⟨hstart, _⟩ | hb
      · exact .inl ⟨hstart, fun _ hfree => absurd ⟨hfree, hstart.symm⟩ hc⟩
      · exact .inr hb

/-- A block freed while the block before it in its page is not free. -/
theorem Packed.free {e k : Nat} {fr : Bool} {pre post : List Blk} {b : Blk}
    (h : Packed e fr (pre ++ b :: post)) (hreq : b.req = some k)
    (hfirst : fr = true → b.addr = e → b.addr % 4096 = 0)
    (hahead : ∀ c ∈ pre, c.req = none → c.addr + 12 + c.size = b.addr → b.addr % 4096 = 0) :
    Packed e fr (pre ++ mergeNext ⟨b.addr, b.size, none⟩ post) := by
  induction pre generalizing e fr with
  | nil =>
    obtain ⟨hjoin, hrest⟩ := h
    rw [hreq] at hrest
    refine packed_mergeNext ?_ hrest
    rcases hjoin with ⟨hj, _⟩ | hj
    · exact .inl ⟨hj, fun hfr _ => hj ▸ hfirst hfr hj⟩
    · exact .inr hj
  | cons c pre ih =>
    refine ⟨h.1, ih h.2 (fun hfree heq => ?_) fun d hd => hahead d (List.mem_cons_of_mem _ hd)⟩
    exact hahead c List.mem_cons_self (Option.isNone_iff_eq_none.mp hfree) heq.symm

/-- When every block is free, each fills whole pages. -/
theorem Packed.whole {e : Nat} {fr : Bool} {bs : List Blk} (h : Packed e fr bs) (he : e % 4096 = 0)
    (hfree : ∀ b ∈ bs, b.req = none) : ∀ b ∈ bs, 4096 - 12 ≤ b.size := by
  induction bs generalizing e fr with
  | nil => nofun
  | cons c cs ih =>
    have hc := hfree c List.mem_cons_self
    have hstart : c.addr % 4096 = 0 := by
      rcases h.1 with ⟨hj, _⟩ | hj
      · exact hj ▸ he
      · exact hj.2
    have hrest := h.2
    rw [hc] at hrest
    have hend : (c.addr + 12 + c.size) % 4096 = 0 := by
      cases cs with
      | nil => exact hrest
      | cons d ds =>
        have hd := hfree d (List.mem_cons_of_mem _ List.mem_cons_self)
        rcases hrest.1 with ⟨_, hj⟩ | hj
        · exact hj rfl hd
        · exact hj.1
    intro b hb
    rcases List.mem_cons.mp hb with rfl | hb
    · omega
    · exact ih hrest hend (fun d hd => hfree d (List.mem_cons_of_mem _ hd)) b hb

/-- The block behind the pointer is not freed right after the block before it: no free block ends
    where it starts, page boundaries apart. -/
def FreesAhead (s : Mm) (a : Nat) : Prop :=
  ∀ bs b c, Seg s.mem s.list bs 0 → b ∈ bs → c ∈ bs → c.payload = a → b.req = none →
    b.addr + 12 + b.size = c.addr → c.addr % 4096 = 0

/-- Tiling and packing along a run that cuts whole blocks and frees ahead. -/
theorem packed_run {s : Mm} {out : List (Nat × Nat)} (h : HeapRun CutsWhole FreesAhead s out) :
    ∃ bs, HeapInv s bs ∧ (allocs bs).Perm out ∧ Tiles s.heapPages bs ∧ Packed 0 false bs := by
  refine h.inv (J := fun pages bs => Tiles pages bs ∧ Packed 0 false bs) ⟨tiles_empty, rfl⟩
    (fun {s s' bs bs' k p} hinv hJ hA hon => ?_) fun {s pre b post k} hinv hJ hreq hF => ?_
  · have hcut := hinv.cutsWhole_iff.mp hA
    refine ⟨(hon.tiles_iff hJ.1).mpr hcut, ?_⟩
    cases hon with
    | refuse => exact hJ.2
    | reuse hn hsize e hb hfirst =>
      subst e
      exact hJ.2.split hb (hcut _ _ hn hsize (servingBlock_first hb hfirst))
    | @grow n f list' m' hn hsize hnone hf h0 hlt =>
      have hserve : servingBlock s bs n = some (pageBlock f) := by
        rw [servingBlock_none hnone, hf, if_pos ⟨h0, hlt⟩]
      have hal : f % 4096 = 0 := hf ▸ pmmAllocPage_aligned s.pmm
      have := @Packed.split 0 n k false bs [] (pageBlock f) (hJ.2.grow hal) ⟨rfl, hsize⟩
        (hcut _ _ hn hsize hserve)
      rwa [List.append_nil] at this
    | full => exact hJ.2
  · refine ⟨hJ.1.release.merge, hJ.2.free hreq nofun fun c hc hfree hend => ?_⟩
    exact hF _ c b hinv.seg (List.mem_append_left _ hc)
      (List.mem_append_right _ List.mem_cons_self) rfl hfree hend

theorem alignSize_of {k : Nat} (h1 : 1 ≤ k) (h2 : k ≤ 2 ^ 32 - 8) :
    alignSize k = some ((k + 7) / 8 * 8) := by
  have hround := @alignUp_eq 32 3 k (by decide) (by omega)
  rw [show (2 : Nat) ^ 3 = 8 from rfl] at hround
  unfold alignSize
  rw [if_neg (by omega), if_neg (by omega),
    show (2 : Nat) ^ 32 - 1 - (8 - 1) = 2 ^ 32 - 8 by decide, hround]
  rfl

/-- `kmalloc` serves `k` bytes and takes no page. -/
def ReusesRoom (s : Mm) (k : Nat) : Prop :=
  ∃ p s', kmalloc s k = .ok (p, s') ∧ p ≠ 0 ∧ s'.pmm = s.pmm ∧ s'.heapPages = s.heapPages

theorem HeapInv.reusesRoom {s : Mm} {bs : List Blk} (h : HeapInv s bs) {k n : Nat}
    (hn : alignSize k = some n) (hsize : n ≤ 4096 - 12) (hex : ∃ b ∈ bs, b.Serves n) :
    ReusesRoom s k := by
  obtain ⟨p, m', e, hp⟩ := kmalloc_reuses h hn hsize hex
  exact ⟨p, _, e, hp, rfl, rfl⟩

/-- A list without allocations has only free blocks. -/
theorem free_of_allocs_nil {bs : List Blk} (h : (allocs bs).Perm []) {b : Blk} (hb : b ∈ bs) :
    b.req = none := by
  cases hr : b.req with
  | none => rfl
  | some n =>
    have hmem : (b.payload, n) ∈ allocs bs := mem_allocs.mpr ⟨b, hb, hr, rfl⟩
    rw [h.eq_nil] at hmem
    cases hmem

/-- **FREED ROOM COMES BACK.** Once a run has freed all it took: if all its requests cut whole
    blocks and it never freed a block right after the one before it in its page, every request for
    up to 4080 bytes is served without a new page. After any run, a request is so served exactly
    if some block on the list is large enough. -/
theorem heapReusable {s : Mm} (hpages : s.heapPages ≠ []) :
    (HeapRun CutsWhole FreesAhead s [] → ∀ k, 1 ≤ k → k ≤ 4080 → ReusesRoom s k) ∧
    (HeapReach s [] → ((pmmAllocPage s.pmm).1 ≠ 0 → (pmmAllocPage s.pmm).1 ∉ s.heapPages) →
      ∀ k, 1 ≤ k → k ≤ 4080 → (ReusesRoom s k ↔
        ∃ bs b, Seg s.mem s.list bs 0 ∧ b ∈ bs ∧ (k + 7) / 8 * 8 ≤ b.size)) := by
  constructor
  · intro h k h1 h2
    obtain ⟨bs, hinv, hperm, ht, hpacked⟩ := packed_run h
    have hwhole := hpacked.whole rfl fun b hb => free_of_allocs_nil hperm hb
    obtain ⟨b, bs', rfl⟩ : ∃ b bs', bs = b :: bs' := by
      cases bs with
      | nil =>
        have hlen := List.length_pos_of_ne_nil hpages
        have := ht.bytes
        simp only [heapBytes_nil] at this
        omega
      | cons b bs' => exact ⟨b, bs', rfl⟩
    have hb := hwhole b List.mem_cons_self
    exact hinv.reusesRoom (alignSize_of h1 (by omega)) (by omega)
      ⟨b, List.mem_cons_self, free_of_allocs_nil hperm List.mem_cons_self, by omega⟩
  · intro h hfresh k h1 h2
    obtain ⟨bs, hinv, hperm⟩ := heapInv_reach h
    have hn := @alignSize_of k h1 (by omega)
    constructor
    · intro hroom
      obtain ⟨p, s', e, hp, -, hkept⟩ := hroom
      obtain ⟨p', s'', bs', e', -, hon⟩ := kmalloc_on hinv k hfresh
      cases e'.symm.trans e
      cases hon with
      | refuse => exact absurd rfl hp
      | @reuse n pre post b m' hn' hsize hsplit hb hfirst =>
        cases hn.symm.trans hn'
        exact ⟨bs, b, hinv.seg, hsplit ▸ List.mem_append_right _ List.mem_cons_self, hb.2⟩
      | grow =>
        have hlen := congrArg List.length hkept
        simp at hlen
      | full => exact absurd rfl hp
    · intro hex
      obtain ⟨bs', b, hseg, hb, hsize⟩ := hex
      have hmem : b.header ∈ bs.map Blk.header :=
        seg_unique hseg hinv.seg ▸ List.mem_map_of_mem hb
      obtain ⟨c, hc, hcb⟩ := List.mem_map.mp hmem
      unfold Blk.header at hcb
      obtain ⟨-, hsame, -⟩ := by simpa using hcb
      exact hinv.reusesRoom hn (by omega) ⟨c, hc, free_of_allocs_nil hperm hc, by omega⟩

/-- The first request on the empty heap, with the list it leaves. -/
theorem kmalloc_freshMm {k n : Nat} (hn : alignSize k = some n) (hsize : n ≤ 4096 - 12) :
    ∃ s', kmalloc freshMm k = .ok (0xC000100C, s') ∧ s'.pmm = (pmmAllocPage freshMm.pmm).2 ∧
      s'.heapPages = [0x1000] ∧ HeapInv s' (splitBlock (pageBlock 0x1000) n k) := by
  have hpage : (pmmAllocPage freshMm.pmm).1 = 0x1000 := by decide +kernel
  obtain ⟨p, s', bs', e, hserved, hon⟩ := kmalloc_on heapInv_freshMm k fresh_freshMm
  cases hon with
  | refuse hbig => exact absurd (hbig n hn) (Nat.not_lt.mpr hsize)
  | reuse _ _ hsplit => simp at hsplit
  | grow hn' _ _ hf =>
    cases hn.symm.trans hn'
    cases hpage.symm.trans hf
    exact ⟨_, e, rfl, rfl, hserved.inv⟩
  | full _ _ _ hgrow =>
    have := hgrow.refused rfl
    omega

/-- Only small blocks are left of the first page: 4080 bytes take the second. -/
theorem kmalloc_second_page {s : Mm} {bs : List Blk} (h : HeapInv s bs)
    (hpmm : s.pmm = (pmmAllocPage freshMm.pmm).2) (hpages : s.heapPages = [0x1000])
    (hsmall : ∀ b ∈ bs, b.size < 4080) :
    ∃ p s', kmalloc s 4080 = .ok (p, s') ∧ s'.heapPages = [0x2000, 0x1000] := by
  have hpage : (pmmAllocPage s.pmm).1 = 0x2000 := by
    rw [hpmm]
    decide +kernel
  have hfresh : (pmmAllocPage s.pmm).1 ≠ 0 → (pmmAllocPage s.pmm).1 ∉ s.heapPages := fun _ => by
    rw [hpage, hpages]
    decide
  have hn : alignSize 4080 = some 4080 := by decide
  obtain ⟨p, s', bs', e, -, hon⟩ := kmalloc_on h 4080 hfresh
  cases hon with
  | refuse hbig => exact absurd (hbig _ hn) (by decide)
  | @reuse n pre post b m' hn' _ hsplit hb =>
    cases hn.symm.trans hn'
    have := hsmall b (hsplit ▸ List.mem_append_right _ List.mem_cons_self)
    exact absurd hb.2 (Nat.not_le.mpr this)
  | grow _ _ _ hf =>
    cases hpage.symm.trans hf
    exact ⟨_, _, e, by rw [hpages]⟩
  | full _ _ _ hgrow =>
    have := hgrow.refused rfl
    omega

theorem heapReusable_hundred : ∃ p s s', kmalloc freshMm 100 = .ok (p, s) ∧ kfree s p = .ok s' ∧
    s'.heapPages ≠ [] ∧ ∀ k, 1 ≤ k → k ≤ 4080 → ReusesRoom s' k := by
  obtain ⟨s, e, _, hpages, hinv⟩ := @kmalloc_freshMm 100 104 (by decide) (by decide)
  have hrun : HeapRun CutsWhole FreesAhead s [(0xC000100C, 100)] :=
    .kmalloc _ _ [] 100 _ (.boot _ rfl rfl) (cutsWhole_freshMm (n := 104) (by decide) (by decide))
      fresh_freshMm e
  have hahead : FreesAhead s 0xC000100C := fun bs b c _ _ _ hc _ _ => by
    have hc' : 0xC0000000 + c.addr + 12 = 0xC000100C := hc
    omega
  obtain ⟨m', e', _⟩ := @kfree_on s [] [⟨0x1000 + 12 + 104, 4084 - 104 - 12, none⟩]
    ⟨0x1000, 104, some 100⟩ 100 hinv rfl
  have hpages' : ({ s with mem := m' } : Mm).heapPages ≠ [] := by
    rw [hpages]
    nofun
  exact ⟨_, s, _, e, e', hpages', (heapReusable hpages').1
    (.kfree _ _ _ (0xC000100C, 100) hrun hahead List.mem_cons_self e')⟩

/-- Two ways to lose the first page's room: cut a block so that 12 bytes are left over, or free two
    neighbours first to last. Everything is freed, and 4080 bytes take a second page. -/
theorem heap_room_lost :
    (∃ p s₁ s₂ p' s₃, kmalloc freshMm 4072 = .ok (p, s₁) ∧ kfree s₁ p = .ok s₂ ∧
      HeapReach s₂ [] ∧ s₂.heapPages = [0x1000] ∧
      kmalloc s₂ 4080 = .ok (p', s₃) ∧ s₃.heapPages = [0x2000, 0x1000]) ∧
    (∃ p q s₁ s₂ s₃ s₄ p' s₅, kmalloc freshMm 8 = .ok (p, s₁) ∧ kmalloc s₁ 8 = .ok (q, s₂) ∧
      kfree s₂ p = .ok s₃ ∧ kfree s₃ q = .ok s₄ ∧ HeapReach s₄ [] ∧ s₄.heapPages = [0x1000] ∧
      kmalloc s₄ 4080 = .ok (p', s₅) ∧ s₅.heapPages = [0x2000, 0x1000]) := by
  constructor
  · obtain ⟨s₁, e₁, hpmm, hpages, hinv₁⟩ := @kmalloc_freshMm 4072 4072 (by decide) (by decide)
    have hr₁ : HeapReach s₁ [(0xC000100C, 4072)] :=
      .kmalloc _ _ [] 4072 _ (.boot _ rfl rfl) fresh_freshMm e₁
    rw [show splitBlock (pageBlock 0x1000) 4072 4072 = [⟨0x1000, 4072, some 4072⟩] by decide] at hinv₁
    obtain ⟨m₂, e₂, hrel⟩ := @kfree_on s₁ [] [] ⟨0x1000, 4072, some 4072⟩ 4072 hinv₁ rfl
    obtain ⟨p', s₃, e₃, hp₃⟩ := kmalloc_second_page hrel.inv hpmm hpages (by decide)
    exact ⟨_, s₁, _, p', s₃, e₁, e₂,
      .kfree _ _ _ (0xC000100C, 4072) hr₁ List.mem_cons_self e₂, hpages, e₃, hp₃⟩
  · obtain ⟨s₁, e₁, hpmm, hpages, hinv₁⟩ := @kmalloc_freshMm 8 8 (by decide) (by decide)
    have hr₁ : HeapReach s₁ [(0xC000100C, 8)] :=
      .kmalloc _ _ [] 8 _ (.boot _ rfl rfl) fresh_freshMm e₁
    have hfresh : (pmmAllocPage s₁.pmm).1 ≠ 0 → (pmmAllocPage s₁.pmm).1 ∉ s₁.heapPages :=
      fun _ => by
        rw [hpmm, hpages]
        decide +kernel
    obtain ⟨m₂, e₂, hinv₂⟩ := @kmalloc_reuse s₁ [⟨0x1000, 8, some 8⟩] [] ⟨0x1014, 4064, none⟩ 8 8
      hinv₁ (by decide) (by decide) (by decide) (by decide)
    have hr₂ : HeapReach { s₁ with mem := m₂ } [(0xC0001020, 8), (0xC000100C, 8)] :=
      .kmalloc _ _ _ 8 _ hr₁ hfresh e₂
    obtain ⟨m₃, e₃, hrel₃⟩ := @kfree_on { s₁ with mem := m₂ } []
      [⟨0x1014, 8, some 8⟩, ⟨0x1028, 4044, none⟩] ⟨0x1000, 8, some 8⟩ 8 hinv₂ rfl
    have hr₃ : HeapReach { s₁ with mem := m₃ } [(0xC0001020, 8)] :=
      .kfree _ _ _ (0xC000100C, 8) hr₂ (List.mem_cons_of_mem _ List.mem_cons_self) e₃
    obtain ⟨m₄, e₄, hrel₄⟩ := @kfree_on { s₁ with mem := m₃ } [⟨0x1000, 8, none⟩]
      [⟨0x1028, 4044, none⟩] ⟨0x1014, 8, some 8⟩ 8 hrel₃.inv rfl
    have hr₄ : HeapReach { s₁ with mem := m₄ } [] :=
      .kfree _ _ _ (0xC0001020, 8) hr₃ List.mem_cons_self e₄
    obtain ⟨p', s₅, e₅, hp₅⟩ := kmalloc_second_page hrel₄.inv hpmm hpages (by decide)
    exact ⟨_, _, s₁, _, _, _, p', s₅, e₁, e₂, e₃, e₄, hr₄, hpages, e₅, hp₅⟩

end Emyx
