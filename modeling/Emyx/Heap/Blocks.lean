/-
  File:      Emyx/Heap/Blocks.lean
  Subject:   WHAT THE HEAP IS: a list of blocks, pairwise apart, inside the pages the heap took;
             and what allocation and release do to that list.

  * `Blk`, `Shape pages bs` -- the list and its invariant; `Shape.replace` for every change in
    the middle, `Shape.grow` for a new page;
  * `splitBlock`, `mergeNext` -- `alloc_from_block` and `coalesce_next` on the list;
  * `allocs bs` -- the allocations the list holds, and how each change alters them.
-/
import Emyx.Lib.Extents
import Emyx.Machine

namespace Emyx

open Lib

/-- A block: its header's physical address, its payload's size, and how many bytes its holder
    asked for (`none` while it is free). -/
structure Blk where
  addr : Nat
  size : Nat
  req : Option Nat
  deriving DecidableEq

/-- The pointer to the block's header. -/
def Blk.ptr (b : Blk) : Nat := 0xC0000000 + b.addr

/-- Headers and payloads of the two blocks share no byte. -/
def Blk.Apart (b c : Blk) : Prop :=
  b.addr + 12 + b.size ≤ c.addr ∨ c.addr + 12 + c.size ≤ b.addr

instance : Std.Symm Blk.Apart := ⟨fun _ _ h => Or.symm h⟩

/-! ## 1. The list and its pages -/

/-- The byte lies in a page of the list. -/
def InPages (pages : List Nat) (x : Nat) : Prop := ∃ g ∈ pages, g ≤ x ∧ x < g + 4096

/-- The blocks are pairwise apart and lie in the pages, which lie in the direct map. -/
structure Shape (pages : List Nat) (bs : List Blk) : Prop where
  page : ∀ g ∈ pages, g % 4096 = 0 ∧ g + 4096 ≤ 0x1000000
  apart : bs.Pairwise Blk.Apart
  inside : ∀ b ∈ bs, ∀ x, b.addr ≤ x → x < b.addr + 12 + b.size → InPages pages x
  fits : ∀ b ∈ bs, ∀ n ∈ b.req, n ≤ b.size

theorem Shape.bound {pages : List Nat} {bs : List Blk} (h : Shape pages bs) {b : Blk}
    (hb : b ∈ bs) : b.addr + 12 + b.size ≤ 0x1000000 := by
  obtain ⟨g, hg, _, h2⟩ := h.inside b hb (b.addr + 12 + b.size - 1) (by omega) (by omega)
  have := (h.page g hg).2
  omega

/-- Replace a stretch by blocks that stay inside it. -/
theorem Shape.replace {pages : List Nat} {pre post : List Blk} (old mid : List Blk)
    (h : Shape pages (pre ++ (old ++ post))) (hmid : mid.Pairwise Blk.Apart)
    (hcover : ∀ c : Blk, (∀ o ∈ old, c.Apart o) → ∀ z ∈ mid, c.Apart z)
    (hin : ∀ z ∈ mid, ∀ x, z.addr ≤ x → x < z.addr + 12 + z.size → InPages pages x)
    (hfit : ∀ z ∈ mid, ∀ n ∈ z.req, n ≤ z.size) : Shape pages (pre ++ (mid ++ post)) := by
  have hmem : ∀ b ∈ pre ++ (mid ++ post), b ∈ mid ∨ b ∈ pre ++ (old ++ post) := fun b hb => by
    simp only [List.mem_append] at hb ⊢
    tauto
  refine ⟨h.page, pairwise_replace h.apart hmid hcover, fun b hb => ?_, fun b hb => ?_⟩
  · exact (hmem b hb).elim (hin b) (h.inside b)
  · exact (hmem b hb).elim (hfit b) (h.fits b)

/-- The block `new_block` makes of the page `f`. -/
def pageBlock (f : Nat) : Blk := ⟨f, 4096 - 12, none⟩

/-- A page the heap does not hold yet, with its block at the end of the list. -/
theorem Shape.grow {pages : List Nat} {bs : List Blk} (h : Shape pages bs) {f : Nat}
    (hf : f ∉ pages) (hal : f % 4096 = 0) (hlim : f + 4096 ≤ 0x1000000) :
    Shape (f :: pages) (bs ++ [pageBlock f]) := by
  refine ⟨fun g hg => ?_, ?_, fun b hb x h1 h2 => ?_, fun b hb n hn => ?_⟩
  · rcases List.mem_cons.mp hg with rfl | hg
    · exact ⟨hal, hlim⟩
    · exact h.page g hg
  · rw [List.pairwise_append]
    refine ⟨h.apart, List.pairwise_singleton _ _, fun b hb c hc => ?_⟩
    have hc' := List.mem_singleton.mp hc
    subst hc'
    by_contra hn
    unfold Blk.Apart pageBlock at hn
    simp only at hn
    -- a byte in both: its page is `f` and one of `pages`
    obtain ⟨g, hg, h1, h2⟩ := h.inside b hb (max b.addr f) (by omega) (by omega)
    have hgal := (h.page g hg).1
    have : g = f := by omega
    subst this
    exact hf hg
  · rcases List.mem_append.mp hb with hb | hb
    · obtain ⟨g, hg, hx⟩ := h.inside b hb x h1 h2
      exact ⟨g, List.mem_cons_of_mem _ hg, hx⟩
    · have hb' := List.mem_singleton.mp hb
      subst hb'
      unfold pageBlock at h1 h2
      simp only at h1 h2
      exact ⟨f, List.mem_cons_self, h1, by omega⟩
  · rcases List.mem_append.mp hb with hb | hb
    · exact h.fits b hb n hn
    · rw [List.mem_singleton.mp hb] at hn
      cases hn

/-- Blocks of one list with one address are one block. -/
theorem Shape.addr_inj {pages : List Nat} {bs : List Blk} (h : Shape pages bs) {b c : Blk}
    (hb : b ∈ bs) (hc : c ∈ bs) (e : b.addr = c.addr) : b = c := by
  by_contra hne
  have := h.apart.forall hb hc hne
  unfold Blk.Apart at this
  omega

/-- The list is shorter than the direct map is long. -/
theorem Shape.length_le {pages : List Nat} {bs : List Blk} (h : Shape pages bs) :
    bs.length ≤ 0x1000000 := by
  have hnd : (bs.map Blk.addr).Nodup := by
    refine List.pairwise_map.mpr (h.apart.imp fun {b c} hbc e => ?_)
    unfold Blk.Apart at hbc
    omega
  have := length_le_of_nodup (n := 0x1000000) hnd fun x hx => by
    obtain ⟨b, hb, rfl⟩ := List.mem_map.mp hx
    have := h.bound hb
    omega
  rwa [List.length_map] at this

/-! ## 2. Splitting and merging -/

/-- `alloc_from_block` on the list: the block, cut to `n` bytes for a holder who asked for `k`,
    and the free block behind it when a header and 8 bytes are left. -/
def splitBlock (b : Blk) (n k : Nat) : List Blk :=
  ⟨b.addr, n, some k⟩ ::
    if b.size - n ≥ 12 + 8 then [⟨b.addr + 12 + n, b.size - n - 12, none⟩] else []

/-- `coalesce_next` on the list: absorb the free neighbours that start where the block ends. -/
def mergeNext (b : Blk) : List Blk → List Blk
  | [] => [b]
  | c :: cs =>
    if c.req = none ∧ b.addr + 12 + b.size = c.addr then
      mergeNext ⟨b.addr, b.size + (12 + c.size), none⟩ cs
    else b :: c :: cs

/-- Merging leaves a free block that is no smaller. -/
theorem mergeNext_serves (b : Blk) (hb : b.req = none) (cs : List Blk) :
    ∃ c ∈ mergeNext b cs, c.req = none ∧ b.size ≤ c.size := by
  induction cs generalizing b with
  | nil => exact ⟨b, List.mem_cons_self, hb, Nat.le_refl _⟩
  | cons c cs ih =>
    unfold mergeNext
    split
    · obtain ⟨z, hz, hfree, hle⟩ := ih ⟨b.addr, b.size + (12 + c.size), none⟩ rfl
      exact ⟨z, hz, hfree, (Nat.le_add_right _ _).trans hle⟩
    · exact ⟨b, List.mem_cons_self, hb, Nat.le_refl _⟩

/-- The pieces of a split lie in the block. -/
theorem mem_splitBlock {b z : Blk} {n k : Nat} (hn : n ≤ b.size) (hz : z ∈ splitBlock b n k) :
    b.addr ≤ z.addr ∧ z.addr + 12 + z.size ≤ b.addr + 12 + b.size ∧
      (z = ⟨b.addr, n, some k⟩ ∨ z.req = none) := by
  unfold splitBlock at hz
  rcases List.mem_cons.mp hz with rfl | hz
  · exact ⟨Nat.le_refl _, by simp only; omega, Or.inl rfl⟩
  · split at hz
    · rw [List.mem_singleton.mp hz]
      exact ⟨by simp only; omega, by simp only; omega, Or.inr rfl⟩
    · cases hz

theorem Shape.split {pages : List Nat} {pre post : List Blk} {b : Blk} {n k : Nat}
    (h : Shape pages (pre ++ b :: post)) (hn : n ≤ b.size) (hk : k ≤ n) :
    Shape pages (pre ++ (splitBlock b n k ++ post)) := by
  refine Shape.replace [b] (splitBlock b n k) h ?_ (fun c hc z hz => ?_) (fun z hz x h1 h2 => ?_)
    fun z hz j hj => ?_
  · unfold splitBlock
    split
    · exact List.pairwise_pair.mpr (Or.inl (Nat.le_refl _))
    · exact List.pairwise_singleton _ _
  · have hcb := hc b List.mem_cons_self
    obtain ⟨h1, h2, _⟩ := mem_splitBlock hn hz
    unfold Blk.Apart at hcb ⊢
    omega
  · obtain ⟨h3, h4, _⟩ := mem_splitBlock hn hz
    exact h.inside b (List.mem_append_right _ List.mem_cons_self) x (by omega) (by omega)
  · rcases (mem_splitBlock hn hz).2.2 with rfl | hnone
    · cases hj
      exact hk
    · rw [hnone] at hj
      cases hj

theorem Shape.merge {pages : List Nat} {pre : List Blk} {b : Blk} {post : List Blk}
    (h : Shape pages (pre ++ b :: post)) : Shape pages (pre ++ mergeNext b post) := by
  induction post generalizing b with
  | nil => exact h
  | cons c cs ih =>
    unfold mergeNext
    split
    · rename_i hc
      refine ih (Shape.replace [b, c] [⟨b.addr, b.size + (12 + c.size), none⟩] h
        (List.pairwise_singleton _ _) (fun d hd z hz => ?_) (fun z hz x h1 h2 => ?_)
        fun z hz j hj => ?_)
      · have hdb := hd b List.mem_cons_self
        have hdc := hd c (List.mem_cons_of_mem _ List.mem_cons_self)
        rw [List.mem_singleton.mp hz]
        unfold Blk.Apart at hdb hdc ⊢
        simp only
        omega
      · rw [List.mem_singleton.mp hz] at h1 h2
        simp only at h1 h2
        by_cases hx : x < b.addr + 12 + b.size
        · exact h.inside b (List.mem_append_right _ List.mem_cons_self) x h1 hx
        · exact h.inside c (List.mem_append_right _ (List.mem_cons_of_mem _ List.mem_cons_self)) x
            (by omega) (by omega)
      · rw [List.mem_singleton.mp hz] at hj
        cases hj
    · exact h

/-- A block given back by its holder. -/
theorem Shape.release {pages : List Nat} {pre post : List Blk} {b : Blk}
    (h : Shape pages (pre ++ b :: post)) :
    Shape pages (pre ++ ⟨b.addr, b.size, none⟩ :: post) := by
  refine Shape.replace [b] [⟨b.addr, b.size, none⟩] h (List.pairwise_singleton _ _)
    (fun d hd z hz => ?_) (fun z hz => ?_) fun z hz j hj => ?_
  · rw [List.mem_singleton.mp hz]
    exact hd b List.mem_cons_self
  · rw [List.mem_singleton.mp hz]
    exact h.inside b (List.mem_append_right _ List.mem_cons_self)
  · rw [List.mem_singleton.mp hz] at hj
    cases hj

/-! ## 3. The allocations a list holds -/

/-- The pointer `kmalloc` returned for the block. -/
def Blk.payload (b : Blk) : Nat := b.ptr + 12

/-- The allocations, as pointer and size asked for. -/
def allocs (bs : List Blk) : List (Nat × Nat) :=
  bs.filterMap fun b => b.req.map fun n => (b.payload, n)

@[simp] theorem allocs_nil : allocs [] = [] := rfl

@[simp] theorem allocs_append (as bs : List Blk) : allocs (as ++ bs) = allocs as ++ allocs bs :=
  List.filterMap_append

@[simp] theorem allocs_free (a n : Nat) (bs : List Blk) : allocs (⟨a, n, none⟩ :: bs) = allocs bs :=
  List.filterMap_cons_none rfl

@[simp] theorem allocs_used (a n k : Nat) (bs : List Blk) :
    allocs (⟨a, n, some k⟩ :: bs) = (0xC0000000 + a + 12, k) :: allocs bs :=
  List.filterMap_cons_some rfl

theorem mem_allocs {bs : List Blk} {a : Nat × Nat} :
    a ∈ allocs bs ↔ ∃ b ∈ bs, b.req = some a.2 ∧ b.payload = a.1 := by
  unfold allocs
  rw [List.mem_filterMap]
  constructor
  · intro h
    obtain ⟨b, hb, e⟩ := h
    obtain ⟨n, hn, rfl⟩ := Option.map_eq_some_iff.mp e
    exact ⟨b, hb, hn, rfl⟩
  · intro h
    obtain ⟨b, hb, h1, h2⟩ := h
    exact ⟨b, hb, by rw [h1, Option.map_some, h2]⟩

theorem allocs_split {pre post : List Blk} {b : Blk} {n k : Nat} (hb : b.req = none) :
    (allocs (pre ++ (splitBlock b n k ++ post))).Perm
      ((b.payload, k) :: allocs (pre ++ b :: post)) := by
  obtain ⟨addr, size, req⟩ := b
  simp only at hb
  subst hb
  have hs : allocs (splitBlock ⟨addr, size, none⟩ n k) = [(0xC0000000 + addr + 12, k)] := by
    unfold splitBlock
    split <;> simp
  rw [allocs_append, allocs_append, allocs_append, hs, allocs_free]
  exact List.perm_middle

theorem allocs_merge {b : Blk} {post : List Blk} (hb : b.req = none) :
    allocs (mergeNext b post) = allocs post := by
  induction post generalizing b with
  | nil =>
    obtain ⟨addr, size, req⟩ := b
    simp only at hb
    subst hb
    exact allocs_free _ _ _
  | cons c cs ih =>
    unfold mergeNext
    split
    · rename_i hc
      obtain ⟨addr, size, req⟩ := c
      have hreq : req = none := hc.1
      subst hreq
      rw [ih rfl, allocs_free]
    · obtain ⟨addr, size, req⟩ := b
      simp only at hb
      subst hb
      exact allocs_free _ _ _

theorem allocs_release {pre post : List Blk} {b : Blk} {k : Nat} (hb : b.req = some k) :
    (allocs (pre ++ b :: post)).Perm ((b.payload, k) :: allocs (pre ++ post)) := by
  obtain ⟨addr, size, req⟩ := b
  simp only at hb
  subst hb
  rw [allocs_append, allocs_append, allocs_used]
  exact List.perm_middle

end Emyx
