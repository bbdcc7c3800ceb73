/-
  File:      Emyx/Heap/Spec.lean
  Subject:   THE HEAP FUNCTIONS ON THE BLOCK LIST: each function of Emyx/Heap/Model.lean, run on a
             memory that holds a list of blocks, returns and leaves a memory that holds the list
             Emyx/Heap/Blocks.lean says.

  * `Seg m p bs q` -- memory `m` holds the headers of `bs`, linked from pointer `p` to `q`;
    `seg_change` keeps the rest of the list when one block's bytes change;
  * `findFree_spec`, `allocFromBlock_spec`, `coalesceNext_spec`, `newBlock_spec` -- one lemma for
    each function.
-/
import Emyx.Heap.Blocks
import Emyx.Heap.Model
import Emyx.Pmm.Run

namespace Emyx

open Lib

/-! ## 1. The list in memory -/

/-- The block's header is at its address, with the link `next`. -/
structure Holds (m : Mem) (b : Blk) (next : Nat) : Prop where
  size : rd32 m b.addr = b.size
  free : m (b.addr + 4) = if b.req = none then 1 else 0
  next : rd32 m (b.addr + 8) = next

/-- The headers of `bs` are linked from `p` to `q`. -/
def Seg (m : Mem) : Nat → List Blk → Nat → Prop
  | p, [], q => p = q
  | p, b :: bs, q => p = b.ptr ∧ ∃ next, Holds m b next ∧ Seg m next bs q

theorem Holds.congr {m m' : Mem} {b : Blk} {next : Nat} (h : Holds m b next)
    (he : ∀ x, b.addr ≤ x → x < b.addr + 12 → m' x = m x) : Holds m' b next :=
  ⟨(rd32_congr fun i hi => he _ (by omega) (by omega)).trans h.size,
    (he _ (by omega) (by omega)).trans h.free,
    (rd32_congr fun i hi => he _ (by omega) (by omega)).trans h.next⟩

theorem Seg.congr {m m' : Mem} {bs : List Blk} {p q : Nat} (h : Seg m p bs q)
    (he : ∀ b ∈ bs, ∀ x, b.addr ≤ x → x < b.addr + 12 → m' x = m x) : Seg m' p bs q := by
  induction bs generalizing p with
  | nil => exact h
  | cons b bs ih =>
    obtain ⟨hp, next, hb, hs⟩ := h
    exact ⟨hp, next, hb.congr (he b List.mem_cons_self),
      ih hs fun c hc => he c (List.mem_cons_of_mem _ hc)⟩

theorem seg_append {m : Mem} {as bs : List Blk} {p q : Nat} :
    Seg m p (as ++ bs) q ↔ ∃ r, Seg m p as r ∧ Seg m r bs q := by
  induction as generalizing p with
  | nil => exact ⟨fun h => ⟨p, rfl, h⟩, fun ⟨r, h1, h2⟩ => by cases h1; exact h2⟩
  | cons a as ih =>
    constructor
    · intro h
      obtain ⟨hp, next, ha, hs⟩ := h
      obtain ⟨r, h1, h2⟩ := ih.mp hs
      exact ⟨r, ⟨hp, next, ha, h1⟩, h2⟩
    · intro h
      obtain ⟨r, ⟨hp, next, ha, h1⟩, h2⟩ := h
      exact ⟨hp, next, ha, ih.mpr ⟨r, h1, h2⟩⟩

/-- A block in the middle of the list: what leads to it, its header, what follows. -/
theorem seg_middle {m : Mem} {pre post : List Blk} {b : Blk} {p q : Nat} :
    Seg m p (pre ++ b :: post) q ↔
      ∃ next, Seg m p pre b.ptr ∧ Holds m b next ∧ Seg m next post q := by
  rw [seg_append]
  constructor
  · intro h
    obtain ⟨r, h1, rfl, next, hb, h2⟩ := h
    exact ⟨next, h1, hb, h2⟩
  · intro h
    obtain ⟨next, h1, hb, h2⟩ := h
    exact ⟨b.ptr, h1, rfl, next, hb, h2⟩

/-- When only bytes of the block `b` change, what leads to it and what follows it stay, and the
    block may be replaced by any stretch its bytes now hold. -/
theorem seg_change {m m' : Mem} {pre post mid : List Blk} {b : Blk} {p q next : Nat}
    (hap : (pre ++ b :: post).Pairwise Blk.Apart) (hpre : Seg m p pre b.ptr)
    (hpost : Seg m next post q)
    (hag : AgreeOn (fun x => ¬ (b.addr ≤ x ∧ x < b.addr + 12 + b.size)) m m')
    (hmid : Seg m' b.ptr mid next) : Seg m' p (pre ++ (mid ++ post)) q := by
  have hkeep : ∀ c, c ∈ pre ∨ c ∈ post → ∀ x, c.addr ≤ x → x < c.addr + 12 → m' x = m x :=
    fun c hc x h1 h2 => hag x fun hx => by
      have := pairwise_middle hap hc
      unfold Blk.Apart at this
      omega
  exact seg_append.mpr ⟨_, hpre.congr fun c hc => hkeep c (Or.inl hc),
    seg_append.mpr ⟨_, hmid, hpost.congr fun c hc => hkeep c (Or.inr hc)⟩⟩

theorem loadBlock_holds {m : Mem} {b : Blk} {next : Nat} (h : Holds m b next)
    (hlim : b.addr + 12 ≤ 0x1000000) :
    loadBlock m b.ptr = .ok ⟨b.size, if b.req = none then 1 else 0, next⟩ := by
  unfold loadBlock Blk.ptr
  rw [if_pos (by omega), Nat.add_sub_cancel_left, h.size, h.free, h.next]

/-! ## 2. The search -/

/-- The block can serve `n` bytes. -/
def Blk.Serves (b : Blk) (n : Nat) : Prop := b.req = none ∧ n ≤ b.size

/-- The pointer to the last block, or `last` for an empty list. -/
def lastPtr (last : Nat) : List Blk → Nat
  | [] => last
  | b :: bs => lastPtr b.ptr bs

/-- **The search returns the first block that can serve the request**, or the end of the list. -/
theorem findFree_spec {m : Mem} {n : Nat} {bs : List Blk} {p last fuel : Nat} (h : Seg m p bs 0)
    (hlim : ∀ b ∈ bs, b.addr + 12 ≤ 0x1000000) (hf : bs.length < fuel) :
    (∃ pre b post last', bs = pre ++ b :: post ∧ b.Serves n ∧ (∀ c ∈ pre, ¬ c.Serves n) ∧
      findFree m n fuel p last = .ok (some b.ptr, last')) ∨
    ((∀ b ∈ bs, ¬ b.Serves n) ∧ findFree m n fuel p last = .ok (none, lastPtr last bs)) := by
  induction bs generalizing p last fuel with
  | nil =>
    obtain ⟨fuel, rfl⟩ : ∃ f, fuel = f + 1 := ⟨fuel - 1, by omega⟩
    have hp : p = 0 := h
    subst hp
    exact Or.inr ⟨fun b hb => absurd hb List.not_mem_nil, rfl⟩
  | cons b bs ih =>
    obtain ⟨fuel, rfl⟩ : ∃ f, fuel = f + 1 := ⟨fuel - 1, by omega⟩
    obtain ⟨rfl, next, hb, hs⟩ := h
    have hne : b.ptr ≠ 0 := by
      unfold Blk.ptr
      omega
    have hload := loadBlock_holds hb (hlim b List.mem_cons_self)
    by_cases hserve : b.Serves n
    · refine Or.inl ⟨[], b, bs, last, rfl, hserve, fun c hc => absurd hc List.not_mem_nil, ?_⟩
      rw [findFree, if_neg hne]
      refine bind_ok.mpr ⟨_, hload, ?_⟩
      rw [if_pos ⟨by simp [hserve.1], hserve.2⟩]
      rfl
    · have hstep : findFree m n (fuel + 1) b.ptr last = findFree m n fuel next b.ptr := by
        have hc : ¬ ((if b.req = none then (1 : Byte) else 0) ≠ 0 ∧ b.size ≥ n) := fun hc => by
          refine hserve ⟨?_, hc.2⟩
          by_contra hr
          rw [if_neg hr] at hc
          exact hc.1 rfl
        rw [findFree, if_neg hne, hload]
        show (if _ then _ else _) = _
        rw [if_neg hc]
      rw [hstep]
      rcases @ih next b.ptr fuel hs (fun c hc => hlim c (List.mem_cons_of_mem _ hc))
        (by simpa using hf) with ⟨pre, c, post, last', rfl, hc, hpre, e⟩ | ⟨hall, e⟩
      · refine Or.inl ⟨b :: pre, c, post, last', rfl, hc, fun d hd => ?_, e⟩
        rcases List.mem_cons.mp hd with rfl | hd
        · exact hserve
        · exact hpre d hd
      · refine Or.inr ⟨fun d hd => ?_, e⟩
        rcases List.mem_cons.mp hd with rfl | hd
        · exact hserve
        · exact hall d hd

/-! ## 3. Taking a block -/

/-- The header of the rest of a split, written behind the block and linked in. -/
def writeRest (m : Mem) (b : Blk) (n next : Nat) : Mem :=
  wr32 (wr32 (wr32 (wr8 m (b.addr + 12 + n + 4) 1) (b.addr + 12 + n) (b.size - n - 12))
    (b.addr + 12 + n + 8) next) (b.addr + 8) (0xC0000000 + (b.addr + 12 + n))

/-- The block's own flag and size. -/
def writeTaken (m : Mem) (b : Blk) (n : Nat) : Mem := wr32 (wr8 m (b.addr + 4) 0) b.addr n

theorem allocFromBlock_eq {m : Mem} {b : Blk} {next n : Nat} (h : Holds m b next)
    (hn : n ≤ b.size) (hlim : b.addr + 12 + b.size ≤ 0x1000000) :
    allocFromBlock m b.ptr n = .ok (b.payload,
      writeTaken (if b.size - n ≥ 12 + 8 then writeRest m b n next else m) b n) := by
  have hptr : b.ptr = 0xC0000000 + b.addr := rfl
  have hrem : (b.size + 2 ^ 32 - n) % 2 ^ 32 = b.size - n := by omega
  unfold allocFromBlock writeTaken
  refine bind_ok.mpr ⟨_, loadBlock_holds h (by omega), ?_⟩
  simp only [hrem]
  have htaken : ∀ m' : Mem, (do
      let m ← poke8 m' (b.ptr + 4) 0
      let m ← poke32 m b.ptr n
      pure (b.ptr + 12, m)) = Except.ok (b.payload, wr32 (wr8 m' (b.addr + 4) 0) b.addr n) :=
    fun m' => bind_ok.mpr ⟨_, poke8_ok (b.addr + 4) (by omega) (by omega),
      bind_ok.mpr ⟨_, poke32_ok b.addr hptr (by omega), rfl⟩⟩
  unfold writeRest
  split
  · have hlink : (b.ptr + 12 + n) % 2 ^ 32 = 0xC0000000 + (b.addr + 12 + n) := by omega
    rw [hlink]
    refine bind_ok.mpr ⟨_, poke8_ok (b.addr + 12 + n + 4) (by omega) (by omega), ?_⟩
    refine bind_ok.mpr ⟨_, poke32_ok (b.addr + 12 + n) rfl (by omega), ?_⟩
    refine bind_ok.mpr ⟨_, poke32_ok (b.addr + 12 + n + 8) (by omega) (by omega), ?_⟩
    exact bind_ok.mpr ⟨_, poke32_ok (b.addr + 8) (by omega) (by omega), htaken _⟩
  · exact bind_ok.mpr ⟨m, rfl, htaken m⟩

/-- **`alloc_from_block` cuts the block**, and writes only inside it. -/
theorem allocFromBlock_spec {m : Mem} {b : Blk} {next n : Nat} (k : Nat) (h : Holds m b next)
    (hn : n ≤ b.size) (hlim : b.addr + 12 + b.size ≤ 0x1000000) :
    ∃ m', allocFromBlock m b.ptr n = .ok (b.payload, m') ∧
      AgreeOn (fun x => ¬ (b.addr ≤ x ∧ x < b.addr + 12 + b.size)) m m' ∧
      Seg m' b.ptr (splitBlock b n k) next := by
  refine ⟨_, allocFromBlock_eq h hn hlim, ?_⟩
  have hnlt : n % 2 ^ 32 = n := Nat.mod_eq_of_lt (by omega)
  have hnext : next % 2 ^ 32 = next := by
    rw [← h.next]
    exact Nat.mod_eq_of_lt (rd32_lt _ _)
  unfold splitBlock writeTaken writeRest
  split
  · have hrest : (b.size - n - 12) % 2 ^ 32 = b.size - n - 12 := Nat.mod_eq_of_lt (by omega)
    have hlink : (0xC0000000 + (b.addr + 12 + n)) % 2 ^ 32 = 0xC0000000 + (b.addr + 12 + n) :=
      Nat.mod_eq_of_lt (by omega)
    refine ⟨fun x hx => ?_, rfl, _, ⟨?_, ?_, rfl⟩, ?_, next, ⟨?_, ?_, ?_⟩, rfl⟩
    · simp (disch := omega) only [wr32_outside, wr8_outside]
    · rw [rd32_wr32, hnlt]
    · simp (disch := omega) only [wr32_outside, wr8_self]
      rfl
    · simp (disch := omega) only [rd32_wr32_outside, rd32_wr8_outside, rd32_wr32, hlink]
      rfl
    · simp (disch := omega) only [rd32_wr32_outside, rd32_wr8_outside, rd32_wr32, hrest]
    · simp (disch := omega) only [wr32_outside, wr8_outside, wr8_self]
      rfl
    · simp (disch := omega) only [rd32_wr32_outside, rd32_wr8_outside, rd32_wr32, hnext]
  · refine ⟨fun x hx => ?_, rfl, _, ⟨?_, ?_, rfl⟩, ?_⟩
    · simp (disch := omega) only [wr32_outside, wr8_outside]
    · rw [rd32_wr32, hnlt]
    · simp (disch := omega) only [wr32_outside, wr8_self]
      rfl
    · simp (disch := omega) only [rd32_wr32_outside, rd32_wr8_outside]
      exact h.next

/-! ## 4. Giving a block back -/

/-- The next free neighbour is absorbed: size and link of the block change. -/
theorem holds_absorb {m : Mem} {b c : Blk} {next next' : Nat} (h : Holds m b next)
    (hc : Holds m c next') (hlim : c.addr + 12 + c.size ≤ 0x1000000)
    (hadj : b.addr + 12 + b.size = c.addr) (hb : b.req = none) :
    Holds (wr32 (wr32 m b.addr (b.size + (12 + c.size))) (b.addr + 8) next')
      ⟨b.addr, b.size + (12 + c.size), none⟩ next' := by
  refine ⟨?_, ?_, ?_⟩
  · simp (disch := omega) only [rd32_wr32_outside, rd32_wr32]
    exact Nat.mod_eq_of_lt (by omega)
  · simp (disch := omega) only [wr32_outside]
    rw [h.free, if_pos hb]
    rfl
  · rw [rd32_wr32, ← hc.next]
    exact Nat.mod_eq_of_lt (rd32_lt _ _)

/-- **`coalesce_next` merges the block with the free blocks right behind it**, and writes only its
    header. -/
theorem coalesceNext_spec {m : Mem} {b : Blk} {post : List Blk} {next fuel : Nat}
    (h : Holds m b next) (hb : b.req = none) (hpost : Seg m next post 0)
    (hap : (b :: post).Pairwise Blk.Apart)
    (hlim : ∀ c ∈ b :: post, c.addr + 12 + c.size ≤ 0x1000000) (hf : post.length < fuel) :
    ∃ m', coalesceNext b.ptr fuel m = .ok m' ∧
      AgreeOn (fun x => ¬ (b.addr ≤ x ∧ x < b.addr + 12)) m m' ∧
      Seg m' b.ptr (mergeNext b post) 0 := by
  induction post generalizing m b next fuel with
  | nil =>
    obtain ⟨fuel, rfl⟩ : ∃ f, fuel = f + 1 := ⟨fuel - 1, by omega⟩
    have hn : next = 0 := hpost
    have hload := loadBlock_holds h (by have := hlim b List.mem_cons_self; omega)
    refine ⟨m, ?_, .refl _ m, rfl, next, h, hn⟩
    rw [coalesceNext]
    refine bind_ok.mpr ⟨_, hload, ?_⟩
    rw [if_pos hn]
    rfl
  | cons c cs ih =>
    obtain ⟨fuel, rfl⟩ : ∃ f, fuel = f + 1 := ⟨fuel - 1, by omega⟩
    obtain ⟨rfl, next', hc, hcs⟩ := hpost
    have hbl := hlim b List.mem_cons_self
    have hcl := hlim c (List.mem_cons_of_mem _ List.mem_cons_self)
    have hloadb := loadBlock_holds h (by omega)
    have hloadc := loadBlock_holds hc (by omega)
    have hpb : b.ptr = 0xC0000000 + b.addr := rfl
    have hpc : c.ptr = 0xC0000000 + c.addr := rfl
    have hend : (b.ptr + 12 + b.size) % 2 ^ 32 = c.ptr ↔ b.addr + 12 + b.size = c.addr := by omega
    have hbyte : (if c.req = none then (1 : Byte) else 0) ≠ 0 ↔ c.req = none := by
      by_cases hr : c.req = none <;> simp [hr]
    have hstep : coalesceNext b.ptr (fuel + 1) m =
        if c.req = none ∧ b.addr + 12 + b.size = c.addr then
          coalesceNext b.ptr fuel
            (wr32 (wr32 m b.addr (b.size + (12 + c.size))) (b.addr + 8) next')
        else .ok m := by
      have hne : c.ptr ≠ 0 := by omega
      rw [coalesceNext, hloadb, ok_bind, if_neg hne, hloadc, ok_bind]
      simp only [hbyte, hend]
      split
      · rename_i hmerge
        have hadj := hmerge.2
        rw [Nat.mod_eq_of_lt (show b.size + (12 + c.size) < 2 ^ 32 by omega),
          poke32_ok b.addr hpb (by omega), ok_bind,
          poke32_ok (b.addr + 8) (by omega) (by omega), ok_bind]
      · rfl
    rw [hstep, mergeNext]
    rw [List.pairwise_cons, List.pairwise_cons] at hap
    split
    · rename_i hadj
      have hrest : ∀ d ∈ cs, Blk.Apart ⟨b.addr, b.size + (12 + c.size), none⟩ d := fun d hd => by
        have h1 := hap.1 d (List.mem_cons_of_mem _ hd)
        have h2 := hap.2.1 d hd
        unfold Blk.Apart at h1 h2 ⊢
        simp only
        omega
      have hag : AgreeOn (fun x => ¬ (b.addr ≤ x ∧ x < b.addr + 12)) m
          (wr32 (wr32 m b.addr (b.size + (12 + c.size))) (b.addr + 8) next') := fun x hx => by
        simp (disch := omega) only [wr32_outside]
      obtain ⟨m', e, hag', hs⟩ := ih (b := ⟨b.addr, b.size + (12 + c.size), none⟩)
        (holds_absorb h hc hcl hadj.2 hb) rfl
        (hcs.congr fun d hd x h1 h2 => hag x fun hx => by
          have := hap.1 d (List.mem_cons_of_mem _ hd)
          unfold Blk.Apart at this
          omega)
        (List.pairwise_cons.mpr ⟨hrest, hap.2.2⟩)
        (fun d hd => by
          rcases List.mem_cons.mp hd with rfl | hd
          · simp only
            omega
          · exact hlim d (List.mem_cons_of_mem _ (List.mem_cons_of_mem _ hd)))
        (by simpa using hf)
      exact ⟨m', e, hag.trans hag', hs⟩
    · exact ⟨m, rfl, .refl _ m, rfl, c.ptr, h, rfl, next', hc, hcs⟩

/-! ## 5. A new page -/

theorem pmmAllocPage_aligned (p : Pmm) : (pmmAllocPage p).1 % 4096 = 0 := by
  rcases pmmAllocPage_cases p with ⟨_, e⟩ | ⟨i, _, e⟩
  · rw [e]
    rfl
  · rw [e]
    simp only
    omega

/-- What `new_block` does to the pages: the allocator has none, or one the direct map does not
    reach (it goes back), or one that becomes the heap's. -/
inductive Grows (s : Mm) (f : Nat) : Pmm → List Nat → Nat → Prop where
  | none (h : f = 0) : Grows s f (pmmAllocPage s.pmm).2 s.heapPages 0
  | high (h : 0x1000000 ≤ f) : Grows s f (pmmFreePage (pmmAllocPage s.pmm).2 f) s.heapPages 0
  | page (h : f ≠ 0) (hlt : f < 0x1000000) :
      Grows s f (pmmAllocPage s.pmm).2 (f :: s.heapPages) (0xC0000000 + f)

theorem newBlock_spec (s : Mm) :
    ∃ p' pages' m' r, newBlock s = .ok (r, { s with pmm := p', heapPages := pages', mem := m' }) ∧
      Grows s (pmmAllocPage s.pmm).1 p' pages' r ∧
      (r = 0 → m' = s.mem) ∧
      (r ≠ 0 → Holds m' (pageBlock (pmmAllocPage s.pmm).1) 0 ∧
        AgreeOn (fun x => ¬ ((pmmAllocPage s.pmm).1 ≤ x ∧ x < (pmmAllocPage s.pmm).1 + 12))
          s.mem m') := by
  have hal := pmmAllocPage_aligned s.pmm
  unfold newBlock Mm.allocPage
  simp only
  generalize hf : (pmmAllocPage s.pmm).1 = f at hal ⊢
  by_cases h0 : f = 0
  · rw [if_pos h0]
    exact ⟨_, _, _, _, rfl, .none h0, fun _ => rfl, fun h => absurd rfl h⟩
  · rw [if_neg h0]
    by_cases hlt : f < 0x1000000
    · rw [vmmPhysToVirt_of_lt hlt, if_neg (by omega), poke32_ok f rfl (by omega), ok_bind,
        poke8_ok (f + 4) (by omega) (by omega), ok_bind, poke32_ok (f + 8) (by omega) (by omega),
        ok_bind]
      refine ⟨_, _, _, _, rfl, .page h0 hlt, fun h => by omega, fun _ =>
        ⟨⟨?_, ?_, ?_⟩, fun x hx => ?_⟩⟩
      · unfold pageBlock
        simp (disch := omega) only [rd32_wr32_outside, rd32_wr8_outside, rd32_wr32]
        rfl
      · unfold pageBlock
        simp (disch := omega) only [wr32_outside, wr8_self]
        rfl
      · exact rd32_wr32 _ _ _
      · simp (disch := omega) only [wr32_outside, wr8_outside]
    · rw [vmmPhysToVirt_of_ge (by omega), if_pos rfl]
      exact ⟨_, _, _, _, rfl, .high (by omega), fun _ => rfl, fun h => absurd rfl h⟩

end Emyx
