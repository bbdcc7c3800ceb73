/-
  File:      Emyx/Pmm/Bitmap.lean
  Subject:   THE PHYSICAL PAGE ALLOCATOR (pmm.c without `pmm_init`): the bitmap, `reserve_page`,
             `reserve_segment`, `pmm_alloc_page`, `pmm_free_page`.

  One bit a page, set while the page is taken. The bitmap is an array of its own here; the bytes
  `[bitmapBase, bitmapBase + bitmapBytes)` it occupies are never handed out
  (`Emyx/Pmm/Init.lean`), so no client's store reaches it.

  * `isSet_bitmapSet`, `isSet_bitmapClear`, … -- what each operation does to every bit; the rest
    of the development reads the bitmap through `Pmm.isSet` only;
  * `pmmAllocPage_cases` -- the two things `pmm_alloc_page` can do, complete with the case where
    the 32-bit shift loses the page number's high bits;
  * `pmmFreePage_isSet` -- what `pmm_free_page` does to the bits.
-/
import Emyx.Machine

namespace Emyx

open Lib

/-- The static variables of pmm.c; `bitmap i` is `pmm_bitmap[i]`, and `bitmapBase` the physical
    address `pmm_bitmap` points at. -/
structure Pmm where
  bitmap : Nat → Byte
  bitmapBase : Nat
  bitmapBytes : Nat
  maxPage : Nat
  totalPages : Nat
  freePages : Nat

/-! ## 1. Bits -/

/-- `bitmap_set` -/
def bitmapSet (p : Pmm) (page : Nat) : Pmm :=
  { p with bitmap :=
      Function.update p.bitmap (page / 8) (p.bitmap (page / 8) ||| 1#8 <<< (page % 8)) }

/-- `bitmap_clear` -/
def bitmapClear (p : Pmm) (page : Nat) : Pmm :=
  { p with bitmap :=
      Function.update p.bitmap (page / 8) (p.bitmap (page / 8) &&& ~~~(1#8 <<< (page % 8))) }

/-- `bitmap_test` -/
def bitmapTest (p : Pmm) (page : Nat) : Byte := p.bitmap (page / 8) &&& 1#8 <<< (page % 8)

/-- The page is taken. -/
def Pmm.isSet (p : Pmm) (page : Nat) : Prop := bitmapTest p page ≠ 0

instance (p : Pmm) (page : Nat) : Decidable (p.isSet page) := inferInstanceAs (Decidable (_ ≠ _))

theorem getLsbD_bit {j k : Nat} (hj : j < 8) (hk : k < 8) :
    (1#8 <<< k).getLsbD j = decide (j = k) := by
  rw [BitVec.getLsbD_shiftLeft, BitVec.getLsbD_one]
  by_cases h : j = k
  · subst h
    simp [hj]
  · by_cases h' : j < k
    · simp [h, h']
    · have h0 : j - k ≠ 0 := by omega
      simp [h, h0]

theorem Pmm.isSet_iff (p : Pmm) (page : Nat) :
    p.isSet page ↔ (p.bitmap (page / 8)).getLsbD (page % 8) = true := by
  have h8 : page % 8 < 8 := Nat.mod_lt _ (by decide)
  unfold Pmm.isSet bitmapTest
  constructor
  · intro h
    by_contra hb
    apply h
    apply BitVec.eq_of_getLsbD_eq
    intro j hj
    rw [BitVec.getLsbD_and, getLsbD_bit hj h8]
    by_cases e : j = page % 8
    · subst e
      simpa using hb
    · simp [e]
  · intro h e
    have := congrArg (fun b => b.getLsbD (page % 8)) e
    simp only [BitVec.getLsbD_and, getLsbD_bit h8 h8, h] at this
    simp at this

/-- A page is one bit of one byte. -/
theorem page_eq_iff (q r : Nat) : r = q ↔ r / 8 = q / 8 ∧ r % 8 = q % 8 := by omega

theorem isSet_bitmapSet (p : Pmm) (q r : Nat) : (bitmapSet p q).isSet r ↔ r = q ∨ p.isSet r := by
  rw [Pmm.isSet_iff, Pmm.isSet_iff, page_eq_iff q r]
  by_cases h : r / 8 = q / 8
  · simp only [bitmapSet, h, Function.update_self, BitVec.getLsbD_or]
    rw [getLsbD_bit (Nat.mod_lt _ (by decide)) (Nat.mod_lt _ (by decide))]
    simp [or_comm]
  · simp [bitmapSet, h]

theorem isSet_bitmapClear (p : Pmm) (q r : Nat) :
    (bitmapClear p q).isSet r ↔ r ≠ q ∧ p.isSet r := by
  have h8 : r % 8 < 8 := Nat.mod_lt _ (by decide)
  rw [Pmm.isSet_iff, Pmm.isSet_iff, ne_eq, page_eq_iff q r]
  by_cases h : r / 8 = q / 8
  · simp only [bitmapClear, h, Function.update_self, BitVec.getLsbD_and, BitVec.getLsbD_not]
    rw [getLsbD_bit h8 (Nat.mod_lt _ (by decide))]
    simp [h8, and_comm]
  · simp [bitmapClear, h]

/-- A clear bit set and cleared again. -/
theorem bitmapClear_bitmapSet {p : Pmm} {q : Nat} (h : ¬ p.isSet q) :
    bitmapClear (bitmapSet p q) q = p := by
  have h8 : q % 8 < 8 := Nat.mod_lt _ (by decide)
  have hbyte : (p.bitmap (q / 8) ||| 1#8 <<< (q % 8)) &&& ~~~(1#8 <<< (q % 8)) =
      p.bitmap (q / 8) := by
    apply BitVec.eq_of_getLsbD_eq
    intro j hj
    rw [BitVec.getLsbD_and, BitVec.getLsbD_or, BitVec.getLsbD_not, getLsbD_bit hj h8]
    by_cases e : j = q % 8
    · subst e
      rw [Pmm.isSet_iff] at h
      simpa using h
    · simp [e, hj]
  unfold bitmapClear bitmapSet
  simp only [Function.update_self, Function.update_idem, hbyte, Function.update_eq_self]

/-- The address is in the bitmap. -/
def InBitmap (p : Pmm) (x : Nat) : Prop := p.bitmapBase ≤ x ∧ x < p.bitmapBase + p.bitmapBytes

/-- The bitmap's geometry is untouched. -/
structure SameGeometry (p p' : Pmm) : Prop where
  maxPage : p'.maxPage = p.maxPage
  base : p'.bitmapBase = p.bitmapBase
  bytes : p'.bitmapBytes = p.bitmapBytes

theorem SameGeometry.refl (p : Pmm) : SameGeometry p p := ⟨rfl, rfl, rfl⟩

theorem SameGeometry.trans {p p' p'' : Pmm} (h : SameGeometry p p') (h' : SameGeometry p' p'') :
    SameGeometry p p'' :=
  ⟨h'.maxPage.trans h.maxPage, h'.base.trans h.base, h'.bytes.trans h.bytes⟩

/-! ## 2. Reserving -/

/-- `bitmap_set(page); if (pmm_free_pages > 0) pmm_free_pages--;` -/
def takePage (p : Pmm) (page : Nat) : Pmm :=
  { bitmapSet p page with freePages := if p.freePages > 0 then p.freePages - 1 else p.freePages }

theorem takePage_isSet (p : Pmm) (q r : Nat) : (takePage p q).isSet r ↔ r = q ∨ p.isSet r :=
  isSet_bitmapSet p q r

theorem takePage_geometry (p : Pmm) (q : Nat) : SameGeometry p (takePage p q) := ⟨rfl, rfl, rfl⟩

/-- `reserve_page` -/
def reservePage (p : Pmm) (page : Nat) : Pmm :=
  if page ≥ p.maxPage then p
  else if bitmapTest p page = 0 then takePage p page
  else p

/-- `reserve_segment` for `[startAddr, endAddr)` -/
def reserveSegment (p : Pmm) (startAddr endAddr : Nat) : Pmm :=
  let startPage := startAddr >>> 12
  let endPage := ((endAddr + 4096 - 1) % 2 ^ 32) >>> 12
  (List.range' startPage (endPage - startPage)).foldl reservePage p

theorem reservePage_geometry (p : Pmm) (page : Nat) : SameGeometry p (reservePage p page) := by
  unfold reservePage
  split
  · exact .refl p
  · split
    · exact takePage_geometry p page
    · exact .refl p

theorem reservePage_isSet (p : Pmm) (q r : Nat) :
    (reservePage p q).isSet r ↔ p.isSet r ∨ (r = q ∧ q < p.maxPage) := by
  unfold reservePage
  split
  · rename_i h
    have hn : ¬ (r = q ∧ q < p.maxPage) := by omega
    simp [hn]
  · rename_i h
    have hlt : q < p.maxPage := by omega
    split
    · rw [takePage_isSet, or_comm]
      simp [hlt]
    · rename_i hs
      refine ⟨Or.inl, fun h' => ?_⟩
      rcases h' with h' | ⟨rfl, _⟩
      · exact h'
      · exact hs

/-- A run of `reserve_page` over a list of pages. -/
theorem foldl_reservePage (l : List Nat) (p : Pmm) :
    SameGeometry p (l.foldl reservePage p) ∧
    ∀ r, (l.foldl reservePage p).isSet r ↔ p.isSet r ∨ (r ∈ l ∧ r < p.maxPage) := by
  induction l generalizing p with
  | nil => exact ⟨.refl p, by simp⟩
  | cons q l ih =>
    have hq := reservePage_geometry p q
    obtain ⟨hg, hs⟩ := ih (reservePage p q)
    refine ⟨hq.trans hg, fun r => ?_⟩
    rw [List.foldl_cons, hs, reservePage_isSet, hq.maxPage, List.mem_cons]
    constructor
    · intro h
      rcases h with (h | ⟨rfl, h⟩) | ⟨h, h'⟩
      · exact Or.inl h
      · exact Or.inr ⟨Or.inl rfl, h⟩
      · exact Or.inr ⟨Or.inr h, h'⟩
    · intro h
      rcases h with h | ⟨rfl | h, h'⟩
      · exact Or.inl (Or.inl h)
      · exact Or.inl (Or.inr ⟨rfl, h'⟩)
      · exact Or.inr ⟨h, h'⟩

theorem reserveSegment_geometry (p : Pmm) (a b : Nat) : SameGeometry p (reserveSegment p a b) :=
  (foldl_reservePage _ p).1

/-- **`reserve_segment` sets the bit of every page that meets the segment** (when rounding its
    end up does not wrap), **and no other**. -/
theorem reserveSegment_isSet (p : Pmm) {a b : Nat} (hb : b + 4095 < 2 ^ 32) (r : Nat) :
    (reserveSegment p a b).isSet r ↔
      p.isSet r ∨ (a / 4096 ≤ r ∧ r * 4096 < b ∧ r < p.maxPage) := by
  unfold reserveSegment
  simp only [(foldl_reservePage _ p).2, List.mem_range'_1, Nat.shiftRight_eq_div_pow]
  rw [Nat.mod_eq_of_lt (show b + 4096 - 1 < 2 ^ 32 by omega)]
  have e : (a / 2 ^ 12 ≤ r ∧ r < a / 2 ^ 12 + ((b + 4096 - 1) / 2 ^ 12 - a / 2 ^ 12)) ↔
      (a / 4096 ≤ r ∧ r * 4096 < b) := by omega
  rw [e, and_assoc]

/-! ## 3. Allocation -/

/-- `pmm_alloc_page`: the first clear bit from page 1 on. -/
def pmmAllocPage (p : Pmm) : Nat × Pmm :=
  match (List.range' 1 (p.maxPage - 1)).find? (fun i => bitmapTest p i = 0) with
  | some i => (i <<< 12 % 2 ^ 32, takePage p i)
  | none => (0, p)

/-- `pmm_free_page` -/
def pmmFreePage (p : Pmm) (addr : Nat) : Pmm :=
  let page := addr >>> 12
  if page ≠ 0 ∧ page < p.maxPage ∧ bitmapTest p page ≠ 0 then
    { bitmapClear p page with freePages := (p.freePages + 1) % 2 ^ 32 }
  else p

/-- The page `pmm_alloc_page` takes: the lowest clear one from page 1 on. -/
def FirstClear (p : Pmm) (i : Nat) : Prop :=
  1 ≤ i ∧ i < p.maxPage ∧ ¬ p.isSet i ∧ ∀ j, 1 ≤ j → j < i → p.isSet j

/-- The first clear page is below any clear page. -/
theorem FirstClear.le {p : Pmm} {i j : Nat} (h : FirstClear p i) (h1 : 1 ≤ j)
    (hj : ¬ p.isSet j) : i ≤ j := by
  by_contra hlt
  exact hj (h.2.2.2 j h1 (by omega))

/-- **What `pmm_alloc_page` can do**: find no clear bit and change nothing, or take the first
    clear page `i` and return `i * 4096` cut to 32 bits. -/
theorem pmmAllocPage_cases (p : Pmm) :
    ((∀ i, 1 ≤ i → i < p.maxPage → p.isSet i) ∧ pmmAllocPage p = (0, p)) ∨
    ∃ i, FirstClear p i ∧ pmmAllocPage p = (i * 4096 % 2 ^ 32, takePage p i) := by
  unfold pmmAllocPage
  cases h : (List.range' 1 (p.maxPage - 1)).find? (fun i => bitmapTest p i = 0) with
  | none =>
    refine Or.inl ⟨fun i h1 h2 => ?_, rfl⟩
    rw [List.find?_eq_none] at h
    have := h i (List.mem_range'_1.mpr (by omega))
    simpa [Pmm.isSet] using this
  | some i =>
    refine Or.inr ⟨i, ?_, by simp [Nat.shiftLeft_eq]⟩
    rw [List.find?_range'_eq_some] at h
    obtain ⟨hc, hmem, hbefore⟩ := h
    rw [List.mem_range'_1] at hmem
    refine ⟨hmem.1, by omega, by simpa [Pmm.isSet] using hc, fun j h1 h2 => ?_⟩
    have := hbefore j h1 h2
    simpa [Pmm.isSet] using this

theorem pmmAllocPage_geometry (p : Pmm) : SameGeometry p (pmmAllocPage p).2 := by
  rcases pmmAllocPage_cases p with ⟨_, h⟩ | ⟨i, _, h⟩
  · rw [h]
    exact .refl p
  · rw [h]
    exact takePage_geometry p i

theorem pmmFreePage_geometry (p : Pmm) (a : Nat) : SameGeometry p (pmmFreePage p a) := by
  unfold pmmFreePage
  simp only
  split <;> exact ⟨rfl, rfl, rfl⟩

/-- `pmm_free_page` clears the page's bit, and only for a page other than 0 inside the bitmap. -/
theorem pmmFreePage_isSet (p : Pmm) (a r : Nat) :
    (pmmFreePage p a).isSet r ↔
      p.isSet r ∧ ¬ (r = a / 4096 ∧ r ≠ 0 ∧ r < p.maxPage) := by
  unfold pmmFreePage
  simp only [Nat.shiftRight_eq_div_pow]
  split
  · rename_i h
    have hr : ({ bitmapClear p (a / 2 ^ 12) with freePages := (p.freePages + 1) % 2 ^ 32 } :
        Pmm).isSet r ↔ (bitmapClear p (a / 2 ^ 12)).isSet r := Iff.rfl
    rw [hr, isSet_bitmapClear]
    constructor
    · intro h'
      exact ⟨h'.2, fun h3 => h'.1 h3.1⟩
    · intro h'
      exact ⟨fun h3 => h'.2 ⟨h3, by rw [h3]; exact h.1, by rw [h3]; exact h.2.1⟩, h'.1⟩
  · rename_i h
    refine ⟨fun h1 => ⟨h1, fun h2 => ?_⟩, And.left⟩
    obtain ⟨rfl, h2, h3⟩ := h2
    exact h ⟨h2, h3, h1⟩

theorem bitmapClear_comm (p : Pmm) (q r : Nat) :
    bitmapClear (bitmapClear p q) r = bitmapClear (bitmapClear p r) q := by
  unfold bitmapClear
  congr 1
  dsimp only
  by_cases h : q / 8 = r / 8
  · rw [h, Function.update_self, Function.update_self, Function.update_idem, Function.update_idem,
      BitVec.and_assoc, BitVec.and_assoc, BitVec.and_comm (~~~(1#8 <<< (q % 8)))]
  · rw [Function.update_of_ne (Ne.symm h), Function.update_of_ne h, Function.update_comm h]

/-- Pages are given back in any order. -/
theorem pmmFreePage_comm (p : Pmm) (a b : Nat) :
    pmmFreePage (pmmFreePage p a) b = pmmFreePage (pmmFreePage p b) a := by
  unfold pmmFreePage
  generalize a >>> 12 = i, b >>> 12 = j
  dsimp only
  by_cases hij : i = j
  · rw [hij]
  have hset : ∀ q r : Nat, q ≠ r → ∀ n, bitmapTest { bitmapClear p q with freePages := n } r ≠ 0 ↔
      bitmapTest p r ≠ 0 := fun q r h n => by
    have := isSet_bitmapClear p q r
    exact this.trans (and_iff_right h.symm)
  by_cases hi : i ≠ 0 ∧ i < p.maxPage ∧ bitmapTest p i ≠ 0
  · by_cases hj : j ≠ 0 ∧ j < p.maxPage ∧ bitmapTest p j ≠ 0
    · rw [if_pos hi, if_pos hj, if_pos ⟨hj.1, hj.2.1, (hset i j hij _).mpr hj.2.2⟩,
        if_pos ⟨hi.1, hi.2.1, (hset j i (Ne.symm hij) _).mpr hi.2.2⟩]
      have := congrArg Pmm.bitmap (bitmapClear_comm p i j)
      unfold bitmapClear at this ⊢
      dsimp only at this ⊢
      rw [this]
    · rw [if_pos hi, if_neg hj, if_pos hi, if_neg fun h => hj ⟨h.1, h.2.1, (hset i j hij _).mp h.2.2⟩]
  · by_cases hj : j ≠ 0 ∧ j < p.maxPage ∧ bitmapTest p j ≠ 0
    · rw [if_neg hi, if_pos hj, if_neg fun h => hi ⟨h.1, h.2.1, (hset j i (Ne.symm hij) _).mp h.2.2⟩]
    · rw [if_neg hi, if_neg hj, if_neg hi]

/-- Two lists of pages too. -/
theorem pmmFreePage_lists (p : Pmm) (l l' : List Nat) :
    l.foldl pmmFreePage (l'.foldl pmmFreePage p) = l'.foldl pmmFreePage (l.foldl pmmFreePage p) := by
  rw [← List.foldl_append, ← List.foldl_append]
  exact List.perm_append_comm.foldl_eq' (fun a _ b _ q => pmmFreePage_comm q a b) p

end Emyx
