/-
  File:      Emyx/Vmm/Walk.lean
  Subject:   TWO-LEVEL PAGE TABLES IN MEMORY, as the processor walks them (vmm.c's layout).

  A directory is a page of 1024 words; entry `i` names a page table when its low bit is set. A
  table is a page of 1024 words; entry `j` names a frame when its low bit is set.

  * `tableOf m d i`, `pteWord m d i j` -- the table behind entry `i` of the directory `d`, and the
    word at `j` in it (`0` when there is no table);
  * `walk m d v` -- the physical address behind the virtual address `v`; `userPhys m d v` -- the
    same for user code, which the USER and WRITABLE flags of both entries must let through;
  * `dirWord_congr`, `pteWord_congr`, `walk_congr` -- which pages a walk reads.
-/
import Emyx.Machine

namespace Emyx

open Lib

/-- `VMM_PDE_INDEX` -/
def pdeIndex (vaddr : Nat) : Nat := vaddr >>> 22 &&& 0x3ff

/-- `VMM_PTE_INDEX` -/
def pteIndex (vaddr : Nat) : Nat := vaddr >>> 12 &&& 0x3ff

theorem pdeIndex_eq (v : Nat) : pdeIndex v = v / 4194304 % 1024 := by
  unfold pdeIndex
  rw [show 0x3ff = 2 ^ 10 - 1 from rfl, Nat.and_two_pow_sub_one_eq_mod, Nat.shiftRight_eq_div_pow]

theorem pteIndex_eq (v : Nat) : pteIndex v = v / 4096 % 1024 := by
  unfold pteIndex
  rw [show 0x3ff = 2 ^ 10 - 1 from rfl, Nat.and_two_pow_sub_one_eq_mod, Nat.shiftRight_eq_div_pow]

theorem pdeIndex_lt (v : Nat) : pdeIndex v < 1024 := by
  rw [pdeIndex_eq]
  exact Nat.mod_lt _ (by decide)

theorem pteIndex_lt (v : Nat) : pteIndex v < 1024 := by
  rw [pteIndex_eq]
  exact Nat.mod_lt _ (by decide)

theorem indices_of_page {v w : Nat} (h : v / 4096 = w / 4096) :
    pdeIndex v = pdeIndex w ∧ pteIndex v = pteIndex w := by
  rw [pdeIndex_eq, pdeIndex_eq, pteIndex_eq, pteIndex_eq]
  omega

/-- The address lies in the page at `f`. -/
def InPage (f x : Nat) : Prop := f ≤ x ∧ x < f + 4096

/-! ## 1. Entries -/

/-- `entry & 0xfffff000` -/
def entryFrame (w : Nat) : Nat := w &&& 0xfffff000

theorem entryFrame_eq {w : Nat} (h : w < 2 ^ 32) : entryFrame w = w / 4096 * 4096 := by
  have := @land_highMask 32 12 w (by decide) h
  rw [show (2 : Nat) ^ 32 - 2 ^ 12 = 0xfffff000 by decide, show (2 : Nat) ^ 12 = 4096 from rfl]
    at this
  rw [entryFrame, this]

/-- `entry & VMM_PAGE_PRESENT` -/
theorem land_one_eq (w : Nat) : w &&& 1 = w % 2 := Nat.and_one_is_mod w

/-- A frame joined with flags below the page size: `frame | (flags & 0xfff)`. -/
theorem frame_or_flags {f b : Nat} (hf : f % 4096 = 0) (hb : b < 4096) : f ||| b = f + b :=
  lor_low (k := 12) (Nat.dvd_of_mod_eq_zero hf) hb

/-- More flags on an entry: same frame, and present if it was. -/
theorem entry_or_flags {w k : Nat} (hw : w < 2 ^ 32) (hk : k < 4096) :
    w ||| k < 2 ^ 32 ∧ entryFrame (w ||| k) = entryFrame w ∧ (w % 2 = 1 → (w ||| k) % 2 = 1) := by
  have hlt : w ||| k < 2 ^ 32 := Nat.or_lt_two_pow hw (by omega)
  refine ⟨hlt, ?_, fun h => Nat.or_mod_two_eq_one.mpr (Or.inl h)⟩
  rw [entryFrame_eq hlt, entryFrame_eq hw]
  have hd : (w ||| k) / 2 ^ 12 = w / 2 ^ 12 ||| k / 2 ^ 12 := Nat.or_div_two_pow
  rw [Nat.div_eq_of_lt (show k < 2 ^ 12 from hk), Nat.or_zero] at hd
  rw [show (2 : Nat) ^ 12 = 4096 from rfl] at hd
  rw [hd]

/-! ## 2. Directories and tables -/

/-- Entry `i` of the directory at `d`. -/
def dirWord (m : Mem) (d i : Nat) : Nat := rd32 m (d + 4 * i)

/-- The page table behind entry `i`. -/
def tableOf (m : Mem) (d i : Nat) : Option Nat :=
  if dirWord m d i % 2 = 1 then some (entryFrame (dirWord m d i)) else none

/-- The word at `j` of the table behind entry `i`. -/
def pteWord (m : Mem) (d i j : Nat) : Nat :=
  match tableOf m d i with
  | some t => rd32 m (t + 4 * j)
  | none => 0

/-- The physical address the processor finds for `v` in the directory `d`. -/
def walk (m : Mem) (d v : Nat) : Option Nat :=
  if pteWord m d (pdeIndex v) (pteIndex v) % 2 = 1 then
    some (entryFrame (pteWord m d (pdeIndex v) (pteIndex v)) + v % 4096)
  else none

/-- The entry lets user code read, and write if `write`. -/
def Grants (w : Nat) (write : Bool) : Prop :=
  w % 2 = 1 ∧ w / 4 % 2 = 1 ∧ (write = true → w / 2 % 2 = 1)

instance (w : Nat) (write : Bool) : Decidable (Grants w write) :=
  inferInstanceAs (Decidable (_ ∧ _ ∧ (_ → _)))

/-- The physical address behind `v` for user code running on the directory `d`. -/
def userPhys (m : Mem) (d v : Nat) (write : Bool) : Option Nat :=
  if Grants (dirWord m d (pdeIndex v)) write ∧
      Grants (pteWord m d (pdeIndex v) (pteIndex v)) write then
    some (entryFrame (pteWord m d (pdeIndex v) (pteIndex v)) + v % 4096)
  else none

theorem dirWord_lt (m : Mem) (d i : Nat) : dirWord m d i < 2 ^ 32 := rd32_lt _ _

theorem tableOf_of_word {m : Mem} {d i w : Nat} (h : dirWord m d i = w) (hp : w % 2 = 1) :
    tableOf m d i = some (entryFrame w) := by
  unfold tableOf
  rw [h, if_pos hp]

theorem tableOf_some {m : Mem} {d i t : Nat} (h : tableOf m d i = some t) :
    dirWord m d i % 2 = 1 ∧ entryFrame (dirWord m d i) = t := by
  unfold tableOf at h
  split at h
  · exact ⟨‹_›, Option.some.inj h⟩
  · cases h

theorem tableOf_none {m : Mem} {d i : Nat} (h : tableOf m d i = none) :
    ¬ dirWord m d i % 2 = 1 := fun hp => by
  rw [tableOf_of_word rfl hp] at h
  cases h

theorem tableOf_aligned {m : Mem} {d i t : Nat} (h : tableOf m d i = some t) : t % 4096 = 0 := by
  rw [← (tableOf_some h).2, entryFrame_eq (dirWord_lt m d i)]
  omega

/-- An entry for the table at `f` with the present flag. -/
theorem tableOf_present {m : Mem} {d i f : Nat} (h : dirWord m d i = f + 1) (hf : f % 4096 = 0)
    (hlt : f + 1 < 2 ^ 32) : tableOf m d i = some f := by
  rw [tableOf_of_word h (by omega), entryFrame_eq hlt]
  congr 1
  omega

theorem pteWord_of_table {m : Mem} {d i t : Nat} (h : tableOf m d i = some t) (j : Nat) :
    pteWord m d i j = rd32 m (t + 4 * j) := by
  unfold pteWord
  rw [h]

theorem pteWord_of_none {m : Mem} {d i : Nat} (h : tableOf m d i = none) (j : Nat) :
    pteWord m d i j = 0 := by
  unfold pteWord
  rw [h]

/-! ## 3. What a walk reads -/

/-- The memories agree on the page at `f`. -/
def SamePage (m m' : Mem) (f : Nat) : Prop := AgreeOn (fun x => f ≤ x ∧ x < f + 4096) m m'

theorem SamePage.word {m m' : Mem} {f i : Nat} (h : SamePage m m' f) (hi : i < 1024) :
    rd32 m' (f + 4 * i) = rd32 m (f + 4 * i) :=
  AgreeOn.rd32 h fun k hk => by omega

theorem SamePage.refl (m : Mem) (f : Nat) : SamePage m m f := AgreeOn.refl _ m

theorem SamePage.trans {m m' m'' : Mem} {f : Nat} (h : SamePage m m' f) (h' : SamePage m' m'' f) :
    SamePage m m'' f := AgreeOn.trans h h'

/-- A word written in the page at `g` leaves every other page alone. -/
theorem samePage_wr32 {m : Mem} {f g i v : Nat} (hf : f % 4096 = 0) (hg : g % 4096 = 0)
    (hne : f ≠ g) (hi : i < 1024) : SamePage m (wr32 m (g + 4 * i) v) f :=
  agreeOn_put fun k hk hx => by omega

/-- So does clearing it. -/
theorem samePage_memset {m : Mem} {f g : Nat} {b : Byte} (hf : f % 4096 = 0) (hg : g % 4096 = 0)
    (hne : f ≠ g) : SamePage m (memset m g b 4096) f :=
  agreeOn_put fun k hk hx => by omega

theorem dirWord_congr {m m' : Mem} {d i : Nat} (h : SamePage m m' d) (hi : i < 1024) :
    dirWord m' d i = dirWord m d i := h.word hi

theorem tableOf_congr {m m' : Mem} {d i : Nat} (h : dirWord m' d i = dirWord m d i) :
    tableOf m' d i = tableOf m d i := by
  unfold tableOf
  rw [h]

theorem pteWord_congr {m m' : Mem} {d i j : Nat} (hd : tableOf m' d i = tableOf m d i)
    (ht : ∀ t, tableOf m d i = some t → SamePage m m' t) (hj : j < 1024) :
    pteWord m' d i j = pteWord m d i j := by
  unfold pteWord
  rw [hd]
  cases h : tableOf m d i with
  | none => rfl
  | some t => exact (ht t h).word hj

theorem walk_congr {m m' : Mem} {d d' v : Nat}
    (h : pteWord m' d' (pdeIndex v) (pteIndex v) = pteWord m d (pdeIndex v) (pteIndex v)) :
    walk m' d' v = walk m d v := by
  unfold walk
  rw [h]

end Emyx
