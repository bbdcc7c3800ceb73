/-
  File:      Emyx/Lib/Ring.lean
  Subject:   RING BUFFERS: `n` slots, a read index and a write index, equal when the ring is empty.

  * `ringCount n r w` -- how many slots are in use; one always stays empty;
  * `ringList n buf r w` -- what is in them, oldest first;
  * `ringList_push`, `ringList_drop` -- a write at the write index adds at the end, a step of the
    read index takes from the front.
-/
import Mathlib.Logic.Function.Basic
import Mathlib.Data.List.Range

namespace Emyx.Lib

variable {α : Type*} {n r w : Nat}

def ringCount (n r w : Nat) : Nat := (w + n - r) % n

def ringList (n : Nat) (buf : Nat → α) (r w : Nat) : List α :=
  (List.range (ringCount n r w)).map fun k => buf ((r + k) % n)

/-- An index that runs over the end once. -/
theorem mod_wrap {x : Nat} (h : x < 2 * n) : x % n = if x < n then x else x - n := by
  split
  · exact Nat.mod_eq_of_lt ‹_›
  · rw [Nat.mod_eq_sub_mod (by omega), Nat.mod_eq_of_lt (by omega)]

theorem ringCount_eq (hr : r < n) (hw : w < n) :
    ringCount n r w = if r ≤ w then w - r else w + n - r := by
  unfold ringCount
  rw [mod_wrap (by omega)]
  split_ifs <;> omega

theorem ringCount_lt (hw : w < n) : ringCount n r w < n :=
  Nat.mod_lt _ (by omega)

theorem ringCount_eq_zero (hr : r < n) (hw : w < n) : ringCount n r w = 0 ↔ r = w := by
  rw [ringCount_eq hr hw]
  split_ifs <;> omega

theorem ringCount_full (hr : r < n) (hw : w < n) (h : (w + 1) % n = r) : ringCount n r w = n - 1 := by
  rw [mod_wrap (by omega)] at h
  rw [ringCount_eq hr hw]
  split_ifs at h ⊢ <;> omega

theorem ringCount_push (hr : r < n) (hw : w < n) (h : (w + 1) % n ≠ r) :
    ringCount n r ((w + 1) % n) = ringCount n r w + 1 := by
  rw [ringCount_eq hr hw, ringCount_eq hr (Nat.mod_lt _ (by omega))]
  rw [mod_wrap (by omega)] at h ⊢
  split_ifs at h ⊢ <;> omega

theorem ringCount_drop (hr : r < n) (hw : w < n) {k : Nat} (hk : k ≤ ringCount n r w) :
    ringCount n ((r + k) % n) w = ringCount n r w - k := by
  have hlt := ringCount_lt (r := r) hw
  rw [ringCount_eq hr hw] at hk hlt ⊢
  rw [ringCount_eq (Nat.mod_lt _ (by omega)) hw, mod_wrap (by omega)]
  split_ifs at hk hlt ⊢ <;> omega

/-- The slots in use end at the write index. -/
theorem ring_end (hr : r < n) (hw : w < n) : (r + ringCount n r w) % n = w := by
  have hlt := ringCount_lt (r := r) hw
  rw [mod_wrap (by omega), ringCount_eq hr hw]
  split_ifs <;> omega

/-- No slot in use is the one at the write index. -/
theorem ring_slot_ne (hr : r < n) (hw : w < n) {k : Nat} (hk : k < ringCount n r w) :
    (r + k) % n ≠ w := by
  have hlt := ringCount_lt (r := r) hw
  rw [mod_wrap (by omega)]
  rw [ringCount_eq hr hw] at hk
  split_ifs at hk ⊢ <;> omega

variable (buf : Nat → α)

@[simp] theorem length_ringList : (ringList n buf r w).length = ringCount n r w := by
  simp [ringList]

theorem ringList_eq_nil (hr : r < n) (hw : w < n) : ringList n buf r w = [] ↔ r = w := by
  rw [← List.length_eq_zero_iff, length_ringList, ringCount_eq_zero hr hw]

theorem ringList_push (hr : r < n) (hw : w < n) (h : (w + 1) % n ≠ r) (c : α) :
    ringList n (Function.update buf w c) r ((w + 1) % n) = ringList n buf r w ++ [c] := by
  unfold ringList
  rw [ringCount_push hr hw h, List.range_succ, List.map_append]
  congr 1
  · refine List.map_congr_left fun k hk => ?_
    rw [Function.update_of_ne (ring_slot_ne hr hw (List.mem_range.mp hk))]
  · simp [ring_end hr hw]

theorem ringList_drop (hr : r < n) (hw : w < n) {k : Nat} (hk : k ≤ ringCount n r w) :
    ringList n buf ((r + k) % n) w = (ringList n buf r w).drop k := by
  refine List.ext_getElem (by simp [ringCount_drop hr hw hk]) fun i _ _ => ?_
  simp [ringList, Nat.add_assoc]

theorem ringList_head (hr : r < n) (h : ringList n buf r w ≠ []) :
    (ringList n buf r w).head? = some (buf r) := by
  have hpos : 0 < ringCount n r w := by
    rw [← length_ringList buf]
    exact List.length_pos_iff.mpr h
  obtain ⟨k, hk⟩ := Nat.exists_eq_succ_of_ne_zero (Nat.pos_iff_ne_zero.mp hpos)
  simp [ringList, hk, List.range_succ_eq_map, Nat.mod_eq_of_lt hr]

end Emyx.Lib
