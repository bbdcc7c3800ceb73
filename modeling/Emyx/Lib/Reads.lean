/-
  File:      Emyx/Lib/Reads.lean
  Subject:   A READER SHOWS A LIST: what a fallible reader returns from an offset on. Nothing here is
             about one program.

  * `Reads rd off xs` -- reading at `off`, `off + 1`, … succeeds and gives `xs`;
  * `reads_append` -- a format is read piece by piece;
  * `le32` -- the bytes of a little-endian word.
-/
import Emyx.Lib.Memory

namespace Emyx.Lib

variable {α ε : Type} {rd : Nat → Except ε α} {off : Nat} {x : α} {xs ys : List α}

def Reads (rd : Nat → Except ε α) (off : Nat) (xs : List α) : Prop :=
  ∀ i x, xs[i]? = some x → rd (off + i) = .ok x

@[simp] theorem reads_nil : Reads rd off ([] : List α) := by simp [Reads]

@[simp] theorem reads_cons : Reads rd off (x :: xs) ↔ rd off = .ok x ∧ Reads rd (off + 1) xs := by
  constructor
  · intro h
    refine ⟨h 0 x rfl, fun i y hy => ?_⟩
    have := h (i + 1) y (by simpa using hy)
    rwa [show off + (i + 1) = off + 1 + i by omega] at this
  · rintro ⟨h0, h⟩ i y hy
    cases i with
    | zero =>
      cases hy
      exact h0
    | succ i =>
      have := h i y (by simpa using hy)
      rwa [show off + 1 + i = off + (i + 1) by omega] at this

@[simp] theorem reads_append :
    Reads rd off (xs ++ ys) ↔ Reads rd off xs ∧ Reads rd (off + xs.length) ys := by
  induction xs generalizing off with
  | nil => simp
  | cons x xs ih => simp [ih, and_assoc, Nat.add_assoc, Nat.add_comm 1]

/-- The bytes of a word, least significant first. -/
def le32 (v : Nat) : List Byte := [byteOf v 0, byteOf v 1, byteOf v 2, byteOf v 3]

@[simp] theorem length_le32 (v : Nat) : (le32 v).length = 4 := rfl

/-- The bytes of a word spell it. -/
theorem le32_value {v : Nat} (h : v < 2 ^ 32) :
    (byteOf v 0).toNat + 256 * (byteOf v 1).toNat + 65536 * (byteOf v 2).toNat +
      16777216 * (byteOf v 3).toNat = v := by
  simp only [byteOf, BitVec.toNat_ofNat]
  omega

end Emyx.Lib
