/-
  File:      Emyx/Lib/Bits.lean
  Subject:   MASKS AND ALIGNMENT OVER `Nat`. Nothing here is about one program.

  C code rounds with masks (`x & ~(size - 1)`), splits a word into a high part and low flags
  (`w & 0xfffff000`, `w & 0x1`) and joins the two again with `|`. Every such step is read here
  once as division, remainder or sum, so that the developments above argue with `omega`:

  * `land_highMask` -- `x & (2^n - 2^k)` is `x / 2^k * 2^k`;
  * `lor_low` -- an aligned word or-ed with a small one is their sum.
-/
import Mathlib.Data.Nat.Bitwise
import Mathlib.Tactic

namespace Emyx.Lib

/-! ## 1. Masks -/

/-- The mask `2^n - 2^k` keeps exactly the bits `k, …, n - 1`. -/
theorem testBit_highMask {n k : Nat} (hk : k ≤ n) (i : Nat) :
    (2 ^ n - 2 ^ k).testBit i = (decide (k ≤ i) && decide (i < n)) := by
  have e : 2 ^ n - 2 ^ k = (2 ^ (n - k) - 1) <<< k := by
    rw [Nat.shiftLeft_eq, Nat.sub_mul, ← Nat.pow_add, Nat.sub_add_cancel hk, Nat.one_mul]
  rw [e, Nat.testBit_shiftLeft, Nat.testBit_two_pow_sub_one]
  by_cases h : k ≤ i
  · have h' : i - k < n - k ↔ i < n := by omega
    simp [h, h']
  · simp [h]

/-- **Masking off the low `k` bits of an `n`-bit word rounds it down to a multiple of `2^k`.** -/
theorem land_highMask {n k x : Nat} (hk : k ≤ n) (hx : x < 2 ^ n) :
    x &&& (2 ^ n - 2 ^ k) = x / 2 ^ k * 2 ^ k := by
  apply Nat.eq_of_testBit_eq
  intro i
  rw [Nat.testBit_and, testBit_highMask hk, ← Nat.shiftRight_eq_div_pow, ← Nat.shiftLeft_eq,
    Nat.testBit_shiftLeft, Nat.testBit_shiftRight]
  by_cases h : k ≤ i
  · have e : k + (i - k) = i := by omega
    rw [e]
    by_cases hi : i < n
    · simp [h, hi]
    · have hz : x.testBit i = false :=
        Nat.testBit_lt_two_pow (lt_of_lt_of_le hx (Nat.pow_le_pow_right (by decide) (by omega)))
      simp [hz]
  · simp [h]

/-- An aligned word or-ed with a word below the alignment is their sum. -/
theorem lor_low {k a b : Nat} (ha : 2 ^ k ∣ a) (hb : b < 2 ^ k) : a ||| b = a + b := by
  obtain ⟨c, rfl⟩ := ha
  exact (Nat.two_pow_add_eq_or_of_lt hb c).symm

/-! ## 2. Rounding up -/

/-- `align_up` of the C sources, on `n`-bit words: `(a + s - 1) & ~(s - 1)` for `s = 2^k`. -/
theorem alignUp_eq {n k a : Nat} (hk : k ≤ n) (ha : a + 2 ^ k - 1 < 2 ^ n) :
    (a + 2 ^ k - 1) % 2 ^ n &&& (2 ^ n - 2 ^ k) = (a + 2 ^ k - 1) / 2 ^ k * 2 ^ k := by
  rw [Nat.mod_eq_of_lt ha, land_highMask hk ha]

end Emyx.Lib
