/-
  File:      Emyx/Lib/Memory.lean
  Subject:   BYTE-ADDRESSED MEMORY WITH LITTLE-ENDIAN WORDS. Nothing here is about one program.

  A memory is a total map from addresses to bytes. Every bulk store is one operation `put` (a
  range of addresses gets the values of a function of the offset); a byte store, a word store, a
  `memset` and a table fill are its instances, so there is one frame lemma (`put_outside`) and
  one read lemma (`put_inside`).

  * `rd32`, `wr32` -- the little-endian word at an address; `rd32_wr32`, `rd32_put_outside`;
  * `fillWords` -- `for (j < n) p[j] = f(j)`; `fillWords_succ` is the loop's last turn;
  * `memcpy` -- byte by byte, low address first, as a C loop does it (an overlap is visible);
  * `AgreeOn` -- two memories hold the same bytes on a set of addresses.
-/
import Emyx.Lib.Bits

namespace Emyx.Lib

abbrev Byte := BitVec 8

abbrev Mem := Nat → Byte

/-! ## 1. Ranges -/

/-- Store `f i` at `a + i` for every `i < n`. -/
def put (m : Mem) (a n : Nat) (f : Nat → Byte) : Mem :=
  fun x => if a ≤ x ∧ x < a + n then f (x - a) else m x

theorem put_outside {m : Mem} {a n : Nat} {f : Nat → Byte} {x : Nat} (h : x < a ∨ a + n ≤ x) :
    put m a n f x = m x := by
  unfold put
  rw [if_neg (by omega)]

theorem put_inside {m : Mem} {a n : Nat} {f : Nat → Byte} {i : Nat} (h : i < n) :
    put m a n f (a + i) = f i := by
  unfold put
  rw [if_pos (by omega)]
  congr 1
  omega

/-- One byte. -/
def wr8 (m : Mem) (a : Nat) (b : Byte) : Mem := put m a 1 fun _ => b

/-- `memset`. -/
def memset (m : Mem) (a : Nat) (b : Byte) (n : Nat) : Mem := put m a n fun _ => b

theorem memset_outside {m : Mem} {a n x : Nat} {b : Byte} (h : x < a ∨ a + n ≤ x) :
    memset m a b n x = m x := put_outside h

/-- `memcpy`: byte `i` is read after the bytes below it have been written. -/
def memcpy (m : Mem) (dst src : Nat) : Nat → Mem
  | 0 => m
  | n + 1 => wr8 (memcpy m dst src n) (dst + n) (memcpy m dst src n (src + n))

theorem memcpy_outside {m : Mem} {dst src n x : Nat} (h : x < dst ∨ dst + n ≤ x) :
    memcpy m dst src n x = m x := by
  induction n with
  | zero => rfl
  | succ n ih =>
    unfold memcpy wr8
    rw [put_outside (by omega)]
    exact ih (by omega)

/-! ## 2. Words -/

/-- Byte `i` of a word, counted from the least significant one. -/
def byteOf (v i : Nat) : Byte := BitVec.ofNat 8 (v / 256 ^ i)

/-- The little-endian 32-bit word at `a`. -/
def rd32 (m : Mem) (a : Nat) : Nat :=
  (m a).toNat + 256 * (m (a + 1)).toNat + 65536 * (m (a + 2)).toNat + 16777216 * (m (a + 3)).toNat

/-- The little-endian 64-bit word at `a`. -/
def rd64 (m : Mem) (a : Nat) : Nat := rd32 m a + 2 ^ 32 * rd32 m (a + 4)

/-- Store a 32-bit word at `a`. -/
def wr32 (m : Mem) (a v : Nat) : Mem := put m a 4 (byteOf v)

theorem rd32_lt (m : Mem) (a : Nat) : rd32 m a < 2 ^ 32 := by
  have h0 := (m a).isLt
  have h1 := (m (a + 1)).isLt
  have h2 := (m (a + 2)).isLt
  have h3 := (m (a + 3)).isLt
  unfold rd32
  omega

theorem rd32_congr {m m' : Mem} {a : Nat} (h : ∀ i, i < 4 → m (a + i) = m' (a + i)) :
    rd32 m a = rd32 m' a := by
  unfold rd32
  rw [show m a = m' a from h 0 (by decide), h 1 (by decide), h 2 (by decide), h 3 (by decide)]

theorem rd32_put_outside {m : Mem} {a n b : Nat} {f : Nat → Byte} (h : b + 4 ≤ a ∨ a + n ≤ b) :
    rd32 (put m a n f) b = rd32 m b :=
  rd32_congr fun _ _ => put_outside (by omega)

/-- The four bytes of a word spell it. -/
theorem rd32_byteOf {m : Mem} {a v : Nat} (h : ∀ i, i < 4 → m (a + i) = byteOf v i) :
    rd32 m a = v % 2 ^ 32 := by
  unfold rd32
  rw [show m a = byteOf v 0 from h 0 (by decide), h 1 (by decide), h 2 (by decide),
    h 3 (by decide)]
  simp only [byteOf, BitVec.toNat_ofNat]
  omega

theorem rd32_wr32 (m : Mem) (a v : Nat) : rd32 (wr32 m a v) a = v % 2 ^ 32 :=
  rd32_byteOf fun _ hi => put_inside hi

theorem rd32_wr32_outside {m : Mem} {a b v : Nat} (h : b + 4 ≤ a ∨ a + 4 ≤ b) :
    rd32 (wr32 m a v) b = rd32 m b := rd32_put_outside h

theorem rd32_wr8_outside {m : Mem} {a b : Nat} {c : Byte} (h : b + 4 ≤ a ∨ a + 1 ≤ b) :
    rd32 (wr8 m a c) b = rd32 m b := rd32_put_outside h

theorem wr32_outside {m : Mem} {a v x : Nat} (h : x < a ∨ a + 4 ≤ x) : wr32 m a v x = m x :=
  put_outside h

theorem wr8_outside {m : Mem} {a x : Nat} {c : Byte} (h : x < a ∨ a + 1 ≤ x) :
    wr8 m a c x = m x := put_outside h

theorem wr8_self (m : Mem) (a : Nat) (c : Byte) : wr8 m a c a = c :=
  put_inside (i := 0) (by decide)

/-- From a source that is apart from the destination, the bytes are those of before. -/
theorem memcpy_inside {m : Mem} {dst src n i : Nat} (hi : i < n)
    (h : ∀ j, j < n → src + j < dst ∨ dst + n ≤ src + j) :
    memcpy m dst src n (dst + i) = m (src + i) := by
  induction n with
  | zero => omega
  | succ n ih =>
    unfold memcpy
    by_cases hin : i = n
    · subst hin
      rw [wr8_self, memcpy_outside ((h i hi).imp_right fun _ => by omega)]
    · rw [wr8_outside (by omega)]
      exact ih (by omega) fun j hj => (h j (by omega)).imp_right fun _ => by omega

theorem rd32_memset_zero {m : Mem} {a n b : Nat} (h : a ≤ b) (h' : b + 4 ≤ a + n) :
    rd32 (memset m a 0 n) b = 0 := by
  have e : ∀ i, i < 4 → memset m a 0 n (b + i) = byteOf 0 i := fun i hi => by
    have := put_inside (m := m) (a := a) (n := n) (f := fun _ => 0) (i := b + i - a) (by omega)
    rw [show a + (b + i - a) = b + i by omega] at this
    rw [memset, this]
    simp [byteOf]
  rw [rd32_byteOf e]
  rfl

/-! ## 3. Tables of words -/

/-- `for (j = 0; j < n; j++) p[j] = f(j)`, with `p` at address `a`. -/
def fillWords (m : Mem) (a n : Nat) (f : Nat → Nat) : Mem :=
  put m a (4 * n) fun i => byteOf (f (i / 4)) (i % 4)

theorem fillWords_outside {m : Mem} {a n x : Nat} {f : Nat → Nat} (h : x < a ∨ a + 4 * n ≤ x) :
    fillWords m a n f x = m x := put_outside h

/-- The loop's last turn: the first `n` words, then word `n`. -/
theorem fillWords_succ (m : Mem) (a n : Nat) (f : Nat → Nat) :
    fillWords m a (n + 1) f = wr32 (fillWords m a n f) (a + 4 * n) (f n) := by
  funext x
  unfold fillWords wr32 put
  by_cases h : a + 4 * n ≤ x ∧ x < a + 4 * n + 4
  · rw [if_pos (by omega), if_pos h]
    have e1 : (x - a) / 4 = n := by omega
    have e2 : (x - a) % 4 = x - (a + 4 * n) := by omega
    show byteOf (f ((x - a) / 4)) ((x - a) % 4) = _
    rw [e1, e2]
  · rw [if_neg h]
    by_cases h' : a ≤ x ∧ x < a + 4 * n
    · rw [if_pos (by omega), if_pos h']
    · rw [if_neg (by omega), if_neg h']

theorem rd32_fillWords {m : Mem} {a n j : Nat} {f : Nat → Nat} (h : j < n) :
    rd32 (fillWords m a n f) (a + 4 * j) = f j % 2 ^ 32 := by
  refine rd32_byteOf fun i hi => ?_
  have := put_inside (m := m) (a := a) (n := 4 * n)
    (f := fun i => byteOf (f (i / 4)) (i % 4)) (i := 4 * j + i) (by omega)
  rw [show a + (4 * j + i) = a + 4 * j + i by omega] at this
  rw [fillWords, this, show (4 * j + i) / 4 = j by omega, show (4 * j + i) % 4 = i by omega]

theorem rd32_fillWords_outside {m : Mem} {a n b : Nat} {f : Nat → Nat}
    (h : b + 4 ≤ a ∨ a + 4 * n ≤ b) : rd32 (fillWords m a n f) b = rd32 m b :=
  rd32_put_outside h

/-! ## 4. Agreement -/

/-- The two memories hold the same bytes on `S`. -/
def AgreeOn (S : Nat → Prop) (m m' : Mem) : Prop := ∀ x, S x → m' x = m x

theorem AgreeOn.refl (S : Nat → Prop) (m : Mem) : AgreeOn S m m := fun _ _ => rfl

theorem AgreeOn.trans {S : Nat → Prop} {m m' m'' : Mem} (h : AgreeOn S m m')
    (h' : AgreeOn S m' m'') : AgreeOn S m m'' := fun x hx => (h' x hx).trans (h x hx)

theorem AgreeOn.mono {S T : Nat → Prop} {m m' : Mem} (h : AgreeOn T m m') (hST : ∀ x, S x → T x) :
    AgreeOn S m m' := fun x hx => h x (hST x hx)

theorem AgreeOn.rd32 {S : Nat → Prop} {m m' : Mem} (h : AgreeOn S m m') {a : Nat}
    (ha : ∀ i, i < 4 → S (a + i)) : Lib.rd32 m' a = Lib.rd32 m a :=
  rd32_congr fun i hi => h _ (ha i hi)

/-- A store outside `S` keeps `S`. -/
theorem agreeOn_put {S : Nat → Prop} {m : Mem} {a n : Nat} {f : Nat → Byte}
    (h : ∀ i, i < n → ¬ S (a + i)) : AgreeOn S m (put m a n f) := fun x hx => by
  refine put_outside ?_
  by_contra hc
  exact h (x - a) (by omega) (by rwa [show a + (x - a) = x by omega])

end Emyx.Lib
