/-
  File:      Emyx/Printk.lean
  Subject:   THE TEXT THE KERNEL PRINTS (printk.c): messages, and the numbers in them.

  * `ascii`, `u32ToHex` -- the text of a message and of a number in it, as the other parts of the
    kernel print them;
  * `u32ToHexInto`, `u32ToStr` -- the two functions that write a number into a buffer, with every
    access to the buffers checked;
  * **`numbers_roundTrip`** -- both numerals fit their buffers and spell the number.
-/
import Emyx.Lib.Buffer
import Mathlib.Data.Nat.Digits.Lemmas

namespace Emyx

open Lib

/-! ## 1. Messages -/

/-- The bytes of a message. -/
def ascii (s : String) : List Byte := s.toList.map fun c => BitVec.ofNat 8 c.toNat

/-- `hex_digit` -/
def hexDigit (nibble : Nat) : Byte :=
  if nibble < 10 then BitVec.ofNat 8 (0x30 + nibble) else BitVec.ofNat 8 (0x61 + (nibble - 10))

/-- `u32_to_hex`, without the terminator. -/
def u32ToHex (value : Nat) : List Byte :=
  ascii "0x" ++ (List.range 8).map fun i => hexDigit (value >>> ((7 - i) * 4) &&& 0x0f)

/-! ## 2. Numbers in buffers -/

/-- `u32_to_hex` -/
def u32ToHexInto (out : Buffer Byte 11) (value : Nat) : Except Undefined (Buffer Byte 11) := do
  let out ← out.set 0 0x30
  let out ← out.set 1 0x78
  let out ← (List.range 8).foldlM (fun out i =>
    out.set (2 + i) (hexDigit (value >>> ((7 - i) * 4) &&& 0x0f))) out
  out.set 10 0

/-- The first loop of `u32_to_str`: the digits, the last one first, and their number. -/
def digitsLoop : Nat → Buffer Byte 10 → Nat → Nat → Except Undefined (Buffer Byte 10 × Nat)
  | 0, _, _, _ => .error .hang
  | fuel + 1, tmp, i, value =>
    if value > 0 then do
      let tmp ← tmp.set i (BitVec.ofNat 8 (0x30 + value % 10))
      digitsLoop fuel tmp (i + 1) (value / 10)
    else return (tmp, i)

/-- The second loop: `while (i > 0) out[j++] = tmp[--i];` -/
def reverseLoop (tmp : Buffer Byte 10) :
    Nat → Buffer Byte 11 → Nat → Except Undefined (Buffer Byte 11 × Nat)
  | 0, out, j => return (out, j)
  | i + 1, out, j => do
    let out ← out.set j (← tmp.get i)
    reverseLoop tmp i out (j + 1)

/-- `u32_to_str`; `tmp` is what its array holds before. -/
def u32ToStr (tmp : Buffer Byte 10) (out : Buffer Byte 11) (value : Nat) :
    Except Undefined (Buffer Byte 11) :=
  if value = 0 then do
    let out ← out.set 0 0x30
    out.set 1 0
  else do
    let (tmp, i) ← digitsLoop (value + 1) tmp 0 value
    let (out, j) ← reverseLoop tmp i out 0
    out.set j 0

/-- The numeral of `value` in base 10. -/
def decimal (value : Nat) : List Byte :=
  if value = 0 then [0x30]
  else (Nat.digits 10 value).reverse.map fun d => BitVec.ofNat 8 (0x30 + d)

section

variable {tmp tmp' : Buffer Byte 10} {out : Buffer Byte 11} {v : Nat}

/-- The digits of a 32-bit number fit the array. -/
theorem digits_length_le (h : v < 2 ^ 32) : (Nat.digits 10 v).length ≤ 10 :=
  (Nat.digits_length_le_iff (by decide) v).mpr (by omega)

theorem digitsLoop_ok {fuel : Nat} {l : List Byte} (hfuel : v < fuel) (hl : Reads tmp.get 0 l)
    (hlen : l.length + (Nat.digits 10 v).length ≤ 10) :
    ∃ tmp', digitsLoop fuel tmp l.length v = .ok (tmp', l.length + (Nat.digits 10 v).length) ∧
      Reads tmp'.get 0 (l ++ (Nat.digits 10 v).map fun d => BitVec.ofNat 8 (0x30 + d)) := by
  induction fuel generalizing tmp l v with
  | zero => omega
  | succ fuel ih =>
    unfold digitsLoop
    by_cases hv : v > 0
    · have hdig : Nat.digits 10 v = v % 10 :: Nat.digits 10 (v / 10) :=
        Nat.digits_def' (by decide) hv
      rw [hdig, List.length_cons] at hlen
      have hset : tmp.set l.length (BitVec.ofNat 8 (0x30 + v % 10)) = .ok _ :=
        Buffer.set_ok (by omega)
      have hnext := Buffer.reads_snoc (a := BitVec.ofNat 8 (0x30 + v % 10)) hl (by omega)
      rw [Nat.zero_add] at hnext
      obtain ⟨tmp', e, h'⟩ := ih (v := v / 10) (by omega) hnext (by simp; omega)
      refine ⟨tmp', ?_, ?_⟩
      · rw [if_pos hv, hset, ok_bind, hdig]
        rw [List.length_append, List.length_singleton] at e
        rw [e, List.length_cons]
        congr 2
        omega
      · rw [hdig, List.map_cons]
        simpa using h'
    · have hv0 : v = 0 := by omega
      subst hv0
      exact ⟨tmp, if_neg hv, by simpa using hl⟩

/-- The reversed digits follow what was written before. -/
theorem reverseLoop_ok {i : Nat} {l l' : List Byte} (hl : Reads tmp.get 0 l) (hi : i ≤ l.length)
    (hl' : Reads out.get 0 l') (hroom : l'.length + i ≤ 11) :
    ∃ out', reverseLoop tmp i out l'.length = .ok (out', l'.length + i) ∧
      Reads out'.get 0 (l' ++ (l.take i).reverse) := by
  induction i generalizing out l' with
  | zero => exact ⟨out, rfl, by simpa using hl'⟩
  | succ i ih =>
    have hc := List.getElem?_eq_getElem (show i < l.length by omega)
    have hget := hl i _ hc
    rw [Nat.zero_add] at hget
    have hset : out.set l'.length l[i] = .ok _ := Buffer.set_ok (by omega)
    have hnext := Buffer.reads_snoc (a := l[i]) hl' (by omega)
    rw [Nat.zero_add] at hnext
    obtain ⟨out', e, h'⟩ := ih (by omega) hnext (by simp; omega)
    refine ⟨out', ?_, ?_⟩
    · unfold reverseLoop
      rw [hget, ok_bind, hset, ok_bind]
      rw [List.length_append, List.length_singleton] at e
      rw [e]
      congr 2
      omega
    · rw [List.take_succ_eq_append_getElem (by omega), List.reverse_append]
      simpa using h'

theorem decimal_ne_nul {v : Nat} : (0 : Byte) ∉ decimal v := by
  unfold decimal
  split
  · decide
  · intro h
    obtain ⟨d, hd, e⟩ := List.mem_map.mp h
    have hlt := Nat.digits_lt_base (by decide) (List.mem_reverse.mp hd)
    have := congrArg BitVec.toNat e
    rw [BitVec.toNat_ofNat] at this
    simp at this
    omega

theorem decimal_length (h : v < 2 ^ 32) : 1 ≤ (decimal v).length ∧ (decimal v).length ≤ 10 := by
  unfold decimal
  split
  · decide
  · rename_i hv
    rw [List.length_map, List.length_reverse]
    exact ⟨List.length_pos_iff.mpr (Nat.digits_ne_nil_iff_ne_zero.mpr hv), digits_length_le h⟩

/-- **`u32_to_str` returns**: the buffer holds the numeral and a terminator. -/
theorem u32ToStr_ok (tmp : Buffer Byte 10) (out : Buffer Byte 11) (h : v < 2 ^ 32) :
    ∃ out', u32ToStr tmp out v = .ok out' ∧ StringAt out'.get (decimal v) := by
  have hlen := decimal_length h
  -- the terminator behind the digits
  have hend : ∀ out' : Buffer Byte 11, Reads out'.get 0 (decimal v) →
      ∃ out'', out'.set (decimal v).length 0 = .ok out'' ∧ StringAt out''.get (decimal v) :=
    fun out' ho => by
      have hset : out'.set (decimal v).length 0 = .ok _ := Buffer.set_ok (by omega)
      have hs := Buffer.reads_snoc (a := 0) ho (by omega)
      rw [Nat.zero_add] at hs
      obtain ⟨h1, h2⟩ := reads_append.mp hs
      rw [Nat.zero_add] at h2
      exact ⟨_, hset, h1, h2 0 0 rfl, decimal_ne_nul⟩
  unfold u32ToStr
  by_cases hv : v = 0
  · subst hv
    rw [if_pos rfl, Buffer.set_ok (by decide), ok_bind]
    refine hend (out.upd 0 0x30) (?_ : Reads (out.upd 0 0x30).get 0 [0x30])
    simp [Buffer.get_upd_self]
  · have hdec : decimal v = (Nat.digits 10 v).reverse.map fun d => BitVec.ofNat 8 (0x30 + d) :=
      if_neg hv
    have hl := digits_length_le h
    have htmp : Reads tmp.get 0 [] := reads_nil
    have hout : Reads out.get 0 [] := reads_nil
    obtain ⟨tmp', e₁, h₁⟩ := digitsLoop_ok (Nat.lt_succ_self v) htmp (by simpa using hl)
    obtain ⟨out', e₂, h₂⟩ := reverseLoop_ok (i := (Nat.digits 10 v).length) h₁ (by simp) hout
      (by simp; omega)
    have hdigits : Reads out'.get 0 (decimal v) := by
      rw [hdec, List.map_reverse]
      simpa [List.take_of_length_le] using h₂
    obtain ⟨out'', e₃, h₃⟩ := hend out' hdigits
    refine ⟨out'', ?_, h₃⟩
    rw [hdec, List.length_map, List.length_reverse] at e₃
    simp only [List.length_nil, Nat.zero_add] at e₁ e₂
    rw [if_neg hv, e₁, ok_bind]
    simp only [e₂, ok_bind]
    exact e₃

theorem hexDigit_ne_nul {d : Nat} (h : d < 16) : hexDigit d ≠ 0 := by
  revert d
  decide

theorem u32ToHex_ne_nul (v : Nat) : (0 : Byte) ∉ u32ToHex v := by
  unfold u32ToHex
  rw [List.mem_append, not_or]
  refine ⟨by decide, fun h => ?_⟩
  obtain ⟨i, -, e⟩ := List.mem_map.mp h
  exact hexDigit_ne_nul (Nat.and_lt_two_pow _ (by decide : 0x0f < 2 ^ 4)) e

/-- **`u32_to_hex` returns**: the buffer holds the numeral and a terminator. -/
theorem u32ToHexInto_ok (out : Buffer Byte 11) (v : Nat) :
    ∃ out', u32ToHexInto out v = .ok out' ∧ StringAt out'.get (u32ToHex v) := by
  unfold u32ToHexInto
  rw [Buffer.set_ok (by decide), ok_bind, Buffer.set_ok (by decide), ok_bind,
    Buffer.fill_ok _ (fun i => hexDigit (v >>> ((7 - i) * 4) &&& 0x0f)) 2 8 (by decide), ok_bind,
    Buffer.set_ok (by decide)]
  generalize hf : (fun i => hexDigit (v >>> ((7 - i) * 4) &&& 0x0f)) = f
  have hlen : (u32ToHex v).length = 10 := rfl
  refine ⟨_, rfl, ?_, ?_, u32ToHex_ne_nul v⟩
  · unfold u32ToHex
    rw [hf, reads_append]
    refine ⟨?_, fun k c hk => ?_⟩
    · simp [ascii, Buffer.get, Buffer.upd, Buffer.filled]
    · have hk' : k < 8 := by simpa using (List.getElem?_eq_some_iff.mp hk).1
      rw [Buffer.get_upd_of_ne (by simp [ascii]; omega)]
      exact Buffer.reads_filled _ f (by decide : 2 + 8 ≤ 11) k c hk
  · rw [hlen]
    exact Buffer.get_upd_self (by decide)

end

/-! ## 3. What the numerals say -/

/-- The value of a numeral in base `b`, by the values of its digits. -/
def numeralValue (b : Nat) (digit : Byte → Nat) (s : List Byte) : Nat :=
  s.foldl (fun n c => b * n + digit c) 0

/-- A numeral of `v` in base 10: no leading zero but in `0`. -/
structure IsDecimal (v : Nat) (s : List Byte) : Prop where
  length : 1 ≤ s.length ∧ s.length ≤ 10
  digits : ∀ c ∈ s, 0x30 ≤ c.toNat ∧ c.toNat ≤ 0x39
  canonical : s.head? = some 0x30 → s = [0x30]
  value : numeralValue 10 (fun c => c.toNat - 0x30) s = v

/-- The value of a digit `0` … `9`, `a` … `f`. -/
def hexValue (c : Byte) : Nat := if c.toNat < 0x61 then c.toNat - 0x30 else c.toNat - 0x61 + 10

/-- A numeral of `v` in base 16, of eight digits. -/
structure IsHex (v : Nat) (s : List Byte) : Prop where
  length : s.length = 8
  digits : ∀ c ∈ s, 0x30 ≤ c.toNat ∧ c.toNat ≤ 0x39 ∨ 0x61 ≤ c.toNat ∧ c.toNat ≤ 0x66
  value : numeralValue 16 hexValue s = v

section

variable {v : Nat}

theorem digitByte_toNat {d : Nat} (h : d < 10) : (BitVec.ofNat 8 (0x30 + d)).toNat = 0x30 + d := by
  rw [BitVec.toNat_ofNat]
  omega

/-- Horner's rule on the digits, the first one first. -/
theorem numeralValue_digits {l : List Nat} (h : ∀ d ∈ l, d < 10) :
    numeralValue 10 (fun c => c.toNat - 0x30)
      (l.reverse.map fun d => BitVec.ofNat 8 (0x30 + d)) = Nat.ofDigits 10 l := by
  induction l with
  | nil => rfl
  | cons d l ih =>
    have hd := digitByte_toNat (h d List.mem_cons_self)
    have ih := ih fun e he => h e (List.mem_cons_of_mem _ he)
    unfold numeralValue at ih ⊢
    rw [List.reverse_cons, List.map_append, List.foldl_append, ih, Nat.ofDigits_cons]
    simp only [List.map_cons, List.map_nil, List.foldl_cons, List.foldl_nil, hd]
    omega

theorem isDecimal_decimal (h : v < 2 ^ 32) : IsDecimal v (decimal v) := by
  have hlen := decimal_length h
  by_cases hv : v = 0
  · subst hv
    exact ⟨hlen, by decide, fun _ => rfl, rfl⟩
  have hlt : ∀ d ∈ Nat.digits 10 v, d < 10 := fun d => Nat.digits_lt_base (by decide)
  have hdec : decimal v = (Nat.digits 10 v).reverse.map fun d => BitVec.ofNat 8 (0x30 + d) :=
    if_neg hv
  refine ⟨hlen, fun c hc => ?_, fun hz => ?_, ?_⟩
  · rw [hdec] at hc
    obtain ⟨d, hd, rfl⟩ := List.mem_map.mp hc
    have hd10 := hlt d (List.mem_reverse.mp hd)
    rw [digitByte_toNat hd10]
    omega
  · -- the first digit is the last one of `Nat.digits`, which is not zero
    have hne : Nat.digits 10 v ≠ [] := Nat.digits_ne_nil_iff_ne_zero.mpr hv
    rw [hdec, List.head?_map, List.head?_reverse, List.getLast?_eq_some_getLast hne] at hz
    have hbyte := congrArg BitVec.toNat (Option.some.inj hz)
    rw [digitByte_toNat (hlt _ (List.getLast_mem hne))] at hbyte
    have : (Nat.digits 10 v).getLast hne ≠ 0 := Nat.getLast_digit_ne_zero 10 hv
    simp at hbyte
    omega
  · rw [hdec, numeralValue_digits hlt, Nat.ofDigits_digits]

theorem hexDigit_spec {d : Nat} (h : d < 16) : hexValue (hexDigit d) = d ∧
    (0x30 ≤ (hexDigit d).toNat ∧ (hexDigit d).toNat ≤ 0x39 ∨
      0x61 ≤ (hexDigit d).toNat ∧ (hexDigit d).toNat ≤ 0x66) := by
  revert d
  decide

theorem nibble_lt (v i : Nat) : v >>> i &&& 0x0f < 16 := Nat.and_lt_two_pow _ (by decide : 0x0f < 2 ^ 4)

theorem nibble_eq (v i : Nat) : v >>> i &&& 0x0f = v / 2 ^ i % 16 := by
  rw [show (0x0f : Nat) = 2 ^ 4 - 1 from rfl, Nat.and_two_pow_sub_one_eq_mod, Nat.shiftRight_eq_div_pow]

theorem isHex_u32ToHex (h : v < 2 ^ 32) : IsHex v ((u32ToHex v).drop 2) := by
  have hdrop : (u32ToHex v).drop 2 =
      (List.range 8).map fun i => hexDigit (v >>> ((7 - i) * 4) &&& 0x0f) := rfl
  rw [hdrop]
  refine ⟨by simp, fun c hc => ?_, ?_⟩
  · obtain ⟨i, -, rfl⟩ := List.mem_map.mp hc
    exact (hexDigit_spec (nibble_lt v _)).2
  · have hval : ∀ i, hexValue (hexDigit (v >>> i &&& 0x0f)) = v / 2 ^ i % 16 := fun i => by
      rw [(hexDigit_spec (nibble_lt v i)).1, nibble_eq]
    simp only [numeralValue, List.range_succ, List.range_zero, List.nil_append, List.map_append,
      List.map_cons, List.map_nil, List.foldl_append, List.foldl_cons, List.foldl_nil, hval]
    omega

/-- **BOTH NUMERALS FIT AND SPELL THE NUMBER.** For every 32-bit value `u32_to_str` and
    `u32_to_hex` make no access outside their arrays, whatever these held before, and leave the
    canonical numeral, with a terminator behind it. -/
theorem numbers_roundTrip (tmp : Buffer Byte 10) (out out₂ : Buffer Byte 11) (h : v < 2 ^ 32) :
    (∃ out' s, u32ToStr tmp out v = .ok out' ∧ StringAt out'.get s ∧ IsDecimal v s) ∧
    ∃ out' s, u32ToHexInto out₂ v = .ok out' ∧ StringAt out'.get (ascii "0x" ++ s) ∧ IsHex v s := by
  obtain ⟨o₁, e₁, h₁⟩ := u32ToStr_ok tmp out h
  obtain ⟨o₂, e₂, h₂⟩ := u32ToHexInto_ok out₂ v
  exact ⟨⟨o₁, _, e₁, h₁, isDecimal_decimal h⟩, o₂, _, e₂, h₂, isHex_u32ToHex h⟩

/-- The largest value fills both buffers. -/
theorem numbers_roundTrip_max :
    (∃ out' s, u32ToStr ⟨fun _ => 0xff⟩ ⟨fun _ => 0xff⟩ 4294967295 = .ok out' ∧
      StringAt out'.get s ∧ IsDecimal 4294967295 s) ∧
    ∃ out' s, u32ToHexInto ⟨fun _ => 0xff⟩ 4294967295 = .ok out' ∧
      StringAt out'.get (ascii "0x" ++ s) ∧ IsHex 4294967295 s :=
  numbers_roundTrip _ _ _ (by decide)

end

end Emyx
