/-
  File:      Emyx/Lib/Buffer.lean
  Subject:   ARRAYS AND STRINGS OF C: fixed size, every access checked.

  An access outside the array is undefined in C; here it is an error, so that a function that
  returns has made none.

  * `Buffer`, `Buffer.get`, `Buffer.set` -- an array and its accesses;
  * `Buffer.fill_ok`, `Buffer.shift_ok` -- the loops that write a stretch and that move one down;
  * `StringAt` -- a string up to its terminator; `StringAt.strlen`, `readBytes_ok` -- reading it;
  * `CString` -- a string with nothing readable behind the terminator.
-/
import Emyx.Lib.Outcome
import Emyx.Lib.Reads

namespace Emyx.Lib

/-- What the C standard leaves undefined. -/
inductive Undefined where
  /-- an access at index `i` of `size` elements -/
  | index (i size : Nat)
  /-- an argument that was not given, or of another type -/
  | argument
  /-- a loop that does not end -/
  | hang
  deriving DecidableEq, Repr

/-! ## 1. Arrays -/

/-- An array of `n` elements. -/
@[ext] structure Buffer (α : Type) (n : Nat) where
  cell : Fin n → α

section

variable {α : Type} {n : Nat} {b b' : Buffer α n} {i j : Nat} {a : α}

/-- `b[i]` -/
def Buffer.get (b : Buffer α n) (i : Nat) : Except Undefined α :=
  if h : i < n then .ok (b.cell ⟨i, h⟩) else .error (.index i n)

/-- The array with `a` at index `i`. -/
def Buffer.upd (b : Buffer α n) (i : Nat) (a : α) : Buffer α n :=
  ⟨fun j => if j.val = i then a else b.cell j⟩

/-- `b[i] = a` -/
def Buffer.set (b : Buffer α n) (i : Nat) (a : α) : Except Undefined (Buffer α n) :=
  if i < n then .ok (b.upd i a) else .error (.index i n)

theorem Buffer.get_ok (h : i < n) : b.get i = .ok (b.cell ⟨i, h⟩) := dif_pos h

theorem Buffer.set_ok (h : i < n) : b.set i a = .ok (b.upd i a) := if_pos h

theorem Buffer.cell_upd_self {k : Fin n} (h : k.val = i) : (b.upd i a).cell k = a := if_pos h

theorem Buffer.cell_upd_of_ne {k : Fin n} (h : k.val ≠ i) : (b.upd i a).cell k = b.cell k :=
  if_neg h

theorem Buffer.get_upd_self (h : i < n) : (b.upd i a).get i = .ok a := by
  rw [get_ok h]
  exact congrArg Except.ok (if_pos rfl)

theorem Buffer.get_upd_of_ne (h : j ≠ i) : (b.upd i a).get j = b.get j := by
  unfold get
  split
  · rw [cell_upd_of_ne h]
  · rfl

/-- One more element behind what the array shows. -/
theorem Buffer.reads_snoc {off : Nat} {l : List α} (h : Reads b.get off l)
    (hlt : off + l.length < n) : Reads (b.upd (off + l.length) a).get off (l ++ [a]) := by
  rw [reads_append]
  refine ⟨fun k c hk => ?_, by simp [get_upd_self hlt]⟩
  have hlt' : k < l.length := (List.getElem?_eq_some_iff.mp hk).1
  rw [get_upd_of_ne (by omega)]
  exact h k c hk

/-- The array with `f 0`, `f 1`, … at the `m` indices from `off` on. -/
def Buffer.filled (b : Buffer α n) (f : Nat → α) (off m : Nat) : Buffer α n :=
  ⟨fun j => if off ≤ j.val ∧ j.val < off + m then f (j.val - off) else b.cell j⟩

theorem Buffer.filled_zero (b : Buffer α n) (f : Nat → α) (off : Nat) : b.filled f off 0 = b := by
  unfold filled
  refine Buffer.ext (funext fun j => ?_)
  dsimp only
  rw [if_neg (by omega)]

/-- `for (i = 0; i < m; i++) b[off + i] = f(i);` -/
theorem Buffer.fill_ok (b : Buffer α n) (f : Nat → α) (off m : Nat) (h : off + m ≤ n) :
    (List.range m).foldlM (fun b i => b.set (off + i) (f i)) b = .ok (b.filled f off m) := by
  induction m with
  | zero =>
    rw [filled_zero]
    rfl
  | succ m ih =>
    rw [List.range_succ, List.foldlM_append, ih (by omega), ok_bind, List.foldlM_cons,
      set_ok (by omega)]
    refine congrArg Except.ok (Buffer.ext (funext fun j => ?_))
    by_cases hj : j.val = off + m
    · rw [cell_upd_self hj]
      refine ((if_pos (by omega)).trans ?_).symm
      rw [hj, Nat.add_sub_cancel_left]
    · rw [cell_upd_of_ne hj]
      exact if_congr (by omega) rfl rfl

theorem Buffer.get_filled (b : Buffer α n) (f : Nat → α) {off m : Nat} (hi : i < n) :
    (b.filled f off m).get i = .ok (if off ≤ i ∧ i < off + m then f (i - off) else b.cell ⟨i, hi⟩) :=
  get_ok hi

/-- What a filled array shows. -/
theorem Buffer.reads_filled (b : Buffer α n) (f : Nat → α) {off m : Nat} (h : off + m ≤ n) :
    Reads (b.filled f off m).get off ((List.range m).map f) := fun k c hk => by
  obtain ⟨hlt, rfl⟩ := List.getElem?_eq_some_iff.mp hk
  rw [List.length_map, List.length_range] at hlt
  rw [List.getElem_map, List.getElem_range, get_filled b f (by omega), if_pos (by omega),
    Nat.add_sub_cancel_left]

/-- The array with its elements from `d` on moved to the front, as far as index `m`. -/
def Buffer.shifted (b : Buffer α n) (d m : Nat) : Buffer α n :=
  ⟨fun j => if h : j.val < m ∧ j.val + d < n then b.cell ⟨j.val + d, h.2⟩ else b.cell j⟩

/-- `for (i = 0; i < m; i++) b[i] = b[i + d];` -/
theorem Buffer.shift_ok (b : Buffer α n) (d m : Nat) (hd : 0 < d) (h : m + d ≤ n) :
    (List.range m).foldlM (fun b i => do b.set i (← b.get (i + d))) b = .ok (b.shifted d m) := by
  induction m with
  | zero =>
    refine congrArg Except.ok (Buffer.ext (funext fun j => ?_))
    unfold shifted
    dsimp only
    rw [dif_neg (by omega)]
  | succ m ih =>
    rw [List.range_succ, List.foldlM_append, ih (by omega), ok_bind, List.foldlM_cons,
      get_ok (show m + d < n by omega), ok_bind, set_ok (by omega)]
    refine congrArg Except.ok (Buffer.ext (funext fun j => ?_))
    by_cases hj : j.val = m
    · rw [cell_upd_self hj]
      -- what the loop reads it has not written yet
      refine (dif_neg (show ¬ (m + d < m ∧ m + d + d < n) by omega)).trans ?_
      refine ((dif_pos (by omega)).trans ?_).symm
      exact congrArg b.cell (Fin.ext (congrArg (· + d) hj))
    · rw [cell_upd_of_ne hj]
      unfold shifted
      dsimp only
      by_cases hlt : j.val < m
      · rw [dif_pos (by omega), dif_pos (by omega)]
      · rw [dif_neg (by omega), dif_neg (by omega)]

end

/-! ## 2. Strings -/

/-- The bytes `l` and then a terminator are read through `get`. -/
structure StringAt (get : Nat → Except Undefined Byte) (l : List Byte) : Prop where
  bytes : Reads get 0 l
  nul : get l.length = .ok 0
  noNul : 0 ∉ l

/-- `strlen` of what is read through `get`, from index `len` on. -/
def strlenFrom (get : Nat → Except Undefined Byte) : Nat → Nat → Except Undefined Nat
  | 0, _ => .error .hang
  | fuel + 1, len => do
    if (← get len) = 0 then return len else strlenFrom get fuel (len + 1)

/-- The first `n` bytes of what is read through `get`. -/
def readBytes (get : Nat → Except Undefined Byte) (n : Nat) : Except Undefined (List Byte) :=
  (List.range n).mapM get

section

variable {get : Nat → Except Undefined Byte} {l : List Byte}

theorem StringAt.get_byte (h : StringAt get l) {i : Nat} {c : Byte} (hc : l[i]? = some c) :
    get i = .ok c := by
  have := h.bytes i c hc
  rwa [Nat.zero_add] at this

theorem StringAt.byte_ne (h : StringAt get l) {i : Nat} {c : Byte} (hc : l[i]? = some c) : c ≠ 0 :=
  fun h0 => h.noNul (h0 ▸ List.mem_of_getElem? hc)

/-- The string from its byte `pos` on. -/
theorem StringAt.drop (h : StringAt get l) {pos : Nat} (hpos : pos ≤ l.length) :
    StringAt (fun i => get (pos + i)) (l.drop pos) where
  bytes i c hc := by
    rw [List.getElem?_drop] at hc
    rw [Nat.zero_add]
    exact h.get_byte hc
  nul := by
    rw [List.length_drop, Nat.add_sub_cancel' hpos]
    exact h.nul
  noNul hmem := h.noNul (List.mem_of_mem_drop hmem)

/-- Appending a byte to a string in an array: the byte, then the terminator. -/
theorem StringAt.snoc {n : Nat} {b : Buffer Byte n} {c : Byte} (h : StringAt b.get l) (hc : c ≠ 0)
    (hlt : l.length + 1 < n) :
    StringAt ((b.upd l.length c).upd (l.length + 1) 0).get (l ++ [c]) where
  bytes := by
    have hs := Buffer.reads_snoc (a := c) h.bytes (by omega)
    rw [Nat.zero_add] at hs
    intro i d hi
    have hi' := (List.getElem?_eq_some_iff.mp hi).1
    rw [List.length_append, List.length_singleton] at hi'
    rw [Buffer.get_upd_of_ne (by omega)]
    exact hs i d hi
  nul := by
    rw [List.length_append, List.length_singleton]
    exact Buffer.get_upd_self hlt
  noNul hmem := by
    rcases List.mem_append.mp hmem with hl | hl
    · exact h.noNul hl
    · exact hc (List.mem_singleton.mp hl).symm

/-- A terminator over the last byte. -/
theorem StringAt.erase {n : Nat} {b : Buffer Byte n} {c : Byte} (h : StringAt b.get (l ++ [c]))
    (hlt : l.length < n) : StringAt (b.upd l.length 0).get l where
  bytes := by
    intro i d hi
    have hi' := (List.getElem?_eq_some_iff.mp hi).1
    rw [Buffer.get_upd_of_ne (by omega)]
    exact (reads_append.mp h.bytes).1 i d hi
  nul := Buffer.get_upd_self hlt
  noNul hmem := h.noNul (List.mem_append_left _ hmem)

theorem StringAt.strlen_from (h : StringAt get l) {fuel i : Nat} (hi : i ≤ l.length)
    (hfuel : l.length < fuel + i) : strlenFrom get fuel i = .ok l.length := by
  induction fuel generalizing i with
  | zero => omega
  | succ fuel ih =>
    unfold strlenFrom
    rcases Nat.lt_or_eq_of_le hi with hlt | rfl
    · have hc := List.getElem?_eq_getElem hlt
      rw [h.get_byte hc, ok_bind, if_neg (h.byte_ne hc), ih hlt (by omega)]
    · rw [h.nul, ok_bind, if_pos rfl]
      rfl

/-- **`strlen` stops at the terminator.** -/
theorem StringAt.strlen (h : StringAt get l) {fuel : Nat} (hfuel : l.length < fuel) :
    strlenFrom get fuel 0 = .ok l.length := h.strlen_from (Nat.zero_le _) hfuel

/-- Reading as many bytes as are shown. -/
theorem readBytes_ok (h : Reads get 0 l) : readBytes get l.length = .ok l := by
  induction l using List.reverseRecOn with
  | nil => rfl
  | append_singleton l c ih =>
    obtain ⟨hl, hc⟩ := reads_append.mp h
    have hc' := hc 0 c rfl
    rw [Nat.zero_add, Nat.add_zero] at hc'
    have hread := ih hl
    unfold readBytes at hread ⊢
    rw [List.length_append, List.length_singleton, List.range_succ, List.mapM_append, hread]
    simp [hc']

end

/-- A string in a 32-bit address space, up to its terminator. -/
structure CString where
  bytes : List Byte
  noNul : 0 ∉ bytes
  fits : bytes.length < 2 ^ 32

/-- `s[i]`: the terminator is the last byte that may be read. -/
def CString.get (s : CString) (i : Nat) : Except Undefined Byte :=
  match s.bytes[i]? with
  | some c => .ok c
  | none => if i = s.bytes.length then .ok 0 else .error (.index i (s.bytes.length + 1))

theorem CString.stringAt (s : CString) : StringAt s.get s.bytes where
  bytes i c hc := by
    unfold get
    rw [Nat.zero_add, hc]
  nul := by
    unfold get
    rw [List.getElem?_eq_none (Nat.le_refl _)]
    exact if_pos rfl
  noNul := s.noNul

end Emyx.Lib
