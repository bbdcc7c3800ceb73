/-
  File:      Emyx/PrintkFormat.lean
  Subject:   THE FORMATTER (printk.c): `printk` and the language of its formats.

  * `printk` -- the function: it walks the format, takes its arguments one by one, and sends bytes
    to the terminal; every read of the format, of an argument and of a buffer is checked;
  * `expand` -- what a format means, by recursion on its bytes;
  * `printkLoop_prints` -- the loop, from any point of the format on;
  * **`printk_expands`** -- `printk` sends what the format means, or stops at `INT_MAX` bytes.
-/
import Emyx.Printk
import Mathlib.Data.List.TakeWhile

namespace Emyx

open Lib

/-! ## 1. The function -/

/-- An argument of `printk`. -/
inductive Arg where
  | int (v : BitVec 32)
  | str (s : Option CString)
  | uint (v : BitVec 32)

/-- `va_arg(parameters, int)` -/
def takeInt : List Arg → Except Undefined (BitVec 32 × List Arg)
  | .int v :: args => .ok (v, args)
  | _ => .error .argument

/-- `va_arg(parameters, const char *)` -/
def takeStr : List Arg → Except Undefined (Option CString × List Arg)
  | .str s :: args => .ok (s, args)
  | _ => .error .argument

/-- `va_arg(parameters, uint32_t)` -/
def takeUint : List Arg → Except Undefined (BitVec 32 × List Arg)
  | .uint v :: args => .ok (v, args)
  | _ => .error .argument

/-- What the local arrays hold before they are written. -/
structure Scratch where
  hex : Buffer Byte 11
  dec : Buffer Byte 11
  tmp : Buffer Byte 10

/-- The string `"(null)"`. -/
def nullString : CString := ⟨ascii "(null)", by decide, by decide⟩

/-- `while (format[amount] && format[amount] != '%') amount++;` -/
def scanLiteral (get : Nat → Except Undefined Byte) : Nat → Nat → Except Undefined Nat
  | 0, _ => .error .hang
  | fuel + 1, amount => do
    let c ← get amount
    if c ≠ 0 ∧ c ≠ 0x25#8 then scanLiteral get fuel (amount + 1) else return amount

/-- `strlen` -/
def strlen (get : Nat → Except Undefined Byte) : Except Undefined Nat := strlenFrom get (2 ^ 32) 0

/-- One conversion: the bytes `print_bytes` is given, and the arguments that are left; `none` if
    the character `c` behind the `%` names no conversion. -/
def convert (sc : Scratch) (c : Byte) (args : List Arg) :
    Except Undefined (Option (List Byte × List Arg)) :=
  if c = 0x63#8 then do
    let (v, args) ← takeInt args
    return some ([v.setWidth 8], args)
  else if c = 0x73#8 then do
    let (s, args) ← takeStr args
    let str := s.getD nullString
    let len ← strlen str.get
    return some (← readBytes str.get len, args)
  else if c = 0x78#8 then do
    let (v, args) ← takeUint args
    let hex ← u32ToHexInto sc.hex v.toNat
    return some (← readBytes hex.get 10, args)
  else if c = 0x75#8 then do
    let (v, args) ← takeUint args
    let dec ← u32ToStr sc.tmp sc.dec v.toNat
    let len ← strlen dec.get
    return some (← readBytes dec.get len, args)
  else return none

/-- The loop of `printk` from the format's byte `pos` on: `written` bytes were counted and `sent`
    was sent to the terminal. -/
def printkLoop (sc : Scratch) (format : CString) :
    Nat → Nat → Nat → List Arg → List Byte → Except Undefined (Int × List Byte)
  | 0, _, _, _, _ => .error .hang
  | fuel + 1, pos, written, args, sent => do
    let c ← format.get pos
    if c = 0 then return (written, sent)
    else
      let maxrem := 0x7fffffff - written
      let double ← (if c ≠ 0x25#8 then .ok false else do return (← format.get (pos + 1)) = 0x25#8)
      if c ≠ 0x25#8 ∨ double = true then do
        let start := if c = 0x25#8 then pos + 1 else pos
        let get := fun i => format.get (start + i)
        let amount ← scanLiteral get (2 ^ 32) 1
        if maxrem < amount then return (-1, sent)
        else do
          let bytes ← readBytes get amount
          printkLoop sc format fuel (start + amount) (written + amount) args (sent ++ bytes)
      else do
        match ← convert sc (← format.get (pos + 1)) args with
        | some (bytes, args) =>
          if maxrem < bytes.length then return (-1, sent)
          else printkLoop sc format fuel (pos + 2) (written + bytes.length) args (sent ++ bytes)
        | none => do
          let get := fun i => format.get (pos + i)
          let len ← strlen get
          if maxrem < len then return (-1, sent)
          else do
            let bytes ← readBytes get len
            printkLoop sc format fuel (pos + len) (written + len) args (sent ++ bytes)

/-- `printk`: its result, and the bytes given to `terminal_write`. -/
def printk (sc : Scratch) (format : CString) (args : List Arg) : Except Undefined (Int × List Byte) :=
  printkLoop sc format (format.bytes.length + 1) 0 0 args []

/-! ## 2. The language of formats -/

/-- Text that goes on, as far as the arguments go, and whether they go to its end. -/
structure Expansion where
  text : List Byte
  complete : Bool
  deriving DecidableEq, Repr

def Expansion.cons (bytes : List Byte) (e : Expansion) : Expansion := ⟨bytes ++ e.text, e.complete⟩

/-- What a string argument prints. -/
def stringText (s : Option CString) : List Byte := (s.getD nullString).bytes

/-- **What a format means.** A character other than `%` stands for itself, and so does the second
    of two `%`; a conversion takes its argument; any other `%` ends the format: it and all that
    follows stand for themselves. Without the argument a conversion needs, the text ends there. -/
def expand : List Byte → List Arg → Expansion
  | [], _ => ⟨[], true⟩
  | [c], _ => ⟨[c], true⟩
  | c :: d :: rest, args =>
    if c ≠ 0x25#8 then .cons [c] (expand (d :: rest) args)
    else if d = 0x25#8 then .cons [0x25#8] (expand rest args)
    else if d = 0x63#8 then
      match args with
      | .int v :: args => .cons [v.setWidth 8] (expand rest args)
      | _ => ⟨[], false⟩
    else if d = 0x73#8 then
      match args with
      | .str s :: args => .cons (stringText s) (expand rest args)
      | _ => ⟨[], false⟩
    else if d = 0x78#8 then
      match args with
      | .uint v :: args => .cons (u32ToHex v.toNat) (expand rest args)
      | _ => ⟨[], false⟩
    else if d = 0x75#8 then
      match args with
      | .uint v :: args => .cons (decimal v.toNat) (expand rest args)
      | _ => ⟨[], false⟩
    else ⟨c :: d :: rest, true⟩

@[simp] theorem Expansion.cons_nil (e : Expansion) : Expansion.cons [] e = e := rfl

theorem Expansion.cons_cons (a b : List Byte) (e : Expansion) :
    Expansion.cons a (Expansion.cons b e) = Expansion.cons (a ++ b) e := by
  unfold Expansion.cons
  rw [List.append_assoc]

/-! ## 3. Literal text -/

section

variable {get : Nat → Except Undefined Byte} {l run rest : List Byte} {args args' : List Arg}

theorem scanLiteral_ok (h : StringAt get l) {fuel amount : Nat} (hle : amount ≤ l.length)
    (hfuel : l.length < fuel + amount) : scanLiteral get fuel amount =
      .ok (amount + ((l.drop amount).takeWhile (· ≠ 0x25#8)).length) := by
  induction fuel generalizing amount with
  | zero => omega
  | succ fuel ih =>
    unfold scanLiteral
    rcases Nat.lt_or_eq_of_le hle with hlt | rfl
    · have hc := List.getElem?_eq_getElem hlt
      rw [h.get_byte hc, ok_bind, List.drop_eq_getElem_cons hlt, List.takeWhile_cons]
      by_cases hp : l[amount] = 0x25#8
      · simp [hp]
        rfl
      · rw [if_pos ⟨h.byte_ne hc, hp⟩, ih hlt (by omega)]
        simp [hp]
        omega
    · rw [h.nul, ok_bind]
      simp
      rfl

/-- A character and the run of literal text behind it. -/
theorem literal_ok {a : Byte} {tail : List Byte} (h : StringAt get (a :: tail))
    (hfit : (a :: tail).length < 2 ^ 32) :
    ∃ run rest, tail = run ++ rest ∧ (∀ c ∈ run, c ≠ 0x25#8) ∧
      scanLiteral get (2 ^ 32) 1 = .ok (a :: run).length ∧
      readBytes get (a :: run).length = .ok (a :: run) := by
  refine ⟨tail.takeWhile (· ≠ 0x25#8), tail.dropWhile (· ≠ 0x25#8),
    (List.takeWhile_append_dropWhile ..).symm, fun c hc => ?_, ?_, ?_⟩
  · simpa using List.mem_takeWhile_imp hc
  · rw [scanLiteral_ok h (by simp) (by omega), List.drop_one, List.tail_cons, List.length_cons,
      Nat.add_comm]
  · refine readBytes_ok (fun i c hi => h.bytes i c ?_)
    have hsplit : a :: tail = (a :: tail.takeWhile (· ≠ 0x25#8)) ++ tail.dropWhile (· ≠ 0x25#8) := by
      rw [List.cons_append, List.takeWhile_append_dropWhile]
    rw [hsplit, List.getElem?_append_left (List.getElem?_eq_some_iff.mp hi).1]
    exact hi

theorem expand_literal {c : Byte} (hc : c ≠ 0x25#8) (rest : List Byte) (args : List Arg) :
    expand (c :: rest) args = .cons [c] (expand rest args) := by
  cases rest with
  | nil => rfl
  | cons d rest => simp [expand, hc]

/-- A run of literal text. -/
theorem expand_run (h : ∀ c ∈ run, c ≠ 0x25#8) (rest : List Byte) (args : List Arg) :
    expand (run ++ rest) args = .cons run (expand rest args) := by
  induction run with
  | nil => rfl
  | cons c run ih =>
    rw [List.cons_append, expand_literal (h c List.mem_cons_self),
      ih fun d hd => h d (List.mem_cons_of_mem _ hd), Expansion.cons_cons]
    rfl

theorem expand_percent (rest : List Byte) (args : List Arg) :
    expand (0x25#8 :: 0x25#8 :: rest) args = .cons [0x25#8] (expand rest args) := by
  simp [expand]

/-! ## 4. Conversions -/

theorem readString_ok {l : List Byte} (h : StringAt get l) (hfit : l.length < 2 ^ 32) :
    strlen get = .ok l.length ∧ readBytes get l.length = .ok l :=
  ⟨h.strlen hfit, readBytes_ok h.bytes⟩

/-- What a conversion does, and what the format means there. -/
inductive Converts (sc : Scratch) (d : Byte) (args : List Arg) : Prop where
  | bytes {bytes : List Byte} {args' : List Arg}
      (e : convert sc d args = .ok (some (bytes, args')))
      (h : ∀ rest, expand (0x25#8 :: d :: rest) args = .cons bytes (expand rest args'))
  | verbatim (e : convert sc d args = .ok none)
      (h : ∀ rest, expand (0x25#8 :: d :: rest) args = ⟨0x25#8 :: d :: rest, true⟩)
  | missing (e : convert sc d args = .error .argument)
      (h : ∀ rest, expand (0x25#8 :: d :: rest) args = ⟨[], false⟩)

theorem converts_s (sc : Scratch) (s : Option CString) (args : List Arg) :
    convert sc 0x73#8 (.str s :: args) = .ok (some (stringText s, args)) := by
  obtain ⟨h₁, h₂⟩ := readString_ok (s.getD nullString).stringAt (s.getD nullString).fits
  simp only [convert, takeStr, ok_bind, h₁, h₂]
  rfl

theorem converts_x (sc : Scratch) (v : BitVec 32) (args : List Arg) :
    convert sc 0x78#8 (.uint v :: args) = .ok (some (u32ToHex v.toNat, args)) := by
  obtain ⟨hex, e, h⟩ := u32ToHexInto_ok sc.hex v.toNat
  have hread : readBytes hex.get 10 = .ok (u32ToHex v.toNat) := readBytes_ok h.bytes
  simp only [convert, takeUint, ok_bind, e, hread]
  rfl

theorem converts_u (sc : Scratch) (v : BitVec 32) (args : List Arg) :
    convert sc 0x75#8 (.uint v :: args) = .ok (some (decimal v.toNat, args)) := by
  obtain ⟨dec, e, h⟩ := u32ToStr_ok sc.tmp sc.dec v.isLt
  have hlen := decimal_length v.isLt
  obtain ⟨h₁, h₂⟩ := readString_ok h (by omega)
  simp only [convert, takeUint, ok_bind, e, h₁, h₂]
  rfl

theorem converts (sc : Scratch) {d : Byte} (hd : d ≠ 0x25#8) (args : List Arg) :
    Converts sc d args := by
  by_cases hc : d = 0x63#8
  · subst hc
    match args with
    | .int v :: args => exact .bytes rfl fun rest => by simp [expand]
    | .str _ :: _ | .uint _ :: _ | [] => exact .missing rfl fun rest => by simp [expand]
  by_cases hs : d = 0x73#8
  · subst hs
    match args with
    | .str s :: args => exact .bytes (converts_s sc s args) fun rest => by simp [expand]
    | .int _ :: _ | .uint _ :: _ | [] => exact .missing rfl fun rest => by simp [expand]
  by_cases hx : d = 0x78#8
  · subst hx
    match args with
    | .uint v :: args => exact .bytes (converts_x sc v args) fun rest => by simp [expand]
    | .int _ :: _ | .str _ :: _ | [] => exact .missing rfl fun rest => by simp [expand]
  by_cases hu : d = 0x75#8
  · subst hu
    match args with
    | .uint v :: args => exact .bytes (converts_u sc v args) fun rest => by simp [expand]
    | .int _ :: _ | .str _ :: _ | [] => exact .missing rfl fun rest => by simp [expand]
  exact .verbatim (by simp [convert, hc, hs, hx, hu]; rfl) fun rest => by
    simp [expand, hd, hc, hs, hx, hu]

end

/-! ## 5. The loop -/

/-- What is left of a format was printed: all of it, or as much as `INT_MAX` allows. -/
structure Prints (written : Nat) (sent : List Byte) (e : Expansion)
    (r : Except Undefined (Int × List Byte)) : Prop where
  all : e.complete = true → written + e.text.length ≤ 0x7fffffff →
    r = .ok ((written + e.text.length : Nat), sent ++ e.text)
  cut : 0x7fffffff < written + e.text.length →
    ∃ p, r = .ok (-1, sent ++ p) ∧ p <+: e.text ∧ written + p.length ≤ 0x7fffffff

/-- One piece, if there is room for it, and the rest. -/
theorem Prints.cons {written : Nat} {sent bytes : List Byte} {e : Expansion}
    {r : Except Undefined (Int × List Byte)} (hw : written ≤ 0x7fffffff)
    (h : written + bytes.length ≤ 0x7fffffff → Prints (written + bytes.length) (sent ++ bytes) e r) :
    Prints written sent (.cons bytes e)
      (if 0x7fffffff - written < bytes.length then .ok (-1, sent) else r) := by
  have hlen : (Expansion.cons bytes e).text.length = bytes.length + e.text.length :=
    List.length_append
  have htext : sent ++ (Expansion.cons bytes e).text = (sent ++ bytes) ++ e.text :=
    (List.append_assoc ..).symm
  constructor
  · intro hc hle
    rw [hlen] at hle ⊢
    rw [if_neg (by omega), (h (by omega)).all hc (by omega), htext, Nat.add_assoc]
  · intro hgt
    rw [hlen] at hgt
    by_cases hroom : 0x7fffffff - written < bytes.length
    · exact ⟨[], by rw [if_pos hroom, List.append_nil], List.nil_prefix, by simpa using hw⟩
    · obtain ⟨p, er, hp, hle⟩ := (h (by omega)).cut (by omega)
      refine ⟨bytes ++ p, ?_, (List.prefix_append_right_inj bytes).mpr hp, ?_⟩
      · rw [if_neg hroom, er, List.append_assoc]
      · rw [List.length_append]
        omega

/-- With this fuel the loop prints what the format means from any byte behind `pos` on. -/
def PrintsBehind (sc : Scratch) (format : CString) (fuel pos : Nat) : Prop :=
  ∀ pos' written args sent, pos < pos' → pos' ≤ format.bytes.length → written ≤ 0x7fffffff →
    Prints written sent (expand (format.bytes.drop pos') args)
      (printkLoop sc format fuel pos' written args sent)

section

variable {sc : Scratch} {format : CString} {fuel pos written : Nat} {args : List Arg}
  {sent : List Byte}

/-- A literal run from `start` on is printed as one piece. -/
theorem PrintsBehind.run (hnext : PrintsBehind sc format fuel pos) (hw : written ≤ 0x7fffffff)
    {start : Nat} {a : Byte} {tail : List Byte} (hstart : format.bytes.drop start = a :: tail)
    (hge : pos ≤ start) :
    Prints written sent (.cons [a] (expand tail args)) (do
      let amount ← scanLiteral (fun i => format.get (start + i)) (2 ^ 32) 1
      if 0x7fffffff - written < amount then return (-1, sent)
      else do
        let bytes ← readBytes (fun i => format.get (start + i)) amount
        printkLoop sc format fuel (start + amount) (written + amount) args (sent ++ bytes)) := by
  have hfits := format.fits
  have hlen := congrArg List.length hstart
  rw [List.length_drop, List.length_cons] at hlen
  have hat := format.stringAt.drop (show start ≤ format.bytes.length by omega)
  rw [hstart] at hat
  obtain ⟨run, rest, rfl, hne, e₁, e₂⟩ := literal_ok hat (by rw [List.length_cons]; omega)
  rw [List.length_append] at hlen
  have hcount : (a :: run).length = run.length + 1 := List.length_cons
  have hrest : format.bytes.drop (start + (a :: run).length) = rest := by
    rw [← List.drop_drop, hstart, ← List.cons_append, List.drop_left]
  rw [e₁, ok_bind, e₂, expand_run hne, Expansion.cons_cons, ← hrest]
  exact Prints.cons hw fun hroom => hnext _ _ args _ (by omega) (by omega) hroom

/-- The rest of the format is printed as it stands. -/
theorem PrintsBehind.verbatim (hnext : PrintsBehind sc format fuel pos)
    (hw : written ≤ 0x7fffffff) (hlt : pos < format.bytes.length) :
    Prints written sent ⟨format.bytes.drop pos, true⟩ (do
      let len ← strlen (fun i => format.get (pos + i))
      if 0x7fffffff - written < len then return (-1, sent)
      else do
        let bytes ← readBytes (fun i => format.get (pos + i)) len
        printkLoop sc format fuel (pos + len) (written + len) args (sent ++ bytes)) := by
  have hfits := format.fits
  have hlen : (format.bytes.drop pos).length = format.bytes.length - pos := List.length_drop
  obtain ⟨e₁, e₂⟩ := readString_ok (format.stringAt.drop hlt.le) (by omega)
  have hrest : format.bytes.drop (pos + (format.bytes.drop pos).length) = [] :=
    List.drop_of_length_le (by omega)
  have hcons : (⟨format.bytes.drop pos, true⟩ : Expansion) =
      .cons (format.bytes.drop pos) (expand [] args) := by simp [Expansion.cons, expand]
  rw [e₁, ok_bind, e₂, hcons, ← hrest]
  exact Prints.cons hw fun hroom => hnext _ _ args _ (by omega) (by omega) hroom

end

/-- **The loop prints what the rest of the format means.** -/
theorem printkLoop_prints (sc : Scratch) (format : CString) {fuel : Nat} (pos written : Nat)
    (args : List Arg) (sent : List Byte) (hpos : pos ≤ format.bytes.length)
    (hfuel : format.bytes.length < fuel + pos) (hw : written ≤ 0x7fffffff) :
    Prints written sent (expand (format.bytes.drop pos) args)
      (printkLoop sc format fuel pos written args sent) := by
  induction fuel generalizing pos written args sent with
  | zero => omega
  | succ fuel ih =>
    have hnext : PrintsBehind sc format fuel pos := fun pos' written args sent h1 h2 h3 =>
      ih pos' written args sent h2 (by omega) h3
    have hs := format.stringAt
    unfold printkLoop
    rcases Nat.lt_or_eq_of_le hpos with hlt | rfl
    · have hc := List.getElem?_eq_getElem hlt
      have hdrop := List.drop_eq_getElem_cons hlt
      rw [hs.get_byte hc, ok_bind, if_neg (hs.byte_ne hc)]
      generalize format.bytes[pos] = c at hc hdrop
      by_cases hp : c = 0x25#8
      · subst hp
        simp only [ne_eq, not_true_eq_false, if_false, if_true, false_or]
        rcases Nat.lt_or_eq_of_le (Nat.succ_le_of_lt hlt) with hlt' | hend
        · have hd := List.getElem?_eq_getElem hlt'
          have hdrop' := List.drop_eq_getElem_cons hlt'
          rw [hs.get_byte hd, ok_bind]
          generalize format.bytes[pos + 1] = d at hd hdrop'
          by_cases hpp : d = 0x25#8
          · subst hpp
            rw [hdrop, hdrop', expand_percent]
            exact hnext.run hw hdrop' (Nat.le_succ _)
          · simp only [pure_bind, decide_eq_true_eq, hpp, if_false, ok_bind]
            rcases converts sc hpp args with ⟨e, h⟩ | ⟨e, h⟩ | ⟨e, h⟩
            · rw [hdrop, hdrop', h, e, ok_bind]
              exact Prints.cons hw fun hroom => hnext _ _ _ _ (by omega) (by omega) hroom
            · rw [e, ok_bind]
              rw [hdrop, hdrop', h, ← hdrop', ← hdrop]
              exact hnext.verbatim hw hlt
            · rw [hdrop, hdrop', h, e]
              exact ⟨fun hc => (by cases hc), fun hgt => (by simp at hgt; omega)⟩
        · -- a lone `%` at the end
          have hnul : format.get (pos + 1) = .ok 0 := by
            rw [show pos + 1 = format.bytes.length from hend]
            exact hs.nul
          have hlast : format.bytes.drop (pos + 1) = [] := List.drop_of_length_le (by omega)
          have hexp : expand (format.bytes.drop pos) args = ⟨format.bytes.drop pos, true⟩ := by
            rw [hdrop, hlast]
            rfl
          rw [hexp, hnul, ok_bind]
          exact hnext.verbatim hw hlt
      · rw [hdrop, expand_literal hp]
        simp only [ne_eq, hp, not_false_eq_true, if_true, ok_bind, true_or, if_false]
        exact hnext.run hw hdrop (Nat.le_refl _)
    · rw [hs.nul, ok_bind, if_pos rfl, List.drop_length]
      exact ⟨fun _ _ => by simp [expand]; rfl, fun hgt => by simp [expand] at hgt; omega⟩

theorem printk_prints (sc : Scratch) (format : CString) (args : List Arg) :
    Prints 0 [] (expand format.bytes args) (printk sc format args) := by
  have h := printkLoop_prints sc format 0 0 args [] (Nat.zero_le _) (Nat.lt_succ_self _)
    (Nat.zero_le _)
  rwa [List.drop_zero] at h

/-- **`printk` IMPLEMENTS ITS FORMAT LANGUAGE.** Whatever its local arrays held: if every
    conversion of the format finds its argument and the text is at most `INT_MAX` bytes long, it
    sends that text and returns its length; if the text is longer, it returns -1 after a part of it
    of at most `INT_MAX` bytes. It reads no byte behind the format's terminator. -/
theorem printk_expands (sc : Scratch) (format : CString) (args : List Arg) :
    ((expand format.bytes args).complete = true →
      (expand format.bytes args).text.length ≤ 0x7fffffff →
      printk sc format args = .ok (((expand format.bytes args).text.length : Nat),
        (expand format.bytes args).text)) ∧
    (0x7fffffff < (expand format.bytes args).text.length →
      ∃ sent, printk sc format args = .ok (-1, sent) ∧ sent <+: (expand format.bytes args).text ∧
        sent.length ≤ 0x7fffffff) := by
  have h := printk_prints sc format args
  refine ⟨fun hc hle => ?_, fun hgt => ?_⟩
  · have := h.all hc (by rwa [Nat.zero_add])
    rwa [Nat.zero_add, List.nil_append] at this
  · obtain ⟨p, e, hp, hle⟩ := h.cut (by rwa [Nat.zero_add])
    exact ⟨p, e, hp, by rwa [Nat.zero_add] at hle⟩

/-- A format whose last `%` stands alone. -/
theorem printk_expands_percent :
    printk ⟨⟨fun _ => 0⟩, ⟨fun _ => 0⟩, ⟨fun _ => 0⟩⟩ ⟨ascii "%%%c%s%", by decide, by decide⟩
      [.int 0x161, .str none] = .ok (9, ascii "%a(null)%") :=
  (printk_expands _ _ _).1 (by decide) (by decide)

end Emyx
