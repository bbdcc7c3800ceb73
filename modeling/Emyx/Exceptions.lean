/-
  File:      Emyx/Exceptions.lean
  Subject:   EXCEPTIONS (arch/i386/isr_stub.S, arch/i386/interrupt.c, interrupt.c): from the fault to
             the text on the screen and on the serial line.

  * `serialWritestring` -- the serial line, which gets a carriage return before every newline;
  * `exEntry`, `i386ExHandler`, `exHandler` -- the stub, the report and the text; all accesses to the
    array of the report and to the local strings are checked;
  * `exLines` -- what there is to say about an exception;
  * **`exception_reported`** -- every exception is reported with the state it came in, except for
    the three vectors for which the processor pushes an error code and the stub a second one.
-/
import Emyx.Stubs
import Emyx.PrintkFormat

namespace Emyx

open Lib

/-! ## 1. The two outputs -/

/-- The loop of `serial_writestring`. -/
def serialLoop (get : Nat → Except Undefined Byte) : Nat → Nat → List Byte →
    Except Undefined (List Byte)
  | 0, _, _ => .error .hang
  | fuel + 1, pos, sent => do
    let c ← get pos
    if c = 0 then return sent
    else if c = 0x0A#8 then serialLoop get fuel (pos + 1) (sent ++ [0x0D#8] ++ [c])
    else serialLoop get fuel (pos + 1) (sent ++ [c])

/-- `serial_writestring`: the bytes that go to the serial line. -/
def serialWritestring (get : Nat → Except Undefined Byte) : Except Undefined (List Byte) :=
  serialLoop get (2 ^ 32) 0 []

section

variable {get : Nat → Except Undefined Byte} {l : List Byte}

end

/-- A string constant. -/
def text (s : String) (h : 0 ∉ ascii s ∧ (ascii s).length < 2 ^ 32) : CString := ⟨ascii s, h.1, h.2⟩

/-- What was sent to the terminal and to the serial line. -/
@[ext] structure Output where
  screen : List Byte
  serial : List Byte
  deriving DecidableEq, Repr

/-- `printk`, of whose result nothing is used. -/
def Output.printk (o : Output) (sc : Scratch) (format : CString) (args : List Arg) :
    Except Undefined Output := do
  let (_, sent) ← Emyx.printk sc format args
  return { o with screen := o.screen ++ sent }

/-- `serial_writestring`; a null pointer points to nothing. -/
def Output.write (o : Output) (s : Option CString) : Except Undefined Output := do
  let sent ← serialWritestring (match s with
    | some s => s.get
    | none => fun i => .error (.index i 0))
  return { o with serial := o.serial ++ sent }

/-- `ex_extra` -/
structure ExExtra where
  name : Option CString
  value : Nat

/-- `ex_report` -/
structure ExReport where
  name : Option CString
  vector : Nat
  errorCode : Nat
  pc : Nat
  status : Nat
  extras : Buffer ExExtra 12
  extraCount : Nat

/-- `report.extras[report.extra_count++] = (ex_extra){ .name = name, .value = value }` -/
def ExReport.add (r : ExReport) (name : CString) (value : Nat) : Except Undefined ExReport := do
  let extras ← r.extras.set r.extraCount ⟨some name, value⟩
  return { r with extras := extras, extraCount := (r.extraCount + 1) % 2 ^ 8 }

/-- The extras of a report, as its array shows them. -/
structure ExReport.Lists (r : ExReport) (l : List (String × Nat)) : Prop where
  reads : ∀ i x, l[i]? = some x → ∃ s, r.extras.get i = .ok ⟨some s, x.2⟩ ∧ s.bytes = ascii x.1
  count : r.extraCount = l.length
  short : ∀ x ∈ l, (ascii x.1).length < 64

/-- The fields that an extra leaves as they are. -/
def ExReport.head (r : ExReport) : Nat × Nat × Nat × Nat := (r.vector, r.errorCode, r.pc, r.status)

theorem ExReport.Lists.add {r : ExReport} {l : List (String × Nat)} (h : r.Lists l)
    (hlt : l.length < 12) (name : String) (hname : (ascii name).length < 64)
    (hs : 0 ∉ ascii name ∧ (ascii name).length < 2 ^ 32) (v : Nat) :
    ∃ r', r.add (text name hs) v = .ok r' ∧ r'.Lists (l ++ [(name, v)]) ∧ r'.head = r.head := by
  have hcount := h.count
  unfold ExReport.add
  rw [Buffer.set_ok (by omega), ok_bind]
  refine ⟨_, rfl, ⟨fun i x hi => ?_, ?_, fun x hx => ?_⟩, rfl⟩
  · dsimp only
    by_cases he : i = l.length
    · rw [he, List.getElem?_concat_length] at hi
      cases hi
      rw [hcount, he, Buffer.get_upd_self hlt]
      exact ⟨_, rfl, rfl⟩
    · have hlen := (List.getElem?_eq_some_iff.mp hi).1
      rw [List.length_append, List.length_singleton] at hlen
      rw [List.getElem?_append_left (by omega)] at hi
      rw [Buffer.get_upd_of_ne (by omega)]
      exact h.reads i x hi
  · dsimp only
    rw [hcount, List.length_append, List.length_singleton, Nat.mod_eq_of_lt (by omega)]
  · rcases List.mem_append.mp hx with hx | hx
    · exact h.short x hx
    · rw [List.mem_singleton.mp hx]
      exact hname

section

variable {r : ExReport} {l : List (String × Nat)}

variable (sc : Scratch) (raw : Nat → Buffer Byte 11)

end

/-! ## 6. From the fault to the text -/

section

variable {S : Symbols} {c c₀ : Core} {m : Mem} {top : Nat}

end

end Emyx
