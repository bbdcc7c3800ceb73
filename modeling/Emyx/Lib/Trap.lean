/-
  File:      Emyx/Lib/Trap.lean
  Subject:   INTERRUPTS OF AN i386 IN PROTECTED MODE. Nothing here is about one program.

  The registers that an interrupt touches, memory, and the tables the processor reads: segment
  descriptors, gates, and the stack that the task state segment keeps for ring 0. There is one
  address space and no virtual-8086 mode; the local descriptor table, task gates and the reserved
  bits of a descriptor are left out.

  * `readSegment`, `readGate` -- what the processor makes of the eight bytes of a descriptor;
  * `Core.deliver` -- an interrupt, an exception or an `int n`: the checks, the change of stack, the
    words pushed; `Core.iret` -- the way back;
  * `Core.pusha`, `Core.popa`, `Core.pushAll` -- rows of pushes and pops;
  * `Entered`, `Core.deliver_outer`, `Core.deliver_inner` -- what an interrupt through a good gate
    leaves; `Core.iret_outer`, `Core.iret_inner` -- **`iret` undoes it**.
-/
import Emyx.Lib.Cpu
import Emyx.Lib.Outcome

namespace Emyx.Lib

/-! ## 1. The processor -/

inductive CoreReg where
  | eax | ecx | edx | ebx | esp | ebp | esi | edi | eip | eflags | cs | ss
  | ds | es | fs | gs
  deriving DecidableEq, Repr

structure Core where
  regs : CoreReg → Nat
  isWord : ∀ r, regs r < 2 ^ 32
  mem : Mem

@[ext] theorem Core.ext {c c' : Core} (hregs : ∀ r, c.regs r = c'.regs r) (hmem : c.mem = c'.mem) :
    c = c' := by
  cases c
  cases c'
  cases hmem
  cases funext hregs
  rfl

def Core.set (c : Core) (r : CoreReg) (v : Nat) : Core :=
  { c with regs := Function.update c.regs r (v % 2 ^ 32)
           isWord := fun r' => by
             by_cases e : r' = r
             · rw [e, Function.update_self]
               exact Nat.mod_lt _ (by decide)
             · rw [Function.update_of_ne e]
               exact c.isWord r' }

/-- The current privilege level. -/
def Core.cpl (c : Core) : Nat := c.regs .cs % 4

/-- The stack grows downwards. -/
def Core.push (c : Core) (v : Nat) : Core :=
  let sp := (c.regs .esp + (2 ^ 32 - 4)) % 2 ^ 32
  { c.set .esp sp with mem := wr32 c.mem sp v }

def Core.pushAll (c : Core) (vs : List Nat) : Core := vs.foldl Core.push c

/-- The word `i` of the stack. -/
def Core.stack (c : Core) (i : Nat) : Nat := rd32 c.mem ((c.regs .esp + 4 * i) % 2 ^ 32)

/-- The general registers, in the order `pusha` pushes them. -/
def generalRegs : List CoreReg := [.eax, .ecx, .edx, .ebx, .esp, .ebp, .esi, .edi]

def dataRegs : List CoreReg := [.ds, .es, .fs, .gs]

/-- `pusha`: the stack pointer is pushed as it was before. -/
def Core.pusha (c : Core) : Core := c.pushAll (generalRegs.map c.regs)

/-- `popa`: the stack pointer on the stack is skipped. -/
def Core.popa (c : Core) : Core :=
  (((((((c.set .edi (c.stack 0)).set .esi (c.stack 1)).set .ebp (c.stack 2)).set .ebx
    (c.stack 4)).set .edx (c.stack 5)).set .ecx (c.stack 6)).set .eax (c.stack 7)).set .esp
      (c.regs .esp + 32)

variable {c : Core}

@[simp] theorem Core.mem_set (r : CoreReg) (v : Nat) : (c.set r v).mem = c.mem := rfl

@[simp] theorem Core.regs_set (r r' : CoreReg) (v : Nat) :
    (c.set r v).regs r' = if r' = r then v % 2 ^ 32 else c.regs r' := by
  simp [Core.set, Function.update_apply]

theorem Core.regs_set_word {v : Nat} (hv : v < 2 ^ 32) (r r' : CoreReg) :
    (c.set r v).regs r' = if r' = r then v else c.regs r' := by
  rw [Core.regs_set, Nat.mod_eq_of_lt hv]

theorem Core.regs_push {v : Nat} (h : 4 ≤ c.regs .esp) (r : CoreReg) :
    (c.push v).regs r = if r = .esp then c.regs .esp - 4 else c.regs r := by
  have hw := c.isWord .esp
  have he : (c.regs .esp + (2 ^ 32 - 4)) % 2 ^ 32 = c.regs .esp - 4 := by omega
  simp only [Core.push, he, Core.regs_set]
  rw [Nat.mod_eq_of_lt (by omega)]

theorem Core.mem_push {v : Nat} (h : 4 ≤ c.regs .esp) :
    (c.push v).mem = wr32 c.mem (c.regs .esp - 4) v := by
  have hw := c.isWord .esp
  have he : (c.regs .esp + (2 ^ 32 - 4)) % 2 ^ 32 = c.regs .esp - 4 := by omega
  simp only [Core.push, he]

-- the wrapped stack pointer is never to be computed with: the lemmas above say what it is
attribute [irreducible] Core.set Core.push

/-- **A row of pushes**, where the stack has room. -/
theorem Core.pushAll_room (vs : List Nat) (h : 4 * vs.length ≤ c.regs .esp) :
    (c.pushAll vs).mem = pushWords c.mem (c.regs .esp) vs ∧
    ∀ r, (c.pushAll vs).regs r =
      if r = .esp then c.regs .esp - 4 * vs.length else c.regs r := by
  induction vs generalizing c with
  | nil =>
    refine ⟨rfl, fun r => ?_⟩
    by_cases hr : r = .esp
    · rw [if_pos hr, hr]
      rfl
    · rw [if_neg hr]
      rfl
  | cons v vs ih =>
    rw [List.length_cons] at h
    have hsp : (c.push v).regs .esp = c.regs .esp - 4 :=
      (Core.regs_push (by omega) .esp).trans (if_pos rfl)
    obtain ⟨hm, hr⟩ := ih (c := c.push v) (by omega)
    refine ⟨?_, fun r => ?_⟩
    · rw [show c.pushAll (v :: vs) = (c.push v).pushAll vs from rfl, hm, hsp,
        Core.mem_push (by omega), pushWords]
    · rw [show c.pushAll (v :: vs) = (c.push v).pushAll vs from rfl, hr, hsp,
        Core.regs_push (by omega), List.length_cons]
      by_cases he : r = .esp
      · rw [if_pos he, if_pos he]
        omega
      · rw [if_neg he, if_neg he, if_neg he]

/-- A word of the stack below the end of memory. -/
theorem Core.stack_eq {i : Nat} (h : c.regs .esp + 4 * i < 2 ^ 32) :
    c.stack i = rd32 c.mem (c.regs .esp + 4 * i) := by
  unfold Core.stack
  rw [Nat.mod_eq_of_lt h]

/-! ## 2. Descriptors -/

/-- What a segment descriptor says. `kind` is the type with the bit that tells code and data from
    system segments, `flags` are granularity, size and the two bits beside them. -/
structure SegDesc where
  base : Nat
  limit : Nat
  kind : Nat
  dpl : Nat
  present : Bool
  flags : Nat
  deriving DecidableEq, Repr

/-- What a gate says. -/
structure GateDesc where
  offset : Nat
  selector : Nat
  kind : Nat
  dpl : Nat
  present : Bool
  deriving DecidableEq, Repr

/-- The two words of a segment descriptor. -/
def segmentOf (lo hi : Nat) : SegDesc :=
  { base := lo / 2 ^ 16 + hi % 2 ^ 8 * 2 ^ 16 + hi / 2 ^ 24 * 2 ^ 24
    limit := lo % 2 ^ 16 + hi / 2 ^ 16 % 2 ^ 4 * 2 ^ 16
    kind := hi / 2 ^ 8 % 2 ^ 5
    dpl := hi / 2 ^ 13 % 2 ^ 2
    present := (hi / 2 ^ 15 % 2 == 1)
    flags := hi / 2 ^ 20 % 2 ^ 4 }

def readSegment (m : Mem) (a : Nat) : SegDesc := segmentOf (rd32 m a) (rd32 m (a + 4))

/-- The two words of a gate. -/
def gateOf (lo hi : Nat) : GateDesc :=
  { offset := lo % 2 ^ 16 + hi / 2 ^ 16 * 2 ^ 16
    selector := lo / 2 ^ 16
    kind := hi / 2 ^ 8 % 2 ^ 5
    dpl := hi / 2 ^ 13 % 2 ^ 2
    present := (hi / 2 ^ 15 % 2 == 1) }

def readGate (m : Mem) (a : Nat) : GateDesc := gateOf (rd32 m a) (rd32 m (a + 4))

/-- `ltr` marks the descriptor of the task state segment as busy. -/
def ltr (m : Mem) (a : Nat) : Mem := wr8 m (a + 5) (m (a + 5) ||| 2)

/-- A code segment that is entered at its own level. -/
def SegDesc.isCode (s : SegDesc) : Bool := 24 ≤ s.kind && s.kind / 4 % 2 == 0

/-- A data segment that can be written. -/
def SegDesc.isStack (s : SegDesc) : Bool := 16 ≤ s.kind && s.kind < 24 && s.kind / 2 % 2 == 1

/-- A code segment that is entered at the level of its caller. -/
def SegDesc.isConforming (s : SegDesc) : Bool := 24 ≤ s.kind && s.kind / 4 % 2 == 1

/-- Where the processor finds its tables. -/
structure Tables where
  gdtBase : Nat
  gdtLimit : Nat
  idtBase : Nat
  idtLimit : Nat
  /-- the task state segment -/
  tss : Nat

/-- An exception that comes instead. -/
structure Fault where
  vector : Nat
  errorCode : Nat
  deriving DecidableEq, Repr

/-- The descriptor behind a selector. -/
def Tables.segment (T : Tables) (m : Mem) (selector : Nat) : Except Fault SegDesc :=
  if selector / 4 = 0 then .error ⟨13, 0⟩
  else if selector / 4 % 2 = 1 ∨ T.gdtLimit < selector / 8 * 8 + 7 then
    .error ⟨13, selector / 4 * 4⟩
  else .ok (readSegment m (T.gdtBase + selector / 8 * 8))

/-! ## 3. Interrupts -/

/-- The gate for vector `n`, which `int n` may use only if its level allows. -/
def Tables.gate (T : Tables) (c : Core) (n : Nat) (int : Bool) : Except Fault GateDesc :=
  if T.idtLimit < 8 * n + 7 then .error ⟨13, 8 * n + 2⟩
  else
    let g := readGate c.mem (T.idtBase + 8 * n)
    if g.kind ≠ 14 ∧ g.kind ≠ 15 then .error ⟨13, 8 * n + 2⟩
    else if int = true ∧ g.dpl < c.cpl then .error ⟨13, 8 * n + 2⟩
    else if g.present = false then .error ⟨11, 8 * n + 2⟩
    else .ok g

/-- The level the handler runs at. -/
def Tables.level (T : Tables) (c : Core) (g : GateDesc) : Except Fault Nat := do
  let s ← T.segment c.mem g.selector
  if s.isCode = false ∨ c.cpl < s.dpl then .error ⟨13, g.selector / 4 * 4⟩
  else if s.present = false then .error ⟨11, g.selector / 4 * 4⟩
  else .ok s.dpl

/-- The stack for ring 0. -/
def Tables.stack0 (T : Tables) (c : Core) : Except Fault (Nat × Nat) := do
  let esp := rd32 c.mem (T.tss + 4)
  let ss := rd32 c.mem (T.tss + 8) % 2 ^ 16
  let s ← T.segment c.mem ss
  if s.isStack = false ∨ s.dpl ≠ 0 ∨ ss % 4 ≠ 0 ∨ s.present = false then
    .error ⟨10, ss / 4 * 4⟩
  else .ok (ss, esp)

/-- The flags that every interrupt clears (trap, nested task, resume, virtual-8086), and with them
    the interrupt flag if the gate is an interrupt gate. -/
def entryFlags (kind flags : Nat) : Nat :=
  if kind = 14 then flags &&& 0xFFFCBCFF else flags &&& 0xFFFCBEFF

/-- The words that come first on a new stack. -/
def Core.outer (c : Core) : List Nat := [c.regs .ss, c.regs .esp]

/-- The words that come first on the stack in any case. -/
def Core.inner (c : Core) : List Nat := [c.regs .eflags, c.regs .cs, c.regs .eip]

/-- **Vector `n` comes**, as the instruction `int n` or from outside, with the error code `err` if
    it has one. -/
def Core.deliver (T : Tables) (c : Core) (n : Nat) (int : Bool) (err : List Nat) :
    Except Fault Core := do
  let g ← T.gate c n int
  let level ← T.level c g
  let c₁ ←
    if level < c.cpl then do
      let (ss, esp) ← T.stack0 c
      pure (((c.set .ss ss).set .esp esp).pushAll (c.outer ++ c.inner ++ err))
    else pure (c.pushAll (c.inner ++ err))
  return ((c₁.set .eip g.offset).set .cs (g.selector / 4 * 4 + level)).set .eflags
    (entryFlags g.kind (c.regs .eflags))

/-- The code segment that `iret` returns to. -/
def Tables.returnLevel (T : Tables) (c : Core) (cs : Nat) : Except Fault Unit := do
  let s ← T.segment c.mem cs
  if s.isCode = false ∨ s.dpl ≠ cs % 4 ∨ cs % 4 < c.cpl then .error ⟨13, cs / 4 * 4⟩
  else if s.present = false then .error ⟨11, cs / 4 * 4⟩
  else .ok ()

/-- The stack that `iret` returns to, at an outer level. -/
def Tables.returnStack (T : Tables) (c : Core) (cs ss : Nat) : Except Fault Unit := do
  let s ← T.segment c.mem ss
  if s.isStack = false ∨ s.dpl ≠ cs % 4 ∨ ss % 4 ≠ cs % 4 then .error ⟨13, ss / 4 * 4⟩
  else if s.present = false then .error ⟨12, ss / 4 * 4⟩
  else .ok ()

/-- The selector of a data segment after a return to ring `cpl`: one of an inner ring is dropped. The
    descriptor, which the processor keeps from the time it was loaded, is read from the table. -/
def Tables.keepData (T : Tables) (m : Mem) (cpl selector : Nat) : Nat :=
  match T.segment m selector with
  | .ok s => if s.dpl < cpl ∧ s.isConforming = false then 0 else selector
  | .error _ => 0

def Tables.dropData (T : Tables) (cpl : Nat) (c : Core) : Core :=
  dataRegs.foldl (fun d r => d.set r (T.keepData c.mem cpl (c.regs r))) c

/-- `iret` in ring 0. A return to another task (the nested-task flag) finds none. -/
def Core.iret (T : Tables) (c : Core) : Except Fault Core := do
  if (c.regs .eflags).testBit 14 then .error ⟨10, 0⟩
  else
    let cs := c.stack 1 % 2 ^ 16
    T.returnLevel c cs
    let c₁ := ((c.set .eip (c.stack 0)).set .cs cs).set .eflags (c.stack 2)
    if cs % 4 = c.cpl then return c₁.set .esp (c.regs .esp + 12)
    else
      let ss := c.stack 4 % 2 ^ 16
      T.returnStack c cs ss
      return T.dropData (cs % 4) ((c₁.set .esp (c.stack 3)).set .ss ss)

/-- Loading the data segment register `r`: data, or code that can be read, of this ring or an outer
    one; a null selector can always be loaded. -/
def Tables.loadData (T : Tables) (c : Core) (r : CoreReg) (selector : Nat) : Except Fault Core :=
  if selector / 4 = 0 then .ok (c.set r selector)
  else do
    let s ← T.segment c.mem selector
    if s.kind < 16 ∨ (24 ≤ s.kind ∧ s.kind / 2 % 2 = 0) ∨
        (s.isConforming = false ∧ (s.dpl < selector % 4 ∨ s.dpl < c.cpl)) then
      .error ⟨13, selector / 4 * 4⟩
    else if s.present = false then .error ⟨11, selector / 4 * 4⟩
    else .ok (c.set r selector)

/-- A write through the data segment register `r`. -/
def Tables.store (T : Tables) (c : Core) (r : CoreReg) : Except Fault Unit := do
  let s ← T.segment c.mem (c.regs r)
  if s.isStack = false then .error ⟨13, 0⟩ else .ok ()

/-- The ring that may still use ports. -/
def Core.iopl (c : Core) : Nat := c.regs .eflags / 2 ^ 12 % 4

/-- Can `port` be used? An outer ring asks the bitmap in the task state segment `tr`, of which two
    bytes are read; what lies behind the limit of the segment forbids. -/
def Tables.portAllowed (T : Tables) (tr : SegDesc) (c : Core) (port : Nat) : Bool :=
  let i := rd32 c.mem (T.tss + 100) / 2 ^ 16 + port / 8
  decide (c.cpl ≤ c.iopl) ||
    (decide (i + 1 ≤ tr.limit) && !((c.mem (T.tss + i)).toNat.testBit (port % 8)))

/-! ## 4. What is on the stack -/

/-- The words `ws`, pushed one after the other onto a stack that was at `sp`, are there. -/
def OnStack (m : Mem) (sp : Nat) (ws : List Nat) : Prop :=
  ∀ i v, ws[i]? = some v → rd32 m (sp - 4 * (i + 1)) = v

theorem onStack_pushWords {m : Mem} {sp : Nat} {ws : List Nat} (h : 4 * ws.length ≤ sp)
    (hw : ∀ v ∈ ws, v < 2 ^ 32) : OnStack (pushWords m sp ws) sp ws := fun i v hi => by
  rw [rd32_pushWords h hi, Nat.mod_eq_of_lt (hw v (List.mem_of_getElem? hi))]

theorem OnStack.congr {m m' : Mem} {sp : Nat} {ws : List Nat} (h : OnStack m sp ws)
    (hroom : 4 * ws.length ≤ sp)
    (ha : AgreeOn (fun x => sp - 4 * ws.length ≤ x ∧ x < sp) m m') : OnStack m' sp ws := by
  intro i v hi
  have hlt := (List.getElem?_eq_some_iff.mp hi).1
  rw [← h i v hi]
  exact ha.rd32 fun j hj => ⟨by omega, by omega⟩

theorem OnStack.left {m : Mem} {sp : Nat} {ws vs : List Nat} (h : OnStack m sp (ws ++ vs)) :
    OnStack m sp ws := fun i v hi => h i v (by
  rw [List.getElem?_append_left (List.getElem?_eq_some_iff.mp hi).1]
  exact hi)

/-- The words from the last one pushed up. -/
theorem OnStack.reverse {m : Mem} {sp : Nat} {ws : List Nat} (h : OnStack m sp ws)
    (hroom : 4 * ws.length ≤ sp) {j v : Nat} (hj : ws.reverse[j]? = some v) :
    rd32 m (sp - 4 * ws.length + 4 * j) = v := by
  have hlt : j < ws.length := by
    simpa using (List.getElem?_eq_some_iff.mp hj).1
  rw [List.getElem?_reverse hlt] at hj
  rw [← h _ _ hj]
  congr 1
  omega

theorem pushWords_append (m : Mem) (sp : Nat) (ws vs : List Nat) :
    pushWords m sp (ws ++ vs) = pushWords (pushWords m sp ws) (sp - 4 * ws.length) vs := by
  induction ws generalizing m sp with
  | nil => rfl
  | cons w ws ih =>
    rw [List.cons_append, pushWords, ih, pushWords, List.length_cons]
    congr 1
    omega

/-- One of the words is overwritten. -/
theorem OnStack.set {m : Mem} {sp : Nat} {ws : List Nat} (h : OnStack m sp ws)
    (hroom : 4 * ws.length ≤ sp) {i v : Nat} (hi : i < ws.length) (hv : v < 2 ^ 32) :
    OnStack (wr32 m (sp - 4 * (i + 1)) v) sp (ws.set i v) := fun j x hj => by
  have hlt : j < ws.length := by
    simpa using (List.getElem?_eq_some_iff.mp hj).1
  by_cases hji : j = i
  · subst hji
    rw [List.getElem?_set_self hlt] at hj
    cases hj
    rw [rd32_wr32, Nat.mod_eq_of_lt hv]
  · rw [List.getElem?_set_ne (Ne.symm hji)] at hj
    rw [rd32_wr32_outside (by omega)]
    exact h j x hj

/-- **`popa` takes what `pusha` left**, but for the stack pointer. -/
theorem Core.popa_regs {d : Core} {sp : Nat} {ws : List Nat} {gen : CoreReg → Nat}
    (hf : OnStack d.mem sp (ws ++ generalRegs.map gen))
    (hesp : d.regs .esp + 4 * (ws.length + 8) = sp) (hsp : sp < 2 ^ 32) :
    d.popa.mem = d.mem ∧ d.popa.regs .esp = d.regs .esp + 32 ∧
    ∀ r, r ≠ .esp → d.popa.regs r = if r ∈ generalRegs then gen r else d.regs r := by
  have hword : ∀ k r, k < 8 → generalRegs[7 - k]? = some r → d.stack k = gen r := by
    intro k r hk hr
    have hget : (ws ++ generalRegs.map gen)[ws.length + (7 - k)]? = some (gen r) := by
      rw [List.getElem?_append_right (Nat.le_add_right ..), Nat.add_sub_cancel_left,
        List.getElem?_map, hr]
      rfl
    rw [Core.stack_eq (by omega), ← hf _ _ hget]
    congr 1
    omega
  have hlt : ∀ k r, k < 8 → generalRegs[7 - k]? = some r → gen r < 2 ^ 32 := fun k r hk hr => by
    rw [← hword k r hk hr]
    exact rd32_lt _ _
  have h32 : d.regs .esp + 32 < 2 ^ 32 := by omega
  refine ⟨?_, ?_, fun r hr => ?_⟩
  · simp only [Core.popa, Core.mem_set]
  · rw [Core.popa, Core.regs_set, if_pos rfl, Nat.mod_eq_of_lt h32]
  · rw [Core.popa, hword 0 .edi (by decide) rfl, hword 1 .esi (by decide) rfl,
      hword 2 .ebp (by decide) rfl, hword 4 .ebx (by decide) rfl, hword 5 .edx (by decide) rfl,
      hword 6 .ecx (by decide) rfl, hword 7 .eax (by decide) rfl, Core.regs_set, if_neg hr,
      Core.regs_set_word (hlt 7 .eax (by decide) rfl),
      Core.regs_set_word (hlt 6 .ecx (by decide) rfl),
      Core.regs_set_word (hlt 5 .edx (by decide) rfl),
      Core.regs_set_word (hlt 4 .ebx (by decide) rfl),
      Core.regs_set_word (hlt 2 .ebp (by decide) rfl),
      Core.regs_set_word (hlt 1 .esi (by decide) rfl),
      Core.regs_set_word (hlt 0 .edi (by decide) rfl)]
    cases r with
    | esp => exact absurd rfl hr
    | _ => rfl

/-! ## 5. There and back -/

section

variable {T : Tables} {n : Nat} {int : Bool} {g : GateDesc} {err : List Nat} {c' d : Core}

/-- The interrupted processor `c` is at the handler behind `g`, in ring 0, with the words `ws` on the
    stack `ss`, which was at `sp`. -/
structure Entered (c : Core) (g : GateDesc) (ss sp : Nat) (ws : List Nat) (c' : Core) : Prop where
  mem : c'.mem = pushWords c.mem sp ws
  esp : c'.regs .esp = sp - 4 * ws.length
  ss : c'.regs .ss = ss
  eip : c'.regs .eip = g.offset
  cs : c'.regs .cs = g.selector / 4 * 4
  flags : c'.regs .eflags = entryFlags g.kind (c.regs .eflags)
  kept : ∀ r, r ∉ [CoreReg.esp, .ss, .eip, .cs, .eflags] → c'.regs r = c.regs r

theorem entryFlags_le (kind flags : Nat) : entryFlags kind flags ≤ flags := by
  unfold entryFlags
  split_ifs
  · exact Nat.and_le_left
  · exact Nat.and_le_left

/-- The handler is entered once the words are on the stack. -/
theorem entered_of {c₁ : Core} {ss sp : Nat} {ws : List Nat}
    (hword : g.offset < 2 ^ 32 ∧ g.selector < 2 ^ 32) (hmem : c₁.mem = pushWords c.mem sp ws)
    (hesp : c₁.regs .esp = sp - 4 * ws.length) (hss : c₁.regs .ss = ss)
    (hkept : ∀ r, r ≠ .esp → r ≠ .ss → c₁.regs r = c.regs r) :
    Entered c g ss sp ws (((c₁.set .eip g.offset).set .cs (g.selector / 4 * 4 + 0)).set .eflags
      (entryFlags g.kind (c.regs .eflags))) := by
  have hflags := (entryFlags_le g.kind (c.regs .eflags)).trans_lt (c.isWord .eflags)
  have hsel : g.selector / 4 * 4 + 0 < 2 ^ 32 := by omega
  have hregs : ∀ r, (((c₁.set .eip g.offset).set .cs (g.selector / 4 * 4 + 0)).set .eflags
      (entryFlags g.kind (c.regs .eflags))).regs r =
        if r = .eflags then entryFlags g.kind (c.regs .eflags)
        else if r = .cs then g.selector / 4 * 4
        else if r = .eip then g.offset else c₁.regs r := fun r => by
    rw [Core.regs_set_word hflags, Core.regs_set_word hsel, Core.regs_set_word hword.1]
    rfl
  refine ⟨?_, ?_, ?_, ?_, ?_, ?_, fun r hr => ?_⟩
  · rw [Core.mem_set, Core.mem_set, Core.mem_set]
    exact hmem
  · rw [hregs]
    exact hesp
  · rw [hregs]
    exact hss
  · rw [hregs]
    rfl
  · rw [hregs]
    rfl
  · rw [hregs]
    rfl
  · simp only [List.mem_cons, List.not_mem_nil, or_false, not_or] at hr
    rw [hregs, if_neg hr.2.2.2.2, if_neg hr.2.2.2.1, if_neg hr.2.2.1]
    exact hkept r hr.1 hr.2.1

/-- **From an outer ring**: the stack is the one that the task state segment keeps. -/
theorem Core.deliver_outer {ss sp : Nat} (hg : T.gate c n int = .ok g) (hl : T.level c g = .ok 0)
    (hs : T.stack0 c = .ok (ss, sp)) (hcpl : 0 < c.cpl)
    (hword : g.offset < 2 ^ 32 ∧ g.selector < 2 ^ 32) (hstack : ss < 2 ^ 32 ∧ sp < 2 ^ 32)
    (hroom : 4 * (5 + err.length) ≤ sp) :
    ∃ c', c.deliver T n int err = .ok c' ∧
      Entered c g ss sp (c.outer ++ c.inner ++ err) c' := by
  have hset : ∀ r, ((c.set .ss ss).set .esp sp).regs r =
      if r = .esp then sp else if r = .ss then ss else c.regs r := fun r => by
    rw [Core.regs_set_word hstack.2, Core.regs_set_word hstack.1]
  have hlen : (c.outer ++ c.inner ++ err).length = 5 + err.length := by
    simp only [Core.outer, Core.inner, List.length_append, List.length_cons, List.length_nil]
  obtain ⟨hmem, hregs⟩ := Core.pushAll_room (c := (c.set .ss ss).set .esp sp)
    (c.outer ++ c.inner ++ err) (by rw [hlen, hset]; exact hroom)
  rw [hset] at hmem hregs
  refine ⟨_, by simp only [Core.deliver, hg, hl, hs, ok_bind, if_pos hcpl]; rfl,
    entered_of hword ?_ ?_ ?_ fun r hr hr' => ?_⟩
  · rw [hmem, Core.mem_set, Core.mem_set]
    rfl
  · rw [hregs]
    rfl
  · rw [hregs, hset]
    rfl
  · rw [hregs, if_neg hr, hset, if_neg hr, if_neg hr']

/-- **From ring 0**: the stack stays. -/
theorem Core.deliver_inner (hg : T.gate c n int = .ok g) (hl : T.level c g = .ok 0)
    (hcpl : c.cpl = 0) (hword : g.offset < 2 ^ 32 ∧ g.selector < 2 ^ 32)
    (hroom : 4 * (3 + err.length) ≤ c.regs .esp) :
    ∃ c', c.deliver T n int err = .ok c' ∧
      Entered c g (c.regs .ss) (c.regs .esp) (c.inner ++ err) c' := by
  have hlen : (c.inner ++ err).length = 3 + err.length := by
    simp only [Core.inner, List.length_append, List.length_cons, List.length_nil]
  obtain ⟨hmem, hregs⟩ := Core.pushAll_room (c := c) (c.inner ++ err)
    (by rw [hlen]; exact hroom)
  have hnot : ¬ 0 < c.cpl := by omega
  refine ⟨_, by simp only [Core.deliver, hg, hl, ok_bind, if_neg hnot]; rfl,
    entered_of hword hmem ?_ ?_ fun r hr _ => ?_⟩
  · rw [hregs]
    rfl
  · rw [hregs]
    rfl
  · rw [hregs, if_neg hr]

theorem Tables.keepData_le (T : Tables) (m : Mem) (cpl selector : Nat) :
    T.keepData m cpl selector ≤ selector := by
  unfold Tables.keepData
  split
  · split_ifs
    · exact Nat.zero_le _
    · exact Nat.le_refl _
  · exact Nat.zero_le _

theorem Tables.dropData_regs (T : Tables) (cpl : Nat) (c : Core) :
    (T.dropData cpl c).mem = c.mem ∧ ∀ r, (T.dropData cpl c).regs r =
      if r ∈ dataRegs then T.keepData c.mem cpl (c.regs r) else c.regs r := by
  have hlt : ∀ r, T.keepData c.mem cpl (c.regs r) < 2 ^ 32 := fun r =>
    (T.keepData_le ..).trans_lt (c.isWord r)
  unfold Tables.dropData dataRegs
  simp only [List.foldl_cons, List.foldl_nil, Core.mem_set, true_and]
  intro r
  rw [Core.regs_set_word (hlt .gs), Core.regs_set_word (hlt .fs), Core.regs_set_word (hlt .es),
    Core.regs_set_word (hlt .ds)]
  cases r <;> rfl

/-- **`iret` to an outer ring**: what `c` had when it was interrupted comes back. -/
theorem Core.iret_outer {sp : Nat} (hd : d.cpl = 0) (hnt : (d.regs .eflags).testBit 14 = false)
    (hesp : d.regs .esp + 20 = sp) (hsp : sp < 2 ^ 32) (hf : OnStack d.mem sp (c.outer ++ c.inner))
    (hcs : c.regs .cs < 2 ^ 16) (hss : c.regs .ss < 2 ^ 16) (hcpl : 0 < c.cpl)
    (hlevel : T.returnLevel d (c.regs .cs) = .ok ())
    (hstack : T.returnStack d (c.regs .cs) (c.regs .ss) = .ok ()) :
    ∃ d', d.iret T = .ok d' ∧ d'.mem = d.mem ∧ ∀ r, d'.regs r =
      if r ∈ [CoreReg.esp, .ss, .eip, .cs, .eflags] then c.regs r
      else if r ∈ dataRegs then T.keepData d.mem c.cpl (d.regs r) else d.regs r := by
  have hword : ∀ i v, (c.outer ++ c.inner)[4 - i]? = some v → i < 5 → d.stack i = v := by
    intro i v hv hi
    rw [Core.stack_eq (by omega), ← hf (4 - i) v hv]
    congr 1
    omega
  have h0 := hword 0 (c.regs .eip) rfl (by decide)
  have h1 := hword 1 (c.regs .cs) rfl (by decide)
  have h2 := hword 2 (c.regs .eflags) rfl (by decide)
  have h3 := hword 3 (c.regs .esp) rfl (by decide)
  have h4 := hword 4 (c.regs .ss) rfl (by decide)
  have hne : ¬ c.regs .cs % 4 = d.cpl := by
    unfold Core.cpl at hcpl
    omega
  have hrun : d.iret T = .ok (T.dropData c.cpl (((((d.set .eip (c.regs .eip)).set .cs
      (c.regs .cs)).set .eflags (c.regs .eflags)).set .esp (c.regs .esp)).set .ss (c.regs .ss))) := by
    simp only [Core.iret, hnt, h0, h1, h2, h3, h4, Nat.mod_eq_of_lt hcs, Nat.mod_eq_of_lt hss,
      hlevel, hstack, ok_bind, if_neg hne, Bool.false_eq_true, if_false]
    rfl
  obtain ⟨hmem, hregs⟩ := T.dropData_regs c.cpl (((((d.set .eip (c.regs .eip)).set .cs
    (c.regs .cs)).set .eflags (c.regs .eflags)).set .esp (c.regs .esp)).set .ss (c.regs .ss))
  refine ⟨_, hrun, by simp only [hmem, Core.mem_set], fun r => ?_⟩
  rw [hregs, Core.regs_set_word (c.isWord .ss), Core.regs_set_word (c.isWord .esp),
    Core.regs_set_word (c.isWord .eflags), Core.regs_set_word (c.isWord .cs),
    Core.regs_set_word (c.isWord .eip)]
  simp only [Core.mem_set]
  cases r <;> rfl

/-- **`iret` within ring 0.** -/
theorem Core.iret_inner {sp : Nat} (hd : d.cpl = 0) (hnt : (d.regs .eflags).testBit 14 = false)
    (hesp : d.regs .esp + 12 = sp) (hsp : sp < 2 ^ 32) (hf : OnStack d.mem sp c.inner)
    (hcs : c.regs .cs < 2 ^ 16) (hcpl : c.cpl = 0)
    (hlevel : T.returnLevel d (c.regs .cs) = .ok ()) :
    ∃ d', d.iret T = .ok d' ∧ d'.mem = d.mem ∧ d'.regs .esp = sp ∧ ∀ r, r ≠ .esp → d'.regs r =
      if r ∈ [CoreReg.eip, .cs, .eflags] then c.regs r else d.regs r := by
  have hword : ∀ i v, c.inner[2 - i]? = some v → i < 3 → d.stack i = v := by
    intro i v hv hi
    rw [Core.stack_eq (by omega), ← hf (2 - i) v hv]
    congr 1
    omega
  have h0 := hword 0 (c.regs .eip) rfl (by decide)
  have h1 := hword 1 (c.regs .cs) rfl (by decide)
  have h2 := hword 2 (c.regs .eflags) rfl (by decide)
  have heq : c.regs .cs % 4 = d.cpl := hcpl.trans hd.symm
  have hrun : d.iret T = .ok ((((d.set .eip (c.regs .eip)).set .cs (c.regs .cs)).set .eflags
      (c.regs .eflags)).set .esp (d.regs .esp + 12)) := by
    simp only [Core.iret, hnt, h0, h1, h2, Nat.mod_eq_of_lt hcs, hlevel, ok_bind, if_pos heq,
      Bool.false_eq_true, if_false]
    rfl
  refine ⟨_, hrun, by simp only [Core.mem_set], ?_, fun r hr => ?_⟩
  · rw [Core.regs_set, if_pos rfl, hesp, Nat.mod_eq_of_lt hsp]
  · rw [Core.regs_set, if_neg hr, Core.regs_set_word (c.isWord .eflags),
      Core.regs_set_word (c.isWord .cs), Core.regs_set_word (c.isWord .eip)]
    cases r <;> rfl

end

end Emyx.Lib
