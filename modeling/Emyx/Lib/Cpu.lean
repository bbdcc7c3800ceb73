/-
  File:      Emyx/Lib/Cpu.lean
  Subject:   STRAIGHT-LINE i386 CODE ON REGISTERS AND A STACK. Nothing here is about one program.

  Seven of the general registers, the instruction pointer as `ret` leaves it, and memory. A register
  holds a 32-bit word: `Cpu` carries the bound, and every instruction wraps.

  * `Cpu.exec`, `Cpu.run` -- one instruction, a list of them;
  * `Cpu.run_pushes`, `Cpu.run_pops` -- a row of pushes and a row of pops, away from the ends of
    memory; `rd32_pushWords` -- what the pushes left.
-/
import Emyx.Lib.Memory

namespace Emyx.Lib

inductive Reg where
  | eax | edx | ebx | esi | edi | ebp | esp
  deriving DecidableEq, Repr

structure Cpu where
  regs : Reg → Nat
  isWord : ∀ r, regs r < 2 ^ 32
  eip : Nat
  mem : Mem

inductive Instr where
  | push (r : Reg)
  | pop (r : Reg)
  /-- `mov disp(base), dst` -/
  | load (disp : Nat) (base dst : Reg)
  /-- `mov src, (base)` -/
  | store (src base : Reg)
  /-- `mov src, dst` -/
  | mov (src dst : Reg)
  | ret

def Cpu.set (c : Cpu) (r : Reg) (v : Nat) : Cpu :=
  { c with regs := Function.update c.regs r (v % 2 ^ 32)
           isWord := fun r' => by
             by_cases e : r' = r
             · rw [e, Function.update_self]
               exact Nat.mod_lt _ (by decide)
             · rw [Function.update_of_ne e]
               exact c.isWord r' }

/-- The stack grows downwards. -/
def Cpu.pushWord (c : Cpu) (v : Nat) : Cpu :=
  let sp := (c.regs .esp + (2 ^ 32 - 4)) % 2 ^ 32
  { c.set .esp sp with mem := wr32 c.mem sp v }

def Cpu.topWord (c : Cpu) : Nat := rd32 c.mem (c.regs .esp)

def Cpu.dropWord (c : Cpu) : Cpu := c.set .esp (c.regs .esp + 4)

def Cpu.exec (c : Cpu) : Instr → Cpu
  | .push r => c.pushWord (c.regs r)
  | .pop r => c.dropWord.set r c.topWord
  | .load disp base dst => c.set dst (rd32 c.mem ((c.regs base + disp) % 2 ^ 32))
  | .store src base => { c with mem := wr32 c.mem (c.regs base) (c.regs src) }
  | .mov src dst => c.set dst (c.regs src)
  | .ret => { c.dropWord with eip := c.topWord }

def Cpu.run (c : Cpu) (p : List Instr) : Cpu := p.foldl Cpu.exec c

variable {c : Cpu}

@[simp] theorem Cpu.run_nil : c.run [] = c := rfl

@[simp] theorem Cpu.run_cons (i : Instr) (p : List Instr) : c.run (i :: p) = (c.exec i).run p := rfl

@[simp] theorem Cpu.mem_set (r : Reg) (v : Nat) : (c.set r v).mem = c.mem := rfl

@[simp] theorem Cpu.eip_set (r : Reg) (v : Nat) : (c.set r v).eip = c.eip := rfl

@[simp] theorem Cpu.regs_set (r r' : Reg) (v : Nat) :
    (c.set r v).regs r' = if r' = r then v % 2 ^ 32 else c.regs r' := by
  simp [Cpu.set, Function.update_apply]

/-- A push where the stack has room. -/
theorem Cpu.regs_pushWord {v : Nat} (h : 4 ≤ c.regs .esp) (r : Reg) :
    (c.pushWord v).regs r = if r = .esp then c.regs .esp - 4 else c.regs r := by
  have hw := c.isWord .esp
  have he : (c.regs .esp + (2 ^ 32 - 4)) % 2 ^ 32 = c.regs .esp - 4 := by omega
  simp only [Cpu.pushWord, he, Cpu.regs_set]
  rw [Nat.mod_eq_of_lt (by omega)]

theorem Cpu.mem_pushWord {v : Nat} (h : 4 ≤ c.regs .esp) :
    (c.pushWord v).mem = wr32 c.mem (c.regs .esp - 4) v := by
  have hw := c.isWord .esp
  have he : (c.regs .esp + (2 ^ 32 - 4)) % 2 ^ 32 = c.regs .esp - 4 := by omega
  simp only [Cpu.pushWord, he]

/-- A pop below the end of memory. -/
theorem Cpu.regs_dropWord (h : c.regs .esp + 4 < 2 ^ 32) (r : Reg) :
    c.dropWord.regs r = if r = .esp then c.regs .esp + 4 else c.regs r := by
  unfold Cpu.dropWord
  rw [Cpu.regs_set, Nat.mod_eq_of_lt h]

@[simp] theorem Cpu.mem_dropWord : c.dropWord.mem = c.mem := rfl

@[simp] theorem Cpu.mem_pop (r : Reg) : (c.exec (.pop r)).mem = c.mem := rfl

@[simp] theorem Cpu.mem_ret : (c.exec .ret).mem = c.mem := rfl

@[simp] theorem Cpu.eip_ret : (c.exec .ret).eip = c.topWord := rfl

@[simp] theorem Cpu.regs_ret (r : Reg) : (c.exec .ret).regs r = c.dropWord.regs r := rfl

-- the wrapped stack pointer is never to be computed with: the lemmas above say what it is
attribute [irreducible] Cpu.set Cpu.pushWord Cpu.dropWord

theorem Cpu.run_append (p q : List Instr) : c.run (p ++ q) = (c.run p).run q :=
  List.foldl_append

/-! ## Rows of pushes and pops -/

/-- The words, pushed one after the other onto the stack at `sp`. -/
def pushWords (m : Mem) (sp : Nat) : List Nat → Mem
  | [] => m
  | v :: vs => pushWords (wr32 m (sp - 4) v) (sp - 4) vs

theorem pushWords_outside {m : Mem} {sp x : Nat} {vs : List Nat} (h : 4 * vs.length ≤ sp)
    (hx : x < sp - 4 * vs.length ∨ sp ≤ x) : pushWords m sp vs x = m x := by
  induction vs generalizing m sp with
  | nil => rfl
  | cons v vs ih =>
    rw [List.length_cons] at h hx
    rw [pushWords, ih (by omega) (by omega), wr32_outside (by omega)]

theorem rd32_pushWords {m : Mem} {sp i v : Nat} {vs : List Nat} (h : 4 * vs.length ≤ sp)
    (hi : vs[i]? = some v) : rd32 (pushWords m sp vs) (sp - 4 * (i + 1)) = v % 2 ^ 32 := by
  induction vs generalizing m sp i with
  | nil => simp at hi
  | cons w vs ih =>
    rw [List.length_cons] at h
    cases i with
    | zero =>
      -- the words after it lie below
      cases hi
      rw [pushWords, ← rd32_wr32 m (sp - 4) v]
      exact rd32_congr fun j hj => pushWords_outside (by omega) (by omega)
    | succ i =>
      have := ih (m := wr32 m (sp - 4) w) (show 4 * vs.length ≤ sp - 4 by omega) hi
      rw [show sp - 4 - 4 * (i + 1) = sp - 4 * (i + 1 + 1) by omega] at this
      exact this

theorem Cpu.run_pushes (rs : List Reg) (hne : Reg.esp ∉ rs) (h : 4 * rs.length ≤ c.regs .esp) :
    (c.run (rs.map .push)).mem = pushWords c.mem (c.regs .esp) (rs.map c.regs) ∧
    (c.run (rs.map .push)).regs .esp = c.regs .esp - 4 * rs.length := by
  induction rs generalizing c with
  | nil => exact ⟨rfl, rfl⟩
  | cons r rs ih =>
    rw [List.length_cons] at h
    rw [List.mem_cons, not_or] at hne
    have hregs := Cpu.regs_pushWord (v := c.regs r) (show 4 ≤ c.regs .esp by omega)
    have hsp := (hregs .esp).trans (if_pos rfl)
    have hrest : rs.map (c.pushWord (c.regs r)).regs = rs.map c.regs :=
      List.map_congr_left fun r' hr' => (hregs r').trans (if_neg (ne_of_mem_of_not_mem hr' hne.2))
    obtain ⟨hm, he⟩ := ih (c := c.pushWord (c.regs r)) hne.2 (by omega)
    rw [hsp, hrest, Cpu.mem_pushWord (by omega)] at hm
    refine ⟨hm, he.trans ?_⟩
    rw [hsp, List.length_cons]
    omega

theorem Cpu.run_pops (rs : List Reg) (hne : Reg.esp ∉ rs) (hnd : rs.Nodup)
    (h : c.regs .esp + 4 * rs.length < 2 ^ 32) :
    (c.run (rs.map .pop)).mem = c.mem ∧
    (c.run (rs.map .pop)).regs .esp = c.regs .esp + 4 * rs.length ∧
    (∀ i r, rs[i]? = some r → (c.run (rs.map .pop)).regs r = rd32 c.mem (c.regs .esp + 4 * i)) ∧
    ∀ r, r ≠ .esp → r ∉ rs → (c.run (rs.map .pop)).regs r = c.regs r := by
  induction rs generalizing c with
  | nil => simp
  | cons r rs ih =>
    rw [List.length_cons] at h
    rw [List.mem_cons, not_or] at hne
    rw [List.nodup_cons] at hnd
    have hregs : ∀ r', (c.exec (.pop r)).regs r' =
        if r' = r then c.topWord else if r' = .esp then c.regs .esp + 4 else c.regs r' := fun r' => by
      simp only [Cpu.exec, Cpu.regs_set, Cpu.regs_dropWord (show c.regs .esp + 4 < 2 ^ 32 by omega)]
      rw [Nat.mod_eq_of_lt (show c.topWord < 2 ^ 32 from rd32_lt _ _)]
    have hsp : (c.exec (.pop r)).regs .esp = c.regs .esp + 4 := by simp [hregs, hne.1]
    obtain ⟨hm, he, hpop, hrest⟩ := ih (c := c.exec (.pop r)) hne.2 hnd.2 (by omega)
    rw [Cpu.mem_pop] at hm hpop
    refine ⟨hm, he.trans (by rw [hsp, List.length_cons]; omega), fun i r' hi => ?_,
      fun r' h1 h2 => ?_⟩
    · cases i with
      | zero =>
        cases hi
        refine (hrest r (fun e => hne.1 e.symm) hnd.1).trans ?_
        rw [hregs, if_pos rfl]
        rfl
      | succ i =>
        refine (hpop i r' hi).trans ?_
        rw [hsp, show c.regs .esp + 4 + 4 * i = c.regs .esp + 4 * (i + 1) by omega]
    · rw [List.mem_cons, not_or] at h2
      refine (hrest r' h1 h2.2).trans ?_
      rw [hregs, if_neg h2.1, if_neg h1]

end Emyx.Lib
