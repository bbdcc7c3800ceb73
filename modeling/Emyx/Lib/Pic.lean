/-
  File:      Emyx/Lib/Pic.lean
  Subject:   TWO INTERRUPT CONTROLLERS (8259A), the second on a line of the first. Nothing here is
             about one program.

  A controller has eight lines with edge-triggered requests, a mask, and the lines that are in
  service; line 0 comes first. Rotating priorities, the special mask mode, polling and level
  triggering are left out: the commands for them do nothing here.

  * `Pic.command`, `Pic.data` -- what the two ports of a controller do, the initialisation words
    included; `Pics.outb`, `Pics.inb` -- the four ports;
  * `Pic.first` -- the request that is passed on; `Pics.ack` -- the vector the processor is given;
  * `Pic.first_idle`, `Pic.eoi_only` -- what comes first when nothing is in service, and what the end
    of an interrupt leaves in service.
-/
import Emyx.Lib.Memory
import Mathlib.Data.Fin.Basic
import Mathlib.Data.List.FinRange

namespace Emyx.Lib

/-! ## 1. One controller -/

structure Pic where
  /-- which initialisation word comes next at the data port; 0 if none does -/
  stage : Nat
  single : Bool
  icw4 : Bool
  /-- the vector of line 0 -/
  offset : Nat
  cascade : Byte
  mode : Byte
  mask : Byte
  requests : Fin 8 → Bool
  service : Fin 8 → Bool

/-- Nothing requested, or nothing in service. -/
def noLine : Fin 8 → Bool := fun _ => false

/-- The first line in a set. -/
def firstLine (s : Fin 8 → Bool) : Option (Fin 8) := (List.finRange 8).find? s

/-- A non-specific end of interrupt. -/
def Pic.eoi (p : Pic) : Pic :=
  match firstLine p.service with
  | some i => { p with service := Function.update p.service i false }
  | none => p

/-- A byte to the command port: the first initialisation word, or an end of interrupt. -/
def Pic.command (p : Pic) (v : Byte) : Pic :=
  if v.getLsbD 4 then
    { p with stage := 2, single := v.getLsbD 1, icw4 := v.getLsbD 0, mask := 0, requests := noLine,
             service := noLine }
  else if v = 0x20 then p.eoi
  else p

/-- A byte to the data port: the initialisation word that is due, or the mask. -/
def Pic.data (p : Pic) (v : Byte) : Pic :=
  match p.stage with
  | 2 =>
    { p with offset := v.toNat / 8 * 8, stage := if p.single then (if p.icw4 then 4 else 0) else 3 }
  | 3 => { p with cascade := v, stage := if p.icw4 then 4 else 0 }
  | 4 => { p with mode := v, stage := 0 }
  | _ => { p with mask := v }

/-- The request that is passed on: not masked, and nothing in service up to it. -/
def Pic.first (p : Pic) (lines : Fin 8 → Bool) : Option (Fin 8) :=
  firstLine fun i => lines i && !p.mask.getLsbD i &&
    (List.finRange 8).all fun j => !(p.service j && decide (j ≤ i))

/-- A request is acknowledged; it is in service unless the controller ends interrupts by itself. -/
def Pic.take (p : Pic) (i : Fin 8) : Pic :=
  { p with requests := Function.update p.requests i false
           service := Function.update p.service i (!p.mode.getLsbD 1) }

def Pic.raise (p : Pic) (i : Fin 8) : Pic := { p with requests := Function.update p.requests i true }

/-! ## 2. The pair -/

structure Pics where
  master : Pic
  slave : Pic

def Pics.outb (p : Pics) (port : Nat) (v : Byte) : Pics :=
  if port = 0x20 then { p with master := p.master.command v }
  else if port = 0x21 then { p with master := p.master.data v }
  else if port = 0xA0 then { p with slave := p.slave.command v }
  else if port = 0xA1 then { p with slave := p.slave.data v }
  else p

/-- The data ports show the masks; what is read from the command ports is left open. -/
def Pics.inb (p : Pics) (port : Nat) : Byte :=
  if port = 0x21 then p.master.mask else if port = 0xA1 then p.slave.mask else 0

/-- The lines of the first controller: line 2 is the output of the second. -/
def Pics.lines (p : Pics) : Fin 8 → Bool :=
  Function.update p.master.requests 2 (p.slave.first p.slave.requests).isSome

/-- **The processor asks for a vector.** Without a request it gets that of line 7, and nothing is in
    service. -/
def Pics.ack (p : Pics) : Nat × Pics :=
  match p.master.first p.lines with
  | none => (p.master.offset + 7, p)
  | some i =>
    if p.master.cascade.getLsbD i ∧ p.slave.cascade.toNat = i then
      match p.slave.first p.slave.requests with
      | some j => (p.slave.offset + j, ⟨p.master.take i, p.slave.take j⟩)
      | none => (p.slave.offset + 7, { p with master := p.master.take i })
    else (p.master.offset + i, { p with master := p.master.take i })

/-- Line `n` of sixteen; those from 8 on are the second controller's. -/
def Pics.raise (p : Pics) (n : Fin 16) : Pics :=
  if h : n.val < 8 then { p with master := p.master.raise ⟨n, h⟩ }
  else { p with slave := p.slave.raise ⟨n - 8, by omega⟩ }

/-- Line `n` has a request. -/
def Pics.requested (p : Pics) (n : Fin 16) : Bool :=
  if h : n.val < 8 then p.master.requests ⟨n, h⟩ else p.slave.requests ⟨n - 8, by omega⟩

/-- Line `n` is masked. -/
def Pics.masked (p : Pics) (n : Fin 16) : Bool :=
  if n.val < 8 then p.master.mask.getLsbD n else p.slave.mask.getLsbD (n - 8)

/-! ## 3. Which line comes first -/

variable {s : Fin 8 → Bool} {i j : Fin 8} {p : Pic}

theorem firstLine_eq_some : firstLine s = some i ↔ s i = true ∧ ∀ j < i, s j = false := by
  unfold firstLine
  rw [List.find?_eq_some_iff_getElem]
  constructor
  · rintro ⟨hi, k, hk, rfl, hbefore⟩
    refine ⟨hi, fun j hj => ?_⟩
    have hj' : j.val < k := by simpa [Fin.lt_def] using hj
    simpa using hbefore j.val hj'
  · rintro ⟨hi, hbefore⟩
    refine ⟨hi, i.val, by simp, by simp, fun j hj => ?_⟩
    simpa using hbefore ⟨j, by omega⟩ hj

theorem firstLine_eq_none : firstLine s = none ↔ ∀ i, s i = false := by
  unfold firstLine
  simp [List.find?_eq_none]

theorem firstLine_noLine : firstLine noLine = none := firstLine_eq_none.mpr fun _ => rfl

/-- With nothing in service, the first request that is not masked. -/
theorem Pic.first_idle (h : p.service = noLine) {lines : Fin 8 → Bool} :
    p.first lines = firstLine fun i => lines i && !p.mask.getLsbD i := by
  unfold Pic.first
  congr 1
  funext i
  simp [h, noLine]

/-- The end of the only interrupt that is in service. -/
theorem Pic.eoi_only (h : p.service = Function.update noLine i true) :
    p.eoi = { p with service := noLine } := by
  have hfirst : firstLine p.service = some i := by
    rw [h, firstLine_eq_some]
    refine ⟨Function.update_self .., fun j hj => ?_⟩
    rw [Function.update_of_ne (ne_of_lt hj)]
    rfl
  unfold Pic.eoi
  rw [hfirst]
  dsimp only
  rw [h, Function.update_idem]
  congr 1
  exact Function.update_eq_self i noLine

theorem Pic.eoi_idle (h : p.service = noLine) : p.eoi = p := by
  unfold Pic.eoi
  rw [h, firstLine_noLine]

end Emyx.Lib
