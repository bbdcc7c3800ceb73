/-
  File:      Emyx/Pic.lean
  Subject:   HARDWARE INTERRUPTS (arch/i386/pic.c, arch.c, interrupt.c): from the line to the vector,
             and the end of the interrupt.

  * `picRemap`, `picClearMask`, `picSendEoi` -- the driver, as bytes to the ports;
  * `archInitPics` -- what `arch_init` makes of the two controllers, whatever state they were in;
  * `IrqRun` -- lines are raised at any time; the processor takes a vector while no handler runs, for
    interrupt gates turn interrupts off; a handler ends with `irq_ack`;
  * **`irq_served`** -- no line is ever left in service, so that of the lines that are raised and not
    masked the first one is always taken next, with its own vector.
-/
import Emyx.Lib.Pic

namespace Emyx

open Lib

/-! ## 1. The driver -/

/-- `pic_remap` -/
def picRemap (p : Pics) (masterOffset slaveOffset : Byte) : Pics :=
  let mask1 := p.inb 0x21
  let mask2 := p.inb 0xA1
  let p := (p.outb 0x20 (0x10 ||| 0x01)).outb 0xA0 (0x10 ||| 0x01)
  let p := (p.outb 0x21 masterOffset).outb 0xA1 slaveOffset
  let p := (p.outb 0x21 0x04).outb 0xA1 0x02
  let p := (p.outb 0x21 0x01).outb 0xA1 0x01
  (p.outb 0x21 mask1).outb 0xA1 mask2

/-- `irq_to_port_bit` -/
def irqToPortBit (irqLine : Nat) : Nat × Nat :=
  if irqLine < 8 then (0x21, irqLine) else (0xA1, irqLine - 8)

/-- `pic_clear_mask` -/
def picClearMask (p : Pics) (irqLine : Nat) : Pics :=
  let (port, bit) := irqToPortBit irqLine
  p.outb port (p.inb port &&& ~~~(1#8 <<< bit))

/-- `pic_send_eoi` -/
def picSendEoi (p : Pics) (irqLine : Nat) : Pics :=
  let p := if irqLine ≥ 8 then p.outb 0xA0 0x20 else p
  p.outb 0x20 0x20

/-- The controllers after `arch_init`. -/
def archInitPics (p : Pics) : Pics :=
  picClearMask (picClearMask (picClearMask (picRemap p 0x20 0x28) 0) 1) 2

/-! ## 2. Set up -/

/-- A controller that was set up for the vectors from `offset` on. -/
structure PicReady (p : Pic) (offset : Nat) (cascade mask : Byte) : Prop where
  stage : p.stage = 0
  offset : p.offset = offset
  cascade : p.cascade = cascade
  mode : p.mode = 1
  mask : p.mask = mask

/-- The masks that the firmware left, without the lines that `arch_init` clears. -/
structure PicsReady (p₀ p : Pics) : Prop where
  master : PicReady p.master 32 4 (p₀.master.mask &&& 0xF8)
  slave : PicReady p.slave 40 2 p₀.slave.mask

section

variable (p : Pics) (v : Byte)

@[simp] theorem outb_command : p.outb 0x20 v = ⟨p.master.command v, p.slave⟩ := rfl
@[simp] theorem outb_data : p.outb 0x21 v = ⟨p.master.data v, p.slave⟩ := rfl
@[simp] theorem outb_slaveCommand : p.outb 0xA0 v = ⟨p.master, p.slave.command v⟩ := rfl
@[simp] theorem outb_slaveData : p.outb 0xA1 v = ⟨p.master, p.slave.data v⟩ := rfl
@[simp] theorem inb_data : p.inb 0x21 = p.master.mask := rfl
@[simp] theorem inb_slaveData : p.inb 0xA1 = p.slave.mask := rfl

end

/-- The four initialisation words and a mask. -/
theorem pic_setup (p : Pic) (offset cascade mask : Byte) :
    ((((p.command (0x10 ||| 0x01)).data offset).data cascade).data 0x01).data mask =
      { stage := 0, single := false, icw4 := true, offset := offset.toNat / 8 * 8,
        cascade := cascade, mode := 1, mask := mask, requests := noLine, service := noLine } := rfl

theorem picRemap_eq (p : Pics) (masterOffset slaveOffset : Byte) :
    picRemap p masterOffset slaveOffset =
      ⟨{ stage := 0, single := false, icw4 := true, offset := masterOffset.toNat / 8 * 8,
         cascade := 4, mode := 1, mask := p.master.mask, requests := noLine, service := noLine },
       { stage := 0, single := false, icw4 := true, offset := slaveOffset.toNat / 8 * 8,
         cascade := 2, mode := 1, mask := p.slave.mask, requests := noLine, service := noLine }⟩ := by
  unfold picRemap
  simp only [outb_command, outb_data, outb_slaveCommand, outb_slaveData, inb_data, inb_slaveData,
    pic_setup]

theorem picClearMask_master {p : Pics} {n : Nat} (hn : n < 8) (h : p.master.stage = 0) :
    picClearMask p n = ⟨{ p.master with mask := p.master.mask &&& ~~~(1#8 <<< n) }, p.slave⟩ := by
  unfold picClearMask irqToPortBit
  rw [if_pos hn]
  simp only [outb_data, inb_data, Pic.data, h]

theorem archInitPics_ready (p₀ : Pics) : PicsReady p₀ (archInitPics p₀) ∧
    (archInitPics p₀).master.service = noLine ∧ (archInitPics p₀).slave.service = noLine := by
  have hmask : p₀.master.mask &&& ~~~(1#8 <<< 0) &&& ~~~(1#8 <<< 1) &&& ~~~(1#8 <<< 2) =
      p₀.master.mask &&& 0xF8 := by
    rw [BitVec.and_assoc, BitVec.and_assoc]
    rfl
  unfold archInitPics
  rw [picRemap_eq, picClearMask_master (by decide) rfl, picClearMask_master (by decide) rfl,
    picClearMask_master (by decide) rfl]
  exact ⟨⟨⟨rfl, rfl, rfl, rfl, hmask⟩, ⟨rfl, rfl, rfl, rfl, rfl⟩⟩, rfl, rfl⟩

/-! ## 3. Interrupts come and go -/

/-- **Lines are raised, taken and ended.** The second part of a state is the number that the handler
    that runs was called with. -/
inductive IrqRun (p₀ : Pics) : Pics → Option Nat → Prop
  | boot : IrqRun p₀ (archInitPics p₀) none
  | raise {p : Pics} {r : Option Nat} (n : Fin 16) : n ≠ 2 → IrqRun p₀ p r → IrqRun p₀ (p.raise n) r
  | take {p : Pics} : IrqRun p₀ p none → IrqRun p₀ p.ack.2 (some (p.ack.1 - 32))
  | done {p : Pics} {n : Nat} : IrqRun p₀ p (some n) → IrqRun p₀ (picSendEoi p n) none

/-- Exactly one line. -/
def oneLine (i : Fin 8) : Fin 8 → Bool := Function.update noLine i true

/-- What is in service while `irq_handler(n)` runs; nothing is, if the request for the last line of
    the first controller was none. -/
inductive Serving (p : Pics) : Option Nat → Prop
  | idle : p.master.service = noLine → p.slave.service = noLine → Serving p none
  | master (i : Fin 8) : p.master.service = oneLine i → p.slave.service = noLine →
      Serving p (some i)
  | spurious : p.master.service = noLine → p.slave.service = noLine → Serving p (some 7)
  | slave (j : Fin 8) : p.master.service = oneLine 2 → p.slave.service = oneLine j →
      Serving p (some (8 + j))

section

variable {p₀ p : Pics} {r : Option Nat} {n : Nat}

theorem PicReady.take {q : Pic} {offset : Nat} {cascade mask : Byte}
    (h : PicReady q offset cascade mask) (i : Fin 8) : PicReady (q.take i) offset cascade mask :=
  ⟨h.stage, h.offset, h.cascade, h.mode, h.mask⟩

theorem PicReady.take_service {q : Pic} {offset : Nat} {cascade mask : Byte}
    (h : PicReady q offset cascade mask) (hs : q.service = noLine) (i : Fin 8) :
    (q.take i).service = oneLine i := by
  unfold Pic.take
  rw [hs, h.mode]
  rfl

/-- **The vector that the processor gets.** -/
theorem PicsReady.ack_cases (h : PicsReady p₀ p) :
    (p.master.first p.lines = none ∧ p.ack = (39, p)) ∨
    (∃ i, i ≠ 2 ∧ p.master.first p.lines = some i ∧
      p.ack = (32 + i.val, { p with master := p.master.take i })) ∨
    ∃ j, p.master.first p.lines = some 2 ∧ p.slave.first p.slave.requests = some j ∧
      p.ack = (40 + j.val, ⟨p.master.take 2, p.slave.take j⟩) := by
  unfold Pics.ack
  cases hf : p.master.first p.lines with
  | none =>
    refine .inl ⟨rfl, ?_⟩
    dsimp only
    rw [h.master.offset]
  | some i =>
    refine .inr ?_
    dsimp only
    rw [h.master.offset, h.slave.offset, h.master.cascade, h.slave.cascade]
    by_cases hi : i = 2
    · subst hi
      -- line 2 is up because the second controller has a request
      have hline : p.lines 2 = true := by
        have := (firstLine_eq_some.mp hf).1
        rw [Bool.and_eq_true, Bool.and_eq_true] at this
        exact this.1.1
      unfold Pics.lines at hline
      rw [Function.update_self] at hline
      obtain ⟨j, hj⟩ := Option.isSome_iff_exists.mp hline
      refine .inr ⟨j, rfl, hj, ?_⟩
      rw [if_pos (by decide), hj]
    · have hno : ∀ i : Fin 8, i ≠ 2 → (4 : Byte).getLsbD i = false := by decide
      refine .inl ⟨i, hi, rfl, ?_⟩
      rw [if_neg (by rw [hno i hi]; simp)]

theorem Serving.take (h : PicsReady p₀ p) (hs : Serving p none) :
    Serving p.ack.2 (some (p.ack.1 - 32)) := by
  obtain ⟨hm, hs⟩ : p.master.service = noLine ∧ p.slave.service = noLine := by
    cases hs with
    | idle hm hs => exact ⟨hm, hs⟩
  obtain ⟨-, e⟩ | ⟨i, -, -, e⟩ | ⟨j, -, -, e⟩ := h.ack_cases
  · rw [e]
    exact .spurious hm hs
  · rw [e, Nat.add_sub_cancel_left]
    exact .master i (h.master.take_service hm i) hs
  · rw [e, show 40 + j.val - 32 = 8 + j.val by omega]
    exact .slave j (h.master.take_service hm 2) (h.slave.take_service hs j)

theorem picSendEoi_eq (p : Pics) (n : Nat) :
    picSendEoi p n = if n ≥ 8 then ⟨p.master.eoi, p.slave.eoi⟩ else ⟨p.master.eoi, p.slave⟩ := by
  unfold picSendEoi
  split_ifs <;> rfl

/-- **The handler ends what it was called for**, and nothing else. -/
theorem Serving.done (hs : Serving p (some n)) : n < 16 ∧ Serving (picSendEoi p n) none := by
  rw [picSendEoi_eq]
  cases hs with
  | master i hm hs =>
    rw [if_neg (by omega), Pic.eoi_only hm]
    exact ⟨by omega, .idle rfl hs⟩
  | spurious hm hs =>
    rw [if_neg (by decide), Pic.eoi_idle hm]
    exact ⟨by decide, .idle hm hs⟩
  | slave j hm hs =>
    rw [if_pos (by omega), Pic.eoi_only hm, Pic.eoi_only hs]
    exact ⟨by omega, .idle rfl rfl⟩

theorem PicReady.eoi {q : Pic} {offset : Nat} {cascade mask : Byte}
    (h : PicReady q offset cascade mask) : PicReady q.eoi offset cascade mask := by
  unfold Pic.eoi
  split
  · exact ⟨h.stage, h.offset, h.cascade, h.mode, h.mask⟩
  · exact h

theorem PicsReady.done (h : PicsReady p₀ p) (n : Nat) : PicsReady p₀ (picSendEoi p n) := by
  rw [picSendEoi_eq]
  split_ifs
  · exact ⟨h.master.eoi, h.slave.eoi⟩
  · exact ⟨h.master.eoi, h.slave⟩

theorem PicsReady.take (h : PicsReady p₀ p) : PicsReady p₀ p.ack.2 := by
  obtain ⟨-, e⟩ | ⟨i, -, -, e⟩ | ⟨j, -, -, e⟩ := h.ack_cases
  · rw [e]
    exact h
  · rw [e]
    exact ⟨h.master.take i, h.slave⟩
  · rw [e]
    exact ⟨h.master.take 2, h.slave.take j⟩

theorem PicsReady.raise (h : PicsReady p₀ p) (n : Fin 16) : PicsReady p₀ (p.raise n) := by
  unfold Pics.raise
  split_ifs
  · exact ⟨⟨h.master.stage, h.master.offset, h.master.cascade, h.master.mode, h.master.mask⟩, h.slave⟩
  · exact ⟨h.master, ⟨h.slave.stage, h.slave.offset, h.slave.cascade, h.slave.mode, h.slave.mask⟩⟩

theorem Serving.raise (hs : Serving p r) (n : Fin 16) : Serving (p.raise n) r := by
  have hsame : (p.raise n).master.service = p.master.service ∧
      (p.raise n).slave.service = p.slave.service := by
    unfold Pics.raise
    split_ifs <;> exact ⟨rfl, rfl⟩
  cases hs with
  | idle hm hs => exact .idle (hsame.1.trans hm) (hsame.2.trans hs)
  | master i hm hs => exact .master i (hsame.1.trans hm) (hsame.2.trans hs)
  | spurious hm hs => exact .spurious (hsame.1.trans hm) (hsame.2.trans hs)
  | slave j hm hs => exact .slave j (hsame.1.trans hm) (hsame.2.trans hs)

/-- **At every point of a run**: the controllers are set up, and what is in service belongs to the
    handler that runs. -/
theorem IrqRun.serving (h : IrqRun p₀ p r) : PicsReady p₀ p ∧ Serving p r := by
  induction h with
  | boot =>
    obtain ⟨hr, hm, hs⟩ := archInitPics_ready p₀
    exact ⟨hr, .idle hm hs⟩
  | raise n _ _ ih => exact ⟨ih.1.raise n, ih.2.raise n⟩
  | take _ ih => exact ⟨ih.1.take, ih.2.take ih.1⟩
  | done _ ih => exact ⟨ih.1.done _, ih.2.done.2⟩

/-! ## 4. Who comes next -/

/-- A device asks, and is not masked. -/
def Asking (p : Pics) (n : Fin 16) : Prop := n ≠ 2 ∧ p.requested n = true ∧ p.masked n = false

/-- The order of the lines: those of the second controller come in the place of line 2. -/
def priority (n : Nat) : Nat := if n < 2 then n else if 8 ≤ n then n - 6 else n + 7

/-- The lines that the first controller sees. -/
theorem asking_master {i : Fin 8} (hi : i ≠ 2) :
    Asking p ⟨i, by omega⟩ ↔ (p.lines i && !p.master.mask.getLsbD i) = true := by
  have hne : (⟨i, by omega⟩ : Fin 16) ≠ 2 := fun e =>
    hi (Fin.ext (show i.val = 2 from congrArg (fun x : Fin 16 => x.val) e))
  have hline : p.lines i = p.master.requests i := Function.update_of_ne hi ..
  unfold Asking Pics.requested Pics.masked
  rw [hline]
  simp [hne]

theorem asking_slave {j : Fin 8} :
    Asking p ⟨8 + j, by omega⟩ ↔ (p.slave.requests j && !p.slave.mask.getLsbD j) = true := by
  have hne : (⟨8 + j, by omega⟩ : Fin 16) ≠ 2 := fun e => by
    have := congrArg Fin.val e
    simp at this
    omega
  unfold Asking Pics.requested Pics.masked
  simp [hne]

/-- Line 2 is up if a line of the second controller asks. -/
theorem PicsReady.line_two (h : PicsReady p₀ p) (hs : p.slave.service = noLine) :
    (p.lines 2 && !p.master.mask.getLsbD 2) = true ↔ ∃ j : Fin 8, Asking p ⟨8 + j, by omega⟩ := by
  have hmask : p.master.mask.getLsbD 2 = false := by
    rw [h.master.mask, BitVec.getLsbD_and]
    simp
  have hline : p.lines 2 = (p.slave.first p.slave.requests).isSome := Function.update_self ..
  rw [hmask, hline, Pic.first_idle hs]
  constructor
  · intro hsome
    obtain ⟨j, hj⟩ := Option.isSome_iff_exists.mp (by simpa using hsome)
    exact ⟨j, asking_slave.mpr (firstLine_eq_some.mp hj).1⟩
  · intro hex
    obtain ⟨j, hj⟩ := hex
    cases hf : firstLine fun i => p.slave.requests i && !p.slave.mask.getLsbD i with
    | some k => rfl
    | none =>
      have hno := firstLine_eq_none.mp hf j
      rw [asking_slave.mp hj] at hno
      cases hno

theorem requested_take_master (p : Pics) (i : Fin 8) (m : Fin 16) :
    ({ p with master := p.master.take i } : Pics).requested m =
      if m.val = i.val then false else p.requested m := by
  unfold Pics.requested Pic.take
  by_cases hm : m.val < 8
  · simp [hm, Function.update_apply, Fin.ext_iff]
  · simp [hm]
    omega

theorem requested_take_slave (p : Pics) (j : Fin 8) (m : Fin 16) (hm2 : m ≠ 2) :
    (⟨p.master.take 2, p.slave.take j⟩ : Pics).requested m =
      if m.val = 8 + j.val then false else p.requested m := by
  unfold Pics.requested Pic.take
  by_cases hm : m.val < 8
  · have hne : (⟨m, hm⟩ : Fin 8) ≠ 2 := fun e => hm2 (Fin.ext (show m.val = 2 from congrArg Fin.val e))
    rw [dif_pos hm, dif_pos hm, if_neg (by omega)]
    exact Function.update_of_ne hne ..
  · simp [hm, Function.update_apply, Fin.ext_iff]
    congr 1
    simp
    omega

/-- **The line that comes first is taken**, and its request with it. -/
theorem PicsReady.ack_first (h : PicsReady p₀ p) (hm : p.master.service = noLine)
    (hs : p.slave.service = noLine) {n : Fin 16} (hn : Asking p n)
    (hfirst : ∀ m, Asking p m → priority n ≤ priority m) :
    p.ack.1 = 32 + n.val ∧
      ∀ m, m ≠ 2 → p.ack.2.requested m = if m = n then false else p.requested m := by
  have hn2 : n.val ≠ 2 := fun e => hn.1 (Fin.ext e)
  -- `n` is one of the first controller's own lines, or of the second's
  have hmaster : ∀ hlt : n.val < 8,
      (p.lines ⟨n, hlt⟩ && !p.master.mask.getLsbD n) = true := fun hlt =>
    (asking_master (i := ⟨n, hlt⟩) fun e => hn2 (congrArg Fin.val e)).mp hn
  have hslave : ∀ hge : 8 ≤ n.val,
      (p.slave.requests ⟨n - 8, by omega⟩ && !p.slave.mask.getLsbD (n - 8)) = true := fun hge => by
    refine (asking_slave (j := ⟨n - 8, by omega⟩)).mp ?_
    convert hn using 1
    exact Fin.ext (by simp; omega)
  have htwo : 8 ≤ n.val → (p.lines 2 && !p.master.mask.getLsbD 2) = true := fun hge =>
    (h.line_two hs).mpr ⟨⟨n - 8, by omega⟩, by
      convert hn using 1
      exact Fin.ext (by simp; omega)⟩
  obtain ⟨hf, e⟩ | ⟨i, hi, hf, e⟩ | ⟨j, hf, hj, e⟩ := h.ack_cases
  · rw [Pic.first_idle hm, firstLine_eq_none] at hf
    by_cases hlt : n.val < 8
    · cases (hmaster hlt).symm.trans (hf ⟨n, hlt⟩)
    · cases (htwo (by omega)).symm.trans (hf 2)
  · rw [Pic.first_idle hm, firstLine_eq_some] at hf
    have hprio : priority n ≤ priority i := hfirst _ ((asking_master hi).mpr hf.1)
    have hi2 : i.val ≠ 2 := fun e => hi (Fin.ext e)
    have heq : n.val = i.val := by
      unfold priority at hprio
      by_cases hlt : n.val < 8
      · rcases Nat.lt_trichotomy n.val i.val with hc | hc | hc
        · cases (hmaster hlt).symm.trans (hf.2 ⟨n, hlt⟩ hc)
        · exact hc
        · split_ifs at hprio <;> omega
      · have : 2 < i.val := by
          split_ifs at hprio <;> omega
        cases (htwo (by omega)).symm.trans (hf.2 2 this)
    rw [e]
    refine ⟨by rw [heq], fun m _ => ?_⟩
    rw [requested_take_master]
    simp [Fin.ext_iff, heq]
  · rw [Pic.first_idle hm, firstLine_eq_some] at hf
    rw [Pic.first_idle hs, firstLine_eq_some] at hj
    have hprio : priority n ≤ priority (8 + j) := hfirst _ (asking_slave.mpr hj.1)
    have heq : n.val = 8 + j.val := by
      unfold priority at hprio
      by_cases hlt : n.val < 8
      · have : n.val < 2 := by
          split_ifs at hprio <;> omega
        cases (hmaster hlt).symm.trans (hf.2 ⟨n, hlt⟩ this)
      · rcases Nat.lt_trichotomy n.val (8 + j.val) with hc | hc | hc
        · cases (hslave (by omega)).symm.trans (hj.2 ⟨n - 8, by omega⟩ (by
            rw [Fin.lt_def]
            simp
            omega))
        · exact hc
        · split_ifs at hprio <;> omega
    rw [e]
    refine ⟨by rw [heq]; simp; omega, fun m hm2 => ?_⟩
    rw [requested_take_slave p j m hm2]
    simp [Fin.ext_iff, heq]

/-- Without a line that asks, the processor gets the vector of line 7. -/
theorem PicsReady.ack_none (h : PicsReady p₀ p) (hm : p.master.service = noLine)
    (hs : p.slave.service = noLine) (hno : ∀ n, ¬ Asking p n) : p.ack = (39, p) := by
  have hfirst : p.master.first p.lines = none := by
    rw [Pic.first_idle hm, firstLine_eq_none]
    intro i
    refine Bool.eq_false_iff.mpr fun hi => ?_
    by_cases hi2 : i = 2
    · subst hi2
      obtain ⟨j, hj⟩ := (h.line_two hs).mp hi
      exact hno _ hj
    · exact hno _ ((asking_master hi2).mpr hi)
  obtain ⟨-, e⟩ | ⟨i, -, hf, -⟩ | ⟨j, hf, -⟩ := h.ack_cases
  · exact e
  · cases hfirst.symm.trans hf
  · cases hfirst.symm.trans hf

theorem PicsReady.masked (h : PicsReady p₀ p) (n : Fin 16) :
    p.masked n = (!decide (n.val < 3) && p₀.masked n) := by
  have hbits : ∀ i : Fin 8, (0xF8 : Byte).getLsbD i = !decide (i.val < 3) := by decide
  unfold Pics.masked
  by_cases hn : n.val < 8
  · rw [if_pos hn, if_pos hn, h.master.mask, BitVec.getLsbD_and, hbits ⟨n, hn⟩, Bool.and_comm]
  · rw [if_neg hn, if_neg hn, h.slave.mask]
    simp
    omega

/-- **NO LINE IS LEFT BEHIND.** At every point of every run a handler was called with the number of a
    line; while none runs, nothing is in service, so of the lines that ask the first one is taken
    next, with its own vector, and the requests of the others stay; without one the vector is that of
    line 7. The lines 0, 1 and 2 are open, the others as the firmware left them. -/
theorem irq_served (h : IrqRun p₀ p r) :
    (∀ n : Fin 16, p.masked n = (!decide (n.val < 3) && p₀.masked n)) ∧
    (∀ n, r = some n → n < 16) ∧
    (r = none → p.master.service = noLine ∧ p.slave.service = noLine ∧
      (∀ n, Asking p n → (∀ m, Asking p m → priority n ≤ priority m) →
        p.ack.1 = 32 + n.val ∧
          ∀ m, m ≠ 2 → p.ack.2.requested m = if m = n then false else p.requested m) ∧
      ((∀ n, ¬ Asking p n) → p.ack = (39, p))) := by
  obtain ⟨hr, hs⟩ := h.serving
  refine ⟨hr.masked, fun n e => ?_, fun e => ?_⟩
  · subst e
    exact hs.done.1
  · subst e
    cases hs with
    | idle hm hs => exact ⟨hm, hs, fun n hn hfirst => hr.ack_first hm hs hn hfirst, hr.ack_none hm hs⟩

/-- Two controllers with all lines masked. -/
def smallPics : Pics :=
  let p : Pic := ⟨0, false, true, 8, 4, 1, 0xFF, noLine, noLine⟩
  ⟨p, p⟩

/-- The keyboard and the timer ask at once: the timer comes first. -/
theorem irq_served_timer :
    (((archInitPics smallPics).raise 1).raise 0).ack.1 = 32 := by
  have hrun : IrqRun smallPics (((archInitPics smallPics).raise 1).raise 0) none :=
    .raise 0 (by decide) (.raise 1 (by decide) .boot)
  have hask : Asking (((archInitPics smallPics).raise 1).raise 0) 0 := by
    refine ⟨by decide, ?_, ?_⟩ <;> decide
  exact (((irq_served hrun).2.2 rfl).2.2.1 0 hask fun m _ => Nat.zero_le _).1

end

end Emyx
