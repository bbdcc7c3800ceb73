/-
  File:      Emyx/UserMode.lean
  Subject:   USER CODE AND THE PROCESSOR (arch/i386/user.c, isr_stub.S): from `user_enter` on.

  User code executes what it likes in ring 3 (`UserStep`); hardware interrupts and system calls come
  in between, each with a C function that returns (`UserRun`).

  * `userEnter` -- the five pushes and `iret`;
  * **`user_confined`** -- user code stays in ring 3 with interrupts on and without ports, and the
    way into the kernel and back is open in every state;
  * **`handler_data_exact`** -- handlers run with the data segment that user code has left: which
    selectors it can load, and with which of them the kernel can write to memory;
  * **`userEnter_window`** -- after `user_enter` there is none until user code loads it.
-/
import Emyx.Stubs

namespace Emyx

open Lib

/-! ## 1. Into user code -/

/-- `user_enter`: `pushf`, with the interrupt flag, and the five words for `iret`. -/
def userEnter (T : Tables) (c : Core) (entry stack stackSize : Nat) : Except Fault Core :=
  let userStack := (stack + stackSize) % 2 ^ 32
  let eflags := c.regs .eflags &&& 0xFFFCFFFF ||| 0x200
  (c.pushAll [0x23, userStack, eflags, 0x1B, entry]).iret T

section

variable {S : Symbols} {c c' u : Core} {entry : Nat}

theorem enterFlags_lt (c : Core) : c.regs .eflags &&& 0xFFFCFFFF ||| 0x200 < 2 ^ 32 :=
  Nat.or_lt_two_pow (Nat.and_lt_two_pow _ (by decide)) (by decide)

/-- The interrupt flag is set, the privilege level for ports stays. -/
theorem enterFlags (f : Nat) : (f &&& 0xFFFCFFFF ||| 0x200).testBit 9 = true ∧
    (f &&& 0xFFFCFFFF ||| 0x200) / 2 ^ 12 % 4 = f / 2 ^ 12 % 4 := by
  constructor
  · rw [Nat.testBit_or, show (0x200 : Nat).testBit 9 = true by decide, Bool.or_true]
  · refine Nat.eq_of_testBit_eq fun i => ?_
    rw [show 4 = 2 ^ 2 from rfl, Nat.testBit_mod_two_pow, Nat.testBit_mod_two_pow,
      Nat.testBit_div_two_pow, Nat.testBit_div_two_pow]
    by_cases hi : i < 2
    · obtain rfl | rfl : i = 0 ∨ i = 1 := by omega
      · simp [Nat.testBit_or, Nat.testBit_and, show (0xFFFCFFFF : Nat).testBit 12 = true by decide,
          show (0x200 : Nat).testBit 12 = false by decide]
      · simp [Nat.testBit_or, Nat.testBit_and, show (0xFFFCFFFF : Nat).testBit 13 = true by decide,
          show (0x200 : Nat).testBit 13 = false by decide]
    · simp [hi]

/-- The processor as `user_enter` wants it. -/
def enterTarget (c : Core) (entry stack stackSize : Nat) : Core :=
  ((((c.set .ss 0x23).set .esp ((stack + stackSize) % 2 ^ 32)).set .eflags
    (c.regs .eflags &&& 0xFFFCFFFF ||| 0x200)).set .cs 0x1B).set .eip entry

theorem enterTarget_regs (c : Core) (hentry : entry < 2 ^ 32) (stack stackSize : Nat) (r : CoreReg) :
    (enterTarget c entry stack stackSize).regs r =
      if r = .eip then entry else if r = .cs then 0x1B
      else if r = .eflags then c.regs .eflags &&& 0xFFFCFFFF ||| 0x200
      else if r = .esp then (stack + stackSize) % 2 ^ 32 else if r = .ss then 0x23 else c.regs r := by
  unfold enterTarget
  rw [Core.regs_set_word hentry, Core.regs_set_word (by decide), Core.regs_set_word (enterFlags_lt c),
    Core.regs_set_word (Nat.mod_lt _ (by decide)), Core.regs_set_word (by decide)]

/-- **User code starts** at its entry, on its stack, in ring 3. -/
theorem TablesInstalled.userEnter (h : TablesInstalled S c.mem) (hcpl : c.cpl = 0)
    (hnested : (c.regs .eflags).testBit 14 = false) (hentry : entry < 2 ^ 32)
    (hroom : 20 ≤ c.regs .esp)
    (hapart : ∀ x, S.Table x → x < c.regs .esp - 20 ∨ c.regs .esp ≤ x) (stack stackSize : Nat) :
    ∃ u, Emyx.userEnter S.tables c entry stack stackSize = .ok u ∧
      (∀ r, u.regs r = if r ∈ dataRegs then S.tables.keepData u.mem 3 (c.regs r)
        else (enterTarget c entry stack stackSize).regs r) ∧
      ∀ x, x < c.regs .esp - 20 ∨ c.regs .esp ≤ x → u.mem x = c.mem x := by
  have hw := enterTarget_regs c hentry stack stackSize
  have hwords : (enterTarget c entry stack stackSize).outer ++
      (enterTarget c entry stack stackSize).inner =
      [0x23, (stack + stackSize) % 2 ^ 32, c.regs .eflags &&& 0xFFFCFFFF ||| 0x200, 0x1B, entry] := by
    simp only [Core.outer, Core.inner, hw]
    rfl
  have hword : ∀ v ∈ (enterTarget c entry stack stackSize).outer ++
      (enterTarget c entry stack stackSize).inner, v < 2 ^ 32 := fun v hv => by
    simp only [Core.outer, Core.inner, List.cons_append, List.nil_append, List.mem_cons,
      List.not_mem_nil, or_false] at hv
    obtain rfl | rfl | rfl | rfl | rfl := hv <;> exact Core.isWord _ _
  unfold Emyx.userEnter
  dsimp only
  rw [← hwords]
  generalize hws : (enterTarget c entry stack stackSize).outer ++
    (enterTarget c entry stack stackSize).inner = ws at hword
  have hlen : ws.length = 5 := by
    rw [← hws]
    rfl
  obtain ⟨hmem, hregs⟩ := Core.pushAll_room (c := c) ws (by omega)
  rw [hlen] at hregs
  have hesp := (hregs .esp).trans (if_pos rfl)
  have hcs := (hregs .cs).trans (if_neg (by decide))
  have hflags := (hregs .eflags).trans (if_neg (by decide))
  have hcpl' : (c.pushAll ws).cpl = 0 := by
    rw [Core.cpl, hcs]
    exact hcpl
  have hout : ∀ x, x < c.regs .esp - 20 ∨ c.regs .esp ≤ x → (c.pushAll ws).mem x = c.mem x :=
    fun x hx => by
      rw [hmem]
      exact pushWords_outside (by omega) (by omega)
  have hin : TablesInstalled S (c.pushAll ws).mem := h.congr fun x hx => hout x (hapart x hx)
  obtain ⟨hlevel, hstack⟩ := hin.return_user hcpl'
  have htcs : (enterTarget c entry stack stackSize).regs .cs = 0x1B := hw .cs
  have htss : (enterTarget c entry stack stackSize).regs .ss = 0x23 := hw .ss
  have htcpl : (enterTarget c entry stack stackSize).cpl = 3 := by
    rw [Core.cpl, htcs]
  obtain ⟨u, hrun, humem, huregs⟩ := Core.iret_outer (c := enterTarget c entry stack stackSize)
    hcpl' (by rw [hflags]; exact hnested) (by rw [hesp]; omega) (c.isWord .esp)
    (by rw [hws, hmem]; exact onStack_pushWords (by omega) hword) (by rw [htcs]; decide)
    (by rw [htss]; decide) (by omega) (by rw [htcs]; exact hlevel)
    (by rw [htcs, htss]; exact hstack)
  refine ⟨u, hrun, fun r => ?_, fun x hx => ?_⟩
  · rw [huregs, htcpl, humem]
    by_cases hr : r ∈ dataRegs
    · have hne : r ∉ [CoreReg.esp, .ss, .eip, .cs, .eflags] ∧ r ≠ .esp := by
        cases r <;> simp [dataRegs] at hr ⊢
      rw [if_neg hne.1, if_pos hr, if_pos hr, hregs, if_neg hne.2]
    · rw [if_neg hr, if_neg hr, hregs, hw]
      cases r <;> rfl
  · rw [humem]
    exact hout x hx

/-! ## 2. User code runs -/

/-- **What user code can do** without an exception: in ring 3 it loads no other segments for its code
    and its stack, and neither the interrupt flag nor the level for ports; its data segments are
    those it can load; it does not write to the tables of the kernel. -/
structure UserStep (S : Symbols) (c c' : Core) : Prop where
  cs : c'.regs .cs = c.regs .cs
  ss : c'.regs .ss = c.regs .ss
  data : ∀ r ∈ dataRegs, c'.regs r = c.regs r ∨ ∃ d, S.tables.loadData c r (c'.regs r) = .ok d
  interrupts : (c'.regs .eflags).testBit 9 = (c.regs .eflags).testBit 9
  iopl : c'.iopl = c.iopl
  tables : AgreeOn S.Table c.mem c'.mem
  stack : rd32 c'.mem (S.tss + 4) = rd32 c.mem (S.tss + 4)

/-- The kernel comes back to user code with the tables and the stack that it had. -/
structure KernelKept (S : Symbols) (c c' : Core) : Prop where
  tables : AgreeOn S.Table c.mem c'.mem
  stack : rd32 c'.mem (S.tss + 4) = rd32 c.mem (S.tss + 4)

/-- **A run of user code** that starts as `u`, seen between its instructions. -/
inductive UserRun (S : Symbols) (u : Core) : Core → Prop
  | start : UserRun S u u
  | step {c c' : Core} : UserRun S u c → UserStep S c c' → UserRun S u c'
  | irq {c c₀ c₂ c' : Core} (n : Fin 16) : UserRun S u c →
      c.deliver S.tables (32 + n) false [] = .ok c₀ → Returns (S.top c) (irqEntry n c₀) c₂ →
      KernelKept S c c₂ → irqExit S.tables c₂ = .ok c' → UserRun S u c'
  | syscall {c c₀ c₂ c' : Core} : UserRun S u c →
      c.deliver S.tables 0x80 true [] = .ok c₀ → Returns (S.top c) (syscallEntry c₀) c₂ →
      KernelKept S c c₂ → syscallExit S.tables c₂ = .ok c' → UserRun S u c'

/-- User code in ring 3, with the stack of the kernel at `top`. -/
structure InUser (S : Symbols) (top : Nat) (c : Core) : Prop where
  cs : c.regs .cs = 0x1B
  ss : c.regs .ss = 0x23
  data : ∀ r ∈ dataRegs, UserData (c.regs r)
  interrupts : (c.regs .eflags).testBit 9 = true
  iopl : c.iopl = 0
  tables : TablesInstalled S c.mem
  stack : rd32 c.mem (S.tss + 4) = top

/-- **The selectors that user code can load.** -/
theorem TablesInstalled.loadData_user (h : TablesInstalled S c.mem) (hcs : c.regs .cs = 0x1B)
    (r : CoreReg) (selector : Nat) :
    (∃ d, S.tables.loadData c r selector = .ok d) ↔ UserData selector := by
  have hcpl : c.cpl = 3 := by
    rw [Core.cpl, hcs]
  unfold Tables.loadData Tables.segment UserData
  by_cases hnull : selector / 4 = 0
  · rw [if_pos hnull]
    exact ⟨fun _ => .inl (by omega), fun _ => ⟨_, rfl⟩⟩
  rw [if_neg hnull, if_neg hnull, show S.tables.gdtLimit = 47 from rfl,
    show S.tables.gdtBase = S.gdt from rfl]
  by_cases hout : selector / 4 % 2 = 1 ∨ 47 < selector / 8 * 8 + 7
  · rw [if_pos hout]
    exact ⟨fun hl => (by obtain ⟨d, hd⟩ := hl; cases hd), fun hs => by omega⟩
  rw [if_neg hout, ok_bind, hcpl]
  obtain hi | hi | hi | hi | hi : selector / 8 = 1 ∨ selector / 8 = 2 ∨ selector / 8 = 3 ∨
      selector / 8 = 4 ∨ selector / 8 = 5 := by omega
  · rw [hi, h.kernelCode, if_pos (.inr (.inr ⟨rfl, .inr (by decide)⟩))]
    exact ⟨fun hl => (by obtain ⟨d, hd⟩ := hl; cases hd), fun hs => by omega⟩
  · rw [hi, h.kernelData, if_pos (.inr (.inr ⟨rfl, .inr (by decide)⟩))]
    exact ⟨fun hl => (by obtain ⟨d, hd⟩ := hl; cases hd), fun hs => by omega⟩
  · rw [hi, h.userCode, if_neg (by simp [SegDesc.isConforming]; omega), if_neg (by decide)]
    exact ⟨fun _ => by omega, fun _ => ⟨_, rfl⟩⟩
  · rw [hi, h.userData, if_neg (by simp [SegDesc.isConforming]; omega), if_neg (by decide)]
    exact ⟨fun _ => by omega, fun _ => ⟨_, rfl⟩⟩
  · rw [hi, h.taskState, if_pos (.inl (show 11 < 16 by decide))]
    exact ⟨fun hl => (by obtain ⟨d, hd⟩ := hl; cases hd), fun hs => by omega⟩

variable {top : Nat}

theorem InUser.top_eq (h : InUser S top c) : S.top c = top := (top_user h.cs).trans h.stack

theorem InUser.step (h : InUser S top c) (hs : UserStep S c c') : InUser S top c' where
  cs := hs.cs.trans h.cs
  ss := hs.ss.trans h.ss
  data r hr := by
    obtain e | hl := hs.data r hr
    · rw [e]
      exact h.data r hr
    · exact (h.tables.loadData_user h.cs r _).mp hl
  interrupts := hs.interrupts.trans h.interrupts
  iopl := hs.iopl.trans h.iopl
  tables := h.tables.congr hs.tables
  stack := hs.stack.trans h.stack

theorem restored_userData {r : CoreReg} (h : UserData (c.regs r)) : UserData (restored c r) := by
  unfold restored
  split_ifs
  · exact .inl (by decide)
  · exact h

/-- Back in user code, with nothing changed but eax and the memory of others. -/
theorem InUser.back (h : InUser S top c) (hm : TablesInstalled S c'.mem)
    (hstack : rd32 c'.mem (S.tss + 4) = top) (hregs : ∀ r, r ≠ .eax → c'.regs r = restored c r) :
    InUser S top c' where
  cs := ((hregs .cs (by decide)).trans (restored_of_notMem (by decide))).trans h.cs
  ss := ((hregs .ss (by decide)).trans (restored_of_notMem (by decide))).trans h.ss
  data r hr := by
    rw [hregs r (fun he => by simp [he, dataRegs] at hr)]
    exact restored_userData (h.data r hr)
  interrupts := by
    rw [hregs .eflags (by decide), restored_of_notMem (by decide)]
    exact h.interrupts
  iopl := by
    rw [Core.iopl, hregs .eflags (by decide), restored_of_notMem (by decide)]
    exact h.iopl
  tables := hm
  stack := hstack

/-- The stack of the kernel has room for a frame and is apart from the tables. -/
structure StackFits (S : Symbols) (top : Nat) : Prop where
  room : 56 ≤ top
  tables : ∀ x, S.Table x → x < top - 56 ∨ top ≤ x
  pointer : S.tss + 8 ≤ top - 56 ∨ top ≤ S.tss + 4

/-- Every hardware interrupt is taken and comes back. -/
theorem InUser.irq (h : InUser S top c) (hfit : StackFits S top) (n : Fin 16) :
    ∃ c₀, c.deliver S.tables (32 + n) false [] = .ok c₀ ∧ c₀.regs .eip = S.irq n ∧
      ∀ c₂, Returns (S.top c) (irqEntry n c₀) c₂ → KernelKept S c c₂ →
        ∃ c', irqExit S.tables c₂ = .ok c' ∧ InUser S top c' := by
  have hroom : 56 ≤ S.top c := by
    rw [h.top_eq]
    exact hfit.room
  obtain ⟨c₀, hc₀, heip, hcalled⟩ := h.tables.irq_called hroom n
  refine ⟨c₀, hc₀, heip, fun c₂ hr hk => ?_⟩
  have hin := h.tables.congr hk.tables
  obtain ⟨c', hc', hmem, hregs⟩ := hcalled.irqExit (.inl ⟨h.cs, h.ss, h.data⟩) hroom hr hin
  refine ⟨c', hc', h.back (by rw [hmem]; exact hin) ?_ fun r _ => hregs r⟩
  rw [hmem]
  exact hk.stack.trans h.stack

/-- Every system call is taken and comes back. -/
theorem InUser.syscall (h : InUser S top c) (hfit : StackFits S top) :
    ∃ c₀, c.deliver S.tables 0x80 true [] = .ok c₀ ∧ c₀.regs .eip = S.syscallStub ∧
      ∀ c₂, Returns (S.top c) (syscallEntry c₀) c₂ → KernelKept S c c₂ →
        ∃ c', syscallExit S.tables c₂ = .ok c' ∧ InUser S top c' := by
  have htop := h.top_eq
  have hroom := hfit.room
  rw [← htop] at hroom
  obtain ⟨c₀, hc₀, heip, hcalled⟩ := h.tables.syscall_called h.cs hroom
  refine ⟨c₀, hc₀, heip, fun c₂ hr hk => ?_⟩
  have hin := h.tables.congr hk.tables
  obtain ⟨c', hc', hregs, hmem⟩ := hcalled.syscallExit h.cs h.ss h.data hroom
    (by rw [htop]; exact hfit.tables) hr hin
  rw [htop] at hmem
  refine ⟨c', hc', h.back (hin.congr fun x hx => hmem x (hfit.tables x hx)) ?_ fun r hr => ?_⟩
  · rw [rd32_congr fun i hi => hmem (S.tss + 4 + i) (by have := hfit.pointer; omega)]
    exact hk.stack.trans h.stack
  · rw [hregs, if_neg hr]

/-- **User code stays user code.** -/
theorem UserRun.inUser (h : InUser S top u) (hfit : StackFits S top) (hrun : UserRun S u c) :
    InUser S top c := by
  induction hrun with
  | start => exact h
  | step _ hs ih => exact ih.step hs
  | irq n _ hd hr hk hx ih =>
    obtain ⟨c₀, hc₀, -, hback⟩ := ih.irq hfit n
    obtain rfl := Except.ok.inj (hc₀.symm.trans hd)
    obtain ⟨c', hc', hin⟩ := hback _ hr hk
    obtain rfl := Except.ok.inj (hc'.symm.trans hx)
    exact hin
  | syscall _ hd hr hk hx ih =>
    obtain ⟨c₀, hc₀, -, hback⟩ := ih.syscall hfit
    obtain rfl := Except.ok.inj (hc₀.symm.trans hd)
    obtain ⟨c', hc', hin⟩ := hback _ hr hk
    obtain rfl := Except.ok.inj (hc'.symm.trans hx)
    exact hin

/-- **The kernel calls `user_enter`**, with `esp0` at `top`. -/
structure Entering (S : Symbols) (top : Nat) (c : Core) : Prop where
  cpl : c.cpl = 0
  nested : (c.regs .eflags).testBit 14 = false
  iopl : c.iopl = 0
  data : ∀ r ∈ dataRegs, c.regs r = 0x10 ∨ UserData (c.regs r)
  tables : ∃ m, AgreeOn S.Table (idtInit S (gdtInit S m)) c.mem
  stack : rd32 c.mem (S.tss + 4) = top
  room : 20 ≤ c.regs .esp
  apart : ∀ x, S.Table x ∨ (S.tss + 4 ≤ x ∧ x < S.tss + 8) →
    x < c.regs .esp - 20 ∨ c.regs .esp ≤ x

/-- The kernel's own data segment does not come along. -/
theorem TablesInstalled.keepData_kernel {m : Mem} (h : TablesInstalled S m) :
    S.tables.keepData m 3 0x10 = 0 := by
  have hseg : S.tables.segment m 0x10 = .ok ⟨0, 0xFFFFF, 0x12, 0, true, 0xC⟩ := by
    rw [← h.kernelData]
    rfl
  unfold Tables.keepData
  rw [hseg]
  rfl

/-- User code has started. -/
theorem Entering.inUser (h : Entering S top c) (hentry : entry < 2 ^ 32) (stack stackSize : Nat) :
    ∃ u, userEnter S.tables c entry stack stackSize = .ok u ∧ InUser S top u ∧
      u.regs .eip = entry ∧ u.regs .esp = (stack + stackSize) % 2 ^ 32 ∧
      (c.regs .ds = 0x10 → u.regs .ds = 0) := by
  obtain ⟨m, hkept⟩ := h.tables
  have hin := (arch_installed S m).congr hkept
  obtain ⟨u, hu, hregs, hmem⟩ := hin.userEnter h.cpl h.nested hentry h.room
    (fun x hx => h.apart x (.inl hx)) stack stackSize
  have hinu : TablesInstalled S u.mem := hin.congr fun x hx => hmem x (h.apart x (.inl hx))
  have htarget := fun r (hr : r ∉ dataRegs) =>
    ((hregs r).trans (if_neg hr)).trans (enterTarget_regs c hentry stack stackSize r)
  refine ⟨u, hu, ⟨htarget .cs (by decide), htarget .ss (by decide), fun r hr => ?_, ?_, ?_, hinu, ?_⟩,
    htarget .eip (by decide), htarget .esp (by decide), fun hds => ?_⟩
  · rw [hregs, if_pos hr]
    obtain e | hs := h.data r hr
    · rw [e, hinu.keepData_kernel]
      exact .inl (by decide)
    · rw [hinu.keepData hs]
      split_ifs
      · exact .inl (by decide)
      · exact hs
  · rw [htarget .eflags (by decide)]
    exact (enterFlags _).1
  · rw [Core.iopl, htarget .eflags (by decide)]
    exact (enterFlags _).2.trans h.iopl
  · rw [rd32_congr fun i hi => hmem (S.tss + 4 + i) (h.apart _ (.inr ⟨by omega, by omega⟩))]
    exact h.stack
  · rw [hregs, if_pos (by decide), hds]
    exact hinu.keepData_kernel

theorem InUser.cpl (h : InUser S top c) : c.cpl = 3 := by
  rw [Core.cpl, h.cs]

/-- No port can be used: the bitmap lies behind the segment. -/
theorem InUser.ports (h : InUser S top c) (port : Nat) :
    S.tables.portAllowed (readSegment c.mem (S.gdt + 40)) c port = false := by
  unfold Tables.portAllowed
  rw [h.cpl, h.iopl, h.tables.taskState, show S.tables.tss = S.tss from rfl, h.tables.iopb]
  simp
  omega

/-- **USER CODE IS CONFINED.** Whatever it does after `user_enter`, it is in ring 3 with interrupts on
    and can use no port; `int n` raises a general protection fault except for 0x80; and every
    hardware interrupt and every system call comes to its stub and, once the C function has
    returned, back to user code. -/
theorem user_confined (h : Entering S top c) (hentry : entry < 2 ^ 32) (hfit : StackFits S top)
    (stack stackSize : Nat) :
    ∃ u, userEnter S.tables c entry stack stackSize = .ok u ∧ u.regs .eip = entry ∧
      u.regs .esp = (stack + stackSize) % 2 ^ 32 ∧
      ∀ d, UserRun S u d → d.cpl = 3 ∧ (d.regs .eflags).testBit 9 = true ∧
        (∀ port, S.tables.portAllowed (readSegment d.mem (S.gdt + 40)) d port = false) ∧
        (∀ n, n < 256 → n ≠ 0x80 → d.deliver S.tables n true [] = .error ⟨13, 8 * n + 2⟩) ∧
        (∀ n : Fin 16, ∃ d₀, d.deliver S.tables (32 + n) false [] = .ok d₀ ∧
          d₀.regs .eip = S.irq n ∧
          ∀ d₂, Returns top (irqEntry n d₀) d₂ → KernelKept S d d₂ →
            ∃ d', irqExit S.tables d₂ = .ok d' ∧ UserRun S u d') ∧
        ∃ d₀, d.deliver S.tables 0x80 true [] = .ok d₀ ∧ d₀.regs .eip = S.syscallStub ∧
          ∀ d₂, Returns top (syscallEntry d₀) d₂ → KernelKept S d d₂ →
            ∃ d', syscallExit S.tables d₂ = .ok d' ∧ UserRun S u d' := by
  obtain ⟨u, hu, hin, heip, hesp, -⟩ := h.inUser hentry stack stackSize
  refine ⟨u, hu, heip, hesp, fun d hrun => ?_⟩
  have hd := UserRun.inUser hin hfit hrun
  have htop := hd.top_eq
  refine ⟨hd.cpl, hd.interrupts, hd.ports, fun n hn h80 => ?_, fun n => ?_, ?_⟩
  · unfold Core.deliver
    rw [hd.tables.gate_closed hn h80 (by rw [hd.cpl]; decide)]
    rfl
  · obtain ⟨d₀, hd₀, he, hback⟩ := hd.irq hfit n
    rw [htop] at hback
    refine ⟨d₀, hd₀, he, fun d₂ hr hk => ?_⟩
    obtain ⟨d', hd', -⟩ := hback d₂ hr hk
    exact ⟨d', hd', hrun.irq n hd₀ (by rw [htop]; exact hr) hk hd'⟩
  · obtain ⟨d₀, hd₀, he, hback⟩ := hd.syscall hfit
    rw [htop] at hback
    refine ⟨d₀, hd₀, he, fun d₂ hr hk => ?_⟩
    obtain ⟨d', hd', -⟩ := hback d₂ hr hk
    exact ⟨d', hd', hrun.syscall hd₀ (by rw [htop]; exact hr) hk hd'⟩

/-- The kernel in ring 0, before the first user program. -/
def smallKernel : Core where
  regs
    | .cs => 0x08
    | .ss | .ds | .es | .fs | .gs => 0x10
    | .esp => 0x8F00
    | .eflags => 0x002
    | _ => 0
  isWord r := by cases r <;> decide
  mem := smallUser.mem

theorem smallKernel_mem : smallKernel.mem = smallUser.mem := by
  simp only [smallKernel]

theorem smallKernel_entering : Entering smallSymbols 0x9000 smallKernel where
  cpl := rfl
  nested := by decide
  iopl := by decide
  data r hr := by
    refine .inl ?_
    cases r <;> simp [dataRegs] at hr <;> rfl
  tables := by
    rw [smallKernel_mem]
    exact ⟨_, smallUser_kept⟩
  stack := by
    rw [smallKernel_mem]
    exact smallUser_top
  room := by decide
  apart x hx := by
    simp only [Symbols.Table, smallSymbols] at hx
    show x < 0x8F00 - 20 ∨ 0x8F00 ≤ x
    omega

theorem smallSymbols_fits : StackFits smallSymbols 0x9000 where
  room := by decide
  tables := smallSymbols_apart
  pointer := by decide

/-- The first program starts. -/
theorem user_confined_small : ∃ u,
    userEnter smallSymbols.tables smallKernel 0x00400000 0x007FF000 0x1000 = .ok u ∧
    u.regs .eip = 0x00400000 ∧ u.regs .esp = 0x00800000 ∧ u.cpl = 3 := by
  obtain ⟨u, hu, heip, hesp, hrun⟩ := user_confined smallKernel_entering
    (show 0x00400000 < 2 ^ 32 by decide) smallSymbols_fits 0x007FF000 0x1000
  exact ⟨u, hu, heip, hesp, (hrun u .start).1⟩

/-! ## 3. The data segments of the handlers -/

/-- A write through ds, by its selector. -/
theorem TablesInstalled.store_exact (h : TablesInstalled S c.mem) (hs : UserData (c.regs .ds)) :
    S.tables.store c .ds =
      if 0x20 ≤ c.regs .ds ∧ c.regs .ds < 0x24 then .ok () else .error ⟨13, 0⟩ := by
  unfold Tables.store Tables.segment
  generalize c.regs .ds = selector at hs
  rw [show S.tables.gdtLimit = 47 from rfl, show S.tables.gdtBase = S.gdt from rfl]
  obtain hnull | hcode | hdata := hs
  · rw [if_pos (show selector / 4 = 0 by omega),
      if_neg (show ¬ (0x20 ≤ selector ∧ selector < 0x24) by omega)]
    rfl
  · have h₁ : selector / 8 * 8 = 24 := by omega
    rw [if_neg (show ¬ selector / 4 = 0 by omega), if_neg (by omega), h₁, h.userCode,
      if_neg (show ¬ (0x20 ≤ selector ∧ selector < 0x24) by omega)]
    rfl
  · have h₁ : selector / 8 * 8 = 32 := by omega
    rw [if_neg (show ¬ selector / 4 = 0 by omega), if_neg (by omega), h₁, h.userData, if_pos hdata]
    rfl

/-- A handler starts with the data segments of user code. -/
theorem InUser.handler_data (h : InUser S top c) (hfit : StackFits S top) {n : Nat} (hn : n < 256)
    {int : Bool} (hint : int = true → n = 0x80) :
    ∃ d, c.deliver S.tables n int [] = .ok d ∧ d.regs .ds = c.regs .ds ∧ TablesInstalled S d.mem := by
  have htop := h.top_eq
  have hroom := hfit.room
  obtain ⟨d, hd, he⟩ := h.tables.deliver hn int (fun e => .inl (hint e)) [] (by
    rw [List.length_nil, htop]
    omega)
  refine ⟨d, hd, he.kept .ds (by decide), h.tables.congr fun x hx => ?_⟩
  have hlen := savedWords_user h.cs
  have hx := hfit.tables x hx
  rw [he.mem, htop, List.append_nil]
  exact pushWords_outside (by omega) (by omega)

/-- **HANDLERS USE THE DATA SEGMENT OF USER CODE.** User code can load ds with the null selectors and
    with those of its code and its data, and with no other; the stubs do not load it, so that a
    system call or a hardware interrupt is handled with what user code has left there, and the
    kernel can write to memory only if that was the data segment: with any other selector the first
    write raises a general protection fault in the kernel. -/
theorem handler_data_exact (h : InUser S top c) (hfit : StackFits S top) (selector : Nat) :
    ((∃ c', S.tables.loadData c .ds selector = .ok c') ↔ UserData selector) ∧
    ∀ c', UserStep S c c' → c'.regs .ds = selector →
      ∀ n, n < 256 → ∀ int, (int = true → n = 0x80) →
        ∃ d, c'.deliver S.tables n int [] = .ok d ∧
          S.tables.store d .ds =
            if 0x20 ≤ selector ∧ selector < 0x24 then .ok () else .error ⟨13, 0⟩ := by
  refine ⟨h.tables.loadData_user h.cs .ds selector, fun c' hs hsel n hn int hint => ?_⟩
  have h' := h.step hs
  obtain ⟨d, hd, hds, hin⟩ := h'.handler_data hfit hn hint
  rw [hsel] at hds
  have hdata := h'.data .ds (by decide)
  rw [hsel, ← hds] at hdata
  rw [← hds]
  exact ⟨d, hd, hin.store_exact hdata⟩

/-- User code loads a null selector and makes a system call. -/
theorem handler_data_exact_null : ∃ c', UserStep smallSymbols smallUser c' ∧ c'.regs .ds = 0 ∧
    ∃ d, c'.deliver smallSymbols.tables 0x80 true [] = .ok d ∧
      smallSymbols.tables.store d .ds = .error ⟨13, 0⟩ := by
  have hin : InUser smallSymbols 0x9000 smallUser :=
    ⟨rfl, rfl, smallUser_data, by decide, by decide,
      (arch_installed _ _).congr smallUser_kept, smallUser_top⟩
  obtain ⟨hload, hstep⟩ := handler_data_exact hin smallSymbols_fits 0
  have hset : ∀ r, (smallUser.set .ds 0).regs r = if r = .ds then 0 else smallUser.regs r :=
    fun r => Core.regs_set_word (by decide) .ds r
  have hs : UserStep smallSymbols smallUser (smallUser.set .ds 0) :=
    { cs := hset .cs
      ss := hset .ss
      data := fun r hr => by
        rw [hset]
        by_cases hr' : r = .ds
        · rw [if_pos hr', hr']
          exact .inr (hload.mpr (.inl (by decide)))
        · rw [if_neg hr']
          exact .inl rfl
      interrupts := by rw [hset, if_neg (by decide)]
      iopl := by rw [Core.iopl, hset, if_neg (by decide), Core.iopl]
      tables := by rw [Core.mem_set]; exact .refl _ _
      stack := by rw [Core.mem_set] }
  obtain ⟨d, hd, hst⟩ := hstep _ hs (hset .ds) 0x80 (by decide) true (fun _ => rfl)
  exact ⟨_, hs, hset .ds, d, hd, hst⟩

/-- **THE FIRST INTERRUPT MAY COME TOO EARLY.** If the kernel calls `user_enter` with its own data
    segment in ds, user code starts with interrupts on and a null selector in ds; a hardware interrupt
    that comes before user code has loaded ds is handled without a data segment. -/
theorem userEnter_window (h : Entering S top c) (hds : c.regs .ds = 0x10) (hentry : entry < 2 ^ 32)
    (hfit : StackFits S top) (stack stackSize : Nat) :
    ∃ u, userEnter S.tables c entry stack stackSize = .ok u ∧
      (u.regs .eflags).testBit 9 = true ∧ u.regs .ds = 0 ∧
      ∀ d, UserRun S u d → d.regs .ds = 0 → ∀ n : Fin 16, ∃ d₀,
        d.deliver S.tables (32 + n) false [] = .ok d₀ ∧
        S.tables.store d₀ .ds = .error ⟨13, 0⟩ := by
  obtain ⟨u, hu, hin, -, -, hnull⟩ := h.inUser hentry stack stackSize
  refine ⟨u, hu, hin.interrupts, hnull hds, fun d hrun hd n => ?_⟩
  have hd' := UserRun.inUser hin hfit hrun
  obtain ⟨d₀, hd₀, hds₀, htab⟩ := hd'.handler_data hfit (show 32 + (n : Nat) < 256 by omega)
    (fun hf : false = true => by cases hf)
  have hzero := hds₀.trans hd
  refine ⟨d₀, hd₀, ?_⟩
  rw [htab.store_exact (by rw [hzero]; exact .inl (by decide)), hzero]
  rfl

/-- The first program starts, and the timer ticks. -/
theorem userEnter_window_small : ∃ u d₀,
    userEnter smallSymbols.tables smallKernel 0x00400000 0x007FF000 0x1000 = .ok u ∧
    u.deliver smallSymbols.tables 32 false [] = .ok d₀ ∧
    smallSymbols.tables.store d₀ .ds = .error ⟨13, 0⟩ := by
  obtain ⟨u, hu, -, hnull, hrun⟩ := userEnter_window smallKernel_entering rfl
    (show 0x00400000 < 2 ^ 32 by decide) smallSymbols_fits 0x007FF000 0x1000
  obtain ⟨d₀, hd₀, hst⟩ := hrun u .start hnull 0
  exact ⟨u, d₀, hu, hd₀, hst⟩

end

end Emyx
