/-
  File:      Emyx/Stubs.lean
  Subject:   THE STUBS (arch/i386/isr_stub.S): from the gate to the C function and back.

  A C function that is called keeps the stack pointer, the segments and what lies on the stack above
  its argument; all else of it is left open (`Returns`).

  * `syscallEntry`, `syscallExit`, `irqEntry`, `irqExit` -- the instructions before and after the
    call;
  * **`syscall_transparent`** -- `int $0x80` passes the registers of user code to
    `syscall_dispatch`, and user code goes on with its result in eax and everything else as it was;
  * **`irq_transparent`** -- a hardware interrupt leaves no trace in the registers, whether it came
    in user code or in the kernel.
-/
import Emyx.Descriptors
import Emyx.Kernel.Syscall

namespace Emyx

open Lib

/-! ## 1. The instructions -/

/-- `pusha; push %esp` -/
def syscallEntry (c : Core) : Core :=
  let c := c.pusha
  c.push (c.regs .esp)

/-- `add $4, %esp; mov %eax, 28(%esp); popa; iret` -/
def syscallExit (T : Tables) (c : Core) : Except Fault Core :=
  let c := c.set .esp (c.regs .esp + 4)
  let c := { c with mem := wr32 c.mem ((c.regs .esp + 28) % 2 ^ 32) (c.regs .eax) }
  c.popa.iret T

/-- `pusha; push $n` -/
def irqEntry (n : Nat) (c : Core) : Core := c.pusha.push n

/-- `add $4, %esp; popa; iret` -/
def irqExit (T : Tables) (c : Core) : Except Fault Core :=
  let c := c.set .esp (c.regs .esp + 4)
  c.popa.iret T

/-- The structure that `syscall_dispatch` gets a pointer to. -/
def frameAt (m : Mem) (a : Nat) : SyscallFrame :=
  ⟨rd32 m a, rd32 m (a + 4), rd32 m (a + 8), rd32 m (a + 12), rd32 m (a + 16), rd32 m (a + 20),
    rd32 m (a + 24), rd32 m (a + 28)⟩

/-- **A call has returned**: `c` is the processor at the call, with one argument on the stack, and the
    stack above it up to `top` is the caller's. -/
structure Returns (top : Nat) (c c' : Core) : Prop where
  esp : c'.regs .esp = c.regs .esp
  cs : c'.regs .cs = c.regs .cs
  ss : c'.regs .ss = c.regs .ss
  data : ∀ r ∈ dataRegs, c'.regs r = c.regs r
  nested : (c'.regs .eflags).testBit 14 = (c.regs .eflags).testBit 14
  stack : AgreeOn (fun x => c.regs .esp + 4 ≤ x ∧ x < top) c.mem c'.mem

/-! ## 2. On the way in -/

section

variable {S : Symbols} {c c₀ c₁ c₂ : Core} {n : Nat}

/-- The selectors of data segments that user code can load. -/
def UserData (selector : Nat) : Prop :=
  selector < 4 ∨ 0x18 ≤ selector ∧ selector < 0x1C ∨ 0x20 ≤ selector ∧ selector < 0x24

/-- User code or kernel code is interrupted, with selectors that it can have. -/
def Segments (c : Core) : Prop :=
  c.regs .cs = 0x1B ∧ c.regs .ss = 0x23 ∧ (∀ r ∈ dataRegs, UserData (c.regs r)) ∨
    c.regs .cs = 0x08

/-- The registers after the way back: of the null selectors, user code finds 0 only. -/
def restored (c : Core) (r : CoreReg) : Nat :=
  if c.cpl ≠ 0 ∧ r ∈ dataRegs ∧ c.regs r < 4 then 0 else c.regs r

theorem generalRegs_notMem {r : CoreReg} (hr : r ∈ generalRegs) : r ∉ dataRegs := by
  cases r <;> simp [generalRegs, dataRegs] at hr ⊢

theorem restored_of_notMem {r : CoreReg} (hr : r ∉ dataRegs) : restored c r = c.regs r :=
  if_neg fun h => hr h.2.1

theorem entryFlags_nested (kind flags : Nat) : (entryFlags kind flags).testBit 14 = false := by
  unfold entryFlags
  split_ifs
  · rw [Nat.testBit_and, show (0xFFFCBCFF : Nat).testBit 14 = false by decide, Bool.and_false]
  · rw [Nat.testBit_and, show (0xFFFCBEFF : Nat).testBit 14 = false by decide, Bool.and_false]

/-- The words on the stack of the handler when it calls: what the processor pushed, the general
    registers, the argument. -/
structure Called (c : Core) (ws : List Nat) (top arg : Nat) (c₁ : Core) : Prop where
  holds : OnStack c₁.mem top
    (ws ++ generalRegs.map (Function.update c.regs .esp (top - 4 * ws.length)) ++ [arg])
  esp : c₁.regs .esp + 4 * (ws.length + 9) = top
  cpl : c₁.cpl = 0
  ss : c₁.regs .ss = handlerSs c
  data : ∀ r ∈ dataRegs, c₁.regs r = c.regs r
  nested : (c₁.regs .eflags).testBit 14 = false
  outside : ∀ x, x < c₁.regs .esp ∨ top ≤ x → c₁.mem x = c.mem x

/-- **The stub has pushed the registers and the argument.** -/
theorem called_of {ws : List Nat} {top arg : Nat}
    (he : Entered c (S.gate n) (handlerSs c) top ws c₀) (hws : ∀ v ∈ ws, v < 2 ^ 32)
    (hroom : 4 * (ws.length + 9) ≤ top) (htop : top < 2 ^ 32) (harg : arg < 2 ^ 32) :
    Called c ws top arg (c₀.pusha.push arg) := by
  have hesp := he.esp
  obtain ⟨hmem, hregs⟩ := Core.pushAll_room (c := c₀) (generalRegs.map c₀.regs)
    (show 4 * 8 ≤ _ by rw [hesp]; omega)
  have hlen : (generalRegs.map c₀.regs).length = 8 := rfl
  rw [hlen, hesp] at hregs
  have hesp' : c₀.pusha.regs .esp = top - 4 * ws.length - 32 := (hregs .esp).trans (if_pos rfl)
  have hpush := Core.regs_push (c := c₀.pusha) (v := arg) (by rw [hesp']; omega)
  have hgen : generalRegs.map c₀.regs =
      generalRegs.map (Function.update c.regs .esp (top - 4 * ws.length)) := by
    refine List.map_congr_left fun r hr => ?_
    by_cases hr' : r = .esp
    · rw [hr', Function.update_self, hesp]
    · rw [Function.update_of_ne hr']
      refine he.kept r fun hm => ?_
      cases r <;> simp [generalRegs] at hr hm hr'
  -- one row of pushes from `top` down
  have hall : (c₀.pusha.push arg).mem = pushWords c.mem top (ws ++ generalRegs.map
      (Function.update c.regs .esp (top - 4 * ws.length)) ++ [arg]) := by
    rw [Core.mem_push (by rw [hesp']; omega), hesp', Core.pusha, hmem, he.mem, hgen, hesp,
      pushWords_append, pushWords_append, List.length_append, List.length_map]
    rfl
  have hlen' : (ws ++ generalRegs.map (Function.update c.regs .esp (top - 4 * ws.length)) ++
      [arg]).length = ws.length + 9 := by
    simp [generalRegs]
  refine ⟨?_, ?_, ?_, ?_, fun r hr => ?_, ?_, fun x hx => ?_⟩
  · rw [hall]
    refine onStack_pushWords (by rw [hlen']; exact hroom) fun v hv => ?_
    rw [List.mem_append, List.mem_append, List.mem_singleton, List.mem_map] at hv
    obtain (hv | ⟨r, -, rfl⟩) | rfl := hv
    · exact hws v hv
    · by_cases hr : r = .esp
      · rw [hr, Function.update_self]
        omega
      · rw [Function.update_of_ne hr]
        exact c.isWord r
    · exact harg
  · rw [hpush, if_pos rfl, hesp']
    omega
  · rw [Core.cpl, hpush, if_neg (by decide), Core.pusha, hregs, if_neg (by decide)]
    exact entered_cpl he
  · rw [hpush, if_neg (by decide), Core.pusha, hregs, if_neg (by decide)]
    exact he.ss
  · have hne : r ≠ .esp ∧ r ∉ [CoreReg.esp, .ss, .eip, .cs, .eflags] := by
      cases r <;> simp [dataRegs] at hr ⊢
    rw [hpush, if_neg hne.1, Core.pusha, hregs, if_neg hne.1]
    exact he.kept r hne.2
  · rw [hpush, if_neg (by decide), Core.pusha, hregs, if_neg (by decide), he.flags]
    exact entryFlags_nested _ _
  · rw [hall]
    refine pushWords_outside (by rw [hlen']; exact hroom) ?_
    rw [hpush, if_pos rfl, hesp'] at hx
    rw [hlen']
    omega

/-- The argument is the last word pushed. -/
theorem Called.argument {ws : List Nat} {top arg : Nat} (h : Called c ws top arg c₁)
    (htop : top < 2 ^ 32) : c₁.stack 0 = arg := by
  have hesp := h.esp
  have harg := h.holds (ws.length + 8) arg (by
    rw [List.getElem?_append_right (by simp [generalRegs])]
    simp [generalRegs])
  rw [Core.stack_eq (by omega), ← harg]
  congr 1
  omega

/-- Where the registers lie, from the last one pushed. -/
theorem Called.register {ws : List Nat} {top arg k : Nat} {r : CoreReg} (h : Called c ws top arg c₁)
    (hk : k < 8) (hr : generalRegs[7 - k]? = some r) :
    rd32 c₁.mem (top - 4 * (ws.length + 8) + 4 * k) =
      Function.update c.regs .esp (top - 4 * ws.length) r := by
  have hesp := h.esp
  have hword := h.holds.left (ws.length + (7 - k)) _ (by
    rw [List.getElem?_append_right (Nat.le_add_right ..), Nat.add_sub_cancel_left,
      List.getElem?_map, hr]
    rfl)
  rw [← hword]
  congr 1
  omega

theorem Symbols.top_lt (S : Symbols) (c : Core) : S.top c < 2 ^ 32 := by
  unfold Symbols.top
  split_ifs
  · exact c.isWord _
  · exact rd32_lt _ _

theorem savedWords_lt (c : Core) : ∀ v ∈ savedWords c, v < 2 ^ 32 := by
  intro v hv
  unfold savedWords Core.outer Core.inner at hv
  split_ifs at hv <;> simp only [List.cons_append, List.nil_append, List.mem_cons,
    List.not_mem_nil, or_false] at hv
  · obtain rfl | rfl | rfl := hv <;> exact c.isWord _
  · obtain rfl | rfl | rfl | rfl | rfl := hv <;> exact c.isWord _

theorem savedWords_length (c : Core) : (savedWords c).length ≤ 5 := by
  unfold savedWords
  split_ifs
  · exact (show 3 ≤ 5 by decide)
  · exact (show 5 ≤ 5 by decide)

/-! ## 3. On the way out -/

/-- The data segments of user code are its own. -/
theorem TablesInstalled.keepData {m : Mem} (h : TablesInstalled S m) {selector : Nat}
    (hs : UserData selector) :
    S.tables.keepData m 3 selector = if selector < 4 then 0 else selector := by
  unfold Tables.keepData Tables.segment
  obtain hnull | hcode | hdata := hs
  · rw [if_pos (by omega), if_pos hnull]
  · have h₁ : selector / 8 * 8 = 24 := by omega
    rw [if_neg (show ¬ selector < 4 by omega), if_neg (by omega),
      if_neg (by simp only [Symbols.tables]; omega), h₁, show S.tables.gdtBase = S.gdt from rfl,
      h.userCode]
    rfl
  · have h₁ : selector / 8 * 8 = 32 := by omega
    rw [if_neg (show ¬ selector < 4 by omega), if_neg (by omega),
      if_neg (by simp only [Symbols.tables]; omega), h₁, show S.tables.gdtBase = S.gdt from rfl,
      h.userData]
    rfl

/-- **`iret` takes the processor back to where it was interrupted.** -/
theorem TablesInstalled.iret {d : Core} (h : TablesInstalled S d.mem) (hseg : Segments c)
    (hd : d.cpl = 0) (hdata : ∀ r ∈ dataRegs, d.regs r = c.regs r)
    (hnested : (d.regs .eflags).testBit 14 = false) (hss : d.regs .ss = handlerSs c)
    (hesp : d.regs .esp + 4 * (savedWords c).length = S.top c) (htop : S.top c < 2 ^ 32)
    (hf : OnStack d.mem (S.top c) (savedWords c)) :
    ∃ d', d.iret S.tables = .ok d' ∧ d'.mem = d.mem ∧ ∀ r, d'.regs r =
      if r ∈ generalRegs ∧ r ≠ .esp then d.regs r else restored c r := by
  unfold savedWords at hesp hf
  unfold Symbols.top at hesp htop hf
  obtain ⟨hcs, hss', huser⟩ | hcs := hseg
  · -- to user code
    have hcpl : c.cpl = 3 := by
      rw [Core.cpl, hcs]
    rw [if_neg (by omega)] at hesp htop hf
    rw [if_neg (by omega)] at hesp hf
    obtain ⟨hlevel, hstack⟩ := h.return_user hd
    rw [← hcs] at hlevel hstack
    rw [← hss'] at hstack
    obtain ⟨d', hrun, hmem, hregs⟩ := Core.iret_outer hd hnested hesp htop hf
      (by rw [hcs]; decide) (by rw [hss']; decide) (by omega) hlevel hstack
    refine ⟨d', hrun, hmem, fun r => ?_⟩
    rw [hregs, hcpl]
    by_cases hr : r ∈ dataRegs
    · have hne : r ∉ [CoreReg.esp, .ss, .eip, .cs, .eflags] ∧ r ∉ generalRegs := by
        cases r <;> simp [dataRegs, generalRegs] at hr ⊢
      have hg : ¬ (r ∈ generalRegs ∧ r ≠ .esp) := fun hg => hne.2 hg.1
      rw [if_neg hne.1, if_pos hr, hdata r hr, h.keepData (huser r hr), if_neg hg, restored]
      simp [hcpl, hr]
    · rw [if_neg hr, restored_of_notMem hr]
      cases r <;> first | rfl | exact absurd (by decide) hr
  · -- to the kernel
    have hcpl : c.cpl = 0 := by
      rw [Core.cpl, hcs]
    rw [if_pos hcpl] at hesp htop hf
    rw [if_pos hcpl] at hesp hf
    rw [handlerSs, if_pos hcpl] at hss
    have hlevel := h.return_kernel hd
    rw [← hcs] at hlevel
    obtain ⟨d', hrun, hmem, hsp, hregs⟩ := Core.iret_inner hd hnested hesp htop hf
      (by rw [hcs]; decide) hcpl hlevel
    have hback : ∀ r, restored c r = c.regs r := fun r => if_neg fun hc => hc.1 hcpl
    refine ⟨d', hrun, hmem, fun r => ?_⟩
    rw [hback]
    by_cases hr : r = .esp
    · rw [hr, hsp, if_neg (by simp)]
    · rw [hregs r hr]
      by_cases hr' : r ∈ dataRegs
      · rw [hdata r hr', ite_self, ite_self]
      · cases r <;> first | rfl | exact hss | exact absurd rfl hr | exact absurd (by decide) hr'

/-- **`popa` and `iret`**: the general registers come from the stack, the rest from the frame that the
    processor pushed. -/
theorem TablesInstalled.leave {d : Core} (h : TablesInstalled S d.mem) (hseg : Segments c)
    (hd : d.cpl = 0) (hdata : ∀ r ∈ dataRegs, d.regs r = c.regs r)
    (hnested : (d.regs .eflags).testBit 14 = false) (hss : d.regs .ss = handlerSs c)
    (hesp : d.regs .esp + 4 * ((savedWords c).length + 8) = S.top c) (htop : S.top c < 2 ^ 32)
    {gen : CoreReg → Nat} (hf : OnStack d.mem (S.top c) (savedWords c ++ generalRegs.map gen)) :
    ∃ u, d.popa.iret S.tables = .ok u ∧ u.mem = d.mem ∧ ∀ r, u.regs r =
      if r ∈ generalRegs ∧ r ≠ .esp then gen r else restored c r := by
  obtain ⟨hmem, hsp, hregs⟩ := Core.popa_regs hf hesp htop
  have hkept : ∀ r, r ∉ generalRegs → d.popa.regs r = d.regs r := fun r hr => by
    rw [hregs r (fun he => hr (by simp [he, generalRegs])), if_neg hr]
  have hdata' : ∀ r ∈ dataRegs, d.popa.regs r = c.regs r := fun r hr => by
    rw [hkept r (by cases r <;> simp [dataRegs, generalRegs] at hr ⊢)]
    exact hdata r hr
  have hcs := hkept .cs (by decide)
  have hflags := hkept .eflags (by decide)
  obtain ⟨u, hrun, humem, huregs⟩ := TablesInstalled.iret (S := S) (c := c) (d := d.popa)
    (by rw [hmem]; exact h) hseg (by rw [Core.cpl, hcs]; exact hd) hdata'
    (by rw [hflags]; exact hnested) ((hkept .ss (by decide)).trans hss) (by rw [hsp]; omega) htop
    (by rw [hmem]; exact hf.left)
  refine ⟨u, hrun, humem.trans hmem, fun r => ?_⟩
  rw [huregs]
  by_cases hg : r ∈ generalRegs ∧ r ≠ .esp
  · rw [if_pos hg, if_pos hg, hregs r hg.2, if_pos hg.1]
  · rw [if_neg hg, if_neg hg]

/-- What the caller finds on its stack. -/
theorem Called.returned {ws : List Nat} {top arg : Nat} (h : Called c ws top arg c₁)
    (hroom : 4 * (ws.length + 9) ≤ top) (hr : Returns top c₁ c₂) :
    OnStack c₂.mem top
      (ws ++ generalRegs.map (Function.update c.regs .esp (top - 4 * ws.length))) := by
  have hesp := h.esp
  have hlen : (ws ++ generalRegs.map (Function.update c.regs .esp (top - 4 * ws.length))).length =
      ws.length + 8 := by
    simp [generalRegs]
  refine h.holds.left.congr (by rw [hlen]; omega) fun x hx => hr.stack x ⟨?_, hx.2⟩
  have hx := hx.1
  rw [hlen] at hx
  omega

/-- `add $4, %esp; popa; iret` after the call. -/
theorem Called.leave {arg : Nat} (h : Called c (savedWords c) (S.top c) arg c₁) (hseg : Segments c)
    (hr : Returns (S.top c) c₁ c₂) {d : Core} (hd : d.regs = (c₂.set .esp (c₂.regs .esp + 4)).regs)
    (hin : TablesInstalled S d.mem) {gen : CoreReg → Nat}
    (hf : OnStack d.mem (S.top c) (savedWords c ++ generalRegs.map gen)) :
    ∃ u, d.popa.iret S.tables = .ok u ∧ u.mem = d.mem ∧ ∀ r, u.regs r =
      if r ∈ generalRegs ∧ r ≠ .esp then gen r else restored c r := by
  have hesp := h.esp
  have htop := S.top_lt c
  have hset := Core.regs_set_word (c := c₂) (v := c₂.regs .esp + 4) (by rw [hr.esp]; omega) .esp
  have hcs := (hset .cs).trans (if_neg (by decide))
  have hflags := (hset .eflags).trans (if_neg (by decide))
  have hss := (hset .ss).trans (if_neg (by decide))
  refine hin.leave hseg ?_ (fun r hr' => ?_) ?_ ?_ ?_ htop hf
  · rw [Core.cpl, hd, hcs, hr.cs]
    exact h.cpl
  · rw [hd, hset, if_neg (by rintro rfl; simp [dataRegs] at hr'), hr.data r hr', h.data r hr']
  · rw [hd, hflags, hr.nested]
    exact h.nested
  · rw [hd, hss, hr.ss]
    exact h.ss
  · rw [hd, hset, if_pos rfl, hr.esp]
    omega

/-! ## 4. Hardware interrupts -/

/-- The stub of line `n` is entered and calls. -/
theorem TablesInstalled.irq_called (h : TablesInstalled S c.mem) (hroom : 56 ≤ S.top c) (n : Fin 16) :
    ∃ c₀, c.deliver S.tables (32 + n) false [] = .ok c₀ ∧ c₀.regs .eip = S.irq n ∧
      Called c (savedWords c) (S.top c) n (irqEntry n c₀) := by
  have hn := n.isLt
  have hlen := savedWords_length c
  obtain ⟨c₀, hc₀, he⟩ := h.deliver (n := 32 + n) (by omega) false (fun hf => by cases hf) []
    (show 4 * (5 + 0) ≤ _ by omega)
  rw [List.append_nil] at he
  refine ⟨c₀, hc₀, ?_, called_of he (savedWords_lt c) (by omega) (S.top_lt c) (by omega)⟩
  rw [he.eip]
  have h₁ : ¬ 32 + (n : Nat) < 32 := by omega
  have h₂ : 32 + (n : Nat) < 48 := by omega
  have hsub : 32 + (n : Nat) - 32 = n := by omega
  simp [Symbols.gate, Symbols.handler, h₁, h₂, hsub]

/-- The way back of an interrupt. -/
theorem Called.irqExit {arg : Nat} (h : Called c (savedWords c) (S.top c) arg c₁) (hseg : Segments c)
    (hroom : 56 ≤ S.top c) (hr : Returns (S.top c) c₁ c₂) (hin : TablesInstalled S c₂.mem) :
    ∃ u, Emyx.irqExit S.tables c₂ = .ok u ∧ u.mem = c₂.mem ∧ ∀ r, u.regs r = restored c r := by
  have hlen := savedWords_length c
  obtain ⟨u, hrun, hmem, hregs⟩ := h.leave hseg hr (d := c₂.set .esp (c₂.regs .esp + 4)) rfl
    (by rw [Core.mem_set]; exact hin) (by rw [Core.mem_set]; exact h.returned (by omega) hr)
  refine ⟨u, hrun, hmem.trans (Core.mem_set ..), fun r => ?_⟩
  rw [hregs]
  split_ifs with hg
  · rw [Function.update_of_ne hg.2, restored_of_notMem]
    exact generalRegs_notMem hg.1
  · rfl

/-- **A hardware interrupt leaves no trace.** Line `n` interrupts user code or the kernel: its stub is
    entered and calls `irq_handler(n)`; when that returns, so does the interrupt, and every register
    is what it was (a null selector of user code is 0). -/
theorem irq_transparent {m : Mem} (hkept : AgreeOn S.Table (idtInit S (gdtInit S m)) c.mem)
    (hseg : Segments c) (hroom : 56 ≤ S.top c) (n : Fin 16) :
    ∃ c₀, c.deliver S.tables (32 + n) false [] = .ok c₀ ∧ c₀.regs .eip = S.irq n ∧
      (irqEntry n c₀).stack 0 = n ∧
      (∀ x, x < S.top c - 56 ∨ S.top c ≤ x → (irqEntry n c₀).mem x = c.mem x) ∧
      ∀ c₂, Returns (S.top c) (irqEntry n c₀) c₂ → AgreeOn S.Table c.mem c₂.mem →
        ∃ u, irqExit S.tables c₂ = .ok u ∧ u.mem = c₂.mem ∧ ∀ r, u.regs r = restored c r := by
  have h := (arch_installed S m).congr hkept
  obtain ⟨c₀, hc₀, heip, hcalled⟩ := h.irq_called hroom n
  have hesp := hcalled.esp
  have hlen := savedWords_length c
  exact ⟨c₀, hc₀, heip, hcalled.argument (S.top_lt c), fun x hx => hcalled.outside x (by omega),
    fun c₂ hr ha => hcalled.irqExit hseg hroom hr (h.congr ha)⟩

theorem smallUser_data : ∀ r ∈ dataRegs, UserData (smallUser.regs r) := by
  intro r hr
  have h23 : smallUser.regs r = 0x23 := by
    cases r <;> simp [dataRegs] at hr <;> rfl
  rw [h23]
  exact .inr (.inr (by decide))

/-- User code is interrupted by the keyboard. -/
theorem irq_transparent_user : ∃ c₀ u,
    smallUser.deliver smallSymbols.tables 33 false [] = .ok c₀ ∧
    irqExit smallSymbols.tables (irqEntry 1 c₀) = .ok u ∧ u.regs .eip = 0x00400000 := by
  have htop : smallSymbols.top smallUser = 0x9000 := by
    rw [Symbols.top, if_neg (by decide), smallUser_top]
  obtain ⟨c₀, hc₀, -, -, hmem, hback⟩ :=
    irq_transparent smallUser_kept (.inl ⟨rfl, rfl, smallUser_data⟩) (by rw [htop]; decide) 1
  obtain ⟨u, hu, -, hregs⟩ := hback _ ⟨rfl, rfl, rfl, fun _ _ => rfl, rfl, .refl _ _⟩
    fun x hx => hmem x (by rw [htop]; exact smallSymbols_apart x hx)
  exact ⟨c₀, u, hc₀, hu, hregs .eip⟩

/-! ## 5. System calls -/

theorem top_user (hcs : c.regs .cs = 0x1B) : S.top c = rd32 c.mem (S.tss + 4) := by
  rw [Symbols.top, Core.cpl, hcs]
  rfl

theorem savedWords_user (hcs : c.regs .cs = 0x1B) : (savedWords c).length = 5 := by
  rw [savedWords, Core.cpl, hcs]
  rfl

/-- The stub of the system call is entered and calls. -/
theorem TablesInstalled.syscall_called (h : TablesInstalled S c.mem) (hcs : c.regs .cs = 0x1B)
    (hroom : 56 ≤ S.top c) :
    ∃ c₀, c.deliver S.tables 0x80 true [] = .ok c₀ ∧ c₀.regs .eip = S.syscallStub ∧
      Called c (savedWords c) (S.top c) (S.top c - 52) (syscallEntry c₀) := by
  have hlen := savedWords_user hcs
  obtain ⟨c₀, hc₀, he⟩ := h.deliver (n := 0x80) (by decide) true (fun _ => .inl rfl) []
    (show 4 * (5 + 0) ≤ _ by omega)
  rw [List.append_nil] at he
  have hpusha : c₀.pusha.regs .esp = S.top c - 52 := by
    obtain ⟨-, hregs⟩ := Core.pushAll_room (c := c₀) (generalRegs.map c₀.regs)
      (show 4 * 8 ≤ _ by rw [he.esp, hlen]; omega)
    rw [Core.pusha, hregs, if_pos rfl, he.esp, hlen]
    show S.top c - 4 * 5 - 4 * 8 = _
    omega
  refine ⟨c₀, hc₀, he.eip, ?_⟩
  rw [← hpusha]
  exact called_of he (savedWords_lt c) (by omega) (S.top_lt c) (c₀.pusha.isWord _)

/-- The frame that `syscall_dispatch` gets, from edi up to eax. -/
theorem Called.frame (h : Called c (savedWords c) (S.top c) (S.top c - 52) c₁)
    (hcs : c.regs .cs = 0x1B) : frameAt c₁.mem (c₁.stack 0) =
      ⟨c.regs .edi, c.regs .esi, c.regs .ebp, S.top c - 20, c.regs .ebx, c.regs .edx, c.regs .ecx,
        c.regs .eax⟩ := by
  have hlen := savedWords_user hcs
  have hreg : ∀ k r, k < 8 → generalRegs[7 - k]? = some r →
      rd32 c₁.mem (S.top c - 52 + 4 * k) = Function.update c.regs .esp (S.top c - 20) r := by
    intro k r hk hr
    have hword := h.register hk hr
    rwa [hlen, show S.top c - 4 * (5 + 8) + 4 * k = S.top c - 52 + 4 * k by omega] at hword
  rw [h.argument (S.top_lt c), frameAt]
  have h₀ := hreg 0 .edi (by decide) rfl
  have h₁ := hreg 1 .esi (by decide) rfl
  have h₂ := hreg 2 .ebp (by decide) rfl
  have h₃ := hreg 3 .esp (by decide) rfl
  have h₄ := hreg 4 .ebx (by decide) rfl
  have h₅ := hreg 5 .edx (by decide) rfl
  have h₆ := hreg 6 .ecx (by decide) rfl
  have h₇ := hreg 7 .eax (by decide) rfl
  simp only [Nat.mul_zero, Nat.reduceMul, Nat.add_zero] at h₀ h₁ h₂ h₃ h₄ h₅ h₆ h₇
  rw [h₀, h₁, h₂, h₃, h₄, h₅, h₆, h₇]
  simp

/-- The way back of a system call: the result goes into the word that `popa` takes eax from. -/
theorem Called.syscallExit (h : Called c (savedWords c) (S.top c) (S.top c - 52) c₁)
    (hcs : c.regs .cs = 0x1B) (hss : c.regs .ss = 0x23) (hdata : ∀ r ∈ dataRegs, UserData (c.regs r))
    (hroom : 56 ≤ S.top c) (hapart : ∀ x, S.Table x → x < S.top c - 56 ∨ S.top c ≤ x)
    (hr : Returns (S.top c) c₁ c₂) (hin : TablesInstalled S c₂.mem) :
    ∃ u, Emyx.syscallExit S.tables c₂ = .ok u ∧
      (∀ r, u.regs r = if r = .eax then c₂.regs .eax else restored c r) ∧
      ∀ x, x < S.top c - 56 ∨ S.top c ≤ x → u.mem x = c₂.mem x := by
  have hlen := savedWords_user hcs
  have hlt := S.top_lt c
  have hesp := h.esp
  rw [hlen] at hesp
  have hset := Core.regs_set_word (c := c₂) (v := c₂.regs .esp + 4) (by rw [hr.esp]; omega) .esp
  have hslot : ((c₂.set .esp (c₂.regs .esp + 4)).regs .esp + 28) % 2 ^ 32 =
      S.top c - 4 * (5 + 1) := by
    rw [hset, if_pos rfl, hr.esp]
    omega
  have heax : (c₂.set .esp (c₂.regs .esp + 4)).regs .eax = c₂.regs .eax :=
    (hset .eax).trans (if_neg (by decide))
  have hout : ∀ x, x < S.top c - 56 ∨ S.top c ≤ x →
      wr32 c₂.mem (S.top c - 4 * (5 + 1)) (c₂.regs .eax) x = c₂.mem x := fun x hx =>
    wr32_outside (by omega)
  have hframe : OnStack (wr32 c₂.mem (S.top c - 4 * (5 + 1)) (c₂.regs .eax)) (S.top c)
      (savedWords c ++ generalRegs.map (Function.update (Function.update c.regs .esp
        (S.top c - 4 * (savedWords c).length)) .eax (c₂.regs .eax))) := by
    have hs := (h.returned (by omega) hr).set (i := 5) (v := c₂.regs .eax)
      (by simp [generalRegs, hlen]; omega) (by simp [hlen, generalRegs]) (c₂.isWord _)
    rw [List.set_append_right _ _ (by omega), hlen] at hs
    rw [hlen]
    exact hs
  obtain ⟨u, hrun, hmem, hregs⟩ := h.leave (.inl ⟨hcs, hss, hdata⟩) hr
    (d := { c₂.set .esp (c₂.regs .esp + 4) with
      mem := wr32 c₂.mem (S.top c - 4 * (5 + 1)) (c₂.regs .eax) }) rfl
    (hin.congr fun x hx => hout x (hapart x hx)) hframe
  refine ⟨u, ?_, fun r => ?_, fun x hx => ?_⟩
  · unfold Emyx.syscallExit
    dsimp only at hrun ⊢
    rw [hslot, heax, Core.mem_set]
    exact hrun
  · rw [hregs]
    by_cases hr : r = .eax
    · rw [hr, if_pos (by decide), if_pos rfl, Function.update_self]
    · rw [if_neg hr, Function.update_of_ne hr]
      split_ifs with hg
      · rw [Function.update_of_ne hg.2, restored_of_notMem]
        exact generalRegs_notMem hg.1
      · rfl
  · rw [hmem]
    exact hout x hx

/-- **A system call is a call.** User code executes `int $0x80`: the stub is entered, and
    `syscall_dispatch` finds the registers of user code in the frame it is given (the stack pointer
    there is that of the stub). When it returns, user code goes on with the result in eax and every
    other register as it was (a null selector is 0), and the stub has written nothing but its own
    frame. -/
theorem syscall_transparent {m : Mem} (hkept : AgreeOn S.Table (idtInit S (gdtInit S m)) c.mem)
    (hcs : c.regs .cs = 0x1B) (hss : c.regs .ss = 0x23) (hdata : ∀ r ∈ dataRegs, UserData (c.regs r))
    {top : Nat} (htop : rd32 c.mem (S.tss + 4) = top) (hroom : 56 ≤ top)
    (hapart : ∀ x, S.Table x → x < top - 56 ∨ top ≤ x) :
    ∃ c₀, c.deliver S.tables 0x80 true [] = .ok c₀ ∧ c₀.regs .eip = S.syscallStub ∧
      frameAt (syscallEntry c₀).mem ((syscallEntry c₀).stack 0) =
        ⟨c.regs .edi, c.regs .esi, c.regs .ebp, top - 20, c.regs .ebx, c.regs .edx, c.regs .ecx,
          c.regs .eax⟩ ∧
      (∀ x, x < top - 56 ∨ top ≤ x → (syscallEntry c₀).mem x = c.mem x) ∧
      ∀ c₂, Returns top (syscallEntry c₀) c₂ → AgreeOn S.Table c.mem c₂.mem →
        ∃ u, syscallExit S.tables c₂ = .ok u ∧
          (∀ r, u.regs r = if r = .eax then c₂.regs .eax else restored c r) ∧
          ∀ x, x < top - 56 ∨ top ≤ x → u.mem x = c₂.mem x := by
  have h := (arch_installed S m).congr hkept
  rw [← top_user hcs] at htop
  subst htop
  obtain ⟨c₀, hc₀, heip, hcalled⟩ := h.syscall_called hcs hroom
  have hesp := hcalled.esp
  have hlen := savedWords_length c
  exact ⟨c₀, hc₀, heip, hcalled.frame hcs, fun x hx => hcalled.outside x (by omega),
    fun c₂ hr ha => hcalled.syscallExit hcs hss hdata hroom hapart hr (h.congr ha)⟩

/-- A system call of user code, and a C function that returns at once. -/
theorem syscall_transparent_user : ∃ c₀ u,
    smallUser.deliver smallSymbols.tables 0x80 true [] = .ok c₀ ∧
    syscallExit smallSymbols.tables (syscallEntry c₀) = .ok u ∧
    u.regs .eip = 0x00400000 ∧ u.regs .esp = 0x00800000 := by
  obtain ⟨c₀, hc₀, -, -, hmem, hback⟩ :=
    syscall_transparent smallUser_kept rfl rfl smallUser_data smallUser_top (by decide)
      smallSymbols_apart
  obtain ⟨u, hu, hregs, -⟩ := hback _ ⟨rfl, rfl, rfl, fun _ _ => rfl, rfl, .refl _ _⟩
    fun x hx => hmem x (smallSymbols_apart x hx)
  exact ⟨c₀, u, hc₀, hu, (hregs .eip).trans (if_neg (by decide)),
    (hregs .esp).trans (if_neg (by decide))⟩

end

end Emyx
