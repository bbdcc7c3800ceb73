/-
  File:      Emyx/ContextSwitch.lean
  Subject:   SWITCHING BETWEEN KERNEL STACKS (arch/i386/context_switch.S, arch/i386/sched.c).

  The kernel half is mapped the same way in every address space, so the addresses here are the
  kernel's virtual ones, and memory is what the kernel sees there.

  * `schedContextSwitch` -- the instructions; `contextSwitch_run` -- what they do: five words on the
    old stack, the old stack pointer saved, five words off the new stack;
  * `prepareKthreadStack` -- the first frame of a thread, built to be taken by that code;
  * `Layout`, `SwStep`, `SwReach` -- tasks with stacks of their own, switching in any order, and
    between switches doing what they like outside the other tasks' stacks;
  * **`switch_resumes`** -- a task that is switched to goes on exactly where it called, or enters
    the trampoline on an aligned stack if it is new.
-/
import Emyx.Kernel.Sched
import Emyx.Lib.Cpu

namespace Emyx

open Lib

/-! ## 1. The instructions -/

/-- `sched_context_switch` -/
def schedContextSwitch : List Instr :=
  [.push .ebp, .push .ebx, .push .esi, .push .edi,
   .load 20 .esp .eax, .load 24 .esp .edx, .store .esp .eax, .mov .edx .esp,
   .pop .edi, .pop .esi, .pop .ebx, .pop .ebp, .ret]

/-- The registers a call must keep, in the order they are pushed. -/
def calleeSaved : List Reg := [.ebp, .ebx, .esi, .edi]

/-- Store old esp, then move to the new task's stack. -/
def switchStacks : List Instr :=
  [.load 20 .esp .eax, .load 24 .esp .edx, .store .esp .eax, .mov .edx .esp]

/-- The registers come from the new task's stack, and so does the place to go on. -/
def restoreRegs : List Instr := [.pop .edi, .pop .esi, .pop .ebx, .pop .ebp, .ret]

theorem schedContextSwitch_eq :
    schedContextSwitch = calleeSaved.map .push ++ (switchStacks ++ restoreRegs) := rfl

variable {c : Cpu}

theorem switchStacks_run (h : c.regs .esp + 28 ≤ 2 ^ 32) :
    (c.run switchStacks).mem =
      wr32 c.mem (rd32 c.mem (c.regs .esp + 20)) (c.regs .esp) ∧
    (c.run switchStacks).regs .esp = rd32 c.mem (c.regs .esp + 24) := by
  have h20 : (c.regs .esp + 20) % 4294967296 = c.regs .esp + 20 := by omega
  have h24 : (c.regs .esp + 24) % 4294967296 = c.regs .esp + 24 := by omega
  have hw : ∀ a, rd32 c.mem a % 4294967296 = rd32 c.mem a := fun a => Nat.mod_eq_of_lt (rd32_lt _ _)
  simp [switchStacks, Cpu.exec, h20, h24, hw]

/-- The five words at the stack pointer. -/
structure Restored (m : Mem) (new : Nat) (c' : Cpu) : Prop where
  mem : c'.mem = m
  esp : c'.regs .esp = new + 20
  edi : c'.regs .edi = rd32 m new
  esi : c'.regs .esi = rd32 m (new + 4)
  ebx : c'.regs .ebx = rd32 m (new + 8)
  ebp : c'.regs .ebp = rd32 m (new + 12)
  eip : c'.eip = rd32 m (new + 16)

theorem restoreRegs_run (h : c.regs .esp + 20 < 2 ^ 32) :
    Restored c.mem (c.regs .esp) (c.run restoreRegs) := by
  obtain ⟨hm, he, hpop, _⟩ := Cpu.run_pops (c := c) [.edi, .esi, .ebx, .ebp] (by decide) (by decide)
    (show c.regs .esp + 16 < 2 ^ 32 by omega)
  have hrun : c.run restoreRegs = (c.run ([Reg.edi, .esi, .ebx, .ebp].map .pop)).exec .ret := rfl
  rw [hrun]
  generalize c.run ([Reg.edi, .esi, .ebx, .ebp].map .pop) = c3 at *
  have he' : c3.regs .esp = c.regs .esp + 16 := he
  have hdrop := Cpu.regs_dropWord (c := c3) (by omega)
  have hreg : ∀ i r a, r ≠ .esp → [Reg.edi, .esi, .ebx, .ebp][i]? = some r →
      a = c.regs .esp + 4 * i → (c3.exec .ret).regs r = rd32 c.mem a := fun i r a hr hi ha => by
    rw [Cpu.regs_ret, hdrop r, if_neg hr, hpop i r hi, ha]
  refine ⟨by rw [Cpu.mem_ret, hm], ?_, hreg 0 .edi _ (by decide) rfl rfl,
    hreg 1 .esi _ (by decide) rfl rfl, hreg 2 .ebx _ (by decide) rfl rfl,
    hreg 3 .ebp _ (by decide) rfl rfl, ?_⟩
  · rw [Cpu.regs_ret, hdrop, if_pos rfl, he']
  · rw [Cpu.eip_ret, Cpu.topWord, hm, he']

/-- Memory after the switch: the registers on the old stack, and its pointer at `old`. -/
def switchedMem (c : Cpu) (old : Nat) : Mem :=
  wr32 (pushWords c.mem (c.regs .esp) (calleeSaved.map c.regs)) old (c.regs .esp - 16)

/-- **The switch**, on arguments `old` and `new`: five words of the new stack say where to go on. -/
theorem contextSwitch_run {old new : Nat} (h16 : 16 ≤ c.regs .esp) (hargs : c.regs .esp + 12 ≤ 2 ^ 32)
    (hold : rd32 c.mem (c.regs .esp + 4) = old) (hnew : rd32 c.mem (c.regs .esp + 8) = new)
    (htop : new + 20 < 2 ^ 32) : Restored (switchedMem c old) new (c.run schedContextSwitch) := by
  rw [schedContextSwitch_eq, Cpu.run_append, Cpu.run_append]
  obtain ⟨hm1, he1⟩ := Cpu.run_pushes (c := c) calleeSaved (by decide) h16
  generalize c.run (calleeSaved.map .push) = c1 at *
  have he1' : c1.regs .esp = c.regs .esp - 16 := he1
  -- the arguments lie above what was pushed
  have harg : ∀ k, 4 ≤ k → rd32 c1.mem (c.regs .esp + k) = rd32 c.mem (c.regs .esp + k) :=
    fun k hk => by
      rw [hm1]
      exact rd32_congr fun i _ => pushWords_outside h16 (by omega)
  obtain ⟨hm2, he2⟩ := switchStacks_run (c := c1) (by omega)
  rw [he1', show c.regs .esp - 16 + 20 = c.regs .esp + 4 by omega, harg 4 (by decide), hold, hm1] at hm2
  rw [he1', show c.regs .esp - 16 + 24 = c.regs .esp + 8 by omega, harg 8 (by decide), hnew] at he2
  have := restoreRegs_run (c := c1.run switchStacks) (by omega)
  rw [hm2, he2] at this
  exact this

/-! ## 2. The first frame of a thread -/

/-- `sched_prepare_kthread_stack`: the stack pointer it returns, and memory. -/
def prepareKthreadStack (m : Mem) (stack stackSize trampoline : Nat) : Nat × Mem :=
  let top := (stack + stackSize) % 2 ^ 32 &&& 0xfffffff0
  (top - 24, pushWords m top [0, trampoline, 0, 0, 0, 0])

/-- What the kernel sees of physical memory in the direct map. -/
def kernelView (m : Mem) : Mem := fun v => m (v - 0xC0000000)

theorem view_poke32 {m m' mv : Mem} {p x : Nat}
    (hv : AgreeOn (fun v => 0xC0000000 ≤ v) mv (kernelView m)) (e : poke32 m p x = .ok m') :
    AgreeOn (fun v => 0xC0000000 ≤ v) (wr32 mv p x) (kernelView m') := fun v hb => by
  unfold poke32 at e
  split at e
  · rename_i hp
    obtain rfl := Except.ok.inj e
    simp only [kernelView]
    by_cases hin : p ≤ v ∧ v < p + 4
    · obtain ⟨i, rfl⟩ := Nat.exists_eq_add_of_le hin.1
      rw [show p + i - 0xC0000000 = p - 0xC0000000 + i by omega]
      exact (put_inside (by omega)).trans (put_inside (by omega)).symm
    · rw [wr32_outside (by omega), wr32_outside (by omega)]
      exact hv v hb
  · cases e

/-- The kernel's model of the function, on physical memory, does the same. -/
theorem prepareKthreadStack_view {m m' : Mem} {stack trampoline : Nat}
    (e : schedPrepareKthreadStack m stack trampoline = .ok m') :
    AgreeOn (fun v => 0xC0000000 ≤ v) (prepareKthreadStack (kernelView m) stack 2048 trampoline).2
      (kernelView m') := by
  unfold schedPrepareKthreadStack at e
  obtain ⟨m1, e1, e⟩ := bind_ok.mp e
  obtain ⟨m2, e2, e⟩ := bind_ok.mp e
  obtain ⟨m3, e3, e⟩ := bind_ok.mp e
  obtain ⟨m4, e4, e⟩ := bind_ok.mp e
  obtain ⟨m5, e5, e6⟩ := bind_ok.mp e
  have h := view_poke32 (view_poke32 (view_poke32 (view_poke32 (view_poke32 (view_poke32
    (AgreeOn.refl _ _) e1) e2) e3) e4) e5) e6
  have hm : (prepareKthreadStack (kernelView m) stack 2048 trampoline).2 =
      pushWords (kernelView m) (stackTop stack) [0, trampoline, 0, 0, 0, 0] := rfl
  rw [hm]
  simpa only [pushWords, Nat.sub_sub] using h

/-! ## 3. Tasks with stacks of their own -/

/-- Where the kernel stacks and the `stack_pointer` fields of the tasks lie. -/
structure Layout (ι : Type) where
  lo : ι → Nat
  hi : ι → Nat
  field : ι → Nat
  top : ∀ i, hi i < 2 ^ 32
  fieldTop : ∀ i, field i < 2 ^ 32
  stacksApart : ∀ i j, i ≠ j → hi i ≤ lo j ∨ hi j ≤ lo i
  fieldsApart : ∀ i j, i ≠ j → field i + 4 ≤ field j ∨ field j + 4 ≤ field i
  apart : ∀ i j, field i + 4 ≤ lo j ∨ hi j ≤ field i

variable {ι : Type}

/-- A byte of the stack of `i`, or of its saved stack pointer. -/
def Layout.Owned (L : Layout ι) (i : ι) (x : Nat) : Prop :=
  L.lo i ≤ x ∧ x < L.hi i ∨ L.field i ≤ x ∧ x < L.field i + 4

theorem Layout.owned_unique (L : Layout ι) {i j : ι} {x : Nat} (hi : L.Owned i x) (hj : L.Owned j x) :
    i = j := by
  refine Classical.byContradiction fun hne => ?_
  have h1 := L.stacksApart i j hne
  have h2 := L.fieldsApart i j hne
  have h3 := L.apart i j
  have h4 := L.apart j i
  unfold Layout.Owned at hi hj
  omega

/-- What a task had when it called `sched_context_switch`. -/
structure Context where
  ebp : Nat
  ebx : Nat
  esi : Nat
  edi : Nat
  esp : Nat
  ret : Nat

/-- The processor goes on with `x`. -/
structure Resumes (c : Cpu) (x : Context) : Prop where
  ebp : c.regs .ebp = x.ebp
  ebx : c.regs .ebx = x.ebx
  esi : c.regs .esi = x.esi
  edi : c.regs .edi = x.edi
  esp : c.regs .esp = x.esp
  ret : c.eip = x.ret

inductive TaskStack where
  /-- no task, or one that has exited -/
  | absent
  /-- built by `sched_prepare_kthread_stack`, never switched to -/
  | prepared
  | suspended (x : Context)

/-- What the processor does when it is switched to a task in this state. -/
def SwitchedTo (trampoline : Nat) (c : Cpu) : TaskStack → Prop
  | .absent => True
  | .prepared => c.eip = trampoline ∧ rd32 c.mem (c.regs .esp) = 0 ∧ (c.regs .esp + 4) % 16 = 0
  | .suspended x => Resumes c x

/-! ## 4. What a task leaves on its stack -/

/-- The five words of a frame. -/
structure Frame (m : Mem) (s : Nat) (x : Context) : Prop where
  edi : rd32 m s = x.edi
  esi : rd32 m (s + 4) = x.esi
  ebx : rd32 m (s + 8) = x.ebx
  ebp : rd32 m (s + 12) = x.ebp
  ret : rd32 m (s + 16) = x.ret

/-- The saved stack pointer of `j` is `s`, and points to a frame on its stack. -/
structure Saved (L : Layout ι) (m : Mem) (j : ι) (s : Nat) (x : Context) : Prop where
  field : rd32 m (L.field j) = s
  lo : L.lo j ≤ s
  hi : s + 20 ≤ L.hi j
  esp : x.esp = s + 20
  frame : Frame m s x

/-- A task that is not running is as it was left. -/
def Kept (L : Layout ι) (trampoline : Nat) (m : Mem) (j : ι) : TaskStack → Prop
  | .absent => True
  | .prepared => ∃ s, Saved L m j s ⟨0, 0, 0, 0, s + 20, trampoline⟩ ∧ rd32 m (s + 20) = 0 ∧
      s + 24 ≤ L.hi j ∧ (s + 24) % 16 = 0
  | .suspended x => ∃ s, Saved L m j s x

variable {L : Layout ι} {trampoline : Nat}

theorem Saved.congr {m m' : Mem} {j : ι} {s : Nat} {x : Context} (h : Saved L m j s x)
    (ha : AgreeOn (L.Owned j) m m') : Saved L m' j s x := by
  have hlo := h.lo
  have hhi := h.hi
  have hw : ∀ k, k ≤ 16 → rd32 m' (s + k) = rd32 m (s + k) := fun k hk =>
    ha.rd32 fun i hi => Or.inl (by omega)
  refine ⟨(ha.rd32 fun i hi => Or.inr (by omega)).trans h.field, hlo, hhi, h.esp, ?_⟩
  exact ⟨(hw 0 (by decide)).trans h.frame.edi, (hw 4 (by decide)).trans h.frame.esi,
    (hw 8 (by decide)).trans h.frame.ebx, (hw 12 (by decide)).trans h.frame.ebp,
    (hw 16 (by decide)).trans h.frame.ret⟩

theorem Kept.congr {m m' : Mem} {j : ι} {k : TaskStack} (h : Kept L trampoline m j k)
    (ha : k ≠ .absent → AgreeOn (L.Owned j) m m') : Kept L trampoline m' j k := by
  cases k with
  | absent => trivial
  | prepared =>
    obtain ⟨s, hs, hz, htop, hal⟩ := h
    have ha := ha (by simp)
    have hlo := hs.lo
    exact ⟨s, hs.congr ha, (ha.rd32 fun i hi => Or.inl (by omega)).trans hz, htop, hal⟩
  | suspended x =>
    obtain ⟨s, hs⟩ := h
    exact ⟨s, hs.congr (ha (by simp))⟩

/-- **Going on with a saved frame.** -/
theorem Saved.resumes {m : Mem} {j : ι} {s : Nat} {x : Context} {c' : Cpu} (h : Saved L m j s x)
    (hr : Restored m s c') : Resumes c' x :=
  ⟨hr.ebp.trans h.frame.ebp, hr.ebx.trans h.frame.ebx, hr.esi.trans h.frame.esi,
    hr.edi.trans h.frame.edi, hr.esp.trans h.esp.symm, hr.eip.trans h.frame.ret⟩

theorem Kept.switchedTo {m : Mem} {j : ι} {k : TaskStack} {c' : Cpu} (h : Kept L trampoline m j k)
    (hr : Restored m (rd32 m (L.field j)) c') : SwitchedTo trampoline c' k := by
  cases k with
  | absent => trivial
  | prepared =>
    obtain ⟨s, hs, hz, _, hal⟩ := h
    rw [hs.field] at hr
    have hx := hs.resumes hr
    refine ⟨hx.ret, ?_, ?_⟩
    · rw [hr.mem, hx.esp]
      exact hz
    · rw [hx.esp]
      exact hal
  | suspended x =>
    obtain ⟨s, hs⟩ := h
    rw [hs.field] at hr
    exact hs.resumes hr

theorem Kept.top {m : Mem} {j : ι} {k : TaskStack} (h : Kept L trampoline m j k) (hk : k ≠ .absent) :
    rd32 m (L.field j) + 20 < 2 ^ 32 := by
  have htop := L.top j
  cases k with
  | absent => exact absurd rfl hk
  | prepared =>
    obtain ⟨s, hs, _⟩ := h
    rw [hs.field]
    exact Nat.lt_of_le_of_lt hs.hi htop
  | suspended x =>
    obtain ⟨s, hs⟩ := h
    rw [hs.field]
    exact Nat.lt_of_le_of_lt hs.hi htop

/-- **The first frame** is one that the switch takes. -/
theorem kept_prepared (m : Mem) {i : ι} (hsize : L.lo i + 40 ≤ L.hi i) (ht : trampoline < 2 ^ 32) :
    let r := prepareKthreadStack m (L.lo i) (L.hi i - L.lo i) trampoline
    Kept L trampoline (wr32 r.2 (L.field i) r.1) i .prepared ∧
    ∀ x, ¬ L.Owned i x → wr32 r.2 (L.field i) r.1 x = m x := by
  have htop := L.top i
  have hap := L.apart i i
  have he : (L.lo i + (L.hi i - L.lo i)) % 2 ^ 32 &&& 0xfffffff0 = L.hi i / 16 * 16 := by
    rw [show L.lo i + (L.hi i - L.lo i) = L.hi i by omega, Nat.mod_eq_of_lt htop, land_align16 htop]
  simp only [prepareKthreadStack, he]
  obtain ⟨top, htop'⟩ : ∃ top, top = L.hi i / 16 * 16 := ⟨_, rfl⟩
  rw [← htop']
  have hword : ∀ k v, [0, trampoline, 0, 0, 0, 0][k]? = some v →
      rd32 (wr32 (pushWords m top [0, trampoline, 0, 0, 0, 0]) (L.field i) (top - 24))
        (top - 4 * (k + 1)) = v % 2 ^ 32 := fun k v hk => by
    have hlt : k < 6 := (List.getElem?_eq_some_iff.mp hk).1
    rw [rd32_wr32_outside (by omega)]
    exact rd32_pushWords (show 4 * 6 ≤ top by omega) hk
  refine ⟨⟨top - 24, ⟨?_, by omega, by omega, rfl, ⟨?_, ?_, ?_, ?_, ?_⟩⟩, ?_, by omega, by omega⟩,
    fun x hx => ?_⟩
  · rw [rd32_wr32, Nat.mod_eq_of_lt (by omega)]
  · exact hword 5 0 rfl
  · rw [show top - 24 + 4 = top - 4 * (4 + 1) by omega]
    exact hword 4 0 rfl
  · rw [show top - 24 + 8 = top - 4 * (3 + 1) by omega]
    exact hword 3 0 rfl
  · rw [show top - 24 + 12 = top - 4 * (2 + 1) by omega]
    exact hword 2 0 rfl
  · rw [show top - 24 + 16 = top - 4 * (1 + 1) by omega, hword 1 trampoline rfl,
      Nat.mod_eq_of_lt ht]
  · rw [show top - 24 + 20 = top - 4 * (0 + 1) by omega]
    exact hword 0 0 rfl
  · unfold Layout.Owned at hx
    have hlen : [0, trampoline, 0, 0, 0, 0].length = 6 := rfl
    rw [wr32_outside (by omega), pushWords_outside (by omega) (by omega)]

/-! ## 5. Runs -/

structure Switching (ι : Type) where
  cpu : Cpu
  current : ι
  tasks : ι → TaskStack

/-- The context of the running task at its call, with `ret` the address after it. -/
def callContext (c : Cpu) (ret : Nat) : Context :=
  ⟨c.regs .ebp, c.regs .ebx, c.regs .esi, c.regs .edi, c.regs .esp, ret⟩

/-- `call sched_context_switch` -/
def callSwitch (c : Cpu) (ret : Nat) : Cpu := (c.pushWord ret).run schedContextSwitch

/-- The running task is about to call `sched_context_switch(&tasks[current].stack_pointer,
    tasks[u].stack_pointer)`: its arguments are on its stack, which has room for the call. -/
structure AtCall (L : Layout ι) (σ : Switching ι) (u : ι) : Prop where
  other : u ≠ σ.current
  task : σ.tasks u ≠ .absent
  old : rd32 σ.cpu.mem (σ.cpu.regs .esp) = L.field σ.current
  new : rd32 σ.cpu.mem (σ.cpu.regs .esp + 4) = rd32 σ.cpu.mem (L.field u)
  room : L.lo σ.current + 20 ≤ σ.cpu.regs .esp
  args : σ.cpu.regs .esp + 8 ≤ L.hi σ.current

/-- Memory after the call: five words on the stack of the running task, and its saved pointer. -/
def callMem (L : Layout ι) (σ : Switching ι) (ret : Nat) : Mem :=
  wr32 (pushWords σ.cpu.mem (σ.cpu.regs .esp) (ret :: calleeSaved.map σ.cpu.regs))
    (L.field σ.current) (σ.cpu.regs .esp - 20)

theorem AtCall.restored {σ : Switching ι} {u : ι} (h : AtCall L σ u) (ret : Nat)
    (htop : rd32 σ.cpu.mem (L.field u) + 20 < 2 ^ 32) :
    Restored (callMem L σ ret) (rd32 σ.cpu.mem (L.field u)) (callSwitch σ.cpu ret) := by
  have hroom := h.room
  have hargs := h.args
  have hhi := L.top σ.current
  have hregs := Cpu.regs_pushWord (c := σ.cpu) (v := ret) (by omega)
  have hm := Cpu.mem_pushWord (c := σ.cpu) (v := ret) (by omega)
  have he := (hregs .esp).trans (if_pos rfl)
  have hword : ∀ k, 4 ≤ k → rd32 (σ.cpu.pushWord ret).mem ((σ.cpu.pushWord ret).regs .esp + k) =
      rd32 σ.cpu.mem (σ.cpu.regs .esp + (k - 4)) := fun k hk => by
    rw [hm, he, rd32_wr32_outside (by omega),
      show σ.cpu.regs .esp - 4 + k = σ.cpu.regs .esp + (k - 4) by omega]
  have hrun := contextSwitch_run (c := σ.cpu.pushWord ret) (by omega) (by omega)
    ((hword 4 (by decide)).trans h.old) ((hword 8 (by decide)).trans h.new) htop
  have hmem : switchedMem (σ.cpu.pushWord ret) (L.field σ.current) = callMem L σ ret := by
    have hcs : calleeSaved.map (σ.cpu.pushWord ret).regs = calleeSaved.map σ.cpu.regs :=
      List.map_congr_left fun r hr => (hregs r).trans (if_neg fun e => by
        rw [e] at hr
        exact absurd hr (by decide))
    unfold switchedMem callMem
    rw [hcs, hm, he, Nat.sub_sub]
    rfl
  rw [hmem] at hrun
  exact hrun

/-- The call writes to the running task's own stack and field only. -/
theorem AtCall.agree {σ : Switching ι} {u : ι} (h : AtCall L σ u) (ret : Nat) :
    AgreeOn (fun x => ¬ L.Owned σ.current x) σ.cpu.mem (callMem L σ ret) := fun x hx => by
  have hroom := h.room
  have hargs := h.args
  have hlen : (ret :: calleeSaved.map σ.cpu.regs).length = 5 := rfl
  unfold Layout.Owned at hx
  unfold callMem
  rw [wr32_outside (by omega), pushWords_outside (by omega) (by omega)]

/-- **The running task leaves a frame** that says where it called. -/
theorem AtCall.saved {σ : Switching ι} {u : ι} (h : AtCall L σ u) {ret : Nat} (hret : ret < 2 ^ 32) :
    Saved L (callMem L σ ret) σ.current (σ.cpu.regs .esp - 20) (callContext σ.cpu ret) := by
  have hroom := h.room
  have hargs := h.args
  have hhi := L.top σ.current
  have hap := L.apart σ.current σ.current
  have hword : ∀ k a v, (ret :: calleeSaved.map σ.cpu.regs)[k]? = some v → v < 2 ^ 32 →
      a = σ.cpu.regs .esp - 4 * (k + 1) → rd32 (callMem L σ ret) a = v := fun k a v hk hv ha => by
    have hlt : k < 5 := (List.getElem?_eq_some_iff.mp hk).1
    unfold callMem
    rw [rd32_wr32_outside (by omega), ha, rd32_pushWords (show 4 * 5 ≤ σ.cpu.regs .esp by omega) hk,
      Nat.mod_eq_of_lt hv]
  have hw := σ.cpu.isWord
  refine ⟨?_, by omega, by omega, ?_, ⟨hword 4 _ _ rfl (hw _) (by omega),
    hword 3 _ _ rfl (hw _) (by omega), hword 2 _ _ rfl (hw _) (by omega),
    hword 1 _ _ rfl (hw _) (by omega), hword 0 _ _ rfl hret (by omega)⟩⟩
  · unfold callMem
    rw [rd32_wr32, Nat.mod_eq_of_lt (by omega)]
  · show σ.cpu.regs .esp = _
    omega

variable [DecidableEq ι]

/-- A new thread on the stack of `i`: its first frame, and its saved stack pointer. -/
def Switching.create (σ : Switching ι) (L : Layout ι) (trampoline : Nat) (i : ι) : Switching ι :=
  let r := prepareKthreadStack σ.cpu.mem (L.lo i) (L.hi i - L.lo i) trampoline
  { σ with cpu := { σ.cpu with mem := wr32 r.2 (L.field i) r.1 }
           tasks := Function.update σ.tasks i .prepared }

/-- The running task calls `sched_context_switch`, and `u` runs. -/
def Switching.switch (σ : Switching ι) (u : ι) (ret : Nat) : Switching ι :=
  { cpu := callSwitch σ.cpu ret, current := u,
    tasks := Function.update σ.tasks σ.current (.suspended (callContext σ.cpu ret)) }

inductive SwStep (L : Layout ι) (trampoline : Nat) : Switching ι → Switching ι → Prop where
  /-- the running task changes its registers, and any memory that is not another task's -/
  | work (σ : Switching ι) (c : Cpu)
      (h : AgreeOn (fun x => ∃ j, j ≠ σ.current ∧ σ.tasks j ≠ .absent ∧ L.Owned j x) σ.cpu.mem c.mem) :
      SwStep L trampoline σ { σ with cpu := c }
  /-- it creates a thread on the stack of `i` -/
  | create (σ : Switching ι) (i : ι) (hi : i ≠ σ.current) (h : σ.tasks i = .absent)
      (hsize : L.lo i + 40 ≤ L.hi i) :
      SwStep L trampoline σ (σ.create L trampoline i)
  /-- it reaps a task that has exited -/
  | reap (σ : Switching ι) (i : ι) : SwStep L trampoline σ
        { σ with tasks := Function.update σ.tasks i .absent }
  /-- it switches to the task `u` -/
  | switch (σ : Switching ι) (u : ι) (ret : Nat) (hret : ret < 2 ^ 32) (h : AtCall L σ u) :
      SwStep L trampoline σ (σ.switch u ret)

/-- The states reached when the task `i` starts alone, in any state of its registers and memory. -/
inductive SwReach (L : Layout ι) (trampoline : Nat) : Switching ι → Prop where
  | start (c : Cpu) (i : ι) : SwReach L trampoline ⟨c, i, fun _ => .absent⟩
  | step {σ σ' : Switching ι} : SwReach L trampoline σ → SwStep L trampoline σ σ' →
    SwReach L trampoline σ'

/-- Every task but the running one is as it was left. -/
def SwInv (L : Layout ι) (trampoline : Nat) (σ : Switching ι) : Prop :=
  ∀ j, j ≠ σ.current → Kept L trampoline σ.cpu.mem j (σ.tasks j)

/-- **The switch keeps the invariant.** -/
theorem SwInv.switch {σ : Switching ι} (h : SwInv L trampoline σ) {u : ι} {ret : Nat}
    (hret : ret < 2 ^ 32) (hc : AtCall L σ u) : SwInv L trampoline (σ.switch u ret) := by
  intro j hj
  have hmem := (hc.restored ret ((h u hc.other).top hc.task)).mem
  show Kept L trampoline (callSwitch σ.cpu ret).mem j (Function.update σ.tasks σ.current _ j)
  rw [hmem]
  by_cases e : j = σ.current
  · rw [e, Function.update_self]
    exact ⟨_, hc.saved hret⟩
  · rw [Function.update_of_ne e]
    exact (h j e).congr fun _ => (hc.agree ret).mono fun x hx ho => e (L.owned_unique hx ho)

/-- **One step.** -/
theorem SwInv.step {σ σ' : Switching ι} (ht : trampoline < 2 ^ 32) (h : SwInv L trampoline σ)
    (hs : SwStep L trampoline σ σ') : SwInv L trampoline σ' := by
  cases hs with
  | work c ha =>
    exact fun j hj => (h j hj).congr fun hne => ha.mono fun x hx => ⟨j, hj, hne, hx⟩
  | create i hi habs hsize =>
    intro j hj
    obtain ⟨hkept, hother⟩ := kept_prepared σ.cpu.mem hsize ht
    show Kept L trampoline _ j (Function.update σ.tasks i .prepared j)
    by_cases e : j = i
    · rw [e, Function.update_self]
      exact hkept
    · rw [Function.update_of_ne e]
      exact (h j hj).congr fun _ x hx => hother x fun ho => e (L.owned_unique hx ho)
  | reap i =>
    intro j hj
    show Kept L trampoline _ j (Function.update σ.tasks i .absent j)
    by_cases e : j = i
    · rw [e, Function.update_self]
      trivial
    · rw [Function.update_of_ne e]
      exact h j hj
  | switch u ret hret hc => exact h.switch hret hc

theorem swInv_reach {σ : Switching ι} (ht : trampoline < 2 ^ 32) (hr : SwReach L trampoline σ) :
    SwInv L trampoline σ := by
  induction hr with
  | start c i => exact fun _ _ => trivial
  | step _ hs ih => exact ih.step ht hs

/-- **A SWITCH GOES ON WHERE THE TASK LEFT OFF**: in every state reached, for every call made there,
    the task that is switched to has its registers, its stack pointer and its return address of
    when it called; a new one enters the trampoline on an aligned stack. -/
theorem switch_resumes {σ : Switching ι} (ht : trampoline < 2 ^ 32) (hr : SwReach L trampoline σ)
    {u : ι} (hc : AtCall L σ u) (ret : Nat) :
    SwitchedTo trampoline (callSwitch σ.cpu ret) (σ.tasks u) := by
  have hkept := swInv_reach ht hr u hc.other
  have hown : AgreeOn (L.Owned u) σ.cpu.mem (callMem L σ ret) :=
    (hc.agree ret).mono fun x hx ho => hc.other (L.owned_unique hx ho)
  have hrest := hc.restored ret (hkept.top hc.task)
  rw [← hown.rd32 fun i hi => Or.inr (by omega)] at hrest
  exact (hkept.congr fun _ => hown).switchedTo hrest

/-- Two tasks: one with the stack it was started on, one with a thread's stack. -/
def twoStacks : Layout Bool where
  lo b := if b then 0x3000 else 0x1000
  hi b := if b then 0x3800 else 0x2000
  field b := if b then 0x4004 else 0x4000
  top := by decide
  fieldTop := by decide
  stacksApart := by decide
  fieldsApart := by decide
  apart := by decide

/-- The first task at a call, with the arguments for a switch to the second on its stack. -/
def firstCall : Cpu :=
  { regs := fun r => if r = .esp then 0x1f00 else 0
    isWord := fun r => by split <;> decide
    eip := 0
    mem := wr32 (wr32 (fun _ => 0) 0x1f00 0x4000) 0x1f04 0x37e8 }

theorem switch_resumes_first : ∃ σ, SwReach twoStacks 0x100 σ ∧ σ.tasks true = .prepared ∧
    AtCall twoStacks σ true ∧ SwitchedTo 0x100 (callSwitch σ.cpu 0x200) (σ.tasks true) := by
  have hr : SwReach twoStacks 0x100
      (Switching.create ⟨firstCall, false, fun _ => .absent⟩ twoStacks 0x100 true) :=
    .step (.start firstCall false) (.create _ true (by decide) rfl (by decide))
  have hc : AtCall twoStacks
      (Switching.create ⟨firstCall, false, fun _ => .absent⟩ twoStacks 0x100 true) true :=
    ⟨by decide, nofun, by decide +kernel, by decide +kernel, by decide +kernel, by decide +kernel⟩
  exact ⟨_, hr, rfl, hc, switch_resumes (by decide) hr hc 0x200⟩

end Emyx
