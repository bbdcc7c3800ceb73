/-
  File:      Emyx/KeyboardIrq.lean
  Subject:   THE KEYBOARD BUFFER UNDER INTERRUPTS.

  `keyboard_buffer_push` runs in the keyboard interrupt, behind an interrupt gate: it is one step.
  `keyboard_buffer_pop` and `keyboard_buffer_clear` run with interrupts enabled: each read and each
  write of a variable is a step of its own, and a push may come between any two.

  * `KbRun`, `KbRun.step` -- the buffer, the place in the function that is running, and the history:
    accepted pushes, and what each pop returned;
  * `KbInv` -- the invariant: what was accepted is what has left the buffer, then what is in it; and
    what the running function has read is still good;
  * **`kbOk_run`** -- no character is duplicated, reordered or made up, and only a clear loses one;
  * `popSteps_eq` -- without interrupts the steps are `keyboard_buffer_pop`.
-/
import Emyx.Keyboard
import Emyx.Lib.Ring

namespace Emyx

open Lib

/-! ## 1. Steps -/

/-- Where `keyboard_buffer_pop` or `keyboard_buffer_clear` stands, with what it has read. The two
    reads of the test `read_index == write_index` may come in either order. -/
inductive KbPc where
  | idle
  | testRead (r : Nat)
  | testWrite (w : Nat)
  | index
  | slot (r : Nat)
  | char (c : Byte)
  | advance (c : Byte) (r : Nat)
  | clear (w : Nat)
  deriving DecidableEq

/-- The characters in the buffer, oldest first. -/
def Keyboard.pending (kb : Keyboard) : List Byte := ringList 32 kb.buffer kb.readIndex kb.writeIndex

structure KbRun where
  kb : Keyboard
  pc : KbPc
  /-- pending when the running `keyboard_buffer_pop` read `write_index` for its test -/
  seen : List Byte
  /-- the characters that were put into the buffer -/
  accepted : List Byte
  /-- what each `keyboard_buffer_pop` returned, and what was pending at its test -/
  pops : List (Nat × List Byte)
  cleared : Bool

inductive KbOp where
  /-- the keyboard interrupt -/
  | push (c : Byte)
  /-- enter `keyboard_buffer_pop`, reading `read_index` first -/
  | popRead
  /-- the same, reading `write_index` first -/
  | popWrite
  /-- enter `keyboard_buffer_clear` -/
  | clear
  /-- the next access of the function that is running -/
  | next

/-- The boot state: all three variables are zero. -/
def kbBoot : KbRun :=
  { kb := ⟨fun _ => 0, 0, 0⟩, pc := .idle, seen := [], accepted := [], pops := [], cleared := false }

/-- The test of `keyboard_buffer_pop`, both indices read. -/
def KbRun.test (σ : KbRun) (r w : Nat) (seen : List Byte) : KbRun :=
  if r = w then { σ with pc := .idle, seen := seen, pops := σ.pops ++ [(0, seen)] }
  else { σ with pc := .index, seen := seen }

def KbRun.next (σ : KbRun) : KbRun :=
  match σ.pc with
  | .idle => σ
  | .testRead r => σ.test r σ.kb.writeIndex σ.kb.pending
  | .testWrite w => σ.test σ.kb.readIndex w σ.seen
  | .index => { σ with pc := .slot σ.kb.readIndex }
  | .slot r => { σ with pc := .char (σ.kb.buffer r) }
  | .char c => { σ with pc := .advance c σ.kb.readIndex }
  | .advance c r =>
    { σ with kb := { σ.kb with readIndex := (r + 1) % 32 }, pc := .idle,
             pops := σ.pops ++ [((c.signExtend 32).toNat, σ.seen)] }
  | .clear w => { σ with kb := { σ.kb with readIndex := w }, pc := .idle, cleared := true }

/-- The push moved `write_index`. -/
def Keyboard.Accepts (kb : Keyboard) (c : Byte) : Prop :=
  (keyboardBufferPush kb c).writeIndex ≠ kb.writeIndex

instance (kb : Keyboard) (c : Byte) : Decidable (kb.Accepts c) :=
  inferInstanceAs (Decidable (_ ≠ _))

def KbRun.push (σ : KbRun) (c : Byte) : KbRun :=
  { σ with kb := keyboardBufferPush σ.kb c,
           accepted := if σ.kb.Accepts c then σ.accepted ++ [c] else σ.accepted }

/-- One access. A function is entered only when none is running. -/
def KbRun.step (σ : KbRun) : KbOp → KbRun
  | .push c => σ.push c
  | .popRead => if σ.pc = .idle then { σ with pc := .testRead σ.kb.readIndex } else σ
  | .popWrite =>
    if σ.pc = .idle then { σ with pc := .testWrite σ.kb.writeIndex, seen := σ.kb.pending } else σ
  | .clear => if σ.pc = .idle then { σ with pc := .clear σ.kb.writeIndex } else σ
  | .next => σ.next

def KbRun.run (σ : KbRun) (ops : List KbOp) : KbRun := ops.foldl KbRun.step σ

/-- The characters that have left the buffer through `keyboard_buffer_pop`. -/
def KbRun.popped (σ : KbRun) : List Nat := (σ.pops.map Prod.fst).filter (· ≠ 0)

/-- The characters pushed are below `0x80`. -/
def KbOp.Ascii : KbOp → Prop
  | .push c => c.toNat < 0x80
  | _ => True

/-! ## 2. The buffer -/

theorem pending_push {kb : Keyboard} (hr : kb.readIndex < 32) (hw : kb.writeIndex < 32) (c : Byte) :
    (keyboardBufferPush kb c).readIndex = kb.readIndex ∧
    (keyboardBufferPush kb c).writeIndex < 32 ∧
    (keyboardBufferPush kb c).pending = kb.pending ++ (if kb.Accepts c then [c] else []) ∧
    (kb.Accepts c → c ≠ 0) ∧ (¬ kb.Accepts c → c = 0 ∨ kb.pending.length = 31) := by
  unfold Keyboard.Accepts keyboardBufferPush
  by_cases h0 : c = 0
  · simp [h0, hw]
  · by_cases hfull : (kb.writeIndex + 1) % 32 = kb.readIndex
    · have hlen := ringCount_full hr hw hfull
      simp [hfull, hw, Keyboard.pending, hlen]
    · have hne : (kb.writeIndex + 1) % 32 ≠ kb.writeIndex := by omega
      simp only [h0, hfull, if_false, hne, ne_eq, not_false_eq_true, if_true]
      refine ⟨trivial, Nat.mod_lt _ (by decide), ringList_push _ hr hw hfull c, by simp, by simp⟩

theorem pending_eq_nil {kb : Keyboard} (hr : kb.readIndex < 32) (hw : kb.writeIndex < 32) :
    kb.pending = [] ↔ kb.readIndex = kb.writeIndex := ringList_eq_nil _ hr hw

/-- The oldest character is at the read index. -/
theorem pending_head {kb : Keyboard} (hr : kb.readIndex < 32) (h : kb.pending ≠ []) :
    kb.pending.head? = some (kb.buffer kb.readIndex) := ringList_head _ hr h

/-- Moving the read index forward takes characters from the front. -/
theorem pending_drop {kb : Keyboard} (hr : kb.readIndex < 32) (hw : kb.writeIndex < 32) {k : Nat}
    (hk : k ≤ kb.pending.length) :
    Keyboard.pending { kb with readIndex := (kb.readIndex + k) % 32 } = kb.pending.drop k :=
  ringList_drop _ hr hw (by simpa [Keyboard.pending] using hk)

/-- A character below `0x80` is returned as it is. -/
theorem toNat_char {c : Byte} (h : c.toNat < 0x80) : (c.signExtend 32).toNat = c.toNat := by
  have hm : c.msb = false := by
    rw [BitVec.msb_eq_decide]
    simpa using h
  rw [BitVec.signExtend_eq_setWidth_of_msb_false hm, BitVec.toNat_setWidth,
    Nat.mod_eq_of_lt (by omega)]

/-! ## 3. The invariant -/

/-- What the running function has read still describes the buffer. -/
def PcOk (kb : Keyboard) (seen : List Byte) : KbPc → Prop
  | .idle => True
  | .testRead r => r = kb.readIndex
  | .testWrite w => seen <+: kb.pending ∧ w = (kb.readIndex + seen.length) % 32
  | .index => kb.pending ≠ []
  | .slot r => r = kb.readIndex ∧ kb.pending ≠ []
  | .char c => kb.pending.head? = some c
  | .advance c r => r = kb.readIndex ∧ kb.pending.head? = some c
  | .clear w => ∃ k, k ≤ kb.pending.length ∧ w = (kb.readIndex + k) % 32

/-- The accepted characters are those that are gone, in order, and then the pending ones. A pop
    that returned something took it from those that are gone; without a clear, all of them. -/
def History (accepted pending : List Byte) (popped : List Nat) (cleared : Bool) : Prop :=
  ∃ gone, accepted = gone ++ pending ∧ popped.Sublist (gone.map BitVec.toNat) ∧
    (cleared = false → popped = gone.map BitVec.toNat)

structure KbInv (σ : KbRun) : Prop where
  read : σ.kb.readIndex < 32
  write : σ.kb.writeIndex < 32
  pc : PcOk σ.kb σ.seen σ.pc
  chars : ∀ c ∈ σ.accepted, c ≠ 0 ∧ c.toNat < 0x80
  history : History σ.accepted σ.kb.pending σ.popped σ.cleared
  zero : ∀ p ∈ σ.pops, p.1 = 0 → p.2 = []

/-- More pending characters do not invalidate what was read. -/
theorem PcOk.append {kb kb' : Keyboard} {seen l : List Byte} {pc : KbPc} (h : PcOk kb seen pc)
    (hr : kb'.readIndex = kb.readIndex) (hp : kb'.pending = kb.pending ++ l) :
    PcOk kb' seen pc := by
  have hhead : ∀ c, kb.pending.head? = some c → kb'.pending.head? = some c := fun c hc => by
    rw [hp, List.head?_append, hc]
    rfl
  have hne : kb.pending ≠ [] → kb'.pending ≠ [] := fun hne => by simp [hp, hne]
  cases pc with
  | idle => trivial
  | testRead r => exact Eq.trans h hr.symm
  | testWrite w => exact ⟨h.1.trans (hp ▸ List.prefix_append _ _), by rw [hr]; exact h.2⟩
  | index => exact hne h
  | slot r => exact ⟨h.1.trans hr.symm, hne h.2⟩
  | char c => exact hhead c h
  | advance c r => exact ⟨h.1.trans hr.symm, hhead c h.2⟩
  | clear w =>
    obtain ⟨k, hk, hw⟩ := h
    exact ⟨k, by rw [hp, List.length_append]; omega, by rw [hr]; exact hw⟩

/-- The read index is the write index, less what is pending. -/
theorem write_eq {kb : Keyboard} (hr : kb.readIndex < 32) (hw : kb.writeIndex < 32) :
    kb.writeIndex = (kb.readIndex + kb.pending.length) % 32 := by
  rw [Keyboard.pending, length_ringList, ring_end hr hw]

/-- **The interrupt** keeps the invariant, wherever it comes. -/
theorem KbInv.push {σ : KbRun} (h : KbInv σ) {c : Byte} (hc : c.toNat < 0x80) : KbInv (σ.push c) := by
  obtain ⟨hr, hw, hp, hnz, _⟩ := pending_push h.read h.write c
  refine ⟨hr ▸ h.read, hw, h.pc.append hr hp, fun x hx => ?_, ?_, h.zero⟩
  · by_cases ha : σ.kb.Accepts c
    · simp only [KbRun.push, ha, if_true, List.mem_append, List.mem_singleton] at hx
      rcases hx with hx | rfl
      · exact h.chars x hx
      · exact ⟨hnz ha, hc⟩
    · simp only [KbRun.push, ha, if_false] at hx
      exact h.chars x hx
  · obtain ⟨gone, hacc, hsub, hall⟩ := h.history
    refine ⟨gone, ?_, hsub, hall⟩
    show (if σ.kb.Accepts c then σ.accepted ++ [c] else σ.accepted) =
      gone ++ (keyboardBufferPush σ.kb c).pending
    rw [hp, hacc]
    split <;> simp

/-- The test of `keyboard_buffer_pop`. -/
theorem KbInv.test {σ : KbRun} (h : KbInv σ) {r w : Nat} {seen : List Byte}
    (hempty : r = w ↔ seen = []) (hsome : seen ≠ [] → σ.kb.pending ≠ []) :
    KbInv (σ.test r w seen) := by
  unfold KbRun.test
  by_cases e : r = w
  · rw [if_pos e]
    refine ⟨h.read, h.write, trivial, h.chars, ?_, fun p hp => ?_⟩
    · -- a returned `0` is no character
      simpa [KbRun.popped] using h.history
    · rcases List.mem_append.mp hp with hp | hp
      · exact h.zero p hp
      · rw [List.mem_singleton.mp hp]
        exact fun _ => hempty.mp e
  · rw [if_neg e]
    have hne := fun hn => e (hempty.mpr hn)
    exact ⟨h.read, h.write, hsome hne, h.chars, h.history, h.zero⟩

/-- The step that moves the read index past the oldest character and returns it. -/
theorem KbInv.advance {σ : KbRun} (h : KbInv σ) {c : Byte}
    (hhead : σ.kb.pending.head? = some c) : KbInv
      { σ with kb := { σ.kb with readIndex := (σ.kb.readIndex + 1) % 32 }, pc := .idle,
               pops := σ.pops ++ [((c.signExtend 32).toNat, σ.seen)] } := by
  obtain ⟨rest, hp⟩ := List.head?_eq_some_iff.mp hhead
  obtain ⟨gone, hacc, hsub, hall⟩ := h.history
  have hdrop : Keyboard.pending { σ.kb with readIndex := (σ.kb.readIndex + 1) % 32 } = rest := by
    rw [pending_drop h.read h.write (by simp [hp]), hp]
    rfl
  obtain ⟨hc0, hc⟩ := h.chars c (by simp [hacc, hp])
  have hpos : c.toNat ≠ 0 := fun e => hc0 (BitVec.eq_of_toNat_eq e)
  have hpopped : ((σ.pops ++ [((c.signExtend 32).toNat, σ.seen)]).map Prod.fst).filter (· ≠ 0) =
      σ.popped ++ [c.toNat] := by
    simp [KbRun.popped, toNat_char hc, hpos]
  refine ⟨Nat.mod_lt _ (by decide), h.write, trivial, h.chars, ⟨gone ++ [c], ?_, ?_, fun hcl => ?_⟩,
    fun p hm => ?_⟩
  · rw [hdrop]
    simp [hacc, hp]
  · rw [KbRun.popped, hpopped]
    simpa using hsub
  · rw [KbRun.popped, hpopped, hall hcl]
    simp
  · rcases List.mem_append.mp hm with hm | hm
    · exact h.zero p hm
    · rw [List.mem_singleton.mp hm, toNat_char hc]
      exact fun e => absurd e hpos

/-- The step that moves the read index to where the write index was. -/
theorem KbInv.clear {σ : KbRun} (h : KbInv σ) {k : Nat} (hk : k ≤ σ.kb.pending.length) : KbInv
    { σ with kb := { σ.kb with readIndex := (σ.kb.readIndex + k) % 32 }, pc := .idle,
             cleared := true } := by
  obtain ⟨gone, hacc, hsub, _⟩ := h.history
  refine ⟨Nat.mod_lt _ (by decide), h.write, trivial, h.chars,
    ⟨gone ++ σ.kb.pending.take k, ?_, ?_, fun hcl => by cases hcl⟩, h.zero⟩
  · rw [pending_drop h.read h.write hk]
    simp [hacc]
  · rw [List.map_append]
    exact hsub.trans (List.sublist_append_left _ _)

/-- **One access of the running function.** -/
theorem KbInv.next {σ : KbRun} (h : KbInv σ) : KbInv σ.next := by
  have hpc := h.pc
  unfold KbRun.next
  cases e : σ.pc with
  | idle => exact h
  | testRead r =>
    rw [e] at hpc
    exact h.test (by rw [show r = _ from hpc]; exact (pending_eq_nil h.read h.write).symm) id
  | testWrite w =>
    rw [e] at hpc
    obtain ⟨hpre, hw⟩ := hpc
    have hlen := hpre.length_le
    have hlt : σ.kb.pending.length < 32 := by
      simpa [Keyboard.pending] using ringCount_lt (r := σ.kb.readIndex) h.write
    refine h.test ?_ fun hne hn => hne (List.prefix_nil.mp (hn ▸ hpre))
    have hr := h.read
    rw [hw, ← List.length_eq_zero_iff]
    omega
  | index =>
    rw [e] at hpc
    exact ⟨h.read, h.write, ⟨rfl, hpc⟩, h.chars, h.history, h.zero⟩
  | slot r =>
    rw [e] at hpc
    obtain ⟨hr, hne⟩ := hpc
    refine ⟨h.read, h.write, ?_, h.chars, h.history, h.zero⟩
    exact (pending_head h.read hne).trans (by rw [hr])
  | char c =>
    rw [e] at hpc
    exact ⟨h.read, h.write, ⟨rfl, hpc⟩, h.chars, h.history, h.zero⟩
  | advance c r =>
    rw [e] at hpc
    obtain ⟨rfl, hhead⟩ := hpc
    exact h.advance hhead
  | clear w =>
    rw [e] at hpc
    obtain ⟨k, hk, rfl⟩ := hpc
    exact h.clear hk

/-- **One step.** -/
theorem KbInv.step {σ : KbRun} (h : KbInv σ) {op : KbOp} (ha : op.Ascii) : KbInv (σ.step op) := by
  cases op with
  | push c => exact h.push ha
  | popRead =>
    show KbInv (if σ.pc = .idle then _ else σ)
    split
    · exact ⟨h.read, h.write, rfl, h.chars, h.history, h.zero⟩
    · exact h
  | popWrite =>
    show KbInv (if σ.pc = .idle then _ else σ)
    split
    · exact ⟨h.read, h.write, ⟨List.prefix_rfl, write_eq h.read h.write⟩, h.chars, h.history, h.zero⟩
    · exact h
  | clear =>
    show KbInv (if σ.pc = .idle then _ else σ)
    split
    · exact ⟨h.read, h.write, ⟨_, Nat.le_refl _, write_eq h.read h.write⟩, h.chars, h.history, h.zero⟩
    · exact h
  | next => exact h.next

theorem kbInv_boot : KbInv kbBoot :=
  ⟨by decide, by decide, trivial, by simp [kbBoot], ⟨[], rfl, List.Sublist.refl _, fun _ => rfl⟩,
    by simp [kbBoot]⟩

theorem kbInv_run {σ : KbRun} (h : KbInv σ) {ops : List KbOp} (ha : ∀ op ∈ ops, op.Ascii) :
    KbInv (σ.run ops) := by
  induction ops generalizing σ with
  | nil => exact h
  | cons op ops ih =>
    exact ih (h.step (ha op List.mem_cons_self)) fun op' ho => ha op' (List.mem_cons_of_mem _ ho)

/-! ## 4. Runs -/

structure KbOk (σ : KbRun) : Prop where
  /-- what the pops returned is a subsequence of what was accepted, one place for each -/
  subsequence : σ.popped.Sublist (σ.accepted.map BitVec.toNat)
  /-- without a clear it is a prefix, and the rest is pending -/
  exact : σ.cleared = false →
    σ.accepted.map BitVec.toNat = σ.popped ++ σ.kb.pending.map BitVec.toNat
  accepted : ∀ c ∈ σ.accepted, c ≠ 0
  dropped : ∀ c, ¬ σ.kb.Accepts c → c = 0 ∨ σ.kb.pending.length = 31
  /-- `0` comes from an empty buffer only -/
  empty : ∀ p ∈ σ.pops, p.1 = 0 → p.2 = []

theorem KbInv.ok {σ : KbRun} (h : KbInv σ) : KbOk σ := by
  obtain ⟨gone, hacc, hsub, hall⟩ := h.history
  refine ⟨?_, fun hcl => ?_, fun c hc => (h.chars c hc).1, fun c => ?_, h.zero⟩
  · rw [hacc, List.map_append]
    exact hsub.trans (List.sublist_append_left _ _)
  · rw [hacc, hall hcl, List.map_append]
  · exact (pending_push h.read h.write c).2.2.2.2

/-- **THE BUFFER IS A QUEUE UNDER ANY INTERLEAVING**: at every point of every run, whatever the
    interrupts and wherever they came. -/
theorem kbOk_run {ops : List KbOp} (ha : ∀ op ∈ ops, op.Ascii) : KbOk (kbBoot.run ops) :=
  (kbInv_run kbInv_boot ha).ok

/-- Two keys arrive while a pop of the first is under way. -/
theorem kbOk_interrupted : ∃ ops, (kbBoot.run ops).popped = [0x61] ∧
    (kbBoot.run ops).kb.pending = [0x62, 0x63] ∧ KbOk (kbBoot.run ops) :=
  ⟨[.push 0x61, .popRead, .next, .next, .push 0x62, .next, .next, .push 0x63, .next],
    by decide +kernel, by decide +kernel, kbOk_run (by simp [KbOp.Ascii])⟩

/-- **Without interrupts** entering the function and making its accesses is `keyboard_buffer_pop`. -/
theorem popSteps_eq (σ : KbRun) (hpc : σ.pc = .idle) :
    (σ.run [.popRead, .next, .next, .next, .next, .next]).kb = (keyboardBufferPop σ.kb).2 ∧
    (σ.run [.popRead, .next, .next, .next, .next, .next]).pops =
      σ.pops ++ [((keyboardBufferPop σ.kb).1, σ.kb.pending)] := by
  by_cases e : σ.kb.readIndex = σ.kb.writeIndex
  · simp [KbRun.run, KbRun.step, KbRun.next, KbRun.test, keyboardBufferPop, hpc, e]
  · simp [KbRun.run, KbRun.step, KbRun.next, KbRun.test, keyboardBufferPop, hpc, e]

theorem clearSteps_eq (σ : KbRun) (hpc : σ.pc = .idle) :
    (σ.run [.clear, .next]).kb = keyboardBufferClear σ.kb := by
  simp [KbRun.run, KbRun.step, KbRun.next, keyboardBufferClear, hpc]

end Emyx
