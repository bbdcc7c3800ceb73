/-
  File:      Emyx/Descriptors.lean
  Subject:   THE DESCRIPTOR TABLES (arch/i386/gdt.c, arch/i386/idt.c): what `gdt_init` and
             `idt_init` write, and what the processor makes of it.

  * `newGdtDescriptor`, `newIdtDescriptor`, `gdtInit`, `idtInit` -- the functions of the source, on
    memory;
  * `segmentOf_new`, `gateOf_new` -- **what is put into a descriptor is what the processor reads**;
  * `TablesInstalled`, `arch_installed` -- the tables that are there after both;
  * **`gates_exact`** -- every interrupt comes to its handler in ring 0, and user code can raise no
    vector but 0x80.
-/
import Emyx.Lib.Trap

namespace Emyx

open Lib

/-! ## 1. The tables -/

/-- Where the linker put the tables and the handlers. -/
structure Symbols where
  gdt : Nat
  idt : Nat
  tss : Nat
  stackTop : Nat
  isrStub : Nat
  syscallStub : Nat
  /-- `exception_table` -/
  ex : Fin 32 → Nat
  /-- `irq_table` -/
  irq : Fin 16 → Nat
  isWord : stackTop < 2 ^ 32 ∧ isrStub < 2 ^ 32 ∧ syscallStub < 2 ^ 32 ∧ (∀ i, ex i < 2 ^ 32) ∧
    ∀ i, irq i < 2 ^ 32
  fits : gdt + 48 < 2 ^ 32 ∧ idt + 2048 < 2 ^ 32 ∧ tss + 104 < 2 ^ 32
  apart : (gdt + 48 ≤ idt ∨ idt + 2048 ≤ gdt) ∧ (gdt + 48 ≤ tss ∨ tss + 104 ≤ gdt) ∧
    (idt + 2048 ≤ tss ∨ tss + 104 ≤ idt)

/-- `gdt_descriptor` -/
structure GdtDescriptor where
  limitLow : Nat
  baseLow : Nat
  baseMiddle : Nat
  access : Nat
  granularity : Nat
  baseHigh : Nat

/-- `new_descriptor` of gdt.c -/
def newGdtDescriptor (base limit access flags : Nat) : GdtDescriptor :=
  { limitLow := limit &&& 0x0000FFFF
    baseLow := base &&& 0x0000FFFF
    baseMiddle := (base &&& 0x00FF0000) >>> 16
    access := access
    granularity := (flags &&& 0xF0) ||| ((limit >>> 16) &&& 0x0F)
    baseHigh := (base &&& 0xFF000000) >>> 24 }

/-- The two words of the packed structure. -/
def GdtDescriptor.words (d : GdtDescriptor) : Nat × Nat :=
  (d.limitLow + d.baseLow * 2 ^ 16,
    d.baseMiddle + d.access * 2 ^ 8 + d.granularity * 2 ^ 16 + d.baseHigh * 2 ^ 24)

/-- `idt_descriptor` -/
structure IdtDescriptor where
  offsetLow : Nat
  selector : Nat
  zero : Nat
  flags : Nat
  offsetHigh : Nat

/-- `new_descriptor` of idt.c -/
def newIdtDescriptor (offset selector flags : Nat) : IdtDescriptor :=
  { offsetLow := offset &&& 0x0000FFFF
    selector := selector
    zero := 0
    flags := flags
    offsetHigh := (offset &&& 0xFFFF0000) >>> 16 }

def IdtDescriptor.words (d : IdtDescriptor) : Nat × Nat :=
  (d.offsetLow + d.selector * 2 ^ 16, d.zero + d.flags * 2 ^ 8 + d.offsetHigh * 2 ^ 16)

/-- Eight bytes of a table are assigned. -/
def storeWords (m : Mem) (a : Nat) (w : Nat × Nat) : Mem := wr32 (wr32 m a w.1) (a + 4) w.2

/-- `tss_init`; the fields are at offsets 8, 4 and 102 of the structure, which has 104 bytes. -/
def tssInit (S : Symbols) (m : Mem) : Mem :=
  let m := wr32 m (S.tss + 8) 0x10
  let m := wr32 m (S.tss + 4) S.stackTop
  put m (S.tss + 102) 2 (byteOf 104)

/-- `gdt_init`; the last step is what `ltr` does to the table. -/
def gdtInit (S : Symbols) (m : Mem) : Mem :=
  let m := tssInit S m
  let m := storeWords m (S.gdt + 8 * 0) (newGdtDescriptor 0 0 0 0).words
  let m := storeWords m (S.gdt + 8 * 1) (newGdtDescriptor 0 0xFFFFF 0x9A 0xC0).words
  let m := storeWords m (S.gdt + 8 * 2) (newGdtDescriptor 0 0xFFFFF 0x92 0xC0).words
  let m := storeWords m (S.gdt + 8 * 3) (newGdtDescriptor 0 0xFFFFF 0xFA 0xC0).words
  let m := storeWords m (S.gdt + 8 * 4) (newGdtDescriptor 0 0xFFFFF 0xF2 0xC0).words
  let m := storeWords m (S.gdt + 8 * 5) (newGdtDescriptor S.tss (104 - 1) 0x89 0x00).words
  ltr m (S.gdt + 8 * 5)

/-- A loop of `idt_init`: the descriptor with index `slot i` is assigned a gate to `offset i`. -/
def registerAll {ι : Type} (S : Symbols) (l : List ι) (slot offset : ι → Nat) (m : Mem) : Mem :=
  l.foldl (fun m i => storeWords m (S.idt + 8 * slot i)
    (newIdtDescriptor (offset i) 0x08 0x8E).words) m

/-- `idt_init` -/
def idtInit (S : Symbols) (m : Mem) : Mem :=
  let m := registerAll S (List.range 256) (fun i => i) (fun _ => S.isrStub) m
  let m := registerAll S (List.finRange 32) (fun i => i) S.ex m
  let m := registerAll S (List.finRange 16) (fun i => i + 32) S.irq m
  storeWords m (S.idt + 8 * 0x80) (newIdtDescriptor S.syscallStub 0x08 0xEF).words

/-- What `lgdt`, `lidt` and `ltr` load. -/
def Symbols.tables (S : Symbols) : Tables := ⟨S.gdt, 48 - 1, S.idt, 2048 - 1, S.tss⟩

/-- `tss_set_kernel_stack` -/
def tssSetKernelStack (S : Symbols) (m : Mem) (stack : Nat) : Mem := wr32 m (S.tss + 4) stack

/-! ## 2. Descriptors come back -/

theorem land_low16 (v : Nat) : v &&& 0x0000FFFF = v % 2 ^ 16 := Nat.and_two_pow_sub_one_eq_mod v 16

theorem land_bits (v k n : Nat) : (v &&& (2 ^ n - 1) <<< k) >>> k = v / 2 ^ k % 2 ^ n := by
  rw [Nat.shiftRight_and_distrib, Nat.shiftLeft_shiftRight, Nat.and_two_pow_sub_one_eq_mod,
    Nat.shiftRight_eq_div_pow]

theorem granularity_eq {limit flags : Nat} (hf : flags < 2 ^ 8) :
    (flags &&& 0xF0) ||| ((limit >>> 16) &&& 0x0F) =
      flags / 2 ^ 4 * 2 ^ 4 + limit / 2 ^ 16 % 2 ^ 4 := by
  have hhigh : flags &&& 0xF0 = flags / 2 ^ 4 * 2 ^ 4 := land_highMask (n := 8) (k := 4) (by decide) hf
  have hlow : (limit >>> 16) &&& 0x0F = limit / 2 ^ 16 % 2 ^ 4 := by
    rw [Nat.shiftRight_eq_div_pow]
    exact Nat.and_two_pow_sub_one_eq_mod _ 4
  rw [hhigh, hlow]
  exact lor_low (k := 4) (Dvd.intro_left _ rfl) (Nat.mod_lt _ (by decide))

theorem newGdtDescriptor_words {base flags : Nat} (limit access : Nat) (hb : base < 2 ^ 32)
    (hf : flags < 2 ^ 8) : (newGdtDescriptor base limit access flags).words =
      (limit % 2 ^ 16 + base % 2 ^ 16 * 2 ^ 16,
        base / 2 ^ 16 % 2 ^ 8 + access * 2 ^ 8 +
          (flags / 2 ^ 4 * 2 ^ 4 + limit / 2 ^ 16 % 2 ^ 4) * 2 ^ 16 + base / 2 ^ 24 * 2 ^ 24) := by
  have hmid : (base &&& 0x00FF0000) >>> 16 = base / 2 ^ 16 % 2 ^ 8 := land_bits base 16 8
  have hhigh : (base &&& 0xFF000000) >>> 24 = base / 2 ^ 24 := by
    rw [show (0xFF000000 : Nat) = (2 ^ 8 - 1) <<< 24 from rfl, land_bits]
    omega
  simp only [newGdtDescriptor, GdtDescriptor.words, land_low16, hmid, hhigh, granularity_eq hf]

/-- The fields of a word, given its bytes. -/
theorem word_fields (b₀ b₁ b₂ b₃ : Nat) {h : Nat} (h₀ : b₀ < 2 ^ 8) (h₁ : b₁ < 2 ^ 8) (h₂ : b₂ < 2 ^ 8)
    (h₃ : b₃ < 2 ^ 8) (e : h = b₀ + b₁ * 2 ^ 8 + b₂ * 2 ^ 16 + b₃ * 2 ^ 24) :
    h % 2 ^ 32 = h ∧ h % 2 ^ 8 = b₀ ∧ h / 2 ^ 8 % 2 ^ 5 = b₁ % 2 ^ 5 ∧
      h / 2 ^ 13 % 2 ^ 2 = b₁ / 2 ^ 5 % 2 ^ 2 ∧ h / 2 ^ 15 % 2 = b₁ / 2 ^ 7 ∧
      h / 2 ^ 16 % 2 ^ 4 = b₂ % 2 ^ 4 ∧ h / 2 ^ 20 % 2 ^ 4 = b₂ / 2 ^ 4 ∧ h / 2 ^ 24 = b₃ := by
  subst e
  refine ⟨?_, ?_, ?_, ?_, ?_, ?_, ?_, ?_⟩ <;> omega

/-- **The processor reads from a segment descriptor what `new_descriptor` was given.** -/
theorem segmentOf_new {base limit access flags : Nat} (hb : base < 2 ^ 32) (hl : limit < 2 ^ 20)
    (ha : access < 2 ^ 8) (hf : flags < 2 ^ 8) :
    segmentOf ((newGdtDescriptor base limit access flags).words.1 % 2 ^ 32)
      ((newGdtDescriptor base limit access flags).words.2 % 2 ^ 32) =
      ⟨base, limit, access % 2 ^ 5, access / 2 ^ 5 % 2 ^ 2, access / 2 ^ 7 == 1, flags / 2 ^ 4⟩ := by
  rw [newGdtDescriptor_words limit access hb hf]
  obtain ⟨g, hg⟩ : ∃ g, g = flags / 2 ^ 4 * 2 ^ 4 + limit / 2 ^ 16 % 2 ^ 4 := ⟨_, rfl⟩
  have hglow : g % 2 ^ 4 = limit / 2 ^ 16 := by omega
  have hghigh : g / 2 ^ 4 = flags / 2 ^ 4 := by omega
  rw [← hg]
  obtain ⟨hword, h₀, hkind, hdpl, hpresent, hlimit, hflags, h₃⟩ :=
    word_fields (base / 2 ^ 16 % 2 ^ 8) access g (base / 2 ^ 24) (by omega) ha (by omega) (by omega) rfl
  simp only [segmentOf, hword, h₀, hkind, hdpl, hpresent, hlimit, hflags, h₃, hglow, hghigh,
    SegDesc.mk.injEq, and_true]
  exact ⟨by omega, by omega⟩

/-- **And from a gate.** -/
theorem gateOf_new {offset selector flags : Nat} (ho : offset < 2 ^ 32) (hs : selector < 2 ^ 16)
    (hf : flags < 2 ^ 8) :
    gateOf ((newIdtDescriptor offset selector flags).words.1 % 2 ^ 32)
      ((newIdtDescriptor offset selector flags).words.2 % 2 ^ 32) =
      ⟨offset, selector, flags % 2 ^ 5, flags / 2 ^ 5 % 2 ^ 2, flags / 2 ^ 7 == 1⟩ := by
  have hhigh : (offset &&& 0xFFFF0000) >>> 16 = offset / 2 ^ 16 := by
    rw [show (0xFFFF0000 : Nat) = (2 ^ 16 - 1) <<< 16 from rfl, land_bits]
    omega
  simp only [newIdtDescriptor, IdtDescriptor.words, land_low16, hhigh]
  obtain ⟨h, hh⟩ : ∃ h, h = 0 + flags * 2 ^ 8 + offset / 2 ^ 16 * 2 ^ 16 := ⟨_, rfl⟩
  rw [← hh]
  obtain ⟨hword, -, hkind, hdpl, hpresent, -⟩ :=
    word_fields 0 flags (offset / 2 ^ 16 % 2 ^ 8) (offset / 2 ^ 24) (by decide) hf (by omega) (by omega)
      (hh.trans (by omega))
  simp only [gateOf, hword, hkind, hdpl, hpresent, GateDesc.mk.injEq, and_true]
  exact ⟨by omega, by omega⟩

/-! ## 3. What is in the tables -/

/-- The handler for a vector. -/
def Symbols.handler (S : Symbols) (n : Nat) : Nat :=
  if h : n < 32 then S.ex ⟨n, h⟩
  else if h : n < 48 then S.irq ⟨n - 32, by omega⟩
  else if n = 0x80 then S.syscallStub
  else S.isrStub

/-- Only the system call is open to user code, and it alone leaves interrupts on. -/
def Symbols.gate (S : Symbols) (n : Nat) : GateDesc :=
  ⟨S.handler n, 0x08, if n = 0x80 then 15 else 14, if n = 0x80 then 3 else 0, true⟩

/-- **The tables are in place.** The stack for ring 0 is left open: `sched_yield` sets it. -/
structure TablesInstalled (S : Symbols) (m : Mem) : Prop where
  gates : ∀ n, n < 256 → readGate m (S.idt + 8 * n) = S.gate n
  kernelCode : readSegment m (S.gdt + 8) = ⟨0, 0xFFFFF, 0x1A, 0, true, 0xC⟩
  kernelData : readSegment m (S.gdt + 16) = ⟨0, 0xFFFFF, 0x12, 0, true, 0xC⟩
  userCode : readSegment m (S.gdt + 24) = ⟨0, 0xFFFFF, 0x1A, 3, true, 0xC⟩
  userData : readSegment m (S.gdt + 32) = ⟨0, 0xFFFFF, 0x12, 3, true, 0xC⟩
  taskState : readSegment m (S.gdt + 40) = ⟨S.tss, 103, 0x0B, 0, true, 0⟩
  ss0 : rd32 m (S.tss + 8) = 0x10
  iopb : rd32 m (S.tss + 100) / 2 ^ 16 = 104

section

variable {S : Symbols} {m m' : Mem} {a b n : Nat} {w : Nat × Nat}

theorem rd32_storeWords (m : Mem) (a : Nat) (w : Nat × Nat) :
    rd32 (storeWords m a w) a = w.1 % 2 ^ 32 ∧ rd32 (storeWords m a w) (a + 4) = w.2 % 2 ^ 32 := by
  unfold storeWords
  rw [rd32_wr32_outside (by omega), rd32_wr32, rd32_wr32]
  exact ⟨rfl, rfl⟩

theorem rd32_storeWords_other (h : b + 4 ≤ a ∨ a + 8 ≤ b) :
    rd32 (storeWords m a w) b = rd32 m b := by
  unfold storeWords
  rw [rd32_wr32_outside (by omega), rd32_wr32_outside (by omega)]

theorem readGate_same (h₀ : rd32 m' a = rd32 m a) (h₁ : rd32 m' (a + 4) = rd32 m (a + 4)) :
    readGate m' a = readGate m a := by
  unfold readGate
  rw [h₀, h₁]

theorem readSegment_same (h₀ : rd32 m' a = rd32 m a) (h₁ : rd32 m' (a + 4) = rd32 m (a + 4)) :
    readSegment m' a = readSegment m a := by
  unfold readSegment
  rw [h₀, h₁]

/-- A slot that is assigned holds the gate. -/
theorem readGate_store {offset flags : Nat} (ho : offset < 2 ^ 32) (hf : flags < 2 ^ 8) :
    readGate (storeWords m a (newIdtDescriptor offset 0x08 flags).words) a =
      ⟨offset, 0x08, flags % 2 ^ 5, flags / 2 ^ 5 % 2 ^ 2, flags / 2 ^ 7 == 1⟩ := by
  obtain ⟨h₀, h₁⟩ := rd32_storeWords m a (newIdtDescriptor offset 0x08 flags).words
  unfold readGate
  rw [h₀, h₁]
  exact gateOf_new ho (by decide) hf

theorem readGate_store_other (h : b + 8 ≤ a ∨ a + 8 ≤ b) :
    readGate (storeWords m a w) b = readGate m b :=
  readGate_same (rd32_storeWords_other (by omega)) (rd32_storeWords_other (by omega))

theorem readSegment_store {base limit access flags : Nat} (hb : base < 2 ^ 32) (hl : limit < 2 ^ 20)
    (ha : access < 2 ^ 8) (hf : flags < 2 ^ 8) :
    readSegment (storeWords m a (newGdtDescriptor base limit access flags).words) a =
      ⟨base, limit, access % 2 ^ 5, access / 2 ^ 5 % 2 ^ 2, access / 2 ^ 7 == 1, flags / 2 ^ 4⟩ := by
  obtain ⟨h₀, h₁⟩ := rd32_storeWords m a (newGdtDescriptor base limit access flags).words
  unfold readSegment
  rw [h₀, h₁]
  exact segmentOf_new hb hl ha hf

theorem readSegment_store_other (h : b + 8 ≤ a ∨ a + 8 ≤ b) :
    readSegment (storeWords m a w) b = readSegment m b :=
  readSegment_same (rd32_storeWords_other (by omega)) (rd32_storeWords_other (by omega))

/-! The loops of `idt_init`. -/

section

variable {ι : Type} {l : List ι} {slot offset : ι → Nat}

/-- The loop leaves a slot that it does not assign. -/
theorem registerAll_other (m : Mem) (h : ∀ i ∈ l, slot i ≠ n) :
    readGate (registerAll S l slot offset m) (S.idt + 8 * n) = readGate m (S.idt + 8 * n) := by
  unfold registerAll
  induction l generalizing m with
  | nil => rfl
  | cons i l ih =>
    have hi := h i List.mem_cons_self
    rw [List.foldl_cons, ih _ fun j hj => h j (List.mem_cons_of_mem i hj),
      readGate_store_other (by omega)]

/-- The slot of `i` holds the gate that was assigned to it. -/
theorem registerAll_gate (hinj : ∀ i ∈ l, ∀ j ∈ l, slot i = slot j → i = j) (hnd : l.Nodup)
    (m : Mem) {i : ι} (hi : i ∈ l) (hn : slot i = n) (ho : offset i < 2 ^ 32) :
    readGate (registerAll S l slot offset m) (S.idt + 8 * n) = ⟨offset i, 0x08, 14, 0, true⟩ := by
  unfold registerAll
  induction l generalizing m with
  | nil => cases hi
  | cons j l ih =>
    rw [List.nodup_cons] at hnd
    rw [List.foldl_cons]
    by_cases hij : i = j
    · subst hij
      refine (registerAll_other _ fun k hk he => ?_).trans ?_
      · exact hnd.1 (hinj k (List.mem_cons_of_mem i hk) i List.mem_cons_self
          (he.trans hn.symm) ▸ hk)
      · rw [hn]
        exact readGate_store ho (by decide)
    · exact ih (fun a ha b hb => hinj a (List.mem_cons_of_mem j ha) b (List.mem_cons_of_mem j hb))
        hnd.2 _ ((List.mem_cons.mp hi).resolve_left hij)

theorem rd32_registerAll_other (m : Mem) (hl : ∀ i ∈ l, slot i < 256)
    (h : b + 4 ≤ S.idt ∨ S.idt + 2048 ≤ b) :
    rd32 (registerAll S l slot offset m) b = rd32 m b := by
  unfold registerAll
  induction l generalizing m with
  | nil => rfl
  | cons i l ih =>
    have hi := hl i List.mem_cons_self
    rw [List.foldl_cons, ih _ fun j hj => hl j (List.mem_cons_of_mem i hj),
      rd32_storeWords_other (by omega)]

end

/-- **Every gate of the table.** -/
theorem idtInit_gate (hn : n < 256) : readGate (idtInit S m) (S.idt + 8 * n) = S.gate n := by
  obtain ⟨-, hisr, hsys, hex, hirq⟩ := S.isWord
  unfold idtInit Symbols.gate Symbols.handler
  by_cases h80 : n = 0x80
  · subst h80
    exact readGate_store hsys (by decide)
  rw [readGate_store_other (by omega), if_neg h80, if_neg h80, if_neg h80]
  by_cases h48 : 32 ≤ n ∧ n < 48
  · -- a hardware interrupt
    rw [dif_neg (by omega), dif_pos h48.2]
    exact registerAll_gate (fun i _ j _ he => Fin.ext (Nat.add_right_cancel he))
      (List.nodup_finRange 16) _ (List.mem_finRange ⟨n - 32, by omega⟩)
      (Nat.sub_add_cancel h48.1) (hirq _)
  rw [registerAll_other _ fun i _ => by have := i.isLt; omega]
  by_cases h32 : n < 32
  · -- an exception
    rw [dif_pos h32]
    exact registerAll_gate (fun i _ j _ he => Fin.ext he) (List.nodup_finRange 32) _
      (List.mem_finRange ⟨n, h32⟩) rfl (hex _)
  rw [registerAll_other _ fun i _ => by have := i.isLt; omega, dif_neg h32, dif_neg (by omega)]
  exact registerAll_gate (fun i _ j _ he => he) List.nodup_range _ (List.mem_range.mpr hn) rfl hisr

/-- `idt_init` writes to its table only. -/
theorem rd32_idtInit_other (h : b + 4 ≤ S.idt ∨ S.idt + 2048 ≤ b) :
    rd32 (idtInit S m) b = rd32 m b := by
  unfold idtInit
  rw [rd32_storeWords_other (by omega), rd32_registerAll_other _ (fun i _ => by omega) h,
    rd32_registerAll_other _ (fun i _ => by omega) h,
    rd32_registerAll_other _ (fun i hi => List.mem_range.mp hi) h]

/-- `ltr` sets one bit of the access byte. -/
theorem rd32_ltr (m : Mem) (a : Nat) (h : m (a + 5) = 0x89#8) :
    rd32 (ltr m a) (a + 4) = rd32 m (a + 4) + 2 ^ 9 := by
  have h4 : ltr m a (a + 4) = m (a + 4) := wr8_outside (by omega)
  have h5 : ltr m a (a + 4 + 1) = 0x8B#8 := by
    unfold ltr
    rw [h]
    exact wr8_self ..
  have h6 : ltr m a (a + 4 + 2) = m (a + 4 + 2) := wr8_outside (by omega)
  have h7 : ltr m a (a + 4 + 3) = m (a + 4 + 3) := wr8_outside (by omega)
  have h5' : m (a + 4 + 1) = 0x89#8 := h
  unfold rd32
  rw [h4, h5, h6, h7, h5']
  have h1 : (0x8B#8).toNat = 139 := rfl
  have h2 : (0x89#8).toNat = 137 := rfl
  rw [h1, h2]
  omega

theorem rd32_ltr_other (h : b + 4 ≤ a + 5 ∨ a + 6 ≤ b) : rd32 (ltr m a) b = rd32 m b :=
  rd32_wr8_outside (by omega)

/-- A segment of the table, behind the bit that `ltr` sets. -/
theorem gdtInit_segment {i : Nat} (hi : i ≤ 4) : readSegment (gdtInit S m) (S.gdt + 8 * i) =
    readSegment (storeWords (storeWords (storeWords (storeWords (storeWords (tssInit S m)
      (S.gdt + 8 * 0) (newGdtDescriptor 0 0 0 0).words)
      (S.gdt + 8 * 1) (newGdtDescriptor 0 0xFFFFF 0x9A 0xC0).words)
      (S.gdt + 8 * 2) (newGdtDescriptor 0 0xFFFFF 0x92 0xC0).words)
      (S.gdt + 8 * 3) (newGdtDescriptor 0 0xFFFFF 0xFA 0xC0).words)
      (S.gdt + 8 * 4) (newGdtDescriptor 0 0xFFFFF 0xF2 0xC0).words) (S.gdt + 8 * i) :=
  (readSegment_same (rd32_ltr_other (by omega)) (rd32_ltr_other (by omega))).trans
    (readSegment_store_other (by omega))

/-- The descriptor of the task state segment, busy since `ltr`. -/
theorem gdtInit_taskState :
    readSegment (gdtInit S m) (S.gdt + 8 * 5) = ⟨S.tss, 103, 0x0B, 0, true, 0⟩ := by
  have htss : S.tss < 2 ^ 32 := by
    have := S.fits
    omega
  have hw := newGdtDescriptor_words 103 0x89 htss (show 0 < 2 ^ 8 by decide)
  have hw' := newGdtDescriptor_words 103 0x8B htss (show 0 < 2 ^ 8 by decide)
  have hseg := segmentOf_new htss (show 103 < 2 ^ 20 by decide) (show 0x8B < 2 ^ 8 by decide)
    (show 0 < 2 ^ 8 by decide)
  unfold gdtInit readSegment
  dsimp only
  generalize storeWords _ (S.gdt + 8 * 4) _ = m₄
  obtain ⟨h₀, h₁⟩ := rd32_storeWords m₄ (S.gdt + 8 * 5) (newGdtDescriptor S.tss 103 0x89 0).words
  have hbyte : storeWords m₄ (S.gdt + 8 * 5) (newGdtDescriptor S.tss 103 0x89 0).words
      (S.gdt + 8 * 5 + 5) = 0x89#8 := by
    refine (put_inside (a := S.gdt + 8 * 5 + 4) (i := 1) (by decide)).trans ?_
    rw [hw, byteOf, ← BitVec.toNat_inj, BitVec.toNat_ofNat, show (0x89#8).toNat = 137 from rfl]
    dsimp only
    omega
  refine Eq.trans ?_ hseg
  rw [rd32_ltr _ _ hbyte, rd32_ltr_other (by omega), h₀, h₁, hw, hw']
  dsimp only
  congr 1
  omega

/-- `gdt_init` writes to the table and to the task state segment only. -/
theorem rd32_gdtInit_tss (h : b + 4 ≤ S.gdt ∨ S.gdt + 48 ≤ b) :
    rd32 (gdtInit S m) b = rd32 (tssInit S m) b := by
  unfold gdtInit
  dsimp only
  rw [rd32_ltr_other (by omega), rd32_storeWords_other (by omega), rd32_storeWords_other (by omega),
    rd32_storeWords_other (by omega), rd32_storeWords_other (by omega),
    rd32_storeWords_other (by omega), rd32_storeWords_other (by omega)]

/-- **After `gdt_init` and `idt_init` the tables are in place.** -/
theorem arch_installed (S : Symbols) (m : Mem) : TablesInstalled S (idtInit S (gdtInit S m)) := by
  have hfits := S.fits
  have hapart := S.apart
  have hseg : ∀ i, i ≤ 5 → readSegment (idtInit S (gdtInit S m)) (S.gdt + 8 * i) =
      readSegment (gdtInit S m) (S.gdt + 8 * i) := fun i hi =>
    readSegment_same (rd32_idtInit_other (by omega)) (rd32_idtInit_other (by omega))
  have htss : ∀ k, k ≤ 100 → rd32 (idtInit S (gdtInit S m)) (S.tss + k) =
      rd32 (tssInit S m) (S.tss + k) := fun k hk => by
    rw [rd32_idtInit_other (by omega), rd32_gdtInit_tss (by omega)]
  refine ⟨fun n hn => idtInit_gate hn, ?_, ?_, ?_, ?_, ?_, ?_, ?_⟩
  · refine ((hseg 1 (by decide)).trans (gdtInit_segment (by decide))).trans ?_
    rw [readSegment_store_other (by omega), readSegment_store_other (by omega),
      readSegment_store_other (by omega)]
    exact readSegment_store (by decide) (by decide) (by decide) (by decide)
  · refine ((hseg 2 (by decide)).trans (gdtInit_segment (by decide))).trans ?_
    rw [readSegment_store_other (by omega), readSegment_store_other (by omega)]
    exact readSegment_store (by decide) (by decide) (by decide) (by decide)
  · refine ((hseg 3 (by decide)).trans (gdtInit_segment (by decide))).trans ?_
    rw [readSegment_store_other (by omega)]
    exact readSegment_store (by decide) (by decide) (by decide) (by decide)
  · refine ((hseg 4 (by decide)).trans (gdtInit_segment (by decide))).trans ?_
    exact readSegment_store (by decide) (by decide) (by decide) (by decide)
  · exact (hseg 5 (by decide)).trans gdtInit_taskState
  · rw [htss 8 (by decide)]
    unfold tssInit
    rw [rd32_put_outside (by omega), rd32_wr32_outside (by omega), rd32_wr32]
    rfl
  · rw [htss 100 (by decide)]
    unfold tssInit
    dsimp only
    generalize wr32 (wr32 m (S.tss + 8) 0x10) (S.tss + 4) S.stackTop = m₁
    have h2 : put m₁ (S.tss + 102) 2 (byteOf 104) (S.tss + 100 + 2) = 104#8 :=
      put_inside (a := S.tss + 102) (i := 0) (by decide)
    have h3 : put m₁ (S.tss + 102) 2 (byteOf 104) (S.tss + 100 + 3) = 0#8 :=
      put_inside (a := S.tss + 102) (i := 1) (by decide)
    have h0 := (put m₁ (S.tss + 102) 2 (byteOf 104) (S.tss + 100)).isLt
    have h1 := (put m₁ (S.tss + 102) 2 (byteOf 104) (S.tss + 100 + 1)).isLt
    unfold rd32
    rw [h2, h3, show (104#8).toNat = 104 from rfl, show (0#8).toNat = 0 from rfl]
    omega

/-- The bytes of the tables, but for the stack pointer that is set for each task. -/
def Symbols.Table (S : Symbols) (x : Nat) : Prop :=
  S.gdt ≤ x ∧ x < S.gdt + 48 ∨ S.idt ≤ x ∧ x < S.idt + 2048 ∨
    S.tss ≤ x ∧ x < S.tss + 104 ∧ ¬ (S.tss + 4 ≤ x ∧ x < S.tss + 8)

/-- What does not touch the tables leaves them in place. -/
theorem TablesInstalled.congr (h : TablesInstalled S m) (ha : AgreeOn S.Table m m') :
    TablesInstalled S m' := by
  have hgdt : ∀ i, i ≤ 5 → readSegment m' (S.gdt + 8 * i) = readSegment m (S.gdt + 8 * i) :=
    fun i hi => readSegment_same (ha.rd32 fun j hj => .inl (by omega))
      (ha.rd32 fun j hj => .inl (by omega))
  refine ⟨fun n hn => ?_, (hgdt 1 (by decide)).trans h.kernelCode,
    (hgdt 2 (by decide)).trans h.kernelData, (hgdt 3 (by decide)).trans h.userCode,
    (hgdt 4 (by decide)).trans h.userData, (hgdt 5 (by decide)).trans h.taskState, ?_, ?_⟩
  · rw [← h.gates n hn]
    exact readGate_same (ha.rd32 fun j hj => .inr (.inl (by omega)))
      (ha.rd32 fun j hj => .inr (.inl (by omega)))
  · rw [← h.ss0]
    exact ha.rd32 fun j hj => .inr (.inr (by omega))
  · rw [← h.iopb]
    congr 1
    exact ha.rd32 fun j hj => .inr (.inr (by omega))

/-- **`tss_set_kernel_stack` sets the stack for ring 0** and leaves the tables in place. -/
theorem tssSetKernelStack_spec {stack : Nat} (h : stack < 2 ^ 32) :
    AgreeOn S.Table m (tssSetKernelStack S m stack) ∧
      rd32 (tssSetKernelStack S m stack) (S.tss + 4) = stack := by
  have hapart := S.apart
  refine ⟨fun x hx => wr32_outside ?_, ?_⟩
  · unfold Symbols.Table at hx
    omega
  · unfold tssSetKernelStack
    rw [rd32_wr32, Nat.mod_eq_of_lt h]

/-- The first stack for ring 0. -/
theorem arch_stackTop (S : Symbols) (m : Mem) :
    rd32 (idtInit S (gdtInit S m)) (S.tss + 4) = S.stackTop := by
  have hfits := S.fits
  have hapart := S.apart
  rw [rd32_idtInit_other (by omega), rd32_gdtInit_tss (by omega)]
  unfold tssInit
  rw [rd32_put_outside (by omega), rd32_wr32, Nat.mod_eq_of_lt S.isWord.1]

end

/-! ## 4. Interrupts -/

section

variable {S : Symbols} {c d : Core} {n : Nat}

theorem Symbols.handler_lt (S : Symbols) (n : Nat) : S.handler n < 2 ^ 32 := by
  obtain ⟨-, hisr, hsys, hex, hirq⟩ := S.isWord
  unfold Symbols.handler
  split_ifs
  · exact hex _
  · exact hirq _
  · exact hsys
  · exact hisr

/-- A gate that may be used. -/
theorem TablesInstalled.gate_open (h : TablesInstalled S c.mem) (hn : n < 256) {int : Bool}
    (hint : int = true → n = 0x80 ∨ c.cpl = 0) : S.tables.gate c n int = .ok (S.gate n) := by
  have hcpl : c.cpl < 4 := Nat.mod_lt _ (by decide)
  unfold Tables.gate
  rw [if_neg (show ¬ S.tables.idtLimit < 8 * n + 7 by simp [Symbols.tables]; omega)]
  dsimp only
  rw [show S.tables.idtBase = S.idt from rfl, h.gates n hn]
  unfold Symbols.gate
  dsimp only
  rw [if_neg (by split_ifs <;> decide), if_neg ?_, if_neg (by decide)]
  rintro ⟨hi, hlt⟩
  obtain h80 | h0 := hint hi
  · rw [if_pos h80] at hlt
    omega
  · omega

/-- **A gate that user code may not use.** -/
theorem TablesInstalled.gate_closed (h : TablesInstalled S c.mem) (hn : n < 256) (h80 : n ≠ 0x80)
    (hcpl : c.cpl ≠ 0) : S.tables.gate c n true = .error ⟨13, 8 * n + 2⟩ := by
  unfold Tables.gate
  rw [if_neg (show ¬ S.tables.idtLimit < 8 * n + 7 by simp [Symbols.tables]; omega)]
  dsimp only
  rw [show S.tables.idtBase = S.idt from rfl, h.gates n hn]
  unfold Symbols.gate
  dsimp only
  rw [if_neg h80, if_neg h80, if_neg (by decide), if_pos ⟨rfl, Nat.pos_of_ne_zero hcpl⟩]

/-- The descriptor of a selector of the table. -/
theorem segment_ok (selector : Nat) (h4 : selector / 4 ≠ 0) (hti : selector / 4 % 2 = 0)
    (hlim : selector / 8 * 8 + 7 ≤ 47) (m : Mem) :
    S.tables.segment m selector = .ok (readSegment m (S.gdt + selector / 8 * 8)) := by
  unfold Tables.segment
  have hlim' : ¬ S.tables.gdtLimit < selector / 8 * 8 + 7 := Nat.not_lt.mpr hlim
  rw [if_neg h4, if_neg (by simp [hti, hlim'])]
  rfl

/-- Handlers run in ring 0. -/
theorem TablesInstalled.level (h : TablesInstalled S c.mem) (n : Nat) :
    S.tables.level c (S.gate n) = .ok 0 := by
  have hseg : S.tables.segment c.mem (S.gate n).selector =
      .ok ⟨0, 0xFFFFF, 0x1A, 0, true, 0xC⟩ := by
    rw [← h.kernelCode]
    exact segment_ok 0x08 (by decide) (by decide) (by decide) _
  unfold Tables.level
  rw [hseg, ok_bind, if_neg (by simp [SegDesc.isCode]), if_neg (by decide)]

/-- From user mode, on the stack that the task state segment keeps. -/
theorem TablesInstalled.stack0 (h : TablesInstalled S c.mem) :
    S.tables.stack0 c = .ok (0x10, rd32 c.mem (S.tss + 4)) := by
  have hseg : S.tables.segment c.mem 0x10 = .ok ⟨0, 0xFFFFF, 0x12, 0, true, 0xC⟩ := by
    rw [← h.kernelData]
    exact segment_ok _ (by decide) (by decide) (by decide) _
  unfold Tables.stack0
  rw [show S.tables.tss = S.tss from rfl, h.ss0]
  dsimp only
  rw [show 0x10 % 2 ^ 16 = 0x10 from rfl, hseg, ok_bind, if_neg (by decide)]

/-- `iret` goes back to user code, on the user's stack. -/
theorem TablesInstalled.return_user (h : TablesInstalled S d.mem) (hd : d.cpl = 0) :
    S.tables.returnLevel d 0x1B = .ok () ∧ S.tables.returnStack d 0x1B 0x23 = .ok () := by
  have hcode : S.tables.segment d.mem 0x1B = .ok ⟨0, 0xFFFFF, 0x1A, 3, true, 0xC⟩ := by
    rw [← h.userCode]
    exact segment_ok _ (by decide) (by decide) (by decide) _
  have hdata : S.tables.segment d.mem 0x23 = .ok ⟨0, 0xFFFFF, 0x12, 3, true, 0xC⟩ := by
    rw [← h.userData]
    exact segment_ok _ (by decide) (by decide) (by decide) _
  unfold Tables.returnLevel Tables.returnStack
  rw [hcode, hdata, ok_bind, ok_bind, if_neg (by rw [hd]; decide), if_neg (by decide),
    if_neg (by decide), if_neg (by decide)]
  exact ⟨rfl, rfl⟩

/-- `iret` goes back to the kernel. -/
theorem TablesInstalled.return_kernel (h : TablesInstalled S d.mem) (hd : d.cpl = 0) :
    S.tables.returnLevel d 0x08 = .ok () := by
  have hcode : S.tables.segment d.mem 0x08 = .ok ⟨0, 0xFFFFF, 0x1A, 0, true, 0xC⟩ := by
    rw [← h.kernelCode]
    exact segment_ok _ (by decide) (by decide) (by decide) _
  unfold Tables.returnLevel
  rw [hcode, ok_bind, if_neg (by rw [hd]; decide), if_neg (by decide)]

/-- Where the stack of the handler begins. -/
def Symbols.top (S : Symbols) (c : Core) : Nat :=
  if c.cpl = 0 then c.regs .esp else rd32 c.mem (S.tss + 4)

/-- The stack segment of the handler. -/
def handlerSs (c : Core) : Nat := if c.cpl = 0 then c.regs .ss else 0x10

/-- The words that the processor pushes. -/
def savedWords (c : Core) : List Nat := if c.cpl = 0 then c.inner else c.outer ++ c.inner

/-- **An interrupt that is let through** comes to its handler. -/
theorem TablesInstalled.deliver (h : TablesInstalled S c.mem) (hn : n < 256) (int : Bool)
    (hint : int = true → n = 0x80 ∨ c.cpl = 0) (err : List Nat)
    (hroom : 4 * (5 + err.length) ≤ S.top c) :
    ∃ c', c.deliver S.tables n int err = .ok c' ∧
      Entered c (S.gate n) (handlerSs c) (S.top c) (savedWords c ++ err) c' := by
  have hword : (S.gate n).offset < 2 ^ 32 ∧ (S.gate n).selector < 2 ^ 32 :=
    ⟨S.handler_lt n, show 0x08 < 2 ^ 32 by decide⟩
  unfold Symbols.top at hroom
  unfold Symbols.top handlerSs savedWords
  by_cases hcpl : c.cpl = 0
  · rw [if_pos hcpl] at hroom
    rw [if_pos hcpl, if_pos hcpl, if_pos hcpl]
    exact Core.deliver_inner (h.gate_open hn hint) (h.level n) hcpl hword (by omega)
  · rw [if_neg hcpl] at hroom
    rw [if_neg hcpl, if_neg hcpl, if_neg hcpl]
    exact Core.deliver_outer (h.gate_open hn hint) (h.level n) h.stack0 (by omega) hword
      ⟨by decide, rd32_lt _ _⟩ hroom

theorem entered_cpl {ss sp : Nat} {ws : List Nat} (h : Entered c (S.gate n) ss sp ws d) :
    d.cpl = 0 := by
  unfold Core.cpl
  rw [h.cs]
  exact (show 0x08 / 4 * 4 % 4 = 0 by decide)

/-- Interrupts stay on through the gate of the system call, and through no other. -/
theorem entryFlags_if (S : Symbols) (n flags : Nat) :
    (entryFlags (S.gate n).kind flags).testBit 9 = (decide (n = 0x80) && flags.testBit 9) := by
  unfold entryFlags Symbols.gate
  dsimp only
  by_cases h80 : n = 0x80
  · rw [if_pos h80, if_neg (by decide), Nat.testBit_and]
    simp [h80, show (0xFFFCBEFF : Nat).testBit 9 = true by decide]
  · rw [if_neg h80, if_pos rfl, Nat.testBit_and]
    simp [h80, show (0xFFFCBCFF : Nat).testBit 9 = false by decide]

/-- **What may interrupt what.** As long as no one writes to the tables, every interrupt and exception
    comes to its handler in ring 0, with interrupts off unless it is a system call; user code that
    executes `int n` gets there for 0x80, and for every other vector raises a general protection
    fault. -/
theorem gates_exact {m : Mem} (hkept : AgreeOn S.Table (idtInit S (gdtInit S m)) c.mem)
    (hroom : 24 ≤ S.top c) (hn : n < 256) :
    (∀ err : List Nat, err.length ≤ 1 → ∃ c', c.deliver S.tables n false err = .ok c' ∧
      c'.regs .eip = S.handler n ∧ c'.cpl = 0 ∧
      (c'.regs .eflags).testBit 9 = (decide (n = 0x80) && (c.regs .eflags).testBit 9)) ∧
    (c.cpl ≠ 0 → ((∃ c', c.deliver S.tables n true [] = .ok c') ↔ n = 0x80) ∧
      (n ≠ 0x80 → c.deliver S.tables n true [] = .error ⟨13, 8 * n + 2⟩)) := by
  have h := (arch_installed S m).congr hkept
  have hclosed : c.cpl ≠ 0 → n ≠ 0x80 →
      c.deliver S.tables n true [] = .error ⟨13, 8 * n + 2⟩ := fun hcpl h80 => by
    unfold Core.deliver
    rw [h.gate_closed hn h80 hcpl]
    rfl
  refine ⟨fun err herr => ?_, fun hcpl => ⟨⟨fun ⟨c', hc'⟩ => ?_, fun h80 => ?_⟩, hclosed hcpl⟩⟩
  · obtain ⟨c', hc', he⟩ := h.deliver hn false (fun hf => by cases hf) err (by omega)
    refine ⟨c', hc', he.eip, entered_cpl he, ?_⟩
    rw [he.flags]
    exact entryFlags_if S n _
  · by_contra h80
    rw [hclosed hcpl h80] at hc'
    cases hc'
  · obtain ⟨c', hc', -⟩ := h.deliver hn true (fun _ => .inl h80) []
      (by simp only [List.length_nil]; omega)
    exact ⟨c', hc'⟩

end

/-- Tables and handlers at some addresses. -/
def smallSymbols : Symbols where
  gdt := 0x1000
  idt := 0x2000
  tss := 0x3000
  stackTop := 0x9000
  isrStub := 0x100
  syscallStub := 0x200
  ex i := 0x400 + 16 * i
  irq i := 0x800 + 16 * i
  isWord := ⟨by decide, by decide, by decide, fun i => by omega, fun i => by omega⟩
  fits := by decide
  apart := by decide

/-- A processor in user mode, after both tables were set up. -/
def smallUser : Core where
  regs
    | .cs => 0x1B
    | .ss => 0x23
    | .esp => 0x00800000
    | .eip => 0x00400000
    | .eflags => 0x202
    | .ds | .es | .fs | .gs => 0x23
    | _ => 0
  isWord r := by cases r <;> decide
  mem := idtInit smallSymbols (gdtInit smallSymbols fun _ => 0)

theorem smallUser_mem : smallUser.mem = idtInit smallSymbols (gdtInit smallSymbols fun _ => 0) := by
  simp only [smallUser]

theorem smallUser_kept : AgreeOn smallSymbols.Table
    (idtInit smallSymbols (gdtInit smallSymbols fun _ => 0)) smallUser.mem := by
  rw [smallUser_mem]
  exact .refl _ _

theorem smallUser_top : rd32 smallUser.mem (smallSymbols.tss + 4) = 0x9000 := by
  rw [smallUser_mem, arch_stackTop]
  rfl

theorem smallSymbols_apart (x : Nat) (hx : smallSymbols.Table x) : x < 0x9000 - 56 ∨ 0x9000 ≤ x := by
  simp only [Symbols.Table, smallSymbols] at hx
  omega

/-- `int $3` from user code. -/
theorem gates_exact_user : smallUser.cpl = 3 ∧
    smallUser.deliver smallSymbols.tables 3 true [] = .error ⟨13, 26⟩ := by
  have hcpl : smallUser.cpl = 3 := rfl
  have hroom : 24 ≤ smallSymbols.top smallUser := by
    rw [Symbols.top, if_neg (by rw [hcpl]; decide), smallUser_top]
    decide
  exact ⟨hcpl, ((gates_exact smallUser_kept hroom (show 3 < 256 by decide)).2
    (by rw [hcpl]; decide)).2 (by decide)⟩

end Emyx
