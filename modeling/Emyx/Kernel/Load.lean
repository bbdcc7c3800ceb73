/-
  File:      Emyx/Kernel/Load.lean
  Subject:   LOADING A PROGRAM (user.c): what `user_prepare_exec` leaves in a fresh address space.

  A program has two pages, its code at 0x00400000 and its stack at 0x007ff000. Both are behind
  entry 1 of the directory, so one page table serves them.

  * `UserHalf` -- a directory whose user half has at most that entry, and the words of its table;
  * `LoadsImage`, `LeavesNothing` -- what loading promises when it succeeds, and when it fails;
  * **`MmInv.prepareExec_cases`** -- it keeps the promise wherever memory's invariant holds.
-/
import Emyx.Kernel.Runs

namespace Emyx

open Lib

/-! ## 1. The user half of a directory -/

/-- In the user half of the directory `d` only entry 1 may be in use: it is `w`, and the words of
    its table are `pte`. -/
structure UserHalf (m : Mem) (d w : Nat) (pte : Nat → Nat) : Prop where
  dir : ∀ i, i < 768 → dirWord m d i = if i = 1 then w else 0
  pte : ∀ j, j < 1024 → pteWord m d 1 j = pte j

section

variable {κ : Type} {held : κ → Option Nat} {s : Mm} {m m' : Mem} {d w j t flags x : Nat}
  {pte : Nat → Nat}

theorem userHalf_empty (h : ∀ i, i < 768 → dirWord m d i = 0) : UserHalf m d 0 fun _ => 0 where
  dir i hi := by rw [h i hi, ite_self]
  pte j _ := by
    refine pteWord_of_none (if_neg ?_) j
    rw [h 1 (by decide)]
    decide

theorem UserHalf.dirWord_one (h : UserHalf m d w pte) : dirWord m d 1 = w := h.dir 1 (by decide)

theorem UserHalf.congr (h : UserHalf m d w pte)
    (hdir : ∀ i, i < 1024 → dirWord m' d i = dirWord m d i)
    (hpte : ∀ j, j < 1024 → pteWord m' d 1 j = pteWord m d 1 j) : UserHalf m' d w pte where
  dir i hi := (hdir i (by omega)).trans (h.dir i hi)
  pte j hj := (hpte j hj).trans (h.pte j hj)

/-- A page is mapped behind entry 1. -/
theorem UserHalf.mapped (h : UserHalf s.mem d w pte) (hd : IsDir s d)
    (hm : Mapped held s m' d 1 j t flags x) :
    UserHalf m' d ((if w % 2 = 1 then w else t + 1) ||| (flags &&& (2 ||| 4)))
      (Function.update pte j x) where
  dir i hi := by
    by_cases h1 : i = 1
    · subst h1
      rw [if_pos rfl, hm.dir, h.dirWord_one]
      congr 1
      unfold tableOf
      rw [h.dirWord_one]
      by_cases hw : w % 2 = 1
      · rw [if_pos hw, if_pos hw, if_neg nofun]
      · rw [if_neg hw, if_neg hw, if_pos rfl]
    · rw [hm.dirs d i hd (by omega) fun hc => h1 hc.2, h.dir i hi, if_neg h1, if_neg h1]
  pte j' hj' := by
    rw [hm.pte d 1 j' hd (by decide) hj', h.pte j' hj']
    by_cases hj : j' = j
    · rw [if_pos ⟨hm.table, hj⟩, hj, Function.update_self]
    · rw [if_neg fun hc => hj hc.2, Function.update_of_ne hj]

/-- A page behind entry 1 is unmapped. -/
theorem UserHalf.unmapped (h : UserHalf s.mem d w pte) (hd : IsDir s d)
    (ht : tableOf s.mem d 1 = some t) (hm : Unmapped held s m' t j) :
    UserHalf m' d w (Function.update pte j 0) where
  dir i hi := (hm.dirs d i hd (by omega)).trans (h.dir i hi)
  pte j' hj' := by
    rw [hm.pte d 1 j' hd (by decide) hj', h.pte j' hj']
    by_cases hj : j' = j
    · rw [if_pos ⟨ht, hj⟩, hj, Function.update_self]
    · rw [if_neg fun hc => hj hc.2, Function.update_of_ne hj]

/-- The words behind a user address. -/
theorem UserHalf.words (h : UserHalf m d w pte) {v : Nat} (hv : v < 0xC0000000) :
    (dirWord m d (pdeIndex v) = if v / 4194304 = 1 then w else 0) ∧
      pteWord m d (pdeIndex v) (pteIndex v) =
        if v / 4194304 = 1 then pte (v / 4096 % 1024) else 0 := by
  have hi : pdeIndex v = v / 4194304 := by
    rw [pdeIndex_eq]
    omega
  rw [hi, pteIndex_eq, h.dir _ (by omega)]
  refine ⟨rfl, ?_⟩
  by_cases h1 : v / 4194304 = 1
  · rw [if_pos h1, h1, h.pte _ (by omega)]
  · rw [if_neg h1]
    refine pteWord_of_none (if_neg ?_) _
    rw [h.dir _ (by omega), if_neg h1]
    decide

theorem UserHalf.walk (h : UserHalf m d w pte) {v : Nat} (hv : v < 0xC0000000) :
    (walk m d v).isSome ↔ v / 4194304 = 1 ∧ pte (v / 4096 % 1024) % 2 = 1 := by
  unfold Emyx.walk
  rw [(h.words hv).2]
  by_cases h1 : v / 4194304 = 1
  · rw [if_pos h1]
    by_cases hp : pte (v / 4096 % 1024) % 2 = 1
    · rw [if_pos hp]
      exact iff_of_true rfl ⟨h1, hp⟩
    · rw [if_neg hp]
      exact iff_of_false nofun fun hc => hp hc.2
  · rw [if_neg h1, if_neg (by decide)]
    exact iff_of_false nofun fun hc => h1 hc.1

/-- What user code reaches, if entry 1 lets it through. -/
theorem UserHalf.userPhys (h : UserHalf m d w pte) {v : Nat} (hv : v < 0xC0000000) {write : Bool}
    (hw : Grants w write) :
    userPhys m d v write = if v / 4194304 = 1 ∧ Grants (pte (v / 4096 % 1024)) write then
      some (entryFrame (pte (v / 4096 % 1024)) + v % 4096) else none := by
  obtain ⟨hdir, hpte⟩ := h.words hv
  unfold Emyx.userPhys
  rw [hdir, hpte]
  by_cases h1 : v / 4194304 = 1
  · simp [h1, hw]
  · simp [h1, Grants]

end

/-! ## 2. A page that was copied -/

section

variable {p0 : Pmm} {s0 : Mm} {bs : List Blk} {k k' : Kernel} {i : Fin 16} {v size flags f : Nat}
  {src : Option Nat}

/-- The page is behind entry 1. -/
theorem CopiedTo.userHalf (h : MmInv p0 s0 k.processes bs k.mm)
    (hsp : (k.processes i).addressSpace ∈ k.mm.spaces) (hv : pdeIndex v = 1) {w : Nat}
    {pte : Nat → Nat} (hu : UserHalf k.mm.mem (k.processes i).addressSpace w pte)
    (hc : CopiedTo p0 k k' i v src size flags f) :
    ∃ t, t % 4096 = 0 ∧ UserHalf k'.mm.mem (k.processes i).addressSpace
      ((if w % 2 = 1 then w else t + 1) ||| ((1 ||| 4 ||| flags) &&& (2 ||| 4)))
      (Function.update pte (pteIndex v) (f ||| ((1 ||| 4 ||| flags) &&& 0xfff))) := by
  obtain ⟨p', m', t, hf, hfill, hm, -⟩ := hc.mapped
  obtain ⟨hdir, hpte⟩ := h.vm.words_kept (h.vm.fresh_write hf.new hf.aligned hfill.other)
  rw [hv] at hm
  have hd : IsDir { k.mm with pmm := p', mem := m' } (k.processes i).addressSpace := .inr hsp
  have hu' : UserHalf m' (k.processes i).addressSpace w pte :=
    hu.congr (fun i hi => hdir _ i (.inr hsp) hi) fun j hj => hpte _ 1 j (.inr hsp) (by decide) hj
  exact ⟨t, tableOf_aligned hm.table,
    UserHalf.mapped (s := { k.mm with pmm := p', mem := m' }) hu' hd hm⟩

/-- Every other directory entry is as it was. -/
theorem CopiedTo.dirs (h : MmInv p0 s0 k.processes bs k.mm)
    (hc : CopiedTo p0 k k' i v src size flags f) {d j : Nat} (hd : IsDir k.mm d) (hj : j < 1024)
    (hne : ¬ (d = (k.processes i).addressSpace ∧ j = pdeIndex v)) :
    dirWord k'.mm.mem d j = dirWord k.mm.mem d j := by
  obtain ⟨p', m', t, hf, hfill, hm, -⟩ := hc.mapped
  obtain ⟨hdir, -⟩ := h.vm.words_kept (h.vm.fresh_write hf.new hf.aligned hfill.other)
  exact (hm.dirs d j hd hj hne).trans (hdir d j hd hj)

theorem CopiedTo.pages (hc : CopiedTo p0 k k' i v src size flags f) :
    (k'.processes i).pages = (k.processes i).pages ++ [⟨v, f⟩] := by
  rw [hc.kernel]
  exact withPages_self ..

/-- The page holds what was copied. -/
theorem CopiedTo.bytes (hc : CopiedTo p0 k k' i v src size flags f)
    (hsrc : ∀ a, src = some a → ∀ x, x < size → Outside p0 (a - 0xC0000000 + x)) {x : Nat}
    (hx : x < 4096) : k'.mm.mem (f + x) = copiedByte k.mm.mem src size x := by
  obtain ⟨p', m', t, hf, hfill, hm, -⟩ := hc.mapped
  have hmem : f ∈ (k'.processes i).frames := by
    unfold UserProcess.frames
    rw [hc.pages]
    simp
  refine (hm.clients (.page i f) f (if_pos hmem) _ (by omega)).trans (hfill.bytes ?_ x hx)
  exact fun a ha y hy => hsrc a ha y hy p' f ((hf.taken f).mpr (.inl rfl))

/-- The pages of the heap and of the records are as they were. -/
theorem CopiedTo.keeps (h : MmInv p0 s0 k.processes bs k.mm)
    (hc : CopiedTo p0 k k' i v src size flags f) {c : Client} {g : Nat}
    (hg : heldBy k.mm.heapPages k.processes c = some g) : SamePage k.mm.mem k'.mm.mem g := by
  obtain ⟨p', m', t, hf, hfill, hm, -⟩ := hc.mapped
  have hrole : frameOf k.mm (heldBy k.mm.heapPages k.processes) (.client c) = some g := hg
  refine (h.vm.fresh_write hf.new hf.aligned hfill.other _ g hrole).trans (hm.clients c g ?_)
  rw [hc.kernel]
  rcases heldBy_some hg with ⟨rfl, hin⟩ | ⟨n, rfl, hin⟩
  · exact if_pos hin
  · refine if_pos ?_
    by_cases hn : n = i
    · subst hn
      unfold UserProcess.frames at hin ⊢
      rw [withPages_self, List.map_append]
      exact List.mem_append_left _ hin
    · show g ∈ (withPages k.processes i _ n).frames
      rwa [withPages_of_ne hn]

end

/-! ## 3. The image -/

/-- The byte at `x` is one of the boot module. -/
def BootModule.Covers (mod : BootModule) (x : Nat) : Prop :=
  ∃ i, i < mod.size ∧ (mod.start + i) % 2 ^ 32 = 0xC0000000 + x

/-- The boot module lies apart from the frames that may be taken, and from the memory in which the
    kernel keeps its state: its image, the bitmap and the screen. -/
structure ModuleApart (img : KernelImage) (p0 : Pmm) (mod : BootModule) : Prop where
  frames : ∀ x, mod.Covers x → Outside p0 x
  image : ∀ x, mod.Covers x → x < img.physicalStart ∨ img.physicalEnd ≤ x
  bitmap : ∀ x, mod.Covers x → ¬ InBitmap p0 x
  screen : ∀ x, mod.Covers x → x < 0xB8000 ∨ 0xB8FA0 ≤ x

theorem emxfHeader_some {m : Mem} {image size codeSize entryOffset : Nat}
    (h : emxfHeader m image size = .ok (some (codeSize, entryOffset))) :
    codeSize ≤ 4096 ∧ entryOffset < codeSize ∧ 12 + codeSize ≤ size := by
  unfold emxfHeader at h
  split at h
  · cases h
  obtain ⟨b, -, h⟩ := bind_ok.mp h
  split at h
  · cases h
  obtain ⟨cs, -, h⟩ := bind_ok.mp h
  obtain ⟨eo, -, h⟩ := bind_ok.mp h
  split_ifs at h <;> cases h
  omega

/-- Where byte `j` of the code of an image is. -/
theorem code_address {image codeSize j : Nat} (hj : j < codeSize)
    (hsrc : 0xC0000000 ≤ (image + 12) % 2 ^ 32 ∧ (image + 12) % 2 ^ 32 + codeSize ≤ 0xC1000000) :
    (image + (12 + j)) % 2 ^ 32 = 0xC0000000 + ((image + 12) % 2 ^ 32 - 0xC0000000 + j) := by
  omega

/-- The code of an image in the boot module is in no frame that may be taken. -/
theorem code_outside {img : KernelImage} {p0 : Pmm} {m : Mem} {mod : BootModule} {path : List Byte}
    {image size codeSize x : Nat} (ha : ModuleApart img p0 mod)
    (hfind : initramfsFind m mod path = .ok (some (image, size))) (hfit : 12 + codeSize ≤ size)
    (hsrc : 0xC0000000 ≤ (image + 12) % 2 ^ 32 ∧ (image + 12) % 2 ^ 32 + codeSize ≤ 0xC1000000)
    (hx : x < codeSize) : Outside p0 ((image + 12) % 2 ^ 32 - 0xC0000000 + x) := by
  obtain ⟨off, rfl, hin⟩ := initramfsFind_range hfind
  refine ha.frames _ ⟨off + (12 + x), by omega, ?_⟩
  rw [← code_address hx hsrc]
  omega

/-! ## 4. What loading promises -/

/-- The address space of record `i` is as `vmm_create_address_space` made it. -/
structure FreshSpace (k : Kernel) (i : Fin 16) : Prop where
  created : (k.processes i).state = .created
  pages : (k.processes i).pages = []
  empty : ∀ j, j < 768 → dirWord k.mm.mem (k.processes i).addressSpace j = 0

/-- What user code reads at `v` in a program of `size` bytes: the code, then zeros, and a stack of
    zeros. -/
def programByte (code : Nat → Byte) (size v : Nat) : Option Byte :=
  if v / 4096 = 0x400 then some (if v % 4096 < size then code (v % 4096) else 0)
  else if v / 4096 = 0x7ff then some 0
  else none

/-- The address space of record `i` holds the program found under `path`, and nothing else. -/
structure LoadsImage (k : Kernel) (i : Fin 16) (path : List Byte) (k' : Kernel) : Prop where
  reads : ∃ image size codeSize entryOffset code,
    initramfsFind k.mm.mem k.bootModule path = .ok (some (image, size)) ∧
    emxfHeader k.mm.mem image size = .ok (some (codeSize, entryOffset)) ∧
    (∀ j, j < codeSize → imageByte k.mm.mem image (12 + j) = .ok (code j)) ∧
    (∀ v, v < 2 ^ 32 → (userPhys k'.mm.mem (k.processes i).addressSpace v false).map k'.mm.mem =
      programByte code codeSize v) ∧
    0x00400000 ≤ (k'.processes i).entry ∧ (k'.processes i).entry < 0x00400000 + codeSize
  writes : ∀ v, v < 2 ^ 32 →
    ((userPhys k'.mm.mem (k.processes i).addressSpace v true).isSome ↔ v / 4096 = 0x7ff)
  maps : ∀ v, v < 0xC0000000 → ((walk k'.mm.mem (k.processes i).addressSpace v).isSome ↔
    v / 4096 = 0x400 ∨ v / 4096 = 0x7ff)

/-- Nothing is left but at most one page table, which the directory names. -/
structure LeavesNothing (p0 : Pmm) (k : Kernel) (i : Fin 16) (k' : Kernel) : Prop where
  maps : ∀ v, v < 0xC0000000 → walk k'.mm.mem (k.processes i).addressSpace v = none
  pages : (k'.processes i).pages = []
  held : ∀ f, Allocated p0 k'.mm.pmm f ↔ Allocated p0 k.mm.pmm f ∨
    ∃ j, j < 768 ∧ tableOf k'.mm.mem (k.processes i).addressSpace j = some f
  one : ∀ j j', j < 768 → j' < 768 → tableOf k'.mm.mem (k.processes i).addressSpace j ≠ none →
    tableOf k'.mm.mem (k.processes i).addressSpace j' ≠ none → j = j'

/-! ## 5. It keeps the promise -/

section

variable {img : KernelImage} {p0 : Pmm} {s0 s : Mm} {bs : List Blk} {k k' k₁ k₂ : Kernel}
  {i : Fin 16} {image size codeSize entryOffset f g : Nat}

theorem copied_aligned {v flags : Nat} {src : Option Nat}
    (hc : CopiedTo p0 k k' i v src size flags f) : f % 4096 = 0 ∧ f + 4096 ≤ 2 ^ 32 := by
  obtain ⟨p', -, -, hf, -⟩ := hc.mapped
  have hlt := ((hf.taken f).mpr (.inl rfl)).lt
  have := hf.aligned
  omega

/-- With its code page a program has one table, open to user code. -/
theorem CodeLoaded.userHalf (h : MmInv p0 s0 k.processes bs k.mm) (hf : FreshSpace k i)
    (hsp : (k.processes i).addressSpace ∈ k.mm.spaces)
    (hc : CodeLoaded p0 k k₁ i image size codeSize entryOffset f) :
    ∃ t, t % 4096 = 0 ∧ UserHalf k₁.mm.mem (k.processes i).addressSpace (t + 5)
      (Function.update (fun _ => 0) 0 (f + 5)) := by
  obtain ⟨k₀, hcopy, rfl⟩ := hc.copied
  obtain ⟨t, ht, hu⟩ := hcopy.userHalf h hsp (by decide) (userHalf_empty hf.empty)
  refine ⟨t, ht, ?_⟩
  have hw : (t + 1) ||| 4 = t + 5 := by
    rw [← frame_or_flags ht (by decide), Nat.or_assoc]
    exact frame_or_flags ht (by decide)
  have hp : f ||| 5 = f + 5 := frame_or_flags (copied_aligned hcopy).1 (by decide)
  rw [← hw, ← hp]
  exact hu

/-- With its stack too, user code may write there, and nowhere else. -/
theorem CopiedTo.userHalf_stack (h₁ : MmInv p0 s0 k₁.processes bs k₁.mm)
    (hsp : (k₁.processes i).addressSpace ∈ k₁.mm.spaces) {t : Nat} (ht : t % 4096 = 0)
    {pte : Nat → Nat} (hu : UserHalf k₁.mm.mem (k₁.processes i).addressSpace (t + 5) pte)
    (hc : CopiedTo p0 k₁ k₂ i 0x007ff000 none 0 2 g) :
    UserHalf k₂.mm.mem (k₁.processes i).addressSpace (t + 7)
      (Function.update pte 1023 (g + 7)) := by
  obtain ⟨t', -, hu'⟩ := hc.userHalf h₁ hsp (by decide) hu
  rw [if_pos (by omega)] at hu'
  have hw : (t + 5) ||| 6 = t + 7 := by
    rw [← frame_or_flags ht (by decide), Nat.or_assoc]
    exact frame_or_flags ht (by decide)
  have hp : g ||| 7 = g + 7 := frame_or_flags (copied_aligned hc).1 (by decide)
  rw [← hw, ← hp]
  exact hu'

/-- The kernel half is closed to user code. -/
theorem MmInv.userPhys_high {ps : Fin 16 → UserProcess} (h : MmInv p0 s0 ps bs s)
    (hclosed : HalfClosed s0) {d v : Nat} {write : Bool} (hd : d ∈ s.spaces) (hv : 0xC0000000 ≤ v)
    (hlt : v < 2 ^ 32) : Emyx.userPhys s.mem d v write = none := by
  refine if_neg fun hc => ?_
  have hi : 768 ≤ pdeIndex v := by
    rw [pdeIndex_eq]
    omega
  have hw := h.halfWords d hd _ hi (pdeIndex_lt v)
  have hodd := hc.1.1
  have huser := hc.1.2.1
  rw [hw] at hodd huser
  rw [hclosed _ hi (pdeIndex_lt v) hodd] at huser
  cases huser

/-- The two pages of a program, in its table. -/
theorem programPtes (f g : Nat) (j : Nat) :
    Function.update (Function.update (fun _ => 0) 0 (f + 5)) 1023 (g + 7) j =
      if j = 0 then f + 5 else if j = 1023 then g + 7 else 0 := by
  by_cases h0 : j = 0
  · subst h0
    rfl
  by_cases h1 : j = 1023
  · subst h1
    rfl
  rw [if_neg h0, if_neg h1, Function.update_of_ne h1, Function.update_of_ne h0]

/-- What user code reaches in an address space with the two pages of a program. -/
theorem UserHalf.program {m : Mem} {d t v : Nat} (ht : t % 4096 = 0) (hf : f % 4096 = 0)
    (hg : g % 4096 = 0) (hfl : f + 4096 ≤ 2 ^ 32) (hgl : g + 4096 ≤ 2 ^ 32)
    (hu : UserHalf m d (t + 7) (Function.update (Function.update (fun _ => 0) 0 (f + 5)) 1023 (g + 7)))
    (hv : v < 0xC0000000) (write : Bool) :
    Emyx.userPhys m d v write =
      if v / 4096 = 0x400 ∧ write = false then some (f + v % 4096)
      else if v / 4096 = 0x7ff then some (g + v % 4096) else none := by
  have hw : Grants (t + 7) write := ⟨by omega, by omega, fun _ => by omega⟩
  rw [hu.userPhys hv hw, programPtes]
  by_cases h1 : v / 4194304 = 1
  · by_cases h0 : v / 4096 % 1024 = 0
    · have hgr : Grants (f + 5) write ↔ write = false := by
        cases write with
        | false => exact iff_of_true ⟨by omega, by omega, nofun⟩ rfl
        | true => exact iff_of_false (fun hc => absurd (hc.2.2 rfl) (by omega)) nofun
      have hef : entryFrame (f + 5) = f := by
        rw [entryFrame_eq (by omega)]
        omega
      rw [if_pos h0, hef, if_neg (show ¬ v / 4096 = 0x7ff by omega)]
      exact if_congr (and_congr (iff_of_true h1 (by omega)) hgr) rfl rfl
    · by_cases h2 : v / 4096 % 1024 = 1023
      · have hgr : Grants (g + 7) write := ⟨by omega, by omega, fun _ => by omega⟩
        have hef : entryFrame (g + 7) = g := by
          rw [entryFrame_eq (by omega)]
          omega
        rw [if_neg h0, if_pos h2, if_pos ⟨h1, hgr⟩, hef, if_neg (by omega), if_pos (by omega)]
      · rw [if_neg h0, if_neg h2, if_neg fun hc => absurd hc.2.1 (by decide), if_neg (by omega),
          if_neg (by omega)]
  · rw [if_neg fun hc => h1 hc.1, if_neg (by omega), if_neg (by omega)]

theorem CodeLoaded.heapPages (hc : CodeLoaded p0 k k₁ i image size codeSize entryOffset f) :
    k₁.mm.heapPages = k.mm.heapPages := by
  obtain ⟨k₀, hcopy, rfl⟩ := hc.copied
  rw [hcopy.kernel]

theorem isDir_same {s' : Mm} {d : Nat} (hk : s'.kernelPageDirectory = s.kernelPageDirectory)
    (hsp : s'.spaces = s.spaces) : IsDir s' d ↔ IsDir s d := by
  unfold IsDir
  rw [hk, hsp]

theorem CodeLoaded.record (hc : CodeLoaded p0 k k₁ i image size codeSize entryOffset f) :
    (k₁.processes i).addressSpace = (k.processes i).addressSpace ∧
      (k₁.processes i).pages = (k.processes i).pages ++ [⟨0x00400000, f⟩] ∧
      (k₁.processes i).entry = (0x00400000 + entryOffset) % 2 ^ 32 ∧
      ∀ n, n ≠ i → k₁.processes n = k.processes n := by
  obtain ⟨k₀, hcopy, rfl⟩ := hc.copied
  have hpages := hcopy.pages
  have hk := hcopy.kernel
  dsimp only
  rw [Function.update_self]
  refine ⟨?_, hpages, rfl, fun n hn => ?_⟩
  · rw [hk]
    exact withPages_space ..
  · rw [Function.update_of_ne hn, hk]
    exact withPages_of_ne hn _

/-- The code page holds the code of the image, then zeros. -/
theorem CodeLoaded.bytes (hc : CodeLoaded p0 k k₁ i image size codeSize entryOffset f)
    {path : List Byte} (hm : ModuleApart img p0 k.bootModule)
    (hfind : initramfsFind k.mm.mem k.bootModule path = .ok (some (image, size))) :
    ∃ code : Nat → Byte, (∀ j, j < codeSize → imageByte k.mm.mem image (12 + j) = .ok (code j)) ∧
      ∀ x, x < 4096 → k₁.mm.mem (f + x) = if x < codeSize then code x else 0 := by
  obtain ⟨-, hlt, hfit⟩ := emxfHeader_some hc.header
  obtain ⟨k₀, hcopy, rfl⟩ := hc.copied
  obtain ⟨p', m', t, -, hfill, -⟩ := hcopy.mapped
  have hsrc := (hfill.source _ rfl).resolve_left (by omega)
  refine ⟨fun j => k.mm.mem ((image + 12) % 2 ^ 32 - 0xC0000000 + j), fun j hj => ?_, fun x hx => ?_⟩
  · unfold imageByte
    rw [code_address hj hsrc]
    exact kernelByte_of_lt (by omega)
  · refine hcopy.bytes (fun a ha y hy => ?_) hx
    cases ha
    exact code_outside hm hfind hfit hsrc hy

/-- **A program that was loaded is its image.** -/
theorem CodeLoaded.loadsImage (h : MmInv p0 s0 k.processes bs k.mm) (hclosed : HalfClosed s0)
    (hf : FreshSpace k i) (hsp : (k.processes i).addressSpace ∈ k.mm.spaces)
    (hm : ModuleApart img p0 k.bootModule) {path : List Byte}
    (hfind : initramfsFind k.mm.mem k.bootModule path = .ok (some (image, size)))
    (hc : CodeLoaded p0 k k₁ i image size codeSize entryOffset f)
    (h₁ : MmInv p0 s0 k₁.processes bs k₁.mm) (hs : CopiedTo p0 k₁ k₂ i 0x007ff000 none 0 2 g)
    (h' : MmInv p0 s0 k'.processes bs k'.mm) (hmm : k'.mm = k₂.mm)
    (hentry : (k'.processes i).entry = (k₁.processes i).entry) : LoadsImage k i path k' := by
  obtain ⟨hspace, hpages, he, -⟩ := hc.record
  obtain ⟨-, hlt, -⟩ := emxfHeader_some hc.header
  obtain ⟨hcs, -, -⟩ := emxfHeader_some hc.header
  have hsp₁ : (k₁.processes i).addressSpace ∈ k₁.mm.spaces := by
    rw [hspace, hc.spaces]
    exact hsp
  obtain ⟨t, ht, hu⟩ := hc.userHalf h hf hsp
  rw [← hspace] at hu
  have hu₂ := hs.userHalf_stack h₁ hsp₁ ht hu
  obtain ⟨k₀, hcopy, -⟩ := hc.copied
  obtain ⟨hfa, hfl⟩ := copied_aligned hcopy
  obtain ⟨hga, hgl⟩ := copied_aligned hs
  have hprog := fun v (hv : v < 0xC0000000) write => hu₂.program ht hfa hga hfl hgl hv write
  have hd' : (k₁.processes i).addressSpace ∈ k'.mm.spaces := by
    rw [hmm, hs.spaces]
    exact hsp₁
  rw [hspace, ← hmm] at hprog
  rw [hspace] at hd'
  -- the code page survives the mapping of the stack
  obtain ⟨code, himage, hcode⟩ := hc.bytes hm hfind
  have hfm : f ∈ (k₁.processes i).frames := by
    unfold UserProcess.frames
    rw [hpages]
    simp
  have hkeep : SamePage k₁.mm.mem k₂.mm.mem f := hs.keeps h₁ (c := .page i f) (if_pos hfm)
  refine ⟨⟨image, size, codeSize, entryOffset, code, hfind, hc.header, himage, fun v hv => ?_, ?_, ?_⟩,
    fun v hv => ?_, fun v hv => ?_⟩
  · unfold programByte
    by_cases hlow : v < 0xC0000000
    · rw [hprog v hlow]
      by_cases hcodepage : v / 4096 = 0x400
      · rw [if_pos ⟨hcodepage, rfl⟩, if_pos hcodepage, Option.map_some, hmm,
          hkeep _ (by omega), hcode _ (by omega)]
      · rw [if_neg fun hc => hcodepage hc.1, if_neg hcodepage]
        by_cases hstack : v / 4096 = 0x7ff
        · rw [if_pos hstack, if_pos hstack, Option.map_some, hmm, hs.bytes nofun (by omega)]
          rfl
        · rw [if_neg hstack, if_neg hstack]
          rfl
    · rw [h'.userPhys_high hclosed hd' (by omega) hv, if_neg (by omega), if_neg (by omega)]
      rfl
  · rw [hentry, he]
    omega
  · rw [hentry, he]
    omega
  · by_cases hlow : v < 0xC0000000
    · rw [hprog v hlow, if_neg nofun]
      by_cases hstack : v / 4096 = 0x7ff
      · rw [if_pos hstack]
        exact iff_of_true rfl hstack
      · rw [if_neg hstack]
        exact iff_of_false nofun hstack
    · rw [h'.userPhys_high hclosed hd' (by omega) hv]
      exact iff_of_false nofun (by omega)
  · rw [hspace, ← hmm] at hu₂
    rw [hu₂.walk hv, programPtes]
    split_ifs
    · omega
    · omega
    · exact iff_of_false (fun hc => absurd hc.2 (by decide)) (by omega)

/-- The frames taken, when only the table behind entry 1 of the directory `d` may be new. -/
theorem MmInv.allocated_table {ps ps' : Fin 16 → UserProcess} {s' : Mm} {d : Nat}
    (h : MmInv p0 s0 ps bs s) (h' : MmInv p0 s0 ps' bs s') (hsp : s'.spaces = s.spaces)
    (hheap : s'.heapPages = s.heapPages) (hpages : ∀ n, (ps' n).pages = (ps n).pages)
    (hd : d ∈ s.spaces) (hnone : tableOf s.mem d 1 = none)
    (hdirs : ∀ d' j, IsDir s d' → j < 1024 → ¬ (d' = d ∧ j = 1) →
      dirWord s'.mem d' j = dirWord s.mem d' j) (x : Nat) :
    Allocated p0 s'.pmm x ↔ Allocated p0 s.pmm x ∨ tableOf s'.mem d 1 = some x := by
  have hk : s'.kernelPageDirectory = s.kernelPageDirectory := h'.kernel.trans h.kernel.symm
  have hdir : ∀ d', IsDir s' d' ↔ IsDir s d' := fun d' => isDir_same hk hsp
  have hown : ∀ d', ownEntries s' d' = ownEntries s d' := fun d' => by
    unfold ownEntries
    rw [hk]
  have h1 : 1 < ownEntries s d := Nat.lt_of_lt_of_le (by decide) (ownEntries_le s d).1
  have hother : ∀ r, r ≠ .table d 1 → frameOf s' (heldBy s'.heapPages ps') r =
      frameOf s (heldBy s.heapPages ps) r := fun r hr => by
    cases r with
    | dir d' => exact if_congr (hdir d') rfl rfl
    | table d' j =>
      by_cases hc : IsDir s d' ∧ j < ownEntries s d'
      · have hj : j < 1024 := Nat.lt_of_lt_of_le hc.2 (ownEntries_le s d').2
        rw [frameOf_table hc.1 hc.2, frameOf_table ((hdir d').mpr hc.1) (by rw [hown]; exact hc.2)]
        exact tableOf_congr (hdirs d' j hc.1 hj fun e => hr (by rw [e.1, e.2]))
      · refine (if_neg fun hc' => hc ⟨(hdir d').mp hc'.1, ?_⟩).trans (if_neg hc).symm
        rw [← hown]
        exact hc'.2
    | client c =>
      show heldBy s'.heapPages ps' c = heldBy s.heapPages ps c
      rw [heldBy_congr _ hpages, hheap]
  have hself : frameOf s' (heldBy s'.heapPages ps') (.table d 1) = tableOf s'.mem d 1 :=
    frameOf_table ((hdir d).mpr (.inr hd)) (by rw [hown]; exact h1)
  rw [h'.vm.own.taken, h.vm.own.taken]
  constructor
  · rintro ⟨r, hr⟩
    by_cases hrt : r = .table d 1
    · rw [hrt, hself] at hr
      exact .inr hr
    · rw [hother r hrt] at hr
      exact .inl ⟨r, hr⟩
  · rintro (⟨r, hr⟩ | hr)
    · have hrt : r ≠ .table d 1 := fun e => by
        rw [e, frameOf_table (.inr hd) h1, hnone] at hr
        cases hr
      exact ⟨r, (hother r hrt).trans hr⟩
    · exact ⟨_, hself.trans hr⟩

/-- A failed load left at most a table without pages. -/
theorem UserHalf.leavesNothing (h : MmInv p0 s0 k.processes bs k.mm) (hf : FreshSpace k i)
    (hsp : (k.processes i).addressSpace ∈ k.mm.spaces) (h' : MmInv p0 s0 k'.processes bs k'.mm)
    (hsp' : k'.mm.spaces = k.mm.spaces) (hheap : k'.mm.heapPages = k.mm.heapPages)
    (hpages : ∀ n, (k'.processes n).pages = (k.processes n).pages)
    (hdirs : ∀ d j, IsDir k.mm d → j < 1024 → ¬ (d = (k.processes i).addressSpace ∧ j = 1) →
      dirWord k'.mm.mem d j = dirWord k.mm.mem d j) {w : Nat}
    (hu : UserHalf k'.mm.mem (k.processes i).addressSpace w fun _ => 0) :
    LeavesNothing p0 k i k' := by
  have hone : ∀ j, j < 768 → tableOf k'.mm.mem (k.processes i).addressSpace j ≠ none → j = 1 := by
    intro j hj ht
    by_contra h1
    refine ht (if_neg ?_)
    rw [hu.dir j hj, if_neg h1]
    decide
  refine ⟨fun v hv => ?_, (hpages i).trans hf.pages, fun x => ?_, fun j j' hj hj' ht ht' => ?_⟩
  · rw [← Option.not_isSome_iff_eq_none, hu.walk hv]
    exact fun hc => absurd hc.2 (by decide)
  · rw [h.allocated_table h' hsp' hheap hpages hsp (if_neg ?_) hdirs]
    · refine or_congr_right ⟨fun ht => ⟨1, by decide, ht⟩, ?_⟩
      rintro ⟨j, hj, ht⟩
      rwa [hone j hj (by rw [ht]; nofun)] at ht
    · rw [hf.empty 1 (by decide)]
      decide
  · rw [hone j hj ht, hone j' hj' ht']

theorem userProcessFreePages_nil (h : (k.processes i).pages = []) :
    userProcessFreePages k i = .ok k := by
  unfold userProcessFreePages
  dsimp only
  rw [h]
  refine congrArg Except.ok ?_
  rw [← h, Function.update_eq_self]

/-- The only page of a record is unmapped and given back. -/
theorem MmInv.freeOne (h : MmInv p0 s0 k.processes bs k.mm) {x : UserPage}
    (hx : (k.processes i).pages = [x]) :
    ∃ t m', tableOf k.mm.mem (k.processes i).addressSpace (pdeIndex x.vaddr) = some t ∧
      Unmapped (heldBy k.mm.heapPages k.processes) k.mm m' t (pteIndex x.vaddr) ∧
      userProcessFreePages k i = .ok
        { k with mm := { k.mm with mem := m', pmm := pmmFreePage k.mm.pmm x.paddr },
                 processes := withPages k.processes i [] } ∧
      MmInv p0 s0 (withPages k.processes i []) bs
        { k.mm with mem := m', pmm := pmmFreePage k.mm.pmm x.paddr } := by
  obtain ⟨t, m', ht, e, hun, h'⟩ := h.unmapFree hx
  refine ⟨t, m', ht, hun, ?_, h'⟩
  unfold userProcessFreePages
  dsimp only
  rw [hx, List.foldlM_cons, e]
  rfl

/-- **`user_prepare_exec` loads the image or leaves nothing.** -/
theorem MmInv.prepareExec_cases (h : MmInv p0 s0 k.processes bs k.mm) (hclosed : HalfClosed s0)
    (hf : FreshSpace k i) (hsp : (k.processes i).addressSpace ∈ k.mm.spaces)
    (hm : ModuleApart img p0 k.bootModule) {path : List Byte} {r : Int}
    (e : userPrepareExec k i path = .ok (r, k')) :
    r = 0 ∧ LoadsImage k i path k' ∨ r = -1 ∧ LeavesNothing p0 k i k' := by
  have hempty := userHalf_empty hf.empty
  obtain ⟨⟨r₁, k₁⟩, e₁, e⟩ := bind_ok.mp e
  obtain ⟨h₁, hs₁, hp⟩ := h.prepareSteps hsp e₁
  dsimp only at e
  cases hp with
  | noCode hn =>
    rw [if_pos (by decide)] at e
    have hk := hn.2
    have hps : k₁.processes = k.processes := by rw [hk]
    have hpages : (k₁.processes i).pages = [] := by rw [hps, hf.pages]
    rw [userProcessFreePages_nil hpages] at e
    cases e
    obtain ⟨hdir, hpte⟩ := h.vm.words_same hn.1
    refine .inr ⟨rfl, UserHalf.leavesNothing h hf hsp h₁ hs₁ (by rw [hk]) (fun n => by rw [hps])
      (fun d j hd hj _ => hdir d j hd hj) (hempty.congr (fun j hj => hdir _ j (.inr hsp) hj)
        fun j hj => hpte _ 1 j (.inr hsp) (by decide) hj)⟩
  | noStack hfind hcode hmm hn =>
    rename_i k₂ image size codeSize entryOffset f
    rw [if_pos (by decide)] at e
    obtain ⟨hspace, hpages, -, hother⟩ := hcode.record
    have hk := hn.2
    have hps : k₁.processes = k₂.processes := by rw [hk]
    have hone : (k₁.processes i).pages = [⟨0x00400000, f⟩] := by rw [hps, hpages, hf.pages]; rfl
    obtain ⟨t, m', ht, hun, efree, h'⟩ := h₁.freeOne hone
    rw [efree] at e
    cases e
    obtain ⟨t₀, ht₀, hu⟩ := hcode.userHalf h hf hsp
    have hsp₂ : (k.processes i).addressSpace ∈ k₂.mm.spaces := by
      rw [hcode.spaces]
      exact hsp
    have hsp₁ : (k.processes i).addressSpace ∈ k₁.mm.spaces := by rw [hs₁]; exact hsp
    obtain ⟨hdir, hpte⟩ := hmm.vm.words_same hn.1
    have hu₁ : UserHalf k₁.mm.mem _ _ _ := hu.congr (fun j hj => hdir _ j (.inr hsp₂) hj)
      fun j hj => hpte _ 1 j (.inr hsp₂) (by decide) hj
    rw [hps, hspace, show pdeIndex 0x00400000 = 1 by decide] at ht
    have hu' := hu₁.unmapped (s := k₁.mm) (.inr hsp₁) ht hun
    rw [show Function.update (Function.update (fun _ => 0) 0 (f + 5)) (pteIndex 0x00400000) 0 =
      fun _ => 0 from (Function.update_idem ..).trans (Function.update_eq_self ..)] at hu'
    refine .inr ⟨rfl, UserHalf.leavesNothing h hf hsp h' hs₁ ?_ (fun n => ?_)
      (fun d j hd hj hne => ?_) hu'⟩
    · exact (show k₁.mm.heapPages = k₂.mm.heapPages by rw [hk]).trans hcode.heapPages
    · by_cases hni : n = i
      · subst hni
        exact (withPages_self ..).trans hf.pages.symm
      · dsimp only
        rw [withPages_of_ne hni, hps, hother n hni]
    · have hd₂ : IsDir k₂.mm d :=
        (isDir_same (hmm.kernel.trans h.kernel.symm) hcode.spaces).mpr hd
      have hd₁ : IsDir k₁.mm d := (isDir_same (h₁.kernel.trans h.kernel.symm) hs₁).mpr hd
      obtain ⟨k₀, hcopy, hk₀⟩ := hcode.copied
      have hmm₀ : k₂.mm = k₀.mm := by rw [hk₀]
      refine ((hun.dirs d j hd₁ hj).trans (hdir d j hd₂ hj)).trans ?_
      rw [hmm₀]
      exact hcopy.dirs h hd hj hne
  | done hfind hcode hmm hstack =>
    rw [if_neg (by decide)] at e
    cases e
    refine .inl ⟨rfl, hcode.loadsImage h hclosed hf hsp hm hfind hmm hstack h₁ rfl ?_⟩
    dsimp only
    rw [Function.update_self, hstack.kernel]
    simp only [withPages, Function.update_self]

end

end Emyx
