/-
  File:      Emyx/Kernel/Processes.lean
  Subject:   THE LIFE OF A PROCESS, WITH ITS MEMORY: user.c keeps the books of `Owned`.

  * `MmInv.prepareExec` -- loading a program keeps memory's invariant at each of its failure points,
    and gives every page back when it fails;
  * `Owned.execTask`, `Owned.start` -- the directory goes from the record to the task;
  * `Owned.exitCurrent`, `Owned.wait`, `Owned.spawn` -- the other calls;
  * `Owned.exec` -- **every step of the kernel keeps the invariant**.
-/
import Emyx.Kernel.Spaces

namespace Emyx

open Lib

section

variable {p0 : Pmm} {s0 s : Mm} {c c' : Ctl} {bs : List Blk} {k k' : Kernel}

/-! ## 1. Loading -/

/-- Byte `x` of a page that `map_copied_user_page` fills from `src`. -/
def copiedByte (m : Mem) (src : Option Nat) (size x : Nat) : Byte :=
  match src with
  | none => 0
  | some a => if x < size then m (a - 0xC0000000 + x) else 0

/-- The page at `f` was cleared, and `size` bytes copied to it. -/
structure Filled (m m' : Mem) (f : Nat) (src : Option Nat) (size : Nat) : Prop where
  other : ∀ y, ¬ InPage f y → m' y = m y
  source : ∀ a, src = some a → size = 0 ∨ 0xC0000000 ≤ a ∧ a + size ≤ 0xC1000000
  bytes : (∀ a, src = some a → ∀ x, x < size → ¬ InPage f (a - 0xC0000000 + x)) →
    ∀ x, x < 4096 → m' (f + x) = copiedByte m src size x

theorem filled_clear (m : Mem) (f size : Nat) : Filled m (memset m f 0 4096) f none size where
  other y hy := memset_outside (by unfold InPage at hy; omega)
  source a ha := by cases ha
  bytes _ x hx := put_inside hx

/-- `memset`, then `memcpy`. -/
theorem filled_copy {m : Mem} {f a size : Nat} (hsize : size ≤ 4096)
    (ha : size = 0 ∨ 0xC0000000 ≤ a ∧ a + size ≤ 0xC1000000) :
    Filled m (memcpy (memset m f 0 4096) f (a - 0xC0000000) size) f (some a) size where
  other y hy := by
    unfold InPage at hy
    rw [memcpy_outside (by omega), memset_outside (by omega)]
  source b hb := by cases hb; exact ha
  bytes hsrc x hx := by
    have hoff : ∀ j, j < size → a - 0xC0000000 + j < f ∨ f + 4096 ≤ a - 0xC0000000 + j :=
      fun j hj => by
        have := hsrc a rfl j hj
        unfold InPage at this
        omega
    by_cases hlt : x < size
    · rw [memcpy_inside hlt fun j hj => (hoff j hj).imp_right fun _ => by omega,
        memset_outside (hoff x hlt)]
      exact (if_pos hlt).symm
    · rw [memcpy_outside (by omega), memset, put_inside hx]
      exact (if_neg hlt).symm

/-- `map_copied_user_page` gave the record `i` the frame `f` at `v`: filled, then mapped. -/
structure CopiedTo (p0 : Pmm) (k k' : Kernel) (i : Fin 16) (v : Nat) (src : Option Nat)
    (size flags f : Nat) : Prop where
  kernel : k' = { k with mm := { k.mm with pmm := k'.mm.pmm, mem := k'.mm.mem },
                         processes := withPages k.processes i ((k.processes i).pages ++ [⟨v, f⟩]) }
  mapped : ∃ p' m' t, Fresh p0 k.mm.pmm f p' ∧ Filled k.mm.mem m' f src size ∧
    Mapped (heldBy k.mm.heapPages k'.processes) { k.mm with pmm := p', mem := m' } k'.mm.mem
      (k.processes i).addressSpace (pdeIndex v) (pteIndex v) t (1 ||| 4 ||| flags)
      (f ||| ((1 ||| 4 ||| flags) &&& 0xfff)) ∧
    pmmAllocPage k.mm.pmm = (f, p') ∧
    tableFrom { k.mm with pmm := p' } (k.processes i).addressSpace (pdeIndex v) = (t, k'.mm.pmm)

/-- It gave up, and may have left its traces in a page that is free. -/
def NotCopied (k k' : Kernel) : Prop :=
  SameTables k.mm k'.mm.mem ∧
    k' = { k with mm := { k.mm with pmm := k'.mm.pmm, mem := k'.mm.mem } }

/-- Why it gives up: the record or the page is full, the page is mapped already, or there is no
    page for it or for its table. -/
def CannotCopy (k : Kernel) (i : Fin 16) (v size : Nat) : Prop :=
  16 ≤ (k.processes i).pages.length ∨ 4096 < size ∨ NoLowPage k.mm ∨
    pteWord k.mm.mem (k.processes i).addressSpace (pdeIndex v) (pteIndex v) % 2 = 1 ∨
    tableOf k.mm.mem (k.processes i).addressSpace (pdeIndex v) = none ∧
      NoLowPage { k.mm with pmm := (pmmAllocPage k.mm.pmm).2 }

theorem NotCopied.of_pmm (k : Kernel) (p : Pmm) :
    NotCopied k { k with mm := { k.mm with pmm := p } } :=
  ⟨⟨fun _ _ => .refl _ _, fun _ _ _ _ _ _ => .refl _ _⟩, rfl⟩

theorem NotCopied.refl (k : Kernel) : NotCopied k k := .of_pmm k k.mm.pmm

/-- What the call that returned `r` did. -/
def CopyOutcome (p0 : Pmm) (k k' : Kernel) (i : Fin 16) (v : Nat) (src : Option Nat)
    (size flags : Nat) (r : Int) : Prop :=
  r = -1 ∧ NotCopied k k' ∧ CannotCopy k i v size ∨
    r = 0 ∧ ∃ f, CopiedTo p0 k k' i v src size flags f

/-- The bytes to be copied are in the direct map. -/
def SourceOk (src : Option Nat) (size : Nat) : Prop :=
  ∀ a, src = some a → size = 0 ∨ 0xC0000000 ≤ a ∧ a + size ≤ 0xC1000000

/-- `map_copied_user_page` faults on its source, or returns and keeps memory's invariant. -/
theorem MmInv.mapCopied_cases (h : MmInv p0 s0 k.processes bs k.mm) {i : Fin 16} {v : Nat}
    (size flags : Nat) (src : Option Nat) (hsp : (k.processes i).addressSpace ∈ k.mm.spaces)
    (hal : v % 4096 = 0) (huser : v < 0xC0000000) :
    (¬ SourceOk src size ∧ ∃ stop, mapCopiedUserPage k i v src size flags = .error stop) ∨
    ∃ r k', mapCopiedUserPage k i v src size flags = .ok (r, k') ∧
      MmInv p0 s0 k'.processes bs k'.mm ∧ CopyOutcome p0 k k' i v src size flags r := by
  unfold mapCopiedUserPage
  dsimp only
  by_cases hlen : (k.processes i).pages.length ≥ 16
  · exact .inr ⟨-1, k, if_pos hlen, h, .inl ⟨rfl, .refl k, .inl hlen⟩⟩
  by_cases hsize : size > 4096
  · exact .inr ⟨-1, k, (if_neg hlen).trans (if_pos hsize), h,
      .inl ⟨rfl, .refl k, .inr (.inl hsize)⟩⟩
  rw [if_neg hlen, if_neg hsize]
  rcases h.vm.allocPage_cases with ⟨h0, ha⟩ | ⟨f, p', ep, ha, hpos, hf, hfree⟩
  · rw [ha]
    exact .inr ⟨-1, k, if_pos rfl, h, .inl ⟨rfl, .refl k, .inr (.inr (.inl (.inl h0)))⟩⟩
  rw [ha]
  simp only
  rw [if_neg (by omega)]
  by_cases hlt : f < 0x1000000
  · have hfa := hf.aligned
    have hlim : f + 4096 ≤ 0x1000000 := by omega
    have hclear : DirectMap { k.mm with pmm := p' } := h.vm.direct
    have hset : DirectMap { k.mm with pmm := p', mem := memset k.mm.mem f 0 4096 } :=
      (h.vm.of_samePages (h.vm.fresh_write hf.new hfa (filled_clear _ _ 0).other)).direct
    rw [vmmPhysToVirt_of_lt hlt, if_neg (by omega), hclear.clearPage hlim, ok_bind]
    -- the page is cleared; copying to it may fault
    have hcopy : (¬ SourceOk src size ∧ ∃ stop, (match src with
          | none => .ok { k.mm with pmm := p', mem := memset k.mm.mem f 0 4096 }
          | some src => Mm.copyIn { k.mm with pmm := p', mem := memset k.mm.mem f 0 4096 }
              (0xC0000000 + f) src size) = (.error stop : Except Stop Mm)) ∨
        ∃ m', (match src with
          | none => .ok { k.mm with pmm := p', mem := memset k.mm.mem f 0 4096 }
          | some src => Mm.copyIn { k.mm with pmm := p', mem := memset k.mm.mem f 0 4096 }
              (0xC0000000 + f) src size) = (.ok { k.mm with pmm := p', mem := m' } : Except Stop Mm) ∧
          Filled k.mm.mem m' f src size := by
      cases src with
      | none => exact .inr ⟨_, rfl, filled_clear ..⟩
      | some a =>
        simp only [Mm.copyIn, hset.direct (show f < 0x1000000 by omega), ok_bind]
        by_cases hsrc : size = 0 ∨ 0xC0000000 ≤ a ∧ a + size ≤ 0xC1000000
        · exact .inr ⟨_, if_pos hsrc, filled_copy (by omega) hsrc⟩
        · exact .inl ⟨fun hok => hsrc (hok a rfl), _, if_neg hsrc⟩
    rcases hcopy with ⟨hsrc, stop, e⟩ | ⟨m', e, hfill⟩
    · exact .inl ⟨hsrc, stop, bind_error e _⟩
    have hodd : (1 ||| 4 ||| flags) % 2 = 1 := Nat.or_mod_two_eq_one.mpr (.inl rfl)
    rcases h.mapPage (x := ⟨v, f⟩) hsp hf hfill.other hal huser hodd with
      ⟨p'', em, hmm, hwhy⟩ | ⟨p'', m'', em, hmm, t, hmapped, hfrom⟩
    · have hkept := sameTables_of_roles (h.vm.fresh_write hf.new hfa hfill.other)
      have hneg : (-1 : Int) ≠ 0 := by decide
      refine .inr ⟨-1, _, bind_ok.mpr ⟨_, e, bind_ok.mpr ⟨_, em, if_pos hneg⟩⟩, hmm,
        .inl ⟨rfl, ⟨hkept, rfl⟩, .inr (.inr (.inr ?_))⟩⟩
      rw [ep]
      exact hwhy
    · exact .inr ⟨0, _, bind_ok.mpr ⟨_, e, bind_ok.mpr ⟨_, em, if_neg (not_not.mpr rfl)⟩⟩, hmm,
        .inr ⟨rfl, f, rfl, p', m', t, hf, hfill, hmapped, ep, hfrom⟩⟩
  · rw [vmmPhysToVirt_of_ge (by omega), if_pos rfl]
    refine .inr ⟨-1, _, rfl, h.of_pmm hfree,
      .inl ⟨rfl, .of_pmm k _, .inr (.inr (.inl (.inr ?_)))⟩⟩
    rw [ep]
    exact Nat.le_of_not_lt hlt

/-- **`map_copied_user_page`** keeps memory's invariant, whether it maps the page or not. -/
theorem MmInv.mapCopied (h : MmInv p0 s0 k.processes bs k.mm) {i : Fin 16} {v size flags : Nat}
    {src : Option Nat} {r : Int} (hsp : (k.processes i).addressSpace ∈ k.mm.spaces)
    (hal : v % 4096 = 0) (huser : v < 0xC0000000)
    (e : mapCopiedUserPage k i v src size flags = .ok (r, k')) :
    MmInv p0 s0 k'.processes bs k'.mm ∧ CopyOutcome p0 k k' i v src size flags r := by
  rcases h.mapCopied_cases size flags src hsp hal huser with ⟨-, stop, e'⟩ | ⟨r', k'', e', h', ho⟩
  · cases e.symm.trans e'
  · cases e.symm.trans e'
    exact ⟨h', ho⟩

/-- It maps the page when nothing stands against it. -/
theorem MmInv.mapCopied_ok (h : MmInv p0 s0 k.processes bs k.mm) {i : Fin 16} {v size : Nat}
    (flags : Nat) {src : Option Nat} (hsp : (k.processes i).addressSpace ∈ k.mm.spaces)
    (hal : v % 4096 = 0) (huser : v < 0xC0000000) (hcan : ¬ CannotCopy k i v size)
    (hsrc : SourceOk src size) :
    ∃ k' f, mapCopiedUserPage k i v src size flags = .ok (0, k') ∧
      MmInv p0 s0 k'.processes bs k'.mm ∧ CopiedTo p0 k k' i v src size flags f := by
  rcases h.mapCopied_cases size flags src hsp hal huser with ⟨hno, -⟩ | ⟨r, k', e, h', ho⟩
  · exact absurd hsrc hno
  · rcases ho with ⟨-, -, hc⟩ | ⟨rfl, f, hc⟩
    · exact absurd hc hcan
    · exact ⟨k', f, e, h', hc⟩

theorem NotCopied.spaces (h : NotCopied k k') : k'.mm.spaces = k.mm.spaces := by rw [h.2]

theorem CopiedTo.spaces {i : Fin 16} {v size flags f : Nat} {src : Option Nat}
    (h : CopiedTo p0 k k' i v src size flags f) : k'.mm.spaces = k.mm.spaces := by rw [h.kernel]

theorem Loaded.space {i : Fin 16} (h : Loaded i k k') :
    (k'.processes i).addressSpace = (k.processes i).addressSpace := by
  obtain ⟨p, hp, hk⟩ := h
  rw [hk]
  dsimp only
  rw [Function.update_self]
  exact hp.addressSpace

/-- Another entry point or stack of the record `i`. -/
theorem MmInv.setRecord {ps : Fin 16 → UserProcess} (h : MmInv p0 s0 ps bs s) {i : Fin 16}
    {p : UserProcess} (hp : p.pages = (ps i).pages)
    (ha : p.pages ≠ [] → p.addressSpace = (ps i).addressSpace) :
    MmInv p0 s0 (Function.update ps i p) bs s := by
  refine h.of_records (fun n => ?_) fun n hn => ?_
  all_goals by_cases hni : n = i
  · subst hni
    rw [Function.update_self, hp]
  · rw [Function.update_of_ne hni]
  · subst hni
    rw [Function.update_self]
    exact ha (hp ▸ hn)
  · rw [Function.update_of_ne hni]

/-- `load_emxf` gave the record `i` the frame `f` for the code of the image. -/
structure CodeLoaded (p0 : Pmm) (k k' : Kernel) (i : Fin 16)
    (image size codeSize entryOffset f : Nat) : Prop where
  header : emxfHeader k.mm.mem image size = .ok (some (codeSize, entryOffset))
  copied : ∃ k₁, CopiedTo p0 k k₁ i 0x00400000 (some ((image + 12) % 2 ^ 32)) codeSize 0 f ∧
    k' = { k₁ with processes := Function.update k₁.processes i
                     { k₁.processes i with entry := (0x00400000 + entryOffset) % 2 ^ 32 } }

theorem CodeLoaded.spaces {i : Fin 16} {image size codeSize entryOffset f : Nat}
    (h : CodeLoaded p0 k k' i image size codeSize entryOffset f) : k'.mm.spaces = k.mm.spaces := by
  obtain ⟨k₁, hc, rfl⟩ := h.copied
  exact hc.spaces

theorem MmInv.load (h : MmInv p0 s0 k.processes bs k.mm) {i : Fin 16} {image size : Nat} {r : Int}
    (hsp : (k.processes i).addressSpace ∈ k.mm.spaces)
    (e : loadEmxf k i image size = .ok (r, k')) :
    MmInv p0 s0 k'.processes bs k'.mm ∧ (r = -1 ∧ NotCopied k k' ∨
      r = 0 ∧ ∃ codeSize entryOffset f, CodeLoaded p0 k k' i image size codeSize entryOffset f) := by
  obtain ⟨hdr, hhdr, e⟩ := bind_ok.mp e
  cases hdr with
  | none =>
    cases e
    exact ⟨h, .inl ⟨rfl, .refl k⟩⟩
  | some hd =>
    obtain ⟨⟨r₁, k₁⟩, e₁, e⟩ := bind_ok.mp e
    obtain ⟨h₁, hr⟩ := h.mapCopied hsp (by decide) (by decide) e₁
    dsimp only at e
    rcases hr with ⟨rfl, hn, -⟩ | ⟨rfl, f, hc⟩
    · rw [if_pos (by decide)] at e
      cases e
      exact ⟨h₁, .inl ⟨rfl, hn⟩⟩
    · rw [if_neg (by decide)] at e
      cases e
      exact ⟨h₁.setRecord rfl fun _ => rfl, .inr ⟨rfl, hd.1, hd.2, f, hhdr, k₁, hc, rfl⟩⟩

/-- What the steps of `user_prepare_exec` did when they returned. -/
inductive Prepared (p0 : Pmm) (s0 : Mm) (bs : List Blk) (k : Kernel) (i : Fin 16)
    (path : List Byte) : Int → Kernel → Prop where
  /-- there is no code page -/
  | noCode {k' : Kernel} (hn : NotCopied k k') : Prepared p0 s0 bs k i path (-1) k'
  /-- there is a code page, and no stack -/
  | noStack {k₁ k' : Kernel} {image size codeSize entryOffset f : Nat}
      (hfind : initramfsFind k.mm.mem k.bootModule path = .ok (some (image, size)))
      (hcode : CodeLoaded p0 k k₁ i image size codeSize entryOffset f)
      (hmm : MmInv p0 s0 k₁.processes bs k₁.mm) (hn : NotCopied k₁ k') :
      Prepared p0 s0 bs k i path (-1) k'
  /-- there are both -/
  | done {k₁ k₂ : Kernel} {image size codeSize entryOffset f g : Nat}
      (hfind : initramfsFind k.mm.mem k.bootModule path = .ok (some (image, size)))
      (hcode : CodeLoaded p0 k k₁ i image size codeSize entryOffset f)
      (hmm : MmInv p0 s0 k₁.processes bs k₁.mm)
      (hstack : CopiedTo p0 k₁ k₂ i 0x007ff000 none 0 2 g) :
      Prepared p0 s0 bs k i path 0
        { k₂ with processes := Function.update k₂.processes i
                    { k₂.processes i with stack := 0x007ff000, stackSize := 4096 } }

theorem MmInv.prepareSteps (h : MmInv p0 s0 k.processes bs k.mm) {i : Fin 16} {path : List Byte}
    {r : Int} (hsp : (k.processes i).addressSpace ∈ k.mm.spaces)
    (e : prepareExecSteps k i path = .ok (r, k')) :
    MmInv p0 s0 k'.processes bs k'.mm ∧ k'.mm.spaces = k.mm.spaces ∧
      Prepared p0 s0 bs k i path r k' := by
  obtain ⟨file, hfind, e⟩ := bind_ok.mp e
  cases file with
  | none =>
    cases e
    exact ⟨h, rfl, .noCode (.refl k)⟩
  | some file =>
    obtain ⟨⟨r₁, k₁⟩, e₁, e⟩ := bind_ok.mp e
    obtain ⟨h₁, hr⟩ := h.load hsp e₁
    dsimp only at e
    rcases hr with ⟨rfl, hn⟩ | ⟨rfl, codeSize, entryOffset, f, hcode⟩
    · rw [if_pos (by decide)] at e
      cases e
      exact ⟨h₁, hn.spaces, .noCode hn⟩
    · have hs₁ := hcode.spaces
      rw [if_neg (by decide)] at e
      obtain ⟨⟨r₂, k₂⟩, e₂, e⟩ := bind_ok.mp e
      have hsp₁ : (k₁.processes i).addressSpace ∈ k₁.mm.spaces := by
        rw [(loadEmxf_ctl e₁).space, hs₁]
        exact hsp
      obtain ⟨h₂, hr₂⟩ := h₁.mapCopied hsp₁ (by decide) (by decide) e₂
      dsimp only at e
      rcases hr₂ with ⟨rfl, hn, -⟩ | ⟨rfl, g, hc⟩
      · rw [if_pos (by decide)] at e
        cases e
        exact ⟨h₂, hn.spaces.trans hs₁, .noStack hfind hcode h₁ hn⟩
      · rw [if_neg (by decide)] at e
        cases e
        exact ⟨h₂.setRecord rfl fun _ => rfl, hc.spaces.trans hs₁, .done hfind hcode h₁ hc⟩

/-- **`user_process_free_pages` returns.** -/
theorem MmInv.freeAll (h : MmInv p0 s0 k.processes bs k.mm) (i : Fin 16) :
    ∃ mm, userProcessFreePages k i =
        .ok { k with mm := mm, processes := withPages k.processes i [] } ∧
      MmInv p0 s0 (withPages k.processes i []) bs mm ∧ mm.spaces = k.mm.spaces ∧
      mm.heapPages = k.mm.heapPages ∧ SameDirs k.mm mm.mem ∧
      AgreeOn (InPages k.mm.heapPages) k.mm.mem mm.mem := by
  obtain ⟨mm, e, h'⟩ := h.freePages i
  exact ⟨mm, bind_ok.mpr ⟨mm, e, rfl⟩, h'⟩

/-- **`user_prepare_exec`** keeps memory's invariant, and leaves no page when it fails. -/
theorem MmInv.prepareExec (h : MmInv p0 s0 k.processes bs k.mm) {i : Fin 16} {path : List Byte}
    {r : Int} (hsp : (k.processes i).addressSpace ∈ k.mm.spaces)
    (e : userPrepareExec k i path = .ok (r, k')) :
    MmInv p0 s0 k'.processes bs k'.mm ∧ k'.mm.spaces = k.mm.spaces ∧
      (r ≠ 0 → (k'.processes i).pages = []) := by
  obtain ⟨⟨r₁, k₁⟩, e₁, e⟩ := bind_ok.mp e
  obtain ⟨h₁, hs₁, -⟩ := h.prepareSteps hsp e₁
  dsimp only at e
  split_ifs at e with hr
  · obtain ⟨mm, e₂, h₂, hs₂, -⟩ := h₁.freeAll i
    rw [e₂] at e
    cases e
    exact ⟨h₂, hs₂.trans hs₁, fun _ => withPages_self ..⟩
  · cases e
    exact ⟨h₁, hs₁, fun h0 => absurd rfl h0⟩

/-! ## 2. Starting -/

/-- The record `i` leaves the table, with its directory. -/
theorem Owned.dropRecord (h : Owned p0 s0 c bs s) {i : Fin 16} {s' : Mm}
    (hi : (c.processes i).state = .created)
    (hmm : MmInv p0 s0 (userProcessRelease c.processes i) bs s')
    (hsp : s'.spaces = s.spaces.erase (c.processes i).addressSpace) :
    Owned p0 s0 { c with processes := userProcessRelease c.processes i } bs s' := by
  have hk : s'.kernelPageDirectory = s.kernelPageDirectory := hmm.kernel.trans h.mm.kernel.symm
  have hself : userProcessRelease c.processes i i = UserProcess.zero := Function.update_self ..
  have hother : ∀ n, n ≠ i → userProcessRelease c.processes i n = c.processes n := fun n hn =>
    Function.update_of_ne hn ..
  have hne : ∀ n, (userProcessRelease c.processes i n).state ≠ .free → n ≠ i := by
    rintro n hn rfl
    rw [hself] at hn
    exact hn rfl
  refine ⟨hmm, h.owned, ?_, ?_⟩
  · rw [hk, hsp]
    refine h.spaces.del (spaceOf_record _ hi) (spaceOf_record_none _ ?_) (fun r hr => ?_) fun d =>
      h.mm.spaces_nodup.mem_erase_iff
    · dsimp only
      rw [hself]
      nofun
    · cases r with
      | inl t => rfl
      | inr n =>
        have hni : n ≠ i := fun e => hr (by rw [e])
        exact spaceOf_record_congr (congrArg UserProcess.state (hother n hni))
          (congrArg UserProcess.addressSpace (hother n hni))
  · rw [hk]
    exact
      { zero := h.held.zero
        pages := fun n hn => by
          have hni : n ≠ i := by
            rintro rfl
            dsimp only at hn
            rw [hself] at hn
            exact hn rfl
          dsimp only at hn ⊢
          rw [hother n hni] at hn ⊢
          exact h.held.pages n hn
        running := fun n hn => by
          have ho := hother n (hne n fun h0 => by cases hn.symm.trans h0)
          dsimp only at hn ⊢
          rw [ho] at hn ⊢
          obtain ⟨t, ht, hspace⟩ := h.held.running n hn
          exact ⟨t, ⟨ht.live, by dsimp only; rw [ho]; exact ht.id, ht.entry⟩, hspace⟩
        exited := fun n hn => by
          have ho := hother n (hne n fun h0 => by cases hn.symm.trans h0)
          dsimp only at hn ⊢
          rw [ho] at hn ⊢
          exact h.held.exited n hn
        kernel := h.held.kernel }

/-- The current task takes over the directory of its record. -/
theorem Owned.enter (h : Owned p0 s0 c bs s) (hr : c.Runs) (h0 : c.currentTask ≠ 0) {i : Fin 16}
    {p : UserProcess} {s' : Mm} (hi : (c.processes i).state = .created)
    (hhost : c.Hosts c.currentTask i)
    (hkd : (c.tasks c.currentTask).addressSpace = s.kernelPageDirectory)
    (hp : (c.processes i).SameButLoaded p)
    (hmm : MmInv p0 s0 (Function.update c.processes i { p with state := .running }) bs s')
    (hsp : s'.spaces = s.spaces) : Owned p0 s0 (c.enter i p) bs s' := by
  have hk : s'.kernelPageDirectory = s.kernelPageDirectory := hmm.kernel.trans h.mm.kernel.symm
  have hrole := spaceOf_record s.kernelPageDirectory hi
  have hdir := h.spaces.mem hrole
  have hself : (c.enter i p).tasks c.currentTask =
      { c.tasks c.currentTask with addressSpace := p.addressSpace, cont := .user } :=
    Function.update_self ..
  have hother : ∀ t, t ≠ c.currentTask → (c.enter i p).tasks t = c.tasks t := fun t ht =>
    Function.update_of_ne ht ..
  have hrec : (c.enter i p).processes i = { p with state := .running } := Function.update_self ..
  have hrecs : ∀ n, n ≠ i → (c.enter i p).processes n = c.processes n := fun n hn =>
    Function.update_of_ne hn ..
  have hspace : ((c.enter i p).tasks c.currentTask).addressSpace = (c.processes i).addressSpace := by
    rw [hself]
    exact hp.addressSpace
  have hne : (c.processes i).addressSpace ≠ s.kernelPageDirectory := h.mm.space_ne_kernel hdir
  refine ⟨hmm, h.owned.congr fun t => ?_, ?_, ?_⟩
  · by_cases ht : t = c.currentTask
    · unfold stackOf
      rw [ht, hself]
    · unfold stackOf
      rw [hother t ht]
  · rw [hk, hsp]
    have hnone : spaceOf s.kernelPageDirectory c (.inl c.currentTask) = none :=
      if_neg fun hc => hc.2 hkd
    refine h.spaces.move hrole hnone
      (spaceOf_record_none _ (by rw [hrec]; nofun)) ?_ fun q hqi hqc => ?_
    · have hused : ((c.enter i p).tasks c.currentTask).state ≠ .unused := by
        rw [hself]
        exact hr.live.used
      rw [spaceOf_task hused (by rwa [hspace]), hspace]
    · cases q with
      | inl t =>
        have ht : t ≠ c.currentTask := fun e => hqc (by rw [e])
        exact spaceOf_task_congr (by rw [hother t ht]) (by rw [hother t ht])
      | inr n =>
        have hn : n ≠ i := fun e => hqi (by rw [e])
        exact spaceOf_record_congr (by rw [hrecs n hn]) (by rw [hrecs n hn])
  · rw [hk]
    exact
      { zero := by
          rw [hother 0 (Ne.symm h0)]
          exact h.held.zero
        pages := fun n hn => by
          by_cases hni : n = i
          · rw [hni, hrec]
          · rw [hrecs n hni] at hn ⊢
            exact h.held.pages n hn
        running := fun n hn => by
          by_cases hni : n = i
          · subst hni
            refine ⟨c.currentTask, ⟨?_, ?_, ?_⟩, ?_, by rwa [hspace]⟩
            · rw [hself]
              exact hr.live
            · rw [hself, hrec]
              exact hhost.id.trans hp.taskId.symm
            · rw [hself]
              exact hhost.entry
            · rw [hspace, hrec]
              exact hp.addressSpace.symm
          · rw [hrecs n hni] at hn
            obtain ⟨t, ht, he, hk'⟩ := h.held.running n hn
            have htc : t ≠ c.currentTask := by
              rintro rfl
              exact hk' hkd
            have ho := hother t htc
            exact ⟨t, ⟨ho ▸ ht.live, by rw [ho, hrecs n hni]; exact ht.id, ho ▸ ht.entry⟩,
              by rw [ho, hrecs n hni]; exact he, ho ▸ hk'⟩
        exited := fun n hn => by
          have hni : n ≠ i := by
            rintro rfl
            rw [hrec] at hn
            cases hn
          rw [hrecs n hni] at hn ⊢
          exact h.held.exited n hn
        kernel := fun t ht hu => by
          have htc : t ≠ c.currentTask := by
            rintro rfl
            rw [hself] at hu
            exact hu (.inl rfl)
          rw [hother t htc] at ht hu ⊢
          exact h.held.kernel t ht hu }

/-- The record of the current task, which has not started yet. -/
theorem Owned.starting (h : Owned p0 s0 c bs s) (hinv : c.Inv) (hr : c.Runs)
    (hstart : c.cont = .start) {i : Fin 16} (hc : c.caller = some i) :
    (c.processes i).state = .created ∧ c.Hosts c.currentTask i ∧
      (c.processes i).addressSpace ∈ s.spaces := by
  obtain ⟨hfree, hid⟩ := Ctl.caller_some hc
  have hstart : (c.tasks c.currentTask).cont = .start := hstart
  obtain ⟨hhost, ⟨hs, -⟩ | ⟨-, hcont⟩⟩ := hinv.record hr.live hfree hid
  · exact ⟨hs, hhost, h.spaces.mem (spaceOf_record _ hs)⟩
  · rw [hstart] at hcont
    obtain hcont | ⟨pid, hcont⟩ := hcont <;> cases hcont

theorem schedSetCurrentAddressSpace_ok {a : Nat} (h0 : k.currentTask ≠ 0) (ha : a ≠ 0) :
    schedSetCurrentAddressSpace k a = (0,
      { k with tasks := Function.update k.tasks k.currentTask
                          { k.tasks k.currentTask with addressSpace := a }
               cr3 := a }) := if_neg (not_or.mpr ⟨h0, ha⟩)

/-- `user_exec_task` on memory: the program is loaded and its directory too, or both are gone. -/
theorem MmInv.execTask (h : MmInv p0 s0 k.processes bs k.mm) (h0 : k.currentTask ≠ 0) {i : Fin 16}
    (hc : k.caller = some i) (hsp : (k.processes i).addressSpace ∈ k.mm.spaces)
    (halone : ∀ n, n ≠ i → (k.processes n).pages ≠ [] →
      (k.processes n).addressSpace ≠ (k.processes i).addressSpace) {b : Bool}
    (e : userExecTask k = .ok (b, k')) :
    (b = false ∧ MmInv p0 s0 (userProcessRelease k.processes i) bs k'.mm ∧
      k'.mm.spaces = k.mm.spaces.erase (k.processes i).addressSpace) ∨
    (b = true ∧ MmInv p0 s0 k'.processes bs k'.mm ∧ k'.mm.spaces = k.mm.spaces ∧
      k'.cr3 = (k.processes i).addressSpace ∧ k'.esp0 = k.esp0) := by
  unfold userExecTask at e
  rw [Ctl.caller_eq] at e
  rw [hc] at e
  obtain ⟨⟨r₁, k₁⟩, e₁, e⟩ := bind_ok.mp e
  obtain ⟨h₁, hs₁, hnone⟩ := h.prepareExec hsp e₁
  have hload := userPrepareExec_ctl e₁
  have hspace := hload.space
  obtain ⟨p, hp, hk₁⟩ := hload
  have h0₁ : k₁.currentTask ≠ 0 := by
    rw [hk₁]
    exact h0
  obtain ⟨⟨r₂, k₂⟩, e₂, e⟩ := bind_ok.mp e
  dsimp only at e₂ e
  by_cases hr₁ : r₁ ≠ 0
  · -- not loaded: no page is left, and the directory is destroyed
    cases (if_pos hr₁).symm.trans e₂
    rw [if_pos hr₁] at e
    obtain ⟨mm, e₃, e⟩ := bind_ok.mp e
    cases e
    obtain ⟨p', -, e₄, h₄⟩ := h₁.destroy (hs₁.symm ▸ hsp) fun n hn => by
      by_cases hni : n = i
      · rw [hni, hnone hr₁] at hn
        exact absurd rfl hn
      · have hsame : k₁.processes n = k.processes n := by
          rw [hk₁]
          exact Function.update_of_ne hni ..
        rw [hsame] at hn ⊢
        exact halone n hni hn
    rw [hspace, if_pos (h.space_pos hsp), e₄] at e₃
    cases e₃
    have hmm := h₄.setRecord (p := UserProcess.zero) (hnone hr₁).symm fun hne => absurd rfl hne
    have hrel : userProcessRelease k.processes i =
        Function.update k₁.processes i UserProcess.zero := by
      rw [hk₁]
      exact (Function.update_idem ..).symm
    refine .inl ⟨rfl, ?_, congrArg (List.erase · _) hs₁⟩
    rw [hrel]
    exact hmm
  · -- loaded: the task takes the directory over
    rw [if_neg hr₁, schedSetCurrentAddressSpace_ok h0₁ (hspace ▸ h.space_pos hsp)] at e₂
    cases e₂
    cases e
    exact .inr ⟨rfl, h₁.setRecord rfl fun _ => rfl, hs₁, hspace, by rw [hk₁]⟩

/-- **`user_exec_task`** keeps the invariant: the record's directory goes to the task, or is
    destroyed with the record. -/
theorem Owned.execTask (h : Owned p0 s0 k.toCtl bs k.mm) (hinv : k.toCtl.Inv) (hr : k.toCtl.Runs)
    (hcpu : k.OnCpu) (hstart : k.toCtl.cont = .start) {b : Bool}
    (e : userExecTask k = .ok (b, k')) :
    Owned p0 s0 k'.toCtl bs k'.mm ∧ (b = true → k'.OnCpu) := by
  have hstart' : (k.tasks k.currentTask).cont = .start := hstart
  have h0 : k.currentTask ≠ 0 := fun e => by
    have hz := hinv.zero.2
    rw [← e, hstart'] at hz
    cases hz
  obtain ⟨-, rfl, rfl⟩ | ⟨i, hc, hctl⟩ := userExecTask_ctl e
  · exact ⟨h, nofun⟩
  obtain ⟨hs, hhost, hsp⟩ := h.starting hinv hr hstart hc
  have halone : ∀ n, (k.processes n).pages ≠ [] →
      (k.processes n).addressSpace ≠ (k.processes i).addressSpace := fun n hn he => by
    obtain ⟨t, -, hrole⟩ := h.host_of_pages hn
    rw [he] at hrole
    cases h.spaces.inj hrole (spaceOf_record _ hs)
  obtain ⟨rfl, hmm, hs'⟩ | ⟨rfl, hmm, hs', hcr3, hesp⟩ := h.mm.execTask h0 hc hsp
    (fun n _ => halone n) e
  · obtain ⟨-, hctl⟩ | ⟨_, -, hb, -⟩ := hctl
    · rw [hctl]
      exact ⟨h.dropRecord hs hmm hs', nofun⟩
    · cases hb
  · obtain ⟨hb, -⟩ | ⟨p, hp, -, -, -, hctl⟩ := hctl
    · cases hb
    have hkd := h.held.kernel _ hr.live (by
      rintro (hc | ⟨n, pid, hc⟩) <;> rw [hstart'] at hc <;> cases hc)
    have hself : (k.enter i p).tasks k.currentTask =
        { k.tasks k.currentTask with addressSpace := p.addressSpace, cont := .user } :=
      Function.update_self ..
    have hcur : k'.tasks k'.currentTask = (k.enter i p).tasks k.currentTask := by rw [hctl]; rfl
    rw [hctl] at hmm
    refine ⟨?_, fun _ => ⟨?_, ?_⟩⟩
    · rw [hctl]
      exact h.enter hr h0 hs hhost hkd hp hmm hs'
    · rw [hcur, hself, hcr3]
      exact hp.addressSpace.symm
    · rw [hcur, hself, hesp]
      exact hcpu.esp0

/-- **A task that starts** keeps the invariant, whether it enters user mode, runs a thread's
    function or gives up. -/
theorem Owned.start (h : Owned p0 s0 k.toCtl bs k.mm) (hinv : k.toCtl.Inv) (hr : k.toCtl.Runs)
    (hcpu : k.OnCpu) (hstart : k.toCtl.cont = .start) (e : kthreadTrampoline k = .ok k') :
    ∃ bs', Owned p0 s0 k'.toCtl bs' k'.mm ∧ k'.OnCpu := by
  have hstart' : (k.tasks k.currentTask).cont = .start := hstart
  unfold kthreadTrampoline at e
  by_cases he : (k.tasks k.currentTask).entry = some .userExecTask
  · rw [he] at e
    obtain ⟨⟨entered, k₁⟩, e₁, e₂⟩ := bind_ok.mp e
    obtain ⟨h₁, hcpu₁⟩ := h.execTask hinv hr hcpu hstart e₁
    cases entered with
    | true =>
      cases e₂
      exact ⟨bs, h₁, hcpu₁ rfl⟩
    | false =>
      -- no record that was created or runs is left to the task
      obtain ⟨hc, -, rfl⟩ | ⟨i, hc, ⟨-, hctl⟩ | ⟨_, -, hb, -⟩⟩ := userExecTask_ctl e₁
      · exact h₁.exit hr (fun n hn => Ctl.caller_none hc n (by rw [hn]; nofun)) e₂
      · refine h₁.exit (by rw [hctl]; exact hr.records _) (fun n hn => ?_) e₂
        rw [hctl] at hn ⊢
        have hni : n ≠ i := by
          rintro rfl
          dsimp only at hn
          rw [userProcessRelease, Function.update_self] at hn
          cases hn
        dsimp only at hn ⊢
        rw [userProcessRelease, Function.update_of_ne hni] at hn ⊢
        obtain ⟨hi, hid⟩ := Ctl.caller_some hc
        exact fun hid' => hni (hinv.recordIds n i (by rw [hn]; nofun) hi (hid'.trans hid.symm))
      · cases hb
  · have hcont : Owned p0 s0 (k.setCont .kernel) bs k.mm := h.setCont fun hu => by
      obtain hu | ⟨i, pid, hu⟩ := hu <;> rw [hstart'] at hu <;> cases hu
    have hself : (k.setCont .kernel).tasks k.currentTask =
        { k.tasks k.currentTask with cont := .kernel } := Function.update_self ..
    have hk : k' = { k with toCtl := k.setCont .kernel } := by
      cases hentry : (k.tasks k.currentTask).entry with
      | none =>
        rw [hentry] at e
        cases e
        rfl
      | some en =>
        rw [hentry] at e
        cases en with
        | userExecTask => exact absurd hentry he
        | thread =>
          cases e
          rfl
    subst hk
    exact ⟨bs, hcont, hcpu.same rfl (by rw [hself]) (by rw [hself]) rfl rfl⟩

/-! ## 3. Exiting and waiting -/

/-- A record that the end of another process may touch. -/
theorem UserProcess.Orphaned.hold {p p' : UserProcess} (h : p.Orphaned p') :
    p.SameHold p' ∨ p.state = .exited ∧ p' = UserProcess.zero := by
  obtain rfl | ⟨hs, he⟩ | ⟨-, rfl⟩ := h
  · exact .inl (.refl _)
  · exact .inr ⟨hs, he⟩
  · exact .inl ⟨rfl, fun _ => rfl, rfl, rfl⟩

theorem Ctl.exitRecords_other (c : Ctl) {i n : Fin 16} (status : Nat) (hn : n ≠ i) :
    (c.processes n).Orphaned (c.exitRecords i status n) := by
  have horphan := userProcessOrphanChildren_each
    (Function.update c.processes i ((c.processes i).exit status)) i n
  rw [Function.update_of_ne hn] at horphan
  obtain ⟨-, he⟩ | ⟨j, -, he⟩ := c.exitRecords_cases i status <;> rw [he]
  · rw [userProcessRelease, Function.update_of_ne hn]
    exact horphan
  · exact horphan

/-- The record of the process that ended is kept for its parent, or gone. -/
theorem Ctl.exitRecords_self (c : Ctl) (i : Fin 16) (status : Nat) :
    c.exitRecords i status i = UserProcess.zero ∨
      ((c.exitRecords i status i).state = .exited ∧ (c.exitRecords i status i).addressSpace = 0 ∧
        (c.exitRecords i status i).pages = []) := by
  have horphan := userProcessOrphanChildren_each
    (Function.update c.processes i ((c.processes i).exit status)) i i
  rw [Function.update_self] at horphan
  obtain ⟨-, he⟩ | ⟨j, -, he⟩ := c.exitRecords_cases i status <;> rw [he]
  · exact .inl (Function.update_self ..)
  · obtain he' | ⟨-, he'⟩ | ⟨-, he'⟩ := horphan
    · exact .inr (by rw [Ctl.exitTable, he']; exact ⟨rfl, rfl, rfl⟩)
    · exact .inl he'
    · exact .inr (by rw [Ctl.exitTable, he']; exact ⟨rfl, rfl, rfl⟩)

/-- A record that still has pages is that of another process, with the pages it had. -/
theorem Ctl.exitRecords_pages (c : Ctl) {i n : Fin 16} {status : Nat}
    (h : (c.exitRecords i status n).pages ≠ []) :
    n ≠ i ∧ (c.processes n).SameHold (c.exitRecords i status n) := by
  by_cases hni : n = i
  · subst hni
    obtain h0 | ⟨-, -, hp⟩ := c.exitRecords_self n status
    · rw [h0] at h
      exact absurd rfl h
    · exact absurd hp h
  · obtain hsame | ⟨-, h0⟩ := (c.exitRecords_other status hni).hold
    · exact ⟨hni, hsame⟩
    · rw [h0] at h
      exact absurd rfl h

/-- **`user_exit_current` returns**, and the pages of the process are gone. -/
theorem MmInv.exitCurrent (h : MmInv p0 s0 k.processes bs k.mm) {i : Fin 16}
    (hc : k.caller = some i)
    (hx : ∀ n, (k.processes n).state = .exited → (k.processes n).pages = []) (status : Nat) :
    ∃ mm, userExitCurrent k status = .ok { k with mm := mm, processes := k.exitRecords i status } ∧
      MmInv p0 s0 (k.exitRecords i status) bs mm ∧ mm.spaces = k.mm.spaces ∧
      mm.heapPages = k.mm.heapPages ∧ SameDirs k.mm mm.mem ∧
      AgreeOn (InPages k.mm.heapPages) k.mm.mem mm.mem := by
  -- the pages are freed, in a table in which only the record's state and status changed
  have h₁ := h.setRecord (i := i)
    (p := { k.processes i with exitStatus := status, state := .exited }) rfl fun _ => rfl
  obtain ⟨mm, e, h₂, hsame⟩ := MmInv.freeAll
    (k := { k with processes := Function.update k.processes i _ }) h₁ i
  refine ⟨mm, ?_, ?_, hsame⟩
  · obtain ⟨k', hexit, rfl⟩ : ∃ k', userExitCurrent k status = .ok k' ∧ k'.mm = mm := by
      unfold userExitCurrent
      rw [Ctl.caller_eq, hc]
      exact ⟨_, bind_ok.mpr ⟨_, e, rfl⟩, rfl⟩
    obtain ⟨hn, -⟩ | ⟨j, hj, hk⟩ := userExitCurrent_ctl hexit
    · cases hc.symm.trans hn
    · cases hc.symm.trans hj
      rw [hexit, ← hk]
  · refine h₂.of_records (fun n => ?_) fun n hn => ?_
    all_goals by_cases hni : n = i
    · subst hni
      rw [withPages_self]
      obtain h0 | ⟨-, -, hp⟩ := k.exitRecords_self n status
      · rw [h0]
        rfl
      · exact hp
    · rw [withPages_of_ne hni]
      dsimp only
      rw [Function.update_of_ne hni]
      obtain hsame | ⟨hs, h0⟩ := (k.exitRecords_other status hni).hold
      · exact hsame.pages
      · rw [h0, hx n hs]
        rfl
    · subst hni
      rw [withPages_self] at hn
      exact absurd rfl hn
    · rw [withPages_of_ne hni] at hn ⊢
      dsimp only at hn ⊢
      rw [Function.update_of_ne hni] at hn ⊢
      obtain hsame | ⟨hs, -⟩ := (k.exitRecords_other status hni).hold
      · exact hsame.addressSpace
      · exact absurd (hx n hs) hn

/-- **`user_exit_current`** keeps the invariant: the pages are gone, the directory stays with the
    task. -/
theorem Owned.exitCurrent (h : Owned p0 s0 k.toCtl bs k.mm) (hinv : k.toCtl.Inv)
    (hr : k.toCtl.Runs) (hu : k.toCtl.cont = .user) {status : Nat}
    (e : userExitCurrent k status = .ok k') :
    Owned p0 s0 k'.toCtl bs k'.mm ∧ k'.tasks = k.tasks ∧ k'.currentTask = k.currentTask ∧
      ∀ n, (k'.processes n).state = .running →
        (k'.processes n).taskId ≠ (k.tasks k.currentTask).id := by
  obtain ⟨i, hc, hs, -⟩ := hinv.caller_user hr (.inl hu)
  obtain ⟨hfree, hid⟩ := Ctl.caller_some hc
  have hx : ∀ n, (k.processes n).state = .exited → (k.processes n).pages = [] := fun n hn => by
    by_contra hne
    cases hn.symm.trans (h.held.pages n hne)
  obtain ⟨mm, e₁, hmm, hsp, -⟩ := h.mm.exitCurrent hc hx status
  cases e₁.symm.trans e
  have hother : ∀ n, n ≠ i → (k.processes n).SameHold (k.exitRecords i status n) ∨
      (k.processes n).state = .exited ∧ k.exitRecords i status n = UserProcess.zero := fun n hn =>
    (k.exitRecords_other status hn).hold
  refine ⟨h.of_records rfl hmm hsp fun n => ?_, rfl, rfl, fun n hn => ?_⟩
  · by_cases hni : n = i
    · subst hni
      exact .inr ⟨by rw [hs]; nofun, k.exitRecords_self n status⟩
    · exact (hother n hni).imp_right fun hx => ⟨by rw [hx.1]; nofun, .inl hx.2⟩
  · dsimp only at hn ⊢
    have hni : n ≠ i := by
      rintro rfl
      obtain h0 | ⟨hx, -⟩ := k.exitRecords_self n status
      · rw [h0] at hn
        cases hn
      · cases hx.symm.trans hn
    obtain hsame | ⟨-, h0⟩ := hother n hni
    · rw [hsame.state] at hn
      rw [hsame.taskId hn]
      exact fun hid' => hni (hinv.recordIds n i (by rw [hn]; nofun) hfree (hid'.trans hid.symm))
    · rw [h0] at hn
      cases hn

/-- **The system call `exit`** keeps the invariant. -/
theorem Owned.sysExit (h : Owned p0 s0 k.toCtl bs k.mm) (hinv : k.toCtl.Inv) (hr : k.toCtl.Runs)
    (hu : k.toCtl.cont = .user) {status : Nat} (e : sysExit k status = .ok k') :
    ∃ bs', Owned p0 s0 k'.toCtl bs' k'.mm ∧ k'.OnCpu := by
  obtain ⟨k₁, e₁, e⟩ := bind_ok.mp e
  obtain ⟨h₁, htasks, hcur, hno⟩ := h.exitCurrent hinv hr hu e₁
  have hk₁ : ∀ out, Owned p0 s0 ({ k₁ with console := out } : Kernel).toCtl bs
      ({ k₁ with console := out } : Kernel).mm := fun _ => h₁
  refine (hk₁ _).exit ?_ (fun n hn => ?_) e
  · unfold Ctl.Runs at hr ⊢
    dsimp only
    rw [htasks, hcur]
    exact hr
  · dsimp only at hn ⊢
    rw [htasks, hcur]
    exact hno n hn

/-- **The loop of `user_wait`** keeps the invariant. -/
theorem Owned.waitLoop (h : Owned p0 s0 k.toCtl bs k.mm) (hcpu : k.OnCpu) {i : Fin 16} {pid : Nat}
    {r : Option Int} (e : waitLoop k i pid = .ok (r, k')) :
    ∃ bs', Owned p0 s0 k'.toCtl bs' k'.mm ∧ k'.OnCpu := by
  have hself : ∀ cont, (k.setCont cont).tasks k.currentTask =
      { k.tasks k.currentTask with cont := cont } := fun cont => Function.update_self ..
  unfold Emyx.waitLoop at e
  cases ht : waitTurn k.processes i pid with
  | some out =>
    rw [ht] at e
    cases e
    have hcont := @Owned.setCont _ _ _ _ _ h .user fun _ => .inl rfl
    refine ⟨bs, ?_, hcpu.same rfl (by rw [hself]) (by rw [hself]) rfl rfl⟩
    obtain ⟨-, hps⟩ | ⟨j, -, -, hx, -, hps⟩ := waitTurn_some ht
    · rw [hps]
      exact hcont
    · rw [hps]
      have hnone : (k.processes j).pages = [] := by
        by_contra hne
        cases hx.symm.trans (h.held.pages j hne)
      refine hcont.of_records rfl (h.mm.setRecord hnone.symm fun hne => absurd rfl hne) rfl fun n => ?_
      by_cases hn : n = j
      · subst hn
        refine .inr ⟨?_, .inl (Function.update_self ..)⟩
        rw [show ((k.setCont .user).processes n).state = .exited from hx]
        nofun
      · refine .inl ?_
        dsimp only
        rw [userProcessRelease, Function.update_of_ne hn]
        exact .refl _
  | none =>
    rw [ht] at e
    obtain ⟨⟨b, k₁⟩, e₁, e⟩ := bind_ok.mp e
    have hcont := @Owned.setCont _ _ _ _ _ h (.waiting i pid) fun _ => .inr ⟨i, pid, rfl⟩
    obtain ⟨bs', h', hcpu'⟩ := Owned.yield (k := { k with toCtl := k.setCont (.waiting i pid) })
      hcont e₁
    cases b with
    | false => cases e
    | true =>
      cases e
      exact ⟨bs', h', hcpu' (.inl rfl)⟩

/-! ## 4. Spawning -/

/-- A new record in a free slot, with a new directory. -/
theorem Owned.addRecord (h : Owned p0 s0 c bs s) {i : Fin 16} {p : UserProcess} {s' : Mm}
    (hi : (c.processes i).state = .free) (hs : p.state = .created) (hp : p.pages = [])
    (htasks : c'.tasks = c.tasks) (hps : c'.processes = Function.update c.processes i p)
    (hmm : MmInv p0 s0 c'.processes bs s') (hnew : p.addressSpace ∉ s.spaces)
    (hsp : s'.spaces = p.addressSpace :: s.spaces) : Owned p0 s0 c' bs s' := by
  have hk : s'.kernelPageDirectory = s.kernelPageDirectory := hmm.kernel.trans h.mm.kernel.symm
  have hself : c'.processes i = p := by rw [hps, Function.update_self]
  have hother : ∀ n, n ≠ i → c'.processes n = c.processes n := fun n hn => by
    rw [hps, Function.update_of_ne hn]
  have hne : ∀ n, (c'.processes n).state ≠ .created → n ≠ i := by
    rintro n hn rfl
    exact hn (by rw [hself, hs])
  refine ⟨hmm, by rw [htasks]; exact h.owned, ?_, ?_⟩
  · rw [hk, hsp]
    refine h.spaces.add (r := .inr i) (f := p.addressSpace) (spaceOf_record_none _ (by rw [hi]; nofun))
      hnew ?_ (fun r hr => ?_) fun d => List.mem_cons
    · rw [spaceOf_record _ (by rw [hself, hs]), hself]
    · cases r with
      | inl t => exact spaceOf_task_congr (by rw [htasks]) (by rw [htasks])
      | inr n =>
        have hni : n ≠ i := fun e => hr (by rw [e])
        exact spaceOf_record_congr (by rw [hother n hni]) (by rw [hother n hni])
  · rw [hk]
    exact
      { zero := htasks ▸ h.held.zero
        pages := fun n hn => by
          have hni : n ≠ i := by
            rintro rfl
            exact hn (by rw [hself, hp])
          rw [hother n hni] at hn ⊢
          exact h.held.pages n hn
        running := fun n hn => by
          have ho := hother n (hne n (by rw [hn]; nofun))
          rw [ho] at hn
          obtain ⟨t, ht, he, hk'⟩ := h.held.running n hn
          exact ⟨t, ⟨htasks ▸ ht.live, by rw [htasks, ho]; exact ht.id, htasks ▸ ht.entry⟩,
            by rw [htasks, ho]; exact he, by rwa [htasks]⟩
        exited := fun n hn => by
          have ho := hother n (hne n (by rw [hn]; nofun))
          rw [ho] at hn ⊢
          exact h.held.exited n hn
        kernel := htasks ▸ h.held.kernel }

/-- `user_spawn` gives up on a record that has its directory already. -/
theorem Owned.abandon (h : Owned p0 s0 c bs s) {i : Fin 16} (hi : (c.processes i).state = .created) :
    ∃ s', vmmDestroyAddressSpace s (c.processes i).addressSpace = .ok s' ∧
      Owned p0 s0 { c with processes := userProcessRelease c.processes i } bs s' := by
  have hrole := spaceOf_record s.kernelPageDirectory hi
  obtain ⟨p', -, e, hmm⟩ := h.mm.destroy (h.spaces.mem hrole) fun n hn he => by
    obtain ⟨t, -, hrole'⟩ := h.host_of_pages hn
    rw [he] at hrole'
    cases h.spaces.inj hrole hrole'
  have hnone : (c.processes i).pages = [] := by
    by_contra hne
    cases hi.symm.trans (h.held.pages i hne)
  exact ⟨_, e, h.dropRecord hi (hmm.setRecord hnone.symm fun hne => absurd rfl hne) rfl⟩

/-- **The end of `user_spawn`** keeps the invariant, for a record `i` that is being filled. -/
theorem Owned.spawnInto (h : Owned p0 s0 c bs k.mm) {i : Fin 16}
    (hi : c.processes i = UserProcess.zero) (hs : (k.processes i).state = .created)
    (hp : (k.processes i).pages = []) (htasks : k.tasks = c.tasks)
    (hps : k.processes = Function.update c.processes i (k.processes i)) {r : Int}
    (e : spawnInto k i = .ok (r, k')) : ∃ bs', Owned p0 s0 k'.toCtl bs' k'.mm := by
  have hzero : userProcessRelease k.processes i = c.processes := by
    rw [hps, userProcessRelease, Function.update_idem, ← hi, Function.update_eq_self]
  have hmm₀ : MmInv p0 s0 k.processes bs k.mm := by
    rw [hps]
    exact h.mm.setRecord (by rw [hp, hi]; rfl) fun hne => absurd hp hne
  obtain ⟨⟨d, mm⟩, e₁, e⟩ := bind_ok.mp e
  dsimp only at e
  rcases hmm₀.create with ⟨ec, hmm, -⟩ | ⟨f, p', m', -, ec, hf0, hfd, hmm, -⟩
  · cases ec.symm.trans e₁
    cases (if_pos rfl).symm.trans e
    have hmm' := hmm.setRecord (i := i) (p := UserProcess.zero) (by rw [hp]; rfl)
      fun hne => absurd rfl hne
    refine ⟨bs, h.of_records (by exact htasks) hmm' rfl fun n => .inl ?_⟩
    dsimp only
    rw [hzero]
    exact .refl _
  · cases ec.symm.trans e₁
    rw [if_neg hf0] at e
    obtain ⟨⟨id, k₁⟩, e₂, e⟩ := bind_ok.mp e
    dsimp only at e₂ e
    -- the record answers for the directory while the task is made
    generalize hq : ({ k.processes i with addressSpace := d } : UserProcess) = q at e₂
    have hqs : q.state = .created := by rw [← hq]; exact hs
    have hqp : q.pages = [] := by rw [← hq]; exact hp
    have hqa : q.addressSpace = d := by rw [← hq]
    have hrec := hmm.setRecord (i := i) (p := q) (hqp.trans hp.symm) fun hne => absurd hqp hne
    have h₁ : Owned p0 s0 { k.toCtl with processes := Function.update k.processes i q } bs
        { k.mm with pmm := p', mem := m', spaces := d :: k.mm.spaces } := by
      refine h.addRecord (p := q) (by rw [hi]; rfl) hqs hqp htasks ?_ hrec
        (fun hc => hfd (.inr (hqa ▸ hc))) (by rw [hqa])
      dsimp only
      rw [hps, Function.update_idem]
    have hself : Function.update k.processes i q i = q := Function.update_self ..
    have hst : (Function.update k.processes i q i).state = .created := by rw [hself, hqs]
    have had : (Function.update k.processes i q i).addressSpace = d := by rw [hself, hqa]
    obtain ⟨mm₂, bs₂, hcase⟩ := Owned.create
      (k := { k with mm := _, processes := Function.update k.processes i q }) h₁ .userExecTask
    rcases hcase with ⟨ecr, h₂⟩ | ⟨j, t, -, ecr, h₂⟩
    · cases ecr.symm.trans e₂
      obtain ⟨s', ed, h₃⟩ := h₂.abandon hst
      rw [if_pos (by decide)] at e
      obtain ⟨mm₃, ed', e⟩ := bind_ok.mp e
      rw [show vmmDestroyAddressSpace mm₂ d = .ok s' from had ▸ ed] at ed'
      cases ed'
      cases e
      exact ⟨bs₂, h₃⟩
    · cases ecr.symm.trans e₂
      by_cases hneg : toInt32 k.nextTaskId < 0
      · obtain ⟨s', ed, h₃⟩ := h₂.abandon hst
        rw [if_pos hneg] at e
        obtain ⟨mm₃, ed', e⟩ := bind_ok.mp e
        rw [show vmmDestroyAddressSpace mm₂ d = .ok s' from had ▸ ed] at ed'
        cases ed'
        cases e
        exact ⟨bs₂, h₃⟩
      · rw [if_neg hneg] at e
        cases e
        refine ⟨bs₂, h₂.of_records rfl (h₂.mm.setRecord rfl fun _ => rfl) rfl fun n => .inl ?_⟩
        dsimp only
        by_cases hn : n = i
        · subst hn
          rw [Function.update_self]
          exact ⟨rfl, fun hrun => absurd (hst.symm.trans hrun) (by decide), rfl, rfl⟩
        · rw [Function.update_of_ne hn]
          exact .refl _

/-- **`user_spawn`** keeps the invariant, whether it succeeds or not. -/
theorem Owned.spawn (h : Owned p0 s0 k.toCtl bs k.mm) (hinv : k.toCtl.Inv)
    {path : Option (List Byte)} {r : Int} (e : userSpawn k path = .ok (r, k')) :
    ∃ bs', Owned p0 s0 k'.toCtl bs' k'.mm := by
  unfold userSpawn at e
  cases path with
  | none =>
    cases e
    exact ⟨bs, h⟩
  | some path =>
    dsimp only at e
    split_ifs at e with hlen
    · cases e
      exact ⟨bs, h⟩
    obtain ⟨file, -, e⟩ := bind_ok.mp e
    cases file with
    | none =>
      cases e
      exact ⟨bs, h⟩
    | some f =>
      dsimp only at e
      cases hi : userProcessAlloc k.processes with
      | none =>
        rw [hi] at e
        cases e
        exact ⟨bs, h⟩
      | some i =>
        rw [hi] at e
        have hzero := hinv.free i (userProcessAlloc_some hi)
        dsimp only at e
        generalize hq : ({ UserProcess.fresh with
          pid := k.nextPid, parentPid := _, path := path } : UserProcess) = q at e
        have h₀ : Owned p0 s0 k.toCtl bs ({ k with
          processes := Function.update k.processes i q
          nextPid := (k.nextPid + 1) % 2 ^ 32 } : Kernel).mm := h
        have hself : Function.update k.processes i q i = q := Function.update_self ..
        have hstate : q.state = .created := by rw [← hq]; rfl
        have hpages : q.pages = [] := by rw [← hq]; rfl
        exact h₀.spawnInto hzero ((congrArg UserProcess.state hself).trans hstate)
          ((congrArg UserProcess.pages hself).trans hpages) rfl
          (congrArg (Function.update k.processes i) hself.symm) e

/-! ## 5. Every step -/

/-- User code runs on an address space in use. -/
theorem Owned.user_space (h : Owned p0 s0 k.toCtl bs k.mm) (hinv : k.toCtl.Inv)
    (hr : k.toCtl.Runs) (hcpu : k.OnCpu) (hu : k.toCtl.cont = .user) : k.cr3 ∈ k.mm.spaces := by
  obtain ⟨i, -, hs, hhost, -⟩ := hinv.caller_user hr (.inl hu)
  obtain ⟨t, ht, -, hk⟩ := h.held.running i hs
  obtain rfl := hinv.host_eq ht hr.live hhost.id
  rw [hcpu.cr3]
  exact (h.isDir hr.live.used).resolve_left hk

/-- A step that creates a task leaves the current one as it is. -/
theorem CtlStep.current_kept (hr : c.Runs) {op : Op} {r : Option Int} (hs : CtlStep c op r c')
    (hop : op.creates = true) :
    c'.currentTask = c.currentTask ∧ c'.tasks c.currentTask = c.tasks c.currentTask := by
  have hadd : ∀ {e : Entry} {j : Fin 16} {t : Task}, NewTask c e j t →
      Function.update c.reap.tasks j t c.currentTask = c.tasks c.currentTask := by
    intro e j t ht
    have hj : c.currentTask ≠ j := by
      rintro rfl
      have := ht.unused
      rw [Ctl.reap_current] at this
      cases hr.symm.trans this
    rw [Function.update_of_ne hj, Ctl.reap_current]
  cases hs with
  | spawnRefused path => exact ⟨rfl, rfl⟩
  | spawnNoDirectory path i hi => exact ⟨rfl, rfl⟩
  | spawnNoTask path i hi => exact ⟨rfl, Ctl.reap_current⟩
  | spawnBadId path i j t hi ht hid => exact ⟨rfl, hadd ht⟩
  | spawn path i j t d hi ht hid => exact ⟨rfl, hadd ht⟩
  | createFails => exact ⟨rfl, Ctl.reap_current⟩
  | create j t ht => exact ⟨rfl, hadd ht⟩
  | waitReturns op i pid r ps hw hturn => cases op <;> cases hop <;> cases hw
  | waitYields op i pid c' hw hturn hy => cases op <;> cases hop <;> cases hw
  | _ => cases hop

theorem spawnInto_cpu {i : Fin 16} {r : Int} (e : spawnInto k i = .ok (r, k')) :
    k'.cr3 = k.cr3 ∧ k'.esp0 = k.esp0 := by
  obtain ⟨⟨d, mm⟩, -, e⟩ := bind_ok.mp e
  dsimp only at e
  split_ifs at e with hd
  · cases e
    exact ⟨rfl, rfl⟩
  obtain ⟨⟨id, k₁⟩, e₁, e⟩ := bind_ok.mp e
  have hk₁ : k₁.cr3 = k.cr3 ∧ k₁.esp0 = k.esp0 := by
    obtain ⟨-, hk⟩ | ⟨j, t, -, -, -, -, -, -, hk⟩ := kthreadCreate_ctl e₁ <;>
    · rw [hk]
      exact ⟨rfl, rfl⟩
  dsimp only at e
  split_ifs at e with hneg
  · obtain ⟨mm', -, e⟩ := bind_ok.mp e
    cases e
    exact hk₁
  · cases e
    exact hk₁

theorem userSpawn_cpu {path : Option (List Byte)} {r : Int} (e : userSpawn k path = .ok (r, k')) :
    k'.cr3 = k.cr3 ∧ k'.esp0 = k.esp0 := by
  unfold userSpawn at e
  cases path with
  | none =>
    cases e
    exact ⟨rfl, rfl⟩
  | some path =>
    dsimp only at e
    split_ifs at e with hlen
    · cases e
      exact ⟨rfl, rfl⟩
    obtain ⟨file, -, e⟩ := bind_ok.mp e
    cases file with
    | none =>
      cases e
      exact ⟨rfl, rfl⟩
    | some f =>
      dsimp only at e
      cases hi : userProcessAlloc k.processes with
      | none =>
        rw [hi] at e
        cases e
        exact ⟨rfl, rfl⟩
      | some i =>
        rw [hi] at e
        dsimp only at e
        obtain ⟨hcr3, hesp⟩ := spawnInto_cpu e
        exact ⟨hcr3, hesp⟩

/-- **Every step of the kernel keeps the invariant**, and leaves the processor on the task that
    runs. -/
theorem Owned.exec (h : Owned p0 s0 k.toCtl bs k.mm) (hc : HalfClosed s0) (hinv : k.toCtl.Inv)
    (hr : k.toCtl.Runs) (hcpu : k.OnCpu) {op : Op} {r : Option Int} (hop : op.Legal k.toCtl)
    (e : k.exec op = .ok (r, k')) : ∃ bs', Owned p0 s0 k'.toCtl bs' k'.mm ∧ k'.OnCpu := by
  have hctl := exec_ctl hop e
  cases op with
  | spawn path =>
    obtain ⟨⟨r', k₁⟩, e₁, e⟩ := bind_ok.mp e
    cases e
    obtain ⟨bs', h'⟩ := h.spawn hinv e₁
    obtain ⟨hcur, htask⟩ := hctl.current_kept hr rfl
    obtain ⟨hcr3, hesp⟩ := userSpawn_cpu e₁
    exact ⟨bs', h', hcpu.same hcur (by rw [htask]) (by rw [htask]) hcr3 hesp⟩
  | create =>
    obtain ⟨⟨r', k₁⟩, e₁, e⟩ := bind_ok.mp e
    cases e
    obtain ⟨hcur, htask⟩ := hctl.current_kept hr rfl
    obtain ⟨mm, bs', ⟨e₂, h'⟩ | ⟨j, t, -, e₂, h'⟩⟩ := h.create .thread
    · cases e₂.symm.trans e₁
      exact ⟨bs', h', hcpu.same hcur (by rw [htask]) (by rw [htask]) rfl rfl⟩
    · cases e₂.symm.trans e₁
      exact ⟨bs', h', hcpu.same hcur (by rw [htask]) (by rw [htask]) rfl rfl⟩
  | yield =>
    obtain ⟨⟨b, k₁⟩, e₁, e⟩ := bind_ok.mp e
    cases e
    obtain ⟨bs', h', hcpu'⟩ := h.yield e₁
    exact ⟨bs', h', hcpu' (.inr hcpu)⟩
  | start =>
    obtain ⟨k₁, e₁, e⟩ := bind_ok.mp e
    cases e
    exact h.start hinv hr hcpu hop e₁
  | wait pid =>
    obtain ⟨i, hcaller, -⟩ := hinv.caller_user hr (.inl hop.1)
    have e : userWait k pid = .ok (r, k') := e
    unfold userWait at e
    rw [Ctl.caller_eq, hcaller] at e
    exact h.waitLoop hcpu e
  | resume =>
    obtain ⟨i, pid, hcont⟩ := hop
    unfold Kernel.exec at e
    dsimp only at e
    rw [hcont] at e
    exact h.waitLoop hcpu e
  | exit status =>
    obtain ⟨k₁, e₁, e⟩ := bind_ok.mp e
    cases e
    exact h.sysExit hinv hr hop.1 e₁
  | threadExit =>
    obtain ⟨k₁, e₁, e⟩ := bind_ok.mp e
    cases e
    have hkernel : (k.tasks k.currentTask).cont = .kernel := hop
    refine h.exit hr (fun n hn hid => ?_) e₁
    obtain ⟨-, ⟨-, hcont⟩ | ⟨-, hcont | ⟨pid, hcont⟩⟩⟩ :=
      hinv.record hr.live (by rw [hn]; nofun) hid <;> cases hkernel.symm.trans hcont
  | store v b =>
    have hsp := h.user_space hinv hr hcpu hop.1
    unfold Kernel.exec at e
    cases ha : userPhys k.mm.mem k.cr3 v true with
    | none =>
      simp only [ha] at e
      cases e
    | some a =>
      simp only [ha] at e
      cases e
      exact ⟨bs, ⟨h.mm.userStore hc hsp hop.2 ha, h.owned, h.spaces, h.held⟩,
        hcpu.same rfl rfl rfl rfl rfl⟩

end

end Emyx
