/-
  File:      Emyx/Kernel/Programs.lean
  Subject:   A PROCESS RUNS ITS PROGRAM, AND NOTHING ELSE, FOR AS LONG AS IT RUNS.

  `LoadsImage` says what `user_prepare_exec` leaves in an address space. Here it is followed through
  every run: whatever system calls and stores the processes make, the code page of each of them
  holds the bytes of its image in the initramfs, user code can write to the stack page only, and no
  other page of the user half is mapped.

  * `Image`, `RunsImage` -- the program under a path, and a process that runs it;
  * `Program`, `Programs` -- the invariant: the two pages, the words of the table, the code;
    `FreshSpace` holds of every process that has not started;
  * **`runs_image`** -- so it is in every run.
-/
import Emyx.Kernel.Events
import Emyx.Kernel.Stale
import Emyx.Kernel.Untouched

namespace Emyx

open Lib

/-! ## 1. The program of a process -/

/-- The program under `path` in the initramfs: its code, and where it starts. -/
def Image (m : Mem) (bm : BootModule) (path : List Byte) (codeSize entryOffset : Nat)
    (code : Nat → Byte) : Prop :=
  ∃ image size, initramfsFind m bm path = .ok (some (image, size)) ∧
    emxfHeader m image size = .ok (some (codeSize, entryOffset)) ∧
    ∀ j, j < codeSize → imageByte m image (12 + j) = .ok (code j)

/-- **The process of record `i` runs the program under its path**, from the initramfs the kernel
    booted with. -/
structure RunsImage (s0 : Mm) (bm : BootModule) (k : Kernel) (i : Fin 16) : Prop where
  reads : ∃ codeSize entryOffset code, Image s0.mem bm (k.processes i).path codeSize entryOffset code ∧
    (k.processes i).entry = 0x00400000 + entryOffset ∧
    ∀ v, v < 2 ^ 32 → v / 4096 ≠ 0x7ff →
      (userPhys k.mm.mem (k.processes i).addressSpace v false).map k.mm.mem =
        programByte code codeSize v
  writes : ∀ v, v < 2 ^ 32 →
    ((userPhys k.mm.mem (k.processes i).addressSpace v true).isSome ↔ v / 4096 = 0x7ff)
  maps : ∀ v, v < 0xC0000000 → ((walk k.mm.mem (k.processes i).addressSpace v).isSome ↔
    v / 4096 = 0x400 ∨ v / 4096 = 0x7ff)

/-- The words of a program's table: its code page and its stack page. -/
def programTable (f g : Nat) : Nat → Nat :=
  Function.update (Function.update (fun _ => 0) 0 (f + 5)) 1023 (g + 7)

/-- The record's two pages, behind one table, and the code in the first of them. -/
def Program (m0 : Mem) (bm : BootModule) (m : Mem) (p : UserProcess) : Prop :=
  ∃ codeSize entryOffset code t f g, Image m0 bm p.path codeSize entryOffset code ∧
    p.entry = 0x00400000 + entryOffset ∧ p.pages = [⟨0x00400000, f⟩, ⟨0x007ff000, g⟩] ∧
    t % 4096 = 0 ∧ UserHalf m p.addressSpace (t + 7) (programTable f g) ∧
    ∀ x, x < 4096 → m (f + x) = if x < codeSize then code x else 0

/-- **The invariant**: a process that has not started has an empty address space, and one that runs
    has its program. -/
structure Programs (s0 : Mm) (bm : BootModule) (k : Kernel) : Prop where
  created : ∀ i, (k.processes i).state = .created → FreshSpace k i
  running : ∀ i, (k.processes i).state = .running → Program s0.mem bm k.mm.mem (k.processes i)

/-! ## 2. What it depends on -/

/-- The record says the same about its program. -/
structure UserProcess.SameProgram (p p' : UserProcess) : Prop where
  state : p'.state = p.state
  addressSpace : p'.addressSpace = p.addressSpace
  pages : p'.pages = p.pages
  path : p'.path = p.path
  entry : p'.entry = p.entry

theorem UserProcess.SameProgram.refl (p : UserProcess) : p.SameProgram p :=
  ⟨rfl, rfl, rfl, rfl, rfl⟩

/-- The record is of a process that has not exited. -/
def UserProcess.Alive (p : UserProcess) : Prop := p.state = .created ∨ p.state = .running

section

variable {img : KernelImage} {p0 : Pmm} {s0 : Mm} {bm : BootModule} {bs : List Blk}
  {k k' : Kernel} {i n : Fin 16}

theorem SameSpace.mono {d : Nat} {fs fs' : List Nat} {m m' : Mem} (h : SameSpace d fs m m')
    (hsub : ∀ f ∈ fs', f ∈ fs) : SameSpace d fs' m m' :=
  ⟨h.dir, h.pte, fun f hf => h.pages f (hsub f hf)⟩

/-- A program needs its table and its code page. -/
theorem Program.same {m0 m m' : Mem} {p p' : UserProcess} (h : Program m0 bm m p)
    (hp : p.SameProgram p') (hs : SameSpace p.addressSpace (p.frames.take 1) m m') :
    Program m0 bm m' p' := by
  obtain ⟨codeSize, entryOffset, code, t, f, g, himage, hentry, hpages, ht, hu, hcode⟩ := h
  have hf : f ∈ p.frames.take 1 := by simp [UserProcess.frames, hpages]
  refine ⟨codeSize, entryOffset, code, t, f, g, by rw [hp.path]; exact himage, hp.entry.trans hentry,
    hp.pages.trans hpages, ht, ?_, fun x hx => ?_⟩
  · rw [hp.addressSpace]
    exact hs.userHalf hu
  · rw [hs.pages f hf _ ⟨by omega, by omega⟩]
    exact hcode x hx

/-- **One step keeps the invariant** if each process that is alive after it was left alone, has just
    been spawned or has just been loaded. -/
theorem Programs.step (h : Programs s0 bm k)
    (hstep : ∀ n, (k'.processes n).Alive →
      ((k.processes n).SameProgram (k'.processes n) ∧ SameSpace (k.processes n).addressSpace
        (k.processes n).frames k.mm.mem k'.mm.mem) ∨ FreshSpace k' n ∨
      (k'.processes n).state = .running ∧ Program s0.mem bm k'.mm.mem (k'.processes n)) :
    Programs s0 bm k' where
  created n hn := by
    obtain ⟨hp, hs⟩ | hf | ⟨hr, -⟩ := hstep n (.inl hn)
    · have hf := h.created n (hp.state.symm.trans hn)
      refine ⟨hn, hp.pages.trans hf.pages, fun j hj => ?_⟩
      rw [hp.addressSpace, hs.dir j hj, hf.empty j hj]
    · exact hf
    · cases hn.symm.trans hr
  running n hn := by
    obtain ⟨hp, hs⟩ | hf | ⟨-, hr⟩ := hstep n (.inr hn)
    · exact (h.running n (hp.state.symm.trans hn)).same hp
        (hs.mono fun f hf => List.mem_of_mem_take hf)
    · cases hn.symm.trans hf.created
    · exact hr

/-- A process that is alive has a directory. -/
theorem Owned.alive_space {c : Ctl} {s : Mm} (h : Owned p0 s0 c bs s) (hn : (c.processes n).Alive) :
    (c.processes n).addressSpace ∈ s.spaces := by
  obtain hn | hn := hn
  · exact h.spaces.mem (spaceOf_record _ hn)
  · obtain ⟨t, ht, he, hk⟩ := h.held.running n hn
    rw [← he]
    exact h.spaces.mem (spaceOf_task ht.live.used hk)

/-- Two processes that are alive have two directories. -/
theorem Owned.alive_ne {c : Ctl} {s : Mm} (h : Owned p0 s0 c bs s) (hinv : c.Inv)
    (hn : (c.processes n).Alive) (hi : (c.processes i).Alive) (hne : n ≠ i) :
    (c.processes n).addressSpace ≠ (c.processes i).addressSpace := by
  intro he
  -- who answers for the directory of a process that is alive
  have hrole : ∀ j, (c.processes j).Alive →
      ((c.processes j).state = .created ∧
        spaceOf s.kernelPageDirectory c (.inr j) = some (c.processes j).addressSpace) ∨
      ∃ t, c.Hosts t j ∧ (c.processes j).state = .running ∧
        spaceOf s.kernelPageDirectory c (.inl t) = some (c.processes j).addressSpace := by
    intro j hj
    obtain hj | hj := hj
    · exact .inl ⟨hj, spaceOf_record _ hj⟩
    · obtain ⟨t, ht, ha, hk⟩ := h.held.running j hj
      exact .inr ⟨t, ht, hj, by rw [spaceOf_task ht.live.used hk, ha]⟩
  obtain ⟨-, hrn⟩ | ⟨t, htn, hsn, hrn⟩ := hrole n hn <;>
  obtain ⟨-, hri⟩ | ⟨u, hui, hsi, hri⟩ := hrole i hi <;> rw [he] at hrn
  · cases h.spaces.inj hrn hri
    exact hne rfl
  · cases h.spaces.inj hrn hri
  · cases h.spaces.inj hrn hri
  · cases h.spaces.inj hrn hri
    exact hne (hinv.recordIds n i (by rw [hsn]; decide) (by rw [hsi]; decide)
      (htn.id.symm.trans hui.id))

/-- A step that is about no process. -/
theorem Programs.leaves (h : Programs s0 bm k) (ho : Owned p0 s0 k'.toCtl bs k'.mm)
    (hps : ∀ n, (k'.processes n).Alive → (k.processes n).SameProgram (k'.processes n))
    (hl : k.LeavesSpaces k') : Programs s0 bm k' := by
  refine h.step fun n hn => .inl ⟨hps n hn, ?_⟩
  have hsp := ho.alive_space hn
  rw [(hps n hn).addressSpace] at hsp
  exact hl.same _ n hsp

/-! ## 3. The initramfs stays as it was -/

theorem MmInv.moduleByte_same {ps : Fin 16 → UserProcess} {s : Mm} (h : MmInv p0 s0 ps bs s)
    (hm : ModuleApart img p0 bm) {j : Nat} (hj : j < bm.size) :
    moduleByte s.mem bm j = moduleByte s0.mem bm j := by
  unfold moduleByte kernelByte
  by_cases hin : 0xC0000000 ≤ (bm.start + j) % 2 ^ 32 ∧ (bm.start + j) % 2 ^ 32 < 0xC1000000
  · rw [if_pos hin, if_pos hin, h.outside _ (hm.frames _ ⟨j, hj, by omega⟩)]
  · rw [if_neg hin, if_neg hin]

theorem emxfHeader_congr {m m' : Mem} {image size : Nat}
    (h : ∀ j, j < size → imageByte m' image j = imageByte m image j) :
    emxfHeader m' image size = emxfHeader m image size := by
  unfold emxfHeader
  split
  · rfl
  · rename_i hsize
    rw [magicMatches_congr fun j hj => h j (by omega),
      readLe32_congr fun j hj => h (4 + j) (by omega),
      readLe32_congr fun j hj => h (8 + j) (by omega)]

/-- **A program of the initramfs is what it was at boot.** -/
theorem MmInv.image_boot {ps : Fin 16 → UserProcess} {s : Mm} (h : MmInv p0 s0 ps bs s)
    (hm : ModuleApart img p0 bm) {path : List Byte} {codeSize entryOffset : Nat} {code : Nat → Byte}
    (hi : Image s.mem bm path codeSize entryOffset code) :
    Image s0.mem bm path codeSize entryOffset code := by
  obtain ⟨image, size, hfind, hheader, hcode⟩ := hi
  have hsame : ∀ j, j < bm.size → moduleByte s.mem bm j = moduleByte s0.mem bm j :=
    fun j hj => h.moduleByte_same hm hj
  obtain ⟨off, himage, hin⟩ := initramfsFind_range hfind
  have hbyte : ∀ m j, imageByte m image j = moduleByte m bm (off + j) := fun m j => by
    unfold imageByte moduleByte
    rw [himage]
    congr 1
    omega
  have hfit := emxfHeader_some hheader
  refine ⟨image, size, ?_, ?_, fun j hj => ?_⟩
  · rw [← hfind]
    unfold initramfsFind
    rw [findIn_congr hsame]
  · rw [← hheader]
    refine emxfHeader_congr fun j hj => ?_
    rw [hbyte, hbyte, hsame _ (by omega)]
  · rw [← hcode j hj, hbyte, hbyte, hsame _ (by omega)]

/-! ## 4. A process is loaded -/

/-- **What `user_prepare_exec` leaves is a program.** -/
theorem MmInv.prepared_program (h : MmInv p0 s0 k.processes bs k.mm) (hf : FreshSpace k i)
    (hsp : (k.processes i).addressSpace ∈ k.mm.spaces) (hm : ModuleApart img p0 k.bootModule)
    {path : List Byte} (hpath : (k'.processes i).path = path)
    (hp : Prepared p0 s0 bs k i path 0 k') :
    Program s0.mem k.bootModule k'.mm.mem (k'.processes i) := by
  cases hp with
  | done hfind hcode h₁ hstack =>
    rename_i k₁ k₂ image size codeSize entryOffset f g
    obtain ⟨hspace, hpages, hentry, -⟩ := hcode.record
    have hfit := emxfHeader_some hcode.header
    have hsp₁ : (k₁.processes i).addressSpace ∈ k₁.mm.spaces := by
      rw [hspace, hcode.spaces]
      exact hsp
    obtain ⟨t, ht, hu⟩ := hcode.userHalf h hf hsp
    rw [← hspace] at hu
    have hu₂ := hstack.userHalf_stack h₁ hsp₁ ht hu
    obtain ⟨code, himage, hbytes⟩ := hcode.bytes hm hfind
    have hpages₂ := hstack.pages
    rw [hpages, hf.pages] at hpages₂
    -- the stack's page does not disturb the code
    have hfm : f ∈ (k₁.processes i).frames := by
      unfold UserProcess.frames
      rw [hpages]
      simp
    have hkeep : SamePage k₁.mm.mem k₂.mm.mem f := hstack.keeps h₁ (c := .page i f) (if_pos hfm)
    have hself : (k₂.processes i).addressSpace = (k₁.processes i).addressSpace ∧
        (k₂.processes i).entry = (k₁.processes i).entry := by
      rw [hstack.kernel]
      dsimp only [withPages]
      rw [Function.update_self]
      exact ⟨rfl, rfl⟩
    simp only [Function.update_self] at hpath ⊢
    refine ⟨codeSize, entryOffset, code, t, f, g, ?_, ?_, hpages₂, ht, ?_, fun x hx => ?_⟩
    · simp only [hpath]
      exact h.image_boot hm ⟨image, size, hfind, hcode.header, himage⟩
    · simp only [hself.2, hentry]
      omega
    · simp only [hself.1]
      exact hu₂
    · rw [hkeep _ ⟨by omega, by omega⟩, hbytes x hx]

/-- **`user_exec_task`**: the other processes are left alone, and a process that enters user mode has
    its program. -/
theorem Owned.execTask_programs (h : Owned p0 s0 k.toCtl bs k.mm) (hinv : k.toCtl.Inv)
    (hr : k.toCtl.Runs) (hstart : k.toCtl.cont = .start) (hc : k.caller = some i)
    (hf : FreshSpace k i) (hm : ModuleApart img p0 k.bootModule) {b : Bool}
    (e : userExecTask k = .ok (b, k')) :
    k.LeavesOthers i k' ∧ (∀ n, n ≠ i → k'.processes n = k.processes n) ∧
      (b = true → Program s0.mem k.bootModule k'.mm.mem (k'.processes i)) ∧
      (b = false → ¬ (k'.processes i).Alive) := by
  have h0 : k.currentTask ≠ 0 := hinv.ne_zero (by rw [hstart]; decide)
  obtain ⟨hs, -, hsp⟩ := h.starting hinv hr hstart hc
  unfold userExecTask at e
  rw [Ctl.caller_eq, hc] at e
  obtain ⟨⟨r₁, k₁⟩, e₁, e⟩ := bind_ok.mp e
  have hl₁ := h.mm.prepareExec_leaves hsp e₁
  obtain ⟨h₁, hs₁, hnone⟩ := h.mm.prepareExec hsp e₁
  have hload := userPrepareExec_ctl e₁
  have hspace := hload.space
  have hothers := hload.others
  obtain ⟨p, hp, hk₁⟩ := hload
  obtain ⟨⟨r₂, k₂⟩, e₂, e⟩ := bind_ok.mp e
  dsimp only at e₂ e
  by_cases hr₁ : r₁ ≠ 0
  · -- not loaded: the directory is destroyed, which writes nothing
    cases (if_pos hr₁).symm.trans e₂
    rw [if_pos hr₁] at e
    obtain ⟨mm, e₃, e⟩ := bind_ok.mp e
    cases e
    have hmem : mm.mem = k₁.mm.mem := by
      obtain ⟨p', -, ed, -⟩ := h₁.destroy (d := (k.processes i).addressSpace) (hs₁.symm ▸ hsp)
        fun n hn => by
          by_cases hni : n = i
          · rw [hni, hnone hr₁] at hn
            exact absurd rfl hn
          · rw [hothers n hni] at hn ⊢
            exact h.alone hs n hn
      rw [hspace, if_pos (h.mm.space_pos hsp), ed] at e₃
      cases e₃
      rfl
    refine ⟨fun d n hn hd hne => ?_, fun n hn => ?_, fun hb => absurd hb (by decide), fun _ => ?_⟩
    · dsimp only
      rw [hmem]
      exact hl₁ d n hn hd hne
    · exact (Function.update_of_ne hn ..).trans (hothers n hn)
    · dsimp only
      rw [userProcessRelease, Function.update_self]
      simp [UserProcess.Alive, UserProcess.zero]
  · -- loaded
    have h0₁ : k₁.currentTask ≠ 0 := by
      rw [hk₁]
      exact h0
    rw [if_neg hr₁, schedSetCurrentAddressSpace_ok h0₁ (hspace ▸ h.mm.space_pos hsp)] at e₂
    cases e₂
    cases e
    have hpath : (k₁.processes i).path = (k.processes i).path := by
      rw [hk₁]
      dsimp only
      rw [Function.update_self]
      exact hp.path
    have hprog : Program s0.mem k.bootModule k₁.mm.mem (k₁.processes i) := by
      obtain ⟨⟨r₀, k₀⟩, e₀, e₁⟩ := bind_ok.mp e₁
      obtain ⟨-, -, hprep⟩ := h.mm.prepareSteps hsp e₀
      dsimp only at e₁
      split_ifs at e₁ with hr₀
      · obtain ⟨k₃, -, e₁⟩ := bind_ok.mp e₁
        cases e₁
        exact absurd (by decide) hr₁
      · rw [not_not] at hr₀
        subst hr₀
        cases e₁
        exact h.mm.prepared_program hf hsp hm hpath hprep
    refine ⟨hl₁, fun n hn => ?_, fun _ => ?_, fun hb => absurd hb (by decide)⟩
    · exact (Function.update_of_ne hn ..).trans (hothers n hn)
    · dsimp only
      rw [Function.update_self]
      exact hprog

/-- A step that is about the process of record `i`. -/
theorem Programs.others (h : Programs s0 bm k) (ho : Owned p0 s0 k.toCtl bs k.mm)
    (hinv : k.toCtl.Inv) (hi : (k.processes i).Alive) (hl : k.LeavesOthers i k')
    (hps : ∀ n, n ≠ i → (k'.processes n).Alive → (k.processes n).SameProgram (k'.processes n))
    (hself : (k'.processes i).Alive → (k'.processes i).state = .running ∧
      Program s0.mem bm k'.mm.mem (k'.processes i)) : Programs s0 bm k' := by
  refine h.step fun n hn => ?_
  by_cases hni : n = i
  · rw [hni] at hn ⊢
    exact .inr (.inr (hself hn))
  · have hp := hps n hni hn
    have halive : (k.processes n).Alive := by
      unfold UserProcess.Alive at hn ⊢
      rw [← hp.state]
      exact hn
    exact .inl ⟨hp, hl _ n hni (ho.alive_space halive) (ho.alive_ne hinv halive hi hni)⟩

/-- The bytes of memory are the same. -/
theorem Programs.congr (h : Programs s0 bm k) (hmm : k'.mm.mem = k.mm.mem)
    (hps : ∀ n, (k'.processes n).Alive → (k.processes n).SameProgram (k'.processes n)) :
    Programs s0 bm k' :=
  h.step fun n hn => .inl ⟨hps n hn, by rw [hmm]; exact .refl ..⟩

/-! ## 5. A process is spawned -/

/-- The end of `user_spawn`: the address spaces that were there are left alone, and the new process
    has an empty one. -/
theorem Owned.spawnInto_leaves {c : Ctl} (h : Owned p0 s0 c bs k.mm)
    (hi : c.processes i = UserProcess.zero) (hs : (k.processes i).state = .created)
    (hp : (k.processes i).pages = []) (htasks : k.tasks = c.tasks)
    (hps : k.processes = Function.update c.processes i (k.processes i)) {r : Int}
    (e : Emyx.spawnInto k i = .ok (r, k')) :
    (∀ d n, d ∈ k.mm.spaces → d ∈ k'.mm.spaces →
      SameSpace d (k.processes n).frames k.mm.mem k'.mm.mem) ∧
    (∀ n, n ≠ i → k'.processes n = k.processes n) ∧
    ((k'.processes i).Alive → FreshSpace k' i) := by
  have hmm₀ : MmInv p0 s0 k.processes bs k.mm := by
    rw [hps]
    exact h.mm.setRecord (by rw [hp, hi]; rfl) fun hne => absurd hp hne
  have hdead : ¬ UserProcess.zero.Alive := by simp [UserProcess.Alive, UserProcess.zero]
  have hrel : ∀ ps : Fin 16 → UserProcess, userProcessRelease ps i i = UserProcess.zero ∧
      ∀ n, n ≠ i → userProcessRelease ps i n = ps n := fun ps =>
    ⟨Function.update_self .., fun n hn => Function.update_of_ne hn ..⟩
  obtain ⟨⟨d, mm⟩, e₁, e⟩ := bind_ok.mp e
  dsimp only at e
  rcases hmm₀.create with ⟨ec, -, -⟩ | ⟨d', p', m', ealloc, ec, hd0, hdir, hmm, hempty, hother⟩
  · cases ec.symm.trans e₁
    cases (if_pos rfl).symm.trans e
    refine ⟨fun d n _ _ => .refl d _ _, (hrel _).2, fun ha => absurd ha ?_⟩
    dsimp only
    rw [(hrel _).1]
    exact hdead
  cases ec.symm.trans e₁
  rw [if_neg hd0] at e
  obtain ⟨⟨id, k₂⟩, e₂, e⟩ := bind_ok.mp e
  dsimp only at e₂ e
  -- the frame of the new directory was free
  have hcreate : ∀ a n, a ∈ k.mm.spaces → SameSpace a (k.processes n).frames k.mm.mem m' := by
    intro a n ha
    rcases hmm₀.vm.alloc with e0 | ⟨f, p'', ef, -, hfr⟩
    · cases e0.symm.trans ealloc
      exact absurd rfl hd0
    · cases ef.symm.trans ealloc
      exact hmm₀.sameSpace_roles ha n (hmm₀.vm.fresh_write hfr.new hfr.aligned hother)
  generalize hq : ({ k.processes i with addressSpace := d } : UserProcess) = q at e₂
  have hqs : q.state = .created := by rw [← hq]; exact hs
  have hqp : q.pages = [] := by rw [← hq]; exact hp
  have hqa : q.addressSpace = d := by rw [← hq]
  have hself : Function.update k.processes i q i = q := Function.update_self ..
  have hrec := hmm.setRecord (i := i) (p := q) (hqp.trans hp.symm) fun hne => absurd hqp hne
  have h₁ : Owned p0 s0 { k.toCtl with processes := Function.update k.processes i q } bs
      { k.mm with pmm := p', mem := m', spaces := d :: k.mm.spaces } := by
    refine h.addRecord (p := q) (by rw [hi]; rfl) hqs hqp htasks ?_ hrec
      (fun hc => hdir (.inr (hqa ▸ hc))) (by rw [hqa])
    dsimp only
    rw [hps, Function.update_idem]
  have hl := Owned.create_leaves (k := { k with
    mm := { k.mm with pmm := p', mem := m', spaces := d :: k.mm.spaces }
    processes := Function.update k.processes i q }) h₁ e₂
  have hframes : ∀ n, (Function.update k.processes i q n).frames = (k.processes n).frames := by
    intro n
    unfold UserProcess.frames
    by_cases hn : n = i
    · rw [hn, hself, hqp, hp]
    · rw [Function.update_of_ne hn]
  have hps₂ : k₂.processes = Function.update k.processes i q := by
    obtain ⟨-, hk⟩ | ⟨j, t, -, -, -, -, -, -, hk⟩ := kthreadCreate_ctl e₂ <;> rw [hk] <;> rfl
  have hsame₂ : ∀ a n, a ∈ k.mm.spaces → a ∈ k₂.mm.spaces →
      SameSpace a (k.processes n).frames k.mm.mem k₂.mm.mem := by
    intro a n ha ha₂
    have hrest := hl.same a n ha₂
    dsimp only at hrest
    rw [hframes] at hrest
    exact (hcreate a n ha).trans hrest
  have hst : (Function.update k.processes i q i).state = .created := by rw [hself, hqs]
  have had : (Function.update k.processes i q i).addressSpace = d := by rw [hself, hqa]
  -- the directory is still there once the task is made
  obtain ⟨mm₂, bs₂, hcase⟩ := Owned.create
    (k := { k with mm := _, processes := Function.update k.processes i q }) h₁ .userExecTask
  have hd₂ : d ∈ k₂.mm.spaces ∧ ∃ s', vmmDestroyAddressSpace k₂.mm d = .ok s' ∧
      s'.mem = k₂.mm.mem ∧ ∀ a ∈ s'.spaces, a ∈ k₂.mm.spaces := by
    have hown : ∃ c₂, c₂.processes = Function.update k.processes i q ∧
        Owned p0 s0 c₂ bs₂ k₂.mm := by
      rcases hcase with ⟨ecr, h₂⟩ | ⟨j, t, -, ecr, h₂⟩
      · cases ecr.symm.trans e₂
        exact ⟨_, rfl, h₂⟩
      · cases ecr.symm.trans e₂
        exact ⟨_, rfl, h₂⟩
    obtain ⟨c₂, hc₂, h₂⟩ := hown
    have hrole := spaceOf_record (c := c₂) k₂.mm.kernelPageDirectory (i := i) (by rw [hc₂, hst])
    rw [hc₂, had] at hrole
    have hin := h₂.spaces.mem hrole
    obtain ⟨p₂, -, ed, -⟩ := h₂.mm.destroy hin fun n hn he => by
      obtain ⟨t, -, hrole'⟩ := h₂.host_of_pages hn
      rw [he] at hrole'
      cases h₂.spaces.inj hrole hrole'
    exact ⟨hin, _, ed, rfl, fun a ha => List.mem_of_mem_erase ha⟩
  obtain ⟨hin, s', ed, hmem, hsub⟩ := hd₂
  by_cases hneg : id < 0
  · rw [if_pos hneg] at e
    simp only [ed, ok_bind] at e
    cases e
    refine ⟨fun a n ha ha' => ?_, fun n hn => ?_, fun halive => absurd halive ?_⟩
    · dsimp only at ha' ⊢
      rw [hmem]
      exact hsame₂ a n ha (hsub a ha')
    · dsimp only
      rw [(hrel _).2 n hn, hps₂, Function.update_of_ne hn]
    · dsimp only
      rw [(hrel _).1]
      exact hdead
  · rw [if_neg hneg] at e
    cases e
    refine ⟨hsame₂, fun n hn => ?_, fun _ => ?_⟩
    · dsimp only
      rw [Function.update_of_ne hn, hps₂, Function.update_of_ne hn]
    · have hnew : ∀ j, j < 768 → dirWord k₂.mm.mem d j = 0 := by
        intro j hj
        have hsame := (hl.same d i hin).dir j hj
        dsimp only at hsame
        rw [hsame, hempty j (by omega), if_pos hj]
      refine ⟨?_, ?_, ?_⟩
      · dsimp only
        rw [Function.update_self, hps₂]
        exact hst
      · dsimp only
        rw [Function.update_self, hps₂, hself]
        exact hqp
      · dsimp only
        rw [Function.update_self, hps₂]
        dsimp only
        rw [had]
        exact hnew

/-- **`user_spawn` keeps the invariant.** -/
theorem Programs.spawn (h : Programs s0 bm k) (ho : Owned p0 s0 k.toCtl bs k.mm)
    (hinv : k.toCtl.Inv) {bs' : List Blk} (ho' : Owned p0 s0 k'.toCtl bs' k'.mm)
    {path : Option (List Byte)} {r : Int} (e : userSpawn k path = .ok (r, k')) :
    Programs s0 bm k' := by
  unfold userSpawn at e
  cases path with
  | none =>
    cases e
    exact h
  | some path =>
    dsimp only at e
    split_ifs at e with hlen
    · cases e
      exact h
    obtain ⟨file, -, e⟩ := bind_ok.mp e
    cases file with
    | none =>
      cases e
      exact h
    | some file =>
      dsimp only at e
      cases hi : userProcessAlloc k.processes with
      | none =>
        rw [hi] at e
        cases e
        exact h
      | some i =>
        rw [hi] at e
        have hfree := userProcessAlloc_some hi
        have hzero := hinv.free i hfree
        dsimp only at e
        generalize hq : ({ UserProcess.fresh with
          pid := k.nextPid, parentPid := _, path := path } : UserProcess) = q at e
        have h₀ : Owned p0 s0 k.toCtl bs ({ k with
          processes := Function.update k.processes i q
          nextPid := (k.nextPid + 1) % 2 ^ 32 } : Kernel).mm := ho
        have hself : Function.update k.processes i q i = q := Function.update_self ..
        have hstate : q.state = .created := by rw [← hq]; rfl
        have hpages : q.pages = [] := by rw [← hq]; rfl
        obtain ⟨hsame, hothers, hnew⟩ := h₀.spawnInto_leaves hzero
          ((congrArg UserProcess.state hself).trans hstate)
          ((congrArg UserProcess.pages hself).trans hpages) rfl
          (congrArg (Function.update k.processes i) hself.symm) e
        dsimp only at hsame hothers
        refine h.step fun n hn => ?_
        by_cases hni : n = i
        · rw [hni] at hn ⊢
          exact .inr (.inl (hnew hn))
        · have hrec : k'.processes n = k.processes n := by
            rw [hothers n hni, Function.update_of_ne hni]
          have halive : (k.processes n).Alive := by
            rw [← hrec]
            exact hn
          have hsp' := ho'.alive_space hn
          rw [hrec] at hsp'
          have hs := hsame _ n (ho.alive_space halive) hsp'
          rw [Function.update_of_ne hni] at hs
          exact .inl ⟨by rw [hrec]; exact .refl _, hs⟩

/-! ## 6. The other steps -/

/-- **`user_exit_current`** leaves the other processes alone. -/
theorem Owned.exitCurrent_leaves (h : Owned p0 s0 k.toCtl bs k.mm) (hinv : k.toCtl.Inv)
    (hr : k.toCtl.Runs) (hu : k.toCtl.cont = .user) {status : Nat}
    (e : userExitCurrent k status = .ok k') :
    ∃ i, (k.processes i).Alive ∧ k.LeavesOthers i k' ∧ ¬ (k'.processes i).Alive ∧
      ∀ n, n ≠ i → (k'.processes n).Alive → (k.processes n).SameProgram (k'.processes n) := by
  obtain ⟨i, hc, hs, -⟩ := hinv.caller_user hr (.inl hu)
  have halive : (k.processes i).Alive := .inr hs
  have hps : k'.processes = k.exitRecords i status := by
    obtain ⟨hn, -⟩ | ⟨j, hj, hk⟩ := userExitCurrent_ctl e
    · cases hc.symm.trans hn
    · cases hc.symm.trans hj
      rw [hk]
  have hl : k.LeavesOthers i k' := by
    unfold userExitCurrent at e
    rw [Ctl.caller_eq, hc] at e
    obtain ⟨k₁, e₁, e⟩ := bind_ok.mp e
    have h₁ := h.mm.setRecord (i := i)
      (p := { k.processes i with exitStatus := status, state := .exited }) rfl fun _ => rfl
    have hspace := h.alive_space halive
    have hl₁ := MmInv.freeAll_leaves (k := { k with processes := Function.update k.processes i _ })
      h₁ (by dsimp only; rw [Function.update_self]; exact hspace) e₁
    cases e
    intro d n hn hd hne
    have hsame := hl₁ d n hn hd (by dsimp only; rw [Function.update_self]; exact hne)
    dsimp only at hsame
    rw [Function.update_of_ne hn] at hsame
    exact hsame
  refine ⟨i, halive, hl, ?_, fun n hn hal => ?_⟩
  · rw [hps]
    obtain h0 | ⟨hx, -⟩ := k.exitRecords_self i status
    · rw [h0]
      simp [UserProcess.Alive, UserProcess.zero]
    · simp [UserProcess.Alive, hx]
  · rw [hps] at hal ⊢
    obtain he | ⟨-, he⟩ | ⟨-, he⟩ := k.exitRecords_other status hn
    · rw [he]
      exact .refl _
    · rw [he] at hal
      simp [UserProcess.Alive, UserProcess.zero] at hal
    · rw [he]
      exact ⟨rfl, rfl, rfl, rfl, rfl⟩

/-- **The loop of `user_wait` keeps the invariant.** -/
theorem Programs.waitLoop (h : Programs s0 bm k) (ho : Owned p0 s0 k.toCtl bs k.mm)
    {bs' : List Blk} (ho' : Owned p0 s0 k'.toCtl bs' k'.mm) {pid : Nat} {r : Option Int}
    (e : waitLoop k i pid = .ok (r, k')) : Programs s0 bm k' := by
  unfold Emyx.waitLoop at e
  cases ht : waitTurn k.processes i pid with
  | some out =>
    rw [ht] at e
    cases e
    refine h.congr rfl fun n hn => ?_
    dsimp only at hn ⊢
    obtain ⟨-, hps⟩ | ⟨j, -, -, -, -, hps⟩ := waitTurn_some ht
    · rw [hps]
      exact .refl _
    · rw [hps] at hn ⊢
      by_cases hnj : n = j
      · rw [hnj, userProcessRelease, Function.update_self] at hn
        simp [UserProcess.Alive, UserProcess.zero] at hn
      · rw [userProcessRelease, Function.update_of_ne hnj]
        exact .refl _
  | none =>
    rw [ht] at e
    obtain ⟨⟨b, k₁⟩, e₁, e⟩ := bind_ok.mp e
    have hcont := @Owned.setCont _ _ _ _ _ ho (.waiting i pid) fun _ => .inr ⟨i, pid, rfl⟩
    obtain ⟨hps, hl⟩ := Owned.yield_leaves (k := { k with toCtl := k.setCont (.waiting i pid) })
      hcont e₁
    cases b with
    | false => cases e
    | true =>
      cases e
      have hps' : k'.processes = k.processes := hps
      exact h.leaves ho' (fun n _ => by rw [hps']; exact .refl _) ⟨hl.fewer, hl.same⟩

/-- **What user code reaches in a process that runs**: its code, to read, and its stack. -/
theorem MmInv.programPhys (h : MmInv p0 s0 k.processes bs k.mm) (hc : HalfClosed s0)
    (hsp : (k.processes i).addressSpace ∈ k.mm.spaces) {t f g : Nat}
    (hpages : (k.processes i).pages = [⟨0x00400000, f⟩, ⟨0x007ff000, g⟩]) (ht : t % 4096 = 0)
    (hu : UserHalf k.mm.mem (k.processes i).addressSpace (t + 7) (programTable f g)) {v : Nat}
    (hv : v < 2 ^ 32) (write : Bool) :
    Emyx.userPhys k.mm.mem (k.processes i).addressSpace v write =
      if v / 4096 = 0x400 ∧ write = false then some (f + v % 4096)
      else if v / 4096 = 0x7ff then some (g + v % 4096) else none := by
  have hframe : ∀ y ∈ (k.processes i).frames, y % 4096 = 0 ∧ y + 4096 ≤ 2 ^ 32 := by
    intro y hy
    have ha := h.vm.own.mem (frameOf_page (s := k.mm) hy)
    have haligned := ha.aligned
    have hlt := ha.lt
    exact ⟨haligned, by omega⟩
  have hfs : (k.processes i).frames = [f, g] := by simp [UserProcess.frames, hpages]
  rw [hfs] at hframe
  obtain ⟨hf, hfl⟩ := hframe f (by simp)
  obtain ⟨hg, hgl⟩ := hframe g (by simp)
  by_cases hlow : v < 0xC0000000
  · exact hu.program ht hf hg hfl hgl hlow write
  · rw [h.userPhys_high hc hsp (by omega) hv, if_neg (by omega), if_neg (by omega)]

/-- **A store of user code** goes to a stack page, and changes no program. -/
theorem Programs.store (h : Programs s0 bm k) (ho : Owned p0 s0 k.toCtl bs k.mm)
    (hc : HalfClosed s0) {v a : Nat} {b : Byte} (hcr3 : k.cr3 ∈ k.mm.spaces) (hv : v < 2 ^ 32)
    (ha : userPhys k.mm.mem k.cr3 v true = some a) :
    Programs s0 bm { k with mm := { k.mm with mem := wr8 k.mm.mem a b } } := by
  have hmm := ho.mm
  obtain ⟨i, hd, x, hx, hpage, hax⟩ := hmm.userPhys hc hcr3 hv ha
  have hx' : x.paddr ∈ (k.processes i).frames := List.mem_map_of_mem hx
  have hrun : (k.processes i).state = .running := ho.held.pages i (List.ne_nil_of_mem hx)
  have hrole := frameOf_page (s := k.mm) hx'
  have hout : ∀ y, ¬ InPage x.paddr y → wr8 k.mm.mem a b y = k.mm.mem y := fun y hy =>
    wr8_outside (Nat.lt_or_gt_of_ne fun e => hy (by unfold InPage; omega))
  -- the tables are not in a process's page
  have htab : SameTables k.mm (wr8 k.mm.mem a b) := (hmm.vm.clients_write fun y hy =>
    hout y (hy (.page i x.paddr) _ (if_pos hx'))).1
  obtain ⟨hdir, hpte⟩ := hmm.vm.words_same htab
  have hsame : ∀ n, (k.processes n).Alive → (∀ f ∈ (k.processes n).frames.take 1, f ≠ x.paddr) →
      SameSpace (k.processes n).addressSpace ((k.processes n).frames.take 1) k.mm.mem
        (wr8 k.mm.mem a b) := by
    intro n hn hne
    have hsp := ho.alive_space hn
    refine ⟨fun j hj => hdir _ j (.inr hsp) (by omega),
      fun j l hj hl => hpte _ j l (.inr hsp) (by omega) hl, fun f hf y hy => hout y ?_⟩
    have hfn := frameOf_page (s := k.mm) (List.mem_of_mem_take hf)
    exact not_inPage (hmm.vm.aligned hrole) (hmm.vm.aligned hfn) (hne f hf).symm hy
  -- the page that was written is no code page
  have hcode : ∀ n, (k.processes n).Alive → ∀ f ∈ (k.processes n).frames.take 1, f ≠ x.paddr := by
    intro n hn f hf he
    have hfn := frameOf_page (s := k.mm) (List.mem_of_mem_take hf)
    rw [he] at hfn
    cases hmm.vm.own.inj hfn hrole
    obtain ⟨codeSize, entryOffset, code, t, f', g, -, -, hpages, ht, hu, -⟩ := h.running i hrun
    have hfs : (k.processes i).frames = [f', g] := by simp [UserProcess.frames, hpages]
    have hnd := (hmm.pages i).frames
    rw [hfs] at hf hnd hx'
    have hff : f = f' := by simpa using hf
    have hprog := hmm.programPhys hc (hd ▸ hcr3) hpages ht hu hv true
    rw [hd, ha, if_neg (by simp)] at hprog
    split_ifs at hprog with hstack
    · have hag : a = g + v % 4096 := Option.some.inj hprog
      have hxg : x.paddr = g := by omega
      rw [hff, hxg] at he
      simp [he] at hnd
  refine ⟨fun n hn => ?_, fun n hn => ?_⟩
  · have hf := h.created n hn
    refine ⟨hn, hf.pages, fun j hj => ?_⟩
    exact ((hsame n (.inl hn) (hcode n (.inl hn))).dir j hj).trans (hf.empty j hj)
  · exact (h.running n hn).same (.refl _) (hsame n (.inr hn) (hcode n (.inr hn)))

/-- **A task that starts** keeps the invariant. -/
theorem Programs.start (h : Programs s0 bm k) (ho : Owned p0 s0 k.toCtl bs k.mm)
    (hinv : k.toCtl.Inv) (hr : k.toCtl.Runs) (hcpu : k.OnCpu) (hbm : k.bootModule = bm)
    (hm : ModuleApart img p0 bm) (hstart : k.toCtl.cont = .start) {bs' : List Blk}
    (ho' : Owned p0 s0 k'.toCtl bs' k'.mm) (e : kthreadTrampoline k = .ok k') :
    Programs s0 bm k' := by
  unfold kthreadTrampoline at e
  split at e
  · obtain ⟨⟨entered, k₁⟩, e₁, e⟩ := bind_ok.mp e
    dsimp only at e
    -- what loading the task's process left
    have h₁ : Programs s0 bm k₁ := by
      obtain ⟨-, -, rfl⟩ | ⟨i, hc, -⟩ := userExecTask_ctl e₁
      · exact h
      obtain ⟨hs, -, -⟩ := ho.starting hinv hr hstart hc
      have hfresh := h.created i hs
      obtain ⟨hl, hothers, hin, hout⟩ := ho.execTask_programs hinv hr hstart hc hfresh
        (by rw [hbm]; exact hm) e₁
      refine h.others ho hinv (.inl hs) hl (fun n hn _ => by rw [hothers n hn]; exact .refl _) ?_
      intro halive
      cases entered with
      | false => exact absurd halive (hout rfl)
      | true =>
        have hprog := hin rfl
        rw [hbm] at hprog
        obtain ⟨j, hj, ⟨hb, -⟩ | ⟨q, -, -, -, -, hctl⟩⟩ :=
          (userExecTask_ctl e₁).resolve_left fun hn => absurd hn.2.1 (by decide)
        · cases hb
        · cases hc.symm.trans hj
          refine ⟨?_, hprog⟩
          rw [hctl]
          simp [Ctl.enter]
    cases entered with
    | true =>
      cases e
      exact h₁
    | false =>
      obtain ⟨ho₁, -⟩ := ho.execTask hinv hr hcpu hstart e₁
      obtain ⟨hr₁, -, -, hno⟩ := hinv.notEntered hr e₁
      obtain ⟨hps, hl⟩ := ho₁.exit_leaves hr₁ hno e
      exact h₁.leaves ho' (fun n _ => by rw [hps]; exact .refl _) hl
  · cases e
    exact h.congr rfl fun n _ => .refl _

/-- **The system call `exit`** keeps the invariant. -/
theorem Programs.exit (h : Programs s0 bm k) (ho : Owned p0 s0 k.toCtl bs k.mm)
    (hinv : k.toCtl.Inv) (hr : k.toCtl.Runs) (hu : k.toCtl.cont = .user) {bs' : List Blk}
    (ho' : Owned p0 s0 k'.toCtl bs' k'.mm) {status : Nat} (e : sysExit k status = .ok k') :
    Programs s0 bm k' := by
  obtain ⟨k₁, e₁, e⟩ := bind_ok.mp e
  obtain ⟨i, hi, hl₁, hdead, hothers⟩ := ho.exitCurrent_leaves hinv hr hu e₁
  have h₁ : Programs s0 bm k₁ := h.others ho hinv hi hl₁ hothers fun halive => absurd halive hdead
  obtain ⟨ho₁, htasks, hcur, hno⟩ := ho.exitCurrent hinv hr hu e₁
  have hr₁ : k₁.toCtl.Runs := by
    unfold Ctl.Runs at hr ⊢
    rw [htasks, hcur]
    exact hr
  rw [← htasks, ← hcur] at hno
  -- the line it prints does not matter
  have hexit : ∀ out, kthreadExit { k₁ with console := out } = .ok k' →
      k'.processes = k₁.processes ∧ k₁.LeavesSpaces k' := fun out e => by
    obtain ⟨hps, hl⟩ := Owned.exit_leaves (k := { k₁ with console := out }) ho₁ hr₁ hno e
    exact ⟨hps, hl.fewer, hl.same⟩
  obtain ⟨hps, hl⟩ := hexit _ e
  exact h₁.leaves ho' (fun n _ => by rw [hps]; exact .refl _) hl

/-! ## 7. Runs -/

/-- **Every step of the kernel keeps the invariant.** -/
theorem Programs.exec (h : Programs s0 bm k) (hk : KernelInv p0 s0 k) (hc : HalfClosed s0)
    (hbm : k.bootModule = bm) (hm : ModuleApart img p0 bm) {op : Op} {r : Option Int}
    (hop : op.Legal k.toCtl) (hk' : KernelInv p0 s0 k') (e : k.exec op = .ok (r, k')) :
    Programs s0 bm k' := by
  obtain ⟨bs, ho⟩ := hk.owned
  obtain ⟨bs', ho'⟩ := hk'.owned
  cases op with
  | spawn path =>
    obtain ⟨⟨r', k₁⟩, e₁, e⟩ := bind_ok.mp e
    cases e
    exact h.spawn ho hk.inv ho' e₁
  | create =>
    obtain ⟨⟨r', k₁⟩, e₁, e⟩ := bind_ok.mp e
    cases e
    have hps : k'.processes = k.processes := by
      obtain ⟨-, he⟩ | ⟨j, t, -, -, -, -, -, -, he⟩ := kthreadCreate_ctl e₁ <;> rw [he] <;> rfl
    exact h.leaves ho' (fun n _ => by rw [hps]; exact .refl _) (ho.create_leaves e₁)
  | yield =>
    obtain ⟨⟨b, k₁⟩, e₁, e⟩ := bind_ok.mp e
    cases e
    obtain ⟨hps, hl⟩ := ho.yield_leaves e₁
    exact h.leaves ho' (fun n _ => by rw [hps]; exact .refl _) hl
  | start =>
    obtain ⟨k₁, e₁, e⟩ := bind_ok.mp e
    cases e
    exact h.start ho hk.inv hk.runs hk.cpu hbm hm hop ho' e₁
  | wait pid =>
    have e : userWait k pid = .ok (r, k') := e
    unfold userWait at e
    split at e
    · cases e
      exact h
    · exact h.waitLoop ho ho' e
  | resume =>
    obtain ⟨i, pid, hcont⟩ := hop
    unfold Kernel.exec at e
    dsimp only at e
    rw [hcont] at e
    exact h.waitLoop ho ho' e
  | exit status =>
    obtain ⟨k₁, e₁, e⟩ := bind_ok.mp e
    cases e
    exact h.exit ho hk.inv hk.runs hop.1 ho' e₁
  | threadExit =>
    obtain ⟨k₁, e₁, e⟩ := bind_ok.mp e
    cases e
    obtain ⟨hps, hl⟩ := ho.exit_leaves hk.runs (hk.inv.kernel_alone hk.runs hop) e₁
    exact h.leaves ho' (fun n _ => by rw [hps]; exact .refl _) hl
  | store v b =>
    have hsp := ho.user_space hk.inv hk.runs hk.cpu hop.1
    unfold Kernel.exec at e
    cases ha : userPhys k.mm.mem k.cr3 v true with
    | none =>
      simp only [ha] at e
      cases e
    | some a =>
      simp only [ha] at e
      cases e
      exact h.store ho hc hsp hop.2 ha

/-- **A process with the invariant runs its image.** -/
theorem Programs.runsImage (h : Programs s0 bm k) (ho : Owned p0 s0 k.toCtl bs k.mm)
    (hc : HalfClosed s0) (hi : (k.processes i).state = .running) : RunsImage s0 bm k i := by
  have hsp := ho.alive_space (.inr hi)
  obtain ⟨codeSize, entryOffset, code, t, f, g, himage, hentry, hpages, ht, hu, hcode⟩ :=
    h.running i hi
  have hphys := fun v hv write => ho.mm.programPhys hc hsp hpages ht hu (v := v) hv write
  refine ⟨⟨codeSize, entryOffset, code, himage, hentry, fun v hv hstack => ?_⟩, fun v hv => ?_,
    fun v hv => ?_⟩
  · rw [hphys v hv, programByte]
    by_cases hpage : v / 4096 = 0x400
    · rw [if_pos ⟨hpage, rfl⟩, if_pos hpage, Option.map_some, hcode _ (by omega)]
    · rw [if_neg fun hx => hpage hx.1, if_neg hpage, if_neg hstack, if_neg hstack, Option.map_none]
  · rw [hphys v hv, if_neg (by simp)]
    split_ifs with hstack
    · simp [hstack]
    · simp [hstack]
  · rw [hu.walk hv, programTable, programPtes]
    have hframe := fun y hy =>
      (ho.mm.vm.own.mem (frameOf_page (s := k.mm) (i := i) (f := y) hy)).aligned
    have hf := hframe f (by simp [UserProcess.frames, hpages])
    have hg := hframe g (by simp [UserProcess.frames, hpages])
    split_ifs
    · omega
    · omega
    · exact iff_of_false (fun hx => absurd hx.2 (by decide)) (by omega)

end

section

variable {m : Mem} {img : KernelImage} {mbi : MultibootInfo} {p0 : Pmm} {s0 : Mm} {k : Kernel}

theorem SysRun.programs (hb : Booted m img mbi p0 s0) {bm : BootModule} (hm : ModuleApart img p0 bm)
    {tr esp0 : Nat} {es : List Event} (h : SysRun (schedInit s0 bm tr esp0) es k) :
    Programs s0 bm k := by
  induction h with
  | boot => exact ⟨fun i hi => (by cases hi), fun i hi => (by cases hi)⟩
  | event hrun hl hf he ih =>
    obtain ⟨hk, hbm⟩ := hrun.kernelInv hb
    have hk' := ((hrun.event hl hf he).kernelInv hb).1
    rename_i k₁ k₂ ev
    cases ev with
    | step op =>
      obtain ⟨⟨r, k₃⟩, e, he⟩ := bind_ok.mp he
      cases he
      exact ih.exec hk hb.halfClosed hbm hm hl hk' e
    | syscall frame =>
      obtain ⟨⟨r, k₃⟩, e, he⟩ := bind_ok.mp he
      cases he
      obtain hio | ⟨op, r', hop, -, e⟩ := syscallDispatch_step hl.1 hl.2 e
      · exact ih.congr (by rw [hio]) fun n _ => by rw [hio]; exact .refl _
      · exact ih.exec hk hb.halfClosed hbm hm hop hk' e
    | key c =>
      cases he
      exact ih.congr rfl fun n _ => .refl _

/-- **Every process that runs, runs its program**: in every run, whatever the processes do, its code
    page holds the bytes of its image as the initramfs had them at boot, it can write to its stack
    page only, and nothing else of the user half is mapped. -/
theorem runs_image (hb : Booted m img mbi p0 s0) {bm : BootModule} (hm : ModuleApart img p0 bm)
    {tr esp0 : Nat} {es : List Event} (h : SysRun (schedInit s0 bm tr esp0) es k) (i : Fin 16)
    (hi : (k.processes i).state = .running) : RunsImage s0 bm k i := by
  obtain ⟨bs, ho⟩ := (h.kernelInv hb).1.owned
  exact (h.programs hb hm).runsImage ho hb.halfClosed hi

/-- The first process, after it has started. -/
theorem runs_image_started : ∃ s0 k es,
    SysRun (schedInit s0 selfModule 0 0) es k ∧ (k.processes 0).state = .running ∧
    RunsImage s0 selfModule k 0 := by
  obtain ⟨s0, hs⟩ := selfBooted
  obtain ⟨k, p, f, g, hrun, -, hk⟩ := hs.started
  have hi : (k.processes 0).state = .running := by
    rw [hk.ctl]
    rfl
  exact ⟨s0, k, _, hrun.sysRun, hi, runs_image hs.booted moduleApart_self hrun.sysRun 0 hi⟩

end

end Emyx
