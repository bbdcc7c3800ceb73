/-
  File:      Emyx/Kernel/Isolation.lean
  Subject:   PROCESSES ARE ISOLATED BY THEIR PAGE TABLES.

  * `PageIsolated` -- what must hold of a frame that user code can reach on an address space in
    use: it is a page of the process with that address space, of no other process, and nothing of
    the kernel's;
  * **`processes_isolated`** -- so it is for every mapping open to user code, in every run in which
    each task that is created gets an id not in use;
  * `reused` -- when `next_task_id` has come round, the frame of a directory that is still in use
    becomes the code page of another process;
  * `processes_not_isolated` -- whose bytes then are that directory's entries.
-/
import Emyx.Kernel.Loaded

namespace Emyx

open Lib

/-! ## 1. The guarantee -/

/-- A task or a process record has the address space `d`; task 0 always has the kernel's. -/
def Kernel.LiveSpace (k : Kernel) (d : Nat) : Prop := d = k.mm.kernelPageDirectory ∨ k.Refers d

/-- The frame `f` behind the address `v` of the address space `d`. -/
structure PageIsolated (p0 : Pmm) (img : KernelImage) (k : Kernel) (d v f : Nat) : Prop where
  user : v < 0xC0000000
  taken : Allocated p0 k.mm.pmm f
  recorded : ∃ i, (k.processes i).state ≠ .free ∧ (k.processes i).addressSpace = d ∧
    f ∈ (k.processes i).frames ∧ ∀ j, f ∈ (k.processes j).frames → j = i
  alone : ∀ d' v', k.LiveSpace d' → d' ≠ d → v' < 0xC0000000 →
    walk k.mm.mem d' v' ≠ some (f + v' % 4096)
  notDirectory : ¬ k.LiveSpace f
  notTable : ∀ d' i, k.LiveSpace d' → i < 1024 → tableOf k.mm.mem d' i ≠ some f
  notHeap : f ∉ k.mm.heapPages
  notKernel : Apart f (f + 4096) img.physicalStart img.physicalEnd
  notBitmap : Apart f (f + 4096) k.mm.pmm.bitmapBase (k.mm.pmm.bitmapBase + k.mm.pmm.bitmapBytes)

/-- **What user code can reach is its process's own**, on every address space in use. -/
def Isolated (p0 : Pmm) (img : KernelImage) (k : Kernel) : Prop :=
  ∀ d v f, k.LiveSpace d → v < 2 ^ 32 → userPhys k.mm.mem d v false = some (f + v % 4096) →
    PageIsolated p0 img k d v f

/-! ## 2. It holds while ids are fresh -/

section

variable {m : Mem} {img : KernelImage} {mbi : MultibootInfo} {p0 : Pmm} {s0 : Mm} {k : Kernel}
variable {f d : Nat}

theorem KernelInv.liveSpace_iff (h : KernelInv p0 s0 k) : k.LiveSpace d ↔ IsDir k.mm d :=
  or_congr_right h.refers_iff

/-- A frame taken from the allocator is none of the kernel's image nor of the bitmap. -/
theorem Booted.apart (hb : Booted m img mbi p0 s0) {p : Pmm} (hp : PmmOk p0 p)
    (hf : Allocated p0 p f) : Apart f (f + 4096) img.physicalStart img.physicalEnd ∧
      Apart f (f + 4096) p.bitmapBase (p.bitmapBase + p.bitmapBytes) := by
  obtain ⟨page, rfl, -, hlt, -, -, hclear⟩ := hf
  have hres : ¬ Reserved img p0.bitmapBase p0.bitmapBytes page := fun hr =>
    hclear (pmmInit_reserved hb.pmmInit hlt hr)
  rw [hp.base, hp.bytes]
  exact (apart_of_not_reserved hres).2

/-- Nothing of the kernel's directory is open to user code. -/
theorem MmInv.kernel_closed {ps : Fin 16 → UserProcess} {bs : List Blk} {s : Mm}
    (h : MmInv p0 s0 ps bs s) (hb : Booted m img mbi p0 s0) (v : Nat) (write : Bool) :
    Emyx.userPhys s.mem s.kernelPageDirectory v write = none := by
  refine if_neg fun hc => ?_
  have hi := pdeIndex_lt v
  have hodd := hc.1.1
  have huser := hc.1.2.1
  rw [h.kernel, h.kernelWords _ hi] at hodd huser
  by_cases hlow : pdeIndex v < 768
  · exact tableOf_none (hb.lowHalf hlow) hodd
  · rw [hb.halfClosed _ (Nat.le_of_not_lt hlow) hi hodd] at huser
    cases huser

/-- The user half of an address space maps pages of records only. -/
theorem MmInv.walk_user {ps : Fin 16 → UserProcess} {bs : List Blk} {s : Mm}
    (h : MmInv p0 s0 ps bs s) (hb : Booted m img mbi p0 s0) (hd : IsDir s d) {v : Nat}
    (hv : v < 0xC0000000) (e : walk s.mem d v = some (f + v % 4096)) :
    ∃ i, (ps i).addressSpace = d ∧ f ∈ (ps i).frames := by
  have hi : pdeIndex v < 768 := by
    rw [pdeIndex_eq]
    omega
  rw [walk_eq_map] at e
  obtain ⟨f', hf', ef⟩ := Option.map_eq_some_iff.mp e
  obtain rfl : f' = f := by omega
  rcases hd with rfl | hd
  · have hnone : tableOf s.mem s.kernelPageDirectory (pdeIndex v) = none := by
      rw [h.kernel, tableOf_congr (h.kernelWords _ (by omega))]
      exact hb.lowHalf hi
    unfold pteWord at hf'
    rw [hnone] at hf'
    cases hf'
  · have hown := Nat.lt_of_lt_of_le hi (ownEntries_le s d).1
    rw [← mapOf_page (.inr hd) (by omega) hown] at hf'
    obtain ⟨i, ha, x, hx, -, hp⟩ := (h.maps d hd _ _).mp hf'
    exact ⟨i, ha, hp ▸ List.mem_map_of_mem hx⟩

theorem KernelInv.isolated (h : KernelInv p0 s0 k) (hb : Booted m img mbi p0 s0) :
    Isolated p0 img k := by
  intro d v f hlive hv e
  obtain ⟨bs, ho⟩ := h.owned
  have hmm := ho.mm
  have hd : d ∈ k.mm.spaces := by
    refine (h.liveSpace_iff.mp hlive).resolve_left fun hk => ?_
    rw [hk, hmm.kernel_closed hb] at e
    cases e
  obtain ⟨i, ha, x, hx, hpage, hf⟩ := hmm.userPhys hb.halfClosed hd hv e
  obtain rfl : f = x.paddr := by omega
  have hmem : x.paddr ∈ (k.processes i).frames := List.mem_map_of_mem hx
  have hrole := frameOf_page (s := k.mm) hmem
  have htaken := hmm.vm.own.mem hrole
  have hone : ∀ j, x.paddr ∈ (k.processes j).frames → j = i := fun j hj => by
    cases hmm.vm.own.inj (frameOf_page hj) hrole
    rfl
  have hrun : (k.processes i).state = .running := ho.held.pages i (List.ne_nil_of_mem hx)
  obtain ⟨hkernel, hbitmap⟩ := hb.apart hmm.vm.pmm htaken
  exact
    { user := by
        have := ((hmm.pages i).user x hx).2
        omega
      taken := htaken
      recorded := ⟨i, by rw [hrun]; decide, ha, hmem, hone⟩
      alone := fun d' v' hlive' hne hv' e' => by
        obtain ⟨j, hj, hfj⟩ := hmm.walk_user hb (h.liveSpace_iff.mp hlive') hv' e'
        rw [hone j hfj] at hj
        exact hne (hj.symm.trans ha)
      notDirectory := fun hdir =>
        nomatch hmm.vm.own.inj (frameOf_dir (h.liveSpace_iff.mp hdir)) hrole
      notTable := fun d' j hlive' hj ht => by
        have hd' := h.liveSpace_iff.mp hlive'
        by_cases hown : j < ownEntries k.mm d'
        · cases hmm.vm.own.inj ((frameOf_table hd' hown).trans ht) hrole
        · -- a table of the shared half is the kernel's
          have hk : j < ownEntries k.mm k.mm.kernelPageDirectory := by rwa [ownEntries_kernel]
          have hsp : d' ∈ k.mm.spaces := hd'.resolve_left fun e' => hown (e' ▸ hk)
          have ht' := hmm.vm.shared d' hsp j
            (by have := (ownEntries_le k.mm d').1; omega) hj _ ht
          cases hmm.vm.own.inj ((frameOf_table (isDir_kernel k.mm) hk).trans ht') hrole
      notHeap := fun hheap => nomatch hmm.vm.own.inj (frameOf_heap hheap) hrole
      notKernel := hkernel
      notBitmap := hbitmap }

/-- **What user code can reach is its process's own**, in every state of a run in which ids stay
    fresh. -/
theorem processes_isolated {bm : BootModule} {tr esp0 : Nat} {ops : List Op}
    (hb : Booted m img mbi p0 s0) (h : KRun FreshSteps (schedInit s0 bm tr esp0) ops k) :
    Isolated p0 img k :=
  (h.kernelInv hb).isolated hb

end

/-- The first process, running. -/
theorem processes_isolated_started : ∃ s0 k,
    Booted (smallMem selfArchive) smallImage smallInfo (smallPmm selfArchive) s0 ∧
    KRun FreshSteps (schedInit s0 selfModule 0 0)
      [.spawn (some [0x2f, 0x61]), .yield, .start] k ∧
    (k.processes 0).pages ≠ [] ∧ Isolated (smallPmm selfArchive) smallImage k := by
  obtain ⟨s0, hs⟩ := selfBooted
  obtain ⟨k, p, f, g, hrun, -, h⟩ := hs.started
  refine ⟨s0, k, hs.booted, hrun, ?_, processes_isolated hs.booted hrun⟩
  rw [h.ctl]
  exact nofun

/-! ## 3. The frame of a directory is used again -/

section

variable {s0 s : Mm} {ps : Fin 16 → UserProcess} {bs : List Blk} {m : Mem} {img : KernelImage}
variable {mbi : MultibootInfo} {p0 : Pmm} {a : Nat}

/-- The first page that was free after boot, if it is free again, is what the allocator gives. -/
theorem Booted.firstClear (hb : Booted m img mbi p0 s0) (h : MmInv p0 s0 ps bs s)
    (hfree : FreeFrom s0.pmm a) (ha : a < s0.pmm.maxPage)
    (hnot : ¬ Allocated p0 s.pmm (a * 4096)) : FirstClear s.pmm a := by
  obtain ⟨hv, -⟩ := vmmInit_spec (κ := Client) hb.low hb.vmmInit
  have hlow := hb.low
  have hmax₀ := hv.pmm.maxPage
  have hmax := h.vm.pmm.maxPage
  refine ⟨hfree.pos, by omega, fun hset => hnot ?_, fun j h1 h2 => ?_⟩
  · have hclear : ¬ p0.isSet a := fun hc =>
      absurd ((hfree.set a hfree.pos ha).mp (hv.pmm.kept a hc)) (Nat.lt_irrefl a)
    exact ⟨a, rfl, hfree.pos, by omega, by omega, hset, hclear⟩
  · by_cases h0 : p0.isSet j
    · exact h.vm.pmm.kept j h0
    · have hset := (hfree.set j h1 (by omega)).mpr h2
      obtain ⟨page, e, -, -, -, hs, -⟩ :=
        hb.frames_kept h (f := j * 4096) ⟨j, rfl, h1, by omega, by omega, hset, h0⟩
      rwa [show j = page by omega]

end

section

variable {s0 : Mm}

/-- The frame `0x116000`, if it is free, is the next one to be taken. -/
theorem SelfBooted.alloc_stale (hs : SelfBooted s0) {ps : Fin 16 → UserProcess} {bs : List Blk}
    {s : Mm} (h : MmInv (smallPmm selfArchive) s0 ps bs s)
    (hfreed : ¬ Allocated (smallPmm selfArchive) s.pmm 0x116000) :
    (pmmAllocPage s.pmm).1 = 0x116000 := by
  have hclear : FirstClear s.pmm 0x116 :=
    hs.booted.firstClear h hs.free (by rw [hs.pages]; decide) hfreed
  rw [hclear.alloc (by rw [h.vm.pmm.maxPage]; exact hs.booted.low)]

/-- **A third process takes the frame**: its code page is the directory of the process in slot 1. -/
theorem SelfBooted.reused (hs : SelfBooted s0) : ∃ k p₁ p₂ p₃ d₂ d₃ g,
    Leads (schedInit s0 selfModule 0 0) k ∧ Scene s0 ⟨fourTasks (bootTask s0 .runnable)
      (userTask 1 0x116000 p₁ .runnable .user)
      (userTask 1 s0.kernelPageDirectory p₂ .zombie .start) (userTask 2 d₃ p₃ .running .user), 3, 3,
      threeRecords .zero (.spawned 2 1 0 d₂ [0x2f, 0x61])
        { (UserProcess.spawned 3 2 0 d₃ [0x2f, 0x61]).loaded 8 0x116000 g with state := .running },
      4⟩ 27 k ∧
    d₃ ≠ 0x116000 ∧ HoldsBytes k.mm.mem 0x116000 (le32 0x00116007) := by
  obtain ⟨k₁, p₁, p₂, f, g, d₂, hl₁, h₁⟩ := hs.twice
  obtain ⟨bs₁, hb₁⟩ := h₁.backed
  have hdir : 0x116000 ∈ k₁.mm.spaces := by
    have := (hb₁.mm.pages 0).space
    rw [h₁.ctl] at this
    exact this nofun
  obtain ⟨k₂, p₃, t₂, h₂, hsp₂, hnew₂, -⟩ := h₁.spawn (n := 31) hs.archive (.inl rfl)
    (oneZombie_two nofun nofun (by decide) nofun) (rfl : _ = some (3 : Fin 16))
    (rfl : _ = some (2 : Fin 16)) rfl (show 2 < 2 ^ 31 by decide)
  generalize (pmmAllocPage k₁.mm.pmm).1 = d₃ at h₂ hsp₂ hnew₂
  have h₂ : Scene s0 ⟨fourTasks (bootTask s0 .running) (userTask 1 0x116000 p₁ .runnable .user)
      (userTask 1 s0.kernelPageDirectory p₂ .runnable .start)
      (userTask 2 s0.kernelPageDirectory p₃ .runnable .start), 0, 3,
      threeRecords (olderRecord f g) (.spawned 2 1 0 d₂ [0x2f, 0x61])
        (.spawned 3 2 0 d₃ [0x2f, 0x61]), 4⟩ 31 k₂ :=
    h₂.tables (fun i => by fin_cases i <;> rfl) rfl rfl (funext fun i => by fin_cases i <;> rfl) rfl
  have hne : d₃ ≠ 0x116000 := fun e => hnew₂ (e ▸ hdir)
  -- the task with the id of the older process destroys that one's address space
  obtain ⟨k₃, hl₃, h₃, hsp₃, hfreed⟩ := h₂.collide hs.archive nofun rfl rfl
    (rfl : _ = some (3 : Fin 16))
  have h₃ : Scene s0 ⟨fourTasks (bootTask s0 .runnable) (userTask 1 0x116000 p₁ .runnable .user)
      (userTask 1 s0.kernelPageDirectory p₂ .zombie .start)
      (userTask 2 s0.kernelPageDirectory p₃ .running .start), 3, 3,
      threeRecords .zero (.spawned 2 1 0 d₂ [0x2f, 0x61]) (.spawned 3 2 0 d₃ [0x2f, 0x61]),
      4⟩ 31 k₃ := h₃.tables (fun i => by fin_cases i <;> rfl) rfl rfl rfl rfl
  obtain ⟨bs₃, hb₃⟩ := h₃.backed
  have halloc := hs.alloc_stale hb₃.mm hfreed
  -- the third process starts in its frame
  obtain ⟨k₄, g', t₄, h₄, -, hbytes⟩ := h₃.startProcess (n := 27) hs.archive rfl rfl
    (show (3 : Fin 16) ≠ 0 by decide) (rfl : _ = some (2 : Fin 16)) rfl
    (by rw [hsp₃, hsp₂]; exact (List.mem_erase_of_ne hne).mpr List.mem_cons_self)
    (fun m _ => by fin_cases m <;> rfl)
  rw [halloc] at h₄ hbytes
  have hcode : HoldsBytes k₃.mm.mem 0x5003C (le32 0x00116007) :=
    (reads_append.mp (reads_append.mp (hasProgram hb₃.mm hs.archive).code).1).1
  refine ⟨k₄, p₁, p₂, p₃, d₂, d₃, g', ((hl₁.took t₂).trans hl₃).took t₄,
    h₄.tables (fun i => by fin_cases i <;> rfl) rfl rfl (funext fun i => by fin_cases i <;> rfl)
      rfl, hne, hcode.congr fun x hx => hbytes x (by have : x < 4 := hx; omega)⟩

/-- A directory whose first word is an entry for its own frame, open to user code, gives it away. -/
theorem userPhys_self {m : Mem} {d : Nat} (hw : rd32 m d = d + 7) (hd : d % 4096 = 0)
    (hlt : d + 4096 ≤ 2 ^ 32) : userPhys m d 0 false = some d := by
  have hframe : entryFrame (d + 7) = d := by
    rw [entryFrame_eq (by omega)]
    omega
  have hdir : dirWord m d 0 = d + 7 := hw
  have hpte : pteWord m d 0 0 = d + 7 := by
    unfold pteWord
    rw [tableOf_of_word hdir (by omega), hframe]
    exact hw
  have hgrants : Grants (d + 7) false := ⟨by omega, by omega, nofun⟩
  unfold userPhys
  rw [show pdeIndex 0 = 0 from rfl, show pteIndex 0 = 0 from rfl, hdir, hpte,
    if_pos ⟨hgrants, hgrants⟩, hframe]
  rfl

end

/-- **A process reaches a page of another**: the code page of the third process is the directory of
    the first, and its first word maps the directory itself. -/
theorem processes_not_isolated : ∃ s0 ops k,
    Booted (smallMem selfArchive) smallImage smallInfo (smallPmm selfArchive) s0 ∧
    bootInit (smallMem selfArchive) smallInfo = .ok selfModule ∧
    KRun AnyStep (schedInit s0 selfModule 0 0) ops k ∧
    ¬ Isolated (smallPmm selfArchive) smallImage k := by
  obtain ⟨s0, hs⟩ := selfBooted
  obtain ⟨k, p₁, p₂, p₃, d₂, d₃, g, ⟨ops, hrun⟩, h, hne, hbytes⟩ := hs.reused
  refine ⟨s0, ops, k, hs.booted, hs.module, hrun.any, fun hiso => ?_⟩
  have htask : k.tasks 1 = userTask 1 0x116000 p₁ .runnable .user := by rw [h.ctl]; rfl
  have hphys := userPhys_self (hbytes.rd32_le32 (by decide)) (by decide) (by decide)
  have hlive : k.LiveSpace 0x116000 := by
    by_cases hk : 0x116000 = k.mm.kernelPageDirectory
    · exact .inl hk
    · exact .inr ⟨⟨by decide, hk⟩, .inl ⟨1, by rw [htask]; exact nofun, by rw [htask]; rfl⟩⟩
  obtain ⟨i, -, ha, hf, -⟩ := (hiso _ 0 0x116000 hlive (by decide) hphys).recorded
  have hps : k.processes = threeRecords .zero (.spawned 2 1 0 d₂ [0x2f, 0x61])
      { (UserProcess.spawned 3 2 0 d₃ [0x2f, 0x61]).loaded 8 0x116000 g with state := .running } := by
    rw [h.ctl]
  rw [hps] at ha hf
  unfold threeRecords at ha hf
  split_ifs at ha hf with h0 h1 h2
  · cases hf
  · cases hf
  · exact hne ha
  · cases hf

end Emyx
