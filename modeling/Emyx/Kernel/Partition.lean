/-
  File:      Emyx/Kernel/Partition.lean
  Subject:   WHAT EVERY FRAME IS FOR: the frames taken from the page allocator, divided among the
             kernel, the heap, the address spaces and the processes.

  * `FrameUse`, `Kernel.Uses` -- the uses a frame can have, read off the tables of the kernel;
  * `FramesPartitioned` -- each frame taken has one use, each frame in use is taken, no directory
    was destroyed twice, and with every record free and no zombie left only the kernel's frames
    and the heap's remain;
  * **`frames_partitioned`** -- so it is in every run in which each task that is created gets an id
    not in use;
  * `frames_not_partitioned` -- and not when `next_task_id` has come round: a process that runs
    loses its directory.
-/
import Emyx.Kernel.Wrap

namespace Emyx

open Lib

/-! ## 1. The uses of a frame -/

/-- A task or a process record has the address space `d`, which is not the kernel's. -/
def Kernel.Refers (k : Kernel) (d : Nat) : Prop :=
  (d ≠ 0 ∧ d ≠ k.mm.kernelPageDirectory) ∧
    ((∃ t, (k.tasks t).state ≠ .unused ∧ (k.tasks t).addressSpace = d) ∨
      ∃ i, (k.processes i).state ≠ .free ∧ (k.processes i).addressSpace = d)

inductive FrameUse where
  | kernelDirectory
  /-- the table behind entry `i` of the kernel's directory -/
  | kernelTable (i : Fin 1024)
  | heapPage
  /-- an address space's directory -/
  | directory (d : Nat)
  /-- the table behind entry `i` of its user half -/
  | table (d : Nat) (i : Fin 768)
  /-- `pages[n]` of the record `i` -/
  | userPage (i : Fin 16) (n : Nat)

/-- The frame `f` has this use. -/
def Kernel.Uses (k : Kernel) (f : Nat) : FrameUse → Prop
  | .kernelDirectory => f = k.mm.kernelPageDirectory
  | .kernelTable i => tableOf k.mm.mem k.mm.kernelPageDirectory i = some f
  | .heapPage => f ∈ k.mm.heapPages
  | .directory d => k.Refers d ∧ f = d
  | .table d i => k.Refers d ∧ tableOf k.mm.mem d i = some f
  | .userPage i n => k.Refers (k.processes i).addressSpace ∧ (k.processes i).frames[n]? = some f

/-- **The frames taken since `pmm_init` are divided among the uses.** -/
structure FramesPartitioned (p0 : Pmm) (k : Kernel) : Prop where
  taken : ∀ f, Allocated p0 k.mm.pmm f ↔ ∃ u, k.Uses f u
  once : ∀ f u u', k.Uses f u → k.Uses f u' → u = u'
  destroys : k.mm.strayDestroys = 0
  idle : (∀ i, (k.processes i).state = .free) → (∀ t, (k.tasks t).state ≠ .zombie) → ∀ f,
    Allocated p0 k.mm.pmm f ↔
      k.Uses f .kernelDirectory ∨ (∃ i, k.Uses f (.kernelTable i)) ∨ k.Uses f .heapPage

/-! ## 2. Uses are roles -/

section

variable {p0 : Pmm} {s0 : Mm} {k : Kernel} {bs : List Blk} {f d : Nat}

/-- The address spaces in use are those the tables name. -/
theorem KernelInv.refers_iff (h : KernelInv p0 s0 k) : k.Refers d ↔ d ∈ k.mm.spaces := by
  obtain ⟨bs, ho⟩ := h.owned
  constructor
  · rintro ⟨⟨h0, hk⟩, ⟨t, hu, rfl⟩ | ⟨i, hi, rfl⟩⟩
    · exact ho.spaces.mem (r := .inl t) (if_pos ⟨hu, hk⟩)
    · cases hs : (k.processes i).state with
      | free => exact absurd hs hi
      | created => exact ho.spaces.mem (r := .inr i) (if_pos hs)
      | running =>
        obtain ⟨t, ht, ha, -⟩ := ho.held.running i hs
        rw [← ha] at hk ⊢
        exact ho.spaces.mem (r := .inl t) (if_pos ⟨ht.live.used, hk⟩)
      | exited => exact absurd (ho.held.exited i hs) h0
  · intro hd
    refine ⟨⟨ho.mm.space_pos hd, ho.mm.space_ne_kernel hd⟩, ?_⟩
    obtain ⟨r | r, hr⟩ := (ho.spaces.taken d).mp hd
    · obtain ⟨hu, e⟩ := Option.ite_none_right_eq_some.mp hr
      exact .inl ⟨r, hu.1, Option.some.inj e⟩
    · obtain ⟨hc, e⟩ := Option.ite_none_right_eq_some.mp hr
      exact .inr ⟨r, by rw [hc]; decide, Option.some.inj e⟩

/-- The role that goes with a use. -/
def FrameUse.role (kd f : Nat) : FrameUse → Role Client
  | .kernelDirectory => .dir kd
  | .kernelTable i => .table kd i
  | .heapPage => .client (.heap f)
  | .directory d => .dir d
  | .table d i => .table d i
  | .userPage i _ => .client (.page i f)

theorem KernelInv.uses_role (h : KernelInv p0 s0 k) {u : FrameUse} (hu : k.Uses f u) :
    frameOf k.mm (heldBy k.mm.heapPages k.processes) (u.role k.mm.kernelPageDirectory f) =
      some f := by
  obtain ⟨bs, ho⟩ := h.owned
  cases u with
  | kernelDirectory => exact frameOf_dir_some.mpr ⟨isDir_kernel k.mm, hu⟩
  | kernelTable i =>
    have hi : i < ownEntries k.mm k.mm.kernelPageDirectory := by
      rw [ownEntries_kernel]
      exact i.isLt
    exact (frameOf_table (isDir_kernel k.mm) hi).trans hu
  | heapPage => exact frameOf_heap hu
  | directory d => exact frameOf_dir_some.mpr ⟨.inr (h.refers_iff.mp hu.1), hu.2⟩
  | table d i =>
    have hd := h.refers_iff.mp hu.1
    have hi : i < ownEntries k.mm d := by
      rw [ownEntries, if_neg (ho.mm.space_ne_kernel hd)]
      exact i.isLt
    exact (frameOf_table (.inr hd) hi).trans hu.2
  | userPage i n => exact frameOf_page (List.mem_of_getElem? hu.2)

theorem KernelInv.role_used (h : KernelInv p0 s0 k) {r : Role Client}
    (hr : frameOf k.mm (heldBy k.mm.heapPages k.processes) r = some f) : ∃ u, k.Uses f u := by
  obtain ⟨bs, ho⟩ := h.owned
  cases r with
  | dir d =>
    obtain ⟨rfl | hd, rfl⟩ := frameOf_dir_some.mp hr
    · exact ⟨.kernelDirectory, rfl⟩
    · exact ⟨.directory f, h.refers_iff.mpr hd, rfl⟩
  | table d i =>
    obtain ⟨⟨hd, hi⟩, ht⟩ := Option.ite_none_right_eq_some.mp hr
    rcases hd with rfl | hd
    · rw [ownEntries_kernel] at hi
      exact ⟨.kernelTable ⟨i, hi⟩, ht⟩
    · rw [ownEntries, if_neg (ho.mm.space_ne_kernel hd)] at hi
      exact ⟨.table d ⟨i, hi⟩, h.refers_iff.mpr hd, ht⟩
  | client c =>
    obtain ⟨-, hf⟩ | ⟨i, -, hf⟩ := heldBy_some hr
    · exact ⟨.heapPage, hf⟩
    · obtain ⟨n, hn⟩ := List.getElem?_of_mem hf
      have hne : (k.processes i).pages ≠ [] := fun e => by
        rw [UserProcess.frames, e] at hf
        cases hf
      exact ⟨.userPage i n, h.refers_iff.mpr ((ho.mm.pages i).space hne), hn⟩

/-- A frame has one use: two uses with one role are the same. -/
theorem KernelInv.uses_once (h : KernelInv p0 s0 k) {u u' : FrameUse} (hu : k.Uses f u)
    (hu' : k.Uses f u') : u = u' := by
  obtain ⟨bs, ho⟩ := h.owned
  have hrole := ho.mm.vm.own.inj (h.uses_role hu) (h.uses_role hu')
  cases u <;> cases u' <;> simp only [FrameUse.role, Role.dir.injEq, Role.table.injEq,
    Role.client.injEq, Client.page.injEq, reduceCtorEq] at hrole
  case kernelDirectory.kernelDirectory => rfl
  case kernelDirectory.directory => exact absurd hrole.symm hu'.1.1.2
  case directory.kernelDirectory => exact absurd hrole hu.1.1.2
  case directory.directory => rw [hrole]
  case kernelTable.kernelTable => rw [Fin.ext hrole.2]
  case kernelTable.table => exact absurd hrole.1.symm hu'.1.1.2
  case table.kernelTable => exact absurd hrole.1 hu.1.1.2
  case table.table => rw [hrole.1, Fin.ext hrole.2]
  case heapPage.heapPage => rfl
  case userPage.userPage i n j n' =>
    obtain ⟨rfl, -⟩ := hrole
    obtain ⟨hn, e⟩ := List.getElem?_eq_some_iff.mp hu.2
    obtain ⟨hn', e'⟩ := List.getElem?_eq_some_iff.mp hu'.2
    rw [(ho.mm.pages i).frames.getElem_inj_iff.mp (e.trans e'.symm)]

/-- With every record free and no zombie left, every task is on the kernel's directory. -/
theorem KernelInv.refers_idle (h : KernelInv p0 s0 k) (hfree : ∀ i, (k.processes i).state = .free)
    (hz : ∀ t, (k.tasks t).state ≠ .zombie) : ¬ k.Refers d := by
  obtain ⟨bs, ho⟩ := h.owned
  rintro ⟨⟨-, hk⟩, ⟨t, hu, rfl⟩ | ⟨i, hi, -⟩⟩
  · have hlive : (k.tasks t).Live := by
      cases hs : (k.tasks t).state with
      | unused => exact absurd hs hu
      | runnable => exact .inl hs
      | running => exact .inr hs
      | zombie => exact absurd hs (hz t)
    refine hk (ho.held.kernel t hlive fun huser => ?_)
    obtain ⟨i, hi, -⟩ := h.inv.user t hlive huser
    cases (hfree i).symm.trans hi
  · exact hi (hfree i)

theorem KernelInv.partitioned (h : KernelInv p0 s0 k) : FramesPartitioned p0 k := by
  obtain ⟨bs, ho⟩ := h.owned
  have htaken : ∀ f, Allocated p0 k.mm.pmm f ↔ ∃ u, k.Uses f u := fun f => by
    rw [ho.mm.vm.own.taken f]
    exact ⟨fun ⟨r, hr⟩ => h.role_used hr, fun ⟨u, hu⟩ => ⟨_, h.uses_role hu⟩⟩
  refine ⟨htaken, fun f u u' hu hu' => h.uses_once hu hu', ho.mm.stray, fun hfree hz f => ?_⟩
  have hno : ∀ d, ¬ k.Refers d := fun d => h.refers_idle hfree hz
  rw [htaken]
  constructor
  · intro ⟨u, hu⟩
    cases u with
    | kernelDirectory => exact .inl hu
    | kernelTable i => exact .inr (.inl ⟨i, hu⟩)
    | heapPage => exact .inr (.inr hu)
    | directory d => exact absurd hu.1 (hno d)
    | table d i => exact absurd hu.1 (hno d)
    | userPage i n => exact absurd hu.1 (hno _)
  · intro hf
    rcases hf with hf | ⟨i, hf⟩ | hf
    · exact ⟨_, hf⟩
    · exact ⟨_, hf⟩
    · exact ⟨_, hf⟩

end

/-! ## 3. Runs -/

/-- **Every frame has one use**, in every state of a run in which ids stay fresh. -/
theorem frames_partitioned {m : Mem} {img : KernelImage} {mbi : MultibootInfo} {p0 : Pmm} {s0 : Mm}
    {k : Kernel} {bm : BootModule} {tr esp0 : Nat} {ops : List Op} (hb : Booted m img mbi p0 s0)
    (h : KRun FreshSteps (schedInit s0 bm tr esp0) ops k) : FramesPartitioned p0 k :=
  (h.kernelInv hb).partitioned

/-- After the first spawn. -/
theorem frames_partitioned_spawned : ∃ s0 k,
    Booted (smallMem selfArchive) smallImage smallInfo (smallPmm selfArchive) s0 ∧
    KRun FreshSteps (schedInit s0 selfModule 0 0) [.spawn (some [0x2f, 0x61])] k ∧
    0x116000 ∈ k.mm.spaces ∧ FramesPartitioned (smallPmm selfArchive) k := by
  obtain ⟨s0, hs⟩ := selfBooted
  obtain ⟨k, p, hrun, -, -, hsp, -⟩ := hs.spawned
  exact ⟨s0, k, hs.booted, hrun, hsp, frames_partitioned hs.booted hrun⟩

/-- **A directory in use is free**: the process in slot 1 runs on the frame `0x116000`, which the
    younger process with the same task id has given back. -/
theorem frames_not_partitioned : ∃ s0 ops k,
    Booted (smallMem selfArchive) smallImage smallInfo (smallPmm selfArchive) s0 ∧
    bootInit (smallMem selfArchive) smallInfo = .ok selfModule ∧
    KRun AnyStep (schedInit s0 selfModule 0 0) ops k ∧
    ¬ FramesPartitioned (smallPmm selfArchive) k := by
  obtain ⟨s0, hs⟩ := selfBooted
  obtain ⟨k, p₁, p₂, d₂, ⟨ops, hrun⟩, h, -, hnot⟩ := hs.destroyed
  refine ⟨s0, ops, k, hs.booted, hs.module, hrun.any, fun hp => hnot ?_⟩
  obtain ⟨bs, hbk⟩ := h.backed
  have htask : k.tasks 1 = userTask 1 0x116000 p₁ .runnable .user := by rw [h.ctl]; rfl
  have hkd : 0x116000 ≠ k.mm.kernelPageDirectory := fun e =>
    hnot (e ▸ hbk.mm.vm.own.mem (frameOf_dir (isDir_kernel k.mm)))
  have hrefers : k.Refers 0x116000 :=
    ⟨⟨by decide, hkd⟩, .inl ⟨1, by rw [htask]; exact nofun, by rw [htask]; rfl⟩⟩
  exact (hp.taken _).mpr ⟨.directory 0x116000, hrefers, rfl⟩

end Emyx
