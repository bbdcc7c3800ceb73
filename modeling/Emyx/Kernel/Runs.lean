/-
  File:      Emyx/Kernel/Runs.lean
  Subject:   RUNS OF THE KERNEL FROM BOOT: tables and memory agree in every state.

  * `owned_boot` -- after `vmm_init` and `sched_init` they do;
  * `KernelInv` -- the tables, memory and the processor together;
  * **`KRun.kernelInv`** -- in every run in which each task that is created gets an id not in use;
  * `KRun.kernelInv_counters` -- so in every run whose counters have not passed 2³¹ - 1.
-/
import Emyx.Kernel.ProcessTable
import Emyx.Kernel.Processes

namespace Emyx

open Lib

variable {m : Mem} {img : KernelImage} {mbi : MultibootInfo} {p0 : Pmm} {s0 : Mm} {k k' : Kernel}

/-- The kernel half `vmm_init` builds is closed to user code. -/
theorem Booted.halfClosed (hb : Booted m img mbi p0 s0) : HalfClosed s0 := fun i h1 h2 hodd => by
  by_cases hi : i < 772
  · obtain ⟨t, hw, ht, -⟩ := vmmInit_words hb.low hb.vmmInit h1 hi
    have hal := tableOf_aligned ht
    rw [hw]
    omega
  · have hnone := (@vmmInit_spec Unit _ hb.low _ _ hb.vmmInit).2.2.2.2.2 i h2 fun hc => hi hc.2
    exact absurd hodd (tableOf_none hnone)

/-- The user half of the kernel's directory is empty. -/
theorem Booted.lowHalf (hb : Booted m img mbi p0 s0) {i : Nat} (hi : i < 768) :
    tableOf s0.mem s0.kernelPageDirectory i = none :=
  (@vmmInit_spec Unit _ hb.low _ _ hb.vmmInit).2.2.2.2.2 i (by omega) fun hc => by omega

/-- The frames `vmm_init` takes are the kernel's directory and its tables, and stay taken. -/
theorem Booted.frames_kept (hb : Booted m img mbi p0 s0) {ps : Fin 16 → UserProcess} {bs : List Blk}
    {s : Mm} (h : MmInv p0 s0 ps bs s) {f : Nat} (hf : Allocated p0 s0.pmm f) :
    Allocated p0 s.pmm f := by
  obtain ⟨hv, hsp, -⟩ := vmmInit_spec (κ := Client) hb.low hb.vmmInit
  obtain ⟨r, hr⟩ := (hv.own.taken f).mp hf
  cases r with
  | dir d =>
    obtain ⟨rfl | hd, rfl⟩ := frameOf_dir_some.mp hr
    · rw [← h.kernel]
      exact h.vm.own.mem (frameOf_dir (isDir_kernel s))
    · rw [hsp] at hd
      cases hd
  | table d i =>
    obtain ⟨⟨rfl | hd, hi⟩, ht⟩ := Option.ite_none_right_eq_some.mp hr
    · rw [ownEntries_kernel] at hi
      have hi' : i < ownEntries s s.kernelPageDirectory := by rwa [ownEntries_kernel]
      refine h.vm.own.mem ((frameOf_table (isDir_kernel s) hi').trans ?_)
      rw [h.kernel, tableOf_congr (h.kernelWords i hi)]
      exact ht
    · rw [hsp] at hd
      cases hd
  | client c => cases hr

/-- What a reserved page holds is no frame's. -/
theorem outside_of_set {x : Nat} (h : p0.isSet (x / 4096)) : Outside p0 x := by
  rintro p f ⟨page, rfl, -, -, -, -, hclear⟩ hin
  refine hclear ?_
  unfold InPage at hin
  rwa [show page = x / 4096 by omega]

/-- `vmm_init` writes in the frames it takes only. -/
theorem vmmInit_outside (hb : Booted m img mbi p0 s0) : AgreeOn (Outside p0) m s0.mem := by
  have hlow := hb.low
  have e := hb.vmmInit
  have hskip : ∀ {m' : Mem} {f : Nat} {p : Pmm} {g : Nat → Byte} {a n : Nat}, Allocated p0 p f →
      f ≤ a → a + n ≤ f + 4096 → AgreeOn (Outside p0) m' (put m' a n g) :=
    fun {m' f p g a n} hf h1 h2 x hx => put_outside (by
      have := hx p f hf
      unfold InPage at this
      omega)
  unfold vmmInit at e
  rw [if_neg (by decide), if_neg (by decide)] at e
  rcases fresh_alloc (PmmOk.refl p0) (addressable_of_maxPage hlow) with
    e0 | ⟨kd, p', e0, hpos, hf⟩
  · rw [e0] at e
    cases e
  rw [e0] at e
  simp only at e
  rw [if_neg (by omega)] at e
  split at e
  · cases e
  obtain ⟨st, e1, e2⟩ := bind_ok.mp e
  cases e2
  have hkd : Allocated p0 p' kd := (hf.taken kd).mpr (.inl rfl)
  have hclear : AgreeOn (Outside p0) m (memset m kd 0 4096) :=
    hskip hkd (Nat.le_refl _) (Nat.le_refl _)
  refine (foldlM_ok (I := fun st => PmmOk p0 st.2 ∧ AgreeOn (Outside p0) m st.1)
    (fun st i st' hi hst h => ?_) ⟨hf.ok, hclear⟩ e1).2
  obtain ⟨hok, hag⟩ := hst
  have hi := List.mem_range.mp hi
  unfold initTable at h
  rcases fresh_alloc hok (addressable_of_maxPage (hok.maxPage.symm ▸ hlow)) with
    e0 | ⟨t, q, e0, hpos', ht⟩
  · rw [e0] at h
    cases h
  rw [e0] at h
  simp only at h
  rw [if_neg (by omega)] at h
  split at h
  · cases h
  cases h
  have htal : Allocated p0 q t := (ht.taken t).mpr (.inl rfl)
  -- cleared, filled, and put into the directory
  have h1 : AgreeOn (Outside p0) st.1 (memset st.1 t 0 4096) :=
    hskip htal (Nat.le_refl _) (Nat.le_refl _)
  have h2 : AgreeOn (Outside p0) (memset st.1 t 0 4096) (fillWords (memset st.1 t 0 4096) t 1024
      fun j => (i * (1024 * 4096) + j * 4096) ||| 0x3) := hskip htal (Nat.le_refl _) (Nat.le_refl _)
  exact ⟨ht.ok, ((hag.trans h1).trans h2).trans (hskip hkd (by omega) (by omega))⟩

/-- Slot 0 is the only one in use after `sched_init`. -/
theorem schedInit_unused (mm : Mm) (bm : BootModule) (tr esp0 : Nat) {t : Fin 16} (ht : t ≠ 0) :
    (schedInit mm bm tr esp0).tasks t = Task.empty := if_neg ht

theorem schedInit_freshId (mm : Mm) (bm : BootModule) (tr esp0 : Nat) :
    (schedInit mm bm tr esp0).toCtl.FreshId := by
  refine ⟨fun t ht => ?_, fun i hi => absurd rfl hi⟩
  have h0 : t = 0 := by
    by_contra h0
    rw [schedInit_unused mm bm tr esp0 h0] at ht
    exact ht rfl
  rw [h0]
  exact Nat.zero_ne_one

/-- **The state the kernel starts in.** -/
theorem owned_boot (hb : Booted m img mbi p0 s0) (bm : BootModule) (tr esp0 : Nat) :
    Owned p0 s0 (schedInit s0 bm tr esp0).toCtl [] s0 := by
  obtain ⟨h, hsp, hl, hp, hstray, -⟩ := vmmInit_spec (κ := Client) hb.low hb.vmmInit
  have hheld : heldBy s0.heapPages (fun _ => UserProcess.zero) = noneHeld := by
    funext c
    cases c with
    | heap f =>
      refine if_neg fun hf => ?_
      rw [hp] at hf
      cases hf
    | page i f => simp [heldBy, noneHeld, UserProcess.frames, UserProcess.zero]
  have hempty := @schedInit_unused s0 bm tr esp0
  have hused : ∀ t, ((schedInit s0 bm tr esp0).tasks t).state ≠ .unused → t = 0 := fun t ht => by
    by_contra h0
    rw [hempty h0] at ht
    exact ht rfl
  refine ⟨?_, ?_, ?_, ?_⟩
  · exact
      { vm := show VmInv p0 (heldBy s0.heapPages fun _ => UserProcess.zero) s0 by rw [hheld]; exact h
        heap := ⟨⟨by rw [hp]; exact nofun, .nil, nofun, nofun⟩, hl⟩
        stray := hstray
        kernel := rfl
        kernelWords := fun _ _ => rfl
        halfWords := fun d hd => by rw [hsp] at hd; cases hd
        outside := .refl _ _
        maps := fun d hd => by rw [hsp] at hd; cases hd
        pages := fun i => ⟨List.nodup_nil, nofun, fun hne => absurd rfl hne⟩ }
  · have hnone : ∀ t, stackOf (schedInit s0 bm tr esp0).tasks t = none := fun t =>
      if_neg fun ht => ht.1 (hused t ht.2)
    refine ⟨⟨fun {t t' f} ht => ?_, fun f => iff_of_false List.not_mem_nil ?_⟩, nofun⟩
    · rw [hnone] at ht
      cases ht
    · rintro ⟨t, ht⟩
      rw [hnone] at ht
      cases ht
  · have hnone : ∀ r, spaceOf s0.kernelPageDirectory (schedInit s0 bm tr esp0).toCtl r = none :=
      fun r => by
        cases r with
        | inl t =>
          refine if_neg fun ht => ht.2 ?_
          rw [hused t ht.1]
          rfl
        | inr i => rfl
    refine ⟨fun {r r' f} hr => ?_, fun f => iff_of_false ?_ ?_⟩
    · rw [hnone] at hr
      cases hr
    · rw [hsp]
      exact List.not_mem_nil
    · rintro ⟨r, hr⟩
      rw [hnone] at hr
      cases hr
  · exact
      { zero := rfl
        pages := fun i hne => absurd rfl hne
        running := fun i hi => by cases hi
        exited := fun i hi => by cases hi
        kernel := fun t ht _ => by
          rw [hused t ht.used]
          rfl }

/-- Tables, memory and processor, between two steps. -/
structure KernelInv (p0 : Pmm) (s0 : Mm) (k : Kernel) : Prop where
  owned : ∃ bs, Owned p0 s0 k.toCtl bs k.mm
  inv : k.toCtl.Inv
  runs : k.toCtl.Runs
  cpu : k.OnCpu

/-- **One step.** -/
theorem KernelInv.exec (h : KernelInv p0 s0 k) (hc : HalfClosed s0) {op : Op} {r : Option Int}
    (hf : op.creates = true → k.toCtl.FreshId) (hop : op.Legal k.toCtl)
    (e : k.exec op = .ok (r, k')) : KernelInv p0 s0 k' := by
  obtain ⟨bs, ho⟩ := h.owned
  obtain ⟨bs', ho', hcpu⟩ := ho.exec hc h.inv h.runs h.cpu hop e
  obtain ⟨hinv, hruns⟩ := (exec_ctl hop e).inv h.inv h.runs hop hf
  exact ⟨⟨bs', ho'⟩, hinv, hruns, hcpu⟩

theorem kernelInv_boot (hb : Booted m img mbi p0 s0) (bm : BootModule) (tr esp0 : Nat) :
    KernelInv p0 s0 (schedInit s0 bm tr esp0) :=
  ⟨⟨[], owned_boot hb bm tr esp0⟩, (schedInit_inv s0 bm tr esp0).1, (schedInit_inv s0 bm tr esp0).2,
    rfl, fun hs => absurd rfl hs⟩

/-- Each task that is created gets an id not in use. -/
def FreshSteps (k : Kernel) (op : Op) (_ : Kernel) : Prop := op.creates = true → k.toCtl.FreshId

/-- **Runs in which ids stay fresh keep the invariant.** -/
theorem KRun.kernelInv (hb : Booted m img mbi p0 s0) {bm : BootModule} {tr esp0 : Nat}
    {ops : List Op} (h : KRun FreshSteps (schedInit s0 bm tr esp0) ops k) : KernelInv p0 s0 k := by
  induction h with
  | boot => exact kernelInv_boot hb bm tr esp0
  | step _ hop hC e ih => exact ih.exec hb.halfClosed hC hop e

/-- While the counters have not passed 2³¹ - 1 ids stay fresh. -/
theorem KRun.freshSteps {bm : BootModule} {tr esp0 : Nat} {ops : List Op}
    (h : KRun (CountersUpTo (2 ^ 31 - 1)) (schedInit s0 bm tr esp0) ops k) :
    KRun FreshSteps (schedInit s0 bm tr esp0) ops k := by
  induction h with
  | boot => exact .boot
  | step hr hop _ e ih => exact .step ih hop (fun _ => hr.sound.1.pids.fresh) e

/-- **So do runs whose counters have not passed 2³¹ - 1.** -/
theorem KRun.kernelInv_counters (hb : Booted m img mbi p0 s0) {bm : BootModule} {tr esp0 : Nat}
    {ops : List Op} (h : KRun (CountersUpTo (2 ^ 31 - 1)) (schedInit s0 bm tr esp0) ops k) :
    KernelInv p0 s0 k := h.freshSteps.kernelInv hb

end Emyx
