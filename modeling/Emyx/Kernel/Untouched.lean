/-
  File:      Emyx/Kernel/Untouched.lean
  Subject:   WHAT A STEP OF THE KERNEL LEAVES ALONE: the address spaces of the processes it is not
             about, and the bytes of their pages.

  `MmInv` says who holds which frame; the lemmas here say that a function writes only to the frames
  of the heap, to a frame it has just taken, and to the tables of the one directory it is given.

  * `SameSpace` -- the user half of a directory and some pages are the same in two memories;
  * `Kernel.LeavesSpaces` -- every address space that is still there is as it was;
    `Owned.reap_leaves`, `Owned.create_leaves`, `Owned.yield_leaves`, `Owned.exit_leaves`;
  * `Kernel.LeavesOthers` -- every address space but that of one record is;
    `MmInv.prepareExec_leaves`, `MmInv.freeAll_leaves`.
-/
import Emyx.Kernel.Load

namespace Emyx

open Lib

/-! ## 1. One address space in two memories -/

/-- The user half of the directory `d` and the pages `fs` are the same in both memories. -/
structure SameSpace (d : Nat) (fs : List Nat) (m m' : Mem) : Prop where
  dir : ∀ i, i < 768 → dirWord m' d i = dirWord m d i
  pte : ∀ i j, i < 768 → j < 1024 → pteWord m' d i j = pteWord m d i j
  pages : ∀ f ∈ fs, SamePage m m' f

section

variable {d : Nat} {fs : List Nat} {m m' m'' : Mem}

theorem SameSpace.refl (d : Nat) (fs : List Nat) (m : Mem) : SameSpace d fs m m :=
  ⟨fun _ _ => rfl, fun _ _ _ _ => rfl, fun f _ => .refl m f⟩

theorem SameSpace.symm (h : SameSpace d fs m m') : SameSpace d fs m' m :=
  ⟨fun i hi => (h.dir i hi).symm, fun i j hi hj => (h.pte i j hi hj).symm,
    fun f hf x hx => (h.pages f hf x hx).symm⟩

theorem SameSpace.trans (h : SameSpace d fs m m') (h' : SameSpace d fs m' m'') :
    SameSpace d fs m m'' :=
  ⟨fun i hi => (h'.dir i hi).trans (h.dir i hi),
    fun i j hi hj => (h'.pte i j hi hj).trans (h.pte i j hi hj),
    fun f hf => (h.pages f hf).trans (h'.pages f hf)⟩

theorem SameSpace.userHalf {w : Nat} {pte : Nat → Nat} (h : SameSpace d fs m m')
    (hu : UserHalf m d w pte) : UserHalf m' d w pte where
  dir i hi := (h.dir i hi).trans (hu.dir i hi)
  pte j hj := (h.pte 1 j (by decide) hj).trans (hu.pte j hj)

end

/-! ## 2. Writes -/

section

variable {p0 : Pmm} {s0 s : Mm} {ps : Fin 16 → UserProcess} {bs : List Blk} {m' : Mem} {d : Nat}

/-- A change off the frames in use. -/
theorem MmInv.sameSpace_roles (h : MmInv p0 s0 ps bs s) (hd : d ∈ s.spaces) (n : Fin 16)
    (hm : ∀ (r : Role Client) g, frameOf s (heldBy s.heapPages ps) r = some g →
      SamePage s.mem m' g) : SameSpace d (ps n).frames s.mem m' := by
  obtain ⟨hdir, hpte⟩ := h.vm.words_same (sameTables_of_roles hm)
  exact ⟨fun i hi => hdir d i (.inr hd) (by omega),
    fun i j hi hj => hpte d i j (.inr hd) (by omega) hj, fun f hf => hm _ f (frameOf_page hf)⟩

/-- A change to the pages of the heap. -/
theorem MmInv.sameSpace_heap (h : MmInv p0 s0 ps bs s) (hd : d ∈ s.spaces) (n : Fin 16)
    (hm : AgreeOn (fun x => ¬ InPages s.heapPages x) s.mem m') :
    SameSpace d (ps n).frames s.mem m' := by
  obtain ⟨htab, -⟩ := h.vm.clients_write fun x hx => hm x (not_inPages hx)
  obtain ⟨hdir, hpte⟩ := h.vm.words_same htab
  refine ⟨fun i hi => hdir d i (.inr hd) (by omega),
    fun i j hi hj => hpte d i j (.inr hd) (by omega) hj, fun f hf x hx => hm x ?_⟩
  intro hin
  obtain ⟨g, hg, hgx⟩ := inPages_iff.mp hin
  have hpage := frameOf_page (s := s) hf
  have hheap : frameOf s (heldBy s.heapPages ps) (.client (.heap g)) = some g := frameOf_heap hg
  have hne : g ≠ f := h.vm.frame_ne hheap hpage (by simp)
  exact not_inPage (h.vm.aligned hheap) (h.vm.aligned hpage) hne hx hgx

/-- A page is unmapped from another directory. -/
theorem MmInv.sameSpace_unmapped (h : MmInv p0 s0 ps bs s) {i : Fin 16} {a j t : Nat}
    (hi : (ps i).addressSpace ∈ s.spaces) (ha : a < 768)
    (ht : tableOf s.mem (ps i).addressSpace a = some t)
    (hun : Unmapped (heldBy s.heapPages ps) s m' t j) (hd : d ∈ s.spaces)
    (hne : d ≠ (ps i).addressSpace) (n : Fin 16) : SameSpace d (ps n).frames s.mem m' := by
  have hown : ∀ d' b, b < 768 → b < ownEntries s d' := fun d' b hb =>
    Nat.lt_of_lt_of_le hb (ownEntries_le s d').1
  refine ⟨fun b hb => hun.dirs d b (.inr hd) (by omega), fun b j' hb hj => ?_,
    fun f hf => hun.clients (.page n f) f (if_pos hf)⟩
  rw [hun.pte d b j' (.inr hd) (by omega) hj, if_neg]
  rintro ⟨ht', -⟩
  -- a table belongs to one directory
  have hrole : frameOf s (heldBy s.heapPages ps) (.table d b) = some t :=
    (frameOf_table (.inr hd) (hown d b hb)).trans ht'
  have hrole' : frameOf s (heldBy s.heapPages ps) (.table (ps i).addressSpace a) = some t :=
    (frameOf_table (.inr hi) (hown _ a ha)).trans ht
  cases h.vm.own.inj hrole hrole'
  exact hne rfl

end

/-! ## 3. Steps that are about no process -/

section

variable {p0 : Pmm} {s0 : Mm} {bs : List Blk} {k k' k'' : Kernel}

/-- Every address space that is still there is as it was, and so are the pages of the records. -/
structure Kernel.LeavesSpaces (k k' : Kernel) : Prop where
  fewer : ∀ d ∈ k'.mm.spaces, d ∈ k.mm.spaces
  same : ∀ d n, d ∈ k'.mm.spaces → SameSpace d (k.processes n).frames k.mm.mem k'.mm.mem

theorem Kernel.LeavesSpaces.refl (k : Kernel) : k.LeavesSpaces k :=
  ⟨fun _ hd => hd, fun d _ _ => .refl d _ _⟩

theorem Kernel.LeavesSpaces.trans (h : k.LeavesSpaces k') (hps : k'.processes = k.processes)
    (h' : k'.LeavesSpaces k'') : k.LeavesSpaces k'' :=
  ⟨fun d hd => h.fewer d (h'.fewer d hd), fun d n hd => by
    have hrest := h'.same d n hd
    rw [hps] at hrest
    exact (h.same d n (h'.fewer d hd)).trans hrest⟩

/-- `task_cleanup` of a zombie. -/
theorem Owned.cleanup_leaves (h : Owned p0 s0 k.toCtl bs k.mm) {i : Fin 16} (hi : i ≠ 0)
    (hz : (k.tasks i).state = .zombie) :
    ∃ k' bs', taskCleanup k i = .ok k' ∧ Owned p0 s0 k'.toCtl bs' k'.mm ∧
      k'.processes = k.processes ∧ k.LeavesSpaces k' := by
  obtain ⟨s₁, e₁, hmm₁, hown₁⟩ := h.cleanup_space hz
  obtain ⟨m', bs', e₂, hrel⟩ := kfree_spec hmm₁.heap (h.owned.mem hi (by rw [hz]; decide))
  obtain ⟨e, h'⟩ := h.cleanup_stack hi hz e₁ hmm₁ hown₁ e₂ hrel
  -- destroying a directory gives frames back, and writes nothing
  have hdestroy : s₁.mem = k.mm.mem ∧ ∀ d ∈ s₁.spaces, d ∈ k.mm.spaces := by
    by_cases hk : (k.tasks i).addressSpace = k.mm.kernelPageDirectory
    · rw [if_neg fun hc => hc.2 hk] at e₁
      cases e₁
      exact ⟨rfl, fun _ hd => hd⟩
    · obtain ⟨hsp, halone⟩ := h.zombie_space hz hk
      obtain ⟨p', -, ed, -⟩ := h.mm.destroy hsp halone
      rw [if_pos ⟨h.mm.space_pos hsp, hk⟩, ed] at e₁
      cases e₁
      exact ⟨rfl, fun d hd => List.mem_of_mem_erase hd⟩
  refine ⟨_, bs', e, h', rfl, hdestroy.2, fun d n hd => ?_⟩
  have hsame := hmm₁.sameSpace_heap hd n hrel.heapOnly
  rw [hdestroy.1] at hsame
  exact hsame

/-- **`reap_zombies`.** -/
theorem Owned.reap_leaves (h : Owned p0 s0 k.toCtl bs k.mm) (e : reapZombies k = .ok k') :
    (∃ bs', Owned p0 s0 k'.toCtl bs' k'.mm) ∧ k'.processes = k.processes ∧ k.LeavesSpaces k' := by
  obtain ⟨k'', e', hI⟩ := reapZombies_returns
    (I := fun k' => (∃ bs', Owned p0 s0 k'.toCtl bs' k'.mm) ∧ k'.processes = k.processes ∧
      k.LeavesSpaces k')
    (fun k₁ i hk₁ hi _ hz => by
      obtain ⟨⟨bs₁, ho₁⟩, hps₁, hl₁⟩ := hk₁
      obtain ⟨k₂, bs₂, e₂, ho₂, hps₂, hl₂⟩ := ho₁.cleanup_leaves hi hz
      exact ⟨k₂, e₂, ⟨bs₂, ho₂⟩, hps₂.trans hps₁, hl₁.trans hps₁ hl₂⟩)
    ⟨⟨bs, h⟩, rfl, .refl k⟩
  cases e.symm.trans e'
  exact hI

/-- **`kthread_create`.** -/
theorem Owned.create_leaves (h : Owned p0 s0 k.toCtl bs k.mm) {entry : Entry} {r : Int}
    (e : kthreadCreate k (some entry) = .ok (r, k')) : k.LeavesSpaces k' := by
  obtain ⟨k₁, e₁, e⟩ := bind_ok.mp e
  obtain ⟨⟨bs₁, h₁⟩, hps₁, hl₁⟩ := h.reap_leaves e₁
  cases hj : k₁.freeSlot with
  | none =>
    rw [hj] at e
    cases e
    exact hl₁
  | some j =>
    rw [hj] at e
    obtain ⟨p, s', bs', e₂, hserved, hmm⟩ := h₁.mm.kmalloc 2048
    simp only [e₂, ok_bind] at e
    -- the heap may have taken a page: seen from afterwards, only its pages changed
    have hheap : ∀ d n, d ∈ s'.spaces →
        SameSpace d (k₁.processes n).frames k₁.mm.mem s'.mem := fun d n hd =>
      (hmm.sameSpace_heap hd n fun x hx => (hserved.heapOnly x hx).symm).symm
    have hsp : ∀ d ∈ s'.spaces, d ∈ k₁.mm.spaces := fun d hd => by
      rw [hserved.vm.2.1] at hd
      exact hd
    by_cases hp : p = 0
    · rw [if_pos hp] at e
      cases e
      exact hl₁.trans hps₁ ⟨hsp, hheap⟩
    · rw [if_neg hp] at e
      have hallocs := hserved.allocs
      rw [if_neg hp] at hallocs
      have ha := hallocs.symm.subset List.mem_cons_self
      obtain ⟨hlo, hhi⟩ := hserved.inv.alloc_bounds ha
      obtain ⟨m, em, hm⟩ := schedPrepareKthreadStack_ok s'.mem k₁.kthreadTrampoline hlo.le hhi
      simp only [em, ok_bind] at e
      cases e
      refine hl₁.trans hps₁ ⟨hsp, fun d n hd => (hheap d n hd).trans ?_⟩
      refine hmm.sameSpace_heap hd n fun x hx => hm x fun hin => hx ?_
      obtain ⟨b, hb, hr, hpay⟩ := mem_allocs.mp ha
      have hfit := hmm.heap.shape.fits b hb _ hr
      unfold Blk.payload Blk.ptr at hpay
      exact hmm.heap.shape.inside b hb x (by omega) (by omega)

/-- **`sched_yield`.** -/
theorem Owned.yield_leaves (h : Owned p0 s0 k.toCtl bs k.mm) {b : Bool}
    (e : schedYield k = .ok (b, k')) : k'.processes = k.processes ∧ k.LeavesSpaces k' := by
  obtain ⟨k₁, e₁, e⟩ := bind_ok.mp e
  obtain ⟨-, hps₁, hl₁⟩ := h.reap_leaves e₁
  cases hn : k₁.nextRunnable with
  | none =>
    rw [hn] at e
    cases e
    exact ⟨hps₁, hl₁.fewer, hl₁.same⟩
  | some idx =>
    rw [hn] at e
    cases e
    exact ⟨hps₁, hl₁.fewer, hl₁.same⟩

/-- **`kthread_exit`.** -/
theorem Owned.exit_leaves (h : Owned p0 s0 k.toCtl bs k.mm) (hr : k.toCtl.Runs)
    (hno : ∀ i, (k.processes i).state = .running →
      (k.processes i).taskId ≠ (k.tasks k.currentTask).id) (e : kthreadExit k = .ok k') :
    k'.processes = k.processes ∧ k.LeavesSpaces k' := by
  unfold kthreadExit at e
  split_ifs at e with h0
  obtain ⟨⟨b, k₁⟩, e₁, e⟩ := bind_ok.mp e
  obtain ⟨hps, hl⟩ := Owned.yield_leaves (k := { k with toCtl := k.zombify }) (h.zombify hr hno) e₁
  cases b with
  | false => cases e
  | true =>
    cases e
    exact ⟨hps, hl.fewer, hl.same⟩

end

/-! ## 4. Steps that are about one process -/

section

variable {p0 : Pmm} {s0 : Mm} {bs : List Blk} {k k' k'' : Kernel} {i : Fin 16}

/-- Every address space but that of record `i` is as it was. -/
def Kernel.LeavesOthers (k : Kernel) (i : Fin 16) (k' : Kernel) : Prop :=
  ∀ d n, n ≠ i → d ∈ k.mm.spaces → d ≠ (k.processes i).addressSpace →
    SameSpace d (k.processes n).frames k.mm.mem k'.mm.mem

theorem Kernel.LeavesOthers.trans (h : k.LeavesOthers i k') (hsp : k'.mm.spaces = k.mm.spaces)
    (hps : ∀ n, n ≠ i → k'.processes n = k.processes n)
    (ha : (k'.processes i).addressSpace = (k.processes i).addressSpace)
    (h' : k'.LeavesOthers i k'') : k.LeavesOthers i k'' := fun d n hn hd hne => by
  have hrest := h' d n hn (by rw [hsp]; exact hd) (by rw [ha]; exact hne)
  rw [hps n hn] at hrest
  exact (h d n hn hd hne).trans hrest

/-- A page is copied for record `i`. -/
theorem CopiedTo.leaves {v size flags f : Nat} {src : Option Nat}
    (h : MmInv p0 s0 k.processes bs k.mm) (h' : MmInv p0 s0 k'.processes bs k'.mm)
    (hsp : (k.processes i).addressSpace ∈ k.mm.spaces) (hv : v < 0xC0000000)
    (hc : CopiedTo p0 k k' i v src size flags f) : k.LeavesOthers i k' := fun d n hn hd hne => by
  obtain ⟨p', m', t, hf, hfill, hm, -⟩ := hc.mapped
  obtain ⟨-, hpte⟩ := h.vm.words_kept (h.vm.fresh_write hf.new hf.aligned hfill.other)
  have hi : pdeIndex v < 768 := by
    rw [pdeIndex_eq]
    omega
  have hsp' : k'.mm.spaces = k.mm.spaces := hc.spaces
  have hown : ∀ d' b, b < 768 → b < ownEntries k'.mm d' := fun d' b hb =>
    Nat.lt_of_lt_of_le hb (ownEntries_le k'.mm d').1
  refine ⟨fun b hb => hc.dirs h (.inr hd) (by omega) fun e => hne e.1, fun b j hb hj => ?_,
    fun g hg => hc.keeps h (c := .page n g) (if_pos hg)⟩
  rw [hm.pte d b j (.inr hd) (by omega) hj, if_neg]
  · exact hpte d b j (.inr hd) (by omega) hj
  rintro ⟨ht, -⟩
  have hrole : frameOf k'.mm (heldBy k'.mm.heapPages k'.processes) (.table d b) = some t :=
    (frameOf_table (.inr (hsp' ▸ hd)) (hown d b hb)).trans ht
  have hrole' : frameOf k'.mm (heldBy k'.mm.heapPages k'.processes)
      (.table (k.processes i).addressSpace (pdeIndex v)) = some t :=
    (frameOf_table (.inr (hsp' ▸ hsp)) (hown _ _ hi)).trans hm.table
  cases h'.vm.own.inj hrole hrole'
  exact hne rfl

/-- A page that could not be mapped was filled at most, and is free again. -/
theorem MmInv.notCopied_writes (h : MmInv p0 s0 k.processes bs k.mm) {v size flags : Nat}
    {src : Option Nat} (hsp : (k.processes i).addressSpace ∈ k.mm.spaces)
    (hal : v % 4096 = 0) (huser : v < 0xC0000000)
    (e : mapCopiedUserPage k i v src size flags = .ok (-1, k')) :
    k'.mm.mem = k.mm.mem ∨ ∃ f, ¬ Allocated p0 k.mm.pmm f ∧ f % 4096 = 0 ∧
      ∀ y, ¬ InPage f y → k'.mm.mem y = k.mm.mem y := by
  unfold mapCopiedUserPage at e
  dsimp only at e
  by_cases hlen : (k.processes i).pages.length ≥ 16
  · rw [if_pos hlen] at e
    cases e
    exact .inl rfl
  by_cases hsize : size > 4096
  · rw [if_neg hlen, if_pos hsize] at e
    cases e
    exact .inl rfl
  rw [if_neg hlen, if_neg hsize] at e
  rcases h.vm.allocPage_cases with ⟨-, ha⟩ | ⟨f, p', -, ha, hpos, hf, -⟩
  · rw [ha] at e
    cases e
    exact .inl rfl
  rw [ha] at e
  simp only at e
  rw [if_neg (by omega)] at e
  by_cases hlt : f < 0x1000000
  · have hfa := hf.aligned
    have hclear : DirectMap { k.mm with pmm := p' } := h.vm.direct
    rw [vmmPhysToVirt_of_lt hlt, if_neg (by omega), hclear.clearPage (by omega), ok_bind] at e
    obtain ⟨s₁, e₁, e⟩ := bind_ok.mp e
    have hfill : ∃ m', s₁ = { k.mm with pmm := p', mem := m' } ∧ Filled k.mm.mem m' f src size := by
      cases src with
      | none =>
        cases e₁
        exact ⟨_, rfl, filled_clear ..⟩
      | some a =>
        have hset : DirectMap { k.mm with pmm := p', mem := memset k.mm.mem f 0 4096 } :=
          (h.vm.of_samePages (h.vm.fresh_write hf.new hfa (filled_clear _ _ 0).other)).direct
        simp only [Mm.copyIn, hset.direct (show f < 0x1000000 by omega), ok_bind] at e₁
        split_ifs at e₁ with hsrc
        cases e₁
        exact ⟨_, rfl, filled_copy (by omega) hsrc⟩
    obtain ⟨m', rfl, hfill⟩ := hfill
    have hodd : (1 ||| 4 ||| flags) % 2 = 1 := Nat.or_mod_two_eq_one.mpr (.inl rfl)
    rcases h.mapPage (x := ⟨v, f⟩) hsp hf hfill.other hal huser hodd with
      ⟨p'', em, -⟩ | ⟨p'', m'', em, -⟩
    · simp only [em, ok_bind] at e
      rw [if_pos (by decide)] at e
      cases e
      exact .inr ⟨f, hf.new, hfa, hfill.other⟩
    · simp only [em, ok_bind] at e
      rw [if_neg (by decide)] at e
      cases e
  · rw [vmmPhysToVirt_of_ge (by omega), if_pos rfl] at e
    cases e
    exact .inl rfl

/-- **`map_copied_user_page`**, whether it maps the page or not. -/
theorem MmInv.mapCopied_leaves (h : MmInv p0 s0 k.processes bs k.mm) {v size flags : Nat}
    {src : Option Nat} {r : Int} (hsp : (k.processes i).addressSpace ∈ k.mm.spaces)
    (hal : v % 4096 = 0) (huser : v < 0xC0000000)
    (e : mapCopiedUserPage k i v src size flags = .ok (r, k')) : k.LeavesOthers i k' := by
  obtain ⟨h', ⟨rfl, -, -⟩ | ⟨rfl, f, hc⟩⟩ := h.mapCopied hsp hal huser e
  · intro d n _ hd _
    obtain hm | ⟨f, hnew, hfa, hm⟩ := h.notCopied_writes hsp hal huser e
    · rw [hm]
      exact .refl d _ _
    · exact h.sameSpace_roles hd n (h.vm.fresh_write hnew hfa hm)
  · exact hc.leaves h h' hsp huser

theorem MmInv.load_leaves (h : MmInv p0 s0 k.processes bs k.mm) {image size : Nat} {r : Int}
    (hsp : (k.processes i).addressSpace ∈ k.mm.spaces)
    (e : loadEmxf k i image size = .ok (r, k')) : k.LeavesOthers i k' := by
  obtain ⟨hdr, -, e⟩ := bind_ok.mp e
  cases hdr with
  | none =>
    cases e
    exact fun d n _ _ _ => .refl d _ _
  | some hd =>
    obtain ⟨⟨r₁, k₁⟩, e₁, e⟩ := bind_ok.mp e
    have hl := h.mapCopied_leaves hsp (by decide) (by decide) e₁
    dsimp only at e
    split_ifs at e with hr
    · cases e
      exact hl
    · cases e
      exact hl

theorem Loaded.others (h : Loaded i k k') (n : Fin 16) (hn : n ≠ i) :
    k'.processes n = k.processes n := by
  obtain ⟨p, -, hk⟩ := h
  rw [hk]
  exact Function.update_of_ne hn ..

/-- The pages of record `i` are unmapped and given back. -/
theorem MmInv.freePages_leaves {ps : Fin 16 → UserProcess} {s s' : Mm} (h : MmInv p0 s0 ps bs s)
    (hsp : (ps i).addressSpace ∈ s.spaces)
    (e : (ps i).pages.foldlM (fun mm page => do
      let (_, mm) ← vmmUnmapPageIn mm (ps i).addressSpace page.vaddr
      return mm.freePage page.paddr) s = .ok s') {d : Nat} {n : Fin 16} (hn : n ≠ i)
    (hd : d ∈ s.spaces) (hne : d ≠ (ps i).addressSpace) :
    SameSpace d (ps n).frames s.mem s'.mem := by
  generalize hl : (ps i).pages = l at e
  generalize ha : (ps i).addressSpace = a at e
  induction l generalizing ps s with
  | nil =>
    cases e
    exact .refl d _ _
  | cons x l ih =>
    obtain ⟨t, m', ht, eun, hun, h₁⟩ := h.unmapFree hl
    have hx : x ∈ (ps i).pages := by
      rw [hl]
      exact List.mem_cons_self
    have huser := ((h.pages i).user x hx).2
    have hpde : pdeIndex x.vaddr < 768 := by
      rw [pdeIndex_eq]
      omega
    have hfirst := h.sameSpace_unmapped hsp hpde ht hun hd hne n
    rw [List.foldlM_cons, ← ha, eun] at e
    rw [ha] at e
    have hself : (withPages ps i l i).addressSpace = (ps i).addressSpace := withPages_space ..
    have hrest := ih h₁ (by rw [hself]; exact hsp) hd (by rw [hself]; exact hne)
      (withPages_self ..) (hself.trans ha) e
    rw [withPages_of_ne hn] at hrest
    exact hfirst.trans hrest

/-- **`user_process_free_pages`.** -/
theorem MmInv.freeAll_leaves (h : MmInv p0 s0 k.processes bs k.mm)
    (hsp : (k.processes i).addressSpace ∈ k.mm.spaces)
    (e : userProcessFreePages k i = .ok k') : k.LeavesOthers i k' := fun d n hn hd hne => by
  obtain ⟨mm, e₁, e⟩ := bind_ok.mp e
  cases e
  exact h.freePages_leaves hsp e₁ hn hd hne

/-- **`user_prepare_exec`**, whether it succeeds or not. -/
theorem MmInv.prepareExec_leaves (h : MmInv p0 s0 k.processes bs k.mm) {path : List Byte} {r : Int}
    (hsp : (k.processes i).addressSpace ∈ k.mm.spaces)
    (e : userPrepareExec k i path = .ok (r, k')) : k.LeavesOthers i k' := by
  obtain ⟨⟨r₁, k₁⟩, e₁, e⟩ := bind_ok.mp e
  have hload₁ := prepareExecSteps_ctl e₁
  obtain ⟨h₁, hs₁, -⟩ := h.prepareSteps hsp e₁
  have hsteps : k.LeavesOthers i k₁ := by
    obtain ⟨file, -, e₁⟩ := bind_ok.mp e₁
    cases file with
    | none =>
      cases e₁
      exact fun d n _ _ _ => .refl d _ _
    | some file =>
      obtain ⟨⟨r₂, k₂⟩, e₂, e₁⟩ := bind_ok.mp e₁
      have hl₂ := h.load_leaves hsp e₂
      obtain ⟨h₂, ho⟩ := h.load hsp e₂
      dsimp only at e₁
      split_ifs at e₁ with hr₂
      · cases e₁
        exact hl₂
      · have hs₂ : k₂.mm.spaces = k.mm.spaces := by
          obtain ⟨-, hn⟩ | ⟨-, codeSize, entryOffset, f, hcode⟩ := ho
          · exact hn.spaces
          · exact hcode.spaces
        have hload₂ := loadEmxf_ctl e₂
        have hsp₂ : (k₂.processes i).addressSpace ∈ k₂.mm.spaces := by
          rw [hload₂.space, hs₂]
          exact hsp
        obtain ⟨⟨r₃, k₃⟩, e₃, e₁⟩ := bind_ok.mp e₁
        have hl₃ := hl₂.trans hs₂ hload₂.others hload₂.space
          (h₂.mapCopied_leaves hsp₂ (by decide) (by decide) e₃)
        dsimp only at e₁
        split_ifs at e₁ with hr₃
        · cases e₁
          exact hl₃
        · cases e₁
          exact hl₃
  dsimp only at e
  split_ifs at e with hr
  · obtain ⟨k₂, e₂, e⟩ := bind_ok.mp e
    cases e
    have hsp₁ : (k₁.processes i).addressSpace ∈ k₁.mm.spaces := by
      rw [hload₁.space, hs₁]
      exact hsp
    exact hsteps.trans hs₁ hload₁.others hload₁.space (h₁.freeAll_leaves hsp₁ e₂)
  · cases e
    exact hsteps

end

end Emyx
