/-
  File:      Emyx/Kernel/Memory.lean
  Subject:   WHAT THE PROCESSES' MEMORY LOOKS LIKE BETWEEN TWO CALLS: the pages of the records,
             the pages of the heap, and the tables, as one invariant.

  * `Client`, `heldBy` -- who holds a frame that is no directory and no table: the heap, or a
    record, which lists it in its pages;
  * `MmInv p0 s0 ps bs s` -- the frames taken are those of the tables, the heap and the records,
    each once; an address space maps exactly the pages of its record; the kernel's half is what it
    was in the boot state `s0`; and memory that no frame covers is untouched since then;
  * one lemma for each thing the kernel does to memory: `MmInv.create`, `MmInv.destroy`,
    `MmInv.kmalloc`, `MmInv.kfree`, `MmInv.unmapFree`, `MmInv.mapPage`, `MmInv.store`.
-/
import Emyx.Heap.Run
import Emyx.Kernel.State
import Emyx.Vmm.Refine

namespace Emyx

open Lib

/-! ## 1. Clients -/

/-- A holder of a frame, with the frame it holds. -/
inductive Client where
  | heap (f : Nat)
  | page (i : Fin 16) (f : Nat)

/-- The frames of a process's pages. -/
def UserProcess.frames (p : UserProcess) : List Nat := p.pages.map UserPage.paddr

/-- The frames of the heap and of the records. -/
def heldBy (heapPages : List Nat) (ps : Fin 16 → UserProcess) : Client → Option Nat
  | .heap f => if f ∈ heapPages then some f else none
  | .page i f => if f ∈ (ps i).frames then some f else none

/-- The records' pages map page `n` of the address space `d` to the frame `f`. -/
def RecordMaps (ps : Fin 16 → UserProcess) (d n f : Nat) : Prop :=
  ∃ i, (ps i).addressSpace = d ∧ ∃ page ∈ (ps i).pages, page.vaddr / 4096 = n ∧ page.paddr = f

/-- The pages of a record: user pages of an address space in use, each frame once. -/
structure UserProcess.PagesOk (p : UserProcess) (spaces : List Nat) : Prop where
  frames : p.frames.Nodup
  user : ∀ page ∈ p.pages, page.vaddr % 4096 = 0 ∧ page.vaddr < 0xC0000000
  space : p.pages ≠ [] → p.addressSpace ∈ spaces

/-- No frame that may be taken covers the byte. -/
def Outside (p0 : Pmm) (x : Nat) : Prop := ∀ p f, Allocated p0 p f → ¬ InPage f x

/-- **The invariant of memory** after `s0`, for the records `ps` and the heap's blocks `bs`. -/
structure MmInv (p0 : Pmm) (s0 : Mm) (ps : Fin 16 → UserProcess) (bs : List Blk) (s : Mm) :
    Prop where
  vm : VmInv p0 (heldBy s.heapPages ps) s
  heap : HeapInv s bs
  stray : s.strayDestroys = 0
  kernel : s.kernelPageDirectory = s0.kernelPageDirectory
  kernelWords : ∀ i, i < 1024 →
    dirWord s.mem s0.kernelPageDirectory i = dirWord s0.mem s0.kernelPageDirectory i
  halfWords : ∀ d ∈ s.spaces, ∀ i, 768 ≤ i → i < 1024 →
    dirWord s.mem d i = dirWord s0.mem s0.kernelPageDirectory i
  outside : AgreeOn (Outside p0) s0.mem s.mem
  maps : ∀ d ∈ s.spaces, ∀ n f, mapOf s d n = some f ↔ RecordMaps ps d n f
  pages : ∀ i, (ps i).PagesOk s.spaces

section

variable {p0 : Pmm} {s0 s : Mm} {ps : Fin 16 → UserProcess} {bs : List Blk}

theorem heldBy_some {hp : List Nat} {c : Client} {f : Nat} (h : heldBy hp ps c = some f) :
    (c = .heap f ∧ f ∈ hp) ∨ ∃ i, c = .page i f ∧ f ∈ (ps i).frames := by
  cases c with
  | heap g =>
    obtain ⟨hg, e⟩ := Option.ite_none_right_eq_some.mp h
    cases e
    exact .inl ⟨rfl, hg⟩
  | page i g =>
    obtain ⟨hg, e⟩ := Option.ite_none_right_eq_some.mp h
    cases e
    exact .inr ⟨i, rfl, hg⟩

theorem MmInv.space_ne_kernel (h : MmInv p0 s0 ps bs s) {d : Nat} (hd : d ∈ s.spaces) :
    d ≠ s.kernelPageDirectory := fun e => (List.nodup_cons.mp h.vm.nodup).1 (e ▸ hd)

theorem MmInv.spaces_nodup (h : MmInv p0 s0 ps bs s) : s.spaces.Nodup :=
  (List.nodup_cons.mp h.vm.nodup).2

theorem MmInv.space_pos (h : MmInv p0 s0 ps bs s) {d : Nat} (hd : d ∈ s.spaces) : d ≠ 0 := by
  have := h.vm.dir_pos (Or.inr hd)
  omega

/-- A record's page fills its role. -/
theorem frameOf_page {i : Fin 16} {f : Nat} (hf : f ∈ (ps i).frames) :
    frameOf s (heldBy s.heapPages ps) (.client (.page i f)) = some f := if_pos hf

theorem frameOf_heap {f : Nat} (hf : f ∈ s.heapPages) :
    frameOf s (heldBy s.heapPages ps) (.client (.heap f)) = some f := if_pos hf

/-- Two records' pages map one page to one frame only, and then it is one page of one record. -/
theorem MmInv.page_unique (h : MmInv p0 s0 ps bs s) {i j : Fin 16} {x y : UserPage}
    (hx : x ∈ (ps i).pages) (hy : y ∈ (ps j).pages)
    (hd : (ps i).addressSpace = (ps j).addressSpace) (hn : x.vaddr / 4096 = y.vaddr / 4096) :
    i = j ∧ x.paddr = y.paddr := by
  have hsp := (h.pages i).space (List.ne_nil_of_mem hx)
  have e1 := (h.maps _ hsp _ _).mpr ⟨i, rfl, x, hx, rfl, rfl⟩
  have e2 := (h.maps _ hsp _ _).mpr ⟨j, hd.symm, y, hy, hn.symm, rfl⟩
  have e := Option.some.inj (e1.symm.trans e2)
  have hi := frameOf_page (s := s) (List.mem_map_of_mem (f := UserPage.paddr) hx)
  have hj := frameOf_page (s := s) (List.mem_map_of_mem (f := UserPage.paddr) hy)
  rw [← e] at hj
  cases h.vm.own.inj hi hj
  exact ⟨rfl, e⟩

/-- Who holds what is read from the pages. -/
theorem heldBy_congr (hp : List Nat) {ps' : Fin 16 → UserProcess}
    (h : ∀ i, (ps' i).pages = (ps i).pages) : heldBy hp ps' = heldBy hp ps := by
  funext c
  cases c with
  | heap f => rfl
  | page i f => exact if_congr (by unfold UserProcess.frames; rw [h]) rfl rfl

/-- Changes of the records that leave their pages, and the address space of one with pages. -/
theorem MmInv.of_records (h : MmInv p0 s0 ps bs s) {ps' : Fin 16 → UserProcess}
    (hp : ∀ i, (ps' i).pages = (ps i).pages)
    (ha : ∀ i, (ps i).pages ≠ [] → (ps' i).addressSpace = (ps i).addressSpace) :
    MmInv p0 s0 ps' bs s := by
  have hframes : ∀ i, (ps' i).frames = (ps i).frames := fun i => by
    unfold UserProcess.frames
    rw [hp]
  have hheld := heldBy_congr s.heapPages hp
  refine { h with vm := by rw [hheld]; exact h.vm, maps := fun d hd n f => ?_, pages := fun i => ?_ }
  · rw [h.maps d hd]
    constructor
    · rintro ⟨i, hi, x, hx, hn, hf⟩
      exact ⟨i, (ha i (List.ne_nil_of_mem hx)).trans hi, x, (hp i).symm ▸ hx, hn, hf⟩
    · rintro ⟨i, hi, x, hx, hn, hf⟩
      rw [hp] at hx
      exact ⟨i, (ha i (List.ne_nil_of_mem hx)).symm.trans hi, x, hx, hn, hf⟩
  · refine ⟨by rw [hframes]; exact (h.pages i).frames, fun x hx => (h.pages i).user x (hp i ▸ hx),
      fun hne => ?_⟩
    rw [hp] at hne
    rw [ha i hne]
    exact (h.pages i).space hne

/-! ## 2. Writes to pages -/

/-- Two pages share no byte. -/
theorem not_inPage {f g x : Nat} (hf : f % 4096 = 0) (hg : g % 4096 = 0) (hne : f ≠ g)
    (hx : InPage g x) : ¬ InPage f x := by
  unfold InPage at *
  omega

/-- A write that stays in the clients' pages leaves the tables and what no frame covers. -/
theorem VmInv.clients_write {κ : Type} {held : κ → Option Nat} (h : VmInv p0 held s) {m' : Mem}
    (hm : ∀ x, (∀ c f, held c = some f → ¬ InPage f x) → m' x = s.mem x) :
    SameTables s m' ∧ AgreeOn (Outside p0) s.mem m' := by
  have hrole : ∀ (r : Role κ) g, frameOf s held r = some g → (∀ c, r ≠ .client c) →
      SamePage s.mem m' g := fun r g hr hc x hx => by
    refine hm x fun c f hf => ?_
    have hcl : frameOf s held (.client c) = some f := hf
    exact not_inPage (h.aligned hcl) (h.aligned hr) (h.frame_ne hcl hr (hc c).symm) hx
  refine ⟨⟨fun d hd => ?_, fun d i t hd hi ht => ?_⟩, fun x hx => ?_⟩
  · refine hrole _ _ (frameOf_dir hd) fun c e => ?_
    cases e
  · refine hrole _ _ ((frameOf_table hd hi).trans ht) fun c e => ?_
    cases e
  · exact hm x fun c f hf => hx s.pmm f (h.own.mem (r := .client c) hf)

/-- What the tables map does not depend on anything else. -/
theorem VmInv.mapOf_same {κ : Type} {held : κ → Option Nat} (h : VmInv p0 held s) {m' : Mem}
    (hm : SameTables s m') : mapOf { s with mem := m' } = mapOf s := by
  obtain ⟨_, hpte⟩ := h.words_same hm
  funext d n
  by_cases hd : IsDir s d ∧ n / 1024 < ownEntries s d
  · have hi : n / 1024 < 1024 := Nat.lt_of_lt_of_le hd.2 (ownEntries_le s d).2
    refine (if_pos hd).trans (Eq.trans ?_ (if_pos hd).symm)
    show presentFrame (pteWord m' d (n / 1024) (n % 1024)) = _
    rw [hpte d _ _ hd.1 hi (Nat.mod_lt _ (by decide))]
  · exact (if_neg hd).trans (if_neg hd).symm

/-- The headers lie in the heap's pages. -/
theorem HeapInv.of_pages (h : HeapInv s bs) {s' : Mm} (hl : s'.list = s.list)
    (hp : s'.heapPages = s.heapPages) (hm : ∀ g ∈ s.heapPages, SamePage s.mem s'.mem g) :
    HeapInv s' bs :=
  h.congr hl hp fun b hb x h1 h2 => by
    obtain ⟨g, hg, hx⟩ := h.shape.inside b hb x h1 (by omega)
    exact hm g hg x hx

/-! ## 3. The kernel's side -/

/-- The kernel's side of memory is as it was. -/
structure KernelSame (p0 : Pmm) (s s' : Mm) : Prop where
  kernel : s'.kernelPageDirectory = s.kernelPageDirectory
  stray : s'.strayDestroys = s.strayDestroys
  words : ∀ d i, IsDir s d → (d = s.kernelPageDirectory ∨ 768 ≤ i) → i < 1024 →
    dirWord s'.mem d i = dirWord s.mem d i
  outside : AgreeOn (Outside p0) s.mem s'.mem

/-- A change that leaves the kernel's side, and adds no address space. -/
theorem MmInv.of_same (h : MmInv p0 s0 ps bs s) {s' : Mm} {ps' : Fin 16 → UserProcess}
    {bs' : List Blk} (hk : KernelSame p0 s s') (hsub : ∀ d ∈ s'.spaces, d ∈ s.spaces)
    (vm : VmInv p0 (heldBy s'.heapPages ps') s') (heap : HeapInv s' bs')
    (maps : ∀ d ∈ s'.spaces, ∀ n f, mapOf s' d n = some f ↔ RecordMaps ps' d n f)
    (pages : ∀ i, (ps' i).PagesOk s'.spaces) : MmInv p0 s0 ps' bs' s' where
  vm := vm
  heap := heap
  stray := hk.stray.trans h.stray
  kernel := hk.kernel.trans h.kernel
  kernelWords i hi := by
    rw [← h.kernelWords i hi, ← h.kernel]
    exact hk.words _ i (isDir_kernel s) (.inl rfl) hi
  halfWords d hd i h1 h2 :=
    (hk.words d i (.inr (hsub d hd)) (.inr h1) h2).trans (h.halfWords d (hsub d hd) i h1 h2)
  outside := h.outside.trans hk.outside
  maps := maps
  pages := pages

/-- The tables are read from memory, the kernel's directory and the list of address spaces. -/
theorem mapOf_congr {s s' : Mm} (hm : s'.mem = s.mem)
    (hk : s'.kernelPageDirectory = s.kernelPageDirectory) (hs : s'.spaces = s.spaces) :
    mapOf s' = mapOf s := by
  cases s
  cases s'
  simp only at hm hk hs
  subst hm hk hs
  rfl

theorem VmInv.congr {κ : Type} {held : κ → Option Nat} (h : VmInv p0 held s) {s' : Mm}
    (hp : s'.pmm = s.pmm) (hm : s'.mem = s.mem)
    (hk : s'.kernelPageDirectory = s.kernelPageDirectory) (hs : s'.spaces = s.spaces) :
    VmInv p0 held s' := by
  cases s
  cases s'
  simp only at hp hm hk hs
  subst hp hm hk hs
  exact ⟨h.pmm, h.low, h.own.congr (fun r => by cases r <;> rfl) fun _ => Iff.rfl, h.nodup,
    h.dirLimit, h.tableLimit, h.shared, h.direct⟩

/-- A write that stays in the clients' pages. -/
theorem MmInv.of_clients (h : MmInv p0 s0 ps bs s) {m' : Mem} {bs' : List Blk}
    (hm : ∀ x, (∀ c f, heldBy s.heapPages ps c = some f → ¬ InPage f x) → m' x = s.mem x)
    (hh : HeapInv { s with mem := m' } bs') : MmInv p0 s0 ps bs' { s with mem := m' } := by
  obtain ⟨htab, hout⟩ := h.vm.clients_write hm
  obtain ⟨hdir, _⟩ := h.vm.words_same htab
  refine h.of_same ⟨rfl, rfl, fun d i hd _ hi => hdir d i hd hi, hout⟩ (fun d hd => hd)
    (h.vm.of_sameTables htab) hh (fun d hd n f => ?_) h.pages
  rw [h.vm.mapOf_same htab]
  exact h.maps d hd n f

/-- The frames the allocator has taken are what they were. -/
theorem MmInv.of_pmm (h : MmInv p0 s0 ps bs s) {p' : Pmm}
    (hv : VmInv p0 (heldBy s.heapPages ps) { s with pmm := p' }) :
    MmInv p0 s0 ps bs { s with pmm := p' } :=
  h.of_same ⟨rfl, rfl, fun _ _ _ _ _ => rfl, .refl _ _⟩ (fun _ hd => hd) hv
    (h.heap.congr rfl rfl fun _ _ _ _ _ => rfl) h.maps h.pages

/-- The directories hold in `m'` the words they hold in `s`. -/
def SameDirs (s : Mm) (m' : Mem) : Prop :=
  ∀ d i, IsDir s d → i < 1024 → dirWord m' d i = dirWord s.mem d i

/-! ## 4. Address spaces -/

/-- **An address space that no record uses is destroyed.** -/
theorem MmInv.destroy (h : MmInv p0 s0 ps bs s) {d : Nat} (hd : d ∈ s.spaces)
    (hp : ∀ i, (ps i).pages ≠ [] → (ps i).addressSpace ≠ d) :
    ∃ p', (ownFrames s d).foldl pmmFreePage s.pmm = p' ∧
      vmmDestroyAddressSpace s d = .ok { s with pmm := p', spaces := s.spaces.erase d } ∧
      MmInv p0 s0 ps bs { s with pmm := p', spaces := s.spaces.erase d } := by
  obtain ⟨e, hv⟩ := vmmDestroyAddressSpace_spec h.vm hd
  refine ⟨_, rfl, e, h.of_same ⟨rfl, rfl, fun _ _ _ _ _ => rfl, .refl _ _⟩
    (fun d' => List.mem_of_mem_erase) hv (h.heap.congr rfl rfl fun _ _ _ _ _ => rfl)
    (fun d' hd' n f => ?_) fun i => ⟨(h.pages i).frames, (h.pages i).user, fun hne => ?_⟩⟩
  · have hd'' := h.spaces_nodup.mem_erase_iff.mp hd'
    rw [h.vm.mapOf_removeSpace hd]
    unfold AddressMap.clear
    rw [if_neg hd''.1]
    exact h.maps d' hd''.2 n f
  · exact h.spaces_nodup.mem_erase_iff.mpr ⟨hp i hne, (h.pages i).space hne⟩

/-- **A new address space**, if there is a page for its directory. -/
theorem MmInv.create (h : MmInv p0 s0 ps bs s) :
    (vmmCreateAddressSpace s = .ok (0, { s with pmm := undoPage s.pmm }) ∧
      MmInv p0 s0 ps bs { s with pmm := undoPage s.pmm } ∧ NoLowPage s) ∨
    ∃ f p' m', pmmAllocPage s.pmm = (f, p') ∧ vmmCreateAddressSpace s =
        .ok (f, { s with pmm := p', mem := m', spaces := f :: s.spaces }) ∧ f ≠ 0 ∧ ¬ IsDir s f ∧
      MmInv p0 s0 ps bs { s with pmm := p', mem := m', spaces := f :: s.spaces } ∧
      (∀ i, i < 1024 → dirWord m' f i =
        if i < 768 then 0 else dirWord s.mem s.kernelPageDirectory i) ∧
      ∀ x, ¬ InPage f x → m' x = s.mem x := by
  rcases vmmCreateAddressSpace_spec h.vm with
    ⟨e, hv, hlow⟩ | ⟨f, p', m', ep, e, hf0, hf, hv, hnew, hsame, hoff⟩
  · exact .inl ⟨e, h.of_pmm hv, hlow⟩
  · obtain ⟨hdir, _⟩ := h.vm.words_kept hsame
    have hfal : Allocated p0 p' f :=
      hv.own.mem (frameOf_dir (isDir_cons.mpr (.inl rfl)))
    refine .inr ⟨f, p', m', ep, e, hf0, hf, ?_, hnew, hoff⟩
    exact
      { vm := hv
        heap := h.heap.of_pages rfl rfl fun g hg => hsame _ g (frameOf_heap hg)
        stray := h.stray
        kernel := h.kernel
        kernelWords := fun i hi => by
          rw [← h.kernelWords i hi, ← h.kernel]
          exact hdir _ i (isDir_kernel s) hi
        halfWords := fun d hd i h1 h2 => by
          rcases List.mem_cons.mp hd with rfl | hd
          · rw [← h.kernelWords i h2, ← h.kernel]
            exact (hnew i h2).trans (if_neg (Nat.not_lt.mpr h1))
          · exact (hdir d i (.inr hd) h2).trans (h.halfWords d hd i h1 h2)
        outside := h.outside.trans fun x hx => hoff x (hx p' f hfal)
        maps := fun d hd n g => by
          rw [h.vm.mapOf_addSpace hf hnew hsame]
          unfold AddressMap.clear
          by_cases e : d = f
          · rw [if_pos e]
            refine iff_of_false nofun ?_
            rintro ⟨i, hi, x, hx, -⟩
            refine hf (.inr ?_)
            rw [← e, ← hi]
            exact (h.pages i).space (List.ne_nil_of_mem hx)
          · rw [if_neg e]
            exact h.maps d ((List.mem_cons.mp hd).resolve_left e) n g
        pages := fun i => ⟨(h.pages i).frames, (h.pages i).user, fun hne =>
          List.mem_cons_of_mem _ ((h.pages i).space hne)⟩ }

/-! ## 5. The heap -/

theorem inPages_iff {pages : List Nat} {x : Nat} : InPages pages x ↔ ∃ g ∈ pages, InPage g x := Iff.rfl

/-- A byte of no client is no byte of the heap. -/
theorem not_inPages {hp : List Nat} {x : Nat}
    (hx : ∀ c f, heldBy hp ps c = some f → ¬ InPage f x) : ¬ InPages hp x := by
  rintro ⟨g, hg, hin⟩
  exact hx (.heap g) g (if_pos hg) hin

/-- **`kfree` of an allocation** returns. -/
theorem MmInv.kfree (h : MmInv p0 s0 ps bs s) {a : Nat × Nat} (ha : a ∈ allocs bs) :
    ∃ m' bs', kfree s a.1 = .ok { s with mem := m' } ∧ Released s bs a m' bs' ∧
      MmInv p0 s0 ps bs' { s with mem := m' } := by
  obtain ⟨m', bs', e, hr⟩ := kfree_spec h.heap ha
  exact ⟨m', bs', e, hr, h.of_clients (fun x hx => hr.heapOnly x (not_inPages hx)) hr.inv⟩

/-- The page allocator gives the heap no page it has. -/
theorem MmInv.fresh_page (h : MmInv p0 s0 ps bs s) (h0 : (pmmAllocPage s.pmm).1 ≠ 0) :
    (pmmAllocPage s.pmm).1 ∉ s.heapPages := fun hf => by
  rcases h.vm.alloc with e | ⟨f, p', e, -, hfr⟩
  · rw [e] at h0
    exact h0 rfl
  · rw [e] at hf
    exact hfr.new (h.vm.own.mem (frameOf_heap hf))

/-- What a heap call does to the frames. -/
theorem MmInv.pagesStep (h : MmInv p0 s0 ps bs s) {s' : Mm} (hp : PagesStep s s') :
    VmInv p0 (heldBy s'.heapPages ps) { s with pmm := s'.pmm } := by
  rcases hp with ⟨e1, e2⟩ | ⟨r, hg⟩
  · rw [e1, e2]
    exact h.vm
  · generalize s'.pmm = p', s'.heapPages = pages' at hg
    rcases h.vm.alloc with e | ⟨f, q, e, hpos, hf⟩
    · cases hg with
      | none _ =>
        rw [e]
        exact h.vm
      | high hf =>
        rw [e] at hf
        cases hf
      | page hf _ =>
        rw [e] at hf
        exact absurd rfl hf
    · cases hg with
      | none hf =>
        rw [e] at hf
        exact absurd hpos (by rw [show f = 0 from hf]; decide)
      | high _ =>
        have hundo := pmmFreePage_undo h.vm.pmm h.vm.addressable
          (by rw [e]; exact fun h0 => absurd hpos (by rw [show f = 0 from h0]; decide))
        exact h.vm.of_pmm hundo.1 hundo.2
      | page _ _ =>
        rw [e]
        have hnot : f ∉ s.heapPages := fun hc => hf.new (h.vm.own.mem (frameOf_heap hc))
        refine h.vm.addClient (c := .heap f) hf (if_neg hnot) (if_pos List.mem_cons_self)
          fun c hc => ?_
        cases c with
        | page i g => rfl
        | heap g =>
          have hne : g ≠ f := fun e => hc (by rw [e])
          exact if_congr (List.mem_cons.trans (or_iff_right hne)) rfl rfl

/-- **`kmalloc` returns**, and keeps the invariant. -/
theorem MmInv.kmalloc (h : MmInv p0 s0 ps bs s) (n : Nat) :
    ∃ p s' bs', kmalloc s n = .ok (p, s') ∧ Served s bs n p s' bs' ∧ MmInv p0 s0 ps bs' s' := by
  obtain ⟨p, s', bs', e, hs⟩ := kmalloc_spec h.heap n h.fresh_page
  refine ⟨p, s', bs', e, hs, ?_⟩
  obtain ⟨hkd, hsp, hst⟩ := hs.vm
  have hv := h.pagesStep hs.pages
  obtain ⟨htab, hout⟩ := hv.clients_write fun x hx => hs.heapOnly x (not_inPages hx)
  obtain ⟨hdir, _⟩ := hv.words_same htab
  have hv' : VmInv p0 (heldBy s'.heapPages ps) s' :=
    (hv.of_sameTables htab).congr rfl rfl hkd hsp
  refine h.of_same ⟨hkd, hst, fun d i hd _ hi => hdir d i hd hi, hout⟩ (fun d hd => hsp ▸ hd) hv'
    hs.inv (fun d hd n f => ?_) fun i => hsp ▸ h.pages i
  have hmap : mapOf s' = mapOf { s with pmm := s'.pmm, mem := s'.mem } := mapOf_congr rfl hkd hsp
  rw [hmap, hv.mapOf_same htab]
  exact h.maps d (hsp ▸ hd) n f

/-- A write to an allocation. -/
theorem MmInv.allocWrite (h : MmInv p0 s0 ps bs s) {a : Nat × Nat} (ha : a ∈ allocs bs) {m' : Mem}
    (hm : ∀ x, ¬ (a.1 ≤ 0xC0000000 + x ∧ 0xC0000000 + x < a.1 + a.2) → m' x = s.mem x) :
    MmInv p0 s0 ps bs { s with mem := m' } := by
  refine h.of_clients (fun x hx => hm x fun hin => not_inPages hx ?_)
    (h.heap.congr rfl rfl fun b hb x h1 h2 => hm x ?_)
  · obtain ⟨b, hb, hr, hpay⟩ := mem_allocs.mp ha
    have hfit := h.heap.shape.fits b hb _ hr
    unfold Blk.payload Blk.ptr at hpay
    exact h.heap.shape.inside b hb x (by omega) (by omega)
  · exact (h.heap.header_private (.refl _) hb h1 h2).2 a ha

/-! ## 6. The pages of a record -/

/-- The record `i` has the pages `l`. -/
def withPages (ps : Fin 16 → UserProcess) (i : Fin 16) (l : List UserPage) : Fin 16 → UserProcess :=
  Function.update ps i { ps i with pages := l }

theorem withPages_space (i j : Fin 16) (l : List UserPage) :
    (withPages ps i l j).addressSpace = (ps j).addressSpace := by
  unfold withPages
  by_cases h : j = i
  · rw [h, Function.update_self]
  · rw [Function.update_of_ne h]

theorem withPages_self (i : Fin 16) (l : List UserPage) : (withPages ps i l i).pages = l := by
  unfold withPages
  rw [Function.update_self]

theorem withPages_of_ne {i j : Fin 16} (h : j ≠ i) (l : List UserPage) :
    withPages ps i l j = ps j := Function.update_of_ne h ..

theorem withPages_withPages (i : Fin 16) (l l' : List UserPage) :
    withPages (withPages ps i l) i l' = withPages ps i l' := by
  unfold withPages
  rw [Function.update_self, Function.update_idem]

/-- What the other records hold does not change. -/
theorem heldBy_withPages (hp : List Nat) {i : Fin 16} (l : List UserPage) {c : Client}
    (hc : ∀ f, c = .page i f → (f ∈ l.map UserPage.paddr ↔ f ∈ (ps i).frames)) :
    heldBy hp (withPages ps i l) c = heldBy hp ps c := by
  cases c with
  | heap f => rfl
  | page j f =>
    by_cases hj : j = i
    · subst hj
      refine if_congr ?_ rfl rfl
      unfold UserProcess.frames
      rw [withPages_self]
      exact hc f rfl
    · refine if_congr ?_ rfl rfl
      rw [withPages_of_ne hj]

/-- Whether a frame is a page of the record is read from the list. -/
theorem heldBy_withPages_self (hp : List Nat) (i : Fin 16) (l : List UserPage) (f : Nat) :
    heldBy hp (withPages ps i l) (.page i f) =
      if f ∈ l.map UserPage.paddr then some f else none := by
  refine if_congr ?_ rfl rfl
  unfold UserProcess.frames
  rw [withPages_self]

/-- **One turn of `user_process_free_pages`**: the first page is unmapped and its frame given
    back. -/
theorem MmInv.unmapFree (h : MmInv p0 s0 ps bs s) {i : Fin 16} {x : UserPage} {l : List UserPage}
    (hi : (ps i).pages = x :: l) :
    ∃ t m', tableOf s.mem (ps i).addressSpace (pdeIndex x.vaddr) = some t ∧
      vmmUnmapPageIn s (ps i).addressSpace x.vaddr = .ok (0, { s with mem := m' }) ∧
      Unmapped (heldBy s.heapPages ps) s m' t (pteIndex x.vaddr) ∧
      MmInv p0 s0 (withPages ps i l) bs
        { s with mem := m', pmm := pmmFreePage s.pmm x.paddr } := by
  have hx : x ∈ (ps i).pages := by rw [hi]; exact List.mem_cons_self
  have hsp := (h.pages i).space (List.ne_nil_of_mem hx)
  obtain ⟨hal, huser⟩ := (h.pages i).user x hx
  have hnd : (x.paddr :: l.map UserPage.paddr).Nodup := by
    have := (h.pages i).frames
    unfold UserProcess.frames at this
    rwa [hi] at this
  have hframes : (ps i).frames = x.paddr :: l.map UserPage.paddr := by
    unfold UserProcess.frames
    rw [hi]
    rfl
  have hmap := (h.maps _ hsp _ _).mpr ⟨i, rfl, x, hx, rfl, rfl⟩
  have hown : pdeIndex x.vaddr < ownEntries s (ps i).addressSpace := user_own huser
  rcases vmmUnmapPageIn_spec h.vm (.inr hsp) (user_offDirectMap huser) with
    ⟨hno, -⟩ | ⟨-, t, m', ht, e, hv, hun⟩
  · refine absurd ⟨hal, hown, presentFrame_ne_none.mp ?_⟩ hno
    rw [← mapOf_page (.inr hsp) (by omega) hown, hmap]
    nofun
  refine ⟨t, m', ht, e, hun, ?_⟩
  have hset := hun.mapOf_eq hv (.inr hsp) hown (by omega) ht
  have hclient : heldBy s.heapPages ps (.page i x.paddr) = some x.paddr :=
    if_pos (by rw [hframes]; exact List.mem_cons_self)
  have hvm : VmInv p0 (heldBy s.heapPages (withPages ps i l))
      { s with mem := m', pmm := pmmFreePage s.pmm x.paddr } := by
    refine hv.dropClient hclient ?_ fun c hc => heldBy_withPages _ _ fun f hf => ?_
    · rw [heldBy_withPages_self, if_neg (List.nodup_cons.mp hnd).1]
    · rw [hframes, List.mem_cons]
      refine (or_iff_right fun e => hc ?_).symm
      rw [hf, e]
  refine h.of_same ⟨rfl, rfl, fun d j hd _ hj => hun.dirs d j hd hj, fun y hy => ?_⟩
    (fun d hd => hd) hvm (h.heap.of_pages rfl rfl fun g hg => hun.clients (.heap g) g (if_pos hg))
    (fun d hd n f => ?_) fun j => ?_
  · exact hun.other y (hy s.pmm t (h.vm.own.mem ((frameOf_table (.inr hsp) hown).trans ht)))
  · refine Iff.trans (b := ((mapOf s).set (ps i).addressSpace (x.vaddr / 4096) none) d n = some f)
      (by rw [← hset]; exact Iff.rfl) ?_
    unfold AddressMap.set
    by_cases hdn : d = (ps i).addressSpace ∧ n = x.vaddr / 4096
    · -- no other page of a record is there
      rw [if_pos hdn]
      refine iff_of_false nofun ?_
      rintro ⟨j, hj, y, hy, hyn, -⟩
      rw [withPages_space, hdn.1] at hj
      by_cases hji : j = i
      · subst hji
        rw [withPages_self] at hy
        have hy' : y ∈ (ps j).pages := by rw [hi]; exact List.mem_cons_of_mem _ hy
        have e := (h.page_unique hx hy' rfl (hdn.2.symm.trans hyn.symm)).2
        exact (List.nodup_cons.mp hnd).1 (e ▸ List.mem_map_of_mem hy)
      · rw [withPages_of_ne hji] at hy
        exact hji (h.page_unique hx hy hj.symm (hdn.2.symm.trans hyn.symm)).1.symm
    · rw [if_neg hdn, h.maps d hd]
      constructor
      · rintro ⟨j, hj, y, hy, hyn, hyf⟩
        refine ⟨j, (withPages_space ..).trans hj, y, ?_, hyn, hyf⟩
        by_cases hji : j = i
        · subst hji
          rw [withPages_self]
          rw [hi] at hy
          refine (List.mem_cons.mp hy).resolve_left fun e => hdn ⟨hj.symm, ?_⟩
          rw [← hyn, e]
        · rwa [withPages_of_ne hji]
      · rintro ⟨j, hj, y, hy, hyn, hyf⟩
        refine ⟨j, (withPages_space ..).symm.trans hj, y, ?_, hyn, hyf⟩
        by_cases hji : j = i
        · subst hji
          rw [withPages_self] at hy
          rw [hi]
          exact List.mem_cons_of_mem _ hy
        · rwa [withPages_of_ne hji] at hy
  · by_cases hji : j = i
    · subst hji
      refine ⟨?_, fun y hy => ?_, fun _ => (withPages_space ..).symm ▸ hsp⟩
      · unfold UserProcess.frames
        rw [withPages_self]
        exact (List.nodup_cons.mp hnd).2
      · rw [withPages_self] at hy
        exact (h.pages j).user y (by rw [hi]; exact List.mem_cons_of_mem _ hy)
    · rw [withPages_of_ne hji]
      exact h.pages j

/-- **`user_process_free_pages`** leaves the record without pages. -/
theorem MmInv.freePages (h : MmInv p0 s0 ps bs s) (i : Fin 16) :
    ∃ s', (ps i).pages.foldlM (fun mm page => do
        let (_, mm) ← vmmUnmapPageIn mm (ps i).addressSpace page.vaddr
        return mm.freePage page.paddr) s = .ok s' ∧
      MmInv p0 s0 (withPages ps i []) bs s' ∧ s'.spaces = s.spaces ∧
      s'.heapPages = s.heapPages ∧ SameDirs s s'.mem ∧
      AgreeOn (InPages s.heapPages) s.mem s'.mem := by
  generalize hl : (ps i).pages = l
  generalize ha : (ps i).addressSpace = a
  induction l generalizing ps s with
  | nil =>
    refine ⟨s, rfl, ?_, rfl, rfl, fun _ _ _ _ => rfl, fun _ _ => rfl⟩
    rwa [show withPages ps i [] = ps by
      unfold withPages
      rw [← hl, Function.update_eq_self]]
  | cons x l ih =>
    obtain ⟨t, m', -, e, hun, h1⟩ := h.unmapFree hl
    obtain ⟨s', e', h', hs, hp, hd', hx'⟩ :=
      ih h1 (withPages_self ..) ((withPages_space ..).trans ha)
    rw [withPages_withPages] at h'
    refine ⟨s', ?_, h', hs, hp, fun d j hd hj => (hd' d j hd hj).trans (hun.dirs d j hd hj),
      fun y hy => (hx' y hy).trans ?_⟩
    swap
    · obtain ⟨g, hg, hgy⟩ := hy
      exact hun.clients (.heap g) g (if_pos hg) y hgy
    rw [List.foldlM_cons, ← ha, e]
    rw [← ha] at e'
    exact e'

/-- A write to a frame that is not taken. -/
theorem VmInv.fresh_write {κ : Type} {held : κ → Option Nat} (h : VmInv p0 held s) {f : Nat}
    {m' : Mem} (hf : ¬ Allocated p0 s.pmm f) (hfa : f % 4096 = 0)
    (hm : ∀ y, ¬ InPage f y → m' y = s.mem y) (r : Role κ) (g : Nat)
    (hr : frameOf s held r = some g) : SamePage s.mem m' g := fun y hy =>
  hm y (not_inPage hfa (h.aligned hr) (h.fresh_ne hf hr).symm hy)

/-- The record takes a fresh frame, written or not. -/
theorem MmInv.freshPage (h : MmInv p0 s0 ps bs s) (i : Fin 16) {x : UserPage} {p' : Pmm}
    {m' : Mem} (hf : Fresh p0 s.pmm x.paddr p') (hm : ∀ y, ¬ InPage x.paddr y → m' y = s.mem y) :
    VmInv p0 (heldBy s.heapPages (withPages ps i ((ps i).pages ++ [x])))
      { s with pmm := p', mem := m' } := by
  have hnew : x.paddr ∉ (ps i).frames := fun hx => hf.new (h.vm.own.mem (frameOf_page hx))
  have hmem : ∀ f, f ∈ ((ps i).pages ++ [x]).map UserPage.paddr ↔ f ∈ (ps i).frames ∨ f = x.paddr :=
    fun f => by
      rw [List.map_append, List.mem_append]
      exact or_congr_right List.mem_singleton
  refine (h.vm.of_samePages (h.vm.fresh_write hf.new hf.aligned hm)).addClient
    (c := .page i x.paddr) hf (if_neg hnew) ?_ fun c hc => heldBy_withPages _ _ fun f e => ?_
  · rw [heldBy_withPages_self, if_pos ((hmem _).mpr (.inr rfl))]
  · rw [hmem]
    refine or_iff_left fun e' => hc ?_
    rw [e, e']

/-- **A fresh frame is mapped for the record**, or given back. -/
theorem MmInv.mapPage (h : MmInv p0 s0 ps bs s) {i : Fin 16} {x : UserPage} {p' : Pmm} {m' : Mem}
    {flags : Nat} (hsp : (ps i).addressSpace ∈ s.spaces) (hf : Fresh p0 s.pmm x.paddr p')
    (hm : ∀ y, ¬ InPage x.paddr y → m' y = s.mem y) (hal : x.vaddr % 4096 = 0)
    (huser : x.vaddr < 0xC0000000) (hflags : flags % 2 = 1) :
    (∃ p'', vmmMapPageIn { s with pmm := p', mem := m' } (ps i).addressSpace x.vaddr x.paddr flags =
        .ok (-1, { s with pmm := p'', mem := m' }) ∧
      MmInv p0 s0 ps bs { s with pmm := pmmFreePage p'' x.paddr, mem := m' } ∧
      (pteWord s.mem (ps i).addressSpace (pdeIndex x.vaddr) (pteIndex x.vaddr) % 2 = 1 ∨
        tableOf s.mem (ps i).addressSpace (pdeIndex x.vaddr) = none ∧
          NoLowPage { s with pmm := p' })) ∨
    ∃ p'' m'', vmmMapPageIn { s with pmm := p', mem := m' } (ps i).addressSpace x.vaddr x.paddr
        flags = .ok (0, { s with pmm := p'', mem := m'' }) ∧
      MmInv p0 s0 (withPages ps i ((ps i).pages ++ [x])) bs { s with pmm := p'', mem := m'' } ∧
      ∃ t, Mapped (heldBy s.heapPages (withPages ps i ((ps i).pages ++ [x])))
        { s with pmm := p', mem := m' } m'' (ps i).addressSpace (pdeIndex x.vaddr)
        (pteIndex x.vaddr) t flags (x.paddr ||| (flags &&& 0xfff)) ∧
        tableFrom { s with pmm := p' } (ps i).addressSpace (pdeIndex x.vaddr) = (t, p'') := by
  have hv := h.freshPage i hf hm
  have hkept := h.vm.fresh_write hf.new hf.aligned hm
  obtain ⟨hdir, hpte⟩ := h.vm.words_kept hkept
  have htable : tableOf m' (ps i).addressSpace (pdeIndex x.vaddr) =
      tableOf s.mem (ps i).addressSpace (pdeIndex x.vaddr) :=
    tableOf_congr (hdir _ _ (.inr hsp) (pdeIndex_lt _))
  have hmap : mapOf { s with pmm := p', mem := m' } = mapOf s :=
    h.vm.mapOf_same (sameTables_of_roles hkept)
  have hheap : ∀ g ∈ s.heapPages, SamePage s.mem m' g := fun g hg => hkept _ g (frameOf_heap hg)
  have hfal : Allocated p0 p' x.paddr := (hf.taken _).mpr (.inl rfl)
  have hlt : x.paddr < 2 ^ 32 := by
    have := hfal.lt
    omega
  have hv32 : x.vaddr < 2 ^ 32 := by omega
  have hnew : x.paddr ∉ (ps i).frames := fun hx => hf.new (h.vm.own.mem (frameOf_page hx))
  have hself : heldBy s.heapPages (withPages ps i ((ps i).pages ++ [x])) (.page i x.paddr) =
      some x.paddr := by
    rw [heldBy_withPages_self, if_pos (List.mem_map_of_mem (by simp))]
  have hother : ∀ c, c ≠ .page i x.paddr →
      heldBy s.heapPages ps c = heldBy s.heapPages (withPages ps i ((ps i).pages ++ [x])) c := by
    refine fun c hc => (heldBy_withPages _ _ fun f e => ?_).symm
    rw [List.map_append, List.mem_append]
    refine or_iff_left fun e' => hc ?_
    rw [e, List.mem_singleton.mp e']
  rcases vmmMapPageIn_spec hv (.inr hsp) x.vaddr flags hlt with
    ⟨p'', e, hv', hwhy, -⟩ | ⟨t, p'', m'', e, hv', -, hpal, hown, hzero, hmapped, hfrom⟩
  · refine .inl ⟨p'', e, h.of_same ⟨rfl, rfl, fun d j hd _ hj => hdir d j hd hj, fun y hy => ?_⟩
      (fun d hd => hd) (hv'.dropClient hself (if_neg hnew) hother) (h.heap.of_pages rfl rfl hheap)
      (fun d hd n f => ?_) h.pages, ?_⟩
    · exact hm y (hy p' _ hfal)
    · rw [← h.maps d hd, ← hmap]
      exact Iff.rfl
    · rw [← htable, ← hpte _ _ _ (.inr hsp) (pdeIndex_lt _) (pteIndex_lt _)]
      exact hwhy hal hf.aligned (user_own huser)
  · have hset := hmapped.mapOf_eq hv' (.inr hsp) hown hv32 hlt hpal hflags
    have hnone : mapOf s (ps i).addressSpace (x.vaddr / 4096) = none := by
      rw [← hmap]
      refine (mapOf_page (s := { s with pmm := p', mem := m' }) (.inr hsp) hv32 hown).trans
        (if_neg ?_)
      rw [hzero]
      decide
    refine .inr ⟨p'', m'', e, h.of_same ⟨rfl, rfl, fun d j hd hdj hj => ?_, fun y hy => ?_⟩
      (fun d hd => hd) hv' (h.heap.of_pages rfl rfl fun g hg =>
        (hheap g hg).trans (hmapped.clients (.heap g) g (if_pos hg)))
      (fun d hd n f => ?_) fun j => ?_, t, hmapped, ?_⟩
    · refine (hmapped.dirs d j hd hj ?_).trans (hdir d j hd hj)
      rintro ⟨rfl, rfl⟩
      rcases hdj with hk | hk
      · exact h.space_ne_kernel hsp hk
      · rw [pdeIndex_eq] at hk
        omega
    · have ht : Allocated p0 p'' t :=
        hv'.own.mem (r := .table (ps i).addressSpace (pdeIndex x.vaddr))
          ((if_pos ⟨.inr hsp, hown⟩).trans hmapped.table)
      refine (hmapped.other y (hy s.pmm _ (h.vm.own.mem (frameOf_dir (.inr hsp)))) (hy p'' t ht)).trans
        (hm y (hy p' _ hfal))
    · refine Iff.trans (b := ((mapOf s).set (ps i).addressSpace (x.vaddr / 4096) (some x.paddr)) d n =
        some f) (by rw [← hmap, ← hset]) ?_
      unfold AddressMap.set
      by_cases hdn : d = (ps i).addressSpace ∧ n = x.vaddr / 4096
      · rw [if_pos hdn]
        constructor
        · intro hf
          exact ⟨i, (withPages_space ..).trans hdn.1.symm, x, by rw [withPages_self]; simp,
            hdn.2.symm, Option.some.inj hf⟩
        · rintro ⟨j, hj, y, hy, hyn, rfl⟩
          rw [withPages_space] at hj
          -- the page was not mapped, so the record that maps it is this one, with `x`
          have hold : y ∉ (ps j).pages := fun hy => by
            have := (h.maps d hd n y.paddr).mpr ⟨j, hj, y, hy, hyn, rfl⟩
            rw [hdn.1, hdn.2, hnone] at this
            cases this
          by_cases hji : j = i
          · subst hji
            rw [withPages_self, List.mem_append] at hy
            rw [List.mem_singleton.mp (hy.resolve_left hold)]
          · rw [withPages_of_ne hji] at hy
            exact absurd hy hold
      · rw [if_neg hdn, h.maps d hd]
        constructor
        · rintro ⟨j, hj, y, hy, hyn, hyf⟩
          refine ⟨j, (withPages_space ..).trans hj, y, ?_, hyn, hyf⟩
          by_cases hji : j = i
          · subst hji
            rw [withPages_self]
            exact List.mem_append_left _ hy
          · rwa [withPages_of_ne hji]
        · rintro ⟨j, hj, y, hy, hyn, hyf⟩
          rw [withPages_space] at hj
          refine ⟨j, hj, y, ?_, hyn, hyf⟩
          by_cases hji : j = i
          · subst hji
            rw [withPages_self, List.mem_append] at hy
            refine hy.resolve_right fun hy => hdn ⟨hj.symm, ?_⟩
            rw [← hyn, List.mem_singleton.mp hy]
          · rwa [withPages_of_ne hji] at hy
    · by_cases hji : j = i
      · subst hji
        refine ⟨?_, fun y hy => ?_, fun _ => (withPages_space ..).symm ▸ hsp⟩
        · unfold UserProcess.frames
          rw [withPages_self, List.map_append]
          refine (h.pages j).frames.append (List.nodup_singleton _) ?_
          rw [List.map_singleton, List.disjoint_singleton]
          exact hnew
        · rw [withPages_self, List.mem_append] at hy
          rcases hy with hy | hy
          · exact (h.pages j).user y hy
          · rw [List.mem_singleton.mp hy]
            exact ⟨hal, huser⟩
      · rw [withPages_of_ne hji]
        exact h.pages j
    · rw [← hfrom]
      unfold tableFrom
      rw [← htable]

/-! ## 7. Stores of user code -/

/-- The kernel half lets no user code through. -/
def HalfClosed (s0 : Mm) : Prop :=
  ∀ i, 768 ≤ i → i < 1024 → dirWord s0.mem s0.kernelPageDirectory i % 2 = 1 →
    dirWord s0.mem s0.kernelPageDirectory i / 4 % 2 = 0

/-- **What user code reaches is a page of a record** in the address space it runs on. -/
theorem MmInv.userPhys (h : MmInv p0 s0 ps bs s) (hc : HalfClosed s0) {d v a : Nat} {write : Bool}
    (hd : d ∈ s.spaces) (hv : v < 2 ^ 32) (ha : userPhys s.mem d v write = some a) :
    ∃ i, (ps i).addressSpace = d ∧ ∃ x ∈ (ps i).pages, x.vaddr / 4096 = v / 4096 ∧
      a = x.paddr + v % 4096 := by
  obtain ⟨⟨hpde, hpte⟩, e⟩ := Option.ite_none_right_eq_some.mp ha
  have hown : pdeIndex v < ownEntries s d := by
    refine Nat.lt_of_lt_of_le (m := 768) ?_ (ownEntries_le s d).1
    by_contra hge
    have hw := h.halfWords d hd _ (Nat.le_of_not_lt hge) (pdeIndex_lt v)
    have := hc _ (Nat.le_of_not_lt hge) (pdeIndex_lt v)
    rw [← hw, hpde.2.1] at this
    cases this hpde.1
  have hmap : mapOf s d (v / 4096) =
      some (entryFrame (pteWord s.mem d (pdeIndex v) (pteIndex v))) := by
    rw [mapOf_page (.inr hd) hv hown]
    exact if_pos hpte.1
  obtain ⟨i, hi, x, hx, hn, hf⟩ := (h.maps d hd _ _).mp hmap
  exact ⟨i, hi, x, hx, hn, by rw [hf]; exact (Option.some.inj e).symm⟩

/-- **A store of user code** changes a page of its record. -/
theorem MmInv.userStore (h : MmInv p0 s0 ps bs s) (hc : HalfClosed s0) {d v a : Nat} {b : Byte}
    (hd : d ∈ s.spaces) (hv : v < 2 ^ 32) (ha : Emyx.userPhys s.mem d v true = some a) :
    MmInv p0 s0 ps bs { s with mem := wr8 s.mem a b } := by
  obtain ⟨i, -, x, hx, -, ea⟩ := h.userPhys hc hd hv ha
  have hx' : x.paddr ∈ (ps i).frames := List.mem_map_of_mem hx
  have hin : InPage x.paddr a := by
    unfold InPage
    omega
  have hout : ∀ y, ¬ InPage x.paddr y → wr8 s.mem a b y = s.mem y := fun y hy =>
    wr8_outside (Nat.lt_or_gt_of_ne fun e => hy (e ▸ hin))
  refine h.of_clients (fun y hy => hout y (hy (.page i x.paddr) _ (if_pos hx')))
    (h.heap.of_pages rfl rfl fun g hg y hy => hout y ?_)
  have hpage := frameOf_page (s := s) hx'
  have hheap : frameOf s (heldBy s.heapPages ps) (.client (.heap g)) = some g := frameOf_heap hg
  exact not_inPage (h.vm.aligned hpage) (h.vm.aligned hheap)
    (h.vm.frame_ne hpage hheap (by nofun)) hy

end

end Emyx
