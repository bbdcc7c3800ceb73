/-
  File:      Emyx/Vmm/Invariant.lean
  Subject:   THE INVARIANT OF THE PAGE TABLES: who owns which frame, and the three writes that
             every mapping operation is made of.

  * `Role`, `frameOf` -- a frame taken from the page allocator is a directory, a page table of a
    directory, or held by a client (a heap page, a user page, …);
  * `VmInv p0 held s` -- the frames taken since `pmm_init` are exactly those of the roles, each in
    one role; directories and tables lie in the direct map; the direct map is in place;
  * `VmInv.writeDir`, `VmInv.writeTable`, `VmInv.addTable` -- changing the flags of a directory
    entry, writing a table entry, and putting a cleared table behind an empty directory entry keep
    it. Read through `pteWord`, only the second one changes anything.
-/
import Emyx.Lib.Ownership
import Emyx.Pmm.Run
import Emyx.Vmm.Model

namespace Emyx

open Lib

/-! ## 1. Roles -/

/-- What a frame is for. -/
inductive Role (κ : Type) where
  | dir (d : Nat)
  | table (d i : Nat)
  | client (c : κ)

/-- The directory is the kernel's or that of an address space created and not destroyed. -/
def IsDir (s : Mm) (d : Nat) : Prop := d = s.kernelPageDirectory ∨ d ∈ s.spaces

instance (s : Mm) (d : Nat) : Decidable (IsDir s d) := inferInstanceAs (Decidable (_ ∨ _))

/-- How many entries of the directory are its own: the kernel half of an address space holds the
    kernel's tables. -/
def ownEntries (s : Mm) (d : Nat) : Nat := if d = s.kernelPageDirectory then 1024 else 768

variable {κ : Type}

/-- The frame that fills a role. -/
def frameOf (s : Mm) (held : κ → Option Nat) : Role κ → Option Nat
  | .dir d => if IsDir s d then some d else none
  | .table d i => if IsDir s d ∧ i < ownEntries s d then tableOf s.mem d i else none
  | .client c => held c

/-- The first 16 MiB appear at `0xC0000000`. -/
def DirectMap (s : Mm) : Prop :=
  ∀ x, x < 0x1000000 → walk s.mem s.kernelPageDirectory (0xC0000000 + x) = some x

structure VmInv (p0 : Pmm) (held : κ → Option Nat) (s : Mm) : Prop where
  pmm : PmmOk p0 s.pmm
  low : p0.maxPage ≤ 2 ^ 20
  own : Own (frameOf s held) (Allocated p0 s.pmm)
  nodup : (s.kernelPageDirectory :: s.spaces).Nodup
  dirLimit : ∀ d, IsDir s d → d + 4096 ≤ 0x1000000
  tableLimit : ∀ d i t, IsDir s d → i < ownEntries s d → tableOf s.mem d i = some t →
    t + 4096 ≤ 0x1000000
  shared : ∀ d ∈ s.spaces, ∀ i, 768 ≤ i → i < 1024 → ∀ t, tableOf s.mem d i = some t →
    tableOf s.mem s.kernelPageDirectory i = some t
  direct : DirectMap s

section

variable {p0 : Pmm} {held : κ → Option Nat} {s : Mm}

theorem frameOf_dir {d : Nat} (hd : IsDir s d) : frameOf s held (.dir d) = some d := if_pos hd

theorem frameOf_table {d i : Nat} (hd : IsDir s d) (hi : i < ownEntries s d) :
    frameOf s held (.table d i) = tableOf s.mem d i := if_pos ⟨hd, hi⟩

theorem frameOf_dir_some {d f : Nat} : frameOf s held (.dir d) = some f ↔ IsDir s d ∧ f = d := by
  unfold frameOf
  by_cases hd : IsDir s d <;> simp [hd, eq_comm]

theorem frameOf_table_some {d i f : Nat} : frameOf s held (.table d i) = some f ↔
    (IsDir s d ∧ i < ownEntries s d) ∧ tableOf s.mem d i = some f := by
  unfold frameOf
  by_cases hd : IsDir s d ∧ i < ownEntries s d <;> simp [hd]

theorem ownEntries_le (s : Mm) (d : Nat) : 768 ≤ ownEntries s d ∧ ownEntries s d ≤ 1024 := by
  unfold ownEntries
  split
  · exact ⟨by decide, by decide⟩
  · exact ⟨by decide, by decide⟩

theorem isDir_kernel (s : Mm) : IsDir s s.kernelPageDirectory := Or.inl rfl

theorem ownEntries_kernel (s : Mm) : ownEntries s s.kernelPageDirectory = 1024 := if_pos rfl

theorem VmInv.addressable (h : VmInv p0 held s) : Addressable s.pmm :=
  addressable_of_maxPage (by rw [h.pmm.maxPage]; exact h.low)

theorem VmInv.aligned (h : VmInv p0 held s) {r : Role κ} {f : Nat}
    (hr : frameOf s held r = some f) : f % 4096 = 0 := (h.own.mem hr).aligned

theorem VmInv.dir_aligned (h : VmInv p0 held s) {d : Nat} (hd : IsDir s d) : d % 4096 = 0 :=
  h.aligned (frameOf_dir hd)

theorem VmInv.dir_pos (h : VmInv p0 held s) {d : Nat} (hd : IsDir s d) : 4096 ≤ d :=
  (h.own.mem (frameOf_dir hd)).pos

/-- Frames of different roles are different. -/
theorem VmInv.frame_ne (h : VmInv p0 held s) {r r' : Role κ} {f f' : Nat}
    (hr : frameOf s held r = some f) (hr' : frameOf s held r' = some f') (hne : r ≠ r') :
    f ≠ f' := fun e => hne (h.own.inj hr (e ▸ hr'))

/-- A table behind an entry is the table of one role: the entry's own, or the kernel's behind the
    same entry. -/
theorem VmInv.table_role (h : VmInv p0 held s) {d i t : Nat} (hd : IsDir s d) (hi : i < 1024)
    (ht : tableOf s.mem d i = some t) :
    (i < ownEntries s d ∧ frameOf s held (.table d i) = some t) ∨
    (d ∈ s.spaces ∧ 768 ≤ i ∧ frameOf s held (.table s.kernelPageDirectory i) = some t) := by
  by_cases hown : i < ownEntries s d
  · exact Or.inl ⟨hown, (frameOf_table hd hown).trans ht⟩
  · have hne : d ≠ s.kernelPageDirectory := fun e => by
      rw [e, ownEntries_kernel] at hown
      exact hown hi
    have hs : d ∈ s.spaces := hd.resolve_left hne
    have h768 : 768 ≤ i := by
      unfold ownEntries at hown
      rw [if_neg hne] at hown
      omega
    refine Or.inr ⟨hs, h768, ?_⟩
    rw [frameOf_table (isDir_kernel s) (by rw [ownEntries_kernel]; exact hi)]
    exact h.shared d hs i h768 hi t ht

theorem VmInv.table_limit (h : VmInv p0 held s) {d i t : Nat} (hd : IsDir s d) (hi : i < 1024)
    (ht : tableOf s.mem d i = some t) : t + 4096 ≤ 0x1000000 := by
  rcases h.table_role hd hi ht with ⟨hown, _⟩ | ⟨hs, h768, hk⟩
  · exact h.tableLimit d i t hd hown ht
  · refine h.tableLimit s.kernelPageDirectory i t (isDir_kernel s)
      (by rw [ownEntries_kernel]; exact hi) ?_
    exact h.shared d hs i h768 hi t ht

/-- A table is no directory. -/
theorem VmInv.table_ne_dir (h : VmInv p0 held s) {d i t d' : Nat} (hd : IsDir s d) (hi : i < 1024)
    (ht : tableOf s.mem d i = some t) (hd' : IsDir s d') : t ≠ d' := by
  rcases h.table_role hd hi ht with ⟨_, hr⟩ | ⟨_, _, hr⟩
  · exact h.frame_ne hr (frameOf_dir hd') (by intro e; cases e)
  · exact h.frame_ne hr (frameOf_dir hd') (by intro e; cases e)

/-- The table behind an own entry is behind no other entry, except that the address spaces show
    the kernel's tables in their kernel half. -/
theorem VmInv.table_unique (h : VmInv p0 held s) {d i d' i' t : Nat} (hd : IsDir s d)
    (hi : i < ownEntries s d) (ht : tableOf s.mem d i = some t) (hd' : IsDir s d') (hi' : i' < 1024)
    (ht' : tableOf s.mem d' i' = some t) :
    (d' = d ∧ i' = i) ∨ (d = s.kernelPageDirectory ∧ i' = i ∧ 768 ≤ i ∧ d' ∈ s.spaces) := by
  have hr : frameOf s held (.table d i) = some t := (frameOf_table hd hi).trans ht
  rcases h.table_role hd' hi' ht' with ⟨_, hr'⟩ | ⟨hs, h768, hr'⟩
  · have e := h.own.inj hr' hr
    cases e
    exact Or.inl ⟨rfl, rfl⟩
  · have e := h.own.inj hr' hr
    cases e
    exact Or.inr ⟨rfl, rfl, h768, hs⟩

/-! ## 2. Accesses -/

theorem DirectMap.direct (h : DirectMap s) {x : Nat} (hx : x < 0x1000000) :
    s.direct (0xC0000000 + x) = .ok x := by
  unfold Mm.direct
  rw [h x hx]

theorem DirectMap.load (h : DirectMap s) {f i : Nat} (hf : f + 4096 ≤ 0x1000000) (hi : i < 1024) :
    s.load (0xC0000000 + f) i = .ok (rd32 s.mem (f + 4 * i)) := by
  unfold Mm.load
  rw [Nat.add_assoc, h.direct (by omega)]
  rfl

theorem DirectMap.store (h : DirectMap s) {f i v : Nat} (hf : f + 4096 ≤ 0x1000000)
    (hi : i < 1024) :
    s.store (0xC0000000 + f) i v = .ok { s with mem := wr32 s.mem (f + 4 * i) v } := by
  unfold Mm.store
  rw [Nat.add_assoc, h.direct (by omega)]
  rfl

theorem DirectMap.clearPage (h : DirectMap s) {f : Nat} (hf : f + 4096 ≤ 0x1000000) :
    s.clearPage (0xC0000000 + f) = .ok { s with mem := memset s.mem f 0 4096 } := by
  unfold Mm.clearPage
  rw [h.direct (by omega)]
  rfl

/-- The direct map is in place as long as its tables' words are. -/
theorem DirectMap.congr (h : DirectMap s) {m' : Mem}
    (hp : ∀ i j, 768 ≤ i → i < 772 → j < 1024 →
      pteWord m' s.kernelPageDirectory i j = pteWord s.mem s.kernelPageDirectory i j) :
    ∀ x, x < 0x1000000 → walk m' s.kernelPageDirectory (0xC0000000 + x) = some x := by
  intro x hx
  rw [← h x hx]
  refine walk_congr (hp _ _ ?_ ?_ (pteIndex_lt _))
  · rw [pdeIndex_eq]
    omega
  · rw [pdeIndex_eq]
    omega

/-! ## 3. The three writes -/

/-- A change of memory that keeps every directory's tables and the words of the direct map. -/
theorem VmInv.of_tables (h : VmInv p0 held s) {m' : Mem}
    (ht : ∀ d i, IsDir s d → i < 1024 → tableOf m' d i = tableOf s.mem d i)
    (hw : ∀ i j, 768 ≤ i → i < 772 → j < 1024 →
      pteWord m' s.kernelPageDirectory i j = pteWord s.mem s.kernelPageDirectory i j) :
    VmInv p0 held { s with mem := m' } := by
  have hown : ∀ d, ownEntries s d ≤ 1024 := fun d => (ownEntries_le s d).2
  refine ⟨h.pmm, h.low, h.own.congr (fun r => ?_) fun f => Iff.rfl, h.nodup, h.dirLimit,
    fun d i t hd hi he => ?_, fun d hd i h768 hi t he => ?_, h.direct.congr hw⟩
  · cases r with
    | dir d => rfl
    | client c => rfl
    | table d i =>
      by_cases hdi : IsDir s d ∧ i < ownEntries s d
      · exact (if_pos hdi).trans
          ((ht d i hdi.1 (Nat.lt_of_lt_of_le hdi.2 (hown d))).trans (if_pos hdi).symm)
      · exact (if_neg hdi).trans (if_neg hdi).symm
  · exact h.tableLimit d i t hd hi ((ht d i hd (Nat.lt_of_lt_of_le hi (hown d))).symm.trans he)
  · have := h.shared d hd i h768 hi t ((ht d i (Or.inr hd) hi).symm.trans he)
    exact (ht _ i (isDir_kernel s) hi).trans this

/-- A word written into a directory changes that entry only. -/
theorem VmInv.dirWord_write (h : VmInv p0 held s) {d i d' i' w : Nat} (hd : IsDir s d)
    (hi : i < 1024) (hd' : IsDir s d') (hi' : i' < 1024) :
    dirWord (wr32 s.mem (d + 4 * i) w) d' i' =
      if d' = d ∧ i' = i then w % 2 ^ 32 else dirWord s.mem d' i' := by
  have ha := h.dir_aligned hd
  have ha' := h.dir_aligned hd'
  unfold dirWord
  split
  · rename_i e
    rw [e.1, e.2, rd32_wr32]
  · rename_i e
    exact rd32_wr32_outside (by omega)

/-- **Changing the flags of a directory entry** changes no table and no table's word. -/
theorem VmInv.writeDir (h : VmInv p0 held s) {d i t w : Nat} (hd : IsDir s d) (hi : i < 1024)
    (ht : tableOf s.mem d i = some t) (hw : w < 2 ^ 32) (hp : w % 2 = 1) (hf : entryFrame w = t) :
    VmInv p0 held { s with mem := wr32 s.mem (d + 4 * i) w } ∧
    ∀ d' i' j, IsDir s d' → i' < 1024 → j < 1024 →
      pteWord (wr32 s.mem (d + 4 * i) w) d' i' j = pteWord s.mem d' i' j := by
  have htab : ∀ d' i', IsDir s d' → i' < 1024 →
      tableOf (wr32 s.mem (d + 4 * i) w) d' i' = tableOf s.mem d' i' := fun d' i' hd' hi' => by
    have hword := h.dirWord_write (w := w) hd hi hd' hi'
    by_cases e : d' = d ∧ i' = i
    · rw [if_pos e, Nat.mod_eq_of_lt hw] at hword
      rw [e.1, e.2] at hword ⊢
      rw [ht, tableOf_of_word hword hp, hf]
    · rw [if_neg e] at hword
      exact tableOf_congr hword
  have hpte : ∀ d' i' j, IsDir s d' → i' < 1024 → j < 1024 →
      pteWord (wr32 s.mem (d + 4 * i) w) d' i' j = pteWord s.mem d' i' j :=
    fun d' i' j hd' hi' hj => pteWord_congr (htab d' i' hd' hi') (fun t' ht' =>
      samePage_wr32 (tableOf_aligned ht') (h.dir_aligned hd) (h.table_ne_dir hd' hi' ht' hd) hi) hj
  exact ⟨h.of_tables htab fun i' j h1 h2 hj => hpte _ i' j (isDir_kernel s) (by omega) hj, hpte⟩

/-- A word written into a table changes that word, wherever the table shows, and nothing else. -/
theorem VmInv.words_writeTable (h : VmInv p0 held s) {d i t j : Nat} (w : Nat) (hd : IsDir s d)
    (hi : i < 1024) (ht : tableOf s.mem d i = some t) (hj : j < 1024) :
    (∀ d' i', IsDir s d' → i' < 1024 →
      dirWord (wr32 s.mem (t + 4 * j) w) d' i' = dirWord s.mem d' i') ∧
    ∀ d' i' j', IsDir s d' → i' < 1024 → j' < 1024 →
      pteWord (wr32 s.mem (t + 4 * j) w) d' i' j' =
        if tableOf s.mem d' i' = some t ∧ j' = j then w % 2 ^ 32 else pteWord s.mem d' i' j' := by
  have hta := tableOf_aligned ht
  have hdir : ∀ d' i', IsDir s d' → i' < 1024 →
      dirWord (wr32 s.mem (t + 4 * j) w) d' i' = dirWord s.mem d' i' := fun d' i' hd' hi' =>
    dirWord_congr (samePage_wr32 (h.dir_aligned hd') hta (h.table_ne_dir hd hi ht hd').symm hj) hi'
  refine ⟨hdir, fun d' i' j' hd' hi' hj' => ?_⟩
  have htab := tableOf_congr (hdir d' i' hd' hi')
  cases he : tableOf s.mem d' i' with
  | none =>
    rw [pteWord_of_none (htab.trans he), pteWord_of_none he, if_neg (fun e => by cases e.1)]
  | some t' =>
    have hta' := tableOf_aligned he
    rw [pteWord_of_table (htab.trans he), pteWord_of_table he]
    by_cases e : t' = t ∧ j' = j
    · rw [if_pos ⟨by rw [e.1], e.2⟩, e.1, e.2, rd32_wr32]
    · rw [if_neg fun e' => e ⟨Option.some.inj e'.1, e'.2⟩]
      exact rd32_wr32_outside (by omega)

/-- **Writing a table entry** off the direct map keeps the invariant. -/
theorem VmInv.writeTable (h : VmInv p0 held s) {d i t j : Nat} (w : Nat) (hd : IsDir s d)
    (hi : i < ownEntries s d) (ht : tableOf s.mem d i = some t) (hj : j < 1024)
    (hwin : d = s.kernelPageDirectory → ¬ (768 ≤ i ∧ i < 772)) :
    VmInv p0 held { s with mem := wr32 s.mem (t + 4 * j) w } := by
  have hi4 : i < 1024 := Nat.lt_of_lt_of_le hi (ownEntries_le s d).2
  obtain ⟨hdir, hpte⟩ := h.words_writeTable w hd hi4 ht hj
  refine h.of_tables (fun d' i' hd' hi' => tableOf_congr (hdir d' i' hd' hi'))
    fun i' j' h1 h2 hj' => ?_
  rw [hpte _ i' j' (isDir_kernel s) (by omega) hj', if_neg]
  -- the table of an entry of the direct map is another one
  intro e
  rcases h.table_unique hd hi ht (isDir_kernel s) (by omega) e.1 with ⟨e1, e2⟩ | ⟨e1, e2, _⟩
  · exact hwin e1.symm (by omega)
  · exact hwin e1 (by omega)

/-- A frame the allocator has just taken for us. -/
structure Fresh (p0 p : Pmm) (f : Nat) (p' : Pmm) : Prop where
  ok : PmmOk p0 p'
  new : ¬ Allocated p0 p f
  taken : ∀ g, Allocated p0 p' g ↔ g = f ∨ Allocated p0 p g
  aligned : f % 4096 = 0

/-- `pmm_alloc_page` gives a fresh frame or none. -/
theorem fresh_alloc {p : Pmm} (hok : PmmOk p0 p) (ha : Addressable p) :
    pmmAllocPage p = (0, p) ∨ ∃ f p', pmmAllocPage p = (f, p') ∧ 4096 ≤ f ∧ Fresh p0 p f p' := by
  rcases pmmAllocPage_spec hok ha with ⟨_, e⟩ | ⟨f, p', e, h0, hok, _, hal, hnew, hall, _⟩
  · exact Or.inl e
  · exact Or.inr ⟨f, p', e, by omega, hok, hnew, hall, hal⟩

theorem VmInv.alloc (h : VmInv p0 held s) :
    pmmAllocPage s.pmm = (0, s.pmm) ∨
    ∃ f p', pmmAllocPage s.pmm = (f, p') ∧ 4096 ≤ f ∧ Fresh p0 s.pmm f p' :=
  fresh_alloc h.pmm h.addressable

/-- A change of the allocator that leaves the taken frames as they are. -/
theorem VmInv.of_pmm (h : VmInv p0 held s) {p' : Pmm} (hok : PmmOk p0 p')
    (ha : ∀ g, Allocated p0 p' g ↔ Allocated p0 s.pmm g) : VmInv p0 held { s with pmm := p' } :=
  ⟨hok, h.low, h.own.congr (fun r => by cases r <;> rfl) ha, h.nodup, h.dirLimit, h.tableLimit,
    h.shared, h.direct⟩

/-- The frame is in no role. -/
theorem VmInv.fresh_ne (h : VmInv p0 held s) {f : Nat} (hf : ¬ Allocated p0 s.pmm f) {r : Role κ}
    {g : Nat} (hr : frameOf s held r = some g) : g ≠ f := fun e => hf (e ▸ h.own.mem hr)

/-- The directories and the tables in use are the same in `m'`. -/
structure SameTables (s : Mm) (m' : Mem) : Prop where
  dir : ∀ d, IsDir s d → SamePage s.mem m' d
  table : ∀ d i t, IsDir s d → i < ownEntries s d → tableOf s.mem d i = some t →
    SamePage s.mem m' t

/-- A change off the frames in use is one. -/
theorem sameTables_of_roles {m' : Mem}
    (hm : ∀ (r : Role κ) g, frameOf s held r = some g → SamePage s.mem m' g) : SameTables s m' :=
  ⟨fun _ hd => hm _ _ (frameOf_dir hd),
    fun _ _ _ hd hi ht => hm _ _ ((frameOf_table hd hi).trans ht)⟩

/-- A directory's entries and every table's words survive such a change. -/
theorem VmInv.words_same (h : VmInv p0 held s) {m' : Mem} (hm : SameTables s m') :
    (∀ d i, IsDir s d → i < 1024 → dirWord m' d i = dirWord s.mem d i) ∧
    ∀ d i j, IsDir s d → i < 1024 → j < 1024 → pteWord m' d i j = pteWord s.mem d i j := by
  have hdir : ∀ d i, IsDir s d → i < 1024 → dirWord m' d i = dirWord s.mem d i :=
    fun d i hd hi => dirWord_congr (hm.dir d hd) hi
  refine ⟨hdir, fun d i j hd hi hj => pteWord_congr (tableOf_congr (hdir d i hd hi))
    (fun t ht => ?_) hj⟩
  rcases h.table_role hd hi ht with ⟨hown, _⟩ | ⟨_, _, hr⟩
  · exact hm.table d i t hd hown ht
  · have hown : i < ownEntries s s.kernelPageDirectory := by
      rw [ownEntries_kernel]
      exact hi
    exact hm.table _ i t (isDir_kernel s) hown ((frameOf_table (isDir_kernel s) hown).symm.trans hr)

theorem VmInv.of_sameTables (h : VmInv p0 held s) {m' : Mem} (hm : SameTables s m') :
    VmInv p0 held { s with mem := m' } := by
  obtain ⟨hdir, hpte⟩ := h.words_same hm
  exact h.of_tables (fun d i hd hi => tableOf_congr (hdir d i hd hi))
    fun i j h1 h2 hj => hpte _ i j (isDir_kernel s) (by omega) hj

theorem VmInv.words_kept (h : VmInv p0 held s) {m' : Mem}
    (hm : ∀ (r : Role κ) g, frameOf s held r = some g → SamePage s.mem m' g) :
    (∀ d i, IsDir s d → i < 1024 → dirWord m' d i = dirWord s.mem d i) ∧
    ∀ d i j, IsDir s d → i < 1024 → j < 1024 → pteWord m' d i j = pteWord s.mem d i j :=
  h.words_same (sameTables_of_roles hm)

theorem VmInv.of_samePages (h : VmInv p0 held s) {m' : Mem}
    (hm : ∀ (r : Role κ) g, frameOf s held r = some g → SamePage s.mem m' g) :
    VmInv p0 held { s with mem := m' } := h.of_sameTables (sameTables_of_roles hm)

/-- **A cleared table behind an empty directory entry**: read through `pteWord`, nothing changes. -/
theorem VmInv.addTable (h : VmInv p0 held s) {d i f : Nat} {p' : Pmm} (hd : IsDir s d)
    (hi : i < ownEntries s d) (ht : tableOf s.mem d i = none) (hf : Fresh p0 s.pmm f p')
    (hlim : f + 4096 ≤ 0x1000000) :
    VmInv p0 held { s with pmm := p', mem := wr32 (memset s.mem f 0 4096) (d + 4 * i) (f ||| 1) } ∧
    (∀ d' i', IsDir s d' → i' < 1024 →
      dirWord (wr32 (memset s.mem f 0 4096) (d + 4 * i) (f ||| 1)) d' i' =
        if d' = d ∧ i' = i then f + 1 else dirWord s.mem d' i') ∧
    (∀ d' i' j, IsDir s d' → i' < 1024 → j < 1024 →
      pteWord (wr32 (memset s.mem f 0 4096) (d + 4 * i) (f ||| 1)) d' i' j =
        pteWord s.mem d' i' j) ∧
    ∀ (r : Role κ) g, frameOf s held r = some g → g ≠ d →
      SamePage s.mem (wr32 (memset s.mem f 0 4096) (d + 4 * i) (f ||| 1)) g := by
  have hi4 : i < 1024 := Nat.lt_of_lt_of_le hi (ownEntries_le s d).2
  have hfa := hf.aligned
  have hda := h.dir_aligned hd
  have hfd : f ≠ d := (h.fresh_ne hf.new (frameOf_dir hd)).symm
  rw [frame_or_flags hfa (by decide)]
  -- first the page is cleared, then the entry is written
  have hclear : ∀ (r : Role κ) g, frameOf s held r = some g →
      SamePage s.mem (memset s.mem f 0 4096) g := fun r g hr =>
    samePage_memset (h.aligned hr) hfa (h.fresh_ne hf.new hr)
  have h1 := h.of_samePages hclear
  obtain ⟨hdir1, hpte1⟩ := h.words_kept hclear
  generalize hm1 : memset s.mem f 0 4096 = m1 at *
  have hdir : ∀ d' i', IsDir s d' → i' < 1024 → dirWord (wr32 m1 (d + 4 * i) (f + 1)) d' i' =
      if d' = d ∧ i' = i then f + 1 else dirWord s.mem d' i' := fun d' i' hd' hi' => by
    rw [h1.dirWord_write hd hi4 hd' hi', Nat.mod_eq_of_lt (by omega), hdir1 d' i' hd' hi']
  have hnew : tableOf (wr32 m1 (d + 4 * i) (f + 1)) d i = some f := by
    exact tableOf_present ((hdir d i hd hi4).trans (if_pos ⟨rfl, rfl⟩)) hfa (by omega)
  have hold : ∀ d' i', IsDir s d' → i' < 1024 → ¬ (d' = d ∧ i' = i) →
      tableOf (wr32 m1 (d + 4 * i) (f + 1)) d' i' = tableOf s.mem d' i' := fun d' i' hd' hi' hne =>
    tableOf_congr (by rw [hdir d' i' hd' hi', if_neg hne])
  have hsame : ∀ (r : Role κ) g, frameOf s held r = some g → g ≠ d →
      SamePage s.mem (wr32 m1 (d + 4 * i) (f + 1)) g := fun r g hr hne =>
    (hclear r g hr).trans (samePage_wr32 (h.aligned hr) hda hne hi4)
  have hpte : ∀ d' i' j, IsDir s d' → i' < 1024 → j < 1024 →
      pteWord (wr32 m1 (d + 4 * i) (f + 1)) d' i' j = pteWord s.mem d' i' j :=
    fun d' i' j hd' hi' hj => by
      by_cases e : d' = d ∧ i' = i
      · rw [e.1, e.2, pteWord_of_table hnew, pteWord_of_none ht,
          (samePage_wr32 hfa hda hfd hi4).word hj, ← hm1]
        exact rd32_memset_zero (by omega) (by omega)
      · refine pteWord_congr (hold d' i' hd' hi' e) (fun t' ht' => ?_) hj
        rcases h.table_role hd' hi' ht' with ⟨_, hr⟩ | ⟨_, _, hr⟩
        · exact hsame _ t' hr (h.table_ne_dir hd' hi' ht' hd)
        · exact hsame _ t' hr (h.table_ne_dir hd' hi' ht' hd)
  refine ⟨⟨hf.ok, h.low, ?_, h.nodup, h.dirLimit, fun d' i' t hd' hi' he => ?_,
    fun d' hd' i' h768 hi' t he => ?_, h.direct.congr fun i' j h1 h2 hj =>
      hpte _ i' j (isDir_kernel s) (by omega) hj⟩, hdir, hpte, hsame⟩
  · refine h.own.add (r := .table d i) ((frameOf_table hd hi).trans ht) hf.new
      ((if_pos ⟨hd, hi⟩).trans hnew) (fun r hr => ?_) hf.taken
    cases r with
    | dir d' => rfl
    | client c => rfl
    | table d' i' =>
      by_cases hdi : IsDir s d' ∧ i' < ownEntries s d'
      · refine (if_pos hdi).trans (Eq.trans ?_ (if_pos hdi).symm)
        refine hold d' i' hdi.1 (Nat.lt_of_lt_of_le hdi.2 (ownEntries_le s d').2) fun e => hr ?_
        rw [e.1, e.2]
      · exact (if_neg hdi).trans (if_neg hdi).symm
  · have hi4' : i' < 1024 := Nat.lt_of_lt_of_le hi' (ownEntries_le s d').2
    by_cases e : d' = d ∧ i' = i
    · rw [e.1, e.2] at he
      have := Option.some.inj (hnew.symm.trans he)
      omega
    · exact h.tableLimit d' i' t hd' hi' ((hold d' i' hd' hi4' e).symm.trans he)
  · -- the new entry is its directory's own, so no address space shows it
    have hne : ¬ (d' = d ∧ i' = i) := fun e => by
      have hk : d' ≠ s.kernelPageDirectory := fun ek =>
        (List.nodup_cons.mp h.nodup).1 (ek ▸ hd')
      rw [← e.1, ← e.2] at hi
      unfold ownEntries at hi
      rw [if_neg hk] at hi
      omega
    have hk := h.shared d' hd' i' h768 hi' t ((hold d' i' (Or.inr hd') hi' hne).symm.trans he)
    refine (hold _ i' (isDir_kernel s) hi' fun e => ?_).trans hk
    rw [e.1, e.2, ht] at hk
    cases hk

theorem isDir_cons {f d : Nat} {p' : Pmm} {m' : Mem} :
    IsDir { s with pmm := p', mem := m', spaces := f :: s.spaces } d ↔ d = f ∨ IsDir s d := by
  unfold IsDir
  rw [List.mem_cons, or_left_comm]

/-- Which directories are left when `d` is destroyed. -/
theorem VmInv.isDir_erase (h : VmInv p0 held s) {d d' : Nat} {p' : Pmm} (hd : d ∈ s.spaces) :
    IsDir { s with pmm := p', spaces := s.spaces.erase d } d' ↔ d' ≠ d ∧ IsDir s d' := by
  have hnd := List.nodup_cons.mp h.nodup
  unfold IsDir
  simp only [hnd.2.mem_erase_iff]
  constructor
  · intro h'
    rcases h' with rfl | h'
    · exact ⟨fun e => hnd.1 (e ▸ hd), Or.inl rfl⟩
    · exact ⟨h'.1, Or.inr h'.2⟩
  · exact fun h' => h'.2.imp id fun h2 => ⟨h'.1, h2⟩

/-- **A new address space**: a fresh directory, empty in its user half, the kernel's entries in
    its kernel half. -/
theorem VmInv.addSpace (h : VmInv p0 held s) {f : Nat} {p' : Pmm} {m' : Mem}
    (hf : Fresh p0 s.pmm f p') (hlim : f + 4096 ≤ 0x1000000)
    (hm : ∀ (r : Role κ) g, frameOf s held r = some g → SamePage s.mem m' g)
    (hnew : ∀ i, i < 1024 → dirWord m' f i =
      if i < 768 then 0 else dirWord s.mem s.kernelPageDirectory i) :
    VmInv p0 held { s with pmm := p', mem := m', spaces := f :: s.spaces } := by
  obtain ⟨hdir, hpte⟩ := h.words_kept hm
  have hnot : ∀ d, IsDir s d → d ≠ f := fun d hd => h.fresh_ne hf.new (frameOf_dir hd)
  have hk : f ≠ s.kernelPageDirectory := (hnot _ (isDir_kernel s)).symm
  have hempty : ∀ i, i < 768 → tableOf m' f i = none := fun i hi => by
    unfold tableOf
    rw [hnew i (by omega), if_pos hi]
    rfl
  have hold : ∀ d i, IsDir s d → i < 1024 → tableOf m' d i = tableOf s.mem d i :=
    fun d i hd hi => tableOf_congr (hdir d i hd hi)
  refine ⟨hf.ok, h.low, ?_, ?_, fun d hd => ?_, fun d i t hd hi he => ?_,
    fun d hd i h768 hi t he => ?_, h.direct.congr fun i j h1 h2 hj =>
      hpte _ i j (isDir_kernel s) (by omega) hj⟩
  · refine h.own.add (r := .dir f) (if_neg fun hd => hnot f hd rfl) hf.new
      (if_pos (isDir_cons.mpr (Or.inl rfl))) (fun r hr => ?_) hf.taken
    cases r with
    | client c => rfl
    | dir d =>
      have hdf : d ≠ f := fun e => hr (by rw [e])
      by_cases hd : IsDir s d
      · exact (if_pos (isDir_cons.mpr (Or.inr hd))).trans (if_pos hd).symm
      · exact (if_neg fun hc => hd ((isDir_cons.mp hc).resolve_left hdf)).trans (if_neg hd).symm
    | table d i =>
      by_cases hdi : IsDir s d ∧ i < ownEntries s d
      · refine (if_pos ⟨isDir_cons.mpr (Or.inr hdi.1), hdi.2⟩).trans (Eq.trans ?_ (if_pos hdi).symm)
        exact hold d i hdi.1 (Nat.lt_of_lt_of_le hdi.2 (ownEntries_le s d).2)
      · refine Eq.trans ?_ (if_neg hdi).symm
        show (if _ then tableOf m' d i else none) = none
        split
        · rename_i hc
          have hdf : d = f := (isDir_cons.mp hc.1).resolve_right fun hd => hdi ⟨hd, hc.2⟩
          subst hdf
          refine hempty i ?_
          have := hc.2
          unfold ownEntries at this
          rw [if_neg hk] at this
          exact this
        · rfl
  · have := h.nodup
    rw [List.nodup_cons] at this ⊢
    refine ⟨?_, List.nodup_cons.mpr ⟨fun hm => hnot f (Or.inr hm) rfl, this.2⟩⟩
    intro hc
    rcases List.mem_cons.mp hc with e | hc
    · exact hk e.symm
    · exact this.1 hc
  · rcases isDir_cons.mp hd with rfl | hd
    · exact hlim
    · exact h.dirLimit d hd
  · rcases isDir_cons.mp hd with rfl | hd
    · unfold ownEntries at hi
      rw [if_neg hk] at hi
      rw [hempty i hi] at he
      cases he
    · exact h.tableLimit d i t hd hi
        ((hold d i hd (Nat.lt_of_lt_of_le hi (ownEntries_le s d).2)).symm.trans he)
  · refine (hold _ i (isDir_kernel s) hi).trans ?_
    rcases List.mem_cons.mp hd with rfl | hd
    · have hw := (hnew i hi).trans (if_neg (by omega))
      rw [← he]
      unfold tableOf
      rw [hw]
    · exact h.shared d hd i h768 hi t ((hold d i (Or.inr hd) hi).symm.trans he)

/-- **An address space destroyed**: its directory and the tables of its user half are free. -/
theorem VmInv.removeSpace (h : VmInv p0 held s) {d : Nat} {p' : Pmm} (hd : d ∈ s.spaces)
    (hok : PmmOk p0 p')
    (ha : ∀ g, Allocated p0 p' g ↔
      Allocated p0 s.pmm g ∧ g ≠ d ∧ ∀ i, i < 768 → tableOf s.mem d i ≠ some g) :
    VmInv p0 held { s with pmm := p', spaces := s.spaces.erase d } := by
  have hnd := List.nodup_cons.mp h.nodup
  have hk : d ≠ s.kernelPageDirectory := fun e => hnd.1 (e ▸ hd)
  have hmem : ∀ d', d' ∈ s.spaces.erase d ↔ d' ≠ d ∧ d' ∈ s.spaces := fun d' =>
    hnd.2.mem_erase_iff
  have hdir : ∀ d', IsDir { s with pmm := p', spaces := s.spaces.erase d } d' ↔
      d' ≠ d ∧ IsDir s d' := fun d' => h.isDir_erase hd
  refine ⟨hok, h.low, ?_, ?_, fun d' hd' => h.dirLimit d' ((hdir d').mp hd').2,
    fun d' i t hd' => h.tableLimit d' i t ((hdir d').mp hd').2,
    fun d' hd' => h.shared d' ((hmem d').mp hd').2, h.direct⟩
  · refine h.own.drop (P := fun r => r = .dir d ∨ ∃ i, r = .table d i) (fun r hr => ?_)
      (fun r hr => ?_) fun g => ?_
    · rcases hr with rfl | ⟨i, rfl⟩
      · exact if_neg fun hc => ((hdir d).mp hc).1 rfl
      · exact if_neg fun hc => ((hdir d).mp hc.1).1 rfl
    · cases r with
      | client c => rfl
      | dir d' =>
        have hne : d' ≠ d := fun e => hr (Or.inl (by rw [e]))
        by_cases hd' : IsDir s d'
        · exact (if_pos ((hdir d').mpr ⟨hne, hd'⟩)).trans (if_pos hd').symm
        · exact (if_neg fun hc => hd' ((hdir d').mp hc).2).trans (if_neg hd').symm
      | table d' i =>
        have hne : d' ≠ d := fun e => hr (Or.inr ⟨i, by rw [e]⟩)
        by_cases hdi : IsDir s d' ∧ i < ownEntries s d'
        · exact (if_pos ⟨(hdir d').mpr ⟨hne, hdi.1⟩, hdi.2⟩).trans (if_pos hdi).symm
        · exact (if_neg fun hc => hdi ⟨((hdir d').mp hc.1).2, hc.2⟩).trans (if_neg hdi).symm
    · rw [ha]
      refine and_congr_right fun _ => ⟨fun hg r hr he => ?_, fun hg => ⟨fun e => ?_, fun i hi e => ?_⟩⟩
      · rcases hr with rfl | ⟨i, rfl⟩
        · exact hg.1 (Option.some.inj ((frameOf_dir (Or.inr hd)).symm.trans he)).symm
        · by_cases hdi : IsDir s d ∧ i < ownEntries s d
          · refine hg.2 i ?_ ((frameOf_table hdi.1 hdi.2).symm.trans he)
            have := hdi.2
            unfold ownEntries at this
            rw [if_neg hk] at this
            exact this
          · rw [show frameOf s held (.table d i) = none from if_neg hdi] at he
            cases he
      · exact hg (.dir d) (Or.inl rfl) (by rw [e]; exact frameOf_dir (Or.inr hd))
      · refine hg (.table d i) (Or.inr ⟨i, rfl⟩) ((frameOf_table (Or.inr hd) ?_).trans e)
        unfold ownEntries
        rw [if_neg hk]
        exact hi
  · exact List.nodup_cons.mpr ⟨fun hc => hnd.1 ((hmem _).mp hc).2, hnd.2.erase d⟩

/-! ## 4. Clients -/

/-- A client takes a page. -/
theorem VmInv.addClient (h : VmInv p0 held s) {held' : κ → Option Nat} {c : κ} {f : Nat} {p' : Pmm}
    (hf : Fresh p0 s.pmm f p') (hnone : held c = none) (hself : held' c = some f)
    (hother : ∀ c', c' ≠ c → held' c' = held c') : VmInv p0 held' { s with pmm := p' } := by
  refine ⟨hf.ok, h.low, ?_, h.nodup, h.dirLimit, h.tableLimit, h.shared, h.direct⟩
  refine h.own.add (r := .client c) hnone hf.new hself (fun r hr => ?_) hf.taken
  cases r with
  | dir d => rfl
  | table d i => rfl
  | client c' => exact hother c' fun e => hr (by rw [e])

/-- A client gives its page back. -/
theorem VmInv.dropClient (h : VmInv p0 held s) {held' : κ → Option Nat} {c : κ} {f : Nat}
    (hc : held c = some f) (hself : held' c = none) (hother : ∀ c', c' ≠ c → held' c' = held c') :
    VmInv p0 held' { s with pmm := pmmFreePage s.pmm f } := by
  have hr : frameOf s held (.client c) = some f := hc
  obtain ⟨hok, hall, _⟩ := pmmFreePage_spec h.pmm (h.own.mem hr)
  refine ⟨hok, h.low, ?_, h.nodup, h.dirLimit, h.tableLimit, h.shared, h.direct⟩
  refine h.own.del hr hself (fun r hne => ?_) hall
  cases r with
  | dir d => rfl
  | table d i => rfl
  | client c' => exact hother c' fun e => hne (by rw [e])

end

end Emyx
