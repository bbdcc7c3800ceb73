/-
  File:      Emyx/Vmm/Clients.lean
  Subject:   ADDRESS SPACES AMONG OTHER USERS OF THE PAGE ALLOCATOR: what a failed call leaves, and
             what a destroyed address space gives back.

  * `MmRun` -- runs after boot of the calls of vmm.h, of others who take pages, write to memory
    that is no directory or table, and give their pages back; the run notes which frames the
    operations on each address space took;
  * `mmRun_inv` -- along every run that leaves the direct map alone, the tables keep their
    invariant, and what was noted for an address space is its directory and its user tables;
  * **`failedCall_iff`** -- a mapping call or creation that fails leaves everything as it was, the
    counter of free pages too unless it stood at zero with a page free beyond the direct map;
  * **`destroy_exact`** -- destroying an address space frees what its operations took, each frame
    once, and nothing else.
-/
import Emyx.Overlap
import Emyx.Vmm.Refine

namespace Emyx

open Lib

variable {p0 : Pmm} {s s' : Mm}

/-! ## 1. The page allocator under the calls -/

theorem Mm.store_pmm {ptr i v : Nat} (e : s.store ptr i v = .ok s') : s'.pmm = s.pmm := by
  unfold Mm.store at e
  obtain ⟨_, _, e⟩ := bind_ok.mp e
  cases e
  rfl

theorem Mm.clearPage_pmm {ptr : Nat} (e : s.clearPage ptr = .ok s') : s'.pmm = s.pmm := by
  unfold Mm.clearPage at e
  obtain ⟨_, _, e⟩ := bind_ok.mp e
  cases e
  rfl

section Calls

variable {r : Int}

theorem vmmCreateAddressSpace_calls {d : Nat} (h : PmmCalls p0 s.pmm)
    (e : vmmCreateAddressSpace s = .ok (d, s')) : PmmCalls p0 s'.pmm := by
  unfold vmmCreateAddressSpace at e
  simp only at e
  split_ifs at e
  · cases e
    exact .alloc h
  · cases e
    exact .free _ (.alloc h)
  · obtain ⟨s1, e1, e⟩ := bind_ok.mp e
    obtain ⟨s2, e2, e⟩ := bind_ok.mp e
    cases e
    refine foldlM_ok (I := fun s => PmmCalls p0 s.pmm) (fun s i s' _ hs hi => ?_) ?_ e2
    · obtain ⟨_, _, hst⟩ := bind_ok.mp hi
      rw [Mm.store_pmm hst]
      exact hs
    · rw [Mm.clearPage_pmm e1]
      exact .alloc h

theorem vmmDestroyAddressSpace_calls {d : Nat} (h : PmmCalls p0 s.pmm)
    (e : vmmDestroyAddressSpace s d = .ok s') : PmmCalls p0 s'.pmm := by
  unfold vmmDestroyAddressSpace at e
  simp only at e
  split_ifs at e
  · cases e
    exact h
  · cases e
    exact h
  · obtain ⟨s1, e1, e⟩ := bind_ok.mp e
    have h1 : PmmCalls p0 s1.pmm :=
      foldlM_ok (I := fun s => PmmCalls p0 s.pmm) (fun s i s' _ hs hi => by
        obtain ⟨_, _, hi⟩ := bind_ok.mp hi
        split at hi
        · cases hi
          exact .free _ hs
        · cases hi
          exact hs) h e1
    split at e
    · cases e
      exact .free _ h1
    · cases e
      exact .free _ h1

theorem mapTable_calls {ptr i q : Nat} (h : PmmCalls p0 s.pmm)
    (e : mapTable s ptr i = .ok (q, s')) : PmmCalls p0 s'.pmm := by
  unfold mapTable at e
  obtain ⟨_, _, e⟩ := bind_ok.mp e
  simp only at e
  split_ifs at e
  · cases e
    exact h
  · cases e
    exact .alloc h
  · cases e
    exact .free _ (.alloc h)
  · obtain ⟨s1, e1, e⟩ := bind_ok.mp e
    obtain ⟨s2, e2, e⟩ := bind_ok.mp e
    cases e
    rw [Mm.store_pmm e2, Mm.clearPage_pmm e1]
    exact .alloc h

theorem mapEntry_pmm {pd i pt j paddr flags : Nat}
    (e : mapEntry s pd i pt j paddr flags = .ok (r, s')) : s'.pmm = s.pmm := by
  unfold mapEntry at e
  obtain ⟨_, _, e⟩ := bind_ok.mp e
  split at e
  · cases e
    rfl
  · obtain ⟨_, _, e⟩ := bind_ok.mp e
    obtain ⟨s1, e1, e⟩ := bind_ok.mp e
    obtain ⟨s2, e2, e⟩ := bind_ok.mp e
    cases e
    rw [Mm.store_pmm e2, Mm.store_pmm e1]

theorem vmmMapPageIn_calls {d v paddr flags : Nat} (h : PmmCalls p0 s.pmm)
    (e : vmmMapPageIn s d v paddr flags = .ok (r, s')) : PmmCalls p0 s'.pmm := by
  unfold vmmMapPageIn at e
  simp only at e
  split_ifs at e
  iterate 4
    · cases e
      exact h
  obtain ⟨⟨q, s1⟩, e1, e⟩ := bind_ok.mp e
  have h1 := mapTable_calls h e1
  simp only at e
  split at e
  · cases e
    exact h1
  · rw [mapEntry_pmm e]
    exact h1

theorem vmmMapPage_calls {v paddr flags : Nat} (h : PmmCalls p0 s.pmm)
    (e : vmmMapPage s v paddr flags = .ok (r, s')) : PmmCalls p0 s'.pmm := by
  unfold vmmMapPage at e
  split at e
  · cases e
    exact h
  · obtain ⟨q, _, e⟩ := bind_ok.mp e
    simp only at e
    split at e
    · obtain ⟨s1, e1, e⟩ := bind_ok.mp e
      refine vmmMapPageIn_calls ?_ e
      rw [Mm.store_pmm e1]
      exact h
    · exact vmmMapPageIn_calls h e

theorem vmmUnmapPageIn_pmm {d v : Nat} (e : vmmUnmapPageIn s d v = .ok (r, s')) :
    s'.pmm = s.pmm := by
  unfold vmmUnmapPageIn at e
  split_ifs at e
  · cases e
    rfl
  · cases e
    rfl
  · obtain ⟨q, _, e⟩ := bind_ok.mp e
    split at e
    · cases e
      rfl
    · obtain ⟨_, _, e⟩ := bind_ok.mp e
      split at e
      · cases e
        rfl
      · obtain ⟨s1, e1, e⟩ := bind_ok.mp e
        cases e
        exact Mm.store_pmm e1

/-- Whatever the calls do to the page allocator, they do through its two functions. -/
theorem VmmCall.exec_calls {c : VmmCall} (h : PmmCalls p0 s.pmm) (e : c.exec s = .ok (r, s')) :
    PmmCalls p0 s'.pmm := by
  cases c with
  | create =>
    obtain ⟨⟨d, s1⟩, e1, e⟩ := bind_ok.mp e
    cases e
    exact vmmCreateAddressSpace_calls h e1
  | destroy d =>
    obtain ⟨s1, e1, e⟩ := bind_ok.mp e
    cases e
    exact vmmDestroyAddressSpace_calls h e1
  | mapPage v paddr flags => exact vmmMapPage_calls h e
  | mapPageIn d v paddr flags => exact vmmMapPageIn_calls h e
  | unmapPage v =>
    rw [vmmUnmapPageIn_pmm e]
    exact h
  | unmapPageIn d v =>
    rw [vmmUnmapPageIn_pmm e]
    exact h

end Calls

/-! ## 2. Runs -/

/-- The frames taken between two states of the page allocator. -/
def newFrames (p0 p p' : Pmm) : Set Nat := {f | Allocated p0 p' f ∧ ¬ Allocated p0 p f}

/-- The frames noted for each address space, after a call with the result `r` that took the frames
    `new`: those of a creation start a note, those of an operation on the address space join it. -/
def VmmCall.noted (new : Set Nat) (r : Int) (log : Nat → Set Nat) (d : Nat) : VmmCall → Set Nat
  | .create => if (d : Int) = r then new else log d
  | .mapPageIn d' _ _ _ => if d = d' then log d ∪ new else log d
  | .unmapPageIn d' _ => if d = d' then log d ∪ new else log d
  | _ => log d

/-- Runs after boot: legal calls that meet `C` where they are made, pages taken and given back by
    others (`fs` lists those they hold), and stores off the directories and tables in use. -/
inductive MmRun (C : Mm → VmmCall → Prop) (p0 : Pmm) (s0 : Mm) :
    Mm → List Nat → (Nat → Set Nat) → Prop where
  | boot : MmRun C p0 s0 s0 [] fun _ => ∅
  | call {s s' : Mm} {fs : List Nat} {log : Nat → Set Nat} {c : VmmCall} {r : Int}
      (h : MmRun C p0 s0 s fs log) (hl : c.Legal s) (hc : C s c) (e : c.exec s = .ok (r, s')) :
      MmRun C p0 s0 s' fs fun d => c.noted (newFrames p0 s.pmm s'.pmm) r log d
  | take {s : Mm} {fs : List Nat} {log : Nat → Set Nat} (h : MmRun C p0 s0 s fs log) :
      MmRun C p0 s0 s.allocPage.2 (if s.allocPage.1 = 0 then fs else s.allocPage.1 :: fs) log
  | give {s : Mm} {fs : List Nat} {log : Nat → Set Nat} {f : Nat} (h : MmRun C p0 s0 s fs log)
      (hf : f ∈ fs) : MmRun C p0 s0 (s.freePage f) (fs.erase f) log
  | store {s : Mm} {fs : List Nat} {log : Nat → Set Nat} {m' : Mem} (list : Nat)
      (heapPages : List Nat) (h : MmRun C p0 s0 s fs log) (hm : SameTables s m') :
      MmRun C p0 s0 { s with mem := m', list := list, heapPages := heapPages } fs log

/-- The pages the others hold, as roles. -/
def heldList (fs : List Nat) (f : Nat) : Option Nat := if f ∈ fs then some f else none

/-- What a run keeps. -/
structure MmRunInv (p0 : Pmm) (s : Mm) (fs : List Nat) (log : Nat → Set Nat) : Prop where
  vm : VmInv p0 (heldList fs) s
  calls : PmmCalls p0 s.pmm
  nodup : fs.Nodup
  log : ∀ d ∈ s.spaces, ∀ f, f ∈ log d ↔ f ∈ ownFrames s d

section Noted

variable {κ : Type} {held : κ → Option Nat} {c : VmmCall} {r : Int} {log : Nat → Set Nat}

/-- A directory to which the call adds no user table keeps its frames. -/
theorem CallSpec.ownFrames_same (hs : CallSpec p0 held s c r s') {d : Nat} (hd : IsDir s d)
    (hno : ∀ i, i < 768 → ¬ c.AddsTable s d i) (f : Nat) : f ∈ ownFrames s' d ↔ f ∈ ownFrames s d := by
  have htab : ∀ i, i < 768 → tableOf s'.mem d i = tableOf s.mem d i := fun i hi =>
    (hs.tables d i hd (by omega)).resolve_right fun hn => hno i hi hn.2
  rw [mem_ownFrames, mem_ownFrames]
  refine or_congr_left (exists_congr fun i => and_congr_right fun hi => ?_)
  rw [htab i hi]

theorem CallSpec.entries (hs : CallSpec p0 held s c r s') (d : Nat) :
    ownEntries s' d = ownEntries s d := by
  unfold ownEntries
  rw [hs.kernel]

/-- A call that destroys nothing leaves every filled role filled. -/
theorem CallSpec.roles_grow (hs : CallSpec p0 held s c r s') (hsp : s.spaces ⊆ s'.spaces)
    (q : Role κ) (f : Nat) (hq : frameOf s held q = some f) : frameOf s' held q = some f := by
  have hdir : ∀ d, IsDir s d → IsDir s' d := fun d hd => hd.imp (·.trans hs.kernel.symm) (@hsp d)
  cases q with
  | client k => exact hq
  | dir d =>
    obtain ⟨hd, rfl⟩ := frameOf_dir_some.mp hq
    exact frameOf_dir (hdir f hd)
  | table d i =>
    obtain ⟨⟨hd, hown⟩, ht⟩ := frameOf_table_some.mp hq
    have hi := Nat.lt_of_lt_of_le hown (ownEntries_le s d).2
    refine frameOf_table_some.mpr ⟨⟨hdir d hd, hs.entries d ▸ hown⟩, ?_⟩
    exact ((hs.tables d i hd hi).resolve_right fun hn => by
      rw [hn.1] at ht
      cases ht).trans ht

/-- The frames a creation took are the new address space's. -/
theorem CallSpec.new_create (h : VmInv p0 held s) (hs : CallSpec p0 held s .create r s') {d : Nat}
    (hd : d ∈ s'.spaces) (hold : ¬ IsDir s d) (f : Nat) :
    f ∈ newFrames p0 s.pmm s'.pmm ↔ f ∈ ownFrames s' d := by
  have hsp : s'.spaces = if r = 0 then s.spaces else r.toNat :: s.spaces := hs.spaces
  have hr : r ≠ 0 := fun h0 => hold (.inr (by rwa [hsp, if_pos h0] at hd))
  rw [if_neg hr] at hsp
  have hdr : d = r.toNat := (List.mem_cons.mp (hsp ▸ hd)).resolve_right fun hm => hold (.inr hm)
  have hk : d ≠ s'.kernelPageDirectory := fun e => hold (.inl (e.trans hs.kernel))
  have hown : ownEntries s' d = 768 := if_neg hk
  have hsub : s.spaces ⊆ s'.spaces := hsp ▸ List.subset_cons_self _ _
  rw [mem_ownFrames]
  refine (h.own.new_iff hs.inv.own (hs.roles_grow hsub)).trans ⟨?_, ?_⟩
  · rintro ⟨q, hq, hnone⟩
    have hnew : ∀ d', IsDir s' d' → ¬ IsDir s d' → d' = d := fun d' hd' hn => by
      rcases hd' with e | hm
      · exact absurd (.inl (e.trans hs.kernel)) hn
      · rw [hsp] at hm
        exact ((List.mem_cons.mp hm).resolve_right fun hm => hn (.inr hm)).trans hdr.symm
    -- a role newly filled is the new directory or one of its tables
    cases q with
    | client k => cases hnone.symm.trans hq
    | dir d' =>
      obtain ⟨hd', rfl⟩ := frameOf_dir_some.mp hq
      refine .inr (hnew f hd' fun hn => ?_)
      rw [frameOf_dir hn] at hnone
      cases hnone
    | table d' i =>
      obtain ⟨⟨hd', hi⟩, ht⟩ := frameOf_table_some.mp hq
      by_cases hn : IsDir s d'
      · have hi' := hs.entries d' ▸ hi
        rw [frameOf_table hn hi'] at hnone
        have hsame := (hs.tables d' i hn (Nat.lt_of_lt_of_le hi' (ownEntries_le s d').2)).resolve_right
          fun hadd => hadd.2
        cases (hsame.trans hnone).symm.trans ht
      · obtain rfl := hnew d' hd' hn
        exact .inl ⟨i, hown ▸ hi, ht⟩
  · rintro (⟨i, hi, ht⟩ | rfl)
    · exact ⟨.table d i, (frameOf_table (.inr hd) (hown ▸ hi)).trans ht, if_neg fun hn => hold hn.1⟩
    · exact ⟨.dir f, frameOf_dir (.inr hd), if_neg hold⟩

/-- The frames a call took that neither creates nor destroys are tables it added. -/
theorem CallSpec.new_tables (h : VmInv p0 held s) (hs : CallSpec p0 held s c r s')
    (hsp : s'.spaces = s.spaces) (f : Nat) :
    f ∈ newFrames p0 s.pmm s'.pmm ↔ ∃ d i, IsDir s d ∧ i < ownEntries s d ∧ c.AddsTable s d i ∧
      tableOf s.mem d i = none ∧ tableOf s'.mem d i = some f := by
  have hdir : ∀ d, IsDir s' d ↔ IsDir s d := fun d => by
    unfold IsDir
    rw [hs.kernel, hsp]
  refine (h.own.new_iff hs.inv.own (hs.roles_grow (hsp ▸ fun _ hd => hd))).trans ⟨?_, ?_⟩
  · rintro ⟨q, hq, hnone⟩
    cases q with
    | client k => cases hnone.symm.trans hq
    | dir d =>
      obtain ⟨hd, rfl⟩ := frameOf_dir_some.mp hq
      rw [frameOf_dir ((hdir f).mp hd)] at hnone
      cases hnone
    | table d i =>
      obtain ⟨⟨hd', hi'⟩, ht⟩ := frameOf_table_some.mp hq
      have hd := (hdir d).mp hd'
      have hi := hs.entries d ▸ hi'
      rw [frameOf_table hd hi] at hnone
      refine ⟨d, i, hd, hi, ?_, hnone, ht⟩
      rcases hs.tables d i hd (Nat.lt_of_lt_of_le hi (ownEntries_le s d).2) with e | hn
      · cases (e.trans hnone).symm.trans ht
      · exact hn.2
  · rintro ⟨d, i, hd, hi, _, hnone, ht⟩
    exact ⟨.table d i, (frameOf_table ((hdir d).mpr hd) (hs.entries d ▸ hi)).trans ht,
      (frameOf_table hd hi).trans hnone⟩

end Noted

section RunInv

variable {fs : List Nat} {log : Nat → Set Nat}

/-- **What was noted for an address space is its own frames**, call by call. -/
theorem noted_call {κ : Type} {held : κ → Option Nat} {c : VmmCall} {r : Int} (h : VmInv p0 held s)
    (hs : CallSpec p0 held s c r s') (hlog : ∀ d ∈ s.spaces, ∀ f, f ∈ log d ↔ f ∈ ownFrames s d) :
    ∀ d ∈ s'.spaces, ∀ f, f ∈ c.noted (newFrames p0 s.pmm s'.pmm) r log d ↔ f ∈ ownFrames s' d := by
  intro d hd f
  have hkeep : d ∈ s.spaces → (∀ i, i < 768 → ¬ c.AddsTable s d i) →
      (f ∈ log d ↔ f ∈ ownFrames s' d) := fun hm hno =>
    (hlog d hm f).trans (hs.ownFrames_same (.inr hm) hno f).symm
  have hsame : ∀ {d'}, s'.spaces = s.spaces → (∀ e i, c.AddsTable s e i → e = d') →
      (f ∈ (if d = d' then log d ∪ newFrames p0 s.pmm s'.pmm else log d) ↔ f ∈ ownFrames s' d) :=
    fun {d'} hsp hadd => by
      have hm : d ∈ s.spaces := hsp ▸ hd
      have hk : d ≠ s.kernelPageDirectory := fun e => (List.nodup_cons.mp h.nodup).1 (e ▸ hm)
      split
      next e =>
        subst e
        rw [Set.mem_union, hlog d hm f, hs.new_tables h hsp f, mem_ownFrames, mem_ownFrames]
        constructor
        · rintro ((⟨i, hi, ht⟩ | rfl) | ⟨d', i, hd', hi, ha, _, ht⟩)
          · refine .inl ⟨i, hi, ?_⟩
            rcases hs.tables d i (.inr hm) (by omega) with e | hn
            · exact e.trans ht
            · cases hn.1.symm.trans ht
          · exact .inr rfl
          · obtain rfl := hadd d' i ha
            refine .inl ⟨i, ?_, ht⟩
            unfold ownEntries at hi
            rwa [if_neg hk] at hi
        · rintro (⟨i, hi, ht⟩ | rfl)
          · rcases hs.tables d i (.inr hm) (by omega) with e | hn
            · exact .inl (.inl ⟨i, hi, e.symm.trans ht⟩)
            · exact .inr ⟨d, i, .inr hm, Nat.lt_of_lt_of_le hi (ownEntries_le s d).1, hn.2, hn.1, ht⟩
          · exact .inl (.inr rfl)
      next hne => exact hkeep hm fun i _ ha => hne (hadd d i ha)
  cases c with
  | create =>
    show f ∈ (if (d : Int) = r then _ else _) ↔ _
    by_cases hold : IsDir s d
    · have hk : d ≠ s.kernelPageDirectory := fun e =>
        (List.nodup_cons.mp hs.inv.nodup).1 (by rw [hs.kernel, ← e]; exact hd)
      have hm := hold.resolve_left hk
      have hsp : s'.spaces = if r = 0 then s.spaces else r.toNat :: s.spaces := hs.spaces
      have hpos := h.dir_pos hold
      rw [if_neg fun e => ?_]
      · exact hkeep hm fun _ _ => id
      · rw [if_neg (by omega)] at hsp
        have hnd := (List.nodup_cons.mp hs.inv.nodup).2
        rw [hsp, show r.toNat = d by omega] at hnd
        exact (List.nodup_cons.mp hnd).1 hm
    · have hpos := hs.inv.dir_pos (.inr hd)
      have hsp : s'.spaces = if r = 0 then s.spaces else r.toNat :: s.spaces := hs.spaces
      have hr : (d : Int) = r := by
        split at hsp
        · exact absurd (.inr (hsp ▸ hd)) hold
        · have := (List.mem_cons.mp (hsp ▸ hd)).resolve_right fun hm => hold (.inr hm)
          omega
      rw [if_pos hr]
      exact hs.new_create h hd hold f
  | destroy d' =>
    have hsp : s'.spaces = if d' = s.kernelPageDirectory then s.spaces else s.spaces.erase d' :=
      hs.spaces
    refine hkeep ?_ fun _ _ => id
    split at hsp
    · exact hsp ▸ hd
    · exact List.mem_of_mem_erase (hsp ▸ hd)
  | mapPage v paddr flags =>
    have hsp : s'.spaces = s.spaces := hs.spaces
    have hm : d ∈ s.spaces := hsp ▸ hd
    exact hkeep hm fun i _ ha => (List.nodup_cons.mp h.nodup).1 (ha.1 ▸ hm)
  | mapPageIn d' v paddr flags => exact hsame hs.spaces fun e i ha => ha.1
  | unmapPage v =>
    have hsp : s'.spaces = s.spaces := hs.spaces
    exact hkeep (hsp ▸ hd) fun _ _ => id
  | unmapPageIn d' v => exact hsame hs.spaces fun e i ha => ha.elim

theorem heldList_cons {f : Nat} (hf : f ∉ fs) :
    heldList fs f = none ∧ heldList (f :: fs) f = some f ∧
    ∀ g, g ≠ f → heldList (f :: fs) g = heldList fs g :=
  ⟨if_neg hf, if_pos List.mem_cons_self, fun _ hg =>
    if_congr (List.mem_cons.trans (or_iff_right hg)) rfl rfl⟩

theorem heldList_erase (hnd : fs.Nodup) {f : Nat} (hf : f ∈ fs) :
    heldList fs f = some f ∧ heldList (fs.erase f) f = none ∧
    ∀ g, g ≠ f → heldList (fs.erase f) g = heldList fs g :=
  ⟨if_pos hf, if_neg fun hm => (hnd.mem_erase_iff.mp hm).1 rfl, fun _ hg =>
    if_congr (hnd.mem_erase_iff.trans (and_iff_right hg)) rfl rfl⟩

/-- The invariant does not speak of the heap's variables. -/
theorem VmInv.of_heap {κ : Type} {held : κ → Option Nat} (h : VmInv p0 held s) (list : Nat)
    (heapPages : List Nat) : VmInv p0 held { s with list := list, heapPages := heapPages } :=
  ⟨h.pmm, h.low, h.own.congr (fun r => by cases r <;> rfl) fun _ => Iff.rfl, h.nodup, h.dirLimit,
    h.tableLimit, h.shared, h.direct⟩

/-- **Every run off the direct map keeps the invariant.** -/
theorem mmRun_inv {C : Mm → VmmCall → Prop} {m : Mem} {img : KernelImage} {mbi : MultibootInfo}
    {s0 : Mm} (hb : Booted m img mbi p0 s0) (hC : ∀ s c, C s c → c.OffWindow s)
    (hr : MmRun C p0 s0 s fs log) : MmRunInv p0 s fs log := by
  induction hr with
  | boot =>
    obtain ⟨h, hsp, _⟩ := vmmInit_spec hb.low hb.vmmInit
    refine ⟨h, vmmInit_pmm (fun _ => .alloc) .boot hb.vmmInit, List.nodup_nil, fun d hd => ?_⟩
    rw [hsp] at hd
    cases hd
  | call _ hl hc e ih =>
    obtain ⟨r, s', e', hs⟩ := VmmCall.spec ih.vm hl (hC _ _ hc)
    cases e.symm.trans e'
    exact ⟨hs.inv, VmmCall.exec_calls ih.calls e, ih.nodup, noted_call ih.vm hs ih.log⟩
  | @take s fs log _ ih =>
    rcases ih.vm.allocPage_cases with ⟨_, e⟩ | ⟨f, p', ep, e, hpos, hf, _⟩
    · rw [e, if_pos rfl]
      exact ih
    · have hcalls := ih.calls.alloc
      rw [ep] at hcalls
      rw [e, if_neg (by simp only; omega)]
      have hnew : f ∉ fs := fun hm => hf.new (ih.vm.own.mem (r := .client f) (if_pos hm))
      obtain ⟨h0, h1, hother⟩ := heldList_cons hnew
      exact ⟨ih.vm.addClient hf h0 h1 hother, hcalls, List.nodup_cons.mpr ⟨hnew, ih.nodup⟩, ih.log⟩
  | give _ hf ih =>
    obtain ⟨h1, h0, hother⟩ := heldList_erase ih.nodup hf
    exact ⟨ih.vm.dropClient h1 h0 hother, .free _ ih.calls, ih.nodup.erase _, ih.log⟩
  | store list heapPages _ hm ih =>
    have hinv := (ih.vm.of_sameTables hm).of_heap list heapPages
    have htab := (ih.vm.words_same hm).1
    refine ⟨hinv, ih.calls, ih.nodup, fun d hd f => (ih.log d hd f).trans ?_⟩
    rw [mem_ownFrames, mem_ownFrames]
    refine or_congr_left (exists_congr fun i => and_congr_right fun hi => ?_)
    exact iff_of_eq (congrArg (· = some f) (tableOf_congr (htab d i (.inr hd) (by omega))).symm)

theorem MmRunInv.counter {m : Mem} {img : KernelImage} {mbi : MultibootInfo} {s0 : Mm}
    (h : MmRunInv p0 s fs log) (hb : Booted m img mbi p0 s0) :
    s.pmm.maxPage ≤ 2 ^ 20 ∧ s.pmm.freePages < 2 ^ 32 :=
  ⟨by rw [h.calls.maxPage]; exact hb.low, h.calls.free_lt (pmmInit_free_lt hb.pmmInit)⟩

end RunInv

/-! ## 3. A call that fails -/

/-- A mapping call or creation with any arguments; the address space is `0` or live. -/
def VmmCall.Asks (s : Mm) : VmmCall → Prop
  | .create => True
  | .mapPage v paddr _ => v < 2 ^ 32 ∧ paddr < 2 ^ 32
  | .mapPageIn d v paddr _ => (d = 0 ∨ IsDir s d) ∧ v < 2 ^ 32 ∧ paddr < 2 ^ 32
  | _ => False

/-- The result reports failure: no address space, or not `0`. -/
def VmmCall.Failed (r : Int) : VmmCall → Prop
  | .create => r = 0
  | _ => r ≠ 0

/-- The call comes to the point where it takes a page. -/
def VmmCall.TakesPage (s : Mm) : VmmCall → Prop
  | .create => True
  | .mapPage v paddr _ => NeedsTable s s.kernelPageDirectory v paddr
  | .mapPageIn d v paddr _ => d ≠ 0 ∧ NeedsTable s d v paddr
  | _ => False

/-- The call takes a page beyond the direct map, and gives it back, with the counter of free pages
    at zero. -/
def VmmCall.Uncounted (s : Mm) (c : VmmCall) : Prop :=
  s.pmm.freePages = 0 ∧ c.TakesPage s ∧ ∃ i, FirstClear s.pmm i ∧ 0x1000000 ≤ i * 4096

section Window

variable {κ : Type} {held : κ → Option Nat}

/-- With one entry of the direct map cleared, a page of it is where it was or nowhere. -/
theorem VmInv.walk_cleared (h : VmInv p0 held s) {i j t : Nat} (hi : i < 1024)
    (ht : tableOf s.mem s.kernelPageDirectory i = some t) (hj : j < 1024) {x : Nat}
    (hx : x < 0x1000000) :
    walk (wr32 s.mem (t + 4 * j) 0) s.kernelPageDirectory (0xC0000000 + x) = none ∨
    walk (wr32 s.mem (t + 4 * j) 0) s.kernelPageDirectory (0xC0000000 + x) = some x := by
  have hpte := (h.words_writeTable 0 (isDir_kernel s) hi ht hj).2 s.kernelPageDirectory
    (pdeIndex (0xC0000000 + x)) (pteIndex (0xC0000000 + x)) (isDir_kernel s) (pdeIndex_lt _)
    (pteIndex_lt _)
  split at hpte
  · refine .inl ?_
    unfold walk
    rw [hpte]
    rfl
  · exact .inr ((walk_congr hpte).trans (h.direct x hx))

/-- So a load through the direct map that returns gives the word that is there. -/
theorem load_shown (hw : ∀ x, x < 0x1000000 →
      walk s.mem s.kernelPageDirectory (0xC0000000 + x) = none ∨
      walk s.mem s.kernelPageDirectory (0xC0000000 + x) = some x) {f i w : Nat}
    (hf : f + 4096 ≤ 0x1000000) (hi : i < 1024) (e : s.load (0xC0000000 + f) i = .ok w) :
    w = rd32 s.mem (f + 4 * i) := by
  unfold Mm.load Mm.direct at e
  rw [Nat.add_assoc] at e
  rcases hw (f + 4 * i) (by omega) with hn | hs
  · rw [hn] at e
    cases e
  · rw [hs] at e
    cases e
    rfl

/-- **`vmm_map_page` does not fail after it has cleared the entry**, even on the direct map itself:
    the table is there, and the entry is clear. -/
theorem vmmMapPage_window (h : VmInv p0 held s) {v paddr flags : Nat} {r : Int} (hv : v % 4096 = 0)
    (hp : paddr % 4096 = 0) (hw : 768 ≤ pdeIndex v ∧ pdeIndex v < 772)
    (e : vmmMapPage s v paddr flags = .ok (r, s')) : r = 0 := by
  have hk := isDir_kernel s
  have hi := pdeIndex_lt v
  have hj := pteIndex_lt v
  have hkpos := h.dir_pos hk
  have hpres := h.direct.present hw.1 hw.2 hj
  cases ht : tableOf s.mem s.kernelPageDirectory (pdeIndex v) with
  | none =>
    rw [pteWord_of_none ht] at hpres
    cases hpres
  | some t =>
    have hlim := h.table_limit hk hi ht
    obtain ⟨hdir, hpte⟩ := h.words_writeTable 0 hk hi ht hj
    have hwalk : ∀ x, x < 0x1000000 → _ := fun x hx => h.walk_cleared hi ht hj hx
    have hzero : rd32 (wr32 s.mem (t + 4 * pteIndex v) 0) (t + 4 * pteIndex v) = 0 := rd32_wr32 _ _ _
    unfold vmmMapPage at e
    simp only [land_page_zero] at e
    rw [if_neg (by omega), vmmGetPageTableIn_eq h hk v, ok_bind, ht] at e
    simp only at e
    rw [if_pos (by omega), h.direct.store hlim hj, ok_bind] at e
    generalize wr32 s.mem (t + 4 * pteIndex v) 0 = m1 at *
    unfold vmmMapPageIn at e
    simp only [land_page_zero] at e
    rw [if_neg (by omega), if_neg (by omega), if_neg (fun hc => hc.1 rfl), h.dirPtr hk,
      if_neg (by omega)] at e
    obtain ⟨⟨q, s2⟩, e1, e⟩ := bind_ok.mp e
    -- the directory entry is the one that was there
    unfold mapTable at e1
    obtain ⟨pde, hpde, e1⟩ := bind_ok.mp e1
    have hword := @load_shown { s with mem := m1 } hwalk _ _ _ (h.dirLimit _ hk) hi hpde
    rw [show rd32 m1 _ = _ from hdir _ _ hk hi] at hword
    subst hword
    obtain ⟨hodd, hframe⟩ := tableOf_some ht
    rw [if_pos (land_one_ne.mpr hodd), hframe, vmmPhysToVirt_of_lt (by omega)] at e1
    cases e1
    simp only at e
    rw [if_neg (by omega)] at e
    -- and the table entry is clear
    unfold mapEntry at e
    obtain ⟨pte, hpte', e⟩ := bind_ok.mp e
    have hclear := @load_shown { s with mem := m1 } hwalk t (pteIndex v) pte hlim hj hpte'
    rw [show pte = 0 from hclear.trans hzero] at e
    rw [if_neg (by decide)] at e
    obtain ⟨_, _, e⟩ := bind_ok.mp e
    obtain ⟨_, _, e⟩ := bind_ok.mp e
    obtain ⟨_, _, e⟩ := bind_ok.mp e
    cases e
    rfl

end Window

/-- **What a failed call leaves**: the page allocator after a page was taken and given back, if the
    call came that far; else the state it was made in. -/
theorem failedCall_leaves {κ : Type} {held : κ → Option Nat} (h : VmInv p0 held s) {c : VmmCall}
    {r : Int} (ha : c.Asks s) (e : c.exec s = .ok (r, s')) (hf : c.Failed r) :
    (c.TakesPage s ∧ NoLowPage s ∧ s' = { s with pmm := undoPage s.pmm }) ∨
    (¬ c.TakesPage s ∧ s' = s) := by
  cases c with
  | create =>
    rcases vmmCreateAddressSpace_spec h with ⟨e', _, hlow⟩ | ⟨f, p', m', _, e', hf0, _⟩
    · cases e.symm.trans (bind_ok.mpr ⟨_, e', rfl⟩)
      exact .inl ⟨trivial, hlow, rfl⟩
    · cases e.symm.trans (bind_ok.mpr ⟨_, e', rfl⟩)
      exact absurd (Int.ofNat_eq_zero.mp hf) hf0
  | mapPageIn d v paddr flags =>
    rcases ha.1 with rfl | hd
    · cases e.symm.trans (show vmmMapPageIn s 0 v paddr flags = _ from if_pos (.inl rfl))
      exact .inr ⟨fun ht => ht.1 rfl, rfl⟩
    · have hpos := h.dir_pos hd
      rcases vmmMapPageIn_spec h hd v flags ha.2.2 with
        ⟨p', e', _, hwhy, hundo⟩ | ⟨t, p', m', e', _⟩
      · cases e.symm.trans e'
        by_cases hn : NeedsTable s d v paddr
        · refine .inl ⟨⟨by omega, hn⟩, ?_, by rw [hundo, if_pos hn]⟩
          refine ((hwhy hn.1 hn.2.1 hn.2.2.1).resolve_left fun hp => ?_).2
          rw [pteWord_of_none hn.2.2.2] at hp
          cases hp
        · exact .inr ⟨fun ht => hn ht.2, by rw [hundo, if_neg hn]⟩
      · cases e.symm.trans e'
        exact absurd rfl hf
  | mapPage v paddr flags =>
    by_cases hoff : OffDirectMap s s.kernelPageDirectory (pdeIndex v)
    · rcases vmmMapPage_spec h flags ha.2 hoff with ⟨p', e', _, hwhy, hundo⟩ | ⟨t, p', m', e', _⟩
      · cases e.symm.trans e'
        by_cases hn : NeedsTable s s.kernelPageDirectory v paddr
        · exact .inl ⟨hn, (hwhy hn.1 hn.2.1).2, by rw [hundo, if_pos hn]⟩
        · exact .inr ⟨hn, by rw [hundo, if_neg hn]⟩
      · cases e.symm.trans e'
        exact absurd rfl hf
    · have hw : 768 ≤ pdeIndex v ∧ pdeIndex v < 772 := by
        by_contra hc
        exact hoff fun _ => hc
      by_cases hal : v % 4096 ≠ 0 ∨ paddr % 4096 ≠ 0
      · have e' : vmmMapPage s v paddr flags = .ok (-1, s) := by
          unfold vmmMapPage
          simp only [land_page_zero]
          exact if_pos hal
        cases e.symm.trans e'
        refine .inr ⟨fun hn => ?_, rfl⟩
        have := hn.1
        have := hn.2.1
        omega
      · exact absurd (vmmMapPage_window h (by omega) (by omega) hw e) hf
  | destroy d => cases ha
  | unmapPage v => cases ha
  | unmapPageIn d v => cases ha

section Failed

variable {fs : List Nat} {log : Nat → Set Nat} {m : Mem} {img : KernelImage} {mbi : MultibootInfo}
  {s0 : Mm}

/-- **A FAILED CALL LEAVES EVERYTHING AS IT WAS** but the counter of free pages; and that too,
    unless the call takes a page beyond the direct map while the counter is zero. -/
theorem failedCall_iff (hb : Booted m img mbi p0 s0)
    (hr : MmRun (fun s c => c.OffWindow s) p0 s0 s fs log) {c : VmmCall} {r : Int} (ha : c.Asks s)
    (e : c.exec s = .ok (r, s')) (hf : c.Failed r) :
    s' = { s with pmm := { s.pmm with freePages := s'.pmm.freePages } } ∧
    (s'.pmm.freePages = s.pmm.freePages ↔ ¬ c.Uncounted s) := by
  have hinv := mmRun_inv hb (fun _ _ h => h) hr
  obtain ⟨hmax, hlt⟩ := hinv.counter hb
  rcases failedCall_leaves hinv.vm ha e hf with ⟨ht, hlow, rfl⟩ | ⟨ht, rfl⟩
  · rcases pmmAllocPage_answer hmax with ⟨h0, hfull, _⟩ | ⟨i, hi, hpage, h0⟩
    · rw [undoPage_none h0]
      exact ⟨rfl, fun _ hun => (hun.2.2.elim fun i hi => hi.1.not_full hfull), fun _ => rfl⟩
    · have hhigh : 0x1000000 ≤ i * 4096 := by
        rcases hlow with hz | hge
        · exact absurd hz h0
        · omega
      have hundo : undoPage s.pmm = _ := (if_neg h0).trans (pmmFreePage_alloc hmax hlt h0)
      rw [hundo]
      refine ⟨rfl, fun hsame hun => ?_, fun hun => ?_⟩
      · simp only [if_pos hun.1] at hsame
        exact absurd (hsame.trans hun.1) (by decide)
      · exact if_neg fun hz => hun ⟨hz, ht, i, hi, hhigh⟩
  · exact ⟨rfl, fun _ hun => ht hun.2.1, fun _ => rfl⟩

end Failed

/-- On the small machine, a mapping in place of one of the direct map is refused. -/
theorem failedCall_refused : ∃ s0 : Mm,
    Booted lowMem smallImage (mapInfo 1) (lowPmm lowMem) s0 ∧
    (VmmCall.mapPageIn s0.kernelPageDirectory 0xC0000000 0 3).exec s0 = .ok (-1, s0) ∧
    ¬ (VmmCall.mapPageIn s0.kernelPageDirectory 0xC0000000 0 3).Uncounted s0 := by
  obtain ⟨s0, hb, _⟩ := booted_lowMem
  obtain ⟨h, -⟩ := @vmmInit_spec Unit _ hb.low _ _ hb.vmmInit
  have hpres := h.direct.present (i := pdeIndex 0xC0000000) (by decide) (by decide)
    (pteIndex_lt 0xC0000000)
  rcases vmmMapPageIn_spec h (isDir_kernel s0) 0xC0000000 3 (show 0 < 2 ^ 32 by decide) with
    ⟨p', e, _, _, hundo⟩ | ⟨_, _, _, _, _, _, _, _, hfree, _⟩
  · rw [if_neg fun hn => by rw [pteWord_of_none hn.2.2.2] at hpres; cases hpres] at hundo
    rw [hundo] at e
    refine ⟨s0, hb, e, (failedCall_iff hb .boot (c := .mapPageIn s0.kernelPageDirectory 0xC0000000 0 3)
      ⟨.inr (isDir_kernel s0), by decide, by decide⟩ e
      (show (-1 : Int) ≠ 0 by decide)).2.mp rfl⟩
  · omega

/-- On the machine with the overlapping regions the first creation fails, and the counter of free
    pages leaves zero. -/
theorem failedCall_uncounted : ∃ (m : Mem) (mbi : MultibootInfo) (p0 : Pmm) (s s' : Mm),
    Booted m smallImage mbi p0 s ∧ vmmCreateAddressSpace s = .ok (0, s') ∧
    s.pmm.freePages = 0 ∧ s'.pmm.freePages = 1 := by
  obtain ⟨s, hb, hfree, hfirst⟩ := booted_overlap fun _ => 0
  obtain ⟨h, -⟩ := @vmmInit_spec Unit _ hb.low _ _ hb.vmmInit
  have hmax : s.pmm.maxPage ≤ 2 ^ 20 := by
    rw [h.pmm.maxPage]
    exact hb.low
  rcases pmmAllocPage_answer hmax with ⟨_, hfull, _⟩ | ⟨i, hi, hpage, h0⟩
  · exact absurd hfull hfirst.not_full
  · obtain rfl := hi.unique hfirst
    have hundo : undoPage s.pmm = _ :=
      (if_neg h0).trans (pmmFreePage_alloc hmax (by rw [hfree]; decide) h0)
    rcases vmmCreateAddressSpace_spec h with ⟨e, _⟩ | ⟨f, p', m', ef, _, _, _, hinv, _⟩
    · refine ⟨_, _, _, s, _, hb, e, hfree, ?_⟩
      rw [hundo]
      exact if_pos hfree
    · -- a directory beyond the direct map is none
      have hlim := hinv.dirLimit f (.inr List.mem_cons_self)
      rw [ef] at hpage
      simp only at hpage
      omega

/-! ## 4. What a destroyed address space gives back -/

/-- Destroying `d` calls `pmm_free_page` on the frames `l` and on no other: each once, each taken,
    none held by another user of the page allocator, none the directory or a table of another
    directory; and these are the frames noted for `d`. -/
structure GivesBack (p0 : Pmm) (s : Mm) (fs : List Nat) (log : Nat → Set Nat) (d : Nat)
    (l : List Nat) : Prop where
  runs : vmmDestroyAddressSpace s d =
    .ok { s with pmm := l.foldl pmmFreePage s.pmm, spaces := s.spaces.erase d }
  once : l.Nodup
  noted : ∀ f, f ∈ l ↔ f ∈ log d
  own : ∀ f, f ∈ l ↔ (∃ i, i < 768 ∧ tableOf s.mem d i = some f) ∨ f = d
  taken : ∀ f ∈ l, Allocated p0 s.pmm f
  others : ∀ f ∈ l, f ∉ fs
  dirs : ∀ f ∈ l, ∀ d', IsDir s d' → d' ≠ d → f ≠ d' ∧
    ∀ i, i < ownEntries s d' → tableOf s.mem d' i ≠ some f
  left : ∀ f, Allocated p0 (l.foldl pmmFreePage s.pmm) f ↔ Allocated p0 s.pmm f ∧ f ∉ log d

/-- **A DESTROYED ADDRESS SPACE GIVES BACK EXACTLY ITS OWN**, in every state reached by calls that
    leave the direct map alone, among other users of the page allocator. -/
theorem destroy_exact {fs : List Nat} {log : Nat → Set Nat} {m : Mem} {img : KernelImage}
    {mbi : MultibootInfo} {s0 : Mm} (hb : Booted m img mbi p0 s0)
    (hr : MmRun (fun s c => c.OffWindow s) p0 s0 s fs log) {d : Nat} (hd : d ∈ s.spaces) :
    ∃ l, GivesBack p0 s fs log d l := by
  have hinv := mmRun_inv hb (fun _ _ h => h) hr
  have h := hinv.vm
  have hdir : IsDir s d := .inr hd
  have hk : d ≠ s.kernelPageDirectory := fun e => (List.nodup_cons.mp h.nodup).1 (e ▸ hd)
  have hlog := hinv.log d hd
  obtain ⟨_, hall⟩ := pmmFreePage_list h.pmm (fun f hf => h.ownFrames_role hdir hf)
    (h.ownFrames_nodup hdir)
  -- every frame of the list fills a role of `d`
  have hrole : ∀ f ∈ ownFrames s d, ∃ q, frameOf s (heldList fs) q = some f ∧
      (q = .dir d ∨ ∃ i, q = .table d i) := fun f hf => by
    rcases mem_ownFrames.mp hf with ⟨i, hi, ht⟩ | rfl
    · exact ⟨.table d i, (frameOf_table hdir (Nat.lt_of_lt_of_le hi (ownEntries_le s d).1)).trans ht,
        .inr ⟨i, rfl⟩⟩
    · exact ⟨.dir f, frameOf_dir hdir, .inl rfl⟩
  have hother : ∀ f ∈ ownFrames s d, ∀ q, frameOf s (heldList fs) q = some f →
      q = .dir d ∨ ∃ i, q = .table d i := fun f hf q hq => by
    obtain ⟨q', hq', hd'⟩ := hrole f hf
    rw [h.own.inj hq hq']
    exact hd'
  refine ⟨ownFrames s d, (vmmDestroyAddressSpace_spec h hd).1, h.ownFrames_nodup hdir,
    fun f => (hlog f).symm, fun f => mem_ownFrames, fun f hf => h.ownFrames_role hdir hf,
    fun f hf hm => ?_, fun f hf d' hd' hne => ⟨fun e => ?_, fun i hi ht => ?_⟩, fun f => ?_⟩
  · rcases hother f hf (.client f) (if_pos hm) with e | ⟨i, e⟩
    · cases e
    · cases e
  · subst e
    rcases hother f hf (.dir f) (frameOf_dir hd') with e | ⟨i, e⟩
    · cases e
      exact hne rfl
    · cases e
  · rcases hother f hf (.table d' i) ((frameOf_table hd' hi).trans ht) with e | ⟨j, e⟩
    · cases e
    · cases e
      exact hne rfl
  · rw [hall, hlog]

/-- The small machine creates an address space and could destroy it. -/
theorem destroy_exact_created : ∃ s0 s log l,
    Booted lowMem smallImage (mapInfo 1) (lowPmm lowMem) s0 ∧
    MmRun (fun s c => c.OffWindow s) (lowPmm lowMem) s0 s [] log ∧
    0x116000 ∈ s.spaces ∧
    GivesBack (lowPmm lowMem) s [] log 0x116000 l := by
  obtain ⟨s0, s1, hb, e, hsp, _⟩ := create_lowMem
  have hr : MmRun (fun s c => c.OffWindow s) (lowPmm lowMem) s0 s1 [] _ :=
    .call (c := .create) .boot trivial trivial e
  have hd : 0x116000 ∈ s1.spaces := by
    rw [hsp]
    exact List.mem_singleton_self _
  obtain ⟨l, hl⟩ := destroy_exact hb hr hd
  exact ⟨s0, s1, _, l, hb, hr, hd, hl⟩

/-- **Without the restriction it need not even return**: with the page of the direct map unmapped
    that its directory lies in, the address space cannot be destroyed. -/
theorem destroy_fault_directMap :
    ¬ ∀ (m : Mem) (img : KernelImage) (mbi : MultibootInfo) (p0 : Pmm) (s0 s : Mm) (fs : List Nat)
      (log : Nat → Set Nat) (d : Nat), Booted m img mbi p0 s0 →
      MmRun (fun _ _ => True) p0 s0 s fs log → d ∈ s.spaces → ∃ l, GivesBack p0 s fs log d l := by
  intro hall
  obtain ⟨s0, s1, hb, e, hsp, h1, _⟩ := create_lowMem
  have hd : IsDir s1 0x116000 := .inr (by rw [hsp]; exact List.mem_singleton_self _)
  obtain ⟨s2, e2, hsp2, hk2, hfault⟩ := h1.unmap_directory hd
  have hr1 : MmRun (fun _ _ => True) (lowPmm lowMem) s0 s1 [] _ :=
    .call (c := .create) .boot trivial trivial e
  have hr2 := hr1.call (c := .unmapPage (0xC0000000 + 0x116000))
    (show 0xC0000000 + 0x116000 < 2 ^ 32 by decide) trivial e2
  have hm : 0x116000 ∈ s2.spaces := by
    rw [hsp2, hsp]
    exact List.mem_singleton_self _
  have hne : 0x116000 ≠ s2.kernelPageDirectory := fun ek => by
    rw [hk2] at ek
    refine (List.nodup_cons.mp h1.nodup).1 ?_
    rw [← ek, hsp]
    exact List.mem_singleton_self _
  obtain ⟨l, hl⟩ := hall _ _ _ _ _ _ _ _ _ hb hr2 hm
  have hrun := hl.runs
  unfold vmmDestroyAddressSpace at hrun
  simp only at hrun
  rw [if_neg (fun hc => hc.elim (by decide) hne), vmmPhysToVirt_of_lt (by decide),
    if_neg (by decide)] at hrun
  obtain ⟨s3, e3, _⟩ := bind_ok.mp hrun
  rw [List.range_eq_range', List.range'_succ, List.foldlM_cons] at e3
  obtain ⟨s4, e4, _⟩ := bind_ok.mp e3
  unfold freeTable at e4
  rw [hfault 0 (by decide)] at e4
  cases e4

end Emyx
