/-
  File:      Emyx/Vmm/Run.lean
  Subject:   THE PAGE TABLES AS A MAP: what each directory maps, and what one call of vmm.h does
             to it.

  * `AddressMap` -- the abstract state: for each address space a partial map from page numbers to
    frames; `mapOf s` reads it off the tables;
  * `VmmCall`, `VmmCall.exec`, `VmmCall.effect` -- the calls that change tables, as the code runs
    them and as their caller understands the result;
  * **`VmmCall.spec`** -- off the direct map every legal call returns, keeps `VmInv`, and turns
    `mapOf s` into its `effect`.
-/
import Emyx.Vmm.Init
import Emyx.Vmm.Spec

namespace Emyx

open Lib

/-! ## 1. The abstract map -/

/-- The frame of page `n` in the address space `d`, if it is mapped. -/
def AddressMap : Type := Nat → Nat → Option Nat

/-- Page `n` of `d` becomes `x`. -/
def AddressMap.set (a : AddressMap) (d n : Nat) (x : Option Nat) : AddressMap :=
  fun d' n' => if d' = d ∧ n' = n then x else a d' n'

/-- The address space `d` is empty. -/
def AddressMap.clear (a : AddressMap) (d : Nat) : AddressMap :=
  fun d' n' => if d' = d then none else a d' n'

/-- The frame in a table entry that is present. -/
def presentFrame (w : Nat) : Option Nat := if w % 2 = 1 then some (entryFrame w) else none

/-- What the tables map: in each directory, the pages behind its own entries. -/
def mapOf (s : Mm) : AddressMap := fun d n =>
  if IsDir s d ∧ n / 1024 < ownEntries s d then presentFrame (pteWord s.mem d (n / 1024) (n % 1024))
  else none

theorem walk_eq_map (m : Mem) (d v : Nat) :
    walk m d v = (presentFrame (pteWord m d (pdeIndex v) (pteIndex v))).map (· + v % 4096) := by
  unfold walk presentFrame
  split
  · rfl
  · rfl

theorem presentFrame_ne_none {w : Nat} : presentFrame w ≠ none ↔ w % 2 = 1 := by
  unfold presentFrame
  split
  · exact ⟨fun _ => ‹_›, fun _ h => by cases h⟩
  · exact ⟨fun h => absurd rfl h, fun h => absurd h ‹_›⟩

/-- An entry written with the present flag. -/
theorem presentFrame_entry {paddr flags : Nat} (hp : paddr < 2 ^ 32) (ha : paddr % 4096 = 0)
    (hf : flags % 2 = 1) : presentFrame (paddr ||| (flags &&& 0xfff)) = some paddr := by
  have hlt : flags &&& 0xfff < 4096 := Nat.lt_of_le_of_lt Nat.and_le_right (by decide)
  have hodd : (flags &&& 0xfff) % 2 = 1 := by
    rw [land_offset]
    omega
  unfold presentFrame
  rw [frame_or_flags ha hlt, if_pos (by omega), entryFrame_eq (by omega)]
  congr 1
  omega

theorem page_indices {v : Nat} (hv : v < 2 ^ 32) :
    v / 4096 / 1024 = pdeIndex v ∧ v / 4096 % 1024 = pteIndex v := by
  rw [pdeIndex_eq, pteIndex_eq]
  omega

theorem mapOf_page {s : Mm} {d v : Nat} (hd : IsDir s d) (hv : v < 2 ^ 32)
    (hown : pdeIndex v < ownEntries s d) :
    mapOf s d (v / 4096) = presentFrame (pteWord s.mem d (pdeIndex v) (pteIndex v)) := by
  obtain ⟨e1, e2⟩ := page_indices hv
  unfold mapOf
  rw [e1, e2, if_pos ⟨hd, hown⟩]

/-! ## 2. Calls -/

inductive VmmCall where
  | create
  | destroy (d : Nat)
  | mapPage (v paddr flags : Nat)
  | mapPageIn (d v paddr flags : Nat)
  | unmapPage (v : Nat)
  | unmapPageIn (d v : Nat)

/-- The call, with its result (`0` for the one that returns nothing). -/
def VmmCall.exec (s : Mm) : VmmCall → Except Stop (Int × Mm)
  | .create => do
    let (d, s') ← vmmCreateAddressSpace s
    return ((d : Int), s')
  | .destroy d => do
    let s' ← vmmDestroyAddressSpace s d
    return (0, s')
  | .mapPage v paddr flags => vmmMapPage s v paddr flags
  | .mapPageIn d v paddr flags => vmmMapPageIn s d v paddr flags
  | .unmapPage v => vmmUnmapPage s v
  | .unmapPageIn d v => vmmUnmapPageIn s d v

/-- The arguments are 32-bit words, and the address space is live. -/
def VmmCall.Legal (s : Mm) : VmmCall → Prop
  | .create => True
  | .destroy d => IsDir s d
  | .mapPage v paddr _ => v < 2 ^ 32 ∧ paddr < 2 ^ 32
  | .mapPageIn d v paddr _ => IsDir s d ∧ v < 2 ^ 32 ∧ paddr < 2 ^ 32
  | .unmapPage v => v < 2 ^ 32
  | .unmapPageIn d v => IsDir s d ∧ v < 2 ^ 32

/-- A mapping is asked for with `VMM_PAGE_PRESENT`. -/
def VmmCall.Present : VmmCall → Prop
  | .mapPage _ _ flags => flags % 2 = 1
  | .mapPageIn _ _ _ flags => flags % 2 = 1
  | _ => True

/-- The call does not replace or remove a mapping of the direct map. -/
def VmmCall.OffWindow (s : Mm) : VmmCall → Prop
  | .mapPage v _ _ => OffDirectMap s s.kernelPageDirectory (pdeIndex v)
  | .unmapPage v => OffDirectMap s s.kernelPageDirectory (pdeIndex v)
  | .unmapPageIn d v => OffDirectMap s d (pdeIndex v)
  | _ => True

/-- What the caller takes the result `r` to mean for the mappings. -/
def VmmCall.effect (s : Mm) (r : Int) (a : AddressMap) : VmmCall → AddressMap
  | .create => if r = 0 then a else a.clear r.toNat
  | .destroy d => if d = s.kernelPageDirectory then a else a.clear d
  | .mapPage v paddr _ => if r = 0 then a.set s.kernelPageDirectory (v / 4096) (some paddr) else a
  | .mapPageIn d v paddr _ => if r = 0 then a.set d (v / 4096) (some paddr) else a
  | .unmapPage v => if r = 0 then a.set s.kernelPageDirectory (v / 4096) none else a
  | .unmapPageIn d v => if r = 0 then a.set d (v / 4096) none else a

/-! ## 3. What a call does to the map -/

variable {κ : Type} {p0 : Pmm} {held : κ → Option Nat} {s : Mm}

/-- Among the own entries of all directories, a table stands behind one only. -/
theorem VmInv.own_unique (h : VmInv p0 held s) {d i t d' i' : Nat} (hd : IsDir s d)
    (hi : i < ownEntries s d) (ht : tableOf s.mem d i = some t) (hd' : IsDir s d')
    (hi' : i' < ownEntries s d') (ht' : tableOf s.mem d' i' = some t) : d' = d ∧ i' = i := by
  rcases h.table_unique hd hi ht hd' (Nat.lt_of_lt_of_le hi' (ownEntries_le s d').2) ht' with
    e | ⟨ek, ei, h768, hs⟩
  · exact e
  · -- an address space has no own entry in the kernel half
    have hk : d' ≠ s.kernelPageDirectory := fun e => (List.nodup_cons.mp h.nodup).1 (e ▸ hs)
    unfold ownEntries at hi'
    rw [if_neg hk] at hi'
    omega

/-- A change of one table entry behind an own entry of `d` changes one page. -/
theorem VmInv.pte_set {d i j t w : Nat} {p' : Pmm} {m' : Mem}
    (hinv : VmInv p0 held { s with pmm := p', mem := m' }) (hd : IsDir s d) (hi : i < ownEntries s d)
    (hj : j < 1024) (ht : tableOf m' d i = some t)
    (hpte : ∀ d' i' j', IsDir s d' → i' < 1024 → j' < 1024 → pteWord m' d' i' j' =
      if tableOf m' d' i' = some t ∧ j' = j then w else pteWord s.mem d' i' j')
    {d' n : Nat} (hown : IsDir s d' ∧ n / 1024 < ownEntries s d') :
    pteWord m' d' (n / 1024) (n % 1024) =
      if d' = d ∧ n = i * 1024 + j then w else pteWord s.mem d' (n / 1024) (n % 1024) := by
  have hi4 : n / 1024 < 1024 := Nat.lt_of_lt_of_le hown.2 (ownEntries_le s d').2
  rw [hpte d' (n / 1024) (n % 1024) hown.1 hi4 (Nat.mod_lt _ (by decide))]
  by_cases e : d' = d ∧ n = i * 1024 + j
  · have hn : n / 1024 = i ∧ n % 1024 = j := by omega
    rw [if_pos e, if_pos ⟨by rw [e.1, hn.1]; exact ht, hn.2⟩]
  · rw [if_neg e, if_neg fun hc => ?_]
    obtain ⟨e1, e2⟩ := hinv.own_unique hd hi ht hown.1 hown.2 hc.1
    exact e ⟨e1, by omega⟩

/-- The same, read off the map. -/
theorem VmInv.mapOf_set {d i j t w : Nat} {p' : Pmm} {m' : Mem}
    (hinv : VmInv p0 held { s with pmm := p', mem := m' }) (hd : IsDir s d) (hi : i < ownEntries s d)
    (hj : j < 1024) (ht : tableOf m' d i = some t)
    (hpte : ∀ d' i' j', IsDir s d' → i' < 1024 → j' < 1024 → pteWord m' d' i' j' =
      if tableOf m' d' i' = some t ∧ j' = j then w else pteWord s.mem d' i' j') :
    mapOf { s with pmm := p', mem := m' } =
      (mapOf s).set d (i * 1024 + j) (presentFrame w) := by
  funext d' n
  show (if IsDir s d' ∧ n / 1024 < ownEntries s d' then _ else none) = _
  unfold AddressMap.set
  by_cases hown : IsDir s d' ∧ n / 1024 < ownEntries s d'
  · rw [if_pos hown, hinv.pte_set hd hi hj ht hpte hown]
    by_cases e : d' = d ∧ n = i * 1024 + j
    · rw [if_pos e, if_pos e]
    · rw [if_neg e, if_neg e]
      exact (if_pos hown).symm
  · have hne : ¬ (d' = d ∧ n = i * 1024 + j) := fun e => hown (by
      rw [e.1, show n / 1024 = i by omega]
      exact ⟨hd, hi⟩)
    rw [if_neg hown, if_neg hne]
    exact (if_neg hown).symm

theorem page_of_pdePte {v : Nat} (hv : v < 2 ^ 32) : pdeIndex v * 1024 + pteIndex v = v / 4096 := by
  rw [pdeIndex_eq, pteIndex_eq]
  omega

/-- **A successful mapping** maps the page and nothing else. -/
theorem Mapped.mapOf_eq {t flags paddr v : Nat} {p' : Pmm} {m' : Mem} {d : Nat}
    (hinv : VmInv p0 held { s with pmm := p', mem := m' }) (hd : IsDir s d)
    (hown : pdeIndex v < ownEntries s d) (hv : v < 2 ^ 32) (hp : paddr < 2 ^ 32)
    (ha : paddr % 4096 = 0) (hf : flags % 2 = 1)
    (hm : Mapped held s m' d (pdeIndex v) (pteIndex v) t flags (paddr ||| (flags &&& 0xfff))) :
    mapOf { s with pmm := p', mem := m' } = (mapOf s).set d (v / 4096) (some paddr) := by
  rw [hinv.mapOf_set hd hown (pteIndex_lt v) hm.table hm.pte, presentFrame_entry hp ha hf,
    page_of_pdePte hv]

/-- The tables behind the entries stay; a new one may stand behind the entry that was mapped. -/
theorem Mapped.tables {d i j t flags pte : Nat} {m' : Mem}
    (hm : Mapped held s m' d i j t flags pte) {d' i' : Nat} (hd' : IsDir s d') (hi' : i' < 1024) :
    tableOf m' d' i' = tableOf s.mem d' i' ∨ tableOf s.mem d' i' = none ∧ d' = d ∧ i' = i := by
  by_cases e : d' = d ∧ i' = i
  · obtain ⟨rfl, rfl⟩ := e
    cases ht : tableOf s.mem d' i' with
    | none => exact Or.inr ⟨rfl, rfl, rfl⟩
    | some t' => exact Or.inl (by rw [hm.table, hm.old t' ht])
  · exact Or.inl (tableOf_congr (hm.dirs d' i' hd' hi' e))

/-- **A successful unmapping** unmaps the page and nothing else. -/
theorem Unmapped.mapOf_eq {t v : Nat} {m' : Mem} {d : Nat}
    (hinv : VmInv p0 held { s with mem := m' }) (hd : IsDir s d)
    (hown : pdeIndex v < ownEntries s d) (hv : v < 2 ^ 32)
    (ht : tableOf s.mem d (pdeIndex v) = some t) (hm : Unmapped held s m' t (pteIndex v)) :
    mapOf { s with mem := m' } = (mapOf s).set d (v / 4096) none := by
  have htab : ∀ d' i', IsDir s d' → i' < 1024 → tableOf m' d' i' = tableOf s.mem d' i' :=
    fun d' i' hd' hi' => tableOf_congr (hm.dirs d' i' hd' hi')
  rw [← page_of_pdePte hv]
  refine hinv.mapOf_set (w := 0) hd hown (pteIndex_lt v) ((htab d _ hd (pdeIndex_lt v)).trans ht)
    fun d' i' j' hd' hi' hj' => ?_
  rw [htab d' i' hd' hi']
  exact hm.pte d' i' j' hd' hi' hj'

/-- **A new address space** maps nothing. -/
theorem VmInv.mapOf_addSpace (h : VmInv p0 held s) {f : Nat} {p' : Pmm} {m' : Mem}
    (hf : ¬ IsDir s f) (hnew : ∀ i, i < 1024 → dirWord m' f i =
      if i < 768 then 0 else dirWord s.mem s.kernelPageDirectory i)
    (hm : ∀ (r : Role κ) g, frameOf s held r = some g → SamePage s.mem m' g) :
    mapOf { s with pmm := p', mem := m', spaces := f :: s.spaces } = (mapOf s).clear f := by
  obtain ⟨_, hpte⟩ := h.words_kept hm
  have hk : f ≠ s.kernelPageDirectory := fun e => hf (Or.inl e)
  funext d n
  unfold mapOf AddressMap.clear
  by_cases e : d = f
  · subst e
    rw [if_pos rfl]
    split
    · rename_i hc
      have hlt : n / 1024 < 768 := by
        have := hc.2
        unfold ownEntries at this
        rw [if_neg hk] at this
        exact this
      have hnone : tableOf m' d (n / 1024) = none := by
        unfold tableOf
        rw [hnew _ (by omega), if_pos hlt]
        rfl
      rw [pteWord_of_none hnone]
      rfl
    · rfl
  · have hdir : IsDir { s with pmm := p', mem := m', spaces := f :: s.spaces } d ↔ IsDir s d :=
      isDir_cons.trans (or_iff_right e)
    rw [if_neg e]
    by_cases hown : IsDir s d ∧ n / 1024 < ownEntries s d
    · have hi4 : n / 1024 < 1024 := Nat.lt_of_lt_of_le hown.2 (ownEntries_le s d).2
      refine (if_pos ⟨hdir.mpr hown.1, hown.2⟩).trans (Eq.trans ?_ (if_pos hown).symm)
      exact congrArg presentFrame (hpte d _ _ hown.1 hi4 (Nat.mod_lt _ (by decide)))
    · exact (if_neg fun hc => hown ⟨hdir.mp hc.1, hc.2⟩).trans (if_neg hown).symm

/-- **A destroyed address space** maps nothing any more. -/
theorem VmInv.mapOf_removeSpace (h : VmInv p0 held s) {d : Nat} {p' : Pmm} (hd : d ∈ s.spaces) :
    mapOf { s with pmm := p', spaces := s.spaces.erase d } = (mapOf s).clear d := by
  funext d' n
  unfold mapOf AddressMap.clear
  by_cases e : d' = d
  · rw [if_pos e]
    exact if_neg fun hc => ((h.isDir_erase hd).mp hc.1).1 e
  · rw [if_neg e]
    exact if_congr (and_congr_left fun _ => (h.isDir_erase hd).trans (and_iff_right e)) rfl rfl

/-- The address spaces after the result `r`. -/
def VmmCall.spacesAfter (s : Mm) (r : Int) : VmmCall → List Nat
  | .create => if r = 0 then s.spaces else r.toNat :: s.spaces
  | .destroy d => if d = s.kernelPageDirectory then s.spaces else s.spaces.erase d
  | _ => s.spaces

/-- The call may put a table behind the empty entry `i` of `d`. -/
def VmmCall.AddsTable (s : Mm) (d i : Nat) : VmmCall → Prop
  | .mapPage v _ _ => d = s.kernelPageDirectory ∧ i = pdeIndex v
  | .mapPageIn d' v _ _ => d = d' ∧ i = pdeIndex v ∧ i < ownEntries s d
  | _ => False

/-- What is known of a call that returned. -/
structure CallSpec (p0 : Pmm) (held : κ → Option Nat) (s : Mm) (c : VmmCall) (r : Int) (s' : Mm) :
    Prop where
  inv : VmInv p0 held s'
  kernel : s'.kernelPageDirectory = s.kernelPageDirectory
  spaces : s'.spaces = c.spacesAfter s r
  tables : ∀ d i, IsDir s d → i < 1024 → tableOf s'.mem d i = tableOf s.mem d i ∨
    tableOf s.mem d i = none ∧ c.AddsTable s d i
  created : ∀ d, d ∈ s'.spaces → ¬ IsDir s d → ∀ i, 768 ≤ i → i < 1024 →
    tableOf s'.mem d i = tableOf s'.mem s.kernelPageDirectory i
  map : c.Present → mapOf s' = c.effect s r (mapOf s)

theorem create_spec (h : VmInv p0 held s) :
    ∃ r s', VmmCall.create.exec s = .ok (r, s') ∧ CallSpec p0 held s .create r s' := by
  rcases vmmCreateAddressSpace_spec h with
    ⟨e, hinv, _⟩ | ⟨f, p', m', _, e, hf0, hf, hinv, hnew, hsame, _⟩
  · exact ⟨0, _, bind_ok.mpr ⟨_, e, rfl⟩, hinv, rfl, rfl, fun _ _ _ _ => Or.inl rfl,
      fun d hd hn => absurd (Or.inr hd) hn, fun _ => rfl⟩
  · have hne : ¬ ((f : Int) = 0) := by omega
    have hold := (h.words_kept hsame).1
    refine ⟨(f : Int), _, bind_ok.mpr ⟨_, e, rfl⟩, hinv, rfl, (if_neg hne).symm,
      fun d i hd hi => Or.inl (tableOf_congr (hold d i hd hi)), fun d hd hn i h1 h2 => ?_,
      fun _ => (h.mapOf_addSpace hf hnew hsame).trans (if_neg hne).symm⟩
    have hdf : d = f := (List.mem_cons.mp hd).resolve_right fun hd => hn (Or.inr hd)
    have hw := (hnew i h2).trans (if_neg (by omega))
    rw [← hold _ i (isDir_kernel s) h2] at hw
    subst hdf
    unfold tableOf
    rw [hw]

theorem destroy_spec (h : VmInv p0 held s) {d : Nat} (hd : IsDir s d) :
    ∃ r s', (VmmCall.destroy d).exec s = .ok (r, s') ∧ CallSpec p0 held s (.destroy d) r s' := by
  by_cases hk : d = s.kernelPageDirectory
  · subst hk
    exact ⟨0, s, bind_ok.mpr ⟨_, vmmDestroyAddressSpace_kernel s, rfl⟩, h, rfl,
      (if_pos rfl).symm, fun _ _ _ _ => Or.inl rfl, fun d hd hn => absurd (Or.inr hd) hn,
      fun _ => (if_pos rfl).symm⟩
  · have hs := hd.resolve_left hk
    obtain ⟨e, hinv⟩ := vmmDestroyAddressSpace_spec h hs
    exact ⟨0, _, bind_ok.mpr ⟨_, e, rfl⟩, hinv, rfl, (if_neg hk).symm, fun _ _ _ _ => Or.inl rfl,
      fun d hd hn => absurd (Or.inr (List.mem_of_mem_erase hd)) hn,
      fun _ => (h.mapOf_removeSpace hs).trans (if_neg hk).symm⟩

theorem mapPageIn_spec (h : VmInv p0 held s) {d v paddr : Nat} (flags : Nat) (hd : IsDir s d)
    (hv : v < 2 ^ 32) (hp : paddr < 2 ^ 32) :
    ∃ r s', (VmmCall.mapPageIn d v paddr flags).exec s = .ok (r, s') ∧
      CallSpec p0 held s (.mapPageIn d v paddr flags) r s' := by
  rcases vmmMapPageIn_spec h hd v flags hp with
    ⟨p', e, hinv, _⟩ | ⟨t, p', m', e, hinv, _, hpa, hown, _, hmap, _⟩
  · exact ⟨-1, _, e, hinv, rfl, rfl, fun _ _ _ _ => Or.inl rfl,
      fun d hd hn => absurd (Or.inr hd) hn, fun _ => rfl⟩
  · exact ⟨0, _, e, hinv, rfl, rfl,
      fun d' i' hd' hi' => (hmap.tables hd' hi').imp id fun hn =>
        ⟨hn.1, hn.2.1, hn.2.2, by rw [hn.2.1, hn.2.2]; exact hown⟩,
      fun d hd hn => absurd (Or.inr hd) hn, fun hf => hmap.mapOf_eq hinv hd hown hv hp hpa hf⟩

theorem mapPage_spec (h : VmInv p0 held s) {v paddr : Nat} (flags : Nat) (hv : v < 2 ^ 32)
    (hp : paddr < 2 ^ 32) (hoff : OffDirectMap s s.kernelPageDirectory (pdeIndex v)) :
    ∃ r s', (VmmCall.mapPage v paddr flags).exec s = .ok (r, s') ∧
      CallSpec p0 held s (.mapPage v paddr flags) r s' := by
  rcases vmmMapPage_spec h flags hp hoff with
    ⟨p', e, hinv, _⟩ | ⟨t, p', m', e, hinv, _, hpa, hmap⟩
  · exact ⟨-1, _, e, hinv, rfl, rfl, fun _ _ _ _ => Or.inl rfl,
      fun d hd hn => absurd (Or.inr hd) hn, fun _ => rfl⟩
  · refine ⟨0, _, e, hinv, rfl, rfl, fun d' i' hd' hi' => hmap.tables hd' hi',
      fun d hd hn => absurd (Or.inr hd) hn,
      fun hf => hmap.mapOf_eq hinv (isDir_kernel s) ?_ hv hp hpa hf⟩
    rw [ownEntries_kernel]
    exact pdeIndex_lt v

theorem unmapPageIn_spec (h : VmInv p0 held s) {d v : Nat} (hd : IsDir s d) (hv : v < 2 ^ 32)
    (hoff : OffDirectMap s d (pdeIndex v)) :
    ∃ r s', (VmmCall.unmapPageIn d v).exec s = .ok (r, s') ∧
      CallSpec p0 held s (.unmapPageIn d v) r s' := by
  rcases vmmUnmapPageIn_spec h hd hoff with ⟨_, e⟩ | ⟨hmapped, t, m', ht, e, hinv, hun⟩
  · exact ⟨-1, s, e, h, rfl, rfl, fun _ _ _ _ => Or.inl rfl,
      fun d hd hn => absurd (Or.inr hd) hn, fun _ => rfl⟩
  · exact ⟨0, _, e, hinv, rfl, rfl,
      fun d' i' hd' hi' => Or.inl (tableOf_congr (hun.dirs d' i' hd' hi')),
      fun d hd hn => absurd (Or.inr hd) hn, fun _ => hun.mapOf_eq hinv hd hmapped.2.1 hv ht⟩

/-- **Every legal call off the direct map returns**, keeps the invariant, and has the effect on
    the map that its caller expects. -/
theorem VmmCall.spec (h : VmInv p0 held s) {c : VmmCall} (hl : c.Legal s) (hoff : c.OffWindow s) :
    ∃ r s', c.exec s = .ok (r, s') ∧ CallSpec p0 held s c r s' := by
  cases c with
  | create => exact create_spec h
  | destroy d => exact destroy_spec h hl
  | mapPage v paddr flags => exact mapPage_spec h flags hl.1 hl.2 hoff
  | mapPageIn d v paddr flags => exact mapPageIn_spec h flags hl.1 hl.2.1 hl.2.2
  | unmapPage v =>
    obtain ⟨r, s', e, hs⟩ := unmapPageIn_spec h (isDir_kernel s) hl hoff
    exact ⟨r, s', e, hs.inv, hs.kernel, hs.spaces, hs.tables, hs.created, hs.map⟩
  | unmapPageIn d v => exact unmapPageIn_spec h hl.1 hl.2 hoff

/-! ## 4. Runs -/

/-- What `vmm_init` maps: the direct map, in the kernel directory `kd`. -/
def bootMap (kd : Nat) : AddressMap := fun d n =>
  if d = kd ∧ 0xC0000 ≤ n ∧ n < 0xC1000 then some ((n - 0xC0000) * 4096) else none

/-- The states reached from `s0` by legal calls that meet the condition `C` where they are made,
    each with the map the callers' results add up to. -/
inductive VmmReach (C : Mm → VmmCall → Prop) (s0 : Mm) : Mm → AddressMap → Prop where
  | boot : VmmReach C s0 s0 (bootMap s0.kernelPageDirectory)
  | call {s s' : Mm} {a : AddressMap} {c : VmmCall} {r : Int} : VmmReach C s0 s a → c.Legal s →
    C s c → c.exec s = .ok (r, s') → VmmReach C s0 s' (c.effect s r a)

/-- The invariant along every run off the direct map. -/
theorem vmInv_vmmReach {C : Mm → VmmCall → Prop} {m : Mem} {img : KernelImage}
    {mbi : MultibootInfo} {s0 s : Mm} {a : AddressMap} (hb : Booted m img mbi p0 s0)
    (hC : ∀ s c, C s c → c.OffWindow s) (hr : VmmReach C s0 s a) :
    VmInv p0 (noneHeld : κ → Option Nat) s := by
  induction hr with
  | boot => exact (vmmInit_spec hb.low hb.vmmInit).1
  | call _ hl hc e ih =>
    obtain ⟨r, s', e', hs⟩ := VmmCall.spec ih hl (hC _ _ hc)
    cases e.symm.trans e'
    exact hs.inv

/-- After `vmm_init` the tables map what they should. -/
theorem mapOf_booted {m : Mem} {img : KernelImage} {mbi : MultibootInfo} {s : Mm}
    (hb : Booted m img mbi p0 s) : mapOf s = bootMap s.kernelPageDirectory := by
  obtain ⟨h, hsp, _, _, _, hempty⟩ := @vmmInit_spec Unit p0 hb.low m s hb.vmmInit
  funext d n
  unfold mapOf bootMap
  have hdir : IsDir s d ↔ d = s.kernelPageDirectory := by
    unfold IsDir
    rw [hsp]
    exact or_iff_left List.not_mem_nil
  by_cases hd : d = s.kernelPageDirectory
  · subst hd
    by_cases hn : 0xC0000 ≤ n ∧ n < 0xC1000
    · have hw := h.direct ((n - 0xC0000) * 4096) (by omega)
      rw [walk_eq_map] at hw
      have e1 : pdeIndex (0xC0000000 + (n - 0xC0000) * 4096) = n / 1024 := by
        rw [pdeIndex_eq]
        omega
      have e2 : pteIndex (0xC0000000 + (n - 0xC0000) * 4096) = n % 1024 := by
        rw [pteIndex_eq]
        omega
      rw [e1, e2] at hw
      obtain ⟨f, hf, hadd⟩ := Option.map_eq_some_iff.mp hw
      rw [if_pos ⟨hdir.mpr rfl, by rw [ownEntries_kernel]; omega⟩, if_pos ⟨rfl, hn⟩, hf]
      exact congrArg some (by omega)
    · refine Eq.trans ?_ (if_neg fun hc => hn hc.2).symm
      split
      · rename_i hc
        rw [ownEntries_kernel] at hc
        rw [pteWord_of_none (hempty _ hc.2 (by omega))]
        rfl
      · rfl
  · rw [if_neg fun hc => hd (hdir.mp hc.1), if_neg fun hc => hd hc.1]

end Emyx
