/-
  File:      Emyx/Vmm/Rights.lean
  Subject:   THE RIGHTS OF A PAGE are those it was mapped with.

  The processor takes the AND of the flags of the directory entry and of the table entry. A
  directory entry serves 1024 pages: every mapping adds its flags there, none takes any away.

  * `GrantReach C s0 s g` -- runs of the calls of vmm.h, with the flags `g` each page was last
    mapped with;
  * `RightsInv` -- the invariant: a table entry has the flags of its mapping, and the directory
    entry has them too (and maybe more);
  * **`rights_exact`** -- so along every run that leaves the direct map alone the effective rights
    are the ones asked for, and user code reaches no page that was not mapped for it;
  * **`rights_lost_directMap`** -- through a remapped direct map a mapping goes to the wrong table.
-/
import Emyx.Vmm.Refine

namespace Emyx

open Lib

/-! ## 1. Rights -/

/-- The bits of `VMM_PAGE_WRITABLE` and `VMM_PAGE_USER`. -/
def rights (w : Nat) : Nat := w &&& (2 ||| 4)

/-- What the processor lets a program do with page `n` of `d`. -/
def effectiveRights (m : Mem) (d n : Nat) : Nat :=
  rights (dirWord m d (n / 1024) &&& pteWord m d (n / 1024) (n % 1024))

/-- The flags asked for, after the result `r` of the call. -/
def VmmCall.granted (s : Mm) (r : Int) (g : AddressMap) : VmmCall → AddressMap
  | .create => if r = 0 then g else g.clear r.toNat
  | .destroy d => if d = s.kernelPageDirectory then g else g.clear d
  | .mapPage v _ flags => if r = 0 then g.set s.kernelPageDirectory (v / 4096) (some flags) else g
  | .mapPageIn d v _ flags => if r = 0 then g.set d (v / 4096) (some flags) else g
  | .unmapPage v => if r = 0 then g.set s.kernelPageDirectory (v / 4096) none else g
  | .unmapPageIn d v => if r = 0 then g.set d (v / 4096) none else g

/-- The states reached from `s0`, each with the flags its pages were mapped with. -/
inductive GrantReach (C : Mm → VmmCall → Prop) (s0 : Mm) : Mm → AddressMap → Prop where
  | boot : GrantReach C s0 s0 fun _ _ => none
  | call {s s' : Mm} {g : AddressMap} {c : VmmCall} {r : Int} : GrantReach C s0 s g → c.Legal s →
    C s c → c.exec s = .ok (r, s') → GrantReach C s0 s' (c.granted s r g)

structure RightsExact (s : Mm) (g : AddressMap) : Prop where
  exact : ∀ d n flags, g d n = some flags →
    pteWord s.mem d (n / 1024) (n % 1024) % 2 = 1 ∧ effectiveRights s.mem d n = rights flags
  user : ∀ d v, IsDir s d → v < 0xC0000000 → userPhys s.mem d v false ≠ none →
    ∃ flags, g d (v / 4096) = some flags ∧ flags / 4 % 2 = 1

theorem testBit_rights (w b : Nat) :
    (rights w).testBit b = (w.testBit b && decide (b = 1 ∨ b = 2)) := by
  unfold rights
  rw [Nat.testBit_and]
  congr 1
  match b with
  | 0 => rfl
  | 1 => rfl
  | 2 => rfl
  | b + 3 =>
    rw [Nat.testBit_lt_two_pow (Nat.lt_of_lt_of_le (by decide : 2 ||| 4 < 2 ^ 3)
      (Nat.pow_le_pow_right (by decide) (by omega)))]
    simp

/-- A table entry has the rights of its flags. -/
theorem testBit_entry {paddr flags b : Nat} (ha : paddr % 4096 = 0) (hb : b < 12) :
    (paddr ||| (flags &&& 0xfff)).testBit b = flags.testBit b := by
  have hz : paddr.testBit b = false := by
    obtain ⟨q, rfl⟩ : ∃ q, paddr = q * 2 ^ 12 := ⟨paddr / 4096, by omega⟩
    rw [Nat.testBit_mul_two_pow]
    simp [Nat.not_le.mpr hb]
  rw [Nat.testBit_or, hz, Nat.testBit_and, show 0xfff = 2 ^ 12 - 1 from rfl,
    Nat.testBit_two_pow_sub_one]
  simp [hb]

/-! ## 2. The invariant -/

/-- Directory and table entry of page `n` stand for the flags it was mapped with. -/
structure Grant (m : Mem) (d n flags : Nat) : Prop where
  present : pteWord m d (n / 1024) (n % 1024) % 2 = 1
  pte : ∀ b, b = 1 ∨ b = 2 → (pteWord m d (n / 1024) (n % 1024)).testBit b = flags.testBit b
  pde : ∀ b, b = 1 ∨ b = 2 → flags.testBit b = true → (dirWord m d (n / 1024)).testBit b = true

structure RightsInv (s : Mm) (g : AddressMap) : Prop where
  own : ∀ d n flags, g d n = some flags → IsDir s d ∧ n / 1024 < ownEntries s d
  grant : ∀ d n flags, g d n = some flags → Grant s.mem d n flags
  user : ∀ d n, IsDir s d → n / 1024 < 768 → pteWord s.mem d (n / 1024) (n % 1024) % 2 = 1 →
    g d n ≠ none

theorem Grant.effective {m : Mem} {d n flags : Nat} (h : Grant m d n flags) :
    effectiveRights m d n = rights flags := by
  refine Nat.eq_of_testBit_eq fun b => ?_
  unfold effectiveRights
  rw [testBit_rights, testBit_rights, Nat.testBit_and]
  by_cases hb : b = 1 ∨ b = 2
  · rw [h.pte b hb]
    cases hf : flags.testBit b with
    | false => simp
    | true => simp [h.pde b hb hf]
  · simp [hb]

/-- The same words grant the same. -/
theorem Grant.congr {m m' : Mem} {d n flags : Nat} (h : Grant m d n flags)
    (hd : ∀ b, (dirWord m d (n / 1024)).testBit b = true →
      (dirWord m' d (n / 1024)).testBit b = true)
    (hp : pteWord m' d (n / 1024) (n % 1024) = pteWord m d (n / 1024) (n % 1024)) :
    Grant m' d n flags :=
  ⟨hp ▸ h.present, hp ▸ h.pte, fun b hb hf => hd b (h.pde b hb hf)⟩

/-- A present table entry has a table. -/
theorem Grant.table {m : Mem} {d n flags : Nat} (h : Grant m d n flags) :
    tableOf m d (n / 1024) ≠ none := fun e => by
  have hp := h.present
  rw [pteWord_of_none e] at hp
  cases hp

theorem RightsInv.exact {s : Mm} {g : AddressMap} (h : RightsInv s g) : RightsExact s g where
  exact d n flags hg := ⟨(h.grant d n flags hg).present, (h.grant d n flags hg).effective⟩
  user d v hd hv hu := by
    obtain ⟨e1, e2⟩ := page_indices (v := v) (by omega)
    have hpte : Grants (pteWord s.mem d (v / 4096 / 1024) (v / 4096 % 1024)) false := by
      unfold userPhys at hu
      rw [e1, e2]
      exact (Classical.byContradiction fun hn => hu (if_neg hn)).2
    obtain ⟨flags, hf⟩ := Option.ne_none_iff_exists'.mp
      (h.user d (v / 4096) hd (by omega) hpte.1)
    have hbit := (h.grant d _ flags hf).pte 2 (Or.inr rfl)
    rw [Nat.testBit_eq_decide_div_mod_eq, Nat.testBit_eq_decide_div_mod_eq, decide_eq_decide] at hbit
    exact ⟨flags, hf, hbit.mp hpte.2.1⟩

/-! ## 3. Each call keeps it -/

variable {κ : Type} {p0 : Pmm} {held : κ → Option Nat} {s : Mm} {g : AddressMap}

theorem AddressMap.set_some {a : AddressMap} {d n d' n' x : Nat} {y : Option Nat}
    (h : a.set d n y d' n' = some x) :
    (d' = d ∧ n' = n) ∧ y = some x ∨ ¬ (d' = d ∧ n' = n) ∧ a d' n' = some x := by
  unfold AddressMap.set at h
  split at h
  · exact Or.inl ⟨‹_›, h⟩
  · exact Or.inr ⟨‹_›, h⟩

theorem AddressMap.clear_some {a : AddressMap} {d d' n x : Nat} (h : a.clear d d' n = some x) :
    d' ≠ d ∧ a d' n = some x := by
  unfold AddressMap.clear at h
  split at h
  · cases h
  · exact ⟨‹_›, h⟩

theorem RightsInv.of_pmm (h : RightsInv s g) (p' : Pmm) : RightsInv { s with pmm := p' } g :=
  ⟨h.own, h.grant, h.user⟩

/-- A mapping takes no flag away from a directory entry with a table behind it. -/
theorem Mapped.dir_bits {d i j t flags pte : Nat} {m' : Mem}
    (hm : Mapped held s m' d i j t flags pte) {d' i' b : Nat} (hd' : IsDir s d') (hi' : i' < 1024)
    (ht : tableOf s.mem d' i' ≠ none) (hb : (dirWord s.mem d' i').testBit b = true) :
    (dirWord m' d' i').testBit b = true := by
  by_cases e : d' = d ∧ i' = i
  · obtain ⟨rfl, rfl⟩ := e
    rw [hm.dir, if_neg ht, Nat.testBit_or, hb, Bool.true_or]
  · rw [hm.dirs d' i' hd' hi' e]
    exact hb

/-- **A mapping grants its flags**, and leaves the rights of every other page alone. -/
theorem RightsInv.mapped (h : RightsInv s g) {d v t flags paddr : Nat} {p' : Pmm} {m' : Mem}
    (hinv : VmInv p0 held { s with pmm := p', mem := m' }) (hd : IsDir s d)
    (hown : pdeIndex v < ownEntries s d) (hv : v < 2 ^ 32) (ha : paddr % 4096 = 0)
    (hf : flags % 2 = 1)
    (hm : Mapped held s m' d (pdeIndex v) (pteIndex v) t flags (paddr ||| (flags &&& 0xfff))) :
    RightsInv { s with pmm := p', mem := m' } (g.set d (v / 4096) (some flags)) := by
  have hword := fun (d' n : Nat) (ho : IsDir s d' ∧ n / 1024 < ownEntries s d') =>
    hinv.pte_set hd hown (pteIndex_lt v) hm.table hm.pte ho
  rw [page_of_pdePte hv] at hword
  obtain ⟨e1, e2⟩ := page_indices hv
  refine ⟨fun d' n f hg => ?_, fun d' n f hg => ?_, fun d' n hd' hn hp => ?_⟩
  · rcases AddressMap.set_some hg with ⟨⟨rfl, rfl⟩, _⟩ | ⟨_, hg⟩
    · exact ⟨hd, e1 ▸ hown⟩
    · exact h.own d' n f hg
  · rcases AddressMap.set_some hg with ⟨⟨rfl, rfl⟩, hx⟩ | ⟨hne, hg⟩
    · -- the page itself: its entry is new, and its directory entry has been given the flags
      cases hx
      have hw := (hword d' (v / 4096) ⟨hd, e1 ▸ hown⟩).trans (if_pos ⟨rfl, rfl⟩)
      refine ⟨?_, fun b hb => ?_, fun b hb hfb => ?_⟩
      · have hbit := @testBit_entry paddr flags 0 ha (by decide)
        rw [Nat.testBit_zero, Nat.testBit_zero, decide_eq_decide] at hbit
        rw [hw]
        exact hbit.mpr hf
      · rw [hw]
        exact testBit_entry ha (by omega)
      · have hr : (flags &&& (2 ||| 4)).testBit b = true := by
          rw [← rights, testBit_rights, hfb, decide_eq_true hb]
          rfl
        rw [e1, hm.dir, Nat.testBit_or, hr, Bool.or_true]
    · have hold := h.grant d' n f hg
      have ho := h.own d' n f hg
      exact hold.congr (fun b => hm.dir_bits ho.1
        (Nat.lt_of_lt_of_le ho.2 (ownEntries_le s d').2) hold.table)
        ((hword d' n ho).trans (if_neg hne))
  · have ho : n / 1024 < ownEntries s d' := Nat.lt_of_lt_of_le hn (ownEntries_le s d').1
    unfold AddressMap.set
    by_cases e : d' = d ∧ n = v / 4096
    · rw [if_pos e]
      exact fun hc => by cases hc
    · rw [if_neg e]
      rw [hword d' n ⟨hd', ho⟩, if_neg e] at hp
      exact h.user d' n hd' hn hp

/-- **An unmapping** takes the rights of one page. -/
theorem RightsInv.unmapped (h : RightsInv s g) {d v t : Nat} {m' : Mem}
    (hinv : VmInv p0 held { s with mem := m' }) (hd : IsDir s d)
    (hown : pdeIndex v < ownEntries s d) (hv : v < 2 ^ 32)
    (ht : tableOf s.mem d (pdeIndex v) = some t) (hm : Unmapped held s m' t (pteIndex v)) :
    RightsInv { s with mem := m' } (g.set d (v / 4096) none) := by
  have htab : ∀ d' i', IsDir s d' → i' < 1024 → tableOf m' d' i' = tableOf s.mem d' i' :=
    fun d' i' hd' hi' => tableOf_congr (hm.dirs d' i' hd' hi')
  have hword := fun (d' n : Nat) (ho : IsDir s d' ∧ n / 1024 < ownEntries s d') =>
    VmInv.pte_set (w := 0) hinv hd hown (pteIndex_lt v) ((htab d _ hd (pdeIndex_lt v)).trans ht)
      (fun d' i' j' hd' hi' hj' => by
        rw [htab d' i' hd' hi']
        exact hm.pte d' i' j' hd' hi' hj') ho
  rw [page_of_pdePte hv] at hword
  refine ⟨fun d' n f hg => ?_, fun d' n f hg => ?_, fun d' n hd' hn hp => ?_⟩
  · rcases AddressMap.set_some hg with ⟨_, hx⟩ | ⟨_, hg⟩
    · cases hx
    · exact h.own d' n f hg
  · rcases AddressMap.set_some hg with ⟨_, hx⟩ | ⟨hne, hg⟩
    · cases hx
    · have ho := h.own d' n f hg
      have hdir := hm.dirs d' _ ho.1 (Nat.lt_of_lt_of_le ho.2 (ownEntries_le s d').2)
      exact (h.grant d' n f hg).congr (fun b hb => hdir ▸ hb) ((hword d' n ho).trans (if_neg hne))
  · have ho : n / 1024 < ownEntries s d' := Nat.lt_of_lt_of_le hn (ownEntries_le s d').1
    rw [hword d' n ⟨hd', ho⟩] at hp
    unfold AddressMap.set
    by_cases e : d' = d ∧ n = v / 4096
    · rw [if_pos e] at hp
      cases hp
    · rw [if_neg e] at hp ⊢
      exact h.user d' n hd' hn hp

/-- **A new address space** has no rights to give. -/
theorem RightsInv.created (h : RightsInv s g) (hinv : VmInv p0 held s) {f : Nat} {p' : Pmm} {m' : Mem}
    (hf : ¬ IsDir s f) (hnew : ∀ i, i < 1024 → dirWord m' f i =
      if i < 768 then 0 else dirWord s.mem s.kernelPageDirectory i)
    (hm : ∀ (r : Role κ) g, frameOf s held r = some g → SamePage s.mem m' g) :
    RightsInv { s with pmm := p', mem := m', spaces := f :: s.spaces } (g.clear f) := by
  obtain ⟨hdir, hpte⟩ := hinv.words_kept hm
  refine ⟨fun d n x hg => ?_, fun d n x hg => ?_, fun d n hd hn hp => ?_⟩
  · obtain ⟨_, hg⟩ := AddressMap.clear_some hg
    exact ⟨isDir_cons.mpr (Or.inr (h.own d n x hg).1), (h.own d n x hg).2⟩
  · obtain ⟨_, hg⟩ := AddressMap.clear_some hg
    obtain ⟨ho, hi⟩ := h.own d n x hg
    have hi4 := Nat.lt_of_lt_of_le hi (ownEntries_le s d).2
    exact (h.grant d n x hg).congr (fun b hb => hdir d _ ho hi4 ▸ hb)
      (hpte d _ _ ho hi4 (Nat.mod_lt _ (by decide)))
  · by_cases e : d = f
    · subst e
      have hnone : tableOf m' d (n / 1024) = none := by
        unfold tableOf
        rw [hnew _ (by omega), if_pos hn]
        rfl
      rw [pteWord_of_none hnone] at hp
      cases hp
    · have hd' : IsDir s d := (isDir_cons.mp hd).resolve_left e
      rw [hpte d _ _ hd' (by omega) (Nat.mod_lt _ (by decide))] at hp
      unfold AddressMap.clear
      rw [if_neg e]
      exact h.user d n hd' hn hp

/-- **A destroyed address space** has none left. -/
theorem RightsInv.destroyed (h : RightsInv s g) (hinv : VmInv p0 held s) {d : Nat} {p' : Pmm}
    (hd : d ∈ s.spaces) :
    RightsInv { s with pmm := p', spaces := s.spaces.erase d } (g.clear d) := by
  have hdir : ∀ d', IsDir { s with pmm := p', spaces := s.spaces.erase d } d' ↔ d' ≠ d ∧ IsDir s d' :=
    fun d' => hinv.isDir_erase hd
  refine ⟨fun d' n x hg => ?_, fun d' n x hg => ?_, fun d' n hd' hn hp => ?_⟩
  · obtain ⟨hne, hg⟩ := AddressMap.clear_some hg
    exact ⟨(hdir d').mpr ⟨hne, (h.own d' n x hg).1⟩, (h.own d' n x hg).2⟩
  · exact h.grant d' n x (AddressMap.clear_some hg).2
  · obtain ⟨hne, hd'⟩ := (hdir d').mp hd'
    unfold AddressMap.clear
    rw [if_neg hne]
    exact h.user d' n hd' hn hp

/-- **One call.** -/
theorem RightsInv.call (h : RightsInv s g) (hinv : VmInv p0 held s) {c : VmmCall} {r : Int} {s' : Mm}
    (hl : c.Legal s) (hC : DirectMapKept s c) (e : c.exec s = .ok (r, s')) :
    RightsInv s' (c.granted s r g) := by
  cases c with
  | create =>
    rcases vmmCreateAddressSpace_spec hinv with
      ⟨e', _⟩ | ⟨f, p', m', _, e', hf0, hf, _, hnew, hsame, _⟩
    · cases e.symm.trans (bind_ok.mpr ⟨_, e', rfl⟩)
      exact h.of_pmm _
    · cases e.symm.trans (bind_ok.mpr ⟨_, e', rfl⟩)
      show RightsInv _ (if (f : Int) = 0 then g else g.clear f)
      rw [if_neg (by omega)]
      exact h.created hinv hf hnew hsame
  | destroy d =>
    show RightsInv s' (if d = s.kernelPageDirectory then g else g.clear d)
    by_cases hk : d = s.kernelPageDirectory
    · subst hk
      cases e.symm.trans (bind_ok.mpr ⟨_, vmmDestroyAddressSpace_kernel s, rfl⟩)
      rw [if_pos rfl]
      exact h
    · have hs : d ∈ s.spaces := Or.resolve_left hl hk
      obtain ⟨e', _⟩ := vmmDestroyAddressSpace_spec hinv hs
      cases e.symm.trans (bind_ok.mpr ⟨_, e', rfl⟩)
      rw [if_neg hk]
      exact h.destroyed hinv hs
  | mapPage v paddr flags =>
    rcases vmmMapPage_spec hinv flags hl.2 hC.2 with
      ⟨p', e', _⟩ | ⟨t, p', m', e', hinv', _, hpa, hmap⟩
    · cases e.symm.trans e'
      exact h.of_pmm p'
    · cases e.symm.trans e'
      exact h.mapped hinv' (isDir_kernel s) (by rw [ownEntries_kernel]; exact pdeIndex_lt v) hl.1
        hpa hC.1 hmap
  | mapPageIn d v paddr flags =>
    rcases vmmMapPageIn_spec hinv hl.1 v flags hl.2.2 with
      ⟨p', e', _⟩ | ⟨t, p', m', e', hinv', _, hpa, hown, _, hmap, _⟩
    · cases e.symm.trans e'
      exact h.of_pmm p'
    · cases e.symm.trans e'
      exact h.mapped hinv' hl.1 hown hl.2.1 hpa hC.1 hmap
  | unmapPage v =>
    rcases vmmUnmapPageIn_spec hinv (isDir_kernel s) hC.2 with
      ⟨_, e'⟩ | ⟨hmapped, t, m', ht, e', hinv', hun⟩
    · cases e.symm.trans e'
      exact h
    · cases e.symm.trans e'
      exact h.unmapped hinv' (isDir_kernel s) hmapped.2.1 hl ht hun
  | unmapPageIn d v =>
    rcases vmmUnmapPageIn_spec hinv hl.1 hC.2 with
      ⟨_, e'⟩ | ⟨hmapped, t, m', ht, e', hinv', hun⟩
    · cases e.symm.trans e'
      exact h
    · cases e.symm.trans e'
      exact h.unmapped hinv' hl.1 hmapped.2.1 hl.2 ht hun

/-! ## 4. Runs -/

/-- The same run, with the map of the frames. -/
theorem GrantReach.reach {C : Mm → VmmCall → Prop} {s0 : Mm} (hr : GrantReach C s0 s g) :
    ∃ a, VmmReach C s0 s a := by
  induction hr with
  | boot => exact ⟨_, .boot⟩
  | call _ hl hC e ih =>
    obtain ⟨a, hr⟩ := ih
    exact ⟨_, hr.call hl hC e⟩

/-- **THE RIGHTS ARE EXACT** along every run that leaves the direct map alone. -/
theorem rights_exact {m : Mem} {img : KernelImage} {mbi : MultibootInfo} {s0 : Mm}
    (hb : Booted m img mbi p0 s0) (hr : GrantReach DirectMapKept s0 s g) : RightsExact s g := by
  refine RightsInv.exact ?_
  induction hr with
  | boot =>
    obtain ⟨_, _, _, _, _, hempty⟩ := @vmmInit_spec Unit p0 hb.low m s0 hb.vmmInit
    have hsp := (@vmmInit_spec Unit p0 hb.low m s0 hb.vmmInit).2.1
    refine ⟨fun _ _ _ => nofun, fun _ _ _ => nofun, fun d n hd hn hp => ?_⟩
    -- `vmm_init` maps nothing in the user half
    have hk : d = s0.kernelPageDirectory := hd.resolve_right (by rw [hsp]; exact List.not_mem_nil)
    rw [hk, pteWord_of_none (hempty _ (by omega) (by omega))] at hp
    cases hp
  | call hr hl hC e ih =>
    obtain ⟨a, hr'⟩ := hr.reach
    have hinv := @vmInv_vmmReach Unit p0 _ _ _ _ _ _ _ hb (fun _ _ h => h.2) hr'
    exact ih.call hinv hl hC e

/-- In the address space the small machine creates nothing is mapped. -/
theorem create_lowMem_unmapped {s0 s1 : Mm}
    (hb : Booted lowMem smallImage (mapInfo 1) (lowPmm lowMem) s0)
    (e : VmmCall.create.exec s0 = .ok (0x116000, s1)) (hd : IsDir s1 0x116000) :
    pteWord s1.mem 0x116000 (pdeIndex 0x400000) (pteIndex 0x400000) % 2 ≠ 1 := by
  have h0 := (@vmmInit_spec Unit _ hb.low _ _ hb.vmmInit).1
  obtain ⟨r, s', e', hs⟩ := VmmCall.spec h0 (c := .create) trivial trivial
  cases e.symm.trans e'
  have hmap := congrFun (congrFun (hs.map trivial) 0x116000) (0x400000 / 4096)
  rw [mapOf_page hd (by decide) (user_own (by decide))] at hmap
  exact fun hp => presentFrame_ne_none.mpr hp hmap

theorem rights_exact_code : ∃ s0 s g,
    Booted lowMem smallImage (mapInfo 1) (lowPmm lowMem) s0 ∧
    GrantReach DirectMapKept s0 s g ∧ g 0x116000 0x400 = some 5 ∧ RightsExact s g := by
  obtain ⟨s0, s1, hb, e, hsp, h1, hlow⟩ := create_lowMem
  have hd : IsDir s1 0x116000 := Or.inr (by rw [hsp]; exact List.mem_singleton_self _)
  have hr1 := GrantReach.call (C := DirectMapKept) (c := .create) .boot trivial ⟨trivial, trivial⟩ e
  rcases vmmMapPageIn_spec h1 hd 0x400000 5 (show 0x200000 < 2 ^ 32 by decide) with
    ⟨_, _, _, hwhy, _⟩ | ⟨t, p', m', e2, _⟩
  · rcases hwhy (by decide) (by decide) (user_own (by decide)) with hp | hp
    · exact absurd hp (create_lowMem_unmapped hb e hd)
    · exact absurd hp.2 hlow
  · have hr2 := hr1.call (c := .mapPageIn 0x116000 0x400000 0x200000 5)
      ⟨hd, by decide, by decide⟩ ⟨rfl, trivial⟩ e2
    exact ⟨s0, _, _, hb, hr2, rfl, rights_exact hb hr2⟩

/-! ## 5. A remapped direct map -/

/-- The kernel directory in `m'` shows what it shows in `s`, but for the page of the direct map that
    the table at `t` lies in: its entry is `w`. -/
structure Redirected (s : Mm) (t w : Nat) (m' : Mem) : Prop where
  tables : ∀ i, i < 1024 → tableOf m' s.kernelPageDirectory i = tableOf s.mem s.kernelPageDirectory i
  pte : ∀ i j, i < 1024 → j < 1024 → pteWord m' s.kernelPageDirectory i j =
    if i = 768 ∧ j = t / 4096 then w else pteWord s.mem s.kernelPageDirectory i j

/-- The rest of the direct map is in place. -/
theorem Redirected.walk_other {t w x : Nat} {m' : Mem} (hr : Redirected s t w m')
    (h : VmInv p0 held s) (hx : x < 0x1000000) (hne : x / 4096 ≠ t / 4096) :
    walk m' s.kernelPageDirectory (0xC0000000 + x) = some x := by
  have hw := h.direct x hx
  have hi := pdeIndex_eq (0xC0000000 + x)
  have hj := pteIndex_eq (0xC0000000 + x)
  have hpte := (hr.pte _ _ (pdeIndex_lt (0xC0000000 + x)) (pteIndex_lt (0xC0000000 + x))).trans
    (if_neg (by omega))
  unfold walk at hw ⊢
  rw [hpte]
  exact hw

/-- With the entry present and naming page 0, the table is looked for there. -/
theorem Redirected.walk_table {t k : Nat} {m' : Mem} (hr : Redirected s t 3 m') (ht : t < 0x400000)
    (hta : t % 4096 = 0) (hk : k < 4096) :
    walk m' s.kernelPageDirectory (0xC0000000 + t + k) = some k := by
  have hi := pdeIndex_eq (0xC0000000 + t + k)
  have hj := pteIndex_eq (0xC0000000 + t + k)
  have hpte := (hr.pte _ _ (pdeIndex_lt (0xC0000000 + t + k))
    (pteIndex_lt (0xC0000000 + t + k))).trans (if_pos (by omega))
  unfold walk
  rw [hpte, if_pos (by decide), show entryFrame 3 = 0 from rfl]
  congr 1
  omega

/-- A write to a page that is neither the directory nor one of its tables. -/
theorem Redirected.write {t w f k x : Nat} {m' : Mem} (hr : Redirected s t w m')
    (h : VmInv p0 held s) (hf : f % 4096 = 0) (hk : k < 1024) (hfd : f ≠ s.kernelPageDirectory)
    (hft : ∀ i, i < 1024 → tableOf s.mem s.kernelPageDirectory i ≠ some f) :
    Redirected s t w (wr32 m' (f + 4 * k) x) := by
  have htab : ∀ i, i < 1024 → tableOf (wr32 m' (f + 4 * k) x) s.kernelPageDirectory i =
      tableOf m' s.kernelPageDirectory i := fun i hi => tableOf_congr
    (dirWord_congr (samePage_wr32 (h.dir_aligned (isDir_kernel s)) hf hfd.symm hk) hi)
  refine ⟨fun i hi => (htab i hi).trans (hr.tables i hi), fun i j hi hj => ?_⟩
  rw [← hr.pte i j hi hj]
  exact pteWord_congr (htab i hi) (fun t' ht' => samePage_wr32 (tableOf_aligned ht') hf
    (fun e => hft i hi (((hr.tables i hi).symm.trans ht').trans (congrArg some e))) hk) hj

/-- Flags added to a directory entry. -/
theorem Redirected.writeDir {t w i t' k : Nat} {m' : Mem} (hr : Redirected s t w m')
    (h : VmInv p0 held s) (hi : i < 1024) (ht' : tableOf s.mem s.kernelPageDirectory i = some t')
    (hk : k < 4096) : Redirected s t w (wr32 m' (s.kernelPageDirectory + 4 * i)
      (dirWord m' s.kernelPageDirectory i ||| k)) := by
  have hodd := tableOf_some ((hr.tables i hi).trans ht')
  obtain ⟨hlt, hfr, hp⟩ := entry_or_flags (dirWord_lt m' s.kernelPageDirectory i) hk
  have hkd := h.dir_aligned (isDir_kernel s)
  generalize hwd : dirWord m' s.kernelPageDirectory i ||| k = x at *
  have htab : ∀ i', i' < 1024 → tableOf (wr32 m' (s.kernelPageDirectory + 4 * i) x)
      s.kernelPageDirectory i' = tableOf m' s.kernelPageDirectory i' := fun i' hi' => by
    by_cases e : i' = i
    · subst e
      have hword : dirWord (wr32 m' (s.kernelPageDirectory + 4 * i') x) s.kernelPageDirectory i' = x :=
        (rd32_wr32 _ _ _).trans (Nat.mod_eq_of_lt hlt)
      rw [tableOf_of_word hword (hp hodd.1), hfr, hodd.2, hr.tables i' hi', ht']
    · exact tableOf_congr (rd32_wr32_outside (by omega))
  refine ⟨fun i' hi' => (htab i' hi').trans (hr.tables i' hi'), fun i' j hi' hj => ?_⟩
  rw [← hr.pte i' j hi' hj]
  refine pteWord_congr (htab i' hi') (fun t1 ht1 => samePage_wr32 (tableOf_aligned ht1) hkd ?_ hi) hj
  exact h.table_ne_dir (isDir_kernel s) hi' ((hr.tables i' hi').symm.trans ht1) (isDir_kernel s)

/-- The entry itself. -/
theorem Redirected.writeEntry {t w t0 x : Nat} {m' : Mem} (hr : Redirected s t w m')
    (h : VmInv p0 held s) (ht : t < 0x400000) (hx : x < 2 ^ 32)
    (ht0 : tableOf s.mem s.kernelPageDirectory 768 = some t0) :
    Redirected s t x (wr32 m' (t0 + 4 * (t / 4096)) x) := by
  have hk := isDir_kernel s
  have hta := tableOf_aligned ht0
  have hj : t / 4096 < 1024 := by omega
  have htab : ∀ i, i < 1024 → tableOf (wr32 m' (t0 + 4 * (t / 4096)) x) s.kernelPageDirectory i =
      tableOf m' s.kernelPageDirectory i := fun i hi => tableOf_congr (dirWord_congr
    (samePage_wr32 (h.dir_aligned hk) hta (h.table_ne_dir hk (by decide) ht0 hk).symm hj) hi)
  refine ⟨fun i hi => (htab i hi).trans (hr.tables i hi), fun i j hi hj' => ?_⟩
  by_cases e : i = 768
  · subst e
    have ht' := (hr.tables 768 hi).trans ht0
    rw [pteWord_of_table ((htab 768 hi).trans ht')]
    by_cases e' : j = t / 4096
    · rw [if_pos ⟨rfl, e'⟩, e', rd32_wr32, Nat.mod_eq_of_lt hx]
    · have hold := hr.pte 768 j hi hj'
      rw [if_neg fun hc => e' hc.2, pteWord_of_table ht'] at hold
      rw [if_neg fun hc => e' hc.2, ← hold]
      exact rd32_wr32_outside (by omega)
  · have hold := hr.pte i j hi hj'
    rw [if_neg fun hc => e hc.1] at hold ⊢
    rw [← hold]
    refine pteWord_congr (htab i hi) (fun t1 ht1 => samePage_wr32 (tableOf_aligned ht1) hta ?_ hj) hj'
    intro hc
    have hown : ∀ i', i' < 1024 → i' < ownEntries s s.kernelPageDirectory := fun i' hi' => by
      rw [ownEntries_kernel]
      exact hi'
    exact e (h.own_unique hk (hown 768 (by decide)) ht0 hk (hown i hi)
      (((hr.tables i hi).symm.trans ht1).trans (congrArg some hc))).2

theorem load_of_walk {ptr i a : Nat} (hw : walk s.mem s.kernelPageDirectory (ptr + 4 * i) = some a) :
    s.load ptr i = .ok (rd32 s.mem a) := by
  unfold Mm.load Mm.direct
  rw [hw]
  rfl

theorem store_of_walk {ptr i a x : Nat}
    (hw : walk s.mem s.kernelPageDirectory (ptr + 4 * i) = some a) :
    s.store ptr i x = .ok { s with mem := wr32 s.mem a x } := by
  unfold Mm.store Mm.direct
  rw [hw]
  rfl

/-- **`vmm_map_page` where a table is in place**, in any memories `Q` that show the table and its
    entry at `a` and that the call's own writes do not leave. -/
theorem vmmMapPage_through {Q : Mem → Prop} (v paddr flags tab a : Nat)
    (hpos : s.kernelPageDirectory ≠ 0) (hkd : s.kernelPageDirectory < 0x1000000)
    (hlim : tab < 0x1000000) (hv : v % 4096 = 0) (hpa : paddr % 4096 = 0) (hQ : Q s.mem)
    (hdir : ∀ m, Q m → walk m s.kernelPageDirectory
        (0xC0000000 + s.kernelPageDirectory + 4 * pdeIndex v) =
      some (s.kernelPageDirectory + 4 * pdeIndex v))
    (htab : ∀ m, Q m → tableOf m s.kernelPageDirectory (pdeIndex v) = some tab)
    (hent : ∀ m, Q m → walk m s.kernelPageDirectory (0xC0000000 + tab + 4 * pteIndex v) = some a)
    (hzero : ∀ m, Q m → Q (wr32 m a 0))
    (hflag : ∀ m, Q m → Q (wr32 m (s.kernelPageDirectory + 4 * pdeIndex v)
      (dirWord m s.kernelPageDirectory (pdeIndex v) ||| (flags &&& (2 ||| 4))))) :
    ∃ m', Q m' ∧ vmmMapPage s v paddr flags =
      .ok (0, { s with mem := wr32 m' a (paddr ||| (flags &&& 0xfff)) }) := by
  have hpde : ∀ m, Q m → dirWord m s.kernelPageDirectory (pdeIndex v) % 2 = 1 ∧
      entryFrame (dirWord m s.kernelPageDirectory (pdeIndex v)) = tab :=
    fun m hm => tableOf_some (htab m hm)
  have hload : ∀ m, Q m → Mm.load { s with mem := m } (0xC0000000 + s.kernelPageDirectory)
      (pdeIndex v) = .ok (dirWord m s.kernelPageDirectory (pdeIndex v)) :=
    fun m hm => load_of_walk (s := { s with mem := m }) (hdir m hm)
  have hput : ∀ m x, Q m → Mm.store { s with mem := m } (0xC0000000 + tab) (pteIndex v) x =
      .ok { s with mem := wr32 m a x } :=
    fun m x hm => store_of_walk (s := { s with mem := m }) (hent m hm)
  have h1 := hzero s.mem hQ
  have h2 := hflag _ h1
  refine ⟨_, h2, ?_⟩
  -- the old entry goes first
  unfold vmmMapPage vmmGetPageTableIn
  rw [if_neg (by rw [land_page_zero, land_page_zero]; omega), if_neg hpos, vmmPhysToVirt_of_lt hkd]
  simp only
  rw [if_neg (by omega), show s.load _ _ = _ from hload s.mem hQ, ok_bind,
    if_neg fun hz => land_one_zero.mp hz (hpde _ hQ).1, (hpde _ hQ).2, vmmPhysToVirt_of_lt hlim]
  simp only [pure_bind]
  rw [if_pos (by omega), show s.store _ _ _ = _ from hput s.mem 0 hQ, ok_bind]
  -- then `vmm_map_page_in` finds the table, an empty entry, and writes both words
  unfold vmmMapPageIn mapTable
  rw [if_neg fun hc => hc.elim hpos fun hc => land_page_zero.mp hc hv,
    if_neg (by rw [land_page_zero]; omega), if_neg fun hc => hc.1 rfl, vmmPhysToVirt_of_lt hkd]
  simp only
  rw [if_neg (by omega), hload _ h1, ok_bind, if_pos (land_one_ne.mpr (hpde _ h1).1), (hpde _ h1).2,
    vmmPhysToVirt_of_lt hlim]
  simp only [pure_bind]
  rw [if_neg (by omega)]
  unfold mapEntry
  have hread := load_of_walk (s := { s with mem := wr32 s.mem a 0 }) (hent _ h1)
  have hset := store_of_walk (s := { s with mem := wr32 s.mem a 0 })
    (x := dirWord (wr32 s.mem a 0) s.kernelPageDirectory (pdeIndex v) ||| (flags &&& (2 ||| 4)))
    (hdir _ h1)
  rw [hread, ok_bind]
  simp only [rd32_wr32]
  rw [if_neg (by decide), hload _ h1, ok_bind, hset, ok_bind, hput _ _ h2, ok_bind]
  rfl

/-- **A page table remapped**: put page 0 where the direct map shows the table of the second 4 MiB,
    then map a page there. Both calls succeed, and the table has not changed. -/
theorem VmInv.remap_table (h : VmInv p0 held s) {t0 t : Nat}
    (ht0 : tableOf s.mem s.kernelPageDirectory 768 = some t0)
    (ht : tableOf s.mem s.kernelPageDirectory 769 = some t) (hlow : t < 0x400000) :
    ∃ m1 m2, vmmMapPage s (0xC0000000 + t) 0 3 = .ok (0, { s with mem := m1 }) ∧
      vmmMapPage { s with mem := m1 } 0xC0400000 0x5000 7 = .ok (0, { s with mem := m2 }) ∧
      Redirected s t 3 m2 := by
  have hk := isDir_kernel s
  have hkd := h.dirLimit _ hk
  have hka := h.dir_aligned hk
  have hkpos := h.dir_pos hk
  have hta := tableOf_aligned ht
  have hta0 := tableOf_aligned ht0
  have hlim := h.table_limit hk (by decide) ht
  have hlim0 := h.table_limit hk (by decide) ht0
  have hne := h.table_ne_dir hk (by decide) ht hk
  have hne0 : t0 ≠ t := fun e => by
    have hown : ownEntries s s.kernelPageDirectory = 1024 := ownEntries_kernel s
    exact absurd (h.own_unique hk (by omega) ht0 hk (by omega) (e ▸ ht)).2 (by decide)
  have htpos : ∀ i, i < 1024 → tableOf s.mem s.kernelPageDirectory i ≠ some 0 := fun i hi hz => by
    have hown : ownEntries s s.kernelPageDirectory = 1024 := ownEntries_kernel s
    have := (h.own.mem ((frameOf_table hk (by omega)).trans hz)).pos
    omega
  have hflags : ∀ f, f &&& (2 ||| 4) < 4096 := fun f =>
    Nat.lt_of_le_of_lt Nat.and_le_right (by decide)
  have hi1 : pdeIndex (0xC0000000 + t) = 768 := by rw [pdeIndex_eq]; omega
  have hj1 : pteIndex (0xC0000000 + t) = t / 4096 := by rw [pteIndex_eq]; omega
  have hdir : ∀ i w m, i < 1024 → Redirected s t w m →
      walk m s.kernelPageDirectory (0xC0000000 + s.kernelPageDirectory + 4 * i) =
        some (s.kernelPageDirectory + 4 * i) := fun i w m hi hr => by
    rw [Nat.add_assoc]
    exact hr.walk_other h (by omega) (by omega)
  -- the first call replaces the entry
  obtain ⟨m', ⟨w, hr'⟩, e1⟩ := vmmMapPage_through (s := s)
    (Q := fun m => ∃ w, Redirected s t w m) (0xC0000000 + t) 0 3 t0 (t0 + 4 * (t / 4096))
    (by omega) (by omega) (by omega) (by omega) rfl
    ⟨pteWord s.mem s.kernelPageDirectory 768 (t / 4096), fun _ _ => rfl, fun i j _ _ => by
      split
      · rename_i e
        rw [e.1, e.2]
      · rfl⟩
    (fun m ⟨w, hr⟩ => hi1 ▸ hdir 768 w m (by decide) hr)
    (fun m ⟨w, hr⟩ => hi1 ▸ (hr.tables 768 (by decide)).trans ht0)
    (fun m ⟨w, hr⟩ => by
      rw [hj1, Nat.add_assoc]
      exact hr.walk_other h (by omega) (by omega))
    (fun m ⟨w, hr⟩ => ⟨0, hr.writeEntry h hlow (by decide) ht0⟩)
    (fun m ⟨w, hr⟩ => ⟨w, hi1 ▸ hr.writeDir h (by decide) ht0 (hflags 3)⟩)
  have hr1 : Redirected s t 3 (wr32 m' (t0 + 4 * (t / 4096)) (0 ||| (3 &&& 0xfff))) :=
    hr'.writeEntry h hlow (by decide) ht0
  generalize wr32 m' (t0 + 4 * (t / 4096)) (0 ||| (3 &&& 0xfff)) = m1 at *
  -- the second writes its entry to page 0
  obtain ⟨m'', hr'', e2⟩ := vmmMapPage_through (s := { s with mem := m1 })
    (Q := Redirected s t 3) 0xC0400000 0x5000 7 t 0
    (show s.kernelPageDirectory ≠ 0 by omega) (show s.kernelPageDirectory < 0x1000000 by omega)
    (by omega) rfl rfl hr1
    (fun m hr => hdir 769 3 m (by decide) hr) (fun m hr => (hr.tables 769 (by decide)).trans ht)
    (fun m hr => hr.walk_table hlow hta (by decide))
    (fun m hr => hr.write h (f := 0) (k := 0) rfl (by decide) (by omega) htpos)
    (fun m hr => hr.writeDir h (by decide) ht (hflags 7))
  exact ⟨m1, _, e1, e2, hr''.write h (f := 0) (k := 0) rfl (by decide) (by omega) htpos⟩

/-- **Without the restriction rights are lost**: after the two calls the page that was mapped for
    user code is not open to it. -/
theorem rights_lost_directMap :
    ¬ ∀ (m : Mem) (img : KernelImage) (mbi : MultibootInfo) (p0 : Pmm) (s0 s : Mm) (g : AddressMap),
      Booted m img mbi p0 s0 → GrantReach (fun _ c => c.Present) s0 s g → RightsExact s g := by
  intro hall
  obtain ⟨s0, hb, _⟩ := booted_lowMem
  have h := (@vmmInit_spec Unit _ hb.low _ _ hb.vmmInit).1
  obtain ⟨t0, _, ht0, _⟩ := vmmInit_words hb.low hb.vmmInit (i := 768) (by decide) (by decide)
  obtain ⟨t, _, ht, hw⟩ := vmmInit_words hb.low hb.vmmInit (i := 769) (by decide) (by decide)
  have hlow : t < 0x400000 := by
    have hown := ownEntries_kernel s0
    obtain ⟨page, hpage, _, hlt, _⟩ :=
      h.own.mem ((frameOf_table (isDir_kernel s0) (by omega)).trans ht)
    have hmax := (freeFrom_lowRam lowMem).1
    omega
  obtain ⟨m1, m2, e1, e2, hr⟩ := h.remap_table ht0 ht hlow
  have hr1 := GrantReach.call (C := fun _ c => c.Present)
    (c := .mapPage (0xC0000000 + t) 0 3) .boot
    (show 0xC0000000 + t < 2 ^ 32 ∧ 0 < 2 ^ 32 by omega) rfl e1
  have hr2 := hr1.call (c := .mapPage 0xC0400000 0x5000 7) ⟨by decide, by decide⟩ rfl e2
  have hx := ((hall _ _ _ _ _ _ _ hb hr2).exact s0.kernelPageDirectory 0xC0400 7
    (if_pos ⟨rfl, rfl⟩)).2
  have hpte := ((hr.pte 769 0 (by decide) (by decide)).trans (if_neg (by omega))).trans
    (hw 0 (by decide))
  -- the entry of the direct map, which is closed to user code, is still there
  have hbit := congrArg (fun w => w.testBit 2) hx
  unfold effectiveRights at hbit
  simp only [testBit_rights, Nat.testBit_and] at hbit
  rw [show pteWord _ _ (0xC0400 / 1024) (0xC0400 % 1024) = _ from hpte,
    show (((769 - 768) * 4194304 + 0 * 4096 + 3 : Nat)).testBit 2 = false from rfl] at hbit
  simp at hbit
  exact absurd hbit (by decide)

end Emyx
