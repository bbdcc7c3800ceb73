/-
  File:      Emyx/Vmm/KernelHalf.lean
  Subject:   THE KERNEL HALF OF THE ADDRESS SPACES: when it is the same everywhere.

  `vmm_create_address_space` copies the kernel's directory entries once. A table that the kernel
  directory gets later, behind an entry that was empty, is seen by no address space that exists
  already. The check in `cmd_vmmtest` looks up the kernel's own code, behind an entry that is
  there from the start.

  * `KernelTableReady` -- a mapping in the kernel half finds its table, or no address space exists;
  * **`kernelHalf_same`** -- in every run whose calls meet it, every lookup at `0xC0000000` and
    above gives in every address space what it gives in the kernel directory;
  * **`kernelHalf_differs`** -- an address space created before the first mapping at `0xC1000000`
    does not see it.
-/
import Emyx.Vmm.Refine

namespace Emyx

open Lib

/-- Every lookup in the kernel half returns, and gives in every address space what it gives in the
    kernel directory. -/
def KernelHalfSame (s : Mm) : Prop :=
  ∀ d ∈ s.spaces, ∀ v, 0xC0000000 ≤ v → v < 2 ^ 32 →
    ∃ r, vmmGetPaddrIn s d v = .ok r ∧ vmmGetPaddr s v = .ok r

/-- A call that maps a page of the kernel half finds the kernel directory's entry for it present,
    or there is no address space yet. -/
def KernelTableReady (s : Mm) : VmmCall → Prop
  | .mapPage v _ _ => 0xC0000000 ≤ v →
    dirWord s.mem s.kernelPageDirectory (pdeIndex v) % 2 = 1 ∨ s.spaces = []
  | .mapPageIn d v _ _ => d = s.kernelPageDirectory → 0xC0000000 ≤ v →
    dirWord s.mem s.kernelPageDirectory (pdeIndex v) % 2 = 1 ∨ s.spaces = []
  | _ => True

/-- The calls that keep the kernel half common. -/
def KernelHalfKept (s : Mm) (c : VmmCall) : Prop := KernelTableReady s c ∧ c.OffWindow s

/-- The address spaces show the kernel's tables in their kernel half, all of them. -/
def SharedHalf (s : Mm) : Prop :=
  ∀ d ∈ s.spaces, ∀ i, 768 ≤ i → i < 1024 →
    tableOf s.mem d i = tableOf s.mem s.kernelPageDirectory i

variable {κ : Type} {p0 : Pmm} {held : κ → Option Nat} {s : Mm}

theorem SharedHalf.same (hsh : SharedHalf s) (h : VmInv p0 held s) : KernelHalfSame s := by
  intro d hd v h1 h2
  have hi := pdeIndex_eq v
  have hpte : pteWord s.mem d (pdeIndex v) (pteIndex v) =
      pteWord s.mem s.kernelPageDirectory (pdeIndex v) (pteIndex v) := by
    unfold pteWord
    rw [hsh d hd (pdeIndex v) (by omega) (by omega)]
  refine ⟨_, vmmGetPaddrIn_eq h (Or.inr hd) v, ?_⟩
  rw [walk_congr hpte]
  exact vmmGetPaddrIn_eq h (isDir_kernel s) v

/-- A call that may add a table in the kernel half does so while there is no address space. -/
theorem KernelTableReady.adds {c : VmmCall} (hl : c.Legal s) (hc : KernelTableReady s c) {d i : Nat}
    (hd : IsDir s d) (h768 : 768 ≤ i) (ht : tableOf s.mem d i = none) (ha : c.AddsTable s d i) :
    d = s.kernelPageDirectory ∧ s.spaces = [] := by
  cases c with
  | mapPage v paddr flags =>
    obtain ⟨rfl, rfl⟩ := ha
    have hv := pdeIndex_eq v
    refine ⟨rfl, (hc ?_).resolve_left (tableOf_none ht)⟩
    have := hl.1
    omega
  | mapPageIn d' v paddr flags =>
    obtain ⟨rfl, rfl, hown⟩ := ha
    have hk : d = s.kernelPageDirectory := by
      by_contra hk
      unfold ownEntries at hown
      rw [if_neg hk] at hown
      omega
    subst hk
    have hv := pdeIndex_eq v
    refine ⟨rfl, (hc rfl ?_).resolve_left (tableOf_none ht)⟩
    have := hl.2.1
    omega
  | create => cases ha
  | destroy d' => cases ha
  | unmapPage v => cases ha
  | unmapPageIn d' v => cases ha

/-- **One call keeps the kernel half common.** -/
theorem SharedHalf.call (hsh : SharedHalf s) {c : VmmCall} {r : Int} {s' : Mm}
    (hs : CallSpec p0 held s c r s') (hl : c.Legal s) (hc : KernelTableReady s c) :
    SharedHalf s' := by
  intro d hd i h768 hi
  rw [hs.kernel]
  by_cases hold : IsDir s d
  · by_cases hk : d = s.kernelPageDirectory
    · rw [hk]
    have hmem := hold.resolve_left hk
    have hno : ∀ d', IsDir s d' → tableOf s'.mem d' i = tableOf s.mem d' i := fun d' hd' =>
      (hs.tables d' i hd' hi).resolve_right fun hn => by
        have := (hc.adds hl hd' h768 hn.1 hn.2).2
        rw [this] at hmem
        cases hmem
    rw [hno d hold, hno _ (isDir_kernel s)]
    exact hsh d hmem i h768 hi
  · exact hs.created d hd hold i h768 hi

/-- **THE KERNEL HALF IS COMMON** along every run whose calls find their kernel tables and leave
    the direct map alone. -/
theorem kernelHalf_same {m : Mem} {img : KernelImage} {mbi : MultibootInfo} {s0 : Mm}
    {a : AddressMap} (hb : Booted m img mbi p0 s0) (hr : VmmReach KernelHalfKept s0 s a) :
    KernelHalfSame s := by
  have hinv : ∀ {s a}, VmmReach KernelHalfKept s0 s a →
      VmInv p0 (noneHeld : Unit → Option Nat) s := fun hr =>
    vmInv_vmmReach hb (fun _ _ h => h.2) hr
  have hsh : SharedHalf s := by
    induction hr with
    | boot =>
      intro d hd
      rw [(@vmmInit_spec Unit p0 hb.low m s0 hb.vmmInit).2.1] at hd
      cases hd
    | call hr hl hC e ih =>
      obtain ⟨r, s', e', hs⟩ := VmmCall.spec (hinv hr) hl hC.2
      cases e.symm.trans e'
      exact ih.call hs hl hC.1
  exact hsh.same (hinv hr)

theorem kernelHalf_created : ∃ s0 s a,
    Booted lowMem smallImage (mapInfo 1) (lowPmm lowMem) s0 ∧
    VmmReach KernelHalfKept s0 s a ∧ s.spaces = [0x116000] ∧ KernelHalfSame s := by
  obtain ⟨s0, s1, hb, e, hsp, _⟩ := create_lowMem
  have hr := VmmReach.call (C := KernelHalfKept) (c := .create) .boot trivial ⟨trivial, trivial⟩ e
  exact ⟨s0, s1, _, hb, hr, hsp, kernelHalf_same hb hr⟩

/-- **A kernel mapping that its address spaces miss**: create an address space, then map a page at
    `0xC1000000`, behind a directory entry that is empty so far. -/
theorem kernelHalf_differs :
    ¬ ∀ (m : Mem) (img : KernelImage) (mbi : MultibootInfo) (p0 : Pmm) (s0 s : Mm) (a : AddressMap),
      Booted m img mbi p0 s0 → VmmReach (fun _ _ => True) s0 s a → KernelHalfSame s := by
  intro hall
  obtain ⟨s0, s1, hb, e1, hsp, h1, hpage⟩ := create_lowMem
  obtain ⟨h0, hsp0, _, _, _, hempty⟩ := @vmmInit_spec Unit _ hb.low _ _ hb.vmmInit
  obtain ⟨r1, s1', e1', hs1⟩ := create_spec h0
  cases e1.symm.trans e1'
  have hi : pdeIndex 0xC1000000 = 772 := by decide
  have hoff : OffDirectMap s1 s1.kernelPageDirectory (pdeIndex 0xC1000000) := by
    rw [hi]
    exact fun _ => by decide
  -- neither directory has a table there yet
  have hk1 : tableOf s1.mem s0.kernelPageDirectory 772 = none :=
    ((hs1.tables _ 772 (isDir_kernel s0) (by decide)).resolve_right fun hc => hc.2).trans
      (hempty 772 (by decide) (by decide))
  have hmem : 0x116000 ∈ s1.spaces := by
    rw [hsp]
    exact List.mem_singleton_self _
  have hne : 0x116000 ≠ s1.kernelPageDirectory := fun e =>
    (List.nodup_cons.mp h1.nodup).1 (e ▸ hmem)
  have hd0 : ¬ IsDir s0 0x116000 := fun hd => by
    rcases hd with hd | hd
    · exact hne (hd.trans hs1.kernel.symm)
    · rw [hsp0] at hd
      cases hd
  have hd1 : tableOf s1.mem 0x116000 772 = none :=
    (hs1.created 0x116000 hmem hd0 772 (by decide) (by decide)).trans hk1
  rcases vmmMapPage_spec h1 3 (show 0 < 2 ^ 32 by decide) hoff with
    ⟨_, _, _, hwhy, _⟩ | ⟨t, p', m', e2, hinv, _, _, hmap⟩
  · exact hpage (hwhy (by decide) (by decide)).2
  have hr1 := VmmReach.call (C := fun _ _ => True) (c := .create) .boot trivial trivial e1
  have hr2 := hr1.call (c := .mapPage 0xC1000000 0 3) ⟨by decide, by decide⟩ trivial e2
  obtain ⟨r, ha, hk⟩ := hall _ _ _ _ _ _ _ hb hr2 0x116000 hmem 0xC1000000 (by decide) (by decide)
  have hd2 : tableOf m' 0x116000 (pdeIndex 0xC1000000) = none := by
    rw [hi]
    exact (tableOf_congr (hmap.dirs 0x116000 772 (Or.inr hmem) (by decide)
      fun hc => hne hc.1)).trans hd1
  have hmiss : vmmGetPaddrIn { s1 with pmm := p', mem := m' } 0x116000 0xC1000000 = .ok none := by
    refine (vmmGetPaddrIn_eq hinv (Or.inr hmem) _).trans ?_
    unfold walk
    rw [pteWord_of_none hd2]
    rfl
  have hhit : vmmGetPaddr { s1 with pmm := p', mem := m' } 0xC1000000 = .ok (some 0) := by
    have hown : pdeIndex 0xC1000000 < ownEntries s1 s1.kernelPageDirectory := by
      rw [ownEntries_kernel, hi]
      decide
    refine (hinv.lookup (isDir_kernel _) (by decide) hown).trans ?_
    rw [hmap.mapOf_eq hinv (isDir_kernel s1) hown (by decide) (by decide) (by decide) (by decide)]
    unfold AddressMap.set
    rw [if_pos ⟨rfl, rfl⟩]
    rfl
  cases hmiss.symm.trans ha
  cases hhit.symm.trans hk

end Emyx
