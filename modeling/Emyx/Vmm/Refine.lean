/-
  File:      Emyx/Vmm/Refine.lean
  Subject:   THE TWO-LEVEL TABLES REFINE A MAP from pages to frames, one for each address space.

  * `Refines C s a` -- at the state `s`, lookups answer by the map `a`; `vmm_map_page_in` refuses a
    mapped page, `vmm_map_page` replaces it, `vmm_unmap_page_in` succeeds exactly on mapped pages;
    calls (those that meet `C`) return, and change no translation but the one they are asked to;
  * **`refines_reach`** -- it holds in every state reached by calls that leave the direct map alone;
  * **`refines_lost_directMap`** -- without that restriction it fails: the kernel reaches its own
    directories through the direct map, and `vmm_unmap_page` takes any address.
-/
import Emyx.Vmm.Run

namespace Emyx

open Lib

/-- The call is about page `n` of `d`. -/
def VmmCall.Targets (s : Mm) (d n : Nat) : VmmCall → Prop
  | .mapPage v _ _ => d = s.kernelPageDirectory ∧ n = v / 4096
  | .mapPageIn d' v _ _ => d = d' ∧ n = v / 4096
  | .unmapPage v => d = s.kernelPageDirectory ∧ n = v / 4096
  | .unmapPageIn d' v => d = d' ∧ n = v / 4096
  | _ => False

structure Refines (C : Mm → VmmCall → Prop) (s : Mm) (a : AddressMap) : Prop where
  lookup : ∀ d v, IsDir s d → v < 0xC0000000 →
    vmmGetPaddrIn s d v = .ok ((a d (v / 4096)).map (· + v % 4096))
  refuses : ∀ d v paddr flags, IsDir s d → v < 0xC0000000 → paddr < 2 ^ 32 → a d (v / 4096) ≠ none →
    vmmMapPageIn s d v paddr flags = .ok (-1, s)
  replaces : ∀ v paddr flags, (VmmCall.mapPage v paddr flags).Legal s →
    C s (.mapPage v paddr flags) → v % 4096 = 0 → paddr % 4096 = 0 →
    a s.kernelPageDirectory (v / 4096) ≠ none →
    ∃ s', vmmMapPage s v paddr flags = .ok (0, s') ∧ vmmGetPaddr s' v = .ok (some paddr)
  unmaps : ∀ d v, IsDir s d → v < 0xC0000000 → v % 4096 = 0 →
    ((∃ s', vmmUnmapPageIn s d v = .ok (0, s')) ↔ a d (v / 4096) ≠ none)
  returns : ∀ c : VmmCall, c.Legal s → C s c → ∃ r s', c.exec s = .ok (r, s')
  separate : ∀ (c : VmmCall) r s', c.Legal s → C s c → c.exec s = .ok (r, s') →
    ∀ d v, IsDir s d → IsDir s' d → v < 0xC0000000 → ¬ c.Targets s d (v / 4096) →
      vmmGetPaddrIn s' d v = vmmGetPaddrIn s d v

/-- Mappings with the present flag, and none of the direct map replaced or removed. -/
def DirectMapKept (s : Mm) (c : VmmCall) : Prop := c.Present ∧ c.OffWindow s

variable {κ : Type} {p0 : Pmm} {held : κ → Option Nat} {s : Mm}

theorem user_own {d v : Nat} (hv : v < 0xC0000000) : pdeIndex v < ownEntries s d := by
  have := (ownEntries_le s d).1
  rw [pdeIndex_eq]
  omega

theorem user_offDirectMap {d v : Nat} (hv : v < 0xC0000000) : OffDirectMap s d (pdeIndex v) := by
  intro _ hw
  rw [pdeIndex_eq] at hw
  omega

/-- **A lookup answers by the map.** -/
theorem VmInv.lookup (h : VmInv p0 held s) {d v : Nat} (hd : IsDir s d) (hv : v < 2 ^ 32)
    (hown : pdeIndex v < ownEntries s d) :
    vmmGetPaddrIn s d v = .ok ((mapOf s d (v / 4096)).map (· + v % 4096)) := by
  rw [vmmGetPaddrIn_eq h hd v, walk_eq_map, mapOf_page hd hv hown]

/-- Off its target, the effect of a call leaves the map of a directory that stays alone. -/
theorem CallSpec.effect_other {c : VmmCall} {r : Int} {s' : Mm} {d n : Nat} (a : AddressMap)
    (hs : CallSpec p0 held s c r s') (h : VmInv p0 held s) (hd : IsDir s d) (hd' : IsDir s' d)
    (ht : ¬ c.Targets s d n) : c.effect s r a d n = a d n := by
  have hset : ∀ d1 n1 x, ¬ (d = d1 ∧ n = n1) →
      (if r = 0 then a.set d1 n1 x else a) d n = a d n := fun d1 n1 x hne => by
    split
    · exact if_neg hne
    · rfl
  cases c with
  | mapPage v paddr flags => exact hset _ _ _ ht
  | mapPageIn d1 v paddr flags => exact hset _ _ _ ht
  | unmapPage v => exact hset _ _ _ ht
  | unmapPageIn d1 v => exact hset _ _ _ ht
  | create =>
    have hsp : s'.spaces = if r = 0 then s.spaces else r.toNat :: s.spaces := hs.spaces
    show (if r = 0 then a else a.clear r.toNat) d n = a d n
    by_cases h0 : r = 0
    · rw [if_pos h0]
    · -- the new directory was none before
      rw [if_neg h0] at hsp ⊢
      have hnd := hs.inv.nodup
      rw [hsp, hs.kernel] at hnd
      refine if_neg fun e => ?_
      rcases hd with hd | hd
      · exact (List.nodup_cons.mp hnd).1 (by rw [← hd, e]; exact List.mem_cons_self)
      · exact (List.nodup_cons.mp (List.nodup_cons.mp hnd).2).1 (e ▸ hd)
  | destroy d1 =>
    have hsp : s'.spaces = if d1 = s.kernelPageDirectory then s.spaces else s.spaces.erase d1 :=
      hs.spaces
    show (if d1 = s.kernelPageDirectory then a else a.clear d1) d n = a d n
    by_cases hk : d1 = s.kernelPageDirectory
    · rw [if_pos hk]
    · rw [if_neg hk] at hsp ⊢
      refine if_neg fun e => ?_
      rcases hd' with hd' | hd'
      · exact hk (e.symm.trans (hd'.trans hs.kernel))
      · rw [hsp] at hd'
        exact ((List.nodup_cons.mp h.nodup).2.mem_erase_iff.mp hd').1 e

/-- **Tables that satisfy the invariant refine the map read off them.** -/
theorem refines_of_vmInv (h : VmInv p0 held s) : Refines DirectMapKept s (mapOf s) where
  lookup d v hd hv := h.lookup hd (by omega) (user_own hv)
  refuses d v paddr flags hd hv hp hm := by
    rw [mapOf_page hd (by omega) (user_own hv), presentFrame_ne_none] at hm
    rcases vmmMapPageIn_spec h hd v flags hp with
      ⟨p', e, _, _, hundo⟩ | ⟨_, _, _, _, _, _, _, _, hfree, _⟩
    · rw [e, hundo, if_neg fun hn => ?_]
      rw [pteWord_of_none hn.2.2.2] at hm
      cases hm
    · omega
  replaces v paddr flags hl hC hv hp hm := by
    have hown : pdeIndex v < ownEntries s s.kernelPageDirectory := by
      rw [ownEntries_kernel]
      exact pdeIndex_lt v
    rw [mapOf_page (isDir_kernel s) hl.1 hown, presentFrame_ne_none] at hm
    rcases vmmMapPage_spec h flags hl.2 hC.2 with
      ⟨_, _, _, hwhy, _⟩ | ⟨t, p', m', e, hinv, _, hpa, hmap⟩
    · rw [pteWord_of_none (hwhy hv hp).1] at hm
      cases hm
    · refine ⟨_, e, ?_⟩
      have heq := hmap.mapOf_eq hinv (isDir_kernel s) hown hl.1 hl.2 hpa hC.1
      refine (hinv.lookup (isDir_kernel _) hl.1 hown).trans ?_
      rw [heq]
      unfold AddressMap.set
      rw [if_pos ⟨rfl, rfl⟩, hv]
      rfl
  unmaps d v hd hv hal := by
    rw [mapOf_page hd (by omega) (user_own hv), presentFrame_ne_none]
    rcases vmmUnmapPageIn_spec h hd (user_offDirectMap hv) with
      ⟨hno, e⟩ | ⟨hyes, t, m', _, e, _⟩
    · refine ⟨fun ⟨s', e'⟩ => ?_, fun hm => absurd ⟨hal, user_own hv, hm⟩ hno⟩
      rw [e] at e'
      cases e'
    · exact ⟨fun _ => hyes.2.2, fun _ => ⟨_, e⟩⟩
  returns c hl hC := by
    obtain ⟨r, s', e, _⟩ := VmmCall.spec h hl hC.2
    exact ⟨r, s', e⟩
  separate c r s' hl hC e d v hd hd' hv ht := by
    obtain ⟨r1, s1, e1, hs⟩ := VmmCall.spec h hl hC.2
    cases e.symm.trans e1
    rw [h.lookup hd (by omega) (user_own hv), hs.inv.lookup hd' (by omega) (user_own hv),
      hs.map hC.1, hs.effect_other _ h hd hd' ht]

/-- **THE REFINEMENT**: along every run that leaves the direct map alone, the tables refine the
    map that the results of the calls add up to. -/
theorem refines_reach {m : Mem} {img : KernelImage} {mbi : MultibootInfo} {s0 : Mm}
    {a : AddressMap} (hb : Booted m img mbi p0 s0) (hr : VmmReach DirectMapKept s0 s a) :
    Refines DirectMapKept s a := by
  have hmap : mapOf s = a := by
    induction hr with
    | boot => exact mapOf_booted hb
    | call hr hl hC e ih =>
      have h := @vmInv_vmmReach Unit p0 _ _ _ _ _ _ _ hb (fun _ _ h => h.2) hr
      obtain ⟨r, s', e', hs⟩ := VmmCall.spec h hl hC.2
      cases e.symm.trans e'
      rw [hs.map hC.1, ih]
  rw [← hmap]
  exact refines_of_vmInv (@vmInv_vmmReach Unit p0 _ _ _ _ _ _ _ hb (fun _ _ h => h.2) hr)

/-- The small machine creates an address space. -/
theorem create_lowMem : ∃ s0 s1 : Mm,
    Booted lowMem smallImage (mapInfo 1) (lowPmm lowMem) s0 ∧
    VmmCall.create.exec s0 = .ok (0x116000, s1) ∧ s1.spaces = [0x116000] ∧
    VmInv (lowPmm lowMem) (noneHeld : Unit → Option Nat) s1 ∧
    ¬ NoLowPage s1 := by
  obtain ⟨s0, hb, hfree, hmax⟩ := booted_lowMem
  obtain ⟨h, hsp, _⟩ := @vmmInit_spec Unit _ hb.low _ _ hb.vmmInit
  obtain ⟨ea, hfree'⟩ := hfree.alloc (by rw [hmax]; decide)
  have hmax' := (takePage_geometry s0.pmm 0x116).maxPage.trans hmax
  rcases vmmCreateAddressSpace_spec h with ⟨_, _, hwhy⟩ | ⟨f, p', m', ef, e, _, _, hinv, _⟩
  · unfold NoLowPage at hwhy
    rw [ea] at hwhy
    simp only at hwhy
    omega
  · cases ea.symm.trans ef
    refine ⟨s0, _, hb, bind_ok.mpr ⟨_, e, rfl⟩, by simp only [hsp], hinv, ?_⟩
    unfold NoLowPage
    rw [(hfree'.alloc (by rw [hmax']; decide)).1]
    simp only
    omega

theorem refines_created : ∃ s0 s a,
    Booted lowMem smallImage (mapInfo 1) (lowPmm lowMem) s0 ∧
    VmmReach DirectMapKept s0 s a ∧ s.spaces = [0x116000] ∧ Refines DirectMapKept s a := by
  obtain ⟨s0, s1, hb, e, hsp, _⟩ := create_lowMem
  have hr := VmmReach.call (C := DirectMapKept) (c := .create) .boot trivial ⟨trivial, trivial⟩ e
  exact ⟨s0, s1, _, hb, hr, hsp, refines_reach hb hr⟩

/-- **The kernel can unmap what it reaches a directory through**: `vmm_unmap_page` on the direct
    map's page of `d` succeeds, and no load from `d` returns after it. -/
theorem VmInv.unmap_directory (h : VmInv p0 held s) {d : Nat} (hd : IsDir s d) :
    ∃ s', vmmUnmapPage s (0xC0000000 + d) = .ok (0, s') ∧ s'.spaces = s.spaces ∧
      s'.kernelPageDirectory = s.kernelPageDirectory ∧
      ∀ i, i < 1024 → s'.load (0xC0000000 + d) i = .error (.pageFault (0xC0000000 + d + 4 * i)) := by
  have hlim := h.dirLimit d hd
  have hal := h.dir_aligned hd
  have hpos := h.dir_pos hd
  have hk := isDir_kernel s
  have hi := pdeIndex_lt (0xC0000000 + d)
  have hj := pteIndex_lt (0xC0000000 + d)
  have hpres : pteWord s.mem s.kernelPageDirectory (pdeIndex (0xC0000000 + d))
      (pteIndex (0xC0000000 + d)) % 2 = 1 := by
    have hw := h.direct d (by omega)
    unfold walk at hw
    split at hw
    · assumption
    · cases hw
  cases ht : tableOf s.mem s.kernelPageDirectory (pdeIndex (0xC0000000 + d)) with
  | none =>
    rw [pteWord_of_none ht] at hpres
    cases hpres
  | some t =>
    obtain ⟨hdir, hpte⟩ := h.words_writeTable 0 hk hi ht hj
    refine ⟨{ s with mem := wr32 s.mem (t + 4 * pteIndex (0xC0000000 + d)) 0 }, ?_, rfl, rfl,
      fun k hk4 => ?_⟩
    · have hkpos := h.dir_pos hk
      unfold vmmUnmapPage vmmUnmapPageIn
      rw [if_neg (by rw [land_page_zero]; omega), if_neg (fun hc => hc.1 rfl),
        vmmGetPageTableIn_eq h hk, ok_bind, ht]
      simp only
      rw [if_neg (by omega), h.direct.load (h.table_limit hk hi ht) hj, ok_bind,
        ← pteWord_of_table ht, if_neg fun hz => land_one_zero.mp hz hpres,
        h.direct.store (h.table_limit hk hi ht) hj, ok_bind]
      rfl
    · -- the directory's words share the page that was unmapped
      have hpage : (0xC0000000 + d + 4 * k) / 4096 = (0xC0000000 + d) / 4096 := by omega
      obtain ⟨e1, e2⟩ := indices_of_page hpage
      have hgone : walk (wr32 s.mem (t + 4 * pteIndex (0xC0000000 + d)) 0) s.kernelPageDirectory
          (0xC0000000 + d + 4 * k) = none := by
        have hz := (hpte _ _ _ hk hi hj).trans (if_pos ⟨ht, rfl⟩)
        unfold walk
        rw [e1, e2, hz]
        rfl
      unfold Mm.load Mm.direct
      simp only [hgone]
      rfl

/-- Then no lookup in `d` returns. -/
theorem vmmGetPaddrIn_fault {d v a : Nat} (h0 : d ≠ 0) (hd : d < 0x1000000)
    (e : s.load (0xC0000000 + d) (pdeIndex v) = .error (.pageFault a)) :
    vmmGetPaddrIn s d v = .error (.pageFault a) := by
  unfold vmmGetPaddrIn vmmGetPageTableIn
  rw [if_neg h0, vmmPhysToVirt_of_lt hd]
  simp only
  rw [if_neg (by omega), e]
  rfl

/-- **Without the restriction the refinement is lost**: create an address space, unmap the page of
    the direct map that its directory lies in -- and it cannot be looked up any more. -/
theorem refines_lost_directMap :
    ¬ ∀ (m : Mem) (img : KernelImage) (mbi : MultibootInfo) (p0 : Pmm) (s0 s : Mm) (a : AddressMap),
      Booted m img mbi p0 s0 → VmmReach (fun _ c => c.Present) s0 s a →
      Refines (fun _ c => c.Present) s a := by
  intro hall
  obtain ⟨s0, s1, hb, e, hsp, h1, _⟩ := create_lowMem
  have hd : IsDir s1 0x116000 := Or.inr (by rw [hsp]; exact List.mem_singleton_self _)
  obtain ⟨s2, e2, hsp2, _, hfault⟩ := h1.unmap_directory hd
  have hr1 := VmmReach.call (C := fun _ c => c.Present) (c := .create) .boot trivial trivial e
  have hr2 := hr1.call (c := .unmapPage (0xC0000000 + 0x116000))
    (show 0xC0000000 + 0x116000 < 2 ^ 32 by decide) trivial e2
  have hd2 : IsDir s2 0x116000 := Or.inr (by rw [hsp2, hsp]; exact List.mem_singleton_self _)
  have hlook := (hall _ _ _ _ _ _ _ hb hr2).lookup 0x116000 0 hd2 (by decide)
  rw [vmmGetPaddrIn_fault (by decide) (by decide) (hfault _ (pdeIndex_lt 0))] at hlook
  cases hlook

end Emyx
