/-
  File:      Emyx/Vmm/Bootstrap.lean
  Subject:   THE SWITCH FROM THE BOOTSTRAP TABLES (boot.S) TO THE KERNEL DIRECTORY (`vmm_init`).

  * `storeLoop`, `dirLoop`, `bootstrapTables` -- the three loops of `_start`;
  * `bootstrapTables_walk` -- what the processor finds above `0xC0000000` under them;
  * `TablesBelow` -- the kernel can reach its own tables through the direct map;
  * **`directMap_exact`** -- `vmm_init` maps `[0, limit)` at `0xC0000000` and nothing else, for the
    kernel only, and with the limit the kernel passes it changes no translation there.
-/
import Emyx.Vmm.Init
import Emyx.Vmm.Spec

namespace Emyx

open Lib

/-! ## 1. The loops of `_start` -/

/-- `PAGE_ENTRIES` -/
def pageEntries : Nat := 1024

/-- `BOOTSTRAP_PAGE_TABLES` -/
def bootstrapPageTables : Nat := 4

/-- Store `eax` at `edi`, add `step` to `eax` and 4 to `edi`, `ecx` times. -/
def storeLoop (step : Nat) : Nat → Mem → Nat → Nat → Mem
  | 0, m, _, _ => m
  | ecx + 1, m, eax, edi =>
    storeLoop step ecx (wr32 m edi eax) ((eax + step) % 2 ^ 32) ((edi + 4) % 2 ^ 32)

/-- `rep stosl` -/
def repStosl (ecx : Nat) (m : Mem) (eax edi : Nat) : Mem := storeLoop 0 ecx m eax edi

/-- The loop at label 2, with `turns` turns to go until `ecx` is `BOOTSTRAP_PAGE_TABLES`: the same
    table low and at `KERNEL_PAGE_DIRECTORY_INDEX`. -/
def dirLoop (edi : Nat) : Nat → Mem → Nat → Nat → Mem
  | 0, m, _, _ => m
  | turns + 1, m, eax, ecx =>
    dirLoop edi turns (wr32 (wr32 m (edi + 4 * ecx) eax) (edi + 4 * (768 + ecx)) eax)
      ((eax + 4096) % 2 ^ 32) (ecx + 1)

/-- The memory when `_start` loads `cr3`: the directory at `pd`, the tables in the pages behind it. -/
def bootstrapTables (m : Mem) (pd : Nat) : Mem :=
  dirLoop pd bootstrapPageTables
    (storeLoop 4096 (bootstrapPageTables * pageEntries) (repStosl pageEntries m 0 pd) 0x3 (pd + 4096))
    ((pd + 4096) ||| 0x3) 0

section

variable {m : Mem} {eax edi n j b step : Nat}

/-- A word off the loop's range stays. -/
theorem rd32_storeLoop_outside (hend : edi + 4 * n < 2 ^ 32) (h : b + 4 ≤ edi ∨ edi + 4 * n ≤ b) :
    rd32 (storeLoop step n m eax edi) b = rd32 m b := by
  induction n generalizing m eax edi with
  | zero => rfl
  | succ n ih =>
    unfold storeLoop
    rw [Nat.mod_eq_of_lt (show edi + 4 < 2 ^ 32 by omega), ih (by omega) (by omega),
      rd32_wr32_outside (by omega)]

/-- The words of the loop. -/
theorem rd32_storeLoop (hend : edi + 4 * n < 2 ^ 32) (heax : eax + step * n < 2 ^ 32) (hj : j < n) :
    rd32 (storeLoop step n m eax edi) (edi + 4 * j) = eax + step * j := by
  induction n generalizing m eax edi j with
  | zero => omega
  | succ n ih =>
    rw [Nat.mul_succ] at heax
    unfold storeLoop
    rw [Nat.mod_eq_of_lt (show edi + 4 < 2 ^ 32 by omega),
      Nat.mod_eq_of_lt (show eax + step < 2 ^ 32 by omega)]
    cases j with
    | zero =>
      rw [rd32_storeLoop_outside (by omega) (by omega), Nat.mul_zero, Nat.add_zero, rd32_wr32,
        Nat.mod_eq_of_lt (by omega), Nat.mul_zero, Nat.add_zero]
    | succ j =>
      have hnext : rd32 (storeLoop step n (wr32 m edi eax) (eax + step) (edi + 4))
          (edi + 4 + 4 * j) = eax + step + step * j := ih (by omega) (by omega) (by omega)
      rw [show edi + 4 * (j + 1) = edi + 4 + 4 * j by omega, hnext, Nat.mul_succ]
      omega

/-- The loop at label 2 writes `n` entries low and `n` entries from 768 on. -/
theorem rd32_dirLoop_outside {ecx : Nat} (hlow : b + 4 ≤ edi + 4 * ecx ∨ edi + 4 * (ecx + n) ≤ b)
    (hhigh : b + 4 ≤ edi + 4 * (768 + ecx) ∨ edi + 4 * (768 + ecx + n) ≤ b) :
    rd32 (dirLoop edi n m eax ecx) b = rd32 m b := by
  induction n generalizing m eax ecx with
  | zero => rfl
  | succ n ih =>
    unfold dirLoop
    rw [ih (by omega) (by omega), rd32_wr32_outside (by omega), rd32_wr32_outside (by omega)]

theorem rd32_dirLoop {ecx : Nat} (heax : eax + 4096 * n < 2 ^ 32) (hecx : ecx + n ≤ 768)
    (hj : j < n) :
    rd32 (dirLoop edi n m eax ecx) (edi + 4 * (768 + ecx + j)) = eax + 4096 * j := by
  induction n generalizing m eax ecx j with
  | zero => omega
  | succ n ih =>
    rw [Nat.mul_succ] at heax
    have hstep : eax + 4096 < 2 ^ 32 :=
      Nat.lt_of_le_of_lt (Nat.add_le_add_left (Nat.le_add_left _ _) _) heax
    unfold dirLoop
    rw [Nat.mod_eq_of_lt hstep]
    cases j with
    | zero =>
      have hfirst : rd32 (wr32 (wr32 m (edi + 4 * ecx) eax) (edi + 4 * (768 + ecx)) eax)
          (edi + 4 * (768 + ecx)) = eax := by
        rw [rd32_wr32, Nat.mod_eq_of_lt (by omega)]
      exact (rd32_dirLoop_outside (by omega) (by omega)).trans hfirst
    | succ j =>
      have hnext := @ih (wr32 (wr32 m (edi + 4 * ecx) eax) (edi + 4 * (768 + ecx)) eax)
        (eax + 4096) j (ecx + 1) (by omega) (by omega) (by omega)
      rw [show 768 + (ecx + 1) + j = 768 + ecx + (j + 1) by omega] at hnext
      rw [hnext]
      omega

end

/-! ## 2. The bootstrap tables -/

/-- A page directory and four tables, as the linker places them: page-aligned, in 32 bits. -/
structure BootstrapPlace (pd : Nat) : Prop where
  aligned : pd % 4096 = 0
  fits : pd + 5 * 4096 < 2 ^ 32

section

variable {m : Mem} {pd i j : Nat}

/-- The kernel half of the bootstrap directory. -/
theorem bootstrapTables_dir (h : BootstrapPlace pd) (h1 : 768 ≤ i) (h2 : i < 1024) :
    dirWord (bootstrapTables m pd) pd i =
      if i < 772 then pd + 4096 + (i - 768) * 4096 + 3 else 0 := by
  have hal := h.aligned
  have hfit := h.fits
  have hentries : pageEntries = 1024 := rfl
  have htables : bootstrapPageTables = 4 := rfl
  unfold dirWord bootstrapTables repStosl
  rw [frame_or_flags (by omega) (by decide)]
  generalize pageEntries = entries, bootstrapPageTables = tables at hentries htables
  by_cases hi : i < 772
  · rw [if_pos hi, show pd + 4 * i = pd + 4 * (768 + 0 + (i - 768)) by omega,
      rd32_dirLoop (by omega) (by omega) (by omega)]
    omega
  · have hcount : tables * entries = 4096 := by rw [hentries, htables]
    rw [if_neg hi, rd32_dirLoop_outside (by omega) (by omega),
      rd32_storeLoop_outside (by omega) (by omega), rd32_storeLoop (by omega) (by omega) (by omega)]
    omega

/-- The words of the bootstrap tables. -/
theorem bootstrapTables_word (h : BootstrapPlace pd) (hj : j < 4096) :
    rd32 (bootstrapTables m pd) (pd + 4096 + 4 * j) = j * 4096 + 3 := by
  have hfit := h.fits
  have hentries : pageEntries = 1024 := rfl
  have htables : bootstrapPageTables = 4 := rfl
  unfold bootstrapTables
  generalize pageEntries = entries, bootstrapPageTables = tables at hentries htables
  have hcount : tables * entries = 4096 := by rw [hentries, htables]
  rw [rd32_dirLoop_outside (by omega) (by omega), rd32_storeLoop (by omega) (by omega) (by omega)]
  omega

/-- **Above `0xC0000000` the bootstrap tables map the first 16 MiB** and nothing else. -/
theorem bootstrapTables_walk (h : BootstrapPlace pd) {v : Nat} (h1 : 0xC0000000 ≤ v)
    (h2 : v < 2 ^ 32) :
    walk (bootstrapTables m pd) pd v = if v < 0xC1000000 then some (v - 0xC0000000) else none := by
  have hal := h.aligned
  have hfit := h.fits
  have hi := pdeIndex_eq v
  have hj := pteIndex_eq v
  have hdir := bootstrapTables_dir (m := m) h (i := pdeIndex v) (by omega) (pdeIndex_lt v)
  unfold walk
  by_cases hv : v < 0xC1000000
  · rw [if_pos (by omega)] at hdir
    have ht : tableOf (bootstrapTables m pd) pd (pdeIndex v) =
        some (pd + 4096 + (pdeIndex v - 768) * 4096) := by
      have hframe : (pd + 4096 + (pdeIndex v - 768) * 4096 + 3) / 4096 * 4096 =
          pd + 4096 + (pdeIndex v - 768) * 4096 := by omega
      rw [tableOf_of_word hdir (by omega), entryFrame_eq (by omega), hframe]
    have hword : pteWord (bootstrapTables m pd) pd (pdeIndex v) (pteIndex v) =
        (v - 0xC0000000) / 4096 * 4096 + 3 := by
      have hw := bootstrapTables_word (m := m) h
        (j := (pdeIndex v - 768) * 1024 + pteIndex v) (by omega)
      rw [pteWord_of_table ht, show pd + 4096 + (pdeIndex v - 768) * 4096 + 4 * pteIndex v =
        pd + 4096 + 4 * ((pdeIndex v - 768) * 1024 + pteIndex v) by omega, hw]
      omega
    have hphys : ((v - 0xC0000000) / 4096 * 4096 + 3) / 4096 * 4096 + v % 4096 = v - 0xC0000000 := by
      omega
    rw [if_pos hv, hword, if_pos (by omega), entryFrame_eq (by omega), hphys]
  · rw [if_neg (by omega)] at hdir
    have hnone : tableOf (bootstrapTables m pd) pd (pdeIndex v) = none := by
      unfold tableOf
      rw [hdir]
      rfl
    rw [if_neg hv, pteWord_of_none hnone]
    rfl

end

/-! ## 3. The kernel directory -/

/-- The kernel directory and its tables lie below `limit`. -/
structure TablesBelow (limit : Nat) (s : Mm) : Prop where
  dir : s.kernelPageDirectory < limit
  tables : ∀ i t, i < 1024 → tableOf s.mem s.kernelPageDirectory i = some t → t < limit

section

variable {κ : Type} {p0 : Pmm} {kd k : Nat} {st : Mem × Pmm}

/-- The frames of the tables are pages below 16 MiB. -/
theorem TablesUpTo.frame (h : TablesUpTo κ p0 kd k st) {i t : Nat} (hi : i < 1024)
    (ht : tableOf st.1 kd i = some t) : t % 4096 = 0 ∧ t < 0x1000000 := by
  have hr : frameOf (bootMm kd st) noneHeld (.table kd i : Role κ) = some t := by
    rw [bootMm_table, if_pos ⟨rfl, hi⟩]
    exact ht
  refine ⟨(h.own.mem hr).aligned, ?_⟩
  by_cases hk : 768 ≤ i ∧ i < 768 + k
  · obtain ⟨t', -, ht', hlim, -⟩ := h.filled i hk.1 hk.2
    cases ht.symm.trans ht'
    omega
  · rw [h.empty i hi hk] at ht
    cases ht

theorem TablesUpTo.dirFrame (h : TablesUpTo κ p0 kd k st) : kd % 4096 = 0 ∧ 0 < kd := by
  have hr : frameOf (bootMm kd st) noneHeld (.dir kd : Role κ) = some kd := by
    rw [bootMm_dir, if_pos rfl]
  have ha := h.own.mem hr
  refine ⟨ha.aligned, ?_⟩
  obtain ⟨page, he, h1, -⟩ := ha
  omega

/-- A page below the limit can be read through the direct map. -/
theorem TablesUpTo.load (h : TablesUpTo κ p0 kd k st) (hk : k ≤ 256) {f i : Nat}
    (hf : f % 4096 = 0) (hlt : f < k * 4194304) (hi : i < 1024) :
    (bootMm kd st).load (0xC0000000 + f) i = .ok (rd32 st.1 (f + 4 * i)) := by
  have hw : walk st.1 kd (0xC0000000 + f + 4 * i) = some (f + 4 * i) := by
    have hsub : 0xC0000000 + f + 4 * i - 0xC0000000 = f + 4 * i := by omega
    rw [h.walk_eq hk (by omega), if_pos (by omega), hsub]
  have hd : (bootMm kd st).direct (0xC0000000 + f + 4 * i) = .ok (f + 4 * i) := by
    unfold Mm.direct
    rw [show walk (bootMm kd st).mem (bootMm kd st).kernelPageDirectory (0xC0000000 + f + 4 * i) =
      some (f + 4 * i) from hw]
  exact bind_ok.mpr ⟨_, hd, rfl⟩

/-- So the tables can be, when they lie there. -/
theorem TablesUpTo.readsEntries (h : TablesUpTo κ p0 kd k st) (hk : k ≤ 256)
    (hb : TablesBelow (k * 4194304) (bootMm kd st)) (v : Nat) : ReadsEntries (bootMm kd st) kd v where
  pos := h.dirFrame.2
  low := by
    have := h.limit
    omega
  dir := h.load hk h.dirFrame.1 hb.dir (pdeIndex_lt v)
  table t ht := by
    obtain ⟨hta, hlow⟩ := h.frame (pdeIndex_lt v) ht
    exact ⟨hlow, h.load hk hta (hb.tables _ t (pdeIndex_lt v) ht) (pteIndex_lt v)⟩

end

/-- The entry is present and writable, and for the kernel only. -/
def KernelOnly (w : Nat) : Prop := w % 2 = 1 ∧ w / 2 % 2 = 1 ∧ w / 4 % 2 = 0

/-- **THE DIRECT MAP IS EXACT AND SURVIVES THE SWITCH.** For every limit up to 1 GiB and every page
    allocator from which `vmm_init` returns, with all RAM below 4 GiB: the processor finds
    `v - 0xC0000000` for exactly the `v` in `[0xC0000000, 0xC0000000 + limit)`, through entries for
    the kernel only; `vmm_get_paddr` returns the same, if its tables lie in the direct map (which
    16 MiB always do); and with `VMM_DIRECT_MAP_LIMIT` no translation above `0xC0000000` differs
    from that of the bootstrap tables. -/
theorem directMap_exact {m : Mem} {p : Pmm} {limit : Nat} {s : Mm} (hlow : p.maxPage ≤ 2 ^ 20)
    (hlim : limit ≤ 0x40000000) (e : vmmInit m p limit = .ok s) :
    (∀ v, v < 2 ^ 32 → walk s.mem s.kernelPageDirectory v =
      if 0xC0000000 ≤ v ∧ v < 0xC0000000 + limit then some (v - 0xC0000000) else none) ∧
    ((limit < 0x1000000 → TablesBelow limit s) → ∀ v, v < 2 ^ 32 → vmmGetPaddr s v =
      .ok (if 0xC0000000 ≤ v ∧ v < 0xC0000000 + limit then some (v - 0xC0000000) else none)) ∧
    (∀ v, 0xC0000000 ≤ v → v < 0xC0000000 + limit →
      KernelOnly (dirWord s.mem s.kernelPageDirectory (pdeIndex v)) ∧
      KernelOnly (pteWord s.mem s.kernelPageDirectory (pdeIndex v) (pteIndex v))) ∧
    (limit = 0x1000000 → ∀ m₀ pd, BootstrapPlace pd → ∀ v, 0xC0000000 ≤ v → v < 2 ^ 32 →
      walk s.mem s.kernelPageDirectory v = walk (bootstrapTables m₀ pd) pd v) := by
  obtain ⟨hmul, kd, st, h, rfl⟩ := @vmmInit_tables_limit Unit p hlow m s limit hlim e
  have hk : limit / 4194304 ≤ 256 := by omega
  have hspan : limit / 4194304 * 4194304 = limit := by omega
  have hwalk : ∀ v, v < 2 ^ 32 → walk st.1 kd v =
      if 0xC0000000 ≤ v ∧ v < 0xC0000000 + limit then some (v - 0xC0000000) else none := fun v hv => by
    rw [h.walk_eq hk hv, hspan]
  refine ⟨hwalk, fun hb v hv => ?_, fun v h1 h2 => ?_, fun hl m₀ pd hpd v h1 h2 => ?_⟩
  · have hbelow : TablesBelow limit (bootMm kd st) := by
      by_cases hsmall : limit < 0x1000000
      · exact hb hsmall
      · have hdir := h.limit
        have hd : kd < limit := by omega
        exact ⟨hd, fun i t hi ht => Nat.lt_of_lt_of_le (h.frame hi ht).2 (by omega)⟩
    have hr := h.readsEntries hk (by rwa [hspan]) v
    exact hr.getPaddr.trans (congrArg Except.ok (hwalk v hv))
  · have hi := pdeIndex_eq v
    obtain ⟨t, hd, ht, -, hw⟩ := h.filled (pdeIndex v) (by omega) (by omega)
    have hta := (h.frame (pdeIndex_lt v) ht).1
    have hpte : pteWord st.1 kd (pdeIndex v) (pteIndex v) =
        (pdeIndex v - 768) * 4194304 + pteIndex v * 4096 + 3 :=
      (pteWord_of_table ht _).trans (hw _ (pteIndex_lt v))
    show KernelOnly (dirWord st.1 kd (pdeIndex v)) ∧ KernelOnly (pteWord st.1 kd _ _)
    rw [hd, hpte]
    unfold KernelOnly
    omega
  · rw [bootstrapTables_walk hpd h1 h2]
    refine (hwalk v h2).trans ?_
    rw [hl]
    exact if_congr (by omega) rfl rfl

/-- The kernel's first page and the end of the direct map, on the small machine. -/
theorem directMap_exact_lowMem :
    ∃ s, vmmInit lowMem (lowPmm lowMem) 0x1000000 = .ok s ∧
      vmmGetPaddr s 0xC0100000 = .ok (some 0x100000) ∧ vmmGetPaddr s 0xC1000000 = .ok none ∧
      walk s.mem s.kernelPageDirectory 0xC0100000 =
        walk (bootstrapTables (fun _ => 0) 0x101000) 0x101000 0xC0100000 := by
  obtain ⟨s, hb, -, -⟩ := booted_lowMem
  obtain ⟨-, hget, -, hboot⟩ := directMap_exact hb.low (by decide) hb.vmmInit
  have hreads := hget fun h => absurd h (by decide)
  refine ⟨s, hb.vmmInit, ?_, ?_, hboot rfl _ _ ⟨by decide, by decide⟩ _ (by decide) (by decide)⟩
  · rw [hreads _ (by decide), if_pos ⟨by decide, by decide⟩]
  · rw [hreads _ (by decide), if_neg (by decide)]

end Emyx
