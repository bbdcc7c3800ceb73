/-
  File:      Emyx/Kernel/RoundRobin.lean
  Subject:   ROUND ROBIN: a runnable task waits for fewer than `MAX_TASKS` switches.

  * `Ctl.distance` -- how many slots lie from the current task up to a waiting one, cyclically;
  * `CtlStep.turn` -- a step of the kernel stays with its task, or switches to the first runnable
    slot behind it (`Ctl.Stays`, `Ctl.Switches`);
  * `Ctl.Switches.closer` -- a switch gets closer to a waiting task or selects it;
  * **`roundRobin`** -- so no run overtakes a waiting task, whatever is created, exits and is reaped
    meanwhile.
-/
import Emyx.Kernel.ExitStatus
import Emyx.Kernel.Threads

namespace Emyx

open Lib

/-! ## 1. What a step does to the slots -/

/-- `(t - current_task) mod MAX_TASKS` -/
def Ctl.distance (c : Ctl) (t : Fin 16) : Nat := (t - c.currentTask).val

/-- No runnable task of `c` was touched. -/
def Ctl.KeepsWaiting (c c' : Ctl) : Prop :=
  ∀ t, (c.tasks t).state = .runnable → (c'.tasks t).state = .runnable

/-- The running task stays. -/
structure Ctl.Stays (c c' : Ctl) : Prop where
  current : c'.currentTask = c.currentTask
  waiting : c.KeepsWaiting c'
  sched : c'.Sched

/-- The first runnable slot behind the running task is selected, over tables `c₁` in which no waiting
    task was touched. -/
structure Ctl.Switches (c c₁ c' : Ctl) (idx : Fin 16) : Prop where
  current : c₁.currentTask = c.currentTask
  waiting : c.KeepsWaiting c₁
  busy : (c₁.tasks c₁.currentTask).state ≠ .runnable
  next : c₁.nextRunnable = some idx
  result : c' = c₁.switchTo idx
  sched : c'.Sched

section

variable {c c' c₁ : Ctl} {t : Fin 16}

theorem Ctl.keepsWaiting_of_eq (ht : c'.tasks = c.tasks) : c.KeepsWaiting c' := fun t h => by
  rwa [ht]

theorem Ctl.KeepsWaiting.trans {c'' : Ctl} (h : c.KeepsWaiting c') (h' : c'.KeepsWaiting c'') :
    c.KeepsWaiting c'' := fun t ht => h' t (h t ht)

theorem Ctl.keepsWaiting_reap (c : Ctl) : c.KeepsWaiting c.reap := fun t h => by
  rwa [Ctl.reap_of_live (.inl h)]

/-- A slot filled by `kthread_create` was not waiting. -/
theorem Ctl.keepsWaiting_addTask {j : Fin 16} {task : Task} (hj : (c.tasks j).state = .unused) :
    c.KeepsWaiting (c.addTask j task) := by
  intro t h
  have htj : t ≠ j := fun e => by
    subst e
    cases hj.symm.trans h
  rwa [show (c.addTask j task).tasks t = c.tasks t from Function.update_of_ne htj ..]

/-- What is done to the running task is not done to a waiting one. -/
theorem Ctl.Sched.keepsWaiting_update (h : c.Sched) {task : Task}
    (ht : c'.tasks = Function.update c.tasks c.currentTask task) : c.KeepsWaiting c' := by
  intro t hr
  have hne : t ≠ c.currentTask := fun e => by
    cases ((h.running t).mpr e).symm.trans hr
  rwa [ht, Function.update_of_ne hne]

theorem Ctl.Sched.stays_reap (h : c.Sched) : c.Stays c.reap := ⟨rfl, c.keepsWaiting_reap, h.reap⟩

theorem Ctl.Sched.stays_refl (h : c.Sched) : c.Stays c := ⟨rfl, fun _ ht => ht, h⟩

/-- Only the records and the counters changed. -/
theorem Ctl.Sched.stays_of_eq (h : c.Sched) (ht : c'.tasks = c.tasks)
    (hc : c'.currentTask = c.currentTask) : c.Stays c' :=
  ⟨hc, Ctl.keepsWaiting_of_eq ht, h.of_states hc fun t => by rw [ht]⟩

theorem Ctl.Stays.trans {c'' : Ctl} (h : c.Stays c') (h' : c'.Stays c'') : c.Stays c'' :=
  ⟨h'.current.trans h.current, h.waiting.trans h'.waiting, h'.sched⟩

theorem Ctl.Sched.stays_setCont (h : c.Sched) (cont : Cont) : c.Stays (c.setCont cont) :=
  ⟨rfl, h.keepsWaiting_update rfl, h.setCont cont⟩

theorem Ctl.Sched.stays_newTask (h : c.Sched) {e : Entry} {j : Fin 16} {task : Task}
    (ht : NewTask c e j task) : c.Stays (c.reap.addTask j task) :=
  ⟨rfl, c.keepsWaiting_reap.trans (Ctl.keepsWaiting_addTask ht.unused),
    h.reap.addTask ht.unused ht.state⟩

/-- A process starts in user mode: the slot's state stays. -/
theorem Ctl.Sched.stays_enter (h : c.Sched) (i : Fin 16) (p : UserProcess) :
    c.Stays (c.enter i p) :=
  ⟨rfl, h.keepsWaiting_update rfl, h.of_update rfl rfl rfl⟩

/-- `sched_yield` -/
theorem Ctl.Sched.switches_yieldsTo (h : c.Sched) (hy : YieldsTo c c') :
    ∃ idx, c.Switches c.reap c' idx := by
  have hs := h.yieldsTo hy
  obtain ⟨idx, hn, he⟩ := hy
  have hrun : (c.reap.tasks c.currentTask).state = .running :=
    Ctl.reap_running.mpr ((h.running _).mpr rfl)
  refine ⟨idx, rfl, c.keepsWaiting_reap, fun hc => ?_, hn, he, hs⟩
  cases hrun.symm.trans hc

/-- `kthread_exit` -/
theorem Ctl.Sched.switches_exitsTo (h : c.Sched) (hx : ExitsTo c c') :
    ∃ idx, c.Switches c.zombify.reap c' idx := by
  have hs := h.exitsTo hx
  obtain ⟨-, idx, hn, he⟩ := hx
  have hz : c.KeepsWaiting c.zombify := h.keepsWaiting_update rfl
  refine ⟨idx, rfl, hz.trans (Ctl.keepsWaiting_reap _), fun hc => ?_, hn, he, hs⟩
  have hzombie : (c.zombify.tasks c.currentTask).state = .zombie := by
    rw [show c.zombify.tasks c.currentTask =
      { c.tasks c.currentTask with state := .zombie } from Function.update_self ..]
  rw [Ctl.reap_used (by rw [hc]; decide)] at hc
  cases hzombie.symm.trans hc

theorem Ctl.Stays.switches (h : c.Stays c₁) {c₂ : Ctl} {idx : Fin 16}
    (h' : c₁.Switches c₂ c' idx) : c.Switches c₂ c' idx :=
  ⟨h'.current.trans h.current, h.waiting.trans h'.waiting, h'.busy, h'.next, h'.result, h'.sched⟩

/-- **A step stays with its task or switches** to the first runnable slot behind it. -/
theorem CtlStep.turn {op : Op} {r : Option Int} (hs : CtlStep c op r c') (h : c.Sched) :
    c.Stays c' ∨ ∃ c₁ idx, c.Switches c₁ c' idx := by
  cases hs with
  | spawnRefused => exact .inl h.stays_refl
  | spawnNoDirectory => exact .inl (h.stays_of_eq rfl rfl)
  | spawnNoTask _ i => exact .inl (h.stays_reap.trans (h.reap.stays_of_eq rfl rfl))
  | spawnBadId _ _ _ _ _ ht =>
    have hn := h.stays_newTask ht
    exact .inl (hn.trans (hn.sched.stays_of_eq rfl rfl))
  | spawn _ _ _ _ _ _ ht =>
    have hn := h.stays_newTask ht
    exact .inl (hn.trans (hn.sched.stays_of_eq rfl rfl))
  | createFails => exact .inl h.stays_reap
  | create _ _ ht => exact .inl (h.stays_newTask ht)
  | yieldStays => exact .inl h.stays_reap
  | yield _ hy => exact .inr ⟨_, h.switches_yieldsTo hy⟩
  | startThread => exact .inl (h.stays_setCont _)
  | startNoRecord _ _ _ hx => exact .inr ⟨_, h.switches_exitsTo hx⟩
  | startFails i _ _ _ hx =>
    have hr : c.Stays { c with processes := userProcessRelease c.processes i } :=
      h.stays_of_eq rfl rfl
    obtain ⟨idx, hw⟩ := hr.sched.switches_exitsTo hx
    exact .inr ⟨_, idx, hr.switches hw⟩
  | start i p => exact .inl (h.stays_enter i p)
  | waitNoCaller => exact .inl h.stays_refl
  | waitReturns =>
    have hu := h.stays_setCont .user
    exact .inl (hu.trans (hu.sched.stays_of_eq rfl rfl))
  | waitYields _ i pid _ _ _ hy =>
    have hw := h.stays_setCont (.waiting i pid)
    obtain ⟨idx, hs⟩ := hw.sched.switches_yieldsTo hy
    exact .inr ⟨_, idx, hw.switches hs⟩
  | exitNoRecord _ _ _ hx => exact .inr ⟨_, h.switches_exitsTo hx⟩
  | exit status i _ _ hx =>
    have hr : c.Stays { c with processes := c.exitRecords i status } := h.stays_of_eq rfl rfl
    obtain ⟨idx, hw⟩ := hr.sched.switches_exitsTo hx
    exact .inr ⟨_, idx, hr.switches hw⟩
  | threadExit _ hx => exact .inr ⟨_, h.switches_exitsTo hx⟩
  | store => exact .inl h.stays_refl

end

/-! ## 2. A waiting task comes closer -/

section

variable {c c' c₁ : Ctl} {t idx : Fin 16}

/-- Every slot from the current one up to the selected one was looked at. -/
theorem Ctl.nextRunnable_first (h : c.nextRunnable = some idx) (ht : (c.tasks t).state = .runnable) :
    (idx - (c.currentTask + 1)).val ≤ (t - (c.currentTask + 1)).val := by
  obtain ⟨-, i, hi, he, hfirst⟩ := List.find?_eq_some_iff_getElem.mp h
  rw [List.length_map, List.length_finRange] at hi
  have hidx : (idx - (c.currentTask + 1)).val = i := by
    rw [← he, List.getElem_map, List.getElem_finRange, add_sub_cancel_left]
    rfl
  rw [hidx]
  by_contra hlt
  have hj := hfirst (t - (c.currentTask + 1)).val (by omega)
  rw [List.getElem_map, List.getElem_finRange] at hj
  have hback : c.currentTask + 1 + Fin.cast (List.length_finRange) ⟨(t - (c.currentTask + 1)).val, by
      rw [List.length_finRange]; exact Fin.isLt _⟩ = t := add_sub_cancel ..
  rw [hback, ht] at hj
  simp at hj

/-- **A switch selects the waiting task, or gets closer to it.** -/
theorem Ctl.Switches.closer (hs : c.Switches c₁ c' idx)
    (ht : (c.tasks t).state = .runnable) :
    c'.currentTask = idx ∧ idx ≠ c.currentTask ∧
      (idx ≠ t → (c'.tasks t).state = .runnable ∧ c'.distance t < c.distance t) := by
  have hwait := hs.waiting t ht
  have hbusy := hs.busy
  have hidx := Ctl.nextRunnable_some hs.next
  have hfirst := Ctl.nextRunnable_first hs.next hwait
  rw [hs.current] at hbusy hfirst
  have hne : idx ≠ c.currentTask := fun e => hbusy (e ▸ hidx)
  have htne : t ≠ c.currentTask := fun e => hbusy (e ▸ hwait)
  have hcur : c'.currentTask = idx := by
    rw [hs.result]
    rfl
  refine ⟨hcur, hne, fun hit => ⟨?_, ?_⟩⟩
  · obtain ⟨st, he, -, hother⟩ := c₁.switchTo_tasks idx t
    rw [hs.result, he]
    rcases hother hit.symm with ⟨hst, -⟩ | ⟨-, -, hst⟩
    · exact hst.trans hwait
    · exact hst
  · -- with the current slot at 0, both others lie above it, and the selected one first
    unfold Ctl.distance
    rw [hcur]
    have h1 := Fin.val_ne_of_ne hne
    have h2 := Fin.val_ne_of_ne htne
    have h3 := Fin.val_ne_of_ne hit
    have := idx.isLt
    have := t.isLt
    have := c.currentTask.isLt
    simp only [Fin.sub_def, Fin.add_def, Fin.val_one] at hfirst ⊢
    omega

end

/-! ## 3. Runs -/

/-- A run from `k0` to `k`, and the slots its task switches selected, in order. -/
inductive Selects (k0 : Kernel) : List (Fin 16) → Kernel → Prop where
  | start : Selects k0 [] k0
  | stays {sel : List (Fin 16)} {k k' : Kernel} {op : Op} {r : Option Int} : Selects k0 sel k →
    op.Legal k.toCtl → k.exec op = .ok (r, k') → k'.currentTask = k.currentTask → Selects k0 sel k'
  | switch {sel : List (Fin 16)} {k k' : Kernel} {op : Op} {r : Option Int} : Selects k0 sel k →
    op.Legal k.toCtl → k.exec op = .ok (r, k') → k'.currentTask ≠ k.currentTask →
    Selects k0 (sel ++ [k'.currentTask]) k'

section

variable {mm : Mm} {bm : BootModule} {tr esp0 : Nat} {ops : List Op} {k k' : Kernel} {t : Fin 16}
  {op : Op} {r : Option Int}

/-- The slots are in order in every run. -/
theorem KRun.sched {C : Kernel → Op → Kernel → Prop}
    (h : KRun C (schedInit mm bm tr esp0) ops k) : k.toCtl.Sched := by
  induction h with
  | boot => exact schedInit_sched mm bm tr esp0
  | step _ hop _ e ih =>
    rcases (exec_ctl hop e).turn ih with hs | ⟨c₁, idx, hs⟩
    · exact hs.sched
    · exact hs.sched

/-- **One step of the kernel, seen by a waiting task.** -/
theorem exec_closer (h : k.toCtl.Sched) (hop : op.Legal k.toCtl) (e : k.exec op = .ok (r, k'))
    (ht : (k.tasks t).state = .runnable) :
    k'.toCtl.Sched ∧ (k'.currentTask = k.currentTask → (k'.tasks t).state = .runnable) ∧
      (k'.currentTask ≠ k.currentTask → k'.currentTask ≠ t →
        (k'.tasks t).state = .runnable ∧ k'.distance t < k.distance t) := by
  rcases (exec_ctl hop e).turn h with hs | ⟨c₁, idx, hs⟩
  · exact ⟨hs.sched, fun _ => hs.waiting t ht, fun hne => absurd hs.current hne⟩
  · obtain ⟨hcur, hne, hcloser⟩ := hs.closer ht
    exact ⟨hs.sched, fun he => absurd (hcur.symm.trans he) hne, fun _ hnt => hcloser (hcur ▸ hnt)⟩

/-- A yield switches while a task is waiting. -/
theorem exec_yield_switches (h : k.toCtl.Sched) (e : k.exec .yield = .ok (r, k'))
    (ht : (k.tasks t).state = .runnable) : k'.currentTask ≠ k.currentTask := by
  obtain ⟨⟨b, k₁⟩, e₁, e₂⟩ := bind_ok.mp e
  cases e₂
  rcases schedYield_ctl e₁ with ⟨-, hn, -⟩ | ⟨idx, -, hn, hk⟩
  · obtain ⟨idx, hsome⟩ := Ctl.nextRunnable_isSome (k.toCtl.keepsWaiting_reap t ht)
    cases hsome.symm.trans hn
  · have hy : YieldsTo k.toCtl k'.toCtl := ⟨idx, hn, by rw [hk]⟩
    obtain ⟨j, hs⟩ := h.switches_yieldsTo hy
    obtain ⟨hcur, hne, -⟩ := hs.closer ht
    exact fun he => hne (hcur.symm.trans he)

/-- What a waiting task sees of a run that has not selected it. -/
structure Waits (k0 : Kernel) (t : Fin 16) (sel : List (Fin 16)) (k : Kernel) : Prop where
  sched : k.toCtl.Sched
  runnable : (k.tasks t).state = .runnable
  bound : sel.length + k.distance t ≤ k0.distance t
  passed : ∀ s ∈ k0.currentTask :: sel, k.distance t ≤ (t - s).val
  once : (k0.currentTask :: sel).Nodup

theorem Selects.waits {k0 : Kernel} {sel : List (Fin 16)} (h0 : k0.toCtl.Sched)
    (ht : (k0.tasks t).state = .runnable) (h : Selects k0 sel k) (hsel : t ∉ sel) :
    Waits k0 t sel k := by
  induction h with
  | start =>
    refine ⟨h0, ht, by simp, fun s hs => ?_, by simp⟩
    rw [List.mem_singleton] at hs
    rw [hs]
    exact Nat.le_refl _
  | stays _ hop e hcur ih =>
    have hw := ih hsel
    obtain ⟨hs, hstay, -⟩ := exec_closer hw.sched hop e hw.runnable
    have hd : ∀ k1 k2 : Kernel, k2.currentTask = k1.currentTask → k2.distance t = k1.distance t :=
      fun k1 k2 he => by
        unfold Ctl.distance
        rw [he]
    refine ⟨hs, hstay hcur, ?_, ?_, hw.once⟩
    · rw [hd _ _ hcur]
      exact hw.bound
    · rw [hd _ _ hcur]
      exact hw.passed
  | @switch sel k k' op r _ hop e hcur ih =>
    rw [List.mem_append, not_or, List.mem_singleton] at hsel
    have hw := ih hsel.1
    obtain ⟨hs, -, hswitch⟩ := exec_closer hw.sched hop e hw.runnable
    obtain ⟨hrun, hlt⟩ := hswitch hcur (Ne.symm hsel.2)
    have hbound := hw.bound
    have hself : (t - k'.currentTask).val = k'.distance t := rfl
    refine ⟨hs, hrun, by simp; omega, fun s hmem => ?_, ?_⟩
    · rw [← List.cons_append, List.mem_append, List.mem_singleton] at hmem
      rcases hmem with hmem | rfl
      · exact hlt.le.trans (hw.passed s hmem)
      · exact Nat.le_refl _
    -- the slots selected so far are farther away than the new one
    · rw [← List.cons_append, List.nodup_append]
      refine ⟨hw.once, by simp, fun a ha b hb he => ?_⟩
      rw [List.mem_singleton] at hb
      have := hw.passed a ha
      rw [he, hb] at this
      omega

/-- **ROUND ROBIN NEVER OVERTAKES A WAITING TASK.** In every state `k` of every run, for every slot
    `t` that is runnable and every run from there on that has not selected `t`: `t` is still runnable,
    each switch of the run brought the running task closer to `t` and the next one does or selects
    `t`, a yield does switch, fewer than `MAX_TASKS` switches were made, and no slot ran twice. -/
theorem roundRobin (hrun : KRun AnyStep (schedInit mm bm tr esp0) ops k)
    (ht : (k.tasks t).state = .runnable) {sel : List (Fin 16)} (hs : Selects k sel k')
    (hsel : t ∉ sel) :
    (k'.tasks t).state = .runnable ∧
    (∀ op r k'', op.Legal k'.toCtl → k'.exec op = .ok (r, k'') →
      k''.currentTask ≠ k'.currentTask → k''.currentTask ≠ t → k''.distance t < k'.distance t) ∧
    (∀ r k'', k'.exec .yield = .ok (r, k'') → k''.currentTask ≠ k'.currentTask) ∧
    sel.length + k'.distance t ≤ k.distance t ∧ sel.length < 16 ∧
    (k.currentTask :: sel).Nodup := by
  have hw := hs.waits hrun.sched ht hsel
  have hb := hw.bound
  have hlt : k.distance t < 16 := Fin.isLt _
  refine ⟨hw.runnable, fun op r k'' hop e hne hnt => ?_, fun r k'' e => ?_, hb, by omega, hw.once⟩
  · exact ((exec_closer hw.sched hop e hw.runnable).2.2 hne hnt).2
  · exact exec_yield_switches hw.sched e hw.runnable

end

/-- Two free pages. -/
def twoPages : Mm := ⟨fun _ => 0, ⟨fun _ => 0, 0, 0, 3, 2, 2⟩, 0x111000, 0, [], [], 0⟩

/-- Of two new threads, the second one waits for the first. -/
theorem roundRobin_second :
    ∃ k k', KRun AnyStep (schedInit twoPages ⟨0, 0⟩ 0 0) [.create, .create] k ∧
      (k.tasks 2).state = .runnable ∧ Selects k [1] k' ∧ (k'.tasks 2).state = .runnable ∧
      1 + k'.distance 2 ≤ k.distance 2 := by
  obtain ⟨k₁, k, k', e₁, hc₁, e₂, hc, ht, e, hne, he⟩ : ∃ k₁ k k',
      (schedInit twoPages ⟨0, 0⟩ 0 0).exec .create = .ok (some 1, k₁) ∧ k₁.cont = .kernel ∧
      k₁.exec .create = .ok (some 2, k) ∧ k.cont = .kernel ∧ (k.tasks 2).state = .runnable ∧
      k.exec .yield = .ok (none, k') ∧ k'.currentTask ≠ k.currentTask ∧ k'.currentTask = 1 :=
    ⟨_, _, _, rfl, rfl, rfl, rfl, rfl, rfl, by decide, rfl⟩
  have hrun₁ : KRun AnyStep (schedInit twoPages ⟨0, 0⟩ 0 0) ([] ++ [.create]) k₁ :=
    .step .boot rfl trivial e₁
  have hrun : KRun AnyStep (schedInit twoPages ⟨0, 0⟩ 0 0) ([.create] ++ [.create]) k :=
    .step hrun₁ hc₁ trivial e₂
  have hop : Op.yield.Legal k.toCtl := .inl hc
  have hs : Selects k ([] ++ [k'.currentTask]) k' := .switch .start hop e hne
  rw [he] at hs
  obtain ⟨hr, -, -, hb, -⟩ := roundRobin hrun ht hs (by decide)
  exact ⟨k, k', hrun, ht, hs, hr, hb⟩

end Emyx
