/-
  File:      Emyx/Kernel/Tables.lean
  Subject:   THE INVARIANT OF THE TABLES: which task runs, which record belongs to which task.

  A record and its task know each other by the task's id only, so everything here rests on ids
  being unique. `next_task_id` is 32 bits wide and wraps, so a step that creates a task keeps the
  invariant if the id it takes is not in use (`Ctl.FreshId`).

  * `Ctl.Inv` -- **the invariant**;
  * `Ctl.Inv.of_tasks`, `Ctl.Inv.of_records`, `Ctl.Inv.setUser`, ... -- the changes that keep it;
  * `CtlStep.inv` -- **a step keeps it**.
-/
import Emyx.Kernel.Control

namespace Emyx

open Lib

/-! ## 1. Tasks and their records -/

/-- The task runs now or will. -/
def Task.Live (t : Task) : Prop := t.state = .runnable ∨ t.state = .running

/-- The task is in user code or in a system call of it. -/
def Task.InUserland (t : Task) : Prop := t.cont = .user ∨ ∃ i pid, t.cont = .waiting i pid

/-- The task `t` is that of the record `i`. -/
structure Ctl.Hosts (c : Ctl) (t i : Fin 16) : Prop where
  live : (c.tasks t).Live
  id : (c.tasks t).id = (c.processes i).taskId
  entry : (c.tasks t).entry = some .userExecTask

/-- The id that the next task gets is not in use. -/
structure Ctl.FreshId (c : Ctl) : Prop where
  tasks : ∀ t, (c.tasks t).state ≠ .unused → (c.tasks t).id ≠ c.nextTaskId
  records : ∀ i, (c.processes i).state ≠ .free → (c.processes i).taskId ≠ c.nextTaskId

/-- **The invariant of the tables.** A record that was created or runs has its own task, a record
    that exited has no live one, and a task in user code has its record. -/
structure Ctl.Inv (c : Ctl) : Prop where
  current : ∀ t, (c.tasks t).state = .running → t = c.currentTask
  zero : (c.tasks 0).Live ∧ (c.tasks 0).cont = .kernel
  unused : ∀ t, (c.tasks t).state = .unused → c.tasks t = Task.empty
  taskIds : ∀ t u, (c.tasks t).state ≠ .unused → (c.tasks u).state ≠ .unused →
    (c.tasks t).id = (c.tasks u).id → t = u
  free : ∀ i, (c.processes i).state = .free → c.processes i = UserProcess.zero
  recordIds : ∀ i j, (c.processes i).state ≠ .free → (c.processes j).state ≠ .free →
    (c.processes i).taskId = (c.processes j).taskId → i = j
  created : ∀ i, (c.processes i).state = .created → ∃ t, c.Hosts t i ∧ (c.tasks t).cont = .start
  running : ∀ i, (c.processes i).state = .running → ∃ t, c.Hosts t i ∧
    ((c.tasks t).cont = .user ∨ ∃ pid, (c.tasks t).cont = .waiting i pid)
  exited : ∀ i, (c.processes i).state = .exited → ∀ t, (c.tasks t).Live →
    (c.tasks t).id ≠ (c.processes i).taskId
  user : ∀ t, (c.tasks t).Live → (c.tasks t).InUserland →
    ∃ i, (c.processes i).state = .running ∧ (c.processes i).taskId = (c.tasks t).id
  nextTaskId : c.nextTaskId < 2 ^ 32

/-- The current task is not a zombie. -/
def Ctl.Runs (c : Ctl) : Prop := (c.tasks c.currentTask).state = .running

theorem Task.Live.used {t : Task} (h : t.Live) : t.state ≠ .unused := by
  intro h0
  rcases h with h | h <;> rw [h0] at h <;> cases h

theorem Ctl.Runs.live {c : Ctl} (h : c.Runs) : (c.tasks c.currentTask).Live := .inr h

section
variable {c : Ctl}

theorem find_finRange {P : Fin 16 → Prop} [DecidablePred P] {i : Fin 16}
    (h : (List.finRange 16).find? (fun i => decide (P i)) = some i) : P i := by
  simpa using List.find?_some h

theorem find_finRange_none {P : Fin 16 → Prop} [DecidablePred P]
    (h : (List.finRange 16).find? (fun i => decide (P i)) = none) (i : Fin 16) : ¬ P i := by
  simpa using List.find?_eq_none.mp h i (List.mem_finRange i)

theorem Ctl.caller_some {i : Fin 16} (h : c.caller = some i) :
    (c.processes i).state ≠ .free ∧ (c.processes i).taskId = (c.tasks c.currentTask).id :=
  find_finRange (P := fun i => (c.processes i).state ≠ .free ∧
    (c.processes i).taskId = (c.tasks c.currentTask).id) h

theorem Ctl.caller_none (h : c.caller = none) (i : Fin 16) (hi : (c.processes i).state ≠ .free) :
    (c.processes i).taskId ≠ (c.tasks c.currentTask).id := fun hid =>
  find_finRange_none (P := fun i => (c.processes i).state ≠ .free ∧
    (c.processes i).taskId = (c.tasks c.currentTask).id) h i ⟨hi, hid⟩

/-- The task of a record that was created or runs is the one with its id. -/
theorem Ctl.Inv.host_eq (h : c.Inv) {t u i : Fin 16} (ht : c.Hosts t i) (hu : (c.tasks u).Live)
    (hid : (c.tasks u).id = (c.processes i).taskId) : t = u :=
  h.taskIds t u ht.live.used hu.used (ht.id.trans hid.symm)

/-- What the record of a live task can be, by where the task is. -/
theorem Ctl.Inv.record (h : c.Inv) {t i : Fin 16} (ht : (c.tasks t).Live)
    (hi : (c.processes i).state ≠ .free) (hid : (c.processes i).taskId = (c.tasks t).id) :
    c.Hosts t i ∧ ((c.processes i).state = .created ∧ (c.tasks t).cont = .start ∨
      (c.processes i).state = .running ∧
        ((c.tasks t).cont = .user ∨ ∃ pid, (c.tasks t).cont = .waiting i pid)) := by
  cases hs : (c.processes i).state with
  | free => exact absurd hs hi
  | created =>
    obtain ⟨u, hu, hcont⟩ := h.created i hs
    obtain rfl := h.host_eq hu ht hid.symm
    exact ⟨hu, .inl ⟨rfl, hcont⟩⟩
  | running =>
    obtain ⟨u, hu, hcont⟩ := h.running i hs
    obtain rfl := h.host_eq hu ht hid.symm
    exact ⟨hu, .inr ⟨rfl, hcont⟩⟩
  | exited => exact absurd hid.symm (h.exited i hs t ht)

/-- User code has a record, and a task that waits knows it. -/
theorem Ctl.Inv.caller_user (h : c.Inv) (hr : c.Runs)
    (hu : (c.tasks c.currentTask).InUserland) :
    ∃ i, c.caller = some i ∧ (c.processes i).state = .running ∧ c.Hosts c.currentTask i ∧
      ((c.tasks c.currentTask).cont = .user ∨
        ∃ pid, (c.tasks c.currentTask).cont = .waiting i pid) := by
  obtain ⟨i, hi, hid⟩ := h.user _ hr.live hu
  have hfree : (c.processes i).state ≠ .free := by rw [hi]; decide
  obtain ⟨hhost, ⟨hs, -⟩ | ⟨-, hcont⟩⟩ := h.record hr.live hfree hid
  · rw [hs] at hi
    cases hi
  cases hc : c.caller with
  | none => exact absurd hid (Ctl.caller_none hc i hfree)
  | some j =>
    obtain ⟨hj, hjd⟩ := Ctl.caller_some hc
    obtain rfl := h.recordIds i j hfree hj (hid.trans hjd.symm)
    exact ⟨i, rfl, hi, hhost, hcont⟩

end

/-! ## 2. What keeps the invariant -/

section
variable {c c' : Ctl}

/-- Another task table in which the same tasks are live and no task is new. -/
theorem Ctl.Inv.of_tasks (h : c.Inv) (hprocs : c'.processes = c.processes)
    (hnext : c'.nextTaskId = c.nextTaskId) (hlive : ∀ t, (c'.tasks t).Live ↔ (c.tasks t).Live)
    (hsame : ∀ t, (c'.tasks t).state ≠ .unused → (c.tasks t).state ≠ .unused ∧
      (c'.tasks t).id = (c.tasks t).id ∧ (c'.tasks t).entry = (c.tasks t).entry ∧
      (c'.tasks t).cont = (c.tasks t).cont)
    (hempty : ∀ t, (c'.tasks t).state = .unused → c'.tasks t = Task.empty)
    (hcur : ∀ t, (c'.tasks t).state = .running → t = c'.currentTask) : c'.Inv := by
  have hid : ∀ t, (c'.tasks t).Live → (c'.tasks t).id = (c.tasks t).id := fun t ht =>
    (hsame t ht.used).2.1
  have hcont : ∀ t, (c'.tasks t).Live → (c'.tasks t).cont = (c.tasks t).cont := fun t ht =>
    (hsame t ht.used).2.2.2
  have hhosts : ∀ t i, c.Hosts t i → c'.Hosts t i := by
    intro t i ht
    have hl := (hlive t).mpr ht.live
    exact ⟨hl, (hid t hl).trans (hprocs ▸ ht.id), (hsame t hl.used).2.2.1.trans ht.entry⟩
  exact
    { current := hcur
      zero := ⟨(hlive 0).mpr h.zero.1, (hcont 0 ((hlive 0).mpr h.zero.1)).trans h.zero.2⟩
      unused := hempty
      taskIds := fun t u ht hu he => h.taskIds t u (hsame t ht).1 (hsame u hu).1
        (by rw [← (hsame t ht).2.1, ← (hsame u hu).2.1]; exact he)
      free := hprocs ▸ h.free
      recordIds := hprocs ▸ h.recordIds
      created := fun i hi => by
        obtain ⟨t, ht, hc⟩ := h.created i (hprocs ▸ hi)
        exact ⟨t, hhosts t i ht, (hcont t ((hlive t).mpr ht.live)).trans hc⟩
      running := fun i hi => by
        obtain ⟨t, ht, hc⟩ := h.running i (hprocs ▸ hi)
        refine ⟨t, hhosts t i ht, ?_⟩
        rwa [hcont t ((hlive t).mpr ht.live)]
      exited := fun i hi t ht => by
        rw [hid t ht, hprocs]
        exact h.exited i (hprocs ▸ hi) t ((hlive t).mp ht)
      user := fun t ht hu => by
        have hu' : (c.tasks t).InUserland := by
          unfold Task.InUserland at hu ⊢
          rwa [← hcont t ht]
        rw [hprocs, hid t ht]
        exact h.user t ((hlive t).mp ht) hu'
      nextTaskId := hnext ▸ h.nextTaskId }

theorem Ctl.reap_of_live {t : Fin 16} (h : (c.tasks t).Live) : c.reap.tasks t = c.tasks t := by
  refine if_neg ?_
  rintro ⟨-, -, hz⟩
  rcases h with h | h <;> rw [hz] at h <;> cases h

theorem Ctl.reap_current : c.reap.tasks c.currentTask = c.tasks c.currentTask :=
  if_neg fun h => h.2.1 rfl

theorem Ctl.reap_used {t : Fin 16} (h : (c.reap.tasks t).state ≠ .unused) :
    c.reap.tasks t = c.tasks t := by
  refine if_neg fun hz => h ?_
  rw [show c.reap.tasks t = Task.empty from if_pos hz]
  rfl

theorem Ctl.Inv.reap (h : c.Inv) : c.reap.Inv := by
  refine h.of_tasks rfl rfl ?_ ?_ ?_ ?_
  · intro t
    constructor
    · intro ht
      rwa [Ctl.reap_used ht.used] at ht
    · intro ht
      rwa [Ctl.reap_of_live ht]
  · intro t ht
    have he := Ctl.reap_used ht
    rw [he] at ht ⊢
    exact ⟨ht, rfl, rfl, rfl⟩
  · intro t ht
    by_cases hz : t ≠ 0 ∧ t ≠ c.currentTask ∧ (c.tasks t).state = .zombie
    · exact if_pos hz
    · have he : c.reap.tasks t = c.tasks t := if_neg hz
      rw [he] at ht ⊢
      exact h.unused t ht
  · intro t ht
    have hused : (c.reap.tasks t).state ≠ .unused := by rw [ht]; decide
    rw [Ctl.reap_used hused] at ht
    exact h.current t ht

/-- A slot after a switch to `idx`. -/
theorem Ctl.switchTo_tasks (c : Ctl) (idx t : Fin 16) :
    ∃ s, (c.switchTo idx).tasks t = { c.tasks t with state := s } ∧
      (t = idx → s = .running) ∧
      (t ≠ idx → (s = (c.tasks t).state ∧ (t = c.currentTask → s ≠ .running) ∨
        t = c.currentTask ∧ (c.tasks t).state = .running ∧ s = .runnable)) := by
  unfold Ctl.switchTo
  dsimp only
  by_cases ht : t = idx
  · subst ht
    refine ⟨.running, ?_, fun _ => rfl, fun h => absurd rfl h⟩
    rw [Function.update_self]
    split_ifs
    · by_cases hc : t = c.currentTask
      · subst hc
        rw [Function.update_self]
      · rw [Function.update_of_ne hc]
    · rfl
  · rw [Function.update_of_ne ht]
    by_cases hr : (c.tasks c.currentTask).state = .running
    · rw [if_pos hr]
      by_cases hc : t = c.currentTask
      · subst hc
        exact ⟨.runnable, Function.update_self .., fun h => absurd h ht, fun _ =>
          .inr ⟨rfl, hr, rfl⟩⟩
      · exact ⟨(c.tasks t).state, Function.update_of_ne hc .., fun h => absurd h ht, fun _ =>
          .inl ⟨rfl, fun h => absurd h hc⟩⟩
    · rw [if_neg hr]
      exact ⟨(c.tasks t).state, rfl, fun h => absurd h ht, fun _ =>
        .inl ⟨rfl, fun hc => hc ▸ hr⟩⟩

theorem Ctl.nextRunnable_some {idx : Fin 16} (h : c.nextRunnable = some idx) :
    (c.tasks idx).state = .runnable := by
  simpa using List.find?_some h

theorem Ctl.Inv.switchTo (h : c.Inv) {idx : Fin 16} (hidx : (c.tasks idx).state = .runnable) :
    (c.switchTo idx).Inv ∧ (c.switchTo idx).Runs := by
  constructor
  · refine h.of_tasks rfl rfl ?_ ?_ ?_ ?_
    all_goals
      intro t
      obtain ⟨s, he, hrun, hother⟩ := c.switchTo_tasks idx t
      rw [he]
    · by_cases ht : t = idx
      · subst ht
        simp [Task.Live, hrun rfl, hidx]
      · obtain ⟨hs, -⟩ | ⟨-, hs, hs'⟩ := hother ht
        · simp [Task.Live, hs]
        · simp [Task.Live, hs, hs']
    · intro hs
      refine ⟨?_, rfl, rfl, rfl⟩
      by_cases ht : t = idx
      · subst ht
        rw [hidx]
        decide
      · obtain ⟨hs', -⟩ | ⟨-, hs', -⟩ := hother ht
        · rwa [← hs']
        · rw [hs']
          decide
    · intro hs
      by_cases ht : t = idx
      · cases (hrun ht).symm.trans hs
      · obtain ⟨hs', -⟩ | ⟨-, -, hs'⟩ := hother ht
        · have hu := h.unused t (hs'.symm.trans hs)
          have hs : s = .unused := hs
          rw [hu, hs]
          rfl
        · cases hs'.symm.trans hs
    · intro hs
      by_contra ht
      obtain ⟨hs', hcur⟩ | ⟨-, -, hs'⟩ := hother ht
      · exact hcur (h.current t (hs'.symm.trans hs)) hs
      · cases hs'.symm.trans hs
  · obtain ⟨s, he, hrun, -⟩ := c.switchTo_tasks idx idx
    show ((c.switchTo idx).tasks idx).state = .running
    rw [he]
    exact hrun rfl

/-- Another record table, with the same tasks: a record is kept, or dropped unless it runs. -/
theorem Ctl.Inv.of_records (h : c.Inv) (htasks : c'.tasks = c.tasks)
    (hcur : c'.currentTask = c.currentTask) (hnext : c'.nextTaskId = c.nextTaskId)
    (hps : ∀ i, c'.processes i = c.processes i ∨
      (c'.processes i = UserProcess.zero ∧ (c.processes i).state ≠ .running)) : c'.Inv := by
  have hold : ∀ i, (c'.processes i).state ≠ .free → c'.processes i = c.processes i := by
    intro i hi
    obtain he | ⟨he, -⟩ := hps i
    · exact he
    · rw [he] at hi
      exact absurd rfl hi
  have hstate : ∀ i s, s ≠ .free → (c'.processes i).state = s →
      c'.processes i = c.processes i ∧ (c.processes i).state = s := by
    intro i s hs hi
    have he := hold i (hi ▸ hs)
    exact ⟨he, he ▸ hi⟩
  have hhosts : ∀ t i, c'.processes i = c.processes i → c.Hosts t i → c'.Hosts t i := by
    intro t i he ht
    exact ⟨htasks ▸ ht.live, by rw [htasks, he]; exact ht.id, htasks ▸ ht.entry⟩
  exact
    { current := by rw [htasks, hcur]; exact h.current
      zero := htasks ▸ h.zero
      unused := htasks ▸ h.unused
      taskIds := htasks ▸ h.taskIds
      free := fun i hi => by
        obtain he | ⟨he, -⟩ := hps i
        · rw [he] at hi ⊢
          exact h.free i hi
        · exact he
      recordIds := fun i j hi hj he => by
        have hi' := hold i hi
        have hj' := hold j hj
        rw [hi', hj'] at he
        exact h.recordIds i j (hi' ▸ hi) (hj' ▸ hj) he
      created := fun i hi => by
        obtain ⟨he, hi⟩ := hstate i _ (by decide) hi
        obtain ⟨t, ht, hc⟩ := h.created i hi
        exact ⟨t, hhosts t i he ht, htasks ▸ hc⟩
      running := fun i hi => by
        obtain ⟨he, hi⟩ := hstate i _ (by decide) hi
        obtain ⟨t, ht, hc⟩ := h.running i hi
        exact ⟨t, hhosts t i he ht, htasks ▸ hc⟩
      exited := fun i hi t ht => by
        obtain ⟨he, hi⟩ := hstate i _ (by decide) hi
        rw [htasks] at ht ⊢
        rw [he]
        exact h.exited i hi t ht
      user := fun t ht hu => by
        rw [htasks] at ht hu ⊢
        obtain ⟨i, hi, hti⟩ := h.user t ht hu
        obtain he | ⟨-, hne⟩ := hps i
        · exact ⟨i, by rw [he]; exact ⟨hi, hti⟩⟩
        · exact absurd hi hne
      nextTaskId := hnext ▸ h.nextTaskId }

/-- A new task with an id that is not in use. -/
theorem Ctl.Inv.addTask (h : c.Inv) (hf : c.FreshId) {j : Fin 16} {t : Task}
    (hj : (c.tasks j).state = .unused) (hid : t.id = c.nextTaskId) (hs : t.state = .runnable)
    (hcont : t.cont = .start) : (c.addTask j t).Inv := by
  have hself : (c.addTask j t).tasks j = t := Function.update_self ..
  have hother : ∀ u, u ≠ j → (c.addTask j t).tasks u = c.tasks u := fun u hu =>
    Function.update_of_ne hu ..
  have hne : ∀ u, (c.tasks u).state ≠ .unused → u ≠ j := fun u hu he => hu (he ▸ hj)
  have hhosts : ∀ u i, c.Hosts u i → (c.addTask j t).Hosts u i := by
    intro u i hu
    have he := hother u (hne u hu.live.used)
    exact ⟨he ▸ hu.live, he ▸ hu.id, he ▸ hu.entry⟩
  exact
    { current := fun u hu => by
        by_cases he : u = j
        · rw [he, hself, hs] at hu
          cases hu
        · exact h.current u (hother u he ▸ hu)
      zero := by
        rw [hother 0 (hne 0 h.zero.1.used)]
        exact h.zero
      unused := fun u hu => by
        by_cases he : u = j
        · rw [he, hself, hs] at hu
          cases hu
        · rw [hother u he] at hu ⊢
          exact h.unused u hu
      taskIds := fun u v hu hv he => by
        by_cases hju : u = j
        · by_cases hjv : v = j
          · exact hju.trans hjv.symm
          · rw [hju, hself, hother v hjv, hid] at he
            exact absurd he.symm (hf.tasks v (hother v hjv ▸ hv))
        · by_cases hjv : v = j
          · rw [hjv, hself, hother u hju, hid] at he
            exact absurd he (hf.tasks u (hother u hju ▸ hu))
          · rw [hother u hju] at hu he
            rw [hother v hjv] at hv he
            exact h.taskIds u v hu hv he
      free := h.free
      recordIds := h.recordIds
      created := fun i hi => by
        obtain ⟨u, hu, hc⟩ := h.created i hi
        exact ⟨u, hhosts u i hu, by rw [hother u (hne u hu.live.used)]; exact hc⟩
      running := fun i hi => by
        obtain ⟨u, hu, hc⟩ := h.running i hi
        exact ⟨u, hhosts u i hu, by rw [hother u (hne u hu.live.used)]; exact hc⟩
      exited := fun i hi u hu => by
        by_cases he : u = j
        · rw [he, hself, hid]
          exact (hf.records i (by rw [show (c.processes i).state = .exited from hi]; decide)).symm
        · rw [hother u he] at hu ⊢
          exact h.exited i hi u hu
      user := fun u hu huser => by
        by_cases he : u = j
        · rw [he, hself] at huser
          obtain hc | ⟨i, pid, hc⟩ := huser <;> cases hcont.symm.trans hc
        · rw [hother u he] at hu huser ⊢
          exact h.user u hu huser
      nextTaskId := Nat.mod_lt _ (by decide) }

/-- A new record in a free slot, for a task that has none and did not start. -/
theorem Ctl.Inv.addProcess (h : c.Inv) {i j : Fin 16} {p : UserProcess}
    (hi : (c.processes i).state = .free) (hs : p.state = .created)
    (hlive : (c.tasks j).Live) (hid : (c.tasks j).id = p.taskId)
    (hentry : (c.tasks j).entry = some .userExecTask) (hcont : (c.tasks j).cont = .start)
    (hnew : ∀ n, (c.processes n).state ≠ .free → (c.processes n).taskId ≠ p.taskId) :
    (c.addProcess i p).Inv := by
  have hself : (c.addProcess i p).processes i = p := Function.update_self ..
  have hother : ∀ n, n ≠ i → (c.addProcess i p).processes n = c.processes n := fun n hn =>
    Function.update_of_ne hn ..
  have hne : ∀ n s, s ≠ .created → ((c.addProcess i p).processes n).state = s → n ≠ i := by
    intro n s hsn hn he
    rw [he, hself, hs] at hn
    exact hsn hn.symm
  have hhosts : ∀ t n, n ≠ i → c.Hosts t n → (c.addProcess i p).Hosts t n := by
    intro t n hn ht
    exact ⟨ht.live, by rw [hother n hn]; exact ht.id, ht.entry⟩
  exact
    { current := h.current
      zero := h.zero
      unused := h.unused
      taskIds := h.taskIds
      free := fun n hn => by
        have hni := hne n _ (by decide) hn
        rw [hother n hni] at hn ⊢
        exact h.free n hn
      recordIds := fun n m hn hm he => by
        by_cases hni : n = i
        · by_cases hmi : m = i
          · exact hni.trans hmi.symm
          · rw [hni, hself, hother m hmi] at he
            exact absurd he.symm (hnew m (hother m hmi ▸ hm))
        · by_cases hmi : m = i
          · rw [hmi, hself, hother n hni] at he
            exact absurd he (hnew n (hother n hni ▸ hn))
          · rw [hother n hni] at hn he
            rw [hother m hmi] at hm he
            exact h.recordIds n m hn hm he
      created := fun n hn => by
        by_cases hni : n = i
        · rw [hni]
          exact ⟨j, ⟨hlive, hid.trans (by rw [hself]), hentry⟩, hcont⟩
        · obtain ⟨t, ht, hc⟩ := h.created n (hother n hni ▸ hn)
          exact ⟨t, hhosts t n hni ht, hc⟩
      running := fun n hn => by
        have hni := hne n _ (by decide) hn
        obtain ⟨t, ht, hc⟩ := h.running n (hother n hni ▸ hn)
        exact ⟨t, hhosts t n hni ht, hc⟩
      exited := fun n hn t ht => by
        have hni := hne n _ (by decide) hn
        rw [hother n hni] at hn ⊢
        exact h.exited n hn t ht
      user := fun t ht hu => by
        obtain ⟨n, hn, hid⟩ := h.user t ht hu
        have hni : n ≠ i := by
          rintro rfl
          cases hi.symm.trans hn
        exact ⟨n, by rw [hother n hni]; exact ⟨hn, hid⟩⟩
      nextTaskId := h.nextTaskId }

/-- The current task runs, or waits in, the process of its record. -/
theorem Ctl.Inv.setUser (h : c.Inv) (hr : c.Runs) {i : Fin 16} (hcaller : c.caller = some i)
    (hcur : c'.currentTask = c.currentTask) (hnext : c'.nextTaskId = c.nextTaskId)
    (htasks : ∀ t, t ≠ c.currentTask → c'.tasks t = c.tasks t)
    (hstate : (c'.tasks c.currentTask).state = .running)
    (hid : (c'.tasks c.currentTask).id = (c.tasks c.currentTask).id)
    (hentry : (c'.tasks c.currentTask).entry = (c.tasks c.currentTask).entry)
    (hcont : (c'.tasks c.currentTask).cont = .user ∨
      ∃ pid, (c'.tasks c.currentTask).cont = .waiting i pid)
    (hps : ∀ n, n ≠ i → c'.processes n = c.processes n)
    (hrun : (c'.processes i).state = .running)
    (htaskId : (c'.processes i).taskId = (c.processes i).taskId) : c'.Inv := by
  obtain ⟨hfree, hci⟩ := Ctl.caller_some hcaller
  obtain ⟨hhost, hplace⟩ := h.record hr.live hfree hci
  have hlive' : (c'.tasks c.currentTask).Live := .inr hstate
  have h0 : (0 : Fin 16) ≠ c.currentTask := by
    intro h0
    have := h.zero.2
    rw [h0] at this
    rcases hplace with ⟨-, hc⟩ | ⟨-, hc | ⟨pid, hc⟩⟩ <;> cases this.symm.trans hc
  -- what holds of every slot: ids, liveness and use are as before
  have hids : ∀ t, (c'.tasks t).id = (c.tasks t).id := by
    intro t
    by_cases ht : t = c.currentTask
    · rw [ht, hid]
    · rw [htasks t ht]
  have hlives : ∀ t, (c'.tasks t).Live ↔ (c.tasks t).Live := by
    intro t
    by_cases ht : t = c.currentTask
    · rw [ht]
      exact iff_of_true hlive' hr.live
    · rw [htasks t ht]
  have hused : ∀ t, (c'.tasks t).state ≠ .unused → (c.tasks t).state ≠ .unused := by
    intro t ht
    by_cases he : t = c.currentTask
    · rw [he]
      exact hr.live.used
    · rwa [htasks t he] at ht
  have htids : ∀ n, (c'.processes n).taskId = (c.processes n).taskId := by
    intro n
    by_cases hn : n = i
    · rw [hn, htaskId]
    · rw [hps n hn]
  have hrec : ∀ n, (c'.processes n).state ≠ .free → (c.processes n).state ≠ .free := by
    intro n hn
    by_cases he : n = i
    · rw [he]
      exact hfree
    · rwa [hps n he] at hn
  -- a task of another record is another task
  have hhosts : ∀ t n, n ≠ i → c.Hosts t n → (c.processes n).state ≠ .free →
      t ≠ c.currentTask ∧ c'.Hosts t n := by
    intro t n hn ht hnfree
    have htc : t ≠ c.currentTask := by
      rintro rfl
      exact hn (h.recordIds n i hnfree hfree (ht.id.symm.trans hci.symm))
    exact ⟨htc, (hlives t).mpr ht.live, by rw [hids, htids]; exact ht.id,
      by rw [htasks t htc]; exact ht.entry⟩
  exact
    { current := fun t ht => by
        rw [hcur]
        by_contra hne
        exact hne (h.current t (htasks t hne ▸ ht))
      zero := by
        rw [htasks 0 h0]
        exact h.zero
      unused := fun t ht => by
        by_cases hne : t = c.currentTask
        · rw [hne, hstate] at ht
          cases ht
        · rw [htasks t hne] at ht ⊢
          exact h.unused t ht
      taskIds := fun t u ht hu he => by
        rw [hids, hids] at he
        exact h.taskIds t u (hused t ht) (hused u hu) he
      free := fun n hn => by
        by_cases hni : n = i
        · rw [hni, hrun] at hn
          cases hn
        · rw [hps n hni] at hn ⊢
          exact h.free n hn
      recordIds := fun n m hn hm he => by
        rw [htids, htids] at he
        exact h.recordIds n m (hrec n hn) (hrec m hm) he
      created := fun n hn => by
        have hni : n ≠ i := by
          rintro rfl
          cases hrun.symm.trans hn
        rw [hps n hni] at hn
        obtain ⟨t, ht, hc⟩ := h.created n hn
        obtain ⟨htc, ht'⟩ := hhosts t n hni ht (by rw [hn]; decide)
        exact ⟨t, ht', by rw [htasks t htc]; exact hc⟩
      running := fun n hn => by
        by_cases hni : n = i
        · rw [hni]
          exact ⟨c.currentTask, ⟨hlive', by rw [hids, htids]; exact hhost.id,
            hentry.trans hhost.entry⟩, hcont⟩
        · rw [hps n hni] at hn
          obtain ⟨t, ht, hc⟩ := h.running n hn
          obtain ⟨htc, ht'⟩ := hhosts t n hni ht (by rw [hn]; decide)
          exact ⟨t, ht', by rw [htasks t htc]; exact hc⟩
      exited := fun n hn t ht => by
        have hni : n ≠ i := by
          rintro rfl
          cases hrun.symm.trans hn
        rw [hps n hni] at hn
        rw [hids, htids]
        exact h.exited n hn t ((hlives t).mp ht)
      user := fun t ht hu => by
        by_cases htc : t = c.currentTask
        · rw [htc]
          exact ⟨i, hrun, by rw [hids, htids]; exact hci⟩
        · rw [htasks t htc] at ht hu ⊢
          obtain ⟨n, hn, hid⟩ := h.user t ht hu
          have hni : n ≠ i := by
            rintro rfl
            exact htc (h.taskIds t _ ht.used hr.live.used (hid.symm.trans hci))
          exact ⟨n, by rw [hps n hni]; exact ⟨hn, hid⟩⟩
      nextTaskId := hnext ▸ h.nextTaskId }

/-- A kernel thread starts: it has no record. -/
theorem Ctl.Inv.startThread (h : c.Inv) (hr : c.Runs)
    (hentry : (c.tasks c.currentTask).entry ≠ some .userExecTask) :
    (c.setCont .kernel).Inv := by
  have hself : (c.setCont .kernel).tasks c.currentTask =
      { c.tasks c.currentTask with cont := .kernel } := Function.update_self ..
  have hother : ∀ t, t ≠ c.currentTask → (c.setCont .kernel).tasks t = c.tasks t := fun t ht =>
    Function.update_of_ne ht ..
  have hids : ∀ t, ((c.setCont .kernel).tasks t).id = (c.tasks t).id ∧
      ((c.setCont .kernel).tasks t).state = (c.tasks t).state := by
    intro t
    by_cases ht : t = c.currentTask
    · rw [ht, hself]
      exact ⟨rfl, rfl⟩
    · rw [hother t ht]
      exact ⟨rfl, rfl⟩
  have hlives : ∀ t, ((c.setCont .kernel).tasks t).Live ↔ (c.tasks t).Live := fun t => by
    unfold Task.Live
    rw [(hids t).2]
  have hhosts : ∀ t n, c.Hosts t n →
      (c.setCont .kernel).Hosts t n ∧ (c.setCont .kernel).tasks t = c.tasks t := by
    intro t n ht
    have htc : t ≠ c.currentTask := by
      rintro rfl
      exact hentry ht.entry
    exact ⟨⟨(hlives t).mpr ht.live, (hids t).1.trans ht.id, by rw [hother t htc]; exact ht.entry⟩,
      hother t htc⟩
  exact
    { current := fun t ht => h.current t ((hids t).2 ▸ ht)
      zero := by
        refine ⟨(hlives 0).mpr h.zero.1, ?_⟩
        by_cases h0 : 0 = c.currentTask
        · rw [h0, hself]
        · rw [hother 0 h0]
          exact h.zero.2
      unused := fun t ht => by
        have htc : t ≠ c.currentTask := by
          rintro rfl
          exact hr.live.used ((hids _).2 ▸ ht)
        rw [hother t htc] at ht ⊢
        exact h.unused t ht
      taskIds := fun t u ht hu he => h.taskIds t u ((hids t).2 ▸ ht) ((hids u).2 ▸ hu)
        (by rw [← (hids t).1, ← (hids u).1]; exact he)
      free := h.free
      recordIds := h.recordIds
      created := fun n hn => by
        obtain ⟨t, ht, hc⟩ := h.created n hn
        obtain ⟨ht', he⟩ := hhosts t n ht
        exact ⟨t, ht', by rw [he]; exact hc⟩
      running := fun n hn => by
        obtain ⟨t, ht, hc⟩ := h.running n hn
        obtain ⟨ht', he⟩ := hhosts t n ht
        exact ⟨t, ht', by rw [he]; exact hc⟩
      exited := fun n hn t ht => by
        rw [(hids t).1]
        exact h.exited n hn t ((hlives t).mp ht)
      user := fun t ht hu => by
        by_cases htc : t = c.currentTask
        · rw [htc, hself] at hu
          obtain hu | ⟨i, pid, hu⟩ := hu <;> cases hu
        · rw [hother t htc] at ht hu ⊢
          exact h.user t ht hu
      nextTaskId := h.nextTaskId }

/-- What may become of a record when the task with the id `cur` ends. -/
def UserProcess.Retires (cur : Nat) (p p' : UserProcess) : Prop :=
  (p.Orphaned p' ∧ (p.state = .created ∨ p.state = .running → p.taskId ≠ cur)) ∨
  (p' = UserProcess.zero ∧ (p.state = .running → p.taskId = cur)) ∨
  (p'.state = .exited ∧ p'.taskId = p.taskId ∧ p.taskId = cur ∧ p.state ≠ .free)

/-- A record that is left after the task with the id `cur` ended. -/
theorem UserProcess.Retires.used {cur : Nat} {p p' : UserProcess} (h : p.Retires cur p')
    (hp : p'.state ≠ .free) : p.state ≠ .free ∧ p'.taskId = p.taskId ∧
      ((p'.state = p.state ∧ (p.state = .created ∨ p.state = .running → p.taskId ≠ cur)) ∨
        (p'.state = .exited ∧ p.taskId = cur)) := by
  obtain ⟨rfl | ⟨-, rfl⟩ | ⟨hs, rfl⟩, hcur⟩ | ⟨rfl, -⟩ | ⟨hs, hid, hcur, hfree⟩ := h
  · exact ⟨hp, rfl, .inl ⟨rfl, hcur⟩⟩
  · exact absurd rfl hp
  · exact ⟨hs, rfl, .inl ⟨rfl, hcur⟩⟩
  · exact absurd rfl hp
  · exact ⟨hfree, hid, .inr ⟨hs, hcur⟩⟩

/-- The current task ends, and no record that was created or runs is left to it. -/
theorem Ctl.Inv.zombify (h : c.Inv) (hr : c.Runs) (h0 : c.currentTask ≠ 0)
    {ps : Fin 16 → UserProcess}
    (hps : ∀ n, (c.processes n).Retires (c.tasks c.currentTask).id (ps n)) :
    Ctl.Inv { c.zombify with processes := ps } := by
  have hself : c.zombify.tasks c.currentTask = { c.tasks c.currentTask with state := .zombie } :=
    Function.update_self ..
  have hother : ∀ t, t ≠ c.currentTask → c.zombify.tasks t = c.tasks t := fun t ht =>
    Function.update_of_ne ht ..
  have hids : ∀ t, (c.zombify.tasks t).id = (c.tasks t).id := by
    intro t
    by_cases ht : t = c.currentTask
    · rw [ht, hself]
    · rw [hother t ht]
  have hused : ∀ t, (c.zombify.tasks t).state ≠ .unused → (c.tasks t).state ≠ .unused := by
    intro t ht
    by_cases he : t = c.currentTask
    · rw [he]
      exact hr.live.used
    · rwa [hother t he] at ht
  have hlives : ∀ t, (c.zombify.tasks t).Live → t ≠ c.currentTask ∧ (c.tasks t).Live := by
    intro t ht
    have htc : t ≠ c.currentTask := by
      rintro rfl
      rw [hself] at ht
      rcases ht with ht | ht <;> cases ht
    exact ⟨htc, hother t htc ▸ ht⟩
  have hlive_ne : ∀ t, (c.tasks t).Live → (c.tasks t).id = (c.tasks c.currentTask).id →
      t = c.currentTask := fun t ht he => h.taskIds t _ ht.used hr.live.used he
  -- a record that was created or runs had another task
  have hhosts : ∀ t n, c.Hosts t n → (c.processes n).taskId ≠ (c.tasks c.currentTask).id →
      (ps n).taskId = (c.processes n).taskId →
      Ctl.Hosts { c.zombify with processes := ps } t n ∧ c.zombify.tasks t = c.tasks t := by
    intro t n ht hne hid
    have htc : t ≠ c.currentTask := by
      rintro rfl
      exact hne ht.id.symm
    have he := hother t htc
    exact ⟨⟨he ▸ ht.live, by rw [he]; exact ht.id.trans hid.symm, he ▸ ht.entry⟩, he⟩
  exact
    { current := fun t ht => by
        by_contra hne
        exact hne (h.current t (hother t hne ▸ ht))
      zero := by
        rw [hother 0 (Ne.symm h0)]
        exact h.zero
      unused := fun t ht => by
        by_cases hne : t = c.currentTask
        · rw [hne, hself] at ht
          cases ht
        · rw [hother t hne] at ht ⊢
          exact h.unused t ht
      taskIds := fun t u ht hu he => by
        rw [hids, hids] at he
        exact h.taskIds t u (hused t ht) (hused u hu) he
      free := fun n hn => by
        have hn : (ps n).state = .free := hn
        show ps n = UserProcess.zero
        obtain ⟨he | ⟨-, he⟩ | ⟨hs, he⟩, -⟩ | ⟨he, -⟩ | ⟨hs, -⟩ := hps n
        · rw [he] at hn ⊢
          exact h.free n hn
        · exact he
        · rw [he] at hn
          exact absurd hn hs
        · exact he
        · cases hn.symm.trans hs
      recordIds := fun n m hn hm he => by
        obtain ⟨hn', hnid, -⟩ := (hps n).used hn
        obtain ⟨hm', hmid, -⟩ := (hps m).used hm
        exact h.recordIds n m hn' hm' (hnid.symm.trans (he.trans hmid))
      created := fun n hn => by
        have hn : (ps n).state = .created := hn
        obtain ⟨-, hid, ⟨hs, hne⟩ | ⟨hs, -⟩⟩ := (hps n).used (by rw [hn]; decide)
        · have hcr := hs.symm.trans hn
          obtain ⟨t, ht, hc⟩ := h.created n hcr
          obtain ⟨ht', he⟩ := hhosts t n ht (hne (.inl hcr)) hid
          exact ⟨t, ht', by rw [he]; exact hc⟩
        · cases hn.symm.trans hs
      running := fun n hn => by
        have hn : (ps n).state = .running := hn
        obtain ⟨-, hid, ⟨hs, hne⟩ | ⟨hs, -⟩⟩ := (hps n).used (by rw [hn]; decide)
        · have hrn := hs.symm.trans hn
          obtain ⟨t, ht, hc⟩ := h.running n hrn
          obtain ⟨ht', he⟩ := hhosts t n ht (hne (.inr hrn)) hid
          exact ⟨t, ht', by rw [he]; exact hc⟩
        · cases hn.symm.trans hs
      exited := fun n hn t ht => by
        have hn : (ps n).state = .exited := hn
        obtain ⟨htc, htl⟩ := hlives t ht
        obtain ⟨-, hid, hcase⟩ := (hps n).used (by rw [hn]; decide)
        show (c.zombify.tasks t).id ≠ (ps n).taskId
        rw [hids, hid]
        obtain ⟨hs, -⟩ | ⟨-, hcur⟩ := hcase
        · exact h.exited n (hs.symm.trans hn) t htl
        · rw [hcur]
          exact fun he => htc (hlive_ne t htl he)
      user := fun t ht hu => by
        obtain ⟨htc, htl⟩ := hlives t ht
        rw [hother t htc] at hu ⊢
        obtain ⟨n, hn, hid⟩ := h.user t htl hu
        have hne : (c.processes n).taskId ≠ (c.tasks c.currentTask).id := fun he =>
          htc (hlive_ne t htl (hid.symm.trans he))
        refine ⟨n, ?_⟩
        show (ps n).state = .running ∧ (ps n).taskId = (c.tasks t).id
        obtain ⟨he | ⟨hs, -⟩ | ⟨-, he⟩, -⟩ | ⟨-, hcur⟩ | ⟨-, -, hcur, -⟩ := hps n
        · rw [he]
          exact ⟨hn, hid⟩
        · cases hn.symm.trans hs
        · rw [he]
          exact ⟨hn, hid⟩
        · exact absurd (hcur hn) hne
        · exact absurd hcur hne
      nextTaskId := h.nextTaskId }

end

/-! ## 3. Every step keeps the invariant -/

/-- The step may create a task. -/
def Op.creates : Op → Bool
  | .spawn _ => true
  | .create => true
  | _ => false

section
variable {c c' : Ctl}

theorem YieldsTo.inv (h : c.Inv) (hy : YieldsTo c c') : c'.Inv ∧ c'.Runs := by
  obtain ⟨idx, hn, rfl⟩ := hy
  exact h.reap.switchTo (Ctl.nextRunnable_some hn)

theorem ExitsTo.inv (ps : Fin 16 → UserProcess) (he : ExitsTo { c with processes := ps } c')
    (h : c.Inv) (hr : c.Runs)
    (hps : ∀ n, (c.processes n).Retires (c.tasks c.currentTask).id (ps n)) : c'.Inv ∧ c'.Runs :=
  he.2.inv (h.zombify hr he.1 hps)

/-- A record that is not touched, when the current task has none that was created or runs. -/
theorem retires_self {cur : Nat} {p : UserProcess}
    (h : p.state = .created ∨ p.state = .running → p.taskId ≠ cur) : p.Retires cur p :=
  .inl ⟨.inl rfl, h⟩

/-- The records of other tasks than the current one. -/
theorem Ctl.Inv.retires_other (h : c.Inv) {i n : Fin 16} {p' : UserProcess}
    (hc : c.caller = some i) (hn : n ≠ i) (hp : (c.processes n).Orphaned p') :
    (c.processes n).Retires (c.tasks c.currentTask).id p' := by
  obtain ⟨hi, hid⟩ := Ctl.caller_some hc
  refine .inl ⟨hp, fun hs he => hn (h.recordIds n i ?_ hi (he.trans hid.symm))⟩
  rcases hs with hs | hs <;> rw [hs] <;> decide

/-- The records after the process of the current task ended. -/
theorem Ctl.Inv.exitTable_retires (h : c.Inv) {i : Fin 16} (status : Nat)
    (hc : c.caller = some i) (n : Fin 16) :
    (c.processes n).Retires (c.tasks c.currentTask).id (c.exitTable i status n) := by
  obtain ⟨hi, hid⟩ := Ctl.caller_some hc
  have horphan : UserProcess.Orphaned _ (c.exitTable i status n) :=
    userProcessOrphanChildren_each (Function.update c.processes i ((c.processes i).exit status)) i n
  by_cases hn : n = i
  · subst hn
    rw [Function.update_self] at horphan
    obtain he | ⟨-, he⟩ | ⟨-, he⟩ := horphan <;> rw [he]
    · exact .inr (.inr ⟨rfl, rfl, hid, hi⟩)
    · exact .inr (.inl ⟨rfl, fun _ => hid⟩)
    · exact .inr (.inr ⟨rfl, rfl, hid, hi⟩)
  · rw [Function.update_of_ne hn] at horphan
    exact h.retires_other hc hn horphan

theorem Ctl.Inv.exitRecords_retires (h : c.Inv) {i : Fin 16} (status : Nat)
    (hc : c.caller = some i) (n : Fin 16) :
    (c.processes n).Retires (c.tasks c.currentTask).id
      (c.exitRecords i status n) := by
  obtain ⟨-, he⟩ | ⟨j, -, he⟩ := c.exitRecords_cases i status <;> rw [he]
  · by_cases hn : n = i
    · subst hn
      exact .inr (.inl ⟨Function.update_self .., fun _ => (Ctl.caller_some hc).2⟩)
    · unfold userProcessRelease
      rw [Function.update_of_ne hn]
      exact h.exitTable_retires status hc n
  · exact h.exitTable_retires status hc n

/-- `user_wait` releases the record of a process that exited, or no record. -/
theorem waitTurn_some {ps ps' : Fin 16 → UserProcess} {i : Fin 16} {pid : Nat} {r : Int}
    (h : waitTurn ps i pid = some (r, ps')) : (r = -1 ∧ ps' = ps) ∨
      ∃ j, userProcessFindByPid ps pid = some j ∧ (ps j).parentPid = (ps i).pid ∧
        (ps j).state = .exited ∧ r = toInt32 (ps j).exitStatus ∧
        ps' = userProcessRelease ps j := by
  unfold waitTurn at h
  cases hj : userProcessFindByPid ps pid with
  | none =>
    rw [hj] at h
    cases h
    exact .inl ⟨rfl, rfl⟩
  | some j =>
    rw [hj] at h
    dsimp only at h
    split_ifs at h with hp hs
    · cases h
      exact .inl ⟨rfl, rfl⟩
    · cases h
      exact .inr ⟨j, rfl, not_not.mp hp, hs, rfl, rfl⟩

/-- Who waits is a process, and knows its record. -/
theorem Ctl.Inv.waiter (h : c.Inv) (hr : c.Runs) {op : Op} {i : Fin 16} {pid : Nat}
    (hop : op.Legal c) (hw : op.waiter c = some (i, pid)) :
    c.caller = some i ∧ (c.processes i).state = .running := by
  cases op with
  | wait p =>
    obtain ⟨j, hj, he⟩ := Option.map_eq_some_iff.mp hw
    cases he
    obtain ⟨n, hn, hs, -⟩ := h.caller_user hr (.inl hop.1)
    cases hj.symm.trans hn
    exact ⟨hn, hs⟩
  | resume =>
    obtain ⟨j, p, hc⟩ := hop
    have hc' : (c.tasks c.currentTask).cont = .waiting j p := hc
    obtain ⟨n, hn, hs, -, hcase⟩ := h.caller_user hr (.inr ⟨j, p, hc'⟩)
    simp only [Op.waiter, hc] at hw
    cases hw
    rcases hcase with hcase | ⟨p', hcase⟩
    · cases hc'.symm.trans hcase
    · cases hc'.symm.trans hcase
      exact ⟨hn, hs⟩
  | _ => cases hw

end

section
variable {c c' : Ctl}

theorem Ctl.Runs.reap (h : c.Runs) : c.reap.Runs := by
  show (c.reap.tasks c.currentTask).state = .running
  rw [Ctl.reap_current]
  exact h

theorem Ctl.Runs.records (h : c.Runs) (ps : Fin 16 → UserProcess) :
    Ctl.Runs { c with processes := ps } := by
  unfold Ctl.Runs at h ⊢
  exact h

theorem Ctl.Runs.addTask (h : c.Runs) {j : Fin 16} (t : Task)
    (hj : (c.tasks j).state = .unused) : (c.addTask j t).Runs := by
  have hne : c.currentTask ≠ j := by
    rintro rfl
    cases h.symm.trans hj
  show ((c.addTask j t).tasks c.currentTask).state = .running
  rw [show (c.addTask j t).tasks c.currentTask = c.tasks c.currentTask from
    Function.update_of_ne hne ..]
  exact h

theorem Ctl.Runs.setCont (h : c.Runs) (cont : Cont) : (c.setCont cont).Runs := by
  show ((c.setCont cont).tasks c.currentTask).state = .running
  rw [show (c.setCont cont).tasks c.currentTask = { c.tasks c.currentTask with cont := cont } from
    Function.update_self ..]
  exact h

theorem Ctl.FreshId.reap (h : c.FreshId) : c.reap.FreshId where
  tasks t ht := by
    have he := Ctl.reap_used ht
    rw [he] at ht ⊢
    exact h.tasks t ht
  records := h.records

theorem Ctl.freeSlot_some {j : Fin 16} (h : c.freeSlot = some j) :
    (c.tasks j).state = .unused := by
  simpa using List.find?_some h

theorem NewTask.unused {e : Entry} {j : Fin 16} {t : Task} (h : NewTask c e j t) :
    (c.reap.tasks j).state = .unused := Ctl.freeSlot_some h.slot

/-- `kthread_create` keeps the invariant. -/
theorem Ctl.Inv.newTask (h : c.Inv) (hr : c.Runs) (hf : c.FreshId) {e : Entry} {j : Fin 16}
    {t : Task} (ht : NewTask c e j t) :
    (c.reap.addTask j t).Inv ∧ (c.reap.addTask j t).Runs :=
  ⟨h.reap.addTask hf.reap ht.unused ht.id ht.state ht.cont, hr.reap.addTask t ht.unused⟩

theorem userProcessAlloc_some {ps : Fin 16 → UserProcess} {i : Fin 16}
    (h : userProcessAlloc ps = some i) : (ps i).state = .free :=
  find_finRange (P := fun i => (ps i).state = .free) h

theorem Ctl.Inv.skipPid (h : c.Inv) {i : Fin 16} (hi : userProcessAlloc c.processes = some i) :
    (c.skipPid i).Inv := by
  refine h.of_records rfl rfl rfl fun n => ?_
  by_cases hn : n = i
  · subst hn
    exact .inr ⟨Function.update_self .., by rw [userProcessAlloc_some hi]; decide⟩
  · exact .inl (Function.update_of_ne hn ..)

theorem Ctl.FreshId.skipPid (h : c.FreshId) (i : Fin 16) : (c.skipPid i).FreshId where
  tasks := h.tasks
  records n hn := by
    by_cases he : n = i
    · subst he
      have hzero : (c.skipPid n).processes n = UserProcess.zero := Function.update_self ..
      rw [hzero] at hn
      exact absurd rfl hn
    · have hsame : (c.skipPid i).processes n = c.processes n := Function.update_of_ne he ..
      rw [hsame] at hn ⊢
      exact h.records n hn

/-- `user_spawn` keeps the invariant when it succeeds. -/
theorem Ctl.Inv.spawn (h : c.Inv) (hr : c.Runs) (hf : c.FreshId) {i j : Fin 16} {t : Task}
    {path : List Byte} {d : Nat} (hi : userProcessAlloc c.processes = some i)
    (ht : NewTask c .userExecTask j t) (hid : 0 ≤ toInt32 c.nextTaskId) :
    ((c.addProcess i (c.spawned path d)).reap.addTask j t).Inv ∧
      ((c.addProcess i (c.spawned path d)).reap.addTask j t).Runs := by
  obtain ⟨hinv, hruns⟩ := h.newTask hr hf ht
  have hself : (c.reap.addTask j t).tasks j = t := Function.update_self ..
  have htaskId : (c.spawned path d).taskId = c.nextTaskId := toInt32_toNat h.nextTaskId hid
  refine ⟨?_, hruns⟩
  -- the order of filling the record and the task does not matter
  change ((c.reap.addTask j t).addProcess i (c.spawned path d)).Inv
  refine hinv.addProcess (j := j) (userProcessAlloc_some hi) rfl ?_ ?_ ?_ ?_ ?_
  · exact .inl (by rw [hself]; exact ht.state)
  · rw [hself, htaskId]
    exact ht.id
  · rw [hself]
    exact ht.entry
  · rw [hself]
    exact ht.cont
  · intro n hn
    rw [htaskId]
    exact hf.records n hn

/-- The current task of a process stays with it. -/
theorem Ctl.Inv.setCont (h : c.Inv) (hr : c.Runs) {i : Fin 16} (hc : c.caller = some i)
    (hs : (c.processes i).state = .running) {cont : Cont}
    (hcont : cont = .user ∨ ∃ pid, cont = .waiting i pid) : (c.setCont cont).Inv := by
  have hself : (c.setCont cont).tasks c.currentTask =
      { c.tasks c.currentTask with cont := cont } := Function.update_self ..
  exact h.setUser hr hc rfl rfl (fun t ht => Function.update_of_ne ht ..) (by rw [hself]; exact hr)
    (by rw [hself]) (by rw [hself]) (by rw [hself]; exact hcont) (fun _ _ => rfl) hs rfl

/-- `user_exec_task` keeps the invariant when it enters user mode. -/
theorem Ctl.Inv.enter (h : c.Inv) (hr : c.Runs) {i : Fin 16} {p : UserProcess}
    (hc : c.caller = some i) (hp : (c.processes i).SameButLoaded p) :
    (c.enter i p).Inv ∧ (c.enter i p).Runs := by
  have hself : (c.enter i p).tasks c.currentTask =
      { c.tasks c.currentTask with addressSpace := p.addressSpace, cont := .user } :=
    Function.update_self ..
  have hrec : (c.enter i p).processes i = { p with state := .running } := Function.update_self ..
  constructor
  · exact h.setUser hr hc rfl rfl (fun t ht => Function.update_of_ne ht ..)
      (by rw [hself]; exact hr) (by rw [hself]) (by rw [hself]) (by rw [hself]; exact .inl rfl)
      (fun n hn => Function.update_of_ne hn ..) (by rw [hrec]) (by rw [hrec]; exact hp.taskId)
  · show ((c.enter i p).tasks c.currentTask).state = .running
    rw [hself]
    exact hr

/-- The task that is running has no record that was created or runs: it is a kernel thread. -/
theorem Ctl.Inv.retires_kernel (h : c.Inv) (hr : c.Runs) (hk : c.cont = .kernel) (n : Fin 16) :
    (c.processes n).Retires (c.tasks c.currentTask).id (c.processes n) := by
  refine retires_self fun hs hid => ?_
  have hfree : (c.processes n).state ≠ .free := by
    rcases hs with hs | hs <;> rw [hs] <;> decide
  have hk : (c.tasks c.currentTask).cont = .kernel := hk
  obtain ⟨-, ⟨-, hc⟩ | ⟨-, hc | ⟨pid, hc⟩⟩⟩ := h.record hr.live hfree hid <;>
    cases hk.symm.trans hc

theorem Ctl.retires_noCaller (hc : c.caller = none) (n : Fin 16) :
    (c.processes n).Retires (c.tasks c.currentTask).id (c.processes n) := by
  refine retires_self fun hs => Ctl.caller_none hc n ?_
  rcases hs with hs | hs <;> rw [hs] <;> decide

/-- **A step keeps the invariant**, if a task that it creates gets an id that is not in use. -/
theorem CtlStep.inv (h : c.Inv) (hr : c.Runs) {op : Op} {r : Option Int} (hop : op.Legal c)
    (hf : op.creates = true → c.FreshId) (hs : CtlStep c op r c') : c'.Inv ∧ c'.Runs := by
  cases hs with
  | spawnRefused path => exact ⟨h, hr⟩
  | spawnNoDirectory path i hi => exact ⟨h.skipPid hi, hr⟩
  | spawnNoTask path i hi => exact ⟨(h.skipPid hi).reap, Ctl.Runs.reap hr⟩
  | spawnBadId path i j t hi ht hid =>
    exact (h.skipPid hi).newTask hr ((hf rfl).skipPid i) ⟨ht.slot, ht.id, ht.state, ht.entry, ht.cont⟩
  | spawn path i j t d hi ht hid => exact h.spawn hr (hf rfl) hi ht hid
  | createFails => exact ⟨h.reap, hr.reap⟩
  | create j t ht => exact h.newTask hr (hf rfl) ht
  | yieldStays hn => exact ⟨h.reap, hr.reap⟩
  | yield _ hy => exact hy.inv h
  | startThread he => exact ⟨h.startThread hr he, hr.setCont _⟩
  | startNoRecord _ he hc hx => exact ExitsTo.inv c.processes hx h hr (Ctl.retires_noCaller hc)
  | startFails i _ he hc hx =>
    refine ExitsTo.inv _ hx h hr fun n => ?_
    by_cases hn : n = i
    · subst hn
      exact .inr (.inl ⟨Function.update_self .., fun _ => (Ctl.caller_some hc).2⟩)
    · exact h.retires_other hc hn (.inl (Function.update_of_ne hn ..))
  | start i p he hc hp h0 => exact h.enter hr hc hp
  | waitNoCaller pid hc => exact ⟨h, hr⟩
  | waitReturns op i pid r ps hw hturn =>
    obtain ⟨hc, hs⟩ := h.waiter hr hop hw
    refine ⟨(h.setCont hr hc hs (.inl rfl)).of_records rfl rfl rfl fun n => ?_, hr.setCont _⟩
    obtain ⟨-, rfl⟩ | ⟨j, -, -, hj, -, rfl⟩ := waitTurn_some hturn
    · exact .inl rfl
    · by_cases hn : n = j
      · subst hn
        exact .inr ⟨Function.update_self .., by
          rw [show ((c.setCont .user).processes n).state = .exited from hj]; decide⟩
      · exact .inl (Function.update_of_ne hn ..)
  | waitYields op i pid _ hw hturn hy =>
    obtain ⟨hc, hs⟩ := h.waiter hr hop hw
    exact hy.inv (h.setCont hr hc hs (.inr ⟨pid, rfl⟩))
  | exitNoRecord status _ hc hx => exact ExitsTo.inv c.processes hx h hr (Ctl.retires_noCaller hc)
  | exit status i _ hc hx =>
    exact ExitsTo.inv (c.exitRecords i status) hx h hr (h.exitRecords_retires status hc)
  | threadExit _ hx => exact ExitsTo.inv c.processes hx h hr (h.retires_kernel hr hop)
  | store v b => exact ⟨h, hr⟩

end

/-! ## 4. The start -/

theorem schedInit_inv (mm : Mm) (bm : BootModule) (tr esp0 : Nat) :
    (schedInit mm bm tr esp0).toCtl.Inv ∧ (schedInit mm bm tr esp0).toCtl.Runs := by
  have hzero : (schedInit mm bm tr esp0).tasks 0 =
      ⟨0, .running, mm.kernelPageDirectory, 0, none, .kernel⟩ := rfl
  have hother : ∀ t, t ≠ 0 → (schedInit mm bm tr esp0).tasks t = Task.empty := fun t ht => if_neg ht
  have hne : ∀ t, ((schedInit mm bm tr esp0).tasks t).state ≠ .unused → t = 0 := by
    intro t ht
    by_contra h0
    rw [hother t h0] at ht
    exact ht rfl
  refine ⟨?_, congrArg Task.state hzero⟩
  exact
    { current := fun t ht => hne t (by rw [ht]; decide)
      zero := by
        rw [hzero]
        exact ⟨.inr rfl, rfl⟩
      unused := fun t ht => hother t (by rintro rfl; rw [hzero] at ht; cases ht)
      taskIds := fun t u ht hu _ => (hne t ht).trans (hne u hu).symm
      free := fun _ _ => rfl
      recordIds := fun i _ hi => absurd rfl hi
      created := fun i hi => by cases hi
      running := fun i hi => by cases hi
      exited := fun i hi => by cases hi
      user := fun t ht hu => by
        rw [hne t ht.used, hzero] at hu
        obtain hu | ⟨i, pid, hu⟩ := hu <;> cases hu
      nextTaskId := by
        show 1 < 2 ^ 32
        decide }

end Emyx
