/-
  File:      Emyx/Kernel/ProcessTable.lean
  Subject:   THE PROCESS TABLE: pids, parents and what is left of a process that exited.

  A record is released in five places (`user_wait`, an exit without a parent, the exit of the
  parent, a spawn and an exec that fail), and each of them must leave no child behind. The parent
  of a record is a process that runs, so a record that was created and never ran can be dropped;
  a process that ends gives its children up first.

  * `Ctl.Pids` -- the invariant, as long as the counters do not wrap;
  * `Ctl.exitRecords_eq` -- what the exit of a process does to every record;
  * `CtlStep.pids` -- **a step keeps the invariant**;
  * `KRun.sound`, `Ctl.Sound.processTable` -- **the table in every state of a run** whose counters
    stay below 2³¹.
-/
import Emyx.Kernel.Tables

namespace Emyx

open Lib

/-! ## 1. The invariant -/

/-- Pids and task ids are handed out in order, and a parent is a process that runs. -/
structure Ctl.Pids (c : Ctl) : Prop where
  pids : ∀ i j, (c.processes i).state ≠ .free → (c.processes j).state ≠ .free →
    (c.processes i).pid = (c.processes j).pid → i = j
  pos : ∀ i, (c.processes i).state ≠ .free → 0 < (c.processes i).pid
  lt : ∀ i, (c.processes i).state ≠ .free → (c.processes i).pid < c.nextPid
  parent : ∀ i, (c.processes i).state ≠ .free → (c.processes i).parentPid ≠ 0 →
    ∃ j, (c.processes j).state = .running ∧ (c.processes j).pid = (c.processes i).parentPid ∧
      (c.processes i).parentPid < (c.processes i).pid
  exited : ∀ i, (c.processes i).state = .exited → (c.processes i).parentPid ≠ 0
  taskId : ∀ t, (c.tasks t).state ≠ .unused → (c.tasks t).id < c.nextTaskId
  recordId : ∀ i, (c.processes i).state ≠ .free → (c.processes i).taskId < c.nextTaskId
  next : 0 < c.nextPid

section
variable {c c' : Ctl}

theorem Ctl.Pids.fresh (h : c.Pids) : c.FreshId :=
  ⟨fun t ht => (h.taskId t ht).ne, fun i hi => (h.recordId i hi).ne⟩

theorem Ctl.Pids.parent_ne_self (h : c.Pids) {i : Fin 16} (hi : (c.processes i).state ≠ .free) :
    (c.processes i).parentPid ≠ (c.processes i).pid := by
  intro he
  by_cases h0 : (c.processes i).parentPid = 0
  · exact (h.pos i hi).ne (h0.symm.trans he)
  · obtain ⟨j, -, -, hlt⟩ := h.parent i hi h0
    exact hlt.ne he

/-! ## 2. What keeps it -/

/-- Other tasks, none of them new. -/
theorem Ctl.Pids.of_tasks (h : c.Pids) (hprocs : c'.processes = c.processes)
    (hpid : c'.nextPid = c.nextPid) (hnext : c'.nextTaskId = c.nextTaskId)
    (htasks : ∀ t, (c'.tasks t).state ≠ .unused →
      (c.tasks t).state ≠ .unused ∧ (c'.tasks t).id = (c.tasks t).id) : c'.Pids where
  pids := hprocs ▸ h.pids
  pos := hprocs ▸ h.pos
  lt := by rw [hprocs, hpid]; exact h.lt
  parent := by rw [hprocs]; exact h.parent
  exited := hprocs ▸ h.exited
  taskId t ht := by
    rw [hnext, (htasks t ht).2]
    exact h.taskId t (htasks t ht).1
  recordId := by rw [hprocs, hnext]; exact h.recordId
  next := hpid ▸ h.next

/-- What may become of a record that no one is the child of, or that goes on. -/
def UserProcess.Goes (p p' : UserProcess) : Prop :=
  (p' = UserProcess.zero ∧ p.state ≠ .running) ∨
  (p'.pid = p.pid ∧ p'.taskId = p.taskId ∧ p'.parentPid = p.parentPid ∧
    (p'.state = p.state ∨ p.state ≠ .free ∧ p'.state = .running))

theorem UserProcess.Goes.used {p p' : UserProcess} (h : p.Goes p') (hp : p'.state ≠ .free) :
    p.state ≠ .free ∧ p'.pid = p.pid ∧ p'.taskId = p.taskId ∧ p'.parentPid = p.parentPid := by
  obtain ⟨rfl, -⟩ | ⟨hpid, htid, hpar, hs⟩ := h
  · exact absurd rfl hp
  · refine ⟨?_, hpid, htid, hpar⟩
    obtain hs | ⟨hs, -⟩ := hs
    · rwa [← hs]
    · exact hs

/-- Other records, none of them new. -/
theorem Ctl.Pids.of_records (h : c.Pids) (htasks : c'.tasks = c.tasks)
    (hpid : c'.nextPid = c.nextPid) (hnext : c'.nextTaskId = c.nextTaskId)
    (hps : ∀ n, (c.processes n).Goes (c'.processes n)) : c'.Pids where
  pids i j hi hj he := by
    obtain ⟨hi', hpi, -⟩ := (hps i).used hi
    obtain ⟨hj', hpj, -⟩ := (hps j).used hj
    exact h.pids i j hi' hj' (hpi.symm.trans (he.trans hpj))
  pos i hi := by
    obtain ⟨hi', hpi, -⟩ := (hps i).used hi
    rw [hpi]
    exact h.pos i hi'
  lt i hi := by
    obtain ⟨hi', hpi, -⟩ := (hps i).used hi
    rw [hpi, hpid]
    exact h.lt i hi'
  parent i hi h0 := by
    obtain ⟨hi', hpi, -, hpar⟩ := (hps i).used hi
    rw [hpar] at h0 ⊢
    obtain ⟨j, hj, hjp, hlt⟩ := h.parent i hi' h0
    obtain ⟨-, hne⟩ | ⟨hpj, -, -, hs⟩ := hps j
    · exact absurd hj hne
    · refine ⟨j, ?_, hpj.trans hjp, by rw [hpi]; exact hlt⟩
      obtain hs | ⟨-, hs⟩ := hs
      · exact hs.trans hj
      · exact hs
  exited i hi := by
    obtain ⟨hz, -⟩ | ⟨-, -, hpar, hs | ⟨-, hs⟩⟩ := hps i
    · rw [hz] at hi
      cases hi
    · rw [hpar]
      exact h.exited i (hs.symm.trans hi)
    · cases hi.symm.trans hs
  taskId := by rw [htasks, hnext]; exact h.taskId
  recordId i hi := by
    obtain ⟨hi', -, htid, -⟩ := (hps i).used hi
    rw [htid, hnext]
    exact h.recordId i hi'
  next := hpid ▸ h.next

end

section
variable {c c' : Ctl}

/-- A task with the next id. -/
theorem Ctl.Pids.addTask (h : c.Pids) (hlt : c.nextTaskId + 1 < 2 ^ 32) {j : Fin 16} {t : Task}
    (hid : t.id = c.nextTaskId) : (c.addTask j t).Pids := by
  have hnext : (c.addTask j t).nextTaskId = c.nextTaskId + 1 := by
    show (t.id + 1) % 2 ^ 32 = _
    rw [hid, Nat.mod_eq_of_lt hlt]
  exact
    { pids := h.pids
      pos := h.pos
      lt := h.lt
      parent := h.parent
      exited := h.exited
      taskId := fun u hu => by
        rw [hnext]
        by_cases huj : u = j
        · rw [huj, show (c.addTask j t).tasks j = t from Function.update_self .., hid]
          exact Nat.lt_succ_self _
        · have he : (c.addTask j t).tasks u = c.tasks u := Function.update_of_ne huj ..
          rw [he] at hu ⊢
          exact Nat.lt_succ_of_lt (h.taskId u hu)
      recordId := fun i hi => by
        rw [hnext]
        exact Nat.lt_succ_of_lt (h.recordId i hi)
      next := h.next }

/-- A record with the next pid, for a child of a process that runs or of none. -/
theorem Ctl.Pids.addProcess (h : c.Pids) (hlt : c.nextPid + 1 < 2 ^ 32) {i : Fin 16}
    {p : UserProcess} (hi : (c.processes i).state = .free) (hs : p.state = .created)
    (hpid : p.pid = c.nextPid) (htid : p.taskId < c.nextTaskId)
    (hpar : p.parentPid ≠ 0 → ∃ j, (c.processes j).state = .running ∧
      (c.processes j).pid = p.parentPid) : (c.addProcess i p).Pids := by
  have hnext : (c.addProcess i p).nextPid = c.nextPid + 1 := Nat.mod_eq_of_lt hlt
  have hself : (c.addProcess i p).processes i = p := Function.update_self ..
  have hother : ∀ n, n ≠ i → (c.addProcess i p).processes n = c.processes n := fun n hn =>
    Function.update_of_ne hn ..
  have hne : ∀ j, (c.processes j).state ≠ .free → j ≠ i := fun j hj he => hj (he ▸ hi)
  exact
    { pids := fun n m hn hm he => by
        by_cases hni : n = i
        · by_cases hmi : m = i
          · exact hni.trans hmi.symm
          · rw [hni, hself, hother m hmi, hpid] at he
            exact absurd he.symm (h.lt m (hother m hmi ▸ hm)).ne
        · by_cases hmi : m = i
          · rw [hmi, hself, hother n hni, hpid] at he
            exact absurd he (h.lt n (hother n hni ▸ hn)).ne
          · rw [hother n hni] at hn he
            rw [hother m hmi] at hm he
            exact h.pids n m hn hm he
      pos := fun n hn => by
        by_cases hni : n = i
        · rw [hni, hself, hpid]
          exact h.next
        · rw [hother n hni] at hn ⊢
          exact h.pos n hn
      lt := fun n hn => by
        rw [hnext]
        by_cases hni : n = i
        · rw [hni, hself, hpid]
          exact Nat.lt_succ_self _
        · rw [hother n hni] at hn ⊢
          exact Nat.lt_succ_of_lt (h.lt n hn)
      parent := fun n hn h0 => by
        -- the parent runs, so it is not the new record
        have hrun : ∀ j, (c.processes j).state = .running →
            (c.addProcess i p).processes j = c.processes j := fun j hj =>
          hother j (hne j (by rw [hj]; decide))
        by_cases hni : n = i
        · rw [hni, hself] at h0 ⊢
          obtain ⟨j, hj, hjp⟩ := hpar h0
          have hlt := h.lt j (by rw [hj]; decide)
          exact ⟨j, by rw [hrun j hj]; exact hj, by rw [hrun j hj]; exact hjp,
            by rw [← hjp, hpid]; exact hlt⟩
        · rw [hother n hni] at hn h0 ⊢
          obtain ⟨j, hj, hjp, hlt⟩ := h.parent n hn h0
          exact ⟨j, by rw [hrun j hj]; exact hj, by rw [hrun j hj]; exact hjp, hlt⟩
      exited := fun n hn => by
        have hni : n ≠ i := by
          rintro rfl
          rw [hself, hs] at hn
          cases hn
        rw [hother n hni] at hn ⊢
        exact h.exited n hn
      taskId := h.taskId
      recordId := fun n hn => by
        by_cases hni : n = i
        · rw [hni, hself]
          exact htid
        · rw [hother n hni] at hn ⊢
          exact h.recordId n hn
      next := hnext ▸ Nat.succ_pos _ }

theorem Ctl.Pids.skipPid (h : c.Pids) (hlt : c.nextPid + 1 < 2 ^ 32) {i : Fin 16}
    (hi : (c.processes i).state = .free) : (c.skipPid i).Pids := by
  have hnext : (c.skipPid i).nextPid = c.nextPid + 1 := Nat.mod_eq_of_lt hlt
  have hrec : Ctl.Pids { c with processes := userProcessRelease c.processes i } := by
    refine h.of_records rfl rfl rfl fun n => ?_
    by_cases hn : n = i
    · subst hn
      exact .inl ⟨Function.update_self .., by rw [hi]; decide⟩
    · show (c.processes n).Goes (userProcessRelease c.processes i n)
      rw [show userProcessRelease c.processes i n = c.processes n from Function.update_of_ne hn ..]
      exact .inr ⟨rfl, rfl, rfl, .inl rfl⟩
  exact
    { pids := hrec.pids
      pos := hrec.pos
      lt := fun n hn => by
        rw [hnext]
        exact Nat.lt_succ_of_lt (hrec.lt n hn)
      parent := hrec.parent
      exited := hrec.exited
      taskId := hrec.taskId
      recordId := hrec.recordId
      next := hnext ▸ Nat.succ_pos _ }

/-! ## 3. The exit of a process -/

theorem findByPid_some {ps : Fin 16 → UserProcess} {pid : Nat} {j : Fin 16}
    (h : userProcessFindByPid ps pid = some j) : (ps j).state ≠ .free ∧ (ps j).pid = pid :=
  find_finRange (P := fun i => (ps i).state ≠ .free ∧ (ps i).pid = pid) h

theorem findByPid_none {ps : Fin 16 → UserProcess} {pid : Nat}
    (h : userProcessFindByPid ps pid = none) (j : Fin 16) (hj : (ps j).state ≠ .free) :
    (ps j).pid ≠ pid := fun he =>
  find_finRange_none (P := fun i => (ps i).state ≠ .free ∧ (ps i).pid = pid) h j ⟨hj, he⟩

theorem Ctl.exitTable_eq {i : Fin 16} (hself : (c.processes i).parentPid ≠ (c.processes i).pid)
    (status : Nat) : c.exitTable i status = fun n =>
      if n = i then (c.processes i).exit status
      else (c.processes n).orphan (c.processes i).pid := by
  unfold Ctl.exitTable
  rw [userProcessOrphanChildren_eq (by rw [Function.update_self]; exact hself)]
  funext n
  rw [Function.update_self]
  by_cases hn : n = i
  · subst hn
    rw [if_pos rfl, Function.update_self]
    exact if_pos (.inr hself)
  · rw [if_neg hn, Function.update_of_ne hn]
    rfl

/-- **The exit of a process**: its record is kept for its parent if it has one that runs, its
    children have none from now on, and those of them that exited are released. -/
theorem Ctl.exitRecords_eq {i : Fin 16} (hi : (c.processes i).state ≠ .free)
    (hself : (c.processes i).parentPid ≠ (c.processes i).pid)
    (hpos : ∀ n, (c.processes n).state ≠ .free → (c.processes n).pid ≠ 0)
    (hparent : (c.processes i).parentPid ≠ 0 →
      ∃ j, (c.processes j).state = .running ∧ (c.processes j).pid = (c.processes i).parentPid)
    (status : Nat) : c.exitRecords i status = fun n =>
      if n = i then
        if (c.processes i).parentPid = 0 then UserProcess.zero else (c.processes i).exit status
      else (c.processes n).orphan (c.processes i).pid := by
  have htable := c.exitTable_eq hself status
  have hpar : (c.exitTable i status i).parentPid = (c.processes i).parentPid := by
    rw [htable]
    dsimp only
    rw [if_pos rfl]
    rfl
  have hpid : ∀ n, (c.exitTable i status n).state ≠ .free →
      (c.processes n).state ≠ .free ∧ (c.exitTable i status n).pid = (c.processes n).pid := by
    intro n hn
    rw [htable] at hn ⊢
    dsimp only at hn ⊢
    by_cases hni : n = i
    · rw [if_pos hni]
      exact ⟨hni ▸ hi, by rw [hni]; rfl⟩
    · rw [if_neg hni] at hn ⊢
      unfold UserProcess.orphan at hn ⊢
      split_ifs at hn ⊢ with h1 h2
      · exact ⟨hn, rfl⟩
      · exact absurd rfl hn
      · exact ⟨hn, rfl⟩
  funext n
  obtain ⟨hfind, he⟩ | ⟨j, hfind, he⟩ := c.exitRecords_cases i status
  · -- no record has the parent's pid: there is no parent
    have h0 : (c.processes i).parentPid = 0 := by
      by_contra h0
      obtain ⟨j, hj, hjp⟩ := hparent h0
      have hji : j ≠ i := by
        rintro rfl
        exact hself hjp.symm
      have hrec : (c.exitTable i status j).state = .running := by
        rw [htable]
        dsimp only
        rw [if_neg hji]
        unfold UserProcess.orphan
        split_ifs with h1 h2
        · exact hj
        · cases hj.symm.trans h2
        · exact hj
      have hfree : (c.exitTable i status j).state ≠ .free := by rw [hrec]; decide
      refine findByPid_none hfind j hfree ?_
      rw [(hpid j hfree).2, hpar, hjp]
    rw [he, h0]
    by_cases hni : n = i
    · rw [hni, if_pos rfl, if_pos rfl]
      exact Function.update_self ..
    · rw [if_neg hni, show userProcessRelease (c.exitTable i status) i n = c.exitTable i status n
        from Function.update_of_ne hni .., htable]
      exact if_neg hni
  · have h0 : (c.processes i).parentPid ≠ 0 := by
      obtain ⟨hj, hjp⟩ := findByPid_some hfind
      obtain ⟨hj', hjp'⟩ := hpid j hj
      rw [← hpar, ← hjp, hjp']
      exact hpos j hj'
    rw [he, htable, if_neg h0]

theorem Ctl.Pids.exitRecords_eq (h : c.Pids) {i : Fin 16} (hi : (c.processes i).state ≠ .free)
    (status : Nat) : c.exitRecords i status = fun n =>
      if n = i then
        if (c.processes i).parentPid = 0 then UserProcess.zero else (c.processes i).exit status
      else (c.processes n).orphan (c.processes i).pid := by
  refine c.exitRecords_eq hi (h.parent_ne_self hi) (fun n hn => (h.pos n hn).ne') (fun h0 => ?_) status
  obtain ⟨j, hj, hjp, -⟩ := h.parent i hi h0
  exact ⟨j, hj, hjp⟩

theorem UserProcess.orphan_used {pid : Nat} {p : UserProcess} (h : (p.orphan pid).state ≠ .free) :
    p.state ≠ .free ∧ (p.orphan pid).pid = p.pid ∧ (p.orphan pid).taskId = p.taskId ∧
      (p.orphan pid).state = p.state ∧
      ((p.orphan pid).parentPid ≠ 0 → (p.orphan pid).parentPid = p.parentPid ∧
        p.parentPid ≠ pid) ∧
      (p.state = .exited → (p.orphan pid).parentPid = p.parentPid) := by
  unfold UserProcess.orphan at h ⊢
  split_ifs at h ⊢ with h1 h2
  · exact ⟨h, rfl, rfl, rfl, fun _ => ⟨rfl, h1.resolve_left h⟩, fun _ => rfl⟩
  · exact absurd rfl h
  · exact ⟨fun hf => h1 (.inl hf), rfl, rfl, rfl, fun h0 => absurd rfl h0, fun he => absurd he h2⟩

theorem UserProcess.orphan_running (pid : Nat) {p : UserProcess} (h : p.state = .running) :
    (p.orphan pid).state = .running ∧ (p.orphan pid).pid = p.pid := by
  unfold UserProcess.orphan
  split_ifs with h1 h2
  · exact ⟨h, rfl⟩
  · cases h.symm.trans h2
  · exact ⟨h, rfl⟩

/-- A record that is left when the process of record `i` has ended. -/
theorem Ctl.Pids.exitRecords_used (h : c.Pids) {i : Fin 16} (hi : (c.processes i).state ≠ .free)
    (status : Nat) (n : Fin 16) (hn : (c.exitRecords i status n).state ≠ .free) :
    (c.processes n).state ≠ .free ∧ (c.exitRecords i status n).pid = (c.processes n).pid ∧
      (c.exitRecords i status n).taskId = (c.processes n).taskId ∧
      ((c.exitRecords i status n).parentPid ≠ 0 →
        (c.exitRecords i status n).parentPid = (c.processes n).parentPid ∧
          (c.processes n).parentPid ≠ (c.processes i).pid) ∧
      ((c.exitRecords i status n).state = .exited → (c.exitRecords i status n).parentPid ≠ 0) := by
  rw [h.exitRecords_eq hi] at hn ⊢
  dsimp only at hn ⊢
  by_cases hni : n = i
  · subst hni
    rw [if_pos rfl] at hn ⊢
    split_ifs at hn ⊢ with h0
    · exact absurd rfl hn
    · exact ⟨hi, rfl, rfl, fun _ => ⟨rfl, h.parent_ne_self hi⟩, fun _ => h0⟩
  · rw [if_neg hni] at hn ⊢
    obtain ⟨hfree, hpid, htid, hstate, hpar, hexit⟩ := UserProcess.orphan_used hn
    refine ⟨hfree, hpid, htid, hpar, fun he => ?_⟩
    have he := hstate.symm.trans he
    rw [hexit he]
    exact h.exited n he

/-- The exit of a process keeps the invariant. -/
theorem Ctl.Pids.exit (h : c.Pids) {i : Fin 16} (hi : (c.processes i).state ≠ .free)
    (status : Nat) : Ctl.Pids { c with processes := c.exitRecords i status } where
  pids n m hn hm he := by
    obtain ⟨hn', hpn, -⟩ := h.exitRecords_used hi status n hn
    obtain ⟨hm', hpm, -⟩ := h.exitRecords_used hi status m hm
    exact h.pids n m hn' hm' (hpn.symm.trans (he.trans hpm))
  pos n hn := by
    obtain ⟨hn', hpn, -⟩ := h.exitRecords_used hi status n hn
    exact (h.pos n hn').trans_eq hpn.symm
  lt n hn := by
    obtain ⟨hn', hpn, -⟩ := h.exitRecords_used hi status n hn
    exact hpn.trans_lt (h.lt n hn')
  parent n hn h0 := by
    obtain ⟨hn', hpn, -, hpar, -⟩ := h.exitRecords_used hi status n hn
    obtain ⟨hpe, hne⟩ := hpar h0
    have h0' : (c.processes n).parentPid ≠ 0 := hpe ▸ h0
    obtain ⟨j, hj, hjp, hlt⟩ := h.parent n hn' h0'
    -- the process that ended was not the parent, so the parent still runs
    have hji : j ≠ i := by
      rintro rfl
      exact hne hjp.symm
    have hkept : c.exitRecords i status j = (c.processes j).orphan (c.processes i).pid := by
      rw [h.exitRecords_eq hi]
      exact if_neg hji
    obtain ⟨hs, hpid⟩ := UserProcess.orphan_running (c.processes i).pid hj
    refine ⟨j, (congrArg UserProcess.state hkept).trans hs, ?_, ?_⟩
    · exact ((congrArg UserProcess.pid hkept).trans hpid).trans (hjp.trans hpe.symm)
    · exact (hpe.trans_lt hlt).trans_eq hpn.symm
  exited n hn := by
    have hn : (c.exitRecords i status n).state = .exited := hn
    obtain ⟨-, -, -, -, hexit⟩ := h.exitRecords_used hi status n (by rw [hn]; decide)
    exact hexit hn
  taskId := h.taskId
  recordId n hn := by
    obtain ⟨hn', -, htn, -⟩ := h.exitRecords_used hi status n hn
    exact htn.trans_lt (h.recordId n hn')
  next := h.next

/-! ## 4. Every step keeps it -/

theorem Ctl.Pids.reap (h : c.Pids) : c.reap.Pids :=
  h.of_tasks rfl rfl rfl fun t ht => by
    have he := Ctl.reap_used ht
    rw [he] at ht ⊢
    exact ⟨ht, rfl⟩

theorem Ctl.Pids.switchTo (h : c.Pids) {idx : Fin 16} (hidx : (c.tasks idx).state = .runnable) :
    (c.switchTo idx).Pids :=
  h.of_tasks rfl rfl rfl fun t ht => by
    obtain ⟨s, he, hrun, hother⟩ := c.switchTo_tasks idx t
    rw [he] at ht ⊢
    refine ⟨?_, rfl⟩
    by_cases hti : t = idx
    · rw [hti, hidx]
      decide
    · obtain ⟨hs, -⟩ | ⟨-, hs, -⟩ := hother hti
      · exact hs ▸ ht
      · rw [hs]
        decide

/-- The current slot changes and keeps its id. -/
theorem Ctl.Pids.setCurrent (h : c.Pids) (hr : c.Runs) {t : Task}
    (hid : t.id = (c.tasks c.currentTask).id) :
    Ctl.Pids { c with tasks := Function.update c.tasks c.currentTask t } :=
  h.of_tasks rfl rfl rfl fun u hu => by
    dsimp only at hu ⊢
    by_cases he : u = c.currentTask
    · rw [he, Function.update_self]
      exact ⟨hr.live.used, hid⟩
    · rw [Function.update_of_ne he] at hu ⊢
      exact ⟨hu, rfl⟩

theorem YieldsTo.pids (h : c.Pids) (hy : YieldsTo c c') : c'.Pids := by
  obtain ⟨idx, hn, rfl⟩ := hy
  exact h.reap.switchTo (Ctl.nextRunnable_some hn)

theorem ExitsTo.pids (h : c.Pids) (hr : c.Runs) (he : ExitsTo c c') : c'.Pids := by
  have hz : c.zombify.Pids := h.setCurrent hr rfl
  exact he.2.pids hz

theorem Ctl.Pids.release (h : c.Pids) {i : Fin 16} (hi : (c.processes i).state ≠ .running) :
    Ctl.Pids { c with processes := userProcessRelease c.processes i } :=
  h.of_records rfl rfl rfl fun n => by
    dsimp only [userProcessRelease]
    by_cases hn : n = i
    · rw [hn, Function.update_self]
      exact .inl ⟨rfl, hi⟩
    · rw [Function.update_of_ne hn]
      exact .inr ⟨rfl, rfl, rfl, .inl rfl⟩

/-- The parent that `user_spawn` enters runs, if it is one. -/
theorem Ctl.Inv.callerPid (h : c.Inv) (hr : c.Runs) (hcont : c.cont = .kernel ∨ c.cont = .user)
    (h0 : c.callerPid ≠ 0) :
    ∃ j, (c.processes j).state = .running ∧ (c.processes j).pid = c.callerPid := by
  unfold Ctl.callerPid at h0 ⊢
  cases hc : c.caller with
  | none =>
    rw [hc] at h0
    exact absurd rfl h0
  | some j =>
    obtain ⟨hj, hid⟩ := Ctl.caller_some hc
    obtain ⟨-, ⟨-, hs⟩ | ⟨hs, -⟩⟩ := h.record hr.live hj hid
    · have hcont : (c.tasks c.currentTask).cont = .kernel ∨ (c.tasks c.currentTask).cont = .user :=
        hcont
      rw [hs] at hcont
      rcases hcont with hcont | hcont <;> cases hcont
    · exact ⟨j, hs, rfl⟩

theorem Ctl.Pids.spawn (h : c.Inv) (hr : c.Runs) (hp : c.Pids) (hpid : c.nextPid + 1 < 2 ^ 32)
    (htid : c.nextTaskId + 1 < 2 ^ 32) (hcont : c.cont = .kernel ∨ c.cont = .user) {i j : Fin 16}
    {t : Task} {path : List Byte} {d : Nat} (hi : userProcessAlloc c.processes = some i)
    (ht : t.id = c.nextTaskId) (hid : 0 ≤ toInt32 c.nextTaskId) :
    ((c.addProcess i (c.spawned path d)).reap.addTask j t).Pids := by
  have htaskId : (c.spawned path d).taskId = c.nextTaskId := toInt32_toNat h.nextTaskId hid
  have hnext : (c.reap.addTask j t).nextTaskId = c.nextTaskId + 1 := by
    show (t.id + 1) % 2 ^ 32 = _
    rw [ht, Nat.mod_eq_of_lt htid]
  change ((c.reap.addTask j t).addProcess i (c.spawned path d)).Pids
  refine (hp.reap.addTask htid ht).addProcess hpid (userProcessAlloc_some hi) rfl rfl ?_ ?_
  · rw [htaskId, hnext]
    exact Nat.lt_succ_self _
  · exact h.callerPid hr hcont

/-- **A step keeps the invariant**, as long as the counters do not wrap. -/
theorem CtlStep.pids (h : c.Inv) (hr : c.Runs) (hp : c.Pids) (hpid : c.nextPid + 1 < 2 ^ 32)
    (htid : c.nextTaskId + 1 < 2 ^ 32) {op : Op} {r : Option Int} (hop : op.Legal c)
    (hs : CtlStep c op r c') : c'.Pids := by
  cases hs with
  | spawnRefused path => exact hp
  | spawnNoDirectory path i hi => exact hp.skipPid hpid (userProcessAlloc_some hi)
  | spawnNoTask path i hi => exact (hp.skipPid hpid (userProcessAlloc_some hi)).reap
  | spawnBadId path i j t hi ht hid =>
    exact (hp.skipPid hpid (userProcessAlloc_some hi)).reap.addTask htid ht.id
  | spawn path i j t d hi ht hid => exact hp.spawn h hr hpid htid hop hi ht.id hid
  | createFails => exact hp.reap
  | create j t ht => exact hp.reap.addTask htid ht.id
  | yieldStays hn => exact hp.reap
  | yield _ hy => exact hy.pids hp
  | startThread he => exact hp.setCurrent hr rfl
  | startNoRecord _ he hc hx => exact hx.pids hp hr
  | startFails i _ he hc hx =>
    -- the record never ran, so it has no children
    obtain ⟨hi, hid⟩ := Ctl.caller_some hc
    refine hx.pids (hp.release ?_) hr
    obtain ⟨-, ⟨hs, -⟩ | ⟨-, hs⟩⟩ := h.record hr.live hi hid
    · rw [hs]
      decide
    · have hstart : (c.tasks c.currentTask).cont = .start := hop
      rw [hstart] at hs
      obtain hs | ⟨pid, hs⟩ := hs <;> cases hs
  | start i p he hc hload h0 =>
    have hcur : Ctl.Pids { c with tasks := (c.enter i p).tasks } := hp.setCurrent hr rfl
    refine hcur.of_records rfl rfl rfl fun n => ?_
    by_cases hn : n = i
    · subst hn
      rw [show (c.enter n p).processes n = { p with state := .running } from
        Function.update_self ..]
      exact .inr ⟨hload.pid, hload.taskId, hload.parentPid, .inr ⟨(Ctl.caller_some hc).1, rfl⟩⟩
    · rw [show (c.enter i p).processes n = c.processes n from Function.update_of_ne hn ..]
      exact .inr ⟨rfl, rfl, rfl, .inl rfl⟩
  | waitNoCaller pid hc => exact hp
  | waitReturns op i pid r ps hw hturn =>
    have hcur : (c.setCont .user).Pids := hp.setCurrent hr rfl
    obtain ⟨-, rfl⟩ | ⟨j, -, -, hj, -, rfl⟩ := waitTurn_some hturn
    · exact hcur
    · exact hcur.release (i := j) (by
        rw [show ((c.setCont .user).processes j).state = .exited from hj]; decide)
  | waitYields op i pid _ hw hturn hy =>
    have hcur : (c.setCont (.waiting i pid)).Pids := hp.setCurrent hr rfl
    exact hy.pids hcur
  | exitNoRecord status _ hc hx => exact hx.pids hp hr
  | exit status i _ hc hx => exact hx.pids (hp.exit (Ctl.caller_some hc).1 status) (hr.records _)
  | threadExit _ hx => exact hx.pids hp hr
  | store v b => exact hp

/-- The counters go up by one at most, and only in a step that creates. -/
theorem CtlStep.counters {op : Op} {r : Option Int} (hs : CtlStep c op r c') :
    (c'.nextPid = c.nextPid ∨ op.creates = true ∧ c'.nextPid = (c.nextPid + 1) % 2 ^ 32) ∧
      (c'.nextTaskId = c.nextTaskId ∨
        op.creates = true ∧ c'.nextTaskId = (c.nextTaskId + 1) % 2 ^ 32) := by
  cases hs with
  | spawnRefused path => exact ⟨.inl rfl, .inl rfl⟩
  | spawnNoDirectory path i hi => exact ⟨.inr ⟨rfl, rfl⟩, .inl rfl⟩
  | spawnNoTask path i hi => exact ⟨.inr ⟨rfl, rfl⟩, .inl rfl⟩
  | spawnBadId path i j t hi ht hid => exact ⟨.inr ⟨rfl, rfl⟩, .inr ⟨rfl, by rw [← ht.id]; rfl⟩⟩
  | spawn path i j t d hi ht hid => exact ⟨.inr ⟨rfl, rfl⟩, .inr ⟨rfl, by rw [← ht.id]; rfl⟩⟩
  | create j t ht => exact ⟨.inl rfl, .inr ⟨rfl, by rw [← ht.id]; rfl⟩⟩
  | yield _ hy =>
    obtain ⟨idx, -, rfl⟩ := hy
    exact ⟨.inl rfl, .inl rfl⟩
  | startNoRecord _ he hc hx =>
    obtain ⟨-, idx, -, rfl⟩ := hx
    exact ⟨.inl rfl, .inl rfl⟩
  | startFails i _ he hc hx =>
    obtain ⟨-, idx, -, rfl⟩ := hx
    exact ⟨.inl rfl, .inl rfl⟩
  | waitYields op i pid _ hw hturn hy =>
    obtain ⟨idx, -, rfl⟩ := hy
    exact ⟨.inl rfl, .inl rfl⟩
  | exitNoRecord status _ hc hx =>
    obtain ⟨-, idx, -, rfl⟩ := hx
    exact ⟨.inl rfl, .inl rfl⟩
  | exit status i _ hc hx =>
    obtain ⟨-, idx, -, rfl⟩ := hx
    exact ⟨.inl rfl, .inl rfl⟩
  | threadExit _ hx =>
    obtain ⟨-, idx, -, rfl⟩ := hx
    exact ⟨.inl rfl, .inl rfl⟩
  | _ => exact ⟨.inl rfl, .inl rfl⟩

end

/-! ## 5. Runs -/

/-- What holds of the tables between two steps. -/
structure Ctl.Sound (c : Ctl) : Prop where
  inv : c.Inv
  runs : c.Runs
  pids : c.Pids

theorem schedInit_sound (mm : Mm) (bm : BootModule) (tr esp0 : Nat) :
    (schedInit mm bm tr esp0).toCtl.Sound where
  inv := (schedInit_inv mm bm tr esp0).1
  runs := (schedInit_inv mm bm tr esp0).2
  pids :=
    { pids := fun i _ hi => absurd rfl hi
      pos := fun i hi => absurd rfl hi
      lt := fun i hi => absurd rfl hi
      parent := fun i hi => absurd rfl hi
      exited := fun i hi => by cases hi
      taskId := fun t ht => by
        by_cases h0 : t = 0
        · rw [h0]
          exact Nat.one_pos
        · rw [show (schedInit mm bm tr esp0).tasks t = Task.empty from if_neg h0] at ht
          exact absurd rfl ht
      recordId := fun i hi => absurd rfl hi
      next := Nat.one_pos }

/-- **A step of the kernel keeps the tables sound**, as long as the counters do not wrap. -/
theorem Ctl.Sound.exec {k k' : Kernel} {op : Op} {r : Option Int} (h : k.toCtl.Sound)
    (hpid : k.nextPid + 1 < 2 ^ 32) (htid : k.nextTaskId + 1 < 2 ^ 32)
    (hop : op.Legal k.toCtl) (he : k.exec op = .ok (r, k')) : k'.toCtl.Sound := by
  have hs := exec_ctl hop he
  obtain ⟨hinv, hruns⟩ := hs.inv h.inv h.runs hop fun _ => h.pids.fresh
  exact ⟨hinv, hruns, hs.pids h.inv h.runs h.pids hpid htid hop⟩

/-- The counters of the state after a step are at most `n`. -/
def CountersUpTo (n : Nat) (_ : Kernel) (_ : Op) (k' : Kernel) : Prop :=
  k'.nextPid ≤ n ∧ k'.nextTaskId ≤ n

theorem KRun.sound {mm : Mm} {bm : BootModule} {tr esp0 : Nat} {ops : List Op} {k : Kernel}
    (h : KRun (CountersUpTo (2 ^ 31 - 1)) (schedInit mm bm tr esp0) ops k) :
    k.toCtl.Sound ∧ k.nextPid ≤ 2 ^ 31 - 1 ∧ k.nextTaskId ≤ 2 ^ 31 - 1 := by
  induction h with
  | boot => exact ⟨schedInit_sound mm bm tr esp0, by show 1 ≤ _; decide, by show 1 ≤ _; decide⟩
  | step _ hop hC he ih =>
    obtain ⟨hk, hp, ht⟩ := ih
    exact ⟨hk.exec (by omega) (by omega) hop he, hC⟩

/-- `i` may wait for `j`: the record of `i` is that of the parent of `j`. -/
def Ctl.WaitsFor (c : Ctl) (i j : Fin 16) : Prop :=
  (c.processes i).state ≠ .free ∧ (c.processes j).state ≠ .free ∧
    (c.processes j).parentPid = (c.processes i).pid

/-- **The process table.** -/
structure ProcessTable (c : Ctl) : Prop where
  pids : ∀ i j, (c.processes i).state ≠ .free → (c.processes j).state ≠ .free →
    (c.processes i).pid = (c.processes j).pid → i = j
  pid_ne_zero : ∀ i, (c.processes i).state ≠ .free → (c.processes i).pid ≠ 0
  taskIds : ∀ i j, (c.processes i).state ≠ .free → (c.processes j).state ≠ .free →
    (c.processes i).taskId = (c.processes j).taskId → i = j
  task : ∀ i, (c.processes i).state = .created ∨ (c.processes i).state = .running →
    ∃ t, ((c.tasks t).state = .runnable ∨ (c.tasks t).state = .running) ∧
      (c.tasks t).id = (c.processes i).taskId ∧
      ∀ u, (c.tasks u).state ≠ .unused → (c.tasks u).id = (c.processes i).taskId → u = t
  parent : ∀ i, (c.processes i).parentPid = 0 ∨
    ∃ j, (c.processes j).state ≠ .free ∧ (c.processes j).state ≠ .exited ∧
      (c.processes j).pid = (c.processes i).parentPid ∧
      (c.processes i).parentPid < (c.processes i).pid
  acyclic : ∀ i, ¬ Relation.TransGen c.WaitsFor i i
  exited : ∀ i, (c.processes i).state = .exited → (c.processes i).parentPid ≠ 0

/-- A parent's pid is smaller, along any chain of parents. -/
theorem Ctl.Pids.waitsFor_lt {c : Ctl} (h : c.Pids) {i j : Fin 16}
    (hw : Relation.TransGen c.WaitsFor i j) : (c.processes i).pid < (c.processes j).pid := by
  have hstep : ∀ i j, c.WaitsFor i j → (c.processes i).pid < (c.processes j).pid := by
    rintro i j ⟨hi, hj, hp⟩
    obtain ⟨-, -, -, hlt⟩ := h.parent j hj (hp ▸ (h.pos i hi).ne')
    exact hp ▸ hlt
  induction hw with
  | single hw => exact hstep _ _ hw
  | tail _ hw ih => exact ih.trans (hstep _ _ hw)

theorem Ctl.Sound.processTable {c : Ctl} (h : c.Sound) : ProcessTable c where
  pids := h.pids.pids
  pid_ne_zero i hi := (h.pids.pos i hi).ne'
  taskIds := h.inv.recordIds
  task i hi := by
    have hhost : ∃ t, c.Hosts t i := by
      rcases hi with hi | hi
      · obtain ⟨t, ht, -⟩ := h.inv.created i hi
        exact ⟨t, ht⟩
      · obtain ⟨t, ht, -⟩ := h.inv.running i hi
        exact ⟨t, ht⟩
    obtain ⟨t, ht⟩ := hhost
    exact ⟨t, ht.live, ht.id, fun u hu hid =>
      h.inv.taskIds u t hu ht.live.used (hid.trans ht.id.symm)⟩
  parent i := by
    by_cases hi : (c.processes i).state = .free
    · rw [h.inv.free i hi]
      exact .inl rfl
    · by_cases h0 : (c.processes i).parentPid = 0
      · exact .inl h0
      · obtain ⟨j, hj, hp, hlt⟩ := h.pids.parent i hi h0
        exact .inr ⟨j, by rw [hj]; decide, by rw [hj]; decide, hp, hlt⟩
  acyclic i hi := (h.pids.waitsFor_lt hi).false
  exited := h.pids.exited

end Emyx
