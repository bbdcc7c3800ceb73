/-
  File:      Emyx/Kernel/ExitStatus.lean
  Subject:   THE EXIT STATUS OF A PROCESS: delivered to the parent, and to it once.

  `user_wait` looks the child up again after every yield, and in between other processes spawn,
  fail, exit and take over slots. What makes this safe is that a pid is never handed out twice
  while the counter does not wrap: a pid that is gone stays gone (`CtlStep.gone`), and the record
  of a process that exited is touched by its parent only (`CtlStep.keeps_exited`).

  * `exec_wait` -- a wait that can end does end, with what `waitTurn` says;
  * `KRun.keeps` -- what every step keeps, a run with fewer than 2³¹ spawns keeps;
  * `Ctl.Sound.wait_other`, `.wait_parent`, `.wait_gone` -- what a wait returns, to whom.
-/
import Emyx.Kernel.ProcessTable

namespace Emyx

open Lib

/-! ## 1. Waiting -/

/-- The step is a call of `user_wait(pid)`, or goes on in one. -/
def Op.WaitsOn (c : Ctl) (pid : Nat) : Op → Prop
  | .wait p => p = pid
  | .resume => ∃ i, c.cont = .waiting i pid
  | _ => False

section
variable {c c' : Ctl}

theorem waitsOn_of_waiter {op : Op} {i : Fin 16} {pid : Nat} (h : op.waiter c = some (i, pid)) :
    op.WaitsOn c pid := by
  cases op with
  | wait p =>
    obtain ⟨j, -, he⟩ := Option.map_eq_some_iff.mp h
    cases he
    rfl
  | resume =>
    unfold Op.waiter at h
    dsimp only at h
    split at h
    · cases h
      exact ⟨i, by assumption⟩
    · cases h
  | _ => cases h

theorem Ctl.Sound.waiter (h : c.Sound) {op : Op} {pid : Nat} (hop : op.Legal c)
    (hw : op.WaitsOn c pid) : ∃ i, op.waiter c = some (i, pid) ∧ c.caller = some i ∧
      (c.processes i).state = .running := by
  cases op with
  | wait p =>
    cases hw
    obtain ⟨i, hc, hs, -⟩ := h.inv.caller_user h.runs (.inl hop.1)
    exact ⟨i, by simp [Op.waiter, hc], hc, hs⟩
  | resume =>
    obtain ⟨i, hc⟩ := hw
    have hw : Op.resume.waiter c = some (i, pid) := by simp [Op.waiter, hc]
    obtain ⟨hcaller, hs⟩ := h.inv.waiter h.runs hop hw
    exact ⟨i, hw, hcaller, hs⟩
  | _ => cases hw

theorem Ctl.callerPid_of {i : Fin 16} (h : c.caller = some i) : c.callerPid = (c.processes i).pid := by
  unfold Ctl.callerPid
  rw [h]

/-- The record of a pid is the one that is found. -/
theorem Ctl.Pids.findByPid (h : c.Pids) {i : Fin 16} (hi : (c.processes i).state ≠ .free) :
    userProcessFindByPid c.processes (c.processes i).pid = some i := by
  cases hf : userProcessFindByPid c.processes (c.processes i).pid with
  | none => exact absurd rfl (findByPid_none hf i hi)
  | some j =>
    obtain ⟨hj, he⟩ := findByPid_some hf
    rw [h.pids j i hj hi he]

end

/-- **A wait that can end ends**: the kernel returns what the turn of the loop gives. -/
theorem exec_wait {k : Kernel} {op : Op} {i : Fin 16} {pid : Nat} {r : Int}
    {ps : Fin 16 → UserProcess} (hw : op.waiter k.toCtl = some (i, pid))
    (ht : waitTurn k.processes i pid = some (r, ps)) :
    k.exec op = .ok (some r, { k with toCtl := { k.setCont .user with processes := ps } }) := by
  have hloop : waitLoop k i pid =
      .ok (some r, { k with toCtl := { k.setCont .user with processes := ps } }) := by
    unfold waitLoop
    rw [ht]
    rfl
  cases op with
  | wait p =>
    obtain ⟨j, hc, he⟩ := Option.map_eq_some_iff.mp hw
    cases he
    show userWait k pid = _
    unfold userWait
    rw [Ctl.caller_eq, hc]
    exact hloop
  | resume =>
    unfold Op.waiter at hw
    dsimp only at hw
    cases hc : k.cont with
    | waiting j p =>
      rw [hc] at hw
      cases hw
      unfold Kernel.exec
      dsimp only
      rw [hc]
      exact hloop
    | _ =>
      rw [hc] at hw
      cases hw
  | _ => cases hw

/-! ## 2. Pids that are gone, and records that are kept -/

/-- No record has the pid, and none will get it. -/
def Ctl.Gone (c : Ctl) (pid : Nat) : Prop :=
  pid < c.nextPid ∧ ∀ i, (c.processes i).state ≠ .free → (c.processes i).pid ≠ pid

/-- What a step does to the records. -/
inductive RecordStep (c : Ctl) : Op → Option Int → (Fin 16 → UserProcess) → Prop where
  | same (op r) : RecordStep c op r c.processes
  | skipped (path r i) (hi : userProcessAlloc c.processes = some i) :
    RecordStep c (.spawn path) r (userProcessRelease c.processes i)
  | spawned (path r i p) (hi : userProcessAlloc c.processes = some i) (hp : p.pid = c.nextPid) :
    RecordStep c (.spawn path) r (Function.update c.processes i p)
  | failed (i) (hc : c.caller = some i) :
    RecordStep c .start none (userProcessRelease c.processes i)
  | entered (i p) (hc : c.caller = some i) (hp : (c.processes i).SameButLoaded p) :
    RecordStep c .start none (Function.update c.processes i { p with state := .running })
  | collected (op i pid j) (hw : op.waiter c = some (i, pid))
    (hj : userProcessFindByPid c.processes pid = some j)
    (hp : (c.processes j).parentPid = (c.processes i).pid)
    (hs : (c.processes j).state = .exited) :
    RecordStep c op (some (toInt32 (c.processes j).exitStatus)) (userProcessRelease c.processes j)
  | exited (status i) (hc : c.caller = some i) :
    RecordStep c (.exit status) none (c.exitRecords i status)

theorem YieldsTo.processes {c c' : Ctl} (h : YieldsTo c c') : c'.processes = c.processes := by
  obtain ⟨idx, -, rfl⟩ := h
  rfl

theorem ExitsTo.processes {c c' : Ctl} (h : ExitsTo c c') : c'.processes = c.processes := by
  obtain ⟨-, idx, -, rfl⟩ := h
  rfl

theorem CtlStep.records {c c' : Ctl} {op : Op} {r : Option Int} (hs : CtlStep c op r c') :
    RecordStep c op r c'.processes := by
  cases hs with
  | spawnNoDirectory path i hi => exact .skipped path _ i hi
  | spawnNoTask path i hi => exact .skipped path _ i hi
  | spawnBadId path i j t hi ht hid => exact .skipped path _ i hi
  | spawn path i j t d hi ht hid => exact .spawned _ _ i _ hi rfl
  | yield _ hy =>
    rw [hy.processes]
    exact .same _ _
  | startNoRecord _ he hc hx =>
    rw [hx.processes]
    exact .same _ _
  | startFails i _ he hc hx =>
    rw [hx.processes]
    exact .failed i hc
  | start i p he hc hp h0 => exact .entered i p hc hp
  | waitReturns op i pid r ps hw hturn =>
    obtain ⟨-, rfl⟩ | ⟨j, hj, hp, hs, rfl, rfl⟩ := waitTurn_some hturn
    · exact .same _ _
    · exact .collected op i pid j hw hj hp hs
  | waitYields op i pid _ hw hturn hy =>
    rw [hy.processes]
    exact .same _ _
  | exitNoRecord status _ hc hx =>
    rw [hx.processes]
    exact .same _ _
  | exit status i _ hc hx =>
    rw [hx.processes]
    dsimp only
    exact .exited status i hc
  | threadExit _ hx =>
    rw [hx.processes]
    exact .same _ _
  | _ => exact .same _ _

section
variable {c c' : Ctl} {op : Op} {r : Option Int}

theorem release_used {ps : Fin 16 → UserProcess} {i n : Fin 16}
    (h : (userProcessRelease ps i n).state ≠ .free) : n ≠ i ∧ userProcessRelease ps i n = ps n := by
  by_cases hn : n = i
  · rw [hn, show userProcessRelease ps i i = UserProcess.zero from Function.update_self ..] at h
    exact absurd rfl h
  · exact ⟨hn, Function.update_of_ne hn ..⟩

/-- A record after a step had its pid before, or got the next one. -/
theorem RecordStep.pid {ps : Fin 16 → UserProcess} (hc : c.Sound) (h : RecordStep c op r ps)
    (n : Fin 16) (hn : (ps n).state ≠ .free) :
    ((c.processes n).state ≠ .free ∧ (ps n).pid = (c.processes n).pid) ∨
      (op.creates = true ∧ (ps n).pid = c.nextPid) := by
  cases h with
  | same => exact .inl ⟨hn, rfl⟩
  | skipped path _ i hi =>
    obtain ⟨-, he⟩ := release_used hn
    exact .inl (by rw [he] at hn ⊢; exact ⟨hn, rfl⟩)
  | spawned path _ i p hi hp =>
    by_cases hni : n = i
    · rw [hni, Function.update_self]
      exact .inr ⟨rfl, hp⟩
    · rw [Function.update_of_ne hni] at hn ⊢
      exact .inl ⟨hn, rfl⟩
  | failed i hc =>
    obtain ⟨-, he⟩ := release_used hn
    exact .inl (by rw [he] at hn ⊢; exact ⟨hn, rfl⟩)
  | entered i p hc hp =>
    by_cases hni : n = i
    · rw [hni, Function.update_self]
      exact .inl ⟨(Ctl.caller_some hc).1, hp.pid⟩
    · rw [Function.update_of_ne hni] at hn ⊢
      exact .inl ⟨hn, rfl⟩
  | collected i pid j hw hj hp hs =>
    obtain ⟨-, he⟩ := release_used hn
    exact .inl (by rw [he] at hn ⊢; exact ⟨hn, rfl⟩)
  | exited status i hcaller =>
    obtain ⟨hn', hp, -⟩ := hc.pids.exitRecords_used (Ctl.caller_some hcaller).1 status n hn
    exact .inl ⟨hn', hp⟩

/-- **A pid that is gone stays gone.** -/
theorem CtlStep.gone (hc : c.Sound) (hlt : c.nextPid + 1 < 2 ^ 32) (hs : CtlStep c op r c')
    {pid : Nat} (hg : c.Gone pid) : c'.Gone pid := by
  refine ⟨?_, fun n hn => ?_⟩
  · obtain he | ⟨-, he⟩ := hs.counters.1
    · rw [he]
      exact hg.1
    · rw [he, Nat.mod_eq_of_lt hlt]
      exact Nat.lt_succ_of_lt hg.1
  · obtain ⟨hn', hp⟩ | ⟨-, hp⟩ := hs.records.pid hc n hn
    · rw [hp]
      exact hg.2 n hn'
    · rw [hp]
      exact hg.1.ne'

/-- **The record of a process that exited is kept**, in a step in which its parent does not wait
    for it and does not exit. -/
theorem CtlStep.keeps_exited (hc : c.Sound) (hop : op.Legal c) (hs : CtlStep c op r c') {n : Fin 16}
    (hn : (c.processes n).state = .exited)
    (hparent : c.callerPid = (c.processes n).parentPid →
      ¬ op.WaitsOn c (c.processes n).pid ∧ ∀ s, op ≠ .exit s) :
    c'.processes n = c.processes n := by
  have hfree : (c.processes n).state ≠ .free := by rw [hn]; decide
  -- the record of the current task has not exited
  have hcaller : ∀ i, c.caller = some i → n ≠ i := by
    rintro i hi rfl
    obtain ⟨-, hid⟩ := Ctl.caller_some hi
    exact hc.inv.exited n hn _ hc.runs.live hid.symm
  have hrec := hs.records
  generalize c'.processes = ps at hrec
  cases hrec with
  | same => rfl
  | skipped path _ i hi =>
    refine Function.update_of_ne ?_ ..
    rintro rfl
    exact hfree (userProcessAlloc_some hi)
  | spawned path _ i p hi hp =>
    refine Function.update_of_ne ?_ ..
    rintro rfl
    exact hfree (userProcessAlloc_some hi)
  | failed i hi => exact Function.update_of_ne (hcaller i hi) ..
  | entered i p hi hp => exact Function.update_of_ne (hcaller i hi) ..
  | collected _ i pid j hw hj hp =>
    refine Function.update_of_ne ?_ ..
    rintro rfl
    obtain ⟨-, hpid⟩ := findByPid_some hj
    obtain ⟨hi, -⟩ := hc.inv.waiter hc.runs hop hw
    refine (hparent ?_).1 ?_
    · rw [Ctl.callerPid_of hi, hp]
    · rw [hpid]
      exact waitsOn_of_waiter hw
  | exited status i hi =>
    rw [hc.pids.exitRecords_eq (Ctl.caller_some hi).1]
    dsimp only
    rw [if_neg (hcaller i hi)]
    refine if_pos (.inr fun hp => ?_)
    exact (hparent ((Ctl.callerPid_of hi).trans hp.symm)).2 status rfl

end

/-! ## 3. Runs with a bounded number of spawns -/

/-- The steps that create a task. -/
def creations (ops : List Op) : Nat := ops.countP Op.creates

theorem creations_append (ops ops' : List Op) :
    creations (ops ++ ops') = creations ops + creations ops' := List.countP_append

/-- The tables are sound and at most `n` tasks or processes were created. -/
structure Counted (n : Nat) (c : Ctl) : Prop where
  sound : c.Sound
  pid : c.nextPid ≤ n + 1
  taskId : c.nextTaskId ≤ n + 1

theorem counted_schedInit (mm : Mm) (bm : BootModule) (tr esp0 : Nat) :
    Counted 0 (schedInit mm bm tr esp0).toCtl :=
  ⟨schedInit_sound mm bm tr esp0, Nat.le_refl 1, Nat.le_refl 1⟩

theorem Counted.exec {k k' : Kernel} {op : Op} {r : Option Int} {n : Nat}
    (h : Counted n k.toCtl) (hn : n < 2 ^ 31) (hop : op.Legal k.toCtl)
    (he : k.exec op = .ok (r, k')) : Counted (n + creations [op]) k'.toCtl := by
  have hp := h.pid
  have ht := h.taskId
  have hone : op.creates = true → creations [op] = 1 := fun hc => by simp [creations, hc]
  have hcount := (exec_ctl hop he).counters
  refine ⟨h.sound.exec (by omega) (by omega) hop he, ?_, ?_⟩
  · obtain hc | ⟨hc, he⟩ := hcount.1
    · omega
    · rw [he, Nat.mod_eq_of_lt (by omega), hone hc]
      omega
  · obtain hc | ⟨hc, he⟩ := hcount.2
    · omega
    · rw [he, Nat.mod_eq_of_lt (by omega), hone hc]
      omega

theorem KRun.counted {C : Kernel → Op → Kernel → Prop} {k₀ k : Kernel} {ops : List Op} {n : Nat}
    (h : KRun C k₀ ops k) (h₀ : Counted n k₀.toCtl) (hn : n + creations ops < 2 ^ 31) :
    Counted (n + creations ops) k.toCtl := by
  induction h with
  | boot => exact h₀
  | step _ hop _ he ih =>
    rw [creations_append] at hn ⊢
    rw [← Nat.add_assoc]
    exact (ih (by omega)).exec (by omega) hop he

/-- The induction over a run of at most 2³¹ - 1 creations: what a step keeps holds at its end. -/
theorem KRun.keeps {C : Kernel → Op → Kernel → Prop} {k₀ k : Kernel} {ops : List Op} {n : Nat}
    {P : Ctl → Prop} (h : KRun C k₀ ops k) (h₀ : Counted n k₀.toCtl)
    (hn : n + creations ops < 2 ^ 31) (hP : P k₀.toCtl)
    (hstep : ∀ k k' op r, k.toCtl.Sound → k.nextPid + 1 < 2 ^ 32 → op.Legal k.toCtl →
      C k op k' → CtlStep k.toCtl op r k'.toCtl → P k.toCtl → P k'.toCtl) : P k.toCtl := by
  induction h with
  | boot => exact hP
  | @step ops k k' op r hrun hop hC he ih =>
    rw [creations_append] at hn
    have hk := hrun.counted h₀ (by omega)
    have hp := hk.pid
    exact hstep k k' op r hk.sound (by omega) hop hC (exec_ctl hop he) (ih (by omega))

/-! ## 4. The status -/

/-- The process `q` does not wait for `pid` in this step and does not exit. -/
def LeavesAlone (q pid : Nat) (k : Kernel) (op : Op) (_ : Kernel) : Prop :=
  k.callerPid = q → ¬ op.WaitsOn k.toCtl pid ∧ ∀ s, op ≠ .exit s

/-- The wait of a caller that is not the parent. -/
theorem Ctl.Sound.wait_other {k : Kernel} (h : k.toCtl.Sound) {i : Fin 16} {op : Op}
    (hi : (k.processes i).state ≠ .free) (hop : op.Legal k.toCtl)
    (hw : op.WaitsOn k.toCtl (k.processes i).pid)
    (hc : k.callerPid ≠ (k.processes i).parentPid) :
    ∃ k', k.exec op = .ok (some (-1), k') ∧ k'.processes = k.processes := by
  obtain ⟨w, hw, hcaller, -⟩ := h.waiter hop hw
  rw [Ctl.callerPid_of hcaller] at hc
  have ht : waitTurn k.processes w (k.processes i).pid = some (-1, k.processes) := by
    unfold waitTurn
    rw [h.pids.findByPid hi]
    exact if_pos hc.symm
  exact ⟨_, exec_wait hw ht, rfl⟩

/-- The wait of the parent for a child that exited. -/
theorem Ctl.Sound.wait_parent {k : Kernel} (h : k.toCtl.Sound) {i : Fin 16} {op : Op}
    (hi : (k.processes i).state = .exited) (hop : op.Legal k.toCtl)
    (hw : op.WaitsOn k.toCtl (k.processes i).pid)
    (hc : k.callerPid = (k.processes i).parentPid) :
    ∃ k', k.exec op = .ok (some (toInt32 (k.processes i).exitStatus), k') ∧
      k'.processes = userProcessRelease k.processes i ∧ k'.nextPid = k.nextPid := by
  obtain ⟨w, hw, hcaller, -⟩ := h.waiter hop hw
  rw [Ctl.callerPid_of hcaller] at hc
  have ht : waitTurn k.processes w (k.processes i).pid =
      some (toInt32 (k.processes i).exitStatus, userProcessRelease k.processes i) := by
    unfold waitTurn
    rw [h.pids.findByPid (by rw [hi]; decide)]
    dsimp only
    rw [if_neg (not_not.mpr hc.symm), if_pos hi]
  exact ⟨_, exec_wait hw ht, rfl, rfl⟩

/-- The wait for a pid that is gone. -/
theorem Ctl.Sound.wait_gone {k : Kernel} (h : k.toCtl.Sound) {pid : Nat} {op : Op}
    (hg : k.toCtl.Gone pid) (hop : op.Legal k.toCtl) (hw : op.WaitsOn k.toCtl pid) :
    ∃ k', k.exec op = .ok (some (-1), k') := by
  obtain ⟨w, hw, -⟩ := h.waiter hop hw
  have ht : waitTurn k.processes w pid = some (-1, k.processes) := by
    unfold waitTurn
    cases hf : userProcessFindByPid k.processes pid with
    | none => rfl
    | some j =>
      obtain ⟨hj, he⟩ := findByPid_some hf
      exact absurd he (hg.2 j hj)
  exact ⟨_, exec_wait hw ht⟩

/-- The record of a process that exits while it has a parent. -/
theorem Ctl.Sound.exits {k k' : Kernel} (h : k.toCtl.Sound) {i j : Fin 16} {s : Nat}
    {r : Option Int} (hop : (Op.exit s).Legal k.toCtl) (hc : k.caller = some i)
    (hj : userProcessFindByPid k.processes (k.processes i).parentPid = some j)
    (he : k.exec (.exit s) = .ok (r, k')) : k'.processes i = (k.processes i).exit s := by
  have h0 : (k.processes i).parentPid ≠ 0 := by
    obtain ⟨hfree, hpid⟩ := findByPid_some hj
    rw [← hpid]
    exact (h.pids.pos j hfree).ne'
  have hstep := exec_ctl hop he
  generalize k'.toCtl = c' at hstep
  cases hstep with
  | exitNoRecord _ _ hnone => cases hc.symm.trans hnone
  | exit _ n _ hn hx =>
    cases hc.symm.trans hn
    rw [hx.processes]
    dsimp only
    rw [h.pids.exitRecords_eq (Ctl.caller_some hc).1]
    dsimp only
    rw [if_pos rfl, if_neg h0]
  | waitReturns _ _ _ _ _ hw => cases hw
  | waitYields _ _ _ _ hw => cases hw

/-- After the record of `i` was released, its pid is gone. -/
theorem Ctl.Sound.gone_released {c c' : Ctl} (h : c.Sound) {i : Fin 16}
    (hi : (c.processes i).state ≠ .free) (hps : c'.processes = userProcessRelease c.processes i)
    (hpid : c'.nextPid = c.nextPid) : c'.Gone (c.processes i).pid := by
  refine ⟨by rw [hpid]; exact h.pids.lt i hi, fun n hn he => ?_⟩
  rw [hps] at hn he
  obtain ⟨hni, hsame⟩ := release_used hn
  rw [hsame] at hn he
  exact hni (h.pids.pids n i hn hi he)

end Emyx
