/-
  File:      Emyx/Kernel/Family.lean
  Subject:   THE PROCESS TABLE IS A FAMILY: what the sixteen records and the calls on them mean to
             processes.

  * `family` -- the processes and their parents, read off the records;
  * `Op.act` -- what a step means to the family: a spawn, an exit, a status collected, a wait
    refused, a process that could not be loaded, or nothing;
  * `CtlStep.act` -- the step does that, and the call returns what goes with it;
  * **`process_history`** -- in every run each pid is spawned once, exits at most once, and its
    status is collected at most once, by the process that spawned it.
-/
import Emyx.Kernel.ExitStatus
import Emyx.Kernel.Wrap
import Emyx.Lib.Family

namespace Emyx

open Lib

/-! ## 1. The family -/

/-- The process with this pid, if there is one. -/
def asParent (pid : Nat) : Option Nat := if pid = 0 then none else some pid

def UserProcess.member (p : UserProcess) : Member Nat Nat :=
  ⟨asParent p.parentPid, if p.state = .exited then some p.exitStatus else none⟩

def family (ps : Fin 16 → UserProcess) : Family Nat Nat := fun pid =>
  (userProcessFindByPid ps pid).map fun i => (ps i).member

/-- A wait of `q` for `pid` returned: it got the status, or was refused. -/
def waitAct (ps : Fin 16 → UserProcess) (q pid : Nat) : Act Nat Nat :=
  match family ps pid with
  | some ⟨some parent, some status⟩ =>
    if parent = q then .collect q pid status else .refuse q pid
  | _ => .refuse q pid

/-- What the step means to the family. -/
def Op.act (c : Ctl) (r : Option Int) (c' : Ctl) : Op → Option (Act Nat Nat)
  | .spawn _ =>
    match r with
    | some pid => if 0 ≤ pid then some (.spawn (asParent c.callerPid) pid.toNat) else none
    | none => none
  | .exit status => c.caller.map fun i => .exit (c.processes i).pid status
  | .start =>
    match c.caller with
    | some i => if (c'.processes i).state = .free then some (.vanish (c.processes i).pid) else none
    | none => none
  | op =>
    match op.waiter c, r with
    | some (i, pid), some _ => some (waitAct c.processes (c.processes i).pid pid)
    | _, _ => none

/-- What the call returns. -/
def actAnswer : Act Nat Nat → Option Int
  | .spawn _ pid => some (toInt32 pid)
  | .exit _ _ => none
  | .collect _ _ status => some (toInt32 status)
  | .refuse _ _ => some (-1)
  | .vanish _ => none

/-! ## 2. Reading it -/

section

variable {c c' : Ctl} {op : Op} {r : Option Int} {ps : Fin 16 → UserProcess}

/-- The records have different pids. -/
def PidsDiffer (ps : Fin 16 → UserProcess) : Prop :=
  ∀ i j, (ps i).state ≠ .free → (ps j).state ≠ .free → (ps i).pid = (ps j).pid → i = j

theorem family_some (hd : PidsDiffer ps) {i : Fin 16} (hi : (ps i).state ≠ .free) :
    family ps (ps i).pid = some (ps i).member := by
  unfold family
  cases hf : userProcessFindByPid ps (ps i).pid with
  | none => exact absurd rfl (findByPid_none hf i hi)
  | some j =>
    obtain ⟨hj, he⟩ := findByPid_some hf
    rw [hd j i hj hi he]
    rfl

theorem family_none {pid : Nat} (h : ∀ i, (ps i).state ≠ .free → (ps i).pid ≠ pid) :
    family ps pid = none := by
  unfold family
  cases hf : userProcessFindByPid ps pid with
  | none => rfl
  | some j =>
    obtain ⟨hj, he⟩ := findByPid_some hf
    exact absurd he (h j hj)

/-- Every name is a record's, or no one's. -/
theorem family_cases (hd : PidsDiffer ps) (pid : Nat) :
    (∃ i, (ps i).state ≠ .free ∧ (ps i).pid = pid ∧ family ps pid = some (ps i).member) ∨
      (∀ i, (ps i).state ≠ .free → (ps i).pid ≠ pid) ∧ family ps pid = none := by
  by_cases h : ∃ i, (ps i).state ≠ .free ∧ (ps i).pid = pid
  · obtain ⟨i, hi, rfl⟩ := h
    exact .inl ⟨i, hi, rfl, family_some hd hi⟩
  · have hno : ∀ i, (ps i).state ≠ .free → (ps i).pid ≠ pid := fun i hi he => h ⟨i, hi, he⟩
    exact .inr ⟨hno, family_none hno⟩

/-- **One record changes**: the family changes at its pid. -/
theorem family_update (hd : PidsDiffer ps) {i : Fin 16} {p : UserProcess} (pid : Nat)
    (hold : (ps i).state ≠ .free → (ps i).pid = pid) (hnew : p.state ≠ .free → p.pid = pid)
    (hfresh : ∀ n, n ≠ i → (ps n).state ≠ .free → (ps n).pid ≠ pid) :
    family (Function.update ps i p) =
      Function.update (family ps) pid (if p.state = .free then none else some p.member) := by
  have hself : Function.update ps i p i = p := Function.update_self ..
  have hother : ∀ n, n ≠ i → Function.update ps i p n = ps n := fun n hn =>
    Function.update_of_ne hn ..
  have hd' : PidsDiffer (Function.update ps i p) := by
    intro a b ha hb he
    by_cases hai : a = i <;> by_cases hbi : b = i
    · rw [hai, hbi]
    · rw [hai, hself] at ha he
      rw [hother b hbi] at hb he
      exact absurd (he.symm.trans (hnew ha)) (hfresh b hbi hb)
    · rw [hbi, hself] at hb he
      rw [hother a hai] at ha he
      exact absurd (he.trans (hnew hb)) (hfresh a hai ha)
    · rw [hother a hai] at ha he
      rw [hother b hbi] at hb he
      exact hd a b ha hb he
  funext q
  by_cases hq : q = pid
  · rw [hq, Function.update_self]
    split_ifs with hp
    · refine family_none fun n hn he => ?_
      by_cases hni : n = i
      · rw [hni, hself] at hn
        exact hn hp
      · rw [hother n hni] at hn he
        exact hfresh n hni hn he
    · have h := family_some hd' (i := i) (by rw [hself]; exact hp)
      rw [hself, hnew hp] at h
      exact h
  · rw [Function.update_of_ne hq]
    obtain ⟨n, hn, rfl, hf⟩ | ⟨hno, hf⟩ := family_cases hd q
    · have hni : n ≠ i := fun h => hq (by rw [h] at hn ⊢; exact hold hn)
      have h := family_some hd' (i := n) (by rw [hother n hni]; exact hn)
      rw [hother n hni] at h
      rw [h, hf]
    · rw [hf]
      refine family_none fun n hn he => ?_
      by_cases hni : n = i
      · rw [hni, hself] at hn he
        exact hq (he.symm.trans (hnew hn))
      · rw [hother n hni] at hn he
        exact hno n hn he

/-- A record is released. -/
theorem family_release (hd : PidsDiffer ps) {i : Fin 16} (hi : (ps i).state ≠ .free) :
    family (userProcessRelease ps i) = Function.update (family ps) (ps i).pid none := by
  have h := family_update hd (i := i) (p := UserProcess.zero) (ps i).pid (fun _ => rfl)
    (fun hz => absurd rfl hz) fun n hn hfree he => hn (hd n i hfree hi he)
  rw [if_pos (show UserProcess.zero.state = .free from rfl)] at h
  exact h

theorem asParent_eq {pid q : Nat} (hq : q ≠ 0) : asParent pid = some q ↔ pid = q := by
  unfold asParent
  split_ifs with h0
  · exact iff_of_false (by simp) fun he => hq (he.symm.trans h0)
  · simp

/-- What the exit of its parent leaves of a record. -/
theorem UserProcess.orphan_member {p : UserProcess} (hp : p.state ≠ .free) {pid : Nat}
    (h0 : pid ≠ 0) :
    (if (p.orphan pid).state = .free then none else some (p.orphan pid).member) =
      p.member.orphan pid := by
  have hpar : p.member.parent ≠ some pid ↔ p.parentPid ≠ pid := not_congr (asParent_eq h0)
  unfold UserProcess.orphan Member.orphan
  by_cases hchild : p.parentPid = pid
  · rw [if_neg (show ¬ (p.state = .free ∨ p.parentPid ≠ pid) by simp [hp, hchild]),
      if_neg (show ¬ p.member.parent ≠ some pid by rw [hpar]; simp [hchild])]
    by_cases hx : p.state = .exited
    · simp [hx, UserProcess.zero, UserProcess.member]
    · simp [hx, hp, UserProcess.member, asParent]
  · rw [if_pos (show p.state = .free ∨ p.parentPid ≠ pid from .inr hchild),
      if_pos (hpar.mpr hchild), if_neg hp]

/-- **The exit of a process**, as the family sees it. -/
theorem Ctl.Pids.family_exit (h : c.Pids) {i : Fin 16} (hi : (c.processes i).state ≠ .free)
    (status : Nat) :
    family (c.exitRecords i status) = (family c.processes).exit (c.processes i).pid status := by
  have hd : PidsDiffer c.processes := h.pids
  have hd' : PidsDiffer (c.exitRecords i status) := (h.exit hi status).pids
  have hrec := h.exitRecords_eq hi status
  have hself : c.exitRecords i status i =
      if (c.processes i).parentPid = 0 then UserProcess.zero else (c.processes i).exit status := by
    rw [hrec]
    exact if_pos rfl
  have hother : ∀ n, n ≠ i → c.exitRecords i status n =
      (c.processes n).orphan (c.processes i).pid := fun n hn => by
    rw [hrec]
    exact if_neg hn
  -- a name that nobody has after the exit
  have hgone : ∀ n, (c.processes n).state ≠ .free → (c.exitRecords i status n).state = .free →
      family (c.exitRecords i status) (c.processes n).pid = none := by
    intro n hn hfree
    refine family_none fun m hm he => ?_
    obtain ⟨hm', hp, -⟩ := h.exitRecords_used hi status m hm
    rw [hd m n hm' hn (hp.symm.trans he)] at hm
    exact hm hfree
  funext q
  unfold Family.exit
  obtain ⟨n, hn, rfl, hf⟩ | ⟨hno, hf⟩ := family_cases hd q
  · by_cases hni : n = i
    · rw [hni, if_pos rfl, family_some hd hi, Option.bind_some]
      by_cases h0 : (c.processes i).parentPid = 0
      · rw [hgone i hi (by rw [hself, if_pos h0]; rfl)]
        simp [Member.exit, UserProcess.member, asParent, h0]
      · rw [if_neg h0] at hself
        have hx := family_some hd' (i := i) (by rw [hself]; simp [UserProcess.exit])
        rw [hself] at hx
        refine hx.trans ?_
        simp [Member.exit, UserProcess.member, UserProcess.exit, asParent, h0]
    · have hne : (c.processes n).pid ≠ (c.processes i).pid := fun he => hni (hd n i hn hi he)
      rw [if_neg hne, hf, Option.bind_some,
        ← UserProcess.orphan_member hn (h.pos i hi).ne', ← hother n hni]
      split_ifs with hfree
      · exact hgone n hn hfree
      · rw [← family_some hd' hfree, (h.exitRecords_used hi status n hfree).2.1]
  · rw [if_neg fun he => hno i hi he.symm, hf]
    refine family_none fun m hm he => ?_
    obtain ⟨hm', hp, -⟩ := h.exitRecords_used hi status m hm
    exact hno m hm' (hp.symm.trans he)

/-! ## 3. Steps -/

/-- What a wait that returned means. -/
theorem waitAct_cases (hd : PidsDiffer ps) {i : Fin 16} {pid : Nat} (hpos : (ps i).pid ≠ 0)
    {ret : Int} {ps' : Fin 16 → UserProcess} (ht : waitTurn ps i pid = some (ret, ps')) :
    (family ps).Step (waitAct ps (ps i).pid pid) (family ps') ∧
      some ret = actAnswer (waitAct ps (ps i).pid pid) := by
  unfold waitTurn at ht
  cases hj : userProcessFindByPid ps pid with
  | none =>
    rw [hj] at ht
    cases ht
    have hf : family ps pid = none := by simp [family, hj]
    rw [waitAct, hf]
    exact ⟨.refuse fun n hn => by simp [hf] at hn, rfl⟩
  | some j =>
    rw [hj] at ht
    obtain ⟨hfree, rfl⟩ := findByPid_some hj
    have hf := family_some hd hfree
    rw [waitAct, hf]
    dsimp only at ht
    have hpar : asParent (ps j).parentPid = some (ps i).pid ↔ _ := asParent_eq hpos
    by_cases hchild : (ps j).parentPid ≠ (ps i).pid
    · rw [if_pos hchild] at ht
      cases ht
      have hno : ∀ n, family ps (ps j).pid = some n → n.parent ≠ some (ps i).pid := by
        intro n hn
        rw [hf] at hn
        cases hn
        exact fun he => hchild (hpar.mp he)
      generalize hm : (ps j).member = n at hf hno ⊢
      have hn := hno _ hf
      obtain ⟨q, s⟩ := n
      cases q with
      | none => exact ⟨.refuse hno, rfl⟩
      | some q =>
        cases s with
        | none => exact ⟨.refuse hno, rfl⟩
        | some s =>
          have hq : q ≠ (ps i).pid := fun he => hn (congrArg some he)
          simp only [hq, if_false]
          exact ⟨.refuse hno, rfl⟩
    · rw [if_neg hchild] at ht
      rw [not_not] at hchild
      by_cases hx : (ps j).state = .exited
      · rw [if_pos hx] at ht
        cases ht
        have hm : (ps j).member = ⟨some (ps i).pid, some (ps j).exitStatus⟩ := by
          unfold UserProcess.member
          rw [hpar.mpr hchild, if_pos hx]
        rw [hm] at hf ⊢
        simp only [if_true]
        rw [family_release hd hfree]
        exact ⟨.collect hf, rfl⟩
      · rw [if_neg hx] at ht
        cases ht

theorem Op.act_waiter {i : Fin 16} {pid : Nat} (hw : op.waiter c = some (i, pid)) :
    op.act c r c' = r.map fun _ => waitAct c.processes (c.processes i).pid pid := by
  cases op with
  | wait p =>
    unfold Op.act
    dsimp only
    rw [hw]
    cases r <;> rfl
  | resume =>
    unfold Op.act
    dsimp only
    rw [hw]
    cases r <;> rfl
  | _ => cases hw

/-- A step that means nothing to the family. -/
def Ctl.Quiet (c : Ctl) (op : Op) (r : Option Int) (c' : Ctl) : Prop :=
  op.act c r c' = none ∧ family c'.processes = family c.processes

/-- A step that is the action `a`. -/
structure Ctl.Acts (c : Ctl) (op : Op) (r : Option Int) (c' : Ctl) (a : Act Nat Nat) : Prop where
  act : op.act c r c' = some a
  step : (family c.processes).Step a (family c'.processes)
  answer : r = actAnswer a
  fresh : ∀ q pid, a = .spawn q pid → pid = c.nextPid ∧ c'.nextPid = (c.nextPid + 1) % 2 ^ 32

/-- **A process is spawned.** -/
theorem Ctl.Sound.acts_spawn (hc : c.Sound) (hpid : c.nextPid < 2 ^ 31)
    {path : Option (List Byte)} {i : Fin 16} {p : UserProcess} (hop : (Op.spawn path).Legal c)
    (hi : userProcessAlloc c.processes = some i) (hps : c'.processes = Function.update c.processes i p)
    (hp : p.pid = c.nextPid ∧ p.parentPid = c.callerPid ∧ p.state = .created)
    (hnext : c'.nextPid = (c.nextPid + 1) % 2 ^ 32) :
    c.Acts (.spawn path) (some (toInt32 c.nextPid)) c' (.spawn (asParent c.callerPid) c.nextPid) := by
  have hfree := userProcessAlloc_some hi
  have hnonneg := toInt32_nonneg hpid
  have hnone : family c.processes c.nextPid = none :=
    family_none fun n hn => (hc.pids.lt n hn).ne
  have hfam : family c'.processes =
      Function.update (family c.processes) c.nextPid (some ⟨asParent c.callerPid, none⟩) := by
    have h := family_update hc.pids.pids (i := i) (p := p) c.nextPid
      (fun hn => absurd hfree hn) (fun _ => hp.1) fun n _ hn => (hc.pids.lt n hn).ne
    rw [hps, h, hp.2.2, if_neg (by decide)]
    simp [UserProcess.member, hp.2.1, hp.2.2]
  refine ⟨?_, ?_, rfl, fun q pid he => ?_⟩
  · simp only [Op.act]
    rw [if_pos hnonneg, toInt32_toNat (by omega) hnonneg]
  · rw [hfam]
    refine .spawn hnone fun q hq => ?_
    have hne : c.callerPid ≠ 0 := fun h0 => by simp [asParent, h0] at hq
    obtain ⟨j, hj, hpar⟩ := hc.inv.callerPid hc.runs hop hne
    have hq : c.callerPid = q := by simpa [asParent, hne] using hq
    rw [← hq, ← hpar]
    exact ⟨_, family_some hc.pids.pids (by rw [hj]; decide), by simp [UserProcess.member, hj]⟩
  · cases he
    exact ⟨rfl, hnext⟩

/-- The record of the task that starts was created. -/
theorem Ctl.Sound.starting (hc : c.Sound) (hop : c.cont = .start) {i : Fin 16}
    (hcaller : c.caller = some i) : (c.processes i).state = .created := by
  obtain ⟨hi, hid⟩ := Ctl.caller_some hcaller
  have hstart : (c.tasks c.currentTask).cont = .start := hop
  obtain ⟨-, ⟨hs, -⟩ | ⟨-, hs | ⟨pid, hs⟩⟩⟩ := hc.inv.record hc.runs.live hi hid
  · exact hs
  · cases hstart.symm.trans hs
  · cases hstart.symm.trans hs

/-- **Every step is an action of the family, or nothing to it**; and the call returns what goes with
    the action. -/
theorem CtlStep.acts (hc : c.Sound) (hpid : c.nextPid < 2 ^ 31) (hop : op.Legal c)
    (hs : CtlStep c op r c') : c.Quiet op r c' ∨ ∃ a, c.Acts op r c' a := by
  have hskip : ∀ i, userProcessAlloc c.processes = some i →
      userProcessRelease c.processes i = c.processes := fun i hi => by
    rw [userProcessRelease, ← hc.inv.free i (userProcessAlloc_some hi)]
    exact Function.update_eq_self i c.processes
  cases hs with
  | spawnRefused path => exact .inl ⟨rfl, rfl⟩
  | spawnNoDirectory path i hi => exact .inl ⟨rfl, congrArg family (hskip i hi)⟩
  | spawnNoTask path i hi => exact .inl ⟨rfl, congrArg family (hskip i hi)⟩
  | spawnBadId path i j t hi ht hid => exact .inl ⟨rfl, congrArg family (hskip i hi)⟩
  | spawn path i j t d hi ht hid =>
    exact .inr ⟨_, hc.acts_spawn hpid hop hi rfl ⟨rfl, rfl, rfl⟩ rfl⟩
  | createFails => exact .inl ⟨rfl, rfl⟩
  | create j t ht => exact .inl ⟨rfl, rfl⟩
  | yieldStays hn => exact .inl ⟨rfl, rfl⟩
  | yield _ hy => exact .inl ⟨rfl, congrArg family hy.processes⟩
  | startThread he =>
    refine .inl ⟨?_, rfl⟩
    unfold Op.act
    cases hcaller : c.caller with
    | none => rfl
    | some i => exact if_neg (Ctl.caller_some hcaller).1
  | startNoRecord _ he hcaller hx =>
    refine .inl ⟨?_, congrArg family hx.processes⟩
    unfold Op.act
    rw [hcaller]
  | startFails i _ he hcaller hx =>
    have hcreated := hc.starting hop hcaller
    have hfree := (Ctl.caller_some hcaller).1
    have hps : c'.processes = userProcessRelease c.processes i := hx.processes
    have hself : c'.processes i = UserProcess.zero := by
      rw [hps]
      exact Function.update_self ..
    refine .inr ⟨.vanish (c.processes i).pid, ?_, ?_, rfl, fun q pid he => by cases he⟩
    · unfold Op.act
      rw [hcaller]
      exact if_pos (by rw [hself]; rfl)
    · rw [hps, family_release hc.pids.pids hfree]
      exact .vanish (family_some hc.pids.pids hfree) (by simp [UserProcess.member, hcreated])
  | start i p he hcaller hp h0 =>
    have hcreated := hc.starting hop hcaller
    have hfree := (Ctl.caller_some hcaller).1
    have hself : (c.enter i p).processes i = { p with state := .running } :=
      Function.update_self ..
    refine .inl ⟨?_, ?_⟩
    · unfold Op.act
      rw [hcaller]
      exact if_neg (by rw [hself]; simp)
    · -- what the family sees of the record does not change
      have h := family_update hc.pids.pids (i := i) (p := { p with state := .running })
        (c.processes i).pid (fun _ => rfl) (fun _ => hp.pid)
        fun n hn hn' he => hn (hc.pids.pids n i hn' hfree he)
      have hm : ({ p with state := .running } : UserProcess).member = (c.processes i).member := by
        simp [UserProcess.member, hp.parentPid, hcreated]
      rw [hm, if_neg (by simp), ← family_some hc.pids.pids hfree] at h
      exact h.trans (Function.update_eq_self ..)
  | waitNoCaller pid hcaller =>
    refine .inl ⟨?_, rfl⟩
    simp [Op.act, Op.waiter, hcaller]
  | waitReturns op i pid ret ps hw hturn =>
    obtain ⟨hcaller, hrun⟩ := hc.inv.waiter hc.runs hop hw
    have hpos := (hc.pids.pos i (by rw [hrun]; decide)).ne'
    obtain ⟨hstep, hret⟩ := waitAct_cases hc.pids.pids hpos hturn
    refine .inr ⟨waitAct c.processes (c.processes i).pid pid, Op.act_waiter hw, hstep, hret,
      fun q p he => ?_⟩
    unfold waitAct at he
    split at he
    · split_ifs at he
    · cases he
  | waitYields op i pid _ hw hturn hy =>
    exact .inl ⟨Op.act_waiter hw, congrArg family hy.processes⟩
  | exitNoRecord status _ hcaller hx =>
    refine .inl ⟨?_, congrArg family hx.processes⟩
    simp [Op.act, hcaller]
  | exit status i _ hcaller hx =>
    have hfree := (Ctl.caller_some hcaller).1
    obtain ⟨n, hn, hrun, -⟩ := hc.inv.caller_user hc.runs (.inl hop.1)
    cases hcaller.symm.trans hn
    have hps : c'.processes = c.exitRecords i status := hx.processes
    refine .inr ⟨.exit (c.processes i).pid status, by simp [Op.act, hcaller], ?_, rfl,
      fun q pid he => by cases he⟩
    rw [hps, hc.pids.family_exit hfree]
    exact .exit (family_some hc.pids.pids hfree) (by simp [UserProcess.member, hrun])
  | threadExit _ hx => exact .inl ⟨rfl, congrArg family hx.processes⟩
  | store v b => exact .inl ⟨rfl, rfl⟩

end

/-! ## 4. Runs -/

/-- The kernel `k` is reached from `k0`, and the actions on the way were `as`; the counters have not
    passed 2³¹ - 1. -/
inductive Traced (k0 : Kernel) : List (Act Nat Nat) → Kernel → Prop where
  | boot : Traced k0 [] k0
  | step {as : List (Act Nat Nat)} {k k' : Kernel} {op : Op} {r : Option Int} : Traced k0 as k →
    op.Legal k.toCtl → CountersUpTo (2 ^ 31 - 1) k op k' → k.exec op = .ok (r, k') →
    Traced k0 (as ++ (op.act k.toCtl r k'.toCtl).toList) k'

section

variable {mm : Mm} {bm : BootModule} {tr esp0 : Nat} {as : List (Act Nat Nat)} {k : Kernel}

/-- What a run with its actions keeps. -/
structure Chronicle (as : List (Act Nat Nat)) (k : Kernel) : Prop where
  sound : k.toCtl.Sound
  counters : k.nextPid ≤ 2 ^ 31 - 1 ∧ k.nextTaskId ≤ 2 ^ 31 - 1
  past : ∀ q pid, .spawn q pid ∈ as → pid < k.nextPid
  stories : ∀ pid, Story pid (as.filter (Act.about pid)) (family k.processes pid)

theorem chronicle_boot : Chronicle [] (schedInit mm bm tr esp0) where
  sound := schedInit_sound mm bm tr esp0
  counters := ⟨show 1 ≤ 2 ^ 31 - 1 by decide, show 1 ≤ 2 ^ 31 - 1 by decide⟩
  past := fun q pid h => by cases h
  stories pid := by
    rw [family_none fun i hi => absurd rfl hi]
    exact .unborn

theorem Chronicle.step (h : Chronicle as k) {k' : Kernel} {op : Op} {r : Option Int}
    (hop : op.Legal k.toCtl) (hcount : CountersUpTo (2 ^ 31 - 1) k op k')
    (e : k.exec op = .ok (r, k')) : Chronicle (as ++ (op.act k.toCtl r k'.toCtl).toList) k' := by
  have hc := h.counters
  have hs := exec_ctl hop e
  have hnext : k.nextPid ≤ k'.nextPid := by
    obtain he | ⟨-, he⟩ := hs.counters.1 <;> rw [he]
    rw [Nat.mod_eq_of_lt (by omega)]
    omega
  obtain ⟨hact, hfam⟩ | ⟨a, ha⟩ := hs.acts h.sound (by omega) hop
  · refine ⟨h.sound.exec (by omega) (by omega) hop e, hcount, ?_, ?_⟩
    · rw [hact]
      simp only [Option.toList_none, List.append_nil]
      exact fun q pid hm => (h.past q pid hm).trans_le hnext
    · rw [hact, hfam]
      simpa using h.stories
  · have hfresh : ∀ q pid, a = .spawn q pid → as.filter (Act.about pid) = [] := by
      intro q pid hq
      obtain hnil | ⟨q', hm⟩ := (h.stories pid).spawned
      · exact hnil
      · have hlt := h.past q' pid (List.mem_of_mem_filter hm)
        rw [(ha.fresh q pid hq).1] at hlt
        exact absurd hlt (lt_irrefl _)
    refine ⟨h.sound.exec (by omega) (by omega) hop e, hcount, fun q pid hm => ?_, fun pid => ?_⟩
    · rw [ha.act] at hm
      simp only [Option.toList_some, List.mem_append, List.mem_singleton] at hm
      obtain hm | hm := hm
      · exact (h.past q pid hm).trans_le hnext
      · obtain ⟨rfl, he⟩ := ha.fresh q pid hm.symm
        rw [he, Nat.mod_eq_of_lt (by omega)]
        omega
    · rw [ha.act, Option.toList_some, List.filter_append]
      exact (h.stories pid).step ha.step fun q hq => hfresh q pid hq

theorem Traced.chronicle (h : Traced (schedInit mm bm tr esp0) as k) : Chronicle as k := by
  induction h with
  | boot => exact chronicle_boot
  | step _ hop hcount e ih => exact ih.step hop hcount e

/-- **The life of every process**, in every run in which the counters have not passed 2³¹ - 1: its
    pid is spawned once; it vanishes if it cannot be loaded, or exits at most once; its status is
    kept while its parent is there, and is collected at most once, by the parent that spawned it.
    What each call returns goes with what it did. -/
theorem process_history (h : Traced (schedInit mm bm tr esp0) as k) :
    (∀ pid, Story pid (as.filter (Act.about pid)) (family k.processes pid)) ∧
    ∀ op r k', op.Legal k.toCtl → k.exec op = .ok (r, k') →
      k.toCtl.Quiet op r k'.toCtl ∨ ∃ a, k.toCtl.Acts op r k'.toCtl a := by
  have hk := h.chronicle
  have hcount := hk.counters
  exact ⟨hk.stories, fun op r k' hop e => (exec_ctl hop e).acts hk.sound (by omega) hop⟩

/-- Every run that creates fewer than 2³¹ - 1 tasks has its actions. -/
theorem KRun.traced {C : Kernel → Op → Kernel → Prop} {ops : List Op}
    (h : KRun C (schedInit mm bm tr esp0) ops k) (hcount : creations ops < 2 ^ 31 - 1) :
    ∃ as, Traced (schedInit mm bm tr esp0) as k := by
  induction h with
  | boot => exact ⟨[], .boot⟩
  | step hrun hop hC e ih =>
    have hk := (hrun.step hop hC e).counted (counted_schedInit mm bm tr esp0) (by omega)
    rw [creations_append] at hcount hk
    obtain ⟨as, has⟩ := ih (by omega)
    have hp := hk.pid
    have ht := hk.taskId
    exact ⟨_, .step has hop ⟨by omega, by omega⟩ e⟩

/-- The first process has been spawned. -/
theorem process_history_spawned : ∃ s0 as k,
    Traced (schedInit s0 selfModule 0 0) as k ∧
    family k.processes 1 = some ⟨none, none⟩ ∧
    (∀ pid, Story pid (as.filter (Act.about pid)) (family k.processes pid)) := by
  obtain ⟨s0, hs⟩ := selfBooted
  obtain ⟨k, p, hrun, -, hk, -⟩ := hs.spawned
  obtain ⟨as, has⟩ := hrun.traced (by decide)
  refine ⟨s0, as, k, has, ?_, (process_history has).1⟩
  have hps : k.processes = threeRecords (.spawned 1 1 0 0x116000 [0x2f, 0x61]) .zero .zero :=
    congrArg Ctl.processes hk.ctl
  rw [hps]
  rfl

end

end Emyx
