/-
  File:      Emyx/Kernel/User.lean
  Subject:   PROCESSES (user.c): spawning, loading, waiting, exiting.

  The functions that only touch the process table are functions of the table; a record is given by
  its slot. The results `0` and `-1` are the C `int`.

  * `userProcessOrphanChildren_eq` -- what `user_process_orphan_children` does to each record;
  * `userPrepareExec_ctl`, `spawnInto_ctl`, `userExecTask_ctl`, `userExitCurrent_ctl` -- what the
    functions that also work on memory do to the tables.
-/
import Emyx.Kernel.Sched

namespace Emyx

open Lib

/-! ## 1. The process table -/

/-- `user_process_alloc`: the slot of the record it returns. -/
def userProcessAlloc (ps : Fin 16 → UserProcess) : Option (Fin 16) :=
  (List.finRange 16).find? fun i => (ps i).state = .free

/-- The record as `user_process_alloc` leaves it. -/
def UserProcess.fresh : UserProcess := { UserProcess.zero with state := .created }

/-- `user_process_find_by_pid` -/
def userProcessFindByPid (ps : Fin 16 → UserProcess) (pid : Nat) : Option (Fin 16) :=
  (List.finRange 16).find? fun i => (ps i).state ≠ .free ∧ (ps i).pid = pid

/-- `user_process_find_by_task_id` -/
def userProcessFindByTaskId (ps : Fin 16 → UserProcess) (taskId : Nat) : Option (Fin 16) :=
  (List.finRange 16).find? fun i => (ps i).state ≠ .free ∧ (ps i).taskId = taskId

/-- `user_process_release` -/
def userProcessRelease (ps : Fin 16 → UserProcess) (i : Fin 16) : Fin 16 → UserProcess :=
  Function.update ps i UserProcess.zero

/-- `user_process_orphan_children` -/
def userProcessOrphanChildren (ps : Fin 16 → UserProcess) (parent : Fin 16) :
    Fin 16 → UserProcess :=
  (List.finRange 16).foldl (fun ps i =>
    if (ps i).state = .free ∨ (ps i).parentPid ≠ (ps parent).pid then ps
    else if (ps i).state = .exited then userProcessRelease ps i
    else Function.update ps i { ps i with parentPid := 0 }) ps

/-! ## 2. Pages -/

/-- `user_process_free_pages` -/
def userProcessFreePages (k : Kernel) (i : Fin 16) : Except Stop Kernel := do
  let p := k.processes i
  let mm ← p.pages.foldlM (fun mm page => do
    let (_, mm) ← vmmUnmapPageIn mm p.addressSpace page.vaddr
    return mm.freePage page.paddr) k.mm
  return { k with mm := mm, processes := Function.update k.processes i { p with pages := [] } }

/-- `memcpy(dst, src, n)` between two places of the direct map, `dst` within one page. -/
def Mm.copyIn (s : Mm) (dst src n : Nat) : Except Stop Mm := do
  let a ← s.direct dst
  if n = 0 ∨ 0xC0000000 ≤ src ∧ src + n ≤ 0xC1000000 then
    return { s with mem := memcpy s.mem a (src - 0xC0000000) n }
  else .error (.pageFault (if 0xC0000000 ≤ src ∧ src < 0xC1000000 then 0xC1000000 else src))

/-- `map_copied_user_page`; `src` is `none` for `NULL`. -/
def mapCopiedUserPage (k : Kernel) (i : Fin 16) (vaddr : Nat) (src : Option Nat)
    (size flags : Nat) : Except Stop (Int × Kernel) :=
  let p := k.processes i
  if p.pages.length ≥ 16 then return (-1, k)
  else if size > 4096 then return (-1, k)
  else
    let (paddr, mm) := k.mm.allocPage
    if paddr = 0 then return (-1, { k with mm := mm })
    else
      let page := vmmPhysToVirt paddr
      if page = 0 then return (-1, { k with mm := mm.freePage paddr })
      else do
        let mm ← mm.clearPage page
        let mm ← (match src with
          | none => .ok mm
          | some src => mm.copyIn page src size)
        let (r, mm) ← vmmMapPageIn mm p.addressSpace vaddr paddr (1 ||| 4 ||| flags)
        if r ≠ 0 then return (-1, { k with mm := mm.freePage paddr })
        else
          let p' := { p with pages := p.pages ++ [⟨vaddr, paddr⟩] }
          return (0, { k with mm := mm, processes := Function.update k.processes i p' })

/-! ## 3. Loading -/

/-- The byte `i` of the image at the pointer `image`. -/
def imageByte (m : Mem) (image i : Nat) : Except Stop Byte := kernelByte m ((image + i) % 2 ^ 32)

/-- The header of an EMXF image: code size and entry offset, if the image is well formed. -/
def emxfHeader (m : Mem) (image size : Nat) : Except Stop (Option (Nat × Nat)) :=
  if image = 0 ∨ size < 12 then return none
  else do
    if !(← magicMatches (imageByte m image) 0x45 0x4D 0x58 0x46) then return none
    else do
      let codeSize ← readLe32 (imageByte m image) 4
      let entryOffset ← readLe32 (imageByte m image) 8
      if codeSize > 4096 then return none
      else if entryOffset ≥ codeSize then return none
      else if 12 + codeSize > size then return none
      else return some (codeSize, entryOffset)

/-- `load_emxf` -/
def loadEmxf (k : Kernel) (i : Fin 16) (image size : Nat) : Except Stop (Int × Kernel) := do
  match ← emxfHeader k.mm.mem image size with
  | none => return (-1, k)
  | some (codeSize, entryOffset) => do
    let (r, k) ← mapCopiedUserPage k i 0x00400000 (some ((image + 12) % 2 ^ 32)) codeSize 0
    if r ≠ 0 then return (-1, k)
    else
      let p := { k.processes i with entry := (0x00400000 + entryOffset) % 2 ^ 32 }
      return (0, { k with processes := Function.update k.processes i p })

/-- `user_prepare_exec` up to its `fail` label: `0`, or `-1` for the jump there. -/
def prepareExecSteps (k : Kernel) (i : Fin 16) (path : List Byte) : Except Stop (Int × Kernel) := do
  match ← initramfsFind k.mm.mem k.bootModule path with
  | none => return (-1, k)
  | some (emxf, emxfSize) => do
    let (r, k) ← loadEmxf k i emxf emxfSize
    if r ≠ 0 then return (-1, k)
    else do
      let (r, k) ← mapCopiedUserPage k i 0x007ff000 none 0 2
      if r ≠ 0 then return (-1, k)
      else
        let p := { k.processes i with stack := 0x007ff000, stackSize := 4096 }
        return (0, { k with processes := Function.update k.processes i p })

/-- `user_prepare_exec` -/
def userPrepareExec (k : Kernel) (i : Fin 16) (path : List Byte) : Except Stop (Int × Kernel) := do
  let (r, k) ← prepareExecSteps k i path
  if r ≠ 0 then do
    let k ← userProcessFreePages k i
    return (-1, k)
  else return (0, k)

/-! ## 4. Spawning -/

/-- The end of `user_spawn`: the directory, the task, and the `fail` label. -/
def spawnInto (k : Kernel) (i : Fin 16) : Except Stop (Int × Kernel) := do
  let (addressSpace, mm) ← vmmCreateAddressSpace k.mm
  if addressSpace = 0 then
    return (-1, { k with mm := mm, processes := userProcessRelease k.processes i })
  else do
    let p := { k.processes i with addressSpace := addressSpace }
    let (taskId, k) ← kthreadCreate { k with mm := mm, processes := Function.update k.processes i p }
      (some .userExecTask)
    if taskId < 0 then do
      let mm ← vmmDestroyAddressSpace k.mm addressSpace
      return (-1, { k with mm := mm, processes := userProcessRelease k.processes i })
    else
      let p := { k.processes i with taskId := taskId.toNat }
      return (toInt32 p.pid,
        { k with processes := Function.update k.processes i p
                 keyboard := keyboardBufferClear k.keyboard })

/-- `user_spawn`; `path` is `none` for `NULL`, else the bytes before the terminator. -/
def userSpawn (k : Kernel) (path : Option (List Byte)) : Except Stop (Int × Kernel) :=
  match path with
  | none => return (-1, k)
  | some path =>
    if path.length = 0 ∨ path.length ≥ 32 then return (-1, k)
    else do
      match ← initramfsFind k.mm.mem k.bootModule path with
      | none => return (-1, k)
      | some _ =>
        let parentPid := match userProcessFindByTaskId k.processes (schedCurrentTaskId k.toCtl) with
          | some parent => (k.processes parent).pid
          | none => 0
        match userProcessAlloc k.processes with
        | none => return (-1, k)
        | some i =>
          let p := { UserProcess.fresh with pid := k.nextPid, parentPid := parentPid, path := path }
          spawnInto { k with processes := Function.update k.processes i p
                             nextPid := (k.nextPid + 1) % 2 ^ 32 } i

/-! ## 5. Running, waiting, exiting -/

/-- `user_exec_task`, and whether it entered user mode. -/
def userExecTask (k : Kernel) : Except Stop (Bool × Kernel) :=
  match userProcessFindByTaskId k.processes (schedCurrentTaskId k.toCtl) with
  | none => return (false, k)
  | some i => do
    let (r, k) ← userPrepareExec k i (k.processes i).path
    let (r, k) ← (if r ≠ 0 then .ok (r, k) else do
      let (r, k) := schedSetCurrentAddressSpace k (k.processes i).addressSpace
      if r ≠ 0 then do
        let k ← userProcessFreePages k i
        return (r, k)
      else return (0, k))
    if r ≠ 0 then do
      let p := k.processes i
      let mm ← (if p.addressSpace ≠ 0 then vmmDestroyAddressSpace k.mm p.addressSpace else .ok k.mm)
      return (false,
        { k with mm := mm, processes := userProcessRelease k.processes i
                 console := k.console ++ ascii "user: failed to execute " ++ p.path ++ ascii "\n" })
    else
      let p := { k.processes i with state := .running }
      return (true,
        { k with toCtl := { k.setCont .user with processes := Function.update k.processes i p } })

/-- One turn of the loop of `user_wait`: the result and the table when it ends, `none` when it
    yields. -/
def waitTurn (ps : Fin 16 → UserProcess) (caller : Fin 16) (pid : Nat) :
    Option (Int × (Fin 16 → UserProcess)) :=
  match userProcessFindByPid ps pid with
  | none => some (-1, ps)
  | some child =>
    if (ps child).parentPid ≠ (ps caller).pid then some (-1, ps)
    else if (ps child).state = .exited then
      some (toInt32 (ps child).exitStatus, userProcessRelease ps child)
    else none

/-- The loop of `user_wait`: the result, or `none` when another task runs now. A turn that yields
    without a switch finds the same table again. -/
def waitLoop (k : Kernel) (caller : Fin 16) (pid : Nat) : Except Stop (Option Int × Kernel) :=
  match waitTurn k.processes caller pid with
  | some (r, ps) => return (some r, { k with toCtl := { k.setCont .user with processes := ps } })
  | none => do
    let (switched, k) ← schedYield { k with toCtl := k.setCont (.waiting caller pid) }
    if switched then return (none, k) else .error .hang

/-- `user_wait` -/
def userWait (k : Kernel) (pid : Nat) : Except Stop (Option Int × Kernel) :=
  match userProcessFindByTaskId k.processes (schedCurrentTaskId k.toCtl) with
  | none => return (some (-1), k)
  | some caller => waitLoop k caller pid

/-- The end of `user_exit_current`: an exited record is kept for its parent only. -/
def releaseWithoutParent (ps : Fin 16 → UserProcess) (i : Fin 16) : Fin 16 → UserProcess :=
  match userProcessFindByPid ps (ps i).parentPid with
  | none => userProcessRelease ps i
  | some _ => ps

/-- `user_exit_current` -/
def userExitCurrent (k : Kernel) (status : Nat) : Except Stop Kernel :=
  match userProcessFindByTaskId k.processes (schedCurrentTaskId k.toCtl) with
  | none => return k
  | some i => do
    let p := { k.processes i with exitStatus := status, state := .exited }
    let k ← userProcessFreePages { k with processes := Function.update k.processes i p } i
    let ps := Function.update k.processes i { k.processes i with addressSpace := 0 }
    return { k with processes := releaseWithoutParent (userProcessOrphanChildren ps i) i }

/-! ## 6. What they do to the tables -/

/-- The record of the process that is running, if a process is. -/
def Ctl.caller (c : Ctl) : Option (Fin 16) :=
  userProcessFindByTaskId c.processes (schedCurrentTaskId c)

theorem Ctl.caller_eq (c : Ctl) :
    userProcessFindByTaskId c.processes (schedCurrentTaskId c) = c.caller := rfl

/-- The parent of what the current task spawns. -/
def Ctl.callerPid (c : Ctl) : Nat :=
  match c.caller with
  | some parent => (c.processes parent).pid
  | none => 0

/-- `user_spawn` gave up on the record `i`: its pid is not used again. -/
def Ctl.skipPid (c : Ctl) (i : Fin 16) : Ctl :=
  { c with processes := userProcessRelease c.processes i, nextPid := (c.nextPid + 1) % 2 ^ 32 }

/-- `user_spawn` filled the record `i`. -/
def Ctl.addProcess (c : Ctl) (i : Fin 16) (p : UserProcess) : Ctl :=
  { c with processes := Function.update c.processes i p, nextPid := (c.nextPid + 1) % 2 ^ 32 }

/-- The current task runs the process of record `i` in user mode. -/
def Ctl.enter (c : Ctl) (i : Fin 16) (p : UserProcess) : Ctl :=
  { c with tasks := Function.update c.tasks c.currentTask
                      { c.tasks c.currentTask with addressSpace := p.addressSpace, cont := .user }
           processes := Function.update c.processes i { p with state := .running } }

/-- The record of a process that ended with `status`. -/
def UserProcess.exit (p : UserProcess) (status : Nat) : UserProcess :=
  { p with exitStatus := status, state := .exited, pages := [], addressSpace := 0 }

/-- The records after the process of record `i` ended and lost its children. -/
def Ctl.exitTable (c : Ctl) (i : Fin 16) (status : Nat) : Fin 16 → UserProcess :=
  userProcessOrphanChildren (Function.update c.processes i ((c.processes i).exit status)) i

/-- The records after `user_exit_current` found the record `i`. -/
def Ctl.exitRecords (c : Ctl) (i : Fin 16) (status : Nat) : Fin 16 → UserProcess :=
  releaseWithoutParent (c.exitTable i status) i

theorem Ctl.exitRecords_cases (c : Ctl) (i : Fin 16) (status : Nat) :
    (userProcessFindByPid (c.exitTable i status) (c.exitTable i status i).parentPid = none ∧
      c.exitRecords i status = userProcessRelease (c.exitTable i status) i) ∨
    ∃ j, userProcessFindByPid (c.exitTable i status) (c.exitTable i status i).parentPid = some j ∧
      c.exitRecords i status = c.exitTable i status := by
  unfold Ctl.exitRecords releaseWithoutParent
  cases hj : userProcessFindByPid (c.exitTable i status) (c.exitTable i status i).parentPid with
  | none => exact .inl ⟨rfl, rfl⟩
  | some j => exact .inr ⟨j, rfl, rfl⟩

/-- Two records that differ at most in what loading the program sets. -/
structure UserProcess.SameButLoaded (p p' : UserProcess) : Prop where
  pid : p'.pid = p.pid
  taskId : p'.taskId = p.taskId
  parentPid : p'.parentPid = p.parentPid
  addressSpace : p'.addressSpace = p.addressSpace
  exitStatus : p'.exitStatus = p.exitStatus
  state : p'.state = p.state
  path : p'.path = p.path

/-- Loading changed memory and the record `i`, and that only in what loading sets. -/
def Loaded (i : Fin 16) (k k' : Kernel) : Prop :=
  ∃ p', (k.processes i).SameButLoaded p' ∧
    k' = { k with mm := k'.mm, processes := Function.update k.processes i p' }

theorem UserProcess.SameButLoaded.refl (p : UserProcess) : p.SameButLoaded p :=
  ⟨rfl, rfl, rfl, rfl, rfl, rfl, rfl⟩

theorem UserProcess.SameButLoaded.trans {p p' p'' : UserProcess} (h : p.SameButLoaded p')
    (h' : p'.SameButLoaded p'') : p.SameButLoaded p'' :=
  ⟨h'.pid.trans h.pid, h'.taskId.trans h.taskId, h'.parentPid.trans h.parentPid,
    h'.addressSpace.trans h.addressSpace, h'.exitStatus.trans h.exitStatus,
    h'.state.trans h.state, h'.path.trans h.path⟩

theorem Loaded.set {i : Fin 16} {k : Kernel} {p' : UserProcess} (mm : Mm)
    (h : (k.processes i).SameButLoaded p') :
    Loaded i k { k with mm := mm, processes := Function.update k.processes i p' } :=
  ⟨p', h, rfl⟩

theorem Loaded.refl (i : Fin 16) (k : Kernel) (mm : Mm) : Loaded i k { k with mm := mm } :=
  ⟨_, .refl _, by rw [Function.update_eq_self]⟩

theorem Loaded.trans {i : Fin 16} {k k' k'' : Kernel} (h : Loaded i k k') (h' : Loaded i k' k'') :
    Loaded i k k'' := by
  obtain ⟨p, hp, hk⟩ := h
  obtain ⟨p', hp', hk'⟩ := h'
  rw [hk] at hk' hp'
  dsimp only at hp'
  rw [Function.update_self] at hp'
  exact ⟨p', hp.trans hp', by rw [hk', Function.update_idem]⟩

/-- The record that was loaded into is released. -/
theorem Loaded.release {i : Fin 16} {k k' : Kernel} (h : Loaded i k k') :
    { k'.toCtl with processes := userProcessRelease k'.processes i } =
      { k.toCtl with processes := userProcessRelease k.processes i } := by
  obtain ⟨p, -, hk⟩ := h
  rw [hk]
  simp only [userProcessRelease, Function.update_idem]

theorem userProcessFreePages_ctl {k k' : Kernel} {i : Fin 16}
    (h : userProcessFreePages k i = .ok k') :
    k' = { k with mm := k'.mm
                  processes := Function.update k.processes i { k.processes i with pages := [] } } := by
  obtain ⟨mm, -, h⟩ := bind_ok.mp h
  cases h
  rfl

theorem userProcessFreePages_loaded {k k' : Kernel} {i : Fin 16}
    (h : userProcessFreePages k i = .ok k') : Loaded i k k' := by
  rw [userProcessFreePages_ctl h]
  exact .set _ ⟨rfl, rfl, rfl, rfl, rfl, rfl, rfl⟩

theorem mapCopiedUserPage_ctl {k k' : Kernel} {i : Fin 16} {vaddr size flags : Nat}
    {src : Option Nat} {r : Int} (h : mapCopiedUserPage k i vaddr src size flags = .ok (r, k')) :
    Loaded i k k' := by
  unfold mapCopiedUserPage at h
  dsimp only at h
  split_ifs at h with h1 h2 h3 h4
  · cases h
    exact .refl i k _
  · cases h
    exact .refl i k _
  · cases h
    exact .refl i k _
  · cases h
    exact .refl i k _
  · obtain ⟨mm₁, -, h⟩ := bind_ok.mp h
    obtain ⟨mm₂, -, h⟩ := bind_ok.mp h
    obtain ⟨⟨r', mm₃⟩, -, h⟩ := bind_ok.mp h
    dsimp only at h
    split_ifs at h with hr
    · cases h
      exact .refl i k _
    · cases h
      exact .set _ ⟨rfl, rfl, rfl, rfl, rfl, rfl, rfl⟩

theorem loadEmxf_ctl {k k' : Kernel} {i : Fin 16} {image size : Nat} {r : Int}
    (h : loadEmxf k i image size = .ok (r, k')) : Loaded i k k' := by
  obtain ⟨hdr, -, h⟩ := bind_ok.mp h
  cases hdr with
  | none =>
    cases h
    exact .refl i k _
  | some c =>
    obtain ⟨⟨r', k₁⟩, h₁, h⟩ := bind_ok.mp h
    have hmap := mapCopiedUserPage_ctl h₁
    dsimp only at h
    split_ifs at h with hr
    · cases h
      exact hmap
    · cases h
      exact hmap.trans (.set _ ⟨rfl, rfl, rfl, rfl, rfl, rfl, rfl⟩)

theorem prepareExecSteps_ctl {k k' : Kernel} {i : Fin 16} {path : List Byte} {r : Int}
    (h : prepareExecSteps k i path = .ok (r, k')) : Loaded i k k' := by
  obtain ⟨file, -, h⟩ := bind_ok.mp h
  cases file with
  | none =>
    cases h
    exact .refl i k _
  | some f =>
    obtain ⟨⟨r₁, k₁⟩, h₁, h⟩ := bind_ok.mp h
    have hload := loadEmxf_ctl h₁
    dsimp only at h
    split_ifs at h with hr₁
    · cases h
      exact hload
    · obtain ⟨⟨r₂, k₂⟩, h₂, h⟩ := bind_ok.mp h
      have hmap := hload.trans (mapCopiedUserPage_ctl h₂)
      dsimp only at h
      split_ifs at h with hr₂
      · cases h
        exact hmap
      · cases h
        exact hmap.trans (.set _ ⟨rfl, rfl, rfl, rfl, rfl, rfl, rfl⟩)

theorem userPrepareExec_ctl {k k' : Kernel} {i : Fin 16} {path : List Byte} {r : Int}
    (h : userPrepareExec k i path = .ok (r, k')) : Loaded i k k' := by
  obtain ⟨⟨r₁, k₁⟩, h₁, h⟩ := bind_ok.mp h
  have hsteps := prepareExecSteps_ctl h₁
  dsimp only at h
  split_ifs at h with hr
  · obtain ⟨k₂, h₂, h⟩ := bind_ok.mp h
    cases h
    exact hsteps.trans (userProcessFreePages_loaded h₂)
  · cases h
    exact hsteps

/-- What `user_process_orphan_children` may do to a record. -/
def UserProcess.Orphaned (p p' : UserProcess) : Prop :=
  p' = p ∨ (p.state = .exited ∧ p' = UserProcess.zero) ∨
    (p.state ≠ .free ∧ p' = { p with parentPid := 0 })

theorem UserProcess.Orphaned.trans {p p' p'' : UserProcess} (h : p.Orphaned p')
    (h' : p'.Orphaned p'') : p.Orphaned p'' := by
  obtain rfl | ⟨hp, rfl⟩ | ⟨hp, rfl⟩ := h
  · exact h'
  · obtain rfl | ⟨h0, -⟩ | ⟨h0, -⟩ := h'
    · exact .inr (.inl ⟨hp, rfl⟩)
    · cases h0
    · exact absurd rfl h0
  · obtain rfl | ⟨hexit, rfl⟩ | ⟨-, rfl⟩ := h'
    · exact .inr (.inr ⟨hp, rfl⟩)
    · exact .inr (.inl ⟨hexit, rfl⟩)
    · exact .inr (.inr ⟨hp, rfl⟩)

theorem userProcessOrphanChildren_each (ps : Fin 16 → UserProcess) (parent n : Fin 16) :
    (ps n).Orphaned (userProcessOrphanChildren ps parent n) := by
  unfold userProcessOrphanChildren
  induction List.finRange 16 generalizing ps with
  | nil => exact .inl rfl
  | cons j l ih =>
    rw [List.foldl_cons]
    refine UserProcess.Orphaned.trans ?_ (ih _)
    by_cases hn : n = j
    · subst hn
      split_ifs with h₁ h₂
      · exact .inl rfl
      · exact .inr (.inl ⟨h₂, Function.update_self ..⟩)
      · exact .inr (.inr ⟨fun h => h₁ (.inl h), Function.update_self ..⟩)
    · split_ifs
      · exact .inl rfl
      · exact .inl (Function.update_of_ne hn ..)
      · exact .inl (Function.update_of_ne hn ..)

/-- What `user_process_orphan_children` does to a record, for the parent `pid`. -/
def UserProcess.orphan (pid : Nat) (p : UserProcess) : UserProcess :=
  if p.state = .free ∨ p.parentPid ≠ pid then p
  else if p.state = .exited then UserProcess.zero
  else { p with parentPid := 0 }

/-- The loop of `user_process_orphan_children` over the slots `l`. -/
theorem orphan_loop (l : List (Fin 16)) (hl : l.Nodup) {ps : Fin 16 → UserProcess}
    {parent : Fin 16} (hself : (ps parent).parentPid ≠ (ps parent).pid) :
    l.foldl (fun ps i =>
      if (ps i).state = .free ∨ (ps i).parentPid ≠ (ps parent).pid then ps
      else if (ps i).state = .exited then userProcessRelease ps i
      else Function.update ps i { ps i with parentPid := 0 }) ps =
    fun i => if i ∈ l then (ps i).orphan (ps parent).pid else ps i := by
  induction l generalizing ps with
  | nil => simp
  | cons j l ih =>
    obtain ⟨hj, hl⟩ := List.nodup_cons.mp hl
    -- one turn replaces record `j`, which is not the parent's unless nothing changes
    have hturn : (if (ps j).state = .free ∨ (ps j).parentPid ≠ (ps parent).pid then ps
        else if (ps j).state = .exited then userProcessRelease ps j
        else Function.update ps j { ps j with parentPid := 0 }) =
        Function.update ps j ((ps j).orphan (ps parent).pid) := by
      unfold UserProcess.orphan userProcessRelease
      split_ifs
      · rw [Function.update_eq_self]
      · rfl
      · rfl
    have hparent : Function.update ps j ((ps j).orphan (ps parent).pid) parent = ps parent := by
      by_cases hp : parent = j
      · subst hp
        rw [Function.update_self]
        exact if_pos (.inr hself)
      · rw [Function.update_of_ne hp]
    rw [List.foldl_cons, hturn, ih hl (by rwa [hparent]), hparent]
    funext i
    by_cases hi : i = j
    · subst hi
      simp [hj]
    · simp [hi]

/-- **`user_process_orphan_children` on every record**, if the parent is not its own parent. -/
theorem userProcessOrphanChildren_eq {ps : Fin 16 → UserProcess} {parent : Fin 16}
    (hself : (ps parent).parentPid ≠ (ps parent).pid) :
    userProcessOrphanChildren ps parent = fun i => (ps i).orphan (ps parent).pid := by
  unfold userProcessOrphanChildren
  rw [orphan_loop _ (List.nodup_finRange 16) hself]
  simp

theorem spawnInto_ctl {k k' : Kernel} {i : Fin 16} {r : Int} (h : spawnInto k i = .ok (r, k')) :
    (r = -1 ∧ k' = { k with mm := k'.mm, processes := userProcessRelease k.processes i }) ∨
    (r = -1 ∧ k'.toCtl = { k.reap with processes := userProcessRelease k.processes i }) ∨
    ∃ j t, k.reap.freeSlot = some j ∧ t.id = k.nextTaskId ∧ t.state = .runnable ∧
      t.entry = some .userExecTask ∧ t.cont = .start ∧
      ((toInt32 k.nextTaskId < 0 ∧ r = -1 ∧
          k'.toCtl = { k.reap.addTask j t with processes := userProcessRelease k.processes i }) ∨
        ∃ d, 0 ≤ toInt32 k.nextTaskId ∧ r = toInt32 (k.processes i).pid ∧
          k'.toCtl = { k.reap.addTask j t with
            processes := Function.update k.processes i
              { k.processes i with addressSpace := d
                                   taskId := (toInt32 k.nextTaskId).toNat } }) := by
  obtain ⟨⟨d, mm⟩, -, h⟩ := bind_ok.mp h
  dsimp only at h
  split_ifs at h with hd
  · cases h
    exact .inl ⟨rfl, rfl⟩
  obtain ⟨⟨id, k₁⟩, h₁, h⟩ := bind_ok.mp h
  dsimp only at h
  refine .inr ?_
  obtain ⟨hid, hk₁⟩ | ⟨j, t, hj, ht, hrun, hentry, hcont, hid, hk₁⟩ := kthreadCreate_ctl h₁
  · rw [hid, if_pos (by decide)] at h
    obtain ⟨mm', -, h⟩ := bind_ok.mp h
    cases h
    refine .inl ⟨rfl, ?_⟩
    rw [hk₁]
    simp only [Ctl.reap, userProcessRelease, Function.update_idem]
  · refine .inr ⟨j, t, hj, ht, hrun, hentry, hcont, ?_⟩
    by_cases hneg : id < 0
    · rw [if_pos hneg] at h
      obtain ⟨mm', -, h⟩ := bind_ok.mp h
      cases h
      refine .inl ⟨hid ▸ hneg, rfl, ?_⟩
      rw [hk₁]
      simp only [Ctl.addTask, Ctl.reap, userProcessRelease, Function.update_idem]
    · rw [if_neg hneg] at h
      cases h
      refine .inr ⟨d, hid ▸ not_lt.mp hneg, ?_, ?_⟩
      · rw [hk₁]
        simp only [Ctl.addTask, Ctl.reap, Function.update_self]
      · rw [hk₁, hid]
        simp only [Ctl.addTask, Ctl.reap, Function.update_self, Function.update_idem]

theorem userExecTask_ctl {k k' : Kernel} {b : Bool} (h : userExecTask k = .ok (b, k')) :
    (k.caller = none ∧ b = false ∧ k' = k) ∨
    ∃ i, k.caller = some i ∧
      ((b = false ∧ k'.toCtl = { k.toCtl with processes := userProcessRelease k.processes i }) ∨
        ∃ p, (k.processes i).SameButLoaded p ∧ b = true ∧ k.currentTask ≠ 0 ∧
          p.addressSpace ≠ 0 ∧ k'.toCtl = k.enter i p) := by
  unfold userExecTask at h
  rw [Ctl.caller_eq] at h
  cases hc : k.caller with
  | none =>
    rw [hc] at h
    cases h
    exact .inl ⟨rfl, rfl, rfl⟩
  | some i =>
    rw [hc] at h
    refine .inr ⟨i, rfl, ?_⟩
    obtain ⟨⟨r₁, k₁⟩, h₁, h⟩ := bind_ok.mp h
    have hload := userPrepareExec_ctl h₁
    obtain ⟨⟨r₂, k₂⟩, h₂, h⟩ := bind_ok.mp h
    dsimp only at h₂ h
    by_cases hr₁ : r₁ ≠ 0
    · -- not loaded
      cases (if_pos hr₁).symm.trans h₂
      rw [if_pos hr₁] at h
      obtain ⟨mm, -, h⟩ := bind_ok.mp h
      cases h
      exact .inl ⟨rfl, hload.release⟩
    rw [if_neg hr₁] at h₂
    unfold schedSetCurrentAddressSpace at h₂
    by_cases hset : k₁.currentTask = 0 ∨ (k₁.processes i).addressSpace = 0
    · -- loaded, but the task cannot adopt the directory
      rw [if_pos hset] at h₂
      obtain ⟨k₃, h₃, h₂⟩ := bind_ok.mp h₂
      cases h₂
      obtain ⟨mm, -, h⟩ := bind_ok.mp h
      cases h
      exact .inl ⟨rfl, (hload.trans (userProcessFreePages_loaded h₃)).release⟩
    · rw [if_neg hset] at h₂
      cases h₂
      cases h
      obtain ⟨p, hp, hk₁⟩ := hload
      rw [not_or] at hset
      rw [hk₁] at hset ⊢
      dsimp only at hset
      rw [Function.update_self] at hset
      refine .inr ⟨p, hp, rfl, hset.1, hset.2, ?_⟩
      simp only [Ctl.enter, Ctl.setCont, Function.update_self, Function.update_idem]

theorem userExitCurrent_ctl {k k' : Kernel} {status : Nat}
    (h : userExitCurrent k status = .ok k') :
    (k.caller = none ∧ k' = k) ∨
    ∃ i, k.caller = some i ∧ k' = { k with mm := k'.mm, processes := k.exitRecords i status } := by
  unfold userExitCurrent at h
  rw [Ctl.caller_eq] at h
  cases hc : k.caller with
  | none =>
    rw [hc] at h
    cases h
    exact .inl ⟨rfl, rfl⟩
  | some i =>
    rw [hc] at h
    obtain ⟨k₁, h₁, h⟩ := bind_ok.mp h
    cases h
    refine .inr ⟨i, rfl, ?_⟩
    rw [userProcessFreePages_ctl h₁]
    simp only [Ctl.exitRecords, Ctl.exitTable, UserProcess.exit, Function.update_self,
      Function.update_idem]

-- it is a loop over the table: `exitRecords_cases` and what follows from it are all that is used
attribute [irreducible] Ctl.exitRecords

end Emyx
