/-
  File:      Emyx/Kernel/Scenes.lean
  Subject:   SCENES: runs of the kernel that are computed, step by step.

  A claim about every run is refuted, or seen not to be empty, by a run that is written out. The
  machine is the one of Kernel/SmallMachine.lean, with an archive of one program; a scene is a state
  of it whose tables are written out, and each lemma is one step from a scene to the next.

  User code takes no step the processor could not take: in each of them the directory that is
  loaded maps the page of the code (`CodeThere`).

  * `selfProgram` -- a program that does what keys tell it to; the first two words of its code are
    directory entries for the frame `0x116`;
  * `Took`, `Leads` -- one step, and a run of them;
  * `Scene` -- the tables written out, memory in order, room for so many frames;
  * `Scene.yield`, `Scene.create`, `Scene.spawn`, `Scene.startProcess`, `Scene.exit` and the others
    -- the steps.
-/
import Emyx.Kernel.Emxf

namespace Emyx

open Lib

/-! ## 1. The program -/

/-- The words the program starts with: each is a directory entry for the frame `0x116`, present and
    open to user code. -/
def selfWords : List Byte := le32 0x00116007 ++ le32 0x00116007

/-- The code behind them, entered at offset 8. It reads two keys, makes the system call that the
    second one names (with the first as its argument, or the path behind the code for a spawn),
    then yields, for ever. It uses no stack. -/
def selfLoop : List Byte :=
  [0xb8, 4, 0, 0, 0, 0xcd, 0x80, -- mov eax, SYS_GETC; int 0x80
    0x83, 0xe8, 0x30, 0x89, 0xc3, -- sub eax, '0'; mov ebx, eax
    0xb8, 4, 0, 0, 0, 0xcd, 0x80, -- mov eax, SYS_GETC; int 0x80
    0x83, 0xe8, 0x30, -- sub eax, '0'
    0x83, 0xf8, 5, 0x75, 5, -- cmp eax, SYS_SPAWN; jne over the next
    0xbb, 0x33, 0, 0x40, 0, -- mov ebx, 0x00400033
    0xcd, 0x80, -- int 0x80
    0xb8, 3, 0, 0, 0, 0xcd, 0x80, -- mov eax, SYS_YIELD; int 0x80
    0xeb, 0xd5, -- jmp to the start
    0x2f, 0x61, 0] -- "/a"

/-- The program. -/
def selfProgram : List Byte :=
  [0x45, 0x4D, 0x58, 0x46] ++ le32 54 ++ le32 8 ++ (selfWords ++ selfLoop)

/-- The archive with that program as its only file, `/a`. -/
def selfArchive : List Byte :=
  ([0x45, 0x4D, 0x58, 0x41] ++ le32 1 ++ (pathField [0x2f, 0x61] ++ (le32 48 ++ le32 66))) ++
    selfProgram

/-- The module as `boot_init` publishes it. -/
def selfModule : BootModule := ⟨0xC0050000, 114⟩

theorem fileAt_selfArchive : FileAt selfArchive [0x2f, 0x61] 48 66 :=
  ⟨1, 0, ⟨by decide, by decide, by decide, by decide⟩, by decide, by decide, nofun, by decide,
    by decide, by decide⟩

/-- What starting the program relies on. -/
structure HasProgram (p0 : Pmm) (m : Mem) : Prop where
  find : initramfsFind m selfModule [0x2f, 0x61] = .ok (some (0xC0050030, 66))
  header : emxfHeader m 0xC0050030 66 = .ok (some (54, 8))
  source : SourceOk (some ((0xC0050030 + 12) % 2 ^ 32)) 54
  outside : ∀ x, x < 54 → Outside p0 ((0xC0050030 + 12) % 2 ^ 32 - 0xC0000000 + x)
  code : HoldsBytes m 0x5003C (selfWords ++ selfLoop)

theorem hasProgram {s0 s : Mm} {ps : Fin 16 → UserProcess} {bs : List Blk}
    (h : MmInv (smallPmm selfArchive) s0 ps bs s) (hs : HoldsBytes s0.mem 0x50000 selfArchive) :
    HasProgram (smallPmm selfArchive) s.mem := by
  have harch := h.holds_small (by decide) hs
  obtain ⟨-, hprog⟩ := reads_append.mp harch
  have hcode : HoldsBytes s.mem 0x50030 selfProgram := hprog
  have hhdr := emxfHeader_bytes (hcode.image (by decide)) (by decide) (by decide)
  refine ⟨initramfsFind_file harch (by decide) (by decide) fileAt_selfArchive, hhdr, fun a ha => ?_,
    fun x hx => smallPmm_outside _ (by omega), (reads_append.mp hcode).2⟩
  cases ha
  decide

/-! ## 2. Tables -/

/-- The task table with four slots written out. -/
def fourTasks (a b c d : Task) : Fin 16 → Task := fun t =>
  if t = 0 then a else if t = 1 then b else if t = 2 then c else if t = 3 then d else Task.empty

/-- The process table with three records written out. -/
def threeRecords (p q r : UserProcess) : Fin 16 → UserProcess := fun i =>
  if i = 0 then p else if i = 1 then q else if i = 2 then r else UserProcess.zero

/-- Task 0. -/
def bootTask (s0 : Mm) (state : TaskState) : Task :=
  ⟨0, state, s0.kernelPageDirectory, 0, none, .kernel⟩

/-- A task of a thread. -/
def threadTask (s0 : Mm) (id stack : Nat) (state : TaskState) (cont : Cont) : Task :=
  ⟨id, state, s0.kernelPageDirectory, stack, some .thread, cont⟩

/-- A task of a process, on the directory `d`. -/
def userTask (id d stack : Nat) (state : TaskState) (cont : Cont) : Task :=
  ⟨id, state, d, stack, some .userExecTask, cont⟩

/-- The record of a process that runs, with its two pages. -/
def runningRecord (pid taskId parentPid d f g : Nat) : UserProcess :=
  ⟨pid, taskId, parentPid, d, 0x00400008, 0x007ff000, 4096, 0, .running, [0x2f, 0x61],
    [⟨0x00400000, f⟩, ⟨0x007ff000, g⟩]⟩

section

variable {a b c d : Task} {p q r : UserProcess} {t cur : Fin 16}

/-- There is no task from slot 4 on. -/
theorem fourTasks_used (h : (fourTasks a b c d t).state ≠ .unused) :
    t = 0 ∨ t = 1 ∨ t = 2 ∨ t = 3 := by
  by_contra hc
  simp only [not_or] at hc
  obtain ⟨h0, h1, h2, h3⟩ := hc
  refine h ?_
  unfold fourTasks
  rw [if_neg h0, if_neg h1, if_neg h2, if_neg h3]
  rfl

theorem fourTasks_zombie (h : (fourTasks a b c d t).state = .zombie) (h0 : t ≠ 0) :
    t = 1 ∧ b.state = .zombie ∨ t = 2 ∧ c.state = .zombie ∨ t = 3 ∧ d.state = .zombie := by
  rcases fourTasks_used (by rw [h]; nofun) with rfl | rfl | rfl | rfl
  · exact absurd rfl h0
  · exact .inl ⟨rfl, h⟩
  · exact .inr (.inl ⟨rfl, h⟩)
  · exact .inr (.inr ⟨rfl, h⟩)

/-- Slot `z` is the only one that may hold a zombie. -/
theorem fourTasks_only {z : Fin 16} (hb : z ≠ 1 → b.state ≠ .zombie)
    (hc : z ≠ 2 → c.state ≠ .zombie) (hd : z ≠ 3 → d.state ≠ .zombie) (h0 : t ≠ 0)
    (h : (fourTasks a b c d t).state = .zombie) : t = z := by
  by_contra hne
  rcases fourTasks_zombie h h0 with ⟨rfl, h⟩ | ⟨rfl, h⟩ | ⟨rfl, h⟩
  · exact hb (Ne.symm hne) h
  · exact hc (Ne.symm hne) h
  · exact hd (Ne.symm hne) h

theorem noZombie_four (hb : b.state ≠ .zombie) (hc : c.state ≠ .zombie) (hd : d.state ≠ .zombie)
    (t : Fin 16) (h0 : t ≠ 0) (_ : t ≠ cur) : (fourTasks a b c d t).state ≠ .zombie := fun ht => by
  rcases fourTasks_zombie ht h0 with ⟨-, h⟩ | ⟨-, h⟩ | ⟨-, h⟩
  · exact hb h
  · exact hc h
  · exact hd h

/-- What holds of three records and of a free one holds of all. -/
theorem threeRecords_each {P : Fin 16 → UserProcess → Prop} (hp : P 0 p) (hq : P 1 q) (hr : P 2 r)
    (h0 : ∀ n, P n UserProcess.zero) (n : Fin 16) : P n (threeRecords p q r n) := by
  unfold threeRecords
  split_ifs with h h' h''
  · exact h ▸ hp
  · exact h' ▸ hq
  · exact h'' ▸ hr
  · exact h0 n

theorem threeRecords_forall {P : UserProcess → Prop} (hp : P p) (hq : P q) (hr : P r)
    (h0 : P UserProcess.zero) (n : Fin 16) : P (threeRecords p q r n) :=
  threeRecords_each (P := fun _ => P) hp hq hr (fun _ => h0) n

theorem threeRecords_exited (hp : p.state = .exited → p.pages = [])
    (hq : q.state = .exited → q.pages = []) (hr : r.state = .exited → r.pages = []) (n : Fin 16) :
    (threeRecords p q r n).state = .exited → (threeRecords p q r n).pages = [] :=
  threeRecords_forall (P := fun p => p.state = .exited → p.pages = []) hp hq hr (fun _ => rfl) n

/-- No record has pages in the address space `e`. -/
theorem threeRecords_spaces {e : Nat} (hp : p.pages ≠ [] → p.addressSpace ≠ e)
    (hq : q.pages ≠ [] → q.addressSpace ≠ e) (hr : r.pages ≠ [] → r.addressSpace ≠ e) (n : Fin 16) :
    (threeRecords p q r n).pages ≠ [] → (threeRecords p q r n).addressSpace ≠ e :=
  threeRecords_forall (P := fun p => p.pages ≠ [] → p.addressSpace ≠ e) hp hq hr
    (fun h => absurd rfl h) n

/-- No record but `i` has pages in the address space `e`. -/
theorem threeRecords_alone {i : Fin 16} {e : Nat}
    (hp : (0 : Fin 16) ≠ i → p.pages ≠ [] → p.addressSpace ≠ e)
    (hq : (1 : Fin 16) ≠ i → q.pages ≠ [] → q.addressSpace ≠ e)
    (hr : (2 : Fin 16) ≠ i → r.pages ≠ [] → r.addressSpace ≠ e) (n : Fin 16) :
    n ≠ i → (threeRecords p q r n).pages ≠ [] → (threeRecords p q r n).addressSpace ≠ e :=
  threeRecords_each (P := fun n p => n ≠ i → p.pages ≠ [] → p.addressSpace ≠ e) hp hq hr
    (fun _ _ h => absurd rfl h) n

/-- Each record in use has a pid. -/
theorem threeRecords_pids (hp : p.state ≠ .free → p.pid ≠ 0) (hq : q.state ≠ .free → q.pid ≠ 0)
    (hr : r.state ≠ .free → r.pid ≠ 0) (n : Fin 16) :
    (threeRecords p q r n).state ≠ .free → (threeRecords p q r n).pid ≠ 0 :=
  threeRecords_forall (P := fun p => p.state ≠ .free → p.pid ≠ 0) hp hq hr (fun h => absurd rfl h) n

end

/-! ## 3. Steps -/

/-- A step of user code is made with the code there: the directory that is loaded maps
    `0x00400000`. -/
def CodeThere (k : Kernel) (_ : Op) (_ : Kernel) : Prop :=
  k.cont = .user → walk k.mm.mem k.cr3 0x00400000 ≠ none

/-- The current task did `op`, which it can, and the call returned `r`. -/
structure Took (k : Kernel) (op : Op) (r : Option Int) (k' : Kernel) : Prop where
  legal : op.Legal k.toCtl
  code : CodeThere k op k'
  exec : k.exec op = .ok (r, k')

/-- `k'` is reached from `k`. -/
def Leads (k k' : Kernel) : Prop := ∃ ops, KRun CodeThere k ops k'

section

variable {C : Kernel → Op → Kernel → Prop} {k0 k k₁ k₂ : Kernel} {ops ops' : List Op} {op : Op}
  {r : Option Int}

theorem KRun.trans (h : KRun C k0 ops k₁) (h' : KRun C k₁ ops' k₂) :
    KRun C k0 (ops ++ ops') k₂ := by
  induction h' with
  | boot => rwa [List.append_nil]
  | step _ hop hC e ih =>
    rw [← List.append_assoc]
    exact .step ih hop hC e

theorem KRun.any (h : KRun C k0 ops k) : KRun AnyStep k0 ops k := by
  induction h with
  | boot => exact .boot
  | step _ hop _ e ih => exact .step ih hop trivial e

/-- A run goes on by a step. -/
theorem KRun.took (h : KRun C k0 ops k) (ht : Took k op r k₁) (hC : C k op k₁) :
    KRun C k0 (ops ++ [op]) k₁ := .step h ht.legal hC ht.exec

theorem Leads.refl (k : Kernel) : Leads k k := ⟨[], .boot⟩

theorem Leads.trans (h : Leads k k₁) (h' : Leads k₁ k₂) : Leads k k₂ := by
  obtain ⟨ops, h⟩ := h
  obtain ⟨ops', h'⟩ := h'
  exact ⟨_, h.trans h'⟩

theorem Leads.took (h : Leads k k₁) (ht : Took k₁ op r k₂) : Leads k k₂ := by
  obtain ⟨ops, h⟩ := h
  exact ⟨_, h.took ht ht.code⟩

theorem Took.leads (ht : Took k op r k₁) : Leads k k₁ := (Leads.refl k).took ht

end

/-! ## 4. Scenes -/

/-- The kernel stands at the tables `c`, with the module in place, memory in order and room for `n`
    frames. -/
structure Scene (s0 : Mm) (c : Ctl) (n : Nat) (k : Kernel) : Prop where
  ctl : k.toCtl = c
  running : (c.tasks c.currentTask).state = .running
  cr3 : k.cr3 = (c.tasks c.currentTask).addressSpace
  module : k.bootModule = selfModule
  backed : ∃ bs, Backed (smallPmm selfArchive) s0 k bs
  room : Room k.mm.pmm n

/-- A record has a page for the code in the address space of the current task. -/
def Ctl.CodeMapped (c : Ctl) : Prop :=
  ∃ i, (c.processes i).addressSpace = (c.tasks c.currentTask).addressSpace ∧
    ∃ x ∈ (c.processes i).pages, x.vaddr = 0x00400000

/-- The current task can make a call. -/
def Ctl.CanCall (c : Ctl) : Prop := c.cont = .kernel ∨ c.cont = .user ∧ c.CodeMapped

/-- The slot `z` may hold a thread's zombie, and no other slot a zombie to reap. -/
def Ctl.OneZombie (c : Ctl) (kd : Nat) (z : Fin 16) : Prop :=
  (z ≠ 0 ∧ z ≠ c.currentTask) ∧ ∀ t, t ≠ 0 → t ≠ c.currentTask → (c.tasks t).state = .zombie →
    t = z ∧ (c.tasks z).addressSpace = kd

section

variable {s0 : Mm} {a b c d : Task} {cur : Fin 16} {x pid kd : Nat} {ps : Fin 16 → UserProcess}

theorem oneZombie_four {z : Fin 16} (hz : z ≠ 0) (hcur : cur ≠ z) (hb : z ≠ 1 → b.state ≠ .zombie)
    (hc : z ≠ 2 → c.state ≠ .zombie) (hd : z ≠ 3 → d.state ≠ .zombie)
    (hspace : (fourTasks a b c d z).state = .zombie → (fourTasks a b c d z).addressSpace = kd) :
    Ctl.OneZombie ⟨fourTasks a b c d, cur, x, ps, pid⟩ kd z := by
  refine ⟨⟨hz, hcur.symm⟩, fun t h0 _ ht => ?_⟩
  obtain rfl := fourTasks_only hb hc hd h0 ht
  exact ⟨rfl, hspace ht⟩

theorem oneZombie_two (hb : b.state ≠ .zombie) (hd : d.state ≠ .zombie) (hcur : cur ≠ 2)
    (hc : c.state = .zombie → c.addressSpace = kd) :
    Ctl.OneZombie ⟨fourTasks a b c d, cur, x, ps, pid⟩ kd 2 :=
  oneZombie_four (by decide) hcur (fun _ => hb) (fun h => absurd rfl h) (fun _ => hd) hc

theorem oneZombie_three (hb : b.state ≠ .zombie) (hc : c.state ≠ .zombie) (hcur : cur ≠ 3)
    (hd : d.state = .zombie → d.addressSpace = kd) :
    Ctl.OneZombie ⟨fourTasks a b c d, cur, x, ps, pid⟩ kd 3 :=
  oneZombie_four (by decide) hcur (fun _ => hb) (fun _ => hc) (fun h => absurd rfl h) hd

/-- The process in slot `z` has ended. -/
theorem processZombie_four {z : Fin 16} (hz : z ≠ 0) (hcur : cur ≠ z)
    (hb : z ≠ 1 → b.state ≠ .zombie) (hc : z ≠ 2 → c.state ≠ .zombie)
    (hd : z ≠ 3 → d.state ≠ .zombie) (hstate : (fourTasks a b c d z).state = .zombie)
    (hp : ∀ m, (ps m).pages ≠ [] → (ps m).addressSpace ≠ (fourTasks a b c d z).addressSpace) :
    Ctl.ProcessZombie ⟨fourTasks a b c d, cur, x, ps, pid⟩ z :=
  ⟨⟨hz, hcur.symm⟩, hstate, fun _ h0 _ ht => fourTasks_only hb hc hd h0 ht, hp⟩

theorem processZombie_one (hc : c.state ≠ .zombie) (hd : d.state ≠ .zombie) (hcur : cur ≠ 1)
    (hb : b.state = .zombie)
    (hp : ∀ m, (ps m).pages ≠ [] → (ps m).addressSpace ≠ b.addressSpace) :
    Ctl.ProcessZombie ⟨fourTasks a b c d, cur, x, ps, pid⟩ 1 :=
  processZombie_four (by decide) hcur (fun h => absurd rfl h) (fun _ => hc) (fun _ => hd) hb hp

theorem processZombie_two (hb : b.state ≠ .zombie) (hd : d.state ≠ .zombie) (hcur : cur ≠ 2)
    (hc : c.state = .zombie)
    (hp : ∀ m, (ps m).pages ≠ [] → (ps m).addressSpace ≠ c.addressSpace) :
    Ctl.ProcessZombie ⟨fourTasks a b c d, cur, x, ps, pid⟩ 2 :=
  processZombie_four (by decide) hcur (fun _ => hb) (fun h => absurd rfl h) (fun _ => hd) hc hp

theorem processZombie_three (hb : b.state ≠ .zombie) (hc : c.state ≠ .zombie) (hcur : cur ≠ 3)
    (hd : d.state = .zombie)
    (hp : ∀ m, (ps m).pages ≠ [] → (ps m).addressSpace ≠ d.addressSpace) :
    Ctl.ProcessZombie ⟨fourTasks a b c d, cur, x, ps, pid⟩ 3 :=
  processZombie_four (by decide) hcur (fun _ => hb) (fun _ => hc) (fun h => absurd rfl h) hd hp

/-- The tables, slot by slot. -/
theorem Ctl.tables_eq {t : Ctl} {T : Fin 16 → Task} (htasks : ∀ i, t.tasks i = T i)
    (hcur : t.currentTask = cur) (hx : t.nextTaskId = x) (hps : t.processes = ps)
    (hpid : t.nextPid = pid) : t = ⟨T, cur, x, ps, pid⟩ := by
  rw [← funext htasks, ← hcur, ← hx, ← hps, ← hpid]

theorem Scene.tables {t : Ctl} {T : Fin 16 → Task} {n : Nat} {k : Kernel} (h : Scene s0 t n k)
    (htasks : ∀ i, t.tasks i = T i) (hcur : t.currentTask = cur) (hx : t.nextTaskId = x)
    (hps : t.processes = ps) (hpid : t.nextPid = pid) : Scene s0 ⟨T, cur, x, ps, pid⟩ n k :=
  Ctl.tables_eq htasks hcur hx hps hpid ▸ h

theorem Scene.counters {T : Fin 16 → Task} {n m : Nat} {k k' : Kernel} {op : Op}
    (h : Scene s0 ⟨T, cur, x, ps, pid⟩ n k') (hp : pid ≤ m) (ht : x ≤ m) :
    CountersUpTo m k op k' := by
  unfold CountersUpTo
  rw [h.ctl]
  exact ⟨hp, ht⟩

end

section

variable {s0 : Mm} {c : Ctl} {n : Nat} {k : Kernel} {z j idx : Fin 16}

theorem Scene.less (h : Scene s0 c n k) {n' : Nat} (hn : n' ≤ n) : Scene s0 c n' k :=
  { h with room := h.room.le hn }

theorem Scene.oneZombie (h : Scene s0 c n k) (hz : c.OneZombie s0.kernelPageDirectory z) :
    k.OneZombie z := by
  obtain ⟨bs, hb⟩ := h.backed
  obtain ⟨hslot, honly⟩ := hz
  rw [← h.ctl] at hslot honly
  refine ⟨hslot, fun t h0 hc ht => ?_⟩
  rw [hb.mm.kernel]
  exact honly t h0 hc ht

/-- The pages of a record are mapped. -/
theorem MmInv.walk_page {p0 : Pmm} {s : Mm} {bs : List Blk} {ps : Fin 16 → UserProcess}
    (h : MmInv p0 s0 ps bs s) {i : Fin 16} {x : UserPage} (hx : x ∈ (ps i).pages) :
    walk s.mem (ps i).addressSpace x.vaddr ≠ none := by
  have hd := (h.pages i).space (List.ne_nil_of_mem hx)
  have hv := ((h.pages i).user x hx).2
  have hown : pdeIndex x.vaddr < ownEntries s (ps i).addressSpace := by
    refine Nat.lt_of_lt_of_le (m := 768) ?_ (ownEntries_le _ _).1
    rw [pdeIndex_eq]
    omega
  have hmap := (h.maps _ hd (x.vaddr / 4096) x.paddr).mpr ⟨i, rfl, x, hx, rfl, rfl⟩
  rw [mapOf_page (.inr hd) (by omega) hown] at hmap
  rw [walk_eq_map, hmap]
  exact nofun

theorem Scene.walk_code (h : Scene s0 c n k) (hc : c.CodeMapped) :
    walk k.mm.mem k.cr3 0x00400000 ≠ none := by
  obtain ⟨bs, hb⟩ := h.backed
  obtain ⟨i, hi, x, hx, hv⟩ := hc
  rw [h.cr3, ← hi, ← hv]
  obtain rfl := h.ctl
  exact hb.mm.walk_page hx

theorem Scene.codeThere (h : Scene s0 c n k) (hc : c.CanCall) (op : Op) (k' : Kernel) :
    CodeThere k op k' := fun hu => by
  rw [h.ctl] at hu
  rcases hc with hk | ⟨-, hc⟩
  · cases hu.symm.trans hk
  · exact h.walk_code hc

/-- A task that has not run makes no step of user code. -/
theorem Scene.codeThere_start (h : Scene s0 c n k) (hc : c.cont = .start) (op : Op) (k' : Kernel) :
    CodeThere k op k' := fun hu => by
  rw [h.ctl] at hu
  cases hu.symm.trans hc

theorem Ctl.CanCall.legal (hc : c.CanCall) : c.cont = .kernel ∨ c.cont = .user :=
  hc.imp_right And.left

theorem Ctl.switchTo_running (c : Ctl) (idx : Fin 16) :
    ((c.switchTo idx).tasks (c.switchTo idx).currentTask).state = .running := by
  obtain ⟨st, he, hrun, -⟩ := c.switchTo_tasks idx idx
  exact (congrArg Task.state he).trans (hrun rfl)

/-- A task that is created is not the one that is running. -/
theorem Ctl.addTask_current {t : Task} (hr : (c.tasks c.currentTask).state = .running)
    (hj : c.reap.freeSlot = some j) :
    (c.reap.addTask j t).tasks c.currentTask = c.tasks c.currentTask := by
  have hne : c.currentTask ≠ j := fun e => by
    have hu := Ctl.freeSlot_some hj
    rw [← e, Ctl.reap_current, hr] at hu
    cases hu
  exact (Function.update_of_ne hne ..).trans Ctl.reap_current

theorem Scene.yield (h : Scene s0 c n k) (hc : c.CanCall)
    (hz : c.OneZombie s0.kernelPageDirectory z) (hn : c.reap.nextRunnable = some idx) :
    ∃ k', Took k .yield none k' ∧ Scene s0 (c.reap.switchTo idx) n k' ∧
      k'.mm = { k.mm with mem := k'.mm.mem } ∧
      ((c.tasks z).state ≠ .zombie → k'.mm = k.mm) := by
  obtain ⟨bs, hb⟩ := h.backed
  have hz' := h.oneZombie hz
  have hcode := h.codeThere hc .yield
  obtain rfl := h.ctl
  obtain ⟨m', esp0, bs', e, hb', hmem⟩ := hb.yield hz' hn
  exact ⟨_, ⟨hc.legal, hcode _, bind_ok.mpr ⟨_, e, rfl⟩⟩,
    ⟨rfl, Ctl.switchTo_running .., rfl, h.module, ⟨bs', hb'⟩, h.room⟩, rfl,
    fun hno => by rw [hmem hno]⟩

/-- With no zombie a yield leaves memory alone. -/
theorem Scene.switch (h : Scene s0 c n k) (hc : c.CanCall)
    (hnone : ∀ t, t ≠ 0 → t ≠ c.currentTask → (c.tasks t).state ≠ .zombie)
    (hn : c.nextRunnable = some idx) :
    ∃ k', Took k .yield none k' ∧ Scene s0 (c.switchTo idx) n k' ∧ k'.mm = k.mm := by
  obtain ⟨bs, hb⟩ := h.backed
  have hcode := h.codeThere hc .yield
  obtain rfl := h.ctl
  obtain ⟨esp0, e⟩ := schedYield_switch (reapZombies_none hnone) hn
  have hstacks := Ctl.sameStacks_switchTo (Ctl.nextRunnable_some hn)
  exact ⟨_, ⟨hc.legal, hcode _, bind_ok.mpr ⟨_, e, rfl⟩⟩,
    ⟨rfl, Ctl.switchTo_running .., rfl, h.module, ⟨bs, hb.of_tasks rfl rfl hstacks⟩, h.room⟩, rfl⟩

/-- The yield after a process has ended destroys its address space. -/
theorem Scene.yield_reaps (h : Scene s0 c n k) (hc : c.CanCall) (hz : c.ProcessZombie z)
    (hd : (c.tasks z).addressSpace ∈ k.mm.spaces) (hn : c.reap.nextRunnable = some idx) :
    ∃ k', Took k .yield none k' ∧ Scene s0 (c.reap.switchTo idx) n k' ∧
      k'.mm.spaces = k.mm.spaces.erase (c.tasks z).addressSpace := by
  obtain ⟨bs, hb⟩ := h.backed
  have hcode := h.codeThere hc .yield
  obtain rfl := h.ctl
  obtain ⟨mm, bs', er, hb', hsp, -, -, hsub, -⟩ := hb.reap_space hz hd
  obtain ⟨esp0, e⟩ := schedYield_switch er hn
  have hstacks := Ctl.sameStacks_switchTo (Ctl.nextRunnable_some hn)
  exact ⟨_, ⟨hc.legal, hcode _, bind_ok.mpr ⟨_, e, rfl⟩⟩,
    ⟨rfl, Ctl.switchTo_running .., rfl, h.module, ⟨bs', hb'.of_tasks rfl rfl hstacks⟩,
      hb.mm.room hb'.mm hsub h.room⟩, hsp⟩

/-! ### Threads -/

theorem Scene.create (h : Scene s0 c 0 k) (hcont : c.cont = .kernel)
    (hz : c.OneZombie s0.kernelPageDirectory z) (hj : c.reap.freeSlot = some j)
    (hroom : Room k.mm.pmm (n + 1) ∨ (c.tasks z).state = .zombie ∧ Room k.mm.pmm n) :
    ∃ k' p r, Took k .create r k' ∧ Scene s0 (c.reap.addTask j
      ⟨c.nextTaskId, .runnable, s0.kernelPageDirectory, p, some .thread, .start⟩) n k' ∧
      k'.mm.spaces = k.mm.spaces := by
  obtain ⟨bs, hb⟩ := h.backed
  have hz' := h.oneZombie hz
  have hcode := h.codeThere (.inl hcont) .create
  have hcr3 := h.cr3
  obtain rfl := h.ctl
  obtain ⟨p, mm, bs', e, hb', hroom', hsp, -⟩ := hb.kthread hz' hj hroom .thread
  have hcur := Ctl.addTask_current (t := ⟨k.nextTaskId, .runnable, s0.kernelPageDirectory, p,
    some .thread, .start⟩) h.running hj
  refine ⟨_, p, _, ⟨hcont, hcode _, bind_ok.mpr ⟨_, e, rfl⟩⟩, ⟨?_, ?_, ?_, h.module, ⟨bs', hb'⟩,
    hroom'⟩, hsp⟩
  · rw [← hb.mm.kernel]
  · exact (congrArg Task.state hcur).trans h.running
  · exact h.cr3.trans (congrArg Task.addressSpace hcur).symm

theorem Scene.startThread (h : Scene s0 c n k) (hcont : c.cont = .start)
    (hentry : (c.tasks c.currentTask).entry = some .thread) :
    ∃ k', Took k .start none k' ∧ Scene s0 (c.setCont .kernel) n k' ∧ k'.mm = k.mm := by
  obtain ⟨bs, hb⟩ := h.backed
  have hcode := h.codeThere_start hcont .start
  obtain rfl := h.ctl
  have hex : k.exec .start = .ok (none, { k with toCtl := k.setCont .kernel }) := by
    unfold Kernel.exec kthreadTrampoline
    dsimp only
    rw [hentry]
    rfl
  have hcur : (k.setCont .kernel).tasks k.currentTask =
      { k.tasks k.currentTask with cont := .kernel } := Function.update_self ..
  exact ⟨_, ⟨hcont, hcode _, hex⟩, ⟨rfl, (congrArg Task.state hcur).trans h.running,
    h.cr3.trans (congrArg Task.addressSpace hcur).symm, h.module, ⟨bs, hb.of_tasks rfl rfl
    (Ctl.sameStacks_current rfl rfl Iff.rfl)⟩, h.room⟩, rfl⟩

theorem Scene.threadExit (h : Scene s0 c n k) (hcont : c.cont = .kernel) (h0 : c.currentTask ≠ 0)
    (hnone : ∀ t, t ≠ 0 → t ≠ c.currentTask → (c.tasks t).state ≠ .zombie)
    (hn : c.zombify.nextRunnable = some idx) :
    ∃ k', Took k .threadExit none k' ∧ Scene s0 (c.zombify.switchTo idx) n k' ∧ k'.mm = k.mm := by
  obtain ⟨bs, hb⟩ := h.backed
  have hcode := h.codeThere (.inl hcont) .threadExit
  have hu : (c.tasks c.currentTask).state ≠ .unused := by rw [h.running]; nofun
  obtain rfl := h.ctl
  obtain ⟨esp0, e, hb'⟩ := hb.kexit h0 hu hnone hn
  exact ⟨_, ⟨hcont, hcode _, bind_ok.mpr ⟨_, e, rfl⟩⟩,
    ⟨rfl, Ctl.switchTo_running .., rfl, h.module, ⟨bs, hb'⟩, h.room⟩, rfl⟩

/-- A thread has its turn: it runs and ends. -/
theorem Scene.threadTurn (h : Scene s0 c n k) (hcont : c.cont = .start)
    (hentry : (c.tasks c.currentTask).entry = some .thread) (h0 : c.currentTask ≠ 0)
    (hnone : ∀ t, t ≠ 0 → t ≠ c.currentTask → (c.tasks t).state ≠ .zombie)
    (hn : (c.setCont .kernel).zombify.nextRunnable = some idx) :
    ∃ k', Leads k k' ∧ Scene s0 ((c.setCont .kernel).zombify.switchTo idx) n k' ∧ k'.mm = k.mm := by
  obtain ⟨k₁, t₁, h₁, hmm₁⟩ := h.startThread hcont hentry
  have hkernel : (c.setCont .kernel).cont = .kernel :=
    congrArg Task.cont (Function.update_self (f := c.tasks) ..)
  obtain ⟨k₂, t₂, h₂, hmm₂⟩ := h₁.threadExit hkernel h0 (fun t ht hc => by
    rw [show (c.setCont .kernel).tasks t = c.tasks t from Function.update_of_ne hc ..]
    exact hnone t ht hc) hn
  exact ⟨k₂, t₁.leads.took t₂, h₂, hmm₂.trans hmm₁⟩

end

/-! ### Processes -/

section

variable {s0 : Mm} {c : Ctl} {n : Nat} {k : Kernel} {z i j idx : Fin 16}

/-- A task whose process was entered. -/
theorem exec_start_enters {k' : Kernel} (hentry : (k.tasks k.currentTask).entry = some .userExecTask)
    (e : userExecTask k = .ok (true, k')) : k.exec .start = .ok (none, k') := by
  unfold Kernel.exec kthreadTrampoline
  dsimp only
  rw [hentry]
  simp only [e, ok_bind]
  rfl

/-- A task that ends because there was nothing to enter. -/
theorem exec_start_ends {k₁ k' : Kernel}
    (hentry : (k.tasks k.currentTask).entry = some .userExecTask)
    (e : userExecTask k = .ok (false, k₁)) (ek : kthreadExit k₁ = .ok k') :
    k.exec .start = .ok (none, k') := by
  unfold Kernel.exec kthreadTrampoline
  dsimp only
  rw [hentry]
  simp only [e, ok_bind, ek, if_neg Bool.false_ne_true]
  rfl

/-- The tables after a spawn have the same task running. -/
theorem Ctl.spawn_current {kd p f : Nat} {path : List Byte}
    (hr : (c.tasks c.currentTask).state = .running) (hj : c.reap.freeSlot = some j) :
    (c.spawn j i kd p f path).tasks (c.spawn j i kd p f path).currentTask =
      c.tasks c.currentTask := Ctl.addTask_current hr hj

theorem Scene.spawn (h : Scene s0 c (n + 2) k) (hs : HoldsBytes s0.mem 0x50000 selfArchive)
    (hc : c.CanCall) (hz : c.OneZombie s0.kernelPageDirectory z)
    (hj : c.reap.freeSlot = some j) (hi : userProcessAlloc c.processes = some i)
    (hpages : (c.processes i).pages = []) (hid : c.nextTaskId < 2 ^ 31) :
    ∃ k' p, Took k (.spawn (some [0x2f, 0x61])) (some (toInt32 c.nextPid)) k' ∧
      Scene s0 (c.spawn j i s0.kernelPageDirectory p (pmmAllocPage k.mm.pmm).1 [0x2f, 0x61]) n k' ∧
      k'.mm.spaces = (pmmAllocPage k.mm.pmm).1 :: k.mm.spaces ∧
      (pmmAllocPage k.mm.pmm).1 ∉ k.mm.spaces ∧
      ∀ x, x < 768 → dirWord k'.mm.mem (pmmAllocPage k.mm.pmm).1 x = 0 := by
  obtain ⟨bs, hb⟩ := h.backed
  have hz' := h.oneZombie hz
  have hcode := h.codeThere hc (.spawn (some [0x2f, 0x61]))
  have hfind := (hasProgram hb.mm hs).find
  rw [← h.module] at hfind
  obtain rfl := h.ctl
  obtain ⟨k', p, bs', e, hctl, hmod, hcr3, hb', hroom', hnew⟩ :=
    hb.spawn hz' hj (by decide) (by decide) hfind hi hpages h.room hid
  rw [hb.mm.kernel] at hctl
  exact ⟨k', p, ⟨hc.legal, hcode _, bind_ok.mpr ⟨_, e, rfl⟩⟩,
    ⟨hctl, (congrArg Task.state (Ctl.spawn_current h.running hj)).trans h.running,
      (hcr3.trans h.cr3).trans (congrArg Task.addressSpace (Ctl.spawn_current h.running hj)).symm,
      hmod.trans h.module, ⟨bs', hb'⟩, hroom'⟩, hnew⟩

/-- A process is spawned after another has ended. -/
theorem Scene.spawn_reaps (h : Scene s0 c (n + 1) k) (hs : HoldsBytes s0.mem 0x50000 selfArchive)
    (hc : c.CanCall) (hz : c.ProcessZombie z)
    (hd : (c.tasks z).addressSpace ∈ (pmmAllocPage k.mm.pmm).1 :: k.mm.spaces)
    (hj : c.reap.freeSlot = some j) (hi : userProcessAlloc c.processes = some i)
    (hpages : (c.processes i).pages = []) (hid : c.nextTaskId < 2 ^ 31) :
    ∃ k' p, Took k (.spawn (some [0x2f, 0x61])) (some (toInt32 c.nextPid)) k' ∧
      Scene s0 (c.spawn j i s0.kernelPageDirectory p (pmmAllocPage k.mm.pmm).1 [0x2f, 0x61]) n k' ∧
      k'.mm.spaces = ((pmmAllocPage k.mm.pmm).1 :: k.mm.spaces).erase (c.tasks z).addressSpace ∧
      (pmmAllocPage k.mm.pmm).1 ∉ k.mm.spaces ∧
      ¬ Allocated (smallPmm selfArchive) k'.mm.pmm (c.tasks z).addressSpace ∧
      ∀ x, x < 768 → dirWord k'.mm.mem (pmmAllocPage k.mm.pmm).1 x = 0 := by
  obtain ⟨bs, hb⟩ := h.backed
  have hcode := h.codeThere hc (.spawn (some [0x2f, 0x61]))
  have hfind := (hasProgram hb.mm hs).find
  rw [← h.module] at hfind
  obtain rfl := h.ctl
  obtain ⟨k', p, bs', e, hctl, hmod, hcr3, hb', hroom', hnew⟩ :=
    hb.spawn_reaps hz hd hj (by decide) (by decide) hfind hi hpages h.room hid
  rw [hb.mm.kernel] at hctl
  exact ⟨k', p, ⟨hc.legal, hcode _, bind_ok.mpr ⟨_, e, rfl⟩⟩,
    ⟨hctl, (congrArg Task.state (Ctl.spawn_current h.running hj)).trans h.running,
      (hcr3.trans h.cr3).trans (congrArg Task.addressSpace (Ctl.spawn_current h.running hj)).symm,
      hmod.trans h.module, ⟨bs', hb'⟩, hroom'⟩, hnew⟩

theorem Scene.startProcess (h : Scene s0 c (n + 4) k) (hs : HoldsBytes s0.mem 0x50000 selfArchive)
    (hcont : c.cont = .start) (hentry : (c.tasks c.currentTask).entry = some .userExecTask)
    (h0 : c.currentTask ≠ 0) (hcall : c.caller = some i) (hpath : (c.processes i).path = [0x2f, 0x61])
    (hsp : (c.processes i).addressSpace ∈ k.mm.spaces)
    (hempty : ∀ m, (c.processes m).addressSpace = (c.processes i).addressSpace →
      (c.processes m).pages = []) :
    ∃ k' g, Took k .start none k' ∧
      Scene s0 (c.enter i ((c.processes i).loaded 8 (pmmAllocPage k.mm.pmm).1 g)) n k' ∧
      k'.mm.spaces = k.mm.spaces ∧
      ∀ x, x < 54 → k'.mm.mem ((pmmAllocPage k.mm.pmm).1 + x) = k.mm.mem (0x5003C + x) := by
  obtain ⟨bs, hb⟩ := h.backed
  have hcode := h.codeThere_start hcont .start
  have hprog := hasProgram hb.mm hs
  have hfind := hprog.find
  rw [← h.module] at hfind
  obtain rfl := h.ctl
  rw [← hpath] at hfind
  obtain ⟨k', g, e, hctl, hmod, hcr3, hmm, hroom', hsp', hbytes⟩ := hb.mm.execTask_ok h0 hcall hsp
    hempty hfind hprog.header hprog.source hprog.outside h.room
  have hstacks : k.toCtl.SameStacks k'.toCtl := by
    rw [hctl]
    exact Ctl.sameStacks_current rfl rfl Iff.rfl
  have hb' : Backed (smallPmm selfArchive) s0 { k with tasks := k'.tasks } bs :=
    hb.of_tasks rfl rfl hstacks
  have hcur : (k.toCtl.enter i ((k.processes i).loaded 8 (pmmAllocPage k.mm.pmm).1 g)).tasks
      k.currentTask = { k.tasks k.currentTask with
        addressSpace := (k.processes i).addressSpace, cont := .user } := Function.update_self ..
  exact ⟨k', g, ⟨hcont, hcode _, exec_start_enters hentry e⟩,
    ⟨hctl, (congrArg Task.state hcur).trans h.running,
      hcr3.trans (congrArg Task.addressSpace hcur).symm, hmod.trans h.module,
      ⟨bs, hmm, hb'.owned⟩, hroom'⟩, hsp', hbytes⟩

/-- **The task of a younger process with the same id** takes the older one's record. -/
theorem Scene.startMapped {x : UserPage} (h : Scene s0 c n k)
    (hs : HoldsBytes s0.mem 0x50000 selfArchive) (hcont : c.cont = .start)
    (hentry : (c.tasks c.currentTask).entry = some .userExecTask) (h0 : c.currentTask ≠ 0)
    (hcall : c.caller = some i) (hpath : (c.processes i).path = [0x2f, 0x61])
    (halone : ∀ m, m ≠ i → (c.processes m).pages ≠ [] →
      (c.processes m).addressSpace ≠ (c.processes i).addressSpace)
    (hx : x ∈ (c.processes i).pages) (hv : x.vaddr = 0x00400000)
    (hnone : ∀ t, t ≠ 0 → t ≠ c.currentTask → (c.tasks t).state ≠ .zombie)
    (hn : c.zombify.nextRunnable = some idx) :
    ∃ k', Took k .start none k' ∧ Scene s0 { c.zombify.switchTo idx with
        processes := userProcessRelease c.processes i } n k' ∧
      k'.mm.spaces = k.mm.spaces.erase (c.processes i).addressSpace ∧
      ¬ Allocated (smallPmm selfArchive) k'.mm.pmm (c.processes i).addressSpace := by
  obtain ⟨bs, hb⟩ := h.backed
  have hcode := h.codeThere_start hcont .start
  have hu : (c.tasks c.currentTask).state ≠ .unused := by rw [h.running]; nofun
  have hprog := hasProgram hb.mm hs
  have hfind := hprog.find
  rw [← h.module] at hfind
  obtain rfl := h.ctl
  rw [← hpath] at hfind
  have hsp := (hb.mm.pages i).space (List.ne_nil_of_mem hx)
  obtain ⟨k₁, e, hctl, hmod, hmm, hsp', hfreed, hsub⟩ := hb.mm.execTask_mapped hcall hsp halone hx hv
    hfind hprog.header hprog.source
  have hb₁ : Backed (smallPmm selfArchive) s0 k₁ bs := ⟨hmm, by rw [hctl]; exact hb.owned⟩
  have hn₁ : k₁.zombify.nextRunnable = some idx := by rw [hctl]; exact hn
  obtain ⟨esp0, ek, hb'⟩ := hb₁.kexit (by rw [hctl]; exact h0) (by rw [hctl]; exact hu)
    (by rw [hctl]; exact hnone) hn₁
  have htables : k₁.zombify.switchTo idx = { k.zombify.switchTo idx with
      processes := userProcessRelease k.processes i } := by
    rw [hctl]
    rfl
  refine ⟨_, ⟨hcont, hcode _, exec_start_ends hentry e ek⟩,
    ⟨htables, Ctl.switchTo_running k.zombify idx, ?_, hmod.trans h.module, ⟨bs, hb'⟩, hb.mm.room hmm
      hsub h.room⟩, hsp', hfreed⟩
  dsimp only
  rw [htables]
  rfl

/-- The exit of a process without a parent leaves no record. -/
theorem Ctl.exitRecords_root (hi : (c.processes i).state ≠ .free)
    (hparent : (c.processes i).parentPid = 0)
    (hpids : ∀ n, (c.processes n).state ≠ .free → (c.processes n).pid ≠ 0) (status : Nat) :
    c.exitRecords i status = fun n =>
      if n = i then UserProcess.zero else (c.processes n).orphan (c.processes i).pid := by
  rw [c.exitRecords_eq hi (by rw [hparent]; exact (hpids i hi).symm) hpids
    (fun h => absurd hparent h) status, if_pos hparent]

/-- **A process exits** when there is no other zombie. -/
theorem Scene.exit {ps : Fin 16 → UserProcess} (h : Scene s0 c n k) (status : Nat)
    (hcont : c.cont = .user) (hmapped : c.CodeMapped) (h0 : c.currentTask ≠ 0)
    (hcall : c.caller = some i)
    (hx : ∀ m, (c.processes m).state = .exited → (c.processes m).pages = []) (hst : status < 2 ^ 32)
    (hps : c.exitRecords i status = ps)
    (hnone : ∀ t, t ≠ 0 → t ≠ c.currentTask → (c.tasks t).state ≠ .zombie)
    (hn : (Ctl.zombify { c with processes := ps }).nextRunnable = some idx) :
    ∃ k', Took k (.exit status) none k' ∧
      Scene s0 ((Ctl.zombify { c with processes := ps }).switchTo idx) n k' ∧
      k'.mm.spaces = k.mm.spaces ∧
      ∀ f, Allocated (smallPmm selfArchive) k'.mm.pmm f →
        Allocated (smallPmm selfArchive) k.mm.pmm f := by
  obtain ⟨bs, hb⟩ := h.backed
  have hcode := h.codeThere (.inr ⟨hcont, hmapped⟩) (.exit status)
  have hu : (c.tasks c.currentTask).state ≠ .unused := by rw [h.running]; nofun
  obtain rfl := h.ctl
  subst hps
  obtain ⟨mm, e, hb₁, hsp, -, hsub⟩ := hb.exitCurrent hcall hx status
  have hb₂ : Backed (smallPmm selfArchive) s0 { k with
      mm := mm
      processes := k.exitRecords i status
      console := k.console ++ ascii "user: exited status=" ++ u32ToHex status ++ ascii "\n" } bs :=
    ⟨hb₁.mm, hb₁.owned⟩
  obtain ⟨esp0, ek, hb'⟩ := hb₂.kexit h0 hu hnone hn
  exact ⟨_, ⟨⟨hcont, hst⟩, hcode _, bind_ok.mpr ⟨_, bind_ok.mpr ⟨_, e, ek⟩, rfl⟩⟩,
    ⟨rfl, Ctl.switchTo_running .., rfl, h.module, ⟨bs, hb'⟩, hb.mm.room hb₁.mm hsub h.room⟩, hsp, hsub⟩

/-- **A process without a parent exits.** -/
theorem Scene.exit_root {ps : Fin 16 → UserProcess} (h : Scene s0 c n k) (hcont : c.cont = .user)
    (hmapped : c.CodeMapped) (h0 : c.currentTask ≠ 0) (hcall : c.caller = some i)
    (hx : ∀ m, (c.processes m).state = .exited → (c.processes m).pages = [])
    (hparent : (c.processes i).parentPid = 0)
    (hpids : ∀ m, (c.processes m).state ≠ .free → (c.processes m).pid ≠ 0)
    (hps : ∀ m, (if m = i then UserProcess.zero
      else (c.processes m).orphan (c.processes i).pid) = ps m)
    (hnone : ∀ t, t ≠ 0 → t ≠ c.currentTask → (c.tasks t).state ≠ .zombie)
    (hn : (Ctl.zombify { c with processes := ps }).nextRunnable = some idx) :
    ∃ k', Took k (.exit 0) none k' ∧
      Scene s0 ((Ctl.zombify { c with processes := ps }).switchTo idx) n k' ∧
      k'.mm.spaces = k.mm.spaces ∧
      ∀ f, Allocated (smallPmm selfArchive) k'.mm.pmm f →
        Allocated (smallPmm selfArchive) k.mm.pmm f :=
  h.exit 0 hcont hmapped h0 hcall hx (by decide)
    ((Ctl.exitRecords_root (Ctl.caller_some hcall).1 hparent hpids 0).trans (funext hps)) hnone hn

end

end Emyx
