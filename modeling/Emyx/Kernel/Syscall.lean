/-
  File:      Emyx/Kernel/Syscall.lean
  Subject:   SYSTEM CALLS (syscall.c, syscall.h): `int $0x80` with a number in `eax` and arguments
             in `ebx`, `ecx`, `edx`.

  The kernel runs a call on the caller's directory and reads the caller's memory through the
  pointer it was given, with its own rights: the processor asks for no USER bit, and the code
  checks no range. `kernel_path` is a local array of `sys_spawn`, so a value here.

  * `syscallDispatch` -- the value the call returns to its caller, `none` when another task runs
    first or the call does not return;
  * `writeLoop_ok`, `userPath_ok` -- what the two calls with a pointer read through it;
  * `userPath_copies` -- the path as a value is what `copy_string_from_user` writes.
-/
import Emyx.Archive
import Emyx.Kernel.Control

namespace Emyx

open Lib

/-! ## 1. The calls -/

/-- `struct syscall_frame` -/
structure SyscallFrame where
  edi : Nat
  esi : Nat
  ebp : Nat
  esp : Nat
  ebx : Nat
  edx : Nat
  ecx : Nat
  eax : Nat
  deriving DecidableEq, Repr

/-- `SYS_ERR` -/
def sysErr : Nat := 2 ^ 32 - 1

/-- The conversion of an `int` to `uint32_t`. -/
def toUint32 (r : Int) : Nat := (r % 2 ^ 32).toNat

/-- The byte that kernel code reads at `v`: through the directory that is loaded, with the kernel's
    rights. -/
def Kernel.byteAt (k : Kernel) (v : Nat) : Except Stop Byte :=
  match walk k.mm.mem k.cr3 v with
  | some a => .ok (k.mm.mem a)
  | none => .error (.pageFault v)

/-- The loop of `sys_write` from index `i` on, with `n` turns left. -/
def writeLoop (buf : Nat) : Nat → Nat → Kernel → Except Stop Kernel
  | 0, _, k => .ok k
  | n + 1, i, k => do
    let c ← k.byteAt ((buf + i) % 2 ^ 32)
    -- `printk("%c", buf[i])`
    writeLoop buf n (i + 1) { k with console := k.console ++ [c] }

/-- `sys_write` -/
def sysWrite (k : Kernel) (fd buf len : Nat) : Except Stop (Nat × Kernel) :=
  if fd ≠ 1 ∨ buf = 0 then return (sysErr, k)
  else do
    let k ← writeLoop buf len 0 k
    return (len, k)

/-- The loop of `copy_string_from_user` from index `i` on, with `n` turns left: the rest of the
    string when it ends in time, `none` for `-1`. -/
def userStringLoop (k : Kernel) (src : Nat) : Nat → Nat → Except Stop (Option (List Byte))
  | 0, _ => return none
  | n + 1, i => do
    let c ← k.byteAt ((src + i) % 2 ^ 32)
    if c = 0 then return (if i = 0 then none else some [])
    else do
      let rest ← userStringLoop k src n (i + 1)
      return rest.map (c :: ·)

/-- `copy_string_from_user(kernel_path, src, EMXA_PATH_SIZE)`: the string in `kernel_path`. -/
def userPath (k : Kernel) (src : Nat) : Except Stop (Option (List Byte)) :=
  if src = 0 then return none else userStringLoop k src 32 0

/-- `sys_spawn` -/
def sysSpawn (k : Kernel) (path : Nat) : Except Stop (Nat × Kernel) := do
  match ← userPath k path with
  | none => return (sysErr, k)
  | some kernelPath => do
    let (processId, k) ← userSpawn k (some kernelPath)
    if processId < 0 then return (sysErr, k) else return (toUint32 processId, k)

/-- `sys_yield` -/
def sysYield (k : Kernel) : Except Stop (Option Nat × Kernel) := do
  let (switched, k) ← schedYield k
  return (if switched then none else some 0, k)

/-- `sys_wait` -/
def sysWait (k : Kernel) (pid : Nat) : Except Stop (Option Nat × Kernel) := do
  let (r, k) ← userWait k pid
  return (r.map toUint32, k)

/-- `syscall_dispatch` -/
def syscallDispatch (k : Kernel) (frame : SyscallFrame) : Except Stop (Option Nat × Kernel) :=
  match frame.eax with
  | 1 => do
    let (r, k) ← sysWrite k frame.ebx frame.ecx frame.edx
    return (some r, k)
  | 2 => do
    let k ← sysExit k frame.ebx
    return (none, k)
  | 3 => sysYield k
  | 4 =>
    let (c, keyboard) := keyboardBufferPop k.keyboard
    return (some c, { k with keyboard := keyboard })
  | 5 => do
    let (r, k) ← sysSpawn k frame.ebx
    return (some r, k)
  | 6 => sysWait k frame.ebx
  | _ => return (some sysErr, k)

/-! ## 2. What is read through a pointer -/

section

variable {k k' : Kernel} {buf src n i : Nat}

theorem userPhys_walk {m : Mem} {d v a : Nat} {write : Bool} (h : userPhys m d v write = some a) :
    walk m d v = some a := by
  unfold userPhys at h
  split at h
  · next hg =>
    unfold walk
    rw [if_pos hg.2.1]
    exact h
  · cases h

/-- Where user code may read, the kernel reads the same byte. -/
theorem Kernel.byteAt_user {v a : Nat} {write : Bool}
    (h : userPhys k.mm.mem k.cr3 v write = some a) : k.byteAt v = .ok (k.mm.mem a) := by
  unfold Kernel.byteAt
  rw [userPhys_walk h]

/-- The loop of `copy_string_from_user` finds the string that ends with the first zero byte. -/
theorem userStringLoop_ok {xs : List Byte} (hi : i ≠ 0 ∨ xs ≠ []) (hn : xs.length < n)
    (hnul : ∀ x ∈ xs, x ≠ 0)
    (h : ∀ j x, (xs ++ [0])[j]? = some x → k.byteAt ((src + (i + j)) % 2 ^ 32) = .ok x) :
    userStringLoop k src n i = .ok (some xs) := by
  induction xs generalizing i n with
  | nil =>
    obtain ⟨n, rfl⟩ : ∃ n', n = n' + 1 := ⟨n - 1, by simp at hn; omega⟩
    have h0 : k.byteAt ((src + i) % 2 ^ 32) = .ok 0 := h 0 0 rfl
    simp only [userStringLoop, h0, ok_bind, if_true]
    rw [if_neg (by simpa using hi)]
    rfl
  | cons x xs ih =>
    obtain ⟨n, rfl⟩ : ∃ n', n = n' + 1 := ⟨n - 1, by simp at hn; omega⟩
    have hx : k.byteAt ((src + i) % 2 ^ 32) = .ok x := h 0 x rfl
    simp only [userStringLoop, hx, ok_bind, if_neg (hnul x List.mem_cons_self)]
    rw [ih (.inl (Nat.succ_ne_zero i)) (by simpa using hn)
      (fun y hy => hnul y (List.mem_cons_of_mem _ hy)) fun j y hy => ?_]
    · rfl
    · have := h (j + 1) y (by simpa using hy)
      rwa [show i + (j + 1) = i + 1 + j by omega] at this

/-- **A path of 1 … 31 bytes reaches `user_spawn`** as it lies behind the pointer. -/
theorem userPath_ok {path : List Byte} (hsrc : src ≠ 0) (hne : path ≠ []) (hlen : path.length < 32)
    (hnul : ∀ x ∈ path, x ≠ 0)
    (h : ∀ j x, (path ++ [0])[j]? = some x → k.byteAt ((src + j) % 2 ^ 32) = .ok x) :
    userPath k src = .ok (some path) := by
  unfold userPath
  rw [if_neg hsrc]
  exact userStringLoop_ok (.inr hne) hlen hnul fun j x hx => by rw [Nat.zero_add]; exact h j x hx

/-- The loop on the memory behind the addresses: the same string, in the array at `dst`. -/
theorem userStringLoop_copies {dst maxLen : Nat} {m : Mem} {r : Option (List Byte)}
    (hlen : i + n = maxLen) (hap : src + maxLen ≤ dst ∨ dst + maxLen ≤ src)
    (h : ∀ j, i ≤ j → j < maxLen → ∀ c, k.byteAt ((src + j) % 2 ^ 32) = .ok c → m (src + j) = c)
    (e : userStringLoop k src n i = .ok r) :
    ∃ m', copyString dst src maxLen n i m = (if r.isSome then 0 else -1, m') ∧
      ∀ xs, r = some xs → HoldsBytes m' (dst + i) (xs ++ [0]) ∧ ∀ x, x < dst + i → m' x = m x := by
  induction n generalizing i m r with
  | zero =>
    cases e
    exact ⟨_, rfl, nofun⟩
  | succ n ih =>
    obtain ⟨c, hc, e⟩ := bind_ok.mp e
    have hsrc := h i (le_refl i) (by omega) c hc
    have hcopy : copyString dst src maxLen (n + 1) i m =
        if c = 0 then (if i = 0 then -1 else 0, wr8 m (dst + i) c)
        else copyString dst src maxLen n (i + 1) (wr8 m (dst + i) c) := by
      rw [copyString, hsrc, wr8_self]
    rw [hcopy]
    by_cases h0 : c = 0
    · rw [if_pos h0] at e ⊢
      cases e
      by_cases hi : i = 0
      · rw [if_pos hi, if_pos hi]
        exact ⟨_, rfl, nofun⟩
      · rw [if_neg hi, if_neg hi]
        refine ⟨_, rfl, fun xs hxs => ?_⟩
        obtain rfl := Option.some.inj hxs
        exact ⟨by simp [h0, wr8_self], fun x hx => wr8_outside (by omega)⟩
    · rw [if_neg h0] at e ⊢
      obtain ⟨rest, erest, e⟩ := bind_ok.mp e
      cases e
      -- what is still to be read is not in the array
      have hrest : ∀ j, i + 1 ≤ j → j < maxLen → ∀ b, k.byteAt ((src + j) % 2 ^ 32) = .ok b →
          wr8 m (dst + i) c (src + j) = b := fun j hj hlt b hb => by
        rw [wr8_outside (by omega)]
        exact h j (by omega) hlt b hb
      obtain ⟨m', em, hm'⟩ := ih (by omega) hrest erest
      refine ⟨m', by rw [em, Option.isSome_map], fun xs hxs => ?_⟩
      obtain ⟨ys, rfl, rfl⟩ := Option.map_eq_some_iff.mp hxs
      obtain ⟨hold, hkeep⟩ := hm' ys rfl
      refine ⟨holdsBytes_cons.mpr ⟨?_, hold⟩, fun x hx => ?_⟩
      · rw [hkeep _ (by omega), wr8_self]
      · rw [hkeep _ (by omega), wr8_outside (by omega)]

/-- **The string that `sys_spawn` hands on is the one `copy_string_from_user` leaves in
    `kernel_path`**: on a memory `m` that has, at the caller's addresses, the bytes the kernel reads
    there. -/
theorem userPath_copies {dst : Nat} {m : Mem} {r : Option (List Byte)} (hdst : dst ≠ 0)
    (hap : src + 32 ≤ dst ∨ dst + 32 ≤ src)
    (h : ∀ j, j < 32 → ∀ c, k.byteAt ((src + j) % 2 ^ 32) = .ok c → m (src + j) = c)
    (e : userPath k src = .ok r) :
    ∃ m', copyStringFromUser m dst src 32 = (if r.isSome then 0 else -1, m') ∧
      ∀ path, r = some path → HoldsBytes m' dst (path ++ [0]) := by
  unfold userPath at e
  unfold copyStringFromUser
  split_ifs at e with hsrc
  · cases e
    rw [if_pos (.inr (.inl hsrc))]
    exact ⟨m, rfl, nofun⟩
  · rw [if_neg (by omega)]
    obtain ⟨m', em, hm'⟩ := userStringLoop_copies (Nat.zero_add 32) hap (fun j _ => h j) e
    exact ⟨m', em, fun path hp => (hm' path hp).1⟩

end

end Emyx
