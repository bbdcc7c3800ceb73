/-
  File:      Emyx/Kernel/Stacks.lean
  Subject:   WHO HOLDS WHICH KERNEL STACK: the allocations of the heap and the slots of the
             scheduler, one for one.

  * `StacksOwned tasks out` -- each allocation in `out` is the stack of one used slot, and each
    used slot but slot 0 has one; `StacksOwned.release` and `StacksOwned.take` are what
    `task_cleanup` and `kthread_create` do to it;
  * `schedPrepareKthreadStack_ok` -- the first frame is written, inside the stack;
  * `reapZombies_returns` -- the rule of the reaper's loop.
-/
import Emyx.Heap.Run
import Emyx.Kernel.Sched
import Emyx.Lib.Ownership

namespace Emyx

open Lib

/-! ## 1. Stacks and slots -/

/-- The stack of a used slot. Slot 0 runs on the boot stack. -/
def stackOf (tasks : Fin 16 → Task) (i : Fin 16) : Option Nat :=
  if i ≠ 0 ∧ (tasks i).state ≠ .unused then some (tasks i).stack else none

structure StacksOwned (tasks : Fin 16 → Task) (out : List (Nat × Nat)) : Prop where
  own : Own (stackOf tasks) fun p => (p, 2048) ∈ out
  size : ∀ a ∈ out, a.2 = 2048

section

variable {tasks tasks' : Fin 16 → Task} {out out' : List (Nat × Nat)} {i : Fin 16}

theorem stackOf_used (hi : i ≠ 0) (hu : (tasks i).state ≠ .unused) :
    stackOf tasks i = some (tasks i).stack := if_pos ⟨hi, hu⟩

theorem stackOf_update_of_ne {j : Fin 16} (t : Task) (h : j ≠ i) :
    stackOf (Function.update tasks i t) j = stackOf tasks j := by
  unfold stackOf
  rw [Function.update_of_ne h]

theorem stackOf_update_self {t : Task} (hi : i ≠ 0) (ht : t.state ≠ .unused) :
    stackOf (Function.update tasks i t) i = some t.stack := by
  rw [stackOf_used hi (by rwa [Function.update_self]), Function.update_self]

theorem StacksOwned.congr (h : StacksOwned tasks out)
    (hs : ∀ i, stackOf tasks' i = stackOf tasks i) : StacksOwned tasks' out :=
  ⟨h.own.congr hs fun _ => Iff.rfl, h.size⟩

theorem StacksOwned.perm (h : StacksOwned tasks out) (hp : out'.Perm out) :
    StacksOwned tasks out' :=
  ⟨h.own.congr (fun _ => rfl) fun _ => hp.mem_iff, fun a ha => h.size a (hp.mem_iff.mp ha)⟩

theorem StacksOwned.mem (h : StacksOwned tasks out) (hi : i ≠ 0)
    (hu : (tasks i).state ≠ .unused) : ((tasks i).stack, 2048) ∈ out :=
  h.own.mem (stackOf_used hi hu)

/-- The slot `i` is emptied and its stack freed. -/
theorem StacksOwned.release (h : StacksOwned tasks out) (hi : i ≠ 0)
    (hu : (tasks i).state ≠ .unused) (hn : out.Nodup) :
    StacksOwned (Function.update tasks i Task.empty) (out.erase ((tasks i).stack, 2048)) := by
  refine ⟨h.own.del (stackOf_used hi hu) (if_neg fun hc => ?_)
    (fun j hj => stackOf_update_of_ne _ hj) fun g => ?_,
    fun a ha => h.size a (List.mem_of_mem_erase ha)⟩
  · rw [Function.update_self] at hc
    exact hc.2 rfl
  · rw [hn.mem_erase_iff]
    exact and_congr_left fun _ => not_congr ⟨fun e => congrArg Prod.fst e, fun e => by rw [e]⟩

/-- The free slot `i` is filled, with a new stack. -/
theorem StacksOwned.take (h : StacksOwned tasks out) {t : Task} (hi : i ≠ 0)
    (hu : (tasks i).state = .unused) (ht : t.state ≠ .unused) (hn : (t.stack, 2048) ∉ out) :
    StacksOwned (Function.update tasks i t) ((t.stack, 2048) :: out) := by
  refine ⟨h.own.add (r := i) (f := t.stack) (if_neg fun hc => hc.2 hu) hn
    (stackOf_update_self hi ht) (fun j hj => stackOf_update_of_ne _ hj) fun g => ?_, fun a ha => ?_⟩
  · rw [List.mem_cons]
    exact or_congr_left ⟨fun e => congrArg Prod.fst e, fun e => by rw [e]⟩
  · rcases List.mem_cons.mp ha with rfl | ha
    · rfl
    · exact h.size a ha

end

/-- No two allocations are the same. -/
theorem HeapInv.allocs_nodup {s : Mm} {bs : List Blk} (h : HeapInv s bs) : (allocs bs).Nodup := by
  refine List.pairwise_filterMap.mpr (h.shape.apart.imp fun {b c} hbc a ha a' ha' e => ?_)
  obtain ⟨n, _, rfl⟩ := Option.map_eq_some_iff.mp ha
  obtain ⟨k, _, rfl⟩ := Option.map_eq_some_iff.mp ha'
  have hpay : b.payload = c.payload := congrArg Prod.fst e
  unfold Blk.Apart at hbc
  unfold Blk.payload Blk.ptr at hpay
  omega

/-- An allocation lies in the direct map. -/
theorem HeapInv.alloc_bounds {s : Mm} {bs : List Blk} (h : HeapInv s bs) {a : Nat × Nat}
    (ha : a ∈ allocs bs) : 0xC0000000 < a.1 ∧ a.1 + a.2 ≤ 0xC1000000 := by
  obtain ⟨b, hb, hr, hpay⟩ := mem_allocs.mp ha
  have hfit := h.shape.fits b hb _ hr
  have hlim := h.shape.bound hb
  unfold Blk.payload Blk.ptr at hpay
  omega

/-! ## 2. The first frame -/

theorem stackTop_eq {stack : Nat} (h : stack + 2048 < 2 ^ 32) :
    stackTop stack = (stack + 2048) / 16 * 16 := by
  unfold stackTop
  rw [Nat.mod_eq_of_lt h, land_align16 h]

/-- The frame is written between `stack` and its end. -/
theorem schedPrepareKthreadStack_ok (m : Mem) {stack : Nat} (trampoline : Nat)
    (h1 : 0xC0000000 ≤ stack) (h2 : stack + 2048 ≤ 0xC1000000) :
    ∃ m', schedPrepareKthreadStack m stack trampoline = .ok m' ∧
      ∀ x, ¬ (stack ≤ 0xC0000000 + x ∧ 0xC0000000 + x < stack + 2048) → m' x = m x := by
  have htop := @stackTop_eq stack (by omega)
  obtain ⟨t, ht⟩ : ∃ t, stackTop stack = 0xC0000000 + t := ⟨stackTop stack - 0xC0000000, by omega⟩
  have hpoke : ∀ (m : Mem) (v n : Nat), 4 ≤ n → n ≤ 24 →
      poke32 m (stackTop stack - n) v = .ok (wr32 m (t - n) v) := fun m v n hn hn' =>
    poke32_ok (t - n) (by omega) (by omega)
  unfold schedPrepareKthreadStack
  simp (disch := omega) only [hpoke, ok_bind]
  refine ⟨_, rfl, fun x hx => ?_⟩
  simp (disch := omega) only [wr32_outside]

/-! ## 3. The reaper's loop -/

/-- **What the clean-up of each zombie keeps, `reap_zombies` keeps**, and it returns. -/
theorem reapZombies_returns {I : Kernel → Prop}
    (hclean : ∀ k i, I k → i ≠ 0 → i ≠ k.currentTask → (k.tasks i).state = .zombie →
      ∃ k', taskCleanup k i = .ok k' ∧ I k') {k : Kernel} (h : I k) :
    ∃ k', reapZombies k = .ok k' ∧ I k' := by
  refine foldlM_returns (fun k i hi hk => ?_) h
  by_cases hz : i = k.currentTask ∨ (k.tasks i).state ≠ .zombie
  · exact ⟨k, if_pos hz, hk⟩
  · rw [not_or, not_not] at hz
    obtain ⟨k', e, hk'⟩ := hclean k i hk ((mem_slots i).mp hi) hz.1 hz.2
    exact ⟨k', (if_neg (by tauto)).trans e, hk'⟩

/-- With nothing to reap it does nothing. -/
theorem reapZombies_none {k : Kernel}
    (h : ∀ t, t ≠ 0 → t ≠ k.currentTask → (k.tasks t).state ≠ .zombie) : reapZombies k = .ok k := by
  obtain ⟨k', e, rfl⟩ := reapZombies_returns (k := k) (I := fun k' => k' = k)
    (fun k' i hk' hi hc hz => by
      cases hk'
      exact absurd hz (h i hi hc)) rfl
  exact e

end Emyx
