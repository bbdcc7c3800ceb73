/-
  File:      Emyx/Lib/Outcome.lean
  Subject:   COMPUTATIONS THAT MAY STOP, AND RUNS OF A STEP. Nothing here is about one program.

  A computation that can stop without returning is an `Except`. `bind_ok` takes a sequence that
  returned apart, one call at a time; `foldlM_ok` is the invariant rule of a loop over a list,
  `foldlM_returns` the one that also says the loop returns, `foldlM_related` the one for two loops
  in step, `foldlM_range_ok` that of a counting loop, whose invariant may speak of the counter;
  `foldlM_error` is the loop that stops at the first item it does not pass over.
-/
import Mathlib.Tactic

namespace Emyx.Lib

variable {ε α β σ : Type}

/-- A sequence that returned: its first part returned, and the rest did on what it returned. -/
theorem bind_ok {x : Except ε α} {f : α → Except ε β} {r : β} :
    (x >>= f) = .ok r ↔ ∃ a, x = .ok a ∧ f a = .ok r := by
  cases x with
  | error e => simp [bind, Except.bind]
  | ok a => simp [bind, Except.bind]

@[simp] theorem ok_bind (a : α) (f : α → Except ε β) : (Except.ok a >>= f) = f a := rfl

theorem bind_error {x : Except ε α} {e : ε} (h : x = .error e) (f : α → Except ε β) :
    (x >>= f) = .error e := by
  rw [h]
  rfl

/-- A guard that returned was passed. -/
theorem ite_error_ok {c : Prop} [Decidable c] {e : ε} {x : Except ε α} {r : α} :
    (if c then .error e else x) = .ok r ↔ ¬ c ∧ x = .ok r := by
  by_cases h : c <;> simp [h]

/-- **The loop rule**: what holds before a loop over `l` and is kept by each turn that returns
    holds after it. -/
theorem foldlM_ok {f : σ → α → Except ε σ} {I : σ → Prop} {l : List α}
    (hstep : ∀ s a s', a ∈ l → I s → f s a = .ok s' → I s') {s s' : σ} (h0 : I s)
    (h : l.foldlM f s = .ok s') : I s' := by
  induction l generalizing s with
  | nil =>
    rw [List.foldlM_nil] at h
    cases h
    exact h0
  | cons a l ih =>
    rw [List.foldlM_cons] at h
    obtain ⟨s1, h1, h2⟩ := bind_ok.mp h
    exact ih (fun s b s' hb => hstep s b s' (List.mem_cons_of_mem _ hb))
      (hstep s a s1 List.mem_cons_self h0 h1) h2

/-- The same for a loop each of whose turns returns: then the loop returns. -/
theorem foldlM_returns {f : σ → α → Except ε σ} {I : σ → Prop} {l : List α}
    (hstep : ∀ s a, a ∈ l → I s → ∃ s', f s a = .ok s' ∧ I s') {s : σ} (h0 : I s) :
    ∃ s', l.foldlM f s = .ok s' ∧ I s' := by
  induction l generalizing s with
  | nil => exact ⟨s, rfl, h0⟩
  | cons a l ih =>
    obtain ⟨s1, h1, hI⟩ := hstep s a List.mem_cons_self h0
    obtain ⟨s', h2, hI'⟩ := ih (fun s b hb => hstep s b (List.mem_cons_of_mem _ hb)) hI
    exact ⟨s', bind_ok.mpr ⟨s1, h1, h2⟩, hI'⟩

/-- Two loops over one list, in step: what relates their states before and is kept by each turn
    relates them after, and both return. -/
theorem foldlM_related {τ : Type} {f : σ → α → Except ε σ} {g : τ → α → Except ε τ}
    {R : σ → τ → Prop} {l : List α} (hstep : ∀ s t a, a ∈ l → R s t →
      ∃ s' t', f s a = .ok s' ∧ g t a = .ok t' ∧ R s' t') {s : σ} {t : τ} (h0 : R s t) :
    ∃ s' t', l.foldlM f s = .ok s' ∧ l.foldlM g t = .ok t' ∧ R s' t' := by
  induction l generalizing s t with
  | nil => exact ⟨s, t, rfl, rfl, h0⟩
  | cons a l ih =>
    obtain ⟨s₁, t₁, h₁, h₂, hR⟩ := hstep s t a List.mem_cons_self h0
    obtain ⟨s', t', h₃, h₄, hR'⟩ := ih (fun s t b hb => hstep s t b (List.mem_cons_of_mem _ hb)) hR
    exact ⟨s', t', bind_ok.mpr ⟨s₁, h₁, h₃⟩, bind_ok.mpr ⟨t₁, h₂, h₄⟩, hR'⟩

/-- A loop that does nothing but at `a`, where it stops. -/
theorem foldlM_error {f : σ → α → Except ε σ} {l : List α} {a : α} (ha : a ∈ l) {s : σ} {e : ε}
    (hstay : ∀ x ∈ l, x ≠ a → f s x = .ok s) (hstop : f s a = .error e) :
    l.foldlM f s = .error e := by
  induction l with
  | nil => cases ha
  | cons x l ih =>
    rw [List.foldlM_cons]
    by_cases hx : x = a
    · subst hx
      exact bind_error hstop _
    · rw [hstay x List.mem_cons_self hx]
      exact ih (List.mem_of_ne_of_mem (Ne.symm hx) ha)
        fun y hy => hstay y (List.mem_cons_of_mem _ hy)

/-- The loop rule for `for (k = 0; k < n; k++)`. -/
theorem foldlM_range_ok {f : σ → Nat → Except ε σ} {I : Nat → σ → Prop} {n : Nat}
    (hstep : ∀ k s s', k < n → I k s → f s k = .ok s' → I (k + 1) s') {s s' : σ} (h0 : I 0 s)
    (h : (List.range n).foldlM f s = .ok s') : I n s' := by
  induction n generalizing s' with
  | zero =>
    cases h
    exact h0
  | succ n ih =>
    rw [List.range_succ, List.foldlM_append] at h
    obtain ⟨s1, h1, h2⟩ := bind_ok.mp h
    simp only [List.foldlM_cons, List.foldlM_nil, bind_pure] at h2
    exact hstep n s1 s' (Nat.lt_succ_self n)
      (ih (fun k s s' hk => hstep k s s' (Nat.lt_succ_of_lt hk)) h1) h2

end Emyx.Lib
