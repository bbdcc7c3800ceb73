/-
  File:      Emyx/Lib/Extents.lean
  Subject:   LISTS WHOSE ELEMENTS ARE PAIRWISE RELATED, AND REPLACING A STRETCH OF ONE. Nothing
             here is about one program.

  An allocator keeps a list of pieces that are pairwise apart; splitting, merging and appending
  replace a stretch of the list by another one that reaches no further. `pairwise_replace` is
  that argument, once.
-/
import Mathlib.Data.List.Nodup
import Mathlib.Data.Finset.Card
import Mathlib.Tactic

namespace Emyx.Lib

variable {α : Type}

/-- Replace `old` by `mid` in the middle of a pairwise related list: enough that `mid` is
    pairwise related and that whatever is related to all of `old` is related to all of `mid`. -/
theorem pairwise_replace {R : α → α → Prop} [Std.Symm R]
    {pre old mid post : List α} (h : (pre ++ (old ++ post)).Pairwise R) (hmid : mid.Pairwise R)
    (hcover : ∀ c, (∀ o ∈ old, R c o) → ∀ z ∈ mid, R c z) :
    (pre ++ (mid ++ post)).Pairwise R := by
  rw [List.pairwise_append, List.pairwise_append] at h ⊢
  obtain ⟨hpre, ⟨_, hpost, hop⟩, hpr⟩ := h
  refine ⟨hpre, ⟨hmid, hpost, fun z hz c hc => ?_⟩, fun c hc z hz => ?_⟩
  · exact symm_of R (hcover c (fun o ho => symm_of R (hop o ho c hc)) z hz)
  · rcases List.mem_append.mp hz with hz | hz
    · exact hcover c (fun o ho => hpr c hc o (List.mem_append_left _ ho)) z hz
    · exact hpr c hc z (List.mem_append_right _ hz)

/-- A related pair out of a pairwise related list. -/
theorem pairwise_middle {R : α → α → Prop} [Std.Symm R] {pre post : List α} {b c : α}
    (h : (pre ++ b :: post).Pairwise R) (hc : c ∈ pre ∨ c ∈ post) : R b c := by
  rw [List.pairwise_append, List.pairwise_cons] at h
  rcases hc with hc | hc
  · exact symm_of R (h.2.2 c hc b List.mem_cons_self)
  · exact h.2.1.1 c hc

/-- The first element with a property is at one place. -/
theorem first_unique {P : α → Prop} {pre pre' post post' : List α} {b b' : α}
    (e : pre ++ b :: post = pre' ++ b' :: post') (hb : P b) (hb' : P b') (h : ∀ c ∈ pre, ¬ P c)
    (h' : ∀ c ∈ pre', ¬ P c) : pre = pre' ∧ b = b' ∧ post = post' := by
  induction pre generalizing pre' with
  | nil =>
    cases pre' with
    | nil =>
      cases e
      exact ⟨rfl, rfl, rfl⟩
    | cons c pre' =>
      cases e
      exact absurd hb (h' b List.mem_cons_self)
  | cons c pre ih =>
    cases pre' with
    | nil =>
      cases e
      exact absurd hb' (h b' List.mem_cons_self)
    | cons c' pre' =>
      rw [List.cons_append, List.cons_append] at e
      obtain ⟨rfl, etail⟩ := List.cons.inj e
      obtain ⟨rfl, hrest⟩ := ih etail (fun z hz => h z (List.mem_cons_of_mem _ hz)) fun z hz =>
        h' z (List.mem_cons_of_mem _ hz)
      exact ⟨rfl, hrest⟩

/-- Distinct numbers below `n` are at most `n`. -/
theorem length_le_of_nodup {l : List Nat} {n : Nat} (h : l.Nodup) (hb : ∀ x ∈ l, x < n) :
    l.length ≤ n := by
  rw [← List.toFinset_card_of_nodup h, ← Finset.card_range n]
  exact Finset.card_le_card fun x hx => Finset.mem_range.mpr (hb x (List.mem_toFinset.mp hx))

end Emyx.Lib
