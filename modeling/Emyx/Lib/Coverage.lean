/-
  File:      Emyx/Lib/Coverage.lean
  Subject:   COVERING A FINITE SET BY A LIST OF SETS, and what the sum of their sizes says about it.
             Nothing here is about one program.

  * `coverage R l x` -- how many members of `l` cover `x`;
  * `sum_card_covers` -- the sizes of the covers, summed, count each point as often as it is covered;
  * `sum_coverage` -- that sum is the size of the set, less the points covered by none, plus the
    points covered again.
-/
import Mathlib

namespace Emyx.Lib

variable {α β : Type} (R : β → α → Prop) [∀ b, DecidablePred (R b)]

/-- The number of members of `l` that cover `x`. -/
def coverage (l : List β) (x : α) : Nat := l.countP fun b => R b x

/-- The points of `s` that no member of `l` covers. -/
def uncovered (s : Finset α) (l : List β) : Finset α := s.filter fun x => coverage R l x = 0

/-- How often points of `s` are covered again. -/
def recovered (s : Finset α) (l : List β) : Nat := ∑ x ∈ s, (coverage R l x - 1)

theorem sum_card_covers (s : Finset α) (l : List β) :
    (l.map fun b => (s.filter (R b)).card).sum = ∑ x ∈ s, coverage R l x := by
  induction l with
  | nil => simp [coverage]
  | cons b l ih =>
    have hcons : ∀ x, coverage R (b :: l) x = (if R b x then 1 else 0) + coverage R l x := by
      intro x
      unfold coverage
      rw [List.countP_cons, Nat.add_comm]
      simp
    rw [List.map_cons, List.sum_cons, ih, Finset.card_filter, ← Finset.sum_add_distrib]
    exact Finset.sum_congr rfl fun x _ => (hcons x).symm

/-- **The sum of the sizes**, against the size of the set. -/
theorem sum_coverage (s : Finset α) (l : List β) :
    (l.map fun b => (s.filter (R b)).card).sum + (uncovered R s l).card =
      s.card + recovered R s l := by
  unfold uncovered recovered
  rw [sum_card_covers, Finset.card_filter, ← Finset.sum_add_distrib, Finset.card_eq_sum_ones,
    ← Finset.sum_add_distrib]
  refine Finset.sum_congr rfl fun x _ => ?_
  split_ifs <;> omega

end Emyx.Lib
