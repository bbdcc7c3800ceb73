/-
  File:      Emyx/Lib/Family.lean
  Subject:   PROCESSES AND THEIR PARENTS. Nothing here is about one program.

  A family says of each name whether a process has it, who its parent is and with what status it
  has exited. Processes are spawned, exit, are collected by their parent, or vanish before they have
  done anything; `Family.Step` says what each of these does. What has happened to one name, read off
  the actions in the order they came, is its *story*: `Story.step` says that a step continues it, so
  that names which are not given out twice are spawned once, exit at most once, and have their status
  collected at most once, by the parent that spawned them.
-/
import Mathlib.Tactic

namespace Emyx.Lib

variable {P S : Type}

/-- A process: its parent, if it has one, and its status once it has exited. -/
structure Member (P S : Type) where
  parent : Option P
  status : Option S

/-- Which names are in use, and by whom. -/
abbrev Family (P S : Type) := P → Option (Member P S)

inductive Act (P S : Type) where
  /-- `p` is spawned, by `q` if a process did -/
  | spawn (q : Option P) (p : P)
  | exit (p : P) (s : S)
  /-- `q` waited for `p`, and got its status -/
  | collect (q p : P) (s : S)
  /-- `q` waited for `p`, which is not its child -/
  | refuse (q p : P)
  /-- `p` never got to run -/
  | vanish (p : P)

section

variable [DecidableEq P]

/-- The action is one in the life of `p`. -/
def Act.about (p : P) : Act P S → Bool
  | .spawn _ p' => p' = p
  | .exit p' _ => p' = p
  | .collect _ p' _ => p' = p
  | .refuse _ _ => false
  | .vanish p' => p' = p

/-- What the exit of `p` leaves of another process: its children have no parent from now on, and
    those of them that had exited go with it. -/
def Member.orphan (p : P) (n : Member P S) : Option (Member P S) :=
  if n.parent ≠ some p then some n
  else if n.status.isSome then none
  else some { n with parent := none }

/-- What is left of a process that exits: its status, if a parent is there to collect it. -/
def Member.exit (s : S) (n : Member P S) : Option (Member P S) :=
  if n.parent.isSome then some { n with status := some s } else none

def Family.exit (F : Family P S) (p : P) (s : S) : Family P S := fun q =>
  if q = p then (F p).bind (Member.exit s) else (F q).bind (Member.orphan p)

inductive Family.Step (F : Family P S) : Act P S → Family P S → Prop where
  | spawn {q : Option P} {p : P} : F p = none →
    (∀ q', q = some q' → ∃ n, F q' = some n ∧ n.status = none) →
    Family.Step F (.spawn q p) (Function.update F p (some ⟨q, none⟩))
  | exit {p : P} {s : S} {n : Member P S} : F p = some n → n.status = none →
    Family.Step F (.exit p s) (F.exit p s)
  | collect {q p : P} {s : S} : F p = some ⟨some q, some s⟩ →
    Family.Step F (.collect q p s) (Function.update F p none)
  | refuse {q p : P} : (∀ n, F p = some n → n.parent ≠ some q) → Family.Step F (.refuse q p) F
  | vanish {p : P} {n : Member P S} : F p = some n → n.status = none →
    Family.Step F (.vanish p) (Function.update F p none)

/-- What has happened to `p`, and what is left of it. A process that has lost its parent has none. -/
inductive Story (p : P) : List (Act P S) → Option (Member P S) → Prop where
  | unborn : Story p [] none
  | lives {q q' : Option P} : q' = q ∨ q' = none → Story p [.spawn q p] (some ⟨q', none⟩)
  | vanished {q : Option P} : Story p [.spawn q p, .vanish p] none
  | waits {q : P} {s : S} : Story p [.spawn (some q) p, .exit p s] (some ⟨some q, some s⟩)
  | ended {q : Option P} {s : S} : Story p [.spawn q p, .exit p s] none
  | collected {q : P} {s : S} : Story p [.spawn (some q) p, .exit p s, .collect q p s] none

omit [DecidableEq P] in
/-- A story that has begun says so. -/
theorem Story.spawned {p : P} {as : List (Act P S)} {n : Option (Member P S)} (h : Story p as n) :
    as = [] ∨ ∃ q, .spawn q p ∈ as := by
  cases h with
  | unborn => exact .inl rfl
  | lives _ => exact .inr ⟨_, List.mem_cons_self⟩
  | vanished => exact .inr ⟨_, List.mem_cons_self⟩
  | waits => exact .inr ⟨_, List.mem_cons_self⟩
  | ended => exact .inr ⟨_, List.mem_cons_self⟩
  | collected => exact .inr ⟨_, List.mem_cons_self⟩

omit [DecidableEq P] in
/-- A process that has not exited has been spawned, and no more. -/
theorem Story.alive {p : P} {as : List (Act P S)} {n : Member P S} (h : Story p as (some n))
    (hn : n.status = none) : ∃ q, as = [.spawn q p] ∧ (n.parent = q ∨ n.parent = none) := by
  cases h with
  | lives hq => exact ⟨_, rfl, hq⟩
  | waits => cases hn

omit [DecidableEq P] in
/-- The exit of a process continues its story. -/
theorem Story.exit {p : P} {as : List (Act P S)} {n : Member P S} (h : Story p as (some n))
    (hn : n.status = none) (s : S) : Story p (as ++ [.exit p s]) (n.exit s) := by
  obtain ⟨q, rfl, hq⟩ := h.alive hn
  cases hp : n.parent with
  | none =>
    simp only [Member.exit, hp]
    exact .ended
  | some q' =>
    obtain rfl : q = some q' := by
      simp only [hp, reduceCtorEq, or_false] at hq
      exact hq.symm
    simp only [Member.exit, hp]
    exact .waits

/-- The exit of another process: a child loses its parent, or what was kept for it. -/
theorem Story.orphan {p : P} {as : List (Act P S)} {n : Option (Member P S)} (h : Story p as n)
    (p' : P) : Story p as (n.bind (Member.orphan p')) := by
  cases h with
  | unborn => exact .unborn
  | lives hq =>
    simp only [Option.bind_some, Member.orphan]
    split_ifs with hparent hexited
    · exact .lives hq
    · cases hexited
    · exact .lives (.inr rfl)
  | vanished => exact .vanished
  | waits =>
    simp only [Option.bind_some, Member.orphan]
    split_ifs with hparent hexited
    · exact .waits
    · exact .ended
    · exact absurd rfl hexited
  | ended => exact .ended
  | collected => exact .collected

/-- **A step continues the story of each name**, if names are not given out twice. -/
theorem Story.step {F F' : Family P S} {a : Act P S} (hs : F.Step a F') {p : P}
    {as : List (Act P S)} (hfresh : ∀ q, a = .spawn q p → as = []) (h : Story p as (F p)) :
    Story p (as ++ [a].filter (Act.about p)) (F' p) := by
  cases hs with
  | @spawn q p' hnone hq =>
    by_cases hp : p' = p
    · subst hp
      rw [hfresh q rfl, Function.update_self]
      simp only [Act.about, decide_true, List.filter_cons_of_pos, List.filter_nil, List.nil_append]
      exact .lives (.inl rfl)
    · simpa [Act.about, hp, Function.update_of_ne (Ne.symm hp)] using h
  | @exit p' s n hn hstatus =>
    by_cases hp : p' = p
    · subst hp
      rw [hn] at h
      simpa [Act.about, Family.exit, hn] using h.exit hstatus s
    · simpa [Act.about, Family.exit, hp, Ne.symm hp] using h.orphan p'
  | @collect q p' s hn =>
    by_cases hp : p' = p
    · subst hp
      rw [hn] at h
      cases h
      simpa [Act.about] using Story.collected
    · simpa [Act.about, hp, Function.update_of_ne (Ne.symm hp)] using h
  | @refuse q p' hno => simpa [Act.about] using h
  | @vanish p' n hn hstatus =>
    by_cases hp : p' = p
    · subst hp
      rw [hn] at h
      obtain ⟨q, rfl, -⟩ := h.alive hstatus
      simpa [Act.about] using Story.vanished
    · simpa [Act.about, hp, Function.update_of_ne (Ne.symm hp)] using h

end

end Emyx.Lib
