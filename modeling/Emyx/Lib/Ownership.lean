/-
  File:      Emyx/Lib/Ownership.lean
  Subject:   WHO OWNS A RESOURCE. Nothing here is about one program.

  Resources are numbers (frames, blocks, descriptors); an allocator says which are taken. Users
  are described by their *roles*: `fo r = some f` says that the role `r` is filled by the
  resource `f`. `Own fo al` is the whole bookkeeping at once: each taken resource fills exactly
  one role, and only taken resources fill any. Taking a resource for a role (`Own.add`) and giving
  some back (`Own.drop`) keep it, and nothing is leaked or owned twice while it holds.
-/
import Mathlib.Tactic

namespace Emyx.Lib

variable {ρ : Type} {fo fo' : ρ → Option Nat} {al al' : Nat → Prop}

/-- Every taken resource fills one role, and no resource fills two. -/
structure Own (fo : ρ → Option Nat) (al : Nat → Prop) : Prop where
  inj : ∀ {r r' : ρ} {f : Nat}, fo r = some f → fo r' = some f → r = r'
  taken : ∀ f, al f ↔ ∃ r, fo r = some f

theorem Own.mem (h : Own fo al) {r : ρ} {f : Nat} (hr : fo r = some f) : al f :=
  (h.taken f).mpr ⟨r, hr⟩

/-- The same bookkeeping, spelt differently. -/
theorem Own.congr (h : Own fo al) (hf : ∀ r, fo' r = fo r) (ha : ∀ f, al' f ↔ al f) :
    Own fo' al' := by
  refine ⟨fun {r r' f} h1 h2 => ?_, fun f => ?_⟩
  · rw [hf] at h1 h2
    exact h.inj h1 h2
  · rw [ha, h.taken]
    simp only [hf]

/-- A free resource fills an empty role. -/
theorem Own.add (h : Own fo al) {r : ρ} {f : Nat} (hr : fo r = none) (hf : ¬ al f)
    (hself : fo' r = some f) (hother : ∀ r', r' ≠ r → fo' r' = fo r')
    (ha : ∀ g, al' g ↔ g = f ∨ al g) : Own fo' al' := by
  have hcases : ∀ {r' g}, fo' r' = some g → (r' = r ∧ g = f) ∨ (r' ≠ r ∧ fo r' = some g) :=
    fun {r' g} h' => by
      by_cases e : r' = r
      · subst e
        rw [hself] at h'
        exact Or.inl ⟨rfl, (Option.some.inj h').symm⟩
      · rw [hother r' e] at h'
        exact Or.inr ⟨e, h'⟩
  refine ⟨fun {r1 r2 g} h1 h2 => ?_, fun g => ?_⟩
  · rcases hcases h1 with ⟨rfl, rfl⟩ | ⟨_, h1'⟩
    · rcases hcases h2 with ⟨e, _⟩ | ⟨_, h2'⟩
      · exact e.symm
      · exact absurd (h.mem h2') hf
    · rcases hcases h2 with ⟨_, rfl⟩ | ⟨_, h2'⟩
      · exact absurd (h.mem h1') hf
      · exact h.inj h1' h2'
  · rw [ha, h.taken]
    constructor
    · intro hg
      rcases hg with rfl | ⟨r', h'⟩
      · exact ⟨r, hself⟩
      · refine ⟨r', ?_⟩
        have hne : r' ≠ r := fun e => by
          subst e
          rw [hr] at h'
          cases h'
        rw [hother r' hne]
        exact h'
    · intro hg
      obtain ⟨r', h'⟩ := hg
      rcases hcases h' with ⟨_, e⟩ | ⟨_, h''⟩
      · exact Or.inl e
      · exact Or.inr ⟨r', h''⟩

/-- Some roles give their resources back. -/
theorem Own.drop (h : Own fo al) {P : ρ → Prop} (hgone : ∀ r, P r → fo' r = none)
    (hother : ∀ r, ¬ P r → fo' r = fo r)
    (ha : ∀ g, al' g ↔ al g ∧ ∀ r, P r → fo r ≠ some g) : Own fo' al' := by
  have hcases : ∀ {r g}, fo' r = some g → ¬ P r ∧ fo r = some g := fun {r g} h' => by
    have hn : ¬ P r := fun hp => by
      rw [hgone r hp] at h'
      cases h'
    exact ⟨hn, hother r hn ▸ h'⟩
  refine ⟨fun {r1 r2 g} h1 h2 => h.inj (hcases h1).2 (hcases h2).2, fun g => ?_⟩
  rw [ha]
  constructor
  · intro hg
    obtain ⟨r, hr⟩ := (h.taken g).mp hg.1
    exact ⟨r, (hother r fun hp => hg.2 r hp hr).trans hr⟩
  · intro hg
    obtain ⟨r, hr⟩ := hg
    obtain ⟨hn, hr'⟩ := hcases hr
    refine ⟨h.mem hr', fun r' hp h' => hn ?_⟩
    rw [h.inj hr' h']
    exact hp

/-- One role gives its resource back. -/
theorem Own.del (h : Own fo al) {r : ρ} {f : Nat} (hr : fo r = some f) (hself : fo' r = none)
    (hother : ∀ r', r' ≠ r → fo' r' = fo r') (ha : ∀ g, al' g ↔ g ≠ f ∧ al g) : Own fo' al' := by
  refine h.drop (P := fun r' => r' = r) (fun r' e => e ▸ hself) hother fun g => ?_
  rw [ha]
  constructor
  · intro hg
    exact ⟨hg.2, fun r' e h' => hg.1 (Option.some.inj (h'.symm.trans (e ▸ hr)))⟩
  · intro hg
    exact ⟨fun e => hg.2 r rfl (e ▸ hr), hg.1⟩

/-- A resource goes from one role to another. -/
theorem Own.move (h : Own fo al) {r r' : ρ} {f : Nat} (hr : fo r = some f) (hr' : fo r' = none)
    (hgone : fo' r = none) (hself : fo' r' = some f)
    (hother : ∀ q, q ≠ r → q ≠ r' → fo' q = fo q) : Own fo' al := by
  classical
  have hne : r' ≠ r := fun e => by
    rw [e, hr] at hr'
    cases hr'
  have h1 : Own (Function.update fo r none) fun g => g ≠ f ∧ al g :=
    h.del hr (Function.update_self ..) (fun q hq => Function.update_of_ne hq ..) fun g => Iff.rfl
  refine h1.add (r := r') (f := f) (by rwa [Function.update_of_ne hne]) (fun hc => hc.1 rfl) hself
    (fun q hq => ?_) fun g => ?_
  · by_cases hqr : q = r
    · rw [hqr, hgone, Function.update_self]
    · rw [Function.update_of_ne hqr]
      exact hother q hqr hq
  · by_cases hg : g = f
    · exact iff_of_true (hg ▸ h.mem hr) (Or.inl hg)
    · exact ⟨fun ha => Or.inr ⟨hg, ha⟩, fun ha => (ha.resolve_left hg).2⟩

/-- While roles only get filled, the resources newly taken are those of the roles newly filled. -/
theorem Own.new_iff (h : Own fo al) (h' : Own fo' al')
    (hgrow : ∀ r f, fo r = some f → fo' r = some f) {f : Nat} :
    (al' f ∧ ¬ al f) ↔ ∃ r, fo' r = some f ∧ fo r = none := by
  constructor
  · rintro ⟨ha, hn⟩
    obtain ⟨r, hr⟩ := (h'.taken f).mp ha
    refine ⟨r, hr, ?_⟩
    cases hg : fo r with
    | none => rfl
    | some g =>
      cases hr.symm.trans (hgrow r g hg)
      exact absurd (h.mem hg) hn
  · rintro ⟨r, hr, hnone⟩
    refine ⟨h'.mem hr, fun ha => ?_⟩
    obtain ⟨r', hr'⟩ := (h.taken f).mp ha
    rw [h'.inj hr (hgrow r' f hr'), hr'] at hnone
    cases hnone

end Emyx.Lib
