import Mathlib.Logic.Basic
import Mathlib.Logic.ExistsUnique

set_option autoImplicit false

/-! Things that are held in places. The relation says which place holds which thing; a change
of it brings one thing in, takes one out, or moves all of one place to another. -/
namespace Coutil.Placement

variable {P A : Type}

/-- Nothing is in two places. -/
def Unique (H : P → A → Prop) : Prop :=
  ∀ p q a, H p a → H q a → p = q

def Placed (H : P → A → Prop) (a : A) : Prop :=
  ∃ p, H p a

structure Enters (H H' : P → A → Prop) (q : P) (a : A) : Prop where
  fresh : ¬Placed H a
  enters : ∀ b, H' q b ↔ H q b ∨ b = a
  frame : ∀ r, r ≠ q → ∀ b, H' r b ↔ H r b

structure Leaves (H H' : P → A → Prop) (p : P) (a : A) : Prop where
  held : H p a
  leaves : ∀ b, H' p b ↔ H p b ∧ b ≠ a
  frame : ∀ r, r ≠ p → ∀ b, H' r b ↔ H r b

structure Merges (H H' : P → A → Prop) (p q : P) : Prop where
  distinct : p ≠ q
  leaves : ∀ b, ¬H' p b
  enters : ∀ b, H' q b ↔ H q b ∨ H p b
  frame : ∀ r, r ≠ p → r ≠ q → ∀ b, H' r b ↔ H r b

variable {H H' : P → A → Prop} {p q : P} {a : A}

theorem Unique.exists_unique (unique : Unique H) (placed : Placed H a) : ∃! p, H p a := by
  obtain ⟨p, here⟩ := placed
  exact ⟨p, here, fun q there => unique q p a there here⟩

namespace Enters

theorem holds_iff (enters : Enters H H' q a) (r : P) (b : A) :
    H' r b ↔ H r b ∨ (r = q ∧ b = a) := by
  by_cases here : r = q
  · subst r
    simp only [enters.enters, true_and]
  · simp only [enters.frame r here, here, false_and, or_false]

theorem placed_iff (enters : Enters H H' q a) (b : A) : Placed H' b ↔ Placed H b ∨ b = a := by
  constructor
  · rintro ⟨r, held⟩
    obtain held | ⟨-, rfl⟩ := (enters.holds_iff r b).mp held
    · exact Or.inl ⟨r, held⟩
    · exact Or.inr rfl
  · rintro (⟨r, held⟩ | rfl)
    · exact ⟨r, (enters.holds_iff r b).mpr (Or.inl held)⟩
    · exact ⟨q, (enters.holds_iff q b).mpr (Or.inr ⟨rfl, rfl⟩)⟩

theorem unique (enters : Enters H H' q a) (unique : Unique H) : Unique H' := by
  intro r s b first second
  obtain first | ⟨rfl, rfl⟩ := (enters.holds_iff r b).mp first
  · obtain second | ⟨rfl, rfl⟩ := (enters.holds_iff s b).mp second
    · exact unique r s b first second
    · exact absurd ⟨r, first⟩ enters.fresh
  · obtain second | ⟨rfl, -⟩ := (enters.holds_iff s b).mp second
    · exact absurd ⟨s, second⟩ enters.fresh
    · rfl

end Enters

namespace Leaves

theorem holds_iff (leaves : Leaves H H' p a) (unique : Unique H) (r : P) (b : A) :
    H' r b ↔ H r b ∧ b ≠ a := by
  by_cases here : r = p
  · subst r
    exact leaves.leaves b
  · rw [leaves.frame r here]
    refine ⟨fun held => ⟨held, ?_⟩, And.left⟩
    rintro rfl
    exact here (unique r p b held leaves.held)

theorem placed_iff (leaves : Leaves H H' p a) (unique : Unique H) (b : A) :
    Placed H' b ↔ Placed H b ∧ b ≠ a := by
  simp only [Placed, leaves.holds_iff unique, exists_and_right]

theorem unique (leaves : Leaves H H' p a) (unique : Unique H) : Unique H' := by
  intro r s b first second
  exact unique r s b ((leaves.holds_iff unique r b).mp first).1
    ((leaves.holds_iff unique s b).mp second).1

end Leaves

namespace Merges

theorem holds_iff (merges : Merges H H' p q) (r : P) (b : A) :
    H' r b ↔ (H r b ∧ r ≠ p) ∨ (r = q ∧ H p b) := by
  by_cases source : r = p
  · subst r
    simp only [merges.leaves, merges.distinct, ne_eq, not_true, and_false, false_and, or_self]
  · by_cases target : r = q
    · subst r
      simp only [merges.enters, ne_eq, source, not_false_eq_true, and_true, true_and]
    · simp only [merges.frame r source target, ne_eq, source, not_false_eq_true, and_true, target,
        false_and, or_false]

theorem placed_iff (merges : Merges H H' p q) (b : A) : Placed H' b ↔ Placed H b := by
  constructor
  · rintro ⟨r, held⟩
    obtain ⟨held, -⟩ | ⟨-, held⟩ := (merges.holds_iff r b).mp held
    · exact ⟨r, held⟩
    · exact ⟨p, held⟩
  · rintro ⟨r, held⟩
    by_cases source : r = p
    · subst r
      exact ⟨q, (merges.holds_iff q b).mpr (Or.inr ⟨rfl, held⟩)⟩
    · exact ⟨r, (merges.holds_iff r b).mpr (Or.inl ⟨held, source⟩)⟩

theorem unique (merges : Merges H H' p q) (unique : Unique H) : Unique H' := by
  intro r s b first second
  obtain ⟨first, away⟩ | ⟨rfl, first⟩ := (merges.holds_iff r b).mp first
  · obtain ⟨second, -⟩ | ⟨rfl, second⟩ := (merges.holds_iff s b).mp second
    · exact unique r s b first second
    · exact absurd (unique r p b first second) away
  · obtain ⟨second, away⟩ | ⟨rfl, -⟩ := (merges.holds_iff s b).mp second
    · exact absurd (unique s p b second first) away
    · rfl

end Merges

end Coutil.Placement
