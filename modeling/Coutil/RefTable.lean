import Mathlib.Data.Int.Basic
import Mathlib.Logic.Function.Basic

set_option autoImplicit false

/-! Records with a reference count, found by name at an address. A record is kept as long as it
is referred to or in use for itself. -/
namespace Coutil.RefTable

variable {N A R : Type}

/-- The names of the map and the records of the heap are the same, and each record has the
number of its references. -/
structure Sound (refs : R → ℤ) (busy : R → Prop) (map : N → Option A) (heap : A → Option R)
    (count : N → ℕ) : Prop where
  found : ∀ name a, map name = some a →
    ∃ r, heap a = some r ∧ refs r = count name ∧ (0 < refs r ∨ busy r)
  distinct : ∀ name other a, map name = some a → map other = some a → name = other
  mapped : ∀ a r, heap a = some r → ∃ name, map name = some a
  unused : ∀ name, map name = none → count name = 0

variable {refs : R → ℤ} {busy : R → Prop} {map : N → Option A} {heap : A → Option R}
  {count count' : N → ℕ} {name : N} {a : A} {r : R}

theorem sound_empty : Sound refs busy (fun _ : N => none) (fun _ : A => none) fun _ => 0 where
  found := nofun
  distinct := nofun
  mapped := nofun
  unused := fun _ _ => rfl

namespace Sound

theorem count_eq (sound : Sound refs busy map heap count) (mapped : map name = some a)
    (at_a : heap a = some r) : refs r = count name ∧ (0 < refs r ∨ busy r) := by
  obtain ⟨q, at_q, kept⟩ := sound.found name a mapped
  cases at_a.symm.trans at_q
  exact kept

variable [DecidableEq A]

theorem replace (sound : Sound refs busy map heap count) (mapped : map name = some a)
    (refers : refs r = count' name) (kept : 0 < refs r ∨ busy r)
    (others : ∀ other, other ≠ name → count' other = count other) :
    Sound refs busy map (Function.update heap a (some r)) count' where
  found := fun other b here => by
    by_cases same : other = name
    · subst other
      cases mapped.symm.trans here
      exact ⟨r, Function.update_self .., refers, kept⟩
    · have away : b ≠ a := by
        rintro rfl
        exact same (sound.distinct other name b here mapped)
      rw [Function.update_of_ne away, others other same]
      exact sound.found other b here
  distinct := sound.distinct
  mapped := fun b q here => by
    by_cases same : b = a
    · exact ⟨name, same ▸ mapped⟩
    · rw [Function.update_of_ne same] at here
      exact sound.mapped b q here
  unused := fun other unmapped => by
    have distinct : other ≠ name := by
      rintro rfl
      cases mapped.symm.trans unmapped
    rw [others other distinct]
    exact sound.unused other unmapped

variable [DecidableEq N]

theorem insert (sound : Sound refs busy map heap count) (unmapped : map name = none)
    (free : heap a = none) (refers : refs r = count' name) (kept : 0 < refs r ∨ busy r)
    (others : ∀ other, other ≠ name → count' other = count other) :
    Sound refs busy (Function.update map name (some a)) (Function.update heap a (some r))
      count' := by
  have away (other : N) (b : A) (here : map other = some b) : b ≠ a := by
    rintro rfl
    obtain ⟨q, at_b, -⟩ := sound.found other b here
    cases free.symm.trans at_b
  refine ⟨fun other b here => ?_, fun left right b first second => ?_, fun b q here => ?_,
    fun other here => ?_⟩
  · by_cases same : other = name
    · subst other
      rw [Function.update_self] at here
      cases here
      exact ⟨r, Function.update_self .., refers, kept⟩
    · rw [Function.update_of_ne same] at here
      rw [Function.update_of_ne (away other b here), others other same]
      exact sound.found other b here
  · by_cases mine : left = name
    · by_cases also : right = name
      · rw [mine, also]
      · rw [mine, Function.update_self] at first
        rw [Function.update_of_ne also] at second
        cases first
        exact absurd rfl (away right a second)
    · rw [Function.update_of_ne mine] at first
      by_cases also : right = name
      · rw [also, Function.update_self] at second
        cases second
        exact absurd rfl (away left a first)
      · rw [Function.update_of_ne also] at second
        exact sound.distinct left right b first second
  · by_cases same : b = a
    · exact ⟨name, by rw [Function.update_self, same]⟩
    · rw [Function.update_of_ne same] at here
      obtain ⟨other, mapped⟩ := sound.mapped b q here
      have distinct : other ≠ name := by
        rintro rfl
        cases unmapped.symm.trans mapped
      exact ⟨other, by rw [Function.update_of_ne distinct, mapped]⟩
  · by_cases same : other = name
    · rw [same, Function.update_self] at here
      cases here
    · rw [Function.update_of_ne same] at here
      rw [others other same]
      exact sound.unused other here

/-- A record is freed with the last reference to its name. -/
theorem remove (sound : Sound refs busy map heap count) (mapped : map name = some a)
    (last : count' name = 0) (others : ∀ other, other ≠ name → count' other = count other) :
    Sound refs busy (Function.update map name none) (Function.update heap a none) count' := by
  have left {other : N} {b : A} (here : Function.update map name none other = some b) :
      other ≠ name ∧ map other = some b := by
    by_cases same : other = name
    · rw [same, Function.update_self] at here
      cases here
    · rw [Function.update_of_ne same] at here
      exact ⟨same, here⟩
  refine ⟨fun other b here => ?_, fun one another b first second => ?_, fun b q here => ?_,
    fun other here => ?_⟩
  · obtain ⟨same, here⟩ := left here
    have away : b ≠ a := by
      rintro rfl
      exact same (sound.distinct other name b here mapped)
    rw [Function.update_of_ne away, others other same]
    exact sound.found other b here
  · exact sound.distinct one another b (left first).2 (left second).2
  · have away : b ≠ a := by
      rintro rfl
      rw [Function.update_self] at here
      cases here
    rw [Function.update_of_ne away] at here
    obtain ⟨other, there⟩ := sound.mapped b q here
    have distinct : other ≠ name := by
      rintro rfl
      cases mapped.symm.trans there
      exact away rfl
    exact ⟨other, by rw [Function.update_of_ne distinct, there]⟩
  · by_cases same : other = name
    · rw [same, last]
    · rw [Function.update_of_ne same] at here
      rw [others other same]
      exact sound.unused other here

end Sound

end Coutil.RefTable
