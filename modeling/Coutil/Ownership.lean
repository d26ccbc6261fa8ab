import Mathlib.Data.List.Basic
import Mathlib.Data.List.Nodup
import Mathlib.Data.List.Perm.Basic

set_option autoImplicit false

/-! Resources that have one owner at most: what the owners have, what is in hand in between two
owners, and what was lost because nobody was given it. -/
namespace Coutil.Ownership

section
variable {H R : Type}

structure Custody (own : H → List R) (live loose lost : List R) : Prop where
  nodup : ∀ h, (own h).Nodup
  apart : ∀ h k r, r ∈ own h → r ∈ own k → h = k
  spare : (loose ++ lost).Nodup
  unheld : ∀ h r, r ∈ own h → r ∉ loose ++ lost
  live_iff : ∀ r, r ∈ live ↔ (∃ h, r ∈ own h) ∨ r ∈ loose ++ lost

variable {own : H → List R} {live loose loose' lost rs : List R} {h : H} {r : R}

theorem Custody.nothing : Custody (fun _ : H => ([] : List R)) [] [] [] :=
  ⟨fun _ => List.nodup_nil, fun _ _ _ mine => absurd mine List.not_mem_nil, List.nodup_nil,
    fun _ _ mine => absurd mine List.not_mem_nil, fun r => by simp⟩

theorem Custody.held_live (custody : Custody own live loose lost) (held : r ∈ own h) : r ∈ live :=
  (custody.live_iff r).mpr (.inl ⟨h, held⟩)

theorem Custody.loose_live (custody : Custody own live loose lost) (member : r ∈ loose) :
    r ∈ live :=
  (custody.live_iff r).mpr (.inr (List.mem_append_left _ member))

/-- Nothing in hand: what is live has one owner, or it was lost. -/
theorem Custody.partition (custody : Custody own live [] lost) (r : R) :
    r ∈ live ↔ ((∃! h, r ∈ own h) ∧ r ∉ lost) ∨ ((∀ h, r ∉ own h) ∧ r ∈ lost) := by
  rw [custody.live_iff r, List.nil_append]
  constructor
  · rintro (⟨h, held⟩ | gone)
    · have kept := custody.unheld h r held
      rw [List.nil_append] at kept
      exact .inl ⟨⟨h, held, fun k mine => custody.apart k h r mine held⟩, kept⟩
    · refine .inr ⟨fun h held => ?_, gone⟩
      have kept := custody.unheld h r held
      rw [List.nil_append] at kept
      exact kept gone
  · rintro (⟨⟨h, held, -⟩, -⟩ | ⟨-, gone⟩)
    · exact .inl ⟨h, held⟩
    · exact .inr gone

theorem Custody.reorder (custody : Custody own live loose lost) (same : loose.Perm loose') :
    Custody own live loose' lost := by
  have all : (loose ++ lost).Perm (loose' ++ lost) := same.append_right lost
  refine ⟨custody.nodup, custody.apart, all.nodup_iff.mp custody.spare, fun h r held => ?_,
    fun r => ?_⟩
  · rw [← all.mem_iff]
    exact custody.unheld h r held
  · rw [← all.mem_iff]
    exact custody.live_iff r

/-- What one owner and the hand have is shared out anew. -/
theorem Custody.exchange [DecidableEq H] (custody : Custody own live loose lost)
    (same : (own h ++ loose).Perm (rs ++ loose')) :
    Custody (Function.update own h rs) live loose' lost := by
  have mem (r : R) : r ∈ own h ∨ r ∈ loose ↔ r ∈ rs ∨ r ∈ loose' := by
    rw [← List.mem_append, ← List.mem_append]
    exact same.mem_iff
  have before : (own h ++ (loose ++ lost)).Nodup := by
    refine List.nodup_append.mpr ⟨custody.nodup h, custody.spare, ?_⟩
    rintro r held s spare rfl
    exact custody.unheld h r held spare
  have after : (rs ++ (loose' ++ lost)).Nodup := by
    rw [← List.append_assoc] at before ⊢
    exact (same.append_right lost).nodup_iff.mp before
  obtain ⟨inside, spare, disjoint⟩ := List.nodup_append.mp after
  have other {k : H} (distinct : k ≠ h) {r : R} (held : r ∈ own k) :
      r ∉ rs ∧ r ∉ loose' ++ lost := by
    have kept := custody.unheld k r held
    rw [List.mem_append, not_or] at kept
    have outside : ¬(r ∈ rs ∨ r ∈ loose') := by
      rw [← mem]
      rintro (mine | mine)
      · exact distinct (custody.apart k h r held mine)
      · exact kept.1 mine
    rw [not_or] at outside
    exact ⟨outside.1, by simpa using ⟨outside.2, kept.2⟩⟩
  refine ⟨fun k => ?_, fun k l r mine yours => ?_, spare, fun k r mine => ?_, fun r => ?_⟩
  · by_cases here : k = h
    · rw [here, Function.update_self]
      exact inside
    · rw [Function.update_of_ne here]
      exact custody.nodup k
  · by_cases here : k = h
    · by_cases there : l = h
      · rw [here, there]
      · rw [here, Function.update_self] at mine
        rw [Function.update_of_ne there] at yours
        exact absurd mine (other there yours).1
    · rw [Function.update_of_ne here] at mine
      by_cases there : l = h
      · rw [there, Function.update_self] at yours
        exact absurd yours (other here mine).1
      · rw [Function.update_of_ne there] at yours
        exact custody.apart k l r mine yours
  · by_cases here : k = h
    · rw [here, Function.update_self] at mine
      exact fun spare => disjoint r mine r spare rfl
    · rw [Function.update_of_ne here] at mine
      exact (other here mine).2
  · rw [custody.live_iff r, List.mem_append, List.mem_append]
    constructor
    · rintro (⟨k, held⟩ | spare | gone)
      · by_cases here : k = h
        · rw [here] at held
          rcases (mem r).mp (.inl held) with mine | spare
          · exact .inl ⟨h, by rwa [Function.update_self]⟩
          · exact .inr (.inl spare)
        · exact .inl ⟨k, by rwa [Function.update_of_ne here]⟩
      · rcases (mem r).mp (.inr spare) with mine | spare
        · exact .inl ⟨h, by rwa [Function.update_self]⟩
        · exact .inr (.inl spare)
      · exact .inr (.inr gone)
    · rintro (⟨k, held⟩ | spare | gone)
      · by_cases here : k = h
        · rw [here, Function.update_self] at held
          rcases (mem r).mpr (.inl held) with mine | spare
          · exact .inl ⟨h, mine⟩
          · exact .inr (.inl spare)
        · rw [Function.update_of_ne here] at held
          exact .inl ⟨k, held⟩
      · rcases (mem r).mpr (.inr spare) with mine | spare
        · exact .inl ⟨h, mine⟩
        · exact .inr (.inl spare)
      · exact .inr (.inr gone)

/-- An owner that has nothing takes what is in hand. -/
theorem Custody.give [DecidableEq H] (custody : Custody own live (rs ++ loose) lost)
    (empty : own h = []) : Custody (Function.update own h rs) live loose lost :=
  custody.exchange (by rw [empty, List.nil_append])

theorem Custody.create (custody : Custody own live loose lost) (fresh : r ∉ live) :
    Custody own (r :: live) (r :: loose) lost := by
  have new (h : H) : r ∉ own h := fun held => fresh (custody.held_live held)
  have spare : r ∉ loose ++ lost := fun member => fresh ((custody.live_iff r).mpr (.inr member))
  refine ⟨custody.nodup, custody.apart, ?_, fun h s held => ?_, fun s => ?_⟩
  · rw [List.cons_append, List.nodup_cons]
    exact ⟨spare, custody.spare⟩
  · rw [List.cons_append, List.mem_cons, not_or]
    refine ⟨?_, custody.unheld h s held⟩
    rintro rfl
    exact new h held
  · rw [List.cons_append, List.mem_cons, List.mem_cons, custody.live_iff s]
    exact or_left_comm

theorem Custody.release [DecidableEq R] (custody : Custody own live (r :: loose) lost) :
    Custody own (live.filter (· ≠ r)) loose lost := by
  obtain ⟨absent, spare⟩ := List.nodup_cons.mp custody.spare
  have others (h : H) (s : R) (held : s ∈ own h) : s ≠ r ∧ s ∉ loose ++ lost := by
    have kept := custody.unheld h s held
    rw [List.cons_append, List.mem_cons, not_or] at kept
    exact kept
  refine ⟨custody.nodup, custody.apart, spare, fun h s held => (others h s held).2, fun s => ?_⟩
  rw [List.mem_filter, custody.live_iff s, List.cons_append, List.mem_cons, decide_eq_true_iff]
  constructor
  · rintro ⟨held | rfl | member, distinct⟩
    · exact .inl held
    · exact absurd rfl distinct
    · exact .inr member
  · rintro (⟨h, held⟩ | member)
    · exact ⟨.inl ⟨h, held⟩, (others h s held).1⟩
    · refine ⟨.inr (.inr member), ?_⟩
      rintro rfl
      exact absent member

/-- What is still in hand at the end is lost. -/
theorem Custody.forget (custody : Custody own live loose lost) :
    Custody own live [] (lost ++ loose) := by
  have same : (loose ++ lost).Perm ([] ++ (lost ++ loose)) := List.perm_append_comm
  refine ⟨custody.nodup, custody.apart, same.nodup_iff.mp custody.spare, fun h r held => ?_,
    fun r => ?_⟩
  · rw [← same.mem_iff]
    exact custody.unheld h r held
  · rw [← same.mem_iff]
    exact custody.live_iff r

end
end Coutil.Ownership
