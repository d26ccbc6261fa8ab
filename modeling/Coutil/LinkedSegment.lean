import Mathlib.Data.List.Nodup
import Mathlib.Logic.Function.Basic

set_option autoImplicit false

/-! Segments of singly linked lists: nodes in a map of successors, each followed by the next one
and the last one by a given end. -/
namespace Coutil.LinkedSegment

section
variable {α : Type} {next next' : α → Option α} {x : α} {l r : List α} {e f : Option α}

def Segment (next : α → Option α) : List α → Option α → Prop
  | [], _ => True
  | x :: l, e => next x = l.head?.or e ∧ Segment next l e

theorem segment_append :
    Segment next (l ++ r) e ↔ Segment next l (r.head?.or e) ∧ Segment next r e := by
  induction l with
  | nil =>
    simp only [List.nil_append, Segment, true_and]
  | cons x l ih =>
    simp only [List.cons_append, Segment, List.head?_append, Option.or_assoc, ih, and_assoc]

theorem segment_last : Segment next (l ++ [x]) e ↔ Segment next l (some x) ∧ next x = e := by
  rw [segment_append]
  simp only [Segment, List.head?_cons, List.head?_nil, Option.some_or, Option.none_or, and_true]

/-- Only what the nodes of the segment point to matters. -/
theorem Segment.congr (segment : Segment next l e) (same : ∀ y ∈ l, next' y = next y) :
    Segment next' l e := by
  induction l with
  | nil => trivial
  | cons y l ih =>
    refine ⟨(same y List.mem_cons_self).trans segment.1, ih segment.2 fun z member => ?_⟩
    exact same z (List.mem_cons_of_mem y member)

theorem Segment.update [DecidableEq α] (segment : Segment next l e) (outside : x ∉ l) :
    Segment (Function.update next x f) l e := by
  apply segment.congr
  intro y member
  exact Function.update_of_ne (ne_of_mem_of_not_mem member outside) f next

/-- A segment gets another end by its last node. -/
theorem Segment.redirect [DecidableEq α] (segment : Segment next (l ++ [x]) e)
    (outside : x ∉ l) : Segment (Function.update next x f) (l ++ [x]) f := by
  rw [segment_last] at segment ⊢
  exact ⟨segment.1.update outside, Function.update_self x f next⟩

end
end Coutil.LinkedSegment
