import Mathlib.Data.List.TakeWhile

set_option autoImplicit false

/-! Strings of bytes, and what C functions see of them. -/
namespace Coutil.ByteString

abbrev Bytes := List UInt8

def literal (text : String) : Bytes := text.toList.map Char.toUInt8

/-- The bytes before the first zero. -/
def cstring (data : Bytes) : Bytes := data.takeWhile fun c => c ≠ 0

theorem cstring_eq {text : Bytes} (whole : 0 ∉ text) : cstring text = text := by
  rw [cstring, List.takeWhile_eq_self_iff]
  intro c member
  exact decide_eq_true fun zero => whole (zero ▸ member)

theorem last_unique {c : UInt8} {xs ys xs' ys' : Bytes} (absent : c ∉ ys) (absent' : c ∉ ys')
    (same : xs ++ c :: ys = xs' ++ c :: ys') : xs = xs' ∧ ys = ys' := by
  rcases List.append_eq_append_iff.mp same with ⟨more, rfl, rest⟩ | ⟨more, rfl, rest⟩
  · cases more with
    | nil => exact ⟨(List.append_nil xs).symm, (List.cons.inj rest).2⟩
    | cons d more =>
      have inside := (List.cons.inj rest).2
      exact absurd (inside ▸ List.mem_append_right more List.mem_cons_self) absent
  · cases more with
    | nil => exact ⟨List.append_nil xs', (List.cons.inj rest).2.symm⟩
    | cons d more =>
      have inside := (List.cons.inj rest).2
      exact absurd (inside ▸ List.mem_append_right more List.mem_cons_self) absent'

theorem first_unique {c : UInt8} {xs ys xs' ys' : Bytes} (absent : c ∉ xs) (absent' : c ∉ xs')
    (same : xs ++ c :: ys = xs' ++ c :: ys') : xs = xs' ∧ ys = ys' := by
  rcases List.append_eq_append_iff.mp same with ⟨more, rfl, rest⟩ | ⟨more, rfl, rest⟩
  · cases more with
    | nil => exact ⟨(List.append_nil xs).symm, (List.cons.inj rest).2⟩
    | cons d more =>
      have inside : c ∈ xs ++ d :: more := by
        rw [(List.cons.inj rest).1]
        exact List.mem_append_right xs List.mem_cons_self
      exact absurd inside absent'
  · cases more with
    | nil => exact ⟨List.append_nil xs', (List.cons.inj rest).2.symm⟩
    | cons d more =>
      have inside : c ∈ xs' ++ d :: more := by
        rw [(List.cons.inj rest).1]
        exact List.mem_append_right xs' List.mem_cons_self
      exact absurd inside absent

end Coutil.ByteString
