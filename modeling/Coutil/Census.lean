import Mathlib.Data.List.Basic
import Mathlib.Tactic.ByContra

set_option autoImplicit false

/-! How many entries of a table are of each kind, and how the numbers change when one
entry is replaced, when one is added and when all are relabelled. -/
namespace Coutil.Census

variable {A K : Type} [DecidableEq K] (kind : A → K)

def census (table : List A) (k : K) : ℕ :=
  table.countP fun a => kind a = k

@[simp] theorem census_nil (k : K) : census kind [] k = 0 := rfl

theorem census_cons (a : A) (table : List A) (k : K) :
    census kind (a :: table) k = census kind table k + if kind a = k then 1 else 0 := by
  simp only [census, List.countP_cons, decide_eq_true_eq]

theorem census_append (table : List A) (a : A) (k : K) :
    census kind (table ++ [a]) k = census kind table k + if kind a = k then 1 else 0 := by
  simp only [census, List.countP_append, List.countP_singleton, decide_eq_true_eq]

theorem census_set {table : List A} {i : ℕ} {a : A} (at_i : table[i]? = some a) (b : A) (k : K) :
    census kind (table.set i b) k + (if kind a = k then 1 else 0) =
      census kind table k + if kind b = k then 1 else 0 := by
  induction table generalizing i with
  | nil => simp only [List.getElem?_nil, reduceCtorEq] at at_i
  | cons c table ih =>
    cases i with
    | zero =>
      simp only [List.getElem?_cons_zero, Option.some.injEq] at at_i
      subst c
      simp only [List.set_cons_zero, census_cons]
      omega
    | succ i =>
      have rest := ih (i := i) (by simpa only [List.getElem?_cons_succ] using at_i)
      simp only [List.set_cons_succ, census_cons]
      omega

theorem census_pos {table : List A} {k : K} :
    0 < census kind table k ↔ ∃ (i : ℕ) (a : A), table[i]? = some a ∧ kind a = k := by
  rw [census, List.countP_pos_iff]
  constructor
  · rintro ⟨a, mem, eq⟩
    obtain ⟨i, at_i⟩ := List.mem_iff_getElem?.mp mem
    exact ⟨i, a, at_i, of_decide_eq_true eq⟩
  · rintro ⟨i, a, at_i, eq⟩
    exact ⟨a, List.mem_of_getElem? at_i, decide_eq_true eq⟩

theorem census_split (before after : List A) (a : A) (k : K) :
    census kind (before ++ a :: after) k =
      census kind (before ++ after) k + if kind a = k then 1 else 0 := by
  simp only [census, List.countP_append, List.countP_cons, decide_eq_true_eq]
  omega

theorem census_eraseIdx {table : List A} {i : ℕ} {a : A} (at_i : table[i]? = some a) (k : K) :
    census kind table k = census kind (table.eraseIdx i) k + if kind a = k then 1 else 0 := by
  obtain ⟨bound, rfl⟩ := List.getElem?_eq_some_iff.mp at_i
  have split := census_split kind (table.take i) (table.drop (i + 1)) table[i] k
  rw [← List.drop_eq_getElem_cons bound, List.take_append_drop] at split
  rw [List.eraseIdx_eq_take_drop_succ]
  exact split

/-- At most one entry of a kind is at one index. -/
theorem index_unique {table : List A} {k : K} (single : census kind table k ≤ 1) {i j : ℕ} {a b : A}
    (at_i : table[i]? = some a) (at_j : table[j]? = some b) (first : kind a = k)
    (second : kind b = k) : i = j := by
  by_contra distinct
  induction table generalizing i j with
  | nil => cases at_i
  | cons c table ih =>
    rw [census_cons] at single
    cases i with
    | zero =>
      cases j with
      | zero => exact distinct rfl
      | succ j =>
        obtain rfl : c = a := Option.some.inj at_i
        have positive := (census_pos kind).mpr ⟨j, b, at_j, second⟩
        rw [if_pos first] at single
        omega
    | succ i =>
      cases j with
      | zero =>
        obtain rfl : c = b := Option.some.inj at_j
        have positive := (census_pos kind).mpr ⟨i, a, at_i, first⟩
        rw [if_pos second] at single
        omega
      | succ j =>
        exact ih (by omega) at_i at_j (fun same => distinct (congrArg _ same))

theorem ne_of_census_eq_zero {table : List A} {k : K} (none : census kind table k = 0) {a : A}
    (mem : a ∈ table) : kind a ≠ k := by
  intro same
  obtain ⟨i, at_i⟩ := List.mem_iff_getElem?.mp mem
  have positive := (census_pos kind).mpr ⟨i, a, at_i, same⟩
  omega

/-- Relabelling the entries of one kind moves their number to the other one. -/
theorem census_map_relabel {f : A → A} {k l : K} (distinct : k ≠ l)
    (moved : ∀ a, kind a = k → kind (f a) = l)
    (kept : ∀ a, kind a ≠ k → kind (f a) = kind a) (table : List A) (m : K) :
    census kind (table.map f) m =
      if m = k then 0
      else if m = l then census kind table k + census kind table l
      else census kind table m := by
  induction table with
  | nil => simp only [List.map_nil, census_nil, Nat.add_zero, ite_self]
  | cons a table ih =>
    rw [List.map_cons, census_cons, ih]
    by_cases here : kind a = k
    · rw [moved a here]
      simp only [census_cons, here]
      split_ifs <;> first | omega | simp_all
    · rw [kept a here]
      simp only [census_cons]
      split_ifs <;> first | omega | simp_all

end Coutil.Census
