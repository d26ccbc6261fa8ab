import Mathlib
import Coutil.Placement

set_option autoImplicit false

/-! Where the tasks of a pool are, and how their number is kept: what the pool is for, with no
threads and no mutexes. A task enters by the queue, moves from place to place, and its end is
accounted once. -/
namespace Coutil.TaskLedger
open Placement

/-- A worker that closed its task has still to account for it. -/
inductive Place where
  | queue
  | worker (i : ℕ)
  | ended (i : ℕ)
  | sync (name : String)
  | channeltask
  | matcher (j : ℕ)
  | closer
  deriving DecidableEq

structure View (T : Type) where
  queue : List T
  worker : ℕ → Option T
  ended : ℕ → Option T
  sync : String → List T
  channeltask : T → Option T
  matcher : ℕ → Option T
  closer : List T

section
variable {T : Type}

theorem nodup_concat {l : List T} {t : T} (nodup : l.Nodup) (fresh : t ∉ l) :
    (l ++ [t]).Nodup := by
  rw [← List.concat_eq_append]
  exact List.Nodup.concat fresh nodup

namespace View

def Holds (v : View T) : Place → T → Prop
  | .queue, t => t ∈ v.queue
  | .worker i, t => v.worker i = some t
  | .ended i, t => v.ended i = some t
  | .sync name, t => t ∈ v.sync name
  | .channeltask, t => v.channeltask t = some t
  | .matcher j, t => v.matcher j = some t
  | .closer, t => t ∈ v.closer

/-- There is room for one more task. -/
def Free (v : View T) : Place → Prop
  | .worker i => v.worker i = none
  | .ended i => v.ended i = none
  | .matcher j => v.matcher j = none
  | _ => True

/-- No list has a task twice, and a channel task stores only the task it belongs to. -/
structure Distinct (v : View T) : Prop where
  queue : v.queue.Nodup
  sync : ∀ name, (v.sync name).Nodup
  closer : v.closer.Nodup
  own : ∀ t u, v.channeltask t = some u → u = t

theorem update_slot {slots : ℕ → Option T} {i : ℕ} (empty : slots i = none) (t u : T) :
    Function.update slots i (some t) i = some u ↔ slots i = some u ∨ u = t := by
  simp [empty, eq_comm]

theorem empty_slot {slots : ℕ → Option T} {i : ℕ} {t : T} (held : slots i = some t) (u : T) :
    Function.update slots i none i = some u ↔ slots i = some u ∧ u ≠ t := by
  simp [held, eq_comm]

variable [DecidableEq T]

def insert (v : View T) (p : Place) (t : T) : View T :=
  match p with
  | .queue => { v with queue := v.queue ++ [t] }
  | .worker i => { v with worker := Function.update v.worker i (some t) }
  | .ended i => { v with ended := Function.update v.ended i (some t) }
  | .sync name => { v with sync := Function.update v.sync name (v.sync name ++ [t]) }
  | .channeltask => { v with channeltask := Function.update v.channeltask t (some t) }
  | .matcher j => { v with matcher := Function.update v.matcher j (some t) }
  | .closer => { v with closer := v.closer ++ [t] }

def remove (v : View T) (p : Place) (t : T) : View T :=
  match p with
  | .queue => { v with queue := v.queue.erase t }
  | .worker i => { v with worker := Function.update v.worker i none }
  | .ended i => { v with ended := Function.update v.ended i none }
  | .sync name => { v with sync := Function.update v.sync name ((v.sync name).erase t) }
  | .channeltask => { v with channeltask := Function.update v.channeltask t none }
  | .matcher j => { v with matcher := Function.update v.matcher j none }
  | .closer => { v with closer := v.closer.erase t }

theorem insert_frame (v : View T) {q r : Place} (t u : T) (other : r ≠ q) :
    (v.insert q t).Holds r u ↔ v.Holds r u := by
  cases q with
  | queue =>
    cases r with
    | queue => exact absurd rfl other
    | _ => rfl
  | worker i =>
    cases r with
    | worker k =>
      have distinct : k ≠ i := fun same => other (same ▸ rfl)
      simp only [insert, Holds, Function.update_of_ne distinct]
    | _ => rfl
  | ended i =>
    cases r with
    | ended k =>
      have distinct : k ≠ i := fun same => other (same ▸ rfl)
      simp only [insert, Holds, Function.update_of_ne distinct]
    | _ => rfl
  | sync name =>
    cases r with
    | sync k =>
      have distinct : k ≠ name := fun same => other (same ▸ rfl)
      simp only [insert, Holds, Function.update_of_ne distinct]
    | _ => rfl
  | channeltask =>
    cases r with
    | channeltask => exact absurd rfl other
    | _ => rfl
  | matcher j =>
    cases r with
    | matcher k =>
      have distinct : k ≠ j := fun same => other (same ▸ rfl)
      simp only [insert, Holds, Function.update_of_ne distinct]
    | _ => rfl
  | closer =>
    cases r with
    | closer => exact absurd rfl other
    | _ => rfl

theorem remove_frame (v : View T) {p r : Place} (t u : T) (other : r ≠ p) :
    (v.remove p t).Holds r u ↔ v.Holds r u := by
  cases p with
  | queue =>
    cases r with
    | queue => exact absurd rfl other
    | _ => rfl
  | worker i =>
    cases r with
    | worker k =>
      have distinct : k ≠ i := fun same => other (same ▸ rfl)
      simp only [remove, Holds, Function.update_of_ne distinct]
    | _ => rfl
  | ended i =>
    cases r with
    | ended k =>
      have distinct : k ≠ i := fun same => other (same ▸ rfl)
      simp only [remove, Holds, Function.update_of_ne distinct]
    | _ => rfl
  | sync name =>
    cases r with
    | sync k =>
      have distinct : k ≠ name := fun same => other (same ▸ rfl)
      simp only [remove, Holds, Function.update_of_ne distinct]
    | _ => rfl
  | channeltask =>
    cases r with
    | channeltask => exact absurd rfl other
    | _ => rfl
  | matcher j =>
    cases r with
    | matcher k =>
      have distinct : k ≠ j := fun same => other (same ▸ rfl)
      simp only [remove, Holds, Function.update_of_ne distinct]
    | _ => rfl
  | closer =>
    cases r with
    | closer => exact absurd rfl other
    | _ => rfl

theorem insert_enters {v : View T} {q : Place} {t : T} (fresh : ¬Placed v.Holds t)
    (free : v.Free q) : Enters v.Holds (v.insert q t).Holds q t := by
  refine ⟨fresh, fun u => ?_, fun r other u => insert_frame v t u other⟩
  cases q with
  | queue => simp [insert, Holds]
  | worker i => exact update_slot free t u
  | ended i => exact update_slot free t u
  | sync name => simp [insert, Holds]
  | channeltask =>
    by_cases same : u = t
    · subst u
      simp [insert, Holds]
    · simp [insert, Holds, same]
  | matcher j => exact update_slot free t u
  | closer => simp [insert, Holds]

theorem remove_leaves {v : View T} {p : Place} {t : T} (distinct : v.Distinct)
    (held : v.Holds p t) : Leaves v.Holds (v.remove p t).Holds p t := by
  refine ⟨held, fun u => ?_, fun r other u => remove_frame v t u other⟩
  cases p with
  | queue =>
    change u ∈ v.queue.erase t ↔ _
    rw [distinct.queue.mem_erase_iff]
    exact and_comm
  | worker i => exact empty_slot held u
  | ended i => exact empty_slot held u
  | sync name =>
    change u ∈ Function.update v.sync name ((v.sync name).erase t) name ↔ _
    rw [Function.update_self, (distinct.sync name).mem_erase_iff]
    exact and_comm
  | channeltask =>
    by_cases same : u = t
    · subst u
      simp [remove, Holds]
    · simp [remove, Holds, same]
  | matcher j => exact empty_slot held u
  | closer =>
    change u ∈ v.closer.erase t ↔ _
    rw [distinct.closer.mem_erase_iff]
    exact and_comm

theorem Distinct.insert {v : View T} (distinct : v.Distinct) {q : Place} {t : T}
    (fresh : ¬Placed v.Holds t) : (v.insert q t).Distinct := by
  obtain ⟨queue, sync, closer, own⟩ := distinct
  cases q with
  | queue => exact ⟨nodup_concat queue fun old => fresh ⟨.queue, old⟩, sync, closer, own⟩
  | sync name =>
    refine ⟨queue, fun other => ?_, closer, own⟩
    by_cases same : other = name
    · subst other
      simp only [View.insert, Function.update_self]
      exact nodup_concat (sync name) fun old => fresh ⟨.sync name, old⟩
    · simp only [View.insert, Function.update_of_ne same]
      exact sync other
  | channeltask =>
    refine ⟨queue, sync, closer, fun u w => ?_⟩
    by_cases same : u = t
    · subst u
      simp [View.insert, eq_comm]
    · simp only [View.insert, Function.update_of_ne same]
      exact own u w
  | closer => exact ⟨queue, sync, nodup_concat closer fun old => fresh ⟨.closer, old⟩, own⟩
  | worker i => exact ⟨queue, sync, closer, own⟩
  | ended i => exact ⟨queue, sync, closer, own⟩
  | matcher j => exact ⟨queue, sync, closer, own⟩

theorem Distinct.remove {v : View T} (distinct : v.Distinct) (p : Place) (t : T) :
    (v.remove p t).Distinct := by
  obtain ⟨queue, sync, closer, own⟩ := distinct
  cases p with
  | queue => exact ⟨queue.erase t, sync, closer, own⟩
  | sync name =>
    refine ⟨queue, fun other => ?_, closer, own⟩
    by_cases same : other = name
    · subst other
      simp only [View.remove, Function.update_self]
      exact (sync name).erase t
    · simp only [View.remove, Function.update_of_ne same]
      exact sync other
  | channeltask =>
    refine ⟨queue, sync, closer, fun u w => ?_⟩
    by_cases same : u = t
    · subst u
      simp [View.remove]
    · simp only [View.remove, Function.update_of_ne same]
      exact own u w
  | closer => exact ⟨queue, sync, closer.erase t, own⟩
  | worker i => exact ⟨queue, sync, closer, own⟩
  | ended i => exact ⟨queue, sync, closer, own⟩
  | matcher j => exact ⟨queue, sync, closer, own⟩

theorem free_remove {v : View T} {q : Place} (free : v.Free q) (p : Place) (t : T) :
    (v.remove p t).Free q := by
  have slot (slots : ℕ → Option T) (i k : ℕ) (empty : slots k = none) :
      Function.update slots i none k = none := by
    by_cases same : k = i
    · subst k
      simp
    · rw [Function.update_of_ne same, empty]
  cases q with
  | worker k =>
    cases p with
    | worker i => exact slot v.worker i k free
    | _ => exact free
  | ended k =>
    cases p with
    | ended i => exact slot v.ended i k free
    | _ => exact free
  | matcher k =>
    cases p with
    | matcher i => exact slot v.matcher i k free
    | _ => exact free
  | _ => trivial

end View

structure Ledger (T : Type) where
  view : View T
  added : List T
  closed : List T
  accounted : List T
  tasks : ℤ

/-- Whatever was added and is not accounted is in one place. -/
structure Balanced (l : Ledger T) : Prop where
  distinct : l.view.Distinct
  unique : Unique l.view.Holds
  placed : ∀ t, Placed l.view.Holds t ↔ t ∈ l.added ∧ t ∉ l.accounted
  ended : ∀ t, t ∈ l.closed ↔ t ∈ l.accounted ∨ ∃ i, l.view.Holds (.ended i) t
  added : l.added.Nodup
  accounted : l.accounted.Nodup
  known : ∀ t ∈ l.accounted, t ∈ l.added
  tasks : l.tasks = l.added.length - l.accounted.length

theorem Balanced.tasks_pos {l : Ledger T} (balanced : Balanced l) {t : T}
    (placed : Placed l.view.Holds t) : 0 < l.tasks := by
  obtain ⟨known, fresh⟩ := (balanced.placed t).mp placed
  have more : (l.accounted ++ [t]).length ≤ l.added.length := by
    refine ((nodup_concat balanced.accounted fresh).subperm fun u member => ?_).length_le
    obtain old | rfl := List.mem_append.mp member |>.imp_right List.mem_singleton.mp
    · exact balanced.known u old
    · exact known
  rw [List.length_append, List.length_singleton] at more
  rw [balanced.tasks]
  omega

theorem Balanced.shut {l : Ledger T} (balanced : Balanced l) (closer : l.view.closer = []) :
    Balanced { l with view := { l.view with queue := [], closer := l.view.queue } } := by
  obtain ⟨⟨queue, sync, -, own⟩, unique, placed, ended, added, accounted, known, tasks⟩ := balanced
  have merges : Merges l.view.Holds
      { l.view with queue := [], closer := l.view.queue }.Holds .queue .closer := by
    refine ⟨by simp, by simp [View.Holds], fun t => by simp [View.Holds, closer], ?_⟩
    intro r source target t
    cases r with
    | queue => exact absurd rfl source
    | closer => exact absurd rfl target
    | _ => rfl
  refine ⟨⟨List.nodup_nil, sync, queue, own⟩, merges.unique unique, fun t => ?_, ended, added,
    accounted, known, tasks⟩
  rw [← placed t]
  exact merges.placed_iff t

variable [DecidableEq T]

inductive Change : Ledger T → Ledger T → Prop
  | enter {l : Ledger T} {t : T} (fresh : t ∉ l.added) :
      Change l
        { l with
          view := l.view.insert .queue t
          added := l.added ++ [t]
          tasks := l.tasks + 1 }
  | move {l : Ledger T} {p q : Place} {t : T} (held : l.view.Holds p t) (free : l.view.Free q)
      (source : ∀ i, p ≠ .ended i) (target : ∀ i, q ≠ .ended i) :
      Change l { l with view := (l.view.remove p t).insert q t }
  | close {l : Ledger T} {i : ℕ} {t : T} (held : l.view.Holds (.worker i) t)
      (free : l.view.Free (.ended i)) :
      Change l
        { l with
          view := (l.view.remove (.worker i) t).insert (.ended i) t
          closed := l.closed ++ [t] }
  | settle {l : Ledger T} {i : ℕ} {t : T} (held : l.view.Holds (.ended i) t) :
      Change l
        { l with
          view := l.view.remove (.ended i) t
          accounted := l.accounted ++ [t]
          tasks := l.tasks - 1 }
  | dispose {l : Ledger T} {p : Place} {t : T} (held : l.view.Holds p t)
      (source : ∀ i, p ≠ .ended i) :
      Change l
        { l with
          view := l.view.remove p t
          closed := l.closed ++ [t]
          accounted := l.accounted ++ [t]
          tasks := l.tasks - 1 }
  | shut {l : Ledger T} (closer : l.view.closer = []) :
      Change l { l with view := { l.view with queue := [], closer := l.view.queue } }

/-- A task that is moved leaves its place and enters the other one. -/
theorem shift_placed {v : View T} {p q : Place} {t : T} (distinct : v.Distinct)
    (unique : Unique v.Holds) (held : v.Holds p t) (free : v.Free q) :
    ((v.remove p t).insert q t).Distinct ∧ Unique ((v.remove p t).insert q t).Holds ∧
      ∀ u, Placed ((v.remove p t).insert q t).Holds u ↔ Placed v.Holds u := by
  have leaves := View.remove_leaves distinct held
  have fresh : ¬Placed (v.remove p t).Holds t := by
    rw [leaves.placed_iff unique]
    simp
  have enters := View.insert_enters fresh (View.free_remove free p t)
  refine ⟨(distinct.remove p t).insert fresh, enters.unique (leaves.unique unique), fun u => ?_⟩
  rw [enters.placed_iff, leaves.placed_iff unique]
  by_cases same : u = t
  · subst u
    simp only [ne_eq, not_true, and_false, or_true, true_iff]
    exact ⟨p, held⟩
  · simp [same]

/-- What is accounted leaves the places. -/
theorem Balanced.account {l : Ledger T} (balanced : Balanced l) {p : Place} {t : T}
    (held : l.view.Holds p t) (closed : List T)
    (ended : ∀ u, u ∈ closed ↔ u ∈ l.accounted ++ [t] ∨
      ∃ i, (l.view.remove p t).Holds (.ended i) u) :
    Balanced
      { l with
        view := l.view.remove p t
        closed := closed
        accounted := l.accounted ++ [t]
        tasks := l.tasks - 1 } := by
  have leaves := View.remove_leaves balanced.distinct held
  obtain ⟨known, fresh⟩ := (balanced.placed t).mp ⟨p, held⟩
  refine ⟨balanced.distinct.remove p t, leaves.unique balanced.unique, fun u => ?_, ended,
    balanced.added, nodup_concat balanced.accounted fresh, fun u member => ?_, ?_⟩
  · rw [leaves.placed_iff balanced.unique, balanced.placed]
    simp [and_assoc]
  · obtain old | rfl := List.mem_append.mp member |>.imp_right List.mem_singleton.mp
    · exact balanced.known u old
    · exact known
  · change l.tasks - 1 = l.added.length - ((l.accounted ++ [t]).length : ℕ)
    rw [balanced.tasks, List.length_append]
    simp
    omega

/-- The counter is the number of the tasks that were added and are not accounted. -/
theorem Balanced.tasks_eq {l : Ledger T} (balanced : Balanced l) :
    l.tasks = (l.added.filter (· ∉ l.accounted)).length := by
  have same : (l.added.filter (· ∈ l.accounted)).length = l.accounted.length := by
    refine List.Perm.length_eq ((List.perm_ext_iff_of_nodup (balanced.added.filter _)
      balanced.accounted).mpr fun t => ?_)
    simp only [List.mem_filter, decide_eq_true_eq, and_iff_right_iff_imp]
    exact balanced.known t
  have split := List.length_eq_length_filter_add (l := l.added) (fun t => decide (t ∈ l.accounted))
  simp only [← decide_not] at split
  rw [balanced.tasks]
  omega

theorem Balanced.enter {l : Ledger T} (balanced : Balanced l) {t : T} (fresh : t ∉ l.added) :
    Balanced
      { l with
        view := l.view.insert .queue t
        added := l.added ++ [t]
        tasks := l.tasks + 1 } := by
  have absent : ¬Placed l.view.Holds t := by
    rw [balanced.placed]
    exact fun held => fresh held.1
  have unaccounted : t ∉ l.accounted := fun old => fresh (balanced.known t old)
  have enters := View.insert_enters (q := .queue) absent trivial
  refine ⟨balanced.distinct.insert (q := .queue) absent, enters.unique balanced.unique, fun u => ?_,
    balanced.ended, nodup_concat balanced.added fresh, balanced.accounted,
    fun u old => List.mem_append_left _ (balanced.known u old), ?_⟩
  · rw [enters.placed_iff, balanced.placed, List.mem_append, List.mem_singleton]
    by_cases same : u = t
    · subst u
      simp [unaccounted]
    · simp [same]
  · change l.tasks + 1 = ((l.added ++ [t]).length : ℕ) - l.accounted.length
    rw [balanced.tasks, List.length_append]
    simp
    omega

theorem Balanced.move {l : Ledger T} (balanced : Balanced l) {p q : Place} {t : T}
    (held : l.view.Holds p t) (free : l.view.Free q) (source : ∀ i, p ≠ .ended i)
    (target : ∀ i, q ≠ .ended i) :
    Balanced { l with view := (l.view.remove p t).insert q t } := by
  obtain ⟨distinct, unique, placed⟩ :=
    shift_placed balanced.distinct balanced.unique held free
  refine ⟨distinct, unique, fun u => (placed u).trans (balanced.placed u), fun u => ?_,
    balanced.added, balanced.accounted, balanced.known, balanced.tasks⟩
  rw [balanced.ended]
  have same (i : ℕ) : ((l.view.remove p t).insert q t).Holds (.ended i) u ↔
      l.view.Holds (.ended i) u := by
    rw [View.insert_frame _ t u (target i).symm, View.remove_frame _ t u (source i).symm]
  simp only [same]

theorem Balanced.close {l : Ledger T} (balanced : Balanced l) {i : ℕ} {t : T}
    (held : l.view.Holds (.worker i) t) (free : l.view.Free (.ended i)) :
    Balanced
      { l with
        view := (l.view.remove (.worker i) t).insert (.ended i) t
        closed := l.closed ++ [t] } := by
  obtain ⟨distinct, unique, placed⟩ :=
    shift_placed balanced.distinct balanced.unique held free
  refine ⟨distinct, unique, fun u => (placed u).trans (balanced.placed u), fun u => ?_,
    balanced.added, balanced.accounted, balanced.known, balanced.tasks⟩
  have leaves := View.remove_leaves balanced.distinct held
  have fresh : ¬Placed (l.view.remove (.worker i) t).Holds t := by
    rw [leaves.placed_iff balanced.unique]
    simp
  have enters := View.insert_enters fresh (View.free_remove free (.worker i) t)
  have same (k : ℕ) : ((l.view.remove (.worker i) t).insert (.ended i) t).Holds (.ended k) u ↔
      l.view.Holds (.ended k) u ∨ (k = i ∧ u = t) := by
    rw [enters.holds_iff, View.remove_frame _ t u (by simp)]
    simp
  simp only [same, List.mem_append, List.mem_singleton, balanced.ended, exists_or, exists_and_right,
    exists_eq, true_and, or_assoc]

theorem Change.balanced {l l' : Ledger T} (change : Change l l') (balanced : Balanced l) :
    Balanced l' := by
  cases change with
  | enter fresh => exact balanced.enter fresh
  | move held free source target => exact balanced.move held free source target
  | close held free => exact balanced.close held free
  | settle held =>
    rename_i i t
    refine balanced.account held l.closed fun u => ?_
    have leaves := View.remove_leaves balanced.distinct held
    simp only [leaves.holds_iff balanced.unique, List.mem_append, List.mem_singleton,
      balanced.ended]
    by_cases same : u = t
    · subst u
      simp only [ne_eq, not_true, and_false, exists_false, or_true, or_false, iff_true]
      exact Or.inr ⟨i, held⟩
    · simp [same]
  | dispose held source =>
    rename_i p t
    refine balanced.account held (l.closed ++ [t]) fun u => ?_
    have same (i : ℕ) : (l.view.remove p t).Holds (.ended i) u ↔ l.view.Holds (.ended i) u :=
      View.remove_frame l.view t u (source i).symm
    simp only [same, List.mem_append, List.mem_singleton, balanced.ended]
    exact or_right_comm
  | shut closer => exact balanced.shut closer

end
end Coutil.TaskLedger
