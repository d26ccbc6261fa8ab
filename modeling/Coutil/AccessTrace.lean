import Mathlib.Data.List.Basic

set_option autoImplicit false

/-! Computations that log what they access and may stop before they have a result. -/
namespace Coutil.AccessTrace

structure Traced (E A α : Type) where
  trace : List A
  result : Except E α

variable {E A α β γ : Type}

namespace Traced

def give (x : α) : Traced E A α := ⟨[], .ok x⟩

def stop (e : E) : Traced E A α := ⟨[], .error e⟩

/-- One access, and what it answers. -/
def access (a : A) (answer : Except E α) : Traced E A α := ⟨[a], answer⟩

def chain (m : Traced E A α) (f : α → Traced E A β) : Traced E A β :=
  match m.result with
  | .ok x => ⟨m.trace ++ (f x).trace, (f x).result⟩
  | .error e => ⟨m.trace, .error e⟩

instance : Monad (Traced E A) where
  pure := give
  bind := chain

/-- All that is logged meets a condition. -/
def Every (P : A → Prop) (m : Traced E A α) : Prop := ∀ a ∈ m.trace, P a

theorem bind_ok {m : Traced E A α} {x : α} (returned : m.result = .ok x)
    (f : α → Traced E A β) : m >>= f = ⟨m.trace ++ (f x).trace, (f x).result⟩ := by
  change chain m f = _
  rw [chain, returned]

theorem bind_error {m : Traced E A α} {e : E} (stopped : m.result = .error e)
    (f : α → Traced E A β) : m >>= f = ⟨m.trace, .error e⟩ := by
  change chain m f = _
  rw [chain, stopped]

@[simp]
theorem pure_bind (x : α) (f : α → Traced E A β) : (pure x : Traced E A α) >>= f = f x := rfl

@[simp]
theorem stop_bind (e : E) (f : α → Traced E A β) :
    (stop e : Traced E A α) >>= f = stop e := rfl

@[simp]
theorem bind_assoc (m : Traced E A α) (f : α → Traced E A β) (g : β → Traced E A γ) :
    m >>= f >>= g = m >>= fun x => f x >>= g := by
  cases first : m.result with
  | error e =>
    rw [bind_error first, bind_error first]
    rfl
  | ok x =>
    rw [bind_ok first (fun x => f x >>= g), bind_ok first f]
    cases second : (f x).result with
    | error e =>
      rw [bind_error second g, bind_error rfl]
    | ok y =>
      rw [bind_ok second g, bind_ok rfl, List.append_assoc]

theorem every_pure (P : A → Prop) (x : α) : Every P (pure x : Traced E A α) :=
  List.forall_mem_nil P

theorem every_stop (P : A → Prop) (e : E) : Every P (stop e : Traced E A α) :=
  List.forall_mem_nil P

theorem every_access {P : A → Prop} {a : A} {answer : Except E α} :
    Every P (access a answer) ↔ P a :=
  List.forall_mem_singleton

/-- The log of a computation is that of its first part and then of the rest. -/
theorem every_bind {P : A → Prop} {m : Traced E A α} {f : α → Traced E A β} :
    Every P (m >>= f) ↔ Every P m ∧ ∀ x, m.result = .ok x → Every P (f x) := by
  cases first : m.result with
  | error e => simp [bind_error first, Every]
  | ok x =>
    rw [bind_ok first]
    simp only [Every, List.forall_mem_append, Except.ok.injEq, forall_eq']

/-- How a computation ends, if all that is logged meets a condition. -/
structure Ends (P : A → Prop) (m : Traced E A α) (r : Except E α) : Prop where
  result : m.result = r
  every : Every P m

theorem ends_pure (P : A → Prop) (x : α) : Ends P (pure x : Traced E A α) (.ok x) :=
  ⟨rfl, every_pure P x⟩

theorem ends_stop (P : A → Prop) (e : E) : Ends P (stop e : Traced E A α) (.error e) :=
  ⟨rfl, every_stop P e⟩

theorem ends_access {P : A → Prop} {a : A} (meets : P a) (answer : Except E α) :
    Ends P (access a answer) answer :=
  ⟨rfl, every_access.mpr meets⟩

theorem Ends.bind {P : A → Prop} {m : Traced E A α} {x : α} {f : α → Traced E A β}
    {r : Except E β} (first : Ends P m (.ok x)) (rest : Ends P (f x) r) :
    Ends P (m >>= f) r := by
  refine ⟨?_, every_bind.mpr ⟨first.every, fun y returned => ?_⟩⟩
  · rw [bind_ok first.result]
    exact rest.result
  · cases first.result.symm.trans returned
    exact rest.every

theorem Ends.stops {P : A → Prop} {m : Traced E A α} {e : E} (first : Ends P m (.error e))
    (f : α → Traced E A β) : Ends P (m >>= f) (.error e) := by
  refine ⟨?_, every_bind.mpr ⟨first.every, fun y returned => ?_⟩⟩
  · rw [bind_error first.result]
  · cases first.result.symm.trans returned

/-- A computation goes on as another one, after accesses that meet a condition. -/
structure After (P : A → Prop) (m m' : Traced E A α) : Prop where
  log : ∃ first, (∀ a ∈ first, P a) ∧ m.trace = first ++ m'.trace
  result : m.result = m'.result

theorem after_refl (P : A → Prop) (m : Traced E A α) : After P m m :=
  ⟨⟨[], List.forall_mem_nil P, rfl⟩, rfl⟩

theorem After.trans {P : A → Prop} {m m' m'' : Traced E A α} (first : After P m m')
    (second : After P m' m'') : After P m m'' := by
  obtain ⟨xs, front, split⟩ := first.log
  obtain ⟨ys, back, split'⟩ := second.log
  refine ⟨⟨xs ++ ys, List.forall_mem_append.mpr ⟨front, back⟩, ?_⟩, first.result.trans second.result⟩
  rw [split, split', List.append_assoc]

theorem Ends.after {P : A → Prop} {m : Traced E A α} {x : α} (ends : Ends P m (.ok x))
    (f : α → Traced E A β) : After P (m >>= f) (f x) := by
  rw [bind_ok ends.result]
  exact ⟨⟨m.trace, ends.every, rfl⟩, rfl⟩

theorem After.every {P : A → Prop} {m m' : Traced E A α} (after : After P m m') :
    Every P m ↔ Every P m' := by
  obtain ⟨first, front, split⟩ := after.log
  rw [Every, split, List.forall_mem_append]
  exact and_iff_right front

theorem After.ends {P : A → Prop} {m m' : Traced E A α} {r : Except E α} (after : After P m m')
    (ends : Ends P m' r) : Ends P m r :=
  ⟨after.result.trans ends.result, after.every.mpr ends.every⟩

/-- What a computation returns, and the part of its log that is of interest. -/
structure Yields {B : Type} (g : A → Option B) (m : Traced E A α) (x : α) (log : List B) : Prop where
  result : m.result = .ok x
  log : m.trace.filterMap g = log

variable {B : Type} {g : A → Option B}

theorem yields_pure (x : α) : Yields g (pure x : Traced E A α) x [] := ⟨rfl, rfl⟩

theorem yields_access (a : A) (x : α) :
    Yields g (access a (.ok x) : Traced E A α) x (g a).toList := by
  refine ⟨rfl, ?_⟩
  change [a].filterMap g = _
  cases here : g a with
  | none => simp [here]
  | some b => simp [here]

theorem Yields.bind {m : Traced E A α} {x : α} {f : α → Traced E A β} {y : β} {log log' : List B}
    (first : Yields g m x log) (rest : Yields g (f x) y log') :
    Yields g (m >>= f) y (log ++ log') := by
  rw [bind_ok first.result f]
  refine ⟨rest.result, ?_⟩
  change (m.trace ++ (f x).trace).filterMap g = _
  rw [List.filterMap_append, first.log, rest.log]

end Traced

end Coutil.AccessTrace
