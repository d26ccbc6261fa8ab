import Coutil.EventSystem

set_option autoImplicit false

/-! Programs whose calls may raise errors. The error is caught by code of the coroutine
that made the call, or the coroutine ends with it; either way the program goes on with the
registry that the failed call left. -/
namespace Coutil.EventAttempt
open EventRegistry EventSystem

section
variable {σ : Type}

def Outcome.state? : Outcome σ → Option σ
  | .next s => some s
  | .raised s _ => some s
  | _ => none

/-- The state that a step leaves, if it leaves one, has the property. -/
def Outcome.All (P : σ → Prop) (o : Outcome σ) : Prop := ∀ s, Outcome.state? o = some s → P s

variable {P : σ → Prop} {s : σ} {msg : String}

theorem all_next (holds : P s) : Outcome.All P (.next s) := by
  intro u reached
  cases reached
  exact holds

theorem all_raised (holds : P s) : Outcome.All P (.raised s msg) := by
  intro u reached
  cases reached
  exact holds

theorem all_diverged : Outcome.All P .diverged := nofun

theorem all_disabled : Outcome.All P .disabled := nofun

end

/-- The events that a call registers its caller for. -/
def arguments {V T : Type} : Act V T → List (Val V)
  | .await event => [event]
  | .awaitall args => args
  | .awaitany args => args
  | _ => []

section
variable {R V T : Type} [DecidableEq V] [DecidableEq T] (L : Lists V T R)

def attempt (s : State R V T) (a : ℕ × Act V T) : Option (State R V T) :=
  Outcome.state? (step L a.1 s a.2)

section
variable {L} {r r' : R} {thread : T} {event : Val V} {args : List (Val V)}

omit [DecidableEq T] in
theorem register_error_cases (nil : event ≠ .nil) {msg : String}
    (raised : register L thread r (event :: args) = .error (r', msg)) :
    (L.add r event thread = .error msg ∧ r' = r) ∨
    ∃ r₁ list, L.add r event thread = .ok (r₁, list) ∧
      register L thread r₁ args = .error (r', msg) := by
  simp only [register, nil, if_false] at raised
  cases added : L.add r event thread with
  | error e =>
    rw [added] at raised
    cases raised
    exact Or.inl ⟨rfl, rfl⟩
  | ok p =>
    obtain ⟨r₁, list⟩ := p
    simp only [added] at raised
    refine Or.inr ⟨r₁, list, rfl, ?_⟩
    cases list with
    | none => exact raised
    | some list =>
      dsimp only at raised
      cases rest : register L thread r₁ args with
      | error e => simpa [rest] using raised
      | ok p => simp [rest] at raised

omit [DecidableEq T] in
theorem register_ok_cases (nil : event ≠ .nil) {regs : List (Val V × ℕ)}
    (registered : register L thread r (event :: args) = .ok (r', regs)) :
    ∃ r₁ list rest, L.add r event thread = .ok (r₁, list) ∧
      register L thread r₁ args = .ok (r', rest) ∧
      regs = list.toList.map (fun list => (event, list)) ++ rest := by
  simp only [register, nil, if_false] at registered
  cases added : L.add r event thread with
  | error e =>
    rw [added] at registered
    cases registered
  | ok p =>
    obtain ⟨r₁, list⟩ := p
    simp only [added] at registered
    cases list with
    | none => exact ⟨r₁, none, regs, rfl, registered, rfl⟩
    | some list =>
      dsimp only at registered
      cases rest : register L thread r₁ args with
      | error e => simp [rest] at registered
      | ok p =>
        rw [rest] at registered
        cases registered
        exact ⟨r₁, some list, p.2, rfl, rest, rfl⟩

end

/-- A property of the registry that every operation on the lists keeps, when coroutines are
registered only for events of a kind. -/
structure Kept (E : Val V → Prop) (I : R → Prop) : Prop where
  add : ∀ {r event thread r' list}, E event → I r → L.add r event thread = .ok (r', list) → I r'
  remove : ∀ {fuel r event thread list r'}, I r → L.remove fuel r event thread list = some r' → I r'
  detach : ∀ {r event}, I r → I (L.detach r event)
  unlinkhead : ∀ {r list head r'}, I r → L.unlinkhead r list = some (head, r') → I r'
  unlinkone : ∀ {r event list head r'}, I r → L.find r event = some list →
    L.unlinkone r event list = some (head, r') → I r'

variable {L} {E : Val V → Prop} {I : R → Prop} (kept : Kept L E I)
include kept

omit [DecidableEq V] [DecidableEq T] in
theorem cancel_kept {fuel : ℕ} {r r' : R} {thread : T} {regs : List (Val V × ℕ)} (holds : I r)
    (canceled : cancel L fuel r thread regs = some r') : I r' := by
  induction regs generalizing r with
  | nil =>
    cases canceled
    exact holds
  | cons p regs ih =>
    simp only [cancel] at canceled
    cases removed : L.remove fuel r p.1 thread p.2 with
    | none => simp [removed] at canceled
    | some r₁ =>
      simp only [removed] at canceled
      exact ih (kept.remove holds removed) canceled

omit [DecidableEq T] in
theorem register_ok_kept {r r' : R} {thread : T} {args : List (Val V)}
    (allowed : ∀ event ∈ args, E event) (holds : I r) {regs : List (Val V × ℕ)} (registered : register L thread r args = .ok (r', regs)) : I r' := by
  induction args generalizing r regs with
  | nil =>
    cases registered
    exact holds
  | cons event args ih =>
    obtain ⟨first, others⟩ := List.forall_mem_cons.mp allowed
    by_cases nil : event = .nil
    · simp only [register, nil, if_true] at registered
      exact ih others holds registered
    · obtain ⟨r₁, list, rest, added, registered, -⟩ := register_ok_cases nil registered
      exact ih others (kept.add first holds added) registered

omit [DecidableEq T] in
theorem register_error_kept {r r' : R} {thread : T} {args : List (Val V)}
    (allowed : ∀ event ∈ args, E event) (holds : I r) {msg : String} (raised : register L thread r args = .error (r', msg)) : I r' := by
  induction args generalizing r with
  | nil => cases raised
  | cons event args ih =>
    obtain ⟨first, others⟩ := List.forall_mem_cons.mp allowed
    by_cases nil : event = .nil
    · simp only [register, nil, if_true] at raised
      exact ih others holds raised
    · rcases register_error_cases nil raised with ⟨-, rfl⟩ | ⟨r₁, list, added, raised⟩
      · exact holds
      · exact ih others (kept.add first holds added) raised

theorem resumed_kept {fuel : ℕ} {s : State R V T} (call : Call V) (values : List (Val V))
    (holds : I s.registry) :
    Outcome.All (fun u => I u.registry) (resumed L fuel s call values) := by
  cases call with
  | start => exact all_next holds
  | user => exact all_next holds
  | await event list =>
    simp only [resumed]
    split
    · exact all_next holds
    · cases list with
      | none => exact all_raised holds
      | some list =>
        dsimp only
        cases removed : L.remove fuel s.registry event s.control.running list with
        | none => exact all_diverged
        | some r => exact all_next (kept.remove holds removed)
  | awaitall args regs count =>
    simp only [resumed]
    split
    · cases canceled : cancel L fuel s.registry s.control.running regs with
      | none => exact all_diverged
      | some r => exact all_next (cancel_kept kept holds canceled)
    · split
      · exact all_next holds
      · exact all_next holds
  | awaitany args regs =>
    simp only [resumed]
    cases canceled : cancel L fuel s.registry s.control.running regs with
    | none => exact all_diverged
    | some r =>
      dsimp only
      split
      · exact all_next (cancel_kept kept holds canceled)
      · exact all_next (cancel_kept kept holds canceled)

theorem resume_kept {fuel : ℕ} {s : State R V T} (co : T) (frame : Frame V)
    (values : List (Val V)) (holds : I s.registry) :
    Outcome.All (fun u => I u.registry) (resume L fuel s co frame values) := by
  simp only [resume]
  split
  · exact resumed_kept kept _ values holds
  · exact all_next holds
  · exact all_next holds

theorem emitnext_kept {fuel : ℕ} {s : State R V T} (list : ℕ) (event : Val V)
    (args : List (Val V)) (holds : I s.registry) :
    Outcome.All (fun u => I u.registry) (emitnext L fuel s list event args) := by
  simp only [emitnext]
  cases popped : L.unlinkhead s.registry list with
  | none => exact all_raised holds
  | some p => exact resume_kept kept p.1 _ _ (kept.unlinkhead holds popped)

omit [DecidableEq T] in
theorem register_all {s : State R V T} {args : List (Val V)} (allowed : ∀ event ∈ args, E event)
    (holds : I s.registry)
    {f : R → List (Val V × ℕ) → Outcome (State R V T)}
    (goes : ∀ r regs, I r → Outcome.All (fun u => I u.registry) (f r regs)) :
    Outcome.All (fun u => I u.registry)
      (match register L s.control.running s.registry args with
        | .error (r, msg) => .raised { s with registry := r } msg
        | .ok (r, regs) => f r regs) := by
  cases registered : register L s.control.running s.registry args with
  | error e => exact all_raised (register_error_kept kept allowed holds registered)
  | ok p => exact goes p.1 p.2 (register_ok_kept kept allowed holds registered)

theorem call_kept {fuel : ℕ} {s : State R V T} {a : Act V T}
    (allowed : ∀ event ∈ arguments a, E event) (holds : I s.registry) :
    Outcome.All (fun u => I u.registry) (call L fuel s a) := by
  cases a with
  | await event =>
    simp only [call, await]
    split
    · split
      · cases added : L.add s.registry event s.control.running with
        | error msg => exact all_raised holds
        | ok p => exact all_next (kept.add (allowed event (by simp [arguments])) holds added)
      · exact all_raised holds
    · exact all_disabled
  | awaitall args =>
    simp only [call, awaitall]
    split
    · split
      · apply register_all kept allowed holds
        intro r regs holds
        split
        · exact all_next holds
        · exact all_next holds
      · exact all_raised holds
    · exact all_disabled
  | awaitany args =>
    simp only [call, awaitany]
    split
    · split
      · apply register_all kept allowed holds
        intro r regs holds
        split
        · exact all_raised holds
        · exact all_next holds
      · exact all_raised holds
    · exact all_disabled
  | emitone event args =>
    simp only [call, emitone]
    split
    · cases found : L.find s.registry event with
      | none => exact all_next holds
      | some list =>
        dsimp only
        cases popped : L.unlinkone s.registry event list with
        | none => exact all_raised holds
        | some p => exact resume_kept kept p.1 _ _ (kept.unlinkone holds found popped)
    · exact all_disabled
  | emitall event args =>
    simp only [call, emitall]
    split
    · cases found : L.find s.registry event with
      | none => exact all_next holds
      | some list => exact emitnext_kept kept list event args (kept.detach holds)
    · exact all_disabled
  | resume co args =>
    simp only [call]
    split
    · exact resume_kept kept co _ _ holds
    · exact all_disabled
  | yield args =>
    simp only [call]
    split
    · exact all_next holds
    · exact all_disabled
  | finish ok args =>
    simp only [call]
    split
    · exact all_next holds
    · exact all_disabled
  | iterate => exact all_disabled

theorem step_kept (fuel : ℕ) {s : State R V T} {a : Act V T}
    (allowed : ∀ event ∈ arguments a, E event) (holds : I s.registry) :
    Outcome.All (fun u => I u.registry) (step L fuel s a) := by
  simp only [step]
  split
  · exact call_kept kept allowed holds
  · cases a with
    | iterate =>
      dsimp only
      split
      · exact all_next holds
      · exact emitnext_kept kept _ _ _ holds
    | _ => exact all_disabled

end
end Coutil.EventAttempt
