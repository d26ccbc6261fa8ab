import Coutil.EventWaiters

set_option autoImplicit false

/-! Module `lua/coutil/mutex.lua` over the event module. A coroutine that is resumed within
`mutex.lock` goes on with its loop, and one whose emission in `mutex.unlock` is over returns,
before anything else happens. -/
namespace Coutil.MutexSystem
open Runs EventRegistry EventSystem EventInvariant EventPreservation EventRefinement EventAttempt
open EventFailure EventWake AwaitSemantics EmitLoop EventWaiters

inductive Doing (V : Type) where
  | lock (mutex : Val V)
  | unlock (mutex : Val V)
  deriving DecidableEq

inductive Entry (V T : Type) where
  | called (thread : T) (mutex : Val V)
  | acquired (thread : T) (mutex : Val V)
  | released (thread : T) (mutex : Val V)
  deriving DecidableEq

/-- The log has the last entry first. -/
structure State (R V T : Type) where
  events : EventSystem.State R V T
  insideof : Val V → Option T
  doing : T → Option (Doing V)
  log : List (Entry V T)

inductive Act (V T : Type) where
  | event (a : EventSystem.Act V T)
  | lock (mutex : Val V)
  | unlock (mutex : Val V)
  | goon

section
variable {R V T : Type} [DecidableEq V] [DecidableEq T]

def State.deliver (s : State R V T) (values : List (Val V)) : State R V T :=
  { s with events := { s.events with control := s.events.control.deliver values } }

/-- A call of the event module made in a state where the rest is as given. -/
def State.lift (s : State R V T) : Outcome (EventSystem.State R V T) → Outcome (State R V T)
  | .next events => .next { s with events := events }
  | .raised events msg => .raised { s with events := events } msg
  | .diverged => .diverged
  | .disabled => .disabled

variable (L : Lists V T R)

/-- The loop of `module.lock`, with the entries for the call if it begins. -/
def lock (fuel : ℕ) (s : State R V T) (mutex : Val V) (begins : List (Entry V T)) :
    Outcome (State R V T) :=
  let thread := s.events.control.running
  match s.insideof mutex with
  | none =>
    match mutex with
    | .nil => .raised s "index is nil"
    | .nan => .raised s "index is NaN"
    | _ => .next (State.deliver { s with
        insideof := Function.update s.insideof mutex (some thread)
        log := .acquired thread mutex :: begins ++ s.log } [])
  | some inside =>
    if inside = thread then .raised s "nested lock"
    else
      match EventSystem.step L fuel s.events (.await mutex) with
      | .next events => .next { s with
          events := events
          doing := Function.update s.doing thread (some (.lock mutex))
          log := begins ++ s.log }
      | .raised events msg => .raised { s with events := events } msg
      | .diverged => .diverged
      | .disabled => .disabled

def unlock (fuel : ℕ) (s : State R V T) (mutex : Val V) : Outcome (State R V T) :=
  let thread := s.events.control.running
  if s.insideof mutex = some thread then
    State.lift { s with
      insideof := Function.update s.insideof mutex none
      doing := Function.update s.doing thread (some (.unlock mutex))
      log := .released thread mutex :: s.log }
      (EventSystem.step L fuel s.events (.emitone mutex []))
  else .raised s "lock not owned"

def goon (fuel : ℕ) (s : State R V T) : Outcome (State R V T) :=
  let thread := s.events.control.running
  match s.doing thread with
  | some (.lock mutex) => lock L fuel { s with doing := Function.update s.doing thread none } mutex []
  | some (.unlock _) => .next { s with doing := Function.update s.doing thread none }
  | none => .disabled

/-- The running coroutine is in its own code. -/
def State.free (s : State R V T) : Prop :=
  s.events.control.loop = none ∧ s.doing s.events.control.running = none

instance (s : State R V T) : Decidable s.free :=
  decidable_of_iff (s.events.control.loop.isNone ∧ (s.doing s.events.control.running).isNone)
    (by simp [State.free])

def step (fuel : ℕ) (s : State R V T) : Act V T → Outcome (State R V T)
  | .event a =>
    if s.free ∨ s.events.control.loop ≠ none then s.lift (EventSystem.step L fuel s.events a)
    else .disabled
  | .lock mutex =>
    if s.free then lock L fuel s mutex [.called s.events.control.running mutex] else .disabled
  | .unlock mutex => if s.free then unlock L fuel s mutex else .disabled
  | .goon => if s.events.control.loop = none then goon L fuel s else .disabled

/-- The calls of the module may raise errors, which the caller handles. -/
def next (s : State R V T) (a : ℕ × Act V T) : Option (State R V T) :=
  match a.2 with
  | .event _ => (step L a.1 s a.2).next?
  | _ => Outcome.state? (step L a.1 s a.2)

end

def State.init {V T : Type} [DecidableEq T] (main : T) : State (Registry V T) V T :=
  ⟨⟨Registry.empty, Control.init main⟩, fun _ => none, fun _ => none, []⟩

section
variable {V T : Type} [DecidableEq V] [DecidableEq T]

/-- The loop of `module.lock` is entered, by a call or by a coroutine that was resumed in it. -/
inductive Begins {R : Type} (s : State R V T) (mutex : Val V) : List (Entry V T) → Prop
  | call (own : s.doing s.events.control.running = none) :
      Begins s mutex [.called s.events.control.running mutex]
  | again (inside : s.doing s.events.control.running = some (.lock mutex)) : Begins s mutex []

/-- What a step is, with the queues that the registry stands for before and after it. -/
inductive Moves (fuel : ℕ) (s : State (Registry V T) V T)
    (q : EventSystem.State (Queues V T) V T) :
    Act V T → State (Registry V T) V T → EventSystem.State (Queues V T) V T → Prop
  | event {a : EventSystem.Act V T} {events : EventSystem.State (Registry V T) V T}
      {q' : EventSystem.State (Queues V T) V T}
      (own : s.doing s.events.control.running = none ∨ s.events.control.loop ≠ none)
      (stepped : EventSystem.step queueLists fuel q a = .next q') :
      Moves fuel s q (.event a) { s with events := events } q'
  | acquires {a : Act V T} {mutex : Val V} {begins : List (Entry V T)}
      (idle : s.events.control.loop = none) (enters : Begins s mutex begins)
      (unowned : s.insideof mutex = none) (key : mutex ≠ .nil ∧ mutex ≠ .nan) :
      Moves fuel s q a { s with
        events := { s.events with control := s.events.control.deliver [] }
        insideof := Function.update s.insideof mutex (some s.events.control.running)
        doing := Function.update s.doing s.events.control.running none
        log := .acquired s.events.control.running mutex :: begins ++ s.log }
        { q with control := q.control.deliver [] }
  | awaits {a : Act V T} {mutex : Val V} {begins : List (Entry V T)} {owner : T}
      {events : EventSystem.State (Registry V T) V T} {q' : EventSystem.State (Queues V T) V T}
      (enters : Begins s mutex begins) (owned : s.insideof mutex = some owner)
      (stepped : EventSystem.step queueLists fuel q (.await mutex) = .next q') :
      Moves fuel s q a { s with
        events := events
        doing := Function.update s.doing s.events.control.running (some (.lock mutex))
        log := begins ++ s.log } q'
  | unlocks {mutex : Val V} {events : EventSystem.State (Registry V T) V T}
      {q' : EventSystem.State (Queues V T) V T}
      (own : s.doing s.events.control.running = none)
      (owned : s.insideof mutex = some s.events.control.running)
      (stepped : EventSystem.step queueLists fuel q (.emitone mutex []) = .next q') :
      Moves fuel s q (.unlock mutex) { s with
        events := events
        insideof := Function.update s.insideof mutex none
        doing := Function.update s.doing s.events.control.running (some (.unlock mutex))
        log := .released s.events.control.running mutex :: s.log } q'
  | returns {mutex : Val V} (inside : s.doing s.events.control.running = some (.unlock mutex)) :
      Moves fuel s q .goon
        { s with doing := Function.update s.doing s.events.control.running none } q
  | refused {a : Act V T} (own : s.doing s.events.control.running = none) : Moves fuel s q a s q
  | fails {mutex : Val V} (inside : s.doing s.events.control.running = some (.lock mutex))
      (why : s.insideof mutex = none → mutex = .nil ∨ mutex = .nan) :
      Moves fuel s q .goon
        { s with doing := Function.update s.doing s.events.control.running none } q

variable {s u : State (Registry V T) V T} {q : EventSystem.State (Queues V T) V T} {fuel : ℕ}

/-- A call of `event.await` that fails has done nothing. -/
theorem await_fails {events events' : EventSystem.State (Registry V T) V T} {e : Val V}
    {msg : String} (raised : EventSystem.step registryLists fuel events (.await e) =
      .raised events' msg) : events' = events := by
  cases loop : events.control.loop with
  | some p => simp [EventSystem.step, loop] at raised
  | none =>
    simp only [EventSystem.step, loop, call, EventSystem.await] at raised
    split_ifs at raised
    · cases added : registryLists.add events.registry e events.control.running with
      | error m =>
        rw [added] at raised
        cases raised
        rfl
      | ok p => simp [added] at raised
    · cases raised
      rfl

omit [DecidableEq V] in
theorem doing_same (own : s.doing s.events.control.running = none) :
    { s with doing := Function.update s.doing s.events.control.running none } = s := by
  rw [← own, Function.update_eq_self]

/-- A call of the loop of `module.lock`, in which the coroutine is in its own code unless it
awaits. -/
theorem lock_moves (related : Related s.events q) (idle : s.events.control.loop = none)
    {a : Act V T} {mutex : Val V} {begins : List (Entry V T)} (enters : Begins s mutex begins)
    (again : s.doing s.events.control.running = some (.lock mutex) → a = .goon)
    (stepped : Outcome.state? (lock registryLists fuel
      { s with doing := Function.update s.doing s.events.control.running none } mutex begins) =
        some u) :
    ∃ q', Related u.events q' ∧ Moves fuel s q a u q' := by
  have raises : (s.insideof mutex = none → mutex = .nil ∨ mutex = .nan) →
      u = { s with doing := Function.update s.doing s.events.control.running none } →
      ∃ q', Related u.events q' ∧ Moves fuel s q a u q' := by
    rintro why rfl
    refine ⟨q, related, ?_⟩
    cases enters with
    | call own =>
      rw [doing_same own]
      exact .refused own
    | again inside =>
      obtain rfl := again inside
      exact .fails inside why
  cases owned : s.insideof mutex with
  | none =>
    have acquires : mutex ≠ .nil → mutex ≠ .nan →
        u = { s with
          events := { s.events with control := s.events.control.deliver [] }
          insideof := Function.update s.insideof mutex (some s.events.control.running)
          doing := Function.update s.doing s.events.control.running none
          log := .acquired s.events.control.running mutex :: begins ++ s.log } →
        ∃ q', Related u.events q' ∧ Moves fuel s q a u q' := by
      rintro nil nan rfl
      exact ⟨_, deliver_related related idle List.not_mem_nil,
        .acquires idle enters owned ⟨nil, nan⟩⟩
    simp only [lock, owned] at stepped
    cases mutex with
    | nil => exact raises (fun _ => Or.inl rfl) (Option.some.inj stepped).symm
    | nan => exact raises (fun _ => Or.inr rfl) (Option.some.inj stepped).symm
    | _ => exact acquires nofun nofun (Option.some.inj stepped).symm
  | some owner =>
    have unfree : s.insideof mutex = none → mutex = .nil ∨ mutex = .nan := by
      rw [owned]
      exact nofun
    simp only [lock, owned] at stepped
    split at stepped
    · exact raises unfree (Option.some.inj stepped).symm
    · cases outcome : EventSystem.step registryLists fuel s.events (.await mutex) with
      | next events =>
        simp only [outcome] at stepped
        obtain rfl := (Option.some.inj stepped).symm
        obtain ⟨q', reached, related'⟩ := next_reached related outcome
        refine ⟨q', related', ?_⟩
        rw [Function.update_idem]
        exact .awaits enters owned reached
      | raised events msg =>
        simp only [outcome] at stepped
        rw [await_fails outcome] at stepped
        exact raises unfree (Option.some.inj stepped).symm
      | diverged => simp [outcome, Outcome.state?] at stepped
      | disabled => simp [outcome, Outcome.state?] at stepped

theorem lock_fails {mutex : Val V} {begins : List (Entry V T)} {msg : String}
    (raised : lock registryLists fuel s mutex begins = .raised u msg) :
    u.insideof = s.insideof ∧ u.events = s.events := by
  cases owned : s.insideof mutex with
  | none =>
    simp only [lock, owned] at raised
    split at raised
    · cases raised
      exact ⟨rfl, rfl⟩
    · cases raised
      exact ⟨rfl, rfl⟩
    · cases raised
  | some owner =>
    simp only [lock, owned] at raised
    split at raised
    · cases raised
      exact ⟨rfl, rfl⟩
    · cases outcome : EventSystem.step registryLists fuel s.events (.await mutex) with
      | raised events msg' =>
        simp only [outcome] at raised
        cases raised
        exact ⟨rfl, await_fails outcome⟩
      | next events =>
        simp only [outcome] at raised
        cases raised
      | diverged =>
        simp only [outcome] at raised
        cases raised
      | disabled =>
        simp only [outcome] at raised
        cases raised

/-- A call of the module that raises an error leaves the owner and the lists as they were. -/
theorem step_fails (related : Related s.events q) {a : Act V T} (module_ : ∀ b, a ≠ .event b)
    {msg : String} (raised : step registryLists fuel s a = .raised u msg) :
    u.insideof = s.insideof ∧ u.events = s.events := by
  cases a with
  | event b => exact absurd rfl (module_ b)
  | lock mutex =>
    simp only [step] at raised
    split at raised
    · exact lock_fails raised
    · cases raised
  | unlock mutex =>
    simp only [step, unlock] at raised
    split_ifs at raised
    · cases outcome : EventSystem.step registryLists fuel s.events (.emitone mutex []) with
      | raised events msg' => exact absurd trivial (related_awaits related outcome)
      | next events =>
        rw [outcome] at raised
        cases raised
      | diverged =>
        rw [outcome] at raised
        cases raised
      | disabled =>
        rw [outcome] at raised
        cases raised
    · cases raised
      exact ⟨rfl, rfl⟩
  | goon =>
    simp only [step] at raised
    split at raised
    · simp only [goon] at raised
      split at raised
      · have kept := lock_fails raised
        exact kept
      · cases raised
      · cases raised
    · cases raised

theorem unlock_moves (related : Related s.events q) {mutex : Val V}
    (own : s.doing s.events.control.running = none)
    (stepped : Outcome.state? (unlock registryLists fuel s mutex) = some u) :
    ∃ q', Related u.events q' ∧ Moves fuel s q (.unlock mutex) u q' := by
  dsimp only [unlock] at stepped
  split at stepped
  · rename_i owned
    cases outcome : EventSystem.step registryLists fuel s.events (.emitone mutex []) with
    | next events =>
      rw [outcome] at stepped
      obtain rfl := (Option.some.inj stepped).symm
      obtain ⟨q', reached, related'⟩ := next_reached related outcome
      exact ⟨q', related', .unlocks own owned reached⟩
    | raised events msg => exact absurd trivial (related_awaits related outcome)
    | diverged =>
      rw [outcome] at stepped
      cases stepped
    | disabled =>
      rw [outcome] at stepped
      cases stepped
  · obtain rfl := (Option.some.inj stepped).symm
    exact ⟨q, related, .refused own⟩

theorem event_moves (related : Related s.events q) {a : EventSystem.Act V T}
    (own : s.free ∨ s.events.control.loop ≠ none)
    (stepped : Outcome.next? (s.lift (EventSystem.step registryLists fuel s.events a)) = some u) :
    ∃ q', Related u.events q' ∧ Moves fuel s q (.event a) u q' := by
  cases outcome : EventSystem.step registryLists fuel s.events a with
  | next events =>
    rw [outcome] at stepped
    obtain rfl := (Option.some.inj stepped).symm
    obtain ⟨q', reached, related'⟩ := next_reached related outcome
    exact ⟨q', related', .event (own.imp (fun free => free.2) id) reached⟩
  | raised events msg =>
    rw [outcome] at stepped
    cases stepped
  | diverged =>
    rw [outcome] at stepped
    cases stepped
  | disabled =>
    rw [outcome] at stepped
    cases stepped

theorem goon_moves (related : Related s.events q) (idle : s.events.control.loop = none)
    (stepped : Outcome.state? (goon registryLists fuel s) = some u) :
    ∃ q', Related u.events q' ∧ Moves fuel s q .goon u q' := by
  cases doing : s.doing s.events.control.running with
  | none =>
    simp only [goon, doing] at stepped
    cases stepped
  | some call =>
    cases call with
    | lock mutex =>
      simp only [goon, doing] at stepped
      exact lock_moves related idle (.again doing) (fun _ => rfl) stepped
    | unlock mutex =>
      simp only [goon, doing] at stepped
      obtain rfl := (Option.some.inj stepped).symm
      exact ⟨q, related, .returns doing⟩

theorem next_moves (related : Related s.events q) {a : ℕ × Act V T}
    (stepped : next registryLists s a = some u) :
    ∃ q', Related u.events q' ∧ Moves a.1 s q a.2 u q' := by
  obtain ⟨fuel, a⟩ := a
  cases a with
  | event b =>
    simp only [next, step] at stepped
    split at stepped
    · rename_i own
      exact event_moves related own stepped
    · cases stepped
  | lock mutex =>
    simp only [next, step] at stepped
    split at stepped
    · rename_i free
      have enters : Begins s mutex [.called s.events.control.running mutex] := .call free.2
      refine lock_moves related free.1 enters (fun inside => ?_) ?_
      · rw [free.2] at inside
        cases inside
      · rw [doing_same free.2]
        exact stepped
    · cases stepped
  | unlock mutex =>
    simp only [next, step] at stepped
    split at stepped
    · rename_i free
      exact unlock_moves related free.2 stepped
    · cases stepped
  | goon =>
    simp only [next, step] at stepped
    split at stepped
    · rename_i idle
      exact goon_moves related idle stepped
    · cases stepped

end

end Coutil.MutexSystem
