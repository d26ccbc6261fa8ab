import Mathlib
import Coutil.AwaitSemantics
import Coutil.QueuedStore

set_option autoImplicit false

/-! Programs that use events through `lua/coutil/queued.lua`: an emission for which nobody
waits is stored, and an await call takes stored emissions before it waits. -/
namespace Coutil.QueuedEvents
open Runs EventRegistry QueuedStore EventAttempt EventRefinement EventPreservation EventInvariant
open EventWake AwaitSemantics
open EventFailure (installed_kept)
open EventSystem (Act Call Control Outcome Status Frame)

structure State (R V T : Type) where
  events : EventSystem.State R V T
  store : Store V

section
variable {R V T : Type} [DecidableEq V] [DecidableEq T] (L : Lists V T R)

/-- What a call of the event module does, beside the store. -/
def State.lift (store : Store V) : Outcome (EventSystem.State R V T) → Outcome (State R V T)
  | .next events => .next ⟨events, store⟩
  | .raised events msg => .raised ⟨events, store⟩ msg
  | .diverged => .diverged
  | .disabled => .disabled

def State.deliver (s : State R V T) (values : List (Val V)) : State R V T :=
  { s with events := { s.events with control := s.events.control.deliver values } }

/-- `table.unpack` takes as many values as the length operator gives for the table. -/
def unpack (len : List (Val V) → ℕ) (values : List (Val V)) : List (Val V) :=
  values.take (len values)

/-- `emitone` or `emitall`, given what the function of the event module does. -/
def emit (s : State R V T) (event : Val V) (args : List (Val V))
    (outcome : Outcome (EventSystem.State R V T)) : Outcome (State R V T) :=
  match L.find s.events.registry event with
  | some _ => State.lift s.store outcome
  | none =>
    if event = .nil then State.lift s.store outcome
    else
      let packed := s.store.pack args
      match packed.1.enqueue event packed.2 with
      | .error msg => .raised ⟨s.events, packed.1⟩ msg
      | .ok store => State.lift store outcome

variable (len : List (Val V) → ℕ)

def await (s : State R V T) (event : Val V) : Outcome (State R V T) :=
  match s.store.dequeue event with
  | some (item, store) =>
    .next ({ s with store := store }.deliver (event :: unpack len (store.packed item)))
  | none => State.lift s.store (EventSystem.await L s.events event)

/-- Function `onlypending`, with the keys of its table `events`. -/
def onlypending (seen : List (Val V)) :
    Store V → List (Val V) → Except (Store V × String) (Store V × List (Val V))
  | store, [] => .ok (store, [])
  | store, event :: args =>
    if event = .nil ∨ event ∈ seen then onlypending seen store args
    else match store.dequeue event with
      | none =>
        if event = .nan then .error (store, "index is NaN")
        else match onlypending (event :: seen) store args with
          | .error e => .error e
          | .ok (store, rest) => .ok (store, event :: rest)
      | some (_, store) =>
        if event = .nan then .error (store, "index is NaN")
        else onlypending (event :: seen) store args

def awaitall (s : State R V T) (args : List (Val V)) : Outcome (State R V T) :=
  match onlypending [] s.store args with
  | .error (store, msg) => .raised { s with store := store } msg
  | .ok (store, rest) => State.lift store (EventSystem.awaitall L s.events rest)

/-- The loop of `awaitany`. -/
def firstqueued (store : Store V) : List (Val V) → Option (Val V × ℕ × Store V)
  | [] => none
  | event :: args =>
    match store.dequeue event with
    | some (item, store) => some (event, item, store)
    | none => firstqueued store args

def awaitany (s : State R V T) (args : List (Val V)) : Outcome (State R V T) :=
  match firstqueued s.store args with
  | some (event, item, store) =>
    .next ({ s with store := store }.deliver (event :: unpack len (store.packed item)))
  | none => State.lift s.store (EventSystem.awaitany L s.events args)

def call (fuel : ℕ) (s : State R V T) : Act V T → Outcome (State R V T)
  | .await event => if s.events.control.owns [event] then await L len s event else .disabled
  | .awaitall args => if s.events.control.owns args then awaitall L s args else .disabled
  | .awaitany args => if s.events.control.owns args then awaitany L len s args else .disabled
  | .emitone event args =>
    if s.events.control.owns (event :: args) then
      emit L s event args (EventSystem.emitone L fuel s.events event args)
    else .disabled
  | .emitall event args =>
    if s.events.control.owns (event :: args) then
      emit L s event args (EventSystem.emitall L fuel s.events event args)
    else .disabled
  | a => State.lift s.store (EventSystem.call L fuel s.events a)

def step (fuel : ℕ) (s : State R V T) (a : Act V T) : Outcome (State R V T) :=
  match s.events.control.loop with
  | none => call L len fuel s a
  | some _ => State.lift s.store (EventSystem.step L fuel s.events a)

def next (s : State R V T) (a : ℕ × Act V T) : Option (State R V T) :=
  (step L len a.1 s a.2).next?

theorem next_step {s u : State R V T} {a : ℕ × Act V T} (taken : next L len s a = some u) :
    step L len a.1 s a.2 = .next u := by
  unfold next at taken
  cases outcome : step L len a.1 s a.2 with
  | next v =>
    rw [outcome] at taken
    cases taken
    rfl
  | _ =>
    rw [outcome] at taken
    cases taken

omit [DecidableEq V] [DecidableEq T] in
theorem lift_next {store : Store V} {o : Outcome (EventSystem.State R V T)} {u : State R V T}
    (lifted : State.lift store o = .next u) : o = .next u.events ∧ u.store = store := by
  cases o with
  | next events =>
    cases lifted
    exact ⟨rfl, rfl⟩
  | _ => cases lifted

omit [DecidableEq V] [DecidableEq T] in
theorem lift_raised {store : Store V} {o : Outcome (EventSystem.State R V T)} {u : State R V T}
    {msg : String} (lifted : State.lift store o = .raised u msg) :
    o = .raised u.events msg ∧ u.store = store := by
  cases o with
  | raised events m =>
    cases lifted
    exact ⟨rfl, rfl⟩
  | _ => cases lifted

end

section
variable {V T : Type} [DecidableEq V]

def State.init [DecidableEq T] (main : T) : State (Registry V T) V T :=
  ⟨⟨Registry.empty, Control.init main⟩, Store.empty⟩

/-- The store has these items for each event, none of them known to the event module, and they
are the ones that were put in and not taken out, in the same order. -/
structure Stored (store : Store V) (items : Val V → List ℕ) : Prop where
  holds : Holds store items
  secret : ∀ e, ∀ i ∈ items e, .listof ∉ e :: store.packed i
  logged : ∀ e, enqueuedFor e store.log = dequeuedFor e store.log ++ items e

/-- What holds between the lists and the store after every run. -/
structure Sound [DecidableEq T] (s : State (Registry V T) V T) (items : Val V → List ℕ) : Prop where
  related : ∃ q, Related s.events q
  exclusive : ∀ e, s.events.registry.listof e ≠ none → items e = []
  stored : Stored s.store items

theorem enqueuedFor_put (e d : Val V) (i : ℕ) (log : List (Entry V)) :
    enqueuedFor e (log ++ [.enqueued d i]) =
      if d = e then enqueuedFor e log ++ [i] else enqueuedFor e log := by
  unfold enqueuedFor
  rw [List.filterMap_append]
  split
  · simp [*]
  · simp [*]

theorem enqueuedFor_taken (e d : Val V) (i : ℕ) (log : List (Entry V)) :
    enqueuedFor e (log ++ [.dequeued d i]) = enqueuedFor e log := by
  unfold enqueuedFor
  rw [List.filterMap_append]
  simp

theorem dequeuedFor_put (e d : Val V) (i : ℕ) (log : List (Entry V)) :
    dequeuedFor e (log ++ [.enqueued d i]) = dequeuedFor e log := by
  unfold dequeuedFor
  rw [List.filterMap_append]
  simp

theorem dequeuedFor_taken (e d : Val V) (i : ℕ) (log : List (Entry V)) :
    dequeuedFor e (log ++ [.dequeued d i]) =
      if d = e then dequeuedFor e log ++ [i] else dequeuedFor e log := by
  unfold dequeuedFor
  rw [List.filterMap_append]
  split
  · simp [*]
  · simp [*]

section
variable {store : Store V} {items : Val V → List ℕ}

theorem stored_init : Stored (Store.empty : Store V) (fun _ => []) :=
  ⟨holds_empty, by simp, fun _ => rfl⟩

/-- An emission is stored behind the others of its event. -/
theorem stored_enqueue (stored : Stored store items) {e : Val V} {args : List (Val V)}
    (key : e ≠ .nil ∧ e ≠ .nan) (secret : .listof ∉ e :: args) :
    ∃ u, (store.pack args).1.enqueue e (store.pack args).2 = .ok u ∧
      Stored u (Function.update items e (items e ++ [store.fresh])) ∧
      u.packed store.fresh = args ∧ ∀ i < store.fresh, u.packed i = store.packed i := by
  obtain ⟨holds, secrets, logged⟩ := stored
  have absent : ∀ d, store.fresh ∉ items d :=
    fun d member => Nat.lt_irrefl store.fresh (holds.old d store.fresh member)
  have old : store.fresh < (store.pack args).1.fresh := Nat.lt_succ_self store.fresh
  obtain ⟨u, enqueued, holds', packed, -, log⟩ :=
    enqueue_holds (pack_holds holds args) key old absent
  have packed : u.packed = Function.update store.packed store.fresh args := packed
  have log : u.log = store.log ++ [.enqueued e store.fresh] := log
  have older : ∀ i < store.fresh, u.packed i = store.packed i := by
    intro i old
    rw [packed, Function.update_of_ne (Nat.ne_of_lt old)]
  refine ⟨u, enqueued, ⟨holds', ?_, ?_⟩, by rw [packed, Function.update_self], older⟩
  · intro d i member
    by_cases new : i = store.fresh
    · subst i
      have same : d = e := by
        by_contra other
        rw [Function.update_of_ne other] at member
        exact absent d member
      rw [packed, Function.update_self, same]
      exact secret
    · have member : i ∈ items d := by
        by_cases same : d = e
        · subst d
          simpa [new] using member
        · simpa [same] using member
      rw [older i (holds.old d i member)]
      exact secrets d i member
  · intro d
    rw [log, enqueuedFor_put, dequeuedFor_put]
    by_cases same : e = d
    · subst d
      rw [if_pos rfl, Function.update_self, logged, List.append_assoc]
    · rw [if_neg same, Function.update_of_ne (Ne.symm same), logged]

theorem stored_dequeue (stored : Stored store items) {e : Val V} {i : ℕ} {rest : List ℕ}
    (first : items e = i :: rest) :
    ∃ u, store.dequeue e = some (i, u) ∧ Stored u (Function.update items e rest) ∧
      u.packed = store.packed := by
  obtain ⟨holds, secrets, logged⟩ := stored
  obtain ⟨u, dequeued, holds', packed, -, log⟩ := dequeue_holds holds first
  refine ⟨u, dequeued, ⟨holds', ?_, ?_⟩, packed⟩
  · intro d j member
    rw [packed]
    by_cases same : d = e
    · subst d
      rw [Function.update_self] at member
      exact secrets e j (first ▸ List.mem_cons_of_mem i member)
    · rw [Function.update_of_ne same] at member
      exact secrets d j member
  · intro d
    rw [log, enqueuedFor_taken, dequeuedFor_taken]
    by_cases same : e = d
    · subst d
      rw [if_pos rfl, Function.update_self, logged, first, List.append_assoc]
      rfl
    · rw [if_neg same, Function.update_of_ne (Ne.symm same), logged]

/-- What `onlypending` takes: the first emission stored for each event that it had not seen. -/
def taken (seen args : List (Val V)) (items : Val V → List ℕ) (e : Val V) : List ℕ :=
  if e ∈ args ∧ e ≠ .nil ∧ e ∉ seen then (items e).tail else items e

/-- The events that `onlypending` returns: each one that had nothing stored, once. -/
structure Pending (seen args : List (Val V)) (items : Val V → List ℕ) (rest : List (Val V)) :
    Prop where
  nodup : rest.Nodup
  events : ∀ e, e ∈ rest ↔ e ∈ args ∧ e ≠ .nil ∧ e ∉ seen ∧ items e = []

/-- What holds of a store and its items, also after the first item of an event is taken. -/
structure Dequeued (P : Store V → (Val V → List ℕ) → Prop) : Prop where
  holds : ∀ {store items}, P store items → Holds store items
  dequeue : ∀ {store items e i rest}, P store items → items e = i :: rest →
    ∃ u, store.dequeue e = some (i, u) ∧ P u (Function.update items e rest) ∧
      u.packed = store.packed

theorem onlypending_kept {P : Store V → (Val V → List ℕ) → Prop} (kept : Dequeued P)
    (stored : P store items) {seen args : List (Val V)} {store' : Store V} {rest : List (Val V)}
    (ended : onlypending seen store args = .ok (store', rest)) :
    P store' (taken seen args items) ∧ store'.packed = store.packed ∧
      Pending seen args items rest := by
  induction args generalizing seen store items rest with
  | nil =>
    cases ended
    have same : taken seen [] items = items := by
      funext e
      simp [taken]
    exact ⟨same ▸ stored, rfl, List.nodup_nil, by simp⟩
  | cons event args ih =>
    simp only [onlypending] at ended
    split at ended
    · rename_i skip
      obtain ⟨stored', packed, nodup, events⟩ := ih stored ended
      have same : taken seen (event :: args) items = taken seen args items := by
        funext e
        by_cases here : e = event
        · subst e
          rcases skip with nil | known
          · simp [taken, nil]
          · simp [taken, known]
        · simp [taken, here]
      refine ⟨same ▸ stored', packed, nodup, fun e => ?_⟩
      rw [events, List.mem_cons]
      constructor
      · rintro ⟨member, nil, new, empty⟩
        exact ⟨Or.inr member, nil, new, empty⟩
      · rintro ⟨rfl | member, nil, new, empty⟩
        · rcases skip with isnil | known
          · exact absurd isnil nil
          · exact absurd known new
        · exact ⟨member, nil, new, empty⟩
    · rename_i fresh
      obtain ⟨nil, new⟩ := not_or.mp fresh
      cases queue : items event with
      | nil =>
        rw [dequeue_none (kept.holds stored) queue] at ended
        dsimp only at ended
        split at ended
        · cases ended
        · cases later : onlypending (event :: seen) store args with
          | error e => simp [later] at ended
          | ok p =>
            rw [later] at ended
            cases ended
            obtain ⟨stored', packed, nodup, events⟩ := ih stored later
            have same : taken seen (event :: args) items = taken (event :: seen) args items := by
              funext e
              by_cases here : e = event
              · simp [taken, here, queue]
              · simp [taken, here]
            refine ⟨same ▸ stored', packed, ?_, fun e => ?_⟩
            · rw [List.nodup_cons, events]
              exact ⟨by simp, nodup⟩
            · rw [List.mem_cons, events, List.mem_cons]
              by_cases here : e = event
              · simp [here, nil, new, queue]
              · simp [here]
      | cons i others =>
        obtain ⟨u, dequeued, stored₁, packed₁⟩ := kept.dequeue stored queue
        rw [dequeued] at ended
        dsimp only at ended
        split at ended
        · cases ended
        · obtain ⟨stored', packed, nodup, events⟩ := ih stored₁ ended
          have same : taken seen (event :: args) items =
              taken (event :: seen) args (Function.update items event others) := by
            funext e
            by_cases here : e = event
            · simp [taken, here, nil, new, queue]
            · simp [taken, here]
          refine ⟨same ▸ stored', packed.trans packed₁, nodup, fun e => ?_⟩
          rw [events, List.mem_cons]
          by_cases here : e = event
          · simp [here, queue]
          · simp [here]

theorem onlypending_spec (stored : Stored store items) {seen args : List (Val V)}
    {store' : Store V} {rest : List (Val V)}
    (ended : onlypending seen store args = .ok (store', rest)) :
    Stored store' (taken seen args items) ∧ store'.packed = store.packed ∧
      Pending seen args items rest :=
  onlypending_kept ⟨Stored.holds, fun stored first => stored_dequeue stored first⟩ stored ended

theorem holds_dequeued : Dequeued (Holds : Store V → (Val V → List ℕ) → Prop) where
  holds := id
  dequeue holds first := by
    obtain ⟨u, dequeued, holds', packed, -⟩ := dequeue_holds holds first
    exact ⟨u, dequeued, holds', packed⟩

theorem firstqueued_none (stored : Stored store items) {args : List (Val V)}
    (empty : ∀ e ∈ args, items e = []) : firstqueued store args = none := by
  induction args with
  | nil => rfl
  | cons e args ih =>
    obtain ⟨first, others⟩ := List.forall_mem_cons.mp empty
    simp only [firstqueued, dequeue_none stored.holds first]
    exact ih others

/-- The loop of `awaitany` stops at the leftmost event with something stored. -/
theorem firstqueued_first (stored : Stored store items) {before after : List (Val V)} {e : Val V}
    {i : ℕ} {rest : List ℕ} (empty : ∀ d ∈ before, items d = []) (first : items e = i :: rest) :
    ∃ u, firstqueued store (before ++ e :: after) = some (e, i, u) ∧
      Stored u (Function.update items e rest) ∧ u.packed = store.packed := by
  obtain ⟨u, dequeued, stored', packed⟩ := stored_dequeue stored first
  refine ⟨u, ?_, stored', packed⟩
  induction before with
  | nil => simp only [List.nil_append, firstqueued, dequeued]
  | cons d before ih =>
    obtain ⟨none, others⟩ := List.forall_mem_cons.mp empty
    simp only [List.cons_append, firstqueued, dequeue_none stored.holds none]
    exact ih others

end

variable [DecidableEq T]

/-- A call of the event module that registers its caller only for events with nothing stored. -/
theorem events_sound {s : EventSystem.State (Registry V T) V T} {items items' : Val V → List ℕ}
    {store : Store V} {u : EventSystem.State (Registry V T) V T} {fuel : ℕ} {a : Act V T}
    (related : ∃ q, Related s q) (exclusive : ∀ e, s.registry.listof e ≠ none → items e = [])
    (stored : Stored store items') (fewer : ∀ e, items e = [] → items' e = [])
    (allowed : ∀ e ∈ arguments a, items' e = [])
    (stepped : EventSystem.step registryLists fuel s a = .next u) : Sound ⟨u, store⟩ items' := by
  obtain ⟨q, related⟩ := related
  obtain ⟨v, -, related'⟩ := next_reached related stepped
  have kept := step_kept (installed_kept fun e => items' e = []) fuel allowed
    (fun e installed => fewer e (exclusive e installed)) u (by rw [stepped]; rfl)
  exact ⟨⟨v, related'⟩, kept, stored⟩

end
end Coutil.QueuedEvents
