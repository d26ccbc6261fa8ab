import Coutil.EventWaiters

set_option autoImplicit false

/-! Module `lua/coutil/promise.lua` over the event module. A promise that is claimed before it is
fulfilled, and the fulfillment that notifies those that claimed it, go on before anything else
happens once their call of the event module returns. -/
namespace Coutil.PromiseSystem
open Runs EventRegistry EventSystem EventInvariant EventPreservation EventRefinement EventAttempt
open EventFailure EventWake AwaitSemantics EmitLoop EventWaiters

/-- The call that a coroutine has not returned from. -/
inductive Doing (V : Type) where
  | claim (promise : V)
  | fulfill (promise : V)
  deriving DecidableEq

inductive Entry (V T : Type) where
  | claimed (thread : T) (promise : V) (values : List (Val V))
  | fulfilled (thread : T) (promise : V) (args : List (Val V)) (notify : Bool)
  deriving DecidableEq

/-- The variable `results` of each promise. The log has the last entry first. -/
structure State (R V T : Type) where
  events : EventSystem.State R V T
  results : V → Option (List (Val V))
  doing : T → Option (Doing V)
  log : List (Entry V T)

inductive Act (V T : Type) where
  | event (a : EventSystem.Act V T)
  | claim (promise : V)
  | probe (promise : V)
  | fulfill (promise : V) (args : List (Val V))
  | awaitall (promises : List (Option V))
  | awaitany (promises : List (Option V))
  | goon

section
variable {R V T : Type} [DecidableEq V] [DecidableEq T]

def State.deliver (s : State R V T) (values : List (Val V)) : State R V T :=
  { s with events := { s.events with control := s.events.control.deliver values } }

def State.lift (s : State R V T) : Outcome (EventSystem.State R V T) → Outcome (State R V T)
  | .next events => .next { s with events := events }
  | .raised events msg => .raised { s with events := events } msg
  | .diverged => .diverged
  | .disabled => .disabled

def State.call (s : State R V T) (call : Doing V) : State R V T :=
  { s with doing := Function.update s.doing s.events.control.running (some call) }

def State.return (s : State R V T) : State R V T :=
  { s with doing := Function.update s.doing s.events.control.running none }

def State.note (s : State R V T) (entry : Entry V T) : State R V T :=
  { s with log := entry :: s.log }

def probe (s : State R V T) (promise : V) : Bool := (s.results promise).isSome

/-- Nil is where the arguments end. -/
def onlypending (s : State R V T) : List (Option V) → List V
  | [] | none :: _ => []
  | some promise :: promises =>
    if probe s promise then onlypending s promises else promise :: onlypending s promises

def pickready (s : State R V T) : List (Option V) → Option V
  | [] | none :: _ => none
  | some promise :: promises => if probe s promise then some promise else pickready s promises

def handlenotify (promise : V) : List (Val V) → List (Val V)
  | [] => [.nil]
  | event :: args => if event = .ref promise then args else event :: args

def argument : Option V → Val V
  | none => .nil
  | some promise => .ref promise

variable (L : Lists V T R)

def claim (fuel : ℕ) (s : State R V T) (promise : V) : Outcome (State R V T) :=
  match s.results promise with
  | none =>
    match EventSystem.step L fuel s.events (.await (.ref promise)) with
    | .next events => .next { s.call (.claim promise) with events := events }
    | .raised events msg => .raised { s with events := events } msg
    | .diverged => .diverged
    | .disabled => .disabled
  | some results =>
    .next ((s.deliver results).note (.claimed s.events.control.running promise results))

def fulfill (fuel : ℕ) (s : State R V T) (promise : V) (args : List (Val V)) :
    Outcome (State R V T) :=
  let notify := (s.results promise).isNone
  let u := { s with results := Function.update s.results promise (some args) }.note
    (.fulfilled s.events.control.running promise args notify)
  if s.events.control.owns args then
    if notify then
      (u.call (.fulfill promise)).lift
        (EventSystem.step L fuel s.events (.emitall (.ref promise) args))
    else .next (u.deliver [.bool false])
  else .disabled

def awaitall (fuel : ℕ) (s : State R V T) (promises : List (Option V)) : Outcome (State R V T) :=
  s.lift (EventSystem.step L fuel s.events (.awaitall ((onlypending s promises).map .ref)))

def awaitany (fuel : ℕ) (s : State R V T) (promises : List (Option V)) : Outcome (State R V T) :=
  match pickready s promises with
  | some ready => .next (s.deliver [.bool true, .ref ready])
  | none => s.lift (EventSystem.step L fuel s.events (.awaitany (promises.map argument)))

def goon (s : State R V T) : Outcome (State R V T) :=
  match s.doing s.events.control.running with
  | some (.claim promise) =>
    let values := handlenotify promise s.events.control.values
    .next ((s.return.deliver values).note (.claimed s.events.control.running promise values))
  | some (.fulfill _) => .next (s.return.deliver [.bool true])
  | none => .disabled

/-- The running coroutine is in its own code. -/
def State.free (s : State R V T) : Prop :=
  s.events.control.loop = none ∧ s.doing s.events.control.running = none

instance (s : State R V T) : Decidable s.free :=
  decidable_of_iff (s.events.control.loop.isNone ∧ (s.doing s.events.control.running).isNone)
    (by simp [State.free])

def step (fuel : ℕ) (s : State R V T) : Act V T → Outcome (State R V T)
  | .event a =>
    if s.free ∨ s.events.control.loop ≠ none then s.lift (EventSystem.step L fuel s.events a)
    else .disabled
  | .claim promise => if s.free then claim L fuel s promise else .disabled
  | .probe promise =>
    if s.free then .next (s.deliver [.bool (probe s promise)]) else .disabled
  | .fulfill promise args => if s.free then fulfill L fuel s promise args else .disabled
  | .awaitall promises => if s.free then awaitall L fuel s promises else .disabled
  | .awaitany promises => if s.free then awaitany L fuel s promises else .disabled
  | .goon => if s.events.control.loop = none then goon s else .disabled

/-- The steps that raise no error. -/
def next (s : State R V T) (a : ℕ × Act V T) : Option (State R V T) := (step L a.1 s a.2).next?

end

def State.init {V T : Type} [DecidableEq T] (main : T) : State (Registry V T) V T :=
  ⟨⟨Registry.empty, Control.init main⟩, fun _ => none, fun _ => none, []⟩

section
variable {V T : Type} [DecidableEq V] [DecidableEq T]

/-- A call of the event module, over the tables and over the queues they stand for. -/
structure Steps (fuel : ℕ) (b : EventSystem.Act V T) (s u : EventSystem.State (Registry V T) V T)
    (q q' : EventSystem.State (Queues V T) V T) : Prop where
  tables : EventSystem.step registryLists fuel s b = .next u
  queues : EventSystem.step queueLists fuel q b = .next q'

/-- What a step is, with the queues that the registry stands for before and after it. -/
inductive Moves (fuel : ℕ) (s : State (Registry V T) V T)
    (q : EventSystem.State (Queues V T) V T) :
    Act V T → State (Registry V T) V T → EventSystem.State (Queues V T) V T → Prop
  | event {b : EventSystem.Act V T} {events : EventSystem.State (Registry V T) V T}
      {q' : EventSystem.State (Queues V T) V T} (own : s.free ∨ s.events.control.loop ≠ none)
      (steps : Steps fuel b s.events events q q') :
      Moves fuel s q (.event b) { s with events := events } q'
  | claims {promise : V} {results : List (Val V)} (free : s.free)
      (fulfilled : s.results promise = some results) :
      Moves fuel s q (.claim promise)
        ((s.deliver results).note (.claimed s.events.control.running promise results))
        { q with control := q.control.deliver results }
  | waits {promise : V} {events : EventSystem.State (Registry V T) V T}
      {q' : EventSystem.State (Queues V T) V T} (free : s.free)
      (pending : s.results promise = none)
      (steps : Steps fuel (.await (.ref promise)) s.events events q q') :
      Moves fuel s q (.claim promise) { s.call (.claim promise) with events := events } q'
  | probes {promise : V} (free : s.free) :
      Moves fuel s q (.probe promise) (s.deliver [.bool (probe s promise)])
        { q with control := q.control.deliver [.bool (probe s promise)] }
  | first {promise : V} {args : List (Val V)} {events : EventSystem.State (Registry V T) V T}
      {q' : EventSystem.State (Queues V T) V T} (free : s.free)
      (pending : s.results promise = none) (owns : s.events.control.owns args)
      (steps : Steps fuel (.emitall (.ref promise) args) s.events events q q') :
      Moves fuel s q (.fulfill promise args)
        { events := events
          results := Function.update s.results promise (some args)
          doing := Function.update s.doing s.events.control.running (some (.fulfill promise))
          log := .fulfilled s.events.control.running promise args true :: s.log } q'
  | again {promise : V} {args results : List (Val V)} (free : s.free)
      (fulfilled : s.results promise = some results) (owns : s.events.control.owns args) :
      Moves fuel s q (.fulfill promise args)
        { events := { s.events with control := s.events.control.deliver [.bool false] }
          results := Function.update s.results promise (some args)
          doing := s.doing
          log := .fulfilled s.events.control.running promise args false :: s.log }
        { q with control := q.control.deliver [.bool false] }
  | awaitall {promises : List (Option V)} {events : EventSystem.State (Registry V T) V T}
      {q' : EventSystem.State (Queues V T) V T} (free : s.free)
      (steps : Steps fuel (.awaitall ((onlypending s promises).map .ref)) s.events events q q') :
      Moves fuel s q (.awaitall promises) { s with events := events } q'
  | awaitany {promises : List (Option V)} {events : EventSystem.State (Registry V T) V T}
      {q' : EventSystem.State (Queues V T) V T} (free : s.free)
      (pending : pickready s promises = none)
      (steps : Steps fuel (.awaitany (promises.map argument)) s.events events q q') :
      Moves fuel s q (.awaitany promises) { s with events := events } q'
  | ready {promises : List (Option V)} {promise : V} (free : s.free)
      (picked : pickready s promises = some promise) :
      Moves fuel s q (.awaitany promises) (s.deliver [.bool true, .ref promise])
        { q with control := q.control.deliver [.bool true, .ref promise] }
  | notified {promise : V} (idle : s.events.control.loop = none)
      (inside : s.doing s.events.control.running = some (.claim promise)) :
      Moves fuel s q .goon
        ((s.return.deliver (handlenotify promise s.events.control.values)).note
          (.claimed s.events.control.running promise
            (handlenotify promise s.events.control.values)))
        { q with control := q.control.deliver (handlenotify promise s.events.control.values) }
  | returns {promise : V} (idle : s.events.control.loop = none)
      (inside : s.doing s.events.control.running = some (.fulfill promise)) :
      Moves fuel s q .goon (s.return.deliver [.bool true])
        { q with control := q.control.deliver [.bool true] }

/-- What the moves of control keep. -/
structure Closed (P : Control V T → Prop) : Prop where
  deliver : ∀ c values, P c → P (c.deliver values)
  returned : ∀ c frame values, P c → P (c.returned frame values)
  giveback : ∀ c status values, P c → P (c.giveback status values)
  enter : ∀ c co frame, P c → P (c.enter co frame)

section
variable {R : Type} {L : Lists V T R} {P : Control V T → Prop}

theorem resume_closed (closed : Closed P) {r : R} {c : Control V T} (holds : P c) (fuel : ℕ)
    (co : T) (frame : Frame V) (values : List (Val V)) :
    Outcome.All (fun u => P u.control) (resume L fuel ⟨r, c⟩ co frame values) := by
  have entered := closed.enter c co frame holds
  have delivers : ∀ values, P ((c.enter co frame).deliver values) :=
    fun values => closed.deliver _ values entered
  simp only [resume]
  split
  · rename_i call suspended
    cases call with
    | start => exact all_next (delivers _)
    | user => exact all_next (delivers _)
    | await event list =>
      simp only [resumed]
      split
      · exact all_next (delivers _)
      · cases list with
        | none => exact all_raised entered
        | some list =>
          dsimp only
          split
          · exact all_diverged
          · exact all_next (delivers _)
    | awaitall args rs count =>
      simp only [resumed]
      split
      · split
        · exact all_diverged
        · exact all_next (delivers _)
      · split
        · exact all_next (delivers _)
        · apply all_next
          exact closed.giveback _ _ _ entered
    | awaitany args rs =>
      simp only [resumed]
      split
      · exact all_diverged
      · split
        · exact all_next (delivers _)
        · exact all_next (delivers _)
  · exact all_next (closed.returned _ _ _ holds)
  · exact all_next (closed.returned _ _ _ holds)

theorem step_closed (closed : Closed P) {s : EventSystem.State R V T} (holds : P s.control)
    (fuel : ℕ) (a : EventSystem.Act V T) :
    Outcome.All (fun u => P u.control) (EventSystem.step L fuel s a) := by
  have delivers : ∀ values, P (s.control.deliver values) :=
    fun values => closed.deliver _ values holds
  have gives : ∀ status values, P (s.control.giveback status values) :=
    fun status values => closed.giveback _ status values holds
  have nexts : ∀ l e args r, Outcome.All (fun u => P u.control)
      (emitnext L fuel { s with registry := r } l e args) := by
    intro l e args r
    simp only [emitnext]
    split
    · exact all_raised holds
    · exact resume_closed closed holds fuel _ _ _
  cases loop : s.control.loop with
  | some p =>
    simp only [EventSystem.step, loop]
    cases a with
    | iterate =>
      dsimp only
      split
      · exact all_next (delivers _)
      · exact nexts _ _ _ s.registry
    | _ => exact all_disabled
  | none =>
    simp only [EventSystem.step, loop]
    cases a with
    | await event =>
      simp only [call, EventSystem.await]
      split
      · split
        · split
          · exact all_raised holds
          · exact all_next (gives _ _)
        · exact all_raised holds
      · exact all_disabled
    | awaitall args =>
      simp only [call, EventSystem.awaitall]
      split
      · split
        · split
          · exact all_raised holds
          · split
            · exact all_next (delivers _)
            · exact all_next (gives _ _)
        · exact all_raised holds
      · exact all_disabled
    | awaitany args =>
      simp only [call, EventSystem.awaitany]
      split
      · split
        · split
          · exact all_raised holds
          · split
            · exact all_raised holds
            · exact all_next (gives _ _)
        · exact all_raised holds
      · exact all_disabled
    | emitone event args =>
      simp only [call, EventSystem.emitone]
      split
      · split
        · exact all_next (delivers _)
        · split
          · exact all_raised holds
          · exact resume_closed closed holds fuel _ _ _
      · exact all_disabled
    | emitall event args =>
      simp only [call, EventSystem.emitall]
      split
      · split
        · exact all_next (delivers _)
        · exact nexts _ _ _ _
      · exact all_disabled
    | resume co args =>
      simp only [call]
      split
      · exact resume_closed closed holds fuel co .user args
      · exact all_disabled
    | yield args =>
      simp only [call]
      split
      · exact all_next (gives _ _)
      · exact all_disabled
    | finish ok args =>
      simp only [call]
      split
      · exact all_next (gives _ _)
      · exact all_disabled
    | iterate => exact all_disabled

end

/-- The code outside the module has no token of an emission. -/
def Told (c : Control V T) : Prop := c.leaked = false → .listof ∉ c.values

theorem told_closed : Closed (Told : Control V T → Prop) := by
  have deliver : ∀ (c : Control V T) values, Told c → Told (c.deliver values) := by
    intro c values _ fresh
    simp only [Control.deliver, Bool.or_eq_false_iff, decide_eq_false_iff_not] at fresh
    exact fresh.2
  have returned : ∀ (c : Control V T) frame values, Told c → Told (c.returned frame values) := by
    intro c frame values told
    cases frame with
    | user => exact deliver c _ told
    | emitone => exact deliver c _ told
    | emitall list event args => exact told
  refine ⟨deliver, returned, fun c status values told => ?_, fun c co frame told => told⟩
  unfold Control.giveback
  split
  · exact told
  · exact returned _ _ _ told

variable {s u : State (Registry V T) V T} {q : EventSystem.State (Queues V T) V T} {fuel : ℕ}

theorem lift_steps (related : Related s.events q) {b : EventSystem.Act V T}
    (stepped : Outcome.next? (s.lift (EventSystem.step registryLists fuel s.events b)) = some u) :
    ∃ events q', Steps fuel b s.events events q q' ∧ Related events q' ∧
      u = { s with events := events } := by
  cases outcome : EventSystem.step registryLists fuel s.events b with
  | next events =>
    rw [outcome] at stepped
    obtain rfl := (Option.some.inj stepped).symm
    obtain ⟨q', reached, related'⟩ := next_reached related outcome
    exact ⟨events, q', ⟨outcome, reached⟩, related', rfl⟩
  | raised events msg =>
    rw [outcome] at stepped
    cases stepped
  | diverged =>
    rw [outcome] at stepped
    cases stepped
  | disabled =>
    rw [outcome] at stepped
    cases stepped

theorem claim_moves (related : Related s.events q) {promise : V} (free : s.free)
    (secrets : ∀ vs, s.results promise = some vs → .listof ∉ vs)
    (stepped : Outcome.next? (claim registryLists fuel s promise) = some u) :
    ∃ q', Related u.events q' ∧ Moves fuel s q (.claim promise) u q' := by
  cases fulfilled : s.results promise with
  | some results =>
    simp only [claim, fulfilled] at stepped
    obtain rfl := (Option.some.inj stepped).symm
    exact ⟨_, deliver_related related free.1 (secrets results fulfilled), .claims free fulfilled⟩
  | none =>
    simp only [claim, fulfilled] at stepped
    cases outcome : EventSystem.step registryLists fuel s.events (.await (.ref promise)) with
    | next events =>
      rw [outcome] at stepped
      obtain rfl := (Option.some.inj stepped).symm
      obtain ⟨q', reached, related'⟩ := next_reached related outcome
      exact ⟨q', related', .waits free fulfilled ⟨outcome, reached⟩⟩
    | raised events msg =>
      rw [outcome] at stepped
      cases stepped
    | diverged =>
      rw [outcome] at stepped
      cases stepped
    | disabled =>
      rw [outcome] at stepped
      cases stepped

theorem fulfill_moves (related : Related s.events q) {promise : V} {args : List (Val V)}
    (free : s.free) (stepped : Outcome.next? (fulfill registryLists fuel s promise args) = some u) :
    ∃ q', Related u.events q' ∧ Moves fuel s q (.fulfill promise args) u q' := by
  dsimp only [fulfill] at stepped
  split at stepped
  · rename_i owns
    cases fulfilled : s.results promise with
    | some results =>
      simp only [fulfilled, Option.isNone_some, Bool.false_eq_true, if_false] at stepped
      obtain rfl := (Option.some.inj stepped).symm
      exact ⟨_, deliver_related related free.1 (by simp), .again free fulfilled owns⟩
    | none =>
      simp only [fulfilled, Option.isNone_none, if_true] at stepped
      let noted := { s with results := Function.update s.results promise (some args) }.note
        (.fulfilled s.events.control.running promise args true)
      obtain ⟨events, q', steps, related', rfl⟩ :=
        lift_steps (s := noted.call (.fulfill promise)) related stepped
      exact ⟨q', related', .first free fulfilled owns steps⟩
  · cases stepped

theorem goon_moves (related : Related s.events q) (told : Told s.events.control)
    (idle : s.events.control.loop = none) (stepped : Outcome.next? (goon s) = some u) :
    ∃ q', Related u.events q' ∧ Moves fuel s q .goon u q' := by
  have secret : .listof ∉ s.events.control.values := by
    refine told ?_
    rw [related.control]
    exact related.inv.controlled.secret
  cases doing : s.doing s.events.control.running with
  | none =>
    simp only [goon, doing] at stepped
    cases stepped
  | some call =>
    cases call with
    | claim promise =>
      simp only [goon, doing] at stepped
      obtain rfl := (Option.some.inj stepped).symm
      refine ⟨_, deliver_related related idle ?_, .notified idle doing⟩
      generalize s.events.control.values = values at secret
      cases values with
      | nil => simp [handlenotify]
      | cons event args =>
        simp only [handlenotify]
        split
        · exact fun member => secret (List.mem_cons_of_mem event member)
        · exact secret
    | fulfill promise =>
      simp only [goon, doing] at stepped
      obtain rfl := (Option.some.inj stepped).symm
      exact ⟨_, deliver_related related idle (by simp), .returns idle doing⟩

/-- Every step of a program is one of these. -/
theorem next_moves (related : Related s.events q) (told : Told s.events.control)
    (secrets : ∀ p vs, s.results p = some vs → .listof ∉ vs) {a : ℕ × Act V T}
    (stepped : next registryLists s a = some u) :
    ∃ q', Related u.events q' ∧ Moves a.1 s q a.2 u q' := by
  obtain ⟨fuel, a⟩ := a
  cases a with
  | event b =>
    simp only [next, step] at stepped
    split at stepped
    · rename_i own
      obtain ⟨events, q', steps, related', rfl⟩ := lift_steps related stepped
      exact ⟨q', related', .event own steps⟩
    · cases stepped
  | claim promise =>
    simp only [next, step] at stepped
    split at stepped
    · rename_i free
      exact claim_moves related free (secrets promise) stepped
    · cases stepped
  | probe promise =>
    simp only [next, step] at stepped
    split at stepped
    · rename_i free
      obtain rfl := (Option.some.inj stepped).symm
      exact ⟨_, deliver_related related free.1 (by simp), .probes free⟩
    · cases stepped
  | fulfill promise args =>
    simp only [next, step] at stepped
    split at stepped
    · rename_i free
      exact fulfill_moves related free stepped
    · cases stepped
  | awaitall promises =>
    simp only [next, step] at stepped
    split at stepped
    · rename_i free
      obtain ⟨events, q', steps, related', rfl⟩ := lift_steps related stepped
      exact ⟨q', related', .awaitall free steps⟩
    · cases stepped
  | awaitany promises =>
    simp only [next, step] at stepped
    split at stepped
    · rename_i free
      cases picked : pickready s promises with
      | some ready =>
        simp only [awaitany, picked] at stepped
        obtain rfl := (Option.some.inj stepped).symm
        exact ⟨_, deliver_related related free.1 (by simp), .ready free picked⟩
      | none =>
        simp only [awaitany, picked] at stepped
        obtain ⟨events, q', steps, related', rfl⟩ := lift_steps related stepped
        exact ⟨q', related', .awaitany free picked steps⟩
    · cases stepped
  | goon =>
    simp only [next, step] at stepped
    split at stepped
    · rename_i idle
      exact goon_moves related told idle stepped
    · cases stepped

end

end Coutil.PromiseSystem
