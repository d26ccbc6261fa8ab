import Mathlib
import Coutil.QueuedDelivery
import Coutil.EventWaiters

set_option autoImplicit false

/-! Emissions that are stored are neither lost nor duplicated. -/
namespace Coutil.QueuedConservation
open Runs EventRegistry QueuedStore EventAttempt EventRefinement EventPreservation EventInvariant
open EventWake AwaitSemantics QueuedEvents QueuedDelivery
open EventSystem (Act Call Control Outcome Status Frame)

section
variable {V T : Type}

def emission : Act V T → Option (Val V × List (Val V))
  | .emitone event args | .emitall event args => some (event, args)
  | _ => none

variable [DecidableEq V] [DecidableEq T]

/-- What a call takes of the emissions stored for an event, given all that are stored: one for
each event of `awaitall`, and one for the leftmost event of `awaitany` that has any. -/
def consumes (items : Val V → List ℕ) (a : Act V T) (e : Val V) : List ℕ :=
  match a with
  | .await event => if event = e then (items e).take 1 else []
  | .awaitall args => if e ∈ args ∧ e ≠ .nil then (items e).take 1 else []
  | .awaitany args =>
    if args.find? (fun d => decide (items d ≠ [])) = some e then (items e).take 1 else []
  | _ => []

/-- The call of the event module with which an await call waits. -/
def waitsFor (items : Val V → List ℕ) : Act V T → Act V T → Prop
  | .awaitall args, b => ∃ rest, b = .awaitall rest ∧ Pending [] args items rest
  | a, b => b = a

variable (len : List (Val V) → ℕ) (fuel : ℕ)

/-- What a step is, with the items stored before and after it. -/
inductive Moves (s : QueuedEvents.State (Registry V T) V T) (items : Val V → List ℕ) :
    Act V T → QueuedEvents.State (Registry V T) V T → (Val V → List ℕ) → Prop
  | events {a : Act V T} {events : EventSystem.State (Registry V T) V T}
      (heard : ∀ e args, emission a = some (e, args) → s.events.registry.listof e ≠ none)
      (nothing : ∀ e, consumes items a e = []) (plain : ∀ args, a ≠ .awaitall args)
      (stepped : EventSystem.step registryLists fuel s.events a = .next events) :
      Moves s items a ⟨events, s.store⟩ items
  | unheard {a : Act V T} {args : List (Val V)} (emits : emission a = some (.nil, args))
      (silent : s.events.registry.listof .nil = none) :
      Moves s items a (s.deliver [.bool false]) items
  | stores {a : Act V T} {e : Val V} {args : List (Val V)} {store : Store V}
      (emits : emission a = some (e, args)) (silent : s.events.registry.listof e = none)
      (key : e ≠ .nil)
      (enqueued : (s.store.pack args).1.enqueue e s.store.fresh = .ok store) :
      Moves s items a (({ s with store := store } : QueuedEvents.State _ V T).deliver [.bool false])
        (Function.update items e (items e ++ [s.store.fresh]))
  | takes {a : Act V T} {e : Val V} {i : ℕ} {rest : List ℕ} {store : Store V}
      (awaits : a = .await e ∨ ∃ args, a = .awaitany args ∧
        args.find? (fun d => decide (items d ≠ [])) = some e)
      (first : items e = i :: rest) (dequeued : s.store.dequeue e = some (i, store)) :
      Moves s items a (({ s with store := store } : QueuedEvents.State _ V T).deliver
        (e :: unpack len (s.store.packed i))) (Function.update items e rest)
  | filters {args rest : List (Val V)} {store : Store V}
      {events : EventSystem.State (Registry V T) V T}
      (ended : onlypending [] s.store args = .ok (store, rest))
      (pending : Pending [] args items rest)
      (stepped : EventSystem.step registryLists fuel s.events (.awaitall rest) = .next events) :
      Moves s items (.awaitall args) ⟨events, store⟩ (taken [] args items)

variable {len fuel}
variable {s u : QueuedEvents.State (Registry V T) V T} {items items' : Val V → List ℕ} {a : Act V T}

theorem deliver_sound (sound : Sound s items) (idle : s.events.control.loop = none)
    {store : Store V} {values : List (Val V)} (stored : Stored store items')
    (exclusive : ∀ e, s.events.registry.listof e ≠ none → items' e = [])
    (secret : .listof ∉ values) :
    Sound (({ s with store := store } : QueuedEvents.State _ V T).deliver values) items' := by
  obtain ⟨q, related⟩ := sound.related
  exact ⟨⟨_, deliver_related related idle secret⟩, exclusive, stored⟩

theorem emit_moves (sound : Sound s items) (idle : s.events.control.loop = none) {e : Val V}
    {args : List (Val V)} (emits : emission a = some (e, args))
    (owns : s.events.control.owns (e :: args))
    {outcome : Outcome (EventSystem.State (Registry V T) V T)}
    (calls : EventSystem.step registryLists fuel s.events a = outcome)
    (silent : s.events.registry.listof e = none →
      outcome = .next { s.events with control := s.events.control.deliver [.bool false] })
    (stepped : emit registryLists s e args outcome = .next u) :
    ∃ items', Sound u items' ∧ Moves len fuel s items a u items' := by
  have secret : .listof ∉ e :: args := by
    obtain ⟨q, related⟩ := sound.related
    rw [related.control] at owns
    exact owns_secret related.inv.controlled owns
  have nothing : ∀ d, consumes items a d = [] := by
    intro d
    cases a with
    | await event => cases emits
    | awaitall as => cases emits
    | awaitany as => cases emits
    | _ => rfl
  have plain : ∀ as, a ≠ .awaitall as := by
    rintro as rfl
    cases emits
  have silence : .listof ∉ [(.bool false : Val V)] := by simp
  unfold emit at stepped
  cases found : s.events.registry.listof e with
  | some l =>
    have found' : registryLists.find s.events.registry e = some l := found
    rw [found'] at stepped
    obtain ⟨next, same⟩ := lift_next stepped
    obtain ⟨events, store⟩ := u
    subst same
    refine ⟨items, ?_, .events ?_ nothing plain (calls.trans next)⟩
    · refine events_sound sound.related sound.exclusive sound.stored (fun _ empty => empty) ?_
        (calls.trans next)
      intro d member
      cases a with
      | emitone event as => cases member
      | emitall event as => cases member
      | _ => cases emits
    · intro d as same
      rw [emits] at same
      cases same
      rw [found]
      exact Option.some_ne_none l
  | none =>
    have found' : registryLists.find s.events.registry e = none := found
    rw [found'] at stepped
    dsimp only at stepped
    rw [silent found] at stepped
    split at stepped
    · rename_i nil
      cases stepped
      subst e
      exact ⟨items, deliver_sound sound idle sound.stored sound.exclusive silence,
        .unheard emits found⟩
    · rename_i nil
      have key : e ≠ .nil ∧ e ≠ .nan := by
        refine ⟨nil, ?_⟩
        rintro rfl
        cases stepped
      obtain ⟨store, enqueued, stored, -⟩ := stored_enqueue sound.stored key secret
      have enqueued : (s.store.pack args).1.enqueue e s.store.fresh = .ok store := enqueued
      have enqueued' : (s.store.pack args).1.enqueue e (s.store.pack args).2 = .ok store := enqueued
      rw [enqueued'] at stepped
      cases stepped
      refine ⟨_, deliver_sound sound idle stored ?_ silence, .stores emits found nil enqueued⟩
      intro d installed
      have other : d ≠ e := by
        rintro rfl
        exact installed found
      rw [Function.update_of_ne other]
      exact sound.exclusive d installed

/-- An await call that finds nothing stored waits. -/
theorem waits_moves (sound : Sound s items) {events : EventSystem.State (Registry V T) V T}
    (heard : emission a = none) (nothing : ∀ e, consumes items a e = [])
    (plain : ∀ args, a ≠ .awaitall args) (allowed : ∀ e ∈ arguments a, items e = [])
    (stepped : EventSystem.step registryLists fuel s.events a = .next events) :
    ∃ items', Sound ⟨events, s.store⟩ items' ∧ Moves len fuel s items a ⟨events, s.store⟩ items' := by
  have sound' := events_sound sound.related sound.exclusive sound.stored (fun _ empty => empty)
    allowed stepped
  refine ⟨items, sound', .events (fun e args emits => ?_) nothing plain stepped⟩
  rw [heard] at emits
  cases emits

theorem takes_moves (sound : Sound s items) (idle : s.events.control.loop = none) {e : Val V}
    {i : ℕ} {rest : List ℕ} {store : Store V}
    (awaits : a = .await e ∨ ∃ args, a = .awaitany args ∧
      args.find? (fun d => decide (items d ≠ [])) = some e)
    (first : items e = i :: rest) (dequeued : s.store.dequeue e = some (i, store)) :
    ∃ items', Sound (({ s with store := store } : QueuedEvents.State _ V T).deliver
        (e :: unpack len (store.packed i))) items' ∧
      Moves len fuel s items a (({ s with store := store } : QueuedEvents.State _ V T).deliver
        (e :: unpack len (store.packed i))) items' := by
  obtain ⟨store', dequeued', stored, packed⟩ := stored_dequeue sound.stored first
  rw [dequeued] at dequeued'
  cases dequeued'
  have secret : .listof ∉ e :: s.store.packed i :=
    sound.stored.secret e i (first ▸ List.mem_cons_self)
  have fewer : .listof ∉ e :: unpack len (s.store.packed i) := by
    intro member
    rcases List.mem_cons.mp member with same | member
    · exact secret (same ▸ List.mem_cons_self)
    · exact secret (List.mem_cons_of_mem e (List.mem_of_mem_take member))
  rw [packed]
  refine ⟨_, deliver_sound sound idle stored (fun d installed => ?_) fewer,
    .takes awaits first dequeued⟩
  by_cases same : d = e
  · subst d
    rw [sound.exclusive e installed] at first
    cases first
  · rw [Function.update_of_ne same]
    exact sound.exclusive d installed

theorem await_moves (sound : Sound s items) (idle : s.events.control.loop = none) {e : Val V}
    (owns : s.events.control.owns [e])
    (stepped : QueuedEvents.await registryLists len s e = .next u) :
    ∃ items', Sound u items' ∧ Moves len fuel s items (.await e) u items' := by
  unfold QueuedEvents.await at stepped
  cases queue : items e with
  | nil =>
    rw [dequeue_none sound.stored.holds queue] at stepped
    obtain ⟨next, same⟩ := lift_next stepped
    obtain ⟨events, store⟩ := u
    subst same
    refine waits_moves sound rfl (fun d => ?_) (fun _ h => by cases h) (fun d member => ?_) ?_
    · simp only [consumes]
      split
      · rename_i same
        rw [← same, queue]
        rfl
      · rfl
    · rw [List.mem_singleton.mp member, queue]
    · simp only [EventSystem.step, idle, EventSystem.call, if_pos owns]
      exact next
  | cons i rest =>
    obtain ⟨store, dequeued, -⟩ := stored_dequeue sound.stored queue
    rw [dequeued] at stepped
    cases stepped
    exact takes_moves sound idle (.inl rfl) queue dequeued

theorem awaitany_moves (sound : Sound s items) (idle : s.events.control.loop = none)
    {args : List (Val V)} (owns : s.events.control.owns args)
    (stepped : QueuedEvents.awaitany registryLists len s args = .next u) :
    ∃ items', Sound u items' ∧ Moves len fuel s items (.awaitany args) u items' := by
  unfold QueuedEvents.awaitany at stepped
  cases leftmost : args.find? (fun d => decide (items d ≠ [])) with
  | none =>
    have empty : ∀ d ∈ args, items d = [] := by
      intro d member
      simpa using List.find?_eq_none.mp leftmost d member
    rw [firstqueued_none sound.stored empty] at stepped
    obtain ⟨next, same⟩ := lift_next stepped
    obtain ⟨events, store⟩ := u
    subst same
    refine waits_moves sound rfl (fun d => ?_) (fun _ h => by cases h) empty ?_
    · simp only [consumes, leftmost]
      exact if_neg nofun
    · simp only [EventSystem.step, idle, EventSystem.call, if_pos owns]
      exact next
  | some e =>
    obtain ⟨full, before, after, rfl, empty⟩ := List.find?_eq_some_iff_append.mp leftmost
    have empty : ∀ d ∈ before, items d = [] := by
      intro d member
      simpa using empty d member
    have full : items e ≠ [] := by simpa using full
    obtain ⟨i, rest, queue⟩ := List.exists_cons_of_ne_nil full
    obtain ⟨store, found, -⟩ : ∃ store, firstqueued s.store (before ++ e :: after) =
        some (e, i, store) ∧ _ := firstqueued_first sound.stored empty queue
    rw [found] at stepped
    cases stepped
    exact takes_moves sound idle (.inr ⟨_, rfl, leftmost⟩) queue (firstqueued_same found)

theorem awaitall_moves (sound : Sound s items) (idle : s.events.control.loop = none)
    {args : List (Val V)} (owns : s.events.control.owns args)
    (stepped : QueuedEvents.awaitall registryLists s args = .next u) :
    ∃ items', Sound u items' ∧ Moves len fuel s items (.awaitall args) u items' := by
  unfold QueuedEvents.awaitall at stepped
  cases ended : onlypending [] s.store args with
  | error e =>
    rw [ended] at stepped
    cases stepped
  | ok p =>
    obtain ⟨store, rest⟩ := p
    rw [ended] at stepped
    obtain ⟨next, same⟩ := lift_next stepped
    obtain ⟨events, store'⟩ := u
    subst same
    obtain ⟨stored, packed, pending⟩ := onlypending_spec sound.stored ended
    have owns' : s.events.control.owns rest := by
      refine owns.imp id fun secret member => secret ?_
      exact ((pending.events .listof).mp member).1
    have calls : EventSystem.step registryLists fuel s.events (.awaitall rest) = .next events := by
      simp only [EventSystem.step, idle, EventSystem.call, if_pos owns']
      exact next
    have fewer : ∀ e, items e = [] → taken [] args items e = [] := by
      intro e empty
      simp [taken, empty]
    refine ⟨_, events_sound sound.related sound.exclusive stored fewer (fun e member => ?_) calls,
      .filters ended pending calls⟩
    exact fewer e ((pending.events e).mp member).2.2.2

theorem step_moves (sound : Sound s items)
    (stepped : QueuedEvents.step registryLists len fuel s a = .next u) :
    ∃ items', Sound u items' ∧ Moves len fuel s items a u items' := by
  have lifted (heard : emission a = none) (nothing : ∀ e, consumes items a e = [])
      (plain : ∀ args, a ≠ .awaitall args) (allowed : ∀ e ∈ arguments a, items e = [])
      (lifts : State.lift s.store (EventSystem.step registryLists fuel s.events a) = .next u) :
      ∃ items', Sound u items' ∧ Moves len fuel s items a u items' := by
    obtain ⟨next, same⟩ := lift_next lifts
    obtain ⟨events, store⟩ := u
    subst same
    exact waits_moves sound heard nothing plain allowed next
  unfold QueuedEvents.step at stepped
  cases loop : s.events.control.loop with
  | some p =>
    rw [loop] at stepped
    dsimp only at stepped
    cases a with
    | iterate =>
      exact lifted rfl (fun _ => rfl) (fun _ h => by cases h) (fun _ h => by cases h) stepped
    | _ =>
      simp only [EventSystem.step, loop] at stepped
      cases stepped
  | none =>
    rw [loop] at stepped
    dsimp only at stepped
    have calls : EventSystem.step registryLists fuel s.events a =
        EventSystem.call registryLists fuel s.events a := by
      simp only [EventSystem.step, loop]
    have other (same : QueuedEvents.call registryLists len fuel s a =
          State.lift s.store (EventSystem.call registryLists fuel s.events a))
        (heard : emission a = none) (nothing : ∀ e, consumes items a e = [])
        (plain : ∀ args, a ≠ .awaitall args) (none_ : arguments a = []) :
        ∃ items', Sound u items' ∧ Moves len fuel s items a u items' := by
      rw [same, ← calls] at stepped
      refine lifted heard nothing plain (fun e member => ?_) stepped
      rw [none_] at member
      cases member
    cases a with
    | await e =>
      simp only [QueuedEvents.call] at stepped
      split at stepped
      · rename_i owns
        exact await_moves sound loop owns stepped
      · cases stepped
    | awaitall args =>
      simp only [QueuedEvents.call] at stepped
      split at stepped
      · rename_i owns
        exact awaitall_moves sound loop owns stepped
      · cases stepped
    | awaitany args =>
      simp only [QueuedEvents.call] at stepped
      split at stepped
      · rename_i owns
        exact awaitany_moves sound loop owns stepped
      · cases stepped
    | emitone e args =>
      simp only [QueuedEvents.call] at stepped
      split at stepped
      · rename_i owns
        refine emit_moves sound loop rfl owns ?_ (fun none_ => ?_) stepped
        · simp only [EventSystem.step, loop, EventSystem.call, if_pos owns]
        · have found : registryLists.find s.events.registry e = none := none_
          simp only [EventSystem.emitone, found]
      · cases stepped
    | emitall e args =>
      simp only [QueuedEvents.call] at stepped
      split at stepped
      · rename_i owns
        refine emit_moves sound loop rfl owns ?_ (fun none_ => ?_) stepped
        · simp only [EventSystem.step, loop, EventSystem.call, if_pos owns]
        · have found : registryLists.find s.events.registry e = none := none_
          simp only [EventSystem.emitall, found]
      · cases stepped
    | resume co args => exact other rfl rfl (fun _ => rfl) (fun _ h => by cases h) rfl
    | yield args => exact other rfl rfl (fun _ => rfl) (fun _ h => by cases h) rfl
    | finish ok args => exact other rfl rfl (fun _ => rfl) (fun _ h => by cases h) rfl
    | iterate => exact other rfl rfl (fun _ => rfl) (fun _ h => by cases h) rfl

/-- The call has returned false to its caller. -/
def Refused (s u : QueuedEvents.State (Registry V T) V T) : Prop :=
  Returned s.events.control.running [.bool false] u.events

instance (s u : QueuedEvents.State (Registry V T) V T) : Decidable (Refused s u) :=
  decidable_of_iff (u.events.control.running = s.events.control.running ∧
    u.events.control.loop = none ∧ u.events.control.values = [.bool false])
    ⟨fun ⟨running, idle, values⟩ => ⟨running, idle, values⟩,
      fun ⟨running, idle, values⟩ => ⟨running, idle, values⟩⟩

/-- A coroutine that an emission resumes runs, or has given back control, and then the emission
goes on or returns true. -/
theorem emission_resumes {q q' : EventSystem.State (Queues V T) V T} (inv : Inv q) {l : ℕ}
    {e : Val V} {args : List (Val V)} {x : T}
    (wakes : woken queueLists q a = some (.emission l e args x))
    (stepped : EventSystem.step queueLists fuel q a = .next q') :
    ¬ Returned q.control.running [.bool false] q' := by
  rintro ⟨running, idle, values⟩
  obtain ⟨r, frame, pops⟩ := woken_pops wakes
  have inside := (pops_taken inv pops).inside
  obtain ⟨call, status, listed⟩ := inv.queued l x inside
  have away : x ≠ q.control.running := by
    rintro rfl
    rw [inv.controlled.running] at status
    cases status
  have emits : frame = .emitone ∨ frame = .emitall l e args := by
    cases pops with
    | iterate loop nonempty popped => exact .inr rfl
    | emitall idle found popped => exact .inr rfl
    | emitone idle found popped => exact .inl rfl
  rcases pops.step fuel with disabled | resumes
  · rw [disabled] at stepped
    cases stepped
  · rw [resumes] at stepped
    simp only [EventSystem.resume, status] at stepped
    cases call with
    | start => cases listed
    | user => cases listed
    | await d k =>
      simp only [EventSystem.resumed, EventSystem.istoken_listof, if_true] at stepped
      cases stepped
      exact away running
    | awaitall as rs count =>
      simp only [EventSystem.resumed, EventSystem.istoken_listof, Bool.not_true,
        Bool.false_eq_true, if_false] at stepped
      split at stepped
      · cases stepped
        exact away running
      · cases stepped
        rcases emits with rfl | rfl
        · cases values
        · cases idle
    | awaitany as rs =>
      simp only [EventSystem.resumed, EventSystem.istoken_listof, if_true] at stepped
      split at stepped
      · cases stepped
      · cases stepped
        exact away running

omit [DecidableEq V] [DecidableEq T] in
theorem emission_cases {e : Val V} {args : List (Val V)} (emits : emission a = some (e, args)) :
    a = .emitone e args ∨ a = .emitall e args := by
  cases a with
  | emitone d as =>
    cases emits
    exact .inl rfl
  | emitall d as =>
    cases emits
    exact .inr rfl
  | _ => cases emits

theorem emission_wakes {q : EventSystem.State (Queues V T) V T} (inv : Inv q)
    (idle : q.control.loop = none) {e : Val V} {args : List (Val V)} {l : ℕ}
    (emits : emission a = some (e, args)) (found : q.registry.listof e = some l) :
    ∃ x, woken queueLists q a = some (.emission l e args x) := by
  obtain ⟨-, -, some_⟩ := inv.queues.installed e l found
  obtain ⟨x, rest, queue⟩ := List.exists_cons_of_ne_nil some_
  refine ⟨x, ?_⟩
  have found' : queueLists.find q.registry e = some l := found
  rcases emission_cases emits with rfl | rfl
  · have popped := unlinkone_eq found queue
    have popped : queueLists.unlinkone q.registry e l = some _ := popped
    simp only [woken, idle, found', Option.bind_some, popped, Option.map_some]
  · have away : (q.registry.detach e).listof e ≠ some l := by simp [Queues.detach]
    have popped := unlinkhead_eq (q := q.registry.detach e) away queue
    have popped : queueLists.unlinkhead (queueLists.detach q.registry e) l = some _ := popped
    simp only [woken, idle, found', Option.bind_some, popped, Option.map_some]

theorem refused_iff (sound : Sound s items) {e : Val V} {args : List (Val V)}
    (emits : emission a = some (e, args)) (moves : Moves len fuel s items a u items')
    (idle : s.events.control.loop = none) :
    Refused s u ↔ s.events.registry.listof e = none := by
  obtain ⟨q, related⟩ := sound.related
  cases moves with
  | events heard nothing plain stepped =>
    have waits := heard e args emits
    refine iff_of_false (fun refused => ?_) waits
    obtain ⟨q', reached, related'⟩ := next_reached related stepped
    obtain ⟨l, found⟩ := Option.ne_none_iff_exists'.mp waits
    rw [related.refines.listof] at found
    obtain ⟨x, wakes⟩ := emission_wakes related.inv (related.control ▸ idle) emits found
    refine emission_resumes related.inv wakes reached ?_
    obtain ⟨running, idle', values⟩ := refused
    rw [related'.control, related.control] at running
    rw [related'.control] at idle' values
    exact ⟨running, idle', values⟩
  | unheard emits' silent =>
    rw [emits] at emits'
    cases emits'
    exact iff_of_true ⟨rfl, rfl, rfl⟩ silent
  | stores emits' silent key enqueued =>
    rw [emits] at emits'
    cases emits'
    exact iff_of_true ⟨rfl, rfl, rfl⟩ silent
  | takes awaits first dequeued =>
    rcases awaits with rfl | ⟨as, rfl, -⟩
    · cases emits
    · cases emits
  | filters ended pending stepped => cases emits

omit [DecidableEq T] in
theorem onlypending_enqueued {seen args rest : List (Val V)} {store store' : Store V} (e : Val V)
    (ended : onlypending seen store args = .ok (store', rest)) :
    enqueuedFor e store'.log = enqueuedFor e store.log := by
  induction args generalizing seen store rest with
  | nil =>
    cases ended
    rfl
  | cons event args ih =>
    simp only [onlypending] at ended
    split at ended
    · exact ih ended
    · split at ended
      · split at ended
        · cases ended
        · split at ended
          · cases ended
          · rename_i later
            cases ended
            exact ih later
      · rename_i dequeued
        split at ended
        · cases ended
        · rw [ih ended, (dequeue_same dequeued).2.2, enqueuedFor_taken]

/-- What a step stores for the event. -/
def puts (s u : QueuedEvents.State (Registry V T) V T) (a : Act V T) (e : Val V) : List ℕ :=
  match emission a with
  | some (d, _) => if d = e ∧ e ≠ .nil ∧ Refused s u then [s.store.fresh] else []
  | none => []

omit [DecidableEq T] in
theorem consumes_none {e : Val V} {args : List (Val V)} (emits : emission a = some (e, args))
    (d : Val V) : consumes items a d = [] := by
  rcases emission_cases emits with rfl | rfl
  · rfl
  · rfl

theorem puts_none {e : Val V} (none_ : emission a = none) : puts s u a e = [] := by
  simp only [puts, none_]

/-- A step appends to what was put in and to what was taken out. -/
theorem moves_log (sound : Sound s items) (sound' : Sound u items')
    (moves : Moves len fuel s items a u items')
    (idle : emission a ≠ none → s.events.control.loop = none) (e : Val V) :
    enqueuedFor e u.store.log = enqueuedFor e s.store.log ++ puts s u a e ∧
      dequeuedFor e u.store.log = dequeuedFor e s.store.log ++ consumes items a e := by
  have before := sound.stored.logged e
  have after := sound'.stored.logged e
  have refused {d : Val V} {args : List (Val V)} (emits : emission a = some (d, args)) :=
    refused_iff sound emits moves (idle (by simp [emits]))
  cases moves with
  | events heard nothing plain stepped =>
    refine ⟨?_, by rw [nothing, List.append_nil]⟩
    cases emits : emission a with
    | none => simp only [puts, emits, List.append_nil]
    | some p =>
      obtain ⟨d, args⟩ := p
      have answer := (refused emits).not.mpr (heard d args emits)
      simp only [puts, emits, answer, and_false, if_false, List.append_nil]
  | unheard emits silent =>
    rw [consumes_none emits, List.append_nil]
    refine ⟨?_, rfl⟩
    have other : ¬ (.nil = e ∧ e ≠ .nil ∧ Refused s (s.deliver [.bool false])) :=
      fun ⟨same, key, _⟩ => key same.symm
    simp only [puts, emits, if_neg other, List.append_nil]
    rfl
  | @stores a d args store emits silent key enqueued =>
    rw [consumes_none emits, List.append_nil]
    have log := (enqueue_same enqueued).2.2
    have answer := (refused emits).mpr silent
    simp only [puts, emits, answer, and_true]
    change enqueuedFor e store.log = _ ∧ dequeuedFor e store.log = _
    rw [log, enqueuedFor_put, dequeuedFor_put]
    refine ⟨?_, rfl⟩
    by_cases same : d = e
    · subst d
      rw [if_pos rfl, if_pos ⟨rfl, key⟩]
      rfl
    · rw [if_neg same, if_neg (fun h => same h.1), List.append_nil]
      rfl
  | @takes a d i rest store awaits first dequeued =>
    have none_ : emission a = none := by
      rcases awaits with rfl | ⟨as, rfl, -⟩
      · rfl
      · rfl
    have log := (dequeue_same dequeued).2.2
    have one : consumes items a e = if d = e then [i] else [] := by
      by_cases same : d = e
      · subst d
        rcases awaits with rfl | ⟨as, rfl, leftmost⟩
        · simp [consumes, first]
        · simp only [consumes, if_pos leftmost, first, if_true, List.take_succ_cons, List.take_zero]
      · rw [if_neg same]
        rcases awaits with rfl | ⟨as, rfl, leftmost⟩
        · simp [consumes, same]
        · have other : ¬ (some d = some e) := fun h => same (Option.some.inj h)
          simp only [consumes, leftmost, if_neg other]
    rw [puts_none none_, List.append_nil, one]
    change enqueuedFor e store.log = _ ∧ dequeuedFor e store.log = _
    rw [log, enqueuedFor_taken, dequeuedFor_taken]
    refine ⟨rfl, ?_⟩
    by_cases same : d = e
    · rw [if_pos same, if_pos same]
    · rw [if_neg same, if_neg same, List.append_nil]
  | @filters args rest store events ended pending stepped =>
    have same : enqueuedFor e store.log = enqueuedFor e s.store.log := onlypending_enqueued e ended
    rw [puts_none rfl, List.append_nil]
    refine ⟨same, ?_⟩
    change enqueuedFor e store.log = dequeuedFor e store.log ++ taken [] args items e at after
    change dequeuedFor e store.log = _
    rw [same, before] at after
    have split : items e = consumes items (.awaitall args : Act V T) e ++ taken [] args items e := by
      by_cases takes : e ∈ args ∧ e ≠ .nil
      · have takes' : e ∈ args ∧ e ≠ .nil ∧ e ∉ ([] : List (Val V)) :=
          ⟨takes.1, takes.2, List.not_mem_nil⟩
        simp only [consumes, taken, if_pos takes, if_pos takes']
        cases items e with
        | nil => rfl
        | cons i rest => rfl
      · have takes' : ¬ (e ∈ args ∧ e ≠ .nil ∧ e ∉ ([] : List (Val V))) :=
          fun h => takes ⟨h.1, h.2.1⟩
        simp only [consumes, taken, if_neg takes, if_neg takes', List.nil_append]
    rw [split, ← List.append_assoc] at after
    exact (List.append_cancel_right after).symm

theorem emission_idle (stepped : QueuedEvents.step registryLists len fuel s a = .next u)
    (emits : emission a ≠ none) : s.events.control.loop = none := by
  cases loop : s.events.control.loop with
  | none => rfl
  | some p =>
    simp only [QueuedEvents.step, loop] at stepped
    cases a with
    | emitone e args =>
      simp only [EventSystem.step, loop] at stepped
      cases stepped
    | emitall e args =>
      simp only [EventSystem.step, loop] at stepped
      cases stepped
    | _ => exact absurd rfl emits

/-- What is stored are the arguments of the emission. -/
theorem stores_packed (sound : Sound s items) (moves : Moves len fuel s items a u items')
    (idle : s.events.control.loop = none) {e : Val V} {args : List (Val V)}
    (emits : emission a = some (e, args)) (key : e ≠ .nil) (refused : Refused s u) :
    s.store.fresh < u.store.fresh ∧ u.store.packed s.store.fresh = args := by
  have silent := (refused_iff sound emits moves idle).mp refused
  cases moves with
  | events heard nothing plain stepped => exact absurd silent (heard e args emits)
  | unheard emits' _ =>
    rw [emits] at emits'
    cases emits'
    exact absurd rfl key
  | @stores a d as store emits' _ _ enqueued =>
    rw [emits] at emits'
    cases emits'
    obtain ⟨packed, fresh, -⟩ := enqueue_same enqueued
    change s.store.fresh < store.fresh ∧ store.packed s.store.fresh = args
    rw [packed, fresh]
    refine ⟨Nat.lt_succ_self s.store.fresh, ?_⟩
    change Function.update s.store.packed s.store.fresh args s.store.fresh = args
    exact Function.update_self s.store.fresh args s.store.packed
  | takes awaits first dequeued =>
    rcases awaits with rfl | ⟨as, rfl, -⟩
    · cases emits
    · cases emits
  | filters ended pending stepped => cases emits

variable (len)

/-- The arguments of the emissions of the event that returned false, in the order of the run. -/
def refusals (e : Val V) :
    QueuedEvents.State (Registry V T) V T → List (ℕ × Act V T) → List (List (Val V))
  | _, [] => []
  | s, a :: as =>
    match next registryLists len s a with
    | none => []
    | some u =>
      match emission a.2 with
      | some (d, args) =>
        if d = e ∧ Refused s u then args :: refusals e u as else refusals e u as
      | none => refusals e u as

/-- Every emission that returned false was consumed, in order, or is stored, and nobody waits for
an event of which some are stored. -/
structure Conserved (main : T) (acts : List (ℕ × Act V T))
    (s : QueuedEvents.State (Registry V T) V T) (items : Val V → List ℕ) : Prop where
  circles : Holds s.store items
  exclusive : ∀ e, pending s.events.registry e = true → queued s.store e = false
  balance : ∀ e, e ≠ .nil → refusals len e (State.init main) acts =
    (dequeuedFor e s.store.log ++ items e).map s.store.packed

/-- What a call does with the stored emissions. -/
structure Called (fuel : ℕ) (s : QueuedEvents.State (Registry V T) V T) (items : Val V → List ℕ)
    (a : Act V T) (u : QueuedEvents.State (Registry V T) V T) : Prop where
  consumed : ∀ e, dequeuedFor e u.store.log = dequeuedFor e s.store.log ++ consumes items a e
  stored : ∀ e, enqueuedFor e u.store.log = enqueuedFor e s.store.log ++ puts s u a e
  refused : ∀ e args, emission a = some (e, args) →
    (Refused s u ↔ pending s.events.registry e = false)
  returns : ∀ e i, (∀ args, a ≠ .awaitall args) → consumes items a e = [i] →
    Returned s.events.control.running (e :: unpack len (s.store.packed i)) u.events
  waits : (∃ args, a = .awaitall args) ∨ emission a = none ∧ (∀ e, consumes items a e = []) →
    ∃ b, waitsFor items a b ∧ EventSystem.step registryLists fuel s.events b = .next u.events

variable {len}

theorem run_sound {as : List (ℕ × Act V T)} (sound : Sound s items)
    (ran : run (next registryLists len) s as = some u) : ∃ items', Sound u items' := by
  refine run_invariant (fun u => ∃ items, Sound u items) ?_ ⟨items, sound⟩ ran
  rintro v a w ⟨items, sound⟩ stepped
  obtain ⟨items', sound', -⟩ := step_moves sound (next_step registryLists len stepped)
  exact ⟨items', sound'⟩

theorem sound_init (main : T) :
    Sound (State.init main : QueuedEvents.State (Registry V T) V T) (fun _ => []) where
  related := ⟨⟨Queues.empty, Control.init main⟩, refines_empty, rfl, init_inv main⟩
  exclusive _ _ := rfl
  stored := stored_init

theorem run_refusals {as : List (ℕ × Act V T)} (sound : Sound s items)
    (ran : run (next registryLists len) s as = some u) {e : Val V} (key : e ≠ .nil) :
    ∃ new, enqueuedFor e u.store.log = enqueuedFor e s.store.log ++ new ∧
      refusals len e s as = new.map u.store.packed := by
  induction as generalizing s items with
  | nil =>
    cases ran
    exact ⟨[], by simp, rfl⟩
  | cons a as ih =>
    obtain ⟨w, taken, ran⟩ := run_cons.mp ran
    have stepped := next_step registryLists len taken
    obtain ⟨items', sound', moves⟩ := step_moves sound stepped
    obtain ⟨new, log, rest⟩ := ih sound' ran
    have put := (moves_log sound sound' moves (emission_idle stepped) e).1
    refine ⟨puts s w a.2 e ++ new, by rw [log, put, List.append_assoc], ?_⟩
    rw [List.map_append, ← rest]
    simp only [refusals, taken]
    cases emits : emission a.2 with
    | none => simp [puts, emits]
    | some p =>
      obtain ⟨d, args⟩ := p
      by_cases here : d = e ∧ Refused s w
      · obtain ⟨rfl, refused⟩ := here
        have idle := emission_idle stepped (by simp [emits])
        obtain ⟨old, packed⟩ := stores_packed sound moves idle emits key refused
        have kept := (run_keeps ran).packed s.store.fresh old
        simp [puts, emits, key, refused, kept, packed]
      · have nothing : puts s w a.2 e = [] := by
          simp only [puts, emits]
          exact if_neg fun h => here ⟨h.1, h.2.2⟩
        simp [here, nothing]

theorem sound_exclusive (sound : Sound s items) {e : Val V}
    (waits : pending s.events.registry e = true) : queued s.store e = false := by
  have installed : s.events.registry.listof e ≠ none := Option.isSome_iff_ne_none.mp waits
  rw [← Bool.not_eq_true, sound.stored.holds.queued, not_not]
  exact sound.exclusive e installed

/-- In every run of the module in which no call raises an error: no event has both coroutines that
wait for it and stored emissions, and the emissions of an event that returned false are those that
await calls have consumed so far, followed by those that are stored. -/
theorem queued_conserved (main : T) (acts : List (ℕ × Act V T))
    (s : QueuedEvents.State (Registry V T) V T)
    (ran : run (next registryLists len) (State.init main) acts = some s) :
    ∃ items, Conserved len main acts s items := by
  obtain ⟨items, sound⟩ := run_sound (sound_init main) ran
  refine ⟨items, sound.stored.holds, fun e waits => sound_exclusive sound waits, fun e key => ?_⟩
  obtain ⟨new, log, same⟩ := run_refusals (sound_init main) ran key
  have logged := sound.stored.logged e
  rw [same, ← logged, log]
  rfl

/-- A coroutine that an emission resumes emits twice, and takes the first of these two. -/
theorem queued_conserved_nested :
    ∃ s : QueuedEvents.State (Registry ℕ ℕ) ℕ ℕ,
      run (next registryLists firstBorder) (State.init 0)
        [(0, .resume 1 []), (0, .await (.ref 7)), (0, .emitone (.ref 7) [.bool true]),
          (0, .emitone (.ref 7) [.nil]), (0, .emitall (.ref 7) [.bool false]),
          (0, .await (.ref 7))] = some s ∧
      dequeuedFor (.ref 7) s.store.log = [0] ∧
      ∃ items, Conserved firstBorder 0
        [(0, .resume 1 []), (0, .await (.ref 7)), (0, .emitone (.ref 7) [.bool true]),
          (0, .emitone (.ref 7) [.nil]), (0, .emitall (.ref 7) [.bool false]),
          (0, .await (.ref 7))] s items := by
  have computed : (run (next registryLists firstBorder)
      (State.init 0 : QueuedEvents.State (Registry ℕ ℕ) ℕ ℕ)
      [(0, .resume 1 []), (0, .await (.ref 7)), (0, .emitone (.ref 7) [.bool true]),
        (0, .emitone (.ref 7) [.nil]), (0, .emitall (.ref 7) [.bool false]),
        (0, .await (.ref 7))]).map (fun s => dequeuedFor (.ref 7) s.store.log) = some [0] := by rfl
  obtain ⟨s, ran, took⟩ := Option.map_eq_some_iff.mp computed
  exact ⟨s, ran, took, queued_conserved 0 _ s ran⟩

theorem moves_called (sound : Sound s items) (sound' : Sound u items')
    (moves : Moves len fuel s items a u items')
    (idle : emission a ≠ none → s.events.control.loop = none) : Called len fuel s items a u := by
  refine ⟨fun e => (moves_log sound sound' moves idle e).2,
    fun e => (moves_log sound sound' moves idle e).1, fun e args emits => ?_, ?_, ?_⟩
  · rw [refused_iff sound emits moves (idle (by simp [emits])), pending,
      Option.isSome_eq_false_iff, Option.isNone_iff_eq_none]
  · intro e i notall takes
    cases moves with
    | events heard nothing plain stepped =>
      rw [nothing e] at takes
      cases takes
    | unheard emits silent =>
      rw [consumes_none emits] at takes
      cases takes
    | stores emits silent key enqueued =>
      rw [consumes_none emits] at takes
      cases takes
    | @takes a d j rest store awaits first dequeued =>
      have same : d = e ∧ j = i := by
        rcases awaits with rfl | ⟨as, rfl, leftmost⟩
        · simp only [consumes] at takes
          split at takes
          · rename_i same
            subst d
            rw [first] at takes
            cases takes
            exact ⟨rfl, rfl⟩
          · cases takes
        · simp only [consumes, leftmost] at takes
          split at takes
          · rename_i same
            cases same
            rw [first] at takes
            cases takes
            exact ⟨rfl, rfl⟩
          · cases takes
      obtain ⟨rfl, rfl⟩ := same
      exact ⟨rfl, rfl, rfl⟩
    | filters ended pending stepped => exact absurd rfl (notall _)
  · intro waits
    cases moves with
    | @events a events heard nothing plain stepped =>
      refine ⟨a, ?_, stepped⟩
      cases a with
      | awaitall args => exact absurd rfl (plain args)
      | _ => rfl
    | unheard emits silent =>
      rcases waits with ⟨args, rfl⟩ | ⟨none_, -⟩
      · cases emits
      · rw [none_] at emits
        cases emits
    | stores emits silent key enqueued =>
      rcases waits with ⟨args, rfl⟩ | ⟨none_, -⟩
      · cases emits
      · rw [none_] at emits
        cases emits
    | @takes a d j rest store awaits first dequeued =>
      rcases waits with ⟨args, rfl⟩ | ⟨-, nothing⟩
      · rcases awaits with same | ⟨as, same, -⟩
        · cases same
        · cases same
      · have none_ := nothing d
        rcases awaits with rfl | ⟨as, rfl, leftmost⟩
        · simp [consumes, first] at none_
        · simp only [consumes, if_pos leftmost, first] at none_
          cases none_
    | filters ended pending stepped => exact ⟨_, ⟨_, rfl, pending⟩, stepped⟩

end
end Coutil.QueuedConservation
