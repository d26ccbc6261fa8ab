import Coutil.QueuedEvents
import Coutil.EmitLoop
import Coutil.EventFailure

set_option autoImplicit false

/-! Await calls of `lua/coutil/queued.lua` that raise an error. `onlypending` takes stored
events before the call is known to be allowed. -/
namespace Coutil.QueuedFailure
open Runs EventRegistry QueuedStore QueuedEvents AwaitSemantics EventRefinement EventInvariant
open EventPreservation EventAttempt EventFailure EmitLoop
open EventSystem (Act register)

section
variable {V T : Type}

/-- The coroutine waits for the event already. -/
def registered (r : Registry V T) (t : T) (event : Val V) : Bool :=
  (r.listof event).any fun list => ((r.lists list).next t).isSome

variable [DecidableEq V]

/-- The values before the first one that is no table key. -/
def keys (args : List (Val V)) : List (Val V) := args.takeWhile fun event => event ≠ .nan

theorem keys_nan (args : List (Val V)) : keys (.nan :: args) = [] := by simp [keys]

theorem keys_cons {event : Val V} (args : List (Val V)) (key : event ≠ .nan) :
    keys (event :: args) = event :: keys args := by simp [keys, key]

theorem keys_all {args : List (Val V)} (absent : .nan ∉ args) : keys args = args := by
  rw [keys, List.takeWhile_eq_self_iff]
  intro event member
  have key : event ≠ .nan := by
    rintro rfl
    exact absent member
  simpa using key

structure Intact (s u : QueuedEvents.State (Registry V T) V T) : Prop where
  listof : u.events.registry.listof = s.events.registry.listof
  lists : u.events.registry.lists = s.events.registry.lists
  nextof : u.store.nextof = s.store.nextof
  packed : u.store.packed = s.store.packed

/-- Every list is a circle, and only values that can be table keys are keys. -/
structure Wellformed (s : QueuedEvents.State (Registry V T) V T) : Prop where
  lists : ∃ q D, Refines s.events.registry q ∧ WellQueued q D
  nan : s.events.registry.listof .nan = none
  stored : ∃ items, Holds s.store items ∧ items .nil = [] ∧ items .nan = []

/-- `awaitall` has no stored event to take before it fails, and `awaitany` no value to register
its caller for. -/
def Harmless (s : QueuedEvents.State (Registry V T) V T) : Act V T → Prop
  | .awaitall args => ∀ event ∈ keys args, queued s.store event = false
  | .awaitany args => s.events.control.yieldable → ∀ event ∈ keys args,
      event = .nil ∨ registered s.events.registry s.events.control.running event = true
  | _ => True

instance [DecidableEq T] (s : QueuedEvents.State (Registry V T) V T) (a : Act V T) :
    Decidable (Harmless s a) := by
  cases a <;> unfold Harmless <;> infer_instance

section
variable {store store' : Store V} {items : Val V → List ℕ} {seen args rest : List (Val V)}

theorem onlypending_keys (ended : onlypending seen store args = .ok (store', rest))
    (new : .nan ∉ seen) : .nan ∉ args := by
  induction args generalizing seen store store' rest with
  | nil => simp
  | cons event args ih =>
    simp only [onlypending] at ended
    split at ended
    · rename_i skip
      have key : event ≠ .nan := by
        rintro rfl
        rcases skip with nil | known
        · cases nil
        · exact new known
      exact List.not_mem_cons_of_ne_of_not_mem (Ne.symm key) (ih ended new)
    · split at ended
      · split at ended
        · cases ended
        · rename_i key
          split at ended
          · cases ended
          · rename_i later
            exact List.not_mem_cons_of_ne_of_not_mem (Ne.symm key)
              (ih later (by simp [new, Ne.symm key]))
      · split at ended
        · cases ended
        · rename_i key
          exact List.not_mem_cons_of_ne_of_not_mem (Ne.symm key)
            (ih ended (by simp [new, Ne.symm key]))

/-- An error of `onlypending` comes after the values before the one that is no key. -/
theorem onlypending_error (stored : Holds store items) (empty : items .nan = [])
    (new : .nan ∉ seen) {msg : String}
    (raised : onlypending seen store args = .error (store', msg)) :
    ∃ rest, onlypending seen store (keys args) = .ok (store', rest) := by
  induction args generalizing seen store items with
  | nil => cases raised
  | cons event args ih =>
    by_cases nan : event = .nan
    · subst event
      simp only [onlypending, new, or_false, reduceCtorEq, if_false,
        dequeue_none stored empty, if_true] at raised
      cases raised
      rw [keys_nan]
      exact ⟨[], rfl⟩
    · rw [keys_cons args nan]
      have new' : .nan ∉ event :: seen := List.not_mem_cons_of_ne_of_not_mem (Ne.symm nan) new
      by_cases skip : event = .nil ∨ event ∈ seen
      · simp only [onlypending, skip, if_true] at raised ⊢
        exact ih stored empty new raised
      · simp only [onlypending, skip, nan, if_false] at raised ⊢
        cases queue : items event with
        | nil =>
          simp only [dequeue_none stored queue] at raised ⊢
          split at raised
          · rename_i later
            cases raised
            obtain ⟨rest, ended⟩ := ih stored empty new' later
            rw [ended]
            exact ⟨event :: rest, rfl⟩
          · cases raised
        | cons i others =>
          obtain ⟨u, dequeued, stored', -⟩ := dequeue_holds stored queue
          simp only [dequeued] at raised ⊢
          exact ih stored' (by simpa [Ne.symm nan] using empty) new' raised

theorem onlypending_nothing (ended : onlypending seen store args = .ok (store', rest))
    (empty : ∀ event ∈ args, store.dequeue event = none) : store' = store := by
  induction args generalizing seen rest with
  | nil =>
    cases ended
    rfl
  | cons event args ih =>
    obtain ⟨first, others⟩ := List.forall_mem_cons.mp empty
    simp only [onlypending, first] at ended
    split at ended
    · exact ih ended others
    · split at ended
      · cases ended
      · split at ended
        · cases ended
        · rename_i later
          cases ended
          exact ih later others

theorem taken_mem {event : Val V} {i : ℕ} (member : i ∈ taken seen args items event) :
    i ∈ items event := by
  unfold taken at member
  split at member
  · exact List.mem_of_mem_tail member
  · exact member

/-- An item that is taken has no link afterwards. -/
theorem onlypending_unlinks (stored : Holds store items)
    (ended : onlypending [] store args = .ok (store', rest)) {event : Val V}
    (member : event ∈ args) (key : event ≠ .nil) (full : items event ≠ []) :
    store'.nextof ≠ store.nextof := by
  obtain ⟨stored', -, -⟩ := onlypending_kept holds_dequeued stored ended
  obtain ⟨i, others, queue⟩ := List.exists_cons_of_ne_nil full
  have circle := stored.circles event
  rw [queue] at circle
  obtain ⟨outside, -⟩ := List.nodup_cons.mp circle.nodup
  have linked : store.nextof (.item i) ≠ none := by
    have link := (circle.keys i).mpr List.mem_cons_self
    simpa [QueuedStore.circle] using link
  have unlinked : store'.nextof (.item i) = none := by
    refine stored'.unlinked i fun d member' => ?_
    by_cases same : d = event
    · subst d
      have left : taken [] args items event = others := by
        simp [taken, member, key, queue]
      exact outside (left ▸ member')
    · apply same
      exact stored.apart d event i (taken_mem member') (queue ▸ List.mem_cons_self)
  intro same
  rw [same] at unlinked
  exact linked unlinked

end
variable [DecidableEq T]

omit [DecidableEq V] [DecidableEq T] in
theorem registered_inside {r : Registry V T} {q : Queues V T} (refines : Refines r q) (t : T)
    (event : Val V) : registered r t event = true ↔ Inside q t event := by
  unfold registered Inside
  rw [← refines.listof, Option.any_eq_true]
  refine exists_congr fun list => and_congr_right fun _ => ?_
  rw [← (refines.lists list).keys, Option.isSome_iff_ne_none]

theorem register_known {r : Registry V T} {t : T} {args : List (Val V)}
    (nan : r.listof .nan = none)
    (known : ∀ event ∈ keys args, event = .nil ∨ registered r t event = true) :
    (∃ msg, register registryLists t r args = .error (r, msg)) ∨
      register registryLists t r args = .ok (r, []) := by
  induction args with
  | nil => exact Or.inr rfl
  | cons event args ih =>
    by_cases isnan : event = .nan
    · subst event
      left
      simp [register, registryLists, addthread, nan]
    · rw [keys_cons args isnan] at known
      obtain ⟨first, others⟩ := List.forall_mem_cons.mp known
      rcases first with nil | inside
      · simpa [register, nil] using ih others
      · obtain ⟨list, found, member⟩ := (Option.any_eq_true ..).mp inside
        have added : registryLists.add r event t = .ok (r, none) := by
          have linked : (r.lists list).next t ≠ none := Option.isSome_iff_ne_none.mp member
          simp [registryLists, addthread, found, linked]
        by_cases nil : event = .nil
        · simpa [register, nil] using ih others
        · simpa only [register, nil, if_false, added] using ih others

/-- An error comes after the registrations of the values before the one that is no key. -/
theorem register_error_before {q q' : Queues V T} {D : List (ℕ × Val V)} (queues : WellQueued q D)
    {t : T} {args : List (Val V)} {msg : String}
    (raised : register queueLists t q args = .error (q', msg)) (event : Val V)
    (inside : Inside q t event ∨ event ∈ keys args ∧ event ≠ .nil) : Inside q' t event := by
  induction args generalizing q with
  | nil => cases raised
  | cons d args ih =>
    by_cases nil : d = .nil
    · subst d
      simp only [register, if_true] at raised
      refine ih queues raised ?_
      rcases inside with inside | ⟨member, key⟩
      · exact Or.inl inside
      · rw [keys_cons args (by simp)] at member
        exact Or.inr ⟨(List.mem_cons.mp member).resolve_left key, key⟩
    · rcases register_error_cases nil raised with ⟨added, rfl⟩ | ⟨q₁, list, added, later⟩
      · rcases add_error added with isnil | isnan
        · exact absurd isnil nil
        · subst d
          rw [keys_nan] at inside
          exact inside.resolve_right (by simp)
      · have inside : Inside q t event ∨ event = d ∨ event ∈ keys args ∧ event ≠ .nil := by
          rcases inside with inside | ⟨member, some⟩
          · exact Or.inl inside
          · by_cases key : d = .nan
            · simp [key, keys_nan] at member
            · rw [keys_cons args key, List.mem_cons] at member
              exact Or.inr (member.imp_right fun member => ⟨member, some⟩)
        cases list with
        | none =>
          obtain ⟨rfl, known⟩ := add_known_inside added
          refine ih queues later ?_
          rcases inside with inside | rfl | later
          · exact Or.inl inside
          · exact Or.inl known
          · exact Or.inr later
        | some l =>
          obtain ⟨-, after⟩ := add_new_inside queues added
          refine ih (add_queues queues added) later ?_
          rcases inside with inside | same | later
          · exact Or.inl ((after event).mpr (Or.inl inside))
          · exact Or.inl ((after event).mpr (Or.inr same))
          · exact Or.inr later

omit [DecidableEq V] [DecidableEq T] in
theorem registered_congr {r r' : Registry V T} (listof : r'.listof = r.listof)
    (lists : r'.lists = r.lists) (t : T) (event : Val V) :
    registered r' t event = registered r t event := by
  unfold registered
  rw [listof, lists]

/-- A failing `awaitany` registers its caller for each value before one that is no key. -/
theorem awaitany_intact {s u : EventSystem.State (Registry V T) V T} {args : List (Val V)}
    (nan : s.registry.listof .nan = none)
    (lists : ∃ q D, Refines s.registry q ∧ WellQueued q D)
    (raised : Raised registryLists s (.awaitany args) u) :
    (u.registry.listof = s.registry.listof ∧ u.registry.lists = s.registry.lists) ↔
      (s.control.yieldable → ∀ event ∈ keys args,
        event = .nil ∨ registered s.registry s.control.running event = true) := by
  obtain ⟨q, D, refines, queues⟩ := lists
  have simulated := register_refines refines queues s.control.running args
  cases raised with
  | stuck still => exact ⟨fun _ yields => absurd yields still, fun _ => ⟨rfl, rfl⟩⟩
  | refused event isawait => cases isawait
  | @registering r msg yields raised =>
    change register registryLists s.control.running s.registry args = _ at raised
    constructor
    · rintro ⟨listof, lists⟩ - event member
      rcases simulated with ⟨r', q', msg', failed, failed', refines'⟩ | ⟨r', q', regs, ended, -⟩
      · rw [raised] at failed
        cases failed
        by_cases nil : event = .nil
        · exact Or.inl nil
        · have inside := register_error_before queues failed' event (Or.inr ⟨member, nil⟩)
          rw [← registered_inside refines', registered_congr listof lists] at inside
          exact Or.inr inside
      · rw [raised] at ended
        cases ended
    · intro known
      rcases register_known nan (known yields) with ⟨msg', same⟩ | ended
      · rw [raised] at same
        cases same
        exact ⟨rfl, rfl⟩
      · rw [raised] at ended
        cases ended
  | @empty r yields ended =>
    change register registryLists s.control.running s.registry args = _ at ended
    constructor
    · rintro - - event member
      rcases simulated with ⟨r', q', msg', failed, -⟩ | ⟨r', q', regs, ended', registers, -⟩
      · rw [ended] at failed
        cases failed
      · rw [ended] at ended'
        cases ended'
        obtain ⟨-, events⟩ := register_inside queues registers
        by_cases nil : event = .nil
        · exact Or.inl nil
        · right
          rw [registered_inside refines]
          by_contra outside
          have listed := (events event).mpr ⟨List.takeWhile_subset _ member, nil, outside⟩
          simp at listed
    · intro known
      rcases register_known nan (known yields) with ⟨msg', same⟩ | same
      · rw [ended] at same
        cases same
      · rw [ended] at same
        cases same
        exact ⟨rfl, rfl⟩

theorem await_intact {s u : EventSystem.State (Registry V T) V T} {event : Val V} {msg : String}
    (raised : EventSystem.await registryLists s event = .raised u msg) : u = s := by
  simp only [EventSystem.await] at raised
  split at raised
  · split at raised
    · cases raised
      rfl
    · cases raised
  · cases raised
    rfl

/-- A failing `awaitall` for values that can be keys registers nothing. -/
theorem awaitall_intact {s u : EventSystem.State (Registry V T) V T} {args : List (Val V)}
    (lists : ∃ q D, Refines s.registry q ∧ WellQueued q D) (key : .nan ∉ args) {msg : String}
    (raised : EventSystem.awaitall registryLists s args = .raised u msg) : u = s := by
  obtain ⟨q, D, refines, queues⟩ := lists
  simp only [EventSystem.awaitall] at raised
  split at raised
  · rcases register_refines refines queues s.control.running args
      with ⟨r', q', msg', failed, failed', -⟩ | ⟨r', q', regs, ended, -, -⟩
    · exact absurd (register_error_nan failed') key
    · rw [ended] at raised
      dsimp only at raised
      split at raised
      · cases raised
      · cases raised
  · cases raised
    rfl

section
variable {s u : QueuedEvents.State (Registry V T) V T} {args : List (Val V)} {msg : String}
variable {len : List (Val V) → ℕ}

/-- The stored events that a failing `awaitall` takes are those before a value that is no key. -/
theorem awaitall_takes {items : Val V → List ℕ} (stored : Holds s.store items)
    (empty : items .nan = [])
    (lists : ∃ q D, Refines s.events.registry q ∧ WellQueued q D)
    (raised : QueuedEvents.awaitall registryLists s args = .raised u msg) :
    u.events = s.events ∧ ∃ rest, onlypending [] s.store (keys args) = .ok (u.store, rest) := by
  unfold QueuedEvents.awaitall at raised
  split at raised
  · rename_i failed
    cases raised
    exact ⟨rfl, onlypending_error stored empty List.not_mem_nil failed⟩
  · rename_i store rest ended
    obtain ⟨raised, same⟩ := lift_raised raised
    have all := onlypending_keys ended List.not_mem_nil
    have key : .nan ∉ rest := fun member =>
      all (((onlypending_kept holds_dequeued stored ended).2.2.events .nan).mp member).1
    refine ⟨awaitall_intact lists key raised, rest, ?_⟩
    rw [keys_all all, same]
    exact ended

theorem awaitall_untouched (wellformed : Wellformed s)
    (raised : QueuedEvents.awaitall registryLists s args = .raised u msg) :
    Intact s u ↔ ∀ event ∈ keys args, queued s.store event = false := by
  obtain ⟨items, stored, nil, nan⟩ := wellformed.stored
  obtain ⟨events, rest, ended⟩ := awaitall_takes stored nan wellformed.lists raised
  have empty : ∀ event, queued s.store event = false ↔ items event = [] := by
    intro event
    rw [← Bool.not_eq_true, stored.queued, not_not]
  constructor
  · intro intact event member
    rw [empty]
    by_contra full
    have key : event ≠ .nil := by
      rintro rfl
      exact full nil
    exact onlypending_unlinks stored ended member key full intact.nextof
  · intro nothing
    have same := onlypending_nothing ended fun event member =>
      dequeue_none stored ((empty event).mp (nothing event member))
    exact ⟨by rw [events], by rw [events], by rw [same], by rw [same]⟩

theorem awaitany_untouched (wellformed : Wellformed s)
    (raised : QueuedEvents.awaitany registryLists len s args = .raised u msg) :
    Intact s u ↔ (s.events.control.yieldable → ∀ event ∈ keys args,
      event = .nil ∨
        registered s.events.registry s.events.control.running event = true) := by
  unfold QueuedEvents.awaitany at raised
  split at raised
  · cases raised
  · obtain ⟨raised, same⟩ := lift_raised raised
    rw [← awaitany_intact wellformed.nan wellformed.lists (awaitany_raised raised)]
    constructor
    · intro intact
      exact ⟨intact.listof, intact.lists⟩
    · rintro ⟨listof, lists⟩
      exact ⟨listof, lists, by rw [same], by rw [same]⟩

theorem await_untouched {event : Val V}
    (raised : QueuedEvents.await registryLists len s event = .raised u msg) : Intact s u := by
  unfold QueuedEvents.await at raised
  split at raised
  · cases raised
  · obtain ⟨raised, same⟩ := lift_raised raised
    have events := await_intact raised
    exact ⟨by rw [events], by rw [events], by rw [same], by rw [same]⟩

end

/-- A call of an await function that fails leaves the lists and the stored events as they were
exactly if it had no stored event to take, or no value to register, before it failed. -/
theorem failed_await_intact (len : List (Val V) → ℕ) (s : QueuedEvents.State (Registry V T) V T)
    (wellformed : Wellformed s) (fuel : ℕ) (a : Act V T) (awaits : ¬ Emits a)
    (u : QueuedEvents.State (Registry V T) V T) (msg : String)
    (raised : QueuedEvents.step registryLists len fuel s a = .raised u msg) :
    Intact s u ↔ Harmless s a := by
  unfold QueuedEvents.step at raised
  split at raised
  · cases a with
    | await event =>
      simp only [QueuedEvents.call] at raised
      split at raised
      · exact iff_of_true (await_untouched raised) trivial
      · cases raised
    | awaitall args =>
      simp only [QueuedEvents.call] at raised
      split at raised
      · exact awaitall_untouched wellformed raised
      · cases raised
    | awaitany args =>
      simp only [QueuedEvents.call] at raised
      split at raised
      · exact awaitany_untouched wellformed raised
      · cases raised
    | _ => exact absurd trivial awaits
  · rename_i loop
    have raised := (lift_raised raised).1
    cases a with
    | await event => simp [EventSystem.step, loop] at raised
    | awaitall args => simp [EventSystem.step, loop] at raised
    | awaitany args => simp [EventSystem.step, loop] at raised
    | _ => exact absurd trivial awaits

/-- A step whose error, if it raises one, is caught. -/
def trial (len : List (Val V) → ℕ) (s : QueuedEvents.State (Registry V T) V T)
    (a : ℕ × Act V T) : Option (QueuedEvents.State (Registry V T) V T) :=
  Outcome.state? (QueuedEvents.step registryLists len a.1 s a.2)

/-- What every step keeps, also when it raises an error. -/
structure Kept (s : QueuedEvents.State (Registry V T) V T) : Prop where
  reached : ∃ q, Reached s.events q
  nan : s.events.registry.listof .nan = none
  stored : ∃ items, Holds s.store items ∧ items .nil = [] ∧ items .nan = []

omit [DecidableEq V] [DecidableEq T] in
theorem Kept.wellformed {s : QueuedEvents.State (Registry V T) V T} (kept : Kept s) :
    Wellformed s where
  lists := by
    obtain ⟨q, reached⟩ := kept.reached
    exact ⟨q.registry, _, reached.refines, reached.loose.queues⟩
  nan := kept.nan
  stored := kept.stored

section
variable {s u : QueuedEvents.State (Registry V T) V T} {store : Store V}

omit [DecidableEq V] [DecidableEq T] in
theorem lift_state {o : EventSystem.Outcome (EventSystem.State (Registry V T) V T)}
    (lifted : Outcome.state? (State.lift store o) = some u) :
    Outcome.state? o = some u.events ∧ u.store = store := by
  cases o with
  | next events =>
    cases lifted
    exact ⟨rfl, rfl⟩
  | raised events msg =>
    cases lifted
    exact ⟨rfl, rfl⟩
  | diverged => cases lifted
  | disabled => cases lifted

theorem Kept.step (kept : Kept s) (fuel : ℕ) (a : Act V T)
    (stored : ∃ items, Holds store items ∧ items .nil = [] ∧ items .nan = [])
    (stepped : Outcome.state? (State.lift store (EventSystem.step registryLists fuel s.events a)) =
      some u) : Kept u := by
  obtain ⟨taken, rfl⟩ := lift_state stepped
  obtain ⟨q, reached⟩ := kept.reached
  have moved : EmitLoop.move registryLists s.events (.act fuel a) = some u.events := taken
  obtain ⟨v, -, reached'⟩ := move_reached reached moved
  exact ⟨⟨v, reached'⟩, step_kept nan_kept fuel (fun _ _ => trivial) kept.nan u.events taken,
    stored⟩

omit [DecidableEq T] in
theorem Kept.deliver (kept : Kept s) (idle : s.events.control.loop = none)
    (stored : ∃ items, Holds store items ∧ items .nil = [] ∧ items .nan = [])
    (values : List (Val V)) : Kept ({ s with store := store }.deliver values) := by
  obtain ⟨q, reached⟩ := kept.reached
  refine ⟨⟨{ q with control := q.control.deliver values }, reached.refines, ?_, ?_, ?_⟩, kept.nan,
    stored⟩
  · exact congrArg (fun c => EventSystem.Control.deliver c values) reached.control
  · rw [deliver_detached, ← idle_detached (reached.control ▸ idle)]
    exact reached.loose.queues
  · exact reached.loose.known

omit [DecidableEq T] in
theorem firstqueued_holds {items : Val V → List ℕ} (holds : Holds store items)
    {args : List (Val V)} {event : Val V} {item : ℕ} {store' : Store V}
    (found : firstqueued store args = some (event, item, store')) :
    ∃ rest, items event = item :: rest ∧ Holds store' (Function.update items event rest) := by
  induction args with
  | nil => cases found
  | cons e args ih =>
    cases queue : items e with
    | nil =>
      simp only [firstqueued, dequeue_none holds queue] at found
      exact ih found
    | cons i rest =>
      obtain ⟨u, dequeued, holds', -⟩ := dequeue_holds holds queue
      simp only [firstqueued, dequeued] at found
      cases found
      exact ⟨rest, queue, holds'⟩

omit [DecidableEq T] in
theorem fewer_empty {items : Val V → List ℕ} (nil : items .nil = []) (nan : items .nan = [])
    {event : Val V} {item : ℕ} {rest : List ℕ} (queue : items event = item :: rest) :
    Function.update items event rest .nil = [] ∧ Function.update items event rest .nan = [] := by
  constructor
  · rw [Function.update_of_ne, nil]
    rintro rfl
    simp [nil] at queue
  · rw [Function.update_of_ne, nan]
    rintro rfl
    simp [nan] at queue

omit [DecidableEq T] in
theorem taken_empty {items : Val V → List ℕ} {seen args : List (Val V)} {event : Val V}
    (empty : items event = []) : taken seen args items event = [] := by
  unfold taken
  split
  · rw [empty]
    rfl
  · exact empty

theorem Kept.emit (kept : Kept s) (fuel : ℕ) (a : Act V T) {event : Val V} {args : List (Val V)}
    {o : EventSystem.Outcome (EventSystem.State (Registry V T) V T)}
    (same : EventSystem.step registryLists fuel s.events a = o)
    (stepped : Outcome.state? (emit registryLists s event args o) = some u) : Kept u := by
  subst o
  obtain ⟨items, holds, nil, nan⟩ := kept.stored
  unfold QueuedEvents.emit at stepped
  split at stepped
  · exact kept.step fuel a kept.stored stepped
  · split at stepped
    · exact kept.step fuel a kept.stored stepped
    · rename_i notnil
      dsimp only at stepped
      have packed := pack_holds holds args
      by_cases isnan : event = .nan
      · subst event
        simp only [Store.enqueue] at stepped
        cases stepped
        exact ⟨kept.reached, kept.nan, items, packed, nil, nan⟩
      · obtain ⟨v, enqueued, holds', -⟩ := enqueue_holds packed ⟨notnil, isnan⟩
          (Nat.lt_succ_self s.store.fresh)
          (fun d member => Nat.lt_irrefl _ (holds.old d s.store.fresh member))
        have enqueued : (s.store.pack args).1.enqueue event (s.store.pack args).2 = .ok v := enqueued
        rw [enqueued] at stepped
        refine kept.step fuel a ⟨_, holds', ?_, ?_⟩ stepped
        · rw [Function.update_of_ne (Ne.symm notnil), nil]
        · rw [Function.update_of_ne (Ne.symm isnan), nan]

variable {len : List (Val V) → ℕ} {args : List (Val V)}

theorem Kept.await (kept : Kept s) (fuel : ℕ) (idle : s.events.control.loop = none)
    {event : Val V} (owns : s.events.control.owns [event])
    (stepped : Outcome.state? (QueuedEvents.await registryLists len s event) = some u) :
    Kept u := by
  obtain ⟨items, holds, nil, nan⟩ := kept.stored
  unfold QueuedEvents.await at stepped
  cases queue : items event with
  | nil =>
    simp only [dequeue_none holds queue] at stepped
    refine kept.step fuel (.await event) kept.stored ?_
    simpa only [EventSystem.step, idle, EventSystem.call, owns, if_true] using stepped
  | cons i rest =>
    obtain ⟨v, dequeued, holds', -⟩ := dequeue_holds holds queue
    simp only [dequeued] at stepped
    cases stepped
    exact kept.deliver idle ⟨_, holds', fewer_empty nil nan queue⟩ _

/-- An `awaitall` that fails keeps the store without the events that it took. -/
theorem Kept.awaitall (kept : Kept s) (fuel : ℕ) (idle : s.events.control.loop = none)
    (owns : s.events.control.owns args)
    (stepped : Outcome.state? (QueuedEvents.awaitall registryLists s args) = some u) :
    Kept u := by
  obtain ⟨items, holds, nil, nan⟩ := kept.stored
  unfold QueuedEvents.awaitall at stepped
  cases ended : onlypending [] s.store args with
  | error e =>
    obtain ⟨store, msg⟩ := e
    simp only [ended] at stepped
    cases stepped
    obtain ⟨rest, ended'⟩ := onlypending_error holds nan List.not_mem_nil ended
    obtain ⟨holds', -⟩ := onlypending_kept holds_dequeued holds ended'
    exact ⟨kept.reached, kept.nan, _, holds', taken_empty nil, taken_empty nan⟩
  | ok p =>
    obtain ⟨store, rest⟩ := p
    simp only [ended] at stepped
    obtain ⟨holds', -, pending⟩ := onlypending_kept holds_dequeued holds ended
    have owns' : s.events.control.owns rest :=
      owns.imp_right fun secret member => secret ((pending.events _).mp member).1
    refine kept.step fuel (.awaitall rest) ⟨_, holds', taken_empty nil, taken_empty nan⟩ ?_
    simpa only [EventSystem.step, idle, EventSystem.call, owns', if_true] using stepped

theorem Kept.awaitany (kept : Kept s) (fuel : ℕ) (idle : s.events.control.loop = none)
    (owns : s.events.control.owns args)
    (stepped : Outcome.state? (QueuedEvents.awaitany registryLists len s args) = some u) :
    Kept u := by
  obtain ⟨items, holds, nil, nan⟩ := kept.stored
  unfold QueuedEvents.awaitany at stepped
  cases found : firstqueued s.store args with
  | none =>
    simp only [found] at stepped
    refine kept.step fuel (.awaitany args) kept.stored ?_
    simpa only [EventSystem.step, idle, EventSystem.call, owns, if_true] using stepped
  | some p =>
    obtain ⟨event, item, store⟩ := p
    simp only [found] at stepped
    cases stepped
    obtain ⟨rest, queue, holds'⟩ := firstqueued_holds holds found
    exact kept.deliver idle ⟨_, holds', fewer_empty nil nan queue⟩ _

theorem Kept.call (kept : Kept s) (fuel : ℕ) (idle : s.events.control.loop = none) {a : Act V T}
    (stepped : Outcome.state? (QueuedEvents.call registryLists len fuel s a) = some u) :
    Kept u := by
  have called : ∀ b, EventSystem.step registryLists fuel s.events b =
      EventSystem.call registryLists fuel s.events b := by
    intro b
    simp only [EventSystem.step, idle]
  cases a with
  | await event =>
    simp only [QueuedEvents.call] at stepped
    split at stepped
    · exact kept.await fuel idle ‹_› stepped
    · cases stepped
  | awaitall args =>
    simp only [QueuedEvents.call] at stepped
    split at stepped
    · exact kept.awaitall fuel idle ‹_› stepped
    · cases stepped
  | awaitany args =>
    simp only [QueuedEvents.call] at stepped
    split at stepped
    · exact kept.awaitany fuel idle ‹_› stepped
    · cases stepped
  | emitone event args =>
    simp only [QueuedEvents.call] at stepped
    split at stepped
    · rename_i owns
      refine kept.emit fuel (.emitone event args) ?_ stepped
      simp only [called, EventSystem.call, owns, if_true]
    · cases stepped
  | emitall event args =>
    simp only [QueuedEvents.call] at stepped
    split at stepped
    · rename_i owns
      refine kept.emit fuel (.emitall event args) ?_ stepped
      simp only [called, EventSystem.call, owns, if_true]
    · cases stepped
  | resume co args =>
    refine kept.step fuel (.resume co args) kept.stored ?_
    rw [called]
    exact stepped
  | yield args =>
    refine kept.step fuel (.yield args) kept.stored ?_
    rw [called]
    exact stepped
  | finish ok args =>
    refine kept.step fuel (.finish ok args) kept.stored ?_
    rw [called]
    exact stepped
  | iterate =>
    refine kept.step fuel .iterate kept.stored ?_
    rw [called]
    exact stepped

end

theorem trial_kept (len : List (Val V) → ℕ) {s u : QueuedEvents.State (Registry V T) V T}
    (kept : Kept s) {a : ℕ × Act V T} (stepped : trial len s a = some u) : Kept u := by
  obtain ⟨fuel, a⟩ := a
  have stepped : Outcome.state? (QueuedEvents.step registryLists len fuel s a) = some u := stepped
  cases idle : s.events.control.loop with
  | some loop =>
    simp only [QueuedEvents.step, idle] at stepped
    exact kept.step fuel a kept.stored stepped
  | none =>
    simp only [QueuedEvents.step, idle] at stepped
    exact kept.call fuel idle stepped

omit [DecidableEq V] in
theorem kept_init (main : T) :
    Kept (State.init main : QueuedEvents.State (Registry V T) V T) where
  reached := ⟨_, reached_init main⟩
  nan := rfl
  stored := ⟨fun _ => [], holds_empty, rfl, rfl⟩

/-- Every state that a program reaches is well formed, whatever fails on the way. -/
theorem run_wellformed (len : List (Val V) → ℕ) {main : T} {acts : List (ℕ × Act V T)}
    {s : QueuedEvents.State (Registry V T) V T}
    (ran : run (trial len) (State.init main) acts = some s) : Wellformed s :=
  (run_invariant Kept (fun _ _ _ kept stepped => trial_kept len kept stepped) (kept_init main)
    ran).wellformed

/-- Coroutine 1 waits for 8 and a failed call left it in the list of 9; an emission of 7 is
stored. A call that fails at its NaN leaves all that as it is. -/
theorem failed_await_intact_stored :
    ∃ s u : QueuedEvents.State (Registry ℕ ℕ) ℕ ℕ,
      run (trial List.length) (State.init 0) [(0, .emitone (.ref 7) [.bool true]),
        (0, .resume 1 []), (0, .awaitany [.ref 9, .nan]), (0, .await (.ref 8))] = some s ∧
      QueuedEvents.step registryLists List.length 0 s (.awaitall [.nil, .ref 8, .nan, .ref 7]) =
        .raised u "index is NaN" ∧
      queued s.store (.ref 7) = true ∧ registered s.events.registry 1 (.ref 8) = true ∧
      Intact s u := by
  have ran : run (trial List.length) (State.init 0 : QueuedEvents.State (Registry ℕ ℕ) ℕ ℕ)
    [(0, .emitone (.ref 7) [.bool true]), (0, .resume 1 []), (0, .awaitany [.ref 9, .nan]),
      (0, .await (.ref 8))] = some _ := rfl
  refine ⟨_, _, ran, rfl, by decide, by decide, ?_⟩
  exact (failed_await_intact List.length _ (run_wellformed _ ran) 0
    (.awaitall [.nil, .ref 8, .nan, .ref 7]) not_false _ _ rfl).mpr (by decide)

/-- `awaitall` of a coroutine that cannot yield takes the event that was stored. -/
theorem failed_awaitall_takes :
    ∃ s u : QueuedEvents.State (Registry ℕ ℕ) ℕ ℕ,
      run (next registryLists List.length) (State.init 0) [(0, .emitone (.ref 7) [])] = some s ∧
      QueuedEvents.step registryLists List.length 0 s (.awaitall [.ref 7]) =
        .raised u "unable to yield" ∧
      queued s.store (.ref 7) = true ∧ queued u.store (.ref 7) = false ∧ ¬ Intact s u := by
  refine ⟨_, _, rfl, rfl, by decide, by decide, ?_⟩
  intro intact
  exact absurd (congrFun intact.nextof (.event (.ref 7))) (by decide)

end
end Coutil.QueuedFailure
