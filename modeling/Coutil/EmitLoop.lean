import Mathlib
import Coutil.EventWake

set_option autoImplicit false

/-! The loop of `emitall` while the coroutines that it resumes do whatever they like: they
await, emit and resume, their calls fail after they registered the caller, they close other
coroutines, and pass `listof` on once they have it. -/
namespace Coutil.EmitLoop
open Runs CircularList EventRegistry EventSystem EventInvariant EventPreservation
open EventRefinement EventAttempt EventWake

inductive Move (V T : Type) where
  | act (fuel : ℕ) (a : Act V T)
  | close (co : T)

section
variable {R V T : Type} [DecidableEq V] [DecidableEq T] (L : Lists V T R)

/-- `coroutine.close` of a suspended coroutine; its registrations stay. -/
def closeco (c : Control V T) (co : T) : Option (Control V T) :=
  match c.loop, c.status co with
  | none, .suspended _ =>
    let c : Control V T := { c with status := Function.update c.status co .dead }
    some (c.deliver [.bool true])
  | _, _ => none

def move (s : State R V T) : Move V T → Option (State R V T)
  | .act fuel a => attempt L s (fuel, a)
  | .close co => (closeco s.control co).map fun c => { s with control := c }

end

section
variable {V T : Type}

/-- What a suspended call registered is a list of that event. -/
def Known (q : Queues V T) (status : T → Status V) : Prop :=
  ∀ t call, status t = .suspended call → ∀ p ∈ regs call, p.2 < q.fresh ∧ q.event p.2 = p.1

/-- What holds whatever the program does. -/
structure Loose (s : State (Queues V T) V T) : Prop where
  queues : WellQueued s.registry (detached s.control)
  known : Known s.registry s.control.status

theorem Known.moved {q q' : Queues V T} {status : T → Status V} (known : Known q status) {x : T}
    (moved : OnlyMoved x q q') : Known q' status := by
  intro t call suspended p member
  obtain ⟨old, event⟩ := known t call suspended p member
  exact ⟨old.trans_le moved.fresh, (moved.event p.2 old).trans event⟩

variable [DecidableEq T]

theorem Known.update {q : Queues V T} {status : T → Status V} (known : Known q status) (x : T)
    {given : Status V} (new : ∀ call, given = .suspended call → ∀ p ∈ regs call,
      p.2 < q.fresh ∧ q.event p.2 = p.1) : Known q (Function.update status x given) := by
  intro t call suspended
  by_cases same : t = x
  · subst t
    exact new call (by simpa using suspended)
  · rw [Function.update_of_ne same] at suspended
    exact known t call suspended

theorem enter_detached (c : Control V T) (co : T) (frame : Frame V) :
    detached (c.enter co frame) = frameDetached frame ++ stackDetached c := by
  simp [detached, Control.enter, stackDetached]

theorem enter_known {q : Queues V T} {c : Control V T} (known : Known q c.status) (co : T)
    (frame : Frame V) : Known q (c.enter co frame).status :=
  known.update co nofun

variable [DecidableEq V]

omit [DecidableEq T] in
theorem deliver_detached {c : Control V T} (values : List (Val V)) :
    detached (c.deliver values) = stackDetached c := rfl

theorem resumed_loose {q : Queues V T} {c : Control V T} {co : T} {frame : Frame V}
    (queues : WellQueued q (frameDetached frame ++ stackDetached c)) (known : Known q c.status)
    {call : Call V} (suspended : c.status co = .suspended call) (fuel : ℕ)
    (values : List (Val V)) :
    Outcome.All Loose (resumed queueLists fuel ⟨q, c.enter co frame⟩ call values) := by
  have entered := enter_known known co frame
  have mine := known co call suspended
  have stack : stackDetached (c.enter co frame) = frameDetached frame ++ stackDetached c := by
    simp [Control.enter, stackDetached]
  have delivers : ∀ {q' : Queues V T} values, OnlyMoved co q q' →
      WellQueued q' (frameDetached frame ++ stackDetached c) →
      Loose ⟨q', (c.enter co frame).deliver values⟩ := by
    intro q' values moved queues
    refine ⟨?_, entered.moved moved⟩
    rw [deliver_detached, stack]
    exact queues
  cases call with
  | start => exact all_next (delivers _ (moved_refl co q) queues)
  | user => exact all_next (delivers _ (moved_refl co q) queues)
  | await event list =>
    simp only [resumed]
    split
    · exact all_next (delivers _ (moved_refl co q) queues)
    · cases list with
      | none =>
        refine all_raised ⟨?_, entered⟩
        rw [enter_detached]
        exact queues
      | some list =>
        obtain ⟨old, event_eq⟩ := mine (event, list) (by simp [EventInvariant.regs])
        exact all_next (delivers _ (remove_moved event co list)
          (remove_queues queues old event_eq co))
  | awaitall args rs count =>
    obtain ⟨q', canceled, queues', moved, -⟩ := cancel_spec queues fuel co rs mine
    have canceled : cancel queueLists fuel q (c.enter co frame).running rs = some q' := canceled
    simp only [resumed, canceled]
    split
    · exact all_next (delivers _ moved queues')
    · split
      · exact all_next (delivers _ (moved_refl co q) queues)
      · apply all_next
        rw [enter_suspend]
        constructor
        · rw [returned_detached]
          exact queues
        · rw [returned_status]
          apply known.update co
          intro call same
          cases same
          exact mine
  | awaitany args rs =>
    obtain ⟨q', canceled, queues', moved, -⟩ := cancel_spec queues fuel co rs mine
    have canceled : cancel queueLists fuel q (c.enter co frame).running rs = some q' := canceled
    simp only [resumed, canceled]
    split
    · exact all_next (delivers _ moved queues')
    · exact all_next (delivers _ moved queues')

theorem resume_loose {q : Queues V T} {c : Control V T} {frame : Frame V}
    (queues : WellQueued q (frameDetached frame ++ stackDetached c)) (known : Known q c.status)
    (fuel : ℕ) (co : T) (values : List (Val V)) :
    Outcome.All Loose (resume queueLists fuel ⟨q, c⟩ co frame values) := by
  have returns : ∀ values, Loose ⟨q, c.returned frame values⟩ := by
    intro values
    constructor
    · rw [returned_detached]
      exact queues
    · rw [returned_status]
      exact known
  simp only [resume]
  split
  · rename_i call suspended
    exact resumed_loose queues known suspended fuel values
  · exact all_next (returns _)
  · exact all_next (returns _)

theorem giveback_detached {c : Control V T} (yields : c.yieldable) (status : Status V)
    (values : List (Val V)) : detached (c.giveback status values) = stackDetached c := by
  cases stack : c.stack with
  | nil => exact absurd stack yields
  | cons p rest =>
    unfold Control.giveback
    rw [stack]
    dsimp only
    rw [returned_detached]
    simp [stackDetached, stack]

theorem giveback_known {q : Queues V T} {c : Control V T} (known : Known q c.status)
    {status : Status V} (new : ∀ call, status = .suspended call → ∀ p ∈ regs call,
      p.2 < q.fresh ∧ q.event p.2 = p.1) (values : List (Val V)) :
    Known q (c.giveback status values).status := by
  unfold Control.giveback
  split
  · exact known
  · rw [returned_status]
    exact known.update c.running new

theorem pops_queues {s : State (Queues V T) V T} (loose : Loose s) {l : ℕ} {e : Val V}
    {args : List (Val V)} {x : T} {q : Queues V T} {b : Act V T} {frame : Frame V}
    (pops : Pops queueLists s l e args x q b frame) :
    WellQueued q (frameDetached frame ++ stackDetached s.control) ∧ OnlyMoved x s.registry q ∧
      ∃ rest, s.registry.queue l = x :: rest ∧ q.queue l = rest := by
  have left : ∀ {p : Queues V T} {rest : List T}, p.queue l = x :: rest →
      (p.remove e x l).queue l = rest := by
    intro p rest queue
    rw [remove_queue, if_pos rfl, queue, List.erase_cons_head]
  cases pops with
  | iterate loop nonempty popped =>
    have popped : s.registry.unlinkhead l = some (x, q) := popped
    have queues := loose.queues
    rw [show detached s.control = (l, e) :: stackDetached s.control by simp [detached, loop]]
      at queues
    obtain ⟨old, event, away⟩ := queues.detached (l, e) (by simp)
    cases queue : s.registry.queue l with
    | nil => simp [Queues.unlinkhead, queue] at popped
    | cons y rest =>
      rw [unlinkhead_eq away queue] at popped
      cases popped
      exact ⟨remove_queues queues old event x, remove_moved e x l, rest, rfl, left queue⟩
  | emitall idle found popped =>
    have popped : (s.registry.detach e).unlinkhead l = some (x, q) := popped
    have queues := detach_queues (idle_detached idle ▸ loose.queues) found
    obtain ⟨old, event, away⟩ := queues.detached (l, e) (by simp)
    cases queue : s.registry.queue l with
    | nil => simp [Queues.unlinkhead, Queues.detach, queue] at popped
    | cons y rest =>
      rw [unlinkhead_eq (q := s.registry.detach e) away queue] at popped
      cases popped
      refine ⟨remove_queues queues old event x, ?_, rest, rfl, left (p := s.registry.detach e) queue⟩
      exact (detach_moved x s.registry e).trans (remove_moved e x l)
  | emitone idle found popped =>
    have popped : s.registry.unlinkone e l = some (x, q) := popped
    have queues := idle_detached idle ▸ loose.queues
    obtain ⟨old, event, -⟩ := queues.installed e l found
    cases queue : s.registry.queue l with
    | nil => simp [Queues.unlinkone, queue] at popped
    | cons y rest =>
      rw [unlinkone_eq found queue] at popped
      cases popped
      exact ⟨remove_queues queues old event x, remove_moved e x l, rest, rfl, left queue⟩

theorem wakes_loose {s : State (Queues V T) V T} (loose : Loose s) {b : Act V T} {wake : Wake V T}
    (wakes : woken queueLists s b = some wake) (fuel : ℕ) :
    Outcome.All Loose (step queueLists fuel s b) := by
  cases wake with
  | emission l e args x =>
    obtain ⟨q, frame, pops⟩ := woken_pops wakes
    obtain ⟨queues, moved, -⟩ := pops_queues loose pops
    rcases pops.step fuel with disabled | resumes
    · rw [disabled]
      exact all_disabled
    · rw [resumes]
      exact resume_loose queues (loose.known.moved moved) fuel x _
  | resume co args =>
    obtain ⟨idle, -⟩ := woken_resume wakes
    rcases resume_step wakes fuel with disabled | ⟨-, resumes⟩
    · rw [disabled]
      exact all_disabled
    · rw [resumes]
      have queues : WellQueued s.registry (frameDetached .user ++ stackDetached s.control) :=
        idle_detached idle ▸ loose.queues
      exact resume_loose queues loose.known fuel co args

-- What a call leaves that returns, raises an error, or gives back control.
omit [DecidableEq T] in
theorem Loose.delivers {s : State (Queues V T) V T} {q : Queues V T} (loose : Loose s)
    (queues : WellQueued q (stackDetached s.control))
    (moved : OnlyMoved s.control.running s.registry q) (values : List (Val V)) :
    Loose ⟨q, s.control.deliver values⟩ :=
  ⟨queues, loose.known.moved moved⟩

omit [DecidableEq T] [DecidableEq V] in
theorem Loose.fails {s : State (Queues V T) V T} {q : Queues V T} (loose : Loose s)
    (idle : s.control.loop = none) (queues : WellQueued q (stackDetached s.control))
    (moved : OnlyMoved s.control.running s.registry q) : Loose ⟨q, s.control⟩ := by
  refine ⟨?_, loose.known.moved moved⟩
  rw [idle_detached idle]
  exact queues

theorem Loose.leaves {s : State (Queues V T) V T} {q : Queues V T} {status : Status V}
    (loose : Loose s) (yields : s.control.yieldable)
    (queues : WellQueued q (stackDetached s.control))
    (moved : OnlyMoved s.control.running s.registry q)
    (new : ∀ call, status = .suspended call → ∀ p ∈ regs call,
      p.2 < q.fresh ∧ q.event p.2 = p.1) (values : List (Val V)) :
    Loose ⟨q, s.control.giveback status values⟩ := by
  refine ⟨?_, giveback_known (loose.known.moved moved) new values⟩
  rw [giveback_detached yields]
  exact queues

theorem Loose.registers {s : State (Queues V T) V T} {q : Queues V T} {args : List (Val V)}
    {rs : List (Val V × ℕ)} {c : Call V} (loose : Loose s) (yields : s.control.yieldable)
    (queues : WellQueued q (stackDetached s.control))
    (registration : Registration s.registry q s.control.running args rs) (own : regs c = rs)
    (values : List (Val V)) : Loose ⟨q, s.control.giveback (.suspended c) values⟩ := by
  apply loose.leaves yields queues registration.moved
  intro call given p member
  cases given
  rw [own] at member
  have registered := registration.registered p member
  exact ⟨registered.old, registered.event⟩

theorem await_loose {s : State (Queues V T) V T} (loose : Loose s) (idle : s.control.loop = none)
    (event : Val V) : Outcome.All Loose (EventSystem.await queueLists s event) := by
  have queues : WellQueued s.registry (stackDetached s.control) := idle_detached idle ▸ loose.queues
  have same := moved_refl s.control.running s.registry
  unfold EventSystem.await
  split
  · rename_i yields
    cases added : queueLists.add s.registry event s.control.running with
    | error msg => exact all_raised (loose.fails idle queues same)
    | ok p =>
      obtain ⟨q, list⟩ := p
      obtain ⟨queues', moved⟩ := add_alone queues added
      apply all_next
      apply loose.leaves yields queues' moved
      intro call given p member
      cases given
      cases list with
      | none => simp [regs] at member
      | some l =>
        obtain rfl : p = (event, l) := by simpa [regs] using member
        exact (add_moved queues added).2.2.2
  · exact all_raised (loose.fails idle queues same)

theorem awaitall_loose {s : State (Queues V T) V T} (loose : Loose s)
    (idle : s.control.loop = none) (args : List (Val V)) :
    Outcome.All Loose (EventSystem.awaitall queueLists s args) := by
  have queues : WellQueued s.registry (stackDetached s.control) := idle_detached idle ▸ loose.queues
  unfold EventSystem.awaitall
  split
  · rename_i yields
    cases registered : register queueLists s.control.running s.registry args with
    | error e =>
      obtain ⟨q', msg⟩ := e
      obtain ⟨queues', moved⟩ := register_error_moved queues registered
      exact all_raised (loose.fails idle queues' moved)
    | ok p =>
      obtain ⟨q', rs⟩ := p
      obtain ⟨queues', registration⟩ := register_spec queues registered
      dsimp only
      split
      · exact all_next (loose.delivers queues' registration.moved _)
      · exact all_next (loose.registers yields queues' registration rfl _)
  · exact all_raised (loose.fails idle queues (moved_refl s.control.running s.registry))

theorem awaitany_loose {s : State (Queues V T) V T} (loose : Loose s)
    (idle : s.control.loop = none) (args : List (Val V)) :
    Outcome.All Loose (EventSystem.awaitany queueLists s args) := by
  have queues : WellQueued s.registry (stackDetached s.control) := idle_detached idle ▸ loose.queues
  unfold EventSystem.awaitany
  split
  · rename_i yields
    cases registered : register queueLists s.control.running s.registry args with
    | error e =>
      obtain ⟨q', msg⟩ := e
      obtain ⟨queues', moved⟩ := register_error_moved queues registered
      exact all_raised (loose.fails idle queues' moved)
    | ok p =>
      obtain ⟨q', rs⟩ := p
      obtain ⟨queues', registration⟩ := register_spec queues registered
      dsimp only
      split
      · exact all_raised (loose.fails idle queues' registration.moved)
      · exact all_next (loose.registers yields queues' registration rfl _)
  · exact all_raised (loose.fails idle queues (moved_refl s.control.running s.registry))

theorem emitone_loose {s : State (Queues V T) V T} (loose : Loose s) (idle : s.control.loop = none)
    (fuel : ℕ) (event : Val V) (args : List (Val V))
    (wakes : woken queueLists s (.emitone event args) = none) :
    Outcome.All Loose (EventSystem.emitone queueLists fuel s event args) := by
  unfold EventSystem.emitone
  cases found : queueLists.find s.registry event with
  | none =>
    exact all_next (loose.delivers (idle_detached idle ▸ loose.queues)
      (moved_refl s.control.running s.registry) _)
  | some list =>
    have empty : queueLists.unlinkone s.registry event list = none := by
      simpa [woken, idle, found] using wakes
    simp only [empty]
    exact all_raised loose

theorem emitall_loose {s : State (Queues V T) V T} (loose : Loose s) (idle : s.control.loop = none)
    (fuel : ℕ) (event : Val V) (args : List (Val V))
    (wakes : woken queueLists s (.emitall event args) = none) :
    Outcome.All Loose (EventSystem.emitall queueLists fuel s event args) := by
  have queues : WellQueued s.registry (stackDetached s.control) := idle_detached idle ▸ loose.queues
  unfold EventSystem.emitall
  cases found : queueLists.find s.registry event with
  | none => exact all_next (loose.delivers queues (moved_refl s.control.running s.registry) _)
  | some list =>
    obtain ⟨x, rest, queue⟩ := List.exists_cons_of_ne_nil (queues.installed event list found).2.2
    have empty : queueLists.unlinkhead (queueLists.detach s.registry event) list = none := by
      simpa [woken, idle, found] using wakes
    change (s.registry.detach event).unlinkhead list = none at empty
    simp [Queues.unlinkhead, Queues.detach, queue] at empty

/-- A call that resumes nobody. -/
theorem call_loose {s : State (Queues V T) V T} (loose : Loose s) (idle : s.control.loop = none)
    (fuel : ℕ) (a : Act V T) (wakes : woken queueLists s a = none) :
    Outcome.All Loose (call queueLists fuel s a) := by
  have queues : WellQueued s.registry (stackDetached s.control) := idle_detached idle ▸ loose.queues
  have same := moved_refl s.control.running s.registry
  cases a with
  | await event =>
    simp only [call]
    split
    · exact await_loose loose idle event
    · exact all_disabled
  | awaitall args =>
    simp only [call]
    split
    · exact awaitall_loose loose idle args
    · exact all_disabled
  | awaitany args =>
    simp only [call]
    split
    · exact awaitany_loose loose idle args
    · exact all_disabled
  | emitone event args =>
    simp only [call]
    split
    · exact emitone_loose loose idle fuel event args wakes
    · exact all_disabled
  | emitall event args =>
    simp only [call]
    split
    · exact emitall_loose loose idle fuel event args wakes
    · exact all_disabled
  | resume co args => simp [woken, idle] at wakes
  | yield args =>
    simp only [call]
    split
    · rename_i allowed
      apply all_next
      apply loose.leaves allowed.2 queues same
      intro call given
      cases given
      exact fun p member => absurd member (by simp [regs])
    · exact all_disabled
  | finish ok args =>
    simp only [call]
    split
    · rename_i allowed
      exact all_next (loose.leaves allowed.2 queues same (fun _ h => by cases h) _)
    · exact all_disabled
  | iterate => exact all_disabled

theorem step_loose {s : State (Queues V T) V T} (loose : Loose s) (fuel : ℕ) (b : Act V T) :
    Outcome.All Loose (step queueLists fuel s b) := by
  cases wakes : woken queueLists s b with
  | some wake => exact wakes_loose loose wakes fuel
  | none =>
    cases loop : s.control.loop with
    | none =>
      simp only [EventSystem.step, loop]
      exact call_loose loose loop fuel b wakes
    | some p =>
      obtain ⟨l, e, args⟩ := p
      simp only [EventSystem.step, loop]
      cases b with
      | iterate =>
        dsimp only
        split
        · rename_i empty
          apply all_next
          have queues := loose.queues
          rw [show detached s.control = (l, e) :: stackDetached s.control by simp [detached, loop]]
            at queues
          exact ⟨drained_queues queues (by simpa [queueLists] using empty), loose.known⟩
        · rename_i nonempty
          have empty : queueLists.unlinkhead s.registry l = none := by
            simpa [woken, loop, nonempty] using wakes
          simp only [emitnext, empty]
          exact all_raised loose
      | _ => exact all_disabled

theorem close_loose {s : State (Queues V T) V T} (loose : Loose s) {co : T} {c : Control V T}
    (closed : closeco s.control co = some c) : Loose { s with control := c } := by
  unfold closeco at closed
  split at closed
  · rename_i idle suspended
    cases closed
    refine ⟨?_, loose.known.update co nofun⟩
    have queues := loose.queues
    rw [idle_detached idle] at queues
    exact queues
  · cases closed

theorem move_loose {s u : State (Queues V T) V T} (loose : Loose s) {m : Move V T}
    (moved : move queueLists s m = some u) : Loose u := by
  cases m with
  | act fuel a => exact step_loose loose fuel a u moved
  | close co =>
    obtain ⟨c, closed, rfl⟩ := Option.map_eq_some_iff.mp moved
    exact close_loose loose closed

/-- A list that is installed nowhere, nor will be. -/
structure Away (l : ℕ) (q : Queues V T) : Prop where
  old : l < q.fresh
  uninstalled : ∀ e, q.listof e ≠ some l

/-- Such a list only loses coroutines. -/
structure Shrunk (l : ℕ) (waiters : List T) (q : Queues V T) : Prop extends Away l q where
  left : List.Sublist (q.queue l) waiters

theorem shrunk_kept (l : ℕ) (waiters : List T) :
    Kept (queueLists : Lists V T (Queues V T)) (fun _ => True) (Shrunk l waiters) where
  add {q e t q' list} _ shrunk added := by
    have added : q.add e t = .ok (q', list) := added
    cases list with
    | none =>
      obtain ⟨rfl, -⟩ := add_known added
      exact shrunk
    | some k =>
      rcases add_new added with ⟨-, -, rfl, rfl⟩ | ⟨found, -, rfl⟩
      · have other : l ≠ q.fresh := Nat.ne_of_lt shrunk.old
        refine ⟨⟨Nat.lt_succ_of_lt shrunk.old, fun d => ?_⟩, ?_⟩
        · by_cases same : d = e
          · subst d
            simpa using other.symm
          · simpa [same] using shrunk.uninstalled d
        · simpa [other] using shrunk.left
      · have other : l ≠ k := by
          rintro rfl
          exact shrunk.uninstalled e found
        refine ⟨⟨shrunk.old, shrunk.uninstalled⟩, ?_⟩
        simpa [other] using shrunk.left
  remove {fuel q e t list q'} shrunk removed := by
    have removed : some (q.remove e t list) = some q' := removed
    cases removed
    refine ⟨⟨shrunk.old, fun d => ?_⟩, ?_⟩
    · simp only [Queues.remove]
      split
      · by_cases same : d = e
        · simp [same]
        · simpa [same] using shrunk.uninstalled d
      · exact shrunk.uninstalled d
    · rw [remove_queue]
      split
      · rename_i same
        subst same
        exact List.Sublist.trans List.erase_sublist shrunk.left
      · exact shrunk.left
  detach {q e} shrunk := by
    refine ⟨⟨shrunk.old, fun d => ?_⟩, shrunk.left⟩
    by_cases same : d = e
    · simp [queueLists, Queues.detach, same]
    · simpa [queueLists, Queues.detach, same] using shrunk.uninstalled d
  unlinkhead {q list x q'} shrunk popped := by
    simp only [queueLists, Queues.unlinkhead] at popped
    split at popped
    · cases popped
    · rename_i head rest queue
      cases popped
      refine ⟨⟨shrunk.old, shrunk.uninstalled⟩, ?_⟩
      by_cases same : l = list
      · subst l
        simpa using (List.sublist_cons_self x rest).trans (queue ▸ shrunk.left)
      · simpa [same] using shrunk.left
  unlinkone {q e list x q'} shrunk found popped := by
    have other : l ≠ list := by
      rintro rfl
      exact shrunk.uninstalled e found
    simp only [queueLists, Queues.unlinkone] at popped
    split at popped
    · cases popped
    · cases popped
      refine ⟨⟨shrunk.old, fun d => ?_⟩, ?_⟩
      · dsimp only
        split
        · by_cases same : d = e
          · simp [same]
          · simpa [same] using shrunk.uninstalled d
        · exact shrunk.uninstalled d
      · simpa [other] using shrunk.left

/-- The coroutine that a step of the loop over the list resumes, with the event and the
arguments that it is given. -/
def turn (l : ℕ) : Option (Wake V T) → List (T × Val V × List (Val V))
  | some (.emission list event args x) => if list = l then [(x, event, args)] else []
  | _ => []

/-- A list that an `emitall` detached, now or before, is away once a coroutine is taken out. -/
theorem pops_away {s : State (Queues V T) V T} (loose : Loose s) {l : ℕ} {e : Val V}
    {args : List (Val V)} {x : T} {q : Queues V T} {b : Act V T}
    (pops : Pops queueLists s l e args x q b (.emitall l e args)) : Away l q := by
  cases pops with
  | iterate loop nonempty popped =>
    obtain ⟨old, event, away⟩ := loose.queues.detached (l, e) (by simp [detached, loop])
    simp only [queueLists, Queues.unlinkhead] at popped
    split at popped
    · cases popped
    · cases popped
      refine ⟨old, fun d found => ?_⟩
      obtain rfl : e = d := event.symm.trans (loose.queues.installed d l found).2.1
      exact away found
  | emitall idle found popped =>
    obtain ⟨old, event, -⟩ := loose.queues.installed e l found
    simp only [queueLists, Queues.unlinkhead, Queues.detach] at popped
    split at popped
    · cases popped
    · cases popped
      refine ⟨old, fun d found' => ?_⟩
      by_cases same : d = e
      · simp [same] at found'
      · have found' : s.registry.listof d = some l := by simpa [same] using found'
        exact same ((loose.queues.installed d l found').2.1.symm.trans event)

theorem pops_shrunk {s u : State (Queues V T) V T} (loose : Loose s) {l : ℕ} {e : Val V}
    {args : List (Val V)} {x : T} {q : Queues V T} {b : Act V T}
    (pops : Pops queueLists s l e args x q b (.emitall l e args)) {fuel : ℕ}
    (stepped : Outcome.state? (step queueLists fuel s b) = some u) :
    Away l u.registry ∧ List.Sublist (x :: u.registry.queue l) (s.registry.queue l) := by
  obtain ⟨-, -, rest, before, after⟩ := pops_queues loose pops
  have shrunk : Shrunk l rest q := ⟨pops_away loose pops, by rw [after]⟩
  rcases pops.step fuel with disabled | resumes
  · rw [disabled] at stepped
    cases stepped
  · rw [resumes] at stepped
    have kept := resume_kept (shrunk_kept l rest) (s := { s with registry := q }) x _ _ shrunk u stepped
    refine ⟨kept.toAway, ?_⟩
    rw [before]
    exact kept.left.cons_cons x

theorem step_shrunk {s u : State (Queues V T) V T} (loose : Loose s) {l : ℕ}
    (away : Away l s.registry) {fuel : ℕ} {b : Act V T}
    (stepped : Outcome.state? (step queueLists fuel s b) = some u) :
    Away l u.registry ∧ List.Sublist ((turn l (woken queueLists s b)).map Prod.fst ++
      u.registry.queue l) (s.registry.queue l) := by
  have kept := step_kept (shrunk_kept l (s.registry.queue l)) _ (a := b) (fun _ _ => trivial)
    ⟨away, List.Sublist.refl _⟩ u stepped
  have quiet : turn l (woken queueLists s b) = [] → Away l u.registry ∧
      List.Sublist ((turn l (woken queueLists s b)).map Prod.fst ++ u.registry.queue l)
        (s.registry.queue l) := by
    intro none
    rw [none]
    exact ⟨kept.toAway, kept.left⟩
  cases wakes : woken queueLists s b with
  | none => exact wakes ▸ quiet (by rw [wakes]; rfl)
  | some wake =>
    cases wake with
    | resume co args => exact wakes ▸ quiet (by rw [wakes]; rfl)
    | emission list e args x =>
      by_cases same : list = l
      · subst list
        obtain ⟨q, frame, pops⟩ := woken_pops wakes
        cases pops with
        | iterate loop nonempty popped =>
          simpa [turn] using pops_shrunk loose (.iterate loop nonempty popped) stepped
        | emitall idle found popped =>
          simpa [turn] using pops_shrunk loose (.emitall idle found popped) stepped
        | emitone idle found popped => exact absurd found (away.uninstalled e)
      · exact wakes ▸ quiet (by rw [wakes]; simp [turn, same])

section
variable {R : Type} {L : Lists V T R} {P : T → Frame V → Prop}

/-- Every call of `coroutine.resume` that has not returned, and the loop at its test, were
made in a frame of this kind. -/
structure Framed (P : T → Frame V → Prop) (c : Control V T) : Prop where
  loop : ∀ l e args, c.loop = some (l, e, args) → P c.running (.emitall l e args)
  stack : ∀ p ∈ c.stack, P p.1 p.2

omit [DecidableEq T] in
theorem returned_framed {c : Control V T} {frame : Frame V} (values : List (Val V))
    (stack : ∀ p ∈ c.stack, P p.1 p.2) (given : P c.running frame) :
    Framed P (c.returned frame values) := by
  cases frame with
  | user => exact ⟨nofun, stack⟩
  | emitone => exact ⟨nofun, stack⟩
  | emitall list event as =>
    refine ⟨?_, stack⟩
    intro l e args loop
    cases loop
    exact given

theorem giveback_framed {c : Control V T} (framed : Framed P c) (status : Status V)
    (values : List (Val V)) : Framed P (c.giveback status values) := by
  unfold Control.giveback
  split
  · exact framed
  · rename_i t frame rest stack
    have all := framed.stack
    rw [stack] at all
    exact returned_framed values (fun p member => all p (List.mem_cons_of_mem _ member))
      (all (t, frame) List.mem_cons_self)

theorem resume_framed {r : R} {c : Control V T} {frame : Frame V} (framed : Framed P c)
    (given : P c.running frame) (fuel : ℕ) (co : T) (values : List (Val V)) :
    Outcome.All (fun u => Framed P u.control) (resume L fuel ⟨r, c⟩ co frame values) := by
  have stack : ∀ p ∈ (c.enter co frame).stack, P p.1 p.2 := by
    intro p member
    rcases List.mem_cons.mp member with rfl | member
    · exact given
    · exact framed.stack p member
  have entered : Framed P (c.enter co frame) := ⟨nofun, stack⟩
  have delivers : ∀ values, Framed P ((c.enter co frame).deliver values) :=
    fun _ => ⟨nofun, stack⟩
  simp only [resume]
  split
  · rename_i call suspended
    cases call with
    | start => exact all_next (delivers _)
    | user => exact all_next (delivers _)
    | await event list =>
      simp only [resumed]
      split
      · exact all_next (delivers _)
      · cases list with
        | none => exact all_raised entered
        | some list =>
          dsimp only
          split
          · exact all_diverged
          · exact all_next (delivers _)
    | awaitall args rs count =>
      simp only [resumed]
      split
      · split
        · exact all_diverged
        · exact all_next (delivers _)
      · split
        · exact all_next (delivers _)
        · apply all_next
          exact giveback_framed entered _ _
    | awaitany args rs =>
      simp only [resumed]
      split
      · exact all_diverged
      · split
        · exact all_next (delivers _)
        · exact all_next (delivers _)
  · exact all_next (returned_framed _ framed.stack given)
  · exact all_next (returned_framed _ framed.stack given)

/-- A call makes no frame of another kind, when `emitall` makes none. -/
theorem step_framed {s : State R V T} (framed : Framed P s.control)
    (user : ∀ x, P x .user) (one : ∀ x, P x .emitone) (fuel : ℕ) (a : Act V T)
    (all : ∀ l e args, a = .emitall e args → L.find s.registry e = some l →
      P s.control.running (.emitall l e args)) :
    Outcome.All (fun u => Framed P u.control) (step L fuel s a) := by
  have delivers : ∀ values, Framed P (s.control.deliver values) := fun _ => ⟨nofun, framed.stack⟩
  have nexts : ∀ l e args, P s.control.running (.emitall l e args) → ∀ r,
      Outcome.All (fun u => Framed P u.control)
        (emitnext L fuel { s with registry := r } l e args) := by
    intro l e args given r
    simp only [emitnext]
    split
    · exact all_raised framed
    · exact resume_framed framed given fuel _ _
  cases loop : s.control.loop with
  | some p =>
    obtain ⟨l, e, args⟩ := p
    simp only [step, loop]
    cases a with
    | iterate =>
      dsimp only
      split
      · exact all_next (delivers _)
      · exact nexts l e args (framed.loop l e args loop) s.registry
    | _ => exact all_disabled
  | none =>
    simp only [step, loop]
    cases a with
    | await event =>
      simp only [call, EventSystem.await]
      split
      · split
        · split
          · exact all_raised framed
          · exact all_next (giveback_framed framed _ _)
        · exact all_raised framed
      · exact all_disabled
    | awaitall args =>
      simp only [call, EventSystem.awaitall]
      split
      · split
        · split
          · exact all_raised framed
          · split
            · exact all_next (delivers _)
            · exact all_next (giveback_framed framed _ _)
        · exact all_raised framed
      · exact all_disabled
    | awaitany args =>
      simp only [call, EventSystem.awaitany]
      split
      · split
        · split
          · exact all_raised framed
          · split
            · exact all_raised framed
            · exact all_next (giveback_framed framed _ _)
        · exact all_raised framed
      · exact all_disabled
    | emitone event args =>
      simp only [call, EventSystem.emitone]
      split
      · split
        · exact all_next (delivers _)
        · split
          · exact all_raised framed
          · exact resume_framed framed (one _) fuel _ _
      · exact all_disabled
    | emitall event args =>
      simp only [call, EventSystem.emitall]
      split
      · split
        · exact all_next (delivers _)
        · rename_i l found
          exact nexts l event args (all l event args rfl found) _
      · exact all_disabled
    | resume co args =>
      simp only [call]
      split
      · exact resume_framed framed (user _) fuel co args
      · exact all_disabled
    | yield args =>
      simp only [call]
      split
      · exact all_next (giveback_framed framed _ _)
      · exact all_disabled
    | finish ok args =>
      simp only [call]
      split
      · exact all_next (giveback_framed framed _ _)
      · exact all_disabled
    | iterate => exact all_disabled

end

/-- The frames of a call of `emitall` that has this list. -/
def Mine (t : T) (l : ℕ) (e : Val V) (args : List (Val V)) (x : T) (frame : Frame V) : Prop :=
  ∀ d as, frame = .emitall l d as → x = t ∧ d = e ∧ as = args

/-- The queues while the call of `emitall` goes on, and after it. -/
structure Emitting (t : T) (l : ℕ) (e : Val V) (args : List (Val V))
    (s : State (Queues V T) V T) : Prop where
  loose : Loose s
  away : Away l s.registry
  framed : Framed (Mine t l e args) s.control

section
variable {t : T} {l : ℕ} {e : Val V} {args : List (Val V)}

def wakes {R : Type} (L : Lists V T R) (s : State R V T) : Move V T → Option (Wake V T)
  | .act _ a => woken L s a
  | .close _ => none

theorem move_emitting {s u : State (Queues V T) V T} (emitting : Emitting t l e args s)
    {m : Move V T} (moved : move queueLists s m = some u) :
    Emitting t l e args u ∧ List.Sublist ((turn l (wakes queueLists s m)).map Prod.fst ++
      u.registry.queue l) (s.registry.queue l) := by
  have loose := move_loose emitting.loose moved
  cases m with
  | act fuel a =>
    obtain ⟨away, order⟩ := step_shrunk emitting.loose emitting.away moved
    have others : ∀ k d as, a = .emitall d as → queueLists.find s.registry d = some k →
        Mine t l e args s.control.running (.emitall k d as) := by
      intro k d as isemit found d' as' same
      cases same
      exact absurd found (emitting.away.uninstalled d)
    have framed := step_framed (L := queueLists) emitting.framed (fun _ => nofun) (fun _ => nofun)
      fuel a others u moved
    exact ⟨⟨loose, away, framed⟩, order⟩
  | close co =>
    obtain ⟨c, closed, rfl⟩ := Option.map_eq_some_iff.mp moved
    unfold closeco at closed
    split at closed
    · cases closed
      exact ⟨⟨loose, emitting.away, ⟨nofun, emitting.framed.stack⟩⟩, List.Sublist.refl _⟩
    · cases closed

/-- The loop resumes with the event and the arguments of its call. -/
theorem turn_values {s : State (Queues V T) V T} (emitting : Emitting t l e args s) (m : Move V T) :
    ∀ p ∈ turn l (wakes queueLists s m), p.2 = (e, args) := by
  intro p member
  cases m with
  | close co => cases member
  | act fuel a =>
    simp only [wakes] at member
    cases woke : woken queueLists s a with
    | none =>
      rw [woke] at member
      cases member
    | some wake =>
      rw [woke] at member
      cases wake with
      | resume co as => cases member
      | emission list d as x =>
        simp only [turn] at member
        split at member
        · rename_i same
          subst same
          obtain rfl := List.mem_singleton.mp member
          obtain ⟨q, frame, pops⟩ := woken_pops woke
          cases pops with
          | iterate loop nonempty popped =>
            obtain ⟨-, rfl, rfl⟩ := emitting.framed.loop list d as loop d as rfl
            rfl
          | emitall idle found popped => exact absurd found (emitting.away.uninstalled d)
          | emitone idle found popped => exact absurd found (emitting.away.uninstalled d)
        · cases member

theorem called_emitting {s u : State (Queues V T) V T} (loose : Loose s)
    (idle : s.control.loop = none) {fuel : ℕ}
    (found : s.registry.listof e = some l)
    (called : Outcome.state? (step queueLists fuel s (.emitall e args)) = some u) :
    Emitting s.control.running l e args u ∧
      (∃ x, turn l (woken queueLists s (.emitall e args)) = [(x, e, args)]) ∧
      List.Sublist ((turn l (woken queueLists s (.emitall e args))).map Prod.fst ++
        u.registry.queue l) (s.registry.queue l) := by
  have queues : WellQueued s.registry (stackDetached s.control) := idle_detached idle ▸ loose.queues
  obtain ⟨-, event, nonempty⟩ := queues.installed e l found
  obtain ⟨x, rest, queue⟩ := List.exists_cons_of_ne_nil nonempty
  have popped : queueLists.unlinkhead (queueLists.detach s.registry e) l =
      some (x, { s.registry.detach e with
        queue := Function.update s.registry.queue l rest }) := by
    simp [queueLists, Queues.unlinkhead, Queues.detach, queue]
  have woke : woken queueLists s (.emitall e args) = some (.emission l e args x) := by
    have found : queueLists.find s.registry e = some l := found
    simp [woken, idle, found, popped]
  obtain ⟨away, order⟩ := pops_shrunk loose (.emitall idle found popped) called
  have framed : Framed (Mine s.control.running l e args) s.control := by
    constructor
    · intro k d as loop
      rw [idle] at loop
      cases loop
    · intro p member d as same
      have inside : (l, d) ∈ stackDetached s.control :=
        List.mem_flatMap.mpr ⟨p, member, by simp [same, frameDetached]⟩
      obtain ⟨-, event', uninstalled⟩ := queues.detached (l, d) inside
      obtain rfl : e = d := event.symm.trans event'
      exact absurd found uninstalled
  have mine : ∀ k d as, (.emitall e args : Act V T) = .emitall d as →
      queueLists.find s.registry d = some k →
      Mine s.control.running l e args s.control.running (.emitall k d as) := by
    intro k d as isemit _ d' as' same
    cases isemit
    cases same
    exact ⟨rfl, rfl, rfl⟩
  have framed' := step_framed (L := queueLists) framed (fun _ _ _ h => by cases h)
    (fun _ _ _ h => by cases h) fuel
    (.emitall e args) mine u called
  refine ⟨⟨step_loose loose fuel _ u called, away, framed'⟩, ⟨x, by rw [woke]; simp [turn]⟩, ?_⟩
  rw [woke]
  simpa [turn] using order

end

/-- The tables and the queues after the same moves. -/
structure Reached (s : State (Registry V T) V T) (q : State (Queues V T) V T) : Prop where
  refines : Refines s.registry q.registry
  control : s.control = q.control
  loose : Loose q

theorem move_reached {s u : State (Registry V T) V T} {q : State (Queues V T) V T}
    (reached : Reached s q) {m : Move V T} (moved : move registryLists s m = some u) :
    ∃ v, move queueLists q m = some v ∧ Reached u v := by
  obtain ⟨refines, control, loose⟩ := reached
  obtain ⟨r, c⟩ := s
  obtain ⟨q, c'⟩ := q
  obtain rfl : c = c' := control
  cases m with
  | act fuel a =>
    have simulated := step_refines refines loose.queues fuel a
    have moved : Outcome.state? (step registryLists fuel ⟨r, c⟩ a) = some u := moved
    cases outcome : step registryLists fuel ⟨r, c⟩ a with
    | next u' =>
      rw [outcome] at moved simulated
      cases moved
      cases outcome' : step queueLists fuel ⟨q, c⟩ a with
      | next v =>
        rw [outcome'] at simulated
        have taken : move queueLists ⟨q, c⟩ (.act fuel a) = some v := by
          simp [move, attempt, outcome', Outcome.state?]
        have loose' := move_loose loose taken
        cases simulated with
        | next c' refines' => exact ⟨_, taken, refines', rfl, loose'⟩
      | _ =>
        rw [outcome'] at simulated
        cases simulated
    | raised u' msg =>
      rw [outcome] at moved simulated
      cases moved
      cases outcome' : step queueLists fuel ⟨q, c⟩ a with
      | raised v msg' =>
        rw [outcome'] at simulated
        have taken : move queueLists ⟨q, c⟩ (.act fuel a) = some v := by
          simp [move, attempt, outcome', Outcome.state?]
        have loose' := move_loose loose taken
        cases simulated with
        | raised c' msg refines' => exact ⟨_, taken, refines', rfl, loose'⟩
      | _ =>
        rw [outcome'] at simulated
        cases simulated
    | diverged =>
      rw [outcome] at moved
      cases moved
    | disabled =>
      rw [outcome] at moved
      cases moved
  | close co =>
    obtain ⟨c', closed, rfl⟩ := Option.map_eq_some_iff.mp moved
    have taken : move queueLists ⟨q, c⟩ (.close co) = some ⟨q, c'⟩ := by
      have closed : closeco c co = some c' := closed
      simp [move, closed]
    exact ⟨_, taken, refines, rfl, move_loose loose taken⟩

omit [DecidableEq V] in
theorem reached_init (main : T) :
    Reached (⟨Registry.empty, Control.init main⟩ : State (Registry V T) V T)
      ⟨Queues.empty, Control.init main⟩ := by
  have inv := init_inv (V := V) main
  refine ⟨refines_empty, rfl, inv.queues, ?_⟩
  intro t call suspended p member
  have registered := (inv.waiting t call suspended).registered p member
  exact ⟨registered.old, registered.event⟩

theorem run_reached {main : T} {ms : List (Move V T)} {s : State (Registry V T) V T}
    (ran : run (move registryLists) ⟨Registry.empty, Control.init main⟩ ms = some s) :
    ∃ q, Reached s q := by
  have simulates : ∀ (s : State (Registry V T) V T) (t : State (Queues V T) V T) (m : Move V T) u,
      Reached s t → move registryLists s m = some u →
        ∃ v, move queueLists t m = some v ∧ Reached u v :=
    fun s t m u reached moved => move_reached reached moved
  obtain ⟨q, -, reached⟩ := run_simulation Reached simulates (reached_init main) ran
  exact ⟨q, reached⟩

theorem reached_wakes {s : State (Registry V T) V T} {q : State (Queues V T) V T}
    (reached : Reached s q) (m : Move V T) : wakes registryLists s m = wakes queueLists q m := by
  cases m with
  | act fuel a => exact woken_refines reached.refines reached.control a
  | close co => rfl

/-- The coroutines that the loop over the list resumes in a run, in order, each with what it
is given. -/
def turns (l : ℕ) : State (Registry V T) V T → List (Move V T) → List (T × Val V × List (Val V))
  | _, [] => []
  | s, m :: ms => turn l (wakes registryLists s m) ++
      match move registryLists s m with
      | none => []
      | some u => turns l u ms

/-- The next iteration of the loop resumes the first coroutine of the list. -/
def Iterates (o : Outcome (State (Registry V T) V T)) (fuel : ℕ) (c : Control V T) (l : ℕ)
    (e : Val V) (args : List (Val V)) (waiters : List T) : Prop :=
  ∀ x rest, waiters = x :: rest → ∃ r : Registry V T, Represents (r.lists l) rest ∧
    o = resume registryLists fuel ⟨r, c⟩ x (.emitall l e args) (.listof :: e :: args)

/-- A call of `emitall` after some moves: whom its loop has resumed, who is left in its list,
and what the loop does next when the coroutine that it resumed has given control back. -/
structure Emitted (t : T) (l : ℕ) (e : Val V) (args : List (Val V)) (waiters : List T)
    (log : List (T × Val V × List (Val V))) (left : List T) (s : State (Registry V T) V T) :
    Prop where
  order : List.Sublist (log.map Prod.fst ++ left) waiters
  values : ∀ p ∈ log, p.2 = (e, args)
  bounded : log.length ≤ waiters.length
  mine : ∀ d as, s.control.loop = some (l, d, as) → s.control.running = t ∧ d = e ∧ as = args
  goes : s.control.loop = some (l, e, args) → ∀ fuel,
    (left = [] → step registryLists fuel s .iterate =
      .next { s with control := s.control.deliver [.bool true] }) ∧
    Iterates (step registryLists fuel s .iterate) fuel s.control l e args left

theorem emitnext_iterates {s : State (Registry V T) V T} {l : ℕ} {waiters : List T}
    (represents : Represents (s.registry.lists l) waiters) (fuel : ℕ) (e : Val V)
    (args : List (Val V)) :
    Iterates (emitnext registryLists fuel s l e args) fuel s.control l e args waiters := by
  rintro x rest rfl
  obtain ⟨circle, popped, after⟩ := represents_pop represents
  refine ⟨{ s.registry with lists := Function.update s.registry.lists l circle }, ?_, ?_⟩
  · simpa using after
  · simp [emitnext, registryLists, unlinkhead, popped]

theorem emitting_goes {l : ℕ} {e : Val V} {args : List (Val V)}
    {s : State (Registry V T) V T} {q : State (Queues V T) V T} (reached : Reached s q)
    (loop : s.control.loop = some (l, e, args)) (fuel : ℕ) :
    (q.registry.queue l = [] → step registryLists fuel s .iterate =
      .next { s with control := s.control.deliver [.bool true] }) ∧
    Iterates (step registryLists fuel s .iterate) fuel s.control l e args (q.registry.queue l) := by
  have represents := reached.refines.lists l
  constructor
  · intro empty
    have tail := represents.tail_none.mpr empty
    simp [step, loop, registryLists, tail]
  · intro x rest queue
    have some : (s.registry.lists l).tail ≠ none := by
      intro tail
      rw [represents.tail_none.mp tail] at queue
      cases queue
    have nonempty : registryLists.isEmpty s.registry l = false := by
      cases tail : (s.registry.lists l).tail with
      | none => exact absurd tail some
      | some z => simp [registryLists, tail]
    have iterates := emitnext_iterates represents fuel e args x rest queue
    simpa only [step, loop, nonempty, Bool.false_eq_true, if_false] using iterates

section
variable {t : T} {l : ℕ} {e : Val V} {args : List (Val V)}

theorem run_emitting {s u : State (Registry V T) V T} {q : State (Queues V T) V T}
    (reached : Reached s q) (emitting : Emitting t l e args q) {ms : List (Move V T)}
    (ran : run (move registryLists) s ms = some u) :
    ∃ v, Reached u v ∧ Emitting t l e args v ∧ (∀ p ∈ turns l s ms, p.2 = (e, args)) ∧
      List.Sublist ((turns l s ms).map Prod.fst ++ v.registry.queue l) (q.registry.queue l) := by
  induction ms generalizing s q with
  | nil =>
    cases ran
    exact ⟨q, reached, emitting, by simp [turns], by simp [turns]⟩
  | cons m ms ih =>
    obtain ⟨w, moved, ran⟩ := run_cons.mp ran
    obtain ⟨p, moved', reached'⟩ := move_reached reached moved
    obtain ⟨emitting', order⟩ := move_emitting emitting moved'
    obtain ⟨v, final, emitting'', values, order'⟩ := ih reached' emitting' ran
    refine ⟨v, final, emitting'', ?_, ?_⟩
    · intro p member
      simp only [turns, moved, List.mem_append] at member
      rcases member with member | member
      · rw [reached_wakes reached] at member
        exact turn_values emitting m p member
      · exact values p member
    · simp only [turns, moved, reached_wakes reached, List.map_append, List.append_assoc]
      exact (order'.append_left _).trans order

theorem emitting_emitted {s : State (Registry V T) V T} {q : State (Queues V T) V T}
    (reached : Reached s q) (emitting : Emitting t l e args q) {waiters : List T}
    {log : List (T × Val V × List (Val V))} (values : ∀ p ∈ log, p.2 = (e, args))
    (order : List.Sublist (log.map Prod.fst ++ q.registry.queue l) waiters) :
    Emitted t l e args waiters log (q.registry.queue l) s where
  order := order
  values := values
  bounded := by
    have bound := order.length_le
    rw [List.length_append, List.length_map] at bound
    omega
  mine d as loop := by
    have framed := emitting.framed.loop l d as (reached.control ▸ loop) d as rfl
    rw [reached.control]
    exact framed
  goes loop fuel := emitting_goes reached loop fuel

end

/-- Whatever the program did before and does while the loop runs, a call of `emitall` for
which somebody waits resumes those who waited, in the order in which they registered, each
once, with the event and the arguments; it passes over nobody but those who left its list
before, and returns true when the list is empty. -/
theorem emitall_resumes_waiters (main : T) (ms : List (Move V T)) (s : State (Registry V T) V T)
    (ran : run (move registryLists) ⟨Registry.empty, Control.init main⟩ ms = some s)
    (idle : s.control.loop = none) (e : Val V) (args : List (Val V))
    (owns : s.control.owns (e :: args)) (fuel : ℕ) :
    (s.registry.listof e = none → step registryLists fuel s (.emitall e args) =
      .next { s with control := s.control.deliver [.bool false] }) ∧
    ∀ l, s.registry.listof e = some l → ∃ waiters, waiters ≠ [] ∧
      Represents (s.registry.lists l) waiters ∧
      Iterates (step registryLists fuel s (.emitall e args)) fuel s.control l e args waiters ∧
      ∀ ns u, run (move registryLists) s (.act fuel (.emitall e args) :: ns) = some u →
        ∃ left, Represents (u.registry.lists l) left ∧
          Emitted s.control.running l e args waiters
            (turns l s (.act fuel (.emitall e args) :: ns)) left u ∧
          ∀ os v, run (move registryLists) u os = some v →
            ∃ left', Represents (v.registry.lists l) left' ∧
              List.Sublist ((turns l u os).map Prod.fst ++ left') left := by
  obtain ⟨q, reached⟩ := run_reached ran
  constructor
  · intro none
    have found : registryLists.find s.registry e = Option.none := none
    simp only [step, idle, call, owns, if_true, emitall, found]
  · intro l found
    have found' : q.registry.listof e = some l := reached.refines.listof ▸ found
    have idle' : q.control.loop = none := reached.control ▸ idle
    have queues : WellQueued q.registry (stackDetached q.control) :=
      idle_detached idle' ▸ reached.loose.queues
    refine ⟨q.registry.queue l, (queues.installed e l found').2.2, reached.refines.lists l, ?_, ?_⟩
    · have found : registryLists.find s.registry e = some l := found
      have iterates := emitnext_iterates (s := ⟨detach s.registry e, s.control⟩)
        (reached.refines.lists l) fuel e args
      simp only [step, idle, call, owns, if_true, emitall, found]
      exact iterates
    · intro ns u ran
      obtain ⟨w, moved, ran⟩ := run_cons.mp ran
      obtain ⟨p, moved', reached'⟩ := move_reached reached moved
      obtain ⟨emitting, ⟨x, first⟩, order⟩ := called_emitting reached.loose idle' found' moved'
      obtain ⟨v, reached'', emitting', values, order'⟩ := run_emitting reached' emitting ran
      have woke : wakes registryLists s (.act fuel (.emitall e args)) =
          woken queueLists q (.emitall e args) := reached_wakes reached _
      refine ⟨v.registry.queue l, reached''.refines.lists l, ?_, ?_⟩
      · rw [reached.control]
        apply emitting_emitted reached'' emitting'
        · intro p member
          simp only [turns, moved, List.mem_append, woke, first] at member
          rcases member with member | member
          · obtain rfl := List.mem_singleton.mp member
            rfl
          · exact values p member
        · simp only [turns, moved, woke, List.map_append, List.append_assoc]
          exact (order'.append_left _).trans order
      · intro os z ran
        obtain ⟨y, reached''', -, -, order''⟩ := run_emitting reached'' emitting' ran
        exact ⟨y.registry.queue l, reached'''.refines.lists l, order''⟩

/-- The first of two coroutines cancels the third and waits again while the loop runs. -/
theorem emitall_resumes_waiters_canceled :
    ∃ s u : State (Registry ℕ ℕ) ℕ ℕ,
      run (move registryLists) ⟨Registry.empty, Control.init 0⟩
        [.act 0 (.resume 1 []), .act 0 (.await (.ref 7)), .act 0 (.resume 2 []),
          .act 0 (.await (.ref 7)), .act 0 (.resume 3 []), .act 0 (.await (.ref 7))] = some s ∧
      run (move registryLists) s
        [.act 3 (.emitall (.ref 7) [.bool true]), .act 3 (.resume 3 []), .act 0 (.yield []),
          .act 0 (.await (.ref 7)), .act 3 .iterate] = some u ∧
      turns 0 s [.act 3 (.emitall (.ref 7) [.bool true]), .act 3 (.resume 3 []), .act 0 (.yield []),
          .act 0 (.await (.ref 7)), .act 3 .iterate] =
        [(1, .ref 7, [.bool true]), (2, .ref 7, [.bool true])] ∧
      u.registry.listof (.ref 7) = some 1 ∧
      ∃ waiters, Represents (s.registry.lists 0) waiters ∧
        ∃ left, Represents (u.registry.lists 0) left ∧ List.Sublist ([1, 2] ++ left) waiters := by
  obtain ⟨s, ran⟩ : ∃ s : State (Registry ℕ ℕ) ℕ ℕ,
      run (move registryLists) ⟨Registry.empty, Control.init 0⟩
        [.act 0 (.resume 1 []), .act 0 (.await (.ref 7)), .act 0 (.resume 2 []),
          .act 0 (.await (.ref 7)), .act 0 (.resume 3 []), .act 0 (.await (.ref 7))] = some s :=
    ⟨_, rfl⟩
  have computed : (run (move registryLists) (⟨Registry.empty, Control.init 0⟩ :
      State (Registry ℕ ℕ) ℕ ℕ)
      [.act 0 (.resume 1 []), .act 0 (.await (.ref 7)), .act 0 (.resume 2 []),
        .act 0 (.await (.ref 7)), .act 0 (.resume 3 []), .act 0 (.await (.ref 7))]).map
      (fun s => (s.control.loop, s.registry.listof (.ref 7),
        turns 0 s [.act 3 (.emitall (.ref 7) [.bool true]), .act 3 (.resume 3 []),
          .act 0 (.yield []), .act 0 (.await (.ref 7)), .act 3 .iterate],
        (run (move registryLists) s [.act 3 (.emitall (.ref 7) [.bool true]),
          .act 3 (.resume 3 []), .act 0 (.yield []), .act 0 (.await (.ref 7)),
          .act 3 .iterate]).map (fun u => u.registry.listof (.ref 7)))) =
      some (none, some 0, [(1, .ref 7, [.bool true]), (2, .ref 7, [.bool true])],
        some (some 1)) := by
    rfl
  rw [ran] at computed
  simp only [Option.map_some, Option.some.injEq, Prod.mk.injEq] at computed
  obtain ⟨idle, found, turned, installed⟩ := computed
  obtain ⟨u, later, installed⟩ := Option.map_eq_some_iff.mp installed
  obtain ⟨waiters, -, represents, -, after⟩ := (emitall_resumes_waiters 0 _ s ran idle
    (.ref 7) [.bool true] (Or.inr (by decide)) 3).2 0 found
  obtain ⟨left, represents', emitted, -⟩ := after [.act 3 (.resume 3 []), .act 0 (.yield []),
    .act 0 (.await (.ref 7)), .act 3 .iterate] u later
  refine ⟨s, u, ran, later, turned, installed, waiters, represents, left, represents', ?_⟩
  have order := emitted.order
  rw [turned] at order
  exact order

end
end Coutil.EmitLoop
