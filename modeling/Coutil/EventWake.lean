import Coutil.EventAttempt
import Coutil.EventRefinement

set_option autoImplicit false

/-! Which coroutine a step resumes, and with what: the first one of a list, by an emission, or
one that the program names. Nothing else changes for any other coroutine. -/
namespace Coutil.EventWake
open EventRegistry EventSystem EventInvariant EventPreservation EventRefinement EventAttempt

inductive Wake (V T : Type) where
  | emission (list : ℕ) (event : Val V) (args : List (Val V)) (thread : T)
  | resume (thread : T) (args : List (Val V))
  deriving DecidableEq

def Wake.thread {V T : Type} : Wake V T → T
  | .emission _ _ _ thread => thread
  | .resume thread _ => thread

section
variable {R V T : Type} (L : Lists V T R)

def woken (s : State R V T) (a : Act V T) : Option (Wake V T) :=
  match s.control.loop, a with
  | some (list, event, args), .iterate =>
    if L.isEmpty s.registry list then none
    else (L.unlinkhead s.registry list).map fun p => .emission list event args p.1
  | none, .emitall event args =>
    (L.find s.registry event).bind fun list =>
      (L.unlinkhead (L.detach s.registry event) list).map fun p => .emission list event args p.1
  | none, .emitone event args =>
    (L.find s.registry event).bind fun list =>
      (L.unlinkone s.registry event list).map fun p => .emission list event args p.1
  | none, .resume co args => some (.resume co args)
  | _, _ => none

/-- The coroutine that a step concerns. -/
def mover (s : State R V T) (a : Act V T) : T :=
  match woken L s a with
  | some wake => wake.thread
  | none => s.control.running

/-- How an emission takes a coroutine out of a list, and the frame it resumes it in. -/
inductive Pops (s : State R V T) (list : ℕ) (event : Val V) (args : List (Val V)) (thread : T)
    (r : R) : Act V T → Frame V → Prop
  | iterate (loop : s.control.loop = some (list, event, args))
      (nonempty : L.isEmpty s.registry list = false)
      (popped : L.unlinkhead s.registry list = some (thread, r)) :
      Pops s list event args thread r .iterate (.emitall list event args)
  | emitall (idle : s.control.loop = none) (found : L.find s.registry event = some list)
      (popped : L.unlinkhead (L.detach s.registry event) list = some (thread, r)) :
      Pops s list event args thread r (.emitall event args) (.emitall list event args)
  | emitone (idle : s.control.loop = none) (found : L.find s.registry event = some list)
      (popped : L.unlinkone s.registry event list = some (thread, r)) :
      Pops s list event args thread r (.emitone event args) .emitone

variable {L} {s : State R V T} {a : Act V T}

theorem woken_pops {list : ℕ} {event : Val V} {args : List (Val V)} {thread : T}
    (wakes : woken L s a = some (.emission list event args thread)) :
    ∃ r frame, Pops L s list event args thread r a frame := by
  unfold woken at wakes
  split at wakes
  · rename_i l e as loop
    split at wakes
    · cases wakes
    · rename_i nonempty
      obtain ⟨p, popped, same⟩ := Option.map_eq_some_iff.mp wakes
      cases same
      exact ⟨p.2, _, .iterate loop (by simpa using nonempty) popped⟩
  · rename_i e as idle
    obtain ⟨l, found, wakes⟩ := Option.bind_eq_some_iff.mp wakes
    obtain ⟨p, popped, same⟩ := Option.map_eq_some_iff.mp wakes
    cases same
    exact ⟨p.2, _, .emitall idle found popped⟩
  · rename_i e as idle
    obtain ⟨l, found, wakes⟩ := Option.bind_eq_some_iff.mp wakes
    obtain ⟨p, popped, same⟩ := Option.map_eq_some_iff.mp wakes
    cases same
    exact ⟨p.2, _, .emitone idle found popped⟩
  · cases wakes
  · cases wakes

theorem woken_resume {co : T} {args : List (Val V)}
    (wakes : woken L s a = some (.resume co args)) :
    s.control.loop = none ∧ a = .resume co args := by
  unfold woken at wakes
  split at wakes
  · split at wakes
    · cases wakes
    · obtain ⟨p, -, same⟩ := Option.map_eq_some_iff.mp wakes
      cases same
  · obtain ⟨l, -, wakes⟩ := Option.bind_eq_some_iff.mp wakes
    obtain ⟨p, -, same⟩ := Option.map_eq_some_iff.mp wakes
    cases same
  · obtain ⟨l, -, wakes⟩ := Option.bind_eq_some_iff.mp wakes
    obtain ⟨p, -, same⟩ := Option.map_eq_some_iff.mp wakes
    cases same
  · rename_i idle
    cases wakes
    exact ⟨idle, rfl⟩
  · cases wakes

variable [DecidableEq V] [DecidableEq T]

/-- The step of an emission that takes a coroutine out of a list is to resume it. -/
theorem Pops.step {list : ℕ} {event : Val V} {args : List (Val V)} {thread : T} {r : R}
    {frame : Frame V} (pops : Pops L s list event args thread r a frame) (fuel : ℕ) :
    step L fuel s a = .disabled ∨ step L fuel s a =
      resume L fuel { s with registry := r } thread frame (.listof :: event :: args) := by
  cases pops with
  | iterate loop nonempty popped =>
    right
    simp [EventSystem.step, loop, nonempty, emitnext, popped]
  | emitall idle found popped =>
    simp only [EventSystem.step, idle, call]
    split
    · right
      simp only [EventSystem.emitall, found, emitnext, popped]
    · exact Or.inl rfl
  | emitone idle found popped =>
    simp only [EventSystem.step, idle, call]
    split
    · right
      simp only [EventSystem.emitone, found, popped]
    · exact Or.inl rfl

theorem resume_step {co : T} {args : List (Val V)}
    (wakes : woken L s a = some (.resume co args)) (fuel : ℕ) :
    step L fuel s a = .disabled ∨
      (s.control.owns args ∧ step L fuel s a = resume L fuel s co .user args) := by
  obtain ⟨idle, rfl⟩ := woken_resume wakes
  simp only [step, idle, call]
  split
  · rename_i owns
    exact Or.inr ⟨owns, rfl⟩
  · exact Or.inl rfl

end

section
variable {V T : Type}

/-- Nothing changes but for one coroutine. -/
structure Alone (x : T) (s u : State (Queues V T) V T) : Prop where
  moved : OnlyMoved x s.registry u.registry
  status : ∀ t, t ≠ x → u.control.status t = s.control.status t

theorem moved_refl (x : T) (q : Queues V T) : OnlyMoved x q q :=
  ⟨fun _ _ _ => Iff.rfl, fun _ _ => rfl, le_rfl⟩

theorem alone_same (x : T) (q : Queues V T) (c : Control V T) {c' : Control V T}
    (status : c'.status = c.status) : Alone x ⟨q, c⟩ ⟨q, c'⟩ :=
  ⟨moved_refl x q, fun t _ => congrFun status t⟩

theorem Alone.after {x : T} {q q' : Queues V T} {c : Control V T} {u : State (Queues V T) V T}
    (moved : OnlyMoved x q q') (alone : Alone x ⟨q', c⟩ u) : Alone x ⟨q, c⟩ u :=
  ⟨moved.trans alone.moved, alone.status⟩

variable [DecidableEq T]

theorem enter_status (c : Control V T) (co : T) (frame : Frame V) {t : T} (other : t ≠ co) :
    (c.enter co frame).status t = c.status t :=
  Function.update_of_ne other _ _

omit [DecidableEq T] in
theorem unlinkhead_moved {q q' : Queues V T} {l : ℕ} {x : T}
    (popped : q.unlinkhead l = some (x, q')) : OnlyMoved x q q' := by
  unfold Queues.unlinkhead at popped
  split at popped
  · cases popped
  · rename_i head rest queue
    cases popped
    refine ⟨?_, fun _ _ => rfl, le_rfl⟩
    intro k y other
    by_cases same : k = l
    · subst k
      simp [queue, other]
    · simp [same]

variable [DecidableEq V]

omit [DecidableEq T] in
theorem detach_moved (x : T) (q : Queues V T) (e : Val V) : OnlyMoved x q (q.detach e) :=
  ⟨fun _ _ _ => Iff.rfl, fun _ _ => rfl, le_rfl⟩

omit [DecidableEq T] in
theorem unlinkone_moved {q q' : Queues V T} {e : Val V} {l : ℕ} {x : T}
    (popped : q.unlinkone e l = some (x, q')) : OnlyMoved x q q' := by
  unfold Queues.unlinkone at popped
  split at popped
  · cases popped
  · rename_i head rest queue
    cases popped
    refine ⟨?_, fun _ _ => rfl, le_rfl⟩
    intro k y other
    by_cases same : k = l
    · subst k
      simp [queue, other]
    · simp [same]

theorem cancel_moved {fuel : ℕ} {q q' : Queues V T} {x : T} {regs : List (Val V × ℕ)}
    (canceled : cancel queueLists fuel q x regs = some q') : OnlyMoved x q q' := by
  induction regs generalizing q with
  | nil =>
    cases canceled
    exact moved_refl x q'
  | cons p regs ih => exact (remove_moved p.1 x p.2).trans (ih canceled)

theorem giveback_status (c : Control V T) (status : Status V) (values : List (Val V)) {t : T}
    (other : t ≠ c.running) : (c.giveback status values).status t = c.status t := by
  unfold Control.giveback
  split
  · rfl
  · rw [returned_status]
    exact Function.update_of_ne other _ _

theorem resumed_alone {fuel : ℕ} {q : Queues V T} {c : Control V T} (call : Call V)
    (values : List (Val V)) :
    Outcome.All (Alone c.running ⟨q, c⟩) (resumed queueLists fuel ⟨q, c⟩ call values) := by
  cases call with
  | start => exact all_next (alone_same _ q c rfl)
  | user => exact all_next (alone_same _ q c rfl)
  | await event list =>
    simp only [resumed]
    split
    · exact all_next (alone_same _ q c rfl)
    · cases list with
      | none => exact all_raised (alone_same _ q c rfl)
      | some list => exact all_next ⟨remove_moved event c.running list, fun _ _ => rfl⟩
  | awaitall args regs count =>
    simp only [resumed]
    split
    · cases canceled : cancel queueLists fuel q c.running regs with
      | none => exact all_diverged
      | some r => exact all_next ⟨cancel_moved canceled, fun _ _ => rfl⟩
    · split
      · exact all_next (alone_same _ q c rfl)
      · exact all_next ⟨moved_refl _ q, fun t other => giveback_status c _ _ other⟩
  | awaitany args regs =>
    simp only [resumed]
    cases canceled : cancel queueLists fuel q c.running regs with
    | none => exact all_diverged
    | some r =>
      dsimp only
      split
      · exact all_next ⟨cancel_moved canceled, fun _ _ => rfl⟩
      · exact all_next ⟨cancel_moved canceled, fun _ _ => rfl⟩

theorem resume_alone {fuel : ℕ} {q : Queues V T} {c : Control V T} (co : T) (frame : Frame V)
    (values : List (Val V)) :
    Outcome.All (Alone co ⟨q, c⟩) (resume queueLists fuel ⟨q, c⟩ co frame values) := by
  simp only [resume]
  split
  · intro u reached
    obtain ⟨moved, status⟩ := resumed_alone _ values u reached
    exact ⟨moved, fun t other => (status t other).trans (enter_status c co frame other)⟩
  · exact all_next (alone_same co q c (returned_status c frame _))
  · exact all_next (alone_same co q c (returned_status c frame _))

theorem add_alone {q q' : Queues V T} {D : List (ℕ × Val V)} (queues : WellQueued q D)
    {e : Val V} {t : T} {list : Option ℕ} (added : q.add e t = .ok (q', list)) :
    WellQueued q' D ∧ OnlyMoved t q q' := by
  cases list with
  | none =>
    obtain ⟨rfl, -⟩ := add_known added
    exact ⟨queues, moved_refl t q'⟩
  | some l => exact ⟨add_queues queues added, (add_moved queues added).1⟩

theorem register_error_moved {q q' : Queues V T} {D : List (ℕ × Val V)} (queues : WellQueued q D)
    {t : T} {args : List (Val V)} {msg : String}
    (raised : register queueLists t q args = .error (q', msg)) :
    WellQueued q' D ∧ OnlyMoved t q q' := by
  induction args generalizing q with
  | nil => cases raised
  | cons e args ih =>
    by_cases nil : e = .nil
    · simp only [register, nil, if_true] at raised
      exact ih queues raised
    · rcases register_error_cases nil raised with ⟨-, rfl⟩ | ⟨q₁, list, added, later⟩
      · exact ⟨queues, moved_refl t q'⟩
      · obtain ⟨queues', moved⟩ := add_alone queues added
        obtain ⟨queues'', moved'⟩ := ih queues' later
        exact ⟨queues'', moved.trans moved'⟩

/-- A call that resumes nobody. -/
theorem call_alone {s : State (Queues V T) V T} {D : List (ℕ × Val V)}
    (queues : WellQueued s.registry D) (idle : s.control.loop = none) (fuel : ℕ) (a : Act V T)
    (wakes : woken queueLists s a = none) :
    Outcome.All (Alone s.control.running s) (call queueLists fuel s a) := by
  have leaves : ∀ q status values, OnlyMoved s.control.running s.registry q →
      Alone s.control.running s ⟨q, s.control.giveback status values⟩ :=
    fun q status values moved => ⟨moved, fun t other => giveback_status s.control _ _ other⟩
  have stays : ∀ q values, OnlyMoved s.control.running s.registry q →
      Alone s.control.running s ⟨q, s.control.deliver values⟩ :=
    fun q values moved => ⟨moved, fun _ _ => rfl⟩
  have same := moved_refl s.control.running s.registry
  cases a with
  | await event =>
    simp only [call, EventSystem.await]
    split
    · split
      · cases added : queueLists.add s.registry event s.control.running with
        | error msg => exact all_raised ⟨same, fun _ _ => rfl⟩
        | ok p =>
          obtain ⟨q', list⟩ := p
          exact all_next (leaves q' _ _ (add_alone queues added).2)
      · exact all_raised ⟨same, fun _ _ => rfl⟩
    · exact all_disabled
  | awaitall args =>
    simp only [call, EventSystem.awaitall]
    split
    · split
      · cases registered : register queueLists s.control.running s.registry args with
        | error e =>
          obtain ⟨q', msg⟩ := e
          have moved := (register_error_moved queues registered).2
          exact all_raised ⟨moved, fun _ _ => rfl⟩
        | ok p =>
          obtain ⟨q', rs⟩ := p
          have moved := (register_spec queues registered).2.moved
          dsimp only
          split
          · exact all_next (stays q' _ moved)
          · exact all_next (leaves q' _ _ moved)
      · exact all_raised ⟨same, fun _ _ => rfl⟩
    · exact all_disabled
  | awaitany args =>
    simp only [call, EventSystem.awaitany]
    split
    · split
      · cases registered : register queueLists s.control.running s.registry args with
        | error e =>
          obtain ⟨q', msg⟩ := e
          have moved := (register_error_moved queues registered).2
          exact all_raised ⟨moved, fun _ _ => rfl⟩
        | ok p =>
          obtain ⟨q', rs⟩ := p
          have moved := (register_spec queues registered).2.moved
          dsimp only
          split
          · exact all_raised ⟨moved, fun _ _ => rfl⟩
          · exact all_next (leaves q' _ _ moved)
      · exact all_raised ⟨same, fun _ _ => rfl⟩
    · exact all_disabled
  | emitone event args =>
    simp only [call, EventSystem.emitone]
    split
    · cases found : queueLists.find s.registry event with
      | none => exact all_next (stays _ _ same)
      | some list =>
        have empty : queueLists.unlinkone s.registry event list = none := by
          simpa [woken, idle, found] using wakes
        simp only [empty]
        exact all_raised ⟨same, fun _ _ => rfl⟩
    · exact all_disabled
  | emitall event args =>
    simp only [call, EventSystem.emitall]
    split
    · cases found : queueLists.find s.registry event with
      | none => exact all_next (stays _ _ same)
      | some list =>
        have empty : queueLists.unlinkhead (queueLists.detach s.registry event) list = none := by
          simpa [woken, idle, found] using wakes
        simp only [emitnext, empty]
        exact all_raised ⟨detach_moved _ _ event, fun _ _ => rfl⟩
    · exact all_disabled
  | resume co args => simp [woken, idle] at wakes
  | yield args =>
    simp only [call]
    split
    · exact all_next (leaves _ _ _ same)
    · exact all_disabled
  | finish ok args =>
    simp only [call]
    split
    · exact all_next (leaves _ _ _ same)
    · exact all_disabled
  | iterate => exact all_disabled

/-- A step changes nothing but for the coroutine that it resumes, or else for the one that
runs. -/
theorem step_alone {s : State (Queues V T) V T} (queues : WellQueued s.registry (detached s.control))
    (fuel : ℕ) (a : Act V T) :
    Outcome.All (Alone (mover queueLists s a) s) (step queueLists fuel s a) := by
  cases wakes : woken queueLists s a with
  | some wake =>
    simp only [mover, wakes]
    cases wake with
    | emission list event args x =>
      obtain ⟨q, frame, pops⟩ := woken_pops wakes
      rcases pops.step fuel with disabled | resumes
      · rw [disabled]
        exact all_disabled
      · rw [resumes]
        have moved : OnlyMoved x s.registry q := by
          cases pops with
          | iterate loop nonempty popped => exact unlinkhead_moved popped
          | emitall idle found popped =>
            exact OnlyMoved.trans (detach_moved x s.registry event) (unlinkhead_moved popped)
          | emitone idle found popped => exact unlinkone_moved popped
        intro u reached
        exact (resume_alone x frame _ u reached).after moved
    | resume co args =>
      rcases resume_step wakes fuel with disabled | ⟨-, resumes⟩
      · rw [disabled]
        exact all_disabled
      · rw [resumes]
        exact resume_alone co .user args
  | none =>
    simp only [mover, wakes]
    cases loop : s.control.loop with
    | none =>
      simp only [EventSystem.step, loop]
      exact call_alone queues loop fuel a wakes
    | some p =>
      obtain ⟨list, event, args⟩ := p
      simp only [EventSystem.step, loop]
      cases a with
      | iterate =>
        dsimp only
        split
        · exact all_next (alone_same _ _ _ rfl)
        · rename_i nonempty
          have empty : queueLists.unlinkhead s.registry list = none := by
            simpa [woken, loop, nonempty] using wakes
          simp only [emitnext, empty]
          exact all_raised (alone_same _ _ _ rfl)
      | _ => exact all_disabled

/-- What is left of the lists of a coroutine when an emission takes it out of one. -/
structure Taken (s : State (Queues V T) V T) (t : T) (l : ℕ) (e : Val V) (q : Queues V T) :
    Prop where
  inside : t ∈ s.registry.queue l
  event : s.registry.event l = e
  mine : ∀ k, t ∈ q.queue k ↔ t ∈ s.registry.queue k ∧ k ≠ l

theorem taken_remove {s : State (Queues V T) V T} (inv : Inv s) {t : T} {l : ℕ}
    {e : Val V} (inside : t ∈ s.registry.queue l) (event : s.registry.event l = e)
    {q : Queues V T} (queue : q.queue = s.registry.queue) : Taken s t l e (q.remove e t l) := by
  refine ⟨inside, event, fun k => ?_⟩
  rw [remove_queue, queue]
  by_cases same : k = l
  · subst k
    simp [(inv.queues.nodup l).mem_erase_iff]
  · simp [same]

theorem pops_taken {s : State (Queues V T) V T} (inv : Inv s) {l : ℕ} {e : Val V}
    {args : List (Val V)} {x : T} {q : Queues V T} {b : Act V T} {frame : Frame V}
    (pops : Pops queueLists s l e args x q b frame) : Taken s x l e q := by
  cases pops with
  | iterate loop nonempty popped =>
    have popped : s.registry.unlinkhead l = some (x, q) := popped
    obtain ⟨-, event, away⟩ := inv.queues.detached (l, e) (by simp [detached, loop])
    cases queue : s.registry.queue l with
    | nil => simp [Queues.unlinkhead, queue] at popped
    | cons y rest =>
      rw [unlinkhead_eq away queue] at popped
      cases popped
      exact taken_remove inv (by simp [queue]) event rfl
  | emitall idle found popped =>
    obtain ⟨-, event, -⟩ := inv.queues.installed e l found
    have popped : (s.registry.detach e).unlinkhead l = some (x, q) := popped
    have away : (s.registry.detach e).listof e ≠ some l := by simp [Queues.detach]
    cases queue : s.registry.queue l with
    | nil => simp [Queues.unlinkhead, Queues.detach, queue] at popped
    | cons y rest =>
      rw [unlinkhead_eq (q := s.registry.detach e) away queue] at popped
      cases popped
      exact taken_remove inv (by simp [queue]) event rfl
  | emitone idle found popped =>
    obtain ⟨-, event, -⟩ := inv.queues.installed e l found
    have popped : s.registry.unlinkone e l = some (x, q) := popped
    cases queue : s.registry.queue l with
    | nil => simp [Queues.unlinkone, queue] at popped
    | cons y rest =>
      rw [unlinkone_eq found queue] at popped
      cases popped
      exact taken_remove inv (by simp [queue]) event rfl

/-- The tables and the queues resume the same coroutine. -/
theorem woken_refines {s : State (Registry V T) V T} {q : State (Queues V T) V T}
    (refines : Refines s.registry q.registry) (control : s.control = q.control) (a : Act V T) :
    woken registryLists s a = woken queueLists q a := by
  have find : ∀ e, registryLists.find s.registry e = queueLists.find q.registry e :=
    fun e => congrFun refines.listof e
  have head : ∀ {r : Registry V T} {p : Queues V T} (l : ℕ) (f : T → Wake V T), Refines r p →
      (unlinkhead r l).map (fun x => f x.1) = (p.unlinkhead l).map (fun x => f x.1) := by
    intro r p l f refines
    rcases unlinkhead_refines refines l with ⟨left, right⟩ | ⟨t, r', p', left, right, -⟩
    · rw [left, right]
      rfl
    · rw [left, right]
      rfl
  unfold woken
  rw [control]
  cases loop : q.control.loop with
  | none =>
    cases a with
    | emitall e as =>
      dsimp only
      rw [find]
      cases found : queueLists.find q.registry e with
      | none => rfl
      | some l => exact head l _ (detach_refines refines e)
    | emitone e as =>
      dsimp only
      rw [find]
      cases found : queueLists.find q.registry e with
      | none => rfl
      | some l =>
        rcases unlinkone_refines refines e l with ⟨left, right⟩ | ⟨t, r', p', left, right, -⟩
        · simp [registryLists, queueLists, left, right]
        · simp [registryLists, queueLists, left, right]
    | _ => rfl
  | some p =>
    obtain ⟨l, e, as⟩ := p
    cases a with
    | iterate =>
      dsimp only
      have empty : registryLists.isEmpty s.registry l = queueLists.isEmpty q.registry l :=
        isEmpty_refines refines l
      rw [empty]
      split
      · rfl
      · exact head l _ refines
    | _ => rfl

end
end Coutil.EventWake
