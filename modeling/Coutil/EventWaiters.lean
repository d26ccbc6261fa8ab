import Mathlib
import Coutil.AwaitSemantics
import Coutil.EmitLoop

set_option autoImplicit false

/-! Coroutines suspended in `event.await`, and the events that are awaited only so and emitted
only by `event.emitone`: their waiters are one queue. -/
namespace Coutil.EventWaiters
open EventRegistry EventSystem EventInvariant EventPreservation EventRefinement EventAttempt
open EventWake AwaitSemantics EmitLoop

section
variable {V T : Type}

def results : Wake V T → List (Val V)
  | .emission _ event args _ => event :: args
  | .resume _ args => args

def waiters (q : Queues V T) (m : Val V) : List T :=
  match q.listof m with
  | some l => q.queue l
  | none => []

variable [DecidableEq V] [DecidableEq T]
variable {s u : State (Queues V T) V T} {fuel : ℕ} {a : Act V T} {t : T} {e m : Val V} {l : ℕ}

theorem await_called (inv : Inv s) (stepped : step queueLists fuel s (.await e) = .next u) :
    s.control.loop = none ∧ s.control.yieldable ∧
      ∃ q l, s.registry.add e s.control.running = .ok (q, some l) ∧
        u = ⟨q, s.control.suspend (.await e (some l))⟩ := by
  cases loop : s.control.loop with
  | some p => simp [step, loop] at stepped
  | none =>
    simp only [step, loop, call, EventSystem.await] at stepped
    split_ifs at stepped with owns yields
    cases added : queueLists.add s.registry e s.control.running with
    | error msg => simp [added] at stepped
    | ok p =>
      obtain ⟨q, list⟩ := p
      simp only [added] at stepped
      cases stepped
      cases list with
      | none =>
        obtain ⟨-, l, -, inside⟩ := add_known_inside added
        exact absurd inside (active_free inv inv.controlled.running l)
      | some l => exact ⟨rfl, yields, q, l, added, rfl⟩

omit [DecidableEq V] in
/-- A coroutine in `event.await` is in one list, the one it was registered in. -/
theorem awaiting_once (inv : Inv s) (status : s.control.status t = .suspended (.await e (some l)))
    {k : ℕ} (member : t ∈ s.registry.queue k) : k = l := by
  obtain ⟨call, status', known⟩ := inv.queued k t member
  rw [status] at status'
  cases status'
  simp only [EventInvariant.regs, List.mem_singleton, Prod.mk.injEq] at known
  exact known.2

omit [DecidableEq V] in
theorem awaiting_member (inv : Inv s)
    (status : s.control.status t = .suspended (.await e (some l))) :
    t ∈ s.registry.queue l ∧ s.registry.event l = e := by
  obtain ⟨k, same, registered, member⟩ := inv.waiting t _ status
  cases same
  exact ⟨member, registered.event⟩

/-- A coroutine in `event.await` that is resumed returns from it. -/
theorem await_woken (inv : Inv s) (status : s.control.status t = .suspended (.await e (some l)))
    {wake : Wake V T} (wakes : woken queueLists s a = some wake) (thread : wake.thread = t)
    (stepped : step queueLists fuel s a = .next u) :
    Returned t (results wake) u ∧ (∀ k, t ∉ u.registry.queue k) ∧
      ∀ l' e' args x, wake = .emission l' e' args x → l' = l ∧ e' = e := by
  cases wake with
  | emission l' e' args x =>
    obtain rfl : x = t := thread
    obtain ⟨q, frame, pops⟩ := woken_pops wakes
    have taken := pops_taken inv pops
    have same : l' = l := awaiting_once inv status taken.inside
    have event : e' = e := by
      rw [← taken.event, same]
      exact (awaiting_member inv status).2
    rcases pops.step fuel with disabled | resumes
    · rw [disabled] at stepped
      cases stepped
    · rw [resumes] at stepped
      simp only [resume, status, resumed, istoken_listof, if_true] at stepped
      cases stepped
      refine ⟨⟨rfl, rfl, rfl⟩, fun k member => ?_, fun _ _ _ _ wake => ?_⟩
      · obtain ⟨inside, other⟩ := (taken.mine k).mp member
        exact other ((awaiting_once inv status inside).trans same.symm)
      · cases wake
        exact ⟨same, event⟩
  | resume x args =>
    obtain rfl : x = t := thread
    rcases resume_step wakes fuel with disabled | ⟨owns, resumes⟩
    · rw [disabled] at stepped
      cases stepped
    · rw [resumes] at stepped
      have other : args.head? ≠ some .listof := by
        intro head
        exact owns_secret inv.controlled owns (List.mem_of_mem_head? head)
      simp only [resume, status, resumed, istoken_plain other, Bool.false_eq_true, if_false]
        at stepped
      cases stepped
      refine ⟨⟨rfl, rfl, rfl⟩, fun k member => ?_, fun _ _ _ _ h => by cases h⟩
      have member : x ∈ (s.registry.remove e x l).queue k := member
      rw [remove_queue] at member
      split at member
      · rename_i same
        rw [(inv.queues.nodup l).mem_erase_iff] at member
        exact member.1 rfl
      · rename_i other
        exact other (awaiting_once inv status member)

end

section
variable {V T : Type} [DecidableEq V] [DecidableEq T]

/-- Since then, nobody was registered for the event. -/
structure Unjoined (m : Val V) (q q' : Queues V T) : Prop where
  installed : ∀ e l, q'.listof e = some l → l < q'.fresh ∧ q'.event l = e
  left : ∀ k < q'.fresh, q'.event k = m →
    k < q.fresh ∧ q.event k = m ∧ List.Sublist (q'.queue k) (q.queue k)

theorem unjoined_kept (m : Val V) (q : Queues V T) :
    Kept (queueLists : Lists V T (Queues V T)) (fun e => e ≠ m) (Unjoined m q) where
  add {q₁ e t q' list} other unjoined added := by
    have added : q₁.add e t = .ok (q', list) := added
    cases list with
    | none =>
      obtain ⟨rfl, -⟩ := add_known added
      exact unjoined
    | some l =>
      rcases add_new added with ⟨-, -, rfl, rfl⟩ | ⟨found, -, rfl⟩
      · refine ⟨fun d k found => ?_, fun k old event => ?_⟩
        · by_cases same : d = e
          · subst d
            have here : q₁.fresh = k := by simpa using found
            subst here
            exact ⟨Nat.lt_succ_self _, by simp⟩
          · have found : q₁.listof d = some k := by simpa [same] using found
            obtain ⟨old, event⟩ := unjoined.installed d k found
            exact ⟨Nat.lt_succ_of_lt old, by simpa [Nat.ne_of_lt old] using event⟩
        · by_cases same : k = q₁.fresh
          · subst k
            exact absurd (by simpa using event) other
          · have old : k < q₁.fresh := Nat.lt_of_le_of_ne (Nat.le_of_lt_succ old) same
            simpa [same] using unjoined.left k old (by simpa [same] using event)
      · refine ⟨unjoined.installed, fun k old event => ?_⟩
        have apart : k ≠ l := by
          rintro rfl
          exact other (((unjoined.installed e k found).2).symm.trans event)
        simpa [apart] using unjoined.left k old event
  remove {fuel q₁ e t list q'} unjoined removed := by
    have removed : some (q₁.remove e t list) = some q' := removed
    cases removed
    refine ⟨fun d k found => ?_, fun k old event => ?_⟩
    · apply unjoined.installed d k
      simp only [Queues.remove] at found
      split at found
      · by_cases same : d = e
        · simp [same] at found
        · simpa [same] using found
      · exact found
    · obtain ⟨old, event, sub⟩ := unjoined.left k old event
      refine ⟨old, event, ?_⟩
      rw [remove_queue]
      split
      · rename_i same
        subst same
        exact List.Sublist.trans List.erase_sublist sub
      · exact sub
  detach {q₁ e} unjoined := by
    refine ⟨fun d k found => ?_, unjoined.left⟩
    by_cases same : d = e
    · simp [queueLists, Queues.detach, same] at found
    · exact unjoined.installed d k (by simpa [queueLists, Queues.detach, same] using found)
  unlinkhead {q₁ list x q'} unjoined popped := by
    simp only [queueLists, Queues.unlinkhead] at popped
    split at popped
    · cases popped
    · rename_i head rest queue
      cases popped
      refine ⟨unjoined.installed, fun k old event => ?_⟩
      obtain ⟨old, event, sub⟩ := unjoined.left k old event
      refine ⟨old, event, ?_⟩
      by_cases same : k = list
      · subst k
        simpa using (List.sublist_cons_self x rest).trans (queue ▸ sub)
      · simpa [same] using sub
  unlinkone {q₁ e list x q'} unjoined found popped := by
    simp only [queueLists, Queues.unlinkone] at popped
    split at popped
    · cases popped
    · rename_i head rest queue
      cases popped
      refine ⟨fun d k found => ?_, fun k old event => ?_⟩
      · apply unjoined.installed d k
        dsimp only at found
        split at found
        · by_cases same : d = e
          · simp [same] at found
          · simpa [same] using found
        · exact found
      · obtain ⟨old, event, sub⟩ := unjoined.left k old event
        refine ⟨old, event, ?_⟩
        by_cases same : k = list
        · subst k
          simpa using (List.sublist_cons_self x rest).trans (queue ▸ sub)
        · simpa [same] using sub

variable {s u : State (Queues V T) V T} {fuel : ℕ} {a : Act V T} {t : T} {m : Val V}

theorem step_unjoined (inv : Inv s) (other : m ∉ arguments a)
    (stepped : step queueLists fuel s a = .next u) : Unjoined m s.registry u.registry := by
  have start : Unjoined m s.registry s.registry := by
    refine ⟨fun e l found => ?_, fun k old event => ⟨old, event, List.Sublist.refl _⟩⟩
    obtain ⟨old, event, -⟩ := inv.queues.installed e l found
    exact ⟨old, event⟩
  have allowed : ∀ e ∈ arguments a, e ≠ m := by
    rintro e member rfl
    exact other member
  exact step_kept (unjoined_kept m s.registry) fuel allowed start u (by rw [stepped]; rfl)

/-- Who waits for the event does so in `event.await`, in the list that is installed for it. -/
structure Sole (m : Val V) (s : State (Queues V T) V T) : Prop where
  waits : ∀ t k, t ∈ s.registry.queue k → s.registry.event k = m →
    s.control.status t = .suspended (.await m (some k))
  away : Framed (fun _ frame => ∀ l args, frame ≠ .emitall l m args) s.control

omit [DecidableEq V] in
theorem Sole.installed (sole : Sole m s) (inv : Inv s) {k : ℕ} (member : t ∈ s.registry.queue k)
    (event : s.registry.event k = m) : s.registry.listof m = some k := by
  have live := inv.queues.live k (List.ne_nil_of_mem member)
  rw [event] at live
  rcases live with found | out
  · exact found
  · rcases List.mem_append.mp out with looping | below
    · obtain ⟨⟨l, e, args⟩, loop, same⟩ := List.mem_map.mp looping
      obtain ⟨rfl, rfl⟩ := Prod.mk.inj same
      exact absurd rfl (sole.away.loop l e args (Option.mem_toList.mp loop) l args)
    · obtain ⟨⟨x, frame⟩, inside, known⟩ := List.mem_flatMap.mp below
      cases frame with
      | emitall l e args =>
        obtain ⟨rfl, rfl⟩ := Prod.mk.inj (List.mem_singleton.mp known)
        exact absurd rfl (sole.away.stack _ inside k args)
      | user => cases known
      | emitone => cases known

omit [DecidableEq V] [DecidableEq T] in
theorem waiters_list {q : Queues V T} {l : ℕ} (found : q.listof m = some l) :
    waiters q m = q.queue l := by
  simp [waiters, found]

omit [DecidableEq V] in
theorem Sole.mem_waiters (sole : Sole m s) (inv : Inv s) :
    t ∈ waiters s.registry m ↔ ∃ k, s.control.status t = .suspended (.await m (some k)) := by
  constructor
  · intro member
    cases found : s.registry.listof m with
    | none => simp [waiters, found] at member
    | some l =>
      rw [waiters_list found] at member
      exact ⟨l, sole.waits t l member (inv.queues.installed m l found).2.1⟩
  · rintro ⟨k, status⟩
    obtain ⟨member, event⟩ := awaiting_member inv status
    rw [waiters_list (sole.installed inv member event)]
    exact member

/-- A step that neither registers for the event nor begins to emit it with `event.emitall`. -/
theorem sole_step (sole : Sole m s) (inv : Inv s) (other : m ∉ arguments a)
    (one : ∀ args, a ≠ .emitall m args) (stepped : step queueLists fuel s a = .next u) :
    Sole m u := by
  have inv' := step_inv inv stepped
  have reached : Outcome.state? (step queueLists fuel s a) = some u := by
    rw [stepped]
    rfl
  have unjoined := step_unjoined inv other stepped
  have alone := step_alone inv.queues fuel a u reached
  refine ⟨fun t k member event => ?_, ?_⟩
  · obtain ⟨-, event, sub⟩ := unjoined.left k (inv'.queues.old member) event
    have status := sole.waits t k (sub.subset member) event
    by_cases moved : t = mover queueLists s a
    · subst moved
      cases wakes : woken queueLists s a with
      | none =>
        rw [mover, wakes] at status
        rw [inv.controlled.running] at status
        cases status
      | some wake =>
        have thread : mover queueLists s a = wake.thread := by rw [mover, wakes]
        exact absurd member ((await_woken inv status wakes thread.symm stepped).2.1 k)
    · rw [alone.status t moved]
      exact status
  · refine step_framed sole.away (fun _ _ _ h => by cases h) (fun _ _ _ h => by cases h) fuel a ?_ u reached
    intro l e args begins found l' args' same
    cases same
    exact one args begins

def Elsewhere (m : Val V) : Act V T → Prop
  | .await e => e ≠ m
  | .awaitall args => m ∉ args
  | .awaitany args => m ∉ args
  | .emitone e _ => e ≠ m
  | .emitall e _ => e ≠ m
  | _ => True

omit [DecidableEq V] [DecidableEq T] in
theorem elsewhere_arguments (elsewhere : Elsewhere m a) : m ∉ arguments a := by
  cases a with
  | await e =>
    intro member
    exact elsewhere (List.mem_singleton.mp member).symm
  | awaitall args => exact elsewhere
  | awaitany args => exact elsewhere
  | _ => exact List.not_mem_nil

theorem elsewhere_emission (sole : Sole m s) (elsewhere : Elsewhere m a) {l : ℕ} {e : Val V}
    {args : List (Val V)} {x : T}
    (wakes : woken queueLists s a = some (.emission l e args x)) : e ≠ m := by
  obtain ⟨q, frame, pops⟩ := woken_pops wakes
  rintro rfl
  cases pops with
  | iterate loop nonempty popped => exact sole.away.loop l e args loop l args rfl
  | emitall idle found popped => exact elsewhere rfl
  | emitone idle found popped => exact elsewhere rfl

omit [DecidableEq V] in
theorem waiters_sublist (sole : Sole m s) (inv : Inv s) (inv' : Inv u)
    (unjoined : Unjoined m s.registry u.registry) :
    List.Sublist (waiters u.registry m) (waiters s.registry m) := by
  cases found : u.registry.listof m with
  | none => simp [waiters, found]
  | some l =>
    obtain ⟨old, event, some⟩ := inv'.queues.installed m l found
    obtain ⟨-, event, sub⟩ := unjoined.left l old event
    obtain ⟨t, member⟩ := List.exists_mem_of_ne_nil _ some
    rw [waiters_list found, waiters_list (sole.installed inv (sub.subset member) event)]
    exact sub

omit [DecidableEq V] in
theorem waiters_nodup (inv : Inv s) : (waiters s.registry m).Nodup := by
  cases found : s.registry.listof m with
  | none => simp [waiters, found]
  | some l =>
    rw [waiters_list found]
    exact inv.queues.nodup l

omit [DecidableEq V] in
theorem running_waiters (sole : Sole m s) (inv : Inv s) :
    s.control.running ∉ waiters s.registry m := by
  intro member
  obtain ⟨k, status⟩ := (sole.mem_waiters inv).mp member
  rw [inv.controlled.running] at status
  cases status

/-- A step elsewhere takes out of the queue at most one waiter, which it names. -/
theorem elsewhere_waiters (sole : Sole m s) (inv : Inv s) (elsewhere : Elsewhere m a)
    (stepped : step queueLists fuel s a = .next u) :
    Sole m u ∧
      ((∃ x args, a = .resume x args ∧ x ∈ waiters s.registry m ∧ Returned x args u ∧
        ∀ t, t ∈ waiters u.registry m ↔ t ∈ waiters s.registry m ∧ t ≠ x) ∨
      waiters u.registry m = waiters s.registry m) := by
  have inv' := step_inv inv stepped
  have sole' : Sole m u := by
    refine sole_step sole inv (elsewhere_arguments elsewhere) ?_ stepped
    rintro args rfl
    exact elsewhere rfl
  have alone := step_alone inv.queues fuel a u (by rw [stepped]; rfl)
  have sub := waiters_sublist sole inv inv' (step_unjoined inv (elsewhere_arguments elsewhere) stepped)
  have others : ∀ t, t ≠ mover queueLists s a →
      (t ∈ waiters u.registry m ↔ t ∈ waiters s.registry m) := by
    intro t other
    rw [sole.mem_waiters inv, sole'.mem_waiters inv', alone.status t other]
  refine ⟨sole', ?_⟩
  by_cases named : mover queueLists s a ∈ waiters s.registry m
  · left
    cases wakes : woken queueLists s a with
    | none =>
      rw [mover, wakes] at named
      exact absurd named (running_waiters sole inv)
    | some wake =>
      have thread : mover queueLists s a = wake.thread := by rw [mover, wakes]
      rw [thread] at named others
      obtain ⟨k, status⟩ := (sole.mem_waiters inv).mp named
      obtain ⟨returned, -, emitted⟩ := await_woken inv status wakes rfl stepped
      cases wake with
      | emission l e args x =>
        exact absurd (emitted l e args x rfl).2 (elsewhere_emission sole elsewhere wakes)
      | resume x args =>
        refine ⟨x, args, (woken_resume wakes).2, named, returned, fun t => ?_⟩
        by_cases same : t = x
        · subst t
          have gone : x ∉ waiters u.registry m := by
            have away := running_waiters sole' inv'
            rw [returned.running] at away
            exact away
          simp [gone]
        · simp [others t same, same]
  · right
    have members : ∀ t, t ∈ waiters u.registry m ↔ t ∈ waiters s.registry m := by
      intro t
      by_cases same : t = mover queueLists s a
      · subst same
        exact ⟨fun member => sub.subset member, fun member => absurd member named⟩
      · exact others t same
    have perm := (List.perm_ext_iff_of_nodup (waiters_nodup inv') (waiters_nodup inv)).mpr members
    exact sub.eq_of_length perm.length_eq

theorem await_waiters (sole : Sole m s) (inv : Inv s)
    (stepped : step queueLists fuel s (.await m) = .next u) :
    Sole m u ∧ waiters u.registry m = waiters s.registry m ++ [s.control.running] ∧
      (∃ k, u.control.status s.control.running = .suspended (.await m (some k))) ∧
      ∀ t, t ≠ s.control.running → u.control.status t = s.control.status t := by
  have inv' := step_inv inv stepped
  obtain ⟨-, yields, q, l, added, rfl⟩ := await_called inv stepped
  have status : (s.control.suspend (.await m (some l))).status s.control.running =
      .suspended (.await m (some l)) := giveback_given yields _ _
  have others : ∀ t, t ≠ s.control.running →
      (s.control.suspend (.await m (some l))).status t = s.control.status t :=
    fun t other => giveback_status _ _ _ other
  have moved := (add_alone inv.queues added).2
  refine ⟨⟨fun t k member event => ?_, ?_⟩, ?_, ⟨l, status⟩, others⟩
  · by_cases same : t = s.control.running
    · subst t
      have here : k = l := awaiting_once inv' status member
      rw [here]
      exact status
    · have old := (moved.others k t same).mp member
      have event : s.registry.event k = m :=
        (moved.event k (inv.queues.old old)).symm.trans event
      exact (others t same).trans (sole.waits t k old event)
  · exact giveback_framed sole.away _ _
  · rcases add_new added with ⟨absent, -, rfl, rfl⟩ | ⟨found, -, rfl⟩
    · simp [waiters, absent]
    · simp [waiters, found]

/-- An emission with `event.emitone` resumes the first coroutine of the queue. -/
theorem emitone_waiters (sole : Sole m s) (inv : Inv s) {args : List (Val V)}
    (stepped : step queueLists fuel s (.emitone m args) = .next u) :
    Sole m u ∧ s.control.loop = none ∧
      match waiters s.registry m with
      | [] => u = { s with control := s.control.deliver [.bool false] }
      | x :: rest => Returned x (m :: args) u ∧ waiters u.registry m = rest ∧
          ∀ t, t ≠ x → u.control.status t = s.control.status t := by
  have sole' : Sole m u := by
    refine sole_step sole inv List.not_mem_nil ?_ stepped
    intro args' same
    cases same
  cases loop : s.control.loop with
  | some p => simp [step, loop] at stepped
  | none =>
    refine ⟨sole', rfl, ?_⟩
    cases found : s.registry.listof m with
    | none =>
      have found' : queueLists.find s.registry m = none := found
      simp only [step, loop, call, EventSystem.emitone, found'] at stepped
      split_ifs at stepped
      cases stepped
      simp [waiters, found]
    | some l =>
      obtain ⟨-, event, filled⟩ := inv.queues.installed m l found
      rw [waiters_list found]
      cases queue : s.registry.queue l with
      | nil => exact absurd queue filled
      | cons x rest =>
        have popped : s.registry.unlinkone m l = some (x, s.registry.remove m x l) :=
          unlinkone_eq found queue
        have pops : Pops queueLists s l m args x (s.registry.remove m x l) (.emitone m args)
            .emitone := .emitone loop found popped
        have wakes : woken queueLists s (.emitone m args) = some (.emission l m args x) := by
          have found' : queueLists.find s.registry m = some l := found
          have popped' : queueLists.unlinkone s.registry m l = some (x, s.registry.remove m x l) :=
            popped
          simp [woken, loop, found', popped']
        have member : x ∈ s.registry.queue l := by simp [queue]
        have status := sole.waits x l member event
        obtain ⟨returned, -, -⟩ := await_woken inv status wakes rfl stepped
        have alone := step_alone inv.queues fuel (.emitone m args) u (by rw [stepped]; rfl)
        rw [mover, wakes] at alone
        refine ⟨returned, ?_, alone.status⟩
        have registry : u.registry = s.registry.remove m x l := by
          rcases pops.step fuel with disabled | resumes
          · rw [disabled] at stepped
            cases stepped
          · rw [resumes] at stepped
            simp only [resume, status, resumed, istoken_listof, if_true] at stepped
            cases stepped
            rfl
        rw [registry]
        cases rest with
        | nil => simp [waiters, Queues.remove, queue, found]
        | cons y rest => simp [waiters, Queues.remove, queue, found]

end
end Coutil.EventWaiters
