import Coutil.PromiseSystem

set_option autoImplicit false

/-! Promises are fulfilled once, and whoever claims one gets its results. -/
namespace Coutil.PromiseFulfillment
open Runs EventRegistry EventSystem EventInvariant EventPreservation EventRefinement EventAttempt
open EventFailure EventWake AwaitSemantics EmitLoop EventWaiters PromiseSystem

section
variable {V T : Type} [DecidableEq V] [DecidableEq T]

/-- A coroutine in `event.await` goes on waiting, is resumed by other code, or by an emission. -/
theorem await_step {q q' : EventSystem.State (Queues V T) V T} {fuel k : ℕ}
    {b : EventSystem.Act V T} {t : T} {e : Val V} (inv : Inv q)
    (status : q.control.status t = .suspended (.await e (some k)))
    (stepped : EventSystem.step queueLists fuel q b = .next q') :
    q'.control.status t = .suspended (.await e (some k)) ∨
      (∃ args, b = .resume t args ∧ Returned t args q') ∨
      ∃ args, Returned t (e :: args) q' ∧
        ((∃ l, q.control.loop = some (l, e, args)) ∨ b = .emitall e args ∨ b = .emitone e args) := by
  by_cases moved : t = mover queueLists q b
  · right
    cases wakes : woken queueLists q b with
    | none =>
      rw [mover, wakes] at moved
      rw [moved, inv.controlled.running] at status
      cases status
    | some wake =>
      have thread : wake.thread = t := by
        rw [mover, wakes] at moved
        exact moved.symm
      obtain ⟨returned, -, emitted⟩ := await_woken inv status wakes thread stepped
      cases wake with
      | resume x args =>
        obtain rfl : x = t := thread
        exact .inl ⟨args, (woken_resume wakes).2, returned⟩
      | emission l d args x =>
        obtain ⟨-, rfl⟩ := emitted l d args x rfl
        refine .inr ⟨args, returned, ?_⟩
        obtain ⟨r, frame, pops⟩ := woken_pops wakes
        cases pops with
        | iterate loop nonempty popped => exact .inl ⟨l, loop⟩
        | emitall idle found popped => exact .inr (.inl rfl)
        | emitone idle found popped => exact .inr (.inr rfl)
  · left
    have alone := step_alone inv.queues fuel b q' (by rw [stepped]; rfl)
    rw [alone.status t moved]
    exact status

/-- The calls of the fulfillment function, the first one first, with what they return. -/
def fulfillments (p : V) (log : List (Entry V T)) : List (List (Val V) × Bool) :=
  (log.filterMap fun
    | .fulfilled _ x args notify => if x = p then some (args, notify) else none
    | _ => none).reverse

/-- What the promise returned to the coroutine, the first call first. -/
def claimsOf (t : T) (p : V) (log : List (Entry V T)) : List (List (Val V)) :=
  (log.filterMap fun
    | .claimed x y values => if x = t ∧ y = p then some values else none
    | _ => none).reverse

def firstArguments (p : V) (log : List (Entry V T)) : Option (List (Val V)) :=
  (fulfillments p log).head?.map Prod.fst

omit [DecidableEq T] in
@[simp] theorem fulfillments_claimed (p x : V) (t : T) (values : List (Val V))
    (log : List (Entry V T)) : fulfillments p (.claimed t x values :: log) = fulfillments p log :=
  rfl

omit [DecidableEq T] in
@[simp] theorem fulfillments_fulfilled (p x : V) (t : T) (args : List (Val V)) (notify : Bool)
    (log : List (Entry V T)) : fulfillments p (.fulfilled t x args notify :: log) =
      fulfillments p log ++ if x = p then [(args, notify)] else [] := by
  by_cases same : x = p <;> simp [fulfillments, same]

@[simp] theorem claimsOf_claimed (t x : T) (p y : V) (values : List (Val V))
    (log : List (Entry V T)) : claimsOf t p (.claimed x y values :: log) =
      claimsOf t p log ++ if x = t ∧ y = p then [values] else [] := by
  by_cases same : x = t ∧ y = p <;> simp [claimsOf, same]

@[simp] theorem claimsOf_fulfilled (t x : T) (p y : V) (args : List (Val V)) (notify : Bool)
    (log : List (Entry V T)) : claimsOf t p (.fulfilled x y args notify :: log) = claimsOf t p log :=
  rfl

/-- Events are emitted on the promise by the module only, and whoever awaits one by other means
does so before it is fulfilled. What other code gives to a coroutine that claims the promise is
not taken for its fulfillment. -/
def Apart (p : V) (s : PromiseSystem.State (Registry V T) V T) (a : ℕ × PromiseSystem.Act V T) :
    Prop :=
  match a.2 with
  | .event (.emitone e _) => e ≠ .ref p
  | .event (.emitall e _) => e ≠ .ref p
  | .event (.await e) => e = .ref p → s.results p = none
  | .event (.awaitall args) => .ref p ∈ args → s.results p = none
  | .event (.awaitany args) => .ref p ∈ args → s.results p = none
  | .event (.resume x args) => s.doing x = some (.claim p) → args.head? ≠ some (.ref p)
  | .awaitany promises => none ∉ promises
  | _ => True

def Notifies (p : V) (doing : T → Option (Doing V)) (log : List (Entry V T)) (x : T)
    (frame : Frame V) : Prop :=
  ∀ l args, frame = .emitall l (.ref p) args →
    doing x = some (.fulfill p) ∧ firstArguments p log = some args

/-- The coroutine was resumed in its claim and goes on now. -/
structure Turned (p : V) (s : PromiseSystem.State (Registry V T) V T) (t : T) : Prop where
  running : s.events.control.running = t
  idle : s.events.control.loop = none
  notified : s.events.control.values.head? = some (.ref p) →
    firstArguments p s.log = some s.events.control.values.tail ∧
      ∃ x, s.doing x = some (.fulfill p)

/-- What holds of a promise between any two steps. -/
structure Sound (p : V) (s : PromiseSystem.State (Registry V T) V T)
    (q : EventSystem.State (Queues V T) V T) : Prop where
  related : Related s.events q
  told : Told s.events.control
  secrets : ∀ x vs, s.results x = some vs → .listof ∉ vs
  away : s.results p ≠ none → s.events.registry.listof (.ref p) = none
  frames : Framed (Notifies p s.doing s.log) q.control
  parked : ∀ t, s.doing t = some (.claim p) → Turned p s t ∨
    ∃ k, q.control.status t = .suspended (.await (.ref p) (some k))
  results : s.results p = (fulfillments p s.log).getLast?.map Prod.fst
  answers : ∀ i args notify, (fulfillments p s.log)[i]? = some (args, notify) →
    (notify = true ↔ i = 0)

variable {s u : PromiseSystem.State (Registry V T) V T} {q q' : EventSystem.State (Queues V T) V T}
variable {events : EventSystem.State (Registry V T) V T} {b : EventSystem.Act V T} {fuel : ℕ}
variable {p : V} {t : T}

theorem Sound.busy (sound : Sound p s q)
    (own : s.events.control.loop ≠ none ∨ s.doing s.events.control.running = none)
    (claims : s.doing t = some (.claim p)) :
    ∃ k, q.control.status t = .suspended (.await (.ref p) (some k)) := by
  refine (sound.parked t claims).resolve_left ?_
  rintro ⟨rfl, idle, -⟩
  rcases own with loop | free
  · exact loop idle
  · rw [free] at claims
    cases claims

theorem Sound.unfulfilled (sound : Sound p s q) (pending : s.results p = none) :
    fulfillments p s.log = [] := by
  have results := sound.results
  rw [pending] at results
  simpa using results

theorem Sound.fulfilled {args : List (Val V)} (sound : Sound p s q)
    (first : firstArguments p s.log = some args) : s.results p ≠ none := by
  intro pending
  rw [firstArguments, sound.unfulfilled pending] at first
  cases first

/-- A call of the event module that does not emit on the promise. -/
theorem Sound.steps (sound : Sound p s q) (steps : Steps fuel b s.events events q q')
    (related : Related events q')
    (own : s.events.control.loop ≠ none ∨ s.doing s.events.control.running = none)
    (all : ∀ args, b ≠ .emitall (.ref p) args) (one : ∀ args, b ≠ .emitone (.ref p) args)
    (registers : .ref p ∈ arguments b → s.results p = none)
    (plain : ∀ x args, b = .resume x args → s.doing x = some (.claim p) →
      args.head? ≠ some (.ref p)) :
    Sound p { s with events := events } q' := by
  refine ⟨related, ?_, sound.secrets, ?_, ?_, ?_, sound.results, sound.answers⟩
  · exact step_closed told_closed sound.told fuel b events (by rw [steps.tables]; rfl)
  · intro fulfilled
    have allowed : ∀ e ∈ arguments b, e ≠ .ref p := by
      rintro e member rfl
      exact fulfilled (registers member)
    have installed : ∀ e, s.events.registry.listof e ≠ none → e ≠ .ref p := by
      rintro e found rfl
      exact found (sound.away fulfilled)
    have kept := step_kept (installed_kept fun e => e ≠ .ref p) fuel allowed installed events
      (by rw [steps.tables]; rfl)
    by_contra found
    exact kept (.ref p) found rfl
  · refine step_framed sound.frames (fun _ _ _ h => by cases h) (fun _ _ _ h => by cases h) fuel b
      ?_ q' (by rw [steps.queues]; rfl)
    intro l e args begins found l' args' same
    cases same
    exact absurd begins (all args)
  · intro t claims
    obtain ⟨k, status⟩ := sound.busy own claims
    obtain waits | ⟨args, resumes, returned⟩ | ⟨args, returned, emits⟩ :=
      await_step sound.related.inv status steps.queues
    · exact .inr ⟨k, waits⟩
    · obtain ⟨running, idle, values⟩ := returned.related related
      refine .inl ⟨running, idle, fun head => ?_⟩
      rw [values] at head
      exact absurd head (plain t args resumes claims)
    · obtain ⟨running, idle, values⟩ := returned.related related
      refine .inl ⟨running, idle, fun _ => ?_⟩
      obtain ⟨l, loop⟩ | emits | emits := emits
      · obtain ⟨fulfills, first⟩ := sound.frames.loop l _ args loop l args rfl
        rw [values]
        exact ⟨first, _, fulfills⟩
      · exact absurd emits (all args)
      · exact absurd emits (one args)

omit [DecidableEq V] in
theorem stack_away (inv : Inv q) {x : T × Frame V} (below : x ∈ q.control.stack) :
    x.1 ≠ q.control.running := by
  have nodup := inv.controlled.nodup
  rw [List.nodup_cons] at nodup
  rintro same
  exact nodup.1 (same ▸ List.mem_map_of_mem below)

theorem Sound.deliver {values : List (Val V)} (sound : Sound p s q)
    (related : Related u.events { q with control := q.control.deliver values })
    (same : u.events = { s.events with control := s.events.control.deliver values })
    (own : u.doing s.events.control.running = none)
    (others : ∀ x, x ≠ s.events.control.running → u.doing x = s.doing x)
    (secrets : ∀ x vs, u.results x = some vs → .listof ∉ vs)
    (fulfilled : u.results p ≠ none → s.results p ≠ none)
    (first : firstArguments p u.log = firstArguments p s.log)
    (results : u.results p = (fulfillments p u.log).getLast?.map Prod.fst)
    (answers : ∀ i args notify, (fulfillments p u.log)[i]? = some (args, notify) →
      (notify = true ↔ i = 0)) :
    Sound p u { q with control := q.control.deliver values } := by
  have running := sound.related.control
  refine ⟨related, ?_, secrets, ?_, ?_, ?_, results, answers⟩
  · rw [same]
    exact told_closed.deliver _ _ sound.told
  · intro some
    rw [same]
    exact sound.away (fulfilled some)
  · refine ⟨nofun, fun x below l args frame => ?_⟩
    obtain ⟨fulfills, first'⟩ := sound.frames.stack x below l args frame
    have away : x.1 ≠ s.events.control.running := by
      rw [running]
      exact stack_away sound.related.inv below
    exact ⟨(others x.1 away).trans fulfills, first.trans first'⟩
  · intro t claims
    have away : t ≠ s.events.control.running := by
      rintro rfl
      rw [own] at claims
      cases claims
    rw [others t away] at claims
    obtain ⟨now, -, -⟩ | waits := sound.parked t claims
    · exact absurd now.symm away
    · exact .inr waits

theorem Sound.call {r : T} {doing : Doing V} (sound : Sound p s q) (own : s.doing r = none)
    (waits : doing = .claim p → ∃ k, q.control.status r = .suspended (.await (.ref p) (some k))) :
    Sound p { s with doing := Function.update s.doing r (some doing) } q := by
  have others : ∀ x, s.doing x ≠ none → Function.update s.doing r (some doing) x = s.doing x := by
    intro x busy
    refine Function.update_of_ne ?_ _ _
    rintro rfl
    exact busy own
  have fulfilling : ∀ x, s.doing x = some (.fulfill p) →
      Function.update s.doing r (some doing) x = some (.fulfill p) := by
    intro x fulfills
    rw [others x (by simp [fulfills]), fulfills]
  have notifies : ∀ x frame, Notifies p s.doing s.log x frame →
      Notifies p (Function.update s.doing r (some doing)) s.log x frame := by
    intro x frame notifies l args same
    obtain ⟨fulfills, first⟩ := notifies l args same
    exact ⟨fulfilling x fulfills, first⟩
  refine ⟨sound.related, sound.told, sound.secrets, sound.away, ⟨?_, ?_⟩, ?_, sound.results,
    sound.answers⟩
  · exact fun l e args loop => notifies _ _ (sound.frames.loop l e args loop)
  · exact fun x below => notifies _ _ (sound.frames.stack x below)
  · intro t claims
    by_cases here : t = r
    · subst t
      have claims : Function.update s.doing r (some doing) r = some (.claim p) := claims
      rw [Function.update_self] at claims
      exact .inr (waits (Option.some.inj claims))
    · have claims : Function.update s.doing r (some doing) t = some (.claim p) := claims
      rw [Function.update_of_ne here] at claims
      obtain ⟨running, idle, notified⟩ | waits := sound.parked t claims
      · refine .inl ⟨running, idle, fun head => ?_⟩
        obtain ⟨first, x, fulfills⟩ := notified head
        exact ⟨first, x, fulfilling x fulfills⟩
      · exact .inr waits

theorem Sound.other {x : V} {args : List (Val V)} {thread : T} (sound : Sound p s q)
    (different : x ≠ p) (secret : .listof ∉ args) :
    Sound p { s with
      results := Function.update s.results x (some args)
      log := .fulfilled thread x args true :: s.log } q := by
  have same : fulfillments p (.fulfilled thread x args true :: s.log) = fulfillments p s.log := by
    simp [different]
  have kept : Function.update s.results x (some args) p = s.results p :=
    Function.update_of_ne different.symm _ _
  have first : firstArguments p (.fulfilled thread x args true :: s.log) = firstArguments p s.log := by
    rw [firstArguments, same, firstArguments]
  refine ⟨sound.related, sound.told, ?_, ?_, ?_, ?_, ?_, ?_⟩
  · intro y vs found
    by_cases here : y = x
    · subst y
      have found : Function.update s.results x (some args) x = some vs := found
      rw [Function.update_self] at found
      cases found
      exact secret
    · have found : Function.update s.results x (some args) y = some vs := found
      rw [Function.update_of_ne here] at found
      exact sound.secrets y vs found
  · intro some
    exact sound.away (kept ▸ some)
  · refine ⟨fun l e as loop => ?_, fun y below => ?_⟩
    · have before := sound.frames.loop l e as loop
      rw [Notifies, ← first] at before
      exact before
    · have before := sound.frames.stack y below
      rw [Notifies, ← first] at before
      exact before
  · intro t claims
    obtain ⟨running, idle, notified⟩ | waits := sound.parked t claims
    · exact .inl ⟨running, idle, fun head => first.symm ▸ notified head⟩
    · exact .inr waits
  · exact kept.trans (same.symm ▸ sound.results)
  · exact same.symm ▸ sound.answers

/-- Nobody is in the list of the promise once its emission has begun. -/
theorem emitall_away {e : Val V} {args : List (Val V)}
    {events events' : EventSystem.State (Registry V T) V T} (idle : events.control.loop = none)
    (stepped : EventSystem.step registryLists fuel events (.emitall e args) = .next events') :
    events'.registry.listof e = none := by
  simp only [EventSystem.step, idle, call, EventSystem.emitall] at stepped
  split at stepped
  · cases found : registryLists.find events.registry e with
    | none =>
      simp only [found] at stepped
      cases stepped
      exact found
    | some list =>
      simp only [found] at stepped
      have away : ∀ d, (registryLists.detach events.registry e).listof d ≠ none → d ≠ e := by
        rintro d installed rfl
        simp [registryLists, EventRegistry.detach] at installed
      have kept := emitnext_kept (installed_kept fun d => d ≠ e)
        (s := { events with registry := registryLists.detach events.registry e }) list e args away
        events' (by rw [stepped]; rfl)
      by_contra installed
      exact kept e installed rfl
  · cases stepped

/-- The promise is fulfilled and notifies those that claimed it. -/
theorem Sound.first {args : List (Val V)} (sound : Sound p s q) (free : s.free)
    (pending : s.results p = none) (owns : s.events.control.owns args)
    (steps : Steps fuel (.emitall (.ref p) args) s.events events q q')
    (related : Related events q') :
    Sound p
      { events := events
        results := Function.update s.results p (some args)
        doing := Function.update s.doing s.events.control.running (some (.fulfill p))
        log := .fulfilled s.events.control.running p args true :: s.log } q' := by
  have none' := sound.unfulfilled pending
  have log : fulfillments p (.fulfilled s.events.control.running p args true :: s.log) =
      [(args, true)] := by
    simp [none']
  have first : firstArguments p (.fulfilled s.events.control.running p args true :: s.log) =
      some args := by
    simp [firstArguments, log]
  have fulfills : Function.update s.doing s.events.control.running (some (.fulfill p))
      s.events.control.running = some (.fulfill p) := Function.update_self _ _ _
  refine ⟨related, ?_, ?_, fun _ => emitall_away free.1 steps.tables, ?_, ?_, ?_, ?_⟩
  · exact step_closed told_closed sound.told fuel _ events (by rw [steps.tables]; rfl)
  · intro y vs found
    by_cases here : y = p
    · subst y
      have found : Function.update s.results p (some args) p = some vs := found
      rw [Function.update_self] at found
      cases found
      rw [sound.related.control] at owns
      exact owns_secret sound.related.inv.controlled owns
    · have found : Function.update s.results p (some args) y = some vs := found
      rw [Function.update_of_ne here] at found
      exact sound.secrets y vs found
  · have framed : Framed (Notifies p (Function.update s.doing s.events.control.running
        (some (.fulfill p))) (.fulfilled s.events.control.running p args true :: s.log))
        q.control := by
      refine ⟨fun l e as loop => ?_, fun y below l as frame => ?_⟩
      · have idle := free.1
        rw [sound.related.control, loop] at idle
        cases idle
      · have before := (sound.frames.stack y below l as frame).2
        simp [firstArguments, none'] at before
    refine step_framed framed (fun _ _ _ h => by cases h) (fun _ _ _ h => by cases h) fuel _ ?_ q'
      (by rw [steps.queues]; rfl)
    intro l e as begins found l' as' same
    cases begins
    cases same
    rw [← sound.related.control]
    exact ⟨fulfills, first⟩
  · intro t claims
    have away : t ≠ s.events.control.running := by
      rintro rfl
      have claims : Function.update s.doing s.events.control.running (some (.fulfill p))
        s.events.control.running = some (.claim p) := claims
      rw [fulfills] at claims
      cases claims
    have claims : Function.update s.doing s.events.control.running (some (.fulfill p)) t =
      some (.claim p) := claims
    rw [Function.update_of_ne away] at claims
    obtain ⟨k, status⟩ := sound.busy (.inr free.2) claims
    obtain waits | ⟨as, resumes, -⟩ | ⟨as, returned, emits⟩ :=
      await_step sound.related.inv status steps.queues
    · exact .inr ⟨k, waits⟩
    · cases resumes
    · obtain ⟨running, idle, values⟩ := returned.related related
      refine .inl ⟨running, idle, fun _ => ?_⟩
      have same : as = args := by
        obtain ⟨l, loop⟩ | emits | emits := emits
        · have idle := free.1
          rw [sound.related.control, loop] at idle
          cases idle
        · cases emits
          rfl
        · cases emits
      rw [values, same]
      exact ⟨first, _, fulfills⟩
  · change Function.update s.results p (some args) p = _
    rw [Function.update_self, log]
    rfl
  · intro i as notify found
    rw [log] at found
    cases i with
    | zero =>
      cases found
      simp
    | succ i => cases found

omit [DecidableEq V] [DecidableEq T] in
theorem pending_onlypending {promises : List (Option V)} {R : Type}
    {s : PromiseSystem.State R V T} (member : p ∈ onlypending s promises) : s.results p = none := by
  induction promises with
  | nil => cases member
  | cons promise promises ih =>
    cases promise with
    | none => cases member
    | some x =>
      simp only [onlypending] at member
      split at member
      · exact ih member
      · rename_i pending
        rcases List.mem_cons.mp member with rfl | member
        · simpa [probe] using pending
        · exact ih member

omit [DecidableEq V] [DecidableEq T] in
theorem pending_pickready {promises : List (Option V)} {R : Type}
    {s : PromiseSystem.State R V T} (plain : none ∉ promises) (picked : pickready s promises = none)
    (member : some p ∈ promises) : s.results p = none := by
  induction promises with
  | nil => cases member
  | cons promise promises ih =>
    cases promise with
    | none => exact absurd List.mem_cons_self plain
    | some x =>
      simp only [pickready] at picked
      split at picked
      · cases picked
      · rename_i pending
        rcases List.mem_cons.mp member with same | member
        · cases same
          simpa [probe] using pending
        · exact ih (fun bad => plain (List.mem_cons_of_mem _ bad)) picked member

/-- A promise that is fulfilled again has other results. -/
theorem Sound.again {x : V} {args results : List (Val V)} (sound : Sound p s q) (free : s.free)
    (fulfilled : s.results x = some results) (owns : s.events.control.owns args)
    (related : Related { s.events with control := s.events.control.deliver [.bool false] }
      { q with control := q.control.deliver [.bool false] }) :
    Sound p
      { events := { s.events with control := s.events.control.deliver [.bool false] }
        results := Function.update s.results x (some args)
        doing := s.doing
        log := .fulfilled s.events.control.running x args false :: s.log }
      { q with control := q.control.deliver [.bool false] } := by
  have secret : .listof ∉ args := by
    rw [sound.related.control] at owns
    exact owns_secret sound.related.inv.controlled owns
  have some_ : x = p → fulfillments p s.log ≠ [] := by
    rintro rfl empty
    have results := sound.results
    rw [fulfilled, empty] at results
    cases results
  refine sound.deliver related rfl free.2 (fun _ _ => rfl) ?_ ?_ ?_ ?_ ?_
  · intro y vs found
    by_cases here : y = x
    · subst y
      have found : Function.update s.results x (some args) x = some vs := found
      rw [Function.update_self] at found
      cases found
      exact secret
    · have found : Function.update s.results x (some args) y = some vs := found
      rw [Function.update_of_ne here] at found
      exact sound.secrets y vs found
  · intro now
    by_cases same : p = x
    · rw [same, fulfilled]
      exact Option.some_ne_none results
    · have now : Function.update s.results x (some args) p ≠ none := now
      rw [Function.update_of_ne same] at now
      exact now
  · by_cases same : x = p
    · have some_ := some_ same
      cases log : fulfillments p s.log with
      | nil => exact absurd log some_
      | cons head rest => simp [firstArguments, log, same]
    · simp [firstArguments, same]
  · change Function.update s.results x (some args) p = _
    by_cases same : x = p
    · subst x
      rw [Function.update_self]
      simp
    · rw [Function.update_of_ne (Ne.symm same), fulfillments_fulfilled, if_neg same,
        List.append_nil]
      exact sound.results
  · intro i as notify found
    rw [fulfillments_fulfilled] at found
    by_cases same : x = p
    · rw [if_pos same] at found
      have long := List.length_pos_of_ne_nil (some_ same)
      by_cases old : i < (fulfillments p s.log).length
      · rw [List.getElem?_append_left old] at found
        exact sound.answers i as notify found
      · rw [List.getElem?_append_right (Nat.le_of_not_lt old)] at found
        have zero : i - (fulfillments p s.log).length = 0 := by
          by_contra more
          rw [List.getElem?_eq_none (by simp only [List.length_singleton]; omega)] at found
          cases found
        rw [zero] at found
        cases found
        simp only [Bool.false_eq_true, false_iff]
        omega
    · rw [if_neg same, List.append_nil] at found
      exact sound.answers i as notify found

theorem step_sound {a : ℕ × PromiseSystem.Act V T} (sound : Sound p s q) (apart : Apart p s a)
    (moves : Moves a.1 s q a.2 u q') (related : Related u.events q') : Sound p u q' := by
  obtain ⟨fuel, a⟩ := a
  have quiet {values : List (Val V)} {log : List (Entry V T)} {doing : T → Option (Doing V)}
      (own : doing s.events.control.running = none)
      (others : ∀ x, x ≠ s.events.control.running → doing x = s.doing x)
      (same : fulfillments p log = fulfillments p s.log)
      (related : Related { s.events with control := s.events.control.deliver values }
        { q with control := q.control.deliver values }) :
      Sound p ⟨{ s.events with control := s.events.control.deliver values }, s.results, doing, log⟩
        { q with control := q.control.deliver values } := by
    refine sound.deliver related rfl own others sound.secrets id ?_ ?_ ?_
    · rw [firstArguments, same, firstArguments]
    · exact sound.results.trans (by rw [same])
    · exact same.symm ▸ sound.answers
  have returns : ∀ x, x ≠ s.events.control.running →
      Function.update s.doing s.events.control.running none x = s.doing x :=
    fun x other => Function.update_of_ne other _ _
  cases moves with
  | @event b events _ own steps =>
    have own : s.events.control.loop ≠ none ∨ s.doing s.events.control.running = none :=
      own.symm.imp id fun free => free.2
    cases b with
    | await e =>
      refine sound.steps steps related own nofun nofun (fun member => ?_) nofun
      exact apart (List.mem_singleton.mp member).symm
    | awaitall args => exact sound.steps steps related own nofun nofun apart nofun
    | awaitany args => exact sound.steps steps related own nofun nofun apart nofun
    | emitone e args =>
      refine sound.steps steps related own nofun ?_ nofun nofun
      rintro as same
      cases same
      exact apart rfl
    | emitall e args =>
      refine sound.steps steps related own ?_ nofun nofun nofun
      rintro as same
      cases same
      exact apart rfl
    | resume x args =>
      refine sound.steps steps related own nofun nofun nofun ?_
      rintro y as same
      cases same
      exact apart
    | yield args => exact sound.steps steps related own nofun nofun nofun nofun
    | finish ok args => exact sound.steps steps related own nofun nofun nofun nofun
    | iterate => exact sound.steps steps related own nofun nofun nofun nofun
  | claims free fulfilled => exact quiet free.2 (fun _ _ => rfl) rfl related
  | @waits x events _ free pending steps =>
    have sound' : Sound p { s with events := events } q' := by
      refine sound.steps steps related (.inr free.2) nofun nofun (fun member => ?_) nofun
      cases List.mem_singleton.mp member
      exact pending
    refine sound'.call free.2 fun same => ?_
    cases same
    obtain ⟨-, yields, r, l, -, rfl⟩ := await_called sound.related.inv steps.queues
    rw [sound.related.control]
    exact ⟨l, giveback_given yields _ _⟩
  | probes free => exact quiet free.2 (fun _ _ => rfl) rfl related
  | @first x args events _ free pending owns steps =>
    by_cases same : x = p
    · subst x
      exact sound.first free pending owns steps related
    · have secret : .listof ∉ args := by
        rw [sound.related.control] at owns
        exact owns_secret sound.related.inv.controlled owns
      have sound' : Sound p { s with events := events } q' := by
        refine sound.steps steps related (.inr free.2) ?_ nofun nofun nofun
        intro as emits
        cases emits
        exact same rfl
      have fulfills : (.fulfill x : Doing V) ≠ .claim p := fun h => by cases h
      exact (sound'.other same secret).call free.2 fun claims => absurd claims fulfills
  | again free fulfilled owns => exact sound.again free fulfilled owns related
  | awaitall free steps =>
    refine sound.steps steps related (.inr free.2) nofun nofun (fun member => ?_) nofun
    obtain ⟨y, pending, same⟩ := List.mem_map.mp member
    cases same
    exact pending_onlypending pending
  | awaitany free picked steps =>
    refine sound.steps steps related (.inr free.2) nofun nofun (fun member => ?_) nofun
    obtain ⟨y, given, same⟩ := List.mem_map.mp member
    cases y with
    | none => cases same
    | some y =>
      cases same
      exact pending_pickready apart picked given
  | ready free picked => exact quiet free.2 (fun _ _ => rfl) rfl related
  | notified idle inside => exact quiet (Function.update_self _ _ _) returns rfl related
  | returns idle inside => exact quiet (Function.update_self _ _ _) returns rfl related

/-- Once the promise is fulfilled and was notified, its lists are empty. -/
theorem Sound.empty (sound : Sound p s q) (fulfilled : s.results p ≠ none)
    (returned : ∀ x, s.doing x ≠ some (.fulfill p)) {k : ℕ} (event : q.registry.event k = .ref p) :
    q.registry.queue k = [] := by
  by_contra some
  have live := sound.related.inv.queues.live k some
  rw [event] at live
  rcases live with found | out
  · rw [← sound.related.refines.listof, sound.away fulfilled] at found
    cases found
  · rcases List.mem_append.mp out with looping | below
    · obtain ⟨⟨l, e, args⟩, loop, same⟩ := List.mem_map.mp looping
      obtain ⟨rfl, rfl⟩ := Prod.mk.inj same
      exact returned _ (sound.frames.loop l _ args (Option.mem_toList.mp loop) l args rfl).1
    · obtain ⟨⟨x, frame⟩, inside, known⟩ := List.mem_flatMap.mp below
      cases frame with
      | emitall l e args =>
        obtain ⟨rfl, rfl⟩ := Prod.mk.inj (List.mem_singleton.mp known)
        exact returned _ (sound.frames.stack _ inside k args rfl).1
      | user => cases known
      | emitone => cases known

theorem Sound.settled (sound : Sound p s q) (fulfilled : s.results p ≠ none)
    (returned : ∀ x, s.doing x ≠ some (.fulfill p)) (claims : s.doing t = some (.claim p)) :
    ¬ Suspended t s.events := by
  rintro ⟨call, suspended⟩
  rw [sound.related.control] at suspended
  obtain ⟨running, -, -⟩ | ⟨k, status⟩ := sound.parked t claims
  · rw [← running, sound.related.control, sound.related.inv.controlled.running] at suspended
    cases suspended
  · obtain ⟨member, event⟩ := awaiting_member sound.related.inv status
    rw [sound.empty fulfilled returned event] at member
    cases member

theorem sound_init (p : V) (main : T) :
    Sound p (PromiseSystem.State.init main) ⟨Queues.empty, Control.init main⟩ := by
  refine ⟨⟨refines_empty, rfl, init_inv main⟩, ?_, ?_, ?_, ?_, ?_, rfl, ?_⟩
  · exact fun _ member => List.not_mem_nil member
  · intro x vs found
    cases found
  · intro fulfilled
    exact absurd rfl fulfilled
  · exact ⟨nofun, nofun⟩
  · intro t claims
    cases claims
  · intro i args notify found
    cases found

theorem run_sound {main : T} {acts : List (ℕ × PromiseSystem.Act V T)}
    (ran : run (PromiseSystem.next registryLists) (PromiseSystem.State.init main) acts = some s)
    (apart : Along (PromiseSystem.next registryLists) (Apart p) (PromiseSystem.State.init main)
      acts) : ∃ q, Sound p s q := by
  refine run_invariant_along (fun s => ∃ q, Sound p s q) (Apart p) ?_ ⟨_, sound_init p main⟩ apart ran
  rintro s a u ⟨q, sound⟩ apart stepped
  obtain ⟨q', related, moves⟩ := next_moves sound.related sound.told sound.secrets stepped
  exact ⟨q', step_sound sound apart moves related⟩

structure Kept (p : V) (s : PromiseSystem.State (Registry V T) V T) : Prop where
  answers : ∀ i args notify, (fulfillments p s.log)[i]? = some (args, notify) →
    (notify = true ↔ i = 0)
  results : s.results p = (fulfillments p s.log).getLast?.map Prod.fst
  notified : s.results p ≠ none → (∀ x, s.doing x ≠ some (.fulfill p)) →
    ∀ t, s.doing t = some (.claim p) → ¬ Suspended t s.events
  claims : ∀ fuel results, s.free → s.results p = some results →
    PromiseSystem.step registryLists fuel s (.claim p) =
      .next ((s.deliver results).note (.claimed s.events.control.running p results))

/-- After any claims, probes and fulfillments of a promise by any coroutines, which may be resumed
at any time: its fulfillment function returned true to its first call only; its results are those
of the last call, which a claim returns at once; and nobody waits in a claim once it is fulfilled
and the first call has returned. -/
theorem promise_kept (main : T) (p : V) (acts : List (ℕ × PromiseSystem.Act V T))
    (s : PromiseSystem.State (Registry V T) V T)
    (ran : run (PromiseSystem.next registryLists) (PromiseSystem.State.init main) acts = some s)
    (apart : Along (PromiseSystem.next registryLists) (Apart p) (PromiseSystem.State.init main)
      acts) : Kept p s := by
  obtain ⟨q, sound⟩ := run_sound ran apart
  refine ⟨sound.answers, sound.results, fun fulfilled returned t => sound.settled fulfilled returned,
    fun fuel results free fulfilled => ?_⟩
  simp only [PromiseSystem.step, if_pos free, claim, fulfilled]

/-- Two coroutines claim a promise. -/
def claimed : List (ℕ × PromiseSystem.Act ℕ (Fin 3)) :=
  [(0, .event (.resume 1 [])), (0, .claim 5), (0, .event (.resume 2 [])), (0, .claim 5)]

/-- One of the two fulfills the promise again, with its own claim just returned, while the first
call of the fulfillment function still notifies. -/
theorem promise_kept_again :
    ∃ s : PromiseSystem.State (Registry ℕ (Fin 3)) ℕ (Fin 3),
      run (PromiseSystem.next registryLists) (PromiseSystem.State.init 0)
        (claimed ++ [(0, .fulfill 5 [.bool false, .nil]), (0, .goon), (0, .fulfill 5 [.bool true]),
          (0, .event (.finish true [])), (4, .event .iterate), (0, .goon), (0, .claim 5)]) = some s ∧
      claimsOf 2 5 s.log = [[.bool false, .nil], [.bool true]] ∧ Kept 5 s := by
  have computed : (run (PromiseSystem.next registryLists)
      (PromiseSystem.State.init 0 : PromiseSystem.State (Registry ℕ (Fin 3)) ℕ (Fin 3))
      (claimed ++ [(0, .fulfill 5 [.bool false, .nil]), (0, .goon), (0, .fulfill 5 [.bool true]),
        (0, .event (.finish true [])), (4, .event .iterate), (0, .goon), (0, .claim 5)])).map
      (fun s => claimsOf 2 5 s.log) = some [[.bool false, .nil], [.bool true]] := by rfl
  obtain ⟨s, ran, got⟩ := Option.map_eq_some_iff.mp computed
  refine ⟨s, ran, got, promise_kept 0 5 _ s ran (along_always ?_)⟩
  intro a member u
  fin_cases member <;> simp [Apart]

/-- The coroutine is not resumed by other code in its claim. -/
def Undisturbed (p : V) (t : T) (s : PromiseSystem.State (Registry V T) V T)
    (a : ℕ × PromiseSystem.Act V T) : Prop :=
  Apart p s a ∧ ∀ args, a.2 = .event (.resume t args) → s.doing t ≠ some (.claim p)

/-- The coroutine waits in the claim it made before the promise was fulfilled, or was resumed by
the notification, or got the arguments of the first fulfillment. -/
structure Due (p : V) (t : T) (args : List (Val V)) (before : List (List (Val V)))
    (s : PromiseSystem.State (Registry V T) V T) (q : EventSystem.State (Queues V T) V T) :
    Prop where
  sound : Sound p s q
  first : firstArguments p s.log = some args
  gets : (s.doing t = some (.claim p) ∧ claimsOf t p s.log = before ∧
      ((∃ k, q.control.status t = .suspended (.await (.ref p) (some k))) ∨
        Returned t (.ref p :: args) s.events)) ∨
    ∃ more, claimsOf t p s.log = before ++ args :: more

omit [DecidableEq T] in
theorem firstArguments_kept {log new : List (Entry V T)} {args : List (Val V)}
    (first : firstArguments p log = some args) :
    firstArguments p (new ++ log) = some args := by
  have split : fulfillments p (new ++ log) = fulfillments p log ++ fulfillments p new := by
    simp [fulfillments, List.filterMap_append]
  rw [firstArguments] at first ⊢
  rw [split]
  cases old : fulfillments p log with
  | nil => simp [old] at first
  | cons head rest => simpa [old] using first

theorem moves_log {a : PromiseSystem.Act V T} (moves : Moves fuel s q a u q') :
    ∃ new, u.log = new ++ s.log := by
  cases moves with
  | event own steps => exact ⟨[], rfl⟩
  | claims free fulfilled => exact ⟨[_], rfl⟩
  | waits free pending steps => exact ⟨[], rfl⟩
  | probes free => exact ⟨[], rfl⟩
  | first free pending owns steps => exact ⟨[_], rfl⟩
  | again free fulfilled owns => exact ⟨[_], rfl⟩
  | awaitall free steps => exact ⟨[], rfl⟩
  | awaitany free picked steps => exact ⟨[], rfl⟩
  | ready free picked => exact ⟨[], rfl⟩
  | notified idle inside => exact ⟨[_], rfl⟩
  | returns idle inside => exact ⟨[], rfl⟩

/-- What a coroutine that waits in its claim is resumed with. -/
theorem Sound.resumes {args : List (Val V)} (sound : Sound p s q)
    (steps : Steps fuel b s.events events q q') (related : Related events q') {k : ℕ}
    (status : q.control.status t = .suspended (.await (.ref p) (some k)))
    (first : firstArguments p s.log = some args)
    (all : ∀ args, b ≠ .emitall (.ref p) args) (one : ∀ args, b ≠ .emitone (.ref p) args)
    (undisturbed : ∀ args, b ≠ .resume t args) :
    (∃ k, q'.control.status t = .suspended (.await (.ref p) (some k))) ∨
      Returned t (.ref p :: args) events := by
  obtain waits | ⟨as, resumes, -⟩ | ⟨as, returned, emits⟩ :=
    await_step sound.related.inv status steps.queues
  · exact .inl ⟨k, waits⟩
  · exact absurd resumes (undisturbed as)
  · right
    obtain ⟨l, loop⟩ | emits | emits := emits
    · have emitted := (sound.frames.loop l _ as loop l as rfl).2
      rw [first] at emitted
      cases emitted
      exact returned.related related
    · exact absurd emits (all as)
    · exact absurd emits (one as)

theorem claimsOf_append (new log : List (Entry V T)) :
    claimsOf t p (new ++ log) = claimsOf t p log ++ claimsOf t p new := by
  simp [claimsOf, List.filterMap_append]

/-- A step of another coroutine, while this one waits in its claim. -/
theorem Due.waits {args : List (Val V)} {before : List (List (Val V))}
    {a : ℕ × PromiseSystem.Act V T} (due : Due p t args before s q)
    (undisturbed : Undisturbed p t s a) (moves : Moves a.1 s q a.2 u q')
    (related : Related u.events q') (claims : s.doing t = some (.claim p))
    (log : claimsOf t p s.log = before) {k : ℕ}
    (status : q.control.status t = .suspended (.await (.ref p) (some k))) :
    u.doing t = some (.claim p) ∧ claimsOf t p u.log = before ∧
      ((∃ k, q'.control.status t = .suspended (.await (.ref p) (some k))) ∨
        Returned t (.ref p :: args) u.events) := by
  obtain ⟨fuel, a⟩ := a
  have away : t ≠ s.events.control.running := by
    rintro rfl
    rw [due.sound.related.control, due.sound.related.inv.controlled.running] at status
    cases status
  have others (doing : Option (Doing V)) :
      Function.update s.doing s.events.control.running doing t = some (.claim p) := by
    rw [Function.update_of_ne away, claims]
  have noted (x : V) (values : List (Val V)) :
      claimsOf t p (.claimed s.events.control.running x values :: s.log) = before := by
    rw [claimsOf_claimed, if_neg (fun same => away same.1.symm), List.append_nil, log]
  have pending := due.sound.fulfilled due.first
  cases moves with
  | @event b events _ own steps =>
    refine ⟨claims, log, due.sound.resumes steps related status due.first ?_ ?_ ?_⟩
    · rintro as rfl
      exact undisturbed.1 rfl
    · rintro as rfl
      exact undisturbed.1 rfl
    · rintro as rfl
      exact undisturbed.2 as rfl claims
  | claims free fulfilled => exact ⟨claims, noted _ _, .inl ⟨k, status⟩⟩
  | waits free pending steps =>
    exact ⟨others _, log, due.sound.resumes steps related status due.first
      (fun _ h => by cases h) (fun _ h => by cases h) (fun _ h => by cases h)⟩
  | probes free => exact ⟨claims, log, .inl ⟨k, status⟩⟩
  | @first x as events _ free none' owns steps =>
    refine ⟨others _, log, due.sound.resumes steps related status due.first ?_
      (fun _ h => by cases h) (fun _ h => by cases h)⟩
    intro as' same
    cases same
    exact pending none'
  | again free fulfilled owns => exact ⟨claims, log, .inl ⟨k, status⟩⟩
  | awaitall free steps =>
    exact ⟨claims, log, due.sound.resumes steps related status due.first
      (fun _ h => by cases h) (fun _ h => by cases h) (fun _ h => by cases h)⟩
  | awaitany free picked steps =>
    exact ⟨claims, log, due.sound.resumes steps related status due.first
      (fun _ h => by cases h) (fun _ h => by cases h) (fun _ h => by cases h)⟩
  | ready free picked => exact ⟨claims, log, .inl ⟨k, status⟩⟩
  | notified idle inside => exact ⟨others _, noted _ _, .inl ⟨k, status⟩⟩
  | returns idle inside => exact ⟨others _, log, .inl ⟨k, status⟩⟩

/-- The step of a coroutine that the notification resumed is to return from its claim. -/
theorem claimer_goes {args : List (Val V)} {before : List (List (Val V))}
    {a : PromiseSystem.Act V T} (moves : Moves fuel s q a u q')
    (claims : s.doing t = some (.claim p)) (log : claimsOf t p s.log = before)
    (returned : Returned t (.ref p :: args) s.events) :
    claimsOf t p u.log = before ++ [args] := by
  obtain ⟨rfl, idle, values⟩ := returned
  have busy : ¬ s.free := by
    intro free
    rw [free.2] at claims
    cases claims
  cases moves with
  | event own steps => exact (own.elim busy fun loop => loop idle).elim
  | claims free fulfilled => exact (busy free).elim
  | waits free pending steps => exact (busy free).elim
  | probes free => exact (busy free).elim
  | first free pending owns steps => exact (busy free).elim
  | again free fulfilled owns => exact (busy free).elim
  | awaitall free steps => exact (busy free).elim
  | awaitany free picked steps => exact (busy free).elim
  | ready free picked => exact (busy free).elim
  | notified idle inside =>
    rw [claims] at inside
    cases inside
    change claimsOf _ p (.claimed _ p (handlenotify p s.events.control.values) :: s.log) = _
    rw [values, claimsOf_claimed, if_pos ⟨rfl, rfl⟩, log]
    simp [handlenotify]
  | returns idle inside =>
    rw [claims] at inside
    cases inside

theorem step_due {args : List (Val V)} {before : List (List (Val V))}
    {a : ℕ × PromiseSystem.Act V T} (due : Due p t args before s q)
    (undisturbed : Undisturbed p t s a) (moves : Moves a.1 s q a.2 u q')
    (related : Related u.events q') : Due p t args before u q' := by
  have sound' := step_sound due.sound undisturbed.1 moves related
  obtain ⟨new, log⟩ := moves_log moves
  refine ⟨sound', log ▸ firstArguments_kept due.first, ?_⟩
  obtain ⟨claims, same, ⟨k, status⟩ | returned⟩ | ⟨more, got⟩ := due.gets
  · exact .inl (due.waits undisturbed moves related claims same status)
  · exact .inr ⟨[], claimer_goes moves claims same returned⟩
  · right
    rw [log, claimsOf_append, got]
    exact ⟨more ++ claimsOf t p new, by simp⟩

theorem fulfill_due {args : List (Val V)} (sound : Sound p s q) (pending : s.results p = none)
    (claims : s.doing t = some (.claim p)) (suspended : Suspended t s.events)
    (moves : Moves fuel s q (.fulfill p args) u q') (related : Related u.events q') :
    Due p t args (claimsOf t p s.log) u q' := by
  have sound' := step_sound (a := (fuel, .fulfill p args)) sound trivial moves related
  cases moves with
  | again free fulfilled owns =>
    rw [pending] at fulfilled
    cases fulfilled
  | @first x as events _ free pending' owns steps =>
    have away : t ≠ s.events.control.running := by
      rintro rfl
      obtain ⟨call, status⟩ := suspended
      rw [sound.related.control, sound.related.inv.controlled.running] at status
      cases status
    have none' := sound.unfulfilled pending
    obtain ⟨k, status⟩ := sound.busy (.inr free.2) claims
    refine ⟨sound', by simp [firstArguments, none'], .inl ⟨?_, rfl, ?_⟩⟩
    · change Function.update s.doing s.events.control.running (some (.fulfill p)) t = _
      rw [Function.update_of_ne away, claims]
    · obtain waits | ⟨as, resumes, -⟩ | ⟨as, returned, emits⟩ :=
        await_step sound.related.inv status steps.queues
      · exact .inl ⟨k, waits⟩
      · cases resumes
      · right
        obtain ⟨l, loop⟩ | emits | emits := emits
        · have idle := free.1
          rw [sound.related.control, loop] at idle
          cases idle
        · cases emits
          exact returned.related related
        · cases emits

/-- A coroutine that waits in its claim when the promise is fulfilled, and is not resumed by other
code, returns from it before the first call of the fulfillment function does, with the arguments
of that call. -/
theorem claimers_notified (main : T) (p : V) (t : T) (as bs : List (ℕ × PromiseSystem.Act V T))
    (s v u : PromiseSystem.State (Registry V T) V T) (fuel : ℕ) (args : List (Val V))
    (ran : run (PromiseSystem.next registryLists) (PromiseSystem.State.init main) as = some s)
    (apart : Along (PromiseSystem.next registryLists) (Apart p) (PromiseSystem.State.init main) as)
    (pending : s.results p = none) (claims : s.doing t = some (.claim p))
    (suspended : Suspended t s.events)
    (fulfills : PromiseSystem.next registryLists s (fuel, .fulfill p args) = some v)
    (rest : run (PromiseSystem.next registryLists) v bs = some u)
    (undisturbed : Along (PromiseSystem.next registryLists) (Undisturbed p t) v bs)
    (returned : ∀ x, u.doing x ≠ some (.fulfill p)) :
    ∃ more, claimsOf t p u.log = claimsOf t p s.log ++ args :: more := by
  obtain ⟨q, sound⟩ := run_sound ran apart
  obtain ⟨q₁, related, moves⟩ := next_moves sound.related sound.told sound.secrets fulfills
  have start := fulfill_due sound pending claims suspended moves related
  obtain ⟨q₂, due⟩ : ∃ q, Due p t args (claimsOf t p s.log) u q := by
    refine run_invariant_along (fun u => ∃ q, Due p t args (claimsOf t p s.log) u q)
      (Undisturbed p t) ?_ ⟨q₁, start⟩ undisturbed rest
    rintro s₁ a s₂ ⟨q₃, due⟩ undisturbed stepped
    obtain ⟨q₄, related', moves'⟩ :=
      next_moves due.sound.related due.sound.told due.sound.secrets stepped
    exact ⟨q₄, step_due due undisturbed moves' related'⟩
  obtain ⟨claims', -, waits | woken⟩ | got := due.gets
  · obtain ⟨k, status⟩ := waits
    rw [← due.sound.related.control] at status
    exact absurd ⟨_, status⟩
      (due.sound.settled (due.sound.fulfilled due.first) returned claims')
  · obtain ⟨running, idle, values⟩ := woken
    obtain ⟨-, -, notified⟩ | ⟨k, status⟩ := due.sound.parked t claims'
    · obtain ⟨-, x, fulfills⟩ := notified (by rw [values]; rfl)
      exact absurd fulfills (returned x)
    · rw [← running, due.sound.related.control, due.sound.related.inv.controlled.running] at status
      cases status
  · exact got

/-- What goes on after the first call of the fulfillment function, where the first of the two ends
before the second one is notified. -/
def notified : List (ℕ × PromiseSystem.Act ℕ (Fin 3)) :=
  [(0, .goon), (0, .event (.finish true [])), (4, .event .iterate), (0, .goon),
    (0, .event (.yield [])), (0, .event .iterate), (0, .goon)]

theorem claimers_notified_both :
    ∃ s u : PromiseSystem.State (Registry ℕ (Fin 3)) ℕ (Fin 3),
      run (PromiseSystem.next registryLists) (PromiseSystem.State.init 0) claimed = some s ∧
      run (PromiseSystem.next registryLists) s ((0, .fulfill 5 [.bool false, .nil]) :: notified) =
        some u ∧ s.events.control.running = 0 ∧
      ∃ more, claimsOf 2 5 u.log = claimsOf 2 5 s.log ++ [.bool false, .nil] :: more := by
  have before : (run (PromiseSystem.next registryLists)
      (PromiseSystem.State.init 0 : PromiseSystem.State (Registry ℕ (Fin 3)) ℕ (Fin 3)) claimed).map
      (fun s => (s.events.control.running, s.results 5, s.doing 2, s.events.control.status 2)) =
        some (0, none, some (.claim 5), .suspended (.await (.ref 5) (some 0))) := by rfl
  have after : (run (PromiseSystem.next registryLists)
      (PromiseSystem.State.init 0 : PromiseSystem.State (Registry ℕ (Fin 3)) ℕ (Fin 3))
      (claimed ++ (0, .fulfill 5 [.bool false, .nil]) :: notified)).map
      (fun s => decide (∀ x, s.doing x ≠ some (.fulfill 5))) = some true := by rfl
  obtain ⟨u, ran, returned⟩ := Option.map_eq_some_iff.mp after
  obtain ⟨s, first, rest⟩ := run_append.mp ran
  rw [first] at before
  obtain ⟨main, pending, claims, status⟩ : s.events.control.running = 0 ∧ s.results 5 = none ∧
      s.doing 2 = some (.claim 5) ∧
      s.events.control.status 2 = .suspended (.await (.ref 5) (some 0)) := by
    simpa using before
  obtain ⟨v, fulfills, rest'⟩ := run_cons.mp rest
  refine ⟨s, u, first, rest, main, ?_⟩
  have apart : Along (PromiseSystem.next registryLists) (Apart 5)
      (PromiseSystem.State.init 0 : PromiseSystem.State (Registry ℕ (Fin 3)) ℕ (Fin 3)) claimed := by
    refine along_always fun a member w => ?_
    fin_cases member <;> simp [Apart]
  refine claimers_notified 0 5 2 claimed notified s v u 0 [.bool false, .nil] first apart pending
    claims ⟨_, status⟩ fulfills rest' (along_always fun a member w => ?_)
    (of_decide_eq_true returned)
  fin_cases member <;> simp [Undisturbed, Apart]

end
end Coutil.PromiseFulfillment
