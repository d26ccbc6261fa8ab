import Coutil.PromiseFulfillment

set_option autoImplicit false

/-! What `promise.awaitall` and `promise.awaitany` return. -/
namespace Coutil.PromiseAwaiting
open Runs EventRegistry EventSystem EventInvariant EventPreservation EventRefinement EventAttempt
open EventFailure EventWake AwaitSemantics EmitLoop EventWaiters PromiseSystem PromiseFulfillment

section
variable {V T : Type} [DecidableEq V] [DecidableEq T]

/-- Each of the promises is used as `PromiseFulfillment.Apart` says. -/
def AllApart (ps : List V) (s : PromiseSystem.State (Registry V T) V T)
    (a : ℕ × PromiseSystem.Act V T) : Prop := ∀ p ∈ ps, Apart p s a

/-- The coroutine goes on waiting and is not resumed by other code. -/
structure Stays (ps : List V) (t : T) (s : PromiseSystem.State (Registry V T) V T)
    (a : ℕ × PromiseSystem.Act V T) : Prop where
  apart : AllApart ps s a
  waits : Suspended t s.events
  undisturbed : ∀ values, a.2 ≠ .event (.resume t values)

def await (all : Bool) (ps : List V) : PromiseSystem.Act V T :=
  if all then .awaitall (ps.map some) else .awaitany (ps.map some)

/-- What the call returns once these promises are fulfilled. -/
inductive Answers (ps : List V) (t : T) (s : PromiseSystem.State (Registry V T) V T) : Bool → Prop
  | all (fulfilled : ∀ p ∈ ps, s.results p ≠ none) (returned : Returned t [.bool true] s.events) :
      Answers ps t s true
  | any {p : V} {args : List (Val V)} (given : p ∈ ps) (fulfilled : s.results p ≠ none)
      (first : firstArguments p s.log = some args)
      (returned : Returned t (.ref p :: args) s.events) : Answers ps t s false

variable {s u : PromiseSystem.State (Registry V T) V T} {q q' : EventSystem.State (Queues V T) V T}
variable {ps : List V} {p : V} {t : T} {fuel : ℕ}

theorem moves_results {a : PromiseSystem.Act V T} (moves : Moves fuel s q a u q')
    (fulfilled : s.results p ≠ none) : u.results p ≠ none := by
  have updated (x : V) (args : List (Val V)) : Function.update s.results x (some args) p ≠ none := by
    by_cases same : p = x
    · subst x
      rw [Function.update_self]
      exact Option.some_ne_none args
    · rw [Function.update_of_ne same]
      exact fulfilled
  cases moves with
  | first free pending owns steps => exact updated _ _
  | again free fulfilled owns => exact updated _ _
  | _ => exact fulfilled

/-- An emission on a promise has the arguments of its first fulfillment. -/
theorem emission_first {b : EventSystem.Act V T} {l : ℕ} {args : List (Val V)} {x : T}
    (sound : Sound p s q) (all : ∀ as, b ≠ .emitall (.ref p) as)
    (one : ∀ as, b ≠ .emitone (.ref p) as)
    (wakes : woken queueLists q b = some (.emission l (.ref p) args x)) :
    firstArguments p s.log = some args := by
  obtain ⟨r, frame, pops⟩ := woken_pops wakes
  cases pops with
  | iterate loop nonempty popped => exact (sound.frames.loop l _ args loop l args rfl).2
  | emitall idle found popped => exact absurd rfl (all args)
  | emitone idle found popped => exact absurd rfl (one args)

/-- A step is a call of the event module or gives values to the running coroutine; an emission on
a promise has the arguments of its first fulfillment. -/
theorem step_emits {a : ℕ × PromiseSystem.Act V T} (sound : ∀ p ∈ ps, Sound p s q)
    (apart : AllApart ps s a) (moves : Moves a.1 s q a.2 u q') :
    (∃ b, Steps a.1 b s.events u.events q q' ∧
      (∀ x args, b = .resume x args → a.2 = .event b) ∧
      ∀ p ∈ ps, ∀ l args x, woken queueLists q b = some (.emission l (.ref p) args x) →
        firstArguments p u.log = some args) ∨
    ∃ values, q' = { q with control := q.control.deliver values } := by
  obtain ⟨fuel, a⟩ := a
  have silent {b : EventSystem.Act V T} {events : EventSystem.State (Registry V T) V T}
      (steps : Steps fuel b s.events events q q') (resumes : ∀ x args, b ≠ .resume x args)
      (all : ∀ e as, b ≠ .emitall e as) (one : ∀ e as, b ≠ .emitone e as) :
      (∃ b, Steps fuel b s.events events q q' ∧
        (∀ x args, b = .resume x args → a = .event b) ∧
        ∀ p ∈ ps, ∀ l args x, woken queueLists q b = some (.emission l (.ref p) args x) →
          firstArguments p s.log = some args) ∨
      ∃ values, q' = { q with control := q.control.deliver values } :=
    .inl ⟨b, steps, fun x args same => absurd same (resumes x args),
      fun p given l args x wakes => emission_first (sound p given) (all _) (one _) wakes⟩
  cases moves with
  | @event b events _ own steps =>
    refine .inl ⟨b, steps, fun _ _ _ => rfl, fun p given l args x wakes => ?_⟩
    have first := emission_first (sound p given) (b := b) ?_ ?_ wakes
    · exact first
    · rintro as rfl
      exact apart p given rfl
    · rintro as rfl
      exact apart p given rfl
  | claims free fulfilled => exact .inr ⟨_, rfl⟩
  | waits free pending steps =>
    exact silent steps (fun _ _ h => by cases h) (fun _ _ h => by cases h) (fun _ _ h => by cases h)
  | probes free => exact .inr ⟨_, rfl⟩
  | @first y as events _ free pending owns steps =>
    refine .inl ⟨_, steps, (fun _ _ h => by cases h), fun p given l args x wakes => ?_⟩
    by_cases same : y = p
    · subst y
      obtain ⟨r, frame, pops⟩ := woken_pops wakes
      cases pops with
      | emitall idle found popped => simp [firstArguments, (sound p given).unfulfilled pending]
    · have first := emission_first (sound p given) (b := .emitall (.ref y) as) (fun args emits => ?_)
        (fun _ h => by cases h) wakes
      · simpa [firstArguments, same] using first
      · cases emits
        exact same rfl
  | again free fulfilled owns => exact .inr ⟨_, rfl⟩
  | awaitall free steps =>
    exact silent steps (fun _ _ h => by cases h) (fun _ _ h => by cases h) (fun _ _ h => by cases h)
  | awaitany free picked steps =>
    exact silent steps (fun _ _ h => by cases h) (fun _ _ h => by cases h) (fun _ _ h => by cases h)
  | ready free picked => exact .inr ⟨_, rfl⟩
  | notified idle inside => exact .inr ⟨_, rfl⟩
  | returns idle inside => exact .inr ⟨_, rfl⟩

/-- The call of the event module in which `promise.awaitall` waits for those promises that were
pending, and `promise.awaitany` for all of them. -/
def inner (all : Bool) (ps pending : List V) : EventSystem.Act V T :=
  if all then .awaitall (pending.map .ref) else .awaitany (ps.map .ref)

/-- The coroutine waits, and the promises that it was resumed for are fulfilled. -/
structure Awaits (all : Bool) (ps pending : List V) (t : T) (events : List (Val V))
    (regs : List (Val V × ℕ)) (s : PromiseSystem.State (Registry V T) V T)
    (q : EventSystem.State (Queues V T) V T) : Prop where
  sound : ∀ p ∈ ps, Sound p s q
  tracked : Tracked (inner all ps pending) t events regs q
  served : ∀ p, .ref p ∈ events → s.results p ≠ none
  given : ∀ p ∈ pending, p ∈ ps
  others : ∀ p ∈ ps, p ∈ pending ∨ s.results p ≠ none

omit [DecidableEq V] [DecidableEq T] in
theorem inner_given {all : Bool} {pending : List V} (given : ∀ p ∈ pending, p ∈ ps) {e : Val V}
    (member : e ∈ arguments (inner all ps pending : EventSystem.Act V T)) :
    ∃ p ∈ ps, e = .ref p := by
  cases all with
  | true =>
    obtain ⟨p, known, same⟩ := List.mem_map.mp member
    exact ⟨p, given p known, same.symm⟩
  | false =>
    obtain ⟨p, known, same⟩ := List.mem_map.mp member
    exact ⟨p, known, same.symm⟩

/-- Some promise that the coroutine waits for was not notified yet. -/
theorem Awaits.pends {all : Bool} {pending : List V} {events : List (Val V)}
    {regs : List (Val V × ℕ)} (awaits : Awaits all ps pending t events regs s q)
    (related : Related s.events q) (returned : ∀ p ∈ ps, ∀ x, s.doing x ≠ some (.fulfill p)) :
    if all then ∃ p ∈ ps, s.results p = none else ∀ p ∈ ps, s.results p = none := by
  have outside : ∀ {args : List (Val V)} {e : Val V} {k : ℕ}, Registered q.registry args (e, k) →
      ∀ p ∈ ps, e = .ref p → s.results p ≠ none → t ∉ q.registry.queue k := by
    rintro args e k registered p given rfl fulfilled member
    rw [(awaits.sound p given).empty fulfilled (returned p given) registered.event] at member
    cases member
  obtain ⟨args, count, call, status⟩ | ⟨args, call, none_, status⟩ := awaits.tracked.status
  · cases all with
    | false => cases call
    | true =>
      change ∃ p ∈ ps, s.results p = none
      by_contra every
      push Not at every
      obtain ⟨registered, -, counted⟩ := related.inv.waiting t _ status
      have nobody : regs.countP (fun r => decide (t ∈ q.registry.queue r.2)) = 0 := by
        rw [List.countP_eq_zero]
        intro r member
        have listed := (awaits.tracked.listed.events r.1).mp (List.mem_map_of_mem member)
        obtain ⟨p, given, same⟩ := inner_given awaits.given listed.1
        simpa using outside (registered r member) p given same (every p given)
      omega
  · cases all with
    | true => cases call
    | false =>
      change ∀ p ∈ ps, s.results p = none
      intro p given
      by_contra fulfilled
      have listed : .ref p ∈ arguments (inner false ps pending : EventSystem.Act V T) :=
        List.mem_map_of_mem given
      obtain ⟨r, member, same⟩ := List.mem_map.mp
        ((awaits.tracked.listed.events (.ref p)).mpr ⟨listed, fun h => by cases h⟩)
      obtain ⟨registered, inside⟩ := related.inv.waiting t _ status r member
      exact outside registered p given same fulfilled inside

theorem Awaits.step {all : Bool} {pending : List V} {events : List (Val V)}
    {regs : List (Val V × ℕ)} {a : ℕ × PromiseSystem.Act V T} (some_ : ps ≠ [])
    (awaits : Awaits all ps pending t events regs s q) (apart : AllApart ps s a)
    (moves : Moves a.1 s q a.2 u q') (related : Related u.events q')
    (undisturbed : ∀ values, a.2 ≠ .event (.resume t values)) :
    (∃ events', Awaits all ps pending t events' regs u q') ∨ Answers ps t u all := by
  have sound' : ∀ p ∈ ps, Sound p u q' :=
    fun p given => step_sound (awaits.sound p given) (apart p given) moves related
  have others : ∀ p ∈ ps, p ∈ pending ∨ u.results p ≠ none :=
    fun p given => (awaits.others p given).imp id fun fulfilled => moves_results moves fulfilled
  obtain ⟨p₀, given₀⟩ := List.exists_mem_of_ne_nil ps some_
  have inv := (awaits.sound p₀ given₀).related.inv
  obtain ⟨b, steps, resumes, emits⟩ | ⟨values, rfl⟩ := step_emits awaits.sound apart moves
  · obtain ⟨fresh, result⟩ := tracked_step awaits.tracked inv steps.queues
    have fulfilled : ∀ p, .ref p ∈ received t (woken queueLists q b) → p ∈ ps ∧
        ∃ args, firstArguments p u.log = some args ∧
          ∃ l, woken queueLists q b = some (.emission l (.ref p) args t) := by
      intro p member
      obtain ⟨p', given, same⟩ := inner_given awaits.given (fresh _ member).2.1
      cases same
      cases wakes : woken queueLists q b with
      | none => simp [received, wakes] at member
      | some wake =>
        cases wake with
        | resume x args => simp [received, wakes] at member
        | emission l e args x =>
          rw [wakes, received] at member
          split at member
          · rename_i here
            subst x
            cases List.mem_singleton.mp member
            exact ⟨given, args, emits p given l args t wakes, l, rfl⟩
          · cases member
    have kept : ∀ p, .ref p ∈ events ++ received t (woken queueLists q b) → u.results p ≠ none := by
      intro p member
      obtain old | new := List.mem_append.mp member
      · exact moves_results moves (awaits.served p old)
      · obtain ⟨given, args, first, -⟩ := fulfilled p new
        exact (sound' p given).fulfilled first
    cases wakes : woken queueLists q b with
    | none =>
      rw [wakes] at result kept
      simp only [effect] at result
      exact .inl ⟨_, sound', result, kept, awaits.given, others⟩
    | some wake =>
      cases wake with
      | resume x args =>
        have isresume := (woken_resume wakes).2
        have other : x ≠ t := by
          rintro rfl
          exact undisturbed args (isresume ▸ resumes x args isresume)
        rw [wakes] at result kept
        simp only [effect, if_neg other] at result
        exact .inl ⟨_, sound', result, kept, awaits.given, others⟩
      | emission l e args x =>
        by_cases here : x = t
        · subst x
          have member : e ∈ received t (woken queueLists q b) := by simp [received, wakes]
          obtain ⟨p, known, rfl⟩ := inner_given awaits.given (fresh e member).2.1
          obtain ⟨given, args', first, l', same⟩ := fulfilled p member
          rw [wakes] at same
          cases same
          rw [wakes] at result kept
          simp only [effect, if_true] at result
          cases all with
          | false =>
            have fulfilled' := (sound' p given).fulfilled first
            exact .inr (.any given fulfilled' first (result.related related))
          | true =>
            by_cases every : ∀ arg ∈ pending.map Val.ref, arg ≠ .nil → arg ∈ events ++ [.ref p]
            · have answered : answer (inner true ps pending : EventSystem.Act V T) events (.ref p)
                  args = some [.bool true] := if_pos every
              rw [answered] at result
              refine .inr (.all (fun p' given' => ?_) (result.related related))
              obtain waits | fulfilled := others p' given'
              · refine kept p' ?_
                simpa [received] using every (.ref p') (List.mem_map_of_mem waits) (by simp)
              · exact fulfilled
            · have goes : answer (inner true ps pending : EventSystem.Act V T) events (.ref p)
                  args = none := if_neg every
              rw [goes] at result
              exact .inl ⟨_, sound', result, kept, awaits.given, others⟩
        · rw [wakes] at result kept
          simp only [effect, if_neg here] at result
          exact .inl ⟨_, sound', result, kept, awaits.given, others⟩
  · have tracked := awaits.tracked
    refine .inl ⟨events, sound', ⟨tracked.listed, tracked.status, tracked.member, tracked.nodup,
      tracked.subset⟩, fun p member => moves_results moves (awaits.served p member),
      awaits.given, others⟩

omit [DecidableEq V] [DecidableEq T] in
theorem mem_onlypending {R : Type} {s : PromiseSystem.State R V T} :
    p ∈ onlypending s (ps.map some) ↔ p ∈ ps ∧ s.results p = none := by
  induction ps with
  | nil => simp [onlypending]
  | cons x ps ih =>
    rw [List.map_cons, onlypending]
    by_cases fulfilled : probe s x = true
    · rw [if_pos fulfilled, ih, List.mem_cons]
      refine ⟨fun member => ⟨.inr member.1, member.2⟩, ?_⟩
      rintro ⟨rfl | member, pending⟩
      · simp [probe, pending] at fulfilled
      · exact ⟨member, pending⟩
    · rw [if_neg fulfilled, List.mem_cons, ih, List.mem_cons]
      constructor
      · rintro (rfl | member)
        · exact ⟨.inl rfl, by simpa [probe] using fulfilled⟩
        · exact ⟨.inr member.1, member.2⟩
      · rintro ⟨rfl | member, pending⟩
        · exact .inl rfl
        · exact .inr ⟨member, pending⟩

omit [DecidableEq V] [DecidableEq T] in
theorem pickready_given {R : Type} {s : PromiseSystem.State R V T}
    (picked : pickready s (ps.map some) = some p) : p ∈ ps ∧ s.results p ≠ none := by
  induction ps with
  | nil => cases picked
  | cons x ps ih =>
    rw [List.map_cons, pickready] at picked
    split at picked
    · rename_i fulfilled
      cases picked
      refine ⟨List.mem_cons_self, fun pending => ?_⟩
      simp [probe, pending] at fulfilled
    · exact ⟨List.mem_cons_of_mem x (ih picked).1, (ih picked).2⟩

theorem run_all_sound {main : T} {acts : List (ℕ × PromiseSystem.Act V T)} (some_ : ps ≠ [])
    (ran : run (PromiseSystem.next registryLists) (PromiseSystem.State.init main) acts = some s)
    (apart : Along (PromiseSystem.next registryLists) (AllApart ps) (PromiseSystem.State.init main)
      acts) : ∃ q, ∀ p ∈ ps, Sound p s q := by
  obtain ⟨p₀, given₀⟩ := List.exists_mem_of_ne_nil ps some_
  refine run_invariant_along (fun s => ∃ q, ∀ p ∈ ps, Sound p s q) (AllApart ps) ?_
    ⟨_, fun p _ => sound_init p main⟩ apart ran
  rintro s a u ⟨q, sound⟩ apart stepped
  obtain ⟨q', related, moves⟩ := next_moves (sound p₀ given₀).related (sound p₀ given₀).told
    (sound p₀ given₀).secrets stepped
  exact ⟨q', fun p given => step_sound (sound p given) (apart p given) moves related⟩

/-- What holds while the coroutine waits in the call: a step ends it when it can return, and while
no fulfillment of the promises notifies it has something to wait for. -/
structure Going (all : Bool) (ps : List V) (t : T) (u : PromiseSystem.State (Registry V T) V T) :
    Prop where
  next : ∀ b w, Stays ps t u b → PromiseSystem.next registryLists u b = some w →
    Suspended t w.events ∨ Answers ps t w all
  pends : Suspended t u.events → (∀ p ∈ ps, ∀ x, u.doing x ≠ some (.fulfill p)) →
    if all then ∃ p ∈ ps, u.results p = none else ∀ p ∈ ps, u.results p = none

/-- What a call does at once, and how it goes on if it waits. -/
structure Called (all : Bool) (ps : List V) (t : T)
    (s v : PromiseSystem.State (Registry V T) V T) : Prop where
  every : all = true → (∀ p ∈ ps, s.results p ≠ none) → Returned t [.bool true] v.events
  ready : all = false → (∃ p ∈ ps, s.results p ≠ none) →
    ∃ p ∈ ps, s.results p ≠ none ∧ Returned t [.bool true, .ref p] v.events
  waits : (if all then ∃ p ∈ ps, s.results p = none else ∀ p ∈ ps, s.results p = none) →
    Suspended t v.events ∧
    ∀ bs u, run (PromiseSystem.next registryLists) v bs = some u →
      Along (PromiseSystem.next registryLists) (Stays ps t) v bs → Going all ps t u

theorem run_awaits {all : Bool} {pending : List V} {events : List (Val V)}
    {regs : List (Val V × ℕ)} {bs : List (ℕ × PromiseSystem.Act V T)} (some_ : ps ≠ [])
    (awaits : Awaits all ps pending t events regs s q)
    (ran : run (PromiseSystem.next registryLists) s bs = some u)
    (stays : Along (PromiseSystem.next registryLists) (Stays ps t) s bs)
    (waits : Suspended t u.events) : ∃ q' events', Awaits all ps pending t events' regs u q' := by
  induction bs generalizing s q events with
  | nil =>
    cases ran
    exact ⟨q, events, awaits⟩
  | cons b bs ih =>
    obtain ⟨w, stepped, ran⟩ := run_cons.mp ran
    obtain ⟨apart, -, undisturbed⟩ := stays.1
    obtain ⟨p₀, given₀⟩ := List.exists_mem_of_ne_nil ps some_
    have sound := awaits.sound p₀ given₀
    obtain ⟨q', related, moves⟩ := next_moves sound.related sound.told sound.secrets stepped
    obtain ⟨events', awaits'⟩ | answers :=
      awaits.step some_ apart moves related undisturbed
    · exact ih awaits' ran (stays.2 w stepped)
    · have active : ∀ {values}, Returned t values w.events → ¬ Suspended t w.events := by
        rintro values ⟨rfl, -, -⟩ ⟨call, status⟩
        rw [related.control, related.inv.controlled.running] at status
        cases status
      have suspended : Suspended t w.events := by
        cases bs with
        | nil =>
          cases ran
          exact waits
        | cons b' bs => exact (stays.2 w stepped).1.waits
      cases answers with
      | all fulfilled returned => exact absurd suspended (active returned)
      | any given fulfilled first returned => exact absurd suspended (active returned)

theorem Awaits.goes {all : Bool} {pending : List V} {events : List (Val V)}
    {regs : List (Val V × ℕ)} (some_ : ps ≠ [])
    (awaits : Awaits all ps pending t events regs s q) (related : Related s.events q) :
    Suspended t s.events ∧
    ∀ bs u, run (PromiseSystem.next registryLists) s bs = some u →
      Along (PromiseSystem.next registryLists) (Stays ps t) s bs → Going all ps t u := by
  refine ⟨awaits.tracked.suspended.related related, fun bs u ran along => ⟨?_, ?_⟩⟩
  · intro b w stays stepped
    obtain ⟨p₀, given₀⟩ := List.exists_mem_of_ne_nil ps some_
    obtain ⟨q₁, events₁, awaits₁⟩ := run_awaits some_ awaits ran along stays.waits
    have sound := awaits₁.sound p₀ given₀
    obtain ⟨q₂, related₂, moves⟩ := next_moves sound.related sound.told sound.secrets stepped
    obtain ⟨events₂, awaits₂⟩ | answers :=
      awaits₁.step some_ stays.apart moves related₂ stays.undisturbed
    · exact .inl (awaits₂.tracked.suspended.related related₂)
    · exact .inr answers
  · intro waits returned
    obtain ⟨p₀, given₀⟩ := List.exists_mem_of_ne_nil ps some_
    obtain ⟨q₁, events₁, awaits₁⟩ := run_awaits some_ awaits ran along waits
    exact awaits₁.pends (awaits₁.sound p₀ given₀).related returned

omit [DecidableEq V] [DecidableEq T] in
theorem map_argument (ps : List V) : (ps.map some).map argument = ps.map Val.ref := by
  rw [List.map_map]
  rfl

omit [DecidableEq V] [DecidableEq T] in
theorem plain_promises (ps : List V) : none ∉ ps.map some := by simp

theorem called_all {v : PromiseSystem.State (Registry V T) V T} (some_ : ps ≠ [])
    (sound : ∀ p ∈ ps, Sound p s q) (moves : Moves fuel s q (.awaitall (ps.map some)) v q')
    (related : Related v.events q') : Called true ps s.events.control.running s v := by
  obtain ⟨p₀, given₀⟩ := List.exists_mem_of_ne_nil ps some_
  have before := (sound p₀ given₀).related
  have sound' : ∀ p ∈ ps, Sound p v q' := fun p given =>
    step_sound (a := (fuel, .awaitall (ps.map some))) (sound p given) trivial moves related
  cases moves with
  | awaitall free steps =>
    obtain ⟨atonce, waits⟩ := called_tracked before.inv (.inl ⟨_, rfl⟩) steps.queues
    rw [← before.control] at atonce waits
    refine ⟨fun _ fulfilled => ?_, nofun, fun pending => ?_⟩
    · refine (atonce fun e member => ?_).related related
      obtain ⟨p, waiting, -⟩ := List.mem_map.mp member
      obtain ⟨given, pending⟩ := mem_onlypending.mp waiting
      exact absurd pending (fulfilled p given)
    · obtain ⟨p, given, pending⟩ := pending
      have waiting := mem_onlypending.mpr ⟨given, pending⟩
      obtain ⟨regs, tracked⟩ := waits ⟨.ref p, List.mem_map_of_mem waiting, nofun⟩
      have others : ∀ x ∈ ps, x ∈ onlypending s (ps.map some) ∨ s.results x ≠ none := by
        intro x given
        by_cases fulfilled : s.results x = none
        · exact .inl (mem_onlypending.mpr ⟨given, fulfilled⟩)
        · exact .inr fulfilled
      have awaits : Awaits true ps (onlypending s (ps.map some)) s.events.control.running []
          regs _ q' :=
        ⟨sound', tracked, (fun _ h => by cases h), fun x waiting => (mem_onlypending.mp waiting).1,
          others⟩
      exact awaits.goes some_ related

theorem called_any {v : PromiseSystem.State (Registry V T) V T} (some_ : ps ≠ [])
    (sound : ∀ p ∈ ps, Sound p s q) (moves : Moves fuel s q (.awaitany (ps.map some)) v q')
    (related : Related v.events q') : Called false ps s.events.control.running s v := by
  obtain ⟨p₀, given₀⟩ := List.exists_mem_of_ne_nil ps some_
  have before := (sound p₀ given₀).related
  have sound' : ∀ p ∈ ps, Sound p v q' := fun p given =>
    step_sound (a := (fuel, .awaitany (ps.map some))) (sound p given) (plain_promises ps) moves
      related
  cases moves with
  | ready free picked =>
    obtain ⟨given, fulfilled⟩ := pickready_given picked
    refine ⟨nofun, fun _ _ => ⟨_, given, fulfilled, rfl, rfl, rfl⟩, fun pending => ?_⟩
    exact absurd (pending _ given) fulfilled
  | awaitany free picked steps =>
    have pending : ∀ p ∈ ps, s.results p = none := fun p given =>
      pending_pickready (plain_promises ps) picked (List.mem_map_of_mem given)
    rw [map_argument] at steps
    obtain ⟨-, waits⟩ := called_tracked before.inv (.inr ⟨_, rfl⟩) steps.queues
    rw [← before.control] at waits
    refine ⟨nofun, fun _ ⟨p, given, fulfilled⟩ => absurd (pending p given) fulfilled, fun _ => ?_⟩
    obtain ⟨regs, tracked⟩ := waits ⟨.ref p₀, List.mem_map_of_mem given₀, nofun⟩
    have awaits : Awaits false ps ps s.events.control.running [] regs _ q' :=
      ⟨sound', tracked, (fun _ h => by cases h), fun _ given => given,
        fun _ given => .inl given⟩
    exact awaits.goes some_ related

end
end Coutil.PromiseAwaiting
