import Mathlib
import Coutil.AwaitArguments
import Coutil.EventFailure
import Coutil.EventWake

set_option autoImplicit false

/-! What `event.awaitall` and `event.awaitany` return, whatever is emitted or resumed while
they wait. -/
namespace Coutil.AwaitSemantics
open Runs EventRegistry EventSystem EventInvariant EventPreservation EventRefinement EventAttempt
open EventFailure EventWake

section
variable {V T : Type} [DecidableEq V]

/-- What the call returns when an emission resumes it that comes after those of `events`;
nothing when it goes on waiting. -/
def answer : Act V T → List (Val V) → Val V → List (Val V) → Option (List (Val V))
  | .awaitall args, events, event, _ =>
    if ∀ arg ∈ args, arg ≠ .nil → arg ∈ events ++ [event] then some [.bool true] else none
  | _, _, event, args => some (event :: args)

variable [DecidableEq T]

/-- What the call of the coroutine returns in a step that resumes somebody. -/
def effect (a : Act V T) (t : T) (events : List (Val V)) : Option (Wake V T) → Option (List (Val V))
  | some (.emission _ event args x) => if x = t then answer a events event args else none
  | some (.resume x args) => if x = t then some args else none
  | none => none

omit [DecidableEq V] in
def received (t : T) : Option (Wake V T) → List (Val V)
  | some (.emission _ event _ x) => if x = t then [event] else []
  | _ => []

/-- The events whose emissions resume the coroutine along a run. -/
def history (t : T) : State (Registry V T) V T → List (ℕ × Act V T) → List (Val V)
  | _, [] => []
  | s, a :: as => received t (woken registryLists s a.2) ++
      match attempt registryLists s a with
      | none => []
      | some u => history t u as

def Suspended {R : Type} (t : T) (s : State R V T) : Prop :=
  ∃ call, s.control.status t = .suspended call

structure Returned {R : Type} (t : T) (values : List (Val V)) (s : State R V T) : Prop where
  running : s.control.running = t
  idle : s.control.loop = none
  values : s.control.values = values

/-- The registrations of a call, one for each value that is not nil. -/
structure Listed (args : List (Val V)) (regs : List (Val V × ℕ)) : Prop where
  nodup : (regs.map Prod.fst).Nodup
  events : ∀ e, e ∈ regs.map Prod.fst ↔ e ∈ args ∧ e ≠ .nil

omit [DecidableEq V] [DecidableEq T] in
def Inside (q : Queues V T) (t : T) (e : Val V) : Prop :=
  ∃ l, q.listof e = some l ∧ t ∈ q.queue l

theorem add_known_inside {q q' : Queues V T} {e : Val V} {t : T}
    (added : q.add e t = .ok (q', none)) : q' = q ∧ Inside q t e := by
  unfold Queues.add at added
  cases found : q.listof e with
  | none => cases e <;> simp [found] at added
  | some l =>
    simp only [found] at added
    split at added
    · rename_i member
      cases added
      exact ⟨rfl, l, found, member⟩
    · simp at added

theorem add_new_inside {q q' : Queues V T} {D : List (ℕ × Val V)} (queues : WellQueued q D)
    {e : Val V} {t : T} {l : ℕ} (added : q.add e t = .ok (q', some l)) :
    ¬ Inside q t e ∧ ∀ d, Inside q' t d ↔ Inside q t d ∨ d = e := by
  rcases add_new added with ⟨absent, -, rfl, rfl⟩ | ⟨found, outside, rfl⟩
  · constructor
    · rintro ⟨k, found, -⟩
      rw [absent] at found
      cases found
    · intro d
      by_cases same : d = e
      · subst d
        simp [Inside]
      · simp only [Inside, Function.update_of_ne same, same, or_false]
        constructor
        · rintro ⟨k, found, member⟩
          have old : k ≠ q.fresh := Nat.ne_of_lt (queues.installed d k found).1
          exact ⟨k, found, by simpa [old] using member⟩
        · rintro ⟨k, found, member⟩
          have old : k ≠ q.fresh := Nat.ne_of_lt (queues.installed d k found).1
          exact ⟨k, found, by simpa [old] using member⟩
  · constructor
    · rintro ⟨k, found', member⟩
      rw [found] at found'
      cases found'
      exact outside member
    · intro d
      by_cases same : d = e
      · subst d
        simp [Inside, found]
      · simp only [Inside, same, or_false]
        have old : ∀ k, q.listof d = some k → k ≠ l := by
          rintro k found' rfl
          exact same (((queues.installed d k found').2.1).symm.trans (queues.installed e k found).2.1)
        constructor
        · rintro ⟨k, found', member⟩
          exact ⟨k, found', by simpa [old k found'] using member⟩
        · rintro ⟨k, found', member⟩
          exact ⟨k, found', by simpa [old k found'] using member⟩

/-- Each value that is not nil is registered once, unless it was already. -/
theorem register_inside {q q' : Queues V T} {D : List (ℕ × Val V)} (queues : WellQueued q D)
    {t : T} {args : List (Val V)} {regs : List (Val V × ℕ)}
    (registered : register queueLists t q args = .ok (q', regs)) :
    (regs.map Prod.fst).Nodup ∧
      ∀ e, e ∈ regs.map Prod.fst ↔ e ∈ args ∧ e ≠ .nil ∧ ¬ Inside q t e := by
  induction args generalizing q regs with
  | nil =>
    cases registered
    simp
  | cons e args ih =>
    by_cases nil : e = .nil
    · simp only [register, nil, if_true] at registered
      obtain ⟨nodup, events⟩ := ih queues registered
      refine ⟨nodup, fun d => ?_⟩
      rw [events, List.mem_cons, nil]
      constructor
      · rintro ⟨member, some, outside⟩
        exact ⟨Or.inr member, some, outside⟩
      · rintro ⟨member, some, outside⟩
        exact ⟨member.resolve_left some, some, outside⟩
    · obtain ⟨q₁, list, rest, added, later, rfl⟩ := register_ok_cases nil registered
      cases list with
      | none =>
        obtain ⟨rfl, inside⟩ := add_known_inside added
        obtain ⟨nodup, events⟩ := ih queues later
        refine ⟨nodup, fun d => ?_⟩
        simp only [Option.toList_none, List.map_nil, List.nil_append]
        rw [events, List.mem_cons]
        constructor
        · rintro ⟨member, some, outside⟩
          exact ⟨Or.inr member, some, outside⟩
        · rintro ⟨rfl | member, some, outside⟩
          · exact absurd inside outside
          · exact ⟨member, some, outside⟩
      | some l =>
        obtain ⟨outside, inside⟩ := add_new_inside queues added
        obtain ⟨nodup, events⟩ := ih (add_queues queues added) later
        have absent : e ∉ rest.map Prod.fst := by
          rw [events]
          rintro ⟨-, -, h⟩
          exact h ((inside e).mpr (Or.inr rfl))
        refine ⟨by simpa using ⟨by simpa using absent, nodup⟩, fun d => ?_⟩
        simp only [Option.toList_some, List.map_cons, List.map_nil, List.cons_append,
          List.nil_append, List.mem_cons]
        rw [events, inside]
        by_cases same : d = e
        · subst d
          simp [nil, outside]
        · simp [same]

theorem register_listed {s : State (Queues V T) V T} (inv : Inv s) {args : List (Val V)}
    {q : Queues V T} {regs : List (Val V × ℕ)}
    (registered : register queueLists s.control.running s.registry args = .ok (q, regs)) :
    Listed args regs := by
  obtain ⟨nodup, events⟩ := register_inside inv.queues registered
  refine ⟨nodup, fun e => ?_⟩
  rw [events]
  have outside : ¬ Inside s.registry s.control.running e := by
    rintro ⟨l, -, member⟩
    exact active_free inv inv.controlled.running l member
  simp [outside]

/-- The coroutine is suspended in the call, and emissions of these events have resumed it. -/
structure Tracked (a : Act V T) (t : T) (events : List (Val V)) (regs : List (Val V × ℕ))
    (s : State (Queues V T) V T) : Prop where
  listed : Listed (arguments a) regs
  status : (∃ args count, a = .awaitall args ∧
      s.control.status t = .suspended (.awaitall args regs count)) ∨
    ∃ args, a = .awaitany args ∧ events = [] ∧
      s.control.status t = .suspended (.awaitany args regs)
  member : ∀ p ∈ regs, t ∈ s.registry.queue p.2 ↔ p.1 ∉ events
  nodup : events.Nodup
  subset : ∀ e ∈ events, e ∈ arguments a ∧ e ≠ .nil

omit [DecidableEq V] [DecidableEq T] in
theorem Tracked.suspended {a : Act V T} {t : T} {events : List (Val V)} {regs : List (Val V × ℕ)}
    {s : State (Queues V T) V T} (tracked : Tracked a t events regs s) : Suspended t s := by
  rcases tracked.status with ⟨args, count, -, status⟩ | ⟨args, -, -, status⟩
  · exact ⟨_, status⟩
  · exact ⟨_, status⟩

omit [DecidableEq V] [DecidableEq T] in
theorem Tracked.other {a : Act V T} {t x : T} {events : List (Val V)} {regs : List (Val V × ℕ)}
    {s u : State (Queues V T) V T} (tracked : Tracked a t events regs s) (alone : Alone x s u)
    (other : t ≠ x) : Tracked a t events regs u where
  listed := tracked.listed
  status := by
    rw [alone.status t other]
    exact tracked.status
  member p known := (alone.moved.others p.2 t other).trans (tracked.member p known)
  nodup := tracked.nodup
  subset := tracked.subset

omit [DecidableEq V] [DecidableEq T] in
theorem Tracked.listed_regs {a : Act V T} {t : T} {events : List (Val V)}
    {regs : List (Val V × ℕ)} {s : State (Queues V T) V T}
    (tracked : Tracked a t events regs s) {call : Call V}
    (status : s.control.status t = .suspended call) : EventInvariant.regs call = regs := by
  rcases tracked.status with ⟨args, count, -, status'⟩ | ⟨args, -, -, status'⟩
  · rw [status] at status'
    cases status'
    rfl
  · rw [status] at status'
    cases status'
    rfl

section
variable {a : Act V T} {t : T} {events : List (Val V)} {regs : List (Val V × ℕ)}
variable {s u : State (Queues V T) V T}

omit [DecidableEq V] in
theorem Tracked.popped (tracked : Tracked a t events regs s) (inv : Inv s) {l : ℕ} {e : Val V}
    {q : Queues V T} (taken : Taken s t l e q) :
    (e, l) ∈ regs ∧ e ∉ events ∧ ∀ p ∈ regs, t ∈ q.queue p.2 ↔ p.1 ∉ events ++ [e] := by
  obtain ⟨call, status, known⟩ := inv.queued l t taken.inside
  have registered := (inv.waiting t call status).registered
  rw [tracked.listed_regs status] at registered known
  rw [taken.event] at known
  have fresh : e ∉ events := (tracked.member (e, l) known).mp taken.inside
  refine ⟨known, fresh, fun p member => ?_⟩
  have same : p.2 = l ↔ p.1 = e := by
    constructor
    · intro same
      rw [← (registered p member).event, same]
      exact taken.event
    · intro same
      have equal := List.inj_on_of_nodup_map tracked.listed.nodup member known same
      rw [equal]
  rw [taken.mine, tracked.member p member, List.mem_append, List.mem_singleton, not_or, ne_eq, same]

omit [DecidableEq V] [DecidableEq T] in
theorem Tracked.after (tracked : Tracked a t events regs s) {e : Val V} {l : ℕ}
    (known : (e, l) ∈ regs) (fresh : e ∉ events) :
    (events ++ [e]).Nodup ∧ ∀ d ∈ events ++ [e], d ∈ arguments a ∧ d ≠ .nil := by
  constructor
  · rw [List.nodup_append]
    refine ⟨tracked.nodup, List.nodup_singleton e, ?_⟩
    intro d member d' member' same
    obtain rfl : d' = e := by simpa using member'
    exact fresh (same ▸ member)
  · intro d member
    rcases List.mem_append.mp member with member | member
    · exact tracked.subset d member
    · obtain rfl : d = e := by simpa using member
      exact (tracked.listed.events d).mp (List.mem_map.mpr ⟨(d, l), known, rfl⟩)

/-- How many values are due after an emission of `e` is what is left of them. -/
theorem Tracked.due {args : List (Val V)} {count : ℕ}
    (tracked : Tracked (.awaitall args) t events regs s) (inv : Inv s)
    (status : s.control.status t = .suspended (.awaitall args regs count)) {l : ℕ} {e : Val V}
    {q : Queues V T} (taken : Taken s t l e q) :
    count = 0 ↔ ∀ arg ∈ args, arg ≠ .nil → arg ∈ events ++ [e] := by
  obtain ⟨known, fresh, mine⟩ := tracked.popped inv taken
  obtain ⟨-, nodup, waiting⟩ := inv.waiting t _ status
  have drop := countP_drop (g := fun p => decide (t ∈ q.queue p.2)) nodup known
    (f := fun p => decide (t ∈ s.registry.queue p.2)) (by simpa using taken.inside)
    (by simp [taken.mine]) (fun r other => by simp [taken.mine, other])
  have left : count = regs.countP (fun p => decide (t ∈ q.queue p.2)) := by omega
  rw [left, List.countP_eq_zero]
  constructor
  · intro none arg member nil
    have listed : arg ∈ regs.map Prod.fst := (tracked.listed.events arg).mpr ⟨member, nil⟩
    obtain ⟨p, known', rfl⟩ := List.mem_map.mp listed
    by_contra absent
    exact none p known' (by simpa using (mine p known').mpr absent)
  · intro all p member inside
    have inside : t ∈ q.queue p.2 := by simpa using inside
    have listed := (tracked.listed.events p.1).mp (List.mem_map_of_mem member)
    exact (mine p member).mp inside (all p.1 listed.1 listed.2)

theorem tracked_emission (tracked : Tracked a t events regs s) (inv : Inv s) {l : ℕ} {e : Val V}
    {args : List (Val V)} {q : Queues V T} (taken : Taken s t l e q) {frame : Frame V} {fuel : ℕ}
    (stepped : resume queueLists fuel { s with registry := q } t frame (.listof :: e :: args) =
      .next u) :
    match answer a events e args with
    | some values => Returned t values u
    | none => Tracked a t (events ++ [e]) regs u := by
  obtain ⟨known, fresh, mine⟩ := tracked.popped inv taken
  rcases tracked.status with ⟨as, count, rfl, status⟩ | ⟨as, rfl, rfl, status⟩
  · have due := tracked.due inv status taken
    simp only [resume, status, resumed, istoken_listof, Bool.not_true, Bool.false_eq_true,
      if_false] at stepped
    by_cases last : count = 0
    · rw [if_pos last] at stepped
      cases stepped
      simp only [answer, if_pos (due.mp last)]
      exact ⟨rfl, rfl, rfl⟩
    · rw [if_neg last] at stepped
      cases stepped
      simp only [answer, if_neg (fun all => last (due.mpr all))]
      obtain ⟨nodup, subset⟩ := tracked.after known fresh
      refine ⟨tracked.listed, Or.inl ⟨as, count - 1, rfl, ?_⟩, mine, nodup, subset⟩
      rw [enter_suspend, returned_status]
      exact Function.update_self ..
  · simp only [resume, status, resumed, istoken_listof, if_true, List.tail_cons] at stepped
    simp only [answer]
    split at stepped
    · cases stepped
    · cases stepped
      exact ⟨rfl, rfl, rfl⟩

theorem tracked_resume (tracked : Tracked a t events regs s) {values : List (Val V)} {fuel : ℕ}
    (secret : .listof ∉ values) (stepped : resume queueLists fuel s t .user values = .next u) :
    Returned t values u := by
  have plain : values.head? ≠ some .listof := fun head => secret (List.mem_of_mem_head? head)
  rcases tracked.status with ⟨as, count, rfl, status⟩ | ⟨as, rfl, rfl, status⟩
  · simp only [resume, status, resumed, istoken_plain plain, Bool.not_false, if_true] at stepped
    split at stepped
    · cases stepped
    · cases stepped
      exact ⟨rfl, rfl, rfl⟩
  · simp only [resume, status, resumed, istoken_plain plain, Bool.false_eq_true, if_false] at stepped
    split at stepped
    · cases stepped
    · cases stepped
      exact ⟨rfl, rfl, rfl⟩

theorem tracked_step (tracked : Tracked a t events regs s) (inv : Inv s) {fuel : ℕ} {b : Act V T}
    (stepped : step queueLists fuel s b = .next u) :
    (∀ e ∈ received t (woken queueLists s b), e ∉ events ∧ e ∈ arguments a ∧ e ≠ .nil) ∧
    match effect a t events (woken queueLists s b) with
    | some values => Returned t values u
    | none => Tracked a t (events ++ received t (woken queueLists s b)) regs u := by
  have alone := step_alone inv.queues fuel b u (by rw [stepped]; rfl)
  have still : s.control.running ≠ t := by
    rintro rfl
    obtain ⟨call, status⟩ := tracked.suspended
    rw [inv.controlled.running] at status
    cases status
  cases wakes : woken queueLists s b with
  | none =>
    simp only [mover, wakes] at alone
    simpa [received, effect] using tracked.other alone still.symm
  | some wake =>
    simp only [mover, wakes] at alone
    cases wake with
    | emission l e args x =>
      by_cases same : x = t
      · subst x
        obtain ⟨q, frame, pops⟩ := woken_pops wakes
        have taken := pops_taken inv pops
        obtain ⟨known, fresh, -⟩ := tracked.popped inv taken
        have arg := (tracked.listed.events e).mp (List.mem_map.mpr ⟨(e, l), known, rfl⟩)
        rcases pops.step fuel with disabled | resumes
        · rw [disabled] at stepped
          cases stepped
        · rw [resumes] at stepped
          have result := tracked_emission tracked inv taken stepped
          refine ⟨by simpa [received] using ⟨fresh, arg⟩, ?_⟩
          simpa [received, effect] using result
      · have tracked' := tracked.other alone (Ne.symm same)
        simpa [received, effect, same] using tracked'
    | resume x args =>
      by_cases same : x = t
      · subst x
        rcases resume_step wakes fuel with disabled | ⟨owns, resumes⟩
        · rw [disabled] at stepped
          cases stepped
        · rw [resumes] at stepped
          have result := tracked_resume tracked (owns_secret inv.controlled owns) stepped
          simpa [received, effect] using result
      · have tracked' := tracked.other alone (Ne.symm same)
        simpa [received, effect, same] using tracked'

end

theorem giveback_given {c : Control V T} (yields : c.yieldable)
    (status : Status V) (values : List (Val V)) :
    (c.giveback status values).status c.running = status := by
  cases stack : c.stack with
  | nil => exact absurd stack yields
  | cons p rest =>
    unfold Control.giveback
    rw [stack]
    dsimp only
    rw [returned_status]
    exact Function.update_self ..

theorem listed_nil {args : List (Val V)} {regs : List (Val V × ℕ)} (listed : Listed args regs) :
    regs.length = 0 ↔ ∀ e ∈ args, e = .nil := by
  rw [List.length_eq_zero_iff]
  constructor
  · rintro rfl e member
    by_contra nil
    have known := (listed.events e).mpr ⟨member, nil⟩
    simp at known
  · intro all
    cases regs with
    | nil => rfl
    | cons p regs =>
      obtain ⟨member, nil⟩ := (listed.events p.1).mp (by simp)
      exact absurd (all p.1 member) nil

theorem called_tracked {s u : State (Queues V T) V T} (inv : Inv s) {fuel : ℕ} {a : Act V T}
    (isawait : (∃ args, a = .awaitall args) ∨ ∃ args, a = .awaitany args)
    (stepped : step queueLists fuel s a = .next u) :
    ((∀ e ∈ arguments a, e = .nil) → Returned s.control.running [.bool true] u) ∧
    ((∃ e ∈ arguments a, e ≠ .nil) → ∃ regs, Tracked a s.control.running [] regs u) := by
  have idle : s.control.loop = none := by
    cases loop : s.control.loop with
    | none => rfl
    | some p => rcases isawait with ⟨args, rfl⟩ | ⟨args, rfl⟩ <;> simp [step, loop] at stepped
  have member : ∀ {q : Queues V T} {args : List (Val V)} {regs : List (Val V × ℕ)},
      register queueLists s.control.running s.registry args = .ok (q, regs) →
      ∀ p ∈ regs, s.control.running ∈ q.queue p.2 ↔ p.1 ∉ ([] : List (Val V)) := by
    intro q args regs registered p known
    have spec := (register_spec inv.queues registered).2
    have inside := (spec.mine p.2).mpr (Or.inr (List.mem_map_of_mem known))
    simpa using inside
  rcases isawait with ⟨args, rfl⟩ | ⟨args, rfl⟩
  · simp only [step, idle, call, awaitall] at stepped
    split at stepped
    · split at stepped
      · rename_i yields
        cases registered : register queueLists s.control.running s.registry args with
        | error e => simp [registered] at stepped
        | ok p =>
          obtain ⟨q, regs⟩ := p
          have listed := register_listed inv registered
          simp only [registered] at stepped
          split at stepped
          · rename_i none
            cases stepped
            refine ⟨fun _ => ⟨rfl, rfl, rfl⟩, ?_⟩
            rintro ⟨e, known, some⟩
            exact absurd ((listed_nil listed).mp none e known) some
          · rename_i some
            cases stepped
            refine ⟨fun all => absurd ((listed_nil listed).mpr all) some, fun _ => ⟨regs, ?_⟩⟩
            exact ⟨listed, Or.inl ⟨args, _, rfl, giveback_given yields _ _⟩,
              member registered, List.nodup_nil, by simp⟩
      · cases stepped
    · cases stepped
  · simp only [step, idle, call, awaitany] at stepped
    split at stepped
    · split at stepped
      · rename_i yields
        cases registered : register queueLists s.control.running s.registry args with
        | error e => simp [registered] at stepped
        | ok p =>
          obtain ⟨q, regs⟩ := p
          have listed := register_listed inv registered
          simp only [registered] at stepped
          split at stepped
          · cases stepped
          · rename_i some
            cases stepped
            refine ⟨fun all => absurd ((listed_nil listed).mpr all) some, fun _ => ⟨regs, ?_⟩⟩
            exact ⟨listed, Or.inr ⟨args, rfl, rfl, giveback_given yields _ _⟩,
              member registered, List.nodup_nil, by simp⟩
      · cases stepped
    · cases stepped

omit [DecidableEq V] [DecidableEq T] in
theorem woken_emits {R : Type} {L : Lists V T R} {s : State R V T} {a : Act V T} {wake : Wake V T}
    (wakes : woken L s a = some wake) : Emits a := by
  cases wake with
  | emission list event args thread =>
    obtain ⟨r, frame, pops⟩ := woken_pops wakes
    cases pops with
    | iterate loop nonempty popped => trivial
    | emitall idle found popped => trivial
    | emitone idle found popped => trivial
  | resume thread args =>
    obtain ⟨-, rfl⟩ := woken_resume wakes
    trivial

omit [DecidableEq V] [DecidableEq T] in
/-- What is known of the events while the call waits. -/
def Due : Act V T → List (Val V) → Prop
  | .awaitall args, events => ∃ arg ∈ args, arg ≠ .nil ∧ arg ∉ events
  | _, events => events = []

omit [DecidableEq V] in
theorem Tracked.due_left {a : Act V T} {t : T} {events : List (Val V)} {regs : List (Val V × ℕ)}
    {s : State (Queues V T) V T} (tracked : Tracked a t events regs s) (inv : Inv s) :
    Due a events := by
  rcases tracked.status with ⟨args, count, rfl, status⟩ | ⟨args, rfl, none, -⟩
  · obtain ⟨-, -, waiting⟩ := inv.waiting t _ status
    have positive : 0 < regs.countP (fun p => decide (t ∈ s.registry.queue p.2)) := by omega
    obtain ⟨p, known, inside⟩ := List.countP_pos_iff.mp positive
    have listed := (tracked.listed.events p.1).mp (List.mem_map_of_mem known)
    exact ⟨p.1, listed.1, listed.2, (tracked.member p known).mp (by simpa using inside)⟩
  · exact none

section
variable {a : Act V T} {t : T} {events : List (Val V)} {regs : List (Val V × ℕ)}
variable {s u : State (Registry V T) V T} {q : State (Queues V T) V T}

theorem next_reached {fuel : ℕ} {b : Act V T} (related : Related s q)
    (stepped : step registryLists fuel s b = .next u) :
    ∃ v, step queueLists fuel q b = .next v ∧ Related u v := by
  have taken : next registryLists s (fuel, b) = some u := by simp [next, stepped, Outcome.next?]
  obtain ⟨v, reached, related'⟩ := next_related related taken
  simp only [next] at reached
  cases outcome : step queueLists fuel q b with
  | next w =>
    rw [outcome] at reached
    cases reached
    exact ⟨v, rfl, related'⟩
  | _ =>
    rw [outcome] at reached
    cases reached

/-- Values are given to the running coroutine without a call of the event module. -/
theorem deliver_related (related : Related s q) (idle : s.control.loop = none) {values : List (Val V)} (secret : .listof ∉ values) :
    Related { s with control := s.control.deliver values }
      { q with control := q.control.deliver values } := by
  refine ⟨related.refines, by rw [related.control], ?_⟩
  have idle' : q.control.loop = none := related.control ▸ idle
  exact deliver_inv related.inv (idle_detached idle' ▸ related.inv.queues) values secret

omit [DecidableEq V] in
theorem Returned.related {values : List (Val V)} {v : State (Queues V T) V T}
    (returned : Returned t values v) (related : Related u v) : Returned t values u := by
  obtain ⟨running, idle, values⟩ := returned
  rw [← related.control] at running idle values
  exact ⟨running, idle, values⟩

omit [DecidableEq V] in
theorem Suspended.related {v : State (Queues V T) V T} (suspended : Suspended t v)
    (related : Related u v) : Suspended t u := by
  obtain ⟨call, status⟩ := suspended
  rw [← related.control] at status
  exact ⟨call, status⟩

/-- A step over the tables, which may be a call that fails. -/
theorem attempt_tracked (tracked : Tracked a t events regs q) (related : Related s q)
    (nan : s.registry.listof .nan = none) {b : ℕ × Act V T} (clean : Clean s b.2)
    (stepped : attempt registryLists s b = some u) :
    (∀ e ∈ received t (woken registryLists s b.2), e ∉ events ∧ e ∈ arguments a ∧ e ≠ .nil) ∧
    match effect a t events (woken registryLists s b.2) with
    | some values => Returned t values u
    | none => ∃ q', Related u q' ∧
        Tracked a t (events ++ received t (woken registryLists s b.2)) regs q' := by
  cases outcome : step registryLists b.1 s b.2 with
  | next v =>
    obtain rfl : v = u := by simpa [attempt, outcome, Outcome.state?] using stepped
    obtain ⟨w, reached, related'⟩ := next_reached related outcome
    obtain ⟨fresh, after⟩ := tracked_step tracked related.inv reached
    rw [woken_refines related.refines related.control]
    refine ⟨fresh, ?_⟩
    cases returns : effect a t events (woken queueLists q b.2) with
    | none =>
      rw [returns] at after
      exact ⟨w, related', after⟩
    | some values =>
      rw [returns] at after
      exact Returned.related after related'
  | raised v msg =>
    obtain rfl : v = u := by simpa [attempt, outcome, Outcome.state?] using stepped
    have quiet : woken registryLists s b.2 = none := by
      cases wakes : woken registryLists s b.2 with
      | none => rfl
      | some wake => exact absurd (woken_emits wakes) (related_awaits related outcome)
    rw [raised_unchanged related nan (related_raised related outcome) clean]
    simp only [quiet, received, effect, List.append_nil]
    exact ⟨by simp, q, related, tracked⟩
  | diverged => simp [attempt, outcome, Outcome.state?] at stepped
  | disabled => simp [attempt, outcome, Outcome.state?] at stepped

/-- The steps of a run in which the call goes on waiting. -/
def stays (t : T) (s : State (Registry V T) V T) (b : ℕ × Act V T) : Prop :=
  cleanly s b ∧ Suspended t s

theorem run_suspended {as : List (ℕ × Act V T)} (ran : run (attempt registryLists) s as = some u)
    (along : Along (attempt registryLists) (stays t) s as) (suspended : Suspended t u) :
    Suspended t s := by
  cases as with
  | nil =>
    cases ran
    exact suspended
  | cons b as => exact along.1.2

theorem run_tracked {as : List (ℕ × Act V T)} (tracked : Tracked a t events regs q)
    (related : Related s q) (nan : s.registry.listof .nan = none)
    (ran : run (attempt registryLists) s as = some u)
    (along : Along (attempt registryLists) (stays t) s as) (suspended : Suspended t u) :
    ∃ q', Related u q' ∧ Tracked a t (events ++ history t s as) regs q' ∧
      u.registry.listof .nan = none := by
  induction as generalizing s q events with
  | nil =>
    cases ran
    exact ⟨q, related, by simpa [history] using tracked, nan⟩
  | cons b as ih =>
    obtain ⟨w, stepped, ran⟩ := run_cons.mp ran
    have tidy := attempt_tidy ⟨⟨q, related⟩, nan⟩ along.1.1 stepped
    have result := (attempt_tracked tracked related nan along.1.1 stepped).2
    cases returns : effect a t events (woken registryLists s b.2) with
    | some values =>
      rw [returns] at result
      obtain ⟨call, status⟩ := run_suspended ran (along.2 w stepped) suspended
      obtain ⟨p, related'⟩ := tidy.related
      have active := related'.inv.controlled.running
      rw [← related'.control, result.running, status] at active
      cases active
    | none =>
      rw [returns] at result
      obtain ⟨q', related', tracked'⟩ := result
      obtain ⟨p, final⟩ := ih tracked' related' tidy.nan ran (along.2 w stepped)
      refine ⟨p, ?_⟩
      simpa [history, stepped, List.append_assoc] using final

end

end
end Coutil.AwaitSemantics
