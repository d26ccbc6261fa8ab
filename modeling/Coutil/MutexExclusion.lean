import Coutil.MutexSystem

set_option autoImplicit false

/-! Who has a mutex, and who waits for it. -/
namespace Coutil.MutexExclusion
open Runs EventRegistry EventSystem EventInvariant EventPreservation EventRefinement EventAttempt
open EventWake AwaitSemantics EventWaiters MutexSystem

section
variable {V T : Type} [DecidableEq V] [DecidableEq T]

/-- The coroutine has returned from `module.lock` and has not called `module.unlock` since. -/
def between (t : T) (m : Val V) : List (Entry V T) → Bool
  | [] => false
  | .called _ _ :: log => between t m log
  | .acquired x n :: log => if x = t ∧ n = m then true else between t m log
  | .released x n :: log => if x = t ∧ n = m then false else between t m log

/-- Events are emitted and awaited on the mutex by the module only. -/
def Apart {R : Type} (m : Val V) (_ : MutexSystem.State R V T) (a : ℕ × MutexSystem.Act V T) :
    Prop :=
  match a.2 with
  | .event b => Elsewhere m b
  | _ => True

/-- The coroutines in the list of the mutex are those in `module.lock`, and while nobody has the
mutex they wait for the one that was resumed to take it. -/
structure Waits (m : Val V) (s : MutexSystem.State (Registry V T) V T)
    (q : EventSystem.State (Queues V T) V T) : Prop where
  related : Related s.events q
  sole : Sole m q
  waiting : ∀ t ∈ waiters q.registry m, s.doing t = some (.lock m)
  parked : ∀ t, s.doing t = some (.lock m) →
    (t = s.events.control.running ∧ s.events.control.loop = none) ∨ t ∈ waiters q.registry m
  key : ∀ t, s.doing t = some (.lock m) → m ≠ .nil ∧ m ≠ .nan
  owned : s.insideof m = none → waiters q.registry m ≠ [] →
    s.doing s.events.control.running = some (.lock m)
  handed : s.doing s.events.control.running = some (.lock m) → s.insideof m = none →
    ∃ t, s.doing t = some (.unlock m)

variable {s u : MutexSystem.State (Registry V T) V T} {q q' : EventSystem.State (Queues V T) V T}
variable {fuel : ℕ} {m n : Val V} {t : T}

omit [DecidableEq V] in
theorem Waits.away (waits : Waits m s q) : s.events.control.running ∉ waiters q.registry m := by
  rw [waits.related.control]
  exact running_waiters waits.sole waits.related.inv

theorem Waits.elsewhere {b : EventSystem.Act V T} (waits : Waits m s q)
    (away : s.doing s.events.control.running = some (.lock m) → s.events.control.loop ≠ none)
    (elsewhere : Elsewhere m b) (stepped : EventSystem.step queueLists fuel q b = .next q')
    (related : Related u.events q') (inside : u.insideof m = s.insideof m)
    (same : ∀ t, u.doing t = some (.lock m) ↔ s.doing t = some (.lock m)) : Waits m u q' := by
  obtain ⟨sole, taken⟩ := elsewhere_waiters waits.sole waits.related.inv elsewhere stepped
  have stays : ∀ t, s.doing t = some (.lock m) → t ∈ waiters q.registry m := by
    intro t doing
    obtain ⟨rfl, idle⟩ | member := waits.parked t doing
    · exact absurd idle (away doing)
    · exact member
  have empty : s.insideof m = none → waiters q.registry m = [] := by
    intro unowned
    by_contra some
    exact waits.away (stays _ (waits.owned unowned some))
  have sub : ∀ t, t ∈ waiters q'.registry m → t ∈ waiters q.registry m := by
    obtain ⟨x, args, -, -, -, left⟩ | eq := taken
    · exact fun t member => ((left t).mp member).1
    · rw [eq]
      exact fun _ member => member
  refine ⟨related, sole, fun t member => (same t).mpr (waits.waiting t (sub t member)), ?_,
    fun t doing => waits.key t ((same t).mp doing), ?_, ?_⟩
  · intro t doing
    have member := stays t ((same t).mp doing)
    obtain ⟨x, args, -, -, returned, left⟩ | eq := taken
    · by_cases here : t = x
      · subst t
        left
        rw [related.control]
        exact ⟨returned.running.symm, returned.idle⟩
      · exact .inr ((left t).mpr ⟨member, here⟩)
    · rw [eq]
      exact .inr member
  · intro unowned some
    rw [inside] at unowned
    obtain ⟨t, member⟩ := List.exists_mem_of_ne_nil _ some
    have none := sub t member
    rw [empty unowned] at none
    exact absurd none List.not_mem_nil
  · intro doing unowned
    rw [inside] at unowned
    have member := stays _ ((same _).mp doing)
    rw [empty unowned] at member
    exact absurd member List.not_mem_nil

omit [DecidableEq V] in
theorem Waits.here (waits : Waits m s q) (related : Related u.events q') (sole : Sole m q')
    (registry : q'.registry = q.registry)
    (running : u.events.control.running = s.events.control.running)
    (own : u.doing s.events.control.running ≠ some (.lock m))
    (others : ∀ t, t ≠ s.events.control.running → u.doing t = s.doing t)
    (inside : u.insideof m = none → s.insideof m = none ∧
      s.doing s.events.control.running ≠ some (.lock m)) : Waits m u q' := by
  have other : ∀ t, u.doing t = some (.lock m) → t ≠ s.events.control.running := by
    rintro t doing rfl
    exact own doing
  refine ⟨related, sole, fun t member => ?_, fun t doing => ?_, fun t doing => ?_, ?_, ?_⟩
  · rw [registry] at member
    have away : t ≠ s.events.control.running := by
      rintro rfl
      exact waits.away member
    rw [others t away]
    exact waits.waiting t member
  · have away := other t doing
    rw [others t away] at doing
    rw [registry]
    obtain ⟨here, -⟩ | member := waits.parked t doing
    · exact absurd here away
    · exact .inr member
  · rw [others t (other t doing)] at doing
    exact waits.key t doing
  · intro unowned some
    rw [registry] at some
    obtain ⟨unowned, away⟩ := inside unowned
    exact absurd (waits.owned unowned some) away
  · intro doing
    rw [running] at doing
    exact absurd doing own

omit [DecidableEq V] [DecidableEq T] in
theorem Begins.away {begins : List (Entry V T)} (enters : Begins s n begins) (other : n ≠ m) :
    s.doing s.events.control.running ≠ some (.lock m) := by
  intro doing
  cases enters with
  | call own =>
    rw [own] at doing
    cases doing
  | again inside =>
    rw [inside] at doing
    cases doing
    exact other rfl

omit [DecidableEq T] in
theorem sole_deliver (sole : Sole m q) (values : List (Val V)) :
    Sole m { q with control := q.control.deliver values } :=
  ⟨sole.waits, ⟨nofun, sole.away.stack⟩⟩

/-- A value on which a coroutine waits is the key of a table. -/
theorem Waits.await_key (waits : Waits m s q)
    (stepped : EventSystem.step queueLists fuel q (.await m) = .next q') : m ≠ .nil ∧ m ≠ .nan := by
  obtain ⟨-, -, q₁, l, added, -⟩ := await_called waits.related.inv stepped
  cases found : q.registry.listof m with
  | some k =>
    have some := (waits.related.inv.queues.installed m k found).2.2
    rw [← waiters_list found] at some
    obtain ⟨t, member⟩ := List.exists_mem_of_ne_nil _ some
    exact waits.key t (waits.waiting t member)
  | none =>
    simp only [Queues.add, found] at added
    cases m with
    | nil => cases added
    | nan => cases added
    | _ => simp

theorem Waits.awaits {begins : List (Entry V T)} {owner : T} (waits : Waits m s q)
    (enters : Begins s n begins) (owned : s.insideof n = some owner)
    (stepped : EventSystem.step queueLists fuel q (.await n) = .next q')
    (related : Related u.events q') (inside : u.insideof = s.insideof)
    (doing : u.doing = Function.update s.doing s.events.control.running (some (.lock n))) :
    Waits m u q' := by
  have others : ∀ t, t ≠ s.events.control.running → u.doing t = s.doing t := by
    intro t other
    rw [doing, Function.update_of_ne other]
  have here : u.doing s.events.control.running = some (.lock n) := by
    rw [doing, Function.update_self]
  have running := waits.related.control
  by_cases same : n = m
  · subst n
    obtain ⟨sole, joined, -⟩ := await_waiters waits.sole waits.related.inv stepped
    rw [← running] at joined
    have key := waits.await_key stepped
    have unfree : u.insideof m ≠ none := by
      rw [inside, owned]
      exact Option.some_ne_none owner
    refine ⟨related, sole, fun t member => ?_, fun t lock => ?_, fun _ _ => key,
      fun unowned => absurd unowned unfree, fun _ unowned => absurd unowned unfree⟩
    · by_cases other : t = s.events.control.running
      · rw [other]
        exact here
      · rw [joined, List.mem_append, List.mem_singleton] at member
        rw [others t other]
        exact waits.waiting t (member.resolve_right other)
    · right
      rw [joined, List.mem_append, List.mem_singleton]
      by_cases other : t = s.events.control.running
      · exact .inr other
      · rw [others t other] at lock
        exact .inl ((waits.parked t lock).resolve_left fun ⟨now, _⟩ => other now)
  · have away := Begins.away enters same
    refine waits.elsewhere (b := .await n) (fun now => absurd now away) same stepped related
      (by rw [inside]) ?_
    intro t
    by_cases other : t = s.events.control.running
    · rw [other, here]
      simp [same, away]
    · rw [others t other]

theorem Waits.unlocks (waits : Waits m s q) (own : s.doing s.events.control.running = none)
    (stepped : EventSystem.step queueLists fuel q (.emitone n []) = .next q')
    (related : Related u.events q') (inside : u.insideof = Function.update s.insideof n none)
    (doing : u.doing = Function.update s.doing s.events.control.running (some (.unlock n))) :
    Waits m u q' := by
  have others : ∀ t, t ≠ s.events.control.running → u.doing t = s.doing t := by
    intro t other
    rw [doing, Function.update_of_ne other]
  have here : u.doing s.events.control.running = some (.unlock n) := by
    rw [doing, Function.update_self]
  have same : ∀ t, u.doing t = some (.lock m) ↔ s.doing t = some (.lock m) := by
    intro t
    by_cases other : t = s.events.control.running
    · rw [other, here, own]
      simp
    · rw [others t other]
  have stays : ∀ t, s.doing t = some (.lock m) → t ∈ waiters q.registry m := by
    intro t lock
    refine (waits.parked t lock).resolve_left ?_
    rintro ⟨rfl, -⟩
    rw [own] at lock
    cases lock
  by_cases mine : n = m
  · subst n
    obtain ⟨sole, -, taken⟩ := emitone_waiters waits.sole waits.related.inv stepped
    cases queue : waiters q.registry m with
    | nil =>
      rw [queue] at taken
      subst q'
      have empty : waiters (q.registry) m = [] := queue
      have nobody : ∀ t, u.doing t ≠ some (.lock m) := by
        intro t lock
        have member := stays t ((same t).mp lock)
        rw [empty] at member
        exact List.not_mem_nil member
      refine ⟨related, sole, fun t member => ?_, fun t lock => absurd lock (nobody t),
        fun t lock => absurd lock (nobody t), fun _ some => absurd empty some,
        fun lock => absurd lock (nobody _)⟩
      rw [empty] at member
      exact absurd member List.not_mem_nil
    | cons x rest =>
      rw [queue] at taken
      obtain ⟨returned, left, -⟩ := taken
      have running : u.events.control.running = x := by
        rw [related.control]
        exact returned.running
      have first : u.doing x = some (.lock m) :=
        (same x).mpr (waits.waiting x (queue ▸ List.mem_cons_self))
      refine ⟨related, sole, fun t member => ?_, fun t lock => ?_,
        fun t lock => waits.key t ((same t).mp lock), fun _ _ => running ▸ first,
        fun _ _ => ⟨_, here⟩⟩
      · rw [left] at member
        exact (same t).mpr (waits.waiting t (queue ▸ List.mem_cons_of_mem x member))
      · have member := stays t ((same t).mp lock)
        rw [queue, List.mem_cons] at member
        obtain now | member := member
        · left
          rw [related.control]
          exact ⟨now.trans returned.running.symm, returned.idle⟩
        · exact .inr (left ▸ member)
  · refine waits.elsewhere (fun now => ?_) (b := .emitone n []) mine stepped related ?_ same
    · rw [own] at now
      cases now
    · rw [inside, Function.update_of_ne (Ne.symm mine)]

theorem step_waits {a : ℕ × MutexSystem.Act V T} (waits : Waits m s q) (apart : Apart m s a)
    (moves : Moves a.1 s q a.2 u q') (related : Related u.events q') : Waits m u q' := by
  obtain ⟨fuel, a⟩ := a
  have others (call : Option (Doing V)) (t : T) (other : t ≠ s.events.control.running) :
      Function.update s.doing s.events.control.running call t = s.doing t :=
    Function.update_of_ne other _ _
  have quits : Function.update s.doing s.events.control.running none s.events.control.running ≠
      some (.lock m) := by simp
  cases moves with
  | event own stepped =>
    refine waits.elsewhere (fun now => ?_) apart stepped related rfl fun _ => Iff.rfl
    obtain own | loop := own
    · rw [own] at now
      cases now
    · exact loop
  | acquires idle enters unowned key =>
    rename_i mutex begins
    refine waits.here related (sole_deliver waits.sole []) rfl rfl quits (others none) ?_
    intro free
    change Function.update s.insideof mutex (some s.events.control.running) m = none at free
    by_cases same : m = mutex
    · rw [same, Function.update_self] at free
      cases free
    · rw [Function.update_of_ne same] at free
      exact ⟨free, Begins.away enters (Ne.symm same)⟩
  | awaits enters owned stepped => exact waits.awaits enters owned stepped related rfl rfl
  | unlocks own owned stepped => exact waits.unlocks own stepped related rfl rfl
  | returns inside =>
    refine waits.here related waits.sole rfl rfl quits (others none) fun free => ⟨free, ?_⟩
    rw [inside]
    simp
  | refused own =>
    refine waits.here related waits.sole rfl rfl ?_ (fun _ _ => rfl) fun free => ⟨free, ?_⟩
    · rw [own]
      simp
    · rw [own]
      simp
  | fails inside why =>
    refine waits.here related waits.sole rfl rfl quits (others none) fun free => ⟨free, ?_⟩
    intro now
    have free : s.insideof m = none := free
    rw [inside] at now
    cases now
    obtain ⟨nil, nan⟩ := waits.key _ inside
    exact (why free).elim nil nan

/-- The log agrees with the owner. -/
theorem step_between {a : MutexSystem.Act V T} (moves : Moves fuel s q a u q')
    (held : ∀ t, between t m s.log = true ↔ s.insideof m = some t) :
    ∀ t, between t m u.log = true ↔ u.insideof m = some t := by
  have begun {mutex : Val V} {begins : List (Entry V T)} (enters : Begins s mutex begins) (t : T) :
      between t m (begins ++ s.log) = between t m s.log := by
    cases enters with
    | call own => rfl
    | again inside => rfl
  intro t
  cases moves with
  | event own stepped => exact held t
  | acquires idle enters unowned key =>
    rename_i mutex begins
    change (if s.events.control.running = t ∧ mutex = m then true
      else between t m (begins ++ s.log)) = true ↔
        Function.update s.insideof mutex (some s.events.control.running) m = some t
    rw [begun enters]
    by_cases same : m = mutex
    · subst m
      have nobody : between t mutex s.log ≠ true := by
        intro inside
        rw [(held t).mp inside] at unowned
        cases unowned
      simp [nobody]
    · rw [Function.update_of_ne same, ← held t]
      simp [Ne.symm same]
  | awaits enters owned stepped =>
    change between t m (_ ++ s.log) = true ↔ _
    rw [begun enters]
    exact held t
  | unlocks own owned stepped =>
    rename_i mutex events
    change (if s.events.control.running = t ∧ mutex = m then false else between t m s.log) = true ↔
      Function.update s.insideof mutex none m = some t
    by_cases same : m = mutex
    · subst m
      simp only [and_true, Function.update_self]
      have other : s.events.control.running ≠ t → between t mutex s.log ≠ true := by
        intro different inside
        rw [(held t).mp inside] at owned
        exact different (Option.some.inj owned).symm
      by_cases here : s.events.control.running = t
      · simp [here]
      · simp [here, other here]
    · rw [Function.update_of_ne same, ← held t]
      simp [Ne.symm same]
  | returns inside => exact held t
  | refused own => exact held t
  | fails inside why => exact held t

structure Exclusive (m : Val V) (s : MutexSystem.State (Registry V T) V T) : Prop where
  owner : ∀ t, between t m s.log = true ↔ s.insideof m = some t
  alone : ∀ t x, between t m s.log = true → between x m s.log = true → t = x
  attended : (∀ t, s.doing t ≠ some (.unlock m)) →
    ∀ t, s.doing t = some (.lock m) → Suspended t s.events → ∃ x, s.insideof m = some x
  failing : ∀ fuel a u msg, (∀ b, a ≠ .event b) →
    MutexSystem.step registryLists fuel s a = .raised u msg →
    u.insideof = s.insideof ∧ u.events = s.events

omit [DecidableEq V] in
theorem waits_init (m : Val V) (main : T) :
    ∃ q, Waits m (MutexSystem.State.init (V := V) main) q := by
  refine ⟨⟨Queues.empty, Control.init main⟩, ⟨refines_empty, rfl, init_inv main⟩, ?_, ?_, nofun, nofun,
    ?_, nofun⟩
  · exact ⟨nofun, ⟨nofun, nofun⟩⟩
  · nofun
  · intro _ some
    exact absurd rfl some

theorem run_waits {main : T} {acts : List (ℕ × MutexSystem.Act V T)}
    (ran : run (MutexSystem.next registryLists) (MutexSystem.State.init main) acts = some s)
    (apart : Along (MutexSystem.next registryLists) (Apart m) (MutexSystem.State.init main) acts) :
    (∃ q, Waits m s q) ∧ ∀ t, between t m s.log = true ↔ s.insideof m = some t := by
  refine run_invariant_along (fun s => (∃ q, Waits m s q) ∧
    ∀ t, between t m s.log = true ↔ s.insideof m = some t) (Apart m) ?_ ⟨waits_init m main, ?_⟩
    apart ran
  · rintro s a u ⟨⟨q, waits⟩, held⟩ apart stepped
    obtain ⟨q', related, moves⟩ := next_moves waits.related stepped
    exact ⟨⟨q', step_waits waits apart moves related⟩, step_between moves held⟩
  · intro t
    simp [between, MutexSystem.State.init]

def contended : List (ℕ × MutexSystem.Act ℕ ℕ) :=
  [(0, .event (.resume 1 [])), (0, .lock (.ref 7)), (0, .event (.yield [])),
    (0, .event (.resume 2 [])), (0, .lock (.ref 7)), (0, .event (.resume 3 [])),
    (0, .lock (.ref 7))]

def calledOf (m : Val V) (log : List (Entry V T)) : List T :=
  (log.filterMap fun
    | .called t n => if n = m then some t else none
    | _ => none).reverse

def acquiredOf (m : Val V) (log : List (Entry V T)) : List T :=
  (log.filterMap fun
    | .acquired t n => if n = m then some t else none
    | _ => none).reverse

/-- Nobody that waits for the mutex is resumed but by an emission. -/
def Undisturbed (m : Val V) (s : MutexSystem.State (Registry V T) V T)
    (a : ℕ × MutexSystem.Act V T) : Prop :=
  Apart m s a ∧ match a.2 with
    | .event (.resume x _) => s.doing x ≠ some (.lock m)
    | _ => True

instance (m : Val V) (s : MutexSystem.State (Registry V T) V T) :
    ∀ a : ℕ × MutexSystem.Act V T, Decidable (Undisturbed m s a)
  | (_, .event (.resume x _)) =>
    decidable_of_iff (s.doing x ≠ some (.lock m)) (by simp [Undisturbed, Apart, Elsewhere])
  | (_, .event (.await e)) => decidable_of_iff (e ≠ m) (by simp [Undisturbed, Apart, Elsewhere])
  | (_, .event (.awaitall args)) =>
    decidable_of_iff (m ∉ args) (by simp [Undisturbed, Apart, Elsewhere])
  | (_, .event (.awaitany args)) =>
    decidable_of_iff (m ∉ args) (by simp [Undisturbed, Apart, Elsewhere])
  | (_, .event (.emitone e _)) =>
    decidable_of_iff (e ≠ m) (by simp [Undisturbed, Apart, Elsewhere])
  | (_, .event (.emitall e _)) =>
    decidable_of_iff (e ≠ m) (by simp [Undisturbed, Apart, Elsewhere])
  | (_, .event (.yield _)) => isTrue ⟨trivial, trivial⟩
  | (_, .event (.finish _ _)) => isTrue ⟨trivial, trivial⟩
  | (_, .event .iterate) => isTrue ⟨trivial, trivial⟩
  | (_, .lock _) => isTrue ⟨trivial, trivial⟩
  | (_, .unlock _) => isTrue ⟨trivial, trivial⟩
  | (_, .goon) => isTrue ⟨trivial, trivial⟩

/-- The coroutine that was resumed to take the mutex, and those that wait for it. -/
def queueOf (m : Val V) (s : MutexSystem.State (Registry V T) V T)
    (q : EventSystem.State (Queues V T) V T) : List T :=
  (if s.doing s.events.control.running = some (.lock m) then [s.events.control.running] else []) ++
    waiters q.registry m

/-- Calls return in the order in which they were made. -/
structure Ordered (m : Val V) (s : MutexSystem.State (Registry V T) V T)
    (q : EventSystem.State (Queues V T) V T) : Prop where
  waits : Waits m s q
  ready : s.doing s.events.control.running = some (.lock m) → s.insideof m = none
  order : calledOf m s.log = acquiredOf m s.log ++ queueOf m s q

omit [DecidableEq T] in
@[simp] theorem calledOf_called (m n : Val V) (t : T) (log : List (Entry V T)) :
    calledOf m (.called t n :: log) = calledOf m log ++ if n = m then [t] else [] := by
  by_cases same : n = m <;> simp [calledOf, same]

omit [DecidableEq T] in
@[simp] theorem calledOf_acquired (m n : Val V) (t : T) (log : List (Entry V T)) :
    calledOf m (.acquired t n :: log) = calledOf m log := rfl

omit [DecidableEq T] in
@[simp] theorem calledOf_released (m n : Val V) (t : T) (log : List (Entry V T)) :
    calledOf m (.released t n :: log) = calledOf m log := rfl

omit [DecidableEq T] in
@[simp] theorem acquiredOf_called (m n : Val V) (t : T) (log : List (Entry V T)) :
    acquiredOf m (.called t n :: log) = acquiredOf m log := rfl

omit [DecidableEq T] in
@[simp] theorem acquiredOf_acquired (m n : Val V) (t : T) (log : List (Entry V T)) :
    acquiredOf m (.acquired t n :: log) = acquiredOf m log ++ if n = m then [t] else [] := by
  by_cases same : n = m <;> simp [acquiredOf, same]

omit [DecidableEq T] in
@[simp] theorem acquiredOf_released (m n : Val V) (t : T) (log : List (Entry V T)) :
    acquiredOf m (.released t n :: log) = acquiredOf m log := rfl

omit [DecidableEq T] in
theorem queueOf_settled (away : s.doing s.events.control.running ≠ some (.lock m)) :
    queueOf m s q = waiters q.registry m := by
  rw [queueOf, if_neg away, List.nil_append]

omit [DecidableEq T] in
theorem queueOf_ready (now : s.doing s.events.control.running = some (.lock m)) :
    queueOf m s q = s.events.control.running :: waiters q.registry m := by
  rw [queueOf, if_pos now, List.singleton_append]

/-- Nobody leaves the list of the mutex in a step elsewhere. -/
theorem Waits.left {b : EventSystem.Act V T} (waits : Waits m s q) (elsewhere : Elsewhere m b)
    (stepped : EventSystem.step queueLists fuel q b = .next q')
    (undisturbed : ∀ x args, b = .resume x args → s.doing x ≠ some (.lock m)) :
    waiters q'.registry m = waiters q.registry m := by
  obtain ⟨-, ⟨x, args, resumes, member, -⟩ | same⟩ :=
    elsewhere_waiters waits.sole waits.related.inv elsewhere stepped
  · exact absurd (waits.waiting x member) (undisturbed x args resumes)
  · exact same

omit [DecidableEq V] in
theorem Waits.unready (waits : Waits m s q) (waits' : Waits m u q')
    (away : s.doing s.events.control.running = some (.lock m) → s.events.control.loop ≠ none)
    (stay : ∀ t ∈ waiters q.registry m, t ∈ waiters q'.registry m)
    (others : u.doing u.events.control.running = some (.lock m) →
      s.doing u.events.control.running = some (.lock m)) :
    u.doing u.events.control.running ≠ some (.lock m) := by
  intro now
  obtain ⟨here, idle⟩ | member := waits.parked _ (others now)
  · have before := others now
    rw [here] at before
    exact away before idle
  · exact waits'.away (stay _ member)

theorem Ordered.owned (ordered : Ordered m s q)
    (away : s.doing s.events.control.running ≠ some (.lock m)) (unowned : s.insideof m = none) :
    waiters q.registry m = [] := by
  by_contra some
  exact away (ordered.waits.owned unowned some)

/-- The mutex is taken by the next one in the order of the calls. -/
theorem Ordered.acquires {begins : List (Entry V T)} (ordered : Ordered m s q)
    (enters : Begins s n begins) (unowned : s.insideof n = none) (waits : Waits m u q')
    (registry : q'.registry = q.registry)
    (running : u.events.control.running = s.events.control.running)
    (own : u.doing s.events.control.running = none)
    (log : u.log = .acquired s.events.control.running n :: begins ++ s.log) : Ordered m u q' := by
  have settled : u.doing u.events.control.running ≠ some (.lock m) := by
    rw [running, own]
    simp
  refine ⟨waits, fun now => absurd now settled, ?_⟩
  rw [queueOf_settled settled, registry, log]
  have order := ordered.order
  by_cases same : n = m
  · subst n
    cases enters with
    | call free =>
      have away : s.doing s.events.control.running ≠ some (.lock m) := by simp [free]
      have empty := ordered.owned away unowned
      rw [queueOf_settled away, empty, List.append_nil] at order
      simp [empty, order]
    | again inside =>
      rw [queueOf_ready inside] at order
      simp [order]
  · rw [queueOf_settled (Begins.away enters same)] at order
    cases enters with
    | call free => simp [same, order]
    | again inside => simp [same, order]

theorem Ordered.awaits {begins : List (Entry V T)} {owner : T} (ordered : Ordered m s q)
    (enters : Begins s n begins) (owned : s.insideof n = some owner)
    (stepped : EventSystem.step queueLists fuel q (.await n) = .next q') (waits : Waits m u q')
    (doing : u.doing = Function.update s.doing s.events.control.running (some (.lock n)))
    (log : u.log = begins ++ s.log) : Ordered m u q' := by
  have order := ordered.order
  have before := ordered.waits
  have other (away : s.events.control.running ≠ u.events.control.running)
      (now : u.doing u.events.control.running = some (.lock m)) :
      s.doing u.events.control.running = some (.lock m) := by
    rw [doing, Function.update_of_ne away.symm] at now
    exact now
  by_cases same : n = m
  · subst n
    obtain ⟨-, joined, -⟩ := await_waiters before.sole before.related.inv stepped
    rw [← before.related.control] at joined
    have away : s.events.control.running ≠ u.events.control.running := by
      intro still
      refine waits.away ?_
      rw [joined, ← still]
      simp
    cases enters with
    | call free =>
      have idle : s.doing s.events.control.running ≠ some (.lock m) := by simp [free]
      have settled := before.unready waits (fun now => absurd now idle)
        (fun t member => by simp [joined, member]) (other away)
      refine ⟨waits, fun now => absurd now settled, ?_⟩
      rw [queueOf_settled settled, log, joined]
      rw [queueOf_settled idle] at order
      simp [order]
    | again inside =>
      rw [ordered.ready inside] at owned
      cases owned
  · have idle := Begins.away enters same
    have joined := before.left (b := .await n) same stepped (by simp)
    have settled : u.doing u.events.control.running ≠ some (.lock m) := by
      intro now
      by_cases still : s.events.control.running = u.events.control.running
      · rw [doing, ← still, Function.update_self] at now
        cases now
        exact same rfl
      · exact before.unready waits (fun now => absurd now idle) (fun t member => joined ▸ member)
          (other still) now
    refine ⟨waits, fun now => absurd now settled, ?_⟩
    rw [queueOf_settled settled, log, joined]
    rw [queueOf_settled idle] at order
    cases enters with
    | call free => simp [same, order]
    | again inside => simp [order]

theorem Ordered.unlocks (ordered : Ordered m s q) (own : s.doing s.events.control.running = none)
    (stepped : EventSystem.step queueLists fuel q (.emitone n []) = .next q') (waits : Waits m u q')
    (inside : u.insideof = Function.update s.insideof n none)
    (doing : u.doing = Function.update s.doing s.events.control.running (some (.unlock n)))
    (log : u.log = .released s.events.control.running n :: s.log) : Ordered m u q' := by
  have order := ordered.order
  have before := ordered.waits
  have idle : s.doing s.events.control.running ≠ some (.lock m) := by simp [own]
  rw [queueOf_settled idle] at order
  have other (now : u.doing u.events.control.running = some (.lock m)) :
      s.doing u.events.control.running = some (.lock m) := by
    by_cases still : u.events.control.running = s.events.control.running
    · rw [doing, still, Function.update_self] at now
      cases now
    · rw [doing, Function.update_of_ne still] at now
      exact now
  by_cases same : n = m
  · subst n
    refine ⟨waits, fun _ => by rw [inside, Function.update_self], ?_⟩
    obtain ⟨-, -, taken⟩ := emitone_waiters before.sole before.related.inv stepped
    cases queue : waiters q.registry m with
    | nil =>
      have settled := before.unready waits (fun now => absurd now idle)
        (fun t member => by simp [queue] at member) other
      rw [queue] at taken
      subst q'
      rw [queueOf_settled settled, log]
      simp [order]
    | cons x rest =>
      rw [queue] at taken
      obtain ⟨returned, left, -⟩ := taken
      have running : u.events.control.running = x := by
        rw [waits.related.control]
        exact returned.running
      have first : x ∈ waiters q.registry m := queue ▸ List.mem_cons_self
      have ready : u.doing u.events.control.running = some (.lock m) := by
        rw [running, doing, Function.update_of_ne]
        · exact before.waiting x first
        · rintro rfl
          exact before.away first
      rw [queueOf_ready ready, log, left, running]
      simp [order, queue]
  · have joined := before.left (b := .emitone n []) same stepped (by simp)
    have settled := before.unready waits (fun now => absurd now idle)
      (fun t member => joined ▸ member) other
    refine ⟨waits, fun now => absurd now settled, ?_⟩
    rw [queueOf_settled settled, log, joined]
    simp [order]

theorem step_ordered {a : ℕ × MutexSystem.Act V T} (ordered : Ordered m s q)
    (undisturbed : Undisturbed m s a) (moves : Moves a.1 s q a.2 u q')
    (related : Related u.events q') : Ordered m u q' := by
  have waits := step_waits ordered.waits undisturbed.1 moves related
  obtain ⟨fuel, a⟩ := a
  have same (settled : u.doing u.events.control.running ≠ some (.lock m))
      (idle : s.doing s.events.control.running ≠ some (.lock m))
      (registry : waiters q'.registry m = waiters q.registry m) (log : u.log = s.log) :
      Ordered m u q' := by
    refine ⟨waits, fun now => absurd now settled, ?_⟩
    rw [queueOf_settled settled, registry, log, ordered.order, queueOf_settled idle]
  cases moves with
  | @event b events _ own stepped =>
    have away : s.doing s.events.control.running = some (.lock m) → s.events.control.loop ≠ none := by
      intro now
      obtain own | loop := own
      · simp [own] at now
      · exact loop
    have left := ordered.waits.left undisturbed.1 stepped
      (by
        rintro x args rfl
        exact undisturbed.2)
    have idle : s.doing s.events.control.running ≠ some (.lock m) := by
      intro now
      obtain ⟨-, idle⟩ | member := ordered.waits.parked _ now
      · exact away now idle
      · exact ordered.waits.away member
    exact same (ordered.waits.unready waits away (fun t member => left ▸ member) id) idle left rfl
  | acquires idle enters unowned key =>
    exact ordered.acquires enters unowned waits rfl rfl (by simp) rfl
  | awaits enters owned stepped => exact ordered.awaits enters owned stepped waits rfl rfl
  | unlocks own owned stepped => exact ordered.unlocks own stepped waits rfl rfl rfl
  | returns inside => exact same (by simp) (by simp [inside]) rfl rfl
  | refused own => exact same (by simp [own]) (by simp [own]) rfl rfl
  | fails inside why =>
    refine same (by simp) (fun now => ?_) rfl rfl
    have unowned := ordered.ready now
    rw [inside] at now
    cases now
    obtain ⟨nil, nan⟩ := ordered.waits.key _ inside
    exact (why unowned).elim nil nan

theorem mem_queueOf (waits : Waits m s q) : t ∈ queueOf m s q ↔ s.doing t = some (.lock m) := by
  by_cases now : s.doing s.events.control.running = some (.lock m)
  · rw [queueOf_ready now, List.mem_cons]
    constructor
    · rintro (rfl | member)
      · exact now
      · exact waits.waiting t member
    · exact fun lock => (waits.parked t lock).imp (fun here => here.1) id
  · rw [queueOf_settled now]
    refine ⟨waits.waiting t, fun lock => (waits.parked t lock).resolve_left ?_⟩
    rintro ⟨rfl, -⟩
    exact now lock

theorem queueOf_nodup (waits : Waits m s q) : (queueOf m s q).Nodup := by
  have nodup := waiters_nodup (m := m) waits.related.inv
  by_cases now : s.doing s.events.control.running = some (.lock m)
  · rw [queueOf_ready now]
    exact List.nodup_cons.mpr ⟨waits.away, nodup⟩
  · rw [queueOf_settled now]
    exact nodup

theorem step_log {a : MutexSystem.Act V T} (moves : Moves fuel s q a u q') :
    ∃ new, u.log = new ++ s.log := by
  cases moves with
  | event own stepped => exact ⟨[], rfl⟩
  | acquires idle enters unowned key => exact ⟨_ :: _, rfl⟩
  | awaits enters owned stepped => exact ⟨_, rfl⟩
  | unlocks own owned stepped => exact ⟨[_], rfl⟩
  | returns inside => exact ⟨[], rfl⟩
  | refused own => exact ⟨[], rfl⟩
  | fails inside why => exact ⟨[], rfl⟩

theorem run_ordered {acts : List (ℕ × MutexSystem.Act V T)} (ordered : Ordered m s q)
    (ran : run (MutexSystem.next registryLists) s acts = some u)
    (undisturbed : Along (MutexSystem.next registryLists) (Undisturbed m) s acts) :
    ∃ q', Ordered m u q' ∧ ∃ new, u.log = new ++ s.log := by
  refine run_invariant_along (fun u => ∃ q', Ordered m u q' ∧ ∃ new, u.log = new ++ s.log)
    (Undisturbed m) ?_ ⟨q, ordered, [], rfl⟩ undisturbed ran
  rintro v a w ⟨q₁, ordered₁, new, log⟩ undisturbed stepped
  obtain ⟨q₂, related, moves⟩ := next_moves ordered₁.waits.related stepped
  obtain ⟨more, log'⟩ := step_log moves
  refine ⟨q₂, step_ordered ordered₁ undisturbed moves related, more ++ new, ?_⟩
  rw [log', log, List.append_assoc]

omit [DecidableEq T] in
theorem calledOf_append (m : Val V) (new log : List (Entry V T)) :
    calledOf m (new ++ log) = calledOf m log ++ calledOf m new := by
  simp [calledOf, List.filterMap_append]

omit [DecidableEq T] in
theorem acquiredOf_append (m : Val V) (new log : List (Entry V T)) :
    acquiredOf m (new ++ log) = acquiredOf m log ++ acquiredOf m new := by
  simp [acquiredOf, List.filterMap_append]

/-- Calls return in the order in which they were made: first those that wait now, then those that
are made later. -/
structure Served (m : Val V) (s u : MutexSystem.State (Registry V T) V T)
    (queue later served : List T) : Prop where
  waiting : ∀ t, t ∈ queue ↔ s.doing t = some (.lock m)
  nodup : queue.Nodup
  before : calledOf m s.log = acquiredOf m s.log ++ queue
  calls : calledOf m u.log = calledOf m s.log ++ later
  returns : acquiredOf m u.log = acquiredOf m s.log ++ served
  order : served <+: queue ++ later

/-- When the value is used as an event by the module only and nobody that waits in `module.lock`
is resumed by other code, the coroutines get the mutex in the order of their calls, whatever the
nesting of the calls of `module.unlock`. -/
theorem lock_first_come (main : T) (m : Val V) (as bs : List (ℕ × MutexSystem.Act V T))
    (s u : MutexSystem.State (Registry V T) V T)
    (first : run (MutexSystem.next registryLists) (MutexSystem.State.init main) as = some s)
    (rest : run (MutexSystem.next registryLists) s bs = some u)
    (undisturbed : Along (MutexSystem.next registryLists) (Undisturbed m)
      (MutexSystem.State.init main) (as ++ bs)) :
    ∃ queue later served, Served m s u queue later served := by
  obtain ⟨along, along'⟩ := along_split undisturbed first
  obtain ⟨q, waits⟩ := waits_init m main
  have start : Ordered m (MutexSystem.State.init main) q := by
    have idle : (MutexSystem.State.init (V := V) main).doing main ≠ some (.lock m) := by
      simp [MutexSystem.State.init]
    have empty : waiters q.registry m = [] := by
      by_contra some
      exact idle (waits.owned rfl some)
    refine ⟨waits, fun now => absurd now idle, ?_⟩
    rw [queueOf_settled idle, empty]
    rfl
  obtain ⟨q₁, ordered₁, -⟩ := run_ordered start first along
  obtain ⟨q₂, ordered₂, new, log⟩ := run_ordered ordered₁ rest along'
  refine ⟨queueOf m s q₁, calledOf m new, acquiredOf m new, fun t => mem_queueOf ordered₁.waits,
    queueOf_nodup ordered₁.waits, ordered₁.order, by rw [log, calledOf_append],
    by rw [log, acquiredOf_append], queueOf m u q₂, ?_⟩
  have order := ordered₂.order
  rw [log, calledOf_append, acquiredOf_append, ordered₁.order, List.append_assoc,
    List.append_assoc] at order
  exact (List.append_cancel_left order).symm

/-- The second coroutine unlocks the mutex while the first one does. -/
theorem lock_first_come_nested :
    ∃ s u : MutexSystem.State (Registry ℕ ℕ) ℕ ℕ,
      run (MutexSystem.next registryLists) (MutexSystem.State.init 0) contended = some s ∧
      run (MutexSystem.next registryLists) s
        [(0, .event (.resume 1 [])), (0, .unlock (.ref 7)), (0, .goon), (0, .unlock (.ref 7)),
          (0, .goon)] = some u ∧
      acquiredOf (.ref 7) u.log = [1, 2, 3] ∧
      ∃ queue later served, Served (.ref 7) s u queue later served := by
  have computed : (run (MutexSystem.next registryLists)
      (MutexSystem.State.init 0 : MutexSystem.State (Registry ℕ ℕ) ℕ ℕ)
      (contended ++ [(0, .event (.resume 1 [])), (0, .unlock (.ref 7)), (0, .goon),
        (0, .unlock (.ref 7)), (0, .goon)])).map
      (fun s => acquiredOf (.ref 7) s.log) = some [1, 2, 3] := by rfl
  obtain ⟨u, ran, acquired⟩ := Option.map_eq_some_iff.mp computed
  obtain ⟨s, first, rest⟩ := run_append.mp ran
  refine ⟨s, u, first, rest, acquired, ?_⟩
  exact lock_first_come 0 (.ref 7) contended _ s u first rest (by decide)

end
end Coutil.MutexExclusion
