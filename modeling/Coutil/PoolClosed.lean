import Coutil.PoolTermination
import Coutil.ChannelSuspension

set_option autoImplicit false

/-! What is left of a pool that was closed: no thread, and the tasks that wait on channels until
they are resumed and closed. The last of them destroys the pool. -/
namespace Coutil.PoolClosed
open Runs Census Placement TaskLedger ThreadPool PoolInvariant PoolTasks TaskSystem TaskSteps
open TaskConservation PoolTermination ChannelTask ChannelSuspension

variable {T C : Type} {s s' : TaskSystem.State T C} {a : TaskSystem.Act T C}

/-- The assertions of `lcuTP_destroytpool`. -/
def Destroyable (pool : Pool T) : Prop :=
  pool.status = .closed ∧ pool.threads = 0 ∧ pool.idle = 0 ∧ pool.tasks = 0 ∧
    pool.running = 0 ∧ pool.pending = 0 ∧ pool.queue = []

/-- The step ends `lcuTP_closetpool`, or it is a `collectthreadpool`. -/
def Act.accounts : TaskSystem.Act T C → Bool
  | .close => true
  | .closeagain => true
  | .drain => true
  | .collect _ => true
  | _ => false

/-- The pool that `lcuTP_destroytpool` is called with in the step, if it is called. -/
def destroytpool (a : TaskSystem.Act T C) (s' : TaskSystem.State T C) : List (Pool T) :=
  if Act.accounts a ∧ s'.pool.pool.status = .closed ∧ s'.pool.pool.tasks = 0 then [s'.pool.pool]
  else []

/-- The pool is resized before it is closed, and when it is closed no task is left or no thread
is asked for. -/
def Left (s : TaskSystem.State T C) (a : TaskSystem.Act T C) : Prop :=
  (∀ size create created w, a = .resize size create created w → s.pool.pool.status ≠ .closed) ∧
    (a = .close ∨ a = .closeagain → s.pool.pool.threads ≤ 0 →
      s.pool.pool.tasks = 0 ∨ s.pool.pool.size ≤ 0)

structure Inert (pool : Pool T) : Prop where
  threads : pool.threads = 0
  pending : pool.pending = 0
  left : pool.tasks = 0 ∨ pool.size ≤ 0

theorem counts_of_threads {pool : ThreadPool.State T} (counted : Counted pool)
    (threads : pool.pool.threads = 0) (k : Kind) (alive : k ≠ .ended) : pool.count k = 0 := by
  have all := counted.threads
  cases k <;> first | omega | exact absurd rfl alive

theorem ended_of_threads {pool : ThreadPool.State T} (counted : Counted pool)
    (threads : pool.pool.threads = 0) : ∀ phase ∈ pool.workers, phase.kind = .ended := by
  intro phase member
  by_contra alive
  exact ne_of_census_eq_zero Phase.kind (counts_of_threads counted threads _ alive) member rfl

theorem unlocked_of_threads {pool pool' : ThreadPool.State T} {act : ThreadPool.Act T}
    (counted : Counted pool) (threads : pool.pool.threads = 0) (works : Act.works act) :
    ThreadPool.step pool act ≠ some pool' := by
  intro stepped
  obtain ⟨i, w, phase, pool, locks, -⟩ := works_cases counted works stepped
  exact locks.alive.1 (ended_of_threads counted threads phase (List.mem_of_getElem? locks.at_i))

theorem not_added {pool pool' : ThreadPool.State T} {t : T} {created added : Bool} {w : ℕ}
    (closed : pool.pool.status = .closed)
    (result : ThreadPool.addthread_mx pool t created w = some (added, pool')) : added = false := by
  obtain ⟨u, called, accepted⟩ := Option.map_eq_some_iff.mp result
  rw [accept, if_pos ((same_callthread called).status.trans closed)] at accepted
  cases accepted
  rfl

/-- No thread is called for a task that comes back to a closed pool. -/
theorem refused {pool pool' : ThreadPool.State T} {t : T} {created added : Bool} {w : ℕ}
    (counted : Counted pool) (closed : pool.pool.status = .closed) (inert : Inert pool.pool)
    (left : pool.pool.tasks ≠ 0)
    (result : ThreadPool.addthread_mx pool t created w = some (added, pool')) :
    pool' = pool := by
  have idle := counted.idle
  have waiting := counts_of_threads counted inert.threads .waiting (by simp)
  have signalled := counts_of_threads counted inert.threads .signalled (by simp)
  have spurious := counts_of_threads counted inert.threads .spurious (by simp)
  have size := inert.left.resolve_left left
  obtain ⟨u, called, accepted⟩ := Option.map_eq_some_iff.mp result
  have same : u = pool := by
    unfold callthread at called
    have unwanted : ¬pool.pool.threads < pool.pool.size := by
      rw [inert.threads]
      omega
    rw [if_neg (by omega : ¬pool.pool.idle > 0), if_neg unwanted, ite_self] at called
    exact (Option.some.inj called).symm
  subst u
  rw [accept, if_pos closed] at accepted
  cases accepted
  rfl

theorem inert_close {pool pool' : ThreadPool.State T} {act : ThreadPool.Act T}
    (latched : Latched pool) (counted : Counted pool) (closes : act = .close ∨ act = .closeagain)
    (left : pool.pool.threads ≤ 0 → pool.pool.tasks = 0 ∨ pool.pool.size ≤ 0)
    (stepped : ThreadPool.step pool act = some pool') (closed : pool'.pool.status = .closed) :
    Inert pool'.pool := by
  obtain ⟨-, rfl⟩ := close_cases latched closes stepped
  have threads := counted.threads
  unfold closeloop at closed ⊢
  split_ifs at closed ⊢ with alive
  · rw [(same_checkhalted_mx _).status] at closed
    cases closed
  · change ¬pool.pool.threads > 0 at alive
    exact ⟨by simp only [shut]; omega, rfl, left (by omega)⟩

variable [DecidableEq T] [DecidableEq C] {channels : Channels T C}

omit [DecidableEq T] [DecidableEq C] in
theorem accounted_before (conserving : Conserving s) {p : Place} {t : T}
    (held : (view s).Holds p t) : 0 < s.pool.pool.tasks :=
  conserving.balanced.tasks_pos ⟨p, held⟩

omit [DecidableEq T] [DecidableEq C] in
theorem head_drains {t : T} {queue : List T} (closer : s.pool.closer = .closing (t :: queue)) :
    (view s).Holds .closer t := by
  change t ∈ s.pool.draining
  simp [State.draining, closer]

omit [DecidableEq T] [DecidableEq C] in
theorem accounted_matcher (conserving : Conserving s) {j : ℕ} {m : Matcher T C} {t : T}
    (at_j : s.matchers[j]? = some m) (stage : Stage.task? m.stage = some t) :
    0 < s.pool.pool.tasks := by
  refine accounted_before (p := .matcher j) (t := t) conserving ?_
  change atMatcher s.matchers j = some t
  simp [atMatcher, at_j, stage]

omit [DecidableEq T] [DecidableEq C] in
/-- A section of the tasks leaves a closed pool as it is. -/
theorem Inert.moves {act : ThreadPool.Act T} (conserving : Conserving s)
    (latched : Latched s.pool) (inert : Inert s.pool.pool)
    (closed : s.pool.pool.status = .closed) (left : Left s a) (moves : Moves s a act)
    (stepped : ThreadPool.step s.pool act = some s'.pool) : s'.pool = s.pool := by
  have counted := conserving.quiet.counted
  have idle (works : Act.works act) : s'.pool = s.pool :=
    absurd stepped (unlocked_of_threads counted inert.threads works)
  cases moves with
  | add t L created w =>
    obtain ⟨⟨added, u⟩, result, kept⟩ := Option.bind_eq_some_iff.mp stepped
    simp only [Option.ite_none_right_eq_some, not_added closed result, Bool.false_eq_true,
      false_and] at kept
  | start i w => exact idle rfl
  | relock i w => exact idle rfl
  | finish running job => exact idle rfl
  | resume at_j stage =>
    rename_i j m t created w
    obtain ⟨⟨added, u⟩, result, rfl⟩ := Option.map_eq_some_iff.mp stepped
    have some_left := accounted_matcher conserving at_j (by rw [stage]; rfl)
    exact (refused counted closed inert (ne_of_gt some_left) result)
  | pooled pooled =>
    cases a with
    | awake i =>
      cases pooled
      simp only [ThreadPool.step] at stepped
      split at stepped
      · rename_i at_i
        cases ended_of_threads counted inert.threads _ (List.mem_of_getElem? at_i)
      · cases stepped
    | resize size create created w => exact absurd closed (left.1 _ _ _ _ rfl)
    | close =>
      cases pooled
      exact absurd closed (close_cases latched (Or.inl rfl) stepped).1
    | closeagain =>
      cases pooled
      exact absurd closed (close_cases latched (Or.inr rfl) stepped).1
    | closeawake =>
      cases pooled
      simp only [ThreadPool.step] at stepped
      split at stepped
      · rename_i waiting
        simp only [Latched, waiting, closed, reduceCtorEq] at latched
      · cases stepped
    | _ => cases pooled

omit [DecidableEq T] [DecidableEq C] in
theorem destroyable (counted : Counted s.pool) (closed : s.pool.pool.status = .closed)
    (inert : Inert s.pool.pool) (tasks : s.pool.pool.tasks = 0) : Destroyable s.pool.pool := by
  have none (k : Kind) (alive : k ≠ .ended) := counts_of_threads counted inert.threads k alive
  have idle := counted.idle
  have running := counted.running
  have pending := counted.pending
  rw [none .waiting (by simp), none .signalled (by simp), none .spurious (by simp)] at idle
  rw [none .running (by simp)] at running
  rw [inert.pending] at pending
  refine ⟨closed, inert.threads, idle, tasks, running, inert.pending, ?_⟩
  exact List.eq_nil_of_length_eq_zero (by omega)

omit [DecidableEq T] in
theorem Inert.collected {pool : Pool T} (inert : Inert pool) (some_left : 0 < pool.tasks) :
    Inert { pool with tasks := pool.tasks - 1 } :=
  ⟨inert.threads, inert.pending, Or.inr (inert.left.resolve_left (ne_of_gt some_left))⟩

omit [DecidableEq T] [DecidableEq C] in
theorem Moves.closes {act : ThreadPool.Act T} (moves : Moves s a act)
    (closes : act = .close ∨ act = .closeagain) : a = .close ∨ a = .closeagain := by
  cases moves with
  | pooled pooled =>
    obtain rfl | rfl := closes <;> cases a <;> cases pooled <;> simp
  | _ => simp at closes

omit [DecidableEq T] [DecidableEq C] in
theorem Closing.drained {queue : List T} (closing : Closing s)
    (closer : s.pool.closer = .closing queue) : s.pool.pool.status = .closed := by
  have latched := closing.latched
  simp only [Latched, closer] at latched
  exact latched

theorem Inert.step (conserving : Conserving s) (closing : Closing s)
    (inert : s.pool.pool.status = .closed → Inert s.pool.pool) (left : Left s a)
    (stepped : Step channels s a s') (closed : s'.pool.pool.status = .closed) :
    Inert s'.pool.pool := by
  obtain same | ⟨act, moves, stepped⟩ | ⟨t, queue, -, closer, same⟩ |
    ⟨j, m, t, -, at_j, stage, same⟩ := pool_cases stepped
  · rw [same] at closed ⊢
    exact inert closed
  · by_cases before : s.pool.pool.status = .closed
    · rw [Inert.moves conserving closing.latched (inert before) before left moves stepped]
      exact inert before
    · by_cases closes : act = .close ∨ act = .closeagain
      · exact inert_close closing.latched conserving.quiet.counted closes
          (left.2 (Moves.closes moves closes)) stepped closed
      · have steady := steady_step conserving.quiet.counted (not_or.mp closes) stepped
        exact absurd (steady.1.symm.trans closed) before
  · rw [same]
    exact (inert (Closing.drained closing closer)).collected
      (accounted_before (p := .closer) conserving (head_drains closer))
  · rw [same]
    have before := closing.disposed m (List.mem_of_getElem? at_j) t stage
    exact (inert before).collected (accounted_matcher conserving at_j (by rw [stage]; rfl))

/-- The pool is closed and all its tasks are accounted. -/
def Settled (s : TaskSystem.State T C) : Prop :=
  s.pool.pool.status = .closed ∧ s.pool.pool.tasks = 0

instance (s : TaskSystem.State T C) : Decidable (Settled s) :=
  inferInstanceAs (Decidable (_ ∧ _))

structure Closed (s : TaskSystem.State T C) (log : List (Pool T)) : Prop where
  conserving : Conserving s
  closing : Closing s
  inert : s.pool.pool.status = .closed → Inert s.pool.pool
  once : log.length = if Settled s then 1 else 0
  sound : ∀ pool ∈ log, Destroyable pool


/-- A step that may destroy the pool is made before all tasks are accounted. -/
theorem unsettled_of_accounts (conserving : Conserving s) (closing : Closing s)
    (accounts : Act.accounts a) (stepped : Step channels s a s') : ¬Settled s := by
  rintro ⟨closed, none_left⟩
  cases stepped with
  | elsewhere kind free stepped =>
    cases a <;> cases accounts <;> cases free.2 <;> simp at kind
  | close kind free stepped => exact (close_cases closing.latched kind stepped).1 closed
  | drain closer unused =>
    have some_left := accounted_before (p := .closer) conserving (head_drains closer)
    omega
  | collect at_j stage unused =>
    have some_left := accounted_matcher conserving at_j (by rw [stage]; rfl)
    omega
  | arm syncs calls idle checked queue given => cases a <;> cases accounts <;> cases syncs
  | call syncs calls checked queue given => cases a <;> cases accounts <;> cases syncs
  | refuse syncs calls queue => cases a <;> cases accounts <;> cases syncs
  | _ => cases accounts

theorem settled_iff (conserving : Conserving s) (closing : Closing s)
    (inert : s.pool.pool.status = .closed → Inert s.pool.pool) (left : Left s a)
    (others : ¬Act.accounts a) (stepped : Step channels s a s') : Settled s' ↔ Settled s := by
  obtain same | ⟨act, moves, stepped⟩ | ⟨t, queue, rfl, -⟩ | ⟨j, m, t, rfl, -⟩ :=
    pool_cases stepped
  · rw [Settled, same, Settled]
  · by_cases before : s.pool.pool.status = .closed
    · rw [Settled, Inert.moves conserving closing.latched (inert before) before left moves stepped,
        Settled]
    · have running : ¬(act = .close ∨ act = .closeagain) := by
        intro closes
        obtain rfl | rfl := Moves.closes moves closes <;> exact others rfl
      have steady := steady_step conserving.quiet.counted (not_or.mp running) stepped
      have after : s'.pool.pool.status ≠ .closed := by rw [steady.1]; exact before
      exact ⟨fun settled => absurd settled.1 after, fun settled => absurd settled.1 before⟩
  · exact absurd rfl others
  · exact absurd rfl others

theorem Closed.step {log : List (Pool T)} (closed : Closed s log) (left : Left s a)
    (stepped : TaskSystem.step channels s a = some s') :
    Closed s' (log ++ destroytpool a s') := by
  have cases_ := step_cases stepped
  have conserving := closed.conserving.step stepped
  have inert := Inert.step closed.conserving closed.closing closed.inert left cases_
  have once := closed.once
  have sound := closed.sound
  refine ⟨conserving, closed.closing.step closed.conserving cases_, inert, ?_, fun pool member => ?_⟩
  · rw [List.length_append, once]
    by_cases accounts : Act.accounts a
    · have unsettled := unsettled_of_accounts closed.conserving closed.closing accounts cases_
      rw [if_neg unsettled, Nat.zero_add, destroytpool]
      by_cases settled : Settled s'
      · rw [if_pos settled, if_pos ⟨accounts, settled⟩]
        rfl
      · rw [if_neg settled, if_neg fun destroyed => settled destroyed.2]
        rfl
    · have same := settled_iff closed.conserving closed.closing closed.inert left accounts cases_
      have silent : destroytpool a s' = [] := if_neg fun destroyed => accounts destroyed.1
      simp only [silent, List.length_nil, Nat.add_zero, same]
  · obtain old | new := List.mem_append.mp member
    · exact sound pool old
    · unfold destroytpool at new
      split_ifs at new with settled
      · rw [List.mem_singleton.mp new]
        exact destroyable conserving.quiet.counted settled.2.1 (inert settled.2.1) settled.2.2
      · cases new

theorem resumetask_closed {j : ℕ} {m : Matcher T C} {t : T} {created : Bool} {w : ℕ}
    (conserving : Conserving s) (inert : Inert s.pool.pool)
    (closed : s.pool.pool.status = .closed) (at_j : s.matchers[j]? = some m)
    (stage : m.stage = .resuming t)
    (stepped : TaskSystem.step channels s (.resumetask j created w) = some s') :
    s'.pool = s.pool ∧ s'.matchers[j]? = some { m with stage := .closing t } := by
  have some_left := accounted_matcher conserving at_j (by rw [stage]; rfl)
  cases step_cases stepped with
  | resumetask at_j' stage' result =>
    obtain rfl := Option.some.inj (at_j.symm.trans at_j')
    cases stage.symm.trans stage'
    obtain rfl := not_added closed result
    obtain rfl := refused conserving.quiet.counted closed inert (ne_of_gt some_left) result
    have bound := (List.getElem?_eq_some_iff.mp at_j).1
    exact ⟨rfl, List.getElem?_set_self bound⟩
  | elsewhere kind free stepped => cases free.2
  | close kind free stepped => cases free.2
  | arm syncs calls idle checked queue given => cases syncs
  | call syncs calls checked queue given => cases syncs
  | refuse syncs calls queue => cases syncs

omit [DecidableEq T] [DecidableEq C] in
theorem closed_initial :
    Closed (initial : TaskSystem.State T C) [] :=
  ⟨conserving_initial, closing_initial,
    fun closed => absurd closed (by simp [initial, createtpool]), rfl,
    fun _ member => absurd member List.not_mem_nil⟩

/-- In a run where the pool is closed with no task left, or with no thread asked for, a closed
pool has no thread and gets none, a task that is resumed is closed, and the pool is destroyed
once, by the last of its tasks. -/
theorem closed_pool_inert {acts : List (TaskSystem.Act T C)} {log : List (Pool T)}
    (ran : run (logged (TaskSystem.step channels) destroytpool) (initial, []) acts = some (s, log))
    (along : Along (logged (TaskSystem.step channels) destroytpool) (fun u a => Left u.1 a)
      (initial, []) acts) :
    (s.pool.pool.status = .closed →
      (∀ phase ∈ s.pool.workers, phase.kind = .ended) ∧ s.pool.pool.queue = [] ∧
      (∀ a s', TaskSystem.step channels s a = some s' → Left s a →
        s'.pool.workers = s.pool.workers) ∧
      ∀ j m t created w s', s.matchers[j]? = some m → m.stage = .resuming t →
        TaskSystem.step channels s (.resumetask j created w) = some s' →
        s'.pool = s.pool ∧ s'.matchers[j]? = some { m with stage := .closing t }) ∧
    log.length = (if s.pool.pool.status = .closed ∧ s.pool.pool.tasks = 0 then 1 else 0) ∧
    ∀ pool ∈ log, Destroyable pool := by
  have closed : Closed s log := by
    refine run_invariant_along (fun u : TaskSystem.State T C × List (Pool T) => Closed u.1 u.2)
      (fun u a => Left u.1 a) (fun u a v kept left stepped => ?_) closed_initial along ran
    obtain ⟨stepped, same⟩ := logged_cases stepped
    rw [same]
    exact kept.step left stepped
  refine ⟨fun status => ?_, closed.once, closed.sound⟩
  have counted := closed.conserving.quiet.counted
  have inert := closed.inert status
  refine ⟨ended_of_threads counted inert.threads, ?_, fun a s' stepped left => ?_,
    fun j m t created w s' at_j stage stepped => ?_⟩
  · have pending := counted.pending
    rw [inert.pending] at pending
    exact List.eq_nil_of_length_eq_zero (by omega)
  · obtain same | ⟨act, moves, stepped⟩ | ⟨t, queue, -, -, same⟩ | ⟨j, m, t, -, -, -, same⟩ :=
      pool_cases (step_cases stepped)
    · rw [same]
    · rw [Inert.moves closed.conserving closed.closing.latched inert status left moves stepped]
    · rw [same]
      rfl
    · rw [same]
      rfl
  · exact resumetask_closed closed.conserving inert status at_j stage stepped

def sampleLeft : List (TaskSystem.Act ℕ ℕ) :=
  sampleWait ++ [.yield 0 [] [.channeltask], .handle 0, .discard 0, .finish 0 0,
    .resize 0 false 0 0, .lock 0 0, .resize 3 false 0 0]

def sampleResume (created : Bool) : List (TaskSystem.Act ℕ ℕ) :=
  [.trysync none 1 [.object "channel" 1], .swap 0 .none, .send 0, .book 0,
    .resumetask 0 created 0]

theorem along_others (u : TaskSystem.State T C × List (Pool T)) {acts : List (TaskSystem.Act T C)}
    (others : ∀ a ∈ acts, Act.pooled a = none) :
    Along (logged (TaskSystem.step channels) destroytpool) (fun u a => Left u.1 a) u acts := by
  refine along_always fun a member _ => ⟨fun _ _ _ _ resizes => ?_, fun closes => ?_⟩
  · have other := others a member
    rw [resizes] at other
    cases other
  · have other := others a member
    obtain rfl | rfl := closes <;> cases other

def sampleStop : List (TaskSystem.Act ℕ ℕ) :=
  [.yield 0 [] [.channeltask], .handle 0, .discard 0, .finish 0 0]

theorem along_stop :
    Along (logged (TaskSystem.step sample) destroytpool) (fun u a => Left u.1 a) (initial, [])
      (sampleWait ++ ([.resize 0 false 0 0] ++ (sampleStop ++ [.close]))) := by
  refine along_append ⟨⟨by simp [initial, createtpool], by simp⟩, fun v _ =>
    along_others v (by simp [Act.pooled])⟩ fun u before => along_append ?_ fun v resized =>
      along_append (along_others v (by simp [sampleStop, Act.pooled])) fun w stopped => ?_
  · have reached := congrArg (Option.map fun v => v.1.pool.pool.status) before
    have opened : some Status.opened = some u.1.pool.pool.status := Eq.trans (by decide) reached
    refine ⟨⟨fun _ _ _ _ _ closed => ?_, by simp⟩, fun _ _ => trivial⟩
    cases (Option.some.inj opened).trans closed
  · have all := run_append.mpr ⟨v, run_append.mpr ⟨u, before, resized⟩, stopped⟩
    have reached := congrArg (Option.map fun v => v.1.pool.pool.size) all
    have size : some (0 : ℤ) = some w.1.pool.pool.size := Eq.trans (by decide) reached
    exact ⟨⟨by simp, fun _ _ => Or.inr (le_of_eq (Option.some.inj size).symm)⟩, fun _ _ => trivial⟩

/-- Task 7 is left when the pool is closed with no thread asked for; it is resumed, closed, and
destroys the pool. -/
theorem closed_pool_inert_left :
    ∃ (s : TaskSystem.State ℕ ℕ) (log : List (Pool ℕ)),
      run (logged (TaskSystem.step sample) destroytpool) (initial, [])
        ((sampleWait ++ ([.resize 0 false 0 0] ++ (sampleStop ++ [.close]))) ++
          (sampleResume true ++ [.process none 0, .collect 0])) = some (s, log) ∧
      s.pool.pool.status = .closed ∧ log.length = 1 ∧ ∀ pool ∈ log, Destroyable pool := by
  have ran : run (logged (TaskSystem.step sample) destroytpool) (initial, [])
      ((sampleWait ++ ([.resize 0 false 0 0] ++ (sampleStop ++ [.close]))) ++
        (sampleResume true ++ [.process none 0, .collect 0])) = some (_, _) := rfl
  refine ⟨_, _, ran, rfl, rfl, (closed_pool_inert ran (along_append along_stop fun u _ => ?_)).2.2⟩
  exact along_others u (by simp [sampleResume, Act.pooled])

/-- A thread is created in a closed pool. -/
theorem closed_pool_not_inert :
    ¬∀ (acts acts' : List (TaskSystem.Act ℕ ℕ)) (s : TaskSystem.State ℕ ℕ),
      run (TaskSystem.step sample) initial (acts ++ .close :: acts') = some s →
      (∀ a ∈ acts', Act.pooled a = none) → s.pool.pool.status = .closed →
      ∀ phase ∈ s.pool.workers, phase.kind = .ended := by
  intro claim
  have ran : run (TaskSystem.step sample) initial (sampleLeft ++ .close :: sampleResume true) =
    some _ := rfl
  have ended := claim _ _ _ ran (by simp [sampleResume, Act.pooled]) rfl .starting
    (List.mem_of_getElem? (i := 1) rfl)
  cases ended

end Coutil.PoolClosed
