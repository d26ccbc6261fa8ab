import Coutil.PoolClosed

set_option autoImplicit false

/-! The scheduler of a task while the task is closed: `loop->data` of `src/lscheduf.c`, which
`system.run` sets and clears when it returns, beside the tasks of a pool. -/
namespace Coutil.TaskScheduler
open Runs Placement TaskLedger PoolInvariant PoolTasks TaskSystem TaskSteps TaskConservation
open PoolTermination PoolClosed ChannelTask ChannelSuspension

variable {T C : Type} [DecidableEq T] [DecidableEq C] {channels : Channels T C}

structure State (T C : Type) where
  tasks : TaskSystem.State T C
  data : T → Bool

def initial : State T C where
  tasks := TaskSystem.initial
  data := fun _ => false

inductive Act (T C : Type) where
  | task (a : TaskSystem.Act T C)
  | run (i : ℕ)
  | ran (i : ℕ)

/-- A coroutine in `system.run` yields nothing but the `ChannelTask`, and it does not end there:
the errors of the coroutines that are resumed in it are warnings. -/
def allows (s : State T C) : TaskSystem.Act T C → Bool
  | .yield i _ values => ∀ t ∈ s.tasks.running i, s.data t → values = [.channeltask]
  | .ends i => ∀ t ∈ s.tasks.running i, ¬s.data t
  | _ => true

/-- `system.run` in the task of worker `i` begins or returns. -/
def setdata (s : State T C) (i : ℕ) (data : Bool) : Option (State T C) :=
  (s.tasks.running i).bind fun t =>
    if s.tasks.job i = .executing ∧ s.data t ≠ data then
      some { s with data := Function.update s.data t data }
    else none

def step (channels : Channels T C) (s : State T C) : Act T C → Option (State T C)
  | .task a =>
    if allows s a then (TaskSystem.step channels s.tasks a).map fun u => { s with tasks := u }
    else none
  | .run i => setdata s i true
  | .ran i => setdata s i false

def Disposed (s : TaskSystem.State T C) (t : T) : Prop :=
  (∃ i, s.pool.task i = some t ∧ s.job i = .closing) ∨ s.disposing t

/-- When the pool gets closed no task is suspended in `system.run`. -/
def Finished (s : State T C) : Act T C → Prop
  | .task .close => s.tasks.pool.pool.threads ≤ 0 → ∀ t, Live s.tasks t → ¬s.data t
  | .task .closeagain => s.tasks.pool.pool.threads ≤ 0 → ∀ t, Live s.tasks t → ¬s.data t
  | _ => True

/-- Nobody has a task of the pool. -/
structure Emptied (pool : ThreadPool.State T) : Prop where
  queue : pool.pool.queue = []
  idle : ∀ i, pool.task i = none

omit [DecidableEq T] in
theorem Emptied.same {pool pool' : ThreadPool.State T} (emptied : Emptied pool)
    (same : Same pool pool') : Emptied pool' :=
  ⟨same.queue.trans emptied.queue, fun i => by rw [same.task]; exact emptied.idle i⟩

omit [DecidableEq T] in
theorem Emptied.takes {pool pool' : ThreadPool.State T} {i : ℕ} (emptied : Emptied pool)
    (takes : Takes pool pool' i) : Emptied pool' := by
  obtain ⟨queue, task⟩ | ⟨t, queue, -⟩ := takes.found
  · exact ⟨queue.trans emptied.queue, fun k => by rw [task]; exact emptied.idle k⟩
  · rw [emptied.queue] at queue
    cases queue

omit [DecidableEq T] [DecidableEq C] in
theorem Emptied.moves {s : TaskSystem.State T C} {a : TaskSystem.Act T C}
    {act : ThreadPool.Act T} {pool : ThreadPool.State T} (emptied : Emptied s.pool)
    (latched : Latched s.pool) (closed : s.pool.pool.status = .closed) (moves : Moves s a act)
    (stepped : ThreadPool.step s.pool act = some pool) : Emptied pool := by
  cases moves with
  | add t L created w =>
    obtain ⟨⟨added, u⟩, result, kept⟩ := Option.bind_eq_some_iff.mp stepped
    simp only [Option.ite_none_right_eq_some, not_added closed result, Bool.false_eq_true,
      false_and] at kept
  | start i w => exact emptied.takes (lock_tasks (Or.inl rfl) stepped).2
  | relock i w => exact emptied.takes (lock_tasks (Or.inr rfl) stepped).2
  | finish running job =>
    obtain ⟨t, u, task, -⟩ := finish_tasks stepped
    rw [emptied.idle] at task
    cases task
  | resume at_j stage =>
    obtain ⟨⟨added, u⟩, result, rfl⟩ := Option.map_eq_some_iff.mp stepped
    obtain ⟨-, -, same⟩ | ⟨yes, -⟩ := addthread_mx_tasks result
    · exact emptied.same same
    · cases yes.symm.trans (not_added closed result)
  | pooled pooled =>
    cases a with
    | awake i =>
      cases pooled
      exact emptied.same (elsewhere_tasks (Or.inl ⟨i, rfl⟩) stepped)
    | resize size create created w =>
      cases pooled
      exact emptied.same
        (elsewhere_tasks (Or.inr (Or.inr ⟨size, create, created, w, rfl⟩)) stepped)
    | close =>
      cases pooled
      exact absurd closed (close_cases latched (Or.inl rfl) stepped).1
    | closeagain =>
      cases pooled
      exact absurd closed (close_cases latched (Or.inr rfl) stepped).1
    | closeawake =>
      cases pooled
      exact emptied.same (elsewhere_tasks (Or.inr (Or.inl rfl)) stepped)
    | _ => cases pooled

omit [DecidableEq T] in
theorem idle_of_threads {pool : ThreadPool.State T} (counted : Counted pool)
    (threads : pool.pool.threads = 0) (i : ℕ) : pool.task i = none := by
  cases task : pool.task i with
  | none => rfl
  | some t =>
    have at_i := task_eq_some.mp task
    cases ended_of_threads counted threads _ (List.mem_of_getElem? at_i)

omit [DecidableEq T] in
theorem emptied_close {pool pool' : ThreadPool.State T} {act : ThreadPool.Act T}
    (latched : Latched pool) (counted : Counted pool) (closes : act = .close ∨ act = .closeagain)
    (stepped : ThreadPool.step pool act = some pool') (closed : pool'.pool.status = .closed) :
    pool.pool.threads ≤ 0 ∧ Emptied pool' := by
  obtain ⟨-, rfl⟩ := close_cases latched closes stepped
  have threads := counted.threads
  unfold ThreadPool.closeloop at closed ⊢
  split_ifs at closed ⊢ with alive
  · rw [(same_checkhalted_mx _).status] at closed
    cases closed
  · change ¬pool.pool.threads > 0 at alive
    have none_left : pool.pool.threads = 0 := by omega
    exact ⟨le_of_eq none_left, rfl, fun i => idle_of_threads counted none_left i⟩

theorem step_live {s s' : TaskSystem.State T C} {a : TaskSystem.Act T C} {t : T}
    (stepped : Step channels s a s') (live : Live s' t) :
    Live s t ∨ ∃ L created w, a = .add t L created w := by
  cases stepped with
  | add fresh nonempty added =>
    obtain old | new := List.mem_append.mp live.1
    · exact Or.inl ⟨old, live.2⟩
    · cases List.mem_singleton.mp new
      exact Or.inr ⟨_, _, _, rfl⟩
  | closetask running job unused =>
    exact Or.inl ⟨live.1, fun closed => live.2 (List.mem_append_left _ closed)⟩
  | drain closer unused =>
    exact Or.inl ⟨live.1, fun closed => live.2 (List.mem_append_left _ closed)⟩
  | collect at_j stage unused =>
    exact Or.inl ⟨live.1, fun closed => live.2 (List.mem_append_left _ closed)⟩
  | found running job named checked queue =>
    rw [startMatch_frame] at live
    exact Or.inl live
  | suspend running job unnamed =>
    rw [suspendedchtask_frame] at live
    exact Or.inl live
  | call syncs calls checked queue given =>
    rw [startMatch_frame] at live
    exact Or.inl live
  | process calls processed =>
    rw [onsynced_frame processed] at live
    exact Or.inl live
  | swap at_j stage =>
    rw [swap_frame] at live
    exact Or.inl live
  | send at_j stage =>
    rw [send_frame] at live
    exact Or.inl live
  | book at_j stage =>
    rw [book_frame] at live
    exact Or.inl live
  | _ => exact Or.inl live

theorem closing_job {s s' : TaskSystem.State T C} {a : TaskSystem.Act T C} {i : ℕ} {t : T}
    (stepped : Step channels s a s') (task : s'.pool.task i = some t)
    (job : s'.job i = .closing) :
    (s.pool.task i = some t ∧ s.job i = .closing) ∨ (a = .ends i ∧ s.running i = some t) := by
  have moved {k : ℕ} {next : Job} (other : next ≠ .closing)
      (job : Function.update s.job k next i = .closing) : i ≠ k ∧ s.job i = .closing := by
    by_cases here : i = k
    · rw [here, Function.update_self] at job
      exact absurd job other
    · rw [Function.update_of_ne here] at job
      exact ⟨here, job⟩
  have takes {k : ℕ} {pool pool' : ThreadPool.State T} (away : i ≠ k) (takes : Takes pool pool' k)
      (task : pool'.task i = some t) : pool.task i = some t := by
    obtain ⟨-, same⟩ | ⟨u, -, same⟩ := takes.found
    · rwa [same] at task
    · rwa [same, Function.update_of_ne away] at task
  cases stepped with
  | add fresh nonempty added =>
    rw [(addtpooltask_tasks added).2.1] at task
    exact Or.inl ⟨task, job⟩
  | lock kind stepped =>
    obtain ⟨away, job⟩ := moved (by simp) job
    exact Or.inl ⟨takes away (lock_tasks kind stepped).2 task, job⟩
  | elsewhere kind free stepped =>
    rw [(elsewhere_tasks kind stepped).task] at task
    exact Or.inl ⟨task, job⟩
  | close kind free stepped =>
    rw [(close_tasks kind stepped).2.1] at task
    exact Or.inl ⟨task, job⟩
  | resume running fetched => exact Or.inl ⟨task, (moved (by simp) job).2⟩
  | yield running executing => exact Or.inl ⟨task, (moved (by simp) job).2⟩
  | ends running executing =>
    rename_i k u
    by_cases here : i = k
    · subst i
      cases (running_task running).symm.trans task
      exact Or.inr ⟨rfl, running⟩
    · simp only [State.setjob, Function.update_of_ne here] at job
      exact Or.inl ⟨task, job⟩
  | closetask running closing unused => exact Or.inl ⟨task, (moved (by simp) job).2⟩
  | reject running yielded named checked => exact Or.inl ⟨task, (moved (by simp) job).2⟩
  | wait running yielded named checked queue => exact Or.inl ⟨task, (moved (by simp) job).2⟩
  | found running yielded named checked queue =>
    rw [startMatch_frame] at task job
    exact Or.inl ⟨task, (moved (by simp) job).2⟩
  | suspend running yielded unnamed =>
    rw [suspendedchtask_frame] at task
    refine Or.inl ⟨task, ?_⟩
    unfold suspendedchtask at job
    split_ifs at job <;> exact (moved (by simp) job).2
  | free running freeing => exact Or.inl ⟨task, (moved (by simp) job).2⟩
  | discard running discarding => exact Or.inl ⟨task, (moved (by simp) job).2⟩
  | finish running returning stepped =>
    obtain ⟨away, job⟩ := moved (by simp) job
    obtain ⟨u, pool, -, -, same, -, -, -, taken⟩ := finish_tasks stepped
    have before := takes away taken task
    rw [same, Function.update_of_ne away] at before
    exact Or.inl ⟨before, job⟩
  | call syncs calls checked queue given =>
    rw [startMatch_frame] at task job
    exact Or.inl ⟨task, job⟩
  | process calls processed =>
    rw [onsynced_frame processed] at task job
    exact Or.inl ⟨task, job⟩
  | swap at_j stage =>
    rw [swap_frame] at task job
    exact Or.inl ⟨task, job⟩
  | send at_j stage =>
    rw [send_frame] at task job
    exact Or.inl ⟨task, job⟩
  | book at_j stage =>
    rw [book_frame] at task job
    exact Or.inl ⟨task, job⟩
  | resumetask at_j stage result =>
    have same := addthread_mx_tasks result
    refine Or.inl ⟨?_, job⟩
    simp only [State.setstage] at task
    obtain ⟨-, -, same⟩ | ⟨-, -, same, -⟩ := same
    · rwa [same.task] at task
    · rwa [same] at task
  | _ => exact Or.inl ⟨task, job⟩

/-- A closed pool is emptied, and none of its tasks is in `system.run`; nor is a task that its
worker closes. -/
structure Idle (s : State T C) : Prop where
  conserving : Conserving s.tasks
  closing : Closing s.tasks
  closed : s.tasks.pool.pool.status = .closed →
    Emptied s.tasks.pool ∧ ∀ t, Live s.tasks t → ¬s.data t
  ended : ∀ i t, s.tasks.pool.task i = some t → s.tasks.job i = .closing → ¬s.data t

theorem add_open {s s' : TaskSystem.State T C} {t : T} {L : Exchange.Stack} {created : Bool}
    {w : ℕ} (stepped : Step channels s (.add t L created w) s') :
    s'.pool.pool.status = s.pool.pool.status ∧ s.pool.pool.status ≠ .closed := by
  cases stepped with
  | add fresh nonempty added =>
    refine ⟨(addtpooltask_tasks added).2.2.2.2, fun closed => ?_⟩
    obtain ⟨⟨taken, u⟩, result, kept⟩ := Option.bind_eq_some_iff.mp added
    simp only [Option.ite_none_right_eq_some, not_added closed result, Bool.false_eq_true,
      false_and] at kept
  | elsewhere kind free stepped => cases free.2
  | close kind free stepped => cases free.2
  | arm syncs calls idle checked queue given => cases syncs
  | call syncs calls checked queue given => cases syncs
  | refuse syncs calls queue => cases syncs

theorem Idle.closed_step {s : State T C} {a : TaskSystem.Act T C} {u : TaskSystem.State T C}
    (idle : Idle s) (finished : Finished s (.task a)) (stepped : Step channels s.tasks a u)
    (closed : u.pool.pool.status = .closed) :
    Emptied u.pool ∧ ∀ t, Live u t → ¬s.data t := by
  have earlier (t : T) (live : Live u t) : Live s.tasks t := by
    obtain before | ⟨L, created, w, rfl⟩ := step_live stepped live
    · exact before
    · obtain ⟨same, opened⟩ := add_open stepped
      exact absurd (same.symm.trans closed) opened
  have kept (before : s.tasks.pool.pool.status = .closed) (t : T) (live : Live u t) :
      ¬s.data t := (idle.closed before).2 t (earlier t live)
  obtain same | ⟨act, moves, section_⟩ | ⟨t, queue, -, closer, same⟩ |
    ⟨j, m, t, -, at_j, stage, same⟩ := pool_cases stepped
  · rw [same] at closed ⊢
    exact ⟨(idle.closed closed).1, kept closed⟩
  · by_cases before : s.tasks.pool.pool.status = .closed
    · exact ⟨(idle.closed before).1.moves idle.closing.latched before moves section_, kept before⟩
    · by_cases closes : act = .close ∨ act = .closeagain
      · obtain ⟨threads, emptied⟩ := emptied_close idle.closing.latched
          idle.conserving.quiet.counted closes section_ closed
        refine ⟨emptied, fun t live => ?_⟩
        obtain rfl | rfl := Moves.closes moves closes
        · exact finished threads t (earlier t live)
        · exact finished threads t (earlier t live)
      · have steady := steady_step idle.conserving.quiet.counted (not_or.mp closes) section_
        exact absurd (steady.1.symm.trans closed) before
  · have before := Closing.drained idle.closing closer
    obtain ⟨emptied, -⟩ := idle.closed before
    rw [same]
    exact ⟨⟨emptied.queue, emptied.idle⟩, kept before⟩
  · have before := idle.closing.disposed m (List.mem_of_getElem? at_j) t stage
    obtain ⟨emptied, -⟩ := idle.closed before
    rw [same]
    exact ⟨⟨emptied.queue, emptied.idle⟩, kept before⟩

omit [DecidableEq C] in
theorem Idle.setdata {s s' : State T C} {i : ℕ} {data : Bool} (idle : Idle s)
    (set : setdata s i data = some s') : Idle s' := by
  obtain ⟨t, running, result⟩ := Option.bind_eq_some_iff.mp set
  simp only [Option.ite_none_right_eq_some, Option.some.injEq] at result
  obtain ⟨⟨executing, -⟩, rfl⟩ := result
  have task := running_task running
  have here := holds_worker running (by rw [executing]; rfl)
  refine ⟨idle.conserving, idle.closing, fun closed => ?_, fun k u other closing => ?_⟩
  · rw [(idle.closed closed).1.idle] at task
    cases task
  · change s.tasks.job k = .closing at closing
    have distinct : u ≠ t := by
      rintro rfl
      have there : (view s.tasks).Holds (.worker k) u := by
        change slot Job.holds s.tasks.job s.tasks.pool.task k = some u
        simp [slot, closing, Job.holds, other]
      cases idle.conserving.balanced.unique _ _ u here there
      cases executing.symm.trans closing
    simp only [Function.update_of_ne distinct]
    exact idle.ended k u other closing

theorem Idle.step {s s' : State T C} {a : Act T C} (idle : Idle s) (finished : Finished s a)
    (stepped : step channels s a = some s') : Idle s' := by
  cases a with
  | run i => exact idle.setdata stepped
  | ran i => exact idle.setdata stepped
  | task a =>
    simp only [TaskScheduler.step, Option.ite_none_right_eq_some] at stepped
    obtain ⟨allowed, mapped⟩ := stepped
    obtain ⟨u, stepped, rfl⟩ := Option.map_eq_some_iff.mp mapped
    have cases_ := step_cases stepped
    refine ⟨idle.conserving.step stepped, idle.closing.step idle.conserving cases_,
      idle.closed_step finished cases_, fun i t task job => ?_⟩
    obtain ⟨before, closing⟩ | ⟨rfl, running⟩ := closing_job cases_ task job
    · exact idle.ended i t before closing
    · exact of_decide_eq_true allowed t running

omit [DecidableEq T] [DecidableEq C] in
theorem idle_initial : Idle (initial : State T C) :=
  ⟨conserving_initial, closing_initial,
    fun closed => absurd closed (by simp [initial, TaskSystem.initial, ThreadPool.createtpool]),
    fun _ _ _ _ => Bool.false_ne_true⟩

omit [DecidableEq C] in
/-- Another thread than its worker closes a task only after the pool is closed. -/
theorem closed_of_disposing {s : TaskSystem.State T C} {t : T} (closing : Closing s)
    (disposing : s.disposing t) : s.pool.pool.status = .closed := by
  simp only [State.disposing, decide_eq_true_eq, List.any_eq_true] at disposing
  obtain first | ⟨m, member, closes⟩ := disposing
  · cases closer : s.pool.closer with
    | closing queue => exact Closing.drained closing closer
    | _ => simp [ThreadPool.State.draining, closer] at first
  · cases stage : m.stage with
    | closing u => exact closing.disposed m member u stage
    | _ => simp [stage] at closes

/-- In a run where no task is in `system.run` when the pool gets closed, the scheduler of a task
that is being closed is not running. -/
theorem closed_not_running {s : State T C} {acts : List (Act T C)}
    (ran : run (step channels) initial acts = some s)
    (along : Along (step channels) Finished initial acts) (t : T)
    (disposed : Disposed s.tasks t) : s.data t = false := by
  have idle : Idle s := run_invariant_along Idle Finished
    (fun _ _ _ idle finished stepped => idle.step finished stepped) idle_initial along ran
  refine Bool.eq_false_of_not_eq_true ?_
  obtain ⟨i, task, job⟩ | disposing := disposed
  · exact idle.ended i t task job
  · have executes : s.tasks.executes none t := disposing
    obtain ⟨p, -, -, held⟩ := executes_holds executes
    have balanced := idle.conserving.balanced
    exact (idle.closed (closed_of_disposing idle.closing disposing)).2 t
      ⟨((balanced.placed t).mp ⟨p, held⟩).1, executes_live balanced executes⟩

def tasks (acts : List (TaskSystem.Act ℕ ℕ)) : List (Act ℕ ℕ) :=
  acts.map .task

def sampleRun : List (Act ℕ ℕ) :=
  tasks sampleWait ++ .run 0 :: tasks sampleStop

def sampleRan : List (Act ℕ ℕ) :=
  tasks (sampleResume false ++ [.lock 0 0, .resume 0, .process (some 0) 0]) ++ .ran 0 ::
    tasks [.yield 0 [] [], .handle 0, .discard 0, .resize 0 false 0 0, .finish 0 0]

/-- Task 7 is pending when the pool is closed, its scheduler not running. -/
theorem closed_not_running_pending :
    ∃ s : State ℕ ℕ,
      run (step sample) initial ((sampleRun ++ sampleRan) ++ [.task .close]) = some s ∧
      Disposed s.tasks 7 ∧ s.data 7 = false := by
  have ran : run (step sample) initial ((sampleRun ++ sampleRan) ++ [.task .close]) = some _ := rfl
  refine ⟨_, ran, Or.inr rfl,
    closed_not_running ran (along_append ?_ fun u before => ?_) 7 (Or.inr rfl)⟩
  · refine along_always fun a member s => ?_
    revert a
    simp [sampleRun, sampleRan, tasks, sampleWait, sampleStop, sampleResume, Finished]
  · refine ⟨fun _ t _ => ?_, fun _ _ => trivial⟩
    have returned : Option.map (fun v => v.data t) (run (step sample) initial
        (sampleRun ++ sampleRan)) =
      some (Function.update (Function.update (fun _ => false) 7 true) 7 false t) := rfl
    rw [before] at returned
    have same : u.data t = _ := Option.some.inj returned
    rw [same]
    by_cases here : t = 7
    · simp [here]
    · simp [Function.update_of_ne here]

/-- Task 7 is resumed after the pool was closed, and closed within `system.run`. -/
theorem closed_while_running :
    ¬∀ (acts : List (Act ℕ ℕ)) (s : State ℕ ℕ), run (step sample) initial acts = some s →
      ∀ t, Disposed s.tasks t → s.data t = false := by
  intro claim
  have ran : run (step sample) initial (tasks sampleWait ++ .run 0 ::
      tasks ([.resize 0 false 0 0] ++ sampleStop ++ [.close] ++ sampleResume false)) = some _ := rfl
  cases claim _ _ ran 7 (Or.inr rfl)

end Coutil.TaskScheduler
