import Coutil.TaskConservation

set_option autoImplicit false

/-! A pool that is being closed does not hang: while the closing thread waits and no task is
left, some worker is not asleep, and it passes on that it ends. -/
namespace Coutil.PoolTermination
open Runs Census ThreadPool PoolInvariant PoolTasks

section
variable {T : Type} {s s' : State T}

/-- Some worker is not asleep while nothing else would wake the closing thread. -/
def Attended (s : State T) : Prop :=
  s.pool.status = .closing → s.pool.tasks = 0 → s.closer = .waiting →
    (s.count .waiting : ℤ) < s.pool.threads

theorem Attended.of_fewer (attended : Attended s)
    (asleep : s'.count .waiting ≤ s.count .waiting) (threads : s.pool.threads ≤ s'.pool.threads)
    (tasks : s'.pool.tasks = s.pool.tasks) (status : s'.pool.status = s.pool.status)
    (closer : s'.closer = .waiting → s.closer = .waiting) : Attended s' := by
  intro closing none_left waiting
  have before := attended (status.symm.trans closing) (tasks.symm.trans none_left) (closer waiting)
  omega

theorem asleep_signal {w : ℕ} (signal : s.signal w = some s') :
    s'.count .waiting ≤ s.count .waiting ∧ s'.pool = s.pool ∧ s'.closer = s.closer := by
  obtain ⟨-, rfl⟩ | ⟨-, at_w, rfl⟩ := signal_cases signal
  · exact ⟨le_refl _, rfl, rfl⟩
  · have moved := count_put at_w .signalled .waiting
    simp at moved
    exact ⟨by omega, rfl, rfl⟩

theorem Attended.signal {w : ℕ} (attended : Attended s) (signal : s.signal w = some s') :
    Attended s' := by
  obtain ⟨asleep, pool, closer⟩ := asleep_signal signal
  exact attended.of_fewer asleep (by rw [pool]) (by rw [pool]) (by rw [pool])
    (by rw [closer]; exact id)

/-- After a signal to an idle worker one of them is not asleep. -/
theorem attended_signal {w : ℕ} (counted : Counted s) (idle : 0 < s.pool.idle)
    (signal : s.signal w = some s') : Attended s' := by
  intro _ _ _
  have threads := counted.threads
  have idles := counted.idle
  obtain ⟨empty, rfl⟩ | ⟨waiting, at_w, rfl⟩ := signal_cases signal
  · omega
  · have moved := count_put at_w .signalled .waiting
    simp at moved
    change _ < s.pool.threads
    omega

theorem attended_broadcast (counted : Counted s) (alive : s.pool.threads ≠ 0) :
    Attended s.broadcast := by
  intro _ _ _
  have threads := counted.threads
  have asleep : s.broadcast.count .waiting = 0 := by simp [count_broadcast]
  change _ < s.pool.threads
  omega

theorem attended_passon {w : ℕ} (counted : Counted s) (passed : passon s w = some s') :
    Attended s' := by
  have threads := counted.threads
  have idle := counted.idle
  unfold passon at passed
  split_ifs at passed with extra closing last
  · simp only [hasextraidle_mx, gt_iff_lt, decide_eq_true_eq] at extra
    exact attended_signal counted extra.2 passed
  · cases Option.some.inj passed
    intro _ _ waiting
    unfold State.signalterm at waiting
    split at waiting
    · cases waiting
    · rename_i awake
      exact absurd waiting awake
  · cases Option.some.inj passed
    unfold checkhalted_mx
    split_ifs with halted
    · exact attended_broadcast (counted.resized 0) last
    · intro _ none_left _
      simp only [hasextraidle_mx, gt_iff_lt, decide_eq_true_eq, not_and, not_lt] at extra
      by_cases more : s.pool.size < s.pool.threads
      · have := extra more
        omega
      · exact absurd ⟨none_left, by omega⟩ halted
  · cases Option.some.inj passed
    intro closing'
    exact absurd closing' closing

/-- A worker that holds the mutex does not go to sleep when the pool is to end. -/
theorem attended_work {i w : ℕ} (counted : Counted s) (at_i : s.workers[i]? = some .locked)
    (worked : work s i w = some s') : Attended s' := by
  obtain ⟨⟨pool, found⟩, sought, turned⟩ := Option.bind_eq_some_iff.mp worked
  simp only at turned
  obtain ⟨rfl, rfl, -⟩ | ⟨rfl, rfl, -⟩ | ⟨t, queue, rfl, -, queued, rfl⟩ |
    ⟨rfl, rfl, -, -, unhalted⟩ := seek_cases sought
  · exact attended_passon (counted.leave at_i) turned
  · exact attended_passon ((counted.resized 0).leave (s := s.setsize 0) at_i) turned
  · cases Option.some.inj turned
    intro _ _ _
    have threads := counted.threads
    have locked : 0 < s.count .locked := (census_pos Phase.kind).mpr ⟨i, .locked, at_i, rfl⟩
    rw [count_put_pool (s := s) at_i]
    change _ < s.pool.threads
    simp
    omega
  · cases Option.some.inj turned
    intro closing none_left
    exact absurd ⟨closing, none_left⟩ unhalted

theorem attended_closeloop (sound : Sound s) : Attended (closeloop s) := by
  have threads := sound.counted.threads
  unfold closeloop checkhalted_mx
  split_ifs with alive halted
  · intro _ _ _
    have asleep : (s.setsize 0).broadcast.count .waiting = 0 := by simp [count_broadcast]
    change ((s.setsize 0).broadcast.count .waiting : ℤ) < s.pool.threads
    omega
  · intro _ none_left _
    change (s.count .waiting : ℤ) < s.pool.threads
    have shrunk : s.pool.size ≤ 0 := by
      by_contra more
      exact halted ⟨none_left, by omega⟩
    by_cases asleep : 0 < s.count .waiting
    · obtain ⟨fits, -⟩ | ⟨-, woken, -⟩ := sound.awake asleep
      · omega
      · omega
    · omega
  · intro closing
    cases closing

theorem Attended.callthread {created : Bool} {w : ℕ} (attended : Attended s)
    (called : callthread s created w = some s') : Attended s' := by
  unfold ThreadPool.callthread at called
  split_ifs at called
  · exact attended.signal called
  · cases Option.some.inj called
    have asleep := count_create s .waiting
    simp at asleep
    exact attended.of_fewer (by omega) (by simp [State.create]) rfl rfl id
  all_goals
    cases Option.some.inj called
    exact attended

theorem Attended.addthread_mx {task : T} {created added : Bool} {w : ℕ} (attended : Attended s)
    (result : addthread_mx s task created w = some (added, s')) : Attended s' := by
  obtain ⟨u, called, accepted⟩ := Option.map_eq_some_iff.mp result
  have called := attended.callthread called
  unfold accept at accepted
  split_ifs at accepted
  · cases accepted
    exact called
  · cases accepted
    exact called.of_fewer (le_refl _) (le_refl _) rfl rfl id

theorem Attended.resizetpool {size : ℤ} {create : Bool} {created w : ℕ} (attended : Attended s)
    (resized : resizetpool s size create created w = some s') : Attended s' := by
  have kept : Attended (s.setsize size) :=
    attended.of_fewer (le_refl _) (le_refl _) rfl rfl id
  obtain ⟨-, rfl⟩ | ⟨-, -, signal⟩ | ⟨-, -, rfl⟩ := resizetpool_cases resized
  · obtain ⟨pool, closer, counts⟩ := iterate_create (s.setsize size) created
    have asleep := counts .waiting
    simp only [reduceCtorEq, if_false] at asleep
    exact kept.of_fewer (by omega) (by simp [pool]) (by rw [pool]) (by rw [pool])
      (by rw [closer]; exact id)
  · exact kept.signal signal
  · exact kept

/-- A section that is not of the finalizer of a task. -/
theorem Attended.step {act : Act T} (attended : Attended s) (quiet : Quiet s)
    (tasks : 0 ≤ s.pool.tasks) (section_ : act ≠ .collect)
    (stepped : step s act = some s') : Attended s' := by
  have counted := quiet.counted
  have worked (works : Act.works act) : Attended s' := by
    obtain ⟨i, w, phase, pool, locks, worked⟩ := works_cases counted works stepped
    exact attended_work (locks.counted counted) locks.getElem worked
  cases act with
  | add task created w =>
    have added := addtpooltask_tasks stepped
    intro _ none_left
    omega
  | resume task created w =>
    obtain ⟨⟨added, t⟩, result, rfl⟩ := Option.map_eq_some_iff.mp stepped
    exact attended.addthread_mx result
  | start i w => exact worked rfl
  | awake i =>
    simp only [ThreadPool.step] at stepped
    split at stepped
    · rename_i at_i
      cases Option.some.inj stepped
      have moved := count_put at_i .spurious .waiting
      simp at moved
      exact attended.of_fewer (by omega) (le_refl _) rfl rfl id
    · cases stepped
  | relock i w => exact worked rfl
  | finish i enqueued yielded w => exact worked rfl
  | resize size create created w => exact attended.resizetpool stepped
  | close =>
    simp only [ThreadPool.step] at stepped
    split at stepped
    · cases Option.some.inj stepped
      have closing : Sound { s with pool := { s.pool with status := .closing } } :=
        quiet.toSound.congr rfl rfl rfl rfl rfl rfl rfl
      exact attended_closeloop closing
    · cases stepped
  | closeagain =>
    simp only [ThreadPool.step] at stepped
    split at stepped
    · cases Option.some.inj stepped
      exact attended_closeloop quiet.toSound
    · cases stepped
  | closeawake =>
    simp only [ThreadPool.step] at stepped
    split at stepped
    · cases Option.some.inj stepped
      intro _ _ waiting
      cases waiting
    · cases stepped
  | collect => exact absurd rfl section_

/-- The status of the pool tells where the closing thread is. -/
def Latched (s : State T) : Prop :=
  match s.closer with
  | .away => s.pool.status = .opened
  | .waiting => s.pool.status = .closing
  | .woken => s.pool.status = .closing
  | .closing _ => s.pool.status = .closed

/-- The closing thread is where it was, or was woken. -/
def Steady (s s' : State T) : Prop :=
  s'.pool.status = s.pool.status ∧
    (s'.closer = s.closer ∨ s.closer = .waiting ∧ s'.closer = .woken)

theorem Latched.steady (latched : Latched s) (steady : Steady s s') : Latched s' := by
  obtain ⟨status, same | ⟨before, after⟩⟩ := steady
  · simp only [Latched, status, same] at latched ⊢
    exact latched
  · simp only [Latched, status, before, after] at latched ⊢
    exact latched

theorem steady_signal {w : ℕ} (signal : s.signal w = some s') : Steady s s' := by
  obtain ⟨-, pool, closer⟩ := asleep_signal signal
  exact ⟨by rw [pool], Or.inl closer⟩

theorem steady_passon {w : ℕ} (passed : passon s w = some s') : Steady s s' := by
  unfold passon at passed
  split_ifs at passed
  · exact steady_signal passed
  · cases Option.some.inj passed
    unfold State.signalterm
    split
    · rename_i waiting
      exact ⟨rfl, Or.inr ⟨waiting, rfl⟩⟩
    · exact ⟨rfl, Or.inl rfl⟩
  · cases Option.some.inj passed
    unfold checkhalted_mx
    split_ifs <;> exact ⟨rfl, Or.inl rfl⟩
  · cases Option.some.inj passed
    exact ⟨rfl, Or.inl rfl⟩

theorem steady_work {i w : ℕ} (worked : work s i w = some s') : Steady s s' := by
  obtain ⟨⟨pool, found⟩, sought, turned⟩ := Option.bind_eq_some_iff.mp worked
  simp only at turned
  obtain ⟨rfl, rfl, -⟩ | ⟨rfl, rfl, -⟩ | ⟨t, queue, rfl, -, -, rfl⟩ | ⟨rfl, rfl, -⟩ :=
    seek_cases sought
  · exact steady_passon (s := leave s i) turned
  · exact steady_passon (s := leave (s.setsize 0) i) turned
  · cases Option.some.inj turned
    exact ⟨rfl, Or.inl rfl⟩
  · cases Option.some.inj turned
    exact ⟨rfl, Or.inl rfl⟩

theorem steady_addthread_mx {task : T} {created added : Bool} {w : ℕ}
    (result : addthread_mx s task created w = some (added, s')) : Steady s s' := by
  obtain ⟨u, called, accepted⟩ := Option.map_eq_some_iff.mp result
  have steady : Steady s u := by
    unfold callthread at called
    split_ifs at called
    · exact steady_signal called
    all_goals
      cases Option.some.inj called
      exact ⟨rfl, Or.inl rfl⟩
  unfold accept at accepted
  split_ifs at accepted <;> cases accepted <;> exact steady

/-- Only the closing thread itself goes on closing. -/
theorem steady_step {act : Act T} (counted : Counted s) (other : act ≠ .close ∧ act ≠ .closeagain)
    (stepped : step s act = some s') : Steady s s' := by
  have worked (works : Act.works act) : Steady s s' := by
    obtain ⟨i, w, phase, pool, locks, worked⟩ := works_cases counted works stepped
    have steady := steady_work worked
    exact ⟨steady.1.trans locks.status, steady.2⟩
  cases act with
  | add task created w =>
    obtain ⟨⟨added, t⟩, result, kept⟩ := Option.bind_eq_some_iff.mp stepped
    simp only [Option.ite_none_right_eq_some, Option.some.injEq] at kept
    obtain ⟨-, rfl⟩ := kept
    have steady := steady_addthread_mx result
    exact steady
  | resume task created w =>
    obtain ⟨⟨added, t⟩, result, rfl⟩ := Option.map_eq_some_iff.mp stepped
    exact steady_addthread_mx result
  | start i w => exact worked rfl
  | awake i =>
    simp only [ThreadPool.step] at stepped
    split at stepped
    · cases Option.some.inj stepped
      exact ⟨rfl, Or.inl rfl⟩
    · cases stepped
  | relock i w => exact worked rfl
  | finish i enqueued yielded w => exact worked rfl
  | resize size create created w =>
    obtain ⟨-, rfl⟩ | ⟨-, -, signal⟩ | ⟨-, -, rfl⟩ := resizetpool_cases stepped
    · obtain ⟨pool, closer, -⟩ := iterate_create (s.setsize size) created
      exact ⟨by rw [pool]; rfl, Or.inl closer⟩
    · have steady := steady_signal signal
      exact steady
    · exact ⟨rfl, Or.inl rfl⟩
  | close => exact absurd rfl other.1
  | closeagain => exact absurd rfl other.2
  | closeawake =>
    simp only [ThreadPool.step] at stepped
    split at stepped
    · rename_i waiting
      cases Option.some.inj stepped
      exact ⟨rfl, Or.inr ⟨waiting, rfl⟩⟩
    · cases stepped
  | collect =>
    cases Option.some.inj stepped
    exact ⟨rfl, Or.inl rfl⟩

/-- The closing thread waits again or is through. -/
theorem close_cases {act : Act T} (latched : Latched s) (closes : act = .close ∨ act = .closeagain)
    (stepped : step s act = some s') :
    s.pool.status ≠ .closed ∧ s' = closeloop { s with pool := { s.pool with status := .closing } } := by
  obtain rfl | rfl := closes
  · simp only [ThreadPool.step] at stepped
    split at stepped
    · rename_i away
      simp only [Latched, away] at latched
      exact ⟨by simp [latched], (Option.some.inj stepped).symm⟩
    · cases stepped
  · simp only [ThreadPool.step] at stepped
    split at stepped
    · rename_i woken
      simp only [Latched, woken] at latched
      refine ⟨by simp [latched], ?_⟩
      rw [← latched]
      exact (Option.some.inj stepped).symm
    · cases stepped

theorem Latched.step {act : Act T} (latched : Latched s) (counted : Counted s)
    (stepped : step s act = some s') : Latched s' := by
  by_cases closes : act = .close ∨ act = .closeagain
  · obtain ⟨-, rfl⟩ := close_cases latched closes stepped
    unfold closeloop
    split_ifs
    · simp only [Latched]
      rw [(same_checkhalted_mx _).status]
    · rfl
  · exact latched.steady (steady_step counted (not_or.mp closes) stepped)

/-- A closed pool stays closed. -/
theorem closed_step {act : Act T} (latched : Latched s) (counted : Counted s)
    (closed : s.pool.status = .closed) (stepped : step s act = some s') :
    s'.pool.status = .closed := by
  by_cases closes : act = .close ∨ act = .closeagain
  · exact absurd closed (close_cases latched closes stepped).1
  · exact (steady_step counted (not_or.mp closes) stepped).1.trans closed

end

section
open TaskSystem TaskSteps TaskConservation

variable {T C : Type} [DecidableEq T] [DecidableEq C] {channels : Channels T C}
  {s s' : TaskSystem.State T C} {a : TaskSystem.Act T C}

/-- The section of the pool that a step of the tasks is. -/
inductive Moves (s : TaskSystem.State T C) : TaskSystem.Act T C → ThreadPool.Act T → Prop
  | add (t : T) (L : Exchange.Stack) (created : Bool) (w : ℕ) :
      Moves s (.add t L created w) (.add t created w)
  | start (i w : ℕ) : Moves s (.lock i w) (.start i w)
  | relock (i w : ℕ) : Moves s (.lock i w) (.relock i w)
  | finish {i w : ℕ} {t : T} {enqueue yielded : Bool} (running : s.running i = some t)
      (job : s.job i = .returning enqueue yielded) :
      Moves s (.finish i w) (.finish i enqueue yielded w)
  | resume {j : ℕ} {m : Matcher T C} {t : T} {created : Bool} {w : ℕ}
      (at_j : s.matchers[j]? = some m) (stage : m.stage = .resuming t) :
      Moves s (.resumetask j created w) (.resume t created w)
  | pooled {a : TaskSystem.Act T C} {act : ThreadPool.Act T} (pooled : Act.pooled a = some act) :
      Moves s a act

omit [DecidableEq T] [DecidableEq C] in
theorem Moves.ne_collect {act : ThreadPool.Act T} (moves : Moves s a act) : act ≠ .collect := by
  cases moves with
  | pooled pooled =>
    rintro rfl
    cases a <;> cases pooled
  | _ => exact nofun

/-- What a step does to the pool: nothing, a section of it, or the end of a task that is closed
with its reference to the pool. -/
theorem pool_cases (stepped : Step channels s a s') :
    s'.pool = s.pool ∨ (∃ act, Moves s a act ∧ ThreadPool.step s.pool act = some s'.pool) ∨
      (∃ t queue, a = .drain ∧ s.pool.closer = .closing (t :: queue) ∧
        s'.pool = collectthreadpool { s.pool with closer := .closing queue }) ∨
      ∃ j m t, a = .collect j ∧ s.matchers[j]? = some m ∧ m.stage = .closing t ∧
        s'.pool = collectthreadpool s.pool := by
  cases stepped with
  | add fresh nonempty added => exact Or.inr (Or.inl ⟨_, .add _ _ _ _, added⟩)
  | lock kind stepped =>
    obtain rfl | rfl := kind
    · exact Or.inr (Or.inl ⟨_, .start _ _, stepped⟩)
    · exact Or.inr (Or.inl ⟨_, .relock _ _, stepped⟩)
  | elsewhere kind free stepped => exact Or.inr (Or.inl ⟨_, .pooled free.2, stepped⟩)
  | close kind free stepped => exact Or.inr (Or.inl ⟨_, .pooled free.2, stepped⟩)
  | drain closer unused => exact Or.inr (Or.inr (Or.inl ⟨_, _, rfl, closer, rfl⟩))
  | finish running job stepped => exact Or.inr (Or.inl ⟨_, .finish running job, stepped⟩)
  | resumetask at_j stage result =>
    refine Or.inr (Or.inl ⟨_, .resume at_j stage, ?_⟩)
    simp only [ThreadPool.step, result, Option.map_some]
    rfl
  | collect at_j stage unused =>
    exact Or.inr (Or.inr (Or.inr ⟨_, _, _, rfl, at_j, stage, rfl⟩))
  | found running job named checked queue => exact Or.inl (by rw [startMatch_frame]; rfl)
  | suspend running job unnamed => exact Or.inl (by rw [suspendedchtask_frame])
  | call syncs calls checked queue given => exact Or.inl (by rw [startMatch_frame]; rfl)
  | process calls processed => exact Or.inl (by rw [onsynced_frame processed])
  | swap at_j stage => exact Or.inl (by rw [swap_frame])
  | send at_j stage => exact Or.inl (by rw [send_frame])
  | book at_j stage => exact Or.inl (by rw [book_frame])
  | _ => exact Or.inl rfl

/-- The pool of the tasks as it is while it is closed: only then a task is closed with its
reference to the pool, and the closing thread is attended to. -/
structure Closing (s : TaskSystem.State T C) : Prop where
  latched : Latched s.pool
  attended : Attended s.pool
  disposed : ∀ m ∈ s.matchers, ∀ t, m.stage = .closing t → s.pool.pool.status = .closed

theorem closed_kept (latched : Latched s.pool) (counted : Counted s.pool)
    (stepped : Step channels s a s') (closed : s.pool.pool.status = .closed) :
    s'.pool.pool.status = .closed := by
  obtain same | ⟨act, -, stepped⟩ | ⟨t, queue, -, -, same⟩ | ⟨j, m, t, -, -, -, same⟩ :=
    pool_cases stepped
  · rw [same, closed]
  · exact closed_step latched counted closed stepped
  · rw [same]
    exact closed
  · rw [same]
    exact closed

/-- A match goes on alone, and comes to close its task in `lcuTP_resumetask` only. -/
theorem matchers_cases (stepped : Step channels s a s') :
    s'.matchers = s.matchers ∨
      (∃ m waiter, s'.matchers = s.matchers ++ [m] ∧ m.stage = .taken waiter) ∨
      ∃ j m stage, s.matchers[j]? = some m ∧
        s'.matchers = s.matchers.set j { m with stage := stage } ∧
        ∀ t, stage = .closing t → m.stage = .resuming t ∧
          ∃ created w pool, ThreadPool.addthread_mx s.pool t created w = some (false, pool) := by
  cases stepped with
  | found running job named checked queue =>
    exact Or.inr (Or.inl ⟨_, _, by rw [startMatch_frame]; rfl, rfl⟩)
  | suspend running job unnamed => exact Or.inl (by rw [suspendedchtask_frame])
  | call syncs calls checked queue given =>
    exact Or.inr (Or.inl ⟨_, _, by rw [startMatch_frame]; rfl, rfl⟩)
  | process calls processed => exact Or.inl (by rw [onsynced_frame processed])
  | swap at_j stage =>
    rename_i j m waiter faults
    have source (L : Exchange.Stack) : (putsource s L m.source).matchers = s.matchers := by
      cases m.source <;> rfl
    cases waiter with
    | task t =>
      refine Or.inr (Or.inr ⟨j, m, .resuming t, at_j, ?_, fun _ no => by cases no⟩)
      simp only [swap, putmatch, State.setstage, State.setstack, source]
    | channel c L =>
      let both := Exchange.swapvalues faults (m.source.stack s) m.source.base m.source.narg L
      refine Or.inr (Or.inr ⟨j, m, .swapped c both.2, at_j, ?_, fun _ no => by cases no⟩)
      simp only [swap, putmatch, State.setstage, source]
      rfl
  | send at_j stage =>
    rename_i j m c L
    cases owner : channels.owner c with
    | none =>
      refine Or.inr (Or.inr ⟨j, m, .done, at_j, ?_, fun _ no => by cases no⟩)
      simp only [send, asyncsend, owner]
      split_ifs <;> rfl
    | some t =>
      refine Or.inr (Or.inr ⟨j, m, .sent t, at_j, ?_, fun _ no => by cases no⟩)
      simp only [send, asyncsend, owner]
      split_ifs <;> rfl
  | book at_j stage =>
    rename_i j m t
    cases stored : (s.chan t).L with
    | none =>
      refine Or.inr (Or.inr ⟨j, m, .done, at_j, ?_, fun _ no => by cases no⟩)
      simp only [book, stored]
      rfl
    | some u =>
      refine Or.inr (Or.inr ⟨j, m, .resuming u, at_j, ?_, fun _ no => by cases no⟩)
      simp only [book, stored]
      rfl
  | resumetask at_j stage result =>
    rename_i j m t created added w pool
    refine Or.inr (Or.inr ⟨j, m, _, at_j, rfl, fun u closing => ?_⟩)
    cases added with
    | true => cases closing
    | false =>
      cases closing
      exact ⟨stage, created, w, pool, result⟩
  | collect at_j stage unused =>
    exact Or.inr (Or.inr ⟨_, _, .done, at_j, rfl, fun _ no => by cases no⟩)
  | _ => exact Or.inl rfl

theorem Closing.step (closing : Closing s) (conserving : Conserving s)
    (stepped : Step channels s a s') : Closing s' := by
  have counted := conserving.quiet.counted
  have kept := closed_kept closing.latched counted stepped
  refine ⟨?_, ?_, fun m member t stage => ?_⟩
  · obtain same | ⟨act, -, stepped⟩ | ⟨t, queue, -, closer, same⟩ | ⟨j, m, t, -, -, -, same⟩ :=
      pool_cases stepped
    · rw [same]
      exact closing.latched
    · exact closing.latched.step counted stepped
    · rw [same]
      have latched := closing.latched
      simp only [Latched, closer] at latched
      exact latched
    · rw [same]
      exact closing.latched
  · obtain same | ⟨act, moves, stepped⟩ | ⟨t, queue, -, closer, same⟩ |
      ⟨j, m, t, -, at_j, stage, same⟩ := pool_cases stepped
    · rw [same]
      exact closing.attended
    · refine closing.attended.step conserving.quiet ?_ moves.ne_collect stepped
      have tasks := conserving.balanced.tasks_eq
      change s.pool.pool.tasks = _ at tasks
      omega
    · rw [same]
      intro _ _ waiting
      cases waiting
    · rw [same]
      intro status
      have closed := closing.disposed m (List.mem_of_getElem? at_j) t stage
      cases status.symm.trans closed
  · obtain same | ⟨n, waiter, same, taken⟩ | ⟨j, n, stage', at_j, same, refused⟩ :=
      matchers_cases stepped
    · rw [same] at member
      exact kept (closing.disposed m member t stage)
    · rw [same] at member
      obtain old | new := List.mem_append.mp member
      · exact kept (closing.disposed m old t stage)
      · rw [List.mem_singleton.mp new, taken] at stage
        cases stage
    · rw [same] at member
      obtain old | rfl := List.mem_or_eq_of_mem_set member
      · exact kept (closing.disposed m old t stage)
      · obtain ⟨-, created, w, pool, refused⟩ := refused t stage
        obtain ⟨-, closed, -⟩ | ⟨no, -⟩ := addthread_mx_tasks refused
        · exact kept closed
        · cases no

omit [DecidableEq T] [DecidableEq C] in
theorem closing_initial : Closing (initial : TaskSystem.State T C) :=
  ⟨rfl, fun closing => absurd closing (by simp [initial, createtpool]), fun _ member => absurd member List.not_mem_nil⟩

theorem run_closing {acts : List (TaskSystem.Act T C)}
    (ran : run (TaskSystem.step channels) initial acts = some s) : Conserving s ∧ Closing s :=
  run_invariant (fun s => Conserving s ∧ Closing s)
    (fun _ _ _ kept stepped =>
      ⟨kept.1.step stepped, kept.2.step kept.1 (step_cases stepped)⟩)
    ⟨conserving_initial, closing_initial⟩ ran

/-- While the pool is being closed and no task is left, it is not that the closing thread and
every worker that is left sleep, none of them woken. -/
theorem closing_never_hangs {acts : List (TaskSystem.Act T C)}
    (ran : run (TaskSystem.step channels) initial acts = some s) :
    ¬(s.pool.pool.status = .closing ∧ s.pool.pool.tasks = 0 ∧ s.pool.closer = .waiting ∧
      ∀ phase ∈ s.pool.workers, phase.kind ≠ .ended → phase.kind = .waiting) := by
  rintro ⟨status, none_left, waiting, asleep⟩
  obtain ⟨conserving, closing⟩ := run_closing ran
  have some_awake := closing.attended status none_left waiting
  rw [conserving.quiet.counted.threads_eq] at some_awake
  have all_asleep : s.pool.workers.countP (fun phase => phase.kind ≠ .ended) ≤
      s.pool.count .waiting := by
    refine List.countP_mono_left fun phase member alive => ?_
    exact decide_eq_true (asleep phase member (of_decide_eq_true alive))
  omega

end

/-- The last task ends while the closing thread waits and the other worker sleeps: the worker
of the task wakes it. -/
theorem closing_never_hangs_woken :
    ∃ s : TaskSystem.State ℕ ℕ,
      run (TaskSystem.step ⟨fun _ => "jobs", fun _ => none⟩) TaskSystem.initial
        [.resize 2 true 2 0, .lock 1 0, .add 7 [.object "function" 0] true 1, .lock 0 0,
          .resume 0, .close, .ends 0, .closetask 0, .finish 0 1] = some s ∧
      s.pool.pool.status = .closing ∧ s.pool.pool.tasks = 0 ∧ s.pool.closer = .waiting ∧
      ¬∀ phase ∈ s.pool.workers, phase.kind ≠ .ended → phase.kind = .waiting := by
  have ran : run (TaskSystem.step (⟨fun _ => "jobs", fun _ => none⟩ : TaskSystem.Channels ℕ ℕ))
      TaskSystem.initial
      [.resize 2 true 2 0, .lock 1 0, .add 7 [.object "function" 0] true 1, .lock 0 0,
        .resume 0, .close, .ends 0, .closetask 0, .finish 0 1] = some _ := rfl
  exact ⟨_, ran, rfl, rfl, rfl,
    fun asleep => closing_never_hangs ran ⟨rfl, rfl, rfl, asleep⟩⟩

end Coutil.PoolTermination
