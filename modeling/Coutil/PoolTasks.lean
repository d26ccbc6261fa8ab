import Coutil.PoolInvariant

set_option autoImplicit false

/-! What a section of the thread pool does with the tasks: those of the queue, the one each
worker runs, and those that are left to the thread that closes the pool. -/
namespace Coutil.PoolTasks
open ThreadPool PoolInvariant

variable {T : Type}

theorem task_eq_some {s : State T} {i : ℕ} {t : T} :
    s.task i = some t ↔ s.workers[i]? = some (.running t) := by
  unfold State.task
  split <;> simp_all

theorem task_put {s : State T} {i : ℕ} {phase : Phase T} (at_i : s.workers[i]? = some phase)
    (next : Phase T) :
    (s.put i next).task = Function.update s.task i
      (match next with
        | .running t => some t
        | _ => none) := by
  funext k
  by_cases here : k = i
  · subst k
    rw [Function.update_self, State.task, getElem_put at_i]
    cases next <;> rfl
  · rw [Function.update_of_ne here]
    simp only [State.task, State.put, List.getElem?_set_ne (Ne.symm here)]

theorem task_put_same {s : State T} {i : ℕ} {phase : Phase T} (next : Phase T)
    (at_i : s.workers[i]? = some phase) (before : phase.kind ≠ .running)
    (after : next.kind ≠ .running) : (s.put i next).task = s.task := by
  rw [task_put at_i]
  have idle : s.task i = none := by
    cases phase <;> simp_all [State.task]
  cases next with
  | running t => exact absurd rfl after
  | _ => rw [← idle, Function.update_eq_self]

/-- The tasks are where they were. -/
structure Same (s s' : State T) : Prop where
  queue : s'.pool.queue = s.pool.queue
  task : s'.task = s.task
  draining : s'.draining = s.draining
  tasks : s'.pool.tasks = s.pool.tasks
  status : s'.pool.status = s.pool.status

theorem Same.refl (s : State T) : Same s s := ⟨rfl, rfl, rfl, rfl, rfl⟩

theorem Same.trans {s t u : State T} (first : Same s t) (second : Same t u) : Same s u where
  queue := second.queue.trans first.queue
  task := second.task.trans first.task
  draining := second.draining.trans first.draining
  tasks := second.tasks.trans first.tasks
  status := second.status.trans first.status

theorem same_signal {s s' : State T} {w : ℕ} (signal : s.signal w = some s') : Same s s' := by
  obtain ⟨-, rfl⟩ | ⟨-, at_w, rfl⟩ := signal_cases signal
  · exact .refl _
  · exact ⟨rfl, task_put_same _ at_w (by simp) (by simp), rfl, rfl, rfl⟩

theorem same_setsize (s : State T) (size : ℤ) : Same s (s.setsize size) :=
  ⟨rfl, rfl, rfl, rfl, rfl⟩

theorem same_broadcast (s : State T) : Same s s.broadcast := by
  refine ⟨rfl, ?_, rfl, rfl, rfl⟩
  funext i
  simp only [State.task, State.broadcast, List.getElem?_map]
  cases s.workers[i]? with
  | none => rfl
  | some phase => cases phase <;> rfl

theorem same_checkhalted_mx (s : State T) : Same s (checkhalted_mx s) := by
  unfold checkhalted_mx
  split_ifs
  · exact (same_setsize s 0).trans (same_broadcast _)
  · exact .refl s

theorem same_create (s : State T) : Same s s.create := by
  refine ⟨rfl, ?_, rfl, rfl, rfl⟩
  funext i
  simp only [State.task, State.create, List.getElem?_append]
  split_ifs with low
  · rfl
  · have beyond : s.workers[i]? = none := List.getElem?_eq_none (by omega)
    rw [beyond]
    cases i - s.workers.length <;> rfl

theorem same_iterate_create (s : State T) (n : ℕ) : Same s (State.create^[n] s) := by
  induction n with
  | zero => exact .refl s
  | succ n ih =>
    rw [Function.iterate_succ_apply']
    exact ih.trans (same_create _)

theorem same_signalterm (s : State T) : Same s s.signalterm := by
  unfold State.signalterm
  split
  · rename_i waiting
    exact ⟨rfl, rfl, by simp only [State.draining, waiting], rfl, rfl⟩
  · exact .refl s

theorem same_passon {s s' : State T} {w : ℕ} (passed : passon s w = some s') : Same s s' := by
  unfold passon at passed
  split_ifs at passed
  · exact same_signal passed
  · cases Option.some.inj passed
    exact same_signalterm s
  · cases Option.some.inj passed
    exact same_checkhalted_mx s
  · cases Option.some.inj passed
    exact .refl s

theorem same_callthread {s s' : State T} {created : Bool} {w : ℕ}
    (called : callthread s created w = some s') : Same s s' := by
  unfold callthread at called
  split_ifs at called
  · exact same_signal called
  · cases Option.some.inj called
    exact same_create s
  all_goals
    cases Option.some.inj called
    exact .refl s

theorem same_resizetpool {s s' : State T} {size : ℤ} {create : Bool} {created w : ℕ}
    (resized : resizetpool s size create created w = some s') : Same s s' := by
  obtain ⟨-, rfl⟩ | ⟨-, -, signal⟩ | ⟨-, -, rfl⟩ := resizetpool_cases resized
  · exact (same_setsize s size).trans (same_iterate_create _ created)
  · exact (same_setsize s size).trans (same_signal signal)
  · exact same_setsize s size

/-- A task is taken, unless the pool is closed. -/
theorem addthread_mx_tasks {s s' : State T} {t : T} {created added : Bool} {w : ℕ}
    (result : addthread_mx s t created w = some (added, s')) :
    (added = false ∧ s.pool.status = .closed ∧ Same s s') ∨
      (added = true ∧ s'.pool.queue = s.pool.queue ++ [t] ∧ s'.task = s.task ∧
        s'.draining = s.draining ∧ s'.pool.tasks = s.pool.tasks ∧
        s'.pool.status = s.pool.status) := by
  obtain ⟨u, called, accepted⟩ := Option.map_eq_some_iff.mp result
  obtain ⟨queue, task, draining, tasks, status⟩ := same_callthread called
  unfold accept at accepted
  split_ifs at accepted with closed
  · cases accepted
    exact Or.inl ⟨rfl, status ▸ closed, queue, task, draining, tasks, status⟩
  · cases accepted
    refine Or.inr ⟨rfl, ?_, task, draining, tasks, status⟩
    change u.pool.queue ++ [t] = _
    rw [queue]

theorem addtpooltask_tasks {s s' : State T} {t : T} {created : Bool} {w : ℕ}
    (added : addtpooltask s t created w = some s') :
    s'.pool.queue = s.pool.queue ++ [t] ∧ s'.task = s.task ∧ s'.draining = s.draining ∧
      s'.pool.tasks = s.pool.tasks + 1 ∧ s'.pool.status = s.pool.status := by
  obtain ⟨⟨taken, u⟩, result, kept⟩ := Option.bind_eq_some_iff.mp added
  simp only [Option.ite_none_right_eq_some, Option.some.injEq] at kept
  obtain ⟨rfl, rfl⟩ := kept
  obtain ⟨no, -⟩ | ⟨-, queue, task, draining, tasks, status⟩ := addthread_mx_tasks result
  · cases no
  · exact ⟨queue, task, draining, congrArg (· + 1) tasks, status⟩

/-- A worker that holds the mutex takes the first task of the queue, or none. -/
structure Takes (s s' : State T) (i : ℕ) : Prop where
  found : (s'.pool.queue = s.pool.queue ∧ s'.task = s.task) ∨
    ∃ t, s.pool.queue = t :: s'.pool.queue ∧ s'.task = Function.update s.task i (some t)
  draining : s'.draining = s.draining
  tasks : s'.pool.tasks = s.pool.tasks
  status : s'.pool.status = s.pool.status

theorem Takes.of_same {s s' : State T} (same : Same s s') (i : ℕ) : Takes s s' i :=
  ⟨Or.inl ⟨same.queue, same.task⟩, same.draining, same.tasks, same.status⟩

theorem takes_work {s s' : State T} {i w : ℕ} (at_i : s.workers[i]? = some .locked)
    (worked : ThreadPool.work s i w = some s') : Takes s s' i := by
  obtain ⟨⟨pool, found⟩, sought, turned⟩ := Option.bind_eq_some_iff.mp worked
  simp only at turned
  have same_end (size : ℤ) {u : State T} (ends : thread_end (s.setsize size) i w = some u) :
      Same s u := by
    refine Same.trans (t := leave (s.setsize size) i) ⟨rfl, ?_, rfl, rfl, rfl⟩ (same_passon ends)
    exact task_put_same (s := { s.setsize size with pool :=
      { (s.setsize size).pool with threads := (s.setsize size).pool.threads - 1 } }) _ at_i
      (by simp) (by simp)
  obtain ⟨rfl, rfl, -⟩ | ⟨rfl, rfl, -⟩ | ⟨t, queue, rfl, -, queued, rfl⟩ | ⟨rfl, rfl, -⟩ :=
    seek_cases sought
  · exact .of_same (same_end s.pool.size turned) i
  · exact .of_same (same_end 0 turned) i
  · cases Option.some.inj turned
    refine ⟨Or.inr ⟨t, queued, ?_⟩, rfl, rfl, rfl⟩
    exact task_put (s := { s with pool :=
      { s.pool with
        pending := s.pool.pending - 1
        queue := queue
        running := s.pool.running + 1 } }) at_i (.running t)
  · cases Option.some.inj turned
    have waits := task_put_same (s := { s with pool := { s.pool with idle := s.pool.idle + 1 } })
      .waiting at_i (by simp) (by simp)
    exact ⟨Or.inl ⟨rfl, waits⟩, rfl, rfl, rfl⟩

theorem takes_locked {s u s' : State T} {i w : ℕ} {phase : Phase T}
    (at_i : s.workers[i]? = some phase) (idle : phase.kind ≠ .running)
    (same : Same (s.put i .locked) u) (workers : u.workers = (s.put i .locked).workers)
    (worked : ThreadPool.work u i w = some s') : s.task i = none ∧ Takes s s' i := by
  have here : u.workers[i]? = some .locked := by
    rw [workers]
    exact getElem_put at_i .locked
  have kept := task_put_same .locked at_i idle (by simp)
  obtain ⟨found, draining, tasks, status⟩ := takes_work here worked
  refine ⟨?_, ?_, draining.trans same.draining, tasks.trans same.tasks, status.trans same.status⟩
  · cases phase <;> simp_all [State.task]
  · rw [same.queue, same.task, kept] at found
    exact found

/-- A worker that had no task gets the mutex. -/
theorem lock_tasks {s s' : State T} {i w : ℕ} {act : Act T}
    (act_eq : act = .start i w ∨ act = .relock i w) (stepped : step s act = some s') :
    s.task i = none ∧ Takes s s' i := by
  obtain rfl | rfl := act_eq
  · simp only [step] at stepped
    split at stepped
    · rename_i at_i
      exact takes_locked at_i (by simp) (.refl _) rfl stepped
    · cases stepped
  · simp only [step] at stepped
    split at stepped
    · rename_i at_i
      exact takes_locked (u := unwait (s.put i .locked)) at_i (by simp) ⟨rfl, rfl, rfl, rfl, rfl⟩
        rfl stepped
    · rename_i at_i
      exact takes_locked (u := unwait (s.put i .locked)) at_i (by simp) ⟨rfl, rfl, rfl, rfl, rfl⟩
        rfl stepped
    · cases stepped

theorem settle_tasks (s : State T) (t : T) (enqueued yielded : Bool) :
    (settle s t enqueued yielded).pool.queue =
        (if enqueued then s.pool.queue ++ [t] else s.pool.queue) ∧
      (settle s t enqueued yielded).workers = s.workers ∧
      (settle s t enqueued yielded).closer = s.closer ∧
      (settle s t enqueued yielded).pool.tasks =
        (if enqueued ∨ yielded then s.pool.tasks else s.pool.tasks - 1) ∧
      (settle s t enqueued yielded).pool.status = s.pool.status := by
  cases enqueued <;> cases yielded <;> exact ⟨rfl, rfl, rfl, rfl, rfl⟩

/-- A worker brings its task back, or not, and looks for another one. -/
theorem finish_tasks {s s' : State T} {i w : ℕ} {enqueued yielded : Bool}
    (stepped : step s (.finish i enqueued yielded w) = some s') :
    ∃ t u, s.task i = some t ∧
      u.pool.queue = (if enqueued then s.pool.queue ++ [t] else s.pool.queue) ∧
      u.task = Function.update s.task i none ∧ u.draining = s.draining ∧
      u.pool.tasks = (if enqueued ∨ yielded then s.pool.tasks else s.pool.tasks - 1) ∧
      u.pool.status = s.pool.status ∧ Takes u s' i := by
  simp only [step] at stepped
  split at stepped
  · rename_i t at_i
    obtain ⟨queue, workers, closer, tasks, status⟩ :=
      settle_tasks (s.put i .locked) t enqueued yielded
    have here : (settle (s.put i .locked) t enqueued yielded).workers[i]? = some .locked := by
      rw [workers]
      exact getElem_put at_i .locked
    refine ⟨t, settle (s.put i .locked) t enqueued yielded, task_eq_some.mpr at_i, queue, ?_, ?_,
      tasks, status, takes_work here stepped⟩
    · rw [← task_put at_i .locked]
      funext k
      simp only [State.task, workers]
    · simp only [State.draining, closer, State.put_closer]
  · cases stepped

/-- The sections that leave the tasks where they are. -/
theorem elsewhere_tasks {s s' : State T} {act : Act T}
    (kind : (∃ i, act = .awake i) ∨ act = .closeawake ∨
      ∃ size create created w, act = .resize size create created w)
    (stepped : step s act = some s') : Same s s' := by
  obtain ⟨i, rfl⟩ | rfl | ⟨size, create, created, w, rfl⟩ := kind
  · simp only [step] at stepped
    split at stepped
    · rename_i at_i
      cases Option.some.inj stepped
      exact ⟨rfl, task_put_same _ at_i (by simp) (by simp), rfl, rfl, rfl⟩
    · cases stepped
  · simp only [step] at stepped
    split at stepped
    · rename_i waiting
      cases Option.some.inj stepped
      exact ⟨rfl, rfl, by simp [State.draining, waiting], rfl, rfl⟩
    · cases stepped
  · exact same_resizetpool stepped

/-- Closing goes on while there are threads; then the queue is left to the closing thread. -/
theorem closeloop_tasks (s : State T) :
    (closeloop s).task = s.task ∧ (closeloop s).pool.tasks = s.pool.tasks ∧
      (((closeloop s).pool.queue = s.pool.queue ∧ (closeloop s).draining = []) ∨
        ((closeloop s).pool.queue = [] ∧ (closeloop s).draining =
          if s.pool.tasks = 0 then [] else if s.pool.pending > 0 then s.pool.queue else [])) := by
  by_cases alive : s.pool.threads > 0
  · rw [closeloop, if_pos alive]
    have halted := same_checkhalted_mx s
    exact ⟨halted.task, halted.tasks, Or.inl ⟨halted.queue, rfl⟩⟩
  · rw [closeloop, if_neg alive]
    exact ⟨rfl, rfl, Or.inr ⟨rfl, rfl⟩⟩

theorem close_tasks {s s' : State T} {act : Act T} (kind : act = .close ∨ act = .closeagain)
    (stepped : step s act = some s') :
    s.draining = [] ∧ s'.task = s.task ∧ s'.pool.tasks = s.pool.tasks ∧
      ((s'.pool.queue = s.pool.queue ∧ s'.draining = []) ∨
        (s'.pool.queue = [] ∧ s'.draining =
          if s.pool.tasks = 0 then [] else if s.pool.pending > 0 then s.pool.queue else [])) := by
  obtain rfl | rfl := kind
  · simp only [step] at stepped
    split at stepped
    · rename_i away
      cases Option.some.inj stepped
      exact ⟨by simp [State.draining, away],
        closeloop_tasks { s with pool := { s.pool with status := .closing } }⟩
    · cases stepped
  · simp only [step] at stepped
    split at stepped
    · rename_i woken
      cases Option.some.inj stepped
      exact ⟨by simp [State.draining, woken], closeloop_tasks s⟩
    · cases stepped

end Coutil.PoolTasks
