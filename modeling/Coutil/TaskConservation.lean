import Coutil.PoolTasks
import Coutil.TaskLedger
import Coutil.TaskSteps

set_option autoImplicit false

/-! Every step of the workers, of the matches and of the thread that closes the pool moves the
tasks as the ledger allows. -/
namespace Coutil.TaskConservation
open Runs ChannelSync Exchange TaskSystem TaskSteps TaskLedger Placement PoolInvariant PoolTasks

variable {T C : Type}

/-- The worker has a task that no other thread can get. -/
def Job.holds : Job → Bool
  | .fetched => true
  | .executing => true
  | .yielded _ => true
  | .closing => true
  | .freeing enqueue => enqueue
  | .discarding _ enqueue => enqueue
  | .returning enqueue _ => enqueue

def Job.ended (job : Job) : Bool :=
  job = .returning false false

/-- The task in the hands of the thread of a match. -/
def Stage.task? : Stage T C → Option T
  | .taken (.task t) => some t
  | .resuming t => some t
  | .closing t => some t
  | _ => none

def Waiter.task? : Waiter T C → Option T
  | .task t => some t
  | .channel _ _ => none

def slot (job : Job → Bool) (jobs : ℕ → Job) (task : ℕ → Option T) (i : ℕ) : Option T :=
  if job (jobs i) then task i else none

def atMatcher (matchers : List (Matcher T C)) (j : ℕ) : Option T :=
  matchers[j]?.bind fun m => Stage.task? m.stage

def view (s : State T C) : View T where
  queue := s.pool.pool.queue
  worker := slot Job.holds s.job s.pool.task
  ended := slot Job.ended s.job s.pool.task
  sync := fun name => (s.sync name).queue.filterMap Waiter.task?
  channeltask := fun t => (s.chan t).L
  matcher := atMatcher s.matchers
  closer := s.pool.draining

def ledger (s : State T C) : Ledger T where
  view := view s
  added := s.added
  closed := s.closed
  accounted := s.accounted
  tasks := s.pool.pool.tasks

section
variable {f : Job → Bool} {jobs : ℕ → Job} {task : ℕ → Option T} {i : ℕ} {job : Job}

theorem slot_update (x : Option T) :
    slot f (Function.update jobs i job) (Function.update task i x) =
      Function.update (slot f jobs task) i (if f job then x else none) := by
  funext k
  by_cases here : k = i
  · subst k
    simp [slot]
  · simp [slot, Function.update_of_ne here]

theorem slot_setjob :
    slot f (Function.update jobs i job) task =
      Function.update (slot f jobs task) i (if f job then task i else none) := by
  have same : slot f (Function.update jobs i job) (Function.update task i (task i)) = _ :=
    slot_update (task i)
  rwa [Function.update_eq_self] at same

theorem slot_setjob_same (same : f job = f (jobs i)) :
    slot f (Function.update jobs i job) task = slot f jobs task := by
  rw [slot_setjob, same]
  exact Function.update_eq_self i _

theorem slot_setjob_clear (clear : f job = false) :
    slot f (Function.update jobs i job) task = Function.update (slot f jobs task) i none := by
  rw [slot_setjob, clear]
  rfl

theorem slot_setjob_idle (idle : task i = none) :
    slot f (Function.update jobs i job) task = slot f jobs task := by
  have before : slot f jobs task i = none := by
    simp [slot, idle]
  rw [slot_setjob, idle, ite_self, ← before, Function.update_eq_self]

end

section
variable {matchers : List (Matcher T C)} {j : ℕ} {m : Matcher T C}

theorem atMatcher_set (at_j : matchers[j]? = some m) (stage : Stage T C) :
    atMatcher (matchers.set j { m with stage := stage }) =
      Function.update (atMatcher matchers) j (Stage.task? stage) := by
  have bound := (List.getElem?_eq_some_iff.mp at_j).1
  funext k
  by_cases here : k = j
  · subst k
    simp [atMatcher, List.getElem?_set_self bound]
  · simp [atMatcher, Function.update_of_ne here, List.getElem?_set_ne (Ne.symm here)]

theorem atMatcher_set_same (at_j : matchers[j]? = some m) {stage : Stage T C}
    (same : Stage.task? stage = Stage.task? m.stage) :
    atMatcher (matchers.set j { m with stage := stage }) = atMatcher matchers := by
  have before : atMatcher matchers j = Stage.task? m.stage := by
    simp [atMatcher, at_j]
  rw [atMatcher_set at_j, same, ← before, Function.update_eq_self]

theorem atMatcher_length (matchers : List (Matcher T C)) :
    atMatcher matchers matchers.length = none := by
  simp [atMatcher]

theorem atMatcher_append (matchers : List (Matcher T C)) (m : Matcher T C) :
    atMatcher (matchers ++ [m]) =
      Function.update (atMatcher matchers) matchers.length (Stage.task? m.stage) := by
  funext k
  by_cases here : k = matchers.length
  · subst k
    simp [atMatcher]
  · rw [Function.update_of_ne here]
    by_cases low : k < matchers.length
    · simp [atMatcher, List.getElem?_append_left low]
    · have high : (matchers ++ [m])[k]? = none := by
        apply List.getElem?_eq_none
        simp
        omega
      have before : matchers[k]? = none := List.getElem?_eq_none (by omega)
      simp [atMatcher, high, before]

end

theorem ledger_setjob_same {s : State T C} {i : ℕ} (job : Job)
    (holds : Job.holds job = Job.holds (s.job i)) (ended : Job.ended job = Job.ended (s.job i)) :
    ledger (s.setjob i job) = ledger s := by
  simp only [ledger, view, State.setjob, slot_setjob_same holds, slot_setjob_same ended]

/-- The tasks are where they were, and so are the accounts. -/
theorem ledger_same {s : State T C} {pool : ThreadPool.State T} (same : Same s.pool pool) :
    ledger { s with pool := pool } = ledger s := by
  obtain ⟨queue, task, draining, tasks, -⟩ := same
  simp only [ledger, view, queue, task, draining, tasks]

theorem running_task {s : State T C} {i : ℕ} {t : T} (running : s.running i = some t) :
    s.pool.task i = some t := by
  unfold State.running at running
  split_ifs at running
  exact running

theorem holds_worker {s : State T C} {i : ℕ} {t : T} (running : s.running i = some t)
    (holds : Job.holds (s.job i)) : (view s).Holds (.worker i) t := by
  change slot Job.holds s.job s.pool.task i = some t
  simp [slot, holds, running_task running]

theorem tasks_setsync (name : String) (sync : Sync (Waiter T C)) (s : State T C) :
    (fun n => ((s.setsync name sync).sync n).queue.filterMap Waiter.task?) =
      Function.update (view s).sync name (sync.queue.filterMap Waiter.task?) := by
  funext n
  by_cases same : n = name
  · subst n
    simp [State.setsync]
  · simp [State.setsync, Function.update_of_ne same, view]

theorem setstage_ledger {s : State T C} {j : ℕ} {m : Matcher T C} {stage : Stage T C}
    (at_j : s.matchers[j]? = some m) (same : Stage.task? stage = Stage.task? m.stage) :
    ledger (s.setstage j m stage) = ledger s := by
  simp only [ledger, view, State.setstage, atMatcher_set_same at_j same]

/-- A sync record changes in its channels alone. -/
theorem ledger_setsync_same (name : String) (sync : Sync (Waiter T C)) {s : State T C}
    (same : sync.queue.filterMap Waiter.task? = (s.sync name).queue.filterMap Waiter.task?) :
    ledger (s.setsync name sync) = ledger s := by
  have tasks := tasks_setsync name sync s
  rw [same] at tasks
  have unchanged : (fun n => ((s.setsync name sync).sync n).queue.filterMap Waiter.task?) =
      (view s).sync := by
    rw [tasks]
    exact Function.update_eq_self name (view s).sync
  simp only [ledger, view] at unchanged ⊢
  rw [unchanged]
  rfl


variable [DecidableEq T]

theorem add_changes {s : State T C} {t : T} {L : Stack} {created : Bool} {w : ℕ}
    {pool : ThreadPool.State T} (fresh : t ∉ s.added)
    (added : ThreadPool.addtpooltask s.pool t created w = some pool) :
    Change (ledger s)
      (ledger { s with
        pool := pool
        stack := Function.update s.stack t L
        started := Function.update s.started t false
        added := s.added ++ [t] }) := by
  obtain ⟨queue, task, draining, tasks, -⟩ := addtpooltask_tasks added
  have entered := Change.enter (l := ledger s) fresh
  simp only [ledger, view, View.insert] at entered ⊢
  rw [queue, task, draining, tasks]
  exact entered

/-- A worker that holds no task takes the first of the queue, or none. -/
theorem takes_changes {l : Ledger T} {J : ℕ → Job} {i : ℕ} {pool pool' : ThreadPool.State T}
    (queue : l.view.queue = pool.pool.queue)
    (worker : l.view.worker = slot Job.holds J pool.task)
    (ended : l.view.ended = slot Job.ended J pool.task) (idle : pool.task i = none)
    (closer : l.view.closer = pool.draining) (tasks : l.tasks = pool.pool.tasks)
    (takes : Takes pool pool' i) :
    Relation.ReflTransGen Change l
      { l with
        view := { l.view with
          queue := pool'.pool.queue
          worker := slot Job.holds (Function.update J i .fetched) pool'.task
          ended := slot Job.ended (Function.update J i .fetched) pool'.task
          closer := pool'.draining }
        tasks := pool'.pool.tasks } := by
  obtain ⟨found, draining, counted, -⟩ := takes
  rw [draining, counted, ← closer, ← tasks]
  obtain ⟨same, task⟩ | ⟨t, first, task⟩ := found
  · rw [same, task, slot_setjob_idle idle, slot_setjob_idle idle, ← queue, ← worker, ← ended]
  · have held : l.view.Holds .queue t := by
      change t ∈ l.view.queue
      rw [queue, first]
      exact List.mem_cons_self
    have free : l.view.Free (.worker i) := by
      change l.view.worker i = none
      rw [worker]
      simp [slot, idle]
    have moved := Change.move held free (by simp) (by simp)
    have cleared : slot Job.ended (Function.update J i .fetched) pool'.task = l.view.ended := by
      rw [task, slot_update, ended]
      have before : slot Job.ended J pool.task i = none := by
        simp [slot, idle]
      have empty : (if Job.ended .fetched then some t else none) = slot Job.ended J pool.task i :=
        before.symm
      rw [empty, Function.update_eq_self]
    have filled : slot Job.holds (Function.update J i .fetched) pool'.task =
        Function.update l.view.worker i (some t) := by
      rw [task, slot_update, worker]
      rfl
    have rest : pool'.pool.queue = l.view.queue.erase t := by
      rw [queue, first, List.erase_cons_head]
    rw [cleared, filled, rest]
    exact .single moved

theorem lock_changes {s : State T C} {i w : ℕ} {act : ThreadPool.Act T}
    {pool : ThreadPool.State T} (kind : act = .start i w ∨ act = .relock i w)
    (stepped : ThreadPool.step s.pool act = some pool) :
    Relation.ReflTransGen Change (ledger s)
      (ledger ({ s with pool := pool }.setjob i .fetched)) := by
  obtain ⟨idle, takes⟩ := lock_tasks kind stepped
  exact takes_changes (l := ledger s) rfl rfl rfl idle rfl rfl takes

/-- The task of a worker that is through with it: back in the queue, in other hands, or ended
and to be accounted. -/
theorem settle_changes {s : State T C} {i : ℕ} {t : T} {enqueue yielded : Bool}
    (task : s.pool.task i = some t) (job : s.job i = .returning enqueue yielded) :
    Relation.ReflTransGen Change (ledger s)
      { ledger s with
        view := { view s with
          queue := if enqueue then s.pool.pool.queue ++ [t] else s.pool.pool.queue
          worker := slot Job.holds s.job (Function.update s.pool.task i none)
          ended := slot Job.ended s.job (Function.update s.pool.task i none) }
        accounted := if enqueue ∨ yielded then s.accounted else s.accounted ++ [t]
        tasks := if enqueue ∨ yielded then s.pool.pool.tasks else s.pool.pool.tasks - 1 } := by
  have cleared (f : Job → Bool) : slot f s.job (Function.update s.pool.task i none) =
      Function.update (slot f s.job s.pool.task) i none := by
    have updated : slot f (Function.update s.job i (s.job i))
        (Function.update s.pool.task i none) = _ := slot_update none
    rwa [Function.update_eq_self, ite_self] at updated
  have unheld (f : Job → Bool) (no : f (s.job i) = false) :
      Function.update (slot f s.job s.pool.task) i none = slot f s.job s.pool.task := by
    have before : slot f s.job s.pool.task i = none := by
      simp [slot, no]
    rw [← before, Function.update_eq_self]
  rw [cleared, cleared]
  cases enqueue with
  | true =>
    have held : (view s).Holds (.worker i) t := by
      change slot Job.holds s.job s.pool.task i = some t
      simp [slot, task, job, Job.holds]
    rw [unheld Job.ended (by simp [job, Job.ended])]
    exact .single (Change.move (l := ledger s) (q := .queue) held trivial (by simp) (by simp))
  | false =>
    rw [unheld Job.holds (by simp [job, Job.holds])]
    cases yielded with
    | true =>
      rw [unheld Job.ended (by simp [job, Job.ended])]
      exact .refl
    | false =>
      have held : (view s).Holds (.ended i) t := by
        change slot Job.ended s.job s.pool.task i = some t
        simp [slot, task, job, Job.ended]
      exact .single (Change.settle (l := ledger s) held)

theorem finish_changes {s : State T C} {i w : ℕ} {t : T} {enqueue yielded : Bool}
    {pool : ThreadPool.State T} (running : s.running i = some t)
    (job : s.job i = .returning enqueue yielded)
    (stepped : ThreadPool.step s.pool (.finish i enqueue yielded w) = some pool) :
    Relation.ReflTransGen Change (ledger s)
      (ledger ({ s with
        pool := pool
        accounted := if enqueue ∨ yielded then s.accounted else s.accounted ++ [t] }.setjob i
          .fetched)) := by
  obtain ⟨u, v, task, queue, tasks, draining, counted, -, takes⟩ := finish_tasks stepped
  obtain rfl : u = t := Option.some.inj (task.symm.trans (running_task running))
  refine (settle_changes task job).trans ?_
  refine takes_changes (J := s.job) queue.symm ?_ ?_ ?_ draining.symm counted.symm takes
  · rw [tasks]
  · rw [tasks]
  · rw [tasks, Function.update_self]

theorem close_changes {s : State T C} {act : ThreadPool.Act T} {pool : ThreadPool.State T}
    (balanced : Balanced (ledger s)) (counted : Counted s.pool)
    (kind : act = .close ∨ act = .closeagain) (stepped : ThreadPool.step s.pool act = some pool) :
    Relation.ReflTransGen Change (ledger s) (ledger { s with pool := pool }) := by
  obtain ⟨none, task, tasks, ⟨queue, draining⟩ | ⟨queue, draining⟩⟩ := close_tasks kind stepped
  · have same : ledger { s with pool := pool } = ledger s := by
      simp only [ledger, view, task, tasks, queue, draining, none]
    rw [same]
  · have all : pool.draining = s.pool.pool.queue := by
      have pending := counted.pending
      rw [draining]
      split_ifs with zero some
      · cases queued : s.pool.pool.queue with
        | nil => rfl
        | cons t rest =>
          have held : t ∈ s.pool.pool.queue := queued ▸ List.mem_cons_self
          have positive := balanced.tasks_pos ⟨.queue, held⟩
          exact absurd zero (ne_of_gt positive)
      · rfl
      · exact (List.length_eq_zero_iff.mp (by omega)).symm
    have shut := Change.shut (l := ledger s) none
    simp only [ledger, view] at shut ⊢
    rw [task, tasks, queue, all]
    exact .single shut

theorem drain_changes {s : State T C} {t : T} {queue : List T}
    (closer : s.pool.closer = .closing (t :: queue)) :
    Change (ledger s)
      (ledger (State.collect { s with pool := { s.pool with closer := .closing queue } } t)) := by
  have draining : s.pool.draining = t :: queue := by
    simp only [ThreadPool.State.draining, closer]
  have held : (view s).Holds .closer t := by
    change t ∈ s.pool.draining
    rw [draining]
    exact List.mem_cons_self
  have disposed := Change.dispose (l := ledger s) held (by simp)
  have rest : (view s).closer.erase t = queue := by
    change s.pool.draining.erase t = queue
    rw [draining, List.erase_cons_head]
  simp only [ledger, View.remove, rest] at disposed
  exact disposed

theorem noteMatch_ledger [DecidableEq C] (channels : Channels T C) (s : State T C)
    (waiter : Waiter T C) : ledger (noteMatch channels s waiter) = ledger s := by
  cases waiter with
  | task t => rfl
  | channel c L =>
    simp only [noteMatch]
    split <;> rfl

/-- A match takes the waiter out of the queue, into the hands of its thread. -/
theorem match_changes [DecidableEq C] {channels : Channels T C} {s : State T C} {name : String}
    {sync : Sync (Waiter T C)} {waiter : Waiter T C} {thread : Option ℕ} {source : Source T}
    (queue : (s.sync name).queue = waiter :: sync.queue) :
    Relation.ReflTransGen Change (ledger s)
      (ledger (startMatch channels (s.setsync name sync) thread source waiter)) := by
  have appended := atMatcher_append s.matchers ⟨thread, source, .taken waiter⟩
  have length := atMatcher_length s.matchers
  rw [startMatch, noteMatch_ledger]
  cases waiter with
  | channel c L =>
    have same : atMatcher (s.matchers ++ [⟨thread, source, .taken (.channel c L)⟩]) =
        atMatcher s.matchers := by
      have nothing : Stage.task? (.taken (.channel c L)) =
          atMatcher s.matchers s.matchers.length := length.symm
      rw [appended, nothing, Function.update_eq_self]
    have unchanged : ledger (s.setsync name sync) = ledger s :=
      ledger_setsync_same _ _ (by rw [queue]; rfl)
    simp only [ledger, view] at unchanged ⊢
    simp only [State.setsync, same] at unchanged ⊢
    rw [unchanged]
  | task t =>
    have waits : (view s).sync name = t :: sync.queue.filterMap Waiter.task? := by
      change (s.sync name).queue.filterMap Waiter.task? = _
      rw [queue]
      rfl
    have held : (view s).Holds (.sync name) t := by
      change t ∈ (view s).sync name
      rw [waits]
      exact List.mem_cons_self
    have moved := Change.move (l := ledger s) (q := .matcher s.matchers.length) held length
      (by simp) (by simp)
    have tasks := tasks_setsync name sync s
    have rest : ((view s).sync name).erase t = sync.queue.filterMap Waiter.task? := by
      rw [waits, List.erase_cons_head]
    simp only [ledger, View.remove, View.insert, rest, ← tasks] at moved
    refine .single ?_
    simp only [ledger, view] at moved ⊢
    simp only [State.setsync] at moved ⊢
    rw [appended]
    exact moved

/-- A task that yielded a channel name waits. -/
theorem wait_changes {s : State T C} {i base : ℕ} {t : T} {name : String} {L : Stack}
    {sync : Sync (Waiter T C)} (running : s.running i = some t) (job : s.job i = .yielded base)
    (queue : sync.queue = (s.sync name).queue ++ [.task t]) :
    Change (ledger s)
      (ledger (((s.setsync name sync).setstack t L).setjob i (.freeing false))) := by
  have held := holds_worker running (by simp [job, Job.holds])
  have moved := Change.move (l := ledger s) (q := .sync name) held trivial (by simp) (by simp)
  have tasks := tasks_setsync name sync s
  have longer : sync.queue.filterMap Waiter.task? = (view s).sync name ++ [t] := by
    rw [queue, List.filterMap_append]
    rfl
  have cleared : slot Job.holds (Function.update s.job i (.freeing false)) s.pool.task = _ :=
    slot_setjob_clear rfl
  have same : slot Job.ended (Function.update s.job i (.freeing false)) s.pool.task = _ :=
    slot_setjob_same (by simp [job, Job.ended])
  rw [longer] at tasks
  simp only [ledger, View.remove, View.insert, ← tasks] at moved
  simp only [ledger, view, State.setjob, State.setstack] at moved ⊢
  simp only [State.setsync] at moved ⊢
  rw [cleared, same]
  exact moved

theorem suspend_changes {s : State T C} {i base : ℕ} {t : T} (running : s.running i = some t)
    (job : s.job i = .yielded base) :
    Relation.ReflTransGen Change (ledger s) (ledger (suspendedchtask s i t base)) := by
  unfold suspendedchtask
  split_ifs with stored
  · have held := holds_worker running (by simp [job, Job.holds])
    have moved := Change.move (l := ledger s) (q := .channeltask) held trivial (by simp) (by simp)
    have cleared : slot Job.holds (Function.update s.job i (.discarding base false))
        s.pool.task = _ := slot_setjob_clear rfl
    have same : slot Job.ended (Function.update s.job i (.discarding base false))
        s.pool.task = _ := slot_setjob_same (by simp [job, Job.ended])
    have stores : (fun u => (Function.update s.chan t { s.chan t with L := some t } u).L) =
        Function.update (view s).channeltask t (some t) := by
      funext u
      by_cases here : u = t
      · subst u
        simp
      · simp [Function.update_of_ne here, view]
    simp only [ledger, View.remove, View.insert, ← stores] at moved
    simp only [ledger, view] at moved ⊢
    simp only [State.setjob, State.note, State.setchan]
    rw [cleared, same]
    exact .single moved
  · rw [ledger_setjob_same _ (by simp [job, Job.holds]) (by simp [job, Job.ended])]

theorem filterMap_erase_channel [DecidableEq C] (queue : List (Waiter T C)) (c : C) (L : Stack) :
    (queue.erase (.channel c L)).filterMap Waiter.task? = queue.filterMap Waiter.task? := by
  induction queue with
  | nil => rfl
  | cons waiter queue ih =>
    by_cases here : waiter = .channel c L
    · subst waiter
      rw [List.erase_cons_head]
      rfl
    · rw [List.erase_cons_tail (by simpa using here), List.filterMap_cons, List.filterMap_cons, ih]

theorem onsynced_ledger [DecidableEq C] {channels : Channels T C} {s u : State T C} {c : C}
    (processed : onsynced channels s c = some u) : ledger u = ledger s := by
  obtain ⟨signal, -, rfl⟩ := Option.map_eq_some_iff.mp processed
  simp only
  split
  · rfl
  · rename_i t owner
    have same : (fun v => (Function.update s.chan t
        { s.chan t with wakes := (s.chan t).wakes - 1 } v).L) = (view s).channeltask := by
      funext v
      by_cases here : v = t
      · subst v
        simp [view]
      · simp [Function.update_of_ne here, view]
    simp only [ledger, view] at same ⊢
    simp only [State.note, State.setchan]
    rw [same]

theorem swap_ledger {s : State T C} {j : ℕ} {m : Matcher T C} {waiter : Waiter T C}
    {faults : Faults} (at_j : s.matchers[j]? = some m) (stage : m.stage = .taken waiter) :
    ledger (swap s j m waiter faults) = ledger s := by
  have placed (u : State T C) (L : Stack) (source : Source T) :
      ledger (putsource u L source) = ledger u ∧
        (putsource u L source).matchers = u.matchers := by
    cases source <;> exact ⟨rfl, rfl⟩
  unfold swap
  simp only
  generalize swapvalues faults (m.source.stack s) m.source.base m.source.narg
    (waiter.stack s) = both
  obtain ⟨same, matchers⟩ := placed s both.1 m.source
  rw [← matchers] at at_j
  cases waiter with
  | task t =>
    rw [← same]
    exact setstage_ledger (s := (putsource s both.1 m.source).setstack t both.2) at_j
      (by rw [stage]; rfl)
  | channel c L =>
    rw [← same]
    exact setstage_ledger at_j (by rw [stage]; rfl)

theorem send_ledger [DecidableEq C] {channels : Channels T C} {s : State T C} {j : ℕ}
    {m : Matcher T C} {c : C} {L : Stack} (at_j : s.matchers[j]? = some m)
    (stage : m.stage = .swapped c L) : ledger (send channels s j m c L) = ledger s := by
  have signalled : ledger (asyncsend s c L) = ledger s ∧
      (asyncsend s c L).matchers = s.matchers := by
    unfold asyncsend
    split_ifs <;> exact ⟨rfl, rfl⟩
  obtain ⟨same, matchers⟩ := signalled
  rw [← matchers] at at_j
  unfold send
  simp only
  rw [← same]
  split
  · exact setstage_ledger at_j (by rw [stage]; rfl)
  · exact setstage_ledger at_j (by rw [stage]; rfl)

theorem book_changes {s : State T C} {j : ℕ} {m : Matcher T C} {t : T}
    (balanced : Balanced (ledger s)) (at_j : s.matchers[j]? = some m) (stage : m.stage = .sent t) :
    Relation.ReflTransGen Change (ledger s) (ledger (book s j m t)) := by
  have emptied : (fun u => (Function.update s.chan t ⟨(s.chan t).wakes + 1, none⟩ u).L) =
      Function.update (view s).channeltask t none := by
    funext u
    by_cases here : u = t
    · subst u
      simp
    · simp [Function.update_of_ne here, view]
  unfold book
  simp only
  cases stored : (s.chan t).L with
  | none =>
    have same : Function.update (view s).channeltask t none = (view s).channeltask := by
      have before : (view s).channeltask t = none := stored
      rw [← before, Function.update_eq_self]
    have unchanged := atMatcher_set_same at_j (show Stage.task? .done = Stage.task? m.stage by
      rw [stage]; rfl)
    simp only [ledger, view] at emptied same ⊢
    simp only [State.note, State.setstage, State.setchan]
    rw [emptied, same, unchanged]
  | some u =>
    obtain rfl : u = t := balanced.distinct.own t u stored
    have held : (view s).Holds .channeltask u := stored
    have free : (view s).Free (.matcher j) := by
      change atMatcher s.matchers j = none
      simp [atMatcher, at_j, stage, Stage.task?]
    have moved := Change.move (l := ledger s) held free (by simp) (by simp)
    have taken := atMatcher_set at_j (.resuming u)
    simp only [ledger, View.remove, View.insert, ← emptied] at moved
    simp only [ledger, view] at moved ⊢
    simp only [State.note, State.setstage, State.setchan]
    rw [taken]
    exact .single moved

theorem resumetask_changes {s : State T C} {j : ℕ} {m : Matcher T C} {t : T} {created added : Bool}
    {w : ℕ} {pool : ThreadPool.State T} (at_j : s.matchers[j]? = some m)
    (stage : m.stage = .resuming t)
    (result : ThreadPool.addthread_mx s.pool t created w = some (added, pool)) :
    Relation.ReflTransGen Change (ledger s)
      (ledger (State.setstage { s with pool := pool } j m (if added then .done else .closing t))) := by
  have held : (view s).Holds (.matcher j) t := by
    change atMatcher s.matchers j = some t
    simp [atMatcher, at_j, stage, Stage.task?]
  obtain ⟨rfl, -, same⟩ | ⟨rfl, queue, task, draining, tasks, -⟩ := addthread_mx_tasks result
  · have kept := setstage_ledger (s := { s with pool := pool }) at_j
      (show Stage.task? (.closing t) = Stage.task? m.stage by rw [stage]; rfl)
    rw [ledger_same same] at kept
    simp only [Bool.false_eq_true, if_false]
    rw [kept]
  · have moved := Change.move (l := ledger s) (q := .queue) held trivial (by simp) (by simp)
    have freed := atMatcher_set at_j .done
    simp only [ledger, View.remove, View.insert] at moved
    simp only [ledger, view] at moved ⊢
    simp only [State.setstage, if_true]
    rw [freed, queue, task, draining, tasks]
    exact .single moved

theorem collect_changes {s : State T C} {j : ℕ} {m : Matcher T C} {t : T}
    (at_j : s.matchers[j]? = some m) (stage : m.stage = .closing t) :
    Change (ledger s) (ledger ((s.collect t).setstage j m .done)) := by
  have held : (view s).Holds (.matcher j) t := by
    change atMatcher s.matchers j = some t
    simp [atMatcher, at_j, stage, Stage.task?]
  have disposed := Change.dispose (l := ledger s) held (by simp)
  have freed := atMatcher_set at_j .done
  simp only [ledger, View.remove] at disposed
  simp only [ledger, view, State.setstage] at disposed ⊢
  simp only [State.collect]
  rw [freed]
  exact disposed

theorem closetask_changes {s : State T C} {i : ℕ} {t : T} (running : s.running i = some t)
    (job : s.job i = .closing) :
    Change (ledger s)
      (ledger ({ s with closed := s.closed ++ [t] }.setjob i (.returning false false))) := by
  have held := holds_worker running (by simp [job, Job.holds])
  have free : (view s).Free (.ended i) := by
    change slot Job.ended s.job s.pool.task i = none
    simp [slot, job, Job.ended]
  have closed := Change.close (l := ledger s) held free
  have cleared : slot Job.holds (Function.update s.job i (.returning false false))
      s.pool.task = _ := slot_setjob_clear rfl
  have filled : slot Job.ended (Function.update s.job i (.returning false false))
      s.pool.task = _ := slot_setjob
  have ended : (if Job.ended (.returning false false) then s.pool.task i else none) = some t :=
    running_task running
  rw [ended] at filled
  simp only [ledger, View.remove, View.insert] at closed
  simp only [ledger, view, State.setjob] at closed ⊢
  rw [cleared, filled]
  exact closed

theorem changes_of_eq {l l' : Ledger T} (same : l' = l) : Relation.ReflTransGen Change l l' := by
  rw [same]

variable [DecidableEq C]

structure Conserving (s : State T C) : Prop where
  quiet : Quiet s.pool
  balanced : Balanced (ledger s)

/-- Every step moves the tasks as the ledger allows. -/
theorem step_changes {channels : Channels T C} {s s' : State T C} {a : Act T C}
    (conserving : Conserving s) (stepped : Step channels s a s') :
    Relation.ReflTransGen Change (ledger s) (ledger s') := by
  cases stepped with
  | add fresh nonempty added => exact .single (add_changes fresh added)
  | lock kind stepped => exact lock_changes kind stepped
  | elsewhere kind free stepped => rw [ledger_same (elsewhere_tasks kind stepped)]
  | close kind free stepped =>
    exact close_changes conserving.balanced conserving.quiet.counted kind stepped
  | drain closer unused => exact .single (drain_changes closer)
  | resume running job =>
    exact changes_of_eq (ledger_setjob_same (s := s) .executing (by rw [job]; rfl)
      (by rw [job]; rfl))
  | yield running job =>
    rename_i below values
    exact changes_of_eq (ledger_setjob_same (s := s) (.yielded below.length)
      (by rw [job]; rfl) (by rw [job]; rfl))
  | ends running job =>
    exact changes_of_eq (ledger_setjob_same _ (by rw [job]; rfl) (by rw [job]; rfl))
  | closetask running job unused => exact .single (closetask_changes running job)
  | reject running job named checked =>
    exact changes_of_eq (ledger_setjob_same (s := s) (.freeing true) (by rw [job]; rfl)
      (by rw [job]; rfl))
  | wait running job named checked queue => exact .single (wait_changes running job queue)
  | found running job named checked queue =>
    rename_i i base t name endpoint L sync waiter
    have same : ledger ((s.setstack t L).setjob i (.freeing true)) = ledger s :=
      ledger_setjob_same (s := s) (.freeing true) (by rw [job]; rfl) (by rw [job]; rfl)
    rw [← same]
    exact match_changes (s := (s.setstack t L).setjob i (.freeing true)) queue
  | suspend running job unnamed => exact suspend_changes running job
  | free running job =>
    exact changes_of_eq (ledger_setjob_same _ (by rw [job]; rfl) (by rw [job]; simp [Job.ended]))
  | discard running job =>
    rename_i i base t enqueue
    exact changes_of_eq (ledger_setjob_same (s := s) (.returning enqueue true)
      (by rw [job]; rfl) (by rw [job]; simp [Job.ended]))
  | finish running job stepped => exact finish_changes running job stepped
  | arm syncs calls idle checked queue given =>
    rename_i thread c endpoint K L sync
    refine changes_of_eq (ledger_setsync_same (s := s) (channels.name c) sync ?_)
    rw [queue, List.filterMap_append]
    exact List.append_nil _
  | call syncs calls checked queue given => exact match_changes queue
  | refuse syncs calls queue => exact changes_of_eq (ledger_setsync_same _ _ (by rw [queue]))
  | cancel calls waits =>
    rename_i thread c L
    exact changes_of_eq (ledger_setsync_same (s := s) (channels.name c)
      (removestateq (s.sync (channels.name c)) (.channel c L))
      (filterMap_erase_channel _ c L))
  | process calls processed => exact changes_of_eq (onsynced_ledger processed)
  | swap at_j stage => exact changes_of_eq (swap_ledger at_j stage)
  | send at_j stage => exact changes_of_eq (send_ledger at_j stage)
  | book at_j stage => exact book_changes conserving.balanced at_j stage
  | resumetask at_j stage result => exact resumetask_changes at_j stage result
  | collect at_j stage unused => exact .single (collect_changes at_j stage)

theorem balanced_of_changes {l l' : Ledger T} (changes : Relation.ReflTransGen Change l l')
    (balanced : Balanced l) : Balanced l' := by
  induction changes with
  | refl => exact balanced
  | tail _ change ih => exact change.balanced ih

omit [DecidableEq T] [DecidableEq C] in
theorem quiet_collect {pool : ThreadPool.State T} (quiet : Quiet pool)
    (closer : ThreadPool.Closer T) :
    Quiet (ThreadPool.collectthreadpool { pool with closer := closer }) :=
  quiet.congr rfl rfl rfl rfl rfl rfl rfl

/-- A step that is no section of the pool leaves the pool as it is. -/
theorem step_quiet {channels : Channels T C} {s s' : State T C} {a : Act T C}
    (quiet : Quiet s.pool) (stepped : Step channels s a s') : Quiet s'.pool := by
  cases stepped with
  | add fresh nonempty added =>
    exact quiet.step (show ThreadPool.step s.pool (.add _ _ _) = some _ from added)
  | lock kind stepped => exact quiet.step stepped
  | elsewhere kind free stepped => exact quiet.step stepped
  | close kind free stepped => exact quiet.step stepped
  | drain closer unused => exact quiet_collect quiet _
  | finish running job stepped => exact quiet.step stepped
  | resumetask at_j stage result => exact quiet.addthread_mx result
  | collect at_j stage unused => exact quiet_collect quiet s.pool.closer
  | resume running job => exact quiet
  | yield running job => exact quiet
  | ends running job => exact quiet
  | closetask running job unused => exact quiet
  | reject running job named checked => exact quiet
  | wait running job named checked queue => exact quiet
  | found running job named checked queue =>
    rw [startMatch_frame]
    exact quiet
  | suspend running job unnamed =>
    rw [suspendedchtask_frame]
    exact quiet
  | free running job => exact quiet
  | discard running job => exact quiet
  | arm syncs calls idle checked queue given => exact quiet
  | call syncs calls checked queue given =>
    rw [startMatch_frame]
    exact quiet
  | refuse syncs calls queue => exact quiet
  | cancel calls waits => exact quiet
  | process calls processed =>
    rw [onsynced_frame processed]
    exact quiet
  | swap at_j stage =>
    rw [swap_frame]
    exact quiet
  | send at_j stage =>
    rw [send_frame]
    exact quiet
  | book at_j stage =>
    rw [book_frame]
    exact quiet

theorem Conserving.step {channels : Channels T C} {s s' : State T C} {a : Act T C}
    (conserving : Conserving s) (stepped : step channels s a = some s') : Conserving s' :=
  ⟨step_quiet conserving.quiet (step_cases stepped),
    balanced_of_changes (step_changes conserving (step_cases stepped)) conserving.balanced⟩

omit [DecidableEq T] [DecidableEq C] in
theorem initial_empty (p : Place) (t : T) : ¬(view (initial : State T C)).Holds p t := by
  intro held
  cases p with
  | queue => cases held
  | worker i => cases held
  | ended i => cases held
  | sync name => cases held
  | channeltask => cases held
  | matcher j => cases held
  | closer => cases held

omit [DecidableEq T] [DecidableEq C] in
theorem conserving_initial : Conserving (initial : State T C) := by
  refine ⟨quiet_createtpool, ⟨⟨List.nodup_nil, fun _ => List.nodup_nil, List.nodup_nil, ?_⟩,
    ?_, ?_, ?_, List.nodup_nil, List.nodup_nil, ?_, rfl⟩⟩
  · intro t u stored
    cases stored
  · intro p q t held
    exact absurd held (initial_empty p t)
  · intro t
    constructor
    · rintro ⟨p, held⟩
      exact absurd held (initial_empty p t)
    · rintro ⟨added, -⟩
      cases added
  · intro t
    constructor
    · intro closed
      cases closed
    · rintro (accounted | ⟨i, held⟩)
      · cases accounted
      · exact absurd held (initial_empty (.ended i) t)
  · intro t accounted
    cases accounted

theorem run_conserving {channels : Channels T C} {s : State T C} {acts : List (Act T C)}
    (ran : run (TaskSystem.step channels) initial acts = some s) : Conserving s :=
  run_invariant Conserving (fun _ _ _ conserving stepped => conserving.step stepped)
    conserving_initial ran

/-- The task was added and its state is not closed. -/
def Live (s : State T C) (t : T) : Prop :=
  t ∈ s.added ∧ t ∉ s.closed

/-- Whenever the mutex is free, the counters of the pool count what they are named after, the
end of a task is accounted once, and a live task is in one place. -/
theorem task_conservation {channels : Channels T C} {s : State T C} {acts : List (Act T C)}
    (ran : run (step channels) initial acts = some s) :
    s.pool.pool.pending = s.pool.pool.queue.length ∧
    s.pool.pool.running = s.pool.count .running ∧
    s.pool.pool.idle =
      s.pool.count .waiting + s.pool.count .signalled + s.pool.count .spurious ∧
    s.pool.pool.threads = s.pool.workers.countP (fun phase => phase.kind ≠ .ended) ∧
    s.pool.pool.tasks = (s.added.filter (· ∉ s.accounted)).length ∧
    s.accounted.Nodup ∧ (∀ t ∈ s.accounted, t ∈ s.closed) ∧
    (∀ t ∈ s.closed, t ∉ s.accounted → ∃! i, (view s).Holds (.ended i) t) ∧
    (∀ t, Live s t → ∃! p, (view s).Holds p t) ∧
    (∀ i k t, (view s).Holds (.worker i) t → (view s).Holds (.worker k) t → i = k) ∧
    (∀ t u, (s.chan t).L = some u → u = t) ∧
    s.pool.pool.queue.Nodup ∧ s.pool.draining.Nodup ∧ ∀ name, ((view s).sync name).Nodup := by
  obtain ⟨quiet, balanced⟩ := run_conserving ran
  have counted := quiet.counted
  refine ⟨counted.pending, counted.running, counted.idle, counted.threads_eq, balanced.tasks_eq,
    balanced.accounted, fun t accounted => (balanced.ended t).mpr (Or.inl accounted),
    fun t closed owed => ?_, fun t live => ?_, fun i k t first second => ?_,
    balanced.distinct.own, balanced.distinct.queue, balanced.distinct.closer,
    balanced.distinct.sync⟩
  · obtain accounted | ⟨i, held⟩ := (balanced.ended t).mp closed
    · exact absurd accounted owed
    · refine ⟨i, held, fun k other => ?_⟩
      cases balanced.unique (.ended k) (.ended i) t other held
      rfl
  · have unaccounted : t ∉ s.accounted :=
      fun accounted => live.2 ((balanced.ended t).mpr (Or.inl accounted))
    exact balanced.unique.exists_unique ((balanced.placed t).mpr ⟨live.1, unaccounted⟩)
  · cases balanced.unique (.worker i) (.worker k) t first second
    rfl

/-- A task that a worker took from the queue. -/
theorem task_conservation_fetched :
    ∃ s : State ℕ ℕ,
      run (step ⟨fun _ => "jobs", fun _ => none⟩) initial
        [.resize 1 true 1 0, .add 7 [.object "function" 0] true 0, .lock 0 0] = some s ∧
      (view s).Holds (.worker 0) 7 ∧ Live s 7 ∧ ∃! p, (view s).Holds p 7 := by
  have ran : run (step (⟨fun _ => "jobs", fun _ => none⟩ : Channels ℕ ℕ)) initial
      [.resize 1 true 1 0, .add 7 [.object "function" 0] true 0, .lock 0 0] = some _ := rfl
  refine ⟨_, ran, rfl, ⟨by decide, by decide⟩, ?_⟩
  exact (task_conservation ran).2.2.2.2.2.2.2.2.1 7 ⟨by decide, by decide⟩

end Coutil.TaskConservation
