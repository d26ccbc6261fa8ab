import Coutil.ChannelSuspension
import Coutil.TaskHandover

set_option autoImplicit false

/-! Nobody reads or changes the stack of a task that any thread may take: with another stack
every step does the same. -/
namespace Coutil.TaskPublication
open Runs ChannelSync Exchange TaskSystem TaskSteps TaskLedger TaskConservation ChannelTask
open TaskHandover ChannelSuspension

variable {T C : Type} [DecidableEq T] {s : State T C} {t u : T} {x : Stack}

theorem setstack_stack (other : u ≠ t) : (s.setstack t x).stack u = s.stack u := by
  simp only [State.setstack, Function.update_of_ne other]

theorem setstack_comm (other : u ≠ t) (y : Stack) :
    (s.setstack t x).setstack u y = (s.setstack u y).setstack t x := by
  simp only [State.setstack, Function.update_comm (Ne.symm other)]

theorem resume_setstack (other : u ≠ t) (i : ℕ) :
    resume (s.setstack t x) i u = (resume s i u).setstack t x := by
  unfold resume
  simp only [setstack_stack other]
  exact congrArg (fun v => State.setjob v i .executing) (setstack_comm (s := { s with
    started := Function.update s.started u true }) other _)

theorem yielding_setstack (other : u ≠ t) (i : ℕ) (below values : Stack) :
    yielding (s.setstack t x) i u below values = (yielding s i u below values).setstack t x :=
  congrArg (fun v => State.setjob v i (.yielded below.length)) (setstack_comm (s := { s with
    below := Function.update s.below u below }) other _)

theorem startMatch_setstack (channels : Channels T C) (thread : Option ℕ) (source : Source T)
    (waiter : Waiter T C) :
    startMatch channels (s.setstack t x) thread source waiter =
      (startMatch channels s thread source waiter).setstack t x := by
  cases waiter with
  | task v => rfl
  | channel c L =>
    simp only [startMatch, noteMatch]
    split <;> rfl

theorem suspendedchtask_setstack (other : u ≠ t) (i base : ℕ) :
    suspendedchtask (s.setstack t x) i u base = (suspendedchtask s i u base).setstack t x := by
  have same : stores (s.setstack t x) u base = stores s u base := by
    simp only [stores, setstack_stack other]
    rfl
  unfold suspendedchtask
  rw [same]
  by_cases stored : stores s u base
  · rw [if_pos stored, if_pos stored]
    rfl
  · rw [if_neg stored, if_neg stored]
    rfl

theorem matchtask_setstack (channels : Channels T C) (other : u ≠ t) (i base : ℕ) (name : String)
    (endpoint : Endpoint) (L : Stack) :
    matchtask channels (s.setstack t x) i u name endpoint L base =
      (matchtask channels s i u name endpoint L base).map fun v => v.setstack t x := by
  have same : (s.setstack t x).sync name = s.sync name := rfl
  unfold matchtask
  rw [same]
  cases matchchsync (s.sync name) endpoint (some (.task u)) with
  | mk sync answer =>
    have touched (y : Stack) (job : Job) :
        (((s.setstack t x).setsync name sync).setstack u y).setjob i job =
          (((s.setsync name sync).setstack u y).setjob i job).setstack t x :=
      congrArg (fun v => State.setjob v i job) (setstack_comm (s := s.setsync name sync) other y)
    cases answer with
    | waits => exact congrArg some (touched _ _)
    | matched found =>
      simp only [touched, startMatch_setstack, Option.map_some]
    | refused => rfl

theorem handle_setstack (channels : Channels T C) (other : u ≠ t) (i base : ℕ) :
    handle channels (s.setstack t x) i u base =
      (handle channels s i u base).map fun v => v.setstack t x := by
  unfold handle
  rw [setstack_stack other]
  cases (s.stack u)[base]?.bind Value.tostring with
  | none => exact congrArg some (suspendedchtask_setstack other i base)
  | some name =>
    simp only [syncname, setstack_stack other]
    cases checksyncargs ((s.stack u).set base (.string name)) (base + 2) with
    | none => rfl
    | some checked =>
      obtain ⟨endpoint, L⟩ := checked
      cases endpoint with
      | none =>
        exact congrArg (fun v => some (State.setjob v i (.freeing true))) (setstack_comm other _)
      | some endpoint => exact matchtask_setstack channels other i base name endpoint L

/-- The step reads or changes the stack of the task that worker `i` runs. -/
def Act.stacks : Act T C → Option ℕ
  | .resume i => some i
  | .yield i _ _ => some i
  | .handle i => some i
  | .discard i => some i
  | _ => none

theorem work_setstack (channels : Channels T C) {i : ℕ} {a : Act T C} (worker : a.worker = some i)
    (apart : Act.stacks a = some i → u ≠ t) [DecidableEq C] (job : Job) :
    work channels (s.setstack t x) i u job a =
      (work channels s i u job a).map fun v => v.setstack t x := by
  cases a with
  | resume k =>
    cases worker
    cases job with
    | fetched => exact congrArg some (resume_setstack (apart rfl) i)
    | _ => rfl
  | yield k below values =>
    cases worker
    cases job with
    | executing => exact congrArg some (yielding_setstack (apart rfl) i below values)
    | _ => rfl
  | ends k => cases job <;> rfl
  | closetask k =>
    cases job with
    | closing =>
      have same : (s.setstack t x).unused channels u = s.unused channels u := rfl
      simp only [work, same]
      split_ifs <;> rfl
    | _ => rfl
  | handle k =>
    cases worker
    cases job with
    | yielded base => exact handle_setstack channels (apart rfl) i base
    | _ => rfl
  | free k => cases job <;> rfl
  | discard k =>
    cases worker
    cases job with
    | discarding base enqueue =>
      simp only [work, setstack_stack (apart rfl), Option.map_some]
      exact congrArg (fun v => some (State.setjob v i (.returning enqueue true)))
        (setstack_comm (apart rfl) _)
    | _ => rfl
  | finish k w =>
    cases job with
    | returning enqueue yielded =>
      have same : (s.setstack t x).pool = s.pool := rfl
      simp only [work, poolsection, same, Option.map_map]
      congr 1
      funext pool
      simp only [Function.comp]
      split_ifs <;> rfl
    | _ => rfl
  | _ => cases worker

/-- The task is of neither side of the match. -/
def Strange (t : T) (m : Matcher T C) : Prop :=
  ∀ waiter, m.stage = .taken waiter →
    TaskConservation.Waiter.task? waiter ≠ some t ∧ ∀ base n, m.source ≠ .task t base n

theorem swap_setstack {m : Matcher T C} {waiter : Waiter T C} (taken : m.stage = .taken waiter)
    (strange : Strange t m) (j : ℕ) (faults : Faults) :
    swap (s.setstack t x) j m waiter faults = (swap s j m waiter faults).setstack t x := by
  obtain ⟨hand, source⟩ := strange waiter taken
  have from_source : m.source.stack (s.setstack t x) = m.source.stack s := by
    cases same : m.source with
    | task v base n =>
      have other : v ≠ t := fun mine => source base n (by rw [same, mine])
      exact setstack_stack other
    | caller L base n => rfl
  have from_waiter : waiter.stack (s.setstack t x) = waiter.stack s := by
    cases waiter with
    | task v =>
      have other : v ≠ t := fun mine => hand (by rw [mine]; rfl)
      exact setstack_stack other
    | channel c L => rfl
  have put_source (y : Stack) :
      putsource (s.setstack t x) y m.source = (putsource s y m.source).setstack t x := by
    cases same : m.source with
    | task v base n =>
      have other : v ≠ t := fun mine => source base n (by rw [same, mine])
      exact setstack_comm other y
    | caller L base n => rfl
  unfold swap
  simp only [from_source, from_waiter, put_source]
  cases waiter with
  | task v =>
    have other : v ≠ t := fun mine => hand (by rw [mine]; rfl)
    simp only [putmatch, setstack_comm other]
    rfl
  | channel c L => rfl

variable [DecidableEq C]

theorem send_setstack (channels : Channels T C) (j : ℕ) (m : Matcher T C) (c : C) (L : Stack) :
    send channels (s.setstack t x) j m c L = (send channels s j m c L).setstack t x := by
  have signalled : asyncsend (s.setstack t x) c L = (asyncsend s c L).setstack t x := by
    have same : (s.setstack t x).signals = s.signals := rfl
    simp only [asyncsend, same]
    split_ifs <;> rfl
  simp only [send, signalled]
  split <;> rfl

omit [DecidableEq C] in
theorem book_setstack (j : ℕ) (m : Matcher T C) (v : T) :
    book (s.setstack t x) j m v = (book s j m v).setstack t x := by
  have same : (s.setstack t x).chan v = s.chan v := rfl
  simp only [book, same]
  split <;> rfl

theorem proceed_setstack (channels : Channels T C) {j : ℕ} {m : Matcher T C} {a : Act T C}
    (matcher : a.matcher = some j) (strange : Strange t m) :
    proceed channels (s.setstack t x) j m m.stage a =
      (proceed channels s j m m.stage a).map fun v => v.setstack t x := by
  cases a with
  | swap k faults =>
    cases matcher
    cases stage : m.stage with
    | taken waiter => exact congrArg some (swap_setstack stage strange j faults)
    | _ => rfl
  | send k =>
    cases matcher
    cases stage : m.stage with
    | swapped c L => exact congrArg some (send_setstack channels j m c L)
    | _ => rfl
  | book k =>
    cases matcher
    cases stage : m.stage with
    | sent v => exact congrArg some (book_setstack j m v)
    | _ => rfl
  | resumetask k created w =>
    cases matcher
    cases stage : m.stage with
    | resuming v =>
      have same : (s.setstack t x).pool = s.pool := rfl
      simp only [proceed, resumetask, same, Option.map_map]
      congr 1
      funext added
      simp only [Function.comp]
      split_ifs <;> rfl
    | _ => rfl
  | collect k =>
    cases matcher
    cases stage : m.stage with
    | closing v =>
      have same : (s.setstack t x).unused channels v = s.unused channels v := rfl
      simp only [proceed, same]
      split_ifs <;> rfl
    | _ => rfl
  | _ => cases matcher

omit [DecidableEq C] in
theorem channelsync_setstack (channels : Channels T C) (thread : Option ℕ) (c : C) (L : Stack)
    (waits : Bool) :
    channelsync channels (s.setstack t x) thread c L waits =
      (channelsync channels s thread c L waits).map fun v => v.setstack t x := by
  have same : (s.setstack t x).sync (channels.name c) = s.sync (channels.name c) := rfl
  unfold channelsync
  split
  · rename_i endpoint K checked
    simp only [same]
    cases matchchsync (s.sync (channels.name c)) endpoint
        (if waits then some (.channel c (armsynced K)) else none) with
    | mk sync answer =>
      cases answer with
      | waits => rfl
      | matched found =>
        exact congrArg some (startMatch_setstack (s := s.setsync (channels.name c) sync) channels
          thread (.caller K 1 (K.length - 2)) found)
      | refused => rfl
  · rfl

theorem other_setstack (channels : Channels T C) {a : Act T C}
    (fresh : ∀ v L created w, a = .add v L created w → v ∉ s.added → v ≠ t) :
    other channels (s.setstack t x) a = (other channels s a).map fun v => v.setstack t x := by
  have pool : (s.setstack t x).pool = s.pool := rfl
  have sectioned (i : ℕ) (act : ThreadPool.Act T) : poolsection (s.setstack t x) i act =
      (poolsection s i act).map fun v => v.setstack t x := by
    simp only [poolsection, pool, Option.map_map]
    rfl
  have moved (act : ThreadPool.Act T) : elsewhere (s.setstack t x) act =
      (elsewhere s act).map fun v => v.setstack t x := by
    simp only [elsewhere, pool, Option.map_map]
    rfl
  have calls (thread : Option ℕ) (c : C) :
      (s.setstack t x).calls channels thread c = s.calls channels thread c := rfl
  have armed : (s.setstack t x).armed = s.armed := rfl
  cases a with
  | add v L created w =>
    have added : (s.setstack t x).added = s.added := rfl
    simp only [other, addtask, pool, added]
    split_ifs with bad
    · rfl
    · have distinct : v ≠ t := fresh v L created w rfl fun old => bad (Or.inl old)
      simp only [Option.map_map]
      congr 1
      funext after
      simp only [Function.comp, State.setstack, Function.update_comm (Ne.symm distinct)]
  | lock i w =>
    simp only [other, lock, pool]
    split
    · exact sectioned i (.start i w)
    · exact sectioned i (.relock i w)
  | awake i => exact moved (.awake i)
  | resize size create created w => exact moved (.resize size create created w)
  | close => exact moved .close
  | closeagain => exact moved .closeagain
  | closeawake => exact moved .closeawake
  | drain =>
    simp only [other, drain, pool]
    split
    · rename_i v queue closer
      have same : (s.setstack t x).unused channels v = s.unused channels v := rfl
      simp only [same]
      split_ifs <;> rfl
    · rfl
  | awaitch thread c L prepared =>
    simp only [other, calls, armed]
    split_ifs
    · exact channelsync_setstack channels thread c L prepared
    · rfl
  | trysync thread c L =>
    simp only [other, calls]
    split_ifs
    · exact channelsync_setstack channels thread c L false
    · rfl
  | cancel thread c =>
    have sync : (s.setstack t x).sync = s.sync := rfl
    simp only [other, calls, cancel, sync]
    split_ifs
    · simp only [Option.map_map]
      rfl
    · rfl
  | process thread c =>
    have signals : (s.setstack t x).signals = s.signals := rfl
    simp only [other, calls, onsynced, signals]
    split_ifs
    · simp only [Option.map_map]
      congr 1
      funext signal
      simp only [Function.comp]
      split <;> rfl
    · rfl
  | _ => rfl

/-- A step that is not of the thread that has the task does the same with any stack of it. -/
theorem step_setstack (channels : Channels T C) {a : Act T C}
    (worker : ∀ i, Act.stacks a = some i → s.running i ≠ some t)
    (matcher : ∀ j m, a.matcher = some j → s.matchers[j]? = some m → Strange t m)
    (fresh : ∀ v L created w, a = .add v L created w → v ∉ s.added → v ≠ t) :
    step channels (s.setstack t x) a = (step channels s a).map fun v => v.setstack t x := by
  unfold step
  cases worked : a.worker with
  | some i =>
    have same : (s.setstack t x).running i = s.running i := rfl
    have job : (s.setstack t x).job i = s.job i := rfl
    simp only [same, job]
    cases running : s.running i with
    | none => rfl
    | some v =>
      refine work_setstack channels worked (fun acts => ?_) (s.job i)
      rintro rfl
      exact worker i acts running
  | none =>
    cases matched : a.matcher with
    | none => exact other_setstack channels fresh
    | some j =>
      have same : (s.setstack t x).matchers = s.matchers := rfl
      simp only [same]
      cases at_j : s.matchers[j]? with
      | none => rfl
      | some m => exact proceed_setstack channels matched (matcher j m matched at_j)

/-- The task is where any thread may take it. -/
def Published (s : State T C) (t : T) : Prop :=
  t ∈ s.pool.pool.queue ∨ (∃ name, .task t ∈ (s.sync name).queue) ∨ (s.chan t).L = some t

/-- Every task that is published has its stack as the thread that takes it relies on, no step
reads or changes that stack, and a task that is resumed gets the values that were left for it. -/
structure HandedOver (channels : Channels T C) (s : State T C) : Prop where
  queued : ∀ t ∈ s.pool.pool.queue, Loaded s t
  waiting : ∀ name t, .task t ∈ (s.sync name).queue → Offered s t
  stored : ∀ t, (s.chan t).L = some t → Returning s t
  untouched : ∀ t a s' x, Published s t → step channels s a = some s' →
    step channels (s.setstack t x) a = some (s'.setstack t x)
  passed : ∀ i t s', s.running i = some t → s.started t → step channels s (.resume i) = some s' →
    ∃ values, s.stack t = s.below t ++ values ++ [.integer values.length] ∧
      s'.stack t = s.below t

omit [DecidableEq T] [DecidableEq C] in
theorem Published.holds (published : Published s t) :
    ∃ p, (view s).Holds p t ∧ (∀ i, p ≠ .worker i) ∧ ∀ j, p ≠ .matcher j := by
  obtain queued | ⟨name, waits⟩ | stored := published
  · exact ⟨.queue, queued, by simp, by simp⟩
  · exact ⟨.sync name, holds_sync waits, by simp, by simp⟩
  · exact ⟨.channeltask, stored, by simp, by simp⟩

omit [DecidableEq T] [DecidableEq C] in
theorem stacks_worker {a : Act T C} {i : ℕ} (acts : Act.stacks a = some i) :
    a.worker = some i ∧ a.syncs = none := by
  cases a with
  | resume k => exact ⟨acts, rfl⟩
  | yield k below values => exact ⟨acts, rfl⟩
  | handle k => exact ⟨acts, rfl⟩
  | discard k => exact ⟨acts, rfl⟩
  | _ => cases acts

/-- A worker that does something to the stack of its task holds the task. -/
theorem stacks_holds {channels : Channels T C} {s' : State T C} {a : Act T C} {i : ℕ}
    (handover : Handover s) (acts : Act.stacks a = some i)
    (stepped : Step channels s a s') : Job.holds (s.job i) := by
  cases stepped with
  | resume busy job =>
    cases acts
    simp [job, Job.holds]
  | yield busy job =>
    cases acts
    simp [job, Job.holds]
  | reject busy job named checked =>
    cases acts
    simp [job, Job.holds]
  | wait busy job named checked queue =>
    cases acts
    simp [job, Job.holds]
  | found busy job named checked queue =>
    cases acts
    simp [job, Job.holds]
  | suspend busy job unnamed =>
    cases acts
    simp [job, Job.holds]
  | discard busy job =>
    rename_i base v enqueue
    cases acts
    cases enqueue with
    | true => simp [job, Job.holds]
    | false => exact absurd job (handover.kept i base)
  | elsewhere kind free stepped => cases (stacks_worker acts).1.symm.trans free.1
  | close kind free stepped => cases (stacks_worker acts).1.symm.trans free.1
  | arm syncs calls idle checked queue given => cases (stacks_worker acts).2.symm.trans syncs
  | call syncs calls checked queue given => cases (stacks_worker acts).2.symm.trans syncs
  | refuse syncs calls queue => cases (stacks_worker acts).2.symm.trans syncs
  | _ => cases acts

theorem untouched {channels : Channels T C} {s' : State T C} {a : Act T C}
    (handover : Handover s) (balanced : Balanced (ledger s)) (published : Published s t)
    (stepped : step channels s a = some s') (x : Stack) :
    step channels (s.setstack t x) a = some (s'.setstack t x) := by
  obtain ⟨p, held, worker, matcher⟩ := published.holds
  rw [step_setstack channels, stepped, Option.map_some]
  · intro i acts running
    have holds := stacks_holds handover acts (step_cases stepped)
    exact worker i (balanced.unique p (.worker i) t held
      (holds_task (running_task running) holds))
  · intro j m _ at_j waiter taken
    have staged := handover.staged m (List.mem_of_getElem? at_j)
    simp only [Staged, taken] at staged
    refine ⟨fun mine => ?_, fun base n source => ?_⟩
    · refine matcher j (balanced.unique p (.matcher j) t held (holds_matcher at_j ?_))
      cases waiter with
      | task v => rw [taken]; exact mine
      | channel c L => cases mine
    · have sourced := staged.2
      rw [source] at sourced
      obtain ⟨-, -, i, -, task, job⟩ := sourced
      exact worker i (balanced.unique p (.worker i) t held
        (holds_task task (by simp [job, Job.holds])))
  · rintro v L created w rfl fresh rfl
    exact fresh ((balanced.placed v).mp ⟨p, held⟩).1

theorem passed {channels : Channels T C} {s' : State T C} {i : ℕ}
    (handover : Handover s) (running : s.running i = some t) (started : s.started t)
    (stepped : step channels s (.resume i) = some s') :
    ∃ values, s.stack t = s.below t ++ values ++ [.integer values.length] ∧
      s'.stack t = s.below t := by
  cases step_cases stepped with
  | resume busy job =>
    obtain rfl := Option.some.inj (running.symm.trans busy)
    have loaded := handover.worked i t (running_task running)
    rw [job] at loaded
    have left := Loaded.resumed (i := i) loaded started
    change Loaded s t at loaded
    rw [Loaded, if_pos started] at loaded
    obtain ⟨values, same⟩ := loaded
    exact ⟨values, same, left⟩
  | elsewhere kind free stepped => cases free.1
  | close kind free stepped => cases free.1
  | arm syncs calls idle checked queue given => cases syncs
  | call syncs calls checked queue given => cases syncs
  | refuse syncs calls queue => cases syncs

/-- In a run where no task is stored in its channel task the hand-over of every task is
complete before the task is published; and a task that is stored when `system.run` suspends it
is published with its stack not ready. -/
theorem handover_complete {channels : Channels T C} {acts : List (Act T C)}
    (ran : run (step channels) initial acts = some s) :
    (Along (step channels) Unstored initial acts → HandedOver channels s) ∧
    ∀ i base t s', s.running i = some t → s.job i = .yielded base → stores s t base →
      s.stack t = s.below t ++ [.channeltask] → step channels s (.handle i) = some s' →
      ¬HandedOver channels s' := by
  refine ⟨fun along => ?_, fun i base t s' running job stored stack stepped handed => ?_⟩
  · obtain ⟨conserving, handover⟩ := run_handover along ran
    have balanced := conserving.balanced
    refine ⟨handover.queued, fun name t waits => handover.waiting name _ waits,
      fun t stored => ?_, fun t a s' x published stepped => ?_,
      fun i t s' running started stepped => passed handover running started stepped⟩
    · cases (handover.unstored t).symm.trans stored
    · exact untouched handover balanced published stepped x
  · have yielded : (s.stack t)[base]? = some .channeltask := by
      simp only [stores, decide_eq_true_eq] at stored
      exact stored.1
    have unnamed : (s.stack t)[base]?.bind Value.tostring = none := by
      rw [yielded]
      rfl
    have suspends : step channels s (.handle i) = some (suspendedchtask s i t base) := by
      simp only [step, Act.worker, running, job, work, handle, unnamed, Option.bind_some]
    obtain rfl := Option.some.inj (suspends.symm.trans stepped)
    rw [suspendedchtask, if_pos stored] at handed
    have ready := (handed.stored t (by simp [State.setjob, State.note, State.setchan])).2
    change Ready (s.below t) (s.stack t) at ready
    obtain ⟨values, same⟩ := ready
    have last := congrArg List.getLast? (stack.symm.trans same)
    simp at last

/-- Task 7 goes on because it was matched before it is suspended, and task 8 is in the queue. -/
theorem handover_complete_matched :
    ∃ s : State ℕ ℕ,
      run (step sample) initial (sampleMatch ++ [.book 0, .yield 0 [] [.channeltask],
        .add 8 [.object "function" 0, .nil] true 0, .handle 0]) = some s ∧
      8 ∈ s.pool.pool.queue ∧ HandedOver sample s := by
  have ran : run (step sample) initial (sampleMatch ++ [.book 0, .yield 0 [] [.channeltask],
    .add 8 [.object "function" 0, .nil] true 0, .handle 0]) = some _ := rfl
  refine ⟨_, ran, by decide, (handover_complete ran).1 ?_⟩
  change Along _ _ _ ((sampleMatch ++ [.book 0, .yield 0 [] [.channeltask],
    .add 8 [.object "function" 0, .nil] true 0]) ++ [.handle 0])
  refine along_append (along_always fun a member u i base t handles => ?_) fun u before => ?_
  · rw [handles] at member
    simp [sampleMatch, sampleWait] at member
  · have reached := congrArg (Option.map fun v => (v.running 0, (v.chan 7).wakes)) before
    have counted : some (some 7, 1) = some (u.running 0, (u.chan 7).wakes) :=
      Eq.trans (by decide) reached
    obtain ⟨task, wakes⟩ := Prod.mk.inj (Option.some.inj counted)
    refine ⟨fun i base t handles running _ stored => ?_, fun _ _ => trivial⟩
    cases handles
    cases Option.some.inj (task.trans running)
    simp [stores, ← wakes] at stored

/-- Task 7 is stored with its channel task on its stack. -/
theorem handover_incomplete :
    ¬∀ acts (s : State ℕ ℕ), run (step sample) initial acts = some s → HandedOver sample s := by
  intro claim
  have ran : run (step sample) initial (sampleWait ++ [.yield 0 [] [.channeltask], .handle 0]) =
    some _ := rfl
  obtain ⟨values, same⟩ := ((claim _ _ ran).stored 7 (by decide)).2
  have last := congrArg List.getLast? same
  have stack := last.symm.trans (by decide : _ = some Value.channeltask)
  simp at stack

end Coutil.TaskPublication
