import Coutil.TaskSystem

set_option autoImplicit false

/-! The steps of the tasks and their channels, one by one: what each requires and what it
leaves. -/
namespace Coutil.TaskSteps
open Runs ChannelSync Exchange TaskSystem

variable {T C : Type} [DecidableEq T] [DecidableEq C]

theorem matchchsync_cases {S : Type} (sync : Sync S) (endpoint : Endpoint) (getstate : Option S) :
    (∃ sync' found, matchchsync sync endpoint getstate = (sync', .matched found) ∧
      sync.queue = found :: sync'.queue) ∨
    (∃ sync' state, matchchsync sync endpoint getstate = (sync', .waits) ∧
      getstate = some state ∧ sync'.queue = sync.queue ++ [state]) ∨
    (∃ sync', matchchsync sync endpoint getstate = (sync', .refused) ∧
      getstate = none ∧ sync'.queue = sync.queue) := by
  have suspended (sync' : Sync S) (same : sync'.queue = sync.queue) :
      (∃ sync'' state, sync'.suspend getstate = (sync'', .waits) ∧
        getstate = some state ∧ sync''.queue = sync.queue ++ [state]) ∨
      (∃ sync'', sync'.suspend getstate = (sync'', .refused) ∧
        getstate = none ∧ sync''.queue = sync.queue) := by
    cases getstate with
    | none => exact Or.inr ⟨_, rfl, rfl, same⟩
    | some state => exact Or.inl ⟨_, state, rfl, rfl, by simp [same]⟩
  cases queued : sync.queue with
  | nil =>
    simp only [matchchsync, queued]
    rw [queued] at suspended
    exact Or.inr (suspended (sync.expect endpoint) queued)
  | cons found queue =>
    simp only [matchchsync, queued]
    rw [queued] at suspended
    split_ifs
    · exact Or.inl ⟨_, found, rfl, rfl⟩
    · exact Or.inr (suspended sync queued)

/-- The sections of the pool that concern no task. -/
def Act.pooled : Act T C → Option (ThreadPool.Act T)
  | .awake i => some (.awake i)
  | .resize size create created w => some (.resize size create created w)
  | .close => some .close
  | .closeagain => some .closeagain
  | .closeawake => some .closeawake
  | _ => none

inductive Step (channels : Channels T C) (s : State T C) : Act T C → State T C → Prop
  | add {t : T} {L : Stack} {created : Bool} {w : ℕ} {pool : ThreadPool.State T}
      (fresh : t ∉ s.added) (nonempty : L ≠ [])
      (added : ThreadPool.addtpooltask s.pool t created w = some pool) :
      Step channels s (.add t L created w)
        { s with
          pool := pool
          stack := Function.update s.stack t L
          started := Function.update s.started t false
          added := s.added ++ [t] }
  | lock {i w : ℕ} {act : ThreadPool.Act T} {pool : ThreadPool.State T}
      (kind : act = .start i w ∨ act = .relock i w)
      (stepped : ThreadPool.step s.pool act = some pool) :
      Step channels s (.lock i w) ({ s with pool := pool }.setjob i .fetched)
  | elsewhere {a : Act T C} {act : ThreadPool.Act T} {pool : ThreadPool.State T}
      (kind : (∃ i, act = .awake i) ∨ act = .closeawake ∨
        ∃ size create created w, act = .resize size create created w)
      (free : a.worker = none ∧ Act.pooled a = some act)
      (stepped : ThreadPool.step s.pool act = some pool) :
      Step channels s a { s with pool := pool }
  | close {a : Act T C} {act : ThreadPool.Act T} {pool : ThreadPool.State T}
      (kind : act = .close ∨ act = .closeagain)
      (free : a.worker = none ∧ Act.pooled a = some act)
      (stepped : ThreadPool.step s.pool act = some pool) :
      Step channels s a { s with pool := pool }
  | drain {t : T} {queue : List T} (closer : s.pool.closer = .closing (t :: queue))
      (unused : s.unused channels t) :
      Step channels s .drain
        (State.collect { s with pool := { s.pool with closer := .closing queue } } t)
  | resume {i : ℕ} {t : T} (running : s.running i = some t) (job : s.job i = .fetched) :
      Step channels s (.resume i) (resume s i t)
  | yield {i : ℕ} {t : T} {below values : Stack} (running : s.running i = some t)
      (job : s.job i = .executing) :
      Step channels s (.yield i below values) (yielding s i t below values)
  | ends {i : ℕ} {t : T} (running : s.running i = some t) (job : s.job i = .executing) :
      Step channels s (.ends i) (s.setjob i .closing)
  | closetask {i : ℕ} {t : T} (running : s.running i = some t) (job : s.job i = .closing)
      (unused : s.unused channels t) :
      Step channels s (.closetask i)
        ({ s with closed := s.closed ++ [t] }.setjob i (.returning false false))
  | reject {i base : ℕ} {t : T} {name : String} {L : Stack} (running : s.running i = some t)
      (job : s.job i = .yielded base) (named : (s.stack t)[base]?.bind Value.tostring = some name)
      (checked : checksyncargs ((s.stack t).set base (.string name)) (base + 2) = some (none, L)) :
      Step channels s (.handle i) ((s.setstack t (reject L base)).setjob i (.freeing true))
  | wait {i base : ℕ} {t : T} {name : String} {endpoint : Endpoint} {L : Stack}
      {sync : Sync (Waiter T C)} (running : s.running i = some t) (job : s.job i = .yielded base)
      (named : (s.stack t)[base]?.bind Value.tostring = some name)
      (checked : checksyncargs ((s.stack t).set base (.string name)) (base + 2) =
        some (some endpoint, L))
      (queue : sync.queue = (s.sync name).queue ++ [.task t]) :
      Step channels s (.handle i)
        (((s.setsync name sync).setstack t (offer L base (L.length - base - 2))).setjob i
          (.freeing false))
  | found {i base : ℕ} {t : T} {name : String} {endpoint : Endpoint} {L : Stack}
      {sync : Sync (Waiter T C)} {waiter : Waiter T C} (running : s.running i = some t)
      (job : s.job i = .yielded base) (named : (s.stack t)[base]?.bind Value.tostring = some name)
      (checked : checksyncargs ((s.stack t).set base (.string name)) (base + 2) =
        some (some endpoint, L))
      (queue : (s.sync name).queue = waiter :: sync.queue) :
      Step channels s (.handle i)
        (startMatch channels (((s.setsync name sync).setstack t L).setjob i (.freeing true))
          (some i) (.task t base (L.length - base - 2)) waiter)
  | suspend {i base : ℕ} {t : T} (running : s.running i = some t) (job : s.job i = .yielded base)
      (unnamed : (s.stack t)[base]?.bind Value.tostring = none) :
      Step channels s (.handle i) (suspendedchtask s i t base)
  | free {i : ℕ} {t : T} {enqueue : Bool} (running : s.running i = some t)
      (job : s.job i = .freeing enqueue) :
      Step channels s (.free i) (s.setjob i (.returning enqueue true))
  | discard {i base : ℕ} {t : T} {enqueue : Bool} (running : s.running i = some t)
      (job : s.job i = .discarding base enqueue) :
      Step channels s (.discard i)
        ((s.setstack t (settop (s.stack t) base ++ [.integer 0])).setjob i
          (.returning enqueue true))
  | finish {i w : ℕ} {t : T} {enqueue yielded : Bool} {pool : ThreadPool.State T}
      (running : s.running i = some t) (job : s.job i = .returning enqueue yielded)
      (stepped : ThreadPool.step s.pool (.finish i enqueue yielded w) = some pool) :
      Step channels s (.finish i w)
        ({ s with
          pool := pool
          accounted := if enqueue ∨ yielded then s.accounted else s.accounted ++ [t] }.setjob i
            .fetched)
  | arm {a : Act T C} {thread : Option ℕ} {c : C} {endpoint : Endpoint} {K L : Stack}
      {sync : Sync (Waiter T C)} (syncs : a.syncs = some (thread, c))
      (calls : s.calls channels thread c) (idle : c ∉ s.armed)
      (checked : checksyncargs K 2 = some (some endpoint, L))
      (queue : sync.queue = (s.sync (channels.name c)).queue ++ [.channel c (armsynced L)])
      (given : K ≠ []) :
      Step channels s a
        { s.setsync (channels.name c) sync with armed := s.armed ++ [c] }
  | call {a : Act T C} {thread : Option ℕ} {c : C} {endpoint : Endpoint} {K L : Stack}
      {sync : Sync (Waiter T C)} {waiter : Waiter T C} (syncs : a.syncs = some (thread, c))
      (calls : s.calls channels thread c)
      (checked : checksyncargs K 2 = some (some endpoint, L))
      (queue : (s.sync (channels.name c)).queue = waiter :: sync.queue) (given : K ≠ []) :
      Step channels s a
        (startMatch channels (s.setsync (channels.name c) sync) thread
          (.caller L 1 (L.length - 2)) waiter)
  | refuse {a : Act T C} {thread : Option ℕ} {c : C} {sync : Sync (Waiter T C)}
      (syncs : a.syncs = some (thread, c)) (calls : s.calls channels thread c)
      (queue : sync.queue = (s.sync (channels.name c)).queue) :
      Step channels s a (s.setsync (channels.name c) sync)
  | cancel {thread : Option ℕ} {c : C} {L : Stack} (calls : s.calls channels thread c)
      (waits : .channel c L ∈ (s.sync (channels.name c)).queue) :
      Step channels s (.cancel thread c)
        { s.setsync (channels.name c)
            (removestateq (s.sync (channels.name c)) (.channel c L)) with
          armed := s.armed.erase c }
  | process {thread : Option ℕ} {c : C} {u : State T C} (calls : s.calls channels thread c)
      (processed : onsynced channels s c = some u) :
      Step channels s (.process thread c) u
  | swap {j : ℕ} {m : Matcher T C} {waiter : Waiter T C} {faults : Faults}
      (at_j : s.matchers[j]? = some m) (stage : m.stage = .taken waiter) :
      Step channels s (.swap j faults) (swap s j m waiter faults)
  | send {j : ℕ} {m : Matcher T C} {c : C} {L : Stack} (at_j : s.matchers[j]? = some m)
      (stage : m.stage = .swapped c L) :
      Step channels s (.send j) (send channels s j m c L)
  | book {j : ℕ} {m : Matcher T C} {t : T} (at_j : s.matchers[j]? = some m)
      (stage : m.stage = .sent t) :
      Step channels s (.book j) (book s j m t)
  | resumetask {j : ℕ} {m : Matcher T C} {t : T} {created added : Bool} {w : ℕ}
      {pool : ThreadPool.State T} (at_j : s.matchers[j]? = some m) (stage : m.stage = .resuming t)
      (result : ThreadPool.addthread_mx s.pool t created w = some (added, pool)) :
      Step channels s (.resumetask j created w)
        (State.setstage { s with pool := pool } j m (if added then .done else .closing t))
  | collect {j : ℕ} {m : Matcher T C} {t : T} (at_j : s.matchers[j]? = some m)
      (stage : m.stage = .closing t) (unused : s.unused channels t) :
      Step channels s (.collect j) ((s.collect t).setstage j m .done)

theorem handle_cases {channels : Channels T C} {s s' : State T C} {i base : ℕ} {t : T}
    (running : s.running i = some t) (job : s.job i = .yielded base)
    (handled : handle channels s i t base = some s') : Step channels s (.handle i) s' := by
  unfold handle at handled
  split at handled
  · rename_i name named
    obtain ⟨⟨endpoint, L⟩, checked, handled⟩ := Option.bind_eq_some_iff.mp handled
    cases endpoint with
    | none =>
      cases Option.some.inj handled
      exact .reject running job named checked
    | some endpoint =>
      simp only [matchtask] at handled
      obtain ⟨sync, found, result, queue⟩ | ⟨sync, state, result, getstate, queue⟩ |
        ⟨sync, result, getstate, queue⟩ :=
        matchchsync_cases (s.sync name) endpoint (some (.task t))
      · rw [result] at handled
        cases Option.some.inj handled
        exact .found running job named checked queue
      · rw [result] at handled
        cases Option.some.inj handled
        cases Option.some.inj getstate
        exact .wait running job named checked queue
      · cases getstate
  · rename_i unnamed
    cases Option.some.inj handled
    exact .suspend running job unnamed

theorem worker_cases {channels : Channels T C} {s s' : State T C} {i : ℕ} {t : T} {a : Act T C}
    (worker : a.worker = some i) (running : s.running i = some t)
    (worked : work channels s i t (s.job i) a = some s') : Step channels s a s' := by
  cases a with
  | resume k =>
    cases worker
    cases job : s.job i with
    | fetched =>
      rw [job] at worked
      cases Option.some.inj worked
      exact .resume running job
    | _ => simp [job, work] at worked
  | yield k below values =>
    cases worker
    cases job : s.job i with
    | executing =>
      rw [job] at worked
      cases Option.some.inj worked
      exact .yield running job
    | _ => simp [job, work] at worked
  | ends k =>
    cases worker
    cases job : s.job i with
    | executing =>
      rw [job] at worked
      cases Option.some.inj worked
      exact .ends running job
    | _ => simp [job, work] at worked
  | closetask k =>
    cases worker
    cases job : s.job i with
    | closing =>
      rw [job] at worked
      simp only [work, Option.ite_none_right_eq_some, Option.some.injEq] at worked
      obtain ⟨unused, rfl⟩ := worked
      exact .closetask running job unused
    | _ => simp [job, work] at worked
  | handle k =>
    cases worker
    cases job : s.job i with
    | yielded base =>
      rw [job] at worked
      exact handle_cases running job worked
    | _ => simp [job, work] at worked
  | free k =>
    cases worker
    cases job : s.job i with
    | freeing enqueue =>
      rw [job] at worked
      cases Option.some.inj worked
      exact .free running job
    | _ => simp [job, work] at worked
  | discard k =>
    cases worker
    cases job : s.job i with
    | discarding base enqueue =>
      rw [job] at worked
      cases Option.some.inj worked
      exact .discard running job
    | _ => simp [job, work] at worked
  | finish k w =>
    cases worker
    cases job : s.job i with
    | returning enqueue yielded =>
      rw [job] at worked
      obtain ⟨u, sectioned, rfl⟩ := Option.map_eq_some_iff.mp worked
      obtain ⟨pool, stepped, rfl⟩ := Option.map_eq_some_iff.mp sectioned
      have finished : Step channels s _ _ := .finish running job stepped
      split_ifs with kept
      · simp only [kept, if_true] at finished
        exact finished
      · simp only [kept, if_false] at finished
        exact finished
    | _ => simp [job, work] at worked
  | _ => cases worker

theorem matcher_cases {channels : Channels T C} {s s' : State T C} {j : ℕ} {m : Matcher T C}
    {a : Act T C} (matcher : a.matcher = some j) (at_j : s.matchers[j]? = some m)
    (proceeded : proceed channels s j m m.stage a = some s') : Step channels s a s' := by
  cases a with
  | swap k faults =>
    cases matcher
    cases stage : m.stage with
    | taken waiter =>
      rw [stage] at proceeded
      cases Option.some.inj proceeded
      exact .swap at_j stage
    | _ => simp [stage, proceed] at proceeded
  | send k =>
    cases matcher
    cases stage : m.stage with
    | swapped c L =>
      rw [stage] at proceeded
      cases Option.some.inj proceeded
      exact .send at_j stage
    | _ => simp [stage, proceed] at proceeded
  | book k =>
    cases matcher
    cases stage : m.stage with
    | sent t =>
      rw [stage] at proceeded
      cases Option.some.inj proceeded
      exact .book at_j stage
    | _ => simp [stage, proceed] at proceeded
  | resumetask k created w =>
    cases matcher
    cases stage : m.stage with
    | resuming t =>
      rw [stage] at proceeded
      obtain ⟨⟨added, pool⟩, result, rfl⟩ := Option.map_eq_some_iff.mp proceeded
      have resumed : Step channels s _ _ := .resumetask at_j stage result
      cases added with
      | true => exact resumed
      | false => exact resumed
    | _ => simp [stage, proceed] at proceeded
  | collect k =>
    cases matcher
    cases stage : m.stage with
    | closing t =>
      rw [stage] at proceeded
      simp only [proceed, Option.ite_none_right_eq_some, Option.some.injEq] at proceeded
      obtain ⟨unused, rfl⟩ := proceeded
      exact .collect at_j stage unused
    | _ => simp [stage, proceed] at proceeded
  | _ => cases matcher

theorem channelsync_cases {channels : Channels T C} {s s' : State T C} {a : Act T C}
    {thread : Option ℕ} {c : C} {K : Stack} {waits : Bool} (syncs : a.syncs = some (thread, c))
    (calls : s.calls channels thread c) (given : K ≠ []) (idle : waits → c ∉ s.armed)
    (synced : channelsync channels s thread c K waits = some s') : Step channels s a s' := by
  unfold channelsync at synced
  split at synced
  · rename_i endpoint L checked
    simp only at synced
    obtain ⟨sync, found, result, queue⟩ | ⟨sync, state, result, getstate, queue⟩ |
      ⟨sync, result, getstate, queue⟩ :=
      matchchsync_cases (s.sync (channels.name c)) endpoint
        (if waits then some (.channel c (armsynced L)) else none)
    · rw [result] at synced
      cases Option.some.inj synced
      exact .call syncs calls checked queue given
    · rw [result] at synced
      cases Option.some.inj synced
      simp only [Option.ite_none_right_eq_some, Option.some.injEq] at getstate
      obtain ⟨waiting, rfl⟩ := getstate
      exact .arm syncs calls (idle waiting) checked queue given
    · rw [result] at synced
      cases Option.some.inj synced
      exact .refuse syncs calls queue
  · cases synced

theorem other_cases {channels : Channels T C} {s s' : State T C} {a : Act T C}
    (stepped : other channels s a = some s') : Step channels s a s' := by
  have pooled {act : ThreadPool.Act T} (moved : elsewhere s act = some s') :
      ∃ pool, ThreadPool.step s.pool act = some pool ∧ { s with pool := pool } = s' :=
    Option.map_eq_some_iff.mp moved
  cases a with
  | add t L created w =>
    simp only [other, addtask] at stepped
    split_ifs at stepped with bad
    obtain ⟨pool, added, rfl⟩ := Option.map_eq_some_iff.mp stepped
    exact .add (fun old => bad (Or.inl old)) (fun none => bad (Or.inr none)) added
  | lock i w =>
    simp only [other, lock] at stepped
    split at stepped
    · obtain ⟨pool, moved, rfl⟩ := Option.map_eq_some_iff.mp stepped
      exact .lock (Or.inl rfl) moved
    · obtain ⟨pool, moved, rfl⟩ := Option.map_eq_some_iff.mp stepped
      exact .lock (Or.inr rfl) moved
  | awake i =>
    obtain ⟨pool, moved, rfl⟩ := pooled stepped
    exact .elsewhere (Or.inl ⟨i, rfl⟩) ⟨rfl, rfl⟩ moved
  | resize size create created w =>
    obtain ⟨pool, moved, rfl⟩ := pooled stepped
    exact .elsewhere (Or.inr (Or.inr ⟨size, create, created, w, rfl⟩)) ⟨rfl, rfl⟩ moved
  | close =>
    obtain ⟨pool, moved, rfl⟩ := pooled stepped
    exact .close (Or.inl rfl) ⟨rfl, rfl⟩ moved
  | closeagain =>
    obtain ⟨pool, moved, rfl⟩ := pooled stepped
    exact .close (Or.inr rfl) ⟨rfl, rfl⟩ moved
  | closeawake =>
    obtain ⟨pool, moved, rfl⟩ := pooled stepped
    exact .elsewhere (Or.inr (Or.inl rfl)) ⟨rfl, rfl⟩ moved
  | drain =>
    simp only [other, drain] at stepped
    split at stepped
    · rename_i t queue closer
      simp only [Option.ite_none_right_eq_some, Option.some.injEq] at stepped
      obtain ⟨unused, rfl⟩ := stepped
      exact .drain closer unused
    · cases stepped
  | awaitch thread c L prepared =>
    simp only [other, Option.ite_none_right_eq_some] at stepped
    exact channelsync_cases rfl stepped.1.1 stepped.1.2.1 (fun _ => stepped.1.2.2) stepped.2
  | trysync thread c L =>
    simp only [other, Option.ite_none_right_eq_some] at stepped
    exact channelsync_cases rfl stepped.1.1 stepped.1.2 (fun waits => absurd waits (by decide))
      stepped.2
  | cancel thread c =>
    simp only [other, Option.ite_none_right_eq_some] at stepped
    obtain ⟨found, waits, rfl⟩ := Option.map_eq_some_iff.mp stepped.2
    have member := List.mem_of_find?_eq_some waits
    have channel := List.find?_some waits
    cases found with
    | task t => cases channel
    | channel d L =>
      cases of_decide_eq_true channel
      exact .cancel stepped.1 member
  | process thread c =>
    simp only [other, Option.ite_none_right_eq_some] at stepped
    exact .process stepped.1 stepped.2
  | _ => cases stepped

/-! What the longer steps leave alone. -/

omit [DecidableEq C] in
theorem noteMatch_frame (channels : Channels T C) (s : State T C) (waiter : Waiter T C) :
    noteMatch channels s waiter = { s with tally := (noteMatch channels s waiter).tally } := by
  cases waiter with
  | task t => rfl
  | channel c L =>
    simp only [noteMatch]
    split <;> rfl

omit [DecidableEq C] in
theorem startMatch_frame (channels : Channels T C) (s : State T C) (thread : Option ℕ)
    (source : Source T) (waiter : Waiter T C) :
    startMatch channels s thread source waiter =
      { s with
        matchers := s.matchers ++ [⟨thread, source, .taken waiter⟩]
        tally := (startMatch channels s thread source waiter).tally } := by
  rw [startMatch, noteMatch_frame]

omit [DecidableEq C] in
theorem suspendedchtask_frame (s : State T C) (i : ℕ) (t : T) (base : ℕ) :
    suspendedchtask s i t base =
      { s with
        job := (suspendedchtask s i t base).job
        chan := (suspendedchtask s i t base).chan
        tally := (suspendedchtask s i t base).tally } := by
  unfold suspendedchtask
  split_ifs <;> rfl

theorem onsynced_frame {channels : Channels T C} {s u : State T C} {c : C}
    (processed : onsynced channels s c = some u) :
    u = { s with signals := u.signals, armed := u.armed, chan := u.chan, tally := u.tally } := by
  obtain ⟨signal, -, rfl⟩ := Option.map_eq_some_iff.mp processed
  simp only
  split <;> rfl

omit [DecidableEq C] in
theorem swap_frame (s : State T C) (j : ℕ) (m : Matcher T C) (waiter : Waiter T C)
    (faults : Faults) :
    swap s j m waiter faults =
      { s with
        stack := (swap s j m waiter faults).stack
        matchers := (swap s j m waiter faults).matchers } := by
  simp only [swap]
  cases waiter <;> cases m.source <;> rfl

theorem send_frame (channels : Channels T C) (s : State T C) (j : ℕ) (m : Matcher T C) (c : C)
    (L : Stack) :
    send channels s j m c L =
      { s with
        signals := (send channels s j m c L).signals
        matchers := (send channels s j m c L).matchers
        tally := (send channels s j m c L).tally } := by
  simp only [send, asyncsend]
  split <;> split_ifs <;> rfl

omit [DecidableEq C] in
theorem book_frame (s : State T C) (j : ℕ) (m : Matcher T C) (t : T) :
    book s j m t =
      { s with
        chan := (book s j m t).chan
        matchers := (book s j m t).matchers
        tally := (book s j m t).tally } := by
  simp only [book]
  split <;> rfl

/-- Every step is one of those listed. -/
theorem step_cases {channels : Channels T C} {s s' : State T C} {a : Act T C}
    (stepped : step channels s a = some s') : Step channels s a s' := by
  unfold step at stepped
  split at stepped
  · rename_i i worker
    obtain ⟨t, running, worked⟩ := Option.bind_eq_some_iff.mp stepped
    exact worker_cases worker running worked
  · rename_i j worker matcher
    obtain ⟨m, at_j, proceeded⟩ := Option.bind_eq_some_iff.mp stepped
    exact matcher_cases matcher at_j proceeded
  · exact other_cases stepped

end Coutil.TaskSteps
