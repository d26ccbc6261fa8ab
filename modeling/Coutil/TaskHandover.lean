import Coutil.ChannelTask

set_option autoImplicit false

/-! What the stack of a task holds at each place, and that nobody touches it while any thread
may take the task. -/
namespace Coutil.TaskHandover
open Runs ChannelSync Exchange TaskSystem TaskSteps TaskLedger TaskConservation PoolTasks
open ChannelTask Census

variable {T C : Type}

section
variable (s : State T C)

/-- What the thread that resumes the task relies on. -/
def Loaded (t : T) : Prop :=
  if s.started t then Ready (s.below t) (s.stack t) else s.stack t ≠ []

/-- What the exchange of values with a task that waits relies on. -/
def Offered (t : T) : Prop :=
  s.started t ∧ ∃ L n, s.stack t = offer L (s.below t).length n ∧
    Offers L (s.below t).length n ∧ L.take (s.below t).length = s.below t

/-- The values that the task yielded are on top of those it keeps. -/
def Yielded (t : T) (base : ℕ) : Prop :=
  s.started t ∧ base = (s.below t).length ∧ (s.stack t).take base = s.below t ∧
    base ≤ (s.stack t).length

def Returning (t : T) : Prop :=
  s.started t ∧ Ready (s.below t) (s.stack t)

/-- The thread of worker `i` exchanges the values of its task. -/
def Exchanging (i : ℕ) : Prop :=
  ∃ m ∈ s.matchers, m.thread = some i ∧ ∃ waiter, m.stage = .taken waiter

/-- The stack of the task of worker `i`, by what the worker is to do with it. -/
def Worked (i : ℕ) (t : T) : Job → Prop
  | .fetched => Loaded s t
  | .executing => s.started t
  | .yielded base => Yielded s t base
  | .freeing true => Exchanging s i ∨ Returning s t
  | .discarding base true => Yielded s t base
  | .returning true _ => Returning s t
  | _ => True

def OfferedBy : Waiter T C → Prop
  | .task t => Offered s t
  | .channel _ L => ∃ K n, L = offer K 0 n ∧ Offers K 0 n

/-- The stack of the thread that made the match. -/
def Sourced (thread : Option ℕ) : Source T → Prop
  | .task t base n => Yielded s t base ∧ Offers (s.stack t) base n ∧
      ∃ i, thread = some i ∧ s.pool.task i = some t ∧ s.job i = .freeing true
  | .caller L base n => Offers L base n ∧ ∀ i, thread = some i → s.job i ≠ .freeing true

def Staged (m : Matcher T C) : Prop :=
  match m.stage with
  | .taken waiter => OfferedBy s waiter ∧ Sourced s m.thread m.source
  | .resuming t => Returning s t
  | _ => True

end

/-- The thread that has still a step of the match to do. -/
def active (m : Matcher T C) : Option ℕ :=
  if m.stage.isDone then none else m.thread

/-- The data of the task is the same in both states. -/
def Agree (s s' : State T C) (t : T) : Prop :=
  s'.stack t = s.stack t ∧ s'.below t = s.below t ∧ s'.started t = s.started t

/-- Every task that another thread may take has its stack as that thread relies on, and no
task is stored in its channel task. -/
structure Handover (s : State T C) : Prop where
  queued : ∀ t ∈ s.pool.pool.queue, Loaded s t
  waiting : ∀ name, ∀ waiter ∈ (s.sync name).queue, OfferedBy s waiter
  unstored : ∀ t, (s.chan t).L = none
  kept : ∀ i base, s.job i ≠ .discarding base false
  worked : ∀ i t, s.pool.task i = some t → Worked s i t (s.job i)
  staged : ∀ m ∈ s.matchers, Staged s m
  single : ∀ i, census active s.matchers (some i) ≤ 1

section
variable {s s' : State T C} {t : T}

theorem Agree.loaded (agree : Agree s s' t) (loaded : Loaded s t) : Loaded s' t := by
  obtain ⟨stack, below, started⟩ := agree
  rw [Loaded, stack, below, started]
  exact loaded

theorem Agree.offered (agree : Agree s s' t) (offered : Offered s t) : Offered s' t := by
  obtain ⟨stack, below, started⟩ := agree
  rw [Offered, stack, below, started]
  exact offered

theorem Agree.yielded (agree : Agree s s' t) {base : ℕ} (yielded : Yielded s t base) :
    Yielded s' t base := by
  obtain ⟨stack, below, started⟩ := agree
  rw [Yielded, stack, below, started]
  exact yielded

theorem Agree.returning (agree : Agree s s' t) (returning : Returning s t) : Returning s' t := by
  obtain ⟨stack, below, started⟩ := agree
  rw [Returning, stack, below, started]
  exact returning

theorem Agree.worked {i : ℕ} {job : Job} (agree : Job.holds job → Agree s s' t)
    (exchanging : job = .freeing true → Exchanging s i → Exchanging s' i)
    (worked : Worked s i t job) : Worked s' i t job := by
  cases job with
  | fetched => exact (agree rfl).loaded worked
  | executing =>
    change s'.started t
    rw [(agree rfl).2.2]
    exact worked
  | yielded base => exact (agree rfl).yielded worked
  | closing => trivial
  | freeing enqueue =>
    cases enqueue with
    | true => exact Or.imp (exchanging rfl) (agree rfl).returning worked
    | false => trivial
  | discarding base enqueue =>
    cases enqueue with
    | true => exact (agree rfl).yielded worked
    | false => trivial
  | returning enqueue yielded =>
    cases enqueue with
    | true => exact (agree rfl).returning worked
    | false => trivial

theorem Agree.offeredBy {waiter : Waiter T C}
    (agree : ∀ t, TaskConservation.Waiter.task? waiter = some t → Agree s s' t)
    (offered : OfferedBy s waiter) : OfferedBy s' waiter := by
  cases waiter with
  | task t => exact (agree t rfl).offered offered
  | channel c L => exact offered

theorem Agree.staged {m : Matcher T C}
    (agree : ∀ t, TaskConservation.Stage.task? m.stage = some t → Agree s s' t)
    (source : ∀ i, active m = some i → (s.job i ≠ .freeing true → s'.job i ≠ .freeing true) ∧
      ∀ t, s.pool.task i = some t → s.job i = .freeing true →
        Agree s s' t ∧ s'.pool.task i = some t ∧ s'.job i = .freeing true)
    (staged : Staged s m) : Staged s' m := by
  unfold Staged at staged ⊢
  cases stage : m.stage with
  | taken waiter =>
    simp only [stage] at staged agree ⊢
    refine ⟨?_, ?_⟩
    · refine Agree.offeredBy (fun t held => agree t ?_) staged.1
      cases waiter with
      | task u => exact held
      | channel c L => cases held
    · have form := staged.2
      have acts {i : ℕ} (thread : m.thread = some i) : active m = some i := by
        simp [active, stage, Stage.isDone, thread]
      cases sourced : m.source with
      | caller L base n =>
        rw [sourced] at form
        exact ⟨form.1, fun i thread => (source i (acts thread)).1 (form.2 i thread)⟩
      | task t base n =>
        rw [sourced] at form
        obtain ⟨yielded, offers, i, thread, task, job⟩ := form
        obtain ⟨same, task', job'⟩ := (source i (acts thread)).2 t task job
        refine ⟨same.yielded yielded, ?_, i, thread, task', job'⟩
        rw [same.1]
        exact offers
  | resuming t =>
    simp only [stage] at staged agree ⊢
    exact (agree t rfl).returning staged
  | _ => trivial

theorem Agree.refl (s : State T C) (t : T) : Agree s s t := ⟨rfl, rfl, rfl⟩

theorem busy_iff {i : ℕ} : s.busy i ↔ 0 < census active s.matchers (some i) := by
  rw [census, List.countP_pos_iff, State.busy, List.any_eq_true]
  refine exists_congr fun m => and_congr_right fun _ => ?_
  cases done : m.stage.isDone <;> simp [active, done]

/-- A worker that is to do the next step itself has a task and is in no match. -/
theorem running_iff {i : ℕ} : s.running i = some t ↔ s.pool.task i = some t ∧ ¬s.busy i := by
  unfold State.running
  split_ifs with busy
  · simp [busy]
  · simp [busy]

/-- A task in two places is in one. -/
theorem apart {p q : Place} {u : T} (balanced : Balanced (ledger s)) (held : (view s).Holds p t)
    (there : (view s).Holds q u) (distinct : q ≠ p) : u ≠ t := by
  rintro rfl
  exact distinct (balanced.unique q p u there held)

theorem holds_sync {name : String} (waits : .task t ∈ (s.sync name).queue) :
    (view s).Holds (.sync name) t :=
  List.mem_filterMap.mpr ⟨_, waits, rfl⟩

theorem holds_matcher {j : ℕ} {m : Matcher T C} (at_j : s.matchers[j]? = some m)
    (task : TaskConservation.Stage.task? m.stage = some t) : (view s).Holds (.matcher j) t := by
  change atMatcher s.matchers j = some t
  simp [atMatcher, at_j, task]

theorem holds_task {i : ℕ} (task : s.pool.task i = some t) (holds : Job.holds (s.job i)) :
    (view s).Holds (.worker i) t := by
  change slot Job.holds s.job s.pool.task i = some t
  simp [slot, holds, task]

theorem Exchanging.congr {i : ℕ} (matchers : s'.matchers = s.matchers)
    (exchanging : Exchanging s i) : Exchanging s' i := by
  rw [Exchanging, matchers]
  exact exchanging

/-- A worker changes nothing of the tasks that are elsewhere. -/
theorem Handover.local {i : ℕ} {job : Job} (handover : Handover s) (running : s.running i = some t)
    (pool : s'.pool = s.pool) (sync : s'.sync = s.sync) (chan : s'.chan = s.chan)
    (matchers : s'.matchers = s.matchers) (jobs : s'.job = Function.update s.job i job)
    (agree : ∀ p u, (view s).Holds p u → p ≠ .worker i → Agree s s' u)
    (kept : ∀ base, job ≠ .discarding base false) (worked : Worked s' i t job) :
    Handover s' := by
  obtain ⟨task, free⟩ := running_iff.mp running
  have others {k : ℕ} {u : T} (other : k ≠ i) (task : s.pool.task k = some u)
      (holds : Job.holds (s.job k)) : Agree s s' u :=
    agree (.worker k) u (holds_task task holds) (by simpa using other)
  refine ⟨fun u queued => ?_, fun name waiter waits => ?_, fun u => ?_, fun k base => ?_,
    fun k u busy => ?_, fun m member => ?_, fun k => ?_⟩
  · rw [pool] at queued
    exact (agree .queue u queued (by simp)).loaded (handover.queued u queued)
  · rw [sync] at waits
    refine Agree.offeredBy (fun u mine => ?_) (handover.waiting name waiter waits)
    cases waiter with
    | task v =>
      cases Option.some.inj mine
      exact agree _ _ (holds_sync waits) (by simp)
    | channel c L => cases mine
  · rw [chan]
    exact handover.unstored u
  · rw [jobs]
    by_cases here : k = i
    · subst k
      rw [Function.update_self]
      exact kept base
    · rw [Function.update_of_ne here]
      exact handover.kept k base
  · rw [pool] at busy
    by_cases here : k = i
    · subst k
      obtain rfl := Option.some.inj (task.symm.trans busy)
      rw [jobs, Function.update_self]
      exact worked
    · rw [jobs, Function.update_of_ne here]
      exact Agree.worked (others here busy) (fun _ => Exchanging.congr matchers)
        (handover.worked k u busy)
  · rw [matchers] at member
    obtain ⟨j, at_j⟩ := List.mem_iff_getElem?.mp member
    refine Agree.staged (fun u mine => ?_) (fun k acts => ?_) (handover.staged m member)
    · exact agree _ u (holds_matcher at_j mine) (by simp)
    · have here : k ≠ i := by
        rintro rfl
        exact free (busy_iff.mpr ((census_pos active).mpr ⟨j, m, at_j, acts⟩))
      rw [pool, jobs, Function.update_of_ne here]
      refine ⟨id, fun u mine exchanging => ⟨others here mine ?_, mine, exchanging⟩⟩
      simp [exchanging, Job.holds]
  · rw [matchers]
    exact handover.single k

/-- A worker changes the stack of the task it holds, and nothing else of the tasks. -/
theorem Handover.touch {i : ℕ} {job : Job} (handover : Handover s)
    (balanced : Balanced (ledger s)) (running : s.running i = some t)
    (holds : Job.holds (s.job i)) (pool : s'.pool = s.pool) (sync : s'.sync = s.sync)
    (chan : s'.chan = s.chan) (matchers : s'.matchers = s.matchers)
    (jobs : s'.job = Function.update s.job i job) (agree : ∀ u, u ≠ t → Agree s s' u)
    (kept : ∀ base, job ≠ .discarding base false) (worked : Worked s' i t job) :
    Handover s' := by
  refine handover.local running pool sync chan matchers jobs (fun p u there other => ?_) kept
    worked
  have held := holds_task (running_task running) holds
  exact agree u (apart balanced held there other)

/-- A worker goes on with its task, whose stack it leaves as it is. -/
theorem Handover.setjob {i : ℕ} (handover : Handover s) (job : Job)
    (running : s.running i = some t) (kept : ∀ base, job ≠ .discarding base false)
    (worked : Worked s i t job) : Handover (s.setjob i job) :=
  handover.local running rfl rfl rfl rfl rfl (fun _ u _ _ => .refl s u) kept
    (Agree.worked (fun _ => .refl s t) (fun _ => id) worked)

theorem Handover.yielded {i base : ℕ} (handover : Handover s) (running : s.running i = some t)
    (job : s.job i = .yielded base) : Yielded s t base := by
  have worked := handover.worked i t (running_task running)
  rw [job] at worked
  exact worked

variable [DecidableEq T]

theorem agree_setstack {u : T} (L : Stack) (other : u ≠ t) : Agree s (s.setstack t L) u :=
  ⟨Function.update_of_ne other _ _, rfl, rfl⟩

theorem Loaded.resumed {i : ℕ} (loaded : Loaded s t) :
    s.started t → (resume s i t).stack t = s.below t := by
  intro started
  rw [Loaded, if_pos started] at loaded
  obtain ⟨values, same⟩ := loaded
  have top : index (s.stack t) (s.stack t).length = .integer values.length := by
    simp [same, index]
  simp only [resume, started, if_true, top, Value.tointeger, Int.toNat_natCast]
  simp [State.setstack, State.setjob, same]

theorem Handover.resume {i : ℕ} (handover : Handover s) (balanced : Balanced (ledger s))
    (running : s.running i = some t) (job : s.job i = .fetched) :
    Handover (TaskSystem.resume s i t) := by
  refine handover.touch balanced running (by simp [job, Job.holds]) rfl rfl rfl rfl rfl
    (fun u other => ?_) (by simp) ?_
  · exact ⟨Function.update_of_ne other _ _, rfl, Function.update_of_ne other _ _⟩
  · exact Function.update_self t true s.started

theorem Handover.yield {i : ℕ} (handover : Handover s) (balanced : Balanced (ledger s))
    (running : s.running i = some t) (job : s.job i = .executing) (below values : Stack) :
    Handover (yielding s i t below values) := by
  have started : s.started t := by
    have worked := handover.worked i t (running_task running)
    rw [job] at worked
    exact worked
  refine handover.touch balanced running (by simp [job, Job.holds]) rfl rfl rfl rfl rfl
    (fun u other => ?_) (by simp) ?_
  · exact ⟨Function.update_of_ne other _ _, Function.update_of_ne other _ _, rfl⟩
  · refine ⟨started, ?_, ?_, ?_⟩ <;> simp [yielding, State.setstack, State.setjob]

theorem ready_reject {L K below : Stack} {base : ℕ} {v : Value} (fits : base ≤ L.length)
    (checked : checksyncargs (L.set base v) (base + 2) = some (none, K))
    (low : L.take base = below) : Ready below (reject K base) := by
  obtain ⟨length, same⟩ := checksyncargs_none (k := base) checked (by omega) (by simpa using fits)
  rw [List.length_set] at length
  rw [List.take_set_of_le le_rfl, low] at same
  refine ready_append base 2 (length_settop _ _) ?_
  rw [take_settop (by omega) (by simp only [length_replace, List.length_append]; simp; omega),
    take_replace_append (by omega) (by rw [length_replace]; omega),
    take_replace (by omega) (by omega), same]

theorem Handover.reject {i base : ℕ} {L : Stack} {v : Value} (handover : Handover s)
    (balanced : Balanced (ledger s)) (running : s.running i = some t)
    (job : s.job i = .yielded base)
    (checked : checksyncargs ((s.stack t).set base v) (base + 2) = some (none, L)) :
    Handover ((s.setstack t (TaskSystem.reject L base)).setjob i (.freeing true)) := by
  obtain ⟨started, -, low, fits⟩ := handover.yielded running job
  refine handover.touch balanced running (by simp [job, Job.holds]) rfl rfl rfl rfl rfl
    (fun u other => agree_setstack _ other) (by simp) (Or.inr ⟨started, ?_⟩)
  have ready := ready_reject fits checked low
  simpa [State.setstack, State.setjob] using ready

theorem Handover.discard {i base : ℕ} {enqueue : Bool} (handover : Handover s)
    (balanced : Balanced (ledger s)) (running : s.running i = some t)
    (job : s.job i = .discarding base enqueue) :
    Handover ((s.setstack t (settop (s.stack t) base ++ [.integer 0])).setjob i
      (.returning enqueue true)) := by
  cases enqueue with
  | false => exact absurd job (handover.kept i base)
  | true =>
    have worked := handover.worked i t (running_task running)
    rw [job] at worked
    obtain ⟨started, mine, low, fits⟩ := worked
    refine handover.touch balanced running (by simp [job, Job.holds]) rfl rfl rfl rfl rfl
      (fun u other => agree_setstack _ other) (by simp) ⟨started, ?_⟩
    have ready : Ready (s.below t) (settop (s.stack t) base ++ [.integer 0]) := by
      refine ready_append base 0 (length_settop _ _) ?_
      rw [take_settop le_rfl fits, low]
    simpa [State.setstack, State.setjob] using ready

omit [DecidableEq T] in
/-- What the stacks are does not depend on the accounts. -/
theorem Handover.account (handover : Handover s) (armed : List C) (signals : List (C × Stack))
    (added closed accounted : List T) (tally : T → Tally) :
    Handover { s with
      armed := armed
      signals := signals
      added := added
      closed := closed
      accounted := accounted
      tally := tally } :=
  ⟨handover.queued, handover.waiting, handover.unstored, handover.kept, handover.worked,
    handover.staged, handover.single⟩

omit [DecidableEq T] in
/-- The waiters of a record are those there were, or have their values on offer. -/
theorem Handover.setsync {name : String} {sync : Sync (Waiter T C)} (handover : Handover s)
    (queue : ∀ waiter ∈ sync.queue, waiter ∈ (s.sync name).queue ∨ OfferedBy s waiter) :
    Handover (s.setsync name sync) := by
  refine ⟨handover.queued, fun other waiter waits => ?_, handover.unstored, handover.kept,
    handover.worked, handover.staged, handover.single⟩
  by_cases here : other = name
  · subst other
    simp only [State.setsync, Function.update_self] at waits
    obtain old | new := queue waiter waits
    · exact handover.waiting _ waiter old
    · exact new
  · simp only [State.setsync, Function.update_of_ne here] at waits
    exact handover.waiting other waiter waits

/-- A match begins, by a thread that is in none. -/
theorem Handover.begin {waiter : Waiter T C} (handover : Handover s) (channels : Channels T C)
    (jobs : ℕ → Job) (thread : Option ℕ) (source : Source T) (offered : OfferedBy s waiter)
    (free : ∀ i, thread = some i → ¬s.busy i)
    (same : ∀ i, jobs i = s.job i ∨ (jobs i = .freeing true ∧ thread = some i))
    (sourced : Sourced { s with job := jobs } thread source) :
    Handover (startMatch channels { s with job := jobs } thread source waiter) := by
  rw [startMatch_frame]
  refine ⟨handover.queued, handover.waiting, handover.unstored, fun i base => ?_, fun i t task => ?_,
    fun m member => ?_, fun i => ?_⟩
  · obtain old | ⟨new, -⟩ := same i
    · change jobs i ≠ _
      rw [old]
      exact handover.kept i base
    · change jobs i ≠ _
      rw [new]
      simp
  · change Worked _ i t (jobs i)
    obtain old | ⟨new, mine⟩ := same i
    · rw [old]
      refine Agree.worked (fun _ => .refl s t) (fun _ exchanging => ?_) (handover.worked i t task)
      obtain ⟨m, member, exchanges⟩ := exchanging
      exact ⟨m, List.mem_append_left _ member, exchanges⟩
    · rw [new]
      exact Or.inl ⟨_, List.mem_append_right _ List.mem_cons_self, mine, waiter, rfl⟩
  · obtain old | new := List.mem_append.mp member
    · refine Agree.staged (fun t _ => .refl s t) (fun i acts => ?_) (handover.staged m old)
      obtain ⟨j, at_j⟩ := List.mem_iff_getElem?.mp old
      have busy := busy_iff.mpr ((census_pos active).mpr ⟨j, m, at_j, acts⟩)
      have kept : jobs i = s.job i := (same i).resolve_right fun new => free i new.2 busy
      change (s.job i ≠ _ → jobs i ≠ _) ∧ ∀ t, _ → _ → _ ∧ _ ∧ jobs i = _
      rw [kept]
      exact ⟨id, fun t task exchanging => ⟨.refl s t, task, exchanging⟩⟩
    · rw [List.mem_singleton.mp new]
      exact ⟨offered, sourced⟩
  · have total := handover.single i
    change census active (s.matchers ++ [_]) (some i) ≤ 1
    rw [census_append]
    split_ifs with mine
    · have idle := mt busy_iff.mpr (free i mine)
      omega
    · omega

omit [DecidableEq T] in
theorem Handover.single_set {j : ℕ} {m : Matcher T C} {stage : Stage T C} (handover : Handover s)
    (at_j : s.matchers[j]? = some m) (begun : ¬m.stage.isDone) (i : ℕ) :
    census active (s.matchers.set j { m with stage := stage }) (some i) ≤ 1 := by
  have total := handover.single i
  have changed := census_set active at_j { m with stage := stage } (some i)
  have fewer : (if active { m with stage := stage } = some i then 1 else 0) ≤
      if active m = some i then 1 else 0 := by
    simp only [active, begun]
    split_ifs <;> simp_all
  omega

omit [DecidableEq T] in
/-- A worker whose own match is not the one that goes on is still exchanging. -/
theorem exchanging_set {j i : ℕ} {m : Matcher T C} {matchers : List (Matcher T C)}
    (at_j : s.matchers[j]? = some m) (set : ∀ k, k ≠ j → matchers[k]? = s.matchers[k]?)
    (other : ∀ waiter, m.thread = some i → m.stage ≠ .taken waiter)
    (exchanging : Exchanging s i) :
    ∃ n ∈ matchers, n.thread = some i ∧ ∃ waiter, n.stage = .taken waiter := by
  obtain ⟨n, member, thread, waiter, exchanges⟩ := exchanging
  obtain ⟨k, at_k⟩ := List.mem_iff_getElem?.mp member
  have apart : k ≠ j := by
    rintro rfl
    obtain rfl := Option.some.inj (at_j.symm.trans at_k)
    exact other waiter thread exchanges
  exact ⟨n, List.mem_of_getElem? ((set k apart).trans at_k), thread, waiter, exchanges⟩

omit [DecidableEq T] in
/-- A match goes on that does not exchange values any more. -/
theorem Handover.setstage {j : ℕ} {m : Matcher T C} (handover : Handover s) (stage : Stage T C)
    (at_j : s.matchers[j]? = some m) (begun : ¬m.stage.isDone)
    (past : ∀ waiter, m.stage ≠ .taken waiter) (staged : Staged s { m with stage := stage }) :
    Handover (s.setstage j m stage) := by
  refine ⟨handover.queued, handover.waiting, handover.unstored, handover.kept, fun i t task => ?_,
    fun n member => ?_, fun i => ?_⟩
  · refine Agree.worked (fun _ => .refl s t) (fun _ exchanging => ?_) (handover.worked i t task)
    exact exchanging_set at_j (fun k apart => List.getElem?_set_ne apart.symm)
      (fun waiter _ => past waiter) exchanging
  · obtain old | rfl := List.mem_or_eq_of_mem_set member
    · exact handover.staged n old
    · exact staged
  · exact handover.single_set at_j begun i

omit [DecidableEq T] in
/-- The values of a match are exchanged: only the stacks of the two sides change. -/
theorem Handover.exchange {j : ℕ} {m : Matcher T C} {waiter : Waiter T C} {stage : Stage T C}
    (handover : Handover s) (balanced : Balanced (ledger s)) (at_j : s.matchers[j]? = some m)
    (taken : m.stage = .taken waiter) (pool : s'.pool = s.pool) (sync : s'.sync = s.sync)
    (chan : s'.chan = s.chan) (jobs : s'.job = s.job)
    (matchers : s'.matchers = s.matchers.set j { m with stage := stage })
    (agree : ∀ u, (∀ base n, m.source ≠ .task u base n) →
      TaskConservation.Waiter.task? waiter ≠ some u → Agree s s' u)
    (sourced : ∀ u base n, m.source = .task u base n → Returning s' u)
    (staged : Staged s' { m with stage := stage }) : Handover s' := by
  have form : OfferedBy s waiter ∧ Sourced s m.thread m.source := by
    have old := handover.staged m (List.mem_of_getElem? at_j)
    simpa only [Staged, taken] using old
  have acts {i : ℕ} (thread : m.thread = some i) : active m = some i := by
    simp [active, taken, Stage.isDone, thread]
  have away {p : Place} {u : T} (held : (view s).Holds p u) (hand : p ≠ .matcher j)
      (worker : ∀ i, m.thread = some i → p ≠ .worker i) : Agree s s' u := by
    refine agree u (fun base n source => ?_) fun task => ?_
    · rw [source] at form
      obtain ⟨-, -, i, thread, task, job⟩ := form.2
      have here := holds_task task (by simp [job, Job.holds])
      exact worker i thread (balanced.unique p (.worker i) u held here)
    · have here : TaskConservation.Stage.task? m.stage = some u := by
        cases waiter with
        | task v => rw [taken]; exact task
        | channel c L => cases task
      exact hand (balanced.unique p (.matcher j) u held (holds_matcher at_j here))
  refine ⟨fun u queued => ?_, fun name other waits => ?_, fun u => ?_, fun k base => ?_,
    fun k u task => ?_, fun n member => ?_, fun k => ?_⟩
  · rw [pool] at queued
    exact (away (p := .queue) queued (by simp) (by simp)).loaded (handover.queued u queued)
  · rw [sync] at waits
    refine Agree.offeredBy (fun u mine => ?_) (handover.waiting name other waits)
    cases other with
    | task v =>
      cases Option.some.inj mine
      exact away (holds_sync waits) (by simp) (by simp)
    | channel c L => cases mine
  · rw [chan]
    exact handover.unstored u
  · rw [jobs]
    exact handover.kept k base
  · rw [pool] at task
    rw [jobs]
    by_cases thread : m.thread = some k
    · cases source : m.source with
      | task v base n =>
        rw [source] at form
        obtain ⟨-, -, i, mine, busy, job⟩ := form.2
        obtain rfl := Option.some.inj (thread.symm.trans mine)
        obtain rfl := Option.some.inj (task.symm.trans busy)
        rw [job]
        exact Or.inr (sourced u base n source)
      | caller L base n =>
        rw [source] at form
        have other := form.2.2 k thread
        refine Agree.worked (fun holds => ?_) (fun job => absurd job other)
          (handover.worked k u task)
        refine agree u (by simp [source]) fun mine => ?_
        have here : TaskConservation.Stage.task? m.stage = some u := by
          cases waiter with
          | task v => rw [taken]; exact mine
          | channel c L => cases mine
        have same := balanced.unique _ _ u (holds_task task holds) (holds_matcher at_j here)
        cases same
    · refine Agree.worked (fun holds => away (holds_task task holds) (by simp) ?_)
        (fun _ exchanging => ?_) (handover.worked k u task)
      · intro i mine same
        cases same
        exact thread mine
      · refine exchanging_set at_j (fun l apart => ?_) (fun _ mine => absurd mine thread) exchanging
        rw [matchers, List.getElem?_set_ne apart.symm]
  · obtain ⟨l, at_l⟩ := List.mem_iff_getElem?.mp member
    rw [matchers] at at_l
    by_cases here : j = l
    · subst l
      rw [List.getElem?_set_self (List.getElem?_eq_some_iff.mp at_j).1] at at_l
      obtain rfl := Option.some.inj at_l
      exact staged
    · rw [List.getElem?_set_ne here] at at_l
      refine Agree.staged (fun u mine => ?_) (fun i acting => ?_)
        (handover.staged n (List.mem_of_getElem? at_l))
      · exact away (holds_matcher at_l mine) (by simpa using Ne.symm here) (by simp)
      · rw [pool, jobs]
        refine ⟨id, fun u task job => ⟨away (holds_task task (by simp [job, Job.holds]))
          (by simp) ?_, task, job⟩⟩
        intro k thread same
        cases same
        exact here (index_unique active (handover.single i) at_j at_l (acts thread) acting)
  · rw [matchers]
    exact handover.single_set at_j (by simp [taken, Stage.isDone]) k

omit [DecidableEq T] in
theorem Source.stack_task {source : Source T} {u : T} {base n : ℕ}
    (task : source = .task u base n) :
    source.stack s = s.stack u ∧ source.base = base ∧ source.narg = n := by
  subst source
  exact ⟨rfl, rfl, rfl⟩

theorem putsource_spec (s : State T C) (L : Stack) (source : Source T) :
    (putsource s L source) = { s with stack := (putsource s L source).stack } ∧
      (∀ u, (∀ base n, source ≠ .task u base n) → (putsource s L source).stack u = s.stack u) ∧
      ∀ u base n, source = .task u base n → (putsource s L source).stack u = L := by
  cases source with
  | task v base n =>
    refine ⟨rfl, fun u other => ?_, fun u _ _ same => ?_⟩
    · have distinct : u ≠ v := fun same => other base n (by rw [same])
      exact Function.update_of_ne distinct _ _
    · cases same
      exact Function.update_self v L s.stack
  | caller K base n => exact ⟨rfl, fun u _ => rfl, fun u _ _ same => by cases same⟩

theorem Handover.swap {j : ℕ} {m : Matcher T C} {waiter : Waiter T C} (handover : Handover s)
    (balanced : Balanced (ledger s)) (at_j : s.matchers[j]? = some m)
    (taken : m.stage = .taken waiter) (faults : Faults) :
    Handover (TaskSystem.swap s j m waiter faults) := by
  have form : OfferedBy s waiter ∧ Sourced s m.thread m.source := by
    have old := handover.staged m (List.mem_of_getElem? at_j)
    simpa only [Staged, taken] using old
  have src : Offers (m.source.stack s) m.source.base m.source.narg := by
    cases source : m.source with
    | task u base n =>
      rw [source] at form
      exact form.2.2.1
    | caller L base n =>
      rw [source] at form
      exact form.2.1
  obtain ⟨D, base, n, offer, dst, mine⟩ : ∃ D base n, waiter.stack s = offer D base n ∧
      Offers D base n ∧ ∀ u, waiter = .task u → s.started u ∧ D.take base = s.below u := by
    cases waiter with
    | task u =>
      obtain ⟨started, D, n, offer, dst, low⟩ := form.1
      exact ⟨D, _, n, offer, dst, fun v same => by cases same; exact ⟨started, low⟩⟩
    | channel c L =>
      obtain ⟨K, n, offer, dst⟩ := form.1
      exact ⟨K, 0, n, offer, dst, fun v same => by cases same⟩
  obtain ⟨first, second⟩ := ready_swapvalues faults src dst
  rw [← offer] at first second
  unfold TaskSystem.swap
  simp only
  generalize swapvalues faults (m.source.stack s) m.source.base m.source.narg
    (waiter.stack s) = both at first second
  obtain ⟨frame, others, own⟩ := putsource_spec s both.1 m.source
  have returned {s' : State T C} (stack : ∀ u base n, m.source = .task u base n →
      s'.stack u = both.1) (below : s'.below = s.below) (started : s'.started = s.started) (u : T)
      (base n : ℕ) (source : m.source = .task u base n) : Returning s' u := by
    obtain ⟨same, low, -⟩ := Source.stack_task (s := s) source
    rw [same, low] at first
    have yielded : Yielded s u base := by
      have sourced := form.2
      rw [source] at sourced
      exact sourced.1
    rw [Returning, stack u base n source, below, started, ← yielded.2.2.1]
    exact ⟨yielded.1, first⟩
  cases waiter with
  | task u =>
    have apart : ∀ base n, m.source ≠ .task u base n := by
      intro base n source
      have sourced := form.2
      rw [source] at sourced
      obtain ⟨-, -, i, -, task, job⟩ := sourced
      have same := balanced.unique _ _ u (holds_task task (by simp [job, Job.holds]))
        (holds_matcher (t := u) at_j (by rw [taken]; rfl))
      cases same
    obtain ⟨started, low⟩ := mine u rfl
    rw [frame]
    refine handover.exchange balanced at_j taken rfl rfl rfl rfl rfl (fun v source hand => ?_)
      (returned ?_ rfl rfl) ?_
    · have distinct : v ≠ u := fun same => hand (by rw [same]; rfl)
      exact ⟨(Function.update_of_ne distinct _ _).trans (others v source), rfl, rfl⟩
    · intro v base n source
      have distinct : v ≠ u := by
        rintro rfl
        exact apart base n source
      exact (Function.update_of_ne distinct _ _).trans (own v base n source)
    · refine ⟨started, ?_⟩
      rw [low] at second
      simpa [putmatch, State.setstage, State.setstack] using second
  | channel c L =>
    rw [frame]
    exact handover.exchange balanced at_j taken rfl rfl rfl rfl rfl
      (fun v source _ => ⟨others v source, rfl, rfl⟩) (returned own rfl rfl) trivial

omit [DecidableEq T] in
/-- The queue of the pool has tasks with all that is to be passed to them, and a worker may be
through with its task. -/
theorem Handover.setpool (handover : Handover s) (pool : ThreadPool.State T)
    (queue : ∀ t ∈ pool.pool.queue, t ∈ s.pool.pool.queue ∨ Loaded s t)
    (task : ∀ i, pool.task i = s.pool.task i ∨ (pool.task i = none ∧ ¬s.busy i)) :
    Handover { s with pool := pool } := by
  refine ⟨fun t queued => ?_, handover.waiting, handover.unstored, handover.kept,
    fun i t mine => ?_, fun m member => ?_, handover.single⟩
  · obtain old | new := queue t queued
    · exact handover.queued t old
    · exact new
  · obtain same | ⟨none, -⟩ := task i
    · exact handover.worked i t (same.symm.trans mine)
    · cases none.symm.trans mine
  · refine Agree.staged (fun t _ => .refl s t) (fun i acts => ⟨id, fun t mine job => ?_⟩)
      (handover.staged m member)
    obtain ⟨j, at_j⟩ := List.mem_iff_getElem?.mp member
    have busy := busy_iff.mpr ((census_pos active).mpr ⟨j, m, at_j, acts⟩)
    obtain same | ⟨-, free⟩ := task i
    · exact ⟨.refl s t, same.trans mine, job⟩
    · exact absurd busy free

omit [DecidableEq T] in
/-- A worker without a task takes one from the queue, or none. -/
theorem Handover.takes {i : ℕ} {pool : ThreadPool.State T} (handover : Handover s)
    (idle : s.pool.task i = none) (takes : Takes s.pool pool i) :
    Handover ({ s with pool := pool }.setjob i .fetched) := by
  have queue : ∀ t ∈ pool.pool.queue, t ∈ s.pool.pool.queue := by
    intro t queued
    obtain ⟨same, -⟩ | ⟨u, first, -⟩ := takes.found
    · rw [same] at queued
      exact queued
    · rw [first]
      exact List.mem_cons_of_mem u queued
  have others : ∀ k, k ≠ i → pool.task k = s.pool.task k := by
    intro k other
    obtain ⟨-, same⟩ | ⟨u, -, taken⟩ := takes.found
    · rw [same]
    · rw [taken, Function.update_of_ne other]
  have jobs : ∀ k, k ≠ i → ({ s with pool := pool }.setjob i .fetched).job k = s.job k :=
    fun k other => Function.update_of_ne other _ _
  have job : ({ s with pool := pool }.setjob i .fetched).job i = .fetched :=
    Function.update_self i _ s.job
  refine ⟨fun t queued => handover.queued t (queue t queued), handover.waiting,
    handover.unstored, fun k base => ?_, fun k t task => ?_, fun m member => ?_,
    handover.single⟩
  · by_cases here : k = i
    · subst k
      rw [job]
      simp
    · rw [jobs k here]
      exact handover.kept k base
  · by_cases here : k = i
    · subst k
      rw [job]
      obtain ⟨-, same⟩ | ⟨u, first, taken⟩ := takes.found
      · change pool.task i = some t at task
        rw [same, idle] at task
        cases task
      · change pool.task i = some t at task
        rw [taken, Function.update_self] at task
        cases Option.some.inj task
        exact handover.queued _ (by rw [first]; exact List.mem_cons_self)
    · rw [jobs k here]
      exact Agree.worked (fun _ => .refl s t) (fun _ => id)
        (handover.worked k t ((others k here).symm.trans task))
  · refine Agree.staged (fun t _ => .refl s t) (fun k acts => ?_) (handover.staged m member)
    by_cases here : k = i
    · subst k
      rw [job]
      refine ⟨by simp, fun t task => ?_⟩
      cases idle.symm.trans task
    · rw [jobs k here]
      exact ⟨id, fun t task exchanging => ⟨.refl s t, (others k here).trans task, exchanging⟩⟩

/-- A task that is nowhere gets a stack. -/
theorem Handover.fresh {L : Stack} {b : Bool} (handover : Handover s)
    (balanced : Balanced (ledger s)) (fresh : t ∉ s.added) :
    Handover { s with
      stack := Function.update s.stack t L
      started := Function.update s.started t b } := by
  have agree {p : Place} {u : T} (held : (view s).Holds p u) : Agree s
      { s with
        stack := Function.update s.stack t L
        started := Function.update s.started t b } u := by
    have known : u ∈ s.added := ((balanced.placed u).mp ⟨p, held⟩).1
    have other : u ≠ t := by
      rintro rfl
      exact fresh known
    exact ⟨Function.update_of_ne other _ _, rfl, Function.update_of_ne other _ _⟩
  refine ⟨fun u queued => (agree (p := .queue) queued).loaded (handover.queued u queued),
    fun name waiter waits => ?_, handover.unstored, handover.kept, fun i u task => ?_,
    fun m member => ?_, handover.single⟩
  · refine Agree.offeredBy (fun u mine => ?_) (handover.waiting name waiter waits)
    cases waiter with
    | task v =>
      cases Option.some.inj mine
      exact agree (holds_sync waits)
    | channel c K => cases mine
  · exact Agree.worked (fun holds => agree (holds_task task holds)) (fun _ => id)
      (handover.worked i u task)
  · obtain ⟨j, at_j⟩ := List.mem_iff_getElem?.mp member
    refine Agree.staged (fun u mine => agree (holds_matcher at_j mine)) (fun i _ => ⟨id, ?_⟩)
      (handover.staged m member)
    intro u task job
    exact ⟨agree (holds_task task (by simp [job, Job.holds])), task, job⟩

omit [DecidableEq T] in
theorem Returning.loaded (returning : Returning s t) : Loaded s t := by
  rw [Loaded, if_pos returning.1]
  exact returning.2

omit [DecidableEq T] in
theorem offeredBy_armsynced (c : C) (L : Stack) : OfferedBy s (.channel c (armsynced L)) := by
  unfold armsynced
  simp only
  split_ifs with some
  · refine ⟨_, _, rfl, Nat.zero_le _, fun _ => ?_⟩
    simp only [List.length_cons, List.length_drop]
    omega
  · have none : L.length - 2 = 0 := by omega
    exact ⟨[], _, rfl, Nat.zero_le _, fun more => absurd more (by omega)⟩

omit [DecidableEq T] in
/-- The values that a task yields with the name of a channel are there to be exchanged. -/
theorem Yielded.checked {base : ℕ} {endpoint : Endpoint} {L : Stack} {v : Value}
    (yielded : Yielded s t base)
    (checked : checksyncargs ((s.stack t).set base v) (base + 2) = some (some endpoint, L)) :
    L.take base = s.below t ∧ Offers L base (L.length - base - 2) := by
  obtain ⟨-, -, low, fits⟩ := yielded
  obtain ⟨length, same⟩ := checksyncargs_some (k := base) checked (by omega)
  rw [List.length_set] at length
  rw [List.take_set_of_le le_rfl, low] at same
  exact ⟨same, by omega, by omega⟩

theorem Handover.wait {i base : ℕ} {name : String} {endpoint : Endpoint} {L : Stack} {v : Value}
    {sync : Sync (Waiter T C)} (handover : Handover s) (balanced : Balanced (ledger s))
    (running : s.running i = some t) (job : s.job i = .yielded base)
    (checked : checksyncargs ((s.stack t).set base v) (base + 2) = some (some endpoint, L))
    (queue : sync.queue = (s.sync name).queue ++ [.task t]) :
    Handover (((s.setsync name sync).setstack t (offer L base (L.length - base - 2))).setjob i
      (.freeing false)) := by
  have yielded := handover.yielded running job
  obtain ⟨low, offers⟩ := yielded.checked checked
  have touched : Handover ((s.setstack t (offer L base (L.length - base - 2))).setjob i
      (.freeing false)) :=
    handover.touch balanced running (by simp [job, Job.holds]) rfl rfl rfl rfl rfl
      (fun u other => agree_setstack _ other) (by simp) trivial
  refine touched.setsync (fun waiter waits => ?_)
  rw [queue] at waits
  obtain old | new := List.mem_append.mp waits
  · exact Or.inl old
  · rw [List.mem_singleton.mp new]
    refine Or.inr ⟨yielded.1, L, L.length - base - 2, ?_⟩
    have mine : (s.below t).length = base := yielded.2.1.symm
    change Function.update s.stack t _ t = offer L (s.below t).length _ ∧
      Offers L (s.below t).length _ ∧ L.take (s.below t).length = s.below t
    rw [Function.update_self, mine]
    exact ⟨rfl, offers, low⟩

theorem Handover.found {i base : ℕ} {name : String} {endpoint : Endpoint} {L : Stack} {v : Value}
    {sync : Sync (Waiter T C)} {waiter : Waiter T C} (handover : Handover s)
    (balanced : Balanced (ledger s)) (running : s.running i = some t)
    (job : s.job i = .yielded base)
    (checked : checksyncargs ((s.stack t).set base v) (base + 2) = some (some endpoint, L))
    (queue : (s.sync name).queue = waiter :: sync.queue) (channels : Channels T C) :
    Handover (startMatch channels (((s.setsync name sync).setstack t L).setjob i (.freeing true))
      (some i) (.task t base (L.length - base - 2)) waiter) := by
  have yielded := handover.yielded running job
  obtain ⟨low, offers⟩ := yielded.checked checked
  obtain ⟨task, free⟩ := running_iff.mp running
  have kept : Yielded (s.setstack t L) t base := by
    refine ⟨yielded.1, yielded.2.1, ?_, ?_⟩
    · simpa [State.setstack] using low
    · simpa [State.setstack] using offers.1
  have same : (s.setstack t L).job = Function.update s.job i (.yielded base) := by
    rw [← job, Function.update_eq_self]
    rfl
  have touched : Handover (s.setstack t L) :=
    handover.touch balanced running (by simp [job, Job.holds]) rfl rfl rfl rfl same
      (fun u other => agree_setstack _ other) (by simp) kept
  have first : waiter ∈ ((s.setstack t L).sync name).queue := by
    change waiter ∈ (s.sync name).queue
    rw [queue]
    exact List.mem_cons_self
  have offered := touched.waiting name waiter first
  have rest : Handover ((s.setstack t L).setsync name sync) := by
    refine touched.setsync fun other waits => Or.inl ?_
    change other ∈ (s.sync name).queue
    rw [queue]
    exact List.mem_cons_of_mem waiter waits
  refine rest.begin channels (Function.update s.job i (.freeing true)) (some i)
    (.task t base (L.length - base - 2)) offered (fun k mine => ?_) (fun k => ?_)
    ⟨kept, ?_, i, rfl, task, Function.update_self ..⟩
  · cases Option.some.inj mine
    exact free
  · by_cases here : k = i
    · subst k
      exact Or.inr ⟨Function.update_self .., rfl⟩
    · exact Or.inl (Function.update_of_ne here _ _)
  · change Offers (Function.update s.stack t L t) base _
    rw [Function.update_self]
    exact offers

variable [DecidableEq C] {channels : Channels T C}

/-- No task is stored in its channel task by the step. -/
def Unstored (s : State T C) (a : Act T C) : Prop :=
  ∀ i base t, a = .handle i → s.running i = some t → s.job i = .yielded base → ¬stores s t base

omit [DecidableEq C] in
theorem Handover.suspend {i base : ℕ} (handover : Handover s)
    (running : s.running i = some t) (job : s.job i = .yielded base) (passed : ¬stores s t base) :
    Handover (suspendedchtask s i t base) := by
  rw [suspendedchtask, if_neg passed]
  exact handover.setjob _ running (by simp) (handover.yielded running job)

theorem Handover.process {c : C} {u : State T C} (handover : Handover s)
    (processed : onsynced channels s c = some u) : Handover u := by
  have unstored : ∀ t, (u.chan t).L = none := by
    intro t
    obtain ⟨signal, -, rfl⟩ := Option.map_eq_some_iff.mp processed
    simp only
    split
    · exact handover.unstored t
    · rename_i v owner
      by_cases mine : t = v
      · subst v
        simpa [State.note, State.setchan] using handover.unstored t
      · simpa [State.note, State.setchan, mine] using handover.unstored t
  rw [onsynced_frame processed]
  exact ⟨handover.queued, handover.waiting, unstored, handover.kept, handover.worked,
    handover.staged, handover.single⟩

omit [DecidableEq C] in
theorem calls_free {thread : Option ℕ} {c : C} (calls : s.calls channels thread c) (i : ℕ)
    (mine : thread = some i) : ¬s.busy i ∧ s.job i ≠ .freeing true := by
  subst thread
  simp only [TaskSystem.State.calls] at calls
  split at calls
  · simp at calls
  · rename_i u owner
    simp only [State.executes, decide_eq_true_eq] at calls
    refine ⟨(running_iff.mp calls.1).2, fun job => ?_⟩
    rw [job] at calls
    simp at calls

omit [DecidableEq T] [DecidableEq C] in
theorem Handover.free {i : ℕ} {enqueue : Bool} (handover : Handover s)
    (running : s.running i = some t)
    (job : s.job i = .freeing enqueue) : Handover (s.setjob i (.returning enqueue true)) := by
  obtain ⟨task, free⟩ := running_iff.mp running
  cases enqueue with
  | true =>
    have worked := handover.worked i t task
    rw [job] at worked
    refine handover.setjob _ running (by simp) ?_
    obtain ⟨m, member, thread, waiter, taken⟩ | returning := worked
    · obtain ⟨j, at_j⟩ := List.mem_iff_getElem?.mp member
      have acts : active m = some i := by
        simp [active, taken, Stage.isDone, thread]
      exact absurd (busy_iff.mpr ((census_pos active).mpr ⟨j, m, at_j, acts⟩)) free
    · exact returning
  | false => exact handover.setjob _ running (by simp) trivial

omit [DecidableEq T] [DecidableEq C] in
theorem Handover.finish {i w : ℕ} {enqueue yielded : Bool} {pool : ThreadPool.State T}
    (handover : Handover s) (running : s.running i = some t)
    (job : s.job i = .returning enqueue yielded)
    (stepped : ThreadPool.step s.pool (.finish i enqueue yielded w) = some pool) :
    Handover ({ s with pool := pool }.setjob i .fetched) := by
  obtain ⟨busy, free⟩ := running_iff.mp running
  obtain ⟨u, v, task, queue, tasks, -, -, -, takes⟩ := finish_tasks stepped
  obtain rfl := Option.some.inj (task.symm.trans busy)
  have settled : Handover { s with pool := v } := by
    refine handover.setpool _ (fun r queued => ?_) (fun k => ?_)
    · rw [queue] at queued
      cases enqueue with
      | false => exact Or.inl queued
      | true =>
        obtain old | new := List.mem_append.mp queued
        · exact Or.inl old
        · have worked := handover.worked i u busy
          rw [job] at worked
          rw [List.mem_singleton.mp new]
          exact Or.inr (Returning.loaded worked)
    · rw [tasks]
      by_cases here : k = i
      · subst k
        exact Or.inr ⟨Function.update_self .., free⟩
      · exact Or.inl (Function.update_of_ne here _ _)
  refine settled.takes ?_ takes
  change v.task i = none
  rw [tasks, Function.update_self]

omit [DecidableEq C] in
theorem Handover.call {thread : Option ℕ} {c : C} {endpoint : Endpoint} {K L : Stack}
    {sync : Sync (Waiter T C)} {waiter : Waiter T C} (handover : Handover s)
    (calls : s.calls channels thread c) (checked : checksyncargs K 2 = some (some endpoint, L))
    (queue : (s.sync (channels.name c)).queue = waiter :: sync.queue) (given : K ≠ []) :
    Handover (startMatch channels (s.setsync (channels.name c) sync) thread
      (.caller L 1 (L.length - 2)) waiter) := by
  have first : waiter ∈ (s.sync (channels.name c)).queue := by
    rw [queue]
    exact List.mem_cons_self
  have rest : Handover (s.setsync (channels.name c) sync) := by
    refine handover.setsync fun other waits => Or.inl ?_
    rw [queue]
    exact List.mem_cons_of_mem waiter waits
  have offers : Offers L 1 (L.length - 2) := by
    have length := (checksyncargs_some (k := 0) checked (by omega)).1
    have some := List.length_pos_of_ne_nil given
    exact ⟨by omega, by omega⟩
  have offered : OfferedBy (s.setsync (channels.name c) sync) waiter :=
    Agree.offeredBy (fun t _ => .refl s t) (handover.waiting _ waiter first)
  exact rest.begin channels s.job thread (.caller L 1 (L.length - 2)) offered
    (fun i mine => (calls_free calls i mine).1) (fun i => Or.inl rfl)
    ⟨offers, fun i mine => (calls_free calls i mine).2⟩

theorem Handover.send {j : ℕ} {m : Matcher T C} {c : C} {L : Stack} (handover : Handover s)
    (at_j : s.matchers[j]? = some m) (stage : m.stage = .swapped c L) :
    Handover (TaskSystem.send channels s j m c L) := by
  have signalled : Handover (asyncsend s c L) ∧ (asyncsend s c L).matchers = s.matchers := by
    unfold asyncsend
    split_ifs
    · exact ⟨handover, rfl⟩
    · exact ⟨handover.account _ _ _ _ _ _, rfl⟩
  obtain ⟨signalled, matchers⟩ := signalled
  rw [← matchers] at at_j
  have begun : ¬m.stage.isDone := by simp [stage, Stage.isDone]
  unfold TaskSystem.send
  simp only
  split
  · exact signalled.setstage .done at_j begun (by simp [stage]) trivial
  · rename_i t owner
    exact (signalled.setstage (.sent t) at_j begun (by simp [stage]) trivial).account _ _ _ _ _ _

omit [DecidableEq C] in
theorem Handover.book {j : ℕ} {m : Matcher T C} (handover : Handover s)
    (at_j : s.matchers[j]? = some m) (stage : m.stage = .sent t) :
    Handover (TaskSystem.book s j m t) := by
  have counted : Handover (s.setchan t ⟨(s.chan t).wakes + 1, none⟩) := by
    refine ⟨handover.queued, handover.waiting, fun u => ?_, handover.kept, handover.worked,
      handover.staged, handover.single⟩
    by_cases mine : u = t
    · subst u
      simp [State.setchan]
    · simpa [State.setchan, mine] using handover.unstored u
  simp only [TaskSystem.book, handover.unstored t]
  exact (counted.setstage .done at_j (by simp [stage, Stage.isDone]) (by simp [stage])
    trivial).account _ _ _ _ _ _

omit [DecidableEq T] [DecidableEq C] in
theorem Handover.resumetask {j : ℕ} {m : Matcher T C} {created added : Bool} {w : ℕ}
    {pool : ThreadPool.State T} (handover : Handover s) (at_j : s.matchers[j]? = some m)
    (stage : m.stage = .resuming t)
    (result : ThreadPool.addthread_mx s.pool t created w = some (added, pool)) :
    Handover (State.setstage { s with pool := pool } j m (if added then .done else .closing t)) := by
  have begun : ¬m.stage.isDone := by simp [stage, Stage.isDone]
  have returning : Returning s t := by
    have staged := handover.staged m (List.mem_of_getElem? at_j)
    simpa only [Staged, stage] using staged
  obtain ⟨rfl, -, same⟩ | ⟨rfl, queue, task, -⟩ := addthread_mx_tasks result
  · have pooled := handover.setpool pool (fun u queued => Or.inl (same.queue ▸ queued))
      fun i => Or.inl (by rw [same.task])
    exact pooled.setstage _ at_j begun (by simp [stage]) trivial
  · have pooled := handover.setpool pool (fun u queued => ?_) fun i => Or.inl (by rw [task])
    · exact pooled.setstage _ at_j begun (by simp [stage]) trivial
    · rw [queue] at queued
      obtain old | new := List.mem_append.mp queued
      · exact Or.inl old
      · rw [List.mem_singleton.mp new]
        exact Or.inr returning.loaded

theorem Handover.step {a : Act T C} (handover : Handover s) (conserving : Conserving s)
    (unstored : Unstored s a) (stepped : Step channels s a s') : Handover s' := by
  have balanced := conserving.balanced
  cases stepped with
  | add fresh nonempty added =>
    rename_i t L created w pool
    obtain ⟨queue, task, -⟩ := addtpooltask_tasks added
    have stacked := handover.fresh (L := L) (b := false) balanced fresh
    refine (stacked.setpool pool (fun u queued => ?_) fun i => Or.inl (by rw [task])).account
      _ _ _ _ _ _
    rw [queue] at queued
    obtain old | new := List.mem_append.mp queued
    · exact Or.inl old
    · rw [List.mem_singleton.mp new]
      right
      simpa [Loaded] using nonempty
  | lock kind stepped =>
    obtain ⟨idle, takes⟩ := lock_tasks kind stepped
    exact handover.takes idle takes
  | elsewhere kind free stepped =>
    obtain ⟨queue, task, -⟩ := elsewhere_tasks kind stepped
    exact handover.setpool _ (fun t queued => Or.inl (queue ▸ queued)) fun i => Or.inl (by rw [task])
  | close kind free stepped =>
    obtain ⟨-, task, -, ⟨queue, -⟩ | ⟨queue, -⟩⟩ := close_tasks kind stepped
    · exact handover.setpool _ (fun t queued => Or.inl (queue ▸ queued))
        fun i => Or.inl (by rw [task])
    · refine handover.setpool _ (fun t queued => ?_) fun i => Or.inl (by rw [task])
      rw [queue] at queued
      cases queued
  | drain closer unused =>
    rename_i t queue
    exact (handover.setpool (ThreadPool.collectthreadpool
      { s.pool with closer := .closing queue }) (fun t queued => Or.inl queued)
      fun i => Or.inl rfl).account _ _ _ _ _ _
  | resume running job => exact handover.resume balanced running job
  | yield running job => exact handover.yield balanced running job _ _
  | ends running job =>
    exact handover.setjob .closing running (by simp) trivial
  | closetask running job unused =>
    exact (handover.setjob (.returning false false) running (by simp) trivial).account _ _ _ _ _ _
  | reject running job named checked => exact handover.reject balanced running job checked
  | wait running job named checked queue => exact handover.wait balanced running job checked queue
  | found running job named checked queue =>
    exact handover.found balanced running job checked queue channels
  | suspend running job unnamed =>
    exact handover.suspend running job (unstored _ _ _ rfl running job)
  | free running job =>
    exact handover.free running job
  | discard running job => exact handover.discard balanced running job
  | finish running job stepped =>
    exact (handover.finish running job stepped).account _ _ _ _ _ _
  | arm syncs calls idle checked queue given =>
    refine (handover.setsync fun waiter waits => ?_).account _ _ _ _ _ _
    rw [queue] at waits
    obtain old | new := List.mem_append.mp waits
    · exact Or.inl old
    · rw [List.mem_singleton.mp new]
      exact Or.inr (offeredBy_armsynced _ _)
  | call syncs calls checked queue given => exact handover.call calls checked queue given
  | refuse syncs calls queue =>
    refine handover.setsync fun waiter waits => Or.inl ?_
    rw [queue] at waits
    exact waits
  | cancel calls waits =>
    rename_i thread c L
    have kept : Handover (s.setsync (channels.name c)
        (removestateq (s.sync (channels.name c)) (.channel c L))) :=
      handover.setsync fun waiter left => Or.inl (List.mem_of_mem_erase left)
    exact kept.account _ _ _ _ _ _
  | process calls processed => exact handover.process processed
  | swap at_j stage => exact handover.swap balanced at_j stage _
  | send at_j stage => exact handover.send at_j stage
  | book at_j stage => exact handover.book at_j stage
  | resumetask at_j stage result => exact handover.resumetask at_j stage result
  | collect at_j stage unused =>
    rename_i j m t
    have settled := (handover.setpool (ThreadPool.collectthreadpool s.pool)
      (fun t queued => Or.inl queued) fun i => Or.inl rfl).account
      s.armed s.signals s.added (s.closed ++ [t]) (s.accounted ++ [t]) s.tally
    exact settled.setstage .done at_j (by simp [stage, Stage.isDone]) (by simp [stage]) trivial

omit [DecidableEq T] [DecidableEq C] in
theorem handover_initial : Handover (initial : State T C) := by
  refine ⟨fun t queued => absurd queued List.not_mem_nil,
    fun name waiter waits => absurd waits List.not_mem_nil, fun _ => rfl, fun i base => ?_,
    fun i t task => ?_, fun m member => absurd member List.not_mem_nil, fun i => Nat.zero_le 1⟩
  · simp [initial]
  · cases task

theorem run_handover {acts : List (Act T C)} (along : Along (TaskSystem.step channels) Unstored
    initial acts) (ran : run (TaskSystem.step channels) initial acts = some s) :
    Conserving s ∧ Handover s :=
  run_invariant_along (fun s => Conserving s ∧ Handover s) Unstored
    (fun _ _ _ before unstored stepped =>
      ⟨before.1.step stepped, before.2.step before.1 unstored (step_cases stepped)⟩)
    ⟨conserving_initial, handover_initial⟩ along ran

end

end Coutil.TaskHandover
