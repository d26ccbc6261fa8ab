import Coutil.PoolTermination

set_option autoImplicit false

/-! A pool creates its threads on demand. A task that comes is left to the workers that start,
or to one that is signalled; the pool keeps creating threads up to its size unless the signal
is lost, because the worker that `idle` counts was woken already. -/
namespace Coutil.PoolDemand
open Runs Census ThreadPool PoolInvariant PoolTasks PoolTermination

variable {T : Type} {s s' : State T}

/-- Each pending task has a worker on its way, or there are as many as there may be. -/
def Grown (s : State T) : Prop :=
  s.pool.pending ≤ State.coming s ∨ s.pool.size ≤ s.pool.threads

/-- The pool is not closed in the step. -/
def Act.opened : Act T → Bool
  | .close => false
  | .closeagain => false
  | .closeawake => false
  | .collect => false
  | _ => true

/-- Every `uv_thread_create` of the step succeeds. -/
def Created (s : State T) : Act T → Prop
  | .add _ created _ => created
  | .resume _ created _ => created
  | .resize size create created _ =>
    0 < size - s.pool.size → (created : ℤ) =
      if ¬create ∧ size - s.pool.size > s.pool.pending then s.pool.pending
      else size - s.pool.size
  | _ => True

/-- A signal would be lost although one more thread is needed and may be created: some worker
is idle, but all of these were woken, and no worker on its way is for the task. -/
def Lost (s : State T) : Prop :=
  0 < s.pool.idle ∧ s.count .waiting = 0 ∧ State.coming s ≤ s.pool.pending ∧
    s.pool.threads < s.pool.size

def Heard (s : State T) : Act T → Prop
  | .add _ _ _ => ¬Lost s
  | .resume _ _ _ => ¬Lost s
  | _ => True

theorem coming_put {i : ℕ} {phase : Phase T} (at_i : s.workers[i]? = some phase) (pool : Pool T)
    (next : Phase T) :
    State.coming (State.put { s with pool := pool } i next) =
      State.coming s + (one (next.kind = .starting) + one (Kind.woken next.kind)) -
        (one (phase.kind = .starting) + one (Kind.woken phase.kind)) := by
  have counts := count_put_pool at_i pool next
  have arriving := one_woken next.kind
  have gone := one_woken phase.kind
  simp only [State.coming, counts]
  omega

theorem coming_create (s : State T) : State.coming s.create = State.coming s + 1 := by
  simp [State.coming, count_create]
  omega

/-- The thread that is called is enough for one more task. -/
theorem Grown.callthread {w : ℕ} (grown : Grown s) (counted : Counted s)
    (free : s.count .locked = 0) (heard : ¬Lost s)
    (called : callthread s true w = some s') :
    s'.pool.pending + 1 ≤ State.coming s' ∨ s'.pool.size ≤ s'.pool.threads := by
  have threads := counted.threads
  have idle := counted.idle
  have running := counted.running
  have coming : State.coming s = s.count .starting + s.count .signalled := by
    simp [State.coming, free]
  simp only [ThreadPool.callthread, if_true] at called
  split_ifs at called with few sleeping room
  · obtain ⟨empty, rfl⟩ | ⟨-, at_w, rfl⟩ := signal_cases called
    · by_contra neither
      exact heard ⟨sleeping, empty, by omega, by omega⟩
    · have more : State.coming (s.put w .signalled) = State.coming s + 1 :=
        (coming_put at_w s.pool .signalled).trans (by simp [Kind.woken])
      change s.pool.pending + 1 ≤ State.coming (s.put w .signalled) ∨ s.pool.size ≤ s.pool.threads
      unfold Grown at grown
      omega
  · cases Option.some.inj called
    have more := coming_create s
    unfold Grown at grown
    change s.pool.pending + 1 ≤ State.coming s.create ∨ s.pool.size ≤ s.pool.threads + 1
    omega
  · cases Option.some.inj called
    exact Or.inr (by omega)
  · cases Option.some.inj called
    exact Or.inl (by omega)

theorem Grown.addthread_mx {task : T} {added : Bool} {w : ℕ} (grown : Grown s)
    (quiet : Quiet s) (heard : ¬Lost s)
    (result : addthread_mx s task true w = some (added, s')) : Grown s' := by
  obtain ⟨u, called, accepted⟩ := Option.map_eq_some_iff.mp result
  have called := grown.callthread quiet.counted quiet.free heard called
  unfold accept at accepted
  split_ifs at accepted
  · cases accepted
    exact called.imp_left (by omega)
  · cases accepted
    exact called

theorem grown_signal {w : ℕ} (surplus : s.pool.size ≤ s.pool.threads)
    (signal : s.signal w = some s') : Grown s' := by
  obtain ⟨-, pool, -⟩ := asleep_signal signal
  exact Or.inr (by rw [pool]; exact surplus)

/-- A worker ends only if there are more than the pool is to have. -/
theorem grown_thread_end {i w : ℕ} (opened : s.pool.status = .opened)
    (surplus : s.pool.size < s.pool.threads) (ends : thread_end s i w = some s') : Grown s' := by
  have enough : (leave s i).pool.size ≤ (leave s i).pool.threads := by
    change s.pool.size ≤ s.pool.threads - 1
    omega
  have status : (leave s i).pool.status = .opened := opened
  unfold thread_end passon at ends
  rw [status, if_neg (by simp : ¬Status.opened = .closing)] at ends
  split_ifs at ends
  · exact grown_signal enough ends
  · cases Option.some.inj ends
    exact Or.inr enough

theorem Grown.work {i w : ℕ} (grown : Grown s) (opened : s.pool.status = .opened)
    (at_i : s.workers[i]? = some .locked) (worked : work s i w = some s') : Grown s' := by
  obtain ⟨⟨pool, found⟩, sought, turned⟩ := Option.bind_eq_some_iff.mp worked
  simp only at turned
  obtain ⟨rfl, rfl, surplus⟩ | ⟨rfl, rfl, -, -, -, closing, -⟩ |
    ⟨t, queue, rfl, -, -, rfl⟩ | ⟨rfl, rfl, -, empty, -⟩ := seek_cases sought
  · exact grown_thread_end opened surplus turned
  · cases opened.symm.trans closing
  · cases Option.some.inj turned
    unfold Grown
    rw [coming_put (s := s) at_i]
    change s.pool.pending - 1 ≤ _ ∨ s.pool.size ≤ s.pool.threads
    unfold Grown at grown
    simp [Kind.woken]
    omega
  · cases Option.some.inj turned
    refine Or.inl ?_
    change s.pool.pending ≤ _
    rw [empty]
    simp only [State.coming]
    omega

theorem Grown.holding {i : ℕ} {phase : Phase T} {pool : Pool T} (grown : Grown s)
    (locks : Locks s i phase pool) : Grown (holding s i pool) := by
  have brought := locks.brought
  have once : one (phase.kind = .starting) + one (Kind.woken phase.kind) +
      one (phase.kind = .running) ≤ 1 := by
    cases phase <;> simp [Kind.woken]
  unfold Grown PoolInvariant.holding
  rw [coming_put locks.at_i]
  change pool.pending ≤ _ ∨ pool.size ≤ pool.threads
  rw [locks.size, locks.threads]
  unfold Grown at grown
  simp [Kind.woken] at once ⊢
  omega

theorem Grown.resizetpool {size : ℤ} {create : Bool} {created w : ℕ} (grown : Grown s)
    (counted : Counted s) (all : Created s (.resize size create created w))
    (resized : resizetpool s size create created w = some s') : Grown s' := by
  have pending := counted.pending
  obtain ⟨-, rfl⟩ | ⟨fewer, extra, signal⟩ | ⟨fewer, -, rfl⟩ := resizetpool_cases resized
  · obtain ⟨pool, -, counts⟩ := iterate_create (s.setsize size) created
    have coming : State.coming (State.create^[created] (s.setsize size)) =
        State.coming s + created := by
      simp only [State.coming, counts, count_setsize]
      simp
      omega
    unfold Grown at grown ⊢
    rw [coming, pool]
    change s.pool.pending ≤ _ ∨ size ≤ s.pool.threads + created
    have some_coming : 0 ≤ State.coming s := by
      simp only [State.coming]
      omega
    simp only [Created] at all
    split_ifs at all <;> omega
  · simp only [hasextraidle_mx, gt_iff_lt, decide_eq_true_eq] at extra
    exact grown_signal (le_of_lt extra.1) signal
  · unfold Grown at grown ⊢
    change s.pool.pending ≤ State.coming s ∨ size ≤ s.pool.threads
    omega

/-- The pool stays open and has grown. -/
structure Open (s : State T) : Prop where
  quiet : Quiet s
  opened : s.pool.status = .opened
  grown : Grown s

theorem Open.step {act : Act T} (before : Open s) (opened : Act.opened act) (created : Created s act)
    (heard : Heard s act) (stepped : step s act = some s') : Open s' := by
  obtain ⟨quiet, status, grown⟩ := before
  have other : act ≠ .close ∧ act ≠ .closeagain :=
    ⟨fun closes => by simp [closes, Act.opened] at opened,
      fun closes => by simp [closes, Act.opened] at opened⟩
  refine ⟨quiet.step stepped, (steady_step quiet.counted other stepped).1.trans status, ?_⟩
  have worked (works : Act.works act) : Grown s' := by
    obtain ⟨i, w, phase, pool, locks, worked⟩ := works_cases quiet.counted works stepped
    exact (grown.holding locks).work (locks.status.trans status) locks.getElem worked
  cases act with
  | add task created' w =>
    cases created
    obtain ⟨⟨added, t⟩, result, kept⟩ := Option.bind_eq_some_iff.mp stepped
    simp only [Option.ite_none_right_eq_some, Option.some.injEq] at kept
    obtain ⟨-, rfl⟩ := kept
    have grown := grown.addthread_mx quiet heard result
    exact grown
  | resume task created' w =>
    cases created
    obtain ⟨⟨added, t⟩, result, rfl⟩ := Option.map_eq_some_iff.mp stepped
    exact grown.addthread_mx quiet heard result
  | start i w => exact worked rfl
  | awake i =>
    simp only [ThreadPool.step] at stepped
    split at stepped
    · rename_i at_i
      cases Option.some.inj stepped
      have same : State.coming (s.put i .spurious) = State.coming s :=
        (coming_put at_i s.pool .spurious).trans (by simp [Kind.woken])
      unfold Grown
      rw [same]
      exact grown
    · cases stepped
  | relock i w => exact worked rfl
  | finish i enqueued yielded w => exact worked rfl
  | resize size create created' w => exact grown.resizetpool quiet.counted created stepped
  | _ => cases opened

/-- The conditions on a step of an open pool. -/
def Fair (s : State T) (act : Act T) : Prop :=
  Act.opened act ∧ Created s act ∧ Heard s act

/-- In a run where no signal is lost, tasks wait for a busy worker only if there are as many
threads as there may be. -/
theorem grows_on_demand {acts : List (Act T)} (ran : run step createtpool acts = some s)
    (along : Along step Fair createtpool acts) (started : s.count .starting = 0)
    (awake : s.count .signalled = 0) (pending : 0 < s.pool.pending) :
    s.pool.size ≤ s.pool.threads := by
  have opened : Open s :=
    run_invariant_along Open Fair
      (fun _ _ _ before fair stepped => before.step fair.1 fair.2.1 fair.2.2 stepped)
      ⟨quiet_createtpool, rfl, Or.inl (le_refl 0)⟩ along ran
  have free := opened.quiet.free
  obtain enough | grown := opened.grown
  · simp only [State.coming] at enough
    omega
  · exact grown

instance (s : State T) : ∀ act, Decidable (Created s act)
  | .add _ created _ => inferInstanceAs (Decidable (created = true))
  | .resume _ created _ => inferInstanceAs (Decidable (created = true))
  | .resize _ _ _ _ => inferInstanceAs (Decidable (_ → _))
  | .start _ _ | .awake _ | .relock _ _ | .finish _ _ _ _ | .close | .closeagain | .closeawake
  | .collect => isTrue trivial

instance (s : State T) : Decidable (Lost s) := inferInstanceAs (Decidable (_ ∧ _))

instance (s : State T) : ∀ act, Decidable (Heard s act)
  | .add _ _ _ => inferInstanceAs (Decidable ¬Lost s)
  | .resume _ _ _ => inferInstanceAs (Decidable ¬Lost s)
  | .start _ _ | .awake _ | .relock _ _ | .finish _ _ _ _ | .resize _ _ _ _ | .close | .closeagain
  | .closeawake | .collect => isTrue trivial

instance (s : State T) (act : Act T) : Decidable (Fair s act) := inferInstanceAs (Decidable (_ ∧ _))

/-- Three tasks come one after the other, and then a fourth one waits. -/
def sampleDemand : List (Act ℕ) :=
  [.resize 3 false 0 0, .add 7 true 0, .start 0 0, .add 8 true 0, .start 1 0, .add 9 true 0,
    .start 2 0, .add 10 true 0]

theorem grows_on_demand_full :
    ∃ s : State ℕ, run step createtpool sampleDemand = some s ∧ 0 < s.pool.pending ∧
      s.pool.size ≤ s.pool.threads := by
  have ran : run step createtpool sampleDemand = some _ := rfl
  exact ⟨_, ran, by decide, grows_on_demand ran (by decide) (by decide) (by decide) (by decide)⟩

/-- Two tasks come while the one worker sleeps: the signal for the second is lost, and this
task waits for the worker although two more threads may be created. -/
theorem grows_on_demand_not :
    ¬∀ (acts : List (Act ℕ)) (s : State ℕ), run step createtpool acts = some s →
      Along step (fun s act => Act.opened act ∧ Created s act) createtpool acts →
      s.count .starting = 0 → s.count .signalled = 0 → 0 < s.pool.pending →
      s.pool.size ≤ s.pool.threads := by
  intro claim
  have ran : run step (createtpool : State ℕ) [.resize 3 false 0 0, .add 7 true 0, .start 0 0,
    .finish 0 false false 0, .add 8 true 0, .add 9 true 0, .relock 0 0] = some _ := rfl
  exact absurd (claim _ _ ran (by decide) (by decide) (by decide) (by decide)) (by decide)

end Coutil.PoolDemand
