import Coutil.ThreadPool

set_option autoImplicit false

/-! What holds of the thread pool whenever its mutex is free, in every interleaving. The
counters are the numbers of workers in the phases they name; and while a worker sleeps, the
pending tasks have other workers on their way to them. In the middle of a section the worker
that holds the mutex is one of these. -/
namespace Coutil.PoolInvariant
open Runs Census ThreadPool

variable {T : Type}

/-- One if the worker is counted. -/
def one (counted : Bool) : ℤ := if counted then 1 else 0

@[simp] theorem one_true : one true = 1 := rfl

@[simp] theorem one_false : one false = 0 := rfl

theorem count_put {s : State T} {i : ℕ} {phase : Phase T} (at_i : s.workers[i]? = some phase)
    (next : Phase T) (k : Kind) :
    ((s.put i next).count k : ℤ) = s.count k + one (next.kind = k) - one (phase.kind = k) := by
  have moved := census_set Phase.kind at_i next k
  simp only [State.count, State.put, one, decide_eq_true_eq]
  split_ifs at moved ⊢ <;> omega

theorem count_put_pool {s : State T} {i : ℕ} {phase : Phase T}
    (at_i : s.workers[i]? = some phase) (pool : Pool T) (next : Phase T) (k : Kind) :
    ((State.put { s with pool := pool } i next).count k : ℤ) =
      s.count k + one (next.kind = k) - one (phase.kind = k) :=
  count_put (s := { s with pool := pool }) at_i next k

theorem count_create (s : State T) (k : Kind) :
    (s.create.count k : ℤ) = s.count k + if k = .starting then 1 else 0 := by
  have added := census_append Phase.kind s.workers .starting k
  simp only [State.count, State.create, added, Phase.kind, eq_comm (a := Kind.starting)]
  split_ifs <;> simp

theorem count_broadcast (s : State T) (k : Kind) :
    s.broadcast.count k =
      if k = .waiting then 0
      else if k = .signalled then s.count .waiting + s.count .signalled
      else s.count k := by
  refine census_map_relabel Phase.kind (by decide) ?_ ?_ s.workers k
  · intro phase
    cases phase <;> simp [Phase.kind, Phase.wake]
  · intro phase
    cases phase <;> simp [Phase.kind, Phase.wake]

theorem getElem_put {s : State T} {i : ℕ} {phase : Phase T} (at_i : s.workers[i]? = some phase)
    (next : Phase T) : (s.put i next).workers[i]? = some next := by
  have bound := (List.getElem?_eq_some_iff.mp at_i).1
  simp only [State.put, List.getElem?_set_self bound]

/-- A signal is lost, or it moves one worker out of the wait. -/
theorem signal_cases {s s' : State T} {w : ℕ} (signal : s.signal w = some s') :
    (s.count .waiting = 0 ∧ s' = s) ∨
      (0 < s.count .waiting ∧ s.workers[w]? = some .waiting ∧ s' = s.put w .signalled) := by
  simp only [State.signal] at signal
  split_ifs at signal with empty there
  · exact Or.inl ⟨empty, (Option.some.inj signal).symm⟩
  · refine Or.inr ⟨by omega, ?_, (Option.some.inj signal).symm⟩
    obtain ⟨phase, at_w, kind⟩ := Option.map_eq_some_iff.mp there
    cases phase <;> simp_all [Phase.kind]

/-- The counters count, also while some workers hold the mutex. -/
structure Counted (s : State T) : Prop where
  threads : s.pool.threads = s.count .starting + s.count .waiting + s.count .signalled +
    s.count .spurious + s.count .running + s.count .locked
  idle : s.pool.idle = s.count .waiting + s.count .signalled + s.count .spurious
  running : s.pool.running = s.count .running
  pending : s.pool.pending = s.pool.queue.length

/-- The workers that will look at the queue, and will do so because they were told to. -/
def State.coming (s : State T) : ℤ :=
  s.count .starting + s.count .signalled + s.count .locked

/-- While a worker sleeps, there is one on its way for each pending task; when there are too
many workers, one more, that was woken to end. -/
def Awake (s : State T) : Prop :=
  0 < s.count .waiting →
    (s.pool.threads ≤ s.pool.size ∧ s.pool.pending ≤ State.coming s) ∨
      (s.pool.size < s.pool.threads ∧ 0 < s.count .signalled + s.count .locked ∧
        s.pool.pending + 1 ≤ State.coming s)

structure Sound (s : State T) : Prop where
  counted : Counted s
  awake : Awake s

theorem sound_createtpool : Sound (createtpool : State T) where
  counted := ⟨rfl, rfl, rfl, rfl⟩
  awake := fun waiting => absurd waiting (lt_irrefl 0)

def Kind.idle (k : Kind) : Bool :=
  k = .waiting ∨ k = .signalled ∨ k = .spurious

theorem one_alive (k : Kind) :
    one (k = .starting) + one (k = .waiting) + one (k = .signalled) + one (k = .spurious) +
      one (k = .running) + one (k = .locked) = one (k ≠ .ended) := by
  cases k <;> rfl

theorem one_idle (k : Kind) :
    one (k = .waiting) + one (k = .signalled) + one (k = .spurious) = one (Kind.idle k) := by
  cases k <;> rfl

/-- Worker `i` goes from one phase to another, and the counters with it. -/
theorem Counted.put {s : State T} {i : ℕ} {phase next : Phase T} {pool : Pool T}
    (counted : Counted s) (at_i : s.workers[i]? = some phase)
    (threads : pool.threads =
      s.pool.threads + one (next.kind ≠ .ended) - one (phase.kind ≠ .ended))
    (idle : pool.idle = s.pool.idle + one (Kind.idle next.kind) - one (Kind.idle phase.kind))
    (running : pool.running =
      s.pool.running + one (next.kind = .running) - one (phase.kind = .running))
    (pending : pool.pending = pool.queue.length) :
    Counted (State.put { s with pool := pool } i next) := by
  have counts := count_put_pool at_i pool next
  have after := one_alive next.kind
  have before := one_alive phase.kind
  have after_idle := one_idle next.kind
  have before_idle := one_idle phase.kind
  refine ⟨?_, ?_, ?_, pending⟩
  · change pool.threads = _
    rw [threads, counted.threads]
    simp only [counts]
    omega
  · change pool.idle = _
    rw [idle, counted.idle]
    simp only [counts]
    omega
  · change pool.running = _
    rw [running, counted.running, counts]

def Kind.woken (k : Kind) : Bool :=
  k = .signalled ∨ k = .locked

theorem one_woken (k : Kind) :
    one (k = .signalled) + one (k = .locked) = one (Kind.woken k) := by
  cases k <;> rfl

/-- How the three numbers that matter while a worker sleeps change with worker `i`. -/
theorem awake_put {s : State T} {i : ℕ} {phase next : Phase T} {pool : Pool T}
    (at_i : s.workers[i]? = some phase)
    (after : 0 < s.count .waiting + one (next.kind = .waiting) - one (phase.kind = .waiting) →
      (pool.threads ≤ pool.size ∧ pool.pending ≤
        State.coming s + (one (next.kind = .starting) + one (Kind.woken next.kind)) -
          (one (phase.kind = .starting) + one (Kind.woken phase.kind))) ∨
      (pool.size < pool.threads ∧
        0 < s.count .signalled + s.count .locked + one (Kind.woken next.kind) -
          one (Kind.woken phase.kind) ∧
        pool.pending + 1 ≤
          State.coming s + (one (next.kind = .starting) + one (Kind.woken next.kind)) -
            (one (phase.kind = .starting) + one (Kind.woken phase.kind)))) :
    Awake (State.put { s with pool := pool } i next) := by
  intro waiting
  have counts := count_put_pool at_i pool next
  have arriving := one_woken next.kind
  have gone := one_woken phase.kind
  have still := counts .waiting
  have starting := counts .starting
  have signalled := counts .signalled
  have locked := counts .locked
  simp only [State.coming] at after ⊢
  obtain ⟨fits, enough⟩ | ⟨surplus, woken, enough⟩ := after (by omega)
  · refine Or.inl ⟨fits, ?_⟩
    change pool.pending ≤ _
    omega
  · refine Or.inr ⟨surplus, by omega, ?_⟩
    change pool.pending + 1 ≤ _
    omega

/-- A signal when there are too many workers. -/
theorem Sound.signal {s s' : State T} {w : ℕ} (counted : Counted s)
    (surplus : s.pool.size < s.pool.threads)
    (enough : 0 < s.count .waiting → s.pool.pending ≤ State.coming s)
    (signal : s.signal w = some s') : Sound s' := by
  obtain ⟨empty, rfl⟩ | ⟨waiting, at_w, rfl⟩ := signal_cases signal
  · exact ⟨counted, fun waiting => absurd waiting (by omega)⟩
  · refine ⟨counted.put at_w (by simp) (by simp [Kind.idle]) (by simp) counted.pending,
      awake_put at_w fun _ => Or.inr ⟨surplus, ?_, ?_⟩⟩
    · simp [Kind.woken]
      omega
    · have before := enough waiting
      simp [Kind.woken]
      omega

theorem Counted.broadcast {s : State T} (counted : Counted s) : Counted s.broadcast := by
  obtain ⟨threads, idle, running, pending⟩ := counted
  refine ⟨?_, ?_, ?_, pending⟩
  · change s.pool.threads = _
    simp [count_broadcast]
    omega
  · change s.pool.idle = _
    simp [count_broadcast]
    omega
  · change s.pool.running = _
    simp [count_broadcast]
    exact running

theorem count_setsize (s : State T) (size : ℤ) (k : Kind) : (s.setsize size).count k = s.count k :=
  rfl

theorem Counted.resized {s : State T} (counted : Counted s) (size : ℤ) :
    Counted (s.setsize size) :=
  ⟨counted.threads, counted.idle, counted.running, counted.pending⟩

/-- After a broadcast nobody sleeps. -/
theorem Sound.broadcast {s : State T} (counted : Counted s) : Sound s.broadcast :=
  ⟨counted.broadcast, fun waiting => absurd waiting (by simp [count_broadcast])⟩

theorem Sound.checkhalted_mx {s : State T} (sound : Sound s) : Sound (checkhalted_mx s) := by
  unfold ThreadPool.checkhalted_mx
  split
  · exact Sound.broadcast (sound.counted.resized 0)
  · exact sound

theorem Sound.signalterm {s : State T} (sound : Sound s) : Sound s.signalterm := by
  unfold State.signalterm
  split
  · exact ⟨⟨sound.counted.threads, sound.counted.idle, sound.counted.running,
      sound.counted.pending⟩, sound.awake⟩
  · exact sound

theorem count_leave {s : State T} {i : ℕ} (at_i : s.workers[i]? = some .locked) (k : Kind) :
    ((leave s i).count k : ℤ) = s.count k + one (Kind.ended = k) - one (Kind.locked = k) :=
  count_put_pool at_i _ .ended k

theorem Counted.leave {s : State T} {i : ℕ} (counted : Counted s)
    (at_i : s.workers[i]? = some .locked) : Counted (leave s i) :=
  counted.put at_i (by simp) (by simp [Kind.idle]) (by simp) counted.pending

theorem Sound.of_noextraidle {s : State T} (counted : Counted s)
    (enough : 0 < s.count .waiting → s.pool.pending ≤ State.coming s)
    (noextra : ¬hasextraidle_mx s.pool) : Sound s := by
  refine ⟨counted, fun waiting => Or.inl ⟨?_, enough waiting⟩⟩
  have idle := counted.idle
  simp only [hasextraidle_mx, gt_iff_lt, decide_eq_true_eq, not_and, not_lt] at noextra
  by_contra more
  have := noextra (by omega)
  omega

theorem Sound.passon {s s' : State T} {w : ℕ} (counted : Counted s)
    (enough : 0 < s.count .waiting → s.pool.pending ≤ State.coming s)
    (passed : passon s w = some s') : Sound s' := by
  have sound := Sound.of_noextraidle counted enough
  unfold ThreadPool.passon at passed
  split_ifs at passed with extra closing last
  · simp only [hasextraidle_mx, gt_iff_lt, decide_eq_true_eq] at extra
    exact Sound.signal counted extra.1 enough passed
  · cases Option.some.inj passed
    exact (sound extra).signalterm
  · cases Option.some.inj passed
    exact (sound extra).checkhalted_mx
  · cases Option.some.inj passed
    exact sound extra

/-- The worker that ends is not there for the tasks any more, nor was it for one of them. -/
theorem Sound.thread_end {s s' : State T} {i w : ℕ} (counted : Counted s)
    (at_i : s.workers[i]? = some .locked)
    (enough : 0 < s.count .waiting → s.pool.pending + 1 ≤ State.coming s)
    (ends : thread_end s i w = some s') : Sound s' := by
  refine Sound.passon (counted.leave at_i) ?_ ends
  intro waiting
  have still := count_leave at_i .waiting
  simp only [reduceCtorEq, decide_false, one_false] at still
  have before := enough (by omega)
  change s.pool.pending ≤ State.coming (ThreadPool.leave s i)
  simp only [State.coming, count_leave at_i] at before ⊢
  simp
  omega

/-- What a worker that holds the mutex finds. -/
theorem seek_cases {pool pool' : Pool T} {found : Turn T}
    (sought : seek 2 pool = some (pool', found)) :
    (found = .ends ∧ pool' = pool ∧ pool.size < pool.threads) ∨
      (found = .ends ∧ pool' = { pool with size := 0 } ∧ 0 < pool.threads ∧
        pool.threads ≤ pool.size ∧ pool.pending = 0 ∧ pool.status = .closing ∧
        pool.tasks = 0) ∨
      (∃ task queue, found = .takes task ∧ pool.threads ≤ pool.size ∧
        pool.queue = task :: queue ∧
        pool' = { pool with pending := pool.pending - 1, queue := queue }) ∨
      (found = .waits ∧ pool' = pool ∧ pool.threads ≤ pool.size ∧ pool.pending = 0 ∧
        ¬(pool.status = .closing ∧ pool.tasks = 0)) := by
  rw [seek] at sought
  split_ifs at sought with more waiting halted
  · cases sought
    exact Or.inl ⟨rfl, rfl, more⟩
  · cases queued : pool.queue with
    | nil => simp only [queued, reduceCtorEq] at sought
    | cons task queue =>
      simp only [queued, Option.some.injEq, Prod.mk.injEq] at sought
      exact Or.inr (Or.inr (Or.inl ⟨task, queue, sought.2.symm, by omega, rfl, sought.1.symm⟩))
  · have none_left : pool.pending = 0 := by omega
    simp only [seek, none_left, halted] at sought
    split_ifs at sought with alive
    · cases sought
      exact Or.inr (Or.inl ⟨rfl, by rw [none_left, halted.1, halted.2], alive, by omega, none_left, halted⟩)
    all_goals simp_all
  · cases sought
    exact Or.inr (Or.inr (Or.inr ⟨rfl, rfl, by omega, by omega, halted⟩))

theorem Sound.work {s s' : State T} {i w : ℕ} (sound : Sound s)
    (at_i : s.workers[i]? = some .locked) (worked : work s i w = some s') : Sound s' := by
  obtain ⟨counted, awake⟩ := sound
  have here : (0 : ℤ) < s.count .locked := by
    exact_mod_cast (census_pos Phase.kind).mpr ⟨i, .locked, at_i, rfl⟩
  obtain ⟨⟨pool, found⟩, sought, turned⟩ := Option.bind_eq_some_iff.mp worked
  simp only at turned
  obtain ⟨rfl, rfl, surplus⟩ | ⟨rfl, rfl, alive, -, empty, -⟩ |
    ⟨task, queue, rfl, fits, queued, rfl⟩ | ⟨rfl, rfl, fits, empty, -⟩ := seek_cases sought
  · refine Sound.thread_end counted at_i ?_ turned
    intro waiting
    obtain ⟨fits, -⟩ | ⟨-, -, enough⟩ := awake waiting
    · omega
    · exact enough
  · refine Sound.thread_end (s := s.setsize 0) (counted.resized 0) at_i ?_ turned
    intro waiting
    change s.pool.pending + 1 ≤ State.coming s
    simp only [State.coming]
    omega
  · cases Option.some.inj turned
    have pending : s.pool.pending = queue.length + 1 := by
      rw [counted.pending, queued, List.length_cons, Nat.cast_succ]
    refine ⟨Counted.put (s := s) counted at_i (by simp) (by simp [Kind.idle]) (by simp)
      (by simp [pending]), awake_put (s := s) at_i fun waiting => Or.inl ⟨fits, ?_⟩⟩
    simp at waiting
    obtain ⟨-, enough⟩ | ⟨surplus, -⟩ := awake (by omega)
    · simp [Kind.woken]
      omega
    · omega
  · cases Option.some.inj turned
    refine ⟨Counted.put (s := s) counted at_i (by simp) (by simp [Kind.idle]) (by simp)
      counted.pending, awake_put (s := s) at_i fun _ => Or.inl ⟨fits, ?_⟩⟩
    simp [State.coming, empty, Kind.woken]
    omega

theorem Counted.enqueue {s : State T} (counted : Counted s) (task : T) :
    Counted (enqueue s task) where
  threads := counted.threads
  idle := counted.idle
  running := counted.running
  pending := by
    change s.pool.pending + 1 = ((s.pool.queue ++ [task]).length : ℤ)
    simp [counted.pending]

theorem Counted.create {s : State T} (counted : Counted s) : Counted s.create := by
  obtain ⟨threads, idle, running, pending⟩ := counted
  refine ⟨?_, ?_, ?_, pending⟩
  · change s.pool.threads + 1 = _
    simp [count_create]
    omega
  · change s.pool.idle = _
    simp [count_create]
    omega
  · change s.pool.running = _
    simp [count_create]
    exact running

theorem Sound.of_none_waiting {s : State T} (counted : Counted s) (none : s.count .waiting = 0) :
    Sound s :=
  ⟨counted, fun waiting => absurd waiting (by omega)⟩

/-- The state takes one more task without a sleeping worker being left out. -/
def Ready (s : State T) : Prop :=
  Sound s ∧ ∀ task, Sound (enqueue s task)

theorem ready_of_none_waiting {s : State T} (counted : Counted s) (none : s.count .waiting = 0) :
    Ready s :=
  ⟨.of_none_waiting counted none, fun task => .of_none_waiting (counted.enqueue task) none⟩

theorem ready_signal {s s' : State T} {w : ℕ} (sound : Sound s) (signal : s.signal w = some s') :
    Ready s' := by
  obtain ⟨counted, awake⟩ := sound
  obtain ⟨empty, rfl⟩ | ⟨waiting, at_w, rfl⟩ := signal_cases signal
  · exact ready_of_none_waiting counted empty
  · have counted' : Counted (s.put w .signalled) :=
      counted.put at_w (by simp) (by simp [Kind.idle]) (by simp) counted.pending
    refine ⟨⟨counted', awake_put (s := s) at_w fun _ => ?_⟩, fun task =>
      ⟨counted'.enqueue task, awake_put (s := s) at_w fun _ => ?_⟩⟩
    all_goals
      obtain ⟨fits, enough⟩ | ⟨surplus, woken, enough⟩ := awake waiting
      · refine Or.inl ⟨fits, ?_⟩
        simp [Kind.woken]
        omega
      · refine Or.inr ⟨surplus, ?_, ?_⟩ <;> simp [Kind.woken] <;> omega

theorem ready_callthread {s s' : State T} {created : Bool} {w : ℕ} (sound : Sound s)
    (free : s.count .locked = 0) (called : callthread s created w = some s') : Ready s' := by
  have counted := sound.counted
  have idle := counted.idle
  unfold callthread at called
  split_ifs at called with few sleeping room
  · exact ready_signal sound called
  · cases Option.some.inj called
    refine ready_of_none_waiting counted.create ?_
    have := count_create s .waiting
    simp at this
    omega
  · cases Option.some.inj called
    exact ready_of_none_waiting counted (by omega)
  · cases Option.some.inj called
    exact ready_of_none_waiting counted (by omega)
  · cases Option.some.inj called
    refine ⟨sound, fun task => ⟨counted.enqueue task, fun waiting => ?_⟩⟩
    have threads := counted.threads
    have running := counted.running
    change (s.pool.threads ≤ s.pool.size ∧ s.pool.pending + 1 ≤ State.coming s) ∨
      (s.pool.size < s.pool.threads ∧ 0 < s.count .signalled + s.count .locked ∧
        s.pool.pending + 1 + 1 ≤ State.coming s)
    simp only [State.coming]
    obtain ⟨fits, -⟩ | ⟨surplus, woken, -⟩ := sound.awake waiting
    · exact Or.inl ⟨fits, by omega⟩
    · exact Or.inr ⟨surplus, woken, by omega⟩

theorem Sound.addthread_mx {s s' : State T} {task : T} {created added : Bool} {w : ℕ}
    (sound : Sound s) (free : s.count .locked = 0)
    (result : addthread_mx s task created w = some (added, s')) : Sound s' := by
  obtain ⟨t, called, accepted⟩ := Option.map_eq_some_iff.mp result
  obtain ⟨kept, taken⟩ := ready_callthread sound free called
  unfold accept at accepted
  split_ifs at accepted
  · cases accepted
    exact kept
  · cases accepted
    exact taken task

theorem iterate_create (s : State T) (n : ℕ) :
    (State.create^[n] s).pool = { s.pool with threads := s.pool.threads + n } ∧
      (State.create^[n] s).closer = s.closer ∧
      ∀ k, ((State.create^[n] s).count k : ℤ) = s.count k + if k = .starting then (n : ℤ) else 0 := by
  induction n with
  | zero => simp
  | succ n ih =>
    obtain ⟨pool, closer, counts⟩ := ih
    simp only [Function.iterate_succ_apply']
    refine ⟨?_, closer, fun k => ?_⟩
    · simp only [State.create, pool, Nat.cast_succ, add_assoc]
    · rw [count_create, counts]
      split_ifs <;> simp [add_assoc]

theorem Counted.iterate_create {s : State T} (counted : Counted s) (n : ℕ) :
    Counted (State.create^[n] s) := by
  induction n with
  | zero => exact counted
  | succ n ih =>
    rw [Function.iterate_succ_apply']
    exact ih.create

/-- Growing creates up to as many threads as the pool grew; otherwise a worker may be one too
many. -/
theorem resizetpool_cases {s s' : State T} {size : ℤ} {create : Bool} {created w : ℕ}
    (resized : resizetpool s size create created w = some s') :
    (created ≤ size - s.pool.size ∧
      s' = State.create^[created] (s.setsize size)) ∨
    (size ≤ s.pool.size ∧ hasextraidle_mx (s.setsize size).pool ∧
      (s.setsize size).signal w = some s') ∨
    (size ≤ s.pool.size ∧ ¬hasextraidle_mx (s.setsize size).pool ∧ s' = s.setsize size) := by
  simp only [resizetpool] at resized
  split_ifs at resized with more few fits fits extra
  · exact Or.inl ⟨by omega, (Option.some.inj resized).symm⟩
  · exact Or.inl ⟨fits, (Option.some.inj resized).symm⟩
  · exact Or.inr (Or.inl ⟨by omega, extra, resized⟩)
  · exact Or.inr (Or.inr ⟨by omega, extra, (Option.some.inj resized).symm⟩)

theorem Sound.grow {s : State T} {size : ℤ} {created : ℕ} (sound : Sound s)
    (bound : created ≤ size - s.pool.size) :
    Sound (State.create^[created] (s.setsize size)) := by
  refine ⟨(sound.counted.resized size).iterate_create created, fun waiting => ?_⟩
  obtain ⟨pool, -, counts⟩ := PoolInvariant.iterate_create (s.setsize size) created
  have still := counts .waiting
  have signalled := counts .signalled
  have starting := counts .starting
  have locked := counts .locked
  simp only [count_setsize, reduceCtorEq, if_false, if_true] at still signalled starting locked
  have before := sound.awake (by omega)
  simp only [State.coming, pool, State.setsize_pool] at before ⊢
  by_cases fits : s.pool.threads + created ≤ size
  · exact Or.inl ⟨fits, by omega⟩
  · exact Or.inr ⟨by omega, by omega, by omega⟩

theorem Sound.resizetpool {s s' : State T} {size : ℤ} {create : Bool} {created w : ℕ}
    (sound : Sound s) (resized : resizetpool s size create created w = some s') : Sound s' := by
  have enough : 0 < s.count .waiting → s.pool.pending ≤ State.coming s := by
    intro waiting
    obtain ⟨-, enough⟩ | ⟨-, -, enough⟩ := sound.awake waiting
    · exact enough
    · omega
  obtain ⟨bound, rfl⟩ | ⟨-, extra, signal⟩ | ⟨-, extra, rfl⟩ := resizetpool_cases resized
  · exact sound.grow bound
  · simp only [hasextraidle_mx, gt_iff_lt, decide_eq_true_eq] at extra
    exact Sound.signal (sound.counted.resized size) extra.1 enough signal
  · exact Sound.of_noextraidle (sound.counted.resized size) enough extra

theorem Sound.congr {s t : State T} (sound : Sound s) (workers : t.workers = s.workers)
    (threads : t.pool.threads = s.pool.threads) (idle : t.pool.idle = s.pool.idle)
    (running : t.pool.running = s.pool.running) (pending : t.pool.pending = s.pool.pending)
    (queue : t.pool.queue = s.pool.queue) (size : t.pool.size = s.pool.size) : Sound t := by
  have counts (k : Kind) : t.count k = s.count k := by rw [State.count, workers, State.count]
  obtain ⟨⟨ht, hi, hr, hp⟩, awake⟩ := sound
  refine ⟨⟨?_, ?_, ?_, ?_⟩, ?_⟩
  · simp only [counts, threads, ht]
  · simp only [counts, idle, hi]
  · simp only [counts, running, hr]
  · rw [pending, queue, hp]
  · simp only [Awake, State.coming, counts, threads, pending, size] at awake ⊢
    exact awake

theorem Sound.closeloop {s : State T} (sound : Sound s) : Sound (closeloop s) := by
  unfold ThreadPool.closeloop
  split_ifs with alive
  · exact sound.checkhalted_mx.congr rfl rfl rfl rfl rfl rfl rfl
  · obtain ⟨⟨threads, idle, running, -⟩, -⟩ := sound
    refine .of_none_waiting ⟨threads, idle, running, rfl⟩ ?_
    change s.count .waiting = 0
    omega

theorem locked_signal {s s' : State T} {w : ℕ} (signal : s.signal w = some s') :
    s'.count .locked = s.count .locked := by
  obtain ⟨-, rfl⟩ | ⟨-, at_w, rfl⟩ := signal_cases signal
  · rfl
  · have moved := count_put at_w .signalled .locked
    simp at moved
    exact moved

theorem locked_checkhalted_mx (s : State T) :
    (checkhalted_mx s).count .locked = s.count .locked := by
  unfold checkhalted_mx
  split_ifs
  · simp only [count_broadcast, reduceCtorEq, if_false]
    rfl
  · rfl

theorem locked_passon {s s' : State T} {w : ℕ} (passed : passon s w = some s') :
    s'.count .locked = s.count .locked := by
  unfold passon at passed
  split_ifs at passed
  · exact locked_signal passed
  · cases Option.some.inj passed
    unfold State.signalterm
    split <;> rfl
  · cases Option.some.inj passed
    exact locked_checkhalted_mx s
  · cases Option.some.inj passed
    rfl

theorem locked_work {s s' : State T} {i w : ℕ} (at_i : s.workers[i]? = some .locked)
    (worked : work s i w = some s') : (s'.count .locked : ℤ) = s.count .locked - 1 := by
  obtain ⟨⟨pool, found⟩, -, turned⟩ := Option.bind_eq_some_iff.mp worked
  cases found with
  | ends =>
    rw [locked_passon turned, leave, count_put_pool (s := s) at_i]
    simp
  | takes task =>
    cases Option.some.inj turned
    rw [count_put_pool (s := s) at_i]
    simp
  | waits =>
    cases Option.some.inj turned
    rw [count_put_pool (s := s) at_i]
    simp

/-- Nobody holds the mutex between two sections. -/
structure Quiet (s : State T) : Prop extends Sound s where
  free : s.count .locked = 0

theorem quiet_createtpool : Quiet (createtpool : State T) :=
  ⟨sound_createtpool, rfl⟩

/-- What the worker `i` has before it as it gets the mutex. It brings a task back only if it
was running one. -/
structure Locks (s : State T) (i : ℕ) (phase : Phase T) (pool : Pool T) : Prop where
  at_i : s.workers[i]? = some phase
  alive : phase.kind ≠ .ended ∧ phase.kind ≠ .waiting
  threads : pool.threads = s.pool.threads
  size : pool.size = s.pool.size
  status : pool.status = s.pool.status
  idle : pool.idle = s.pool.idle - one (Kind.idle phase.kind)
  running : pool.running = s.pool.running - one (phase.kind = .running)
  pending : pool.pending = pool.queue.length
  brought : pool.pending ≤ s.pool.pending + one (phase.kind = .running)

/-- Worker `i` as it holds the mutex. -/
def holding (s : State T) (i : ℕ) (pool : Pool T) : State T :=
  State.put { s with pool := pool } i .locked

theorem Locks.getElem {s : State T} {i : ℕ} {phase : Phase T} {pool : Pool T}
    (locks : Locks s i phase pool) : (holding s i pool).workers[i]? = some .locked :=
  getElem_put (s := { s with pool := pool }) locks.at_i .locked

theorem Locks.counted {s : State T} {i : ℕ} {phase : Phase T} {pool : Pool T}
    (locks : Locks s i phase pool) (counted : Counted s) : Counted (holding s i pool) :=
  counted.put locks.at_i (by simp [locks.alive.1, locks.threads]) (by simp [Kind.idle, locks.idle])
    (by simp [locks.running]) locks.pending

theorem Locks.sound {s : State T} {i : ℕ} {phase : Phase T} {pool : Pool T}
    (locks : Locks s i phase pool) (sound : Sound s) : Sound (holding s i pool) := by
  refine ⟨locks.counted sound.counted, awake_put locks.at_i fun waiting => ?_⟩
  have brought := locks.brought
  have not_both : one (phase.kind = .starting) + one (Kind.woken phase.kind) +
      one (phase.kind = .running) ≤ 1 := by
    cases phase <;> simp [Kind.woken]
  simp only [locks.alive.2] at waiting
  simp at waiting
  have woken : (0 : ℤ) ≤ s.count .signalled + s.count .locked - one (Kind.woken phase.kind) := by
    have only := one_woken phase.kind
    have signalled := count_put locks.at_i .ended .signalled
    have locked := count_put locks.at_i .ended .locked
    simp only [kind_ended, reduceCtorEq, decide_false, one_false] at signalled locked
    omega
  rw [locks.threads, locks.size]
  simp only [kind_locked, reduceCtorEq, decide_false, one_false]
  have one_locked : one (Kind.woken .locked) = 1 := rfl
  obtain ⟨fits, enough⟩ | ⟨surplus, -, enough⟩ := sound.awake waiting
  · exact Or.inl ⟨fits, by omega⟩
  · exact Or.inr ⟨surplus, by omega, by omega⟩

/-- A section of a worker. -/
def Act.works : Act T → Bool
  | .start _ _ => true
  | .relock _ _ => true
  | .finish _ _ _ _ => true
  | _ => false

/-- Every section of a worker is that of one which gets the mutex and looks for a task. -/
theorem works_cases {s s' : State T} {act : Act T} (counted : Counted s) (works : Act.works act)
    (stepped : step s act = some s') :
    ∃ i w phase pool, Locks s i phase pool ∧ work (holding s i pool) i w = some s' := by
  have pending := counted.pending
  cases act with
  | start i w =>
    simp only [step] at stepped
    split at stepped
    · rename_i at_i
      exact ⟨i, w, _, s.pool, ⟨at_i, by simp, rfl, rfl, rfl, by simp [Kind.idle], by simp, pending,
        by simp⟩, stepped⟩
    · cases stepped
  | relock i w =>
    simp only [step] at stepped
    split at stepped
    · rename_i at_i
      exact ⟨i, w, _, (unwait s).pool, ⟨at_i, by simp, rfl, rfl, rfl, by simp [Kind.idle, unwait],
        by simp [unwait], pending, by simp [unwait]⟩, stepped⟩
    · rename_i at_i
      exact ⟨i, w, _, (unwait s).pool, ⟨at_i, by simp, rfl, rfl, rfl, by simp [Kind.idle, unwait],
        by simp [unwait], pending, by simp [unwait]⟩, stepped⟩
    · cases stepped
  | finish i enqueued yielded w =>
    simp only [step] at stepped
    split at stepped
    · rename_i task at_i
      have same : settle (s.put i .locked) task enqueued yielded =
          holding s i (settle s task enqueued yielded).pool := by
        cases enqueued <;> cases yielded <;> rfl
      rw [same] at stepped
      refine ⟨i, w, _, (settle s task enqueued yielded).pool,
        ⟨at_i, by simp, ?_, ?_, ?_, ?_, ?_, ?_, ?_⟩, stepped⟩
      all_goals cases enqueued <;> cases yielded <;> simp [settle, enqueue, pending, Kind.idle]
    · cases stepped
  | _ => cases works

theorem Quiet.works {s s' : State T} {act : Act T} (quiet : Quiet s) (works : Act.works act)
    (stepped : step s act = some s') : Quiet s' := by
  obtain ⟨i, w, phase, pool, locks, worked⟩ := works_cases quiet.counted works stepped
  refine ⟨(locks.sound quiet.toSound).work locks.getElem worked, ?_⟩
  have after := locked_work locks.getElem worked
  rw [holding, count_put_pool locks.at_i] at after
  have before := quiet.free
  cases phase <;> simp at after <;> omega

theorem locked_callthread {s s' : State T} {created : Bool} {w : ℕ}
    (called : callthread s created w = some s') : s'.count .locked = s.count .locked := by
  unfold callthread at called
  split_ifs at called
  · exact locked_signal called
  · cases Option.some.inj called
    have created := count_create s .locked
    simp at created
    exact created
  all_goals
    cases Option.some.inj called
    rfl

theorem Quiet.addthread_mx {s s' : State T} {task : T} {created added : Bool} {w : ℕ}
    (quiet : Quiet s) (result : addthread_mx s task created w = some (added, s')) : Quiet s' := by
  refine ⟨quiet.toSound.addthread_mx quiet.free result, ?_⟩
  obtain ⟨t, called, accepted⟩ := Option.map_eq_some_iff.mp result
  have kept := (locked_callthread called).trans quiet.free
  unfold accept at accepted
  split_ifs at accepted <;> cases accepted <;> exact kept

theorem Quiet.congr {s t : State T} (quiet : Quiet s) (workers : t.workers = s.workers)
    (threads : t.pool.threads = s.pool.threads) (idle : t.pool.idle = s.pool.idle)
    (running : t.pool.running = s.pool.running) (pending : t.pool.pending = s.pool.pending)
    (queue : t.pool.queue = s.pool.queue) (size : t.pool.size = s.pool.size) : Quiet t :=
  ⟨quiet.toSound.congr workers threads idle running pending queue size,
    by rw [State.count, workers]; exact quiet.free⟩

theorem locked_closeloop (s : State T) : (closeloop s).count .locked = s.count .locked := by
  unfold closeloop
  split_ifs
  · exact locked_checkhalted_mx s
  · rfl

theorem Quiet.spurious {s : State T} {i : ℕ} (quiet : Quiet s)
    (at_i : s.workers[i]? = some .waiting) : Quiet (s.put i .spurious) := by
  refine ⟨⟨quiet.counted.put at_i (by simp) (by simp [Kind.idle]) (by simp) quiet.counted.pending,
    awake_put (s := s) at_i fun waiting => ?_⟩, ?_⟩
  · simp at waiting
    have before := quiet.toSound.awake (by omega)
    simp only [kind_waiting, kind_spurious, Kind.woken, reduceCtorEq, decide_false, one_false,
      or_self]
    omega
  · have locked := count_put at_i .spurious .locked
    simp [quiet.free] at locked
    exact locked

theorem Quiet.resize {s s' : State T} {size : ℤ} {create : Bool} {created w : ℕ}
    (quiet : Quiet s) (resized : resizetpool s size create created w = some s') : Quiet s' := by
  refine ⟨quiet.toSound.resizetpool resized, ?_⟩
  have free := quiet.free
  obtain ⟨-, rfl⟩ | ⟨-, -, signal⟩ | ⟨-, -, rfl⟩ := resizetpool_cases resized
  · have locked := (iterate_create (s.setsize size) created).2.2 .locked
    simp only [count_setsize, reduceCtorEq, if_false] at locked
    omega
  · exact (locked_signal signal).trans free
  · exact free

/-- Every section leaves the pool as it should be while its mutex is free. -/
theorem Quiet.step {s s' : State T} {act : Act T} (quiet : Quiet s)
    (stepped : step s act = some s') : Quiet s' := by
  cases act with
  | add task created w =>
    obtain ⟨⟨added, t⟩, result, kept⟩ := Option.bind_eq_some_iff.mp stepped
    simp only [Option.ite_none_right_eq_some, Option.some.injEq] at kept
    obtain ⟨-, rfl⟩ := kept
    exact (quiet.addthread_mx result).congr rfl rfl rfl rfl rfl rfl rfl
  | resume task created w =>
    obtain ⟨⟨added, t⟩, result, rfl⟩ := Option.map_eq_some_iff.mp stepped
    exact quiet.addthread_mx result
  | start i w => exact quiet.works rfl stepped
  | awake i =>
    simp only [ThreadPool.step] at stepped
    split at stepped
    · rename_i at_i
      cases Option.some.inj stepped
      exact quiet.spurious at_i
    · cases stepped
  | relock i w => exact quiet.works rfl stepped
  | finish i enqueued yielded w => exact quiet.works rfl stepped
  | resize size create created w => exact quiet.resize stepped
  | close =>
    simp only [ThreadPool.step] at stepped
    split at stepped
    · cases Option.some.inj stepped
      have closing : Quiet { s with pool := { s.pool with status := .closing } } :=
        quiet.congr rfl rfl rfl rfl rfl rfl rfl
      exact ⟨closing.toSound.closeloop, (locked_closeloop _).trans closing.free⟩
    · cases stepped
  | closeagain =>
    simp only [ThreadPool.step] at stepped
    split at stepped
    · cases Option.some.inj stepped
      exact ⟨quiet.toSound.closeloop, (locked_closeloop s).trans quiet.free⟩
    · cases stepped
  | closeawake =>
    simp only [ThreadPool.step] at stepped
    split at stepped
    · cases Option.some.inj stepped
      exact quiet.congr rfl rfl rfl rfl rfl rfl rfl
    · cases stepped
  | collect =>
    cases Option.some.inj stepped
    exact quiet.congr rfl rfl rfl rfl rfl rfl rfl

/-- `threads` is the number of workers that were created and have not ended. -/
theorem Counted.threads_eq {s : State T} (counted : Counted s) :
    s.pool.threads = s.workers.countP (fun phase => phase.kind ≠ .ended) := by
  have sum (workers : List (Phase T)) :
      (census Phase.kind workers .starting + census Phase.kind workers .waiting +
        census Phase.kind workers .signalled + census Phase.kind workers .spurious +
        census Phase.kind workers .running + census Phase.kind workers .locked : ℤ) =
      workers.countP (fun phase => phase.kind ≠ .ended) := by
    induction workers with
    | nil => rfl
    | cons phase workers ih =>
      rw [List.countP_cons, Nat.cast_add, ← ih]
      simp only [census_cons, Nat.cast_add]
      cases phase <;> simp <;> omega
  rw [counted.threads]
  exact sum s.workers

theorem run_quiet {s : State T} {acts : List (Act T)}
    (ran : run step createtpool acts = some s) : Quiet s :=
  run_invariant Quiet (fun _ _ _ quiet stepped => quiet.step stepped) quiet_createtpool ran

/-- While a worker sleeps and was not woken, each pending task has a worker on its way. -/
theorem no_lost_wakeup {s : State T} {acts : List (Act T)} {i : ℕ}
    (ran : run step createtpool acts = some s) (asleep : s.workers[i]? = some .waiting) :
    s.pool.pending ≤ s.count .starting + s.count .signalled := by
  have quiet := run_quiet ran
  have free := quiet.free
  have waiting : 0 < s.count .waiting := (census_pos Phase.kind).mpr ⟨i, .waiting, asleep, rfl⟩
  have awake := quiet.toSound.awake waiting
  simp only [State.coming] at awake
  omega

/-- Two workers sleep and a task comes: one of them is woken for it. -/
theorem no_lost_wakeup_signalled :
    ∃ s : State ℕ,
      run step createtpool
        [.resize 2 true 2 0, .start 0 0, .start 1 0, .add 7 true 0] = some s ∧
      s.workers[1]? = some .waiting ∧
      s.pool.pending ≤ s.count .starting + s.count .signalled := by
  have ran : run step (createtpool : State ℕ)
      [.resize 2 true 2 0, .start 0 0, .start 1 0, .add 7 true 0] = some _ := rfl
  exact ⟨_, ran, rfl, no_lost_wakeup (i := 1) ran rfl⟩

end Coutil.PoolInvariant
