import Coutil.PoolInvariant

set_option autoImplicit false

/-! The threads that `lcuTP_resizetpool` of `src/lthpool.c` creates, with what it returns. -/
namespace Coutil.PoolResize
open Runs ThreadPool PoolInvariant

section
variable {T : Type}

/-- The loop that creates threads. The outcomes are what `uv_thread_create` returns. -/
def createthreads (outcome : ℕ → ℤ) : ℕ → State T → ℤ × State T
  | 0, s => (0, s)
  | newthreads + 1, s =>
    if outcome newthreads ≠ 0 then (outcome newthreads, s)
    else createthreads outcome newthreads s.create

/-- The error and the state after it. A signal wakes the worker `w`. -/
def lcuTP_resizetpool (s : State T) (size : ℤ) (create : Bool) (outcome : ℕ → ℤ) (w : ℕ) :
    Option (ℤ × State T) :=
  let newthreads := size - s.pool.size
  let s := s.setsize size
  if newthreads > 0 then
    let newthreads := if ¬create ∧ newthreads > s.pool.pending then s.pool.pending else newthreads
    some (createthreads outcome newthreads.toNat s)
  else if hasextraidle_mx s.pool then (s.signal w).map fun s => (0, s)
  else some (0, s)

/-- What is expected of a call, whatever the system does in it. -/
def Provides (s : State T) (size : ℤ) (create : Bool) : Prop :=
  ∀ outcome w err s', lcuTP_resizetpool s size create outcome w = some (err, s') →
    (create = true → err = 0 → size ≤ s'.pool.threads) ∧
      s'.pool.threads ≤ max size s.pool.threads

/-- As many threads as the pool was to have, or none to create at all. -/
def Settled (pool : Pool T) (size : ℤ) : Bool → Prop
  | true => min size pool.size ≤ pool.threads ∧ (pool.size < size → pool.threads ≤ pool.size)
  | false => pool.size < size → 0 < pool.pending →
      pool.threads + min (size - pool.size) pool.pending ≤ size

variable {s s' : State T} {size err : ℤ} {create : Bool} {outcome : ℕ → ℤ} {n w : ℕ}

theorem createthreads_created (outcome : ℕ → ℤ) (n : ℕ) (s : State T) :
    ∃ created ≤ n, (createthreads outcome n s).2 = State.create^[created] s ∧
      ((createthreads outcome n s).1 = 0 ↔ created = n) := by
  induction n generalizing s with
  | zero => exact ⟨0, Nat.le_refl 0, rfl, by simp [createthreads]⟩
  | succ n ih =>
    rw [createthreads]
    by_cases failed : outcome n ≠ 0
    · rw [if_pos failed]
      exact ⟨0, Nat.zero_le _, rfl, by simpa using failed⟩
    · rw [if_neg failed]
      obtain ⟨created, bound, state, all⟩ := ih s.create
      refine ⟨created + 1, by omega, ?_, by rw [all]; omega⟩
      rw [state, Function.iterate_succ_apply]

theorem createthreads_all (n : ℕ) (s : State T) :
    createthreads (fun _ => 0) n s = (0, State.create^[n] s) := by
  induction n generalizing s with
  | zero => rfl
  | succ n ih =>
    rw [createthreads, if_neg (by simp), ih, Function.iterate_succ_apply]

theorem iterate_threads (n : ℕ) (s : State T) :
    (State.create^[n] s).pool.threads = s.pool.threads + n := by
  rw [(iterate_create s n).1]

theorem signal_pool (signal : s.signal w = some s') : s'.pool = s.pool := by
  obtain ⟨-, rfl⟩ | ⟨-, -, rfl⟩ := signal_cases signal
  all_goals rfl

theorem signal_exists (s : State T) : ∃ w s', s.signal w = some s' := by
  by_cases idle : s.count .waiting = 0
  · exact ⟨0, s, if_pos idle⟩
  · obtain ⟨w, phase, at_w, kind⟩ := (Census.census_pos Phase.kind).mp (Nat.pos_of_ne_zero idle)
    have there : s.at? w = some .waiting := by
      rw [State.at?, at_w, Option.map_some, kind]
    refine ⟨w, s.put w .signalled, ?_⟩
    rw [State.signal, if_neg idle, if_pos there]

def asked (pool : Pool T) (size : ℤ) (create : Bool) : ℤ :=
  if ¬create ∧ size - pool.size > pool.pending then pool.pending else size - pool.size

theorem lcuTP_resizetpool_cases
    (resized : lcuTP_resizetpool s size create outcome w = some (err, s')) :
    (s.pool.size < size ∧ ∃ created ≤ (asked s.pool size create).toNat,
      s' = State.create^[created] (s.setsize size) ∧
        (err = 0 ↔ created = (asked s.pool size create).toNat)) ∨
    (size ≤ s.pool.size ∧ err = 0 ∧ s'.pool.threads = s.pool.threads) := by
  unfold lcuTP_resizetpool at resized
  by_cases more : size - s.pool.size > 0
  · left
    refine ⟨by omega, ?_⟩
    simp only [if_pos more, Option.some.injEq] at resized
    obtain ⟨created, bound, state, all⟩ := createthreads_created outcome
      (asked s.pool size create).toNat (s.setsize size)
    change createthreads outcome (asked s.pool size create).toNat (s.setsize size) = _ at resized
    rw [resized] at state all
    exact ⟨created, bound, state, all⟩
  · right
    refine ⟨by omega, ?_⟩
    simp only [if_neg more] at resized
    split_ifs at resized with extra
    · obtain ⟨u, signal, same⟩ := Option.map_eq_some_iff.mp resized
      cases same
      refine ⟨rfl, ?_⟩
      rw [signal_pool signal]
      rfl
    · cases resized
      exact ⟨rfl, rfl⟩

/-- The call is a step of the pool. -/
theorem lcuTP_resizetpool_step (counted : Counted s)
    (resized : lcuTP_resizetpool s size create outcome w = some (err, s')) :
    ∃ created, step s (.resize size create created w) = some s' := by
  have pending := counted.pending
  change ∃ created, resizetpool s size create created w = some s'
  by_cases more : size - s.pool.size > 0
  · have positive : 0 ≤ asked s.pool size create := by
      unfold asked
      split_ifs <;> omega
    obtain ⟨-, created, bound, state, -⟩ | ⟨less, -⟩ := lcuTP_resizetpool_cases resized
    · have fits : (created : ℤ) ≤ asked s.pool size create := by omega
      refine ⟨created, ?_⟩
      unfold resizetpool
      simp only [if_pos more]
      change (if (created : ℤ) ≤ asked s.pool size create then _ else none) = _
      rw [if_pos fits, state]
    · omega
  · refine ⟨0, ?_⟩
    unfold lcuTP_resizetpool at resized
    unfold resizetpool
    simp only [if_neg more] at resized ⊢
    split_ifs at resized ⊢ with extra
    · obtain ⟨u, signal, same⟩ := Option.map_eq_some_iff.mp resized
      cases same
      exact signal
    · cases resized
      rfl

/-- A pool goes on as it does in a run without returned errors: no wake-up is lost, and `threads`
is the number of workers that have not ended. -/
theorem resized_run {u : State T} {before after : List (Act T)}
    (ran : run step createtpool before = some s)
    (resized : lcuTP_resizetpool s size create outcome w = some (err, s'))
    (goes : run step s' after = some u) :
    Quiet u ∧ u.pool.threads = u.workers.countP (fun phase => phase.kind ≠ .ended) := by
  obtain ⟨created, stepped⟩ := lcuTP_resizetpool_step (run_quiet ran).counted resized
  have rest : run step s (.resize size create created w :: after) = some u :=
    run_cons.mpr ⟨s', stepped, goes⟩
  have quiet : Quiet u := run_quiet (run_append.mpr ⟨s, ran, rest⟩)
  exact ⟨quiet, quiet.counted.threads_eq⟩

theorem lcuTP_resizetpool_grown (more : s.pool.size < size) :
    ∃ s', lcuTP_resizetpool s size create (fun _ => 0) 0 = some (0, s') ∧
      s'.pool.threads = s.pool.threads + (asked s.pool size create).toNat := by
  refine ⟨State.create^[(asked s.pool size create).toNat] (s.setsize size), ?_, ?_⟩
  · unfold lcuTP_resizetpool
    simp only [if_pos (show size - s.pool.size > 0 by omega), createthreads_all]
    rfl
  · rw [iterate_threads]
    rfl

theorem lcuTP_resizetpool_kept (less : size ≤ s.pool.size) :
    ∃ w s', lcuTP_resizetpool s size create (fun _ => 0) w = some (0, s') ∧
      s'.pool.threads = s.pool.threads := by
  obtain ⟨w, u, signal⟩ := signal_exists (s.setsize size)
  unfold lcuTP_resizetpool
  simp only [if_neg (show ¬ size - s.pool.size > 0 by omega)]
  by_cases extra : hasextraidle_mx (s.setsize size).pool = true
  · refine ⟨w, u, ?_, ?_⟩
    · rw [if_pos extra, signal]
      rfl
    · rw [signal_pool signal]
      rfl
  · exact ⟨0, s.setsize size, by rw [if_neg extra], rfl⟩

theorem asked_create : asked s.pool size true = size - s.pool.size := by
  simp [asked]

theorem asked_demand : asked s.pool size false = min (size - s.pool.size) s.pool.pending := by
  have demand : ¬(false = true) := Bool.false_ne_true
  by_cases fewer : size - s.pool.size > s.pool.pending
  · rw [asked, if_pos ⟨demand, fewer⟩]
    omega
  · rw [asked, if_neg fun both => fewer both.2]
    omega

/-- The threads are those asked for, and no more, if there were as many as asked for before. -/
theorem resize_provides (s : State T) (size : ℤ) (create : Bool) :
    Provides s size create ↔ Settled s.pool size create := by
  constructor
  · intro provides
    by_cases more : s.pool.size < size
    · obtain ⟨u, resized, threads⟩ := lcuTP_resizetpool_grown more
      obtain ⟨enough, few⟩ := provides _ _ _ _ resized
      cases create with
      | true =>
        rw [asked_create] at threads
        have enough := enough rfl rfl
        refine ⟨by omega, fun _ => by omega⟩
      | false =>
        rw [asked_demand] at threads
        intro _ pending
        omega
    · obtain ⟨w, u, resized, threads⟩ := lcuTP_resizetpool_kept (not_lt.mp more)
      obtain ⟨enough, few⟩ := provides _ _ _ _ resized
      cases create with
      | true =>
        have enough := enough rfl rfl
        exact ⟨by omega, fun less => absurd less more⟩
      | false => exact fun less => absurd less more
  · intro settled outcome w err s' resized
    rcases lcuTP_resizetpool_cases resized with ⟨more, created, bound, rfl, all⟩ | ⟨less, rfl, threads⟩
    · rw [iterate_threads]
      change (create = true → err = 0 → size ≤ s.pool.threads + created) ∧
        s.pool.threads + created ≤ max size s.pool.threads
      cases create with
      | true =>
        obtain ⟨low, high⟩ := settled
        have high := high more
        rw [asked_create] at bound all
        refine ⟨fun _ returned => ?_, by omega⟩
        have created := all.mp returned
        omega
      | false =>
        have high := settled more
        rw [asked_demand] at bound
        refine ⟨fun absurd => (Bool.false_ne_true absurd).elim, ?_⟩
        omega
    · rw [threads]
      refine ⟨fun here _ => ?_, Int.le_max_right _ _⟩
      subst here
      have low := settled.1
      omega

/-- A pool that has its size, but not its threads yet; and one that has more threads than its
size, as they are busy. -/
theorem resize_provides_not :
    (∃ s : State ℕ, Reachable step createtpool s ∧ s.pool.status = .opened ∧
      ∃ s', lcuTP_resizetpool s 4 true (fun _ => 0) 0 = some (0, s') ∧ s'.pool.threads < 4) ∧
    ∃ s : State ℕ, Reachable step createtpool s ∧ s.pool.status = .opened ∧
      ∃ s', lcuTP_resizetpool s 1 true (fun _ => 0) 0 = some (0, s') ∧
        max 1 s.pool.threads < s'.pool.threads := by
  have first : run step (createtpool : State ℕ) [.resize 4 false 0 0] = some _ := rfl
  have second : run step (createtpool : State ℕ)
    [.resize 1 true 1 0, .add 7 true 0, .start 0 0, .resize 0 false 0 0] = some _ := rfl
  exact ⟨⟨_, ⟨_, first⟩, rfl, _, rfl, by decide⟩, ⟨_, ⟨_, second⟩, rfl, _, rfl, by decide⟩⟩

end

end Coutil.PoolResize
