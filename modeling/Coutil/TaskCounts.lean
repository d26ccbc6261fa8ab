import Mathlib
import Coutil.TaskConservation

set_option autoImplicit false

/-! What `threads:count` of `src/lthreadm.c` reports, by `lcuTP_counttpool` of `src/lthpool.c`:
the number of suspended tasks is computed from the other counters, and a worker is counted as
running after it gave its task away. -/
namespace Coutil.TaskCounts
open Runs Census TaskSystem TaskLedger TaskConservation PoolInvariant PoolTasks

/-- `lcu_ThreadCount` -/
structure Count where
  expected : ℤ
  actual : ℤ
  running : ℤ
  pending : ℤ
  suspended : ℤ
  numoftasks : ℤ

section
variable {T : Type} (pool : ThreadPool.Pool T)

/-- One round of the loop of `lcuTP_counttpool`. -/
def Count.take (count : Count) (option : Char) : Count :=
  match option with
  | 'e' => { count with expected := pool.size }
  | 'a' => { count with actual := pool.threads }
  | 'r' => { count with running := pool.running }
  | 'p' => { count with pending := pool.pending }
  | 's' => { count with suspended := pool.tasks - pool.running - pool.pending }
  | 'n' => { count with numoftasks := pool.tasks }
  | _ => count

def counttpool (count : Count) (what : List Char) : Count := what.foldl (Count.take pool) count

def Count.get (count : Count) (option : Char) : Option ℤ :=
  match option with
  | 'e' => some count.expected
  | 'a' => some count.actual
  | 'r' => some count.running
  | 'p' => some count.pending
  | 's' => some count.suspended
  | 'n' => some count.numoftasks
  | _ => none

/-- The last loop of `threads_count`, given the value for each option. -/
def pushes (value : Char → Option ℤ) : List Char → Except String (List ℤ)
  | [] => .ok []
  | option :: opt =>
    match value option with
    | some count => (pushes value opt).map (count :: ·)
    | none => .error ("bad option (got '" ++ option.toString ++ "')")

/-- The counts are not initialized, and all of them are taken for six options or more. The stack
has room for so many values or not. -/
def threads_count (room : ℕ → Bool) (count : Count) (opt : List Char) : Except String (List ℤ) :=
  if room opt.length then
    let what := if opt.length < 6 then opt else ['e', 'a', 'r', 'p', 's', 'n']
    pushes (counttpool pool count what).get opt
  else .error "stack overflow (too many values to return)"

/-- The values that are asked for, or the error, by what each option stands for. -/
def answers (room : ℕ → Bool) (value : Char → Option ℤ) (opt : List Char) :
    Except String (List ℤ) :=
  if room opt.length then pushes value opt
  else .error "stack overflow (too many values to return)"

def reports (option : Char) : Option ℤ :=
  match option with
  | 'e' => some pool.size
  | 'a' => some pool.threads
  | 'r' => some pool.running
  | 'p' => some pool.pending
  | 's' => some (pool.tasks - pool.running - pool.pending)
  | 'n' => some pool.tasks
  | _ => none

variable {pool}

theorem take_get (count : Count) (option : Char) :
    (count.take pool option).get option = reports pool option := by
  unfold Count.take reports
  split <;> first | rfl | skip
  unfold Count.get
  split <;> first | rfl | exact absurd rfl (by assumption)

theorem take_other (count : Count) {option other : Char} (differs : other ≠ option) :
    (count.take pool other).get option = count.get option := by
  unfold Count.take
  split <;> first | rfl | skip
  all_goals
    unfold Count.get
    split <;> first | rfl | exact absurd rfl differs

theorem counttpool_other (count : Count) {what : List Char} {option : Char}
    (absent : option ∉ what) : (counttpool pool count what).get option = count.get option := by
  induction what generalizing count with
  | nil => rfl
  | cons c what ih =>
    have differs : c ≠ option := Ne.symm (List.ne_of_not_mem_cons absent)
    have later := ih (count.take pool c) (List.not_mem_of_not_mem_cons absent)
    exact later.trans (take_other count differs)

theorem counttpool_get (count : Count) {what : List Char} {option : Char} (asked : option ∈ what) :
    (counttpool pool count what).get option = reports pool option := by
  induction what generalizing count with
  | nil => cases asked
  | cons c what ih =>
    by_cases later : option ∈ what
    · exact ih (count.take pool c) later
    · obtain rfl : option = c := (List.mem_cons.mp asked).resolve_right later
      exact (counttpool_other (count.take pool option) later).trans (take_get count option)

theorem get_none (count : Count) {option : Char} (bad : option ∉ ['e', 'a', 'r', 'p', 's', 'n']) :
    count.get option = none ∧ reports pool option = none := by
  simp only [List.mem_cons, List.not_mem_nil, or_false, not_or] at bad
  obtain ⟨e, a, r, p, s, n⟩ := bad
  unfold Count.get reports
  constructor
  · split <;> first | rfl | contradiction
  · split <;> first | rfl | contradiction

theorem pushes_congr {f g : Char → Option ℤ} {opt : List Char} (same : ∀ c ∈ opt, f c = g c) :
    pushes f opt = pushes g opt := by
  induction opt with
  | nil => rfl
  | cons c opt ih =>
    have rest := ih fun d member => same d (List.mem_cons_of_mem c member)
    simp only [pushes, same c List.mem_cons_self, rest]

/-- No count is read that was not taken. -/
theorem threads_count_reports (room : ℕ → Bool) (count : Count) (opt : List Char) :
    threads_count pool room count opt = answers room (reports pool) opt := by
  refine if_congr Iff.rfl (pushes_congr fun c member => ?_) rfl
  split
  · exact counttpool_get count member
  · by_cases known : c ∈ ['e', 'a', 'r', 'p', 's', 'n']
    · exact counttpool_get count known
    · obtain ⟨unknown, bad⟩ := get_none (counttpool pool count _) known
      exact unknown.trans bad.symm

end
section
variable {T C : Type}

def Job.counts (job : Job) : Bool := Job.holds job || Job.ended job

def held (s : State T C) : List T :=
  s.pool.pool.queue ++
    (List.range s.pool.workers.length).filterMap (slot Job.counts s.job s.pool.task)

/-- The workers that gave their task away and did not lock the mutex again. -/
def parted (s : State T C) : ℕ :=
  (List.range s.pool.workers.length).countP fun i =>
    (s.pool.task i).isSome && !Job.counts (s.job i)

/-- The tasks that are neither closed and accounted for nor with the pool. -/
def away [DecidableEq T] (s : State T C) : List T :=
  s.added.filter fun t => t ∉ s.accounted ∧ t ∉ held s

theorem countP_range {A : Type} (table : List A) (f : A → Bool) :
    (List.range table.length).countP (fun i => table[i]?.any f) = table.countP f := by
  induction table using List.reverseRecOn with
  | nil => rfl
  | append_singleton table a ih =>
    rw [List.length_append, List.length_singleton, List.range_succ, List.countP_append,
      List.countP_append, List.countP_singleton, List.countP_singleton, ← ih]
    congr 1
    · refine List.countP_congr fun i member => ?_
      rw [List.getElem?_append_left (List.mem_range.mp member)]
    · simp

/-- Each running worker has its task or gave it away. -/
theorem running_split (s : State T C) :
    s.pool.count .running =
      ((List.range s.pool.workers.length).filterMap (slot Job.counts s.job s.pool.task)).length +
        parted s := by
  rw [ThreadPool.State.count, census, ← countP_range, List.length_filterMap_eq_countP, parted]
  have same : ∀ i, s.pool.workers[i]?.any (fun a => decide (a.kind = .running)) =
      (s.pool.task i).isSome := by
    intro i
    unfold ThreadPool.State.task
    cases s.pool.workers[i]? with
    | none => rfl
    | some phase => cases phase <;> rfl
  simp only [same]
  induction List.range s.pool.workers.length with
  | nil => rfl
  | cons i rest ih =>
    simp only [List.countP_cons, ih, slot]
    cases Job.counts (s.job i) <;> cases s.pool.task i <;> simp <;> omega

theorem slot_counts {s : State T C} {i : ℕ} {t : T}
    (member : slot Job.counts s.job s.pool.task i = some t) :
    (view s).Holds (.worker i) t ∨ (view s).Holds (.ended i) t := by
  unfold slot at member
  split at member
  · rename_i counts
    rcases (Bool.or_eq_true _ _).mp counts with holds | ended
    · left
      change slot Job.holds s.job s.pool.task i = some t
      rw [slot, if_pos holds, member]
    · right
      change slot Job.ended s.job s.pool.task i = some t
      rw [slot, if_pos ended, member]
  · cases member

theorem held_placed {s : State T C} {t : T} (member : t ∈ held s) :
    (view s).Holds .queue t ∨ ∃ i, (view s).Holds (.worker i) t ∨ (view s).Holds (.ended i) t := by
  rcases List.mem_append.mp member with queued | worked
  · exact .inl queued
  · obtain ⟨i, -, found⟩ := List.mem_filterMap.mp worked
    exact .inr ⟨i, slot_counts found⟩

theorem held_nodup {s : State T C} (balanced : Balanced (ledger s)) : (held s).Nodup := by
  refine List.Nodup.append balanced.distinct.queue ?_ ?_
  · refine List.Nodup.filterMap (fun i k t first second => ?_) List.nodup_range
    rcases slot_counts first with first | first
    · rcases slot_counts second with second | second
      · cases balanced.unique (.worker i) (.worker k) t first second
        rfl
      · cases balanced.unique (.worker i) (.ended k) t first second
    · rcases slot_counts second with second | second
      · cases balanced.unique (.ended i) (.worker k) t first second
      · cases balanced.unique (.ended i) (.ended k) t first second
        rfl
  · intro t queued worked
    obtain ⟨i, -, found⟩ := List.mem_filterMap.mp worked
    rcases slot_counts found with other | other
    · cases balanced.unique .queue (.worker i) t queued other
    · cases balanced.unique .queue (.ended i) t queued other

variable [DecidableEq T]

theorem tasks_split {s : State T C} (balanced : Balanced (ledger s)) :
    (s.added.filter (· ∉ s.accounted)).length = (held s).length + (away s).length := by
  have inside : ((s.added.filter (· ∉ s.accounted)).filter (· ∈ held s)).length =
      (held s).length := by
    refine List.Perm.length_eq ((List.perm_ext_iff_of_nodup ((balanced.added.filter _).filter _)
      (held_nodup balanced)).mpr fun t => ?_)
    simp only [List.mem_filter, decide_eq_true_eq]
    refine ⟨And.right, fun member => ⟨?_, member⟩⟩
    refine (balanced.placed t).mp ?_
    rcases held_placed member with queued | ⟨i, worked | ended⟩
    · exact ⟨_, queued⟩
    · exact ⟨_, worked⟩
    · exact ⟨_, ended⟩
  have outside : (s.added.filter (· ∉ s.accounted)).filter (fun t => !decide (t ∈ held s)) =
      away s := by
    rw [List.filter_filter, away]
    refine List.filter_congr fun t _ => ?_
    rw [Bool.decide_and, Bool.and_comm, decide_not, decide_not]
  rw [List.length_eq_length_filter_add (fun t => decide (t ∈ held s)), inside, outside]

/-- What each option counts. -/
def meaning (s : State T C) (option : Char) : Option ℤ :=
  match option with
  | 'e' => some s.pool.pool.size
  | 'a' => some (s.pool.workers.countP fun phase => phase.kind ≠ .ended)
  | 'r' => some (s.pool.count .running)
  | 'p' => some s.pool.pool.queue.length
  | 's' => some ((away s).length - parted s)
  | 'n' => some (s.added.filter (· ∉ s.accounted)).length
  | _ => none

theorem reports_meaning {s : State T C} (conserving : Conserving s) :
    reports s.pool.pool = meaning s := by
  obtain ⟨quiet, balanced⟩ := conserving
  have counted := quiet.counted
  have tasks : s.pool.pool.tasks = (s.added.filter (· ∉ s.accounted)).length := balanced.tasks_eq
  have suspended : s.pool.pool.tasks - s.pool.pool.running - s.pool.pool.pending =
      (away s).length - parted s := by
    have all := tasks_split balanced
    have running := running_split s
    rw [held, List.length_append] at all
    rw [tasks, counted.running, counted.pending]
    omega
  funext option
  unfold reports meaning
  split
  · rfl
  · rw [counted.threads_eq]
  · rw [counted.running]
  · rw [counted.pending]
  · rw [suspended]
  · rw [tasks]
  · rfl

omit [DecidableEq T] in
theorem worker_held {s : State T C} {i : ℕ} {t : T} (counts : Job.counts (s.job i) = true)
    (task : s.pool.task i = some t) : t ∈ held s := by
  refine List.mem_append_right _ (List.mem_filterMap.mpr ⟨i, ?_, ?_⟩)
  · have there := task_eq_some.mp task
    exact List.mem_range.mpr (List.getElem?_eq_some_iff.mp there).1
  · rw [slot, if_pos counts, task]

omit [DecidableEq T] in
theorem placed_held {s : State T C} {t : T} (placed : (view s).Holds .queue t ∨
    ∃ i, (view s).Holds (.worker i) t ∨ (view s).Holds (.ended i) t) : t ∈ held s := by
  rcases placed with queued | ⟨i, worked | ended⟩
  · exact List.mem_append_left _ queued
  · change slot Job.holds s.job s.pool.task i = some t at worked
    unfold slot at worked
    split at worked
    · rename_i holds
      exact worker_held (by rw [Job.counts, holds, Bool.true_or]) worked
    · cases worked
  · change slot Job.ended s.job s.pool.task i = some t at ended
    unfold slot at ended
    split at ended
    · rename_i holds
      exact worker_held (by rw [Job.counts, holds, Bool.or_true]) ended
    · cases ended

/-- The task waits on a channel, or is on its way back or to its end. -/
def Away (s : State T C) (t : T) (p : Place) : Prop :=
  (view s).Holds p t ∧
    ((∃ name, p = .sync name) ∨ p = .channeltask ∨ (∃ j, p = .matcher j) ∨ p = .closer)

theorem away_iff {s : State T C} (balanced : Balanced (ledger s)) (t : T) :
    t ∈ away s ↔ ∃! p, Away s t p := by
  simp only [away, List.mem_filter, decide_eq_true_eq]
  constructor
  · rintro ⟨added, fresh, outside⟩
    obtain ⟨p, holds⟩ := (balanced.placed t).mpr ⟨added, fresh⟩
    refine ⟨p, ⟨holds, ?_⟩, fun q other => balanced.unique q p t other.1 holds⟩
    cases p with
    | queue => exact absurd (placed_held (.inl holds)) outside
    | worker i => exact absurd (placed_held (.inr ⟨i, .inl holds⟩)) outside
    | ended i => exact absurd (placed_held (.inr ⟨i, .inr holds⟩)) outside
    | sync name => exact .inl ⟨name, rfl⟩
    | channeltask => exact .inr (.inl rfl)
    | matcher j => exact .inr (.inr (.inl ⟨j, rfl⟩))
    | closer => exact .inr (.inr (.inr rfl))
  · rintro ⟨p, ⟨holds, elsewhere⟩, -⟩
    obtain ⟨added, fresh⟩ := (balanced.placed t).mp ⟨p, holds⟩
    refine ⟨added, fresh, fun inside => ?_⟩
    -- a task of the pool has its only place there
    have pooled (q : Place) (there : (view s).Holds q t) : q = p := balanced.unique q p t there holds
    rcases held_placed inside with queued | ⟨i, worked | ended⟩
    · obtain rfl := pooled _ queued
      simp at elsewhere
    · obtain rfl := pooled _ worked
      simp at elsewhere
    · obtain rfl := pooled _ ended
      simp at elsewhere

variable [DecidableEq C]

/-- Whenever the mutex is free, `threads:count` gives for its options the size, the workers that
did not end, those that run a task, the tasks in the queue, the tasks that are not accounted for,
and as the suspended tasks those that are away, each of them in one place, less the workers that
gave their task away and are counted as running still. -/
theorem count_reports {channels : Channels T C} {s : State T C} {acts : List (Act T C)}
    (ran : run (step channels) initial acts = some s) :
    (∀ room count opt, threads_count s.pool.pool room count opt = answers room (meaning s) opt) ∧
    (∀ t, t ∈ away s ↔ ∃! p, Away s t p) ∧ (away s).Nodup ∧
    (away s).length ≤ (s.added.filter (· ∉ s.accounted)).length ∧
    parted s ≤ s.pool.count .running := by
  have conserving := run_conserving ran
  refine ⟨fun room count opt => ?_, away_iff conserving.balanced,
    conserving.balanced.added.filter _, ?_, ?_⟩
  · rw [threads_count_reports, reports_meaning conserving]
  · have split := tasks_split conserving.balanced
    omega
  · have split := running_split s
    omega

def parking : List (Act ℕ ℕ) :=
  [.resize 1 true 1 0, .add 7 [.object "function" 0] true 0, .lock 0 0, .resume 0,
    .yield 0 [] [.string "jobs"], .handle 0]

/-- The task waits with its worker back in the pool, or is matched by another thread and resumed
before its worker locks the mutex again: then of one task one is running, one is pending and minus
one are suspended. -/
theorem count_reports_parked :
    ∃ s u : State ℕ ℕ,
      run (step ⟨fun _ => "jobs", fun _ => none⟩) initial (parking ++ [.free 0, .finish 0 0]) =
        some s ∧
      run (step ⟨fun _ => "jobs", fun _ => none⟩) initial (parking ++
        [.trysync none 1 [.object "channel" 1], .swap 0 .none, .resumetask 0 true 0]) = some u ∧
      (∃! p, Away s 7 p) ∧
      (∀ count, threads_count s.pool.pool (fun _ => true) count ['n', 'r', 'p', 's'] =
        .ok [1, 0, 0, 1]) ∧
      ∀ count, threads_count u.pool.pool (fun _ => true) count ['n', 'r', 'p', 's'] =
        .ok [1, 1, 1, -1] := by
  have parked : (run (step (⟨fun _ => "jobs", fun _ => none⟩ : Channels ℕ ℕ)) initial
      (parking ++ [.free 0, .finish 0 0])).map
        (fun s => (away s, ['n', 'r', 'p', 's'].map (meaning s))) =
          some ([7], [some 1, some 0, some 0, some 1]) := by rfl
  have overtaken : (run (step (⟨fun _ => "jobs", fun _ => none⟩ : Channels ℕ ℕ)) initial
      (parking ++ [.trysync none 1 [.object "channel" 1], .swap 0 .none,
        .resumetask 0 true 0])).map (fun u => ['n', 'r', 'p', 's'].map (meaning u)) =
          some [some 1, some 1, some 1, some (-1)] := by rfl
  obtain ⟨s, ran, counts⟩ := Option.map_eq_some_iff.mp parked
  obtain ⟨u, ran', counts'⟩ := Option.map_eq_some_iff.mp overtaken
  obtain ⟨waits, n, r, p, s'⟩ : away s = [7] ∧ meaning s 'n' = some 1 ∧ meaning s 'r' = some 0 ∧
      meaning s 'p' = some 0 ∧ meaning s 's' = some 1 := by
    simpa using counts
  obtain ⟨n', r', p', s''⟩ : meaning u 'n' = some 1 ∧ meaning u 'r' = some 1 ∧
      meaning u 'p' = some 1 ∧ meaning u 's' = some (-1) := by
    simpa using counts'
  refine ⟨s, u, ran, ran', ((count_reports ran).2.1 7).mp (by simp [waits]), fun count => ?_,
    fun count => ?_⟩
  · rw [(count_reports ran).1]
    simp only [answers, pushes, n, r, p, s', Except.map, if_true]
  · rw [(count_reports ran').1]
    simp only [answers, pushes, n', r', p', s'', Except.map, if_true]

end

end Coutil.TaskCounts
