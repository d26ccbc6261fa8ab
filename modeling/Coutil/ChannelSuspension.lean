import Coutil.ChannelTask

set_option autoImplicit false

/-! The two moments at which the counter of a channel task is behind the matches: when the
task is put back in the queue because of it, and when the state of the task is closed. -/
namespace Coutil.ChannelSuspension
open Runs Census ChannelSync Exchange TaskSystem TaskSteps TaskLedger TaskConservation
open ChannelTraffic ChannelTask

variable {T C : Type} [DecidableEq T] [DecidableEq C] {channels : Channels T C} {s s' : State T C}

/-- No channel of the task has a signal that its loop has still to see. -/
def quieted (channels : Channels T C) (s : State T C) (t : T) : Bool :=
  s.signals.all fun signal => channels.owner signal.1 ≠ some t

omit [DecidableEq C] in
theorem signals_eq_zero {t : T} :
    signals channels (traffic s) t = 0 ↔ quieted channels s t := by
  simp [signals, census, traffic, quieted]

theorem balance (accounted : Accounted channels s) (t : T) :
    (s.chan t).wakes = (s.tally t).booked - (s.tally t).processed ∧
      (s.tally t).sent = (s.tally t).booked + sending s t ∧
      (s.tally t).sent = (s.tally t).processed + signals channels (traffic s) t := by
  have tallied := accounted.tallied t
  have sent := tallied.sent
  rw [inflight_traffic] at sent
  exact ⟨tallied.wakes, sent, tallied.processed⟩

theorem handle_suspends {i base : ℕ} {t : T} (running : s.running i = some t)
    (job : s.job i = .yielded base) (yielded : (s.stack t)[base]? = some .channeltask) :
    step channels s (.handle i) = some (suspendedchtask s i t base) := by
  have unnamed : (s.stack t)[base]?.bind Value.tostring = none := by
    rw [yielded]
    rfl
  simp only [step, Act.worker, running, job, work, handle, unnamed, Option.bind_some]

omit [DecidableEq C] in
theorem requeues_iff {i base : ℕ} {t : T} (yielded : (s.stack t)[base]? = some .channeltask) :
    (suspendedchtask s i t base).job i = .discarding base true ↔ (s.chan t).wakes ≠ 0 := by
  unfold suspendedchtask
  by_cases zero : (s.chan t).wakes = 0
  · have stored : stores s t base := by simp [stores, yielded, zero]
    rw [if_pos stored]
    simp [State.setjob, zero]
  · have unstored : ¬stores s t base := by simp [stores, zero]
    rw [if_neg unstored]
    simp [State.setjob, zero]

/-- A task that yields its channel task is put back in the queue only for a match that its
loop has not seen, unless the loop saw them all while a thread has still to count its own. -/
theorem requeued_only_unprocessed {acts : List (Act T C)} {i base : ℕ} {t : T}
    (ran : run (step channels) initial acts = some s) (running : s.running i = some t)
    (job : s.job i = .yielded base) (yielded : (s.stack t)[base]? = some .channeltask) :
    (∀ s', step channels s (.handle i) = some s' → s'.job i = .discarding base true →
      (s.tally t).processed < (s.tally t).sent) ↔
    ¬(quieted channels s t ∧ ∃ m ∈ s.matchers, m.stage = .sent t) := by
  obtain ⟨wakes, sent, processed⟩ := balance (run_accounted ran) t
  have sends : (∃ m ∈ s.matchers, m.stage = .sent t) ↔ 0 < sending s t := by
    rw [sending, List.countP_pos_iff]
    refine exists_congr fun m => and_congr_right fun _ => ?_
    cases m.stage <;> simp [Stage.sends]
  have suspends : step channels s (.handle i) = _ := handle_suspends running job yielded
  rw [sends, ← signals_eq_zero]
  constructor
  · rintro property ⟨none, some⟩
    have behind : (s.chan t).wakes ≠ 0 := by omega
    have less := property _ suspends ((requeues_iff yielded).mpr behind)
    omega
  · intro condition s' stepped requeued
    obtain rfl := Option.some.inj (suspends.symm.trans stepped)
    have behind := (requeues_iff yielded).mp requeued
    by_contra all
    exact condition ⟨by omega, by omega⟩

def sampleMatch : List (Act ℕ ℕ) :=
  sampleWait ++ [.trysync none 1 [.object "channel" 1], .swap 0 .none, .send 0]

/-- The loop of task 7 has still to see the match when the task yields. -/
theorem requeued_only_unprocessed_signalled :
    ∃ s : State ℕ ℕ,
      run (step sample) initial (sampleMatch ++
        [.book 0, .yield 0 [] [.channeltask]]) = some s ∧
      ¬quieted sample s 7 ∧
      ∀ s', step sample s (.handle 0) = some s' → s'.job 0 = .discarding 0 true →
        (s.tally 7).processed < (s.tally 7).sent := by
  have ran : run (step sample) initial (sampleMatch ++
      [.book 0, .yield 0 [] [.channeltask]]) = some _ := rfl
  exact ⟨_, ran, by decide, (requeued_only_unprocessed (i := 0) (t := 7) ran rfl rfl rfl).mpr
    fun late => absurd late.1 (by decide)⟩

/-- The loop of task 7 sees the match and the task waits again, all before the thread of the
match has counted it: the task is put back in the queue for nothing. -/
theorem requeued_for_nothing :
    ¬∀ (acts : List (Act ℕ ℕ)) (s : State ℕ ℕ) (i base t : ℕ),
      run (step sample) initial acts = some s → s.running i = some t →
      s.job i = .yielded base → (s.stack t)[base]? = some .channeltask →
      ∀ s', step sample s (.handle i) = some s' → s'.job i = .discarding base true →
        (s.tally t).processed < (s.tally t).sent := by
  intro always
  have ran : run (step sample) initial (sampleMatch ++
      [.process (some 0) 0, .awaitch (some 0) 0 [.object "channel" 0] true,
        .yield 0 [] [.channeltask]]) = some _ := rfl
  have less := always _ _ 0 0 7 ran rfl rfl rfl _ rfl rfl
  exact absurd less (by decide)

def closes (s : State T C) : Act T C → Option T
  | .closetask i => s.pool.task i
  | .drain => s.pool.draining.head?
  | .collect j => atMatcher s.matchers j
  | _ => none

theorem step_closes {a : Act T C} (stepped : Step channels s a s') {t : T}
    (closed : t ∈ s'.closed) :
    t ∈ s.closed ∨ (closes s a = some t ∧ s.unused channels t) := by
  cases stepped with
  | closetask running job unused =>
    obtain old | new := List.mem_append.mp closed
    · exact Or.inl old
    · cases List.mem_singleton.mp new
      exact Or.inr ⟨running_task running, unused⟩
  | drain closer unused =>
    obtain old | new := List.mem_append.mp closed
    · exact Or.inl old
    · cases List.mem_singleton.mp new
      exact Or.inr ⟨by simp [closes, ThreadPool.State.draining, closer], unused⟩
  | collect at_j stage unused =>
    obtain old | new := List.mem_append.mp closed
    · exact Or.inl old
    · cases List.mem_singleton.mp new
      exact Or.inr ⟨by simp [closes, atMatcher, at_j, stage, Stage.task?], unused⟩
  | found running job named checked queue =>
    rw [startMatch_frame] at closed
    exact Or.inl closed
  | suspend running job unnamed =>
    rw [suspendedchtask_frame] at closed
    exact Or.inl closed
  | call syncs calls checked queue given =>
    rw [startMatch_frame] at closed
    exact Or.inl closed
  | process calls processed =>
    rw [onsynced_frame processed] at closed
    exact Or.inl closed
  | swap at_j stage =>
    rw [swap_frame] at closed
    exact Or.inl closed
  | send at_j stage =>
    rw [send_frame] at closed
    exact Or.inl closed
  | book at_j stage =>
    rw [book_frame] at closed
    exact Or.inl closed
  | _ => exact Or.inl closed

theorem closing_sending {a : Act T C} (stepped : Step channels s a s') {t u : T}
    (closing : closes s a = some t) : sending s' u = sending s u := by
  have kept {v : State T C} (same : traffic v = traffic s) : sending v u = sending s u := by
    rw [← inflight_traffic, same, inflight_traffic]
  cases stepped with
  | closetask running job unused => rfl
  | drain closer unused => rfl
  | collect at_j stage unused =>
    exact kept (traffic_setstage_same (s := s.collect _) at_j (by rw [stage]; rfl))
  | elsewhere kind free stepped => rfl
  | close kind free stepped => rfl
  | arm syncs calls idle checked queue given => rfl
  | refuse syncs calls queue => rfl
  | call syncs calls checked queue given => cases a <;> first | cases closing | cases syncs
  | _ => cases closing

theorem step_armed {a : Act T C} (stepped : Step channels s a s') {c : C} (armed : c ∈ s'.armed) :
    c ∈ s.armed ∨ (closes s a = none ∧ ∃ thread, s.calls channels thread c) := by
  cases stepped with
  | arm syncs calls idle checked queue given =>
    rename_i thread d endpoint K L sync
    obtain old | new := List.mem_append.mp armed
    · exact Or.inl old
    · cases List.mem_singleton.mp new
      refine Or.inr ⟨?_, thread, calls⟩
      cases a <;> first | rfl | cases syncs
  | cancel calls waits => exact Or.inl (List.mem_of_mem_erase armed)
  | process calls processed =>
    obtain ⟨signal, found, rfl⟩ := Option.map_eq_some_iff.mp processed
    simp only at armed
    split at armed
    · exact Or.inl (List.mem_of_mem_erase armed)
    · exact Or.inl (List.mem_of_mem_erase armed)
  | found running job named checked queue =>
    rw [startMatch_frame] at armed
    exact Or.inl armed
  | suspend running job unnamed =>
    rw [suspendedchtask_frame] at armed
    exact Or.inl armed
  | call syncs calls checked queue given =>
    rw [startMatch_frame] at armed
    exact Or.inl armed
  | swap at_j stage =>
    rw [swap_frame] at armed
    exact Or.inl armed
  | send at_j stage =>
    rw [send_frame] at armed
    exact Or.inl armed
  | book at_j stage =>
    rw [book_frame] at armed
    exact Or.inl armed
  | _ => exact Or.inl armed

omit [DecidableEq C] in
theorem executes_live {thread : Option ℕ} {t : T} (balanced : Balanced (ledger s))
    (executes : s.executes thread t) : t ∉ s.closed := by
  intro closed
  obtain ⟨p, -, unended, held⟩ := executes_holds executes
  have known := (balanced.placed t).mp ⟨p, held⟩
  obtain accounted | ⟨i, ended⟩ := (balanced.ended t).mp closed
  · exact known.2 accounted
  · exact unended i (balanced.unique p (.ended i) t held ended)

theorem inflight_move {v v' : Traffic T C} {t : T} (used : Used channels v)
    (move : Move channels v v') (free : ∀ c ∈ v.armed, channels.owner c ≠ some t) :
    inflight v' t ≤ inflight v t := by
  cases move with
  | meet => simp [inflight, census_append]
  | take first => simp [inflight, census_append]
  | send at_j =>
    rename_i j c
    have held := (census_pos id).mpr ⟨j, _, at_j, rfl⟩
    have total := used.count c
    have armed : c ∈ v.armed := by
      apply List.count_pos_iff.mp
      simp only [id] at held
      omega
    have changed := census_set id at_j (Hand.signalled channels c) (.sent t)
    simp only [id, reduceCtorEq, if_false, Hand.signalled_sent, free c armed] at changed
    exact changed.le
  | book at_j =>
    have changed := census_set id at_j .empty (.sent t)
    simp only [id, reduceCtorEq, if_false] at changed
    simp only [inflight]
    omega
  | _ => exact le_rfl

/-- No thread is to come to the channel task of a closed task. -/
def Unattended (channels : Channels T C) (s : State T C) : Prop :=
  ∀ t ∈ s.closed, s.unused channels t ∧ sending s t = 0

theorem quieted_of_unused {t : T} (used : Used channels (traffic s)) (unused : s.unused channels t) :
    quieted channels s t := by
  simp only [State.unused, List.all_eq_true, decide_eq_true_eq] at unused
  simp only [quieted, List.all_eq_true, decide_eq_true_eq]
  intro signal member
  apply unused
  have signalled : signal.1 ∈ (traffic s).signals := List.mem_map_of_mem member
  have positive := List.count_pos_iff.mpr signalled
  have total := used.count signal.1
  apply List.count_pos_iff.mp
  change 0 < (traffic s).armed.count signal.1
  omega

/-- Once `lua_close` is through with the channels of a task, the counter is what threads are
behind with. -/
theorem wakes_of_unused {t : T} (accounted : Accounted channels s) (unused : s.unused channels t) :
    (s.chan t).wakes = -sending s t := by
  obtain ⟨wakes, sent, processed⟩ := balance accounted t
  have none := signals_eq_zero.mpr (quieted_of_unused accounted.used unused)
  omega

theorem Unattended.step {a : Act T C} (unattended : Unattended channels s)
    (accounted : Accounted channels s) (settled : ∀ t, closes s a = some t → (s.chan t).wakes = 0)
    (stepped : TaskSystem.step channels s a = some s') : Unattended channels s' := by
  intro t closed
  have cases := step_cases stepped
  have before : s.unused channels t ∧ sending s t = 0 := by
    obtain old | ⟨closing, unused⟩ := step_closes cases closed
    · exact unattended t old
    · have wakes := wakes_of_unused accounted unused
      have zero := settled t closing
      exact ⟨unused, by omega⟩
  have free := before.1
  simp only [State.unused, List.all_eq_true, decide_eq_true_eq] at free
  refine ⟨?_, ?_⟩
  · simp only [State.unused, List.all_eq_true, decide_eq_true_eq]
    intro c armed mine
    obtain old | ⟨elsewhere, thread, calls⟩ := step_armed cases armed
    · exact free c old mine
    · have executes : s.executes thread t := by
        simpa [TaskSystem.State.calls, mine] using calls
      obtain old | ⟨closing, -⟩ := step_closes cases closed
      · exact executes_live accounted.balanced executes old
      · rw [elsewhere] at closing
        cases closing
  · obtain same | move := step_moves accounted.toConserving cases
    · rw [← inflight_traffic, same, inflight_traffic]
      exact before.2
    · have bound := inflight_move accounted.used move free
      rw [inflight_traffic, inflight_traffic, before.2] at bound
      exact Nat.le_zero.mp bound

def Settled (s : State T C) (a : Act T C) : Prop :=
  ∀ t, closes s a = some t → (s.chan t).wakes = 0

/-- When the state of a task is closed, no thread is on its way to its channel task exactly
when the counter of the channel task is zero; a run that closes no other tasks leaves no
thread on its way to the channel task of a closed one. -/
theorem closed_unattended {acts : List (Act T C)}
    (ran : run (step channels) initial acts = some s) :
    (∀ a s' t, step channels s a = some s' → t ∈ s'.closed → t ∉ s.closed →
      (sending s' t = 0 ↔ (s.chan t).wakes = 0)) ∧
    (Along (step channels) Settled initial acts → ∀ t ∈ s.closed, sending s t = 0) := by
  have accounted := run_accounted ran
  refine ⟨fun a s' t stepped closed live => ?_, fun along => ?_⟩
  · obtain old | ⟨closing, unused⟩ := step_closes (step_cases stepped) closed
    · exact absurd old live
    · have wakes := wakes_of_unused accounted unused
      have same : sending s' t = sending s t := closing_sending (step_cases stepped) closing
      rw [same, wakes]
      omega
  · have kept := run_invariant_along (fun s => Accounted channels s ∧ Unattended channels s)
      Settled (fun _ _ _ before settled stepped =>
        ⟨before.1.step stepped, before.2.step before.1 settled stepped⟩)
      ⟨accounted_initial, fun _ closed => absurd closed List.not_mem_nil⟩ along ran
    exact fun t closed => (kept.2 t closed).2

/-- Task 7 ends after the thread of the match has counted it. -/
theorem closed_unattended_counted :
    ∃ s : State ℕ ℕ,
      run (step sample) initial (sampleMatch ++
        [.book 0, .process (some 0) 0, .ends 0, .closetask 0]) = some s ∧
      7 ∈ s.closed ∧ sending s 7 = 0 := by
  have ran : run (step sample) initial (sampleMatch ++
      [.book 0, .process (some 0) 0, .ends 0, .closetask 0]) = some _ := rfl
  refine ⟨_, ran, by decide, (closed_unattended ran).2 ?_ 7 (by decide)⟩
  have others : ∀ a ∈ sampleMatch ++ [.book 0, .process (some 0) 0, .ends 0],
      ∀ u : State ℕ ℕ, closes u a = none := by
    simp [sampleMatch, sampleWait, closes]
  change Along _ _ _ ((sampleMatch ++ [.book 0, .process (some 0) 0, .ends 0]) ++ [.closetask 0])
  refine along_append (along_always fun a member u t closing => ?_) fun u before => ?_
  · rw [others a member u] at closing
    cases closing
  · have reached := congrArg (Option.map fun v => (v.pool.task 0, (v.chan 7).wakes)) before
    have ended : some (some 7, 0) = some (u.pool.task 0, (u.chan 7).wakes) :=
      Eq.trans (by decide) reached
    obtain ⟨task, wakes⟩ := Prod.mk.inj (Option.some.inj ended)
    refine ⟨fun t closing => ?_, fun _ _ => trivial⟩
    cases Option.some.inj (task.trans closing)
    exact wakes.symm

/-- Task 7 sees the match in its loop, ends and is closed before the thread of the match comes
to its channel task. -/
theorem closed_attended :
    ¬∀ (acts : List (Act ℕ ℕ)) (s : State ℕ ℕ), run (step sample) initial acts = some s →
      ∀ t ∈ s.closed, sending s t = 0 := by
  intro always
  have ran : run (step sample) initial (sampleMatch ++
      [.process (some 0) 0, .ends 0, .closetask 0]) = some _ := rfl
  exact absurd (always _ _ ran 7 (by decide)) (by decide)

end Coutil.ChannelSuspension
