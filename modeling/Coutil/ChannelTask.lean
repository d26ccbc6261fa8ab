import Coutil.ChannelTraffic
import Coutil.TaskConservation

set_option autoImplicit false

/-! The channel task of a task: every step of the workers, of the matches and of the loop of a
task is a move of the traffic of its channels, or none. -/
namespace Coutil.ChannelTask
open Runs Census ChannelSync Exchange TaskSystem TaskSteps TaskLedger TaskConservation
open ChannelTraffic

variable {T C : Type}

def Waiter.channel? : Waiter T C → Option C
  | .task _ => none
  | .channel c _ => some c

def Waiter.hand : Waiter T C → Hand T C
  | .task _ => .empty
  | .channel c _ => .channel c

def Stage.hand : Stage T C → Hand T C
  | .taken waiter => Waiter.hand waiter
  | .swapped c _ => .channel c
  | .sent t => .sent t
  | _ => .empty

def traffic (s : State T C) : Traffic T C where
  queue := fun name => (s.sync name).queue.filterMap Waiter.channel?
  hands := s.matchers.map fun m => Stage.hand m.stage
  signals := s.signals.map Prod.fst
  armed := s.armed
  wakes := fun t => (s.chan t).wakes
  stored := fun t => (s.chan t).L.isSome
  tally := s.tally

section
variable {s : State T C} {j : ℕ} {m : Matcher T C}

theorem hand_at (at_j : s.matchers[j]? = some m) :
    (traffic s).hands[j]? = some (Stage.hand m.stage) := by
  simp [traffic, at_j]

theorem traffic_setstage (stage : Stage T C) :
    traffic (s.setstage j m stage) =
      { traffic s with hands := (traffic s).hands.set j (Stage.hand stage) } := by
  simp [traffic, State.setstage, List.map_set]

theorem traffic_setstage_same (at_j : s.matchers[j]? = some m) {stage : Stage T C}
    (same : Stage.hand stage = Stage.hand m.stage) : traffic (s.setstage j m stage) = traffic s := by
  have kept : (traffic s).hands.set j (Stage.hand stage) = (traffic s).hands := by
    rw [same]
    apply List.ext_getElem?
    intro k
    by_cases here : j = k
    · subst k
      have bound := (List.getElem?_eq_some_iff.mp (hand_at at_j)).1
      rw [List.getElem?_set_self bound, hand_at at_j]
    · rw [List.getElem?_set_ne here]
  rw [traffic_setstage, kept]

theorem traffic_setsync_queue (name : String) (sync : Sync (Waiter T C)) :
    (traffic (s.setsync name sync)).queue =
      Function.update (traffic s).queue name (sync.queue.filterMap Waiter.channel?) := by
  funext other
  by_cases here : other = name
  · subst other
    simp [traffic, State.setsync]
  · simp [traffic, State.setsync, Function.update_of_ne here]

theorem traffic_setsync (name : String) (sync : Sync (Waiter T C)) :
    traffic (s.setsync name sync) =
      { traffic s with
        queue := Function.update (traffic s).queue name
          (sync.queue.filterMap Waiter.channel?) } := by
  rw [← traffic_setsync_queue]
  rfl

/-- A sync record changes in its tasks alone. -/
theorem traffic_setsync_same {name : String} {sync : Sync (Waiter T C)}
    (same : sync.queue.filterMap Waiter.channel? = (traffic s).queue name) :
    traffic (s.setsync name sync) = traffic s := by
  rw [traffic_setsync, same, Function.update_eq_self]

end

section
variable [DecidableEq T] [DecidableEq C] {channels : Channels T C} {s : State T C}

omit [DecidableEq C] in
theorem tally_noteMatch (waiter : Waiter T C) :
    (noteMatch channels s waiter).tally =
      noted s.tally ((Waiter.channel? waiter).bind channels.owner) fun tally =>
        { tally with matched := tally.matched + 1 } := by
  cases waiter with
  | task t => rfl
  | channel c L =>
    simp only [noteMatch, Waiter.channel?, Option.bind_some]
    cases channels.owner c <;> rfl

/-- A match is with a task, or takes the first of the channels. -/
theorem startMatch_moves {name : String} {sync : Sync (Waiter T C)} {waiter : Waiter T C}
    {thread : Option ℕ} {source : Source T} (queue : (s.sync name).queue = waiter :: sync.queue) :
    Move channels (traffic s)
      (traffic (startMatch channels (s.setsync name sync) thread source waiter)) := by
  have waits : (traffic s).queue name =
      (waiter :: sync.queue).filterMap Waiter.channel? := by
    rw [← queue]
    rfl
  have started : traffic (startMatch channels (s.setsync name sync) thread source waiter) =
      { traffic (s.setsync name sync) with
        hands := (traffic s).hands ++ [Waiter.hand waiter]
        tally := noted s.tally ((Waiter.channel? waiter).bind channels.owner) fun tally =>
          { tally with matched := tally.matched + 1 } } := by
    rw [startMatch, noteMatch_frame, tally_noteMatch]
    simp [traffic, State.setsync, Stage.hand]
  rw [started]
  cases waiter with
  | task t =>
    rw [traffic_setsync_same waits.symm]
    exact .meet
  | channel c L =>
    rw [traffic_setsync]
    exact .take waits

omit [DecidableEq T] [DecidableEq C] in
/-- A task that a thread works on is not stored in its channel task. -/
theorem unstored {p : Place} {t : T} (balanced : Balanced (ledger s)) (elsewhere : p ≠ .channeltask)
    (held : (view s).Holds p t) : (s.chan t).L = none := by
  cases stored : (s.chan t).L with
  | none => rfl
  | some u =>
    obtain rfl : u = t := balanced.distinct.own t u stored
    exact absurd (balanced.unique p .channeltask u held stored) elsewhere

omit [DecidableEq C] in
theorem disposing_holds {t : T} (disposing : s.disposing t) :
    ∃ p, p ≠ .channeltask ∧ (∀ i, p ≠ .ended i) ∧ (view s).Holds p t := by
  simp only [State.disposing, decide_eq_true_eq] at disposing
  obtain first | closing := disposing
  · exact ⟨.closer, by simp, by simp, List.mem_of_head? first⟩
  · obtain ⟨m, member, stage⟩ := List.any_eq_true.mp closing
    obtain ⟨j, at_j⟩ := List.mem_iff_getElem?.mp member
    refine ⟨.matcher j, by simp, by simp, ?_⟩
    change atMatcher s.matchers j = some t
    cases closes : m.stage with
    | closing u =>
      simp only [closes, decide_eq_true_eq] at stage
      simp [atMatcher, at_j, closes, Stage.task?, stage]
    | _ => simp [closes] at stage

omit [DecidableEq C] in
theorem executes_holds {thread : Option ℕ} {t : T} (executes : s.executes thread t) :
    ∃ p, p ≠ .channeltask ∧ (∀ i, p ≠ .ended i) ∧ (view s).Holds p t := by
  cases thread with
  | none => exact disposing_holds executes
  | some i =>
    simp only [State.executes, decide_eq_true_eq] at executes
    obtain ⟨running, executing | closing⟩ := executes
    · exact ⟨.worker i, by simp, by simp, holds_worker running (by simp [executing, Job.holds])⟩
    · exact ⟨.worker i, by simp, by simp, holds_worker running (by simp [closing, Job.holds])⟩

theorem process_moves {thread : Option ℕ} {c : C} {u : State T C} (balanced : Balanced (ledger s))
    (calls : s.calls channels thread c) (processed : onsynced channels s c = some u) :
    Move channels (traffic s) (traffic u) := by
  obtain ⟨signal, found, rfl⟩ := Option.map_eq_some_iff.mp processed
  have mine := List.find?_some found
  simp only [decide_eq_true_eq] at mine
  subst c
  obtain ⟨before, after, -, split, rest⟩ :=
    List.exists_erase_eq (List.mem_of_find?_eq_some found)
  have away (t : T) (mine : channels.owner signal.1 = some t) : (traffic s).stored t = false := by
    have executes : s.executes thread t := by
      simpa [TaskSystem.State.calls, mine] using calls
    obtain ⟨p, elsewhere, -, held⟩ := executes_holds executes
    simp [traffic, unstored balanced elsewhere held]
  have signalled : (traffic s).signals =
      before.map Prod.fst ++ signal.1 :: after.map Prod.fst := by
    simp [traffic, split]
  have moved : Move channels (traffic s) _ := .process signalled away
  convert moved using 1
  simp only
  cases owner : channels.owner signal.1 with
  | none => simp [traffic, rest, woken, noted]
  | some t =>
    have wakes : (fun v => (Function.update s.chan t
        { s.chan t with wakes := (s.chan t).wakes - 1 } v).wakes) =
        Function.update (traffic s).wakes t ((traffic s).wakes t - 1) := by
      funext v
      by_cases here : v = t
      · subst v
        simp [traffic]
      · simp [Function.update_of_ne here, traffic]
    have stored : (fun v => (Function.update s.chan t
        { s.chan t with wakes := (s.chan t).wakes - 1 } v).L.isSome) = (traffic s).stored := by
      funext v
      by_cases here : v = t
      · subst v
        simp [traffic]
      · simp [Function.update_of_ne here, traffic]
    simp only [woken, noted, ← wakes, ← stored]
    simp [traffic, State.setchan, State.note, rest]

theorem suspend_moves {i base : ℕ} {t : T} (away : (s.chan t).L = none) :
    traffic (suspendedchtask s i t base) = traffic s ∨
      Move channels (traffic s) (traffic (suspendedchtask s i t base)) := by
  unfold suspendedchtask
  split_ifs with stored
  · have zero : (traffic s).wakes t = 0 := by
      simp only [stores, decide_eq_true_eq] at stored
      exact stored.2
    have moved : Move channels (traffic s) _ := .store zero (by simp [traffic, away])
    have wakes : (fun u => (Function.update s.chan t { s.chan t with L := some t } u).wakes) =
        (traffic s).wakes := by
      funext u
      by_cases here : u = t
      · subst u
        simp [traffic]
      · simp [Function.update_of_ne here, traffic]
    have stored : (fun u => (Function.update s.chan t { s.chan t with L := some t } u).L.isSome) =
        Function.update (traffic s).stored t true := by
      funext u
      by_cases here : u = t
      · subst u
        simp
      · simp [Function.update_of_ne here, traffic]
    rw [← stored] at moved
    refine Or.inr ?_
    convert moved using 1
    simp only [← wakes]
    rfl
  · exact Or.inl rfl

theorem cancel_moves {c : C} {L : Stack}
    (waits : .channel c L ∈ (s.sync (channels.name c)).queue) :
    Move channels (traffic s)
      (traffic { s.setsync (channels.name c)
          (removestateq (s.sync (channels.name c)) (.channel c L)) with
        armed := s.armed.erase c }) := by
  obtain ⟨before, after, -, split, rest⟩ := List.exists_erase_eq waits
  have queued : (traffic s).queue (channels.name c) =
      before.filterMap Waiter.channel? ++ c :: after.filterMap Waiter.channel? := by
    simp [traffic, split, Waiter.channel?]
  have left : (removestateq (s.sync (channels.name c)) (.channel c L)).queue.filterMap
      Waiter.channel? = before.filterMap Waiter.channel? ++ after.filterMap Waiter.channel? := by
    simp [removestateq, rest]
  have moved : Move channels (traffic s) _ := .cancel queued
  rw [← left, ← traffic_setsync_queue] at moved
  exact moved

omit [DecidableEq C] in
theorem swap_traffic {j : ℕ} {m : Matcher T C} {waiter : Waiter T C} {faults : Faults}
    (at_j : s.matchers[j]? = some m) (stage : m.stage = .taken waiter) :
    traffic (swap s j m waiter faults) = traffic s := by
  have placed (u : State T C) (L : Stack) (source : Source T) :
      traffic (putsource u L source) = traffic u ∧
        (putsource u L source).matchers = u.matchers := by
    cases source <;> exact ⟨rfl, rfl⟩
  unfold swap
  simp only
  generalize swapvalues faults (m.source.stack s) m.source.base m.source.narg
    (waiter.stack s) = both
  obtain ⟨same, matchers⟩ := placed s both.1 m.source
  rw [← matchers] at at_j
  rw [← same]
  cases waiter with
  | task t =>
    exact traffic_setstage_same (s := (putsource s both.1 m.source).setstack t both.2) at_j
      (by rw [stage]; rfl)
  | channel c L => exact traffic_setstage_same at_j (by rw [stage]; rfl)

theorem send_moves {j : ℕ} {m : Matcher T C} {c : C} {L : Stack}
    (at_j : s.matchers[j]? = some m) (stage : m.stage = .swapped c L) :
    Move channels (traffic s) (traffic (send channels s j m c L)) := by
  have hand : (traffic s).hands[j]? = some (.channel c) := by
    rw [hand_at at_j, stage]
    rfl
  have moved : Move channels (traffic s) _ := .send hand
  have signalled : traffic (asyncsend s c L) =
      { traffic s with
        signals := if c ∈ (traffic s).signals then (traffic s).signals
          else (traffic s).signals ++ [c] } := by
    have known : (s.signals.any fun signal => signal.1 = c) ↔ c ∈ (traffic s).signals := by
      simp [traffic]
    unfold asyncsend
    simp only [known]
    split_ifs
    · rfl
    · simp [traffic]
  convert moved using 1
  unfold send
  cases owner : channels.owner c with
  | none =>
    simp only [traffic_setstage, signalled]
    simp [Hand.signalled, owner, noted, Stage.hand]
  | some t =>
    have same : traffic ((asyncsend s c L).setstage j m (.sent t)) =
        { traffic (asyncsend s c L) with
          hands := (traffic (asyncsend s c L)).hands.set j (.sent t) } := traffic_setstage _
    have noteds : (asyncsend s c L).tally = s.tally := by
      unfold asyncsend
      split_ifs <;> rfl
    have tallied : traffic (((asyncsend s c L).setstage j m (.sent t)).note t fun tally =>
        { tally with sent := tally.sent + 1 }) =
        { traffic ((asyncsend s c L).setstage j m (.sent t)) with
          tally := noted s.tally (some t) fun tally => { tally with sent := tally.sent + 1 } } := by
      rw [← noteds]
      rfl
    simp only [tallied, same, signalled, Hand.signalled, owner]
    rfl

theorem book_moves {j : ℕ} {m : Matcher T C} {t : T} (at_j : s.matchers[j]? = some m)
    (stage : m.stage = .sent t) : Move channels (traffic s) (traffic (book s j m t)) := by
  have hand : (traffic s).hands[j]? = some (.sent t) := by
    rw [hand_at at_j, stage]
    rfl
  have moved : Move channels (traffic s) _ := .book hand
  have wakes : (fun u => (Function.update s.chan t ⟨(s.chan t).wakes + 1, none⟩ u).wakes) =
      Function.update (traffic s).wakes t ((traffic s).wakes t + 1) := by
    funext u
    by_cases here : u = t
    · subst u
      simp [traffic]
    · simp [Function.update_of_ne here, traffic]
  have stored : (fun u => (Function.update s.chan t ⟨(s.chan t).wakes + 1, none⟩ u).L.isSome) =
      Function.update (traffic s).stored t false := by
    funext u
    by_cases here : u = t
    · subst u
      simp
    · simp [Function.update_of_ne here, traffic]
  rw [← wakes, ← stored] at moved
  convert moved using 1
  unfold book
  cases found : (s.chan t).L with
  | none =>
    simp [traffic, State.setstage, State.setchan, State.note, noted, found, List.map_set,
      Stage.hand]
  | some u =>
    simp [traffic, State.setstage, State.setchan, State.note, noted, found, List.map_set,
      Stage.hand]

/-- Every step leaves the traffic as it is, or is one move of it. -/
theorem step_moves {s' : State T C} {a : Act T C} (conserving : Conserving s)
    (stepped : Step channels s a s') :
    traffic s' = traffic s ∨ Move channels (traffic s) (traffic s') := by
  cases stepped with
  | add fresh nonempty added => exact Or.inl rfl
  | lock kind stepped => exact Or.inl rfl
  | elsewhere kind free stepped => exact Or.inl rfl
  | close kind free stepped => exact Or.inl rfl
  | drain closer unused => exact Or.inl rfl
  | resume running job => exact Or.inl rfl
  | yield running job => exact Or.inl rfl
  | ends running job => exact Or.inl rfl
  | closetask running job unused => exact Or.inl rfl
  | reject running job named checked => exact Or.inl rfl
  | wait running job named checked queue =>
    refine Or.inl (traffic_setsync_same (s := s) ?_)
    rw [queue, List.filterMap_append]
    exact List.append_nil _
  | found running job named checked queue =>
    rename_i i base t name endpoint L sync waiter
    exact Or.inr (startMatch_moves (s := (s.setstack t L).setjob i (.freeing true)) queue)
  | suspend running job unnamed =>
    have away := unstored conserving.balanced (by simp)
      (holds_worker running (by simp [job, Job.holds]))
    exact suspend_moves away
  | free running job => exact Or.inl rfl
  | discard running job => exact Or.inl rfl
  | finish running job stepped => exact Or.inl rfl
  | arm syncs calls idle checked queue given =>
    rename_i thread c endpoint K L sync
    have armed : Move channels (traffic s) _ := .arm idle
    have longer : sync.queue.filterMap Waiter.channel? =
        (traffic s).queue (channels.name c) ++ [c] := by
      rw [queue, List.filterMap_append]
      rfl
    rw [← longer, ← traffic_setsync_queue] at armed
    exact Or.inr armed
  | call syncs calls checked queue given => exact Or.inr (startMatch_moves queue)
  | refuse syncs calls queue => exact Or.inl (traffic_setsync_same (by rw [queue]; rfl))
  | cancel calls waits => exact Or.inr (cancel_moves waits)
  | process calls processed => exact Or.inr (process_moves conserving.balanced calls processed)
  | swap at_j stage => exact Or.inl (swap_traffic at_j stage)
  | send at_j stage => exact Or.inr (send_moves at_j stage)
  | book at_j stage => exact Or.inr (book_moves at_j stage)
  | resumetask at_j stage result =>
    rename_i added w pool
    refine Or.inl (traffic_setstage_same (s := { s with pool := pool }) at_j ?_)
    rw [stage]
    split_ifs <;> rfl
  | collect at_j stage unused =>
    exact Or.inl (traffic_setstage_same (s := s.collect _) at_j (by rw [stage]; rfl))

/-- The tasks, the channels and the counters of the channel tasks agree. -/
structure Accounted (channels : Channels T C) (s : State T C) : Prop extends Conserving s where
  used : Used channels (traffic s)
  tallied : ∀ t, Tallied channels (traffic s) t

theorem Accounted.step {s' : State T C} {a : Act T C} (accounted : Accounted channels s)
    (stepped : TaskSystem.step channels s a = some s') : Accounted channels s' := by
  have conserving := accounted.toConserving.step stepped
  obtain same | move := step_moves accounted.toConserving (step_cases stepped)
  · exact ⟨conserving, same ▸ accounted.used, same ▸ accounted.tallied⟩
  · exact ⟨conserving, accounted.used.move move,
      fun t => (accounted.tallied t).move accounted.used move⟩

theorem accounted_initial : Accounted channels (initial : State T C) :=
  ⟨conserving_initial, ⟨fun _ _ waits => absurd waits List.not_mem_nil, List.nodup_nil, fun _ => rfl⟩,
    fun _ => ⟨rfl, rfl, rfl, rfl, fun _ => rfl, rfl⟩⟩

theorem run_accounted {acts : List (Act T C)}
    (ran : run (TaskSystem.step channels) initial acts = some s) : Accounted channels s :=
  run_invariant (Accounted channels) (fun _ _ _ accounted stepped => accounted.step stepped)
    accounted_initial ran

/-- The thread is between the signal of a channel of the task and its section under the mutex
of the channel task. -/
def Stage.sends (t : T) : Stage T C → Bool
  | .sent u => u = t
  | _ => false

/-- The thread will come to the section of the channel task of the task. -/
def Stage.headsTo (channels : Channels T C) (t : T) (stage : Stage T C) : Bool :=
  Hand.heads channels (Stage.hand stage) = some t

/-- The matches that are sent and not booked. -/
def sending (s : State T C) (t : T) : ℕ :=
  s.matchers.countP fun m => Stage.sends t m.stage

theorem inflight_traffic (t : T) : inflight (traffic s) t = sending s t := by
  rw [inflight, census, traffic, List.countP_map, sending]
  congr 1
  funext m
  cases stage : m.stage with
  | taken waiter => cases waiter <;> simp [stage, Stage.hand, Waiter.hand, Stage.sends]
  | _ => simp [stage, Stage.hand, Stage.sends]

omit [DecidableEq C] in
theorem ahead_pos {t : T} (positive : 0 < ahead channels (traffic s) t) :
    ∃ (j : ℕ) (m : Matcher T C), s.matchers[j]? = some m ∧ Stage.headsTo channels t m.stage := by
  obtain ⟨j, hand, at_j, heads⟩ := (census_pos _).mp positive
  simp only [traffic, List.getElem?_map, Option.map_eq_some_iff] at at_j
  obtain ⟨m, at_j, rfl⟩ := at_j
  exact ⟨j, m, at_j, decide_eq_true heads⟩

theorem step_matcher {a : Act T C} {j : ℕ} {m : Matcher T C} (matcher : a.matcher = some j)
    (at_j : s.matchers[j]? = some m) : step channels s a = proceed channels s j m m.stage a := by
  have worker : a.worker = none := by
    cases a <;> first | rfl | cases matcher
  simp only [step, worker, matcher, at_j, Option.bind_some]

omit [DecidableEq T] [DecidableEq C] in
theorem setstage_at {j : ℕ} {m : Matcher T C} (at_j : s.matchers[j]? = some m)
    (stage : Stage T C) : (s.setstage j m stage).matchers[j]? = some { m with stage := stage } := by
  have bound := (List.getElem?_eq_some_iff.mp at_j).1
  simp only [State.setstage]
  exact List.getElem?_set_self bound

theorem send_at {j : ℕ} {m : Matcher T C} {c : C} {L : Stack} {t : T}
    (at_j : s.matchers[j]? = some m) (owner : channels.owner c = some t) :
    (send channels s j m c L).matchers[j]? = some { m with stage := .sent t } ∧
      (send channels s j m c L).chan = s.chan := by
  have sent : (asyncsend s c L).matchers = s.matchers ∧ (asyncsend s c L).chan = s.chan := by
    unfold asyncsend
    split_ifs <;> exact ⟨rfl, rfl⟩
  rw [← sent.1] at at_j
  simp only [send, owner]
  exact ⟨setstage_at at_j _, sent.2⟩

/-- The thread of a match of a channel of the task comes to the channel task by its own
steps, and leaves the channel tasks alone until then. -/
theorem comes_to_section {j : ℕ} {m : Matcher T C} {t : T} (at_j : s.matchers[j]? = some m)
    (heads : Stage.headsTo channels t m.stage) :
    ∃ acts s', (∀ a ∈ acts, a.matcher = some j) ∧ run (step channels) s acts = some s' ∧
      s'.matchers[j]? = some { m with stage := .sent t } ∧ s'.chan = s.chan := by
  have swapped {u : State T C} {c : C} {L : Stack} {n : Matcher T C}
      (at_j : u.matchers[j]? = some n) (stage : n.stage = .swapped c L)
      (owner : channels.owner c = some t) :
      run (step channels) u [.send j] = some (send channels u j n c L) := by
    have sends : step channels u (.send j) = _ := step_matcher rfl at_j
    simp only [run, sends, stage, proceed, Option.bind_some]
  cases stage : m.stage with
  | taken waiter =>
    cases waiter with
    | task u => simp [stage, Stage.headsTo, Stage.hand, Waiter.hand, Hand.heads] at heads
    | channel c L =>
      have owner : channels.owner c = some t := by
        simpa [stage, Stage.headsTo, Stage.hand, Waiter.hand, Hand.heads] using heads
      have first : step channels s (.swap j .none) =
          some (swap s j m (.channel c L) .none) := by
        rw [step_matcher rfl at_j, stage]
        rfl
      have chan : (swap s j m (.channel c L) .none).chan = s.chan := by
        rw [swap_frame]
      obtain ⟨K, at_swapped⟩ : ∃ K, (swap s j m (.channel c L) .none).matchers[j]? =
          some { m with stage := .swapped c K } := by
        refine ⟨_, setstage_at ?_ _⟩
        cases m.source <;> exact at_j
      have sent := send_at (L := K) at_swapped owner
      refine ⟨[.swap j .none, .send j], _, ?_, ?_, sent.1, sent.2.trans chan⟩
      · intro a member
        simp only [List.mem_cons, List.not_mem_nil, or_false] at member
        obtain rfl | rfl := member <;> rfl
      · exact run_cons.mpr ⟨_, first, swapped at_swapped rfl owner⟩
  | swapped c L =>
    have owner : channels.owner c = some t := by
      simpa [stage, Stage.headsTo, Stage.hand, Hand.heads] using heads
    have sent := send_at (L := L) at_j owner
    refine ⟨[.send j], _, ?_, swapped at_j stage owner, sent.1, sent.2⟩
    intro a member
    cases List.mem_singleton.mp member
    rfl
  | sent u =>
    obtain rfl : u = t := by
      simpa [stage, Stage.headsTo, Stage.hand, Hand.heads] using heads
    refine ⟨[], s, fun a member => absurd member List.not_mem_nil, rfl, ?_, rfl⟩
    rw [at_j, ← stage]
  | resuming u => simp [stage, Stage.headsTo, Stage.hand, Hand.heads] at heads
  | closing u => simp [stage, Stage.headsTo, Stage.hand, Hand.heads] at heads
  | done => simp [stage, Stage.headsTo, Stage.hand, Hand.heads] at heads

theorem book_takes (channels : Channels T C) {j : ℕ} {m : Matcher T C} {t u : T} (at_j : s.matchers[j]? = some m)
    (stage : m.stage = .sent t) (stored : (s.chan t).L = some u) :
    step channels s (.book j) = some (book s j m t) ∧
      (book s j m t).matchers[j]? = some { m with stage := .resuming u } ∧
      ((book s j m t).chan t).L = none ∧
      ((book s j m t).tally t).takes = (s.tally t).takes + 1 := by
  refine ⟨?_, ?_, ?_, ?_⟩
  · rw [step_matcher rfl at_j, stage]
    rfl
  · simp only [book, stored]
    exact setstage_at (s := s.setchan t _) at_j _
  · simp only [book, stored]
    simp [State.note, State.setstage, State.setchan]
  · simp only [book, stored]
    simp [State.note, State.setstage, State.setchan]

/-- The task leaves its channel task only by the section of a match. -/
theorem stored_until_booked {s' : State T C} {a : Act T C} {t : T}
    (stepped : Step channels s a s') (stored : (s.chan t).L ≠ none) (left : (s'.chan t).L = none) :
    ∃ j m, a = .book j ∧ s.matchers[j]? = some m ∧ m.stage = .sent t := by
  cases stepped with
  | book at_j stage =>
    rename_i j m u
    by_cases mine : u = t
    · subst u
      exact ⟨j, m, rfl, at_j, stage⟩
    · have other : ((book s j m u).chan t).L = (s.chan t).L := by
        simp only [book]
        split <;> simp [State.note, State.setstage, State.setchan, Ne.symm mine]
      rw [other] at left
      exact absurd left stored
  | suspend running job unnamed =>
    rename_i i base u
    unfold suspendedchtask at left
    split_ifs at left
    · by_cases mine : t = u
      · subst u
        simp [State.note, State.setjob, State.setchan] at left
      · simp [State.note, State.setjob, State.setchan, mine] at left
        exact absurd left stored
    · exact absurd left stored
  | process calls processed =>
    obtain ⟨signal, found, rfl⟩ := Option.map_eq_some_iff.mp processed
    simp only at left
    split at left
    · exact absurd left stored
    · rename_i u owner
      by_cases mine : t = u
      · subst u
        simp [State.note, State.setchan] at left
        exact absurd left stored
      · simp [State.note, State.setchan, mine] at left
        exact absurd left stored
  | found running job named checked queue =>
    rw [startMatch_frame] at left
    exact absurd left stored
  | call syncs calls checked queue given =>
    rw [startMatch_frame] at left
    exact absurd left stored
  | swap at_j stage =>
    rw [swap_frame] at left
    exact absurd left stored
  | send at_j stage =>
    rw [send_frame] at left
    exact absurd left stored
  | _ => exact absurd left stored

/-- A suspended task is not forgotten: while it is stored the matches that are sent and not
processed are those of threads on their way to its channel task, the first of which takes it. -/
theorem suspended_not_forgotten {acts : List (Act T C)}
    (ran : run (step channels) initial acts = some s) (t : T) :
    (s.chan t).wakes = (s.tally t).booked - (s.tally t).processed ∧
    ((s.chan t).L ≠ none → (s.tally t).sent = (s.tally t).processed + sending s t) ∧
    ((s.chan t).L ≠ none → (s.tally t).processed < (s.tally t).matched →
      ∃ j m acts' s', s.matchers[j]? = some m ∧ Stage.headsTo channels t m.stage ∧
        (∀ a ∈ acts', a.matcher = some j) ∧ run (step channels) s acts' = some s' ∧
        s'.matchers[j]? = some { m with stage := .resuming t } ∧ (s'.chan t).L = none) ∧
    (∀ a s', step channels s a = some s' → (s.chan t).L ≠ none → (s'.chan t).L = none →
      ∃ j m, a = .book j ∧ s.matchers[j]? = some m ∧ m.stage = .sent t ∧
        s'.matchers[j]? = some { m with stage := .resuming t } ∧
        (s'.tally t).takes = (s.tally t).takes + 1) ∧
    (s.tally t).stores = (s.tally t).takes + if (s.chan t).L.isSome then 1 else 0 := by
  have accounted := run_accounted ran
  have tallied := accounted.tallied t
  have own {u : T} (stored : (s.chan t).L = some u) : u = t :=
    accounted.balanced.distinct.own t u stored
  refine ⟨tallied.wakes, fun stored => ?_, fun stored unprocessed => ?_,
    fun a s' stepped stored left => ?_, tallied.takes⟩
  · have zero := tallied.stored (Option.isSome_iff_ne_none.mpr stored)
    have wakes := tallied.wakes
    have sent := tallied.sent
    rw [inflight_traffic] at sent
    change (s.tally t).sent = (s.tally t).booked + sending s t at sent
    change (s.chan t).wakes = (s.tally t).booked - (s.tally t).processed at wakes
    change (s.chan t).wakes = 0 at zero
    omega
  · have zero := tallied.stored (Option.isSome_iff_ne_none.mpr stored)
    have wakes := tallied.wakes
    have matched := tallied.matched
    change (s.tally t).matched = (s.tally t).booked + _ at matched
    change (s.chan t).wakes = (s.tally t).booked - (s.tally t).processed at wakes
    change (s.chan t).wakes = 0 at zero
    have heading : 0 < ahead channels (traffic s) t := by omega
    obtain ⟨j, m, at_j, heads⟩ := ahead_pos heading
    obtain ⟨acts', u, mine, reached, at_u, chan⟩ := comes_to_section at_j heads
    obtain ⟨v, stored⟩ := Option.ne_none_iff_exists'.mp stored
    obtain rfl := own stored
    rw [← chan] at stored
    obtain ⟨taken, at_taken, empty, -⟩ := book_takes channels at_u rfl stored
    refine ⟨j, m, acts' ++ [.book j], _, at_j, heads, ?_, ?_, at_taken, empty⟩
    · intro a member
      obtain old | new := List.mem_append.mp member
      · exact mine a old
      · cases List.mem_singleton.mp new
        rfl
    · exact run_append.mpr ⟨u, reached, run_cons.mpr ⟨_, taken, rfl⟩⟩
  · obtain ⟨j, m, rfl, at_j, stage⟩ := stored_until_booked (step_cases stepped) stored left
    obtain ⟨v, stored⟩ := Option.ne_none_iff_exists'.mp stored
    obtain rfl := own stored
    obtain ⟨taken, at_taken, -, takes⟩ := book_takes channels at_j stage stored
    obtain rfl := Option.some.inj (taken.symm.trans stepped)
    exact ⟨j, m, rfl, at_j, stage, at_taken, takes⟩

end

/-- Channel 0 is of task 7, and channel 1 of no task. -/
def sample : Channels ℕ ℕ where
  name := fun _ => "jobs"
  owner := fun c => if c = 0 then some 7 else none

/-- Task 7 starts to run in worker 0 and waits on its channel. -/
def sampleWait : List (Act ℕ ℕ) :=
  [.resize 1 true 1 0, .add 7 [.object "function" 0] true 0, .lock 0 0, .resume 0,
    .awaitch (some 0) 0 [.object "channel" 0] true]

/-- The task is matched while it is stored. -/
theorem suspended_not_forgotten_matched :
    ∃ s : State ℕ ℕ,
      run (step sample) initial (sampleWait ++
        [.yield 0 [] [.channeltask], .handle 0, .trysync none 1 [.object "channel" 1]]) = some s ∧
      (s.chan 7).L ≠ none ∧ (s.tally 7).processed < (s.tally 7).matched ∧
      ∃ j m acts' s', s.matchers[j]? = some m ∧ Stage.headsTo sample 7 m.stage ∧
        (∀ a ∈ acts', a.matcher = some j) ∧ run (step sample) s acts' = some s' ∧
        s'.matchers[j]? = some { m with stage := .resuming 7 } ∧ (s'.chan 7).L = none := by
  have ran : run (step sample) initial (sampleWait ++
      [.yield 0 [] [.channeltask], .handle 0, .trysync none 1 [.object "channel" 1]]) = some _ := rfl
  exact ⟨_, ran, by decide, by decide,
    (suspended_not_forgotten ran 7).2.2.1 (by decide) (by decide)⟩

end Coutil.ChannelTask
