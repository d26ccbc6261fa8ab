import Coutil.Census
import Coutil.ChannelAwait
import Coutil.ExchangeMovable

set_option autoImplicit false

/-! The channels that the coroutines of a state use: for each of them the one coroutine that
awaits on it, or that canceled too late, and where the state of the channel is meanwhile. -/
namespace Coutil.ChannelUse
open Census Operation ChannelSync Exchange ExchangeMovable AwaitOperation ChannelAwait

/-- What the state of a channel has while it waits: its arguments, above its place for the first
result. -/
def Offering (cL : Stack) : Prop :=
  ∃ L narg, Offers L 0 narg ∧ Movable L ∧ cL = offer L 0 narg

/-- What it has once it was matched: the results and the number of them. -/
def Answered (cL : Stack) : Prop := Ready [] cL ∧ Movable cL

theorem answered_swapvalues (faults : Faults) {src cL : Stack} {bsrc nsrc : ℕ}
    (offers : Offers src bsrc nsrc) (offering : Offering cL) :
    Answered (swapvalues faults src bsrc nsrc cL).2 := by
  obtain ⟨L, narg, fits, movable, rfl⟩ := offering
  have ready := (ready_swapvalues faults offers fits).2
  refine ⟨ready, movable_swapvalues faults src bsrc nsrc ?_⟩
  exact movable_append.mpr ⟨movable, by simp [Movable, Value.movable]⟩

section
variable {T C Q : Type} [DecidableEq T] [DecidableEq C] [DecidableEq Q]

/-- What the operations of the coroutines hold, with the channels and the matches of others. -/
structure Traffic (T C Q : Type) where
  hold : T → Hold Value
  opvalue : T → Option C
  world : World T C Q
  hands : List (Hand C)

def traffic (s : State T C Q) : Traffic T C Q :=
  ⟨fun x => hold (s.op x), s.opvalue, s.world, s.hands⟩

/-- A channel and where its state is: how often in the queue, in the hands of a match before and
after the exchange, and behind a signal. -/
inductive Stage : LuaChannel T → ℕ → ℕ → ℕ → ℕ → Prop
  | idle (closed : Bool) : Stage ⟨closed, [], none, none⟩ 0 0 0 0
  | queued (x : T) {L : Stack} (offering : Offering L) : Stage ⟨false, L, some x, some x⟩ 1 0 0 0
  | taken (x : T) {L : Stack} (offering : Offering L) : Stage ⟨false, L, some x, some x⟩ 0 1 0 0
  | swapped (x : T) {L : Stack} (answered : Answered L) : Stage ⟨false, L, some x, some x⟩ 0 0 1 0
  | signalled (x : T) {L : Stack} (answered : Answered L) :
      Stage ⟨false, L, some x, some x⟩ 0 0 0 1

section
variable {channel : LuaChannel T} {queued taken swapped signalled : ℕ}

omit [DecidableEq T]

theorem Stage.free (stage : Stage channel queued taken swapped signalled)
    (free : channel.handle = none) :
    channel = ⟨channel.closed, [], none, none⟩ ∧
      queued = 0 ∧ taken = 0 ∧ swapped = 0 ∧ signalled = 0 := by
  cases stage with
  | idle closed => exact ⟨rfl, rfl, rfl, rfl, rfl⟩
  | _ => cases free

/-- A channel is in use exactly while its state is somewhere, and never in the queue and in a
match at once. -/
theorem Stage.places (stage : Stage channel queued taken swapped signalled) :
    (channel.handle ≠ none ↔ 0 < queued ∨ 0 < taken ∨ 0 < swapped ∨ 0 < signalled) ∧
      (0 < taken ∨ 0 < swapped ∨ 0 < signalled → queued = 0) := by
  cases stage <;> simp

theorem Stage.in_queue (stage : Stage channel queued taken swapped signalled)
    (waits : 0 < queued) :
    ∃ x L, channel = ⟨false, L, some x, some x⟩ ∧ Offering L ∧
      queued = 1 ∧ taken = 0 ∧ swapped = 0 ∧ signalled = 0 := by
  cases stage with
  | queued x offering => exact ⟨x, _, rfl, offering, rfl, rfl, rfl, rfl⟩
  | _ => cases waits

theorem Stage.in_hand (stage : Stage channel queued taken swapped signalled) (held : 0 < taken) :
    ∃ x L, channel = ⟨false, L, some x, some x⟩ ∧ Offering L ∧
      queued = 0 ∧ taken = 1 ∧ swapped = 0 ∧ signalled = 0 := by
  cases stage with
  | taken x offering => exact ⟨x, _, rfl, offering, rfl, rfl, rfl, rfl⟩
  | _ => cases held

theorem Stage.exchanged (stage : Stage channel queued taken swapped signalled)
    (held : 0 < swapped) :
    ∃ x L, channel = ⟨false, L, some x, some x⟩ ∧ Answered L ∧
      queued = 0 ∧ taken = 0 ∧ swapped = 1 ∧ signalled = 0 := by
  cases stage with
  | swapped x answered => exact ⟨x, _, rfl, answered, rfl, rfl, rfl, rfl⟩
  | _ => cases held

theorem Stage.sent (stage : Stage channel queued taken swapped signalled) (sent : 0 < signalled) :
    ∃ x L, channel = ⟨false, L, some x, some x⟩ ∧ Answered L ∧
      queued = 0 ∧ taken = 0 ∧ swapped = 0 ∧ signalled = 1 := by
  cases stage with
  | signalled x answered => exact ⟨x, _, rfl, answered, rfl, rfl, rfl, rfl⟩
  | _ => cases sent

end

namespace Traffic
variable (channels : Channels C) (v : Traffic T C Q)

def queued (c : C) : ℕ := (v.world.sync (channels.name c)).queue.count (.own c)

def signalled (c : C) : ℕ :=
  match (v.world.channel c).handle with
  | none => 0
  | some x => v.world.signals.count x

def stage (c : C) : Prop :=
  Stage (v.world.channel c) (v.queued channels c) (census id v.hands (.taken c))
    (census id v.hands (.swapped c)) (v.signalled c)

/-- The channel that the coroutine waits on, or canceled too late. -/
def uses (x : T) : Option C :=
  match v.hold x with
  | .none => none
  | .waits L => channels.check (index L 1)
  | .canceled => v.opvalue x

end Traffic

variable (channels : Channels C)

structure Used (v : Traffic T C Q) : Prop where
  stage : ∀ c, v.stage channels c
  handle : ∀ c x, (v.world.channel c).handle = some x ↔ v.uses channels x = some c
  named : ∀ name c, .own c ∈ (v.world.sync name).queue → name = channels.name c
  waits : ∀ x L, v.hold x = .waits L → channels.check (index L 1) ≠ none
  value : ∀ x, v.opvalue x ≠ none ↔ v.hold x = .canceled
  late : ∀ x c, v.hold x = .canceled → v.opvalue x = some c → v.queued channels c = 0
  signals : ∀ x, v.uses channels x = none → v.world.signals.count x = 0

/-- The channel and the coroutine are one another's, or nobody's. -/
def Paired (v : Traffic T C Q) (x : T) (c : C) : Prop :=
  ((v.world.channel c).handle = some x ∧ v.uses channels x = some c) ∨
    ((v.world.channel c).handle = none ∧ v.uses channels x = none)

/-- Nothing changes but for one coroutine and one channel. -/
structure Change (v v' : Traffic T C Q) (x : T) (c : C) : Prop where
  before : Paired channels v x c
  after : Paired channels v' x c
  hold : ∀ y, y ≠ x → v'.hold y = v.hold y
  opvalue : ∀ y, y ≠ x → v'.opvalue y = v.opvalue y
  channel : ∀ d, d ≠ c → v'.world.channel d = v.world.channel d
  queue : ∀ name d, d ≠ c →
    (v'.world.sync name).queue.count (.own d) = (v.world.sync name).queue.count (.own d)
  hands : ∀ h : Hand C, h.channel ≠ c → census id v'.hands h = census id v.hands h
  signals : ∀ y, y ≠ x → v'.world.signals.count y = v.world.signals.count y

variable {channels}
variable {v v' : Traffic T C Q} {x : T} {c : C}

theorem Change.uses (change : Change channels v v' x c) {y : T} (other : y ≠ x) :
    v'.uses channels y = v.uses channels y := by
  unfold Traffic.uses
  rw [change.hold y other, change.opvalue y other]

omit [DecidableEq T] [DecidableEq C] [DecidableEq Q] in
theorem Paired.handle (paired : Paired channels v x c) {y : T}
    (mine : (v.world.channel c).handle = some y) : y = x := by
  obtain ⟨handle, -⟩ | ⟨handle, -⟩ := paired
  · exact Option.some.inj (mine.symm.trans handle)
  · rw [handle] at mine
    cases mine

omit [DecidableEq T] [DecidableEq C] [DecidableEq Q] in
theorem Paired.uses (paired : Paired channels v x c) {d : C}
    (mine : v.uses channels x = some d) : d = c := by
  obtain ⟨-, uses⟩ | ⟨-, uses⟩ := paired
  · exact Option.some.inj (mine.symm.trans uses)
  · rw [uses] at mine
    cases mine

omit [DecidableEq T] [DecidableEq C] [DecidableEq Q] in
theorem Paired.iff (paired : Paired channels v x c) :
    (v.world.channel c).handle = some x ↔ v.uses channels x = some c := by
  obtain ⟨handle, uses⟩ | ⟨handle, uses⟩ := paired <;> simp [handle, uses]

/-- The rest stays as it was, so that only the two that change are looked at. -/
theorem Used.change (used : Used channels v) (change : Change channels v v' x c)
    (stage : v'.stage channels c)
    (named : ∀ name, .own c ∈ (v'.world.sync name).queue → name = channels.name c)
    (waits : ∀ L, v'.hold x = .waits L → channels.check (index L 1) ≠ none)
    (value : v'.opvalue x ≠ none ↔ v'.hold x = .canceled)
    (late : v'.hold x = .canceled → v'.queued channels c = 0)
    (signals : v'.uses channels x = none → v'.world.signals.count x = 0) :
    Used channels v' := by
  have queued (d : C) (other : d ≠ c) : v'.queued channels d = v.queued channels d :=
    change.queue _ d other
  refine ⟨fun d => ?_, fun d y => ?_, fun name d waiting => ?_, fun y L holds => ?_, fun y => ?_,
    fun y d canceled valued => ?_, fun y free => ?_⟩
  · by_cases same : d = c
    · rw [same]
      exact stage
    · have signalled : v'.signalled d = v.signalled d := by
        unfold Traffic.signalled
        rw [change.channel d same]
        cases handle : (v.world.channel d).handle with
        | none => rfl
        | some y =>
          have other : y ≠ x := by
            rintro rfl
            exact same (change.before.uses ((used.handle d y).mp handle))
          exact change.signals y other
      have stage := used.stage d
      unfold Traffic.stage at stage ⊢
      rw [change.channel d same, queued d same, signalled, change.hands (.taken d) same,
        change.hands (.swapped d) same]
      exact stage
  · by_cases here : y = x
    · rw [here]
      by_cases same : d = c
      · rw [same]
        exact change.after.iff
      · rw [change.channel d same]
        constructor
        · intro handle
          exact absurd (change.before.uses ((used.handle d x).mp handle)) same
        · intro uses
          exact absurd (change.after.uses uses) same
    · rw [change.uses here]
      by_cases same : d = c
      · rw [same]
        constructor
        · intro handle
          exact absurd (change.after.handle handle) here
        · intro uses
          exact absurd (change.before.handle ((used.handle c y).mpr uses)) here
      · rw [change.channel d same]
        exact used.handle d y
  · by_cases same : d = c
    · rw [same] at waiting ⊢
      exact named name waiting
    · have counted := List.count_pos_iff.mpr waiting
      rw [change.queue name d same] at counted
      exact used.named name d (List.count_pos_iff.mp counted)
  · by_cases here : y = x
    · rw [here] at holds
      exact waits L holds
    · rw [change.hold y here] at holds
      exact used.waits y L holds
  · by_cases here : y = x
    · rw [here]
      exact value
    · rw [change.hold y here, change.opvalue y here]
      exact used.value y
  · by_cases here : y = x
    · rw [here] at canceled valued
      have uses : v'.uses channels x = some d := by
        unfold Traffic.uses
        rw [canceled]
        exact valued
      rw [change.after.uses uses]
      exact late canceled
    · rw [change.hold y here] at canceled
      rw [change.opvalue y here] at valued
      by_cases same : d = c
      · have uses : v.uses channels y = some c := by
          unfold Traffic.uses
          rw [canceled, ← same]
          exact valued
        exact absurd (change.before.handle ((used.handle c y).mpr uses)) here
      · rw [queued d same]
        exact used.late y d canceled valued
  · by_cases here : y = x
    · rw [here] at free ⊢
      exact signals free
    · rw [change.uses here] at free
      rw [change.signals y here]
      exact used.signals y free

theorem Used.paired (used : Used channels v) (mine : (v.world.channel c).handle = some x) :
    Paired channels v x c :=
  Or.inl ⟨mine, (used.handle c x).mp mine⟩

/-- The states of the channels wait as before, whatever other ones do. -/
theorem Used.setsync (used : Used channels v) {name : String} {sync : Sync (Waiter C Q)}
    (same : ∀ d, sync.queue.count (.own d) = (v.world.sync name).queue.count (.own d)) :
    Used channels { v with world := v.world.setsync name sync } := by
  have counts (other : String) (d : C) :
      ((v.world.setsync name sync).sync other).queue.count (.own d) =
        (v.world.sync other).queue.count (.own d) := by
    by_cases here : other = name
    · rw [here, setsync_self]
      exact same d
    · rw [setsync_of_ne _ _ _ here]
  refine ⟨fun d => ?_, used.handle, fun other d waiting => ?_, used.waits, used.value,
    fun x d canceled valued => ?_, used.signals⟩
  · have stage := used.stage d
    unfold Traffic.stage Traffic.queued at stage ⊢
    rw [counts]
    exact stage
  · have positive := List.count_pos_iff.mpr waiting
    rw [counts] at positive
    exact used.named other d (List.count_pos_iff.mp positive)
  · unfold Traffic.queued
    rw [counts]
    exact used.late x d canceled valued

omit [DecidableEq T] in
/-- A channel is taken out of the queue, or put in it. -/
theorem counts_setsync {w : World T C Q} {name : String} {sync : Sync (Waiter C Q)} {c : C}
    (same : ∀ d, d ≠ c → sync.queue.count (.own d) = (w.sync name).queue.count (.own d))
    (other : String) {d : C} (distinct : d ≠ c) :
    ((w.setsync name sync).sync other).queue.count (.own d) =
      (w.sync other).queue.count (.own d) := by
  by_cases here : other = name
  · rw [here, setsync_self]
    exact same d distinct
  · rw [setsync_of_ne _ _ _ here]

theorem Used.unvalued (used : Used channels v) (other : v.hold x ≠ .canceled) :
    v.opvalue x = none := by
  by_contra valued
  exact other ((used.value x).mp valued)

omit [DecidableEq T] [DecidableEq C] [DecidableEq Q] in
theorem unpaired (idle : (v.world.channel c).handle = none)
    (free : v.hold x = .none) : Paired channels v x c := by
  refine Or.inr ⟨idle, ?_⟩
  unfold Traffic.uses
  rw [free]

/-- A coroutine starts to wait. -/
theorem Used.arm (used : Used channels v) (free : v.hold x = .none)
    (idle : (v.world.channel c).handle = none) (live : (v.world.channel c).closed = false)
    {L cL : Stack} (checked : channels.check (index L 1) = some c) (offering : Offering cL)
    {sync : Sync (Waiter C Q)}
    (queue : sync.queue = (v.world.sync (channels.name c)).queue ++ [.own c]) :
    Used channels { v with
      hold := Function.update v.hold x (.waits L)
      world := (v.world.setsync (channels.name c) sync).setchannel c
        { v.world.channel c with L := cL, syncregkey := some x, handle := some x } } := by
  obtain ⟨-, queued, taken, swapped, -⟩ := (used.stage c).free idle
  have unsignalled : v.world.signals.count x = 0 := by
    apply used.signals
    unfold Traffic.uses
    rw [free]
  have added : sync.queue.count (.own c) = 1 := by
    unfold Traffic.queued at queued
    rw [queue, List.count_append, queued]
    simp
  have kept (d : C) (other : d ≠ c) : sync.queue.count (.own d) =
      (v.world.sync (channels.name c)).queue.count (.own d) := by
    rw [queue, List.count_append, List.count_singleton]
    simp [Ne.symm other]
  refine used.change (x := x) (c := c) ⟨unpaired idle free, ?_, fun y other => ?_,
    fun y _ => rfl, fun d other => ?_, ?_, fun _ _ => rfl, fun _ _ => rfl⟩ ?_ ?_ ?_ ?_ ?_ ?_
  · refine Or.inl ⟨by simp, ?_⟩
    unfold Traffic.uses
    simp only [Function.update_self]
    exact checked
  · exact Function.update_of_ne other _ _
  · exact setchannel_of_ne _ _ _ other
  · exact counts_setsync kept
  · unfold Traffic.stage Traffic.queued Traffic.signalled
    simp only [setchannel_self, setchannel_sync, setsync_self, setchannel_signals,
      setsync_signals, added, taken, swapped, unsignalled, live]
    exact .queued x offering
  · intro name waiting
    by_cases here : name = channels.name c
    · exact here
    · simp only [setchannel_sync, setsync_of_ne _ _ _ here] at waiting
      exact used.named name c waiting
  · intro K holds
    simp only [Function.update_self] at holds
    cases holds
    rw [checked]
    exact Option.some_ne_none c
  · have unvalued := used.unvalued (x := x) (by rw [free]; simp)
    simp [unvalued]
  · intro canceled
    simp at canceled
  · exact fun _ => unsignalled

/-- The state of a channel in use goes on its way, and no coroutine does. -/
theorem Used.progress (used : Used channels v) (mine : (v.world.channel c).handle = some x)
    (hold : v'.hold = v.hold) (opvalue : v'.opvalue = v.opvalue)
    (still : (v'.world.channel c).handle = some x)
    (channel : ∀ d, d ≠ c → v'.world.channel d = v.world.channel d)
    (queue : ∀ name d, d ≠ c →
      (v'.world.sync name).queue.count (.own d) = (v.world.sync name).queue.count (.own d))
    (hands : ∀ h : Hand C, h.channel ≠ c → census id v'.hands h = census id v.hands h)
    (signals : ∀ y, y ≠ x → v'.world.signals.count y = v.world.signals.count y)
    (stage : v'.stage channels c)
    (named : ∀ name, .own c ∈ (v'.world.sync name).queue → name = channels.name c)
    (left : v'.queued channels c = 0) : Used channels v' := by
  have uses : v'.uses channels x = some c := by
    have before := (used.handle c x).mp mine
    unfold Traffic.uses at before ⊢
    rw [hold, opvalue]
    exact before
  refine used.change ⟨used.paired mine, Or.inl ⟨still, uses⟩, fun y _ => ?_, fun y _ => ?_,
    channel, queue, hands, signals⟩ stage named ?_ ?_ (fun _ => left) ?_
  · rw [hold]
  · rw [opvalue]
  · rw [hold]
    exact used.waits x
  · rw [hold, opvalue]
    exact used.value x
  · intro free
    rw [uses] at free
    cases free

omit [DecidableEq C] [DecidableEq Q] in
theorem asyncsend_eq {w : World T C Q} (key : (w.channel c).syncregkey = some x)
    (unsent : w.signals.count x = 0) :
    asyncsend w c = .ok { w with signals := w.signals ++ [x] } := by
  unfold asyncsend
  rw [key]
  simp only [List.count_eq_zero.mp unsent, if_false]

theorem count_sent {signals : List T} (unsent : signals.count x = 0) :
    (signals ++ [x]).count x = 1 ∧ ∀ y, y ≠ x → (signals ++ [x]).count y = signals.count y := by
  refine ⟨by simp [List.count_append, unsent], fun y other => ?_⟩
  rw [List.count_append, List.count_singleton]
  simp [Ne.symm other]

/-- A coroutine of the same state takes the first in the queue, and signals it. -/
theorem Used.meet (used : Used channels v) {name : String} {sync : Sync (Waiter C Q)}
    (queue : (v.world.sync name).queue = .own c :: sync.queue) {cL : Stack}
    (answered : Offering (v.world.channel c).L → Answered cL) :
    ∃ w, asyncsend ((v.world.setsync name sync).setL c cL) c = .ok w ∧
      Used channels { v with world := w } := by
  obtain rfl := used.named name c (by rw [queue]; exact List.mem_cons_self)
  have waits : 0 < v.queued channels c := by
    rw [Traffic.queued, queue, List.count_cons_self]
    omega
  obtain ⟨x, L, record, offering, once, taken, swapped, signalled⟩ := (used.stage c).in_queue waits
  have mine : (v.world.channel c).handle = some x := by rw [record]
  have unsent : v.world.signals.count x = 0 := by
    unfold Traffic.signalled at signalled
    rw [record] at signalled
    exact signalled
  have left : sync.queue.count (.own c) = 0 := by
    rw [Traffic.queued, queue, List.count_cons_self] at once
    omega
  have kept (d : C) (other : d ≠ c) : sync.queue.count (.own d) =
      (v.world.sync (channels.name c)).queue.count (.own d) := by
    rw [queue, List.count_cons_of_ne]
    simpa using Ne.symm other
  obtain ⟨sent, others⟩ := count_sent unsent
  refine ⟨_, asyncsend_eq (x := x) (by simp [record]) unsent, ?_⟩
  refine used.progress mine rfl rfl (by simp [record]) (fun d other => ?_) ?_
    (fun _ _ => rfl) others ?_ ?_ ?_
  · exact setchannel_of_ne _ _ _ other
  · exact counts_setsync kept
  · unfold Traffic.stage Traffic.queued Traffic.signalled
    simp only [setL_channel, setsync_channel, record]
    simp only [World.setL, setchannel_sync, setsync_self, left, taken, swapped, sent,
      setchannel_signals, setsync_signals]
    rw [record] at answered
    exact .signalled x (answered offering)
  · intro name waiting
    by_cases here : name = channels.name c
    · exact here
    · simp only [World.setL, setchannel_sync, setsync_of_ne _ _ _ here] at waiting
      exact used.named name c waiting
  · unfold Traffic.queued
    simp only [World.setL, setchannel_sync, setsync_self, left]

omit [DecidableEq C] in
theorem not_hand {h : Hand C} (other : h.channel ≠ c) : Hand.taken c ≠ h ∧ Hand.swapped c ≠ h := by
  constructor
  · rintro rfl
    exact other rfl
  · rintro rfl
    exact other rfl

/-- Another thread takes the first in the queue. -/
theorem Used.take (used : Used channels v) {name : String} {sync : Sync (Waiter C Q)}
    (queue : (v.world.sync name).queue = .own c :: sync.queue) :
    Used channels { v with
      world := v.world.setsync name sync
      hands := v.hands ++ [.taken c] } := by
  obtain rfl := used.named name c (by rw [queue]; exact List.mem_cons_self)
  have waits : 0 < v.queued channels c := by
    rw [Traffic.queued, queue, List.count_cons_self]
    omega
  obtain ⟨x, L, record, offering, once, taken, swapped, signalled⟩ := (used.stage c).in_queue waits
  have left : sync.queue.count (.own c) = 0 := by
    rw [Traffic.queued, queue, List.count_cons_self] at once
    omega
  have kept (d : C) (other : d ≠ c) : sync.queue.count (.own d) =
      (v.world.sync (channels.name c)).queue.count (.own d) := by
    rw [queue, List.count_cons_of_ne]
    simpa using Ne.symm other
  refine used.progress (c := c) (x := x) (by rw [record]) rfl rfl (by simp [record])
    (fun d other => rfl) ?_ (fun h other => ?_) (fun _ _ => rfl) ?_ ?_ ?_
  · exact counts_setsync kept
  · rw [census_append, id, if_neg (not_hand other).1, Nat.add_zero]
  · unfold Traffic.stage Traffic.queued Traffic.signalled at *
    simp only [setsync_channel, setsync_self, setsync_signals, record, left, census_append, id,
      taken, swapped] at signalled ⊢
    simp only [signalled, reduceCtorEq, if_true, if_false]
    exact .taken x offering
  · intro name waiting
    by_cases here : name = channels.name c
    · exact here
    · simp only [setsync_of_ne _ _ _ here] at waiting
      exact used.named name c waiting
  · unfold Traffic.queued
    simp only [setsync_self, left]

theorem Used.swap (used : Used channels v) {j : ℕ} (at_j : v.hands[j]? = some (.taken c))
    {cL : Stack} (answered : Offering (v.world.channel c).L → Answered cL) :
    Used channels { v with
      world := v.world.setL c cL
      hands := v.hands.set j (.swapped c) } := by
  have held : 0 < census id v.hands (.taken c) := (census_pos id).mpr ⟨j, _, at_j, rfl⟩
  obtain ⟨x, L, record, offering, queued, taken, swapped, signalled⟩ := (used.stage c).in_hand held
  have changed (h : Hand C) := census_set id at_j (.swapped c) h
  simp only [id] at changed
  refine used.progress (c := c) (x := x) (by rw [record]) rfl rfl (by simp [record])
    (fun d other => ?_) (fun _ _ _ => rfl) (fun h other => ?_) (fun _ _ => rfl) ?_ (fun name => used.named name c) ?_
  · exact setchannel_of_ne _ _ _ other
  · have here := changed h
    rw [if_neg (not_hand other).1, if_neg (not_hand other).2] at here
    exact here
  · have first := changed (.taken c)
    have second := changed (.swapped c)
    simp only [reduceCtorEq, if_true, if_false, taken, swapped] at first second
    have none : census id (v.hands.set j (.swapped c)) (.taken c) = 0 := by omega
    have one : census id (v.hands.set j (.swapped c)) (.swapped c) = 1 := by omega
    unfold Traffic.stage Traffic.queued Traffic.signalled at *
    simp only [setL_channel, record] at signalled ⊢
    simp only [World.setL, setchannel_sync, setchannel_signals, queued, none, one, signalled]
    rw [record] at answered
    exact .swapped x (answered offering)
  · exact queued

theorem Used.send (used : Used channels v) {j : ℕ} (at_j : v.hands[j]? = some (.swapped c)) :
    ∃ w, asyncsend v.world c = .ok w ∧
      Used channels { v with world := w, hands := v.hands.eraseIdx j } := by
  have held : 0 < census id v.hands (.swapped c) := (census_pos id).mpr ⟨j, _, at_j, rfl⟩
  obtain ⟨x, L, record, answered, queued, taken, swapped, signalled⟩ :=
    (used.stage c).exchanged held
  have unsent : v.world.signals.count x = 0 := by
    unfold Traffic.signalled at signalled
    rw [record] at signalled
    exact signalled
  have changed (h : Hand C) := census_eraseIdx id at_j h
  simp only [id] at changed
  obtain ⟨sent, others⟩ := count_sent unsent
  refine ⟨_, asyncsend_eq (x := x) (by rw [record]) unsent, ?_⟩
  refine used.progress (c := c) (x := x) (by rw [record]) rfl rfl (by rw [record])
    (fun d other => rfl) (fun _ _ _ => rfl) (fun h other => ?_) others ?_ (fun name => used.named name c) queued
  · have here := changed h
    rw [if_neg (not_hand other).2] at here
    exact here.symm
  · have first := changed (.taken c)
    have second := changed (.swapped c)
    simp only [reduceCtorEq, if_true, if_false, taken, swapped] at first second
    have none : census id (v.hands.eraseIdx j) (.taken c) = 0 := by omega
    have zero : census id (v.hands.eraseIdx j) (.swapped c) = 0 := by omega
    unfold Traffic.stage Traffic.queued Traffic.signalled at *
    simp only [record, queued, none, zero, sent]
    exact .signalled x answered

theorem Used.holder (used : Used channels v) (uses : v.uses channels x = some c) :
    (v.world.channel c).handle = some x :=
  (used.handle c x).mpr uses

/-- A coroutine stops waiting before its channel is matched. -/
theorem Used.unarm (used : Used channels v) {L : Stack} (holds : v.hold x = .waits L)
    (checked : channels.check (index L 1) = some c)
    (waiting : .own c ∈ (v.world.sync (channels.name c)).queue) :
    Used channels { v with
      hold := Function.update v.hold x .none
      world := restorechannel (v.world.setsync (channels.name c)
        (removestateq (v.world.sync (channels.name c)) (.own c))) c } := by
  have uses : v.uses channels x = some c := by
    unfold Traffic.uses
    rw [holds]
    exact checked
  have mine := used.holder uses
  obtain ⟨y, K, record, -, once, taken, swapped, signalled⟩ :=
    (used.stage c).in_queue (List.count_pos_iff.mpr waiting)
  rw [record] at mine
  obtain rfl : y = x := Option.some.inj mine
  have left : (removestateq (v.world.sync (channels.name c)) (.own c)).queue.count (.own c) = 0 := by
    unfold Traffic.queued at once
    rw [removestateq, List.count_erase_self, once]
  have unsent : v.world.signals.count y = 0 := by
    unfold Traffic.signalled at signalled
    rw [record] at signalled
    exact signalled
  have unvalued : v.opvalue y = none := used.unvalued (by rw [holds]; simp)
  refine used.change (x := y) (c := c) ⟨used.paired (by rw [record]), ?_, fun z other => ?_,
    fun _ _ => rfl, fun d other => ?_, ?_, fun _ _ => rfl, fun _ _ => rfl⟩ ?_ ?_ ?_ ?_ ?_ ?_
  · refine Or.inr ⟨by simp [restorechannel], ?_⟩
    unfold Traffic.uses
    simp only [Function.update_self]
  · exact Function.update_of_ne other _ _
  · exact setchannel_of_ne _ _ _ other
  · refine counts_setsync fun d other => ?_
    rw [removestateq, List.count_erase_of_ne]
    simpa using other
  · unfold Traffic.stage Traffic.queued Traffic.signalled
    simp only [restorechannel, setchannel_self, setchannel_sync, setsync_self, left, taken, swapped]
    exact .idle _
  · intro name member
    by_cases here : name = channels.name c
    · exact here
    · simp only [restorechannel, setchannel_sync, setsync_of_ne _ _ _ here] at member
      exact used.named name c member
  · intro K holds
    simp at holds
  · simp [unvalued]
  · intro canceled
    simp at canceled
  · exact fun _ => unsent

/-- A coroutine stops waiting after its channel is matched. -/
theorem Used.late_cancel (used : Used channels v) {L : Stack} (holds : v.hold x = .waits L)
    (checked : channels.check (index L 1) = some c)
    (gone : .own c ∉ (v.world.sync (channels.name c)).queue) :
    Used channels { v with
      hold := Function.update v.hold x .canceled
      opvalue := Function.update v.opvalue x (some c) } := by
  have uses : v.uses channels x = some c := by
    unfold Traffic.uses
    rw [holds]
    exact checked
  have mine := used.holder uses
  have still : Traffic.uses channels { v with
      hold := Function.update v.hold x .canceled
      opvalue := Function.update v.opvalue x (some c) } x = some c := by
    unfold Traffic.uses
    simp only [Function.update_self]
  refine used.change (x := x) (c := c) ⟨used.paired mine, Or.inl ⟨mine, still⟩, fun y other => ?_,
    fun y other => ?_, fun _ _ => rfl, fun _ _ _ => rfl, fun _ _ => rfl, fun _ _ => rfl⟩
    (used.stage c) (fun name => used.named name c) ?_ ?_ ?_ ?_
  · exact Function.update_of_ne other _ _
  · exact Function.update_of_ne other _ _
  · intro K holds
    simp at holds
  · simp
  · exact fun _ => List.count_eq_zero.mpr gone
  · intro free
    rw [still] at free
    cases free

/-- The callback of the signal: the results are taken, or dropped after a late cancel. -/
theorem Used.finish (used : Used channels v) (uses : v.uses channels x = some c)
    (signal : x ∈ v.world.signals) :
    Used channels { v with
      hold := Function.update v.hold x .none
      opvalue := Function.update v.opvalue x none
      world := restorechannel { v.world with signals := v.world.signals.erase x } c } := by
  have mine := used.holder uses
  have sent : 0 < v.signalled c := by
    unfold Traffic.signalled
    rw [mine]
    exact List.count_pos_iff.mpr signal
  obtain ⟨y, L, record, -, queued, taken, swapped, once⟩ := (used.stage c).sent sent
  unfold Traffic.signalled at once
  rw [mine] at once
  have unsent : (v.world.signals.erase x).count x = 0 := by
    rw [List.count_erase_self]
    exact Nat.sub_eq_zero_of_le once.le
  refine used.change (x := x) (c := c) ⟨used.paired mine, ?_, fun z other => ?_, fun z other => ?_,
    fun d other => ?_, fun _ _ _ => rfl, fun _ _ => rfl, fun z other => ?_⟩
    ?_ (fun name => used.named name c) ?_ ?_ ?_ ?_
  · refine Or.inr ⟨by simp [restorechannel], ?_⟩
    unfold Traffic.uses
    simp only [Function.update_self]
  · exact Function.update_of_ne other _ _
  · exact Function.update_of_ne other _ _
  · exact setchannel_of_ne _ _ _ other
  · exact List.count_erase_of_ne other
  · unfold Traffic.stage Traffic.queued Traffic.signalled at *
    simp only [restorechannel, setchannel_self, setchannel_sync, queued, taken, swapped]
    exact .idle _
  · intro K holds
    simp at holds
  · simp
  · intro canceled
    simp at canceled
  · exact fun _ => unsent

theorem Used.close (used : Used channels v) (idle : (v.world.channel c).handle = none) :
    Used channels { v with
      world := v.world.setchannel c { v.world.channel c with closed := true } } := by
  obtain ⟨record, queued, taken, swapped, -⟩ := (used.stage c).free idle
  refine ⟨fun d => ?_, fun d x => ?_, used.named, used.waits, used.value, used.late, used.signals⟩
  · by_cases here : d = c
    · rw [here]
      unfold Traffic.stage Traffic.queued Traffic.signalled at *
      rw [record]
      simp only [setchannel_self, setchannel_sync, queued, taken, swapped]
      exact .idle true
    · have stage := used.stage d
      unfold Traffic.stage Traffic.signalled at stage ⊢
      simp only [setchannel_of_ne _ _ _ here]
      exact stage
  · by_cases here : d = c
    · rw [here]
      simp only [setchannel_self]
      exact used.handle c x
    · simp only [setchannel_of_ne _ _ _ here]
      exact used.handle d x

end
end Coutil.ChannelUse
