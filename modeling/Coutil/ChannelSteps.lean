import Coutil.ChannelUse
import Coutil.TaskSteps

set_option autoImplicit false

/-! What every function of `src/lchannem.c` leaves of the channels in use, and so every step of
the coroutines of a state and of the other threads. -/
namespace Coutil.ChannelSteps
open Runs Operation ChannelSync Exchange ExchangeMovable OperationStates AwaitOperation ChannelAwait
open ChannelUse
open TaskSteps (matchchsync_cases)

theorem checksyncargs_movable {L K : Stack} {endpoint : Endpoint}
    (checked : checksyncargs L 2 = some (some endpoint, K)) : Movable (K.drop 2) := by
  obtain ⟨text, -, result⟩ := Option.map_eq_some_iff.mp checked
  simp only at result
  split at result
  · simp at result
  · split at result
    · rename_i moves
      obtain ⟨-, same⟩ := Prod.mk.inj result
      rw [same] at moves
      intro v member
      have all := Option.map_eq_none_iff.mp moves
      rw [List.findIdx?_eq_none_iff] at all
      by_cases short : K.length ≤ 2
      · rw [List.drop_eq_nil_of_le short] at member
        cases member
      · have first : K.length - (K.length - 2) = 2 := by omega
        rw [first] at all
        simpa using all v member
    · simp at result

section
variable {fault : ArmFault} {loop : Bool} {L cL K : Stack}

theorem offering_offer (movable : Movable (L.drop 2)) :
    Offering (offer (.nil :: L.drop 2) 0 (L.length - 2)) := by
  refine ⟨_, _, ⟨Nat.zero_le _, fun _ => ?_⟩, movable_cons.mpr ⟨rfl, movable⟩, rfl⟩
  simp only [List.length_cons, List.length_drop]
  omega

theorem drop_kept (more : 0 < L.length - 2) : L.length - (L.length - 2) = 2 := by omega

/-- The state of the channel gets the arguments, and the caller keeps the channel. -/
theorem armsynced_ok (movable : Movable (L.drop 2))
    (armed : armsynced fault loop [] L = .ok (cL, K)) :
    Offering cL ∧ index K 1 = index L 1 := by
  unfold armsynced at armed
  simp only at armed
  split at armed
  · cases armed
  · by_cases more : 0 < L.length - 2
    · have moved := movefrom_spec fault.move (settop [] 1) L (L.length - 2) "argument"
      simp only [gt_iff_lt, more, if_true] at armed
      cases result : movefrom fault.move (settop [] 1) L (L.length - 2) "argument" with
      | error failed =>
        rw [result] at armed
        simp only at armed
        split at armed <;> cases armed
      | ok both =>
        obtain ⟨top, rest⟩ := both
        rw [result] at armed moved
        simp only [drop_kept more] at armed moved
        obtain ⟨rfl, rfl⟩ := moved
        split at armed
        · cases armed
        · obtain ⟨rfl, rfl⟩ := Prod.mk.inj (Except.ok.inj armed)
          refine ⟨offering_offer movable, ?_⟩
          simp only [index, List.getD_eq_getElem?_getD]
          rw [List.getElem?_take_of_lt (by omega)]
    · simp only [gt_iff_lt, more, if_false] at armed
      split at armed
      · cases armed
      · obtain ⟨rfl, rfl⟩ := Prod.mk.inj (Except.ok.inj armed)
        refine ⟨⟨[], _, ⟨Nat.zero_le _, fun some => absurd some more⟩, movable_nil, rfl⟩, rfl⟩

theorem armsynced_prepared (movable : Movable (L.drop 2)) :
    ∃ both, armsynced .none loop [] L = .ok both := by
  unfold armsynced
  simp only [ArmFault.none, Bool.false_eq_true, if_false]
  by_cases more : 0 < L.length - 2
  · have all : (L.drop 2).findIdx? (fun v => !v.movable) = none := by
      rw [List.findIdx?_eq_none_iff]
      intro v member
      simp [movable v member]
    have moved : movefrom .none (settop [] 1) L (L.length - 2) "argument" =
        .ok (settop [] 1 ++ L.drop 2, L.take 2) := by
      simp only [movefrom, drop_kept more, all]
    simp only [gt_iff_lt, more, if_true, moved]
    cases loop <;> exact ⟨_, rfl⟩
  · simp only [gt_iff_lt, more, if_false]
    cases loop <;> exact ⟨_, rfl⟩

end

theorem synced_ready {L K : Stack} (nonempty : L ≠ []) (ready : Ready (L.take 1) K) :
    ∃ values, synced K = .ok values := by
  obtain ⟨values, rfl⟩ := ready
  have one : (L.take 1).length = 1 := by
    rw [List.length_take, min_eq_left (List.length_pos_iff.mpr nonempty)]
  have top : index (L.take 1 ++ values ++ [.integer values.length])
      (L.take 1 ++ values ++ [Value.integer values.length]).length = .integer values.length := by
    simp [index]
  refine ⟨_, if_pos ?_⟩
  rw [top]
  simp only [Value.tointeger, List.length_append, one, List.length_singleton]
  omega

section
variable {T C Q : Type} [DecidableEq T] [DecidableEq C] [DecidableEq Q]
variable {channels : Channels C} {v : Traffic T C Q} {x : T} {c : C} {env : Env Q}

theorem offers_args {L : Stack} (nonempty : L ≠ []) : Offers L 1 (L.length - 2) := by
  have positive := List.length_pos_iff.mpr nonempty
  exact ⟨positive, fun more => by omega⟩

variable (env) in
/-- Whoever was found in the queue, both sides of the match get its results. -/
theorem exchange_used (used : Used channels v) {name : String} {sync : Sync (Waiter C Q)}
    {found : Waiter C Q} (queue : (v.world.sync name).queue = found :: sync.queue) {L : Stack}
    (nonempty : L ≠ []) :
    ∃ K w, exchange (v.world.setsync name sync) env L (L.length - 2) found = .ok (K, w) ∧
      Ready (L.take 1) K ∧ Used channels { v with world := w } := by
  have offers := offers_args nonempty
  cases found with
  | own d =>
    obtain rfl := used.named name d (by rw [queue]; exact List.mem_cons_self)
    have waits : 0 < v.queued channels d := by
      rw [Traffic.queued, queue, List.count_cons_self]
      omega
    obtain ⟨y, dL, record, offering, -⟩ := (used.stage d).in_queue waits
    obtain ⟨placed, narg, fits, movable, same⟩ := id offering
    have ready := (ready_swapvalues env.faults offers fits).1
    rw [← same] at ready
    have both : dL = (v.world.channel d).L := by rw [record]
    rw [both] at ready
    obtain ⟨w, sent, used⟩ := used.meet queue (answered_swapvalues env.faults offers)
    refine ⟨_, w, ?_, ready, used⟩
    unfold exchange
    simp only [setsync_channel, sent]
    rfl
  | other q =>
    have offered := (env.others q).offers
    refine ⟨_, _, rfl, (ready_swapvalues env.faults offers offered).1, used.setsync fun d => ?_⟩
    rw [queue, List.count_cons_of_ne]
    simp

omit [DecidableEq T] [DecidableEq Q] in
theorem arm_nothing {w : World T C Q} (empty : (w.channel c).L = []) : w.setL c [] = w := by
  unfold World.setL World.setchannel
  rw [← empty, Function.update_eq_self]

def Lacks (env : Env Q) (memory : Option Lack) : Failure → Prop
  | .channelsync => env.arm ≠ .none
  | .returnsynced => memory ≠ none
  | _ => False

/-- What a function leaves that a coroutine calls for a channel, unless it fails. -/
def Leaves (env : Env Q) (memory : Option Lack) {R : Type} (after : R → Traffic T C Q)
    (channels : Channels C) : Except Failure R → Prop
  | .error failure => Lacks env memory failure
  | .ok r => Used channels (after r)

omit [DecidableEq T] [DecidableEq C] [DecidableEq Q] in
theorem chklchannel_some {w : World T C Q} {L : Stack}
    (checked : chklchannel channels w L = some c) :
    channels.check (index L 1) = some c ∧ (w.channel c).closed = false ∧ L ≠ [] := by
  obtain ⟨found, live⟩ := Option.filter_eq_some_iff.mp checked
  refine ⟨found, by simpa using live, ?_⟩
  rintro rfl
  have none := channels.check_nil
  rw [show index [] 1 = Value.nil from rfl, none] at found
  cases found

/-- The traffic once the setup function of a coroutine that holds nothing ended. -/
def settled (v : Traffic T C Q) (x : T) (r : Setup Value × World T C Q) : Traffic T C Q :=
  { v with hold := Function.update v.hold x (.of (.handle .async) r.1), world := r.2 }

omit [DecidableEq C] [DecidableEq Q] in
theorem settled_same (free : v.hold x = .none) {setup : Setup Value} {w : World T C Q}
    (other : Hold.of (.handle .async) setup = .none) :
    settled v x (setup, w) = { v with world := w } := by
  unfold settled
  simp only
  rw [other, ← free, Function.update_eq_self]

theorem channelsync_used (used : Used channels v) (free : v.hold x = .none)
    (idle : (v.world.channel c).handle = none) (live : (v.world.channel c).closed = false)
    {L : Stack} (checked : channels.check (index L 1) = some c) (nonempty : L ≠ [])
    (movable : Movable (L.drop 2)) (loop : Bool) (endpoint : Endpoint) :
    Leaves env none (settled v x) channels
      (channelsync channels x v.world env loop c endpoint L) := by
  have empty : (v.world.channel c).L = [] := by
    rw [((used.stage c).free idle).1]
  unfold channelsync
  simp only
  obtain ⟨sync, found, called, queue⟩ | ⟨sync, state, called, given, queue⟩ |
    ⟨sync, called, refused, queue⟩ := matchchsync_cases (v.world.sync (channels.name c)) endpoint
      ((armsynced env.arm loop (v.world.channel c).L L).toOption.map fun _ => Waiter.own c)
  · obtain ⟨K, w, exchanged, ready, used⟩ := exchange_used env used queue nonempty
    obtain ⟨values, synced⟩ := synced_ready nonempty ready
    rw [called]
    simp only [exchanged, synced, bind, Except.bind, pure, Except.pure, Leaves]
    rw [settled_same free rfl]
    exact used
  · rw [called]
    simp only [setsync_channel, empty, ne_eq, not_true, if_false]
    cases armed : armsynced env.arm loop [] L with
    | error failed =>
      rw [empty, armed] at given
      cases given
    | ok both =>
      obtain ⟨cL, K⟩ := both
      rw [empty, armed] at given
      obtain rfl := Option.some.inj given
      obtain ⟨offering, first⟩ := armsynced_ok movable armed
      rw [← first] at checked
      have armed := used.arm free idle live checked offering queue
      simp only [Leaves, settled, Hold.of]
      convert armed using 3
  · rw [called]
    simp only [setsync_channel, empty, ne_eq, not_true, if_false]
    cases armed : armsynced env.arm loop [] L with
    | ok both =>
      rw [empty, armed] at refused
      cases refused
    | error failed =>
      have lacks : env.arm ≠ .none := by
        intro none
        obtain ⟨both, ok⟩ : ∃ both, armsynced .none loop [] L = .ok both :=
          armsynced_prepared movable
        rw [none, ok] at armed
        cases armed
      obtain ⟨inits, K⟩ := failed
      cases results : synced K with
      | error failure =>
        simp only [bind, Except.bind, results, Leaves]
        unfold synced at results
        split at results
        · cases results
        · cases results
          exact lacks
      | ok values =>
        have same : (v.world.setsync (channels.name c) sync).setL c [] =
            v.world.setsync (channels.name c) sync := arm_nothing empty
        have kept : Used channels { v with world := v.world.setsync (channels.name c) sync } :=
          used.setsync fun d => by rw [queue]
        simp only [bind, Except.bind, results, pure, Except.pure, Leaves, same]
        cases inits with
        | true =>
          simp only [if_true]
          rw [settled_same free rfl]
          exact kept
        | false =>
          simp only [Bool.false_eq_true, if_false]
          rw [settled_same free rfl]
          exact kept

variable (env) in
theorem k_setupsynced_used (used : Used channels v) (free : v.hold x = .none) (loop : Bool)
    (L : Stack) :
    Leaves env none (settled v x) channels
      (k_setupsynced channels x v.world env loop L) := by
  have raised : Leaves env none (settled v x) channels (.ok (Setup.error, v.world)) := by
    simp only [Leaves]
    rw [settled_same free rfl]
    exact used
  unfold k_setupsynced
  cases checked : chklchannel channels v.world L with
  | none => exact raised
  | some c =>
    obtain ⟨found, live, nonempty⟩ := chklchannel_some checked
    simp only
    by_cases idle : (v.world.channel c).handle = none
    · rw [idle]
      simp only [Option.isSome_none, Bool.false_eq_true, if_false]
      rcases args : checksyncargs L 2 with _ | ⟨_ | endpoint, K⟩
      · exact raised
      · exact raised
      · simp only
        obtain ⟨length, first⟩ := checksyncargs_some args (k := 1) (by omega)
        have same : index K 1 = index L 1 := by
          have heads := congrArg List.head? first
          simp only [index, List.getD_eq_getElem?_getD]
          cases K with
          | nil =>
            cases L with
            | nil => rfl
            | cons v L => cases length
          | cons u K =>
            cases L with
            | nil => cases length
            | cons v L => simpa using heads
        have more : K ≠ [] := by
          rintro rfl
          exact nonempty (List.length_eq_zero_iff.mp length.symm)
        rw [← same] at found
        exact channelsync_used used free idle live found more (checksyncargs_movable args) loop
          endpoint
    · have used : (v.world.channel c).handle.isSome = true := by
        simpa [Option.isSome_iff_ne_none] using idle
      rw [used]
      exact raised

/-- What a coroutine that waited holds once it was canceled, by the answer of its function. -/
def dropped (v : Traffic T C Q) (x : T) (r : Option C × World T C Q) : Traffic T C Q :=
  { v with
    hold := Function.update v.hold x (if r.1.isNone then .none else .canceled)
    opvalue := Function.update v.opvalue x (r.1.or (v.opvalue x))
    world := r.2 }

omit [DecidableEq C] in
theorem index_append {L values : Stack} (checked : channels.check (index L 1) ≠ none) :
    index (L ++ values) 1 = index L 1 := by
  cases L with
  | nil => exact absurd channels.check_nil checked
  | cons u L => rfl

theorem cancelsynced_used (used : Used channels v) {L : Stack} (waits : v.hold x = .waits L)
    (values : Stack) :
    ∃ r, cancelsynced channels v.world (L ++ values) = .ok r ∧ Used channels (dropped v x r) := by
  have known := used.waits x L waits
  have unvalued : v.opvalue x = none := used.unvalued (by rw [waits]; simp)
  unfold cancelsynced
  rw [index_append known]
  cases checked : channels.check (index L 1) with
  | none => exact absurd checked known
  | some c =>
    simp only
    by_cases waiting : .own c ∈ (v.world.sync (channels.name c)).queue
    · have left := used.unarm waits checked waiting
      have kept : Function.update v.opvalue x none = v.opvalue := by
        rw [← unvalued, Function.update_eq_self]
      refine ⟨_, if_pos waiting, ?_⟩
      simp only [dropped, Option.isNone_none, if_true, Option.none_or, unvalued, kept]
      exact left
    · have late := used.late_cancel waits checked waiting
      refine ⟨_, if_neg waiting, ?_⟩
      simp only [dropped, Option.isNone_some, Bool.false_eq_true, if_false, Option.some_or]
      exact late

/-- What a coroutine that waited holds once its signal is seen. -/
def seen (v : Traffic T C Q) (x : T) (w : World T C Q) : Traffic T C Q :=
  { v with
    hold := Function.update v.hold x .none
    opvalue := Function.update v.opvalue x none
    world := w }

theorem answered_taken {cL : Stack} (answered : Answered cL) :
    (index cL cL.length).tointeger = cL.length - 1 ∧ Movable cL.dropLast := by
  obtain ⟨⟨values, rfl⟩, movable⟩ := answered
  refine ⟨?_, movable_sublist (List.dropLast_sublist _) movable⟩
  simp [index, Value.tointeger]

variable (env) in
/-- The results function of `system.awaitch`, once the signal is seen. -/
theorem returnsynced_used (used : Used channels v) {L : Stack} (waits : v.hold x = .waits L)
    (signal : x ∈ v.world.signals) (memory : Option Lack) :
    Leaves env memory (fun r => seen v x r.2) channels
      (returnsynced channels { v.world with signals := v.world.signals.erase x } memory L) := by
  have known := used.waits x L waits
  unfold returnsynced
  cases checked : channels.check (index L 1) with
  | none => exact absurd checked known
  | some c =>
    have uses : v.uses channels x = some c := by
      unfold Traffic.uses
      rw [waits]
      exact checked
    have mine := used.holder uses
    have sent : 0 < v.signalled c := by
      unfold Traffic.signalled
      rw [mine]
      exact List.count_pos_iff.mpr signal
    obtain ⟨y, cL, record, answered, -⟩ := (used.stage c).sent sent
    obtain ⟨top, movable⟩ := answered_taken answered
    have taken := used.finish uses signal
    simp only [record, top, ne_eq, not_true, if_false]
    cases memory with
    | none =>
      have all : (cL.dropLast.drop (cL.dropLast.length - cL.dropLast.length)).findIdx?
          (fun v => !v.movable) = none := by
        rw [Nat.sub_self, List.drop_zero, List.findIdx?_eq_none_iff]
        intro v member
        simp [movable v member]
      simp only [movefrom, all, Leaves]
      exact taken
    | some lack =>
      cases result : movefrom (some lack) L cL.dropLast cL.dropLast.length "" with
      | error failed => exact Option.some_ne_none lack
      | ok both => exact taken

variable (env) in
theorem channel_sync_used (used : Used channels v) (L : Stack) :
    ∃ results w, channel_sync channels v.world env L = .ok (results, w) ∧
      Used channels { v with world := w } := by
  unfold channel_sync
  cases checked : chklchannel channels v.world L with
  | none => exact ⟨_, _, rfl, used⟩
  | some c =>
    obtain ⟨-, -, nonempty⟩ := chklchannel_some checked
    simp only
    rcases args : checksyncargs L 2 with _ | ⟨_ | endpoint, K⟩
    · exact ⟨_, _, rfl, used⟩
    · exact ⟨_, _, rfl, used⟩
    · simp only
      obtain ⟨length, -⟩ := checksyncargs_some args (k := 1) (by omega)
      have more : K ≠ [] := by
        rintro rfl
        exact nonempty (List.length_eq_zero_iff.mp length.symm)
      obtain ⟨sync, found, called, queue⟩ | ⟨sync, state, called, given, queue⟩ |
        ⟨sync, called, refused, queue⟩ := matchchsync_cases (v.world.sync (channels.name c)) endpoint
          (none : Option (Waiter C Q))
      · obtain ⟨K', w, exchanged, ready, used⟩ := exchange_used env used queue more
        obtain ⟨values, synced⟩ := synced_ready more ready
        rw [called]
        simp only [exchanged, synced, bind, Except.bind, pure, Except.pure]
        exact ⟨_, _, rfl, used⟩
      · cases given
      · have empty : synced (cancelsuspension K) = .ok [.boolean false, .string "empty"] := by
          have one : (settop K 1).length = 1 := length_settop K 1
          obtain ⟨u, only⟩ := List.length_eq_one_iff.mp one
          unfold synced cancelsuspension
          rw [only]
          rfl
        rw [called]
        simp only [empty, bind, Except.bind, pure, Except.pure]
        exact ⟨_, _, rfl, used.setsync fun d => by rw [queue]⟩

section
variable {s s' : State T C Q} {a : Act T C Q} {turn : Turn T C Q}

/-- The operation of every coroutine is as the operations are, and the channels are used as they
say. -/
structure Sound (channels : Channels C) (s : State T C Q) : Prop where
  valid : ∀ x, OperationStates.Inv (s.op x)
  plain : ∀ x, Plain (awaitch channels x) (s.op x)
  used : Used channels (traffic s)

def lacks : Act T C Q → Failure → Prop
  | .awaitch _ _ env | .requestcb _ _ env | .closecb _ env => Lacks env none
  | .onsynced _ memory env => Lacks env memory
  | _ => fun _ => False

/-- The traffic after a turn of a coroutine, that leaves it holding this. -/
def after (s : State T C Q) (x : T) (held : Hold Value) (r : World T C Q × Option C) :
    Traffic T C Q where
  hold := Function.update (fun y => hold (s.op y)) x held
  opvalue := Function.update s.opvalue x r.2
  world := r.1
  hands := s.hands

def Turns (channels : Channels C) (s : State T C Q) (a : Act T C Q) (x : T) (held : Hold Value) :
    Except Failure (World T C Q × Option C) → Prop
  | .error failure => lacks a failure
  | .ok r => Used channels (after s x held r)

omit [DecidableEq C] [DecidableEq Q] in
theorem after_same (x : T) {held : Hold Value} (same : held = hold (s.op x)) :
    after s x held (s.world, s.opvalue x) = traffic s := by
  subst same
  unfold after traffic
  simp only [Function.update_eq_self]

theorem turns_same (sound : Sound channels s) (x : T) {held : Hold Value}
    (same : held = hold (s.op x)) :
    Turns channels s a x held (.ok (s.world, s.opvalue x)) := by
  unfold Turns
  simp only
  rw [after_same x same]
  exact sound.used

/-- A setup function that runs once the operation is free. -/
theorem turns_setup (sound : Sound channels s) (x : T) (free : hold (s.op x) = .none)
    {env : Env Q} (loop : Bool) (L : Stack) (mine : ∀ failure, Lacks env none failure → lacks a failure) :
    Turns channels s a x (.of (.handle .async) ((awaitch channels x).setup ⟨s.world, env⟩ loop L))
      ((k_setupsynced channels x s.world env loop L).map fun r => (r.2, s.opvalue x)) := by
  have leaves := k_setupsynced_used env sound.used (x := x) free loop L
  unfold awaitch
  simp only
  change Leaves env none _ channels (k_setupsynced channels x s.world env loop L) at leaves
  cases result : k_setupsynced channels x s.world env loop L with
  | error failure =>
    rw [result] at leaves
    exact mine failure leaves
  | ok r =>
    rw [result] at leaves
    have kept : Function.update s.opvalue x (s.opvalue x) = s.opvalue := Function.update_eq_self x _
    simp only [Except.map, Turns, after, kept]
    exact leaves

/-- A callback that sets the operation free goes on with a call that waits for it. -/
theorem turns_restart (sound : Sound channels s) (x : T) (free : hold (s.op x) = .none)
    {env : Env Q} (mine : ∀ failure, Lacks env none failure → lacks a failure) :
    Turns channels s a x (restarted (s.op x) ⟨s.world, env⟩) (restart channels s x env) := by
  have suspended := (sound.plain x).suspended
  unfold restarted restart
  cases place : (s.op x).place with
  | resetop target setup L =>
    have pending := resetop_pending (sound.valid x) place
    rw [place] at suspended
    simp only [pending]
    cases target with
    | request => exact turns_same sound x free.symm
    | handle type =>
      cases type with
      | async =>
        rw [suspended.2 rfl]
        exact turns_setup sound x free true L mine
      | _ => exact turns_same sound x free.symm
  | _ =>
    cases pending : (s.op x).op.flags.pending <;> exact turns_same sound x free.symm

/-- An explicit resume: the cancel function is called for a coroutine that waits. -/
theorem turns_resume (sound : Sound channels s) (x : T) (values : Stack) (env : Env Q) :
    Turns channels s a x ((hold (s.op x)).halted (awaitch channels x) ⟨s.world, env⟩ values)
      (match (s.op x).place, (s.op x).cancel with
        | .endop L, some _ => (cancelsynced channels s.world (L ++ values)).map fun r =>
            (r.2, r.1.or (s.opvalue x))
        | _, _ => .ok (s.world, s.opvalue x)) := by
  have other (free : ∀ L, hold (s.op x) ≠ .waits L) :
      (hold (s.op x)).halted (awaitch channels x) ⟨s.world, env⟩ values = hold (s.op x) := by
    cases holds : hold (s.op x) with
    | waits L => exact absurd holds (free L)
    | _ => rfl
  cases holds : hold (s.op x) with
  | waits L =>
    obtain ⟨place, -, -⟩ := waits_suspended (sound.valid x) holds
    obtain ⟨⟨value, w⟩, result, used⟩ := cancelsynced_used sound.used (x := x) holds values
    change cancelsynced channels s.world (L ++ values) = _ at result
    have given := waits_cancel (sound.valid x) (sound.plain x) holds
    rw [place, given]
    simp only [Hold.halted, awaitch, result]
    cases value with
    | none => exact used
    | some c => exact used
  | _ =>
    have same := other (by rw [holds]; simp)
    rw [holds] at same
    rw [same, ← holds]
    cases place : (s.op x).place with
    | endop L =>
      cases given : (s.op x).cancel with
      | none => exact turns_same sound x rfl
      | some cancel =>
        have waits := cancel_waits (sound.valid x) (sound.plain x) place given
        rw [holds] at waits
        cases waits
    | _ => exact turns_same sound x rfl

/-- The callback of an async handle. -/
theorem turns_onsynced (sound : Sound channels s) (x : T) (memory : Option Lack) (env : Env Q)
    (signal : x ∈ s.world.signals) :
    Turns channels s (.onsynced x memory env) x .none
      ((uv_onsynced channels s x memory).map Prod.snd) := by
  have count : 0 < (traffic s).world.signals.count x := List.count_pos_iff.mpr signal
  unfold uv_onsynced
  simp only
  cases holds : hold (s.op x) with
  | none =>
    have free := sound.used.signals x (by simp only [Traffic.uses, traffic, holds])
    omega
  | waits L =>
    obtain ⟨place, pending, cleanup⟩ := waits_suspended (sound.valid x) holds
    have leaves := returnsynced_used env sound.used (x := x) holds signal memory
    have unvalued : s.opvalue x = none := sound.used.unvalued (x := x) (by
      change hold (s.op x) ≠ .canceled
      rw [holds]
      simp)
    change Leaves env memory _ channels (returnsynced channels
      { s.world with signals := s.world.signals.erase x } memory L) at leaves
    simp only [pending, cleanup, Bool.false_eq_true, not_false_eq_true, and_self, if_true, place,
      unvalued]
    cases result : returnsynced channels { s.world with signals := s.world.signals.erase x }
      memory L with
    | error failure =>
      rw [result] at leaves
      exact leaves
    | ok r =>
      rw [result] at leaves
      exact leaves
  | canceled =>
    have cleanup := canceled_flags.mp holds
    have valued := (sound.used.value x).mpr holds
    change s.opvalue x ≠ none at valued
    simp only [cleanup, not_true_eq_false, and_false, if_false]
    cases value : s.opvalue x with
    | none => exact absurd value valued
    | some c =>
      have uses : (traffic s).uses channels x = some c := by
        simp only [Traffic.uses, traffic, holds, value]
      exact sound.used.finish uses signal

theorem awaitch_used {u : Operation.State Value (View T C Q)} {x : T} {L : Stack} {env : Env Q}
    (sound : Sound channels s)
    (turned : ChannelAwait.turn channels s (.awaitch x L env) = some turn)
    (stepped : Operation.step (s.op turn.x) turn.act = some (.ok u)) :
    Proper (awaitch channels turn.x) turn.act ∧
      Turns channels s (.awaitch x L env) turn.x
        (held (awaitch channels turn.x) (s.op turn.x) turn.act) turn.effect := by
  obtain rfl := Option.some.inj turned
  have proper : Proper (awaitch channels x) (.call (.handle .async) (awaitch channels x)
      ⟨s.world, env⟩ L) := ⟨rfl, fun _ => rfl⟩
  refine ⟨proper, ?_⟩
  generalize result : Except.ok u = r at stepped
  cases step_cases stepped with
  | call place allowed =>
    obtain ⟨-, free, -⟩ := call_hold (sound.valid x) (sound.plain x) place proper.1 proper.2
      result.symm
    simp only [held]
    cases status : ((s.op x).op.checkreset (.handle .async)).1 with
    | waitop => exact turns_same sound x rfl
    | freeop =>
      exact turns_setup sound x (free (by rw [status]; simp)) true L fun _ lacking => lacking
    | sameop =>
      exact turns_setup sound x (free (by rw [status]; simp)) false L fun _ lacking => lacking

theorem call_used {u : Operation.State Value (View T C Q)} {x : T} {target : Target}
    {client : Client Value (View T C Q)} {L : Stack} {env : Env Q} (sound : Sound channels s)
    (turned : ChannelAwait.turn channels s (.call x target client L env) = some turn)
    (stepped : Operation.step (s.op turn.x) turn.act = some (.ok u)) :
    Proper (awaitch channels turn.x) turn.act ∧
      Turns channels s (.call x target client L env) turn.x
        (held (awaitch channels turn.x) (s.op turn.x) turn.act) turn.effect := by
  simp only [ChannelAwait.turn] at turned
  split at turned
  · rename_i other
    obtain rfl := Option.some.inj turned
    simp only [isOther, Bool.and_eq_true, decide_eq_true_eq, Option.isNone_iff_eq_none] at other
    obtain ⟨elsewhere, none⟩ := other
    have proper : Proper (awaitch channels x) (.call target client ⟨s.world, env⟩ L) := by
      refine ⟨?_, fun same => absurd same elsewhere⟩
      unfold Owned
      split
      · exact absurd rfl elsewhere
      · exact none
    refine ⟨proper, ?_⟩
    have nothing (outcome : Setup Value) : Hold.of target outcome = .none := by
      unfold Hold.of
      split
      · exact absurd rfl elsewhere
      · rfl
    generalize result : Except.ok u = r at stepped
    cases step_cases stepped with
    | call place allowed =>
      obtain ⟨-, free, -⟩ := call_hold (sound.valid x) (sound.plain x) place proper.1 proper.2
        result.symm
      apply turns_same sound x
      simp only [held]
      cases status : ((s.op x).op.checkreset target).1 with
      | waitop => rfl
      | freeop => exact (nothing _).trans (free (by rw [status]; simp)).symm
      | sameop => exact (nothing _).trans (free (by rw [status]; simp)).symm
  · cases turned

theorem turn_used {u : Operation.State Value (View T C Q)} (sound : Sound channels s)
    (turned : ChannelAwait.turn channels s a = some turn)
    (stepped : Operation.step (s.op turn.x) turn.act = some (.ok u)) :
    Proper (awaitch channels turn.x) turn.act ∧
      Turns channels s a turn.x (held (awaitch channels turn.x) (s.op turn.x) turn.act)
        turn.effect := by
  cases a with
  | awaitch x L env => exact awaitch_used sound turned stepped
  | call x target client L env => exact call_used sound turned stepped
  | yield x =>
    obtain rfl := Option.some.inj turned
    exact ⟨trivial, turns_same sound x rfl⟩
  | finish x =>
    obtain rfl := Option.some.inj turned
    exact ⟨trivial, turns_same sound x rfl⟩
  | resume x values env =>
    obtain rfl := Option.some.inj turned
    exact ⟨trivial, turns_resume sound x values env⟩
  | requestcb x values env =>
    obtain rfl := Option.some.inj turned
    refine ⟨trivial, ?_⟩
    generalize result : Except.ok u = r at stepped
    cases step_cases stepped with
    | requestcb uv loops =>
      obtain ⟨free, -⟩ := requestcb_hold (sound.valid x) (sound.plain x) uv loops result.symm
      exact turns_restart sound x free fun _ lacking => lacking
  | closecb x env =>
    obtain rfl := Option.some.inj turned
    refine ⟨trivial, ?_⟩
    generalize result : Except.ok u = r at stepped
    cases step_cases stepped with
    | closecb uv loops =>
      obtain ⟨free, -⟩ := closecb_hold (sound.valid x) (sound.plain x) uv result.symm
      exact turns_restart sound x free fun _ lacking => lacking
  | handlecb x values env =>
    simp only [ChannelAwait.turn] at turned
    split at turned
    · cases turned
    · rename_i other
      obtain rfl := Option.some.inj turned
      refine ⟨trivial, ?_⟩
      generalize result : Except.ok u = r at stepped
      cases step_cases stepped with
      | handlecb uv kind loops =>
        rename_i type closing act
        have elsewhere : type ≠ .async := by
          rintro rfl
          exact other _ kind
        exact turns_same sound x (other_hold (sound.valid x) kind elsewhere uv).symm
  | onsynced x memory env =>
    simp only [ChannelAwait.turn] at turned
    split at turned
    · rename_i signal
      obtain rfl := Option.some.inj turned
      exact ⟨trivial, turns_onsynced sound x memory env signal⟩
    · cases turned
  | _ => cases turned

def Ends (channels : Channels C) (a : Act T C Q) : Except Failure (State T C Q) → Prop
  | .error failure => lacks a failure
  | .ok s' => Sound channels s'

theorem operate_ends {r : Except Site (Operation.State Value (View T C Q))}
    (sound : Sound channels s) (turned : ChannelAwait.turn channels s a = some turn)
    (stepped : Operation.step (s.op turn.x) turn.act = some r) :
    Ends channels a (ChannelAwait.finish s turn r) := by
  have harmless := plain_harmless (sound.valid turn.x) (sound.plain turn.x) (step_cases stepped)
  obtain ⟨u, rfl, valid⟩ := step_valid (sound.valid turn.x) harmless stepped
  obtain ⟨proper, turns⟩ := turn_used sound turned stepped
  obtain ⟨holds, plain⟩ := step_hold (sound.valid turn.x) (sound.plain turn.x) proper stepped
  unfold ChannelAwait.finish
  cases effect : turn.effect with
  | error failure =>
    rw [effect] at turns
    exact turns
  | ok r =>
    rw [effect] at turns
    refine ⟨fun x => ?_, fun x => ?_, ?_⟩
    · by_cases here : x = turn.x
      · subst here
        simpa only [Function.update_self] using valid
      · simpa only [Function.update_of_ne here] using sound.valid x
    · by_cases here : x = turn.x
      · subst here
        simpa only [Function.update_self] using plain
      · simpa only [Function.update_of_ne here] using sound.plain x
    · have same : (fun x => hold (Function.update s.op turn.x u x)) =
          Function.update (fun x => hold (s.op x)) turn.x
            (held (awaitch channels turn.x) (s.op turn.x) turn.act) := by
        funext x
        by_cases here : x = turn.x
        · rw [here, Function.update_self, Function.update_self, holds]
        · rw [Function.update_of_ne here, Function.update_of_ne here]
      unfold traffic
      simp only [same]
      exact turns

/-- No coroutine changes what it holds. -/
theorem Sound.outside {w : World T C Q} {hands : List (Hand C)} (sound : Sound channels s)
    (used : Used channels { traffic s with world := w, hands := hands }) :
    Sound channels { s with world := w, hands := hands } :=
  ⟨sound.valid, sound.plain, used⟩

theorem outside_ends {r : Except Failure (State T C Q)} (sound : Sound channels s)
    (stepped : ChannelAwait.outside channels s a = some r) : Ends channels a r := by
  cases a with
  | sync x L env =>
    simp only [ChannelAwait.outside] at stepped
    split at stepped
    · cases stepped
      obtain ⟨results, w, synced, used⟩ := channel_sync_used env sound.used L
      change channel_sync channels s.world env L = _ at synced
      rw [synced]
      exact sound.outside used
    · cases stepped
  | close x c =>
    simp only [ChannelAwait.outside] at stepped
    split at stepped
    · unfold channel_close at stepped
      by_cases idle : (s.world.channel c).handle = none
      · rw [idle] at stepped
        simp only [Option.isSome_none, Bool.false_eq_true, if_false] at stepped
        by_cases closed : (s.world.channel c).closed = true
        · simp only [closed, if_true] at stepped
          cases stepped
          exact sound
        · simp only [closed, Bool.false_eq_true, if_false] at stepped
          cases stepped
          exact sound.outside (sound.used.close idle)
      · have used : (s.world.channel c).handle.isSome = true := by
          simpa [Option.isSome_iff_ne_none] using idle
        simp only [used, if_true] at stepped
        cases stepped
        exact sound
    · cases stepped
  | enter name endpoint waits =>
    simp only [ChannelAwait.outside] at stepped
    obtain ⟨sync, found, called, queue⟩ | ⟨sync, state, called, given, queue⟩ |
      ⟨sync, called, refused, queue⟩ := matchchsync_cases (s.world.sync name) endpoint
        (waits.map Waiter.other)
    · rw [called] at stepped
      cases found with
      | own c =>
        cases stepped
        exact sound.outside (sound.used.take queue)
      | other q =>
        cases stepped
        refine sound.outside (sound.used.setsync fun d => ?_)
        change sync.queue.count (.own d) = (s.world.sync name).queue.count (.own d)
        rw [queue, List.count_cons_of_ne]
        simp
    · rw [called] at stepped
      cases stepped
      obtain ⟨q, -, rfl⟩ := Option.map_eq_some_iff.mp given
      refine sound.outside (sound.used.setsync fun d => ?_)
      change sync.queue.count (.own d) = (s.world.sync name).queue.count (.own d)
      rw [queue, List.count_append, List.count_singleton]
      simp
    · rw [called] at stepped
      cases stepped
      refine sound.outside (sound.used.setsync fun d => ?_)
      change sync.queue.count (.own d) = (s.world.sync name).queue.count (.own d)
      rw [queue]
  | leave name q =>
    cases stepped
    refine sound.outside (sound.used.setsync fun d => ?_)
    rw [removestateq, List.count_erase_of_ne]
    · rfl
    · simp
  | swap j calling faults =>
    simp only [ChannelAwait.outside] at stepped
    split at stepped
    · rename_i c at_j
      cases stepped
      exact sound.outside (sound.used.swap at_j (answered_swapvalues faults calling.offers))
    · cases stepped
  | send j =>
    simp only [ChannelAwait.outside] at stepped
    split at stepped
    · rename_i c at_j
      cases stepped
      obtain ⟨w, sent, used⟩ := sound.used.send at_j
      change asyncsend s.world c = _ at sent
      rw [sent]
      exact sound.outside used
    · cases stepped
  | _ => cases stepped

theorem step_ends {r : Except Failure (State T C Q)} (sound : Sound channels s)
    (stepped : ChannelAwait.step channels s a = some r) : Ends channels a r := by
  unfold ChannelAwait.step at stepped
  cases turned : ChannelAwait.turn channels s a with
  | none =>
    rw [turned] at stepped
    exact outside_ends sound stepped
  | some turn =>
    rw [turned] at stepped
    obtain ⟨result, operated, rfl⟩ := Option.map_eq_some_iff.mp stepped
    exact operate_ends sound turned operated

theorem sound_initial : Sound channels (initial : State T C Q) := by
  refine ⟨fun x => init_valid, fun x => plain_init, fun c => ?_, fun c x => ?_, fun name c waiting => ?_,
    fun x L holds => ?_, fun x => ?_, fun x c canceled => ?_, fun x _ => rfl⟩
  · exact .idle false
  · constructor
    · intro handle
      cases handle
    · intro uses
      cases uses
  · cases waiting
  · cases holds
  · constructor
    · intro valued
      exact absurd rfl valued
    · intro canceled
      cases canceled
  · cases canceled

theorem next_step : ChannelAwait.next channels s a = some s' ↔
    ChannelAwait.step channels s a = some (.ok s') := by
  unfold ChannelAwait.next
  split
  · rename_i u stepped
    simp [stepped]
  · rename_i other
    simp only [reduceCtorEq, false_iff]
    exact other s'

theorem run_sound {acts : List (Act T C Q)}
    (ran : run (ChannelAwait.next channels) initial acts = some s) : Sound channels s :=
  run_invariant (Sound channels) (fun _ _ _ sound stepped => step_ends sound (next_step.mp stepped))
    sound_initial ran

end

end
end Coutil.ChannelSteps
