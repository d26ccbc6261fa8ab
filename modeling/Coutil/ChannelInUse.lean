import Coutil.ChannelSteps

set_option autoImplicit false

/-! The channels in use, over every order of the steps of the coroutines of a state and of the
other threads. -/
namespace Coutil.ChannelInUse
open Runs Census Operation ChannelSync Exchange OperationStates AwaitOperation ChannelAwait
open ChannelUse ChannelSteps

section
variable {T C Q : Type} [DecidableEq T] [DecidableEq C] [DecidableEq Q]
variable {channels : Channels C} {s s' : State T C Q} {a : Act T C Q} {turn : Turn T C Q}

def Awaits (channels : Channels C) (s : State T C Q) (x : T) (c : C) : Prop :=
  ∃ L, hold (s.op x) = .waits L ∧ channels.check (index L 1) = some c

/-- The coroutine was resumed out of such a call after the channel was matched, and its operation
still waits for the callback. -/
def Canceled (s : State T C Q) (x : T) (c : C) : Prop :=
  hold (s.op x) = .canceled ∧ s.opvalue x = some c

def Matched (s : State T C Q) (c : C) : Prop :=
  (∃ h ∈ s.hands, h.channel = c) ∨
    ∃ x ∈ s.world.signals, (s.world.channel c).handle = some x

omit [DecidableEq T] [DecidableEq C] [DecidableEq Q] in
theorem uses_iff {x : T} {c : C} :
    (traffic s).uses channels x = some c ↔ Awaits channels s x c ∨ Canceled s x c := by
  simp only [Traffic.uses, traffic, Awaits, Canceled]
  cases holds : hold (s.op x) with
  | none => simp
  | waits L => simp
  | canceled => simp

theorem hands_of_census {hands : List (Hand C)} {c : C} (taken : census id hands (.taken c) = 0)
    (swapped : census id hands (.swapped c) = 0) : ∀ h ∈ hands, h.channel ≠ c := by
  rintro h member rfl
  cases h with
  | taken c => exact ne_of_census_eq_zero id taken member rfl
  | swapped c => exact ne_of_census_eq_zero id swapped member rfl

omit [DecidableEq T] in
theorem queued_iff {c : C} : .own c ∈ (s.world.sync (channels.name c)).queue ↔
    0 < (traffic s).queued channels c := List.count_pos_iff.symm

omit [DecidableEq Q] in
theorem matched_iff {c : C} : Matched s c ↔ 0 < census id s.hands (.taken c) ∨
    0 < census id s.hands (.swapped c) ∨ 0 < (traffic s).signalled c := by
  constructor
  · rintro (⟨h, member, rfl⟩ | ⟨x, signal, mine⟩)
    · obtain ⟨j, at_j⟩ := List.mem_iff_getElem?.mp member
      cases h with
      | taken c => exact Or.inl ((census_pos id).mpr ⟨j, _, at_j, rfl⟩)
      | swapped c => exact Or.inr (Or.inl ((census_pos id).mpr ⟨j, _, at_j, rfl⟩))
    · refine Or.inr (Or.inr ?_)
      simp only [Traffic.signalled, traffic, mine]
      exact List.count_pos_iff.mpr signal
  · rintro (taken | swapped | sent)
    · obtain ⟨j, h, at_j, rfl⟩ := (census_pos id).mp taken
      exact Or.inl ⟨_, List.mem_of_getElem? at_j, rfl⟩
    · obtain ⟨j, h, at_j, rfl⟩ := (census_pos id).mp swapped
      exact Or.inl ⟨_, List.mem_of_getElem? at_j, rfl⟩
    · simp only [Traffic.signalled, traffic] at sent
      split at sent
      · cases sent
      · rename_i x mine
        exact Or.inr ⟨x, List.count_pos_iff.mp sent, mine⟩

theorem idle_as_new {c : C} (sound : Sound channels s) (free : (s.world.channel c).handle = none) :
    (s.world.channel c).L = [] ∧ (s.world.channel c).syncregkey = none ∧
      (∀ name, .own c ∉ (s.world.sync name).queue) ∧ ∀ h ∈ s.hands, h.channel ≠ c := by
  obtain ⟨record, queue, taken, swapped, -⟩ := (sound.used.stage c).free free
  have empty : (s.world.channel c).L = [] := congrArg LuaChannel.L record
  have key : (s.world.channel c).syncregkey = none := congrArg LuaChannel.syncregkey record
  refine ⟨empty, key, fun name waiting => ?_, hands_of_census taken swapped⟩
  obtain rfl := sound.used.named name c waiting
  have positive := queued_iff.mp waiting
  omega

/-- In every run, a channel without a handle is as new but for being closed, the handle is of the
one coroutine that awaits on the channel or canceled too late, the channel is in use exactly while
it waits in the queue of its name or is matched, of which it is never both, and it cannot be closed
then. -/
theorem channel_in_use {acts : List (Act T C Q)}
    (ran : run (ChannelAwait.next channels) initial acts = some s) (c : C) :
    ((s.world.channel c).handle = none → (s.world.channel c).L = [] ∧
      (s.world.channel c).syncregkey = none ∧ (∀ name, .own c ∉ (s.world.sync name).queue) ∧
      ∀ h ∈ s.hands, h.channel ≠ c) ∧
    (∀ x, (s.world.channel c).handle = some x ↔ Awaits channels s x c ∨ Canceled s x c) ∧
    ((s.world.channel c).handle ≠ none ↔
      .own c ∈ (s.world.sync (channels.name c)).queue ∨ Matched s c) ∧
    (Matched s c → .own c ∉ (s.world.sync (channels.name c)).queue) ∧
    (∀ x, Canceled s x c → Matched s c) ∧
    (channel_close s.world c = none ↔ ∃ x, Awaits channels s x c ∨ Canceled s x c) := by
  have sound := run_sound ran
  have used := sound.used
  obtain ⟨busy, apart⟩ := (used.stage c).places
  have holders (x : T) : (s.world.channel c).handle = some x ↔
      Awaits channels s x c ∨ Canceled s x c := (used.handle c x).trans uses_iff
  refine ⟨idle_as_new sound, holders, ?_, fun was waiting => ?_, fun x late => ?_, ?_⟩
  · rw [queued_iff, matched_iff]
    exact busy
  · have none := apart (matched_iff.mp was)
    have some := queued_iff.mp waiting
    omega
  · have out := used.late x c late.1 late.2
    have mine := (holders x).mpr (Or.inr late)
    have somewhere := busy.mp (by
      change (s.world.channel c).handle ≠ none
      rw [mine]
      exact Option.some_ne_none x)
    refine matched_iff.mpr (somewhere.resolve_left ?_)
    omega
  · unfold channel_close
    cases handle : (s.world.channel c).handle with
    | none =>
      have nobody : ¬∃ x, Awaits channels s x c ∨ Canceled s x c := by
        rintro ⟨x, holds⟩
        rw [(holders x).mpr holds] at handle
        cases handle
      simp only [Option.isSome_none, Bool.false_eq_true, if_false, nobody, iff_false]
      split_ifs <;> simp
    | some x =>
      simp only [Option.isSome_some, if_true, true_iff]
      exact ⟨x, (holders x).mp handle⟩

def sampleChannels : Channels ℕ where
  name := fun _ => "jobs"
  check
    | .object _ c => some c
    | _ => none
  check_nil := rfl

def sampleOffered : Offered := ⟨[], 0, 0, by simp [Offers]⟩

def sampleEnv (arm : ArmFault) : Env ℕ := ⟨arm, Faults.none, fun _ => sampleOffered⟩

/-- Coroutine 0 awaits on channel 5, is matched by another thread and resumed before its signal. -/
def sampleCancel : List (Act ℕ ℕ ℕ) :=
  [.resume 0 [] (sampleEnv .none), .awaitch 0 [.object "userdata" 5] (sampleEnv .none),
    .enter "jobs" .any none, .resume 0 [] (sampleEnv .none)]

theorem channel_in_use_canceled :
    ∃ s, run (ChannelAwait.next sampleChannels) initial sampleCancel = some s ∧ Canceled s 0 5 ∧
      channel_close s.world 5 = none := by
  have ran : run (ChannelAwait.next sampleChannels) initial sampleCancel = some _ := rfl
  obtain ⟨-, -, -, -, -, closes⟩ := channel_in_use ran 5
  exact ⟨_, ran, ⟨rfl, rfl⟩, closes.mpr ⟨0, Or.inr ⟨rfl, rfl⟩⟩⟩

def NotSynced (x : T) (a : Act T C Q) : Prop := ∀ memory env, a ≠ .onsynced x memory env

theorem canceled_turn {u : Operation.State Value (View T C Q)} (sound : Sound channels s)
    (turned : ChannelAwait.turn channels s a = some turn)
    (stepped : Operation.step (s.op turn.x) turn.act = some (.ok u))
    (late : hold (s.op turn.x) = .canceled) (other : NotSynced turn.x a) :
    held (awaitch channels turn.x) (s.op turn.x) turn.act = .canceled ∧
      turn.effect = .ok (s.world, s.opvalue turn.x) := by
  obtain ⟨proper, -⟩ := turn_used sound turned stepped
  have kept : hold (s.op turn.x) ≠ .none := by
    rw [late]
    simp
  generalize result : Except.ok u = r at stepped
  cases a with
  | awaitch x L env =>
    obtain rfl := Option.some.inj turned
    cases step_cases stepped with
    | call place allowed =>
      obtain ⟨-, free, -⟩ := call_hold (sound.valid x) (sound.plain x) place proper.1 proper.2
        result.symm
      have waits : ((s.op x).op.checkreset (.handle .async)).1 = .waitop := by
        by_contra ready
        exact kept (free ready)
      simp only [held, waits]
      exact ⟨late, trivial⟩
  | call x target client L env =>
    simp only [ChannelAwait.turn] at turned
    split at turned
    · obtain rfl := Option.some.inj turned
      cases step_cases stepped with
      | call place allowed =>
        obtain ⟨-, free, -⟩ := call_hold (sound.valid x) (sound.plain x) place proper.1 proper.2
          result.symm
        have waits : ((s.op x).op.checkreset target).1 = .waitop := by
          by_contra ready
          exact kept (free ready)
        simp only [held, waits]
        exact ⟨late, trivial⟩
    · cases turned
  | yield x =>
    obtain rfl := Option.some.inj turned
    exact ⟨late, rfl⟩
  | finish x =>
    obtain rfl := Option.some.inj turned
    exact ⟨late, rfl⟩
  | resume x values env =>
    obtain rfl := Option.some.inj turned
    simp only [held]
    refine ⟨by rw [late]; rfl, ?_⟩
    cases place : (s.op x).place with
    | endop L =>
      cases given : (s.op x).cancel with
      | none => rfl
      | some cancel =>
        have waits := cancel_waits (sound.valid x) (sound.plain x) place given
        rw [late] at waits
        cases waits
    | _ => rfl
  | requestcb x values env =>
    obtain rfl := Option.some.inj turned
    cases step_cases stepped with
    | requestcb uv loops =>
      exact absurd (requestcb_hold (sound.valid x) (sound.plain x) uv loops result.symm).1 kept
  | closecb x env =>
    obtain rfl := Option.some.inj turned
    cases step_cases stepped with
    | closecb uv loops =>
      exact absurd (closecb_hold (sound.valid x) (sound.plain x) uv result.symm).1 kept
  | handlecb x values env =>
    simp only [ChannelAwait.turn] at turned
    split at turned
    · cases turned
    · rename_i elsewhere
      obtain rfl := Option.some.inj turned
      cases step_cases stepped with
      | handlecb uv kind loops =>
        rename_i type closing act
        have type_ne : type ≠ .async := by
          rintro rfl
          exact elsewhere _ kind
        exact absurd (other_hold (sound.valid x) kind type_ne uv) kept
  | onsynced x memory env =>
    simp only [ChannelAwait.turn] at turned
    split at turned
    · obtain rfl := Option.some.inj turned
      exact absurd rfl (other memory env)
    · cases turned
  | _ => cases turned

theorem step_turn (turned : ChannelAwait.turn channels s a = some turn)
    (stepped : ChannelAwait.step channels s a = some (.ok s')) :
    ∃ u r, Operation.step (s.op turn.x) turn.act = some (.ok u) ∧ turn.effect = .ok r ∧
      s' = { s with
        op := Function.update s.op turn.x u
        world := r.1
        opvalue := Function.update s.opvalue turn.x r.2 } := by
  unfold ChannelAwait.step at stepped
  rw [turned] at stepped
  obtain ⟨result, operated, ended⟩ := Option.map_eq_some_iff.mp stepped
  unfold ChannelAwait.finish at ended
  cases result with
  | error site => cases ended
  | ok u =>
    cases effect : turn.effect with
    | error failure =>
      rw [effect] at ended
      cases ended
    | ok r =>
      rw [effect] at ended
      cases ended
      exact ⟨u, r, operated, rfl, rfl⟩

theorem step_coroutine (x : T) (stepped : ChannelAwait.step channels s a = some (.ok s')) :
    (s'.op x = s.op x ∧ s'.opvalue x = s.opvalue x) ∨
    ∃ turn u r, ChannelAwait.turn channels s a = some turn ∧ turn.x = x ∧
      Operation.step (s.op x) turn.act = some (.ok u) ∧ turn.effect = .ok r ∧
      s'.op x = u ∧ s'.opvalue x = r.2 ∧ s'.world = r.1 := by
  cases turned : ChannelAwait.turn channels s a with
  | some turn =>
    obtain ⟨u, r, operated, effect, rfl⟩ := step_turn turned stepped
    by_cases here : x = turn.x
    · subst here
      refine Or.inr ⟨turn, u, r, rfl, rfl, operated, effect, ?_, ?_, rfl⟩
      · exact Function.update_self _ _ _
      · exact Function.update_self _ _ _
    · exact Or.inl ⟨Function.update_of_ne here _ _, Function.update_of_ne here _ _⟩
  | none =>
    unfold ChannelAwait.step at stepped
    rw [turned] at stepped
    refine Or.inl ?_
    have apart {w : World T C Q} {hands : List (Hand C)}
        (result : s' = { s with world := w, hands := hands }) :
        s'.op x = s.op x ∧ s'.opvalue x = s.opvalue x := by
      rw [result]
      exact ⟨rfl, rfl⟩
    cases a with
    | sync y L env =>
      simp only [ChannelAwait.outside] at stepped
      split at stepped
      · cases synced : channel_sync channels s.world env L with
        | error failure =>
          rw [synced] at stepped
          cases stepped
        | ok r =>
          rw [synced] at stepped
          cases stepped
          exact apart rfl
      · cases stepped
    | close y c =>
      simp only [ChannelAwait.outside] at stepped
      split at stepped
      · split at stepped
        · cases stepped
          exact apart rfl
        · cases stepped
          exact apart rfl
      · cases stepped
    | enter name endpoint waits =>
      simp only [ChannelAwait.outside] at stepped
      split at stepped
      · cases stepped
        exact apart rfl
      · cases stepped
        exact apart rfl
    | leave name q =>
      cases stepped
      exact apart rfl
    | swap j calling faults =>
      simp only [ChannelAwait.outside] at stepped
      split at stepped
      · cases stepped
        exact apart rfl
      · cases stepped
    | send j =>
      simp only [ChannelAwait.outside] at stepped
      split at stepped
      · rename_i c at_j
        cases sent : asyncsend s.world c with
        | error failure =>
          rw [sent] at stepped
          cases stepped
        | ok w =>
          rw [sent] at stepped
          cases stepped
          exact apart rfl
      · cases stepped
    | _ => cases stepped

/-- The state of the channel is on its way until the callback, whatever the coroutine does. -/
theorem canceled_stays {x : T} {c : C} (sound : Sound channels s) (late : Canceled s x c)
    (other : NotSynced x a) (stepped : ChannelAwait.next channels s a = some s') :
    Canceled s' x c := by
  have stepped := next_step.mp stepped
  obtain ⟨op, value⟩ | ⟨turn, u, r, turned, rfl, operated, effect, op, value, -⟩ :=
    step_coroutine x stepped
  · unfold Canceled
    rw [op, value]
    exact late
  · obtain ⟨holds, same⟩ := canceled_turn sound turned operated late.1 other
    obtain ⟨proper, -⟩ := turn_used sound turned operated
    obtain ⟨held, -⟩ := step_hold (sound.valid _) (sound.plain _) proper operated
    rw [effect] at same
    obtain rfl := Except.ok.inj same
    exact ⟨by rw [op, held, holds], value.trans late.2⟩

theorem resume_waiting {x : T} {c : C} {L values : Stack} {env : Env Q} (sound : Sound channels s)
    (waits : hold (s.op x) = .waits L) (checked : channels.check (index L 1) = some c)
    (stepped : ChannelAwait.next channels s (.resume x values env) = some s') :
    (.own c ∈ (s.world.sync (channels.name c)).queue → (s'.world.channel c).handle = none) ∧
      (.own c ∉ (s.world.sync (channels.name c)).queue → Canceled s' x c) := by
  have stepped := next_step.mp stepped
  have place := (waits_suspended (sound.valid x) waits).1
  have given := waits_cancel (sound.valid x) (sound.plain x) waits
  have turned : ChannelAwait.turn channels s (.resume x values env) =
      some ⟨x, .resume ⟨s.world, env⟩ values,
        (cancelsynced channels s.world (L ++ values)).map fun r =>
          (r.2, r.1.or (s.opvalue x))⟩ := by
    simp only [ChannelAwait.turn, place, given]
    rfl
  obtain ⟨u, r, operated, effect, rfl⟩ := step_turn turned stepped
  have proper : Proper (awaitch channels x) (.resume ⟨s.world, env⟩ values) := trivial
  obtain ⟨holds, -⟩ := step_hold (sound.valid x) (sound.plain x) proper operated
  have known := sound.used.waits x L waits
  simp only [cancelsynced, index_append known, checked] at effect
  simp only [held, waits, Hold.halted, awaitch, cancelsynced, index_append known, checked] at holds
  refine ⟨fun waiting => ?_, fun gone => ?_⟩
  · simp only [waiting, if_true] at effect
    obtain rfl := Except.ok.inj effect
    simp only [restorechannel, setchannel_self]
  · simp only [gone, if_false] at effect holds
    obtain rfl := Except.ok.inj effect
    refine ⟨?_, Function.update_self _ _ _⟩
    simpa only [Function.update_self, Bool.false_eq_true, if_false] using holds

/-- The callback sets the channel free, and drops what the match left. -/
theorem onsynced_canceled {x : T} {c : C} {memory : Option Lack} {env : Env Q}
    (late : Canceled s x c)
    (stepped : ChannelAwait.next channels s (.onsynced x memory env) = some s') :
    (s'.world.channel c).handle = none := by
  have stepped := next_step.mp stepped
  obtain ⟨holds, value⟩ := late
  have cleanup := canceled_flags.mp holds
  cases turned : ChannelAwait.turn channels s (.onsynced x memory env) with
  | none =>
    unfold ChannelAwait.step at stepped
    rw [turned] at stepped
    cases stepped
  | some turn =>
    obtain ⟨u, r, -, effect, rfl⟩ := step_turn turned stepped
    simp only [ChannelAwait.turn] at turned
    split at turned
    · obtain rfl := Option.some.inj turned
      simp only [uv_onsynced, cleanup, not_true_eq_false, and_false, if_false, value] at effect
      obtain rfl := Except.ok.inj effect
      simp only [restorechannel, setchannel_self]
    · cases turned

/-- A coroutine that is resumed out of its wait takes the channel out of use at once, unless the
channel was matched before. Then the channel stays in use, whatever happens, until the callback
of the coroutine's handle, which sets it free. -/
theorem canceled_awaitch {acts : List (Act T C Q)}
    (ran : run (ChannelAwait.next channels) initial acts = some s) (x : T) (c : C) :
    (Awaits channels s x c → ∀ values env s',
      ChannelAwait.next channels s (.resume x values env) = some s' →
        (¬Matched s c → (s'.world.channel c).handle = none) ∧
        (Matched s c → Canceled s' x c)) ∧
    (Canceled s x c → ∀ rest s', run (ChannelAwait.next channels) s rest = some s' →
      (∀ a ∈ rest, NotSynced x a) →
        (s'.world.channel c).handle = some x ∧
        ∀ memory env s'', ChannelAwait.next channels s' (.onsynced x memory env) = some s'' →
          (s''.world.channel c).handle = none) := by
  have sound := run_sound ran
  refine ⟨fun ⟨L, waits, checked⟩ values env s' stepped => ?_, fun late rest s' ran' others => ?_⟩
  · obtain ⟨first, second⟩ := resume_waiting sound waits checked stepped
    obtain ⟨-, holders, busy, apart, -⟩ := channel_in_use ran c
    have mine := (holders x).mpr (Or.inl ⟨L, waits, checked⟩)
    refine ⟨fun unmatched => first ?_, fun matched => second (apart matched)⟩
    refine (busy.mp ?_).resolve_right unmatched
    rw [mine]
    exact Option.some_ne_none x
  · have stays := run_invariant_along (fun s => Sound channels s ∧ Canceled s x c)
      (fun _ a => NotSynced x a)
      (fun s a s' before other stepped =>
        ⟨step_ends before.1 (next_step.mp stepped),
          canceled_stays before.1 before.2 other stepped⟩)
      ⟨sound, late⟩ (along_always fun a member _ => others a member) ran'
    refine ⟨(stays.1.used.handle c x).mpr (uses_iff.mpr (Or.inr stays.2)), ?_⟩
    exact fun memory env s'' stepped => onsynced_canceled stays.2 stepped

/-- The match goes on after the cancel, and the callback sets the channel free. -/
theorem canceled_awaitch_callback :
    ∃ s s', run (ChannelAwait.next sampleChannels) initial sampleCancel = some s ∧
      run (ChannelAwait.next sampleChannels) s
        [.swap 0 sampleOffered Faults.none, .send 0] = some s' ∧
      (s'.world.channel 5).handle = some 0 ∧
      ∀ s'', ChannelAwait.next sampleChannels s' (.onsynced 0 none (sampleEnv .none)) = some s'' →
        (s''.world.channel 5).handle = none := by
  have first : run (ChannelAwait.next sampleChannels) initial sampleCancel = some _ := rfl
  have both : run (ChannelAwait.next sampleChannels) initial
      (sampleCancel ++ [.swap 0 sampleOffered Faults.none, .send 0]) = some _ := rfl
  obtain ⟨s, ran, rest⟩ := run_append.mp both
  obtain rfl := Option.some.inj (first.symm.trans ran)
  obtain ⟨mine, frees⟩ := (canceled_awaitch ran 0 5).2 ⟨rfl, rfl⟩ _ _ rest (by simp [NotSynced])
  exact ⟨_, _, ran, rest, mine, frees none (sampleEnv .none)⟩

end
end Coutil.ChannelInUse
