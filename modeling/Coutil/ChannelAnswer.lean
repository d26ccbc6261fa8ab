import Coutil.ExchangeValues

set_option autoImplicit false

/-! What `lcuCS_matchchsync` leaves on the stack of its caller when it does not wait. -/
namespace Coutil.ChannelAnswer
open Exchange ExchangeValues
open ChannelSync (Endpoint Sync)

def nargs (narg : ℕ) : ℕ := if narg > 2 then narg - 2 else 0

/-- What `armsynced` meets: whether the state of the channel has space, the failures of the
transfers, and the result of `uv_async_init` when it is called, with the text of its error. -/
structure Arming where
  space : Bool
  move : Option Lack
  error : Option Lack
  init : Option ℤ
  message : String

/-- The state to wait with, or the stack of the caller when there is none. -/
def armsynced (w : Arming) (L : Stack) : Except Stack Stack :=
  let narg := nargs L.length
  if w.space = false then .error (settop L 1 ++ [.boolean false, .string "insufficient memory"])
  else
    let moved := if narg > 0 then movefrom w.move (settop [] 1) L narg "argument" else .ok ([], L)
    match moved with
    | .error cL =>
      match pushfrom w.error (index cL cL.length) (-1) "error" with
      | .error pushed => .error (settop L 1 ++ [.boolean false] ++ pushed)
      | .ok v => .error (settop L 1 ++ [.boolean false, v])
    | .ok (cL, _) =>
      match w.init with
      | none => .ok (offer cL 0 narg)
      | some err =>
        if err < 0 then .error (settop L 1 ++ [.boolean false, .string w.message, .integer (-err)])
        else .ok (offer cL 0 narg)

def cancelsuspension (L : Stack) : Stack :=
  settop L 1 ++ [.boolean false, .string "empty", .integer 2]

inductive Caller where
  | task (base : ℕ)
  | awaitch (w : Arming)
  | sync

def Caller.base : Caller → ℕ
  | .task base => base
  | _ => 1

def Caller.narg (L : Stack) : Caller → ℕ
  | .task base => L.length - base
  | _ => L.length

def Caller.getstate (L : Stack) : Caller → Except Stack Stack
  | .task base => .ok (offer L base (nargs (L.length - base)))
  | .awaitch w => armsynced w L
  | .sync => .error (cancelsuspension L)

/-- A task yielded the name of the channel at least, and a function was given the channel. -/
def Caller.Holds (L : Stack) : Caller → Prop
  | .task base => base < L.length
  | _ => 1 ≤ L.length

def matchchsync (faults : Faults) (sync : Sync Stack) (endpoint : Endpoint) (caller : Caller)
    (L : Stack) : Sync Stack × Option Stack :=
  match ChannelSync.matchchsync sync endpoint (caller.getstate L).toOption with
  | (sync, .matched state) =>
    (sync, some (swapvalues faults L caller.base (nargs (caller.narg L)) state).1)
  | (sync, .waits) => (sync, none)
  | (sync, .refused) =>
    match caller.getstate L with
    | .error L => (sync, some L)
    | .ok _ => (sync, none)

/-- What `system.awaitch` and `channel:sync` return, once `channelsync` has popped a value. -/
def returned (L : Stack) : List Value := L.dropLast.drop 1

/-- The results are above the base with their number on top, as `channelsync` asserts, and are
what a function returns. -/
def Formatted (caller : Caller) (L L' : Stack) : Prop :=
  ∃ results, L' = L.take caller.base ++ results ++ [.integer results.length] ∧
    ((∀ base, caller ≠ .task base) →
      (index L' L'.length).tointeger = L'.length - 2 ∧ returned L' = results)

/-- There is a call to match with, or else the caller is not `system.awaitch`, or the number of
the error of `uv_async_init` is the one of the values in front of it. -/
def Answers (sync : Sync Stack) (endpoint : Endpoint) (L : Stack) : Caller → Prop
  | .awaitch w => (sync.queue ≠ [] ∧ sync.expected &&& endpoint.bits ≠ 0) ∨
      (w.space = true ∧ (nargs L.length = 0 ∨
        moving w.move 2 (L.drop 2) = none) ∧ w.init = some (-2))
  | _ => True

theorem Caller.Holds.fits {caller : Caller} {L : Stack} (holds : caller.Holds L) :
    caller.base ≤ L.length := by
  cases caller with
  | task base => exact Nat.le_of_lt holds
  | awaitch w => exact holds
  | sync => exact holds

theorem nargs_eq (narg : ℕ) : nargs narg = narg - 2 := by
  unfold nargs
  split
  · rfl
  · omega

theorem Caller.Holds.offers {caller : Caller} {L : Stack} (holds : caller.Holds L) :
    Offers L caller.base (nargs (caller.narg L)) := by
  have fits := holds.fits
  refine ⟨fits, fun some => ?_⟩
  rw [nargs_eq] at some ⊢
  cases caller with
  | task base =>
    simp only [Caller.base, Caller.narg] at fits some ⊢
    omega
  | awaitch w =>
    simp only [Caller.base, Caller.narg] at fits some ⊢
    omega
  | sync =>
    simp only [Caller.base, Caller.narg] at fits some ⊢
    omega

theorem ready_formatted {caller : Caller} {L L' : Stack} (holds : caller.Holds L)
    (ready : Ready (L.take caller.base) L') : Formatted caller L L' := by
  obtain ⟨results, rfl⟩ := ready
  refine ⟨results, rfl, fun function => ?_⟩
  have single : caller.base = 1 := by
    cases caller with
    | task base => exact absurd rfl (function base)
    | awaitch w => rfl
    | sync => rfl
  have below : (L.take caller.base).length = 1 := by
    rw [List.length_take, min_eq_left holds.fits, single]
  constructor
  · simp [index, below, Value.tointeger]
    omega
  · rw [returned, List.dropLast_concat, List.drop_left' below]

theorem Formatted.top {caller : Caller} {L before : Stack} {v : Value}
    (formatted : Formatted caller L (before ++ [v])) :
    ∃ results, v = .integer results.length ∧ before = L.take caller.base ++ results := by
  obtain ⟨results, same, -⟩ := formatted
  obtain ⟨rest, top⟩ := List.append_inj' same rfl
  exact ⟨results, by simpa using top, rest⟩

theorem brings_offers {L : Stack} {base : ℕ} {args : List Value} (brings : Brings L base args) :
    Offers L base args.length := by
  refine ⟨brings.side.fits, fun some => ?_⟩
  have room := brings.side.room (Or.inr (List.length_pos_iff.mp some))
  simpa using room

theorem unformatted {caller : Caller} {L before : Stack} {v : Value}
    (other : ∀ n, v ≠ .integer n) : ¬ Formatted caller L (before ++ [v]) := by
  intro formatted
  obtain ⟨results, top, -⟩ := formatted.top
  exact other results.length top

theorem moving_pushed {fault : Option Lack} {kept : ℕ} {rest pushed : List Value}
    (failed : moving fault kept rest = some pushed) :
    pushed = [] ∨ ∃ text, pushed = [.string text] := by
  unfold moving at failed
  split at failed
  · cases failed
    exact Or.inl rfl
  · cases failed
    exact Or.inr ⟨_, rfl⟩
  · cases failed
    exact Or.inr ⟨_, rfl⟩
  · cases failed

theorem pushfrom_pushed {fault : Option Lack} {v : Value} {idx : ℤ} {msg : String} {pushed : Stack}
    (failed : pushfrom fault v idx msg = .error pushed) :
    pushed = [] ∨ ∃ text, pushed = [.string text] := by
  by_cases space : fault = some .space
  · subst fault
    cases failed
    exact Or.inl rfl
  · exact Or.inr (pushfrom_error failed space)

/-- What cannot be moved to a state leaves no integer on top of it. -/
theorem movefrom_message {fault : Option Lack} {src cL : Stack} {n : ℕ}
    (failed : movefrom fault [.nil] src n "argument" = .error cL) :
    (∀ k, index cL cL.length ≠ .integer k) ∧
      moving fault (src.length - n) (src.drop (src.length - n)) ≠ none := by
  rw [movefrom_result fault [.nil] rfl] at failed
  split at failed
  · rename_i pushed failing
    rw [failing]
    refine ⟨?_, nofun⟩
    cases failed
    rcases moving_pushed failing with rfl | ⟨text, rfl⟩
    · simp [index]
    · simp [index]
  · cases failed

theorem unmoved_unformatted {caller : Caller} {fault : Option Lack} {v : Value} {L L' before : Stack}
    (other : ∀ n, v ≠ .integer n)
    (refused : (match pushfrom fault v (-1) "error" with
      | .error pushed => Except.error (before ++ [.boolean false] ++ pushed)
      | .ok v => .error (before ++ [.boolean false, v])) = (.error L' : Except Stack Stack)) :
    ¬ Formatted caller L L' := by
  split at refused
  · rename_i pushed failed
    cases refused
    rcases pushfrom_pushed failed with rfl | ⟨text, rfl⟩
    · rw [List.append_nil]
      exact unformatted nofun
    · exact unformatted nofun
  · rename_i w pushed
    obtain rfl := pushfrom_ok pushed
    cases refused
    rw [show before ++ [.boolean false, w] = before ++ [.boolean false] ++ [w] by simp]
    exact unformatted other

/-- When the state to wait with is refused, the number of the results is missing, unless an
error of the system has that number. -/
theorem armsynced_formatted {w : Arming} {L L' : Stack} (given : 1 ≤ L.length)
    (refused : armsynced w L = .error L') :
    Formatted (.awaitch w) L L' ↔ w.space = true ∧
      (nargs L.length = 0 ∨ moving w.move 2 (L.drop 2) = none) ∧ w.init = some (-2) := by
  have cut : settop L 1 = L.take 1 := settop_eq_take given
  have kept (some : nargs L.length > 0) : L.length - nargs L.length = 2 := by
    rw [nargs_eq] at some ⊢
    omega
  simp only [armsynced] at refused
  split at refused
  · rename_i noroom
    cases refused
    refine iff_of_false ?_ (by simp [noroom])
    rw [show settop L 1 ++ [.boolean false, .string "insufficient memory"] =
      settop L 1 ++ [.boolean false] ++ [Value.string "insufficient memory"] by simp]
    exact unformatted nofun
  · rename_i room
    split at refused
    · rename_i cL failed
      split at failed
      · rename_i some
        obtain ⟨message, stuck⟩ := movefrom_message failed
        rw [kept some] at stuck
        refine iff_of_false (unmoved_unformatted message refused) ?_
        rintro ⟨-, none | moved, -⟩
        · omega
        · exact stuck moved
      · cases failed
    · rename_i cL rest moved
      have moves : nargs L.length = 0 ∨ moving w.move 2 (L.drop 2) = none := by
        split at moved
        · rename_i some
          right
          change movefrom w.move [.nil] L (nargs L.length) "argument" = _ at moved
          rw [movefrom_result w.move [.nil] rfl, kept some] at moved
          split at moved
          · cases moved
          · rename_i none
            exact none
        · omega
      split at refused
      · cases refused
      · rename_i err init
        split at refused
        · cases refused
          rw [show settop L 1 ++ [.boolean false, .string w.message, .integer (-err)] =
            settop L 1 ++ [.boolean false, .string w.message] ++ [Value.integer (-err)] by simp]
          constructor
          · intro formatted
            obtain ⟨results, top, before⟩ := formatted.top
            have same : [.boolean false, .string w.message] = results := by
              rw [cut] at before
              exact List.append_cancel_left before
            have number : -err = 2 := by
              rw [← same] at top
              simpa using top
            refine ⟨by simpa using room, moves, ?_⟩
            rw [init, show err = -2 by omega]
          · rintro ⟨-, -, error⟩
            obtain rfl : err = -2 := by
              rw [init] at error
              exact Option.some.inj error
            apply ready_formatted (show (Caller.awaitch w).Holds L from given)
            exact ⟨[.boolean false, .string w.message], by rw [cut]; rfl⟩
        · cases refused

theorem unmatched_answer {faults : Faults} {sync : Sync Stack} {endpoint : Endpoint}
    {caller : Caller} {L L' : Stack}
    (none : ¬ (sync.queue ≠ [] ∧ sync.expected &&& endpoint.bits ≠ 0))
    (answered : (matchchsync faults sync endpoint caller L).2 = some L') :
    caller.getstate L = .error L' := by
  have suspends : ∃ sync' : Sync Stack,
      ChannelSync.matchchsync sync endpoint (caller.getstate L).toOption =
        sync'.suspend (caller.getstate L).toOption := by
    unfold ChannelSync.matchchsync
    split
    · exact ⟨_, rfl⟩
    · rename_i state queue waits
      rw [if_neg fun expected => none ⟨by simp [waits], expected⟩]
      exact ⟨_, rfl⟩
  obtain ⟨sync', suspends⟩ := suspends
  unfold matchchsync at answered
  rw [suspends] at answered
  cases state : caller.getstate L with
  | ok K =>
    rw [state] at answered
    cases answered
  | error K =>
    rw [state] at answered
    cases answered
    rfl

theorem matched_answer {faults : Faults} {sync : Sync Stack} {endpoint : Endpoint}
    {caller : Caller} {L L' : Stack}
    (found : sync.queue ≠ [] ∧ sync.expected &&& endpoint.bits ≠ 0)
    (answered : (matchchsync faults sync endpoint caller L).2 = some L') :
    ∃ state ∈ sync.queue,
      L' = (swapvalues faults L caller.base (nargs (caller.narg L)) state).1 := by
  obtain ⟨state, queue, waits⟩ := List.exists_cons_of_ne_nil found.1
  have matches_ : ChannelSync.matchchsync sync endpoint (caller.getstate L).toOption =
      ({ sync with queue := queue }, .matched state) := by
    unfold ChannelSync.matchchsync
    rw [waits]
    exact if_pos found.2
  unfold matchchsync at answered
  rw [matches_] at answered
  cases answered
  exact ⟨state, waits ▸ List.mem_cons_self, rfl⟩

/-- Whatever waits on the channel, a call that does not wait leaves its results with their number
on top exactly if it is matched, or is not of `system.awaitch`, or by the accident that the
error of the system has the number two. -/
theorem answer_formatted (faults : Faults) (sync : Sync Stack) (endpoint : Endpoint)
    (caller : Caller) (L L' : Stack) (holds : caller.Holds L)
    (offered : ∀ state ∈ sync.queue, ∃ K base args, Brings K base args ∧
      state = offer K base args.length)
    (answered : (matchchsync faults sync endpoint caller L).2 = some L') :
    Formatted caller L L' ↔ Answers sync endpoint L caller := by
  by_cases found : sync.queue ≠ [] ∧ sync.expected &&& endpoint.bits ≠ 0
  · obtain ⟨state, member, rfl⟩ := matched_answer found answered
    obtain ⟨K, base, args, brings, rfl⟩ := offered state member
    have ready := (ready_swapvalues faults holds.offers (brings_offers brings)).1
    refine iff_of_true (ready_formatted holds ready) ?_
    cases caller with
    | task b => trivial
    | awaitch w => exact Or.inl found
    | sync => trivial
  · have refused := unmatched_answer found answered
    cases caller with
    | task b => cases refused
    | awaitch w =>
      rw [armsynced_formatted holds refused]
      exact ⟨Or.inr, fun answers => answers.resolve_left found⟩
    | sync =>
      refine iff_of_true ?_ trivial
      cases refused
      apply ready_formatted holds
      exact ⟨[.boolean false, .string "empty"], by
        rw [cancelsuspension, settop_eq_take (show 1 ≤ L.length from holds)]
        simp [Caller.base]⟩

/-- `channel:sync` when the state of a channel waits with a value. -/
theorem answer_formatted_matched :
    (matchchsync Faults.none ⟨3, [offer [.nil, .integer 9] 0 1]⟩ .any .sync
        [.object "channel" 0, .nil, .integer 5]).2 =
      some [.object "channel" 0, .boolean true, .integer 9, .integer 2] ∧
    Formatted .sync [.object "channel" 0, .nil, .integer 5]
      [.object "channel" 0, .boolean true, .integer 9, .integer 2] := by
  refine ⟨rfl, (answer_formatted Faults.none ⟨3, [offer [.nil, .integer 9] 0 1]⟩ .any .sync _ _
    (by simp [Caller.Holds]) ?_ rfl).mpr trivial⟩
  intro state waits
  exact ⟨_, 0, [.integer 9], .channel .nil [.integer 9], List.mem_singleton.mp waits⟩

theorem answer_unformatted :
    (matchchsync Faults.none Sync.new .any (.awaitch ⟨false, none, none, none, ""⟩)
        [.object "channel" 0, .nil, .integer 5]).2 =
      some [.object "channel" 0, .boolean false, .string "insufficient memory"] ∧
    returned [.object "channel" 0, .boolean false, .string "insufficient memory"] =
      [.boolean false] ∧
    ¬ Formatted (.awaitch ⟨false, none, none, none, ""⟩) [.object "channel" 0, .nil, .integer 5]
      [.object "channel" 0, .boolean false, .string "insufficient memory"] := by
  refine ⟨rfl, rfl, ?_⟩
  exact @unformatted _ _ [.object "channel" 0, .boolean false] _ nofun

end Coutil.ChannelAnswer
