import Coutil.OperationStates

set_option autoImplicit false

/-! The operations of a coroutine of which only those on an async handle, of `system.awaitch`, have
a function to cancel them: no request is left to be cleaned up, and an async handle is waited on,
or was canceled too late, only as `system.awaitch` left it. -/
namespace Coutil.AwaitOperation
open Operation OperationStates

variable {V W : Type}

/-- The coroutine waits on an async handle with these values on its stack, or its cancel function
answered that the callback is still needed. -/
inductive Hold (V : Type) where
  | none
  | waits (stack : List V)
  | canceled

def hold (u : State V W) : Hold V :=
  if u.op.flags.cleanup then .canceled
  else
    match u.op.kind, u.place with
    | .handle .async false, .endop stack => .waits stack
    | _, _ => .none

/-- What is held once a setup function for the target ended so. -/
def Hold.of : Target → Setup V → Hold V
  | .handle .async, .armed stack => .waits stack
  | _, _ => .none

/-- Only `system.awaitch` has a function to cancel its operation. -/
def Owned (awaitch : Client V W) : Target → Option (W → List V → Bool) → Prop
  | .handle .async, cancel => cancel = awaitch.cancel
  | _, cancel => cancel = none

def Kind.target : Kind → Target
  | .request _ => .request
  | .handle type _ => .handle type

/-- The call that the coroutine is suspended in is of `system.awaitch`, or it has no function to
cancel the operation. -/
def Suspended (awaitch : Client V W) (kind : Kind) (cancel : Option (W → List V → Bool)) :
    Place V W → Prop
  | .endop _ => Owned awaitch (Kind.target kind) cancel
  | .resetop target setup _ => Owned awaitch target cancel ∧
      (target = .handle .async → setup = awaitch.setup)
  | _ => True

structure Plain (awaitch : Client V W) (u : State V W) : Prop where
  request : (u.op.flags.request && u.op.flags.cleanup) = false
  suspended : Suspended awaitch u.op.kind u.cancel u.place

variable {awaitch : Client V W}

theorem plain_init : Plain awaitch (State.init : State V W) :=
  ⟨rfl, trivial⟩

/-- A coroutine that is not suspended in `k_endop` waits on no async handle. -/
theorem hold_away {u : State V W} (away : ∀ stack, u.place ≠ .endop stack) :
    hold u = if u.op.flags.cleanup then .canceled else .none := by
  unfold hold
  split_ifs
  · rfl
  · split
    · rename_i stack kind place
      exact absurd place (away stack)
    · rfl

variable {u v : State V W} {context : Context} {w : W} {target : Target}

theorem startop_hold (free : Free u context) (owned : Owned awaitch target u.cancel)
    (outcome : Setup V) (started : u.startop context target outcome = .ok v) :
    hold v = .of target outcome ∧ Plain awaitch v := by
  obtain ⟨op_eq, away⟩ := free
  obtain ⟨op, results, cancel, place, calls, acts, log⟩ := u
  obtain rfl : op = _ := op_eq
  cases outcome with
  | error =>
    cases started
    exact ⟨by cases target with | request => rfl | handle type => cases type <;> rfl, rfl, trivial⟩
  | results values =>
    cases started
    exact ⟨by cases target with | request => rfl | handle type => cases type <;> rfl, rfl, trivial⟩
  | armerror values =>
    cases target with
    | request =>
      cases started
      exact ⟨rfl, rfl, trivial⟩
    | handle type =>
      cases started
      exact ⟨by cases type <;> rfl, rfl, trivial⟩
  | armedresults values =>
    cases target with
    | request =>
      cases started
      exact ⟨rfl, rfl, trivial⟩
    | handle type =>
      cases started
      exact ⟨by cases type <;> rfl, rfl, trivial⟩
  | armed stack =>
    cases context with
    | incohdl => exact absurd rfl away
    | _ =>
      cases target with
      | request =>
        cases started
        exact ⟨rfl, rfl, owned⟩
      | handle type =>
        cases started
        exact ⟨by cases type <;> rfl, rfl, owned⟩

theorem startsame_hold {type : HandleType} {act : ℕ}
    (op : u.op = ⟨⟨false, false, false, false⟩, .handle type false, true, 1, asyncs type,
      .handle act⟩) (owned : Owned awaitch (.handle type) u.cancel) (outcome : Setup V)
    (started : u.startsame .incohdl outcome = .ok v) :
    hold v = .of (.handle type) outcome ∧ Plain awaitch v := by
  obtain ⟨op', results, cancel, place, calls, acts, log⟩ := u
  obtain rfl : op' = _ := op
  cases outcome with
  | armed stack =>
    cases started
    exact ⟨by cases type <;> rfl, rfl, owned⟩
  | _ =>
    cases started
    exact ⟨by cases type <;> rfl, rfl, trivial⟩

/-- What is held once a coroutine that waited with this stack was resumed explicitly. -/
def Hold.halted (awaitch : Client V W) (w : W) (values : List V) : Hold V → Hold V
  | .waits stack =>
    match awaitch.cancel with
    | some cancel => if cancel w (stack ++ values) then .none else .canceled
    | Option.none => .none
  | held => held

/-- What is held once the operation is free and a call that waits for it goes on. -/
def restarted (u : State V W) (w : W) : Hold V :=
  match u.place with
  | .resetop target setup stack => .of target (setup w true stack)
  | _ => .none

/-- What is held after an action, by what was held before it. -/
def held (awaitch : Client V W) (u : State V W) : Act V W → Hold V
  | .call target client w stack =>
    match (u.op.checkreset target).1 with
    | .waitop => hold u
    | .freeop => .of target (client.setup w true stack)
    | .sameop => .of target (client.setup w false stack)
  | .resume w values => (hold u).halted awaitch w values
  | .requestcb w _ | .closecb w => restarted u w
  | .handlecb _ _ => .none
  | .yield | .finish => hold u

theorem call_hold {client : Client V W} {stack : List V} (valid : Inv u) (plain : Plain awaitch u)
    (place : u.place = .running context) (owned : Owned awaitch target client.cancel)
    (setup : target = .handle .async → client.setup = awaitch.setup)
    (called : u.resetop context target client w stack = .ok v) :
    hold v = held awaitch u (.call target client w stack) ∧
      ((u.op.checkreset target).1 ≠ .waitop → hold u = .none) ∧ Plain awaitch v := by
  obtain ⟨op, results, cancel, place', calls, acts, log⟩ := u
  obtain rfl : place' = .running context := place
  cases valid with
  | freed away =>
    have outside : context = .outside := by
      cases context with
      | outside => rfl
      | _ => simp [OperationStates.away] at away
    subst outside
    have started := startop_hold (u := (⟨freeop false, client.results, client.cancel,
      .running .outside, calls + 1, acts, .began (calls + 1) client stack :: log⟩ :
      State V W)) ⟨rfl, by simp⟩ owned _ called
    exact ⟨started.1, fun _ => rfl, started.2⟩
  | completedRequest =>
    have started := startop_hold (u := (⟨freeop true, client.results, client.cancel,
      .running .incoreq, calls + 1, acts, .began (calls + 1) client stack :: log⟩ :
      State V W)) ⟨rfl, by simp⟩ owned _ called
    exact ⟨started.1, fun _ => rfl, started.2⟩
  | canceledRequest c act away =>
    obtain rfl : c = false := by simpa using plain.request
    cases context with
    | incohdl => simp [OperationStates.away] at away
    | _ =>
      cases called
      exact ⟨rfl, fun waits => absurd rfl waits, rfl, owned, setup⟩
  | completedHandle type act =>
    by_cases same : target = .handle type ∧ type.given = some type
    · obtain ⟨rfl, given⟩ := same
      have check : Op.checkreset ⟨⟨false, false, false, false⟩, .handle type false, true, 1,
          asyncs type, .handle act⟩ (.handle type) = (.sameop, ⟨⟨false, false, false, false⟩,
            .handle type false, true, 1, asyncs type, .handle act⟩) := by
        simp [Op.checkreset, Kind.isClosing, given]
      simp only [State.resetop, State.note, check] at called
      have started := startsame_hold (u := (⟨⟨⟨false, false, false, false⟩, .handle type false, true,
        1, asyncs type, .handle act⟩, client.results, client.cancel, .running .incohdl, calls + 1,
        acts, .began (calls + 1) client stack :: log⟩ : State V W)) rfl owned _ called
      refine ⟨?_, fun _ => by cases type <;> rfl, started.2⟩
      simp only [held, check]
      exact started.1
    · have check : Op.checkreset ⟨⟨false, false, false, false⟩, .handle type false, true, 1,
          asyncs type, .handle act⟩ target = (.waitop, ⟨⟨false, false, false, false⟩,
            .handle type true, true, 1, asyncs type - asyncs type, .closing act⟩) := by
        cases target with
        | request => rfl
        | handle given =>
          have other : given.given ≠ some type := by
            intro same'
            obtain rfl : given = type := by
              cases given <;> simp [HandleType.given] at same' <;> exact same'
            exact same ⟨rfl, same'⟩
          simp [Op.checkreset, Kind.isClosing, other, Op.closehdl, Uv.act]
      simp only [State.resetop, State.note, check] at called
      cases called
      refine ⟨?_, fun waits => absurd (congrArg Prod.fst check) waits, rfl, owned, setup⟩
      simp only [held, check]
      cases type <;> rfl
  | canceledHandle act away =>
    cases context with
    | outside =>
      cases called
      exact ⟨rfl, fun waits => absurd rfl waits, rfl, owned, setup⟩
    | _ => simp [OperationStates.away] at away
  | closingHandle type act away =>
    cases context <;> cases called <;>
      exact ⟨by cases type <;> rfl, fun waits => absurd rfl waits, rfl, owned, setup⟩

theorem leave_hold {place : Place V W} (valid : Inv u) (plain : Plain awaitch u)
    (runs : u.place = .running context) (away : ∀ contexts, OperationStates.away contexts place)
    (left : u.leave context place = .ok v) : hold v = hold u ∧ Plain awaitch v := by
  have free : ∀ stack, place ≠ .endop stack := by
    rintro stack rfl
    exact away []
  have suspended : ∀ kind cancel, Suspended awaitch kind cancel place := by
    intro kind cancel
    cases place with
    | endop stack => exact absurd rfl (free stack)
    | resetop target setup stack => exact (away []).elim
    | _ => trivial
  obtain ⟨op, results, cancel, place', calls, acts, log⟩ := u
  obtain rfl : place' = .running context := runs
  have before := hold_away (u := (⟨op, results, cancel, .running context, calls, acts, log⟩ :
    State V W)) nofun
  rw [before]
  cases valid with
  | freed h =>
    cases context with
    | outside =>
      cases left
      exact ⟨hold_away free, rfl, suspended _ _⟩
    | _ => simp [OperationStates.away] at h
  | completedRequest =>
    cases left
    exact ⟨hold_away free, rfl, suspended _ _⟩
  | canceledRequest c act h =>
    cases context with
    | incohdl => simp [OperationStates.away] at h
    | _ =>
      cases left
      exact ⟨hold_away free, plain.request, suspended _ _⟩
  | completedHandle type act =>
    cases left
    exact ⟨hold_away free, rfl, suspended _ _⟩
  | canceledHandle act h =>
    cases context with
    | outside =>
      cases left
      exact ⟨hold_away free, rfl, suspended _ _⟩
    | _ => simp [OperationStates.away] at h
  | closingHandle type act h =>
    cases context <;> cases left <;> exact ⟨hold_away free, rfl, suspended _ _⟩

theorem k_endophalted_hold {stack values : List V} (valid : Inv u) (plain : Plain awaitch u)
    (place : u.place = .endop stack) (halted : u.k_endophalted w stack values = .ok v) :
    hold v = (hold u).halted awaitch w values ∧ Plain awaitch v := by
  obtain ⟨op, results, cancel, place', calls, acts, log⟩ := u
  obtain rfl : place' = .endop stack := place
  cases valid with
  | freed h => exact h.elim
  | canceledRequest c act h => exact h.elim
  | canceledHandle act h => exact h.elim
  | closingHandle type act h => exact h.elim
  | awaitingRequest act stack =>
    obtain rfl : cancel = none := plain.suspended
    cases halted
    exact ⟨rfl, rfl, trivial⟩
  | awaitingHandle type act stack h =>
    have owned : Owned awaitch (.handle type) cancel := plain.suspended
    cases type with
    | async =>
      obtain rfl : cancel = awaitch.cancel := owned
      cases given : awaitch.cancel with
      | none =>
        simp only [State.k_endophalted, given] at halted
        cases halted
        refine ⟨?_, rfl, trivial⟩
        change Hold.none = Hold.halted awaitch w values (.waits stack)
        simp only [Hold.halted, given]
      | some cancel =>
        simp only [State.k_endophalted, given] at halted
        cases answer : cancel w (stack ++ values) with
        | true =>
          rw [answer] at halted
          cases halted
          refine ⟨?_, rfl, trivial⟩
          change Hold.none = Hold.halted awaitch w values (.waits stack)
          simp only [Hold.halted, given, answer, if_true]
        | false =>
          rw [answer] at halted
          cases halted
          refine ⟨?_, rfl, trivial⟩
          change Hold.canceled = Hold.halted awaitch w values (.waits stack)
          simp only [Hold.halted, given, answer, Bool.false_eq_true, if_false]
    | _ =>
      obtain rfl : cancel = none := owned
      cases halted
      exact ⟨rfl, rfl, trivial⟩

theorem k_resetopkhalted_hold {setup : W → Bool → List V → Setup V} {stack values : List V}
    (valid : Inv u) (plain : Plain awaitch u) (place : u.place = .resetop target setup stack)
    (halted : u.k_resetopkhalted values = .ok v) :
    hold v = (hold u).halted awaitch w values ∧ Plain awaitch v := by
  obtain ⟨op, results, cancel, place', calls, acts, log⟩ := u
  obtain rfl : place' = .resetop target setup stack := place
  cases valid with
  | freed h => exact h.elim
  | canceledRequest c act h => exact h.elim
  | canceledHandle act h => exact h.elim
  | closingHandle type act h => exact h.elim
  | resetingRequest c act target setup stack h =>
    obtain rfl : c = false := by simpa using plain.request
    cases halted
    exact ⟨rfl, rfl, trivial⟩
  | resetingCanceledHandle act target setup stack h =>
    cases halted
    exact ⟨rfl, rfl, trivial⟩
  | resetingClosedHandle type act target setup stack h =>
    cases halted
    exact ⟨by cases type <;> rfl, rfl, trivial⟩

theorem restart_hold {setup : W → Bool → List V → Setup V} {stack : List V}
    (plain : Plain awaitch u) (place : u.place = .resetop target setup stack)
    {op : Op} {log : List (Entry V W)} (free : op = freeop true)
    (started : State.startop { u with op := op, log := log } .incoreq target (setup w true stack) =
      .ok v) : hold v = restarted u w ∧ Plain awaitch v := by
  have owned : Owned awaitch target u.cancel := by
    have suspended := plain.suspended
    rw [place] at suspended
    exact suspended.1
  have ready : Free { u with op := op, log := log } .incoreq := ⟨by simpa using free, by simp⟩
  have starts := startop_hold ready owned _ started
  refine ⟨?_, starts.2⟩
  rw [starts.1, restarted, place]

theorem requestcb_hold {act : ℕ} {values : List V} (valid : Inv u) (plain : Plain awaitch u)
    (uv : u.op.uv = .request act) (loops : u.place.loops = true)
    (called : u.requestcb w act values = .ok v) :
    hold u = .none ∧ hold v = restarted u w ∧ Plain awaitch v := by
  obtain ⟨op, results, cancel, place, calls, acts, log⟩ := u
  cases valid with
  | freed h => cases uv
  | completedRequest => cases uv
  | awaitingHandle type act' stack h => cases uv
  | completedHandle type act' => cases uv
  | canceledHandle act' h => cases uv
  | resetingCanceledHandle act' target setup stack h => cases uv
  | closingHandle type act' h => cases uv
  | resetingClosedHandle type act' target setup stack h => cases uv
  | awaitingRequest act' stack =>
    cases called
    exact ⟨rfl, rfl, rfl, trivial⟩
  | canceledRequest c act' h =>
    obtain rfl : c = false := by simpa using plain.request
    have free : ∀ stack, place ≠ .endop stack := by
      rintro stack rfl
      exact h
    have suspended : ∀ kind, Suspended awaitch kind cancel place := by
      intro kind
      cases place with
      | endop stack => exact absurd rfl (free stack)
      | resetop target setup stack => exact h.elim
      | _ => trivial
    cases called
    refine ⟨hold_away free, ?_, rfl, suspended _⟩
    cases place with
    | endop stack => exact absurd rfl (free stack)
    | resetop target setup stack => exact h.elim
    | _ => rfl
  | resetingRequest c act' target setup stack h =>
    obtain rfl : c = false := by simpa using plain.request
    exact ⟨rfl, restart_hold plain rfl rfl called⟩

theorem resumed_hold (plain : Plain awaitch u) (runs : u.place = .yielded) :
    hold ({ u with place := .running .outside } : State V W) = hold u ∧
      Plain awaitch ({ u with place := .running .outside } : State V W) := by
  refine ⟨?_, plain.request, trivial⟩
  rw [hold_away (u := u) (by rw [runs]; simp), hold_away (by simp)]

theorem handlecb_hold {type : HandleType} {closing : Bool} {act : ℕ} {values : List V}
    (valid : Inv u) (uv : u.op.uv = .handle act) (kind : u.op.kind = .handle type closing)
    (loops : u.place.loops = true) (plain : Plain awaitch u)
    (called : u.handlecb w type act values = .ok v) : hold v = .none ∧ Plain awaitch v := by
  obtain ⟨op, results, cancel, place, calls, acts, log⟩ := u
  cases valid with
  | freed h => cases uv
  | completedRequest => cases uv
  | awaitingRequest act' stack => cases uv
  | canceledRequest c act' h => cases uv
  | resetingRequest c act' target setup stack h => cases uv
  | closingHandle type' act' h => cases uv
  | resetingClosedHandle type' act' target setup stack h => cases uv
  | completedHandle type' act' => cases loops
  | awaitingHandle type' act' stack h =>
    obtain ⟨rfl, -⟩ : type' = type ∧ false = closing := by simpa using kind
    cases type' <;> cases called <;> exact ⟨rfl, rfl, trivial⟩
  | canceledHandle act' h =>
    obtain ⟨rfl, -⟩ : HandleType.async = type ∧ false = closing := by simpa using kind
    cases called
    cases place with
    | endop stack => exact h.elim
    | resetop target setup stack => exact h.elim
    | _ => exact ⟨rfl, rfl, trivial⟩
  | resetingCanceledHandle act' target setup stack h =>
    obtain ⟨rfl, -⟩ : HandleType.async = type ∧ false = closing := by simpa using kind
    cases called
    exact ⟨rfl, rfl, plain.suspended⟩

theorem closecb_hold {act : ℕ} (valid : Inv u) (plain : Plain awaitch u)
    (uv : u.op.uv = .closing act) (called : u.closecb w act = .ok v) :
    hold u = .none ∧ hold v = restarted u w ∧ Plain awaitch v := by
  obtain ⟨op, results, cancel, place, calls, acts, log⟩ := u
  cases valid with
  | freed h => cases uv
  | completedRequest => cases uv
  | awaitingRequest act' stack => cases uv
  | canceledRequest c act' h => cases uv
  | resetingRequest c act' target setup stack h => cases uv
  | awaitingHandle type act' stack h => cases uv
  | completedHandle type act' => cases uv
  | canceledHandle act' h => cases uv
  | resetingCanceledHandle act' target setup stack h => cases uv
  | closingHandle type act' h =>
    cases called
    cases place with
    | endop stack => exact h.elim
    | resetop target setup stack => exact h.elim
    | _ => exact ⟨by cases type <;> rfl, rfl, rfl, trivial⟩
  | resetingClosedHandle type act' target setup stack h =>
    obtain ⟨restarts, plain⟩ := restart_hold plain rfl rfl called
    exact ⟨by cases type <;> rfl, restarts, plain⟩

/-- Operations on an async handle are those of `system.awaitch`, and no other one has a function
to cancel it. -/
def Proper (awaitch : Client V W) : Act V W → Prop
  | .call target client _ _ => Owned awaitch target client.cancel ∧
      (target = .handle .async → client.setup = awaitch.setup)
  | _ => True

theorem plain_harmless (valid : Inv u) (plain : Plain awaitch u) {a : Act V W} {r : Except Site _}
    (stepped : Operation.Step u a r) : Harmless u a := by
  cases stepped with
  | requestcb uv loops =>
    rintro ⟨-, cleanup⟩
    have requested : u.op.flags.request = true := by
      obtain ⟨op, results, cancel, place, calls, acts, log⟩ := u
      cases valid <;> first | rfl | cases uv
    have request := plain.request
    rw [requested, cleanup] at request
    cases request
  | _ => trivial

theorem step_hold {a : Act V W} (valid : Inv u) (plain : Plain awaitch u)
    (proper : Proper awaitch a) (stepped : step u a = some (.ok v)) :
    hold v = held awaitch u a ∧ Plain awaitch v := by
  have halts {place : Place V W} (other : u.place = place) (free : ∀ stack, place ≠ .endop stack)
      (w : W) (values : List V) : (hold u).halted awaitch w values = hold u := by
    rw [hold_away (u := u) (by rw [other]; exact free)]
    split_ifs <;> rfl
  generalize result : Except.ok v = r at stepped
  cases step_cases stepped with
  | call place allowed =>
    obtain ⟨called, -, plain⟩ := call_hold valid plain place proper.1 proper.2 result.symm
    exact ⟨called, plain⟩
  | yield place => exact leave_hold valid plain place (fun _ => by trivial) result.symm
  | finish place => exact leave_hold valid plain place (fun _ => by trivial) result.symm
  | resume place =>
    cases result
    obtain ⟨same, plain⟩ := resumed_hold plain place
    exact ⟨same.trans (halts place (by simp) _ _).symm, plain⟩
  | endop place =>
    exact k_endophalted_hold (u := u.note _) valid ⟨plain.request, plain.suspended⟩ place result.symm
  | resetop place =>
    exact k_resetopkhalted_hold (u := u.note _) valid ⟨plain.request, plain.suspended⟩ place
      result.symm
  | requestcb uv loops =>
    exact (requestcb_hold valid plain uv loops result.symm).2
  | handlecb uv kind loops => exact handlecb_hold valid uv kind loops plain result.symm
  | closecb uv loops => exact (closecb_hold valid plain uv result.symm).2

theorem waits_suspended {stack : List V} (valid : Inv u) (waits : hold u = .waits stack) :
    u.place = .endop stack ∧ u.op.flags.pending = true ∧ u.op.flags.cleanup = false := by
  obtain ⟨op, results, cancel, place, calls, acts, log⟩ := u
  cases valid with
  | awaitingHandle type act stack' h =>
    cases type with
    | async =>
      cases waits
      exact ⟨rfl, rfl, rfl⟩
    | _ => cases waits
  | awaitingRequest act stack' => cases waits
  | completedRequest => cases waits
  | completedHandle type act => cases type <;> cases waits
  | canceledHandle act h => cases waits
  | resetingCanceledHandle act target setup stack' h => cases waits
  | resetingClosedHandle type act target setup stack' h => cases type <;> cases waits
  | resetingRequest c act target setup stack' h => cases c <;> cases waits
  | freed h => cases place <;> cases waits
  | canceledRequest c act h => cases c <;> cases place <;> cases waits
  | closingHandle type act h => cases type <;> cases place <;> cases waits

theorem waits_cancel {stack : List V} (valid : Inv u) (plain : Plain awaitch u)
    (waits : hold u = .waits stack) : u.cancel = awaitch.cancel := by
  have suspended := plain.suspended
  rw [(waits_suspended valid waits).1] at suspended
  unfold hold at waits
  split at waits
  · cases waits
  · split at waits
    · rename_i kind found
      rw [kind] at suspended
      exact suspended
    · cases waits

theorem canceled_flags : hold u = .canceled ↔ u.op.flags.cleanup = true := by
  unfold hold
  split_ifs with cleanup
  · exact ⟨fun _ => cleanup, fun _ => rfl⟩
  · refine ⟨fun canceled => ?_, fun set => absurd set cleanup⟩
    split at canceled <;> cases canceled

/-- Only a coroutine that waits on an async handle has a function to cancel its operation. -/
theorem cancel_waits {stack : List V} {cancel : W → List V → Bool} (valid : Inv u)
    (plain : Plain awaitch u) (place : u.place = .endop stack) (given : u.cancel = some cancel) :
    hold u = .waits stack := by
  have suspended := plain.suspended
  obtain ⟨op, results, cancel', place', calls, acts, log⟩ := u
  obtain rfl : place' = .endop stack := place
  obtain rfl : cancel' = some cancel := given
  cases valid with
  | freed h => exact h.elim
  | canceledRequest c act h => exact h.elim
  | canceledHandle act h => exact h.elim
  | closingHandle type act h => exact h.elim
  | awaitingRequest act stack => cases suspended
  | awaitingHandle type act stack h =>
    cases type with
    | async => rfl
    | _ => cases suspended

theorem resetop_pending {setup : W → Bool → List V → Setup V} {stack : List V} (valid : Inv u)
    (place : u.place = .resetop target setup stack) : u.op.flags.pending = true := by
  obtain ⟨op, results, cancel, place', calls, acts, log⟩ := u
  obtain rfl : place' = .resetop target setup stack := place
  cases valid with
  | freed h => exact h.elim
  | canceledRequest c act h => exact h.elim
  | canceledHandle act h => exact h.elim
  | closingHandle type act h => exact h.elim
  | _ => rfl

/-- Nothing is held by an operation on another handle. -/
theorem other_hold {type : HandleType} {closing : Bool} {act : ℕ} (valid : Inv u)
    (kind : u.op.kind = .handle type closing) (other : type ≠ .async)
    (uv : u.op.uv = .handle act) : hold u = .none := by
  obtain ⟨op, results, cancel, place, calls, acts, log⟩ := u
  cases valid with
  | awaitingHandle type' act' stack h =>
    obtain ⟨rfl, -⟩ : type' = type ∧ false = closing := by simpa using kind
    cases type' with
    | async => exact absurd rfl other
    | _ => rfl
  | completedHandle type' act' => cases type' <;> rfl
  | canceledHandle act' h =>
    obtain ⟨rfl, -⟩ : HandleType.async = type ∧ false = closing := by simpa using kind
    exact absurd rfl other
  | resetingCanceledHandle act' target setup stack h =>
    obtain ⟨rfl, -⟩ : HandleType.async = type ∧ false = closing := by simpa using kind
    exact absurd rfl other
  | _ => cases uv

end Coutil.AwaitOperation
