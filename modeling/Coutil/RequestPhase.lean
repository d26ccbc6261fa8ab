import Coutil.AwaitOperation

set_option autoImplicit false

/-! Whether libuv has a request of an operation and what the coroutine waits for, after each action
on the operation: a setup function arms the request, a callback ends it, and an explicit resume
leaves it in flight. -/
namespace Coutil.RequestPhase
open Operation OperationStates AwaitOperation

variable {V W : Type}

def flying (o : Op) : Bool :=
  match o.uv with
  | .request _ => true
  | _ => false

inductive Wait (V W : Type) where
  | none
  | endop (stack : List V)
  | resetop (target : Target) (setup : W → Bool → List V → Setup V) (stack : List V)

def wait : Place V W → Wait V W
  | .endop stack => .endop stack
  | .resetop target setup stack => .resetop target setup stack
  | _ => .none

structure Phase (V W : Type) where
  flying : Bool
  wait : Wait V W

def phase (u : State V W) : Phase V W := ⟨flying u.op, wait u.place⟩

/-- Once a setup function for the target ended so. -/
def Phase.of : Target → Setup V → Phase V W
  | .request, .armed stack => ⟨true, .endop stack⟩
  | .request, .armedresults _ => ⟨true, .none⟩
  | .handle _, .armed stack => ⟨false, .endop stack⟩
  | _, _ => ⟨false, .none⟩

/-- Once the operation is free and a call that waits for it goes on. -/
def restarted (u : State V W) (w : W) : Phase V W :=
  match u.place with
  | .resetop target setup stack => .of target (setup w true stack)
  | _ => ⟨false, .none⟩

/-- After an action. -/
def phased (u : State V W) : Act V W → Phase V W
  | .call target client w stack =>
    match (u.op.checkreset target).1 with
    | .waitop => ⟨flying u.op, .resetop target client.setup stack⟩
    | .freeop => .of target (client.setup w true stack)
    | .sameop => .of target (client.setup w false stack)
  | .yield | .finish | .resume _ _ => ⟨flying u.op, .none⟩
  | .requestcb w _ | .closecb w => restarted u w
  | .handlecb _ _ =>
    match u.place with
    | .endop _ => ⟨false, .none⟩
    | place => ⟨false, wait place⟩

variable {u v : State V W} {context : Context} {w : W} {target : Target}

theorem startop_phase (free : Free u context) (outcome : Setup V)
    (started : u.startop context target outcome = .ok v) : phase v = .of target outcome := by
  obtain ⟨op_eq, away⟩ := free
  obtain ⟨op, results, cancel, place, calls, acts, log⟩ := u
  obtain rfl : op = _ := op_eq
  cases outcome with
  | armed stack =>
    cases context with
    | incohdl => exact absurd rfl away
    | _ => cases target <;> cases started <;> rfl
  | _ => cases target <;> cases started <;> rfl

theorem startsame_phase {type : HandleType} {act : ℕ}
    (op : u.op = ⟨⟨false, false, false, false⟩, .handle type false, true, 1, asyncs type,
      .handle act⟩) (outcome : Setup V) (started : u.startsame .incohdl outcome = .ok v) :
    phase v = .of (.handle type) outcome := by
  obtain ⟨op', results, cancel, place, calls, acts, log⟩ := u
  obtain rfl : op' = _ := op
  cases outcome <;> cases started <;> rfl

theorem restart_phase {setup : W → Bool → List V → Setup V} {stack : List V}
    (place : u.place = .resetop target setup stack) {op : Op} {log : List (Entry V W)}
    (free : op = freeop true)
    (started : State.startop { u with op := op, log := log } .incoreq target (setup w true stack) =
      .ok v) : phase v = restarted u w := by
  have ready : Free { u with op := op, log := log } .incoreq := ⟨by simpa using free, by simp⟩
  have starts := startop_phase ready _ started
  rw [starts, restarted, place]

theorem call_phase {client : Client V W} {stack : List V} (valid : Inv u)
    (place : u.place = .running context)
    (called : u.resetop context target client w stack = .ok v) :
    phase v = phased u (.call target client w stack) ∧
      ((u.op.checkreset target).1 ≠ .waitop → flying u.op = false) := by
  obtain ⟨op, results, cancel, place', calls, acts, log⟩ := u
  obtain rfl : place' = .running context := place
  cases valid with
  | freed away =>
    have outside : context = .outside := by
      cases context with
      | outside => rfl
      | _ => simp [OperationStates.away] at away
    subst outside
    have started := startop_phase (u := (⟨freeop false, client.results, client.cancel,
      .running .outside, calls + 1, acts, .began (calls + 1) client stack :: log⟩ :
      State V W)) ⟨rfl, by simp⟩ _ called
    exact ⟨started, fun _ => rfl⟩
  | completedRequest =>
    have started := startop_phase (u := (⟨freeop true, client.results, client.cancel,
      .running .incoreq, calls + 1, acts, .began (calls + 1) client stack :: log⟩ :
      State V W)) ⟨rfl, by simp⟩ _ called
    exact ⟨started, fun _ => rfl⟩
  | canceledRequest c act away =>
    cases context with
    | incohdl => simp [OperationStates.away] at away
    | _ =>
      cases called
      exact ⟨rfl, fun waits => absurd rfl waits⟩
  | completedHandle type act =>
    refine ⟨?_, fun _ => rfl⟩
    simp only [State.resetop, State.note] at called
    rcases check : Op.checkreset ⟨⟨false, false, false, false⟩, .handle type false, true, 1,
      asyncs type, .handle act⟩ target with ⟨status, op⟩
    rw [check] at called
    simp only [phased, check]
    unfold Op.checkreset at check
    simp only [Bool.false_eq_true, if_false, Bool.not_false, Kind.isClosing, Bool.and_self,
      if_true] at check
    cases target with
    | request =>
      cases check
      cases called
      rfl
    | handle given =>
      simp only at check
      split_ifs at check with same
      · cases check
        have started := startsame_phase (u := (⟨⟨⟨false, false, false, false⟩,
          .handle type false, true, 1, asyncs type, .handle act⟩, client.results, client.cancel,
          .running .incohdl, calls + 1, acts, .began (calls + 1) client stack :: log⟩ :
          State V W)) rfl _ called
        have same_phase (outcome : Setup V) :
            (Phase.of (.handle type) outcome : Phase V W) = .of (.handle given) outcome := by
          cases outcome <;> rfl
        exact started.trans (same_phase _)
      · cases check
        cases called
        rfl
  | canceledHandle act away =>
    cases context with
    | outside =>
      cases called
      exact ⟨rfl, fun waits => absurd rfl waits⟩
    | _ => simp [OperationStates.away] at away
  | closingHandle type act away =>
    cases context <;> cases called <;> exact ⟨rfl, fun waits => absurd rfl waits⟩

theorem leave_phase {place : Place V W} (valid : Inv u) (runs : u.place = .running context)
    (away : ∀ contexts, OperationStates.away contexts place)
    (left : u.leave context place = .ok v) : phase v = ⟨flying u.op, .none⟩ := by
  have waits : wait place = .none := by
    cases place with
    | endop stack => exact (away []).elim
    | resetop target setup stack => exact (away []).elim
    | _ => rfl
  have ends (v : State V W) (there : v.place = place) : phase v = ⟨flying v.op, .none⟩ := by
    unfold phase
    rw [there, waits]
  obtain ⟨op, results, cancel, place', calls, acts, log⟩ := u
  obtain rfl : place' = .running context := runs
  cases valid with
  | freed h =>
    cases context with
    | outside =>
      cases left
      exact ends _ rfl
    | _ => simp [OperationStates.away] at h
  | completedRequest =>
    cases left
    exact ends _ rfl
  | canceledRequest c act h =>
    cases context with
    | incohdl => simp [OperationStates.away] at h
    | _ =>
      cases left
      exact ends _ rfl
  | completedHandle type act =>
    cases left
    exact ends _ rfl
  | canceledHandle act h =>
    cases context with
    | outside =>
      cases left
      exact ends _ rfl
    | _ => simp [OperationStates.away] at h
  | closingHandle type act h =>
    cases context <;> cases left <;> exact ends _ rfl

theorem k_endophalted_phase {stack values : List V} (valid : Inv u)
    (place : u.place = .endop stack) (halted : u.k_endophalted w stack values = .ok v) :
    phase v = ⟨flying u.op, .none⟩ := by
  obtain ⟨op, results, cancel, place', calls, acts, log⟩ := u
  obtain rfl : place' = .endop stack := place
  cases valid with
  | freed h => exact h.elim
  | canceledRequest c act h => exact h.elim
  | canceledHandle act h => exact h.elim
  | closingHandle type act h => exact h.elim
  | awaitingRequest act stack =>
    cases cancel with
    | none =>
      cases halted
      rfl
    | some cancel =>
      simp only [State.k_endophalted] at halted
      cases answer : cancel w (stack ++ values) with
      | true =>
        rw [answer] at halted
        cases halted
        rfl
      | false =>
        rw [answer] at halted
        cases halted
        rfl
  | awaitingHandle type act stack h =>
    cases cancel with
    | none =>
      cases halted
      rfl
    | some cancel =>
      simp only [State.k_endophalted] at halted
      cases answer : cancel w (stack ++ values) with
      | true =>
        rw [answer] at halted
        cases halted
        rfl
      | false =>
        rw [answer] at halted
        cases halted
        rfl

theorem k_resetopkhalted_phase {setup : W → Bool → List V → Setup V} {stack values : List V}
    (valid : Inv u) (place : u.place = .resetop target setup stack)
    (halted : u.k_resetopkhalted values = .ok v) : phase v = ⟨flying u.op, .none⟩ := by
  obtain ⟨op, results, cancel, place', calls, acts, log⟩ := u
  obtain rfl : place' = .resetop target setup stack := place
  cases valid with
  | freed h => exact h.elim
  | canceledRequest c act h => exact h.elim
  | canceledHandle act h => exact h.elim
  | closingHandle type act h => exact h.elim
  | _ =>
    cases halted
    rfl

variable {awaitch : Client V W}

theorem requestcb_phase {act : ℕ} {values : List V} (valid : Inv u) (plain : Plain awaitch u)
    (uv : u.op.uv = .request act) (called : u.requestcb w act values = .ok v) :
    phase v = restarted u w := by
  obtain ⟨op, results, cancel, place, calls, acts, log⟩ := u
  cases valid with
  | awaitingRequest act' stack =>
    cases called
    rfl
  | canceledRequest c act' h =>
    obtain rfl : c = false := by simpa using plain.request
    cases called
    cases place with
    | endop stack => exact h.elim
    | resetop target setup stack => exact h.elim
    | _ => rfl
  | resetingRequest c act' target setup stack h =>
    obtain rfl : c = false := by simpa using plain.request
    exact restart_phase rfl rfl called
  | _ => cases uv

theorem handlecb_phase {type : HandleType} {closing : Bool} {act : ℕ} {values : List V}
    (valid : Inv u) (uv : u.op.uv = .handle act) (kind : u.op.kind = .handle type closing)
    (loops : u.place.loops = true) (called : u.handlecb w type act values = .ok v) :
    phase v = phased u (.handlecb w values) := by
  obtain ⟨op, results, cancel, place, calls, acts, log⟩ := u
  cases valid with
  | completedHandle type' act' => cases loops
  | awaitingHandle type' act' stack h =>
    obtain ⟨rfl, -⟩ : type' = type ∧ false = closing := by simpa using kind
    cases type' <;> cases called <;> rfl
  | canceledHandle act' h =>
    obtain ⟨rfl, -⟩ : HandleType.async = type ∧ false = closing := by simpa using kind
    cases called
    cases place with
    | endop stack => exact h.elim
    | resetop target setup stack => exact h.elim
    | _ => rfl
  | resetingCanceledHandle act' target setup stack h =>
    obtain ⟨rfl, -⟩ : HandleType.async = type ∧ false = closing := by simpa using kind
    cases called
    rfl
  | _ => cases uv

theorem closecb_phase {act : ℕ} (valid : Inv u) (uv : u.op.uv = .closing act)
    (called : u.closecb w act = .ok v) : phase v = restarted u w := by
  obtain ⟨op, results, cancel, place, calls, acts, log⟩ := u
  cases valid with
  | closingHandle type act' h =>
    cases called
    cases place with
    | endop stack => exact h.elim
    | resetop target setup stack => exact h.elim
    | _ => rfl
  | resetingClosedHandle type act' target setup stack h => exact restart_phase rfl rfl called
  | _ => cases uv

theorem step_phase {a : Act V W} (valid : Inv u) (plain : Plain awaitch u)
    (stepped : step u a = some (.ok v)) : phase v = phased u a := by
  generalize result : Except.ok v = r at stepped
  cases step_cases stepped with
  | call place allowed => exact (call_phase valid place result.symm).1
  | yield place => exact leave_phase valid place (fun _ => by trivial) result.symm
  | finish place => exact leave_phase valid place (fun _ => by trivial) result.symm
  | resume place =>
    cases result
    rfl
  | endop place => exact k_endophalted_phase (u := u.note _) valid place result.symm
  | resetop place => exact k_resetopkhalted_phase (u := u.note _) valid place result.symm
  | requestcb uv loops => exact requestcb_phase valid plain uv result.symm
  | handlecb uv kind loops => exact handlecb_phase valid uv kind loops result.symm
  | closecb uv loops => exact closecb_phase valid uv result.symm

/-- A call whose setup function runs at once finds no request in flight. -/
theorem checkreset_flying (valid : Inv u) (starts : (u.op.checkreset target).1 ≠ .waitop) :
    flying u.op = false := by
  obtain ⟨op, results, cancel, place, calls, acts, log⟩ := u
  cases valid with
  | awaitingRequest act stack => exact absurd rfl starts
  | canceledRequest c act h => exact absurd rfl starts
  | resetingRequest c act target' setup stack h => exact absurd rfl starts
  | _ => rfl

/-- The operation of a suspended coroutine is pending, and of no other one. -/
theorem pending_iff (valid : Inv u) : u.op.flags.pending = true ↔
    (∃ stack, u.place = .endop stack) ∨
      ∃ target setup stack, u.place = .resetop target setup stack := by
  obtain ⟨op, results, cancel, place, calls, acts, log⟩ := u
  have running {contexts : List Context} (h : away contexts place) :
      ¬((∃ stack, place = .endop stack) ∨
        ∃ target setup stack, place = .resetop target setup stack) := by
    rintro (⟨stack, rfl⟩ | ⟨target, setup, stack, rfl⟩) <;> exact h
  cases valid with
  | freed h => simpa using running h
  | canceledRequest c act h => simpa using running h
  | canceledHandle act h => simpa using running h
  | closingHandle type act h => simpa using running h
  | awaitingRequest act stack => simp
  | awaitingHandle type act stack h => simp
  | completedRequest => simp
  | completedHandle type act => simp
  | resetingRequest c act target setup stack h => simp
  | resetingCanceledHandle act target setup stack h => simp
  | resetingClosedHandle type act target setup stack h => simp

end Coutil.RequestPhase
