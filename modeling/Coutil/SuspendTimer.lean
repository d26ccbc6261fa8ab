import Coutil.OperationStates
import Mathlib.Algebra.Order.Floor.Ring

set_option autoImplicit false

/-! Function `system.suspend` of `src/ltimef.c`, with the timer of the operation of one coroutine.
A timer of libuv starts at the time of the loop, and starts again with its repeat before its
callback. -/
namespace Coutil.SuspendTimer
open Operation

/-- A timer without timeout is not active. -/
structure Timer where
  timeout : Option ℕ
  period : ℕ

def uv_timer_init : Timer := ⟨none, 0⟩

def uv_timer_stop (timer : Timer) : Timer := { timer with timeout := none }

def uv_timer_start (now timeout period : ℕ) (_ : Timer) : Timer := ⟨some (now + timeout), period⟩

def uv_timer_again (now : ℕ) (timer : Timer) : Timer :=
  if timer.period ≠ 0 then uv_timer_start now timer.period timer.period (uv_timer_stop timer)
  else timer

section
variable {V W : Type}

/-- What the arguments of a coroutine are in Lua. -/
structure Lua (V : Type) where
  tonumber : V → ℚ
  boolean : Bool → V

variable (lua : Lua V)

def delay (L : List V) : ℚ := (L.head?.map lua.tonumber).getD 0

def msecs (L : List V) : ℕ := ⌊delay lua L * 1000⌋.toNat

/-- There is a loop if the operation is to be armed. -/
def k_setuptimer (loop : Bool) (now : ℕ) (L : List V) (timer : Timer) : Timer :=
  if loop then uv_timer_start now (msecs lua L) (msecs lua L) uv_timer_init
  else if timer.period ≠ msecs lua L then
    uv_timer_start now (msecs lua L) (msecs lua L) (uv_timer_stop timer)
  else timer

/-- The setup function never fails, and `returntrue` gives the results. -/
def suspender : Client V W where
  setup := fun _ _ L => .armed L
  results := some fun _ _ => [lua.boolean true]
  cancel := none

/-- A call of `system.suspend`: the time of the loop, and its milliseconds. -/
structure Call where
  called : ℕ
  msecs : ℕ

structure State (V W : Type) where
  op : Operation.State V W
  timer : Timer
  now : ℕ
  /-- The last awaiting call, if it was one of `system.suspend`. -/
  call : Option Call
  /-- When `k_setuptimer` and the callback of the timer were last called. -/
  started : ℕ
  fired : ℕ

def init : State V W := ⟨.init, uv_timer_init, 0, none, 0, 0⟩

inductive Act (V W : Type) where
  | advance (now : ℕ)
  | suspend (w : W) (L : List V)
  | timercb (w : W)
  | other (act : Operation.Act V W)

def Op.opentimer (o : Op) : Bool := o.kind = .handle .timer false

/-- `uv_close` stops the timer. -/
def closed (o : Op) (timer : Timer) : Timer := if o.kind.isClosing then uv_timer_stop timer else timer

/-- The other functions of the module. Only `system.awaitch` gives a function to cancel. -/
def others (s : State V W) : Operation.Act V W → Bool
  | .call target client _ _ =>
    target ≠ .handle .timer ∧ (client.cancel.isSome → target = .handle .async)
  | .handlecb _ _ => ¬ Op.opentimer s.op.op
  | _ => true

/-- The end of one operation starts the next one. -/
def resets (s : State V W) (act : Operation.Act V W) : Option (List V) :=
  match s.op.place, act with
  | .resetop (.handle .timer) _ L, .requestcb _ _ => some L
  | .resetop (.handle .timer) _ L, .closecb _ => some L
  | _, _ => none

def suspend (s : State V W) (w : W) (L : List V) : Option (State V W) :=
  if delay lua L ≤ 0 ∨ 0xffffffffffffffff < delay lua L * 1000 then none
  else (Operation.next s.op (.call (.handle .timer) (suspender lua) w L)).map fun op =>
    let u := { s with op := op, call := some ⟨s.now, msecs lua L⟩ }
    match (s.op.op.checkreset (.handle .timer)).1 with
    | .freeop => { u with timer := k_setuptimer lua true s.now L s.timer, started := s.now }
    | .sameop => { u with timer := k_setuptimer lua false s.now L s.timer, started := s.now }
    | .waitop => { u with timer := closed op.op s.timer }

def timercb (s : State V W) (w : W) : Option (State V W) :=
  match s.timer.timeout with
  | some due =>
    if Op.opentimer s.op.op ∧ due ≤ s.now then
      (Operation.next s.op (.handlecb w [])).map fun op =>
        { s with op := op, timer := uv_timer_again s.now (uv_timer_stop s.timer), fired := s.now }
    else none
  | none => none

def other (s : State V W) (act : Operation.Act V W) : Option (State V W) :=
  if others s act then
    (Operation.next s.op act).map fun op =>
      let call := match act with
        | .call _ _ _ _ => none
        | _ => s.call
      match resets s act with
      | some L =>
        { s with
          op := op
          call := call
          timer := k_setuptimer lua true s.now L s.timer
          started := s.now }
      | none => { s with op := op, call := call, timer := closed op.op s.timer }
  else none

def next (s : State V W) : Act V W → Option (State V W)
  | .advance now => if s.now ≤ now then some { s with now := now } else none
  | .suspend w L => suspend lua s w L
  | .timercb w => timercb s w
  | .other act => other lua s act

end

end Coutil.SuspendTimer
