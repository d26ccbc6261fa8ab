import Coutil.Runs
import Coutil.Census

set_option autoImplicit false

/-! The scheduler of a state: `lcuM_run` and `k_resumeall` of `src/lscheduf.c`, with the counters
of `src/loperaux.c` and `lcuU_checksuspend`. An iteration of `uv_run` has the callbacks of
events, and then those of the handles that were closed up to there; in any of them coroutines
start, end and cancel operations. -/
namespace Coutil.Scheduler
open Runs Census

inductive Mode where
  | loop
  | step
  | ready
  deriving DecidableEq

/-- An operation: a channel wait with its `uv_async_t`, one with another handle of the
coroutine, a request, an object that was started, and the handle of a coroutine that was
closed and has its callback still to come. A handle or an object is counted while a coroutine
waits on it, also when libuv has stopped it, so that it is not live. -/
inductive Active where
  | async
  | handle (live : Bool)
  | request
  | object (live : Bool)
  | closing
  deriving DecidableEq

def Active.live : Active → Bool
  | .handle live | .object live => live
  | _ => true

/-- `lcu_Scheduler` with the operations that are counted. -/
structure Sched where
  nasync : ℤ
  nactive : ℤ
  active : List Active

def Sched.new : Sched := ⟨0, 0, []⟩

/-- Where a call of `system.run` is: there is none, in the callbacks of events, in those of so
many closed handles of operations and of objects, or suspended with the `ChannelTask`. -/
inductive Phase where
  | away
  | polling
  | closing (operations objects : ℕ)
  | parked
  deriving DecidableEq

structure Call where
  mode : Mode
  suspendable : Bool
  values : ℕ
  halted : Bool

structure State where
  sched : Sched
  objects : ℕ
  channeltask : Bool
  stop : Bool
  phase : Phase
  call : Call

def initial : State where
  sched := .new
  objects := 0
  channeltask := false
  stop := false
  phase := .away
  call := ⟨.loop, false, 0, false⟩

def shallsuspend (sched : Sched) : Bool :=
  sched.nasync > 0 ∧ sched.nasync = sched.nactive

/-- `lcuT_armcoreq`, `lcuT_armcohdl`, and the starts of objects and their requests. -/
def Sched.arm (sched : Sched) (op : Active) : Sched where
  nasync := if op = .async then sched.nasync + 1 else sched.nasync
  nactive := sched.nactive + 1
  active := sched.active ++ [op]

def Sched.closehdl (sched : Sched) (i : ℕ) (op : Active) : Sched where
  nasync := if op = .async then sched.nasync - 1 else sched.nasync
  nactive := sched.nactive
  active := sched.active.set i .closing

/-- `lcuU_endcoreq`, `stopudhdl`, `lcuU_endudreq`, and `closedhdl`. -/
def Sched.ended (sched : Sched) (i : ℕ) : Sched where
  nasync := sched.nasync
  nactive := sched.nactive - 1
  active := sched.active.eraseIdx i

/-- A wait on a handle or an object that libuv has stopped or is to close: `k_setuptimer` with
the period of a timer that does not repeat, and `lcuT_resetudhdlk` without `start`. -/
def Sched.lapse (sched : Sched) (i : ℕ) (op : Active) : Sched :=
  { sched with active := sched.active.set i op }

/-- `lcuT_resetudhdlk` that starts an object again after the end of its data. -/
def Sched.startagain (sched : Sched) (i : ℕ) : Sched :=
  { sched with nactive := sched.nactive + 1, active := sched.active.set i (.object true) }

/-- `stopudhdl` of an object that was stopped since. -/
def Sched.stopagain (sched : Sched) : Sched :=
  { sched with nactive := sched.nactive - 1 }

def Sched.count (sched : Sched) (op : Active) : ℕ :=
  census id sched.active op

namespace State

def alive (s : State) : Bool :=
  s.sched.active.any Active.live ∨ s.objects ≠ 0

def leave (s : State) : State :=
  { s with
    stop := false
    phase := if s.call.suspendable ∧ s.alive ∧ s.call.values > 0 then .parked else .away }

def iterate (s : State) : State :=
  if s.alive ∧ ¬s.stop then { s with phase := .polling } else s.leave

def checksuspend (s : State) : State :=
  if shallsuspend s.sched ∧ s.channeltask then
    { s with
      stop := true
      call := { s.call with values := s.call.values + 1 } }
  else s

def k_resumeall (s : State) : State :=
  iterate { s with call := { s.call with values := 0 } }

/-- `lcuM_run` in a task or not, by a coroutine that can yield or not, and that is the one the
pool resumes or not. -/
def lcuM_run (task : Bool) (s : State) (mode : Mode) (yieldable chunk : Bool) : State :=
  let s : State := { s with call := ⟨mode, mode = .loop ∧ yieldable ∧ task ∧ chunk, 0, false⟩ }
  if s.call.suspendable ∧ shallsuspend s.sched then { s with phase := .parked }
  else if s.call.suspendable then s.k_resumeall
  else s.iterate

end State

inductive Act where
  | create
  | arm (op : Active)
  | closehdl (i : ℕ)
  | ended (i : ℕ)
  | lapse (i : ℕ)
  | startagain (i : ℕ)
  | stopagain
  | closeobject
  | run (mode : Mode) (yieldable chunk : Bool)
  | checksuspend
  | halt
  | turn
  | closedhdl (i : ℕ)
  | closedobject
  | iterate
  | resume
  deriving DecidableEq

/-- What the code of the state does to the scheduler. -/
def code (task : Bool) (s : State) : Act → Option State
  | .create => some { s with channeltask := s.channeltask || task }
  | .arm op =>
    if op ≠ .closing ∧ op.live then some { s with sched := s.sched.arm op } else none
  | .closehdl i =>
    match s.sched.active[i]? with
    | some .async => some { s with sched := s.sched.closehdl i .async }
    | some (.handle live) => some { s with sched := s.sched.closehdl i (.handle live) }
    | _ => none
  | .ended i =>
    match s.sched.active[i]? with
    | some .request => some { s with sched := s.sched.ended i }
    | some (.object _) => some { s with sched := s.sched.ended i }
    | _ => none
  | .lapse i =>
    match s.sched.active[i]? with
    | some (.handle _) => some { s with sched := s.sched.lapse i (.handle false) }
    | some (.object _) => some { s with sched := s.sched.lapse i (.object false) }
    | _ => none
  | .startagain i =>
    match s.sched.active[i]? with
    | some (.object _) => some { s with sched := s.sched.startagain i }
    | _ => none
  | .stopagain => some { s with sched := s.sched.stopagain }
  | .closeobject => some { s with objects := s.objects + 1 }
  | _ => none

def callback (s : State) : Act → Option State
  | .checksuspend => some s.checksuspend
  | .halt => some { s with stop := true, call := { s.call with halted := true } }
  | _ => none

/-- `task` tells whether the state is one of a task. -/
def step (task : Bool) (s : State) (act : Act) : Option State :=
  match s.phase, act with
  | .away, .run mode yieldable chunk => some (s.lcuM_run task mode yieldable chunk)
  | .away, act => code task s act
  | .polling, .turn => some { s with phase := .closing (s.sched.count .closing) s.objects }
  | .polling, act => (code task s act).or (callback s act)
  | .closing (n + 1) m, .closedhdl i =>
    match s.sched.active[i]? with
    | some .closing => some { s with sched := s.sched.ended i, phase := .closing n m }
    | _ => none
  | .closing n (m + 1), .closedobject =>
    some { s with objects := s.objects - 1, phase := .closing n m }
  | .closing 0 0, .iterate => some (if s.call.mode = .loop then s.iterate else s.leave)
  | .closing _ _, act => (code task s act).or (callback s act)
  | .parked, .resume => some s.k_resumeall
  | .parked, _ => none

def Phase.inside : Phase → Bool
  | .polling => true
  | .closing _ _ => true
  | _ => false

inductive Step (task : Bool) (s : State) : Act → State → Prop
  | code {a : Act} {s' : State} (active : s.phase ≠ .parked) (coded : code task s a = some s') :
      Step task s a s'
  | checksuspend (inside : s.phase.inside) : Step task s .checksuspend s.checksuspend
  | halt (inside : s.phase.inside) :
      Step task s .halt { s with stop := true, call := { s.call with halted := true } }
  | run {mode : Mode} {yieldable chunk : Bool} (away : s.phase = .away) :
      Step task s (.run mode yieldable chunk) (s.lcuM_run task mode yieldable chunk)
  | turn (polling : s.phase = .polling) :
      Step task s .turn { s with phase := .closing (s.sched.count .closing) s.objects }
  | closedhdl {i n m : ℕ} (closing : s.phase = .closing (n + 1) m)
      (at_i : s.sched.active[i]? = some .closing) :
      Step task s (.closedhdl i) { s with sched := s.sched.ended i, phase := .closing n m }
  | closedobject {n m : ℕ} (closing : s.phase = .closing n (m + 1)) :
      Step task s .closedobject { s with objects := s.objects - 1, phase := .closing n m }
  | iterate (closing : s.phase = .closing 0 0) :
      Step task s .iterate (if s.call.mode = .loop then s.iterate else s.leave)
  | resume (parked : s.phase = .parked) : Step task s .resume s.k_resumeall

theorem callback_cases {task : Bool} {s s' : State} {a : Act} (inside : s.phase.inside)
    (stepped : (code task s a).or (callback s a) = some s') : Step task s a s' := by
  have active : s.phase ≠ .parked := by
    intro parked
    simp [parked, Phase.inside] at inside
  obtain coded | ⟨-, called⟩ := Option.or_eq_some_iff.mp stepped
  · exact .code active coded
  · cases a with
    | checksuspend =>
      cases Option.some.inj called
      exact .checksuspend inside
    | halt =>
      cases Option.some.inj called
      exact .halt inside
    | _ => cases called

theorem step_cases {task : Bool} {s s' : State} {a : Act} (stepped : step task s a = some s') :
    Step task s a s' := by
  unfold step at stepped
  split at stepped
  · rename_i away
    cases Option.some.inj stepped
    exact .run away
  · rename_i away _
    exact .code (by simp [away]) stepped
  · rename_i polling
    cases Option.some.inj stepped
    exact .turn polling
  · rename_i polling _
    exact callback_cases (by simp [polling, Phase.inside]) stepped
  · rename_i closing
    split at stepped
    · rename_i at_i
      cases Option.some.inj stepped
      exact .closedhdl closing at_i
    · cases stepped
  · rename_i closing
    cases Option.some.inj stepped
    exact .closedobject closing
  · rename_i closing
    cases Option.some.inj stepped
    exact .iterate closing
  · rename_i closing _ _ _
    exact callback_cases (by simp [closing, Phase.inside]) stepped
  · rename_i parked
    cases Option.some.inj stepped
    exact .resume parked
  · cases stepped

end Coutil.Scheduler
