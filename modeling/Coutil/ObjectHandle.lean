import Coutil.Runs

set_option autoImplicit false

/-! The objects with a handle of their own: `stopudhdl`, `k_endudhdlk`, `lcuT_resetudhdlk`,
`lcuU_resumeudhdl` and `lcu_closeudhdl` of `src/loperaux.c`, with the callbacks and operations of
`src/lcommunf.c` that use them. A coroutine that is resumed in a callback, or by the closing of
an object, runs any code before the function that resumed it goes on. -/
namespace Coutil.ObjectHandle

/-- `k_recvdata`, `k_recvpipedata`, `k_udprecv` and `k_acceptstream`. -/
inductive Step where
  | recvdata
  | recvpipedata
  | udprecv
  | acceptstream
  deriving DecidableEq

/-- What a callback of the handle has to tell: something received, an error, the end of the
stream, or a connection. -/
inductive Event where
  | received
  | error
  | eof
  | connection
  deriving DecidableEq

/-- A successful start, and a `stopudhdl` that finds the object in the registry or not. -/
inductive Entry where
  | start
  | stop (found : Bool)
  deriving DecidableEq

/-- `lcu_UdataHandle`, with what `libuv` and the registry have of it: whether the callback of
`uv_close` is still to come, the handle was started, and the object is saved. -/
structure Handle (T : Type) where
  closed : Bool
  stop : Bool
  step : Option Step
  data : Option T
  closing : Bool
  reading : Bool
  saved : Bool
  log : List Entry

/-- A function that resumed a coroutine and goes on when that yields or ends:
`lcuU_resumeudhdl`, at the end of the stream or not, or `lcu_closeudhdl`. -/
inductive Frame (O : Type) where
  | callback (o : O) (eof : Bool)
  | closing (o : O)
  deriving DecidableEq

/-- The objects, the one each coroutine is suspended on, and what the objects have in
`sched->nactive`. -/
structure State (O T : Type) where
  handle : O → Handle T
  suspended : T → Option O
  frames : List (Frame O)
  nactive : ℤ

inductive Act (O T : Type) where
  | reset (o : O) (t : T) (step : Step) (yieldable starts : Bool)
  | event (o : O) (e : Event) (again : Bool)
  | resume (t : T) (fails : Bool)
  | close (o : O) (fails : Bool)
  | leave (fails : Bool)
  | closed (o : O)

def Event.of : Step → Event → Bool
  | .acceptstream, e => e = .connection
  | .udprecv, e => e = .received ∨ e = .error
  | _, e => e ≠ .connection

def Frame.callback? {O : Type} : Frame O → Option (O × Bool)
  | .callback o eof => some (o, eof)
  | .closing _ => none

namespace Handle
variable {T : Type}

def new : Handle T where
  closed := false
  stop := false
  step := none
  data := none
  closing := false
  reading := false
  saved := false
  log := []

def suspend (h : Handle T) (t : T) : Handle T :=
  { h with data := some t }

def wake (h : Handle T) : Handle T :=
  { h with data := none }

/-- `lcu_closeudhdl` of an object nobody waits on. -/
def close (h : Handle T) : Handle T :=
  { h with
    saved := true
    closing := true
    reading := false
    closed := true }

def started (h : Handle T) : Bool :=
  h.log.getLast? = some .start

/-- `stopudhdl`: `fails` is for an error of `udhdl->stop`, that closes the object. -/
def stopudhdl (h : Handle T) (fails : Bool) : Handle T :=
  let stopped :=
    if h.stop ∧ fails then
      if h.saved ∧ ¬h.closed then h.close else h
    else
      { h with
        saved := h.saved ∧ h.closed
        reading := h.reading ∧ ¬h.stop }
  { stopped with
    stop := false
    step := none
    log := h.log ++ [.stop h.saved] }

def start (h : Handle T) (step : Step) : Handle T :=
  { h with
    step := some step
    saved := true
    stop := true
    reading := true
    log := h.log ++ [.start] }

/-- What the callback does before it resumes the coroutine: only `uv_onrecvdata` changes the
object. -/
def notify (h : Handle T) (step : Step) (e : Event) : Handle T :=
  { h with
    step := if step ≠ .udprecv ∧ (e = .error ∨ e = .eof) then some .recvdata else h.step
    stop := h.stop ∧ e ≠ .eof
    reading := h.reading ∧ e ≠ .eof }

end Handle

section
variable {O T : Type} [DecidableEq O] [DecidableEq T]

def initial : State O T where
  handle := fun _ => .new
  suspended := fun _ => none
  frames := []
  nactive := 0

namespace State

def callback (s : State O T) : Option (O × Bool) :=
  (s.frames.filterMap Frame.callback?).head?

def put (s : State O T) (o : O) (h : Handle T) : State O T :=
  { s with handle := Function.update s.handle o h }

def scheduleudhdlk (s : State O T) (o : O) (t : T) : State O T :=
  { s.put o ((s.handle o).suspend t) with
    suspended := Function.update s.suspended t (some o) }

def stopudhdl (s : State O T) (o : O) (fails : Bool) : State O T :=
  { s.put o ((s.handle o).stopudhdl fails) with nactive := s.nactive - 1 }

def wake (s : State O T) (o : O) (t : T) : State O T :=
  { s.put o (s.handle o).wake with
    suspended := Function.update s.suspended t none }

/-- `k_endudhdlk` without the token of the scheduler. -/
def cancel (s : State O T) (o : O) (t : T) (fails : Bool) : State O T :=
  (s.wake o t).stopudhdl o fails

/-- `k_endudhdlk` by the scheduler: `again` is for a negative result of `udhdl->step`. -/
def endudhdlk (s : State O T) (o : O) (t : T) (again : Bool) : State O T :=
  if again then (s.wake o t).scheduleudhdlk o t else s.wake o t

end State

/-- `lcu_openedudhdl` and `lcuT_resetudhdlk`. -/
def lcuT_resetudhdlk (s : State O T) (o : O) (t : T) (step : Step) (yieldable starts : Bool) :
    Except String (State O T) :=
  let h := s.handle o
  if h.closed then .error "closed object"
  else if h.data.isSome then .error "already in use"
  else if ¬yieldable then .error "unable to yield"
  else if h.stop then .ok ((s.put o { h with step := some step }).scheduleudhdlk o t)
  else if starts then
    .ok (State.scheduleudhdlk { s.put o (h.start step) with nactive := s.nactive + 1 } o t)
  else .ok (s.put o { h with step := none, saved := false })

/-- `uv_onrecvdata`, `uv_onudprecv` and `uv_onconnection`, up to the code of the coroutine. -/
def event (s : State O T) (o : O) (e : Event) (again : Bool) : Option (State O T) :=
  let h := s.handle o
  if s.callback.isSome ∨ h.closed then none
  else
    match h.data, h.step with
    | none, _ => if e = .connection then some s else none
    | some _, none => none
    | some t, some step =>
      if Event.of step e ∧ (e = .connection ∨ h.reading) ∧
          (again → e = .received ∨ e = .connection) then
        some { (s.put o (h.notify step e)).endudhdlk o t again with
          frames := .callback o (e = .eof) :: s.frames }
      else none

def lcu_closeudhdl (s : State O T) (o : O) (fails : Bool) : State O T :=
  match (s.handle o).data with
  | none => s.put o (s.handle o).close
  | some t => { s.cancel o t fails with frames := .closing o :: s.frames }

def leave (s : State O T) (fails : Bool) : Frame O → State O T
  | .callback o _ => if (s.handle o).data = none then s.stopudhdl o fails else s
  | .closing o => s.put o (s.handle o).close

def step (s : State O T) : Act O T → Option (State O T)
  | .reset o t step yieldable starts =>
    if s.suspended t = none then
      match lcuT_resetudhdlk s o t step yieldable starts with
      | .error _ => some s
      | .ok u => some u
    else none
  | .event o e again => event s o e again
  | .resume t fails => (s.suspended t).map fun o => s.cancel o t fails
  | .close o fails => if (s.handle o).closed then some s else some (lcu_closeudhdl s o fails)
  | .leave fails =>
    match s.frames with
    | [] => none
    | frame :: frames => some (leave { s with frames := frames } fails frame)
  | .closed o =>
    if (s.handle o).closing ∧ s.callback = none then
      some (s.put o { s.handle o with saved := false, closing := false })
    else none

end

end Coutil.ObjectHandle
