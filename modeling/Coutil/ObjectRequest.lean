import Coutil.Runs

set_option autoImplicit false

/-! The requests of userdata, from `lcuT_createudreq` to `lcuU_resumeudreq` of `src/loperaux.c`.
The program is any sequence of calls and resumes of the coroutines, and libuv delivers one callback
for each request that a setup function armed. -/
namespace Coutil.ObjectRequest
open Runs

/-- `UV_UNKNOWN_REQ`, `UV_REQ_TYPE_MAX`, and what libuv writes when it starts the request. -/
inductive ReqType where
  | unknown
  | max
  | active
  deriving DecidableEq

inductive Site where
  | freeudreq
  | k_endudreq
  | startedudreqk
  | k_resetudreqk
  | lcuU_endudreq
  deriving DecidableEq

def lcu_assert (site : Site) (b : Bool) : Except Site Unit := if b then .ok () else .error site

/-- What a setup function does: it raises an error, returns results, or arms the request and
returns -1 with these values on the stack. -/
inductive Outcome (V : Type) where
  | error (text : String)
  | results (values : List V)
  | armed (stack : List V)

/-- The functions of a client. `W` is what they may read of the rest of the world. -/
structure Client (V W : Type) where
  setup : W → List V → Outcome V
  results : Option (List V → List V → List V)
  cancel : Option (W → List V → Bool)

/-- `lcu_UdataRequest` with its `UPV_THREAD`, its entry in the registry, and the callbacks that
libuv still has to deliver for it. -/
structure Request (T V W : Type) where
  type : ReqType
  data : Option T
  results : Option (List V → List V → List V)
  cancel : Option (W → List V → Bool)
  thread : Option T
  saved : Bool
  uv : ℕ

/-- Where a coroutine is suspended, if in one of these functions. -/
inductive Place (O V W : Type) where
  | elsewhere
  | k_endudreq (o : O) (stack : List V)
  | k_resetudreqk (o : O) (client : Client V W) (stack : List V)

inductive Entry (O T V : Type) where
  | setup (o : O) (t : T)
  | uv_cancel (o : O)
  | returned (t : T) (values : List V)
  | raised (t : T) (text : String)

structure State (O T V W : Type) where
  request : O → Request T V W
  place : T → Place O V W
  /-- The request whose `lcuU_resumeudreq` is under way. -/
  inside : Option O
  nactive : ℤ
  /-- What happened, the last entry first. -/
  log : List (Entry O T V)

inductive Act (O T V W : Type) where
  | call (o : O) (t : T) (client : Client V W) (w : W) (stack : List V) (yieldable : Bool)
  | resume (t : T) (w : W) (values : List V)
  | callback (o : O) (w : W) (values : List V)
  | leave

section
variable {O T V W : Type}

/-- `lcuT_createudreq` -/
def Request.new : Request T V W := ⟨.unknown, none, none, none, none, false, 0⟩

def initial : State O T V W := ⟨fun _ => .new, fun _ => .elsewhere, none, 0, []⟩

def Place.object : Place O V W → Option O
  | .elsewhere => none
  | .k_endudreq o _ => some o
  | .k_resetudreqk o _ _ => some o

/-- The values that a callback gives to the call. -/
def returns (results : Option (List V → List V → List V)) (stack values : List V) : List V :=
  match results with
  | none => values
  | some results => results stack values

namespace State

def note (s : State O T V W) (entry : Entry O T V) : State O T V W :=
  { s with log := entry :: s.log }

variable [DecidableEq O] [DecidableEq T]

def put (s : State O T V W) (o : O) (r : Request T V W) : State O T V W :=
  { s with request := Function.update s.request o r }

def move (s : State O T V W) (t : T) (place : Place O V W) : State O T V W :=
  { s with place := Function.update s.place t place }

omit [DecidableEq T] in
def freeudreq (s : State O T V W) (o : O) : Except Site (State O T V W) := do
  lcu_assert .freeudreq ((s.request o).type = .max)
  pure (s.put o { s.request o with thread := none, data := none, saved := false, type := .unknown })

def k_endudreqhalted (s : State O T V W) (o : O) (t : T) (w : W) (stack values : List V) :
    Except Site (State O T V W) := do
  lcu_assert .k_endudreq ((s.request o).data = some t)
  let cancels := match (s.request o).cancel with
    | none => true
    | some cancel => cancel w (stack ++ values)
  let s := s.put o { s.request o with data := none, thread := none }
  let s := if cancels then s.note (.uv_cancel o) else s
  pure ((s.move t .elsewhere).note (.returned t values))

def k_endudreqresumed (s : State O T V W) (o : O) (t : T) (stack values : List V) :
    Except Site (State O T V W) := do
  lcu_assert .k_endudreq ((s.request o).data = some t)
  let s := s.put o { s.request o with data := none }
  pure ((s.move t .elsewhere).note (.returned t (returns (s.request o).results stack values)))

def startedudreqk (s : State O T V W) (o : O) (t : T) (client : Client V W) :
    Outcome V → Except Site (State O T V W)
  | .error text => pure ((s.move t .elsewhere).note (.raised t text))
  | .results values => do
    let s ← s.freeudreq o
    pure ((s.move t .elsewhere).note (.returned t values))
  | .armed stack => do
    lcu_assert .startedudreqk ((s.request o).type ≠ .unknown)
    lcu_assert .startedudreqk ((s.request o).type ≠ .max)
    lcu_assert .startedudreqk ((s.request o).data = some t)
    let s : State O T V W := { s with nactive := s.nactive + 1 }
    let s := s.put o { s.request o with results := client.results, cancel := client.cancel }
    pure (s.move t (.k_endudreq o stack))

omit [DecidableEq T] in
/-- What the setup function does to the request. `uv_queue_work` leaves the type of a request that
it refuses. -/
def arm (s : State O T V W) (o : O) : Outcome V → State O T V W
  | .armed _ => s.put o { s.request o with type := .active, uv := (s.request o).uv + 1 }
  | _ => s

def setup (s : State O T V W) (o : O) (t : T) (client : Client V W) (w : W) (stack : List V) :
    Except Site (State O T V W) :=
  let outcome := client.setup w stack
  ((s.note (.setup o t)).arm o outcome).startedudreqk o t client outcome

def k_resetudreqkhalted (s : State O T V W) (o : O) (t : T) (values : List V) : State O T V W :=
  let s := s.put o { s.request o with thread := none, data := none }
  (s.move t .elsewhere).note (.returned t values)

/-- `k_resetudreqk` after a callback: the values it was resumed with are discarded. -/
def k_resetudreqkresumed (s : State O T V W) (o : O) (t : T) (client : Client V W) (w : W)
    (stack : List V) : Except Site (State O T V W) := do
  lcu_assert .k_resetudreqk ((s.request o).type = .unknown)
  s.setup o t client w stack

/-- A request is kept in the registry from the first call on. -/
def lcuT_resetudreqk (s : State O T V W) (o : O) (t : T) (client : Client V W) (w : W)
    (stack : List V) (yieldable : Bool) : Except Site (State O T V W) :=
  if (s.request o).data.isSome then pure (s.note (.raised t "already in use"))
  else if ¬yieldable then pure (s.note (.raised t "unable to yield"))
  else
    let r := s.request o
    let r := if r.type = .unknown then { r with saved := true, type := .max } else r
    let s := s.put o { r with thread := some t, data := some t }
    if r.type = .max then s.setup o t client w stack
    else pure (s.move t (.k_resetudreqk o client stack))

omit [DecidableEq T] in
/-- The thread to be resumed is returned. -/
def lcuU_endudreq (s : State O T V W) (o : O) : Except Site (Option T × State O T V W) := do
  lcu_assert .lcuU_endudreq ((s.request o).type ≠ .unknown)
  lcu_assert .lcuU_endudreq ((s.request o).type ≠ .max)
  let s : State O T V W :=
    { (s.put o { s.request o with type := .max }) with nactive := s.nactive - 1 }
  match (s.request o).data with
  | some t => pure (some t, s)
  | none => do
    let s ← s.freeudreq o
    pure (none, s)

def resumethread (s : State O T V W) (t : T) (w : W) (values : List V) :
    Except Site (State O T V W) :=
  match s.place t with
  | .k_endudreq o stack => s.k_endudreqresumed o t stack values
  | .k_resetudreqk o client stack => s.k_resetudreqkresumed o t client w stack
  | .elsewhere => pure s

/-- The callback of the request, up to the code of the coroutine. -/
def callback (s : State O T V W) (o : O) (w : W) (values : List V) :
    Except Site (State O T V W) := do
  let s := s.put o { s.request o with uv := (s.request o).uv - 1 }
  let (thread, s) ← s.lcuU_endudreq o
  match thread with
  | none => pure s
  | some t => State.resumethread { s with inside := some o } t w values

omit [DecidableEq T] in
def leave (s : State O T V W) (o : O) : Except Site (State O T V W) :=
  let s : State O T V W := { s with inside := none }
  if (s.request o).type = .max then s.freeudreq o else pure s

end State

variable [DecidableEq O] [DecidableEq T]

/-- `none` when the action cannot happen in the state. -/
def step (s : State O T V W) : Act O T V W → Option (Except Site (State O T V W))
  | .call o t client w stack yieldable =>
    match s.place t with
    | .elsewhere => some (s.lcuT_resetudreqk o t client w stack yieldable)
    | _ => none
  | .resume t w values =>
    match s.place t with
    | .elsewhere => none
    | .k_endudreq o stack => some (s.k_endudreqhalted o t w stack values)
    | .k_resetudreqk o _ _ => some (.ok (s.k_resetudreqkhalted o t values))
  | .callback o w values =>
    if 0 < (s.request o).uv ∧ s.inside = none then some (s.callback o w values) else none
  | .leave => s.inside.map fun o => s.leave o

/-- A failed assertion ends the program. -/
def next (s : State O T V W) (a : Act O T V W) : Option (State O T V W) :=
  match step s a with
  | some (.ok u) => some u
  | _ => none

theorem next_eq {s u : State O T V W} {a : Act O T V W} :
    next s a = some u ↔ step s a = some (.ok u) := by
  unfold next
  split
  · rename_i v stepped
    simp [stepped]
  · rename_i failed
    simp only [reduceCtorEq, false_iff]
    exact failed u

/-- The function that an action runs, and when the action can happen. -/
inductive Step (s : State O T V W) : Act O T V W → Except Site (State O T V W) → Prop
  | call {o : O} {t : T} {client : Client V W} {w : W} {stack : List V} {yieldable : Bool}
      (runs : s.place t = .elsewhere) :
      Step s (.call o t client w stack yieldable) (s.lcuT_resetudreqk o t client w stack yieldable)
  | ended {t : T} {w : W} {values : List V} {o : O} {stack : List V}
      (waits : s.place t = .k_endudreq o stack) :
      Step s (.resume t w values) (s.k_endudreqhalted o t w stack values)
  | reset {t : T} {w : W} {values : List V} {o : O} {client : Client V W} {stack : List V}
      (waits : s.place t = .k_resetudreqk o client stack) :
      Step s (.resume t w values) (.ok (s.k_resetudreqkhalted o t values))
  | callback {o : O} {w : W} {values : List V} (due : 0 < (s.request o).uv)
      (free : s.inside = none) : Step s (.callback o w values) (s.callback o w values)
  | leave {o : O} (inside : s.inside = some o) : Step s .leave (s.leave o)

theorem step_cases {s : State O T V W} {a : Act O T V W} {r : Except Site (State O T V W)}
    (stepped : step s a = some r) : Step s a r := by
  cases a with
  | call o t client w stack yieldable =>
    simp only [step] at stepped
    split at stepped
    · rename_i runs
      cases stepped
      exact .call runs
    · cases stepped
  | resume t w values =>
    simp only [step] at stepped
    split at stepped
    · cases stepped
    · rename_i o stack waits
      cases stepped
      exact .ended waits
    · rename_i o client stack waits
      cases stepped
      exact .reset waits
  | callback o w values =>
    simp only [step] at stepped
    split_ifs at stepped with enabled
    cases stepped
    exact .callback enabled.1 enabled.2
  | leave =>
    obtain ⟨o, inside, rfl⟩ := Option.map_eq_some_iff.mp stepped
    exact .leave inside

end
end Coutil.ObjectRequest
