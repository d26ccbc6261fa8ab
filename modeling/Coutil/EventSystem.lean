import Coutil.EventRegistry

set_option autoImplicit false

/-! Coroutines that use the event module, with re-entrancy. The program is any
sequence of actions of the coroutine that runs; a coroutine that resumed another
one waits on a stack with the frame it has to go on with. -/
namespace Coutil.EventSystem
open EventRegistry

/-- Where a suspended coroutine yielded. The await calls keep their arguments, the
pairs of event and list they registered, and how many more emissions are due after
the next one. -/
inductive Call (V : Type) where
  | start
  | user
  | await (event : Val V) (list : Option ℕ)
  | awaitall (args : List (Val V)) (regs : List (Val V × ℕ)) (count : ℕ)
  | awaitany (args : List (Val V)) (regs : List (Val V × ℕ))

inductive Status (V : Type) where
  | suspended (call : Call V)
  | active
  | dead

/-- What a coroutine that called `coroutine.resume` does when the call returns. -/
inductive Frame (V : Type) where
  | user
  | emitone
  | emitall (list : ℕ) (event : Val V) (args : List (Val V))

structure Control (V T : Type) where
  status : T → Status V
  running : T
  stack : List (T × Frame V)
  /-- The loop of `emitall` at its test, when the running coroutine is in one. -/
  loop : Option (ℕ × Val V × List (Val V))
  /-- Some coroutine has received `listof` in code outside the module. -/
  leaked : Bool
  /-- What the last call returned to the code outside the module. -/
  values : List (Val V)

structure State (R V T : Type) where
  registry : R
  control : Control V T

inductive Act (V T : Type) where
  | await (event : Val V)
  | awaitall (args : List (Val V))
  | awaitany (args : List (Val V))
  | emitone (event : Val V) (args : List (Val V))
  | emitall (event : Val V) (args : List (Val V))
  | resume (co : T) (args : List (Val V))
  | yield (args : List (Val V))
  | finish (ok : Bool) (args : List (Val V))
  | iterate

inductive Outcome (σ : Type) where
  | next (s : σ)
  | raised (s : σ) (msg : String)
  | diverged
  | disabled

section
variable {R V T : Type} [DecidableEq V] [DecidableEq T]

def Control.deliver (c : Control V T) (values : List (Val V)) : Control V T :=
  { c with loop := none, values := values, leaked := c.leaked || decide (.listof ∈ values) }

/-- The call of `coroutine.resume` made in a frame has returned. -/
def Control.returned (c : Control V T) (frame : Frame V) (values : List (Val V)) : Control V T :=
  match frame with
  | .user => c.deliver values
  | .emitone => c.deliver [.bool true]
  | .emitall list event args => { c with loop := some (list, event, args) }

/-- The running coroutine gives control back to the one that resumed it. -/
def Control.giveback (c : Control V T) (status : Status V) (values : List (Val V)) : Control V T :=
  match c.stack with
  | [] => c
  | (thread, frame) :: stack =>
    let c : Control V T :=
      { c with status := Function.update c.status c.running status, running := thread, stack := stack }
    c.returned frame values

def Control.suspend (c : Control V T) (call : Call V) : Control V T :=
  c.giveback (.suspended call) [.bool true]

def Control.enter (c : Control V T) (co : T) (frame : Frame V) : Control V T :=
  { c with
    status := Function.update c.status co .active
    running := co
    stack := (c.running, frame) :: c.stack
    loop := none }

/-- The values a program may pass: it has `listof` only once it was given to it. -/
def Control.owns (c : Control V T) (values : List (Val V)) : Prop :=
  c.leaked = true ∨ .listof ∉ values

instance (c : Control V T) (values : List (Val V)) : Decidable (c.owns values) :=
  inferInstanceAs (Decidable (_ ∨ _))

variable (L : Lists V T R)

/-- Function `cancel` of `awaitall` and `awaitany`: one `removethread` a pair. -/
def cancel (fuel : ℕ) (r : R) (thread : T) : List (Val V × ℕ) → Option R
  | [] => some r
  | (event, list) :: regs =>
    match L.remove fuel r event thread list with
    | none => none
    | some r => cancel fuel r thread regs

/-- Function `register`: the pairs of the events that were not registered before. An
error leaves the registrations made so far. -/
def register (thread : T) : R → List (Val V) → Except (R × String) (R × List (Val V × ℕ))
  | r, [] => .ok (r, [])
  | r, event :: args =>
    if event = .nil then register thread r args
    else match L.add r event thread with
      | .error msg => .error (r, msg)
      | .ok (r, none) => register thread r args
      | .ok (r, some list) =>
        match register thread r args with
        | .error e => .error e
        | .ok (r, regs) => .ok (r, (event, list) :: regs)

/-- The test `... == listof` on the values that `yield` returned. Where the first one is a
table, Lua calls the `__eq` of that table, and `equal` is what it answers. -/
def istoken (equal : Bool) : List (Val V) → Bool
  | .listof :: _ => true
  | .ref _ :: _ => equal
  | _ => false

omit [DecidableEq V] [DecidableEq T] in
@[simp] theorem istoken_listof (equal : Bool) (values : List (Val V)) :
    istoken equal (.listof :: values) = true := rfl

omit [DecidableEq V] [DecidableEq T] in
theorem istoken_plain {values : List (Val V)} (plain : values.head? ≠ some .listof) :
    istoken false values = false := by
  cases values with
  | nil => rfl
  | cons value rest => cases value <;> first | rfl | exact absurd rfl plain

/-- The coroutine that yielded in `call` goes on with the values it was resumed with. -/
def resumed (fuel : ℕ) (s : State R V T) (call : Call V) (values : List (Val V))
    (equal : Bool := false) : Outcome (State R V T) :=
  let thread := s.control.running
  match call with
  | .start | .user => .next { s with control := s.control.deliver values }
  | .await event list =>
    if istoken equal values then .next { s with control := s.control.deliver values.tail }
    else match list with
      | none => .raised s "attempt to index a nil value (local 'list')"
      | some list =>
        match L.remove fuel s.registry event thread list with
        | none => .diverged
        | some r => .next ⟨r, s.control.deliver values⟩
  | .awaitall args regs count =>
    if !istoken equal values then
      match cancel L fuel s.registry thread regs with
      | none => .diverged
      | some r => .next ⟨r, s.control.deliver values⟩
    else if count = 0 then .next { s with control := s.control.deliver [.bool true] }
    else .next { s with control := s.control.suspend (.awaitall args regs (count - 1)) }
  | .awaitany _ regs =>
    match cancel L fuel s.registry thread regs with
    | none => .diverged
    | some r =>
      if istoken equal values then .next ⟨r, s.control.deliver values.tail⟩
      else .next ⟨r, s.control.deliver values⟩

/-- `coroutine.resume(co, ...)` called in a frame. -/
def resume (fuel : ℕ) (s : State R V T) (co : T) (frame : Frame V) (values : List (Val V))
    (equal : Bool := false) : Outcome (State R V T) :=
  match s.control.status co with
  | .suspended call =>
    resumed L fuel { s with control := s.control.enter co frame } call values equal
  | .active => .next ⟨s.registry, s.control.returned frame
      [.bool false, .str "cannot resume non-suspended coroutine"]⟩
  | .dead => .next ⟨s.registry, s.control.returned frame
      [.bool false, .str "cannot resume dead coroutine"]⟩

/-- One iteration of the repeat loop of `emitall`. -/
def emitnext (fuel : ℕ) (s : State R V T) (list : ℕ) (event : Val V) (args : List (Val V)) :
    Outcome (State R V T) :=
  match L.unlinkhead s.registry list with
  | none => .raised s "index is nil"
  | some (head, r) =>
    resume L fuel { s with registry := r } head (.emitall list event args)
      (.listof :: event :: args)

def emitall (fuel : ℕ) (s : State R V T) (event : Val V) (args : List (Val V)) :
    Outcome (State R V T) :=
  match L.find s.registry event with
  | none => .next { s with control := s.control.deliver [.bool false] }
  | some list => emitnext L fuel { s with registry := L.detach s.registry event } list event args

def emitone (fuel : ℕ) (s : State R V T) (event : Val V) (args : List (Val V)) :
    Outcome (State R V T) :=
  match L.find s.registry event with
  | none => .next { s with control := s.control.deliver [.bool false] }
  | some list =>
    match L.unlinkone s.registry event list with
    | none => .raised s "index is nil"
    | some (head, r) =>
      resume L fuel { s with registry := r } head .emitone (.listof :: event :: args)

/-- The main coroutine has nobody below it on the stack, and cannot yield. -/
def Control.yieldable (c : Control V T) : Prop := c.stack ≠ []

instance (c : Control V T) : Decidable c.yieldable :=
  inferInstanceAs (Decidable (¬ _))

def await (s : State R V T) (event : Val V) : Outcome (State R V T) :=
  if s.control.yieldable then
    match L.add s.registry event s.control.running with
    | .error msg => .raised s msg
    | .ok (r, list) => .next ⟨r, s.control.suspend (.await event list)⟩
  else .raised s "unable to yield"

def awaitall (s : State R V T) (args : List (Val V)) : Outcome (State R V T) :=
  if s.control.yieldable then
    match register L s.control.running s.registry args with
    | .error (r, msg) => .raised { s with registry := r } msg
    | .ok (r, regs) =>
      if regs.length = 0 then .next ⟨r, s.control.deliver [.bool true]⟩
      else .next ⟨r, s.control.suspend (.awaitall args regs (regs.length - 1))⟩
  else .raised s "unable to yield"

def awaitany (s : State R V T) (args : List (Val V)) : Outcome (State R V T) :=
  if s.control.yieldable then
    match register L s.control.running s.registry args with
    | .error (r, msg) => .raised { s with registry := r } msg
    | .ok (r, regs) =>
      if regs.length = 0 then .raised { s with registry := r } "non-nil value expected"
      else .next ⟨r, s.control.suspend (.awaitany args regs)⟩
  else .raised s "unable to yield"

/-- A call made by the code of the running coroutine; `equal` is what the `__eq` of the
first value of an explicit resume answers. -/
def call (fuel : ℕ) (s : State R V T) (a : Act V T) (equal : Bool := false) :
    Outcome (State R V T) :=
  match a with
  | .await event => if s.control.owns [event] then await L s event else .disabled
  | .awaitall args => if s.control.owns args then awaitall L s args else .disabled
  | .awaitany args => if s.control.owns args then awaitany L s args else .disabled
  | .emitone event args =>
    if s.control.owns (event :: args) then emitone L fuel s event args else .disabled
  | .emitall event args =>
    if s.control.owns (event :: args) then emitall L fuel s event args else .disabled
  | .resume co args =>
    if s.control.owns args then resume L fuel s co .user args equal else .disabled
  | .yield args =>
    if s.control.owns args ∧ s.control.yieldable
    then .next { s with control := s.control.giveback (.suspended .user) (.bool true :: args) }
    else .disabled
  | .finish ok args =>
    if s.control.owns args ∧ s.control.yieldable
    then .next { s with control := s.control.giveback .dead (.bool ok :: args) } else .disabled
  | .iterate => .disabled

def step (fuel : ℕ) (s : State R V T) (a : Act V T) (equal : Bool := false) :
    Outcome (State R V T) :=
  match s.control.loop with
  | none => call L fuel s a equal
  | some (list, event, args) =>
    match a with
    | .iterate =>
      if L.isEmpty s.registry list then .next { s with control := s.control.deliver [.bool true] }
      else emitnext L fuel s list event args
    | _ => .disabled

def Outcome.next? {σ : Type} : Outcome σ → Option σ
  | .next s => some s
  | _ => none

/-- A step that neither raises an error nor is left in the middle of a loop. -/
def next (s : State R V T) (a : ℕ × Act V T) : Option (State R V T) :=
  (step L a.1 s a.2).next?

def Control.init (main : T) : Control V T :=
  { status := Function.update (fun _ => .suspended .start) main .active, running := main,
    stack := [], loop := none, leaked := false, values := [] }

end
end Coutil.EventSystem
