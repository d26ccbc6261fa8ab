import Coutil.CircularList

set_option autoImplicit false

/-! The registry of `lua/coutil/event.lua`: the table `listof` and the list tables
it refers to. `Registry` follows the source on the links of the tables; `Queues`
says what they are for, one first-in first-out queue a list. -/
namespace Coutil.EventRegistry
open CircularList

/-- Lua values as far as the module tells them apart. The table `listof` is a local
of the module that is also used as the token of an emission. -/
inductive Val (V : Type) where
  | nil
  | nan
  | bool (b : Bool)
  | str (s : String)
  | ref (v : V)
  | listof
  deriving DecidableEq

instance {V : Type} [DecidableEq V] : LawfulBEq (Val V) := inferInstance

structure Registry (V T : Type) where
  listof : Val V → Option ℕ
  lists : ℕ → Circle T
  fresh : ℕ

structure Queues (V T : Type) where
  listof : Val V → Option ℕ
  queue : ℕ → List T
  event : ℕ → Val V
  fresh : ℕ

section
variable {V T : Type} [DecidableEq V] [DecidableEq T]

def Registry.empty : Registry V T := ⟨fun _ => none, fun _ => Circle.empty, 0⟩

def pending (r : Registry V T) (event : Val V) : Bool := (r.listof event).isSome

/-- A new list is installed only under a value that can be a table key; the list is
returned unless the thread was in it already. -/
def addthread (r : Registry V T) (event : Val V) (thread : T) :
    Except String (Registry V T × Option ℕ) :=
  match r.listof event with
  | none =>
    match event with
    | .nil => .error "index is nil"
    | .nan => .error "index is NaN"
    | _ => .ok (⟨Function.update r.listof event (some r.fresh),
        Function.update r.lists r.fresh (Circle.single thread), r.fresh + 1⟩, some r.fresh)
  | some list =>
    if (r.lists list).next thread = none then
      .ok ({ r with lists := Function.update r.lists list ((r.lists list).push thread) }, some list)
    else .ok (r, none)

/-- `none` when the repeat loop does not end within the fuel. -/
def removethread (fuel : ℕ) (r : Registry V T) (event : Val V) (thread : T) (list : ℕ) :
    Option (Registry V T) :=
  match (r.lists list).remove fuel thread with
  | none => none
  | some circle => some { r with
      lists := Function.update r.lists list circle
      listof := if (r.lists list).next thread = some thread ∧ r.listof event = some list
        then Function.update r.listof event none else r.listof }

def detach (r : Registry V T) (event : Val V) : Registry V T :=
  { r with listof := Function.update r.listof event none }

/-- The head of a list is unlinked as in the loop of `emitall`. -/
def unlinkhead (r : Registry V T) (list : ℕ) : Option (T × Registry V T) :=
  match (r.lists list).pop with
  | none => none
  | some (head, circle) => some (head, { r with lists := Function.update r.lists list circle })

/-- The head of an installed list is unlinked as in `emitone`, which also removes
the list when the head was its tail. -/
def unlinkone (r : Registry V T) (event : Val V) (list : ℕ) : Option (T × Registry V T) :=
  match (r.lists list).pop with
  | none => none
  | some (head, circle) => some (head, { r with
      lists := Function.update r.lists list circle
      listof := if (r.lists list).tail = some head
        then Function.update r.listof event none else r.listof })

/-- What a coroutine library built on `listof` needs of it. -/
structure Lists (V T R : Type) where
  find : R → Val V → Option ℕ
  add : R → Val V → T → Except String (R × Option ℕ)
  remove : ℕ → R → Val V → T → ℕ → Option R
  detach : R → Val V → R
  unlinkhead : R → ℕ → Option (T × R)
  unlinkone : R → Val V → ℕ → Option (T × R)
  isEmpty : R → ℕ → Bool

def registryLists : Lists V T (Registry V T) where
  find := Registry.listof
  add := addthread
  remove := removethread
  detach := detach
  unlinkhead := unlinkhead
  unlinkone := unlinkone
  isEmpty r list := (r.lists list).tail.isNone

def Queues.empty : Queues V T := ⟨fun _ => none, fun _ => [], fun _ => .nil, 0⟩

/-- Registration appends at the end of the queue of the event. -/
def Queues.add (q : Queues V T) (event : Val V) (thread : T) :
    Except String (Queues V T × Option ℕ) :=
  match q.listof event with
  | none =>
    match event with
    | .nil => .error "index is nil"
    | .nan => .error "index is NaN"
    | _ => .ok (⟨Function.update q.listof event (some q.fresh),
        Function.update q.queue q.fresh [thread], Function.update q.event q.fresh event,
        q.fresh + 1⟩, some q.fresh)
  | some list =>
    if thread ∈ q.queue list then .ok (q, none)
    else .ok ({ q with queue := Function.update q.queue list (q.queue list ++ [thread]) }, some list)

/-- Cancellation deletes the thread; an installed queue that becomes empty is removed. -/
def Queues.remove (q : Queues V T) (event : Val V) (thread : T) (list : ℕ) : Queues V T :=
  { q with
    queue := Function.update q.queue list ((q.queue list).erase thread)
    listof := if q.queue list = [thread] ∧ q.listof event = some list
      then Function.update q.listof event none else q.listof }

def Queues.detach (q : Queues V T) (event : Val V) : Queues V T :=
  { q with listof := Function.update q.listof event none }

def Queues.unlinkhead (q : Queues V T) (list : ℕ) : Option (T × Queues V T) :=
  match q.queue list with
  | [] => none
  | head :: rest => some (head, { q with queue := Function.update q.queue list rest })

def Queues.unlinkone (q : Queues V T) (event : Val V) (list : ℕ) : Option (T × Queues V T) :=
  match q.queue list with
  | [] => none
  | head :: rest => some (head, { q with
      queue := Function.update q.queue list rest
      listof := if rest = [] then Function.update q.listof event none else q.listof })

def queueLists : Lists V T (Queues V T) where
  find := Queues.listof
  add := Queues.add
  remove _ q event thread list := some (q.remove event thread list)
  detach := Queues.detach
  unlinkhead := Queues.unlinkhead
  unlinkone := Queues.unlinkone
  isEmpty q list := (q.queue list).isEmpty

end
end Coutil.EventRegistry
