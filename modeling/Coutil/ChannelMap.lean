import Mathlib.Logic.Function.Basic
import Coutil.Census
import Coutil.ChannelSync

set_option autoImplicit false

/-! The map of the channels: `lcuCS_getchsync` and `lcuCS_freechsync` of `src/lchaux.c`, as
`channel_create` and `channelclose` of `src/lchannem.c` and the workers of `src/lthpool.c` call
them. A name is what the functions get of it, a string without zero bytes. A step is a section
under the mutex of the map, or under that of a sync record. -/
namespace Coutil.ChannelMap
open Runs Census ChannelSync

inductive Waiter (T C : Type) where
  | task (t : T)
  | channel (c : C)
  deriving DecidableEq

/-- `lcu_ChannelSync` -/
structure Record (S : Type) where
  refcount : ℤ
  sync : Sync S

/-- An open channel, with the address of its sync record. -/
structure Channel (A C : Type) where
  id : C
  name : String
  sync : A

/-- The worker of a yield got the sync record, put the task in the queue of it, or is done with
the record otherwise. -/
inductive Stage where
  | got
  | queued
  | done
  deriving DecidableEq

/-- A task that yielded a name. The worker keeps the name as a pointer into the state of the
task, where it may be collected. -/
structure Yield (A T : Type) where
  task : T
  name : String
  sync : A
  stage : Stage
  collected : Bool

structure State (A T C : Type) where
  map : String → Option A
  heap : A → Option (Record (Waiter T C))
  channels : List (Channel A C)
  yields : List (Yield A T)
  waiting : T → Bool

inductive Act (A T C : Type) where
  | create (c : C) (name : String) (alloc : A)
  | sync (c : C) (endpoint : Endpoint) (waits : Bool)
  | cancel (c : C)
  | close (i : ℕ)
  | yield (t : T) (name : String) (alloc : A)
  | «match» (i : ℕ) (endpoint : Option Endpoint)
  | collect (i : ℕ)
  | free (i : ℕ) (read : String)

section
variable {A T C : Type}

def initial : State A T C where
  map := fun _ => none
  heap := fun _ => none
  channels := []
  yields := []
  waiting := fun _ => false

variable [DecidableEq A] [DecidableEq T] [DecidableEq C]

namespace State

def put (s : State A T C) (a : A) (r : Option (Record (Waiter T C))) : State A T C :=
  { s with heap := Function.update s.heap a r }

/-- The record of the name is used once more, or made at an address that is free. -/
def lcuCS_getchsync (s : State A T C) (name : String) (alloc : A) : Option (A × State A T C) :=
  match s.map name with
  | some a =>
    (s.heap a).map fun r => (a, s.put a (some { r with refcount := r.refcount + 1 }))
  | none =>
    if (s.heap alloc).isNone then
      some (alloc, { s.put alloc (some ⟨1, .new⟩) with
        map := Function.update s.map name (some alloc) })
    else none

def lcuCS_freechsync (s : State A T C) (name : String) : Option (State A T C) :=
  match s.map name with
  | none => some s
  | some a =>
    (s.heap a).map fun r =>
      if r.refcount - 1 = 0 ∧ r.sync.queue = [] then
        { s.put a none with map := Function.update s.map name none }
      else s.put a (some { r with refcount := r.refcount - 1 })

/-- A waiter that is taken from the queue of a record, if it is a task, is resumed. -/
def resume (s : State A T C) : Waiter T C → State A T C
  | .task t => { s with waiting := Function.update s.waiting t false }
  | .channel _ => s

/-- `lcuCS_matchchsync` on the record at an address. -/
def lcuCS_matchchsync (s : State A T C) (a : A) (endpoint : Endpoint)
    (getstate : Option (Waiter T C)) : Option (State A T C × Answer (Waiter T C)) :=
  (s.heap a).map fun r =>
    match matchchsync r.sync endpoint getstate with
    | (sync, .matched found) =>
      ((s.put a (some { r with sync := sync })).resume found, .matched found)
    | (sync, answer) => (s.put a (some { r with sync := sync }), answer)

def channel? (s : State A T C) (c : C) : Option (Channel A C) :=
  s.channels.find? fun channel => channel.id = c

end State

/-- A worker after `lcuCS_matchchsync` for its task. -/
def matched (s : State A T C) (i : ℕ) (y : Yield A T) : Answer (Waiter T C) → State A T C
  | .waits =>
    { s with
      yields := s.yields.set i { y with stage := .queued }
      waiting := Function.update s.waiting y.task true }
  | _ => { s with yields := s.yields.set i { y with stage := .done } }

def step (s : State A T C) : Act A T C → Option (State A T C)
  | .create c name alloc =>
    if s.channel? c = none then
      (s.lcuCS_getchsync name alloc).map fun (a, u) =>
        { u with channels := u.channels ++ [⟨c, name, a⟩] }
    else none
  | .sync c endpoint waits =>
    (s.channel? c).bind fun channel =>
      let getstate := if waits then some (.channel c) else none
      (s.lcuCS_matchchsync channel.sync endpoint getstate).map Prod.fst
  | .cancel c =>
    (s.channel? c).bind fun channel =>
      (s.heap channel.sync).map fun r =>
        s.put channel.sync (some { r with sync := removestateq r.sync (.channel c) })
  | .close i =>
    s.channels[i]?.bind fun channel =>
      (s.heap channel.sync).bind fun r =>
        if .channel channel.id ∈ r.sync.queue then none
        else (s.lcuCS_freechsync channel.name).map fun u =>
          { u with channels := u.channels.eraseIdx i }
  | .yield t name alloc =>
    if s.waiting t then none
    else (s.lcuCS_getchsync name alloc).map fun (a, u) =>
      { u with yields := u.yields ++ [⟨t, name, a, .got, false⟩] }
  | .match i endpoint =>
    s.yields[i]?.bind fun y =>
      if y.stage = .got then
        match endpoint with
        | none => some { s with yields := s.yields.set i { y with stage := .done } }
        | some endpoint =>
          (s.lcuCS_matchchsync y.sync endpoint (some (.task y.task))).map fun (u, answer) =>
            matched u i y answer
      else none
  | .collect i =>
    s.yields[i]?.bind fun y =>
      if y.stage = .queued ∧ ¬s.waiting y.task then
        some { s with yields := s.yields.set i { y with collected := true } }
      else none
  | .free i read =>
    s.yields[i]?.bind fun y =>
      if y.stage = .got then none
      else (s.lcuCS_freechsync (if y.collected then read else y.name)).map fun u =>
        { u with yields := u.yields.eraseIdx i }

end

end Coutil.ChannelMap
