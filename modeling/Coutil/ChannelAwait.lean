import Coutil.AwaitOperation
import Coutil.Exchange

set_option autoImplicit false

/-! The coroutines of one state and its channels, as in `src/lchannem.c`: `system.awaitch`,
`channel:sync` and `channel:close` over the operations of the coroutines and the sync records that
are shared with other threads. The sections of the other threads are steps of their own. -/
namespace Coutil.ChannelAwait
open Operation ChannelSync Exchange

/-- Who waits in a sync record: the state of a channel of this state, or a state of another one. -/
inductive Waiter (C Q : Type) where
  | own (c : C)
  | other (q : Q)
  deriving DecidableEq

/-- A channel with the stack of its own state, the key in the registry of that state, and the
coroutine whose operation is the handle. -/
structure LuaChannel (T : Type) where
  closed : Bool
  L : Stack
  syncregkey : Option T
  handle : Option T

structure World (T C Q : Type) where
  channel : C → LuaChannel T
  sync : String → Sync (Waiter C Q)
  /-- The coroutines whose async handles were sent and not called back. -/
  signals : List T

/-- The names of the channels, and the channel that a value is. -/
structure Channels (C : Type) where
  name : C → String
  check : Value → Option C
  check_nil : check .nil = none

/-- The state of another thread in a match: its stack, with its arguments above a base. -/
structure Offered where
  L : Stack
  base : ℕ
  narg : ℕ
  offers : Offers L base narg

structure ArmFault where
  space : Bool
  move : Option Lack
  report : Option Lack
  init : Option (String × ℤ)

def ArmFault.none : ArmFault := ⟨false, .none, .none, .none⟩

/-- What the memory and the other threads decide in a step. -/
structure Env (Q : Type) where
  arm : ArmFault
  faults : Faults
  others : Q → Offered

structure View (T C Q : Type) where
  world : World T C Q
  env : Env Q

/-- The assertions of `src/lchannem.c`, the pointers it takes for granted, and the assertions of
`src/loperaux.c`. -/
inductive Failure where
  | armsynced
  | channelsync
  | returnsynced
  | asyncsend
  | touserdata
  | onsynced
  | op (site : Site)
  deriving DecidableEq

section
variable {T C Q : Type} [DecidableEq T] [DecidableEq C] [DecidableEq Q]

def World.setchannel (w : World T C Q) (c : C) (channel : LuaChannel T) : World T C Q :=
  { w with channel := Function.update w.channel c channel }

def World.setL (w : World T C Q) (c : C) (L : Stack) : World T C Q :=
  w.setchannel c { w.channel c with L := L }

def World.setsync (w : World T C Q) (name : String) (sync : Sync (Waiter C Q)) : World T C Q :=
  { w with sync := Function.update w.sync name sync }

def restorechannel (w : World T C Q) (c : C) : World T C Q :=
  w.setchannel c { w.channel c with L := [], syncregkey := none, handle := none }

section
variable (w : World T C Q) (c : C) (channel : LuaChannel T) (name : String)
  (sync : Sync (Waiter C Q))

omit [DecidableEq T] [DecidableEq Q]

@[simp] theorem setchannel_self : (w.setchannel c channel).channel c = channel := by
  simp only [World.setchannel, Function.update_self]

theorem setchannel_of_ne {d : C} (other : d ≠ c) :
    (w.setchannel c channel).channel d = w.channel d := by
  simp only [World.setchannel, Function.update_of_ne other]

@[simp] theorem setchannel_sync : (w.setchannel c channel).sync = w.sync := rfl

@[simp] theorem setchannel_signals : (w.setchannel c channel).signals = w.signals := rfl

omit [DecidableEq C] in
@[simp] theorem setsync_channel : (w.setsync name sync).channel = w.channel := rfl

omit [DecidableEq C] in
@[simp] theorem setsync_signals : (w.setsync name sync).signals = w.signals := rfl

omit [DecidableEq C] in
@[simp] theorem setsync_self : (w.setsync name sync).sync name = sync := by
  simp only [World.setsync, Function.update_self]

omit [DecidableEq C] in
theorem setsync_of_ne {other : String} (distinct : other ≠ name) :
    (w.setsync name sync).sync other = w.sync other := by
  simp only [World.setsync, Function.update_of_ne distinct]

@[simp] theorem setL_channel (L : Stack) :
    (w.setL c L).channel c = { w.channel c with L := L } := by
  simp only [World.setL, setchannel_self]

end

variable (channels : Channels C)

/-- There is none when an error is raised. -/
def chklchannel (w : World T C Q) (L : Stack) : Option C :=
  (channels.check (index L 1)).filter fun c => !(w.channel c).closed

def asyncsend (w : World T C Q) (c : C) : Except Failure (World T C Q) :=
  match (w.channel c).syncregkey with
  | none => .error .asyncsend
  | some x => .ok { w with signals := if x ∈ w.signals then w.signals else w.signals ++ [x] }

def Offered.stack (offered : Offered) : Stack := offer offered.L offered.base offered.narg

/-- The exchange with the state that waited, and what is done to wake it up. -/
def exchange (w : World T C Q) (env : Env Q) (L : Stack) (narg : ℕ) :
    Waiter C Q → Except Failure (Stack × World T C Q)
  | .own d => do
    let both := swapvalues env.faults L 1 narg (w.channel d).L
    let w ← asyncsend (w.setL d both.2) d
    pure (both.1, w)
  | .other q => .ok ((swapvalues env.faults L 1 narg (env.others q).stack).1, w)

/-- The values that are returned once the number on top is discarded. -/
def synced (L : Stack) : Except Failure (List Value) :=
  if (index L L.length).tointeger = L.length - 2 then .ok (L.dropLast.drop 1)
  else .error .channelsync

def cancelsuspension (L : Stack) : Stack :=
  settop L 1 ++ [.boolean false, .string "empty", .integer 2]

/-- No values are returned when an error is raised. -/
def channel_sync (w : World T C Q) (env : Env Q) (L : Stack) :
    Except Failure (Option (List Value) × World T C Q) :=
  match chklchannel channels w L with
  | none => .ok (none, w)
  | some c =>
    match checksyncargs L 2 with
    | some (some endpoint, L) =>
      let name := channels.name c
      match matchchsync (w.sync name) endpoint none with
      | (sync, .matched found) => do
        let (L, w) ← exchange (w.setsync name sync) env L (L.length - 2) found
        let values ← synced L
        pure (some values, w)
      | (sync, _) => do
        let values ← synced (cancelsuspension L)
        pure (some values, w.setsync name sync)
    | _ => .ok (none, w)

/-- There is no result when an error is raised, because the channel is in use. -/
def channel_close (w : World T C Q) (c : C) : Option (Bool × World T C Q) :=
  if (w.channel c).handle.isSome then none
  else if (w.channel c).closed then some (false, w)
  else some (true, w.setchannel c { w.channel c with closed := true })

/-- The stack of the channel and what is left of the caller's. A failure leaves the results of
the caller, and tells whether it was that of `uv_async_init`. -/
def armsynced (fault : ArmFault) (loop : Bool) (cL L : Stack) :
    Except (Bool × Stack) (Stack × Stack) :=
  let narg := L.length - 2
  if fault.space then
    .error (false, settop L 1 ++ [.boolean false, .string "insufficient memory"])
  else
    let moved := if narg > 0 then movefrom fault.move (settop cL 1) L narg "argument"
      else .ok (cL, L)
    match moved with
    | .error cL =>
      match pushfrom fault.report (index cL cL.length) (-1) "error" with
      | .error pushed => .error (false, settop L 1 ++ .boolean false :: pushed)
      | .ok text => .error (false, settop L 1 ++ [.boolean false, text])
    | .ok (cL, L) =>
      match loop, fault.init with
      | true, some (text, code) =>
        .error (true, settop L 1 ++ [.boolean false, .string text, .integer (-code)])
      | _, _ => .ok (offer cL 0 narg, L)

/-- `channelsync` with the arguments checked, for a coroutine that may wait. -/
def channelsync (x : T) (w : World T C Q) (env : Env Q) (loop : Bool) (c : C) (endpoint : Endpoint)
    (L : Stack) : Except Failure (Setup Value × World T C Q) :=
  let name := channels.name c
  let armed := armsynced env.arm loop (w.channel c).L L
  match matchchsync (w.sync name) endpoint (armed.toOption.map fun _ => .own c) with
  | (sync, .matched found) => do
    let (L, w) ← exchange (w.setsync name sync) env L (L.length - 2) found
    let values ← synced L
    pure (.results values, w)
  | (sync, _) =>
    let w := w.setsync name sync
    if (w.channel c).L ≠ [] then .error .armsynced
    else
      match armed with
      | .ok (cL, L) => .ok (.armed L, w.setchannel c
          { w.channel c with L := cL, syncregkey := some x, handle := some x })
      | .error (inits, L) => do
        let values ← synced L
        pure (if inits then .armerror values else .results values, w.setL c [])

def k_setupsynced (x : T) (w : World T C Q) (env : Env Q) (loop : Bool) (L : Stack) :
    Except Failure (Setup Value × World T C Q) :=
  match chklchannel channels w L with
  | none => .ok (.error, w)
  | some c =>
    if (w.channel c).handle.isSome then .ok (.error, w)
    else
      match checksyncargs L 2 with
      | some (some endpoint, L) => channelsync channels x w env loop c endpoint L
      | _ => .ok (.error, w)

/-- The channel that becomes the value of the operation when the cancel function answers 0. -/
def cancelsynced (w : World T C Q) (L : Stack) : Except Failure (Option C × World T C Q) :=
  match channels.check (index L 1) with
  | none => .error .touserdata
  | some c =>
    let name := channels.name c
    if .own c ∈ (w.sync name).queue then
      .ok (none, restorechannel (w.setsync name (removestateq (w.sync name) (.own c))) c)
    else .ok (some c, w)

/-- `memory` is what the transfer of the values lacks. -/
def returnsynced (w : World T C Q) (memory : Option Lack) (L : Stack) :
    Except Failure (List Value × World T C Q) :=
  match channels.check (index L 1) with
  | none => .error .touserdata
  | some c =>
    let cL := (w.channel c).L
    if (index cL cL.length).tointeger ≠ cL.length - 1 then .error .returnsynced
    else
      let cL := cL.dropLast
      match movefrom memory L cL cL.length "" with
      | .error _ => .error .returnsynced
      | .ok (L', _) => .ok (L'.drop (L'.length - cL.length), restorechannel w c)

/-- The functions that `system.awaitch` gives to `lcuT_resetcohdlk`. The values that its results
are made of are those of `returnsynced`. -/
def awaitch (x : T) : Client Value (View T C Q) where
  setup := fun view loop L =>
    match k_setupsynced channels x view.world view.env loop L with
    | .ok (setup, _) => setup
    | .error _ => .error
  results := some fun _ values => values
  cancel := some fun view L =>
    match cancelsynced channels view.world L with
    | .ok (none, _) => true
    | _ => false

/-- A match of another thread, with the state of the channel before and after the exchange. -/
inductive Hand (C : Type) where
  | taken (c : C)
  | swapped (c : C)
  deriving DecidableEq

def Hand.channel : Hand C → C
  | .taken c => c
  | .swapped c => c

structure State (T C Q : Type) where
  op : T → Operation.State Value (View T C Q)
  world : World T C Q
  /-- `lcu_setopvalue` of the operation of each coroutine. -/
  opvalue : T → Option C
  hands : List (Hand C)

inductive Act (T C Q : Type) where
  | awaitch (x : T) (L : Stack) (env : Env Q)
  | call (x : T) (target : Target) (client : Client Value (View T C Q)) (L : Stack) (env : Env Q)
  | yield (x : T)
  | finish (x : T)
  | resume (x : T) (values : List Value) (env : Env Q)
  | requestcb (x : T) (values : List Value) (env : Env Q)
  | handlecb (x : T) (values : List Value) (env : Env Q)
  | closecb (x : T) (env : Env Q)
  | onsynced (x : T) (memory : Option Lack) (env : Env Q)
  | sync (x : T) (L : Stack) (env : Env Q)
  | close (x : T) (c : C)
  | enter (name : String) (endpoint : Endpoint) (waits : Option Q)
  | leave (name : String) (q : Q)
  | swap (j : ℕ) (calling : Offered) (faults : Faults)
  | send (j : ℕ)

/-- What a coroutine does to its operation, the world after it, and the value of the operation. -/
structure Turn (T C Q : Type) where
  x : T
  act : Operation.Act Value (View T C Q)
  effect : Except Failure (World T C Q × Option C)

/-- The world once a coroutine that waited for its operation goes on. -/
def restart (s : State T C Q) (x : T) (env : Env Q) : Except Failure (World T C Q × Option C) :=
  match (s.op x).op.flags.pending, (s.op x).place with
  | true, .resetop (.handle .async) _ L =>
    (k_setupsynced channels x s.world env true L).map fun r => (r.2, s.opvalue x)
  | _, _ => .ok (s.world, s.opvalue x)

/-- An operation that is not of `system.awaitch`. -/
def isOther (target : Target) (client : Client Value (View T C Q)) : Bool :=
  decide (target ≠ .handle .async) && client.cancel.isNone

/-- `uv_onsynced`, up to the resume of the coroutine: the values it is resumed with. -/
def uv_onsynced (s : State T C Q) (x : T) (memory : Option Lack) :
    Except Failure (List Value × World T C Q × Option C) :=
  let w := { s.world with signals := s.world.signals.erase x }
  let flags := (s.op x).op.flags
  if flags.pending ∧ ¬flags.cleanup then
    match (s.op x).place with
    | .endop L => (returnsynced channels w memory L).map fun r => (r.1, r.2, s.opvalue x)
    | _ => .ok ([], w, s.opvalue x)
  else
    match s.opvalue x with
    | none => .error .onsynced
    | some c => .ok ([], restorechannel w c, none)

def turn (s : State T C Q) : Act T C Q → Option (Turn T C Q)
  | .awaitch x L env =>
    let armed (loop : Bool) :=
      (k_setupsynced channels x s.world env loop L).map fun r => (r.2, s.opvalue x)
    some ⟨x, .call (.handle .async) (awaitch channels x) ⟨s.world, env⟩ L,
      match ((s.op x).op.checkreset (.handle .async)).1 with
      | .waitop => .ok (s.world, s.opvalue x)
      | .freeop => armed true
      | .sameop => armed false⟩
  | .call x target client L env =>
    if isOther target client then
      some ⟨x, .call target client ⟨s.world, env⟩ L, .ok (s.world, s.opvalue x)⟩
    else none
  | .yield x => some ⟨x, .yield, .ok (s.world, s.opvalue x)⟩
  | .finish x => some ⟨x, .finish, .ok (s.world, s.opvalue x)⟩
  | .resume x values env =>
    some ⟨x, .resume ⟨s.world, env⟩ values,
      match (s.op x).place, (s.op x).cancel with
      | .endop L, some _ => (cancelsynced channels s.world (L ++ values)).map fun r =>
          (r.2, r.1.or (s.opvalue x))
      | _, _ => .ok (s.world, s.opvalue x)⟩
  | .requestcb x values env => some ⟨x, .requestcb ⟨s.world, env⟩ values, restart channels s x env⟩
  | .handlecb x values env =>
    match (s.op x).op.kind with
    | .handle .async _ => none
    | _ => some ⟨x, .handlecb ⟨s.world, env⟩ values, .ok (s.world, s.opvalue x)⟩
  | .closecb x env => some ⟨x, .closecb ⟨s.world, env⟩, restart channels s x env⟩
  | .onsynced x memory env =>
    if x ∈ s.world.signals then
      let called := uv_onsynced channels s x memory
      let values := match called with
        | .ok (values, _) => values
        | .error _ => []
      some ⟨x, .handlecb ⟨s.world, env⟩ values, called.map Prod.snd⟩
    else none
  | _ => none

/-- What a coroutine does to its channels without its operation, and what other threads do. -/
def outside (s : State T C Q) : Act T C Q → Option (Except Failure (State T C Q))
  | .sync x L env =>
    match (s.op x).place with
    | .running _ => some ((channel_sync channels s.world env L).map fun r => { s with world := r.2 })
    | _ => none
  | .close x c =>
    match (s.op x).place with
    | .running _ =>
      match channel_close s.world c with
      | some (_, w) => some (.ok { s with world := w })
      | none => some (.ok s)
    | _ => none
  | .enter name endpoint waits =>
    match matchchsync (s.world.sync name) endpoint (waits.map .other) with
    | (sync, .matched (.own c)) =>
      some (.ok { s with world := s.world.setsync name sync, hands := s.hands ++ [.taken c] })
    | (sync, _) => some (.ok { s with world := s.world.setsync name sync })
  | .leave name q =>
    some (.ok { s with world := s.world.setsync name (removestateq (s.world.sync name) (.other q)) })
  | .swap j calling faults =>
    match s.hands[j]? with
    | some (.taken c) =>
      let both := swapvalues faults calling.L calling.base calling.narg (s.world.channel c).L
      some (.ok { s with world := s.world.setL c both.2, hands := s.hands.set j (.swapped c) })
    | _ => none
  | .send j =>
    match s.hands[j]? with
    | some (.swapped c) =>
      some ((asyncsend s.world c).map fun w => { s with world := w, hands := s.hands.eraseIdx j })
    | _ => none
  | _ => none

def finish (s : State T C Q) (turn : Turn T C Q) :
    Except Site (Operation.State Value (View T C Q)) → Except Failure (State T C Q)
  | .error site => .error (.op site)
  | .ok u => turn.effect.map fun r =>
      { s with
        op := Function.update s.op turn.x u
        world := r.1
        opvalue := Function.update s.opvalue turn.x r.2 }

def step (s : State T C Q) (a : Act T C Q) : Option (Except Failure (State T C Q)) :=
  match turn channels s a with
  | some turn => (Operation.step (s.op turn.x) turn.act).map (finish s turn)
  | none => outside channels s a

def next (s : State T C Q) (a : Act T C Q) : Option (State T C Q) :=
  match step channels s a with
  | some (.ok u) => some u
  | _ => none

def initial : State T C Q where
  op := fun _ => Operation.State.init
  world := ⟨fun _ => ⟨false, [], none, none⟩, fun _ => Sync.new, []⟩
  opvalue := fun _ => none
  hands := []

end
end Coutil.ChannelAwait
