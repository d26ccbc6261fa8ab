import Coutil.PoolInvariant
import Coutil.Exchange

set_option autoImplicit false

/-! The tasks of a thread pool with the channels they wait on: `threadmain` and
`lcuTP_resumetask` of `src/lthpool.c`, `lcuCS_matchchsync`, `getsuspendedtask` and
`lcuCS_suspendedchtask` of `src/lchaux.c`, and `uv_onsynced` of `src/lchannem.c`. A step is a
section under one of the mutexes, or what a thread does between two of them. -/
namespace Coutil.TaskSystem
open Runs ChannelSync Exchange

/-- The state of the running worker between `running++` and `running--`: with a task taken
from the queue, in `lua_resume`, with the values the task yielded, about to close the ended
task, after the match or after `lcuCS_suspendedchtask`, about to lock the mutex again. -/
inductive Job where
  | fetched
  | executing
  | yielded (base : ℕ)
  | closing
  | freeing (enqueue : Bool)
  | discarding (base : ℕ) (enqueue : Bool)
  | returning (enqueue yielded : Bool)
  deriving DecidableEq

/-- Who waits in a sync record: a task with its own state, or a channel with the state that
was made for it, here given by its stack. -/
inductive Waiter (T C : Type) where
  | task (t : T)
  | channel (c : C) (L : Stack)
  deriving DecidableEq

/-- The thread of a match after it left the mutex of the sync record: with the match it took,
with the values exchanged and the signal still to be sent, between the signal and the section
of the channel task, in `lcuTP_resumetask`, in its `lua_close`. -/
inductive Stage (T C : Type) where
  | taken (found : Waiter T C)
  | swapped (c : C) (L : Stack)
  | sent (t : T)
  | resuming (t : T)
  | closing (t : T)
  | done

def Stage.isDone {T C : Type} : Stage T C → Bool
  | .done => true
  | _ => false

/-- Whose stack is exchanged: that of the task a worker runs, or of a coroutine that called
`system.awaitch` or `channel:sync`. -/
inductive Source (T : Type) where
  | task (t : T) (base narg : ℕ)
  | caller (L : Stack) (base narg : ℕ)

/-- The thread is the number of a worker, or none for any other one. -/
structure Matcher (T C : Type) where
  thread : Option ℕ
  source : Source T
  stage : Stage T C

structure ChannelTask (T : Type) where
  wakes : ℤ
  L : Option T

/-- What happened so far to the waits of a task. -/
structure Tally where
  matched : ℕ
  sent : ℕ
  booked : ℕ
  processed : ℕ
  stores : ℕ
  takes : ℕ

/-- The name of a channel and the task in whose state it was created, if in one. -/
structure Channels (T C : Type) where
  name : C → String
  owner : C → Option T

structure State (T C : Type) where
  pool : ThreadPool.State T
  job : ℕ → Job
  stack : T → Stack
  below : T → Stack
  started : T → Bool
  sync : String → Sync (Waiter T C)
  chan : T → ChannelTask T
  armed : List C
  signals : List (C × Stack)
  matchers : List (Matcher T C)
  added : List T
  closed : List T
  accounted : List T
  tally : T → Tally

inductive Act (T C : Type) where
  | add (t : T) (L : Stack) (created : Bool) (w : ℕ)
  | lock (i w : ℕ)
  | awake (i : ℕ)
  | resize (size : ℤ) (create : Bool) (created w : ℕ)
  | close
  | closeagain
  | closeawake
  | drain
  | resume (i : ℕ)
  | yield (i : ℕ) (below values : Stack)
  | ends (i : ℕ)
  | closetask (i : ℕ)
  | handle (i : ℕ)
  | free (i : ℕ)
  | discard (i : ℕ)
  | finish (i w : ℕ)
  | awaitch (thread : Option ℕ) (c : C) (L : Stack) (prepared : Bool)
  | trysync (thread : Option ℕ) (c : C) (L : Stack)
  | cancel (thread : Option ℕ) (c : C)
  | process (thread : Option ℕ) (c : C)
  | swap (j : ℕ) (faults : Faults)
  | send (j : ℕ)
  | book (j : ℕ)
  | resumetask (j : ℕ) (created : Bool) (w : ℕ)
  | collect (j : ℕ)

def Tally.zero : Tally := ⟨0, 0, 0, 0, 0, 0⟩

section
variable {T C : Type}

def initial : State T C where
  pool := ThreadPool.createtpool
  job := fun _ => .fetched
  stack := fun _ => []
  below := fun _ => []
  started := fun _ => false
  sync := fun _ => Sync.new
  chan := fun _ => ⟨0, none⟩
  armed := []
  signals := []
  matchers := []
  added := []
  closed := []
  accounted := []
  tally := fun _ => .zero

variable [DecidableEq T] [DecidableEq C]

namespace State

def busy (s : State T C) (i : ℕ) : Bool :=
  s.matchers.any fun m => m.thread = some i ∧ ¬m.stage.isDone

/-- The task that worker `i` runs, if it is to do the next step for it itself. -/
def running (s : State T C) (i : ℕ) : Option T :=
  if s.busy i then none else s.pool.task i

def disposing (s : State T C) (t : T) : Bool :=
  s.pool.draining.head? = some t ∨
    s.matchers.any fun m => match m.stage with
      | .closing u => u = t
      | _ => false

/-- The thread runs the code of task `t`, or its finalizers. -/
def executes (s : State T C) (thread : Option ℕ) (t : T) : Bool :=
  match thread with
  | none => s.disposing t
  | some i => s.running i = some t ∧ (s.job i = .executing ∨ s.job i = .closing)

/-- The thread runs the code that channel `c` was created by. -/
def calls (s : State T C) (channels : Channels T C) (thread : Option ℕ) (c : C) : Bool :=
  match channels.owner c with
  | none => thread = none
  | some t => s.executes thread t

/-- No channel of the task is in use, as when `lua_close` of it is through with them. -/
def unused (s : State T C) (channels : Channels T C) (t : T) : Bool :=
  s.armed.all fun c => channels.owner c ≠ some t

def setjob (s : State T C) (i : ℕ) (job : Job) : State T C :=
  { s with job := Function.update s.job i job }

def setstack (s : State T C) (t : T) (L : Stack) : State T C :=
  { s with stack := Function.update s.stack t L }

def setsync (s : State T C) (name : String) (sync : Sync (Waiter T C)) : State T C :=
  { s with sync := Function.update s.sync name sync }

def setchan (s : State T C) (t : T) (chan : ChannelTask T) : State T C :=
  { s with chan := Function.update s.chan t chan }

def setstage (s : State T C) (j : ℕ) (m : Matcher T C) (stage : Stage T C) : State T C :=
  { s with matchers := s.matchers.set j { m with stage := stage } }

def note (s : State T C) (t : T) (change : Tally → Tally) : State T C :=
  { s with tally := Function.update s.tally t (change (s.tally t)) }

def collect (s : State T C) (t : T) : State T C :=
  { s with
    pool := ThreadPool.collectthreadpool s.pool
    closed := s.closed ++ [t]
    accounted := s.accounted ++ [t] }

end State

/-- `lcuTP_addtpooltask` of a new state with a function and its arguments. -/
def addtask (s : State T C) (t : T) (L : Stack) (created : Bool) (w : ℕ) : Option (State T C) :=
  if t ∈ s.added ∨ L = [] then none
  else (ThreadPool.addtpooltask s.pool t created w).map fun pool =>
    { s with
      pool := pool
      stack := Function.update s.stack t L
      started := Function.update s.started t false
      added := s.added ++ [t] }

/-- A section of the pool by worker `i`, which may take a task. -/
def poolsection (s : State T C) (i : ℕ) (act : ThreadPool.Act T) : Option (State T C) :=
  (ThreadPool.step s.pool act).map fun pool => { s with pool := pool }.setjob i .fetched

/-- A section of the pool that is of no worker with a task. -/
def elsewhere (s : State T C) (act : ThreadPool.Act T) : Option (State T C) :=
  (ThreadPool.step s.pool act).map fun pool => { s with pool := pool }

def lock (s : State T C) (i w : ℕ) : Option (State T C) :=
  match s.pool.at? i with
  | some .starting => poolsection s i (.start i w)
  | _ => poolsection s i (.relock i w)

/-- `lcuTP_closetpool` closes the next of the tasks that it took from the queue. -/
def drain (channels : Channels T C) (s : State T C) : Option (State T C) :=
  match s.pool.closer with
  | .closing (t :: queue) =>
    if s.unused channels t then
      some (State.collect { s with pool := { s.pool with closer := .closing queue } } t)
    else none
  | _ => none

def resume (s : State T C) (i : ℕ) (t : T) : State T C :=
  let L := s.stack t
  let narg := if s.started t then (index L L.length).tointeger.toNat else L.length - 1
  let L := if s.started t then L.dropLast else L
  { s with started := Function.update s.started t true }.setstack t (L.take (L.length - narg))
    |>.setjob i .executing

def yielding (s : State T C) (i : ℕ) (t : T) (below values : Stack) : State T C :=
  { s with below := Function.update s.below t below }.setstack t (below ++ values)
    |>.setjob i (.yielded below.length)

/-- The results of a yield with bad arguments. -/
def reject (L : Stack) (base : ℕ) : Stack :=
  settop (replace (replace L (base + 2) ++ [.boolean false]) (base + 1)) (base + 2) ++ [.integer 2]

/-- The task or channel that is matched, in the account of the task it belongs to. -/
def noteMatch (channels : Channels T C) (s : State T C) : Waiter T C → State T C
  | .task _ => s
  | .channel c _ =>
    match channels.owner c with
    | none => s
    | some t => s.note t fun tally => { tally with matched := tally.matched + 1 }

def startMatch (channels : Channels T C) (s : State T C) (thread : Option ℕ) (source : Source T)
    (found : Waiter T C) : State T C :=
  noteMatch channels
    { s with matchers := s.matchers ++ [⟨thread, source, .taken found⟩] } found

/-- `lcuCS_matchchsync` for the task of a worker. -/
def matchtask (channels : Channels T C) (s : State T C) (i : ℕ) (t : T) (name : String)
    (endpoint : Endpoint) (L : Stack) (base : ℕ) : Option (State T C) :=
  let narg := L.length - base - 2
  match matchchsync (s.sync name) endpoint (some (.task t)) with
  | (sync, .waits) =>
    some (((s.setsync name sync).setstack t (offer L base narg)).setjob i (.freeing false))
  | (sync, .matched found) =>
    some (startMatch channels (((s.setsync name sync).setstack t L).setjob i (.freeing true))
      (some i) (.task t base narg) found)
  | (_, .refused) => none

/-- A task that yielded the name of a channel. An error that is raised here is not caught. -/
def syncname (channels : Channels T C) (s : State T C) (i : ℕ) (t : T) (base : ℕ)
    (name : String) : Option (State T C) :=
  (checksyncargs ((s.stack t).set base (.string name)) (base + 2)).bind fun checked =>
    match checked with
    | (none, L) => some ((s.setstack t (reject L base)).setjob i (.freeing true))
    | (some endpoint, L) => matchtask channels s i t name endpoint L base

/-- `lcuCS_suspendedchtask` stores the task. -/
def stores (s : State T C) (t : T) (base : ℕ) : Bool :=
  (s.stack t)[base]? = some .channeltask ∧ (s.chan t).wakes = 0

def suspendedchtask (s : State T C) (i : ℕ) (t : T) (base : ℕ) : State T C :=
  if stores s t base then
    ((s.setchan t { s.chan t with L := some t }).note t fun tally =>
      { tally with stores := tally.stores + 1 }).setjob i (.discarding base false)
  else s.setjob i (.discarding base true)

def handle (channels : Channels T C) (s : State T C) (i : ℕ) (t : T) (base : ℕ) :
    Option (State T C) :=
  match (s.stack t)[base]?.bind Value.tostring with
  | some name => syncname channels s i t base name
  | none => some (suspendedchtask s i t base)

/-- What the worker does next for the task it runs. -/
def work (channels : Channels T C) (s : State T C) (i : ℕ) (t : T) :
    Job → Act T C → Option (State T C)
  | .fetched, .resume _ => some (resume s i t)
  | .executing, .yield _ below values => some (yielding s i t below values)
  | .executing, .ends _ => some (s.setjob i .closing)
  | .closing, .closetask _ =>
    if s.unused channels t then
      some ({ s with closed := s.closed ++ [t] }.setjob i (.returning false false))
    else none
  | .yielded base, .handle _ => handle channels s i t base
  | .freeing enqueue, .free _ => some (s.setjob i (.returning enqueue true))
  | .discarding base enqueue, .discard _ =>
    some ((s.setstack t (settop (s.stack t) base ++ [.integer 0])).setjob i
      (.returning enqueue true))
  | .returning enqueue yielded, .finish _ w =>
    (poolsection s i (.finish i enqueue yielded w)).map fun u =>
      if enqueue ∨ yielded then u else { u with accounted := u.accounted ++ [t] }
  | _, _ => none

/-- The stack of a channel that waits: its arguments after the place for the first result. -/
def armsynced (L : Stack) : Stack :=
  let narg := L.length - 2
  if narg > 0 then offer (.nil :: L.drop 2) 0 narg else offer [] 0 narg

/-- `channelsync`, by a coroutine with the channel as its first value. -/
def channelsync (channels : Channels T C) (s : State T C) (thread : Option ℕ) (c : C) (L : Stack)
    (waits : Bool) : Option (State T C) :=
  match checksyncargs L 2 with
  | some (some endpoint, L) =>
    let name := channels.name c
    let getstate := if waits then some (.channel c (armsynced L)) else none
    match matchchsync (s.sync name) endpoint getstate with
    | (sync, .waits) => some { s.setsync name sync with armed := s.armed ++ [c] }
    | (sync, .matched found) =>
      some (startMatch channels (s.setsync name sync) thread (.caller L 1 (L.length - 2)) found)
    | (sync, .refused) => some (s.setsync name sync)
  | _ => none

def Waiter.isChannel (c : C) : Waiter T C → Bool
  | .channel d _ => d = c
  | .task _ => false

/-- `cancelsynced`, and `channelclose` of a channel in use: only a state that is still in the
queue is taken out. -/
def cancel (channels : Channels T C) (s : State T C) (c : C) : Option (State T C) :=
  let name := channels.name c
  ((s.sync name).queue.find? (Waiter.isChannel c)).map fun found =>
    { s.setsync name (removestateq (s.sync name) found) with armed := s.armed.erase c }

/-- `uv_onsynced` -/
def onsynced (channels : Channels T C) (s : State T C) (c : C) : Option (State T C) :=
  (s.signals.find? fun signal => signal.1 = c).map fun signal =>
    let s : State T C :=
      { s with signals := s.signals.erase signal, armed := s.armed.erase c }
    match channels.owner c with
    | none => s
    | some t =>
      (s.setchan t { s.chan t with wakes := (s.chan t).wakes - 1 }).note t fun tally =>
        { tally with processed := tally.processed + 1 }

def Source.stack (s : State T C) : Source T → Stack
  | .task t _ _ => s.stack t
  | .caller L _ _ => L

def Source.base : Source T → ℕ
  | .task _ base _ => base
  | .caller _ base _ => base

def Source.narg : Source T → ℕ
  | .task _ _ narg => narg
  | .caller _ _ narg => narg

def Waiter.stack (s : State T C) : Waiter T C → Stack
  | .task t => s.stack t
  | .channel _ L => L

def putsource (s : State T C) (L : Stack) : Source T → State T C
  | .task t _ _ => s.setstack t L
  | .caller _ _ _ => s

def putmatch (s : State T C) (j : ℕ) (m : Matcher T C) (L : Stack) : Waiter T C → State T C
  | .task t => (s.setstack t L).setstage j m (.resuming t)
  | .channel c _ => s.setstage j m (.swapped c L)

def swap (s : State T C) (j : ℕ) (m : Matcher T C) (found : Waiter T C) (faults : Faults) :
    State T C :=
  let both := swapvalues faults (m.source.stack s) m.source.base m.source.narg (found.stack s)
  putmatch (putsource s both.1 m.source) j m both.2 found

/-- `uv_async_send`; a handle that was signalled already is not signalled again. -/
def asyncsend (s : State T C) (c : C) (L : Stack) : State T C :=
  if s.signals.any fun signal => signal.1 = c then s
  else { s with signals := s.signals ++ [(c, L)] }

def send (channels : Channels T C) (s : State T C) (j : ℕ) (m : Matcher T C) (c : C) (L : Stack) :
    State T C :=
  let s := asyncsend s c L
  match channels.owner c with
  | none => s.setstage j m .done
  | some t => (s.setstage j m (.sent t)).note t fun tally => { tally with sent := tally.sent + 1 }

/-- The section of `getsuspendedtask`. -/
def book (s : State T C) (j : ℕ) (m : Matcher T C) (t : T) : State T C :=
  let found := (s.chan t).L
  let s := s.setchan t ⟨(s.chan t).wakes + 1, none⟩
  match found with
  | none =>
    (s.setstage j m .done).note t fun tally => { tally with booked := tally.booked + 1 }
  | some u =>
    (s.setstage j m (.resuming u)).note t fun tally =>
      { tally with booked := tally.booked + 1, takes := tally.takes + 1 }

def resumetask (s : State T C) (j : ℕ) (m : Matcher T C) (t : T) (created : Bool) (w : ℕ) :
    Option (State T C) :=
  (ThreadPool.addthread_mx s.pool t created w).map fun added =>
    let s : State T C := { s with pool := added.2 }
    if added.1 then s.setstage j m .done else s.setstage j m (.closing t)

def proceed (channels : Channels T C) (s : State T C) (j : ℕ) (m : Matcher T C) :
    Stage T C → Act T C → Option (State T C)
  | .taken found, .swap _ faults => some (swap s j m found faults)
  | .swapped c L, .send _ => some (send channels s j m c L)
  | .sent t, .book _ => some (book s j m t)
  | .resuming t, .resumetask _ created w => resumetask s j m t created w
  | .closing t, .collect _ =>
    if s.unused channels t then some ((s.collect t).setstage j m .done) else none
  | _, _ => none

def Act.worker : Act T C → Option ℕ
  | .resume i => some i
  | .yield i _ _ => some i
  | .ends i => some i
  | .closetask i => some i
  | .handle i => some i
  | .free i => some i
  | .discard i => some i
  | .finish i _ => some i
  | _ => none

def Act.matcher : Act T C → Option ℕ
  | .swap j _ => some j
  | .send j => some j
  | .book j => some j
  | .resumetask j _ _ => some j
  | .collect j => some j
  | _ => none

/-- A step of a coroutine on one of its channels. -/
def Act.syncs : Act T C → Option (Option ℕ × C)
  | .awaitch thread c _ _ => some (thread, c)
  | .trysync thread c _ => some (thread, c)
  | _ => none

/-- The steps that are of no worker with a task and of no match under way. -/
def other (channels : Channels T C) (s : State T C) : Act T C → Option (State T C)
  | .add t L created w => addtask s t L created w
  | .lock i w => lock s i w
  | .awake i => elsewhere s (.awake i)
  | .resize size create created w => elsewhere s (.resize size create created w)
  | .close => elsewhere s .close
  | .closeagain => elsewhere s .closeagain
  | .closeawake => elsewhere s .closeawake
  | .drain => drain channels s
  | .awaitch thread c L prepared =>
    if s.calls channels thread c ∧ L ≠ [] ∧ c ∉ s.armed then
      channelsync channels s thread c L prepared
    else none
  | .trysync thread c L =>
    if s.calls channels thread c ∧ L ≠ [] then channelsync channels s thread c L false else none
  | .cancel thread c => if s.calls channels thread c then cancel channels s c else none
  | .process thread c => if s.calls channels thread c then onsynced channels s c else none
  | _ => none

def step (channels : Channels T C) (s : State T C) (act : Act T C) : Option (State T C) :=
  match act.worker, act.matcher with
  | some i, _ => (s.running i).bind fun t => work channels s i t (s.job i) act
  | none, some j => s.matchers[j]?.bind fun m => proceed channels s j m m.stage act
  | none, none => other channels s act

end

end Coutil.TaskSystem
