import Coutil.Runs
import Coutil.Census

set_option autoImplicit false

/-! The thread pool of `src/lthpool.c`. A step is what one thread does while it holds the
mutex of the pool, from where it gets the mutex to where it gives it up; the tasks are of any
type. The flag `JOIN_PENDING` and the field `last_terminated`, which only tell which system
thread is to be joined, are left out. -/
namespace Coutil.ThreadPool
open Census

/-- `STATUS_OPEN`, `STATUS_CLOSING` and `STATUS_CLOSED`. -/
inductive Status where
  | opened
  | closing
  | closed
  deriving DecidableEq

structure Pool (T : Type) where
  status : Status
  size : ℤ
  threads : ℤ
  idle : ℤ
  tasks : ℤ
  running : ℤ
  pending : ℤ
  queue : List T

/-- Where a worker is in `threadmain`: created and not through its first lock, in
`uv_cond_wait`, woken there by a signal or for no reason and not holding the mutex yet,
between `running++` and `running--`, holding the mutex, past `thread_end`. -/
inductive Phase (T : Type) where
  | starting
  | waiting
  | signalled
  | spurious
  | running (task : T)
  | locked
  | ended

inductive Kind where
  | starting
  | waiting
  | signalled
  | spurious
  | running
  | locked
  | ended
  deriving DecidableEq

def Phase.kind {T : Type} : Phase T → Kind
  | .starting => .starting
  | .waiting => .waiting
  | .signalled => .signalled
  | .spurious => .spurious
  | .running _ => .running
  | .locked => .locked
  | .ended => .ended

/-- The thread of `lcuTP_closetpool`: not in it, in its wait on `onterm`, woken there, past
its section with the tasks it has still to close. -/
inductive Closer (T : Type) where
  | away
  | waiting
  | woken
  | closing (queue : List T)

structure State (T : Type) where
  pool : Pool T
  workers : List (Phase T)
  closer : Closer T

section
variable {T : Type}

@[simp] theorem kind_starting : (.starting : Phase T).kind = .starting := rfl

@[simp] theorem kind_waiting : (.waiting : Phase T).kind = .waiting := rfl

@[simp] theorem kind_signalled : (.signalled : Phase T).kind = .signalled := rfl

@[simp] theorem kind_spurious : (.spurious : Phase T).kind = .spurious := rfl

@[simp] theorem kind_locked : (.locked : Phase T).kind = .locked := rfl

@[simp] theorem kind_ended : (.ended : Phase T).kind = .ended := rfl

@[simp] theorem kind_running (task : T) : (.running task : Phase T).kind = .running := rfl

/-- As `lcuTP_createtpool` makes it. -/
def createtpool : State T where
  pool :=
    { status := .opened
      size := 0
      threads := 0
      idle := 0
      tasks := 0
      running := 0
      pending := 0
      queue := [] }
  workers := []
  closer := .away

namespace State

def count (s : State T) (k : Kind) : ℕ :=
  census Phase.kind s.workers k

def at? (s : State T) (i : ℕ) : Option Kind :=
  s.workers[i]?.map Phase.kind

/-- The task that worker `i` runs. -/
def task (s : State T) (i : ℕ) : Option T :=
  match s.workers[i]? with
  | some (.running t) => some t
  | _ => none

/-- The tasks that `lcuTP_closetpool` has still to close. -/
def draining (s : State T) : List T :=
  match s.closer with
  | .closing queue => queue
  | _ => []

def put (s : State T) (i : ℕ) (phase : Phase T) : State T :=
  { s with workers := s.workers.set i phase }

@[simp] theorem put_pool (s : State T) (i : ℕ) (phase : Phase T) :
    (s.put i phase).pool = s.pool := rfl

@[simp] theorem put_closer (s : State T) (i : ℕ) (phase : Phase T) :
    (s.put i phase).closer = s.closer := rfl

/-- `uv_cond_signal` on `onwork`: it wakes one waiter, here `w`, if there is one. -/
def signal (s : State T) (w : ℕ) : Option (State T) :=
  if s.count .waiting = 0 then some s
  else if s.at? w = some .waiting then some (s.put w .signalled)
  else none

end State

def Phase.wake : Phase T → Phase T
  | .waiting => .signalled
  | phase => phase

namespace State

/-- `uv_cond_broadcast` on `onwork`. -/
def broadcast (s : State T) : State T :=
  { s with workers := s.workers.map Phase.wake }

/-- `uv_cond_signal` on `onterm`. -/
def signalterm (s : State T) : State T :=
  match s.closer with
  | .waiting => { s with closer := .woken }
  | _ => s

def setsize (s : State T) (size : ℤ) : State T :=
  { s with pool := { s.pool with size := size } }

@[simp] theorem setsize_pool (s : State T) (size : ℤ) :
    (s.setsize size).pool = { s.pool with size := size } := rfl

/-- `uv_thread_create` that succeeds. -/
def create (s : State T) : State T :=
  { s with
    pool := { s.pool with threads := s.pool.threads + 1 }
    workers := s.workers ++ [.starting] }

end State

def hasextraidle_mx (pool : Pool T) : Bool :=
  pool.threads > pool.size ∧ pool.idle > 0

def checkhalted_mx (s : State T) : State T :=
  if s.pool.tasks = 0 ∧ s.pool.size > 0 then (s.setsize 0).broadcast else s

/-- The first part of `addthread_mx`: a thread is woken or created when the starting and
waking ones are for other tasks. -/
def callthread (s : State T) (created : Bool) (w : ℕ) : Option (State T) :=
  if s.pool.threads - s.pool.running - s.pool.idle ≤ s.pool.pending then
    if s.pool.idle > 0 then s.signal w
    else if s.pool.threads < s.pool.size then
      if created then some s.create else some s
    else some s
  else some s

def enqueue (s : State T) (task : T) : State T :=
  { s with
    pool := { s.pool with
      queue := s.pool.queue ++ [task]
      pending := s.pool.pending + 1 } }

/-- The task is not taken when the pool is closed, although a thread may have been created. -/
def accept (s : State T) (task : T) : Bool × State T :=
  if s.pool.status = .closed then (false, s) else (true, enqueue s task)

def addthread_mx (s : State T) (task : T) (created : Bool) (w : ℕ) : Option (Bool × State T) :=
  (callthread s created w).map fun s => accept s task

inductive Turn (T : Type) where
  | ends
  | takes (task : T)
  | waits

/-- The inner loop of `threadmain`, up to the wait. A second pass is made after `size` was
set to zero; a worker that is counted in `threads` then ends. -/
def seek : ℕ → Pool T → Option (Pool T × Turn T)
  | 0, _ => none
  | fuel + 1, pool =>
    if pool.threads > pool.size then some (pool, .ends)
    else if pool.pending ≠ 0 then
      match pool.queue with
      | [] => none
      | task :: queue =>
        some ({ pool with pending := pool.pending - 1, queue := queue }, .takes task)
    else if pool.status = .closing ∧ pool.tasks = 0 then seek fuel { pool with size := 0 }
    else some (pool, .waits)

def leave (s : State T) (i : ℕ) : State T :=
  State.put { s with pool := { s.pool with threads := s.pool.threads - 1 } } i .ended

/-- What the worker tells the others when it is not counted any more. -/
def passon (s : State T) (w : ℕ) : Option (State T) :=
  if hasextraidle_mx s.pool then s.signal w
  else if s.pool.status = .closing then
    if s.pool.threads = 0 then some s.signalterm else some (checkhalted_mx s)
  else some s

def thread_end (s : State T) (i w : ℕ) : Option (State T) :=
  passon (leave s i) w

/-- What worker `i`, holding the mutex, does until it gives it up. -/
def turn (s : State T) (i w : ℕ) : Turn T → Option (State T)
  | .takes task =>
    some (State.put { s with pool := { s.pool with running := s.pool.running + 1 } } i
      (.running task))
  | .waits =>
    some (State.put { s with pool := { s.pool with idle := s.pool.idle + 1 } } i .waiting)
  | .ends => thread_end s i w

def work (s : State T) (i w : ℕ) : Option (State T) :=
  (seek 2 s.pool).bind fun found => turn { s with pool := found.1 } i w found.2

def unwait (s : State T) : State T :=
  { s with pool := { s.pool with idle := s.pool.idle - 1 } }

/-- The end of the outer loop of `threadmain`: what becomes of the task that was run. -/
def settle (s : State T) (task : T) (enqueued yielded : Bool) : State T :=
  let s : State T := { s with pool := { s.pool with running := s.pool.running - 1 } }
  if enqueued then enqueue s task
  else if yielded then s
  else { s with pool := { s.pool with tasks := s.pool.tasks - 1 } }

def resizetpool (s : State T) (size : ℤ) (create : Bool) (created w : ℕ) : Option (State T) :=
  let newthreads := size - s.pool.size
  let s := s.setsize size
  if newthreads > 0 then
    let newthreads :=
      if ¬create ∧ newthreads > s.pool.pending then s.pool.pending else newthreads
    if (created : ℤ) ≤ newthreads then some (State.create^[created] s) else none
  else if hasextraidle_mx s.pool then s.signal w
  else some s

/-- The part of `lcuTP_closetpool` after its loop, with the queue that it takes along. -/
def shut (s : State T) : State T where
  pool := { s.pool with
    pending := 0
    queue := []
    status := .closed }
  workers := s.workers
  closer := .closing
    (if s.pool.tasks = 0 then [] else if s.pool.pending > 0 then s.pool.queue else [])

def closeloop (s : State T) : State T :=
  if s.pool.threads > 0 then { checkhalted_mx s with closer := .waiting } else shut s

def closetpool (s : State T) : State T :=
  closeloop { s with pool := { s.pool with status := .closing } }

def collectthreadpool (s : State T) : State T :=
  { s with pool := { s.pool with tasks := s.pool.tasks - 1 } }

/-- A failing `lcu_assert` stops the program. -/
def addtpooltask (s : State T) (task : T) (created : Bool) (w : ℕ) : Option (State T) :=
  (addthread_mx s task created w).bind fun added =>
    if added.1 then
      some { added.2 with pool := { added.2.pool with tasks := added.2.pool.tasks + 1 } }
    else none

/-- One section under the mutex, with the choices that the system makes in it: the worker `w`
that a signal wakes, and whether, or how often, `uv_thread_create` succeeds. -/
inductive Act (T : Type) where
  | add (task : T) (created : Bool) (w : ℕ)
  | resume (task : T) (created : Bool) (w : ℕ)
  | start (i w : ℕ)
  | awake (i : ℕ)
  | relock (i w : ℕ)
  | finish (i : ℕ) (enqueued yielded : Bool) (w : ℕ)
  | resize (size : ℤ) (create : Bool) (created w : ℕ)
  | close
  | closeagain
  | closeawake
  | collect

def step (s : State T) : Act T → Option (State T)
  | .add task created w => addtpooltask s task created w
  | .resume task created w => (addthread_mx s task created w).map Prod.snd
  | .start i w =>
    match s.workers[i]? with
    | some .starting => work (s.put i .locked) i w
    | _ => none
  | .awake i =>
    match s.workers[i]? with
    | some .waiting => some (s.put i .spurious)
    | _ => none
  | .relock i w =>
    match s.workers[i]? with
    | some .signalled => work (unwait (s.put i .locked)) i w
    | some .spurious => work (unwait (s.put i .locked)) i w
    | _ => none
  | .finish i enqueued yielded w =>
    match s.workers[i]? with
    | some (.running task) => work (settle (s.put i .locked) task enqueued yielded) i w
    | _ => none
  | .resize size create created w => resizetpool s size create created w
  | .close =>
    match s.closer with
    | .away => some (closetpool s)
    | _ => none
  | .closeagain =>
    match s.closer with
    | .woken => some (closeloop s)
    | _ => none
  | .closeawake =>
    match s.closer with
    | .waiting => some { s with closer := .woken }
    | _ => none
  | .collect => some (collectthreadpool s)

end

end Coutil.ThreadPool
