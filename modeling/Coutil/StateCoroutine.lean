import Coutil.Exchange

set_option autoImplicit false

/-! The state coroutines of `src/lcoroutm.c`. The arguments of `system.resume` are moved to the
stack of the state, an execution takes place in a worker, and its results are taken from the stack
by a callback of libuv, also when the coroutine that awaited them was resumed before. -/
namespace Coutil.StateCoroutine
open Runs Exchange

/-- `LUA_ERRRUN`, `LUA_ERRMEM` and `LUA_ERRERR`. -/
inductive LuaError where
  | run
  | memory
  | handler
  deriving DecidableEq

inductive LuaStatus where
  | ok
  | yield
  | error (e : LuaError)
  deriving DecidableEq

def LuaStatus.code : LuaStatus → ℤ
  | .ok => 0
  | .yield => 1
  | .error .run => 2
  | .error .memory => 4
  | .error .handler => 5

/-- What is seen of the thread of a state: the stack of the function it is in, and whether this
function goes on with a continuation after its yield. -/
structure Coro where
  status : LuaStatus
  stack : Stack
  k : Bool

inductive Ending where
  | returns (values : Stack)
  | yields (below values : Stack) (k : Bool)
  | fails (e : LuaError) (below : Stack) (error : Value)

/-- What an execution begins with: a call of a function, the return from a function that yielded,
or its continuation. -/
inductive Execution where
  | start (function : Value) (args : Stack)
  | results (values : Stack)
  | continuation (stack : Stack)

def lua_resume (co : Coro) (narg : ℕ) : Option Execution :=
  let args := co.stack.drop (co.stack.length - narg)
  match co.status with
  | .ok => some (.start (index co.stack (co.stack.length - narg)) args)
  | .yield => some (if co.k then .continuation co.stack else .results args)
  | .error _ => none

/-- The thread after `lua_resume`, and the number of its results. -/
def Ending.left : Ending → Coro × ℕ
  | .returns values => (⟨.ok, values, false⟩, values.length)
  | .yields below values k => (⟨.yield, below ++ values, k⟩, values.length)
  | .fails e below error => (⟨.error e, below ++ [error], false⟩, below.length + 1)

def suspended (co : Coro) : Bool :=
  match co.status with
  | .ok => co.stack.length ≠ 0
  | .yield => true
  | .error _ => false

def narg (co : Coro) : ℕ :=
  if co.status = .ok then co.stack.length - 1 else co.stack.length

def uv_onworking (co : Coro) (ending : Ending) : Option (Execution × Coro) :=
  (lua_resume co (narg co)).map fun execution =>
    let (co, nret) := ending.left
    (execution, { co with stack := co.stack ++ [.integer nret, .integer co.status.code] })

def top (L : Stack) : Value := L.getLast?.getD (.object "function" 0)

def pushed : Except Stack Value → Stack
  | .ok v => [v]
  | .error message => message

/-- The transfers that fail, and the message when the work cannot be queued. -/
structure Failures where
  move : Option Lack
  copy : Option Lack
  queue : Option String

inductive Setup where
  | returned (values : Stack)
  | yields (L : Stack)

/-- `L` has the userdata of the coroutine below the arguments. The two values on top are returned
for an argument that cannot be moved, also when there is no space for its message. -/
def k_setupwork (failures : Failures) (L : Stack) (co : Coro) : Setup × Coro :=
  let narg := L.length - 1
  match movefrom failures.move co.stack L narg "argument" with
  | .error stack =>
    let L := L ++ .boolean false :: pushed (pushfrom failures.copy (top stack) (-1) "error")
    (.returned (L.drop (L.length - 2)), { co with stack := stack.dropLast })
  | .ok (stack, L) =>
    match failures.queue with
    | none => (.yields L, { co with stack := stack })
    | some text =>
      (.returned [.boolean false, .string text],
        { co with stack := stack.take (stack.length - narg) })

/-- The stack of the coroutine that awaits, if it still does, and the thread. -/
def uv_onworked (failures : Failures) (thread : Option Stack) (canceled : Bool) (co : Coro) :
    Option Stack × Coro :=
  let first := if co.status = .ok then 1 else 0
  match thread with
  | none => (none, { co with stack := settop co.stack (if canceled then first else 0) })
  | some thread =>
    if canceled then
      (some (thread ++ [.boolean false, .string "canceled"]),
        { co with stack := settop co.stack first })
    else
      let lstatus := (index co.stack co.stack.length).tointeger
      let nret := (index co.stack (co.stack.length - 1)).tointeger.toNat
      let stack := co.stack.dropLast.dropLast
      if lstatus = LuaStatus.ok.code ∨ lstatus = LuaStatus.yield.code then
        match movefrom failures.move (thread ++ [.boolean true]) stack nret "return value" with
        | .ok (thread, stack) => (some thread, { co with stack := stack })
        | .error thread =>
          (some (replace (thread ++ [.boolean false]) (thread.length - 1)),
            { co with stack := stack.take (stack.length - nret) })
      else
        match pushfrom failures.copy (top stack) (-1) "error" with
        | .ok v => (some (thread ++ [.boolean false, v]), { co with stack := stack })
        | .error message =>
          (some (thread ++ .boolean false :: message), { co with stack := stack.dropLast })

def coroutine_close (fault : Option Lack) : Option Coro → Stack
  | none => [.boolean true]
  | some co =>
    match co.status with
    | .error _ => .boolean false :: pushed (pushfrom fault (top co.stack) (-1) "error")
    | _ => [.boolean true]

inductive Stage where
  | queued
  | canceled
  | done
  deriving DecidableEq

structure Work where
  args : Stack
  thread : Option Stack
  stage : Stage

/-- What a coroutine is, by its executions so far: not started, in a function that keeps values
below the ones it yielded, ended, or failed. -/
inductive Life where
  | fresh (function : Value)
  | suspended (below : Stack) (k : Bool)
  | ended
  | failed (error : Value)

/-- `StateCoro`, with the life of the coroutine. -/
structure State where
  L : Option Coro
  work : Option Work
  life : Life

inductive Act where
  | resume (failures : Failures) (L : Stack)
  | execute (ending : Ending)
  /-- The coroutine that awaits is resumed by another one. -/
  | discard (cancels : Bool)
  | callback (failures : Failures)
  | close

def initial (function : Value) : State := ⟨some ⟨.ok, [function], false⟩, none, .fresh function⟩

def Ending.life : Ending → Life
  | .returns _ => .ended
  | .yields below _ k => .suspended below k
  | .fails _ _ error => .failed error

namespace State

/-- The coroutine that `system.resume` gets, unless it is running or dead. -/
def accepted (s : State) : Option Coro :=
  match s.work with
  | some _ => none
  | none => s.L.filter suspended

def system_resume (s : State) (failures : Failures) (L : Stack) : State :=
  match s.accepted with
  | none => s
  | some co =>
    match k_setupwork failures L co with
    | (.returned _, co) => { s with L := some co }
    | (.yields thread, co) => { s with L := some co, work := some ⟨L.drop 1, some thread, .queued⟩ }

end State

def step (s : State) : Act → Option State
  | .resume failures L => some (s.system_resume failures L)
  | .execute ending =>
    s.work.bind fun w =>
      if w.stage = .queued then
        s.L.bind fun co =>
          (uv_onworking co ending).map fun (_, co) =>
            ⟨some co, some { w with stage := .done }, ending.life⟩
      else none
  | .discard cancels =>
    s.work.bind fun w =>
      w.thread.map fun _ =>
        let stage := if cancels ∧ w.stage = .queued then .canceled else w.stage
        { s with work := some { w with thread := none, stage := stage } }
  | .callback failures =>
    s.work.bind fun w =>
      if w.stage = .queued then none
      else s.L.map fun co =>
        let (_, co) := uv_onworked failures w.thread (w.stage = .canceled) co
        { s with L := some co, work := none }
  | .close => if s.work.isSome then none else some { s with L := none }

namespace Life

/-- What an execution is to begin with, by the life and the arguments. -/
def execution (life : Life) (args : Stack) : Option Execution :=
  match life with
  | .fresh function => some (.start function args)
  | .suspended below true => some (.continuation (below ++ args))
  | .suspended _ false => some (.results args)
  | .ended => none
  | .failed _ => none

def below : Life → Stack
  | .suspended below _ => below
  | _ => []

def resumable : Life → Bool
  | .fresh _ => true
  | .suspended _ _ => true
  | _ => false

def error : Life → Option Value
  | .failed error => some error
  | _ => none

end Life

/-- Where nothing goes wrong: there is space for the arguments, and a function without a
continuation keeps no values below; when the results are discarded, the execution did not fail,
and no values are kept below; an error that is not transferred is also below itself. -/
def Fit (s : State) : Act → Prop
  | .resume failures _ =>
    s.accepted ≠ none → failures.move ≠ some .space ∧
      ∀ below, s.life = .suspended below false → below = []
  | .callback failures =>
    ∀ w co, s.work = some w → s.L = some co →
      (w.thread = none → s.life.error = none ∧ s.life.below = []) ∧
      ∀ error, s.life = .failed error →
        (∃ v, pushfrom failures.copy error (-1) "error" = .ok v) ∨
          co.stack.dropLast.dropLast.dropLast.getLast? = some error
  | _ => True

/-- The thread of a coroutine that is not running. -/
def Refines (co : Coro) : Life → Prop
  | .fresh function => co.status = .ok ∧ co.stack = [function]
  | .suspended below k => co.status = .yield ∧ co.stack = below ∧ co.k = k
  | .ended => co.status = .ok ∧ co.stack = []
  | .failed error => (∃ e, co.status = .error e) ∧ co.stack.getLast? = some error

def Coro.pass (co : Coro) (args : Stack) : Coro := { co with stack := co.stack ++ args }

def Ending.worked (ending : Ending) : Coro :=
  ending.left.1.pass [.integer ending.left.2, .integer ending.left.1.status.code]

inductive Kept : State → Prop
  | closed (life : Life) : Kept ⟨none, none, life⟩
  | idle {co : Coro} {life : Life} (refines : Refines co life) : Kept ⟨some co, none, life⟩
  | waiting {co : Coro} {life : Life} {w : Work} (refines : Refines co life)
      (resumable : life.resumable = true) (alone : ∀ below, life = .suspended below false → below = [])
      (waits : w.stage ≠ .done) (canceled : w.stage = .canceled → w.thread = none) :
      Kept ⟨some (co.pass w.args), some w, life⟩
  | worked {ending : Ending} {w : Work} (done : w.stage = .done) :
      Kept ⟨some ending.worked, some w, ending.life⟩

theorem kept_initial (function : Value) : Kept (initial function) := .idle ⟨rfl, rfl⟩

section
variable {co : Coro} {life : Life}

theorem suspended_refines (refines : Refines co life) : suspended co = life.resumable := by
  cases life with
  | fresh f =>
    obtain ⟨status, stack⟩ := refines
    simp [suspended, status, stack, Life.resumable]
  | suspended below k =>
    obtain ⟨status, -, -⟩ := refines
    simp [suspended, status, Life.resumable]
  | ended =>
    obtain ⟨status, stack⟩ := refines
    simp [suspended, status, stack, Life.resumable]
  | failed error =>
    obtain ⟨⟨e, status⟩, -⟩ := refines
    simp [suspended, status, Life.resumable]

theorem execution_refines (refines : Refines co life) (resumable : life.resumable = true)
    (alone : ∀ below, life = .suspended below false → below = []) (args : Stack) :
    lua_resume (co.pass args) (narg (co.pass args)) = life.execution args := by
  cases life with
  | fresh f =>
    obtain ⟨status, stack⟩ := refines
    have some : (co.pass args).status = .ok := status
    have here : (co.pass args).stack = f :: args := by simp [Coro.pass, stack]
    have count : narg (co.pass args) = args.length := by simp [narg, some, here]
    simp [lua_resume, some, here, count, Life.execution, index]
  | suspended below k =>
    obtain ⟨status, stack, continues⟩ := refines
    have some : (co.pass args).status = .yield := status
    have here : (co.pass args).stack = below ++ args := by simp [Coro.pass, stack]
    have goes : (co.pass args).k = k := continues
    have count : narg (co.pass args) = (below ++ args).length := by simp [narg, some, here]
    cases k with
    | true => simp [lua_resume, some, here, goes, Life.execution]
    | false =>
      obtain rfl := alone below rfl
      simp [lua_resume, some, here, goes, count, Life.execution]
  | ended => cases resumable
  | failed error => cases resumable

theorem below_refines (refines : Refines co life) : life.below <+: co.stack := by
  cases life with
  | suspended below k =>
    obtain ⟨-, rfl, -⟩ := refines
    exact List.prefix_rfl
  | _ => exact List.nil_prefix

end

theorem movefrom_cases {fault : Option Lack} (dst src : Stack) (n : ℕ) (msg : String)
    (space : fault ≠ some .space) :
    (∃ text, movefrom fault dst src n msg = .error (dst ++ [.string text])) ∨
      movefrom fault dst src n msg =
        .ok (dst ++ src.drop (src.length - n), src.take (src.length - n)) := by
  cases fault with
  | some lack =>
    cases lack with
    | space => exact absurd rfl space
    | memory text => exact Or.inl ⟨text, rfl⟩
  | none =>
    cases found : (src.drop (src.length - n)).findIdx? (fun v => !v.movable) with
    | some i =>
      left
      simp only [movefrom, found]
      exact ⟨_, rfl⟩
    | none => exact Or.inr (by simp only [movefrom, found])

theorem k_setupwork_spec {failures : Failures} {L : Stack} {co co' : Coro} {setup : Setup}
    (space : failures.move ≠ some .space) (result : k_setupwork failures L co = (setup, co')) :
    ((∃ values, setup = .returned values) ∧ co' = co) ∨
      (∃ thread, setup = .yields thread) ∧ co' = co.pass (L.drop 1) := by
  have args : L.drop (L.length - (L.length - 1)) = L.drop 1 := by
    cases L with
    | nil => rfl
    | cons v L => simp
  unfold k_setupwork at result
  rcases movefrom_cases co.stack L (L.length - 1) "argument" space with ⟨text, failed⟩ | moved
  · simp only [failed] at result
    cases result
    exact Or.inl ⟨⟨_, rfl⟩, by simp⟩
  · simp only [moved, args] at result
    cases queue : failures.queue with
    | none =>
      simp only [queue] at result
      cases result
      exact Or.inr ⟨⟨_, rfl⟩, rfl⟩
    | some text =>
      simp only [queue] at result
      cases result
      exact Or.inl ⟨⟨_, rfl⟩, by simp⟩

section
variable {failures : Failures} {thread' : Option Stack} {co' : Coro}

theorem discarded_refines (ending : Ending) (unfailed : ending.life.error = none)
    (bare : ending.life.below = [])
    (result : uv_onworked failures none false ending.worked = (thread', co')) :
    Refines co' ending.life := by
  cases ending with
  | returns values =>
    cases result
    exact ⟨rfl, by simp [settop]⟩
  | yields below values k =>
    cases result
    have bare : below = [] := bare
    exact ⟨rfl, by simp [settop, bare], rfl⟩
  | fails e below error => cases unfailed

theorem canceled_refines {co : Coro} {life : Life} (refines : Refines co life)
    (resumable : life.resumable = true) (bare : life.below = []) (args : Stack)
    (result : uv_onworked failures none true (co.pass args) = (thread', co')) :
    Refines co' life := by
  cases life with
  | fresh f =>
    obtain ⟨status, stack⟩ := refines
    cases result
    simp [Refines, Coro.pass, status, stack, settop]
  | suspended below k =>
    obtain ⟨status, stack, rfl⟩ := refines
    cases result
    refine ⟨status, ?_, rfl⟩
    have bare : below = [] := bare
    simp [Coro.pass, status, settop, bare]
  | ended => cases resumable
  | failed error => cases resumable

theorem worked_results (ending : Ending) :
    (index ending.worked.stack ending.worked.stack.length).tointeger = ending.left.1.status.code ∧
      (index ending.worked.stack (ending.worked.stack.length - 1)).tointeger.toNat =
        ending.left.2 ∧
      ending.worked.stack.dropLast.dropLast = ending.left.1.stack := by
  simp [Ending.worked, Coro.pass, index, Value.tointeger]

/-- The results of an execution that ended well are taken from the stack, also when they are not
transferred. -/
theorem delivered_taken (ending : Ending) (thread : Stack)
    (good : ending.left.1.status = .ok ∨ ending.left.1.status = .yield)
    (result : uv_onworked failures (some thread) false ending.worked = (thread', co')) :
    co' = { ending.left.1 with
      stack := ending.left.1.stack.take (ending.left.1.stack.length - ending.left.2) } := by
  obtain ⟨status, count, stack⟩ := worked_results ending
  have ended : ending.left.1.status.code = LuaStatus.ok.code ∨
      ending.left.1.status.code = LuaStatus.yield.code :=
    good.imp (congrArg LuaStatus.code) (congrArg LuaStatus.code)
  simp only [uv_onworked, Bool.false_eq_true, if_false, status, count, stack, if_pos ended] at result
  have spec := movefrom_spec failures.move (thread ++ [.boolean true]) ending.left.1.stack
    ending.left.2 "return value"
  split at result
  · rename_i moved
    rw [moved] at spec
    cases result
    rw [spec.2]
    rfl
  · cases result
    rfl

theorem delivered_refines (ending : Ending) (thread : Stack)
    (doubled : ∀ error, ending.life = .failed error →
      (∃ v, pushfrom failures.copy error (-1) "error" = .ok v) ∨
        ending.worked.stack.dropLast.dropLast.dropLast.getLast? = some error)
    (result : uv_onworked failures (some thread) false ending.worked = (thread', co')) :
    Refines co' ending.life := by
  obtain ⟨status, count, stack⟩ := worked_results ending
  cases ending with
  | returns values =>
    obtain rfl := delivered_taken (.returns values) thread (Or.inl rfl) result
    exact ⟨rfl, by simp [Ending.left]⟩
  | yields below values k =>
    obtain rfl := delivered_taken (.yields below values k) thread (Or.inr rfl) result
    exact ⟨rfl, by simp [Ending.left], rfl⟩
  | fails e below error =>
    have doubled := doubled error rfl
    rw [stack] at doubled
    have last : top (below ++ [error]) = error := by simp [top]
    have failed : ¬((LuaStatus.error e).code = LuaStatus.ok.code ∨
        (LuaStatus.error e).code = LuaStatus.yield.code) := by
      cases e <;> decide
    simp only [uv_onworked, Bool.false_eq_true, if_false, status, count, stack, Ending.left, failed,
      last] at result
    split at result
    · cases result
      exact ⟨⟨e, rfl⟩, by simp⟩
    · rename_i unmoved
      cases result
      refine ⟨⟨e, rfl⟩, ?_⟩
      rcases doubled with ⟨v, moved⟩ | doubled
      · rw [moved] at unmoved
        cases unmoved
      · exact doubled

end

theorem Kept.resume {s : State} (kept : Kept s) (failures : Failures) (L : Stack)
    (fit : Fit s (.resume failures L)) : Kept (s.system_resume failures L) := by
  cases kept with
  | closed life => exact .closed life
  | waiting refines resumable alone waits canceled => exact .waiting refines resumable alone waits canceled
  | worked done => exact .worked done
  | @idle co life refines =>
    by_cases live : suspended co = true
    · have accepted : (⟨some co, none, life⟩ : State).accepted = some co := by
        simp [State.accepted, live]
      obtain ⟨space, alone⟩ := fit (by simp [accepted])
      have resumable : life.resumable = true := (suspended_refines refines).symm.trans live
      cases result : k_setupwork failures L co with
      | mk setup co' =>
        simp only [State.system_resume, accepted, result]
        rcases k_setupwork_spec space result with ⟨⟨values, rfl⟩, rfl⟩ | ⟨⟨thread, rfl⟩, rfl⟩
        · exact .idle refines
        · exact .waiting (w := ⟨L.drop 1, some thread, .queued⟩) refines resumable alone nofun nofun
    · have refused : (⟨some co, none, life⟩ : State).accepted = none := by
        simp [State.accepted, live]
      simp only [State.system_resume, refused]
      exact .idle refines

theorem Kept.callback {s s' : State} {failures : Failures} (kept : Kept s)
    (fit : Fit s (.callback failures)) (stepped : step s (.callback failures) = some s') :
    Kept s' := by
  obtain ⟨w, working, stepped⟩ := Option.bind_eq_some_iff.mp stepped
  split at stepped
  · cases stepped
  · rename_i started
    obtain ⟨co, here, rfl⟩ := Option.map_eq_some_iff.mp stepped
    obtain ⟨unawaited, doubled⟩ := fit w co working here
    cases kept with
    | closed life => cases working
    | idle refines => cases working
    | @waiting co life w' refines resumable alone waits canceled =>
      cases working
      cases here
      have stage : w.stage = .canceled := by
        cases at_stage : w.stage with
        | queued => exact absurd at_stage started
        | canceled => rfl
        | done => exact absurd at_stage waits
      have thread := canceled stage
      cases result : uv_onworked failures none true (co.pass w.args) with
      | mk thread' co' =>
        simp only [thread, stage, decide_true, result]
        exact .idle (canceled_refines refines resumable (unawaited thread).2 w.args result)
    | @worked ending w' done =>
      cases working
      cases here
      have undone : decide (w.stage = Stage.canceled) = false := by simp [done]
      cases waited : w.thread with
      | none =>
        obtain ⟨unfailed, bare⟩ := unawaited waited
        cases result : uv_onworked failures none false ending.worked with
        | mk thread' co' =>
          simp only [undone, result]
          exact .idle (discarded_refines ending unfailed bare result)
      | some thread =>
        cases result : uv_onworked failures (some thread) false ending.worked with
        | mk thread' co' =>
          simp only [undone, result]
          exact .idle (delivered_refines ending thread doubled result)

theorem Kept.step {s s' : State} {a : Act} (kept : Kept s) (fit : Fit s a)
    (stepped : step s a = some s') : Kept s' := by
  cases a with
  | resume failures L =>
    cases stepped
    exact kept.resume failures L fit
  | callback failures => exact kept.callback fit stepped
  | execute ending =>
    obtain ⟨w, -, stepped⟩ := Option.bind_eq_some_iff.mp stepped
    split_ifs at stepped
    obtain ⟨co, -, stepped⟩ := Option.bind_eq_some_iff.mp stepped
    obtain ⟨⟨execution, co'⟩, worked, rfl⟩ := Option.map_eq_some_iff.mp stepped
    obtain ⟨execution', -, same⟩ := Option.map_eq_some_iff.mp worked
    cases same
    exact .worked rfl
  | discard cancels =>
    obtain ⟨w, working, stepped⟩ := Option.bind_eq_some_iff.mp stepped
    obtain ⟨thread, awaited, rfl⟩ := Option.map_eq_some_iff.mp stepped
    cases kept with
    | closed life => cases working
    | idle refines => cases working
    | @waiting co life w' refines resumable alone waits canceled =>
      cases working
      refine .waiting (w := ⟨w.args, none, _⟩) refines resumable alone ?_ fun _ => rfl
      dsimp only
      split_ifs
      · exact nofun
      · exact waits
    | @worked ending w' done =>
      cases working
      refine .worked ?_
      simp [done]
  | close =>
    simp only [StateCoroutine.step] at stepped
    split_ifs at stepped with working
    cases stepped
    cases kept with
    | closed life => exact .closed life
    | idle refines => exact .closed _
    | waiting refines resumable alone waits canceled => exact absurd rfl working
    | worked done => exact absurd rfl working

/-- In a run whose steps are all fit: an execution begins with the arguments of the call that
starts it, upon the values that are kept, which are never taken from the stack; the coroutine can
be resumed as long as it has not ended; and closing it gives the error of its last execution. -/
theorem coroutine_disciplined {function : Value} {acts : List Act} {s : State}
    (ran : run step (initial function) acts = some s)
    (along : Along step Fit (initial function) acts) :
    (∀ co w, s.L = some co → s.work = some w → w.stage = .queued →
      lua_resume co (narg co) = s.life.execution w.args) ∧
    (∀ co, s.L = some co → s.life.below <+: co.stack) ∧
    (∀ co, s.L = some co → s.work = none → suspended co = s.life.resumable) ∧
    ∀ co error fault, s.L = some co → s.work = none → s.life = .failed error →
      coroutine_close fault s.L =
        .boolean false :: pushed (pushfrom fault error (-1) "error") := by
  have kept : Kept s := run_invariant_along Kept Fit
    (fun _ _ _ kept fit stepped => kept.step fit stepped) (kept_initial function) along ran
  refine ⟨?_, ?_, ?_, ?_⟩
  · intro co w here working queued
    cases kept with
    | closed life => cases here
    | idle refines => cases working
    | waiting refines resumable alone waits canceled =>
      cases here
      cases working
      exact execution_refines refines resumable alone w.args
    | worked done =>
      cases working
      cases done.symm.trans queued
  · intro co here
    cases kept with
    | closed life => cases here
    | idle refines =>
      cases here
      exact below_refines refines
    | waiting refines resumable alone waits canceled =>
      cases here
      exact (below_refines refines).trans (List.prefix_append _ _)
    | @worked ending w done =>
      cases here
      cases ending with
      | yields below values k =>
        exact (List.prefix_append below values).trans (List.prefix_append _ _)
      | returns values => exact List.nil_prefix
      | fails e below error => exact List.nil_prefix
  · intro co here resting
    cases kept with
    | closed life => cases here
    | idle refines =>
      cases here
      exact suspended_refines refines
    | waiting refines resumable alone waits canceled => cases resting
    | worked done => cases resting
  · intro co error fault here resting failed
    cases kept with
    | closed life => cases here
    | idle refines =>
      cases here
      subst failed
      obtain ⟨⟨e, status⟩, last⟩ := refines
      simp [coroutine_close, status, top, last]
    | waiting refines resumable alone waits canceled => cases resting
    | worked done => cases resting

def nofailures : Failures := ⟨none, none, none⟩

/-- A function is started, yields above a value that it keeps, and is resumed. -/
def sampleKept : List Act :=
  [.resume nofailures [.object "userdata" 0, .string "start"],
    .execute (.yields [.pointer 7] [.string "yield"] true), .callback nofailures,
    .resume nofailures [.object "userdata" 0, .string "resume"]]

theorem coroutine_disciplined_kept :
    ∃ s co w, run step (initial (.object "function" 1)) sampleKept = some s ∧
      s.L = some co ∧ s.work = some w ∧ w.stage = .queued ∧
      lua_resume co (narg co) = some (.continuation [.pointer 7, .string "resume"]) := by
  have ran : run step (initial (.object "function" 1)) sampleKept = some _ := rfl
  refine ⟨_, _, _, ran, rfl, rfl, rfl, ?_⟩
  refine (coroutine_disciplined ran ?_).1 _ _ rfl rfl rfl
  refine ⟨fun _ => ⟨nofun, nofun⟩, fun u stepped => ?_⟩
  cases stepped
  refine ⟨trivial, fun u stepped => ?_⟩
  cases stepped
  refine ⟨fun w co working here => ?_, fun u stepped => ?_⟩
  · cases working
    cases here
    exact ⟨nofun, nofun⟩
  · cases stepped
    exact ⟨fun _ => ⟨nofun, nofun⟩, fun _ _ => trivial⟩

/-- The results of an execution that fails are discarded. -/
def sampleDiscarded : List Act :=
  [.resume nofailures [.object "userdata" 0], .discard false,
    .execute (.fails .run [.string "boom"] (.string "boom")), .callback nofailures]

theorem error_discarded :
    ∃ s, run step (initial (.object "function" 1)) sampleDiscarded = some s ∧ s.work = none ∧
      s.life = .failed (.string "boom") ∧
      coroutine_close none s.L =
        [.boolean false, .string "unable to transfer error (got function)"] ∧
      coroutine_close none s.L ≠ [.boolean false, .string "boom"] := by
  refine ⟨_, rfl, rfl, rfl, rfl, ?_⟩
  intro same
  injection same with _ same
  injection same with same
  injection same with same
  exact absurd same (by decide)

end Coutil.StateCoroutine
