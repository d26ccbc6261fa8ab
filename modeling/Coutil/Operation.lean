import Coutil.Runs

set_option autoImplicit false

/-! The operation of one coroutine, as in `src/loperaux.c`: the flags, the union of
request and handle, the anchor in the registry and what the operation adds to the
counters of the scheduler. The program is any sequence of calls and resumes of the
coroutine, and libuv delivers one callback for each armed request, none after
`uv_close` of a handle, and one close callback. -/
namespace Coutil.Operation

inductive HandleType where
  | async
  | idle
  | timer
  | signal
  | process
  deriving DecidableEq

/-- The type given to `lcuT_resetcohdlk`; `system.execute` gives -1, which no handle has. -/
def HandleType.given : HandleType → Option HandleType
  | .process => none
  | type => some type

structure Flags where
  request : Bool
  thrsaved : Bool
  pending : Bool
  cleanup : Bool
  deriving DecidableEq

inductive Kind where
  | request (unknown : Bool)
  | handle (type : HandleType) (closing : Bool)
  deriving DecidableEq

/-- What libuv still has to do with the memory of the operation; activations are numbered. -/
inductive Uv where
  | idle
  | request (act : ℕ)
  | handle (act : ℕ)
  | closing (act : ℕ)
  deriving DecidableEq

structure Op where
  flags : Flags
  kind : Kind
  anchored : Bool
  nactive : ℤ
  nasync : ℤ
  uv : Uv
  deriving DecidableEq

inductive Site where
  | closedhdl
  | cancelop
  | k_endop
  | startedopk
  | k_resetopk
  | yieldresetk
  | armcoreq
  | endcoreq
  | resumecoreq
  | armcohdl
  | endcohdl
  | resumecohdl
  deriving DecidableEq

def lcu_assert (site : Site) (b : Bool) : Except Site Unit := if b then .ok () else .error site

/-- `tothrop` on the first use of a coroutine. -/
def tothrop : Op := ⟨⟨true, false, false, false⟩, .request true, false, 0, 0, .idle⟩

def Kind.unknown : Kind → Bool
  | .request unknown => unknown
  | .handle _ _ => false

def Kind.isClosing : Kind → Bool
  | .request _ => false
  | .handle _ closing => closing

def Uv.act : Uv → ℕ
  | .idle => 0
  | .request act | .handle act | .closing act => act

def asyncs (type : HandleType) : ℤ := if type = .async then 1 else 0

def Op.closehdl (o : Op) : Op :=
  match o.kind with
  | .request _ => o
  | .handle type _ => { o with
      kind := .handle type true
      nasync := o.nasync - asyncs type
      uv := .closing o.uv.act }

/-- `uv_cancel` only makes the callback of a request come earlier. -/
def Op.cancelop (o : Op) : Except Site Op := do
  lcu_assert .cancelop (!o.flags.cleanup)
  if o.flags.request then pure o
  else if o.kind.isClosing then pure o
  else pure o.closehdl

/-- What an explicit resume does, given the answer of the cancel function. -/
def Op.halted (o : Op) (cancels : Bool) : Except Site Op :=
  if cancels then o.cancelop else pure { o with flags := { o.flags with cleanup := true } }

/-- The call of libuv that starts the request, and `lcuT_armcoreq` with its result. -/
def Op.armcoreq (o : Op) (act : ℕ) (ok : Bool) : Except Site Op := do
  lcu_assert .armcoreq o.flags.request
  if ok then pure { o with
    flags := { o.flags with thrsaved := true }
    kind := .request false
    anchored := o.anchored || !o.flags.thrsaved
    nactive := o.nactive + 1
    uv := .request act }
  else pure { o with kind := .request true }

/-- The initialization of the handle, and `lcuT_armcohdl` with its result. -/
def Op.armcohdl (o : Op) (type : HandleType) (act : ℕ) (ok : Bool) : Except Site Op := do
  lcu_assert .armcohdl o.flags.request
  if ok then pure { o with
    flags := { o.flags with request := false, thrsaved := false }
    kind := .handle type false
    anchored := o.anchored || !o.flags.thrsaved
    nactive := o.nactive + 1
    nasync := o.nasync + asyncs type
    uv := .handle act }
  else pure { o with kind := .request true }

/-- The flag tells whether a thread is returned to be resumed. -/
def Op.endcoreq (o : Op) : Except Site (Bool × Op) := do
  let o := { o with nactive := o.nactive - 1, uv := .idle }
  lcu_assert .endcoreq (o.flags.request && o.flags.thrsaved)
  let o := { o with kind := .request true }
  if o.flags.pending then pure (true, o)
  else pure (false, { o with
    flags := { o.flags with thrsaved := false, cleanup := false }
    anchored := false })

/-- `lcuU_resumecoreq` before and after it resumes the thread. -/
def Op.resumecoreq (o : Op) : Except Site Unit := do
  lcu_assert .resumecoreq (o.flags.request && o.flags.thrsaved && o.flags.pending)
  lcu_assert .resumecoreq o.kind.unknown

def Op.resumedcoreq (o : Op) : Op :=
  if o.flags.request && o.kind.unknown then { o with
    flags := { o.flags with thrsaved := false }
    anchored := false }
  else o

def Op.endcohdl (o : Op) : Except Site (Bool × Op) := do
  lcu_assert .endcohdl (!o.flags.request)
  if o.flags.pending && !o.flags.cleanup then pure (true, o)
  else do
    let o ← ({ o with flags := { o.flags with cleanup := false } } : Op).cancelop
    pure (false, o)

/-- `lcuU_resumecohdl` before and after it resumes the thread. -/
def Op.resumecohdl (o : Op) : Except Site Unit :=
  lcu_assert .resumecohdl (!o.flags.request && o.flags.pending)

def Op.resumedcohdl (o : Op) : Except Site Op :=
  if !o.flags.pending && !o.flags.cleanup then o.cancelop else pure o

/-- The flag tells whether the request goes on with `lcuU_resumecoreq`. -/
def Op.closedhdl (o : Op) : Except Site (Bool × Op) := do
  lcu_assert .closedhdl (!o.flags.request && !o.flags.thrsaved)
  let o := { o with
    nactive := o.nactive - 1
    flags := { o.flags with request := true, thrsaved := true }
    kind := .request true
    uv := .idle }
  if !o.flags.pending then pure (false, { o with
    flags := { o.flags with thrsaved := false }
    anchored := false })
  else pure (true, o)

section
variable {V W : Type}

/-- What a setup function does: it raises an error, returns results without arming,
returns results because the arming failed, arms and returns results, or arms and
returns -1 with these values on the stack. -/
inductive Setup (V : Type) where
  | error
  | results (values : List V)
  | armerror (values : List V)
  | armedresults (values : List V)
  | armed (stack : List V)

/-- The functions of a client. A setup function has the loop when it has to arm the
operation, and not when the same handle is still open. `W` is what they may read of
the rest of the world. -/
structure Client (V W : Type) where
  setup : W → Bool → List V → Setup V
  results : Option (List V → List V → List V)
  cancel : Option (W → List V → Bool)

inductive Target where
  | request
  | handle (type : HandleType)
  deriving DecidableEq

/-- Who resumed the coroutine: the program, `lcuU_resumecoreq` or `lcuU_resumecohdl`. -/
inductive Context where
  | outside
  | incoreq
  | incohdl
  deriving DecidableEq

inductive Place (V W : Type) where
  | running (context : Context)
  | endop (stack : List V)
  | resetop (target : Target) (setup : W → Bool → List V → Setup V) (stack : List V)
  | yielded
  | dead

/-- Where the results of an awaiting call come from. -/
inductive Source (V : Type) where
  | resumed (values : List V)
  | callback (act : ℕ) (values : List V)
  | setup (outcome : Setup V)

def Setup.values : Setup V → List V
  | .error => []
  | .results values | .armerror values | .armedresults values => values
  | .armed _ => []

/-- The values that a callback gives to a call with this function for its results. -/
def returns (results : Option (List V → List V → List V)) (stack values : List V) : List V :=
  match results with
  | none => values
  | some results => results stack values

inductive Entry (V W : Type) where
  | began (call : ℕ) (client : Client V W) (stack : List V)
  | setup (call : ℕ) (outcome : Setup V)
  | armed (call act : ℕ)
  | kept (call act : ℕ)
  | suspended (call : ℕ)
  | resumed (values : List V)
  | delivered (act : ℕ) (values : List V)
  | closed (act : ℕ)
  | ended (call : ℕ) (source : Source V) (returned : List V)

structure State (V W : Type) where
  op : Op
  results : Option (List V → List V → List V)
  cancel : Option (W → List V → Bool)
  place : Place V W
  /-- Awaiting calls begun and activations armed so far. -/
  calls : ℕ
  acts : ℕ
  /-- What happened, the last entry first. -/
  log : List (Entry V W)

def State.note (s : State V W) (entry : Entry V W) : State V W := { s with log := entry :: s.log }

/-- The running coroutine is no longer running: who resumed it goes on. -/
def State.leave (s : State V W) (context : Context) (place : Place V W) :
    Except Site (State V W) := do
  match context with
  | .outside => pure { s with place := place }
  | .incoreq => pure { s with place := place, op := s.op.resumedcoreq }
  | .incohdl => do
    let op ← s.op.resumedcohdl
    pure { s with place := place, op := op }

/-- The call returns to the code of the coroutine. -/
def State.ended (s : State V W) (context : Context) (source : Source V) (values : List V) :
    State V W :=
  { (s.note (.ended s.calls source values)) with place := .running context }

def Op.arm (o : Op) (target : Target) (act : ℕ) (ok : Bool) : Except Site Op :=
  match target with
  | .request => o.armcoreq act ok
  | .handle type => o.armcohdl type act ok

def State.arm (s : State V W) (target : Target) (ok : Bool) : Except Site (State V W) := do
  let op ← s.op.arm target (s.acts + 1) ok
  if ok then pure { (s.note (.armed s.calls (s.acts + 1))) with op := op, acts := s.acts + 1 }
  else pure { s with op := op }

/-- `startedopk` when the setup function returned results. -/
def State.startedresults (s : State V W) (context : Context) (outcome : Setup V)
    (values : List V) : Except Site (State V W) := do
  lcu_assert .startedopk (!s.op.flags.pending && !s.op.flags.cleanup)
  let op ← s.op.cancelop
  pure (({ s with op := op } : State V W).ended context (.setup outcome) values)

/-- `startedopk` when the setup function returned -1. -/
def State.startedpending (s : State V W) (context : Context) (stack : List V) :
    Except Site (State V W) := do
  lcu_assert .startedopk (!s.op.flags.pending && !s.op.flags.cleanup)
  let op := { s.op with flags := { s.op.flags with pending := true } }
  ({ (s.note (.suspended s.calls)) with op := op } : State V W).leave context (.endop stack)

def State.startop (s : State V W) (context : Context) (target : Target) (outcome : Setup V) :
    Except Site (State V W) := do
  let s := s.note (.setup s.calls outcome)
  match outcome with
  | .error => pure (s.ended context (.setup .error) [])
  | .results values => s.startedresults context outcome values
  | .armerror values => do
    let s ← s.arm target false
    s.startedresults context outcome values
  | .armedresults values => do
    let s ← s.arm target true
    s.startedresults context outcome values
  | .armed stack => do
    let s ← s.arm target true
    s.startedpending context stack

/-- `startcohdlk` without a loop, on a handle that is still open. -/
def State.startsame (s : State V W) (context : Context) (outcome : Setup V) :
    Except Site (State V W) := do
  let s := s.note (.setup s.calls outcome)
  match outcome with
  | .error => pure (s.ended context (.setup .error) [])
  | .results values | .armerror values | .armedresults values =>
    s.startedresults context outcome values
  | .armed stack => (s.note (.kept s.calls s.op.uv.act)).startedpending context stack

def State.yieldresetk (s : State V W) (context : Context) (target : Target)
    (setup : W → Bool → List V → Setup V) (stack : List V) : Except Site (State V W) := do
  lcu_assert .yieldresetk (!s.op.flags.pending)
  let op := { s.op with flags := { s.op.flags with pending := true } }
  ({ (s.note (.suspended s.calls)) with op := op } : State V W).leave context
    (.resetop target setup stack)

inductive OpStatus where
  | freeop
  | sameop
  | waitop
  deriving DecidableEq

def Op.checkreset (o : Op) (target : Target) : OpStatus × Op :=
  if o.flags.request then
    if o.kind.unknown then (.freeop, o) else (.waitop, o)
  else if !o.flags.cleanup && !o.kind.isClosing then
    match target, o.kind with
    | .handle type, .handle actual _ =>
      if type.given = some actual then (.sameop, o) else (.waitop, o.closehdl)
    | _, _ => (.waitop, o.closehdl)
  else (.waitop, o)

def State.resetop (s : State V W) (context : Context) (target : Target) (client : Client V W)
    (w : W) (stack : List V) : Except Site (State V W) :=
  let s := ({ s with
    calls := s.calls + 1, results := client.results, cancel := client.cancel } : State V W).note
      (.began (s.calls + 1) client stack)
  match s.op.checkreset target with
  | (.freeop, _) => s.startop context target (client.setup w true stack)
  | (.sameop, _) => s.startsame context (client.setup w false stack)
  | (.waitop, op) => ({ s with op := op } : State V W).yieldresetk context target client.setup stack

/-- `k_endop` after an explicit resume. -/
def State.k_endophalted (s : State V W) (w : W) (stack values : List V) :
    Except Site (State V W) := do
  lcu_assert .k_endop (s.op.flags.pending && !s.op.flags.cleanup)
  let op := { s.op with flags := { s.op.flags with pending := false } }
  let cancels := match s.cancel with
    | none => true
    | some cancel => cancel w (stack ++ values)
  let op ← op.halted cancels
  pure (({ s with op := op } : State V W).ended .outside (.resumed values) values)

/-- `k_endop` after a callback with values. -/
def State.k_endopresumed (s : State V W) (context : Context) (act : ℕ) (stack values : List V) :
    Except Site (State V W) := do
  lcu_assert .k_endop (s.op.flags.pending && !s.op.flags.cleanup)
  let op := { s.op with flags := { s.op.flags with pending := false } }
  pure (({ s with op := op } : State V W).ended context (.callback act values)
    (returns s.results stack values))

def State.k_resetopkhalted (s : State V W) (values : List V) : Except Site (State V W) := do
  lcu_assert .k_resetopk s.op.flags.pending
  let op := { s.op with flags := { s.op.flags with pending := false } }
  pure (({ s with op := op } : State V W).ended .outside (.resumed values) values)

/-- `k_resetopk` after a callback: the values it was resumed with are discarded. -/
def State.k_resetopkresumed (s : State V W) (context : Context) (w : W) (target : Target)
    (setup : W → Bool → List V → Setup V) (stack : List V) : Except Site (State V W) := do
  lcu_assert .k_resetopk s.op.flags.pending
  let op := { s.op with flags := { s.op.flags with pending := false } }
  lcu_assert .k_resetopk op.flags.request
  lcu_assert .k_resetopk op.kind.unknown
  ({ s with op := op } : State V W).startop context target (setup w true stack)

/-- `resumethread`. A coroutine suspended elsewhere takes the values for its own, and one
that is not suspended is not resumed. -/
def State.resumethread (s : State V W) (context : Context) (w : W) (act : ℕ) (values : List V) :
    Except Site (State V W) :=
  match s.place with
  | .endop stack => s.k_endopresumed context act stack values
  | .resetop target setup stack => s.k_resetopkresumed context w target setup stack
  | .yielded => .ok { s with place := .running context }
  | .running _ | .dead => s.leave context s.place

def State.resumecoreq (s : State V W) (w : W) (act : ℕ) (values : List V) :
    Except Site (State V W) := do
  s.op.resumecoreq
  s.resumethread .incoreq w act values

def State.resumecohdl (s : State V W) (w : W) (act : ℕ) (values : List V) :
    Except Site (State V W) := do
  s.op.resumecohdl
  s.resumethread .incohdl w act values

/-- The callback of a request: `lcuU_endcoreq` and `lcuU_resumecoreq`. -/
def State.requestcb (s : State V W) (w : W) (act : ℕ) (values : List V) :
    Except Site (State V W) := do
  let s := s.note (.delivered act values)
  let (resumes, op) ← s.op.endcoreq
  let s := ({ s with op := op } : State V W)
  if resumes then s.resumecoreq w act values else pure s

/-- The callback of a handle: only that of `system.awaitch` calls `lcuU_endcohdl`. -/
def State.handlecb (s : State V W) (w : W) (type : HandleType) (act : ℕ) (values : List V) :
    Except Site (State V W) := do
  let s := s.note (.delivered act values)
  if type = .async then
    let (resumes, op) ← s.op.endcohdl
    let s := ({ s with op := op } : State V W)
    if resumes then s.resumecohdl w act values else pure s
  else s.resumecohdl w act values

def State.closecb (s : State V W) (w : W) (act : ℕ) : Except Site (State V W) := do
  let s := s.note (.closed act)
  let (resumes, op) ← s.op.closedhdl
  let s := ({ s with op := op } : State V W)
  if resumes then s.resumecoreq w act [] else pure s

inductive Act (V W : Type) where
  | call (target : Target) (client : Client V W) (w : W) (stack : List V)
  | yield
  | finish
  | resume (w : W) (values : List V)
  | requestcb (w : W) (values : List V)
  | handlecb (w : W) (values : List V)
  | closecb (w : W)

/-- Only `system.awaitch` gives a function to cancel a handle. -/
def allowed (target : Target) (cancel : Option (W → List V → Bool)) : Bool :=
  match target with
  | .request => true
  | .handle type => decide (type = .async) || cancel.isNone

/-- The loop does not run inside a callback of the operation. -/
def Place.loops : Place V W → Bool
  | .running context => decide (context = .outside)
  | _ => true

/-- `none` when the action cannot happen in the state. -/
def step (s : State V W) (a : Act V W) : Option (Except Site (State V W)) :=
  match a with
  | .call target client w stack =>
    match s.place with
    | .running context =>
      if allowed target client.cancel then some (s.resetop context target client w stack) else none
    | _ => none
  | .yield =>
    match s.place with
    | .running context => some (s.leave context .yielded)
    | _ => none
  | .finish =>
    match s.place with
    | .running context => some (s.leave context .dead)
    | _ => none
  | .resume w values =>
    match s.place with
    | .yielded => some (.ok { s with place := .running .outside })
    | .endop stack => some ((s.note (.resumed values)).k_endophalted w stack values)
    | .resetop _ _ _ => some ((s.note (.resumed values)).k_resetopkhalted values)
    | _ => none
  | .requestcb w values =>
    match s.op.uv with
    | .request act => if s.place.loops then some (s.requestcb w act values) else none
    | _ => none
  | .handlecb w values =>
    match s.op.uv, s.op.kind with
    | .handle act, .handle type _ =>
      if s.place.loops then some (s.handlecb w type act values) else none
    | _, _ => none
  | .closecb w =>
    match s.op.uv with
    | .closing act => if s.place.loops then some (s.closecb w act) else none
    | _ => none

def next (s : State V W) (a : Act V W) : Option (State V W) :=
  match step s a with
  | some (.ok u) => some u
  | _ => none

theorem next_eq {s u : State V W} {a : Act V W} : next s a = some u ↔ step s a = some (.ok u) := by
  unfold next
  split
  · rename_i v hv
    simp [hv]
  · rename_i hn
    simp only [reduceCtorEq, false_iff]
    exact hn u

/-- The function that an action runs, and when the action can happen. -/
inductive Step (s : State V W) : Act V W → Except Site (State V W) → Prop
  | call {context : Context} {target : Target} {client : Client V W} {w : W} {stack : List V}
      (hp : s.place = .running context) (ha : allowed target client.cancel = true) :
      Step s (.call target client w stack) (s.resetop context target client w stack)
  | yield {context : Context} (hp : s.place = .running context) :
      Step s .yield (s.leave context .yielded)
  | finish {context : Context} (hp : s.place = .running context) :
      Step s .finish (s.leave context .dead)
  | resume {w : W} {values : List V} (hp : s.place = .yielded) :
      Step s (.resume w values) (.ok { s with place := .running .outside })
  | endop {w : W} {stack values : List V} (hp : s.place = .endop stack) :
      Step s (.resume w values) ((s.note (.resumed values)).k_endophalted w stack values)
  | resetop {w : W} {stack values : List V} {target : Target}
      {setup : W → Bool → List V → Setup V} (hp : s.place = .resetop target setup stack) :
      Step s (.resume w values) ((s.note (.resumed values)).k_resetopkhalted values)
  | requestcb {w : W} {values : List V} {act : ℕ} (huv : s.op.uv = .request act)
      (hl : s.place.loops = true) : Step s (.requestcb w values) (s.requestcb w act values)
  | handlecb {w : W} {values : List V} {type : HandleType} {closing : Bool} {act : ℕ}
      (huv : s.op.uv = .handle act) (hk : s.op.kind = .handle type closing)
      (hl : s.place.loops = true) : Step s (.handlecb w values) (s.handlecb w type act values)
  | closecb {w : W} {act : ℕ} (huv : s.op.uv = .closing act) (hl : s.place.loops = true) :
      Step s (.closecb w) (s.closecb w act)

theorem step_cases {s : State V W} {a : Act V W} {r : Except Site (State V W)}
    (h : step s a = some r) : Step s a r := by
  cases a with
  | call target client w stack =>
    simp only [step] at h
    split at h
    · rename_i context hp
      split at h
      · rename_i ha
        cases h
        exact .call hp ha
      · cases h
    · cases h
  | yield =>
    simp only [step] at h
    split at h
    · rename_i context hp
      cases h
      exact .yield hp
    · cases h
  | finish =>
    simp only [step] at h
    split at h
    · rename_i context hp
      cases h
      exact .finish hp
    · cases h
  | resume w values =>
    simp only [step] at h
    split at h
    · rename_i hp
      cases h
      exact .resume hp
    · rename_i stack hp
      cases h
      exact .endop hp
    · rename_i hp
      cases h
      exact .resetop hp
    · cases h
  | requestcb w values =>
    simp only [step] at h
    split at h
    · rename_i act huv
      split at h
      · rename_i hl
        cases h
        exact .requestcb huv hl
      · cases h
    · cases h
  | handlecb w values =>
    simp only [step] at h
    split at h
    · rename_i act type closing huv hk
      split at h
      · rename_i hl
        cases h
        exact .handlecb huv hk hl
      · cases h
    · cases h
  | closecb w =>
    simp only [step] at h
    split at h
    · rename_i act huv
      split at h
      · rename_i hl
        cases h
        exact .closecb huv hl
      · cases h
    · cases h

theorem next_cases {s u : State V W} {a : Act V W} (h : next s a = some u) :
    ∃ r, Step s a r ∧ r = .ok u :=
  ⟨_, step_cases (next_eq.mp h), rfl⟩

def State.init : State V W := ⟨tothrop, none, none, .yielded, 0, 0, []⟩

end
end Coutil.Operation
