import Coutil.ChannelAnswer
import Coutil.TaskSystem

set_option autoImplicit false

/-! What `threadmain` of `src/lthpool.c` does with the values that a task yields. Nothing of it is
in a protected call, so an error that is raised there ends the program. -/
namespace Coutil.TaskYield
open Exchange ExchangeValues ChannelAnswer
open ChannelSync (Endpoint Sync)

/-- The records of the channels, where each state that waits offers its values, the wakes of the
`lcu_ChannelTask` that is yielded, and the transfers that fail. -/
structure World where
  sync : String → Sync Stack
  offered : ∀ name, ∀ state ∈ (sync name).queue, ∃ K base args, Brings K base args ∧
    state = offer K base args.length
  wakes : ℤ
  faults : Faults

inductive Call where
  | getchsync (name : String)
  | freechsync (name : String)
  deriving DecidableEq

/-- The task is queued in the pool, waits in the record of a channel, is queued after an exchange
with the state that it found in the record, or is stored in its `lcu_ChannelTask`. -/
inductive Place where
  | queued
  | waits (name : String) (sync : Sync Stack)
  | matched (name : String) (sync : Sync Stack) (found answer : Stack)
  | stored

structure Handling where
  place : Place
  stack : Stack
  calls : List Call

/-- `lcuCS_matchchsync` for a task, and the end of the use of the record. -/
def matchtask (w : World) (text : String) (endpoint : Endpoint) (L : Stack) (base : ℕ) : Handling :=
  let channelname := cstring text
  let calls : List Call := [.getchsync channelname, .freechsync channelname]
  let narg := nargs (L.length - base)
  match ChannelSync.matchchsync (w.sync channelname) endpoint (some (offer L base narg)) with
  | (sync, .matched found) =>
    let (src, dst) := swapvalues w.faults L base narg found
    ⟨.matched channelname sync found dst, src, calls⟩
  -- a task has a state to wait with, so it is not refused
  | (sync, .waits) | (sync, .refused) => ⟨.waits channelname sync, offer L base narg, calls⟩

def handle (w : World) (L : Stack) (base : ℕ) : Except (List Call) Handling :=
  match L[base]?.bind Value.tostring with
  | some text =>
    let channelname := cstring text
    let calls : List Call := [.getchsync channelname, .freechsync channelname]
    match checksyncargs (L.set base (.string text)) (base + 2) with
    | none => .error [.getchsync channelname]
    | some (none, L) => .ok ⟨.queued, TaskSystem.reject L base, calls⟩
    | some (some endpoint, L) => .ok (matchtask w text endpoint L base)
  | none =>
    let stores := L[base]? = some .channeltask ∧ w.wakes = 0
    .ok ⟨if stores then .stored else .queued, settop L base ++ [.integer 0], []⟩

/-- A name with an endpoint that is none, or an argument that stays in its state. -/
def Invalid : List Value → Prop
  | name :: endpoint :: args => name.tostring ≠ none ∧ endpoint ≠ .nil ∧
      (∀ text ∈ endpoint.tostring, cstring text ∉ ["in", "out", "any"]) ∨
    name.tostring ≠ none ∧ ∃ v ∈ args, v.movable = false
  | _ => False

def Unreadable : List Value → Prop
  | name :: endpoint :: _ => name.tostring ≠ none ∧ endpoint ≠ .nil ∧ endpoint.tostring = none
  | _ => False

def channelof (values : List Value) : Option String :=
  (values.head?.bind Value.tostring).map cstring

def endpointof : List Value → Option Endpoint
  | _ :: e :: _ =>
    if e = .nil then some .any
    else e.tostring.bind fun text =>
      [("in", Endpoint.in), ("out", Endpoint.out), ("any", Endpoint.any)].lookup (cstring text)
  | _ => some .any

/-- The yielded arguments are on `K`, as the code that exchanges them finds them. -/
structure Yielded (below values K : Stack) : Prop where
  brings : Brings K below.length (values.drop 2)
  kept : K.take below.length = below

/-- The task is the last one in the record of a channel where it had nobody to match with. -/
structure Waits (w : World) (below values : Stack) (name : String) (sync : Sync Stack)
    (stack : Stack) : Prop where
  named : channelof values = some name
  alone : ∃ endpoint, endpointof values = some endpoint ∧
    (if (w.sync name).queue = [] then sync.expected = ((w.sync name).expect endpoint).expected
      else (w.sync name).expected &&& endpoint.bits = 0 ∧
        sync.expected = (w.sync name).expected)
  last : sync.queue = (w.sync name).queue ++ [stack]
  offers : ∃ K, Yielded below values K ∧ stack = offer K below.length (values.drop 2).length

/-- The first state in the record of the channel was taken from it and has exchanged its values
with the task, and both can be resumed. -/
structure Matched (w : World) (below values : Stack) (name : String) (sync : Sync Stack)
    (found answer stack : Stack) : Prop where
  named : channelof values = some name
  first : w.sync name = { sync with queue := found :: sync.queue }
  expected : ∃ endpoint, endpointof values = some endpoint ∧
    (w.sync name).expected &&& endpoint.bits ≠ 0
  exchanged : ∃ K, Yielded below values K ∧
    swapvalues w.faults K below.length (values.drop 2).length found = (stack, answer)
  ready : Ready below stack
  answered : ∃ K base args, Brings K base args ∧ found = offer K base args.length ∧
    Ready (K.take base) answer

/-- The first value names no channel, and is or is not a `lcu_ChannelTask` to store the task in. -/
structure Suspended (w : World) (below values : Stack) (stores : Prop) (stack : Stack) : Prop where
  unnamed : channelof values = none
  stored : (values.head? = some .channeltask ∧ w.wakes = 0) ↔ stores
  emptied : stack = below ++ [.integer 0]

/-- The yield returns false and a message. -/
def Rejected (below : Stack) (h : Handling) : Prop :=
  h.place = .queued ∧ ∃ text, h.stack = below ++ [.boolean false, .string text, .integer 2]

structure Handled (w : World) (below values : Stack) (h : Handling) : Prop where
  paired : h.calls = match channelof values with
    | some name => [.getchsync name, .freechsync name]
    | none => []
  placed : match h.place with
    | .queued => Invalid values ∧ Rejected below h ∨ Suspended w below values False h.stack
    | .waits name sync => Waits w below values name sync h.stack
    | .matched name sync found answer => Matched w below values name sync found answer h.stack
    | .stored => Suspended w below values True h.stack
  rejected : Invalid values → Rejected below h

section
variable {below args rest values K : List Value} {nm e : Value}

theorem syncargs_alone :
    checksyncargs (below ++ [nm]) (below.length + 2) = some (some .any, below ++ [nm]) := by
  have absent : index (below ++ [nm]) (below.length + 2) = .nil := by
    simp [index]
  simp [checksyncargs, optstring, absent, canmove, cstring]

theorem index_endpoint :
    index (below ++ nm :: e :: args) (below.length + 2) = e := by
  simp [index]

theorem canmove_args (msg : String) :
    canmove (below ++ nm :: e :: args)
      ((below ++ nm :: e :: args).length - (below.length + 2)) msg = none ↔
      ∀ v ∈ args, v.movable = true := by
  have first : (below ++ nm :: e :: args).length -
      ((below ++ nm :: e :: args).length - (below.length + 2)) = below.length + 2 := by
    simp only [List.length_append, List.length_cons]
    omega
  have dropped : (below ++ nm :: e :: args).drop (below.length + 2) = args := by
    rw [← List.drop_drop, List.drop_left]
    rfl
  simp only [canmove, first, dropped, Option.map_eq_none_iff, List.findIdx?_eq_none_iff,
    Bool.not_eq_false']

theorem syncargs_unreadable (given : e ≠ .nil) (unread : e.tostring = none) :
    checksyncargs (below ++ nm :: e :: args) (below.length + 2) = none := by
  rw [checksyncargs, Option.map_eq_none_iff, optstring, index_endpoint]
  cases e with
  | nil => exact absurd rfl given
  | _ => exact unread

theorem optstring_given (given : e ≠ .nil) :
    optstring (below ++ nm :: e :: args) (below.length + 2) "any" = e.tostring := by
  rw [optstring, index_endpoint]
  cases e with
  | nil => exact absurd rfl given
  | _ => rfl

theorem option_lookup (name : String) :
    (if name = "in" then some Endpoint.in else if name = "out" then some Endpoint.out
      else if name = "any" then some Endpoint.any else none) =
      [("in", Endpoint.in), ("out", Endpoint.out), ("any", Endpoint.any)].lookup name := by
  simp only [List.lookup, beq_eq_decide]
  split_ifs <;> simp_all

theorem lookup_none (name : String) :
    [("in", Endpoint.in), ("out", Endpoint.out), ("any", Endpoint.any)].lookup name = none ↔
      name ∉ ["in", "out", "any"] := by
  rw [← option_lookup]
  split_ifs <;> simp_all

theorem endpointof_read {text : String} (v : Value) (read : optstring (below ++ nm :: e :: args)
      (below.length + 2) "any" = some text) :
    endpointof (v :: e :: args) =
      [("in", Endpoint.in), ("out", Endpoint.out), ("any", Endpoint.any)].lookup (cstring text) := by
  by_cases absent : e = .nil
  · subst e
    rw [optstring, index_endpoint] at read
    cases read
    simp [endpointof, cstring, List.lookup]
  · rw [optstring_given absent] at read
    simp only [endpointof, absent, if_false, read, Option.bind_some]

theorem syncargs_checked {text : String} (v : Value)
    (read : optstring (below ++ nm :: e :: args) (below.length + 2) "any" = some text) :
    ∃ e', ((cstring text ∉ ["in", "out", "any"] ∨ ∃ v ∈ args, v.movable = false) ∧
        ∃ message, checksyncargs (below ++ nm :: e :: args) (below.length + 2) =
          some (none, below ++ nm :: e' :: args ++ [.string message])) ∨
      ((cstring text ∈ ["in", "out", "any"] ∧ ∀ v ∈ args, v.movable = true) ∧
        ∃ endpoint, endpointof (v :: e :: args) = some endpoint ∧
          checksyncargs (below ++ nm :: e :: args) (below.length + 2) =
            some (some endpoint, below ++ nm :: e' :: args)) := by
  obtain ⟨e', same⟩ : ∃ e', (if e = .nil then below ++ nm :: e :: args
      else (below ++ nm :: e :: args).set (below.length + 2 - 1) (.string text)) =
        below ++ nm :: e' :: args := by
    by_cases absent : e = .nil
    · exact ⟨e, if_pos absent⟩
    · refine ⟨.string text, (if_neg absent).trans ?_⟩
      rw [List.set_append_right _ _ (by omega)]
      simp
  refine ⟨e', ?_⟩
  rw [endpointof_read v read, checksyncargs, read, Option.map_some]
  simp only [index_endpoint, same, option_lookup]
  have moves : canmove (below ++ nm :: e' :: args)
      ((below ++ nm :: e' :: args).length - (below.length + 2)) "argument" = none ↔
        ∀ v ∈ args, v.movable = true := canmove_args "argument"
  cases option : [("in", Endpoint.in), ("out", Endpoint.out), ("any", Endpoint.any)].lookup
      (cstring text) with
  | none => exact .inl ⟨.inl ((lookup_none _).mp option), _, rfl⟩
  | some endpoint =>
    have listed : cstring text ∈ ["in", "out", "any"] := by
      by_contra other
      rw [(lookup_none _).mpr other] at option
      cases option
    cases stays : canmove (below ++ nm :: e' :: args)
        ((below ++ nm :: e' :: args).length - (below.length + 2)) "argument" with
    | none => exact .inr ⟨⟨listed, moves.mp stays⟩, endpoint, rfl, rfl⟩
    | some message =>
      refine .inl ⟨.inr ?_, message, rfl⟩
      by_contra all
      have every : ∀ v ∈ args, v.movable = true := by
        intro v member
        by_contra fixed
        exact all ⟨v, member, by simpa using fixed⟩
      rw [moves.mpr every] at stays
      cases stays

theorem never_refused {S : Type} (sync : Sync S) (endpoint : Endpoint) (state : S) :
    (ChannelSync.matchchsync sync endpoint (some state)).2 ≠ .refused := by
  unfold ChannelSync.matchchsync
  split
  · exact nofun
  · split_ifs <;> exact nofun

theorem matchchsync_matched {S : Type} {sync sync' : Sync S} {endpoint : Endpoint} {state found : S}
    (matches_ : ChannelSync.matchchsync sync endpoint (some state) = (sync', .matched found)) :
    sync = { sync' with queue := found :: sync'.queue } ∧
      sync.expected &&& endpoint.bits ≠ 0 := by
  obtain ⟨expected, queue⟩ := sync
  cases queue with
  | nil => cases (Prod.mk.inj matches_).2
  | cons first rest =>
    simp only [ChannelSync.matchchsync] at matches_
    split_ifs at matches_ with expects
    · cases matches_
      exact ⟨rfl, expects⟩
    · cases (Prod.mk.inj matches_).2

theorem matchchsync_waits {S : Type} {sync sync' : Sync S} {endpoint : Endpoint} {state : S}
    (waits : ChannelSync.matchchsync sync endpoint (some state) = (sync', .waits)) :
    (if sync.queue = [] then sync'.expected = (sync.expect endpoint).expected
      else sync.expected &&& endpoint.bits = 0 ∧ sync'.expected = sync.expected) ∧
      sync'.queue = sync.queue ++ [state] := by
  obtain ⟨expected, queue⟩ := sync
  cases queue with
  | nil =>
    cases waits
    exact ⟨by simp, rfl⟩
  | cons first rest =>
    simp only [ChannelSync.matchchsync] at waits
    split_ifs at waits with expects
    · cases (Prod.mk.inj waits).2
    · cases waits
      exact ⟨by simpa using expects, rfl⟩

theorem replace_last {idx : ℕ} {v w : Value} (inside : below.length = idx - 1) :
    replace (below ++ v :: args ++ [w]) idx = below ++ w :: args := by
  have top : index (below ++ v :: args ++ [w]) (below ++ v :: args ++ [w]).length = w := by
    simp [index]
  have placed : (below ++ v :: args ++ [w]).set (idx - 1) w = below ++ w :: args ++ [w] := by
    rw [List.append_assoc, List.set_append_right _ _ (by omega), ← inside, Nat.sub_self,
      List.append_assoc]
    rfl
  rw [replace, top, placed, List.dropLast_concat]

theorem reject_eq {v : Value} :
    TaskSystem.reject (below ++ nm :: e :: args ++ [v]) below.length =
      below ++ [.boolean false, v, .integer 2] := by
  have first : replace (below ++ nm :: e :: args ++ [v]) (below.length + 2) =
      below ++ nm :: v :: args := by
    have shape (u : Value) : below ++ nm :: u :: args = below ++ [nm] ++ u :: args := by simp
    rw [shape, shape]
    exact replace_last (by simp)
  have second : replace (below ++ nm :: v :: args ++ [Value.boolean false]) (below.length + 1) =
      below ++ Value.boolean false :: v :: args := replace_last (by simp)
  have cut : (below ++ Value.boolean false :: v :: args).take (below.length + 2) =
      below ++ [Value.boolean false, v] := by
    rw [List.take_length_add_append]
    rfl
  rw [TaskSystem.reject, first, second, settop_eq_take (by simp), cut, List.append_assoc]
  rfl

theorem yielded_cons (below : Stack) (nm v : Value) (same : K.length = rest.length)
    (tail : K.tail = rest.tail) : Yielded below (v :: rest) (below ++ nm :: K) ∧
      nargs ((below ++ nm :: K).length - below.length) = ((v :: rest).drop 2).length := by
  refine ⟨⟨?_, List.take_left⟩, ?_⟩
  · have brings := Brings.task below nm K
    rwa [tail, ← List.drop_one] at brings
  · rw [nargs_eq]
    simp [same]

theorem matchtask_handled (w : World) {text : String} {endpoint : Endpoint} {v : Value}
    (named : v.tostring = some text) (chosen : endpointof (v :: rest) = some endpoint)
    (same : K.length = rest.length) (tail : K.tail = rest.tail) (valid : ¬ Invalid (v :: rest)) :
    Handled w below (v :: rest) (matchtask w text endpoint (below ++ nm :: K) below.length) := by
  have channel : channelof (v :: rest) = some (cstring text) := by
    simp [channelof, named]
  obtain ⟨yielded, number⟩ := yielded_cons below nm v same tail
  unfold matchtask
  rw [number]
  dsimp only
  cases answer : ChannelSync.matchchsync (w.sync (cstring text)) endpoint
      (some (offer (below ++ nm :: K) below.length ((v :: rest).drop 2).length)) with
  | mk sync answered =>
    cases answered with
    | refused => exact absurd (congrArg Prod.snd answer) (never_refused _ _ _)
    | waits =>
      obtain ⟨alone, last⟩ := matchchsync_waits answer
      refine ⟨by rw [channel], ?_, fun invalid => absurd invalid valid⟩
      exact ⟨channel, ⟨endpoint, chosen, alone⟩, last, _, yielded, rfl⟩
    | matched found =>
      obtain ⟨first, expects⟩ := matchchsync_matched answer
      have waited : found ∈ (w.sync (cstring text)).queue := by
        rw [first]
        exact List.mem_cons_self
      obtain ⟨M, base, args, brings, rfl⟩ := w.offered _ found waited
      obtain ⟨ready, answered⟩ := ready_swapvalues w.faults (brings_offers yielded.brings)
        (brings_offers brings)
      rw [yielded.kept] at ready
      refine ⟨by rw [channel], ?_, fun invalid => absurd invalid valid⟩
      exact ⟨channel, first, ⟨endpoint, chosen, expects⟩, ⟨_, yielded, rfl⟩, ready,
        M, base, args, brings, rfl, answered⟩

theorem unnamed_handled (w : World) (unnamed : channelof values = none)
    (valid : ¬ Invalid values) :
    Handled w below values ⟨if values.head? = some .channeltask ∧ w.wakes = 0 then .stored
      else .queued, settop (below ++ values) below.length ++ [.integer 0], []⟩ := by
  have emptied : settop (below ++ values) below.length ++ [.integer 0] = below ++ [.integer 0] := by
    rw [settop_eq_take (by simp), List.take_left]
  refine ⟨by rw [unnamed], ?_, fun invalid => absurd invalid valid⟩
  by_cases stores : values.head? = some .channeltask ∧ w.wakes = 0
  · rw [if_pos stores]
    exact ⟨unnamed, iff_true_intro stores, emptied⟩
  · rw [if_neg stores]
    exact .inr ⟨unnamed, iff_false_intro stores, emptied⟩

theorem set_name (below : Stack) (v : Value) (rest : List Value) (text : String) :
    (below ++ v :: rest).set below.length (.string text) = below ++ .string text :: rest := by
  rw [List.set_append_right _ _ le_rfl, Nat.sub_self]
  rfl

theorem unreadable_raises (w : World) (below : Stack) (unreadable : Unreadable values) :
    ∃ calls, handle w (below ++ values) below.length = .error calls := by
  cases values with
  | nil => cases unreadable
  | cons v rest =>
    cases rest with
    | nil => cases unreadable
    | cons e args =>
      obtain ⟨name, given, unread⟩ := unreadable
      obtain ⟨text, named⟩ := Option.ne_none_iff_exists'.mp name
      have first : (below ++ v :: e :: args)[below.length]? = some v := by
        simp
      refine ⟨[.getchsync (cstring text)], ?_⟩
      simp only [handle, first, Option.bind_some, named, set_name, syncargs_unreadable given unread]

theorem invalid_checked {v : Value} {text : String} (named : v.tostring ≠ none)
    (read : optstring (below ++ nm :: e :: args) (below.length + 2) "any" = some text) :
    Invalid (v :: e :: args) ↔
      cstring text ∉ ["in", "out", "any"] ∨ ∃ v ∈ args, v.movable = false := by
  by_cases absent : e = .nil
  · subst e
    rw [optstring, index_endpoint] at read
    cases read
    simp [Invalid, named, cstring]
  · rw [optstring_given absent] at read
    simp [Invalid, named, absent, read]

theorem readable_handled (w : World) (below : Stack) (readable : ¬ Unreadable values) :
    ∃ h, handle w (below ++ values) below.length = .ok h ∧ Handled w below values h := by
  cases values with
  | nil =>
    refine ⟨_, ?_, unnamed_handled w rfl nofun⟩
    simp [handle]
  | cons v rest =>
    have first : (below ++ v :: rest)[below.length]? = some v := by
      simp
    cases named : v.tostring with
    | none =>
      have valid : ¬ Invalid (v :: rest) := by
        cases rest <;> simp [Invalid, named]
      refine ⟨_, ?_, unnamed_handled w (by simp [channelof, named]) valid⟩
      simp [handle, named]
    | some text =>
      have name : v.tostring ≠ none := by simp [named]
      cases rest with
      | nil =>
        refine ⟨matchtask w text .any (below ++ [.string text]) below.length, ?_, ?_⟩
        · simp only [handle, first, Option.bind_some, named, set_name, syncargs_alone]
        · exact matchtask_handled w named rfl rfl rfl id
      | cons e args =>
        have given : optstring (below ++ .string text :: e :: args) (below.length + 2) "any" ≠
            none := by
          intro unread
          by_cases absent : e = .nil
          · subst e
            rw [optstring, index_endpoint] at unread
            cases unread
          · exact readable ⟨name, absent, optstring_given absent ▸ unread⟩
        obtain ⟨option, read⟩ := Option.ne_none_iff_exists'.mp given
        have invalid := invalid_checked name read
        obtain ⟨e', ⟨bad, message, checked⟩ | ⟨⟨listed, moves⟩, endpoint, chosen, checked⟩⟩ :=
          syncargs_checked v read
        · have rejected : Rejected below ⟨.queued,
              TaskSystem.reject (below ++ .string text :: e' :: args ++ [.string message])
                below.length, [.getchsync (cstring text), .freechsync (cstring text)]⟩ :=
            ⟨rfl, message, reject_eq⟩
          refine ⟨_, ?_, ?_, Or.inl ⟨invalid.mpr bad, rejected⟩, fun _ => rejected⟩
          · simp only [handle, first, Option.bind_some, named, set_name, checked]
          · simp [channelof, named]
        · refine ⟨matchtask w text endpoint (below ++ .string text :: e' :: args) below.length,
            ?_, matchtask_handled w named chosen rfl rfl ?_⟩
          · simp only [handle, first, Option.bind_some, named, set_name, checked]
          · rw [invalid]
            rintro (other | ⟨x, member, fixed⟩)
            · exact other listed
            · exact absurd ((moves x member).symm.trans fixed) nofun

/-- The errors here are the yields with which no worker goes on. -/
theorem handle_raises {T C : Type} [DecidableEq T] [DecidableEq C]
    (channels : TaskSystem.Channels T C) (s : TaskSystem.State T C) (i : ℕ) (t : T) (base : ℕ)
    (w : World) :
    TaskSystem.handle channels s i t base = none ↔
      ∃ calls, handle w (s.stack t) base = .error calls := by
  unfold TaskSystem.handle handle
  cases (s.stack t)[base]?.bind Value.tostring with
  | none => exact iff_of_false nofun fun ⟨calls, raised⟩ => nomatch raised
  | some text =>
    simp only [TaskSystem.syncname]
    cases checksyncargs ((s.stack t).set base (.string text)) (base + 2) with
    | none => exact iff_of_true rfl ⟨_, rfl⟩
    | some checked =>
      obtain ⟨endpoint, L⟩ := checked
      cases endpoint with
      | none => exact iff_of_false nofun fun ⟨calls, raised⟩ => nomatch raised
      | some endpoint =>
        refine iff_of_false ?_ fun ⟨calls, raised⟩ => nomatch raised
        have waits := never_refused (s.sync text) endpoint
          (TaskSystem.Waiter.task t : TaskSystem.Waiter T C)
        simp only [Option.bind_some, TaskSystem.matchtask]
        split
        · exact nofun
        · exact nofun
        · rename_i refused
          exact absurd (congrArg Prod.snd refused) waits

/-- What a task yields is handled, and the worker that ran the task goes on, if and only if it is
not a name with an endpoint that is neither absent nor a text. -/
theorem yields_handled {T C : Type} [DecidableEq T] [DecidableEq C]
    (channels : TaskSystem.Channels T C) (s : TaskSystem.State T C) (i : ℕ) (t : T) (w : World)
    (below values : Stack) :
    ((∃ h, handle w (below ++ values) below.length = .ok h ∧ Handled w below values h) ↔
      ¬ Unreadable values) ∧
    ((TaskSystem.handle channels (s.setstack t (below ++ values)) i t below.length).isSome ↔
      ¬ Unreadable values) := by
  have stack : (s.setstack t (below ++ values)).stack t = below ++ values :=
    Function.update_self ..
  have stops := handle_raises channels (s.setstack t (below ++ values)) i t below.length w
  rw [stack] at stops
  rw [Option.isSome_iff_ne_none, ne_eq, stops]
  by_cases readable : Unreadable values
  · obtain ⟨calls, raised⟩ := unreadable_raises w below readable
    simp [readable, raised]
  · obtain ⟨h, result, handled⟩ := readable_handled w below readable
    simp [readable, result, handled]

def noChannels : World := ⟨fun _ => .new, fun _ _ waits => (nomatch waits), 0, Faults.none⟩

/-- A task that yields the name of a channel and a boolean ends the program. -/
theorem yields_handled_not :
    ¬ ∃ h, handle noChannels [.string "jobs", .boolean true] 0 = .ok h ∧
      Handled noChannels [] [.string "jobs", .boolean true] h := by
  rintro ⟨h, handled, -⟩
  cases handled

end
end Coutil.TaskYield
