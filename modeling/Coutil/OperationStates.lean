import Coutil.Operation

set_option autoImplicit false

/-! The state table of `doc/devnotes.md` for the operation of a coroutine, and the
runs that stay in it. -/
namespace Coutil.OperationStates
open Runs Operation

inductive Row where
  | freed
  | awaitingRequest
  | completedRequest
  | canceledRequest
  | resetingRequest
  | awaitingHandle
  | completedHandle
  | canceledHandle
  | resetingCanceledHandle
  | closingHandle
  | resetingClosedHandle
  deriving DecidableEq

inductive KFunction where
  | k_endop
  | k_resetopk
  deriving DecidableEq

inductive Callback where
  | request
  | handle
  | close
  deriving DecidableEq

/-- A row of the table; a question mark is `none` in the column of `FLAG_CLEANUP`. -/
structure Columns where
  request : Bool
  thrsaved : Bool
  pending : Bool
  cleanup : Option Bool
  kfunction : Option KFunction
  callback : Option Callback
  deriving DecidableEq

def Row.columns : Row → Columns
  | .freed => ⟨true, false, false, some false, none, none⟩
  | .awaitingRequest => ⟨true, true, true, some false, some .k_endop, some .request⟩
  | .completedRequest => ⟨true, true, false, some false, none, none⟩
  | .canceledRequest => ⟨true, true, false, none, none, some .request⟩
  | .resetingRequest => ⟨true, true, true, none, some .k_resetopk, some .request⟩
  | .awaitingHandle => ⟨false, false, true, some false, some .k_endop, some .handle⟩
  | .completedHandle => ⟨false, false, false, some false, none, some .handle⟩
  | .canceledHandle => ⟨false, false, false, some true, none, some .handle⟩
  | .resetingCanceledHandle => ⟨false, false, true, some true, some .k_resetopk, some .handle⟩
  | .closingHandle => ⟨false, false, false, some false, none, some .close⟩
  | .resetingClosedHandle => ⟨false, false, true, some false, some .k_resetopk, some .close⟩

section
variable {V W : Type}

def kfunction : Place V W → Option KFunction
  | .endop _ => some .k_endop
  | .resetop _ _ _ => some .k_resetopk
  | _ => none

/-- The callback that the flags, the type of the request and the state of the handle announce. -/
def callback (o : Op) : Option Callback :=
  if o.flags.request then (if o.kind.unknown then none else some .request)
  else if o.kind.isClosing then some .close else some .handle

structure Matches (s : State V W) (r : Row) : Prop where
  request : s.op.flags.request = r.columns.request
  thrsaved : s.op.flags.thrsaved = r.columns.thrsaved
  pending : s.op.flags.pending = r.columns.pending
  cleanup : ∀ b, r.columns.cleanup = some b → s.op.flags.cleanup = b
  kfunction : kfunction s.place = r.columns.kfunction
  callback : callback s.op = r.columns.callback

/-- The coroutine is in code outside the module, but not inside one of these callbacks. -/
def away (contexts : List Context) : Place V W → Prop
  | .running context => context ∉ contexts
  | .yielded | .dead => True
  | _ => False

/-- The states of an operation, each with all its fields. A handle that was canceled
and still open is that of `system.awaitch`, the only one with a cancel function. -/
inductive Valid : Op → Option (W → List V → Bool) → Place V W → Prop
  | freed {cancel place} (h : away [.incoreq, .incohdl] place) :
      Valid ⟨⟨true, false, false, false⟩, .request true, false, 0, 0, .idle⟩ cancel place
  | awaitingRequest {cancel} (act : ℕ) (stack : List V) :
      Valid ⟨⟨true, true, true, false⟩, .request false, true, 1, 0, .request act⟩ cancel
        (.endop stack)
  | completedRequest {cancel} :
      Valid ⟨⟨true, true, false, false⟩, .request true, true, 0, 0, .idle⟩ cancel
        (.running .incoreq)
  | canceledRequest {cancel place} (c : Bool) (act : ℕ) (h : away [.incohdl] place) :
      Valid ⟨⟨true, true, false, c⟩, .request false, true, 1, 0, .request act⟩ cancel place
  | resetingRequest {cancel} (c : Bool) (act : ℕ) (target : Target)
      (setup : W → Bool → List V → Setup V) (stack : List V) (h : allowed target cancel = true) :
      Valid ⟨⟨true, true, true, c⟩, .request false, true, 1, 0, .request act⟩ cancel
        (.resetop target setup stack)
  | awaitingHandle {cancel} (type : HandleType) (act : ℕ) (stack : List V)
      (h : allowed (.handle type) cancel = true) :
      Valid ⟨⟨false, false, true, false⟩, .handle type false, true, 1, asyncs type, .handle act⟩
        cancel (.endop stack)
  | completedHandle {cancel} (type : HandleType) (act : ℕ) :
      Valid ⟨⟨false, false, false, false⟩, .handle type false, true, 1, asyncs type, .handle act⟩
        cancel (.running .incohdl)
  | canceledHandle {cancel place} (act : ℕ) (h : away [.incoreq, .incohdl] place) :
      Valid ⟨⟨false, false, false, true⟩, .handle .async false, true, 1, 1, .handle act⟩ cancel place
  | resetingCanceledHandle {cancel} (act : ℕ) (target : Target)
      (setup : W → Bool → List V → Setup V) (stack : List V) (h : allowed target cancel = true) :
      Valid ⟨⟨false, false, true, true⟩, .handle .async false, true, 1, 1, .handle act⟩ cancel
        (.resetop target setup stack)
  | closingHandle {cancel place} (type : HandleType) (act : ℕ) (h : away [] place) :
      Valid ⟨⟨false, false, false, false⟩, .handle type true, true, 1, 0, .closing act⟩ cancel place
  | resetingClosedHandle {cancel} (type : HandleType) (act : ℕ) (target : Target)
      (setup : W → Bool → List V → Setup V) (stack : List V) (h : allowed target cancel = true) :
      Valid ⟨⟨false, false, true, false⟩, .handle type true, true, 1, 0, .closing act⟩ cancel
        (.resetop target setup stack)

def Inv (s : State V W) : Prop := Valid s.op s.cancel s.place

theorem kfunction_away {contexts : List Context} {place : Place V W} (h : away contexts place) :
    kfunction place = none := by
  cases place with
  | endop stack => exact h.elim
  | resetop target setup stack => exact h.elim
  | _ => rfl

theorem valid_row {s : State V W} (h : Inv s) : ∃ r, Matches s r := by
  obtain ⟨op, results, cancel, place, calls, acts, log⟩ := s
  cases h with
  | freed h => exact ⟨.freed, rfl, rfl, rfl, by simp [Row.columns], kfunction_away h, rfl⟩
  | awaitingRequest act stack =>
    exact ⟨.awaitingRequest, rfl, rfl, rfl, by simp [Row.columns], rfl, rfl⟩
  | completedRequest => exact ⟨.completedRequest, rfl, rfl, rfl, by simp [Row.columns], rfl, rfl⟩
  | canceledRequest c act h =>
    exact ⟨.canceledRequest, rfl, rfl, rfl, by simp [Row.columns], kfunction_away h, rfl⟩
  | resetingRequest c act target setup stack h =>
    exact ⟨.resetingRequest, rfl, rfl, rfl, by simp [Row.columns], rfl, rfl⟩
  | awaitingHandle type act stack h =>
    exact ⟨.awaitingHandle, rfl, rfl, rfl, by simp [Row.columns], rfl, rfl⟩
  | completedHandle type act =>
    exact ⟨.completedHandle, rfl, rfl, rfl, by simp [Row.columns], rfl, rfl⟩
  | canceledHandle act h =>
    exact ⟨.canceledHandle, rfl, rfl, rfl, by simp [Row.columns], kfunction_away h, rfl⟩
  | resetingCanceledHandle act target setup stack h =>
    exact ⟨.resetingCanceledHandle, rfl, rfl, rfl, by simp [Row.columns], rfl, rfl⟩
  | closingHandle type act h =>
    exact ⟨.closingHandle, rfl, rfl, rfl, by simp [Row.columns], kfunction_away h, rfl⟩
  | resetingClosedHandle type act target setup stack h =>
    exact ⟨.resetingClosedHandle, rfl, rfl, rfl, by simp [Row.columns], rfl, rfl⟩

/-- The operation where a setup function is given the loop. -/
def freeop (saved : Bool) : Op :=
  ⟨⟨true, saved, false, false⟩, .request true, saved, 0, 0, .idle⟩

/-- The operation is free, and the coroutine runs in a context that agrees with it. -/
structure Free (s : State V W) (context : Context) : Prop where
  op : s.op = freeop (decide (context = .incoreq))
  context : context ≠ .incohdl

theorem free_valid {s : State V W} {context : Context} (h : Free s context)
    (hp : s.place = .running context) : Inv s := by
  obtain ⟨hop, hc⟩ := h
  rw [Inv, hop, hp]
  cases context with
  | outside => exact .freed (by simp [away])
  | incoreq => exact .completedRequest
  | incohdl => exact absurd rfl hc

theorem ended_free {s : State V W} {context : Context} (h : Free s context) (source : Source V)
    (values : List V) : Inv (s.ended context source values) :=
  free_valid ⟨h.op, h.context⟩ rfl

theorem startop_valid {s : State V W} {context : Context} (h : Free s context) (target : Target)
    (ha : allowed target s.cancel = true) (outcome : Setup V) :
    ∃ u, s.startop context target outcome = .ok u ∧ Inv u := by
  obtain ⟨hop, hc⟩ := h
  obtain ⟨op, results, cancel, place, calls, acts, log⟩ := s
  obtain rfl : op = _ := hop
  have hreq : away [.incohdl] (.running context : Place V W) := by simpa [away] using hc
  have hhdl : away [] (.running context : Place V W) := by simp [away]
  cases outcome with
  | error => exact ⟨_, rfl, ended_free ⟨rfl, hc⟩ _ _⟩
  | results values => exact ⟨_, rfl, ended_free ⟨rfl, hc⟩ _ _⟩
  | armerror values =>
    cases target with
    | request => exact ⟨_, rfl, ended_free ⟨rfl, hc⟩ _ _⟩
    | handle type => exact ⟨_, rfl, ended_free ⟨rfl, hc⟩ _ _⟩
  | armedresults values =>
    cases target with
    | request =>
      refine ⟨_, rfl, ?_⟩
      cases context with
      | outside => exact .canceledRequest false (acts + 1) hreq
      | incoreq => exact .canceledRequest false (acts + 1) hreq
      | incohdl => exact absurd rfl hc
    | handle type =>
      refine ⟨_, rfl, ?_⟩
      have hz : (0 : ℤ) + asyncs type - asyncs type = 0 := by omega
      have hv : Valid (V := V) (W := W) ⟨⟨false, false, false, false⟩, .handle type true, true, 0 + 1,
          0 + asyncs type - asyncs type, .closing (acts + 1)⟩ cancel (.running context) := by
        rw [hz]
        exact .closingHandle type (acts + 1) hhdl
      cases context with
      | outside => exact hv
      | incoreq => exact hv
      | incohdl => exact absurd rfl hc
  | armed stack =>
    cases target with
    | request =>
      cases context with
      | outside => exact ⟨_, rfl, .awaitingRequest (acts + 1) stack⟩
      | incoreq => exact ⟨_, rfl, .awaitingRequest (acts + 1) stack⟩
      | incohdl => exact absurd rfl hc
    | handle type =>
      have hv : Valid ⟨⟨false, false, true, false⟩, .handle type false, true, 0 + 1, 0 + asyncs type,
          .handle (acts + 1)⟩ cancel (.endop stack) := by
        rw [zero_add, zero_add]
        exact .awaitingHandle type (acts + 1) stack ha
      cases context with
      | outside => exact ⟨_, rfl, hv⟩
      | incoreq => exact ⟨_, rfl, hv⟩
      | incohdl => exact absurd rfl hc

theorem startsame_valid {s : State V W} {type : HandleType} {act : ℕ}
    (hop : s.op = ⟨⟨false, false, false, false⟩, .handle type false, true, 1, asyncs type,
      .handle act⟩) (ha : allowed (.handle type) s.cancel = true) (outcome : Setup V) :
    ∃ u, s.startsame .incohdl outcome = .ok u ∧ Inv u := by
  obtain ⟨op, results, cancel, place, calls, acts, log⟩ := s
  obtain rfl : op = _ := hop
  have hv : Valid (V := V) (W := W) ⟨⟨false, false, false, false⟩, .handle type true, true, 1,
      asyncs type - asyncs type, .closing act⟩ cancel (.running .incohdl) := by
    rw [sub_self]
    exact .closingHandle type act (by simp [away])
  cases outcome with
  | error => exact ⟨_, rfl, .completedHandle type act⟩
  | results values => exact ⟨_, rfl, hv⟩
  | armerror values => exact ⟨_, rfl, hv⟩
  | armedresults values => exact ⟨_, rfl, hv⟩
  | armed stack => exact ⟨_, rfl, .awaitingHandle type act stack ha⟩

theorem leave_valid {s : State V W} (h : Inv s) {context : Context}
    (hp : s.place = .running context) {place : Place V W} (hplace : ∀ cs, away cs place) :
    ∃ u, s.leave context place = .ok u ∧ Inv u := by
  obtain ⟨op, results, cancel, place', calls, acts, log⟩ := s
  obtain rfl : place' = .running context := hp
  cases h with
  | freed h =>
    cases context with
    | outside => exact ⟨_, rfl, .freed (hplace _)⟩
    | incoreq => simp [away] at h
    | incohdl => simp [away] at h
  | completedRequest => exact ⟨_, rfl, .freed (hplace _)⟩
  | canceledRequest c act h =>
    cases context with
    | outside => exact ⟨_, rfl, .canceledRequest c act (hplace _)⟩
    | incoreq => exact ⟨_, rfl, .canceledRequest c act (hplace _)⟩
    | incohdl => simp [away] at h
  | completedHandle type act =>
    refine ⟨_, rfl, ?_⟩
    have hv : Valid (V := V) (W := W) ⟨⟨false, false, false, false⟩, .handle type true, true, 1,
        asyncs type - asyncs type, .closing act⟩ cancel place := by
      rw [sub_self]
      exact .closingHandle type act (hplace _)
    exact hv
  | canceledHandle act h =>
    cases context with
    | outside => exact ⟨_, rfl, .canceledHandle act (hplace _)⟩
    | incoreq => simp [away] at h
    | incohdl => simp [away] at h
  | closingHandle type act h =>
    cases context with
    | outside => exact ⟨_, rfl, .closingHandle type act (hplace _)⟩
    | incoreq => exact ⟨_, rfl, .closingHandle type act (hplace _)⟩
    | incohdl => exact ⟨_, rfl, .closingHandle type act (hplace _)⟩

theorem resetop_valid {s : State V W} (h : Inv s) {context : Context}
    (hp : s.place = .running context) {target : Target} {client : Client V W}
    (ha : allowed target client.cancel = true) (w : W) (stack : List V) :
    ∃ u, s.resetop context target client w stack = .ok u ∧ Inv u := by
  obtain ⟨op, results, cancel, place, calls, acts, log⟩ := s
  obtain rfl : place = .running context := hp
  cases h with
  | freed h =>
    cases context with
    | outside => exact startop_valid ⟨rfl, by simp⟩ target ha _
    | incoreq => simp [away] at h
    | incohdl => simp [away] at h
  | completedRequest => exact startop_valid ⟨rfl, by simp⟩ target ha _
  | canceledRequest c act h =>
    cases context with
    | outside => exact ⟨_, rfl, .resetingRequest c act target client.setup stack ha⟩
    | incoreq => exact ⟨_, rfl, .resetingRequest c act target client.setup stack ha⟩
    | incohdl => simp [away] at h
  | completedHandle type act =>
    have hv : Valid (V := V) (W := W) ⟨⟨false, false, true, false⟩, .handle type true, true, 1,
        asyncs type - asyncs type, .closing act⟩ client.cancel
        (.resetop target client.setup stack) := by
      rw [sub_self]
      exact .resetingClosedHandle type act target client.setup stack ha
    cases target with
    | request => exact ⟨_, rfl, hv⟩
    | handle given =>
      by_cases hsame : given.given = some type
      · obtain rfl : given = type := by
          cases given <;> simp [HandleType.given] at hsame <;> exact hsame
        have hcheck : Op.checkreset ⟨⟨false, false, false, false⟩, .handle given false, true, 1,
            asyncs given, .handle act⟩ (.handle given) = (.sameop, ⟨⟨false, false, false, false⟩,
              .handle given false, true, 1, asyncs given, .handle act⟩) := by
          simp [Op.checkreset, Kind.isClosing, hsame]
        simp only [State.resetop, State.note, hcheck]
        exact startsame_valid rfl ha _
      · have hcheck : Op.checkreset ⟨⟨false, false, false, false⟩, .handle type false, true, 1,
            asyncs type, .handle act⟩ (.handle given) = (.waitop, ⟨⟨false, false, false, false⟩,
              .handle type true, true, 1, asyncs type - asyncs type, .closing act⟩) := by
          simp [Op.checkreset, Kind.isClosing, hsame, Op.closehdl, Uv.act]
        simp only [State.resetop, State.note, hcheck]
        exact ⟨_, rfl, hv⟩
  | canceledHandle act h =>
    cases context with
    | outside => exact ⟨_, rfl, .resetingCanceledHandle act target client.setup stack ha⟩
    | incoreq => simp [away] at h
    | incohdl => simp [away] at h
  | closingHandle type act h =>
    cases context with
    | outside => exact ⟨_, rfl, .resetingClosedHandle type act target client.setup stack ha⟩
    | incoreq => exact ⟨_, rfl, .resetingClosedHandle type act target client.setup stack ha⟩
    | incohdl => exact ⟨_, rfl, .resetingClosedHandle type act target client.setup stack ha⟩

theorem away_outside {contexts : List Context} {place : Place V W} (h : away contexts place)
    (hl : place.loops = true) : away [.incoreq, .incohdl] place := by
  cases place with
  | running context =>
    obtain rfl : context = .outside := by simpa [Place.loops] using hl
    simp [away]
  | endop stack => exact h.elim
  | resetop target setup stack => exact h.elim
  | yielded => trivial
  | dead => trivial

theorem away_weaken {contexts : List Context} {place : Place V W}
    (h : away [.incoreq, .incohdl] place) (hs : contexts ⊆ [.incoreq, .incohdl]) :
    away contexts place := by
  cases place with
  | running context => exact fun hm => h (hs hm)
  | endop stack => exact h.elim
  | resetop target setup stack => exact h.elim
  | yielded => trivial
  | dead => trivial

theorem outside_away {contexts : List Context} (h : .outside ∉ contexts) :
    away contexts (.running .outside : Place V W) := h

/-- A coroutine that yielded by itself is resumed. -/
theorem yielded_valid {s : State V W} (h : Inv s) (hp : s.place = .yielded) :
    Inv { s with place := .running .outside } := by
  obtain ⟨op, results, cancel, place, calls, acts, log⟩ := s
  obtain rfl : place = .yielded := hp
  cases h with
  | freed h => exact .freed (outside_away (by simp))
  | canceledRequest c act h => exact .canceledRequest c act (outside_away (by simp))
  | canceledHandle act h => exact .canceledHandle act (outside_away (by simp))
  | closingHandle type act h => exact .closingHandle type act (outside_away (by simp))

/-- An explicit resume of a coroutine in `k_endop`. -/
theorem k_endophalted_valid {s : State V W} (h : Inv s) {stack : List V}
    (hp : s.place = .endop stack) (w : W) (values : List V) :
    ∃ u, s.k_endophalted w stack values = .ok u ∧ Inv u := by
  obtain ⟨op, results, cancel, place, calls, acts, log⟩ := s
  obtain rfl : place = .endop stack := hp
  cases h with
  | freed h => exact h.elim
  | canceledRequest c act h => exact h.elim
  | canceledHandle act h => exact h.elim
  | closingHandle type act h => exact h.elim
  | awaitingRequest act stack =>
    cases cancel with
    | none => exact ⟨_, rfl, .canceledRequest false act (outside_away (by simp))⟩
    | some cancel =>
      cases hc : cancel w (stack ++ values) with
      | true =>
        simp only [State.k_endophalted, hc]
        exact ⟨_, rfl, .canceledRequest false act (outside_away (by simp))⟩
      | false =>
        simp only [State.k_endophalted, hc]
        exact ⟨_, rfl, .canceledRequest true act (outside_away (by simp))⟩
  | awaitingHandle type act stack h =>
    have hv : ∀ cancel' : Option (W → List V → Bool), Valid (V := V) (W := W)
        ⟨⟨false, false, false, false⟩, .handle type true, true, 1, asyncs type - asyncs type,
          .closing act⟩ cancel' (.running .outside) := by
      intro cancel'
      rw [sub_self]
      exact .closingHandle type act (outside_away (by simp))
    cases cancel with
    | none => exact ⟨_, rfl, hv none⟩
    | some cancel =>
      cases hc : cancel w (stack ++ values) with
      | true =>
        simp only [State.k_endophalted, hc]
        exact ⟨_, rfl, hv (some cancel)⟩
      | false =>
        obtain rfl : type = .async := by simpa [allowed] using h
        simp only [State.k_endophalted, hc]
        exact ⟨_, rfl, .canceledHandle act (outside_away (by simp))⟩

/-- An explicit resume of a coroutine in `k_resetopk`. -/
theorem k_resetopkhalted_valid {s : State V W} (h : Inv s) {target : Target}
    {setup : W → Bool → List V → Setup V} {stack : List V}
    (hp : s.place = .resetop target setup stack) (values : List V) :
    ∃ u, s.k_resetopkhalted values = .ok u ∧ Inv u := by
  obtain ⟨op, results, cancel, place, calls, acts, log⟩ := s
  obtain rfl : place = .resetop target setup stack := hp
  cases h with
  | freed h => exact h.elim
  | canceledRequest c act h => exact h.elim
  | canceledHandle act h => exact h.elim
  | closingHandle type act h => exact h.elim
  | resetingRequest c act target setup stack h =>
    exact ⟨_, rfl, .canceledRequest c act (outside_away (by simp))⟩
  | resetingCanceledHandle act target setup stack h =>
    exact ⟨_, rfl, .canceledHandle act (outside_away (by simp))⟩
  | resetingClosedHandle type act target setup stack h =>
    exact ⟨_, rfl, .closingHandle type act (outside_away (by simp))⟩

/-- A callback resumes `k_resetopk` once the operation is free. -/
theorem resetop_resumed_valid {s : State V W} {target : Target}
    {setup : W → Bool → List V → Setup V} {stack : List V}
    (hp : s.place = .resetop target setup stack) (ha : allowed target s.cancel = true)
    (hop : s.op = ⟨⟨true, true, true, false⟩, .request true, true, 0, 0, .idle⟩) (w : W) (act : ℕ)
    (values : List V) : ∃ u, s.resumecoreq w act values = .ok u ∧ Inv u := by
  obtain ⟨op, results, cancel, place, calls, acts, log⟩ := s
  obtain rfl : place = .resetop target setup stack := hp
  obtain rfl : op = _ := hop
  have hf : Free (⟨freeop true, results, cancel, .resetop target setup stack, calls, acts, log⟩ :
      State V W) .incoreq := ⟨rfl, by simp⟩
  exact startop_valid hf target ha (setup w true stack)

theorem requestcb_valid {s : State V W} (h : Inv s) {act : ℕ} (huv : s.op.uv = .request act)
    (hl : s.place.loops = true) (hc : ¬ (s.op.flags.pending = true ∧ s.op.flags.cleanup = true))
    (w : W) (values : List V) : ∃ u, s.requestcb w act values = .ok u ∧ Inv u := by
  obtain ⟨op, results, cancel, place, calls, acts, log⟩ := s
  cases h with
  | freed h => cases huv
  | completedRequest => cases huv
  | awaitingHandle type act' stack h => cases huv
  | completedHandle type act' => cases huv
  | canceledHandle act' h => cases huv
  | resetingCanceledHandle act' target setup stack h => cases huv
  | closingHandle type act' h => cases huv
  | resetingClosedHandle type act' target setup stack h => cases huv
  | awaitingRequest act' stack => exact ⟨_, rfl, .completedRequest⟩
  | canceledRequest c act' h => exact ⟨_, rfl, .freed (away_outside h hl)⟩
  | resetingRequest c act' target setup stack h =>
    obtain rfl : c = false := by simpa using hc
    exact resetop_resumed_valid (s := ⟨⟨⟨true, true, true, false⟩, .request true, true, 1 - 1, 0, .idle⟩,
      results, cancel, .resetop target setup stack, calls, acts, .delivered act values :: log⟩)
      rfl h rfl w act values

theorem handlecb_valid {s : State V W} (h : Inv s) {type : HandleType} {closing : Bool} {act : ℕ}
    (huv : s.op.uv = .handle act) (hk : s.op.kind = .handle type closing)
    (hl : s.place.loops = true) (w : W) (values : List V) :
    ∃ u, s.handlecb w type act values = .ok u ∧ Inv u := by
  obtain ⟨op, results, cancel, place, calls, acts, log⟩ := s
  cases h with
  | freed h => cases huv
  | completedRequest => cases huv
  | awaitingRequest act' stack => cases huv
  | canceledRequest c act' h => cases huv
  | resetingRequest c act' target setup stack h => cases huv
  | closingHandle type' act' h => cases huv
  | resetingClosedHandle type' act' target setup stack h => cases huv
  | completedHandle type' act' => cases hl
  | awaitingHandle type' act' stack h =>
    obtain ⟨rfl, -⟩ : type' = type ∧ false = closing := by simpa using hk
    cases type' <;> exact ⟨_, rfl, .completedHandle _ act'⟩
  | canceledHandle act' h =>
    obtain ⟨rfl, -⟩ : HandleType.async = type ∧ false = closing := by simpa using hk
    exact ⟨_, rfl, .closingHandle .async act' (away_weaken h (by simp))⟩
  | resetingCanceledHandle act' target setup stack h =>
    obtain ⟨rfl, -⟩ : HandleType.async = type ∧ false = closing := by simpa using hk
    exact ⟨_, rfl, .resetingClosedHandle .async act' target setup stack h⟩

theorem closecb_valid {s : State V W} (h : Inv s) {act : ℕ} (huv : s.op.uv = .closing act)
    (hl : s.place.loops = true) (w : W) : ∃ u, s.closecb w act = .ok u ∧ Inv u := by
  obtain ⟨op, results, cancel, place, calls, acts, log⟩ := s
  cases h with
  | freed h => cases huv
  | completedRequest => cases huv
  | awaitingRequest act' stack => cases huv
  | canceledRequest c act' h => cases huv
  | resetingRequest c act' target setup stack h => cases huv
  | awaitingHandle type act' stack h => cases huv
  | completedHandle type act' => cases huv
  | canceledHandle act' h => cases huv
  | resetingCanceledHandle act' target setup stack h => cases huv
  | closingHandle type act' h => exact ⟨_, rfl, .freed (away_outside h hl)⟩
  | resetingClosedHandle type act' target setup stack h =>
    exact resetop_resumed_valid (s := ⟨⟨⟨true, true, true, false⟩, .request true, true, 1 - 1, 0, .idle⟩,
      results, cancel, .resetop target setup stack, calls, acts, .closed act :: log⟩)
      rfl h rfl w act []

/-- The callback of a request does not find the coroutine waiting to start another
operation after the cancel function of the request answered 0. -/
def Harmless (s : State V W) : Act V W → Prop
  | .requestcb _ _ => ¬ (s.op.flags.pending = true ∧ s.op.flags.cleanup = true)
  | _ => True

theorem step_valid {s : State V W} (h : Inv s) {a : Act V W} (hc : Harmless s a)
    {r : Except Site (State V W)} (hr : step s a = some r) : ∃ u, r = .ok u ∧ Inv u := by
  cases step_cases hr with
  | call hp ha => exact resetop_valid h hp ha _ _
  | yield hp => exact leave_valid h hp (fun _ => trivial)
  | finish hp => exact leave_valid h hp (fun _ => trivial)
  | resume hp => exact ⟨_, rfl, yielded_valid h hp⟩
  | endop hp => exact k_endophalted_valid (s := s.note _) h hp _ _
  | resetop hp => exact k_resetopkhalted_valid (s := s.note _) h hp _
  | requestcb huv hl => exact requestcb_valid h huv hl hc _ _
  | handlecb huv hk hl => exact handlecb_valid h huv hk hl _ _
  | closecb huv hl => exact closecb_valid h huv hl _

theorem next_valid {s u : State V W} (h : Inv s) {a : Act V W} (hc : Harmless s a)
    (hu : next s a = some u) : Inv u := by
  obtain ⟨v, hv, hi⟩ := step_valid h hc (next_eq.mp hu)
  cases hv
  exact hi

theorem init_valid : Inv (State.init : State V W) := .freed trivial

/-- The operation is an async handle that was armed and not closed. -/
def openasync (o : Op) : Bool :=
  match o.uv, o.kind with
  | .handle _, .handle type _ => decide (type = .async)
  | _, _ => false

/-- What the operation adds to the counters of the scheduler and to the registry. -/
structure Counted (s : State V W) : Prop where
  anchored : s.op.anchored = true ↔ ¬ Matches s .freed
  nactive : s.op.nactive = if s.op.uv = .idle then 0 else 1
  nasync : s.op.nasync = if openasync s.op then 1 else 0

theorem counted {s : State V W} (h : Inv s) : Counted s := by
  obtain ⟨op, results, cancel, place, calls, acts, log⟩ := s
  have hsaved : ∀ {s : State V W}, s.op.flags.thrsaved = true ∨ s.op.flags.request = false →
      ¬ Matches s .freed := by
    intro s hs hm
    have h₁ := hm.thrsaved
    have h₂ := hm.request
    simp only [Row.columns] at h₁ h₂
    rw [h₁, h₂] at hs
    simp at hs
  cases h with
  | freed h =>
    have hm : Matches (⟨_, results, cancel, place, calls, acts, log⟩ : State V W) .freed :=
      ⟨rfl, rfl, rfl, by simp [Row.columns], kfunction_away h, rfl⟩
    exact ⟨by simpa using hm, rfl, rfl⟩
  | awaitingRequest act stack => exact ⟨by simp [hsaved], by simp, rfl⟩
  | completedRequest => exact ⟨by simp [hsaved], by simp, rfl⟩
  | canceledRequest c act h => exact ⟨by simp [hsaved], by simp, rfl⟩
  | resetingRequest c act target setup stack h => exact ⟨by simp [hsaved], by simp, rfl⟩
  | awaitingHandle type act stack h =>
    exact ⟨by simp [hsaved], by simp, by simp [asyncs, openasync]⟩
  | completedHandle type act => exact ⟨by simp [hsaved], by simp, by simp [asyncs, openasync]⟩
  | canceledHandle act h => exact ⟨by simp [hsaved], by simp, rfl⟩
  | resetingCanceledHandle act target setup stack h => exact ⟨by simp [hsaved], by simp, rfl⟩
  | closingHandle type act h => exact ⟨by simp [hsaved], by simp, rfl⟩
  | resetingClosedHandle type act target setup stack h =>
    exact ⟨by simp [hsaved], by simp, rfl⟩

/-- A completed request with `FLAG_CLEANUP` is in no row of the table. -/
theorem completed_cleanup_unlisted {s : State V W} (hr : s.op.flags.request = true)
    (hu : s.op.kind.unknown = true) (hc : s.op.flags.cleanup = true) (row : Row) :
    ¬ Matches s row := by
  intro hm
  have hcb := hm.callback
  have hcl := hm.cleanup
  simp only [callback, hr, hu, if_true] at hcb
  cases row with
  | freed => simpa [hc] using hcl false rfl
  | completedRequest => simpa [hc] using hcl false rfl
  | _ => simp [Row.columns] at hcb

/-- `lcuU_endcoreq` leaves `FLAG_CLEANUP` set when the coroutine waits to start another
operation, and `k_resetopk` goes on with it. -/
theorem harmful_step {s : State V W} (h : Inv s) {a : Act V W} (hc : ¬ Harmless s a)
    {r : Except Site (State V W)} (hr : step s a = some r) :
    (∃ site, r = .error site) ∨ ∃ u, r = .ok u ∧ ∀ row, ¬ Matches u row := by
  cases a with
  | requestcb w values =>
    obtain ⟨op, results, cancel, place, calls, acts, log⟩ := s
    simp only [Harmless, not_not] at hc
    obtain ⟨hp, hcl⟩ := hc
    cases h with
    | resetingRequest c act target setup stack h =>
      obtain rfl : c = true := hcl
      have hr : r = (⟨⟨⟨true, true, false, true⟩, .request true, true, 0, 0, .idle⟩, results, cancel,
          .resetop target setup stack, calls, acts, .delivered act values :: log⟩ :
          State V W).startop .incoreq target (setup w true stack) := (Option.some.inj hr).symm
      subst hr
      cases setup w true stack with
      | error => exact Or.inr ⟨_, rfl, completed_cleanup_unlisted rfl rfl rfl⟩
      | results values => exact Or.inl ⟨_, rfl⟩
      | armerror values => cases target <;> exact Or.inl ⟨_, rfl⟩
      | armedresults values => cases target <;> exact Or.inl ⟨_, rfl⟩
      | armed stack => cases target <;> exact Or.inl ⟨_, rfl⟩
    | resetingCanceledHandle act target setup stack h => cases hr
    | awaitingRequest act stack => cases hcl
    | awaitingHandle type act stack h => cases hcl
    | resetingClosedHandle type act target setup stack h => cases hcl
    | freed h => cases hp
    | completedRequest => cases hp
    | canceledRequest c act h => cases hp
    | completedHandle type act => cases hp
    | canceledHandle act h => cases hp
    | closingHandle type act h => cases hp
  | _ => exact absurd trivial hc

/-- In every run in which no callback of a request whose cancel function answered 0 finds
the coroutine waiting to start another operation, the operation is in a row of the table,
no assertion fails, the coroutine is anchored exactly while the operation is not free, and
the counters are those of what libuv still has to do. Any other step breaks the table or
fails an assertion. -/
theorem operation_follows_table (acts : List (Act V W)) (s : State V W)
    (h : run next State.init acts = some s) (hc : Along next Harmless State.init acts) :
    (∃ row, Matches s row) ∧ Counted s ∧
      (∀ a r, Harmless s a → step s a = some r → ∃ u, r = .ok u) ∧
      (∀ a r, ¬ Harmless s a → step s a = some r →
        (∃ site, r = .error site) ∨ ∃ u, r = .ok u ∧ ∀ row, ¬ Matches u row) := by
  have hi : Inv s := run_invariant_along Inv Harmless (fun _ _ _ hi hc hu => next_valid hi hc hu)
    init_valid hc h
  refine ⟨valid_row hi, counted hi, ?_, fun a r hc hr => harmful_step hi hc hr⟩
  intro a r hc hr
  obtain ⟨u, hu, -⟩ := step_valid hi hc hr
  exact ⟨u, hu⟩

/-- A client of `lcuT_resetcoreqk` as in the template of `doc/devnotes.md`, which needs its
callback for some clean up. -/
def cleaner : Client Unit Unit := ⟨fun _ _ _ => .armed [], none, some (fun _ _ => false)⟩

theorem operation_follows_table_cleaner :
    ∃ s : State Unit Unit,
      run next State.init [.resume () [], .call .request cleaner () [], .resume () [()],
        .requestcb () []] = some s ∧ (∃ row, Matches s row) ∧ Counted s := by
  have hrun := operation_follows_table (V := Unit) (W := Unit)
    [.resume () [], .call .request cleaner () [], .resume () [()], .requestcb () []] _ rfl
    (along_cons rfl trivial (along_cons rfl trivial (along_cons rfl trivial
      (along_cons rfl (by simp [Harmless, State.ended, State.note]) trivial))))
  exact ⟨_, rfl, hrun.1, hrun.2.1⟩

theorem cleanup_fails_reset :
    ∃ s : State Unit Unit,
      run next State.init [.resume () [], .call .request cleaner () [], .resume () [()],
        .call .request cleaner () []] = some s ∧
      step s (.requestcb () []) = some (.error .startedopk) :=
  ⟨_, rfl, rfl⟩

end
end Coutil.OperationStates
