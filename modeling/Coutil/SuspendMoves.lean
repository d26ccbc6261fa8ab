import Mathlib
import Coutil.SuspendTimer

set_option autoImplicit false

/-! The operation of a coroutine in calls of `system.suspend` and of the other functions. -/
namespace Coutil.SuspendMoves
open Operation OperationStates SuspendTimer Runs

section
variable {V W : Type} {lua : Lua V} {o v : Operation.State V W} {w : W} {L : List V}

theorem opened_place (inv : Inv o) (opened : Op.opentimer o.op = true) :
    (∃ L, o.place = .endop L) ∨ o.place = .running .incohdl := by
  obtain ⟨op, results, cancel, place, calls, acts, log⟩ := o
  cases inv with
  | awaitingHandle type act stack h => exact .inl ⟨stack, rfl⟩
  | completedHandle type act => exact .inr rfl
  | _ => simp [Op.opentimer] at opened

/-- What the coroutine is after an operation started. -/
structure Starts (target : Target) (cancel : Option (W → List V → Bool)) (outcome : Setup V)
    (v : Operation.State V W) : Prop where
  opened : Op.opentimer v.op = true → target = .handle .timer
  place : (∃ context, v.place = .running context) ∨ ∃ L, v.place = .endop L
  armed : ∀ L, outcome = .armed L →
    v.place = .endop L ∧ (target = .handle .timer → Op.opentimer v.op = true)
  cleanup : v.op.flags.cleanup = false
  request : v.op.flags.request = true → (∃ L, v.place = .endop L) → target = .request
  cancel : v.cancel = cancel

theorem starts_running {context : Context} {target : Target} {outcome : Setup V}
    {cancel : Option (W → List V → Bool)} (shut : Op.opentimer v.op = false)
    (place : v.place = .running context) (unarmed : ∀ L, outcome ≠ .armed L)
    (cleanup : v.op.flags.cleanup = false) (kept : v.cancel = cancel) :
    Starts target cancel outcome v where
  opened opened := absurd opened (by rw [shut]; exact Bool.false_ne_true)
  place := .inl ⟨context, place⟩
  armed L armed := absurd armed (unarmed L)
  cleanup := cleanup
  request _ waits := by
    obtain ⟨L, waits⟩ := waits
    rw [place] at waits
    cases waits
  cancel := kept

/-- A call waits for the operation of another one. -/
structure Resets (target : Target) (cancel : Option (W → List V → Bool))
    (setup : W → Bool → List V → Setup V) (L : List V) (o v : Operation.State V W) : Prop where
  shut : Op.opentimer v.op = false
  place : v.place = .resetop target setup L
  cleanup : v.op.flags.request = true →
    o.op.flags.request = true ∧ v.op.flags.cleanup = o.op.flags.cleanup
  cancel : v.cancel = cancel

theorem starts_armed (opened : Op.opentimer v.op = true) (place : v.place = .endop L)
    (cleanup : v.op.flags.cleanup = false) (request : v.op.flags.request = false)
    (kept : v.cancel = none) : Starts (.handle .timer) none (.armed L) v where
  opened _ := rfl
  place := .inr ⟨L, place⟩
  armed M armed := by
    cases armed
    exact ⟨place, fun _ => opened⟩
  cleanup := cleanup
  request made := by
    rw [request] at made
    cases made
  cancel := kept

/-- A call of `system.suspend` with a free operation, on its timer again, and while another
operation has to end. -/
theorem suspend_moves (inv : Inv o)
    (moved : Operation.next o (.call (.handle .timer) (suspender lua) w L) = some v) :
    ((o.op.checkreset (.handle .timer)).1 = .freeop ∧
      Starts (.handle .timer) none (.armed L) v) ∨
    ((o.op.checkreset (.handle .timer)).1 = .sameop ∧ Op.opentimer o.op = true ∧
      o.place = .running .incohdl ∧ Starts (.handle .timer) none (.armed L) v) ∨
    ((o.op.checkreset (.handle .timer)).1 = .waitop ∧
      Resets (.handle .timer) none (suspender lua).setup L o v) := by
  obtain ⟨r, step, same⟩ := next_cases moved
  cases step with
  | call hp ha =>
    rename_i context
    obtain ⟨op, results, cancel, place, calls, acts, log⟩ := o
    obtain rfl : place = .running context := hp
    cases inv with
    | freed h =>
      cases context with
      | outside =>
        cases same
        exact .inl ⟨rfl, starts_armed rfl rfl rfl rfl rfl⟩
      | incoreq => simp [away] at h
      | incohdl => simp [away] at h
    | completedRequest =>
      cases same
      exact .inl ⟨rfl, starts_armed rfl rfl rfl rfl rfl⟩
    | canceledRequest c act h =>
      cases context with
      | incohdl => simp [away] at h
      | _ =>
        cases same
        exact .inr (.inr ⟨rfl, rfl, rfl, fun _ => ⟨rfl, rfl⟩, rfl⟩)
    | completedHandle type act =>
      cases type with
      | timer =>
        cases same
        exact .inr (.inl ⟨rfl, rfl, rfl, starts_armed rfl rfl rfl rfl rfl⟩)
      | _ =>
        cases same
        exact .inr (.inr ⟨rfl, rfl, rfl, (fun h => by cases h), rfl⟩)
    | canceledHandle act h =>
      cases context with
      | outside =>
        cases same
        exact .inr (.inr ⟨rfl, rfl, rfl, (fun h => by cases h), rfl⟩)
      | incoreq => simp [away] at h
      | incohdl => simp [away] at h
    | closingHandle type act h =>
      cases context with
      | _ =>
        cases type with
        | _ =>
          cases same
          exact .inr (.inr ⟨rfl, rfl, rfl, (fun h => by cases h), rfl⟩)

theorem startop_starts {context : Context} {target : Target} {outcome : Setup V}
    (free : Free o context) (started : o.startop context target outcome = .ok v) :
    Starts target o.cancel outcome v := by
  obtain ⟨op, noincohdl⟩ := free
  obtain ⟨_, results, cancel, place, calls, acts, log⟩ := o
  obtain rfl : _ = _ := op
  cases outcome with
  | error =>
    cases started
    exact starts_running rfl rfl nofun rfl rfl
  | results values =>
    cases started
    exact starts_running rfl rfl nofun rfl rfl
  | armerror values =>
    cases target with
    | _ =>
      cases started
      exact starts_running rfl rfl nofun rfl rfl
  | armedresults values =>
    cases target with
    | request =>
      cases started
      exact starts_running rfl rfl nofun rfl rfl
    | handle type =>
      cases type with
      | _ =>
        cases started
        exact starts_running rfl rfl nofun rfl rfl
  | armed L =>
    cases context with
    | incohdl => exact absurd rfl noincohdl
    | _ =>
      cases target with
      | request =>
        cases started
        exact ⟨nofun, .inr ⟨_, rfl⟩, fun M armed => ⟨by cases armed; rfl, nofun⟩, rfl,
          fun _ _ => rfl, rfl⟩
      | handle type =>
        cases type with
        | timer =>
          cases started
          exact ⟨fun _ => rfl, .inr ⟨_, rfl⟩, fun M armed => ⟨by cases armed; rfl, fun _ => rfl⟩, rfl,
            nofun, rfl⟩
        | _ =>
          cases started
          exact ⟨nofun, .inr ⟨_, rfl⟩, fun M armed => ⟨by cases armed; rfl, nofun⟩, rfl, nofun, rfl⟩

/-- No request is left to its cancel function. -/
structure Clean (o : Operation.State V W) : Prop where
  cleanup : o.op.flags.request = true → o.op.flags.cleanup = false
  request : o.op.flags.request = true → ∀ L, o.place = .endop L → o.cancel = none
  reset : ∀ setup L, o.place = .resetop .request setup L → o.cancel = none

theorem clean_harmless {act : Operation.Act V W} (inv : Inv o) (clean : Clean o)
    (moved : Operation.next o act = some v) : Harmless o act := by
  cases act with
  | requestcb w values =>
    obtain ⟨r, step, -⟩ := next_cases moved
    cases step with
    | requestcb huv hl =>
      have cleanup := clean.cleanup
      obtain ⟨op, results, cancel, place, calls, acts, log⟩ := o
      rintro ⟨-, cleaning⟩
      cases inv with
      | awaitingRequest act stack => cases cleaning
      | canceledRequest c act h => exact Bool.false_ne_true ((cleanup rfl).symm.trans cleaning)
      | resetingRequest c act target setup stack h =>
        exact Bool.false_ne_true ((cleanup rfl).symm.trans cleaning)
      | _ => cases huv
  | _ => trivial

/-- The end of an operation starts the one that waits for it. -/
theorem reset_moves {act : Operation.Act V W} {target : Target}
    {setup : W → Bool → List V → Setup V} (inv : Inv o) (clean : Clean o)
    (place : o.place = .resetop target setup L)
    (ends : (∃ w values, act = .requestcb w values) ∨ ∃ w, act = .closecb w)
    (moved : Operation.next o act = some v) :
    ∃ w, Starts target o.cancel (setup w true L) v := by
  have cleanup := clean.cleanup
  obtain ⟨r, step, same⟩ := next_cases moved
  obtain ⟨op, results, cancel, place', calls, acts, log⟩ := o
  obtain rfl : place' = _ := place
  rcases ends with ⟨w, values, rfl⟩ | ⟨w, rfl⟩
  · cases step with
    | requestcb huv hl =>
      refine ⟨w, ?_⟩
      cases inv with
      | resetingRequest c act target setup stack h =>
        obtain rfl : c = false := cleanup rfl
        cases huv
        have free (log : List (Entry V W)) : Free (⟨freeop true, results, cancel,
          .resetop target setup L, calls, acts, log⟩ : Operation.State V W) .incoreq := ⟨rfl, nofun⟩
        have starts : Starts target cancel (setup w true L) v := startop_starts (free _) same
        exact starts
      | freed h => exact h.elim
      | canceledRequest c act h => exact h.elim
      | _ => cases huv
  · cases step with
    | closecb huv hl =>
      refine ⟨w, ?_⟩
      cases inv with
      | resetingClosedHandle type act target setup stack h =>
        cases huv
        have free (log : List (Entry V W)) : Free (⟨freeop true, results, cancel,
          .resetop target setup L, calls, acts, log⟩ : Operation.State V W) .incoreq := ⟨rfl, nofun⟩
        have starts : Starts target cancel (setup w true L) v := startop_starts (free _) same
        exact starts
      | freed h => exact h.elim
      | closingHandle type act h => exact h.elim
      | _ => cases huv

theorem startsame_starts {type : HandleType} {act : ℕ} {outcome : Setup V}
    (open_ : o.op = ⟨⟨false, false, false, false⟩, .handle type false, true, 1, asyncs type,
      .handle act⟩) (other : type ≠ .timer) (started : o.startsame .incohdl outcome = .ok v) :
    Starts (.handle type) o.cancel outcome v := by
  obtain ⟨_, results, cancel, place, calls, acts, log⟩ := o
  obtain rfl : _ = _ := open_
  cases outcome with
  | error =>
    cases type with
    | timer => exact absurd rfl other
    | _ =>
      cases started
      exact starts_running rfl rfl nofun rfl rfl
  | armed L =>
    cases type with
    | timer => exact absurd rfl other
    | _ =>
      cases started
      exact ⟨nofun, .inr ⟨_, rfl⟩, fun M armed => ⟨by cases armed; rfl, nofun⟩, rfl, nofun, rfl⟩
  | _ =>
    cases type with
    | timer => exact absurd rfl other
    | _ =>
      cases started
      exact starts_running rfl rfl nofun rfl rfl

/-- A call of another function. -/
theorem call_moves {target : Target} {client : Client V W} (inv : Inv o)
    (other : target ≠ .handle .timer)
    (moved : Operation.next o (.call target client w L) = some v) :
    (∃ outcome, Starts target client.cancel outcome v) ∨
      Resets target client.cancel client.setup L o v := by
  obtain ⟨r, step, same⟩ := next_cases moved
  cases step with
  | call hp ha =>
    rename_i context
    obtain ⟨op, results, cancel, place, calls, acts, log⟩ := o
    obtain rfl : place = .running context := hp
    cases inv with
    | freed h =>
      cases context with
      | outside =>
        have free : Free (⟨freeop false, client.results, client.cancel, .running .outside, calls + 1,
          acts, .began (calls + 1) client L :: log⟩ : Operation.State V W) .outside :=
            ⟨rfl, fun h => by cases h⟩
        exact .inl ⟨_, startop_starts free same⟩
      | incoreq => simp [away] at h
      | incohdl => simp [away] at h
    | completedRequest =>
      have free : Free (⟨freeop true, client.results, client.cancel, .running .incoreq, calls + 1,
        acts, .began (calls + 1) client L :: log⟩ : Operation.State V W) .incoreq :=
          ⟨rfl, fun h => by cases h⟩
      exact .inl ⟨_, startop_starts free same⟩
    | canceledRequest c act h =>
      cases context with
      | incohdl => simp [away] at h
      | _ =>
        cases same
        exact .inr ⟨rfl, rfl, fun _ => ⟨rfl, rfl⟩, rfl⟩
    | completedHandle type act =>
      cases target with
      | request =>
        cases type with
        | _ =>
          cases same
          exact .inr ⟨rfl, rfl, (fun h => by cases h), rfl⟩
      | handle given =>
        by_cases again : given.given = some type
        · obtain rfl : given = type := by
            cases given <;> simp [HandleType.given] at again <;> exact again
          have check : Op.checkreset ⟨⟨false, false, false, false⟩, .handle given false, true, 1,
              asyncs given, .handle act⟩ (.handle given) = (.sameop, ⟨⟨false, false, false, false⟩,
                .handle given false, true, 1, asyncs given, .handle act⟩) := by
            simp [Op.checkreset, Kind.isClosing, again]
          simp only [State.resetop, State.note, check] at same
          exact .inl ⟨_, startsame_starts rfl (fun timer => other (by rw [timer])) same⟩
        · have check : Op.checkreset ⟨⟨false, false, false, false⟩, .handle type false, true, 1,
              asyncs type, .handle act⟩ (.handle given) = (.waitop, ⟨⟨false, false, false, false⟩,
                .handle type true, true, 1, asyncs type - asyncs type, .closing act⟩) := by
            simp [Op.checkreset, Kind.isClosing, again, Op.closehdl, Uv.act]
          simp only [State.resetop, State.note, check] at same
          cases type with
          | _ =>
            cases same
            exact .inr ⟨rfl, rfl, (fun h => by cases h), rfl⟩
    | canceledHandle act h =>
      cases context with
      | outside =>
        cases same
        exact .inr ⟨rfl, rfl, (fun h => by cases h), rfl⟩
      | incoreq => simp [away] at h
      | incohdl => simp [away] at h
    | closingHandle type act h =>
      cases context with
      | _ =>
        cases type with
        | _ =>
          cases same
          exact .inr ⟨rfl, rfl, (fun h => by cases h), rfl⟩

/-- Nothing starts. -/
structure Goes (o v : Operation.State V W) : Prop where
  shut : Op.opentimer v.op = false
  away : ∀ L, v.place ≠ .endop L
  kept : ∀ target setup L, v.place = .resetop target setup L → o.place = v.place
  cleanup : v.op.flags.request = true → v.op.flags.cleanup = false
  cancel : v.cancel = o.cancel

/-- The coroutine waits to start an operation once this one ended. -/
def ends (o : Operation.State V W) : Operation.Act V W → Bool
  | .requestcb _ _ | .closecb _ =>
    match o.place with
    | .resetop _ _ _ => true
    | _ => false
  | _ => false

theorem goes_away (shut : Op.opentimer v.op = false) (free : away [] v.place)
    (cleanup : v.op.flags.request = true → v.op.flags.cleanup = false) (cancel : v.cancel = o.cancel) :
    Goes o v where
  shut := shut
  away L place := by rw [place] at free; exact free
  kept target setup L place := by rw [place] at free; exact free.elim
  cleanup := cleanup
  cancel := cancel

theorem leave_goes {context : Context} (place : Place V W) (inv : Inv o) (clean : Clean o)
    (here : o.place = .running context) (free : ∀ cs, OperationStates.away cs place)
    (left : o.leave context place = .ok v) : Goes o v := by
  have cleanup := clean.cleanup
  obtain ⟨op, results, cancel, place', calls, acts, log⟩ := o
  obtain rfl : place' = .running context := here
  cases inv with
  | freed h =>
    cases context with
    | outside =>
      cases left
      exact goes_away rfl (free _) (fun _ => rfl) rfl
    | incoreq => simp [away] at h
    | incohdl => simp [away] at h
  | completedRequest =>
    cases left
    exact goes_away rfl (free _) (fun _ => rfl) rfl
  | canceledRequest c act h =>
    obtain rfl : c = false := cleanup rfl
    cases context with
    | incohdl => simp [away] at h
    | _ =>
      cases left
      exact goes_away rfl (free _) (fun _ => rfl) rfl
  | completedHandle type act =>
    cases type with
    | _ =>
      cases left
      exact goes_away rfl (free _) (fun h => by cases h) rfl
  | canceledHandle act h =>
    cases context with
    | outside =>
      cases left
      exact goes_away rfl (free _) (fun h => by cases h) rfl
    | incoreq => simp [away] at h
    | incohdl => simp [away] at h
  | closingHandle type act h =>
    cases context with
    | _ =>
      cases type with
      | _ =>
        cases left
        exact goes_away rfl (free _) (fun h => by cases h) rfl

theorem endop_goes {stack values : List V} (inv : Inv o) (clean : Clean o)
    (hp : o.place = .endop stack)
    (same : (o.note (.resumed values)).k_endophalted w stack values = .ok v) : Goes o v := by
  have request := clean.request
  obtain ⟨op, results, cancel, place, calls, acts, log⟩ := o
  obtain rfl : place = _ := hp
  cases inv with
  | awaitingRequest act _ =>
    obtain rfl : cancel = none := request rfl _ rfl
    cases same
    exact goes_away rfl (fun h => by cases h) (fun _ => rfl) rfl
  | awaitingHandle type act _ h =>
    cases cancel with
    | none =>
      cases type with
      | _ =>
        cases same
        exact goes_away rfl (fun h => by cases h) (fun h => by cases h) rfl
    | some cancel =>
      obtain rfl : type = .async := by simpa [allowed] using h
      cases answer : cancel w (stack ++ values) with
      | true =>
        simp only [State.k_endophalted, State.note, answer] at same
        cases same
        exact goes_away rfl (fun h => by cases h) (fun h => by cases h) rfl
      | false =>
        simp only [State.k_endophalted, State.note, answer] at same
        cases same
        exact goes_away rfl (fun h => by cases h) (fun h => by cases h) rfl
  | freed h => exact h.elim
  | canceledRequest c act h => exact h.elim
  | canceledHandle act h => exact h.elim
  | closingHandle type act h => exact h.elim

theorem resetop_goes {target : Target} {setup : W → Bool → List V → Setup V}
    {stack values : List V} (inv : Inv o) (clean : Clean o)
    (hp : o.place = .resetop target setup stack)
    (same : (o.note (.resumed values)).k_resetopkhalted values = .ok v) : Goes o v := by
  have cleanup := clean.cleanup
  obtain ⟨op, results, cancel, place, calls, acts, log⟩ := o
  obtain rfl : place = _ := hp
  cases inv with
  | resetingRequest c act target setup stack h =>
    cases same
    exact goes_away rfl (fun h => by cases h) (fun _ => cleanup rfl) rfl
  | resetingCanceledHandle act target setup stack h =>
    cases same
    exact goes_away rfl (fun h => by cases h) (fun h => by cases h) rfl
  | resetingClosedHandle type act target setup stack h =>
    cases type with
    | _ =>
      cases same
      exact goes_away rfl (fun h => by cases h) (fun h => by cases h) rfl
  | freed h => exact h.elim
  | canceledRequest c act h => exact h.elim
  | canceledHandle act h => exact h.elim
  | closingHandle type act h => exact h.elim

theorem requestcb_goes {act : ℕ} {values : List V} (inv : Inv o) (clean : Clean o)
    (unended : ends o (.requestcb w values) = false) (huv : o.op.uv = .request act)
    (hl : o.place.loops = true) (same : o.requestcb w act values = .ok v) : Goes o v := by
  have cleanup := clean.cleanup
  obtain ⟨op, results, cancel, place, calls, acts, log⟩ := o
  cases inv with
  | awaitingRequest act stack =>
    cases same
    exact goes_away rfl (fun h => by cases h) (fun _ => rfl) rfl
  | canceledRequest c act h =>
    obtain rfl : c = false := cleanup rfl
    cases same
    exact goes_away rfl (away_weaken (away_outside h hl) (List.nil_subset _)) (fun _ => rfl) rfl
  | resetingRequest c act target setup stack h => cases unended
  | _ => cases huv

theorem handlecb_goes {type : HandleType} {closing : Bool} {act : ℕ} {values : List V}
    (inv : Inv o) (untimed : Op.opentimer o.op = false) (huv : o.op.uv = .handle act)
    (hk : o.op.kind = .handle type closing) (hl : o.place.loops = true)
    (same : o.handlecb w type act values = .ok v) : Goes o v := by
  obtain ⟨op, results, cancel, place, calls, acts, log⟩ := o
  cases inv with
  | awaitingHandle type act stack h =>
    cases type with
    | timer => cases untimed
    | _ =>
      cases hk
      cases same
      exact goes_away rfl (fun h => by cases h) (fun h => by cases h) rfl
  | canceledHandle act h =>
    cases hk
    cases same
    exact goes_away rfl (away_weaken h (List.nil_subset _)) (fun h => by cases h) rfl
  | resetingCanceledHandle act target setup stack h =>
    cases hk
    cases same
    -- the handle is closed, and the coroutine waits on
    exact ⟨rfl, (fun _ h => by cases h), fun _ _ _ place => by cases place; rfl,
      (fun h => by cases h), rfl⟩
  | completedHandle type act => cases hl
  | _ => cases huv

theorem closecb_goes {act : ℕ} (inv : Inv o) (unended : ends o (.closecb w) = false)
    (huv : o.op.uv = .closing act) (hl : o.place.loops = true)
    (same : o.closecb w act = .ok v) : Goes o v := by
  obtain ⟨op, results, cancel, place, calls, acts, log⟩ := o
  cases inv with
  | closingHandle type act h =>
    cases same
    exact goes_away rfl (away_weaken (away_outside h hl) (List.nil_subset _)) (fun _ => rfl) rfl
  | resetingClosedHandle type act target setup stack h => cases unended
  | _ => cases huv

theorem goes {act : Operation.Act V W} (inv : Inv o) (clean : Clean o)
    (uncalled : ∀ target client w L, act ≠ .call target client w L) (unended : ends o act = false)
    (untimed : ∀ w values, act = .handlecb w values → Op.opentimer o.op = false)
    (moved : Operation.next o act = some v) : Goes o v := by
  obtain ⟨r, step, same⟩ := next_cases moved
  cases step with
  | call hp ha => exact absurd rfl (uncalled _ _ _ _)
  | yield hp => exact leave_goes .yielded inv clean hp (fun _ => trivial) same
  | finish hp => exact leave_goes .dead inv clean hp (fun _ => trivial) same
  | resume hp =>
    cases same
    have shut : Op.opentimer o.op = false := by
      by_contra opened
      rcases opened_place inv (by simpa using opened) with ⟨L, here⟩ | here
      · rw [hp] at here
        cases here
      · rw [hp] at here
        cases here
    exact goes_away shut (fun h => by cases h) clean.cleanup rfl
  | endop hp => exact endop_goes inv clean hp same
  | resetop hp => exact resetop_goes inv clean hp same
  | requestcb huv hl => exact requestcb_goes inv clean unended huv hl same
  | handlecb huv hk hl => exact handlecb_goes inv (untimed _ _ rfl) huv hk hl same
  | closecb huv hl => exact closecb_goes inv unended huv hl same

theorem timercb_moves (inv : Inv o) (opened : Op.opentimer o.op = true)
    (moved : Operation.next o (.handlecb w []) = some v) :
    (∃ L, o.place = .endop L) ∧ v.place = .running .incohdl ∧ v.op.flags.request = false := by
  obtain ⟨r, step, same⟩ := next_cases moved
  cases step with
  | handlecb huv hk hl =>
    obtain ⟨op, results, cancel, place, calls, acts, log⟩ := o
    cases inv with
    | awaitingHandle type act stack h =>
      cases type with
      | timer =>
        cases hk
        cases same
        exact ⟨⟨stack, rfl⟩, rfl, rfl⟩
      | _ => cases opened
    | canceledHandle act h => cases opened
    | resetingCanceledHandle act target setup stack h => cases opened
    | completedHandle type act => cases hl
    | _ => cases huv

theorem opened_uv (inv : Inv o) (opened : Op.opentimer o.op = true) :
    ∃ act, o.op.uv = .handle act := by
  obtain ⟨op, results, cancel, place, calls, acts, log⟩ := o
  cases inv with
  | awaitingHandle type act stack h => exact ⟨act, rfl⟩
  | completedHandle type act => exact ⟨act, rfl⟩
  | _ => simp [Op.opentimer] at opened

theorem timercb_enabled (inv : Inv o) (opened : Op.opentimer o.op = true)
    (place : o.place = .endop L) (w : W) :
    ∃ v, Operation.next o (.handlecb w []) = some v ∧ v.place = .running .incohdl := by
  obtain ⟨op, results, cancel, place', calls, acts, log⟩ := o
  obtain rfl : place' = _ := place
  cases inv with
  | awaitingHandle type act stack h =>
    cases type with
    | timer => exact ⟨_, rfl, rfl⟩
    | _ => cases opened
  | awaitingRequest act stack => cases opened
  | freed h => exact h.elim
  | canceledRequest c act h => exact h.elim
  | canceledHandle act h => exact h.elim
  | closingHandle type act h => exact h.elim

/-- Only a resume or the callback of the timer ends its wait. -/
theorem waiting_moves {act : Operation.Act V W} (inv : Inv o) (opened : Op.opentimer o.op = true)
    (place : o.place = .endop L) (moved : Operation.next o act = some v) :
    (∃ w values, act = .resume w values) ∨ ∃ w values, act = .handlecb w values := by
  obtain ⟨r, step, same⟩ := next_cases moved
  cases step with
  | call hp ha =>
    rw [place] at hp
    cases hp
  | yield hp =>
    rw [place] at hp
    cases hp
  | finish hp =>
    rw [place] at hp
    cases hp
  | resume hp => exact .inl ⟨_, _, rfl⟩
  | endop hp => exact .inl ⟨_, _, rfl⟩
  | resetop hp => exact .inl ⟨_, _, rfl⟩
  | handlecb huv hk hl => exact .inr ⟨_, _, rfl⟩
  | requestcb huv hl =>
    obtain ⟨act, armed⟩ := opened_uv inv opened
    rw [armed] at huv
    cases huv
  | closecb huv hl =>
    obtain ⟨act, armed⟩ := opened_uv inv opened
    rw [armed] at huv
    cases huv

/-! The cancel functions. -/

theorem starts_clean {target : Target} {cancel : Option (W → List V → Bool)} {outcome : Setup V}
    (starts : Starts target cancel outcome v) (async : cancel.isSome → target = .handle .async) :
    Clean v where
  cleanup _ := starts.cleanup
  request made L place := by
    have request := starts.request made ⟨L, place⟩
    rw [starts.cancel]
    cases cancel with
    | none => rfl
    | some cancel =>
      rw [async rfl] at request
      cases request
  reset setup L place := by
    rcases starts.place with ⟨context, here⟩ | ⟨M, here⟩
    · rw [here] at place
      cases place
    · rw [here] at place
      cases place

theorem resets_clean {target : Target} {cancel : Option (W → List V → Bool)}
    {setup : W → Bool → List V → Setup V} (clean : Clean o) (resets : Resets target cancel setup L o v)
    (async : cancel.isSome → target = .handle .async) : Clean v where
  cleanup made := by
    obtain ⟨before, same⟩ := resets.cleanup made
    rw [same, clean.cleanup before]
  request _ M place := by
    rw [resets.place] at place
    cases place
  reset setup' M place := by
    rw [resets.place] at place
    cases place
    rw [resets.cancel]
    cases cancel with
    | none => rfl
    | some cancel => cases async rfl

theorem goes_clean (clean : Clean o) (goes : Goes o v) : Clean v where
  cleanup := goes.cleanup
  request _ L place := absurd place (goes.away L)
  reset setup L place := by
    rw [goes.cancel]
    exact clean.reset setup L ((goes.kept _ _ _ place).trans place)

theorem reset_async {target : Target} {setup : W → Bool → List V → Setup V} (inv : Inv o)
    (clean : Clean o) (place : o.place = .resetop target setup L) :
    o.cancel.isSome → target = .handle .async := by
  have reset := clean.reset
  have permitted : allowed target o.cancel = true := by
    obtain ⟨op, results, cancel, place', calls, acts, log⟩ := o
    obtain rfl : place' = _ := place
    cases inv with
    | resetingRequest c act target setup stack h => exact h
    | resetingCanceledHandle act target setup stack h => exact h
    | resetingClosedHandle type act target setup stack h => exact h
    | freed h => exact h.elim
    | canceledRequest c act h => exact h.elim
    | canceledHandle act h => exact h.elim
    | closingHandle type act h => exact h.elim
  intro given
  cases target with
  | request =>
    rw [reset setup L place] at given
    cases given
  | handle type =>
    have either : type = .async ∨ o.cancel.isNone = true := by simpa [allowed] using permitted
    rcases either with rfl | none
    · rfl
    · rw [Option.isNone_iff_eq_none.mp none] at given
      cases given

end

end Coutil.SuspendMoves
