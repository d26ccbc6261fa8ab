import Coutil.SuspendMoves

set_option autoImplicit false

/-! When the timer of `system.suspend` is due. -/
namespace Coutil.SuspendDue
open Operation OperationStates SuspendTimer SuspendMoves Runs

section
variable {V W : Type} {lua : Lua V} {s u : SuspendTimer.State V W}

/-- The timer of a call is due its milliseconds after it was started, and the one that runs since
its callback, if any, its period after this. -/
structure Waits (lua : Lua V) (s : SuspendTimer.State V W) : Prop where
  op : Inv s.op
  clean : Clean s.op
  ended : ∀ L, s.op.place = .endop L → s.call.isSome = true → Op.opentimer s.op.op = true
  reset : ∀ target setup L, s.op.place = .resetop target setup L →
    (s.call = none ∧ target ≠ .handle .timer) ∨
    (target = .handle .timer ∧ setup = (suspender lua).setup ∧
      ∃ c, s.call = some c ∧ c.msecs = msecs lua L ∧ c.called ≤ s.now)
  timed : Op.opentimer s.op.op = true → ∀ L, s.op.place = .endop L →
    ∃ c, s.call = some c ∧ c.called ≤ s.started ∧ s.started ≤ s.now ∧
      s.timer = ⟨some (s.started + c.msecs), c.msecs⟩
  again : Op.opentimer s.op.op = true → s.op.place = .running .incohdl →
    s.fired ≤ s.now ∧
      s.timer.timeout = if s.timer.period = 0 then none else some (s.fired + s.timer.period)

/-- The timer is used again without being started only with a period, and at the time when its
callback was called. -/
def Again (lua : Lua V) (s : SuspendTimer.State V W) : SuspendTimer.Act V W → Prop
  | .suspend _ L =>
    (s.op.op.checkreset (.handle .timer)).1 = .sameop → s.timer.period = msecs lua L →
      0 < msecs lua L ∧ s.now = s.fired
  | _ => True

/-- And no other operation has to end before the timer can be started. -/
def Prompt (lua : Lua V) (s : SuspendTimer.State V W) (act : SuspendTimer.Act V W) : Prop :=
  Again lua s act ∧ match act with
    | .suspend _ _ => (s.op.op.checkreset (.handle .timer)).1 ≠ .waitop
    | _ => True

theorem waits_init (lua : Lua V) : Waits lua (SuspendTimer.init : SuspendTimer.State V W) where
  op := init_valid
  clean := ⟨fun _ => rfl, nofun, nofun⟩
  ended := nofun
  reset := nofun
  timed := nofun
  again := nofun

theorem waits_advance {now : ℕ} (waits : Waits lua s) (later : s.now ≤ now) :
    Waits lua { s with now := now } where
  op := waits.op
  clean := waits.clean
  ended := waits.ended
  reset target setup L place := by
    refine (waits.reset target setup L place).imp id ?_
    rintro ⟨timer, same, c, call, msecs, called⟩
    exact ⟨timer, same, c, call, msecs, Nat.le_trans called later⟩
  timed opened L place := by
    obtain ⟨c, call, called, started, timer⟩ := waits.timed opened L place
    exact ⟨c, call, called, Nat.le_trans started later, timer⟩
  again opened place := by
    obtain ⟨fired, timeout⟩ := waits.again opened place
    exact ⟨Nat.le_trans fired later, timeout⟩

/-- The timer was started now. -/
theorem waits_started {op : Operation.State V W} {L : List V} {called now msecs fired : ℕ}
    {cancel : Option (W → List V → Bool)} (inv : Inv op) (clean : Clean op)
    (starts : Starts (.handle .timer) cancel (.armed L) op) (before : called ≤ now) :
    Waits lua ⟨op, ⟨some (now + msecs), msecs⟩, now, some ⟨called, msecs⟩, now, fired⟩ where
  op := inv
  clean := clean
  ended _ _ _ := (starts.armed L rfl).2 rfl
  reset target setup M place := by
    rw [(starts.armed L rfl).1] at place
    cases place
  timed _ M _ := ⟨⟨called, msecs⟩, rfl, before, Nat.le_refl _, rfl⟩
  again _ place := by
    rw [(starts.armed L rfl).1] at place
    cases place

/-- There is no open timer, and no call of `system.suspend`. -/
theorem waits_none {call : Option Call} {now started fired : ℕ} {timer : Timer}
    {op : Operation.State V W} (inv : Inv op) (clean : Clean op) (shut : Op.opentimer op.op = false)
    (ended : ∀ L, op.place = .endop L → call = none)
    (reset : ∀ target setup L, op.place = .resetop target setup L →
      (call = none ∧ target ≠ .handle .timer) ∨
      (target = .handle .timer ∧ setup = (suspender lua).setup ∧
        ∃ c, call = some c ∧ c.msecs = msecs lua L ∧ c.called ≤ now)) :
    Waits lua ⟨op, timer, now, call, started, fired⟩ where
  op := inv
  clean := clean
  ended L place made := by
    rw [ended L place] at made
    cases made
  reset := reset
  timed opened := absurd opened (by rw [shut]; exact Bool.false_ne_true)
  again opened := absurd opened (by rw [shut]; exact Bool.false_ne_true)

theorem inv_next {op : Operation.State V W} {act : Operation.Act V W} (inv : Inv s.op)
    (clean : Clean s.op) (moved : Operation.next s.op act = some op) : Inv op :=
  next_valid inv (clean_harmless inv clean moved) moved

theorem waits_suspend {w : W} {L : List V} (waits : Waits lua s) (again : Again lua s (.suspend w L))
    (stepped : suspend lua s w L = some u) : Waits lua u := by
  unfold suspend at stepped
  split_ifs at stepped with range
  obtain ⟨op, moved, rfl⟩ := Option.map_eq_some_iff.mp stepped
  have inv := inv_next waits.op waits.clean moved
  rcases suspend_moves waits.op moved with ⟨status, starts⟩ | ⟨status, opened, place, starts⟩ |
    ⟨status, resets⟩
  · simp only [status]
    exact waits_started inv (starts_clean starts nofun) starts (Nat.le_refl s.now)
  · simp only [status]
    have clean := starts_clean starts nofun
    have restarted : k_setuptimer lua false s.now L s.timer =
        ⟨some (s.now + msecs lua L), msecs lua L⟩ := by
      unfold k_setuptimer
      simp only [Bool.false_eq_true, if_false]
      split_ifs with differs
      · rfl
      · have same : s.timer.period = msecs lua L := not_not.mp differs
        obtain ⟨positive, now⟩ := again status same
        obtain ⟨-, timeout⟩ := waits.again opened place
        rw [if_neg (by omega)] at timeout
        have timer : s.timer = ⟨s.timer.timeout, s.timer.period⟩ := rfl
        rw [timer, timeout, same, now]
    rw [restarted]
    exact waits_started inv clean starts (Nat.le_refl s.now)
  · simp only [status]
    refine waits_none inv (resets_clean waits.clean resets nofun) resets.shut ?_ ?_
    · intro M place
      rw [resets.place] at place
      cases place
    · intro target setup M place
      rw [resets.place] at place
      cases place
      exact .inr ⟨rfl, rfl, _, rfl, rfl, Nat.le_refl _⟩

theorem waits_timercb {w : W} (waits : Waits lua s) (stepped : timercb s w = some u) :
    Waits lua u := by
  unfold timercb at stepped
  split at stepped
  · rename_i due active
    split_ifs at stepped with fires
    obtain ⟨op, moved, rfl⟩ := Option.map_eq_some_iff.mp stepped
    have inv := inv_next waits.op waits.clean moved
    obtain ⟨-, place, request⟩ := timercb_moves waits.op fires.1 moved
    refine ⟨inv, ⟨?_, ?_, ?_⟩, ?_, ?_, ?_, ?_⟩
    · intro made
      rw [request] at made
      cases made
    · intro made
      rw [request] at made
      cases made
    · intro setup L here
      rw [place] at here
      cases here
    · intro L here
      rw [place] at here
      cases here
    · intro target setup L here
      rw [place] at here
      cases here
    · intro _ L here
      rw [place] at here
      cases here
    · intro _ _
      refine ⟨Nat.le_refl _, ?_⟩
      simp only [uv_timer_again]
      split_ifs with repeats none <;> simp_all [uv_timer_start, uv_timer_stop]
  · cases stepped

theorem others_call {target : Target} {client : Client V W} {w : W} {L : List V}
    (permitted : others s (.call target client w L) = true) :
    target ≠ .handle .timer ∧ (client.cancel.isSome → target = .handle .async) :=
  of_decide_eq_true permitted

theorem resets_some {act : Operation.Act V W} {setup : W → Bool → List V → Setup V} {L : List V}
    (place : s.op.place = .resetop (.handle .timer) setup L) (callback : ends s.op act = true) :
    SuspendTimer.resets s act = some L := by
  unfold SuspendTimer.resets
  rw [place]
  cases act with
  | requestcb w values => rfl
  | closecb w => rfl
  | _ => cases callback

theorem resets_none {act : Operation.Act V W}
    (other : ∀ setup L, s.op.place = .resetop (.handle .timer) setup L → ends s.op act = false) :
    SuspendTimer.resets s act = none := by
  unfold SuspendTimer.resets
  split
  · rename_i place
    have callback := other _ _ place
    rw [ends, place] at callback
    cases callback
  · rename_i place
    have callback := other _ _ place
    rw [ends, place] at callback
    cases callback
  · rfl

theorem ends_cases {o : Operation.State V W} {act : Operation.Act V W} (callback : ends o act = true) :
    (∃ target setup L, o.place = .resetop target setup L) ∧
      ((∃ w values, act = .requestcb w values) ∨ ∃ w, act = .closecb w) := by
  have waits : ∃ target setup L, o.place = .resetop target setup L := by
    unfold ends at callback
    cases place : o.place with
    | resetop target setup L => exact ⟨target, setup, L, rfl⟩
    | _ => cases act <;> simp [place] at callback
  cases act with
  | requestcb w values => exact ⟨waits, .inl ⟨w, values, rfl⟩⟩
  | closecb w => exact ⟨waits, .inr ⟨w, rfl⟩⟩
  | _ => cases callback

/-- An operation ended that another one waits for. -/
theorem waits_ends {act : Operation.Act V W} {op : Operation.State V W} (waits : Waits lua s)
    (callback : ends s.op act = true) (moved : Operation.next s.op act = some op) :
    (s.call = none ∧ SuspendTimer.resets s act = none ∧
      Waits lua ⟨op, closed op.op s.timer, s.now, s.call, s.started, s.fired⟩) ∨
    ∃ L, SuspendTimer.resets s act = some L ∧
      Waits lua ⟨op, k_setuptimer lua true s.now L s.timer, s.now, s.call, s.now, s.fired⟩ := by
  have inv := inv_next waits.op waits.clean moved
  obtain ⟨⟨target, setup, L, place⟩, which⟩ := ends_cases callback
  obtain ⟨w, starts⟩ := reset_moves waits.op waits.clean place which moved
  have clean := starts_clean starts (reset_async waits.op waits.clean place)
  rcases waits.reset target setup L place with ⟨none, other⟩ | ⟨rfl, rfl, c, call, ms, called⟩
  · left
    refine ⟨none, resets_none fun setup' L' here => ?_, ?_⟩
    · rw [place] at here
      cases here
      exact absurd rfl other
    · have shut : Op.opentimer op.op = false := by
        by_contra opened
        exact other (starts.opened (by simpa using opened))
      refine waits_none inv clean shut (fun _ _ => none) fun target' setup' M here => ?_
      rcases starts.place with ⟨context, there⟩ | ⟨N, there⟩
      · rw [there] at here
        cases here
      · rw [there] at here
        cases here
  · right
    refine ⟨L, resets_some place callback, ?_⟩
    obtain ⟨called', msecs'⟩ := c
    simp only at ms called
    rw [call]
    subst ms
    exact waits_started inv clean starts called

theorem waits_call {target : Target} {client : Client V W} {w : W} {L : List V} {timer : Timer}
    {op : Operation.State V W} (waits : Waits lua s)
    (permitted : others s (.call target client w L) = true)
    (moved : Operation.next s.op (.call target client w L) = some op) :
    Waits lua ⟨op, timer, s.now, none, s.started, s.fired⟩ := by
  have inv := inv_next waits.op waits.clean moved
  obtain ⟨other, async⟩ := others_call permitted
  rcases call_moves waits.op other moved with ⟨outcome, starts⟩ | resets
  · have shut : Op.opentimer op.op = false := by
      by_contra opened
      exact other (starts.opened (by simpa using opened))
    refine waits_none inv (starts_clean starts async) shut (fun _ _ => rfl) fun target' _ M here => ?_
    rcases starts.place with ⟨context, there⟩ | ⟨N, there⟩
    · rw [there] at here
      cases here
    · rw [there] at here
      cases here
  · refine waits_none inv (resets_clean waits.clean resets async) resets.shut (fun _ _ => rfl) ?_
    intro target' setup M here
    rw [resets.place] at here
    cases here
    exact .inl ⟨rfl, other⟩

theorem waits_goes {op : Operation.State V W} {timer : Timer} (waits : Waits lua s)
    (inv : Inv op) (goes : Goes s.op op) :
    Waits lua ⟨op, timer, s.now, s.call, s.started, s.fired⟩ := by
  refine waits_none inv (goes_clean waits.clean goes) goes.shut
    (fun L here => absurd here (goes.away L)) fun target setup L here => ?_
  exact waits.reset target setup L ((goes.kept target setup L here).trans here)

theorem waits_other {act : Operation.Act V W} (waits : Waits lua s)
    (stepped : other lua s act = some u) : Waits lua u := by
  unfold other at stepped
  split_ifs at stepped with permitted
  obtain ⟨op, moved, rfl⟩ := Option.map_eq_some_iff.mp stepped
  have inv := inv_next waits.op waits.clean moved
  by_cases callback : ends s.op act = true
  · have called : ∀ target client w L, act ≠ .call target client w L := by
      intro target client w L same
      rw [same] at callback
      cases callback
    rcases waits_ends waits callback moved with ⟨none, reset, kept⟩ | ⟨L, reset, kept⟩
    · rw [reset]
      cases act with
      | call target client w L => exact absurd rfl (called _ _ _ _)
      | _ => exact kept
    · rw [reset]
      cases act with
      | call target client w L => exact absurd rfl (called _ _ _ _)
      | _ => exact kept
  · have unended : ends s.op act = false := by simpa using callback
    have reset : SuspendTimer.resets s act = none := resets_none fun _ _ _ => unended
    rw [reset]
    have goes (uncalled : ∀ target client w L, act ≠ .call target client w L) : Goes s.op op := by
      refine goes waits.op waits.clean uncalled unended (fun w values same => ?_) moved
      subst same
      simpa [others] using permitted
    cases act with
    | call target client w L => exact waits_call waits permitted moved
    | _ => exact waits_goes waits inv (goes fun _ _ _ _ same => by cases same)

theorem waits_next {act : SuspendTimer.Act V W} (waits : Waits lua s) (again : Again lua s act)
    (stepped : SuspendTimer.next lua s act = some u) : Waits lua u := by
  cases act with
  | advance now =>
    simp only [SuspendTimer.next] at stepped
    split_ifs at stepped with later
    cases stepped
    exact waits_advance waits later
  | suspend w L => exact waits_suspend waits again stepped
  | timercb w => exact waits_timercb waits stepped
  | other act => exact waits_other waits stepped

/-- The last call did not wait for another operation. -/
structure Direct (s : SuspendTimer.State V W) : Prop where
  started : ∀ c L, s.call = some c → s.op.place = .endop L → s.started = c.called
  unwaited : ∀ c target setup L, s.call = some c → s.op.place ≠ .resetop target setup L

theorem direct_uncalled (uncalled : s.call = none) : Direct s where
  started c L call := by
    rw [uncalled] at call
    cases call
  unwaited c target setup L call := by
    rw [uncalled] at call
    cases call

theorem direct_suspend {w : W} {L : List V} (waits : Waits lua s)
    (prompt : Prompt lua s (.suspend w L)) (stepped : suspend lua s w L = some u) : Direct u := by
  unfold suspend at stepped
  split_ifs at stepped with range
  obtain ⟨op, moved, rfl⟩ := Option.map_eq_some_iff.mp stepped
  have armed (starts : Starts (.handle .timer) none (.armed L) op) : op.place = .endop L :=
    (starts.armed L rfl).1
  rcases suspend_moves waits.op moved with ⟨status, starts⟩ | ⟨status, -, -, starts⟩ | ⟨status, -⟩
  · simp only [status]
    refine ⟨fun c M call _ => by cases call; rfl, fun c target setup M _ here => ?_⟩
    simp only [armed starts] at here
    cases here
  · simp only [status]
    refine ⟨fun c M call _ => by cases call; rfl, fun c target setup M _ here => ?_⟩
    simp only [armed starts] at here
    cases here
  · exact absurd status prompt.2

theorem direct_timercb {w : W} (waits : Waits lua s) (stepped : timercb s w = some u) : Direct u := by
  unfold timercb at stepped
  split at stepped
  · split_ifs at stepped with fires
    obtain ⟨op, moved, rfl⟩ := Option.map_eq_some_iff.mp stepped
    obtain ⟨-, place, -⟩ := timercb_moves waits.op fires.1 moved
    refine ⟨fun c L _ here => ?_, fun c target setup L _ here => ?_⟩
    · simp only [place] at here
      cases here
    · simp only [place] at here
      cases here
  · cases stepped

theorem direct_other {act : Operation.Act V W} (waits : Waits lua s) (direct : Direct s)
    (stepped : other lua s act = some u) : Direct u := by
  unfold other at stepped
  split_ifs at stepped with permitted
  obtain ⟨op, moved, rfl⟩ := Option.map_eq_some_iff.mp stepped
  by_cases callback : ends s.op act = true
  · obtain ⟨⟨target, setup, L, place⟩, which⟩ := ends_cases callback
    have uncalled : s.call = none := by
      cases call : s.call with
      | none => rfl
      | some c => exact absurd place (direct.unwaited c target setup L call)
    rcases which with ⟨w, values, rfl⟩ | ⟨w, rfl⟩
    · cases SuspendTimer.resets s (.requestcb w values) with
      | none => exact direct_uncalled uncalled
      | some M => exact direct_uncalled uncalled
    · cases SuspendTimer.resets s (.closecb w) with
      | none => exact direct_uncalled uncalled
      | some M => exact direct_uncalled uncalled
  · have unended : ends s.op act = false := by simpa using callback
    have reset : SuspendTimer.resets s act = none := resets_none fun _ _ _ => unended
    rw [reset]
    have goes (uncalled : ∀ target client w L, act ≠ .call target client w L) : Goes s.op op := by
      refine goes waits.op waits.clean uncalled unended (fun w values same => ?_) moved
      subst same
      simpa [others] using permitted
    have keeps (goes : Goes s.op op) : Direct ⟨op, closed op.op s.timer, s.now, s.call, s.started,
        s.fired⟩ :=
      ⟨fun c L _ here => absurd here (goes.away L), fun c target setup L call here =>
        direct.unwaited c target setup L call ((goes.kept target setup L here).trans here)⟩
    cases act with
    | call target client w L => exact ⟨nofun, nofun⟩
    | _ => exact keeps (goes fun _ _ _ _ same => by cases same)

theorem direct_next {act : SuspendTimer.Act V W} (waits : Waits lua s) (direct : Direct s)
    (prompt : Prompt lua s act) (stepped : SuspendTimer.next lua s act = some u) : Direct u := by
  cases act with
  | advance now =>
    simp only [SuspendTimer.next] at stepped
    split_ifs at stepped with later
    cases stepped
    exact ⟨direct.started, direct.unwaited⟩
  | suspend w L => exact direct_suspend waits prompt stepped
  | timercb w => exact direct_timercb waits stepped
  | other act => exact direct_other waits direct stepped

/-- The coroutine is resumed by its timer as soon as the loop gets to the time, and not before. -/
structure Due (lua : Lua V) (s : SuspendTimer.State V W) (due : ℕ) : Prop where
  active : s.timer.timeout = some due
  resumed : ∀ now w, due ≤ now → s.now ≤ now → ∃ u v, SuspendTimer.next lua s (.advance now) = some u ∧
    SuspendTimer.next lua u (.timercb w) = some v ∧ v.op.place = .running .incohdl
  early : ∀ act u, SuspendTimer.next lua s act = some u → u.op.place ≠ s.op.place →
    (∃ w values, act = .other (.resume w values)) ∨ ∃ w, act = .timercb w ∧ due ≤ s.now

theorem waits_due {L : List V} {c : Call} (waits : Waits lua s) (call : s.call = some c)
    (place : s.op.place = .endop L) :
    c.called ≤ s.started ∧ s.started ≤ s.now ∧ Due lua s (s.started + c.msecs) := by
  have opened := waits.ended L place (by rw [call]; rfl)
  obtain ⟨c', call', called, started, timer⟩ := waits.timed opened L place
  obtain rfl : c = c' := Option.some.inj (call.symm.trans call')
  refine ⟨called, started, by rw [timer], fun now w due later => ?_, fun act u stepped moved => ?_⟩
  · obtain ⟨v, fires, running⟩ := timercb_enabled waits.op opened place w
    have fire : timercb { s with now := now } w = some
        { s with
          op := v
          timer := uv_timer_again now (uv_timer_stop s.timer)
          now := now
          fired := now } := by
      simp only [timercb, timer]
      rw [if_pos ⟨opened, due⟩, fires]
      rfl
    exact ⟨{ s with now := now }, _, if_pos later, fire, running⟩
  · cases act with
    | advance now =>
      simp only [SuspendTimer.next] at stepped
      split_ifs at stepped
      cases stepped
      exact absurd rfl moved
    | suspend w M =>
      simp only [SuspendTimer.next, suspend] at stepped
      split_ifs at stepped
      obtain ⟨op, called, -⟩ := Option.map_eq_some_iff.mp stepped
      obtain ⟨w, values, same⟩ | ⟨w, values, same⟩ := waiting_moves waits.op opened place called
      · cases same
      · cases same
    | timercb w =>
      simp only [SuspendTimer.next, timercb, timer] at stepped
      split_ifs at stepped with fires
      exact .inr ⟨w, rfl, fires.2⟩
    | other act =>
      simp only [SuspendTimer.next, other] at stepped
      split_ifs at stepped with permitted
      obtain ⟨op, called, -⟩ := Option.map_eq_some_iff.mp stepped
      obtain ⟨w, values, rfl⟩ | ⟨w, values, rfl⟩ := waiting_moves waits.op opened place called
      · exact .inl ⟨w, values, rfl⟩
      · simp [others, opened] at permitted

/-- A coroutine that waits in `system.suspend` is resumed when its milliseconds passed since the
call, if no call waited for another operation and no timer was used again too late. Where calls
waited, the milliseconds count from the start of the timer. -/
theorem suspend_due {acts : List (SuspendTimer.Act V W)} {L : List V} {c : Call}
    (ran : run (SuspendTimer.next lua) SuspendTimer.init acts = some s)
    (call : s.call = some c) :
    (Along (SuspendTimer.next lua) (Prompt lua) SuspendTimer.init acts →
      (s.op.place = .endop L → Due lua s (c.called + c.msecs)) ∧
      ∀ target setup, s.op.place ≠ .resetop target setup L) ∧
    (Along (SuspendTimer.next lua) (Again lua) SuspendTimer.init acts → s.op.place = .endop L →
      ∃ started, c.called ≤ started ∧ started ≤ s.now ∧ Due lua s (started + c.msecs)) := by
  have reach (along : Along (SuspendTimer.next lua) (Again lua) SuspendTimer.init acts) :
      Waits lua s :=
    run_invariant_along (Waits lua) (Again lua) (fun _ _ _ waits again => waits_next waits again)
      (waits_init lua) along ran
  constructor
  · intro along
    have both : Waits lua s ∧ Direct s :=
      run_invariant_along (fun s => Waits lua s ∧ Direct s) (Prompt lua)
        (fun _ _ _ both prompt stepped =>
          ⟨waits_next both.1 prompt.1 stepped, direct_next both.1 both.2 prompt stepped⟩)
        ⟨waits_init lua, nofun, nofun⟩ along ran
    obtain ⟨waits, direct⟩ := both
    refine ⟨fun place => ?_, fun target setup => direct.unwaited c target setup L call⟩
    have due := (waits_due waits call place).2.2
    rw [direct.started c L call place] at due
    exact due
  · intro along place
    exact ⟨s.started, waits_due (reach along) call place⟩

/-- Numbers only. -/
def numbers : Lua ℚ := ⟨id, fun b => if b then 1 else 0⟩

/-- The coroutine waits in a call of `system.suspend`, and its timer is due at another time, or
never. -/
def misses (s : SuspendTimer.State V W) : Bool :=
  match s.call, s.op.place with
  | some c, .endop _ => s.timer.timeout ≠ some (c.called + c.msecs)
  | some c, .resetop _ _ _ => s.timer.timeout ≠ some (c.called + c.msecs)
  | _, _ => false

def twice : List (SuspendTimer.Act ℚ Unit) :=
  [.other (.resume () []), .suspend () [1 / 2], .advance 500, .timercb (), .suspend () [1 / 4]]

instance (s : SuspendTimer.State V W) : ∀ act, Decidable (Prompt lua s act)
  | .advance _ | .timercb _ | .other _ => isTrue ⟨trivial, trivial⟩
  | .suspend _ _ => inferInstanceAs (Decidable ((_ → _ → _ ∧ _) ∧ _ ≠ _))

/-- The milliseconds that the coroutine waits for, and the stack that it left. -/
def waited (s : SuspendTimer.State ℚ Unit) : Option (Call × List ℚ) :=
  match s.call, s.op.place with
  | some c, .endop L => some (c, L)
  | _, _ => none

theorem suspend_due_twice :
    ∃ s c, run (SuspendTimer.next numbers) SuspendTimer.init twice = some s ∧ s.call = some c ∧
      c.called = 500 ∧ c.msecs = 250 ∧ s.op.place = .endop [1 / 4] ∧ Due numbers s 750 := by
  have ends : ((run (SuspendTimer.next numbers) SuspendTimer.init twice).bind waited).map
      (fun p => (p.1.called, p.1.msecs, p.2)) = some (500, 250, [1 / 4]) := by decide +kernel
  obtain ⟨⟨c, L⟩, waits, same⟩ := Option.map_eq_some_iff.mp ends
  obtain ⟨s, ran, waits⟩ := Option.bind_eq_some_iff.mp waits
  obtain ⟨called, msecs, rfl⟩ : c.called = 500 ∧ c.msecs = 250 ∧ L = [1 / 4] := by simpa using same
  obtain ⟨call, place⟩ : s.call = some c ∧ s.op.place = .endop [1 / 4] := by
    unfold waited at waits
    split at waits
    · cases waits
      exact ⟨‹_›, ‹_›⟩
    · cases waits
  have due := ((suspend_due ran call).1 (by decide +kernel)).1 place
  rw [called, msecs] at due
  exact ⟨s, c, ran, call, called, msecs, place, due⟩

/-- The time of the loop is updated between the callback of the timer and the next call with its
period; the calls have less than one millisecond; the operation of a resumed coroutine has to be
closed. -/
theorem suspend_due_not :
    ([[.other (.resume () []), .suspend () [1 / 100], .advance 10, .timercb (), .advance 25,
        .suspend () [1 / 100]],
      [.other (.resume () []), .suspend () [1 / 2000], .timercb (), .suspend () [1 / 2000]],
      [.other (.resume () []), .suspend () [1 / 100], .other (.resume () []),
        .suspend () [1 / 100]]] : List (List (SuspendTimer.Act ℚ Unit))).map
      (fun acts => (run (SuspendTimer.next numbers) SuspendTimer.init acts).map misses) =
    [some true, some true, some true] := by
  decide +kernel

end

end Coutil.SuspendDue
