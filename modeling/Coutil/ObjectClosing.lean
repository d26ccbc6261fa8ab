import Mathlib
import Coutil.ObjectPairing

set_option autoImplicit false

/-! What is left of an object once `object:close` returned, whatever the coroutine that waited on
it does with the object before. -/
namespace Coutil.ObjectClosing
open Runs ObjectHandle ObjectPairing

variable {O T : Type}

def Entry.change : Entry → ℤ
  | .start => 1
  | .stop _ => -1

/-- What the object has in `sched->nactive`. -/
def contribution (h : Handle T) : ℤ := (h.log.map Entry.change).sum

section
variable [DecidableEq O]

def stopCloses (h : Handle T) (fails : Bool) : ℕ :=
  if h.stop ∧ fails ∧ h.saved ∧ ¬h.closed then 1 else 0

def closings (o : O) (s : State O T) : Act O T → ℕ
  | .resume t fails => if s.suspended t = some o then stopCloses (s.handle o) fails else 0
  | .close p fails =>
    if p = o ∧ ¬(s.handle o).closed then
      if (s.handle o).data.isSome then stopCloses (s.handle o) fails else 1
    else 0
  | .leave fails =>
    match s.frames with
    | .callback p _ :: _ =>
      if p = o ∧ (s.handle o).data = none then stopCloses (s.handle o) fails else 0
    | .closing p :: _ => if p = o then 1 else 0
    | [] => 0
  | _ => 0

variable [DecidableEq T]

def uvcloses (o : O) : State O T → List (Act O T) → ℕ
  | _, [] => 0
  | s, a :: acts => closings o s a +
    match step s a with
    | none => 0
    | some u => uvcloses o u acts

/-- Nobody reads the object at the end of its stream before that callback ends; no other callback
of it ends with the object stopped in it and nobody waiting; and when a close of the object goes
on, the coroutine that it resumed has left nobody waiting on the object, nor closed it. -/
def Clean (o : O) (s : State O T) : Act O T → Prop
  | .reset p _ _ yieldable _ =>
    p = o → s.callback = some (o, true) → (s.handle o).closed ∨ ¬yieldable
  | .leave _ =>
    match s.frames with
    | .callback p false :: _ => p = o → (s.handle o).data = none → (s.handle o).stop
    | .closing p :: _ => p = o → (s.handle o).data = none ∧ ¬(s.handle o).closed
    | _ => True
  | _ => True

instance (o : O) (s : State O T) (a : Act O T) : Decidable (Clean o s a) :=
  match a with
  | .reset p _ _ yieldable _ =>
    inferInstanceAs (Decidable
      (p = o → s.callback = some (o, true) → (s.handle o).closed ∨ ¬yieldable))
  | .event _ _ _ => isTrue trivial
  | .resume _ _ => isTrue trivial
  | .close _ _ => isTrue trivial
  | .closed _ => isTrue trivial
  | .leave _ =>
    match top : s.frames with
    | [] => isTrue (by simp [Clean, top])
    | .callback _ true :: _ => isTrue (by simp [Clean, top])
    | .callback p false :: _ =>
      decidable_of_iff (p = o → (s.handle o).data = none → (s.handle o).stop) (by simp [Clean, top])
    | .closing p :: _ =>
      decidable_of_iff (p = o → (s.handle o).data = none ∧ ¬(s.handle o).closed)
        (by simp [Clean, top])

/-- What a step does, and when. -/
inductive Change (s : State O T) : Act O T → State O T → Prop
  | refused (o : O) (t : T) (step : Step) (yieldable starts : Bool) :
      Change s (.reset o t step yieldable starts) s
  | ignored (o : O) (e : Event) (again : Bool) : Change s (.event o e again) s
  | already (o : O) (fails : Bool) (closed : (s.handle o).closed = true) :
      Change s (.close o fails) s
  | wait (o : O) (t : T) (step : Step) (starts : Bool) (opened : (s.handle o).closed = false)
      (unused : (s.handle o).data = none) (runs : s.suspended t = none)
      (stop : (s.handle o).stop = true) :
      Change s (.reset o t step true starts)
        ((s.put o { s.handle o with step := some step }).scheduleudhdlk o t)
  | start (o : O) (t : T) (step : Step) (opened : (s.handle o).closed = false)
      (unused : (s.handle o).data = none) (runs : s.suspended t = none)
      (stop : (s.handle o).stop = false) :
      Change s (.reset o t step true true)
        (State.scheduleudhdlk { s.put o ((s.handle o).start step) with
          nactive := s.nactive + 1 } o t)
  | refuse (o : O) (t : T) (step : Step) (opened : (s.handle o).closed = false)
      (unused : (s.handle o).data = none) (stop : (s.handle o).stop = false) :
      Change s (.reset o t step true false)
        (s.put o { s.handle o with step := none, saved := false })
  | notify (o : O) (t : T) (step : Step) (e : Event) (again : Bool) (free : s.callback = none)
      (opened : (s.handle o).closed = false) (waits : (s.handle o).data = some t)
      (goes : again → e ≠ .eof) :
      Change s (.event o e again)
        { (s.put o ((s.handle o).notify step e)).endudhdlk o t again with
          frames := .callback o (e = .eof) :: s.frames }
  | resume (o : O) (t : T) (fails : Bool) (waits : s.suspended t = some o) :
      Change s (.resume t fails) (s.cancel o t fails)
  | close (o : O) (fails : Bool) (opened : (s.handle o).closed = false)
      (unused : (s.handle o).data = none) :
      Change s (.close o fails) (s.put o (s.handle o).close)
  | closing (o : O) (t : T) (fails : Bool) (opened : (s.handle o).closed = false)
      (waits : (s.handle o).data = some t) :
      Change s (.close o fails) { s.cancel o t fails with frames := .closing o :: s.frames }
  | returned (o : O) (eof : Bool) (frames : List (Frame O)) (fails : Bool)
      (top : s.frames = .callback o eof :: frames) (waits : (s.handle o).data ≠ none) :
      Change s (.leave fails) { s with frames := frames }
  | stopped (o : O) (eof : Bool) (frames : List (Frame O)) (fails : Bool)
      (top : s.frames = .callback o eof :: frames) (unused : (s.handle o).data = none) :
      Change s (.leave fails) (State.stopudhdl { s with frames := frames } o fails)
  | closed (o : O) (frames : List (Frame O)) (fails : Bool)
      (top : s.frames = .closing o :: frames) :
      Change s (.leave fails) (State.put { s with frames := frames } o (s.handle o).close)
  | freed (o : O) (closing : (s.handle o).closing = true) (free : s.callback = none) :
      Change s (.closed o) (s.put o { s.handle o with saved := false, closing := false })

variable {s s' : State O T} {a : Act O T} {o : O}

theorem reset_cases {t : T} {step : Step} {yieldable starts : Bool} (runs : s.suspended t = none)
    (result : lcuT_resetudhdlk s o t step yieldable starts = .ok s') :
    Change s (.reset o t step yieldable starts) s' := by
  simp only [lcuT_resetudhdlk] at result
  split_ifs at result with closed used yields stop started
  all_goals
    cases result
    rw [Bool.not_eq_true] at closed
    have unused : (s.handle o).data = none := by simpa using used
    obtain rfl : yieldable = true := by simpa using yields
  · exact .wait o t step starts closed unused runs stop
  · obtain rfl : starts = true := started
    exact .start o t step closed unused runs (by simpa using stop)
  · obtain rfl : starts = false := by simpa using started
    exact .refuse o t step closed unused (by simpa using stop)

theorem event_cases {e : Event} {again : Bool} (notified : event s o e again = some s') :
    Change s (.event o e again) s' := by
  simp only [event] at notified
  split at notified
  · cases notified
  rename_i free
  obtain ⟨idle, opened⟩ := not_or.mp free
  rw [Bool.not_eq_true, Option.isSome_eq_false_iff, Option.isNone_iff_eq_none] at idle
  rw [Bool.not_eq_true] at opened
  split at notified
  · split_ifs at notified
    cases notified
    exact .ignored _ _ _
  · cases notified
  · rename_i t step waits stepped
    split_ifs at notified with fits
    cases notified
    refine .notify o t step e again idle opened waits fun goes eof => ?_
    obtain received | connection := fits.2.2 goes
    · simp [received] at eof
    · simp [connection] at eof

theorem step_cases (stepped : step s a = some s') : Change s a s' := by
  cases a with
  | reset o t step yieldable starts =>
    simp only [ObjectHandle.step] at stepped
    split_ifs at stepped with runs
    split at stepped
    · cases stepped
      exact .refused o t step yieldable starts
    · rename_i u result
      cases stepped
      exact reset_cases runs result
  | event o e again => exact event_cases stepped
  | resume t fails =>
    obtain ⟨o, waits, rfl⟩ := Option.map_eq_some_iff.mp stepped
    exact .resume o t fails waits
  | close o fails =>
    simp only [ObjectHandle.step, lcu_closeudhdl] at stepped
    split_ifs at stepped with closed
    · cases stepped
      exact .already o fails closed
    · rw [Bool.not_eq_true] at closed
      split at stepped
      · rename_i unused
        cases stepped
        exact .close o fails closed unused
      · rename_i t waits
        cases stepped
        exact .closing o t fails closed waits
  | leave fails =>
    simp only [ObjectHandle.step] at stepped
    split at stepped
    · cases stepped
    · rename_i frame frames top
      cases stepped
      cases frame with
      | callback o eof =>
        simp only [leave]
        split_ifs with unused
        · exact .stopped o eof frames fails top unused
        · exact .returned o eof frames fails top unused
      | closing o => exact .closed o frames fails top
  | closed o =>
    simp only [ObjectHandle.step] at stepped
    split_ifs at stepped with closes
    cases stepped
    exact .freed o closes.1 closes.2

/-- A close of the object goes on above a callback of it. -/
def Covered (o : O) : List (Frame O) → Prop
  | [] => False
  | .closing p :: frames => (p = o ∧ ∃ eof, .callback o eof ∈ frames) ∨ Covered o frames
  | .callback _ _ :: frames => Covered o frames

omit [DecidableEq O] in
theorem covered_callback {frames : List (Frame O)} (cover : Covered o frames) :
    ∃ eof, .callback o eof ∈ frames := by
  induction frames with
  | nil => exact cover.elim
  | cons frame frames ih =>
    cases frame with
    | callback p b =>
      obtain ⟨eof, member⟩ := ih cover
      exact ⟨eof, List.mem_cons_of_mem _ member⟩
    | closing p =>
      obtain ⟨-, eof, member⟩ | cover := cover
      · exact ⟨eof, List.mem_cons_of_mem _ member⟩
      · obtain ⟨eof, member⟩ := ih cover
        exact ⟨eof, List.mem_cons_of_mem _ member⟩

omit [DecidableEq O] in
theorem covered_tail {frame : Frame O} {frames : List (Frame O)} (cover : Covered o frames) :
    Covered o (frame :: frames) := by
  cases frame with
  | callback p b => exact cover
  | closing p => exact Or.inr cover

structure Kept (o : O) (s : State O T) : Prop where
  sound : Sound (s.handle o) (inside s o)
  waiting : Waiting (fun p => (s.handle p).data) s.suspended
  single : (s.frames.filterMap Frame.callback?).length ≤ 1
  covered : Covered o s.frames →
    inside s o ≠ some true ∧ ((s.handle o).stop → (s.handle o).data ≠ none)

omit [DecidableEq T] in
theorem kept_initial (o : O) : Kept o (initial : State O T) where
  sound := sound_new
  waiting := by simp [Waiting, initial, Handle.new]
  single := by simp [initial]
  covered := fun cover => cover.elim

omit [DecidableEq O] [DecidableEq T] in
/-- A callback that is under way is the one that is found. -/
theorem callback_of_mem {eof : Bool} (single : (s.frames.filterMap Frame.callback?).length ≤ 1)
    (member : .callback o eof ∈ s.frames) : s.callback = some (o, eof) := by
  have found : (o, eof) ∈ s.frames.filterMap Frame.callback? :=
    List.mem_filterMap.mpr ⟨_, member, rfl⟩
  unfold State.callback
  cases callbacks : s.frames.filterMap Frame.callback? with
  | nil =>
    rw [callbacks] at found
    cases found
  | cons c rest =>
    rw [callbacks] at found single
    obtain rfl : rest = [] := List.eq_nil_of_length_eq_zero (by simpa using single)
    rw [List.mem_singleton.mp found]
    rfl

omit [DecidableEq T] in
theorem Kept.others (kept : Kept o s) (handle : s'.handle o = s.handle o)
    (within : inside s' o = inside s o)
    (waiting : Waiting (fun p => (s'.handle p).data) s'.suspended)
    (single : (s'.frames.filterMap Frame.callback?).length ≤ 1)
    (cover : Covered o s'.frames → Covered o s.frames) : Kept o s' := by
  refine ⟨?_, waiting, single, ?_⟩
  · rw [handle, within]
    exact kept.sound
  · rw [handle, within]
    exact fun covers => kept.covered (cover covers)

omit [DecidableEq T] in
theorem Kept.put {h : Handle T} {p : O} (kept : Kept o s)
    (handle : s'.handle = Function.update s.handle p h) (frames : s'.frames = s.frames)
    (sound : p = o → Sound h (inside s o))
    (waiting : Waiting (Function.update (fun q => (s.handle q).data) p h.data) s'.suspended)
    (held : p = o → h.stop → h.data ≠ none ∨ (s.handle o).stop ∧ (s.handle o).data = h.data) :
    Kept o s' := by
  have within (q : O) : inside s' q = inside s q := by
    simp only [inside, State.callback, frames]
  have waits : Waiting (fun q => (s'.handle q).data) s'.suspended := by
    rw [handle, fun_update Handle.data]
    exact waiting
  by_cases here : p = o
  · subst p
    have mine : s'.handle o = h := by rw [handle, Function.update_self]
    refine ⟨?_, waits, by rw [frames]; exact kept.single, fun cover => ?_⟩
    · rw [mine, within]
      exact sound rfl
    · rw [frames] at cover
      rw [mine, within]
      refine ⟨(kept.covered cover).1, fun stop => ?_⟩
      obtain waits | ⟨stop, same⟩ := held rfl stop
      · exact waits
      · rw [← same]
        exact (kept.covered cover).2 stop
  · refine kept.others ?_ (within o) waits (by rw [frames]; exact kept.single) ?_
    · rw [handle, Function.update_of_ne (Ne.symm here)]
    · rw [frames]
      exact id

theorem Kept.cancel {p : O} {t : T} (kept : Kept o s) (waits : s.suspended t = some p)
    (fails : Bool) : Kept o (s.cancel p t fails) := by
  have data : (s.handle p).data = some t := (kept.waiting p t).mpr waits
  have handle : (s.cancel p t fails).handle =
      Function.update s.handle p ((s.handle p).wake.stopudhdl fails) := by
    simp [State.cancel, State.stopudhdl, State.wake, State.put]
  have woken : ((s.handle p).wake.stopudhdl fails).data = none := by
    simp only [Handle.stopudhdl]
    split_ifs <;> rfl
  refine kept.put handle rfl ?_ ?_ (fun _ h => by cases h)
  · rintro rfl
    obtain ⟨stop, outside⟩ := kept.sound.going (by rw [data]; rfl)
    exact kept.sound.stopudhdl (Or.inl stop) outside fails
  · rw [woken]
    exact kept.waiting.wake data

theorem Kept.notify {p : O} {t : T} {step : Step} {e : Event} {again : Bool} (kept : Kept o s)
    (free : s.callback = none) (opened : (s.handle p).closed = false)
    (waits : (s.handle p).data = some t) (goes : again → e ≠ .eof) :
    Kept o { (s.put p ((s.handle p).notify step e)).endudhdlk p t again with
      frames := .callback p (e = .eof) :: s.frames } := by
  have callbacks : s.frames.filterMap Frame.callback? = [] := List.head?_eq_none_iff.mp free
  have outside (q : O) : inside s q = none := by simp [inside, free]
  have callback : State.callback { (s.put p ((s.handle p).notify step e)).endudhdlk p t again with
      frames := .callback p (e = .eof) :: s.frames } = some (p, decide (e = .eof)) := rfl
  have single : ((Frame.callback p (decide (e = .eof)) :: s.frames).filterMap
      Frame.callback?).length ≤ 1 := by
    simp [callbacks, Frame.callback?]
  have waiting := kept.waiting.wake waits
  have uncovered : ¬Covered o (.callback p (decide (e = .eof)) :: s.frames) := by
    intro cover
    have covered : Covered o s.frames := cover
    obtain ⟨eof, member⟩ := covered_callback covered
    cases free.symm.trans (callback_of_mem kept.single member)
  obtain ⟨h, handle, waiting, sound⟩ : ∃ h,
      ((s.put p ((s.handle p).notify step e)).endudhdlk p t again).handle =
        Function.update s.handle p h ∧
      Waiting (Function.update (fun q => (s.handle q).data) p h.data)
        ((s.put p ((s.handle p).notify step e)).endudhdlk p t again).suspended ∧
      (p = o → Sound h (some (decide (e = .eof)))) := by
    have woken (here : p = o) :
        Sound ((s.handle p).notify step e).wake (some (decide (e = .eof))) := by
      subst p
      have sound := kept.sound
      rw [outside] at sound
      exact sound.notify (by simp [waits]) step e
    cases again with
    | false =>
      exact ⟨_, by simp [State.endudhdlk, State.wake, State.put], waiting, woken⟩
    | true =>
      have again := waiting.schedule (o := p) (t := t) (by simp) (by simp)
      rw [Function.update_idem] at again
      refine ⟨((s.handle p).notify step e).wake.suspend t,
        by simp [State.endudhdlk, State.scheduleudhdlk, State.wake, State.put], again,
        fun here => ?_⟩
      have going : ((s.handle p).notify step e).wake.stop = true := by
        subst p
        have stop := kept.sound.held (by simp [waits])
        simp [Handle.notify, Handle.wake, stop, goes rfl]
      exact (woken here).wait opened going _ t
  by_cases here : p = o
  · subst p
    refine ⟨?_, ?_, single, fun cover => absurd cover uncovered⟩
    · have within := inside_eq.mpr callback
      rw [within]
      simp only [handle, Function.update_self]
      exact sound rfl
    · simp only [handle, fun_update Handle.data]
      exact waiting
  · refine kept.others ?_ ?_ ?_ single fun cover => absurd cover uncovered
    · simp only [handle, Function.update_of_ne (Ne.symm here)]
    · rw [outside, inside_of_ne callback (Ne.symm here)]
    · simp only [handle, fun_update Handle.data]
      exact waiting

omit [DecidableEq O] [DecidableEq T] in
theorem callback_last {p : O} {eof : Bool} {frames : List (Frame O)}
    (single : (s.frames.filterMap Frame.callback?).length ≤ 1)
    (top : s.frames = .callback p eof :: frames) :
    frames.filterMap Frame.callback? = [] ∧ s.callback = some (p, eof) := by
  have callbacks : s.frames.filterMap Frame.callback? =
      (p, eof) :: frames.filterMap Frame.callback? := by
    rw [top]
    rfl
  rw [callbacks] at single
  refine ⟨List.eq_nil_of_length_eq_zero (by simpa using single), ?_⟩
  rw [State.callback, callbacks]
  rfl

omit [DecidableEq T] in
/-- The callback on top ends, with the object as in `h`. -/
theorem Kept.pop_callback {p : O} {eof : Bool} {frames : List (Frame O)} {h : Handle T}
    (kept : Kept o s) (top : s.frames = .callback p eof :: frames) (below : s'.frames = frames)
    (handle : s'.handle = Function.update s.handle p h) (suspended : s'.suspended = s.suspended)
    (same : h.data = (s.handle p).data) (sound : p = o → Sound h none) : Kept o s' := by
  obtain ⟨last, callback⟩ := callback_last kept.single top
  have outside (q : O) : inside s' q = none := by simp [inside, State.callback, below, last]
  have waiting : Waiting (fun q => (s'.handle q).data) s'.suspended := by
    rw [handle, fun_update Handle.data, suspended]
    exact kept.waiting.keep same
  have single : (s'.frames.filterMap Frame.callback?).length ≤ 1 := by simp [below, last]
  have uncovered : ¬Covered o s'.frames := by
    intro cover
    obtain ⟨eof, member⟩ := covered_callback cover
    have found := callback_of_mem single member
    simp [State.callback, below, last] at found
  refine ⟨?_, waiting, single, fun cover => absurd cover uncovered⟩
  rw [outside, handle]
  by_cases here : p = o
  · subst p
    rw [Function.update_self]
    exact sound rfl
  · rw [Function.update_of_ne (Ne.symm here)]
    have sound := kept.sound
    rwa [inside_of_ne callback (Ne.symm here)] at sound

omit [DecidableEq T] in
theorem Kept.pop_closing {p : O} {frames : List (Frame O)} (kept : Kept o s)
    (top : s.frames = .closing p :: frames) : Kept o { s with frames := frames } := by
  have callbacks : s.frames.filterMap Frame.callback? = frames.filterMap Frame.callback? := by
    rw [top]
    rfl
  have within : inside { s with frames := frames } o = inside s o := by
    simp only [inside, State.callback, callbacks]
  refine kept.others rfl within kept.waiting ?_ fun cover => ?_
  · rw [← callbacks]
    exact kept.single
  · rw [top]
    exact covered_tail cover

omit [DecidableEq T] in
theorem Kept.close {p : O} (kept : Kept o s) (unused : p = o → (s.handle p).data = none) :
    Kept o (s.put p (s.handle p).close) :=
  kept.put rfl rfl (by rintro rfl; exact kept.sound.close (unused rfl)) (kept.waiting.keep rfl)
    (by rintro rfl stop; exact Or.inr ⟨stop, rfl⟩)

/-- A close of a waited object resumes the coroutine. -/
theorem Kept.closing {p : O} {t : T} (kept : Kept o s) (waits : (s.handle p).data = some t)
    (fails : Bool) : Kept o { s.cancel p t fails with frames := .closing p :: s.frames } := by
  have cancelled := kept.cancel ((kept.waiting p t).mp waits) fails
  refine ⟨cancelled.sound, cancelled.waiting, cancelled.single, fun cover => ?_⟩
  obtain ⟨rfl, -⟩ | cover := cover
  · have handle : (s.cancel p t fails).handle p = (s.handle p).wake.stopudhdl fails := by
      simp [State.cancel, State.stopudhdl, State.wake, State.put]
    have outside := (kept.sound.going (by rw [waits]; rfl)).2
    refine ⟨outside, ?_⟩
    change ((s.cancel p t fails).handle p).stop = true → _
    rw [handle]
    exact fun h => by cases h
  · exact cancelled.covered cover

theorem Kept.step (kept : Kept o s) (clean : Clean o s a) (stepped : step s a = some s') :
    Kept o s' := by
  cases step_cases stepped with
  | refused => exact kept
  | ignored => exact kept
  | already => exact kept
  | wait p t step starts opened unused runs stop =>
    refine kept.put (p := p) (h := Handle.suspend { s.handle p with step := some step } t)
      (by simp [State.scheduleudhdlk, State.put]) rfl ?_ (kept.waiting.schedule unused runs) ?_
    · rintro rfl
      exact kept.sound.wait opened stop _ t
    · exact fun _ _ => Or.inl (fun h => by cases h)
  | start p t step opened unused runs stop =>
    refine kept.put (p := p) (h := ((s.handle p).start step).suspend t)
      (by simp [State.scheduleudhdlk, State.put]) rfl ?_ (kept.waiting.schedule unused runs) ?_
    · rintro rfl
      refine kept.sound.start opened stop (fun ended => ?_) step t
      obtain closed | refused := clean rfl (inside_eq.mp ended)
      · exact absurd (opened.symm.trans closed) Bool.false_ne_true
      · exact refused rfl
    · exact fun _ _ => Or.inl (fun h => by cases h)
  | refuse p t step opened unused stop =>
    refine kept.put (p := p) (h := { s.handle p with step := none, saved := false }) rfl rfl ?_
      (kept.waiting.keep rfl) ?_
    · rintro rfl
      refine kept.sound.refuse stop fun ended => ?_
      obtain closed | refused := clean rfl (inside_eq.mp ended)
      · exact absurd (opened.symm.trans closed) Bool.false_ne_true
      · exact refused rfl
    · rintro rfl going
      exact absurd (stop.symm.trans going) Bool.false_ne_true
  | notify p t step e again free opened waits goes => exact kept.notify free opened waits goes
  | resume p t fails waits => exact kept.cancel waits fails
  | close p fails opened unused => exact kept.close fun _ => unused
  | closing p t fails opened waits => exact kept.closing waits fails
  | returned p eof frames fails top waits =>
    refine kept.pop_callback (h := s.handle p) top rfl (by simp) rfl rfl ?_
    rintro rfl
    exact kept.sound.outside (Option.isSome_iff_ne_none.mpr waits)
  | stopped p eof frames fails top unused =>
    have awake : (s.handle p).wake = s.handle p := by
      rw [Handle.wake, ← unused]
    have data : ((s.handle p).stopudhdl fails).data = (s.handle p).data := by
      simp only [Handle.stopudhdl]
      split_ifs <;> rfl
    refine kept.pop_callback (h := (s.handle p).stopudhdl fails) top rfl rfl rfl data ?_
    rintro rfl
    rw [← awake]
    refine kept.sound.stopudhdl ?_ (by simp) fails
    cases eof with
    | true => exact Or.inr (inside_eq.mpr (callback_last kept.single top).2)
    | false =>
      simp only [Clean, top] at clean
      exact Or.inl (clean trivial unused)
  | closed p frames fails top =>
    refine (kept.pop_closing top).close ?_
    rintro rfl
    simp only [Clean, top] at clean
    exact (clean trivial).1
  | freed p closing free =>
    refine kept.put (p := p) (h := { s.handle p with saved := false, closing := false }) rfl rfl ?_
      (kept.waiting.keep rfl) (by rintro rfl stop; exact Or.inr ⟨stop, rfl⟩)
    rintro rfl
    have outside : inside s p = none := by simp [inside, free]
    have sound := kept.sound
    rw [outside] at sound ⊢
    exact sound.free closing

/-- So often was the object closed as it says. -/
def marks (h : Handle T) : ℕ := if h.closed then 1 else 0

omit [DecidableEq O] [DecidableEq T] in
theorem marks_stopudhdl (h : Handle T) (fails : Bool) :
    marks (h.wake.stopudhdl fails) = marks h + stopCloses h fails := by
  cases stop : h.stop <;> cases fails <;> cases saved : h.saved <;> cases closed : h.closed <;>
    simp [marks, stopCloses, Handle.stopudhdl, Handle.wake, Handle.close, stop, saved, closed]

omit [DecidableEq T] in
theorem handle_put (s : State O T) (p : O) (h : Handle T) :
    (s.put p h).handle o = if o = p then h else s.handle o :=
  Function.update_apply ..

theorem marks_cancel {p : O} (t : T) (fails : Bool) :
    marks ((s.cancel p t fails).handle o) =
      marks (s.handle o) + if p = o then stopCloses (s.handle o) fails else 0 := by
  have handle : (s.cancel p t fails).handle =
      Function.update s.handle p ((s.handle p).wake.stopudhdl fails) := by
    simp [State.cancel, State.stopudhdl, State.wake, State.put]
  rw [handle]
  by_cases here : p = o
  · subst p
    simp [marks_stopudhdl]
  · simp [here, Function.update_of_ne (Ne.symm here)]

/-- `uv_close` is called when the object becomes closed, and not again. -/
theorem marks_step (clean : Clean o s a) (stepped : step s a = some s') :
    marks (s'.handle o) = marks (s.handle o) + closings o s a := by
  cases step_cases stepped with
  | refused => rfl
  | ignored => rfl
  | already p fails closed =>
    by_cases here : p = o
    · subst p
      simp [closings, closed]
    · simp [closings, here]
  | wait p t step starts opened unused runs stop =>
    by_cases here : o = p <;>
      simp [marks, closings, State.scheduleudhdlk, handle_put, Handle.suspend, here]
  | start p t step opened unused runs stop =>
    by_cases here : o = p <;>
      simp [marks, closings, State.scheduleudhdlk, State.put, Handle.suspend, Handle.start, here]
  | refuse p t step opened unused stop =>
    by_cases here : o = p <;> simp [marks, closings, handle_put, here]
  | notify p t step e again free opened waits goes =>
    cases again <;> by_cases here : o = p <;>
      simp [marks, closings, State.endudhdlk, State.scheduleudhdlk, State.wake, State.put,
        Handle.suspend, Handle.wake, Handle.notify, here]
  | resume p t fails waits =>
    rw [marks_cancel, closings, waits]
    simp
  | close p fails opened unused =>
    by_cases here : p = o
    · subst p
      simp [marks, closings, handle_put, Handle.close, opened, unused]
    · simp [marks, closings, handle_put, here, Ne.symm here]
  | closing p t fails opened waits =>
    have counted := marks_cancel (s := s) (p := p) (o := o) t fails
    change marks ((s.cancel p t fails).handle o) = _
    rw [counted, closings]
    by_cases here : p = o
    · subst p
      simp [opened, waits]
    · simp [here]
  | returned p eof frames fails top waits =>
    by_cases here : p = o
    · subst p
      simp [closings, top, waits]
    · simp [closings, top, here]
  | stopped p eof frames fails top unused =>
    have awake : (s.handle p).wake = s.handle p := by
      rw [Handle.wake, ← unused]
    by_cases here : p = o
    · subst p
      have counted := marks_stopudhdl (s.handle o) fails
      rw [awake] at counted
      simp [closings, top, unused, State.stopudhdl, handle_put, counted]
    · simp [closings, top, here, State.stopudhdl, handle_put, Ne.symm here]
  | closed p frames fails top =>
    by_cases here : p = o
    · subst p
      simp only [Clean, top] at clean
      simp [marks, closings, top, handle_put, Handle.close, (clean trivial).2]
    · simp [closings, top, here, handle_put, Ne.symm here]
  | freed p closing free =>
    by_cases here : o = p <;> simp [marks, closings, handle_put, here]

/-- A closed object with nothing in `sched->nactive` stays so. -/
theorem closed_step (closed : (s.handle o).closed = true) (stepped : step s a = some s') :
    (s'.handle o).closed = true ∧
      ((s.handle o).started = false → (s'.handle o).started = false) := by
  have away {p : O} (opened : (s.handle p).closed = false) : o ≠ p := by
    rintro rfl
    exact absurd (opened.symm.trans closed) Bool.false_ne_true
  have stopped (fails : Bool) : ((s.handle o).wake.stopudhdl fails).closed = true ∧
      ((s.handle o).wake.stopudhdl fails).started = false := by
    refine ⟨?_, by simp [Handle.stopudhdl, Handle.started]⟩
    simp only [Handle.stopudhdl]
    split_ifs
    · rfl
    · exact closed
    · exact closed
  cases step_cases stepped with
  | refused => exact ⟨closed, id⟩
  | ignored => exact ⟨closed, id⟩
  | already => exact ⟨closed, id⟩
  | wait p t step starts opened unused runs stop =>
    simp [State.scheduleudhdlk, State.put, away opened, closed]
  | start p t step opened unused runs stop =>
    simp [State.scheduleudhdlk, State.put, away opened, closed]
  | refuse p t step opened unused stop => simp [handle_put, away opened, closed]
  | notify p t step e again free opened waits goes =>
    cases again <;>
      simp [State.endudhdlk, State.scheduleudhdlk, State.wake, State.put, away opened, closed]
  | resume p t fails waits =>
    by_cases here : o = p
    · subst p
      have handle : (s.cancel o t fails).handle o = (s.handle o).wake.stopudhdl fails := by
        simp [State.cancel, State.stopudhdl, State.wake, State.put]
      rw [handle]
      exact ⟨(stopped fails).1, fun _ => (stopped fails).2⟩
    · simp [State.cancel, State.stopudhdl, State.wake, State.put, here, closed]
  | close p fails opened unused => simp [handle_put, away opened, closed]
  | closing p t fails opened waits =>
    simp [State.cancel, State.stopudhdl, State.wake, State.put, away opened, closed]
  | returned => exact ⟨closed, id⟩
  | stopped p eof frames fails top unused =>
    by_cases here : o = p
    · subst p
      have awake : (s.handle o).wake = s.handle o := by
        rw [Handle.wake, ← unused]
      rw [awake] at stopped
      simp [State.stopudhdl, handle_put, stopped]
    · simp [State.stopudhdl, handle_put, here, closed]
  | closed p frames fails top =>
    by_cases here : o = p
    · subst p
      simp [handle_put, Handle.close, Handle.started]
    · simp [handle_put, here, closed]
  | freed p closing free =>
    by_cases here : o = p
    · subst p
      simp [handle_put, closed, Handle.started]
    · simp [handle_put, here, closed]

/-- A close of the object is under way, or it is closed and, if this is asked for, has nothing in
`sched->nactive`. -/
def Left (o : O) (idle : Prop) (s : State O T) : Prop :=
  .closing o ∈ s.frames ∨
    (s.handle o).closed = true ∧ (idle → (s.handle o).started = false)

omit [DecidableEq T] in
/-- A close that goes on finds the object stopped. -/
theorem Kept.idle {frames : List (Frame O)} (kept : Kept o s) (top : s.frames = .closing o :: frames)
    (unused : (s.handle o).data = none) : (s.handle o).started = false := by
  refine Bool.eq_false_of_not_eq_true fun started => ?_
  have above {eof : Bool} (within : inside s o = some eof) : Covered o s.frames := by
    have callback := inside_eq.mp within
    have member : (o, eof) ∈ s.frames.filterMap Frame.callback? :=
      List.mem_of_mem_head? (by rw [← State.callback, callback]; rfl)
    obtain ⟨frame, found, is⟩ := List.mem_filterMap.mp member
    rw [top] at found ⊢
    refine Or.inl ⟨rfl, eof, ?_⟩
    cases frame with
    | closing p => cases is
    | callback p b =>
      cases is
      simpa using found
  obtain stop | ended := kept.sound.started.mp started
  · exact (kept.covered (above (kept.sound.attended stop unused))).2 stop unused
  · exact (kept.covered (above ended)).1 ended

theorem Left.step {idle : Prop} (left : Left o idle s) (kept : Kept o s) (clean : Clean o s a)
    (stepped : step s a = some s') : Left o idle s' := by
  obtain member | ⟨closed, started⟩ := left
  · cases step_cases stepped with
    | refused => exact Or.inl member
    | ignored => exact Or.inl member
    | already => exact Or.inl member
    | wait => exact Or.inl member
    | start => exact Or.inl member
    | refuse => exact Or.inl member
    | notify => exact Or.inl (List.mem_cons_of_mem _ member)
    | resume => exact Or.inl member
    | close => exact Or.inl member
    | closing => exact Or.inl (List.mem_cons_of_mem _ member)
    | returned p eof frames fails top waits =>
      rw [top] at member
      exact Or.inl (by simpa using member)
    | stopped p eof frames fails top unused =>
      rw [top] at member
      have below : .closing o ∈ frames := by simpa using member
      exact Or.inl below
    | closed p frames fails top =>
      rw [top] at member
      obtain here | below := List.mem_cons.mp member
      · cases here
        simp only [Clean, top] at clean
        have idle := kept.idle top (clean trivial).1
        refine Or.inr ⟨by simp [handle_put, Handle.close], fun _ => ?_⟩
        rw [handle_put, if_pos rfl]
        exact idle
      · exact Or.inl below
    | freed => exact Or.inl member
  · obtain ⟨closed', started'⟩ := closed_step closed stepped
    exact Or.inr ⟨closed', fun asked => started' (started asked)⟩

theorem left_close {idle : Prop} {fails : Bool} (kept : Kept o s)
    (opened : (s.handle o).closed = false)
    (asked : idle → (s.handle o).data ≠ none ∨ inside s o = none)
    (stepped : step s (.close o fails) = some s') : Left o idle s' := by
  cases step_cases stepped with
  | already p fails closed => exact absurd (opened.symm.trans closed) Bool.false_ne_true
  | close p fails opened unused =>
    refine Or.inr ⟨by simp [handle_put, Handle.close], fun idle => ?_⟩
    rw [handle_put, if_pos rfl]
    obtain waits | outside := asked idle
    · exact absurd unused waits
    · refine Bool.eq_false_of_not_eq_true fun started => ?_
      have going := kept.sound.started.mp started
      rw [outside] at going
      obtain stop | ended := going
      · have within := kept.sound.attended stop unused
        rw [outside] at within
        cases within
      · cases ended
  | closing p t fails opened waits => exact Or.inl List.mem_cons_self

theorem uvcloses_append {before after : List (Act O T)} (ran : run step s before = some s') :
    uvcloses o s (before ++ after) = uvcloses o s before + uvcloses o s' after := by
  induction before generalizing s with
  | nil =>
    cases ran
    simp [uvcloses]
  | cons a before ih =>
    obtain ⟨u, stepped, ran⟩ := run_cons.mp ran
    simp only [List.cons_append, uvcloses, stepped, ih ran, Nat.add_assoc]

theorem run_kept {acts : List (Act O T)} (kept : Kept o s) (along : Along step (Clean o) s acts)
    (ran : run step s acts = some s') :
    Kept o s' ∧ marks (s'.handle o) = marks (s.handle o) + uvcloses o s acts := by
  induction acts generalizing s with
  | nil =>
    cases ran
    exact ⟨kept, rfl⟩
  | cons a acts ih =>
    obtain ⟨u, stepped, ran⟩ := run_cons.mp ran
    obtain ⟨clean, along⟩ := along
    obtain ⟨kept', counted⟩ := ih (kept.step clean stepped) (along u stepped) ran
    refine ⟨kept', ?_⟩
    rw [counted, marks_step clean stepped]
    simp only [uvcloses, stepped, Nat.add_assoc]

theorem run_left {acts : List (Act O T)} {idle : Prop} (left : Left o idle s) (kept : Kept o s)
    (along : Along step (Clean o) s acts) (ran : run step s acts = some s') :
    Left o idle s' := by
  have both := run_invariant_along (fun u => Kept o u ∧ Left o idle u) (Clean o)
    (fun _ _ _ both clean stepped =>
      ⟨both.1.step clean stepped, both.2.step both.1 clean stepped⟩) ⟨kept, left⟩ along ran
  exact both.2

/-- The number is the sum of what the things have, which is nothing but for some. -/
def Sums (f : O → ℤ) (n : ℤ) : Prop :=
  ∃ F : Finset O, (∀ p, p ∉ F → f p = 0) ∧ n = ∑ p ∈ F, f p

omit [DecidableEq T] in
theorem Sums.change {f : O → ℤ} {n : ℤ} (sums : Sums f n) (p : O) (d : ℤ) :
    Sums (Function.update f p (f p + d)) (n + d) := by
  obtain ⟨F, others, rfl⟩ := sums
  refine ⟨insert p F, fun q away => ?_, ?_⟩
  · obtain ⟨other, outside⟩ := not_or.mp (mt Finset.mem_insert.mpr away)
    rw [Function.update_of_ne other, others q outside]
  · have all : ∑ q ∈ F, f q = ∑ q ∈ insert p F, f q := by
      refine Finset.sum_subset (Finset.subset_insert p F) fun q _ outside => others q outside
    rw [all, Finset.sum_update_of_mem (Finset.mem_insert_self p F),
      Finset.sum_eq_add_sum_sdiff_singleton_of_mem (Finset.mem_insert_self p F)]
    omega

omit [DecidableEq O] [DecidableEq T] in
theorem contribution_note {h : Handle T} {e : Entry} {log : List Entry} (noted : log = h.log ++ [e]) :
    (log.map Entry.change).sum = contribution h + Entry.change e := by
  simp [noted, contribution]

omit [DecidableEq T] in
theorem sums_put {h : Handle T} {p : O} {d : ℤ}
    (sums : Sums (fun q => contribution (s.handle q)) s.nactive)
    (handle : s'.handle = Function.update s.handle p h)
    (changed : contribution h = contribution (s.handle p) + d)
    (nactive : s'.nactive = s.nactive + d) :
    Sums (fun q => contribution (s'.handle q)) s'.nactive := by
  rw [handle, fun_update contribution, nactive, changed]
  exact sums.change p d

theorem sums_step (sums : Sums (fun q => contribution (s.handle q)) s.nactive)
    (stepped : step s a = some s') :
    Sums (fun q => contribution (s'.handle q)) s'.nactive := by
  have cancelled {p : O} {t : T} (fails : Bool) :
      Sums (fun q => contribution ((s.cancel p t fails).handle q))
        (s.cancel p t fails).nactive := by
    refine sums_put (p := p) (h := (s.handle p).wake.stopudhdl fails) (d := -1) sums
      (by simp [State.cancel, State.stopudhdl, State.wake, State.put]) ?_
      (by simp [State.cancel, State.stopudhdl, State.wake, State.put, sub_eq_add_neg])
    exact contribution_note (h := s.handle p) (e := .stop (s.handle p).saved) rfl
  cases step_cases stepped with
  | refused => exact sums
  | ignored => exact sums
  | already => exact sums
  | wait p t step starts opened unused runs stop =>
    exact sums_put (p := p) (h := Handle.suspend { s.handle p with step := some step } t) (d := 0)
      sums (by simp [State.scheduleudhdlk, State.put]) (by simp [contribution, Handle.suspend])
      (by simp [State.scheduleudhdlk, State.put])
  | start p t step opened unused runs stop =>
    exact sums_put (p := p) (h := ((s.handle p).start step).suspend t) (d := 1) sums
      (by simp [State.scheduleudhdlk, State.put])
      (contribution_note (h := s.handle p) (e := .start) rfl) rfl
  | refuse p t step opened unused stop =>
    exact sums_put (p := p) (h := { s.handle p with step := none, saved := false }) (d := 0) sums rfl
      (by simp [contribution]) (by simp [State.put])
  | notify p t step e again free opened waits goes =>
    cases again with
    | false =>
      exact sums_put (p := p) (h := ((s.handle p).notify step e).wake) (d := 0) sums
        (by simp [State.endudhdlk, State.wake, State.put])
        (by simp [contribution, Handle.wake, Handle.notify])
        (by simp [State.endudhdlk, State.wake, State.put])
    | true =>
      exact sums_put (p := p) (h := ((s.handle p).notify step e).wake.suspend t) (d := 0) sums
        (by simp [State.endudhdlk, State.scheduleudhdlk, State.wake, State.put])
        (by simp [contribution, Handle.wake, Handle.notify, Handle.suspend])
        (by simp [State.endudhdlk, State.scheduleudhdlk, State.wake, State.put])
  | resume p t fails waits => exact cancelled fails
  | close p fails opened unused =>
    exact sums_put (p := p) (h := (s.handle p).close) (d := 0) sums rfl
      (by simp [contribution, Handle.close]) (by simp [State.put])
  | closing p t fails opened waits => exact cancelled fails
  | returned => exact sums
  | stopped p eof frames fails top unused =>
    exact sums_put (p := p) (h := (s.handle p).stopudhdl fails) (d := -1) sums rfl
      (contribution_note (h := s.handle p) (e := .stop (s.handle p).saved) rfl)
      (by simp [State.stopudhdl, State.put, sub_eq_add_neg])
  | closed p frames fails top =>
    exact sums_put (p := p) (h := (s.handle p).close) (d := 0) sums rfl
      (by simp [contribution, Handle.close]) (by simp [State.put])
  | freed p closing free =>
    exact sums_put (p := p) (h := { s.handle p with saved := false, closing := false }) (d := 0) sums
      rfl (by simp [contribution]) (by simp [State.put])

omit [DecidableEq O] [DecidableEq T] in
theorem sums_initial :
    Sums (fun q => contribution ((initial : State O T).handle q)) (initial : State O T).nactive :=
  ⟨∅, fun _ _ => rfl, rfl⟩

/-- Starts and stops that take turns leave one start at most. -/
theorem change_sum {log : List Entry} (alternates : Alternates log) :
    (log.map Entry.change).sum = if log.getLast? = some .start then 1 else 0 := by
  induction log using List.reverseRecOn with
  | nil => rfl
  | append_singleton log e ih =>
    have turns := List.isChain_append.mp alternates.turns
    have before : Alternates log := by
      refine ⟨turns.1, fun first head => alternates.first first ?_⟩
      rw [List.head?_append, head]
      rfl
    rw [List.map_append, List.sum_append, ih before]
    cases last : log.getLast? with
    | none =>
      obtain rfl : log = [] := List.getLast?_eq_none_iff.mp last
      have start := alternates.first e (by simp)
      cases e with
      | start => rfl
      | stop found => cases start
    | some f =>
      have turn := turns.2.2 f last e rfl
      cases e with
      | start =>
        cases f with
        | start => exact absurd rfl turn
        | stop found => simp [Entry.change]
      | stop found =>
        cases f with
        | start => simp [Entry.change]
        | stop found => exact absurd rfl turn

/-- An object is closed by the calls of `lcu_closeudhdl` in `before`, at `s`, and in `after`. -/
theorem closed_unused {before after : List (Act O T)} {u : State O T} {fails : Bool}
    (called : run step initial before = some s) (opened : (s.handle o).closed = false)
    (ran : run step s (.close o fails :: after) = some u)
    (clean : Along step (Clean o) initial (before ++ .close o fails :: after))
    (returned : .closing o ∉ u.frames) :
    (∀ t, u.suspended t ≠ some o) ∧
    Sums (fun p => contribution (u.handle p)) u.nactive ∧
    ((∃ t, s.suspended t = some o) ∨ (∀ eof, s.callback ≠ some (o, eof)) →
      contribution (u.handle o) = 0) ∧
    uvcloses o initial (before ++ .close o fails :: after) = 1 ∧
    (∀ t step yieldable starts,
      lcuT_resetudhdlk u o t step yieldable starts = .error "closed object") ∧
    ∀ fails, step u (.close o fails) = some u := by
  obtain ⟨along, rest⟩ := along_split clean called
  obtain ⟨kept, marked⟩ := run_kept (kept_initial o) along called
  obtain ⟨kept', counted⟩ := run_kept kept rest ran
  obtain ⟨w, stepped, ran'⟩ := run_cons.mp ran
  have left : Left o ((∃ t, s.suspended t = some o) ∨ (∀ eof, s.callback ≠ some (o, eof))) u := by
    refine run_left (left_close kept opened (fun idle => ?_) stepped)
      (kept.step rest.1 stepped) (rest.2 w stepped) ran'
    obtain ⟨t, waits⟩ | outside := idle
    · have data : (s.handle o).data = some t := (kept.waiting o t).mpr waits
      exact Or.inl (by simp [data])
    · refine Or.inr (Option.eq_none_iff_forall_not_mem.mpr fun eof within => ?_)
      exact outside eof (inside_eq.mp within)
  obtain member | ⟨closed, idle⟩ := left
  · exact absurd member returned
  have sums : Sums (fun p => contribution (u.handle p)) u.nactive := by
    have all := run_append.mpr ⟨s, called, ran⟩
    exact run_invariant _ (fun _ _ _ sums stepped => sums_step sums stepped) sums_initial all
  refine ⟨fun t waits => ?_, sums, fun asked => ?_, ?_, fun t step yieldable starts => ?_,
    fun fails => ?_⟩
  · have data : (u.handle o).data = some t := (kept'.waiting o t).mpr waits
    have unused := kept'.sound.closed closed
    rw [data] at unused
    cases unused
  · have sum : contribution (u.handle o) = _ := change_sum kept'.sound.alternates
    have none := idle asked
    rw [sum, if_neg]
    simpa [Handle.started] using none
  · rw [uvcloses_append called]
    have zero : marks (s.handle o) = 0 := by simp [marks, opened]
    have one : marks (u.handle o) = 1 := by simp [marks, closed]
    have none : marks ((initial : State O T).handle o) = 0 := rfl
    omega
  · simp [lcuT_resetudhdlk, closed]
  · simp [ObjectHandle.step, closed]

end

def receiving : State ℕ ℕ :=
  State.scheduleudhdlk { initial.put 0 (Handle.new.start .recvdata) with nactive := 1 } 0 7

/-- Coroutine 7 reads another object once it is resumed by the close of the one it waited on. -/
theorem closed_unused_other :
    ∃ s u : State ℕ ℕ,
      run step initial [.reset 0 7 .recvdata true true] = some s ∧
      run step s [.close 0 false, .reset 1 7 .recvdata true true, .leave false] = some u ∧
      (∀ t, u.suspended t ≠ some 0) ∧ contribution (u.handle 0) = 0 ∧ u.nactive = 1 ∧
      uvcloses 0 initial [.reset 0 7 .recvdata true true, .close 0 false,
        .reset 1 7 .recvdata true true, .leave false] = 1 := by
  have called : run (step : State ℕ ℕ → Act ℕ ℕ → Option (State ℕ ℕ)) initial
      [.reset 0 7 .recvdata true true] = some receiving := rfl
  have ran : run (step : State ℕ ℕ → Act ℕ ℕ → Option (State ℕ ℕ)) receiving
      [.close 0 false, .reset 1 7 .recvdata true true, .leave false] = some _ := rfl
  obtain ⟨unused, -, idle, once, -⟩ := closed_unused called rfl ran (by decide) (by decide)
  exact ⟨_, _, called, ran, unused, idle (Or.inl ⟨7, rfl⟩), rfl, once⟩

/-- Coroutine 7 reads the object again before the close goes on, or closes it itself. -/
theorem closed_used :
    (¬∀ (before after : List (Act ℕ ℕ)) (s u : State ℕ ℕ) (fails : Bool),
      run step initial before = some s → (s.handle 0).closed = false →
      run step s (.close 0 fails :: after) = some u → .closing 0 ∉ u.frames →
      ∀ t, u.suspended t ≠ some 0) ∧
    ¬∀ (before after : List (Act ℕ ℕ)) (s u : State ℕ ℕ) (fails : Bool),
      run step initial before = some s → (s.handle 0).closed = false →
      run step s (.close 0 fails :: after) = some u → .closing 0 ∉ u.frames →
      uvcloses 0 initial (before ++ .close 0 fails :: after) = 1 := by
  have called : run (step : State ℕ ℕ → Act ℕ ℕ → Option (State ℕ ℕ)) initial
      [.reset 0 7 .recvdata true true] = some receiving := rfl
  refine ⟨fun claim => ?_, fun claim => ?_⟩
  · have ran : run (step : State ℕ ℕ → Act ℕ ℕ → Option (State ℕ ℕ)) receiving
        [.close 0 false, .reset 0 7 .recvdata true true, .leave false] = some _ := rfl
    exact claim _ _ _ _ false called rfl ran (by decide) 7 rfl
  · have ran : run (step : State ℕ ℕ → Act ℕ ℕ → Option (State ℕ ℕ)) receiving
        [.close 0 false, .close 0 false, .leave false] = some _ := rfl
    exact absurd (claim _ _ _ _ false called rfl ran (by decide)) (by decide)

end Coutil.ObjectClosing
