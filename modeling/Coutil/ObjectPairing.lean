import Mathlib.Data.Finset.Card
import Mathlib.Data.List.Chain
import Coutil.ObjectHandle

set_option autoImplicit false

/-! The starts and stops of the objects along a run: in pairs, each counted once, unless a
coroutine reads again at the end of the stream or cancels a read within a callback. -/
namespace Coutil.ObjectPairing
open Runs ObjectHandle

variable {O T : Type}

def Entry.isStart : Entry → Bool
  | .start => true
  | .stop _ => false

/-- Starts and stops take turns, a start first. -/
structure Alternates (log : List Entry) : Prop where
  turns : log.IsChain fun a b => Entry.isStart a ≠ Entry.isStart b
  first : ∀ e ∈ log.head?, Entry.isStart e

theorem Alternates.start {log : List Entry} (alternates : Alternates log)
    (stopped : log.getLast? ≠ some .start) : Alternates (log ++ [.start]) := by
  refine ⟨List.isChain_append.mpr ⟨alternates.turns, List.isChain_singleton _, ?_⟩, ?_⟩
  · intro e last f start
    cases start
    cases e with
    | start => exact absurd last stopped
    | stop found => simp [Entry.isStart]
  · cases log with
    | nil => simp [Entry.isStart]
    | cons e log => simpa using alternates.first

theorem Alternates.stop {log : List Entry} (alternates : Alternates log)
    (started : log.getLast? = some .start) (found : Bool) :
    Alternates (log ++ [.stop found]) := by
  refine ⟨List.isChain_append.mpr ⟨alternates.turns, List.isChain_singleton _, ?_⟩, ?_⟩
  · intro e last f stop
    cases stop
    cases Option.some.inj (started.symm.trans last)
    simp [Entry.isStart]
  · cases log with
    | nil => cases started
    | cons e log => simpa using alternates.first

/-- An object between two steps. `inside` is for its callback that is under way, at the end of
the stream or not: there the object may be started with nobody waiting on it. -/
structure Sound (h : Handle T) (inside : Option Bool) : Prop where
  held : h.data.isSome → h.stop
  ended : inside = some true → h.data = none ∧ h.stop = false
  attended : h.stop → h.data = none → inside = some false
  closed : h.closed → h.data = none
  closing : h.closing → h.closed
  saved : h.stop ∨ inside = some true → h.saved
  started : h.started ↔ h.stop ∨ inside = some true
  alternates : Alternates h.log
  found : .stop false ∉ h.log

theorem sound_new : Sound (Handle.new : Handle T) none where
  held := by simp [Handle.new]
  ended := by simp
  attended := by simp [Handle.new]
  closed := by simp [Handle.new]
  closing := by simp [Handle.new]
  saved := by simp [Handle.new]
  started := by simp [Handle.new, Handle.started]
  alternates := ⟨List.IsChain.nil, by simp [Handle.new]⟩
  found := by simp [Handle.new]

namespace Sound
variable {h : Handle T} {inside : Option Bool}

theorem going (sound : Sound h inside) (waits : h.data.isSome) :
    h.stop = true ∧ inside ≠ some true := by
  refine ⟨sound.held waits, fun ended => ?_⟩
  rw [(sound.ended ended).1] at waits
  cases waits

/-- Another coroutine waits on a handle that was left started. -/
theorem wait (sound : Sound h inside) (opened : h.closed = false) (stop : h.stop = true)
    (step : Option Step) (t : T) :
    Sound (Handle.suspend { h with step := step } t) inside where
  held := fun _ => stop
  ended := fun ended => absurd ((sound.ended ended).2.symm.trans stop) Bool.false_ne_true
  attended := fun _ none => by cases none
  closed := fun closed => absurd (opened.symm.trans closed) Bool.false_ne_true
  closing := sound.closing
  saved := sound.saved
  started := sound.started
  alternates := sound.alternates
  found := sound.found

theorem start (sound : Sound h inside) (opened : h.closed = false) (stop : h.stop = false)
    (outside : inside ≠ some true) (step : Step) (t : T) :
    Sound ((h.start step).suspend t) inside where
  held := fun _ => rfl
  ended := fun ended => absurd ended outside
  attended := fun _ none => by cases none
  closed := fun closed => absurd (opened.symm.trans closed) Bool.false_ne_true
  closing := sound.closing
  saved := fun _ => rfl
  started := by simp [Handle.started, Handle.start, Handle.suspend]
  alternates := by
    refine sound.alternates.start fun started => ?_
    have going := sound.started.mp (decide_eq_true started)
    simp [stop, outside] at going
  found := by simp [Handle.start, Handle.suspend, sound.found]

/-- `start` fails. -/
theorem refuse (sound : Sound h inside) (stop : h.stop = false) (outside : inside ≠ some true) :
    Sound { h with step := none, saved := false } inside where
  held := sound.held
  ended := sound.ended
  attended := sound.attended
  closed := sound.closed
  closing := sound.closing
  saved := by simp [stop, outside]
  started := sound.started
  alternates := sound.alternates
  found := sound.found

theorem notify (sound : Sound h none) (waits : h.data.isSome) (step : Step) (e : Event) :
    Sound (h.notify step e).wake (some (e = .eof)) where
  held := nofun
  ended := fun eof => ⟨rfl, by simp_all [Handle.notify, Handle.wake]⟩
  attended := by simp [Handle.notify, Handle.wake]
  closed := fun _ => rfl
  closing := sound.closing
  saved := fun _ => sound.saved (Or.inl (sound.held waits))
  started := by
    have started := sound.started.mpr (Or.inl (sound.held waits))
    have stop := sound.held waits
    simp only [Handle.started, decide_eq_true_eq] at started
    simp only [Handle.started, Handle.notify, Handle.wake, started, stop, decide_true, true_and, true_iff]
    by_cases eof : e = .eof
    · simp [eof]
    · simp [eof]
  alternates := sound.alternates
  found := sound.found

theorem stopudhdl {inside' : Option Bool} (sound : Sound h inside)
    (going : h.stop ∨ inside = some true) (outside : inside' ≠ some true) (fails : Bool) :
    Sound (h.wake.stopudhdl fails) inside' := by
  have started := sound.started.mpr going
  have saved := sound.saved going
  have log : (h.wake.stopudhdl fails).log = h.log ++ [.stop true] := by
    simp [Handle.stopudhdl, Handle.wake, saved]
  have data : (h.wake.stopudhdl fails).data = none := by
    simp only [Handle.stopudhdl]
    split_ifs <;> rfl
  refine ⟨by simp [data], fun ended => absurd ended outside, nofun, fun _ => data, ?_, ?_, ?_, ?_,
    ?_⟩
  · simp only [Handle.stopudhdl]
    split_ifs
    · exact fun _ => rfl
    · exact sound.closing
    · exact sound.closing
  · simp [outside, Handle.stopudhdl]
  · simp [Handle.started, outside, Handle.stopudhdl]
  · rw [log]
    exact sound.alternates.stop (of_decide_eq_true started) true
  · simp [log, sound.found]

theorem close (sound : Sound h inside) (data : h.data = none) : Sound h.close inside where
  held := sound.held
  ended := sound.ended
  attended := sound.attended
  closed := fun _ => data
  closing := fun _ => rfl
  saved := fun _ => rfl
  started := sound.started
  alternates := sound.alternates
  found := sound.found

/-- The callback of `uv_close` comes when nothing is left to stop. -/
theorem free (sound : Sound h none) (closing : h.closing = true) :
    Sound { h with saved := false, closing := false } none where
  held := sound.held
  ended := sound.ended
  attended := sound.attended
  closed := sound.closed
  closing := nofun
  saved := by
    rintro (stop | none)
    · cases sound.attended stop (sound.closed (sound.closing closing))
    · cases none
  started := sound.started
  alternates := sound.alternates
  found := sound.found

/-- The callback ends with a coroutine that waits on the object. -/
theorem outside (sound : Sound h inside) (waits : h.data.isSome) : Sound h none := by
  obtain ⟨stop, away⟩ := sound.going waits
  have data : h.data ≠ none := fun none => by simp [none] at waits
  refine ⟨sound.held, nofun, fun _ none => absurd none data, sound.closed, sound.closing,
    fun _ => sound.saved (Or.inl stop), ?_, sound.alternates, sound.found⟩
  rw [sound.started]
  simp [away]

end Sound

section
variable {data : O → Option T} {suspended : T → Option O}

/-- Each coroutine is suspended on the object it is the coroutine of. -/
def Waiting (data : O → Option T) (suspended : T → Option O) : Prop :=
  ∀ o t, data o = some t ↔ suspended t = some o

variable [DecidableEq O] [DecidableEq T]

theorem Waiting.schedule (waiting : Waiting data suspended) {o : O} {t : T} (unused : data o = none)
    (runs : suspended t = none) :
    Waiting (Function.update data o (some t)) (Function.update suspended t (some o)) := by
  intro p u
  by_cases here : p = o
  · subst p
    by_cases mine : u = t
    · simp [mine]
    · have others := waiting o u
      rw [unused] at others
      simpa [Function.update_of_ne mine, Ne.symm mine] using others
  · by_cases mine : u = t
    · subst u
      have others := waiting p t
      rw [runs] at others
      simpa [Function.update_of_ne here, Ne.symm here] using others
    · simpa [Function.update_of_ne here, Function.update_of_ne mine] using waiting p u

theorem Waiting.wake (waiting : Waiting data suspended) {o : O} {t : T} (waits : data o = some t) :
    Waiting (Function.update data o none) (Function.update suspended t none) := by
  intro p u
  by_cases here : p = o
  · subst p
    by_cases mine : u = t
    · simp [mine]
    · have others := waiting o u
      rw [waits] at others
      simpa [Function.update_of_ne mine, Ne.symm mine] using others
  · by_cases mine : u = t
    · subst u
      have others := waiting p t
      rw [(waiting o t).mp waits] at others
      simpa [Function.update_of_ne here, Ne.symm here] using others
    · simpa [Function.update_of_ne here, Function.update_of_ne mine] using waiting p u

omit [DecidableEq T] in
theorem Waiting.keep (waiting : Waiting data suspended) {o : O} {d : Option T}
    (same : d = data o) : Waiting (Function.update data o d) suspended := by
  rw [same, Function.update_eq_self]
  exact waiting

end

/-- So many of the things are marked. -/
def Counts (marked : O → Bool) (n : ℤ) : Prop :=
  ∃ F : Finset O, (∀ o, o ∈ F ↔ marked o) ∧ n = F.card

theorem Counts.nonneg {marked : O → Bool} {n : ℤ} (counts : Counts marked n) : 0 ≤ n := by
  obtain ⟨F, -, rfl⟩ := counts
  exact Int.natCast_nonneg _

theorem Counts.eq_zero {marked : O → Bool} {n : ℤ} (counts : Counts marked n)
    (unmarked : ∀ o, marked o = false) : n = 0 := by
  obtain ⟨F, members, rfl⟩ := counts
  have empty : F = ∅ := Finset.eq_empty_of_forall_notMem fun o member =>
    absurd ((unmarked o).symm.trans ((members o).mp member)) Bool.false_ne_true
  simp [empty]

theorem Counts.mark [DecidableEq O] {marked : O → Bool} {n : ℤ} (counts : Counts marked n) {o : O}
    (unmarked : marked o = false) : Counts (Function.update marked o true) (n + 1) := by
  obtain ⟨F, members, rfl⟩ := counts
  have fresh : o ∉ F := fun member =>
    absurd (unmarked.symm.trans ((members o).mp member)) Bool.false_ne_true
  refine ⟨insert o F, fun p => ?_, by simp [Finset.card_insert_of_notMem fresh]⟩
  by_cases here : p = o
  · simp [here]
  · simp [here, members p]

theorem Counts.unmark [DecidableEq O] {marked : O → Bool} {n : ℤ} (counts : Counts marked n) {o : O}
    (mark : marked o = true) : Counts (Function.update marked o false) (n - 1) := by
  obtain ⟨F, members, rfl⟩ := counts
  have held : o ∈ F := (members o).mpr mark
  have positive := Finset.card_pos.mpr ⟨o, held⟩
  refine ⟨F.erase o, fun p => ?_, by rw [Finset.card_erase_of_mem held]; omega⟩
  by_cases here : p = o
  · simp [here]
  · simp [here, members p]

theorem Counts.keep [DecidableEq O] {marked : O → Bool} {n : ℤ} (counts : Counts marked n) {o : O}
    {mark : Bool} (same : mark = marked o) : Counts (Function.update marked o mark) n := by
  rw [same, Function.update_eq_self]
  exact counts

/-- Nothing is read at the end of the stream before its callback ends; a callback does not end
with the handle stopped in it and nobody waiting; and no coroutine is left to wait on an object
that is closed. -/
def Orderly (s : State O T) : Act O T → Prop
  | .reset o _ _ yieldable _ => s.callback = some (o, true) → (s.handle o).closed ∨ ¬yieldable
  | .leave _ =>
    match s.frames with
    | .callback o false :: _ => (s.handle o).data = none → (s.handle o).stop
    | .closing o :: _ => (s.handle o).data = none
    | _ => True
  | _ => True

instance [DecidableEq O] [DecidableEq T] (s : State O T) (a : Act O T) : Decidable (Orderly s a) :=
  match a with
  | .reset o _ _ yieldable _ =>
    inferInstanceAs (Decidable (s.callback = some (o, true) → (s.handle o).closed ∨ ¬yieldable))
  | .event _ _ _ => isTrue trivial
  | .resume _ _ => isTrue trivial
  | .close _ _ => isTrue trivial
  | .closed _ => isTrue trivial
  | .leave _ =>
    match top : s.frames with
    | [] => isTrue (by simp [Orderly, top])
    | .callback _ true :: _ => isTrue (by simp [Orderly, top])
    | .callback o false :: _ =>
      decidable_of_iff ((s.handle o).data = none → (s.handle o).stop) (by simp [Orderly, top])
    | .closing o :: _ => decidable_of_iff ((s.handle o).data = none) (by simp [Orderly, top])

variable [DecidableEq O]

/-- The callback of the object that is under way. -/
def inside (s : State O T) (o : O) : Option Bool :=
  s.callback.bind fun c => if c.1 = o then some c.2 else none

structure Paired (s : State O T) : Prop where
  sound : ∀ o, Sound (s.handle o) (inside s o)
  waiting : Waiting (fun o => (s.handle o).data) s.suspended
  single : (s.frames.filterMap Frame.callback?).length ≤ 1
  counted : Counts (fun o => (s.handle o).started) s.nactive

theorem inside_eq {s : State O T} {o : O} {eof : Bool} :
    inside s o = some eof ↔ s.callback = some (o, eof) := by
  unfold inside
  cases s.callback with
  | none => simp
  | some c =>
    obtain ⟨p, b⟩ := c
    by_cases here : p = o
    · simp [here]
    · simp [here]

theorem inside_of_ne {s : State O T} {o p : O} {eof : Bool} (callback : s.callback = some (o, eof))
    (other : p ≠ o) : inside s p = none := by
  simp [inside, callback, Ne.symm other]

theorem paired_initial : Paired (initial : State O T) where
  sound := fun _ => sound_new
  waiting := by simp [Waiting, initial, Handle.new]
  single := by simp [initial]
  counted := ⟨∅, by simp [initial, Handle.new, Handle.started], rfl⟩

theorem fun_update {β : Type} {handle : O → Handle T} (f : Handle T → β) (o : O) (h : Handle T) :
    (fun p => f (Function.update handle o h p)) =
      Function.update (fun p => f (handle p)) o (f h) := by
  funext p
  by_cases here : p = o
  · simp [here]
  · simp [Function.update_of_ne here]

/-- A step changes one object. -/
theorem Paired.change {s s' : State O T} {o : O} {h : Handle T} (paired : Paired s)
    (handle : s'.handle = Function.update s.handle o h)
    (others : ∀ p, p ≠ o → inside s' p = inside s p) (sound : Sound h (inside s' o))
    (waiting : Waiting (Function.update (fun p => (s.handle p).data) o h.data) s'.suspended)
    (single : (s'.frames.filterMap Frame.callback?).length ≤ 1)
    (counted : Counts (Function.update (fun p => (s.handle p).started) o h.started) s'.nactive) :
    Paired s' := by
  refine ⟨fun p => ?_, ?_, single, ?_⟩
  · rw [handle]
    by_cases here : p = o
    · subst p
      simpa using sound
    · rw [Function.update_of_ne here, others p here]
      exact paired.sound p
  · rw [handle, fun_update Handle.data]
    exact waiting
  · rw [handle, fun_update Handle.started]
    exact counted

variable {s s' : State O T} {o : O} {t : T}

/-- A started object is stopped. -/
theorem Paired.stopped {fails : Bool} (paired : Paired s)
    (handle : s'.handle =
      Function.update s.handle o ((s.handle o).wake.stopudhdl fails))
    (nactive : s'.nactive = s.nactive - 1)
    (others : ∀ p, p ≠ o → inside s' p = inside s p) (outside : inside s' o ≠ some true)
    (going : (s.handle o).stop ∨ inside s o = some true)
    (waiting : Waiting (Function.update (fun p => (s.handle p).data) o none) s'.suspended)
    (single : (s'.frames.filterMap Frame.callback?).length ≤ 1) : Paired s' := by
  have sound := (paired.sound o).stopudhdl going outside fails
  refine paired.change handle others sound ?_ single ?_
  · have data : ((s.handle o).wake.stopudhdl fails).data = none := by
      simp only [Handle.stopudhdl]
      split_ifs <;> rfl
    rw [data]
    exact waiting
  · have unmarked : ((s.handle o).wake.stopudhdl fails).started = false := by
      simp [Handle.stopudhdl, Handle.started]
    rw [unmarked, nactive]
    exact paired.counted.unmark ((paired.sound o).started.mpr going)

theorem Paired.last {frames : List (Frame O)} {eof : Bool} (paired : Paired s)
    (top : s.frames = .callback o eof :: frames) :
    frames.filterMap Frame.callback? = [] ∧ s.callback = some (o, eof) := by
  have single := paired.single
  have callbacks : s.frames.filterMap Frame.callback? =
      (o, eof) :: frames.filterMap Frame.callback? := by
    rw [top]
    rfl
  rw [callbacks] at single
  refine ⟨List.eq_nil_of_length_eq_zero (by simpa using single), ?_⟩
  rw [State.callback, callbacks]
  rfl

theorem Paired.push_closing (paired : Paired s) (o : O) :
    Paired { s with frames := .closing o :: s.frames } :=
  ⟨paired.sound, paired.waiting, paired.single, paired.counted⟩

theorem Paired.pop_closing {frames : List (Frame O)} (paired : Paired s)
    (top : s.frames = .closing o :: frames) : Paired { s with frames := frames } := by
  have callbacks : s.frames.filterMap Frame.callback? = frames.filterMap Frame.callback? := by
    rw [top]
    rfl
  have same (p : O) : inside { s with frames := frames } p = inside s p := by
    simp only [inside, State.callback, callbacks]
  refine ⟨fun p => ?_, paired.waiting, ?_, paired.counted⟩
  · rw [same]
    exact paired.sound p
  · rw [← callbacks]
    exact paired.single

theorem Paired.close (paired : Paired s) (unused : (s.handle o).data = none) :
    Paired (s.put o (s.handle o).close) :=
  paired.change rfl (fun _ _ => rfl) ((paired.sound o).close unused) (paired.waiting.keep rfl)
    paired.single (paired.counted.keep rfl)

/-- A callback ends with a coroutine that waits on the object. -/
theorem Paired.pop_callback {frames : List (Frame O)} {eof : Bool} (paired : Paired s)
    (top : s.frames = .callback o eof :: frames) (waits : (s.handle o).data.isSome) :
    Paired { s with frames := frames } := by
  obtain ⟨last, here⟩ := paired.last top
  have sound := paired.sound o
  refine ⟨fun p => ?_, paired.waiting, by simp [last], paired.counted⟩
  have outside : inside { s with frames := frames } p = none := by simp [inside, State.callback, last]
  rw [outside]
  by_cases same : p = o
  · subst p
    exact sound.outside waits
  · have sound := paired.sound p
    rwa [inside_of_ne here same] at sound

variable [DecidableEq T]

theorem Paired.reset {step : Step} {yieldable starts : Bool} (paired : Paired s)
    (orderly : Orderly s (.reset o t step yieldable starts)) (runs : s.suspended t = none)
    (result : lcuT_resetudhdlk s o t step yieldable starts = .ok s') : Paired s' := by
  have sound := paired.sound o
  simp only [lcuT_resetudhdlk] at result
  split_ifs at result with closed used yields stop started
  · cases result
    rw [Bool.not_eq_true] at closed
    have unused : (s.handle o).data = none := by simpa using used
    refine paired.change (o := o) (h := Handle.suspend { s.handle o with step := some step } t)
      (by simp [State.scheduleudhdlk, State.put]) (fun _ _ => rfl) (sound.wait closed stop _ t)
      (paired.waiting.schedule unused runs) paired.single (paired.counted.keep rfl)
  all_goals
    cases result
    rw [Bool.not_eq_true] at closed stop
    have unused : (s.handle o).data = none := by simpa using used
    have outside : inside s o ≠ some true := by
      intro ended
      obtain refused | refused := orderly (inside_eq.mp ended)
      · exact absurd (closed.symm.trans refused) Bool.false_ne_true
      · exact refused yields
  · have idle : (s.handle o).started = false := by
      refine Bool.eq_false_of_not_eq_true fun started => ?_
      have going := sound.started.mp started
      simp [stop, outside] at going
    refine paired.change (o := o) (h := ((s.handle o).start step).suspend t)
      (by simp [State.scheduleudhdlk, State.put]) (fun _ _ => rfl)
      (sound.start closed stop outside step t) (paired.waiting.schedule unused runs) paired.single ?_
    have marked : (((s.handle o).start step).suspend t).started = true := by
      simp [Handle.start, Handle.suspend, Handle.started]
    rw [marked]
    exact paired.counted.mark idle
  · exact paired.change (o := o) (h := { s.handle o with step := none, saved := false }) rfl
      (fun _ _ => rfl) (sound.refuse stop outside) (paired.waiting.keep rfl) paired.single
      (paired.counted.keep rfl)

theorem Paired.cancel (paired : Paired s) (waits : (s.handle o).data = some t) (fails : Bool) :
    Paired (s.cancel o t fails) := by
  obtain ⟨stop, outside⟩ := (paired.sound o).going (by simp [waits])
  have handle : (s.cancel o t fails).handle =
      Function.update s.handle o ((s.handle o).wake.stopudhdl fails) := by
    simp [State.cancel, State.stopudhdl, State.wake, State.put]
  exact paired.stopped handle rfl (fun _ _ => rfl) outside (Or.inl stop)
    (paired.waiting.wake waits) paired.single

theorem Paired.event {e : Event} {again : Bool} (paired : Paired s)
    (notified : event s o e again = some s') : Paired s' := by
  simp only [ObjectHandle.event] at notified
  split at notified
  · cases notified
  rename_i free
  obtain ⟨idle, opened⟩ := not_or.mp free
  rw [Bool.not_eq_true, Option.isSome_eq_false_iff, Option.isNone_iff_eq_none] at idle
  rw [Bool.not_eq_true] at opened
  have callbacks : s.frames.filterMap Frame.callback? = [] := List.head?_eq_none_iff.mp idle
  have outside (p : O) : inside s p = none := by simp [inside, idle]
  split at notified
  · split_ifs at notified
    cases notified
    exact paired
  · cases notified
  · rename_i t step waits stepped
    split_ifs at notified with fits
    cases notified
    have sound := paired.sound o
    rw [outside] at sound
    have notified := sound.notify (by simp [waits]) step e
    have callback : State.callback { (s.put o ((s.handle o).notify step e)).endudhdlk o t again with
        frames := .callback o (e = .eof) :: s.frames } = some (o, decide (e = .eof)) := rfl
    have single : ((Frame.callback o (decide (e = .eof)) :: s.frames).filterMap
        Frame.callback?).length ≤ 1 := by
      simp [callbacks, Frame.callback?]
    have sound_of {h : Handle T} (sound : Sound h (some (e = .eof))) :
        Sound h (inside { (s.put o ((s.handle o).notify step e)).endudhdlk o t again with
          frames := .callback o (e = .eof) :: s.frames } o) := by
      rwa [inside_eq.mpr callback]
    have others (p : O) (other : p ≠ o) :
        inside { (s.put o ((s.handle o).notify step e)).endudhdlk o t again with
          frames := .callback o (e = .eof) :: s.frames } p = inside s p := by
      rw [outside, inside_of_ne callback other]
    have waiting := paired.waiting.wake waits
    cases again with
    | false =>
      exact paired.change (by simp [State.endudhdlk, State.wake, State.put]) others
        (sound_of notified) waiting single (paired.counted.keep rfl)
    | true =>
      have going : ((s.handle o).notify step e).wake.stop = true := by
        have stop := sound.held (by simp [waits])
        obtain rfl | rfl := fits.2.2 rfl
        · simp [Handle.notify, Handle.wake, stop]
        · simp [Handle.notify, Handle.wake, stop]
      have again := waiting.schedule (o := o) (t := t) (by simp) (by simp)
      rw [Function.update_idem] at again
      exact paired.change (h := ((s.handle o).notify step e).wake.suspend t)
        (by simp [State.endudhdlk, State.scheduleudhdlk, State.wake, State.put]) others
        (sound_of (notified.wait opened going _ t)) again single
        (paired.counted.keep rfl)

omit [DecidableEq T] in
theorem Paired.leave {frame : Frame O} {frames : List (Frame O)} {fails : Bool} (paired : Paired s)
    (orderly : Orderly s (.leave fails)) (top : s.frames = frame :: frames) :
    Paired (leave { s with frames := frames } fails frame) := by
  cases frame with
  | callback o eof =>
    simp only [ObjectHandle.leave]
    split_ifs with unused
    · have going : (s.handle o).stop ∨ inside s o = some true := by
        cases eof with
        | true => exact Or.inr (inside_eq.mpr (paired.last top).2)
        | false =>
          simp only [Orderly, top] at orderly
          exact Or.inl (orderly unused)
      obtain ⟨last, here⟩ := paired.last top
      have outside (p : O) : inside
          (State.stopudhdl { s with frames := frames } o fails) p = none := by
        simp [inside, State.callback, State.stopudhdl, State.put, last]
      have awake : (s.handle o).wake = s.handle o := by
        rw [Handle.wake, ← unused]
      refine paired.stopped (by rw [awake]; rfl) rfl (fun p other => ?_) (by simp [outside]) going
        (paired.waiting.keep unused.symm) (by simp [State.stopudhdl, State.put, last])
      rw [outside, inside_of_ne here other]
    · exact paired.pop_callback top (Option.isSome_iff_ne_none.mpr unused)
  | closing o =>
    simp only [Orderly, top] at orderly
    exact (paired.pop_closing top).close orderly

theorem Paired.step {a : Act O T} (paired : Paired s) (orderly : Orderly s a)
    (stepped : step s a = some s') : Paired s' := by
  cases a with
  | reset o t step yieldable starts =>
    simp only [ObjectHandle.step] at stepped
    split_ifs at stepped with runs
    split at stepped
    · cases stepped
      exact paired
    · rename_i u result
      cases stepped
      exact paired.reset orderly runs result
  | event o e again => exact paired.event stepped
  | resume t fails =>
    obtain ⟨o, waits, rfl⟩ := Option.map_eq_some_iff.mp stepped
    exact paired.cancel ((paired.waiting o t).mpr waits) fails
  | close o fails =>
    simp only [ObjectHandle.step, lcu_closeudhdl] at stepped
    split_ifs at stepped with closed
    · cases stepped
      exact paired
    · split at stepped
      · rename_i unused
        cases stepped
        exact paired.close unused
      · rename_i t waits
        cases stepped
        exact (paired.cancel waits fails).push_closing o
  | leave fails =>
    simp only [ObjectHandle.step] at stepped
    split at stepped
    · cases stepped
    · rename_i frame frames top
      cases stepped
      exact paired.leave orderly top
  | closed o =>
    simp only [ObjectHandle.step] at stepped
    split_ifs at stepped with closes
    cases stepped
    have outside : inside s o = none := by simp [inside, closes.2]
    have sound := paired.sound o
    rw [outside] at sound
    refine paired.change rfl (fun _ _ => rfl) ?_ (paired.waiting.keep rfl) paired.single
      (paired.counted.keep rfl)
    change Sound _ (inside s o)
    rw [outside]
    exact sound.free closes.1

/-- In a run that is orderly, the starts and stops of each object come in pairs, `sched->nactive`
counts the objects between the two, the coroutine of an object is the one suspended on it, and an
object that is stopped is found in the registry. -/
theorem started_stopped_in_pairs {acts : List (Act O T)} (ran : run step initial acts = some s)
    (along : Along step Orderly initial acts) :
    (∀ o, Alternates (s.handle o).log ∧ .stop false ∉ (s.handle o).log ∧
      ∀ t, (s.handle o).data = some t ↔ s.suspended t = some o) ∧
    Counts (fun o => (s.handle o).started) s.nactive ∧ 0 ≤ s.nactive ∧
    (s.callback = none → (∀ t, s.suspended t = none) → s.nactive = 0) := by
  have paired : Paired s := run_invariant_along Paired Orderly
    (fun _ _ _ paired orderly stepped => paired.step orderly stepped) paired_initial along ran
  refine ⟨fun o => ⟨(paired.sound o).alternates, (paired.sound o).found, paired.waiting o⟩,
    paired.counted, paired.counted.nonneg, fun outside resumed => ?_⟩
  refine paired.counted.eq_zero fun o => Bool.eq_false_of_not_eq_true fun started => ?_
  have away : inside s o = none := by simp [inside, outside]
  have sound := paired.sound o
  rw [away] at sound
  have unused : (s.handle o).data = none := by
    cases data : (s.handle o).data with
    | none => rfl
    | some t => cases (resumed t).symm.trans ((paired.waiting o t).mp data)
  obtain stop | ended := sound.started.mp started
  · cases sound.attended stop unused
  · cases ended

/-- Coroutine 8 reads on what was started for coroutine 7, up to the end of the stream. -/
theorem started_stopped_in_pairs_nested :
    ∃ s : State ℕ ℕ,
      run step initial [.reset 0 7 .recvdata true true, .event 0 .received false,
        .reset 0 8 .recvdata true true, .leave false, .event 0 .eof false, .leave false] = some s ∧
      (s.handle 0).log = [.start, .stop true] ∧ s.nactive = 0 ∧ Alternates (s.handle 0).log := by
  have ran : run (step : State ℕ ℕ → Act ℕ ℕ → Option (State ℕ ℕ)) initial
      [.reset 0 7 .recvdata true true, .event 0 .received false, .reset 0 8 .recvdata true true,
        .leave false, .event 0 .eof false, .leave false] = some _ := rfl
  exact ⟨_, ran, rfl, rfl, ((started_stopped_in_pairs ran (by decide)).1 0).1⟩

/-- Coroutine 7 reads again at the end of the stream; or it cancels the read of coroutine 8 that
was made in the callback. -/
theorem not_in_pairs :
    (¬∀ (acts : List (Act ℕ ℕ)) (s : State ℕ ℕ), run step initial acts = some s →
      Counts (fun o => (s.handle o).started) s.nactive) ∧
    ¬∀ (acts : List (Act ℕ ℕ)) (s : State ℕ ℕ), run step initial acts = some s →
      ∀ o, .stop false ∉ (s.handle o).log := by
  refine ⟨fun claim => ?_, fun claim => ?_⟩
  · have ran : run (step : State ℕ ℕ → Act ℕ ℕ → Option (State ℕ ℕ)) initial
        [.reset 0 7 .recvdata true true, .event 0 .eof false, .reset 0 7 .recvdata true true] =
      some _ := rfl
    obtain ⟨F, members, count⟩ := claim _ _ ran
    have one : F ⊆ {0} := by
      intro o member
      by_contra other
      rw [Finset.mem_singleton] at other
      have started := (members o).mp member
      simp [State.scheduleudhdlk, State.put, State.endudhdlk, State.wake, other, initial, Handle.new,
        Handle.started] at started
    have few := Finset.card_le_card one
    have two : (2 : ℤ) = F.card := count
    simp only [Finset.card_singleton] at few
    omega
  · have ran : run (step : State ℕ ℕ → Act ℕ ℕ → Option (State ℕ ℕ)) initial
        [.reset 0 7 .recvdata true true, .event 0 .received false, .reset 0 8 .recvdata true true,
          .resume 8 false, .leave false] = some _ := rfl
    exact absurd (claim _ _ ran 0) (by decide)

end Coutil.ObjectPairing
