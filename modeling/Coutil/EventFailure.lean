import Coutil.EventAttempt
import Coutil.EventRefinement

set_option autoImplicit false

/-! Await calls that raise an error. They fail before they register the coroutine, except
when a value that is no table key comes after one that is. -/
namespace Coutil.EventFailure
open Runs EventRegistry EventSystem EventInvariant EventPreservation EventRefinement EventAttempt

section
variable {V T : Type}

variable [DecidableEq V]

/-- Some argument is NaN only if the first one that is not nil is. -/
def LeadingNan (args : List (Val V)) : Prop :=
  .nan ∈ args → args.find? (fun event => event ≠ .nil) = some .nan

instance (args : List (Val V)) : Decidable (LeadingNan args) :=
  inferInstanceAs (Decidable (_ → _))

theorem leadingNan_nil {args : List (Val V)} : LeadingNan (.nil :: args) ↔ LeadingNan args := by
  simp [LeadingNan]

theorem leadingNan_nan {args : List (Val V)} : LeadingNan (.nan :: args) := by
  simp [LeadingNan]

theorem leadingNan_single (event : Val V) : LeadingNan [event] := by
  intro member
  obtain rfl : .nan = event := by simpa using member
  rfl

section
variable {R : Type}

/-- The call fails at once because the caller cannot yield, or else its first argument that
is not nil is NaN if any is. -/
def Clean (s : State R V T) (a : Act V T) : Prop :=
  s.control.yieldable → LeadingNan (arguments a)

instance (s : State R V T) (a : Act V T) : Decidable (Clean s a) :=
  inferInstanceAs (Decidable (_ → _))

end

/-- The lists are those before the call, and the caller is in none of the arguments'. -/
structure Unchanged (s u : State (Registry V T) V T) (a : Act V T) : Prop where
  listof : u.registry.listof = s.registry.listof
  lists : u.registry.lists = s.registry.lists
  unregistered : ∀ event ∈ arguments a, ∀ list, u.registry.listof event = some list →
    (u.registry.lists list).next s.control.running = none

variable [DecidableEq T]

theorem nan_kept : Kept (registryLists : Lists V T (Registry V T)) (fun _ => True)
    (fun r => r.listof .nan = none) where
  add {r event thread r' list} _ holds added := by
    simp only [registryLists, addthread] at added
    cases found : r.listof event with
    | none =>
      rw [found] at added
      cases event with
      | nil => cases added
      | nan => cases added
      | _ =>
        cases added
        simpa using holds
    | some l =>
      simp only [found] at added
      split at added
      · cases added
        exact holds
      · cases added
        exact holds
  remove {fuel r event thread list r'} holds removed := by
    simp only [registryLists, removethread] at removed
    split at removed
    · cases removed
    · cases removed
      dsimp only
      split
      · by_cases same : Val.nan = event
        · simp [same]
        · simpa [same] using holds
      · exact holds
  detach {r event} holds := by
    by_cases same : Val.nan = event
    · simp [registryLists, EventRegistry.detach, same]
    · simpa [registryLists, EventRegistry.detach, same] using holds
  unlinkhead {r list head r'} holds popped := by
    simp only [registryLists, unlinkhead] at popped
    split at popped
    · cases popped
    · cases popped
      exact holds
  unlinkone {r event list head r'} holds found popped := by
    simp only [registryLists, unlinkone] at popped
    split at popped
    · cases popped
    · cases popped
      dsimp only
      split
      · by_cases same : Val.nan = event
        · simp [same]
        · simpa [same] using holds
      · exact holds

/-- Only the events that a call registers its caller for are installed. -/
theorem installed_kept (E : Val V → Prop) :
    Kept (registryLists : Lists V T (Registry V T)) E (fun r => ∀ e, r.listof e ≠ none → E e) where
  add {r event thread r' list} allowed holds added := by
    simp only [registryLists, addthread] at added
    have new : ∀ l e, Function.update r.listof event (some l) e ≠ none → E e := by
      intro l e found
      by_cases same : e = event
      · exact same ▸ allowed
      · exact holds e (by simpa [same] using found)
    cases found : r.listof event with
    | none =>
      rw [found] at added
      cases event with
      | nil => cases added
      | nan => cases added
      | _ =>
        cases added
        exact new r.fresh
    | some l =>
      simp only [found] at added
      split at added
      · cases added
        exact holds
      · cases added
        exact holds
  remove {fuel r event thread list r'} holds removed := by
    simp only [registryLists, removethread] at removed
    split at removed
    · cases removed
    · cases removed
      intro e found
      dsimp only at found
      split at found
      · by_cases same : e = event
        · simp [same] at found
        · exact holds e (by simpa [same] using found)
      · exact holds e found
  detach {r event} holds := by
    intro e found
    by_cases same : e = event
    · simp [registryLists, EventRegistry.detach, same] at found
    · exact holds e (by simpa [registryLists, EventRegistry.detach, same] using found)
  unlinkhead {r list head r'} holds popped := by
    simp only [registryLists, unlinkhead] at popped
    split at popped
    · cases popped
    · cases popped
      exact holds
  unlinkone {r event list head r'} holds found popped := by
    simp only [registryLists, unlinkone] at popped
    split at popped
    · cases popped
    · cases popped
      intro e installed
      dsimp only at installed
      split at installed
      · by_cases same : e = event
        · simp [same] at installed
        · exact holds e (by simpa [same] using installed)
      · exact holds e installed

theorem register_error_nan {q q' : Queues V T} {t : T} {as : List (Val V)} {msg : String}
    (raised : register queueLists t q as = .error (q', msg)) : .nan ∈ as := by
  induction as generalizing q with
  | nil => cases raised
  | cons e as ih =>
    by_cases nil : e = .nil
    · simp only [register, nil, if_true] at raised
      exact List.mem_cons_of_mem _ (ih raised)
    · rcases register_error_cases nil raised with ⟨added, -⟩ | ⟨q₁, list, -, raised⟩
      · rcases add_error added with isnil | isnan
        · exact absurd isnil nil
        · exact List.mem_cons.mpr (Or.inl isnan.symm)
      · exact List.mem_cons_of_mem _ (ih raised)

/-- The registrations made before the error stay. -/
theorem register_error_mono {q q' : Queues V T} {D : List (ℕ × Val V)} (queues : WellQueued q D)
    {t : T} {as : List (Val V)} {msg : String}
    (raised : register queueLists t q as = .error (q', msg)) {l : ℕ} (member : t ∈ q.queue l) :
    t ∈ q'.queue l := by
  induction as generalizing q with
  | nil => cases raised
  | cons e as ih =>
    by_cases nil : e = .nil
    · simp only [register, nil, if_true] at raised
      exact ih queues raised member
    · rcases register_error_cases nil raised with ⟨-, rfl⟩ | ⟨q₁, list, added, later⟩
      · exact member
      · cases list with
        | none =>
          obtain ⟨rfl, -⟩ := add_known added
          exact ih queues later member
        | some k =>
          apply ih (add_queues queues added) later
          exact ((add_moved queues added).2.1 l).mpr (Or.inl member)

/-- A value that is no key leaves the caller in a list unless it is the first value. -/
theorem register_error_inside {q q' : Queues V T} {D : List (ℕ × Val V)} (queues : WellQueued q D)
    {t : T} (free : ∀ l, t ∉ q.queue l) {as : List (Val V)} {msg : String}
    (raised : register queueLists t q as = .error (q', msg)) (late : ¬ LeadingNan as) :
    ∃ l, t ∈ q'.queue l := by
  induction as with
  | nil => cases raised
  | cons e as ih =>
    by_cases nil : e = .nil
    · subst e
      simp only [register, if_true] at raised
      rw [leadingNan_nil] at late
      exact ih raised late
    · rcases register_error_cases nil raised with ⟨added, -⟩ | ⟨q₁, list, added, raised⟩
      · rcases add_error added with isnil | isnan
        · exact absurd isnil nil
        · subst e
          exact absurd leadingNan_nan late
      · cases list with
        | none =>
          obtain ⟨-, l, member⟩ := add_known added
          exact absurd member (free l)
        | some k =>
          refine ⟨k, register_error_mono (add_queues queues added) raised ?_⟩
          exact ((add_moved queues added).2.1 k).mpr (Or.inr rfl)

section
variable {R : Type} {L : Lists V T R}

omit [DecidableEq T] in
/-- Nothing is registered before an error of the first value that is not nil. -/
theorem register_error_leading {r r' : R} {t : T} (nan : ∃ msg, L.add r .nan t = .error msg)
    {as : List (Val V)} (leading : as.find? (fun event => event ≠ .nil) = some .nan) {msg : String}
    (raised : register L t r as = .error (r', msg)) : r' = r := by
  induction as with
  | nil => cases raised
  | cons e as ih =>
    by_cases nil : e = .nil
    · subst e
      simp only [register, if_true] at raised
      exact ih (by simpa using leading) raised
    · obtain rfl : e = .nan := by simpa [nil] using leading
      rcases register_error_cases nil raised with ⟨-, same⟩ | ⟨r₁, list, added, -⟩
      · exact same
      · obtain ⟨msg', refused⟩ := nan
        rw [refused] at added
        cases added

omit [DecidableEq T] in
/-- A call that registers nothing of a caller in no list has only nil values. -/
theorem register_nothing {r r' : R} {t : T}
    (fresh : ∀ e r₁ list, L.add r e t = .ok (r₁, list) → list ≠ none) {as : List (Val V)}
    (registered : register L t r as = .ok (r', [])) : r' = r ∧ ∀ e ∈ as, e = .nil := by
  induction as with
  | nil =>
    cases registered
    exact ⟨rfl, by simp⟩
  | cons e as ih =>
    by_cases nil : e = .nil
    · simp only [register, nil, if_true] at registered
      simpa [nil] using ih registered
    · obtain ⟨r₁, list, rest, added, -, empty⟩ := register_ok_cases nil registered
      cases list with
      | none => exact absurd rfl (fresh e r₁ none added)
      | some list => simp at empty

/-- How a call of an await function raises an error, before the caller is suspended. -/
inductive Raised (L : Lists V T R) (s : State R V T) (a : Act V T) : State R V T → Prop
  | stuck (still : ¬ s.control.yieldable) : Raised L s a s
  | refused (event : Val V) (isawait : a = .await event) : Raised L s a s
  | registering {r : R} {msg : String} (yields : s.control.yieldable)
      (raised : register L s.control.running s.registry (arguments a) = .error (r, msg)) :
      Raised L s a { s with registry := r }
  | empty {r : R} (yields : s.control.yieldable)
      (registered : register L s.control.running s.registry (arguments a) = .ok (r, [])) :
      Raised L s a { s with registry := r }

theorem await_raised {s u : State R V T} {event : Val V} {msg : String}
    (raised : await L s event = .raised u msg) : Raised L s (.await event) u := by
  simp only [await] at raised
  split at raised
  · cases added : L.add s.registry event s.control.running with
    | error m =>
      rw [added] at raised
      cases raised
      exact .refused event rfl
    | ok p => simp [added] at raised
  · rename_i still
    cases raised
    exact .stuck still

theorem awaitall_raised {s u : State R V T} {args : List (Val V)} {msg : String}
    (raised : awaitall L s args = .raised u msg) : Raised L s (.awaitall args) u := by
  simp only [awaitall] at raised
  split at raised
  · rename_i yields
    cases registered : register L s.control.running s.registry args with
    | error e =>
      rw [registered] at raised
      cases raised
      exact .registering yields registered
    | ok p =>
      simp only [registered] at raised
      split at raised
      · cases raised
      · cases raised
  · rename_i still
    cases raised
    exact .stuck still

theorem awaitany_raised {s u : State R V T} {args : List (Val V)} {msg : String}
    (raised : awaitany L s args = .raised u msg) : Raised L s (.awaitany args) u := by
  simp only [awaitany] at raised
  split at raised
  · rename_i yields
    cases registered : register L s.control.running s.registry args with
    | error e =>
      rw [registered] at raised
      cases raised
      exact .registering yields registered
    | ok p =>
      obtain ⟨r, regs⟩ := p
      simp only [registered] at raised
      split at raised
      · rename_i none
        cases raised
        obtain rfl := List.length_eq_zero_iff.mp none
        exact .empty yields registered
      · cases raised
  · rename_i still
    cases raised
    exact .stuck still

end

/-- The calls that are not of an await function. -/
def Emits : Act V T → Prop
  | .await _ | .awaitall _ | .awaitany _ => False
  | _ => True

theorem emits_never_raises {s u : State (Queues V T) V T} (inv : Inv s) {fuel : ℕ} {a : Act V T}
    {msg : String} (emits : Emits a) : step queueLists fuel s a ≠ .raised u msg := by
  intro raised
  have never : ∀ {o : Outcome (State (Queues V T) V T)}, (∃ v, o = .next v ∧ Inv v) →
      o ≠ .raised u msg := by
    rintro o ⟨v, rfl, -⟩ h
    cases h
  cases loop : s.control.loop with
  | none =>
    simp only [step, loop] at raised
    cases a with
    | await event => exact emits
    | awaitall args => exact emits
    | awaitany args => exact emits
    | emitone event args =>
      simp only [call] at raised
      split at raised
      · rename_i owns
        exact never (emitone_inv inv loop (owns_secret inv.controlled owns) fuel) raised
      · cases raised
    | emitall event args =>
      simp only [call] at raised
      split at raised
      · rename_i owns
        exact never (emitall_inv inv loop (owns_secret inv.controlled owns) fuel) raised
      · cases raised
    | resume co args =>
      simp only [call] at raised
      split at raised
      · rename_i owns
        exact never (resume_inv inv loop (owns_secret inv.controlled owns) fuel co) raised
      · cases raised
    | yield args =>
      simp only [call] at raised
      split at raised
      · cases raised
      · cases raised
    | finish ok args =>
      simp only [call] at raised
      split at raised
      · cases raised
      · cases raised
    | iterate => cases raised
  | some p =>
    obtain ⟨l, e, as⟩ := p
    cases a with
    | iterate => exact never (iterate_inv inv loop fuel) raised
    | _ => simp [step, loop] at raised

/-- An error is one of an await call. -/
theorem related_awaits {s u : State (Registry V T) V T} {t : State (Queues V T) V T}
    (related : Related s t) {fuel : ℕ} {a : Act V T} {msg : String}
    (raised : step registryLists fuel s a = .raised u msg) : ¬ Emits a := by
  intro emits
  have simulated := step_refines related.refines related.inv.queues fuel a
  have same : s = ⟨s.registry, t.control⟩ := congrArg (State.mk s.registry) related.control
  rw [← same, raised] at simulated
  cases at_queues : step queueLists fuel ⟨t.registry, t.control⟩ a with
  | raised v m => exact emits_never_raises related.inv emits at_queues
  | _ =>
    rw [at_queues] at simulated
    cases simulated

theorem related_raised {s u : State (Registry V T) V T} {t : State (Queues V T) V T}
    (related : Related s t) {fuel : ℕ} {a : Act V T} {msg : String}
    (raised : step registryLists fuel s a = .raised u msg) : Raised registryLists s a u := by
  have awaits := related_awaits related raised
  cases loop : s.control.loop with
  | none =>
    simp only [step, loop] at raised
    cases a with
    | await event =>
      simp only [call] at raised
      split at raised
      · exact await_raised raised
      · cases raised
    | awaitall args =>
      simp only [call] at raised
      split at raised
      · exact awaitall_raised raised
      · cases raised
    | awaitany args =>
      simp only [call] at raised
      split at raised
      · exact awaitany_raised raised
      · cases raised
    | _ => exact absurd trivial awaits
  | some p =>
    cases a with
    | iterate => exact absurd trivial awaits
    | _ => simp [step, loop] at raised

omit [DecidableEq V] in
/-- The caller of a function is in no list. -/
theorem related_free {s : State (Registry V T) V T} {t : State (Queues V T) V T}
    (related : Related s t) (l : ℕ) : (s.registry.lists l).next s.control.running = none := by
  rw [(related.refines.lists l).next_none, related.control]
  exact active_free related.inv related.inv.controlled.running l

theorem raised_unchanged {s u : State (Registry V T) V T} {t : State (Queues V T) V T}
    (related : Related s t) (nan : s.registry.listof .nan = none) {a : Act V T}
    (raised : Raised registryLists s a u) (clean : Clean s a) : u = s := by
  have free := related_free related
  cases raised with
  | stuck still => rfl
  | refused event isawait => rfl
  | registering yields raised =>
    have member : .nan ∈ arguments a := by
      rcases register_refines related.refines related.inv.queues s.control.running (arguments a)
        with ⟨r', q', msg', -, failed, -⟩ | ⟨r', q', regs, registered, -, -⟩
      · exact register_error_nan failed
      · rw [registered] at raised
        cases raised
    have refused : ∃ msg, registryLists.add s.registry .nan s.control.running = .error msg := by
      simp [registryLists, addthread, nan]
    rw [register_error_leading refused (clean yields member) raised]
  | empty yields registered =>
    have fresh : ∀ e r₁ list, registryLists.add s.registry e s.control.running = .ok (r₁, list) →
        list ≠ none := by
      rintro e r₁ list added rfl
      simp only [registryLists, addthread] at added
      split at added
      · split at added <;> cases added
      · rename_i l found
        simp [free l] at added
    rw [(register_nothing fresh registered).1]

/-- A call that fails late leaves the caller in a list. -/
theorem raised_inside {s u : State (Registry V T) V T} {t : State (Queues V T) V T}
    (related : Related s t) {a : Act V T} (raised : Raised registryLists s a u)
    (late : ¬ Clean s a) : ∃ l, (u.registry.lists l).next s.control.running ≠ none := by
  obtain ⟨yields, late⟩ := Classical.not_imp.mp late
  have free : ∀ l, s.control.running ∉ t.registry.queue l := by
    rw [related.control]
    exact active_free related.inv related.inv.controlled.running
  cases raised with
  | stuck still => exact absurd yields still
  | refused event isawait =>
    subst a
    exact absurd (leadingNan_single event) late
  | registering yields raised =>
    rcases register_refines related.refines related.inv.queues s.control.running (arguments a)
      with ⟨r', q', msg', failed, failed', refines⟩ | ⟨r', q', regs, registered, -, -⟩
    · rw [failed] at raised
      cases raised
      obtain ⟨l, member⟩ := register_error_inside related.inv.queues free failed' late
      exact ⟨l, ((refines.lists l).keys _).mpr member⟩
    · rw [registered] at raised
      cases raised
  | empty yields registered =>
    have member : .nan ∈ arguments a := by
      by_contra absent
      exact late fun member => absurd member absent
    have fresh : ∀ e q₁ list, queueLists.add t.registry e s.control.running = .ok (q₁, list) →
        list ≠ none := by
      rintro e q₁ list added rfl
      obtain ⟨-, l, inside⟩ := add_known added
      exact free l inside
    rcases register_refines related.refines related.inv.queues s.control.running (arguments a)
      with ⟨r', q', msg', failed, -, -⟩ | ⟨r', q', regs, registered', registered'', -⟩
    · rw [failed] at registered
      cases registered
    · rw [registered'] at registered
      cases registered
      cases (register_nothing fresh registered'').2 .nan member

/-- What holds after every run whose failing calls fail before they register the caller. -/
structure Tidy (s : State (Registry V T) V T) : Prop where
  related : ∃ t, Related s t
  nan : s.registry.listof .nan = none

omit [DecidableEq V] in
theorem tidy_init (main : T) :
    Tidy (⟨Registry.empty, Control.init main⟩ : State (Registry V T) V T) :=
  ⟨⟨⟨Queues.empty, Control.init main⟩, refines_empty, rfl, init_inv main⟩, rfl⟩

theorem attempt_tidy {s u : State (Registry V T) V T} {a : ℕ × Act V T} (tidy : Tidy s)
    (clean : Clean s a.2) (stepped : attempt registryLists s a = some u) : Tidy u := by
  obtain ⟨t, related⟩ := tidy.related
  cases outcome : step registryLists a.1 s a.2 with
  | next v =>
    obtain rfl : v = u := by simpa [attempt, outcome, Outcome.state?] using stepped
    have taken : next registryLists s a = some v := by simp [next, outcome, Outcome.next?]
    obtain ⟨w, -, related'⟩ := next_related related taken
    have kept := step_kept nan_kept a.1 (a := a.2) (fun _ _ => trivial) tidy.nan
    rw [outcome] at kept
    exact ⟨⟨w, related'⟩, kept v rfl⟩
  | raised v msg =>
    obtain rfl : v = u := by simpa [attempt, outcome, Outcome.state?] using stepped
    rw [raised_unchanged related tidy.nan (related_raised related outcome) clean]
    exact tidy
  | diverged => simp [attempt, outcome, Outcome.state?] at stepped
  | disabled => simp [attempt, outcome, Outcome.state?] at stepped

def cleanly (s : State (Registry V T) V T) (a : ℕ × Act V T) : Prop := Clean s a.2

instance (s : State (Registry V T) V T) (a : ℕ × Act V T) : Decidable (cleanly s a) :=
  inferInstanceAs (Decidable (Clean s a.2))

theorem run_tidy {main : T} {acts : List (ℕ × Act V T)} {s : State (Registry V T) V T}
    (ran : run (attempt registryLists) ⟨Registry.empty, Control.init main⟩ acts = some s)
    (clean : Along (attempt registryLists) cleanly ⟨Registry.empty, Control.init main⟩ acts) :
    Tidy s :=
  run_invariant_along Tidy cleanly (fun _ _ _ tidy clean stepped => attempt_tidy tidy clean stepped)
    (tidy_init main) clean ran

end
end Coutil.EventFailure
