import Coutil.AwaitSemantics

set_option autoImplicit false

/-! Programs that resume a coroutine with a table whose `__eq` answers true to whatever it is
compared with. The await functions compare the first value that they are resumed with to
`listof` by `==`, so they take such a table for it. -/
namespace Coutil.TokenEquality
open Runs EventRegistry EventSystem EventInvariant EventPreservation EventRefinement EventAttempt
open EventFailure EventWake AwaitSemantics

section
variable {R V T : Type}

/-- The calls that leave their registrations to the emission that resumes them. -/
def keeps : Call V → Bool
  | .await .. | .awaitall .. => true
  | _ => false

def waits : Call V → Bool
  | .start | .user => false
  | _ => true

/-- An explicit resume out of such a call takes its first value for the token. -/
def mistaken (calls : Call V → Bool) (s : State R V T) (b : (ℕ × Act V T) × Bool) : Bool :=
  match b.1.2 with
  | .resume co (.ref _ :: _) =>
    match s.control.status co with
    | .suspended call => b.2 && calls call
    | _ => false
  | _ => false

variable [DecidableEq V] [DecidableEq T] (L : Lists V T R)

def nextequal (s : State R V T) (b : (ℕ × Act V T) × Bool) : Option (State R V T) :=
  (step L b.1.1 s b.1.2 b.2).next?

def attemptequal (s : State R V T) (b : (ℕ × Act V T) × Bool) : Option (State R V T) :=
  Outcome.state? (step L b.1.1 s b.1.2 b.2)

/-- No explicit resume out of these calls takes its first value for the token. -/
def apart (calls : Call V → Bool) (s : State R V T) (b : (ℕ × Act V T) × Bool) : Prop :=
  mistaken calls s b = false

instance (calls : Call V → Bool) (s : State R V T) (b : (ℕ × Act V T) × Bool) :
    Decidable (apart calls s b) :=
  inferInstanceAs (Decidable (_ = _))

variable {L} {s : State R V T} {fuel : ℕ}

omit [DecidableEq V] [DecidableEq T] in
theorem istoken_equal {equal : Bool} {values : List (Val V)}
    (plain : ∀ v rest, values = .ref v :: rest → equal = false) :
    istoken equal values = istoken false values := by
  cases values with
  | nil => rfl
  | cons value rest =>
    cases value with
    | ref v => rw [plain v rest rfl]
    | _ => rfl

omit [DecidableEq V] [DecidableEq T] in
theorem istoken_ref (equal : Bool) (v : V) (rest : List (Val V)) :
    istoken equal (.ref v :: rest) = equal := rfl

theorem resumed_equal {call : Call V} {equal : Bool} {values : List (Val V)}
    (plain : waits call = true → istoken equal values = istoken false values) :
    resumed L fuel s call values equal = resumed L fuel s call values := by
  cases call with
  | start => rfl
  | user => rfl
  | await event list => simp only [resumed, plain rfl]
  | awaitall args regs count => simp only [resumed, plain rfl]
  | awaitany args regs => simp only [resumed, plain rfl]

theorem step_equal {b : (ℕ × Act V T) × Bool} (untaken : apart waits s b) :
    step L b.1.1 s b.1.2 b.2 = step L b.1.1 s b.1.2 := by
  obtain ⟨⟨fuel, a⟩, equal⟩ := b
  dsimp only
  unfold step
  cases s.control.loop with
  | some p => rfl
  | none =>
    cases a with
    | resume co args =>
      have same : resume L fuel s co .user args equal = resume L fuel s co .user args := by
        unfold resume
        cases status : s.control.status co with
        | suspended call =>
          refine resumed_equal fun wait => istoken_equal ?_
          rintro v rest rfl
          simpa [apart, mistaken, status, wait] using untaken
        | active => rfl
        | dead => rfl
      simp only [call, same]
    | _ => rfl

/-- `awaitany` drops the table, as if it were resumed with the other values. -/
theorem step_dropped {co : T} {v : V} {args rest : List (Val V)} {regs : List (Val V × ℕ)}
    (status : s.control.status co = .suspended (.awaitany args regs))
    (known : s.control.leaked = false) :
    step L fuel s (.resume co (.ref v :: rest)) true = step L fuel s (.resume co rest) := by
  unfold step
  cases s.control.loop with
  | some p => rfl
  | none =>
    have owns : s.control.owns (.ref v :: rest) ↔ s.control.owns rest := by
      simp [Control.owns, known]
    simp only [call, owns]
    split
    · rename_i given
      have plain : rest.head? ≠ some .listof := by
        intro head
        rcases given with leaked | secret
        · rw [known] at leaked
          cases leaked
        · exact secret (List.mem_of_mem_head? head)
      simp only [resume, status, resumed, istoken_ref, istoken_plain plain, Bool.false_eq_true,
        if_true, if_false, List.tail_cons]
    · rfl

end

section
variable {V T : Type} [DecidableEq V] [DecidableEq T] {s u : State (Registry V T) V T}

theorem next_plain {q : State (Queues V T) V T} (related : Related s q)
    {b : (ℕ × Act V T) × Bool} (untaken : apart keeps s b)
    (stepped : nextequal registryLists s b = some u) :
    ∃ a, next registryLists s a = some u := by
  by_cases other : apart waits s b
  · refine ⟨b.1, ?_⟩
    unfold nextequal at stepped
    rwa [step_equal other] at stepped
  · obtain ⟨⟨fuel, a⟩, equal⟩ := b
    have known : s.control.leaked = false := related.control ▸ related.inv.controlled.secret
    cases a with
    | resume co args =>
      cases args with
      | nil => simp [apart, mistaken] at other
      | cons value rest =>
        cases value with
        | ref v =>
          cases status : s.control.status co with
          | suspended call =>
            cases call with
            | awaitany asked regs =>
              obtain rfl : equal = true := by simpa [apart, mistaken, status, waits] using other
              refine ⟨(fuel, .resume co rest), ?_⟩
              unfold nextequal at stepped
              rwa [step_dropped status known] at stepped
            | _ => simp_all [apart, mistaken, waits, keeps]
          | _ => simp [apart, mistaken, status] at other
        | _ => simp [apart, mistaken] at other
    | _ => simp [apart, mistaken] at other

theorem run_plain {main : T} {acts : List ((ℕ × Act V T) × Bool)}
    (ran : run (nextequal registryLists) ⟨Registry.empty, Control.init main⟩ acts = some s)
    (along : Along (nextequal registryLists) (apart keeps) ⟨Registry.empty, Control.init main⟩ acts) :
    Reachable (next registryLists) ⟨Registry.empty, Control.init main⟩ s := by
  refine run_invariant_along (Reachable (next registryLists) ⟨Registry.empty, Control.init main⟩)
    (apart keeps) ?_ ⟨[], rfl⟩ along ran
  rintro w b v ⟨as, reached⟩ untaken stepped
  obtain ⟨q, -, related⟩ := reachable_related reached
  obtain ⟨a, taken⟩ := next_plain related untaken stepped
  exact ⟨as ++ [a], run_append.mpr ⟨w, reached, run_cons.mpr ⟨v, taken, rfl⟩⟩⟩

end

section
variable {V T : Type} [DecidableEq V] [DecidableEq T]

/-- The events whose emissions resume the coroutine along such a run. -/
def emissions (t : T) : State (Registry V T) V T → List ((ℕ × Act V T) × Bool) → List (Val V)
  | _, [] => []
  | s, b :: bs => received t (woken registryLists s b.1.2) ++
      match attemptequal registryLists s b with
      | none => []
      | some u => emissions t u bs

/-- No call of the step fails after it registered its caller, and none takes a value for the
token. -/
def cleanequal (s : State (Registry V T) V T) (b : (ℕ × Act V T) × Bool) : Prop :=
  cleanly s b.1 ∧ apart waits s b

instance (s : State (Registry V T) V T) (b : (ℕ × Act V T) × Bool) : Decidable (cleanequal s b) :=
  inferInstanceAs (Decidable (_ ∧ _))

def staysequal (t : T) (s : State (Registry V T) V T) (b : (ℕ × Act V T) × Bool) : Prop :=
  stays t s b.1 ∧ apart waits s b

/-- How the call of the coroutine stands after a run, and how it goes on from there. -/
structure Awaited (a : Act V T) (t : T) (events : List (Val V)) (s : State (Registry V T) V T) :
    Prop where
  nodup : events.Nodup
  subset : ∀ e ∈ events, e ∈ arguments a ∧ e ≠ .nil
  due : Due a events
  goes : ∀ b u, cleanequal s b → attemptequal registryLists s b = some u →
    (∀ e ∈ received t (woken registryLists s b.1.2), e ∉ events ∧ e ∈ arguments a ∧ e ≠ .nil) ∧
    match effect a t events (woken registryLists s b.1.2) with
    | some values => Returned t values u
    | none => Suspended t u

section
variable {a : Act V T} {t : T} {events : List (Val V)} {regs : List (Val V × ℕ)}
variable {s u : State (Registry V T) V T}
variable {C : State (Registry V T) V T → ℕ × Act V T → Prop}

theorem attempt_equal {b : (ℕ × Act V T) × Bool} (untaken : apart waits s b) :
    attemptequal registryLists s b = attempt registryLists s b.1 := by
  unfold attemptequal attempt
  rw [step_equal untaken]

theorem run_equal {bs : List ((ℕ × Act V T) × Bool)}
    (ran : run (attemptequal registryLists) s bs = some u)
    (along : Along (attemptequal registryLists) (fun s b => C s b.1 ∧ apart waits s b) s bs) :
    run (attempt registryLists) s (bs.map Prod.fst) = some u ∧
      Along (attempt registryLists) C s (bs.map Prod.fst) ∧
      emissions t s bs = history t s (bs.map Prod.fst) := by
  induction bs generalizing s with
  | nil =>
    cases ran
    exact ⟨rfl, trivial, rfl⟩
  | cons b bs ih =>
    obtain ⟨w, stepped, ran⟩ := run_cons.mp ran
    obtain ⟨reached, rest, same⟩ := ih ran (along.2 w stepped)
    have plain : attempt registryLists s b.1 = some w := attempt_equal along.1.2 ▸ stepped
    refine ⟨run_cons.mpr ⟨w, plain, reached⟩, along_cons plain along.1.1 rest, ?_⟩
    simp only [emissions, List.map_cons, history, stepped, plain, same]

theorem tracked_awaited {q : State (Queues V T) V T} (tracked : Tracked a t events regs q)
    (related : Related s q) (nan : s.registry.listof .nan = none) : Awaited a t events s where
  nodup := tracked.nodup
  subset := tracked.subset
  due := tracked.due_left related.inv
  goes b u clean stepped := by
    have plain : attempt registryLists s b.1 = some u := attempt_equal clean.2 ▸ stepped
    obtain ⟨fresh, result⟩ := attempt_tracked tracked related nan clean.1 plain
    refine ⟨fresh, ?_⟩
    cases returns : effect a t events (woken registryLists s b.1.2) with
    | some values =>
      rw [returns] at result
      exact result
    | none =>
      rw [returns] at result
      obtain ⟨p, related', tracked'⟩ := result
      exact tracked'.suspended.related related'

end

end
end Coutil.TokenEquality
