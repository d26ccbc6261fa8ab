import Coutil.EventSystem

set_option autoImplicit false

/-! The await functions as they are written, on lists of arguments: the events and lists that
`register` returns travel before the values given to the coroutine, and are counted. -/
namespace Coutil.AwaitArguments
open EventRegistry EventSystem

/-- An argument is a value of the program or the table of a list. -/
inductive Item (V : Type) where
  | val (value : Val V)
  | list (list : ℕ)
  deriving DecidableEq

section
variable {α : Type}

def countargs (args : List α) : ℕ := args.length

/-- The arguments from the index on. -/
def select (index : ℕ) (args : List α) : List α := args.drop (index - 1)

def varange (first last : ℕ) (args : List α) : List α := (args.take last).drop (first - 1)

def vaconcat (results args : List α) : List α := args ++ results

end

section
variable {V : Type}

/-- The pairs of event and list, each as two arguments. -/
def flat : List (Val V × ℕ) → List (Item V)
  | [] => []
  | (event, list) :: regs => .val event :: .list list :: flat regs

def pairs : List (Item V) → List (Val V × ℕ)
  | .val event :: .list list :: args => (event, list) :: pairs args
  | _ => []

def values (args : List (Item V)) : List (Val V) :=
  args.filterMap fun item => match item with
    | .val value => some value
    | .list _ => none

/-- The test `... == listof`, `equal` as in `EventSystem.istoken`. -/
def istoken (equal : Bool) : List (Item V) → Bool
  | .val .listof :: _ => true
  | .val (.ref _) :: _ => equal
  | _ => false

theorem istoken_map (equal : Bool) (results : List (Val V)) :
    istoken equal (results.map Item.val) = EventSystem.istoken equal results := by
  cases results with
  | nil => rfl
  | cons value results => cases value <;> rfl

theorem pairs_flat (regs : List (Val V × ℕ)) : pairs (flat regs) = regs := by
  induction regs with
  | nil => rfl
  | cons p regs ih => exact congrArg (List.cons p) ih

theorem flat_length (regs : List (Val V × ℕ)) : (flat regs).length = 2 * regs.length := by
  induction regs with
  | nil => rfl
  | cons p regs ih =>
    simp only [flat, List.length_cons, ih]
    omega

theorem values_map (args : List (Val V)) : values (args.map .val) = args := by
  induction args with
  | nil => rfl
  | cons value args ih =>
    change value :: values (args.map .val) = value :: args
    rw [ih]

/-- After the registrations come the values that the coroutine was resumed with. -/
theorem select_results (regs : List (Val V × ℕ)) (results : List (Item V)) :
    select ((flat regs).length + 1) (vaconcat results (flat regs)) = results := by
  simp [select, vaconcat]

theorem varange_registered (regs : List (Val V × ℕ)) (results : List (Item V)) :
    varange 1 (flat regs).length (vaconcat results (flat regs)) = flat regs := by
  simp [varange, vaconcat]

end

section
variable {R V T : Type} [DecidableEq V] (L : Lists V T R)

/-- Function `register` with its count of arguments. -/
def register (thread : T) : ℕ → R → List (Val V) → Except (R × String) (R × List (Item V))
  | 0, r, _ => .ok (r, [])
  | count + 1, r, args =>
    let event := args.headD .nil
    if event ≠ .nil then
      match L.add r event thread with
      | .error msg => .error (r, msg)
      | .ok (r, some list) =>
        match register thread count r args.tail with
        | .error e => .error e
        | .ok (r, rest) => .ok (r, .val event :: .list list :: rest)
      | .ok (r, none) => register thread count r args.tail
    else register thread count r args.tail

/-- The loop of `cancel`, from an index on; a pair is two arguments. -/
def cancelfrom (fuel : ℕ) (thread : T) (args : List (Item V)) : ℕ → ℕ → R → Option R
  | 0, _, r => some r
  | turns + 1, index, r =>
    match select index args with
    | .val event :: .list list :: _ =>
      match L.remove fuel r event thread list with
      | none => none
      | some r => cancelfrom fuel thread args turns (index + 2) r
    | _ => none

def cancel (fuel : ℕ) (r : R) (thread : T) (regsz : ℕ) (args : List (Item V)) :
    Option (R × List (Item V)) :=
  (cancelfrom L fuel thread args ((regsz + 1) / 2) 1 r).map fun r => (r, select (regsz + 1) args)

theorem register_eq (thread : T) (r : R) (args : List (Val V)) :
    register L thread (countargs args) r args =
      (EventSystem.register L thread r args).map fun p => (p.1, flat p.2) := by
  induction args generalizing r with
  | nil => rfl
  | cons event args ih =>
    simp only [countargs, List.length_cons, register, List.headD_cons, List.tail_cons,
      EventSystem.register]
    by_cases nil : event = .nil
    · simpa [nil, countargs] using ih r
    · simp only [ne_eq, nil, not_false_eq_true, if_true, if_false]
      cases added : L.add r event thread with
      | error msg => rfl
      | ok p =>
        obtain ⟨r₁, list⟩ := p
        have rest := ih r₁
        simp only [countargs] at rest
        cases list with
        | none => exact rest
        | some list =>
          dsimp only
          rw [rest]
          cases EventSystem.register L thread r₁ args with
          | error e => rfl
          | ok p => rfl

omit [DecidableEq V] in
theorem cancelfrom_eq (fuel : ℕ) (thread : T) (before regs : List (Val V × ℕ))
    (results : List (Item V)) (r : R) :
    cancelfrom L fuel thread (flat before ++ (flat regs ++ results)) regs.length
      (2 * before.length + 1) r = EventSystem.cancel L fuel r thread regs := by
  induction regs generalizing before r with
  | nil => rfl
  | cons p regs ih =>
    obtain ⟨event, list⟩ := p
    have at_index : select (2 * before.length + 1)
        (flat before ++ (flat ((event, list) :: regs) ++ results)) =
          .val event :: .list list :: (flat regs ++ results) := by
      rw [select, Nat.add_sub_cancel, ← flat_length, List.drop_left]
      rfl
    have moved : flat before ++ (flat ((event, list) :: regs) ++ results) =
        flat (before ++ [(event, list)]) ++ (flat regs ++ results) := by
      have snoc : flat (before ++ [(event, list)]) = flat before ++ [.val event, .list list] := by
        clear ih at_index
        induction before with
        | nil => rfl
        | cons q before ih' =>
          change .val q.1 :: .list q.2 :: flat (before ++ [(event, list)]) = _
          rw [ih']
          rfl
      rw [snoc]
      simp [flat]
    simp only [List.length_cons, cancelfrom, at_index, EventSystem.cancel]
    cases removed : L.remove fuel r event thread list with
    | none => rfl
    | some r₁ =>
      dsimp only
      have next := ih (before ++ [(event, list)]) r₁
      rw [← moved, List.length_append, List.length_singleton, Nat.mul_add] at next
      exact next

omit [DecidableEq V] in
theorem cancel_eq (fuel : ℕ) (r : R) (thread : T) (regs : List (Val V × ℕ))
    (results : List (Item V)) :
    cancel L fuel r thread (flat regs).length (vaconcat results (flat regs)) =
      (EventSystem.cancel L fuel r thread regs).map fun r => (r, results) := by
  have turns : ((flat regs).length + 1) / 2 = regs.length := by
    rw [flat_length]
    omega
  have loop := cancelfrom_eq L fuel thread [] regs results r
  rw [cancel, turns, select_results]
  exact congrArg (Option.map fun r => (r, results)) loop

variable [DecidableEq T]

/-- `registered` of `awaitall`, up to its `yield`. -/
def registeredall (s : State R V T) (asked : List (Val V)) (args : List (Item V)) :
    Outcome (State R V T) :=
  let regsz := countargs args
  if regsz = 0 then .next { s with control := s.control.deliver [.bool true] }
  else .next { s with control := s.control.suspend (.awaitall asked (pairs args) (regsz / 2 - 1)) }

def awaitall (s : State R V T) (asked : List (Val V)) : Outcome (State R V T) :=
  if s.control.yieldable then
    match register L s.control.running (countargs asked) s.registry asked with
    | .error (r, msg) => .raised { s with registry := r } msg
    | .ok (r, args) => registeredall { s with registry := r } asked args
  else .raised s "unable to yield"

/-- `resumed` of `awaitall`, given the registrations and what `yield` returned. -/
def resumedall (fuel : ℕ) (s : State R V T) (asked : List (Val V)) (regsz count : ℕ)
    (args : List (Item V)) (equal : Bool) : Outcome (State R V T) :=
  if !istoken equal (select (regsz + 1) args) then
    match cancel L fuel s.registry s.control.running regsz args with
    | none => .diverged
    | some (r, results) => .next ⟨r, s.control.deliver (values results)⟩
  else if count = 0 then .next { s with control := s.control.deliver [.bool true] }
  else
    let call := .awaitall asked (pairs (varange 1 regsz args)) (count - 1)
    .next { s with control := s.control.suspend call }

/-- `registered` of `awaitany`, up to its `yield`. -/
def registeredany (s : State R V T) (asked : List (Val V)) (args : List (Item V)) :
    Outcome (State R V T) :=
  let regsz := countargs args
  if regsz ≤ 0 then .raised s "non-nil value expected"
  else .next { s with control := s.control.suspend (.awaitany asked (pairs args)) }

def awaitany (s : State R V T) (asked : List (Val V)) : Outcome (State R V T) :=
  if s.control.yieldable then
    match register L s.control.running (countargs asked) s.registry asked with
    | .error (r, msg) => .raised { s with registry := r } msg
    | .ok (r, args) => registeredany { s with registry := r } asked args
  else .raised s "unable to yield"

/-- `resumed` of `awaitany`, on what `cancel` returns. -/
def resumedany (fuel : ℕ) (s : State R V T) (regsz : ℕ) (args : List (Item V))
    (equal : Bool) : Outcome (State R V T) :=
  match cancel L fuel s.registry s.control.running regsz args with
  | none => .diverged
  | some (r, results) =>
    if istoken equal results then
      .next ⟨r, s.control.deliver (values (select 2 results))⟩
    else .next ⟨r, s.control.deliver (values results)⟩

/-- The functions on lists of arguments are those on registrations. -/
structure AsWritten : Prop where
  awaitall : ∀ (s : State R V T) asked, awaitall L s asked = EventSystem.awaitall L s asked
  awaitany : ∀ (s : State R V T) asked, awaitany L s asked = EventSystem.awaitany L s asked
  resumedall : ∀ fuel (s : State R V T) asked regs count results equal,
    resumedall L fuel s asked (flat regs).length count
      (vaconcat (results.map Item.val) (flat regs)) equal =
        resumed L fuel s (.awaitall asked regs count) results equal
  resumedany : ∀ fuel (s : State R V T) asked regs results equal,
    resumedany L fuel s (flat regs).length (vaconcat (results.map Item.val) (flat regs)) equal =
      resumed L fuel s (.awaitany asked regs) results equal

theorem as_written : AsWritten (V := V) (T := T) L where
  awaitall s asked := by
    simp only [awaitall, EventSystem.awaitall, register_eq]
    split
    · cases EventSystem.register L s.control.running s.registry asked with
      | error e => rfl
      | ok p =>
        obtain ⟨r, regs⟩ := p
        simp only [Except.map, registeredall, countargs, pairs_flat, flat_length]
        have half : 2 * regs.length / 2 - 1 = regs.length - 1 := by omega
        rw [half]
        by_cases none : regs.length = 0
        · simp [none]
        · simp [none]
    · rfl
  awaitany s asked := by
    simp only [awaitany, EventSystem.awaitany, register_eq]
    split
    · cases EventSystem.register L s.control.running s.registry asked with
      | error e => rfl
      | ok p =>
        obtain ⟨r, regs⟩ := p
        simp only [Except.map, registeredany, countargs, pairs_flat, flat_length]
        by_cases none : regs.length = 0
        · simp [none]
        · simp [none]
    · rfl
  resumedall fuel s asked regs count results equal := by
    simp only [resumedall, resumed, select_results, istoken_map, cancel_eq,
      varange_registered, pairs_flat]
    split
    · cases EventSystem.cancel L fuel s.registry s.control.running regs with
      | none => rfl
      | some r => simp [values_map]
    · rfl
  resumedany fuel s asked regs results equal := by
    simp only [resumedany, resumed, cancel_eq]
    cases EventSystem.cancel L fuel s.registry s.control.running regs with
    | none => rfl
    | some r =>
      simp only [Option.map_some, istoken_map, values_map]
      split
      · rename_i token
        cases results with
        | nil => cases token
        | cons value results => simp [select, values_map]
      · rfl

end
end Coutil.AwaitArguments
