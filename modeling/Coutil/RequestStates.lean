import Coutil.ObjectPairing
import Coutil.ObjectRequest

set_option autoImplicit false

/-! The state table of `doc/devnotes.md` for the requests of userdata, and the runs that stay in
it. -/
namespace Coutil.RequestStates
open Runs ObjectPairing ObjectRequest

inductive Row where
  | freed
  | awaiting
  | completed
  | canceled
  | reseting
  deriving DecidableEq

inductive KFunction where
  | k_endudreq
  | k_resetudreqk
  deriving DecidableEq

structure Columns where
  freed : Bool
  saved : Bool
  pending : Bool
  kfunction : Option KFunction
  callback : Bool
  deriving DecidableEq

def Row.columns : Row → Columns
  | .freed => ⟨true, false, false, none, false⟩
  | .awaiting => ⟨false, false, true, some .k_endudreq, true⟩
  | .completed => ⟨false, true, false, none, false⟩
  | .canceled => ⟨false, false, false, none, true⟩
  | .reseting => ⟨false, false, true, some .k_resetudreqk, true⟩

section
variable {O T V W : Type}

def Place.kfunction : Place O V W → Option KFunction
  | .elsewhere => none
  | .k_endudreq _ _ => some .k_endudreq
  | .k_resetudreqk _ _ _ => some .k_resetudreqk

def kfunction (s : State O T V W) (o : O) : Option KFunction :=
  (s.request o).data.bind fun t => Place.kfunction (s.place t)

/-- The request as in a row: the columns, the entry in the registry, and the thread in
`UPV_THREAD`, which a completed request may still have. -/
structure Matches (s : State O T V W) (o : O) (row : Row) : Prop where
  freed : decide ((s.request o).type = .unknown) = row.columns.freed
  saved : decide ((s.request o).type = .max) = row.columns.saved
  pending : (s.request o).data.isSome = row.columns.pending
  kfunction : kfunction s o = row.columns.kfunction
  callback : (s.request o).uv = if row.columns.callback then 1 else 0
  registry : (s.request o).saved = !row.columns.freed
  thread : row ≠ .completed → (s.request o).thread = (s.request o).data

/-- The states of a request, each with all its fields. -/
inductive Valid : Request T V W → Option KFunction → Prop
  | freed {results cancel} : Valid ⟨.unknown, none, results, cancel, none, false, 0⟩ none
  | awaiting {results cancel} (t : T) :
      Valid ⟨.active, some t, results, cancel, some t, true, 1⟩ (some .k_endudreq)
  | completed {results cancel} (thread : Option T) :
      Valid ⟨.max, none, results, cancel, thread, true, 0⟩ none
  | canceled {results cancel} : Valid ⟨.active, none, results, cancel, none, true, 1⟩ none
  | reseting {results cancel} (t : T) :
      Valid ⟨.active, some t, results, cancel, some t, true, 1⟩ (some .k_resetudreqk)

theorem valid_row {s : State O T V W} {o : O} (valid : Valid (s.request o) (kfunction s o)) :
    ∃ row, Matches s o row := by
  generalize request : s.request o = r at valid
  generalize function : kfunction s o = k at valid
  cases valid with
  | freed => exact ⟨.freed, by constructor <;> simp [request, function, Row.columns]⟩
  | awaiting t => exact ⟨.awaiting, by constructor <;> simp [request, function, Row.columns]⟩
  | completed thread =>
    exact ⟨.completed, by constructor <;> simp [request, function, Row.columns]⟩
  | canceled => exact ⟨.canceled, by constructor <;> simp [request, function, Row.columns]⟩
  | reseting t => exact ⟨.reseting, by constructor <;> simp [request, function, Row.columns]⟩

def active (r : Request T V W) : Bool := decide (r.type = .active)

/-- A completed request is that of the callback under way. -/
structure Inv (s : State O T V W) : Prop where
  valid : ∀ o, Valid (s.request o) (kfunction s o)
  waiting : Waiting (fun o => (s.request o).data) (fun t => (s.place t).object)
  counted : Counts (fun o => active (s.request o)) s.nactive
  completed : ∀ o, (s.request o).type = .max → s.inside = some o

theorem inv_initial : Inv (initial : State O T V W) where
  valid := fun _ => .freed
  waiting := by simp [Waiting, initial, Request.new, Place.object]
  counted := ⟨∅, by simp [initial, Request.new, active], rfl⟩
  completed := by simp [initial, Request.new]

variable [DecidableEq O] [DecidableEq T] {s s' : State O T V W} {o : O} {t : T}

omit [DecidableEq T] in
theorem request_update {β : Type} (f : Request T V W → β) (request : O → Request T V W) (o : O)
    (r : Request T V W) :
    (fun p => f (Function.update request o r p)) =
      Function.update (fun p => f (request p)) o (f r) := by
  funext p
  by_cases here : p = o
  · simp [here]
  · simp [Function.update_of_ne here]

omit [DecidableEq O] in
theorem place_update (place : T → Place O V W) (t : T) (pl : Place O V W) :
    (fun u => (Function.update place t pl u).object) =
      Function.update (fun u => (place u).object) t pl.object := by
  funext u
  by_cases here : u = t
  · simp [here]
  · simp [Function.update_of_ne here]

/-- A step changes one request, and where one coroutine is. -/
theorem Inv.change {r : Request T V W} {place : Place O V W} (inv : Inv s)
    (request : s'.request = Function.update s.request o r)
    (places : s'.place = Function.update s.place t place)
    (away : ∀ p, p ≠ o → (s.request p).data ≠ some t)
    (valid : Valid r (r.data.bind fun u => Place.kfunction (Function.update s.place t place u)))
    (waiting : Waiting (Function.update (fun p => (s.request p).data) o r.data)
      (Function.update (fun u => (s.place u).object) t place.object))
    (counted : Counts (Function.update (fun p => active (s.request p)) o (active r)) s'.nactive)
    (completed : r.type = .max → s'.inside = some o)
    (others : ∀ p, p ≠ o → (s.request p).type = .max → s'.inside = some p) : Inv s' := by
  refine ⟨fun p => ?_, ?_, ?_, fun p => ?_⟩
  · unfold kfunction
    rw [request, places]
    by_cases here : p = o
    · subst p
      simpa using valid
    · rw [Function.update_of_ne here]
      have kept : (s.request p).data.bind
          (fun u => Place.kfunction (Function.update s.place t place u)) = kfunction s p := by
        refine Option.bind_congr fun u data => ?_
        have other : u ≠ t := by
          rintro rfl
          exact away p here data
        rw [Function.update_of_ne other]
      rw [kept]
      exact inv.valid p
  · rw [request, places, request_update Request.data, place_update]
    exact waiting
  · rw [request, request_update active]
    exact counted
  · rw [request]
    by_cases here : p = o
    · subst p
      simpa using completed
    · rw [Function.update_of_ne here]
      exact others p here

omit [DecidableEq O] [DecidableEq T] in
theorem Inv.note (inv : Inv s) (entry : Entry O T V) : Inv (s.note entry) :=
  ⟨inv.valid, inv.waiting, inv.counted, inv.completed⟩

omit [DecidableEq O] [DecidableEq T] in
theorem Inv.away (inv : Inv s) {p : O} (other : (s.place t).object ≠ some p) :
    (s.request p).data ≠ some t :=
  fun data => other ((inv.waiting p t).mp data)

theorem setup_valid {r : Request T V W} {results : Option (List V → List V → List V)}
    {cancel : Option (W → List V → Bool)} (inv : Inv s) (runs : s.place t = .elsewhere)
    (unused : (s.request o).data = none) (idle : active (s.request o) = false)
    (starting : r = ⟨.max, some t, results, cancel, some t, true, 0⟩) (client : Client V W) (w : W)
    (stack : List V) (quiet : ∀ text, client.setup w stack ≠ .error text) :
    ∃ u, (s.put o r).setup o t client w stack = .ok u ∧ Inv u := by
  have away (p : O) (_ : p ≠ o) : (s.request p).data ≠ some t := inv.away (by simp [runs, Place.object])
  have others (p : O) (_ : p ≠ o) : (s.request p).type = .max → s.inside = some p :=
    inv.completed p
  have apart : (s.place t).object = none := by rw [runs]; rfl
  cases outcome : client.setup w stack with
  | error text => exact absurd outcome (quiet text)
  | results values =>
    refine ⟨⟨Function.update s.request o ⟨.unknown, none, results, cancel, none, false, 0⟩,
      Function.update s.place t .elsewhere, s.inside, s.nactive,
      .returned t values :: .setup o t :: s.log⟩, ?_, ?_⟩
    · simp [State.setup, outcome, State.arm, State.startedudreqk, State.freeudreq, State.note,
        State.put, State.move, starting, lcu_assert, bind, Except.bind, pure, Except.pure]
    · refine inv.change (t := t) rfl rfl away .freed ?_ (inv.counted.keep ?_) nofun others
      · have elsewhere : (Place.elsewhere : Place O V W).object = (s.place t).object := apart.symm
        rw [elsewhere, Function.update_eq_self]
        exact inv.waiting.keep unused.symm
      · exact idle.symm
  | armed stack' =>
    refine ⟨⟨Function.update s.request o
        ⟨.active, some t, client.results, client.cancel, some t, true, 1⟩,
      Function.update s.place t (.k_endudreq o stack'), s.inside, s.nactive + 1,
      .setup o t :: s.log⟩, ?_, ?_⟩
    · simp [State.setup, outcome, State.arm, State.startedudreqk, State.note, State.put, State.move,
        starting, lcu_assert, bind, Except.bind, pure, Except.pure]
    · refine inv.change (t := t) rfl rfl away ?_ (inv.waiting.schedule unused apart)
        (inv.counted.mark idle) nofun others
      simp only [Option.bind_some, Function.update_self, Place.kfunction]
      exact .awaiting t

theorem call_valid {client : Client V W} {w : W} {stack : List V} {yieldable : Bool} (inv : Inv s)
    (runs : s.place t = .elsewhere)
    (quiet : (s.request o).data = none → (s.request o).type ≠ .active → yieldable = true →
      ∀ text, client.setup w stack ≠ .error text) :
    ∃ u, s.lcuT_resetudreqk o t client w stack yieldable = .ok u ∧ Inv u := by
  have valid := inv.valid o
  generalize request : s.request o = r at valid quiet
  generalize kfunction s o = k at valid
  unfold State.lcuT_resetudreqk
  rw [request]
  cases valid with
  | awaiting u => exact ⟨_, rfl, inv.note _⟩
  | reseting u => exact ⟨_, rfl, inv.note _⟩
  | freed =>
    cases yieldable with
    | false => exact ⟨_, rfl, inv.note _⟩
    | true =>
      exact setup_valid inv runs (by rw [request]) (by rw [request]; rfl) rfl client w stack
        (quiet rfl (by simp) rfl)
  | completed thread =>
    cases yieldable with
    | false => exact ⟨_, rfl, inv.note _⟩
    | true =>
      exact setup_valid inv runs (by rw [request]) (by rw [request]; rfl) rfl client w stack
        (quiet rfl (by simp) rfl)
  | canceled =>
    cases yieldable with
    | false => exact ⟨_, rfl, inv.note _⟩
    | true =>
      refine ⟨_, rfl, ?_⟩
      have apart : (s.place t).object = none := by rw [runs]; rfl
      have unused : (s.request o).data = none := by rw [request]
      refine inv.change (t := t) rfl rfl (fun p _ => inv.away (by simp [apart])) ?_
        (inv.waiting.schedule unused apart) (inv.counted.keep ?_) nofun
        (fun p _ => inv.completed p)
      · simp only [Option.bind_some, Function.update_self, Place.kfunction]
        exact .reseting t
      · rw [request]
        rfl

omit [DecidableEq O] [DecidableEq T] in
theorem Inv.waits (inv : Inv s) {place : Place O V W} (waits : s.place t = place)
    (object : place.object = some o) : (s.request o).data = some t := by
  rw [← waits] at object
  exact (inv.waiting o t).mpr object

/-- A waiting coroutine goes on, with the request as it is but for `data` and `UPV_THREAD`. -/
theorem Inv.release {r : Request T V W} (inv : Inv s) (data : (s.request o).data = some t)
    (request : s'.request = Function.update s.request o r)
    (places : s'.place = Function.update s.place t .elsewhere) (nactive : s'.nactive = s.nactive)
    (inside : s'.inside = s.inside) (active' : active r = active (s.request o))
    (valid : Valid r none) (unused : r.data = none) (completed : r.type = .max → s.inside = some o) :
    Inv s' := by
  refine inv.change request places (fun p other => inv.away ?_) ?_ ?_ ?_ ?_ ?_
  · have here : (s.place t).object = some o := (inv.waiting o t).mp data
    rw [here]
    exact fun same => other (Option.some.inj same).symm
  · rw [unused]
    exact valid
  · rw [unused]
    exact inv.waiting.wake data
  · rw [nactive]
    exact inv.counted.keep active'
  · rw [inside]
    exact completed
  · rw [inside]
    exact fun p _ => inv.completed p

omit [DecidableEq T] in
theorem Inv.freed {results : Option (List V → List V → List V)} {cancel : Option (W → List V → Bool)}
    (inv : Inv s) (unused : (s.request o).data = none)
    (request : s'.request =
      Function.update s.request o ⟨.unknown, none, results, cancel, none, false, 0⟩)
    (place : s'.place = s.place)
    (counted : Counts (Function.update (fun p => active (s.request p)) o false) s'.nactive)
    (others : ∀ p, p ≠ o → (s.request p).type = .max → s'.inside = some p) : Inv s' := by
  refine ⟨fun p => ?_, ?_, ?_, fun p => ?_⟩
  · unfold kfunction
    rw [request, place]
    by_cases here : p = o
    · subst p
      rw [Function.update_self]
      exact .freed
    · rw [Function.update_of_ne here]
      exact inv.valid p
  · rw [request, place, request_update Request.data]
    exact inv.waiting.keep unused.symm
  · rw [request, request_update active]
    exact counted
  · rw [request]
    by_cases here : p = o
    · subst p
      simp
    · rw [Function.update_of_ne here]
      exact others p here

theorem endudreqhalted_valid {w : W} {stack values : List V} (inv : Inv s)
    (waits : s.place t = .k_endudreq o stack) :
    ∃ u, s.k_endudreqhalted o t w stack values = .ok u ∧ Inv u := by
  have data := inv.waits waits rfl
  have function : kfunction s o = some .k_endudreq := by
    rw [kfunction, data, Option.bind_some, waits]
    rfl
  have valid := inv.valid o
  rw [function] at valid
  generalize request : s.request o = r at valid
  cases valid with
  | @awaiting results cancel u =>
    obtain rfl : u = t := by simpa [request] using data
    have ended : ∃ log, s.k_endudreqhalted o u w stack values =
        .ok ⟨Function.update s.request o ⟨.active, none, results, cancel, none, true, 1⟩,
          Function.update s.place u .elsewhere, s.inside, s.nactive, log⟩ := by
      simp only [State.k_endudreqhalted, request, lcu_assert, decide_true, if_true, bind, Except.bind,
        pure, Except.pure]
      split_ifs
      · exact ⟨_, rfl⟩
      · exact ⟨_, rfl⟩
    obtain ⟨log, ended⟩ := ended
    refine ⟨_, ended, ?_⟩
    exact inv.release data rfl rfl rfl rfl (by rw [request]; rfl) .canceled rfl nofun

theorem resetudreqhalted_valid {client : Client V W} {stack values : List V} (inv : Inv s)
    (waits : s.place t = .k_resetudreqk o client stack) :
    Inv (s.k_resetudreqkhalted o t values) := by
  have data := inv.waits waits rfl
  have function : kfunction s o = some .k_resetudreqk := by
    rw [kfunction, data, Option.bind_some, waits]
    rfl
  have valid := inv.valid o
  rw [function] at valid
  generalize request : s.request o = r at valid
  cases valid with
  | @reseting results cancel u =>
    refine Inv.note ?_ _
    exact inv.release (r := ⟨.active, none, results, cancel, none, true, 1⟩) data
      (by simp [State.move, State.put, request]) rfl rfl rfl (by rw [request]; rfl) .canceled
      rfl nofun

/-- The callback comes for a coroutine that waits, or for none. -/
theorem callback_valid {w : W} {values : List V} (inv : Inv s) (due : 0 < (s.request o).uv)
    (free : s.inside = none) (awaited : kfunction s o ≠ some .k_resetudreqk) :
    ∃ u, s.callback o w values = .ok u ∧ Inv u := by
  have valid := inv.valid o
  have marked (p : O) (_ : p ≠ o) (max : (s.request p).type = .max) : False := by
    have inside := inv.completed p max
    rw [free] at inside
    cases inside
  generalize request : s.request o = r at valid due
  generalize function : kfunction s o = k at valid awaited
  cases valid with
  | freed => cases due
  | completed => cases due
  | reseting => exact absurd rfl awaited
  | @awaiting results cancel t =>
    have data : (s.request o).data = some t := by rw [request]
    have object := (inv.waiting o t).mp data
    rw [kfunction, data, Option.bind_some] at function
    cases place : s.place t with
    | elsewhere => simp [place, Place.kfunction] at function
    | k_resetudreqk p client stack => simp [place, Place.kfunction] at function
    | k_endudreq p stack =>
      obtain rfl : p = o := by simpa [place, Place.object] using object
      refine ⟨⟨Function.update s.request p ⟨.max, none, results, cancel, some t, true, 0⟩,
        Function.update s.place t .elsewhere, some p, s.nactive - 1,
        .returned t (returns results stack values) :: s.log⟩, ?_, ?_⟩
      · simp [State.callback, State.lcuU_endudreq, State.resumethread, State.k_endudreqresumed,
          State.put, State.move, State.note, request, place, lcu_assert, bind, Except.bind, pure,
          Except.pure]
      · refine inv.change rfl rfl (fun q other => inv.away ?_) (.completed _) (inv.waiting.wake data)
          (inv.counted.unmark ?_) (fun _ => rfl) fun q other max => (marked q other max).elim
        · rw [place]
          exact fun same => other (Option.some.inj same).symm
        · rw [request]
          rfl
  | @canceled results cancel =>
    have data : (s.request o).data = none := by rw [request]
    refine ⟨⟨Function.update s.request o ⟨.unknown, none, results, cancel, none, false, 0⟩,
      s.place, none, s.nactive - 1, s.log⟩, ?_, ?_⟩
    · simp [State.callback, State.lcuU_endudreq, State.freeudreq, State.put, request, free,
        lcu_assert, bind, Except.bind, pure, Except.pure]
    · refine inv.freed data rfl rfl ?_ fun q other max => (marked q other max).elim
      refine inv.counted.unmark ?_
      rw [request]
      rfl

omit [DecidableEq T] in
theorem leave_valid (inv : Inv s) (inside : s.inside = some o) :
    ∃ u, s.leave o = .ok u ∧ Inv u := by
  have others (p : O) (other : p ≠ o) (max : (s.request p).type = .max) : False := by
    have same := inv.completed p max
    rw [inside] at same
    exact other (Option.some.inj same).symm
  have left (unsaved : (s.request o).type ≠ .max) :
      ∃ u, s.leave o = .ok u ∧ Inv u := by
    refine ⟨{ s with inside := none }, by simp [State.leave, unsaved, pure, Except.pure], ?_⟩
    refine ⟨inv.valid, inv.waiting, inv.counted, fun p max => ?_⟩
    by_cases here : p = o
    · subst p
      exact absurd max unsaved
    · exact (others p here max).elim
  have valid := inv.valid o
  generalize request : s.request o = r at valid left
  generalize kfunction s o = k at valid
  cases valid with
  | freed => exact left nofun
  | awaiting t => exact left nofun
  | canceled => exact left nofun
  | reseting t => exact left nofun
  | @completed results cancel thread =>
    have data : (s.request o).data = none := by rw [request]
    refine ⟨⟨Function.update s.request o ⟨.unknown, none, results, cancel, none, false, 0⟩,
      s.place, none, s.nactive, s.log⟩, ?_, ?_⟩
    · simp [State.leave, State.freeudreq, State.put, request, lcu_assert, bind, Except.bind, pure,
        Except.pure]
    · refine inv.freed data rfl rfl (inv.counted.keep ?_) fun q other max =>
        (others q other max).elim
      rw [request]
      rfl

/-- No setup function raises an error, and no callback of a request comes while a coroutine waits
to start it again. -/
def Harmless (s : State O T V W) : Act O T V W → Prop
  | .call o _ client w stack yieldable => (s.request o).data = none →
      (s.request o).type ≠ .active → yieldable = true → ∀ text, client.setup w stack ≠ .error text
  | .callback o _ _ => kfunction s o ≠ some .k_resetudreqk
  | _ => True

theorem step_valid {a : Act O T V W} {r : Except Site (State O T V W)} (inv : Inv s)
    (harmless : Harmless s a) (stepped : step s a = some r) : ∃ u, r = .ok u ∧ Inv u := by
  cases step_cases stepped with
  | call runs => exact call_valid inv runs harmless
  | ended waits => exact endudreqhalted_valid inv waits
  | reset waits => exact ⟨_, rfl, resetudreqhalted_valid inv waits⟩
  | callback due free => exact callback_valid inv due free harmless
  | leave inside => exact leave_valid inv inside

theorem next_valid {a : Act O T V W} (inv : Inv s) (harmless : Harmless s a)
    (stepped : next s a = some s') : Inv s' := by
  obtain ⟨u, ok, inv'⟩ := step_valid inv harmless (next_eq.mp stepped)
  cases ok
  exact inv'

omit [DecidableEq O] [DecidableEq T] in
/-- The request is both saved and pending once a setup function raised an error. -/
theorem raised_unlisted (saved : (s.request o).type = .max) (pending : (s.request o).data = some t)
    (row : Row) : ¬Matches s o row := by
  intro found
  have first := found.saved
  have second := found.pending
  rw [saved, decide_eq_true rfl] at first
  rw [pending, Option.isSome_some] at second
  cases row <;> simp [Row.columns] at first second

theorem raising_call {client : Client V W} {w : W} {stack : List V} {text : String}
    (data : (s.request o).data = none) (idle : (s.request o).type ≠ .active)
    (raises : client.setup w stack = .error text) :
    ∃ u, s.lcuT_resetudreqk o t client w stack true = .ok u ∧ (u.request o).type = .max ∧
      (u.request o).data = some t := by
  simp only [State.lcuT_resetudreqk, data, State.setup, raises, State.arm, State.startedudreqk]
  cases type : (s.request o).type with
  | unknown => exact ⟨_, rfl, by simp [State.note, State.move, State.put],
      by simp [State.note, State.move, State.put]⟩
  | max =>
    refine ⟨_, by simp [type, pure, Except.pure]; rfl, ?_, ?_⟩
    · simp [State.note, State.move, State.put]
    · simp [State.note, State.move, State.put]
  | active => exact absurd type idle

/-- `lcuU_endudreq` leaves the request saved, and `k_resetudreqk` expects a free one. -/
theorem harmful_step {a : Act O T V W} {r : Except Site (State O T V W)} (inv : Inv s)
    (harmful : ¬Harmless s a) (stepped : step s a = some r) :
    r = .error .k_resetudreqk ∨ ∃ u o, r = .ok u ∧ ∀ row, ¬Matches u o row := by
  cases step_cases stepped with
  | ended waits => exact absurd trivial harmful
  | reset waits => exact absurd trivial harmful
  | leave inside => exact absurd trivial harmful
  | @call o t client w stack yieldable runs =>
    simp only [Harmless, Classical.not_imp, not_forall, not_not] at harmful
    obtain ⟨data, idle, rfl, text, raises⟩ := harmful
    obtain ⟨u, called, saved, pending⟩ := raising_call (t := t) data idle raises
    exact Or.inr ⟨u, o, called, raised_unlisted saved pending⟩
  | @callback o w values due free =>
    simp only [Harmless, not_not] at harmful
    have valid := inv.valid o
    rw [harmful] at valid
    generalize request : s.request o = r at valid
    cases valid with
    | @reseting results cancel t =>
      have data : (s.request o).data = some t := by rw [request]
      rw [kfunction, data, Option.bind_some] at harmful
      cases place : s.place t with
      | elsewhere => simp [place, Place.kfunction] at harmful
      | k_endudreq p stack => simp [place, Place.kfunction] at harmful
      | k_resetudreqk p client stack =>
        have object := (inv.waiting o t).mp data
        obtain rfl : p = o := by simpa [place, Place.object] using object
        refine Or.inl ?_
        simp [State.callback, State.lcuU_endudreq, State.resumethread, State.k_resetudreqkresumed,
          State.put, request, place, lcu_assert, bind, Except.bind, pure, Except.pure]

/-- In every run in which no setup function raises an error and no callback comes while a coroutine
waits to start the request again, each request is in a row of the table, `sched->nactive` counts
those whose callback is due, and no assertion fails. Any other step breaks the table, or fails
the assertion of `k_resetudreqk` before the setup function is run. -/
theorem request_follows_table (acts : List (Act O T V W)) (ran : run next initial acts = some s)
    (along : Along next Harmless initial acts) :
    (∀ o, ∃ row, Matches s o row) ∧
    Counts (fun o => decide ((s.request o).uv = 1)) s.nactive ∧
    (∀ a r, Harmless s a → step s a = some r → ∃ u, r = .ok u) ∧
    (∀ a r, ¬Harmless s a → step s a = some r →
      r = .error .k_resetudreqk ∨ ∃ u o, r = .ok u ∧ ∀ row, ¬Matches u o row) := by
  have inv : Inv s := run_invariant_along Inv Harmless
    (fun _ _ _ inv harmless stepped => next_valid inv harmless stepped) inv_initial along ran
  refine ⟨fun o => valid_row (inv.valid o), ?_, ?_, fun a r => harmful_step inv⟩
  · have due : (fun o => decide ((s.request o).uv = 1)) = fun o => active (s.request o) := by
      funext o
      have valid := inv.valid o
      generalize s.request o = r at valid
      generalize kfunction s o = k at valid
      cases valid <;> rfl
    rw [due]
    exact inv.counted
  · intro a r harmless stepped
    obtain ⟨u, ok, -⟩ := step_valid inv harmless stepped
    exact ⟨u, ok⟩

end

/-- A client as in the template of `doc/devnotes.md`. -/
def myevent : Client Unit Unit := ⟨fun _ _ => .armed [], none, none⟩

/-- A client whose call of libuv fails and that raises the error, as `system.listdir` does. -/
def failing : Client Unit Unit := ⟨fun _ _ => .error "not enough memory", none, none⟩

/-- Coroutine 7 is resumed explicitly, coroutine 8 waits to start the request again and gives up,
and the callback comes. -/
theorem request_follows_table_canceled :
    ∃ s : State ℕ ℕ Unit Unit,
      run next initial [.call 0 7 myevent () [] true, .resume 7 () [], .call 0 8 myevent () [] true,
        .resume 8 () [], .callback 0 () []] = some s ∧
      (∀ o, ∃ row, Matches s o row) ∧ s.nactive = 0 := by
  have follows := request_follows_table (O := ℕ) (T := ℕ) (V := Unit) (W := Unit)
    [.call 0 7 myevent () [] true, .resume 7 () [], .call 0 8 myevent () [] true,
      .resume 8 () [], .callback 0 () []] rfl
    (along_cons rfl (by simp [Harmless, myevent]) (along_cons rfl trivial
      (along_cons rfl (by simp [Harmless, myevent]) (along_cons rfl trivial
        (along_cons rfl (show kfunction _ 0 ≠ _ from nofun) trivial)))))
  exact ⟨_, rfl, follows.1, rfl⟩

/-- The callback comes while coroutine 8 waits to start the request again; or the setup function
raises an error. -/
theorem request_leaves_table :
    (¬∀ (acts : List (Act ℕ ℕ Unit Unit)) (s : State ℕ ℕ Unit Unit),
      run next initial acts = some s → ∀ a r, step s a = some r → ∃ u, r = .ok u) ∧
    ¬∀ (acts : List (Act ℕ ℕ Unit Unit)) (s : State ℕ ℕ Unit Unit),
      run next initial acts = some s → ∀ o, ∃ row, Matches s o row := by
  refine ⟨fun claim => ?_, fun claim => ?_⟩
  · obtain ⟨u, fails⟩ := claim [.call 0 7 myevent () [] true, .resume 7 () [],
      .call 0 8 myevent () [] true] _ rfl (.callback 0 () []) _ rfl
    cases fails
  · obtain ⟨row, found⟩ := claim [.call 0 7 failing () [] true] _ rfl 0
    exact raised_unlisted (t := 7) rfl rfl row found

end Coutil.RequestStates
