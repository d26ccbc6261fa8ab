import Coutil.FileReturns

set_option autoImplicit false

/-! No descriptor, no internals of a request and no list of addresses has two owners, is released
twice or is used after that, whatever the coroutines do; what is lost in a run and when. -/
namespace Coutil.FileOwnership
open Operation OperationStates FileResources FileSystem FileCustody FileCalls FileReturns
open RequestPhase (wait phase phased restarted)

section
variable {T : Type} [DecidableEq T]

/-- The list object stands for a sequence of addresses that fit where they are copied. -/
def Showing (list : FoundAddresses.AddressList) : Prop :=
  ∃ q, FoundAddresses.Refines list q ∧ ∀ t ∈ q, FoundAddresses.Proper t.entries

def Listed (w : World T) : Prop :=
  ∀ (l : ℕ) (found : Found), w.lists[l]? = some found → found.metatable = true →
    Showing found.list

/-- Libuv gives an address of a known family its structure. -/
def Fitting (done : Done) : Prop :=
  ∀ results ∈ done.results,
    FoundAddresses.Proper (results.nodes.filter FoundAddresses.Addrinfo.valid)

def Waiting (w : World T) (x : T) (call : Option Call) :
    RequestPhase.Wait Value (View T) → Prop
  | .none => True
  | .endop L =>
    match call with
    | some call => ∃ flight, w.flight x = some flight ∧ Suspended w call flight L
    | none => w.flight x = none
  | .resetop target setup L => ∀ c, call = some c →
      target = .request ∧ setup = (client c x).setup ∧ Delayed w c L

/-- The userdata that a coroutine has yet to give its metatable. -/
def built (call : Option Call) : RequestPhase.Wait Value (View T) → Value
  | .none => .nil
  | .endop L => (call.map fun c => building c false L).getD .nil
  | .resetop _ _ L => (call.map fun c => building c true L).getD .nil

def builds (s : FileSystem.State T) (x : T) : Value := built (s.call x) (wait (s.op x).place)

/-- The request of a coroutine is that of its operation, and fits where the coroutine waits. -/
structure Local (awaitch : Client Value (View T)) (w : World T) (x : T)
    (u : Operation.State Value (View T)) (call : Option Call) : Prop where
  valid : Inv u
  plain : AwaitOperation.Plain awaitch u
  flights : ∀ flight, w.flight x = some flight → RequestPhase.flying u.op = true ∧ Fits flight ∧
    ∀ done ∈ flight.done, Fitting done
  waiting : Waiting w x call (wait u.place)

structure Sound (awaitch : Client Value (View T)) (s : FileSystem.State T)
    (lost : List Resource) : Prop where
  books : Books s.world [] lost
  each : ∀ x, Local awaitch s.world x (s.op x) (s.call x)
  apart : ∀ x y, x ≠ y → builds s x = .nil ∨ builds s x ≠ builds s y
  listed : Listed s.world

variable {awaitch : Client Value (View T)} {s : FileSystem.State T} {w w' : World T} {x y : T}
  {u v : Operation.State Value (View T)} {call : Option Call} {own : Value} {env : Env}
  {L : Stack} {loose lost drops : List Resource}

theorem initial_sound : Sound awaitch (initial : FileSystem.State T) [] := by
  refine ⟨books_nothing, fun x => ⟨init_valid, AwaitOperation.plain_init, fun _ flight => ?_,
    trivial⟩, fun _ _ _ => .inl rfl, fun l found at_l => ?_⟩
  · cases flight
  · cases at_l

/-- What a waiting coroutine has yet to give its metatable has none. -/
theorem waiting_built {wt : RequestPhase.Wait Value (View T)} (waiting : Waiting w x call wt) :
    built call wt = .nil ∨ (∃ f, built call wt = .file f ∧ Raw w f) ∨
      ∃ l, built call wt = .found l ∧ Rawlist w l := by
  cases wt with
  | none => exact .inl rfl
  | endop L =>
    cases call with
    | none => exact .inl rfl
    | some c =>
      obtain ⟨flight, -, suspended⟩ := waiting
      cases c with
      | openfile =>
        obtain ⟨-, path, f, rfl, raw⟩ := suspended
        exact .inr (.inl ⟨f, rfl, raw⟩)
      | findaddr =>
        obtain ⟨-, node, serv, l, rfl, raw⟩ := suspended
        exact .inr (.inr ⟨l, rfl, raw⟩)
      | _ => exact .inl rfl
  | resetop target setup L =>
    cases call with
    | none => exact .inl rfl
    | some c =>
      obtain ⟨-, -, delayed⟩ := waiting c rfl
      cases c with
      | openfile =>
        obtain ⟨path, f, flags, perm, rfl, raw⟩ := delayed
        exact .inr (.inl ⟨f, rfl, raw⟩)
      | _ => exact .inl rfl

theorem waiting_file {wt : RequestPhase.Wait Value (View T)} {f : ℕ}
    (waiting : Waiting w x call wt) (mine : built call wt = .file f) : Raw w f := by
  rcases waiting_built waiting with none | ⟨g, same, raw⟩ | ⟨l, same, raw⟩
  · rw [none] at mine
    cases mine
  · rw [same] at mine
    cases mine
    exact raw
  · rw [same] at mine
    cases mine

theorem waiting_list {wt : RequestPhase.Wait Value (View T)} {l : ℕ}
    (waiting : Waiting w x call wt) (mine : built call wt = .found l) : Rawlist w l := by
  rcases waiting_built waiting with none | ⟨f, same, raw⟩ | ⟨k, same, raw⟩
  · rw [none] at mine
    cases mine
  · rw [same] at mine
    cases mine
  · rw [same] at mine
    cases mine
    exact raw

theorem Waiting.frame {wt : RequestPhase.Wait Value (View T)} (waiting : Waiting w y call wt)
    (frame : Frame x own w w') (same : w'.flight y = w.flight y)
    (other : built call wt = .nil ∨ own ≠ built call wt) : Waiting w' y call wt := by
  cases wt with
  | none => trivial
  | endop L =>
    cases call with
    | none => exact same.trans waiting
    | some c =>
      obtain ⟨flight, flies, suspended⟩ := waiting
      exact ⟨flight, same.trans flies, suspended.frame frame other⟩
  | resetop target setup L =>
    rintro c rfl
    obtain ⟨request, setups, delayed⟩ := waiting c rfl
    exact ⟨request, setups, delayed.frame frame other⟩

theorem Local.frame (mine : Local awaitch w y u call) (frame : Frame x own w w')
    (same : w'.flight y = w.flight y)
    (other : built call (wait u.place) = .nil ∨ own ≠ built call (wait u.place)) :
    Local awaitch w' y u call :=
  ⟨mine.valid, mine.plain, by rw [same]; exact mine.flights, mine.waiting.frame frame same other⟩

omit [DecidableEq T] in
theorem Listed.frame (listed : Listed w) (frame : Frame x own w w')
    (new : ∀ (l : ℕ) (found : Found), own = .found l → w'.lists[l]? = some found →
      found.metatable = true → Showing found.list) : Listed w' := by
  intro l found at_l known
  rcases frame.named l found at_l known with before | mine
  · exact listed l found before known
  · exact new l found mine at_l known

/-- A coroutine takes a turn. -/
theorem Sound.turn (sound : Sound awaitch s lost) (frame : Frame x own s.world w')
    (books : Books w' [] (lost ++ drops)) (mine : Local awaitch w' x v call)
    (others : ∀ y, y ≠ x → builds s y = .nil ∨ own ≠ builds s y)
    (made : ∀ y, y ≠ x → built call (wait v.place) = .nil ∨
      built call (wait v.place) ≠ builds s y)
    (new : ∀ (l : ℕ) (found : Found), own = .found l → w'.lists[l]? = some found →
      found.metatable = true → Showing found.list) :
    Sound awaitch ⟨Function.update s.op x v, Function.update s.call x call, w'⟩
      (lost ++ drops) := by
  have here : builds ⟨Function.update s.op x v, Function.update s.call x call, w'⟩ x =
      built call (wait v.place) := by
    simp only [builds, Function.update_self]
  have there (y : T) (other : y ≠ x) :
      builds ⟨Function.update s.op x v, Function.update s.call x call, w'⟩ y = builds s y := by
    simp only [builds, Function.update_of_ne other]
  refine ⟨books, fun y => ?_, fun y z distinct => ?_, sound.listed.frame frame new⟩
  · by_cases other : y = x
    · subst other
      simp only [Function.update_self]
      exact mine
    · simp only [Function.update_of_ne other]
      exact (sound.each y).frame frame (frame.flights y other) (others y other)
  · by_cases first : y = x
    · subst first
      rw [here, there z (Ne.symm distinct)]
      exact made z (Ne.symm distinct)
    · rw [there y first]
      by_cases second : z = x
      · subst second
        rw [here]
        rcases made y first with none | other
        · by_cases nothing : builds s y = .nil
          · exact .inl nothing
          · exact .inr (by rwa [none])
        · exact .inr (Ne.symm other)
      · rw [there z second]
        exact sound.apart y z distinct

/-- A step that no operation takes part in. -/
theorem Sound.outside (sound : Sound awaitch s lost) (frame : Frame x own s.world w')
    (same : w'.flight = s.world.flight) (books : Books w' [] (lost ++ drops))
    (others : ∀ y, builds s y = .nil ∨ own ≠ builds s y)
    (new : ∀ (l : ℕ) (found : Found), own = .found l → w'.lists[l]? = some found →
      found.metatable = true → Showing found.list) :
    Sound awaitch { s with world := w' } (lost ++ drops) :=
  ⟨books, fun y => (sound.each y).frame frame (by rw [same]) (others y), sound.apart,
    sound.listed.frame frame new⟩

theorem Sound.fresh_file (sound : Sound awaitch s lost) (y : T) :
    .file s.world.files.length ≠ builds s y := fun same =>
  absurd (raw_inside (waiting_file (sound.each y).waiting same.symm)) (Nat.lt_irrefl _)

theorem Sound.fresh_list (sound : Sound awaitch s lost) (y : T) :
    .found s.world.lists.length ≠ builds s y := fun same =>
  absurd (rawlist_inside (waiting_list (sound.each y).waiting same.symm)) (Nat.lt_irrefl _)

theorem Sound.mine (sound : Sound awaitch s lost) (y : T) (other : y ≠ x) :
    builds s y = .nil ∨ builds s x ≠ builds s y :=
  (sound.apart y x other).imp_right Ne.symm

omit [DecidableEq T] in
theorem nobody (y : T) : builds s y = .nil ∨ Value.nil ≠ builds s y :=
  or_iff_not_imp_left.mpr Ne.symm

/-! The steps of operations. -/

theorem op_step (mine : Local awaitch w x u call) {a : Operation.Act Value (View T)}
    {r : Except Site (Operation.State Value (View T))}
    (stepped : Operation.step u a = some r) (proper : AwaitOperation.Proper awaitch a) :
    ∃ v, r = .ok v ∧ Inv v ∧ AwaitOperation.Plain awaitch v ∧ phase v = phased u a := by
  have harmless := AwaitOperation.plain_harmless mine.valid mine.plain (step_cases stepped)
  obtain ⟨v, rfl, valid⟩ := step_valid mine.valid harmless stepped
  exact ⟨v, rfl, valid, (AwaitOperation.step_hold mine.valid mine.plain proper stepped).2,
    RequestPhase.step_phase mine.valid mine.plain stepped⟩

theorem local_phase {ph : RequestPhase.Phase Value (View T)} (valid : Inv v)
    (plain : AwaitOperation.Plain awaitch v) (same : phase v = ph)
    (flights : ∀ flight, w.flight x = some flight → ph.flying = true ∧ Fits flight ∧
      ∀ done ∈ flight.done, Fitting done)
    (waiting : Waiting w x call ph.wait) : Local awaitch w x v call := by
  subst same
  exact ⟨valid, plain, flights, waiting⟩

/-- A coroutine without a request that waits for none. -/
theorem local_idle {ph : RequestPhase.Phase Value (View T)} (valid : Inv v)
    (plain : AwaitOperation.Plain awaitch v) (same : phase v = ph) (idle : w.flight x = none)
    (waiting : Waiting w x call ph.wait) : Local awaitch w x v call :=
  local_phase valid plain same (fun flight flies => by rw [idle] at flies; cases flies) waiting

/-- A setup function of a call ran. -/
theorem setup_local {c : Call} {outcome : Setup Value} (sets : Sets x c w L loose lost outcome w')
    (valid : Inv v) (plain : AwaitOperation.Plain awaitch v)
    (starts : phase v = .of .request outcome) :
    Local awaitch w' x v (some c) ∧ (built (some c) (wait v.place) = .nil ∨
      built (some c) (wait v.place) = building c true L ∨
      built (some c) (wait v.place) = .found w.lists.length) := by
  have waits : wait v.place = (RequestPhase.Phase.of .request outcome :
      RequestPhase.Phase Value (View T)).wait := by rw [← starts]; rfl
  rw [waits]
  cases outcome with
  | armed L' =>
    obtain ⟨flight, flies, fresh, fits, suspended⟩ := sets.armed
    refine ⟨local_phase valid plain starts (fun other same => ?_) ⟨flight, flies, suspended⟩,
      .inr (sets.building L' rfl)⟩
    obtain rfl := Option.some.inj (flies.symm.trans same)
    refine ⟨rfl, fits, fun done landed => ?_⟩
    rw [fresh] at landed
    cases landed
  | armedresults values => exact sets.armed.elim
  | _ => exact ⟨local_idle valid plain starts sets.armed trivial, .inl rfl⟩

theorem client_setup {c : Call} {b : Bool} {outcome : Setup Value}
    (ran : FileSystem.setup c x w env L = .ok (outcome, w')) :
    (client c x).setup ⟨w, env⟩ b L = outcome := by
  simp only [client, ran]

/-- A call whose setup function runs. -/
theorem Sound.start (sound : Sound awaitch s lost) {c : Call} (frame : Frame x .nil s.world w)
    (lists : w.lists = s.world.lists) (books : Books w loose lost) (idle : w.flight x = none)
    (delayed : Delayed w c L)
    (fresh : ∀ y, y ≠ x → building c true L = .nil ∨ building c true L ≠ builds s y)
    (valid : Inv v) (plain : AwaitOperation.Plain awaitch v)
    (starts : phase v = .of .request ((client c x).setup ⟨w, env⟩ true L)) :
    ∃ outcome w', FileSystem.setup c x w env L = .ok (outcome, w') ∧
      Sound awaitch ⟨Function.update s.op x v, Function.update s.call x (some c), w'⟩
        (lost ++ loose) := by
  obtain ⟨outcome, w', ran, sets⟩ : ∃ outcome w', FileSystem.setup c x w env L =
      .ok (outcome, w') ∧ Sets x c w L loose lost outcome w' := setup_sets books idle delayed
  rw [client_setup ran] at starts
  obtain ⟨mine, made⟩ := setup_local sets valid plain starts
  refine ⟨outcome, w', ran, sound.turn (frame.trans sets.frame) sets.books.forget mine
    (fun y _ => nobody y) (fun y other => ?_) (fun l found mine => by cases mine)⟩
  rcases made with none | same | new
  · exact .inl none
  · rw [same]
    exact fresh y other
  · rw [new, lists]
    exact .inr (sound.fresh_list y)

theorem checkreset_request (o : Op) : (o.checkreset .request).1 ≠ .sameop := by
  unfold Op.checkreset
  split_ifs <;> simp

theorem finish_ok {turn : Turn T} {v : Operation.State Value (View T)}
    (effect : turn.effect = .ok w) : finish s turn (.ok v) =
      .ok ⟨Function.update s.op turn.x v, Function.update s.call turn.x turn.call, w⟩ := by
  simp only [finish, effect]
  rfl

/-- A call of one of the functions that yield. -/
theorem Sound.awaits (sound : Sound awaitch s lost) (c : Call) (L : Stack)
    (frame : Frame x .nil s.world w)
    (lists : w.lists = s.world.lists) (same : w.flight = s.world.flight) (books : Books w [] lost)
    (delayed : Delayed w c L)
    (fresh : ∀ y, y ≠ x → building c true L = .nil ∨ building c true L ≠ builds s y)
    {r : Except Failure (FileSystem.State T)}
    (stepped : (Operation.step (s.op x) (await s x c w env L).act).map
      (finish s (await s x c w env L)) = some r) : ∃ s', r = .ok s' ∧ Sound awaitch s' lost := by
  obtain ⟨q, acted, rfl⟩ := Option.map_eq_some_iff.mp stepped
  have called : Operation.step (s.op x) (.call .request (client c x) ⟨w, env⟩ L) = some q := acted
  obtain ⟨v, rfl, valid, plain, phases⟩ := op_step (sound.each x) called ⟨rfl, nofun⟩
  cases check : ((s.op x).op.checkreset .request).1 with
  | sameop => exact absurd check (checkreset_request _)
  | freeop =>
    have idle : w.flight x = none := by
      rw [same]
      by_contra flies
      obtain ⟨flight, flies⟩ := Option.ne_none_iff_exists'.mp flies
      have starts : ((s.op x).op.checkreset .request).1 ≠ .waitop := by rw [check]; simp
      have free := RequestPhase.checkreset_flying (sound.each x).valid starts
      rw [((sound.each x).flights flight flies).1] at free
      cases free
    simp only [phased, check] at phases
    obtain ⟨outcome, w', ran, started⟩ :=
      sound.start frame lists books idle delayed fresh valid plain phases
    rw [List.append_nil] at started
    have effect : (await s x c w env L).effect = .ok w' := by
      simp only [FileSystem.await, check, ran]
      rfl
    exact ⟨_, finish_ok effect, started⟩
  | waitop =>
    simp only [phased, check] at phases
    have effect : (await s x c w env L).effect = .ok w := by
      simp only [FileSystem.await, check]
    have waits : wait v.place = .resetop .request (client c x).setup L :=
      congrArg RequestPhase.Phase.wait phases
    have mine : Local awaitch w x v (some c) := by
      refine local_phase valid plain phases ?_ ?_
      · rw [same]
        exact (sound.each x).flights
      · rintro d ⟨⟩
        exact ⟨rfl, rfl, delayed⟩
    refine ⟨_, finish_ok effect, ?_⟩
    have kept : Books w [] (lost ++ []) := by rwa [List.append_nil]
    have turned := sound.turn frame kept mine (fun y _ => nobody y)
      (fun y other => by rw [waits]; exact fresh y other) (fun l found mine => by cases mine)
    rwa [List.append_nil] at turned

/-- A callback, of a request that is not one of these calls or that nothing is left of, after
which the operation is free. -/
theorem Sound.restart (sound : Sound awaitch s lost) (frame : Frame x .nil s.world w)
    (lists : w.lists = s.world.lists) (books : Books w loose lost) (idle : w.flight x = none)
    (away : ∀ stack c, (s.op x).place = .endop stack → s.call x ≠ some c)
    (valid : Inv v) (plain : AwaitOperation.Plain awaitch v)
    (phases : phase v = restarted (s.op x) ⟨w, env⟩) (values : List Value) :
    ∃ values' w', resumed s x w env values = .ok (values', w') ∧
      Sound awaitch ⟨Function.update s.op x v, Function.update s.call x (s.call x), w'⟩
        (lost ++ loose) := by
  have stays (waiting : Waiting w x (s.call x) (wait v.place))
      (nothing : built (s.call x) (wait v.place) = .nil) :
      Sound awaitch ⟨Function.update s.op x v, Function.update s.call x (s.call x), w⟩
        (lost ++ loose) :=
    sound.turn frame books.forget (local_idle valid plain rfl idle waiting)
      (fun y _ => nobody y) (fun y _ => .inl nothing) (fun l found mine => by cases mine)
  have pending := RequestPhase.pending_iff (sound.each x).valid
  have waits : wait v.place = (restarted (s.op x) ⟨w, env⟩).wait := by rw [← phases]; rfl
  unfold resumed ended
  cases place : (s.op x).place with
  | resetop target setup stack =>
    have suspended : (s.op x).op.flags.pending = true :=
      pending.mpr (.inr ⟨target, setup, stack, place⟩)
    have waiting := (sound.each x).waiting
    rw [place] at waiting
    simp only [restarted, place] at phases waits
    cases mine : s.call x with
    | none =>
      rw [mine] at stays
      simp only [suspended]
      have other : Waiting w x none (wait v.place) ∧ built none (wait v.place) = .nil := by
        rw [waits]
        cases target <;> cases setup ⟨w, env⟩ true stack <;>
          first | exact ⟨idle, rfl⟩ | exact ⟨trivial, rfl⟩
      exact ⟨values, w, rfl, stays other.1 other.2⟩
    | some c =>
      obtain ⟨rfl, rfl, delayed⟩ := waiting c mine
      have mine_built : builds s x = building c true stack := by
        simp only [builds, mine, place]
        rfl
      have fresh (y : T) (other : y ≠ x) :
          building c true stack = .nil ∨ building c true stack ≠ builds s y := by
        rw [← mine_built]
        exact sound.apart x y (Ne.symm other)
      obtain ⟨outcome, w', ran, started⟩ := sound.start frame lists books idle
        (delayed.frame frame (or_iff_not_imp_left.mpr Ne.symm)) fresh valid plain phases
      simp only [suspended, ran]
      exact ⟨[], w', rfl, started⟩
  | endop stack =>
    have suspended : (s.op x).op.flags.pending = true := pending.mpr (.inl ⟨stack, place⟩)
    simp only [restarted, place] at waits
    cases mine : s.call x with
    | none =>
      rw [mine, waits] at stays
      simp only [suspended]
      exact ⟨values, w, rfl, stays trivial rfl⟩
    | some c => exact absurd mine (away stack c place)
  | _ =>
    have alone : (s.op x).op.flags.pending = false := by
      rw [Bool.eq_false_iff]
      intro suspended
      rcases pending.mp suspended with ⟨stack, there⟩ | ⟨target, setup, stack, there⟩ <;>
        · rw [place] at there
          cases there
    simp only [restarted, place] at waits
    rw [waits] at stays
    simp only [alone]
    exact ⟨values, w, rfl, stays trivial rfl⟩

end
end Coutil.FileOwnership
