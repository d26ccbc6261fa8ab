import Coutil.FileOwnership

set_option autoImplicit false

/-! The steps of libuv and of the collector, the methods of the objects, and the callbacks of the
requests: who has what after them, and what nobody has. -/
namespace Coutil.FileSteps
open Operation OperationStates FileResources FileSystem FileCustody FileCalls FileReturns
open FileOwnership
open RequestPhase (wait phase phased restarted)

section
variable {T : Type} [DecidableEq T] {awaitch : Client Value (View T)} {s : FileSystem.State T}
  {w w' : World T} {x y : T} {u v : Operation.State Value (View T)} {call : Option Call}
  {own : Value} {env : Env} {L : Stack} {loose lost drops : List Resource}

/-! Steps that no operation takes part in. -/

/-- Nothing changes that another coroutine waits with. -/
theorem moved_sound (sound : Sound awaitch s lost) (frame : Frame x .nil s.world w')
    (same : w'.flight = s.world.flight) (books : Books w' [] (lost ++ drops)) :
    Sound awaitch { s with world := w' } (lost ++ drops) :=
  sound.outside frame same books nobody fun l found mine => by cases mine

theorem executed_fits {flight : Flight} {done : Done} {r : Except Failure (World T)}
    (fits : Fits flight) (ran : executed w x flight done = some r) :
    Fits { flight with done := some done } := by
  obtain ⟨query, callback, block, landing⟩ := flight
  cases callback with
  | uv_onresolved =>
    obtain ⟨rfl, rfl, -⟩ := fits
    refine ⟨rfl, rfl, ?_⟩
    rintro d ⟨⟩
    unfold executed at ran
    cases results : done.results with
    | none =>
      simp only [results] at ran
      split_ifs at ran with fails
      simpa using fails
    | some addresses =>
      simp only [results] at ran
      split_ifs at ran with fine
      simpa using fine.1
  | _ => exact fits

/-- The request gives what it carried for what it carries once executed. -/
theorem landed_books {flight : Flight} {done : Done} {loose' : List Resource}
    (books : Books w loose lost) (flies : w.flight x = some flight)
    (same : (Flight.holdings flight ++ loose).Perm
      (Flight.holdings { flight with done := some done } ++ loose')) :
    Books (w.setflight x (some { flight with done := some done })) loose' lost := by
  refine books.setflight ?_
  simp only [World.holdings, flies, Option.map_some, Option.getD_some]
  exact same

/-- Libuv executes a request: what comes out of it is with the request. -/
theorem executed_books {flight : Flight} {done : Done} {r : Except Failure (World T)}
    (books : Books w [] lost) (flies : w.flight x = some flight) (pending : flight.done = none)
    (ran : executed w x flight done = some r) : ∃ w', r = .ok w' ∧ Books w' [] lost ∧
      w'.files = w.files ∧ w'.lists = w.lists ∧
      w'.flight = Function.update w.flight x (some { flight with done := some done }) := by
  obtain ⟨query, callback, block, landing⟩ := flight
  obtain rfl : landing = none := pending
  unfold executed at ran
  cases results : done.results with
  | none =>
    cases query with
    | openfile | mkstemp =>
      simp only [results] at ran
      by_cases fails : done.result < 0
      · rw [if_pos fails] at ran
        cases ran
        refine ⟨_, rfl, landed_books books flies ?_, rfl, rfl, rfl⟩
        simp [Flight.holdings, opened, found, fails]
      · rw [if_neg fails] at ran
        split_ifs at ran with used
        cases ran
        refine ⟨_, rfl, landed_books (books.openfd used) flies ?_, rfl, rfl, rfl⟩
        simp [Flight.holdings, opened, found, fails]
    | close fd =>
      simp only [results] at ran
      have taken : Books (w.setflight x (some ⟨.close fd, callback, block, some done⟩))
          [.descriptor fd] lost := by
        refine landed_books books flies ?_
        simp [Flight.holdings, opened, found]
      obtain ⟨released, rest⟩ := taken.release
      rw [released] at ran
      cases ran
      exact ⟨_, rfl, rest, rfl, rfl, rfl⟩
    | getaddrinfo =>
      simp only [results] at ran
      split_ifs at ran with fails
      cases ran
      refine ⟨_, rfl, landed_books books flies ?_, rfl, rfl, rfl⟩
      simp [Flight.holdings, opened, found, results]
    | mkdtemp | other =>
      simp only [results] at ran
      cases ran
      refine ⟨_, rfl, landed_books books flies ?_, rfl, rfl, rfl⟩
      simp [Flight.holdings, opened, found]
  | some addresses =>
    cases query with
    | getaddrinfo =>
      simp only [results] at ran
      split_ifs at ran with fine
      cases ran
      have created := books.create fine.2 (by simp)
      refine ⟨_, rfl, landed_books created flies ?_, rfl, rfl, rfl⟩
      simp [Flight.holdings, opened, found, results]
    | _ =>
      simp only [results] at ran
      cases ran

omit [DecidableEq T] in
theorem suspended_done {c : Call} {flight : Flight} {landing : Option Done}
    (suspended : Suspended w c flight L) : Suspended w c { flight with done := landing } L := by
  cases c <;> exact suspended

theorem work_sound (sound : Sound awaitch s lost) {query : Query}
    {callback : FileResources.Callback} {block : Option ℕ} {done : Done}
    {r : Except Failure (World T)} (fitting : Fitting done)
    (flies : s.world.flight x = some ⟨query, callback, block, none⟩)
    (ran : executed s.world x ⟨query, callback, block, none⟩ done = some r) :
    ∃ w', r = .ok w' ∧ Sound awaitch { s with world := w' } lost := by
  obtain ⟨w', rfl, books, files, lists, flights⟩ := executed_books sound.books flies rfl ran
  have frame : Frame x .nil s.world w' :=
    .of_flight (fun y other => by rw [flights, Function.update_of_ne other]) files lists
  have mine := sound.each x
  obtain ⟨flying, fits, -⟩ := mine.flights _ flies
  have lands : w'.flight x = some ⟨query, callback, block, some done⟩ := by
    rw [flights, Function.update_self]
  refine ⟨w', rfl, books, fun y => ?_, sound.apart,
    sound.listed.frame frame fun l found mine => by cases mine⟩
  by_cases other : y = x
  · subst other
    refine ⟨mine.valid, mine.plain, fun flight same => ?_, ?_⟩
    · obtain rfl := Option.some.inj (lands.symm.trans same)
      refine ⟨flying, executed_fits fits ran, ?_⟩
      rintro d ⟨⟩
      exact fitting
    · have waiting := mine.waiting
      cases waits : wait (s.op y).place with
      | none => trivial
      | endop L =>
        rw [waits] at waiting
        cases known : s.call y with
        | none =>
          rw [known] at waiting
          cases flies.symm.trans (show s.world.flight y = none from waiting)
        | some c =>
          rw [known] at waiting
          obtain ⟨flight, same, suspended⟩ := waiting
          obtain rfl := Option.some.inj (flies.symm.trans same)
          have still := suspended.frame frame (or_iff_not_imp_left.mpr Ne.symm)
          exact ⟨_, lands, suspended_done still⟩
      | resetop target setup L =>
        rw [waits] at waiting
        intro c known
        obtain ⟨request, setups, delayed⟩ := waiting c known
        exact ⟨request, setups, delayed.frame frame (or_iff_not_imp_left.mpr Ne.symm)⟩
  · exact (sound.each y).frame frame (frame.flights y other) (nobody y)

omit [DecidableEq T] in
theorem showing_call {list : FoundAddresses.AddressList} (showing : Showing list)
    (method : FoundAddresses.Method) :
    ∃ answer list', FoundAddresses.call list method = .ok (answer, list') ∧ Showing list' := by
  obtain ⟨q, refines, proper⟩ := showing
  obtain ⟨answer, q', called, proper'⟩ := FoundAddresses.sequence_call_proper proper method
  have agrees := FoundAddresses.call_refines refines method
  rw [called] at agrees
  cases result : FoundAddresses.call list method with
  | error failure =>
    rw [result] at agrees
    exact agrees.elim
  | ok r =>
    rw [result] at agrees
    exact ⟨r.1, r.2, rfl, q', agrees.2, proper'⟩

theorem map_ok {α β : Type} {f : α → β} {q : Except FoundAddresses.Failure α} {b : β}
    (mapped : q.map f = .ok b) : ∃ a, f a = b := by
  cases q with
  | error failure => cases mapped
  | ok a => exact ⟨a, Except.ok.inj mapped⟩

/-- A method that is called on an object keeps the list of libuv, unless it closes the object. -/
theorem call_start {list list' : FoundAddresses.AddressList} {method : FoundAddresses.Method}
    {answer : FoundAddresses.Answer} (stays : method ≠ .close ∧ method ≠ .gc)
    (called : FoundAddresses.call list method = .ok (answer, list')) :
    list'.start = list.start := by
  obtain ⟨start, current⟩ := list
  cases start with
  | none =>
    cases method with
    | gc => exact absurd rfl stays.2
    | _ =>
      cases called
      rfl
  | some results =>
    cases method with
    | gc => exact absurd rfl stays.2
    | close => exact absurd rfl stays.1
    | next =>
      obtain ⟨r, same⟩ := map_ok called
      cases same
      rfl
    | reset =>
      obtain ⟨r, same⟩ := map_ok called
      cases same
      rfl
    | _ =>
      simp only [FoundAddresses.call] at called
      split at called
      · cases called
      · obtain ⟨r, same⟩ := map_ok called
        cases same
        rfl

/-! A list that is closed shows no address and keeps none of libuv. -/

theorem showing_closed (list : FoundAddresses.AddressList) :
    Showing (FoundAddresses.closeaddrlist list) := by
  refine ⟨none, ?_, fun _ inside => absurd inside (Option.not_mem_none _)⟩
  unfold FoundAddresses.closeaddrlist
  cases start : list.start with
  | none => exact start
  | some results => rfl

theorem holdings_closed (found : Found) : FileCustody.Found.holdings
    { found with list := FoundAddresses.closeaddrlist found.list } = [] := by
  unfold FoundAddresses.closeaddrlist
  cases start : found.list.start <;> simp [FileCustody.Found.holdings, start]

theorem found_sound (sound : Sound awaitch s lost) (l : ℕ) (method : FoundAddresses.Method) :
    ∃ w', found_call s.world l method = .ok w' ∧ Sound awaitch { s with world := w' } lost := by
  unfold found_call
  cases checked : (s.world.lists[l]?).filter Found.metatable with
  | none => exact ⟨s.world, rfl, sound⟩
  | some found =>
    obtain ⟨at_l, known⟩ := Option.filter_eq_some_iff.mp checked
    have inside := (List.getElem?_eq_some_iff.mp at_l).1
    have holds : World.holdings s.world (.found l) =
        found.list.start.toList.map fun results => .addresses results.block := by
      simp only [World.holdings, at_l, Option.map_some, Option.getD_some,
        FileCustody.Found.holdings, known, if_true]
    have others (y : T) : builds s y = .nil ∨ .found l ≠ builds s y := by
      refine .inr fun same => ?_
      obtain ⟨list, raw⟩ := waiting_list (sound.each y).waiting same.symm
      rw [at_l] at raw
      cases raw
      cases known
    have changes {w₁ : World T} {list : FoundAddresses.AddressList} (showing : Showing list)
        (files : w₁.files = s.world.files) (lists : w₁.lists = s.world.lists)
        (flights : w₁.flight = s.world.flight)
        (books : Books (w₁.setlist l { found with list := list }) [] lost) :
        Sound awaitch { s with world := w₁.setlist l { found with list := list } } lost := by
      have frame (x : T) : Frame x (.found l) s.world (w₁.setlist l { found with list := list }) :=
        .trans (.of_flight (fun y _ => by rw [flights]) files lists) frame_setownlist
      refine ⟨books, fun y => (sound.each y).frame (frame y) (congrFun flights y) (others y),
        sound.apart, ?_⟩
      intro k found' at_k known'
      by_cases here : l = k
      · subst here
        simp only [World.setlist] at at_k
        rw [List.getElem?_set_self (by rwa [lists])] at at_k
        cases at_k
        exact showing
      · simp only [World.setlist] at at_k
        rw [List.getElem?_set_ne here, lists] at at_k
        exact sound.listed k found' at_k known'
    have closes : ∃ w₁, uv_freeaddrinfo s.world found.list.start = .ok w₁ ∧
        Sound awaitch ⟨s.op, s.call, w₁.setlist l
          { found with list := FoundAddresses.closeaddrlist found.list }⟩ lost := by
      cases start : found.list.start with
      | none =>
        refine ⟨_, rfl, changes (showing_closed _) rfl rfl rfl (sound.books.setlist inside ?_)⟩
        rw [holds, holdings_closed, start]
        rfl
      | some results =>
        rw [start] at holds
        have given : Books (s.world.setlist l
            { found with list := FoundAddresses.closeaddrlist found.list })
            [.addresses results.block] lost := by
          refine sound.books.setlist inside ?_
          rw [holds, holdings_closed]
          rfl
        have live := sound.books.custody.held_live (h := .found l) (r := .addresses results.block)
          (by rw [holds]; exact List.mem_singleton_self _)
        refine ⟨_, by rw [uv_freeaddrinfo, World.release, if_pos live], ?_⟩
        exact changes (showing_closed _) rfl rfl rfl given.release.2
    have readable : reads s.world found.list = .ok () := by
      unfold reads
      cases start : found.list.start with
      | none => rfl
      | some results =>
        rw [start] at holds
        exact if_pos (sound.books.custody.held_live (h := .found l)
          (by rw [holds]; exact List.mem_singleton_self _))
    have goes (stays : method ≠ .close ∧ method ≠ .gc) : ∃ answer list',
        FoundAddresses.call found.list method = .ok (answer, list') ∧
        Sound awaitch { s with world := s.world.setlist l { found with list := list' } } lost := by
      obtain ⟨answer, list', called, showing⟩ :=
        showing_call (sound.listed l found at_l known) method
      refine ⟨answer, list', called, changes showing rfl rfl rfl (sound.books.setlist inside ?_)⟩
      rw [holds]
      simp [FileCustody.Found.holdings, known, call_start stays called]
    cases method with
    | close | gc =>
      obtain ⟨w₁, freed, after⟩ := closes
      simp only [freed, bind, Except.bind, pure, Except.pure]
      exact ⟨_, rfl, after⟩
    | _ =>
      obtain ⟨answer, list', called, after⟩ := goes (by simp)
      simp only [readable, called, bind, Except.bind, pure, Except.pure]
      exact ⟨_, rfl, after⟩

/-! Callbacks of the requests of these calls. -/

/-- What a step leaves to nobody: the callback of a coroutine that does not wait any more or that
waits to start another call, the results function of one that waits, and the blocking
`system.maketemp` and `system.fileinfo`. -/
def dropped (s : FileSystem.State T) : Act T → List Resource
  | .uvcallback x env =>
    match s.world.flight x with
    | some ⟨query, callback, block, some done⟩ =>
      let flight : Flight := ⟨query, callback, block, some done⟩
      match (s.op x).place, s.call x with
      | .endop L, some call => unkept call env L flight done
      | .resetop _ _ _, _ => delivered flight done
      | _, _ => opened query done
    | _ => []
  | .maketemp _ L env =>
    match system_maketemp L with
    | some (true, _) => unmade s.world env
    | _ => []
  | .fileinfo L bits env => unshown s.world env L bits
  | _ => []

theorem uvcallback_turn {query : Query} {callback : FileResources.Callback} {block : Option ℕ}
    {done : Done} {r : Except Failure (FileSystem.State T)} {values : List Value}
    (flies : s.world.flight x = some ⟨query, callback, block, some done⟩)
    (called : FileResources.uvcallback (s.world.setflight x none)
      ⟨query, callback, block, some done⟩ done (s.op x).op.flags.pending = .ok (values, w))
    (stepped : FileSystem.step awaitch s (.uvcallback x env) = some r) :
    ∃ q, Operation.step (s.op x)
        (.requestcb ⟨w, env⟩ (valuesof (resumed s x w env values))) = some q ∧
      r = finish s ⟨x, .requestcb ⟨w, env⟩ (valuesof (resumed s x w env values)), s.call x,
        (resumed s x w env values).map Prod.snd⟩ q := by
  simp only [FileSystem.step, taken, flies, called, Except.bind] at stepped
  obtain ⟨q, acted, rfl⟩ := Option.map_eq_some_iff.mp stepped
  exact ⟨q, acted, rfl⟩

/-- What the request carried is in hand when it is called back. -/
theorem landed_taken (sound : Sound awaitch s lost) {flight : Flight}
    (flies : s.world.flight x = some flight) :
    Books (s.world.setflight x none) (Flight.holdings flight ++ []) lost := by
  refine sound.books.setflight ?_
  simp only [World.holdings, flies, Option.map_some, Option.getD_some, Option.map_none,
    Option.getD_none]
  exact List.perm_append_comm.trans (by simp)

/-- The callback of a coroutine that does not wait for the results of a call. -/
theorem uvcallback_restarts (sound : Sound awaitch s lost) {query : Query}
    {callback : FileResources.Callback} {block : Option ℕ} {done : Done}
    {r : Except Failure (FileSystem.State T)} {values : List Value}
    (flies : s.world.flight x = some ⟨query, callback, block, some done⟩)
    (called : FileResources.uvcallback (s.world.setflight x none)
      ⟨query, callback, block, some done⟩ done (s.op x).op.flags.pending = .ok (values, w))
    (frame : Frame x .nil (s.world.setflight x none) w) (lists : w.lists = s.world.lists)
    (flights : w.flight = (s.world.setflight x none).flight) (books : Books w loose lost)
    (away : ∀ stack c, (s.op x).place = .endop stack → s.call x ≠ some c)
    (stepped : FileSystem.step awaitch s (.uvcallback x env) = some r) :
    ∃ s', r = .ok s' ∧ Sound awaitch s' (lost ++ loose) := by
  obtain ⟨q, acted, rfl⟩ := uvcallback_turn flies called stepped
  obtain ⟨v, rfl, valid, plain, phases⟩ := op_step (sound.each x) acted trivial
  have frees : Frame x .nil s.world (s.world.setflight x none) := frame_setflight
  have idle : w.flight x = none := by
    rw [flights]
    exact Function.update_self ..
  obtain ⟨values', w', resumes, restarted⟩ := sound.restart (frees.trans frame) lists books idle
    away valid plain phases values
  exact ⟨_, finish_ok (by simp only [resumes]; rfl), restarted⟩

/-- The callback of a coroutine that waits for the results of its call. -/
theorem uvcallback_returns (sound : Sound awaitch s lost) {query : Query}
    {callback : FileResources.Callback} {block : Option ℕ} {done : Done} {c : Call}
    {r : Except Failure (FileSystem.State T)}
    (flies : s.world.flight x = some ⟨query, callback, block, some done⟩)
    (place : (s.op x).place = .endop L) (known : s.call x = some c)
    (stepped : FileSystem.step awaitch s (.uvcallback x env) = some r) :
    ∃ s', r = .ok s' ∧ Sound awaitch s'
      (lost ++ unkept c env L ⟨query, callback, block, some done⟩ done) := by
  have mine := sound.each x
  obtain ⟨-, fits, fitting⟩ := mine.flights _ flies
  have waits : (s.op x).op.flags.pending = true :=
    (RequestPhase.pending_iff mine.valid).mpr (.inl ⟨L, place⟩)
  have frees (own : Value) : Frame x own s.world (s.world.setflight x none) := frame_setflight
  have waiting := mine.waiting
  rw [place, known] at waiting
  obtain ⟨flight, same, suspended⟩ := waiting
  obtain rfl := Option.some.inj (flies.symm.trans same)
  obtain ⟨w, called, books, frame, flights, files, lists⟩ :=
    uvcallback_waiting x .nil fits rfl (landed_taken sound flies)
  rw [List.append_nil] at books
  have still := suspended.frame ((frees .nil).trans frame) (or_iff_not_imp_left.mpr Ne.symm)
  obtain ⟨values, w', returns, rest, frame', flights', founds⟩ :=
    returned_books x env fits rfl still books
  obtain ⟨q, acted, rfl⟩ := uvcallback_turn flies (by rw [waits]; exact called) stepped
  obtain ⟨v, rfl, valid, plain, phases⟩ := op_step mine acted trivial
  have resumes : resumed s x w env (pushed ⟨query, callback, block, some done⟩ done) =
      .ok (values, w') := by
    simp only [resumed, ended, waits, place, known]
    exact returns
  have mine_built : builds s x = building c false L := by
    simp only [builds, place, known]
    rfl
  have ends : phase v = ⟨false, .none⟩ := by
    rw [phases]
    simp only [phased, restarted, place]
  have idle : w'.flight x = none := by
    rw [flights', flights]
    exact Function.update_self ..
  have waits_v : wait v.place = .none := congrArg RequestPhase.Phase.wait ends
  have frame_all := ((frees (building c false L)).trans
    (Frame.of_flight (fun y _ => by rw [flights]) files lists)).trans frame'
  refine ⟨_, finish_ok (by simp only [resumes]; rfl), sound.turn frame_all rest.forget
    (local_idle valid plain ends idle trivial) ?_ ?_ ?_⟩
  · rw [← mine_built]
    exact fun y other => sound.mine y other
  · rw [waits_v]
    exact fun y _ => .inl rfl
  · intro l found mine at_l known
    obtain ⟨results, given, made⟩ := founds l mine found at_l known
    obtain ⟨q, entries, -, refines⟩ := FoundAddresses.returnfound_refines made
    refine ⟨some q, refines, ?_⟩
    rintro t ⟨⟩
    rw [entries]
    exact fitting done rfl results given

theorem uvcallback_sound (sound : Sound awaitch s lost)
    {r : Except Failure (FileSystem.State T)}
    (stepped : FileSystem.step awaitch s (.uvcallback x env) = some r) :
    ∃ s', r = .ok s' ∧ Sound awaitch s' (lost ++ dropped s (.uvcallback x env)) := by
  rcases flies : s.world.flight x with _ | ⟨query, callback, block, _ | done⟩
  · simp only [FileSystem.step, taken, flies] at stepped
    cases stepped
  · simp only [FileSystem.step, taken, flies] at stepped
    cases stepped
  · have mine := sound.each x
    obtain ⟨-, fits, -⟩ := mine.flights _ flies
    have pending := RequestPhase.pending_iff mine.valid
    have alone (nowait : (s.op x).op.flags.pending = false) : ∃ s', r = .ok s' ∧
        Sound awaitch s' (lost ++ opened query done) := by
      obtain ⟨values, w, called, books, frame, flights, lists⟩ :=
        uvcallback_alone x .nil fits rfl (landed_taken sound flies)
      rw [List.append_nil] at books
      refine uvcallback_restarts sound flies (by rw [nowait]; exact called) frame lists flights
        books (fun stack c place => ?_) stepped
      rw [pending.mpr (.inl ⟨stack, place⟩)] at nowait
      cases nowait
    simp only [dropped, flies]
    cases place : (s.op x).place with
    | resetop target setup stack =>
      have waits : (s.op x).op.flags.pending = true :=
        pending.mpr (.inr ⟨target, setup, stack, place⟩)
      obtain ⟨w, called, books, frame, flights, -, lists⟩ :=
        uvcallback_waiting x .nil fits rfl (landed_taken sound flies)
      rw [List.append_nil] at books
      refine uvcallback_restarts sound flies (by rw [waits]; exact called) frame lists flights
        books (fun stack c there => ?_) stepped
      rw [place] at there
      cases there
    | endop L =>
      cases known : s.call x with
      | none =>
        have waiting := mine.waiting
        rw [place, known] at waiting
        cases flies.symm.trans (show s.world.flight x = none from waiting)
      | some c => exact uvcallback_returns sound flies place known stepped
    | _ =>
      refine alone (Bool.eq_false_iff.mpr fun waits => ?_)
      rcases pending.mp waits with ⟨stack, there⟩ | ⟨target, setup, stack, there⟩ <;>
        · rw [place] at there
          cases there

end
end Coutil.FileSteps
