import Coutil.FileCalls

set_option autoImplicit false

/-! What the results functions, the blocking functions and the methods of objects do with the
resources that they are given. -/
namespace Coutil.FileReturns
open Operation FileResources FileSystem FileCustody FileCalls

section
variable {T : Type}

/-- `pushfileinfo` pushes something, for which there is no memory. -/
def pushes (L : Stack) (result : ℤ) : Bool :=
  decide (0 ≤ result ∨ (bitsof (index L 3) &&&
    (FileInfo.INFO_READLINK <<< FileInfo.INFO_BITCOUNT) ≠ 0 ∧ result = FileInfo.UV_EINVAL))

/-- What the results function of a call gives to nobody and does not release. -/
def unkept (call : Call) (env : Env) (L : Stack) (flight : Flight) (done : Done) :
    List Resource :=
  match call with
  | .fileinfo =>
    if pushes (L ++ pushed flight done) done.result ∧ !env.memory 0 then internals flight.block
    else []
  | .fobjinfo => if 0 ≤ done.result ∧ !env.memory 0 then internals flight.block else []
  | _ => []

variable {w w' : World T} {x : T} {own : Value} {env : Env} {L : Stack}
  {loose lost : List Resource}

theorem raw_holdings {f : ℕ} (raw : Raw w f) : FileCustody.World.holdings w (.file f) = [] := by
  obtain ⟨fd, at_f⟩ := raw
  simp only [FileCustody.World.holdings, at_f, Option.map_some, Option.getD_some,
    FileCustody.File.holdings, Bool.false_eq_true, false_and, if_false]

theorem raw_inside {f : ℕ} (raw : Raw w f) : f < w.files.length := by
  obtain ⟨fd, at_f⟩ := raw
  exact (List.getElem?_eq_some_iff.mp at_f).1

theorem rawlist_inside {l : ℕ} (raw : Rawlist w l) : l < w.lists.length := by
  obtain ⟨list, at_l⟩ := raw
  exact (List.getElem?_eq_some_iff.mp at_l).1

theorem rawlist_holdings {l : ℕ} (raw : Rawlist w l) :
    FileCustody.World.holdings w (.found l) = [] := by
  obtain ⟨list, at_l⟩ := raw
  simp only [FileCustody.World.holdings, at_l, Option.map_some, Option.getD_some,
    FileCustody.Found.holdings, Bool.false_eq_true, if_false]

theorem newfile_raw : Raw w.newfile w.files.length :=
  ⟨-1, by simp only [World.newfile, List.getElem?_concat_length]⟩

/-- A file that was just made gets a descriptor. -/
theorem frame_made {file : File} : Frame x own w (w.newfile.setfile w.files.length file) := by
  refine ⟨fun _ _ => rfl, fun f _ raw => ?_, fun _ _ raw => raw, fun _ _ same _ => .inl same⟩
  have old := raw_inside raw
  obtain ⟨fd, at_f⟩ := raw
  refine (⟨fd, ?_⟩ : Raw _ f)
  simp only [World.setfile, World.newfile]
  rw [List.getElem?_set_ne (by omega), List.getElem?_append_left old]
  exact at_f

variable [DecidableEq T]

theorem books_named {f : ℕ} {fd : ℤ} (raw : Raw w f) (nonneg : 0 ≤ fd)
    (books : Books w (.descriptor fd.toNat :: loose) lost) :
    Books (w.setfile f ⟨true, fd⟩) loose lost := by
  refine books.setfile (raw_inside raw) ?_
  rw [raw_holdings raw]
  simp only [FileCustody.File.holdings, nonneg, and_self, if_true]
  rfl

omit [DecidableEq T] in
/-- A blocking close of a descriptor in hand. -/
theorem uv_fs_close_books {fd : ℤ} (nonneg : 0 ≤ fd)
    (books : Books w (.descriptor fd.toNat :: loose) lost) :
    ∃ w', uv_fs_close w fd = .ok w' ∧ Books w' loose lost ∧
      w'.files = w.files ∧ w'.lists = w.lists ∧ w'.flight = w.flight := by
  have live := books.custody.loose_live (List.mem_cons_self (a := Resource.descriptor fd.toNat))
  have given : w.given fd = .ok () := by rw [World.given, if_pos ⟨live, nonneg⟩]
  obtain ⟨released, books⟩ := books.release
  refine ⟨_, ?_, books, rfl, rfl, rfl⟩
  simp only [uv_fs_close, given, released, bind, Except.bind]

theorem returnopenfile_books (x : T) (path : Value) {f : ℕ} (result : ℤ) (raw : Raw w f)
    (books : Books w (if result < 0 then [] else [.descriptor result.toNat]) lost) :
    ∃ values w', returnopenfile w [path, .file f, .integer result] = .ok (values, w') ∧
      Books w' [] lost ∧ Frame x (.file f) w w' ∧ w'.flight = w.flight := by
  have top : (index [path, .file f, .integer result] 3).tointeger = result := rfl
  unfold returnopenfile
  simp only [show index [path, .file f, .integer result] 2 = .file f from rfl, top]
  by_cases fails : result < 0
  · simp only [if_pos fails] at books ⊢
    exact ⟨_, w, rfl, books, .refl, rfl⟩
  · simp only [if_neg fails] at books ⊢
    exact ⟨_, _, rfl, books_named raw (by omega) books, frame_setown, rfl⟩

/-- The descriptor is in hand as long as `pcallmktmp` made no object of it. -/
def keeping (made : Option ℕ) (req : Filereq) : List Resource :=
  if made.isSome then [] else [.descriptor req.result.toNat]

theorem pcallmktmp_books (env : Env) (x : T) (own : Value) {req : Filereq}
    (nonneg : 0 ≤ req.result) (chars : List Char) (n : ℕ) (made : Option ℕ) (values : List Value)
    (books : Books w (keeping made req ++ loose) lost) :
    ∃ fine values' w' made', pcallmktmp env req chars n w made values =
        (fine, values', w', made') ∧
      Books w' (keeping made' req ++ loose) lost ∧ Frame x own w w' ∧ w'.flight = w.flight := by
  induction chars generalizing n w made values with
  | nil => exact ⟨true, values, w, made, rfl, books, .refl, rfl⟩
  | cons c chars ih =>
    unfold pcallmktmp
    by_cases path : c = 'f'
    · rw [if_pos path]
      by_cases memory : env.memory n = true
      · rw [if_pos memory]
        exact ih _ _ _ books
      · rw [if_neg memory]
        exact ⟨_, _, _, _, rfl, books, .refl, rfl⟩
    · rw [if_neg path]
      by_cases opens : c = 'o'
      · rw [if_pos opens]
        cases made with
        | some f => exact ih _ _ _ books
        | none =>
          by_cases memory : env.memory n = true
          · simp only [if_pos memory]
            have given := books_named newfile_raw nonneg books.newfile
            obtain ⟨fine, values', w', made', called, books, frame, flights⟩ :=
              ih (n + 1) (some w.files.length) (values ++ [.file w.files.length]) given
            exact ⟨fine, values', w', made', called, books, frame_made.trans frame, flights⟩
          · simp only [if_neg memory]
            exact ⟨_, _, _, _, rfl, books, .refl, rfl⟩
      · rw [if_neg opens]
        exact ih _ _ _ books

/-- The descriptor of a temporary file. -/
def tempfd (L : Stack) (req : Filereq) : List Resource :=
  if isuserdata (index L 3) ∧ 0 ≤ req.result then [.descriptor req.result.toNat] else []

omit [DecidableEq T] in
theorem index_append {idx : ℕ} (values : List Value) (inside : idx - 1 < L.length) :
    index (L ++ values) idx = index L idx := by
  unfold index
  rw [List.getD_eq_getElem?_getD, List.getD_eq_getElem?_getD, List.getElem?_append_left inside]

omit [DecidableEq T] in
theorem index_last (v : Value) : index (L ++ [v]) (L ++ [v]).length = v := by
  unfold index
  rw [List.getD_eq_getElem?_getD, List.length_append, List.length_singleton, Nat.add_sub_cancel,
    List.getElem?_concat_length]
  rfl

/-- What `returnmktmp` does up to the clean up of the request. -/
theorem mktmp_objects (env : Env) (x : T) (own : Value) {req : Filereq} (nonneg : 0 ≤ req.result)
    (books : Books w (tempfd L req ++ loose) lost) :
    ∃ fine values w' object, mktmpresults w env req (index L 3) = (fine, values, w', object) ∧
      Books w' ((if object.isSome then [] else tempfd L req) ++ loose) lost ∧
      Frame x own w w' ∧ w'.flight = w.flight := by
  unfold mktmpresults
  cases third : index L 3 with
  | mode chars =>
    have hand : tempfd L req = keeping none req := by
      unfold tempfd
      rw [third, if_pos ⟨rfl, nonneg⟩]
      rfl
    rw [hand] at books
    obtain ⟨fine, values, w', object, called, kept, rest⟩ :=
      pcallmktmp_books env x own nonneg chars 0 none [] books
    simp only [called, hand]
    refine ⟨fine, values, w', object, rfl, ?_, rest⟩
    cases object <;> exact kept
  | _ => exact ⟨_, _, w, none, rfl, books, .refl, rfl⟩

theorem returnmktmp_books (env : Env) (x : T) (own : Value) (req : Filereq) (length : L.length = 4)
    (books : Books w (internals req.block ++ tempfd L req) lost) :
    ∃ values w', returnmktmp w env (L ++ [.filereq req]) = .ok (values, w') ∧
      Books w' [] lost ∧ Frame x own w w' ∧ w'.flight = w.flight := by
  have five : (L ++ [Value.filereq req]).length = 5 := by rw [List.length_append, length]; rfl
  have third : index (L ++ [.filereq req]) 3 = index L 3 := index_append _ (by omega)
  have fifth : index (L ++ [.filereq req]) 5 = .filereq req := by
    have last := index_last (L := L) (.filereq req)
    rwa [five] at last
  unfold returnmktmp
  rw [if_neg (by simp [five]), fifth, third]
  by_cases fails : req.result < 0
  · have none : tempfd L req = [] := by
      unfold tempfd
      rw [if_neg (by omega)]
    rw [none] at books
    obtain ⟨w', cleaned, books, frame, flights, -, -⟩ := cleanup_frame x own books
    refine ⟨pusherrres req.result, w', ?_, books, frame, flights⟩
    simp only [if_pos fails, cleaned, bind, Except.bind, pure, Except.pure]
  · simp only [if_neg fails]
    have nonneg : 0 ≤ req.result := by omega
    have hand : Books w (tempfd L req ++ internals req.block) lost :=
      books.reorder List.perm_append_comm
    obtain ⟨fine, values, w₁, object, called, kept, frame₁, flights₁⟩ :=
      mktmp_objects env x own nonneg hand
    obtain ⟨w₂, cleaned, rest, frame₂, flights₂, -, -⟩ := cleanup_frame x own
      (kept.reorder List.perm_append_comm)
    simp only [called, cleaned, bind, Except.bind, pure, Except.pure]
    have frame := frame₁.trans frame₂
    have flights := flights₂.trans flights₁
    cases object with
    | some f =>
      simp only [Option.isNone_some, Bool.and_false, Bool.false_eq_true, if_false]
      exact ⟨_, w₂, rfl, rest, frame, flights⟩
    | none =>
      simp only [Option.isSome_none, Bool.false_eq_true, if_false] at rest
      simp only [Option.isNone_none, Bool.and_true]
      by_cases mkfile : isuserdata (index L 3) = true
      · have hand : tempfd L req = [.descriptor req.result.toNat] := if_pos ⟨mkfile, nonneg⟩
        rw [hand] at rest
        obtain ⟨w₃, closed, rest, files, lists, same⟩ := uv_fs_close_books nonneg rest
        simp only [mkfile, if_true, closed]
        exact ⟨_, w₃, rfl, rest,
          frame.trans (.of_flight (fun y _ => by rw [same]) files lists), same.trans flights⟩
      · have hand : tempfd L req = [] := if_neg fun both => mkfile both.1
        rw [hand] at rest
        simp only [mkfile]
        exact ⟨_, w₂, rfl, rest, frame, flights⟩

omit [DecidableEq T] in
theorem returnfileinfo_books {flight : Flight} {done : Done}
    (callback : flight.callback = .on_fileinfo)
    (books : Books w (internals flight.block) lost) :
    ∃ values w', returnfileinfo w env (L ++ pushed flight done) = .ok (values, w') ∧
      Books w' (unkept .fileinfo env L flight done) lost ∧ Frame x own w w' ∧
      w'.flight = w.flight := by
  have values : pushed flight done = [.filereq ⟨flight.block, done.result, done.path⟩] := by
    unfold pushed
    rw [callback]
  have last := index_last (L := L) (.filereq ⟨flight.block, done.result, done.path⟩)
  have hand : Books w (internals flight.block ++ []) lost := by rwa [List.append_nil]
  obtain ⟨w', cleaned, rest, frame, flights, -, -⟩ := cleanup_frame x own hand
  unfold returnfileinfo unkept pushes
  rw [values, last]
  simp only
  by_cases shows : 0 ≤ done.result ∨ (bitsof (index (L ++ [.filereq ⟨flight.block, done.result,
      done.path⟩]) 3) &&& (FileInfo.INFO_READLINK <<< FileInfo.INFO_BITCOUNT) ≠ 0 ∧
      done.result = FileInfo.UV_EINVAL)
  · rw [if_pos shows]
    by_cases memory : env.memory 0 = true
    · simp only [memory, if_true, cleaned, bind, Except.bind, pure, Except.pure, Bool.not_true,
        Bool.false_eq_true, and_false, if_false]
      exact ⟨_, w', rfl, rest, frame, flights⟩
    · simp only [memory, Bool.not_false, and_true, decide_eq_true shows, if_true]
      exact ⟨_, w, rfl, books, .refl, rfl⟩
  · rw [if_neg shows]
    simp only [cleaned, bind, Except.bind, pure, Except.pure, decide_eq_false shows,
      Bool.false_eq_true, false_and, if_false]
    exact ⟨_, w', rfl, rest, frame, flights⟩

omit [DecidableEq T] in
theorem returnfobjinfo_books {flight : Flight} {done : Done}
    (callback : flight.callback = .on_fileinfo) (length : L.length = 3) {chars : List Char}
    (third : index L 3 = .mode chars) (books : Books w (internals flight.block) lost) :
    ∃ values w', returnfobjinfo w env (L ++ pushed flight done) = .ok (values, w') ∧
      Books w' (unkept .fobjinfo env L flight done) lost ∧ Frame x own w w' ∧
      w'.flight = w.flight := by
  have values : pushed flight done = [.filereq ⟨flight.block, done.result, done.path⟩] := by
    unfold pushed
    rw [callback]
  have last := index_last (L := L) (.filereq ⟨flight.block, done.result, done.path⟩)
  have mode : index (L ++ [.filereq ⟨flight.block, done.result, done.path⟩]) 3 = .mode chars := by
    rw [index_append _ (by omega), third]
  have hand : Books w (internals flight.block ++ []) lost := by rwa [List.append_nil]
  obtain ⟨w', cleaned, rest, frame, flights, -, -⟩ := cleanup_frame x own hand
  unfold returnfobjinfo unkept
  rw [values, last, mode]
  simp only
  by_cases fine : 0 ≤ done.result
  · rw [if_pos fine]
    by_cases memory : env.memory 0 = true
    · simp only [memory, if_true, cleaned, bind, Except.bind, pure, Except.pure, Bool.not_true,
        Bool.false_eq_true, and_false, if_false]
      exact ⟨_, w', rfl, rest, frame, flights⟩
    · simp only [memory, Bool.not_false, and_true, fine, if_true]
      exact ⟨_, w, rfl, books, .refl, rfl⟩
  · rw [if_neg fine]
    simp only [cleaned, bind, Except.bind, pure, Except.pure, fine, false_and, if_false]
    exact ⟨_, w', rfl, rest, frame, flights⟩

/-- An address list that has its metatable is made of what was found. -/
def Founds (w : World T) (done : Done) (l : ℕ) : Prop :=
  ∀ found : Found, w.lists[l]? = some found → found.metatable = true →
    ∃ results, done.results = some results ∧ FoundAddresses.returnfound results = some found.list

theorem returnfound_books {flight : Flight} {done : Done} {node serv : Value} {l : ℕ}
    (fits : Fits flight) (landed : flight.done = some done)
    (callback : flight.callback = .uv_onresolved) (raw : Rawlist w l)
    (books : Books w (delivered flight done) lost) :
    ∃ values w', returnfound w ([node, serv, .found l] ++ pushed flight done) =
        .ok (values, w') ∧
      Books w' [] lost ∧ Frame x (.found l) w w' ∧ w'.flight = w.flight ∧ Founds w' done l := by
  have unnamed : Founds w done l := by
    intro found at_l known
    obtain ⟨list, raw⟩ := raw
    rw [raw] at at_l
    cases at_l
    cases known
  obtain ⟨query, _, block, landing⟩ := flight
  obtain rfl : _ = Callback.uv_onresolved := callback
  obtain ⟨rfl, rfl, agrees⟩ := fits
  have result := agrees done landed
  have top : (index ([node, serv, .found l] ++ [.integer done.result, .addrinfo done.results])
      4).tointeger = done.result := rfl
  unfold returnfound
  simp only [pushed, top,
    show index ([node, serv, .found l] ++ [.integer done.result, .addrinfo done.results]) 3 =
      .found l from rfl,
    show index ([node, serv, .found l] ++ [.integer done.result, .addrinfo done.results]) 5 =
      .addrinfo done.results from rfl]
  cases results : done.results with
  | none =>
    have fails : done.result ≠ 0 := by
      intro zero
      have given := result.mp zero
      rw [results] at given
      cases given
    rw [if_pos fails]
    refine ⟨_, w, rfl, ?_, .refl, rfl, unnamed⟩
    simpa [delivered, found, results] using books
  | some addresses =>
    have fine : done.result = 0 := result.mpr (by rw [results]; rfl)
    have hand : Books w [.addresses addresses.block] lost := by
      simpa [delivered, found, results] using books
    rw [if_neg (by simp [fine])]
    simp only [Option.bind_some]
    cases made : FoundAddresses.returnfound addresses with
    | none =>
      obtain ⟨released, rest⟩ := hand.release
      simp only [uv_freeaddrinfo, released, bind, Except.bind, pure, Except.pure]
      exact ⟨_, _, rfl, rest, .of_flight (fun _ _ => rfl) rfl rfl, rfl, unnamed⟩
    | some list =>
      have start : list.start = some addresses := by
        obtain ⟨i, -, rfl⟩ := Option.map_eq_some_iff.mp made
        rfl
      refine ⟨_, _, rfl, hand.setlist (rawlist_inside raw) ?_, frame_setownlist, rfl, ?_⟩
      · rw [rawlist_holdings raw]
        simp [FileCustody.Found.holdings, start]
      · intro found at_l known
        simp only [World.setlist, List.getElem?_set_self (rawlist_inside raw)] at at_l
        cases at_l
        exact ⟨addresses, results, made⟩

omit [DecidableEq T] in
/-- The other requests open nothing. -/
theorem delivered_nothing {flight : Flight} {done : Done} (fits : Fits flight)
    (callback : flight.callback = .on_fileopdone) : delivered flight done = [] := by
  unfold Fits at fits
  simp only [callback] at fits
  simp only [delivered, callback]
  rcases fits with ⟨fd, query⟩ | query <;> simp only [query, opened]

/-- What the results function of a call does with what the callback delivered. -/
theorem returned_books (x : T) (env : Env) {call : Call} {flight : Flight} {done : Done}
    (fits : Fits flight) (landed : flight.done = some done) (suspended : Suspended w call flight L)
    (books : Books w (delivered flight done) lost) :
    ∃ values w', returned call w env L (pushed flight done) = .ok (values, w') ∧
      Books w' (unkept call env L flight done) lost ∧
      Frame x (building call false L) w w' ∧ w'.flight = w.flight ∧
      ∀ l, building call false L = .found l → Founds w' done l := by
  cases call with
  | openfile =>
    obtain ⟨callback, path, f, rfl, raw⟩ := suspended
    have query : flight.query = .openfile := by
      unfold Fits at fits
      rwa [callback] at fits
    have hand : delivered flight done =
        if done.result < 0 then [] else [.descriptor done.result.toNat] := by
      simp only [delivered, callback, query, opened]
    rw [hand] at books
    obtain ⟨values, w', returns, rest, frame, flights⟩ :=
      returnopenfile_books x path done.result raw books
    refine ⟨values, w', ?_, rest, frame, flights, fun l other => by cases other⟩
    simp only [returned, pushed, callback]
    exact returns
  | maketemp =>
    obtain ⟨callback, length, query⟩ := suspended
    have values : pushed flight done = [.filereq ⟨flight.block, done.result, done.path⟩] := by
      simp only [pushed, callback]
    have fds : opened flight.query done =
        tempfd L ⟨flight.block, done.result, done.path⟩ := by
      rw [query]
      unfold tempfd
      by_cases mkfile : isuserdata (index L 3) = true
      · rw [if_pos mkfile]
        simp only [opened, mkfile, true_and]
        split_ifs <;> first | rfl | omega
      · rw [if_neg mkfile, if_neg fun both => mkfile both.1]
        rfl
    have hand : delivered flight done =
        internals flight.block ++ tempfd L ⟨flight.block, done.result, done.path⟩ := by
      simp only [delivered, callback, fds]
    rw [hand] at books
    simp only [returned, values, unkept]
    obtain ⟨values, w', returns, rest, frame, flights⟩ :=
      returnmktmp_books env x .nil ⟨flight.block, done.result, done.path⟩ length books
    exact ⟨values, w', returns, rest, frame, flights, fun l other => by cases other⟩
  | fileinfo =>
    obtain ⟨callback, query⟩ := suspended
    have hand : delivered flight done = internals flight.block := by
      simp only [delivered, callback, query, opened, List.append_nil]
    rw [hand] at books
    obtain ⟨values, w', returns, rest, frame, flights⟩ := returnfileinfo_books callback books
    exact ⟨values, w', returns, rest, frame, flights, fun l other => by cases other⟩
  | fobjinfo =>
    obtain ⟨callback, query, length, chars, third⟩ := suspended
    have hand : delivered flight done = internals flight.block := by
      simp only [delivered, callback, query, opened, List.append_nil]
    rw [hand] at books
    obtain ⟨values, w', returns, rest, frame, flights⟩ :=
      returnfobjinfo_books callback length third books
    exact ⟨values, w', returns, rest, frame, flights, fun l other => by cases other⟩
  | closef =>
    rw [delivered_nothing fits suspended] at books
    exact ⟨_, w, rfl, books, .refl, rfl, fun l other => by cases other⟩
  | fileop op =>
    rw [delivered_nothing fits suspended] at books
    cases op <;> exact ⟨_, w, rfl, books, .refl, rfl, fun l other => by cases other⟩
  | findaddr =>
    obtain ⟨callback, node, serv, l, rfl, raw⟩ := suspended
    obtain ⟨values, w', returns, rest, frame, flights, founds⟩ :=
      returnfound_books fits landed callback raw books
    refine ⟨values, w', returns, rest, frame, flights, fun k same => ?_⟩
    cases same
    exact founds

/-! Blocking functions, and methods of objects. -/

theorem openblocking_books (x : T) {path : Value} {f : ℕ} (raw : Raw w f) (books : Books w [] lost)
    {r : Except Failure (World T)} (ran : openblocking w env [path, .file f] = some r) :
    ∃ w', r = .ok w' ∧ Books w' [] lost ∧ Frame x (.file f) w w' ∧ w'.flight = w.flight := by
  unfold openblocking at ran
  by_cases raises : (!(index [path, .file f] 1).isstring) = true ∨ env.err < 0
  · rw [if_pos raises] at ran
    cases ran
    exact ⟨w, rfl, books, .refl, rfl⟩
  · rw [if_neg raises] at ran
    rw [not_or] at raises
    split_ifs at ran with used
    cases ran
    have hand : Books (w.openfd env.err)
        (if env.err < 0 then [] else [.descriptor env.err.toNat]) lost := by
      rw [if_neg raises.2]
      exact books.openfd used
    have opens : Frame x (.file f) w (w.openfd env.err) := .of_flight (fun _ _ => rfl) rfl rfl
    have still : Raw (w.openfd env.err) f := raw
    obtain ⟨values, w', returns, rest, frame, flights⟩ :=
      returnopenfile_books x path env.err still hand
    refine ⟨w', ?_, rest, opens.trans frame, flights⟩
    rw [List.cons_append, List.cons_append, List.nil_append, returns]
    rfl

/-- The template that was copied for a blocking `system.maketemp` that failed. -/
def unmade (w : World T) (env : Env) : List Resource :=
  if env.err < 0 ∧ env.copied then [.internals w.blocks] else []

omit [DecidableEq T] in
theorem frame_newblock : Frame x own w w.newblock := .of_flight (fun _ _ => rfl) rfl rfl

theorem mktmpblocking_books (x : T) (own : Value) (length : L.length = 4) (books : Books w [] lost)
    {r : Except Failure (World T)} (ran : mktmpblocking w env L = some r) :
    ∃ w', r = .ok w' ∧ Books w' (unmade w env) lost ∧ Frame x own w w' ∧
      w'.flight = w.flight := by
  unfold mktmpblocking at ran
  unfold unmade
  by_cases fails : env.err < 0
  · rw [if_pos fails] at ran
    cases ran
    by_cases copied : env.copied = true
    · rw [if_pos copied, if_pos ⟨fails, copied⟩]
      exact ⟨_, rfl, books.newblock, frame_newblock, rfl⟩
    · rw [if_neg copied, if_neg fun both => copied both.2]
      exact ⟨_, rfl, books, .refl, rfl⟩
  · rw [if_neg fails] at ran
    rw [if_neg fun both => fails both.1]
    have nonneg : 0 ≤ env.err := by omega
    by_cases mkfile : isuserdata (index L 3) = true
    · rw [if_pos mkfile] at ran
      split_ifs at ran with used
      cases ran
      have fresh : .descriptor env.err.toNat ∉ w.newblock.resources := by
        simpa [World.newblock] using used
      have hand : Books (w.newblock.openfd env.err)
          (internals (some w.blocks) ++ tempfd L ⟨some w.blocks, env.err, env.path⟩) lost := by
        unfold tempfd
        rw [if_pos ⟨mkfile, nonneg⟩]
        exact (books.newblock.openfd fresh).reorder (.swap _ _ _)
      obtain ⟨values, w', returns, rest, frame, flights⟩ :=
        returnmktmp_books env x own ⟨some w.blocks, env.err, env.path⟩ length hand
      have opens : Frame x own w (w.newblock.openfd env.err) := .of_flight (fun _ _ => rfl) rfl rfl
      refine ⟨w', ?_, rest, opens.trans frame, flights⟩
      rw [returns]
      rfl
    · rw [if_neg mkfile] at ran
      cases ran
      have hand : Books w.newblock
          (internals (some w.blocks) ++ tempfd L ⟨some w.blocks, env.err, env.path⟩) lost := by
        unfold tempfd
        rw [if_neg fun both => mkfile both.1, List.append_nil]
        exact books.newblock
      obtain ⟨values, w', returns, rest, frame, flights⟩ :=
        returnmktmp_books env x own ⟨some w.blocks, env.err, env.path⟩ length hand
      refine ⟨w', ?_, rest, frame_newblock.trans frame, flights⟩
      rw [returns]
      rfl

/-- What a query of a blocking `system.fileinfo` produced, when there is no memory to push it. -/
def unshown (w : World T) (env : Env) (L : Stack) (bits : FileInfo.Bits) : List Resource :=
  match FileInfo.getinfosrc bits with
  | some (query, _) =>
    if (index L 1).isstring ∧ 0 ≤ env.err ∧ allocates query ∧ !env.memory 0 then
      [.internals w.blocks]
    else []
  | none => []

omit [DecidableEq T] in
theorem fileinfoblocking_books (bits : FileInfo.Bits) (books : Books w [] lost) :
    ∃ w', fileinfoblocking w env L bits = .ok w' ∧ Books w' (unshown w env L bits) lost ∧
      w'.files = w.files ∧ w'.lists = w.lists ∧ w'.flight = w.flight := by
  unfold fileinfoblocking unshown
  by_cases path : (index L 1).isstring = true
  · rw [path, if_neg (by simp)]
    cases FileInfo.getinfosrc bits with
    | none => exact ⟨w, rfl, books, rfl, rfl, rfl⟩
    | some source =>
      obtain ⟨query, left⟩ := source
      simp only [true_and]
      by_cases nothing : env.err < 0 ∨ (!allocates query) = true
      · rw [if_pos nothing, if_neg ?_]
        · exact ⟨w, rfl, books, rfl, rfl, rfl⟩
        · rintro ⟨nonneg, kept, -⟩
          rcases nothing with fails | none
          · omega
          · rw [kept] at none
            cases none
      · rw [if_neg nothing]
        rw [not_or, Bool.not_eq_true', Bool.not_eq_false] at nothing
        have nonneg : 0 ≤ env.err := by omega
        cases memory : env.memory 0 with
        | true =>
          have hand : Books w.newblock (internals (some w.blocks) ++ []) lost := books.newblock
          obtain ⟨w', cleaned, rest, same⟩ := hand.cleanup
          rw [if_pos rfl, cleaned, if_neg (by simp)]
          exact ⟨w', rfl, rest, same⟩
        | false =>
          rw [if_neg (by simp), if_pos ⟨nonneg, nothing.2, by simp⟩]
          exact ⟨_, rfl, books.newblock, rfl, rfl, rfl⟩
  · simp only [Bool.not_eq_true] at path
    have none (query : FileInfo.Query) : ¬ (false = true ∧ 0 ≤ env.err ∧ allocates query = true ∧
        (!env.memory 0) = true) := by simp
    rw [path, if_pos (by rfl)]
    refine ⟨w, rfl, ?_, rfl, rfl, rfl⟩
    split
    · rw [if_neg (none _)]
      exact books
    · exact books

/-- A file that is closed, and the close does not fail. -/
theorem closefile_books {f : ℕ} {file : File} (at_f : w.files[f]? = some file)
    (known : file.metatable = true) (nonneg : 0 ≤ file.fd) (books : Books w loose lost) :
    ∃ closed, uv_fs_close w file.fd = .ok closed ∧
      Books (closed.setfile f { file with fd := -1 }) loose lost ∧
      (∀ (x : T) (own : Value), Frame x own w (closed.setfile f { file with fd := -1 })) ∧
      closed.flight = w.flight ∧ closed.lists = w.lists := by
  have given := given_opened books at_f known nonneg
  have inside := (List.getElem?_eq_some_iff.mp at_f).1
  have taken : Books (w.setfile f { file with fd := -1 })
      (.descriptor file.fd.toNat :: loose) lost := by
    refine books.setfile inside ?_
    rw [holdings_opened at_f known nonneg]
    simp [FileCustody.File.holdings]
  have live := books.custody.held_live (h := .file f) (r := .descriptor file.fd.toNat) (by
    rw [holdings_opened at_f known nonneg]
    exact List.mem_singleton_self _)
  refine ⟨w.without (.descriptor file.fd.toNat), ?_, taken.release.2, fun x own => ?_, rfl, rfl⟩
  · simp only [uv_fs_close, given, World.release, if_pos live, bind, Except.bind]
  · have drops : Frame x own w (w.without (.descriptor file.fd.toNat)) :=
      .of_flight (fun _ _ => rfl) rfl rfl
    exact drops.trans (frame_setfile at_f known)

theorem closeblocking_books (env : Env) (L : Stack) (x : T) (own : Value) (closes : 0 ≤ env.err)
    (books : Books w [] lost) :
    ∃ w', closeblocking w env L = .ok w' ∧ Books w' [] lost ∧ Frame x own w w' ∧
      w'.flight = w.flight := by
  unfold closeblocking
  rcases opened : openedfile w L with _ | ⟨f, file⟩
  · exact ⟨w, rfl, books, .refl, rfl⟩
  · obtain ⟨at_f, known, nonneg⟩ := openedfile_some opened
    obtain ⟨closed, ran, books, frame, flights, -⟩ := closefile_books at_f known nonneg books
    simp only [ran, bind, Except.bind, pure, Except.pure, if_neg (Int.not_lt.mpr closes)]
    exact ⟨_, rfl, books, frame x own, flights⟩

theorem file_gc_books (env : Env) (f : ℕ) (closes : 0 ≤ env.err) (books : Books w [] lost) :
    ∃ w', file_gc w env f = .ok w' ∧ Books w' [] lost ∧
      (∀ (x : T) (own : Value), Frame x own w w') ∧ w'.flight = w.flight ∧
      w'.lists = w.lists := by
  unfold file_gc
  cases checked : (w.files[f]?).filter File.metatable with
  | none => exact ⟨w, rfl, books, fun _ _ => .refl, rfl, rfl⟩
  | some file =>
    obtain ⟨at_f, known⟩ := Option.filter_eq_some_iff.mp checked
    by_cases nonneg : 0 ≤ file.fd
    · obtain ⟨closed, ran, books, frame, flights, lists⟩ :=
        closefile_books at_f known nonneg books
      simp only [if_pos nonneg, ran, bind, Except.bind, pure, Except.pure, if_pos closes]
      exact ⟨_, rfl, books, frame, flights, lists⟩
    · simp only [if_neg nonneg]
      exact ⟨w, rfl, books, fun _ _ => .refl, rfl, rfl⟩

omit [DecidableEq T] in
theorem fileopblocking_books {op : Fileop} (books : Books w [] lost) :
    fileopblocking op w env L = .ok w := by
  unfold fileopblocking
  cases given : op.descriptors w env L with
  | none => rfl
  | some fds =>
    simp only [descriptors_given books given]
    rfl

omit [DecidableEq T] in
theorem infoblocking_books (books : Books w [] lost) : infoblocking w L = .ok w := by
  unfold infoblocking
  rcases opened : openedfile w L with _ | ⟨f, file⟩
  · rfl
  · obtain ⟨at_f, known, nonneg⟩ := openedfile_some opened
    simp only [given_opened books at_f known nonneg]
    rfl

end
end Coutil.FileReturns
