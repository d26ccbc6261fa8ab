import Coutil.FileCustody
import Coutil.RequestPhase

set_option autoImplicit false

/-! What each function of a call does to the world: the resources in hand that it gives away,
releases or leaves, and what it does not touch. -/
namespace Coutil.FileCalls
open Operation FileResources FileSystem FileCustody

section
variable {T : Type}

/-- A file that has no metatable yet. -/
def Raw (w : World T) (f : ℕ) : Prop := ∃ fd, w.files[f]? = some ⟨false, fd⟩

def Rawlist (w : World T) (l : ℕ) : Prop := ∃ list, w.lists[l]? = some ⟨false, list⟩

/-- A function called for a coroutine leaves the requests of the others, and the userdata that
have no metatable, but for one of its own. -/
structure Frame (x : T) (own : Value) (w w' : World T) : Prop where
  flights : ∀ y, y ≠ x → w'.flight y = w.flight y
  files : ∀ f, own ≠ .file f → Raw w f → Raw w' f
  lists : ∀ l, own ≠ .found l → Rawlist w l → Rawlist w' l
  named : ∀ (l : ℕ) (found : Found), w'.lists[l]? = some found → found.metatable = true →
    w.lists[l]? = some found ∨ own = .found l

variable {w w' w'' : World T} {x : T} {own : Value} {env : Env} {L : Stack}
  {loose lost : List Resource}

theorem Frame.refl : Frame x own w w :=
  ⟨fun _ _ => rfl, fun _ _ raw => raw, fun _ _ raw => raw, fun _ _ same _ => .inl same⟩

theorem Frame.trans (first : Frame x own w w') (second : Frame x own w' w'') :
    Frame x own w w'' :=
  ⟨fun y other => (second.flights y other).trans (first.flights y other),
    fun f other raw => second.files f other (first.files f other raw),
    fun l other raw => second.lists l other (first.lists l other raw),
    fun l found at_l known => (second.named l found at_l known).elim
      (fun before => first.named l found before known) .inr⟩

/-- Nothing but the request of the coroutine and the resources. -/
theorem Frame.of_flight (flights : ∀ y, y ≠ x → w'.flight y = w.flight y)
    (files : w'.files = w.files) (lists : w'.lists = w.lists) : Frame x own w w' := by
  refine ⟨flights, fun f _ raw => ?_, fun l _ raw => ?_, fun l found at_l _ => .inl ?_⟩
  · unfold Raw at raw ⊢
    rwa [files]
  · unfold Rawlist at raw ⊢
    rwa [lists]
  · rwa [lists] at at_l

variable [DecidableEq T] in
theorem frame_fsrequest {query : Query} {callback : Callback} :
    Frame x own w (w.fsrequest x query callback) :=
  .of_flight (fun _ other => Function.update_of_ne other ..) rfl rfl

variable [DecidableEq T] in
theorem frame_setflight {flight : Option Flight} : Frame x own w (w.setflight x flight) :=
  .of_flight (fun _ other => Function.update_of_ne other ..) rfl rfl

theorem frame_newfile : Frame x own w w.newfile := by
  refine ⟨fun _ _ => rfl, fun f _ ⟨fd, at_f⟩ => ⟨fd, ?_⟩, fun _ _ raw => raw,
    fun _ _ same _ => .inl same⟩
  have old := (List.getElem?_eq_some_iff.mp at_f).1
  simp only [World.newfile, List.getElem?_append_left old, at_f]

theorem frame_newlist : Frame x own w w.newlist := by
  refine ⟨fun _ _ => rfl, fun _ _ raw => raw, fun l _ ⟨list, at_l⟩ => ⟨list, ?_⟩,
    fun l found at_l known => .inl ?_⟩
  · have old := (List.getElem?_eq_some_iff.mp at_l).1
    simp only [World.newlist, List.getElem?_append_left old, at_l]
  · simp only [World.newlist] at at_l
    by_cases old : l < w.lists.length
    · rwa [List.getElem?_append_left old] at at_l
    · rw [List.getElem?_append_right (by omega)] at at_l
      obtain rfl := List.mem_singleton.mp (List.mem_of_getElem? at_l)
      cases known

/-- A file that has its metatable changes. -/
theorem frame_setfile {f : ℕ} {file file' : File} (at_f : w.files[f]? = some file)
    (known : file.metatable = true) : Frame x own w (w.setfile f file') := by
  refine ⟨fun _ _ => rfl, fun g _ ⟨fd, at_g⟩ => ⟨fd, ?_⟩, fun _ _ raw => raw,
    fun _ _ same _ => .inl same⟩
  have other : f ≠ g := by
    rintro rfl
    rw [at_f] at at_g
    cases at_g
    cases known
  simp only [World.setfile, List.getElem?_set_ne other, at_g]

/-- The userdata of the call itself changes. -/
theorem frame_setown {f : ℕ} {file : File} : Frame x (.file f) w (w.setfile f file) := by
  refine ⟨fun _ _ => rfl, fun g other ⟨fd, at_g⟩ => ⟨fd, ?_⟩, fun _ _ raw => raw,
    fun _ _ same _ => .inl same⟩
  have distinct : f ≠ g := by
    rintro rfl
    exact other rfl
  simp only [World.setfile, List.getElem?_set_ne distinct, at_g]

theorem frame_setownlist {l : ℕ} {found : Found} :
    Frame x (.found l) w (w.setlist l found) := by
  refine ⟨fun _ _ => rfl, fun _ _ raw => raw, fun k other ⟨list, at_k⟩ => ⟨list, ?_⟩,
    fun k found at_k _ => ?_⟩
  · have distinct : l ≠ k := by
      rintro rfl
      exact other rfl
    simp only [World.setlist, List.getElem?_set_ne distinct, at_k]
  · by_cases here : l = k
    · exact .inr (by rw [here])
    · simp only [World.setlist, List.getElem?_set_ne here] at at_k
      exact .inl at_k

theorem cleanup_frame (x : T) (own : Value) {block : Option ℕ}
    (books : Books w (internals block ++ loose) lost) :
    ∃ w', uv_fs_req_cleanup w block = .ok w' ∧ Books w' loose lost ∧ Frame x own w w' ∧
      w'.flight = w.flight ∧ w'.files = w.files ∧ w'.lists = w.lists := by
  obtain ⟨w', cleaned, books, files, lists, flights⟩ := books.cleanup
  exact ⟨w', cleaned, books, .of_flight (fun y _ => by rw [flights]) files lists, flights, files,
    lists⟩

/-! Requests in flight, and calls that wait. -/

/-- The callback of a request is that of its query. -/
def Fits (flight : Flight) : Prop :=
  match flight.callback with
  | .on_fileopen => flight.query = .openfile
  | .on_fileinfo => flight.query = .mkstemp ∨ flight.query = .mkdtemp ∨ flight.query = .other
  | .on_fileopdone => (∃ fd, flight.query = .close fd) ∨ flight.query = .other
  | .uv_onresolved => flight.query = .getaddrinfo ∧ flight.block = none ∧
      ∀ done ∈ flight.done, done.result = 0 ↔ done.results.isSome = true

/-- A call waits with this stack for its request. -/
def Suspended (w : World T) (call : Call) (flight : Flight) (L : Stack) : Prop :=
  match call with
  | .openfile => flight.callback = .on_fileopen ∧ ∃ path f, L = [path, .file f] ∧ Raw w f
  | .maketemp => flight.callback = .on_fileinfo ∧ L.length = 4 ∧
      flight.query = if isuserdata (index L 3) then .mkstemp else .mkdtemp
  | .fileinfo => flight.callback = .on_fileinfo ∧ flight.query = .other
  | .fobjinfo => flight.callback = .on_fileinfo ∧ flight.query = .other ∧ L.length = 3 ∧
      ∃ chars, index L 3 = .mode chars
  | .closef | .fileop _ => flight.callback = .on_fileopdone
  | .findaddr => flight.callback = .uv_onresolved ∧
      ∃ node serv l, L = [node, serv, .found l] ∧ Rawlist w l

/-- A call waits with this stack to start its request. -/
def Delayed (w : World T) (call : Call) (L : Stack) : Prop :=
  match call with
  | .openfile => ∃ path f flags perm, L = [path, .file f, flags, perm] ∧ Raw w f
  | .maketemp => L.length = 4
  | .fobjinfo => L.length = 3 ∧ ∃ chars, index L 3 = .mode chars
  | _ => True

/-- The userdata that a call has yet to give its metatable. -/
def building (call : Call) (delayed : Bool) (L : Stack) : Value :=
  match call, delayed with
  | .openfile, _ => index L 2
  | .findaddr, false => index L 3
  | _, _ => .nil

theorem Suspended.frame {call : Call} {flight : Flight} (suspended : Suspended w call flight L)
    (frame : Frame x own w w') (other : building call false L = .nil ∨
      own ≠ building call false L) : Suspended w' call flight L := by
  cases call with
  | openfile =>
    obtain ⟨callback, path, f, rfl, raw⟩ := suspended
    refine ⟨callback, path, f, rfl, frame.files f ?_ raw⟩
    rcases other with none | other
    · cases none
    · exact other
  | findaddr =>
    obtain ⟨callback, node, serv, l, rfl, raw⟩ := suspended
    refine ⟨callback, node, serv, l, rfl, frame.lists l ?_ raw⟩
    rcases other with none | other
    · cases none
    · exact other
  | _ => exact suspended

theorem Delayed.frame {call : Call} (delayed : Delayed w call L) (frame : Frame x own w w')
    (other : building call true L = .nil ∨ own ≠ building call true L) : Delayed w' call L := by
  cases call with
  | openfile =>
    obtain ⟨path, f, flags, perm, rfl, raw⟩ := delayed
    refine ⟨path, f, flags, perm, rfl, frame.files f ?_ raw⟩
    rcases other with none | other
    · cases none
    · exact other
  | _ => exact delayed

/-! The setup functions. -/

variable [DecidableEq T]

/-- The request that a setup function armed, if it armed one. -/
def Armed (w' : World T) (x : T) (call : Call) : Setup Value → Prop
  | .armed L => ∃ flight, w'.flight x = some flight ∧ flight.done = none ∧ Fits flight ∧
      Suspended w' call flight L
  | .armedresults _ => False
  | _ => w'.flight x = none

/-- What a setup function does to a world where the coroutine has no request. -/
structure Sets (x : T) (call : Call) (w : World T) (L : Stack) (loose lost : List Resource)
    (outcome : Setup Value) (w' : World T) : Prop where
  books : Books w' loose lost
  frame : Frame x .nil w w'
  armed : Armed w' x call outcome
  building : ∀ L', outcome = .armed L' →
    building call false L' = building call true L ∨ building call false L' = .found w.lists.length

omit [DecidableEq T] in
theorem Sets.unarmed {call : Call} {outcome : Setup Value} (books : Books w loose lost)
    (idle : w.flight x = none) (plain : outcome = .error ∨ ∃ values, outcome = .armerror values) :
    Sets x call w L loose lost outcome w := by
  rcases plain with rfl | ⟨values, rfl⟩
  · exact ⟨books, .refl, idle, fun L' armed => by cases armed⟩
  · exact ⟨books, .refl, idle, fun L' armed => by cases armed⟩

omit [DecidableEq T] in
theorem checkfile_some {f : ℕ} {file : File} (checked : checkfile w L = some (f, file)) :
    w.files[f]? = some file ∧ file.metatable = true := by
  unfold checkfile at checked
  split at checked
  · obtain ⟨file', filtered, same⟩ := Option.map_eq_some_iff.mp checked
    obtain ⟨at_f, known⟩ := Option.filter_eq_some_iff.mp filtered
    cases same
    exact ⟨at_f, known⟩
  · cases checked

omit [DecidableEq T] in
theorem openedfile_some {f : ℕ} {file : File} (opened : openedfile w L = some (f, file)) :
    w.files[f]? = some file ∧ file.metatable = true ∧ 0 ≤ file.fd := by
  obtain ⟨checked, nonneg⟩ := Option.filter_eq_some_iff.mp opened
  obtain ⟨at_f, known⟩ := checkfile_some checked
  exact ⟨at_f, known, of_decide_eq_true nonneg⟩

omit [DecidableEq T] in
theorem holdings_opened {f : ℕ} {file : File} (at_f : w.files[f]? = some file)
    (known : file.metatable = true) (nonneg : 0 ≤ file.fd) :
    FileCustody.World.holdings w (.file f) = [.descriptor file.fd.toNat] := by
  simp only [FileCustody.World.holdings, at_f, Option.map_some, Option.getD_some,
    FileCustody.File.holdings, known, nonneg, and_self, if_true]

omit [DecidableEq T] in
theorem given_opened (books : Books w loose lost) {f : ℕ} {file : File}
    (at_f : w.files[f]? = some file) (known : file.metatable = true) (nonneg : 0 ≤ file.fd) :
    w.given file.fd = .ok () := by
  have live : .descriptor file.fd.toNat ∈ w.resources := by
    refine books.custody.held_live (h := .file f) ?_
    rw [holdings_opened at_f known nonneg]
    exact List.mem_singleton_self _
  rw [World.given, if_pos ⟨live, nonneg⟩]

theorem k_setupfile_sets (books : Books w loose lost) (idle : w.flight x = none)
    (delayed : Delayed w .openfile L) : ∃ outcome w', k_setupfile x w env L = .ok (outcome, w') ∧
      Sets x .openfile w L loose lost outcome w' := by
  obtain ⟨path, f, flags, perm, rfl, raw⟩ := delayed
  unfold k_setupfile
  split_ifs
  · exact ⟨_, _, rfl, .unarmed books idle (.inl rfl)⟩
  · exact ⟨_, _, rfl, .unarmed books idle (.inr ⟨_, rfl⟩)⟩
  · have frame : Frame x .nil w (w.fsrequest x .openfile .on_fileopen) := frame_fsrequest
    refine ⟨_, _, rfl, books.fsrequest [] idle rfl, frame, ?_, ?_⟩
    · exact ⟨_, Function.update_self .., rfl, rfl, rfl, path, f, rfl, frame.files f (by simp) raw⟩
    · rintro L' ⟨⟩
      exact .inl rfl

theorem k_setupmktmp_sets (books : Books w loose lost) (idle : w.flight x = none)
    (delayed : Delayed w .maketemp L) :
    ∃ outcome w', k_setupmktmp x w env L = .ok (outcome, w') ∧
      Sets x .maketemp w L loose lost outcome w' := by
  have length : L.length = 4 := delayed
  unfold k_setupmktmp
  by_cases fails : env.err < 0
  · rw [if_pos fails]
    exact ⟨_, _, rfl, .unarmed books idle (.inr ⟨_, rfl⟩)⟩
  · rw [if_neg fails]
    refine ⟨_, _, rfl, books.fsrequest [] idle ?_, frame_fsrequest, ?_, ?_⟩
    · split_ifs <;> rfl
    · refine ⟨_, Function.update_self .., rfl, ?_, rfl, length, rfl⟩
      simp only [Fits]
      split_ifs <;> simp
    · rintro L' ⟨⟩
      exact .inl rfl

theorem k_setupfileinfo_sets (books : Books w loose lost) (idle : w.flight x = none) :
    ∃ outcome w', k_setupfileinfo x w env L = .ok (outcome, w') ∧
      Sets x .fileinfo w L loose lost outcome w' := by
  unfold k_setupfileinfo
  by_cases path : (!(index L 1).isstring) = true
  · rw [if_pos path]
    exact ⟨_, _, rfl, .unarmed books idle (.inl rfl)⟩
  · rw [if_neg path]
    rcases FileInfo.getinfosrc (bitsof (index L 3)) with _ | ⟨query, bits⟩
    · exact ⟨_, _, rfl, .unarmed books idle (.inl rfl)⟩
    · by_cases fails : env.err < 0
      · simp only [if_pos fails]
        exact ⟨_, _, rfl, .unarmed books idle (.inl rfl)⟩
      · simp only [if_neg fails]
        refine ⟨_, _, rfl, books.fsrequest [] idle rfl, frame_fsrequest, ?_, ?_⟩
        · exact ⟨_, Function.update_self .., rfl, by simp [Fits], rfl, rfl⟩
        · rintro L' ⟨⟩
          exact .inl rfl

theorem k_setupfobjinfo_sets (books : Books w loose lost) (idle : w.flight x = none)
    (delayed : Delayed w .fobjinfo L) :
    ∃ outcome w', k_setupfobjinfo x w env L = .ok (outcome, w') ∧
      Sets x .fobjinfo w L loose lost outcome w' := by
  unfold k_setupfobjinfo
  rcases opened : openedfile w L with _ | ⟨f, file⟩
  · exact ⟨_, _, rfl, .unarmed books idle (.inl rfl)⟩
  · obtain ⟨at_f, known, nonneg⟩ := openedfile_some opened
    simp only [given_opened books at_f known nonneg, bind, Except.bind, pure, Except.pure]
    split_ifs
    · exact ⟨_, _, rfl, .unarmed books idle (.inl rfl)⟩
    · refine ⟨_, _, rfl, books.fsrequest [] idle rfl, frame_fsrequest, ?_, ?_⟩
      · exact ⟨_, Function.update_self .., rfl, by simp [Fits], rfl, rfl, delayed⟩
      · rintro L' ⟨⟩
        exact .inl rfl

theorem k_setupclosef_sets (books : Books w loose lost) (idle : w.flight x = none) :
    ∃ outcome w', k_setupclosef x w env L = .ok (outcome, w') ∧
      Sets x .closef w L loose lost outcome w' := by
  unfold k_setupclosef
  rcases opened : openedfile w L with _ | ⟨f, file⟩
  · exact ⟨_, _, rfl, .unarmed books idle (.inl rfl)⟩
  · obtain ⟨at_f, known, nonneg⟩ := openedfile_some opened
    simp only [given_opened books at_f known nonneg, bind, Except.bind, pure, Except.pure]
    split_ifs
    · exact ⟨_, _, rfl, .unarmed books idle (.inr ⟨_, rfl⟩)⟩
    · have inside := (List.getElem?_eq_some_iff.mp at_f).1
      have taken : Books (w.setfile f { file with fd := -1 })
          (.descriptor file.fd.toNat :: loose) lost := by
        refine books.setfile inside ?_
        rw [holdings_opened at_f known nonneg]
        simp [FileCustody.File.holdings]
      have asked : Books (World.fsrequest (w.setfile f { file with fd := -1 }) x
          (.close file.fd.toNat) .on_fileopdone) loose lost :=
        taken.fsrequest [.descriptor file.fd.toNat] idle rfl
      refine ⟨_, _, rfl, asked, ?_, ?_, ?_⟩
      · exact .trans frame_fsrequest (frame_setfile at_f known)
      · exact ⟨_, Function.update_self .., rfl, .inl ⟨_, rfl⟩, rfl⟩
      · rintro L' ⟨⟩
        exact .inl rfl

omit [DecidableEq T] in
/-- Every descriptor that a function of a file gives to libuv is open, but for that of a closed file
to send from. -/
theorem descriptors_given (books : Books w loose lost) {op : Fileop} {fds : Option ℤ × Option ℤ}
    (some_fds : op.descriptors w env L = some fds) : w.giveall fds = .ok () := by
  have one {found : ℕ × File} (opened : openedfile w L = some found) :
      w.given found.2.fd = .ok () := by
    obtain ⟨at_f, known, nonneg⟩ := openedfile_some opened
    exact given_opened books at_f known nonneg
  have source {file : File} (sends : sourcefile w L = some file) (nonneg : 0 ≤ file.fd) :
      w.given file.fd = .ok () := by
    unfold sourcefile at sends
    split at sends
    · obtain ⟨at_f, known⟩ := Option.filter_eq_some_iff.mp sends
      exact given_opened books at_f known nonneg
    · cases sends
  cases op with
  | path =>
    simp only [Fileop.descriptors] at some_fds
    split_ifs at some_fds
    cases some_fds
    rfl
  | write =>
    obtain ⟨found, opened, rest⟩ := Option.bind_eq_some_iff.mp some_fds
    split_ifs at rest
    cases rest
    simp only [World.giveall, one opened, bind, Except.bind]
    cases sends : sourcefile w L with
    | none => rfl
    | some file =>
      simp only [Option.map_some]
      by_cases closed : file.fd < 0
      · rw [if_pos closed]
        rfl
      · rw [if_neg closed]
        exact source sends (by omega)
  | _ =>
    obtain ⟨found, opened, rest⟩ := Option.bind_eq_some_iff.mp some_fds
    split_ifs at rest
    cases rest
    simp only [World.giveall, one opened]
    rfl

theorem k_setupfileop_sets {op : Fileop} (books : Books w loose lost) (idle : w.flight x = none) :
    ∃ outcome w', k_setupfileop op x w env L = .ok (outcome, w') ∧
      Sets x (.fileop op) w L loose lost outcome w' := by
  unfold k_setupfileop
  cases given : op.descriptors w env L with
  | none => exact ⟨_, _, rfl, .unarmed books idle (.inl rfl)⟩
  | some fds =>
    simp only [descriptors_given books given, bind, Except.bind, pure, Except.pure]
    split_ifs
    · exact ⟨_, _, rfl, .unarmed books idle (.inr ⟨_, rfl⟩)⟩
    · refine ⟨_, _, rfl, books.fsrequest [] idle rfl, frame_fsrequest, ?_, ?_⟩
      · exact ⟨_, Function.update_self .., rfl, .inr rfl, rfl⟩
      · rintro L' ⟨⟩
        exact .inl rfl

theorem k_setupfindaddr_sets (books : Books w loose lost) (idle : w.flight x = none) :
    ∃ outcome w', k_setupfindaddr x w env L = .ok (outcome, w') ∧
      Sets x .findaddr w L loose lost outcome w' := by
  unfold k_setupfindaddr
  split_ifs
  · exact ⟨_, _, rfl, .unarmed books idle (.inl rfl)⟩
  · exact ⟨_, _, rfl, books.newlist, frame_newlist, idle, fun L' armed => by cases armed⟩
  · have two : settop L 2 = [index L 1, index L 2] := by
      cases L with
      | nil => rfl
      | cons a L => cases L <;> simp [settop, index]
    have asked : Books (w.newlist.setflight x (some ⟨.getaddrinfo, .uv_onresolved, none, none⟩))
        loose lost := by
      refine books.newlist.setflight ?_
      have none : FileCustody.World.holdings w.newlist (.flight x) = [] := by
        simp only [FileCustody.World.holdings, World.newlist, idle]
        rfl
      rw [none]
      rfl
    refine ⟨_, _, rfl, asked, frame_newlist.trans frame_setflight, ?_, ?_⟩
    · refine ⟨_, Function.update_self .., rfl, ⟨rfl, rfl, by simp⟩, rfl, index L 1, index L 2,
        w.lists.length, ?_, ?_⟩
      · rw [two]
        rfl
      · exact ⟨⟨none, 0⟩, by simp [World.setflight, World.newlist]⟩
    · rintro L' ⟨⟩
      rw [two]
      exact .inr rfl

/-- What a setup function does. -/
theorem setup_sets {call : Call} (books : Books w loose lost) (idle : w.flight x = none)
    (delayed : Delayed w call L) : ∃ outcome w', setup call x w env L = .ok (outcome, w') ∧
      Sets x call w L loose lost outcome w' := by
  cases call with
  | openfile => exact k_setupfile_sets books idle delayed
  | maketemp => exact k_setupmktmp_sets books idle delayed
  | fileinfo => exact k_setupfileinfo_sets books idle
  | fobjinfo => exact k_setupfobjinfo_sets books idle delayed
  | closef => exact k_setupclosef_sets books idle
  | fileop op => exact k_setupfileop_sets books idle
  | findaddr => exact k_setupfindaddr_sets books idle

/-! The callbacks. -/

/-- What a callback leaves for the coroutine that waits, with the values that it pushes. -/
def delivered (flight : Flight) (done : Done) : List Resource :=
  match flight.callback with
  | .on_fileinfo => internals flight.block ++ opened flight.query done
  | .uv_onresolved => found flight.query done
  | _ => opened flight.query done

def pushed (flight : Flight) (done : Done) : List Value :=
  match flight.callback with
  | .on_fileopen => [.integer done.result]
  | .on_fileinfo => [.filereq ⟨flight.block, done.result, done.path⟩]
  | .on_fileopdone => if done.result < 0 then pusherrres done.result else [.integer done.result]
  | .uv_onresolved => [.integer done.result, .addrinfo done.results]

omit [DecidableEq T] in
theorem found_other {query : Query} (other : query ≠ .getaddrinfo) (done : Done) :
    found query done = [] := by
  cases query <;> first | rfl | exact absurd rfl other

omit [DecidableEq T] in
theorem holdings_landed {flight : Flight} {done : Done} (landed : flight.done = some done) :
    Flight.holdings flight =
      internals flight.block ++ (opened flight.query done ++ found flight.query done) := by
  unfold Flight.holdings
  rw [landed]
  cases flight.query <;> rfl

omit [DecidableEq T] in
/-- The callback of a coroutine that waits. -/
theorem uvcallback_waiting (x : T) (own : Value) {flight : Flight} {done : Done}
    (fits : Fits flight)
    (landed : flight.done = some done) (books : Books w (Flight.holdings flight ++ loose) lost) :
    ∃ w', uvcallback w flight done true = .ok (pushed flight done, w') ∧
      Books w' (delivered flight done ++ loose) lost ∧ Frame x own w w' ∧ w'.flight = w.flight ∧
      w'.files = w.files ∧ w'.lists = w.lists := by
  rw [holdings_landed landed, List.append_assoc] at books
  obtain ⟨query, callback, block, landing⟩ := flight
  cases callback with
  | on_fileopen =>
    obtain rfl : query = .openfile := fits
    obtain ⟨w', cleaned, books, rest⟩ := cleanup_frame x own books
    refine ⟨w', ?_, by simpa [found, delivered] using books, rest⟩
    simp only [uvcallback, on_fileopen, cleaned, bind, Except.bind, pure, Except.pure, pushed]
  | on_fileopdone =>
    have other : query ≠ .getaddrinfo := by
      rcases fits with ⟨fd, rfl⟩ | rfl <;> simp
    obtain ⟨w', cleaned, books, rest⟩ := cleanup_frame x own books
    refine ⟨w', ?_, by simpa [found_other other, delivered] using books, rest⟩
    simp only [uvcallback, on_fileopdone, cleaned, bind, Except.bind, pure, Except.pure, pushed]
  | on_fileinfo =>
    have other : query ≠ .getaddrinfo := by
      rcases fits with rfl | rfl | rfl <;> simp
    refine ⟨w, rfl, ?_, .refl, rfl, rfl, rfl⟩
    simp only [found_other other, List.append_nil] at books
    simpa only [delivered, List.append_assoc] using books
  | uv_onresolved =>
    obtain ⟨rfl, rfl, -⟩ := fits
    exact ⟨w, rfl, books, .refl, rfl, rfl, rfl⟩

omit [DecidableEq T] in
/-- The callback of a coroutine that waits no more leaves a descriptor to nobody. -/
theorem uvcallback_alone (x : T) (own : Value) {flight : Flight} {done : Done}
    (fits : Fits flight)
    (landed : flight.done = some done) (books : Books w (Flight.holdings flight ++ loose) lost) :
    ∃ values w', uvcallback w flight done false = .ok (values, w') ∧
      Books w' (opened flight.query done ++ loose) lost ∧ Frame x own w w' ∧
      w'.flight = w.flight ∧ w'.lists = w.lists := by
  rw [holdings_landed landed, List.append_assoc] at books
  obtain ⟨query, callback, block, landing⟩ := flight
  cases callback with
  | on_fileopen =>
    obtain rfl : query = .openfile := fits
    obtain ⟨w', cleaned, books, frame, flights, -, lists⟩ := cleanup_frame x own books
    refine ⟨[.integer done.result], w', ?_, by simpa [found] using books, frame, flights, lists⟩
    simp only [uvcallback, on_fileopen, cleaned, bind, Except.bind, pure, Except.pure]
  | on_fileopdone =>
    have other : query ≠ .getaddrinfo := by
      rcases fits with ⟨fd, rfl⟩ | rfl <;> simp
    obtain ⟨w', cleaned, books, frame, flights, -, lists⟩ := cleanup_frame x own books
    refine ⟨if done.result < 0 then pusherrres done.result else [.integer done.result], w', ?_,
      by simpa [found_other other] using books, frame, flights, lists⟩
    simp only [uvcallback, on_fileopdone, cleaned, bind, Except.bind, pure, Except.pure]
  | on_fileinfo =>
    have other : query ≠ .getaddrinfo := by
      rcases fits with rfl | rfl | rfl <;> simp
    obtain ⟨w', cleaned, books, frame, flights, -, lists⟩ := cleanup_frame x own books
    refine ⟨[], w', ?_, by simpa [found_other other] using books, frame, flights, lists⟩
    simp only [uvcallback, on_fileinfo, cleaned, bind, Except.bind, pure, Except.pure,
      Bool.false_eq_true, if_false]
  | uv_onresolved =>
    obtain ⟨rfl, rfl, agrees⟩ := fits
    have result := agrees done landed
    simp only [uvcallback, uv_onresolved, Bool.false_eq_true, if_false]
    cases results : done.results with
    | none =>
      have fails : done.result ≠ 0 := by
        intro zero
        have given := result.mp zero
        rw [results] at given
        cases given
      rw [if_neg fails]
      exact ⟨_, w, rfl, by simpa [found, results, internals] using books, .refl, rfl, rfl⟩
    | some addresses =>
      have fine : done.result = 0 := result.mpr (by rw [results]; rfl)
      rw [if_pos fine]
      have held : Books w (.addresses addresses.block :: loose) lost := by
        simpa [found, results, internals, opened] using books
      obtain ⟨released, books⟩ := held.release
      refine ⟨[], _, ?_, books, .of_flight (fun _ _ => rfl) rfl rfl, rfl, rfl⟩
      simp only [uv_freeaddrinfo, released, bind, Except.bind, pure, Except.pure]

end
end Coutil.FileCalls
