import Coutil.FileSteps

set_option autoImplicit false

/-! No descriptor, no internals of a request and no list of addresses has two owners, is released
twice or is used after that, whatever the coroutines do; what is lost in a run and when. -/
namespace Coutil.FileLosses
open Operation OperationStates FileResources FileSystem FileCustody FileCalls FileReturns
open FileOwnership FileSteps
open RequestPhase (wait phase phased restarted)

section
variable {T : Type} [DecidableEq T] {awaitch : Client Value (View T)} {s : FileSystem.State T}
  {w w' : World T} {x y : T} {u v : Operation.State Value (View T)} {call : Option Call}
  {own : Value} {env : Env} {L : Stack} {loose lost drops : List Resource}

/-! Steps, and runs. -/

/-- What libuv gives to `system.findaddr` fits, and neither a blocking close nor a collection leaves
an object with a descriptor that could not be closed. -/
def Given : Act T → Prop
  | .work _ done => Fitting done
  | .close _ _ noyield env => noyield = true → 0 ≤ env.err
  | .gc _ env => 0 ≤ env.err
  | _ => True

/-- A coroutine does something to its operation that is not a call of these functions. -/
theorem other_sound (sound : Sound awaitch s lost) (valid : Inv v)
    (plain : AwaitOperation.Plain awaitch v)
    (flights : ∀ flight, s.world.flight x = some flight → RequestPhase.flying v.op = true)
    (waiting : Waiting s.world x call (wait v.place))
    (mine : built call (wait v.place) = .nil ∨ built call (wait v.place) = builds s x) :
    Sound awaitch ⟨Function.update s.op x v, Function.update s.call x call, s.world⟩ lost := by
  have kept : Books s.world [] (lost ++ []) := by
    rw [List.append_nil]
    exact sound.books
  have here : Local awaitch s.world x v call :=
    ⟨valid, plain,
      fun flight flies => ⟨flights flight flies, ((sound.each x).flights flight flies).2⟩, waiting⟩
  have turned := sound.turn (.refl : Frame x .nil s.world s.world) kept here
    (fun y _ => nobody y) (fun y other => ?_) (fun l found none => by cases none)
  · rwa [List.append_nil] at turned
  · rcases mine with none | same
    · exact .inl none
    · rw [same]
      exact sound.apart x y (Ne.symm other)

/-- A callback of another request, or of a handle that was closed. -/
theorem freed_sound (sound : Sound awaitch s lost) (idle : s.world.flight x = none) (valid : Inv v)
    (plain : AwaitOperation.Plain awaitch v)
    (phases : phase v = restarted (s.op x) ⟨s.world, env⟩) (values : List Value) :
    ∃ values' w', resumed s x s.world env values = .ok (values', w') ∧
      Sound awaitch ⟨Function.update s.op x v, Function.update s.call x (s.call x), w'⟩ lost := by
  have away (stack : Stack) (c : Call) (place : (s.op x).place = .endop stack) :
      s.call x ≠ some c := by
    intro known
    have waiting := (sound.each x).waiting
    rw [place, known] at waiting
    obtain ⟨flight, flies, -⟩ := waiting
    rw [idle] at flies
    cases flies
  obtain ⟨values', w', resumes, restarted⟩ := sound.restart .refl rfl sound.books idle away valid
    plain phases values
  rw [List.append_nil] at restarted
  exact ⟨values', w', resumes, restarted⟩

theorem idle_of (sound : Sound awaitch s lost)
    (free : RequestPhase.flying (s.op x).op = false) : s.world.flight x = none := by
  by_contra flies
  obtain ⟨flight, flies⟩ := Option.ne_none_iff_exists'.mp flies
  rw [((sound.each x).flights flight flies).1] at free
  cases free

omit [DecidableEq T] in
theorem closecb_free {w : View T} {r : Except Site (Operation.State Value (View T))}
    (acted : Operation.step u (.closecb w) = some r) : RequestPhase.flying u.op = false := by
  cases step_cases acted with
  | closecb uv loops => simp only [RequestPhase.flying, uv]

omit [DecidableEq T] in
theorem handlecb_free {w : View T} {values : List Value}
    {r : Except Site (Operation.State Value (View T))}
    (acted : Operation.step u (.handlecb w values) = some r) :
    RequestPhase.flying u.op = false := by
  cases step_cases acted with
  | handlecb uv kind loops => simp only [RequestPhase.flying, uv]

/-- A call of another function, which leaves the files to the others. -/
theorem call_sound (sound : Sound awaitch s lost) {target : Target} {b : Client Value (View T)}
    (proper : AwaitOperation.Proper awaitch (.call target b ⟨s.world, env⟩ L))
    {r : Except Failure (FileSystem.State T)}
    (stepped : (Operation.step (s.op x) (.call target b ⟨s.world, env⟩ L)).map
      (finish s ⟨x, .call target b ⟨s.world, env⟩ L, none, .ok s.world⟩) = some r) :
    ∃ s', r = .ok s' ∧ Sound awaitch s' lost := by
  obtain ⟨q, acted, rfl⟩ := Option.map_eq_some_iff.mp stepped
  obtain ⟨v, rfl, valid, plain, phases⟩ := op_step (sound.each x) acted proper
  have flying : RequestPhase.flying v.op =
      (phased (s.op x) (.call target b ⟨s.world, env⟩ L)).flying :=
    congrArg RequestPhase.Phase.flying phases
  have waits : wait v.place = (phased (s.op x) (.call target b ⟨s.world, env⟩ L)).wait :=
    congrArg RequestPhase.Phase.wait phases
  have nothing (wt : RequestPhase.Wait Value (View T)) : built none wt = .nil := by
    cases wt <;> rfl
  refine ⟨_, finish_ok rfl, other_sound sound valid plain (fun flight flies => ?_) ?_
    (.inl (nothing _))⟩
  · rw [flying]
    cases check : ((s.op x).op.checkreset target).1 with
    | waitop =>
      simp only [phased, check]
      exact ((sound.each x).flights flight flies).1
    | _ =>
      have free := RequestPhase.checkreset_flying (sound.each x).valid
        (show ((s.op x).op.checkreset target).1 ≠ .waitop by rw [check]; simp)
      rw [idle_of sound free] at flies
      cases flies
  · rw [waits]
    cases check : ((s.op x).op.checkreset target).1 with
    | waitop =>
      simp only [phased, check]
      rintro c ⟨⟩
    | freeop =>
      have idle := idle_of sound (RequestPhase.checkreset_flying (sound.each x).valid
        (show ((s.op x).op.checkreset target).1 ≠ .waitop by rw [check]; simp))
      simp only [phased, check]
      cases target <;> cases b.setup ⟨s.world, env⟩ true L <;> first | exact idle | trivial
    | sameop =>
      have idle := idle_of sound (RequestPhase.checkreset_flying (sound.each x).valid
        (show ((s.op x).op.checkreset target).1 ≠ .waitop by rw [check]; simp))
      simp only [phased, check]
      cases target <;> cases b.setup ⟨s.world, env⟩ false L <;> first | exact idle | trivial

/-- The coroutine goes on by itself, or stops. -/
theorem leaves_sound (sound : Sound awaitch s lost) {a : Operation.Act Value (View T)}
    (plain : a = .yield ∨ a = .finish ∨ ∃ w values, a = .resume w values)
    {r : Except Failure (FileSystem.State T)}
    (stepped : (Operation.step (s.op x) a).map (finish s ⟨x, a, s.call x, .ok s.world⟩) = some r) :
    ∃ s', r = .ok s' ∧ Sound awaitch s' lost := by
  obtain ⟨q, acted, rfl⟩ := Option.map_eq_some_iff.mp stepped
  have proper : AwaitOperation.Proper awaitch a := by
    rcases plain with rfl | rfl | ⟨w, values, rfl⟩ <;> trivial
  have left : phased (s.op x) a = ⟨RequestPhase.flying (s.op x).op, .none⟩ := by
    rcases plain with rfl | rfl | ⟨w, values, rfl⟩ <;> rfl
  obtain ⟨v, rfl, valid, plain, phases⟩ := op_step (sound.each x) acted proper
  rw [left] at phases
  have waits : wait v.place = .none := congrArg RequestPhase.Phase.wait phases
  have flying : RequestPhase.flying v.op = RequestPhase.flying (s.op x).op :=
    congrArg RequestPhase.Phase.flying phases
  refine ⟨_, finish_ok rfl, other_sound sound valid plain (fun flight flies => ?_) ?_ (.inl ?_)⟩
  · rw [flying]
    exact ((sound.each x).flights flight flies).1
  · rw [waits]
    trivial
  · rw [waits]
    rfl

theorem settop_one (L : Stack) : settop L 1 = [index L 1] := by
  cases L with
  | nil => rfl
  | cons a L => simp [settop, index]

theorem settop_length (L : Stack) (top : ℕ) : (settop L top).length = top := by
  simp only [settop, List.length_append, List.length_take, List.length_replicate]
  omega

omit [DecidableEq T] in
/-- `system.openfile` up to where it yields or not. -/
theorem system_openfile_cases {yields : Bool} {L' : Stack}
    (ran : system_openfile w L = some (yields, L', w')) :
    w' = w.newfile ∧ ((yields = true ∧ L' = [index L 1, .file w.files.length]) ∨
      (yields = false ∧ ∃ flags perm, L' = [index L 1, .file w.files.length, flags, perm])) := by
  obtain ⟨mode, -, ran⟩ := Option.bind_eq_some_iff.mp ran
  obtain ⟨⟨flags, perm, noyield⟩, -, ran⟩ := Option.bind_eq_some_iff.mp ran
  dsimp only at ran
  have shape (perm' : Option ℤ) (stacked : (perm'.bind fun perm' => some (noyield,
      (if noyield = true then settop L 1 ++ [.file w.files.length]
        else settop L 1 ++ [.file w.files.length] ++
          [Value.integer (flags ||| access perm : ℕ), .integer perm']), w.newfile)) =
      some (yields, L', w')) : w' = w.newfile ∧
      ((yields = true ∧ L' = [index L 1, .file w.files.length]) ∨
        (yields = false ∧ ∃ flags perm, L' = [index L 1, .file w.files.length, flags, perm])) := by
    obtain ⟨perm', -, stacked⟩ := Option.bind_eq_some_iff.mp stacked
    rw [settop_one] at stacked
    cases noyield with
    | true =>
      cases stacked
      exact ⟨rfl, .inl ⟨rfl, rfl⟩⟩
    | false =>
      cases stacked
      exact ⟨rfl, .inr ⟨rfl, _, _, rfl⟩⟩
  by_cases creates : (flags ||| access perm) &&& UV_FS_O_CREAT ≠ 0
  · rw [if_pos creates] at ran
    exact shape (checkperm (index L 3)) ran
  · rw [if_neg creates] at ran
    exact shape (some 0) ran

theorem system_maketemp_length {yields : Bool} {L' : Stack}
    (ran : system_maketemp L = some (yields, L')) : L'.length = 4 := by
  obtain ⟨template, -, ran⟩ := Option.bind_eq_some_iff.mp ran
  obtain ⟨mode, -, ran⟩ := Option.bind_eq_some_iff.mp ran
  by_cases short : template.length < MKTMP_TEMPLATESZ - 6
  · rw [if_pos short] at ran
    obtain ⟨bits, -, ran⟩ := Option.bind_eq_some_iff.mp ran
    cases ran
    rw [List.length_append, settop_length]
    rfl
  · rw [if_neg short] at ran
    cases ran

theorem openfile_sound (sound : Sound awaitch s lost) {r : Except Failure (FileSystem.State T)}
    (stepped : FileSystem.step awaitch s (.openfile x L env) = some r) :
    ∃ s', r = .ok s' ∧ Sound awaitch s' lost := by
  simp only [FileSystem.step, taken] at stepped
  rcases opens : system_openfile s.world L with _ | ⟨yields, L', w⟩
  · simp only [opens] at stepped
    cases stepped
    exact ⟨s, rfl, sound⟩
  · obtain ⟨rfl, ⟨rfl, rfl⟩ | ⟨rfl, flags, perm, rfl⟩⟩ := system_openfile_cases opens
    · simp only [opens] at stepped
      cases ran : openblocking s.world.newfile env [index L 1, .file s.world.files.length] with
      | none =>
        simp only [ran, Option.map_none] at stepped
        cases stepped
      | some q =>
        obtain ⟨w', rfl, books, frame, flights⟩ :=
          openblocking_books x newfile_raw sound.books.newfile ran
        simp only [ran, Option.map_some] at stepped
        cases stepped
        refine ⟨_, rfl, ?_⟩
        have kept : Books w' [] (lost ++ []) := by rwa [List.append_nil]
        have moved := sound.outside (frame_newfile.trans frame) flights kept
          (fun y => .inr (sound.fresh_file y)) (fun l found mine => by cases mine)
        rwa [List.append_nil] at moved
    · simp only [opens] at stepped
      exact sound.awaits .openfile _ frame_newfile rfl rfl sound.books.newfile
        ⟨index L 1, s.world.files.length, flags, perm, rfl, newfile_raw⟩
        (fun y _ => .inr (sound.fresh_file y)) stepped

theorem maketemp_sound (sound : Sound awaitch s lost) {r : Except Failure (FileSystem.State T)}
    (stepped : FileSystem.step awaitch s (.maketemp x L env) = some r) :
    ∃ s', r = .ok s' ∧ Sound awaitch s' (lost ++ dropped s (.maketemp x L env)) := by
  simp only [FileSystem.step, taken] at stepped
  simp only [dropped]
  rcases accepted : system_maketemp L with _ | ⟨yields, L'⟩
  · simp only [accepted] at stepped
    cases stepped
    rw [List.append_nil]
    exact ⟨s, rfl, sound⟩
  · have length := system_maketemp_length accepted
    cases yields with
    | true =>
      simp only [accepted] at stepped
      cases ran : mktmpblocking s.world env L' with
      | none =>
        simp only [ran, Option.map_none] at stepped
        cases stepped
      | some q =>
        obtain ⟨w', rfl, books, frame, flights⟩ :=
          mktmpblocking_books x .nil length sound.books ran
        simp only [ran, Option.map_some] at stepped
        cases stepped
        exact ⟨_, rfl, moved_sound sound frame flights books.forget⟩
    | false =>
      simp only [accepted] at stepped
      simp only [List.append_nil]
      exact sound.awaits .maketemp _ .refl rfl rfl sound.books length (fun y _ => .inl rfl) stepped

theorem handlecb_sound (sound : Sound awaitch s lost) {values : List Value}
    {r : Except Failure (FileSystem.State T)}
    (stepped : FileSystem.step awaitch s (.handlecb x values env) = some r) :
    ∃ s', r = .ok s' ∧ Sound awaitch s' lost := by
  simp only [FileSystem.step, taken] at stepped
  obtain ⟨q, acted, rfl⟩ := Option.map_eq_some_iff.mp stepped
  have idle := idle_of sound (handlecb_free acted)
  obtain ⟨v, rfl, valid, plain, phases⟩ := op_step (sound.each x) acted trivial
  have waiting := (sound.each x).waiting
  have waits : wait v.place = (phased (s.op x) (.handlecb ⟨s.world, env⟩
    (valuesof (ended s x s.world env values)))).wait := congrArg RequestPhase.Phase.wait phases
  have unended : ended s x s.world env values = .ok (values, s.world) := by
    unfold ended
    cases place : (s.op x).place with
    | endop L =>
      cases known : s.call x with
      | none => rfl
      | some c =>
        rw [place, known] at waiting
        obtain ⟨flight, flies, -⟩ := waiting
        rw [idle] at flies
        cases flies
    | _ => rfl
  refine ⟨_, finish_ok (by simp only [unended]; rfl), other_sound sound valid plain
    (fun flight flies => by rw [idle] at flies; cases flies) ?_ ?_⟩
  · rw [waits]
    simp only [phased]
    cases place : (s.op x).place with
    | endop L => trivial
    | _ =>
      rw [place] at waiting
      exact waiting
  · rw [waits]
    simp only [phased, builds]
    cases place : (s.op x).place with
    | endop L => exact .inl rfl
    | _ => exact .inr rfl

theorem fileinfo_sound (sound : Sound awaitch s lost) {bits : FileInfo.Bits}
    {r : Except Failure (FileSystem.State T)}
    (stepped : FileSystem.step awaitch s (.fileinfo L bits env) = some r) :
    ∃ s', r = .ok s' ∧ Sound awaitch s' (lost ++ dropped s (.fileinfo L bits env)) := by
  obtain ⟨w', called, books, files, lists, flights⟩ :
      ∃ w', fileinfoblocking s.world env L bits = .ok w' ∧
        Books w' (unshown s.world env L bits) lost ∧ w'.files = s.world.files ∧
        w'.lists = s.world.lists ∧ w'.flight = s.world.flight :=
    fileinfoblocking_books bits sound.books
  simp only [FileSystem.step, taken, called] at stepped
  cases stepped
  have frame (y : T) : Frame y .nil s.world w' :=
    .of_flight (fun _ _ => by rw [flights]) files lists
  refine ⟨_, rfl, books.forget, fun y => ?_, sound.apart, ?_⟩
  · exact (sound.each y).frame (frame y) (congrFun flights y) (nobody y)
  · unfold Listed
    rw [lists]
    exact sound.listed

theorem yieldfileinfo_sound (sound : Sound awaitch s lost)
    {r : Except Failure (FileSystem.State T)}
    (stepped : FileSystem.step awaitch s (.yieldfileinfo x L env) = some r) :
    ∃ s', r = .ok s' ∧ Sound awaitch s' lost := by
  simp only [FileSystem.step, taken] at stepped
  by_cases more : bitsof (index L 3) &&& FileInfo.INFO_SRCMASK ≠ 0
  · rw [if_pos more] at stepped
    exact sound.awaits .fileinfo _ .refl rfl rfl sound.books trivial (fun y _ => .inl rfl) stepped
  · rw [if_neg more] at stepped
    cases stepped
    exact ⟨s, rfl, sound⟩

theorem info_sound (sound : Sound awaitch s lost) {r : Except Failure (FileSystem.State T)}
    (stepped : FileSystem.step awaitch s (.info x L env) = some r) :
    ∃ s', r = .ok s' ∧ Sound awaitch s' lost := by
  simp only [FileSystem.step, taken] at stepped
  rcases mode : infomode L with _ | ⟨chars, noyield⟩
  · simp only [mode] at stepped
    cases stepped
    exact ⟨s, rfl, sound⟩
  · cases noyield with
    | true =>
      simp only [mode, infoblocking_books sound.books] at stepped
      cases stepped
      exact ⟨s, rfl, sound⟩
    | false =>
      simp only [mode] at stepped
      have length : (settop L 2 ++ [Value.mode chars]).length = 3 := by
        rw [List.length_append, settop_length]
        rfl
      have third : index (settop L 2 ++ [.mode chars]) 3 = .mode chars := by
        have last := index_last (.mode chars) (L := settop L 2)
        rwa [length] at last
      exact sound.awaits .fobjinfo _ .refl rfl rfl sound.books ⟨length, chars, third⟩
        (fun y _ => .inl rfl) stepped

theorem close_sound (sound : Sound awaitch s lost) {noyield : Bool}
    (closes : noyield = true → 0 ≤ env.err) {r : Except Failure (FileSystem.State T)}
    (stepped : FileSystem.step awaitch s (.close x L noyield env) = some r) :
    ∃ s', r = .ok s' ∧ Sound awaitch s' lost := by
  simp only [FileSystem.step, taken] at stepped
  cases noyield with
  | true =>
    obtain ⟨w', ran, books, frame, flights⟩ :=
      closeblocking_books env L x .nil (closes rfl) sound.books
    simp only [if_true, ran] at stepped
    cases stepped
    rw [← List.append_nil lost] at books ⊢
    exact ⟨_, rfl, moved_sound sound frame flights books⟩
  | false =>
    simp only [Bool.false_eq_true, if_false] at stepped
    exact sound.awaits .closef _ .refl rfl rfl sound.books trivial (fun y _ => .inl rfl) stepped

theorem fileop_sound (sound : Sound awaitch s lost) {op : Fileop} {noyield : Bool}
    {r : Except Failure (FileSystem.State T)}
    (stepped : FileSystem.step awaitch s (.fileop x op L noyield env) = some r) :
    ∃ s', r = .ok s' ∧ Sound awaitch s' lost := by
  simp only [FileSystem.step, taken] at stepped
  cases noyield with
  | true =>
    simp only [if_true, fileopblocking_books sound.books] at stepped
    cases stepped
    exact ⟨s, rfl, sound⟩
  | false =>
    simp only [Bool.false_eq_true, if_false] at stepped
    exact sound.awaits (.fileop op) _ .refl rfl rfl sound.books trivial (fun y _ => .inl rfl)
      stepped

theorem gc_sound (sound : Sound awaitch s lost) {f : ℕ} (closes : 0 ≤ env.err)
    {r : Except Failure (FileSystem.State T)}
    (stepped : FileSystem.step awaitch s (.gc f env) = some r) :
    ∃ s', r = .ok s' ∧ Sound awaitch s' lost := by
  obtain ⟨w', called, books, frame, flights, lists⟩ := file_gc_books env f closes sound.books
  simp only [FileSystem.step, taken, called] at stepped
  cases stepped
  refine ⟨_, rfl, books, fun y => ?_, sound.apart, ?_⟩
  · exact (sound.each y).frame (frame y .nil) (congrFun flights y) (nobody y)
  · unfold Listed
    rw [lists]
    exact sound.listed

theorem executes_sound (sound : Sound awaitch s lost) {done : Done} (fitting : Fitting done)
    {r : Except Failure (FileSystem.State T)}
    (stepped : FileSystem.step awaitch s (.work x done) = some r) :
    ∃ s', r = .ok s' ∧ Sound awaitch s' lost := by
  simp only [FileSystem.step, taken] at stepped
  rcases flies : s.world.flight x with _ | ⟨query, callback, block, _ | landed⟩
  · simp only [flies] at stepped
    cases stepped
  · simp only [flies] at stepped
    cases ran : executed s.world x ⟨query, callback, block, none⟩ done with
    | none =>
      simp only [ran, Option.map_none] at stepped
      cases stepped
    | some q =>
      obtain ⟨w', rfl, after⟩ := work_sound sound fitting flies ran
      simp only [ran, Option.map_some] at stepped
      cases stepped
      exact ⟨_, rfl, after⟩
  · simp only [flies] at stepped
    cases stepped

/-- An operation of other functions. -/
theorem others_sound (sound : Sound awaitch s lost) {target : Target} {b : Client Value (View T)}
    {r : Except Failure (FileSystem.State T)}
    (stepped : FileSystem.step awaitch s (.call x target b L env) = some r) :
    ∃ s', r = .ok s' ∧ Sound awaitch s' lost := by
  simp only [FileSystem.step, taken] at stepped
  by_cases other : isOther target b = true
  · simp only [if_pos other] at stepped
    obtain ⟨notasync, nocancel⟩ := Bool.and_eq_true_iff.mp other
    have away := of_decide_eq_true notasync
    have none := Option.isNone_iff_eq_none.mp nocancel
    have proper : AwaitOperation.Proper awaitch (.call target b ⟨s.world, env⟩ L) := by
      refine ⟨?_, fun same => absurd same away⟩
      cases target with
      | request => exact none
      | handle type => cases type <;> first | exact none | exact absurd rfl away
    exact call_sound sound proper stepped
  · simp only [if_neg other] at stepped
    cases stepped

theorem requestcb_sound (sound : Sound awaitch s lost) {values : List Value}
    {r : Except Failure (FileSystem.State T)}
    (stepped : FileSystem.step awaitch s (.requestcb x values env) = some r) :
    ∃ s', r = .ok s' ∧ Sound awaitch s' lost := by
  simp only [FileSystem.step, taken] at stepped
  cases flies : s.world.flight x with
  | some flight =>
    simp only [flies, Option.isNone_some, Bool.false_eq_true, if_false] at stepped
    cases stepped
  | none =>
    simp only [flies, Option.isNone_none, if_true] at stepped
    obtain ⟨q, acted, rfl⟩ := Option.map_eq_some_iff.mp stepped
    obtain ⟨v, rfl, valid, plain, phases⟩ := op_step (sound.each x) acted trivial
    obtain ⟨values', w', resumes, after⟩ := freed_sound sound flies valid plain phases values
    exact ⟨_, finish_ok (by simp only [resumes]; rfl), after⟩

theorem closecb_sound (sound : Sound awaitch s lost) {r : Except Failure (FileSystem.State T)}
    (stepped : FileSystem.step awaitch s (.closecb x env) = some r) :
    ∃ s', r = .ok s' ∧ Sound awaitch s' lost := by
  simp only [FileSystem.step, taken] at stepped
  obtain ⟨q, acted, rfl⟩ := Option.map_eq_some_iff.mp stepped
  have idle := idle_of sound (closecb_free acted)
  obtain ⟨v, rfl, valid, plain, phases⟩ := op_step (sound.each x) acted trivial
  obtain ⟨values', w', resumes, after⟩ := freed_sound sound idle valid plain phases []
  exact ⟨_, finish_ok (by simp only [resumes]; rfl), after⟩

/-- What a step does to the resources. -/
theorem step_sound (sound : Sound awaitch s lost) {a : Act T} (given : Given a)
    {r : Except Failure (FileSystem.State T)} (stepped : FileSystem.step awaitch s a = some r) :
    ∃ s', r = .ok s' ∧ Sound awaitch s' (lost ++ dropped s a) := by
  have keeps (nothing : dropped s a = []) (after : ∃ s', r = .ok s' ∧ Sound awaitch s' lost) :
      ∃ s', r = .ok s' ∧ Sound awaitch s' (lost ++ dropped s a) := by
    rw [nothing, List.append_nil]
    exact after
  cases a with
  | openfile x L env => exact keeps rfl (openfile_sound sound stepped)
  | maketemp x L env => exact maketemp_sound sound stepped
  | uvcallback x env => exact uvcallback_sound sound stepped
  | fileinfo L bits env => exact fileinfo_sound sound stepped
  | yieldfileinfo x L env => exact keeps rfl (yieldfileinfo_sound sound stepped)
  | info x L env => exact keeps rfl (info_sound sound stepped)
  | close x L noyield env => exact keeps rfl (close_sound sound given stepped)
  | fileop x op L noyield env => exact keeps rfl (fileop_sound sound stepped)
  | findaddr x L env =>
    refine keeps rfl ?_
    simp only [FileSystem.step, taken] at stepped
    exact sound.awaits .findaddr _ .refl rfl rfl sound.books trivial (fun y _ => .inl rfl) stepped
  | found l method =>
    refine keeps rfl ?_
    obtain ⟨w', called, after⟩ := found_sound sound l method
    simp only [FileSystem.step, taken, called] at stepped
    cases stepped
    exact ⟨_, rfl, after⟩
  | gc f env => exact keeps rfl (gc_sound sound given stepped)
  | work x done => exact keeps rfl (executes_sound sound given stepped)
  | awaitch x L env =>
    have proper : AwaitOperation.Proper awaitch
        (.call (.handle .async) awaitch ⟨s.world, env⟩ L) := ⟨rfl, fun _ => rfl⟩
    exact keeps rfl (call_sound sound proper stepped)
  | call x target b L env => exact keeps rfl (others_sound sound stepped)
  | yield x => exact keeps rfl (leaves_sound sound (.inl rfl) stepped)
  | finish x => exact keeps rfl (leaves_sound sound (.inr (.inl rfl)) stepped)
  | resume x values env =>
    exact keeps rfl (leaves_sound sound (.inr (.inr ⟨_, _, rfl⟩)) stepped)
  | requestcb x values env => exact keeps rfl (requestcb_sound sound stepped)
  | handlecb x values env => exact keeps rfl (handlecb_sound sound stepped)
  | closecb x env => exact keeps rfl (closecb_sound sound stepped)

/-- A step, with what is lost so far. -/
def accounted (awaitch : Client Value (View T)) (p : FileSystem.State T × List Resource)
    (a : Act T) : Option (FileSystem.State T × List Resource) :=
  (FileSystem.next awaitch p.1 a).map fun u => (u, p.2 ++ dropped p.1 a)

theorem next_step {a : Act T} {s' : FileSystem.State T}
    (stepped : FileSystem.next awaitch s a = some s') :
    FileSystem.step awaitch s a = some (.ok s') := by
  unfold FileSystem.next at stepped
  split at stepped
  · rename_i u taken
    cases stepped
    exact taken
  · cases stepped

theorem next_sound (sound : Sound awaitch s lost) {a : Act T} (given : Given a)
    {s' : FileSystem.State T} (stepped : FileSystem.next awaitch s a = some s') :
    Sound awaitch s' (lost ++ dropped s a) := by
  obtain ⟨u, same, after⟩ := step_sound sound given (next_step stepped)
  cases same
  exact after

theorem accounted_sound {acts : List (Act T)} {p : FileSystem.State T × List Resource}
    (given : ∀ a ∈ acts, Given a)
    (ran : Runs.run (accounted awaitch) (initial, []) acts = some p) :
    Sound awaitch p.1 p.2 := by
  refine Runs.run_invariant_along (fun p => Sound awaitch p.1 p.2) (fun _ a => Given a)
    (fun p a q sound given stepped => ?_) initial_sound
    (Runs.along_always fun a member _ => given a member) ran
  obtain ⟨s', taken, rfl⟩ := Option.map_eq_some_iff.mp stepped
  exact next_sound sound given taken

theorem run_accounted {acts : List (Act T)}
    (ran : Runs.run (FileSystem.next awaitch) initial acts = some s) :
    ∃ lost, Runs.run (accounted awaitch) (initial, []) acts = some (s, lost) := by
  obtain ⟨p, recorded, same⟩ : ∃ p, Runs.run (accounted awaitch) (initial, []) acts = some p ∧
      s = p.1 := by
    refine Runs.run_simulation (fun s (p : FileSystem.State T × List Resource) => s = p.1)
      (fun s p a u same stepped => ?_) rfl ran
    subst same
    exact ⟨(u, p.2 ++ dropped p.1 a), by unfold accounted; rw [stepped]; rfl, rfl⟩
  subst same
  exact ⟨p.2, recorded⟩

def sampleAwaitch : Client Value (View Bool) := ⟨fun _ _ _ => .error, none, none⟩

def sampleEnv : Env := ⟨0, true, fun _ => true, false, [], []⟩

/-- A coroutine opens a file and closes it, and another one opens one. -/
def sampleClosed : List (Act Bool) :=
  [.resume false [] sampleEnv, .openfile false [.string ['a']] sampleEnv,
    .work false ⟨7, [], none⟩, .uvcallback false sampleEnv,
    .close false [.file 0] false sampleEnv, .resume true [] sampleEnv,
    .openfile true [.string ['b']] sampleEnv, .work false ⟨0, [], none⟩,
    .work true ⟨7, [], none⟩, .uvcallback false sampleEnv, .uvcallback true sampleEnv]

/-- A coroutine is resumed while libuv opens a file for it. -/
def sampleResumed : List (Act Bool) :=
  [.resume false [] sampleEnv, .openfile false [.string ['a']] sampleEnv,
    .resume false [] sampleEnv, .work false ⟨7, [], none⟩, .uvcallback false sampleEnv]

end
end Coutil.FileLosses
