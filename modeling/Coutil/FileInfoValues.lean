import Coutil.FileInfoPlacement

set_option autoImplicit false

/-! The values of `system.fileinfo`, the same whether the queries block or are awaited. -/
namespace Coutil.FileInfoValues
open ByteString FileInfo FileInfoPlacement

/-- The sources that characters need. -/
def needed (chars : List Char) : List Source :=
  sources.filter fun s => some s ∈ chars.map sourceof

theorem sources_all (s : Source) : s ∈ sources := by
  cases s <;> decide

theorem mem_needed {chars : List Char} {s : Source} :
    s ∈ needed chars ↔ ∃ c ∈ chars, sourceof c = some s := by
  rw [needed, List.mem_filter]
  simp [sources_all]

/-! The bits. -/

section
variable {current : Option Source} {lstat noyield : Bool} {todo : List Source}

theorem current_all (current : Option Source) : current ∈ none :: sources.map some := by
  cases current with
  | none => exact List.mem_cons_self
  | some s => exact List.mem_cons_of_mem _ (List.mem_map_of_mem (sources_all s))

theorem boolean_all (b : Bool) : b ∈ [true, false] := by
  cases b <;> decide

theorem code_parts (current : Option Source) (lstat noyield : Bool) (sub : todo.Sublist sources) :
    getinfosrc (code current lstat noyield todo) = nextof lstat noyield todo ∧
      (code current lstat noyield todo &&& INFO_SRCMASK = 0 ↔ todo = []) ∧
      code current lstat noyield todo >>> INFO_BITCOUNT = current.elim 0 Source.bit ∧
      (code current lstat noyield todo &&& INFO_NOYIELD ≠ 0 ↔ noyield = true) :=
  code_all current (current_all current) lstat (boolean_all lstat) noyield (boolean_all noyield)
    todo (List.mem_sublists.mpr sub)

theorem readlink_all : ∀ s ∈ sources, ∀ lstat ∈ [true, false], ∀ noyield ∈ [true, false],
    ∀ todo ∈ sources.sublists,
      (code (some s) lstat noyield todo &&& (INFO_READLINK <<< INFO_BITCOUNT) ≠ 0 ↔
        s = .readlink) := by
  decide +kernel

theorem code_readlink (s : Source) (lstat noyield : Bool) (sub : todo.Sublist sources) :
    code (some s) lstat noyield todo &&& (INFO_READLINK <<< INFO_BITCOUNT) ≠ 0 ↔ s = .readlink :=
  readlink_all s (sources_all s) lstat (boolean_all lstat) noyield (boolean_all noyield) todo
    (List.mem_sublists.mpr sub)

theorem flags_all : ∀ lstat ∈ [true, false], ∀ noyield ∈ [true, false],
    code none lstat noyield [] ||| INFO_LSTAT = code none true noyield [] ∧
      code none lstat noyield [] ||| INFO_NOYIELD = code none lstat true [] := by
  decide +kernel

theorem added_all : ∀ lstat ∈ [true, false], ∀ noyield ∈ [true, false],
    ∀ todo ∈ sources.sublists, ∀ s ∈ sources,
      code none lstat noyield todo ||| s.bit =
        code none lstat noyield (sources.filter fun t => t ∈ todo ∨ t = s) := by
  decide +kernel

theorem lstat_all : ∀ lstat ∈ [true, false], ∀ noyield ∈ [true, false],
    ∀ todo ∈ sources.sublists,
      (code none lstat noyield todo &&& INFO_LSTAT ≠ 0 ↔ lstat = true) := by
  decide +kernel

end

/-! The mode. -/

section
variable {chars mode : List Char} {bits : Bits}

def accepted : Bits := INFO_LSTAT ||| INFO_SRCMASK

theorem checkprefixflags_code (mode : List Char) (lstat noyield : Bool) :
    ∃ lstat' noyield', (checkprefixflags accepted mode (code none lstat noyield [])).2 =
      code none lstat' noyield' [] := by
  induction mode generalizing lstat noyield with
  | nil => exact ⟨lstat, noyield, rfl⟩
  | cons c mode ih =>
    obtain ⟨withlstat, withnoyield⟩ := flags_all lstat (boolean_all lstat) noyield
      (boolean_all noyield)
    rw [checkprefixflags]
    by_cases tilde : c = '~'
    · rw [if_pos tilde, withnoyield]
      exact ih lstat true
    · rw [if_neg tilde]
      by_cases link : c = 'l' ∧ accepted &&& INFO_LSTAT ≠ 0
      · rw [if_pos link, withlstat]
        exact ih true noyield
      · rw [if_neg link]
        exact ⟨lstat, noyield, rfl⟩

theorem toinfosrc_source (c : Char) :
    (∃ s, sourceof c = some s ∧ toinfosrc c accepted = .ok s.bit) ∨
      toinfosrc c accepted = .ok 0 ∨ ∃ err, toinfosrc c accepted = .error err := by
  unfold sourceof toinfosrc
  by_cases stat : c ∈ statchars
  · exact .inl ⟨.stat, by rw [if_pos stat], by simp only [if_pos stat, Source.bit]⟩
  by_cases statfs : c ∈ statfschars
  · exact .inl ⟨.statfs, by rw [if_neg stat, if_pos statfs],
      by simp only [if_neg stat, if_pos statfs, Source.bit]⟩
  by_cases realpath : c = 'p'
  · exact .inl ⟨.realpath, by rw [if_neg stat, if_neg statfs, if_pos realpath],
      by simp only [if_neg stat, if_neg statfs, if_pos realpath, Source.bit]⟩
  by_cases readlink : c = '='
  · exact .inl ⟨.readlink, by rw [if_neg stat, if_neg statfs, if_neg realpath, if_pos readlink],
      by simp only [if_neg stat, if_neg statfs, if_neg realpath, if_pos readlink, Source.bit]⟩
  right
  simp only [if_neg stat, if_neg statfs, if_neg realpath, if_neg readlink]
  split_ifs
  all_goals first | exact .inl rfl | exact .inr ⟨_, rfl⟩

theorem bit_accepted (s : Source) : s.bit &&& accepted ≠ 0 := by
  cases s <;> decide

/-- Every accepted character has a source, and the bits tell the sources. -/
theorem checkchars_code {lstat noyield : Bool} {todo : List Source} (sub : todo.Sublist sources)
    (checked : checkchars accepted chars (code none lstat noyield todo) = .ok bits) :
    (∀ c ∈ chars, ∃ s, sourceof c = some s) ∧
      bits = code none lstat noyield
        (sources.filter fun s => s ∈ todo ∨ some s ∈ chars.map sourceof) := by
  induction chars generalizing todo with
  | nil =>
    rw [checkchars] at checked
    cases checked
    refine ⟨by simp, ?_⟩
    have same : ∀ todo ∈ sources.sublists,
        sources.filter (fun s => s ∈ todo ∨ some s ∈ ([] : List Char).map sourceof) = todo := by
      decide
    rw [same todo (List.mem_sublists.mpr sub)]
  | cons c chars ih =>
    rw [checkchars] at checked
    rcases toinfosrc_source c with ⟨s, source, sel⟩ | sel | ⟨err, sel⟩
    · simp only [sel, bind, Except.bind] at checked
      rw [if_pos (bit_accepted s), added_all lstat (boolean_all lstat) noyield (boolean_all noyield)
        todo (List.mem_sublists.mpr sub) s (sources_all s)] at checked
      obtain ⟨rest, here⟩ := ih List.filter_sublist checked
      refine ⟨?_, ?_⟩
      · intro d member
        rcases List.mem_cons.mp member with rfl | member
        · exact ⟨s, source⟩
        · exact rest d member
      · rw [here]
        congr 1
        apply List.filter_congr
        intro t _
        have known := sources_all t
        simp only [List.mem_filter, known, true_and, decide_eq_true_eq, List.map_cons,
          List.mem_cons, source, Option.some.injEq, or_assoc]
    · simp [sel, bind, Except.bind] at checked
    · simp [sel, bind, Except.bind] at checked

/-- An accepted mode. -/
theorem checkinfomode_code (checked : checkinfomode mode accepted = .ok (chars, bits)) :
    ∃ noyield, (∀ c ∈ chars, ∃ s, sourceof c = some s) ∧
      bits = code none (bits &&& INFO_LSTAT ≠ 0) noyield (needed chars) := by
  unfold checkinfomode at checked
  obtain ⟨lstat, noyield, flags⟩ := checkprefixflags_code
    (mode.takeWhile fun c => c ≠ Char.ofNat 0) false false
  have start : code none false false [] = 0 := by decide
  rw [start] at flags
  revert checked flags
  rcases checkprefixflags accepted (mode.takeWhile fun c => c ≠ Char.ofNat 0) 0 with ⟨rest, found⟩
  rintro checked rfl
  cases result : checkchars accepted rest (code none lstat noyield []) with
  | error err => simp [result, bind, Except.bind] at checked
  | ok bits' =>
    simp only [result, bind, Except.bind, pure, Except.pure, Except.ok.injEq, Prod.mk.injEq] at checked
    obtain ⟨rfl, rfl⟩ := checked
    obtain ⟨all, same⟩ := checkchars_code (List.nil_sublist _) result
    have clear : (sources.filter fun s => s ∈ ([] : List Source) ∨ some s ∈ rest.map sourceof) =
        needed rest := by
      simp [needed]
    rw [clear] at same
    refine ⟨noyield, all, ?_⟩
    have link : decide (bits' &&& INFO_LSTAT ≠ 0) = lstat := by
      rw [same, Bool.eq_iff_iff, decide_eq_true_eq]
      exact lstat_all lstat (boolean_all lstat) noyield (boolean_all noyield) (needed rest)
        (List.mem_sublists.mpr List.filter_sublist)
    rw [link]
    exact same

end

/-! The queries. -/

section
variable {pushfilesystype : ℕ → Bytes} {disk : Query → Filereq}
variable {args L : Stack} {chars : List Char} {lstat noyield : Bool} {todo : List Source}

/-- The values of the characters whose source is not to be queried any more. -/
abbrev Queried (pushfilesystype : ℕ → Bytes) (disk : Query → Filereq) (lstat : Bool) (args : Stack)
    (chars : List Char) (todo : List Source) (L : Stack) : Prop :=
  Filled args chars (valueof pushfilesystype disk lstat)
    (fun _ c => ∃ s, sourceof c = some s ∧ s ∉ todo) L

/-- No query fails. -/
def Fine (disk : Query → Filereq) (query : Query) : Prop :=
  0 ≤ (disk query).result ∨ (query = .readlink ∧ (disk query).result = UV_EINVAL)

theorem query_readlink {s : Source} : s.query lstat = .readlink ↔ s = .readlink := by
  cases s <;> cases lstat <;> decide

theorem pushfileinfo_source (base : ℕ) (s : Source) (sub : todo.Sublist sources)
    (filereq : Filereq) :
    pushfileinfo pushfilesystype L base (code (some s) lstat noyield todo) chars filereq =
      pushchars (pushof pushfilesystype · filereq s) base 0 chars L := by
  have source := (code_parts (some s) lstat noyield sub).2.2.1
  have here : (some s).elim 0 Source.bit = s.bit := rfl
  rw [here] at source
  unfold pushfileinfo
  rw [source]
  cases s <;> rfl

/-- The answer to a query gives the values of the characters of its source. -/
theorem pushfileinfo_queried (noyield : Bool) (s : Source) (sub : (s :: todo).Sublist sources)
    (queried : Queried pushfilesystype disk lstat args chars (s :: todo) L) :
    Queried pushfilesystype disk lstat args chars todo
      (pushfileinfo pushfilesystype L args.length (code (some s) lstat noyield todo) chars
        (disk (s.query lstat))) := by
  rw [pushfileinfo_source _ s ((List.sublist_cons_self s todo).trans sub)]
  have filled := pushchars_filled [] (fun c => ∃ t, sourceof c = some t ∧ t ∉ s :: todo)
    (pushof_value pushfilesystype disk lstat s) (List.nil_append chars).symm ⟨queried.below, fun j c found finished => queried.values j c found (finished.resolve_right
      fun absurd => Nat.not_lt_zero j absurd.1), queried.low, queried.high⟩
  refine ⟨filled.below, fun j c found finished => filled.values j c found ?_, filled.low, filled.high⟩
  obtain ⟨t, source, absent⟩ := finished
  by_cases same : t = s
  · right
    rw [pushof_isSome, source, same]
  · left
    refine ⟨t, source, fun member => ?_⟩
    rcases List.mem_cons.mp member with here | member
    · exact same here
    · exact absent member

theorem queried_start (low : ∀ c ∈ chars, ∃ s, sourceof c = some s ∧ s ∈ todo) :
    Queried pushfilesystype disk lstat args chars todo args := by
  refine ⟨fun _ _ => rfl, fun j c found finished => ?_, Nat.le_refl _, Nat.le_add_right _ _⟩
  obtain ⟨s, source, member⟩ := low c (List.mem_of_getElem? found)
  obtain ⟨t, source', absent⟩ := finished
  rw [source] at source'
  cases source'
  exact absurd member absent

theorem queried_values (queried : Queried pushfilesystype disk lstat args chars [] L)
    (known : ∀ c ∈ chars, ∃ s, sourceof c = some s) :
    L.drop args.length = chars.map (valueof pushfilesystype disk lstat) := by
  apply filled_values queried
  intro c member
  obtain ⟨s, source⟩ := known c member
  exact ⟨s, source, List.not_mem_nil⟩

/-- One query of each source that is left. -/
theorem blocking_returned (current : Option Source) (log : List Query) (more : ℕ)
    (sub : todo.Sublist sources) (two : args.length = 2)
    (known : ∀ c ∈ chars, ∃ s, sourceof c = some s)
    (fine : ∀ s ∈ todo, Fine disk (s.query lstat))
    (queried : Queried pushfilesystype disk lstat args chars todo L) :
    blocking pushfilesystype disk chars (todo.length + 1 + more)
        (code current lstat noyield todo) L log =
      (.returned (chars.map (valueof pushfilesystype disk lstat)),
        log ++ todo.map (Source.query lstat)) := by
  induction todo generalizing current log L with
  | nil =>
    have fuel : ([] : List Source).length + 1 + more = more + 1 := by simp [Nat.add_comm]
    rw [fuel, blocking, if_pos ((code_parts current lstat noyield sub).2.1.mpr rfl), ← two,
      queried_values queried known, List.map_nil, List.append_nil]
  | cons s todo ih =>
    have rest := (List.sublist_cons_self s todo).trans sub
    have fuel : (s :: todo).length + 1 + more = todo.length + 1 + more + 1 := by
      rw [List.length_cons]
      omega
    obtain ⟨got, pending, -⟩ := code_parts current lstat noyield sub
    have left : ¬ code current lstat noyield (s :: todo) &&& INFO_SRCMASK = 0 := by
      rw [pending]
      exact List.cons_ne_nil s todo
    rw [fuel, blocking, if_neg left, got, nextof]
    have okay : ¬ (if s.query lstat = .readlink ∧ (disk (s.query lstat)).result = UV_EINVAL then 0
        else (disk (s.query lstat)).result) < 0 := by
      split_ifs with link
      · exact Int.lt_irrefl 0
      · have positive := (fine s List.mem_cons_self).resolve_right link
        omega
    simp only
    rw [if_neg okay]
    have step := pushfileinfo_queried noyield s sub queried
    rw [two] at step
    rw [ih (some s) (log ++ [s.query lstat]) rest
      (fun t member => fine t (List.mem_cons_of_mem s member)) step, List.map_cons,
      List.append_assoc]
    rfl

/-- The stack below the values while queries are awaited. -/
def awaitargs (path : Bytes) (mode chars : List Char) (bits : Bits) : Stack :=
  [.string path, .text mode, .integer bits.toInt, .text chars]

theorem awaitargs_set (path : Bytes) (mode chars : List Char) (bits bits' : Bits) :
    (awaitargs path mode chars bits).set 2 (.integer bits'.toInt) =
      awaitargs path mode chars bits' := rfl

theorem queried_set {i : ℕ} {v : Value} (inside : i < args.length)
    (queried : Queried pushfilesystype disk lstat args chars todo L) :
    Queried pushfilesystype disk lstat (args.set i v) chars todo (L.set i v) := by
  have low := queried.low
  have high := queried.high
  refine ⟨fun j less => ?_, fun j c found finished => ?_, ?_, ?_⟩
  · by_cases same : i = j
    · rw [same, List.getElem?_set_self (by omega), List.getElem?_set_self (by omega)]
    · rw [List.getElem?_set_ne same, List.getElem?_set_ne same]
      rw [List.length_set] at less
      exact queried.below j less
  · rw [List.length_set, List.getElem?_set_ne (by omega)]
    exact queried.values j c found finished
  · rw [List.length_set, List.length_set]
    exact low
  · rw [List.length_set, List.length_set]
    exact high

section
variable {path : Bytes} {mode : List Char} {bits : Bits}

theorem index_bits
    (below : ∀ j < (awaitargs path mode chars bits).length, L[j]? =
      (awaitargs path mode chars bits)[j]?) :
    tointeger (index L 3) = bits := by
  have third := below 2 (show 2 < 4 by decide)
  rw [index, List.getD_eq_getElem?_getD, third]
  exact BitVec.ofInt_toInt

theorem k_endop_request (A : Stack) (filereq : Filereq) :
    k_endop (A ++ [.sched]) [.request filereq] = A ++ [.request filereq] := by
  rw [k_endop, remove, List.append_assoc,
    List.eraseIdx_append_of_length_le (by simp)]
  simp

theorem k_resetopk_stack (A answers : Stack) : k_resetopk A answers = A := by
  rw [k_resetopk, settop]
  simp

/-- An answered query. -/
theorem returnfileinfo_fine {s : Source} (sub : todo.Sublist sources)
    (fine : Fine disk (s.query lstat))
    (below : ∀ j < (awaitargs path mode chars (code (some s) lstat noyield todo)).length,
      L[j]? = (awaitargs path mode chars (code (some s) lstat noyield todo))[j]?)
    (low : 4 ≤ L.length) :
    returnfileinfo pushfilesystype (L ++ [.request (disk (s.query lstat))]) =
      yieldfileinfo (pushfileinfo pushfilesystype L 4 (code (some s) lstat noyield todo) chars
        (disk (s.query lstat))) := by
  have kept : ∀ j < 4, (L ++ [.request (disk (s.query lstat))])[j]? = L[j]? := by
    intro j less
    rw [List.getElem?_append_left (by omega)]
  have bits := index_bits (L := L ++ [.request (disk (s.query lstat))]) fun j less =>
    (kept j less).trans (below j less)
  have text : index (L ++ [.request (disk (s.query lstat))]) 4 = .text chars := by
    rw [index, List.getD_eq_getElem?_getD, kept 3 (by decide), below 3 (show 3 < 4 by decide)]
    rfl
  have okay : (disk (s.query lstat)).result ≥ 0 ∨
      (code (some s) lstat noyield todo &&& (INFO_READLINK <<< INFO_BITCOUNT) ≠ 0 ∧
        (disk (s.query lstat)).result = UV_EINVAL) := by
    rcases fine with positive | ⟨link, invalid⟩
    · exact .inl positive
    · exact .inr ⟨(code_readlink s lstat noyield sub).mpr (query_readlink.mp link), invalid⟩
  unfold returnfileinfo
  simp only [index_last, text, bits, List.dropLast_concat, if_pos okay]

theorem awaiting_returned (current : Option Source) (log : List Query) (more : ℕ)
    (sub : todo.Sublist sources) (known : ∀ c ∈ chars, ∃ s, sourceof c = some s)
    (fine : ∀ s ∈ todo, Fine disk (s.query lstat))
    (queried : Queried pushfilesystype disk lstat
      (awaitargs path mode chars (code current lstat noyield todo)) chars todo L) :
    awaiting pushfilesystype disk (todo.length + 1 + more) (yieldfileinfo L) log =
      (.returned (chars.map (valueof pushfilesystype disk lstat)),
        log ++ todo.map (Source.query lstat)) := by
  induction todo generalizing current log L with
  | nil =>
    have fuel : ([] : List Source).length + 1 + more = more + 1 := by simp [Nat.add_comm]
    have finished : yieldfileinfo L = .finished (.returned (L.drop 4)) := by
      unfold yieldfileinfo
      rw [index_bits queried.below]
      have none_left := (code_parts current lstat noyield sub).2.1.mpr rfl
      simp only [none_left, ne_eq, not_true_eq_false, if_false]
    have values := queried_values queried known
    rw [fuel, finished, awaiting, List.map_nil, List.append_nil, ← values]
    rfl
  | cons s todo ih =>
    have rest := (List.sublist_cons_self s todo).trans sub
    have fuel : (s :: todo).length + 1 + more = todo.length + 1 + more + 1 := by
      rw [List.length_cons]
      omega
    obtain ⟨got, pending, -⟩ := code_parts current lstat noyield sub
    have left : code current lstat noyield (s :: todo) &&& INFO_SRCMASK ≠ 0 := by
      rw [ne_eq, pending]
      exact List.cons_ne_nil s todo
    have low : 4 ≤ L.length := queried.low
    have suspended : yieldfileinfo L = .suspended
        (L.set 2 (.integer (code (some s) lstat noyield todo).toInt) ++ [.sched])
        (s.query lstat) := by
      unfold yieldfileinfo
      rw [index_bits queried.below]
      simp only [if_pos left, got, nextof]
      rw [replace_last (by decide) (by omega)]
    have moved := queried_set (v := .integer (code (some s) lstat noyield todo).toInt)
      (show 2 < 4 by decide) queried
    rw [awaitargs_set] at moved
    have okay := fine s List.mem_cons_self
    have step := pushfileinfo_queried noyield s sub moved
    rw [fuel, suspended, awaiting, k_endop_request,
      returnfileinfo_fine rest okay moved.below moved.low]
    have four : (awaitargs path mode chars (code (some s) lstat noyield todo)).length = 4 := rfl
    rw [four] at step
    rw [ih (some s) (log ++ [s.query lstat]) rest
      (fun t member => fine t (List.mem_cons_of_mem s member)) step, List.map_cons,
      List.append_assoc]
    rfl

end

/-! The same mode with blocking queries. -/

theorem or_noyield (bits flag : Bits) :
    bits ||| INFO_NOYIELD ||| flag = bits ||| flag ||| INFO_NOYIELD := by
  rw [BitVec.or_assoc, BitVec.or_comm INFO_NOYIELD flag, ← BitVec.or_assoc]

theorem checkprefixflags_noyield (mask : Bits) (mode : List Char) (bits : Bits) :
    checkprefixflags mask mode (bits ||| INFO_NOYIELD) =
      ((checkprefixflags mask mode bits).1,
        (checkprefixflags mask mode bits).2 ||| INFO_NOYIELD) := by
  induction mode generalizing bits with
  | nil => rfl
  | cons c mode ih =>
    rw [checkprefixflags, checkprefixflags]
    by_cases tilde : c = '~'
    · rw [if_pos tilde, if_pos tilde]
      exact ih _
    · rw [if_neg tilde, if_neg tilde]
      split_ifs with link
      · rw [or_noyield]
        exact ih _
      · rfl

theorem checkchars_noyield (mask : Bits) (chars : List Char) (bits : Bits) :
    checkchars mask chars (bits ||| INFO_NOYIELD) =
      (checkchars mask chars bits).map (· ||| INFO_NOYIELD) := by
  induction chars generalizing bits with
  | nil => rfl
  | cons c chars ih =>
    rw [checkchars, checkchars]
    cases toinfosrc c mask with
    | error err => rfl
    | ok sel =>
      simp only [bind, Except.bind]
      split_ifs with valid
      · rw [or_noyield]
        exact ih _
      · rfl

theorem checkinfomode_noyield {mode : List Char} {bits : Bits}
    (checked : checkinfomode mode accepted = .ok (chars, bits)) :
    checkinfomode ('~' :: mode) accepted = .ok (chars, bits ||| INFO_NOYIELD) := by
  have nonzero : decide ('~' ≠ Char.ofNat 0) = true := by decide
  unfold checkinfomode at checked ⊢
  rw [List.takeWhile_cons_of_pos (by exact nonzero), checkprefixflags, if_pos rfl,
    checkprefixflags_noyield]
  revert checked
  rcases checkprefixflags accepted (mode.takeWhile fun c => c ≠ Char.ofNat 0) 0 with ⟨rest, flags⟩
  intro checked
  cases result : checkchars accepted rest flags with
  | error err => simp [result, bind, Except.bind] at checked
  | ok bits' =>
    simp only [result, bind, Except.bind, pure, Except.pure, Except.ok.injEq, Prod.mk.injEq]
      at checked
    obtain ⟨rfl, rfl⟩ := checked
    simp only [checkchars_noyield, result, bind, Except.bind, pure, Except.pure, Except.map]

theorem noyield_lstat (bits : Bits) :
    (bits ||| INFO_NOYIELD) &&& INFO_LSTAT = bits &&& INFO_LSTAT := by
  have apart : INFO_NOYIELD &&& INFO_LSTAT = 0 := by decide
  have clear : bits &&& INFO_LSTAT ||| 0#32 = bits &&& INFO_LSTAT := BitVec.or_zero
  rw [BitVec.and_comm, BitVec.and_or_distrib_left, BitVec.and_comm INFO_LSTAT INFO_NOYIELD, apart,
    BitVec.and_comm INFO_LSTAT bits]
  exact clear

/-! The function. -/

theorem needed_length (chars : List Char) : (needed chars).length ≤ 4 :=
  List.length_filter_le _ sources

theorem needed_nodup (chars : List Char) : (needed chars).Nodup := by
  have all : sources.Nodup := by decide
  exact all.filter _

/-- Every needed source is queried once. -/
theorem system_fileinfo_returned {mode : List Char} {bits : Bits} (pushfilesystype : ℕ → Bytes)
    (busy : Option (List Value)) (more : ℕ) (path : Bytes) (checked : checkinfomode mode accepted = .ok (chars, bits))
    (fine : ∀ s ∈ needed chars, Fine disk (s.query (bits &&& INFO_LSTAT ≠ 0))) :
    system_fileinfo pushfilesystype disk busy (5 + more) path mode =
      (.returned (chars.map (valueof pushfilesystype disk (bits &&& INFO_LSTAT ≠ 0))),
        (needed chars).map (Source.query (bits &&& INFO_LSTAT ≠ 0))) := by
  obtain ⟨noyield, known, same⟩ := checkinfomode_code checked
  generalize link : decide (bits &&& INFO_LSTAT ≠ 0) = lstat at fine same ⊢
  have sub : (needed chars).Sublist sources := List.filter_sublist
  have short := needed_length chars
  obtain ⟨spare, fuel⟩ : ∃ spare, 5 + more = (needed chars).length + 1 + spare :=
    ⟨4 - (needed chars).length + more, by omega⟩
  have low : ∀ c ∈ chars, ∃ s, sourceof c = some s ∧ s ∈ needed chars := by
    intro c member
    obtain ⟨s, source⟩ := known c member
    exact ⟨s, source, mem_needed.mpr ⟨c, member, source⟩⟩
  unfold accepted at checked
  unfold system_fileinfo
  rw [checked, fuel]
  simp only
  by_cases block : bits &&& INFO_NOYIELD ≠ 0
  · rw [if_pos block, same]
    have start : Queried pushfilesystype disk lstat [.string path, .text mode] chars (needed chars)
        [.string path, .text mode] := queried_start low
    rw [blocking_returned none [] spare sub rfl known fine start, List.nil_append]
  · rw [if_neg block]
    have stack : busy.elim ([.string path, .text mode] ++ [.integer bits.toInt, .text chars])
        (k_resetopk ([.string path, .text mode] ++ [.integer bits.toInt, .text chars])) =
          awaitargs path mode chars (code none lstat noyield (needed chars)) := by
      cases busy with
      | none => rw [Option.elim_none, same]; rfl
      | some answers => rw [Option.elim_some, k_resetopk_stack, same]; rfl
    rw [stack, awaiting_returned none [] spare sub known fine (queried_start low), List.nil_append]

/-- The values are those of the characters, in their places. Each source that a character needs is
queried once, and no other. Blocking changes nothing. -/
theorem fileinfo_values {mode : List Char} {bits : Bits} (busy : Option (List Value)) (path : Bytes)
    (checked : checkinfomode mode (INFO_LSTAT ||| INFO_SRCMASK) = .ok (chars, bits))
    (fine : ∀ c ∈ chars, ∀ s, sourceof c = some s →
      0 ≤ (disk (s.query (bits &&& INFO_LSTAT ≠ 0))).result ∨
        (s = .readlink ∧ (disk .readlink).result = UV_EINVAL)) :
    ∃ asked : List Source, asked.Nodup ∧
      (∀ s, s ∈ asked ↔ ∃ c ∈ chars, sourceof c = some s) ∧
      ∀ more,
        system_fileinfo pushfilesystype disk busy (5 + more) path mode =
          (.returned (chars.map (valueof pushfilesystype disk (bits &&& INFO_LSTAT ≠ 0))),
            asked.map (Source.query (bits &&& INFO_LSTAT ≠ 0))) ∧
        system_fileinfo pushfilesystype disk busy (5 + more) path ('~' :: mode) =
          system_fileinfo pushfilesystype disk busy (5 + more) path mode := by
  have allfine : ∀ s ∈ needed chars, Fine disk (s.query (bits &&& INFO_LSTAT ≠ 0)) := by
    intro s member
    obtain ⟨c, inside, source⟩ := mem_needed.mp member
    refine (fine c inside s source).imp id fun ⟨link, invalid⟩ => ?_
    rw [link]
    exact ⟨rfl, invalid⟩
  refine ⟨needed chars, needed_nodup chars, fun s => mem_needed, fun more => ?_⟩
  have plain := system_fileinfo_returned pushfilesystype busy more path checked
    allfine
  have block := system_fileinfo_returned pushfilesystype busy more path
    (checkinfomode_noyield checked) (by rw [noyield_lstat]; exact allfine)
  rw [noyield_lstat] at block
  exact ⟨plain, block.trans plain.symm⟩

/-- A file that is no link. -/
def regular (query : Query) : Filereq where
  result := if query = .readlink then UV_EINVAL else 0
  ptr := literal "/tmp/file"
  statfs := ⟨0, 0, 0, 0, 0, 0, 0⟩
  statbuf := ⟨0o100644, 0, 0, 0, 0, 0, 0, 9, 0, 0, 0, 0, (0, 0), (0, 0), (0, 0), (0, 0)⟩

theorem fileinfo_values_regular :
    ∃ asked : List Source, asked.Nodup ∧
      (∀ s, s ∈ asked ↔ ∃ c ∈ ['p', 'B', '=', 'p'], sourceof c = some s) ∧
      ∀ more,
        system_fileinfo (fun _ => []) regular none (5 + more) (literal "file")
            ['p', 'B', '=', 'p'] =
          (.returned (['p', 'B', '=', 'p'].map
              (valueof (fun _ => []) regular ((0x0b : Bits) &&& INFO_LSTAT ≠ 0))),
            asked.map (Source.query ((0x0b : Bits) &&& INFO_LSTAT ≠ 0))) ∧
        system_fileinfo (fun _ => []) regular none (5 + more) (literal "file")
            ('~' :: ['p', 'B', '=', 'p']) =
          system_fileinfo (fun _ => []) regular none (5 + more) (literal "file")
            ['p', 'B', '=', 'p'] := by
  refine fileinfo_values none (literal "file") rfl fun c _ s _ => ?_
  cases s
  all_goals first | exact .inl (by decide) | exact .inr ⟨rfl, rfl⟩

end

end Coutil.FileInfoValues
