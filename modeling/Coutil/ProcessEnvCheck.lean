import Coutil.ProcessEnv

set_option autoImplicit false

/-! Which tables the first traversal of `newprocenv` lets through. -/
namespace Coutil.ProcessEnvCheck
open AccessTrace Traced ByteString TableTraversal ProcessEnv

abbrev Entry := Value × Option Value

structure Wellformed (t : Env) : Prop where
  nodup : (keys t).Nodup
  lives : ∀ e ∈ t, e.2.isSome

/-- The traversal goes on from the key that it came to, and what is measured or copied is there. -/
def Sound : Access → Prop
  | .next last current => current = last
  | .length text => text ≠ none
  | .copy text => text ≠ none
  | _ => True

/-- Every key and value is a string or number, and no name has an equals sign. -/
def Valid (t : Env) : Prop :=
  ∀ e ∈ t, (∃ name, e.1.tostring = some name ∧ '='.toUInt8 ∉ name) ∧
    (e.2.bind Value.tostring).isSome

/-- All accesses are sound, and the call raises an error or the table is valid. -/
structure Meets (word : ℕ) (t : Env) : Prop where
  sound : ∀ fuel, ∀ a ∈ (newprocenv word t fuel).trace, Sound a
  ends : ∃ fuel, ∀ more, (∃ msg, (newprocenv word t (fuel + more)).result = .error (.raised msg)) ∨
    (newprocenv word t (fuel + more)).result = .ok () ∧ Valid t

def Refused (e : Entry) : Prop := refused e.1.tostring (e.2.bind Value.tostring) = true

def Named (e : Entry) : Prop := ∃ name, e.1 = .string name

/-- An entry is refused and all keys before it are strings; or all keys are strings without an
equals sign, and all values strings or numbers. -/
def Checked (t : Env) : Prop :=
  (∃ before e after, t = before ++ e :: after ∧ (∀ d ∈ before, Named d) ∧ Refused e) ∨
    ∀ e ∈ t, (∃ name, e.1 = .string name ∧ '='.toUInt8 ∉ name) ∧
      (e.2.bind Value.tostring).isSome

section
variable {t before rest : Env} {e : Entry} {current : Option Value}

def Passes (e : Entry) : Prop := Named e ∧ ¬ Refused e

/-- The entries pass, or they do up to one that is refused, or to one that is taken although its
key is no string. -/
theorem entries_cases (t : Env) : (∀ e ∈ t, Passes e) ∨
    ∃ before e after, t = before ++ e :: after ∧ (∀ d ∈ before, Passes d) ∧
      (Refused e ∨ ¬ Named e) := by
  induction t with
  | nil => exact Or.inl (List.forall_mem_nil _)
  | cons e t ih =>
    by_cases passes : Passes e
    · rcases ih with all | ⟨before, d, after, rfl, front, stops⟩
      · exact Or.inl (List.forall_mem_cons.mpr ⟨passes, all⟩)
      · exact Or.inr ⟨e :: before, d, after, rfl, List.forall_mem_cons.mpr ⟨passes, front⟩, stops⟩
    · refine Or.inr ⟨[], e, t, rfl, List.forall_mem_nil _, ?_⟩
      by_cases refused : Refused e
      · exact Or.inl refused
      · exact Or.inr fun named => passes ⟨named, refused⟩

theorem strlen_ends {text : Bytes} :
    Ends Sound (strlen (some text)) (.ok (cstring text).length) :=
  ends_access (P := Sound) (a := Access.length (some text)) nofun _

theorem next_ends (current : Option Value) :
    Ends Sound (access (.next current current) (.ok ()) : Code Unit) (.ok ()) :=
  ends_access (P := Sound) (a := Access.next current current) rfl _

theorem text_of_taken {name value : Option Bytes} {text : Bytes} (named : name = some text)
    (taken : refused name value = false) : ∃ text', value = some text' := by
  subst name
  cases value with
  | none => cases taken
  | some text' => exact ⟨text', rfl⟩

theorem check_taken (word : ℕ) {key : Value} {value : Option Value} {text : Bytes}
    (found : next t current = .at key) (here : lookup t key = value)
    (named : key.tostring = some text)
    (taken : refused key.tostring (value.bind Value.tostring) = false) (fuel envc envsz : ℕ) :
    ∃ envsz', After Sound (check word t (fuel + 1) current current envc envsz)
      (check word t fuel (some key) (some key.converted) (envc + 1) envsz') := by
  obtain ⟨text', valued⟩ := text_of_taken named taken
  refine ⟨envsz + (word + ((cstring text).length + 1 + (cstring text').length + 1)), ?_⟩
  rw [check_entry found, here]
  refine ((next_ends current).after _).trans ?_
  change After Sound (if refused key.tostring (value.bind Value.tostring) then _ else _) _
  rw [taken, named, valued]
  refine (strlen_ends.after _).trans ?_
  exact strlen_ends.after _

theorem check_goes (word : ℕ) (nodup : (keys t).Nodup) (front : ∀ d ∈ before, Passes d)
    (lives : ∀ d ∈ before, d.2.isSome) (upto : Upto t (before ++ rest) current)
    (fuel envc envsz : ℕ) : ∃ current' envc' envsz', Upto t rest current' ∧
      After Sound (check word t (before.length + fuel) current current envc envsz)
        (check word t fuel current' current' envc' envsz') := by
  induction before generalizing current envc envsz with
  | nil =>
    rw [List.length_nil, Nat.zero_add]
    exact ⟨current, envc, envsz, upto, after_refl _ _⟩
  | cons d before ih =>
    obtain ⟨⟨⟨name, named⟩, taken⟩, front'⟩ := List.forall_mem_cons.mp front
    obtain ⟨live, lives'⟩ := List.forall_mem_cons.mp lives
    obtain ⟨key, value⟩ := d
    obtain rfl : key = .string name := named
    obtain ⟨value, rfl⟩ := Option.isSome_iff_exists.mp live
    obtain ⟨found, here, upto⟩ := upto.entry nodup
    have accepted : refused (some name) ((some value).bind Value.tostring) = false :=
      Bool.eq_false_iff.mpr taken
    obtain ⟨envsz', first⟩ := check_taken word found here rfl accepted
      (before.length + fuel) envc envsz
    obtain ⟨current', envc'', envsz'', upto, later⟩ := ih front' lives' upto (envc + 1) envsz'
    refine ⟨current', envc'', envsz'', upto, ?_⟩
    rw [List.length_cons, Nat.add_right_comm]
    exact first.trans later

/-- There is not enough fuel for the entries that pass. -/
theorem check_running (word : ℕ) (nodup : (keys t).Nodup) (front : ∀ d ∈ before, Passes d)
    (lives : ∀ d ∈ before, d.2.isSome) (upto : Upto t (before ++ rest) current) {fuel : ℕ}
    (few : fuel ≤ before.length) (envc envsz : ℕ) :
    Ends Sound (check word t fuel current current envc envsz) (.error .running) := by
  have split : before.take fuel ++ (before.drop fuel ++ rest) = before ++ rest := by
    rw [← List.append_assoc, List.take_append_drop]
  rw [← split] at upto
  obtain ⟨current', envc', envsz', -, after⟩ := check_goes word nodup
    (fun d member => front d (List.mem_of_mem_take member))
    (fun d member => lives d (List.mem_of_mem_take member)) upto 0 envc envsz
  rw [List.length_take, Nat.min_eq_left few, Nat.add_zero] at after
  exact after.ends (ends_stop _ _)

theorem check_refused (word : ℕ) (nodup : (keys t).Nodup) {key : Value} {value : Value}
    (upto : Upto t ((key, some value) :: rest) current) (refused_ : Refused (key, some value))
    (fuel envc envsz : ℕ) :
    Ends Sound (check word t (fuel + 1) current current envc envsz)
      (.error (.raised (badname key.tostring))) := by
  obtain ⟨found, here, -⟩ := upto.entry nodup
  rw [check_entry found, here]
  refine ((next_ends current).after _).ends ?_
  have refuses : refused key.tostring ((some value).bind Value.tostring) = true := refused_
  change Ends Sound (if refused key.tostring ((some value).bind Value.tostring) then _ else _) _
  rw [if_pos refuses]
  exact ends_stop _ _

/-- An entry with another key is measured without a string, or disturbs the traversal. -/
theorem check_unnamed (word : ℕ) (nodup : (keys t).Nodup) {key : Value} {value : Value}
    (upto : Upto t ((key, some value) :: rest) current) (taken : ¬ Refused (key, some value))
    (unnamed : ¬ Named (key, some value)) (fuel envc envsz : ℕ) :
    ¬ Every Sound (check word t (fuel + 2) current current envc envsz) := by
  obtain ⟨found, here, -⟩ := upto.entry nodup
  have accepted : ¬ refused key.tostring ((some value).bind Value.tostring) = true := taken
  cases named : key.tostring with
  | none =>
    rw [check_entry found, here, ((next_ends current).after _).every]
    change ¬ Every Sound (if refused key.tostring ((some value).bind Value.tostring) then _ else _)
    rw [if_neg accepted, named]
    intro every
    have measured : Every Sound (strlen none) := (every_bind.mp every).1
    exact measured (.length none) List.mem_cons_self rfl
  | some text =>
    obtain ⟨envsz', first⟩ := check_taken word found here named
      (Bool.eq_false_iff.mpr accepted) (fuel + 1) envc envsz
    rw [first.every]
    intro every
    change Every Sound (luanext t (some key) (some key.converted) >>= _) at every
    have same : some key.converted = some key :=
      (every_bind.mp every).1 (.next (some key) (some key.converted)) List.mem_cons_self
    have converted : key.converted = .string text := by rw [Value.converted, named]; rfl
    exact unnamed ⟨text, (Option.some.inj same).symm.trans converted⟩

theorem write_ends (w : Write) : Ends Sound (write w) (.ok ()) :=
  ends_access (P := Sound) (a := Access.write w) trivial _

theorem store_ends (envv : ℕ) (cs : Bytes) :
    Ends Sound (store envv cs) (.ok (envv + cs.length)) := by
  induction cs generalizing envv with
  | nil => exact ends_pure _ _
  | cons c cs ih =>
    have later := ih (envv + 1)
    rw [Nat.add_assoc, Nat.add_comm 1] at later
    exact (write_ends (.char envv c)).bind later

theorem chars_ends (text : Bytes) : Ends Sound (chars (some text)) (.ok (cstring text)) :=
  ends_access (P := Sound) (a := Access.copy (some text)) nofun _

theorem fill_taken {key : Value} {value : Option Value} {text text' : Bytes}
    (found : next t current = .at key) (here : lookup t key = value)
    (named : key.tostring = some text) (valued : value.bind Value.tostring = some text')
    (fuel i envv : ℕ) :
    ∃ envv', After Sound (fill t (fuel + 1) current current i envv)
      (fill t fuel (some key) (some key.converted) (i + 1) envv') := by
  refine ⟨envv + (cstring text).length + 1 + (cstring text' ++ [0]).length, ?_⟩
  rw [fill_entry found, here, named, valued]
  refine ((next_ends current).after _).trans ?_
  refine ((write_ends _).after _).trans ?_
  refine ((chars_ends text).after _).trans ?_
  refine ((store_ends _ _).after _).trans ?_
  refine ((write_ends _).after _).trans ?_
  refine ((chars_ends text').after _).trans ?_
  exact (store_ends _ _).after _

/-- The second traversal of entries that pass copies strings only. -/
theorem fill_goes (nodup : (keys t).Nodup) (front : ∀ d ∈ before, Passes d)
    (lives : ∀ d ∈ before, d.2.isSome) (upto : Upto t (before ++ rest) current)
    (fuel i envv : ℕ) : ∃ current' i' envv', Upto t rest current' ∧
      After Sound (fill t (before.length + fuel) current current i envv)
        (fill t fuel current' current' i' envv') := by
  induction before generalizing current i envv with
  | nil =>
    rw [List.length_nil, Nat.zero_add]
    exact ⟨current, i, envv, upto, after_refl _ _⟩
  | cons d before ih =>
    obtain ⟨⟨⟨name, named⟩, taken⟩, front'⟩ := List.forall_mem_cons.mp front
    obtain ⟨live, lives'⟩ := List.forall_mem_cons.mp lives
    obtain ⟨key, value⟩ := d
    obtain rfl : key = .string name := named
    obtain ⟨value, rfl⟩ := Option.isSome_iff_exists.mp live
    obtain ⟨found, here, upto⟩ := upto.entry nodup
    have accepted : refused (some name) ((some value).bind Value.tostring) = false :=
      Bool.eq_false_iff.mpr taken
    obtain ⟨text', valued⟩ := text_of_taken rfl accepted
    obtain ⟨envv', first⟩ := fill_taken found here rfl valued (before.length + fuel) i envv
    obtain ⟨current', i', envv'', upto, later⟩ := ih front' lives' upto (i + 1) envv'
    refine ⟨current', i', envv'', upto, ?_⟩
    rw [List.length_cons, Nat.add_right_comm]
    exact first.trans later

theorem luanext_finished (upto : Upto t [] current) :
    Ends Sound (luanext t current current) (.ok none) := by
  have finished : next t current = .finished := upto.goes
  rw [luanext, finished]
  exact ends_access (P := Sound) (a := Access.next current current) rfl _

/-- The call returns if all entries pass. -/
theorem newprocenv_passes (word : ℕ) (wellformed : Wellformed t) (passes : ∀ e ∈ t, Passes e)
    (more : ℕ) : Ends Sound (newprocenv word t (t.length + (more + 1))) (.ok ()) := by
  have upto : Upto t (t ++ []) none := by
    rw [List.append_nil]
    exact upto_start t
  obtain ⟨current, envc, envsz, ended, counted⟩ := check_goes word wellformed.nodup passes
    wellformed.lives upto (more + 1) 0 word
  have last : Ends Sound (check word t (more + 1) current current envc envsz)
      (.ok (envc, envsz)) := (luanext_finished ended).bind (ends_pure _ _)
  obtain ⟨current', i, envv, ended', filled⟩ := fill_goes wellformed.nodup passes
    wellformed.lives upto (more + 1) 0 ((envc + 1) * word)
  have last' : Ends Sound (fill t (more + 1) current' current' i envv) (.ok i) :=
    (luanext_finished ended').bind (ends_pure _ _)
  refine (counted.ends last).bind ?_
  have allocates : Ends Sound (access (.alloc envsz) (.ok ()) : Code Unit) (.ok ()) :=
    ends_access (P := Sound) (a := Access.alloc envsz) trivial _
  refine allocates.bind ?_
  exact (filled.ends last').bind (write_ends _)

/-- All accesses are sound with too little fuel for the entries that pass. -/
theorem newprocenv_running (word : ℕ) (wellformed : Wellformed t) (split : t = before ++ rest)
    (front : ∀ d ∈ before, Passes d) {fuel : ℕ} (few : fuel ≤ before.length) :
    Every Sound (newprocenv word t fuel) := by
  have upto : Upto t (before ++ rest) none := by
    rw [← split]
    exact upto_start t
  have lives : ∀ d ∈ before, d.2.isSome := fun d member =>
    wellformed.lives d (by rw [split]; exact List.mem_append_left rest member)
  exact ((check_running word wellformed.nodup front lives upto few 0 word).stops _).every

theorem upto_entry (wellformed : Wellformed t) {after : Env} (split : t = before ++ e :: after)
    (front : ∀ d ∈ before, Passes d) (word fuel : ℕ) :
    ∃ value current envc envsz, e = (e.1, some value) ∧
      Upto t ((e.1, some value) :: after) current ∧
      After Sound (check word t (before.length + fuel) none none 0 word)
        (check word t fuel current current envc envsz) := by
  obtain ⟨value, lives⟩ := Option.isSome_iff_exists.mp
    (wellformed.lives e (by rw [split]; exact List.mem_append_right before List.mem_cons_self))
  have whole : e = (e.1, some value) := by rw [← lives]
  have upto : Upto t (before ++ (e.1, some value) :: after) none := by
    rw [← whole, ← split]
    exact upto_start t
  obtain ⟨current, envc, envsz, upto, goes⟩ := check_goes word wellformed.nodup front
    (fun d member => wellformed.lives d (by rw [split]; exact List.mem_append_left _ member)) upto
    fuel 0 word
  exact ⟨value, current, envc, envsz, whole, upto, goes⟩

theorem newprocenv_refused (word : ℕ) (wellformed : Wellformed t) {after : Env}
    (split : t = before ++ e :: after) (front : ∀ d ∈ before, Passes d) (refuses : Refused e)
    (more : ℕ) :
    ∃ msg, Ends Sound (newprocenv word t (before.length + (more + 1))) (.error (.raised msg)) := by
  obtain ⟨value, current, envc, envsz, whole, upto, goes⟩ := upto_entry wellformed split front word
    (more + 1)
  rw [whole] at refuses
  have raised := check_refused word wellformed.nodup upto refuses more envc envsz
  exact ⟨_, (goes.ends raised).stops _⟩

theorem newprocenv_unnamed (word : ℕ) (wellformed : Wellformed t) {after : Env}
    (split : t = before ++ e :: after) (front : ∀ d ∈ before, Passes d) (taken : ¬ Refused e)
    (unnamed : ¬ Named e) : ¬ Every Sound (newprocenv word t (before.length + 2)) := by
  obtain ⟨value, current, envc, envsz, whole, upto, goes⟩ := upto_entry wellformed split front word 2
  rw [whole] at taken unnamed
  intro every
  exact check_unnamed word wellformed.nodup upto taken unnamed 0 envc envsz
    (goes.every.mp (every_bind.mp every).1)

end

section
variable {word : ℕ} {t : Env}

theorem meets_of_passes (wellformed : Wellformed t) (passes : ∀ e ∈ t, Passes e) :
    Meets word t ↔ Valid t := by
  constructor
  · rintro ⟨-, fuel, ends⟩
    have enough := newprocenv_passes word wellformed passes fuel
    rw [Nat.add_left_comm] at enough
    rcases ends (t.length + 1) with ⟨msg, raised⟩ | ⟨-, valid⟩
    · cases raised.symm.trans enough.result
    · exact valid
  · intro valid
    refine ⟨fun fuel => ?_, t.length + 1, fun more => Or.inr ⟨?_, valid⟩⟩
    · by_cases few : fuel ≤ t.length
      · exact newprocenv_running word wellformed (List.append_nil t).symm passes few
      · obtain ⟨more, rfl⟩ := Nat.exists_eq_add_of_lt (Nat.lt_of_not_le few)
        exact (newprocenv_passes word wellformed passes more).every
    · rw [Nat.add_assoc, Nat.add_comm 1]
      exact (newprocenv_passes word wellformed passes more).result

theorem meets_of_refused (wellformed : Wellformed t) {before after : Env} {e : Entry}
    (split : t = before ++ e :: after) (front : ∀ d ∈ before, Passes d) (refuses : Refused e) :
    Meets word t := by
  refine ⟨fun fuel => ?_, before.length + 1, fun more => Or.inl ?_⟩
  · by_cases few : fuel ≤ before.length
    · exact newprocenv_running word wellformed split front few
    · obtain ⟨more, rfl⟩ := Nat.exists_eq_add_of_lt (Nat.lt_of_not_le few)
      obtain ⟨msg, raised⟩ := newprocenv_refused word wellformed split front refuses more
      exact raised.every
  · obtain ⟨msg, raised⟩ := newprocenv_refused word wellformed split front refuses more
    rw [Nat.add_assoc, Nat.add_comm 1]
    exact ⟨msg, raised.result⟩

end

/-- A table in which an entry is taken although its key is no string is not as the check
assumes. -/
theorem not_checked {t before after : Env} {e : Entry} (split : t = before ++ e :: after)
    (front : ∀ d ∈ before, Passes d) (taken : ¬ Refused e) (unnamed : ¬ Named e) : ¬ Checked t := by
  rintro (⟨before', e', after', split', front', refuses⟩ | checked)
  · rcases List.append_eq_append_iff.mp (split.symm.trans split') with
      ⟨more, rfl, rest⟩ | ⟨more, rfl, rest⟩
    · cases more with
      | nil => exact taken ((List.cons.inj rest).1 ▸ refuses)
      | cons d more =>
        obtain rfl := (List.cons.inj rest).1
        exact unnamed (front' e (List.mem_append_right before List.mem_cons_self))
    · cases more with
      | nil => exact taken ((List.cons.inj rest).1 ▸ refuses)
      | cons d more =>
        obtain rfl := (List.cons.inj rest).1
        exact (front e' (List.mem_append_right before' List.mem_cons_self)).2 refuses
  · obtain ⟨⟨name, named, -⟩, -⟩ :=
      checked e (by rw [split]; exact List.mem_append_right before List.mem_cons_self)
    exact unnamed ⟨name, named⟩

/-- The accesses are sound and an error is raised or the table is valid, if and only if the table
is as the check assumes. -/
theorem newprocenv_checked (word : ℕ) {t : Env} (wellformed : Wellformed t) :
    Meets word t ↔ Checked t := by
  rcases entries_cases t with passes | ⟨before, e, after, split, front, stops⟩
  · rw [meets_of_passes wellformed passes]
    constructor
    · intro valid
      refine Or.inr fun e member => ?_
      obtain ⟨name, named⟩ := (passes e member).1
      obtain ⟨⟨text, same, equals⟩, value⟩ := valid e member
      rw [named] at same
      exact ⟨⟨name, named, (Option.some.inj same) ▸ equals⟩, value⟩
    · rintro (⟨before, e, after, rfl, -, refuses⟩ | checked)
      · exact absurd refuses (passes e (List.mem_append_right before List.mem_cons_self)).2
      · intro e member
        obtain ⟨⟨name, named, equals⟩, value⟩ := checked e member
        exact ⟨⟨name, by rw [named]; rfl, equals⟩, value⟩
  · by_cases refuses : Refused e
    · exact iff_of_true (meets_of_refused wellformed split front refuses)
        (Or.inl ⟨before, e, after, split, fun d member => (front d member).1, refuses⟩)
    · have unnamed := stops.resolve_left refuses
      refine iff_of_false (fun meets => ?_) (not_checked split front refuses unnamed)
      exact newprocenv_unnamed word wellformed split front refuses unnamed (meets.sound _)

/-- A name with an equals sign is refused after a name that is not, and before a number. -/
def mixed : Env :=
  [(.string (literal "A"), some (.integer 1)), (.string (literal "B="), some (.string (literal "x"))),
    (.integer 5, some (.boolean true))]

theorem newprocenv_checked_mixed : Wellformed mixed ∧ Meets 8 mixed := by
  have wellformed : Wellformed mixed := ⟨by decide, by decide⟩
  refine ⟨wellformed, (newprocenv_checked 8 wellformed).mpr (Or.inl ?_)⟩
  refine ⟨[(.string (literal "A"), some (.integer 1))], _, _, rfl, ?_, rfl⟩
  intro d member
  exact ⟨literal "A", congrArg Prod.fst (List.mem_singleton.mp member)⟩

/-- The length of an absent string is taken for a key that is a boolean. -/
theorem boolean_measured : ¬ ∀ t, Wellformed t → Meets 8 t := by
  intro all
  have meets := all [(.boolean true, some (.string (literal "x")))] ⟨by decide, by decide⟩
  exact meets.sound 1 (.length none) (by decide) rfl

end Coutil.ProcessEnvCheck
