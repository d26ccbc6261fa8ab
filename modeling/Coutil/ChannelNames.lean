import Coutil.Exchange
import Coutil.TableTraversal

set_option autoImplicit false

/-! Function `channel_getnames` of `src/lchannem.c` on a given table. The names of the channels are
the C strings that are globals of the state of the map. -/
namespace Coutil.ChannelNames
open Exchange TableTraversal

theorem cstring_cstring (name : String) : cstring (cstring name) = cstring name := by
  simp [cstring, List.takeWhile_takeWhile]

/-- The map of the channels, the keys for which there is no memory, and the order of the table
once a key is added to it. -/
structure Setting where
  exist : String → Bool
  fails : Value → Bool
  rehash : Table Value Value → Table Value Value

/-- Only C strings are names in the map, and keys keep their values when a table is rehashed. -/
structure Setting.Sound (w : Setting) : Prop where
  names : ∀ name, w.exist name = true → cstring name = name
  reorders : ∀ t key, lookup (w.rehash t) key = lookup t key

/-- The body of the loop. `lua_tostring` changes a number that is the key into a string. -/
def visit (w : Setting) (t : Table Value Value) (key : Value) : Option (Table Value Value × Value) :=
  match key.tostring with
  | none => some (t, key)
  | some text =>
    if w.fails key then none
    else
      let value := if w.exist (cstring text) then some (.boolean true) else none
      some (assign w.rehash t (.string (cstring text)) value, .string text)

/-- How the loop ends, and whether the mutex of the map is locked then. -/
def getnames (w : Setting) (fuel : ℕ) (names : Table Value Value) : Outcome Value Value × Bool :=
  match walk (visit w) fuel names none [] with
  | .returned names visited => (.returned names visited, false)
  | outcome => (outcome, true)

/-- A table has each key once, with a value. -/
structure Wellformed (names : Table Value Value) : Prop where
  nodup : (keys names).Nodup
  lives : ∀ e ∈ names, e.2.isSome

/-- Each string key is true if there is a channel of that name and else removed, the other keys
keep their values, and every key was visited once. -/
structure Reports (w : Setting) (names names' : Table Value Value) (visited : List Value) : Prop where
  strings : ∀ name, lookup names' (.string name) =
    if .string name ∈ keys names ∧ w.exist name then some (.boolean true) else none
  others : ∀ key, (∀ name, key ≠ .string name) → lookup names' key = lookup names key
  once : visited.Nodup
  all : ∀ key, key ∈ visited ↔ key ∈ keys names

def Meets (w : Setting) (names : Table Value Value) : Prop :=
  ∃ fuel names' visited,
    (∀ more, getnames w (fuel + more) names = (.returned names' visited, false)) ∧
      Reports w names names' visited

/-- The key is a string without zero bytes, with memory for it, or neither string nor number. -/
def Fine (w : Setting) (key : Value) : Prop :=
  match key with
  | .string name => cstring name = name ∧ w.fails key = false
  | .integer _ | .float _ => False
  | _ => True

instance (w : Setting) (key : Value) : Decidable (Fine w key) := by
  cases key <;> unfold Fine <;> infer_instance

section
variable {w : Setting} {names : Table Value Value}

def change (w : Setting) (key : Value) (value : Option Value) : Option Value :=
  match key with
  | .string name => if w.exist name then some (.boolean true) else none
  | _ => value

theorem visit_fine {t : Table Value Value} {key : Value} (fine : Fine w key)
    (member : key ∈ keys t) : visit w t key = some (update t key (change w key), key) := by
  have other (text : key.tostring = none) (f : change w key = id) :
      visit w t key = some (update t key (change w key), key) := by
    rw [f, update_id, visit, text]
  cases key with
  | string name =>
    obtain ⟨whole, room⟩ := fine
    have text : Value.tostring (.string name) = some name := rfl
    simp only [visit, text, room, Bool.false_eq_true, if_false, whole, assign, member, if_true]
    rfl
  | integer n => exact absurd fine not_false
  | float text => exact absurd fine not_false
  | nil => exact other rfl rfl
  | boolean b => exact other rfl rfl
  | pointer a => exact other rfl rfl
  | channeltask => exact other rfl rfl
  | object type id => exact other rfl rfl

theorem getnames_reports (wellformed : Wellformed names)
    (fine : ∀ key ∈ keys names, Fine w key) : Meets w names := by
  have nodup : (keys ([] ++ (names ++ []))).Nodup := by simpa using wellformed.nodup
  have start : next ([] ++ (names ++ [])) none = .of (live (names ++ [])) := rfl
  obtain ⟨current, finished, same⟩ := walk_part (change w)
    (fun t key member inside => visit_fine (fine key member) inside) wellformed.lives nodup start 1 []
  simp only [List.nil_append, List.append_nil] at finished same
  have ended : walk (visit w) (names.length + 1) names none [] =
      .returned (names.map fun e => (e.1, change w e.1 e.2)) (keys names) := by
    rw [same, walk, finished]
    rfl
  refine ⟨names.length + 1, names.map fun e => (e.1, change w e.1 e.2), keys names,
    fun more => ?_, ?_, ?_, wellformed.nodup, fun key => Iff.rfl⟩
  · rw [getnames, walk_more ended more]
  · intro name
    rw [lookup_map]
    by_cases member : .string name ∈ keys names
    · simp [member, change]
    · simp [member]
  · intro key other
    rw [lookup_map]
    by_cases member : key ∈ keys names
    · rw [if_pos member]
      cases key with
      | string name => exact absurd rfl (other name)
      | _ => rfl
    · rw [if_neg member, lookup_absent member]

section
variable {t u : Table Value Value} {key k : Value}

theorem visit_cases (visits : visit w t key = some (u, k)) :
    (key.tostring = none ∧ u = t ∧ k = key) ∨
      ∃ text, key.tostring = some text ∧ w.fails key = false ∧ k = .string text ∧
        u = assign w.rehash t (.string (cstring text))
          (if w.exist (cstring text) then some (.boolean true) else none) := by
  unfold visit at visits
  split at visits
  · rename_i other
    cases visits
    exact Or.inl ⟨other, rfl, rfl⟩
  · rename_i text named
    split at visits
    · cases visits
    · rename_i room
      cases visits
      exact Or.inr ⟨text, named, by simpa using room, rfl, rfl⟩

theorem visit_keeps (sound : w.Sound) {name : String} (zero : cstring name ≠ name)
    (visits : visit w t key = some (u, k)) : lookup u (.string name) = lookup t (.string name) := by
  rcases visit_cases visits with ⟨-, rfl, -⟩ | ⟨text, -, -, -, rfl⟩
  · rfl
  · rw [lookup_assign sound.reorders, if_neg]
    intro same
    injection same with same
    exact zero (same ▸ cstring_cstring text)

theorem visit_added (sound : w.Sound) {name : String} (exists_ : w.exist name = true)
    (added : lookup t (.string name) ≠ none) (visits : visit w t key = some (u, k)) :
    lookup u (.string name) ≠ none := by
  rcases visit_cases visits with ⟨-, rfl, -⟩ | ⟨text, -, -, -, rfl⟩
  · exact added
  · rw [lookup_assign sound.reorders]
    split
    · rename_i same
      injection same with same
      rw [← same, exists_]
      simp
    · exact added

end

structure Around (t : Table Value Value) (before : List Value) (number : Value)
    (rest : List Value) : Prop where
  parts : ∃ P v Q, t = P ++ (number, v) :: Q ∧ keys P = before ∧ keys Q = rest ∧ v.isSome

/-- Why a traversal that went through a number does not visit every key once: a key was added,
a key was visited twice, or the key that follows the number is passed over. -/
inductive Spoiled (w : Setting) (before : List Value) (number : Value) (rest : List Value) :
    Table Value Value → Value → List Value → Prop
  | added {t : Table Value Value} {current : Value} {visited : List Value} {name : String}
      (new : .string name ∉ before ++ number :: rest) (exists_ : w.exist name = true)
      (there : lookup t (.string name) ≠ none) : Spoiled w before number rest t current visited
  | twice {t : Table Value Value} {current : Value} {visited : List Value}
      (again : ¬ visited.Nodup) : Spoiled w before number rest t current visited
  | passed {t : Table Value Value} {current : Value} {visited : List Value}
      (around : Around t before number rest) (other : current ≠ number)
      (past : ∀ k ∈ before ++ [number], k ∈ visited)
      (never : ∀ k ∈ rest.head?, k ∉ visited) : Spoiled w before number rest t current visited

def isnumber : Value → Bool
  | .integer _ | .float _ => true
  | _ => false

section
variable {before rest : List Value} {number : Value} {t u : Table Value Value} {key k : Value}
variable {visited : List Value}

theorem Around.keys_eq (around : Around t before number rest) :
    keys t = before ++ number :: rest := by
  obtain ⟨P, v, Q, rfl, rfl, rfl, -⟩ := around.parts
  simp [keys]

theorem Around.update (around : Around t before number rest) {d : Value} (other : d ≠ number)
    (f : Option Value → Option Value) : Around (TableTraversal.update t d f) before number rest := by
  obtain ⟨P, v, Q, rfl, rfl, rfl, some⟩ := around.parts
  refine ⟨TableTraversal.update P d f, v, TableTraversal.update Q d f, ?_, keys_update P d f,
    keys_update Q d f, some⟩
  simp [TableTraversal.update, Ne.symm other]

theorem spoiled_visit (sound : w.Sound) (isnum : isnumber number = true)
    (around : Around t before number rest) (past : ∀ d ∈ before ++ [number], d ∈ visited)
    (never : ∀ d ∈ rest.head?, d ∉ visited) (visits : visit w t key = some (u, k)) :
    Spoiled w before number rest u k visited := by
  rcases visit_cases visits with ⟨other, rfl, rfl⟩ | ⟨text, -, -, rfl, rfl⟩
  · refine .passed around ?_ past never
    rintro rfl
    cases k with
    | integer n => cases other
    | float x => cases other
    | _ => cases isnum
  · have apart : ∀ name, Value.string name ≠ number := by
      rintro name rfl
      cases isnum
    by_cases member : Value.string (cstring text) ∈ keys t
    · rw [assign, if_pos member]
      exact .passed (around.update (apart _) _) (apart text) past never
    · by_cases exists_ : w.exist (cstring text) = true
      · refine .added (around.keys_eq ▸ member) exists_ ?_
        rw [lookup_assign sound.reorders, if_pos rfl, if_pos exists_]
        simp
      · rw [if_neg exists_, assign, if_neg member, Option.isNone_none, if_pos rfl]
        exact .passed around (apart text) past never

/-- The next key was visited before, or comes later than the one after the number. -/
theorem spoiled_next (around : Around t before number rest)
    {current : Value} (other : current ≠ number)
    (found : next t (some current) = .at key) : key ∈ before ++ [number] ∨ key ∈ rest.tail := by
  obtain ⟨P, v, Q, rfl, rfl, rfl, lives⟩ := around.parts
  by_cases inside : current ∈ keys P
  · left
    obtain ⟨between, follows, sub⟩ := after_left ((number, v) :: Q) inside
    obtain ⟨d, first, here⟩ := live_stops between Q number lives
    simp only [next, follows, first, Next.of] at found
    cases found
    rcases here with member | rfl
    · exact List.mem_append_left _ (sub member)
    · exact List.mem_append_right _ List.mem_cons_self
  · right
    rw [next, after_right inside, after, if_neg (Ne.symm other)] at found
    cases follows : after Q current with
    | none => simp [follows] at found
    | some r =>
      cases first : live r with
      | none => simp [follows, first, Next.of] at found
      | some d =>
        simp only [follows, first, Next.of] at found
        cases found
        have member : key ∈ (keys Q).tail := after_tail follows (live_mem first)
        exact member

theorem spoiled_step (sound : w.Sound) (isnum : isnumber number = true)
    (nodup : (before ++ number :: rest).Nodup) {current : Value}
    (spoiled : Spoiled w before number rest t current visited)
    (found : next t (some current) = .at key) (visits : visit w t key = some (u, k)) :
    Spoiled w before number rest u k (visited ++ [key]) := by
  cases spoiled with
  | added new exists_ there => exact .added new exists_ (visit_added sound exists_ there visits)
  | twice again => exact .twice fun once => again (List.nodup_append.mp once).1
  | passed around other past never =>
    rcases spoiled_next around other found with member | later
    · refine .twice fun once => ?_
      exact (List.nodup_append.mp once).2.2 key (past key member) key List.mem_cons_self rfl
    · refine spoiled_visit sound isnum around (fun d member => List.mem_append_left _ (past d member))
        (fun d head member => ?_) visits
      rcases List.mem_append.mp member with member | same
      · exact never d head member
      · have tail : (number :: rest).Nodup := (List.nodup_append.mp nodup).2.1
        cases rest with
        | nil => cases head
        | cons d' rest =>
          have same : d = key := List.mem_singleton.mp same
          have head : d' = d := Option.some.inj head
          rw [head, same] at tail
          exact (List.nodup_cons.mp (List.nodup_cons.mp tail).2).1 later

theorem spoiled_walk (sound : w.Sound) (isnum : isnumber number = true)
    (nodup : (before ++ number :: rest).Nodup) {fuel : ℕ} {current : Value}
    {t' : Table Value Value} {visited' : List Value}
    (spoiled : Spoiled w before number rest t current visited)
    (ended : walk (visit w) fuel t (some current) visited = .returned t' visited') :
    ∃ current', Spoiled w before number rest t' current' visited' ∧
      next t' (some current') = .finished := by
  induction fuel generalizing t current visited with
  | zero => cases ended
  | succ fuel ih =>
    rcases walk_cases ended with ⟨finished, rfl, rfl⟩ | ⟨key, u, k, found, visits, later⟩
    · exact ⟨current, spoiled, finished⟩
    · exact ih (spoiled_step sound isnum nodup spoiled found visits) later

theorem spoiled_reports (numbered : keys names = before ++ number :: rest) {current : Value}
    (spoiled : Spoiled w before number rest t current visited)
    (finished : next t (some current) = .finished) : ¬ Reports w names t visited := by
  intro reports
  cases spoiled with
  | @added name new exists_ there =>
    rw [← numbered] at new
    have gone := reports.strings name
    rw [if_neg fun both => new both.1] at gone
    exact there gone
  | twice again => exact again reports.once
  | passed around other past never =>
    obtain ⟨P, v, Q, rfl, rfl, rfl, lives⟩ := around.parts
    by_cases inside : current ∈ keys P
    · obtain ⟨between, follows, -⟩ := after_left ((number, v) :: Q) inside
      obtain ⟨d, first, -⟩ := live_stops between Q number lives
      simp [next, follows, first, Next.of] at finished
    · rw [next, after_right inside, after, if_neg (Ne.symm other)] at finished
      cases Q with
      | nil => simp [after] at finished
      | cons e Q =>
        have member : e.1 ∈ keys names := by
          rw [numbered]
          exact List.mem_append_right _ (List.mem_cons_of_mem _ List.mem_cons_self)
        exact never e.1 rfl ((reports.all e.1).mpr member)

end

theorem first_number (some : ∃ key ∈ keys names, isnumber key = true) :
    ∃ P number v Q, names = P ++ (number, v) :: Q ∧ isnumber number = true ∧
      ∀ key ∈ keys P, isnumber key = false := by
  induction names with
  | nil =>
    obtain ⟨key, member, -⟩ := some
    cases member
  | cons e names ih =>
    by_cases here : isnumber e.1 = true
    · exact ⟨[], e.1, e.2, names, rfl, here, fun key member => by cases member⟩
    · have later : ∃ key ∈ keys names, isnumber key = true := by
        obtain ⟨key, member, isnum⟩ := some
        rcases List.mem_cons.mp member with rfl | member
        · exact absurd isnum here
        · exact ⟨key, member, isnum⟩
      obtain ⟨P, number, v, Q, rfl, isnum, clean⟩ := ih later
      refine ⟨e :: P, number, v, Q, rfl, isnum, fun key member => ?_⟩
      rcases List.mem_cons.mp member with rfl | member
      · exact Bool.eq_false_iff.mpr here
      · exact clean key member

theorem number_spoils (sound : w.Sound) {P Q : Table Value Value} {number : Value}
    {v : Option Value} (wellformed : Wellformed (P ++ (number, v) :: Q))
    (isnum : isnumber number = true) (fine : ∀ key ∈ keys P, Fine w key) {fuel : ℕ}
    {t' : Table Value Value} {visited' : List Value}
    (ended : walk (visit w) (P.length + (fuel + 1)) (P ++ (number, v) :: Q) none [] =
      .returned t' visited') : ¬ Reports w (P ++ (number, v) :: Q) t' visited' := by
  have lives : v.isSome := wellformed.lives (number, v) (by simp)
  have split : keys (P ++ (number, v) :: Q) = keys P ++ number :: keys Q := by simp [keys]
  have nodup : (keys P ++ number :: keys Q).Nodup := split ▸ wellformed.nodup
  obtain ⟨current, reached, same⟩ := walk_part (change w)
    (fun t key member inside => visit_fine (fine key member) inside)
    (fun e member => wellformed.lives e (List.mem_append_left _ member))
    (show (keys ([] ++ (P ++ (number, v) :: Q))).Nodup from wellformed.nodup)
    (show next ([] ++ (P ++ (number, v) :: Q)) none = .of (live (P ++ (number, v) :: Q)) from rfl)
    (fuel + 1) []
  simp only [List.nil_append] at reached same
  rw [same] at ended
  have found : live ((number, v) :: Q) = some number := by rw [live, if_pos lives]
  rw [found] at reached
  have around : Around (P.map (fun e => (e.1, change w e.1 e.2)) ++ (number, v) :: Q) (keys P)
      number (keys Q) :=
    ⟨_, v, Q, rfl, by simp [keys], rfl, lives⟩
  rcases walk_cases ended with ⟨finished, -, -⟩ | ⟨key, u, k, here, visits, later⟩
  · rw [reached] at finished
    cases finished
  · rw [reached] at here
    cases here
    have never : ∀ d ∈ (keys Q).head?, d ∉ keys P ++ [number] := by
      intro d head member
      have inside : d ∈ keys Q := List.mem_of_mem_head? head
      obtain ⟨-, tail, apart⟩ := List.nodup_append.mp nodup
      rcases List.mem_append.mp member with member | member
      · exact apart d member d (List.mem_cons_of_mem _ inside) rfl
      · obtain rfl := List.mem_singleton.mp member
        exact (List.nodup_cons.mp tail).1 inside
    have spoiled := spoiled_visit sound isnum around (fun d member => member) never visits
    obtain ⟨last, spoiled, finished⟩ := spoiled_walk sound isnum nodup spoiled later
    exact spoiled_reports split spoiled finished

/-- The function does what it is for exactly on the tables whose keys are no numbers and whose
strings have no zero bytes and have memory. -/
theorem names_reported (sound : w.Sound) (wellformed : Wellformed names) :
    Meets w names ↔ ∀ key ∈ keys names, Fine w key := by
  refine ⟨fun meets => ?_, getnames_reports wellformed⟩
  obtain ⟨fuel, names', visited, ended, reports⟩ := meets
  have walked : ∀ more, walk (visit w) (fuel + more) names none [] = .returned names' visited := by
    intro more
    have ended := ended more
    unfold getnames at ended
    cases result : walk (visit w) (fuel + more) names none [] with
    | returned t d =>
      rw [result] at ended
      cases ended
      rfl
    | raised =>
      rw [result] at ended
      cases ended
    | running =>
      rw [result] at ended
      cases ended
  have room : ∀ key ∈ keys names, ∃ u, visit w u key ≠ none := by
    intro key member
    rcases (walk_visited (walked 0)).2 key ((reports.all key).mpr member) with early | visits
    · cases early
    · exact visits
  have whole : ∀ name, .string name ∈ keys names → cstring name = name := by
    intro name member
    by_contra zero
    have stays : lookup names' (.string name) = lookup names (.string name) :=
      walk_invariant (fun t => lookup t (.string name) = lookup names (.string name))
        (fun t key u k holds visits => (visit_keeps sound zero visits).trans holds) rfl (walked 0)
    have gone := reports.strings name
    rw [if_neg fun both => zero (sound.names name both.2)] at gone
    have there := lookup_live wellformed.lives member
    rw [← stays, gone] at there
    cases there
  have clean : ∀ key ∈ keys names, isnumber key = false → Fine w key := by
    intro key member isnum
    cases key with
    | string name =>
      refine ⟨whole name member, ?_⟩
      obtain ⟨u, visits⟩ := room (.string name) member
      by_contra fails
      simp [visit, Value.tostring, fails] at visits
    | integer n => cases isnum
    | float text => cases isnum
    | _ => trivial
  by_contra bad
  obtain ⟨key, bad⟩ := not_forall.mp bad
  obtain ⟨member, bad⟩ := Classical.not_imp.mp bad
  have isnum : ∃ key ∈ keys names, isnumber key = true := by
    refine ⟨key, member, ?_⟩
    by_contra other
    exact bad (clean key member (Bool.eq_false_iff.mpr other))
  obtain ⟨P, number, v, Q, rfl, isnum, first⟩ := first_number isnum
  have fine : ∀ key ∈ keys P, Fine w key := by
    intro key member
    refine clean key ?_ (first key member)
    rw [keys, List.map_append]
    exact List.mem_append_left _ member
  have ended := walked (P.length + 1)
  rw [Nat.add_left_comm] at ended
  exact number_spoils sound wellformed isnum fine ended reports

end

def unnamed : Setting where
  exist := fun _ => false
  fails := fun _ => false
  rehash := id

theorem unnamed_sound : unnamed.Sound := by
  refine ⟨fun name exists_ => ?_, fun t key => rfl⟩
  cases exists_

def served : Setting where
  exist := fun name => decide (name = "jobs")
  fails := fun _ => false
  rehash := id

theorem served_sound : served.Sound := by
  refine ⟨fun name exists_ => ?_, fun t key => rfl⟩
  obtain rfl : name = "jobs" := of_decide_eq_true exists_
  rfl

def asked : Table Value Value :=
  [(.string "jobs", some (.integer 3)), (.string "gone", some (.boolean true)),
    (.boolean true, some (.string "kept"))]

theorem asked_wellformed : Wellformed asked := ⟨by decide, by decide⟩

/-- Of two names one is that of a channel, and the third key is no name. -/
theorem names_reported_asked :
    ∃ fuel names' visited, getnames served fuel asked = (.returned names' visited, false) ∧
      lookup names' (.string "jobs") = some (.boolean true) ∧
      lookup names' (.string "gone") = none ∧
      lookup names' (.boolean true) = some (.string "kept") ∧ visited.length = 3 := by
  have fine : ∀ key ∈ keys asked, Fine served key := by decide
  obtain ⟨fuel, names', visited, ended, reports⟩ :=
    (names_reported served_sound asked_wellformed).mpr fine
  refine ⟨fuel, names', visited, ended 0, reports.strings "jobs", reports.strings "gone",
    reports.others (.boolean true) (fun name same => by cases same), ?_⟩
  have same : visited.Perm (keys asked) :=
    (List.perm_ext_iff_of_nodup reports.once asked_wellformed.nodup).mpr reports.all
  exact same.length_eq

theorem number_key_raises :
    unnamed.Sound ∧ Wellformed [(.integer 1, some (.boolean true))] ∧
      (∀ fuel, getnames unnamed (fuel + 2) [(.integer 1, some (.boolean true))] =
        (.raised, true)) ∧
      ¬ Meets unnamed [(.integer 1, some (.boolean true))] := by
  have wellformed : Wellformed [(.integer 1, some (.boolean true))] :=
    ⟨List.nodup_singleton _, fun e member => by rw [List.mem_singleton.mp member]; rfl⟩
  have raised : ∀ fuel, getnames unnamed (fuel + 2) [(.integer 1, some (.boolean true))] =
      (.raised, true) := fun fuel => rfl
  refine ⟨unnamed_sound, wellformed, raised, ?_⟩
  rintro ⟨fuel, names', visited, ended, -⟩
  have ended := ended 2
  rw [raised] at ended
  cases ended

end Coutil.ChannelNames
