import Mathlib.Data.List.Nodup

set_option autoImplicit false

/-! Traversals of a table by `next`, with assignments in between. A table is the list of its keys
in the order in which they are visited; a value that was set to nil is `none`, and its key keeps
its place. -/
namespace Coutil.TableTraversal

section
variable {K W : Type}

abbrev Table (K W : Type) := List (K × Option W)

def keys (t : Table K W) : List K := t.map Prod.fst

/-- The first key that has a value. -/
def live : Table K W → Option K
  | [] => none
  | (key, value) :: t => if value.isSome then some key else live t

inductive Next (K : Type) where
  | «at» (key : K)
  | finished
  | invalid

def Next.of (key : Option K) : Next K :=
  match key with
  | some key => .at key
  | none => .finished

inductive Outcome (K W : Type) where
  | returned (table : Table K W) (visited : List K)
  | raised
  | running

variable [DecidableEq K]

def lookup : Table K W → K → Option W
  | [], _ => none
  | (k, value) :: t, key => if k = key then value else lookup t key

/-- What follows a key in the table. -/
def after : Table K W → K → Option (Table K W)
  | [], _ => none
  | (k, _) :: t, key => if k = key then some t else after t key

def next (t : Table K W) : Option K → Next K
  | none => .of (live t)
  | some key =>
    match after t key with
    | none => .invalid
    | some rest => .of (live rest)

def update (t : Table K W) (key : K) (f : Option W → Option W) : Table K W :=
  t.map fun e => if e.1 = key then (e.1, f e.2) else e

/-- An assignment. The table has another order once a key is added to it. -/
def assign (rehash : Table K W → Table K W) (t : Table K W) (key : K) (value : Option W) :
    Table K W :=
  if key ∈ keys t then update t key fun _ => value
  else if value.isNone then t
  else rehash (t ++ [(key, value)])

/-- A loop that visits the keys one after the other. A visit raises an error, or changes the
table and leaves the key from which the traversal goes on. -/
def walk (visit : Table K W → K → Option (Table K W × K)) :
    ℕ → Table K W → Option K → List K → Outcome K W
  | 0, _, _, _ => .running
  | fuel + 1, t, current, visited =>
    match next t current with
    | .invalid => .raised
    | .finished => .returned t visited
    | .at key =>
      match visit t key with
      | none => .raised
      | some (t, current) => walk visit fuel t (some current) (visited ++ [key])

theorem keys_update (t : Table K W) (key : K) (f : Option W → Option W) :
    keys (update t key f) = keys t := by
  rw [keys, keys, update, List.map_map]
  apply List.map_congr_left
  intro e _
  by_cases same : e.1 = key
  · simp [same]
  · simp [same]

theorem lookup_absent {t : Table K W} {key : K} (absent : key ∉ keys t) : lookup t key = none := by
  induction t with
  | nil => rfl
  | cons e t ih =>
    obtain ⟨other, absent⟩ := not_or.mp (mt List.mem_cons.mpr absent)
    rw [lookup, if_neg (Ne.symm other)]
    exact ih absent

theorem lookup_update (t : Table K W) (key k : K) (f : Option W → Option W) :
    lookup (update t key f) k = if k = key ∧ key ∈ keys t then f (lookup t k) else lookup t k := by
  induction t with
  | nil => simp [lookup, update, keys]
  | cons e t ih =>
    obtain ⟨d, value⟩ := e
    have tail : update ((d, value) :: t) key f =
        (if d = key then (d, f value) else (d, value)) :: update t key f := rfl
    rw [tail]
    by_cases same : d = key
    · subst d
      by_cases here : key = k
      · subst k
        simp [lookup, keys]
      · have other : k ≠ key := Ne.symm here
        simp only [if_true, lookup, here, if_false, ih, other, false_and]
    · by_cases here : d = k
      · subst k
        simp [lookup, same]
      · have member : key ∈ keys ((d, value) :: t) ↔ key ∈ keys t := by
          simp [keys, Ne.symm same]
        simp only [same, if_false, lookup, here, ih, member]

theorem lookup_append (t : Table K W) (key k : K) (value : Option W) (absent : key ∉ keys t) :
    lookup (t ++ [(key, value)]) k = if k = key then value else lookup t k := by
  induction t with
  | nil =>
    by_cases same : key = k
    · simp [lookup, same]
    · simp [lookup, same, Ne.symm same]
  | cons e t ih =>
    obtain ⟨other, absent⟩ := not_or.mp (mt List.mem_cons.mpr absent)
    rw [List.cons_append, lookup, lookup, ih absent]
    by_cases here : e.1 = k
    · have apart : k ≠ key := fun same => other (here.trans same).symm
      simp [here, apart]
    · simp [here]

/-- The value after an assignment, if the order is all that changes when a key is added. -/
theorem lookup_assign {rehash : Table K W → Table K W}
    (reorders : ∀ t k, lookup (rehash t) k = lookup t k) (t : Table K W) (key k : K)
    (value : Option W) :
    lookup (assign rehash t key value) k = if k = key then value else lookup t k := by
  unfold assign
  by_cases member : key ∈ keys t
  · simp [member, lookup_update]
  · by_cases empty : value.isNone = true
    · rw [if_neg member, if_pos empty]
      by_cases same : k = key
      · subst k
        rw [if_pos rfl, lookup_absent member]
        exact (Option.isNone_iff_eq_none.mp empty).symm
      · rw [if_neg same]
    · rw [if_neg member, if_neg empty, reorders, lookup_append t key k value member]

theorem after_split {before rest : Table K W} {key : K} {value : Option W}
    (absent : key ∉ keys before) : after (before ++ (key, value) :: rest) key = some rest := by
  induction before with
  | nil => simp [after]
  | cons e before ih =>
    obtain ⟨other, absent⟩ := not_or.mp (mt List.mem_cons.mpr absent)
    rw [List.cons_append, after, if_neg (Ne.symm other)]
    exact ih absent

theorem update_absent {t : Table K W} {key : K} (absent : key ∉ keys t)
    (f : Option W → Option W) : update t key f = t := by
  unfold update
  conv_rhs => rw [← List.map_id t]
  apply List.map_congr_left
  intro e member
  have other : e.1 ≠ key := by
    rintro rfl
    exact absent (List.mem_map_of_mem member)
  simp [other]

theorem update_id (t : Table K W) (key : K) : update t key id = t := by
  unfold update
  conv_rhs => rw [← List.map_id t]
  apply List.map_congr_left
  intro e _
  split
  · rfl
  · rfl

theorem update_split {before rest : Table K W} {key : K} {value : Option W}
    (nodup : (keys (before ++ (key, value) :: rest)).Nodup) (f : Option W → Option W) :
    update (before ++ (key, value) :: rest) key f = before ++ (key, f value) :: rest := by
  rw [keys, List.map_append, List.map_cons] at nodup
  obtain ⟨-, tail, apart⟩ := List.nodup_append.mp nodup
  have absent : key ∉ keys before := fun member => apart key member key List.mem_cons_self rfl
  have absent' : key ∉ keys rest := (List.nodup_cons.mp tail).1
  have split : update (before ++ (key, value) :: rest) key f =
      update before key f ++ (key, f value) :: update rest key f := by
    simp [update]
  rw [split, update_absent absent, update_absent absent']

/-- The keys of one part of a table are visited one after the other, if the visits change the
values of these keys only. -/
theorem walk_part {visit : Table K W → K → Option (Table K W × K)}
    (change : K → Option W → Option W) {todo : Table K W}
    (visits : ∀ t, ∀ key ∈ keys todo, key ∈ keys t →
      visit t key = some (update t key (change key), key))
    (lives : ∀ e ∈ todo, e.2.isSome) {before rest : Table K W}
    (nodup : (keys (before ++ (todo ++ rest))).Nodup) {current : Option K}
    (here : next (before ++ (todo ++ rest)) current = .of (live (todo ++ rest))) (fuel : ℕ)
    (visited : List K) :
    ∃ current', next (before ++ (todo.map (fun e => (e.1, change e.1 e.2)) ++ rest)) current' =
        .of (live rest) ∧
      walk visit (todo.length + fuel) (before ++ (todo ++ rest)) current visited =
        walk visit fuel (before ++ (todo.map (fun e => (e.1, change e.1 e.2)) ++ rest))
          current' (visited ++ keys todo) := by
  induction todo generalizing before current visited with
  | nil => exact ⟨current, here, by simp [keys]⟩
  | cons e todo ih =>
    obtain ⟨key, value⟩ := e
    obtain ⟨first, lives⟩ := List.forall_mem_cons.mp lives
    have found : next (before ++ ((key, value) :: todo ++ rest)) current = .at key := by
      rw [here]
      simp [live, first, Next.of]
    have inside : key ∈ keys (before ++ ((key, value) :: todo ++ rest)) := by simp [keys]
    have visit_key := visits _ key (by simp [keys]) inside
    have updated : update (before ++ (key, value) :: (todo ++ rest)) key (change key) =
        before ++ (key, change key value) :: (todo ++ rest) := update_split nodup (change key)
    rw [List.cons_append, updated] at visit_key
    have shape : before ++ (key, change key value) :: (todo ++ rest) =
        (before ++ [(key, change key value)]) ++ (todo ++ rest) := by simp
    have nodup' : (keys ((before ++ [(key, change key value)]) ++ (todo ++ rest))).Nodup := by
      simpa [keys] using nodup
    have absent : key ∉ keys before := by
      rw [keys, List.map_append, List.cons_append, List.map_cons] at nodup
      intro member
      exact (List.nodup_append.mp nodup).2.2 key member key List.mem_cons_self rfl
    have later : next ((before ++ [(key, change key value)]) ++ (todo ++ rest)) (some key) =
        .of (live (todo ++ rest)) := by
      rw [← shape, next, after_split absent]
    obtain ⟨current', goes, same⟩ := ih (fun t k member => visits t k (List.mem_cons_of_mem _ member))
      lives nodup' later (visited ++ [key])
    refine ⟨current', by simpa using goes, ?_⟩
    rw [List.length_cons, Nat.add_right_comm, walk, found]
    rw [List.cons_append]
    simp only [visit_key, shape, same]
    simp [keys]

/-- A traversal of a table that is not changed has come to the entries that are left. -/
structure Upto (t rest : Table K W) (current : Option K) : Prop where
  whole : ∃ before, t = before ++ rest
  goes : next t current = .of (live rest)

theorem upto_start (t : Table K W) : Upto t t none := ⟨⟨[], rfl⟩, rfl⟩

theorem Upto.entry {t rest : Table K W} {current : Option K} {key : K} {value : W}
    (upto : Upto t ((key, some value) :: rest) current) (nodup : (keys t).Nodup) :
    next t current = .at key ∧ lookup t key = some value ∧ Upto t rest (some key) := by
  obtain ⟨⟨before, rfl⟩, goes⟩ := upto
  have absent : key ∉ keys before := by
    rw [keys, List.map_append, List.map_cons] at nodup
    intro member
    exact (List.nodup_append.mp nodup).2.2 key member key List.mem_cons_self rfl
  have found : lookup (before ++ (key, some value) :: rest) key = some value := by
    clear goes nodup
    induction before with
    | nil => exact if_pos rfl
    | cons e before ih =>
      obtain ⟨other, absent⟩ := not_or.mp (mt List.mem_cons.mpr absent)
      rw [List.cons_append, lookup, if_neg (Ne.symm other)]
      exact ih absent
  refine ⟨goes, found, ⟨before ++ [(key, some value)], by simp⟩, ?_⟩
  rw [next, after_split absent]

omit [DecidableEq K] in
theorem live_mem {t : Table K W} {key : K} (first : live t = some key) : key ∈ keys t := by
  induction t with
  | nil => cases first
  | cons e t ih =>
    rw [live] at first
    split at first
    · cases first
      exact List.mem_cons_self
    · exact List.mem_cons_of_mem _ (ih first)

omit [DecidableEq K] in
/-- A key with a value is not passed over. -/
theorem live_stops (before rest : Table K W) (key : K) {value : Option W} (lives : value.isSome) :
    ∃ k, live (before ++ (key, value) :: rest) = some k ∧ (k ∈ keys before ∨ k = key) := by
  induction before with
  | nil => exact ⟨key, by simp [live, lives], Or.inr rfl⟩
  | cons e before ih =>
    obtain ⟨k, first, here⟩ := ih
    rw [List.cons_append, live]
    split
    · exact ⟨e.1, rfl, Or.inl List.mem_cons_self⟩
    · exact ⟨k, first, here.imp_left (List.mem_cons_of_mem _)⟩

/-- What follows a key of the first part ends with the second one. -/
theorem after_left {before : Table K W} (rest : Table K W) {key : K} (member : key ∈ keys before) :
    ∃ between, after (before ++ rest) key = some (between ++ rest) ∧
      keys between ⊆ keys before := by
  induction before with
  | nil => cases member
  | cons e before ih =>
    rw [List.cons_append, after]
    split
    · exact ⟨before, rfl, List.subset_cons_self _ _⟩
    · rename_i other
      obtain ⟨between, found, inside⟩ := ih ((List.mem_cons.mp member).resolve_left (Ne.symm other))
      exact ⟨between, found, List.subset_cons_of_subset _ inside⟩

theorem after_right {before rest : Table K W} {key : K} (absent : key ∉ keys before) :
    after (before ++ rest) key = after rest key := by
  induction before with
  | nil => rfl
  | cons e before ih =>
    obtain ⟨other, absent⟩ := not_or.mp (mt List.mem_cons.mpr absent)
    rw [List.cons_append, after, if_neg (Ne.symm other)]
    exact ih absent

theorem after_tail {t rest : Table K W} {key : K} (found : after t key = some rest) :
    keys rest ⊆ (keys t).tail := by
  induction t with
  | nil => cases found
  | cons e t ih =>
    rw [after] at found
    split at found
    · cases found
      exact List.Subset.refl _
    · exact List.Subset.trans (ih found) (List.tail_sublist _).subset

theorem lookup_map {f : K → Option W → Option W} (t : Table K W) (key : K) :
    lookup (t.map fun e => (e.1, f e.1 e.2)) key =
      if key ∈ keys t then f key (lookup t key) else none := by
  induction t with
  | nil => simp [lookup, keys]
  | cons e t ih =>
    rw [List.map_cons, lookup, lookup, ih]
    by_cases here : e.1 = key
    · simp [here, keys]
    · have member : key ∈ keys (e :: t) ↔ key ∈ keys t := by
        simp [keys, Ne.symm here]
      simp only [here, if_false, member]

theorem lookup_live {t : Table K W} (lives : ∀ e ∈ t, e.2.isSome) {key : K}
    (member : key ∈ keys t) : (lookup t key).isSome := by
  induction t with
  | nil => cases member
  | cons e t ih =>
    obtain ⟨first, lives⟩ := List.forall_mem_cons.mp lives
    rw [lookup]
    split
    · exact first
    · rename_i other
      exact ih lives ((List.mem_cons.mp member).resolve_left (Ne.symm other))

section
variable {visit : Table K W → K → Option (Table K W × K)} {fuel : ℕ} {t t' : Table K W}
variable {current : Option K} {visited visited' : List K}

/-- What a traversal that ends did first. -/
theorem walk_cases (ended : walk visit (fuel + 1) t current visited = .returned t' visited') :
    (next t current = .finished ∧ t' = t ∧ visited' = visited) ∨
      ∃ key u k, next t current = .at key ∧ visit t key = some (u, k) ∧
        walk visit fuel u (some k) (visited ++ [key]) = .returned t' visited' := by
  rw [walk] at ended
  split at ended
  · cases ended
  · rename_i finished
    cases ended
    exact Or.inl ⟨finished, rfl, rfl⟩
  · rename_i key found
    split at ended
    · cases ended
    · rename_i u k visits
      exact Or.inr ⟨key, u, k, found, visits, ended⟩

/-- What every visit keeps holds at the end. -/
theorem walk_invariant (I : Table K W → Prop)
    (keep : ∀ t key u k, I t → visit t key = some (u, k) → I u) (holds : I t)
    (ended : walk visit fuel t current visited = .returned t' visited') : I t' := by
  induction fuel generalizing t current visited with
  | zero => cases ended
  | succ fuel ih =>
    rcases walk_cases ended with ⟨-, rfl, -⟩ | ⟨key, u, k, -, visits, later⟩
    · exact holds
    · exact ih (keep t key u k holds visits) later

/-- No visit of a traversal that ends raised an error. -/
theorem walk_visited
    (ended : walk visit fuel t current visited = .returned t' visited') :
    visited <+: visited' ∧ ∀ key ∈ visited', key ∈ visited ∨ ∃ u, visit u key ≠ none := by
  induction fuel generalizing t current visited with
  | zero => cases ended
  | succ fuel ih =>
    rcases walk_cases ended with ⟨-, -, rfl⟩ | ⟨key, u, k, -, visits, later⟩
    · exact ⟨List.prefix_rfl, fun key member => Or.inl member⟩
    · obtain ⟨extends_, good⟩ := ih later
      refine ⟨(List.prefix_append visited [key]).trans extends_, fun d member => ?_⟩
      rcases good d member with before | visits'
      · rcases List.mem_append.mp before with before | here
        · exact Or.inl before
        · obtain rfl := List.mem_singleton.mp here
          exact Or.inr ⟨t, by simp [visits]⟩
      · exact Or.inr visits'

/-- More fuel does not change what is returned. -/
theorem walk_more (ended : walk visit fuel t current visited = .returned t' visited')
    (more : ℕ) : walk visit (fuel + more) t current visited = .returned t' visited' := by
  induction fuel generalizing t current visited with
  | zero => cases ended
  | succ fuel ih =>
    rw [Nat.add_right_comm, walk]
    rcases walk_cases ended with ⟨finished, rfl, rfl⟩ | ⟨key, u, k, found, visits, later⟩
    · rw [finished]
    · simp only [found, visits]
      exact ih later

end

end
end Coutil.TableTraversal
