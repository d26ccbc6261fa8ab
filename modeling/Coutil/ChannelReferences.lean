import Coutil.ChannelMap
import Coutil.RefTable

set_option autoImplicit false

/-! The references to the sync records: along a run each record is in the map as long as it is
used or waited in, provided that no worker gives back a name that was collected. -/
namespace Coutil.ChannelReferences
open Runs Census ChannelSync ChannelMap

variable {A T C : Type}

/-- The open channels of the name and the yields on it that are in progress. -/
def users (s : State A T C) (name : String) : ℕ :=
  census Channel.name s.channels name + census Yield.name s.yields name

/-- A channel or a yield has got the record at the address for the name. -/
def Held (s : State A T C) (name : String) (a : A) : Prop :=
  (∃ channel ∈ s.channels, channel.name = name ∧ channel.sync = a) ∨
    ∃ y ∈ s.yields, y.name = name ∧ y.sync = a

structure Referenced (s : State A T C) : Prop where
  table : RefTable.Sound Record.refcount (fun r => r.sync.queue ≠ []) s.map s.heap (users s)
  held : ∀ name a, Held s name a → s.map name = some a

/-- The name that a worker gives back is still there. -/
def Alive (s : State A T C) : Act A T C → Prop
  | .free i _ => ∀ y ∈ s.yields[i]?, y.collected = false
  | _ => True

instance (s : State A T C) (a : Act A T C) : Decidable (Alive s a) :=
  match a with
  | .free i _ => inferInstanceAs (Decidable (∀ y ∈ s.yields[i]?, y.collected = false))
  | .create _ _ _ => isTrue trivial
  | .sync _ _ _ => isTrue trivial
  | .cancel _ => isTrue trivial
  | .close _ => isTrue trivial
  | .yield _ _ _ => isTrue trivial
  | .match _ _ => isTrue trivial
  | .collect _ => isTrue trivial

theorem referenced_initial : Referenced (initial : State A T C) where
  table := RefTable.sound_empty
  held := by simp [Held, initial]

theorem Held.used {s : State A T C} {name : String} {a : A} (held : Held s name a) :
    0 < users s name := by
  obtain ⟨channel, member, rfl, -⟩ | ⟨y, member, rfl, -⟩ := held
  · obtain ⟨i, at_i⟩ := List.mem_iff_getElem?.mp member
    have positive := (census_pos Channel.name).mpr ⟨i, channel, at_i, rfl⟩
    exact Nat.add_pos_left positive _
  · obtain ⟨i, at_i⟩ := List.mem_iff_getElem?.mp member
    have positive := (census_pos Yield.name).mpr ⟨i, y, at_i, rfl⟩
    exact Nat.add_pos_right _ positive

section
variable [DecidableEq A] {s u s' : State A T C} {name : String} {a : A}

/-- A user more, by `lcuCS_getchsync`. -/
theorem Referenced.get {alloc : A} (referenced : Referenced s)
    (got : s.lcuCS_getchsync name alloc = some (a, u)) (map : s'.map = u.map)
    (heap : s'.heap = u.heap)
    (count : ∀ n, users s' n = users s n + if name = n then 1 else 0)
    (more : ∀ n b, Held s' n b → Held s n b ∨ (n = name ∧ b = a)) : Referenced s' := by
  have others (n : String) (other : n ≠ name) : users s' n = users s n := by
    rw [count, if_neg (Ne.symm other), Nat.add_zero]
  have mine : users s' name = users s name + 1 := by rw [count, if_pos rfl]
  have table := referenced.table
  unfold State.lcuCS_getchsync at got
  split at got
  · rename_i b mapped
    obtain ⟨r, at_b, same⟩ := Option.map_eq_some_iff.mp got
    cases same
    obtain ⟨refcount, -⟩ := table.count_eq mapped at_b
    refine ⟨?_, fun n b held => ?_⟩
    · rw [map, heap]
      refine table.replace mapped ?_ (Or.inl ?_) others
      · rw [mine, Nat.cast_add, Nat.cast_one, refcount]
      · simp only [refcount]
        omega
    · rw [map]
      obtain held | ⟨rfl, rfl⟩ := more n b held
      · exact referenced.held n b held
      · exact mapped
  · rename_i unmapped
    split_ifs at got with free
    cases got
    refine ⟨?_, fun n b held => ?_⟩
    · rw [map, heap]
      refine table.insert unmapped (Option.isNone_iff_eq_none.mp free) ?_ (Or.inl Int.one_pos) others
      rw [mine, table.unused name unmapped]
      rfl
    · rw [map]
      obtain held | ⟨rfl, rfl⟩ := more n b held
      · have mapped := referenced.held n b held
        have other : n ≠ name := by
          rintro rfl
          cases unmapped.symm.trans mapped
        exact (Function.update_of_ne other ..).trans mapped
      · exact Function.update_self ..

/-- A user less, by `lcuCS_freechsync` of the name it got the record for. -/
theorem Referenced.free (referenced : Referenced s) (held : Held s name a)
    (freed : s.lcuCS_freechsync name = some u) (map : s'.map = u.map) (heap : s'.heap = u.heap)
    (count : ∀ n, users s n = users s' n + if name = n then 1 else 0)
    (fewer : ∀ n b, Held s' n b → Held s n b) : Referenced s' := by
  have others (n : String) (other : n ≠ name) : users s' n = users s n := by
    rw [count, if_neg (Ne.symm other), Nat.add_zero]
  have mine : users s name = users s' name + 1 := by rw [count, if_pos rfl]
  have table := referenced.table
  have mapped := referenced.held name a held
  simp only [State.lcuCS_freechsync, mapped] at freed
  obtain ⟨r, at_a, rfl⟩ := Option.map_eq_some_iff.mp freed
  obtain ⟨refcount, -⟩ := table.count_eq mapped at_a
  split_ifs at map heap with last
  · have unused : users s' name = 0 := by omega
    refine ⟨?_, fun n b using_ => ?_⟩
    · rw [map, heap]
      exact table.remove mapped unused others
    · have other : n ≠ name := by
        rintro rfl
        exact absurd unused (ne_of_gt using_.used)
      rw [map]
      exact (Function.update_of_ne other ..).trans (referenced.held n b (fewer n b using_))
  · refine ⟨?_, fun n b held => ?_⟩
    · rw [map, heap]
      refine table.replace mapped ?_ ?_ others
      · simp only [refcount, mine]
        omega
      · simp only [refcount, mine] at last ⊢
        by_cases waited : r.sync.queue = []
        · left
          have some_left : users s' name ≠ 0 := fun none => last ⟨by omega, waited⟩
          omega
        · exact Or.inr waited
    · rw [map]
      exact referenced.held n b (fewer n b held)

/-- A user changes the queue of its record. -/
theorem Referenced.requeue {r : Record (Waiter T C)} {sync : Sync (Waiter T C)}
    (referenced : Referenced s) (held : Held s name a) (at_a : s.heap a = some r)
    (map : s'.map = s.map)
    (heap : s'.heap = Function.update s.heap a (some { r with sync := sync }))
    (count : ∀ n, users s' n = users s n) (same : ∀ n b, Held s' n b → Held s n b) :
    Referenced s' := by
  have mapped := referenced.held name a held
  obtain ⟨refcount, -⟩ := referenced.table.count_eq mapped at_a
  have used := held.used
  refine ⟨?_, fun n b held => ?_⟩
  · rw [map, heap]
    refine referenced.table.replace mapped ?_ (Or.inl ?_) fun n _ => count n
    · rw [count, ← refcount]
    · simp only [refcount]
      omega
  · rw [map]
    exact referenced.held n b (same n b held)

theorem getchsync_frame {alloc : A} (got : s.lcuCS_getchsync name alloc = some (a, u)) :
    u.channels = s.channels ∧ u.yields = s.yields := by
  unfold State.lcuCS_getchsync at got
  split at got
  · obtain ⟨r, -, same⟩ := Option.map_eq_some_iff.mp got
    cases same
    exact ⟨rfl, rfl⟩
  · split_ifs at got
    cases got
    exact ⟨rfl, rfl⟩

theorem freechsync_frame (freed : s.lcuCS_freechsync name = some u) :
    u.channels = s.channels ∧ u.yields = s.yields := by
  unfold State.lcuCS_freechsync at freed
  split at freed
  · cases freed
    exact ⟨rfl, rfl⟩
  · obtain ⟨r, -, rfl⟩ := Option.map_eq_some_iff.mp freed
    split_ifs <;> exact ⟨rfl, rfl⟩

theorem matchchsync_frame [DecidableEq T] {endpoint : Endpoint} {getstate : Option (Waiter T C)}
    {answer : Answer (Waiter T C)}
    (matched : s.lcuCS_matchchsync a endpoint getstate = some (u, answer)) :
    u.channels = s.channels ∧ u.yields = s.yields ∧ u.map = s.map ∧
      ∃ r sync, s.heap a = some r ∧
        u.heap = Function.update s.heap a (some { r with sync := sync }) := by
  obtain ⟨r, at_a, result⟩ := Option.map_eq_some_iff.mp matched
  split at result
  · rename_i sync found answered
    cases result
    cases found with
    | task t => exact ⟨rfl, rfl, rfl, r, sync, at_a, rfl⟩
    | channel c => exact ⟨rfl, rfl, rfl, r, sync, at_a, rfl⟩
  · rename_i sync answer answered
    cases result
    exact ⟨rfl, rfl, rfl, r, _, at_a, rfl⟩

end

section
variable {s u : State A T C} {i : ℕ} {y y' : Yield A T}

/-- A yield in progress that goes on holds what it held. -/
theorem users_set (channels : u.channels = s.channels) (yields : u.yields = s.yields.set i y')
    (at_i : s.yields[i]? = some y) (name : y'.name = y.name) (n : String) :
    users u n = users s n := by
  have changed := census_set Yield.name at_i y' n
  rw [name] at changed
  simp only [users, channels, yields]
  omega

theorem held_set (channels : u.channels = s.channels) (yields : u.yields = s.yields.set i y')
    (at_i : s.yields[i]? = some y) (name : y'.name = y.name) (sync : y'.sync = y.sync)
    (n : String) (a : A) (held : Held u n a) : Held s n a := by
  unfold Held at held
  rw [channels, yields] at held
  obtain held | ⟨z, member, named, at_a⟩ := held
  · exact Or.inl held
  · obtain old | rfl := List.mem_or_eq_of_mem_set member
    · exact Or.inr ⟨z, old, named, at_a⟩
    · exact Or.inr ⟨y, List.mem_of_getElem? at_i, name ▸ named, sync ▸ at_a⟩

theorem Referenced.set (referenced : Referenced s) (at_i : s.yields[i]? = some y)
    (name : y'.name = y.name) (sync : y'.sync = y.sync) :
    Referenced { s with yields := s.yields.set i y' } := by
  have same : users { s with yields := s.yields.set i y' } = users s :=
    funext (users_set rfl rfl at_i name)
  refine ⟨?_, fun n a held => ?_⟩
  · rw [same]
    exact referenced.table
  · exact referenced.held n a
      (held_set (s := s) (u := { s with yields := s.yields.set i y' }) rfl rfl at_i name sync n a held)

end

variable [DecidableEq A] [DecidableEq T] [DecidableEq C] {s s' : State A T C}

omit [DecidableEq A] [DecidableEq C] in
theorem matched_frame (s : State A T C) (i : ℕ) (y : Yield A T) (answer : Answer (Waiter T C)) :
    ∃ y' : Yield A T, y'.name = y.name ∧ y'.sync = y.sync ∧ y'.task = y.task ∧
      (matched s i y answer).channels = s.channels ∧
      (matched s i y answer).yields = s.yields.set i y' ∧
      (matched s i y answer).map = s.map ∧ (matched s i y answer).heap = s.heap := by
  cases answer with
  | matched found => exact ⟨{ y with stage := .done }, rfl, rfl, rfl, rfl, rfl, rfl, rfl⟩
  | waits => exact ⟨{ y with stage := .queued }, rfl, rfl, rfl, rfl, rfl, rfl, rfl⟩
  | refused => exact ⟨{ y with stage := .done }, rfl, rfl, rfl, rfl, rfl, rfl, rfl⟩

omit [DecidableEq A] [DecidableEq T] in
theorem channel_held {c : C} {channel : Channel A C} (found : s.channel? c = some channel) :
    Held s channel.name channel.sync :=
  Or.inl ⟨channel, List.mem_of_find?_eq_some found, rfl, rfl⟩

theorem Referenced.create {c : C} {name : String} {alloc : A} (referenced : Referenced s)
    (stepped : ChannelMap.step s (.create c name alloc) = some s') : Referenced s' := by
  simp only [ChannelMap.step] at stepped
  split_ifs at stepped
  obtain ⟨⟨a, u⟩, got, rfl⟩ := Option.map_eq_some_iff.mp stepped
  obtain ⟨channels, yields⟩ := getchsync_frame got
  refine referenced.get got rfl rfl (fun n => ?_) fun n b held => ?_
  · simp only [users, channels, yields, census_append]
    omega
  · simp only [Held, channels, yields] at held
    obtain ⟨channel, member, named, at_b⟩ | held := held
    · obtain old | new := List.mem_append.mp member
      · exact Or.inl (Or.inl ⟨channel, old, named, at_b⟩)
      · cases List.mem_singleton.mp new
        exact Or.inr ⟨named.symm, at_b.symm⟩
    · exact Or.inl (Or.inr held)

theorem Referenced.yield {t : T} {name : String} {alloc : A} (referenced : Referenced s)
    (stepped : ChannelMap.step s (.yield t name alloc) = some s') : Referenced s' := by
  simp only [ChannelMap.step] at stepped
  split_ifs at stepped
  obtain ⟨⟨a, u⟩, got, rfl⟩ := Option.map_eq_some_iff.mp stepped
  obtain ⟨channels, yields⟩ := getchsync_frame got
  refine referenced.get got rfl rfl (fun n => ?_) fun n b held => ?_
  · simp only [users, channels, yields, census_append]
    omega
  · simp only [Held, channels, yields] at held
    obtain held | ⟨y, member, named, at_b⟩ := held
    · exact Or.inl (Or.inl held)
    · obtain old | new := List.mem_append.mp member
      · exact Or.inl (Or.inr ⟨y, old, named, at_b⟩)
      · cases List.mem_singleton.mp new
        exact Or.inr ⟨named.symm, at_b.symm⟩

theorem Referenced.sync {c : C} {endpoint : Endpoint} {waits : Bool} (referenced : Referenced s)
    (stepped : ChannelMap.step s (.sync c endpoint waits) = some s') : Referenced s' := by
  obtain ⟨channel, found, synced⟩ := Option.bind_eq_some_iff.mp stepped
  obtain ⟨⟨u, answer⟩, matched, rfl⟩ := Option.map_eq_some_iff.mp synced
  obtain ⟨channels, yields, map, r, sync, at_a, heap⟩ := matchchsync_frame matched
  refine referenced.requeue (channel_held found) at_a map heap (fun n => ?_) fun n b held => ?_
  · simp only [users, channels, yields]
  · simpa only [Held, channels, yields] using held

theorem Referenced.cancel {c : C} (referenced : Referenced s)
    (stepped : ChannelMap.step s (.cancel c) = some s') : Referenced s' := by
  obtain ⟨channel, found, canceled⟩ := Option.bind_eq_some_iff.mp stepped
  obtain ⟨r, at_a, rfl⟩ := Option.map_eq_some_iff.mp canceled
  exact referenced.requeue (channel_held found) at_a rfl rfl (fun _ => rfl) fun _ _ held => held

theorem Referenced.close {i : ℕ} (referenced : Referenced s)
    (stepped : ChannelMap.step s (.close i) = some s') : Referenced s' := by
  obtain ⟨channel, at_i, closed⟩ := Option.bind_eq_some_iff.mp stepped
  obtain ⟨r, -, closed⟩ := Option.bind_eq_some_iff.mp closed
  split_ifs at closed
  obtain ⟨u, freed, rfl⟩ := Option.map_eq_some_iff.mp closed
  obtain ⟨channels, yields⟩ := freechsync_frame freed
  refine referenced.free (Or.inl ⟨channel, List.mem_of_getElem? at_i, rfl, rfl⟩) freed rfl rfl
    (fun n => ?_) fun n b held => ?_
  · have fewer := census_eraseIdx Channel.name at_i n
    simp only [users, channels, yields]
    omega
  · simp only [Held, channels, yields] at held
    obtain ⟨other, member, named⟩ | held := held
    · exact Or.inl ⟨other, List.mem_of_mem_eraseIdx member, named⟩
    · exact Or.inr held

theorem Referenced.work {i : ℕ} {endpoint : Option Endpoint} (referenced : Referenced s)
    (stepped : ChannelMap.step s (.match i endpoint) = some s') : Referenced s' := by
  obtain ⟨y, at_i, worked⟩ := Option.bind_eq_some_iff.mp stepped
  split_ifs at worked
  cases endpoint with
  | none =>
    cases worked
    exact referenced.set at_i rfl rfl
  | some endpoint =>
    obtain ⟨⟨u, answer⟩, matched, rfl⟩ := Option.map_eq_some_iff.mp worked
    obtain ⟨channels, yields, map, r, sync, at_a, heap⟩ := matchchsync_frame matched
    obtain ⟨y', name, sync, -, channels', yields', map', heap'⟩ := matched_frame u i y answer
    rw [channels] at channels'
    rw [yields] at yields'
    rw [map] at map'
    rw [heap] at heap'
    exact referenced.requeue (Or.inr ⟨y, List.mem_of_getElem? at_i, rfl, rfl⟩) at_a map' heap'
      (users_set channels' yields' at_i name) (held_set channels' yields' at_i name sync)

theorem Referenced.give {i : ℕ} {read : String} (referenced : Referenced s)
    (alive : Alive s (.free i read))
    (stepped : ChannelMap.step s (.free i read) = some s') : Referenced s' := by
  obtain ⟨y, at_i, ended⟩ := Option.bind_eq_some_iff.mp stepped
  split at ended
  · cases ended
  rw [if_neg (by simp [alive y at_i])] at ended
  obtain ⟨u, freed, rfl⟩ := Option.map_eq_some_iff.mp ended
  obtain ⟨channels, yields⟩ := freechsync_frame freed
  refine referenced.free (Or.inr ⟨y, List.mem_of_getElem? at_i, rfl, rfl⟩) freed rfl rfl
    (fun n => ?_) fun n b held => ?_
  · have fewer := census_eraseIdx Yield.name at_i n
    simp only [users, channels, yields]
    omega
  · simp only [Held, channels, yields] at held
    obtain held | ⟨other, member, named⟩ := held
    · exact Or.inl held
    · exact Or.inr ⟨other, List.mem_of_mem_eraseIdx member, named⟩

theorem Referenced.step {a : Act A T C} (referenced : Referenced s) (alive : Alive s a)
    (stepped : step s a = some s') : Referenced s' := by
  cases a with
  | create c name alloc => exact referenced.create stepped
  | yield t name alloc => exact referenced.yield stepped
  | sync c endpoint waits => exact referenced.sync stepped
  | cancel c => exact referenced.cancel stepped
  | close i => exact referenced.close stepped
  | «match» i endpoint => exact referenced.work stepped
  | collect i =>
    obtain ⟨y, at_i, collected⟩ := Option.bind_eq_some_iff.mp stepped
    split_ifs at collected
    cases collected
    exact referenced.set at_i rfl rfl
  | free i read => exact referenced.give alive stepped

omit [DecidableEq T] [DecidableEq C] in
theorem freechsync_freed {u : State A T C} {name : String} {a : A} {r : Record (Waiter T C)}
    (freed : s.lcuCS_freechsync name = some u) (at_a : s.heap a = some r)
    (gone : u.heap a = none) : r.sync.queue = [] := by
  unfold State.lcuCS_freechsync at freed
  split at freed
  · cases freed
    cases at_a.symm.trans gone
  · rename_i b mapped
    obtain ⟨q, at_b, rfl⟩ := Option.map_eq_some_iff.mp freed
    by_cases same : a = b
    · subst b
      cases at_a.symm.trans at_b
      split_ifs at gone with last
      · exact last.2
      · simp [State.put] at gone
    · split_ifs at gone
      · simp [State.put, Function.update_of_ne same, at_a] at gone
      · simp [State.put, Function.update_of_ne same, at_a] at gone

omit [DecidableEq T] [DecidableEq C] in
theorem allocated_put {a b : A} {q : Record (Waiter T C)} (allocated : s.heap a ≠ none) :
    (s.put b (some q)).heap a ≠ none := by
  by_cases same : a = b
  · simp [State.put, same]
  · simpa [State.put, Function.update_of_ne same] using allocated

omit [DecidableEq T] [DecidableEq C] in
theorem allocated_get {u : State A T C} {name : String} {a b alloc : A}
    (got : s.lcuCS_getchsync name alloc = some (b, u)) (allocated : s.heap a ≠ none) :
    u.heap a ≠ none := by
  unfold State.lcuCS_getchsync at got
  split at got
  · obtain ⟨q, -, same⟩ := Option.map_eq_some_iff.mp got
    cases same
    exact allocated_put allocated
  · split_ifs at got
    cases got
    exact allocated_put (s := s) allocated

omit [DecidableEq C] in
theorem allocated_match {u : State A T C} {a b : A} {endpoint : Endpoint}
    {getstate : Option (Waiter T C)} {answer : Answer (Waiter T C)}
    (matched : s.lcuCS_matchchsync b endpoint getstate = some (u, answer))
    (allocated : s.heap a ≠ none) : u.heap a ≠ none := by
  obtain ⟨-, -, -, r, sync, -, heap⟩ := matchchsync_frame matched
  rw [heap]
  exact allocated_put (s := s) allocated

/-- Only `lcuCS_freechsync` frees a record, when nobody waits in it. -/
theorem freed_unwaited {act : Act A T C} {a : A} {r : Record (Waiter T C)}
    (stepped : step s act = some s') (at_a : s.heap a = some r) (gone : s'.heap a = none) :
    r.sync.queue = [] := by
  have allocated : s.heap a ≠ none := by simp [at_a]
  cases act with
  | create c name alloc =>
    simp only [ChannelMap.step] at stepped
    split_ifs at stepped
    obtain ⟨⟨b, u⟩, got, rfl⟩ := Option.map_eq_some_iff.mp stepped
    have kept := allocated_get got allocated
    exact absurd gone kept
  | yield t name alloc =>
    simp only [ChannelMap.step] at stepped
    split_ifs at stepped
    obtain ⟨⟨b, u⟩, got, rfl⟩ := Option.map_eq_some_iff.mp stepped
    have kept := allocated_get got allocated
    exact absurd gone kept
  | sync c endpoint waits =>
    obtain ⟨channel, -, synced⟩ := Option.bind_eq_some_iff.mp stepped
    obtain ⟨⟨u, answer⟩, matched, rfl⟩ := Option.map_eq_some_iff.mp synced
    exact absurd gone (allocated_match matched allocated)
  | cancel c =>
    obtain ⟨channel, -, canceled⟩ := Option.bind_eq_some_iff.mp stepped
    obtain ⟨q, -, rfl⟩ := Option.map_eq_some_iff.mp canceled
    exact absurd gone (allocated_put allocated)
  | close i =>
    obtain ⟨channel, -, closed⟩ := Option.bind_eq_some_iff.mp stepped
    obtain ⟨q, -, closed⟩ := Option.bind_eq_some_iff.mp closed
    split_ifs at closed
    obtain ⟨u, freed, rfl⟩ := Option.map_eq_some_iff.mp closed
    exact freechsync_freed freed at_a gone
  | «match» i endpoint =>
    obtain ⟨y, -, worked⟩ := Option.bind_eq_some_iff.mp stepped
    split_ifs at worked
    cases endpoint with
    | none =>
      cases worked
      exact absurd gone allocated
    | some endpoint =>
      obtain ⟨⟨u, answer⟩, matched, rfl⟩ := Option.map_eq_some_iff.mp worked
      obtain ⟨-, -, -, -, -, -, -, heap⟩ := matched_frame u i y answer
      rw [heap] at gone
      exact absurd gone (allocated_match matched allocated)
  | collect i =>
    obtain ⟨y, -, collected⟩ := Option.bind_eq_some_iff.mp stepped
    split_ifs at collected
    cases collected
    exact absurd gone allocated
  | free i read =>
    obtain ⟨y, -, ended⟩ := Option.bind_eq_some_iff.mp stepped
    split at ended
    · cases ended
    obtain ⟨u, freed, rfl⟩ := Option.map_eq_some_iff.mp ended
    exact freechsync_freed freed at_a gone

/-- In a run where the names that the workers give back are still there: the map has the records
that are used or waited in, their counts are right, the users of a record find it under the name
they got it for, and a record that is freed has neither users nor waiters. -/
theorem records_referenced {acts : List (Act A T C)} (ran : run step initial acts = some s)
    (along : Along step Alive initial acts) :
    (∀ name a, s.map name = some a → ∃ r, s.heap a = some r ∧ r.refcount = users s name ∧
      (0 < r.refcount ∨ r.sync.queue ≠ [])) ∧
    (∀ a r, s.heap a = some r → ∃! name, s.map name = some a) ∧
    (∀ channel ∈ s.channels, s.map channel.name = some channel.sync) ∧
    (∀ y ∈ s.yields, s.map y.name = some y.sync) ∧
    ∀ act s' a r, Alive s act → step s act = some s' → s.heap a = some r → s'.heap a = none →
      r.sync.queue = [] ∧ (∀ channel ∈ s'.channels, channel.sync ≠ a) ∧
        ∀ y ∈ s'.yields, y.sync ≠ a := by
  have referenced : Referenced s := run_invariant_along Referenced Alive
    (fun _ _ _ referenced alive stepped => referenced.step alive stepped) referenced_initial along
    ran
  have table := referenced.table
  refine ⟨table.found, fun a r at_a => ?_, fun channel member => ?_, fun y member => ?_,
    fun act s' a r alive stepped at_a gone => ?_⟩
  · obtain ⟨name, mapped⟩ := table.mapped a r at_a
    exact ⟨name, mapped, fun other there => table.distinct other name a there mapped⟩
  · exact referenced.held _ _ (Or.inl ⟨channel, member, rfl, rfl⟩)
  · exact referenced.held _ _ (Or.inr ⟨y, member, rfl, rfl⟩)
  · have after := referenced.step alive stepped
    have unheld (name : String) : ¬Held s' name a := by
      intro held
      obtain ⟨q, at_a, -⟩ := after.table.found name a (after.held name a held)
      cases gone.symm.trans at_a
    refine ⟨freed_unwaited stepped at_a gone, fun channel member same => ?_,
      fun y member same => ?_⟩
    · exact unheld channel.name (Or.inl ⟨channel, member, rfl, same⟩)
    · exact unheld y.name (Or.inr ⟨y, member, rfl, same⟩)

/-- Task 1 waits under "jobs"; task 2 yields the name and takes it out. -/
def sampleTaken : List (Act ℕ ℕ ℕ) :=
  [.yield 1 "jobs" 10, .match 0 (some .in), .yield 2 "jobs" 11, .match 1 (some .out), .free 1 ""]

/-- The worker of task 1 gives the name back before it is collected, and frees the record. -/
theorem records_referenced_taken :
    ∃ s : State ℕ ℕ ℕ,
      run step initial sampleTaken = some s ∧ users s "jobs" = 1 ∧
      ∃ r, s.heap 10 = some r ∧ r.refcount = 1 ∧
        ∃ s', step s (.free 0 "") = some s' ∧ s'.heap 10 = none ∧ r.sync.queue = [] := by
  have ran : run step (initial : State ℕ ℕ ℕ) sampleTaken = some _ := rfl
  refine ⟨_, ran, rfl, _, rfl, rfl, _, rfl, rfl, ?_⟩
  exact ((records_referenced ran (by decide)).2.2.2.2 (.free 0 "") _ 10 _ (by decide) rfl rfl
    rfl).1

/-- The name is collected before the worker of task 1 gives it back: nobody is left to use the
record, and it is kept. -/
theorem record_leaked :
    ¬∀ (acts : List (Act ℕ ℕ ℕ)) (s : State ℕ ℕ ℕ), run step initial acts = some s →
      ∀ name a, s.map name = some a → ∃ r, s.heap a = some r ∧ r.refcount = users s name ∧
        (0 < r.refcount ∨ r.sync.queue ≠ []) := by
  intro claim
  have ran : run step (initial : State ℕ ℕ ℕ) (sampleTaken ++ [.collect 0, .free 0 "other"]) =
    some _ := rfl
  obtain ⟨r, at_a, refcount, -⟩ := claim _ _ ran "jobs" 10 rfl
  cases at_a
  exact absurd refcount (by decide)

end Coutil.ChannelReferences
