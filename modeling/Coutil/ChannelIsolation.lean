import Coutil.ChannelNames
import Coutil.ChannelReferences

set_option autoImplicit false

/-! The names of the channels as Lua strings. A sync record is found by what is before the first
zero byte of a name, while a channel has the whole name as its user value and a task has it on its
stack. -/
namespace Coutil.ChannelIsolation
open Runs Census ChannelSync ChannelMap ChannelReferences ChannelNames
open Exchange (cstring)

variable {A T C : Type}

/-- A channel or a task with the name that was given for it. -/
abbrev Named (K : Type) := K × String

inductive Act (A T C : Type) where
  | create (c : C) (name : String) (alloc : A)
  | sync (c : Named C) (endpoint : Endpoint) (waits : Bool)
  | cancel (c : Named C)
  | close (i : ℕ)
  | yield (t : T) (name : String) (alloc : A)
  | «match» (i : ℕ) (endpoint : Option Endpoint)
  | collect (i : ℕ)
  | free (i : ℕ) (read : String)

def Act.passed : Act A T C → ChannelMap.Act A (Named T) (Named C)
  | .create c name alloc => .create (c, name) (cstring name) alloc
  | .sync c endpoint waits => .sync c endpoint waits
  | .cancel c => .cancel c
  | .close i => .close i
  | .yield t name alloc => .yield (t, name) (cstring name) alloc
  | .match i endpoint => .match i endpoint
  | .collect i => .collect i
  | .free i read => .free i (cstring read)

/-- The channel or the yield uses the record at the address, under the name it was given. -/
def Uses (s : State A (Named T) (Named C)) (name : String) (a : A) : Prop :=
  (∃ channel ∈ s.channels, channel.id.2 = name ∧ channel.sync = a) ∨
    ∃ y ∈ s.yields, y.task.2 = name ∧ y.sync = a

/-- There is a channel of the name: an open one, one that a task yielded, or one in which a task
waits. -/
def Existing (s : State A (Named T) (Named C)) (name : String) : Prop :=
  (∃ a, Uses s name a) ∨
    ∃ a r t, s.heap a = some r ∧ Waiter.task (t, name) ∈ r.sync.queue

/-- The names that `channel.getnames` puts in its new table: the globals of the map. -/
def getnames (s : State A (Named T) (Named C)) (name : String) : Bool := (s.map name).isSome

variable [DecidableEq A] [DecidableEq T] [DecidableEq C]

def step (s : State A (Named T) (Named C)) (a : Act A T C) : Option (State A (Named T) (Named C)) :=
  ChannelMap.step s a.passed

/-- The name that a worker gives back is still there. -/
def Kept (s : State A (Named T) (Named C)) (a : Act A T C) : Prop := Alive s a.passed

instance (s : State A (Named T) (Named C)) (a : Act A T C) : Decidable (Kept s a) :=
  inferInstanceAs (Decidable (Alive s a.passed))

/-- Who waits in a record: a task under its name, or an open channel that uses the record. -/
def Waits (s : State A (Named T) (Named C)) (a : A) : Waiter (Named T) (Named C) → Prop
  | .task t => s.map (cstring t.2) = some a
  | .channel c => ∃ channel ∈ s.channels, channel.id = c ∧ channel.sync = a

/-- The records are used and waited in under the names that were given. -/
structure Labelled (s : State A (Named T) (Named C)) : Prop where
  channels : ∀ channel ∈ s.channels, channel.name = cstring channel.id.2
  yields : ∀ y ∈ s.yields, y.name = cstring y.task.2
  waiters : ∀ a r, s.heap a = some r → ∀ w ∈ r.sync.queue, Waits s a w

omit [DecidableEq A] [DecidableEq T] [DecidableEq C] in
theorem labelled_initial : Labelled (initial : State A (Named T) (Named C)) where
  channels := nofun
  yields := nofun
  waiters := nofun

section
variable {S K : Type} [DecidableEq S] [DecidableEq K]
variable {s u : State A S K} {a : A} {name : String}

omit [DecidableEq S] [DecidableEq K] in
theorem getchsync_queues {alloc : A} (got : s.lcuCS_getchsync name alloc = some (a, u)) :
    (∀ n b, s.map n = some b → u.map n = some b) ∧
      ∀ b r', u.heap b = some r' →
        r'.sync.queue = [] ∨ ∃ r, s.heap b = some r ∧ r'.sync.queue = r.sync.queue := by
  unfold State.lcuCS_getchsync at got
  split at got
  · obtain ⟨r, at_a, same⟩ := Option.map_eq_some_iff.mp got
    cases same
    refine ⟨fun n b mapped => mapped, fun b r' at_b => ?_⟩
    right
    simp only [State.put, Function.update_apply] at at_b
    split_ifs at at_b with same
    · subst b
      cases at_b
      exact ⟨r, at_a, rfl⟩
    · exact ⟨r', at_b, rfl⟩
  · rename_i unmapped
    split_ifs at got with free
    cases got
    refine ⟨fun n b mapped => ?_, fun b r' at_b => ?_⟩
    · have other : n ≠ name := by
        rintro rfl
        cases unmapped.symm.trans mapped
      exact (Function.update_of_ne other ..).trans mapped
    · simp only [State.put, Function.update_apply] at at_b
      split_ifs at at_b with same
      · cases at_b
        exact Or.inl rfl
      · exact Or.inr ⟨r', at_b, rfl⟩

omit [DecidableEq S] [DecidableEq K] in
theorem freechsync_queues (freed : s.lcuCS_freechsync name = some u) {b : A}
    {r' : Record (Waiter S K)} (at_b : u.heap b = some r') :
    ∃ r, s.heap b = some r ∧ r'.sync.queue = r.sync.queue ∧
      ∀ n, s.map n = some b → u.map n = some b := by
  unfold State.lcuCS_freechsync at freed
  split at freed
  · cases freed
    exact ⟨r', at_b, rfl, fun n mapped => mapped⟩
  · rename_i a mapped
    obtain ⟨r, at_a, rfl⟩ := Option.map_eq_some_iff.mp freed
    split_ifs at at_b ⊢ with last
    · have other : b ≠ a := by
        rintro rfl
        simp [State.put] at at_b
      have same : s.heap b = some r' := by
        simpa [State.put, Function.update_of_ne other] using at_b
      refine ⟨r', same, rfl, fun n mapped' => ?_⟩
      have apart : n ≠ name := by
        rintro rfl
        exact other (Option.some.inj (mapped'.symm.trans mapped))
      exact (Function.update_of_ne apart ..).trans mapped'
    · simp only [State.put, Function.update_apply] at at_b
      split_ifs at at_b with same
      · subst b
        cases at_b
        exact ⟨r, at_a, rfl, fun n mapped => mapped⟩
      · exact ⟨r', at_b, rfl, fun n mapped => mapped⟩

omit [DecidableEq A] [DecidableEq S] [DecidableEq K] in
theorem matchchsync_queue {W : Type} (sync : Sync W) (endpoint : Endpoint) (getstate : Option W)
    {w : W} (member : w ∈ (matchchsync sync endpoint getstate).1.queue) :
    w ∈ sync.queue ∨ getstate = some w := by
  have suspends : ∀ z : Sync W, w ∈ (z.suspend getstate).1.queue →
      w ∈ z.queue ∨ getstate = some w := by
    intro z member
    cases getstate with
    | none => exact Or.inl member
    | some state =>
      rcases List.mem_append.mp member with member | member
      · exact Or.inl member
      · exact Or.inr (congrArg some (List.mem_singleton.mp member).symm)
  unfold matchchsync at member
  split at member
  · exact suspends (sync.expect endpoint) member
  · rename_i state queue waiting
    split_ifs at member
    · rw [waiting]
      exact Or.inl (List.mem_cons_of_mem state member)
    · exact suspends sync member

omit [DecidableEq K] in
theorem lcuCS_matchchsync_queues {endpoint : Endpoint} {getstate : Option (Waiter S K)}
    {answer : Answer (Waiter S K)}
    (matched : s.lcuCS_matchchsync a endpoint getstate = some (u, answer)) {b : A}
    {r' : Record (Waiter S K)} (at_b : u.heap b = some r') :
    ∃ r, s.heap b = some r ∧
      ∀ w ∈ r'.sync.queue, w ∈ r.sync.queue ∨ (b = a ∧ getstate = some w) := by
  obtain ⟨r, at_a, result⟩ := Option.map_eq_some_iff.mp matched
  have heap : u.heap = Function.update s.heap a
      (some { r with sync := (matchchsync r.sync endpoint getstate).1 }) := by
    split at result
    · rename_i sync found answered
      cases result
      rw [answered]
      cases found <;> rfl
    · rename_i sync answer answered
      cases result
      rw [answered]
      rfl
  rw [heap, Function.update_apply] at at_b
  split_ifs at at_b with same
  · subst b
    cases at_b
    refine ⟨r, at_a, fun w member => ?_⟩
    exact (matchchsync_queue r.sync endpoint getstate member).imp_right fun own => ⟨rfl, own⟩
  · exact ⟨r', at_b, fun w member => Or.inl member⟩

end

section
variable {s u s' : State A (Named T) (Named C)} {a : A} {name : String}

omit [DecidableEq A] [DecidableEq T] [DecidableEq C] in
theorem Waits.mono {w : Waiter (Named T) (Named C)} (waits : Waits s a w)
    (map : ∀ n, s.map n = some a → u.map n = some a)
    (channels : ∀ channel ∈ s.channels, channel ∈ u.channels) : Waits u a w := by
  cases w with
  | task t => exact map _ waits
  | channel c =>
    obtain ⟨channel, member, same⟩ := waits
    exact ⟨channel, channels channel member, same⟩

omit [DecidableEq A] [DecidableEq T] [DecidableEq C] in
theorem Labelled.set (labelled : Labelled s) {i : ℕ} {y y' : Yield A (Named T)}
    (at_i : s.yields[i]? = some y) (name : y'.name = y.name) (task : y'.task = y.task) :
    ∀ z ∈ s.yields.set i y', z.name = cstring z.task.2 := by
  intro z member
  rcases List.mem_or_eq_of_mem_set member with old | rfl
  · exact labelled.yields z old
  · rw [name, task]
    exact labelled.yields y (List.mem_of_getElem? at_i)

omit [DecidableEq T] [DecidableEq C] in
theorem Labelled.get {alloc : A} (labelled : Labelled s)
    (got : s.lcuCS_getchsync name alloc = some (a, u)) (map : s'.map = u.map)
    (heap : s'.heap = u.heap) (channels : ∀ channel ∈ s.channels, channel ∈ s'.channels) :
    ∀ b r, s'.heap b = some r → ∀ w ∈ r.sync.queue, Waits s' b w := by
  intro b r' at_b w member
  obtain ⟨kept, queues⟩ := getchsync_queues got
  rw [heap] at at_b
  rcases queues b r' at_b with empty | ⟨r, old, same⟩
  · rw [empty] at member
    cases member
  · rw [same] at member
    exact (labelled.waiters b r old w member).mono (fun n mapped => map ▸ kept n b mapped) channels

omit [DecidableEq T] [DecidableEq C] in
theorem Labelled.free (labelled : Labelled s) (freed : s.lcuCS_freechsync name = some u)
    (map : s'.map = u.map) (heap : s'.heap = u.heap)
    (channels : ∀ b r, s.heap b = some r → ∀ c, .channel c ∈ r.sync.queue →
      ∀ channel ∈ s.channels, channel.id = c → channel.sync = b → channel ∈ s'.channels) :
    ∀ b r, s'.heap b = some r → ∀ w ∈ r.sync.queue, Waits s' b w := by
  intro b r' at_b w member
  rw [heap] at at_b
  obtain ⟨r, old, same, kept⟩ := freechsync_queues freed at_b
  rw [same] at member
  have waits := labelled.waiters b r old w member
  cases w with
  | task t => exact (congrFun map _).trans (kept _ waits)
  | channel c =>
    obtain ⟨channel, inside, id, sync⟩ := waits
    exact ⟨channel, channels b r old c member channel inside id sync, id, sync⟩

omit [DecidableEq C] in
theorem Labelled.match {endpoint : Endpoint} {getstate : Option (Waiter (Named T) (Named C))}
    {answer : Answer (Waiter (Named T) (Named C))} (labelled : Labelled s)
    (matched : s.lcuCS_matchchsync a endpoint getstate = some (u, answer)) (map : s'.map = s.map)
    (heap : s'.heap = u.heap) (channels : s'.channels = s.channels)
    (own : ∀ w, getstate = some w → Waits s a w) :
    ∀ b r, s'.heap b = some r → ∀ w ∈ r.sync.queue, Waits s' b w := by
  intro b r' at_b w member
  rw [heap] at at_b
  obtain ⟨r, old, queues⟩ := lcuCS_matchchsync_queues matched at_b
  have waits : Waits s b w := by
    rcases queues w member with member | ⟨rfl, same⟩
    · exact labelled.waiters b r old w member
    · exact own w same
  exact waits.mono (fun n mapped => map ▸ mapped) fun channel inside => channels ▸ inside

theorem Labelled.create {c : C} {name : String} {alloc : A} (labelled : Labelled s)
    (stepped : ChannelIsolation.step s (.create c name alloc) = some s') : Labelled s' := by
  simp only [ChannelIsolation.step, Act.passed, ChannelMap.step] at stepped
  split_ifs at stepped
  obtain ⟨⟨a, u⟩, got, rfl⟩ := Option.map_eq_some_iff.mp stepped
  obtain ⟨channels, yields⟩ := getchsync_frame got
  refine ⟨?_, ?_, labelled.get got rfl rfl ?_⟩
  · intro channel member
    rcases List.mem_append.mp member with old | new
    · exact labelled.channels channel (channels ▸ old)
    · cases List.mem_singleton.mp new
      rfl
  · exact fun y member => labelled.yields y (yields ▸ member)
  · exact fun channel old => List.mem_append_left _ (channels ▸ old)

theorem Labelled.yield {t : T} {name : String} {alloc : A} (labelled : Labelled s)
    (stepped : ChannelIsolation.step s (.yield t name alloc) = some s') : Labelled s' := by
  simp only [ChannelIsolation.step, Act.passed, ChannelMap.step] at stepped
  split_ifs at stepped
  obtain ⟨⟨a, u⟩, got, rfl⟩ := Option.map_eq_some_iff.mp stepped
  obtain ⟨channels, yields⟩ := getchsync_frame got
  refine ⟨?_, ?_, labelled.get got rfl rfl ?_⟩
  · exact fun channel member => labelled.channels channel (channels ▸ member)
  · intro y member
    rcases List.mem_append.mp member with old | new
    · exact labelled.yields y (yields ▸ old)
    · cases List.mem_singleton.mp new
      rfl
  · exact fun channel old => channels ▸ old

theorem Labelled.sync {c : Named C} {endpoint : Endpoint} {waits : Bool} (labelled : Labelled s)
    (stepped : ChannelIsolation.step s (.sync c endpoint waits) = some s') : Labelled s' := by
  obtain ⟨channel, found, synced⟩ := Option.bind_eq_some_iff.mp stepped
  obtain ⟨⟨u, answer⟩, matched, rfl⟩ := Option.map_eq_some_iff.mp synced
  obtain ⟨channels, yields, map, -⟩ := matchchsync_frame matched
  refine ⟨channels ▸ labelled.channels, yields ▸ labelled.yields,
    labelled.match matched map rfl channels fun w own => ?_⟩
  split_ifs at own
  cases own
  have id : channel.id = c := by simpa using List.find?_some found
  exact ⟨channel, List.mem_of_find?_eq_some found, id, rfl⟩

theorem Labelled.cancel {c : Named C} (labelled : Labelled s)
    (stepped : ChannelIsolation.step s (.cancel c) = some s') : Labelled s' := by
  obtain ⟨channel, found, canceled⟩ := Option.bind_eq_some_iff.mp stepped
  obtain ⟨r, at_a, rfl⟩ := Option.map_eq_some_iff.mp canceled
  refine ⟨labelled.channels, labelled.yields, fun b r' at_b w member => ?_⟩
  simp only [State.put, Function.update_apply] at at_b
  split_ifs at at_b with same
  · subst b
    cases at_b
    have member : w ∈ r.sync.queue := List.mem_of_mem_erase member
    exact labelled.waiters _ r at_a w member
  · exact labelled.waiters b r' at_b w member

theorem Labelled.close {i : ℕ} (labelled : Labelled s)
    (stepped : ChannelIsolation.step s (.close i) = some s') : Labelled s' := by
  obtain ⟨closed, at_i, stepped⟩ := Option.bind_eq_some_iff.mp stepped
  obtain ⟨q, at_sync, stepped⟩ := Option.bind_eq_some_iff.mp stepped
  split_ifs at stepped with waits
  obtain ⟨u, freed, rfl⟩ := Option.map_eq_some_iff.mp stepped
  obtain ⟨channels, yields⟩ := freechsync_frame freed
  refine ⟨?_, ?_, labelled.free freed rfl rfl ?_⟩
  · intro channel member
    exact labelled.channels channel (channels ▸ List.mem_of_mem_eraseIdx member)
  · exact fun y member => labelled.yields y (yields ▸ member)
  · intro b r at_b c member channel inside id sync
    obtain ⟨j, at_j⟩ := List.mem_iff_getElem?.mp inside
    have other : j ≠ i := by
      rintro rfl
      cases at_i.symm.trans at_j
      subst c b
      cases at_sync.symm.trans at_b
      exact waits member
    exact List.mem_eraseIdx_iff_getElem?.mpr ⟨j, other, channels ▸ at_j⟩

theorem Labelled.work {i : ℕ} {endpoint : Option Endpoint} (labelled : Labelled s)
    (referenced : Referenced s)
    (stepped : ChannelIsolation.step s (.match i endpoint) = some s') : Labelled s' := by
  obtain ⟨y, at_i, worked⟩ := Option.bind_eq_some_iff.mp stepped
  split_ifs at worked
  cases endpoint with
  | none =>
    cases worked
    exact ⟨labelled.channels, labelled.set at_i rfl rfl, labelled.waiters⟩
  | some endpoint =>
    obtain ⟨⟨u, answer⟩, matched, rfl⟩ := Option.map_eq_some_iff.mp worked
    obtain ⟨channels, yields, map, -⟩ := matchchsync_frame matched
    obtain ⟨y', name, sync, task, channels', yields', map', heap'⟩ := matched_frame u i y answer
    have labels := labelled.set at_i name task
    rw [← yields, ← yields'] at labels
    have channels := channels'.trans channels
    refine ⟨channels ▸ labelled.channels, labels,
      labelled.match matched (map'.trans map) heap' channels fun w own => ?_⟩
    cases own
    have member := List.mem_of_getElem? at_i
    have mapped := referenced.held y.name y.sync (Or.inr ⟨y, member, rfl, rfl⟩)
    rw [labelled.yields y member] at mapped
    exact mapped

theorem Labelled.collect {i : ℕ} (labelled : Labelled s)
    (stepped : ChannelIsolation.step s (.collect i) = some s') : Labelled s' := by
  obtain ⟨y, at_i, collected⟩ := Option.bind_eq_some_iff.mp stepped
  split_ifs at collected
  cases collected
  exact ⟨labelled.channels, labelled.set at_i rfl rfl, labelled.waiters⟩

theorem Labelled.give {i : ℕ} {read : String} (labelled : Labelled s)
    (stepped : ChannelIsolation.step s (.free i read) = some s') : Labelled s' := by
  obtain ⟨y, at_i, stepped⟩ := Option.bind_eq_some_iff.mp stepped
  split at stepped
  · cases stepped
  obtain ⟨u, freed, rfl⟩ := Option.map_eq_some_iff.mp stepped
  obtain ⟨channels, yields⟩ := freechsync_frame freed
  refine ⟨?_, ?_, labelled.free freed rfl rfl ?_⟩
  · exact fun channel member => labelled.channels channel (channels ▸ member)
  · exact fun y member => labelled.yields y (yields ▸ List.mem_of_mem_eraseIdx member)
  · exact fun b r at_b c member channel inside id sync => channels ▸ inside

theorem Labelled.step {a : Act A T C} (labelled : Labelled s) (referenced : Referenced s)
    (stepped : step s a = some s') : Labelled s' := by
  cases a with
  | create c name alloc => exact labelled.create stepped
  | yield t name alloc => exact labelled.yield stepped
  | sync c endpoint waits => exact labelled.sync stepped
  | cancel c => exact labelled.cancel stepped
  | close i => exact labelled.close stepped
  | «match» i endpoint => exact labelled.work referenced stepped
  | collect i => exact labelled.collect stepped
  | free i read => exact labelled.give stepped

end

section
variable {s : State A (Named T) (Named C)} {a : A} {name : String}

omit [DecidableEq A] [DecidableEq T] [DecidableEq C] in
theorem Labelled.mapped (labelled : Labelled s) (referenced : Referenced s)
    (uses : Uses s name a) : s.map (cstring name) = some a := by
  obtain ⟨channel, member, rfl, rfl⟩ | ⟨y, member, rfl, rfl⟩ := uses
  · rw [← labelled.channels channel member]
    exact referenced.held _ _ (Or.inl ⟨channel, member, rfl, rfl⟩)
  · rw [← labelled.yields y member]
    exact referenced.held _ _ (Or.inr ⟨y, member, rfl, rfl⟩)

omit [DecidableEq A] [DecidableEq T] [DecidableEq C] in
/-- The map has the names that exist, each up to its first zero byte. -/
theorem Labelled.registered (labelled : Labelled s) (referenced : Referenced s) :
    getnames s name = true ↔ ∃ n, Existing s n ∧ cstring n = name := by
  rw [getnames, Option.isSome_iff_exists]
  constructor
  · rintro ⟨a, mapped⟩
    have of_channel : ∀ channel ∈ s.channels, channel.name = name →
        ∃ n, Existing s n ∧ cstring n = name := by
      rintro channel member rfl
      exact ⟨channel.id.2, Or.inl ⟨channel.sync, Or.inl ⟨channel, member, rfl, rfl⟩⟩,
        (labelled.channels channel member).symm⟩
    obtain ⟨r, at_a, refcount, kept⟩ := referenced.table.found name a mapped
    rcases kept with used | waited
    · have positive : 0 < users s name := by omega
      rcases Nat.add_pos_iff_pos_or_pos.mp positive with opened | yielded
      · obtain ⟨i, channel, at_i, named⟩ := (census_pos Channel.name).mp opened
        exact of_channel channel (List.mem_of_getElem? at_i) named
      · obtain ⟨i, y, at_i, rfl⟩ := (census_pos Yield.name).mp yielded
        have member := List.mem_of_getElem? at_i
        exact ⟨y.task.2, Or.inl ⟨y.sync, Or.inr ⟨y, member, rfl, rfl⟩⟩,
          (labelled.yields y member).symm⟩
    · obtain ⟨w, queue, queued⟩ := List.exists_cons_of_ne_nil waited
      have member : w ∈ r.sync.queue := queued ▸ List.mem_cons_self
      have waits := labelled.waiters a r at_a w member
      cases w with
      | task t =>
        have named := referenced.table.distinct _ name a waits mapped
        exact ⟨t.2, Or.inr ⟨a, r, t.1, at_a, member⟩, named⟩
      | channel c =>
        obtain ⟨channel, inside, -, sync⟩ := waits
        have held := referenced.held _ _ (Or.inl ⟨channel, inside, rfl, sync⟩)
        exact of_channel channel inside (referenced.table.distinct _ name a held mapped)
  · rintro ⟨n, exists_, rfl⟩
    obtain ⟨a, uses⟩ | ⟨a, r, t, at_a, member⟩ := exists_
    · exact ⟨a, labelled.mapped referenced uses⟩
    · exact ⟨a, labelled.waiters a r at_a _ member⟩

/-- In a run where the names that the workers give back are still there: two names have the same
record exactly when they are equal, if they differ before their first zero bytes, and
`channel.getnames` gives the names that exist, if none of them has a zero byte. -/
theorem names_isolated {acts : List (Act A T C)} (ran : run step initial acts = some s)
    (along : Along step Kept initial acts) :
    (∀ name other a b, Uses s name a → Uses s other b →
      ((a = b ↔ name = other) ↔ (cstring name = cstring other → name = other))) ∧
    ((∀ name, getnames s name = true ↔ Existing s name) ↔
      ∀ name, Existing s name → cstring name = name) := by
  obtain ⟨labelled, referenced⟩ : Labelled s ∧ Referenced s :=
    run_invariant_along (fun s => Labelled s ∧ Referenced s) Kept
      (fun _ _ _ both kept stepped => ⟨both.1.step both.2 stepped, both.2.step kept stepped⟩)
      ⟨labelled_initial, referenced_initial⟩ along ran
  refine ⟨fun name other a b uses uses' => ?_, fun reported name exists_ => ?_, fun whole name => ?_⟩
  · have mapped := labelled.mapped referenced uses
    have mapped' := labelled.mapped referenced uses'
    have same : a = b ↔ cstring name = cstring other := by
      constructor
      · rintro rfl
        exact referenced.table.distinct _ _ a mapped mapped'
      · intro same
        rw [same, mapped'] at mapped
        exact (Option.some.inj mapped).symm
    rw [same]
    exact ⟨fun equal => equal.mp, fun apart => ⟨apart, congrArg cstring⟩⟩
  · obtain ⟨n, -, rfl⟩ := (labelled.registered referenced).mp ((reported name).mpr exists_)
    exact cstring_cstring n
  · rw [labelled.registered referenced]
    constructor
    · rintro ⟨n, exists_, rfl⟩
      rw [whole n exists_]
      exact exists_
    · exact fun exists_ => ⟨name, exists_, whole name exists_⟩

end

def sampleShared : List (Act ℕ ℕ ℕ) := [.create 1 "jobs" 10, .yield 2 "jobs" 11]

theorem names_isolated_shared :
    ∃ s : State ℕ (Named ℕ) (Named ℕ), run step initial sampleShared = some s ∧
      Uses s "jobs" 10 ∧ cstring "jobs" = "jobs" ∧
      ((10 = 10 ↔ "jobs" = "jobs") ↔ (cstring "jobs" = cstring "jobs" → "jobs" = "jobs")) := by
  have ran : run step (initial : State ℕ (Named ℕ) (Named ℕ)) sampleShared = some _ := rfl
  refine ⟨_, ran, Or.inl ⟨_, List.mem_cons_self, rfl, rfl⟩, rfl, ?_⟩
  have isolated := (names_isolated ran (by decide)).1 "jobs" "jobs" 10 10
  exact isolated (Or.inl ⟨_, List.mem_cons_self, rfl, rfl⟩) (Or.inr ⟨_, List.mem_cons_self, rfl, rfl⟩)

def sampleZero : List (Act ℕ ℕ ℕ) := [.create 1 "a\x00b" 10, .create 2 "a\x00c" 11]

/-- Two channels whose names differ after a zero byte have one record, and what is reported is the
name of neither. -/
theorem zero_byte_shared :
    ∃ s : State ℕ (Named ℕ) (Named ℕ), run step initial sampleZero = some s ∧
      Along step Kept (initial : State ℕ (Named ℕ) (Named ℕ)) sampleZero ∧
      Uses s "a\x00b" 10 ∧ Uses s "a\x00c" 10 ∧ "a\x00b" ≠ "a\x00c" ∧
      getnames s "a" = true ∧ ¬Existing s "a" := by
  have ran : run step (initial : State ℕ (Named ℕ) (Named ℕ)) sampleZero = some _ := rfl
  have first : (⟨(1, "a\x00b"), "a", 10⟩ : Channel ℕ (Named ℕ)) ∈
      [⟨(1, "a\x00b"), "a", 10⟩, ⟨(2, "a\x00c"), "a", 10⟩] := List.mem_cons_self
  have second : (⟨(2, "a\x00c"), "a", 10⟩ : Channel ℕ (Named ℕ)) ∈
      [⟨(1, "a\x00b"), "a", 10⟩, ⟨(2, "a\x00c"), "a", 10⟩] :=
    List.mem_cons_of_mem _ List.mem_cons_self
  refine ⟨_, ran, by decide, Or.inl ⟨_, first, rfl, rfl⟩, Or.inl ⟨_, second, rfl, rfl⟩, by decide,
    rfl, ?_⟩
  rintro (⟨a, ⟨channel, member, named, -⟩ | ⟨y, member, -⟩⟩ | ⟨a, r, t, at_a, member⟩)
  · rcases List.mem_cons.mp member with rfl | member
    · exact absurd named (by decide)
    · obtain rfl := List.mem_singleton.mp member
      exact absurd named (by decide)
  · cases member
  · by_cases here : a = 10
    · subst a
      cases at_a
      cases member
    · change Function.update (Function.update (fun _ => none) 10 _) 10 _ a = some r at at_a
      rw [Function.update_of_ne here, Function.update_of_ne here] at at_a
      cases at_a

end Coutil.ChannelIsolation
