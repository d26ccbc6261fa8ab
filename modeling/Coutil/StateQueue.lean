import Coutil.LinkedSegment

set_option autoImplicit false

/-! The queues of states of `src/lchaux.c`. A state is one with a registry of its own, which holds
the state queued behind it; `NULL` is `none`, and following it has no result. -/
namespace Coutil.StateQueue
open LinkedSegment

section
variable {S Q : Type} [DecidableEq S] [DecidableEq Q]

structure StateQ (S : Type) where
  head : Option S
  tail : Option S

abbrev Registries (S : Type) := S → Option S

def getnextstateq (registry : Registries S) (L : S) : Option S := registry L

def setnextstateq (registry : Registries S) (L : S) (value : Option S) : Registries S :=
  Function.update registry L value

def appendstateq (registry : Registries S) (q q2 : StateQ S) : Option (Registries S × StateQ S) :=
  match q.head with
  | some _ => q.tail.map fun tail =>
      (setnextstateq registry tail q2.head, { q with tail := q2.tail })
  | none => some (registry, { head := q2.head, tail := q2.tail })

def initstateq : StateQ S := ⟨none, none⟩

def enqueuestateq (registry : Registries S) (q : StateQ S) (L : S) :
    Option (Registries S × StateQ S) :=
  appendstateq registry q ⟨some L, some L⟩

def dequeuestateq (registry : Registries S) (q : StateQ S) :
    Registries S × StateQ S × Option S :=
  match q.head with
  | some L =>
    (setnextstateq registry L none,
      if some L = q.tail then ⟨none, none⟩ else { q with head := getnextstateq registry L }, some L)
  | none => (registry, q, none)

/-- The loop of `lcuCS_removestateq`, of at most as many rounds. -/
def removeloop (registry : Registries S) (q : StateQ S) (L : S) :
    ℕ → Option S → Option (Registries S × StateQ S × Option S)
  | 0, _ => none
  | fuel + 1, prev =>
    if prev = q.tail then some (registry, q, none)
    else prev.bind fun prev =>
      let current := getnextstateq registry prev
      if current = some L then
        if some L = q.tail then
          some (setnextstateq (setnextstateq registry prev none) L none,
            { q with tail := some prev }, some L)
        else
          some (setnextstateq (setnextstateq registry prev (getnextstateq registry L)) L none,
            q, some L)
      else removeloop registry q L fuel current

def removestateq (fuel : ℕ) (registry : Registries S) (q : StateQ S) (L : S) :
    Option (Registries S × StateQ S × Option S) :=
  match q.head with
  | none => some (registry, q, none)
  | some prev =>
    if L = prev then some (dequeuestateq registry q) else removeloop registry q L fuel (some prev)

/-- Queues that share the registries of the states. -/
structure Queues (Q S : Type) where
  registry : Registries S
  queue : Q → StateQ S

/-- After `append` the variable of the second queue is initialized again. -/
inductive Op (Q S : Type) where
  | enqueue (q : Q) (L : S)
  | dequeue (q : Q)
  | remove (q : Q) (L : S)
  | append (q q2 : Q)

def Queues.store (s : Queues Q S) (q : Q) (changed : Registries S × StateQ S) : Queues Q S :=
  ⟨changed.1, Function.update s.queue q changed.2⟩

def exec (fuel : ℕ) (s : Queues Q S) : Op Q S → Option (Queues Q S × Option S)
  | .enqueue q L => (enqueuestateq s.registry (s.queue q) L).map fun changed =>
      (s.store q changed, none)
  | .dequeue q =>
    let changed := dequeuestateq s.registry (s.queue q)
    some (s.store q (changed.1, changed.2.1), changed.2.2)
  | .remove q L => (removestateq fuel s.registry (s.queue q) L).map fun changed =>
      (s.store q (changed.1, changed.2.1), changed.2.2)
  | .append q q2 => (appendstateq s.registry (s.queue q) (s.queue q2)).map fun changed =>
      ((s.store q changed).store q2 (changed.1, initstateq), none)

/-- The queues after a sequence of operations, with what each operation returned. -/
def execs (fuel : ℕ) : Queues Q S → List (Op Q S) → Option (Queues Q S × List (Option S))
  | s, [] => some (s, [])
  | s, op :: ops => (exec fuel s op).bind fun done =>
      (execs fuel done.1 ops).map fun rest => (rest.1, done.2 :: rest.2)

def Queues.init : Queues Q S := ⟨fun _ => none, fun _ => initstateq⟩

/-! What the operations are on lists. -/

def listExec (lists : Q → List S) : Op Q S → (Q → List S) × Option S
  | .enqueue q L => (Function.update lists q (lists q ++ [L]), none)
  | .dequeue q => (Function.update lists q (lists q).tail, (lists q).head?)
  | .remove q L => (Function.update lists q ((lists q).erase L), if L ∈ lists q then some L else none)
  | .append q q2 => (Function.update (Function.update lists q (lists q ++ lists q2)) q2 [], none)

def listExecs : (Q → List S) → List (Op Q S) → (Q → List S) × List (Option S)
  | lists, [] => (lists, [])
  | lists, op :: ops =>
    let done := listExec lists op
    let rest := listExecs done.1 ops
    (rest.1, done.2 :: rest.2)

def Allowed (lists : Q → List S) : Op Q S → Prop
  | .enqueue _ L => ∀ q, L ∉ lists q
  | .dequeue _ => True
  | .remove _ _ => True
  | .append q q2 => q ≠ q2 ∧ lists q2 ≠ []

def AllAllowed : (Q → List S) → List (Op Q S) → Prop
  | _, [] => True
  | lists, op :: ops => Allowed lists op ∧ AllAllowed (listExec lists op).1 ops

/-- From the head the registries lead through the list up to the tail. -/
structure Holds (registry : Registries S) (q : StateQ S) (l : List S) : Prop where
  head : q.head = l.head?
  tail : q.tail = l.getLast?
  links : Segment registry l none
  nodup : l.Nodup

structure Represents (s : Queues Q S) (lists : Q → List S) : Prop where
  queue : ∀ q, Holds s.registry (s.queue q) (lists q)
  disjoint : ∀ q r, q ≠ r → (lists q).Disjoint (lists r)
  free : ∀ L, (∀ q, L ∉ lists q) → s.registry L = none

/-- What an operation on one queue does to the registries: those of the states that are in the
queue neither before nor after stay, and a state that leaves it has no next one. -/
structure Changed (registry registry' : Registries S) (l l' : List S) : Prop where
  outside : ∀ x, x ∉ l → x ∉ l' → registry' x = registry x
  released : ∀ x ∈ l, x ∉ l' → registry' x = none

omit [DecidableEq S] in
theorem empty_holds (registry : Registries S) : Holds registry initstateq [] :=
  ⟨rfl, rfl, trivial, List.nodup_nil⟩

variable {registry registry' : Registries S} {q q2 : StateQ S} {l r : List S} {L : S}

omit [DecidableEq S] in
theorem single_holds (free : registry L = none) : Holds registry ⟨some L, some L⟩ [L] :=
  ⟨rfl, rfl, ⟨free, trivial⟩, List.nodup_singleton L⟩

omit [DecidableEq S] in
theorem Holds.congr (holds : Holds registry q l) (same : ∀ x ∈ l, registry' x = registry x) :
    Holds registry' q l :=
  ⟨holds.head, holds.tail, holds.links.congr same, holds.nodup⟩

theorem appendstateq_holds (first : Holds registry q l) (second : Holds registry q2 r)
    (disjoint : l.Disjoint r) (nonempty : r ≠ []) :
    ∃ changed q', appendstateq registry q q2 = some (changed, q') ∧ Holds changed q' (l ++ r) ∧
      ∀ x, x ∉ l → changed x = registry x := by
  rcases List.eq_nil_or_concat' l with rfl | ⟨l, tail, rfl⟩
  · have empty : q.head = none := first.head
    refine ⟨registry, q2, ?_, second, fun _ _ => rfl⟩
    rw [appendstateq, empty]
  · have alone : tail ∉ l := fun member =>
      (List.nodup_append.mp first.nodup).2.2 tail member tail List.mem_cons_self rfl
    have apart : tail ∉ r := fun member => disjoint (by simp) member
    obtain ⟨head, starts⟩ : ∃ head, q.head = some head := by
      rw [first.head]
      exact Option.isSome_iff_exists.mp (by simp)
    have ends : q.tail = some tail := by
      rw [first.tail, List.getLast?_concat]
    have end2 : r.head?.or none = q2.head := by
      rw [second.head, Option.or_none]
    refine ⟨setnextstateq registry tail q2.head, { q with tail := q2.tail }, ?_, ?_, ?_⟩
    · simp only [appendstateq, starts, ends, Option.map_some]
    · constructor
      · rw [List.head?_append, ← first.head, starts, Option.some_or]
      · rw [List.getLast?_append, second.tail]
        obtain ⟨last, found⟩ := Option.isSome_iff_exists.mp (List.getLast?_isSome.mpr nonempty)
        rw [found, Option.some_or]
      · rw [segment_append, end2]
        exact ⟨first.links.redirect alone, second.links.update apart⟩
      · exact List.nodup_append.mpr ⟨first.nodup, second.nodup, fun x left y right same =>
          disjoint left (same ▸ right)⟩
    · intro x outside
      exact Function.update_of_ne (fun same : x = tail => outside (by simp [same])) q2.head registry

theorem dequeuestateq_holds (holds : Holds registry q l) :
    ∃ changed q', dequeuestateq registry q = (changed, q', l.head?) ∧ Holds changed q' l.tail ∧
      Changed registry changed l l.tail := by
  cases l with
  | nil =>
    have empty : q.head = none := holds.head
    refine ⟨registry, q, ?_, holds, fun _ _ _ => rfl, nofun⟩
    rw [dequeuestateq, empty]
    rfl
  | cons L l =>
    have starts : q.head = some L := holds.head
    obtain ⟨fresh, nodup⟩ := List.nodup_cons.mp holds.nodup
    have link : registry L = l.head? := by
      rw [← Option.or_none (o := l.head?)]
      exact holds.links.1
    refine ⟨setnextstateq registry L none,
      if some L = q.tail then ⟨none, none⟩ else { q with head := registry L }, ?_, ?_, ?_⟩
    · simp only [dequeuestateq, starts, getnextstateq, List.head?_cons]
    · rcases List.eq_nil_or_concat' l with rfl | ⟨l, tail, rfl⟩
      · have alone : some L = q.tail := holds.tail.symm
        rw [if_pos alone]
        exact empty_holds _
      · have ends : q.tail = some tail := by
          rw [holds.tail, ← List.cons_append, List.getLast?_concat]
        have more : some L ≠ q.tail := by
          rw [ends]
          intro same
          obtain rfl := Option.some.inj same
          exact fresh (by simp)
        rw [if_neg more]
        refine ⟨link, ?_, holds.links.2.update fresh, nodup⟩
        rw [List.tail_cons, List.getLast?_concat]
        exact ends
    · constructor
      · intro x outside _
        exact Function.update_of_ne (fun same : x = L => outside (by simp [same])) none registry
      · intro x member gone
        rcases List.mem_cons.mp member with rfl | inside
        · exact Function.update_self x none registry
        · exact absurd inside gone

/-- Taking out the state behind the last one of `front`. -/
theorem unlink_holds {front : List S} {prev : S} (holds : Holds registry q (front ++ L :: l))
    (last : front.getLast? = some prev) :
    ∃ changed q', (if some L = q.tail then
          some (setnextstateq (setnextstateq registry prev none) L none,
            { q with tail := some prev }, some L)
        else
          some (setnextstateq (setnextstateq registry prev (getnextstateq registry L)) L none,
            q, some L)) = some (changed, q', some L) ∧
      Holds changed q' (front ++ l) ∧ Changed registry changed (front ++ L :: l) (front ++ l) := by
  obtain ⟨pre, rfl⟩ := List.getLast?_eq_some_iff.mp last
  obtain ⟨before, after, apart⟩ := List.nodup_append.mp holds.nodup
  obtain ⟨fresh, nodup⟩ := List.nodup_cons.mp after
  have away : L ∉ pre ++ [prev] := fun member => apart L member L List.mem_cons_self rfl
  have alone : prev ∉ pre := fun member =>
    (List.nodup_append.mp before).2.2 prev member prev List.mem_cons_self rfl
  have other : prev ∉ l := fun member =>
    apart prev (by simp) prev (List.mem_cons_of_mem L member) rfl
  obtain ⟨toward, link, rest⟩ := segment_append.mp holds.links
  have starts : q.head = (pre ++ [prev] ++ l).head? := by
    rw [holds.head]
    simp
  refine ⟨setnextstateq (setnextstateq registry prev (registry L)) L none,
    { q with tail := (pre ++ [prev] ++ l).getLast? }, ?_, ⟨starts, rfl, ?_, ?_⟩, ?_, ?_⟩
  · rcases List.eq_nil_or_concat' l with rfl | ⟨l, tail, rfl⟩
    · have ends : q.tail = some L := by
        rw [holds.tail, List.getLast?_concat]
      have final : registry L = none := link
      rw [if_pos ends.symm, final, List.append_nil, List.getLast?_concat]
    · have ends : q.tail = some tail := by
        rw [holds.tail, ← List.cons_append, ← List.append_assoc, List.getLast?_concat]
      have more : some L ≠ q.tail := by
        rw [ends]
        intro same
        obtain rfl := Option.some.inj same
        exact fresh (by simp)
      rw [if_neg more, ← List.append_assoc, List.getLast?_concat, ← ends]
      rfl
  · rw [segment_append, ← link]
    exact ⟨(toward.redirect alone).update away, (rest.update other).update fresh⟩
  · exact List.nodup_append.mpr ⟨before, nodup, fun x left y right =>
      apart x left y (List.mem_cons_of_mem L right)⟩
  · intro x outside _
    have notL : x ≠ L := fun same => outside (by simp [same])
    have notprev : x ≠ prev := fun same => outside (by simp [same])
    exact (Function.update_of_ne notL none _).trans
      (Function.update_of_ne notprev (registry L) registry)
  · intro x member gone
    obtain rfl : x = L := by
      by_contra different
      simp only [List.mem_append, List.mem_cons] at member gone
      tauto
    exact Function.update_self x none (setnextstateq registry prev (registry x))

/-- The loop finds the state in what is behind `front`, or ends at the tail. -/
theorem removeloop_holds {front : List S} {prev : S} (holds : Holds registry q (front ++ l))
    (last : front.getLast? = some prev) (passed : L ∉ front) :
    ∃ changed q', (∀ fuel, l.length < fuel → removeloop registry q L fuel (some prev) =
        some (changed, q', if L ∈ l then some L else none)) ∧
      Holds changed q' (front ++ l.erase L) ∧
      Changed registry changed (front ++ l) (front ++ l.erase L) := by
  induction l generalizing front prev with
  | nil =>
    have ends : q.tail = some prev := by
      rw [holds.tail, List.append_nil, last]
    refine ⟨registry, q, ?_, holds, fun _ _ _ => rfl, fun _ member gone => absurd member gone⟩
    intro fuel enough
    obtain ⟨fuel, rfl⟩ := Nat.exists_eq_add_one.mpr enough
    rw [removeloop, if_pos ends.symm]
    rfl
  | cons current l ih =>
    have inner : prev ∈ front := List.mem_of_getLast? last
    have apart := (List.nodup_append.mp holds.nodup).2.2 prev inner
    have more : some prev ≠ q.tail := by
      rw [holds.tail, List.getLast?_append, List.getLast?_cons, Option.some_or]
      intro same
      have final : prev ∈ current :: l :=
        List.mem_of_getLast? (List.getLast?_cons.trans same.symm)
      exact apart prev final rfl
    have link : registry prev = some current := by
      obtain ⟨pre, rfl⟩ := List.getLast?_eq_some_iff.mp last
      exact (segment_last.mp (segment_append.mp holds.links).1).2
    by_cases found : current = L
    · subst current
      obtain ⟨changed, q', taken, kept⟩ := unlink_holds holds last
      rw [if_pos List.mem_cons_self, List.erase_cons_head]
      refine ⟨changed, q', fun fuel enough => ?_, kept⟩
      obtain ⟨fuel, rfl⟩ := Nat.exists_eq_add_one.mpr (Nat.zero_lt_of_lt enough)
      simp only [removeloop, if_neg more, Option.bind_some, getnextstateq, link]
      exact taken
    · have behind : L ∈ current :: l ↔ L ∈ l := by
        rw [List.mem_cons, or_iff_right (Ne.symm found)]
      have split : front ++ current :: l = front ++ [current] ++ l := List.append_cons _ _ _
      obtain ⟨changed, q', taken, kept⟩ := ih (split ▸ holds) List.getLast?_concat
        (by simp [passed, Ne.symm found])
      rw [if_congr behind rfl rfl, List.erase_cons_tail (by simpa using found), split,
        List.append_cons front]
      refine ⟨changed, q', fun fuel enough => ?_, kept⟩
      obtain ⟨fuel, rfl⟩ := Nat.exists_eq_add_one.mpr (Nat.zero_lt_of_lt enough)
      simp only [removeloop, if_neg more, Option.bind_some, getnextstateq, link]
      rw [if_neg fun same => found (Option.some.inj same)]
      exact taken fuel (Nat.lt_of_succ_lt_succ enough)

theorem removestateq_holds (holds : Holds registry q l) (L : S) :
    ∃ changed q', (∀ fuel, l.length ≤ fuel → removestateq fuel registry q L =
        some (changed, q', if L ∈ l then some L else none)) ∧
      Holds changed q' (l.erase L) ∧ Changed registry changed l (l.erase L) := by
  cases l with
  | nil =>
    have empty : q.head = none := holds.head
    refine ⟨registry, q, fun fuel _ => ?_, holds, fun _ _ _ => rfl, nofun⟩
    rw [removestateq, empty]
    rfl
  | cons first l =>
    have starts : q.head = some first := holds.head
    by_cases same : L = first
    · subst same
      obtain ⟨changed, q', taken, kept⟩ := dequeuestateq_holds holds
      rw [if_pos List.mem_cons_self, List.erase_cons_head]
      refine ⟨changed, q', fun fuel _ => ?_, kept⟩
      simp only [removestateq, starts, if_pos, taken, List.head?_cons]
    · have alone : [first].getLast? = some first := rfl
      obtain ⟨changed, q', taken, kept⟩ :=
        removeloop_holds holds alone (by simpa using same)
      rw [List.erase_cons_tail (by simpa using Ne.symm same),
        if_congr (List.mem_cons.trans (or_iff_right same)) rfl rfl]
      refine ⟨changed, q', fun fuel enough => ?_, kept⟩
      simp only [removestateq, starts, if_neg same]
      exact taken fuel enough

omit [DecidableEq S] [DecidableEq Q] in
theorem init_represents : Represents (Queues.init : Queues Q S) fun _ => [] :=
  ⟨fun _ => empty_holds _, fun _ _ _ => List.disjoint_nil_left _, fun _ _ => rfl⟩

variable {s : Queues Q S} {lists : Q → List S} {name : Q}

omit [DecidableEq S] in
/-- An operation on one queue leaves the other queues what they were. -/
theorem Represents.store (represents : Represents s lists) (holds : Holds registry' q l)
    (apart : ∀ other, other ≠ name → l.Disjoint (lists other))
    (changed : Changed s.registry registry' (lists name) l) :
    Represents (s.store name (registry', q)) (Function.update lists name l) := by
  have elsewhere (other : Q) (different : other ≠ name) (x : S) (member : x ∈ lists other) :
      registry' x = s.registry x :=
    changed.outside x (fun own => represents.disjoint other name different member own)
      fun new => apart other different new member
  constructor
  · intro other
    by_cases same : other = name
    · subst same
      simp only [Queues.store, Function.update_self]
      exact holds
    · simp only [Queues.store, Function.update_of_ne same]
      exact (represents.queue other).congr (elsewhere other same)
  · intro one two different
    by_cases first : one = name
    · subst first
      rw [Function.update_self, Function.update_of_ne (Ne.symm different)]
      exact apart two (Ne.symm different)
    · rw [Function.update_of_ne first]
      by_cases second : two = name
      · subst second
        rw [Function.update_self]
        exact List.disjoint_comm.mp (apart one different)
      · rw [Function.update_of_ne second]
        exact represents.disjoint one two different
  · intro x nowhere
    have gone : x ∉ l := by
      simpa only [Function.update_self] using nowhere name
    by_cases own : x ∈ lists name
    · exact changed.released x own gone
    · refine (changed.outside x own gone).trans (represents.free x fun other => ?_)
      by_cases same : other = name
      · exact same ▸ own
      · simpa only [Function.update_of_ne same] using nowhere other

omit [DecidableEq S] in
/-- After its states went to another queue, the variable of a queue is initialized. -/
theorem append_represents {name2 : Q} (represents : Represents s lists) (different : name ≠ name2)
    (holds : Holds registry' q (lists name ++ lists name2))
    (same : ∀ x, x ∉ lists name → registry' x = s.registry x) :
    Represents ((s.store name (registry', q)).store name2 (registry', initstateq))
      (Function.update (Function.update lists name (lists name ++ lists name2)) name2 []) := by
  constructor
  · intro other
    by_cases second : other = name2
    · subst second
      simp only [Queues.store, Function.update_self]
      exact empty_holds registry'
    · simp only [Queues.store, Function.update_of_ne second]
      by_cases first : other = name
      · subst first
        simp only [Function.update_self]
        exact holds
      · simp only [Function.update_of_ne first]
        exact (represents.queue other).congr fun x member =>
          same x fun own => represents.disjoint other name first member own
  · have moved (one : Q) (first : one ≠ name) :
        (lists name ++ lists name2).Disjoint (Function.update lists name2 [] one) := by
      by_cases second : one = name2
      · subst second
        rw [Function.update_self]
        exact List.disjoint_nil_right _
      · rw [Function.update_of_ne second, List.disjoint_append_left]
        exact ⟨represents.disjoint name one (Ne.symm first),
          represents.disjoint name2 one (Ne.symm second)⟩
    have kept (one two : Q) (apart : one ≠ two) :
        (Function.update lists name2 [] one).Disjoint (Function.update lists name2 [] two) := by
      by_cases first : one = name2
      · subst first
        rw [Function.update_self]
        exact List.disjoint_nil_left _
      · by_cases second : two = name2
        · subst second
          rw [Function.update_self]
          exact List.disjoint_nil_right _
        · rw [Function.update_of_ne first, Function.update_of_ne second]
          exact represents.disjoint one two apart
    intro one two apart
    rw [Function.update_comm different]
    by_cases first : one = name
    · subst first
      rw [Function.update_self, Function.update_of_ne (Ne.symm apart)]
      exact moved two (Ne.symm apart)
    · rw [Function.update_of_ne first]
      by_cases second : two = name
      · subst second
        rw [Function.update_self]
        exact List.disjoint_comm.mp (moved one apart)
      · rw [Function.update_of_ne second]
        exact kept one two apart
  · intro x nowhere
    have gone : x ∉ lists name ++ lists name2 := by
      simpa only [Function.update_of_ne different, Function.update_self] using nowhere name
    rw [List.mem_append, not_or] at gone
    refine (same x gone.1).trans (represents.free x fun other => ?_)
    by_cases first : other = name
    · exact first ▸ gone.1
    · by_cases second : other = name2
      · exact second ▸ gone.2
      · simpa only [Function.update_of_ne second, Function.update_of_ne first] using nowhere other

/-- The queues do what the lists do, and the loop has ended after as many rounds as a list is
long. -/
theorem exec_represents (represents : Represents s lists) {op : Op Q S}
    (allowed : Allowed lists op) :
    ∃ u bound, (∀ fuel, bound ≤ fuel → exec fuel s op = some (u, (listExec lists op).2)) ∧
      Represents u (listExec lists op).1 := by
  cases op with
  | enqueue name L =>
    have free := represents.free L allowed
    obtain ⟨registry', q', done, holds, same⟩ := appendstateq_holds (represents.queue name)
      (single_holds free) (by simpa using allowed name) (List.cons_ne_nil L [])
    refine ⟨s.store name (registry', q'), 0, fun fuel _ => ?_, represents.store holds ?_ ?_⟩
    · simp only [exec, enqueuestateq, done, Option.map_some]
      rfl
    · intro other different
      rw [List.disjoint_append_left, List.singleton_disjoint]
      exact ⟨represents.disjoint name other (Ne.symm different), allowed other⟩
    · exact ⟨fun x before _ => same x before, fun x member gone =>
        absurd (List.mem_append_left [L] member) gone⟩
  | dequeue name =>
    obtain ⟨registry', q', done, holds, changed⟩ := dequeuestateq_holds (represents.queue name)
    refine ⟨s.store name (registry', q'), 0, fun fuel _ => ?_, represents.store holds ?_ changed⟩
    · simp only [exec, done]
      rfl
    · intro other different x member
      exact represents.disjoint name other (Ne.symm different) (List.mem_of_mem_tail member)
  | remove name L =>
    obtain ⟨registry', q', done, holds, changed⟩ := removestateq_holds (represents.queue name) L
    refine ⟨s.store name (registry', q'), (lists name).length, fun fuel enough => ?_,
      represents.store holds ?_ changed⟩
    · simp only [exec, done fuel enough, Option.map_some]
      rfl
    · intro other different x member
      exact represents.disjoint name other (Ne.symm different) (List.mem_of_mem_erase member)
  | append name name2 =>
    obtain ⟨registry', q', done, holds, same⟩ := appendstateq_holds (represents.queue name)
      (represents.queue name2) (represents.disjoint name name2 allowed.1) allowed.2
    refine ⟨_, 0, fun fuel _ => ?_, append_represents represents allowed.1 holds same⟩
    simp only [exec, done, Option.map_some]
    rfl

/-- Each sequence of operations of states in no queue and of other queues that are not empty does
to the queues what it does to lists. -/
theorem execs_represents (represents : Represents s lists) {ops : List (Op Q S)}
    (allowed : AllAllowed lists ops) :
    ∃ u bound, (∀ fuel, bound ≤ fuel → execs fuel s ops = some (u, (listExecs lists ops).2)) ∧
      Represents u (listExecs lists ops).1 := by
  induction ops generalizing s lists with
  | nil => exact ⟨s, 0, fun _ _ => rfl, represents⟩
  | cons op ops ih =>
    obtain ⟨v, first, step, kept⟩ := exec_represents represents allowed.1
    obtain ⟨u, second, rest, final⟩ := ih kept allowed.2
    refine ⟨u, max first second, fun fuel enough => ?_, final⟩
    rw [Nat.max_le] at enough
    simp only [execs, step fuel enough.1, Option.bind_some, rest fuel enough.2, Option.map_some]
    rfl

theorem queues_are_lists (ops : List (Op Q S)) (allowed : AllAllowed (fun _ => []) ops) :
    ∃ (u : Queues Q S) (bound : ℕ),
      (∀ fuel, bound ≤ fuel →
        execs fuel Queues.init ops = some (u, (listExecs (fun _ => []) ops).2)) ∧
      Represents u (listExecs (fun _ => []) ops).1 :=
  execs_represents init_represents allowed

/-- Three states in one queue, the last one removed and another queue appended. -/
theorem queues_are_lists_five :
    ∃ (u : Queues Bool ℕ) (bound : ℕ),
      (∀ fuel, bound ≤ fuel → execs fuel Queues.init
        [.enqueue true 1, .enqueue true 2, .enqueue true 3, .remove true 3, .enqueue false 3,
          .append true false, .dequeue true] =
        some (u, [none, none, none, some 3, none, none, some 1])) ∧
      Represents u fun name => if name then [2, 3] else [] := by
  obtain ⟨u, bound, done, represents⟩ := queues_are_lists (Q := Bool) (S := ℕ)
    [.enqueue true 1, .enqueue true 2, .enqueue true 3, .remove true 3, .enqueue false 3,
      .append true false, .dequeue true]
    (by simp [AllAllowed, Allowed, listExec])
  refine ⟨u, bound, done, ?_⟩
  have lists : (fun name : Bool => if name then [2, 3] else []) = (listExecs (fun _ => [])
      [.enqueue true 1, .enqueue true 2, .enqueue true 3, .remove true 3, .enqueue false 3,
        .append true false, .dequeue true]).1 := by
    funext name
    cases name <;> rfl
  rw [lists]
  exact represents

end
end Coutil.StateQueue
