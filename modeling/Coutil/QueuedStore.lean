import Coutil.EventRegistry

set_option autoImplicit false

/-! The stored events of `lua/coutil/queued.lua`: one table, `nextof`, in which each event
with stored emissions has the last of them, and each stored emission has the next one. -/
namespace Coutil.QueuedStore
open CircularList EventRegistry

/-- The keys of the table: the events, and the tables made by `table.pack`. -/
inductive Key (V : Type) where
  | event (event : Val V)
  | item (item : ℕ)
  deriving DecidableEq

/-- What is put into the table and taken out of it, in this order. -/
inductive Entry (V : Type) where
  | enqueued (event : Val V) (item : ℕ)
  | dequeued (event : Val V) (item : ℕ)
  deriving DecidableEq

structure Store (V : Type) where
  nextof : Key V → Option ℕ
  packed : ℕ → List (Val V)
  fresh : ℕ
  log : List (Entry V)

section
variable {V : Type}

def Store.empty : Store V := ⟨fun _ => none, fun _ => [], 0, []⟩

def Store.tail (s : Store V) (event : Val V) : Option ℕ := s.nextof (.event event)

def queued (s : Store V) (event : Val V) : Bool := (s.tail event).isSome

def enqueuedFor [DecidableEq V] (event : Val V) (log : List (Entry V)) : List ℕ :=
  log.filterMap fun entry => match entry with
    | .enqueued e item => if e = event then some item else none
    | _ => none

def dequeuedFor [DecidableEq V] (event : Val V) (log : List (Entry V)) : List ℕ :=
  log.filterMap fun entry => match entry with
    | .dequeued e item => if e = event then some item else none
    | _ => none

variable [DecidableEq V]

def Store.set (s : Store V) (key : Key V) (value : Option ℕ) : Store V :=
  { s with nextof := Function.update s.nextof key value }

def Store.pack (s : Store V) (args : List (Val V)) : Store V × ℕ :=
  ({ s with packed := Function.update s.packed s.fresh args, fresh := s.fresh + 1 }, s.fresh)

def Store.link (s : Store V) (event : Val V) (item : ℕ) : Store V :=
  match s.tail event with
  | none => s.set (.item item) (some item)
  | some tail => (s.set (.item item) (s.nextof (.item tail))).set (.item tail) (some item)

/-- The item is linked before the event is set, which fails for values that are no keys. -/
def Store.enqueue (s : Store V) (event : Val V) (item : ℕ) : Except String (Store V) :=
  match event with
  | .nil => .error "index is nil"
  | .nan => .error "index is NaN"
  | _ => .ok { (s.link event item).set (.event event) (some item) with
      log := s.log ++ [.enqueued event item] }

def Store.unlink (s : Store V) (event : Val V) (tail head : ℕ) : Store V :=
  (if head = tail then s.set (.event event) none
    else s.set (.item tail) (s.nextof (.item head))).set (.item head) none

def Store.dequeue (s : Store V) (event : Val V) : Option (ℕ × Store V) :=
  (s.tail event).bind fun tail =>
    (s.nextof (.item tail)).map fun head =>
      (head, { s.unlink event tail head with log := s.log ++ [.dequeued event head] })

/-- The links of the items of one event. -/
def circle (s : Store V) (event : Val V) (items : List ℕ) : Circle ℕ :=
  ⟨fun item => if item ∈ items then s.nextof (.item item) else none, s.tail event⟩

/-- Each event has its items in a circle of its own. -/
structure Holds (s : Store V) (items : Val V → List ℕ) : Prop where
  circles : ∀ e, Represents (circle s e (items e)) (items e)
  apart : ∀ d e i, i ∈ items d → i ∈ items e → d = e
  old : ∀ e, ∀ i ∈ items e, i < s.fresh
  unlinked : ∀ i, (∀ e, i ∉ items e) → s.nextof (.item i) = none

variable {s : Store V} {items : Val V → List ℕ}

omit [DecidableEq V] in
theorem holds_empty : Holds (Store.empty : Store V) (fun _ => []) :=
  ⟨fun _ => ⟨List.nodup_nil, rfl, by simp [circle], nofun⟩, by simp, by simp, fun _ _ => rfl⟩

omit [DecidableEq V] in
theorem Holds.tail_none (holds : Holds s items) (e : Val V) : s.tail e = none ↔ items e = [] :=
  (holds.circles e).tail_none

omit [DecidableEq V] in
theorem Holds.queued (holds : Holds s items) (e : Val V) : queued s e = true ↔ items e ≠ [] := by
  rw [ne_eq, ← holds.tail_none, QueuedStore.queued, Option.isSome_iff_ne_none]

omit [DecidableEq V] in
/-- The circle of an event depends on its own links only. -/
theorem circle_congr {s u : Store V} {e : Val V} {q : List ℕ} (tail : u.tail e = s.tail e)
    (links : ∀ i ∈ q, u.nextof (.item i) = s.nextof (.item i)) : circle u e q = circle s e q := by
  unfold circle
  rw [tail]
  congr 1
  funext i
  by_cases member : i ∈ q
  · simp [member, links i member]
  · simp [member]

omit [DecidableEq V] in
theorem pack_holds (holds : Holds s items) (args : List (Val V)) :
    Holds (s.pack args).1 items where
  circles e := holds.circles e
  apart := holds.apart
  old e i member := Nat.lt_succ_of_lt (holds.old e i member)
  unlinked := holds.unlinked

/-- The items of one event are replaced, and no link of another event changes. -/
theorem Holds.replace {u : Store V} (holds : Holds s items) {e : Val V} {q : List ℕ}
    (circles : Represents (circle u e q) q) (fresh : s.fresh ≤ u.fresh)
    (tails : ∀ d, d ≠ e → u.tail d = s.tail d)
    (links : ∀ d, d ≠ e → ∀ i ∈ items d, u.nextof (.item i) = s.nextof (.item i))
    (mine : ∀ i ∈ q, i < u.fresh ∧ ∀ d, d ≠ e → i ∉ items d)
    (unlinked : ∀ i, i ∉ q → (∀ d, d ≠ e → i ∉ items d) → u.nextof (.item i) = none) :
    Holds u (Function.update items e q) where
  circles d := by
    by_cases same : d = e
    · subst d
      simpa using circles
    · rw [Function.update_of_ne same, circle_congr (tails d same) (links d same)]
      exact holds.circles d
  apart d d' i member member' := by
    by_cases same : d = e
    · subst d
      by_cases same' : d' = e
      · exact same'.symm
      · rw [Function.update_self] at member
        rw [Function.update_of_ne same'] at member'
        exact absurd member' ((mine i member).2 d' same')
    · rw [Function.update_of_ne same] at member
      by_cases same' : d' = e
      · subst d'
        rw [Function.update_self] at member'
        exact absurd member ((mine i member').2 d same)
      · rw [Function.update_of_ne same'] at member'
        exact holds.apart d d' i member member'
  old d i member := by
    by_cases same : d = e
    · subst d
      rw [Function.update_self] at member
      exact (mine i member).1
    · rw [Function.update_of_ne same] at member
      exact (holds.old d i member).trans_le fresh
  unlinked i absent := by
    apply unlinked i
    · simpa using absent e
    · intro d other
      simpa [other] using absent d

theorem enqueue_ok {e : Val V} (key : e ≠ .nil ∧ e ≠ .nan) (item : ℕ) :
    s.enqueue e item = .ok { (s.link e item).set (.event e) (some item) with
      log := s.log ++ [.enqueued e item] } := by
  obtain ⟨nil, nan⟩ := key
  cases e with
  | nil => exact absurd rfl nil
  | nan => exact absurd rfl nan
  | _ => rfl

/-- The links of the other items stay. -/
theorem link_other {e : Val V} {item i : ℕ} (new : i ≠ item)
    (other : s.tail e ≠ some i) : (s.link e item).nextof (.item i) = s.nextof (.item i) := by
  unfold Store.link
  cases tail : s.tail e with
  | none => simp [Store.set, new]
  | some z =>
    have apart : i ≠ z := by
      rintro rfl
      exact other tail
    simp [Store.set, new, apart]

theorem link_tail {e d : Val V} {item : ℕ} : (s.link e item).tail d = s.tail d := by
  unfold Store.link
  cases tail : s.tail e with
  | none => simp [Store.set, Store.tail]
  | some z => simp [Store.set, Store.tail]

/-- The circle with the item linked in is the circle of the library with it pushed. -/
theorem link_represents (holds : Holds s items) {e : Val V} {item : ℕ}
    (absent : item ∉ items e) {u : Store V} (tail : u.tail e = some item)
    (links : ∀ i, u.nextof (.item i) = (s.link e item).nextof (.item i)) :
    Represents (circle u e (items e ++ [item])) (items e ++ [item]) := by
  have before := holds.circles e
  cases last : s.tail e with
  | none =>
    have none := (holds.tail_none e).mp last
    have single : circle u e (items e ++ [item]) = Circle.single item := by
      unfold circle Circle.single
      rw [tail, none]
      congr 1
      funext i
      by_cases same : i = item
      · simp [same, links, Store.link, last, Store.set, Circle.set]
      · simp [same, Circle.set, Circle.empty]
    rw [single, none]
    exact represents_single item
  | some z =>
    have nonempty : items e ≠ [] := by
      intro none
      rw [(holds.tail_none e).mpr none] at last
      cases last
    have inside : z ∈ items e := by
      have ends : (items e).getLast? = some z := before.tail.symm.trans last
      exact List.mem_of_getLast? ends
    have other : z ≠ item := fun same => absent (same ▸ inside)
    have pushed : circle u e (items e ++ [item]) = (circle s e (items e)).push item := by
      unfold circle Circle.push
      rw [tail, last]
      dsimp only [Circle.set]
      congr 1
      funext i
      by_cases same : i = z
      · subst i
        simp [inside, links, Store.link, last, Store.set]
      · by_cases new : i = item
        · subst i
          simp [links, Store.link, last, Store.set, other.symm, inside]
        · by_cases member : i ∈ items e
          · simp [links, Store.link, last, Store.set, same, new, member]
          · simp [same, new, member]
    rw [pushed]
    exact represents_push before nonempty absent

/-- An item that is in no circle becomes the last one of the event. -/
theorem enqueue_holds (holds : Holds s items) {e : Val V} (key : e ≠ .nil ∧ e ≠ .nan) {item : ℕ}
    (old : item < s.fresh) (absent : ∀ d, item ∉ items d) :
    ∃ u, s.enqueue e item = .ok u ∧ Holds u (Function.update items e (items e ++ [item])) ∧
      u.packed = s.packed ∧ u.fresh = s.fresh ∧ u.log = s.log ++ [.enqueued e item] := by
  have same : (s.link e item).packed = s.packed ∧ (s.link e item).fresh = s.fresh := by
    unfold Store.link
    cases s.tail e <;> exact ⟨rfl, rfl⟩
  refine ⟨_, enqueue_ok key item, ?_, same.1, same.2, rfl⟩
  have last : ∀ {i}, s.tail e = some i → i ∈ items e := by
    intro i tail
    have ends : (items e).getLast? = some i := (holds.circles e).tail.symm.trans tail
    exact List.mem_of_getLast? ends
  apply holds.replace
  · apply link_represents holds (absent e)
    · simp [Store.tail, Store.set]
    · intro i
      simp [Store.set]
  · exact same.2.ge
  · intro d other
    have kept : (s.link e item).tail d = s.tail d := link_tail
    simpa [Store.tail, Store.set, other] using kept
  · intro d other i member
    have new : i ≠ item := by
      rintro rfl
      exact absent d member
    have away : s.tail e ≠ some i := fun tail => other (holds.apart d e i member (last tail))
    simpa [Store.set] using link_other new away
  · intro i member
    rcases List.mem_append.mp member with member | member
    · refine ⟨(holds.old e i member).trans_le same.2.ge, fun d other member' => ?_⟩
      exact other (holds.apart d e i member' member)
    · obtain rfl := List.mem_singleton.mp member
      exact ⟨old.trans_le same.2.ge, fun d _ => absent d⟩
  · intro i outside others
    rw [List.mem_append, List.mem_singleton, not_or] at outside
    have away : s.tail e ≠ some i := fun tail => outside.1 (last tail)
    have kept := link_other outside.2 away
    have unlinked := holds.unlinked i fun d => by
      by_cases same : d = e
      · exact same ▸ outside.1
      · exact others d same
    simpa [Store.set] using kept.trans unlinked

theorem dequeue_none (holds : Holds s items) {e : Val V} (empty : items e = []) :
    s.dequeue e = none := by
  simp [Store.dequeue, (holds.tail_none e).mpr empty]

/-- What a circle links when its first item is taken out. -/
theorem unlink_links {e : Val V} {z item i : ℕ} :
    (s.unlink e z item).nextof (.item i) =
      if i = item then none
      else if i = z ∧ item ≠ z then s.nextof (.item item) else s.nextof (.item i) := by
  unfold Store.unlink
  by_cases first : i = item
  · simp [Store.set, first]
  · by_cases single : item = z
    · subst single
      simp [Store.set, first]
    · by_cases last : i = z
      · subst last
        simp [Store.set, first, single]
      · simp [Store.set, first, single, last]

theorem unlink_tail {e d : Val V} {z item : ℕ} :
    (s.unlink e z item).tail d = if d = e ∧ item = z then none else s.tail d := by
  unfold Store.unlink
  by_cases single : item = z
  · by_cases same : d = e
    · simp [Store.set, Store.tail, single, same]
    · simp [Store.set, Store.tail, single, same]
  · simp [Store.set, Store.tail, single]

/-- The circle without its first item is that of the library with it popped. -/
theorem unlink_represents (holds : Holds s items) {e : Val V} {item z : ℕ} {rest : List ℕ}
    (first : items e = item :: rest) (tail : s.tail e = some z)
    (head : s.nextof (.item z) = some item) {u : Store V}
    (tails : u.tail e = (s.unlink e z item).tail e)
    (links : ∀ i, u.nextof (.item i) = (s.unlink e z item).nextof (.item i)) :
    Represents (circle u e rest) rest := by
  have before := holds.circles e
  rw [first] at before
  have inside : z ∈ item :: rest := by
    have ends : (item :: rest).getLast? = some z := before.tail.symm.trans tail
    exact List.mem_of_getLast? ends
  obtain ⟨outside, -⟩ := List.nodup_cons.mp before.nodup
  obtain ⟨popped, pop, after⟩ := represents_pop before
  have next : (circle s e (item :: rest)).next z = some item := by
    simp only [circle, if_pos inside, head]
  have same : circle u e rest = popped := by
    have pop' : (circle s e (item :: rest)).pop = some (item, popped) := pop
    have tail' : (circle s e (item :: rest)).tail = some z := tail
    simp only [Circle.pop, tail', Option.bind_some, next] at pop'
    by_cases single : z = item
    · subst z
      simp only [if_true, Option.some.injEq, Prod.mk.injEq, true_and] at pop'
      rw [← pop']
      unfold circle Circle.set
      congr 1
      · funext i
        by_cases here : i = item
        · simp [here, outside]
        · by_cases member : i ∈ rest
          · simp [here, member, links, unlink_links]
          · simp [here, member]
      · rw [tails, unlink_tail]
        simp
    · simp only [Option.some.injEq, single, if_false, Prod.mk.injEq, true_and] at pop'
      rw [← pop']
      have later : z ∈ rest := by simpa [single] using inside
      have back : item ≠ z := Ne.symm single
      unfold circle Circle.set
      congr 1
      · funext i
        by_cases here : i = item
        · simp [here, outside]
        · by_cases last : i = z
          · subst i
            simp [here, later, links, unlink_links, back]
          · by_cases member : i ∈ rest
            · simp [here, member, links, unlink_links, last]
            · simp [here, member, last]
      · rw [tails, unlink_tail]
        simp [back]
  rw [same]
  exact after

/-- The first item of the event is taken out of its circle. -/
theorem dequeue_holds (holds : Holds s items) {e : Val V} {item : ℕ} {rest : List ℕ}
    (first : items e = item :: rest) :
    ∃ u, s.dequeue e = some (item, u) ∧ Holds u (Function.update items e rest) ∧
      u.packed = s.packed ∧ u.fresh = s.fresh ∧ u.log = s.log ++ [.dequeued e item] := by
  have before := holds.circles e
  rw [first] at before
  obtain ⟨z, tail⟩ := before.exists_tail (by simp)
  have tail : s.tail e = some z := tail
  have inside : z ∈ items e := by
    rw [first]
    have ends : (item :: rest).getLast? = some z := before.tail.symm.trans tail
    exact List.mem_of_getLast? ends
  have head : s.nextof (.item z) = some item := by
    have linked : (circle s e (item :: rest)).next z = some item :=
      chain_head (before.cycle z tail) (by simp)
    simp only [circle] at linked
    split at linked
    · exact linked
    · cases linked
  obtain ⟨outside, -⟩ := List.nodup_cons.mp before.nodup
  have same : (s.unlink e z item).packed = s.packed ∧ (s.unlink e z item).fresh = s.fresh := by
    unfold Store.unlink
    split <;> exact ⟨rfl, rfl⟩
  have taken : s.dequeue e = some (item, { s.unlink e z item with
      log := s.log ++ [.dequeued e item] }) := by
    simp [Store.dequeue, tail, head]
  refine ⟨_, taken, ?_, same.1, same.2, rfl⟩
  have mine : ∀ i ∈ item :: rest, ∀ d, d ≠ e → i ∉ items d := by
    intro i member d other member'
    exact other (holds.apart d e i member' (first ▸ member))
  apply holds.replace
  · exact unlink_represents holds first tail head rfl fun _ => rfl
  · exact same.2.ge
  · intro d other
    exact unlink_tail.trans (by simp [other])
  · intro d other i member
    have notfirst : i ≠ item := fun same => mine item (by simp) d other (same ▸ member)
    have notlast : i ≠ z := fun same => other (holds.apart d e i member (same ▸ inside))
    exact unlink_links.trans (by simp [notfirst, notlast])
  · intro i member
    have member' : i ∈ item :: rest := List.mem_cons_of_mem item member
    exact ⟨(holds.old e i (first ▸ member')).trans_le same.2.ge, mine i member'⟩
  · intro i absent others
    by_cases here : i = item
    · exact unlink_links.trans (by simp [here])
    · have notlast : i ≠ z := by
        rintro rfl
        rw [first] at inside
        simp [here, absent] at inside
      have unlinked := holds.unlinked i fun d => by
        by_cases mine : d = e
        · subst d
          rw [first]
          simpa [here] using absent
        · exact others d mine
      exact unlink_links.trans (by simpa [here, notlast] using unlinked)

end
end Coutil.QueuedStore
