import Coutil.QueuedEvents

set_option autoImplicit false

/-! What an await call returns for an emission that was stored, next to what it returns to a
coroutine that waits when the event is emitted. -/
namespace Coutil.QueuedDelivery
open Runs EventRegistry QueuedStore QueuedEvents EventWake
open EventSystem (Act Call)

section
variable {V : Type}

/-- A border of the table that `table.pack` makes of these values. -/
structure Border (values : List (Val V)) (n : ℕ) : Prop where
  present : n = 0 ∨ values.getD (n - 1) .nil ≠ .nil
  absent : values.getD n .nil = .nil

/-- The length operator gives some border. -/
def LengthOperator (len : List (Val V) → ℕ) : Prop := ∀ values, Border values (len values)

theorem Border.le {values : List (Val V)} {n : ℕ} (border : Border values n) :
    n ≤ values.length := by
  rcases border.present with zero | present
  · omega
  · by_contra long
    apply present
    rw [List.getD_eq_default]
    omega

theorem getD_mem {values : List (Val V)} {n : ℕ} (short : n < values.length) :
    values.getD n .nil ∈ values := by
  rw [List.getD_eq_getElem _ _ short]
  exact List.getElem_mem short

theorem Border.full {values : List (Val V)} {n : ℕ} (border : Border values n)
    (full : .nil ∉ values) : n = values.length := by
  have bound := border.le
  by_contra other
  have short : n < values.length := by omega
  exact full (border.absent ▸ getD_mem short)

theorem Border.trailing {values : List (Val V)} {n : ℕ} (border : Border values n)
    (trailing : values.getLast? = some .nil) : n ≠ values.length := by
  rintro rfl
  obtain ⟨before, rfl⟩ := List.getLast?_eq_some_iff.mp trailing
  rcases border.present with zero | present
  · simp at zero
  · apply present
    simp

variable [DecidableEq V]

/-- The border in front of the first nil. -/
def firstBorder (values : List (Val V)) : ℕ := (values.takeWhile (fun v => v ≠ .nil)).length

theorem firstBorder_lengthOperator : LengthOperator (firstBorder : List (Val V) → ℕ) := by
  intro values
  induction values with
  | nil => exact ⟨Or.inl rfl, rfl⟩
  | cons v values ih =>
    by_cases nil : v = .nil
    · subst v
      exact ⟨Or.inl (by simp [firstBorder]), by simp [firstBorder]⟩
    · have longer : firstBorder (v :: values) = firstBorder values + 1 := by
        simp [firstBorder, nil]
      rw [longer]
      refine ⟨Or.inr ?_, ?_⟩
      · rcases ih.present with zero | present
        · rw [zero]
          exact nil
        · cases size : firstBorder values with
          | zero => exact nil
          | succ n =>
            rw [size] at present
            exact present
      · exact ih.absent

theorem firstBorder_short {values : List (Val V)} (member : .nil ∈ values) :
    firstBorder values ≠ values.length := by
  intro full
  have same : values.takeWhile (fun v => v ≠ .nil) = values :=
    (List.takeWhile_prefix _).eq_of_length full
  rw [List.takeWhile_eq_self_iff] at same
  simpa using same .nil member

/-- The length operator is sure to count every value exactly if none of them is nil. -/
theorem counts_all {values : List (Val V)} :
    (∀ len, LengthOperator len → len values = values.length) ↔ .nil ∉ values := by
  constructor
  · intro counts member
    exact firstBorder_short member (counts firstBorder firstBorder_lengthOperator)
  · intro full len operator
    exact (operator values).full full

end

section
variable {V : Type} [DecidableEq V]

structure Keeps (s u : Store V) : Prop where
  fresh : s.fresh ≤ u.fresh
  packed : ∀ i < s.fresh, u.packed i = s.packed i

omit [DecidableEq V] in
theorem Keeps.refl (s : Store V) : Keeps s s := ⟨le_rfl, fun _ _ => rfl⟩

omit [DecidableEq V] in
theorem Keeps.trans {s u v : Store V} (first : Keeps s u) (second : Keeps u v) : Keeps s v where
  fresh := first.fresh.trans second.fresh
  packed i old := (second.packed i (Nat.lt_of_lt_of_le old first.fresh)).trans (first.packed i old)

theorem link_same (s : Store V) (event : Val V) (item : ℕ) :
    (s.link event item).packed = s.packed ∧ (s.link event item).fresh = s.fresh := by
  unfold Store.link
  split
  · exact ⟨rfl, rfl⟩
  · exact ⟨rfl, rfl⟩

theorem enqueue_same {s u : Store V} {event : Val V} {item : ℕ}
    (enqueued : s.enqueue event item = .ok u) :
    u.packed = s.packed ∧ u.fresh = s.fresh ∧ u.log = s.log ++ [.enqueued event item] := by
  obtain ⟨packed, fresh⟩ := link_same s event item
  cases event with
  | nil => cases enqueued
  | nan => cases enqueued
  | _ =>
    cases enqueued
    exact ⟨packed, fresh, rfl⟩

theorem dequeue_same {s u : Store V} {event : Val V} {item : ℕ}
    (dequeued : s.dequeue event = some (item, u)) :
    u.packed = s.packed ∧ u.fresh = s.fresh ∧ u.log = s.log ++ [.dequeued event item] := by
  obtain ⟨tail, -, dequeued⟩ := Option.bind_eq_some_iff.mp dequeued
  obtain ⟨head, -, same⟩ := Option.map_eq_some_iff.mp dequeued
  cases same
  unfold Store.unlink
  split
  · exact ⟨rfl, rfl, rfl⟩
  · exact ⟨rfl, rfl, rfl⟩

theorem dequeue_keeps {s u : Store V} {event : Val V} {item : ℕ}
    (dequeued : s.dequeue event = some (item, u)) : Keeps s u := by
  obtain ⟨packed, fresh, -⟩ := dequeue_same dequeued
  exact ⟨fresh.ge, fun i _ => congrFun packed i⟩

theorem onlypending_keeps {seen args rest : List (Val V)} {s u : Store V}
    (ended : onlypending seen s args = .ok (u, rest)) : Keeps s u := by
  induction args generalizing seen s rest with
  | nil =>
    cases ended
    exact Keeps.refl _
  | cons event args ih =>
    simp only [onlypending] at ended
    split at ended
    · exact ih ended
    · split at ended
      · split at ended
        · cases ended
        · split at ended
          · cases ended
          · rename_i later
            cases ended
            exact ih later
      · rename_i dequeued
        split at ended
        · cases ended
        · exact (dequeue_keeps dequeued).trans (ih ended)

theorem firstqueued_same {args : List (Val V)} {s u : Store V} {event : Val V} {item : ℕ}
    (found : firstqueued s args = some (event, item, u)) : s.dequeue event = some (item, u) := by
  induction args with
  | nil => cases found
  | cons d args ih =>
    simp only [firstqueued] at found
    split at found
    · rename_i dequeued
      cases found
      exact dequeued
    · exact ih found

section
variable {R T : Type} [DecidableEq T] {L : Lists V T R} {len : List (Val V) → ℕ}
variable {s u : QueuedEvents.State R V T} {fuel : ℕ}

omit [DecidableEq T] in
theorem emit_stores {event : Val V} {args : List (Val V)}
    {outcome : EventSystem.Outcome (EventSystem.State R V T)}
    (emitted : QueuedEvents.emit L s event args outcome = .next u) :
    u.store = s.store ∨ (s.store.pack args).1.enqueue event s.store.fresh = .ok u.store := by
  unfold QueuedEvents.emit at emitted
  split at emitted
  · exact Or.inl (lift_next emitted).2
  · split at emitted
    · exact Or.inl (lift_next emitted).2
    · dsimp only at emitted
      split at emitted
      · cases emitted
      · rename_i store enqueued
        exact Or.inr ((lift_next emitted).2 ▸ enqueued)

omit [DecidableEq V] in
theorem pack_keeps (s : Store V) (args : List (Val V)) :
    Keeps s (s.pack args).1 where
  fresh := Nat.le_succ s.fresh
  packed i old := by
    change Function.update s.packed s.fresh args i = s.packed i
    exact Function.update_of_ne (Nat.ne_of_lt old) args s.packed

omit [DecidableEq T] in
theorem emit_keeps {event : Val V} {args : List (Val V)}
    {outcome : EventSystem.Outcome (EventSystem.State R V T)}
    (emitted : QueuedEvents.emit L s event args outcome = .next u) : Keeps s.store u.store := by
  rcases emit_stores emitted with same | stored
  · exact same ▸ Keeps.refl s.store
  · obtain ⟨packed, fresh, -⟩ := enqueue_same stored
    exact (pack_keeps s.store args).trans ⟨fresh.ge, fun i _ => congrFun packed i⟩

theorem step_keeps {a : Act V T} (stepped : step L len fuel s a = .next u) :
    Keeps s.store u.store := by
  have lifted : ∀ {store : Store V} {o : EventSystem.Outcome (EventSystem.State R V T)},
      Keeps s.store store → State.lift store o = .next u → Keeps s.store u.store := by
    intro store o keeps lifted
    exact (lift_next lifted).2 ▸ keeps
  unfold QueuedEvents.step at stepped
  split at stepped
  · cases a with
    | await event =>
      simp only [QueuedEvents.call, QueuedEvents.await] at stepped
      split at stepped
      · split at stepped
        · rename_i dequeued
          cases stepped
          exact dequeue_keeps dequeued
        · exact lifted (Keeps.refl s.store) stepped
      · cases stepped
    | awaitall args =>
      simp only [QueuedEvents.call, QueuedEvents.awaitall] at stepped
      split at stepped
      · split at stepped
        · cases stepped
        · rename_i ended
          exact lifted (onlypending_keeps ended) stepped
      · cases stepped
    | awaitany args =>
      simp only [QueuedEvents.call, QueuedEvents.awaitany] at stepped
      split at stepped
      · split at stepped
        · rename_i found
          cases stepped
          exact dequeue_keeps (firstqueued_same found)
        · exact lifted (Keeps.refl s.store) stepped
      · cases stepped
    | emitone event args =>
      simp only [QueuedEvents.call] at stepped
      split at stepped
      · exact emit_keeps stepped
      · cases stepped
    | emitall event args =>
      simp only [QueuedEvents.call] at stepped
      split at stepped
      · exact emit_keeps stepped
      · cases stepped
    | _ =>
      simp only [QueuedEvents.call] at stepped
      exact lifted (Keeps.refl s.store) stepped
  · exact lifted (Keeps.refl s.store) stepped

theorem run_keeps {as : List (ℕ × Act V T)} (ran : run (QueuedEvents.next L len) s as = some u) :
    Keeps s.store u.store := by
  refine run_invariant (fun w => Keeps s.store w.store) ?_ (Keeps.refl s.store) ran
  intro v a w keeps stepped
  exact keeps.trans (step_keeps (next_step L len stepped))

theorem stored_packed {e : Val V} {args : List (Val V)} {a : Act V T} {i : ℕ}
    (emits : a = .emitone e args ∨ a = .emitall e args)
    (stepped : step L len fuel s a = .next u)
    (put : u.store.log = s.store.log ++ [.enqueued e i]) :
    i < u.store.fresh ∧ u.store.packed i = args := by
  have emitted : ∃ outcome, QueuedEvents.emit L s e args outcome = .next u := by
    unfold QueuedEvents.step at stepped
    split at stepped
    · rcases emits with rfl | rfl
      · simp only [QueuedEvents.call] at stepped
        split at stepped
        · exact ⟨_, stepped⟩
        · cases stepped
      · simp only [QueuedEvents.call] at stepped
        split at stepped
        · exact ⟨_, stepped⟩
        · cases stepped
    · rw [(lift_next stepped).2] at put
      exact absurd put.symm (by simp)
  obtain ⟨outcome, emitted⟩ := emitted
  rcases emit_stores emitted with same | stored
  · rw [same] at put
    exact absurd put.symm (by simp)
  · obtain ⟨packed, fresh, log⟩ := enqueue_same stored
    rw [log] at put
    have entry : Entry.enqueued e s.store.fresh = .enqueued e i := by
      simpa [Store.pack] using put
    obtain rfl : s.store.fresh = i := by injection entry
    rw [packed, fresh]
    refine ⟨Nat.lt_succ_self s.store.fresh, ?_⟩
    change Function.update s.store.packed s.store.fresh args s.store.fresh = args
    exact Function.update_self s.store.fresh args s.store.packed

theorem consumed_values {e : Val V} {b : Act V T} {i : ℕ}
    (awaits : b = .await e ∨ ∃ args, b = .awaitany args)
    (stepped : step L len fuel s b = .next u)
    (got : u.store.log = s.store.log ++ [.dequeued e i]) :
    u.events.control.values = e :: unpack len (s.store.packed i) := by
  have lifted : ∀ {o : EventSystem.Outcome (EventSystem.State R V T)},
      State.lift s.store o ≠ .next u := by
    intro o lifted
    rw [(lift_next lifted).2] at got
    exact absurd got.symm (by simp)
  have taken : ∀ {d : Val V} {j : ℕ} {store : Store V}, s.store.dequeue d = some (j, store) →
      .next (({ s with store := store } : QueuedEvents.State R V T).deliver
        (d :: unpack len (store.packed j))) = EventSystem.Outcome.next u →
      u.events.control.values = e :: unpack len (s.store.packed i) := by
    intro d j store dequeued same
    obtain ⟨packed, -, log⟩ := dequeue_same dequeued
    cases same
    have entry : Entry.dequeued d j = .dequeued e i := by
      change store.log = _ at got
      rw [log] at got
      simpa using got
    injection entry with event item
    subst event item
    change d :: unpack len (store.packed j) = _
    rw [packed]
  unfold QueuedEvents.step at stepped
  split at stepped
  · rcases awaits with rfl | ⟨args, rfl⟩
    · simp only [QueuedEvents.call, QueuedEvents.await] at stepped
      split at stepped
      · split at stepped
        · rename_i dequeued
          exact taken dequeued stepped
        · exact absurd stepped lifted
      · cases stepped
    · simp only [QueuedEvents.call, QueuedEvents.awaitany] at stepped
      split at stepped
      · split at stepped
        · rename_i found
          exact taken (firstqueued_same found) stepped
        · exact absurd stepped lifted
      · cases stepped
  · exact absurd stepped lifted

theorem wakes_lifted {list : ℕ} {e : Val V} {args : List (Val V)} {t : T} {c : Act V T}
    (wakes : woken L s.events c = some (.emission list e args t)) :
    step L len fuel s c = State.lift s.store (EventSystem.step L fuel s.events c) := by
  obtain ⟨r, frame, pops⟩ := woken_pops wakes
  cases pops with
  | iterate loop nonempty popped => simp only [QueuedEvents.step, loop]
  | emitall idle found popped =>
    simp only [QueuedEvents.step, EventSystem.step, idle, QueuedEvents.call, EventSystem.call,
      QueuedEvents.emit, found]
    split
    · rfl
    · rfl
  | emitone idle found popped =>
    simp only [QueuedEvents.step, EventSystem.step, idle, QueuedEvents.call, EventSystem.call,
      QueuedEvents.emit, found]
    split
    · rfl
    · rfl

/-- The calls that return the values of the emission. -/
def Direct : Call V → Prop
  | .await _ _ | .awaitany _ _ => True
  | _ => False

theorem direct_values {list : ℕ} {e : Val V} {args : List (Val V)} {t : T} {c : Act V T}
    {call : Call V} (wakes : woken L s.events c = some (.emission list e args t))
    (waits : s.events.control.status t = .suspended call) (direct : Direct call)
    (stepped : step L len fuel s c = .next u) :
    u.events.control.running = t ∧ u.events.control.values = e :: args := by
  rw [wakes_lifted wakes] at stepped
  have stepped := (lift_next stepped).1
  obtain ⟨r, frame, pops⟩ := woken_pops wakes
  rcases pops.step fuel with disabled | resumes
  · rw [disabled] at stepped
    cases stepped
  · rw [resumes] at stepped
    simp only [EventSystem.resume, waits] at stepped
    cases call with
    | await d l =>
      simp only [EventSystem.resumed, EventSystem.istoken_listof, if_true] at stepped
      injection stepped with same
      rw [← same]
      exact ⟨rfl, rfl⟩
    | awaitany as regs =>
      simp only [EventSystem.resumed, EventSystem.istoken_listof, if_true] at stepped
      split at stepped
      · cases stepped
      · injection stepped with same
        rw [← same]
        exact ⟨rfl, rfl⟩
    | _ => exact absurd direct not_false

end

section
variable (T : Type) [DecidableEq T]

/-- What `await` or `awaitany` returns when it takes the item of an emission of `e` that was
stored, after whatever happened between the two. -/
inductive FromStore (len : List (Val V) → ℕ) (e : Val V)
    (args : List (Val V)) : List (Val V) → Prop
  | intro {s u w x : QueuedEvents.State (Registry V T) V T} {fuel fuel' i : ℕ} {a b : Act V T}
      {as : List (ℕ × Act V T)} (emits : a = .emitone e args ∨ a = .emitall e args)
      (emitted : step registryLists len fuel s a = .next u)
      (put : u.store.log = s.store.log ++ [.enqueued e i])
      (ran : run (next registryLists len) u as = some w)
      (awaits : b = .await e ∨ ∃ events, b = .awaitany events)
      (awaited : step registryLists len fuel' w b = .next x)
      (got : x.store.log = w.store.log ++ [.dequeued e i]) :
      FromStore len e args x.events.control.values

/-- What is returned to a coroutine that waits in `await` or `awaitany` when `e` is emitted. -/
inductive FromEmission (len : List (Val V) → ℕ) (e : Val V)
    (args : List (Val V)) : List (Val V) → Prop
  | intro {s u : QueuedEvents.State (Registry V T) V T} {fuel list : ℕ} {t : T} {c : Act V T}
      {call : Call V} (waits : s.events.control.status t = .suspended call) (direct : Direct call)
      (wakes : woken registryLists s.events c = some (.emission list e args t))
      (emitted : step registryLists len fuel s c = .next u) :
      FromEmission len e args u.events.control.values

variable {T}

/-- A stored emission is returned as one that was waited for exactly if the length operator
counts all its arguments, which it does not when the last one is nil, and is only sure to do
when none is. -/
theorem stored_as_emitted (len : List (Val V) → ℕ) (operator : LengthOperator len) (e : Val V)
    (args values direct : List (Val V)) (stored : FromStore T len e args values)
    (emitted : FromEmission T len e args direct) :
    (values = direct ↔ len args = args.length) ∧ direct = e :: args ∧
      (args.getLast? = some .nil → values ≠ direct) ∧
      ((∀ len, LengthOperator len → len args = args.length) ↔ .nil ∉ args) := by
  obtain ⟨waits, direct, wakes, emitted⟩ := emitted
  obtain ⟨emits, emitted', put, ran, awaits, awaited, got⟩ := stored
  obtain ⟨-, directly⟩ := direct_values wakes waits direct emitted
  obtain ⟨old, packed⟩ := stored_packed emits emitted' put
  have values := consumed_values awaits awaited got
  rw [(run_keeps ran).packed _ old, packed] at values
  rw [values, directly]
  have same : e :: unpack len args = e :: args ↔ len args = args.length := by
    have bound := (operator args).le
    rw [List.cons_inj_right, unpack, List.take_eq_self_iff]
    omega
  refine ⟨same, rfl, fun trailing => ?_, counts_all⟩
  rw [ne_eq, same]
  exact (operator args).trailing trailing

end

/-- `true` is returned alike from the store and to a coroutine that waits. -/
theorem stored_as_emitted_true :
    FromStore ℕ firstBorder (.ref 7) [.bool true] [.ref 7, .bool true] ∧
      FromEmission ℕ firstBorder (.ref 7) [.bool true] [.ref 7, .bool true] ∧
      (([.ref 7, .bool true] : List (Val ℕ)) = [.ref 7, .bool true] ↔
        firstBorder [(.bool true : Val ℕ)] = 1) := by
  have stored : FromStore ℕ firstBorder (.ref 7) [.bool true] [.ref 7, .bool true] :=
    @FromStore.intro ℕ _ ℕ _ _ _ _ (QueuedEvents.State.init 0) _ _ _ 0 0 0
      (.emitone (.ref 7) [.bool true]) (.await (.ref 7)) [(0, .resume 1 [])] (Or.inl rfl) rfl rfl
      rfl (Or.inl rfl) rfl rfl
  have emitted : FromEmission ℕ firstBorder (.ref 7) [.bool true] [.ref 7, .bool true] :=
    @FromEmission.intro ℕ _ ℕ _ _ _ _ ((run (next registryLists firstBorder)
        (QueuedEvents.State.init 0) [(0, .resume 1 []), (0, .await (.ref 7))]).get rfl) _ 0 0 1
      (.emitone (.ref 7) [.bool true]) (.await (.ref 7) (some 0)) rfl trivial rfl rfl
  exact ⟨stored, emitted,
    (stored_as_emitted firstBorder firstBorder_lengthOperator _ _ _ _ stored emitted).1⟩

/-- A nil is returned to a coroutine that waits, and lost from the store. -/
theorem stored_nil_lost :
    FromStore ℕ firstBorder (.ref 7) [.nil] [.ref 7] ∧
      FromEmission ℕ firstBorder (.ref 7) [.nil] [.ref 7, .nil] ∧
      ([.ref 7] : List (Val ℕ)) ≠ [.ref 7, .nil] := by
  refine ⟨?_, ?_, by decide⟩
  · exact @FromStore.intro ℕ _ ℕ _ _ _ _ (QueuedEvents.State.init 0) _ _ _ 0 0 0
      (.emitone (.ref 7) [.nil]) (.await (.ref 7)) [(0, .resume 1 [])] (Or.inl rfl) rfl rfl
      rfl (Or.inl rfl) rfl rfl
  · exact @FromEmission.intro ℕ _ ℕ _ _ _ _ ((run (next registryLists firstBorder)
        (QueuedEvents.State.init 0) [(0, .resume 1 []), (0, .await (.ref 7))]).get rfl) _ 0 0 1
      (.emitone (.ref 7) [.nil]) (.await (.ref 7) (some 0)) rfl trivial rfl rfl

end
end Coutil.QueuedDelivery
