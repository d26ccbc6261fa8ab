import Coutil.Scheduler

set_option autoImplicit false

/-! When a call of `system.run` suspends its task and when it returns. -/
namespace Coutil.SchedulerRun
open Runs Census Scheduler

variable {task : Bool} {s s' : State} {a : Act}

/-- The channel waits are counted, and every operation is; an object that was started again is
counted twice. -/
structure Counted (sched : Sched) : Prop where
  nasync : sched.nasync = sched.count .async
  nactive : sched.active.length ≤ sched.nactive

theorem count_arm (sched : Sched) (op k : Active) :
    (sched.arm op).count k = sched.count k + if op = k then 1 else 0 :=
  census_append id sched.active op k

theorem count_set {sched : Sched} {i : ℕ} {op : Active} (at_i : sched.active[i]? = some op)
    (op' k : Active) :
    census id (sched.active.set i op') k + (if op = k then 1 else 0) =
      sched.count k + if op' = k then 1 else 0 :=
  census_set id at_i op' k

theorem count_ended {sched : Sched} {i : ℕ} {op : Active} (at_i : sched.active[i]? = some op)
    (k : Active) : sched.count k = (sched.ended i).count k + if op = k then 1 else 0 :=
  census_eraseIdx id at_i k

/-- An operation takes the place of another one, neither of them a channel wait. -/
theorem count_set_other {sched : Sched} {i : ℕ} {op op' k : Active}
    (at_i : sched.active[i]? = some op) (old : op ≠ k) (new : op' ≠ k) :
    census id (sched.active.set i op') k = sched.count k := by
  have same := count_set at_i op' k
  rw [if_neg old, if_neg new] at same
  exact same

theorem length_ended {sched : Sched} {i : ℕ} {op : Active} (at_i : sched.active[i]? = some op) :
    (sched.ended i).active.length + 1 = sched.active.length := by
  have bound := (List.getElem?_eq_some_iff.mp at_i).1
  simp only [Sched.ended, List.length_eraseIdx_of_lt bound]
  omega

theorem Counted.arm {sched : Sched} (counted : Counted sched) (op : Active) :
    Counted (sched.arm op) := by
  have added := count_arm sched op .async
  have nactive := counted.nactive
  refine ⟨?_, ?_⟩
  · rw [added]
    simp only [Sched.arm, counted.nasync]
    split_ifs <;> simp
  · simp only [Sched.arm, List.length_append, List.length_singleton]
    omega

theorem Counted.closehdl {sched : Sched} {i : ℕ} {op : Active} (counted : Counted sched)
    (at_i : sched.active[i]? = some op) : Counted (sched.closehdl i op) := by
  have moved := count_set at_i .closing .async
  have nasync := counted.nasync
  refine ⟨?_, ?_⟩
  · change (if op = .async then sched.nasync - 1 else sched.nasync) =
      ((census id (sched.active.set i .closing) .async : ℕ) : ℤ)
    simp only [reduceCtorEq, if_false] at moved
    split_ifs at moved ⊢ <;> omega
  · simpa [Sched.closehdl] using counted.nactive

theorem Counted.ended {sched : Sched} {i : ℕ} {op : Active} (counted : Counted sched)
    (at_i : sched.active[i]? = some op) (other : op ≠ .async) : Counted (sched.ended i) := by
  have nactive := counted.nactive
  have fewer := length_ended at_i
  have same := count_ended at_i .async
  rw [if_neg other] at same
  refine ⟨?_, ?_⟩
  · change sched.nasync = _
    rw [counted.nasync, same, Nat.add_zero]
  · change _ ≤ sched.nactive - 1
    omega

theorem Counted.lapse {sched : Sched} {i : ℕ} {op op' : Active} (counted : Counted sched)
    (at_i : sched.active[i]? = some op) (old : op ≠ .async) (new : op' ≠ .async) :
    Counted (sched.lapse i op') where
  nasync := by
    change sched.nasync = ((census id (sched.active.set i op') .async : ℕ) : ℤ)
    rw [count_set_other at_i old new, counted.nasync]
  nactive := by simpa [Sched.lapse] using counted.nactive

theorem Counted.startagain {sched : Sched} {i : ℕ} {op : Active} (counted : Counted sched)
    (at_i : sched.active[i]? = some op) (old : op ≠ .async) : Counted (sched.startagain i) where
  nasync := by
    change sched.nasync = ((census id (sched.active.set i (.object true)) .async : ℕ) : ℤ)
    rw [count_set_other at_i old (by simp), counted.nasync]
  nactive := by
    have nactive := counted.nactive
    simp only [Sched.startagain, List.length_set]
    omega

theorem Counted.stopagain {sched : Sched} (counted : Counted sched)
    (twice : sched.active.length < sched.nactive) : Counted sched.stopagain :=
  ⟨counted.nasync, Int.le_sub_one_of_lt twice⟩

/-- The counters agree only if every operation is a channel wait. -/
theorem all_async {sched : Sched} (counted : Counted sched) (agree : sched.nasync = sched.nactive) :
    ∀ op ∈ sched.active, op = .async := by
  have some_async : sched.count .async ≤ sched.active.length := List.countP_le_length
  have nasync := counted.nasync
  have nactive := counted.nactive
  have all : sched.count .async = sched.active.length := by omega
  intro op member
  exact of_decide_eq_true (List.countP_eq_length.mp all op member)

theorem count_all_async {sched : Sched} (all : ∀ op ∈ sched.active, op = .async) :
    sched.count .async = sched.active.length :=
  List.countP_eq_length.mpr fun op member => decide_eq_true (all op member)

/-- What the code of the state does to the operations and to the objects that are closed. -/
inductive Edits (sched : Sched) (objects : ℕ) : Act → Sched → ℕ → Prop
  | create : Edits sched objects .create sched objects
  | arm {op : Active} (opened : op ≠ .closing) (live : op.live) :
      Edits sched objects (.arm op) (sched.arm op) objects
  | closehdl {i : ℕ} {op : Active} (at_i : sched.active[i]? = some op)
      (kind : op = .async ∨ ∃ live, op = .handle live) :
      Edits sched objects (.closehdl i) (sched.closehdl i op) objects
  | ended {i : ℕ} {op : Active} (at_i : sched.active[i]? = some op)
      (kind : op = .request ∨ ∃ live, op = .object live) :
      Edits sched objects (.ended i) (sched.ended i) objects
  | lapse {i : ℕ} {op op' : Active} (at_i : sched.active[i]? = some op)
      (kind : (∃ live, op = .handle live ∧ op' = .handle false) ∨
        ∃ live, op = .object live ∧ op' = .object false) :
      Edits sched objects (.lapse i) (sched.lapse i op') objects
  | startagain {i : ℕ} {live : Bool} (at_i : sched.active[i]? = some (.object live)) :
      Edits sched objects (.startagain i) (sched.startagain i) objects
  | stopagain : Edits sched objects .stopagain sched.stopagain objects
  | closeobject : Edits sched objects .closeobject sched (objects + 1)

theorem code_cases (coded : code task s a = some s') :
    ∃ sched objects channeltask,
      s' = { s with sched := sched, objects := objects, channeltask := channeltask } ∧
        Edits s.sched s.objects a sched objects := by
  cases a with
  | create =>
    cases Option.some.inj coded
    exact ⟨_, _, _, rfl, .create⟩
  | arm op =>
    simp only [code, Option.ite_none_right_eq_some, Option.some.injEq] at coded
    obtain ⟨⟨opened, live⟩, rfl⟩ := coded
    exact ⟨_, _, _, rfl, .arm opened live⟩
  | closehdl i =>
    simp only [code] at coded
    split at coded
    · rename_i at_i
      cases Option.some.inj coded
      exact ⟨_, _, _, rfl, .closehdl at_i (Or.inl rfl)⟩
    · rename_i live at_i
      cases Option.some.inj coded
      exact ⟨_, _, _, rfl, .closehdl at_i (Or.inr ⟨live, rfl⟩)⟩
    · cases coded
  | ended i =>
    simp only [code] at coded
    split at coded
    · rename_i at_i
      cases Option.some.inj coded
      exact ⟨_, _, _, rfl, .ended at_i (Or.inl rfl)⟩
    · rename_i live at_i
      cases Option.some.inj coded
      exact ⟨_, _, _, rfl, .ended at_i (Or.inr ⟨live, rfl⟩)⟩
    · cases coded
  | lapse i =>
    simp only [code] at coded
    split at coded
    · rename_i live at_i
      cases Option.some.inj coded
      exact ⟨_, _, _, rfl, .lapse at_i (Or.inl ⟨live, rfl, rfl⟩)⟩
    · rename_i live at_i
      cases Option.some.inj coded
      exact ⟨_, _, _, rfl, .lapse at_i (Or.inr ⟨live, rfl, rfl⟩)⟩
    · cases coded
  | startagain i =>
    simp only [code] at coded
    split at coded
    · rename_i live at_i
      cases Option.some.inj coded
      exact ⟨_, _, _, rfl, .startagain at_i⟩
    · cases coded
  | stopagain =>
    cases Option.some.inj coded
    exact ⟨_, _, _, rfl, .stopagain⟩
  | closeobject =>
    cases Option.some.inj coded
    exact ⟨_, _, _, rfl, .closeobject⟩
  | _ => cases coded

/-- The counters count, and the close callbacks that an iteration has still to make are of
handles that were closed. -/
structure Sound (s : State) : Prop where
  counted : Counted s.sched
  left : ∀ n m, s.phase = .closing n m → n ≤ s.sched.count .closing ∧ m ≤ s.objects

theorem iterate_cases (s : State) :
    (s.alive ∧ ¬s.stop ∧ s.iterate = { s with phase := .polling }) ∨
      (¬(s.alive ∧ ¬s.stop) ∧ s.iterate = s.leave) := by
  unfold State.iterate
  split_ifs with goes
  · exact Or.inl ⟨goes.1, goes.2, rfl⟩
  · exact Or.inr ⟨goes, rfl⟩

theorem leave_phase (s : State) (n m : ℕ) : s.leave.phase ≠ .closing n m := by
  unfold State.leave
  split_ifs <;> simp

theorem Sound.leave (sound : Sound s) : Sound s.leave :=
  ⟨sound.counted, fun n m closing => absurd closing (leave_phase s n m)⟩

theorem Sound.iterate (sound : Sound s) : Sound s.iterate := by
  obtain ⟨-, -, same⟩ | ⟨-, same⟩ := iterate_cases s
  · rw [same]
    exact ⟨sound.counted, fun n m closing => by cases closing⟩
  · rw [same]
    exact sound.leave

theorem Sound.run (sound : Sound s) (mode : Mode) (yieldable chunk : Bool) :
    Sound (s.lcuM_run task mode yieldable chunk) := by
  have called (call : Call) : Sound { s with call := call } := ⟨sound.counted, sound.left⟩
  unfold State.lcuM_run
  simp only
  split_ifs
  · exact ⟨sound.counted, fun n m closing => by cases closing⟩
  · exact Sound.iterate (called _)
  · exact Sound.iterate (called _)

theorem Edits.counted {sched sched' : Sched} {objects objects' : ℕ} (counted : Counted sched)
    (edits : Edits sched objects a sched' objects')
    (twice : a = .stopagain → sched.active.length < sched.nactive) : Counted sched' := by
  cases edits with
  | create => exact counted
  | arm opened live => exact counted.arm _
  | closehdl at_i kind => exact counted.closehdl at_i
  | ended at_i kind =>
    refine counted.ended at_i ?_
    rcases kind with rfl | ⟨live, rfl⟩ <;> simp
  | lapse at_i kind =>
    rcases kind with ⟨live, rfl, rfl⟩ | ⟨live, rfl, rfl⟩
    · exact counted.lapse at_i (by simp) (by simp)
    · exact counted.lapse at_i (by simp) (by simp)
  | startagain at_i => exact counted.startagain at_i (by simp)
  | stopagain => exact counted.stopagain (twice rfl)
  | closeobject => exact counted

/-- The code of the state ends no close callback. -/
theorem Edits.closing {sched sched' : Sched} {objects objects' : ℕ}
    (edits : Edits sched objects a sched' objects') :
    sched.count .closing ≤ sched'.count .closing ∧ objects ≤ objects' := by
  cases edits with
  | arm opened live =>
    rw [count_arm, if_neg opened]
    exact ⟨le_rfl, le_rfl⟩
  | closehdl at_i kind =>
    rename_i i op
    have other : op ≠ .closing := by rcases kind with rfl | ⟨live, rfl⟩ <;> simp
    have more := count_set at_i .closing .closing
    rw [if_neg other, if_pos rfl] at more
    refine ⟨?_, le_rfl⟩
    change _ ≤ census id (sched.active.set i .closing) .closing
    omega
  | ended at_i kind =>
    rename_i i op
    have other : op ≠ .closing := by rcases kind with rfl | ⟨live, rfl⟩ <;> simp
    have same := count_ended at_i .closing
    rw [if_neg other] at same
    exact ⟨same.le, le_rfl⟩
  | lapse at_i kind =>
    rcases kind with ⟨live, rfl, rfl⟩ | ⟨live, rfl, rfl⟩
    · exact ⟨(count_set_other at_i (by simp) (by simp)).ge, le_rfl⟩
    · exact ⟨(count_set_other at_i (by simp) (by simp)).ge, le_rfl⟩
  | startagain at_i => exact ⟨(count_set_other at_i (by simp) (by simp)).ge, le_rfl⟩
  | closeobject => exact ⟨le_rfl, Nat.le_succ _⟩
  | _ => exact ⟨le_rfl, le_rfl⟩

/-- A second `stopudhdl` takes back what an object that was started again is counted for. -/
def Once (s : State) (a : Act) : Prop :=
  a = .stopagain → s.sched.active.length < s.sched.nactive

theorem Sound.code (sound : Sound s) (once : Once s a) (coded : code task s a = some s') :
    Sound s' := by
  obtain ⟨sched, objects, channeltask, rfl, edits⟩ := code_cases coded
  refine ⟨edits.counted sound.counted once, fun n m closing => ?_⟩
  have left := sound.left n m closing
  have more := edits.closing
  exact ⟨left.1.trans more.1, left.2.trans more.2⟩

theorem checksuspend_cases (s : State) :
    (shallsuspend s.sched ∧ s.channeltask ∧ s.checksuspend =
      { s with stop := true, call := { s.call with values := s.call.values + 1 } }) ∨
      (¬(shallsuspend s.sched ∧ s.channeltask) ∧ s.checksuspend = s) := by
  unfold State.checksuspend
  split_ifs with suspends
  · exact Or.inl ⟨suspends.1, suspends.2, rfl⟩
  · exact Or.inr ⟨suspends, rfl⟩

theorem Sound.step (sound : Sound s) (once : Once s a) (stepped : Step task s a s') :
    Sound s' := by
  cases stepped with
  | code active coded => exact sound.code once coded
  | checksuspend inside =>
    obtain ⟨-, -, same⟩ | ⟨-, same⟩ := checksuspend_cases s
    · rw [same]
      exact ⟨sound.counted, sound.left⟩
    · rw [same]
      exact sound
  | halt inside => exact ⟨sound.counted, sound.left⟩
  | run away => exact sound.run _ _ _
  | turn polling =>
    refine ⟨sound.counted, fun n m closing => ?_⟩
    cases closing
    exact ⟨le_refl _, le_refl _⟩
  | closedhdl closing at_i =>
    rename_i i n m
    have fewer := count_ended at_i .closing
    have before := sound.left (n + 1) m closing
    refine ⟨sound.counted.ended at_i (by simp), fun k l closing => ?_⟩
    cases closing
    rw [if_pos rfl] at fewer
    refine ⟨?_, before.2⟩
    change n ≤ (s.sched.ended i).count .closing
    omega
  | closedobject closing =>
    rename_i n m
    have before := sound.left n (m + 1) closing
    refine ⟨sound.counted, fun k l closing => ?_⟩
    cases closing
    exact ⟨before.1, by simp only; omega⟩
  | iterate closing =>
    split_ifs
    · exact sound.iterate
    · exact sound.leave
  | resume parked => exact Sound.iterate ⟨sound.counted, sound.left⟩

theorem shallsuspend_iff (sched : Sched) :
    shallsuspend sched ↔ 0 < sched.nasync ∧ sched.nasync = sched.nactive := by
  simp [shallsuspend]

/-- Once a callback of a suspendable call stopped the loop, the rest of the iteration starts
channel waits alone, and closes no handle in a close callback. -/
structure Held (s : State) (a : Act) : Prop where
  once : Once s a
  starts : s.call.suspendable → 0 < s.call.values → s.phase.inside →
    (∀ op, a = .arm op → op = .async) ∧
      (s.phase ≠ .polling → (∀ i, a ≠ .closehdl i) ∧ a ≠ .closeobject)

/-- The loop of a suspendable call was stopped by `lcuU_checksuspend`. -/
def Halting (s : State) : Prop :=
  s.call.suspendable ∧ 0 < s.call.values ∧ s.phase.inside

/-- What holds while the loop of a suspendable call is to be left. -/
structure Suspending (s : State) : Prop where
  sound : Sound s
  stopped : Halting s → s.stop
  waits : Halting s → ∀ op ∈ s.sched.active, op = .async ∨ op = .closing
  exact : Halting s → s.sched.nactive = s.sched.active.length
  closing : Halting s → ∀ n m, s.phase = .closing n m →
    n = s.sched.count .closing ∧ (m = s.objects ∨ 0 < s.sched.count .async)
  parked : s.phase = .parked → shallsuspend s.sched

theorem Suspending.of_fresh (sound : Sound s) (fresh : ¬Halting s)
    (parked : s.phase = .parked → shallsuspend s.sched) : Suspending s :=
  ⟨sound, fun halting => absurd halting fresh, fun halting => absurd halting fresh,
    fun halting => absurd halting fresh, fun halting => absurd halting fresh, parked⟩

theorem Suspending.code (suspending : Suspending s) (held : Held s a) (active : s.phase ≠ .parked)
    (coded : code task s a = some s') : Suspending s' := by
  have sound := suspending.sound.code held.once coded
  obtain ⟨sched, objects, channeltask, rfl, edits⟩ := code_cases coded
  have parked : s.phase = .parked → shallsuspend sched := fun parked => absurd parked active
  by_cases halting : Halting s
  · have waits := suspending.waits halting
    have same := suspending.exact halting
    have counts := suspending.closing halting
    have stopped := suspending.stopped halting
    obtain ⟨armed, quiet⟩ := held.starts halting.1 halting.2.1 halting.2.2
    have polling (moves : ¬((∀ i, a ≠ .closehdl i) ∧ a ≠ .closeobject)) (n m : ℕ) :
        s.phase ≠ .closing n m := by
      intro closing
      exact moves (quiet (by rw [closing]; simp))
    cases edits with
    | create =>
      exact ⟨sound, fun _ => stopped, fun _ => waits, fun _ => same, fun _ => counts, parked⟩
    | arm opened live =>
      obtain rfl := armed _ rfl
      refine ⟨sound, fun _ => stopped, fun _ k member => ?_, fun _ => ?_, fun _ n m closing => ?_,
        parked⟩
      · obtain old | new := List.mem_append.mp member
        · exact waits k old
        · exact Or.inl (List.mem_singleton.mp new)
      · simp [Sched.arm, same]
      · have before := counts n m closing
        rw [count_arm, count_arm, if_pos rfl]
        exact ⟨by simpa using before.1, Or.inr (by omega)⟩
    | closehdl at_i kind =>
      rename_i i op
      refine ⟨sound, fun _ => stopped, fun _ k member => ?_, fun _ => ?_,
        fun _ n m closing => absurd closing (polling (fun both => both.1 i rfl) n m), parked⟩
      · obtain old | rfl := List.mem_or_eq_of_mem_set member
        · exact waits k old
        · exact Or.inr rfl
      · simpa [Sched.closehdl] using same
    | ended at_i kind =>
      have wait := waits _ (List.mem_of_getElem? at_i)
      rcases kind with rfl | ⟨live, rfl⟩ <;> simp at wait
    | lapse at_i kind =>
      have wait := waits _ (List.mem_of_getElem? at_i)
      rcases kind with ⟨live, rfl, -⟩ | ⟨live, rfl, -⟩ <;> simp at wait
    | startagain at_i =>
      have wait := waits _ (List.mem_of_getElem? at_i)
      simp at wait
    | stopagain =>
      have twice := held.once rfl
      omega
    | closeobject =>
      exact ⟨sound, fun _ => stopped, fun _ => waits, fun _ => same,
        fun _ n m closing => absurd closing (polling (fun both => both.2 rfl) n m), parked⟩
  · exact .of_fresh sound halting parked

theorem Suspending.leave (sound : Sound s)
    (parks : s.call.suspendable → 0 < s.call.values → s.alive → shallsuspend s.sched) :
    Suspending s.leave := by
  refine .of_fresh sound.leave ?_ ?_
  · rintro ⟨-, -, inside⟩
    unfold State.leave at inside
    split_ifs at inside <;> cases inside
  · unfold State.leave
    split_ifs with suspends
    · exact fun _ => parks suspends.1 suspends.2.2 suspends.2.1
    · exact fun parked => by cases parked

/-- The loop of `uv_run` goes on, or it is left. -/
theorem Suspending.iterate (sound : Sound s)
    (stopped : s.call.suspendable → 0 < s.call.values → s.stop)
    (parks : s.call.suspendable → 0 < s.call.values → s.alive → shallsuspend s.sched) :
    Suspending s.iterate := by
  have iterated := sound.iterate
  obtain ⟨-, going, same⟩ | ⟨-, same⟩ := iterate_cases s
  · rw [same] at iterated ⊢
    exact .of_fresh iterated (fun halting => going (stopped halting.1 halting.2.1))
      (fun parked => by cases parked)
  · rw [same]
    exact .leave sound parks

/-- At the end of an iteration only channel waits are left. -/
theorem Suspending.ends (suspending : Suspending s) (closing : s.phase = .closing 0 0)
    (suspendable : s.call.suspendable) (values : 0 < s.call.values) (alive : s.alive) :
    shallsuspend s.sched := by
  have halting : Halting s := ⟨suspendable, values, by simp [closing, Phase.inside]⟩
  obtain ⟨none_closing, objects⟩ := suspending.closing halting 0 0 closing
  have all : ∀ op ∈ s.sched.active, op = .async := by
    intro op member
    refine (suspending.waits halting op member).resolve_right fun closing => ?_
    exact ne_of_census_eq_zero id none_closing.symm member closing
  have counted := suspending.sound.counted
  have same := count_all_async all
  rw [shallsuspend_iff, counted.nasync, suspending.exact halting, same]
  simp only [State.alive, decide_eq_true_eq, List.any_eq_true] at alive
  refine ⟨?_, rfl⟩
  obtain ⟨op, some_left, -⟩ | some_object := alive
  · exact_mod_cast List.length_pos_of_mem some_left
  · obtain none_object | some_left := objects
    · exact absurd none_object.symm some_object
    · omega

theorem Suspending.run (suspending : Suspending s) (mode : Mode) (yieldable chunk : Bool) :
    Suspending (s.lcuM_run task mode yieldable chunk) := by
  have sound := suspending.sound
  have called (call : Call) : Sound { s with call := call } := ⟨sound.counted, sound.left⟩
  unfold State.lcuM_run
  simp only
  split_ifs with suspends suspendable
  · exact .of_fresh ⟨sound.counted, fun n m closing => by cases closing⟩
      (fun halting => by cases halting.2.2) (fun _ => suspends.2)
  · exact .iterate (called _) (fun _ no => absurd no (lt_irrefl 0))
      (fun _ no => absurd no (lt_irrefl 0))
  · exact .iterate (called _) (fun _ no => absurd no (lt_irrefl 0))
      (fun _ no => absurd no (lt_irrefl 0))

theorem Suspending.checksuspend (suspending : Suspending s) : Suspending s.checksuspend := by
  have sound := suspending.sound
  obtain ⟨suspends, -, same⟩ | ⟨-, same⟩ := checksuspend_cases s
  · rw [same]
    rw [shallsuspend_iff] at suspends
    have all := all_async sound.counted suspends.2
    have none_closing : s.sched.count .closing = 0 := by
      refine List.countP_eq_zero.mpr fun op member closing => ?_
      cases (all op member).symm.trans (of_decide_eq_true closing)
    have nasync := sound.counted.nasync
    have count := count_all_async all
    refine ⟨⟨sound.counted, sound.left⟩, fun _ => rfl, fun _ op member => Or.inl (all op member),
      fun _ => by simp only; omega, fun _ n m closing => ?_,
      fun _ => (shallsuspend_iff s.sched).mpr suspends⟩
    have left := sound.left n m closing
    exact ⟨by simp only; omega, Or.inr (by simp only; omega)⟩
  · rw [same]
    exact suspending

theorem Suspending.step (suspending : Suspending s) (held : Held s a)
    (stepped : Step task s a s') : Suspending s' := by
  have sound := suspending.sound.step held.once stepped
  cases stepped with
  | code active coded => exact suspending.code held active coded
  | checksuspend inside => exact suspending.checksuspend
  | halt inside =>
    exact ⟨sound, fun _ => rfl, suspending.waits, suspending.exact, suspending.closing,
      suspending.parked⟩
  | run away => exact suspending.run _ _ _
  | turn polling =>
    have inside : s.phase.inside := by simp [polling, Phase.inside]
    refine ⟨sound, fun halting => suspending.stopped ⟨halting.1, halting.2.1, inside⟩,
      fun halting => suspending.waits ⟨halting.1, halting.2.1, inside⟩,
      fun halting => suspending.exact ⟨halting.1, halting.2.1, inside⟩, fun _ n m closing => ?_,
      fun parked => by cases parked⟩
    cases closing
    exact ⟨rfl, Or.inl rfl⟩
  | closedhdl closing at_i =>
    rename_i i n m
    have inside : s.phase.inside := by simp [closing, Phase.inside]
    refine ⟨sound, fun halting => suspending.stopped ⟨halting.1, halting.2.1, inside⟩,
      fun halting op member => suspending.waits ⟨halting.1, halting.2.1, inside⟩ op
        (List.mem_of_mem_eraseIdx member), fun halting => ?_, fun halting k l closed => ?_,
      fun parked => by cases parked⟩
    · have same := suspending.exact ⟨halting.1, halting.2.1, inside⟩
      have shorter := length_ended at_i
      change s.sched.nactive - 1 = ((s.sched.ended i).active.length : ℤ)
      omega
    cases closed
    have before := suspending.closing ⟨halting.1, halting.2.1, inside⟩ (n + 1) m closing
    have fewer := count_ended at_i .closing
    have same := count_ended at_i .async
    simp at fewer same
    change n = (s.sched.ended i).count .closing ∧
      (m = s.objects ∨ 0 < (s.sched.ended i).count .async)
    omega
  | closedobject closing =>
    rename_i n m
    have inside : s.phase.inside := by simp [closing, Phase.inside]
    refine ⟨sound, fun halting => suspending.stopped ⟨halting.1, halting.2.1, inside⟩,
      fun halting => suspending.waits ⟨halting.1, halting.2.1, inside⟩,
      fun halting => suspending.exact ⟨halting.1, halting.2.1, inside⟩,
      fun halting k l closed => ?_, fun parked => by cases parked⟩
    cases closed
    have before := suspending.closing ⟨halting.1, halting.2.1, inside⟩ n (m + 1) closing
    change n = s.sched.count .closing ∧ (m = s.objects - 1 ∨ 0 < s.sched.count .async)
    omega
  | iterate closing =>
    have ends := suspending.ends closing
    split_ifs
    · refine .iterate suspending.sound (fun suspendable values => ?_) ends
      exact suspending.stopped ⟨suspendable, values, by simp [closing, Phase.inside]⟩
    · exact .leave suspending.sound ends
  | resume parked =>
    exact .iterate ⟨suspending.sound.counted, suspending.sound.left⟩
      (fun _ no => absurd no (lt_irrefl 0)) (fun _ no => absurd no (lt_irrefl 0))

theorem suspending_initial : Suspending initial :=
  .of_fresh ⟨⟨rfl, le_rfl⟩, fun n m closing => by cases closing⟩ (fun halting => by cases halting.2.2)
    (fun parked => by cases parked)

/-- A task is suspended in `system.run` only while all its operations are channel waits, in a
run where the rest of the iteration that decides on it starts nothing else. -/
theorem suspended_only_waiting {acts : List Act}
    (ran : Runs.run (step task) initial acts = some s)
    (along : Along (step task) Held initial acts) (parked : s.phase = .parked) :
    0 < s.sched.nasync ∧ s.sched.nasync = s.sched.nactive ∧
      ∀ op ∈ s.sched.active, op = .async := by
  have suspending : Suspending s :=
    run_invariant_along Suspending Held
      (fun _ _ _ before held stepped => before.step held (step_cases stepped))
      suspending_initial along ran
  have suspends := (shallsuspend_iff s.sched).mp (suspending.parked parked)
  exact ⟨suspends.1, suspends.2, all_async suspending.sound.counted suspends.2⟩

/-- The request of a coroutine ends, and only the wait of another one is left. -/
theorem suspended_only_waiting_left :
    ∃ s, Runs.run (step true) initial [.arm .request, .create, .arm .async, .run .loop true true,
        .ended 0, .checksuspend, .turn, .iterate] = some s ∧ s.phase = .parked ∧
      0 < s.sched.nasync ∧ s.sched.nasync = s.sched.nactive := by
  have ran : Runs.run (step true) initial [.arm .request, .create, .arm .async,
    .run .loop true true, .ended 0, .checksuspend, .turn, .iterate] = some _ := rfl
  have along : Along (step true) Held initial [.arm .request, .create, .arm .async,
      .run .loop true true, .ended 0, .checksuspend, .turn, .iterate] := by
    refine ⟨⟨nofun, fun suspendable => (by cases suspendable)⟩, fun u _ =>
      along_always fun a member v => ⟨?_, ?_⟩⟩
    all_goals
      simp only [List.mem_cons, List.not_mem_nil, or_false] at member
      obtain rfl | rfl | rfl | rfl | rfl | rfl | rfl := member <;> simp [Once]
  have waits := suspended_only_waiting ran along rfl
  exact ⟨_, ran, rfl, waits.1, waits.2.1⟩

/-- Two waits are matched. The first coroutine waits again, which stops the loop; the second
one closes its handle for a timer, which it starts in the close callback. Or an object is
stopped twice: the counters agree although a timer is pending. -/
theorem suspended_with_timer :
    (¬∀ acts s, Runs.run (step true) initial acts = some s → s.phase = .parked →
      0 < s.sched.nasync ∧ s.sched.nasync = s.sched.nactive ∧
        ∀ op ∈ s.sched.active, op = .async) ∧
    ∃ s, Runs.run (step true) initial [.create, .arm (.object true), .ended 0, .stopagain,
        .arm (.handle true), .arm .async, .run .loop true true] = some s ∧ s.phase = .parked ∧
      s.sched.nasync = s.sched.nactive ∧ .handle true ∈ s.sched.active := by
  constructor
  · intro claim
    have ran : Runs.run (step true) initial [.create, .arm .async, .arm .async,
      .run .loop true true, .resume, .checksuspend, .closehdl 1, .checksuspend, .turn,
      .closedhdl 1, .arm (.handle true), .checksuspend, .iterate] = some _ := rfl
    exact absurd (claim _ _ ran rfl).2.1 (by decide)
  · exact ⟨_, rfl, rfl, rfl, by decide⟩

/-- `lcuU_checksuspend` does not stop the loop of a call that is not to be suspended, and no
coroutine waits on a handle that libuv has stopped or is to close. -/
structure Uninterrupted (s : State) (a : Act) : Prop where
  runs : a = .checksuspend → s.call.mode = .loop → ¬s.call.suspendable →
    ¬(shallsuspend s.sched ∧ s.channeltask)
  live : ∀ i, a ≠ .lapse i

/-- Every operation keeps the loop alive. -/
def Live (sched : Sched) : Prop := ∀ op ∈ sched.active, op.live

theorem Edits.live {sched sched' : Sched} {objects objects' : ℕ} (live : Live sched)
    (edits : Edits sched objects a sched' objects') (unlapsed : ∀ i, a ≠ .lapse i) :
    Live sched' := by
  have kept {i : ℕ} {op : Active} (waits : op.live) : ∀ k ∈ sched.active.set i op, k.live := by
    intro k member
    obtain old | rfl := List.mem_or_eq_of_mem_set member
    · exact live k old
    · exact waits
  cases edits with
  | arm opened waits =>
    intro k member
    obtain old | new := List.mem_append.mp member
    · exact live k old
    · exact List.mem_singleton.mp new ▸ waits
  | closehdl at_i kind => exact kept rfl
  | ended at_i kind => exact fun k member => live k (List.mem_of_mem_eraseIdx member)
  | lapse at_i kind => exact absurd rfl (unlapsed _)
  | startagain at_i => exact kept rfl
  | _ => exact live

/-- The loop is stopped by the program, or to suspend the task. -/
structure Completing (s : State) : Prop where
  live : Live s.sched
  idle : ¬s.phase.inside → ¬s.stop
  stopped : s.phase.inside → s.call.mode = .loop → s.stop →
    s.call.halted ∨ (s.call.suspendable ∧ 0 < s.call.values)

theorem Completing.leave (live : Live s.sched) : Completing s.leave := by
  refine ⟨live, fun _ => by simp [State.leave], fun inside => ?_⟩
  unfold State.leave at inside
  split_ifs at inside <;> cases inside

theorem Completing.iterate (live : Live s.sched) : Completing s.iterate := by
  obtain ⟨-, going, same⟩ | ⟨-, same⟩ := iterate_cases s
  · rw [same]
    exact ⟨live, fun outside => absurd rfl outside, fun _ _ stop => absurd stop going⟩
  · rw [same]
    exact .leave live

theorem Completing.step (completing : Completing s) (uninterrupted : Uninterrupted s a)
    (stepped : Step task s a s') : Completing s' := by
  have live := completing.live
  cases stepped with
  | code active coded =>
    obtain ⟨sched, objects, channeltask, rfl, edits⟩ := code_cases coded
    exact ⟨edits.live live uninterrupted.live, completing.idle, completing.stopped⟩
  | checksuspend inside =>
    obtain ⟨suspends, created, same⟩ | ⟨-, same⟩ := checksuspend_cases s
    · rw [same]
      refine ⟨live, fun outside => absurd inside outside,
        fun _ loop _ => Or.inr ⟨?_, Nat.succ_pos _⟩⟩
      by_contra unsuspendable
      exact uninterrupted.runs rfl loop unsuspendable ⟨suspends, created⟩
    · rw [same]
      exact completing
  | halt inside => exact ⟨live, fun outside => absurd inside outside, fun _ _ _ => Or.inl rfl⟩
  | run away =>
    have idle := completing.idle (by simp [away, Phase.inside])
    unfold State.lcuM_run
    simp only
    split_ifs
    · exact ⟨live, fun _ => idle, fun inside => by cases inside⟩
    · exact .iterate live
    · exact .iterate live
  | turn polling =>
    have stopped := completing.stopped (by simp [polling, Phase.inside])
    exact ⟨live, fun outside => absurd rfl outside, fun _ => stopped⟩
  | closedhdl closing at_i =>
    have stopped := completing.stopped (by simp [closing, Phase.inside])
    exact ⟨fun k member => live k (List.mem_of_mem_eraseIdx member),
      fun outside => absurd rfl outside, fun _ => stopped⟩
  | closedobject closing =>
    have stopped := completing.stopped (by simp [closing, Phase.inside])
    exact ⟨live, fun outside => absurd rfl outside, fun _ => stopped⟩
  | iterate closing =>
    split_ifs
    · exact .iterate live
    · exact .leave live
  | resume parked => exact .iterate live

/-- The step is the return of a call of `system.run`. -/
def Returns (s : State) (a : Act) (s' : State) : Prop :=
  s'.phase = .away ∧ (s.phase ≠ .away ∨ ∃ mode yieldable chunk, a = .run mode yieldable chunk)

theorem iterate_returns (returns : s.iterate.phase = .away) :
    s.iterate.sched = s.sched ∧ s.iterate.call = s.call ∧
      (¬s.alive ∨ s.stop ∧ ¬(s.call.suspendable ∧ 0 < s.call.values)) := by
  obtain ⟨-, -, same⟩ | ⟨ended, same⟩ := iterate_cases s
  · rw [same] at returns
    cases returns
  · rw [same] at returns ⊢
    refine ⟨rfl, rfl, ?_⟩
    unfold State.leave at returns
    split_ifs at returns with suspends
    by_cases alive : s.alive
    · refine Or.inr ⟨?_, fun both => suspends ⟨both.1, alive, both.2⟩⟩
      by_contra going
      exact ended ⟨alive, going⟩
    · exact Or.inl alive

theorem active_of_dead (live : Live s.sched) (dead : ¬s.alive) : s.sched.active = [] := by
  simp only [State.alive, decide_eq_true_eq, not_or, not_not, List.any_eq_true, not_exists,
    not_and] at dead
  exact List.eq_nil_iff_forall_not_mem.mpr fun op member => dead.1 op member (live op member)

theorem fresh_returns (live : Live s.sched) (idle : ¬s.stop) (returns : s.iterate.phase = .away) :
    s.iterate.sched.active = [] := by
  obtain ⟨sched, -, dead | ⟨stop, -⟩⟩ := iterate_returns returns
  · rw [sched]
    exact active_of_dead live dead
  · exact absurd stop idle

theorem Completing.returns (completing : Completing s) (stepped : Step task s a s')
    (returns : Returns s a s') (loop : s'.call.mode = .loop) :
    s'.sched.active = [] ∨ s'.call.halted := by
  obtain ⟨away', began⟩ := returns
  have live := completing.live
  cases stepped with
  | code active coded =>
    obtain ⟨sched, objects, channeltask, rfl, edits⟩ := code_cases coded
    obtain inside | ⟨mode, yieldable, chunk, rfl⟩ := began
    · exact absurd away' inside
    · cases coded
  | checksuspend inside =>
    obtain ⟨-, -, same⟩ | ⟨-, same⟩ := checksuspend_cases s
    all_goals
      rw [same] at away'
      change s.phase = .away at away'
      rw [away'] at inside
      cases inside
  | halt inside =>
    change s.phase = .away at away'
    rw [away'] at inside
    cases inside
  | run away =>
    have idle := completing.idle (by simp [away, Phase.inside])
    refine Or.inl ?_
    unfold State.lcuM_run at away' ⊢
    simp only at away' ⊢
    split_ifs at away' ⊢
    · exact fresh_returns live idle away'
    · exact fresh_returns live idle away'
  | turn polling => cases away'
  | closedhdl closing at_i => cases away'
  | closedobject closing => cases away'
  | iterate closing =>
    split_ifs at away' loop ⊢ with looping
    · obtain ⟨sched, call, dead | ⟨stop, unsuspended⟩⟩ := iterate_returns away'
      · rw [sched]
        exact Or.inl (active_of_dead live dead)
      · rw [call]
        have stopped := completing.stopped (by simp [closing, Phase.inside]) looping stop
        exact Or.inr (stopped.resolve_right unsuspended)
    · exact absurd loop looping
  | resume parked =>
    have idle := completing.idle (by simp [parked, Phase.inside])
    exact Or.inl (fresh_returns live idle away')

theorem completing_initial : Completing initial where
  live op member := by cases member
  idle outside := by simp [initial]
  stopped inside := by cases inside

/-- A call of `system.run` in mode `"loop"` returns when no operation is left or `system.halt`
was called in it, in a run where `lcuU_checksuspend` stops the loop of no call but those that
the task can be suspended in, and no coroutine waits on a handle that is stopped. -/
theorem loop_completes {acts : List Act} (ran : Runs.run (step task) initial acts = some s)
    (along : Along (step task) Uninterrupted initial acts) (stepped : step task s a = some s')
    (returns : Returns s a s') (loop : s'.call.mode = .loop) :
    s'.sched.active = [] ∨ s'.call.halted := by
  have completing : Completing s :=
    run_invariant_along Completing Uninterrupted
      (fun _ _ _ before uninterrupted stepped => before.step uninterrupted (step_cases stepped))
      completing_initial along ran
  exact completing.returns (step_cases stepped) returns loop

def Act.lapses : Act → Bool
  | .lapse _ => true
  | _ => false

instance (s : State) (a : Act) : Decidable (Uninterrupted s a) :=
  decidable_of_iff ((a = .checksuspend → s.call.mode = .loop → ¬s.call.suspendable →
      ¬(shallsuspend s.sched ∧ s.channeltask)) ∧ Act.lapses a = false)
    ⟨fun both => ⟨both.1, fun i same => by simp [same, Act.lapses] at both⟩,
      fun un => ⟨un.runs, by cases a <;> first | rfl | exact absurd rfl (un.live _)⟩⟩

/-- A coroutine of a task waits on a channel and is matched, so that the call, which was made
in another one, is through. -/
theorem loop_completes_matched :
    ∃ s s', Runs.run (step true) initial [.create, .arm .async, .run .loop true false,
        .closehdl 0, .checksuspend, .turn, .closedhdl 0] = some s ∧
      step true s .iterate = some s' ∧ Returns s .iterate s' ∧
      (s'.sched.active = [] ∨ s'.call.halted) := by
  have ran : Runs.run (step true) initial [.create, .arm .async, .run .loop true false,
    .closehdl 0, .checksuspend, .turn, .closedhdl 0] = some _ := rfl
  exact ⟨_, _, ran, rfl, ⟨rfl, Or.inl (by decide)⟩,
    loop_completes (a := .iterate) ran (by decide) rfl ⟨rfl, Or.inl (by decide)⟩ rfl⟩

/-- In a coroutine of a task the request of another one ends: the call returns although a third
one still waits on a channel. The timer of `system.suspend(0.0005)` does not repeat: a second
call with it waits for nothing, and the loop is not alive. -/
theorem loop_interrupted :
    (¬∀ acts a s s', Runs.run (step true) initial acts = some s → step true s a = some s' →
      Returns s a s' → s'.call.mode = .loop → s'.sched.active = [] ∨ s'.call.halted) ∧
    ¬∀ acts a s s', Runs.run (step false) initial acts = some s → step false s a = some s' →
      Returns s a s' → s'.call.mode = .loop → s'.sched.active = [] ∨ s'.call.halted := by
  constructor
  · intro claim
    have ran : Runs.run (step true) initial [.create, .arm .async, .arm .request,
      .run .loop true false, .ended 1, .checksuspend, .turn] = some _ := rfl
    exact absurd (claim _ .iterate _ _ ran rfl ⟨rfl, Or.inl (by decide)⟩ rfl) (by decide)
  · intro claim
    have ran : Runs.run (step false) initial [.arm (.handle true), .run .loop false false,
      .lapse 0, .checksuspend, .turn] = some _ := rfl
    exact absurd (claim _ .iterate _ _ ran rfl ⟨rfl, Or.inl (by decide)⟩ rfl) (by decide)

end Coutil.SchedulerRun
