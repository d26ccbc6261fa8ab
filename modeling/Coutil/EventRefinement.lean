import Coutil.EventPreservation

set_option autoImplicit false

/-! The tables of `event.lua` refine the queues: every step of a program over the
tables is the step over the queues, as long as the loop of `removethread` gets as
many iterations as the list has members. -/
namespace Coutil.EventRefinement
open Runs CircularList EventRegistry EventSystem EventInvariant EventPreservation

section
variable {V T : Type}

structure Refines (r : Registry V T) (q : Queues V T) : Prop where
  listof : r.listof = q.listof
  fresh : r.fresh = q.fresh
  lists : ∀ l, Represents (r.lists l) (q.queue l)

def Fits (fuel : ℕ) (q : Queues V T) : Prop := ∀ l, (q.queue l).length ≤ fuel

/-- Outcomes agree, but a loop may be left when `enough` does not hold. -/
inductive Simulates (enough : Prop) :
    Outcome (State (Registry V T) V T) → Outcome (State (Queues V T) V T) → Prop
  | next {r : Registry V T} {q : Queues V T} (c : Control V T) (h : Refines r q) :
      Simulates enough (.next ⟨r, c⟩) (.next ⟨q, c⟩)
  | raised {r : Registry V T} {q : Queues V T} (c : Control V T) (msg : String) (h : Refines r q) :
      Simulates enough (.raised ⟨r, c⟩ msg) (.raised ⟨q, c⟩ msg)
  | diverged {o : Outcome (State (Queues V T) V T)} (h : ¬ enough) : Simulates enough .diverged o
  | disabled : Simulates enough .disabled .disabled

theorem Simulates.mono {P Q : Prop} (hpq : P → Q) {o : Outcome (State (Registry V T) V T)}
    {o' : Outcome (State (Queues V T) V T)} (h : Simulates Q o o') : Simulates P o o' := by
  cases h with
  | next c h => exact .next c h
  | raised c msg h => exact .raised c msg h
  | diverged h => exact .diverged (fun hp => h (hpq hp))
  | disabled => exact .disabled

theorem refines_empty : Refines (Registry.empty : Registry V T) Queues.empty :=
  ⟨rfl, rfl, fun _ => represents_empty⟩

/-- A list table replaced by one that holds the new queue. -/
theorem Refines.update {r : Registry V T} {q : Queues V T} (h : Refines r q) {l : ℕ}
    {circle : Circle T} {queue : List T} (hc : Represents circle queue) (k : ℕ) :
    Represents (Function.update r.lists l circle k) (Function.update q.queue l queue k) := by
  by_cases hk : k = l
  · subst k
    simpa using hc
  · simpa [hk] using h.lists k

theorem isEmpty_refines {r : Registry V T} {q : Queues V T} (h : Refines r q) (l : ℕ) :
    (r.lists l).tail.isNone = (q.queue l).isEmpty := by
  rw [Bool.eq_iff_iff, Option.isNone_iff_eq_none, List.isEmpty_iff, (h.lists l).tail_none]

theorem unlinkhead_refines [DecidableEq T] {r : Registry V T} {q : Queues V T} (h : Refines r q) (l : ℕ) :
    (unlinkhead r l = none ∧ q.unlinkhead l = none) ∨
    (∃ t r' q', unlinkhead r l = some (t, r') ∧ q.unlinkhead l = some (t, q') ∧ Refines r' q' ∧
      t ∈ q.queue l ∧ ∀ k, (q'.queue k).length ≤ (q.queue k).length) := by
  cases hq : q.queue l with
  | nil =>
    left
    have ht : (r.lists l).tail = none := (h.lists l).tail_none.mpr hq
    exact ⟨by simp [unlinkhead, Circle.pop, ht], by simp [Queues.unlinkhead, hq]⟩
  | cons t rest =>
    right
    have hrep := h.lists l
    rw [hq] at hrep
    obtain ⟨circle, hpop, hc⟩ := represents_pop hrep
    simp only [unlinkhead, hpop, Queues.unlinkhead, hq]
    refine ⟨t, _, _, rfl, rfl, ⟨h.listof, h.fresh, h.update hc⟩, by simp, ?_⟩
    intro k
    by_cases hk : k = l
    · subst k
      simp [hq]
    · simp [hk]

section
variable [DecidableEq T]

/-- The tables and the queues after the same actions. -/
structure Related (s : State (Registry V T) V T) (t : State (Queues V T) V T) : Prop where
  refines : Refines s.registry t.registry
  control : s.control = t.control
  inv : Inv t

/-- A list is in use while it is installed or a running `emitall` has detached it. -/
def Live (s : State (Registry V T) V T) (l : ℕ) (e : Val V) : Prop :=
  s.registry.listof e = some l ∨ (l, e) ∈ detached s.control

def awaiting : Status V → Option (List (Val V))
  | .suspended (.await event _) => some [event]
  | .suspended (.awaitall args _ _) => some args
  | .suspended (.awaitany args _) => some args
  | _ => none

theorem Related.member {s : State (Registry V T) V T} {t : State (Queues V T) V T}
    (h : Related s t) {l : ℕ} {x : T} (hx : (s.registry.lists l).next x ≠ none) :
    ∃ as, awaiting (s.control.status x) = some as ∧ (∃ e, Live s l e) ∧
      ∀ e, Live s l e → e ∈ as ∧ e ≠ .nil := by
  obtain ⟨hr, hc, hi⟩ := h
  have hm : x ∈ t.registry.queue l := ((hr.lists l).keys x).mp hx
  obtain ⟨call, hcall, hreg⟩ := hi.queued l x hm
  have hreg' := (hi.waiting x call hcall).registered _ hreg
  have hlive : ∀ e, Live s l e ↔ t.registry.listof e = some l ∨ (l, e) ∈ detached t.control := by
    intro e
    rw [Live, hr.listof, hc]
  have hevent : ∀ e, Live s l e → t.registry.event l = e := by
    intro e he
    rcases (hlive e).mp he with he | he
    · exact (hi.queues.installed e l he).2.1
    · exact (hi.queues.detached (l, e) he).2.1
  have hargs : awaiting (t.control.status x) = some (args call) := by
    rw [hcall]
    cases call with
    | start => simp [regs] at hreg
    | user => simp [regs] at hreg
    | _ => rfl
  refine ⟨args call, hc ▸ hargs, ⟨t.registry.event l, (hlive _).mpr ?_⟩, ?_⟩
  · exact hi.queues.live l (List.ne_nil_of_mem hm)
  · intro e he
    obtain rfl := hevent e he
    exact ⟨hreg'.arg, hreg'.some⟩

end
variable [DecidableEq V]

theorem detach_refines {r : Registry V T} {q : Queues V T} (h : Refines r q) (e : Val V) :
    Refines (detach r e) (q.detach e) :=
  ⟨by simp [detach, Queues.detach, h.listof], h.fresh, h.lists⟩

variable [DecidableEq T]

theorem add_refines {r : Registry V T} {q : Queues V T} (h : Refines r q) {D : List (ℕ × Val V)}
    (hq : WellQueued q D) (e : Val V) (t : T) :
    (∃ msg, addthread r e t = .error msg ∧ q.add e t = .error msg) ∨
    (∃ r' q' l, addthread r e t = .ok (r', l) ∧ q.add e t = .ok (q', l) ∧ Refines r' q') := by
  unfold addthread Queues.add
  rw [h.listof]
  cases hl : q.listof e with
  | none =>
    have hnew : Refines
        (⟨Function.update q.listof e (some r.fresh),
          Function.update r.lists r.fresh (Circle.single t), r.fresh + 1⟩ : Registry V T)
        ⟨Function.update q.listof e (some q.fresh), Function.update q.queue q.fresh [t],
          Function.update q.event q.fresh e, q.fresh + 1⟩ := by
      rw [h.fresh]
      exact ⟨rfl, rfl, h.update (represents_single t)⟩
    cases e with
    | nil => exact Or.inl ⟨_, rfl, rfl⟩
    | nan => exact Or.inl ⟨_, rfl, rfl⟩
    | _ => exact Or.inr ⟨_, _, some r.fresh, rfl, by rw [h.fresh], hnew⟩
  | some l =>
    right
    by_cases ht : t ∈ q.queue l
    · have hn : (r.lists l).next t ≠ none := ((h.lists l).keys t).mpr ht
      simp only [hn, if_false, ht, if_true]
      exact ⟨r, q, none, rfl, rfl, h⟩
    · have hn : (r.lists l).next t = none := (h.lists l).next_none.mpr ht
      simp only [hn, if_true, ht, if_false]
      refine ⟨_, _, some l, rfl, rfl, rfl, h.fresh, ?_⟩
      exact h.update (represents_push (h.lists l) (hq.installed e l hl).2.2 ht)

theorem remove_refines {r : Registry V T} {q : Queues V T} (h : Refines r q) (fuel : ℕ)
    (e : Val V) (t : T) (l : ℕ) :
    (∃ r', removethread fuel r e t l = some r' ∧ Refines r' (q.remove e t l)) ∨
    (removethread fuel r e t l = none ∧ fuel < (q.queue l).length) := by
  obtain ⟨hsome, hend⟩ := represents_remove (x := t) (h.lists l) fuel
  cases hr : (r.lists l).remove fuel t with
  | none =>
    right
    refine ⟨by simp only [removethread, hr], ?_⟩
    by_contra hf
    obtain ⟨r', hr'⟩ := hend (not_lt.mp hf)
    rw [hr] at hr'
    cases hr'
  | some circle =>
    left
    simp only [removethread, hr]
    refine ⟨_, rfl, ?_, h.fresh, h.update (hsome circle hr)⟩
    simp only [Queues.remove, (h.lists l).alone, h.listof]

theorem unlinkone_refines {r : Registry V T} {q : Queues V T} (h : Refines r q) (e : Val V)
    (l : ℕ) :
    (unlinkone r e l = none ∧ q.unlinkone e l = none) ∨
    (∃ t r' q', unlinkone r e l = some (t, r') ∧ q.unlinkone e l = some (t, q') ∧ Refines r' q' ∧
      t ∈ q.queue l ∧ ∀ k, (q'.queue k).length ≤ (q.queue k).length) := by
  cases hq : q.queue l with
  | nil =>
    left
    have ht : (r.lists l).tail = none := (h.lists l).tail_none.mpr hq
    exact ⟨by simp [unlinkone, Circle.pop, ht], by simp [Queues.unlinkone, hq]⟩
  | cons t rest =>
    right
    have hrep := h.lists l
    rw [hq] at hrep
    have htail : (r.lists l).tail = some t ↔ rest = [] := by
      rw [hrep.tail]
      cases rest with
      | nil => simp
      | cons b rest =>
        simp only [List.getLast?_cons_cons, reduceCtorEq, iff_false]
        intro hl
        exact (List.nodup_cons.mp hrep.nodup).1 (List.mem_of_getLast? hl)
    obtain ⟨circle, hpop, hc⟩ := represents_pop hrep
    simp only [unlinkone, hpop, Queues.unlinkone, hq]
    refine ⟨t, _, _, rfl, rfl, ⟨?_, h.fresh, h.update hc⟩, by simp, ?_⟩
    · simp only [htail, h.listof]
    · intro k
      by_cases hk : k = l
      · subst k
        simp [hq]
      · simp [hk]

theorem remove_fits {fuel : ℕ} {q : Queues V T} (h : Fits fuel q) (e : Val V) (t : T) (l : ℕ) :
    Fits fuel (q.remove e t l) := by
  intro k
  rw [remove_queue]
  split
  · exact (List.length_erase_le ..).trans (h l)
  · exact h k

theorem cancel_refines {r : Registry V T} {q : Queues V T} (h : Refines r q) (fuel : ℕ) (t : T)
    (rs : List (Val V × ℕ)) :
    (∃ r' q', cancel registryLists fuel r t rs = some r' ∧
      cancel queueLists fuel q t rs = some q' ∧ Refines r' q') ∨
    (cancel registryLists fuel r t rs = none ∧ ¬ Fits fuel q) := by
  induction rs generalizing r q with
  | nil => exact Or.inl ⟨r, q, rfl, rfl, h⟩
  | cons p rs ih =>
    obtain ⟨e, l⟩ := p
    rcases remove_refines h fuel e t l with ⟨r', hr, hr'⟩ | ⟨hr, hf⟩
    · have hc : cancel registryLists fuel r t ((e, l) :: rs) =
          cancel registryLists fuel r' t rs := by
        simp [cancel, registryLists, hr]
      rw [hc]
      rcases ih hr' with hh | ⟨hn, hf⟩
      · exact Or.inl hh
      · exact Or.inr ⟨hn, fun hfit => hf (remove_fits hfit e t l)⟩
    · right
      refine ⟨by simp [cancel, registryLists, hr], fun hfit => ?_⟩
      exact absurd (hfit l) (not_le.mpr hf)

theorem register_refines {r : Registry V T} {q : Queues V T} (h : Refines r q)
    {D : List (ℕ × Val V)} (hq : WellQueued q D) (t : T) (as : List (Val V)) :
    (∃ r' q' msg, register registryLists t r as = .error (r', msg) ∧
      register queueLists t q as = .error (q', msg) ∧ Refines r' q') ∨
    (∃ r' q' rs, register registryLists t r as = .ok (r', rs) ∧
      register queueLists t q as = .ok (q', rs) ∧ Refines r' q') := by
  induction as generalizing r q with
  | nil => exact Or.inr ⟨r, q, [], rfl, rfl, h⟩
  | cons e as ih =>
    by_cases he : e = .nil
    · simpa only [register, he, if_true] using ih h hq
    · simp only [register, he, if_false]
      rcases add_refines h hq e t with ⟨msg, hr, ha⟩ | ⟨r', q', l, hr, ha, h'⟩
      · left
        simp only [registryLists, queueLists, hr, ha]
        exact ⟨r, q, msg, rfl, rfl, h⟩
      · cases l with
        | none =>
          obtain ⟨rfl, -⟩ := add_known ha
          simp only [registryLists, queueLists, hr, ha]
          exact ih h' hq
        | some l =>
          simp only [registryLists, queueLists, hr, ha]
          rcases ih h' (add_queues hq ha) with ⟨r₂, q₂, msg, hr₂, hq₂, h₂⟩ | ⟨r₂, q₂, rs, hr₂, hq₂, h₂⟩
          · left
            simp only [registryLists, queueLists] at hr₂ hq₂
            simp only [hr₂, hq₂]
            exact ⟨r₂, q₂, msg, rfl, rfl, h₂⟩
          · right
            simp only [registryLists, queueLists] at hr₂ hq₂
            simp only [hr₂, hq₂]
            exact ⟨r₂, q₂, (e, l) :: rs, rfl, rfl, h₂⟩

theorem resumed_refines {r : Registry V T} {q : Queues V T} (h : Refines r q) (fuel : ℕ)
    (c : Control V T) (call : Call V) (vs : List (Val V)) :
    Simulates (Fits fuel q) (resumed registryLists fuel ⟨r, c⟩ call vs)
      (resumed queueLists fuel ⟨q, c⟩ call vs) := by
  cases call with
  | start => exact .next _ h
  | user => exact .next _ h
  | await e list =>
    simp only [resumed]
    split
    · exact .next _ h
    · cases list with
      | none => exact .raised _ _ h
      | some l =>
        rcases remove_refines h fuel e c.running l with ⟨r', hr, h'⟩ | ⟨hr, hf⟩
        · simp only [registryLists, hr, queueLists]
          exact .next _ h'
        · simp only [registryLists, hr]
          exact .diverged (fun hfit => absurd (hfit l) (not_le.mpr hf))
  | awaitall as rs count =>
    simp only [resumed]
    split
    · rcases cancel_refines h fuel c.running rs with ⟨r', q', hr, hq, h'⟩ | ⟨hr, hf⟩
      · simp only [hr, hq]
        exact .next _ h'
      · simp only [hr]
        exact .diverged hf
    · split <;> exact .next _ h
  | awaitany as rs =>
    simp only [resumed]
    rcases cancel_refines h fuel c.running rs with ⟨r', q', hr, hq, h'⟩ | ⟨hr, hf⟩
    · simp only [hr, hq]
      split <;> exact .next _ h'
    · simp only [hr]
      exact .diverged hf

theorem resume_refines {r : Registry V T} {q : Queues V T} (h : Refines r q) (fuel : ℕ)
    (c : Control V T) (co : T) (frame : Frame V) (vs : List (Val V)) :
    Simulates (Fits fuel q) (resume registryLists fuel ⟨r, c⟩ co frame vs)
      (resume queueLists fuel ⟨q, c⟩ co frame vs) := by
  simp only [resume]
  split
  · exact resumed_refines h fuel _ _ _
  · exact .next _ h
  · exact .next _ h

theorem emitnext_refines {r : Registry V T} {q : Queues V T} (h : Refines r q) (fuel : ℕ)
    (c : Control V T) (l : ℕ) (e : Val V) (as : List (Val V)) :
    Simulates (Fits fuel q) (emitnext registryLists fuel ⟨r, c⟩ l e as)
      (emitnext queueLists fuel ⟨q, c⟩ l e as) := by
  rcases unlinkhead_refines h l with ⟨hr, hq⟩ | ⟨t, r', q', hr, hq, h', -, hlen⟩
  · simp only [emitnext, registryLists, hr, queueLists, hq]
    exact .raised _ _ h
  · have hs := resume_refines h' fuel c t (.emitall l e as) (.listof :: e :: as)
    simp only [emitnext, registryLists, hr, queueLists, hq]
    exact hs.mono (fun hfit k => (hlen k).trans (hfit k))

theorem emitall_refines {r : Registry V T} {q : Queues V T} (h : Refines r q) (fuel : ℕ)
    (c : Control V T) (e : Val V) (as : List (Val V)) :
    Simulates (Fits fuel q) (emitall registryLists fuel ⟨r, c⟩ e as)
      (emitall queueLists fuel ⟨q, c⟩ e as) := by
  have hfind : registryLists.find r e = queueLists.find q e := congrFun h.listof e
  simp only [emitall, hfind]
  split
  · exact .next _ h
  · exact emitnext_refines (detach_refines h e) fuel c _ e as

theorem emitone_refines {r : Registry V T} {q : Queues V T} (h : Refines r q) (fuel : ℕ)
    (c : Control V T) (e : Val V) (as : List (Val V)) :
    Simulates (Fits fuel q) (emitone registryLists fuel ⟨r, c⟩ e as)
      (emitone queueLists fuel ⟨q, c⟩ e as) := by
  have hfind : registryLists.find r e = queueLists.find q e := congrFun h.listof e
  simp only [emitone, hfind]
  split
  · exact .next _ h
  · rename_i l _
    rcases unlinkone_refines h e l with ⟨hr, hq⟩ | ⟨t, r', q', hr, hq, h', -, hlen⟩
    · simp only [registryLists, hr, queueLists, hq]
      exact .raised _ _ h
    · have hs := resume_refines h' fuel c t .emitone (.listof :: e :: as)
      simp only [registryLists, hr, queueLists, hq]
      exact hs.mono (fun hfit k => (hlen k).trans (hfit k))

theorem await_refines {r : Registry V T} {q : Queues V T} (h : Refines r q) {c : Control V T}
    (hq : WellQueued q (detached c)) (P : Prop) (e : Val V) :
    Simulates P (await registryLists ⟨r, c⟩ e) (await queueLists ⟨q, c⟩ e) := by
  simp only [await]
  split
  · rcases add_refines h hq e c.running with ⟨msg, hr, ha⟩ | ⟨r', q', l, hr, ha, h'⟩
    · simp only [registryLists, hr, queueLists, ha]
      exact .raised _ _ h
    · simp only [registryLists, hr, queueLists, ha]
      exact .next _ h'
  · exact .raised _ _ h

theorem awaitall_refines {r : Registry V T} {q : Queues V T} (h : Refines r q) {c : Control V T}
    (hq : WellQueued q (detached c)) (P : Prop) (as : List (Val V)) :
    Simulates P (awaitall registryLists ⟨r, c⟩ as) (awaitall queueLists ⟨q, c⟩ as) := by
  simp only [awaitall]
  split
  · rcases register_refines h hq c.running as with ⟨r', q', msg, hr, ha, h'⟩ | ⟨r', q', rs, hr, ha, h'⟩
    · simp only [hr, ha]
      exact .raised _ _ h'
    · simp only [hr, ha]
      split <;> exact .next _ h'
  · exact .raised _ _ h

theorem awaitany_refines {r : Registry V T} {q : Queues V T} (h : Refines r q) {c : Control V T}
    (hq : WellQueued q (detached c)) (P : Prop) (as : List (Val V)) :
    Simulates P (awaitany registryLists ⟨r, c⟩ as) (awaitany queueLists ⟨q, c⟩ as) := by
  simp only [awaitany]
  split
  · rcases register_refines h hq c.running as with ⟨r', q', msg, hr, ha, h'⟩ | ⟨r', q', rs, hr, ha, h'⟩
    · simp only [hr, ha]
      exact .raised _ _ h'
    · simp only [hr, ha]
      split
      · exact .raised _ _ h'
      · exact .next _ h'
  · exact .raised _ _ h

theorem call_refines {r : Registry V T} {q : Queues V T} (h : Refines r q) {c : Control V T}
    (hq : WellQueued q (detached c)) (fuel : ℕ) (a : Act V T) :
    Simulates (Fits fuel q) (call registryLists fuel ⟨r, c⟩ a) (call queueLists fuel ⟨q, c⟩ a) := by
  cases a with
  | await e =>
    simp only [call]
    split
    · exact await_refines h hq _ e
    · exact .disabled
  | awaitall as =>
    simp only [call]
    split
    · exact awaitall_refines h hq _ as
    · exact .disabled
  | awaitany as =>
    simp only [call]
    split
    · exact awaitany_refines h hq _ as
    · exact .disabled
  | emitone e as =>
    simp only [call]
    split
    · exact emitone_refines h fuel c e as
    · exact .disabled
  | emitall e as =>
    simp only [call]
    split
    · exact emitall_refines h fuel c e as
    · exact .disabled
  | resume co as =>
    simp only [call]
    split
    · exact resume_refines h fuel c co .user as
    · exact .disabled
  | yield as =>
    simp only [call]
    split
    · exact .next _ h
    · exact .disabled
  | finish ok as =>
    simp only [call]
    split
    · exact .next _ h
    · exact .disabled
  | iterate => exact .disabled

theorem step_refines {r : Registry V T} {q : Queues V T} (h : Refines r q) {c : Control V T}
    (hq : WellQueued q (detached c)) (fuel : ℕ) (a : Act V T) :
    Simulates (Fits fuel q) (step registryLists fuel ⟨r, c⟩ a) (step queueLists fuel ⟨q, c⟩ a) := by
  simp only [step]
  split
  · exact call_refines h hq fuel a
  · rename_i l e as _
    cases a with
    | iterate =>
      have he : registryLists.isEmpty r l = queueLists.isEmpty q l := isEmpty_refines h l
      simp only [he]
      split
      · exact .next _ h
      · exact emitnext_refines h fuel c l e as
    | _ => exact .disabled

theorem next_related {s u : State (Registry V T) V T} {t : State (Queues V T) V T}
    (h : Related s t) {a : ℕ × Act V T} (hu : next registryLists s a = some u) :
    ∃ v, next queueLists t a = some v ∧ Related u v := by
  obtain ⟨r, c⟩ := s
  obtain ⟨q, c'⟩ := t
  obtain ⟨hr, hc, hi⟩ := h
  obtain rfl : c = c' := hc
  have hs := step_refines hr hi.queues a.1 a.2
  simp only [next] at hu ⊢
  cases ho : step registryLists a.1 ⟨r, c⟩ a.2 with
  | next u' =>
    rw [ho] at hu hs
    cases hu
    cases ho' : step queueLists a.1 ⟨q, c⟩ a.2 with
    | next v =>
      rw [ho'] at hs
      cases hs with
      | next c h => exact ⟨_, rfl, h, rfl, step_inv hi ho'⟩
    | _ =>
      rw [ho'] at hs
      cases hs
  | _ =>
    rw [ho] at hu
    cases hu

theorem reachable_related {main : T} {acts : List (ℕ × Act V T)} {s : State (Registry V T) V T}
    (h : run (next registryLists) ⟨Registry.empty, Control.init main⟩ acts = some s) :
    ∃ t, run (next queueLists) ⟨Queues.empty, Control.init main⟩ acts = some t ∧ Related s t := by
  refine run_simulation Related ?_ ⟨refines_empty, rfl, init_inv main⟩ h
  intro s t a u hr hu
  exact next_related hr hu

/-- What each edit of the tables does to the queues they hold. -/
structure FirstInFirstOut (r : Registry V T) (q : Queues V T) : Prop where
  listof : r.listof = q.listof
  cycles : ∀ l, Represents (r.lists l) (q.queue l)
  installed : ∀ e l, r.listof e = some l → q.queue l ≠ []
  pending : ∀ e, pending r e = true ↔ ∃ l, q.listof e = some l ∧ q.queue l ≠ []
  appends : ∀ e t r' l, addthread r e t = .ok (r', some l) →
    ∀ k, Represents (r'.lists k) (Function.update q.queue l (q.queue l ++ [t]) k)
  deletes : ∀ e t l fuel, (q.queue l).length ≤ fuel → ∃ r', removethread fuel r e t l = some r' ∧
    ∀ k, Represents (r'.lists k) (Function.update q.queue l ((q.queue l).erase t) k)
  first : ∀ e l, r.listof e = some l → ∃ t rest r', q.queue l = t :: rest ∧
    unlinkone r e l = some (t, r') ∧
    ∀ k, Represents (r'.lists k) (Function.update q.queue l rest k)

theorem first_in_first_out {r : Registry V T} {q : Queues V T} (h : Refines r q)
    {D : List (ℕ × Val V)} (hq : WellQueued q D) : FirstInFirstOut r q where
  listof := h.listof
  cycles := h.lists
  installed e l hl := (hq.installed e l (h.listof ▸ hl)).2.2
  pending e := by
    rw [EventRegistry.pending, h.listof, Option.isSome_iff_exists]
    constructor
    · rintro ⟨l, hl⟩
      exact ⟨l, hl, (hq.installed e l hl).2.2⟩
    · rintro ⟨l, hl, -⟩
      exact ⟨l, hl⟩
  appends e t r' l ha := by
    rcases add_refines h hq e t with ⟨msg, hr, -⟩ | ⟨r₁, q₁, l₁, hr, hadd, h₁⟩
    · rw [ha] at hr
      cases hr
    · rw [ha] at hr
      cases hr
      have hqueue : q₁.queue = Function.update q.queue l (q.queue l ++ [t]) := by
        rcases add_new hadd with ⟨-, -, rfl, rfl⟩ | ⟨-, -, rfl⟩
        · simp [hq.unused q.fresh le_rfl]
        · rfl
      intro k
      exact hqueue ▸ h₁.lists k
  deletes e t l fuel hf := by
    rcases remove_refines h fuel e t l with ⟨r', hr, h'⟩ | ⟨-, hlt⟩
    · exact ⟨r', hr, h'.lists⟩
    · exact absurd hf (not_le.mpr hlt)
  first e l hl := by
    obtain ⟨-, -, hne⟩ := hq.installed e l (h.listof ▸ hl)
    obtain ⟨t, rest, hrest⟩ := List.exists_cons_of_ne_nil hne
    rcases unlinkone_refines h e l with ⟨-, hn⟩ | ⟨t', r', q', hr, hu, h', -⟩
    · simp [Queues.unlinkone, hrest] at hn
    · simp only [Queues.unlinkone, hrest, Option.some.injEq, Prod.mk.injEq] at hu
      obtain ⟨rfl, rfl⟩ := hu
      exact ⟨t, rest, r', hrest, hr, h'.lists⟩

/-- After any sequence of calls, re-entrant ones included, the tables hold the
first-in first-out queues reached by the same calls, and with one iteration for each
member of a list no loop of `removethread` is left. -/
theorem registry_refines_queues (main : T) (acts : List (ℕ × Act V T))
    (s : State (Registry V T) V T)
    (h : run (next registryLists) ⟨Registry.empty, Control.init main⟩ acts = some s) :
    ∃ q : Queues V T,
      run (next queueLists) ⟨Queues.empty, Control.init main⟩ acts = some ⟨q, s.control⟩ ∧
      FirstInFirstOut s.registry q ∧
      (∀ fuel a, (∀ l, (q.queue l).length ≤ fuel) → step registryLists fuel s a ≠ .diverged) := by
  obtain ⟨⟨q, c⟩, hrun, hrel⟩ := reachable_related h
  obtain ⟨r, c'⟩ := s
  obtain ⟨hr, hc, hi⟩ := hrel
  obtain rfl : c' = c := hc
  refine ⟨q, hrun, first_in_first_out hr hi.queues, ?_⟩
  intro fuel a hfit hdiv
  have hs := step_refines hr hi.queues fuel a
  rw [hdiv] at hs
  cases hs with
  | diverged hn => exact hn hfit

theorem registry_refines_queues_resumed :
    ∃ s : State (Registry ℕ ℕ) ℕ ℕ,
      run (next registryLists) ⟨Registry.empty, Control.init 0⟩
        [(0, .resume 1 []), (0, .await (.ref 7)), (0, .resume 2 []), (0, .awaitall [.ref 7, .ref 8]),
          (0, .emitone (.ref 7) []), (0, .await (.ref 7)), (2, .resume 2 [])] = some s ∧
      (pending s.registry (.ref 7), pending s.registry (.ref 8)) = (true, false) ∧
      ∃ q : Queues ℕ ℕ, FirstInFirstOut s.registry q := by
  have hrun : (run (next registryLists) (⟨Registry.empty, Control.init 0⟩ : State (Registry ℕ ℕ) ℕ ℕ)
      [(0, .resume 1 []), (0, .await (.ref 7)), (0, .resume 2 []), (0, .awaitall [.ref 7, .ref 8]),
        (0, .emitone (.ref 7) []), (0, .await (.ref 7)), (2, .resume 2 [])]).map
      (fun s => (pending s.registry (.ref 7), pending s.registry (.ref 8))) = some (true, false) := by
    decide +kernel
  obtain ⟨s, hs, hp⟩ := Option.map_eq_some_iff.mp hrun
  obtain ⟨q, -, hq, -⟩ := registry_refines_queues 0 _ s hs
  exact ⟨s, hs, hp, q, hq⟩

/-- A coroutine is in a list only while it is suspended in an await call that has the
event of the list among its arguments; every other one, as the caller of an await
function that returned, is in none, so no emission resumes it. -/
theorem listed_awaits (main : T) (acts : List (ℕ × Act V T))
    (s : State (Registry V T) V T)
    (h : run (next registryLists) ⟨Registry.empty, Control.init main⟩ acts = some s) :
    (∀ l t, (s.registry.lists l).next t ≠ none →
      ∃ as, awaiting (s.control.status t) = some as ∧ (∃ e, Live s l e) ∧
        ∀ e, Live s l e → e ∈ as ∧ e ≠ .nil) ∧
    (∀ t, awaiting (s.control.status t) = none →
      ∀ l, (s.registry.lists l).next t = none ∧ (s.registry.lists l).tail ≠ some t) ∧
    (∀ l t r, unlinkhead s.registry l = some (t, r) ∨
      (∃ e, unlinkone s.registry e l = some (t, r)) → awaiting (s.control.status t) ≠ none) ∧
    awaiting (s.control.status s.control.running) = none := by
  obtain ⟨t, -, hrel⟩ := reachable_related h
  have hr := hrel.refines
  have hout : ∀ x, awaiting (s.control.status x) = none → ∀ l, x ∉ t.registry.queue l := by
    intro x hx l hm
    obtain ⟨as, has, -⟩ := hrel.member (((hr.lists l).keys x).mpr hm)
    rw [hx] at has
    cases has
  refine ⟨fun l x hx => hrel.member hx, ?_, ?_, ?_⟩
  · intro x hx l
    refine ⟨(hr.lists l).next_none.mpr (hout x hx l), fun ht => hout x hx l ?_⟩
    rw [(hr.lists l).tail] at ht
    exact List.mem_of_getLast? ht
  · intro l x r hu hx
    have hin : x ∈ t.registry.queue l := by
      rcases hu with hu | ⟨e, hu⟩
      · rcases unlinkhead_refines hr l with ⟨hn, -⟩ | ⟨x', r', q', hu', -, -, hm, -⟩
        · rw [hu] at hn
          cases hn
        · rw [hu] at hu'
          cases hu'
          exact hm
      · rcases unlinkone_refines hr e l with ⟨hn, -⟩ | ⟨x', r', q', hu', -, -, hm, -⟩
        · rw [hu] at hn
          cases hn
        · rw [hu] at hu'
          cases hu'
          exact hm
    exact hout x hx l hin
  · rw [hrel.control, hrel.inv.controlled.running]
    rfl

end
end Coutil.EventRefinement
