import Coutil.EventInvariant

set_option autoImplicit false

/-! Every step of a program over the queues keeps the invariant, whatever the
coroutines do while an emission is resuming them. -/
namespace Coutil.EventPreservation
open EventRegistry EventSystem EventInvariant

section
variable {V T : Type}

theorem idle_detached {c : Control V T} (h : c.loop = none) : detached c = stackDetached c := by
  simp [detached, h]

theorem owns_secret {c : Control V T} {vs : List (Val V)} (h : Controlled c) (ho : c.owns vs) :
    .listof ∉ vs := by
  rcases ho with ho | ho
  · rw [h.secret] at ho
    cases ho
  · exact ho

/-- A coroutine that is not suspended stands in no queue. -/
theorem active_free [DecidableEq T] {s : State (Queues V T) V T} (h : Inv s) {t : T}
    (ht : s.control.status t = .active) (l : ℕ) : t ∉ s.registry.queue l := by
  intro hm
  obtain ⟨call, hc, -⟩ := h.queued l t hm
  rw [ht] at hc
  cases hc

section
variable [DecidableEq T]

theorem live_ne_nil {s : State (Queues V T) V T} (h : Inv s) {l : ℕ} {t : T}
    (ht : t ∈ s.registry.queue l) : s.registry.event l ≠ .nil := by
  obtain ⟨call, hcall, hreg⟩ := h.queued l t ht
  exact ((h.waiting t call hcall).registered _ hreg).some

/-- The invariant for all coroutines but a suspended one that is being resumed. -/
structure Ready (q : Queues V T) (c : Control V T) (co : T) (frame : Frame V) : Prop where
  queues : WellQueued q (frameDetached frame ++ stackDetached c)
  queued : ∀ l t, t ≠ co → t ∈ q.queue l →
    ∃ call, c.status t = .suspended call ∧ (q.event l, l) ∈ regs call
  waiting : ∀ t call, t ≠ co → c.status t = .suspended call → Waiting q t call
  controlled : Controlled c
  frame : ∀ l e as, frame = .emitall l e as → .listof ∉ e :: as
  suspended : ∃ call, c.status co = .suspended call

theorem Ready.others {q q' : Queues V T} {c : Control V T} {co : T} {frame : Frame V}
    (h : Ready q c co frame) (hm : OnlyMoved co q q')
    (hq : WellQueued q' (frameDetached frame ++ stackDetached c)) : Ready q' c co frame where
  queues := hq
  queued l t ht hin := by
    have hin' := (hm.others l t ht).mp hin
    obtain ⟨call, hcall, hreg⟩ := h.queued l t ht hin'
    exact ⟨call, hcall, (hm.event l (h.queues.old hin')).symm ▸ hreg⟩
  waiting t call ht hs := (h.waiting t call ht hs).moved hm ht
  controlled := h.controlled
  frame := h.frame
  suspended := h.suspended

theorem Ready.ne_active {q : Queues V T} {c : Control V T} {co t : T} {frame : Frame V}
    (h : Ready q c co frame) (ht : c.status t = .active) : t ≠ co := by
  rintro rfl
  obtain ⟨call, hcall⟩ := h.suspended
  rw [ht] at hcall
  cases hcall

theorem init_inv (main : T) : Inv (V := V) ⟨Queues.empty, Control.init main⟩ := by
  refine ⟨⟨?_, ?_, ?_, ?_, ?_⟩, ?_, ?_, ⟨?_, ?_, ?_, rfl, ?_, ?_⟩⟩
  · intro l
    exact List.nodup_nil
  · intro l _
    rfl
  · intro e l hl
    cases hl
  · intro p hp
    cases hp
  · intro l hl
    exact absurd rfl hl
  · intro l t ht
    cases ht
  · intro t call ht
    by_cases htm : t = main
    · simp [Control.init, htm] at ht
    · simp [Control.init, htm] at ht
      subst ht
      trivial
  · simp [Control.init]
  · intro p hp
    cases hp
  · simp [Control.init]
  · intro l e as hl
    cases hl
  · intro t l e as hp
    cases hp

end
variable [DecidableEq V]

/-- The control after a call of `coroutine.resume` made in a frame has returned. -/
theorem returned_detached (c : Control V T) (frame : Frame V) (vs : List (Val V)) :
    detached (c.returned frame vs) = frameDetached frame ++ stackDetached c := by
  cases frame <;> rfl

theorem returned_status (c : Control V T) (frame : Frame V) (vs : List (Val V)) :
    (c.returned frame vs).status = c.status := by
  cases frame <;> rfl

theorem returned_controlled {c : Control V T} (frame : Frame V) {vs : List (Val V)}
    (hrun : c.status c.running = .active) (hstack : ∀ p ∈ c.stack, c.status p.1 = .active)
    (hnodup : (c.running :: c.stack.map Prod.fst).Nodup) (hleak : c.leaked = false)
    (hframes : ∀ t l e as, (t, Frame.emitall l e as) ∈ c.stack → .listof ∉ e :: as)
    (hframe : ∀ l e as, frame = .emitall l e as → .listof ∉ e :: as)
    (hvs : .listof ∉ vs) : Controlled (c.returned frame vs) := by
  cases frame with
  | user =>
    exact ⟨hrun, hstack, hnodup, by simp [Control.returned, Control.deliver, hleak, hvs],
      by simp [Control.returned, Control.deliver], hframes⟩
  | emitone =>
    exact ⟨hrun, hstack, hnodup, by simp [Control.returned, Control.deliver, hleak],
      by simp [Control.returned, Control.deliver], hframes⟩
  | emitall l e as =>
    refine ⟨hrun, hstack, hnodup, hleak, ?_, hframes⟩
    intro l' e' as' hl
    cases hl
    exact hframe l e as rfl

theorem deliver_controlled {c : Control V T} (h : Controlled c) {vs : List (Val V)}
    (hvs : .listof ∉ vs) : Controlled (c.deliver vs) :=
  returned_controlled .user h.running h.stack h.nodup h.secret h.frames
    (fun _ _ _ hf => by cases hf) hvs

variable [DecidableEq T]

theorem deliver_inv {s : State (Queues V T) V T} (h : Inv s)
    (hq : WellQueued s.registry (stackDetached s.control)) (vs : List (Val V))
    (hvs : .listof ∉ vs) : Inv { s with control := s.control.deliver vs } :=
  ⟨hq, h.queued, h.waiting, deliver_controlled h.controlled hvs⟩

/-- The running coroutine, which may have moved in the queues, gives control back. -/
theorem giveback_inv {s : State (Queues V T) V T} (h : Inv s) (hloop : s.control.loop = none)
    (hy : s.control.yieldable) {q : Queues V T} (hm : OnlyMoved s.control.running s.registry q)
    (hq : WellQueued q (stackDetached s.control)) {st : Status V}
    (hmine : ∀ l, s.control.running ∈ q.queue l →
      ∃ call, st = .suspended call ∧ (q.event l, l) ∈ regs call)
    (hwait : ∀ call, st = .suspended call → Waiting q s.control.running call)
    {vs : List (Val V)} (hvs : .listof ∉ vs) : Inv ⟨q, s.control.giveback st vs⟩ := by
  obtain ⟨r, c⟩ := s
  obtain ⟨hqs, hqd, hwt, hc⟩ := h
  cases hst : c.stack with
  | nil => exact absurd hst hy
  | cons p rest =>
    obtain ⟨t, frame⟩ := p
    have hgive : c.giveback st vs = ({ c with
        status := Function.update c.status c.running st, running := t, stack := rest } :
          Control V T).returned frame vs := by
      simp [Control.giveback, hst]
    have hd : stackDetached c = frameDetached frame ++ rest.flatMap (fun p => frameDetached p.2) := by
      simp [stackDetached, hst]
    have hn := hc.nodup
    simp only [hst, List.map_cons, List.nodup_cons, List.mem_cons, not_or] at hn
    have hact : ∀ x, x ≠ c.running → c.status x = .active →
        Function.update c.status c.running st x = .active := by
      intro x hx ha
      rw [Function.update_of_ne hx, ha]
    rw [hgive]
    refine ⟨?_, ?_, ?_, ?_⟩
    · rw [returned_detached]
      exact hd ▸ hq
    · intro l x hx
      simp only [returned_status]
      by_cases hxr : x = c.running
      · subst x
        simpa using hmine l hx
      · have hx' := (hm.others l x hxr).mp hx
        obtain ⟨call, hcall, hreg⟩ := hqd l x hx'
        refine ⟨call, (Function.update_of_ne hxr _ _).trans hcall, ?_⟩
        rw [hm.event l (hqs.old hx')]
        exact hreg
    · intro x call hx
      simp only [returned_status] at hx
      by_cases hxr : x = c.running
      · subst x
        exact hwait call (by simpa using hx)
      · rw [Function.update_of_ne hxr] at hx
        exact (hwt x call hx).moved hm hxr
    · refine returned_controlled frame ?_ ?_ (List.nodup_cons.mpr hn.2) hc.secret ?_ ?_ hvs
      · exact hact t (Ne.symm hn.1.1) (hc.stack (t, frame) (by simp [hst]))
      · intro p hp
        refine hact p.1 (fun e => hn.1.2 (e ▸ List.mem_map_of_mem hp)) ?_
        exact hc.stack p (by simp [hst, hp])
      · intro x l e as hp
        exact hc.frames x l e as (by simp [hst, hp])
      · rintro l e as rfl
        exact hc.frames t l e as (by simp [hst])

/-- The resumed coroutine leaves the module: it must stand in no queue. -/
theorem Ready.enter {q : Queues V T} {c : Control V T} {co : T} {frame : Frame V}
    (h : Ready q c co frame) (hno : ∀ l, co ∉ q.queue l) {vs : List (Val V)}
    (hvs : .listof ∉ vs) : Inv ⟨q, (c.enter co frame).deliver vs⟩ := by
  have hne : ∀ {t}, c.status t = .active → t ≠ co := h.ne_active
  have hst : ∀ {t}, t ≠ co → (c.enter co frame).status t = c.status t :=
    fun ht => Function.update_of_ne ht _ _
  refine ⟨?_, ?_, ?_, ?_⟩
  · have hd : detached ((c.enter co frame).deliver vs) =
        frameDetached frame ++ stackDetached c := by
      simp [detached, Control.deliver, Control.enter, stackDetached]
    rw [hd]
    exact h.queues
  · intro l t ht
    have htc : t ≠ co := by
      rintro rfl
      exact hno l ht
    obtain ⟨call, hcall, hreg⟩ := h.queued l t htc ht
    exact ⟨call, (hst htc).trans hcall, hreg⟩
  · intro t call ht
    by_cases htc : t = co
    · subst t
      simp [Control.deliver, Control.enter] at ht
    · exact h.waiting t call htc ((hst htc).symm.trans ht)
  · suffices hc : Controlled (c.enter co frame) from deliver_controlled hc hvs
    refine ⟨Function.update_self .., ?_, ?_, h.controlled.secret, ?_, ?_⟩
    · intro p hp
      rcases List.mem_cons.mp hp with rfl | hp
      · exact (hst (hne h.controlled.running)).trans h.controlled.running
      · exact (hst (hne (h.controlled.stack p hp))).trans (h.controlled.stack p hp)
    · simp only [Control.enter, List.map_cons, List.nodup_cons, List.mem_cons, not_or]
      refine ⟨⟨Ne.symm (hne h.controlled.running), ?_⟩, List.nodup_cons.mp h.controlled.nodup⟩
      intro hm
      obtain ⟨p, hp, hpc⟩ := List.mem_map.mp hm
      exact hne (h.controlled.stack p hp) hpc
    · intro l e as hl
      cases hl
    · intro t l e as hp
      rcases List.mem_cons.mp hp with hp | hp
      · exact h.frame l e as (congrArg Prod.snd hp).symm
      · exact h.controlled.frames t l e as hp

theorem enter_suspend (c : Control V T) (co : T) (frame : Frame V) (call : Call V) :
    (c.enter co frame).suspend call =
      ({ c with status := Function.update c.status co (.suspended call) } :
        Control V T).returned frame [.bool true] := by
  cases frame <;> simp [Control.suspend, Control.giveback, Control.enter, Control.returned,
    Control.deliver, Function.update_idem]

/-- The resumed coroutine goes on waiting in the same await call. -/
theorem Ready.suspend {q : Queues V T} {c : Control V T} {co : T} {frame : Frame V}
    (h : Ready q c co frame) (call : Call V) (hw : Waiting q co call)
    (hin : ∀ l, co ∈ q.queue l → (q.event l, l) ∈ regs call) :
    Inv ⟨q, (c.enter co frame).suspend call⟩ := by
  have hact : ∀ {t}, c.status t = .active →
      Function.update c.status co (.suspended call) t = .active := by
    intro t ht
    rw [Function.update_of_ne (h.ne_active ht), ht]
  rw [enter_suspend]
  refine ⟨?_, ?_, ?_, ?_⟩
  · rw [returned_detached]
    exact h.queues
  · intro l t ht
    simp only [returned_status]
    by_cases htc : t = co
    · subst t
      exact ⟨call, Function.update_self .., hin l ht⟩
    · obtain ⟨call', hcall, hreg⟩ := h.queued l t htc ht
      exact ⟨call', (Function.update_of_ne htc _ _).trans hcall, hreg⟩
  · intro t call' ht
    simp only [returned_status] at ht
    by_cases htc : t = co
    · subst t
      simp only [Function.update_self, Status.suspended.injEq] at ht
      exact ht ▸ hw
    · rw [Function.update_of_ne htc] at ht
      exact h.waiting t call' htc ht
  · exact returned_controlled frame (hact h.controlled.running)
      (fun p hp => hact (h.controlled.stack p hp)) h.controlled.nodup h.controlled.secret
      h.controlled.frames h.frame (by simp)

/-- A coroutine resumed with values that are not those of an emission leaves all its
queues, whichever call it is in. -/
theorem resumed_user {q : Queues V T} {c : Control V T} {co : T} {frame : Frame V}
    (h : Ready q c co frame) {call : Call V} (hw : Waiting q co call)
    (hin : ∀ l, co ∈ q.queue l → (q.event l, l) ∈ regs call) {vs : List (Val V)}
    (hvs : .listof ∉ vs) (fuel : ℕ) :
    ∃ u, resumed queueLists fuel ⟨q, c.enter co frame⟩ call vs = .next u ∧ Inv u := by
  have hhead : vs.head? ≠ some .listof := fun hh => hvs (List.mem_of_mem_head? hh)
  have hreg := hw.registered
  obtain ⟨q', hcan, hq', hm, hmine⟩ := cancel_spec h.queues fuel co (regs call)
    (fun p hp => ⟨(hreg p hp).old, (hreg p hp).event⟩)
  have hno : ∀ l, co ∉ q'.queue l := by
    intro l hl
    obtain ⟨hl, hnot⟩ := (hmine l).mp hl
    exact hnot (List.mem_map_of_mem (hin l hl))
  have hleave : Inv ⟨q', (c.enter co frame).deliver vs⟩ := (h.others hm hq').enter hno hvs
  cases call with
  | start =>
    cases hcan
    exact ⟨_, rfl, hleave⟩
  | user =>
    cases hcan
    exact ⟨_, rfl, hleave⟩
  | await event list =>
    obtain ⟨l, rfl, -, -⟩ := hw
    refine ⟨_, ?_, hleave⟩
    change some (q.remove event co l) = some q' at hcan
    obtain rfl := Option.some.inj hcan
    simp only [resumed, istoken_plain hhead, Bool.false_eq_true, if_false]
    rfl
  | awaitall as rs count =>
    refine ⟨_, ?_, hleave⟩
    have hcan : cancel queueLists fuel q (c.enter co frame).running rs = some q' := hcan
    simp only [resumed, istoken_plain hhead, Bool.not_false, if_true, hcan]
  | awaitany as rs =>
    refine ⟨_, ?_, hleave⟩
    have hcan : cancel queueLists fuel q (c.enter co frame).running rs = some q' := hcan
    simp only [resumed, istoken_plain hhead, Bool.false_eq_true, if_false, hcan]

/-- What is left of a waiting coroutine once an emission took it out of one queue. -/
def Popped (q : Queues V T) (t : T) : Call V → Prop
  | .start | .user => False
  | .await _ _ => ∀ l, t ∉ q.queue l
  | .awaitall args rs count => (∀ p ∈ rs, Registered q args p) ∧ (rs.map Prod.snd).Nodup ∧
      rs.countP (fun p => decide (t ∈ q.queue p.2)) = count ∧
      ∀ l, t ∈ q.queue l → (q.event l, l) ∈ rs
  | .awaitany args rs => (∀ p ∈ rs, Registered q args p) ∧
      ∀ l, t ∈ q.queue l → (q.event l, l) ∈ rs

theorem resumed_event {q : Queues V T} {c : Control V T} {co : T} {frame : Frame V}
    (h : Ready q c co frame) {call : Call V} (hp : Popped q co call) {vs : List (Val V)}
    (hvs : .listof ∉ vs) (fuel : ℕ) :
    ∃ u, resumed queueLists fuel ⟨q, c.enter co frame⟩ call (.listof :: vs) = .next u ∧ Inv u := by
  cases call with
  | start => exact hp.elim
  | user => exact hp.elim
  | await event list => exact ⟨_, by simp [resumed], h.enter hp hvs⟩
  | awaitall as rs count =>
    obtain ⟨hreg, hn, hc, hin⟩ := hp
    cases count with
    | zero =>
      have hno : ∀ l, co ∉ q.queue l := by
        intro l hl
        have := List.countP_eq_zero.mp hc _ (hin l hl)
        simp [hl] at this
      exact ⟨⟨q, (c.enter co frame).deliver [.bool true]⟩, by simp [resumed], h.enter hno (by simp)⟩
    | succ count =>
      exact ⟨_, by simp [resumed], h.suspend (.awaitall as rs count) ⟨hreg, hn, hc⟩ hin⟩
  | awaitany as rs =>
    obtain ⟨hreg, hin⟩ := hp
    obtain ⟨q', hcan, hq', hm, hmine⟩ := cancel_spec h.queues fuel co rs
      (fun p hp => ⟨(hreg p hp).old, (hreg p hp).event⟩)
    have hno : ∀ l, co ∉ q'.queue l := by
      intro l hl
      obtain ⟨hl, hnot⟩ := (hmine l).mp hl
      exact hnot (List.mem_map_of_mem (hin l hl))
    refine ⟨_, ?_, (h.others hm hq').enter hno hvs⟩
    have hcan : cancel queueLists fuel q (c.enter co frame).running rs = some q' := hcan
    simp [resumed, hcan]

theorem countP_drop {rs : List (Val V × ℕ)} {p : Val V × ℕ} {f g : Val V × ℕ → Bool}
    (hn : (rs.map Prod.snd).Nodup) (hp : p ∈ rs) (hf : f p = true) (hg : g p = false)
    (ho : ∀ r, r.2 ≠ p.2 → f r = g r) : rs.countP f = rs.countP g + 1 := by
  induction rs with
  | nil => cases hp
  | cons r rs ih =>
    obtain ⟨hr, hn⟩ := List.nodup_cons.mp hn
    by_cases hrp : r = p
    · subst r
      have hsame : rs.countP f = rs.countP g := by
        refine List.countP_congr (fun x hx => ?_)
        rw [ho x (fun e => hr (e ▸ List.mem_map_of_mem hx))]
      simp [hf, hg, hsame]
    · have hp' : p ∈ rs := by simpa [Ne.symm hrp] using hp
      have hne : r.2 ≠ p.2 := fun e => hr (e ▸ List.mem_map_of_mem hp')
      rw [List.countP_cons, List.countP_cons, ho r hne, ih hn hp']
      omega

theorem popped_remove {q : Queues V T} {D : List (ℕ × Val V)} (hq : WellQueued q D) {co : T}
    {call : Call V} (hw : Waiting q co call)
    (hin : ∀ l, co ∈ q.queue l → (q.event l, l) ∈ regs call) {l : ℕ} {e : Val V}
    (hl : co ∈ q.queue l) (he : q.event l = e) : Popped (q.remove e co l) co call := by
  have hm : OnlyMoved co q (q.remove e co l) := remove_moved e co l
  have hmine : ∀ k, co ∈ (q.remove e co l).queue k ↔ co ∈ q.queue k ∧ k ≠ l := by
    intro k
    rw [remove_queue]
    by_cases hk : k = l
    · subst k
      simp [(hq.nodup l).mem_erase_iff]
    · simp [hk]
  have hel := hin l hl
  rw [he] at hel
  cases call with
  | start => exact absurd hel (by simp [regs])
  | user => exact absurd hel (by simp [regs])
  | await event list =>
    obtain ⟨k, rfl, -, -⟩ := hw
    intro k' hk'
    obtain ⟨hk', hne⟩ := (hmine k').mp hk'
    have h₁ := hin k' hk'
    simp only [regs, List.mem_singleton, Prod.mk.injEq] at h₁ hel
    exact hne (h₁.2.trans hel.2.symm)
  | awaitall as rs count =>
    obtain ⟨hreg, hn, hc⟩ := hw
    refine ⟨fun p hp => (hreg p hp).moved hm, hn, ?_, fun k hk => hin k ((hmine k).mp hk).1⟩
    have hd := countP_drop (g := fun p => decide (co ∈ (q.remove e co l).queue p.2)) hn hel
      (f := fun p => decide (co ∈ q.queue p.2)) (by simpa using hl) (by simp [hmine])
      (fun r hr => by simp [hmine, hr])
    omega
  | awaitany as rs =>
    exact ⟨fun p hp => (hw p hp).1.moved hm, fun k hk => hin k ((hmine k).mp hk).1⟩

theorem resume_inv {s : State (Queues V T) V T} (h : Inv s) (hloop : s.control.loop = none)
    {vs : List (Val V)} (hvs : .listof ∉ vs) (fuel : ℕ) (co : T) :
    ∃ u, resume queueLists fuel s co .user vs = .next u ∧ Inv u := by
  have hq : WellQueued s.registry (stackDetached s.control) := idle_detached hloop ▸ h.queues
  cases hco : s.control.status co with
  | suspended call =>
    have hr : Ready s.registry s.control co .user := by
      refine ⟨hq, fun l t _ ht => h.queued l t ht, fun t call' _ ht => h.waiting t call' ht,
        h.controlled, ?_, ⟨call, hco⟩⟩
      intro l e as he
      cases he
    have hin : ∀ l, co ∈ s.registry.queue l → (s.registry.event l, l) ∈ regs call := by
      intro l hl
      obtain ⟨call', hcall, hreg⟩ := h.queued l co hl
      rw [hco] at hcall
      cases hcall
      exact hreg
    obtain ⟨u, hu, hinv⟩ := resumed_user hr (h.waiting co call hco) hin hvs fuel
    exact ⟨u, by simp only [resume, hco, hu], hinv⟩
  | active => exact ⟨_, by simp only [resume, hco]; rfl, deliver_inv h hq _ (by simp)⟩
  | dead => exact ⟨_, by simp only [resume, hco]; rfl, deliver_inv h hq _ (by simp)⟩

/-- An emission takes the first coroutine out of a queue of the event and resumes it. -/
theorem emission_inv {q : Queues V T} {c : Control V T} (frame : Frame V)
    (hq : WellQueued q (frameDetached frame ++ stackDetached c)) (hqd : Queued q c.status)
    (hwt : ∀ t call, c.status t = .suspended call → Waiting q t call) (hc : Controlled c)
    (hframe : ∀ l e as, frame = .emitall l e as → .listof ∉ e :: as) {l : ℕ} {t : T}
    {rest : List T} (hl : q.queue l = t :: rest) {e : Val V} (he : q.event l = e)
    {vs : List (Val V)} (hvs : .listof ∉ vs) (fuel : ℕ) :
    ∃ u, resume queueLists fuel ⟨q.remove e t l, c⟩ t frame (.listof :: vs) = .next u ∧ Inv u := by
  have ht : t ∈ q.queue l := by simp [hl]
  obtain ⟨call, hcall, -⟩ := hqd l t ht
  have hin : ∀ k, t ∈ q.queue k → (q.event k, k) ∈ regs call := by
    intro k hk
    obtain ⟨call', hcall', hreg⟩ := hqd k t hk
    rw [hcall] at hcall'
    cases hcall'
    exact hreg
  have hbefore : Ready q c t frame :=
    ⟨hq, fun k x _ hx => hqd k x hx, fun x call' _ hx => hwt x call' hx, hc, hframe, ⟨call, hcall⟩⟩
  have hready := hbefore.others (remove_moved e t l) (remove_queues hq (hq.old ht) he t)
  have hpop := popped_remove hq (hwt t call hcall) hin ht he
  obtain ⟨u, hu, hinv⟩ := resumed_event hready hpop hvs fuel
  exact ⟨u, by simp only [resume, hcall, hu], hinv⟩

theorem emitnext_inv {q : Queues V T} {c : Control V T} {l : ℕ} {e : Val V} {as : List (Val V)}
    (hq : WellQueued q ((l, e) :: stackDetached c)) (hqd : Queued q c.status)
    (hwt : ∀ t call, c.status t = .suspended call → Waiting q t call) (hc : Controlled c)
    (has : .listof ∉ e :: as) (hne : q.queue l ≠ []) (fuel : ℕ) :
    ∃ u, emitnext queueLists fuel ⟨q, c⟩ l e as = .next u ∧ Inv u := by
  obtain ⟨-, hev, hlist⟩ := hq.detached (l, e) (by simp)
  obtain ⟨t, rest, hl⟩ := List.exists_cons_of_ne_nil hne
  have hun : queueLists.unlinkhead q l = some (t, q.remove e t l) := unlinkhead_eq hlist hl
  obtain ⟨u, hu, hinv⟩ := emission_inv (.emitall l e as) hq hqd hwt hc
    (fun l' e' as' he => by cases he; exact has) hl hev has fuel
  exact ⟨u, by simp only [emitnext, hun, hu], hinv⟩

theorem emitall_inv {s : State (Queues V T) V T} (h : Inv s) (hloop : s.control.loop = none)
    {e : Val V} {as : List (Val V)} (has : .listof ∉ e :: as) (fuel : ℕ) :
    ∃ u, emitall queueLists fuel s e as = .next u ∧ Inv u := by
  have hq : WellQueued s.registry (stackDetached s.control) := idle_detached hloop ▸ h.queues
  cases hl : s.registry.listof e with
  | none =>
    have hf : queueLists.find s.registry e = none := hl
    exact ⟨_, by simp only [emitall, hf], deliver_inv h hq [.bool false] (by simp)⟩
  | some l =>
    have hf : queueLists.find s.registry e = some l := hl
    have hw : ∀ t call, s.control.status t = .suspended call →
        Waiting (s.registry.detach e) t call := fun t call ht =>
      (h.waiting t call ht).same (t := t) ⟨fun _ _ _ => Iff.rfl, fun _ _ => rfl, le_rfl⟩
        (fun _ => Iff.rfl)
    obtain ⟨u, hu, hinv⟩ := emitnext_inv (detach_queues hq hl) h.queued hw h.controlled has
      (hq.installed e l hl).2.2 fuel
    refine ⟨u, ?_, hinv⟩
    simp only [emitall, hf]
    exact hu

theorem emitone_inv {s : State (Queues V T) V T} (h : Inv s) (hloop : s.control.loop = none)
    {e : Val V} {as : List (Val V)} (has : .listof ∉ e :: as) (fuel : ℕ) :
    ∃ u, emitone queueLists fuel s e as = .next u ∧ Inv u := by
  have hq : WellQueued s.registry (stackDetached s.control) := idle_detached hloop ▸ h.queues
  cases hl : s.registry.listof e with
  | none =>
    have hf : queueLists.find s.registry e = none := hl
    exact ⟨_, by simp only [emitone, hf], deliver_inv h hq [.bool false] (by simp)⟩
  | some l =>
    have hf : queueLists.find s.registry e = some l := hl
    obtain ⟨-, hev, hne⟩ := hq.installed e l hl
    obtain ⟨t, rest, hrest⟩ := List.exists_cons_of_ne_nil hne
    have hun : queueLists.unlinkone s.registry e l = some (t, s.registry.remove e t l) :=
      unlinkone_eq hl hrest
    obtain ⟨u, hu, hinv⟩ := emission_inv .emitone hq h.queued h.waiting h.controlled
      (fun l' e' as' he => by cases he) hrest hev has fuel
    exact ⟨u, by simp only [emitone, hf, hun, hu], hinv⟩

theorem iterate_inv {s : State (Queues V T) V T} (h : Inv s) {l : ℕ} {e : Val V}
    {as : List (Val V)} (hloop : s.control.loop = some (l, e, as)) (fuel : ℕ) :
    ∃ u, step queueLists fuel s .iterate = .next u ∧ Inv u := by
  have hd : detached s.control = (l, e) :: stackDetached s.control := by simp [detached, hloop]
  have hq := h.queues
  rw [hd] at hq
  by_cases hl : s.registry.queue l = []
  · have he : queueLists.isEmpty s.registry l = true := by simp [queueLists, hl]
    exact ⟨_, by simp only [step, hloop, he, if_true],
      deliver_inv h (drained_queues hq hl) [.bool true] (by simp)⟩
  · have he : queueLists.isEmpty s.registry l = false := by simp [queueLists, hl]
    obtain ⟨u, hu, hinv⟩ := emitnext_inv hq h.queued h.waiting h.controlled
      (h.controlled.loop l e as hloop) hl fuel
    exact ⟨u, by simpa [step, hloop, he] using hu, hinv⟩

theorem await_inv {s u : State (Queues V T) V T} (h : Inv s) (hloop : s.control.loop = none)
    {e : Val V} (hu : await queueLists s e = .next u) : Inv u := by
  have hq : WellQueued s.registry (stackDetached s.control) := idle_detached hloop ▸ h.queues
  have hfree := active_free h h.controlled.running
  simp only [await] at hu
  split at hu
  · rename_i hy
    cases hadd : s.registry.add e s.control.running with
    | error msg => simp [queueLists, hadd] at hu
    | ok p =>
      obtain ⟨q, list⟩ := p
      have hu : Outcome.next (⟨q, s.control.suspend (.await e list)⟩ : State (Queues V T) V T) =
          .next u := by simpa [queueLists, hadd] using hu
      cases hu
      cases list with
      | none =>
        obtain ⟨-, l, hl⟩ := add_known hadd
        exact absurd hl (hfree l)
      | some l =>
        obtain ⟨hm, hmine, -, hlt, hev⟩ := add_moved hq hadd
        have hnil : e ≠ .nil := by
          rcases add_new hadd with ⟨-, hne, -⟩ | ⟨hl, -⟩
          · exact hne
          · obtain ⟨-, hel, hne⟩ := hq.installed e l hl
            obtain ⟨t, ht⟩ := List.exists_mem_of_ne_nil _ hne
            exact hel ▸ live_ne_nil h ht
        refine giveback_inv h hloop hy hm (add_queues hq hadd) ?_ ?_ (by simp)
        · intro k hk
          rcases (hmine k).mp hk with hk | rfl
          · exact absurd hk (hfree k)
          · exact ⟨_, rfl, by simp [regs, hev]⟩
        · intro call hcall
          cases hcall
          exact ⟨l, rfl, ⟨hlt, hev, by simp, hnil⟩, (hmine l).mpr (Or.inr rfl)⟩
  · cases hu

/-- The registrations of a call that suspends. -/
theorem register_suspend_inv {s : State (Queues V T) V T} (h : Inv s)
    (hloop : s.control.loop = none) (hy : s.control.yieldable) {as : List (Val V)} {q : Queues V T}
    {rs : List (Val V × ℕ)} (hreg : register queueLists s.control.running s.registry as = .ok (q, rs))
    {call : Call V} (hregs : regs call = rs)
    (hwait : Registration s.registry q s.control.running as rs →
      Waiting q s.control.running call) : Inv ⟨q, s.control.suspend call⟩ := by
  have hq : WellQueued s.registry (stackDetached s.control) := idle_detached hloop ▸ h.queues
  obtain ⟨hq', hr⟩ := register_spec hq hreg
  refine giveback_inv h hloop hy hr.moved hq' ?_ ?_ (by simp)
  · intro l hl
    rcases (hr.mine l).mp hl with hl | hl
    · exact absurd hl (active_free h h.controlled.running l)
    · obtain ⟨p, hp, rfl⟩ := List.mem_map.mp hl
      refine ⟨call, rfl, ?_⟩
      rw [hregs, (hr.registered p hp).event]
      exact hp
  · intro call' hcall
    cases hcall
    exact hwait hr

theorem register_none_inv {s : State (Queues V T) V T} (h : Inv s)
    {as : List (Val V)} {q : Queues V T} (hq : WellQueued q (stackDetached s.control))
    (hr : Registration s.registry q s.control.running as []) :
    Inv ⟨q, s.control.deliver [.bool true]⟩ := by
  have hmem : ∀ l x, x ∈ q.queue l ↔ x ∈ s.registry.queue l := by
    intro l x
    by_cases hx : x = s.control.running
    · subst x
      simpa using hr.mine l
    · exact hr.moved.others l x hx
  refine ⟨hq, ?_, ?_, deliver_controlled h.controlled (by simp)⟩
  · intro l x hx
    have hx' := (hmem l x).mp hx
    obtain ⟨call, hcall, hreg⟩ := h.queued l x hx'
    exact ⟨call, hcall, (hr.moved.event l (h.queues.old hx')).symm ▸ hreg⟩
  · intro x call hx
    have hne : x ≠ s.control.running := by
      rintro rfl
      exact absurd (h.controlled.running.symm.trans hx) (by simp)
    exact (h.waiting x call hx).moved hr.moved hne

theorem awaitall_inv {s u : State (Queues V T) V T} (h : Inv s) (hloop : s.control.loop = none)
    {as : List (Val V)} (hu : awaitall queueLists s as = .next u) : Inv u := by
  have hq : WellQueued s.registry (stackDetached s.control) := idle_detached hloop ▸ h.queues
  simp only [awaitall] at hu
  split at hu
  · rename_i hy
    split at hu
    · cases hu
    · rename_i q rs hreg
      split at hu
      · rename_i hz
        cases hu
        obtain rfl := List.length_eq_zero_iff.mp hz
        obtain ⟨hq', hr⟩ := register_spec hq hreg
        exact register_none_inv h hq' hr
      · rename_i hz
        cases hu
        refine register_suspend_inv h hloop hy hreg rfl (fun hr => ?_)
        have hall : ∀ p ∈ rs, decide (s.control.running ∈ q.queue p.2) = true := by
          intro p hp
          simpa using (hr.mine p.2).mpr (Or.inr (List.mem_map_of_mem hp))
        refine ⟨hr.registered, hr.nodup, ?_⟩
        rw [List.countP_eq_length.mpr hall]
        omega
  · cases hu

theorem awaitany_inv {s u : State (Queues V T) V T} (h : Inv s) (hloop : s.control.loop = none)
    {as : List (Val V)} (hu : awaitany queueLists s as = .next u) : Inv u := by
  simp only [awaitany] at hu
  split at hu
  · rename_i hy
    split at hu
    · cases hu
    · rename_i q rs hreg
      split at hu
      · cases hu
      · cases hu
        refine register_suspend_inv h hloop hy hreg rfl (fun hr p hp => ⟨hr.registered p hp, ?_⟩)
        exact (hr.mine p.2).mpr (Or.inr (List.mem_map_of_mem hp))
  · cases hu

theorem leave_inv {s : State (Queues V T) V T} (h : Inv s) (hloop : s.control.loop = none)
    (hy : s.control.yieldable) {st : Status V} (hst : st = .suspended .user ∨ st = .dead)
    {vs : List (Val V)} (hvs : .listof ∉ vs) :
    Inv { s with control := s.control.giveback st vs } := by
  refine giveback_inv h hloop hy ⟨fun _ _ _ => Iff.rfl, fun _ _ => rfl, le_rfl⟩
    (idle_detached hloop ▸ h.queues) ?_ ?_ hvs
  · intro l hl
    exact absurd hl (active_free h h.controlled.running l)
  · rintro call rfl
    rcases hst with hst | hst
    · cases hst
      trivial
    · cases hst

theorem call_inv {s u : State (Queues V T) V T} (h : Inv s) (hloop : s.control.loop = none)
    {fuel : ℕ} {a : Act V T} (hu : call queueLists fuel s a = .next u) : Inv u := by
  have keep : ∀ {o : Outcome (State (Queues V T) V T)},
      (∃ v, o = .next v ∧ Inv v) → o = .next u → Inv u := by
    rintro o ⟨v, hv, hi⟩ ho
    rw [hv] at ho
    cases ho
    exact hi
  cases a with
  | await e =>
    simp only [call] at hu
    split at hu
    · exact await_inv h hloop hu
    · cases hu
  | awaitall as =>
    simp only [call] at hu
    split at hu
    · exact awaitall_inv h hloop hu
    · cases hu
  | awaitany as =>
    simp only [call] at hu
    split at hu
    · exact awaitany_inv h hloop hu
    · cases hu
  | emitone e as =>
    simp only [call] at hu
    split at hu
    · rename_i ho
      exact keep (emitone_inv h hloop (owns_secret h.controlled ho) fuel) hu
    · cases hu
  | emitall e as =>
    simp only [call] at hu
    split at hu
    · rename_i ho
      exact keep (emitall_inv h hloop (owns_secret h.controlled ho) fuel) hu
    · cases hu
  | resume co as =>
    simp only [call] at hu
    split at hu
    · rename_i ho
      exact keep (resume_inv h hloop (owns_secret h.controlled ho) fuel co) hu
    · cases hu
  | yield as =>
    simp only [call] at hu
    split at hu
    · rename_i ho
      cases hu
      exact leave_inv h hloop ho.2 (Or.inl rfl) (by simpa using owns_secret h.controlled ho.1)
    · cases hu
  | finish ok as =>
    simp only [call] at hu
    split at hu
    · rename_i ho
      cases hu
      exact leave_inv h hloop ho.2 (Or.inr rfl) (by simpa using owns_secret h.controlled ho.1)
    · cases hu
  | iterate => cases hu

theorem step_inv {s u : State (Queues V T) V T} (h : Inv s) {fuel : ℕ} {a : Act V T}
    (hu : step queueLists fuel s a = .next u) : Inv u := by
  cases hloop : s.control.loop with
  | none => exact call_inv h hloop (by simpa only [step, hloop] using hu)
  | some p =>
    obtain ⟨l, e, as⟩ := p
    obtain ⟨v, hv, hi⟩ := iterate_inv h hloop fuel
    cases a with
    | iterate =>
      rw [hv] at hu
      cases hu
      exact hi
    | _ => simp [step, hloop] at hu

end
end Coutil.EventPreservation
