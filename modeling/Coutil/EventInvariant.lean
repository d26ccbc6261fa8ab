import Coutil.EventSystem

set_option autoImplicit false

/-! The invariant of the queues: what is installed, what a running `emitall` has
detached, and in which await call each queued coroutine is suspended. -/
namespace Coutil.EventInvariant
open EventRegistry EventSystem

section
variable {V T : Type}

def regs : Call V → List (Val V × ℕ)
  | .await event (some list) => [(event, list)]
  | .awaitall _ regs _ => regs
  | .awaitany _ regs => regs
  | _ => []

def args : Call V → List (Val V)
  | .await event _ => [event]
  | .awaitall args _ _ => args
  | .awaitany args _ => args
  | _ => []

def frameDetached : Frame V → List (ℕ × Val V)
  | .emitall list event _ => [(list, event)]
  | _ => []

def stackDetached (c : Control V T) : List (ℕ × Val V) :=
  c.stack.flatMap (fun p => frameDetached p.2)

/-- The lists that running calls of `emitall` have taken out of `listof`. -/
def detached (c : Control V T) : List (ℕ × Val V) :=
  c.loop.toList.map (fun p => (p.1, p.2.1)) ++ stackDetached c

/-- Every list is either empty, or installed under its event, or in `D`. -/
structure WellQueued (q : Queues V T) (D : List (ℕ × Val V)) : Prop where
  nodup : ∀ l, (q.queue l).Nodup
  unused : ∀ l, q.fresh ≤ l → q.queue l = []
  installed : ∀ e l, q.listof e = some l → l < q.fresh ∧ q.event l = e ∧ q.queue l ≠ []
  detached : ∀ p ∈ D, p.1 < q.fresh ∧ q.event p.1 = p.2 ∧ q.listof p.2 ≠ some p.1
  live : ∀ l, q.queue l ≠ [] → q.listof (q.event l) = some l ∨ (l, q.event l) ∈ D

theorem WellQueued.old {q : Queues V T} {D : List (ℕ × Val V)} (h : WellQueued q D) {l : ℕ} {t : T}
    (ht : t ∈ q.queue l) : l < q.fresh := by
  by_contra hl
  rw [h.unused l (not_lt.mp hl)] at ht
  exact List.not_mem_nil ht

structure Registered (q : Queues V T) (args : List (Val V)) (p : Val V × ℕ) : Prop where
  old : p.2 < q.fresh
  event : q.event p.2 = p.1
  arg : p.1 ∈ args
  some : p.1 ≠ .nil

/-- Only the queues in which `t` stands may differ, and only by `t`. -/
structure OnlyMoved (t : T) (q q' : Queues V T) : Prop where
  others : ∀ l x, x ≠ t → (x ∈ q'.queue l ↔ x ∈ q.queue l)
  event : ∀ l, l < q.fresh → q'.event l = q.event l
  fresh : q.fresh ≤ q'.fresh

theorem OnlyMoved.trans {t : T} {q q' q'' : Queues V T} (h : OnlyMoved t q q')
    (h' : OnlyMoved t q' q'') : OnlyMoved t q q'' where
  others l x hx := (h'.others l x hx).trans (h.others l x hx)
  event l hl := (h'.event l (hl.trans_le h.fresh)).trans (h.event l hl)
  fresh := h.fresh.trans h'.fresh

theorem Registered.moved {t : T} {q q' : Queues V T} {as : List (Val V)} {p : Val V × ℕ}
    (h : Registered q as p) (hm : OnlyMoved t q q') : Registered q' as p :=
  ⟨h.old.trans_le hm.fresh, (hm.event _ h.old).trans h.event, h.arg, h.some⟩

theorem Registered.weaken {q : Queues V T} {as bs : List (Val V)} {p : Val V × ℕ}
    (h : Registered q as p) (hs : as ⊆ bs) : Registered q bs p :=
  ⟨h.old, h.event, hs h.arg, h.some⟩

def Queued (q : Queues V T) (status : T → Status V) : Prop :=
  ∀ l t, t ∈ q.queue l → ∃ call, status t = .suspended call ∧ (q.event l, l) ∈ regs call

/-- An `emitall` that found its list empty forgets it. -/
theorem drained_queues {q : Queues V T} {D : List (ℕ × Val V)} {l : ℕ} {e : Val V}
    (h : WellQueued q ((l, e) :: D)) (hl : q.queue l = []) : WellQueued q D := by
  refine ⟨h.nodup, h.unused, h.installed, fun p hp => h.detached p (List.mem_cons_of_mem _ hp), ?_⟩
  intro k hk
  rcases h.live k hk with hh | hh
  · exact Or.inl hh
  · rcases List.mem_cons.mp hh with hh | hh
    · obtain rfl : k = l := congrArg Prod.fst hh
      exact absurd hl hk
    · exact Or.inr hh

variable [DecidableEq T]

/-- A suspended await call stands in its lists: `await` and `awaitany` in all of
them, `awaitall` in as many as it still has to be resumed from. -/
def Waiting (q : Queues V T) (t : T) : Call V → Prop
  | .start | .user => True
  | .await event list => ∃ l, list = some l ∧ Registered q [event] (event, l) ∧ t ∈ q.queue l
  | .awaitall args regs count => (∀ p ∈ regs, Registered q args p) ∧
      (regs.map Prod.snd).Nodup ∧ regs.countP (fun p => decide (t ∈ q.queue p.2)) = count + 1
  | .awaitany args regs => ∀ p ∈ regs, Registered q args p ∧ t ∈ q.queue p.2

structure Controlled (c : Control V T) : Prop where
  running : c.status c.running = .active
  stack : ∀ p ∈ c.stack, c.status p.1 = .active
  nodup : (c.running :: c.stack.map Prod.fst).Nodup
  secret : c.leaked = false
  loop : ∀ l e as, c.loop = some (l, e, as) → .listof ∉ e :: as
  frames : ∀ t l e as, (t, Frame.emitall l e as) ∈ c.stack → .listof ∉ e :: as

structure Inv (s : State (Queues V T) V T) : Prop where
  queues : WellQueued s.registry (detached s.control)
  queued : Queued s.registry s.control.status
  waiting : ∀ t call, s.control.status t = .suspended call → Waiting s.registry t call
  controlled : Controlled s.control

theorem Waiting.same {t x : T} {q q' : Queues V T} {call : Call V} (h : Waiting q x call)
    (hm : OnlyMoved t q q') (hx : ∀ l, x ∈ q'.queue l ↔ x ∈ q.queue l) : Waiting q' x call := by
  cases call with
  | start => trivial
  | user => trivial
  | await event list =>
    obtain ⟨l, hl, hr, hq⟩ := h
    exact ⟨l, hl, hr.moved hm, (hx l).mpr hq⟩
  | awaitall as rs count =>
    obtain ⟨hr, hn, hc⟩ := h
    refine ⟨fun p hp => (hr p hp).moved hm, hn, ?_⟩
    simpa only [hx] using hc
  | awaitany as rs =>
    intro p hp
    exact ⟨(h p hp).1.moved hm, (hx _).mpr (h p hp).2⟩

theorem Waiting.moved {t x : T} {q q' : Queues V T} {call : Call V} (h : Waiting q x call)
    (hm : OnlyMoved t q q') (hx : x ≠ t) : Waiting q' x call :=
  h.same hm (fun l => hm.others l x hx)

theorem Waiting.registered {t : T} {q : Queues V T} {call : Call V} (h : Waiting q t call) :
    ∀ p ∈ regs call, Registered q (args call) p := by
  cases call with
  | start => simp [regs]
  | user => simp [regs]
  | await event list =>
    obtain ⟨l, rfl, hr, -⟩ := h
    simpa [regs, args] using hr
  | awaitall as rs count => exact h.1
  | awaitany as rs => exact fun p hp => (h p hp).1

end
section
variable {V T : Type} [DecidableEq V]

theorem detach_queues {q : Queues V T} {D : List (ℕ × Val V)} (h : WellQueued q D)
    {e : Val V} {l : ℕ} (hl : q.listof e = some l) : WellQueued (q.detach e) ((l, e) :: D) := by
  obtain ⟨hlt, hev, hne⟩ := h.installed e l hl
  refine ⟨h.nodup, h.unused, ?_, ?_, ?_⟩
  · intro e' k hk
    have hee : e' ≠ e := by
      rintro rfl
      simp [Queues.detach] at hk
    exact h.installed e' k (by simpa [Queues.detach, hee] using hk)
  · intro p hp
    rcases List.mem_cons.mp hp with rfl | hp
    · exact ⟨hlt, hev, by simp [Queues.detach]⟩
    · obtain ⟨hlt, hev, hne⟩ := h.detached p hp
      refine ⟨hlt, hev, fun hk => hne ?_⟩
      by_cases hpe : p.2 = e
      · simp [Queues.detach, hpe] at hk
      · simpa [Queues.detach, hpe] using hk
  · intro k hk
    rcases h.live k hk with hh | hh
    · by_cases hke : q.event k = e
      · right
        rw [hke, hl] at hh
        obtain rfl := Option.some.inj hh
        exact List.mem_cons.mpr (Or.inl (Prod.ext rfl hke))
      · left
        simpa [Queues.detach, hke] using hh
    · exact Or.inr (List.mem_cons_of_mem _ hh)

variable [DecidableEq T]

theorem remove_queue (q : Queues V T) (e : Val V) (t : T) (l k : ℕ) :
    (q.remove e t l).queue k = if k = l then (q.queue l).erase t else q.queue k := by
  by_cases h : k = l
  · subst k
    simp [Queues.remove]
  · simp [Queues.remove, h]

theorem remove_moved {q : Queues V T} (e : Val V) (t : T) (l : ℕ) :
    OnlyMoved t q (q.remove e t l) where
  others k x hx := by
    rw [remove_queue]
    by_cases h : k = l
    · subst k
      simp [List.mem_erase_of_ne hx]
    · simp [h]
  event _ _ := rfl
  fresh := le_rfl

theorem remove_queues {q : Queues V T} {D : List (ℕ × Val V)} (h : WellQueued q D)
    {e : Val V} {l : ℕ} (hl : l < q.fresh) (he : q.event l = e) (t : T) :
    WellQueued (q.remove e t l) D := by
  have hq := remove_queue q e t l
  have hlist : ∀ e' k, (q.remove e t l).listof e' = some k →
      q.listof e' = some k ∧ ¬ (e' = e ∧ q.queue l = [t] ∧ q.listof e = some l) := by
    intro e' k hk
    simp only [Queues.remove] at hk
    split at hk
    · by_cases hee : e' = e
      · simp [hee] at hk
      · exact ⟨by simpa [hee] using hk, by simp [hee]⟩
    · rename_i hn
      exact ⟨hk, fun hh => hn hh.2⟩
  refine ⟨?_, ?_, ?_, ?_, ?_⟩
  · intro k
    rw [hq]
    split
    · exact (h.nodup l).erase t
    · exact h.nodup k
  · intro k hk
    have hkl : k ≠ l := by
      rintro rfl
      exact absurd hl (not_lt.mpr hk)
    rw [hq, if_neg hkl]
    exact h.unused k hk
  · intro e' k hk
    obtain ⟨hk', hn⟩ := hlist e' k hk
    obtain ⟨hlt, hev, hne⟩ := h.installed e' k hk'
    refine ⟨hlt, hev, ?_⟩
    rw [hq]
    split
    · subst k
      obtain rfl : e' = e := hev.symm.trans he
      intro hnil
      rcases List.erase_eq_nil_iff.mp hnil with hh | hh
      · exact hne hh
      · exact hn ⟨rfl, hh, hk'⟩
    · exact hne
  · intro p hp
    obtain ⟨hlt, hev, hne⟩ := h.detached p hp
    exact ⟨hlt, hev, fun hk => hne (hlist _ _ hk).1⟩
  · intro k hk
    rw [hq] at hk
    change (q.remove e t l).listof (q.event k) = some k ∨ _
    by_cases hkl : k = l
    · subst k
      rw [if_pos rfl] at hk
      have hne : q.queue l ≠ [] := by
        intro hnil
        simp [hnil] at hk
      have hone : q.queue l ≠ [t] := by
        intro hone
        simp [hone] at hk
      rcases h.live l hne with hh | hh
      · left
        simpa [Queues.remove, hone] using hh
      · exact Or.inr hh
    · rw [if_neg hkl] at hk
      rcases h.live k hk with hh | hh
      · left
        simp only [Queues.remove]
        split
        · rename_i hc
          have hke : q.event k ≠ e := by
            intro hke
            rw [hke, hc.2] at hh
            exact hkl (Option.some.inj hh).symm
          simpa [hke] using hh
        · exact hh
      · exact Or.inr hh

theorem unlinkone_eq {q : Queues V T} {e : Val V} {l : ℕ} {t : T} {rest : List T}
    (hl : q.listof e = some l) (hq : q.queue l = t :: rest) :
    q.unlinkone e l = some (t, q.remove e t l) := by
  simp [Queues.unlinkone, Queues.remove, hq, hl]

theorem unlinkhead_eq {q : Queues V T} {e : Val V} {l : ℕ} {t : T} {rest : List T}
    (hl : q.listof e ≠ some l) (hq : q.queue l = t :: rest) :
    q.unlinkhead l = some (t, q.remove e t l) := by
  simp [Queues.unlinkhead, Queues.remove, hq, hl]

theorem add_error {q : Queues V T} {e : Val V} {t : T} {msg : String}
    (h : q.add e t = .error msg) : e = .nil ∨ e = .nan := by
  unfold Queues.add at h
  cases hl : q.listof e with
  | some l =>
    simp only [hl] at h
    split at h <;> cases h
  | none => cases e <;> simp [hl] at h ⊢

theorem add_known {q q' : Queues V T} {e : Val V} {t : T}
    (h : q.add e t = .ok (q', none)) : q' = q ∧ ∃ l, t ∈ q.queue l := by
  unfold Queues.add at h
  cases hl : q.listof e with
  | some l =>
    simp only [hl] at h
    split at h
    · rename_i hm
      cases h
      exact ⟨rfl, l, hm⟩
    · simp at h
  | none => cases e <;> simp [hl] at h

/-- What a registration does: the thread is the last one of the queue of the event,
a queue that is created when there was none. -/
theorem add_new {q q' : Queues V T} {e : Val V} {t : T} {l : ℕ}
    (h : q.add e t = .ok (q', some l)) :
    (q.listof e = none ∧ e ≠ .nil ∧ l = q.fresh ∧ q' = ⟨Function.update q.listof e (some l),
      Function.update q.queue l [t], Function.update q.event l e, l + 1⟩) ∨
    (q.listof e = some l ∧ t ∉ q.queue l ∧
      q' = { q with queue := Function.update q.queue l (q.queue l ++ [t]) }) := by
  unfold Queues.add at h
  cases hl : q.listof e with
  | some k =>
    simp only [hl] at h
    split at h
    · simp at h
    · rename_i hn
      simp only [Except.ok.injEq, Prod.mk.injEq, Option.some.injEq] at h
      obtain ⟨rfl, rfl⟩ := h
      exact Or.inr ⟨rfl, hn, rfl⟩
  | none =>
    left
    cases e <;> simp [hl] at h <;> exact ⟨rfl, by simp, h.2.symm, h.2 ▸ h.1.symm⟩

theorem add_moved {q q' : Queues V T} {D : List (ℕ × Val V)} (hq : WellQueued q D)
    {e : Val V} {t : T} {l : ℕ} (h : q.add e t = .ok (q', some l)) :
    OnlyMoved t q q' ∧ (∀ k, t ∈ q'.queue k ↔ t ∈ q.queue k ∨ k = l) ∧ t ∉ q.queue l ∧
      l < q'.fresh ∧ q'.event l = e := by
  rcases add_new h with ⟨-, -, rfl, rfl⟩ | ⟨hl, hn, rfl⟩
  · have hu : q.queue q.fresh = [] := hq.unused _ le_rfl
    refine ⟨⟨?_, ?_, Nat.le_succ _⟩, ?_, by simp [hu], Nat.lt_succ_self _, by simp⟩
    · intro k x hx
      by_cases hk : k = q.fresh
      · simp [hk, hu, hx]
      · simp [hk]
    · intro k hk
      simp [Nat.ne_of_lt hk]
    · intro k
      by_cases hk : k = q.fresh <;> simp [hk]
  · refine ⟨⟨?_, fun _ _ => rfl, le_rfl⟩, ?_, hn, (hq.installed e l hl).1, (hq.installed e l hl).2.1⟩
    · intro k x hx
      by_cases hk : k = l
      · subst k
        simp [hx]
      · simp [hk]
    · intro k
      by_cases hk : k = l
      · subst k
        simp
      · simp [hk]

theorem add_queues {q q' : Queues V T} {D : List (ℕ × Val V)} (hq : WellQueued q D)
    {e : Val V} {t : T} {l : ℕ} (h : q.add e t = .ok (q', some l)) : WellQueued q' D := by
  rcases add_new h with ⟨hnone, -, rfl, rfl⟩ | ⟨hl, hn, rfl⟩
  · refine ⟨?_, ?_, ?_, ?_, ?_⟩
    · intro k
      by_cases hk : k = q.fresh
      · simp [hk]
      · simpa [hk] using hq.nodup k
    · intro k hk
      have hne : k ≠ q.fresh := Nat.ne_of_gt hk
      simpa [hne] using hq.unused k (Nat.le_of_succ_le hk)
    · intro e' k hk
      by_cases hee : e' = e
      · obtain rfl : k = q.fresh := by simpa [hee, eq_comm] using hk
        simp [hee]
      · obtain ⟨hlt, hev, hne⟩ := hq.installed e' k (by simpa [hee] using hk)
        have hkf : k ≠ q.fresh := Nat.ne_of_lt hlt
        exact ⟨Nat.lt_succ_of_lt hlt, by simpa [hkf] using hev, by simpa [hkf] using hne⟩
    · intro p hp
      obtain ⟨hlt, hev, hne⟩ := hq.detached p hp
      have hkf : p.1 ≠ q.fresh := Nat.ne_of_lt hlt
      refine ⟨Nat.lt_succ_of_lt hlt, by simpa [hkf] using hev, ?_⟩
      by_cases hpe : p.2 = e
      · simpa [hpe] using Ne.symm hkf
      · simpa [hpe] using hne
    · intro k hk
      by_cases hkf : k = q.fresh
      · left
        simp [hkf]
      · rcases hq.live k (by simpa [hkf] using hk) with hh | hh
        · by_cases hke : q.event k = e
          · rw [hke, hnone] at hh
            cases hh
          · left
            simpa [hkf, hke] using hh
        · right
          simpa [hkf] using hh
  · obtain ⟨hlt, hev, hne⟩ := hq.installed e l hl
    refine ⟨?_, ?_, ?_, hq.detached, ?_⟩
    · intro k
      by_cases hk : k = l
      · subst k
        simpa [List.nodup_append, hq.nodup l] using fun x hx (e : x = t) => hn (e ▸ hx)
      · simpa [hk] using hq.nodup k
    · intro k hk
      have hkl : k ≠ l := by
        rintro rfl
        exact absurd hlt (not_lt.mpr hk)
      simpa [hkl] using hq.unused k hk
    · intro e' k hk
      obtain ⟨hlt, hev, hne⟩ := hq.installed e' k hk
      refine ⟨hlt, hev, ?_⟩
      by_cases hkl : k = l
      · subst k
        simp
      · simpa [hkl] using hne
    · intro k hk
      refine hq.live k ?_
      by_cases hkl : k = l
      · subst k
        exact hne
      · simpa [hkl] using hk

/-- The registrations made by one call: new lists for the thread only, each once. -/
structure Registration (q q' : Queues V T) (t : T) (as : List (Val V))
    (rs : List (Val V × ℕ)) : Prop where
  moved : OnlyMoved t q q'
  mine : ∀ l, t ∈ q'.queue l ↔ t ∈ q.queue l ∨ l ∈ rs.map Prod.snd
  unregistered : ∀ l ∈ rs.map Prod.snd, t ∉ q.queue l
  nodup : (rs.map Prod.snd).Nodup
  registered : ∀ p ∈ rs, Registered q' as p

theorem register_spec {q q' : Queues V T} {D : List (ℕ × Val V)} (hq : WellQueued q D)
    {t : T} {as : List (Val V)} {rs : List (Val V × ℕ)}
    (h : register queueLists t q as = .ok (q', rs)) :
    WellQueued q' D ∧ Registration q q' t as rs := by
  induction as generalizing q rs with
  | nil =>
    cases h
    exact ⟨hq, ⟨fun _ _ _ => Iff.rfl, fun _ _ => rfl, le_rfl⟩, by simp, by simp, by simp, by simp⟩
  | cons e as ih =>
    have weaken : ∀ {p : Queues V T}, Registration p q' t as rs → Registration p q' t (e :: as) rs :=
      fun hr => ⟨hr.moved, hr.mine, hr.unregistered, hr.nodup,
        fun p hp => (hr.registered p hp).weaken (List.subset_cons_self e as)⟩
    simp only [register] at h
    split at h
    · exact (ih hq h).imp_right weaken
    · rename_i hnil
      split at h
      · cases h
      · rename_i q₁ hadd
        obtain ⟨rfl, -⟩ := add_known hadd
        exact (ih hq h).imp_right weaken
      · rename_i q₁ l hadd
        obtain ⟨hm, hmine, hnew, hlt, hev⟩ := add_moved hq hadd
        split at h
        · cases h
        · rename_i q₂ rs₂ hrest
          cases h
          obtain ⟨hq', hr⟩ := ih (add_queues hq hadd) hrest
          refine ⟨hq', hm.trans hr.moved, ?_, ?_, ?_, ?_⟩
          · intro k
            rw [hr.mine, hmine, List.map_cons, List.mem_cons, or_assoc]
          · intro k hk
            rcases List.mem_cons.mp hk with rfl | hk
            · exact hnew
            · exact fun hin => hr.unregistered k hk ((hmine k).mpr (Or.inl hin))
          · rw [List.map_cons, List.nodup_cons]
            exact ⟨fun hk => hr.unregistered _ hk ((hmine _).mpr (Or.inr rfl)), hr.nodup⟩
          · intro p hp
            rcases List.mem_cons.mp hp with rfl | hp
            · exact ⟨hlt.trans_le hr.moved.fresh, (hr.moved.event _ hlt).trans hev, by simp, hnil⟩
            · exact (hr.registered p hp).weaken (List.subset_cons_self e as)

theorem cancel_spec {q : Queues V T} {D : List (ℕ × Val V)} (hq : WellQueued q D)
    (fuel : ℕ) (t : T) (rs : List (Val V × ℕ))
    (hr : ∀ p ∈ rs, p.2 < q.fresh ∧ q.event p.2 = p.1) :
    ∃ q', cancel queueLists fuel q t rs = some q' ∧ WellQueued q' D ∧ OnlyMoved t q q' ∧
      (∀ l, t ∈ q'.queue l ↔ t ∈ q.queue l ∧ l ∉ rs.map Prod.snd) := by
  induction rs generalizing q with
  | nil => exact ⟨q, rfl, hq, ⟨fun _ _ _ => Iff.rfl, fun _ _ => rfl, le_rfl⟩, by simp⟩
  | cons p rs ih =>
    obtain ⟨e, l⟩ := p
    obtain ⟨hlt, hev⟩ := hr (e, l) (by simp)
    obtain ⟨q', hc, hq', hm, hmine⟩ := ih (remove_queues hq hlt hev t)
      (fun p hp => hr p (List.mem_cons_of_mem _ hp))
    refine ⟨q', hc, hq', (remove_moved e t l).trans hm, ?_⟩
    intro k
    rw [hmine, remove_queue, List.map_cons, List.mem_cons, not_or]
    by_cases hk : k = l
    · subst k
      simp [(hq.nodup l).mem_erase_iff]
    · simp [hk]

end
end Coutil.EventInvariant
