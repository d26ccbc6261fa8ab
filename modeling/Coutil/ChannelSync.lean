import Coutil.Runs

set_option autoImplicit false

/-! The sync record of a channel, as in `src/lchaux.c`. The states that wait are not
looked at by the code, so the record is over any type of them; the calls below carry
the endpoint that the record does not store. -/
namespace Coutil.ChannelSync
open Runs

inductive Endpoint where
  | «in»
  | out
  | any
  deriving DecidableEq

/-- `LCU_CHSYNCIN`, `LCU_CHSYNCOUT` and `LCU_CHSYNCANY`. -/
def Endpoint.bits : Endpoint → ℕ
  | .in => 1
  | .out => 2
  | .any => 3

structure Sync (S : Type) where
  expected : ℕ
  queue : List S

section
variable {S : Type}

/-- As `lcuCS_getchsync` makes it. -/
def Sync.new : Sync S := ⟨0, []⟩

/-- How `lcuCS_matchchsync` ended for its caller: with a match, waiting in the queue, or
without a state to wait with. -/
inductive Answer (S : Type) where
  | matched (state : S)
  | waits
  | refused

/-- The endpoint is kept when the queue is found empty, whether or not the caller waits. -/
def Sync.expect (sync : Sync S) (endpoint : Endpoint) : Sync S :=
  { sync with expected := if endpoint = .any then Endpoint.any.bits
    else endpoint.bits ^^^ Endpoint.any.bits }

/-- `getstate` gives the state to wait with; a task waits with its own. -/
def Sync.suspend (sync : Sync S) : Option S → Sync S × Answer S
  | none => (sync, .refused)
  | some state => ({ sync with queue := sync.queue ++ [state] }, .waits)

def matchchsync (sync : Sync S) (endpoint : Endpoint) (getstate : Option S) : Sync S × Answer S :=
  match sync.queue with
  | [] => (sync.expect endpoint).suspend getstate
  | state :: queue =>
    if sync.expected &&& endpoint.bits ≠ 0 then ({ sync with queue := queue }, .matched state)
    else sync.suspend getstate

def removestateq [DecidableEq S] (sync : Sync S) (state : S) : Sync S :=
  { sync with queue := sync.queue.erase state }

end

/-- The kinds of callers: a task that yielded, `system.awaitch`, whose state may fail to
be prepared, and `channel:sync`, which never waits. -/
inductive Caller where
  | task
  | awaitch (prepared : Bool)
  | sync
  deriving DecidableEq

structure Call where
  id : ℕ
  endpoint : Endpoint
  caller : Caller
  deriving DecidableEq

def Call.getstate (call : Call) : Option Call :=
  match call.caller with
  | .task => some call
  | .awaitch true => some call
  | .awaitch false => none
  | .sync => none

structure State where
  sync : Sync Call
  calls : ℕ
  pairs : List (Call × Call)

inductive Act where
  | call (endpoint : Endpoint) (caller : Caller)
  | remove (call : Call)

def State.call (s : State) (endpoint : Endpoint) (caller : Caller) : State :=
  let call : Call := ⟨s.calls, endpoint, caller⟩
  match matchchsync s.sync endpoint call.getstate with
  | (sync, .matched state) => ⟨sync, s.calls + 1, (call, state) :: s.pairs⟩
  | (sync, _) => ⟨sync, s.calls + 1, s.pairs⟩

def next (s : State) : Act → Option State
  | .call endpoint caller => some (s.call endpoint caller)
  | .remove call => some { s with sync := removestateq s.sync call }

def State.init : State := ⟨Sync.new, 0, []⟩

/-- One of the endpoints is the opposite of the other, or any. -/
def Endpoint.compatible (a b : Endpoint) : Prop := a = .any ∨ b = .any ∨ a ≠ b

instance (a b : Endpoint) : Decidable (a.compatible b) := inferInstanceAs (Decidable (_ ∨ _))

/-- What the field `expected` says of the calls that wait. -/
inductive Expects : ℕ → List Call → Prop
  | empty (expected : ℕ) : Expects expected []
  | «in» {queue : List Call} (h : ∀ c ∈ queue, c.endpoint = .in) :
      Expects Endpoint.out.bits queue
  | out {queue : List Call} (h : ∀ c ∈ queue, c.endpoint = .out) :
      Expects Endpoint.in.bits queue
  | any (call : Call) (h : call.endpoint = .any) : Expects Endpoint.any.bits [call]

structure Inv (s : State) : Prop where
  expects : Expects s.sync.expected s.sync.queue
  ordered : s.sync.queue.Pairwise (fun a b => a.id < b.id)
  waiting : ∀ c ∈ s.sync.queue, c.id < s.calls ∧ c.getstate = some c
  paired : ∀ p ∈ s.pairs, p.1.id < s.calls ∧ p.2.id < s.calls
  once : ((s.pairs.flatMap (fun p => [p.1.id, p.2.id])) ++ s.sync.queue.map Call.id).Nodup

theorem Expects.sublist {expected : ℕ} {queue queue' : List Call} (h : Expects expected queue)
    (hs : queue'.Sublist queue) : Expects expected queue' := by
  cases h with
  | empty => exact List.sublist_nil.mp hs ▸ .empty expected
  | «in» h => exact .in (fun c hc => h c (hs.subset hc))
  | out h => exact .out (fun c hc => h c (hs.subset hc))
  | any call h =>
    rcases List.sublist_singleton.mp hs with rfl | rfl
    · exact .empty _
    · exact .any call h

/-- A call is let through exactly when some waiter is compatible with it. -/
theorem Expects.matches {expected : ℕ} {queue : List Call} (h : Expects expected queue)
    (hq : queue ≠ []) (endpoint : Endpoint) :
    expected &&& endpoint.bits ≠ 0 ↔ ∃ c ∈ queue, c.endpoint.compatible endpoint := by
  obtain ⟨c, rest, rfl⟩ := List.exists_cons_of_ne_nil hq
  have one : ∀ e, (∀ c' ∈ c :: rest, c'.endpoint = e) →
      ((∃ c' ∈ c :: rest, c'.endpoint.compatible endpoint) ↔ e.compatible endpoint) := by
    intro e he
    constructor
    · rintro ⟨c', hc', hcomp⟩
      rwa [he c' hc'] at hcomp
    · intro hcomp
      exact ⟨c, by simp, by rwa [he c (by simp)]⟩
  cases h with
  | «in» h =>
    rw [one .in h]
    cases endpoint <;> decide
  | out h =>
    rw [one .out h]
    cases endpoint <;> decide
  | any call h =>
    rw [one .any (by simpa using h)]
    cases endpoint <;> decide

theorem Expects.single (call : Call) :
    Expects ((Sync.new : Sync Call).expect call.endpoint).expected [call] := by
  obtain ⟨id, endpoint, caller⟩ := call
  cases endpoint with
  | «in» =>
    have he : ((Sync.new : Sync Call).expect .in).expected = Endpoint.out.bits := by decide
    rw [he]
    exact .in (fun c hc => by rw [List.mem_singleton.mp hc])
  | out =>
    have he : ((Sync.new : Sync Call).expect .out).expected = Endpoint.in.bits := by decide
    rw [he]
    exact .out (fun c hc => by rw [List.mem_singleton.mp hc])
  | any => exact .any _ rfl

theorem Expects.incompatible {expected : ℕ} {queue : List Call} (h : Expects expected queue) :
    queue.Pairwise (fun a b => ¬ a.endpoint.compatible b.endpoint) := by
  cases h with
  | empty => exact List.Pairwise.nil
  | «in» h =>
    refine List.pairwise_of_forall_mem_list (fun a ha b hb => ?_)
    simp [Endpoint.compatible, h a ha, h b hb]
  | out h =>
    refine List.pairwise_of_forall_mem_list (fun a ha b hb => ?_)
    simp [Endpoint.compatible, h a ha, h b hb]
  | any call h => exact List.pairwise_singleton _ _

/-- A call that was not let through can wait with the others. -/
theorem Expects.append {expected : ℕ} {queue : List Call} (h : Expects expected queue)
    (hq : queue ≠ []) {call : Call} (hno : ¬ expected &&& call.endpoint.bits ≠ 0) :
    Expects expected (queue ++ [call]) := by
  have hno : ¬ ∃ c ∈ queue, c.endpoint.compatible call.endpoint :=
    fun hc => hno ((h.matches hq call.endpoint).mpr hc)
  obtain ⟨c, rest, rfl⟩ := List.exists_cons_of_ne_nil hq
  have hc : ¬ c.endpoint.compatible call.endpoint := fun hc => hno ⟨c, by simp, hc⟩
  have heq : call.endpoint = c.endpoint ∧ c.endpoint ≠ .any := by
    simp only [Endpoint.compatible, not_or, not_not] at hc
    exact ⟨hc.2.2.symm, hc.1⟩
  cases h with
  | «in» h =>
    refine .in (fun c' hc' => ?_)
    rcases List.mem_append.mp hc' with hc' | hc'
    · exact h c' hc'
    · obtain rfl := List.mem_singleton.mp hc'
      exact heq.1.trans (h c (by simp))
  | out h =>
    refine .out (fun c' hc' => ?_)
    rcases List.mem_append.mp hc' with hc' | hc'
    · exact h c' hc'
    · obtain rfl := List.mem_singleton.mp hc'
      exact heq.1.trans (h c (by simp))
  | any call' h => exact absurd h heq.2

theorem getstate_eq {call state : Call} (h : call.getstate = some state) : state = call := by
  unfold Call.getstate at h
  split at h <;> cases h <;> rfl

/-- What a call does: it takes the first waiter, or is the last one to wait, or neither. -/
theorem call_cases (s : State) (endpoint : Endpoint) (caller : Caller) :
    (∃ c rest, s.sync.queue = c :: rest ∧ s.sync.expected &&& endpoint.bits ≠ 0 ∧
      s.call endpoint caller = ⟨⟨s.sync.expected, rest⟩, s.calls + 1,
        (⟨s.calls, endpoint, caller⟩, c) :: s.pairs⟩) ∨
    (s.sync.queue = [] ∧ s.call endpoint caller =
      ⟨⟨((Sync.new : Sync Call).expect endpoint).expected,
        (Call.getstate ⟨s.calls, endpoint, caller⟩).toList⟩, s.calls + 1, s.pairs⟩) ∨
    (s.sync.queue ≠ [] ∧ ¬ s.sync.expected &&& endpoint.bits ≠ 0 ∧ s.call endpoint caller =
      ⟨⟨s.sync.expected, s.sync.queue ++ (Call.getstate ⟨s.calls, endpoint, caller⟩).toList⟩,
        s.calls + 1, s.pairs⟩) := by
  obtain ⟨⟨expected, queue⟩, calls, pairs⟩ := s
  cases queue with
  | nil =>
    right; left
    refine ⟨rfl, ?_⟩
    cases hg : Call.getstate ⟨calls, endpoint, caller⟩ with
    | none => simp [State.call, matchchsync, hg, Sync.suspend, Sync.expect]
    | some state => simp [State.call, matchchsync, hg, Sync.suspend, Sync.expect]
  | cons c rest =>
    by_cases hm : expected &&& endpoint.bits ≠ 0
    · left
      exact ⟨c, rest, rfl, hm, by simp [State.call, matchchsync, hm]⟩
    · right; right
      refine ⟨by simp, hm, ?_⟩
      have hz : expected &&& endpoint.bits = 0 := not_not.mp hm
      cases hg : Call.getstate ⟨calls, endpoint, caller⟩ with
      | none => simp [State.call, matchchsync, hg, Sync.suspend, hz]
      | some state => simp [State.call, matchchsync, hg, Sync.suspend, hz]

/-- A new call that waits behind calls made before it. -/
theorem wait_inv {s : State} (h : Inv s) (endpoint : Endpoint) (caller : Caller) (expected : ℕ)
    (he : ∀ state, Call.getstate ⟨s.calls, endpoint, caller⟩ = some state →
      Expects expected (s.sync.queue ++ [state]))
    (hn : Call.getstate ⟨s.calls, endpoint, caller⟩ = none → Expects expected s.sync.queue) :
    Inv ⟨⟨expected, s.sync.queue ++ (Call.getstate ⟨s.calls, endpoint, caller⟩).toList⟩,
      s.calls + 1, s.pairs⟩ := by
  have hold : ∀ c ∈ s.sync.queue, c.id < s.calls + 1 ∧ c.getstate = some c :=
    fun c hc => ⟨Nat.lt_succ_of_lt (h.waiting c hc).1, (h.waiting c hc).2⟩
  have hpaired : ∀ p ∈ s.pairs, p.1.id < s.calls + 1 ∧ p.2.id < s.calls + 1 :=
    fun p hp => ⟨Nat.lt_succ_of_lt (h.paired p hp).1, Nat.lt_succ_of_lt (h.paired p hp).2⟩
  cases hg : Call.getstate ⟨s.calls, endpoint, caller⟩ with
  | none =>
    simp only [Option.toList_none, List.append_nil]
    exact ⟨hn hg, h.ordered, hold, hpaired, h.once⟩
  | some state =>
    obtain rfl := getstate_eq hg
    simp only [Option.toList_some]
    refine ⟨he _ hg, ?_, ?_, hpaired, ?_⟩
    · rw [List.pairwise_append]
      refine ⟨h.ordered, by simp, ?_⟩
      intro a ha b hb
      obtain rfl := List.mem_singleton.mp hb
      exact (h.waiting a ha).1
    · intro c hc
      rcases List.mem_append.mp hc with hc | hc
      · exact hold c hc
      · obtain rfl := List.mem_singleton.mp hc
        exact ⟨Nat.lt_succ_self _, hg⟩
    · rw [List.map_append, ← List.append_assoc, List.nodup_append]
      refine ⟨h.once, by simp, ?_⟩
      intro a ha b hb
      obtain rfl : b = s.calls := by simpa using hb
      have hlt : a < s.calls := by
        rcases List.mem_append.mp ha with ha | ha
        · simp only [List.mem_flatMap, List.mem_cons, List.not_mem_nil, or_false] at ha
          obtain ⟨p, hp, rfl | rfl⟩ := ha
          · exact (h.paired p hp).1
          · exact (h.paired p hp).2
        · obtain ⟨c, hc, rfl⟩ := List.mem_map.mp ha
          exact (h.waiting c hc).1
      exact Nat.ne_of_lt hlt

theorem call_inv {s : State} (h : Inv s) (endpoint : Endpoint) (caller : Caller) :
    Inv (s.call endpoint caller) := by
  rcases call_cases s endpoint caller with ⟨c, rest, hq, -, hs⟩ | ⟨hq, hs⟩ | ⟨hq, hm, hs⟩
  · rw [hs]
    have hsub : rest.Sublist s.sync.queue := hq ▸ List.sublist_cons_self c rest
    have hc : c ∈ s.sync.queue := by simp [hq]
    refine ⟨h.expects.sublist hsub, h.ordered.sublist hsub, ?_, ?_, ?_⟩
    · intro c' hc'
      obtain ⟨hlt, hg⟩ := h.waiting c' (hsub.subset hc')
      exact ⟨Nat.lt_succ_of_lt hlt, hg⟩
    · intro p hp
      rcases List.mem_cons.mp hp with rfl | hp
      · exact ⟨Nat.lt_succ_self _, Nat.lt_succ_of_lt (h.waiting c hc).1⟩
      · exact ⟨Nat.lt_succ_of_lt (h.paired p hp).1, Nat.lt_succ_of_lt (h.paired p hp).2⟩
    · have honce := h.once
      rw [hq, List.map_cons] at honce
      have hfresh : s.calls ∉ s.pairs.flatMap (fun p => [p.1.id, p.2.id]) ++ c.id :: rest.map Call.id := by
        intro hm
        rcases List.mem_append.mp hm with hm | hm
        · simp only [List.mem_flatMap, List.mem_cons, List.not_mem_nil, or_false] at hm
          obtain ⟨p, hp, he | he⟩ := hm
          · exact absurd (h.paired p hp).1 (by omega)
          · exact absurd (h.paired p hp).2 (by omega)
        · rw [← List.map_cons, ← hq] at hm
          obtain ⟨c', hc', he⟩ := List.mem_map.mp hm
          exact absurd (h.waiting c' hc').1 (by omega)
      have hperm : (c.id :: s.pairs.flatMap (fun p => [p.1.id, p.2.id]) ++ rest.map Call.id).Perm
          (s.pairs.flatMap (fun p => [p.1.id, p.2.id]) ++ c.id :: rest.map Call.id) :=
        List.perm_middle.symm
      change (s.calls :: (c.id :: s.pairs.flatMap (fun p => [p.1.id, p.2.id]) ++
        rest.map Call.id)).Nodup
      rw [List.nodup_cons]
      exact ⟨fun hm => hfresh (hperm.mem_iff.mp hm), hperm.nodup_iff.mpr honce⟩
  · rw [hs]
    have hw := wait_inv h endpoint caller ((Sync.new : Sync Call).expect endpoint).expected ?_ ?_
    · simpa [hq] using hw
    · intro state hg
      obtain rfl := getstate_eq hg
      simpa [hq] using Expects.single ⟨s.calls, endpoint, caller⟩
    · intro _
      rw [hq]
      exact .empty _
  · rw [hs]
    refine wait_inv h endpoint caller s.sync.expected ?_ (fun _ => h.expects)
    intro state hg
    obtain rfl := getstate_eq hg
    exact h.expects.append hq hm

theorem remove_inv {s : State} (h : Inv s) (call : Call) :
    Inv { s with sync := removestateq s.sync call } := by
  have hsub : (s.sync.queue.erase call).Sublist s.sync.queue := List.erase_sublist ..
  exact ⟨h.expects.sublist hsub, h.ordered.sublist hsub, fun c hc => h.waiting c (hsub.subset hc),
    h.paired, h.once.sublist ((hsub.map Call.id).append_left _)⟩

theorem next_inv {s u : State} (h : Inv s) {a : Act} (hu : next s a = some u) : Inv u := by
  cases a with
  | call endpoint caller =>
    cases hu
    exact call_inv h endpoint caller
  | remove call =>
    cases hu
    exact remove_inv h call

theorem init_inv : Inv State.init :=
  ⟨.empty 0, List.Pairwise.nil, by simp [State.init, Sync.new], by simp [State.init],
    by simp [State.init, Sync.new]⟩

/-- The calls that wait have one endpoint, the opposite of the expected one, or there is a
single one that takes any. A call is paired at once exactly when a waiter is compatible
with it, and then with the one that came first. Two compatible calls never wait together,
a call is in one pair at most, and `channel:sync` never waits. -/
theorem channel_matching (acts : List Act) (s : State) (h : run next State.init acts = some s) :
    Expects s.sync.expected s.sync.queue ∧
    (∀ endpoint getstate, (∃ c, (matchchsync s.sync endpoint getstate).2 = .matched c) ↔
      ∃ c ∈ s.sync.queue, c.endpoint.compatible endpoint) ∧
    (∀ endpoint getstate c, (matchchsync s.sync endpoint getstate).2 = .matched c →
      s.sync.queue.head? = some c ∧ ∀ c' ∈ s.sync.queue, c.id ≤ c'.id) ∧
    s.sync.queue.Pairwise (fun a b => ¬ a.endpoint.compatible b.endpoint) ∧
    (s.pairs.flatMap (fun p => [p.1.id, p.2.id]) ++ s.sync.queue.map Call.id).Nodup ∧
    (∀ c ∈ s.sync.queue, c.caller ≠ .sync) := by
  have hi : Inv s := run_invariant Inv (fun _ _ _ hi hu => next_inv hi hu) init_inv h
  have hhead : ∀ endpoint getstate c, (matchchsync s.sync endpoint getstate).2 = .matched c →
      s.sync.queue.head? = some c ∧ s.sync.expected &&& endpoint.bits ≠ 0 := by
    intro endpoint getstate c hm
    unfold matchchsync at hm
    split at hm
    · cases getstate <;> cases hm
    · rename_i state queue hq
      split at hm
      · rename_i he
        cases hm
        exact ⟨by simp [hq], he⟩
      · cases getstate <;> cases hm
  refine ⟨hi.expects, ?_, ?_, hi.expects.incompatible, hi.once, ?_⟩
  · intro endpoint getstate
    constructor
    · rintro ⟨c, hc⟩
      obtain ⟨hh, he⟩ := hhead endpoint getstate c hc
      have hne : s.sync.queue ≠ [] := by
        intro hnil
        rw [hnil] at hh
        cases hh
      exact (hi.expects.matches hne endpoint).mp he
    · rintro ⟨c, hc, hcomp⟩
      have hne : s.sync.queue ≠ [] := List.ne_nil_of_mem hc
      have he := (hi.expects.matches hne endpoint).mpr ⟨c, hc, hcomp⟩
      obtain ⟨first, rest, hq⟩ := List.exists_cons_of_ne_nil hne
      exact ⟨first, by simp only [matchchsync, hq, he, ne_eq, not_false_eq_true, if_true]⟩
  · intro endpoint getstate c hm
    obtain ⟨hh, -⟩ := hhead endpoint getstate c hm
    refine ⟨hh, ?_⟩
    obtain ⟨rest, hq⟩ := List.head?_eq_some_iff.mp hh
    have hord := hi.ordered
    rw [hq, List.pairwise_cons] at hord
    intro c' hc'
    rw [hq] at hc'
    rcases List.mem_cons.mp hc' with rfl | hc'
    · exact le_rfl
    · exact (hord.1 c' hc').le
  · intro c hc hsync
    have hg := (hi.waiting c hc).2
    simp [Call.getstate, hsync] at hg

theorem channel_matching_queued :
    ∃ s : State, run next State.init [.call .out .sync, .call .in .task, .call .in (.awaitch true),
        .call .in .sync, .call .any .task, .remove ⟨0, .any, .task⟩] = some s ∧
      s.sync.queue = [⟨2, .in, .awaitch true⟩] ∧
      s.pairs = [(⟨4, .any, .task⟩, ⟨1, .in, .task⟩)] ∧ Expects s.sync.expected s.sync.queue :=
  ⟨_, rfl, by decide, by decide, (channel_matching [.call .out .sync, .call .in .task,
    .call .in (.awaitch true), .call .in .sync, .call .any .task, .remove ⟨0, .any, .task⟩] _ rfl).1⟩

end Coutil.ChannelSync
