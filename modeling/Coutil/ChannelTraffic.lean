import Coutil.Census
import Coutil.TaskSystem

set_option autoImplicit false

/-! The channels that tasks wait on, the matches of them and their signals: what the channel
task of a task has to keep count of, with no threads and no stacks. -/
namespace Coutil.ChannelTraffic
open Census TaskSystem

/-- What the thread of a match has in hand: a channel it took, or the task it signalled and
whose channel task it will lock. -/
inductive Hand (T C : Type) where
  | empty
  | channel (c : C)
  | sent (t : T)
  deriving DecidableEq

structure Traffic (T C : Type) where
  queue : String → List C
  hands : List (Hand T C)
  signals : List C
  armed : List C
  wakes : T → ℤ
  stored : T → Bool
  tally : T → Tally

section
variable {T C : Type}

/-- The task whose channel task the thread will come to. -/
def Hand.heads (channels : Channels T C) : Hand T C → Option T
  | .empty => none
  | .channel c => channels.owner c
  | .sent t => some t

/-- The hand once the signal of the channel is sent. -/
def Hand.signalled (channels : Channels T C) (c : C) : Hand T C :=
  match channels.owner c with
  | none => .empty
  | some t => .sent t

theorem Hand.signalled_channel (channels : Channels T C) (c d : C) :
    Hand.signalled channels c ≠ .channel d := by
  unfold Hand.signalled
  split <;> simp

theorem Hand.signalled_sent (channels : Channels T C) (c : C) (t : T) :
    Hand.signalled channels c = .sent t ↔ channels.owner c = some t := by
  unfold Hand.signalled
  split <;> simp_all

theorem Hand.heads_signalled (channels : Channels T C) (c : C) :
    Hand.heads channels (Hand.signalled channels c) = channels.owner c := by
  unfold Hand.signalled
  split <;> simp_all [Hand.heads]

variable [DecidableEq T] [DecidableEq C]

def noted (tally : T → Tally) (owner : Option T) (change : Tally → Tally) : T → Tally :=
  match owner with
  | none => tally
  | some t => Function.update tally t (change (tally t))

def woken (wakes : T → ℤ) (owner : Option T) : T → ℤ :=
  match owner with
  | none => wakes
  | some t => Function.update wakes t (wakes t - 1)

inductive Move (channels : Channels T C) (v : Traffic T C) : Traffic T C → Prop
  | arm {c : C} (idle : c ∉ v.armed) :
      Move channels v
        { v with
          queue := Function.update v.queue (channels.name c) (v.queue (channels.name c) ++ [c])
          armed := v.armed ++ [c] }
  | cancel {c : C} {before after : List C}
      (waits : v.queue (channels.name c) = before ++ c :: after) :
      Move channels v
        { v with
          queue := Function.update v.queue (channels.name c) (before ++ after)
          armed := v.armed.erase c }
  | meet : Move channels v { v with hands := v.hands ++ [.empty] }
  | take {name : String} {c : C} {rest : List C} (first : v.queue name = c :: rest) :
      Move channels v
        { v with
          queue := Function.update v.queue name rest
          hands := v.hands ++ [.channel c]
          tally := noted v.tally (channels.owner c) fun tally =>
            { tally with matched := tally.matched + 1 } }
  | send {j : ℕ} {c : C} (at_j : v.hands[j]? = some (.channel c)) :
      Move channels v
        { v with
          hands := v.hands.set j (Hand.signalled channels c)
          signals := if c ∈ v.signals then v.signals else v.signals ++ [c]
          tally := noted v.tally (channels.owner c) fun tally =>
            { tally with sent := tally.sent + 1 } }
  | book {j : ℕ} {t : T} (at_j : v.hands[j]? = some (.sent t)) :
      Move channels v
        { v with
          hands := v.hands.set j .empty
          wakes := Function.update v.wakes t (v.wakes t + 1)
          stored := Function.update v.stored t false
          tally := noted v.tally (some t) fun tally =>
            { tally with
              booked := tally.booked + 1
              takes := tally.takes + if v.stored t then 1 else 0 } }
  | process {c : C} {before after : List C} (signalled : v.signals = before ++ c :: after)
      (away : ∀ t, channels.owner c = some t → v.stored t = false) :
      Move channels v
        { v with
          signals := before ++ after
          armed := v.armed.erase c
          wakes := woken v.wakes (channels.owner c)
          tally := noted v.tally (channels.owner c) fun tally =>
            { tally with processed := tally.processed + 1 } }
  | store {t : T} (zero : v.wakes t = 0) (away : v.stored t = false) :
      Move channels v
        { v with
          stored := Function.update v.stored t true
          tally := noted v.tally (some t) fun tally =>
            { tally with stores := tally.stores + 1 } }

/-- The matches between their signal and the end of their section. -/
def inflight (v : Traffic T C) (t : T) : ℕ :=
  census id v.hands (.sent t)

def ahead (channels : Channels T C) (v : Traffic T C) (t : T) : ℕ :=
  census (Hand.heads channels) v.hands (some t)

/-- The signals of the channels of the task that are still to be seen. -/
def signals (channels : Channels T C) (v : Traffic T C) (t : T) : ℕ :=
  census channels.owner v.signals (some t)

/-- A channel is in use while it waits, is in the hands of the thread of its match, or its
signal is not seen yet. -/
structure Used (channels : Channels T C) (v : Traffic T C) : Prop where
  named : ∀ name c, c ∈ v.queue name → name = channels.name c
  nodup : v.armed.Nodup
  count : ∀ c, v.armed.count c =
    (v.queue (channels.name c)).count c + census id v.hands (.channel c) + v.signals.count c

/-- The counter and the stored task of a channel task, against what happened to its waits. -/
structure Tallied (channels : Channels T C) (v : Traffic T C) (t : T) : Prop where
  wakes : v.wakes t = (v.tally t).booked - (v.tally t).processed
  sent : (v.tally t).sent = (v.tally t).booked + inflight v t
  matched : (v.tally t).matched = (v.tally t).booked + ahead channels v t
  processed : (v.tally t).sent = (v.tally t).processed + signals channels v t
  stored : v.stored t → v.wakes t = 0
  takes : (v.tally t).stores = (v.tally t).takes + if v.stored t then 1 else 0

theorem noted_mine {owner : Option T} {t : T} (mine : owner = some t) (tally : T → Tally)
    (change : Tally → Tally) : noted tally owner change t = change (tally t) := by
  subst owner
  exact Function.update_self t _ tally

theorem noted_other {owner : Option T} {t : T} (other : owner ≠ some t) (tally : T → Tally)
    (change : Tally → Tally) : noted tally owner change t = tally t := by
  cases owner with
  | none => rfl
  | some u =>
    have distinct : t ≠ u := fun same => other (by rw [same])
    exact Function.update_of_ne distinct _ tally

theorem woken_mine {owner : Option T} {t : T} (mine : owner = some t) (wakes : T → ℤ) :
    woken wakes owner t = wakes t - 1 := by
  subst owner
  exact Function.update_self t _ wakes

theorem woken_other {owner : Option T} {t : T} (other : owner ≠ some t) (wakes : T → ℤ) :
    woken wakes owner t = wakes t := by
  cases owner with
  | none => rfl
  | some u =>
    have distinct : t ≠ u := fun same => other (by rw [same])
    exact Function.update_of_ne distinct _ wakes

section
variable {channels : Channels T C} {v v' : Traffic T C}

theorem Used.named_update (used : Used channels v) {name : String} {queue : List C}
    (mine : ∀ d ∈ queue, name = channels.name d) (other : String) (d : C)
    (waits : d ∈ Function.update v.queue name queue other) : other = channels.name d := by
  by_cases here : other = name
  · subst other
    rw [Function.update_self] at waits
    exact mine d waits
  · rw [Function.update_of_ne here] at waits
    exact used.named other d waits

theorem Used.arm (used : Used channels v) {c : C} (idle : c ∉ v.armed) :
    Used channels
      { v with
        queue := Function.update v.queue (channels.name c) (v.queue (channels.name c) ++ [c])
        armed := v.armed ++ [c] } := by
  refine ⟨used.named_update fun d waits => ?_,
    List.nodup_append.mpr ⟨used.nodup, List.nodup_singleton c, ?_⟩, fun d => ?_⟩
  · obtain old | new := List.mem_append.mp waits
    · exact used.named _ d old
    · rw [List.mem_singleton.mp new]
  · rintro d old e new rfl
    rw [List.mem_singleton.mp new] at old
    exact idle old
  · have before := used.count d
    change (v.armed ++ [c]).count d = _
    by_cases here : channels.name d = channels.name c
    · simp only [here, Function.update_self, List.count_append] at before ⊢
      omega
    · have other : d ≠ c := fun same => here (by rw [same])
      simp only [Function.update_of_ne here, List.count_append,
        List.count_singleton, beq_iff_eq, Ne.symm other, if_false] at before ⊢
      omega

theorem count_split {A : Type} [DecidableEq A] (before after : List A) (a b : A) :
    (before ++ a :: after).count b = (before ++ after).count b + if a = b then 1 else 0 := by
  simp only [List.count_append, List.count_cons, beq_iff_eq]
  omega

theorem Used.cancel (used : Used channels v) {c : C} {before after : List C}
    (waits : v.queue (channels.name c) = before ++ c :: after) :
    Used channels
      { v with
        queue := Function.update v.queue (channels.name c) (before ++ after)
        armed := v.armed.erase c } := by
  refine ⟨used.named_update fun d left => used.named _ d ?_, used.nodup.erase c, fun d => ?_⟩
  · rw [waits]
    simp only [List.mem_append, List.mem_cons] at left ⊢
    exact left.imp_right Or.inr
  · have total := used.count d
    change (v.armed.erase c).count d = _
    by_cases same : c = d
    · subst d
      rw [waits, count_split, if_pos rfl] at total
      simp only [Function.update_self, List.count_erase_self]
      omega
    · rw [List.count_erase_of_ne (Ne.symm same)]
      by_cases here : channels.name d = channels.name c
      · rw [here, waits, count_split, if_neg same] at total
        simp only [here, Function.update_self]
        exact total
      · simp only [Function.update_of_ne here]
        exact total

theorem Used.take (used : Used channels v) {name : String} {c : C} {rest : List C}
    (first : v.queue name = c :: rest) (tally : T → Tally) :
    Used channels
      { v with
        queue := Function.update v.queue name rest
        hands := v.hands ++ [.channel c]
        tally := tally } := by
  have mine : name = channels.name c := used.named name c (by rw [first]; exact List.mem_cons_self)
  subst name
  refine ⟨used.named_update fun d left => ?_, used.nodup, fun d => ?_⟩
  · exact used.named _ d (by rw [first]; exact List.mem_cons_of_mem c left)
  · have before := used.count d
    simp only [census_append, id, Hand.channel.injEq]
    by_cases here : channels.name d = channels.name c
    · simp only [here, first, Function.update_self, List.count_cons, beq_iff_eq] at before ⊢
      omega
    · have other : c ≠ d := fun same => here (by rw [same])
      simp only [Function.update_of_ne here, other, if_false]
      exact before

/-- A channel in the hands of a thread has no signal, so that no signal is merged with it. -/
theorem Used.unsignalled (used : Used channels v) {j : ℕ} {c : C}
    (at_j : v.hands[j]? = some (.channel c)) : c ∉ v.signals := by
  intro signalled
  have once := List.nodup_iff_count_le_one.mp used.nodup c
  have held := (census_pos id).mpr ⟨j, _, at_j, rfl⟩
  have again := List.count_pos_iff.mpr signalled
  have total := used.count c
  simp only [id] at held
  omega

theorem Used.send (used : Used channels v) {j : ℕ} {c : C}
    (at_j : v.hands[j]? = some (.channel c)) (tally : T → Tally) :
    Used channels
      { v with
        hands := v.hands.set j (Hand.signalled channels c)
        signals := if c ∈ v.signals then v.signals else v.signals ++ [c]
        tally := tally } := by
  refine ⟨used.named, used.nodup, fun d => ?_⟩
  have before := used.count d
  have changed := census_set id at_j (Hand.signalled channels c) (.channel d)
  simp only [id, Hand.channel.injEq, Hand.signalled_channel, if_false] at changed
  simp only [used.unsignalled at_j, if_false, List.count_append, List.count_singleton, beq_iff_eq]
  omega

theorem Used.process (used : Used channels v) {c : C} {before after : List C}
    (signalled : v.signals = before ++ c :: after) (wakes : T → ℤ) (tally : T → Tally) :
    Used channels
      { v with
        signals := before ++ after
        armed := v.armed.erase c
        wakes := wakes
        tally := tally } := by
  refine ⟨used.named, used.nodup.erase c, fun d => ?_⟩
  have total := used.count d
  rw [signalled, count_split] at total
  change (v.armed.erase c).count d = _
  by_cases same : c = d
  · subst d
    rw [if_pos rfl] at total
    simp only [List.count_erase_self]
    omega
  · rw [if_neg same] at total
    rw [List.count_erase_of_ne (Ne.symm same)]
    exact total

theorem Used.rehand (used : Used channels v)
    (hands : ∀ c, census id v'.hands (.channel c) = census id v.hands (.channel c))
    (queue : v'.queue = v.queue) (armed : v'.armed = v.armed) (signals : v'.signals = v.signals) :
    Used channels v' := by
  refine ⟨fun name d waits => ?_, by rw [armed]; exact used.nodup, fun c => ?_⟩
  · rw [queue] at waits
    exact used.named name d waits
  · rw [armed, queue, signals, hands]
    exact used.count c

theorem Used.move (used : Used channels v) (move : Move channels v v') : Used channels v' := by
  cases move with
  | arm idle => exact used.arm idle
  | cancel waits => exact used.cancel waits
  | meet =>
    refine used.rehand (fun c => ?_) rfl rfl rfl
    simp [census_append]
  | take first => exact used.take first _
  | send at_j => exact used.send at_j _
  | book at_j =>
    refine used.rehand (fun c => ?_) rfl rfl rfl
    have changed := census_set id at_j .empty (.channel c)
    simpa using changed
  | process signalled away => exact used.process signalled _ _
  | store zero away => exact used.rehand (fun _ => rfl) rfl rfl rfl

variable {t : T}

theorem Tallied.congr (tallied : Tallied channels v t) (wakes : v'.wakes t = v.wakes t)
    (stored : v'.stored t = v.stored t) (tally : v'.tally t = v.tally t)
    (inflying : inflight v' t = inflight v t)
    (heading : ahead channels v' t = ahead channels v t)
    (signalling : signals channels v' t = signals channels v t) : Tallied channels v' t := by
  refine ⟨?_, ?_, ?_, ?_, fun kept => ?_, ?_⟩
  · rw [wakes, tally]
    exact tallied.wakes
  · rw [tally, inflying]
    exact tallied.sent
  · rw [tally, heading]
    exact tallied.matched
  · rw [tally, signalling]
    exact tallied.processed
  · rw [wakes]
    exact tallied.stored (stored ▸ kept)
  · rw [tally, stored]
    exact tallied.takes

theorem Tallied.take (tallied : Tallied channels v t) (c : C) (queue : String → List C) :
    Tallied channels
      { v with
        queue := queue
        hands := v.hands ++ [.channel c]
        tally := noted v.tally (channels.owner c) fun tally =>
          { tally with matched := tally.matched + 1 } } t := by
  have flying : inflight { v with hands := v.hands ++ [.channel c] } t = inflight v t := by
    simp [inflight, census_append]
  have heading := census_append (Hand.heads channels) v.hands (.channel c) (some t)
  by_cases mine : channels.owner c = some t
  · rw [if_pos (show Hand.heads channels (.channel c) = some t from mine)] at heading
    refine ⟨?_, ?_, ?_, ?_, tallied.stored, ?_⟩ <;> simp only [noted_mine mine]
    · exact tallied.wakes
    · exact tallied.sent.trans (congrArg _ flying.symm)
    · have before := tallied.matched
      simp only [ahead] at before ⊢
      omega
    · exact tallied.processed
    · exact tallied.takes
  · rw [if_neg (show Hand.heads channels (.channel c) ≠ some t from mine)] at heading
    exact tallied.congr rfl rfl (by simp only [noted_other mine]) flying heading rfl

theorem Tallied.send (tallied : Tallied channels v t) (used : Used channels v) {j : ℕ} {c : C}
    (at_j : v.hands[j]? = some (.channel c)) :
    Tallied channels
      { v with
        hands := v.hands.set j (Hand.signalled channels c)
        signals := if c ∈ v.signals then v.signals else v.signals ++ [c]
        tally := noted v.tally (channels.owner c) fun tally =>
          { tally with sent := tally.sent + 1 } } t := by
  rw [if_neg (used.unsignalled at_j)]
  have flying := census_set id at_j (Hand.signalled channels c) (.sent t)
  have heading := census_set (Hand.heads channels) at_j (Hand.signalled channels c) (some t)
  have signalling := census_append channels.owner v.signals c (some t)
  rw [Hand.heads_signalled] at heading
  simp only [id, reduceCtorEq, if_false, Hand.signalled_sent] at flying
  have same := Nat.add_right_cancel heading
  by_cases mine : channels.owner c = some t
  · rw [if_pos mine] at flying signalling
    refine ⟨?_, ?_, ?_, ?_, tallied.stored, ?_⟩ <;> simp only [noted_mine mine]
    · exact tallied.wakes
    · have before := tallied.sent
      simp only [inflight] at before ⊢
      omega
    · exact tallied.matched.trans (congrArg _ same.symm)
    · have before := tallied.processed
      simp only [signals] at before ⊢
      omega
    · exact tallied.takes
  · rw [if_neg mine] at flying signalling
    exact tallied.congr rfl rfl (by simp only [noted_other mine]) flying same signalling

theorem Tallied.book (tallied : Tallied channels v t) {j : ℕ} {u : T}
    (at_j : v.hands[j]? = some (.sent u)) :
    Tallied channels
      { v with
        hands := v.hands.set j .empty
        wakes := Function.update v.wakes u (v.wakes u + 1)
        stored := Function.update v.stored u false
        tally := noted v.tally (some u) fun tally =>
          { tally with
            booked := tally.booked + 1
            takes := tally.takes + if v.stored u then 1 else 0 } } t := by
  have flying := census_set id at_j .empty (.sent t)
  have heading := census_set (Hand.heads channels) at_j .empty (some t)
  simp only [Hand.heads, id, reduceCtorEq, if_false, Nat.add_zero, Hand.sent.injEq,
    Option.some.injEq] at flying heading
  by_cases mine : u = t
  · subst u
    simp only [if_true] at flying heading
    have wakes := tallied.wakes
    have sent := tallied.sent
    have matched := tallied.matched
    simp only [inflight, ahead] at sent matched
    refine ⟨?_, ?_, ?_, ?_, ?_, ?_⟩ <;> simp only [noted_mine, Function.update_self]
    · push_cast
      omega
    · simp only [inflight]
      omega
    · simp only [ahead]
      omega
    · exact tallied.processed
    · simp
    · exact tallied.takes
  · have other : some u ≠ some t := fun same => mine (Option.some.inj same)
    rw [if_neg mine] at flying heading
    exact tallied.congr (Function.update_of_ne (Ne.symm mine) _ _)
      (Function.update_of_ne (Ne.symm mine) _ _) (by simp only [noted_other other]) flying heading
      rfl

theorem Tallied.process (tallied : Tallied channels v t) {c : C} {before after : List C}
    (signalled : v.signals = before ++ c :: after)
    (away : ∀ t, channels.owner c = some t → v.stored t = false) (armed : List C) :
    Tallied channels
      { v with
        signals := before ++ after
        armed := armed
        wakes := woken v.wakes (channels.owner c)
        tally := noted v.tally (channels.owner c) fun tally =>
          { tally with processed := tally.processed + 1 } } t := by
  have signalling := census_split channels.owner before after c (some t)
  rw [← signalled] at signalling
  by_cases mine : channels.owner c = some t
  · rw [if_pos mine] at signalling
    have wakes := tallied.wakes
    have processed := tallied.processed
    simp only [signals] at processed
    refine ⟨?_, ?_, ?_, ?_, ?_, ?_⟩ <;> simp only [noted_mine mine, woken_mine mine]
    · push_cast
      omega
    · exact tallied.sent
    · exact tallied.matched
    · simp only [signals]
      omega
    · intro kept
      rw [away t mine] at kept
      cases kept
    · exact tallied.takes
  · rw [if_neg mine] at signalling
    exact tallied.congr (woken_other mine _) rfl (by simp only [noted_other mine]) rfl rfl
      signalling.symm

theorem Tallied.store (tallied : Tallied channels v t) {u : T} (zero : v.wakes u = 0)
    (away : v.stored u = false) :
    Tallied channels
      { v with
        stored := Function.update v.stored u true
        tally := noted v.tally (some u) fun tally =>
          { tally with stores := tally.stores + 1 } } t := by
  by_cases mine : u = t
  · subst u
    have takes := tallied.takes
    simp only [away, Bool.false_eq_true, if_false] at takes
    refine ⟨?_, ?_, ?_, ?_, fun _ => zero, ?_⟩ <;> simp only [noted_mine, Function.update_self]
    · exact tallied.wakes
    · exact tallied.sent
    · exact tallied.matched
    · exact tallied.processed
    · simp only [if_true]
      omega
  · have other : some u ≠ some t := fun same => mine (Option.some.inj same)
    exact tallied.congr rfl (Function.update_of_ne (Ne.symm mine) _ _)
      (by simp only [noted_other other]) rfl rfl rfl

theorem Tallied.move (tallied : Tallied channels v t) (used : Used channels v)
    (move : Move channels v v') : Tallied channels v' t := by
  cases move with
  | arm idle => exact tallied.congr rfl rfl rfl rfl rfl rfl
  | cancel waits => exact tallied.congr rfl rfl rfl rfl rfl rfl
  | meet =>
    refine tallied.congr rfl rfl rfl ?_ ?_ rfl
    · simp [inflight, census_append]
    · simp [ahead, census_append, Hand.heads]
  | take first => exact tallied.take _ _
  | send at_j => exact tallied.send used at_j
  | book at_j => exact tallied.book at_j
  | process signalled away => exact tallied.process signalled away _
  | store zero away => exact tallied.store zero away

end

end

end Coutil.ChannelTraffic
