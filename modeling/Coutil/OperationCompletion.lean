import Coutil.OperationStates

set_option autoImplicit false

/-! What ends an awaiting call. Every entry of the log that ends a call is justified by
what happened before it, whatever is still in flight of earlier calls. -/
namespace Coutil.OperationCompletion
open Runs Operation OperationStates

section
variable {V W : Type}

def Ended (log : List (Entry V W)) (n : ℕ) : Prop :=
  ∃ source returned, .ended n source returned ∈ log

/-- The call armed the activation, or kept it armed. -/
def Held (log : List (Entry V W)) (n act : ℕ) : Prop := .armed n act ∈ log ∨ .kept n act ∈ log

/-- An explicit resume ended a call that waited for the activation. -/
def Cancelled (log : List (Entry V W)) (act : ℕ) : Prop :=
  ∃ n values returned, .ended n (.resumed values) returned ∈ log ∧ Held log n act

/-- The activation was armed, and no explicit resume has cancelled it. -/
structure Open (log : List (Entry V W)) (act : ℕ) : Prop where
  armed : ∃ n, .armed n act ∈ log
  live : ¬ Cancelled log act

/-- The setup function of the call gives this on the stack that the call was made with. -/
def Gives (log : List (Entry V W)) (n : ℕ) (outcome : Setup V) : Prop :=
  ∃ client stack w fresh, .began n client stack ∈ log ∧ outcome = client.setup w fresh stack

def arms : Setup V → Bool
  | .armedresults _ | .armed _ => true
  | _ => false

/-- What an entry says of what happened before it. A call may end by an explicit resume, with
exactly its values; by a callback just delivered on an activation that the call itself armed
or kept armed, that no explicit resume has cancelled, with what its own function for the
results makes of the values on the stack that its setup function left; or by its own setup
function, which runs at most once, and only on the stack of the call. -/
def Justified (log : List (Entry V W)) : Entry V W → Prop
  | .began n _ _ => ∀ client stack, .began n client stack ∉ log
  | .setup n outcome => ¬ Ended log n ∧ (∀ other, .setup n other ∉ log) ∧ Gives log n outcome
  | .armed n act => (∀ m, .armed m act ∉ log) ∧ ∃ outcome, .setup n outcome ∈ log ∧ arms outcome
  | .kept n act => Open log act ∧ ∃ stack, .setup n (.armed stack) ∈ log
  | .ended n (.resumed values) returned => ¬ Ended log n ∧ returned = values ∧
      log.head? = some (.resumed values)
  | .ended n (.callback act values) returned => ¬ Ended log n ∧
      log.head? = some (.delivered act values) ∧ Held log n act ∧ ¬ Cancelled log act ∧
      ∃ client begun stack, .began n client begun ∈ log ∧ .setup n (.armed stack) ∈ log ∧
        returned = returns client.results stack values
  | .ended n (.setup outcome) returned => ¬ Ended log n ∧ .setup n outcome ∈ log ∧
      (∀ stack, outcome ≠ .armed stack) ∧ returned = outcome.values
  | _ => True

/-- The last entry first, as in the state. -/
inductive Journal : List (Entry V W) → Prop
  | nil : Journal []
  | cons {entry : Entry V W} {log : List (Entry V W)} (h : Justified log entry)
      (hl : Journal log) : Journal (entry :: log)

theorem Journal.justified {log : List (Entry V W)} (h : Journal log)
    {before after : List (Entry V W)} {entry : Entry V W} (he : log = after ++ entry :: before) :
    Justified before entry := by
  induction h generalizing after with
  | nil => simp at he
  | cons hj hl ih =>
    cases after with
    | nil =>
      obtain ⟨rfl, rfl⟩ := List.cons.inj he
      exact hj
    | cons a after =>
      obtain ⟨-, hrest⟩ := List.cons.inj he
      exact ih hrest

def isEnd (n : ℕ) : Entry V W → Bool
  | .ended m _ _ => decide (m = n)
  | _ => false

theorem countP_isEnd_pos {log : List (Entry V W)} {n : ℕ} :
    0 < log.countP (isEnd n) ↔ Ended log n := by
  rw [List.countP_pos_iff]
  constructor
  · rintro ⟨e, he, hn⟩
    cases e with
    | ended m source returned =>
      obtain rfl : m = n := by simpa [isEnd] using hn
      exact ⟨source, returned, he⟩
    | _ => simp [isEnd] at hn
  · rintro ⟨source, returned, he⟩
    exact ⟨_, he, by simp [isEnd]⟩

theorem Journal.ended_once {log : List (Entry V W)} (h : Journal log) (n : ℕ) :
    log.countP (isEnd n) ≤ 1 := by
  induction h with
  | nil => simp
  | cons hj hl ih =>
    rename_i e log
    rw [List.countP_cons]
    by_cases he : isEnd n e = true
    · cases e with
      | ended m source returned =>
        obtain rfl : m = n := by simpa [isEnd] using he
        have hno : ¬ Ended log m := by cases source <;> exact hj.1
        have hz : log.countP (isEnd m) = 0 := Nat.eq_zero_of_not_pos
          (fun hp => hno (countP_isEnd_pos.mp hp))
        simp [hz, he]
      | _ => simp [isEnd] at he
    · simpa [he] using ih

def waits : Place V W → Bool
  | .endop _ | .resetop _ _ _ => true
  | _ => false

/-- The call and the activation that an entry names. -/
def callOf : Entry V W → ℕ
  | .began n _ _ | .setup n _ | .armed n _ | .kept n _ | .suspended n | .ended n _ _ => n
  | _ => 0

def actOf : Entry V W → ℕ
  | .armed _ act | .kept _ act => act
  | _ => 0

/-- Every number in the log was given out before. -/
structure Numbered (s : State V W) : Prop where
  calls : ∀ e ∈ s.log, callOf e ≤ s.calls
  acts : ∀ e ∈ s.log, actOf e ≤ s.acts
  uv : s.op.uv.act ≤ s.acts

/-- The coroutine is inside its last call, which may have suspended. -/
structure Calling (s : State V W) : Prop where
  journal : Journal s.log
  numbered : Numbered s
  unended : ¬ Ended s.log s.calls
  began : ∃ client stack, .began s.calls client stack ∈ s.log ∧ client.results = s.results
  others : ∀ n, .suspended n ∈ s.log → Ended s.log n ∨ n = s.calls

/-- Between two steps: a call that suspended has ended, or it is the last one and the
coroutine is still suspended in it, on an activation that the call holds or before its setup
function runs. -/
structure Ghost (s : State V W) : Prop where
  journal : Journal s.log
  numbered : Numbered s
  ended : ∀ n, .suspended n ∈ s.log → Ended s.log n ∨ (n = s.calls ∧ waits s.place = true)
  waiting : waits s.place = true → ¬ Ended s.log s.calls ∧
    ∃ client stack, .began s.calls client stack ∈ s.log ∧ client.results = s.results
  holding : ∀ stack, s.place = .endop stack → .setup s.calls (.armed stack) ∈ s.log ∧
    Held s.log s.calls s.op.uv.act ∧ Open s.log s.op.uv.act
  reseting : ∀ target setup stack, s.place = .resetop target setup stack →
    (∀ outcome, .setup s.calls outcome ∉ s.log) ∧
    ∃ client, .began s.calls client stack ∈ s.log ∧ client.setup = setup
  completed : s.place = .running .incohdl → Open s.log s.op.uv.act

theorem Ghost.calling {s : State V W} (h : Ghost s) (hw : waits s.place = true) : Calling s where
  journal := h.journal
  numbered := h.numbered
  unended := (h.waiting hw).1
  began := (h.waiting hw).2
  others n hn := (h.ended n hn).imp_right And.left

/-- Entries that neither end a call nor hold an activation leave the other facts alone. -/
def plain : Entry V W → Bool
  | .armed _ _ | .kept _ _ | .ended _ _ _ => false
  | _ => true

/-- Entries that say nothing of a call. -/
def quiet : Entry V W → Bool
  | .resumed _ | .delivered _ _ | .closed _ => true
  | _ => false

theorem ended_plain {entry : Entry V W} (h : plain entry = true) {log : List (Entry V W)}
    {n : ℕ} : Ended (entry :: log) n ↔ Ended log n := by
  cases entry <;> simp [plain, Ended] at h ⊢

theorem held_plain {entry : Entry V W} (h : plain entry = true) {log : List (Entry V W)}
    {n act : ℕ} : Held (entry :: log) n act ↔ Held log n act := by
  cases entry <;> simp [plain, Held] at h ⊢

theorem cancelled_plain {entry : Entry V W} (h : plain entry = true) {log : List (Entry V W)}
    {act : ℕ} : Cancelled (entry :: log) act ↔ Cancelled log act := by
  cases entry <;> simp [plain, Cancelled, Held] at h ⊢

theorem Open.plain {entry : Entry V W} (h : plain entry = true) {log : List (Entry V W)}
    {act : ℕ} (live : Open log act) : Open (entry :: log) act where
  armed := live.armed.imp fun _ hm => List.mem_cons_of_mem _ hm
  live hc := live.live ((cancelled_plain h).mp hc)

theorem numbered_cons {s u : State V W} (h : Numbered s) {entry : Entry V W}
    (hlog : u.log = entry :: s.log) (hcall : callOf entry ≤ u.calls) (hact : actOf entry ≤ u.acts)
    (hcalls : s.calls ≤ u.calls) (hacts : s.acts ≤ u.acts) (huv : u.op.uv.act ≤ u.acts) :
    Numbered u := by
  refine ⟨?_, ?_, huv⟩
  · intro e he
    rw [hlog] at he
    rcases List.mem_cons.mp he with rfl | he
    · exact hcall
    · exact (h.calls e he).trans hcalls
  · intro e he
    rw [hlog] at he
    rcases List.mem_cons.mp he with rfl | he
    · exact hact
    · exact (h.acts e he).trans hacts

theorem Numbered.op {s : State V W} (h : Numbered s) {op : Op} (huv : op.uv.act ≤ s.acts) :
    Numbered { s with op := op } := ⟨h.calls, h.acts, huv⟩

theorem Calling.op {s : State V W} (h : Calling s) {op : Op} (huv : op.uv.act ≤ s.acts) :
    Calling { s with op := op } :=
  ⟨h.journal, h.numbered.op huv, h.unended, h.began, h.others⟩

theorem note_ghost {s : State V W} (h : Ghost s) (entry : Entry V W) (hq : quiet entry = true) :
    Ghost (s.note entry) := by
  have hp : plain entry = true := by cases entry <;> simp [quiet, plain] at hq ⊢
  have hj : Justified s.log entry := by cases entry <;> simp [quiet, Justified] at hq ⊢
  have hcall : callOf entry = 0 := by cases entry <;> simp [quiet, callOf] at hq ⊢
  have hact : actOf entry = 0 := by cases entry <;> simp [quiet, actOf] at hq ⊢
  have old : ∀ e, quiet e = false → e ∈ (s.note entry).log → e ∈ s.log := by
    intro e he hm
    rcases List.mem_cons.mp hm with rfl | hm
    · rw [hq] at he
      cases he
    · exact hm
  refine ⟨.cons hj h.journal, ?_, ?_, ?_, ?_, ?_, ?_⟩
  · exact numbered_cons h.numbered rfl (hcall ▸ Nat.zero_le _) (hact ▸ Nat.zero_le _) le_rfl le_rfl
      h.numbered.uv
  · intro n hn
    exact (h.ended n (old _ rfl hn)).imp_left (ended_plain hp).mpr
  · intro hw
    obtain ⟨unended, client, stack, began, results⟩ := h.waiting hw
    exact ⟨fun hh => unended ((ended_plain hp).mp hh), client, stack,
      List.mem_cons_of_mem _ began, results⟩
  · intro stack hs
    obtain ⟨setup, held, live⟩ := h.holding stack hs
    exact ⟨List.mem_cons_of_mem _ setup, (held_plain hp).mpr held, live.plain hp⟩
  · intro target setup stack hs
    obtain ⟨unset, client, began, same⟩ := h.reseting target setup stack hs
    exact ⟨fun outcome hm => unset outcome (old _ rfl hm), client, List.mem_cons_of_mem _ began,
      same⟩
  · intro hs
    exact (h.completed hs).plain hp

/-- The call suspends: in `k_endop` only on an activation that it holds, in `k_resetopk` only
before its setup function runs. -/
theorem suspended_ghost {s u : State V W} (h : Calling s)
    (hlog : u.log = .suspended s.calls :: s.log) (hcalls : u.calls = s.calls)
    (hacts : u.acts = s.acts) (hresults : u.results = s.results) (hw : waits u.place = true)
    (huv : u.op.uv.act = s.op.uv.act)
    (hhold : ∀ stack, u.place = .endop stack → .setup s.calls (.armed stack) ∈ s.log ∧
      Held s.log s.calls s.op.uv.act ∧ Open s.log s.op.uv.act)
    (hreset : ∀ target setup stack, u.place = .resetop target setup stack →
      (∀ outcome, .setup s.calls outcome ∉ s.log) ∧
      ∃ client, .began s.calls client stack ∈ s.log ∧ client.setup = setup) : Ghost u := by
  have hp : plain (.suspended s.calls : Entry V W) = true := rfl
  refine ⟨?_, ?_, ?_, ?_, ?_, ?_, ?_⟩
  · rw [hlog]
    exact .cons trivial h.journal
  · exact numbered_cons h.numbered hlog hcalls.ge (Nat.zero_le _) hcalls.ge hacts.ge
      (huv ▸ hacts ▸ h.numbered.uv)
  · intro n hn
    rw [hlog] at hn ⊢
    rcases List.mem_cons.mp hn with hn | hn
    · cases hn
      exact Or.inr ⟨hcalls.symm, hw⟩
    · rcases h.others n hn with he | rfl
      · exact Or.inl ((ended_plain hp).mpr he)
      · exact Or.inr ⟨hcalls.symm, hw⟩
  · intro _
    rw [hlog, hcalls, hresults]
    obtain ⟨client, stack, began, results⟩ := h.began
    exact ⟨fun hh => h.unended ((ended_plain hp).mp hh), client, stack,
      List.mem_cons_of_mem _ began, results⟩
  · intro stack hs
    rw [hlog, hcalls, huv]
    obtain ⟨setup, held, live⟩ := hhold stack hs
    exact ⟨List.mem_cons_of_mem _ setup, (held_plain hp).mpr held, live.plain hp⟩
  · intro target setup stack hs
    rw [hlog, hcalls]
    obtain ⟨unset, client, began, same⟩ := hreset target setup stack hs
    exact ⟨fun outcome hm => unset outcome (by simpa using hm), client,
      List.mem_cons_of_mem _ began, same⟩
  · intro hs
    rw [hs] at hw
    cases hw

/-- The call ends with a justified entry, and the coroutine goes on. -/
theorem ended_ghost {s : State V W} (h : Calling s) {context : Context} {source : Source V}
    {returned : List V} (hj : Justified s.log (.ended s.calls source returned))
    (hc : context = .incohdl → (∀ values, source ≠ .resumed values) ∧
      Open s.log s.op.uv.act) : Ghost (s.ended context source returned) where
  journal := .cons hj h.journal
  numbered := numbered_cons h.numbered rfl le_rfl (Nat.zero_le _) le_rfl le_rfl h.numbered.uv
  ended n hn := by
    left
    have hn : .suspended n ∈ s.log := by simpa [State.ended, State.note] using hn
    rcases h.others n hn with ⟨source', returned', hm⟩ | rfl
    · exact ⟨source', returned', List.mem_cons_of_mem _ hm⟩
    · exact ⟨source, returned, List.mem_cons_self ..⟩
  waiting hw := by cases hw
  holding stack hs := by cases hs
  reseting target setup stack hs := by cases hs
  completed hs := by
    have hctx : context = .incohdl := by simpa [State.ended] using hs
    obtain ⟨hsrc, live⟩ := hc hctx
    refine ⟨live.armed.imp fun _ hm => List.mem_cons_of_mem _ hm, ?_⟩
    rintro ⟨n, values, returned', hm, hh⟩
    refine live.live ⟨n, values, returned', ?_, by simpa [State.ended, State.note, Held] using hh⟩
    rcases List.mem_cons.mp hm with hm | hm
    · cases hm
      exact absurd rfl (hsrc values)
    · exact hm

theorem bind_ok {ε α β : Type} {x : Except ε α} {f : α → Except ε β} {b : β} :
    (x >>= f) = .ok b ↔ ∃ a, x = .ok a ∧ f a = .ok b := by
  cases x with
  | error e => simp [bind, Except.bind]
  | ok a => simp [bind, Except.bind]

theorem cancelop_act {o o' : Op} (h : o.cancelop = .ok o') : o'.uv.act = o.uv.act := by
  simp only [Op.cancelop, bind_ok] at h
  obtain ⟨-, -, h⟩ := h
  split at h
  · cases h
    rfl
  · split at h
    · cases h
      rfl
    · cases h
      unfold Op.closehdl
      split <;> rfl

theorem halted_act {o o' : Op} {cancels : Bool} (h : o.halted cancels = .ok o') :
    o'.uv.act = o.uv.act := by
  unfold Op.halted at h
  split at h
  · exact cancelop_act h
  · cases h
    rfl

theorem resumedcohdl_act {o o' : Op} (h : o.resumedcohdl = .ok o') : o'.uv.act = o.uv.act := by
  unfold Op.resumedcohdl at h
  split at h
  · exact cancelop_act h
  · cases h
    rfl

theorem resumedcoreq_act (o : Op) : o.resumedcoreq.uv = o.uv := by
  unfold Op.resumedcoreq
  split <;> rfl

/-- The epilogue of a callback changes the operation only. -/
theorem leave_spec {s u : State V W} {context : Context} {place : Place V W}
    (h : s.leave context place = .ok u) :
    ∃ op, u = { s with place := place, op := op } ∧ op.uv.act = s.op.uv.act := by
  cases context with
  | outside =>
    cases h
    exact ⟨s.op, rfl, rfl⟩
  | incoreq =>
    cases h
    exact ⟨_, rfl, by rw [resumedcoreq_act]⟩
  | incohdl =>
    simp only [State.leave, bind_ok] at h
    obtain ⟨op, hop, h⟩ := h
    cases h
    exact ⟨op, rfl, resumedcohdl_act hop⟩

theorem leave_ghost {s u : State V W} (h : Ghost s) {context : Context}
    (hp : s.place = .running context) {place : Place V W} (hplace : ∀ cs, away cs place)
    (hu : s.leave context place = .ok u) (hrun : ∀ c, place ≠ .running c) : Ghost u := by
  obtain ⟨op, rfl, huv⟩ := leave_spec hu
  have hw : waits place = false := by
    cases place with
    | endop stack => exact (hplace []).elim
    | resetop target setup stack => exact (hplace []).elim
    | _ => rfl
  refine ⟨h.journal, ⟨h.numbered.calls, h.numbered.acts, huv ▸ h.numbered.uv⟩, ?_, ?_, ?_, ?_, ?_⟩
  · intro n hn
    rcases h.ended n hn with he | ⟨-, hw'⟩
    · exact Or.inl he
    · rw [hp] at hw'
      cases hw'
  · intro hw'
    exact absurd (hw.symm.trans hw') (by simp)
  · rintro stack rfl
    cases hw
  · rintro target setup stack rfl
    cases hw
  · intro hs
    exact absurd hs (hrun _)

theorem arm_act {o o' : Op} {target : Target} {act : ℕ} {ok : Bool}
    (h : o.arm target act ok = .ok o') : o'.uv.act = if ok then act else o.uv.act := by
  cases target with
  | request =>
    simp only [Op.arm, Op.armcoreq, bind_ok] at h
    obtain ⟨-, -, h⟩ := h
    cases ok <;> cases h <;> rfl
  | handle type =>
    simp only [Op.arm, Op.armcohdl, bind_ok] at h
    obtain ⟨-, -, h⟩ := h
    cases ok <;> cases h <;> rfl

/-- The setup function of the call has run, on the stack of the call. -/
theorem setup_calling {s : State V W} (h : Calling s) {outcome : Setup V}
    (unset : ∀ other, .setup s.calls other ∉ s.log) (gives : Gives s.log s.calls outcome) :
    Calling (s.note (.setup s.calls outcome)) := by
  have hp : plain (.setup s.calls outcome : Entry V W) = true := rfl
  refine ⟨.cons ⟨h.unended, unset, gives⟩ h.journal, ?_, ?_, ?_, ?_⟩
  · exact numbered_cons h.numbered rfl le_rfl (Nat.zero_le _) le_rfl le_rfl h.numbered.uv
  · exact fun he => h.unended ((ended_plain hp).mp he)
  · obtain ⟨client, stack, began, results⟩ := h.began
    exact ⟨client, stack, List.mem_cons_of_mem _ began, results⟩
  · intro n hn
    have hn : .suspended n ∈ s.log := by simpa [State.note] using hn
    exact (h.others n hn).imp_left (ended_plain hp).mpr

/-- The call holds an activation from here on. -/
theorem held_calling {s u : State V W} (h : Calling s) {entry : Entry V W}
    (hentry : entry = .armed s.calls u.op.uv.act ∨ entry = .kept s.calls u.op.uv.act)
    (hj : Justified s.log entry) (hlog : u.log = entry :: s.log) (hcalls : u.calls = s.calls)
    (hresults : u.results = s.results) (hacts : s.acts ≤ u.acts) (huv : u.op.uv.act ≤ u.acts) :
    Calling u ∧ Held u.log u.calls u.op.uv.act := by
  have hended : ∀ n, Ended u.log n ↔ Ended s.log n := by
    intro n
    rw [hlog]
    rcases hentry with rfl | rfl <;> simp [Ended]
  refine ⟨⟨?_, ?_, ?_, ?_, ?_⟩, ?_⟩
  · rw [hlog]
    exact .cons hj h.journal
  · have hcall : callOf entry = s.calls := by rcases hentry with rfl | rfl <;> rfl
    have hact : actOf entry = u.op.uv.act := by rcases hentry with rfl | rfl <;> rfl
    exact numbered_cons h.numbered hlog (hcall.trans hcalls.symm).le (hact ▸ huv) hcalls.ge hacts huv
  · rw [hcalls]
    exact fun hn => h.unended ((hended _).mp hn)
  · obtain ⟨client, stack, began, results⟩ := h.began
    rw [hlog, hcalls, hresults]
    exact ⟨client, stack, List.mem_cons_of_mem _ began, results⟩
  · intro n hn
    have hn : .suspended n ∈ s.log := by
      rw [hlog] at hn
      rcases hentry with rfl | rfl <;> simpa using hn
    rw [hcalls]
    exact (h.others n hn).imp_left (hended n).mpr
  · rw [hlog, hcalls]
    rcases hentry with rfl | rfl
    · exact Or.inl (List.mem_cons_self ..)
    · exact Or.inr (List.mem_cons_self ..)

/-- Arming for the call: a fresh activation, which nobody cancelled. -/
theorem arm_calling {s u : State V W} (h : Calling s) {target : Target} {outcome : Setup V}
    (setup : .setup s.calls outcome ∈ s.log) (hout : arms outcome = true)
    (hu : s.arm target true = .ok u) :
    Calling u ∧ .setup u.calls outcome ∈ u.log ∧ Held u.log u.calls u.op.uv.act ∧
      Open u.log u.op.uv.act := by
  simp only [State.arm, bind_ok] at hu
  obtain ⟨op, hop, hu⟩ := hu
  have hact : op.uv.act = s.acts + 1 := arm_act hop
  cases hu
  have unarmed : ∀ m, .armed m (s.acts + 1) ∉ s.log := fun m hm =>
    absurd (h.numbered.acts _ hm) (by simp [actOf])
  have hj : Justified s.log (.armed s.calls (s.acts + 1)) := ⟨unarmed, outcome, setup, hout⟩
  have hcall := held_calling (u := { (s.note (.armed s.calls (s.acts + 1))) with
    op := op, acts := s.acts + 1 }) h (Or.inl (by rw [hact])) hj rfl rfl rfl (Nat.le_succ _) hact.le
  refine ⟨hcall.1, List.mem_cons_of_mem _ setup, hcall.2, ⟨s.calls, ?_⟩, ?_⟩
  · rw [hact]
    exact List.mem_cons_self ..
  · rintro ⟨n, values, returned, hm, hh⟩
    have hm : .ended n (.resumed values) returned ∈ s.log := by simpa [State.note] using hm
    have hh : n = s.calls ∨ Held s.log n (s.acts + 1) := by
      simp only [State.note, Held, List.mem_cons, Entry.armed.injEq, reduceCtorEq, false_or,
        hact] at hh
      tauto
    rcases hh with rfl | hh | hh
    · exact h.unended ⟨_, _, hm⟩
    · exact unarmed n hh
    · exact absurd (h.numbered.acts _ hh) (by simp [actOf])

theorem arm_failed {s u : State V W} (h : Calling s) {target : Target} {outcome : Setup V}
    (setup : .setup s.calls outcome ∈ s.log) (hu : s.arm target false = .ok u) :
    Calling u ∧ .setup u.calls outcome ∈ u.log := by
  simp only [State.arm, bind_ok] at hu
  obtain ⟨op, hop, hu⟩ := hu
  have hact : op.uv.act = s.op.uv.act := arm_act hop
  cases hu
  exact ⟨h.op (hact ▸ h.numbered.uv), setup⟩

theorem startedresults_ghost {s u : State V W} (h : Calling s) {context : Context}
    {outcome : Setup V} (setup : .setup s.calls outcome ∈ s.log)
    (results : ∀ stack, outcome ≠ .armed stack)
    (hc : context = .incohdl → Open s.log s.op.uv.act)
    (hu : s.startedresults context outcome outcome.values = .ok u) : Ghost u := by
  simp only [State.startedresults, bind_ok] at hu
  obtain ⟨-, -, op, hop, hu⟩ := hu
  cases hu
  have hact := cancelop_act hop
  exact ended_ghost (h.op (hact ▸ h.numbered.uv)) ⟨h.unended, setup, results, rfl⟩
    (fun hctx => ⟨by simp, hact ▸ hc hctx⟩)

theorem startedpending_ghost {s u : State V W} (h : Calling s) {context : Context}
    {stack : List V} (setup : .setup s.calls (.armed stack) ∈ s.log)
    (hheld : Held s.log s.calls s.op.uv.act) (hc : Open s.log s.op.uv.act)
    (hu : s.startedpending context stack = .ok u) : Ghost u := by
  simp only [State.startedpending, bind_ok] at hu
  obtain ⟨-, -, hu⟩ := hu
  obtain ⟨op, rfl, huv⟩ := leave_spec hu
  refine suspended_ghost h rfl rfl rfl rfl rfl huv ?_ nofun
  intro stack' hs
  cases hs
  exact ⟨setup, hheld, hc⟩

theorem startop_ghost {s u : State V W} (h : Calling s) {context : Context}
    (hctx : context ≠ .incohdl) {target : Target} {outcome : Setup V}
    (unset : ∀ other, .setup s.calls other ∉ s.log) (gives : Gives s.log s.calls outcome)
    (hu : s.startop context target outcome = .ok u) : Ghost u := by
  have hno : ∀ {P : Prop}, context = .incohdl → P := fun hh => absurd hh hctx
  have hcall := setup_calling h unset gives
  have setup : .setup s.calls outcome ∈ (s.note (.setup s.calls outcome)).log :=
    List.mem_cons_self ..
  cases outcome with
  | error =>
    cases hu
    exact ended_ghost hcall ⟨hcall.unended, setup, nofun, rfl⟩ hno
  | results values => exact startedresults_ghost hcall setup nofun hno hu
  | armerror values =>
    simp only [State.startop, bind_ok] at hu
    obtain ⟨s', hs', hu⟩ := hu
    obtain ⟨hcall, setup⟩ := arm_failed hcall setup hs'
    exact startedresults_ghost hcall setup nofun hno hu
  | armedresults values =>
    simp only [State.startop, bind_ok] at hu
    obtain ⟨s', hs', hu⟩ := hu
    obtain ⟨hcall, setup, -⟩ := arm_calling hcall setup rfl hs'
    exact startedresults_ghost hcall setup nofun hno hu
  | armed stack =>
    simp only [State.startop, bind_ok] at hu
    obtain ⟨s', hs', hu⟩ := hu
    obtain ⟨hcall, setup, hheld, hc⟩ := arm_calling hcall setup rfl hs'
    exact startedpending_ghost hcall setup hheld hc hu

/-- The call keeps the handle of an earlier call, which ended by a callback of it. -/
theorem startsame_ghost {s u : State V W} (h : Calling s) {context : Context}
    (hc : Open s.log s.op.uv.act) {outcome : Setup V}
    (unset : ∀ other, .setup s.calls other ∉ s.log) (gives : Gives s.log s.calls outcome)
    (hu : s.startsame context outcome = .ok u) : Ghost u := by
  have hcall := setup_calling h unset gives
  have hc : Open (s.note (.setup s.calls outcome)).log s.op.uv.act := hc.plain rfl
  have setup : .setup s.calls outcome ∈ (s.note (.setup s.calls outcome)).log :=
    List.mem_cons_self ..
  cases outcome with
  | error =>
    cases hu
    exact ended_ghost hcall ⟨hcall.unended, setup, nofun, rfl⟩ (fun _ => ⟨nofun, hc⟩)
  | results values => exact startedresults_ghost hcall setup nofun (fun _ => hc) hu
  | armerror values => exact startedresults_ghost hcall setup nofun (fun _ => hc) hu
  | armedresults values => exact startedresults_ghost hcall setup nofun (fun _ => hc) hu
  | armed stack =>
    have hold := held_calling
      (u := (s.note (.setup s.calls (.armed stack))).note (.kept s.calls s.op.uv.act)) hcall
      (Or.inr rfl) ⟨hc, stack, setup⟩ rfl rfl rfl le_rfl h.numbered.uv
    refine startedpending_ghost hold.1 (List.mem_cons_of_mem _ setup) hold.2
      ⟨hc.armed.imp fun _ hm => List.mem_cons_of_mem _ hm, ?_⟩ hu
    rintro ⟨n, values, returned, hm, hh⟩
    have hm : .ended n (.resumed values) returned ∈ (s.note (.setup s.calls (.armed stack))).log := by
      simpa [State.note] using hm
    have hh : n = s.calls ∨ Held (s.note (.setup s.calls (.armed stack))).log n s.op.uv.act := by
      simp only [State.note, Held, List.mem_cons, Entry.kept.injEq, reduceCtorEq, false_or] at hh ⊢
      tauto
    rcases hh with rfl | hh
    · exact hcall.unended ⟨_, _, hm⟩
    · exact hc.live ⟨n, values, returned, hm, hh⟩

/-- What is left when `lcuU_endcoreq` did not clear `FLAG_CLEANUP` and the setup function
then raised an error: no later setup function gets through `startedopk`. -/
structure Stained (s : State V W) (saved : Bool) : Prop where
  op : s.op = ⟨⟨true, saved, false, true⟩, .request true, saved, 0, 0, .idle⟩
  place : if saved then s.place = .running .incoreq else away [.incoreq, .incohdl] s.place

def Tracked (s : State V W) : Prop := Inv s ∨ ∃ saved, Stained s saved

theorem stained_startop {s u : State V W} {saved : Bool}
    (hop : s.op = ⟨⟨true, saved, false, true⟩, .request true, saved, 0, 0, .idle⟩)
    {context : Context} {target : Target} {outcome : Setup V}
    (hu : s.startop context target outcome = .ok u) :
    u.op = s.op ∧ u.place = .running context := by
  obtain ⟨op, results, cancel, place, calls, acts, log⟩ := s
  obtain rfl : op = _ := hop
  cases outcome with
  | error =>
    cases hu
    exact ⟨rfl, rfl⟩
  | results values => cases hu
  | armerror values => cases target <;> cases hu
  | armedresults values => cases target <;> cases hu
  | armed stack => cases target <;> cases hu

theorem stained_context {s : State V W} {saved : Bool} (h : Stained s saved) {context : Context}
    (hp : s.place = .running context) : context = if saved then .incoreq else .outside := by
  have hplace := h.place
  rw [hp] at hplace
  cases saved with
  | true => simpa using hplace
  | false => cases context <;> simp [away] at hplace ⊢

theorem stained_leave {s u : State V W} {saved : Bool} (h : Stained s saved) {context : Context}
    (hp : s.place = .running context) {place : Place V W} (hplace : ∀ cs, away cs place)
    (hu : s.leave context place = .ok u) : Stained u false := by
  obtain rfl := stained_context h hp
  obtain ⟨op, results, cancel, place', calls, acts, log⟩ := s
  obtain ⟨hop, -⟩ := h
  obtain rfl : op = _ := hop
  cases saved with
  | true =>
    cases hu
    exact ⟨rfl, hplace _⟩
  | false =>
    cases hu
    exact ⟨rfl, hplace _⟩

theorem stained_away {s : State V W} {saved : Bool} (h : Stained s saved) : away [] s.place := by
  have hplace := h.place
  cases saved with
  | true =>
    rw [if_pos rfl] at hplace
    simp [hplace, away]
  | false => exact away_weaken hplace (by simp)

theorem stained_next {s u : State V W} {saved : Bool} (h : Stained s saved) {a : Act V W}
    (hu : next s a = some u) : ∃ saved', Stained u saved' := by
  have hidle : s.op.uv = .idle := by rw [h.op]
  have haway := stained_away h
  obtain ⟨r, hs, hr⟩ := next_cases hu
  cases hs with
  | call hp ha =>
    obtain rfl := stained_context h hp
    rename_i target client w stack
    have hstart : s.resetop (if saved then .incoreq else .outside) target client w stack =
        (({ s with
          calls := s.calls + 1, results := client.results, cancel := client.cancel } :
            State V W).note (.began (s.calls + 1) client stack)).startop
          (if saved then .incoreq else .outside) target
          (client.setup w true stack) := by
      simp [State.resetop, State.note, h.op, Op.checkreset, Kind.unknown]
    rw [hstart] at hr
    obtain ⟨hop, hpl⟩ := stained_startop (by exact h.op) hr
    refine ⟨saved, hop.trans h.op, ?_⟩
    cases saved with
    | true => simpa using hpl
    | false => simp [hpl, away]
  | yield hp =>
    refine ⟨false, stained_leave h hp ?_ hr⟩
    exact fun _ => trivial
  | finish hp =>
    refine ⟨false, stained_leave h hp ?_ hr⟩
    exact fun _ => trivial
  | resume hp =>
    have hplace := h.place
    rw [hp] at hplace
    cases hr
    cases saved with
    | true => simp at hplace
    | false => exact ⟨false, h.op, by simp [away]⟩
  | endop hp =>
    rw [hp] at haway
    exact haway.elim
  | resetop hp =>
    rw [hp] at haway
    exact haway.elim
  | requestcb huv hl => cases hidle.symm.trans huv
  | handlecb huv hk hl => cases hidle.symm.trans huv
  | closecb huv hl => cases hidle.symm.trans huv

theorem harmful_next {s u : State V W} (h : Inv s) {a : Act V W} (hc : ¬ Harmless s a)
    (hu : next s a = some u) : Stained u true := by
  obtain ⟨r, hs, hr⟩ := next_cases hu
  cases hs with
  | requestcb huv hl =>
    obtain ⟨op, results, cancel, place, calls, acts, log⟩ := s
    simp only [Harmless, not_not] at hc
    obtain ⟨hp, hcl⟩ := hc
    cases h with
    | resetingRequest c act' target setup stack h =>
      obtain rfl : c = true := hcl
      rename_i w values act
      have hstart : (⟨⟨⟨true, true, false, true⟩, .request true, true, 1 - 1, 0, .idle⟩, results,
          cancel, .resetop target setup stack, calls, acts, .delivered act values :: log⟩ :
          State V W).startop .incoreq target (setup w true stack) = .ok u := hr
      obtain ⟨hop, hpl⟩ := stained_startop rfl hstart
      exact ⟨hop, hpl⟩
    | resetingCanceledHandle act target setup stack h => cases huv
    | awaitingRequest act stack => cases hcl
    | awaitingHandle type act stack h => cases hcl
    | resetingClosedHandle type act target setup stack h => cases hcl
    | freed h => cases hp
    | completedRequest => cases hp
    | canceledRequest c act h => cases hp
    | completedHandle type act => cases hp
    | canceledHandle act h => cases hp
    | closingHandle type act h => cases hp
  | _ => exact absurd trivial hc

theorem next_tracked {s u : State V W} (h : Tracked s) {a : Act V W} (hu : next s a = some u) :
    Tracked u := by
  rcases h with h | ⟨saved, h⟩
  · by_cases hc : Harmless s a
    · exact Or.inl (next_valid h hc hu)
    · exact Or.inr ⟨true, harmful_next h hc hu⟩
  · exact Or.inr (stained_next h hu)

theorem tracked_running {s : State V W} (h : Tracked s) (hp : s.place = .running .incohdl) :
    s.op.flags.request = false := by
  rcases h with h | ⟨saved, h⟩
  · obtain ⟨op, results, cancel, place, calls, acts, log⟩ := s
    obtain rfl : place = .running .incohdl := hp
    cases h with
    | freed h => simp [away] at h
    | canceledRequest c act h => simp [away] at h
    | canceledHandle act h => simp [away] at h
    | completedHandle type act => rfl
    | closingHandle type act h => rfl
  · have := stained_context h hp
    cases saved <;> cases this

theorem tracked_open {s : State V W} (h : Tracked s) {context : Context}
    (hp : s.place = .running context) (hr : s.op.flags.request = false)
    (hc : s.op.flags.cleanup = false) (hk : s.op.kind.isClosing = false) :
    context = .incohdl := by
  rcases h with h | ⟨saved, h⟩
  · obtain ⟨op, results, cancel, place, calls, acts, log⟩ := s
    obtain rfl : place = .running context := hp
    cases h with
    | completedHandle type act => rfl
    | freed h => cases hr
    | completedRequest => cases hr
    | canceledRequest c act h => cases hr
    | canceledHandle act h => cases hc
    | closingHandle type act h => cases hk
  · rw [h.op] at hr
    cases hr

theorem checkreset_act (o : Op) (target : Target) : (o.checkreset target).2.uv.act = o.uv.act := by
  have hclose : o.closehdl.uv.act = o.uv.act := by
    unfold Op.closehdl
    split <;> rfl
  unfold Op.checkreset
  split
  · split <;> rfl
  · split
    · split
      · split
        · rfl
        · exact hclose
      · exact hclose
    · rfl

theorem checkreset_free {o o' : Op} {target : Target} (h : o.checkreset target = (.freeop, o')) :
    o.flags.request = true := by
  unfold Op.checkreset at h
  split at h
  · assumption
  · split at h
    · split at h
      · split at h <;> cases h
      · cases h
    · cases h

theorem checkreset_same {o o' : Op} {target : Target} (h : o.checkreset target = (.sameop, o')) :
    o.flags.request = false ∧ o.flags.cleanup = false ∧ o.kind.isClosing = false := by
  unfold Op.checkreset at h
  split at h
  · split at h <;> cases h
  · rename_i hr
    split at h
    · rename_i hc
      exact ⟨by simpa using hr, by simpa using hc⟩
    · cases h

theorem resetop_ghost {s u : State V W} (ht : Tracked s) (h : Ghost s) {context : Context}
    (hp : s.place = .running context) {target : Target} {client : Client V W} {w : W}
    {stack : List V} (hu : s.resetop context target client w stack = .ok u) : Ghost u := by
  have hplain : plain (.began (s.calls + 1) client stack : Entry V W) = true := rfl
  have unused : ∀ e ∈ s.log, callOf e ≠ s.calls + 1 := by
    intro e he
    have := h.numbered.calls e he
    omega
  have hcall : Calling (({ s with
      calls := s.calls + 1, results := client.results, cancel := client.cancel } : State V W).note
        (.began (s.calls + 1) client stack)) := by
    refine ⟨.cons ?_ h.journal, ?_, ?_, ⟨client, stack, List.mem_cons_self .., rfl⟩, ?_⟩
    · exact fun _ _ hm => unused _ hm rfl
    · exact numbered_cons h.numbered rfl le_rfl (Nat.zero_le _) (Nat.le_succ _) le_rfl h.numbered.uv
    · intro he
      obtain ⟨source, returned, hm⟩ := (ended_plain hplain).mp he
      exact unused _ hm rfl
    · intro n hn
      have hn : .suspended n ∈ s.log := by simpa [State.note] using hn
      rcases h.ended n hn with he | ⟨-, hw⟩
      · exact Or.inl ((ended_plain hplain).mpr he)
      · rw [hp] at hw
        cases hw
  have unset : ∀ outcome : Setup V, .setup (s.calls + 1) outcome ∉
      .began (s.calls + 1) client stack :: s.log := by
    intro outcome hm
    exact unused _ (by simpa using hm) rfl
  have gives : ∀ fresh, Gives (.began (s.calls + 1) client stack :: s.log) (s.calls + 1)
      (client.setup w fresh stack) :=
    fun fresh => ⟨client, stack, w, fresh, List.mem_cons_self .., rfl⟩
  have hact := checkreset_act s.op target
  cases hst : s.op.checkreset target with
  | mk status op =>
    rw [hst] at hact
    cases status with
    | freeop =>
      simp only [State.resetop, State.note, hst] at hu
      refine startop_ghost hcall ?_ unset (gives true) hu
      rintro rfl
      have := checkreset_free hst
      rw [tracked_running ht hp] at this
      cases this
    | sameop =>
      simp only [State.resetop, State.note, hst] at hu
      obtain ⟨hr, hc, hk⟩ := checkreset_same hst
      obtain rfl := tracked_open ht hp hr hc hk
      exact startsame_ghost hcall ((h.completed hp).plain hplain) unset (gives false) hu
    | waitop =>
      simp only [State.resetop, State.note, hst, State.yieldresetk, bind_ok] at hu
      obtain ⟨-, -, hu⟩ := hu
      obtain ⟨op', rfl, huv⟩ := leave_spec hu
      refine suspended_ghost hcall rfl rfl rfl rfl rfl (huv.trans hact) (fun _ hs => by cases hs) ?_
      intro target' setup stack' hs
      cases hs
      exact ⟨unset, client, List.mem_cons_self .., rfl⟩

/-- The call ends by an explicit resume, with the values of it. -/
theorem halted_ghost {s : State V W} (h : Ghost s) (hw : waits s.place = true) {values : List V}
    {op : Op} (huv : op.uv.act = s.op.uv.act) :
    Ghost (({ (s.note (.resumed values)) with op := op } : State V W).ended .outside
      (.resumed values) values) := by
  have hn : Ghost (s.note (.resumed values)) := note_ghost h _ rfl
  have hc := hn.calling hw
  exact ended_ghost (hc.op (huv ▸ h.numbered.uv)) ⟨hc.unended, rfl, rfl⟩ (by simp)

theorem k_endophalted_ghost {s u : State V W} (h : Ghost s) {stack values : List V} {w : W}
    (hp : s.place = .endop stack)
    (hu : (s.note (.resumed values)).k_endophalted w stack values = .ok u) : Ghost u := by
  simp only [State.k_endophalted, bind_ok] at hu
  obtain ⟨-, -, op, hop, hu⟩ := hu
  cases hu
  have hact : op.uv.act = s.op.uv.act := (halted_act hop).trans rfl
  exact halted_ghost h (by rw [hp]; rfl) hact

theorem k_resetopkhalted_ghost {s u : State V W} (h : Ghost s) (hw : waits s.place = true)
    {values : List V} (hu : (s.note (.resumed values)).k_resetopkhalted values = .ok u) :
    Ghost u := by
  simp only [State.k_resetopkhalted, bind_ok] at hu
  obtain ⟨-, -, hu⟩ := hu
  cases hu
  exact halted_ghost h hw rfl

/-- A callback that resumes nobody, or a resume of a coroutine that yielded by itself. -/
theorem moved_ghost {s : State V W} (h : Ghost s) {op : Op} {place : Place V W}
    (huv : op.uv.act ≤ s.acts) (hw : waits place = waits s.place)
    (hend : ∀ stack, place ≠ .endop stack)
    (hreset : ∀ target setup stack, place = .resetop target setup stack →
      s.place = .resetop target setup stack) (hrun : place ≠ .running .incohdl) :
    Ghost { s with op := op, place := place } where
  journal := h.journal
  numbered := ⟨h.numbered.calls, h.numbered.acts, huv⟩
  ended n hn := (h.ended n hn).imp_right (fun hh => ⟨hh.1, hw.trans hh.2⟩)
  waiting hh := h.waiting (hw.symm.trans hh)
  holding stack hs := absurd hs (hend stack)
  reseting target setup stack hs := h.reseting target setup stack (hreset target setup stack hs)
  completed hs := absurd hs hrun

/-- The callback delivered on the activation that the waiting call holds. -/
theorem k_endopresumed_ghost {s u : State V W} (h : Ghost s) {stack values : List V}
    (hp : s.place = .endop stack) (op : Op) (huv : op.uv.act ≤ s.acts) {context : Context}
    (hact : context = .incohdl → op.uv.act = s.op.uv.act)
    (hu : ({ (s.note (.delivered s.op.uv.act values)) with op := op } : State V W).k_endopresumed
      context s.op.uv.act stack values = .ok u) : Ghost u := by
  have hn : Ghost (s.note (.delivered s.op.uv.act values)) := note_ghost h _ rfl
  have hw : waits s.place = true := by rw [hp]; rfl
  have hc := hn.calling hw
  obtain ⟨setup, hheld, hopen⟩ := hn.holding stack hp
  obtain ⟨client, begun, began, results⟩ := hc.began
  simp only [State.k_endopresumed, bind_ok] at hu
  obtain ⟨-, -, hu⟩ := hu
  cases hu
  have hcall : Calling ({ (s.note (.delivered s.op.uv.act values)) with
      op := { op with flags := { op.flags with pending := false } } } : State V W) := hc.op huv
  refine ended_ghost hcall ⟨hc.unended, rfl, hheld, hopen.live, client, begun, stack, began, setup,
    ?_⟩ ?_
  · rw [results]
  · intro hctx
    refine ⟨nofun, ?_⟩
    change Open _ op.uv.act
    rw [hact hctx]
    exact hopen

/-- The setup function of the waiting call runs, on the stack of the call. -/
theorem k_resetopkresumed_ghost {s u : State V W} (h : Ghost s) {target : Target}
    {setup : W → Bool → List V → Setup V} {stack : List V}
    (hp : s.place = .resetop target setup stack) (entry : Entry V W) (hq : quiet entry = true)
    (op : Op) (huv : op.uv.act ≤ s.acts) {w : W}
    (hu : ({ (s.note entry) with op := op } : State V W).k_resetopkresumed .incoreq w target setup
      stack = .ok u) : Ghost u := by
  have hn : Ghost (s.note entry) := note_ghost h entry hq
  have hc := hn.calling (by change waits s.place = true; rw [hp]; rfl)
  obtain ⟨unset, client, began, rfl⟩ := hn.reseting target setup stack hp
  simp only [State.k_resetopkresumed, bind_ok] at hu
  obtain ⟨-, -, -, -, -, -, hu⟩ := hu
  have hop : ({ op with flags := { op.flags with pending := false } } : Op).uv.act ≤
      (s.note entry).acts := huv
  exact startop_ghost (hc.op hop) (by simp) unset ⟨client, stack, w, true, began, rfl⟩ hu

theorem away_ghost {s : State V W} (h : Ghost s) {contexts : List Context}
    (ha : away contexts s.place) (hl : s.place.loops = true) (entry : Entry V W)
    (hq : quiet entry = true) {op : Op} (huv : op.uv.act ≤ s.acts) :
    Ghost { (s.note entry) with op := op } := by
  refine moved_ghost (note_ghost h entry hq) huv rfl ?_ (fun _ _ _ hp => hp) ?_
  · intro stack hp
    have hp : s.place = .endop stack := hp
    rw [hp] at ha
    exact ha
  · intro hp
    have hp : s.place = .running .incohdl := hp
    rw [hp] at hl
    cases hl

theorem requestcb_ghost {s u : State V W} (ht : Tracked s) (h : Ghost s) {act : ℕ}
    (huv : s.op.uv = .request act) (hl : s.place.loops = true) {w : W} {values : List V}
    (hu : s.requestcb w act values = .ok u) : Ghost u := by
  rcases ht with hv | ⟨saved, hst⟩
  · obtain ⟨op, results, cancel, place, calls, acts, log⟩ := s
    cases hv with
    | freed h => cases huv
    | completedRequest => cases huv
    | awaitingHandle type act' stack h => cases huv
    | completedHandle type act' => cases huv
    | canceledHandle act' h => cases huv
    | resetingCanceledHandle act' target setup stack h => cases huv
    | closingHandle type act' h => cases huv
    | resetingClosedHandle type act' target setup stack h => cases huv
    | awaitingRequest act' stack =>
      obtain rfl : act' = act := by simpa using huv
      refine k_endopresumed_ghost h rfl ⟨⟨true, true, true, false⟩, .request true, true, 1 - 1, 0,
        .idle⟩ (Nat.zero_le _) ?_ hu
      intro hc
      cases hc
    | canceledRequest c act' ha =>
      cases hu
      exact away_ghost h ha hl (.delivered act values) rfl (Nat.zero_le _)
    | resetingRequest c act' target setup stack ha =>
      exact k_resetopkresumed_ghost h rfl (.delivered act values) rfl
        ⟨⟨true, true, true, c⟩, .request true, true, 1 - 1, 0, .idle⟩ (Nat.zero_le _) hu
  · rw [hst.op] at huv
    cases huv

theorem handlecb_ghost {s u : State V W} (ht : Tracked s) (h : Ghost s) {type : HandleType}
    {closing : Bool} {act : ℕ} (huv : s.op.uv = .handle act) (hk : s.op.kind = .handle type closing)
    (hl : s.place.loops = true) {w : W} {values : List V}
    (hu : s.handlecb w type act values = .ok u) : Ghost u := by
  rcases ht with hv | ⟨saved, hst⟩
  · obtain ⟨op, results, cancel, place, calls, acts, log⟩ := s
    have hold := h.numbered.uv
    cases hv with
    | freed h => cases huv
    | completedRequest => cases huv
    | awaitingRequest act' stack => cases huv
    | canceledRequest c act' h => cases huv
    | resetingRequest c act' target setup stack h => cases huv
    | closingHandle type' act' h => cases huv
    | resetingClosedHandle type' act' target setup stack h => cases huv
    | completedHandle type' act' => cases hl
    | awaitingHandle type' act' stack ha =>
      obtain rfl : act' = act := by simpa using huv
      obtain ⟨rfl, -⟩ : type' = type ∧ false = closing := by simpa using hk
      have hend : (⟨⟨⟨false, false, true, false⟩, .handle type' false, true, 1, asyncs type',
          .handle act'⟩, results, cancel, .endop stack, calls, acts, .delivered act' values :: log⟩ :
          State V W).k_endopresumed .incohdl act' stack values = .ok u := by
        cases type' <;> exact hu
      exact k_endopresumed_ghost h rfl _ hold (fun _ => rfl) hend
    | canceledHandle act' ha =>
      obtain ⟨rfl, -⟩ : HandleType.async = type ∧ false = closing := by simpa using hk
      cases hu
      exact away_ghost h ha hl (.delivered act values) rfl hold
    | resetingCanceledHandle act' target setup stack ha =>
      obtain ⟨rfl, -⟩ : HandleType.async = type ∧ false = closing := by simpa using hk
      cases hu
      exact moved_ghost (note_ghost h (.delivered act values) rfl) hold rfl nofun
        (fun _ _ _ hp => hp) nofun
  · rw [hst.op] at huv
    cases huv

theorem closecb_ghost {s u : State V W} (ht : Tracked s) (h : Ghost s) {act : ℕ}
    (huv : s.op.uv = .closing act) (hl : s.place.loops = true) {w : W}
    (hu : s.closecb w act = .ok u) : Ghost u := by
  rcases ht with hv | ⟨saved, hst⟩
  · obtain ⟨op, results, cancel, place, calls, acts, log⟩ := s
    cases hv with
    | freed h => cases huv
    | completedRequest => cases huv
    | awaitingRequest act' stack => cases huv
    | canceledRequest c act' h => cases huv
    | resetingRequest c act' target setup stack h => cases huv
    | awaitingHandle type act' stack h => cases huv
    | completedHandle type act' => cases huv
    | canceledHandle act' h => cases huv
    | resetingCanceledHandle act' target setup stack h => cases huv
    | closingHandle type act' ha =>
      cases hu
      exact away_ghost h ha hl (.closed act) rfl (Nat.zero_le _)
    | resetingClosedHandle type act' target setup stack ha =>
      exact k_resetopkresumed_ghost h rfl (.closed act) rfl
        ⟨⟨true, true, true, false⟩, .request true, true, 1 - 1, 0, .idle⟩ (Nat.zero_le _) hu
  · rw [hst.op] at huv
    cases huv

theorem next_ghost {s u : State V W} (ht : Tracked s) (h : Ghost s) {a : Act V W}
    (hu : next s a = some u) : Ghost u := by
  obtain ⟨r, hs, hr⟩ := next_cases hu
  cases hs with
  | call hp ha => exact resetop_ghost ht h hp hr
  | yield hp =>
    refine leave_ghost h hp ?_ hr (by simp)
    exact fun _ => trivial
  | finish hp =>
    refine leave_ghost h hp ?_ hr (by simp)
    exact fun _ => trivial
  | resume hp =>
    cases hr
    exact moved_ghost h h.numbered.uv (by rw [hp]; rfl) nofun nofun nofun
  | endop hp => exact k_endophalted_ghost h hp hr
  | resetop hp => exact k_resetopkhalted_ghost h (by rw [hp]; rfl) hr
  | requestcb huv hl => exact requestcb_ghost ht h huv hl hr
  | handlecb huv hk hl => exact handlecb_ghost ht h huv hk hl hr
  | closecb huv hl => exact closecb_ghost ht h huv hl hr

theorem init_ghost : Ghost (State.init : State V W) where
  journal := .nil
  numbered := ⟨nofun, nofun, le_rfl⟩
  ended n hn := by cases hn
  waiting hw := by cases hw
  holding stack hs := by cases hs
  reseting target setup stack hs := by cases hs
  completed hs := by cases hs

theorem reachable_ghost {acts : List (Act V W)} {s : State V W}
    (h : run next State.init acts = some s) : Ghost s := by
  have hinv := run_invariant (fun s : State V W => Tracked s ∧ Ghost s)
    (fun s a u hs hu => ⟨next_tracked hs.1 hu, next_ghost hs.1 hs.2 hu⟩)
    ⟨Or.inl init_valid, init_ghost⟩ h
  exact hinv.2

/-- A client that arms a request and returns the values of its callback. -/
def plainRequest : Client ℕ Unit := ⟨fun _ _ _ => .armed [], none, none⟩

def refusedRequest : Client ℕ Unit := ⟨fun _ _ _ => .results [7], none, none⟩

end
end Coutil.OperationCompletion
