import Mathlib
import Coutil.BufferRange
import Coutil.ObjectClosing

set_option autoImplicit false

/-! The buffers that `uv_ongetbuffer` of `src/lcommunf.c` gives to libuv, of the coroutine that
reads from the socket by then. -/
namespace Coutil.ReadBuffer
open BufferRange ObjectHandle ObjectClosing Runs

/-- What `luamem_checkmemory` gives: a memory of no size may have no address. -/
structure Memory where
  data : Word
  size : Word
  small : size.toNat < 2 ^ 63
  inside : data.toNat + size.toNat ≤ 2 ^ 64
  null : data = 0 → size = 0

/-- The arguments 2, 3 and 4 of a read. -/
structure Args (M : Type) where
  buffer : M
  i : Option Word
  j : Option Word

structure State (O T M : Type) where
  objects : ObjectHandle.State O T
  args : T → Args M
  memory : M → Memory

inductive Site where
  | thread
  | len
  | base
  deriving DecidableEq

/-- A call of the objects, where libuv may get a buffer already when it starts to read; a buffer
that libuv gets for a socket it reads from; and another size of a memory. -/
inductive Act (O T M : Type) where
  | call (a : ObjectHandle.Act O T) (args : Args M) (early : Bool)
  | getbuffer (o : O)
  | resize (m : M) (memory : Memory)

section
variable {O T M : Type} [DecidableEq O] [DecidableEq T] [DecidableEq M]

def lcu_getoutputbuf (memory : Memory) (args : Args M) : Buf :=
  setupbuf args.i args.j memory.data memory.size

def lcu_assert (site : Site) (b : Bool) : Except Site Unit := if b then .ok () else .error site

def uv_ongetbuffer (s : State O T M) (data : Option T) : Except Site Buf := do
  match data with
  | none => .error .thread
  | some thread =>
    let buf := lcu_getoutputbuf (s.memory (s.args thread).buffer) (s.args thread)
    lcu_assert .len (buf.len ≠ 0)
    lcu_assert .base (buf.base ≠ 0)
    return buf

def starting (s : ObjectHandle.State O T) : ObjectHandle.Act O T → Option (Handle T)
  | .reset o t step yieldable _ =>
    let h := s.handle o
    if s.suspended t = none ∧ step ≠ .acceptstream ∧ ¬h.closed ∧ h.data = none ∧ yieldable ∧ ¬h.stop
    then some ({ h with step := some step, saved := true }.suspend t) else none
  | _ => none

/-- The stack of a coroutine that calls an operation has its arguments. -/
def State.called (s : State O T M) (args : Args M) : ObjectHandle.Act O T → State O T M
  | .reset _ t _ _ _ => { s with args := Function.update s.args t args }
  | _ => s

def effect (s : State O T M) : Act O T M → Option (State O T M)
  | .call a args _ => (ObjectHandle.step s.objects a).map fun objects =>
      { s.called args a with objects := objects }
  | .getbuffer o =>
    let h := s.objects.handle o
    if h.reading ∧ h.step ≠ some .acceptstream ∧ s.objects.callback = none then some s else none
  | .resize m memory => some { s with memory := Function.update s.memory m memory }

def asked (s : State O T M) : Act O T M → Option (Except Site Buf)
  | .call a args early =>
    if early then
      (starting s.objects a).map fun h => uv_ongetbuffer (s.called args a) h.data
    else none
  | .getbuffer o => some (uv_ongetbuffer s (s.objects.handle o).data)
  | .resize _ _ => none

/-- A step fails by an assertion. -/
def step (s : State O T M) (a : Act O T M) : Option (Except Site (State O T M)) :=
  (effect s a).map fun u =>
    match asked s a with
    | some (.error site) => .error site
    | _ => .ok u

def next (s : State O T M) (a : Act O T M) : Option (State O T M) :=
  match step s a with
  | some (.ok u) => some u
  | _ => none

/-- The positions select a byte of the memory, as those of `string.sub` do of a string. -/
def Selects (memory : Memory) (args : Args M) : Prop :=
  subFirst memory.size.toNat (position args.i 1) ≤ subLast memory.size.toNat (position args.j (-1))

/-- The coroutine that waits on a socket where libuv gets a buffer has selected some bytes. -/
def Selected (s : State O T M) : Act O T M → Prop
  | .call a args early => early → starting s.objects a ≠ none → Selects (s.memory args.buffer) args
  | .getbuffer o => ∀ t, (s.objects.handle o).data = some t →
      Selects (s.memory (s.args t).buffer) (s.args t)
  | .resize _ _ => True

end

section
variable {O T M : Type} [DecidableEq O] [DecidableEq T] [DecidableEq M]

omit [DecidableEq M] in
/-- A buffer of some bytes has an address. -/
theorem getoutputbuf_selects (memory : Memory) (args : Args M) :
    (lcu_getoutputbuf memory args).len ≠ 0 ∧ (lcu_getoutputbuf memory args).base ≠ 0 ↔
      Selects memory args := by
  unfold Selects lcu_getoutputbuf
  have length : (List.replicate memory.size.toNat ()).length = memory.size.toNat :=
    List.length_replicate
  obtain ⟨selected, empty, -⟩ := setupbuf_sub (List.replicate memory.size.toNat ()) args.i args.j
    memory.data (by rw [length]; exact memory.small)
  rw [length, BitVec.ofNat_toNat, BitVec.setWidth_eq] at selected empty
  have none : ((0 : Word).toNat : ℤ) = 0 := rfl
  constructor
  · rintro ⟨some_, -⟩
    by_contra less
    exact some_ (empty (not_le.mp less))
  · intro order
    obtain ⟨low, high, len, base⟩ := selected order
    have positive : memory.size ≠ 0 := by
      intro zero
      have nothing : (memory.size.toNat : ℤ) = 0 := by rw [zero, none]
      omega
    have address : memory.data.toNat ≠ 0 := fun zero =>
      positive (memory.null (BitVec.eq_of_toNat_eq zero))
    have inside := memory.inside
    constructor
    · intro zero
      rw [zero, none] at len
      omega
    · intro zero
      have sum := congrArg BitVec.toNat (base.symm.trans zero)
      have last : (0 : Word).toNat = 0 := rfl
      rw [BitVec.toNat_add, BitVec.toNat_ofNat, last] at sum
      omega

omit [DecidableEq O] [DecidableEq T] [DecidableEq M] in
theorem ongetbuffer_eq (s : State O T M) (t : T) :
    uv_ongetbuffer s (some t) =
      let buf := lcu_getoutputbuf (s.memory (s.args t).buffer) (s.args t)
      if buf.len = 0 then .error .len else if buf.base = 0 then .error .base else .ok buf := by
  obtain ⟨buf, same⟩ : ∃ buf, lcu_getoutputbuf (s.memory (s.args t).buffer) (s.args t) = buf :=
    ⟨_, rfl⟩
  simp only [uv_ongetbuffer, lcu_assert, same]
  by_cases len : buf.len = 0
  · rw [if_pos len, if_neg (by simpa using len)]
    rfl
  · rw [if_neg len, if_pos (by simpa using len)]
    by_cases base : buf.base = 0
    · rw [if_pos base, if_neg (by simpa using base)]
      rfl
    · rw [if_neg base, if_pos (by simpa using base)]
      rfl

omit [DecidableEq O] [DecidableEq T] [DecidableEq M] in
/-- The assertions on the buffer hold as far as some bytes are selected. -/
theorem ongetbuffer_ok {s : State O T M} {t : T} :
    (∃ buf, uv_ongetbuffer s (some t) = .ok buf) ↔
      Selects (s.memory (s.args t).buffer) (s.args t) := by
  rw [← getoutputbuf_selects, ongetbuffer_eq]
  dsimp only
  split_ifs with len base
  · exact ⟨nofun, fun both => absurd len both.1⟩
  · exact ⟨nofun, fun both => absurd base both.2⟩
  · exact ⟨fun _ => ⟨len, base⟩, fun _ => ⟨_, rfl⟩⟩

/-! A socket that libuv reads from has a coroutine that waits, but for a callback under way. -/

structure Reading (h : Handle T) : Prop where
  going : h.reading = true → h.stop = true ∧ h.saved = true ∧ h.closed = false
  closing : h.closing = true → h.closed = true

omit [DecidableEq T] in
theorem Reading.stopudhdl {h : Handle T} (reading : Reading h) (fails : Bool) :
    Reading (h.stopudhdl fails) ∧ (h.stopudhdl fails).reading = false := by
  have idle : (h.stopudhdl fails).reading = false := by
    cases reads : h.reading with
    | true =>
      obtain ⟨stop, saved, opened⟩ := reading.going reads
      cases fails <;> simp [Handle.stopudhdl, stop, saved, opened, Handle.close]
    | false =>
      unfold Handle.stopudhdl
      split_ifs <;> simp [Handle.close, reads]
  refine ⟨⟨fun reads => absurd (idle.symm.trans reads) Bool.false_ne_true, ?_⟩, idle⟩
  intro closing
  have keeps := reading.closing
  revert closing
  unfold Handle.stopudhdl
  split_ifs <;> simp_all [Handle.close]

structure Attended (s : ObjectHandle.State O T) (o : O) : Prop where
  reading : Reading (s.handle o)
  waits : (s.handle o).reading = true → (s.handle o).data = none →
    ∃ eof, Frame.callback o eof ∈ s.frames

omit [DecidableEq O] [DecidableEq T] in
theorem attended_initial (o : O) : Attended (initial : ObjectHandle.State O T) o :=
  ⟨⟨nofun, nofun⟩, nofun⟩

variable {s s' : ObjectHandle.State O T} {o : O}

omit [DecidableEq T] in
theorem Attended.change {p : O} {h : Handle T} (attended : Attended s o)
    (handle : s'.handle = Function.update s.handle p h)
    (frames : ∀ eof, o ≠ p → Frame.callback o eof ∈ s.frames → Frame.callback o eof ∈ s'.frames)
    (own : o = p → Reading h ∧
      (h.reading = true → h.data = none → ∃ eof, Frame.callback p eof ∈ s'.frames)) :
    Attended s' o := by
  by_cases same : o = p
  · subst same
    obtain ⟨reading, waits⟩ := own rfl
    constructor
    · rw [handle, Function.update_self]
      exact reading
    · rw [handle, Function.update_self]
      exact waits
  · constructor
    · rw [handle, Function.update_of_ne same]
      exact attended.reading
    · rw [handle, Function.update_of_ne same]
      intro reads unused
      obtain ⟨eof, inside⟩ := attended.waits reads unused
      exact ⟨eof, frames eof same inside⟩

theorem Attended.cancel {p : O} {t : T} (attended : Attended s o) (fails : Bool) :
    Attended (s.cancel p t fails) o := by
  refine attended.change (p := p) (h := (s.handle p).wake.stopudhdl fails) ?_
    (fun _ _ inside => inside) ?_
  · simp [State.cancel, State.stopudhdl, State.wake, State.put]
  · rintro rfl
    have awake : Reading (s.handle o).wake := ⟨attended.reading.going, attended.reading.closing⟩
    obtain ⟨reading, idle⟩ := awake.stopudhdl fails
    exact ⟨reading, fun reads => absurd (idle.symm.trans reads) Bool.false_ne_true⟩

theorem Attended.step {a : ObjectHandle.Act O T} (attended : Attended s o)
    (stepped : ObjectHandle.step s a = some s') : Attended s' o := by
  cases step_cases stepped with
  | refused | ignored | already => exact attended
  | wait p t step starts opened unused runs stop =>
    refine attended.change (p := p) (h := Handle.suspend { s.handle p with step := some step } t)
      (by simp [State.scheduleudhdlk, State.put]) (fun _ _ inside => inside) ?_
    rintro rfl
    exact ⟨⟨attended.reading.going, attended.reading.closing⟩, fun _ h => by cases h⟩
  | start p t step opened unused runs stop =>
    refine attended.change (p := p) (h := ((s.handle p).start step).suspend t)
      (by simp [State.scheduleudhdlk, State.put]) (fun _ _ inside => inside) ?_
    rintro rfl
    exact ⟨⟨fun _ => ⟨rfl, rfl, opened⟩, attended.reading.closing⟩, fun _ h => by cases h⟩
  | refuse p t step opened unused stop =>
    refine attended.change (p := p) (h := { s.handle p with step := none, saved := false }) rfl
      (fun _ _ inside => inside) ?_
    rintro rfl
    have idle (reads : (s.handle o).reading = true) : False :=
      Bool.false_ne_true (stop.symm.trans (attended.reading.going reads).1)
    exact ⟨⟨fun reads => (idle reads).elim, attended.reading.closing⟩,
      fun reads => (idle reads).elim⟩
  | notify p t step e again free opened waits goes =>
    obtain ⟨h, handle, reading⟩ : ∃ h,
        ((s.put p ((s.handle p).notify step e)).endudhdlk p t again).handle =
          Function.update s.handle p h ∧ (o = p → Reading h) := by
      have notified (own : o = p) : Reading ((s.handle p).notify step e) := by
        subst own
        refine ⟨fun reads => ?_, attended.reading.closing⟩
        obtain ⟨going, more⟩ : (s.handle o).reading = true ∧ e ≠ .eof := by
          simpa [Handle.notify] using reads
        have stop := (attended.reading.going going).1
        exact ⟨by simp [Handle.notify, stop, more], (attended.reading.going going).2⟩
      cases again with
      | false =>
        refine ⟨((s.handle p).notify step e).wake,
          by simp [State.endudhdlk, State.wake, State.put], fun own => ?_⟩
        exact ⟨(notified own).going, (notified own).closing⟩
      | true =>
        refine ⟨((s.handle p).notify step e).wake.suspend t,
          by simp [State.endudhdlk, State.scheduleudhdlk, State.wake, State.put], fun own => ?_⟩
        exact ⟨(notified own).going, (notified own).closing⟩
    refine attended.change (p := p) (h := h) handle
      (fun _ _ inside => List.mem_cons_of_mem _ inside) fun own => ⟨reading own, fun _ _ => ?_⟩
    exact ⟨e = .eof, List.mem_cons_self⟩
  | resume p t fails waits => exact attended.cancel fails
  | close p fails opened unused =>
    refine attended.change (p := p) (h := (s.handle p).close) rfl (fun _ _ inside => inside) ?_
    rintro rfl
    exact ⟨⟨(fun h => by cases h), fun _ => rfl⟩, fun h => by cases h⟩
  | closing p t fails opened waits =>
    have cancelled := attended.cancel (p := p) (t := t) fails
    refine ⟨cancelled.reading, fun reads unused => ?_⟩
    obtain ⟨eof, inside⟩ := cancelled.waits reads unused
    exact ⟨eof, List.mem_cons_of_mem _ inside⟩
  | returned p eof frames fails top waits =>
    refine attended.change (p := p) (h := s.handle p) (by simp) ?_ ?_
    · intro eof' different inside
      rw [top, List.mem_cons] at inside
      exact inside.resolve_left fun same => different (Frame.callback.inj same).1
    · rintro rfl
      exact ⟨attended.reading, fun _ unused => absurd unused waits⟩
  | stopped p eof frames fails top unused =>
    refine attended.change (p := p) (h := (s.handle p).stopudhdl fails) rfl ?_ ?_
    · intro eof' different inside
      rw [top, List.mem_cons] at inside
      exact inside.resolve_left fun same => different (Frame.callback.inj same).1
    · rintro rfl
      obtain ⟨reading, idle⟩ := attended.reading.stopudhdl fails
      exact ⟨reading, fun reads => absurd (idle.symm.trans reads) Bool.false_ne_true⟩
  | closed p frames fails top =>
    refine attended.change (p := p) (h := (s.handle p).close) rfl ?_ ?_
    · intro eof different inside
      rw [top, List.mem_cons] at inside
      exact inside.resolve_left (fun h => by cases h)
    · rintro rfl
      exact ⟨⟨(fun h => by cases h), fun _ => rfl⟩, fun h => by cases h⟩
  | freed p closing free =>
    refine attended.change (p := p) (h := { s.handle p with saved := false, closing := false }) rfl
      (fun _ _ inside => inside) ?_
    rintro rfl
    have idle (reads : (s.handle o).reading = true) : False :=
      absurd ((attended.reading.going reads).2.2.symm.trans (attended.reading.closing closing))
        Bool.false_ne_true
    exact ⟨⟨fun reads => (idle reads).elim, fun h => by cases h⟩, fun reads => (idle reads).elim⟩

/-- No read is in progress, whatever the arguments of the coroutines and the memories are. -/
def init (args : T → Args M) (memory : M → Memory) : State O T M := ⟨initial, args, memory⟩

theorem next_eq {s u : State O T M} {a : Act O T M} :
    next s a = some u ↔ step s a = some (.ok u) := by
  unfold next
  split
  · rename_i v stepped
    rw [stepped, Option.some.injEq, Option.some.injEq, Except.ok.injEq]
  · rename_i other
    exact ⟨nofun, fun stepped => absurd stepped (other u)⟩

theorem step_result {s : State O T M} {a : Act O T M} {r : Except Site (State O T M)}
    (stepped : step s a = some r) :
    (∃ u, r = .ok u ∧ effect s a = some u ∧ ∀ site, asked s a ≠ some (.error site)) ∨
      ∃ site, r = .error site ∧ asked s a = some (.error site) := by
  obtain ⟨u, changed, rfl⟩ := Option.map_eq_some_iff.mp stepped
  split
  · rename_i site failed
    exact .inr ⟨site, rfl, failed⟩
  · rename_i other
    exact .inl ⟨u, rfl, changed, other⟩

theorem attended_next {s u : State O T M} {a : Act O T M} {o : O} (attended : Attended s.objects o)
    (stepped : next s a = some u) : Attended u.objects o := by
  obtain ⟨v, same, changed, -⟩ | ⟨site, failed, -⟩ := step_result (next_eq.mp stepped)
  · obtain rfl := Except.ok.inj same
    cases a with
    | call a args early =>
      obtain ⟨objects, called, rfl⟩ := Option.map_eq_some_iff.mp changed
      exact attended.step called
    | getbuffer o =>
      simp only [effect] at changed
      split_ifs at changed
      obtain rfl := Option.some.inj changed
      exact attended
    | resize m memory =>
      obtain rfl := Option.some.inj changed
      exact attended
  · cases failed

theorem run_attended {args : T → Args M} {memory : M → Memory} {acts : List (Act O T M)}
    {s : State O T M} (ran : run next (init args memory) acts = some s) (o : O) :
    Attended s.objects o :=
  run_invariant (fun s => Attended s.objects o) (fun _ _ _ => attended_next) (attended_initial o) ran

omit [DecidableEq O] [DecidableEq T] in
theorem callback_none {s : ObjectHandle.State O T} (free : s.callback = none) (o : O) (eof : Bool) :
    Frame.callback o eof ∉ s.frames := by
  intro inside
  have none := List.head?_eq_none_iff.mp free
  have member : (o, eof) ∈ s.frames.filterMap Frame.callback? :=
    List.mem_filterMap.mpr ⟨_, inside, rfl⟩
  rw [none] at member
  exact absurd member List.not_mem_nil

omit [DecidableEq O] [DecidableEq M] in
/-- In a call that starts to read, the coroutine that calls is the one that waits. -/
theorem starting_data {s : State O T M} {a : ObjectHandle.Act O T} {h : Handle T} (args : Args M)
    (starts : starting s.objects a = some h) :
    ∃ t, h.data = some t ∧ (s.called args a).args t = args ∧
      (s.called args a).memory = s.memory := by
  cases a with
  | reset o t step yieldable begins =>
    simp only [starting] at starts
    split_ifs at starts
    obtain rfl := Option.some.inj starts
    exact ⟨t, rfl, by simp [State.called], rfl⟩
  | event | resume | close | leave | closed => cases starts

omit [DecidableEq O] [DecidableEq T] [DecidableEq M] in
theorem ongetbuffer_thread {s : State O T M} {t : T} {site : Site}
    (failed : uv_ongetbuffer s (some t) = .error site) : site ≠ .thread := by
  rw [ongetbuffer_eq] at failed
  dsimp only at failed
  split_ifs at failed
  all_goals
    cases failed
    exact nofun

/-- Where libuv asks for a buffer somebody waits, with positions that select some bytes or not. -/
theorem asked_waiting {s : State O T M} {a : Act O T M} {u : State O T M}
    {result : Except Site Buf} (attended : ∀ o, Attended s.objects o) (changed : effect s a = some u)
    (asks : asked s a = some result) :
    (∀ site, result = .error site → site ≠ .thread) ∧
      ((∃ buf, result = .ok buf) ↔ Selected s a) := by
  cases a with
  | call a args early =>
    simp only [asked] at asks
    split_ifs at asks with begins
    obtain ⟨h, starts, rfl⟩ := Option.map_eq_some_iff.mp asks
    obtain ⟨t, data, called, memory⟩ := starting_data args starts
    rw [data]
    refine ⟨fun site failed => ongetbuffer_thread failed, ?_⟩
    rw [ongetbuffer_ok, called, memory]
    exact ⟨fun selects _ _ => selects, fun selected => selected begins (by rw [starts]; exact nofun)⟩
  | getbuffer o =>
    obtain rfl := Option.some.inj asks
    simp only [effect] at changed
    split_ifs at changed with reads
    obtain ⟨t, data⟩ : ∃ t, (s.objects.handle o).data = some t := by
      by_contra nobody
      have unused : (s.objects.handle o).data = none :=
        Option.eq_none_iff_forall_ne_some.mpr fun t data => nobody ⟨t, data⟩
      obtain ⟨eof, inside⟩ := (attended o).waits reads.1 unused
      exact callback_none reads.2.2 o eof inside
    rw [data]
    refine ⟨fun site failed => ongetbuffer_thread failed, ?_⟩
    rw [ongetbuffer_ok]
    constructor
    · intro selects t' waits
      obtain rfl := Option.some.inj (data.symm.trans waits)
      exact selects
    · exact fun selected => selected t data
  | resize m memory => cases asks

/-- In every run and at every call of `uv_ongetbuffer` a coroutine waits, and the assertions hold
if and only if the positions it gave select a byte of its memory. -/
theorem ongetbuffer_asserts {args : T → Args M} {memory : M → Memory} {acts : List (Act O T M)}
    {s : State O T M} (ran : run next (init args memory) acts = some s) (a : Act O T M)
    {r : Except Site (State O T M)} (taken : step s a = some r) :
    r ≠ .error .thread ∧ ((∃ u, r = .ok u) ↔ Selected s a) := by
  have attended := run_attended ran
  obtain ⟨u, changed, rfl⟩ := Option.map_eq_some_iff.mp taken
  cases asks : asked s a with
  | none =>
    refine ⟨nofun, fun _ => ?_, fun _ => ⟨u, rfl⟩⟩
    cases a with
    | call a args early =>
      intro begins starts
      obtain ⟨h, started⟩ := Option.ne_none_iff_exists'.mp starts
      rw [asked, if_pos begins, started] at asks
      cases asks
    | getbuffer o => cases asks
    | resize m memory => trivial
  | some result =>
    obtain ⟨thread, selected⟩ := asked_waiting attended changed asks
    rw [← selected]
    cases result with
    | error site =>
      refine ⟨fun same => thread site rfl (Except.error.inj same), ?_⟩
      exact ⟨fun ⟨u, ok⟩ => (nomatch ok), fun ⟨buf, ok⟩ => (nomatch ok)⟩
    | ok buf => exact ⟨nofun, fun _ => ⟨buf, rfl⟩, fun _ => ⟨u, rfl⟩⟩

def eightBytes : Memory := ⟨1000, 8, by decide, by decide, nofun⟩

/-- A stream is read into bytes `i` to `j` of a memory of eight. -/
def reads (i j : Word) : Option (State ℕ ℕ ℕ) :=
  run next (init (fun _ => ⟨0, none, none⟩) fun _ => eightBytes)
    [.call (.reset 0 1 .recvdata true true) ⟨0, some i, some j⟩ false]

theorem ongetbuffer_asserts_two :
    ∃ s, reads 3 4 = some s ∧ ∃ u, step s (.getbuffer 0) = some (.ok u) := by
  obtain ⟨s, ran, r, taken, selects⟩ : ∃ s, reads 3 4 = some s ∧
      ∃ r, step s (.getbuffer 0) = some r ∧ Selected s (.getbuffer 0) := by
    refine ⟨_, rfl, _, rfl, fun t waits => ?_⟩
    obtain rfl := Option.some.inj waits
    change subFirst 8 3 ≤ subLast 8 4
    decide
  obtain ⟨u, rfl⟩ := (ongetbuffer_asserts ran (.getbuffer 0) taken).2.mpr selects
  exact ⟨s, ran, u, taken⟩

/-- Positions that select no byte are accepted by `stream:read`. -/
theorem ongetbuffer_asserts_not :
    ∃ s, reads 5 4 = some s ∧ step s (.getbuffer 0) = some (.error .len) :=
  ⟨_, rfl, rfl⟩

end
end Coutil.ReadBuffer
