import Mathlib.Data.BitVec
import Coutil.ObjectClosing

set_option autoImplicit false

/-! The connections of passive sockets: `uv_onconnection`, `passive_listen`, `k_acceptstream` and
`listen_accept` of `src/lcommunf.c`, over what `src/loperaux.c` does with the objects. The objects
here are passive sockets, and a connection that is announced is kept by libuv until `uv_accept`
gives it. -/
namespace Coutil.ListenAccept
open ObjectHandle ObjectClosing Runs

abbrev Flags := BitVec 32

def LCU_HANDLECLOSEDFLAG : Flags := 1

/-- `LCU_SOCKIPV6FLAG` or `LCU_SOCKTRANFFLAG`. -/
def domainFlag : Flags := 2

def LISTENCONN_UNIT : Flags := 4

/-- `newtcpaccept` or `newpipeaccept`, which raises an error when there is no memory. -/
inductive Creation where
  | done
  | fails
  | raises
  deriving DecidableEq

/-- How a call of `accept`, or its continuation, ends. -/
inductive Outcome (C : Type) where
  | accepted (c : C)
  | failed
  | raised
  | suspended
  deriving DecidableEq

/-- The connections that were announced, the ones of these libuv still has to give, the oldest
first, and the ones it gave, each with the coroutine that accepted it. -/
structure State (O T C : Type) where
  objects : ObjectHandle.State O T
  flags : O → Flags
  announced : O → List C
  pending : O → List C
  given : O → List (C × T)

/-- `uv_onconnection` has no connection to announce when its status is an error. -/
inductive Act (O T C : Type) where
  | listen (o : O) (fails : Bool)
  | connection (o : O) (c : Option C) (creation : Creation)
  | accept (o : O) (t : T) (yieldable : Bool) (creation : Creation)
  | resume (t : T) (fails : Bool)
  | close (o : O) (fails : Bool)
  | leave (fails : Bool)
  | closed (o : O)

section
variable {O T C : Type} [DecidableEq O] [DecidableEq T] [DecidableEq C]

def islisteningconn (s : State O T C) (o : O) : Bool := LISTENCONN_UNIT.sle (s.flags o)

def isclosed (s : State O T C) (o : O) : Bool := s.flags o &&& LCU_HANDLECLOSEDFLAG ≠ 0

def State.setflags (s : State O T C) (o : O) (flags : Flags) : State O T C :=
  { s with flags := Function.update s.flags o flags }

def addlistenedconn (s : State O T C) (o : O) : State O T C :=
  s.setflags o (s.flags o + LISTENCONN_UNIT)

def picklistenedconn (s : State O T C) (o : O) : Option (State O T C) :=
  if (s.flags o).slt (2 * LISTENCONN_UNIT) then none
  else some (s.setflags o (s.flags o - LISTENCONN_UNIT))

/-- The objects after an operation, with the flag of each one that it closed. -/
def State.operated (s : State O T C) (objects : ObjectHandle.State O T) : State O T C :=
  { s with
    objects := objects
    flags := fun o =>
      if (objects.handle o).closed then s.flags o ||| LCU_HANDLECLOSEDFLAG else s.flags o }

def uv_accept (s : State O T C) (o : O) (t : T) : Outcome C × State O T C :=
  match s.pending o with
  | [] => (.failed, s)
  | c :: rest =>
    (.accepted c, { s with
      pending := Function.update s.pending o rest
      given := Function.update s.given o (s.given o ++ [(c, t)]) })

def k_acceptstream (s : State O T C) (o : O) (t : T) (err : Bool) (creation : Creation) :
    Outcome C × State O T C :=
  if err then (.failed, s)
  else
    match creation with
    | .raises => (.raised, s)
    | .fails => (.failed, addlistenedconn s o)
    | .done => uv_accept s o t

def listen_accept (s : State O T C) (o : O) (t : T) (yieldable : Bool) (creation : Creation) :
    Outcome C × State O T C :=
  if isclosed s o ∨ ¬islisteningconn s o then (.raised, s)
  else
    match picklistenedconn s o with
    | some s => k_acceptstream s o t false creation
    | none =>
      match lcuT_resetudhdlk s.objects o t .acceptstream yieldable true with
      | .error _ => (.raised, s)
      | .ok objects => (.suspended, s.operated objects)

def passive_listen (s : State O T C) (o : O) (fails : Bool) : State O T C :=
  if isclosed s o ∨ islisteningconn s o ∨ fails then s else addlistenedconn s o

/-- libuv has another connection to give, which it announces. -/
def State.announce (s : State O T C) (o : O) : Option C → State O T C
  | none => s
  | some c => { s with
      announced := Function.update s.announced o (s.announced o ++ [c])
      pending := Function.update s.pending o (s.pending o ++ [c]) }

def uv_onconnection (s : State O T C) (o : O) (c : Option C) (creation : Creation) :
    Option (State O T C) :=
  let s := s.announce o c
  match (s.objects.handle o).data with
  | none => some (addlistenedconn s o)
  | some t => (ObjectHandle.event s.objects o .connection false).map fun objects =>
      (k_acceptstream (s.operated objects) o t c.isNone creation).2

def step (s : State O T C) : Act O T C → Option (State O T C)
  | .listen o fails => some (passive_listen s o fails)
  | .connection o c creation =>
    if islisteningconn s o ∧ ¬(s.objects.handle o).closed ∧ s.objects.callback = none ∧
        ∀ d ∈ c, d ∉ s.announced o then
      uv_onconnection s o c creation
    else none
  | .accept o t yieldable creation =>
    if s.objects.suspended t = none then some (listen_accept s o t yieldable creation).2 else none
  | .resume t fails => (ObjectHandle.step s.objects (.resume t fails)).map s.operated
  | .close o fails => (ObjectHandle.step s.objects (.close o fails)).map s.operated
  | .leave fails => (ObjectHandle.step s.objects (.leave fails)).map s.operated
  | .closed o => (ObjectHandle.step s.objects (.closed o)).map s.operated

/-- New sockets of some domains, none of which listens. -/
def init (domain : O → Bool) : State O T C where
  objects := initial
  flags := fun o => if domain o then domainFlag else 0
  announced := fun _ => []
  pending := fun _ => []
  given := fun _ => []

/-- No error is reported while nobody waits, the creation of a socket that is to be used does not
raise an error, and there is room for one connection more in the flags. -/
def Meets (s : State O T C) : Act O T C → Prop
  | .connection o none _ => (s.objects.handle o).data ≠ none
  | .connection o (some _) creation =>
    (s.pending o).length + 2 < 2 ^ 29 ∧ ((s.objects.handle o).data ≠ none → creation ≠ .raises)
  | .accept o _ _ creation => s.pending o ≠ [] → creation ≠ .raises
  | _ => True

instance (s : State O T C) (a : Act O T C) : Decidable (Meets s a) :=
  match a with
  | .connection o none _ => inferInstanceAs (Decidable ((s.objects.handle o).data ≠ none))
  | .connection o (some _) creation =>
    inferInstanceAs (Decidable ((s.pending o).length + 2 < 2 ^ 29 ∧
      ((s.objects.handle o).data ≠ none → creation ≠ .raises)))
  | .accept o _ _ creation => inferInstanceAs (Decidable (s.pending o ≠ [] → creation ≠ .raises))
  | .listen _ _ | .resume _ _ | .close _ _ | .leave _ | .closed _ => isTrue trivial

end

section
variable {x : Flags}

theorem toInt_flags (small : x.toNat < 2 ^ 31) : x.toInt = x.toNat := by
  rw [BitVec.toInt_eq_toNat_cond, if_pos (by omega)]

theorem unit_le (small : x.toNat < 2 ^ 31) : LISTENCONN_UNIT.sle x = true ↔ 4 ≤ x.toNat := by
  rw [BitVec.sle_iff_toInt_le, toInt_flags small]
  have unit : LISTENCONN_UNIT.toInt = 4 := rfl
  omega

theorem lt_units (small : x.toNat < 2 ^ 31) :
    x.slt (2 * LISTENCONN_UNIT) = true ↔ x.toNat < 8 := by
  rw [BitVec.slt_iff_toInt_lt, toInt_flags small]
  have units : (2 * LISTENCONN_UNIT).toInt = 8 := rfl
  omega

theorem toNat_add_unit (small : x.toNat + 4 < 2 ^ 32) :
    (x + LISTENCONN_UNIT).toNat = x.toNat + 4 := by
  rw [BitVec.toNat_add]
  exact Nat.mod_eq_of_lt small

theorem toNat_sub_unit (enough : 4 ≤ x.toNat) : (x - LISTENCONN_UNIT).toNat = x.toNat - 4 := by
  have bound := x.isLt
  have unit : LISTENCONN_UNIT.toNat = 4 := rfl
  rw [BitVec.toNat_sub, unit]
  omega

/-- The flag of a closed object is the lowest bit. -/
theorem toNat_setclosed : (x ||| LCU_HANDLECLOSEDFLAG).toNat = 2 * (x.toNat / 2) + 1 := by
  have split : (x ||| LCU_HANDLECLOSEDFLAG).toNat = x.toNat ||| 1 := BitVec.toNat_or x 1
  have high : (x.toNat ||| 1) / 2 = x.toNat / 2 := by
    have shifted : (x.toNat ||| 1) >>> 1 = x.toNat >>> 1 ||| 1 >>> 1 := Nat.shiftRight_or_distrib
    simpa [Nat.shiftRight_succ] using shifted
  have low : (x.toNat ||| 1) % 2 = 1 := by
    rw [Nat.or_mod_two_eq_one]
    exact .inr rfl
  omega

end

section
variable {O T C : Type} [DecidableEq O] [DecidableEq T] [DecidableEq C]

omit [DecidableEq T] in
theorem data_update {s : ObjectHandle.State O T} {o p : O} {h : Handle T}
    (keeps : p = o → h.data ≠ none → (s.handle p).data ≠ none)
    (waits : (Function.update s.handle p h o).data ≠ none) : (s.handle o).data ≠ none := by
  by_cases same : o = p
  · subst same
    rw [Function.update_self] at waits
    exact keeps rfl waits
  · rw [Function.update_of_ne same] at waits
    exact waits

omit [DecidableEq T] in
theorem data_stopudhdl (h : Handle T) (fails : Bool) : (h.stopudhdl fails).data = h.data := by
  simp only [Handle.stopudhdl]
  split_ifs <;> rfl

/-- Only a call of an operation makes a coroutine wait. -/
theorem data_step {s s' : ObjectHandle.State O T} {a : ObjectHandle.Act O T} {o : O}
    (called : ∀ p t step yieldable starts, a ≠ .reset p t step yieldable starts)
    (stepped : ObjectHandle.step s a = some s') (waits : (s'.handle o).data ≠ none) :
    (s.handle o).data ≠ none := by
  cases step_cases stepped with
  | refused | ignored | already | returned => exact waits
  | wait p t step starts => exact absurd rfl (called p t step true starts)
  | start p t step => exact absurd rfl (called p t step true true)
  | refuse p t step => exact absurd rfl (called p t step true false)
  | notify p t step e again free opened awaited goes =>
    by_cases same : o = p
    · subst same
      rw [awaited]
      exact nofun
    · cases again <;>
        simpa [State.endudhdlk, State.scheduleudhdlk, State.wake, State.put, same] using waits
  | resume p t fails awaited | closing p t fails opened awaited =>
    refine data_update (p := p) (h := (s.handle p).wake.stopudhdl fails) ?_ ?_
    · intro _ still
      rw [data_stopudhdl] at still
      exact absurd rfl still
    · simpa [State.cancel, State.stopudhdl, State.wake, State.put] using waits
  | stopped p eof frames fails top unused =>
    refine data_update (p := p) (h := (s.handle p).stopudhdl fails) ?_ waits
    rw [data_stopudhdl]
    exact fun _ => id
  | close p fails opened unused =>
    exact data_update (p := p) (h := (s.handle p).close) (fun _ => id) waits
  | closed p frames fails top =>
    exact data_update (p := p) (h := (s.handle p).close) (fun _ => id) waits
  | freed p closing free =>
    exact data_update (p := p) (h := { s.handle p with saved := false, closing := false })
      (fun _ => id) waits

/-- The units in the flags of a socket and the connections that libuv has to give, with the bits
below the units. -/
structure Books (domain : O → Bool) (s : State O T C) (o : O) (n m : ℕ) : Prop where
  low : (s.flags o).toNat % 4 =
    (if domain o then 2 else 0) + if (s.objects.handle o).closed then 1 else 0
  units : (s.flags o).toNat / 4 = n
  small : n < 2 ^ 29
  pending : (s.pending o).length = m
  given : s.announced o = (s.given o).map Prod.fst ++ s.pending o
  nodup : (s.announced o).Nodup

/-- There is no unit until the socket listens, and then one more than connections to give. There
are none of these while somebody waits. -/
def Accounted (domain : O → Bool) (s : State O T C) (o : O) : Prop :=
  ∃ n m, Books domain s o n m ∧ (n = 0 ∧ m = 0 ∨ n = m + 1) ∧
    ((s.objects.handle o).data ≠ none → m = 0)

omit [DecidableEq O] [DecidableEq T] [DecidableEq C] in
theorem accounted_init (domain : O → Bool) (o : O) :
    Accounted domain (init domain : State O T C) o := by
  refine ⟨0, 0, ⟨?_, ?_, by decide, rfl, rfl, List.nodup_nil⟩, .inl ⟨rfl, rfl⟩, fun _ => rfl⟩
  · cases h : domain o <;> simp [init, h, domainFlag, initial, Handle.new]
  · cases h : domain o <;> simp [init, h, domainFlag]

/-- What a step on the socket `p` changes at the socket `o`. -/
def own (o p : O) : ℕ := if o = p then 1 else 0

variable {domain : O → Bool} {s u : State O T C} {o p : O} {n m : ℕ}

omit [DecidableEq O] [DecidableEq T] [DecidableEq C] in
theorem Books.bound (books : Books domain s o n m) : (s.flags o).toNat < 2 ^ 31 := by
  have small := books.small
  have units := books.units
  omega

omit [DecidableEq O] [DecidableEq T] [DecidableEq C] in
theorem Books.listening (books : Books domain s o n m) : islisteningconn s o = true ↔ 1 ≤ n := by
  rw [islisteningconn, unit_le books.bound]
  have units := books.units
  omega

omit [DecidableEq T] [DecidableEq C] in
theorem Books.add (books : Books domain s o n m) (room : o = p → n + 1 < 2 ^ 29) :
    Books domain (addlistenedconn s p) o (n + own o p) m := by
  by_cases same : o = p
  · subst same
    have bound := books.bound
    have flags : ((addlistenedconn s o).flags o).toNat = (s.flags o).toNat + 4 := by
      simp only [addlistenedconn, State.setflags, Function.update_self]
      exact toNat_add_unit (by omega)
    have low := books.low
    have units := books.units
    refine ⟨?_, ?_, ?_, books.pending, books.given, books.nodup⟩
    · rw [flags, Nat.add_mod_right]
      exact low
    · rw [flags, own, if_pos rfl]
      omega
    · rw [own, if_pos rfl]
      exact room rfl
  · have flags : (addlistenedconn s p).flags o = s.flags o := Function.update_of_ne same _ _
    rw [own, if_neg same]
    refine ⟨?_, ?_, books.small, books.pending, books.given, books.nodup⟩
    · rw [flags]
      exact books.low
    · rw [flags]
      exact books.units

omit [DecidableEq T] [DecidableEq C] in
theorem Books.pick (books : Books domain s o n m) (picked : picklistenedconn s p = some u)
    (several : o = p → 2 ≤ n) : Books domain u o (n - own o p) m := by
  unfold picklistenedconn at picked
  split_ifs at picked
  obtain rfl := Option.some.inj picked
  by_cases same : o = p
  · subst same
    have two := several rfl
    have low := books.low
    have units := books.units
    have flags : ((s.setflags o (s.flags o - LISTENCONN_UNIT)).flags o).toNat =
        (s.flags o).toNat - 4 := by
      simp only [State.setflags, Function.update_self]
      exact toNat_sub_unit (by omega)
    refine ⟨?_, ?_, ?_, books.pending, books.given, books.nodup⟩
    · rw [flags]
      change _ = (if domain o then 2 else 0) + if (s.objects.handle o).closed then 1 else 0
      omega
    · rw [flags, own, if_pos rfl]
      omega
    · have small := books.small
      omega
  · have flags : (s.setflags p (s.flags p - LISTENCONN_UNIT)).flags o = s.flags o :=
      Function.update_of_ne same _ _
    rw [own, if_neg same]
    refine ⟨?_, ?_, books.small, books.pending, books.given, books.nodup⟩
    · rw [flags]
      exact books.low
    · rw [flags]
      exact books.units

omit [DecidableEq T] [DecidableEq C] in
theorem Books.announce (books : Books domain s o n m) {c : C} (fresh : c ∉ s.announced p) :
    Books domain (s.announce p (some c)) o n (m + own o p) := by
  by_cases same : o = p
  · subst same
    refine ⟨books.low, books.units, books.small, ?_, ?_, ?_⟩
    · simp only [State.announce, Function.update_self, List.length_append, List.length_singleton,
        books.pending, own, if_true]
    · simp only [State.announce, Function.update_self, books.given, List.append_assoc]
    · simp only [State.announce, Function.update_self]
      rw [List.nodup_append]
      exact ⟨books.nodup, List.nodup_singleton c, fun x member y last same =>
        fresh ((same.trans (List.mem_singleton.mp last)) ▸ member)⟩
  · refine ⟨books.low, books.units, books.small, ?_, ?_, ?_⟩
    · simp only [State.announce, Function.update_of_ne same, books.pending, own, if_neg same,
        Nat.add_zero]
    · simp only [State.announce, Function.update_of_ne same]
      exact books.given
    · simp only [State.announce, Function.update_of_ne same]
      exact books.nodup

omit [DecidableEq T] [DecidableEq C] in
/-- What libuv announced it gives when it is asked for it. -/
theorem Books.accept (books : Books domain s o n m) {c : C} {rest : List C}
    (waits : s.pending p = c :: rest) (t : T) :
    Books domain (uv_accept s p t).2 o n (m - own o p) := by
  simp only [uv_accept, waits]
  by_cases same : o = p
  · subst same
    refine ⟨books.low, books.units, books.small, ?_, ?_, books.nodup⟩
    · have length := books.pending
      rw [waits, List.length_cons] at length
      simp only [Function.update_self, own, if_true]
      omega
    · simp only [Function.update_self, List.map_append, List.map_cons, List.map_nil,
        List.append_assoc, List.singleton_append]
      rw [← waits]
      exact books.given
  · refine ⟨books.low, books.units, books.small, ?_, ?_, books.nodup⟩
    · simp only [Function.update_of_ne same, books.pending, own, if_neg same, Nat.sub_zero]
    · simp only [Function.update_of_ne same]
      exact books.given

omit [DecidableEq O] [DecidableEq T] [DecidableEq C] in
/-- An operation on the objects changes no unit, and the closed flag of those it closes. -/
theorem Books.operated {objects : ObjectHandle.State O T} (books : Books domain s o n m)
    (closed : (s.objects.handle o).closed = true → (objects.handle o).closed = true) :
    Books domain (s.operated objects) o n m := by
  have low := books.low
  have units := books.units
  have flags : ((s.operated objects).flags o).toNat =
      if (objects.handle o).closed then 2 * ((s.flags o).toNat / 2) + 1 else (s.flags o).toNat := by
    simp only [State.operated]
    split_ifs
    · exact toNat_setclosed
    · rfl
  refine ⟨?_, ?_, books.small, books.pending, books.given, books.nodup⟩
  · rw [flags]
    change _ = (if domain o then 2 else 0) + if (objects.handle o).closed then 1 else 0
    cases now : (objects.handle o).closed with
    | true =>
      simp only [if_true]
      split_ifs at low ⊢ <;> omega
    | false =>
      have before : (s.objects.handle o).closed = false := by
        by_contra was
        rw [closed (by simpa using was)] at now
        cases now
      rw [before] at low
      exact low
  · rw [flags]
    split_ifs <;> omega

omit [DecidableEq T] [DecidableEq C] in
theorem own_cases (o p : O) : own o p = 0 ∧ o ≠ p ∨ own o p = 1 ∧ o = p := by
  by_cases same : o = p
  · exact .inr ⟨if_pos same, same⟩
  · exact .inl ⟨if_neg same, same⟩

omit [DecidableEq T] [DecidableEq C] in
theorem accept_objects (s : State O T C) (p : O) (t : T) :
    (uv_accept s p t).2.objects = s.objects := by
  unfold uv_accept
  split <;> rfl

/-- The coroutine that waited goes on after the continuation of `accept`. -/
theorem event_data {s s' : ObjectHandle.State O T}
    (notified : ObjectHandle.event s p .connection false = some s') :
    (s'.handle p).data = none := by
  simp only [ObjectHandle.event] at notified
  split_ifs at notified
  split at notified
  · rename_i unused
    obtain rfl := Option.some.inj notified
    exact unused
  · cases notified
  · split_ifs at notified
    obtain rfl := Option.some.inj notified
    simp [State.endudhdlk, State.wake, State.put, Handle.wake]

theorem reset_data {s s' : ObjectHandle.State O T} {t : T} {yieldable : Bool}
    (reset : lcuT_resetudhdlk s p t .acceptstream yieldable true = .ok s') (other : o ≠ p) :
    s'.handle o = s.handle o := by
  simp only [lcuT_resetudhdlk] at reset
  split_ifs at reset <;> cases reset <;>
    simp [State.scheduleudhdlk, State.put, other]

omit [DecidableEq C] in
theorem accounted_objects {a : ObjectHandle.Act O T} {objects : ObjectHandle.State O T}
    (accounted : ∀ o, Accounted domain s o)
    (called : ∀ p t step yieldable starts, a ≠ .reset p t step yieldable starts)
    (stepped : ObjectHandle.step s.objects a = some objects) (o : O) :
    Accounted domain (s.operated objects) o := by
  obtain ⟨n, m, books, units, idle⟩ := accounted o
  exact ⟨n, m, books.operated fun closed => (closed_step closed stepped).1, units,
    fun waits => idle (data_step called stepped waits)⟩

omit [DecidableEq T] [DecidableEq C] in
theorem accounted_listen (accounted : ∀ o, Accounted domain s o) (p : O) (fails : Bool) (o : O) :
    Accounted domain (passive_listen s p fails) o := by
  unfold passive_listen
  split_ifs with refused
  · exact accounted o
  · obtain ⟨n, m, books, units, idle⟩ := accounted o
    have fresh (same : o = p) : n = 0 := by
      subst same
      by_contra listens
      exact refused (.inr (.inl (books.listening.mpr (Nat.one_le_iff_ne_zero.mpr listens))))
    refine ⟨n + own o p, m, books.add fun same => ?_, ?_, idle⟩
    · rw [fresh same]
      decide
    · obtain ⟨zero, -⟩ | ⟨one, same⟩ := own_cases o p
      · rw [zero]
        exact units
      · have none := fresh same
        omega

omit [DecidableEq C] in
/-- What a coroutine does with the connection it was resumed for. -/
theorem accounted_event {objects : ObjectHandle.State O T} {c : Option C} {creation : Creation}
    {t : T} (accounted : ∀ o, Accounted domain s o) (listens : islisteningconn s p = true)
    (fresh : ∀ d ∈ c, d ∉ s.announced p) (waits : (s.objects.handle p).data = some t)
    (meets : Meets s (.connection p c creation))
    (notified : ObjectHandle.event s.objects p .connection false = some objects) (o : O) :
    Accounted domain (k_acceptstream ((s.announce p c).operated objects) p t c.isNone creation).2 o := by
  obtain ⟨n, m, books, units, idle⟩ := accounted o
  have stepped : ObjectHandle.step s.objects (.event p .connection false) = some objects := notified
  have closed (was : (s.objects.handle o).closed = true) := (closed_step was stepped).1
  have quiet (still : (objects.handle o).data ≠ none) : m = 0 ∧ o ≠ p := by
    refine ⟨idle (data_step (a := .event p .connection false) (fun _ _ _ _ _ => nofun) stepped still), ?_⟩
    rintro rfl
    exact still (event_data notified)
  have none_left (same : o = p) : m = 0 := by
    subst same
    exact idle (by rw [waits]; exact nofun)
  have open_ (same : o = p) : n = m + 1 := by
    subst same
    have more := books.listening.mp listens
    omega
  cases c with
  | none => exact ⟨n, m, books.operated closed, units, fun still => (quiet still).1⟩
  | some c =>
    have told : Books domain ((s.announce p (some c)).operated objects) o n (m + own o p) :=
      (books.announce (fresh c rfl)).operated closed
    cases creation with
    | raises => exact absurd rfl (meets.2 (by rw [waits]; exact nofun))
    | fails =>
      refine ⟨n + own o p, m + own o p, told.add fun same => ?_, ?_, fun still => ?_⟩
      · have one := open_ same
        have zero := none_left same
        omega
      · obtain ⟨zero, -⟩ | ⟨one, same⟩ := own_cases o p
        · rw [zero]
          exact units
        · have one := open_ same
          omega
      · obtain ⟨zero, -⟩ | ⟨one, same⟩ := own_cases o p
        · rw [zero]
          exact (quiet still).1
        · exact absurd same (quiet still).2
    | done =>
      obtain ⟨d, rest, oldest⟩ : ∃ d rest,
          ((s.announce p (some c)).operated objects).pending p = d :: rest := by
        simp only [State.announce, State.operated, Function.update_self]
        exact List.exists_cons_of_ne_nil (by simp)
      refine ⟨n, m + own o p - own o p, told.accept oldest t, ?_, fun still => ?_⟩
      · rw [Nat.add_sub_cancel]
        exact units
      · change ((uv_accept _ p t).2.objects.handle o).data ≠ none at still
        rw [accept_objects] at still
        rw [Nat.add_sub_cancel]
        exact (quiet still).1

omit [DecidableEq T] [DecidableEq C] in
/-- A unit can be picked if and only if there is a connection to give. -/
theorem pick_none (books : Books domain s p n m) (units : n = 0 ∧ m = 0 ∨ n = m + 1) :
    picklistenedconn s p = none ↔ m = 0 := by
  have few : (s.flags p).slt (2 * LISTENCONN_UNIT) = true ↔ m = 0 := by
    rw [lt_units books.bound]
    have count := books.units
    omega
  unfold picklistenedconn
  split_ifs with less
  · exact ⟨fun _ => few.mp less, fun _ => rfl⟩
  · exact ⟨nofun, fun zero => absurd (few.mpr zero) less⟩

omit [DecidableEq T] [DecidableEq C] in
theorem pick_same (picked : picklistenedconn s p = some u) :
    u.objects = s.objects ∧ u.pending = s.pending := by
  unfold picklistenedconn at picked
  split_ifs at picked
  obtain rfl := Option.some.inj picked
  exact ⟨rfl, rfl⟩

omit [DecidableEq C] in
theorem accounted_accept {t : T} {yieldable : Bool} {creation : Creation}
    (accounted : ∀ o, Accounted domain s o) (runs : s.objects.suspended t = none)
    (meets : Meets s (.accept p t yieldable creation)) (o : O) :
    Accounted domain (listen_accept s p t yieldable creation).2 o := by
  obtain ⟨n, m, books, units, idle⟩ := accounted o
  obtain ⟨n', m', books', units', idle'⟩ := accounted p
  have here (same : o = p) : n = n' ∧ m = m' := by
    subst same
    exact ⟨books.units.symm.trans books'.units, books.pending.symm.trans books'.pending⟩
  unfold listen_accept
  split_ifs with refused
  · exact accounted o
  · rw [not_or, not_not] at refused
    have listens := books'.listening.mp refused.2
    cases picked : picklistenedconn s p with
    | none =>
      have nothing := (pick_none books' units').mp picked
      cases reset : lcuT_resetudhdlk s.objects p t .acceptstream yieldable true with
      | error text => exact accounted o
      | ok objects =>
        have stepped : ObjectHandle.step s.objects (.reset p t .acceptstream yieldable true) =
            some objects := by
          simp only [ObjectHandle.step, if_pos runs, reset]
        refine ⟨n, m, books.operated fun was => (closed_step was stepped).1, units, fun waits => ?_⟩
        by_cases same : o = p
        · rw [(here same).2]
          exact nothing
        · refine idle ?_
          rw [← reset_data reset same]
          exact waits
    | some u =>
      obtain ⟨objects, pending⟩ := pick_same picked
      have several : m' ≠ 0 := fun zero => by
        rw [(pick_none books' units').mpr zero] at picked
        cases picked
      have taken := books.pick picked fun same => by
        have both := here same
        omega
      have idle_ (waits : (u.objects.handle o).data ≠ none) : m = 0 ∧ own o p = 0 := by
        rw [objects] at waits
        have none := idle waits
        obtain ⟨zero, -⟩ | ⟨-, same⟩ := own_cases o p
        · exact ⟨none, zero⟩
        · exact absurd ((here same).2.symm.trans none) several
      cases creation with
      | raises =>
        refine absurd rfl (meets fun empty => several ?_)
        rw [← books'.pending, empty]
        rfl
      | fails =>
        refine ⟨n - own o p + own o p, m, taken.add fun same => ?_, ?_, fun waits => (idle_ waits).1⟩
        · have small := books.small
          have both := here same
          have one : own o p = 1 := if_pos same
          omega
        · obtain ⟨zero, -⟩ | ⟨one, same⟩ := own_cases o p
          · rw [zero]
            exact units
          · have both := here same
            omega
      | done =>
        obtain ⟨c, rest, oldest⟩ : ∃ c rest, u.pending p = c :: rest := by
          rw [pending]
          refine List.exists_cons_of_ne_nil fun empty => several ?_
          rw [← books'.pending, empty]
          rfl
        refine ⟨n - own o p, m - own o p, taken.accept oldest t, ?_, fun waits => ?_⟩
        · obtain ⟨zero, -⟩ | ⟨one, same⟩ := own_cases o p
          · rw [zero]
            exact units
          · have both := here same
            omega
        · change ((uv_accept u p t).2.objects.handle o).data ≠ none at waits
          rw [accept_objects] at waits
          have none := (idle_ waits).1
          omega

theorem accounted_step {a : Act O T C} (accounted : ∀ o, Accounted domain s o) (meets : Meets s a)
    (stepped : step s a = some u) (o : O) : Accounted domain u o := by
  cases a with
  | listen p fails =>
    obtain rfl := Option.some.inj stepped
    exact accounted_listen accounted p fails o
  | connection p c creation =>
    simp only [step] at stepped
    split_ifs at stepped with enabled
    simp only [uv_onconnection] at stepped
    cases data : (s.objects.handle p).data with
    | none =>
      have same : ((s.announce p c).objects.handle p).data = none := by
        cases c <;> exact data
      rw [same] at stepped
      obtain rfl := Option.some.inj stepped
      cases c with
      | none => exact absurd data meets
      | some c =>
        obtain ⟨n, m, books, units, idle⟩ := accounted o
        have open_ (same : o = p) : n = m + 1 ∧ m + 2 < 2 ^ 29 := by
          subst same
          have more := books.listening.mp enabled.1
          have room := meets.1
          rw [books.pending] at room
          omega
        refine ⟨n + own o p, m + own o p,
          (books.announce (enabled.2.2.2 c rfl)).add fun same => ?_, ?_, fun waits => ?_⟩
        · have both := open_ same
          omega
        · obtain ⟨zero, -⟩ | ⟨one, same⟩ := own_cases o p
          · rw [zero]
            exact units
          · have both := open_ same
            omega
        · obtain ⟨zero, -⟩ | ⟨one, same⟩ := own_cases o p
          · rw [zero]
            exact idle waits
          · exact absurd (same ▸ data) waits
    | some t =>
      have same : ((s.announce p c).objects.handle p).data = some t := by
        cases c <;> exact data
      have objects : (s.announce p c).objects = s.objects := by
        cases c <;> rfl
      rw [same] at stepped
      obtain ⟨objects', notified, rfl⟩ := Option.map_eq_some_iff.mp stepped
      rw [objects] at notified
      exact accounted_event accounted enabled.1 enabled.2.2.2 data meets notified o
  | accept p t yieldable creation =>
    simp only [step] at stepped
    split_ifs at stepped with runs
    obtain rfl := Option.some.inj stepped
    exact accounted_accept accounted runs meets o
  | resume t fails | close p fails | leave fails | closed p =>
    obtain ⟨objects, called, rfl⟩ := Option.map_eq_some_iff.mp stepped
    refine accounted_objects accounted ?_ called o
    exact fun _ _ _ _ _ => nofun

omit [DecidableEq T] [DecidableEq C] in
/-- The continuation of `accept` never makes its coroutine wait. -/
theorem acceptstream_returns (s : State O T C) (p : O) (t : T) (err : Bool) (creation : Creation) :
    (k_acceptstream s p t err creation).1 ≠ .suspended := by
  unfold k_acceptstream
  split_ifs
  · exact nofun
  · cases creation with
    | raises | fails => exact nofun
    | done =>
      simp only [uv_accept]
      split <;> exact nofun

omit [DecidableEq C] in
theorem accept_suspends (accounted : Accounted domain s o) (t : T) (yieldable : Bool)
    (creation : Creation) (returns : (listen_accept s o t yieldable creation).1 ≠ .raised) :
    (listen_accept s o t yieldable creation).1 = .suspended ↔ s.pending o = [] := by
  obtain ⟨n, m, books, units, -⟩ := accounted
  have empty : s.pending o = [] ↔ m = 0 := by
    rw [← books.pending, List.length_eq_zero_iff]
  rw [empty, ← pick_none books units]
  unfold listen_accept at returns ⊢
  split_ifs at returns ⊢ with refused
  · exact absurd rfl returns
  · cases picked : picklistenedconn s o with
    | some u =>
      exact ⟨fun suspended => absurd suspended (acceptstream_returns u o t false creation), nofun⟩
    | none =>
      rw [picked] at returns
      cases reset : lcuT_resetudhdlk s.objects o t .acceptstream yieldable true with
      | error text =>
        rw [reset] at returns
        exact absurd rfl returns
      | ok objects => exact ⟨fun _ => rfl, fun _ => rfl⟩

theorem connections_accounted {acts : List (Act O T C)} (ran : run step (init domain) acts = some s)
    (meets : Along step Meets (init domain) acts) (o : O) :
    (islisteningconn s o = true → (s.flags o).toInt / LISTENCONN_UNIT.toInt - 1 =
      (s.pending o).length) ∧
    (s.flags o).toNat % 4 =
      (if domain o then 2 else 0) + (if (s.objects.handle o).closed then 1 else 0) ∧
    s.announced o = (s.given o).map Prod.fst ++ s.pending o ∧ (s.announced o).Nodup ∧
    ((s.objects.handle o).data ≠ none → s.pending o = []) ∧
    ∀ (t : T) (yieldable : Bool) (creation : Creation),
      (listen_accept s o t yieldable creation).1 ≠ .raised →
        ((listen_accept s o t yieldable creation).1 = .suspended ↔ s.pending o = []) := by
  have accounted : ∀ o, Accounted domain s o :=
    run_invariant_along (fun s => ∀ o, Accounted domain s o) Meets
      (fun _ _ _ accounted meets stepped => accounted_step accounted meets stepped)
      (accounted_init domain) meets ran
  refine ⟨fun listens => ?_, ?_, ?_, ?_, fun waits => ?_, accept_suspends (accounted o)⟩
  all_goals obtain ⟨n, m, books, units, idle⟩ := accounted o
  · have more := books.listening.mp listens
    have count := books.units
    have unit : LISTENCONN_UNIT.toInt = 4 := rfl
    rw [toInt_flags books.bound, unit, books.pending]
    omega
  · exact books.low
  · exact books.given
  · exact books.nodup
  · rw [← List.length_eq_zero_iff, books.pending]
    exact idle waits

/-- A connection is announced before it is accepted, and another one while a coroutine waits. -/
theorem connections_accounted_two :
    ∃ s : State ℕ ℕ ℕ, run step (init fun _ => true)
        [.listen 0 false, .connection 0 (some 5) .done, .accept 0 1 true .fails,
          .accept 0 1 true .done, .accept 0 1 true .done, .connection 0 (some 6) .done] = some s ∧
      s.given 0 = [(5, 1), (6, 1)] ∧ (s.flags 0).toInt / LISTENCONN_UNIT.toInt - 1 = 0 := by
  obtain ⟨s, ran, given, listens⟩ : ∃ s : State ℕ ℕ ℕ, run step (init fun _ => true)
      [.listen 0 false, .connection 0 (some 5) .done, .accept 0 1 true .fails,
        .accept 0 1 true .done, .accept 0 1 true .done, .connection 0 (some 6) .done] = some s ∧
      s.given 0 = [(5, 1), (6, 1)] ∧ islisteningconn s 0 = true ∧ s.pending 0 = [] :=
    ⟨_, rfl, rfl, rfl, rfl⟩
  have counted := (connections_accounted ran (by decide) 0).1 listens.1
  rw [listens.2] at counted
  exact ⟨s, ran, given, counted⟩

/-- An error that nobody waits for counts as a connection, and `accept` fails instead of waiting. -/
theorem connections_accounted_not :
    ∃ s : State ℕ ℕ ℕ, run step (init fun _ => false) [.listen 0 false, .connection 0 none .done] =
        some s ∧
      s.pending 0 = [] ∧ (s.flags 0).toInt / LISTENCONN_UNIT.toInt - 1 = 1 ∧
      (listen_accept s 0 1 true .done).1 = .failed :=
  ⟨_, rfl, rfl, rfl, rfl⟩

end
end Coutil.ListenAccept
