import Coutil.StateCoroutine
import Coutil.ByteString

set_option autoImplicit false

/-! Values that `src/lmodaux.c` copies or moves to the stack `dst` of another state. `L` and `dst`
are threads of one state, and the source is the stack of a thread of another one. -/
namespace Coutil.StateTransfer
open ByteString
open StateCoroutine (LuaError LuaStatus)

inductive ObjectType where
  | table
  | function
  | userdata
  | thread
  deriving DecidableEq

def ObjectType.typename : ObjectType → String
  | .table => "table"
  | .function => "function"
  | .userdata => "userdata"
  | .thread => "thread"

/-- The floats and the objects are of any types. -/
inductive Value (F O : Type) where
  | nil
  | boolean (b : Bool)
  | integer (n : ℤ)
  | float (x : F)
  | string (s : Bytes)
  | lightuserdata (p : ℕ)
  | object (type : ObjectType) (o : O)
  deriving DecidableEq

section
variable {F O T : Type} [DecidableEq T]

abbrev Stack (F O : Type) := List (Value F O)

def Value.transferable : Value F O → Bool
  | .object _ _ => false
  | _ => true

/-- The status and the error of a protected call that fails. -/
abbrev Raised (F O : Type) := LuaError × Value F O

def message (text : String) : Value F O := .string (literal text)

/-- The value at an index that is not zero, if there is one. -/
def index (L : Stack F O) (idx : ℤ) : Option (Value F O) :=
  if 0 < idx then L[(idx - 1).toNat]?
  else if (-idx).toNat ≤ L.length then L[L.length - (-idx).toNat]? else none

/-- `doerrmsg(luaL_error, …)` -/
def errmsg (idx : ℤ) (msg type : String) : Raised F O :=
  (.run, message (Exchange.errmsg idx msg type))

/-- `memory` tells that a string cannot be allocated. -/
def pushfrom (memory : Bool) (dst source : Stack F O) (idx : ℤ) (msg : String) :
    Except (Raised F O) (Stack F O) :=
  match index source idx with
  | some .nil => .ok (dst ++ [.nil])
  | some (.boolean b) => .ok (dst ++ [.boolean b])
  | some (.integer n) => .ok (dst ++ [.integer n])
  | some (.float x) => .ok (dst ++ [.float x])
  | some (.string s) =>
    if memory then .error (.memory, message "not enough memory") else .ok (dst ++ [.string s])
  | some (.lightuserdata p) => .ok (dst ++ [.lightuserdata p])
  | some (.object type _) =>
    .error (if memory then (.memory, message "not enough memory")
      else errmsg idx msg type.typename)
  | none =>
    .error (if memory then (.memory, message "not enough memory") else errmsg idx msg "no value")

/-- What fails in one call: `lua_checkstack`, what calls the function in protected mode, the
`luaL_checkstack` in it, and the allocations for the value at an index. -/
structure Failures (F O T : Type) where
  checkstack : T → ℕ → Bool
  call : Option (Raised F O)
  space : Bool
  memory : ℤ → Bool

/-- The loop of `auxmovefrom`, with `k` turns to go. -/
def moveloop (failures : Failures F O T) (source : Stack F O) (msg : String) :
    ℕ → ℤ → Stack F O → Except (Raised F O) (Stack F O)
  | 0, _, dst => .ok dst
  | k + 1, idx, dst =>
    match pushfrom (failures.memory idx) dst source idx msg with
    | .error raised => .error raised
    | .ok dst => moveloop failures source msg k (idx + 1) dst

/-- The stack of the function when it returns its top `n` values. -/
def auxmovefrom (failures : Failures F O T) (source : Stack F O) (n : ℕ) (msg : String) :
    Except (Raised F O) (Stack F O) :=
  if failures.space then .error (.run, message "stack overflow (too many values)")
  else moveloop failures source msg n (1 + source.length - n) []

def auxpushfrom (failures : Failures F O T) (source : Stack F O) (idx : ℤ) (msg : String) :
    Except (Raised F O) (Stack F O) :=
  pushfrom (failures.memory idx) [] source idx msg

structure Thread (F O : Type) where
  status : LuaStatus
  stack : Stack F O

structure State (F O T : Type) where
  thread : T → Thread F O
  main : T

def State.push (s : State F O T) (L : T) (values : Stack F O) : State F O T :=
  let changed := { s.thread L with stack := (s.thread L).stack ++ values }
  { s with thread := Function.update s.thread L changed }

def State.pop (s : State F O T) (L : T) (n : ℕ) : State F O T :=
  let stack := (s.thread L).stack
  let changed := { s.thread L with stack := stack.take (stack.length - n) }
  { s with thread := Function.update s.thread L changed }

def xmove (s : State F O T) (L dst : T) (n : ℕ) : State F O T :=
  let stack := (s.thread L).stack
  (s.pop L n).push dst (stack.drop (stack.length - n))

def state2normal (s : State F O T) (L : T) : T :=
  if (s.thread L).status = .yield then s.main else L

/-- The thread that makes the protected call. -/
def caller (s : State F O T) (L : Option T) (dst : T) : T := L.getD (state2normal s dst)

/-- The results of the function, of which there are `nresults`, or the error. -/
def pcall (failures : Failures F O T) (function : Except (Raised F O) (Stack F O)) (nresults : ℕ)
    (s : State F O T) (L : T) : LuaStatus × State F O T :=
  match failures.call, function with
  | some raised, _ => (.error raised.1, s.push L [raised.2])
  | none, .error raised => (.error raised.1, s.push L [raised.2])
  | none, .ok stack => (.ok, s.push L (stack.drop (stack.length - nresults)))

/-- There is no result where an assertion fails. -/
def lcuL_pushfrom (failures : Failures F O T) (s : State F O T) (L : Option T) (dst : T)
    (source : Stack F O) (idx : ℤ) (msg : String) : Option (LuaStatus × State F O T) :=
  let L := caller s L dst
  if (s.thread L).status ≠ .ok then none
  else if ¬ failures.checkstack dst 4 then some (.error .memory, s)
  else
    let (status, s) := pcall failures (auxpushfrom failures source idx msg) 1 s L
    some (status, if dst ≠ L then xmove s L dst 1 else s)

def EXTRA : ℕ := 3

/-- The last result is the source after it. -/
def lcuL_movefrom (failures : Failures F O T) (s : State F O T) (L : Option T) (dst : T)
    (source : Stack F O) (n : ℕ) (msg : String) : Option (LuaStatus × State F O T × Stack F O) :=
  let L := caller s L dst
  if source.length < n ∨ (s.thread L).status ≠ .ok then none
  else if ¬ failures.checkstack L (if n > 3 then n + 1 + EXTRA else 4 + EXTRA) ∨
      ¬ failures.checkstack dst (n + EXTRA) then some (.error .memory, s, source)
  else
    let (status, s) := pcall failures (auxmovefrom failures source n msg) n s L
    let source := if status = .ok then source.take (source.length - n) else source
    some (status, if dst ≠ L then xmove s L dst (if status = .ok then n else 1) else s, source)

/-- With `LUA_OK` the top `n` values went from the source to `dst`; else one error did, and the
source is what it was. No other stack changed. -/
def Moves (s : State F O T) (dst : T) (source : Stack F O) (n : ℕ)
    (r : LuaStatus × State F O T × Stack F O) : Prop :=
  (r.1 = .ok → ∃ values, source = r.2.2 ++ values ∧ values.length = n ∧
    (∀ v ∈ values, v.transferable) ∧ r.2.1 = s.push dst values) ∧
  (r.1 ≠ .ok → ∃ error, r.2.1 = s.push dst [error] ∧ r.2.2 = source)

def Pushes (s : State F O T) (dst : T) (source : Stack F O) (idx : ℤ)
    (r : LuaStatus × State F O T) : Prop :=
  (r.1 = .ok → ∃ v, index source idx = some v ∧ v.transferable ∧ r.2 = s.push dst [v]) ∧
  (r.1 ≠ .ok → ∃ error, r.2 = s.push dst [error])

variable {failures : Failures F O T} {s : State F O T} {L dst : T} {source u : Stack F O}
  {msg : String}

theorem pushfrom_copies {memory : Bool} {stack : Stack F O} {idx : ℤ}
    (copied : pushfrom memory stack source idx msg = .ok u) :
    ∃ v, index source idx = some v ∧ v.transferable ∧ u = stack ++ [v] := by
  unfold pushfrom at copied
  split at copied
  all_goals first
    | exact ⟨_, ‹_›, rfl, (Except.ok.inj copied).symm⟩
    | skip
  · split_ifs at copied
    exact ⟨_, ‹_›, rfl, (Except.ok.inj copied).symm⟩
  · cases copied
  · cases copied

theorem drop_next {k : ℕ} (more : k < source.length) :
    ∃ v, index source (1 + source.length - (k + 1 : ℕ)) = some v ∧
      source.drop (source.length - (k + 1)) = v :: source.drop (source.length - k) := by
  have inside : source.length - (k + 1) < source.length := by omega
  have position : (1 + source.length - (k + 1 : ℕ) - 1 : ℤ).toNat = source.length - (k + 1) := by
    omega
  have following : source.length - (k + 1) + 1 = source.length - k := by omega
  refine ⟨source[source.length - (k + 1)], ?_, ?_⟩
  · rw [index, if_pos (by omega), position, List.getElem?_eq_getElem inside]
  · rw [List.drop_eq_getElem_cons inside, following]

omit [DecidableEq T] in
theorem moveloop_copies {k : ℕ} {stack : Stack F O} (enough : k ≤ source.length)
    (copied : moveloop failures source msg k (1 + source.length - k) stack = .ok u) :
    u = stack ++ source.drop (source.length - k) ∧
      ∀ v ∈ source.drop (source.length - k), v.transferable := by
  induction k generalizing stack with
  | zero =>
    obtain rfl := Except.ok.inj copied
    simp
  | succ k ih =>
    obtain ⟨v, at_index, next⟩ := drop_next enough
    rw [moveloop] at copied
    split at copied
    · cases copied
    · rename_i pushed first
      obtain ⟨w, same, transferable, rfl⟩ := pushfrom_copies first
      obtain rfl := Option.some.inj (at_index.symm.trans same)
      have index : (1 + source.length - (k + 1 : ℕ) + 1 : ℤ) = 1 + source.length - k := by omega
      rw [index] at copied
      obtain ⟨rfl, rest⟩ := ih (Nat.le_of_succ_le enough) copied
      rw [next]
      refine ⟨List.append_cons .. ▸ rfl, fun x member => ?_⟩
      rcases List.mem_cons.mp member with rfl | behind
      · exact transferable
      · exact rest x behind

/-- What was pushed on `L` for `dst` ends on `dst` alone. -/
theorem xmove_pushed (s : State F O T) (L dst : T) (values : Stack F O) :
    (if dst ≠ L then xmove (s.push L values) L dst values.length else s.push L values) =
      s.push dst values := by
  by_cases same : dst = L
  · rw [if_neg (not_not.mpr same), same]
  · rw [if_pos same]
    simp only [xmove, State.pop, State.push, Function.update_self, Function.update_idem,
      List.length_append, Nat.add_sub_cancel, List.take_left, List.drop_left,
      Function.update_eq_self]

theorem push_ne (v : Value F O) : s ≠ s.push dst [v] := by
  intro same
  have lengths := congrArg (fun state => ((state.thread dst).stack).length) same
  simp only [State.push, Function.update_self, List.length_append, List.length_singleton] at lengths
  omega

/-- A protected call pushes the results of a function that returns, or one error. -/
theorem pcall_cases (failures : Failures F O T) (function : Except (Raised F O) (Stack F O))
    (n : ℕ) (s : State F O T) (L : T) :
    (∃ stack, function = .ok stack ∧
      pcall failures function n s L = (.ok, s.push L (stack.drop (stack.length - n)))) ∨
    ∃ raised : Raised F O,
      pcall failures function n s L = (.error raised.1, s.push L [raised.2]) := by
  cases called : failures.call with
  | some raised =>
    refine .inr ⟨raised, ?_⟩
    simp only [pcall, called]
  | none =>
    cases function with
    | error raised =>
      refine .inr ⟨raised, ?_⟩
      simp only [pcall, called]
    | ok stack =>
      refine .inl ⟨stack, rfl, ?_⟩
      simp only [pcall, called]

theorem lcuL_movefrom_moves {L : Option T} {n : ℕ} (asserted : n ≤ source.length)
    (running : (s.thread (caller s L dst)).status = .ok)
    (room : failures.checkstack (caller s L dst) (if n > 3 then n + 1 + EXTRA else 4 + EXTRA))
    (room' : failures.checkstack dst (n + EXTRA)) :
    ∃ r, lcuL_movefrom failures s L dst source n msg = some r ∧ Moves s dst source n r := by
  have accepted : ¬ (source.length < n ∨ (s.thread (caller s L dst)).status ≠ .ok) := by
    rw [not_or, not_not]
    exact ⟨not_lt.mpr asserted, running⟩
  simp only [lcuL_movefrom, if_neg accepted, room, room', not_true_eq_false, or_self, if_false]
  rcases pcall_cases failures (auxmovefrom failures source n msg) n s (caller s L dst) with
    ⟨stack, returned, called⟩ | ⟨raised, called⟩
  · rw [called]
    unfold auxmovefrom at returned
    split_ifs at returned
    obtain ⟨rfl, transferable⟩ := moveloop_copies asserted returned
    have size : (source.drop (source.length - n)).length = n := by
      rw [List.length_drop, Nat.sub_sub_self asserted]
    refine ⟨_, rfl, fun _ => ⟨source.drop (source.length - n), ?_, size, transferable, ?_⟩, nofun⟩
    · exact (List.take_append_drop _ source).symm
    · have delivered := xmove_pushed s (caller s L dst) dst (source.drop (source.length - n))
      rw [size] at delivered
      simp only [List.nil_append, size, Nat.sub_self, List.drop_zero, if_true]
      exact delivered
  · rw [called]
    refine ⟨_, rfl, nofun, fun _ => ⟨raised.2, ?_, rfl⟩⟩
    exact xmove_pushed s (caller s L dst) dst [raised.2]

theorem lcuL_pushfrom_pushes {L : Option T} {idx : ℤ}
    (running : (s.thread (caller s L dst)).status = .ok) (room : failures.checkstack dst 4) :
    ∃ r, lcuL_pushfrom failures s L dst source idx msg = some r ∧ Pushes s dst source idx r := by
  simp only [lcuL_pushfrom, running, ne_eq, not_true_eq_false, room, if_false]
  rcases pcall_cases failures (auxpushfrom failures source idx msg) 1 s (caller s L dst) with
    ⟨stack, returned, called⟩ | ⟨raised, called⟩
  · rw [called]
    obtain ⟨v, found, transferable, rfl⟩ := pushfrom_copies returned
    exact ⟨_, rfl, fun _ => ⟨v, found, transferable, xmove_pushed _ _ _ [v]⟩, nofun⟩
  · rw [called]
    exact ⟨_, rfl, nofun, fun _ => ⟨raised.2, xmove_pushed _ _ _ [raised.2]⟩⟩

/-- The message of an error is missing if and only if the stacks cannot grow as much as needed. -/
theorem transfer_all_or_nothing (failures : Failures F O T) (s : State F O T) (L : Option T)
    (dst : T) (source : Stack F O) (n : ℕ) (idx : ℤ) (msg : String)
    (asserted : n ≤ source.length) (running : (s.thread (caller s L dst)).status = .ok) :
    ((∃ r, lcuL_movefrom failures s L dst source n msg = some r ∧ Moves s dst source n r) ↔
      failures.checkstack (caller s L dst) (if n > 3 then n + 1 + EXTRA else 4 + EXTRA) ∧
        failures.checkstack dst (n + EXTRA)) ∧
    ((∃ r, lcuL_pushfrom failures s L dst source idx msg = some r ∧ Pushes s dst source idx r) ↔
      failures.checkstack dst 4) := by
  have accepted : ¬ (source.length < n ∨ (s.thread (caller s L dst)).status ≠ .ok) := by
    rw [not_or, not_not]
    exact ⟨not_lt.mpr asserted, running⟩
  constructor
  · constructor
    · rintro ⟨r, returned, -, failed⟩
      by_contra lacking
      rw [not_and_or] at lacking
      simp only [lcuL_movefrom, if_neg accepted, if_pos lacking, Option.some.injEq] at returned
      subst returned
      obtain ⟨error, unchanged, -⟩ := failed nofun
      exact push_ne error unchanged
    · rintro ⟨room, room'⟩
      exact lcuL_movefrom_moves asserted running room room'
  · constructor
    · rintro ⟨r, returned, -, failed⟩
      by_contra lacking
      simp only [lcuL_pushfrom, running, ne_eq, not_true_eq_false, if_false, if_pos lacking,
        Option.some.injEq] at returned
      subst returned
      obtain ⟨error, unchanged⟩ := failed nofun
      exact push_ne error unchanged
    · exact lcuL_pushfrom_pushes running

def suspendedState : State ℕ ℕ Bool :=
  ⟨fun L => if L then ⟨.yield, [.integer 1]⟩ else ⟨.ok, []⟩, false⟩

def noFailures : Failures ℕ ℕ Bool := ⟨fun _ _ => true, none, false, fun _ => false⟩

def noSpace : Failures ℕ ℕ Bool := { noFailures with checkstack := fun L _ => !L }

theorem transfer_all_or_nothing_two :
    (∃ r, lcuL_movefrom noFailures suspendedState none true [.nil, .string [7], .boolean true] 2
        "argument" = some r ∧
      Moves suspendedState true [.nil, .string [7], .boolean true] 2 r) ∧
    (∃ r, lcuL_pushfrom noFailures suspendedState none true [.nil, .string [7], .boolean true] (-1)
        "argument" = some r ∧
      Pushes suspendedState true [.nil, .string [7], .boolean true] (-1) r) := by
  obtain ⟨moves, pushes⟩ := transfer_all_or_nothing noFailures suspendedState none true
    [.nil, .string [7], .boolean true] 2 (-1) "argument" (by decide) (by decide)
  exact ⟨moves.mpr (by decide), pushes.mpr (by decide)⟩

/-- The stack of the coroutine cannot grow, and it gets no error. -/
theorem transfer_all_or_nothing_not :
    ¬ ∃ r, lcuL_movefrom noSpace suspendedState none true [.nil] 1 "argument" = some r ∧
      Moves suspendedState true [.nil] 1 r := by
  rintro ⟨r, returned, -, failed⟩
  obtain rfl := Option.some.inj returned
  obtain ⟨error, unchanged, -⟩ := failed nofun
  exact push_ne error unchanged

end
end Coutil.StateTransfer
