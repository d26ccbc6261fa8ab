import Coutil.ChannelSync

set_option autoImplicit false

/-! What `src/lchaux.c` does with the stacks of two states that are matched on a channel. A
stack is the list of its values, from index 1 on. -/
namespace Coutil.Exchange
open ChannelSync (Endpoint)

/-- A number that is not an integer is given by the text `lua_tostring` makes of it. -/
inductive Value where
  | nil
  | boolean (b : Bool)
  | integer (n : ℤ)
  | float (text : String)
  | string (text : String)
  | pointer (address : ℕ)
  | channeltask
  | object (type : String) (id : ℕ)
  deriving DecidableEq

def Value.typename : Value → String
  | .nil => "nil"
  | .boolean _ => "boolean"
  | .integer _ => "number"
  | .float _ => "number"
  | .string _ => "string"
  | .pointer _ => "userdata"
  | .channeltask => "userdata"
  | .object type _ => type

/-- What can be copied to another state. -/
def Value.movable : Value → Bool
  | .channeltask => false
  | .object _ _ => false
  | _ => true

/-- `lua_tostring`, which also changes a number into its text. -/
def Value.tostring : Value → Option String
  | .integer n => some (toString n)
  | .float text => some text
  | .string text => some text
  | _ => none

/-- `lua_tointeger`, of the integers that were pushed for it. -/
def Value.tointeger : Value → ℤ
  | .integer n => n
  | _ => 0

abbrev Stack := List Value

def index (L : Stack) (idx : ℕ) : Value :=
  L.getD (idx - 1) .nil

def settop (L : Stack) (top : ℕ) : Stack :=
  L.take top ++ List.replicate (top - L.length) .nil

def replace (L : Stack) (idx : ℕ) : Stack :=
  (L.set (idx - 1) (index L L.length)).dropLast

def insert (L : Stack) (idx : ℕ) : Stack :=
  L.take (idx - 1) ++ index L L.length :: (L.drop (idx - 1)).dropLast

/-- `doerrmsg` -/
def errmsg (idx : ℤ) (msg type : String) : String :=
  if idx > 0 then "unable to transfer " ++ msg ++ " #" ++ toString idx ++ " (got " ++ type ++ ")"
  else "unable to transfer " ++ msg ++ " (got " ++ type ++ ")"

inductive Lack where
  | memory (text : String)
  | space

/-- The value that `lcuL_pushfrom` pushes: a copy, or the message of an error. No message is
pushed when there is no space. -/
def pushfrom (fault : Option Lack) (v : Value) (idx : ℤ) (msg : String) : Except Stack Value :=
  match fault with
  | some .space => .error []
  | some (.memory text) => .error [.string text]
  | none => if v.movable then .ok v else .error [.string (errmsg idx msg v.typename)]

/-- `lcuL_movefrom`: both stacks, or the one the values should go to with the message. No
message is pushed when there is no space. -/
def movefrom (fault : Option Lack) (dst src : Stack) (n : ℕ) (msg : String) :
    Except Stack (Stack × Stack) :=
  let kept := src.length - n
  match fault, (src.drop kept).findIdx? (fun v => !v.movable) with
  | some .space, _ => .error dst
  | some (.memory text), _ => .error (dst ++ [.string text])
  | none, some i =>
    .error (dst ++ [.string (errmsg (kept + i + 1) msg (index src (kept + i + 1)).typename)])
  | none, none => .ok (dst ++ src.drop kept, src.take kept)

/-- The transfers of one exchange that fail. There is space for the message in a stack that was
cut to its base. -/
structure Faults where
  copy : ℕ → Option Lack
  move : Option Lack
  error : Option Lack
  room : error ≠ some .space

def Faults.none : Faults := ⟨fun _ => .none, .none, .none, nofun⟩

/-- The last two values are those of the failed state, whose top is its `narg` by then. -/
def pusherrfrom (faults : Faults) (L : Stack) (base : ℕ) (failed : Stack) (bfailed : ℕ) :
    Stack × Stack :=
  let failed := replace failed (bfailed + 1)
  let failed := settop failed (bfailed + 1)
  let failed := insert (failed ++ [.boolean false]) (bfailed + 1) ++ [.integer 2]
  let L := settop L base ++ [.boolean false]
  match pushfrom faults.error (index failed failed.length) (-1) "error" with
  | .error pushed => (L ++ pushed ++ [.integer 2], failed)
  | .ok v => (L ++ [v] ++ [.integer 2], failed)

/-- The loop of `swapvalues`, with `n` turns to go and `i` the number of the next one. -/
def swaploop (faults : Faults) (bsrc tsrc bdst tdst : ℕ) :
    ℕ → ℕ → Stack → Stack → Except (Stack × Stack) (Stack × Stack)
  | 0, _, src, dst => .ok (src, dst)
  | n + 1, i, src, dst =>
    match pushfrom (faults.copy (2 * i)) (index dst (tdst + i)) (tdst + i) "argument" with
    | .error pushed => .error (pusherrfrom faults dst bdst (src ++ pushed) bsrc).swap
    | .ok v =>
      match pushfrom (faults.copy (2 * i + 1)) (index (src ++ [v]) (tsrc + i)) (tsrc + i)
        "argument" with
      | .error pushed => .error (pusherrfrom faults (src ++ [v]) bsrc (dst ++ pushed) bdst)
      | .ok u =>
        swaploop faults bsrc tsrc bdst tdst n (i + 1) (replace (src ++ [v]) (bsrc + i + 1))
          (replace (dst ++ [u]) (bdst + i + 1))

/-- The rest of `swapvalues`: what the longer list has more of. -/
def swaprest (faults : Faults) (src : Stack) (bsrc nsrc : ℕ) (dst : Stack) (bdst ndst : ℕ) :
    Stack × Stack :=
  let dst := settop dst (bdst + ndst + 1)
  match movefrom faults.move dst src (nsrc - ndst) "argument" with
  | .error dst => pusherrfrom faults src bsrc dst bdst
  | .ok (dst, src) =>
    let src := settop src (bsrc + ndst + 1)
    (replace (src ++ [.boolean true]) (bsrc + 1) ++ [.integer (ndst + 1)],
      replace (dst ++ [.boolean true]) (bdst + 1) ++ [.integer (nsrc + 1)])

def swaplonger (faults : Faults) (src : Stack) (bsrc nsrc : ℕ) (dst : Stack) (bdst ndst : ℕ) :
    Stack × Stack :=
  match swaploop faults bsrc (src.length - nsrc) bdst (dst.length - ndst) ndst 1 src dst with
  | .error failed => failed
  | .ok (src, dst) => swaprest faults src bsrc nsrc dst bdst ndst

/-- The stacks of `src` and `dst` afterwards. -/
def swapvalues (faults : Faults) (src : Stack) (bsrc nsrc : ℕ) (dst : Stack) : Stack × Stack :=
  let bdst := (index dst (dst.length - 1)).tointeger.toNat
  let ndst := (index dst dst.length).tointeger.toNat
  let dst := dst.dropLast.dropLast
  if nsrc < ndst then (swaplonger faults dst bdst ndst src bsrc nsrc).swap
  else swaplonger faults src bsrc nsrc dst bdst ndst

/-- `base` and `narg` are pushed to be used in `swapvalues`. -/
def offer (L : Stack) (base narg : ℕ) : Stack :=
  L ++ [.integer base, .integer narg]

/-- `lcuL_canmove` -/
def canmove (L : Stack) (narg : ℕ) (msg : String) : Option String :=
  let first := L.length - narg
  ((L.drop first).findIdx? (fun v => !v.movable)).map fun (i : ℕ) =>
    errmsg (3 + (i : ℤ)) msg (index L (first + i + 1)).typename

/-- What C functions see of a Lua string: what is before its first zero byte. -/
def cstring (name : String) : String :=
  String.ofList (name.toList.takeWhile fun c => c ≠ Char.ofNat 0)

/-- `luaL_optstring`; without a text an error is raised. -/
def optstring (L : Stack) (idx : ℕ) (default : String) : Option String :=
  match index L idx with
  | .nil => some default
  | v => v.tostring

/-- The endpoint and the stack, with the message on top when there is no endpoint. -/
def checksyncargs (L : Stack) (idx : ℕ) : Option (Option Endpoint × Stack) :=
  (optstring L idx "any").map fun text =>
    let name := cstring text
    let endpoint : Option Endpoint :=
      if name = "in" then some .in else if name = "out" then some .out
      else if name = "any" then some .any else none
    let L := if index L idx = .nil then L else L.set (idx - 1) (.string text)
    match endpoint with
    | none => (none, L ++ [.string ("bad argument #2 (invalid option '" ++ name ++ "')")])
    | some endpoint =>
      match canmove L (L.length - idx) "argument" with
      | none => (some endpoint, L)
      | some text => (none, L ++ [.string text])

/-- What a thread relies on that resumes the state: the values to be passed and their number
on top of what was there. -/
def Ready (below L : Stack) : Prop :=
  ∃ values, L = below ++ values ++ [.integer values.length]

/-- What `swapvalues` relies on: `n` arguments, with a value before them, above `base`. -/
def Offers (L : Stack) (base n : ℕ) : Prop :=
  base ≤ L.length ∧ (0 < n → base + 1 + n ≤ L.length)

theorem length_settop (L : Stack) (top : ℕ) : (settop L top).length = top := by
  simp only [settop, List.length_append, List.length_take, List.length_replicate]
  omega

theorem take_settop {L : Stack} {top k : ℕ} (low : k ≤ top) (fits : k ≤ L.length) :
    (settop L top).take k = L.take k := by
  rw [settop, List.take_append_of_le_length (by simp; omega), List.take_take, min_eq_left low]

theorem settop_eq_take {L : Stack} {top : ℕ} (fits : top ≤ L.length) : settop L top = L.take top := by
  simp [settop, Nat.sub_eq_zero_of_le fits]

theorem length_replace (L : Stack) (idx : ℕ) : (replace L idx).length = L.length - 1 := by
  simp only [replace, List.length_dropLast, List.length_set]

theorem take_replace {L : Stack} {idx k : ℕ} (low : k < idx) (fits : k < L.length) :
    (replace L idx).take k = L.take k := by
  rw [replace, List.dropLast_eq_take, List.take_take, List.take_set_of_le (by omega)]
  congr 1
  simp
  omega

theorem take_replace_append {L : Stack} {v : Value} {idx k : ℕ} (low : k < idx)
    (fits : k ≤ L.length) : (replace (L ++ [v]) idx).take k = L.take k := by
  rw [take_replace low (by simp; omega), List.take_append_of_le_length fits]

theorem ready_append (base n : ℕ) {L below : Stack} (length : L.length = base + n)
    (prefix_ : L.take base = below) : Ready below (L ++ [.integer n]) := by
  refine ⟨L.drop base, ?_⟩
  rw [← prefix_, List.take_append_drop, List.length_drop, length, Nat.add_sub_cancel_left]

theorem length_insert {L : Stack} {idx : ℕ} (fits : idx - 1 < L.length) :
    (insert L idx).length = L.length := by
  simp only [insert, List.length_append, List.length_take, List.length_cons, List.length_dropLast,
    List.length_drop]
  omega

theorem take_insert (idx : ℕ) {L : Stack} (fits : idx - 1 ≤ L.length) :
    (insert L idx).take (idx - 1) = L.take (idx - 1) := by
  rw [insert, List.take_append_of_le_length (by simp; omega), List.take_take, min_self]

theorem pushfrom_error {fault : Option Lack} {v : Value} {idx : ℤ} {msg : String} {pushed : Stack}
    (failed : pushfrom fault v idx msg = .error pushed) (room : fault ≠ some .space) :
    ∃ text, pushed = [.string text] := by
  cases fault with
  | none =>
    simp only [pushfrom] at failed
    split at failed
    · cases failed
    · cases failed
      exact ⟨_, rfl⟩
  | some lack =>
    cases lack with
    | space => exact absurd rfl room
    | memory text =>
      cases failed
      exact ⟨text, rfl⟩

theorem ready_pusherrfrom (faults : Faults) {L : Stack} {base : ℕ} (failed : Stack) {bfailed : ℕ}
    (fits : base ≤ L.length) (more : bfailed < failed.length) :
    Ready (L.take base) (pusherrfrom faults L base failed bfailed).1 ∧
      Ready (failed.take bfailed) (pusherrfrom faults L base failed bfailed).2 := by
  have first (v : Value) :
      Ready (L.take base) (settop L base ++ [.boolean false] ++ [v] ++ [.integer 2]) := by
    refine ready_append base 2 ?_ ?_
    · simp [length_settop]
    · rw [List.append_assoc, List.take_append_of_le_length (by rw [length_settop]),
        take_settop le_rfl fits]
  have cut : (settop (replace failed (bfailed + 1)) (bfailed + 1)).take bfailed =
      failed.take bfailed := by
    have kept := length_replace failed (bfailed + 1)
    rw [take_settop (by omega) (by omega), take_replace (by omega) more]
  have second : Ready (failed.take bfailed)
      (insert (settop (replace failed (bfailed + 1)) (bfailed + 1) ++ [.boolean false])
        (bfailed + 1) ++ [.integer 2]) := by
    refine ready_append bfailed 2 ?_ ?_
    · rw [length_insert (by simp [length_settop])]
      simp [length_settop]
    · have inserted := take_insert (bfailed + 1)
        (L := settop (replace failed (bfailed + 1)) (bfailed + 1) ++ [.boolean false])
        (by simp [length_settop]; omega)
      rw [Nat.add_sub_cancel] at inserted
      rw [inserted, List.take_append_of_le_length (by simp [length_settop]), cut]
  unfold pusherrfrom
  simp only
  split
  · rename_i pushed failing
    obtain ⟨text, rfl⟩ := pushfrom_error failing faults.room
    exact ⟨first _, second⟩
  · exact ⟨first _, second⟩

/-- A turn of the loop leaves both stacks as long as they were, and unchanged up to the base. -/
theorem swaploop_spec (faults : Faults) {bsrc bdst i : ℕ} (tsrc tdst n : ℕ) {src dst : Stack}
    (hsrc : bsrc ≤ src.length) (hdst : bdst ≤ dst.length)
    (more : 0 < n → bsrc < src.length ∧ bdst < dst.length) (turn : 0 < i) :
    match swaploop faults bsrc tsrc bdst tdst n i src dst with
    | .error (src', dst') => Ready (src.take bsrc) src' ∧ Ready (dst.take bdst) dst'
    | .ok (src', dst') => src'.length = src.length ∧ dst'.length = dst.length ∧
        src'.take bsrc = src.take bsrc ∧ dst'.take bdst = dst.take bdst := by
  induction n generalizing i src dst with
  | zero => exact ⟨rfl, rfl, rfl, rfl⟩
  | succ n ih =>
    obtain ⟨msrc, mdst⟩ := more (Nat.succ_pos n)
    rw [swaploop]
    cases pushfrom (faults.copy (2 * i)) (index dst (tdst + i)) (tdst + i) "argument" with
    | error pushed =>
      have failed := ready_pusherrfrom faults (src ++ pushed) hdst
        (show bsrc < (src ++ pushed).length by simp; omega)
      rw [List.take_append_of_le_length hsrc] at failed
      exact ⟨failed.2, failed.1⟩
    | ok v =>
      simp only
      cases pushfrom (faults.copy (2 * i + 1)) (index (src ++ [v]) (tsrc + i)) (tsrc + i)
        "argument" with
      | error pushed =>
        have failed := ready_pusherrfrom faults (dst ++ pushed)
          (show bsrc ≤ (src ++ [v]).length by simp; omega)
          (show bdst < (dst ++ pushed).length by simp; omega)
        rw [List.take_append_of_le_length hsrc, List.take_append_of_le_length hdst] at failed
        exact failed
      | ok u =>
        have length_src : (replace (src ++ [v]) (bsrc + i + 1)).length = src.length := by
          simp [length_replace]
        have length_dst : (replace (dst ++ [u]) (bdst + i + 1)).length = dst.length := by
          simp [length_replace]
        have rest := ih (i := i + 1) (show bsrc ≤ (replace (src ++ [v]) (bsrc + i + 1)).length by omega)
          (show bdst ≤ (replace (dst ++ [u]) (bdst + i + 1)).length by omega)
          (fun _ => by omega) (by omega)
        rw [length_src, length_dst, take_replace_append (by omega) hsrc,
          take_replace_append (by omega) hdst] at rest
        exact rest

theorem movefrom_spec (fault : Option Lack) (dst src : Stack) (n : ℕ) (msg : String) :
    match movefrom fault dst src n msg with
    | .error dst' => dst.length ≤ dst'.length ∧ dst'.take dst.length = dst
    | .ok (dst', src') => dst' = dst ++ src.drop (src.length - n) ∧
        src' = src.take (src.length - n) := by
  cases fault with
  | some lack =>
    cases lack with
    | space => simp [movefrom]
    | memory text => simp [movefrom]
  | none =>
    simp only [movefrom]
    cases (src.drop (src.length - n)).findIdx? (fun v => !v.movable) with
    | some i => simp
    | none => exact ⟨rfl, rfl⟩

theorem ready_swaprest {faults : Faults} {src dst : Stack} {bsrc nsrc bdst ndst : ℕ}
    (hsrc : bsrc + (nsrc - ndst) ≤ src.length) (hdst : bdst ≤ dst.length) (longer : ndst ≤ nsrc) :
    Ready (src.take bsrc) (swaprest faults src bsrc nsrc dst bdst ndst).1 ∧
      Ready (dst.take bdst) (swaprest faults src bsrc nsrc dst bdst ndst).2 := by
  have cut : (settop dst (bdst + ndst + 1)).take bdst = dst.take bdst :=
    take_settop (by omega) hdst
  have length := length_settop dst (bdst + ndst + 1)
  have moved := movefrom_spec faults.move (settop dst (bdst + ndst + 1)) src (nsrc - ndst) "argument"
  unfold swaprest
  simp only
  cases result : movefrom faults.move (settop dst (bdst + ndst + 1)) src (nsrc - ndst)
    "argument" with
  | error dst' =>
    simp only [result] at moved ⊢
    have failed := ready_pusherrfrom faults dst' (show bsrc ≤ src.length by omega)
      (show bdst < dst'.length by omega)
    have same : dst'.take bdst = dst.take bdst := by
      rw [← cut, ← moved.2, List.take_take, min_eq_left (by omega)]
    rw [same] at failed
    exact failed
  | ok pair =>
    obtain ⟨dst', src'⟩ := pair
    simp only [result] at moved ⊢
    obtain ⟨rfl, rfl⟩ := moved
    refine ⟨ready_append bsrc (ndst + 1) ?_ ?_,
      ready_append bdst (nsrc + 1) ?_ ?_⟩
    · simp [length_replace, length_settop]
      omega
    · rw [take_replace_append (by omega) (by rw [length_settop]; omega),
        take_settop (by omega) (by simp; omega), List.take_take, min_eq_left (by omega)]
    · simp [length_replace, length]
      omega
    · rw [take_replace_append (by omega) (by simp [length]; omega),
        List.take_append_of_le_length (by omega), cut]

theorem ready_swaplonger {faults : Faults} {src dst : Stack} {bsrc nsrc bdst ndst : ℕ}
    (hsrc : Offers src bsrc nsrc) (hdst : Offers dst bdst ndst) (longer : ndst ≤ nsrc) :
    Ready (src.take bsrc) (swaplonger faults src bsrc nsrc dst bdst ndst).1 ∧
      Ready (dst.take bdst) (swaplonger faults src bsrc nsrc dst bdst ndst).2 := by
  have more : 0 < ndst → bsrc < src.length ∧ bdst < dst.length := by
    intro some
    have first := hsrc.2 (by omega)
    have second := hdst.2 some
    omega
  have looped := swaploop_spec faults (src.length - nsrc) (dst.length - ndst) ndst hsrc.1 hdst.1
    more (show 0 < 1 by omega)
  unfold swaplonger
  cases result : swaploop faults bsrc (src.length - nsrc) bdst (dst.length - ndst) ndst 1 src
    dst with
  | error failed =>
    simp only [result] at looped ⊢
    exact looped
  | ok pair =>
    obtain ⟨src', dst'⟩ := pair
    simp only [result] at looped ⊢
    obtain ⟨length_src, length_dst, take_src, take_dst⟩ := looped
    rw [← take_src, ← take_dst]
    refine ready_swaprest ?_ (by have := hdst.1; omega) longer
    have := hsrc.1
    have := hsrc.2
    by_cases none : nsrc = 0
    · omega
    · omega

theorem checksyncargs_some {L K : Stack} {idx k : ℕ} {endpoint : Endpoint}
    (checked : checksyncargs L idx = some (some endpoint, K)) (low : k < idx) :
    K.length = L.length ∧ K.take k = L.take k := by
  obtain ⟨name, -, result⟩ := Option.map_eq_some_iff.mp checked
  have kept (v : Value) : (L.set (idx - 1) v).length = L.length ∧
      (L.set (idx - 1) v).take k = L.take k :=
    ⟨List.length_set .., List.take_set_of_le (by omega)⟩
  simp only at result
  split at result
  · simp at result
  · split at result
    · obtain ⟨-, rfl⟩ := Prod.mk.inj result
      split_ifs
      · exact ⟨rfl, rfl⟩
      · exact kept _
    · simp at result

/-- The message is on top of what was there. -/
theorem checksyncargs_none {L K : Stack} {idx k : ℕ}
    (checked : checksyncargs L idx = some (none, K)) (low : k < idx) (fits : k ≤ L.length) :
    K.length = L.length + 1 ∧ K.take k = L.take k := by
  obtain ⟨name, -, result⟩ := Option.map_eq_some_iff.mp checked
  have kept (test : Bool) (v w : Value) :
      ((if test then L else L.set (idx - 1) v) ++ [w]).length = L.length + 1 ∧
        ((if test then L else L.set (idx - 1) v) ++ [w]).take k = L.take k := by
    cases test with
    | true => simp [List.take_append_of_le_length fits]
    | false =>
      have same : (L.set (idx - 1) v).length = L.length := List.length_set ..
      simp only [Bool.false_eq_true, if_false, List.length_append, List.length_singleton, same]
      rw [List.take_append_of_le_length (by omega), List.take_set_of_le (by omega)]
      exact ⟨trivial, rfl⟩
  have message := kept (decide (index L idx = .nil))
  simp only [decide_eq_true_eq] at message
  simp only at result
  split at result
  · obtain ⟨-, rfl⟩ := Prod.mk.inj result
    exact message _ _
  · split at result
    · simp at result
    · obtain ⟨-, rfl⟩ := Prod.mk.inj result
      exact message _ _

/-- However an exchange ends, both states are left with what is to be passed to them. -/
theorem ready_swapvalues (faults : Faults) {src dst : Stack} {bsrc nsrc bdst ndst : ℕ}
    (hsrc : Offers src bsrc nsrc) (hdst : Offers dst bdst ndst) :
    Ready (src.take bsrc) (swapvalues faults src bsrc nsrc (offer dst bdst ndst)).1 ∧
      Ready (dst.take bdst) (swapvalues faults src bsrc nsrc (offer dst bdst ndst)).2 := by
  have top : index (offer dst bdst ndst) (offer dst bdst ndst).length = .integer ndst := by
    simp [index, offer]
  have next : index (offer dst bdst ndst) ((offer dst bdst ndst).length - 1) = .integer bdst := by
    simp [index, offer]
  have popped : (offer dst bdst ndst).dropLast.dropLast = dst := by
    simp [offer]
  unfold swapvalues
  simp only [top, next, popped, Value.tointeger, Int.toNat_natCast]
  split_ifs with shorter
  · exact (ready_swaplonger hdst hsrc (by omega)).symm
  · exact ready_swaplonger hsrc hdst (by omega)

end Coutil.Exchange
