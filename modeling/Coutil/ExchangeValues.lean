import Coutil.Exchange

set_option autoImplicit false

/-! What the two sides of an exchange are left with. -/
namespace Coutil.ExchangeValues
open Exchange

/-- What the callers that are matched have on their stacks: a task that yielded the name of a
channel, the state of a channel, and a function called for a channel. The endpoint comes before
the arguments, when there is one. -/
inductive Brings : Stack → ℕ → List Value → Prop
  | task (below : Stack) (name : Value) (yielded : List Value) :
      Brings (below ++ name :: yielded) below.length yielded.tail
  | channel (placeholder : Value) (args : List Value) : Brings (placeholder :: args) 0 args
  | empty : Brings [] 0 []
  | caller (channel : Value) (passed : List Value) : Brings (channel :: passed) 1 passed.tail

/-- One side in the middle of an exchange: the values it got follow the one after its base, and
the arguments it has not given yet are on top. -/
structure Side (base : ℕ) (below : Stack) (L : Stack) (got left : List Value) : Prop where
  kept : L.take base = below
  fits : base ≤ L.length
  copied : (L.drop (base + 1)).take got.length = got
  remains : L.drop (L.length - left.length) = left
  room : got ≠ [] ∨ left ≠ [] → base + 1 + got.length + left.length ≤ L.length

theorem Brings.side {L : Stack} {base : ℕ} {args : List Value} (brings : Brings L base args) :
    Side base (L.take base) L [] args := by
  have top (before : Stack) (args : List Value) :
      (before ++ args).drop ((before ++ args).length - args.length) = args := by
    rw [List.length_append, Nat.add_sub_cancel, List.drop_left]
  cases brings with
  | task below name yielded =>
    cases yielded with
    | nil => exact ⟨rfl, by simp, rfl, by simp, by simp⟩
    | cons endpoint args =>
      refine ⟨rfl, by simp, rfl, ?_, fun _ => ?_⟩
      · have shape : below ++ name :: endpoint :: args = (below ++ [name, endpoint]) ++ args := by
          simp
        rw [shape]
        exact top _ args
      · simp
        omega
  | channel placeholder args =>
    refine ⟨rfl, by simp, rfl, top [placeholder] args, fun _ => ?_⟩
    simp
    omega
  | empty => exact ⟨rfl, by simp, rfl, rfl, by simp⟩
  | caller channel passed =>
    cases passed with
    | nil => exact ⟨rfl, by simp, rfl, by simp, by simp⟩
    | cons endpoint args =>
      refine ⟨rfl, by simp, rfl, top [channel, endpoint] args, fun _ => ?_⟩
      simp
      omega

theorem Side.fits_args {base : ℕ} {below L : Stack} {got left : List Value}
    (side : Side base below L got left) : left.length ≤ L.length := by
  cases left with
  | nil => exact Nat.zero_le L.length
  | cons u left =>
    have room := side.room (Or.inr (by simp))
    omega

theorem replace_append {L : Stack} {v : Value} {idx : ℕ} (low : idx - 1 < L.length) :
    replace (L ++ [v]) idx = L.set (idx - 1) v := by
  have top : index (L ++ [v]) (L ++ [v]).length = v := by simp [index]
  rw [replace, top, List.set_append_left _ _ low, List.dropLast_concat]

theorem take_set_succ {L : Stack} {v : Value} {n : ℕ} (fits : n < L.length) :
    (L.set n v).take (n + 1) = L.take n ++ [v] := by
  rw [List.take_add_one, List.take_set_of_le le_rfl, List.getElem?_set_self fits]
  rfl

section
variable {base : ℕ} {below L : Stack} {got left : List Value} {u : Value}

theorem Side.argument (side : Side base below L got (u :: left)) (v : Value) :
    index (L ++ [v]) (L.length - left.length) = u ∧ index L (L.length - left.length) = u := by
  have room := side.room (Or.inr (by simp))
  rw [List.length_cons] at room
  have here : L[L.length - left.length - 1]? = some u := by
    have top := congrArg (fun l => l[0]?) side.remains
    simpa [List.getElem?_drop, Nat.sub_sub] using top
  have inside : L.length - left.length - 1 < L.length := by omega
  constructor
  · rw [index, List.getD_eq_getElem?_getD, List.getElem?_append_left inside, here]
    rfl
  · rw [index, List.getD_eq_getElem?_getD, here]
    rfl

theorem Side.turn (side : Side base below L got (u :: left)) (v : Value) :
    Side base below (replace (L ++ [v]) (base + got.length + 2)) (got ++ [v]) left := by
  have room := side.room (Or.inr (by simp))
  rw [List.length_cons] at room
  rw [replace_append (by omega), show base + got.length + 2 - 1 = base + 1 + got.length by omega]
  refine ⟨?_, by simpa using side.fits, ?_, ?_, fun _ => ?_⟩
  · rw [List.take_set_of_le (by omega), side.kept]
  · rw [List.drop_set, if_neg (by omega), Nat.add_sub_cancel_left, List.length_append,
      List.length_singleton, take_set_succ (by simp; omega), side.copied]
  · rw [List.length_set, List.drop_set_of_lt (by omega)]
    have rest := congrArg List.tail side.remains
    rw [List.tail_drop, List.length_cons, List.tail_cons] at rest
    rw [show L.length - left.length = L.length - (left.length + 1) + 1 by omega]
    exact rest
  · rw [List.length_set, List.length_append, List.length_singleton]
    omega

end

/-- What `pusherrfrom` pushes for the side that did not fail: a copy of what is on top of the
failed one, the number of its values, unless the copying fails. -/
def told (faults : Faults) : Value :=
  match faults.error with
  | some (.memory text) => .string text
  | _ => .integer 2

theorem replace_top {L : Stack} {b : ℕ} (more : b < L.length) :
    settop (replace L (b + 1)) (b + 1) = L.take b ++
      [if b + 1 = L.length then .nil else index L L.length] := by
  have kept : (replace L (b + 1)).take b = L.take b := take_replace (by omega) more
  have length := length_replace L (b + 1)
  split_ifs with last
  · have all : (replace L (b + 1)).take b = replace L (b + 1) := List.take_of_length_le (by omega)
    rw [settop, List.take_of_length_le (by omega), length, show b + 1 - (L.length - 1) = 1 by omega,
      ← all, kept]
    rfl
  · rw [settop_eq_take (by omega), List.take_add_one, kept, replace, Nat.add_sub_cancel]
    congr 1
    rw [List.getElem?_dropLast, if_pos (by simp; omega), List.getElem?_set_self more]
    rfl

/-- Both sides are told that the exchange failed. The message is what the failed side has on
top, which is lost when that is the value in its place. -/
theorem pusherrfrom_eq (faults : Faults) {L failed : Stack} {base bfailed : ℕ}
    (fits : base ≤ L.length) (more : bfailed < failed.length) :
    pusherrfrom faults L base failed bfailed =
      (L.take base ++ [.boolean false, told faults, .integer 2],
        failed.take bfailed ++ [.boolean false,
          if bfailed + 1 = failed.length then .nil else index failed failed.length,
          .integer 2]) := by
  have inserted (v : Value) : Exchange.insert (failed.take bfailed ++ [v] ++ [.boolean false])
      (bfailed + 1) = failed.take bfailed ++ [.boolean false, v] := by
    have length : (failed.take bfailed).length = bfailed := by
      rw [List.length_take, min_eq_left (by omega)]
    simp only [Exchange.insert]
    rw [Nat.add_sub_cancel, List.append_assoc, List.take_left' length,
      List.drop_left' length]
    simp [index]
  have cut : settop L base = L.take base := settop_eq_take fits
  unfold pusherrfrom
  simp only [replace_top more, inserted, cut]
  have top (v : Value) : index (failed.take bfailed ++ [.boolean false, v] ++ [.integer 2])
      (List.length (failed.take bfailed ++ [Value.boolean false, v] ++ [Value.integer 2])) = .integer 2 := by
    simp [index]
  rw [top]
  cases error : faults.error with
  | none => simp [pushfrom, told, error, Value.movable]
  | some lack =>
    cases lack with
    | space => exact absurd error faults.room
    | memory text => simp [pushfrom, told, error]

/-- What the first transfer that fails pushes, when the lists are copied from position `i` on. -/
def failing (faults : Faults) (tsrc tdst : ℕ) : ℕ → List Value → List Value → Option Stack
  | i, u :: us, v :: vs =>
    match pushfrom (faults.copy (2 * i)) v (tdst + i) "argument" with
    | .error pushed => some pushed
    | .ok _ =>
      match pushfrom (faults.copy (2 * i + 1)) u (tsrc + i) "argument" with
      | .error pushed => some pushed
      | .ok _ => failing faults tsrc tdst (i + 1) us vs
  | _, _, _ => none

/-- Both sides are told of a failure, the one that failed with the message if there is one. -/
def Told (faults : Faults) (below below' pushed : Stack) (both : Stack × Stack) : Prop :=
  ∃ m, (∀ text, pushed = [.string text] → m = .string text) ∧
    (both = (below ++ [.boolean false, m, .integer 2],
        below' ++ [.boolean false, told faults, .integer 2]) ∨
      both = (below ++ [.boolean false, told faults, .integer 2],
        below' ++ [.boolean false, m, .integer 2]))

theorem Told.swap {faults : Faults} {below below' pushed : Stack} {both : Stack × Stack}
    (told : Told faults below below' pushed both) : Told faults below' below pushed both.swap := by
  obtain ⟨m, message, rfl | rfl⟩ := told
  · exact ⟨m, message, Or.inr rfl⟩
  · exact ⟨m, message, Or.inl rfl⟩

theorem told_pusherrfrom (faults : Faults) (L failed pushed : Stack) {base bfailed : ℕ}
    (fits : base ≤ L.length) (more : bfailed < failed.length) :
    Told faults (L.take base) (failed.take bfailed) pushed
      (pusherrfrom faults L base (failed ++ pushed) bfailed) := by
  rw [pusherrfrom_eq faults fits (by simp; omega), List.take_append_of_le_length (by omega)]
  refine ⟨_, ?_, Or.inr rfl⟩
  rintro text rfl
  rw [if_neg (by simp; omega)]
  simp [index]

theorem pushfrom_ok {fault : Option Lack} {v w : Value} {idx : ℤ} {msg : String}
    (pushed : pushfrom fault v idx msg = .ok w) : w = v := by
  cases fault with
  | none =>
    simp only [pushfrom] at pushed
    split at pushed
    · cases pushed
      rfl
    · cases pushed
  | some lack => cases lack <;> cases pushed

/-- The turns of the loop exchange the arguments up to the end of the shorter list, or to the
first one that is not transferred. -/
theorem swaploop_result (faults : Faults) (tsrc tdst i : ℕ) {bsrc bdst : ℕ}
    {below below' src dst : Stack} {gots gotd us vs : List Value} (hsrc : Side bsrc below src gots us)
    (hdst : Side bdst below' dst gotd vs) (turns : i = gots.length + 1)
    (same : gotd.length = gots.length) (longer : vs.length ≤ us.length)
    (first : tsrc + gots.length = src.length - us.length)
    (first' : tdst + gots.length = dst.length - vs.length) :
    match failing faults tsrc tdst i us vs with
    | some pushed => ∃ both, swaploop faults bsrc tsrc bdst tdst vs.length i src dst = .error both ∧
        Told faults below below' pushed both
    | none => ∃ src' dst', swaploop faults bsrc tsrc bdst tdst vs.length i src dst =
        .ok (src', dst') ∧ src'.length = src.length ∧
        Side bsrc below src' (gots ++ vs) (us.drop vs.length) ∧
        Side bdst below' dst' (gotd ++ us.take vs.length) [] := by
  induction vs generalizing us gots gotd src dst i with
  | nil =>
    have done : failing faults tsrc tdst i us [] = none := by cases us <;> rfl
    simp only [done]
    refine ⟨src, dst, rfl, rfl, by simpa using hsrc, by simpa using hdst⟩
  | cons v vs ih =>
    cases us with
    | nil => simp at longer
    | cons u us =>
      have room := hsrc.room (Or.inr (by simp))
      have room' := hdst.room (Or.inr (by simp))
      simp only [List.length_cons] at longer first first' room room'
      have at_u : tsrc + i = src.length - us.length := by omega
      have at_v : tdst + i = dst.length - vs.length := by omega
      simp only [failing, List.length_cons, swaploop]
      rw [at_v, (hdst.argument v).2]
      cases copy : pushfrom (faults.copy (2 * i)) v (tdst + i) "argument" with
      | error pushed =>
        have failed := told_pusherrfrom faults dst src pushed hdst.fits (show bsrc < src.length by omega)
        rw [hdst.kept, hsrc.kept] at failed
        exact ⟨_, rfl, failed.swap⟩
      | ok w =>
        obtain rfl := pushfrom_ok copy
        simp only
        rw [at_u, (hsrc.argument w).1]
        cases copy' : pushfrom (faults.copy (2 * i + 1)) u (tsrc + i) "argument" with
        | error pushed =>
          have failed := told_pusherrfrom faults (src ++ [w]) dst pushed
            (show bsrc ≤ (src ++ [w]).length by simp; omega) (show bdst < dst.length by omega)
          rw [hdst.kept, List.take_append_of_le_length (by omega), hsrc.kept] at failed
          exact ⟨_, rfl, failed⟩
        | ok x =>
          obtain rfl := pushfrom_ok copy'
          have hsrc' := hsrc.turn w
          have hdst' := hdst.turn x
          have rest := ih (i + 1) hsrc' hdst' (by simp; omega) (by simp; omega) (by omega)
            (by simp [length_replace]; omega) (by simp [length_replace]; omega)
          rw [show bsrc + i + 1 = bsrc + gots.length + 2 by omega,
            show bdst + i + 1 = bdst + gotd.length + 2 by omega]
          cases later : failing faults tsrc tdst (i + 1) us vs with
          | some pushed =>
            rw [later] at rest
            exact rest
          | none =>
            have length : (replace (src ++ [w]) (bsrc + gots.length + 2)).length = src.length := by
              simp [length_replace]
            simp only [later, List.append_assoc, List.singleton_append, length] at rest
            exact rest

/-- What the transfer of the rest of the longer list pushes if it fails. -/
def moving (fault : Option Lack) (kept : ℕ) (rest : List Value) : Option Stack :=
  match fault, rest.findIdx? (fun v => !v.movable) with
  | some .space, _ => some []
  | some (.memory text), _ => some [.string text]
  | none, some i =>
    some [.string (errmsg (kept + i + 1) "argument" (index rest (i + 1)).typename)]
  | none, none => none

/-- What the first transfer of an exchange that fails pushes. The first list is the longer one,
and the other arguments are how many values each side has below its list. -/
def failure (faults : Faults) (tsrc tdst : ℕ) (us vs : List Value) : Option Stack :=
  match failing faults tsrc tdst 1 us vs with
  | some pushed => some pushed
  | none => moving faults.move (tsrc + vs.length) (us.drop vs.length)

theorem movefrom_result (fault : Option Lack) (dst : Stack) {src rest : Stack} {n : ℕ}
    (top : src.drop (src.length - n) = rest) :
    movefrom fault dst src n "argument" =
      match moving fault (src.length - n) rest with
      | some pushed => .error (dst ++ pushed)
      | none => .ok (dst ++ rest, src.take (src.length - n)) := by
  subst top
  have at_i (i : ℕ) : index src (src.length - n + i + 1) =
      index (src.drop (src.length - n)) (i + 1) := by
    simp [index, List.getD_eq_getElem?_getD]
  cases fault with
  | none =>
    simp only [movefrom, moving, at_i]
    cases (src.drop (src.length - n)).findIdx? (fun v => !v.movable) with
    | none => rfl
    | some i => rfl
  | some lack =>
    cases lack with
    | space => simp [movefrom, moving]
    | memory text => simp [movefrom, moving]

section
variable {base : ℕ} {below L : Stack} {got left : List Value}

theorem Side.length_below (side : Side base below L got left) : below.length = base := by
  rw [← side.kept, List.length_take, min_eq_left side.fits]

theorem Side.cut (side : Side base below L got left) :
    ∃ v, settop L (base + got.length + 1) = below ++ v :: got := by
  by_cases long : base + got.length + 1 ≤ L.length
  · refine ⟨L[base], ?_⟩
    rw [settop_eq_take long, ← List.take_append_drop base (L.take (base + got.length + 1)),
      List.take_take, min_eq_left (by omega), side.kept, List.drop_take,
      show base + got.length + 1 - base = got.length + 1 by omega, List.drop_eq_getElem_cons (by omega),
      List.take_succ_cons, side.copied]
  · have none : got = [] := by
      by_contra some
      have room := side.room (Or.inl some)
      omega
    subst none
    refine ⟨.nil, ?_⟩
    have all : L.take base = L := List.take_of_length_le (by simpa using long)
    have length : L.length = base := by
      have fits := side.fits
      simp at long
      omega
    rw [settop, List.take_of_length_le (by simp; omega), ← side.kept, all, length]
    simp

theorem Side.given (side : Side base below L got left) :
    Side base below (L.take (L.length - left.length)) got [] := by
  by_cases some : got ≠ [] ∨ left ≠ []
  · have room := side.room some
    have length : (L.take (L.length - left.length)).length = L.length - left.length := by
      rw [List.length_take, min_eq_left (by omega)]
    refine ⟨?_, by omega, ?_, by simp, fun _ => by simp; omega⟩
    · rw [List.take_take, min_eq_left (by omega), side.kept]
    · rw [List.drop_take, List.take_take, min_eq_left (by omega), side.copied]
  · obtain ⟨got_nil, left_nil⟩ := not_or.mp some
    rw [not_not] at got_nil left_nil
    subst got_nil left_nil
    rw [List.length_nil, Nat.sub_zero, List.take_length]
    exact side

end

theorem replace_first {below args : Stack} {v w : Value} :
    replace (below ++ v :: args ++ [w]) (below.length + 1) = below ++ w :: args := by
  rw [replace_append (by simp), Nat.add_sub_cancel, List.set_append_right _ _ le_rfl, Nat.sub_self]
  rfl

theorem swaprest_result (faults : Faults) {bsrc bdst nsrc ndst : ℕ} {below below' src dst : Stack}
    {gots gotd left : List Value} (hsrc : Side bsrc below src gots left)
    (hdst : Side bdst below' dst gotd []) (same : gots.length = ndst)
    (same' : gotd.length = ndst) (rest : nsrc - ndst = left.length) :
    match moving faults.move (src.length - left.length) left with
    | some pushed =>
      Told faults below below' pushed (swaprest faults src bsrc nsrc dst bdst ndst)
    | none => swaprest faults src bsrc nsrc dst bdst ndst =
        (below ++ .boolean true :: gots ++ [.integer (ndst + 1)],
          below' ++ .boolean true :: (gotd ++ left) ++ [.integer (nsrc + 1)]) := by
  obtain ⟨w, cut⟩ := hdst.cut
  rw [same'] at cut
  have moved := movefrom_result faults.move (below' ++ w :: gotd) hsrc.remains
  unfold swaprest
  simp only [cut, rest, moved]
  cases moving faults.move (src.length - left.length) left with
  | some pushed =>
    have failed := told_pusherrfrom faults src (below' ++ w :: gotd) pushed hsrc.fits
      (show bdst < (below' ++ w :: gotd).length by simp [hdst.length_below])
    rw [hsrc.kept, List.take_left' hdst.length_below] at failed
    exact failed
  | none =>
    obtain ⟨v, cut'⟩ := hsrc.given.cut
    rw [same] at cut'
    have shape : below' ++ w :: gotd ++ left = below' ++ w :: (gotd ++ left) := by simp
    simp only [cut', shape]
    rw [← hsrc.length_below, ← hdst.length_below, replace_first, replace_first]

/-- How an exchange ends for both sides. -/
def Ended (faults : Faults) (src : Stack) (bsrc : ℕ) (us : List Value) (dst : Stack) (bdst : ℕ)
    (vs : List Value) (failed : Option Stack) (both : Stack × Stack) : Prop :=
  match failed with
  | some pushed => Told faults (src.take bsrc) (dst.take bdst) pushed both
  | none => both = (src.take bsrc ++ .boolean true :: vs ++ [.integer (vs.length + 1)],
      dst.take bdst ++ .boolean true :: us ++ [.integer (us.length + 1)])

theorem Ended.swap {faults : Faults} {src dst : Stack} {bsrc bdst : ℕ} {us vs : List Value}
    {failed : Option Stack} {both : Stack × Stack}
    (ended : Ended faults src bsrc us dst bdst vs failed both) :
    Ended faults dst bdst vs src bsrc us failed both.swap := by
  cases failed with
  | some pushed => exact Told.swap ended
  | none =>
    have ended : both = _ := ended
    rw [ended]
    exact rfl

theorem swaplonger_result (faults : Faults) {bsrc bdst : ℕ} {src dst : Stack}
    {us vs : List Value} (hsrc : Brings src bsrc us) (hdst : Brings dst bdst vs)
    (longer : vs.length ≤ us.length) :
    Ended faults src bsrc us dst bdst vs
      (failure faults (src.length - us.length) (dst.length - vs.length) us vs)
      (swaplonger faults src bsrc us.length dst bdst vs.length) := by
  have looped := swaploop_result faults (src.length - us.length) (dst.length - vs.length) 1
    hsrc.side hdst.side rfl rfl longer rfl rfl
  unfold failure swaplonger
  cases failed : failing faults (src.length - us.length) (dst.length - vs.length) 1 us vs with
  | some pushed =>
    rw [failed] at looped
    obtain ⟨both, looped, told⟩ := looped
    rw [looped]
    exact told
  | none =>
    rw [failed] at looped
    obtain ⟨src', dst', looped, length, hsrc', hdst'⟩ := looped
    have rest := swaprest_result faults hsrc' hdst' (by simp) (by simpa using longer)
      (show us.length - vs.length = (us.drop vs.length).length by simp)
    have kept : src.length - us.length + vs.length =
        src'.length - (us.drop vs.length).length := by
      have fits := hsrc.side.fits_args
      rw [length, List.length_drop]
      omega
    rw [looped, kept]
    simp only [List.nil_append, List.take_append_drop] at rest
    exact rest

/-- What the first failing transfer of an exchange pushes. The longer list comes first. -/
def exchangefailure (faults : Faults) (src : Stack) (us : List Value) (dst : Stack)
    (vs : List Value) : Option Stack :=
  if us.length < vs.length then
    failure faults (dst.length - vs.length) (src.length - us.length) vs us
  else failure faults (src.length - us.length) (dst.length - vs.length) us vs

theorem swapvalues_offer (faults : Faults) (src dst : Stack) (bsrc nsrc bdst ndst : ℕ) :
    swapvalues faults src bsrc nsrc (offer dst bdst ndst) =
      if nsrc < ndst then (swaplonger faults dst bdst ndst src bsrc nsrc).swap
      else swaplonger faults src bsrc nsrc dst bdst ndst := by
  have top : index (offer dst bdst ndst) (offer dst bdst ndst).length = .integer ndst := by
    simp [index, offer]
  have next : index (offer dst bdst ndst) ((offer dst bdst ndst).length - 1) = .integer bdst := by
    simp [index, offer]
  have popped : (offer dst bdst ndst).dropLast.dropLast = dst := by
    simp [offer]
  unfold swapvalues
  simp only [top, next, popped, Value.tointeger, Int.toNat_natCast]

theorem swapvalues_result (faults : Faults) {bsrc bdst : ℕ} {src dst : Stack} {us vs : List Value}
    (hsrc : Brings src bsrc us) (hdst : Brings dst bdst vs) :
    Ended faults src bsrc us dst bdst vs (exchangefailure faults src us dst vs)
      (swapvalues faults src bsrc us.length (offer dst bdst vs.length)) := by
  rw [swapvalues_offer, exchangefailure]
  split_ifs with shorter
  · exact (swaplonger_result faults hdst hsrc (by omega)).swap
  · exact swaplonger_result faults hsrc hdst (by omega)

/-- What `swapvalues` and `lcuL_movefrom` assert, once it is settled which list is longer. -/
def LongerAsserts (faults : Faults) (src : Stack) (bsrc nsrc : ℕ) (dst : Stack)
    (bdst ndst : ℕ) : Prop :=
  (ndst ≠ 0 → bsrc < src.length - nsrc ∧ bdst < dst.length - ndst) ∧
    ∀ src' dst', swaploop faults bsrc (src.length - nsrc) bdst (dst.length - ndst) ndst 1 src dst =
      .ok (src', dst') → nsrc - ndst ≤ src'.length ∧
      ∀ src'' dst'', movefrom faults.move (settop dst' (bdst + ndst + 1)) src' (nsrc - ndst)
        "argument" = .ok (dst'', src'') →
        (replace (settop src'' (bsrc + ndst + 1) ++ [.boolean true]) (bsrc + 1)).length =
          bsrc + ndst + 1 ∧
        (replace (dst'' ++ [.boolean true]) (bdst + 1)).length = bdst + nsrc + 1

def Asserts (faults : Faults) (src : Stack) (bsrc nsrc : ℕ) (dst : Stack) (bdst ndst : ℕ) : Prop :=
  if nsrc < ndst then LongerAsserts faults dst bdst ndst src bsrc nsrc
  else LongerAsserts faults src bsrc nsrc dst bdst ndst

theorem longerAsserts (faults : Faults) {bsrc bdst : ℕ} {src dst : Stack} {us vs : List Value}
    (hsrc : Brings src bsrc us) (hdst : Brings dst bdst vs) (longer : vs.length ≤ us.length) :
    LongerAsserts faults src bsrc us.length dst bdst vs.length := by
  have above {L : Stack} {b : ℕ} {args : List Value} (brings : Brings L b args)
      (some : args.length ≠ 0) : b < L.length - args.length := by
    have room := brings.side.room (Or.inr (List.length_pos_iff.mp (Nat.pos_of_ne_zero some)))
    rw [List.length_nil] at room
    omega
  constructor
  · intro some
    exact ⟨above hsrc (by omega), above hdst some⟩
  · intro src' dst' looped
    have result := swaploop_result faults (src.length - us.length) (dst.length - vs.length) 1
      hsrc.side hdst.side rfl rfl longer rfl rfl
    cases failed : failing faults (src.length - us.length) (dst.length - vs.length) 1 us vs with
    | some pushed =>
      rw [failed] at result
      obtain ⟨both, failed, -⟩ := result
      rw [looped] at failed
      cases failed
    | none =>
      rw [failed] at result
      obtain ⟨src₁, dst₁, looped', -, hsrc', hdst'⟩ := result
      rw [looped] at looped'
      cases looped'
      have left : (us.drop vs.length).length = us.length - vs.length := List.length_drop ..
      have fits := hsrc'.fits_args
      refine ⟨left ▸ fits, fun src'' dst'' moved => ?_⟩
      have spec := movefrom_spec faults.move (settop dst' (bdst + vs.length + 1)) src'
        (us.length - vs.length) "argument"
      rw [moved] at spec
      obtain ⟨rfl, rfl⟩ := spec
      constructor
      · simp [length_replace, length_settop]
      · simp [length_replace, length_settop]
        omega

theorem failing_none {faults : Faults} (copies : ∀ i, faults.copy i = none) (tsrc tdst i : ℕ)
    {us vs : List Value} (sources : ∀ u ∈ us, u.movable = true)
    (others : ∀ v ∈ vs, v.movable = true) : failing faults tsrc tdst i us vs = none := by
  induction us generalizing i vs with
  | nil => rfl
  | cons u us ih =>
    cases vs with
    | nil => rfl
    | cons v vs =>
      obtain ⟨movable, sources⟩ := List.forall_mem_cons.mp sources
      obtain ⟨movable', others⟩ := List.forall_mem_cons.mp others
      simp only [failing, copies, pushfrom, movable, movable', if_true]
      exact ih (i + 1) sources others

theorem failure_none {faults : Faults} (copies : ∀ i, faults.copy i = none)
    (moves : faults.move = none) (tsrc tdst : ℕ) {us vs : List Value}
    (sources : ∀ u ∈ us, u.movable = true) (others : ∀ v ∈ vs, v.movable = true) :
    failure faults tsrc tdst us vs = none := by
  have rest : (us.drop vs.length).findIdx? (fun v => !v.movable) = none := by
    rw [List.findIdx?_eq_none_iff]
    intro u member
    rw [sources u (List.mem_of_mem_drop member)]
    rfl
  rw [failure, failing_none copies tsrc tdst 1 sources others, moves]
  simp only [moving, rest]

/-- When every value is one that can be transferred and no transfer runs out of memory, each
side is left with what it had up to its base, true, the arguments of the other side and how
many values these are, and no assertion fails. -/
theorem exchange_delivers (faults : Faults) (src dst : Stack) (bsrc bdst : ℕ) (us vs : List Value)
    (hsrc : Brings src bsrc us) (hdst : Brings dst bdst vs)
    (sources : ∀ u ∈ us, u.movable = true) (others : ∀ v ∈ vs, v.movable = true)
    (copies : ∀ i, faults.copy i = none) (moves : faults.move = none) :
    swapvalues faults src bsrc us.length (offer dst bdst vs.length) =
      (src.take bsrc ++ .boolean true :: vs ++ [.integer (vs.length + 1)],
        dst.take bdst ++ .boolean true :: us ++ [.integer (us.length + 1)]) ∧
    Asserts faults src bsrc us.length dst bdst vs.length := by
  constructor
  · have ended := swapvalues_result faults hsrc hdst
    have failed : exchangefailure faults src us dst vs = none := by
      unfold exchangefailure
      split
      · exact failure_none copies moves _ _ others sources
      · exact failure_none copies moves _ _ sources others
    rw [failed] at ended
    exact ended
  · unfold Asserts
    split_ifs with shorter
    · exact longerAsserts faults hdst hsrc (by omega)
    · exact longerAsserts faults hsrc hdst (by omega)

theorem exchange_delivers_surplus :
    swapvalues Faults.none [.channeltask, .integer 5, .string "in", .nil, .string "x"] 1 2
        (offer [.object "channel" 0, .string "out", .boolean false] 1 1) =
      ([.channeltask, .boolean true, .boolean false, .integer 2],
        [.object "channel" 0, .boolean true, .nil, .string "x", .integer 3]) := by
  exact (exchange_delivers Faults.none
    [.channeltask, .integer 5, .string "in", .nil, .string "x"]
    [.object "channel" 0, .string "out", .boolean false] 1 1 [.nil, .string "x"] [.boolean false]
    (.task [.channeltask] (.integer 5) [.string "in", .nil, .string "x"])
    (.caller (.object "channel" 0) [.string "out", .boolean false]) (by decide) (by decide)
    (fun _ => rfl) rfl).1

/-- Both sides have the message of the failing transfer as the error of the exchange. -/
def Reported (pushed below below' : Stack) (both : Stack × Stack) : Prop :=
  ∃ text, pushed = [.string text] ∧
    both = (below ++ [.boolean false, .string text, .integer 2],
      below' ++ [.boolean false, .string text, .integer 2])

/-- When a transfer fails, both sides get its message exactly if the copying of the message
fails too, for lack of memory and with the same message. -/
theorem failure_reported (faults : Faults) (src dst : Stack) (bsrc bdst : ℕ) (us vs : List Value)
    (hsrc : Brings src bsrc us) (hdst : Brings dst bdst vs) (pushed : Stack)
    (failed : exchangefailure faults src us dst vs = some pushed) :
    Reported pushed (src.take bsrc) (dst.take bdst)
        (swapvalues faults src bsrc us.length (offer dst bdst vs.length)) ↔
      ∃ text, pushed = [.string text] ∧ faults.error = some (.memory text) := by
  have ended := swapvalues_result faults hsrc hdst
  rw [failed] at ended
  obtain ⟨m, message, both⟩ := ended
  constructor
  · rintro ⟨text, rfl, same⟩
    refine ⟨text, rfl, ?_⟩
    have told_text : told faults = .string text := by
      rcases both with both | both
      · rw [same] at both
        have second := (Prod.mk.inj both).2
        simpa using (List.append_cancel_left second).symm
      · rw [same] at both
        have first := (Prod.mk.inj both).1
        simpa using (List.append_cancel_left first).symm
    unfold told at told_text
    split at told_text
    · rename_i text' error
      rw [error]
      cases told_text
      rfl
    · cases told_text
  · rintro ⟨text, rfl, error⟩
    refine ⟨text, rfl, ?_⟩
    have told_text : told faults = .string text := by simp [told, error]
    rw [message text rfl, told_text] at both
    rcases both with both | both
    · exact both
    · exact both

/-- There is no memory for the first value, and none for the message either. -/
theorem failure_reported_memory :
    swapvalues ⟨fun _ => some (.memory "not enough memory"), none,
        some (.memory "not enough memory"), nofun⟩
        [.integer 5, .string "in", .string "x"] 0 1
        (offer [.object "channel" 0, .string "out", .string "y"] 1 1) =
      ([.boolean false, .string "not enough memory", .integer 2],
        [.object "channel" 0, .boolean false, .string "not enough memory", .integer 2]) := by
  obtain ⟨text, same, both⟩ := (failure_reported
    ⟨fun _ => some (.memory "not enough memory"), none, some (.memory "not enough memory"), nofun⟩
    [.integer 5, .string "in", .string "x"] [.object "channel" 0, .string "out", .string "y"] 0 1
    [.string "x"] [.string "y"] (.task [] (.integer 5) [.string "in", .string "x"])
    (.caller (.object "channel" 0) [.string "out", .string "y"]) [.string "not enough memory"]
    rfl).mpr ⟨"not enough memory", rfl, rfl⟩
  cases same
  exact both

/-- There is no memory for the first value: the other side is given the number 2. -/
theorem failure_unreported :
    exchangefailure ⟨fun _ => some (.memory "not enough memory"), none, none, nofun⟩
        [.integer 5, .string "in", .string "x"] [.string "x"]
        [.object "channel" 0, .string "out", .string "y"] [.string "y"] =
      some [.string "not enough memory"] ∧
    swapvalues ⟨fun _ => some (.memory "not enough memory"), none, none, nofun⟩
        [.integer 5, .string "in", .string "x"] 0 1
        (offer [.object "channel" 0, .string "out", .string "y"] 1 1) =
      ([.boolean false, .string "not enough memory", .integer 2],
        [.object "channel" 0, .boolean false, .integer 2, .integer 2]) ∧
    ¬ Reported [.string "not enough memory"] [] [.object "channel" 0]
      ([.boolean false, .string "not enough memory", .integer 2],
        [.object "channel" 0, .boolean false, .integer 2, .integer 2]) := by
  refine ⟨rfl, rfl, ?_⟩
  rintro ⟨text, -, both⟩
  simp at both

end Coutil.ExchangeValues
