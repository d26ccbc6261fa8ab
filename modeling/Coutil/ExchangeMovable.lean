import Coutil.Exchange

set_option autoImplicit false

/-! The values that an exchange leaves in the states of channels: all of them can be moved to the
state of the coroutine that waits. -/
namespace Coutil.ExchangeMovable
open Exchange

/-- Values that can all be moved to another state. -/
def Movable (L : Stack) : Prop := ∀ v ∈ L, v.movable = true

theorem movable_nil : Movable [] := by simp [Movable]

theorem movable_append {L K : Stack} : Movable (L ++ K) ↔ Movable L ∧ Movable K := by
  simp only [Movable, List.forall_mem_append]

theorem movable_cons {v : Value} {L : Stack} :
    Movable (v :: L) ↔ v.movable = true ∧ Movable L := by
  simp only [Movable, List.forall_mem_cons]

theorem movable_sublist {L K : Stack} (sub : K.Sublist L) (movable : Movable L) : Movable K :=
  fun v member => movable v (sub.subset member)

theorem movable_index {L : Stack} (movable : Movable L) (idx : ℕ) :
    (index L idx).movable = true := by
  rw [index, List.getD_eq_getElem?_getD]
  cases found : L[idx - 1]? with
  | none => rfl
  | some v => exact movable v (List.mem_of_getElem? found)

theorem movable_settop {L : Stack} (movable : Movable L) (top : ℕ) : Movable (settop L top) := by
  refine movable_append.mpr ⟨movable_sublist (List.take_sublist top L) movable, ?_⟩
  intro v member
  rw [List.eq_of_mem_replicate member]
  rfl

theorem movable_set {L : Stack} {v : Value} (movable : Movable L) (mine : v.movable = true) (i : ℕ) :
    Movable (L.set i v) := by
  intro u member
  obtain old | rfl := List.mem_or_eq_of_mem_set member
  · exact movable u old
  · exact mine

theorem movable_replace {L : Stack} (movable : Movable L) (idx : ℕ) : Movable (replace L idx) :=
  movable_sublist (List.dropLast_sublist _) (movable_set movable (movable_index movable _) _)

theorem movable_insert {L : Stack} (movable : Movable L) (idx : ℕ) :
    Movable (Exchange.insert L idx) := by
  rw [Exchange.insert, movable_append, movable_cons]
  exact ⟨movable_sublist (List.take_sublist _ _) movable, movable_index movable _,
    movable_sublist ((List.dropLast_sublist _).trans (List.drop_sublist _ _)) movable⟩

theorem movable_pushed {fault : Option Lack} {v u : Value} {idx : ℤ} {msg : String}
    (pushed : pushfrom fault v idx msg = .ok u) : u.movable = true := by
  cases fault with
  | some lack => cases lack <;> cases pushed
  | none =>
    simp only [pushfrom] at pushed
    split at pushed
    · rename_i movable
      cases pushed
      exact movable
    · cases pushed

/-- What is pushed instead of a value is the message. -/
theorem movable_message {fault : Option Lack} {v : Value} {idx : ℤ} {msg : String} {L : Stack}
    (failed : pushfrom fault v idx msg = .error L) : Movable L := by
  cases fault with
  | some lack =>
    cases lack with
    | space =>
      cases failed
      exact movable_nil
    | memory text =>
      cases failed
      simp [Movable, Value.movable]
  | none =>
    simp only [pushfrom] at failed
    split at failed
    · cases failed
    · cases failed
      simp [Movable, Value.movable]

theorem movable_pusherrfrom (faults : Faults) (L failed : Stack) (base bfailed : ℕ) :
    (Movable L → Movable (pusherrfrom faults L base failed bfailed).1) ∧
      (Movable failed → Movable (pusherrfrom faults L base failed bfailed).2) := by
  have constants : Movable [.boolean false] ∧ Movable [.integer 2] := by
    simp [Movable, Value.movable]
  have other : Movable failed →
      Movable (Exchange.insert (settop (replace failed (bfailed + 1)) (bfailed + 1) ++
        [.boolean false]) (bfailed + 1) ++ [.integer 2]) := by
    intro movable
    have cut := movable_settop (movable_replace movable (bfailed + 1)) (bfailed + 1)
    have inserted := movable_insert (movable_append.mpr ⟨cut, constants.1⟩) (bfailed + 1)
    exact movable_append.mpr ⟨inserted, constants.2⟩
  unfold pusherrfrom
  simp only
  split
  · rename_i pushed failing
    refine ⟨fun movable => ?_, other⟩
    have kept := movable_append.mpr ⟨movable_settop movable base, constants.1⟩
    exact movable_append.mpr
      ⟨movable_append.mpr ⟨kept, movable_message failing⟩, constants.2⟩
  · rename_i v copied
    refine ⟨fun movable => ?_, other⟩
    have kept := movable_append.mpr ⟨movable_settop movable base, constants.1⟩
    have told : Movable [v] := movable_cons.mpr ⟨movable_pushed copied, movable_nil⟩
    exact movable_append.mpr ⟨movable_append.mpr ⟨kept, told⟩, constants.2⟩

/-- Both stacks, whether a turn of the loop failed or not. -/
def sides (result : Except (Stack × Stack) (Stack × Stack)) : Stack × Stack :=
  match result with
  | .ok both => both
  | .error both => both

theorem movable_swaploop (faults : Faults) (bsrc tsrc bdst tdst n i : ℕ) (src dst : Stack) :
    (Movable src → Movable (sides (swaploop faults bsrc tsrc bdst tdst n i src dst)).1) ∧
      (Movable dst → Movable (sides (swaploop faults bsrc tsrc bdst tdst n i src dst)).2) := by
  induction n generalizing i src dst with
  | zero => exact ⟨id, id⟩
  | succ n ih =>
    rw [swaploop]
    cases first : pushfrom (faults.copy (2 * i)) (index dst (tdst + i)) (tdst + i) "argument" with
    | error pushed =>
      obtain ⟨left, right⟩ := movable_pusherrfrom faults dst (src ++ pushed) bdst bsrc
      refine ⟨fun movable => right (movable_append.mpr ⟨movable, movable_message first⟩), left⟩
    | ok v =>
      simp only
      have given : Movable [v] := movable_cons.mpr ⟨movable_pushed first, movable_nil⟩
      cases second : pushfrom (faults.copy (2 * i + 1)) (index (src ++ [v]) (tsrc + i)) (tsrc + i)
        "argument" with
      | error pushed =>
        obtain ⟨left, right⟩ := movable_pusherrfrom faults (src ++ [v]) (dst ++ pushed) bsrc bdst
        exact ⟨fun movable => left (movable_append.mpr ⟨movable, given⟩),
          fun movable => right (movable_append.mpr ⟨movable, movable_message second⟩)⟩
      | ok u =>
        have taken : Movable [u] := movable_cons.mpr ⟨movable_pushed second, movable_nil⟩
        obtain ⟨left, right⟩ := ih (i + 1) (replace (src ++ [v]) (bsrc + i + 1))
          (replace (dst ++ [u]) (bdst + i + 1))
        exact ⟨fun movable => left (movable_replace (movable_append.mpr ⟨movable, given⟩) _),
          fun movable => right (movable_replace (movable_append.mpr ⟨movable, taken⟩) _)⟩

theorem movable_movefrom (fault : Option Lack) (dst src : Stack) (n : ℕ) (msg : String) :
    match movefrom fault dst src n msg with
    | .error dst' => Movable dst → Movable dst'
    | .ok (dst', _) => Movable dst → Movable dst' := by
  have message (text : String) : Movable dst → Movable (dst ++ [.string text]) := by
    intro movable
    exact movable_append.mpr ⟨movable, by simp [Movable, Value.movable]⟩
  unfold movefrom
  simp only
  split <;> rename_i result
  · split at result
    · cases result
      exact id
    · cases result
      exact message _
    · cases result
      exact message _
    · cases result
  · split at result
    · cases result
    · cases result
    · cases result
    · rename_i all
      cases result
      intro movable
      refine movable_append.mpr ⟨movable, fun v member => ?_⟩
      simpa using List.findIdx?_eq_none_iff.mp all v member

theorem movable_swaprest (faults : Faults) (src : Stack) (bsrc nsrc : ℕ) (dst : Stack)
    (bdst ndst : ℕ) :
    (Movable src → Movable (swaprest faults src bsrc nsrc dst bdst ndst).1) ∧
      (Movable dst → Movable (swaprest faults src bsrc nsrc dst bdst ndst).2) := by
  have truth : Movable [.boolean true] := by simp [Movable, Value.movable]
  have number (n : ℤ) : Movable [.integer n] := by simp [Movable, Value.movable]
  have moved := movable_movefrom faults.move (settop dst (bdst + ndst + 1)) src (nsrc - ndst)
    "argument"
  have spec := movefrom_spec faults.move (settop dst (bdst + ndst + 1)) src (nsrc - ndst) "argument"
  unfold swaprest
  simp only
  cases result : movefrom faults.move (settop dst (bdst + ndst + 1)) src (nsrc - ndst)
    "argument" with
  | error dst' =>
    simp only [result] at moved ⊢
    obtain ⟨left, right⟩ := movable_pusherrfrom faults src dst' bsrc bdst
    exact ⟨left, fun movable => right (moved (movable_settop movable _))⟩
  | ok both =>
    obtain ⟨dst', src'⟩ := both
    simp only [result] at moved spec ⊢
    refine ⟨fun movable => ?_, fun movable => ?_⟩
    · have kept : Movable src' := by
        rw [spec.2]
        exact movable_sublist (List.take_sublist _ _) movable
      have cut := movable_settop kept (bsrc + ndst + 1)
      exact movable_append.mpr
        ⟨movable_replace (movable_append.mpr ⟨cut, truth⟩) _, number _⟩
    · have given := moved (movable_settop movable _)
      exact movable_append.mpr
        ⟨movable_replace (movable_append.mpr ⟨given, truth⟩) _, number _⟩

theorem movable_swaplonger (faults : Faults) (src : Stack) (bsrc nsrc : ℕ) (dst : Stack)
    (bdst ndst : ℕ) :
    (Movable src → Movable (swaplonger faults src bsrc nsrc dst bdst ndst).1) ∧
      (Movable dst → Movable (swaplonger faults src bsrc nsrc dst bdst ndst).2) := by
  have looped := movable_swaploop faults bsrc (src.length - nsrc) bdst (dst.length - ndst) ndst 1
    src dst
  unfold swaplonger
  cases result : swaploop faults bsrc (src.length - nsrc) bdst (dst.length - ndst) ndst 1 src
    dst with
  | error both =>
    simp only [result, sides] at looped ⊢
    exact looped
  | ok both =>
    simp only [result, sides] at looped ⊢
    obtain ⟨left, right⟩ := movable_swaprest faults both.1 bsrc nsrc both.2 bdst ndst
    exact ⟨fun movable => left (looped.1 movable), fun movable => right (looped.2 movable)⟩

/-- Whatever the other side brings, only values that can be moved get to the state of a channel. -/
theorem movable_swapvalues (faults : Faults) (src : Stack) (bsrc nsrc : ℕ) {dst : Stack}
    (movable : Movable dst) : Movable (swapvalues faults src bsrc nsrc dst).2 := by
  have popped : Movable dst.dropLast.dropLast :=
    movable_sublist ((List.dropLast_sublist _).trans (List.dropLast_sublist _)) movable
  unfold swapvalues
  simp only
  split
  · exact (movable_swaplonger faults _ _ _ src _ _).1 popped
  · exact (movable_swaplonger faults src _ _ _ _ _).2 popped

end Coutil.ExchangeMovable
