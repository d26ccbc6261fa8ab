import Coutil.FileInfo
import Mathlib.Data.List.Sublists

set_option autoImplicit false

/-! Where the values of `system.fileinfo` are placed on the stack. -/
namespace Coutil.FileInfoPlacement
open ByteString FileInfo

section
variable {A : Stack} {v : Value} {base i n : ℕ}

theorem index_last (A : Stack) (v : Value) : index (A ++ [v]) (A ++ [v]).length = v := by
  simp [index]

theorem replace_last {idx : ℕ} (positive : 0 < idx) (inside : idx ≤ A.length) :
    replace (A ++ [v]) idx = A.set (idx - 1) v := by
  rw [replace, index_last, List.set_append_left _ _ (by omega), List.dropLast_concat]

/-- The value is put at its index, and the others stay, with more of them if it is beyond the top. -/
theorem placeat_spec (A : Stack) (v : Value) (idx : ℕ) (positive : 0 < idx) :
    (placeat (A ++ [v]) idx).length = max A.length idx ∧
      (placeat (A ++ [v]) idx)[idx - 1]? = some v ∧
      ∀ j < A.length, j ≠ idx - 1 → (placeat (A ++ [v]) idx)[j]? = A[j]? := by
  have top : (A ++ [v]).length = A.length + 1 := by simp
  unfold placeat
  rcases Nat.lt_trichotomy idx (A ++ [v]).length with less | same | greater
  · rw [if_pos less, replace_last positive (by omega)]
    refine ⟨by rw [List.length_set]; omega, ?_, fun j _ other => ?_⟩
    · rw [List.getElem?_set_self (by omega)]
    · rw [List.getElem?_set_ne (Ne.symm other)]
  · rw [if_neg (by omega), if_neg (by omega)]
    have place : idx - 1 = A.length := by omega
    refine ⟨by omega, ?_, fun j less _ => ?_⟩
    · rw [place]
      simp
    · rw [List.getElem?_append_left less]
  · have padded : settop (A ++ [v]) (idx - 1) =
        A ++ [v] ++ List.replicate (idx - 1 - (A ++ [v]).length) .nil := by
      rw [settop, List.take_of_length_le (by omega)]
    have length : (settop (A ++ [v]) (idx - 1)).length = idx - 1 := by
      rw [padded, List.length_append, List.length_replicate]
      omega
    have copied : index (settop (A ++ [v]) (idx - 1)) (A ++ [v]).length = v := by
      rw [padded, index, top, Nat.add_sub_cancel, List.append_assoc]
      simp
    rw [if_neg (by omega), if_pos greater]
    simp only [copied]
    refine ⟨by rw [List.length_append, length, List.length_singleton]; omega, ?_, fun j less _ => ?_⟩
    · rw [List.getElem?_append_right (by omega), length]
      simp
    · rw [List.getElem?_append_left (by omega), padded, List.append_assoc,
        List.getElem?_append_left less]

end

/-- What is below the values, the values of the characters that are done, and room for no more
than all values. -/
structure Filled (args : Stack) (chars : List Char) (value : Char → Value) (done : ℕ → Char → Prop)
    (L : Stack) : Prop where
  below : ∀ j < args.length, L[j]? = args[j]?
  values : ∀ j c, chars[j]? = some c → done j c → L[args.length + j]? = some (value c)
  low : args.length ≤ L.length
  high : L.length ≤ args.length + chars.length

section
variable {args L : Stack} {chars mode : List Char} {value : Char → Value}
variable {push : Char → Option Value} {done : Char → Prop}

/-- The loop places the values of the characters for which there is one. -/
theorem pushchars_filled (pre : List Char) (done : Char → Prop)
    (pushes : ∀ c v, push c = some v → v = value c)
    (whole : chars = pre ++ mode)
    (filled : Filled args chars value (fun j c => done c ∨ (j < pre.length ∧ (push c).isSome)) L) :
    Filled args chars value (fun _ c => done c ∨ (push c).isSome)
      (pushchars push args.length pre.length mode L) := by
  induction mode generalizing pre L with
  | nil =>
    refine ⟨filled.below, fun j c found finished => filled.values j c found ?_, filled.low, filled.high⟩
    have inside := (List.getElem?_eq_some_iff.mp found).1
    rw [whole, List.append_nil] at inside
    exact finished.imp id fun pushed => ⟨inside, pushed⟩
  | cons c mode ih =>
    have whole' : chars = (pre ++ [c]) ++ mode := by simpa using whole
    have here : chars[pre.length]? = some c := by simp [whole]
    have count : (pre ++ [c]).length = pre.length + 1 := by simp
    rw [pushchars]
    cases pushed : push c with
    | none =>
      rw [← count]
      apply ih _ whole'
      refine ⟨filled.below, fun j d found finished => filled.values j d found ?_, filled.low,
        filled.high⟩
      refine finished.imp id fun ⟨less, some_⟩ => ⟨?_, some_⟩
      rcases Nat.lt_or_eq_of_le (Nat.le_of_lt_succ (count ▸ less)) with less | rfl
      · exact less
      · rw [here] at found
        cases found
        rw [pushed] at some_
        cases some_
    | some v =>
      obtain rfl := pushes c v pushed
      have less : pre.length < chars.length := (List.getElem?_eq_some_iff.mp here).1
      have index : pre.length + 1 + args.length - 1 = args.length + pre.length := by omega
      obtain ⟨length, placed, kept⟩ := placeat_spec L (value c)
        (pre.length + 1 + args.length) (by omega)
      rw [index] at placed kept
      have low := filled.low
      have high := filled.high
      rw [← count]
      apply ih _ whole'
      rw [count]
      refine ⟨fun j inside => ?_, fun j d found finished => ?_, by omega, by omega⟩
      · rw [kept j (by omega) (by omega)]
        exact filled.below j inside
      · by_cases same : j = pre.length
        · subst j
          rw [here] at found
          cases found
          exact placed
        · have before : L[args.length + j]? = some (value d) := by
            refine filled.values j d found (finished.imp id fun ⟨less', some_⟩ => ⟨?_, some_⟩)
            omega
          have inside := (List.getElem?_eq_some_iff.mp before).1
          rw [kept _ inside (by omega)]
          exact before

/-- Once all characters are done the values are those of the characters. -/
theorem filled_values (filled : Filled args chars value (fun _ c => done c) L)
    (all : ∀ c ∈ chars, done c) : L.drop args.length = chars.map value := by
  apply List.ext_getElem?
  intro j
  rw [List.getElem?_drop, List.getElem?_map]
  cases found : chars[j]? with
  | none =>
    have outside := List.getElem?_eq_none_iff.mp found
    have high := filled.high
    rw [List.getElem?_eq_none (by omega)]
    rfl
  | some c => exact filled.values j c found (all c (List.mem_of_getElem? found))

end

inductive Source where
  | stat
  | statfs
  | realpath
  | readlink
  deriving DecidableEq

def Source.bit : Source → Bits
  | .stat => INFO_STAT
  | .statfs => INFO_STATFS
  | .realpath => INFO_REALPATH
  | .readlink => INFO_READLINK

def Source.query (lstat : Bool) : Source → Query
  | .stat => if lstat then .lstat else .stat
  | .statfs => .statfs
  | .realpath => .realpath
  | .readlink => .readlink

def sources : List Source := [.stat, .statfs, .realpath, .readlink]

/-- The bits with the current source, the flags and the sources to query. -/
def code (current : Option Source) (lstat noyield : Bool) (todo : List Source) : Bits :=
  (current.elim 0 Source.bit) <<< INFO_BITCOUNT ||| (if lstat then INFO_LSTAT else 0) |||
    (if noyield then INFO_NOYIELD else 0) ||| todo.foldr (fun s bits => s.bit ||| bits) 0

/-- The next query, and the bits after it. -/
def nextof (lstat noyield : Bool) : List Source → Option (Query × Bits)
  | [] => none
  | s :: todo => some (s.query lstat, code (some s) lstat noyield todo)

theorem code_all : ∀ current ∈ none :: sources.map some, ∀ lstat ∈ [true, false],
    ∀ noyield ∈ [true, false], ∀ todo ∈ sources.sublists,
      getinfosrc (code current lstat noyield todo) = nextof lstat noyield todo ∧
      (code current lstat noyield todo &&& INFO_SRCMASK = 0 ↔ todo = []) ∧
      code current lstat noyield todo >>> INFO_BITCOUNT = current.elim 0 Source.bit ∧
      (code current lstat noyield todo &&& INFO_NOYIELD ≠ 0 ↔ noyield = true) := by
  decide +kernel

def sourceof (c : Char) : Option Source :=
  if c ∈ statchars then some .stat
  else if c ∈ statfschars then some .statfs
  else if c = 'p' then some .realpath
  else if c = '=' then some .readlink
  else none

section
variable (pushfilesystype : ℕ → Bytes)

def pushof (c : Char) (filereq : Filereq) : Source → Option Value
  | .stat => pushfilestat c filereq
  | .statfs => pushfilesys pushfilesystype c filereq
  | .realpath => pushrealpath c filereq
  | .readlink => pushreadlink c filereq

/-- The value of a character, from the answers to the queries. -/
def valueof (disk : Query → Filereq) (lstat : Bool) (c : Char) : Value :=
  ((sourceof c).bind fun s => pushof pushfilesystype c (disk (s.query lstat)) s).getD .nil

variable {pushfilesystype}

theorem pushfilestat_isSome (c : Char) (filereq : Filereq) :
    (pushfilestat c filereq).isSome = true ↔ c ∈ statchars := by
  constructor
  · intro some_
    unfold pushfilestat at some_
    split at some_
    all_goals first | decide | cases some_
  · intro member
    unfold statchars at member
    simp only [List.mem_cons, List.not_mem_nil, or_false] at member
    rcases member with rfl | rfl | rfl | rfl | rfl | rfl | rfl | rfl | rfl | rfl | rfl | rfl | rfl |
      rfl | rfl | rfl | rfl | rfl | rfl | rfl | rfl | rfl | rfl | rfl | rfl | rfl | rfl | rfl | rfl
    all_goals rfl

theorem pushfilesys_isSome (c : Char) (filereq : Filereq) :
    (pushfilesys pushfilesystype c filereq).isSome = true ↔ c ∈ statfschars := by
  constructor
  · intro some_
    unfold pushfilesys at some_
    split at some_
    all_goals first | decide | cases some_
  · intro member
    unfold statfschars at member
    simp only [List.mem_cons, List.not_mem_nil, or_false] at member
    rcases member with rfl | rfl | rfl | rfl | rfl | rfl | rfl | rfl
    all_goals rfl

theorem pushof_isSome (pushfilesystype : ℕ → Bytes) (c : Char) (filereq : Filereq) (s : Source) :
    (pushof pushfilesystype c filereq s).isSome = true ↔ sourceof c = some s := by
  have apart : ∀ c ∈ statfschars, c ∉ statchars := by
    simp only [statfschars, statchars, List.forall_mem_cons]
    simp
  cases s with
  | stat =>
    rw [pushof, pushfilestat_isSome, sourceof]
    by_cases stat : c ∈ statchars
    · simp [stat]
    · simp only [stat, if_false, false_iff]
      split_ifs <;> simp
  | statfs =>
    rw [pushof, pushfilesys_isSome, sourceof]
    by_cases statfs : c ∈ statfschars
    · simp [statfs, apart c statfs]
    · simp only [statfs, if_false, false_iff]
      split_ifs <;> simp
  | realpath =>
    have one : 'p' ∉ statchars ∧ 'p' ∉ statfschars := by decide
    rw [pushof, pushrealpath, sourceof]
    by_cases here : c = 'p'
    · simp [here, one]
    · simp only [here, if_false, Option.isSome_none, Bool.false_eq_true, false_iff]
      split_ifs <;> simp
  | readlink =>
    have one : '=' ∉ statchars ∧ '=' ∉ statfschars := by decide
    rw [pushof, pushreadlink, sourceof]
    by_cases here : c = '='
    · simp [here, one]
    · simp only [here, if_false, Option.isSome_none, Bool.false_eq_true, false_iff]
      split_ifs <;> simp

theorem pushof_value (pushfilesystype : ℕ → Bytes) (disk : Query → Filereq) (lstat : Bool) (s : Source) (c : Char) (v : Value)
    (pushed : pushof pushfilesystype c (disk (s.query lstat)) s = some v) :
    v = valueof pushfilesystype disk lstat c := by
  have here := (pushof_isSome pushfilesystype c (disk (s.query lstat)) s).mp
    (by rw [pushed]; rfl)
  rw [valueof, here, Option.bind_some, pushed]
  rfl

end

end Coutil.FileInfoPlacement
