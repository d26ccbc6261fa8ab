import Coutil.FileSystem

set_option autoImplicit false

/-! The permissions that `checkperm` of `src/lfilef.c` reads of a string, and what `file:info` and
`system.fileinfo` show of them by the same characters. -/
namespace Coutil.FilePermissions
open FileSystem
open FileInfo (Filereq pushfilestat)

/-- The characters of the permissions, from that of the lowest bit on. -/
def permset : List Char := ['1', '2', '4', 'X', 'W', 'R', 'x', 'w', 'r', 'S', 'G', 'U']

def shown (filereq : Filereq) (c : Char) : Bool :=
  match pushfilestat c filereq with
  | some (.boolean b) => b
  | _ => false

variable {c : Char} {mode : List Char} {p q i : ℕ}

theorem permbit_some (member : c ∈ permset) : permbit c = some (2 ^ permset.idxOf c) := by
  simp only [permset, List.mem_cons, List.not_mem_nil, or_false] at member
  rcases member with rfl | rfl | rfl | rfl | rfl | rfl | rfl | rfl | rfl | rfl | rfl | rfl <;> rfl

theorem permbit_none (other : c ∉ permset) : permbit c = none := by
  simp only [permset, List.mem_cons, List.not_mem_nil, or_false, not_or] at other
  unfold permbit
  split <;> simp_all

theorem idxOf_permset (member : c ∈ permset) : permset.idxOf c < 12 :=
  List.idxOf_lt_length_iff.mpr member

/-- A string is refused for a character that is none of a permission. -/
theorem permchars_none : permchars mode p = none ↔ ∃ c ∈ mode, c ∉ permset := by
  induction mode generalizing p with
  | nil => simp [permchars]
  | cons c mode ih =>
    unfold permchars
    by_cases member : c ∈ permset
    · rw [permbit_some member, Option.bind_some, ih]
      simp [member]
    · rw [permbit_none member]
      simp [member]

/-- The bits are those of the characters, whatever their order and however often. -/
theorem permchars_testBit (read : permchars mode p = some q) (i : ℕ) :
    q.testBit i = true ↔ p.testBit i = true ∨ ∃ c ∈ mode, permset.idxOf c = i := by
  induction mode generalizing p with
  | nil =>
    cases read
    simp
  | cons c mode ih =>
    obtain ⟨bit, known, rest⟩ := Option.bind_eq_some_iff.mp read
    have member : c ∈ permset := by
      by_contra other
      rw [permbit_none other] at known
      cases known
    rw [permbit_some member] at known
    cases known
    rw [ih rest, Nat.testBit_or, Nat.testBit_two_pow]
    simp [or_assoc]

theorem and_two_pow_ne (n i : ℕ) : decide (n &&& 2 ^ i ≠ 0) = n.testBit i := by
  cases bit : n.testBit i with
  | true =>
    refine decide_eq_true fun zero => ?_
    have none := congrArg (Nat.testBit · i) zero
    simp [bit] at none
  | false =>
    refine decide_eq_false fun nonzero => nonzero (Nat.eq_of_testBit_eq fun j => ?_)
    rw [Nat.testBit_and, Nat.testBit_two_pow, Nat.zero_testBit]
    by_cases same : i = j
    · simp [← same, bit]
    · simp [same]

theorem pushfilestat_bit (filereq : Filereq) (member : c ∈ permset) :
    pushfilestat c filereq =
      some (.boolean (filereq.statbuf.st_mode.testBit (permset.idxOf c))) := by
  rw [← and_two_pow_ne]
  simp only [permset, List.mem_cons, List.not_mem_nil, or_false] at member
  rcases member with rfl | rfl | rfl | rfl | rfl | rfl | rfl | rfl | rfl | rfl | rfl | rfl <;> rfl

/-- Every bit of a permission has its character. -/
theorem permset_bit (below : i < 12) : ∃ c ∈ permset, permset.idxOf c = i := by
  have inside : i < permset.length := below
  have distinct : permset.Nodup := by decide
  exact ⟨permset[i], List.getElem_mem inside, distinct.idxOf_getElem i inside⟩

theorem shown_bit (filereq : Filereq) (member : c ∈ permset) :
    shown filereq c = filereq.statbuf.st_mode.testBit (permset.idxOf c) := by
  rw [shown, pushfilestat_bit filereq member]

theorem cstring_permset (all : ∀ c ∈ mode, c ∈ permset) : FileResources.cstring mode = mode := by
  refine List.takeWhile_eq_self_iff.mpr fun c member => decide_eq_true ?_
  rintro rfl
  exact absurd (all _ member) (by decide)

/-- The characters that show true are read as the permissions of the file. -/
theorem shown_read (filereq : Filereq) :
    permchars (permset.filter (shown filereq)) 0 = some (filereq.statbuf.st_mode % 2 ^ 12) := by
  cases read : permchars (permset.filter (shown filereq)) 0 with
  | none =>
    obtain ⟨c, member, other⟩ := permchars_none.mp read
    exact absurd (List.mem_filter.mp member).1 other
  | some q =>
    refine congrArg some (Nat.eq_of_testBit_eq fun i => ?_)
    rw [Nat.testBit_mod_two_pow, Bool.eq_iff_iff, permchars_testBit read, Bool.and_eq_true,
      decide_eq_true_iff]
    constructor
    · rintro (zero | ⟨c, member, rfl⟩)
      · simp at zero
      · obtain ⟨known, shows⟩ := List.mem_filter.mp member
        rw [shown_bit filereq known] at shows
        exact ⟨idxOf_permset known, shows⟩
    · rintro ⟨below, set⟩
      obtain ⟨c, member, rfl⟩ := permset_bit below
      refine .inr ⟨c, List.mem_filter.mpr ⟨member, ?_⟩, rfl⟩
      rw [shown_bit filereq member]
      exact set

/-- A string of permissions is refused exactly if it has another character. Otherwise its value has
the twelve bits of a permission, and of every file with these permissions, whatever its type is,
the characters of the string and no other ones show true; and the string of those that show true
is read as the same value. -/
theorem permissions_read_back (text : List Char) :
    (checkperm (.string text) = none ↔ ∃ c ∈ FileResources.cstring text, c ∉ permset) ∧
    ∀ perm : ℕ, checkperm (.string text) = some (perm : ℤ) → perm < 2 ^ 12 ∧
      ∀ filereq : Filereq, filereq.statbuf.st_mode % 2 ^ 12 = perm →
        (∀ c ∈ permset, pushfilestat c filereq =
          some (.boolean (decide (c ∈ FileResources.cstring text)))) ∧
        checkperm (.string (permset.filter (shown filereq))) = some (perm : ℤ) := by
  refine ⟨by rw [checkperm, Option.map_eq_none_iff, permchars_none], fun perm read => ?_⟩
  obtain ⟨q, chars, same⟩ := Option.map_eq_some_iff.mp read
  obtain rfl : q = perm := Int.ofNat.inj same
  have accepted (c : Char) (member : c ∈ FileResources.cstring text) : c ∈ permset := by
    by_contra other
    have refused : permchars (FileResources.cstring text) 0 = none :=
      permchars_none.mpr ⟨c, member, other⟩
    rw [chars] at refused
    cases refused
  have bits (i : ℕ) : q.testBit i = true ↔
      ∃ c ∈ FileResources.cstring text, permset.idxOf c = i := by
    simpa using permchars_testBit chars i
  refine ⟨Nat.lt_pow_two_of_testBit q fun i above => ?_,
    fun filereq mode => ⟨fun c member => ?_, ?_⟩⟩
  · rw [Bool.eq_false_iff]
    intro set
    obtain ⟨c, member, rfl⟩ := (bits i).mp set
    have below := idxOf_permset (accepted c member)
    omega
  · have low := congrArg (Nat.testBit · (permset.idxOf c)) mode
    simp only [Nat.testBit_mod_two_pow, idxOf_permset member, decide_true, Bool.true_and] at low
    have listed : q.testBit (permset.idxOf c) = decide (c ∈ FileResources.cstring text) := by
      rw [Bool.eq_iff_iff, bits, decide_eq_true_iff]
      constructor
      · rintro ⟨d, inside, same⟩
        rwa [← (List.idxOf_inj (accepted d inside)).mp same]
      · exact fun inside => ⟨c, inside, rfl⟩
    rw [pushfilestat_bit filereq member, low, listed]
  · rw [checkperm, cstring_permset fun c member => (List.mem_filter.mp member).1, shown_read, mode]
    rfl

def sampleFile (st_mode : ℕ) : Filereq :=
  ⟨0, [], ⟨0, 0, 0, 0, 0, 0, 0⟩,
    ⟨st_mode, 0, 0, 1, 0, 0, 0, 0, 0, 0, 0, 0, (0, 0), (0, 0), (0, 0), (0, 0)⟩⟩

theorem permissions_read_back_regular :
    checkperm (.string ['r', 'w', 'R', 'r', '4']) = some 0o644 ∧
    pushfilestat 'R' (sampleFile 0o100644) = some (.boolean true) ∧
    pushfilestat 'W' (sampleFile 0o100644) = some (.boolean false) ∧
    checkperm (.string (permset.filter (shown (sampleFile 0o100644)))) = some 0o644 := by
  have read : checkperm (.string ['r', 'w', 'R', 'r', '4']) = some ((0o644 : ℕ) : ℤ) := by decide
  obtain ⟨-, back⟩ := permissions_read_back ['r', 'w', 'R', 'r', '4']
  obtain ⟨-, shows⟩ := back 0o644 read
  obtain ⟨chars, again⟩ := shows (sampleFile 0o100644) (by decide)
  exact ⟨read, chars 'R' (by decide), chars 'W' (by decide), again⟩

end Coutil.FilePermissions
