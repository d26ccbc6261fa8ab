import Mathlib.Data.BitVec
import Mathlib.Data.Int.Notation
import Mathlib.Order.Basic

set_option autoImplicit false

/-! The range of a buffer for input or output, of `src/lmodaux.c`. Integers of Lua and sizes have
64 bits, and an argument may be absent. -/
namespace Coutil.BufferRange

abbrev Word := BitVec 64

/-- `lua_Integer` values are compared with their signs. -/
def posrelatI (pos len : Word) : Word :=
  if (0 : Word).slt pos then pos
  else if pos = 0 then 1
  else if pos.slt (-len) then 1
  else len + pos + 1

def luaL_optinteger (arg : Option Word) (default : Word) : Word := arg.getD default

def getendpos (arg : Option Word) (default len : Word) : Word :=
  let pos := luaL_optinteger arg default
  if len.slt pos then len
  else if ¬ pos.slt 0 then pos
  else if pos.slt (-len) then 0
  else len + pos + 1

structure Buf where
  base : Word
  len : Word

def setupbuf (i j : Option Word) (data sz : Word) : Buf :=
  let start := posrelatI (luaL_optinteger i 1) sz
  let last := getendpos j (-1) sz
  { base := data + start - 1
    len := if start ≤ last then last - start + 1 else 0 }

/-! What `string.sub` selects, as it is documented. -/

/-- A negative position counts from the end. -/
def translate (size pos : ℤ) : ℤ := if pos < 0 then size + pos + 1 else pos

def subFirst (size i : ℤ) : ℤ := max 1 (translate size i)

def subLast (size j : ℤ) : ℤ := min size (translate size j)

def position (arg : Option Word) (default : ℤ) : ℤ := (arg.map BitVec.toInt).getD default

def sub {α : Type} (s : List α) (i j : Option Word) : List α :=
  let first := subFirst s.length (position i 1)
  let last := subLast s.length (position j (-1))
  (s.drop (first - 1).toNat).take (last - first + 1).toNat

section
variable {pos len : Word}

theorem toInt_size (small : len.toNat < 2 ^ 63) : len.toInt = len.toNat := by
  rw [BitVec.toInt_eq_toNat_cond, if_pos (by omega)]

theorem toInt_neg_size (small : len.toNat < 2 ^ 63) : (-len).toInt = -(len.toNat : ℤ) := by
  rw [BitVec.toInt_neg, toInt_size small]
  exact Int.bmod_eq_of_le (by omega) (by omega)

theorem toInt_cases (pos : Word) :
    (0 ≤ pos.toInt ∧ pos.toInt = pos.toNat) ∨
      (pos.toInt < 0 ∧ pos.toInt = pos.toNat - 18446744073709551616) := by
  have bound := pos.isLt
  rw [BitVec.toInt_eq_toNat_cond]
  split_ifs with positive
  · exact .inl ⟨by omega, rfl⟩
  · exact .inr ⟨by omega, rfl⟩

/-- A negative position that is not below the size counts from the end. -/
theorem toNat_back (small : len.toNat < 2 ^ 63) (negative : pos.toInt < 0)
    (inside : -(len.toNat : ℤ) ≤ pos.toInt) :
    ((len + pos + 1).toNat : ℤ) = len.toNat + pos.toInt + 1 := by
  have sum : (len + pos + 1).toNat = (len.toNat + pos.toNat + 1) % 18446744073709551616 := by
    rw [BitVec.toNat_add, BitVec.toNat_add, Nat.mod_add_mod]
    rfl
  obtain ⟨positive, -⟩ | ⟨-, value⟩ := toInt_cases pos
  · omega
  · rw [sum]
    omega

theorem posrelatI_toNat (pos : Word) (small : len.toNat < 2 ^ 63) :
    ((posrelatI pos len).toNat : ℤ) = subFirst len.toNat pos.toInt := by
  have value := toInt_cases pos
  have zero : (0 : Word).toInt = 0 := rfl
  have one : ((1 : Word).toNat : ℤ) = 1 := rfl
  unfold posrelatI subFirst translate
  simp only [BitVec.slt_iff_toInt_lt, toInt_neg_size small, zero]
  by_cases positive : 0 < pos.toInt
  · rw [if_pos positive, if_neg (by omega)]
    omega
  · rw [if_neg positive]
    by_cases none : pos = 0
    · rw [if_pos none, none, zero]
      rfl
    · have negative : pos.toInt < 0 := by
        have other : pos.toInt ≠ 0 := fun same => none (BitVec.toInt_inj.mp (same.trans zero.symm))
        omega
      rw [if_neg none, if_pos negative]
      by_cases before : pos.toInt < -(len.toNat : ℤ)
      · rw [if_pos before, one]
        omega
      · rw [if_neg before, toNat_back small negative (by omega)]
        omega

theorem getendpos_toNat (arg : Option Word) (default : Word) (small : len.toNat < 2 ^ 63) :
    ((getendpos arg default len).toNat : ℤ) =
      max 0 (subLast len.toNat (position arg default.toInt)) := by
  have same : position arg default.toInt = (luaL_optinteger arg default).toInt := by
    cases arg <;> rfl
  rw [same, getendpos]
  generalize luaL_optinteger arg default = pos
  have value := toInt_cases pos
  have zero : (0 : Word).toInt = 0 := rfl
  have none : ((0 : Word).toNat : ℤ) = 0 := rfl
  unfold subLast translate
  simp only [BitVec.slt_iff_toInt_lt, toInt_neg_size small, toInt_size small, zero]
  by_cases after : (len.toNat : ℤ) < pos.toInt
  · rw [if_pos after, if_neg (by omega)]
    omega
  · rw [if_neg after]
    by_cases negative : pos.toInt < 0
    · rw [if_neg (not_not.mpr negative), if_pos negative]
      by_cases before : pos.toInt < -(len.toNat : ℤ)
      · rw [if_pos before, none]
        omega
      · rw [if_neg before, toNat_back small negative (by omega)]
        omega
    · rw [if_pos negative, if_neg negative]
      omega

end

section
variable {α : Type}

theorem ofNat_pred {start : Word} (positive : 1 ≤ start.toNat) :
    start - 1 = BitVec.ofNat 64 (start.toNat - 1) := by
  have bound := start.isLt
  apply BitVec.eq_of_toNat_eq
  rw [BitVec.toNat_sub, BitVec.toNat_ofNat]
  have one : (1 : Word).toNat = 1 := rfl
  rw [one]
  omega

/-- The buffer is the part of the memory that `string.sub` selects of a string, inside of it, or
is empty as this part is. -/
theorem setupbuf_sub (s : List α) (i j : Option Word) (data : Word) (small : s.length < 2 ^ 63) :
    let buf := setupbuf i j data (BitVec.ofNat 64 s.length)
    let first := subFirst s.length (position i 1)
    let last := subLast s.length (position j (-1))
    (first ≤ last → 1 ≤ first ∧ last ≤ s.length ∧ (buf.len.toNat : ℤ) = last - first + 1 ∧
      buf.base = data + BitVec.ofNat 64 (first - 1).toNat) ∧
    (last < first → buf.len = 0) ∧
    (sub s i j).length = buf.len.toNat ∧
    ∀ k < buf.len.toNat, ∃ m < s.length, buf.base + BitVec.ofNat 64 k = data + BitVec.ofNat 64 m ∧
      (sub s i j)[k]? = s[m]? := by
  intro buf first last
  have size : (BitVec.ofNat 64 s.length).toNat = s.length := by
    rw [BitVec.toNat_ofNat]
    omega
  have small' : (BitVec.ofNat 64 s.length).toNat < 2 ^ 63 := by rw [size]; exact small
  have starts : ((posrelatI (luaL_optinteger i 1) (BitVec.ofNat 64 s.length)).toNat : ℤ) = first := by
    rw [posrelatI_toNat _ small', size]
    cases i <;> rfl
  have ends : ((getendpos j (-1) (BitVec.ofNat 64 s.length)).toNat : ℤ) = max 0 last := by
    rw [getendpos_toNat j (-1) small', size]
    rfl
  have low : 1 ≤ first := le_max_left 1 _
  have high : last ≤ s.length := min_le_left _ _
  have selected : sub s i j = (s.drop (first - 1).toNat).take (last - first + 1).toNat := rfl
  generalize start_eq : posrelatI (luaL_optinteger i 1) (BitVec.ofNat 64 s.length) = start at starts
  generalize last_eq : getendpos j (-1) (BitVec.ofNat 64 s.length) = final at ends
  have base : buf.base = data + start - 1 := by rw [← start_eq]; rfl
  have len : buf.len = if start ≤ final then final - start + 1 else 0 := by
    rw [← start_eq, ← last_eq]
    rfl
  have order : start ≤ final ↔ first ≤ last := by
    rw [BitVec.le_def]
    omega
  have offset : (first - 1).toNat = start.toNat - 1 := by omega
  have here : buf.base = data + BitVec.ofNat 64 (first - 1).toNat := by
    rw [base, add_sub_assoc, ofNat_pred (by omega), offset]
  have length : buf.len.toNat = (last - first + 1).toNat := by
    rw [len]
    by_cases some_ : first ≤ last
    · rw [if_pos (order.mpr some_), BitVec.toNat_add, BitVec.toNat_sub]
      have one : (1 : Word).toNat = 1 := rfl
      have bound := final.isLt
      rw [one]
      omega
    · rw [if_neg fun le => some_ (order.mp le)]
      have zero : (0 : Word).toNat = 0 := rfl
      rw [zero]
      omega
  refine ⟨fun some_ => ⟨low, high, ?_, here⟩, fun empty => ?_, ?_, fun k less => ?_⟩
  · rw [length]
    omega
  · rw [len, if_neg fun le => absurd (order.mp le) (by omega)]
  · rw [selected, List.length_take, List.length_drop, length]
    omega
  · refine ⟨(first - 1).toNat + k, by omega, ?_, ?_⟩
    · rw [here, add_assoc, BitVec.ofNat_add]
    · rw [selected, List.getElem?_take_of_lt (by omega), List.getElem?_drop]

/-- A part at the end, one after it, and one of all. -/
theorem setupbuf_sub_three :
    (setupbuf (some (-1)) none 1000 3).len.toNat = 1 ∧
      (setupbuf (some 4) none 1000 3).len.toNat = 0 ∧
      (setupbuf none none 1000 3).len.toNat = 3 := by
  have part (i : Option Word) : (sub [1, 2, 3] i none).length =
      (setupbuf i none 1000 3).len.toNat := (setupbuf_sub [1, 2, 3] i none 1000 (by decide)).2.2.1
  exact ⟨(part _).symm.trans (by decide), (part _).symm.trans (by decide),
    (part _).symm.trans (by decide)⟩

end

end Coutil.BufferRange
