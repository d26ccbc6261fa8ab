import Coutil.AddressText
import Mathlib.Tactic.IntervalCases

set_option autoImplicit false

/-! Decimal and hexadecimal numbers in a text, and the part of libuv for the addresses that are
written with all their groups. -/
namespace Coutil.AddressNotation
open ByteString AddressText

def number (base n : ℕ) : Bytes := (Nat.toDigits base n).map Char.toUInt8

def digitvalue (c : UInt8) : ℕ :=
  if c ≤ '9'.toUInt8 then c.toNat - '0'.toUInt8.toNat else c.toNat - 'a'.toUInt8.toNat + 10

def numbervalue (base : ℕ) (text : Bytes) : ℕ :=
  text.foldl (fun n c => n * base + digitvalue c) 0

theorem digitvalue_digitChar {d : ℕ} (small : d < 16) :
    digitvalue (Nat.digitChar d).toUInt8 = d := by
  interval_cases d <;> rfl

section
variable {base : ℕ} (proper : 1 < base ∧ base ≤ 16)
include proper

theorem numbervalue_number (n : ℕ) : numbervalue base (number base n) = n := by
  induction n using Nat.strong_induction_on with
  | h n ih =>
    by_cases small : n < base
    · rw [number, Nat.toDigits_of_lt_base small]
      change 0 * base + digitvalue (Nat.digitChar n).toUInt8 = n
      rw [digitvalue_digitChar (by omega), Nat.zero_mul, Nat.zero_add]
    · have less : n / base < n := Nat.div_lt_self (by omega) proper.1
      have last : n % base < base := Nat.mod_lt n (by omega)
      have again := ih (n / base) less
      unfold numbervalue number at again ⊢
      rw [Nat.toDigits_of_base_le proper.1 (Nat.le_of_not_lt small), List.map_append,
        List.foldl_append, again]
      change n / base * base + digitvalue (Nat.digitChar (n % base)).toUInt8 = n
      rw [digitvalue_digitChar (by omega)]
      exact Nat.div_add_mod' n base

theorem number_chars (P : UInt8 → Prop) (digit : ∀ d < base, P (Nat.digitChar d).toUInt8) (n : ℕ) :
    ∀ c ∈ number base n, P c := by
  induction n using Nat.strong_induction_on with
  | h n ih =>
    intro c member
    by_cases small : n < base
    · rw [number, Nat.toDigits_of_lt_base small, List.map_singleton, List.mem_singleton] at member
      subst c
      exact digit n small
    · have less : n / base < n := Nat.div_lt_self (by omega) proper.1
      have last : n % base < base := Nat.mod_lt n (by omega)
      rw [number, Nat.toDigits_of_base_le proper.1 (Nat.le_of_not_lt small), List.map_append,
        List.map_singleton, List.mem_append, List.mem_singleton] at member
      rcases member with member | rfl
      · exact ih (n / base) less c member
      · exact digit _ last

end

/-- Numbers with a separator between them. -/
def joined (sep : UInt8) (base : ℕ) (ns : List ℕ) : Bytes :=
  [sep].intercalate (ns.map (number base))

def groups (sep : UInt8) (base : ℕ) (text : Bytes) : List ℕ :=
  (text.splitOn sep).map (numbervalue base)

theorem groups_joined {base : ℕ} (proper : 1 < base ∧ base ≤ 16) {sep : UInt8}
    (other : ∀ d < 16, (Nat.digitChar d).toUInt8 ≠ sep) {ns : List ℕ} (some_ : ns ≠ []) :
    groups sep base (joined sep base ns) = ns := by
  have apart : ∀ text ∈ ns.map (number base), sep ∉ text := by
    intro text member inside
    obtain ⟨n, -, rfl⟩ := List.mem_map.mp member
    exact number_chars proper (· ≠ sep) (fun d less => other d (by omega)) n sep inside rfl
  rw [groups, joined, List.splitOn_intercalate sep apart (by simpa using some_), List.map_map]
  conv_rhs => rw [← List.map_id ns]
  exact List.map_congr_left fun n _ => numbervalue_number proper n

theorem joined_cons (sep : UInt8) (base n m : ℕ) (ns : List ℕ) :
    joined sep base (n :: m :: ns) = number base n ++ sep :: joined sep base (m :: ns) := by
  rw [joined, List.map_cons, List.map_cons, List.intercalate_cons_cons, List.append_assoc]
  rfl

theorem joined_chars {base : ℕ} (proper : 1 < base ∧ base ≤ 16) {sep c : UInt8} (different : c ≠ sep)
    (other : ∀ d < 16, (Nat.digitChar d).toUInt8 ≠ c) (ns : List ℕ) : c ∉ joined sep base ns := by
  have absent (n : ℕ) : c ∉ number base n :=
    fun inside => number_chars proper (· ≠ c) (fun d less => other d (by omega)) n c inside rfl
  induction ns with
  | nil => exact List.not_mem_nil
  | cons n ns ih =>
    cases ns with
    | nil =>
      rw [joined, List.map_singleton, List.intercalate_singleton]
      exact absent n
    | cons m ns =>
      rw [joined_cons, List.mem_append, List.mem_cons]
      exact fun member => member.elim (absent n) fun tail => tail.elim different ih

theorem joined_length {base size : ℕ} (proper : 1 < base) {ns : List ℕ}
    (small : ∀ n ∈ ns, n < base ^ (size + 1)) (sep : UInt8) :
    (joined sep base ns).length ≤ ns.length * (size + 2) := by
  have short (n : ℕ) (less : n < base ^ (size + 1)) : (number base n).length ≤ size + 1 := by
    rw [number, List.length_map]
    exact (Nat.length_toDigits_le_iff proper (Nat.succ_pos size)).mpr less
  induction ns with
  | nil => exact Nat.zero_le _
  | cons n ns ih =>
    obtain ⟨first, small⟩ := List.forall_mem_cons.mp small
    have digits := short n first
    have rest := ih small
    cases ns with
    | nil =>
      rw [joined, List.map_singleton, List.intercalate_singleton, List.length_singleton]
      omega
    | cons m ns =>
      rw [joined_cons, List.length_append, List.length_cons, List.length_cons, Nat.succ_mul]
      omega

def pairs : Bytes → List ℕ
  | a :: b :: bytes => (a.toNat * 256 + b.toNat) :: pairs bytes
  | _ => []

/-- The groups of an address, which libuv writes in base 10 or 16. -/
def parts : Family → Bytes → List ℕ
  | .inet, bytes => bytes.map UInt8.toNat
  | .inet6, bytes => pairs bytes

def unparts : Family → List ℕ → Bytes
  | .inet, ns => ns.map UInt8.ofNat
  | .inet6, ns => ns.flatMap fun n => [UInt8.ofNat (n / 256), UInt8.ofNat (n % 256)]

def base : Family → ℕ
  | .inet => 10
  | .inet6 => 16

def sep : Family → UInt8
  | .inet => '.'.toUInt8
  | .inet6 => ':'.toUInt8

def written (type : Family) (bytes : Bytes) : Bytes := joined (sep type) (base type) (parts type bytes)

/-- The errors are `UV_EINVAL` and `UV_ENOSPC`. -/
def libuv : Inet where
  pton type text :=
    let bytes := unparts type (groups (sep type) (base type) text)
    if whole : bytes.length = addrbinsz type ∧ written type bytes = text then .ok ⟨bytes, whole.1⟩
    else .error (-22)
  ntop type bytes size :=
    if (written type bytes).length < size then .ok (written type bytes) else .error (-28)

theorem unparts_pairs (bytes : Bytes) (even : 2 ∣ bytes.length) :
    unparts .inet6 (pairs bytes) = bytes := by
  induction bytes using pairs.induct with
  | case1 a b bytes ih =>
    have rest : 2 ∣ bytes.length := by simpa [Nat.dvd_add_right] using even
    have high : (a.toNat * 256 + b.toNat) / 256 = a.toNat := by
      have := b.toNat_lt
      omega
    have low : (a.toNat * 256 + b.toNat) % 256 = b.toNat := by
      have := b.toNat_lt
      omega
    change UInt8.ofNat ((a.toNat * 256 + b.toNat) / 256) ::
      UInt8.ofNat ((a.toNat * 256 + b.toNat) % 256) :: unparts .inet6 (pairs bytes) = _
    rw [ih rest, high, low, UInt8.ofNat_toNat, UInt8.ofNat_toNat]
  | case2 bytes other =>
    cases bytes with
    | nil => rfl
    | cons a bytes =>
      cases bytes with
      | nil => simp at even
      | cons b bytes => exact absurd rfl (other a b bytes)

theorem unparts_parts (type : Family) (bytes : Bytes) (size : bytes.length = addrbinsz type) :
    unparts type (parts type bytes) = bytes := by
  cases type with
  | inet => simp [unparts, parts, List.map_map, Function.comp_def]
  | inet6 => exact unparts_pairs bytes (by rw [size]; decide)

theorem pairs_small (bytes : Bytes) : ∀ n ∈ pairs bytes, n < 65536 := by
  induction bytes using pairs.induct with
  | case1 a b bytes ih =>
    rw [pairs, List.forall_mem_cons]
    have high := a.toNat_lt
    have low := b.toNat_lt
    exact ⟨by omega, ih⟩
  | case2 bytes other => simp [pairs]

theorem pairs_length (bytes : Bytes) : (pairs bytes).length = bytes.length / 2 := by
  induction bytes using pairs.induct with
  | case1 a b bytes ih =>
    rw [pairs, List.length_cons, List.length_cons, List.length_cons, ih]
    omega
  | case2 bytes other =>
    cases bytes with
    | nil => rfl
    | cons a bytes =>
      cases bytes with
      | nil => simp [pairs]
      | cons b bytes => exact absurd rfl (other a b bytes)

/-- How many groups an address has, and how many digits in each. -/
theorem parts_small {type : Family} {bytes : Bytes} (size : bytes.length = addrbinsz type) :
    ∃ count digits, (parts type bytes).length = count + 1 ∧
      (∀ n ∈ parts type bytes, n < base type ^ (digits + 1)) ∧
      (count + 1) * (digits + 2) < maxliteral := by
  cases type with
  | inet =>
    refine ⟨3, 2, (List.length_map _).trans size, ?_, by decide⟩
    intro n member
    obtain ⟨b, -, rfl⟩ := List.mem_map.mp member
    exact Nat.lt_trans b.toNat_lt (by decide)
  | inet6 =>
    refine ⟨7, 3, ?_, fun n member => pairs_small bytes n member, by decide⟩
    rw [parts, pairs_length, size]
    rfl

theorem base_proper (type : Family) : 1 < base type ∧ base type ≤ 16 := by
  cases type with
  | inet => decide
  | inet6 => decide

theorem written_length {type : Family} {bytes : Bytes} (size : bytes.length = addrbinsz type) :
    (written type bytes).length < maxliteral := by
  obtain ⟨count, digits, length, small, fits⟩ := parts_small size
  have bound := joined_length (base_proper type).1 small (sep type)
  rw [length] at bound
  exact Nat.lt_of_le_of_lt bound fits

theorem groups_written {type : Family} {bytes : Bytes} (size : bytes.length = addrbinsz type) :
    groups (sep type) (base type) (written type bytes) = parts type bytes := by
  obtain ⟨count, digits, length, -⟩ := parts_small size
  apply groups_joined (base_proper type)
  · cases type with
    | inet => decide
    | inet6 => decide
  · exact List.ne_nil_of_length_eq_add_one length

end Coutil.AddressNotation
