import Mathlib
import Coutil.AddressNotation

set_option autoImplicit false

/-! What the parser of the URI format accesses. -/
namespace Coutil.AddressBounds
open AccessTrace Traced ByteString AddressText AddressNotation

/-- The byte is in the string or its final zero, what is searched is in the string, and the array
has room for what is written. -/
def Within (data : Bytes) : Access → Prop
  | .read i => i ≤ data.length
  | .span start length => start + length ≤ data.length
  | .write i => i < maxliteral

instance (data : Bytes) (a : Access) : Decidable (Within data a) := by
  cases a <;> unfold Within <;> infer_instance

def isdigit (b : UInt8) : Prop := '0'.toUInt8 ≤ b ∧ b ≤ '9'.toUInt8

instance (b : UInt8) : Decidable (isdigit b) := inferInstanceAs (Decidable (_ ∧ _))

/-- The number that the digits are after the number `n`, if it is small enough for a port. -/
def decimal : ℕ → Bytes → Option ℕ
  | n, [] => some n
  | n, d :: ds =>
    let n' := n * 10 + (d.toNat - '0'.toUInt8.toNat)
    if isdigit d ∧ n' ≤ maxport then decimal n' ds else none

def value (n : ℕ) (ds : Bytes) : ℕ :=
  ds.foldl (fun n d => n * 10 + (d.toNat - '0'.toUInt8.toNat)) n

/-- Decimal digits of a port. -/
structure Port (ds : Bytes) : Prop where
  some_ : ds ≠ []
  digits : ∀ d ∈ ds, isdigit d
  bound : value 0 ds ≤ maxport

/-- What `mem2port` makes of all the bytes to the end. -/
def portof (ds : Bytes) : Option UInt16 := (decimal 0 ds).map UInt16.ofNat

theorem value_le (n : ℕ) (ds : Bytes) : n ≤ value n ds := by
  induction ds generalizing n with
  | nil => exact Nat.le_refl n
  | cons d ds ih =>
    have rest := ih (n * 10 + (d.toNat - '0'.toUInt8.toNat))
    change n ≤ value (n * 10 + (d.toNat - '0'.toUInt8.toNat)) ds
    omega

theorem decimal_eq {n : ℕ} {ds : Bytes} (small : n ≤ maxport) :
    decimal n ds =
      if (∀ d ∈ ds, isdigit d) ∧ value n ds ≤ maxport then some (value n ds) else none := by
  induction ds generalizing n with
  | nil =>
    rw [if_pos ⟨List.forall_mem_nil _, small⟩]
    rfl
  | cons d ds ih =>
    have whole : value n (d :: ds) = value (n * 10 + (d.toNat - '0'.toUInt8.toNat)) ds := rfl
    have grows := value_le (n * 10 + (d.toNat - '0'.toUInt8.toNat)) ds
    rw [decimal]
    by_cases goes : isdigit d ∧ n * 10 + (d.toNat - '0'.toUInt8.toNat) ≤ maxport
    · rw [if_pos goes, ih goes.2, whole]
      simp only [List.forall_mem_cons, goes.1, true_and]
    · have fails : ¬ ((∀ b ∈ d :: ds, isdigit b) ∧ value n (d :: ds) ≤ maxport) := by
        rintro ⟨digit, bound⟩
        rw [whole] at bound
        exact goes ⟨digit d List.mem_cons_self, by omega⟩
      rw [if_neg goes, if_neg fails]

theorem portof_port {ds : Bytes} (port : Port ds) :
    portof ds = some (UInt16.ofNat (value 0 ds)) := by
  rw [portof, decimal_eq (Nat.zero_le _), if_pos ⟨port.digits, port.bound⟩]
  rfl

theorem port_of_some {ds : Bytes} (some_ : ds ≠ []) {port : UInt16} (good : portof ds = some port) :
    Port ds := by
  rw [portof, decimal_eq (Nat.zero_le _)] at good
  by_cases fine : (∀ d ∈ ds, isdigit d) ∧ value 0 ds ≤ maxport
  · exact ⟨some_, fine.1, fine.2⟩
  · rw [if_neg fine] at good
    cases good

section
variable {data pre part rest : Bytes} {c : UInt8}

theorem of_fin (P : UInt8 → Prop) (all : ∀ n : Fin 256, P (UInt8.ofFin n)) (b : UInt8) : P b :=
  all b.toFin

theorem digit_iff (b : UInt8) :
    ((b - '0'.toUInt8).toInt8 < 0 ∨ (b - '0'.toUInt8).toInt8 > 9) ↔ ¬ isdigit b := by
  revert b
  apply of_fin
  decide +kernel

theorem digit_value (b : UInt8) (digit : isdigit b) :
    (b - '0'.toUInt8).toInt8.toNatClampNeg = b.toNat - '0'.toUInt8.toNat := by
  revert b
  apply of_fin
  decide +kernel

theorem readbyte_inside (whole : data = pre ++ c :: rest) :
    Ends (Within data) (readbyte data pre.length) (.ok c) := by
  have here : (data ++ [0])[pre.length]? = some c := by simp [whole]
  rw [readbyte, here]
  apply ends_access
  simp [Within, whole]

theorem readbyte_end : Ends (Within data) (readbyte data data.length) (.ok 0) := by
  have here : (data ++ [0])[data.length]? = some 0 := by simp
  rw [readbyte, here]
  apply ends_access
  exact Nat.le_refl data.length

theorem readbyte_outside : (readbyte data (data.length + 1)).result = .error .undefined := by
  have absent : (data ++ [0])[data.length + 1]? = none := by simp
  rw [readbyte, absent]
  rfl

theorem scan_found (whole : data = pre ++ part ++ c :: rest) (absent : c ∉ part) {length : ℕ}
    (enough : part.length < length) :
    Ends (Within data) (scan data c pre.length length) (.ok (some (pre.length + part.length))) := by
  induction part generalizing pre length with
  | nil =>
    obtain ⟨length, rfl⟩ := Nat.exists_eq_succ_of_ne_zero (Nat.ne_of_gt enough)
    have whole' : data = pre ++ c :: rest := by simpa using whole
    apply (readbyte_inside whole').bind
    rw [if_pos rfl]
    exact ends_pure _ _
  | cons b part ih =>
    obtain ⟨length, rfl⟩ := Nat.exists_eq_succ_of_ne_zero (Nat.ne_of_gt (Nat.zero_lt_of_lt enough))
    obtain ⟨other, absent⟩ := not_or.mp (mt List.mem_cons.mpr absent)
    have whole' : data = pre ++ b :: (part ++ c :: rest) := by simpa using whole
    have shifted : data = (pre ++ [b]) ++ part ++ c :: rest := by simpa using whole
    apply (readbyte_inside whole').bind
    rw [if_neg (Ne.symm other)]
    have again := ih shifted absent (Nat.lt_of_succ_lt_succ enough)
    rw [List.length_append, List.length_singleton] at again
    rw [List.length_cons, Nat.add_comm part.length 1, ← Nat.add_assoc]
    exact again

theorem scan_missing (whole : data = pre ++ part ++ rest) (absent : c ∉ part) :
    Ends (Within data) (scan data c pre.length part.length) (.ok none) := by
  induction part generalizing pre with
  | nil => exact ends_pure _ _
  | cons b part ih =>
    obtain ⟨other, absent⟩ := not_or.mp (mt List.mem_cons.mpr absent)
    have whole' : data = pre ++ b :: (part ++ rest) := by simpa using whole
    have shifted : data = (pre ++ [b]) ++ part ++ rest := by simpa using whole
    apply (readbyte_inside whole').bind
    rw [if_neg (Ne.symm other)]
    have again := ih shifted absent
    rw [List.length_append, List.length_singleton] at again
    exact again

/-- A search that goes on after the end of the string. -/
theorem scan_outside (whole : data = pre ++ part) (absent : c ∉ part) (nonzero : c ≠ 0)
    {length : ℕ} (long : part.length + 2 ≤ length) :
    (scan data c pre.length length).result = .error .undefined := by
  induction part generalizing pre length with
  | nil =>
    obtain ⟨length, rfl⟩ := Nat.exists_eq_add_of_le' long
    have ended : pre.length = data.length := by simp [whole]
    rw [ended]
    change (readbyte data data.length >>= _).result = _
    rw [bind_ok readbyte_end.result, if_neg (Ne.symm nonzero)]
    change (readbyte data (data.length + 1) >>= _).result = _
    rw [bind_error readbyte_outside]
  | cons b part ih =>
    rw [List.length_cons] at long
    obtain ⟨length, rfl⟩ := Nat.exists_eq_succ_of_ne_zero (n := length) (by omega)
    obtain ⟨other, absent⟩ := not_or.mp (mt List.mem_cons.mpr absent)
    have whole' : data = pre ++ b :: part := whole
    have shifted : data = (pre ++ [b]) ++ part := by simpa using whole
    change (readbyte data pre.length >>= _).result = _
    rw [bind_ok (readbyte_inside whole').result, if_neg (Ne.symm other)]
    have again := ih shifted absent (Nat.le_of_succ_le_succ long)
    rw [List.length_append, List.length_singleton] at again
    exact again

/-- The body of the loop, with what follows it. -/
theorem digits_body {d : UInt8} {ds : Bytes} (whole : data = pre ++ d :: ds) (n : ℕ)
    (goon : ℕ → Code (Option ℕ))
    (follows : ∀ n, Ends (Within data) (goon n) (.ok (decimal n ds))) :
    Ends (Within data)
      (readbyte data pre.length >>= fun b =>
        let value := (b - '0'.toUInt8).toInt8
        if value < 0 ∨ value > 9 then pure none
        else
          let n := n * 10 + value.toNatClampNeg
          if n > maxport then pure none else goon n)
      (.ok (decimal n (d :: ds))) := by
  apply (readbyte_inside whole).bind
  by_cases digit : isdigit d
  · simp only [if_neg (fun h => (digit_iff d).mp h digit), digit_value d digit]
    by_cases large : n * 10 + (d.toNat - '0'.toUInt8.toNat) > maxport
    · have stops : ¬ (isdigit d ∧ n * 10 + (d.toNat - '0'.toUInt8.toNat) ≤ maxport) := by omega
      rw [if_pos large, decimal, if_neg stops]
      exact ends_pure _ _
    · rw [if_neg large, decimal, if_pos ⟨digit, Nat.le_of_not_lt large⟩]
      exact follows _
  · simp only [if_pos ((digit_iff d).mpr digit)]
    rw [decimal, if_neg (fun h => digit h.1)]
    exact ends_pure _ _

theorem digits_ends {ds : Bytes} (whole : data = pre ++ ds) {left : ℕ}
    (count : ds.length = left + 1) (n : ℕ) :
    Ends (Within data) (digits data pre.length n left) (.ok (decimal n ds)) := by
  induction left generalizing pre ds n with
  | zero =>
    obtain ⟨d, rfl⟩ := List.length_eq_one_iff.mp count
    exact digits_body whole n (fun n => pure (some n)) fun n => ends_pure _ _
  | succ left ih =>
    obtain ⟨d, ds, rfl⟩ := List.exists_cons_of_length_eq_add_one count
    have shifted : data = (pre ++ [d]) ++ ds := by simpa using whole
    apply digits_body whole n fun n => digits data (pre.length + 1) n left
    intro n
    have again := ih shifted (Nat.succ_inj.mp count) n
    rw [List.length_append, List.length_singleton] at again
    exact again

theorem mem2port_ends {ds : Bytes} (whole : data = pre ++ ds) (some_ : ds ≠ []) :
    Ends (Within data) (mem2port data pre.length data.length) (.ok (portof ds)) := by
  have count : ds.length = data.length - (pre.length + 1) + 1 := by
    have := List.length_pos_of_ne_nil some_
    rw [whole, List.length_append]
    omega
  exact (digits_ends whole count 0).bind (ends_pure _ _)

theorem memcpy_ends {text : Bytes} {i : ℕ} (whole : data = pre ++ part ++ text ++ rest)
    (place : i = part.length) (room : i + text.length ≤ maxliteral) :
    Ends (Within data) (memcpy data pre.length i text.length) (.ok text) := by
  induction text generalizing part i with
  | nil => exact ends_pure _ _
  | cons b text ih =>
    rw [List.length_cons] at room
    have whole' : data = (pre ++ part) ++ b :: (text ++ rest) := by simpa using whole
    have shifted : data = pre ++ (part ++ [b]) ++ text ++ rest := by simpa using whole
    have byte := readbyte_inside whole'
    rw [List.length_append, ← place] at byte
    apply byte.bind
    have fits : i < maxliteral := by omega
    have written : Ends (Within data) (writebyte i) (.ok ()) := by
      rw [writebyte, if_pos fits]
      apply ends_access
      exact fits
    apply written.bind
    have again := ih (i := i + 1) shifted (by simp [place]) (by omega)
    exact again.bind (ends_pure _ _)

/-- The address with the literal and the port, if libuv accepts the literal. -/
def built (inet : Inet) (type : Family) (text : Bytes) (port : UInt16) : Except Stop Sockaddr :=
  match inet.pton type (cstring text) with
  | .ok bytes => .ok ⟨type, bytes.1, port, bytes.2⟩
  | .error err => .error (.raised (.system err))

variable (inet : Inet) (type : Family)

theorem setaddrliteral_ends (P : Access → Prop) (text : Bytes) (port : UInt16) :
    Ends P (do
      let na ← setaddrliteral inet (newaddress type) text
      return { na with port := port }) (built inet type text port) := by
  unfold setaddrliteral built
  change Ends P (checked (inet.pton type (cstring text)) >>= _ >>= _) _
  cases inet.pton type (cstring text) with
  | ok bytes => exact ends_pure P (⟨type, bytes.1, port, bytes.2⟩ : Sockaddr)
  | error err => exact ends_stop P _

end

/-- A string in the URI format, up to the byte before the literal, with its literal and port. -/
inductive Shaped : Family → Bytes → Bytes → Bytes → Prop
  | inet (text ds : Bytes) : Shaped .inet (text ++ ':'.toUInt8 :: ds) text ds
  | inet6 (first : UInt8) (text ds : Bytes) :
      Shaped .inet6 (first :: text ++ ']'.toUInt8 :: ':'.toUInt8 :: ds) text ds

/-- What ends the literal. -/
def closing : Family → UInt8
  | .inet => ':'.toUInt8
  | .inet6 => ']'.toUInt8

/-- How many bytes the parser takes for granted. -/
def minlength : Family → ℕ
  | .inet => 1
  | .inet6 => 3

section
variable {data pre mid text ds : Bytes} {inet : Inet} {type : Family} {c : ℕ}

theorem toolong_ends (long : maxliteral < text.length) (c start : ℕ) :
    Ends (Within data) (parsed inet type data c start text.length)
      (.error (.raised (.argument 2 "invalid URI format"))) := by
  have failed : decide (text.length ≤ maxliteral) = false := by simpa using long
  unfold parsed argcheck
  rw [failed]
  exact (ends_stop _ _).stops _

/-- What follows the check of the length. -/
theorem parsed_short (short : text.length ≤ maxliteral) (c start : ℕ) :
    parsed inet type data c start text.length = do
      match ← mem2port data (c + 1) data.length with
      | none => stop (.raised (.argument 2 "invalid port"))
      | some port =>
        let copied ← memcpy data start 0 text.length
        writebyte text.length
        let na ← setaddrliteral inet (newaddress type) copied
        return { na with port := port } := by
  have passed : decide (text.length ≤ maxliteral) = true := by simpa using short
  unfold parsed argcheck
  rw [passed]
  rfl

variable (whole : data = pre ++ text ++ mid ++ ds) (some_ : ds ≠ [])
  (place : c + 1 = (pre ++ text ++ mid).length)
include whole some_ place

theorem badport_ends (short : text.length ≤ maxliteral) (bad : portof ds = none) (start : ℕ) :
    Ends (Within data) (parsed inet type data c start text.length)
      (.error (.raised (.argument 2 "invalid port"))) := by
  rw [parsed_short short, place]
  apply (mem2port_ends whole some_).bind
  rw [bad]
  exact ends_stop _ _

theorem parsed_ends (short : text.length < maxliteral) {port : UInt16}
    (good : portof ds = some port) :
    Ends (Within data) (parsed inet type data c pre.length text.length)
      (built inet type text port) := by
  rw [parsed_short (Nat.le_of_lt short), place]
  apply (mem2port_ends whole some_).bind
  rw [good]
  have whole' : data = pre ++ [] ++ text ++ (mid ++ ds) := by simpa using whole
  apply (memcpy_ends (i := 0) whole' rfl (by omega)).bind
  have written : Ends (Within data) (writebyte text.length) (.ok ()) := by
    rw [writebyte, if_pos short]
    apply ends_access
    exact short
  apply written.bind
  exact setaddrliteral_ends inet type _ text port

/-- The final zero of the literal is written after the array. -/
theorem parsed_full (full : text.length = maxliteral) {port : UInt16}
    (good : portof ds = some port) :
    (parsed inet type data c pre.length text.length).result = .error .undefined ∧
      ¬ Every (Within data) (parsed inet type data c pre.length text.length) := by
  have whole' : data = pre ++ [] ++ text ++ (mid ++ ds) := by simpa using whole
  have copied := memcpy_ends (i := 0) whole' rfl (by omega)
  have outside : ¬ text.length < maxliteral := by omega
  rw [parsed_short (Nat.le_of_eq full), place]
  have port' := mem2port_ends whole some_
  rw [good] at port'
  constructor
  · rw [bind_ok port'.result]
    change (memcpy data pre.length 0 text.length >>= _).result = _
    rw [bind_ok copied.result]
    change (writebyte text.length >>= _).result = _
    rw [bind_error (by rw [writebyte, if_neg outside]; rfl)]
  · intro every
    have rest := (every_bind.mp every).2 _ port'.result
    have rest := (every_bind.mp rest).2 _ copied.result
    have last := every_access.mp (every_bind.mp rest).1
    exact outside last

end

section
variable {data pre part rest text ds : Bytes} {inet : Inet} {type : Family}

theorem memchr_found {c : Char} (whole : data = pre ++ part ++ c.toUInt8 :: rest)
    (absent : c.toUInt8 ∉ part) {length : ℕ} (enough : part.length < length)
    (inside : pre.length + length ≤ data.length) :
    Ends (Within data) (memchr data pre.length c length)
      (.ok (some (pre.length + part.length))) := by
  have searched : Within data (.span pre.length length) := inside
  exact (ends_access searched _).bind (scan_found whole absent enough)

theorem memchr_missing {c : Char} (whole : data = pre ++ part ++ rest)
    (absent : c.toUInt8 ∉ part) :
    Ends (Within data) (memchr data pre.length c part.length) (.ok none) := by
  have searched : Within data (.span pre.length part.length) := by
    simp [Within, whole]
  exact (ends_access searched _).bind (scan_missing whole absent)

theorem minus_of_le {a b : ℕ} (le : b ≤ a) : minus a b = a - b := if_pos le

theorem argcheck_ends {ok : Bool} (passed : ok = true) (P : Access → Prop) (index : ℕ)
    (msg : String) : Ends P (argcheck ok index msg) (.ok ()) := by
  rw [argcheck, if_pos passed]
  exact ends_pure P ()

/-- The parser finds what ends the literal. -/
theorem separator_shaped (shaped : Shaped type data text ds) (absent : closing type ∉ text)
    (some_ : ds ≠ []) :
    ∃ pre mid c, data = pre ++ text ++ mid ++ ds ∧ c + 1 = (pre ++ text ++ mid).length ∧
      Ends (Within data) (separator data type) (.ok (c, pre.length, text.length)) := by
  have positive := List.length_pos_of_ne_nil some_
  cases shaped with
  | inet =>
    refine ⟨[], [':'.toUInt8], text.length, by simp, by simp, ?_⟩
    have size : minus (text ++ ':'.toUInt8 :: ds).length 1 = text.length + ds.length := by
      rw [minus_of_le, List.length_append, List.length_cons]
      · omega
      · rw [List.length_append, List.length_cons]
        omega
    have whole : text ++ ':'.toUInt8 :: ds = [] ++ text ++ ':'.toUInt8 :: ds := rfl
    have enough : text.length < text.length + ds.length := by omega
    have found := memchr_found whole absent enough (by simp)
    rw [List.length_nil, Nat.zero_add] at found
    unfold separator
    rw [size]
    apply found.bind
    exact ends_pure _ _
  | inet6 first =>
    refine ⟨[first], [']'.toUInt8, ':'.toUInt8], text.length + 2, by simp, by simp, ?_⟩
    have size : minus (first :: text ++ ']'.toUInt8 :: ':'.toUInt8 :: ds).length 3 =
        text.length + ds.length := by
      rw [minus_of_le]
      · simp
        omega
      · simp
        omega
    have whole : first :: text ++ ']'.toUInt8 :: ':'.toUInt8 :: ds =
        [first] ++ text ++ ']'.toUInt8 :: ':'.toUInt8 :: ds := rfl
    have enough : text.length < text.length + ds.length := by omega
    have found := memchr_found whole absent enough (by simp; omega)
    have next : first :: text ++ ']'.toUInt8 :: ':'.toUInt8 :: ds =
        (first :: text ++ [']'.toUInt8]) ++ ':'.toUInt8 :: ds := by simp
    have colon := readbyte_inside next
    unfold separator
    rw [size]
    apply found.bind
    change Ends _ (readbyte _ ([first].length + text.length + 1) >>= _) _
    have index : [first].length + text.length + 1 = (first :: text ++ [']'.toUInt8]).length := by
      simp
      omega
    rw [index]
    apply colon.bind
    apply (argcheck_ends (by simp) _ _ _).bind
    rw [← index]
    have place : ([first].length + text.length + 1, 1, [first].length + text.length - 1) =
        (text.length + 2, [first].length, text.length) := by
      simp
      omega
    rw [← place]
    exact ends_pure _ _

theorem ends_of_long (long : 3 ≤ data.length) :
    ∃ first part x y, data = first :: part ++ [x, y] := by
  obtain ⟨first, most, rfl⟩ := List.exists_cons_of_length_pos (by omega : 0 < data.length)
  rw [List.length_cons] at long
  have some_ : most ≠ [] := List.ne_nil_of_length_pos (by omega)
  obtain ⟨part, y, rfl⟩ := (List.eq_nil_or_concat' most).resolve_left some_
  rw [List.length_append, List.length_singleton] at long
  have some' : part ≠ [] := List.ne_nil_of_length_pos (by omega)
  obtain ⟨part, x, rfl⟩ := (List.eq_nil_or_concat' part).resolve_left some'
  exact ⟨first, part, x, y, by simp⟩

theorem cons_of_pair (after : Bytes) (x y : UInt8) :
    ∃ d ds, after ++ [x, y] = d :: ds ∧ ds ≠ [] := by
  cases after with
  | nil => exact ⟨x, [y], rfl, nofun⟩
  | cons d after => exact ⟨d, after ++ [x, y], rfl, List.append_ne_nil_of_right_ne_nil after nofun⟩

/-- The parser raises an error if the literal does not end before a port. -/
theorem separator_unshaped (long : minlength type ≤ data.length)
    (unshaped : ∀ text ds, Shaped type data text ds → closing type ∉ text → ds = []) :
    Ends (Within data) (separator data type)
      (.error (.raised (.argument 2 "invalid URI format"))) := by
  cases type with
  | inet =>
    have some_ : data ≠ [] := List.ne_nil_of_length_pos long
    obtain ⟨part, last, rfl⟩ := (List.eq_nil_or_concat' data).resolve_left some_
    have absent : ':'.toUInt8 ∉ part := by
      intro member
      obtain ⟨text, ds, rfl, absent⟩ := List.eq_append_cons_of_mem member
      have shaped : Shaped .inet ((text ++ ':'.toUInt8 :: ds) ++ [last]) text (ds ++ [last]) := by
        rw [List.append_assoc, List.cons_append]
        exact .inet text (ds ++ [last])
      exact absurd (unshaped _ _ shaped absent) (List.append_ne_nil_of_right_ne_nil ds nofun)
    have whole : part ++ [last] = [] ++ part ++ [last] := rfl
    have size : minus (part ++ [last]).length 1 = part.length := by
      exact (minus_of_le long).trans (by simp [minlength])
    unfold separator
    rw [size]
    apply (memchr_missing whole absent).bind
    exact ends_stop _ _
  | inet6 =>
    obtain ⟨first, part, x, y, rfl⟩ := ends_of_long long
    have size : minus (first :: part ++ [x, y]).length 3 = part.length := by
      exact (minus_of_le long).trans (by simp [minlength])
    unfold separator
    rw [size]
    by_cases member : ']'.toUInt8 ∈ part
    · obtain ⟨text, after, rfl, absent⟩ := List.eq_append_cons_of_mem member
      obtain ⟨d, ds, follows, more⟩ := cons_of_pair after x y
      have same : first :: (text ++ ']'.toUInt8 :: after) ++ [x, y] =
          [first] ++ text ++ ']'.toUInt8 :: d :: ds := by simp [← follows]
      have next : [first] ++ text ++ ']'.toUInt8 :: d :: ds =
          (first :: text ++ [']'.toUInt8]) ++ d :: ds := by simp
      have other : d ≠ ':'.toUInt8 := by
        rintro rfl
        exact more (unshaped text ds (same ▸ .inet6 first text ds) absent)
      rw [same]
      have enough : text.length < (text ++ ']'.toUInt8 :: after).length := by simp
      have inside := congrArg List.length same
      have whole : [first] ++ text ++ ']'.toUInt8 :: d :: ds =
          [first] ++ text ++ ']'.toUInt8 :: (d :: ds) := rfl
      have found := memchr_found whole absent enough (by simp at inside ⊢; omega)
      apply found.bind
      change Ends _ (readbyte _ ([first].length + text.length + 1) >>= _) _
      have index : [first].length + text.length + 1 = (first :: text ++ [']'.toUInt8]).length := by
        simp
        omega
      rw [index]
      apply (readbyte_inside next).bind
      rw [argcheck, if_neg (by simp [other])]
      exact (ends_stop _ _).stops _
    · have whole : first :: part ++ [x, y] = [first] ++ part ++ [x, y] := rfl
      apply (memchr_missing whole member).bind
      exact ends_stop _ _

theorem system_address_uri (inet : Inet) (type : Family) (data : Bytes) :
    system_address inet (pushaddrtype type) (.uri data) = uri inet type data := by
  cases type with
  | inet => rfl
  | inet6 => rfl

/-- The string is not shorter than the parser takes for granted, and no literal before a port
fills the array. -/
structure Fits (type : Family) (data : Bytes) : Prop where
  long : minlength type ≤ data.length
  room : ∀ text ds, Shaped type data text ds → closing type ∉ text → Port ds →
    text.length ≠ maxliteral

theorem separator_short (short : data.length < minlength type) :
    ¬ Every (Within data) (separator data type) := by
  intro every
  cases type with
  | inet =>
    have searched := every_access.mp (every_bind.mp (every_bind.mp every).1).1
    have wraps : minus data.length 1 = 2 ^ 64 + data.length - 1 := if_neg (Nat.not_le_of_lt short)
    simp only [Within, wraps, minlength] at searched short
    omega
  | inet6 =>
    have searched := every_access.mp (every_bind.mp (every_bind.mp every).1).1
    have wraps : minus data.length 3 = 2 ^ 64 + data.length - 3 := if_neg (Nat.not_le_of_lt short)
    simp only [Within, wraps, minlength] at searched short
    omega

theorem uri_within (inet : Inet) (type : Family) (data : Bytes) :
    (∀ a ∈ (system_address inet (pushaddrtype type) (.uri data)).trace, Within data a) ↔
      Fits type data := by
  rw [system_address_uri]
  change Every (Within data) (uri inet type data) ↔ _
  constructor
  · intro every
    obtain ⟨first, rest⟩ := every_bind.mp every
    refine ⟨Nat.le_of_not_lt fun short => separator_short short first, ?_⟩
    intro text ds shaped absent port full
    obtain ⟨pre, mid, c, whole, place, found⟩ := separator_shaped shaped absent port.some_
    exact (parsed_full whole port.some_ place full (portof_port port)).2 (rest _ found.result)
  · rintro ⟨long, room⟩
    by_cases unshaped : ∀ text ds, Shaped type data text ds → closing type ∉ text → ds = []
    · exact ((separator_unshaped long unshaped).stops _).every
    · push Not at unshaped
      obtain ⟨text, ds, shaped, absent, some_⟩ := unshaped
      obtain ⟨pre, mid, c, whole, place, found⟩ := separator_shaped shaped absent some_
      refine every_bind.mpr ⟨found.every, fun x returned => ?_⟩
      cases found.result.symm.trans returned
      cases port : portof ds with
      | none =>
        by_cases fits : text.length ≤ maxliteral
        · exact (badport_ends whole some_ place fits port _).every
        · exact (toolong_ends (Nat.lt_of_not_le fits) _ _).every
      | some p =>
        have other := room text ds shaped absent (port_of_some some_ port)
        rcases Nat.lt_trichotomy text.length maxliteral with fits | full | large
        · exact (parsed_ends whole some_ place fits port).every
        · exact absurd full other
        · exact (toolong_ends large _ _).every

end

/-- The final zero of 47 digits is written after the array. -/
theorem literal_overflows : ¬ ∀ type data,
    ∀ a ∈ (system_address libuv (pushaddrtype type) (.uri data)).trace, Within data a := by
  intro all
  have within := all .inet (List.replicate 47 '0'.toUInt8 ++ literal ":80") (.write 47) (by decide +kernel)
  exact absurd within (by decide)

end Coutil.AddressBounds
