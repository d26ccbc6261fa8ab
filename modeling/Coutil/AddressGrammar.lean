import Coutil.AddressBounds

set_option autoImplicit false

/-! The strings that the parser of the URI format accepts. -/
namespace Coutil.AddressGrammar
open AccessTrace Traced ByteString AddressText AddressBounds AddressNotation

/-- The text is a C string that libuv takes for an address. -/
def Literal (inet : Inet) (type : Family) (text : Bytes) : Prop :=
  0 ∉ text ∧ ∃ bytes, inet.pton type text = .ok bytes

def Grammar (inet : Inet) : Family → Bytes → Prop
  | .inet, data => ∃ text ds, data = text ++ ':'.toUInt8 :: ds ∧ Literal inet .inet text ∧ Port ds
  | .inet6, data => ∃ text ds, data = '['.toUInt8 :: text ++ ']'.toUInt8 :: ':'.toUInt8 :: ds ∧
      Literal inet .inet6 text ∧ Port ds

/-- The strings of the grammar are accepted, and all others raise an error. -/
structure Meets (inet : Inet) (type : Family) (data : Bytes) : Prop where
  accepts : Grammar inet type data →
    ∃ na, (system_address inet (pushaddrtype type) (.uri data)).result = .ok na
  rejects : ¬ Grammar inet type data →
    ∃ fault, (system_address inet (pushaddrtype type) (.uri data)).result = .error (.raised fault)

def Opens : Family → Bytes → Prop
  | .inet, _ => True
  | .inet6, data => data.head? = some '['.toUInt8

/-- The strings that the parser does not treat as the grammar says: those without the bytes that
it takes for granted; those with a port after a literal that fills the array, that ends at a zero
byte, that has another byte before it than a bracket, that is longer than the array, or that has
a separator in it. -/
inductive Defect (inet : Inet) : Family → Bytes → Prop
  | empty : Defect inet .inet []
  | short {data : Bytes} (few : data.length < 3) (absent : ']'.toUInt8 ∉ data.drop 1) :
      Defect inet .inet6 data
  | full {type : Family} {data text ds : Bytes} (shaped : Shaped type data text ds)
      (absent : closing type ∉ text) (port : Port ds) (fills : text.length = maxliteral) :
      Defect inet type data
  | lenient {type : Family} {data text ds : Bytes} (shaped : Shaped type data text ds)
      (absent : closing type ∉ text) (port : Port ds) (fits : text.length < maxliteral)
      (taken : ∃ bytes, inet.pton type (cstring text) = .ok bytes)
      (other : 0 ∈ text ∨ ¬ Opens type data) : Defect inet type data
  | long {type : Family} {data text ds : Bytes} (shaped : Shaped type data text ds)
      (absent : closing type ∉ text) (port : Port ds) (large : maxliteral < text.length)
      (literal : Literal inet type text) (opens : Opens type data) : Defect inet type data
  | hidden {type : Family} {data text ds : Bytes} (shaped : Shaped type data text ds)
      (member : closing type ∈ text) (port : Port ds) (literal : Literal inet type text)
      (opens : Opens type data) : Defect inet type data

section
variable {inet : Inet} {type : Family} {data text ds text' ds' : Bytes}

theorem grammar_iff : Grammar inet type data ↔
    ∃ text ds, Shaped type data text ds ∧ Opens type data ∧ Literal inet type text ∧ Port ds := by
  cases type with
  | inet =>
    constructor
    · rintro ⟨text, ds, rfl, literal, port⟩
      exact ⟨text, ds, .inet text ds, trivial, literal, port⟩
    · rintro ⟨text, ds, shaped, -, literal, port⟩
      cases shaped
      exact ⟨text, ds, rfl, literal, port⟩
  | inet6 =>
    constructor
    · rintro ⟨text, ds, rfl, literal, port⟩
      exact ⟨text, ds, .inet6 _ text ds, rfl, literal, port⟩
    · rintro ⟨text, ds, shaped, opens, literal, port⟩
      cases shaped with
      | inet6 first =>
        obtain rfl := Option.some.inj opens
        exact ⟨text, ds, rfl, literal, port⟩

theorem colon_absent (port : Port ds) : ':'.toUInt8 ∉ ds := by
  intro member
  exact absurd (port.digits _ member) (by decide)

/-- A string has at most one literal and port. -/
theorem shaped_unique (shaped : Shaped type data text ds) (port : Port ds)
    (shaped' : Shaped type data text' ds') (port' : Port ds') : text = text' ∧ ds = ds' := by
  generalize same : data = data' at shaped'
  cases shaped with
  | inet =>
    cases shaped' with
    | inet => exact last_unique (colon_absent port) (colon_absent port') same
  | inet6 first =>
    cases shaped' with
    | inet6 first' =>
      have ends (b : UInt8) (xs ys : Bytes) : b :: xs ++ ']'.toUInt8 :: ':'.toUInt8 :: ys =
          (b :: xs ++ [']'.toUInt8]) ++ ':'.toUInt8 :: ys := by simp
      rw [ends, ends] at same
      obtain ⟨front, tail⟩ := last_unique (colon_absent port) (colon_absent port') same
      exact ⟨(List.cons.inj (List.append_cancel_right front)).2, tail⟩

/-- How the parser ends once it found a separator. -/
theorem uri_parsed (shaped : Shaped type data text ds) (absent : closing type ∉ text)
    (some_ : ds ≠ []) : ∃ pre mid c, data = pre ++ text ++ mid ++ ds ∧
      c + 1 = (pre ++ text ++ mid).length ∧
      (uri inet type data).result = (parsed inet type data c pre.length text.length).result := by
  obtain ⟨pre, mid, c, whole, place, found⟩ := separator_shaped shaped absent some_
  refine ⟨pre, mid, c, whole, place, ?_⟩
  change (separator data type >>= _).result = _
  rw [bind_ok found.result]

theorem uri_built (shaped : Shaped type data text ds) (absent : closing type ∉ text)
    (port : Port ds) (fits : text.length < maxliteral) :
    (uri inet type data).result = built inet type text (UInt16.ofNat (value 0 ds)) := by
  obtain ⟨pre, mid, c, whole, place, same⟩ := uri_parsed shaped absent port.some_
  rw [same]
  exact (parsed_ends whole port.some_ place fits (portof_port port)).result

theorem uri_full (shaped : Shaped type data text ds) (absent : closing type ∉ text)
    (port : Port ds) (fills : text.length = maxliteral) :
    (uri inet type data).result = .error .undefined := by
  obtain ⟨pre, mid, c, whole, place, same⟩ := uri_parsed shaped absent port.some_
  rw [same]
  exact (parsed_full whole port.some_ place fills (portof_port port)).1

theorem uri_long (shaped : Shaped type data text ds) (absent : closing type ∉ text)
    (some_ : ds ≠ []) (large : maxliteral < text.length) :
    (uri inet type data).result = .error (.raised (.argument 2 "invalid URI format")) := by
  obtain ⟨pre, mid, c, whole, place, same⟩ := uri_parsed shaped absent some_
  rw [same]
  exact (toolong_ends large c pre.length).result

theorem uri_badport (shaped : Shaped type data text ds) (absent : closing type ∉ text)
    (some_ : ds ≠ []) (bad : ¬ Port ds) :
    ∃ fault, (uri inet type data).result = .error (.raised fault) := by
  obtain ⟨pre, mid, c, whole, place, same⟩ := uri_parsed shaped absent some_
  rw [same]
  by_cases fits : text.length ≤ maxliteral
  · have none_ : portof ds = none := by
      cases good : portof ds with
      | none => rfl
      | some port => exact absurd (port_of_some some_ good) bad
    exact ⟨_, (badport_ends whole some_ place fits none_ pre.length).result⟩
  · exact ⟨_, (toolong_ends (Nat.lt_of_not_le fits) c pre.length).result⟩

theorem uri_unshaped (long : minlength type ≤ data.length)
    (unshaped : ∀ text ds, Shaped type data text ds → closing type ∉ text → ds = []) :
    ∃ fault, (uri inet type data).result = .error (.raised fault) :=
  ⟨_, ((separator_unshaped long unshaped).stops _).result⟩

theorem memchr_outside {pre part : Bytes} {c : Char} (whole : data = pre ++ part)
    (absent : c.toUInt8 ∉ part) (nonzero : c.toUInt8 ≠ 0) {length : ℕ}
    (long : part.length + 2 ≤ length) :
    (memchr data pre.length c length).result = .error .undefined := by
  unfold memchr
  rw [bind_ok rfl]
  exact scan_outside whole absent nonzero long

theorem uri_empty : (uri inet .inet []).result = .error .undefined := rfl

/-- A string with less than three bytes has no literal for IPv6. -/
theorem uri_short (few : data.length < 3) :
    (uri inet .inet6 data).result = if ']'.toUInt8 ∈ data.drop 1
      then .error (.raised (.argument 2 "invalid URI format")) else .error .undefined := by
  cases data with
  | nil => rfl
  | cons first data =>
    rw [List.drop_one, List.tail_cons]
    by_cases member : ']'.toUInt8 ∈ data
    · rw [if_pos member]
      cases data with
      | nil => cases member
      | cons second data =>
        have last : data = [] := by
          rw [List.length_cons, List.length_cons] at few
          exact List.length_eq_zero_iff.mp (by omega)
        subst data
        rw [List.mem_singleton] at member
        subst second
        rfl
    · have whole : first :: data = [first] ++ data := rfl
      have wraps : minus (first :: data).length 3 = 2 ^ 64 + (first :: data).length - 3 :=
        if_neg (Nat.not_le_of_lt few)
      have long : data.length + 2 ≤ minus (first :: data).length 3 := by
        rw [List.length_cons] at few wraps ⊢
        omega
      have stopped : (memchr (first :: data) 1 ']' (minus (first :: data).length 3)).result =
          .error .undefined := memchr_outside whole member (by decide) long
      rw [if_neg member]
      change (memchr (first :: data) 1 ']' (minus (first :: data).length 3) >>= _ >>= _).result = _
      rw [bind_error stopped, bind_error rfl]

end

section
variable {inet : Inet} {type : Family} {data text ds : Bytes}

/-- A string that is too short for a literal and a port is not accepted. -/
theorem uri_few (few : data.length < minlength type) :
    ∃ e, (uri inet type data).result = .error e := by
  cases type with
  | inet =>
    obtain rfl : data = [] := List.length_eq_zero_iff.mp (Nat.lt_one_iff.mp few)
    exact ⟨_, uri_empty⟩
  | inet6 =>
    rw [uri_short few]
    by_cases member : ']'.toUInt8 ∈ data.drop 1
    · exact ⟨_, if_pos member⟩
    · exact ⟨_, if_neg member⟩

theorem uri_accepts {na : Sockaddr} (accepted : (uri inet type data).result = .ok na) :
    ∃ text ds, Shaped type data text ds ∧ closing type ∉ text ∧ Port ds := by
  by_cases long : minlength type ≤ data.length
  · by_cases unshaped : ∀ text ds, Shaped type data text ds → closing type ∉ text → ds = []
    · obtain ⟨fault, raised⟩ := uri_unshaped long unshaped
      cases raised.symm.trans accepted
    · push Not at unshaped
      obtain ⟨text, ds, shaped, absent, some_⟩ := unshaped
      by_cases port : Port ds
      · exact ⟨text, ds, shaped, absent, port⟩
      · obtain ⟨fault, raised⟩ := uri_badport shaped absent some_ port
        cases raised.symm.trans accepted
  · obtain ⟨e, stopped⟩ := uri_few (Nat.lt_of_not_le long)
    cases stopped.symm.trans accepted

/-- No defect is treated as the grammar says. -/
theorem defect_fails (defect : Defect inet type data)
    (accepts : Grammar inet type data → ∃ na, (uri inet type data).result = .ok na)
    (rejects : ¬ Grammar inet type data →
      ∃ fault, (uri inet type data).result = .error (.raised fault)) : False := by
  have defined (stopped : (uri inet type data).result = .error .undefined) : False := by
    by_cases grammar : Grammar inet type data
    · obtain ⟨na, result⟩ := accepts grammar
      cases stopped.symm.trans result
    · obtain ⟨fault, result⟩ := rejects grammar
      cases stopped.symm.trans result
  cases defect with
  | empty => exact defined uri_empty
  | short few absent => exact defined (by rw [uri_short few, if_neg absent])
  | full shaped absent port fills => exact defined (uri_full shaped absent port fills)
  | @lenient _ _ text ds shaped absent port fits taken other =>
    have ungrammatical : ¬ Grammar inet type data := by
      intro grammar
      obtain ⟨text', ds', shaped', opens, literal, port'⟩ := grammar_iff.mp grammar
      obtain ⟨rfl, -⟩ := shaped_unique shaped port shaped' port'
      exact other.elim literal.1 fun closed => closed opens
    obtain ⟨bytes, taken⟩ := taken
    obtain ⟨fault, result⟩ := rejects ungrammatical
    rw [uri_built shaped absent port fits, built, taken] at result
    cases result
  | @long _ _ text ds shaped absent port large literal opens =>
    obtain ⟨na, result⟩ := accepts (grammar_iff.mpr ⟨text, ds, shaped, opens, literal, port⟩)
    rw [uri_long shaped absent port.some_ large] at result
    cases result
  | @hidden _ _ text ds shaped member port literal opens =>
    obtain ⟨na, result⟩ := accepts (grammar_iff.mpr ⟨text, ds, shaped, opens, literal, port⟩)
    obtain ⟨text', ds', shaped', absent, port'⟩ := uri_accepts result
    obtain ⟨rfl, -⟩ := shaped_unique shaped port shaped' port'
    exact absent member

theorem grammar_accepted (defect : ¬ Defect inet type data) (grammar : Grammar inet type data) :
    ∃ na, (uri inet type data).result = .ok na := by
  obtain ⟨text, ds, shaped, opens, literal, port⟩ := grammar_iff.mp grammar
  have absent : closing type ∉ text := fun member => defect (.hidden shaped member port literal opens)
  have fits : text.length < maxliteral := by
    rcases Nat.lt_trichotomy text.length maxliteral with fits | fills | large
    · exact fits
    · exact absurd (.full shaped absent port fills) defect
    · exact absurd (.long shaped absent port large literal opens) defect
  obtain ⟨whole, bytes, taken⟩ := literal
  rw [uri_built shaped absent port fits, built, cstring_eq whole, taken]
  exact ⟨_, rfl⟩

theorem other_rejected (defect : ¬ Defect inet type data) (other : ¬ Grammar inet type data) :
    ∃ fault, (uri inet type data).result = .error (.raised fault) := by
  by_cases long : minlength type ≤ data.length
  · by_cases unshaped : ∀ text ds, Shaped type data text ds → closing type ∉ text → ds = []
    · exact uri_unshaped long unshaped
    · push Not at unshaped
      obtain ⟨text, ds, shaped, absent, some_⟩ := unshaped
      by_cases port : Port ds
      · rcases Nat.lt_trichotomy text.length maxliteral with fits | fills | large
        · rw [uri_built shaped absent port fits, built]
          cases taken : inet.pton type (cstring text) with
          | error err => exact ⟨_, rfl⟩
          | ok bytes =>
            have strict : 0 ∉ text ∧ Opens type data := by
              by_contra lenient
              have spoiled : 0 ∈ text ∨ ¬ Opens type data := by
                by_cases zero : 0 ∈ text
                · exact Or.inl zero
                · exact Or.inr fun opens => lenient ⟨zero, opens⟩
              exact defect (.lenient shaped absent port fits ⟨bytes, taken⟩ spoiled)
            rw [cstring_eq strict.1] at taken
            exact absurd (grammar_iff.mpr ⟨text, ds, shaped, strict.2, ⟨strict.1, bytes, taken⟩, port⟩)
              other
        · exact absurd (.full shaped absent port fills) defect
        · exact ⟨_, uri_long shaped absent some_ large⟩
      · exact uri_badport shaped absent some_ port
  · have few := Nat.lt_of_not_le long
    cases type with
    | inet =>
      obtain rfl : data = [] := List.length_eq_zero_iff.mp (Nat.lt_one_iff.mp few)
      exact absurd .empty defect
    | inet6 =>
      by_cases member : ']'.toUInt8 ∈ data.drop 1
      · exact ⟨_, (uri_short few).trans (if_pos member)⟩
      · exact absurd (.short few member) defect

end

/-- The strings of the grammar are accepted and no others if and only if none of the defects is
met. -/
theorem uri_grammar (inet : Inet) (type : Family) (data : Bytes) :
    Meets inet type data ↔ ¬ Defect inet type data := by
  constructor
  · rintro ⟨accepts, rejects⟩ defect
    rw [system_address_uri] at accepts rejects
    exact defect_fails defect accepts rejects
  · intro defect
    refine ⟨fun grammar => ?_, fun other => ?_⟩
    · rw [system_address_uri]
      exact grammar_accepted defect grammar
    · rw [system_address_uri]
      exact other_rejected defect other

/-- The byte before a literal of IPv6 is not looked at. -/
theorem bracket_unchecked : ¬ ∀ data, Meets libuv .inet6 data := by
  intro all
  have ungrammatical : ¬ Grammar libuv .inet6 (literal "x1:2:3:4:5:6:7:8]:80") := by
    rintro ⟨text, ds, same, -⟩
    exact absurd (List.cons.inj same).1 (by decide)
  obtain ⟨fault, raised⟩ := (all _).rejects ungrammatical
  have accepted : (system_address libuv (pushaddrtype .inet6)
      (.uri (literal "x1:2:3:4:5:6:7:8]:80"))).result.toBool = true := by decide +kernel
  rw [raised] at accepted
  cases accepted

end Coutil.AddressGrammar
