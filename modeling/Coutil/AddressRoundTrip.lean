import Coutil.AddressGrammar

set_option autoImplicit false

/-! Addresses made again from their text, literal and binary forms. -/
namespace Coutil.AddressRoundTrip
open AccessTrace Traced ByteString AddressText AddressBounds AddressNotation AddressGrammar

/-- Libuv reads the literals that it writes, which have no zero, no separator of the URI format,
and are shorter than the array. -/
structure Restores (inet : Inet) : Prop where
  restores : ∀ (type : Family) (bytes : Bytes) (size : bytes.length = addrbinsz type), ∃ text,
    inet.ntop type bytes maxliteral = .ok text ∧ inet.pton type text = .ok ⟨bytes, size⟩ ∧
      0 ∉ text ∧ closing type ∉ text ∧ text.length < maxliteral

/-- The arguments make an address that is equal to the given one. -/
def Makes (inet : Inet) (a : Sockaddr) (given : Given) : Prop :=
  ∃ na, (system_address inet (pushaddrtype a.family) given).result = .ok na ∧ addr_eq a na = true

section
variable {inet : Inet} {a : Sockaddr}

theorem addr_eq_self : addr_eq a a = true := by simp [addr_eq]

theorem digits_eq (n : ℕ) : literal (toString n) = number 10 n := by
  rw [literal, Nat.toString_eq_ofList_toDigits, String.toList_ofList]
  rfl

theorem number_digits (n : ℕ) : ∀ d ∈ number 10 n, isdigit d := by
  apply number_chars (by decide)
  decide

theorem value_digits {ds : Bytes} (digits : ∀ d ∈ ds, isdigit d) (n : ℕ) :
    value n ds = ds.foldl (fun n c => n * 10 + digitvalue c) n := by
  induction ds generalizing n with
  | nil => rfl
  | cons d ds ih =>
    obtain ⟨digit, digits⟩ := List.forall_mem_cons.mp digits
    have same : digitvalue d = d.toNat - '0'.toUInt8.toNat := if_pos digit.2
    change value (n * 10 + (d.toNat - '0'.toUInt8.toNat)) ds = _
    rw [ih digits, List.foldl_cons, same]

theorem value_number (n : ℕ) : value 0 (number 10 n) = n := by
  rw [value_digits (number_digits n)]
  exact numbervalue_number (by decide) n

theorem port_number (port : UInt16) : Port (literal (toString port.toNat)) := by
  rw [digits_eq]
  refine ⟨?_, number_digits _, ?_⟩
  · simp [number]
  · rw [value_number]
    exact Nat.le_of_lt_succ port.toNat_lt

theorem int2port_toNat (port : UInt16) (index : ℕ) :
    int2port port.toNat index = pure port := by
  have small : port.toNat ≤ maxport := Nat.le_of_lt_succ port.toNat_lt
  have fits : decide (0 ≤ (port.toNat : ℤ) ∧ (port.toNat : ℤ) ≤ maxport) = true := by
    simpa using small
  unfold int2port argcheck
  rw [fits]
  simp

theorem checkoption_type (type : Family) : checkoption (pushaddrtype type) = pure type := by
  cases type with
  | inet => rfl
  | inet6 => rfl

theorem uri_makes {text : Bytes} (taken : inet.pton a.family text = .ok ⟨a.bytes, a.size⟩)
    (whole : 0 ∉ text) (absent : closing a.family ∉ text) (fits : text.length < maxliteral)
    {data : Bytes} (shaped : Shaped a.family data text (literal (toString a.port.toNat))) :
    Makes inet a (.uri data) := by
  refine ⟨a, ?_, addr_eq_self⟩
  have port : UInt16.ofNat (value 0 (literal (toString a.port.toNat))) = a.port := by
    rw [digits_eq, value_number, UInt16.ofNat_toNat]
  rw [system_address_uri, uri_built shaped absent (port_number a.port) fits, built, cstring_eq whole,
    taken, port]

theorem literal_makes {text : Bytes} (taken : inet.pton a.family text = .ok ⟨a.bytes, a.size⟩)
    (whole : 0 ∉ text) : Makes inet a (.host text a.port.toNat none) := by
  refine ⟨a, ?_, addr_eq_self⟩
  unfold system_address
  rw [checkoption_type, pure_bind]
  change (host inet a.family text a.port.toNat none).result = _
  unfold host
  rw [int2port_toNat, pure_bind, if_neg (by decide), if_pos (by decide)]
  rw [(setaddrliteral_ends inet a.family (fun _ => True) text a.port).result, built,
    cstring_eq whole, taken]

theorem binary_makes : Makes inet a (.host a.bytes a.port.toNat (some (literal "b"))) := by
  refine ⟨a, ?_, addr_eq_self⟩
  unfold system_address
  rw [checkoption_type, pure_bind]
  change (host inet a.family a.bytes a.port.toNat (some (literal "b"))).result = _
  unfold host
  rw [int2port_toNat, pure_bind, if_pos (by decide), dif_pos a.size]
  rfl

theorem tostring_shaped {text : Bytes}
    (written : inet.ntop a.family a.bytes maxliteral = .ok text) (whole : 0 ∉ text) :
    ∃ data, addr_tostring inet a = .ok data ∧
      Shaped a.family data text (literal (toString a.port.toNat)) := by
  obtain ⟨family, bytes, port, size⟩ := a
  cases family with
  | inet =>
    refine ⟨text ++ ':'.toUInt8 :: literal (toString port.toNat), ?_, .inet text _⟩
    unfold addr_tostring getaddrliteral
    rw [written]
    change Except.ok (cstring text ++ literal ":" ++ _) = _
    rw [cstring_eq whole, List.append_assoc]
    rfl
  | inet6 =>
    refine ⟨_, ?_, .inet6 '['.toUInt8 text _⟩
    unfold addr_tostring getaddrliteral
    rw [written]
    change Except.ok (literal "[" ++ cstring text ++ literal "]:" ++ _) = _
    rw [cstring_eq whole, List.append_assoc]
    rfl

end

/-- An address is made again from its text, from its literal and port, and from its bytes and
port. -/
theorem address_restored (inet : Inet) (assumed : Restores inet) (a : Sockaddr) :
    ∃ text host, addr_tostring inet a = .ok text ∧ addr_literal inet a = .ok host ∧
      Makes inet a (.uri text) ∧ Makes inet a (.host host a.port.toNat none) ∧
      Makes inet a (.host a.bytes a.port.toNat (some (literal "b"))) := by
  obtain ⟨text, written, taken, whole, absent, fits⟩ := assumed.restores a.family a.bytes a.size
  have host : addr_literal inet a = .ok text := by
    rw [addr_literal, getaddrliteral, written]
    exact congrArg Except.ok (cstring_eq whole)
  obtain ⟨data, printed, shaped⟩ := tostring_shaped written whole
  exact ⟨data, text, printed, host, uri_makes taken whole absent fits shaped,
    literal_makes taken whole, binary_makes⟩

theorem libuv_restores : Restores libuv := by
  refine ⟨fun type bytes size => ⟨written type bytes, if_pos (written_length size), ?_, ?_, ?_,
    written_length size⟩⟩
  · have same : unparts type (groups (sep type) (base type) (written type bytes)) = bytes := by
      rw [groups_written size, unparts_parts type bytes size]
    unfold libuv
    simp only [same]
    exact dif_pos ⟨size, trivial⟩
  · apply joined_chars (base_proper type)
    · cases type with
      | inet => decide
      | inet6 => decide
    · decide
  · cases type with
    | inet => exact joined_chars (base_proper .inet) (by decide) (by decide) _
    | inet6 => exact joined_chars (base_proper .inet6) (by decide) (by decide) _

theorem address_restored_libuv : ∃ text host,
    addr_tostring libuv ⟨.inet, [192, 168, 0, 1], 8080, rfl⟩ = .ok text ∧
      addr_literal libuv ⟨.inet, [192, 168, 0, 1], 8080, rfl⟩ = .ok host ∧
      Makes libuv ⟨.inet, [192, 168, 0, 1], 8080, rfl⟩ (.uri text) ∧
      Makes libuv ⟨.inet, [192, 168, 0, 1], 8080, rfl⟩ (.host host 8080 none) ∧
      Makes libuv ⟨.inet, [192, 168, 0, 1], 8080, rfl⟩
        (.host [192, 168, 0, 1] 8080 (some (literal "b"))) :=
  address_restored libuv libuv_restores ⟨.inet, [192, 168, 0, 1], 8080, rfl⟩

end Coutil.AddressRoundTrip
