import Mathlib
import Coutil.AccessTrace
import Coutil.ByteString

set_option autoImplicit false

/-! Addresses of `src/lcommunf.c`. A string is a list of bytes with a zero after it. -/
namespace Coutil.AddressText
open AccessTrace Traced ByteString

def maxliteral : ℕ := 47

def maxport : ℕ := 65535

inductive Family where
  | inet
  | inet6
  deriving DecidableEq

def addrbinsz : Family → ℕ
  | .inet => 4
  | .inet6 => 16

/-- The functions of libuv, which may answer with an error number. -/
structure Inet where
  pton : (family : Family) → Bytes → Except ℤ {data : Bytes // data.length = addrbinsz family}
  ntop : Family → Bytes → ℕ → Except ℤ Bytes

@[ext]
structure Sockaddr where
  family : Family
  bytes : Bytes
  port : UInt16
  size : bytes.length = addrbinsz family

inductive Fault where
  | argument (index : ℕ) (msg : String)
  | system (err : ℤ)
  deriving DecidableEq

/-- Why a call has no result: it raised an error, or it accessed what is not there. -/
inductive Stop where
  | raised (fault : Fault)
  | undefined
  deriving DecidableEq

/-- Bytes of the string that are read, one by one or by `memchr`, and bytes of the array `literal`
that are written. -/
inductive Access where
  | read (index : ℕ)
  | span (start length : ℕ)
  | write (index : ℕ)
  deriving DecidableEq

abbrev Code := Traced Stop Access

def argcheck (ok : Bool) (index : ℕ) (msg : String) : Code Unit :=
  if ok then pure () else stop (.raised (.argument index msg))

/-- A result of libuv. -/
def checked {α : Type} : Except ℤ α → Code α
  | .ok x => pure x
  | .error err => stop (.raised (.system err))

/-- A difference of type `size_t`. -/
def minus (a b : ℕ) : ℕ := if b ≤ a then a - b else 2 ^ 64 + a - b

def readbyte (data : Bytes) (i : ℕ) : Code UInt8 :=
  access (.read i) (((data ++ [0])[i]?).elim (.error .undefined) .ok)

def writebyte (i : ℕ) : Code Unit :=
  access (.write i) (if i < maxliteral then .ok () else .error .undefined)

def scan (data : Bytes) (c : UInt8) : ℕ → ℕ → Code (Option ℕ)
  | _, 0 => pure none
  | i, length + 1 => do
    let b ← readbyte data i
    if b = c then pure (some i) else scan data c (i + 1) length

def memchr (data : Bytes) (start : ℕ) (c : Char) (length : ℕ) : Code (Option ℕ) := do
  access (.span start length) (.ok ())
  scan data c.toUInt8 start length

/-- The loop of `mem2port`, with so many bytes left after the current one. -/
def digits (data : Bytes) : ℕ → ℕ → ℕ → Code (Option ℕ)
  | i, n, left => do
    let d := ((← readbyte data i) - '0'.toUInt8).toInt8
    if d < 0 ∨ d > 9 then return none
    let n := n * 10 + d.toNatClampNeg
    if n > maxport then return none
    match left with
    | 0 => return some n
    | left + 1 => digits data (i + 1) n left

def mem2port (data : Bytes) (s e : ℕ) : Code (Option UInt16) := do
  return (← digits data s 0 (e - (s + 1))).map UInt16.ofNat

def int2port (n : ℤ) (index : ℕ) : Code UInt16 := do
  argcheck (0 ≤ n ∧ n ≤ maxport) index "invalid port"
  return UInt16.ofNat n.toNat

/-- Function `memcpy` to the array `literal`. -/
def memcpy (data : Bytes) (start : ℕ) : ℕ → ℕ → Code Bytes
  | _, 0 => pure []
  | i, n + 1 => do
    let b ← readbyte data (start + i)
    writebyte i
    return b :: (← memcpy data start (i + 1) n)

def pushaddrtype : Family → Bytes
  | .inet => literal "ipv4"
  | .inet6 => literal "ipv6"

/-- Function `luaL_checkoption` with the names of the types. -/
def checkoption (name : Bytes) : Code Family :=
  match [Family.inet, .inet6].find? fun type => pushaddrtype type = cstring name with
  | some type => pure type
  | none => stop (.raised (.argument 1
      ("invalid option '" ++ String.ofList ((cstring name).map fun b => Char.ofNat b.toNat) ++ "'")))

def newaddress (type : Family) : Sockaddr :=
  ⟨type, List.replicate (addrbinsz type) 0, 0, List.length_replicate⟩

section
variable (inet : Inet)

def setaddrliteral (address : Sockaddr) (data : Bytes) : Code Sockaddr := do
  let bytes ← checked (inet.pton address.family (cstring data))
  return { address with bytes := bytes.1, size := bytes.2 }

def getaddrliteral (address : Sockaddr) : Except ℤ Bytes :=
  inet.ntop address.family address.bytes maxliteral

/-- Where the last separator is in the URI format, where the literal starts and how long it is. -/
def separator (data : Bytes) : Family → Code (ℕ × ℕ × ℕ)
  | .inet => do
    match ← memchr data 0 ':' (minus data.length 1) with
    | none => stop (.raised (.argument 2 "invalid URI format"))
    | some c => pure (c, 0, c)
  | .inet6 => do
    match ← memchr data 1 ']' (minus data.length 3) with
    | none => stop (.raised (.argument 2 "invalid URI format"))
    | some c =>
      argcheck ((← readbyte data (c + 1)) = ':'.toUInt8) 2 "invalid URI format"
      return (c + 1, 1, c - 1)

def parsed (type : Family) (data : Bytes) (c start sz : ℕ) : Code Sockaddr := do
  argcheck (sz ≤ maxliteral) 2 "invalid URI format"
  match ← mem2port data (c + 1) data.length with
  | none => stop (.raised (.argument 2 "invalid port"))
  | some port =>
    let text ← memcpy data start 0 sz
    writebyte sz
    let na ← setaddrliteral inet (newaddress type) text
    return { na with port := port }

def uri (type : Family) (data : Bytes) : Code Sockaddr := do
  let (c, start, sz) ← separator data type
  parsed inet type data c start sz

def host (type : Family) (data : Bytes) (port : ℤ) (mode : Option Bytes) : Code Sockaddr := do
  let mode := cstring (mode.getD (literal "t"))
  let port ← int2port port 3
  if mode = literal "b" then
    if size : data.length = addrbinsz type then pure ⟨type, data, port, size⟩
    else stop (.raised (.argument 2 "invalid binary address"))
  else if mode = literal "t" then
    let na ← setaddrliteral inet (newaddress type) data
    return { na with port := port }
  else stop (.raised (.argument 4 "invalid mode"))

/-- The arguments after the type. -/
inductive Given where
  | nothing
  | uri (data : Bytes)
  | host (data : Bytes) (port : ℤ) (mode : Option Bytes)

def system_address (type : Bytes) (given : Given) : Code Sockaddr := do
  let type ← checkoption type
  match given with
  | .nothing => return newaddress type
  | .uri data => uri inet type data
  | .host data port mode => host inet type data port mode

def addr_tostring (na : Sockaddr) : Except ℤ Bytes := do
  let s := cstring (← getaddrliteral inet na)
  let port := literal (toString na.port.toNat)
  return match na.family with
    | .inet6 => literal "[" ++ s ++ literal "]:" ++ port
    | .inet => s ++ literal ":" ++ port

/-- The field `literal` of `addr_index`. -/
def addr_literal (na : Sockaddr) : Except ℤ Bytes := do return cstring (← getaddrliteral inet na)

end

def addr_eq (a1 a2 : Sockaddr) : Bool :=
  a1.family = a2.family && a1.port = a2.port && a1.bytes = a2.bytes

end Coutil.AddressText
