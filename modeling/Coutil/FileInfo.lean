import Coutil.ByteString
import Mathlib.Data.Int.Notation

set_option autoImplicit false

/-! Function `system.fileinfo` of `src/lfilef.c`, blocking and awaiting. -/
namespace Coutil.FileInfo
open ByteString

abbrev Bits := BitVec 32

def INFO_READLINK : Bits := 0x01
def INFO_REALPATH : Bits := 0x02
def INFO_STATFS : Bits := 0x04
def INFO_STAT : Bits := 0x08
def INFO_LSTAT : Bits := 0x10
def INFO_NOYIELD : Bits := 0x20
def INFO_SRCMASK : Bits := 0x0f
def INFO_BITMASK : Bits := 0x3f
def INFO_BITCOUNT : ℕ := 6

def UV_EINVAL : ℤ := -22
def UV_EAI_FAIL : ℤ := -3004

/-- What libuv is asked for. -/
inductive Query where
  | stat
  | lstat
  | statfs
  | realpath
  | readlink
  deriving DecidableEq

structure Filestat where
  st_mode : ℕ
  st_dev : ℕ
  st_ino : ℕ
  st_nlink : ℕ
  st_uid : ℕ
  st_gid : ℕ
  st_rdev : ℕ
  st_size : ℕ
  st_blksize : ℕ
  st_blocks : ℕ
  st_flags : ℕ
  st_gen : ℕ
  st_atim : ℤ × ℤ
  st_mtim : ℤ × ℤ
  st_ctim : ℤ × ℤ
  st_birthtim : ℤ × ℤ

structure Filesys where
  f_type : ℕ
  f_bsize : ℕ
  f_blocks : ℕ
  f_bfree : ℕ
  f_bavail : ℕ
  f_files : ℕ
  f_ffree : ℕ

/-- A request after its query. -/
structure Filereq where
  result : ℤ
  ptr : Bytes
  statfs : Filesys
  statbuf : Filestat

/-- Values on the stack. A number is given by its seconds and nanoseconds. -/
inductive Value where
  | nil
  | boolean (b : Bool)
  | integer (n : ℤ)
  | number (time : ℤ × ℤ)
  | string (text : Bytes)
  | text (mode : List Char)
  | request (filereq : Filereq)
  | sched
  | setup

abbrev Stack := List Value

def index (L : Stack) (idx : ℕ) : Value := L.getD (idx - 1) .nil

def settop (L : Stack) (top : ℕ) : Stack := L.take top ++ List.replicate (top - L.length) .nil

def replace (L : Stack) (idx : ℕ) : Stack := (L.set (idx - 1) (index L L.length)).dropLast

def remove (L : Stack) (idx : ℕ) : Stack := L.eraseIdx (idx - 1)

def tointeger : Value → Bits
  | .integer n => BitVec.ofInt 32 n
  | _ => 0

def placeat (L : Stack) (idx : ℕ) : Stack :=
  let top := L.length
  if idx < top then replace L idx
  else if idx > top then settop L (idx - 1) ++ [index (settop L (idx - 1)) top]
  else L

/-- The cast of a `uint64_t` to `lua_Integer`. -/
def luainteger (n : ℕ) : ℤ := (BitVec.ofNat 64 n).toInt

def pushfiletype (type : ℕ) : Bytes :=
  literal (match type with
    | 0o140000 => "socket"
    | 0o120000 => "link"
    | 0o100000 => "file"
    | 0o060000 => "block"
    | 0o040000 => "directory"
    | 0o020000 => "character"
    | 0o010000 => "pipe"
    | _ => "unknown")

def pushfilestat (mode : Char) (filereq : Filereq) : Option Value :=
  let st := filereq.statbuf
  let flag (bit : ℕ) : Option Value := some (.boolean (st.st_mode &&& bit ≠ 0))
  match mode with
  | '?' => some (.string (pushfiletype (st.st_mode &&& 0o170000)))
  | 'U' => flag 0o4000
  | 'G' => flag 0o2000
  | 'S' => flag 0o1000
  | 'r' => flag 0o400
  | 'w' => flag 0o200
  | 'x' => flag 0o100
  | 'R' => flag 0o040
  | 'W' => flag 0o020
  | 'X' => flag 0o010
  | '4' => flag 0o004
  | '2' => flag 0o002
  | '1' => flag 0o001
  | 'M' => some (.integer (luainteger st.st_mode))
  | 'D' => some (.integer (luainteger st.st_dev))
  | '#' => some (.integer (luainteger st.st_ino))
  | '*' => some (.integer (luainteger st.st_nlink))
  | 'u' => some (.integer (luainteger st.st_uid))
  | 'g' => some (.integer (luainteger st.st_gid))
  | 'd' => some (.integer (luainteger st.st_rdev))
  | 'B' => some (.integer (luainteger st.st_size))
  | 'i' => some (.integer (luainteger st.st_blksize))
  | 'b' => some (.integer (luainteger st.st_blocks))
  | '_' => some (.integer (luainteger st.st_flags))
  | 'v' => some (.integer (luainteger st.st_gen))
  | 'a' => some (.number st.st_atim)
  | 'm' => some (.number st.st_mtim)
  | 's' => some (.number st.st_ctim)
  | 'c' => some (.number st.st_birthtim)
  | _ => none

section
variable (pushfilesystype : ℕ → Bytes)

def pushfilesys (mode : Char) (filereq : Filereq) : Option Value :=
  let fs := filereq.statfs
  match mode with
  | '@' => some (.string (pushfilesystype fs.f_type))
  | 'N' => some (.integer (luainteger fs.f_type))
  | 'I' => some (.integer (luainteger fs.f_bsize))
  | 'T' => some (.integer (luainteger fs.f_blocks))
  | 'F' => some (.integer (luainteger fs.f_bfree))
  | 'A' => some (.integer (luainteger fs.f_bavail))
  | 't' => some (.integer (luainteger fs.f_files))
  | 'f' => some (.integer (luainteger fs.f_ffree))
  | _ => none

def pushrealpath (mode : Char) (filereq : Filereq) : Option Value :=
  if mode = 'p' then some (.string (cstring filereq.ptr)) else none

def pushreadlink (mode : Char) (filereq : Filereq) : Option Value :=
  if mode = '=' then
    some (if filereq.result = UV_EINVAL then .nil else .string (cstring filereq.ptr))
  else none

/-- The loop over the characters from one on. -/
def pushchars (push : Char → Option Value) (base : ℕ) : ℕ → List Char → Stack → Stack
  | _, [], L => L
  | i, c :: mode, L =>
    match push c with
    | some v => pushchars push base (i + 1) mode (placeat (L ++ [v]) (i + 1 + base))
    | none => pushchars push base (i + 1) mode L

def pushfileinfo (L : Stack) (base : ℕ) (bits : Bits) (mode : List Char) (filereq : Filereq) :
    Stack :=
  let source := bits >>> INFO_BITCOUNT
  if source = INFO_READLINK then pushchars (pushreadlink · filereq) base 0 mode L
  else if source = INFO_REALPATH then pushchars (pushrealpath · filereq) base 0 mode L
  else if source = INFO_STATFS then pushchars (pushfilesys pushfilesystype · filereq) base 0 mode L
  else if source = INFO_STAT then pushchars (pushfilestat · filereq) base 0 mode L
  else L

inductive Error where
  | mode (msg : String)
  | system (err : ℤ)

def statchars : List Char :=
  ['?', 'U', 'G', 'S', 'r', 'w', 'x', 'R', 'W', 'X', '4', '2', '1', 'M', 'D', '#', '*', 'u', 'g', 'd',
    'B', 'i', 'b', '_', 'v', 'a', 'm', 's', 'c']

def statfschars : List Char := ['@', 'N', 'I', 'T', 'F', 'A', 't', 'f']

def toinfosrc (mode : Char) (mask : Bits) : Except Error Bits :=
  let misplaced : Except Error Bits :=
    .error (.mode ("'" ++ mode.toString ++ "' must be in the begin of 'mode'"))
  if mode ∈ statchars then .ok INFO_STAT
  else if mode ∈ statfschars then .ok INFO_STATFS
  else if mode = 'p' then .ok INFO_REALPATH
  else if mode = '=' then .ok INFO_READLINK
  else if mode = 'l' then if mask &&& INFO_LSTAT = 0 then .ok 0 else misplaced
  else if mode = '~' then misplaced
  else .ok 0

def checkprefixflags (mask : Bits) : List Char → Bits → List Char × Bits
  | [], bits => ([], bits)
  | c :: mode, bits =>
    if c = '~' then checkprefixflags mask mode (bits ||| INFO_NOYIELD)
    else if c = 'l' ∧ mask &&& INFO_LSTAT ≠ 0 then checkprefixflags mask mode (bits ||| INFO_LSTAT)
    else (c :: mode, bits)

/-- The loop of `checkinfomode`. -/
def checkchars (mask : Bits) : List Char → Bits → Except Error Bits
  | [], bits => .ok bits
  | c :: mode, bits => do
    let sel ← toinfosrc c mask
    if sel &&& mask ≠ 0 then checkchars mask mode (bits ||| sel)
    else .error (.mode ("unknown mode char (got '" ++ c.toString ++ "')"))

/-- The characters after the flags, and the bits. -/
def checkinfomode (mode : List Char) (mask : Bits) : Except Error (List Char × Bits) := do
  let (mode, bits) := checkprefixflags mask (mode.takeWhile fun c => c ≠ Char.ofNat 0) 0
  return (mode, ← checkchars mask mode bits)

def missinfosrc (bits src : Bits) : Option Bits :=
  if bits &&& src ≠ 0 then some ((src <<< INFO_BITCOUNT) ||| ((bits &&& ~~~src) &&& INFO_BITMASK))
  else none

def getinfosrc (bits : Bits) : Option (Query × Bits) :=
  match missinfosrc bits INFO_STAT with
  | some bits => some (if bits &&& INFO_LSTAT ≠ 0 then .lstat else .stat, bits)
  | none =>
    match missinfosrc bits INFO_STATFS with
    | some bits => some (.statfs, bits)
    | none =>
      match missinfosrc bits INFO_REALPATH with
      | some bits => some (.realpath, bits)
      | none => (missinfosrc bits INFO_READLINK).map fun bits => (.readlink, bits)

inductive Outcome where
  | returned (values : List Value)
  | raised (err : Error)
  | running

variable (disk : Query → Filereq)

/-- The loop with blocking queries, and what was queried. -/
def blocking (mode : List Char) : ℕ → Bits → Stack → List Query → Outcome × List Query
  | 0, _, _, log => (.running, log)
  | fuel + 1, bits, L, log =>
    if bits &&& INFO_SRCMASK = 0 then (.returned (L.drop 2), log)
    else
      match getinfosrc bits with
      | none => (.raised (.system UV_EAI_FAIL), log)
      | some (query, bits) =>
        let filereq := disk query
        let err := if query = .readlink ∧ filereq.result = UV_EINVAL then 0 else filereq.result
        if err < 0 then (.raised (.system err), log ++ [query])
        else blocking mode fuel bits (pushfileinfo pushfilesystype L 2 bits mode filereq)
          (log ++ [query])

/-- A coroutine that awaits a query has the stack that it left. -/
inductive Await where
  | suspended (L : Stack) (query : Query)
  | finished (outcome : Outcome)

def yieldfileinfo (L : Stack) : Await :=
  let bits := tointeger (index L 3)
  if bits &&& INFO_SRCMASK ≠ 0 then
    match getinfosrc bits with
    | none => .finished (.raised (.system UV_EAI_FAIL))
    | some (query, bits) => .suspended (replace (L ++ [.integer bits.toInt]) 3 ++ [.sched]) query
  else .finished (.returned (L.drop 4))

def returnfileinfo (L : Stack) : Await :=
  let bits := tointeger (index L 3)
  match index L L.length, index L 4 with
  | .request filereq, .text mode =>
    let L := L.dropLast
    if filereq.result ≥ 0 ∨
        (bits &&& (INFO_READLINK <<< INFO_BITCOUNT) ≠ 0 ∧ filereq.result = UV_EINVAL) then
      yieldfileinfo (pushfileinfo pushfilesystype L 4 bits mode filereq)
    else .finished (.raised (.system filereq.result))
  | _, _ => .finished (.raised (.system UV_EAI_FAIL))

/-- A coroutine is resumed with values on the stack that it left. -/
def k_endop (L : Stack) (answers : List Value) : Stack := remove (L ++ answers) L.length

/-- Another operation of the coroutine has to end before the first query. -/
def k_resetopk (L : Stack) (answers : List Value) : Stack :=
  let yielded := L ++ [.sched, .setup, .boolean true]
  settop (yielded ++ answers) (yielded.length - 3)

def awaiting : ℕ → Await → List Query → Outcome × List Query
  | 0, _, log => (.running, log)
  | _ + 1, .finished outcome, log => (outcome, log)
  | fuel + 1, .suspended L query, log =>
    awaiting fuel (returnfileinfo pushfilesystype (k_endop L [.request (disk query)])) (log ++ [query])

def system_fileinfo (busy : Option (List Value)) (fuel : ℕ) (path : Bytes) (mode : List Char) :
    Outcome × List Query :=
  match checkinfomode mode (INFO_LSTAT ||| INFO_SRCMASK) with
  | .error err => (.raised err, [])
  | .ok (chars, bits) =>
    let L := [.string path, .text mode]
    if bits &&& INFO_NOYIELD ≠ 0 then blocking pushfilesystype disk chars fuel bits L []
    else
      let L := L ++ [.integer bits.toInt, .text chars]
      let L := busy.elim L (k_resetopk L)
      awaiting pushfilesystype disk fuel (yieldfileinfo L) []

end

end Coutil.FileInfo
