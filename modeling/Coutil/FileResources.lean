import Coutil.FileInfo
import Coutil.FoundAddresses
import Coutil.Operation

set_option autoImplicit false

/-! What libuv hands out to `src/lfilef.c` and `system.findaddr` of `src/lcommunf.c`: descriptors,
the internals of requests and lists of addresses. The setup functions, the callbacks and the
results functions, with the Lua objects that keep what they are given. -/
namespace Coutil.FileResources
open Operation
open FoundAddresses (Addresses AddressList)

/-- A file request in the hands of a results function. -/
structure Filereq where
  block : Option ℕ
  result : ℤ
  path : List Char
  deriving DecidableEq

inductive Value where
  | nil
  | boolean (b : Bool)
  | integer (n : ℤ)
  | string (text : List Char)
  /-- The text of `uv_strerror`. -/
  | strerror (err : ℤ)
  | mode (chars : List Char)
  | sched
  | file (f : ℕ)
  | found (l : ℕ)
  | filereq (req : Filereq)
  | addrinfo (results : Option Addresses)
  deriving DecidableEq

abbrev Stack := List Value

def index (L : Stack) (idx : ℕ) : Value := L.getD (idx - 1) .nil

def settop (L : Stack) (top : ℕ) : Stack := L.take top ++ List.replicate (top - L.length) .nil

inductive Resource where
  | descriptor (fd : ℕ)
  | internals (block : ℕ)
  | addresses (block : ℕ)
  deriving DecidableEq

/-- A userdata of `LCU_FILECLS`. It has no metatable before it is given a descriptor. -/
structure File where
  metatable : Bool
  fd : ℤ
  deriving DecidableEq

/-- A userdata of `LCU_NETADDRLISTCLS`, with its pointers. -/
structure Found where
  metatable : Bool
  list : AddressList
  deriving DecidableEq

/-- What libuv is asked for. No descriptor comes out of the other requests or goes away. -/
inductive Query where
  | openfile
  | mkstemp
  | mkdtemp
  | close (fd : ℕ)
  | getaddrinfo
  | other
  deriving DecidableEq

inductive Callback where
  | on_fileopen
  | on_fileinfo
  | on_fileopdone
  | uv_onresolved
  deriving DecidableEq

/-- The outcome of a request. -/
structure Done where
  result : ℤ
  path : List Char
  results : Option Addresses
  deriving DecidableEq

/-- A request that libuv has, with the outcome once it is done and not yet called back. -/
structure Flight where
  query : Query
  callback : Callback
  block : Option ℕ
  done : Option Done
  deriving DecidableEq

inductive Failure where
  /-- What is released is not there to be released. -/
  | release (resource : Resource)
  /-- A descriptor that is not open is given to libuv. -/
  | descriptor (fd : ℤ)
  /-- Addresses are read that were released. -/
  | addresses (block : ℕ)
  | touserdata
  | returnmktmp
  | found (failure : FoundAddresses.Failure)
  | op (site : Site)
  deriving DecidableEq

/-- What libuv, the memory and the disk decide in a step: what the call that starts a request, or
a blocking one, returns; whether the arguments are accepted that are not modelled; which
allocations succeed; whether libuv copied the path of a blocking request that failed; what a
blocking request produced; the values of the attributes of a file. -/
structure Env where
  err : ℤ
  accepted : Bool
  memory : ℕ → Bool
  copied : Bool
  path : List Char
  values : List Value

section
variable {T : Type} [DecidableEq T]

structure World (T : Type) where
  files : List File
  lists : List Found
  flight : T → Option Flight
  /-- The number of file requests so far, which tells their internals apart. -/
  blocks : ℕ
  resources : List Resource

structure View (T : Type) where
  world : World T
  env : Env

def UV_EAFNOSUPPORT : ℤ := -97

def World.without (w : World T) (resource : Resource) : World T :=
  { w with resources := w.resources.filter (· ≠ resource) }

def World.release (w : World T) (resource : Resource) : Except Failure (World T) :=
  if resource ∈ w.resources then .ok (w.without resource) else .error (.release resource)

/-- A call of libuv with this descriptor. -/
def World.given (w : World T) (fd : ℤ) : Except Failure Unit :=
  if .descriptor fd.toNat ∈ w.resources ∧ 0 ≤ fd then .ok () else .error (.descriptor fd)

def World.setfile (w : World T) (f : ℕ) (file : File) : World T :=
  { w with files := w.files.set f file }

def World.setlist (w : World T) (l : ℕ) (found : Found) : World T :=
  { w with lists := w.lists.set l found }

def World.setflight (w : World T) (x : T) (flight : Option Flight) : World T :=
  { w with flight := Function.update w.flight x flight }

def World.newfile (w : World T) : World T := { w with files := w.files ++ [⟨false, -1⟩] }

def World.newlist (w : World T) : World T := { w with lists := w.lists ++ [⟨false, none, 0⟩] }

/-- Libuv opened a descriptor. -/
def World.openfd (w : World T) (fd : ℤ) : World T :=
  { w with resources := .descriptor fd.toNat :: w.resources }

/-- Libuv allocated something for a request. -/
def World.newblock (w : World T) : World T :=
  { w with blocks := w.blocks + 1, resources := .internals w.blocks :: w.resources }

/-- A file request that libuv accepted. -/
def World.fsrequest (w : World T) (x : T) (query : Query) (callback : Callback) : World T :=
  w.newblock.setflight x (some ⟨query, callback, some w.blocks, none⟩)

def uv_fs_req_cleanup (w : World T) (block : Option ℕ) : Except Failure (World T) :=
  match block with
  | none => .ok w
  | some block => w.release (.internals block)

def uv_freeaddrinfo (w : World T) (results : Option Addresses) : Except Failure (World T) :=
  match results with
  | none => .ok w
  | some results => w.release (.addresses results.block)

/-- A blocking `uv_fs_close`. The system releases the descriptor also when it reports an error. -/
def uv_fs_close (w : World T) (fd : ℤ) : Except Failure (World T) := do
  w.given fd
  w.release (.descriptor fd.toNat)

def pusherrres (err : ℤ) : List Value := [.boolean false, .strerror err, .integer (-err)]

/-- `luaL_checkstring` accepts numbers too. -/
def Value.isstring : Value → Bool
  | .string _ | .integer _ => true
  | _ => false

def Value.tointeger : Value → ℤ
  | .integer n => n
  | _ => 0

/-- Strings are given by the characters that a C function reads. -/
def cstring (text : List Char) : List Char := text.takeWhile (· ≠ Char.ofNat 0)

/-! File objects. -/

def checkfile (w : World T) (L : Stack) : Option (ℕ × File) :=
  match index L 1 with
  | .file f => ((w.files[f]?).filter File.metatable).map fun file => (f, file)
  | _ => none

def openedfile (w : World T) (L : Stack) : Option (ℕ × File) :=
  (checkfile w L).filter fun found => 0 ≤ found.2.fd

def file_gc (w : World T) (env : Env) (f : ℕ) : Except Failure (World T) :=
  match (w.files[f]?).filter File.metatable with
  | none => .ok w
  | some file =>
    if 0 ≤ file.fd then do
      let closed ← uv_fs_close w file.fd
      pure (if 0 ≤ env.err then closed.setfile f { file with fd := -1 } else closed)
    else .ok w

/-! The setup functions, each with what it asks libuv for. -/

def k_setupfile (x : T) (w : World T) (env : Env) (L : Stack) :
    Except Failure (Setup Value × World T) :=
  if !(index L 1).isstring then .ok (.error, w)
  else if env.err < 0 then .ok (.armerror (pusherrres env.err), w)
  else .ok (.armed (L.take (L.length - 2)), w.fsrequest x .openfile .on_fileopen)

def isuserdata : Value → Bool
  | .mode _ | .sched | .file _ | .found _ | .filereq _ | .addrinfo _ => true
  | _ => false

def k_setupmktmp (x : T) (w : World T) (env : Env) (L : Stack) :
    Except Failure (Setup Value × World T) :=
  if env.err < 0 then .ok (.armerror (pusherrres env.err), w)
  else
    let query := if isuserdata (index L 3) then Query.mkstemp else .mkdtemp
    .ok (.armed L, w.fsrequest x query .on_fileinfo)

def bitsof (v : Value) : FileInfo.Bits := BitVec.ofInt 32 v.tointeger

def k_setupfileinfo (x : T) (w : World T) (env : Env) (L : Stack) :
    Except Failure (Setup Value × World T) :=
  if !(index L 1).isstring then .ok (.error, w)
  else
    match FileInfo.getinfosrc (bitsof (index L 3)) with
    | none => .ok (.error, w)
    | some (_, bits) =>
      if env.err < 0 then .ok (.error, w)
      else .ok (.armed (L.set 2 (.integer bits.toInt)), w.fsrequest x .other .on_fileinfo)

def k_setupfobjinfo (x : T) (w : World T) (env : Env) (L : Stack) :
    Except Failure (Setup Value × World T) :=
  match openedfile w L with
  | none => .ok (.error, w)
  | some (_, file) => do
    w.given file.fd
    if env.err < 0 then pure (.error, w)
    else pure (.armed L, w.fsrequest x .other .on_fileinfo)

def k_setupclosef (x : T) (w : World T) (env : Env) (L : Stack) :
    Except Failure (Setup Value × World T) :=
  match openedfile w L with
  | none => .ok (.error, w)
  | some (f, file) => do
    w.given file.fd
    if env.err < 0 then pure (.armerror (pusherrres env.err), w)
    else
      let w := w.fsrequest x (.close file.fd.toNat) .on_fileopdone
      pure (.armed (settop L 1), w.setfile f { file with fd := -1 })

/-- The file that `callwrite` sends from, which need not be open. -/
def sourcefile (w : World T) (L : Stack) : Option File :=
  match index L 2 with
  | .file f => (w.files[f]?).filter File.metatable
  | _ => none

/-- The functions of a path, the methods of a file that return true, and its transfers. -/
inductive Fileop where
  | path
  | method
  | read
  | write
  deriving DecidableEq

/-- The descriptors that a function gives to libuv, that of the file and that of the one it sends
from. There is none when an error is raised. -/
def Fileop.descriptors (op : Fileop) (w : World T) (env : Env) (L : Stack) :
    Option (Option ℤ × Option ℤ) :=
  match op with
  | .path => if env.accepted then some (none, none) else none
  | .method | .read =>
    (openedfile w L).bind fun found => if env.accepted then some (some found.2.fd, none) else none
  | .write =>
    (openedfile w L).bind fun found =>
      if env.accepted then some (some found.2.fd, (sourcefile w L).map File.fd) else none

/-- A call of libuv with both. The number of a closed file that it should send from is negative,
which the system refuses. -/
def World.giveall (w : World T) (fds : Option ℤ × Option ℤ) : Except Failure Unit := do
  match fds.1 with
  | some fd => w.given fd
  | none => pure ()
  match fds.2 with
  | some fd => if fd < 0 then pure () else w.given fd
  | none => pure ()

/-- `k_setupfiletouch`, `k_setupfileown`, `k_setupfilegrant`, `k_setupmklnk`, `k_setupmvfile`,
`k_setupcpfile`, `k_setuprmfile` and `k_setupmkdir`, `k_setupfresize`, `k_setupfobjflush`,
`k_setupfobjtouch`, `k_setupfobjown` and `k_setupfobjgrant`, `k_setupreadfile`,
`k_setupwritefile`. -/
def k_setupfileop (op : Fileop) (x : T) (w : World T) (env : Env) (L : Stack) :
    Except Failure (Setup Value × World T) :=
  match op.descriptors w env L with
  | none => .ok (.error, w)
  | some fds => do
    w.giveall fds
    if env.err < 0 then pure (.armerror (pusherrres env.err), w)
    else
      let left := match op with
        | .path | .method => settop L 1
        | .read | .write => L
      pure (.armed left, w.fsrequest x .other .on_fileopdone)

def k_setupfindaddr (x : T) (w : World T) (env : Env) (L : Stack) :
    Except Failure (Setup Value × World T) :=
  if !env.accepted then .ok (.error, w)
  else
    let made := w.newlist
    if env.err < 0 then .ok (.armerror (pusherrres env.err), made)
    else
      .ok (.armed (settop L 2 ++ [.found w.lists.length]),
        made.setflight x (some ⟨.getaddrinfo, .uv_onresolved, none, none⟩))

/-! The callbacks up to `lcuU_resumecoreq`, with the values that they push. -/

def on_fileopen (w : World T) (flight : Flight) (done : Done) :
    Except Failure (List Value × World T) := do
  let w ← uv_fs_req_cleanup w flight.block
  pure ([.integer done.result], w)

def on_fileinfo (w : World T) (flight : Flight) (done : Done) (thread : Bool) :
    Except Failure (List Value × World T) :=
  if thread then .ok ([.filereq ⟨flight.block, done.result, done.path⟩], w)
  else do
    let w ← uv_fs_req_cleanup w flight.block
    pure ([], w)

def on_fileopdone (w : World T) (flight : Flight) (done : Done) :
    Except Failure (List Value × World T) := do
  let w ← uv_fs_req_cleanup w flight.block
  pure (if done.result < 0 then pusherrres done.result else [.integer done.result], w)

def uv_onresolved (w : World T) (done : Done) (thread : Bool) :
    Except Failure (List Value × World T) :=
  if thread then .ok ([.integer done.result, .addrinfo done.results], w)
  else if done.result = 0 then do
    let w ← uv_freeaddrinfo w done.results
    pure ([], w)
  else .ok ([], w)

def uvcallback (w : World T) (flight : Flight) (done : Done) (thread : Bool) :
    Except Failure (List Value × World T) :=
  match flight.callback with
  | .on_fileopen => on_fileopen w flight done
  | .on_fileinfo => on_fileinfo w flight done thread
  | .on_fileopdone => on_fileopdone w flight done
  | .uv_onresolved => uv_onresolved w done thread

/-! The results functions. No values are returned when an error is raised. -/

def returntrueover1 (L : Stack) : List Value := if L.length > 2 then L.drop 1 else [.boolean true]

def returnopenfile (w : World T) (L : Stack) : Except Failure (List Value × World T) :=
  match index L 2 with
  | .file f =>
    let result := (index L 3).tointeger
    if result < 0 then .ok (pusherrres result, w)
    else .ok ([.file f], w.setfile f ⟨true, result⟩)
  | _ => .error .touserdata

/-- The loop of `pcallmktmp` from an allocation on: whether it ended without an error, the values
it pushed, and the object once there is one. -/
def pcallmktmp (env : Env) (req : Filereq) :
    List Char → ℕ → World T → Option ℕ → List Value → Bool × List Value × World T × Option ℕ
  | [], _, w, made, values => (true, values, w, made)
  | c :: mode, n, w, made, values =>
    if c = 'f' then
      if env.memory n then pcallmktmp env req mode (n + 1) w made (values ++ [.string req.path])
      else (false, [], w, made)
    else if c = 'o' then
      match made with
      | some f => pcallmktmp env req mode n w made (values ++ [.file f])
      | none =>
        let f := w.files.length
        if env.memory n then
          pcallmktmp env req mode (n + 1) (w.newfile.setfile f ⟨true, req.result⟩) (some f)
            (values ++ [.file f])
        else (false, [], w, none)
    else pcallmktmp env req mode n w made values

/-- `pcallmktmp` with the mode, or with none for a directory. -/
def mktmpresults (w : World T) (env : Env) (req : Filereq) (mode : Value) :
    Bool × List Value × World T × Option ℕ :=
  match mode with
  | .mode chars => pcallmktmp env req chars 0 w none []
  | _ => (env.memory 0, if env.memory 0 then [.string req.path] else [], w, none)

def returnmktmp (w : World T) (env : Env) (L : Stack) : Except Failure (List Value × World T) :=
  if L.length ≠ 5 then .error .returnmktmp
  else
    match index L 5 with
    | .filereq req =>
      let mkfile := isuserdata (index L 3)
      if req.result < 0 then do
        let w ← uv_fs_req_cleanup w req.block
        pure (pusherrres req.result, w)
      else do
        let (fine, values, w, made) := mktmpresults w env req (index L 3)
        let w ← uv_fs_req_cleanup w req.block
        let w ← if mkfile && made.isNone then uv_fs_close w req.result else pure w
        pure (if fine then values else [], w)
    | _ => .error .touserdata

/-- The queries of `system.fileinfo` after the first are calls of their own. The attributes of a
file are pushed as if by one allocation. -/
def returnfileinfo (w : World T) (env : Env) (L : Stack) : Except Failure (List Value × World T) :=
  match index L L.length with
  | .filereq req =>
    let readlink := bitsof (index L 3) &&& (FileInfo.INFO_READLINK <<< FileInfo.INFO_BITCOUNT) ≠ 0
    if 0 ≤ req.result ∨ (readlink ∧ req.result = FileInfo.UV_EINVAL) then
      if env.memory 0 then do
        let w ← uv_fs_req_cleanup w req.block
        pure (env.values, w)
      else .ok ([], w)
    else do
      let w ← uv_fs_req_cleanup w req.block
      pure ([], w)
  | _ => .error .touserdata

def returnfobjinfo (w : World T) (env : Env) (L : Stack) : Except Failure (List Value × World T) :=
  match index L L.length with
  | .filereq req =>
    if 0 ≤ req.result then
      match index L 3 with
      | .mode _ =>
        if env.memory 0 then do
          let w ← uv_fs_req_cleanup w req.block
          pure (env.values, w)
        else .ok ([], w)
      | _ => .error .touserdata
    else do
      let w ← uv_fs_req_cleanup w req.block
      pure ([], w)
  | _ => .error .touserdata

def returnfound (w : World T) (L : Stack) : Except Failure (List Value × World T) :=
  match index L 3, index L 5 with
  | .found l, .addrinfo results =>
    let err := (index L 4).tointeger
    if err ≠ 0 then .ok (pusherrres err, w)
    else
      match results.bind FoundAddresses.returnfound with
      | some list =>
        .ok ([.found l], w.setlist l ⟨true, list⟩)
      | none => do
        let w ← uv_freeaddrinfo w results
        pure (pusherrres UV_EAFNOSUPPORT, w)
  | _, _ => .error .touserdata

/-! Address lists. -/

/-- A method reads the addresses unless the object is closed. -/
def reads (w : World T) (list : AddressList) : Except Failure Unit :=
  match list.start with
  | none => .ok ()
  | some results =>
    if .addresses results.block ∈ w.resources then .ok () else .error (.addresses results.block)

def found_call (w : World T) (l : ℕ) (method : FoundAddresses.Method) :
    Except Failure (World T) :=
  match (w.lists[l]?).filter Found.metatable with
  | none => .ok w
  | some found =>
    match method with
    | .close | .gc => do
      let w ← uv_freeaddrinfo w found.list.start
      pure (w.setlist l { found with list := FoundAddresses.closeaddrlist found.list })
    | method => do
      reads w found.list
      match FoundAddresses.call found.list method with
      | .ok (_, list) => pure (w.setlist l { found with list := list })
      | .error failure => .error (.found failure)

end
end Coutil.FileResources
