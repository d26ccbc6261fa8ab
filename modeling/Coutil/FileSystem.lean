import Coutil.FileResources

set_option autoImplicit false

/-! Coroutines that open, use and close files, make temporary files, ask for the attributes of
files and search for addresses, by functions of `src/lfilef.c` and `src/lcommunf.c`, over the
operations of the coroutines. Libuv executes each request at some moment and calls back later, and
objects are collected at any moment. -/
namespace Coutil.FileSystem
open Operation FileResources

inductive Call where
  | openfile
  | maketemp
  | fileinfo
  | fobjinfo
  | closef
  | fileop (op : Fileop)
  | findaddr
  deriving DecidableEq

section
variable {T : Type} [DecidableEq T]

def setup : Call → T → World T → Env → Stack → Except Failure (Setup Value × World T)
  | .openfile => k_setupfile
  | .maketemp => k_setupmktmp
  | .fileinfo => k_setupfileinfo
  | .fobjinfo => k_setupfobjinfo
  | .closef => k_setupclosef
  | .fileop op => k_setupfileop op
  | .findaddr => k_setupfindaddr

/-- What `k_endop` returns after a callback with values, for a coroutine that left this stack. -/
def returned (call : Call) (w : World T) (env : Env) (L : Stack) (values : List Value) :
    Except Failure (List Value × World T) :=
  match call with
  | .openfile => returnopenfile w (L ++ values)
  | .maketemp => returnmktmp w env (L ++ values)
  | .fileinfo => returnfileinfo w env (L ++ values)
  | .fobjinfo => returnfobjinfo w env (L ++ values)
  | .closef | .fileop .path | .fileop .method => .ok (returntrueover1 (L ++ values), w)
  | .fileop .read | .fileop .write => .ok (values, w)
  | .findaddr => returnfound w (L ++ values)

/-- The values that the results are made of are those of `returned`. -/
def client (call : Call) (x : T) : Client Value (View T) where
  setup := fun view _ L =>
    match setup call x view.world view.env L with
    | .ok (outcome, _) => outcome
    | .error _ => .error
  results := some fun _ values => values
  cancel := none

def UV_FS_O_CREAT : ℕ := 0o100
def UV_FS_O_EXCL : ℕ := 0o200
def UV_FS_O_TRUNC : ℕ := 0o1000
def UV_FS_O_APPEND : ℕ := 0o2000
def UV_FS_O_SYNC : ℕ := 0o4010000
def O_CLOEXEC : ℕ := 0o2000000

def openchars : List Char → ℕ → ℕ → Bool → Option (ℕ × ℕ × Bool)
  | [], flags, perm, noyield => some (flags, perm, noyield)
  | c :: mode, flags, perm, noyield =>
    match c with
    | 'r' => openchars mode flags (perm ||| 1) noyield
    | 'w' => openchars mode flags (perm ||| 2) noyield
    | 'a' => openchars mode (flags ||| UV_FS_O_APPEND) (perm ||| 2) noyield
    | 'f' => openchars mode (flags ||| UV_FS_O_SYNC) (perm ||| 2) noyield
    | 't' => openchars mode (flags ||| UV_FS_O_TRUNC) (perm ||| 2) noyield
    | 'n' => openchars mode (flags ||| UV_FS_O_CREAT) perm noyield
    | 'N' => openchars mode (flags ||| (UV_FS_O_CREAT ||| UV_FS_O_EXCL)) perm noyield
    | 'x' => openchars mode (flags ||| O_CLOEXEC) perm noyield
    | '~' => openchars mode flags perm true
    | _ => none

/-- `UV_FS_O_RDONLY`, `UV_FS_O_WRONLY` and `UV_FS_O_RDWR`. -/
def access (perm : ℕ) : ℕ :=
  match perm with
  | 2 => 1
  | 3 => 2
  | _ => 0

def permbit (c : Char) : Option ℕ :=
  match c with
  | 'U' => some 0o4000
  | 'G' => some 0o2000
  | 'S' => some 0o1000
  | 'r' => some 0o400
  | 'w' => some 0o200
  | 'x' => some 0o100
  | 'R' => some 0o040
  | 'W' => some 0o020
  | 'X' => some 0o010
  | '4' => some 0o004
  | '2' => some 0o002
  | '1' => some 0o001
  | _ => none

def permchars : List Char → ℕ → Option ℕ
  | [], perm => some perm
  | c :: mode, perm => (permbit c).bind fun bit => permchars mode (perm ||| bit)

def checkperm (v : Value) : Option ℤ :=
  match v with
  | .string mode => (permchars (cstring mode) 0).map Int.ofNat
  | .integer n => some (n.bmod (2 ^ 32))
  | _ => none

/-- `luaL_checkstring`, with the digits of a number. -/
def checkstring : Value → Option (List Char)
  | .string text => some text
  | .integer n => some (toString n).toList
  | _ => none

def optstring (v : Value) (default : List Char) : Option (List Char) :=
  match v with
  | .nil => some default
  | v => checkstring v

/-- Up to where it yields or not: the stack with the new userdata. -/
def system_openfile (w : World T) (L : Stack) : Option (Bool × Stack × World T) := do
  let mode ← optstring (index L 2) ['r']
  let (flags, perm, noyield) ← openchars (cstring mode) 0 0 false
  let flags := flags ||| access perm
  let perm ← if flags &&& UV_FS_O_CREAT ≠ 0 then checkperm (index L 3) else some 0
  let stack := settop L 1 ++ [.file w.files.length]
  pure (noyield, if noyield then stack else stack ++ [.integer flags, .integer perm], w.newfile)

/-- `uv_fs_open` opens a descriptor that was not open. -/
def openblocking (w : World T) (env : Env) (L : Stack) : Option (Except Failure (World T)) :=
  if !(index L 1).isstring ∨ env.err < 0 then some (.ok w)
  else if .descriptor env.err.toNat ∈ w.resources then none
  else
    some ((returnopenfile (w.openfd env.err) (L ++ [.integer env.err])).map Prod.snd)

def MKTMP_TEMPLATESZ : ℕ := 256
def MKTMP_CREATEFILE : ℕ := 0x02
def MKTMP_OPENFILE : ℕ := 0x06

/-- The characters of `system.maketemp` after those that make it not yield. -/
def tempchars : List Char → ℕ → Option ℕ
  | [], bits => some bits
  | c :: mode, bits =>
    match c with
    | 'f' => tempchars mode (bits ||| MKTMP_CREATEFILE)
    | 'o' => tempchars mode (bits ||| MKTMP_OPENFILE)
    | _ => none

def system_maketemp (L : Stack) : Option (Bool × Stack) := do
  let template ← checkstring (index L 1)
  let mode ← optstring (index L 2) []
  if template.length < MKTMP_TEMPLATESZ - 6 then
    let chars := (cstring mode).dropWhile (· = '~')
    let bits ← tempchars chars 0
    pure ((cstring mode).head? = some '~',
      settop L 2 ++ [if bits &&& MKTMP_CREATEFILE ≠ 0 then .mode chars else .nil,
        if bits &&& MKTMP_OPENFILE ≠ 0 then .sched else .nil])
  else none

/-- `uv_fs_mkstemp` opens a descriptor that was not open, and `uv_fs_mkdtemp` opens none. Both copy
the template also for a blocking request, which is not cleaned up when it fails. -/
def mktmpblocking (w : World T) (env : Env) (L : Stack) : Option (Except Failure (World T)) :=
  if env.err < 0 then some (.ok (if env.copied then w.newblock else w))
  else
    let stack := L ++ [.filereq ⟨some w.blocks, env.err, env.path⟩]
    if isuserdata (index L 3) then
      if .descriptor env.err.toNat ∈ w.resources then none
      else some ((returnmktmp (w.newblock.openfd env.err) env stack).map Prod.snd)
    else some ((returnmktmp w.newblock env stack).map Prod.snd)

/-- The queries for which libuv allocates what they produce. -/
def allocates : FileInfo.Query → Bool
  | .statfs | .realpath | .readlink => true
  | .stat | .lstat => false

/-- A turn of the loop of a blocking `system.fileinfo`, with the sources that are left. A request
that failed has nothing to clean up, and an error that is raised while the attributes are pushed
leaves it as it is. -/
def fileinfoblocking (w : World T) (env : Env) (L : Stack) (bits : FileInfo.Bits) :
    Except Failure (World T) :=
  if !(index L 1).isstring then .ok w
  else
    match FileInfo.getinfosrc bits with
    | none => .ok w
    | some (query, _) =>
      if env.err < 0 ∨ !allocates query then .ok w
      else if env.memory 0 then uv_fs_req_cleanup w.newblock (some w.blocks)
      else .ok w.newblock

def closeblocking (w : World T) (env : Env) (L : Stack) : Except Failure (World T) :=
  match openedfile w L with
  | none => .ok w
  | some (f, file) => do
    let closed ← uv_fs_close w file.fd
    pure (if env.err < 0 then closed else closed.setfile f { file with fd := -1 })

def fileopblocking (op : Fileop) (w : World T) (env : Env) (L : Stack) :
    Except Failure (World T) :=
  match op.descriptors w env L with
  | none => .ok w
  | some fds => (w.giveall fds).map fun _ => w

/-- The characters after the flags, and whether it does not yield. -/
def infomode (L : Stack) : Option (List Char × Bool) :=
  match checkstring (index L 2) with
  | none => none
  | some mode =>
    match FileInfo.checkinfomode mode FileInfo.INFO_STAT with
    | .error _ => none
    | .ok (chars, bits) => some (chars, bits &&& FileInfo.INFO_NOYIELD ≠ 0)

def infoblocking (w : World T) (L : Stack) : Except Failure (World T) :=
  match openedfile w L with
  | none => .ok w
  | some (_, file) => (w.given file.fd).map fun _ => w

/-- Libuv executes a request. Descriptors and lists that come out of it were not there before, and
a close releases its descriptor whatever it reports. -/
def executed (w : World T) (x : T) (flight : Flight) (done : Done) :
    Option (Except Failure (World T)) :=
  let landed := w.setflight x (some { flight with done := some done })
  match flight.query, done.results with
  | .openfile, none | .mkstemp, none =>
    if done.result < 0 then some (.ok landed)
    else if .descriptor done.result.toNat ∈ w.resources then none
    else some (.ok (landed.openfd done.result))
  | .close fd, none => some (landed.release (.descriptor fd))
  | .getaddrinfo, some results =>
    if done.result = 0 ∧ .addresses results.block ∉ w.resources then
      some (.ok { landed with resources := .addresses results.block :: landed.resources })
    else none
  | .getaddrinfo, none => if done.result ≠ 0 then some (.ok landed) else none
  | .mkdtemp, none | .other, none => some (.ok landed)
  | _, some _ => none

structure State (T : Type) where
  op : T → Operation.State Value (View T)
  /-- Whose functions the operation of a coroutine has. -/
  call : T → Option Call
  world : World T

inductive Act (T : Type) where
  | openfile (x : T) (L : Stack) (env : Env)
  | maketemp (x : T) (L : Stack) (env : Env)
  | fileinfo (L : Stack) (bits : FileInfo.Bits) (env : Env)
  | yieldfileinfo (x : T) (L : Stack) (env : Env)
  | info (x : T) (L : Stack) (env : Env)
  | close (x : T) (L : Stack) (noyield : Bool) (env : Env)
  | fileop (x : T) (op : Fileop) (L : Stack) (noyield : Bool) (env : Env)
  | findaddr (x : T) (L : Stack) (env : Env)
  | found (l : ℕ) (method : FoundAddresses.Method)
  | gc (f : ℕ) (env : Env)
  | work (x : T) (done : Done)
  | uvcallback (x : T) (env : Env)
  | awaitch (x : T) (L : Stack) (env : Env)
  | call (x : T) (target : Target) (client : Client Value (View T)) (L : Stack) (env : Env)
  | yield (x : T)
  | finish (x : T)
  | resume (x : T) (values : List Value) (env : Env)
  | requestcb (x : T) (values : List Value) (env : Env)
  | handlecb (x : T) (values : List Value) (env : Env)
  | closecb (x : T) (env : Env)

/-- What a coroutine does to its operation, whose functions the operation has then, and the world
after it. -/
structure Turn (T : Type) where
  x : T
  act : Operation.Act Value (View T)
  call : Option Call
  effect : Except Failure (World T)

/-- A call, or a step of the program or of libuv that no operation takes part in. -/
inductive Taken (T : Type) where
  | turn (turn : Turn T)
  | outside (effect : Except Failure (World T))

def await (s : State T) (x : T) (call : Call) (w : World T) (env : Env) (L : Stack) : Turn T :=
  ⟨x, .call .request (client call x) ⟨w, env⟩ L, some call,
    match ((s.op x).op.checkreset .request).1 with
    | .freeop => (setup call x w env L).map Prod.snd
    | _ => .ok w⟩

/-- The values that a coroutine resumed in `k_endop` ends its call with. -/
def ended (s : State T) (x : T) (w : World T) (env : Env) (values : List Value) :
    Except Failure (List Value × World T) :=
  match (s.op x).place, s.call x with
  | .endop L, some call => returned call w env L values
  | _, _ => .ok (values, w)

/-- The coroutine is resumed, if it waits, by a callback that ends its request or its handle. -/
def resumed (s : State T) (x : T) (w : World T) (env : Env) (values : List Value) :
    Except Failure (List Value × World T) :=
  match (s.op x).op.flags.pending, (s.op x).place, s.call x with
  | true, .resetop _ _ L, some call => (setup call x w env L).map fun r => ([], r.2)
  | true, _, _ => ended s x w env values
  | false, _, _ => .ok (values, w)

def valuesof (r : Except Failure (List Value × World T)) : List Value :=
  match r with
  | .ok (values, _) => values
  | .error _ => []

/-- An operation of other functions. -/
def isOther (target : Target) (client : Client Value (View T)) : Bool :=
  decide (target ≠ .handle .async) && client.cancel.isNone

variable (awaitch : Client Value (View T))

def taken (s : State T) : Act T → Option (Taken T)
  | .openfile x L env =>
    match system_openfile s.world L with
    | none => some (.outside (.ok s.world))
    | some (true, L, w) => (openblocking w env L).map .outside
    | some (false, L, w) => some (.turn (await s x .openfile w env L))
  | .maketemp x L env =>
    match system_maketemp L with
    | none => some (.outside (.ok s.world))
    | some (true, L) => (mktmpblocking s.world env L).map .outside
    | some (false, L) => some (.turn (await s x .maketemp s.world env L))
  | .fileinfo L bits env => some (.outside (fileinfoblocking s.world env L bits))
  | .yieldfileinfo x L env =>
    if bitsof (index L 3) &&& FileInfo.INFO_SRCMASK ≠ 0 then
      some (.turn (await s x .fileinfo s.world env L))
    else some (.outside (.ok s.world))
  | .info x L env =>
    match infomode L with
    | none => some (.outside (.ok s.world))
    | some (_, true) => some (.outside (infoblocking s.world L))
    | some (chars, false) =>
      some (.turn (await s x .fobjinfo s.world env (settop L 2 ++ [.mode chars])))
  | .close x L noyield env =>
    if noyield then some (.outside (closeblocking s.world env L))
    else some (.turn (await s x .closef s.world env L))
  | .fileop x op L noyield env =>
    if noyield then some (.outside (fileopblocking op s.world env L))
    else some (.turn (await s x (.fileop op) s.world env L))
  | .findaddr x L env => some (.turn (await s x .findaddr s.world env L))
  | .found l method => some (.outside (found_call s.world l method))
  | .gc f env => some (.outside (file_gc s.world env f))
  | .work x done =>
    match s.world.flight x with
    | some ⟨query, callback, block, none⟩ =>
      (executed s.world x ⟨query, callback, block, none⟩ done).map .outside
    | _ => none
  | .uvcallback x env =>
    match s.world.flight x with
    | some ⟨query, callback, block, some done⟩ =>
      let w := s.world.setflight x none
      let called := FileResources.uvcallback w ⟨query, callback, block, some done⟩ done
        (s.op x).op.flags.pending
      let after := called.bind fun r => resumed s x r.2 env r.1
      let view := match called with
        | .ok (_, w) => w
        | .error _ => s.world
      some (.turn ⟨x, .requestcb ⟨view, env⟩ (valuesof after), s.call x, after.map Prod.snd⟩)
    | _ => none
  | .awaitch x L env =>
    some (.turn ⟨x, .call (.handle .async) awaitch ⟨s.world, env⟩ L, none, .ok s.world⟩)
  | .call x target client L env =>
    if isOther target client then
      some (.turn ⟨x, .call target client ⟨s.world, env⟩ L, none, .ok s.world⟩)
    else none
  | .yield x => some (.turn ⟨x, .yield, s.call x, .ok s.world⟩)
  | .finish x => some (.turn ⟨x, .finish, s.call x, .ok s.world⟩)
  | .resume x values env => some (.turn ⟨x, .resume ⟨s.world, env⟩ values, s.call x, .ok s.world⟩)
  | .requestcb x values env =>
    if (s.world.flight x).isNone then
      let after := resumed s x s.world env values
      some (.turn ⟨x, .requestcb ⟨s.world, env⟩ (valuesof after), s.call x, after.map Prod.snd⟩)
    else none
  | .handlecb x values env =>
    let after := ended s x s.world env values
    some (.turn ⟨x, .handlecb ⟨s.world, env⟩ (valuesof after), s.call x, after.map Prod.snd⟩)
  | .closecb x env =>
    let after := resumed s x s.world env []
    some (.turn ⟨x, .closecb ⟨s.world, env⟩, s.call x, after.map Prod.snd⟩)

def finish (s : State T) (turn : Turn T) :
    Except Site (Operation.State Value (View T)) → Except Failure (State T)
  | .error site => .error (.op site)
  | .ok u => turn.effect.map fun w =>
      { op := Function.update s.op turn.x u
        call := Function.update s.call turn.x turn.call
        world := w }

def step (s : State T) (a : Act T) : Option (Except Failure (State T)) :=
  match taken awaitch s a with
  | none => none
  | some (.turn turn) => (Operation.step (s.op turn.x) turn.act).map (finish s turn)
  | some (.outside effect) => some (effect.map fun w => { s with world := w })

def next (s : State T) (a : Act T) : Option (State T) :=
  match step awaitch s a with
  | some (.ok u) => some u
  | _ => none

def initial : State T where
  op := fun _ => Operation.State.init
  call := fun _ => none
  world := ⟨[], [], fun _ => none, 0, []⟩

end
end Coutil.FileSystem
