import Coutil.AccessTrace
import Coutil.ByteString
import Coutil.TableTraversal
import Mathlib.Data.Int.Notation

set_option autoImplicit false

/-! Environments of processes in `src/lprocesf.c`. The block of memory has a pointer of so many
bytes in each slot of its list, and then the characters. -/
namespace Coutil.ProcessEnv
open AccessTrace Traced ByteString TableTraversal

/-- Values of Lua other than nil. A float comes with its text. -/
inductive Value where
  | boolean (b : Bool)
  | integer (n : ℤ)
  | float (text : Bytes)
  | string (text : Bytes)
  | object (id : ℕ)
  deriving DecidableEq

/-- Function `lua_tostring`. -/
def Value.tostring : Value → Option Bytes
  | .integer n => some (literal (toString n))
  | .float text => some text
  | .string text => some text
  | _ => none

/-- What `lua_tostring` leaves in the place of the value. -/
def Value.converted (v : Value) : Value := v.tostring.elim v .string

inductive Write where
  | pointer (slot : ℕ) (address : Option ℕ)
  | char (address : ℕ) (c : UInt8)
  deriving DecidableEq

/-- A call of `lua_next` is logged with the key that the last one gave and the key in its place. -/
inductive Access where
  | next (last current : Option Value)
  | length (text : Option Bytes)
  | copy (text : Option Bytes)
  | alloc (size : ℕ)
  | write (w : Write)
  deriving DecidableEq

inductive Stop where
  | raised (msg : Bytes)
  | undefined
  | running
  deriving DecidableEq

abbrev Code := Traced Stop Access

abbrev Env := Table Value Value

def luanext (t : Env) (last current : Option Value) : Code (Option Value) :=
  access (.next last current) (match next t current with
    | .at key => .ok (some key)
    | .finished => .ok none
    | .invalid => .error (.raised (literal "invalid key to 'next'")))

def strlen (text : Option Bytes) : Code ℕ :=
  access (.length text) (text.elim (.error .undefined) fun text => .ok (cstring text).length)

def chars (text : Option Bytes) : Code Bytes :=
  access (.copy text) (text.elim (.error .undefined) fun text => .ok (cstring text))

def write (w : Write) : Code Unit := access (.write w) (.ok ())

/-- Copies characters and answers the address after them. -/
def store : ℕ → Bytes → Code ℕ
  | envv, [] => pure envv
  | envv, c :: cs => do
    write (.char envv c)
    store (envv + 1) cs

/-- The strings of a name and value that are refused. -/
def refused (name value : Option Bytes) : Bool :=
  name.elim false fun name => value.isNone || '='.toUInt8 ∈ cstring name

def badname (name : Option Bytes) : Bytes :=
  literal "bad name '" ++ name.elim [] cstring ++ literal "' in environment (cannot contain '=')"

section
variable (word : ℕ) (t : Env)

/-- The first traversal. -/
def check : ℕ → Option Value → Option Value → ℕ → ℕ → Code (ℕ × ℕ)
  | 0, _, _, _, _ => stop .running
  | fuel + 1, last, current, envc, envsz => do
    match ← luanext t last current with
    | none => return (envc, envsz)
    | some key =>
      let name := key.tostring
      let value := (lookup t key).bind Value.tostring
      if refused name value then stop (.raised (badname name))
      else
        let n ← strlen name
        let m ← strlen value
        check fuel (some key) (some key.converted) (envc + 1) (envsz + (word + (n + 1 + m + 1)))

/-- The second traversal. -/
def fill : ℕ → Option Value → Option Value → ℕ → ℕ → Code ℕ
  | 0, _, _, _, _ => stop .running
  | fuel + 1, last, current, i, envv => do
    match ← luanext t last current with
    | none => return i
    | some key =>
      write (.pointer i (some envv))
      let envv ← store envv (← chars key.tostring)
      write (.char envv '='.toUInt8)
      let envv ← store (envv + 1) ((← chars ((lookup t key).bind Value.tostring)) ++ [0])
      fill fuel (some key) (some key.converted) (i + 1) envv

variable {word t} {fuel : ℕ} {last current : Option Value} {key : Value}

theorem check_entry (found : next t current = .at key) (envc envsz : ℕ) :
    check word t (fuel + 1) last current envc envsz = (do
      access (.next last current) (.ok ())
      let name := key.tostring
      let value := (lookup t key).bind Value.tostring
      if refused name value then stop (.raised (badname name))
      else
        let n ← strlen name
        let m ← strlen value
        check word t fuel (some key) (some key.converted) (envc + 1)
          (envsz + (word + (n + 1 + m + 1)))) := by
  rw [check, luanext, found]
  rfl

theorem fill_entry (found : next t current = .at key) (i envv : ℕ) :
    fill t (fuel + 1) last current i envv = (do
      access (.next last current) (.ok ())
      write (.pointer i (some envv))
      let envv ← store envv (← chars key.tostring)
      write (.char envv '='.toUInt8)
      let envv ← store (envv + 1) ((← chars ((lookup t key).bind Value.tostring)) ++ [0])
      fill t fuel (some key) (some key.converted) (i + 1) envv) := by
  rw [fill, luanext, found]
  rfl

variable (word t)

def newprocenv (fuel : ℕ) : Code Unit := do
  let (envc, envsz) ← check word t fuel none none 0 word
  access (.alloc envsz) (.ok ())
  let i ← fill t fuel none none 0 ((envc + 1) * word)
  write (.pointer i none)

end

/-- The bytes of the block that are written, if a pointer has so many. -/
def Write.offsets (word : ℕ) : Write → List ℕ
  | .pointer slot _ => List.range' (slot * word) word
  | .char address _ => [address]

/-- What was written to the block. -/
structure Block where
  pointers : ℕ → Option (Option ℕ)
  chars : ℕ → Option UInt8

def Block.empty : Block := ⟨fun _ => none, fun _ => none⟩

def Block.apply (m : Block) : Write → Block
  | .pointer slot address => { m with pointers := Function.update m.pointers slot (some address) }
  | .char address c => { m with chars := Function.update m.chars address (some c) }

def written (log : List Access) : List Write :=
  log.filterMap fun
    | .write w => some w
    | _ => none

/-- The block that is left by a call. -/
def block (log : List Access) : Block := (written log).foldl Block.apply .empty

/-- The C string at an address. -/
def Block.text (m : Block) : ℕ → ℕ → Option Bytes
  | 0, _ => none
  | fuel + 1, address => do
    let c ← m.chars address
    if c = 0 then some [] else return c :: (← m.text fuel (address + 1))

/-- The addresses in the list up to the final `NULL`. -/
def Block.list (m : Block) : ℕ → ℕ → Option (List ℕ)
  | 0, _ => none
  | fuel + 1, slot => do
    match ← m.pointers slot with
    | none => some []
    | some address => return address :: (← m.list fuel (slot + 1))

/-- A variable is taken apart at the first equals sign. -/
def split (variable_ : Bytes) : Option (Bytes × Bytes) :=
  if '='.toUInt8 ∈ variable_ then
    some (variable_.takeWhile (· ≠ '='.toUInt8), (variable_.dropWhile (· ≠ '='.toUInt8)).tail)
  else none

section
variable (rehash : Env → Env) (m : Block) (fuel : ℕ)

def system_unpackenv (t : Env) : Option Env := do
  let envl ← m.list fuel 0
  envl.foldlM (fun t address => do
    let (name, value) ← split (← m.text fuel address)
    return assign rehash t (.string name) (some (.string value))) t

/-- Whether so many characters of two strings are the same, up to a common end. -/
def strncmp : Bytes → Bytes → ℕ → Bool
  | _, _, 0 => true
  | [], [], _ => true
  | c :: cs, d :: ds, n + 1 => c = d && (c = 0 || strncmp cs ds n)
  | _, _, _ => false

/-- Whether the variable at an address has the name. -/
def named (name : Bytes) (address : ℕ) : Option Bool := do
  let variable_ ← m.text fuel address
  if strncmp (name ++ [0]) (variable_ ++ [0]) name.length then
    return decide ((← m.chars (address + name.length)) = '='.toUInt8)
  else return false

def procenv_index (name : Bytes) : Option (Except Bytes (Option Bytes)) := do
  if '='.toUInt8 ∈ cstring name then return .error (literal "cannot contain '='")
  let envl ← m.list fuel 0
  match ← envl.findM? (named m fuel name) with
  | none => return .ok none
  | some address => return .ok (some (← m.text fuel (address + name.length + 1)))

end

end Coutil.ProcessEnv
