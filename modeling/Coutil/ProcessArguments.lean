import Mathlib
import Coutil.ByteString

set_option autoImplicit false

/-! The command line that `getprocopts` of `src/lprocesf.c` makes. The streams and the environment
of the new process are those that `getstreamfield` and `newprocenv` give. -/
namespace Coutil.ProcessArguments
open ByteString

/-- A number is given by the string it is converted to. -/
inductive Value where
  | nil
  | string (s : Bytes)
  | number (s : Bytes)
  | other

def isstring : Value → Bool
  | .string _ | .number _ => true
  | _ => false

def tostring : Value → Option Bytes
  | .string s | .number s => some s
  | _ => none

inductive Error where
  | msg (text : String)
  | arg (n : ℕ) (text : String)
  | badvalue (i : ℤ)
  | memory
  /-- A write that is not in the array. -/
  | outside (i : ℤ)
  deriving DecidableEq

/-- An entry of the array of arguments. -/
inductive Cell where
  | unset
  | null
  | string (s : Bytes)
  deriving DecidableEq

/-- `args[i] = cell`. -/
def assign (args : List Cell) (i : ℤ) (cell : Cell) : Except Error (List Cell) :=
  if 0 ≤ i ∧ i < args.length then .ok (args.set i.toNat cell) else .error (.outside i)

/-- A value of 32 bits, with its sign. -/
def int (n : ℤ) : ℤ := (BitVec.ofInt 32 n).toInt

inductive Arguments where
  | nil
  | table (len : ℤ) (geti : ℤ → Value)
  | other

structure Fields (S E : Type) where
  execfile : Value
  runpath : Value
  streams : Except Error S
  arguments : Arguments
  environment : Except Error E

inductive Request (S E : Type) where
  | values (args : List Value)
  | table (fields : Fields S E)

structure Options (S E : Type) where
  file : Bytes
  args : List Cell
  cwd : Option Bytes
  stdio : Option S
  env : Option E

def LCU_EXECARGCOUNT : ℕ := 255

/-- The array is that of `k_setupproc`, or a new one of this size. -/
def argsarray (argc size : ℤ) : Except Error (List Cell) :=
  if argc > LCU_EXECARGCOUNT then
    if size < 0 then .error .memory else .ok (List.replicate size.toNat .unset)
  else .ok (List.replicate (LCU_EXECARGCOUNT + 1) .unset)

/-- The loop over the values on the stack. -/
def putvalues : List Value → ℤ → List Cell → Except Error (List Cell)
  | [], _, args => .ok args
  | v :: values, i, args =>
    match tostring v with
    | some s => assign args i (.string s) >>= putvalues values (i + 1)
    | none => .error (.arg (i + 1).toNat "string expected")

/-- The loop over so many values of the field. -/
def putfields (geti : ℤ → Value) : ℕ → ℤ → List Cell → Except Error (List Cell)
  | 0, _, args => .ok args
  | count + 1, i, args =>
    match tostring (geti i) with
    | some s => assign args i (.string s) >>= putfields geti count (i + 1)
    | none => .error (.badvalue i)

def getstrfield (field : String) (value : Value) : Except Error Bytes :=
  match tostring value with
  | some s => .ok s
  | none => .error (.msg ("bad field " ++ field ++ " (must be a string)"))

def optstrfield (field : String) : Value → Except Error (Option Bytes)
  | .nil => .ok none
  | value => (getstrfield field value).map some

/-- The arguments after the first, and their count with it. -/
def putarguments : Arguments → Except Error (ℤ × List Cell)
  | .nil => .ok (0, List.replicate (LCU_EXECARGCOUNT + 1) .unset)
  | .table len geti => do
    let argc := int (1 + len)
    let args ← argsarray argc (int (argc + 1))
    let args ← putfields geti (argc - 1).toNat 1 args
    return (argc, args)
  | .other => .error (.arg 1 "field 'arguments' must be a table")

/-- The stack has fewer values than there are numbers of 32 bits. -/
def valueopts {S E : Type} (values : List Value) : Except Error (Options S E) := do
  let args ← argsarray values.length (values.length + 1)
  let args ← putvalues values 0 args
  let args ← assign args values.length .null
  match args with
  | .string file :: _ => .ok { file := file, args := args, cwd := none, stdio := none, env := none }
  | _ => .error (.outside 0)

def tableopts {S E : Type} (fields : Fields S E) : Except Error (Options S E) := do
  let file ← getstrfield "execfile" fields.execfile
  let cwd ← optstrfield "runpath" fields.runpath
  let stdio ← fields.streams
  let (argc, args) ← putarguments fields.arguments
  let env ← fields.environment
  let args ← assign args 0 (.string file)
  let args ← assign args argc .null
  return { file := file, args := args, cwd := cwd, stdio := some stdio, env := some env }

def getprocopts {S E : Type} : Request S E → Except Error (Options S E)
  | .values (first :: values) =>
    if isstring first then valueopts (first :: values)
    else .error (.arg 1 "table or string expected")
  | .values [] => .error (.arg 1 "table or string expected")
  | .table fields => tableopts fields

/-! The calls with a command line. -/

/-- Besides its sequence of strings the table of the arguments has any other values. -/
inductive Form (S E : Type) where
  | strings (cmd : Bytes) (args : List Bytes)
  | table (execfile : Bytes) (arguments : Option (List Bytes)) (rest : ℤ → Value)
      (runpath : Option Bytes) (stdio : S) (env : E)

namespace Form

variable {S E : Type}

def sequence (args : List Bytes) (rest : ℤ → Value) (i : ℤ) : Value :=
  if 1 ≤ i ∧ i ≤ args.length then (args[(i - 1).toNat]?).elim .nil .string else rest i

def request : Form S E → Request S E
  | strings cmd args => .values ((cmd :: args).map .string)
  | table execfile arguments rest runpath stdio env => .table
    { execfile := .string execfile
      runpath := runpath.elim .nil .string
      streams := .ok stdio
      arguments := arguments.elim .nil fun args => .table args.length (sequence args rest)
      environment := .ok env }

def file : Form S E → Bytes
  | strings cmd _ => cmd
  | table execfile _ _ _ _ _ => execfile

def arguments : Form S E → List Bytes
  | strings _ args => args
  | table _ arguments _ _ _ _ => arguments.getD []

/-- The vector is the file and the arguments, with its terminator. -/
def Vectored (form : Form S E) : Prop :=
  ∃ opts, getprocopts form.request = .ok opts ∧ opts.file = form.file ∧
    opts.args.take (form.arguments.length + 2) =
      (form.file :: form.arguments).map .string ++ [.null]

/-- A table has the field, with no more values than can be counted. -/
def Counted : Form S E → Prop
  | strings _ _ => True
  | table _ none _ _ _ _ => False
  | table _ (some args) _ _ _ _ => args.length + 2 < 2 ^ 31

end Form

/-! The loops. -/

section
variable {args : List Cell} {geti : ℤ → Value} {argc size : ℤ}

theorem assign_ok {i : ℤ} {cell : Cell} {args' : List Cell} (assigned : assign args i cell = .ok args') :
    args' = args.set i.toNat cell := by
  unfold assign at assigned
  split_ifs at assigned
  exact (Except.ok.inj assigned).symm

theorem assign_inside {i : ℕ} {cell : Cell} (inside : i < args.length) :
    assign args i cell = .ok (args.set i cell) := by
  rw [assign, if_pos ⟨Int.natCast_nonneg i, Int.ofNat_lt.mpr inside⟩, Int.toNat_natCast]

/-- Strings are written one after the other. -/
def putstrings : List Bytes → ℤ → List Cell → Except Error (List Cell)
  | [], _, args => .ok args
  | s :: strings, i, args => assign args i (.string s) >>= putstrings strings (i + 1)

theorem putvalues_strings (strings : List Bytes) (i : ℤ) (args : List Cell) :
    putvalues (strings.map .string) i args = putstrings strings i args := by
  induction strings generalizing i args with
  | nil => rfl
  | cons s strings ih =>
    change (assign args i (.string s) >>= putvalues (strings.map .string) (i + 1)) =
      assign args i (.string s) >>= putstrings strings (i + 1)
    congr 1
    funext args
    exact ih (i + 1) args

theorem putfields_strings (strings : List Bytes) (i : ℤ) (args : List Cell)
    (values : ∀ (k : ℕ) s, strings[k]? = some s → geti (i + k) = .string s) :
    putfields geti strings.length i args = putstrings strings i args := by
  induction strings generalizing i args with
  | nil => rfl
  | cons s strings ih =>
    have first : geti i = .string s := by simpa using values 0 s rfl
    rw [List.length_cons, putfields, first, putstrings]
    change (assign args i (.string s) >>= putfields geti strings.length (i + 1)) = _
    congr 1
    funext args
    apply ih
    intro k t found
    have next := values (k + 1) t (by simpa using found)
    rw [← next]
    congr 1
    omega

theorem putstrings_placed (strings : List Bytes) (before here after : List Cell)
    (room : here.length = strings.length) :
    putstrings strings before.length (before ++ here ++ after) =
      .ok (before ++ strings.map .string ++ after) := by
  induction strings generalizing before here with
  | nil =>
    have empty : here = [] := List.length_eq_zero_iff.mp room
    rw [empty]
    rfl
  | cons s strings ih =>
    cases here with
    | nil => cases room
    | cons cell here =>
      have inside : before.length < (before ++ cell :: here ++ after).length := by
        simp
      rw [putstrings, assign_inside inside]
      have set : (before ++ cell :: here ++ after).set before.length (.string s) =
          (before ++ [.string s]) ++ here ++ after := by
        rw [List.append_assoc, List.set_append_right _ _ (Nat.le_refl _), Nat.sub_self]
        simp
      have next := ih (before ++ [.string s]) here (by simpa using room)
      rw [List.length_append, List.length_singleton, Int.natCast_add, Int.natCast_one] at next
      change putstrings strings (before.length + 1) _ = _
      rw [set, next]
      simp

/-- There is room for the terminator. -/
theorem argsarray_room (argc : ℕ) (size : ℤ) (enough : size = argc + 1) :
    ∃ k, argsarray argc size = .ok (List.replicate (argc + 1 + k) .unset) := by
  unfold argsarray
  by_cases many : (argc : ℤ) > LCU_EXECARGCOUNT
  · refine ⟨0, ?_⟩
    rw [if_pos many, if_neg (by omega)]
    congr 2
    omega
  · refine ⟨LCU_EXECARGCOUNT - argc, ?_⟩
    rw [if_neg many]
    congr 2
    omega

theorem replicate_split (n k : ℕ) :
    List.replicate (n + k) Cell.unset = List.replicate n .unset ++ List.replicate k .unset :=
  (List.replicate_append_replicate).symm

theorem terminated (strings : List Cell) (k : ℕ) :
    assign (strings ++ List.replicate (1 + k) .unset) strings.length .null =
      .ok (strings ++ [.null] ++ List.replicate k .unset) := by
  have room : strings.length < (strings ++ List.replicate (1 + k) Cell.unset).length := by
    rw [List.length_append, List.length_replicate]
    omega
  rw [assign_inside room, List.set_append_right _ _ (Nat.le_refl _), Nat.sub_self, replicate_split]
  simp

theorem take_vector {n : ℕ} (strings : List Cell) (k : ℕ) (length : strings.length = n) :
    (strings ++ [Cell.null] ++ List.replicate k Cell.unset).take (n + 1) = strings ++ [Cell.null] := by
  rw [List.take_left' (by simp [length])]

variable {S E : Type}

theorem strings_vectored (cmd : Bytes) (args : List Bytes) :
    (Form.strings cmd args : Form S E).Vectored := by
  have count : ((cmd :: args).map Value.string).length = args.length + 1 := by simp
  obtain ⟨k, array⟩ := argsarray_room (args.length + 1) ((args.length + 1 : ℕ) + 1) rfl
  have placed : putstrings (cmd :: args) 0 (List.replicate (args.length + 1 + 1 + k) .unset) =
      .ok ((cmd :: args).map .string ++ List.replicate (1 + k) .unset) := by
    have all := putstrings_placed (cmd :: args) [] (List.replicate (args.length + 1) .unset)
      (List.replicate (1 + k) .unset) (by simp)
    rw [Nat.add_assoc, replicate_split]
    exact all
  have ended := terminated ((cmd :: args).map .string) k
  rw [List.length_map, List.length_cons] at ended
  refine ⟨⟨cmd, (cmd :: args).map .string ++ [.null] ++ List.replicate k .unset, none, none, none⟩,
    ?_, rfl, take_vector _ k (by simp [Form.arguments])⟩
  change valueopts ((cmd :: args).map .string) = _
  unfold valueopts
  simp only [putvalues_strings, count, array, bind, Except.bind, placed, ended]
  rfl

theorem fields_vectored (execfile : Bytes) (args : List Bytes) (rest : ℤ → Value)
    (runpath : Option Bytes) (stdio : S) (env : E) (few : args.length + 2 < 2 ^ 31) :
    (Form.table execfile (some args) rest runpath stdio env).Vectored := by
  have argc : int (1 + args.length) = (args.length + 1 : ℕ) := by
    rw [int, BitVec.toInt_ofInt, Int.bmod_eq_of_le (by omega) (by omega)]
    omega
  have size : int (((args.length + 1 : ℕ) : ℤ) + 1) = ((args.length + 1 : ℕ) : ℤ) + 1 := by
    rw [int, BitVec.toInt_ofInt, Int.bmod_eq_of_le (by omega) (by omega)]
  have loops : (((args.length + 1 : ℕ) : ℤ) - 1).toNat = args.length := by omega
  obtain ⟨k, array⟩ := argsarray_room (args.length + 1) _ size
  have placed : putstrings args 1 (List.replicate (args.length + 1 + 1 + k) .unset) =
      .ok ([.unset] ++ args.map .string ++ List.replicate (1 + k) .unset) := by
    have all := putstrings_placed args [.unset] (List.replicate args.length .unset)
      (List.replicate (1 + k) .unset) (by simp)
    rw [Nat.add_assoc, replicate_split, Nat.add_comm args.length 1, replicate_split]
    exact all
  have values (j : ℕ) (s : Bytes) (found : args[j]? = some s) :
      Form.sequence args rest (1 + j) = .string s := by
    have inside := (List.getElem?_eq_some_iff.mp found).1
    have index : ((1 : ℤ) + j - 1).toNat = j := by omega
    rw [Form.sequence, if_pos ⟨by omega, by omega⟩, index, found]
    rfl
  have named : assign ([.unset] ++ args.map .string ++ List.replicate (1 + k) .unset) 0
      (.string execfile) =
        .ok ((execfile :: args).map .string ++ List.replicate (1 + k) .unset) := by
    have room : 0 < ([Cell.unset] ++ args.map Cell.string ++
        List.replicate (1 + k) Cell.unset).length := by
      simp
    exact assign_inside room
  have ended := terminated ((execfile :: args).map .string) k
  rw [List.length_map, List.length_cons] at ended
  refine ⟨⟨execfile, (execfile :: args).map .string ++ [.null] ++ List.replicate k .unset, runpath,
    some stdio, some env⟩, ?_, rfl, take_vector _ k (by simp [Form.arguments])⟩
  have cwd : optstrfield "runpath" (runpath.elim .nil .string) = .ok runpath := by
    cases runpath <;> rfl
  have fields : putfields (Form.sequence args rest) args.length 1
      (List.replicate (args.length + 1 + 1 + k) .unset) =
        .ok ([.unset] ++ args.map .string ++ List.replicate (1 + k) .unset) := by
    rw [putfields_strings args 1 _ values, placed]
  change tableopts _ = _
  unfold tableopts
  simp only [getstrfield, tostring, cwd, Option.elim_some, putarguments, argc, array, loops, fields,
    bind, Except.bind, pure, Except.pure, named, ended]

/-- Without the field the terminator is where the file was. -/
theorem absent_unvectored (execfile : Bytes) (rest : ℤ → Value) (runpath : Option Bytes) (stdio : S)
    (env : E) : ¬ (Form.table execfile none rest runpath stdio env).Vectored := by
  rintro ⟨opts, made, -, vector⟩
  have cwd : optstrfield "runpath" (runpath.elim .nil .string) = .ok runpath := by
    cases runpath <;> rfl
  change tableopts _ = _ at made
  unfold tableopts at made
  have room : 0 < (List.replicate (LCU_EXECARGCOUNT + 1) Cell.unset).length := by
    rw [List.length_replicate]
    exact Nat.succ_pos _
  simp only [getstrfield, tostring, cwd, Option.elim_none, putarguments, bind, Except.bind, pure,
    Except.pure] at made
  generalize List.replicate (LCU_EXECARGCOUNT + 1) Cell.unset = array at room made
  have named : assign array 0 (.string execfile) = .ok (array.set 0 (.string execfile)) :=
    assign_inside room
  have ended : assign (array.set 0 (.string execfile)) 0 .null =
      .ok ((array.set 0 (.string execfile)).set 0 .null) :=
    assign_inside (by rw [List.length_set]; exact room)
  simp only [named, ended] at made
  obtain rfl := Except.ok.inj made
  have first := congrArg (fun cells => cells[0]?) vector
  simp [room] at first

theorem bind_ok {α β : Type} {x : Except Error α} {f : α → Except Error β} {b : β}
    (made : x >>= f = .ok b) : ∃ a, x = .ok a ∧ f a = .ok b := by
  cases x with
  | error err => cases made
  | ok a => exact ⟨a, rfl, made⟩

theorem argsarray_length {array : List Cell} (made : argsarray argc (int size) = .ok array) :
    array.length < 2 ^ 31 := by
  have bound : int size < 2 ^ 31 := BitVec.toInt_lt
  unfold argsarray at made
  split_ifs at made
  · cases made
    rw [List.length_replicate]
    omega
  · cases made
    rw [List.length_replicate]
    decide

theorem putfields_length {count : ℕ} {i : ℤ} {args' : List Cell}
    (put : putfields geti count i args = .ok args') : args'.length = args.length := by
  induction count generalizing i args with
  | zero =>
    cases put
    rfl
  | succ count ih =>
    rw [putfields] at put
    cases value : tostring (geti i) with
    | none => simp [value] at put
    | some s =>
      simp only [value] at put
      cases assigned : assign args i (.string s) with
      | error err => simp [assigned, bind, Except.bind] at put
      | ok next =>
        simp only [assigned, bind, Except.bind] at put
        rw [ih put, assign_ok assigned, List.length_set]

theorem putarguments_length {arguments : Arguments} {array : List Cell}
    (put : putarguments arguments = .ok (argc, array)) : array.length < 2 ^ 31 := by
  cases arguments with
  | nil =>
    cases put
    rw [List.length_replicate]
    decide
  | table len geti =>
    rw [putarguments] at put
    cases made : argsarray (int (1 + len)) (int (int (1 + len) + 1)) with
    | error err => simp [made, bind, Except.bind] at put
    | ok start =>
      cases filled : putfields geti (int (1 + len) - 1).toNat 1 start with
      | error err => simp only [made, filled, bind, Except.bind, reduceCtorEq] at put
      | ok final =>
        simp only [made, filled, bind, Except.bind, pure, Except.pure, Except.ok.injEq,
          Prod.mk.injEq] at put
        rw [← put.2, putfields_length filled]
        exact argsarray_length made
  | other => cases put

/-- No array is longer than its count. -/
theorem tableopts_length {opts : Options S E} {fields : Fields S E}
    (made : tableopts fields = .ok opts) : opts.args.length < 2 ^ 31 := by
  unfold tableopts at made
  obtain ⟨file, -, made⟩ := bind_ok made
  obtain ⟨cwd, -, made⟩ := bind_ok made
  obtain ⟨stdio, -, made⟩ := bind_ok made
  obtain ⟨⟨argc, array⟩, put, made⟩ := bind_ok made
  obtain ⟨env, -, made⟩ := bind_ok made
  obtain ⟨named, first, made⟩ := bind_ok made
  obtain ⟨final, last, made⟩ := bind_ok made
  obtain rfl := Except.ok.inj made
  change final.length < 2 ^ 31
  rw [assign_ok last, List.length_set, assign_ok first, List.length_set]
  exact putarguments_length put

/-- Lists of strings and tables with a field for the arguments give the whole command line. -/
theorem getprocopts_vector (form : Form S E) : form.Vectored ↔ form.Counted := by
  cases form with
  | strings cmd args => exact ⟨fun _ => trivial, fun _ => strings_vectored cmd args⟩
  | table execfile arguments rest runpath stdio env =>
    cases arguments with
    | none =>
      exact ⟨fun vectored => absurd vectored (absent_unvectored execfile rest runpath stdio env),
        fun counted => counted.elim⟩
    | some args =>
      refine ⟨?_, fun few => fields_vectored execfile args rest runpath stdio env few⟩
      rintro ⟨opts, made, -, vector⟩
      have short : opts.args.length < 2 ^ 31 := tableopts_length made
      have long := congrArg List.length vector
      simp only [Form.file, Form.arguments, Option.getD_some, List.length_take, List.length_append,
        List.length_map, List.length_cons, List.length_nil] at long
      change args.length + 2 < 2 ^ 31
      omega

theorem getprocopts_vector_not :
    ¬ ∀ form : Form Unit Unit, form.Vectored := fun vectored =>
  absent_unvectored (literal "true") (fun _ => .nil) none () () (vectored _)

end

end Coutil.ProcessArguments
