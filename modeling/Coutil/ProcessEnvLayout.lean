import Mathlib
import Coutil.ProcessEnv

set_option autoImplicit false

/-! The block that is made of a table of strings, and what is read from it. -/
namespace Coutil.ProcessEnvLayout
open AccessTrace Traced ByteString TableTraversal ProcessEnv

abbrev Variable := Bytes × Bytes

def entry (v : Variable) : Value × Option Value := (.string v.1, some (.string v.2))

/-- The table maps names to values, which are C strings, with no equals sign in a name. -/
structure Plain (t : Env) (vars : List Variable) : Prop where
  entries : t = vars.map entry
  nodup : (keys t).Nodup
  whole : ∀ v ∈ vars, 0 ∉ v.1 ∧ 0 ∉ v.2
  names : ∀ v ∈ vars, '='.toUInt8 ∉ v.1

/-- A variable in the block, up to its final zero. -/
def line (v : Variable) : Bytes := v.1 ++ '='.toUInt8 :: (v.2 ++ [0])

def stores : ℕ → Bytes → List Write
  | _, [] => []
  | address, c :: cs => .char address c :: stores (address + 1) cs

def writes : List Variable → ℕ → ℕ → List Write
  | [], _, _ => []
  | v :: vars, i, envv =>
    .pointer i (some envv) :: stores envv (line v) ++ writes vars (i + 1) (envv + (line v).length)

/-- How many bytes the first traversal counts. -/
def total (word : ℕ) (vars : List Variable) : ℕ :=
  (vars.map fun v => word + (v.1.length + 1 + v.2.length + 1)).sum

/-- What happens to the block. -/
def effect : Access → Option Access
  | .alloc size => some (.alloc size)
  | .write w => some (.write w)
  | _ => none

def allocated (log : List Access) : List ℕ :=
  log.filterMap fun
    | .alloc size => some size
    | _ => none

section
variable {word : ℕ} {t : Env} {rest : List Variable} {v : Variable} {last current : Option Value}

theorem line_length (v : Variable) : (line v).length = v.1.length + 1 + v.2.length + 1 := by
  simp [line]
  omega

theorem stores_append (envv : ℕ) (xs ys : Bytes) :
    stores envv (xs ++ ys) = stores envv xs ++ stores (envv + xs.length) ys := by
  induction xs generalizing envv with
  | nil => rfl
  | cons c cs ih =>
    rw [List.cons_append, stores, stores, ih, List.length_cons, List.cons_append,
      Nat.add_right_comm, Nat.add_assoc]

theorem luanext_ends (found : next t current = .finished) :
    Yields effect (luanext t last current) none [] := by
  unfold luanext
  rw [found]
  exact yields_access _ _

theorem write_yields (w : Write) : Yields effect (write w) () [.write w] := yields_access _ _

theorem store_yields (envv : ℕ) (cs : Bytes) :
    Yields effect (store envv cs) (envv + cs.length) ((stores envv cs).map .write) := by
  induction cs generalizing envv with
  | nil => exact yields_pure _
  | cons c cs ih =>
    have again := ih (envv + 1)
    rw [Nat.add_assoc, Nat.add_comm 1] at again
    exact (write_yields (.char envv c)).bind again

theorem chars_yields {text : Bytes} (whole : 0 ∉ text) :
    Yields effect (chars (some text)) text [] := by
  have same := cstring_eq whole
  unfold chars
  change Yields effect (access (.copy (some text)) (.ok (cstring text))) text []
  rw [same]
  exact yields_access _ _

theorem strlen_yields {text : Bytes} (whole : 0 ∉ text) :
    Yields effect (strlen (some text)) text.length [] := by
  have same := cstring_eq whole
  unfold strlen
  change Yields effect (access (.length (some text)) (.ok (cstring text).length)) text.length []
  rw [same]
  exact yields_access _ _

theorem accepted (whole : 0 ∉ v.1) (names : '='.toUInt8 ∉ v.1) :
    refused (some v.1) (some v.2) = false := by
  change (false || decide ('='.toUInt8 ∈ cstring v.1)) = false
  rw [cstring_eq whole, Bool.false_or]
  exact decide_eq_false names

/-- The first traversal counts the variables and their bytes. -/
theorem check_yields (word : ℕ) (plain : ∀ v ∈ rest, (0 ∉ v.1 ∧ 0 ∉ v.2) ∧ '='.toUInt8 ∉ v.1)
    (nodup : (keys t).Nodup) (upto : Upto t (rest.map entry) current)
    (last : Option Value) (more envc envsz : ℕ) :
    Yields effect (check word t (rest.length + 1 + more) last current envc envsz)
      (envc + rest.length, envsz + total word rest) [] := by
  induction rest generalizing last current envc envsz with
  | nil =>
    rw [List.length_nil, Nat.zero_add, Nat.add_comm]
    exact (luanext_ends upto.goes).bind (yields_pure _)
  | cons v rest ih =>
    obtain ⟨⟨⟨name, value⟩, proper⟩, plain⟩ := List.forall_mem_cons.mp plain
    obtain ⟨found, here, upto⟩ := upto.entry nodup
    have counts : envc + 1 + rest.length = envc + (v :: rest).length := by
      rw [List.length_cons]
      omega
    have sizes : envsz + (word + (v.1.length + 1 + v.2.length + 1)) + total word rest =
        envsz + total word (v :: rest) := by
      rw [total, total, List.map_cons, List.sum_cons]
      omega
    have again := ih plain upto (some (.string v.1)) (envc + 1)
      (envsz + (word + (v.1.length + 1 + v.2.length + 1)))
    rw [counts, sizes] at again
    rw [List.length_cons, Nat.add_right_comm, check_entry found, here]
    refine (yields_access _ ()).bind ?_
    have passed := accepted name proper
    change Yields effect (if refused (some v.1) (some v.2) then _ else _) _ _
    rw [if_neg (by simp [passed])]
    exact (strlen_yields name).bind ((strlen_yields value).bind again)

/-- The second traversal lays out the variables. -/
theorem fill_yields (plain : ∀ v ∈ rest, (0 ∉ v.1 ∧ 0 ∉ v.2) ∧ '='.toUInt8 ∉ v.1)
    (nodup : (keys t).Nodup) (upto : Upto t (rest.map entry) current)
    (last : Option Value) (more i envv : ℕ) :
    Yields effect (fill t (rest.length + 1 + more) last current i envv) (i + rest.length)
      ((writes rest i envv).map .write) := by
  induction rest generalizing last current i envv with
  | nil =>
    rw [List.length_nil, Nat.zero_add, Nat.add_comm]
    exact (luanext_ends upto.goes).bind (yields_pure _)
  | cons v rest ih =>
    obtain ⟨⟨⟨name, value⟩, proper⟩, plain⟩ := List.forall_mem_cons.mp plain
    obtain ⟨found, here, upto⟩ := upto.entry nodup
    have place : envv + v.1.length + 1 + (v.2 ++ [0]).length = envv + (line v).length := by
      rw [line_length, List.length_append, List.length_singleton]
      omega
    have counts : i + 1 + rest.length = i + (v :: rest).length := by
      rw [List.length_cons]
      omega
    have laid : (writes (v :: rest) i envv).map Access.write =
        [] ++ ([.write (.pointer i (some envv))] ++ ([] ++ ((stores envv v.1).map .write ++
          ([.write (.char (envv + v.1.length) '='.toUInt8)] ++ ([] ++
            ((stores (envv + v.1.length + 1) (v.2 ++ [0])).map .write ++
              (writes rest (i + 1) (envv + (line v).length)).map .write)))))) := by
      rw [writes, line, stores_append, stores]
      simp
    have again := ih plain upto (some (.string v.1)) (i + 1) (envv + (line v).length)
    rw [counts, ← place] at again
    rw [List.length_cons, Nat.add_right_comm, fill_entry found, here, laid, ← place]
    refine (yields_access _ ()).bind ?_
    refine (write_yields _).bind ?_
    refine (chars_yields name).bind ?_
    refine (store_yields envv v.1).bind ?_
    refine (write_yields _).bind ?_
    refine (chars_yields value).bind ?_
    exact (store_yields _ _).bind again

variable {vars : List Variable}

theorem newprocenv_yields (word : ℕ) (plain : Plain t vars) (more : ℕ) :
    Yields effect (newprocenv word t (vars.length + 1 + more)) ()
      (.alloc (word + total word vars) :: ((writes vars 0 ((vars.length + 1) * word)).map .write ++
        [.write (.pointer vars.length none)])) := by
  have proper : ∀ v ∈ vars, (0 ∉ v.1 ∧ 0 ∉ v.2) ∧ '='.toUInt8 ∉ v.1 :=
    fun v member => ⟨plain.whole v member, plain.names v member⟩
  have upto : Upto t (vars.map entry) none := by
    rw [← plain.entries]
    exact upto_start t
  have counted := check_yields word proper plain.nodup upto none more 0 word
  have filled := fill_yields proper plain.nodup upto none more 0 ((vars.length + 1) * word)
  rw [Nat.zero_add] at counted filled
  refine counted.bind ?_
  refine (yields_access (Access.alloc (word + total word vars)) ()).bind ?_
  exact filled.bind (write_yields (.pointer vars.length none))

theorem written_effect (log : List Access) : written (log.filterMap effect) = written log := by
  rw [written, List.filterMap_filterMap]
  apply List.filterMap_congr
  intro a _
  cases a <;> rfl

theorem allocated_effect (log : List Access) : allocated (log.filterMap effect) = allocated log := by
  rw [allocated, List.filterMap_filterMap]
  apply List.filterMap_congr
  intro a _
  cases a <;> rfl

theorem written_map (ws : List Write) : written (ws.map .write) = ws := by
  induction ws with
  | nil => rfl
  | cons w ws ih => exact congrArg (w :: ·) ih

theorem allocated_map (ws : List Write) : allocated (ws.map .write) = [] := by
  induction ws with
  | nil => rfl
  | cons w ws ih => exact ih

/-- What the call writes, and what it allocates. -/
theorem newprocenv_written (word : ℕ) (plain : Plain t vars) (more : ℕ) :
    written (newprocenv word t (vars.length + 1 + more)).trace =
        writes vars 0 ((vars.length + 1) * word) ++ [.pointer vars.length none] ∧
      allocated (newprocenv word t (vars.length + 1 + more)).trace = [word + total word vars] := by
  have log := (newprocenv_yields word plain more).log
  constructor
  · rw [← written_effect, log]
    change written (List.map _ _ ++ List.map Access.write [_]) = _
    rw [← List.map_append, written_map]
  · rw [← allocated_effect, log]
    change _ :: allocated (List.map _ _ ++ List.map Access.write [_]) = _
    rw [← List.map_append, allocated_map]

theorem stores_offsets (envv : ℕ) (cs : Bytes) :
    (stores envv cs).flatMap (Write.offsets word) = List.range' envv cs.length := by
  induction cs generalizing envv with
  | nil => rfl
  | cons c cs ih =>
    rw [stores, List.flatMap_cons, ih, List.length_cons, List.range'_succ]
    rfl

/-- The pointers and the characters each fill what follows the first one. -/
theorem writes_offsets (word : ℕ) (vars : List Variable) (i envv : ℕ) :
    ((writes vars i envv).flatMap (Write.offsets word)).Perm
      (List.range' (i * word) (vars.length * word) ++
        List.range' envv (vars.flatMap line).length) := by
  induction vars generalizing i envv with
  | nil => simp [writes]
  | cons v vars ih =>
    have slots : List.range' (i * word) ((v :: vars).length * word) =
        List.range' (i * word) word ++ List.range' ((i + 1) * word) (vars.length * word) := by
      rw [List.length_cons, Nat.succ_mul, Nat.succ_mul, Nat.add_comm (vars.length * word),
        List.range'_append_1]
    have bytes : List.range' envv ((v :: vars).flatMap line).length =
        List.range' envv (line v).length ++
          List.range' (envv + (line v).length) (vars.flatMap line).length := by
      rw [List.flatMap_cons, List.length_append, List.range'_append_1]
    have again := ih (i + 1) (envv + (line v).length)
    rw [writes, List.flatMap_append, List.flatMap_cons, stores_offsets, slots, bytes,
      List.append_assoc, List.append_assoc]
    apply List.Perm.append_left
    exact (again.append_left _).trans (List.perm_append_comm_assoc _ _ _)

theorem total_eq (vars : List Variable) :
    total word vars = vars.length * word + (vars.flatMap line).length := by
  induction vars with
  | nil => simp [total]
  | cons v vars ih =>
    rw [total, List.map_cons, List.sum_cons, ← total, ih, List.length_cons, List.flatMap_cons,
      List.length_append, line_length, Nat.succ_mul]
    omega

/-- The writes fill the block. -/
theorem block_filled (vars : List Variable) :
    ((writes vars 0 ((vars.length + 1) * word) ++ [Write.pointer vars.length none]).flatMap
      (Write.offsets word)).Perm (List.range (word + total word vars)) := by
  have size : word + total word vars =
      vars.length * word + (word + (vars.flatMap line).length) := by
    rw [total_eq]
    omega
  have last : [Write.pointer vars.length none].flatMap (Write.offsets word) =
      List.range' (0 + vars.length * word) word := by
    rw [Nat.zero_add]
    exact List.append_nil _
  have start : 0 + vars.length * word + word = (vars.length + 1) * word := by
    rw [Nat.zero_add, Nat.succ_mul]
  have first := writes_offsets word vars 0 ((vars.length + 1) * word)
  rw [Nat.zero_mul] at first
  rw [List.flatMap_append, last, size, List.range_eq_range', ← List.range'_append_1,
    ← List.range'_append_1, start]
  refine (first.append_right _).trans ?_
  rw [List.append_assoc]
  exact List.perm_append_comm.append_left _

/-- The bytes from an address on. -/
def Holds (m : Block) (address : ℕ) (bytes : Bytes) : Prop :=
  ∀ k c, bytes[k]? = some c → m.chars (address + k) = some c

/-- The list has a pointer to each variable, and then `NULL`. -/
def Listed (m : Block) : List Variable → ℕ → ℕ → Prop
  | [], i, _ => m.pointers i = some none
  | v :: vars, i, envv => m.pointers i = some (some envv) ∧ Holds m envv (line v) ∧
      Listed m vars (i + 1) (envv + (line v).length)

/-- All that is written is from a slot on and from an address on. -/
def Above (ws : List Write) (i envv : ℕ) : Prop :=
  ∀ w ∈ ws, match w with
    | .pointer slot _ => i ≤ slot
    | .char address _ => envv ≤ address

section
variable {m : Block} {ws : List Write} {i envv : ℕ}

theorem above_frame (above : Above ws i envv) :
    (∀ slot < i, (ws.foldl Block.apply m).pointers slot = m.pointers slot) ∧
      ∀ address < envv, (ws.foldl Block.apply m).chars address = m.chars address := by
  induction ws generalizing m with
  | nil => exact ⟨fun _ _ => rfl, fun _ _ => rfl⟩
  | cons w ws ih =>
    obtain ⟨first, above⟩ := List.forall_mem_cons.mp above
    obtain ⟨slots, addresses⟩ := ih (m := m.apply w) above
    refine ⟨fun slot less => (slots slot less).trans ?_, fun address less =>
      (addresses address less).trans ?_⟩
    · cases w with
      | pointer s p => exact Function.update_of_ne (Nat.ne_of_lt (Nat.lt_of_lt_of_le less first)) _ _
      | char a c => rfl
    · cases w with
      | pointer s p => rfl
      | char a c => exact Function.update_of_ne (Nat.ne_of_lt (Nat.lt_of_lt_of_le less first)) _ _

theorem stores_above (envv i : ℕ) (cs : Bytes) : Above (stores envv cs) i envv := by
  induction cs generalizing envv with
  | nil => exact List.forall_mem_nil _
  | cons c cs ih =>
    refine List.forall_mem_cons.mpr ⟨Nat.le_refl envv, fun w member => ?_⟩
    have later := ih (envv + 1) w member
    cases w with
    | pointer s p => exact later
    | char a c => exact Nat.le_of_succ_le later

theorem Above.mono (above : Above ws i envv) {i' envv' : ℕ} (slot : i' ≤ i) (address : envv' ≤ envv) :
    Above ws i' envv' := by
  intro w member
  have later := above w member
  cases w with
  | pointer s p => exact Nat.le_trans slot later
  | char a c => exact Nat.le_trans address later

theorem writes_above (vars : List Variable) (i envv : ℕ) : Above (writes vars i envv) i envv := by
  induction vars generalizing i envv with
  | nil => exact List.forall_mem_nil _
  | cons v vars ih =>
    have later := (ih (i + 1) (envv + (line v).length)).mono (Nat.le_succ i) (Nat.le_add_right _ _)
    refine List.forall_mem_append.mpr ⟨List.forall_mem_cons.mpr ⟨Nat.le_refl i, ?_⟩, later⟩
    exact stores_above envv i (line v)

theorem stores_holds (m : Block) (envv : ℕ) (cs : Bytes) :
    Holds ((stores envv cs).foldl Block.apply m) envv cs := by
  induction cs generalizing m envv with
  | nil => exact fun k c found => nomatch found
  | cons d cs ih =>
    intro k c found
    cases k with
    | zero =>
      cases found
      have kept := (above_frame (m := m.apply (.char envv d)) (stores_above (envv + 1) 0 cs)).2
      exact (kept envv (Nat.lt_succ_self envv)).trans (Function.update_self _ _ _)
    | succ k =>
      have later := ih (m.apply (.char envv d)) (envv + 1) k c found
      rwa [Nat.add_assoc, Nat.add_comm 1] at later

theorem listed_writes (vars : List Variable) (m : Block) (i envv : ℕ) :
    Listed ((writes vars i envv ++ [Write.pointer (i + vars.length) none]).foldl Block.apply m)
      vars i envv := by
  induction vars generalizing m i envv with
  | nil => exact Function.update_self _ _ _
  | cons v vars ih =>
    have last : i + (v :: vars).length = i + 1 + vars.length := by
      rw [List.length_cons]
      omega
    have above : Above (writes vars (i + 1) (envv + (line v).length) ++
        [Write.pointer (i + 1 + vars.length) none]) (i + 1) (envv + (line v).length) := by
      refine List.forall_mem_append.mpr ⟨writes_above _ _ _, List.forall_mem_singleton.mpr ?_⟩
      exact Nat.le_add_right _ _
    rw [writes, last, List.append_assoc, List.cons_append, List.foldl_cons, List.foldl_append]
    have later := above_frame (m := (stores envv (line v)).foldl Block.apply
      (m.apply (.pointer i (some envv)))) above
    have inner := above_frame (m := m.apply (.pointer i (some envv)))
      (stores_above envv (i + 1) (line v))
    refine ⟨?_, ?_, ih _ (i + 1) (envv + (line v).length)⟩
    · rw [later.1 i (Nat.lt_succ_self i), inner.1 i (Nat.lt_succ_self i)]
      exact Function.update_self _ _ _
    · intro k c found
      have inside : k < (line v).length := (List.getElem?_eq_some_iff.mp found).1
      rw [later.2 (envv + k) (by omega)]
      exact stores_holds _ envv (line v) k c found

end

end

end Coutil.ProcessEnvLayout
