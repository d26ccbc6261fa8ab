import Coutil.ProcessEnvLayout

set_option autoImplicit false

/-! The variables that are read from a packed environment. -/
namespace Coutil.ProcessEnvReading
open AccessTrace Traced ByteString TableTraversal ProcessEnv ProcessEnvLayout

/-- A variable as a C string. -/
def shown (v : Variable) : Bytes := v.1 ++ '='.toUInt8 :: v.2

def addresses : List Variable → ℕ → List ℕ
  | [], _ => []
  | v :: vars, envv => envv :: addresses vars (envv + (line v).length)

/-- The variables are C strings without an equals sign in their names, and shorter than the fuel. -/
def Proper (fuel : ℕ) (vars : List Variable) : Prop :=
  ∀ v ∈ vars, 0 ∉ shown v ∧ '='.toUInt8 ∉ v.1 ∧ (line v).length ≤ fuel

section
variable {m : Block} {fuel : ℕ} {vars : List Variable} {v : Variable} {i envv : ℕ}

theorem line_eq (v : Variable) : line v = shown v ++ [0] := by simp [line, shown]

theorem holds_tail {c : UInt8} {cs : Bytes} {address : ℕ} (holds : Holds m address (c :: cs)) :
    m.chars address = some c ∧ Holds m (address + 1) cs := by
  refine ⟨holds 0 c rfl, fun k d found => ?_⟩
  rw [Nat.add_assoc, Nat.add_comm 1]
  exact holds (k + 1) d found

theorem holds_right {xs ys : Bytes} {address : ℕ} (holds : Holds m address (xs ++ ys)) :
    Holds m (address + xs.length) ys := by
  intro k c found
  rw [Nat.add_assoc]
  apply holds
  rw [List.getElem?_append_right (Nat.le_add_right _ _), Nat.add_sub_cancel_left]
  exact found

theorem text_read {text : Bytes} (whole : 0 ∉ text) {address : ℕ}
    (holds : Holds m address (text ++ [0])) (long : text.length < fuel) :
    m.text fuel address = some text := by
  induction text generalizing fuel address with
  | nil =>
    obtain ⟨fuel, rfl⟩ := Nat.exists_eq_succ_of_ne_zero (Nat.ne_of_gt long)
    rw [Block.text, (holds_tail holds).1]
    rfl
  | cons c text ih =>
    obtain ⟨fuel, rfl⟩ := Nat.exists_eq_succ_of_ne_zero (Nat.ne_of_gt (Nat.zero_lt_of_lt long))
    obtain ⟨nonzero, whole⟩ := not_or.mp (mt List.mem_cons.mpr whole)
    have rest := ih whole (holds_tail holds).2 (Nat.lt_of_succ_lt_succ long)
    rw [Block.text, (holds_tail holds).1]
    change (if c = 0 then some [] else _) = _
    rw [if_neg (Ne.symm nonzero), rest]
    rfl

theorem list_read (listed : Listed m vars i envv) (long : vars.length < fuel) :
    m.list fuel i = some (addresses vars envv) := by
  induction vars generalizing fuel i envv with
  | nil =>
    obtain ⟨fuel, rfl⟩ := Nat.exists_eq_succ_of_ne_zero (Nat.ne_of_gt long)
    rw [Block.list, show m.pointers i = some none from listed]
    rfl
  | cons v vars ih =>
    obtain ⟨fuel, rfl⟩ := Nat.exists_eq_succ_of_ne_zero (Nat.ne_of_gt (Nat.zero_lt_of_lt long))
    obtain ⟨pointer, -, listed⟩ := listed
    have rest := ih listed (Nat.lt_of_succ_lt_succ long)
    rw [Block.list, pointer]
    change (do return envv :: (← m.list fuel (i + 1))) = _
    rw [rest]
    rfl

theorem split_shown (names : '='.toUInt8 ∉ v.1) : split (shown v) = some v := by
  have before : ∀ c ∈ v.1, (decide (c ≠ '='.toUInt8)) = true := by
    intro c member
    exact decide_eq_true fun equals => names (equals ▸ member)
  have after : decide ('='.toUInt8 ≠ '='.toUInt8) = false := by decide
  have inside : '='.toUInt8 ∈ shown v := List.mem_append_right _ List.mem_cons_self
  rw [split, if_pos inside, shown, List.takeWhile_append_of_pos before,
    List.dropWhile_append_of_pos before, List.takeWhile_cons, List.dropWhile_cons, after]
  simp

/-- The variables are assigned one after the other. -/
theorem unpack_read (rehash : Env → Env) (proper : Proper fuel vars)
    (listed : Listed m vars i envv) (t : Env) :
    (addresses vars envv).foldlM (fun t address => do
        let (name, value) ← split (← m.text fuel address)
        return assign rehash t (.string name) (some (.string value))) t =
      some (vars.foldl (fun t v => assign rehash t (.string v.1) (some (.string v.2))) t) := by
  induction vars generalizing i envv t with
  | nil => rfl
  | cons v vars ih =>
    obtain ⟨⟨whole, names, long⟩, proper⟩ := List.forall_mem_cons.mp proper
    obtain ⟨-, holds, listed⟩ := listed
    rw [line_eq] at holds
    have short : (shown v).length < fuel := by
      rw [line_eq, List.length_append, List.length_singleton] at long
      omega
    rw [addresses, List.foldlM_cons, text_read whole holds short]
    change (do let (name, value) ← split (shown v); _) >>= _ = _
    rw [split_shown names]
    exact ih proper listed _

/-- The table has the variables that were assigned and what it had for other names. -/
theorem lookup_assigned {rehash : Env → Env}
    (reorders : ∀ t key, lookup (rehash t) key = lookup t key)
    (nodup : (keys (vars.map entry)).Nodup) (t : Env) (key : Value) :
    lookup (vars.foldl (fun t v => assign rehash t (.string v.1) (some (.string v.2))) t) key =
      if key ∈ keys (vars.map entry) then lookup (vars.map entry) key else lookup t key := by
  induction vars generalizing t with
  | nil => simp [keys]
  | cons v vars ih =>
    have split : keys ((v :: vars).map entry) = .string v.1 :: keys (vars.map entry) := rfl
    rw [split] at nodup ⊢
    obtain ⟨absent, nodup⟩ := List.nodup_cons.mp nodup
    have first : lookup ((v :: vars).map entry) key =
        if .string v.1 = key then some (.string v.2) else lookup (vars.map entry) key := rfl
    rw [List.foldl_cons, ih nodup, lookup_assign reorders, first]
    simp only [List.mem_cons]
    by_cases here : key = .string v.1
    · subst key
      simp [absent]
    · simp [here, Ne.symm here]

theorem strncmp_begins {name text : Bytes} (follows : name <+: text) :
    strncmp (name ++ [0]) (text ++ [0]) name.length = true := by
  induction name generalizing text with
  | nil => simp [strncmp]
  | cons c name ih =>
    obtain ⟨rest, rfl⟩ := follows
    have again := ih (List.prefix_append name rest)
    rw [List.length_cons, List.cons_append, List.cons_append, List.cons_append, strncmp, again]
    simp

theorem strncmp_cases {name text : Bytes} (whole : 0 ∉ text)
    (same : strncmp (name ++ [0]) (text ++ [0]) name.length = true) :
    name <+: text ∨ text <+: name := by
  induction name generalizing text with
  | nil => exact Or.inl List.nil_prefix
  | cons c name ih =>
    cases text with
    | nil => exact Or.inr List.nil_prefix
    | cons d text =>
      obtain ⟨nonzero, short⟩ := not_or.mp (mt List.mem_cons.mpr whole)
      rw [List.length_cons, List.cons_append, List.cons_append, strncmp, Bool.and_eq_true,
        Bool.or_eq_true, decide_eq_true_iff, decide_eq_true_iff] at same
      obtain ⟨rfl, rest⟩ := same
      have rest := rest.resolve_left (Ne.symm nonzero)
      exact (ih short rest).imp (List.prefix_cons_inj c).mpr (List.prefix_cons_inj c).mpr

/-- A name without an equals sign is found by the variable of that name only. -/
theorem named_read {name : Bytes} (proper : '='.toUInt8 ∉ name) (whole : 0 ∉ shown v)
    (names : '='.toUInt8 ∉ v.1) {address : ℕ} (holds : Holds m address (shown v ++ [0]))
    (short : (shown v).length < fuel) : named m fuel name address = some (decide (v.1 = name)) := by
  rw [named, text_read whole holds short]
  change (if strncmp (name ++ [0]) (shown v ++ [0]) name.length then do
      return decide ((← m.chars (address + name.length)) = '='.toUInt8)
    else return false) = some (decide (v.1 = name))
  have inside : '='.toUInt8 ∈ shown v := List.mem_append_right _ List.mem_cons_self
  by_cases same : strncmp (name ++ [0]) (shown v ++ [0]) name.length = true
  · have follows : name <+: shown v := by
      rcases strncmp_cases whole same with follows | longer
      · exact follows
      · exact absurd (longer.subset inside) proper
    obtain ⟨rest, split⟩ := follows
    cases rest with
    | nil =>
      rw [List.append_nil] at split
      exact absurd (split ▸ inside) proper
    | cons d rest =>
      have found : m.chars (address + name.length) = some d := by
        rw [← split, List.append_assoc] at holds
        exact (holds_tail (holds_right holds)).1
      rw [if_pos same, found]
      change some (decide (d = '='.toUInt8)) = _
      congr 2
      rw [eq_iff_iff]
      constructor
      · rintro rfl
        exact ((first_unique proper names split).1).symm
      · rintro rfl
        exact (List.cons.inj (List.append_cancel_left split)).1
  · have other : v.1 ≠ name := by
      rintro rfl
      exact same (strncmp_begins (List.prefix_append v.1 _))
    rw [if_neg same, decide_eq_false other]
    rfl

/-- The value of the variable with a name. -/
def valueof : List Variable → Bytes → Option Bytes
  | [], _ => none
  | v :: vars, name => if v.1 = name then some v.2 else valueof vars name

theorem find_read {name : Bytes} (equals : '='.toUInt8 ∉ name) (proper : Proper fuel vars)
    (listed : Listed m vars i envv) :
    (∃ address value, (addresses vars envv).findM? (named m fuel name) = some (some address) ∧
        m.text fuel (address + name.length + 1) = some value ∧ valueof vars name = some value) ∨
      (addresses vars envv).findM? (named m fuel name) = some none ∧ valueof vars name = none := by
  induction vars generalizing i envv with
  | nil => exact Or.inr ⟨rfl, rfl⟩
  | cons v vars ih =>
    obtain ⟨⟨whole, names, long⟩, proper⟩ := List.forall_mem_cons.mp proper
    obtain ⟨-, holds, listed⟩ := listed
    rw [line_eq] at holds long
    have short : (shown v).length < fuel := by
      rw [List.length_append, List.length_singleton] at long
      omega
    have compared := named_read equals whole names holds short
    rw [addresses, List.findM?, compared]
    by_cases here : v.1 = name
    · subst name
      have value : m.text fuel (envv + v.1.length + 1) = some v.2 := by
        rw [shown, List.append_assoc, List.cons_append] at holds
        apply text_read _ (holds_tail (holds_right holds)).2
        · rw [shown, List.length_append, List.length_cons] at short
          omega
        · exact fun zero => whole (List.mem_append_right _ (List.mem_cons_of_mem _ zero))
      exact Or.inl ⟨envv, v.2, by simp, value, if_pos rfl⟩
    · rw [valueof, if_neg here]
      simpa [here] using ih proper listed

theorem index_read {name : Bytes} (equals : '='.toUInt8 ∉ name) (proper : Proper fuel vars)
    (listed : Listed m vars 0 envv) (long : vars.length < fuel) :
    procenv_index m fuel name = some (.ok (valueof vars name)) := by
  have accepted : '='.toUInt8 ∉ cstring name :=
    fun member => equals ((List.takeWhile_prefix _).subset member)
  unfold procenv_index
  rw [if_neg accepted, list_read listed long]
  rcases find_read equals proper listed with ⟨address, value, found, read, here⟩ | ⟨found, here⟩
  · change ((addresses vars envv).findM? (named m fuel name) >>= _) = _
    rw [found, here]
    change (do return Except.ok (some (← m.text fuel (address + name.length + 1)))) = _
    rw [read]
    rfl
  · change ((addresses vars envv).findM? (named m fuel name) >>= _) = _
    rw [found, here]
    rfl

end

section
variable {word fuel : ℕ} {t : Env} {vars : List Variable}

theorem total_cons (v : Variable) (vars : List Variable) :
    total word (v :: vars) = word + (line v).length + total word vars := by
  rw [total, List.map_cons, List.sum_cons, ← total, line_length]

theorem length_le_total (word : ℕ) (vars : List Variable) : vars.length ≤ total word vars := by
  induction vars with
  | nil => exact Nat.zero_le _
  | cons v vars ih =>
    rw [total_cons, List.length_cons, line_length]
    omega

theorem line_le_total {v : Variable} (member : v ∈ vars) : (line v).length ≤ total word vars := by
  induction vars with
  | nil => cases member
  | cons u vars ih =>
    rw [total_cons]
    rcases List.mem_cons.mp member with rfl | member
    · omega
    · have later := ih member
      omega

theorem listed_last {m : Block} {i envv : ℕ} (listed : Listed m vars i envv) :
    m.pointers (i + vars.length) = some none := by
  induction vars generalizing i envv with
  | nil => exact listed
  | cons v vars ih =>
    rw [List.length_cons, ← Nat.add_assoc, Nat.add_right_comm]
    exact ih listed.2.2

theorem addresses_length (vars : List Variable) (envv : ℕ) :
    (addresses vars envv).length = vars.length := by
  induction vars generalizing envv with
  | nil => rfl
  | cons v vars ih => exact congrArg (· + 1) (ih _)

theorem plain_proper (plain : Plain t vars) (word : ℕ) (enough : total word vars ≤ fuel) :
    Proper fuel vars := by
  intro v member
  obtain ⟨name, value⟩ := plain.whole v member
  refine ⟨?_, plain.names v member, Nat.le_trans (line_le_total member) enough⟩
  rw [shown, List.mem_append, List.mem_cons]
  exact fun zero => zero.elim name fun zero => zero.elim (by decide) value

theorem lookup_entries (vars : List Variable) (name : Bytes) :
    (lookup (vars.map entry) (.string name)).bind Value.tostring = valueof vars name := by
  induction vars with
  | nil => rfl
  | cons v vars ih =>
    rw [List.map_cons, entry, lookup, valueof, ← ih]
    by_cases here : v.1 = name
    · rw [if_pos (congrArg Value.string here), if_pos here]
      rfl
    · rw [if_neg (fun same => here (Value.string.inj same)), if_neg here]

/-- A table of strings is packed into a block that its writes fill, with a list of pointers, and is
read again from it. -/
theorem packenv_round_trip (word : ℕ) (rehash : Env → Env)
    (reorders : ∀ t key, lookup (rehash t) key = lookup t key) (plain : Plain t vars)
    (enough : word + total word vars < fuel) :
    let call := newprocenv word t fuel
    let env := block call.trace
    call.result = .ok () ∧
      (∃ t', system_unpackenv rehash env fuel [] = some t' ∧ ∀ key, lookup t' key = lookup t key) ∧
      (∀ name, '='.toUInt8 ∉ name → procenv_index env fuel name =
        some (.ok ((lookup t (.string name)).bind Value.tostring))) ∧
      (∃ size, allocated call.trace = [size] ∧
        ((written call.trace).flatMap (Write.offsets word)).Perm (List.range size)) ∧
      ∃ envl, env.list fuel 0 = some envl ∧ envl.length = t.length ∧
        env.pointers t.length = some none := by
  obtain ⟨more, rfl⟩ : ∃ more, fuel = vars.length + 1 + more := by
    have := length_le_total word vars
    exact ⟨fuel - (vars.length + 1), by omega⟩
  have long := length_le_total word vars
  have yields := newprocenv_yields word plain more
  obtain ⟨written_, allocated_⟩ := newprocenv_written word plain more
  have listed : Listed (block (newprocenv word t (vars.length + 1 + more)).trace) vars 0
      ((vars.length + 1) * word) := by
    rw [block, written_]
    have laid := listed_writes vars .empty 0 ((vars.length + 1) * word)
    rwa [Nat.zero_add] at laid
  have proper : Proper (vars.length + 1 + more) vars := plain_proper plain word (by omega)
  have count : t.length = vars.length := by rw [plain.entries, List.length_map]
  refine ⟨yields.result, ⟨vars.foldl (fun t v => assign rehash t (.string v.1) (some (.string v.2))) [],
    ?_, fun key => ?_⟩, fun name equals => ?_, ⟨_, allocated_, ?_⟩,
    ⟨_, list_read listed (by omega), ?_, ?_⟩⟩
  · unfold system_unpackenv
    rw [list_read listed (by omega)]
    exact unpack_read rehash proper listed []
  · have nodup := plain.nodup
    rw [plain.entries] at nodup ⊢
    rw [lookup_assigned reorders nodup]
    by_cases member : key ∈ keys (vars.map entry)
    · rw [if_pos member]
    · rw [if_neg member, lookup_absent member]
      rfl
  · rw [index_read equals proper listed (by omega), plain.entries, lookup_entries]
  · rw [written_]
    exact block_filled vars
  · rw [addresses_length, count]
  · have last := listed_last listed
    rw [Nat.zero_add] at last
    rw [count]
    exact last

end

def twovars : List Variable := [(literal "PATH", literal "/bin:/usr/bin"), (literal "A", literal "b=c")]

theorem twovars_plain : Plain (twovars.map entry) twovars :=
  ⟨rfl, by decide, by decide, by decide⟩

theorem packenv_round_trip_twovars :
    let call := newprocenv 8 (twovars.map entry) 100
    let env := block call.trace
    call.result = .ok () ∧
      (∃ t', system_unpackenv id env 100 [] = some t' ∧
        ∀ key, lookup t' key = lookup (twovars.map entry) key) ∧
      (∀ name, '='.toUInt8 ∉ name → procenv_index env 100 name =
        some (.ok ((lookup (twovars.map entry) (.string name)).bind Value.tostring))) ∧
      (∃ size, allocated call.trace = [size] ∧
        ((written call.trace).flatMap (Write.offsets 8)).Perm (List.range size)) ∧
      ∃ envl, env.list 100 0 = some envl ∧ envl.length = (twovars.map entry).length ∧
        env.pointers (twovars.map entry).length = some none :=
  packenv_round_trip 8 id (fun _ _ => rfl) twovars_plain (by decide)

end Coutil.ProcessEnvReading
