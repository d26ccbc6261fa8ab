import Mathlib.Data.List.Count
import Mathlib.Data.Int.Notation

set_option autoImplicit false

/-! The hints that `system.findaddr` of `src/lcommunf.c` gives to `uv_getaddrinfo`. -/
namespace Coutil.AddressHints

/-- `AF_UNSPEC`, `AF_INET` and `AF_INET6`. -/
inductive Family where
  | unspec
  | inet
  | inet6
  deriving DecidableEq

/-- No type, `SOCK_STREAM` and `SOCK_DGRAM`. -/
inductive Socktype where
  | any
  | stream
  | dgram
  deriving DecidableEq

/-- The bits `AI_*` of the flags. -/
structure Flags where
  passive : Bool
  addrconfig : Bool
  v4mapped : Bool
  all : Bool
  numerichost : Bool
  numericserv : Bool
  deriving DecidableEq

structure Hints where
  ai_family : Family
  ai_socktype : Socktype
  ai_protocol : ℕ
  ai_flags : Flags
  deriving DecidableEq

inductive Error where
  | arg (n : ℕ) (msg : String)
  | mode (msg : String)
  deriving DecidableEq

/-- What `uv_getaddrinfo` is called with; the names are C strings. -/
structure Query where
  nodename : Option (List Char)
  servname : Option (List Char)
  hints : Hints
  deriving DecidableEq

def setfamily (hints : Hints) (family : Family) : Hints :=
  if hints.ai_flags.addrconfig then
    { hints with ai_family := family, ai_flags := { hints.ai_flags with addrconfig := false } }
  else { hints with ai_family := .unspec }

def setsocktype (hints : Hints) (socktype : Socktype) : Hints :=
  if hints.ai_protocol ≠ 0 then { hints with ai_socktype := .any }
  else { hints with ai_socktype := socktype, ai_protocol := 1 }

/-- The loop over the characters of the mode. -/
def scan : List Char → Hints → Except Error Hints
  | [], hints => .ok hints
  | c :: mode, hints =>
    match c with
    | '4' => scan mode (setfamily hints .inet)
    | '6' => scan mode (setfamily hints .inet6)
    | 's' => scan mode (setsocktype hints .stream)
    | 'd' => scan mode (setsocktype hints .dgram)
    | 'm' => scan mode { hints with ai_flags := { hints.ai_flags with v4mapped := true } }
    | 'n' => scan mode { hints with ai_flags := { hints.ai_flags with numerichost := true } }
    | c => .error (.mode ("unknown mode char (got '" ++ c.toString ++ "')"))

/-- The hints of IPv4 mapped addresses. -/
def mapped (hints : Hints) : Except Error Hints :=
  if hints.ai_flags.v4mapped then
    if hints.ai_family = .inet then .error (.arg 3 "'m' is invalid for IPv4")
    else .ok { hints with
      ai_family := .inet6
      ai_flags := if hints.ai_family = .unspec then { hints.ai_flags with all := true }
        else hints.ai_flags }
  else .ok hints

/-- The characters of a string up to the first zero. -/
def cstring (s : List Char) : List Char := s.takeWhile (· ≠ Char.ofNat 0)

def nodeflag (nodename servname : Option (List Char)) : Except Error Bool :=
  match nodename, servname with
  | some nodename, none =>
    if cstring nodename = ['*'] then .error (.arg 2 "service must be provided for '*'")
    else .ok false
  | some nodename, some _ => .ok (cstring nodename = ['*'])
  | none, none => .error (.arg 1 "name or service must be provided")
  | none, some _ => .ok false

def initial (passive : Bool) : Hints where
  ai_family := .unspec
  ai_socktype := .any
  ai_protocol := 0
  ai_flags := ⟨passive, true, false, false, false, false⟩

section
variable (isinteger : List Char → Bool)

/-- What follows the loop. Lua tells whether the service is an integer. -/
def complete (nodename servname : Option (List Char)) (passive : Bool) (hints : Hints) :
    Except Error Query :=
  (mapped hints).map fun hints =>
    { nodename := if passive then none else nodename.map cstring
      servname := servname.map cstring
      hints := { hints with
        ai_protocol := 0
        ai_flags := { hints.ai_flags with numericserv := servname.any isinteger } } }

def k_setupfindaddr (nodename servname : Option (List Char)) (mode : List Char) :
    Except Error Query := do
  let passive ← nodeflag nodename servname
  let hints ← scan (cstring mode) (initial passive)
  complete isinteger nodename servname passive hints

/-! The meaning of a set of characters. -/

/-- The one of two alternatives that is given without the other. -/
def one {α : Type} (has : Char → Bool) (a b : Char) (x y default : α) : α :=
  if has a ∧ ¬ has b then x else if has b ∧ ¬ has a then y else default

def meaningof (has : Char → Bool) (passive : Bool) : Hints where
  ai_family := one has '4' '6' .inet .inet6 .unspec
  ai_socktype := one has 's' 'd' .stream .dgram .any
  ai_protocol := if has 's' ∨ has 'd' then 1 else 0
  ai_flags := ⟨passive, ¬ (has '4' ∨ has '6'), has 'm', false, has 'n', false⟩

def meaning (nodename servname : Option (List Char)) (has : Char → Bool) : Except Error Query := do
  let passive ← nodeflag nodename servname
  complete isinteger nodename servname passive (meaningof has passive)

end

/-! What the loop does. -/

/-- What is given once, and nothing else of the two. -/
def once {α : Type} (mode : List Char) (a b : Char) (x y default : α) : α :=
  if mode.count a + mode.count b = 1 then if mode.count a = 1 then x else y else default

def hintsof (mode : List Char) (passive : Bool) : Hints where
  ai_family := once mode '4' '6' .inet .inet6 .unspec
  ai_socktype := once mode 's' 'd' .stream .dgram .any
  ai_protocol := if mode.count 's' + mode.count 'd' = 0 then 0 else 1
  ai_flags :=
    ⟨passive, mode.count '4' + mode.count '6' = 0, 'm' ∈ mode, false, 'n' ∈ mode, false⟩

section
variable {mode pre : List Char} {passive : Bool}

theorem once_other {α : Type} {a b c : Char} (na : c ≠ a) (nb : c ≠ b) (x y default : α) :
    once (pre ++ [c]) a b x y default = once pre a b x y default := by
  rw [once, List.count_append, List.count_append, List.count_singleton, List.count_singleton]
  simp only [beq_iff_eq, na, nb, if_false, Nat.add_zero]
  rfl

theorem once_first {α : Type} {a b : Char} (other : a ≠ b) (x y default : α) :
    once (pre ++ [a]) a b x y default = if pre.count a + pre.count b = 0 then x else default := by
  have here : (pre ++ [a]).count a = pre.count a + 1 := by simp
  have there : (pre ++ [a]).count b = pre.count b := by
    rw [List.count_append, List.count_singleton]
    simp [other]
  rw [once, here, there]
  split_ifs
  all_goals first | rfl | omega

theorem once_second {α : Type} {a b : Char} (other : b ≠ a) (x y default : α) :
    once (pre ++ [b]) a b x y default = if pre.count a + pre.count b = 0 then y else default := by
  have here : (pre ++ [b]).count b = pre.count b + 1 := by simp
  have there : (pre ++ [b]).count a = pre.count a := by
    rw [List.count_append, List.count_singleton]
    simp [other]
  rw [once, here, there]
  split_ifs
  all_goals first | rfl | omega

theorem count_other {a c : Char} (other : c ≠ a) : (pre ++ [c]).count a = pre.count a := by
  rw [List.count_append, List.count_singleton]
  simp [other]

theorem count_same (pre : List Char) (c : Char) : (pre ++ [c]).count c = pre.count c + 1 := by
  simp

theorem mem_other {a c : Char} (other : c ≠ a) : decide (a ∈ pre ++ [c]) = decide (a ∈ pre) := by
  simp [Ne.symm other]

/-- The hints after one more character. -/
theorem setfamily_inet (pre : List Char) (passive : Bool) :
    setfamily (hintsof pre passive) .inet = hintsof (pre ++ ['4']) passive := by
  have some_ : ¬ pre.count '4' + 1 + pre.count '6' = 0 := by omega
  unfold setfamily hintsof
  rw [once_first (by decide), once_other (by decide) (by decide), count_same,
    count_other (by decide), count_other (by decide), count_other (by decide),
    mem_other (by decide), mem_other (by decide)]
  by_cases zero : pre.count '4' + pre.count '6' = 0
  · simp only [zero, some_, decide_true, decide_false, if_true]
  · simp only [zero, some_, decide_false, if_false, Bool.false_eq_true]

theorem setfamily_inet6 (pre : List Char) (passive : Bool) :
    setfamily (hintsof pre passive) .inet6 = hintsof (pre ++ ['6']) passive := by
  have some_ : ¬ pre.count '4' + (pre.count '6' + 1) = 0 := by omega
  unfold setfamily hintsof
  rw [once_second (by decide), once_other (by decide) (by decide), count_same,
    count_other (by decide), count_other (by decide), count_other (by decide),
    mem_other (by decide), mem_other (by decide)]
  by_cases zero : pre.count '4' + pre.count '6' = 0
  · simp only [zero, some_, decide_true, decide_false, if_true]
  · simp only [zero, some_, decide_false, if_false, Bool.false_eq_true]

theorem setsocktype_stream (pre : List Char) (passive : Bool) :
    setsocktype (hintsof pre passive) .stream = hintsof (pre ++ ['s']) passive := by
  have some_ : ¬ pre.count 's' + 1 + pre.count 'd' = 0 := by omega
  unfold setsocktype hintsof
  rw [once_first (by decide), once_other (by decide) (by decide), count_same,
    count_other (by decide), count_other (by decide), count_other (by decide),
    mem_other (by decide), mem_other (by decide)]
  by_cases zero : pre.count 's' + pre.count 'd' = 0
  · simp only [zero, some_, if_true, if_false, ne_eq, not_true_eq_false]
  · simp only [zero, some_, if_false, ne_eq, Nat.one_ne_zero, not_false_eq_true, if_true]

theorem setsocktype_dgram (pre : List Char) (passive : Bool) :
    setsocktype (hintsof pre passive) .dgram = hintsof (pre ++ ['d']) passive := by
  have some_ : ¬ pre.count 's' + (pre.count 'd' + 1) = 0 := by omega
  unfold setsocktype hintsof
  rw [once_second (by decide), once_other (by decide) (by decide), count_same,
    count_other (by decide), count_other (by decide), count_other (by decide),
    mem_other (by decide), mem_other (by decide)]
  by_cases zero : pre.count 's' + pre.count 'd' = 0
  · simp only [zero, some_, if_true, if_false, ne_eq, not_true_eq_false]
  · simp only [zero, some_, if_false, ne_eq, Nat.one_ne_zero, not_false_eq_true, if_true]

theorem setflag_mapped (pre : List Char) (passive : Bool) :
    { hintsof pre passive with
      ai_flags := { (hintsof pre passive).ai_flags with v4mapped := true } } =
      hintsof (pre ++ ['m']) passive := by
  unfold hintsof
  rw [once_other (by decide) (by decide), once_other (by decide) (by decide), count_other (by decide),
    count_other (by decide), count_other (by decide), count_other (by decide)]
  simp

theorem setflag_numeric (pre : List Char) (passive : Bool) :
    { hintsof pre passive with
      ai_flags := { (hintsof pre passive).ai_flags with numerichost := true } } =
      hintsof (pre ++ ['n']) passive := by
  unfold hintsof
  rw [once_other (by decide) (by decide), once_other (by decide) (by decide), count_other (by decide),
    count_other (by decide), count_other (by decide), count_other (by decide)]
  simp

theorem scan_hintsof {hints : Hints} (scanned : scan mode (hintsof pre passive) = .ok hints) :
    hints = hintsof (pre ++ mode) passive := by
  induction mode generalizing pre with
  | nil =>
    cases scanned
    rw [List.append_nil]
  | cons c mode ih =>
    rw [List.append_cons]
    apply ih
    unfold scan at scanned
    split at scanned
    · rwa [setfamily_inet] at scanned
    · rwa [setfamily_inet6] at scanned
    · rwa [setsocktype_stream] at scanned
    · rwa [setsocktype_dgram] at scanned
    · rwa [setflag_mapped] at scanned
    · rwa [setflag_numeric] at scanned
    · cases scanned

/-- One of two alternatives is repeated without the other. -/
def Repeated (mode : List Char) (a b : Char) : Prop :=
  (1 < mode.count a ∧ b ∉ mode) ∨ (1 < mode.count b ∧ a ∉ mode)

/-- A repeated alternative is taken for both. -/
theorem once_one {α : Type} {a b : Char} {x y default : α} (xd : x ≠ default) (yd : y ≠ default) :
    once mode a b x y default = one (fun c => decide (c ∈ mode)) a b x y default ↔
      ¬ Repeated mode a b := by
  have hasa : a ∈ mode ↔ 0 < mode.count a := List.count_pos_iff.symm
  have hasb : b ∈ mode ↔ 0 < mode.count b := List.count_pos_iff.symm
  unfold once one Repeated
  simp only [decide_eq_true_eq, hasa, hasb]
  by_cases onlya : 0 < mode.count a ∧ ¬ 0 < mode.count b
  · rw [if_pos onlya]
    by_cases single : mode.count a = 1
    · rw [if_pos (by omega), if_pos single]
      simp only [true_iff]
      omega
    · rw [if_neg (by omega)]
      simp only [Ne.symm xd, false_iff, not_not]
      omega
  · rw [if_neg onlya]
    by_cases onlyb : 0 < mode.count b ∧ ¬ 0 < mode.count a
    · rw [if_pos onlyb]
      by_cases single : mode.count b = 1
      · rw [if_pos (by omega), if_neg (by omega)]
        simp only [true_iff]
        omega
      · rw [if_neg (by omega)]
        simp only [Ne.symm yd, false_iff, not_not]
        omega
    · rw [if_neg onlyb, if_neg (by omega)]
      simp only [true_iff]
      omega

theorem hintsof_meaning (mode : List Char) (passive : Bool) :
    hintsof mode passive = { meaningof (fun c => decide (c ∈ mode)) passive with
      ai_family := (hintsof mode passive).ai_family
      ai_socktype := (hintsof mode passive).ai_socktype } := by
  have has (a b : Char) : (mode.count a + mode.count b = 0) ↔ ¬ (a ∈ mode ∨ b ∈ mode) := by
    rw [← List.count_pos_iff (a := a), ← List.count_pos_iff (a := b)]
    omega
  unfold hintsof meaningof
  simp only [has, decide_eq_true_eq]
  by_cases some_ : 's' ∈ mode ∨ 'd' ∈ mode
  · simp [some_]
  · simp [some_]

theorem once_repeated {α : Type} {a b : Char} (x y default : α) (repeated : Repeated mode a b) :
    once mode a b x y default = default := by
  unfold once
  rw [if_neg]
  rcases repeated with ⟨several, -⟩ | ⟨several, -⟩
  · omega
  · omega

/-- Modes of the same characters give the same alternative if both repeat it or none does. -/
theorem once_same {α : Type} {other : List Char} {a b : Char} {x y default : α} (xd : x ≠ default)
    (yd : y ≠ default) (same : ∀ c, c ∈ mode ↔ c ∈ other) :
    once mode a b x y default = once other a b x y default ↔
      (Repeated mode a b ↔ Repeated other a b) := by
  have meanings : one (fun c => decide (c ∈ mode)) a b x y default =
      one (fun c => decide (c ∈ other)) a b x y default := by
    simp only [same]
  have first : once mode a b x y default = one (fun c => decide (c ∈ mode)) a b x y default ↔
    ¬ Repeated mode a b := once_one xd yd
  have second : once other a b x y default = one (fun c => decide (c ∈ other)) a b x y default ↔
    ¬ Repeated other a b := once_one xd yd
  rw [meanings] at first
  by_cases repeated : Repeated mode a b
  · have here := once_repeated x y default repeated
    by_cases repeated' : Repeated other a b
    · rw [here, once_repeated x y default repeated']
      simp only [repeated, repeated']
    · rw [second.mpr repeated']
      simp only [first, repeated, repeated', not_true_eq_false, iff_false]
  · rw [first.mpr repeated]
    by_cases repeated' : Repeated other a b
    · have there := mt second.mp (not_not.mpr repeated')
      simp only [repeated, repeated', false_iff, not_true_eq_false, iff_false]
      exact fun same => there same.symm
    · rw [second.mpr repeated']
      simp only [repeated, repeated']

/-- Hints of the same flags are told apart by the query. -/
theorem complete_injective {isinteger : List Char → Bool} {nodename servname : Option (List Char)}
    {hints others : Hints} {query : Query}
    (flags : hints.ai_flags = others.ai_flags) (unset : hints.ai_flags.all = false)
    (protocol : hints.ai_protocol = others.ai_protocol)
    (completed : complete isinteger nodename servname passive hints = .ok query)
    (same : complete isinteger nodename servname passive others = .ok query) : hints = others := by
  obtain ⟨family, socktype, proto, ai_flags⟩ := hints
  obtain ⟨family', socktype', proto', ai_flags'⟩ := others
  simp only at flags unset protocol
  subst flags protocol
  unfold complete mapped at completed same
  cases v4mapped : ai_flags.v4mapped with
  | false =>
    simp only [v4mapped, Except.map] at completed same
    cases completed
    cases same
    rfl
  | true =>
    cases family with
    | inet => simp [v4mapped, Except.map] at completed
    | _ =>
      cases family' with
      | inet => simp [v4mapped, Except.map] at same
      | _ =>
        simp [v4mapped, Except.map] at completed same
        cases completed
        simp_all

variable {isinteger : List Char → Bool} {nodename servname : Option (List Char)} {query : Query}

/-- An accepted mode. -/
theorem setup_accepted (accepted : k_setupfindaddr isinteger nodename servname mode = .ok query) :
    ∃ passive, nodeflag nodename servname = .ok passive ∧
      complete isinteger nodename servname passive (hintsof (cstring mode) passive) = .ok query := by
  unfold k_setupfindaddr at accepted
  cases flag : nodeflag nodename servname with
  | error err => simp [flag, bind, Except.bind] at accepted
  | ok passive =>
    cases scanned : scan (cstring mode) (initial passive) with
    | error err => simp [flag, scanned, bind, Except.bind] at accepted
    | ok hints =>
      have start : initial passive = hintsof [] passive := rfl
      rw [start] at scanned
      have here := scan_hintsof scanned
      simp only [flag, start, scanned, here, bind, Except.bind, List.nil_append] at accepted
      exact ⟨passive, rfl, accepted⟩

theorem hints_eq {hints others : Hints} (family : hints.ai_family = others.ai_family)
    (socktype : hints.ai_socktype = others.ai_socktype)
    (protocol : hints.ai_protocol = others.ai_protocol)
    (flags : hints.ai_flags = others.ai_flags) : hints = others := by
  cases hints
  cases others
  simp only at family socktype protocol flags
  rw [family, socktype, protocol, flags]

/-- Two modes of the same characters give the same query if they agree in what they repeat without
its alternative. A mode means the set of its characters if it repeats none so. -/
theorem findaddr_set {first second : List Char} {query' : Query}
    (accepted : k_setupfindaddr isinteger nodename servname first = .ok query)
    (accepted' : k_setupfindaddr isinteger nodename servname second = .ok query')
    (same : ∀ c, c ∈ cstring first ↔ c ∈ cstring second) :
    (query = query' ↔ (Repeated (cstring first) '4' '6' ↔ Repeated (cstring second) '4' '6') ∧
      (Repeated (cstring first) 's' 'd' ↔ Repeated (cstring second) 's' 'd')) ∧
    (meaning isinteger nodename servname (fun c => c ∈ cstring first) = .ok query ↔
      ¬ Repeated (cstring first) '4' '6' ∧ ¬ Repeated (cstring first) 's' 'd') := by
  obtain ⟨passive, flag, completed⟩ := setup_accepted accepted
  obtain ⟨passive', flag', completed'⟩ := setup_accepted accepted'
  obtain rfl : passive = passive' := Except.ok.inj (flag.symm.trans flag')
  have meant := hintsof_meaning (cstring first) passive
  have meant' := hintsof_meaning (cstring second) passive
  have has : (fun c => decide (c ∈ cstring second)) = fun c => decide (c ∈ cstring first) := by
    funext c
    simp only [same]
  rw [has] at meant'
  have protocol := congrArg Hints.ai_protocol meant
  have flags := congrArg Hints.ai_flags meant
  have protocol' := congrArg Hints.ai_protocol meant'
  have flags' := congrArg Hints.ai_flags meant'
  simp only at protocol flags protocol' flags'
  have unset : (hintsof (cstring first) passive).ai_flags.all = false := rfl
  constructor
  · rw [← once_same (show Family.inet ≠ .unspec by decide) (show Family.inet6 ≠ .unspec by decide)
      same, ← once_same (show Socktype.stream ≠ .any by decide)
      (show Socktype.dgram ≠ .any by decide) same]
    constructor
    · intro equal
      rw [← equal] at completed'
      have hints := complete_injective (flags.trans flags'.symm) unset (protocol.trans protocol'.symm)
        completed completed'
      exact ⟨congrArg Hints.ai_family hints, congrArg Hints.ai_socktype hints⟩
    · rintro ⟨family, socktype⟩
      have hints : hintsof (cstring first) passive = hintsof (cstring second) passive :=
        hints_eq family socktype (protocol.trans protocol'.symm) (flags.trans flags'.symm)
      rw [hints, completed'] at completed
      exact (Except.ok.inj completed).symm
  · rw [← once_one (show Family.inet ≠ .unspec by decide) (show Family.inet6 ≠ .unspec by decide),
      ← once_one (show Socktype.stream ≠ .any by decide) (show Socktype.dgram ≠ .any by decide)]
    have complete_meaning : meaning isinteger nodename servname (fun c => c ∈ cstring first) =
        complete isinteger nodename servname passive
          (meaningof (fun c => decide (c ∈ cstring first)) passive) := by
      unfold meaning
      rw [flag]
      rfl
    rw [complete_meaning]
    constructor
    · intro equal
      have hints := complete_injective flags unset protocol completed equal
      exact ⟨congrArg Hints.ai_family hints, congrArg Hints.ai_socktype hints⟩
    · rintro ⟨family, socktype⟩
      rw [← completed, hints_eq family socktype protocol flags]

theorem findaddr_set_stream :
    ∃ query, k_setupfindaddr List.isEmpty (some ['a']) none ['s', '4', 'n', 'n'] = .ok query ∧
      meaning List.isEmpty (some ['a']) none (fun c => c ∈ cstring ['s', '4', 'n', 'n']) =
        .ok query := by
  have accepted : k_setupfindaddr List.isEmpty (some ['a']) none ['s', '4', 'n', 'n'] = .ok _ := rfl
  have accepted' : k_setupfindaddr List.isEmpty (some ['a']) none ['n', '4', 's'] = .ok _ := rfl
  have same (c : Char) : c ∈ cstring ['s', '4', 'n', 'n'] ↔ c ∈ cstring ['n', '4', 's'] := by
    have first : cstring ['s', '4', 'n', 'n'] = ['s', '4', 'n', 'n'] := by decide
    have second : cstring ['n', '4', 's'] = ['n', '4', 's'] := by decide
    rw [first, second]
    simp only [List.mem_cons, List.not_mem_nil, or_false]
    tauto
  exact ⟨_, accepted, (findaddr_set accepted accepted' same).2.mpr (by unfold Repeated; decide)⟩

/-- Twice the same family is none. -/
theorem findaddr_set_not :
    (∀ c, c ∈ cstring ['4'] ↔ c ∈ cstring ['4', '4']) ∧
      ∃ query query', k_setupfindaddr List.isEmpty (some ['a']) none ['4'] = .ok query ∧
        k_setupfindaddr List.isEmpty (some ['a']) none ['4', '4'] = .ok query' ∧
        query.hints.ai_family = .inet ∧ query'.hints.ai_family = .unspec := by
  refine ⟨fun c => ?_, _, _, rfl, rfl, rfl, rfl⟩
  have single : cstring ['4'] = ['4'] := by decide
  have double : cstring ['4', '4'] = ['4', '4'] := by decide
  rw [single, double]
  simp

end

end Coutil.AddressHints
