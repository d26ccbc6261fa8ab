import Coutil.AddressText

set_option autoImplicit false

/-! The addresses that `system.findaddr` of `src/lcommunf.c` returns: a list of libuv with a
pointer into it, and the sequence of its datagram and stream addresses that its methods show. -/
namespace Coutil.FoundAddresses
open AddressText ByteString

def AF_INET : ℤ := 2
def AF_INET6 : ℤ := 10

def SOCK_STREAM : ℤ := 1
def SOCK_DGRAM : ℤ := 2

/-- A node of a list of libuv. -/
structure Addrinfo where
  ai_family : ℤ
  ai_socktype : ℤ
  passive : Bool
  ai_addr : Bytes
  deriving DecidableEq

/-- A list that libuv allocated. -/
structure Addresses where
  block : ℕ
  nodes : List Addrinfo
  deriving DecidableEq

/-- The pointers `start`, `NULL` once it is closed, and `current`, by its position. -/
structure AddressList where
  start : Option Addresses
  current : ℕ
  deriving DecidableEq

def addrfamily (family : ℤ) : Option Family :=
  if family = AF_INET then some .inet
  else if family = AF_INET6 then some .inet6
  else none

def Family.id : Family → ℤ
  | .inet => AF_INET
  | .inet6 => AF_INET6

/-- The sizes of `struct sockaddr_in` and `struct sockaddr_in6`. -/
def sockaddrsz : Family → ℕ
  | .inet => 16
  | .inet6 => 28

/-- A userdata of `LCU_NETADDRCLS`. -/
structure Netaddr where
  family : Family
  contents : Bytes
  size : contents.length = sockaddrsz family
  deriving DecidableEq

inductive Failure where
  /-- The pointer `current` is read and points to nothing. -/
  | current
  | found_reset
  /-- More is copied than the address has room for. -/
  | memcpy
  deriving DecidableEq

inductive Answer where
  | error (msg : String)
  | nothing
  | boolean (b : Bool)
  | text (s : String)
  | address (addr : Netaddr)
  deriving DecidableEq

def Addrinfo.valid (addr : Addrinfo) : Bool :=
  addr.ai_socktype = SOCK_DGRAM || addr.ai_socktype = SOCK_STREAM

/-- The first position from one on where a valid address is. -/
def findvalidaddr : List Addrinfo → ℕ → Option ℕ
  | [], _ => none
  | addr :: nodes, 0 => if addr.valid then some 0 else (findvalidaddr nodes 0).map (· + 1)
  | _ :: nodes, first + 1 => (findvalidaddr nodes first).map (· + 1)

def closed : Answer := .error "closed coutil:netaddrlist"

def closeaddrlist (list : AddressList) : AddressList :=
  if list.start.isSome then ⟨none, 0⟩ else list

def found_next (nodes : List Addrinfo) (current : ℕ) : Except Failure (Answer × ℕ) :=
  match nodes[current]? with
  | none => .error .current
  | some _ =>
    match findvalidaddr nodes (current + 1) with
    | some found => .ok (.boolean true, found)
    | none => .ok (.boolean false, current)

def found_reset (nodes : List Addrinfo) : Except Failure (Answer × ℕ) :=
  match findvalidaddr nodes 0 with
  | some found => .ok (.nothing, found)
  | none => .error .found_reset

def pushaddrtype (family : ℤ) : String :=
  match addrfamily family with
  | some .inet => "ipv4"
  | some .inet6 => "ipv6"
  | none => "unsupported"

def found_getdomain (found : Addrinfo) : Answer := .text (pushaddrtype found.ai_family)

def found_getsocktype (found : Addrinfo) : Answer :=
  if found.ai_socktype = SOCK_DGRAM then .text "datagram"
  else if found.ai_socktype = SOCK_STREAM then .text (if found.passive then "passive" else "stream")
  else .nothing

def newaddress (family : Family) : Netaddr :=
  ⟨family, List.replicate (sockaddrsz family) 0, List.length_replicate⟩

def memcpy (addr : Netaddr) (src : Bytes) : Except Failure Netaddr :=
  if fits : src.length ≤ addr.contents.length then
    .ok ⟨addr.family, src ++ addr.contents.drop src.length, by
      rw [List.length_append, List.length_drop, Nat.add_sub_cancel' fits, addr.size]⟩
  else .error .memcpy

def found_getaddress (found : Addrinfo) (given : Option Netaddr) : Except Failure Answer :=
  match given with
  | some addr =>
    if Family.id addr.family = found.ai_family then (memcpy addr found.ai_addr).map .address
    else .ok (.error "wrong domain")
  | none =>
    match addrfamily found.ai_family with
    | some family => (memcpy (newaddress family) found.ai_addr).map .address
    | none => .ok (.error "invalid address type")

inductive Method where
  | next
  | reset
  | getdomain
  | getsocktype
  | getaddress (given : Option Netaddr)
  | close
  | gc
  deriving DecidableEq

/-- What a method reads of the current address. -/
def read (found : Addrinfo) : Method → Except Failure Answer
  | .getdomain => .ok (found_getdomain found)
  | .getsocktype => .ok (found_getsocktype found)
  | .getaddress given => found_getaddress found given
  | _ => .ok .nothing

def call (list : AddressList) (method : Method) : Except Failure (Answer × AddressList) :=
  match list.start, method with
  | _, .gc => .ok (.nothing, closeaddrlist list)
  | none, _ => .ok (closed, list)
  | some _, .close => .ok (.boolean true, closeaddrlist list)
  | some results, .next =>
    (found_next results.nodes list.current).map fun r => (r.1, { list with current := r.2 })
  | some results, .reset =>
    (found_reset results.nodes).map fun r => (r.1, { list with current := r.2 })
  | some results, method =>
    match results.nodes[list.current]? with
    | none => .error .current
    | some found => (read found method).map fun answer => (answer, list)

/-- The answers of a sequence of calls. -/
def calls : AddressList → List Method → Except Failure (List Answer)
  | _, [] => .ok []
  | list, method :: methods => do
    let (answer, list) ← call list method
    let answers ← calls list methods
    pure (answer :: answers)

/-- What `returnfound` makes of a list. -/
def returnfound (results : Addresses) : Option AddressList :=
  (findvalidaddr results.nodes 0).map fun found => ⟨some results, found⟩

/-! A sequence of entries with a position in it. -/

structure Sequence where
  entries : List Addrinfo
  position : ℕ
  inside : position < entries.length

namespace Sequence

def entry (s : Sequence) : Addrinfo := s.entries.get ⟨s.position, s.inside⟩

/-- The next entry, when there is one. -/
def next (s : Sequence) : Answer × Sequence :=
  if more : s.position + 1 < s.entries.length then
    (.boolean true, ⟨s.entries, s.position + 1, more⟩)
  else (.boolean false, s)

def reset (s : Sequence) : Answer × Sequence :=
  (.nothing, ⟨s.entries, 0, Nat.zero_lt_of_lt s.inside⟩)

def call (s : Option Sequence) (method : Method) : Except Failure (Answer × Option Sequence) :=
  match s, method with
  | _, .gc => .ok (.nothing, none)
  | none, _ => .ok (closed, none)
  | some _, .close => .ok (.boolean true, none)
  | some s, .next => .ok (s.next.1, some s.next.2)
  | some s, .reset => .ok (s.reset.1, some s.reset.2)
  | some s, method => (read s.entry method).map fun answer => (answer, some s)

def calls : Option Sequence → List Method → Except Failure (List Answer)
  | _, [] => .ok []
  | s, method :: methods => do
    let (answer, s) ← call s method
    let answers ← calls s methods
    pure (answer :: answers)

end Sequence

/-! What the pointer stands for. -/

section
variable {nodes : List Addrinfo} {first i : ℕ} {found : Addrinfo}

theorem findvalidaddr_some (valid : findvalidaddr nodes first = some i) :
    ∃ found, nodes[i]? = some found ∧ found.valid = true ∧
      (nodes.take i).countP Addrinfo.valid = (nodes.take first).countP Addrinfo.valid := by
  induction nodes generalizing first i with
  | nil => cases valid
  | cons addr nodes ih =>
    cases first with
    | zero =>
      unfold findvalidaddr at valid
      split_ifs at valid with here
      · cases valid
        exact ⟨addr, rfl, here, rfl⟩
      · obtain ⟨j, later, rfl⟩ := Option.map_eq_some_iff.mp valid
        obtain ⟨found, at_j, good, count⟩ := ih later
        refine ⟨found, at_j, good, ?_⟩
        rw [List.take_succ_cons, List.countP_cons_of_neg here, count]
        rfl
    | succ first =>
      obtain ⟨j, later, rfl⟩ := Option.map_eq_some_iff.mp valid
      obtain ⟨found, at_j, good, count⟩ := ih later
      refine ⟨found, at_j, good, ?_⟩
      rw [List.take_succ_cons, List.take_succ_cons, List.countP_cons, List.countP_cons, count]

theorem findvalidaddr_none (none : findvalidaddr nodes first = none) :
    nodes.countP Addrinfo.valid = (nodes.take first).countP Addrinfo.valid := by
  induction nodes generalizing first with
  | nil => rw [List.take_nil]
  | cons addr nodes ih =>
    cases first with
    | zero =>
      unfold findvalidaddr at none
      split_ifs at none with here
      have rest := ih (Option.map_eq_none_iff.mp none)
      rw [List.countP_cons_of_neg here, rest]
      rfl
    | succ first =>
      have rest := ih (Option.map_eq_none_iff.mp none)
      rw [List.take_succ_cons, List.countP_cons, List.countP_cons, rest]

/-- The position of a valid address among the valid ones. -/
theorem valid_entry (at_i : nodes[i]? = some found) (good : found.valid = true) :
    (nodes.filter Addrinfo.valid)[(nodes.take i).countP Addrinfo.valid]? = some found := by
  induction nodes generalizing i with
  | nil => cases at_i
  | cons addr nodes ih =>
    cases i with
    | zero =>
      cases at_i
      rw [List.filter_cons_of_pos good]
      rfl
    | succ i =>
      have rest := ih at_i
      rw [List.take_succ_cons]
      by_cases here : addr.valid = true
      · rw [List.filter_cons_of_pos here, List.countP_cons_of_pos here, List.getElem?_cons_succ]
        exact rest
      · rw [List.filter_cons_of_neg here, List.countP_cons_of_neg here]
        exact rest

/-- The pointer is at the entry of the sequence. -/
structure Shows (nodes : List Addrinfo) (current : ℕ) (s : Sequence) : Prop where
  entries : s.entries = nodes.filter Addrinfo.valid
  entry : nodes[current]? = some s.entry
  valid : s.entry.valid = true
  position : s.position = (nodes.take current).countP Addrinfo.valid

theorem shows_of_valid {current position : ℕ} (at_current : nodes[current]? = some found)
    (good : found.valid = true) (count : position = (nodes.take current).countP Addrinfo.valid)
    (inside : position < (nodes.filter Addrinfo.valid).length) :
    Shows nodes current ⟨nodes.filter Addrinfo.valid, position, inside⟩ := by
  have entry := valid_entry at_current good
  rw [← count, List.getElem?_eq_getElem inside] at entry
  have same : (⟨nodes.filter Addrinfo.valid, position, inside⟩ : Sequence).entry = found :=
    Option.some.inj entry
  exact ⟨rfl, by rw [same, at_current], by rw [same, good], count⟩

theorem valid_inside (at_i : nodes[i]? = some found) (good : found.valid = true) :
    (nodes.take i).countP Addrinfo.valid < (nodes.filter Addrinfo.valid).length := by
  have entry := valid_entry at_i good
  exact (List.getElem?_eq_some_iff.mp entry).1

theorem found_next_shows {current : ℕ} {s : Sequence} (shows : Shows nodes current s) :
    ∃ current', found_next nodes current = .ok (s.next.1, current') ∧
      Shows nodes current' s.next.2 := by
  obtain ⟨entries, position, inside⟩ := s
  obtain rfl : entries = _ := shows.entries
  have counted : (nodes.take (current + 1)).countP Addrinfo.valid = position + 1 := by
    rw [List.take_add_one, shows.entry, List.countP_append]
    have one : (some (Sequence.entry ⟨_, position, inside⟩)).toList.countP Addrinfo.valid = 1 := by
      rw [Option.toList_some, List.countP_singleton, if_pos shows.valid]
    rw [one]
    exact congrArg (· + 1) shows.position.symm
  unfold found_next
  rw [shows.entry]
  cases later : findvalidaddr nodes (current + 1) with
  | none =>
    have last : (nodes.filter Addrinfo.valid).length = position + 1 := by
      rw [← List.countP_eq_length_filter, findvalidaddr_none later, counted]
    have stays : Sequence.next ⟨_, position, inside⟩ =
        (.boolean false, ⟨_, position, inside⟩) := by
      unfold Sequence.next
      rw [dif_neg (by simp only [last]; omega)]
    rw [stays]
    exact ⟨current, rfl, shows⟩
  | some i =>
    obtain ⟨found, at_i, good, count⟩ := findvalidaddr_some later
    have more : position + 1 < (nodes.filter Addrinfo.valid).length := by
      have below := valid_inside at_i good
      rwa [count, counted] at below
    have moves : Sequence.next ⟨_, position, inside⟩ =
        (.boolean true, ⟨_, position + 1, more⟩) := by
      unfold Sequence.next
      rw [dif_pos more]
    rw [moves]
    exact ⟨i, rfl, shows_of_valid at_i good (by rw [count, counted]) more⟩

theorem found_reset_shows {current : ℕ} {s : Sequence} (shows : Shows nodes current s) :
    ∃ current', found_reset nodes = .ok (s.reset.1, current') ∧
      Shows nodes current' s.reset.2 := by
  obtain ⟨entries, position, inside⟩ := s
  obtain rfl : entries = _ := shows.entries
  unfold found_reset
  cases first : findvalidaddr nodes 0 with
  | none =>
    have empty : (nodes.filter Addrinfo.valid).length = 0 := by
      rw [← List.countP_eq_length_filter, findvalidaddr_none first]
      rfl
    have inside' : position < (nodes.filter Addrinfo.valid).length := inside
    omega
  | some i =>
    obtain ⟨found, at_i, good, count⟩ := findvalidaddr_some first
    exact ⟨i, rfl, shows_of_valid at_i good count.symm (Nat.zero_lt_of_lt inside)⟩

/-- The list of libuv that a closed object had is gone. -/
def Refines (list : AddressList) : Option Sequence → Prop
  | none => list.start = none
  | some s => ∃ results, list.start = some results ∧ Shows results.nodes list.current s

/-- Either the same address could not be copied, or the answers and what is left agree. -/
def Agrees (r : Except Failure (Answer × AddressList))
    (r' : Except Failure (Answer × Option Sequence)) : Prop :=
  match r, r' with
  | .error failure, .error failure' => failure = failure'
  | .ok (answer, list), .ok (answer', s) => answer = answer' ∧ Refines list s
  | _, _ => False

theorem call_refines {list : AddressList} {s : Option Sequence} (refines : Refines list s)
    (method : Method) : Agrees (call list method) (Sequence.call s method) := by
  obtain ⟨start, current⟩ := list
  cases s with
  | none =>
    obtain rfl : start = none := refines
    cases method <;> exact ⟨rfl, rfl⟩
  | some s =>
    obtain ⟨results, started, shows⟩ := refines
    obtain rfl : start = some results := started
    have reads : ∀ method, Agrees ((read s.entry method).map fun answer =>
        (answer, (⟨some results, current⟩ : AddressList)))
        ((read s.entry method).map fun answer => (answer, some s)) := by
      intro method
      cases read s.entry method with
      | error failure => rfl
      | ok answer => exact ⟨rfl, results, rfl, shows⟩
    cases method with
    | gc => exact ⟨rfl, rfl⟩
    | close => exact ⟨rfl, rfl⟩
    | next =>
      obtain ⟨current', moved, shows'⟩ := found_next_shows shows
      simp only [call, moved]
      exact ⟨rfl, results, rfl, shows'⟩
    | reset =>
      obtain ⟨current', moved, shows'⟩ := found_reset_shows shows
      simp only [call, moved]
      exact ⟨rfl, results, rfl, shows'⟩
    | _ =>
      simp only [call, shows.entry]
      exact reads _

theorem calls_refines {list : AddressList} {s : Option Sequence} (refines : Refines list s)
    (methods : List Method) : calls list methods = Sequence.calls s methods := by
  induction methods generalizing list s with
  | nil => rfl
  | cons method methods ih =>
    have agrees := call_refines refines method
    unfold calls Sequence.calls
    cases called : call list method with
    | error failure =>
      cases called' : Sequence.call s method with
      | error failure' =>
        rw [called, called'] at agrees
        rw [show failure = failure' from agrees]
        rfl
      | ok r =>
        rw [called, called'] at agrees
        exact agrees.elim
    | ok r =>
      obtain ⟨answer, list'⟩ := r
      cases called' : Sequence.call s method with
      | error failure' =>
        rw [called, called'] at agrees
        exact agrees.elim
      | ok r' =>
        obtain ⟨answer', s'⟩ := r'
        rw [called, called'] at agrees
        obtain ⟨rfl, refines'⟩ := agrees
        simp only [bind, Except.bind, ih refines']

/-- An address of a known family is as long as its structure. -/
def Proper (nodes : List Addrinfo) : Prop :=
  ∀ found ∈ nodes, ∀ family, addrfamily found.ai_family = some family →
    found.ai_addr.length = sockaddrsz family

theorem addrfamily_id (family : Family) : addrfamily (Family.id family) = some family := by
  cases family <;> rfl

theorem memcpy_fits (addr : Netaddr) {src : Bytes} (fits : src.length = sockaddrsz addr.family) :
    ∃ copied, memcpy addr src = .ok copied := by
  unfold memcpy
  rw [dif_pos (by rw [addr.size, fits])]
  exact ⟨_, rfl⟩

theorem read_proper {found : Addrinfo}
    (proper : ∀ family, addrfamily found.ai_family = some family →
      found.ai_addr.length = sockaddrsz family) (method : Method) :
    ∃ answer, read found method = .ok answer := by
  cases method with
  | getaddress given =>
    simp only [read, found_getaddress]
    cases given with
    | none =>
      cases known : addrfamily found.ai_family with
      | none => exact ⟨_, rfl⟩
      | some family =>
        obtain ⟨copied, copies⟩ := memcpy_fits (newaddress family) (proper family known)
        simp only [copies]
        exact ⟨_, rfl⟩
    | some addr =>
      by_cases same : Family.id addr.family = found.ai_family
      · have fits := proper addr.family (by rw [← same, addrfamily_id])
        obtain ⟨copied, copies⟩ := memcpy_fits addr fits
        simp only [if_pos same, copies]
        exact ⟨_, rfl⟩
      · simp only [if_neg same]
        exact ⟨_, rfl⟩
  | _ => exact ⟨_, rfl⟩

theorem sequence_call_proper {s : Option Sequence} (proper : ∀ t ∈ s, Proper t.entries)
    (method : Method) :
    ∃ answer s', Sequence.call s method = .ok (answer, s') ∧ ∀ t ∈ s', Proper t.entries := by
  have nothing : ∀ t ∈ (none : Option Sequence), Proper t.entries := by
    intro t member
    cases member
  cases s with
  | none => cases method <;> exact ⟨_, _, rfl, nothing⟩
  | some s =>
    have mine := proper s rfl
    have keeps {t : Sequence} (same : t.entries = s.entries) :
        ∀ u ∈ some t, Proper u.entries := by
      rintro u ⟨⟩
      rw [same]
      exact mine
    obtain ⟨answer, answers⟩ :=
      read_proper (mine s.entry (List.get_mem s.entries ⟨s.position, s.inside⟩)) method
    cases method with
    | gc => exact ⟨_, _, rfl, nothing⟩
    | close => exact ⟨_, _, rfl, nothing⟩
    | next =>
      refine ⟨_, _, rfl, keeps ?_⟩
      unfold Sequence.next
      split_ifs <;> rfl
    | reset => exact ⟨_, _, rfl, keeps rfl⟩
    | _ =>
      refine ⟨answer, some s, ?_, keeps rfl⟩
      simp only [Sequence.call, answers]
      rfl

theorem sequence_calls_proper {s : Option Sequence} (proper : ∀ t ∈ s, Proper t.entries)
    (methods : List Method) : ∃ answers, Sequence.calls s methods = .ok answers := by
  induction methods generalizing s with
  | nil => exact ⟨[], rfl⟩
  | cons method methods ih =>
    obtain ⟨answer, s', called, proper'⟩ := sequence_call_proper proper method
    obtain ⟨answers, rest⟩ := ih proper'
    refine ⟨answer :: answers, ?_⟩
    simp only [Sequence.calls, called, bind, Except.bind, rest]
    rfl

theorem returnfound_refines {results : Addresses} {list : AddressList}
    (made : returnfound results = some list) :
    ∃ s : Sequence, s.entries = results.nodes.filter Addrinfo.valid ∧ s.position = 0 ∧
      Refines list (some s) := by
  obtain ⟨i, first, rfl⟩ := Option.map_eq_some_iff.mp made
  obtain ⟨found, at_i, good, count⟩ := findvalidaddr_some first
  have inside : 0 < (results.nodes.filter Addrinfo.valid).length :=
    Nat.zero_lt_of_lt (valid_inside at_i good)
  exact ⟨⟨_, 0, inside⟩, rfl, rfl, results, rfl, shows_of_valid at_i good count.symm inside⟩

/-- Methods that only read the current address. -/
def Method.reads : Method → Bool
  | .getdomain | .getsocktype | .getaddress _ => true
  | _ => false

/-- The entries show up one after another, each once. -/
theorem sequence_enumerates {s : Sequence} {method : Method} (reads : method.reads = true)
    {k : ℕ} (below : s.position + k < s.entries.length) :
    Sequence.calls (some s) (List.replicate k .next ++ [method]) =
      (read (s.entries.get ⟨s.position + k, below⟩) method).map fun answer =>
        List.replicate k (.boolean true) ++ [answer] := by
  induction k generalizing s with
  | zero =>
    have called : Sequence.call (some s) method =
        (read s.entry method).map fun answer => (answer, some s) := by
      cases method <;> first | rfl | cases reads
    simp only [List.replicate_zero, List.nil_append, Sequence.calls, called, Nat.add_zero]
    change _ = (read s.entry method).map _
    cases read s.entry method <;> rfl
  | succ k ih =>
    have more : s.position + 1 < s.entries.length := by omega
    have moves : s.next = (.boolean true, ⟨s.entries, s.position + 1, more⟩) := by
      unfold Sequence.next
      rw [dif_pos more]
    have rest := ih (s := ⟨s.entries, s.position + 1, more⟩)
      (show s.position + 1 + k < s.entries.length by omega)
    have same : (⟨s.position + 1 + k, by omega⟩ : Fin s.entries.length) =
        ⟨s.position + (k + 1), below⟩ := Fin.ext (by simp only; omega)
    rw [List.replicate_succ, List.cons_append, Sequence.calls]
    simp only [Sequence.call, moves, bind, Except.bind, rest]
    rw [same]
    cases read (s.entries.get ⟨s.position + (k + 1), below⟩) method <;> rfl

/-- Whatever its methods are called in whatever order, also after it is closed, the object that
`system.findaddr` returns answers as the sequence of the datagram and stream addresses of the
list, at its first entry in the beginning: no pointer to nothing is read, `reset` finds an
address, and no address is copied where there is no room. Each call of `next` that returns true
moves on by one entry, so that all the entries are seen in order and each once. -/
theorem found_refines {results : Addresses} {list : AddressList}
    (proper : Proper (results.nodes.filter Addrinfo.valid))
    (made : returnfound results = some list) :
    ∃ s : Sequence, s.entries = results.nodes.filter Addrinfo.valid ∧ s.position = 0 ∧
      (∀ methods, ∃ answers, calls list methods = .ok answers ∧
        Sequence.calls (some s) methods = .ok answers) ∧
      ∀ method, method.reads = true → ∀ (k : ℕ) (below : k < s.entries.length),
        ∃ answer, read (s.entries.get ⟨k, below⟩) method = .ok answer ∧
          calls list (List.replicate k .next ++ [method]) =
            .ok (List.replicate k (.boolean true) ++ [answer]) := by
  obtain ⟨s, entries, start, refines⟩ := returnfound_refines made
  have mine : ∀ t ∈ some s, Proper t.entries := by
    rintro t ⟨⟩
    rw [entries]
    exact proper
  refine ⟨s, entries, start, fun methods => ?_, fun method reads k below => ?_⟩
  · obtain ⟨answers, called⟩ := sequence_calls_proper mine methods
    exact ⟨answers, (calls_refines refines methods).trans called, called⟩
  · obtain ⟨answer, read⟩ := read_proper
      (mine s rfl (s.entries.get ⟨k, below⟩) (List.get_mem s.entries ⟨k, below⟩)) method
    have visited := sequence_enumerates reads (s := s) (k := k) (by rw [start]; omega)
    have same : (⟨s.position + k, by rw [start]; omega⟩ : Fin s.entries.length) = ⟨k, below⟩ :=
      Fin.ext (by simp only [start]; omega)
    rw [same, read] at visited
    exact ⟨answer, read, (calls_refines refines _).trans visited⟩

def localhost : Addresses := ⟨7, [⟨AF_INET6, 3, false, []⟩, ⟨AF_INET, SOCK_STREAM, false,
  List.replicate 16 1⟩, ⟨5, SOCK_DGRAM, false, []⟩]⟩

theorem found_refines_localhost :
    ∃ list, returnfound localhost = some list ∧
      calls list [.getdomain, .next, .next, .getdomain, .reset, .getsocktype, .close, .next] =
        .ok [.text "ipv4", .boolean true, .boolean false, .text "unsupported", .nothing,
          .text "stream", .boolean true, closed] ∧
      ∃ s : Sequence, s.entries.length = 2 ∧ ∀ methods, ∃ answers,
        calls list methods = .ok answers ∧ Sequence.calls (some s) methods = .ok answers := by
  have proper : Proper (localhost.nodes.filter Addrinfo.valid) := by
    intro found member family known
    have cases : found = ⟨AF_INET, SOCK_STREAM, false, List.replicate 16 1⟩ ∨
        found = ⟨5, SOCK_DGRAM, false, []⟩ := by
      simpa [localhost, Addrinfo.valid, SOCK_DGRAM, SOCK_STREAM] using member
    rcases cases with rfl | rfl
    · cases known
      rfl
    · cases known
  have made : returnfound localhost = some ⟨some localhost, 1⟩ := rfl
  obtain ⟨s, entries, -, same, -⟩ := found_refines proper made
  refine ⟨_, made, by decide, s, ?_, same⟩
  rw [entries]
  rfl

end
end Coutil.FoundAddresses
