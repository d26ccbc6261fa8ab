import Coutil.Runs

set_option autoImplicit false

/-! Circular singly linked lists kept by a successor map and a reference to the
last node, as in tables whose keys are their own nodes. `Represents` says that
such a circle holds a queue without repetitions; every operation is proved to be
the list operation of the same name. -/
namespace Coutil.CircularList

structure Circle (α : Type) where
  next : α → Option α
  tail : Option α

section
variable {α : Type}

def Circle.empty : Circle α := ⟨fun _ => none, none⟩

def Link (next : α → Option α) (a b : α) : Prop := next a = some b

/-- Following the links from the last node visits the queue in order, each node
once, and ends at the last node again; nothing else is linked. -/
structure Represents (r : Circle α) (q : List α) : Prop where
  nodup : q.Nodup
  tail : r.tail = q.getLast?
  keys : ∀ x, r.next x ≠ none ↔ x ∈ q
  cycle : ∀ z, r.tail = some z → (z :: q).IsChain (Link r.next)

theorem Represents.next_none {r : Circle α} {q : List α} (h : Represents r q) {x : α} :
    r.next x = none ↔ x ∉ q := by
  rw [← h.keys, not_not]

theorem Represents.tail_none {r : Circle α} {q : List α} (h : Represents r q) :
    r.tail = none ↔ q = [] := by
  rw [h.tail, List.getLast?_eq_none_iff]

theorem Represents.split_tail {r : Circle α} {q : List α} (h : Represents r q) {z : α}
    (hz : r.tail = some z) : ∃ l, q = l ++ [z] ∧ z ∉ l := by
  rw [h.tail, List.getLast?_eq_some_iff] at hz
  obtain ⟨l, rfl⟩ := hz
  have hn := List.nodup_append.mp h.nodup
  exact ⟨l, rfl, fun hm => hn.2.2 z hm z (by simp) rfl⟩

theorem Represents.exists_tail {r : Circle α} {q : List α} (h : Represents r q) (hq : q ≠ []) :
    ∃ z, r.tail = some z := by
  cases ht : r.tail with
  | none => exact absurd (h.tail_none.mp ht) hq
  | some z => exact ⟨z, rfl⟩

theorem chain_head {next : α → Option α} {z : α} {l : List α}
    (h : (z :: l).IsChain (Link next)) (hl : l ≠ []) : next z = l.head? := by
  cases l with
  | nil => exact absurd rfl hl
  | cons a l => exact (List.isChain_cons_cons.mp h).1

/-- A node linked to itself is the whole queue. -/
theorem Represents.alone {r : Circle α} {q : List α} (h : Represents r q) {x : α} :
    r.next x = some x ↔ q = [x] := by
  constructor
  · intro hx
    have hm : x ∈ q := (h.keys x).mp (by simp [hx])
    obtain ⟨as, bs, rfl⟩ := List.append_of_mem hm
    obtain ⟨z, hz⟩ := h.exists_tail (by simp)
    have hc := h.cycle z hz
    have hn := List.nodup_append.mp h.nodup
    have hbs : bs = [] := by
      cases bs with
      | nil => rfl
      | cons b bs =>
        rw [← List.cons_append, List.isChain_split] at hc
        have hb : r.next x = some b := (List.isChain_cons_cons.mp hc.2).1
        obtain rfl := Option.some.inj (hx.symm.trans hb)
        simp at hn
    subst bs
    obtain rfl : x = z := by simpa [h.tail] using hz
    have has : as = [] := by
      cases as with
      | nil => rfl
      | cons a as =>
        have ha : r.next x = some a := (List.isChain_cons_cons.mp hc).1
        obtain rfl := Option.some.inj (hx.symm.trans ha)
        simp at hn
    simp [has]
  · rintro rfl
    have ht : r.tail = some x := h.tail
    exact (List.isChain_cons_cons.mp (h.cycle x ht)).1

theorem represents_empty : Represents (Circle.empty : Circle α) [] :=
  ⟨List.nodup_nil, rfl, fun x => by simp [Circle.empty], fun z h => by simp [Circle.empty] at h⟩

end

section
variable {α : Type} [DecidableEq α]

def Circle.set (r : Circle α) (x : α) (v : Option α) : Circle α :=
  { r with next := Function.update r.next x v }

def Circle.single (x : α) : Circle α := { (Circle.empty.set x (some x)) with tail := some x }

/-- The new node takes the successor of the last one and becomes the last one. -/
def Circle.push (r : Circle α) (x : α) : Circle α :=
  match r.tail with
  | none => { (r.set x none) with tail := some x }
  | some z => { ((r.set x (r.next z)).set z (some x)) with tail := some x }

/-- Unlinks the successor of the last node; `none` when there is no such node. -/
def Circle.pop (r : Circle α) : Option (α × Circle α) :=
  match r.tail.bind r.next with
  | none => none
  | some h =>
    if r.tail = some h then some (h, ({ r with tail := none } : Circle α).set h none)
    else match r.tail with
      | none => none
      | some z => some (h, (r.set z (r.next h)).set h none)

/-- Follows the links from `current` until the next node is `x`, and returns the
node before it; `none` when the fuel runs out. -/
def Circle.search (r : Circle α) (x : α) : ℕ → Option α → Option α
  | 0, _ => none
  | fuel + 1, current =>
    if current.bind r.next = some x then current
    else r.search x fuel (current.bind r.next)

def Circle.remove (r : Circle α) (fuel : ℕ) (x : α) : Option (Circle α) :=
  match r.next x with
  | none => some r
  | some y =>
    if y = x then some ({ (r.set x none) with tail := none })
    else match r.search x fuel r.tail with
      | none => none
      | some p =>
        some ((({ r with tail := if r.tail = some x then some p else r.tail } : Circle α).set p
          (some y)).set x none)

theorem represents_single (x : α) : Represents (Circle.single x) [x] := by
  refine ⟨List.nodup_singleton x, rfl, ?_, ?_⟩
  · intro y
    by_cases h : y = x <;> simp [Circle.single, Circle.set, Circle.empty, h]
  · intro z hz
    cases hz
    exact List.isChain_pair.mpr (by simp [Link, Circle.single, Circle.set])

/-- A link changed at a node that only ends the path leaves the path intact. -/
theorem chain_update {next : α → Option α} {l : List α} {p : α} (v : Option α)
    (h : l.IsChain (Link next)) (hp : p ∉ l.dropLast) :
    l.IsChain (Link (Function.update next p v)) := by
  induction l with
  | nil => exact List.isChain_nil
  | cons a l ih =>
    cases l with
    | nil => exact List.isChain_singleton a
    | cons b l =>
      simp only [List.dropLast_cons_cons, List.mem_cons, not_or] at hp
      rw [List.isChain_cons_cons] at h ⊢
      refine ⟨?_, ih h.2 hp.2⟩
      rw [Link, Function.update_of_ne (Ne.symm hp.1)]
      exact h.1

theorem represents_push {r : Circle α} {q : List α} {x : α} (h : Represents r q)
    (hq : q ≠ []) (hx : x ∉ q) : Represents (r.push x) (q ++ [x]) := by
  obtain ⟨z, hz⟩ := h.exists_tail hq
  obtain ⟨l, rfl, hzl⟩ := h.split_tail hz
  have hc := h.cycle z hz
  simp only [List.mem_append, List.mem_singleton, not_or] at hx
  have hp : r.push x =
      ⟨Function.update (Function.update r.next x (r.next z)) z (some x), some x⟩ := by
    simp [Circle.push, hz, Circle.set]
  rw [hp]
  refine ⟨?_, by simp, ?_, ?_⟩
  · rw [List.nodup_append]
    refine ⟨h.nodup, List.nodup_singleton x, ?_⟩
    rintro a ha b hb rfl
    simp only [List.mem_singleton] at hb
    subst hb
    simp [hx] at ha
  · intro y
    have hk := h.keys y
    by_cases hyz : y = z
    · simp [hyz]
    · by_cases hyx : y = x
      · subst y
        simpa [hyz] using (h.keys z).mpr (by simp)
      · simpa [hyz, hyx] using hk
  · intro w hw
    cases hw
    have hbody : (l ++ [z]).IsChain
        (Link (Function.update (Function.update r.next x (r.next z)) z (some x))) :=
      chain_update _ (chain_update _ hc.tail (by simpa using hx.1)) (by simpa using hzl)
    rw [List.isChain_cons, List.isChain_append]
    refine ⟨?_, hbody, List.isChain_singleton x, ?_⟩
    · intro y hy
      have hh := chain_head hc (by simp)
      rw [List.head?_append_of_ne_nil _ (by simp)] at hy
      change Function.update (Function.update r.next x (r.next z)) z (some x) x = some y
      rw [Function.update_of_ne hx.2, Function.update_self, hh]
      exact hy
    · intro a ha b hb
      simp only [List.getLast?_append, List.getLast?_singleton, Option.some_or,
        Option.mem_some_iff, List.head?_cons] at ha hb
      subst ha hb
      exact Function.update_self ..

theorem represents_pop {r : Circle α} {h : α} {q : List α} (hr : Represents r (h :: q)) :
    ∃ r', r.pop = some (h, r') ∧ Represents r' q := by
  obtain ⟨z, hz⟩ := hr.exists_tail (by simp)
  have hc := hr.cycle z hz
  have hnz : r.next z = some h := chain_head hc (by simp)
  obtain ⟨hhq, hq⟩ := List.nodup_cons.mp hr.nodup
  by_cases hzh : z = h
  · subst z
    obtain ⟨l, hl, hhl⟩ := hr.split_tail hz
    have hql : q = [] := by
      cases l with
      | nil => simpa using hl
      | cons a l =>
        simp only [List.cons_append, List.cons.injEq] at hl
        simp [hl.1] at hhl
    subst q
    refine ⟨({ r with tail := none } : Circle α).set h none, by simp [Circle.pop, hz, hnz], ?_⟩
    refine ⟨List.nodup_nil, rfl, ?_, fun w hw => by simp [Circle.set] at hw⟩
    intro x
    have hk := hr.keys x
    by_cases hx : x = h
    · simp [Circle.set, hx]
    · simpa [Circle.set, hx] using hk
  · obtain ⟨l, hl, hzl⟩ := hr.split_tail hz
    have hqne : q ≠ [] := by
      rintro rfl
      have := hr.tail
      rw [hz] at this
      simp at this
      exact hzh this
    have hnh : r.next h = q.head? := chain_head hc.tail hqne
    refine ⟨(r.set z (r.next h)).set h none, by simp [Circle.pop, hz, hnz, hzh], hq, ?_, ?_, ?_⟩
    · have ht := hr.tail
      rw [List.getLast?_cons_of_ne_nil hqne] at ht
      exact ht
    · intro x
      have hk := hr.keys x
      by_cases hx : x = h
      · subst x
        simp [Circle.set, hhq]
      · by_cases hxz : x = z
        · subst x
          have hzq : z ∈ q := by
            have : z ∈ h :: q := (hr.keys z).mp (by simp [hnz])
            simpa [hzh] using this
          simpa [Circle.set, hx, hnh, hqne] using hzq
        · simpa [Circle.set, hx, hxz] using hk
    · intro w hw
      have hwz : w = z := by
        have : r.tail = some w := hw
        rw [hz] at this
        exact (Option.some.inj this).symm
      subst w
      have hql : ∃ k, q = k ++ [z] ∧ z ∉ k := by
        cases l with
        | nil => simp at hl; exact absurd hl.1.symm hzh
        | cons a l =>
          simp only [List.cons_append, List.cons.injEq] at hl
          exact ⟨l, hl.2, fun hm => hzl (by simp [hm])⟩
      obtain ⟨k, rfl, hzk⟩ := hql
      simp only [List.mem_append, List.mem_singleton, not_or] at hhq
      have hbody : (k ++ [z]).IsChain (Link ((r.set z (r.next h)).set h none).next) :=
        chain_update _ (chain_update _ hc.tail.tail (by simpa using hzk)) (by simpa using hhq.1)
      rw [List.isChain_cons]
      refine ⟨?_, hbody⟩
      intro y hy
      change Function.update (Function.update r.next z (r.next h)) h none z = some y
      rw [Function.update_of_ne (Ne.symm hhq.2), Function.update_self, hnh]
      exact hy

theorem search_spec (r : Circle α) {c x : α} {as : List α}
    (hc : (c :: (as ++ [x])).IsChain (Link r.next)) (hx : x ∉ as) (fuel : ℕ) :
    r.search x fuel (some c) =
      if as.length < fuel then some ((c :: as).getLast (by simp)) else none := by
  induction as generalizing c fuel with
  | nil =>
    have hn : r.next c = some x := (List.isChain_cons_cons.mp hc).1
    cases fuel with
    | zero => rfl
    | succ fuel => simp [Circle.search, hn]
  | cons a as ih =>
    obtain ⟨hn, hc⟩ := List.isChain_cons_cons.mp hc
    simp only [List.mem_cons, not_or] at hx
    cases fuel with
    | zero => rfl
    | succ fuel =>
      have hn : r.next c = some a := hn
      have hax : ¬ a = x := fun e => hx.1 e.symm
      simp only [Circle.search, Option.bind_some, hn, Option.some.injEq, hax, if_false,
        ih hc hx.2 fuel, List.length_cons, Nat.add_lt_add_iff_right,
        List.getLast_cons_cons]

/-- The predecessor of an unlinked node takes over its successor. -/
theorem chain_skip {next : α → Option α} {p x y : α} {as bs : List α}
    (hc : (as ++ p :: x :: bs).IsChain (Link next)) (hy : next x = some y)
    (hpa : p ∉ as) (hxa : x ∉ as) (hpx : p ≠ x) (hpb : p ∉ bs.dropLast) (hxb : x ∉ bs.dropLast) :
    (as ++ p :: bs).IsChain
      (Link (Function.update (Function.update next p (some y)) x none)) := by
  rw [List.isChain_split] at hc ⊢
  obtain ⟨hl, hr⟩ := hc
  have hxs := (List.isChain_cons_cons.mp hr).2
  refine ⟨chain_update _ (chain_update _ hl (by simpa using hpa)) (by simpa using hxa), ?_⟩
  rw [List.isChain_cons]
  refine ⟨?_, chain_update _ (chain_update _ hxs.tail hpb) hxb⟩
  intro b hb
  have hne : bs ≠ [] := by
    rintro rfl
    simp at hb
  have hyb : some y = bs.head? := hy.symm.trans (chain_head hxs hne)
  rw [Link, Function.update_of_ne hpx, Function.update_self, hyb]
  exact hb

def Circle.unlink (r : Circle α) (p x y : α) : Circle α :=
  (({ r with tail := if r.tail = some x then some p else r.tail } : Circle α).set p (some y)).set x none

theorem unlink_keys {r : Circle α} {q : List α} {p x y : α} (h : Represents r q)
    (hp : p ∈ q) (w : α) : (r.unlink p x y).next w ≠ none ↔ w ∈ q ∧ w ≠ x := by
  change Function.update (Function.update r.next p (some y)) x none w ≠ none ↔ _
  by_cases hwx : w = x
  · simp [hwx]
  · by_cases hwp : w = p
    · subst w
      simp [hwx, hp]
    · simpa [hwx, hwp] using h.keys w

theorem unlink_last {r : Circle α} {as : List α} {x y : α} (h : Represents r (as ++ [x]))
    (has : as ≠ []) (hy : r.next x = some y) :
    Represents (r.unlink (as.getLast has) x y) as := by
  have ht : r.tail = some x := by simp [h.tail]
  have hn := List.nodup_append.mp h.nodup
  have hxa : x ∉ as := fun hm => hn.2.2 x hm x (by simp) rfl
  have hc := h.cycle x ht
  have hpx : as.getLast has ≠ x := fun e => hxa (e ▸ List.getLast_mem has)
  refine ⟨hn.1, ?_, ?_, ?_⟩
  · simp [Circle.unlink, Circle.set, ht, List.getLast?_eq_some_getLast has]
  · intro w
    rw [unlink_keys h (by simp)]
    constructor
    · rintro ⟨hm, hw⟩
      simpa [hw] using hm
    · intro hm
      exact ⟨by simp [hm], fun e => hxa (e ▸ hm)⟩
  · intro w hw
    have hwp : w = as.getLast has := by
      simpa [Circle.unlink, Circle.set, ht, eq_comm] using hw
    subst w
    have hpd : as.getLast has ∉ as.dropLast := by
      have hd := List.dropLast_concat_getLast has
      have hnd := hn.1
      rw [← hd, List.nodup_append] at hnd
      exact fun hm => hnd.2.2 _ hm _ (by simp) rfl
    have hya : some y = as.head? := by
      rw [← hy, chain_head hc (by simp), List.head?_append_of_ne_nil _ has]
    rw [List.isChain_cons]
    refine ⟨?_, chain_update _ (chain_update _ hc.tail.left_of_append hpd)
      (fun hm => hxa (List.mem_of_mem_dropLast hm))⟩
    intro b hb
    change Function.update (Function.update r.next _ (some y)) x none _ = some b
    rw [Function.update_of_ne hpx, Function.update_self, hya]
    exact hb

theorem unlink_inner {r : Circle α} {as bs : List α} {x y z : α}
    (h : Represents r (as ++ x :: bs)) (hbs : bs.getLast? = some z) (hy : r.next x = some y) :
    Represents (r.unlink ((z :: as).getLast (by simp)) x y) (as ++ bs) := by
  have ht : r.tail = some z := by
    rw [h.tail, List.getLast?_append, List.getLast?_cons, hbs]
    rfl
  obtain ⟨bs, rfl⟩ := List.getLast?_eq_some_iff.mp hbs
  have hn := h.nodup
  have hc := h.cycle z ht
  simp only [List.nodup_append, List.nodup_cons, List.mem_append, List.mem_cons,
    List.not_mem_nil, or_false, not_or, ne_eq, List.nodup_nil, not_false_eq_true] at hn
  obtain ⟨hna, ⟨⟨hxb, hxz⟩, -, -, hbz⟩, hab⟩ := hn
  have hza : z ∉ as := fun hm => hab z hm z (by simp) rfl
  have hxa : x ∉ as := fun hm => hab x hm x (by simp) rfl
  have hzb : z ∉ bs := fun hm => hbz z hm z rfl rfl
  obtain ⟨l, p, hlp⟩ : ∃ l p, z :: as = l ++ [p] :=
    ⟨_, _, (List.dropLast_concat_getLast (l := z :: as) (by simp)).symm⟩
  have hpl : (z :: as).getLast (by simp) = p := by simp [hlp]
  have hnl : (l ++ [p]).Nodup := by
    rw [← hlp, List.nodup_cons]
    exact ⟨hza, hna⟩
  have hpl' : p ∉ l := fun hm => (List.nodup_append.mp hnl).2.2 p hm p (by simp) rfl
  have hmem : ∀ w, w ∈ l ∨ w = p ↔ w = z ∨ w ∈ as := by
    intro w
    have := congrArg (w ∈ ·) hlp
    simpa using this.symm
  have hxl : x ∉ l := by
    intro hm
    rcases (hmem x).mp (Or.inl hm) with hh | hh
    · exact hxz hh
    · exact hxa hh
  have hp : p = z ∨ p ∈ as := (hmem p).mp (Or.inr rfl)
  have hpx : p ≠ x := by
    rintro rfl
    exact hp.elim (fun e => hxz e) hxa
  have hpb : p ∉ bs := by
    intro hm
    rcases hp with rfl | hp
    · exact hzb hm
    · exact hab p hp p (by simp [hm]) rfl
  rw [hpl]
  refine ⟨?_, ?_, ?_, ?_⟩
  · have := h.nodup
    exact this.sublist (by simp)
  · simp [Circle.unlink, Circle.set, ht, Ne.symm hxz]
  · intro w
    rw [unlink_keys h (by rcases hp with rfl | hp <;> simp [*])]
    simp only [List.mem_append, List.mem_cons, List.not_mem_nil, or_false]
    constructor
    · rintro ⟨hm, hw⟩
      simpa [hw] using hm
    · intro hm
      refine ⟨by tauto, ?_⟩
      rintro rfl
      rcases hm with hm | hm | hm
      · exact hxa hm
      · exact hxb hm
      · exact hxz hm
  · intro w hw
    obtain rfl : z = w := by
      simpa [Circle.unlink, Circle.set, ht, Ne.symm hxz] using hw
    have hsplit : ∀ t, z :: (as ++ t) = l ++ p :: t := by
      intro t
      rw [← List.cons_append, hlp, List.append_assoc]
      rfl
    rw [hsplit] at hc ⊢
    exact chain_skip hc hy hpl' hxl hpx (by simpa using hpb) (by simpa using hxb)

theorem remove_absent {r : Circle α} {q : List α} {x : α} (h : Represents r q) (hx : x ∉ q)
    (fuel : ℕ) : r.remove fuel x = some r := by
  simp [Circle.remove, h.next_none.mpr hx]

theorem remove_linked {r : Circle α} {as bs : List α} {x y z : α}
    (h : Represents r (as ++ x :: bs)) (hz : r.tail = some z) (hxa : x ∉ as)
    (hy : r.next x = some y) (hyx : y ≠ x) (fuel : ℕ) :
    r.remove fuel x = if as.length < fuel
      then some (r.unlink ((z :: as).getLast (by simp)) x y) else none := by
  have hc := h.cycle z hz
  rw [← List.cons_append, List.isChain_split] at hc
  simp only [Circle.remove, hy, hyx, if_false, hz, search_spec r hc.1 hxa fuel]
  by_cases hf : as.length < fuel
  · simp [hf, Circle.unlink, hz]
  · simp [hf]

/-- `remove` deletes exactly `x` and keeps the order of the others; its search
stops within as many steps as there are nodes. -/
theorem represents_remove {r : Circle α} {q : List α} {x : α} (h : Represents r q) (fuel : ℕ) :
    (∀ r', r.remove fuel x = some r' → Represents r' (q.erase x)) ∧
      (q.length ≤ fuel → ∃ r', r.remove fuel x = some r') := by
  by_cases hx : x ∈ q
  · obtain ⟨as, bs, rfl, hxa⟩ := List.eq_append_cons_of_mem hx
    obtain ⟨z, hz⟩ := h.exists_tail (by simp)
    obtain ⟨y, hy⟩ := Option.ne_none_iff_exists'.mp ((h.keys x).mpr hx)
    have hc := h.cycle z hz
    have hn := List.nodup_append.mp h.nodup
    have hxb : x ∉ bs := (List.nodup_cons.mp hn.2.1).1
    rw [List.erase_append_right _ hxa, List.erase_cons_head]
    cases hl : bs.getLast? with
    | none =>
      obtain rfl := List.getLast?_eq_none_iff.mp hl
      obtain rfl : z = x := by simpa [h.tail, eq_comm] using hz
      by_cases has : as = []
      · subst as
        obtain rfl : y = z := by
          have := chain_head hc (by simp)
          rw [hy] at this
          exact Option.some.inj this
        have he : r.remove fuel y = some { (r.set y none) with tail := none } := by
          simp [Circle.remove, hy]
        rw [he]
        refine ⟨fun r' hr => ?_, fun _ => ⟨_, rfl⟩⟩
        cases hr
        refine ⟨List.nodup_nil, rfl, ?_, fun w hw => by simp at hw⟩
        intro w
        have hk := h.keys w
        by_cases hw : w = y
        · simp [Circle.set, hw]
        · simpa [Circle.set, hw] using hk
      · have hya : some y = as.head? := by
          rw [← hy, chain_head hc (by simp), List.head?_append_of_ne_nil _ has]
        have hyx : y ≠ z := by
          rintro rfl
          exact hxa (List.mem_of_mem_head? hya.symm)
        rw [remove_linked h hz hxa hy hyx, List.getLast_cons has, List.append_nil]
        have hu := unlink_last h has hy
        by_cases hf : as.length < fuel
        · simpa [hf] using hu
        · simp only [hf, if_false, reduceCtorEq, false_implies, implies_true, true_and,
            List.length_append, List.length_singleton]
          omega
    | some w =>
      obtain rfl : w = z := by
        have ht := h.tail
        rw [List.getLast?_append, List.getLast?_cons, hl, hz] at ht
        exact (Option.some.inj ht).symm
      have hyx : y ≠ x := by
        rintro rfl
        have hb : bs ≠ [] := by
          rintro rfl
          simp at hl
        rw [← List.cons_append, List.isChain_split] at hc
        have := chain_head hc.2 hb
        rw [hy] at this
        exact hxb (List.mem_of_mem_head? this.symm)
      rw [remove_linked h hz hxa hy hyx]
      have hu := unlink_inner h hl hy
      by_cases hf : as.length < fuel
      · simpa [hf] using hu
      · simp only [hf, if_false, reduceCtorEq, false_implies, implies_true, true_and,
          List.length_append, List.length_cons]
        omega
  · rw [remove_absent h hx, List.erase_of_not_mem hx]
    exact ⟨fun r' hr => Option.some.inj hr ▸ h, fun _ => ⟨r, rfl⟩⟩

end
end Coutil.CircularList
