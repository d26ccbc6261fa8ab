import Coutil.FileSystem
import Coutil.Ownership

set_option autoImplicit false

/-! Who holds the descriptors, internals and address lists: a file, an address list or a request in
flight. What each function does with what it is given. -/
namespace Coutil.FileCustody
open Operation FileResources FileSystem Ownership

inductive Holder (T : Type) where
  | file (f : ℕ)
  | found (l : ℕ)
  | flight (x : T)
  deriving DecidableEq

def File.holdings (file : File) : List Resource :=
  if file.metatable ∧ 0 ≤ file.fd then [.descriptor file.fd.toNat] else []

def Found.holdings (found : Found) : List Resource :=
  if found.metatable then found.list.start.toList.map fun results => .addresses results.block
  else []

/-- The descriptor that a request opened. -/
def opened (query : Query) (done : Done) : List Resource :=
  match query with
  | .openfile | .mkstemp => if done.result < 0 then [] else [.descriptor done.result.toNat]
  | _ => []

def found (query : Query) (done : Done) : List Resource :=
  match query with
  | .getaddrinfo => done.results.toList.map fun results => .addresses results.block
  | _ => []

def internals (block : Option ℕ) : List Resource := block.toList.map .internals

def Flight.holdings (flight : Flight) : List Resource :=
  internals flight.block ++
    match flight.query, flight.done with
    | .close fd, none => [.descriptor fd]
    | _, none => []
    | query, some done => opened query done ++ found query done

section
variable {T : Type} [DecidableEq T]

def World.holdings (w : World T) : Holder T → List Resource
  | .file f => ((w.files[f]?).map File.holdings).getD []
  | .found l => ((w.lists[l]?).map Found.holdings).getD []
  | .flight x => ((w.flight x).map Flight.holdings).getD []

/-- The books are balanced with some resources in hand and some lost. -/
structure Books (w : World T) (loose lost : List Resource) : Prop where
  custody : Custody (World.holdings w) w.resources loose lost
  blocks : ∀ block, .internals block ∈ w.resources → block < w.blocks

variable {w w' : World T} {x : T} {loose lost : List Resource} {r : Resource}

omit [DecidableEq T] in
theorem books_nothing : Books (⟨[], [], fun _ => none, 0, []⟩ : World T) [] [] := by
  refine ⟨?_, fun block member => absurd member List.not_mem_nil⟩
  have empty : World.holdings (⟨[], [], fun _ => none, 0, []⟩ : World T) = fun _ => [] := by
    funext holder
    cases holder <;> rfl
  rw [empty]
  exact Custody.nothing

/-! Holdings after a change of the world. -/

theorem holdings_setfile {f : ℕ} (known : f < w.files.length) (file : File) :
    World.holdings (w.setfile f file) =
      Function.update (World.holdings w) (.file f) (File.holdings file) := by
  funext holder
  by_cases here : holder = .file f
  · subst here
    rw [Function.update_self]
    simp only [World.holdings, World.setfile]
    rw [List.getElem?_set_self known]
    rfl
  · rw [Function.update_of_ne here]
    cases holder with
    | file g =>
      simp only [World.holdings, World.setfile]
      rw [List.getElem?_set_ne (by rintro rfl; exact here rfl)]
    | _ => rfl

theorem holdings_setlist {l : ℕ} (known : l < w.lists.length) (found : FileResources.Found) :
    World.holdings (w.setlist l found) =
      Function.update (World.holdings w) (.found l) (Found.holdings found) := by
  funext holder
  by_cases here : holder = .found l
  · subst here
    rw [Function.update_self]
    simp only [World.holdings, World.setlist]
    rw [List.getElem?_set_self known]
    rfl
  · rw [Function.update_of_ne here]
    cases holder with
    | found k =>
      simp only [World.holdings, World.setlist]
      rw [List.getElem?_set_ne (by rintro rfl; exact here rfl)]
    | _ => rfl

theorem holdings_setflight (flight : Option Flight) :
    World.holdings (w.setflight x flight) =
      Function.update (World.holdings w) (.flight x) ((flight.map Flight.holdings).getD []) := by
  funext holder
  by_cases here : holder = .flight x
  · subst here
    rw [Function.update_self]
    simp only [World.holdings, World.setflight, Function.update_self]
  · rw [Function.update_of_ne here]
    cases holder with
    | flight y =>
      have other : y ≠ x := by
        rintro rfl
        exact here rfl
      simp only [World.holdings, World.setflight, Function.update_of_ne other]
    | _ => rfl

omit [DecidableEq T] in
theorem holdings_newfile : World.holdings w.newfile = World.holdings w := by
  funext holder
  cases holder with
  | file f =>
    simp only [World.holdings, World.newfile]
    by_cases old : f < w.files.length
    · rw [List.getElem?_append_left old]
    · rw [List.getElem?_append_right (by omega), List.getElem?_eq_none (by omega : _ ≤ f)]
      cases f - w.files.length <;> rfl
  | _ => rfl

omit [DecidableEq T] in
theorem holdings_newlist : World.holdings w.newlist = World.holdings w := by
  funext holder
  cases holder with
  | found l =>
    simp only [World.holdings, World.newlist]
    by_cases old : l < w.lists.length
    · rw [List.getElem?_append_left old]
    · rw [List.getElem?_append_right (by omega), List.getElem?_eq_none (by omega : _ ≤ l)]
      cases l - w.lists.length <;> rfl
  | _ => rfl

/-! The books after each thing that a function does. -/

omit [DecidableEq T] in
theorem Books.newfile (books : Books w loose lost) : Books w.newfile loose lost :=
  ⟨by rw [holdings_newfile]; exact books.custody, books.blocks⟩

omit [DecidableEq T] in
theorem Books.newlist (books : Books w loose lost) : Books w.newlist loose lost :=
  ⟨by rw [holdings_newlist]; exact books.custody, books.blocks⟩

theorem Books.setfile (books : Books w loose lost) {f : ℕ} (known : f < w.files.length)
    {file : File} {loose' : List Resource}
    (same : (World.holdings w (.file f) ++ loose).Perm (File.holdings file ++ loose')) :
    Books (w.setfile f file) loose' lost :=
  ⟨by rw [holdings_setfile known]; exact books.custody.exchange same, books.blocks⟩

theorem Books.setlist (books : Books w loose lost) {l : ℕ} (known : l < w.lists.length)
    {found : FileResources.Found} {loose' : List Resource}
    (same : (World.holdings w (.found l) ++ loose).Perm (Found.holdings found ++ loose')) :
    Books (w.setlist l found) loose' lost :=
  ⟨by rw [holdings_setlist known]; exact books.custody.exchange same, books.blocks⟩

theorem Books.setflight (books : Books w loose lost) {flight : Option Flight}
    {loose' : List Resource}
    (same : (World.holdings w (.flight x) ++ loose).Perm
      ((flight.map Flight.holdings).getD [] ++ loose')) :
    Books (w.setflight x flight) loose' lost :=
  ⟨by rw [holdings_setflight]; exact books.custody.exchange same, books.blocks⟩

omit [DecidableEq T] in
theorem Books.create (books : Books w loose lost) (fresh : r ∉ w.resources)
    (other : ∀ block, r ≠ .internals block) :
    Books { w with resources := r :: w.resources } (r :: loose) lost := by
  refine ⟨books.custody.create fresh, fun block member => ?_⟩
  rcases List.mem_cons.mp member with same | member
  · exact absurd same.symm (other block)
  · exact books.blocks block member

omit [DecidableEq T] in
theorem Books.openfd (books : Books w loose lost) {fd : ℤ}
    (fresh : .descriptor fd.toNat ∉ w.resources) :
    Books (w.openfd fd) (.descriptor fd.toNat :: loose) lost :=
  books.create fresh (by simp)

omit [DecidableEq T] in
theorem Books.release (books : Books w (r :: loose) lost) :
    w.release r = .ok (w.without r) ∧ Books (w.without r) loose lost := by
  have live := books.custody.loose_live (List.mem_cons_self (a := r))
  refine ⟨by rw [World.release, if_pos live], books.custody.release, fun block member => ?_⟩
  exact books.blocks block (List.mem_filter.mp member).1

omit [DecidableEq T] in
theorem Books.cleanup {block : Option ℕ} (books : Books w (internals block ++ loose) lost) :
    ∃ w', uv_fs_req_cleanup w block = .ok w' ∧ Books w' loose lost ∧ w'.files = w.files ∧
      w'.lists = w.lists ∧ w'.flight = w.flight := by
  cases block with
  | none => exact ⟨w, rfl, books, rfl, rfl, rfl⟩
  | some block =>
    obtain ⟨released, books⟩ := Books.release (r := .internals block) books
    exact ⟨_, released, books, rfl, rfl, rfl⟩

omit [DecidableEq T] in
theorem Books.forget (books : Books w loose lost) : Books w [] (lost ++ loose) :=
  ⟨books.custody.forget, books.blocks⟩

omit [DecidableEq T] in
theorem Books.reorder (books : Books w loose lost) {loose' : List Resource}
    (same : loose.Perm loose') : Books w loose' lost :=
  ⟨books.custody.reorder same, books.blocks⟩

omit [DecidableEq T] in
/-- Internals that were just allocated are in hand. -/
theorem Books.newblock (books : Books w loose lost) :
    Books w.newblock (.internals w.blocks :: loose) lost := by
  have fresh : .internals w.blocks ∉ w.resources := fun member =>
    absurd (books.blocks _ member) (Nat.lt_irrefl _)
  refine ⟨books.custody.create fresh, fun block member => ?_⟩
  rcases List.mem_cons.mp member with same | member
  · cases same
    exact Nat.lt_succ_self _
  · exact (books.blocks block member).trans (Nat.lt_succ_self _)

theorem Books.fsrequest (rs : List Resource) (books : Books w (rs ++ loose) lost)
    (idle : w.flight x = none) {query : Query} {callback : Callback}
    (holds : Flight.holdings ⟨query, callback, some w.blocks, none⟩ =
      .internals w.blocks :: rs) : Books (w.fsrequest x query callback) loose lost := by
  refine books.newblock.setflight ?_
  have empty : World.holdings w.newblock (.flight x) = [] := by
    simp only [World.holdings, World.newblock, idle]
    rfl
  rw [empty, Option.map_some, Option.getD_some, holds]
  exact .refl _

end
end Coutil.FileCustody
