import Mathlib

set_option autoImplicit false

/-! Finite runs of a partial step function. A step that is not enabled in a
state is `none`; a run is a list of actions, each enabled where it is taken. -/
namespace Coutil.Runs

section
variable {σ τ α : Type}

def run (step : σ → α → Option σ) : σ → List α → Option σ
  | s, [] => some s
  | s, a :: as => (step s a).bind (fun u => run step u as)

def Reachable (step : σ → α → Option σ) (s u : σ) : Prop := ∃ as, run step s as = some u

/-- Every action of the list is taken in a state where `C` allows it. -/
def Along (step : σ → α → Option σ) (C : σ → α → Prop) : σ → List α → Prop
  | _, [] => True
  | s, a :: as => C s a ∧ ∀ u, step s a = some u → Along step C u as

variable {step : σ → α → Option σ}

theorem run_cons {s v : σ} {a : α} {as : List α} :
    run step s (a :: as) = some v ↔ ∃ u, step s a = some u ∧ run step u as = some v := by
  simp only [run, Option.bind_eq_some_iff]

theorem run_append {s v : σ} {as bs : List α} :
    run step s (as ++ bs) = some v ↔ ∃ u, run step s as = some u ∧ run step u bs = some v := by
  induction as generalizing s with
  | nil => simp [run]
  | cons a as ih =>
    simp only [List.cons_append, run_cons, ih]
    constructor
    · rintro ⟨w, hw, u, hu, hv⟩
      exact ⟨u, ⟨w, hw, hu⟩, hv⟩
    · rintro ⟨u, ⟨w, hw, hu⟩, hv⟩
      exact ⟨w, hw, u, hu, hv⟩

/-- What holds at the start and is kept by each step holds at the end of every run. -/
theorem run_invariant (I : σ → Prop) (keep : ∀ s a u, I s → step s a = some u → I u)
    {s u : σ} {as : List α} (hs : I s) (h : run step s as = some u) : I u := by
  induction as generalizing s with
  | nil =>
    cases h
    exact hs
  | cons a as ih =>
    obtain ⟨w, hw, hu⟩ := run_cons.mp h
    exact ih (keep s a w hs hw) hu

theorem along_cons {C : σ → α → Prop} {s u : σ} {a : α} {as : List α} (hs : step s a = some u)
    (hc : C s a) (h : Along step C u as) : Along step C s (a :: as) := by
  refine ⟨hc, fun v hv => ?_⟩
  obtain rfl := Option.some.inj (hs.symm.trans hv)
  exact h

/-- The condition is met by these actions in every state. -/
theorem along_always {C : σ → α → Prop} {s : σ} {as : List α} (always : ∀ a ∈ as, ∀ u, C u a) :
    Along step C s as := by
  induction as generalizing s with
  | nil => trivial
  | cons a as ih =>
    exact ⟨always a List.mem_cons_self s,
      fun _ _ => ih fun b member => always b (List.mem_cons_of_mem a member)⟩

theorem along_append {C : σ → α → Prop} {s : σ} {as bs : List α} (first : Along step C s as)
    (rest : ∀ u, run step s as = some u → Along step C u bs) : Along step C s (as ++ bs) := by
  induction as generalizing s with
  | nil => exact rest s rfl
  | cons a as ih =>
    refine ⟨first.1, fun u stepped => ih (first.2 u stepped) fun v ran => ?_⟩
    exact rest v (run_cons.mpr ⟨u, stepped, ran⟩)

/-- A run in two parts meets the condition in each. -/
theorem along_split {C : σ → α → Prop} {s u : σ} {as bs : List α} (along : Along step C s (as ++ bs))
    (ran : run step s as = some u) : Along step C s as ∧ Along step C u bs := by
  induction as generalizing s with
  | nil =>
    cases ran
    exact ⟨trivial, along⟩
  | cons a as ih =>
    obtain ⟨w, stepped, ran⟩ := run_cons.mp ran
    obtain ⟨first, rest⟩ := ih (along.2 w stepped) ran
    exact ⟨along_cons stepped along.1 first, rest⟩

instance {C : σ → α → Prop} [∀ s a, Decidable (C s a)] : ∀ s as, Decidable (Along step C s as)
  | _, [] => isTrue trivial
  | s, a :: as =>
    match taken : step s a with
    | none => decidable_of_iff (C s a) (by simp [Along, taken])
    | some u =>
      have : Decidable (Along step C u as) := instDecidableAlong u as
      decidable_of_iff (C s a ∧ Along step C u as) (by simp [Along, taken])

theorem run_invariant_along (I : σ → Prop) (C : σ → α → Prop)
    (keep : ∀ s a u, I s → C s a → step s a = some u → I u)
    {s u : σ} {as : List α} (hs : I s) (hc : Along step C s as)
    (h : run step s as = some u) : I u := by
  induction as generalizing s with
  | nil =>
    cases h
    exact hs
  | cons a as ih =>
    obtain ⟨w, hw, hu⟩ := run_cons.mp h
    exact ih (keep s a w hs hc.1 hw) (hc.2 w hw) hu

/-- The step with what comes out of it written down. -/
def logged {β : Type} (step : σ → α → Option σ) (out : α → σ → List β) (s : σ × List β) (a : α) :
    Option (σ × List β) :=
  (step s.1 a).map fun u => (u, s.2 ++ out a u)

theorem logged_cases {β : Type} {out : α → σ → List β} {s u : σ × List β} {a : α}
    (stepped : logged step out s a = some u) :
    step s.1 a = some u.1 ∧ u.2 = s.2 ++ out a u.1 := by
  obtain ⟨v, hv, rfl⟩ := Option.map_eq_some_iff.mp stepped
  exact ⟨hv, rfl⟩

/-- A step-by-step simulation lifts to runs over the same actions. -/
theorem run_simulation {step' : τ → α → Option τ} (R : σ → τ → Prop)
    (sim : ∀ s t a u, R s t → step s a = some u → ∃ v, step' t a = some v ∧ R u v)
    {s u : σ} {t : τ} {as : List α} (hst : R s t) (h : run step s as = some u) :
    ∃ v, run step' t as = some v ∧ R u v := by
  induction as generalizing s t with
  | nil =>
    cases h
    exact ⟨t, rfl, hst⟩
  | cons a as ih =>
    obtain ⟨w, hw, hu⟩ := run_cons.mp h
    obtain ⟨x, hx, hwx⟩ := sim s t a w hst hw
    obtain ⟨v, hv, huv⟩ := ih hwx hu
    exact ⟨v, run_cons.mpr ⟨x, hx, hv⟩, huv⟩

end
end Coutil.Runs
