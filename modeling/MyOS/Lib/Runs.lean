import Mathlib.Tactic.Common

/-! Runs of a machine over a list of inputs, and when a property of its states never breaks. -/

namespace Runs

variable {σ ι : Type} (step : σ → ι → σ)

/-- The property holds at the start and behind every input. -/
def Always (P : σ → Prop) : σ → List ι → Prop
  | s, [] => P s
  | s, i :: inputs => P s ∧ Always P (step s i) inputs

/-- Every input meets the condition in the state in which it arrives. -/
def Meets (C : σ → ι → Prop) : σ → List ι → Prop
  | _, [] => True
  | s, i :: inputs => C s i ∧ Meets C (step s i) inputs

variable {step} {P I : σ → Prop} {C : σ → ι → Prop}

theorem Always.start {s : σ} {inputs : List ι} (h : Always step P s inputs) : P s := by
  cases inputs with
  | nil => exact h
  | cons i inputs => exact h.1

/-- A property that holds of every state reached holds of the last one. -/
theorem Always.last {inputs : List ι} : ∀ {s}, Always step P s inputs → P (inputs.foldl step s) := by
  induction inputs with
  | nil => exact fun h => h
  | cons i inputs ih => exact fun h => ih h.2

/-- Where one step keeps the property exactly under the condition, it never breaks in a run exactly
if every step meets the condition. The invariant holds of all states, whether the condition is met
or not. -/
theorem always_iff_meets (hI : ∀ s i, I s → I (step s i))
    (hP : ∀ s i, I s → P s → (P (step s i) ↔ C s i)) :
    ∀ inputs s, I s → P s → (Always step P s inputs ↔ Meets step C s inputs) := by
  intro inputs
  induction inputs with
  | nil =>
      intro s _ hs
      exact iff_of_true hs trivial
  | cons i inputs ih =>
      intro s hIs hs
      constructor
      · rintro ⟨-, hrest⟩
        exact ⟨(hP s i hIs hs).mp hrest.start, (ih _ (hI s i hIs) hrest.start).mp hrest⟩
      · rintro ⟨hmeets, hrest⟩
        have hnext := (hP s i hIs hs).mpr hmeets
        exact ⟨hs, (ih _ (hI s i hIs) hnext).mpr hrest⟩

/-- Two machines in step: each step keeps the relation between them as long as the second one
stays within `P`, and so does a run. -/
theorem Always.simulation {τ : Type} {step' : τ → ι → τ} {R : τ → σ → Prop} {C : ι → Prop}
    (hstep : ∀ t s i, R t s → C i → P (step s i) → R (step' t i) (step s i)) {inputs : List ι}
    (hC : ∀ i ∈ inputs, C i) :
    ∀ {t s}, R t s → Always step P s inputs → R (inputs.foldl step' t) (inputs.foldl step s) := by
  induction inputs with
  | nil => exact fun hR _ => hR
  | cons i inputs ih =>
      rintro t s hR ⟨-, hrest⟩
      have hnext := hstep t s i hR (hC i (by simp)) hrest.start
      exact ih (fun j hj => hC j (by simp [hj])) hnext hrest

end Runs
