import Mathlib.Data.List.Basic

/-!
# Machines that answer their inputs

`step : σ → α → ω × σ` answers an input with an output.  Two states are told apart
only by the outputs of the runs that start in them.

If the output and the next value of a projection depend on the value of the
projection alone, states with equal projections answer every run alike.
-/

namespace SfcCapio
namespace Foundation

variable {σ α ω π : Type*}

/-- The state behind a run. -/
def stateAfter (step : σ → α → ω × σ) (s : σ) (inputs : List α) : σ :=
  inputs.foldl (fun s a => (step s a).2) s

/-- The outputs of a run. -/
def outputs (step : σ → α → ω × σ) : σ → List α → List ω
  | _, [] => []
  | s, a :: rest => (step s a).1 :: outputs step (step s a).2 rest

theorem stateAfter_append (step : σ → α → ω × σ) (s : σ) (inputs more : List α) :
    stateAfter step s (inputs ++ more) = stateAfter step (stateAfter step s inputs) more :=
  List.foldl_append

theorem stateAfter_invariant {step : σ → α → ω × σ} {P : σ → Prop}
    (hstep : ∀ s a, P s → P (step s a).2) {s : σ} (hs : P s) (inputs : List α) :
    P (stateAfter step s inputs) := by
  induction inputs generalizing s with
  | nil => exact hs
  | cons a rest ih => exact ih (hstep s a hs)

/-- Output and next projection depend on the projection alone. -/
def FactorsThrough (step : σ → α → ω × σ) (proj : σ → π) : Prop :=
  ∀ s t a, proj s = proj t →
    (step s a).1 = (step t a).1 ∧ proj (step s a).2 = proj (step t a).2

/-- States with equal projections answer every run alike, and stay equal in it. -/
theorem FactorsThrough.run {step : σ → α → ω × σ} {proj : σ → π}
    (hstep : FactorsThrough step proj) {s t : σ} (hproj : proj s = proj t) (inputs : List α) :
    outputs step s inputs = outputs step t inputs ∧
      proj (stateAfter step s inputs) = proj (stateAfter step t inputs) := by
  induction inputs generalizing s t with
  | nil => exact ⟨rfl, hproj⟩
  | cons a rest ih =>
    obtain ⟨hout, hnext⟩ := hstep s t a hproj
    obtain ⟨houts, hlast⟩ := ih hnext
    refine ⟨?_, hlast⟩
    rw [outputs, outputs, hout, houts]

end Foundation
end SfcCapio
