import Mathlib.Data.Option.Basic

/-!
# Fallible steps with unwinding

Kernel code acquires resources one after the other and leaves through a label that
undoes them if a step fails.  An `Action` returns an error or not, and leaves a state
in both cases; `andThen` goes on after a success and unwinds after a failure.

`Triple` is the usual statement with one postcondition for the normal way out and one
for the errors.  The rules follow the combinators.
-/

namespace SfcCapio
namespace Foundation

variable {σ ε : Type*}

/-- The error, if the step fails, and the state it leaves. -/
abbrev Action (σ ε : Type*) := σ → Option ε × σ

namespace Action

/-- Nothing to do. -/
def done : Action σ ε := fun s => (none, s)

/-- A step that cannot fail. -/
def always (f : σ → σ) : Action σ ε := fun s => (none, f s)

/-- A failure of the first step leaves through the label `unwind`. -/
def andThen (first : Action σ ε) (unwind : σ → σ) (rest : Action σ ε) : Action σ ε := fun s =>
  match first s with
  | (none, s') => rest s'
  | (some e, s') => (some e, unwind s')

/-- Steps one after the other; the first failure leaves at once. -/
def inOrder : List (Action σ ε) → Action σ ε
  | [] => done
  | first :: rest => first.andThen id (inOrder rest)

/-- Fail unless the condition is false. -/
def refuse (c : Prop) [Decidable c] (e : ε) : Action σ ε := fun s =>
  if c then (some e, s) else (none, s)

/-- At most `n` rounds; a round that reaches `stop` is the last. -/
def rounds (body : Action σ ε) (stop : σ → Bool) : Nat → Action σ ε
  | 0 => done
  | n + 1 => body.andThen id fun s => if stop s then (none, s) else rounds body stop n s

theorem inOrder_of_done {first : Action σ ε} {s s' : σ} (rest : List (Action σ ε))
    (hfirst : first s = (none, s')) : inOrder (first :: rest) s = inOrder rest s' := by
  simp only [inOrder, andThen, hfirst]

theorem inOrder_of_failed {first : Action σ ε} {s s' : σ} {e : ε} (rest : List (Action σ ε))
    (hfirst : first s = (some e, s')) : inOrder (first :: rest) s = (some e, s') := by
  simp only [inOrder, andThen, hfirst, id]

end Action

/-- From a state with `P` the step ends in `Q`, or fails in `R`. -/
def Triple (P : σ → Prop) (step : Action σ ε) (Q : σ → Prop) (R : ε → σ → Prop) : Prop :=
  ∀ s, P s → match step s with
    | (none, s') => Q s'
    | (some e, s') => R e s'

namespace Triple

variable {P P' Q Q' : σ → Prop} {R R' : ε → σ → Prop} {step rest : Action σ ε}

theorem error (htriple : Triple P step Q R) {s s' : σ} {e : ε} (hpre : P s)
    (hstep : step s = (some e, s')) : R e s' := by
  have hpost := htriple s hpre
  rw [hstep] at hpost
  exact hpost

theorem normal (htriple : Triple P step Q R) {s s' : σ} (hpre : P s)
    (hstep : step s = (none, s')) : Q s' := by
  have hpost := htriple s hpre
  rw [hstep] at hpost
  exact hpost

theorem done (himp : ∀ s, P s → Q s) : Triple P Action.done Q R := himp

theorem always {f : σ → σ} (hf : ∀ s, P s → Q (f s)) : Triple P (Action.always f) Q R := hf

/-- The rule for a step and its label. -/
theorem andThen {unwind : σ → σ} (hstep : Triple P step Q R)
    (hunwind : ∀ e s, R e s → R' e (unwind s)) (hrest : Triple Q rest Q' R') :
    Triple P (step.andThen unwind rest) Q' R' := by
  intro s hpre
  have hpost := hstep s hpre
  unfold Action.andThen
  cases hout : step s with
  | mk err s' =>
    rw [hout] at hpost
    cases err with
    | none => exact hrest s' hpost
    | some e => exact hunwind e s' hpost

/-- The rule for a check that comes first and leaves the state alone. -/
theorem check {c : σ → Prop} [DecidablePred c] {e : ε} (hstep : Triple P step Q R)
    (hrefused : ∀ s, P s → R e s) :
    Triple P (fun s => if c s then (some e, s) else step s) Q R := by
  intro s hpre
  by_cases hc : c s
  · simp only [if_pos hc]
    exact hrefused s hpre
  · simp only [if_neg hc]
    exact hstep s hpre

/-- The rule for a step that may have nothing to do. -/
theorem skip {c : σ → Prop} [DecidablePred c] (hstep : Triple P step Q R)
    (hskip : ∀ s, c s → P s → Q s) :
    Triple P (fun s => if c s then (none, s) else step s) Q R := by
  intro s hpre
  by_cases hc : c s
  · simp only [if_pos hc]
    exact hskip s hc hpre
  · simp only [if_neg hc]
    exact hstep s hpre

/-- The rule for a bounded loop. -/
theorem rounds {stop : σ → Bool} (hbody : Triple P step P R) (n : Nat) :
    Triple P (step.rounds stop n) P R := by
  induction n with
  | zero => exact done fun _ hpre => hpre
  | succ n ih =>
    apply andThen hbody (fun _ _ hpost => hpost)
    intro s hpre
    by_cases hstop : stop s = true
    · simp only [if_pos hstop]
      exact hpre
    · simp only [if_neg hstop]
      exact ih s hpre

end Triple

/-! ## Checks -/

/-- From `s` the step goes on to `s'` exactly if `c` holds, and otherwise fails in `u`. -/
def Guards (step : Action σ ε) (c : Prop) (s s' u : σ) : Prop :=
  (c ∧ step s = (none, s')) ∨ (¬ c ∧ ∃ e, step s = (some e, u))

namespace Guards

variable {first : Action σ ε} {rest : List (Action σ ε)} {c c' : Prop} {s s' s'' u : σ}

theorem refuse [Decidable c] (e : ε) : Guards (Action.refuse c e) (¬ c) s s s := by
  by_cases hc : c
  · exact Or.inr ⟨not_not.mpr hc, e, if_pos hc⟩
  · exact Or.inl ⟨hc, if_neg hc⟩

theorem nil : Guards (Action.inOrder ([] : List (Action σ ε))) True s s u := Or.inl ⟨trivial, rfl⟩

/-- The conditions of the steps add up. -/
theorem cons (hfirst : Guards first c s s' u) (hrest : Guards (Action.inOrder rest) c' s' s'' u) :
    Guards (Action.inOrder (first :: rest)) (c ∧ c') s s'' u := by
  rcases hfirst with ⟨hc, hdone⟩ | ⟨hc, e, hfailed⟩
  · rw [Guards, Action.inOrder_of_done rest hdone]
    rcases hrest with ⟨hc', hout⟩ | ⟨hc', hout⟩
    · exact Or.inl ⟨⟨hc, hc'⟩, hout⟩
    · exact Or.inr ⟨fun h => hc' h.2, hout⟩
  · exact Or.inr ⟨fun h => hc h.1, e, Action.inOrder_of_failed rest hfailed⟩

/-- A step that cannot fail adds nothing. -/
theorem always {f : σ → σ} (hrest : Guards (Action.inOrder rest) c (f s) s'' u) :
    Guards (Action.inOrder (Action.always f :: rest)) c s s'' u := by
  have hdone : Action.always f s = ((none, f s) : Option ε × σ) := rfl
  rw [Guards, Action.inOrder_of_done rest hdone]
  exact hrest

theorem congr {step : Action σ ε} (hguards : Guards step c s s' u) (hiff : c ↔ c') :
    Guards step c' s s' u := by
  rw [Guards, ← hiff]
  exact hguards

end Guards

end Foundation
end SfcCapio
