import Mathlib.Data.List.Basic
import Mathlib.Data.Option.Basic

/-!
# Loops that end

A `while` loop is one round of its body, refused when the condition fails, together with a
measure that every round lowers, so that a loop which may go on for ever cannot be given.
`passes` lists the states in which a round begins; its length is the number of rounds.
`exit` is the state behind the loop.

* `Loop.induct` is induction along the rounds;
* `Loop.invariant` carries what a round keeps to every pass and to the exit;
* `Loop.round_exit` says that the condition fails at the exit.
-/

namespace SfcCapio
namespace Foundation

/-- A loop over states `σ`, with its reason to end. -/
structure Loop (σ : Type*) where
  round : σ → Option σ
  measure : σ → Nat
  decreases : ∀ s s', round s = some s' → measure s' < measure s

namespace Loop

variable {σ : Type*} (L : Loop σ)

/-- At most `n` rounds from `s`: where they begin, and the state behind them. -/
def walk : Nat → σ → List σ × σ
  | 0, s => ([], s)
  | n + 1, s =>
    match L.round s with
    | none => ([], s)
    | some s' => (s :: (walk n s').1, (walk n s').2)

/-- The states in which a round begins. -/
def passes (s : σ) : List σ := (L.walk (L.measure s) s).1

/-- The state in which the loop is left. -/
def exit (s : σ) : σ := (L.walk (L.measure s) s).2

variable {L} {s s' : σ}

theorem walk_of_none (hround : L.round s = none) (n : Nat) : L.walk n s = ([], s) := by
  cases n with
  | zero => rfl
  | succ n => rw [walk, hround]

theorem walk_succ_of_some (hround : L.round s = some s') (n : Nat) :
    L.walk (n + 1) s = (s :: (L.walk n s').1, (L.walk n s').2) := by
  rw [walk, hround]

theorem induct {motive : σ → Prop} (stop : ∀ s, L.round s = none → motive s)
    (go : ∀ s s', L.round s = some s' → motive s' → motive s) (s : σ) : motive s := by
  induction hm : L.measure s using Nat.strongRecOn generalizing s with
  | ind m ih =>
    cases hround : L.round s with
    | none => exact stop s hround
    | some s' =>
      have hlower := L.decreases s s' hround
      exact go s s' hround (ih _ (hm ▸ hlower) s' rfl)

/-- The measure allows for all rounds, and more than that changes nothing. -/
theorem walk_eq (s : σ) : ∀ n, L.measure s ≤ n → L.walk n s = (L.passes s, L.exit s) := by
  have hagree : ∀ n m, L.measure s ≤ n → L.measure s ≤ m → L.walk n s = L.walk m s := by
    induction s using L.induct with
    | stop s hround =>
      intro n m _ _
      rw [walk_of_none hround, walk_of_none hround]
    | go s s' hround ih =>
      intro n m hn hm
      have hlower := L.decreases s s' hround
      obtain ⟨n, rfl⟩ := Nat.exists_eq_succ_of_ne_zero (n := n) (by omega)
      obtain ⟨m, rfl⟩ := Nat.exists_eq_succ_of_ne_zero (n := m) (by omega)
      rw [walk_succ_of_some hround, walk_succ_of_some hround, ih n m (by omega) (by omega)]
  intro n hn
  exact hagree n (L.measure s) hn (Nat.le_refl _)

theorem passes_of_none (hround : L.round s = none) : L.passes s = [] := by
  rw [passes, walk_of_none hround]

theorem exit_of_none (hround : L.round s = none) : L.exit s = s := by
  rw [exit, walk_of_none hround]

theorem walk_of_some (hround : L.round s = some s') :
    L.passes s = s :: L.passes s' ∧ L.exit s = L.exit s' := by
  have hlower := L.decreases s s' hround
  obtain ⟨m, hm⟩ := Nat.exists_eq_succ_of_ne_zero (n := L.measure s) (by omega)
  rw [passes, exit, hm, walk_succ_of_some hround, walk_eq s' m (by omega)]
  exact ⟨rfl, rfl⟩

theorem passes_of_some (hround : L.round s = some s') : L.passes s = s :: L.passes s' :=
  (walk_of_some hround).1

theorem exit_of_some (hround : L.round s = some s') : L.exit s = L.exit s' :=
  (walk_of_some hround).2

theorem round_exit (s : σ) : L.round (L.exit s) = none := by
  induction s using L.induct with
  | stop s hround =>
    rw [exit_of_none hround]
    exact hround
  | go s s' hround ih =>
    rw [exit_of_some hround]
    exact ih

/-- What every round keeps holds wherever a round begins, and behind the loop. -/
theorem invariant {Inv : σ → Prop} (hkeeps : ∀ s s', Inv s → L.round s = some s' → Inv s')
    (hinit : Inv s) :
    (∀ c ∈ L.passes s, Inv c ∧ ∃ c', L.round c = some c') ∧ Inv (L.exit s) := by
  induction s using L.induct with
  | stop s hround =>
    rw [passes_of_none hround, exit_of_none hround]
    exact ⟨nofun, hinit⟩
  | go s s' hround ih =>
    obtain ⟨hpasses, hexit⟩ := ih (hkeeps s s' hinit hround)
    rw [passes_of_some hround, exit_of_some hround]
    refine ⟨?_, hexit⟩
    intro c hc
    rcases List.mem_cons.mp hc with rfl | hc
    · exact ⟨hinit, s', hround⟩
    · exact hpasses c hc

end Loop

end Foundation
end SfcCapio
