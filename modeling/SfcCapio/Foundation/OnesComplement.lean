import Mathlib.Algebra.BigOperators.Group.List.Basic
import Mathlib.Data.Nat.ModEq

/-!
# One's-complement sums

A sum of `w`-bit words is kept in a wider accumulator and folded: what does not fit into
`w` bits is added at the bottom again.  A fold keeps the residue modulo `2 ^ w - 1`.

That residue does not determine a `w`-bit word, since 0 has two representations; `Folds`
says which one a fold ends with.  `onesSum` is the textbook sum, with the carry brought
round after every addition.
-/

namespace SfcCapio
namespace Foundation

/-- A word of weight `2 ^ w` counts like one of weight 1. -/
theorem carry_modEq (w a b : Nat) : a + 2 ^ w * b ≡ a + b [MOD 2 ^ w - 1] := by
  have hmul := (Nat.modEq_sub (Nat.one_le_two_pow (n := w))).mul_right b
  rw [Nat.one_mul] at hmul
  exact hmul.add_left a

theorem fold_modEq (w x : Nat) : x % 2 ^ w + x / 2 ^ w ≡ x [MOD 2 ^ w - 1] := by
  have hcarry := carry_modEq w (x % 2 ^ w) (x / 2 ^ w)
  rw [Nat.mod_add_div] at hcarry
  exact hcarry.symm

/-- `y` is what folding `x` to `w` bits ends with. -/
structure Folds (w x y : Nat) : Prop where
  lt : y < 2 ^ w
  modEq : y ≡ x [MOD 2 ^ w - 1]
  zero : y = 0 ↔ x = 0

section Folds

variable {w x y a b : Nat}

theorem Folds.refl (hx : x < 2 ^ w) : Folds w x x := ⟨hx, Nat.ModEq.refl x, Iff.rfl⟩

theorem Folds.step (h : Folds w (x % 2 ^ w + x / 2 ^ w) y) : Folds w x y where
  lt := h.lt
  modEq := h.modEq.trans (fold_modEq w x)
  zero := by
    rw [h.zero]
    constructor
    · intro hsum
      have hdiv := Nat.mod_add_div x (2 ^ w)
      rw [Nat.eq_zero_of_add_eq_zero_right hsum, Nat.eq_zero_of_add_eq_zero_left hsum] at hdiv
      exact hdiv.symm
    · rintro rfl
      rw [Nat.zero_mod, Nat.zero_div]

/-- A positive multiple of the modulus folds to the word of all ones. -/
theorem Folds.eq_allOnes (h : Folds w x y) (hdvd : x ≡ 0 [MOD 2 ^ w - 1]) (hpos : x ≠ 0) :
    y = 2 ^ w - 1 := by
  have hy : 2 ^ w - 1 ∣ y := (Nat.modEq_zero_iff_dvd).mp (h.modEq.trans hdvd)
  have hle := Nat.le_of_dvd (Nat.pos_of_ne_zero fun hzero => hpos (h.zero.mp hzero)) hy
  have hlt := h.lt
  omega

/-- Addition with the carry brought round. -/
def onesAdd (w a b : Nat) : Nat := (a + b) % 2 ^ w + (a + b) / 2 ^ w

theorem folds_onesAdd (ha : a < 2 ^ w) (hb : b < 2 ^ w) : Folds w (a + b) (onesAdd w a b) := by
  refine Folds.step (Folds.refl ?_)
  by_cases hcarry : a + b < 2 ^ w
  · rw [Nat.mod_eq_of_lt hcarry, Nat.div_eq_of_lt hcarry]
    exact hcarry
  · have hle : 2 ^ w ≤ a + b := Nat.le_of_not_lt hcarry
    have hsub : a + b - 2 ^ w < 2 ^ w := by omega
    rw [Nat.mod_eq_sub_mod hle, Nat.mod_eq_of_lt hsub, Nat.div_eq_sub_div (by omega) hle,
      Nat.div_eq_of_lt hsub]
    omega

/-- The sum of words, with the carry brought round each time. -/
def onesSum (w : Nat) (words : List Nat) : Nat := words.foldl (onesAdd w) 0

/-- Bringing the carry round each time or at the end is the same. -/
theorem folds_onesSum {words : List Nat} (hwords : ∀ a ∈ words, a < 2 ^ w) :
    Folds w words.sum (onesSum w words) := by
  have hgen : ∀ (words : List Nat) (x y : Nat), (∀ a ∈ words, a < 2 ^ w) → Folds w x y →
      Folds w (x + words.sum) (words.foldl (onesAdd w) y) := by
    intro words
    induction words with
    | nil =>
      intro x y _ hxy
      exact hxy
    | cons a words ih =>
      intro x y hwords hxy
      have ha := hwords a List.mem_cons_self
      have hadd := folds_onesAdd hxy.lt ha
      rw [List.sum_cons, ← Nat.add_assoc]
      refine ih _ _ (fun b hb => hwords b (List.mem_cons_of_mem a hb)) ?_
      refine ⟨hadd.lt, hadd.modEq.trans (hxy.modEq.add_right a), ?_⟩
      rw [hadd.zero, Nat.add_eq_zero_iff, Nat.add_eq_zero_iff, hxy.zero]
  have hzero : Folds w 0 0 := Folds.refl (Nat.two_pow_pos w)
  have hsum := hgen words 0 0 hwords hzero
  rw [Nat.zero_add] at hsum
  exact hsum

end Folds

end Foundation
end SfcCapio
