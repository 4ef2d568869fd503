import Mathlib.Logic.Function.Basic
import SfcCapio.Foundation.MarkedRing

/-!
# Stretches of a ring

A consumer that is told "up to `w`" takes the cells of a ring from its own position
up to, and not including, the cell `w`.  Only residues modulo the size `n` are
exchanged, so a full lap and an empty stretch look alike; `span_add` is the rule for
stretches of less than a lap.
-/

namespace SfcCapio
namespace Foundation

variable {α : Type*} {n p k : Nat}

/-- The number of cells from `p` up to, and not including, `w`. -/
def span (n p w : Nat) : Nat := (w + (n - p % n)) % n

/-- The contents of the `k` cells from `p` on. -/
def cells (n : Nat) (ring : Nat → α) (p k : Nat) : List α :=
  (List.range k).map fun i => ring ((p + i) % n)

/-- Less than a lap is told correctly. -/
theorem span_add (hk : k < n) : span n p ((p + k) % n) = k := by
  have hlt : p % n < n := Nat.mod_lt p (by omega)
  have hdiv : n * (p / n) + p % n = p := Nat.div_add_mod p n
  calc span n p ((p + k) % n) = (p + k + (n - p % n)) % n := Nat.mod_add_mod ..
    _ = (k + n * (p / n + 1)) % n := by
        rw [Nat.mul_add, Nat.mul_one]
        congr 1
        omega
    _ = k % n := Nat.add_mul_mod_self_left ..
    _ = k := Nat.mod_eq_of_lt hk

@[simp] theorem cells_zero (ring : Nat → α) (p : Nat) : cells n ring p 0 = [] := rfl

/-- Writing the cell behind a stretch extends it. -/
theorem cells_update_end (ring : Nat → α) (a : α) (hk : k < n) :
    cells n (Function.update ring ((p + k) % n) a) p (k + 1) = cells n ring p k ++ [a] := by
  unfold cells
  rw [List.range_succ, List.map_append, List.map_singleton, Function.update_self]
  congr 1
  refine List.map_congr_left ?_
  intro i hi
  have hlt := List.mem_range.mp hi
  have hne : (p + i) % n ≠ (p + k) % n := by
    intro hslot
    have hsame := slot_add_inj (by omega) hk hslot
    omega
  exact Function.update_of_ne hne a ring

end Foundation
end SfcCapio
