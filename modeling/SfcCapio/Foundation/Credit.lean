import Mathlib.Logic.Function.Basic
import SfcCapio.Foundation.MarkedRing

/-!
# Credits on a ring

A producer fills the cells of a ring of size `n` in order and stops only where
its position equals the doorbell; a consumer returns the cells in order and
moves the doorbell.  Only residues modulo `n` are stored, but the argument is
about counts: `filled` and `returned` number the operations since the start, and
the doorbell is the residue of a `grant`, the count up to which the producer may
fill.

`Credit` is the relation that makes such a ring safe: the grant is never behind
the producer and at most `n - 1` ahead of the consumer.  A doorbell whose grant
moves behind the producer is not a smaller grant but, seen modulo `n`, one a
whole lap larger; that is why `filled ≤ grant` is part of the relation.
-/

namespace SfcCapio
namespace Foundation

variable {n base returned filled doorbell : Nat}

/-- The doorbell stands for a grant between the producer's count and `n - 1`
beyond the consumer's. -/
def Credit (n base returned filled doorbell : Nat) : Prop :=
  returned ≤ filled ∧
    ∃ grant, doorbell = (base + grant) % n ∧ filled ≤ grant ∧ grant < returned + n

namespace Credit

/-- The initial advertisement: everything but one cell. -/
theorem initial (hn : 0 < n) : Credit n base 0 0 ((base + (n - 1)) % n) :=
  ⟨Nat.le_refl 0, n - 1, rfl, Nat.zero_le _, by omega⟩

theorem filled_lt (hcredit : Credit n base returned filled doorbell) :
    filled < returned + n := by
  obtain ⟨-, grant, -, hle, hlt⟩ := hcredit
  omega

theorem lt_grant (hcredit : Credit n base returned filled doorbell)
    (hmove : (base + filled) % n ≠ doorbell) :
    ∃ grant, doorbell = (base + grant) % n ∧ filled < grant ∧ grant < returned + n := by
  obtain ⟨-, grant, hdbl, hle, hlt⟩ := hcredit
  refine ⟨grant, hdbl, Nat.lt_of_le_of_ne hle ?_, hlt⟩
  rintro rfl
  exact hmove hdbl.symm

theorem fill (hcredit : Credit n base returned filled doorbell)
    (hmove : (base + filled) % n ≠ doorbell) :
    Credit n base returned (filled + 1) doorbell := by
  obtain ⟨grant, hdbl, hlt, hbound⟩ := hcredit.lt_grant hmove
  exact ⟨Nat.le_succ_of_le hcredit.1, grant, hdbl, hlt, hbound⟩

theorem giveBack (hcredit : Credit n base returned filled doorbell) (hlt : returned < filled) :
    Credit n base (returned + 1) filled doorbell := by
  obtain ⟨-, grant, hdbl, hahead, hbound⟩ := hcredit
  exact ⟨hlt, grant, hdbl, hahead, by omega⟩

/-- Ringing a new grant is safe if it is not behind the producer. -/
theorem ring {grant : Nat} (hle : returned ≤ filled) (hahead : filled ≤ grant)
    (hbound : grant < returned + n) :
    Credit n base returned filled ((base + grant) % n) :=
  ⟨hle, grant, rfl, hahead, hbound⟩

end Credit

/-! ## The cells in the consumer's hands -/

/-- The marked cells are those filled and not yet returned. -/
def Occupies (n base returned filled : Nat) (held : Nat → Bool) : Prop :=
  ∀ i, held i = true ↔ ∃ j, returned ≤ j ∧ j < filled ∧ (base + j) % n = i

namespace Occupies

variable {held : Nat → Bool}

theorem none : Occupies n base 0 0 (fun _ => false) := by
  intro i
  constructor
  · intro h
    cases h
  · rintro ⟨j, -, hj, -⟩
    exact absurd hj (Nat.not_lt_zero j)

theorem fill (hocc : Occupies n base returned filled held) (hle : returned ≤ filled) :
    Occupies n base returned (filled + 1)
      (Function.update held ((base + filled) % n) true) := by
  intro i
  by_cases hi : i = (base + filled) % n
  · subst hi
    rw [Function.update_self]
    exact ⟨fun _ => ⟨filled, hle, Nat.lt_succ_self filled, rfl⟩, fun _ => rfl⟩
  · rw [Function.update_of_ne hi, hocc i]
    constructor
    · rintro ⟨j, hlow, hhigh, hslot⟩
      exact ⟨j, hlow, Nat.lt_succ_of_lt hhigh, hslot⟩
    · rintro ⟨j, hlow, hhigh, hslot⟩
      have hne : j ≠ filled := by
        rintro rfl
        exact hi hslot.symm
      exact ⟨j, hlow, by omega, hslot⟩

theorem giveBack (hocc : Occupies n base returned filled held)
    (hroom : filled ≤ returned + n) :
    Occupies n base (returned + 1) filled
      (Function.update held ((base + returned) % n) false) := by
  intro i
  by_cases hi : i = (base + returned) % n
  · subst hi
    rw [Function.update_self]
    constructor
    · intro h
      cases h
    · -- another cell of the same lap cannot be the one returned
      rintro ⟨j, hlow, hhigh, hslot⟩
      have hshift : (base + returned + (j - returned)) % n =
          (base + returned + 0) % n := by
        rw [show base + returned + (j - returned) = base + j by omega]
        exact hslot
      have hzero := slot_add_inj (by omega) (by omega) hshift
      omega
  · rw [Function.update_of_ne hi, hocc i]
    constructor
    · rintro ⟨j, hlow, hhigh, hslot⟩
      have hne : j ≠ returned := by
        rintro rfl
        exact hi hslot.symm
      exact ⟨j, by omega, hhigh, hslot⟩
    · rintro ⟨j, hlow, hhigh, hslot⟩
      exact ⟨j, by omega, hhigh, hslot⟩

/-- With less than a full lap outstanding the producer's next cell is free. -/
theorem next_free (hocc : Occupies n base returned filled held)
    (hroom : filled < returned + n) : held ((base + filled) % n) = false := by
  rw [Bool.eq_false_iff]
  intro hheld
  obtain ⟨j, hlow, hhigh, hslot⟩ := (hocc _).mp hheld
  have hshift : (base + returned + (j - returned)) % n =
      (base + returned + (filled - returned)) % n := by
    rw [show base + returned + (j - returned) = base + j by omega,
      show base + returned + (filled - returned) = base + filled by omega]
    exact hslot
  have hsame := slot_add_inj (by omega) (by omega) hshift
  omega

end Occupies

end Foundation
end SfcCapio
