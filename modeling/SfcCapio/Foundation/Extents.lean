import Mathlib.Order.Interval.Set.Basic
import Mathlib.Tactic

/-!
# Extents of memory

A contiguous range of bytes is its first byte and its length.  Whether one range
lies inside another is a statement about the bytes; `inside_iff` turns it into the
two comparisons a program would make, with the empty range inside everything.
Ranges that start at multiples of an alignment are placed with `roundUp`.
-/

namespace SfcCapio
namespace Foundation

/-- A range of bytes: its first byte and its length. -/
structure Extent where
  start : Nat
  len : Nat
deriving DecidableEq, Repr

namespace Extent

/-- The bytes of a range. -/
def bytes (e : Extent) : Set Nat := Set.Ico e.start (e.start + e.len)

@[simp] theorem mem_bytes {e : Extent} {b : Nat} :
    b ∈ e.bytes ↔ e.start ≤ b ∧ b < e.start + e.len := Iff.rfl

/-- Every byte of `e` is one of `outer`. -/
def Inside (e outer : Extent) : Prop := e.bytes ⊆ outer.bytes

theorem inside_iff {e outer : Extent} :
    e.Inside outer ↔
      e.len = 0 ∨ outer.start ≤ e.start ∧ e.start + e.len ≤ outer.start + outer.len := by
  constructor
  · intro hsub
    by_cases hlen : e.len = 0
    · exact Or.inl hlen
    · -- the two end points decide
      have hfirst : e.start ∈ outer.bytes := hsub ⟨le_refl _, by omega⟩
      have hlast : e.start + e.len - 1 ∈ outer.bytes := hsub ⟨by omega, by omega⟩
      rw [mem_bytes] at hfirst hlast
      omega
  · rintro h b ⟨hlow, hhigh⟩
    exact ⟨by omega, by omega⟩

instance (e outer : Extent) : Decidable (e.Inside outer) :=
  decidable_of_iff _ inside_iff.symm

/-- The content of a range, in order. -/
def read {α : Type*} (mem : Nat → α) (e : Extent) : List α :=
  (List.range e.len).map fun i => mem (e.start + i)

end Extent

/-! ## Alignment -/

/-- The next multiple of `align`. -/
def roundUp (align n : Nat) : Nat := (n + align - 1) / align * align

theorem le_roundUp {align : Nat} (halign : 0 < align) (n : Nat) : n ≤ roundUp align n := by
  have hdiv := Nat.div_add_mod (n + align - 1) align
  have hmod := Nat.mod_lt (n + align - 1) halign
  rw [Nat.mul_comm] at hdiv
  simp only [roundUp]
  omega

theorem roundUp_of_dvd {align n : Nat} (halign : 0 < align) (hdvd : align ∣ n) :
    roundUp align n = n := by
  obtain ⟨k, rfl⟩ := hdvd
  have hdiv : (align * k + align - 1) / align = k := by
    rw [Nat.add_sub_assoc halign, Nat.mul_add_div halign, Nat.div_eq_of_lt (by omega),
      Nat.add_zero]
  rw [roundUp, hdiv, Nat.mul_comm]

end Foundation
end SfcCapio
