import Mathlib.Logic.Function.Basic
import Mathlib.Data.Nat.ModEq

/-!
# Rings whose occupancy is marked by their contents

A producer and a consumer share `n` cells and no pointers.  The consumer tells
an unread entry from a free cell by looking at the cell: the values satisfying
`vacant` never stand for an entry.  Consuming an entry overwrites its cell with
a vacant value.

`Holds n vacant cells r pending` is the representation relation of such a ring
with the FIFO queue `pending`: starting at the consumer cursor `r`, the next
`pending.length` cells carry the entries in order and all remaining cells are
vacant.  The four rules below are the whole interface: how a ring starts, what
the producer's write does, and what the consumer sees and leaves behind.
-/

namespace SfcCapio
namespace Foundation

variable {α : Type*} {n : Nat}

theorem slot_add_inj {r i j : Nat} (hi : i < n) (hj : j < n)
    (hslot : (r + i) % n = (r + j) % n) : i = j := by
  have hmod : i ≡ j [MOD n] := Nat.ModEq.add_left_cancel' r hslot
  rw [Nat.ModEq, Nat.mod_eq_of_lt hi, Nat.mod_eq_of_lt hj] at hmod
  exact hmod

/-- The cells, read from cursor `r`, represent the FIFO queue `pending`. -/
structure Holds (n : Nat) (vacant : α → Prop) (cells : Nat → α) (r : Nat)
    (pending : List α) : Prop where
  fits : pending.length ≤ n
  written : ∀ i, (hi : i < pending.length) → cells ((r + i) % n) = pending[i]
  occupied : ∀ e ∈ pending, ¬ vacant e
  clear : ∀ i, pending.length ≤ i → i < n → vacant (cells ((r + i) % n))

namespace Holds

variable {vacant : α → Prop} {cells : Nat → α} {r : Nat} {pending : List α}

/-- A ring without entries, whatever vacant values its cells carry. -/
theorem empty (hvacant : ∀ i, i < n → vacant (cells i)) (r : Nat) :
    Holds n vacant cells r [] where
  fits := Nat.zero_le n
  written := by
    intro i hi
    exact absurd hi (Nat.not_lt_zero i)
  occupied := by simp
  clear := by
    intro i _ hi
    exact hvacant _ (Nat.mod_lt _ (Nat.zero_lt_of_lt hi))

/-- Only the residue of the cursor matters. -/
theorem of_cursor_modEq {r' : Nat} (hholds : Holds n vacant cells r pending)
    (hcursor : r % n = r' % n) : Holds n vacant cells r' pending := by
  have hslot : ∀ i, (r' + i) % n = (r + i) % n := by
    intro i
    exact (Nat.ModEq.add_right i hcursor).symm
  refine ⟨hholds.fits, ?_, hholds.occupied, ?_⟩
  · intro i hi
    rw [hslot]
    exact hholds.written i hi
  · intro i hlow hi
    rw [hslot]
    exact hholds.clear i hlow hi

/-- The producer's write into the first free cell enqueues the entry. -/
theorem write (hholds : Holds n vacant cells r pending) {e : α}
    (hroom : pending.length < n) (he : ¬ vacant e) :
    Holds n vacant (Function.update cells ((r + pending.length) % n) e) r
      (pending ++ [e]) := by
  refine ⟨by simp; omega, ?_, ?_, ?_⟩
  · intro i hi
    simp only [List.length_append, List.length_cons, List.length_nil] at hi
    by_cases hlast : i = pending.length
    · subst hlast
      simp
    · have hlt : i < pending.length := by omega
      have hne : (r + i) % n ≠ (r + pending.length) % n := by
        intro hslot
        exact hlast (slot_add_inj (by omega) hroom hslot)
      rw [Function.update_of_ne hne, List.getElem_append_left hlt]
      exact hholds.written i hlt
  · intro x hx
    rcases List.mem_append.mp hx with hold | hnew
    · exact hholds.occupied x hold
    · simp only [List.mem_singleton] at hnew
      exact hnew ▸ he
  · intro i hlow hi
    simp only [List.length_append, List.length_cons, List.length_nil] at hlow
    have hne : (r + i) % n ≠ (r + pending.length) % n := by
      intro hslot
      have := slot_add_inj hi hroom hslot
      omega
    rw [Function.update_of_ne hne]
    exact hholds.clear i (by omega) hi

theorem exists_cell (hholds : Holds n vacant cells r pending) {e : α} (he : e ∈ pending) :
    ∃ i, i < n ∧ cells i = e := by
  obtain ⟨j, hj, rfl⟩ := List.getElem_of_mem he
  exact ⟨(r + j) % n, Nat.mod_lt _ (Nat.zero_lt_of_lt (Nat.lt_of_lt_of_le hj hholds.fits)),
    hholds.written j hj⟩

theorem vacant_or_mem (hholds : Holds n vacant cells r pending) (hr : r < n) {i : Nat}
    (hi : i < n) : vacant (cells i) ∨ cells i ∈ pending := by
  -- the cell is so many steps ahead of the cursor
  have hsteps : (r + (i + (n - r)) % n) % n = i := by
    rw [Nat.add_mod_mod, show r + (i + (n - r)) = i + n by omega, Nat.add_mod_right,
      Nat.mod_eq_of_lt hi]
  have hlt : (i + (n - r)) % n < n := Nat.mod_lt _ (Nat.zero_lt_of_lt hi)
  rw [← hsteps]
  by_cases hj : (i + (n - r)) % n < pending.length
  · rw [hholds.written _ hj]
    exact Or.inr (List.getElem_mem hj)
  · exact Or.inl (hholds.clear _ (Nat.le_of_not_lt hj) hlt)

/-- The consumer of an empty queue sees a vacant cell. -/
theorem vacant_of_nil (hholds : Holds n vacant cells r []) (hn : 0 < n) :
    vacant (cells (r % n)) := by
  simpa using hholds.clear 0 (by simp) hn

/-- The consumer of a nonempty queue sees its first entry. -/
theorem cell_eq_head {e : α} {rest : List α}
    (hholds : Holds n vacant cells r (e :: rest)) : cells (r % n) = e := by
  have hfirst := hholds.written 0 (Nat.succ_pos rest.length)
  rw [Nat.add_zero] at hfirst
  exact hfirst

/-- Clearing the cell under the cursor and advancing dequeues the entry. -/
theorem consume {e z : α} {rest : List α}
    (hholds : Holds n vacant cells r (e :: rest)) (hz : vacant z) :
    Holds n vacant (Function.update cells (r % n) z) (r + 1) rest := by
  have hlen : rest.length + 1 ≤ n := by simpa using hholds.fits
  have hshift : ∀ i, r + 1 + i = r + (i + 1) := by
    intro i
    omega
  refine ⟨by omega, ?_, ?_, ?_⟩
  · intro i hi
    have hne : (r + (i + 1)) % n ≠ r % n := by
      intro hslot
      have := slot_add_inj (r := r) (i := i + 1) (j := 0) (by omega) (by omega) hslot
      omega
    rw [hshift, Function.update_of_ne hne, hholds.written (i + 1) (by simpa using hi)]
    simp
  · intro x hx
    exact hholds.occupied x (List.mem_cons_of_mem e hx)
  · intro i hlow hi
    rw [hshift]
    by_cases hwrap : i + 1 = n
    · have hslot : (r + (i + 1)) % n = r % n := by
        rw [hwrap]
        exact Nat.add_mod_right r n
      rw [hslot, Function.update_self]
      exact hz
    · have hne : (r + (i + 1)) % n ≠ r % n := by
        intro hslot
        have := slot_add_inj (r := r) (i := i + 1) (j := 0) (by omega) (by omega) hslot
        omega
      rw [Function.update_of_ne hne]
      exact hholds.clear (i + 1) (by simp; omega) (by omega)

end Holds

end Foundation
end SfcCapio
