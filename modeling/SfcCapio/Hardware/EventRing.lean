import SfcCapio.Foundation.MarkedRing
import SfcCapio.Hardware.Words

/-!
# Consuming the data event ring

The ioctl handlers of the kernel driver and `sfc7120_poll` consume events in the
same way: read the slot under the cursor, leave it if it is vacant, otherwise
zero it and advance the cursor.  `evqTake` is this common body.  Its laws are
stated over `EvqHolds`, the event ring seen as a marked ring, and everything
above uses only them.
-/

namespace SfcCapio
namespace Hardware

open Foundation

/-- Read the slot under the cursor; zero it and advance if it holds an event. -/
def evqTake (evq : Nat → BitVec 64) (readPtr : Nat) :
    Option (BitVec 64 × (Nat → BitVec 64) × Nat) :=
  if slotVacant (evq readPtr) then none
  else
    some (evq readPtr, Function.update evq readPtr 0#64,
      (readPtr + 1) &&& (numEvqEntry - 1))

/-- A cursor that has been advanced lies on the ring. -/
theorem evqTake_readPtr_lt {evq evq' : Nat → BitVec 64} {readPtr readPtr' : Nat}
    {ev : BitVec 64} (htake : evqTake evq readPtr = some (ev, evq', readPtr')) :
    readPtr' < 512 := by
  simp only [evqTake, numEvqEntry, land_ringMask] at htake
  split at htake
  · cases htake
  · simp only [Option.some.injEq, Prod.mk.injEq] at htake
    rw [← htake.2.2]
    exact Nat.mod_lt _ (by decide)

/-- The event ring, read from the cursor, represents the queue `pending`. -/
structure EvqHolds (evq : Nat → BitVec 64) (readPtr : Nat)
    (pending : List (BitVec 64)) : Prop where
  readPtrLt : readPtr < 512
  ring : Holds 512 slotVacant evq readPtr pending

namespace EvqHolds

variable {evq : Nat → BitVec 64} {readPtr : Nat} {pending rest : List (BitVec 64)}
  {w : BitVec 64}

theorem empty (hvacant : ∀ i, i < numEvqEntry → slotVacant (evq i))
    (hptr : readPtr < 512) : EvqHolds evq readPtr [] :=
  ⟨hptr, Holds.empty hvacant readPtr⟩

theorem write (hholds : EvqHolds evq readPtr pending)
    (hroom : pending.length < 512) (hw : ¬ slotVacant w) :
    EvqHolds (Function.update evq ((readPtr + pending.length) % 512) w) readPtr
      (pending ++ [w]) :=
  ⟨hholds.readPtrLt, hholds.ring.write hroom hw⟩

/-- A write at the card's own cursor, which goes on to the next free slot. -/
theorem write_at {wptr : Nat} (hholds : EvqHolds evq readPtr pending)
    (hwptr : wptr = (readPtr + pending.length) % 512) (hroom : pending.length < 512)
    (hw : ¬ slotVacant w) :
    EvqHolds (Function.update evq wptr w) readPtr (pending ++ [w]) ∧
      (wptr + 1) % 512 = (readPtr + (pending ++ [w]).length) % 512 := by
  refine ⟨?_, ?_⟩
  · rw [hwptr]
    exact hholds.write hroom hw
  · rw [hwptr, List.length_append, List.length_singleton]
    omega

theorem vacant_of_nil (hholds : EvqHolds evq readPtr []) : slotVacant (evq readPtr) := by
  have hvacant := hholds.ring.vacant_of_nil (by decide)
  rw [Nat.mod_eq_of_lt hholds.readPtrLt] at hvacant
  exact hvacant

theorem head_eq (hholds : EvqHolds evq readPtr (w :: rest)) : evq readPtr = w := by
  have hcell := hholds.ring.cell_eq_head
  rw [Nat.mod_eq_of_lt hholds.readPtrLt] at hcell
  exact hcell

theorem head_not_vacant (hholds : EvqHolds evq readPtr (w :: rest)) :
    ¬ slotVacant w := by
  exact hholds.ring.occupied w (List.mem_cons_self)

theorem take_nil (hholds : EvqHolds evq readPtr []) : evqTake evq readPtr = none := by
  rw [evqTake, if_pos hholds.vacant_of_nil]

theorem take_cons (hholds : EvqHolds evq readPtr (w :: rest)) :
    evqTake evq readPtr =
      some (w, Function.update evq readPtr 0#64, (readPtr + 1) % 512) := by
  have hfull := hholds.head_not_vacant
  simp only [evqTake, hholds.head_eq, if_neg hfull, numEvqEntry, land_ringMask]

theorem consume (hholds : EvqHolds evq readPtr (w :: rest)) :
    EvqHolds (Function.update evq readPtr 0#64) ((readPtr + 1) % 512) rest := by
  have hnext := hholds.ring.consume zero_slotVacant
  rw [Nat.mod_eq_of_lt hholds.readPtrLt] at hnext
  exact ⟨Nat.mod_lt _ (by decide), hnext.of_cursor_modEq (by simp)⟩

/-- Inversion: an event that was taken was the oldest pending one. -/
theorem of_take (hholds : EvqHolds evq readPtr pending) {evq' : Nat → BitVec 64}
    {readPtr' : Nat} (htake : evqTake evq readPtr = some (w, evq', readPtr')) :
    ∃ rest, pending = w :: rest ∧ readPtr' = (readPtr + 1) % 512 ∧
      EvqHolds evq' readPtr' rest := by
  cases pending with
  | nil =>
    rw [hholds.take_nil] at htake
    cases htake
  | cons v rest =>
    rw [hholds.take_cons] at htake
    cases htake
    exact ⟨rest, rfl, rfl, hholds.consume⟩

theorem nil_of_vacant (hholds : EvqHolds evq readPtr pending)
    (hvacant : slotVacant (evq readPtr)) : pending = [] := by
  cases pending with
  | nil => rfl
  | cons v rest =>
    rw [hholds.head_eq] at hvacant
    exact absurd hvacant hholds.head_not_vacant

end EvqHolds

end Hardware
end SfcCapio
