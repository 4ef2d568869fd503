import Mathlib.Data.List.Nodup
import SfcCapio.Foundation.RingSpan
import SfcCapio.Foundation.Runs
import SfcCapio.Pmd.Queues

/-!
# The loop that reaps transmit completions

`reap` says what a transmit event leaves.  Here the loop behind it is taken step by step, so
that the number of its rounds can be stated: `reapingStep` is one round, refused when `f` has
reached `done`.  What the loop frees and clears are the slots of the stretch behind
`last_freed` up to `done` (`reapedSlots`), and stretches one after the other add up.
-/

namespace SfcCapio
namespace Pmd

open Hardware Foundation

/-- The loop under way: the queue, the last slot looked at and the mbufs freed so far. -/
structure Reaping where
  txq : TxQueue
  f : Nat
  freed : List Nat

/-- One round of `while (f != done)`. -/
def reapingStep (done : Nat) (s : Reaping) (_ : Unit) : Option Reaping :=
  if s.f = done then none
  else
    let f := (s.f + 1) &&& (numTxDesc - 1)
    some
      { txq :=
          { s.txq with
            inflight :=
              if s.txq.inflight f ≠ none then Function.update s.txq.inflight f none
              else s.txq.inflight
            txInflightCnt :=
              if s.txq.txInflightCnt > 0 then s.txq.txInflightCnt - 1 else s.txq.txInflightCnt }
        f := f
        freed := s.freed ++ (s.txq.inflight f).toList }

/-- The circular interval `(last_freed, done]`, in ring order. -/
def reapedSlots (txq : TxQueue) (done : Nat) : List Nat :=
  (List.range (span numTxDesc txq.lastFreed done)).map fun i =>
    (txq.lastFreed + 1 + i) % numTxDesc

/-- What the code behind a transmit event is to do. -/
structure Reaped (txq : TxQueue) (done : Nat) : Prop where
  steps : ∃ s,
    exec (reapingStep done) ⟨txq, txq.lastFreed, []⟩
        (List.replicate (span numTxDesc txq.lastFreed done) ()) = some s ∧
      reapingStep done s () = none ∧ reap txq done = (s.freed, { s.txq with lastFreed := done })
  freed : (reap txq done).1 = (reapedSlots txq done).filterMap txq.inflight
  once : (reap txq done).1.Nodup
  cleared : ∀ slot ∈ reapedSlots txq done, (reap txq done).2.inflight slot = none
  kept : ∀ slot, slot ∉ reapedSlots txq done →
    (reap txq done).2.inflight slot = txq.inflight slot
  count : (reap txq done).2.txInflightCnt =
    txq.txInflightCnt - span numTxDesc txq.lastFreed done
  lastFreed : (reap txq done).2.lastFreed = done
  inTwo : ∀ first, first < numTxDesc →
    span numTxDesc txq.lastFreed first ≤ span numTxDesc txq.lastFreed done →
    (reap txq first).1 ++ (reap (reap txq first).2 done).1 = (reap txq done).1 ∧
      (reap (reap txq first).2 done).2 = (reap txq done).2

section Span

variable {p w : Nat}

theorem span_lt (p w : Nat) : span numTxDesc p w < 512 := Nat.mod_lt _ (by decide)

theorem add_span (hw : w < numTxDesc) : (p + span numTxDesc p w) % 512 = w := by
  unfold span
  simp only [numTxDesc] at *
  omega

end Span

section Rounds

variable {done : Nat}

/-- A round off `done` is `reapSlot` at the next slot. -/
theorem reapingStep_of_ne {s : Reaping} (hne : s.f ≠ done) :
    reapingStep done s () =
      some
        { txq := reapSlot s.txq ((s.f + 1) % 512)
          f := (s.f + 1) % 512
          freed := s.freed ++ (s.txq.inflight ((s.f + 1) % 512)).toList } := by
  have hinflight : ∀ f, (if s.txq.inflight f ≠ none then Function.update s.txq.inflight f none
      else s.txq.inflight) = Function.update s.txq.inflight f none := by
    intro f
    split
    · rfl
    · next hnone =>
        rw [← not_not.mp hnone, Function.update_eq_self]
  have hcnt : (if s.txq.txInflightCnt > 0 then s.txq.txInflightCnt - 1
      else s.txq.txInflightCnt) =
      if s.txq.txInflightCnt > 0 then s.txq.txInflightCnt - 1 else 0 := by
    split <;> omega
  rw [reapingStep, if_neg hne]
  simp only [numTxDesc, land_ringMask, hinflight, hcnt]
  rfl

/-- The loop makes the rounds that lead to `done`, and stops there. -/
theorem exec_reapingStep (n : Nat) (txq : TxQueue) (f : Nat) (freed : List Nat) (hn : n < 512)
    (hf : f < 512) (hdone : (f + n) % 512 = done) :
    exec (reapingStep done) ⟨txq, f, freed⟩ (List.replicate n ()) =
      some ⟨(reapRounds n txq f).2, done, freed ++ (reapRounds n txq f).1⟩ := by
  induction n generalizing txq f freed with
  | zero =>
    have hthere : f = done := by omega
    rw [hthere, reapRounds, List.append_nil]
    rfl
  | succ n ih =>
    have hne : f ≠ done := by omega
    have hnext : ((f + 1) % 512 + n) % 512 = done := by omega
    rw [List.replicate_succ, exec_cons_of_some (reapingStep_of_ne (s := ⟨txq, f, freed⟩) hne),
      ih _ _ _ (by omega) (Nat.mod_lt _ (by decide)) hnext, reapRounds, List.append_assoc]

theorem reapRounds_add (m n : Nat) (txq : TxQueue) (f : Nat) :
    reapRounds (m + n) txq (f % 512) =
      ((reapRounds m txq (f % 512)).1 ++
          (reapRounds n (reapRounds m txq (f % 512)).2 ((f + m) % 512)).1,
        (reapRounds n (reapRounds m txq (f % 512)).2 ((f + m) % 512)).2) := by
  induction m generalizing txq f with
  | zero => rw [Nat.zero_add]; rfl
  | succ m ih =>
    have hnext : (f + 1 + m) % 512 = (f + (m + 1)) % 512 := by omega
    rw [Nat.succ_add, reapRounds, reapRounds, Nat.mod_add_mod]
    simp only [ih _ (f + 1), hnext, List.append_assoc]

/-- `last_freed` is set behind the loop and not read in it. -/
theorem reapRounds_lastFreed (n : Nat) (txq : TxQueue) (f last : Nat) :
    reapRounds n { txq with lastFreed := last } f =
      ((reapRounds n txq f).1, { (reapRounds n txq f).2 with lastFreed := last }) := by
  induction n generalizing txq f with
  | zero => rfl
  | succ n ih =>
    rw [reapRounds, reapRounds]
    have hslot : reapSlot { txq with lastFreed := last } ((f + 1) % 512) =
        { reapSlot txq ((f + 1) % 512) with lastFreed := last } := rfl
    rw [hslot, ih]

end Rounds

section Reap

variable {txq : TxQueue} {done : Nat}

theorem reap_eq_span (hlast : txq.lastFreed < numTxDesc) (hdone : done < numTxDesc) :
    reap txq done =
      ((reapRounds (span numTxDesc txq.lastFreed done) txq txq.lastFreed).1,
        { (reapRounds (span numTxDesc txq.lastFreed done) txq txq.lastFreed).2 with
          lastFreed := done }) := by
  have hmod : done % 512 = done := Nat.mod_eq_of_lt hdone
  rw [reap_eq_rounds txq done (span_lt txq.lastFreed done) hlast (by rw [add_span hdone, hmod]),
    hmod]

theorem mem_reapedSlots {slot : Nat} : slot ∈ reapedSlots txq done ↔
    ∃ i, i < span numTxDesc txq.lastFreed done ∧ (txq.lastFreed + 1 + i) % 512 = slot := by
  simp only [reapedSlots, List.mem_map, List.mem_range]

theorem lt_of_mem_reapedSlots {slot : Nat} (hslot : slot ∈ reapedSlots txq done) :
    slot < numTxDesc := by
  obtain ⟨i, -, rfl⟩ := mem_reapedSlots.mp hslot
  exact Nat.mod_lt _ (by decide)

theorem nodup_reapedSlots (txq : TxQueue) (done : Nat) : (reapedSlots txq done).Nodup := by
  have hlap := span_lt txq.lastFreed done
  refine List.Nodup.map_on ?_ List.nodup_range
  intro i hi j hj hslot
  have hi := List.mem_range.mp hi
  have hj := List.mem_range.mp hj
  simp only [numTxDesc] at hslot
  omega

theorem reap_freed (hlast : txq.lastFreed < numTxDesc) (hdone : done < numTxDesc) :
    (reap txq done).1 = (reapedSlots txq done).filterMap txq.inflight := by
  rw [reap_eq_span hlast hdone]
  simp only
  rw [reapRounds_freed _ _ _ (span_lt txq.lastFreed done), reapedSlots, List.filterMap_map,
    List.filterMap_eq_flatMap_toList]
  rfl

theorem reap_inflight (hlast : txq.lastFreed < numTxDesc) (hdone : done < numTxDesc)
    (slot : Nat) : (reap txq done).2.inflight slot =
      if slot ∈ reapedSlots txq done then none else txq.inflight slot := by
  rw [reap_eq_span hlast hdone]
  simp only [reapRounds_inflight, mem_reapedSlots]

theorem reap_reap {first : Nat} (hlast : txq.lastFreed < numTxDesc) (hfirst : first < numTxDesc)
    (hdone : done < numTxDesc)
    (hle : span numTxDesc txq.lastFreed first ≤ span numTxDesc txq.lastFreed done) :
    (reap txq first).1 ++ (reap (reap txq first).2 done).1 = (reap txq done).1 ∧
      (reap (reap txq first).2 done).2 = (reap txq done).2 := by
  have hrest : span numTxDesc txq.lastFreed done =
      span numTxDesc txq.lastFreed first + span numTxDesc first done := by
    simp only [span, numTxDesc] at *
    omega
  have hsplit := reapRounds_add (span numTxDesc txq.lastFreed first) (span numTxDesc first done)
    txq txq.lastFreed
  rw [← hrest, Nat.mod_eq_of_lt hlast, add_span hfirst] at hsplit
  rw [reap_eq_span hlast hfirst, reap_eq_span hfirst hdone, reap_eq_span hlast hdone]
  simp only [reapRounds_lastFreed, hsplit, and_self]

/-- **Reaping.**  For every `last_freed` and completion index of the ring, whatever the
transmit queue holds otherwise. -/
theorem reap_exact (txq : TxQueue) (done : Nat) (hlast : txq.lastFreed < numTxDesc)
    (hdone : done < numTxDesc)
    (hdistinct : ∀ i j m, i < numTxDesc → j < numTxDesc → txq.inflight i = some m →
      txq.inflight j = some m → i = j) : Reaped txq done where
  steps := by
    refine ⟨_, exec_reapingStep _ txq txq.lastFreed [] (span_lt _ _) hlast (add_span hdone), ?_, ?_⟩
    · rw [reapingStep, if_pos rfl]
    · rw [reap_eq_span hlast hdone, List.nil_append]
  freed := reap_freed hlast hdone
  once := by
    rw [reap_freed hlast hdone, List.Nodup, List.pairwise_filterMap]
    refine (nodup_reapedSlots txq done).imp_of_mem ?_
    rintro i j hi hj hne m hm _ hm' rfl
    exact hne (hdistinct i j m (lt_of_mem_reapedSlots hi) (lt_of_mem_reapedSlots hj) hm hm')
  cleared := by
    intro slot hslot
    rw [reap_inflight hlast hdone, if_pos hslot]
  kept := by
    intro slot hslot
    rw [reap_inflight hlast hdone, if_neg hslot]
  count := by
    rw [reap_eq_span hlast hdone]
    exact reapRounds_txInflightCnt _ _ _
  lastFreed := by rw [reap_eq_span hlast hdone]
  inTwo := fun _ hfirst hle => reap_reap hlast hfirst hdone hle

/-- Across the end of the ring, with an empty slot in between. -/
theorem reap_exact_wrap :
    Reaped
      { zeroTxQueue with
        inflight := fun slot => if slot = 511 then some 7 else if slot = 1 then some 8 else none
        lastFreed := 510
        txInflightCnt := 2 } 1 := by
  refine reap_exact _ _ (by decide) (by decide) ?_
  intro i j m _ _ hi hj
  dsimp only at hi hj
  grind

end Reap

end Pmd
end SfcCapio
