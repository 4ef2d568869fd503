import SfcCapio.Kernel.RxIoctl

/-!
# Failing copies of the receive ioctl

`SFC7120_RX` consumes and acknowledges the receive event before `copyout`, and gives the
slot back and advances `rx_head` only behind it.  A `copyout` that fails returns in
between: the event is gone, the slot is not.  The next call consumes the event of the
next frame and reads the slot of the failed one.

`FaultSys` is the receive system with a record of the events consumed, of those whose
call failed, and of the slot each successful call returned.  `rx_head` stays behind by
one slot for each failure and never catches up, because the card is at most 511 frames
ahead of `rx_head`; so the first success after a failure returns a wrong slot.
-/

namespace SfcCapio
namespace Kernel

open Hardware Foundation

/-! ## The system -/

/-- The receive system.  `consumed` counts the receive events consumed, `failed` has the
numbers of those whose call failed in `copyout`, and `answers` pairs the number of the
event that a successful call consumed with the slot it returned. -/
structure FaultSys where
  rx : RxIoctlSys
  consumed : Nat
  failed : List Nat
  answers : List (Nat × Nat)

namespace FaultSys

/-- The records after a move of the handler to `rx`. -/
def recorded (s : FaultSys) (rx : RxIoctlSys) (copyErr : Nat) : FaultSys :=
  match s.rx.call with
  | some (.poll _ _) => { s with rx := rx, consumed := s.consumed + rx.taken }
  | some (.copy _) =>
    if copyErr ≠ 0 then { s with rx := rx, failed := s.failed ++ [s.consumed - 1] }
    else { s with rx := rx }
  | some (.ring reply) =>
    { s with rx := rx, answers := s.answers ++ [(s.consumed - 1, reply.slot)] }
  | _ => { s with rx := rx }

/-- The words of the fills whose event has not been consumed. -/
def pending (s : FaultSys) : List (BitVec 64) := (s.rx.fills.drop s.consumed).map RxFill.word

/-- The slot at `rx_head` still holds the frame of a call that failed. -/
def FrameKept (s : FaultSys) : Prop :=
  ∃ k ∈ s.failed, ∃ f, s.rx.fills[k]? = some f ∧ f.slot = s.rx.sc.rxHead ∧
    ∀ i, i < rxBufferSize →
      s.rx.sc.dev.rxBuffer (s.rx.sc.rxHead * rxBufferSize + i) = f.image i

end FaultSys

/-- The receive system with its records; every `copyout` may fail. -/
def faultStep (s : FaultSys) (l : RxIoctlLabel) : Option FaultSys :=
  (rxIoctlSysStep s.rx l).map fun rx =>
    match l with
    | .cpu copyErr => s.recorded rx copyErr
    | _ => { s with rx := rx }

/-- The state `sfc7120_post_rx_buffers` leaves, with empty records. -/
structure FaultStart (geom : Geometry) (s : FaultSys) : Prop where
  rx : RxIoctlStart geom s.rx
  noneConsumed : s.consumed = 0
  noneFailed : s.failed = []
  noAnswers : s.answers = []

/-- The ring and the event queue are in step. -/
structure InStep (s : FaultSys) : Prop where
  /-- Between calls `rx_head` is the number of events consumed, or the next call reads a
  frame that a failed call left. -/
  aligned : s.rx.call = none → s.rx.sc.rxHead = s.consumed % numRxDesc ∨ s.FrameKept
  /-- Every successful call has returned the slot filled for the event it consumed. -/
  returned : ∀ a ∈ s.answers, ∃ f, s.rx.fills[a.1]? = some f ∧ a.2 = f.slot

/-- The call in progress is about to give its slot back. -/
def FaultSys.givingBack (s : FaultSys) : Bool :=
  match s.rx.call with
  | some (.ring _) => true
  | _ => false

/-- No call gives its slot back after a `copyout` has failed. -/
def NoEarlierFault (s : FaultSys) : RxIoctlLabel → Prop
  | .cpu _ => s.givingBack = true → s.failed = []
  | _ => True

instance (s : FaultSys) (l : RxIoctlLabel) : Decidable (NoEarlierFault s l) :=
  match l with
  | .cpu _ => inferInstanceAs (Decidable (_ → _))
  | .fill _ _ | .enter => inferInstanceAs (Decidable True)

theorem FaultSys.exists_ring_of_givingBack {s : FaultSys} (hback : s.givingBack = true) :
    ∃ reply, s.rx.call = some (.ring reply) := by
  unfold FaultSys.givingBack at hback
  split at hback
  · rename_i reply hcall
    exact ⟨reply, hcall⟩
  · cases hback

/-! ## The invariant of all runs -/

/-- The reply the handler is about to return. -/
def RxPc.reply : RxPc → Option RxReply
  | .repost reply => some reply
  | .ring reply => some reply
  | _ => none

/-- Counts, the event queue and the slot of the reply in progress. -/
structure FaultInv (geom : Geometry) (s : FaultSys) : Prop where
  side : RingSide geom s.rx
  count : s.consumed = s.rx.replies.length + s.failed.length + s.rx.taken
  consumedLe : s.consumed ≤ s.rx.fills.length
  evqWptr : s.rx.evqWptr = (s.rx.sc.dataEvqReadPtr + s.pending.length) % 512
  events : EvqHolds s.rx.sc.dev.evqRing s.rx.sc.dataEvqReadPtr s.pending
  slot : ∀ reply, s.rx.call.bind RxPc.reply = some reply → reply.slot = s.rx.sc.rxHead

theorem faultInv_start {geom : Geometry} {s : FaultSys} (hstart : FaultStart geom s) :
    FaultInv geom s := by
  have hinv := rxIoctlInv_start hstart.rx
  have htaken : s.rx.taken = 0 := by simp [RxIoctlSys.taken, hstart.rx.idle]
  have hpending : s.pending = s.rx.pending := by
    simp [FaultSys.pending, RxIoctlSys.pending, hstart.rx.noFills]
  refine ⟨hinv.toRingSide, ?_, ?_, ?_, ?_, ?_⟩
  · rw [hstart.noneConsumed, hstart.noneFailed, hstart.rx.noReplies, htaken]
    rfl
  · rw [hstart.noneConsumed]
    exact Nat.zero_le _
  · rw [hpending]
    exact hinv.evqWptr
  · rw [hpending]
    exact hinv.events
  · intro reply hreply
    rw [hstart.rx.idle] at hreply
    cases hreply

namespace FaultInv

variable {geom : Geometry} {s : FaultSys}

/-- The events consumed are less than a lap ahead of the slots given back. -/
theorem lag_lt (hinv : FaultInv geom s) :
    s.rx.replies.length + s.failed.length + s.rx.taken < s.rx.replies.length + 512 := by
  have hcount := hinv.count
  have hle := hinv.consumedLe
  have hroom := hinv.side.credit.filled_lt
  omega

theorem fill {w : BitVec 64} {image : Nat → BitVec 8} (hinv : FaultInv geom s)
    (hw : IsRxEvent w) (hfill : s.rx.CanFill) :
    FaultInv geom { s with rx := s.rx.filled w image } := by
  have hroom := hinv.side.credit.filled_lt
  have hcount := hinv.count
  have hpending : FaultSys.pending { s with rx := s.rx.filled w image } =
      s.pending ++ [w] := by
    show ((s.rx.fills ++ [_]).drop s.consumed).map RxFill.word = _
    rw [List.drop_append_of_le_length hinv.consumedLe, List.map_append]
    rfl
  have hlen : s.pending.length < 512 := by
    rw [FaultSys.pending, List.length_map, List.length_drop]
    omega
  obtain ⟨hevents, hcursor⟩ := hinv.events.write_at hinv.evqWptr hlen hw.2
  refine ⟨hinv.side.filled hw hfill, hcount, ?_, ?_, ?_, hinv.slot⟩
  · show s.consumed ≤ (s.rx.fills ++ [_]).length
    rw [List.length_append]
    exact Nat.le_add_right_of_le hinv.consumedLe
  · rw [hpending]
    exact hcursor
  · rw [hpending]
    exact hevents

/-- A move of the handler that consumes nothing and returns nothing. -/
theorem withCall {call : Option RxPc} (hinv : FaultInv geom s)
    (htaken : RxIoctlSys.taken { s.rx with call := call } = s.rx.taken)
    (hslot : ∀ reply, call.bind RxPc.reply = some reply → reply.slot = s.rx.sc.rxHead) :
    FaultInv geom { s with rx := { s.rx with call := call } } where
  side := { hinv.side with }
  count := by
    show s.consumed = _
    rw [htaken]
    exact hinv.count
  consumedLe := hinv.consumedLe
  evqWptr := hinv.evqWptr
  events := hinv.events
  slot := hslot

/-- The acknowledgement register is not part of the invariant. -/
theorem acked (dbl : Nat) (hinv : FaultInv geom s) :
    FaultInv geom
      { s with
        rx :=
          { s.rx with
            sc := { s.rx.sc with dev := { s.rx.sc.dev with evqRptrDbl := dbl } } } } :=
  { hinv with side := { hinv.side with } }

variable {tries consumed copyErr rxBytes : Nat}

/-- The loop finds the event of the oldest fill that has not been consumed. -/
theorem take {ev : BitVec 64} {evq : Nat → BitVec 64} {readPtr : Nat} (hinv : FaultInv geom s)
    (hcall : s.rx.call = some (.poll tries consumed)) (htries : tries < rxTries)
    (htake : evqTake s.rx.sc.dev.evqRing s.rx.sc.dataEvqReadPtr = some (ev, evq, readPtr)) :
    FaultInv geom
      (s.recorded (s.rx.moved (rxIoctlStep s.rx.sc copyErr (.poll tries consumed))) copyErr) := by
  obtain ⟨rest, hpending, hcursor, hrest⟩ := hinv.events.of_take htake
  have htaken : s.rx.taken = 0 := by simp [RxIoctlSys.taken, hcall, RxPc.taken]
  have hlt : s.consumed < s.rx.fills.length := by
    by_contra hge
    rw [FaultSys.pending, List.drop_eq_nil_of_le (by omega)] at hpending
    cases hpending
  have hwptr := hinv.evqWptr
  rw [hpending, List.length_cons] at hwptr
  rw [FaultSys.pending, List.drop_eq_getElem_cons hlt, List.map_cons] at hpending
  obtain ⟨hev, hrestEq⟩ := List.cons.inj hpending
  have hrx : IsRxEvent ev := hev ▸ hinv.side.rx _ (List.getElem_mem hlt)
  have hcount := hinv.count
  simp only [FaultSys.recorded, hcall, rxIoctlStep, if_pos htries, htake, hrx.1, if_true]
  refine ⟨{ hinv.side with }, ?_, hlt, ?_, ?_, ?_⟩
  · show s.consumed + 1 = s.rx.replies.length + s.failed.length + 1
    omega
  · show s.rx.evqWptr = (readPtr +
      ((s.rx.fills.drop (s.consumed + 1)).map RxFill.word).length) % 512
    rw [hwptr, hrestEq, hcursor]
    omega
  · show EvqHolds evq readPtr ((s.rx.fills.drop (s.consumed + 1)).map RxFill.word)
    rw [hrestEq]
    exact hrest
  · intro reply hreply
    cases hreply

theorem poll (hinv : FaultInv geom s) (hcall : s.rx.call = some (.poll tries consumed)) :
    FaultInv geom
      (s.recorded (s.rx.moved (rxIoctlStep s.rx.sc copyErr (.poll tries consumed))) copyErr) := by
  have htaken : s.rx.taken = 0 := by simp [RxIoctlSys.taken, hcall, RxPc.taken]
  by_cases htries : tries < rxTries
  · cases htake : evqTake s.rx.sc.dev.evqRing s.rx.sc.dataEvqReadPtr with
    | none =>
      simp only [FaultSys.recorded, hcall, rxIoctlStep, if_pos htries, htake]
      apply hinv.withCall
      · rw [htaken]
        rfl
      · intro reply hreply
        cases hreply
    | some out => exact hinv.take hcall htries htake
  · simp only [FaultSys.recorded, hcall, rxIoctlStep, if_neg htries]
    apply hinv.withCall
    · rw [htaken]
      rfl
    · intro reply hreply
      cases hreply

theorem ack {rxFound : Option Nat} (hinv : FaultInv geom s)
    (hcall : s.rx.call = some (.ack consumed rxFound)) :
    FaultInv geom
      (s.recorded (s.rx.moved (rxIoctlStep s.rx.sc copyErr (.ack consumed rxFound))) copyErr) := by
  obtain ⟨dbl, hdbl⟩ := exists_ackedDbl s.rx.sc consumed
  have hacked := hinv.acked dbl
  cases rxFound with
  | none =>
    simp only [FaultSys.recorded, hcall, rxIoctlStep, hdbl]
    apply hacked.withCall
    · simp [RxIoctlSys.taken, hcall, RxPc.taken]
    · intro reply hreply
      cases hreply
  | some rxBytes =>
    simp only [FaultSys.recorded, hcall, rxIoctlStep, hdbl]
    apply hacked.withCall
    · simp [RxIoctlSys.taken, hcall, RxPc.taken]
    · intro reply hreply
      cases hreply

/-- A failed `copyout` turns the event in the handler's hands into a lost one. -/
theorem copyFails (hinv : FaultInv geom s) (hcall : s.rx.call = some (.copy rxBytes))
    (herr : copyErr ≠ 0) :
    s.recorded (s.rx.moved (rxIoctlStep s.rx.sc copyErr (.copy rxBytes))) copyErr =
        { s with rx := { s.rx with call := none }, failed := s.failed ++ [s.consumed - 1] } ∧
      FaultInv geom
        { s with rx := { s.rx with call := none }, failed := s.failed ++ [s.consumed - 1] } := by
  have htaken : s.rx.taken = 1 := by simp [RxIoctlSys.taken, hcall, RxPc.taken]
  have hcount := hinv.count
  refine ⟨?_, ?_⟩
  · simp only [FaultSys.recorded, hcall, rxIoctlStep, if_pos herr]
    rfl
  · refine ⟨{ hinv.side with }, ?_, hinv.consumedLe, hinv.evqWptr, hinv.events, ?_⟩
    · show s.consumed = s.rx.replies.length + (s.failed ++ [s.consumed - 1]).length + 0
      rw [List.length_append, List.length_singleton]
      omega
    · intro reply hreply
      cases hreply

theorem copySucceeds (hinv : FaultInv geom s) (hcall : s.rx.call = some (.copy rxBytes)) :
    FaultInv geom (s.recorded (s.rx.moved (rxIoctlStep s.rx.sc 0 (.copy rxBytes))) 0) := by
  simp only [FaultSys.recorded, hcall, rxIoctlStep, ne_eq, not_true_eq_false, if_false]
  apply hinv.withCall
  · simp [RxIoctlSys.taken, hcall, RxPc.taken]
  · intro reply hreply
    cases hreply
    rfl

theorem repost {reply : RxReply} (hinv : FaultInv geom s)
    (hcall : s.rx.call = some (.repost reply)) :
    FaultInv geom
      (s.recorded (s.rx.moved (rxIoctlStep s.rx.sc copyErr (.repost reply))) copyErr) := by
  have hposted : FaultInv geom
      { s with
        rx :=
          { s.rx with
            sc :=
              { s.rx.sc with
                dev :=
                  { s.rx.sc.dev with
                    rxDescRing := Function.update s.rx.sc.dev.rxDescRing s.rx.sc.rxHead
                      (identityDesc s.rx.sc.rxBufferPaddr s.rx.sc.rxHead) } } } } :=
    { hinv with
      side :=
        { hinv.side with
          identity := by
            rw [hinv.side.base]
            exact hinv.side.identity.update_identity s.rx.sc.rxHead } }
  simp only [FaultSys.recorded, hcall, rxIoctlStep]
  apply hposted.withCall
  · simp [RxIoctlSys.taken, hcall, RxPc.taken]
  · intro reply' hreply
    cases hreply
    exact hinv.slot reply (by rw [hcall]; rfl)

theorem ring {reply : RxReply} (hinv : FaultInv geom s) (hcall : s.rx.call = some (.ring reply)) :
    FaultInv geom
      { s with
        rx := s.rx.moved (rxIoctlStep s.rx.sc copyErr (.ring reply))
        answers := s.answers ++ [(s.consumed - 1, reply.slot)] } := by
  have htaken : s.rx.taken = 1 := by simp [RxIoctlSys.taken, hcall, RxPc.taken]
  have hcount := hinv.count
  have hle := hinv.consumedLe
  refine ⟨hinv.side.rung (by omega), ?_, hle, hinv.evqWptr, hinv.events, ?_⟩
  · show s.consumed = (s.rx.replies ++ [reply]).length + s.failed.length + 0
    rw [List.length_append, List.length_singleton]
    omega
  · intro reply' hreply
    cases hreply

end FaultInv

theorem faultInv_step {geom : Geometry} (s : FaultSys) (l : RxIoctlLabel) (s' : FaultSys)
    (hinv : FaultInv geom s) (hstep : faultStep s l = some s') : FaultInv geom s' := by
  obtain ⟨rx, hrx, rfl⟩ := Option.map_eq_some_iff.mp hstep
  cases l with
  | fill w image =>
    simp only [rxIoctlSysStep] at hrx
    split at hrx
    · rename_i hguard
      obtain rfl := Option.some.inj hrx
      exact hinv.fill hguard.1 hguard.2
    · cases hrx
  | enter =>
    simp only [rxIoctlSysStep] at hrx
    split at hrx
    · cases hrx
    · rename_i hbusy
      obtain rfl := Option.some.inj hrx
      have hidle : s.rx.call = none := by simpa using hbusy
      apply hinv.withCall
      · simp [RxIoctlSys.taken, hidle, RxPc.taken]
      · intro reply hreply
        cases hreply
  | cpu copyErr =>
    obtain ⟨pc, hcall, rfl⟩ := Option.map_eq_some_iff.mp hrx
    cases pc with
    | poll tries consumed => exact hinv.poll hcall
    | ack consumed rxFound => exact hinv.ack hcall
    | copy rxBytes =>
      by_cases herr : copyErr = 0
      · subst herr
        exact hinv.copySucceeds hcall
      · obtain ⟨heq, hfailed⟩ := hinv.copyFails hcall herr
        simp only [heq]
        exact hfailed
    | repost reply => exact hinv.repost hcall
    | ring reply =>
      simp only [FaultSys.recorded, hcall]
      exact hinv.ring hcall

/-! ## In step as long as no call succeeds after a failure -/

/-- The records on a run that obeys the guard.  The oldest frame not given back belongs to
the first call that failed. -/
structure FaultKept (s : FaultSys) : Prop where
  returned : ∀ a ∈ s.answers, ∃ f, s.rx.fills[a.1]? = some f ∧ a.2 = f.slot
  kept : s.failed ≠ [] → s.rx.replies.length ∈ s.failed

theorem inStep_of_kept {geom : Geometry} {s : FaultSys} (hinv : FaultInv geom s)
    (hkept : FaultKept s) : InStep s := by
  refine ⟨?_, hkept.returned⟩
  intro hidle
  have htaken : s.rx.taken = 0 := by simp [RxIoctlSys.taken, hidle]
  have hcount := hinv.count
  have hle := hinv.consumedLe
  by_cases hnone : s.failed = []
  · left
    rw [hnone, List.length_nil, htaken, Nat.add_zero] at hcount
    rw [hinv.side.rxHead, hcount]
  · right
    have hpos := List.length_pos_iff.mpr hnone
    have hlt : s.rx.replies.length < s.rx.fills.length := by omega
    have hf : s.rx.fills[s.rx.replies.length]? = some s.rx.fills[s.rx.replies.length] :=
      List.getElem?_eq_getElem hlt
    obtain ⟨hslot, himage⟩ := hinv.side.image_at_head hf
    exact ⟨_, hkept.kept hnone, _, hf, hslot, himage⟩

/-- Steps that touch neither the records nor the fills returned. -/
theorem FaultKept.withRx {s : FaultSys} {rx : RxIoctlSys} {consumed : Nat}
    (hkept : FaultKept s) (hfills : rx.fills = s.rx.fills) (hreplies : rx.replies = s.rx.replies) :
    FaultKept { s with rx := rx, consumed := consumed } := by
  refine ⟨?_, ?_⟩
  · simp only [hfills]
    exact hkept.returned
  · simp only [hreplies]
    exact hkept.kept

/-- A move of the handler that returns no reply leaves fills and replies alone. -/
theorem moved_fills (s : RxIoctlSys) (out : Softc × RxStatus) :
    (s.moved out).fills = s.fills := by
  unfold RxIoctlSys.moved
  split <;> rfl

theorem moved_replies {s : RxIoctlSys} {copyErr : Nat} {pc : RxPc}
    (hring : ∀ reply, pc ≠ .ring reply) :
    (s.moved (rxIoctlStep s.sc copyErr pc)).replies = s.replies := by
  cases pc with
  | poll tries consumed =>
    simp only [rxIoctlStep]
    split
    · split
      · rfl
      · split <;> rfl
    · rfl
  | ack consumed rxFound => cases rxFound <;> rfl
  | copy rxBytes =>
    simp only [rxIoctlStep]
    split <;> rfl
  | repost reply => rfl
  | ring reply => exact absurd rfl (hring reply)

theorem faultKept_step {geom : Geometry} (s : FaultSys) (l : RxIoctlLabel) (s' : FaultSys)
    (hinv : FaultInv geom s ∧ FaultKept s) (hguard : NoEarlierFault s l)
    (hstep : faultStep s l = some s') : FaultInv geom s' ∧ FaultKept s' := by
  obtain ⟨hinv, hkept⟩ := hinv
  refine ⟨faultInv_step s l s' hinv hstep, ?_⟩
  obtain ⟨rx, hrx, rfl⟩ := Option.map_eq_some_iff.mp hstep
  cases l with
  | fill w image =>
    simp only [rxIoctlSysStep] at hrx
    split at hrx
    · obtain rfl := Option.some.inj hrx
      refine ⟨?_, hkept.kept⟩
      intro a ha
      obtain ⟨f, hf, hslot⟩ := hkept.returned a ha
      exact ⟨f, getElem?_concat_of_some hf, hslot⟩
    · cases hrx
  | enter =>
    simp only [rxIoctlSysStep] at hrx
    split at hrx
    · cases hrx
    · obtain rfl := Option.some.inj hrx
      exact hkept.withRx rfl rfl
  | cpu copyErr =>
    obtain ⟨pc, hcall, rfl⟩ := Option.map_eq_some_iff.mp hrx
    have hfills := moved_fills s.rx (rxIoctlStep s.rx.sc copyErr pc)
    have hcount := hinv.count
    cases pc with
    | poll tries consumed =>
      simp only [FaultSys.recorded, hcall]
      exact hkept.withRx hfills (moved_replies (by simp))
    | ack consumed rxFound =>
      simp only [FaultSys.recorded, hcall]
      exact hkept.withRx hfills (moved_replies (by simp))
    | repost reply =>
      simp only [FaultSys.recorded, hcall]
      exact hkept.withRx hfills (moved_replies (by simp))
    | copy rxBytes =>
      by_cases herr : copyErr = 0
      · subst herr
        simp only [FaultSys.recorded, hcall, ne_eq, not_true_eq_false, if_false]
        exact hkept.withRx hfills (moved_replies (by simp))
      · obtain ⟨heq, -⟩ := hinv.copyFails hcall herr
        simp only [heq]
        refine ⟨hkept.returned, ?_⟩
        intro _
        by_cases hnone : s.failed = []
        · -- the first failure is the call that serves the oldest frame
          have htaken : s.rx.taken = 1 := by simp [RxIoctlSys.taken, hcall, RxPc.taken]
          rw [hnone, List.length_nil, htaken] at hcount
          exact List.mem_append_right _ (List.mem_singleton.mpr (by simp only; omega))
        · exact List.mem_append_left _ (hkept.kept hnone)
    | ring reply =>
      -- without a failure so far, replies and fills go in step
      have hnone : s.failed = [] := hguard (by rw [FaultSys.givingBack, hcall])
      have htaken : s.rx.taken = 1 := by simp [RxIoctlSys.taken, hcall, RxPc.taken]
      simp only [FaultSys.recorded, hcall]
      refine ⟨?_, fun hsome => absurd hnone hsome⟩
      intro a ha
      rcases List.mem_append.mp ha with hold | hnew
      · exact hkept.returned a hold
      · have hle := hinv.consumedLe
        have hlt : s.rx.replies.length < s.rx.fills.length := by omega
        rw [hnone, List.length_nil, htaken] at hcount
        rw [List.mem_singleton.mp hnew]
        have hidx : s.consumed - 1 = s.rx.replies.length := by omega
        refine ⟨s.rx.fills[s.rx.replies.length], ?_, ?_⟩
        · show s.rx.fills[s.consumed - 1]? = _
          rw [hidx]
          exact List.getElem?_eq_getElem hlt
        · have hf : s.rx.fills[s.rx.replies.length]? = some s.rx.fills[s.rx.replies.length] :=
            List.getElem?_eq_getElem hlt
          rw [(hinv.side.image_at_head hf).1]
          exact hinv.slot reply (by rw [hcall]; rfl)

/-- A call that succeeds after a failure returns a slot that was filled for another
event. -/
theorem out_of_step {geom : Geometry} (s : FaultSys) (l : RxIoctlLabel) (s' : FaultSys)
    (hinv : FaultInv geom s ∧ FaultKept s) (hguard : ¬ NoEarlierFault s l)
    (hstep : faultStep s l = some s') : ¬ InStep s' := by
  obtain ⟨hinv, -⟩ := hinv
  obtain ⟨rx, hrx, rfl⟩ := Option.map_eq_some_iff.mp hstep
  cases l with
  | fill w image => exact absurd trivial hguard
  | enter => exact absurd trivial hguard
  | cpu copyErr =>
    obtain ⟨hback, hsome⟩ := Classical.not_imp.mp hguard
    obtain ⟨reply, hcall⟩ := s.exists_ring_of_givingBack hback
    obtain ⟨pc, hpc, rfl⟩ := Option.map_eq_some_iff.mp hrx
    have htaken : s.rx.taken = 1 := by simp [RxIoctlSys.taken, hcall, RxPc.taken]
    have hcount := hinv.count
    have hlag := hinv.lag_lt
    have hpos := List.length_pos_iff.mpr hsome
    have hslot : reply.slot = s.rx.sc.rxHead := hinv.slot reply (by rw [hcall]; rfl)
    intro hin
    have hmem : (s.consumed - 1, reply.slot) ∈ (s.recorded
        (s.rx.moved (rxIoctlStep s.rx.sc copyErr pc)) copyErr).answers := by
      simp only [FaultSys.recorded, hcall]
      exact List.mem_append_right _ (List.mem_singleton.mpr rfl)
    obtain ⟨f, hf, hreturned⟩ := hin.returned _ hmem
    have hfills : (s.recorded (s.rx.moved (rxIoctlStep s.rx.sc copyErr pc)) copyErr).rx.fills =
        s.rx.fills := by
      simp only [FaultSys.recorded, hcall]
      exact moved_fills ..
    rw [hfills] at hf
    change reply.slot = f.slot at hreturned
    rw [hslot, hinv.side.rxHead, hinv.side.slots _ f hf] at hreturned
    -- the lag is neither zero nor a whole lap
    rw [htaken] at hcount hlag
    omega

/-- A run of receive calls whose copies may fail stays in step, in every state, exactly if
no call of it succeeds after one whose `copyout` failed. -/
theorem rx_stays_in_step_iff {geom : Geometry} {s t : FaultSys} {labels : List RxIoctlLabel}
    (hstart : FaultStart geom s) (hrun : exec faultStep s labels = some t) :
    Along faultStep InStep s labels ↔ Obeys faultStep NoEarlierFault s labels := by
  have hkept : FaultKept s := by
    refine ⟨?_, fun hsome => absurd hstart.noneFailed hsome⟩
    rw [hstart.noAnswers]
    intro a ha
    cases ha
  exact along_iff_obeys faultKept_step (fun _ hinv => inStep_of_kept hinv.1 hinv.2) out_of_step
    ⟨faultInv_start hstart, hkept⟩ hrun

/-! ## Two runs -/

/-- The driver after attach, with empty records. -/
def faultAfterAttach : FaultSys where
  rx := rxIoctlAfterAttach
  consumed := 0
  failed := []
  answers := []

theorem faultStart_afterAttach : FaultStart sampleGeometry faultAfterAttach :=
  ⟨rxIoctlStart_afterAttach, rfl, rfl, rfl⟩

/-- A frame and a receive call for it; `copyErr` is the outcome of its `copyout`. -/
def oneReceive (copyErr : Nat) : List RxIoctlLabel :=
  [.fill 0x4e#64 (fun _ => 1#8), .enter, .cpu 0, .cpu 0, .cpu copyErr]

/-- The two steps behind a `copyout` that has succeeded. -/
def giveBack : List RxIoctlLabel := [.cpu 0, .cpu 0]

/-- A success followed by a failure with `EFAULT`. -/
theorem rx_stays_in_step_last_copy_fails :
    ∃ t, exec faultStep faultAfterAttach (oneReceive 0 ++ giveBack ++ oneReceive 14) = some t ∧
      t.failed = [1] ∧
      Along faultStep InStep faultAfterAttach (oneReceive 0 ++ giveBack ++ oneReceive 14) := by
  refine ⟨_, rfl, rfl, (rx_stays_in_step_iff faultStart_afterAttach rfl).mpr ?_⟩
  decide +kernel

/-- A failure followed by a success: the second call consumes the event of slot 1 and
returns slot 0. -/
theorem rx_out_of_step_after_fault :
    ∃ t, exec faultStep faultAfterAttach (oneReceive 14 ++ oneReceive 0 ++ giveBack) = some t ∧
      t.answers = [(1, 0)] ∧ t.consumed = 2 ∧ t.rx.sc.rxHead = 1 ∧
      t.rx.fills.map RxFill.slot = [0, 1] ∧ ¬ InStep t := by
  refine ⟨_, rfl, rfl, rfl, rfl, rfl, ?_⟩
  intro hin
  obtain ⟨f, hf, hslot⟩ := hin.returned (1, 0) (List.mem_singleton.mpr rfl)
  cases hf
  cases hslot

end Kernel
end SfcCapio
