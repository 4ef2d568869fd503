import SfcCapio.Userlib.RxWindow

/-!
# Copying receive

`sfc7120_rx_recv` copies the frame at `rx_head`, re-posts the slot and rings the RX
doorbell with the advanced `rx_head`.  The card stops where its fill position equals the
doorbell.  After a receive that recycles the last filled slot the two are equal, so the
card may fill nothing although all 512 descriptors are posted; attach leaves the doorbell
one behind `rx_head` instead, a grant of 511 slots.

The system is that of `RxWindow` with `rx_recv` in the place of peek and release.
-/

namespace SfcCapio
namespace Userlib

open Hardware Foundation

/-- The session after `sfc7120_rx_recv`. -/
def received (s : Session) : Session :=
  { sfc := { s.sfc with usedPoll := true, rxHead := (s.sfc.rxHead + 1) % 512 }
    dev :=
      { s.dev with
        rxDescRing := Function.update s.dev.rxDescRing s.sfc.rxHead
          (identityDesc s.sfc.rxBufferPaddr s.sfc.rxHead)
        rxDescDbl := (s.sfc.rxHead + 1) % 512 } }

theorem rxRecv_of_ready {s : Session} (hready : s.sfc.Ready) (rxBytes : Nat) :
    (rxRecv s rxBytes).2 = received s := by
  have hmapped : (!s.sfc.rxBuffer || !s.sfc.rxMapped) = false := by
    rw [hready.rxBuffer, rxMapped_of_ready hready]
    rfl
  simp only [rxRecv, hmapped, rxNext, numRxDesc, land_ringMask]
  rfl

/-- The card fills a slot and writes the receive event `w`, or the caller polls or
receives. -/
inductive RecvLabel
  | fill (w : BitVec 64)
  | poll (maxEvs : Int)
  | recv (rxBytes : Nat)

/-- The interleaved system; `rx_recv` is called once for each polled receive event. -/
def recvStep (s : RxSys) : RecvLabel → Option RxSys
  | .fill w => rxStep s (.fill w)
  | .poll maxEvs => rxStep s (.poll maxEvs)
  | .recv rxBytes =>
    if s.released < s.polled then
      some
        { s with
          session := (rxRecv s.session rxBytes).2
          held := Function.update s.held s.session.sfc.rxHead false
          released := s.released + 1 }
    else none

/-- When every filled slot has been recycled, the card has one that it may fill. -/
def NotStarved (s : RxSys) : Prop := s.released = s.fills → s.CanFill

instance (s : RxSys) : Decidable (NotStarved s) := inferInstanceAs (Decidable (_ → _))

/-- A receive is made only while the card has filled a further slot. -/
def AnotherFillWaits (s : RxSys) : RecvLabel → Prop
  | .recv _ => s.released + 1 < s.fills
  | _ => True

instance (s : RxSys) (l : RecvLabel) : Decidable (AnotherFillWaits s l) :=
  match l with
  | .recv _ => inferInstanceAs (Decidable (_ < _))
  | .fill _ | .poll _ => inferInstanceAs (Decidable True)

/-! ## The invariant -/

/-- Cursors and counts.  The doorbell stands for a grant that is never more than a whole
lap beyond the slots recycled. -/
structure RecvInv (s : RxSys) : Prop where
  rxHead : s.session.sfc.rxHead = s.released % 512
  fillPos : s.fillPos = s.fills % 512
  grant : ∃ grant, s.session.dev.rxDescDbl = grant % 512 ∧ s.fills ≤ grant ∧
    grant ≤ s.released + 512
  releasedLe : s.released ≤ s.polled
  events : ∃ pending, EventsPending s pending ∧ s.polled + pending.length = s.fills

theorem recvInv_start {window : Nat} {s : RxSys} (hstart : RxStart window 0 s) :
    RecvInv s := by
  have hinv := rxInv_start hstart
  refine ⟨?_, ?_, ⟨511, ?_, ?_, by omega⟩, hinv.releasedLe, hinv.events⟩
  · rw [hinv.rxHead, Nat.zero_add]
  · rw [hinv.fillPos, Nat.zero_add]
  · exact hstart.doorbell
  · rw [hstart.noneFilled]
    decide

theorem RecvInv.releasedLe_fills {s : RxSys} (hinv : RecvInv s) : s.released ≤ s.fills := by
  obtain ⟨pending, -, hcount⟩ := hinv.events
  have hreleased := hinv.releasedLe
  omega

theorem recvInv_fill {s : RxSys} {w : BitVec 64} (hinv : RecvInv s) (hw : IsRxEvent w)
    (hfill : s.CanFill) : RecvInv (s.filled w) := by
  obtain ⟨pending, hev, hcount⟩ := hinv.events
  obtain ⟨grant, hdbl, hle, hbound⟩ := hinv.grant
  have hreleased := hinv.releasedLe
  -- a card that does not stand at the doorbell has not used up the grant
  have hlt : s.fills < grant := by
    refine Nat.lt_of_le_of_ne hle ?_
    rintro rfl
    rw [RxSys.CanFill, hinv.fillPos, hdbl, Nat.mod_mod] at hfill
    exact hfill rfl
  refine ⟨hinv.rxHead, ?_, ⟨grant, hdbl, hlt, hbound⟩, hinv.releasedLe,
    pending ++ [w], hev.fill hw (by omega), ?_⟩
  · simp only [RxSys.filled, hinv.fillPos, numRxDesc]
    omega
  · simp only [RxSys.filled, List.length_append, List.length_singleton]
    omega

theorem recvInv_poll {s s' : RxSys} {maxEvs : Int} (hinv : RecvInv s)
    (hstep : rxStep s (.poll maxEvs) = some s') : RecvInv s' := by
  obtain ⟨pending, hev, hcount⟩ := hinv.events
  obtain ⟨used, readPtr, evq, dbl, polled, rfl, hle, hevents⟩ := hev.poll_step hcount hstep
  exact ⟨hinv.rxHead, hinv.fillPos, hinv.grant, Nat.le_trans hinv.releasedLe hle, hevents⟩

/-- The state after a receive: the doorbell equals the new `rx_head`. -/
theorem RecvInv.recv {s s' : RxSys} {rxBytes : Nat} (hinv : RecvInv s)
    (hstep : recvStep s (.recv rxBytes) = some s') :
    RecvInv s' ∧ s'.released = s.released + 1 ∧ s'.fills = s.fills ∧
      s'.session.dev.rxDescDbl = s'.released % 512 := by
  obtain ⟨pending, hev, hcount⟩ := hinv.events
  obtain ⟨grant, -, hle, hbound⟩ := hinv.grant
  simp only [recvStep] at hstep
  split at hstep
  · rename_i hsome
    simp only [rxRecv_of_ready hev.ready, received, Option.some.injEq] at hstep
    subst hstep
    have hhead : (s.session.sfc.rxHead + 1) % 512 = (s.released + 1) % 512 := by
      rw [hinv.rxHead]
      omega
    refine ⟨⟨hhead, hinv.fillPos, ⟨s.released + 1 + 512, ?_, ?_, Nat.le_refl _⟩, hsome,
      pending, ⟨⟨{ hev.ready with }, hev.evqWptr, hev.holds⟩, hev.rx⟩, hcount⟩, rfl, rfl, hhead⟩
    · simp only [hhead]
      omega
    · simp only
      omega
  · cases hstep

theorem recvInv_step (s : RxSys) (l : RecvLabel) (s' : RxSys) (hinv : RecvInv s)
    (hstep : recvStep s l = some s') : RecvInv s' := by
  cases l with
  | fill w =>
    simp only [recvStep, rxStep] at hstep
    split at hstep
    · rename_i hguard
      obtain rfl := Option.some.inj hstep
      exact recvInv_fill hinv hguard.1 hguard.2
    · cases hstep
  | poll maxEvs => exact recvInv_poll hinv hstep
  | recv rxBytes => exact (hinv.recv hstep).1

/-! ## Starvation -/

/-- A step that meets the guard leaves the card a slot to fill, or a filled slot behind. -/
theorem notStarved_step (s : RxSys) (l : RecvLabel) (s' : RxSys)
    (hinv : RecvInv s ∧ NotStarved s) (hguard : AnotherFillWaits s l)
    (hstep : recvStep s l = some s') : RecvInv s' ∧ NotStarved s' := by
  obtain ⟨hinv, hfed⟩ := hinv
  refine ⟨recvInv_step s l s' hinv hstep, ?_⟩
  cases l with
  | fill w =>
    simp only [recvStep, rxStep] at hstep
    split at hstep
    · obtain rfl := Option.some.inj hstep
      intro hall
      have hle := hinv.releasedLe_fills
      simp only [RxSys.filled] at hall
      omega
    · cases hstep
  | poll maxEvs =>
    obtain ⟨pending, hev, -⟩ := hinv.events
    obtain ⟨_, _, _, _, _, _, -, -, -, hsession, -⟩ := hev.poll_cases maxEvs
    simp only [recvStep, rxStep, hsession, Option.some.injEq] at hstep
    subst hstep
    exact hfed
  | recv rxBytes =>
    obtain ⟨-, hreleased, hfills, -⟩ := hinv.recv hstep
    intro hall
    have hmore : s.released + 1 < s.fills := hguard
    omega

/-- A receive that recycles the last filled slot leaves the card none. -/
theorem starved_of_last (s : RxSys) (l : RecvLabel) (s' : RxSys)
    (hinv : RecvInv s ∧ NotStarved s) (hlast : ¬ AnotherFillWaits s l)
    (hstep : recvStep s l = some s') : ¬ NotStarved s' := by
  cases l with
  | fill w => exact absurd trivial hlast
  | poll maxEvs => exact absurd trivial hlast
  | recv rxBytes =>
    obtain ⟨hinv', hreleased, hfills, hdbl⟩ := hinv.1.recv hstep
    have hle := hinv'.releasedLe_fills
    have hall : s'.released = s'.fills := by
      have hnone : ¬ s.released + 1 < s.fills := hlast
      omega
    intro hfed
    have hfill := hfed hall
    rw [RxSys.CanFill, hinv'.fillPos, hdbl, hall, Nat.mod_mod] at hfill
    exact hfill rfl

/-- From the state attach leaves, copying receive keeps the card fed in every state of a
run exactly if no `rx_recv` of the run recycles the last filled slot. -/
theorem rx_recv_keeps_card_fed_iff {window : Nat} {s t : RxSys} {labels : List RecvLabel}
    (hstart : RxStart window 0 s) (hrun : exec recvStep s labels = some t) :
    Along recvStep NotStarved s labels ↔ Obeys recvStep AnotherFillWaits s labels := by
  have hfed : NotStarved s := by
    intro _
    rw [RxSys.CanFill, hstart.fillPos, hstart.doorbell]
    decide
  exact along_iff_obeys notStarved_step (fun _ hinv => hinv.2) starved_of_last
    ⟨recvInv_start hstart, hfed⟩ hrun

/-- Two frames arrive before the first is received. -/
def twoFillsOneRecv : List RecvLabel := [.fill 0x4e#64, .fill 0x4e#64, .poll 2, .recv 78]

theorem rx_recv_keeps_card_fed_two_fills :
    ∃ t, exec recvStep (rxAfterAttach 64) twoFillsOneRecv = some t ∧
      Along recvStep NotStarved (rxAfterAttach 64) twoFillsOneRecv :=
  ⟨_, rfl, (rx_recv_keeps_card_fed_iff
    (rxStart_rxAfterAttach (by decide) (by decide)) rfl).mpr (by decide +kernel)⟩

/-- One frame after attach, polled and received: all 512 slots are posted and the card
may fill none of them. -/
theorem rx_recv_starves_after_one_frame :
    ∃ t, exec recvStep (rxAfterAttach 64) [.fill 0x4e#64, .poll 1, .recv 78] = some t ∧
      t.fills = 1 ∧ t.released = 1 ∧ t.fillPos = 1 ∧ t.session.dev.rxDescDbl = 1 ∧
      ¬ NotStarved t := by
  refine ⟨_, rfl, rfl, rfl, rfl, ?_, ?_⟩
  · decide +kernel
  · decide +kernel

end Userlib
end SfcCapio
