import SfcCapio.Foundation.Extents
import SfcCapio.Kernel.RxIoctl
import SfcCapio.Userlib.EventQueue

/-!
# The bytes handed out for a received frame

A received frame lies behind the 14-byte prefix of its slot, and its length is read
from the prefix: a 16-bit field, or, where that is zero, the 14-bit byte count of the
event.  The `SFC7120_RX` ioctl, `sfc7120_rx_recv` and `sfc7120_rx_peek` each compute
it, and none compares it with the 2034 bytes a slot has room for.  The RX buffer is
mapped into the process, which can write the field before it makes the ioctl.

`received_inside_iff` says for which contents and byte counts the three ranges stay
inside the slot.
-/

namespace SfcCapio
namespace Kernel

open Hardware Foundation Userlib

/-! ## The three ranges -/

/-- The part of a slot behind the prefix: the bytes from `rx_head * 2048 + 14` up to
`(rx_head + 1) * 2048`. -/
def framePart (rxHead : Nat) : Extent := ⟨rxHead * 2048 + 14, 2048 - 14⟩

/-- The range `copyout` is called with by the `SFC7120_RX` handler. -/
def copyoutExtent (sc : Softc) (rxBytes : Nat) : Extent :=
  let off := sc.rxHead * rxBufferSize
  ⟨off + ef10RxPrefixLen, frameLen sc.dev.rxBuffer off rxBytes⟩

/-- The range `sfc7120_rx_recv` copies. -/
def recvExtent (s : Session) (rxBytes : Nat) : Extent :=
  let off := s.sfc.rxHead * rxBufferSize
  ⟨off + ef10RxPrefixLen, frameLen s.dev.rxBuffer off rxBytes⟩

/-- The range `sfc7120_rx_peek` hands back. -/
def peekExtent (pk : Peek) : Extent := ⟨pk.pktOff, pk.len⟩

theorem rxReply_frame_eq_read (sc : Softc) (rxBytes : Nat) :
    (rxReply sc rxBytes).frame = (copyoutExtent sc rxBytes).read sc.dev.rxBuffer := rfl

theorem rxRecv_eq_some {s s' : Session} {rxBytes : Nat} {frame : List (BitVec 8)}
    (h : rxRecv s rxBytes = (some frame, s')) :
    frame = (recvExtent s rxBytes).read s.dev.rxBuffer := by
  unfold rxRecv at h
  split at h
  · cases h
  · exact (Option.some.inj (Prod.mk.inj h).1).symm

theorem rxPeek_eq_some {s s' : Session} {rxBytes : Nat} {pk : Peek}
    (h : rxPeek s rxBytes = (some pk, s')) : peekExtent pk = recvExtent s rxBytes := by
  unfold rxPeek at h
  split at h
  · cases h
  · obtain rfl := Option.some.inj (Prod.mk.inj h).1
    rfl

/-! ## When they stay in the slot -/

/-- The 16-bit length field of the prefix at `rx_head`, least significant byte first. -/
def lengthField (buf : Nat → BitVec 8) (rxHead : Nat) : Nat :=
  (buf (rxHead * 2048 + 8)).toNat + 256 * (buf (rxHead * 2048 + 9)).toNat

/-- The length field names at most the 2034 bytes behind the prefix and, where it is
zero, the event counts at most the slot. -/
def LengthFits (buf : Nat → BitVec 8) (rxHead rxBytes : Nat) : Prop :=
  lengthField buf rxHead ≤ 2034 ∧ (lengthField buf rxHead = 0 → rxBytes ≤ 2048)

instance (buf : Nat → BitVec 8) (rxHead rxBytes : Nat) :
    Decidable (LengthFits buf rxHead rxBytes) :=
  inferInstanceAs (Decidable (_ ∧ _))

theorem prefixLen_eq_lengthField (buf : Nat → BitVec 8) (rxHead : Nat) :
    prefixLen buf (rxHead * rxBufferSize) = lengthField buf rxHead := by
  have hlow := (buf (rxHead * rxBufferSize + 8)).isLt
  rw [prefixLen, Nat.or_comm, ← Nat.shiftLeft_add_eq_or_of_lt hlow, Nat.shiftLeft_eq]
  simp only [lengthField, rxBufferSize]
  omega

/-- The length computed fits behind the prefix exactly if the field and the count do. -/
theorem frameLen_le_iff {buf : Nat → BitVec 8} {rxHead rxBytes : Nat}
    (hbytes : rxBytes < 2 ^ 16) :
    frameLen buf (rxHead * rxBufferSize) rxBytes ≤ 2034 ↔ LengthFits buf rxHead rxBytes := by
  rw [frameLen, prefixLen_eq_lengthField, LengthFits]
  split
  · rename_i hzero
    rw [hzero, eventLen, ef10RxPrefixLen, Nat.mod_eq_of_lt (by omega)]
    split <;> omega
  · omega

/-- The range behind the prefix with the computed length, for any buffer content. -/
theorem slotFrame_inside_iff (buf : Nat → BitVec 8) (rxHead : Nat) {rxBytes : Nat}
    (hbytes : rxBytes < 2 ^ 16) :
    (⟨rxHead * rxBufferSize + ef10RxPrefixLen,
        frameLen buf (rxHead * rxBufferSize) rxBytes⟩ : Extent).Inside (framePart rxHead) ↔
      LengthFits buf rxHead rxBytes := by
  rw [← frameLen_le_iff hbytes, Extent.inside_iff]
  simp only [framePart, rxBufferSize, ef10RxPrefixLen]
  omega

/-! ## The result -/

/-- For every buffer content, every `rx_head` and every byte count: each of the three
ranges lies inside the frame's part of the slot exactly if the length fits. -/
theorem received_inside_iff (sc : Softc) (s : Session) {rxBytes : Nat}
    (hbytes : rxBytes < 2 ^ 16) :
    ((rxReply sc rxBytes).frame = (copyoutExtent sc rxBytes).read sc.dev.rxBuffer ∧
      ((copyoutExtent sc rxBytes).Inside (framePart sc.rxHead) ↔
        LengthFits sc.dev.rxBuffer sc.rxHead rxBytes)) ∧
    (∀ frame s', rxRecv s rxBytes = (some frame, s') →
      frame = (recvExtent s rxBytes).read s.dev.rxBuffer ∧
      ((recvExtent s rxBytes).Inside (framePart s.sfc.rxHead) ↔
        LengthFits s.dev.rxBuffer s.sfc.rxHead rxBytes)) ∧
    ∀ pk s', rxPeek s rxBytes = (some pk, s') →
      ((peekExtent pk).Inside (framePart s.sfc.rxHead) ↔
        LengthFits s.dev.rxBuffer s.sfc.rxHead rxBytes) := by
  have huser := slotFrame_inside_iff s.dev.rxBuffer s.sfc.rxHead hbytes
  refine ⟨⟨rxReply_frame_eq_read sc rxBytes, slotFrame_inside_iff _ _ hbytes⟩, ?_, ?_⟩
  · intro frame s' hrecv
    exact ⟨rxRecv_eq_some hrecv, huser⟩
  · intro pk s' hpeek
    rw [rxPeek_eq_some hpeek]
    exact huser

/-- An RX buffer whose prefix at slot `slot` carries the length `len`. -/
def bufferWithLength (slot : Nat) (len : BitVec 16) : Nat → BitVec 8 := fun j =>
  if j = slot * 2048 + 8 then len.setWidth 8
  else if j = slot * 2048 + 9 then (len >>> 8).setWidth 8
  else 0#8

/-- The driver about to copy out slot 511. -/
def lastSlotSoftc (len : BitVec 16) : Softc :=
  { rxIoctlAfterAttach.sc with
    dev := { rxIoctlAfterAttach.sc.dev with rxBuffer := bufferWithLength 511 len }
    rxHead := 511 }

/-- The library at slot 511 of the same buffer. -/
def lastSlotSession (len : BitVec 16) : Session :=
  { sfc := { (pollOnFreshDevice 0).session.sfc with rxHead := 511 }
    dev := (lastSlotSoftc len).dev }

theorem received_inside_full_frame :
    (copyoutExtent (lastSlotSoftc 2034#16) 78).Inside (framePart 511) ∧
      ∃ pk s', rxPeek (lastSlotSession 2034#16) 78 = (some pk, s') ∧ pk.len = 2034 ∧
        (peekExtent pk).Inside (framePart 511) := by
  have h := received_inside_iff (lastSlotSoftc 2034#16) (lastSlotSession 2034#16)
    (show 78 < 2 ^ 16 by decide)
  refine ⟨h.1.2.mpr (by decide), _, _, rfl, rfl, ?_⟩
  exact (h.2.2 _ _ rfl).mpr (by decide)

/-- A length field of 65535 in the last slot: the handler copies out the 63501 bytes
that follow the RX buffer in memory. -/
theorem copyout_leaves_rx_buffer :
    copyoutExtent (lastSlotSoftc 65535#16) 78 = ⟨511 * 2048 + 14, 65535⟩ ∧
      ¬ (copyoutExtent (lastSlotSoftc 65535#16) 78).Inside (framePart 511) ∧
      ¬ (copyoutExtent (lastSlotSoftc 65535#16) 78).Inside
        ⟨0, numRxDesc * rxBufferSize⟩ := by
  decide

/-! ## A buffer only the card has written -/

/-- As long as nobody but the card writes the RX buffer, a frame that fits its slot is
copied out from inside it. -/
theorem copyout_inside_of_fits {geom : Geometry} {s t : RxIoctlSys}
    {labels : List RxIoctlLabel} {rxBytes : Nat} (hstart : RxIoctlStart geom s)
    (hcopy : Obeys rxIoctlSysStep CopyoutSucceeds s labels)
    (hrun : exec rxIoctlSysStep s labels = some t) (hcall : t.call = some (.copy rxBytes)) :
    ∃ f, t.fills[t.replies.length]? = some f ∧
      (f.Fits → (copyoutExtent t.sc rxBytes).Inside (framePart t.sc.rxHead)) := by
  have hinv := exec_invariant_of_obeys rxIoctlInv_step (rxIoctlInv_start hstart) hcopy hrun
  have hlt : t.replies.length < t.fills.length := by
    have hle := hinv.takenLe
    rw [RxIoctlSys.taken, hcall] at hle
    exact hle
  obtain ⟨f, hf⟩ : ∃ f, t.fills[t.replies.length]? = some f :=
    ⟨_, List.getElem?_eq_getElem hlt⟩
  refine ⟨f, hf, fun hfits => ?_⟩
  have hbytes : rxBytes = evRxBytes f.word := hinv.carried _ hcall f hf
  rw [Extent.inside_iff, copyoutExtent, hbytes, hinv.frameLen_at_head hf]
  simp only [RxFill.Fits, framePart, rxBufferSize, ef10RxPrefixLen] at hfits ⊢
  omega

end Kernel
end SfcCapio
