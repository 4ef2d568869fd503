import SfcCapio.Hardware.Words

/-!
# Kernel-owned DMA memory and the doorbell registers

The rings and packet buffers are allocated once per module load
(`sfc7120_alloc_dma_resources`) and outlive every open of the device, as do the
pointers the card keeps behind its doorbells.  `Device` is this shared part of
the state: the kernel ioctls and the mapped user library both act on it, and
the card sees it through `rxDescDbl`, `evqRptrDbl` and `txDbl`.

`sfc7120_post_rx_buffers` is modelled here because its effect, 512 populated
descriptors of which 511 are advertised, is the common starting point of every
receive path.
-/

namespace SfcCapio
namespace Hardware

/-- One write sequence on the 128-bit `TX_DESC_UPD` doorbell. -/
inductive TxDoorbell
  /-- Descriptor-inline push: dwords 0 and 1 carry `desc`, dword 2 the pointer. -/
  | push (desc : BitVec 64) (wptr : Nat)
  /-- Write-pointer-only doorbell (dword 2). -/
  | wptr (wptr : Nat)
deriving DecidableEq, Repr

/-- DMA memory of one port, indexed by slot (rings) or byte (buffers), together
with the values last written to its data-path doorbells.  `txDbl` is the log of
TX doorbell writes, newest first. -/
structure Device where
  rxDescRing : Nat → BitVec 64
  txDescRing : Nat → BitVec 64
  evqRing : Nat → BitVec 64
  rxBuffer : Nat → BitVec 8
  txBuffer : Nat → BitVec 8
  rxDescDbl : Nat
  evqRptrDbl : Nat
  txDbl : List TxDoorbell

/-- The memory as `sfc7120_alloc_dma_resources` leaves it: everything is zeroed
by the allocation, then the event ring is primed to `0xff`. -/
def allocDmaResources : Device where
  rxDescRing := fun _ => 0#64
  txDescRing := fun _ => 0#64
  evqRing := fun _ => 0xffffffffffffffff#64
  rxBuffer := fun _ => 0#8
  txBuffer := fun _ => 0#8
  rxDescDbl := 0
  evqRptrDbl := 0
  txDbl := []

/-- Bus addresses of the two packet buffers.  A descriptor carries a 48-bit
address, so both buffers lie below `2 ^ 48`. -/
structure Geometry where
  rxBufferPaddr : BitVec 64
  txBufferPaddr : BitVec 64
  rxFits : rxBufferPaddr.toNat + numRxDesc * rxBufferSize ≤ 2 ^ 48
  txFits : txBufferPaddr.toNat + numTxDesc * txBufferSize ≤ 2 ^ 48

/-- Bus address of slot `i` of a packet buffer with 2048-byte slots. -/
def slotPa (base : BitVec 64) (i : Nat) : BitVec 64 :=
  base + BitVec.ofNat 64 i * BitVec.ofNat 64 rxBufferSize

theorem slotPa_toNat {base : BitVec 64} {i : Nat}
    (hfits : base.toNat + 512 * 2048 ≤ 2 ^ 48) (hi : i < 512) :
    (slotPa base i).toNat = base.toNat + i * 2048 := by
  simp only [slotPa, BitVec.toNat_add, BitVec.toNat_mul, BitVec.toNat_ofNat]
  rw [Nat.mod_eq_of_lt (show i < 2 ^ 64 by omega),
    Nat.mod_eq_of_lt (show rxBufferSize < 2 ^ 64 by decide),
    Nat.mod_eq_of_lt (show i * rxBufferSize < 2 ^ 64 by
      simp only [rxBufferSize]
      omega)]
  simp only [rxBufferSize]
  omega

/-- The descriptor of slot `i`'s own library buffer. -/
def identityDesc (base : BitVec 64) (i : Nat) : BitVec 64 :=
  descWord (slotPa base i) rxBufferSize

/-- The descriptor decodes to the library buffer of slot `i`: that slot's
address and the full 2048 bytes. -/
def NamesOwnSlot (base : BitVec 64) (i : Nat) (desc : BitVec 64) : Prop :=
  descAddr desc = base.toNat + i * rxBufferSize ∧ descByteCnt desc = rxBufferSize

instance (base : BitVec 64) (i : Nat) (desc : BitVec 64) :
    Decidable (NamesOwnSlot base i desc) :=
  inferInstanceAs (Decidable (_ ∧ _))

theorem namesOwnSlot_identityDesc (geom : Geometry) {i : Nat} (hi : i < 512) :
    NamesOwnSlot geom.rxBufferPaddr i (identityDesc geom.rxBufferPaddr i) := by
  have hfits := geom.rxFits
  simp only [numRxDesc, rxBufferSize] at hfits
  refine ⟨?_, ?_⟩
  · rw [identityDesc, descAddr_descWord, slotPa_toNat hfits hi]
    simp only [rxBufferSize]
    omega
  · simp [identityDesc, rxBufferSize]

/-- Every slot of the RX ring holds a descriptor of its own library buffer. -/
def RingIsIdentity (base : BitVec 64) (ring : Nat → BitVec 64) : Prop :=
  ∀ i, i < numRxDesc → NamesOwnSlot base i (ring i)

/-- Re-posting a slot's own buffer keeps the ring an identity ring. -/
theorem RingIsIdentity.update_identity {geom : Geometry} {ring : Nat → BitVec 64}
    (hring : RingIsIdentity geom.rxBufferPaddr ring) (slot : Nat) :
    RingIsIdentity geom.rxBufferPaddr
      (Function.update ring slot (identityDesc geom.rxBufferPaddr slot)) := by
  intro i hi
  by_cases hslot : i = slot
  · subst hslot
    rw [Function.update_self]
    exact namesOwnSlot_identityDesc geom hi
  · rw [Function.update_of_ne hslot]
    exact hring i hi

/-! ## Frames in the RX buffer -/

/-- The little-endian length field at offset 8 of the EF10 prefix. -/
def prefixLen (buf : Nat → BitVec 8) (off : Nat) : Nat :=
  (buf (off + 8)).toNat ||| ((buf (off + 9)).toNat <<< 8)

/-- The event byte count without the prefix, the cut-through fallback. -/
def eventLen (rxBytes : Nat) : Nat :=
  if rxBytes > ef10RxPrefixLen then (rxBytes - ef10RxPrefixLen) % 2 ^ 16 else 0

/-- The frame length of a library slot: prefix field, else event byte count. -/
def frameLen (buf : Nat → BitVec 8) (off rxBytes : Nat) : Nat :=
  if prefixLen buf off = 0 then eventLen rxBytes else prefixLen buf off

/-- An event that counts payload bytes is never read as an empty frame. -/
theorem frameLen_ne_zero {rxBytes : Nat} (hev : eventLen rxBytes ≠ 0)
    (buf : Nat → BitVec 8) (off : Nat) : frameLen buf off rxBytes ≠ 0 := by
  unfold frameLen
  split
  · exact hev
  · assumption

/-- The payload bytes of a frame of length `plen` whose slot starts at `off`. -/
def frameBytes (buf : Nat → BitVec 8) (off plen : Nat) : List (BitVec 8) :=
  (List.range plen).map fun i => buf (off + ef10RxPrefixLen + i)

/-- The card's DMA write of a received image to the buffer that `desc` names, as
seen through the RX packet buffer mapped at bus address `base`. -/
def dmaFill (base : BitVec 64) (buf : Nat → BitVec 8) (desc : BitVec 64)
    (image : Nat → BitVec 8) : Nat → BitVec 8 :=
  fun j =>
    if descAddr desc ≤ base.toNat + j ∧
        base.toNat + j < descAddr desc + descByteCnt desc then
      image (base.toNat + j - descAddr desc)
    else buf j

/-- A fill through a slot's own descriptor writes that slot and no other. -/
theorem dmaFill_of_namesOwnSlot {base : BitVec 64} {slot : Nat} {desc : BitVec 64}
    (hdesc : NamesOwnSlot base slot desc) (buf image : Nat → BitVec 8) (j : Nat) :
    dmaFill base buf desc image j =
      if slot * 2048 ≤ j ∧ j < slot * 2048 + 2048 then image (j - slot * 2048)
      else buf j := by
  obtain ⟨haddr, hcnt⟩ := hdesc
  simp only [rxBufferSize] at haddr hcnt
  simp only [dmaFill, haddr, hcnt]
  by_cases hin : slot * 2048 ≤ j ∧ j < slot * 2048 + 2048
  · rw [if_pos hin, if_pos (by omega), Nat.add_sub_add_left]
  · rw [if_neg hin, if_neg (by omega)]

/-! ## Ring priming -/

/-- The descriptor loop of `sfc7120_post_rx_buffers`: `ring[i] = desc` for
`i = 0, ..., count - 1`. -/
def primeRing (base : BitVec 64) (ring : Nat → BitVec 64) : Nat → Nat → BitVec 64
  | 0 => ring
  | count + 1 =>
    Function.update (primeRing base ring count) count (identityDesc base count)

theorem primeRing_of_lt (base : BitVec 64) (ring : Nat → BitVec 64)
    {count i : Nat} (hi : i < count) :
    primeRing base ring count i = identityDesc base i := by
  induction count with
  | zero => omega
  | succ count ih =>
    by_cases hlast : i = count
    · subst hlast
      simp [primeRing]
    · rw [primeRing, Function.update_of_ne hlast]
      exact ih (by omega)

/-- `sfc7120_post_rx_buffers` on the device: populate all 512 descriptors, then
advertise `npost = 511` of them.  The caller sets its `rx_head` to 0. -/
def postRxBuffers (base : BitVec 64) (dev : Device) : Device :=
  { dev with
    rxDescRing := primeRing base dev.rxDescRing numRxDesc
    rxDescDbl := numRxDesc - 1 }

theorem ringIsIdentity_postRxBuffers (geom : Geometry) (dev : Device) :
    RingIsIdentity geom.rxBufferPaddr
      (postRxBuffers geom.rxBufferPaddr dev).rxDescRing := by
  intro i hi
  simp only [postRxBuffers]
  rw [primeRing_of_lt _ _ hi]
  exact namesOwnSlot_identityDesc geom hi

end Hardware
end SfcCapio
