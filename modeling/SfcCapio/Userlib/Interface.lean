import SfcCapio.Hardware.Device
import SfcCapio.Hardware.EventRing

/-!
# The user library's direct data path

`sfc7120_user.c` drives the mapped rings without system calls.  A `Session` is
the library's own record (`sfc7120_if_t`) next to the device memory it has
mapped.  Every function below is the source function of the same name: the
argument checks first, then the descriptor or slot access, then the cursor and
the doorbell, in the order of the source.

Pointers into mapped regions appear only through the checks made on them, so a
region is recorded as mapped or not; `NULL` arguments other than these are
ruled out by typing.  Barriers and cache maintenance have no effect on the
values computed and are not represented.
-/

namespace SfcCapio
namespace Userlib

open Hardware

/-- `SFC7120_SLICE_DATA_EVQ_RPTR_DBL`. -/
abbrev sliceDataEvqRptrDbl : Nat := 1

/-- `SFC7120_SLICE_RX_DESC_DBL`. -/
abbrev sliceRxDescDbl : Nat := 2

/-- `SFC7120_SLICE_TX_DESC_DBL`. -/
abbrev sliceTxDescDbl : Nat := 3

/-- `SFC7120_SLICE_COUNT`. -/
abbrev sliceCount : Nat := 5

/-- The fields of `sfc7120_if_t` that the data path reads or writes.  The six
mapping fields say whether the pointer is non-`NULL`; a cookie is the caller's
handle, `none` being `NULL`. -/
structure SfcIf where
  txBuffer : Bool
  rxBuffer : Bool
  txDescRing : Bool
  rxDescRing : Bool
  evqRing : Bool
  mmioSlices : Bool
  mmioSlicesLen : Nat
  rxBufferPaddr : BitVec 64
  txBufferPaddr : BitVec 64
  viInfoValid : Bool
  evqReadPtr : Nat
  usedPoll : Bool
  rxWindow : Nat
  rxHead : Nat
  txHead : Nat
  rxExtCookie : Nat → Option Nat

/-- The library record together with the device it has mapped. -/
structure Session where
  sfc : SfcIf
  dev : Device

/-- Everything `sfc7120_init` maps is mapped. -/
structure SfcIf.Ready (sfc : SfcIf) : Prop where
  txBuffer : sfc.txBuffer = true
  rxBuffer : sfc.rxBuffer = true
  txDescRing : sfc.txDescRing = true
  rxDescRing : sfc.rxDescRing = true
  evqRing : sfc.evqRing = true
  mmioSlices : sfc.mmioSlices = true
  mmioSlicesLen : sfc.mmioSlicesLen = sliceCount

/-! ## Event queue -/

/-- One iteration of the poll loop: the decoded event, the ring with its slot
zeroed and the advanced read pointer; `none` when the slot is vacant. -/
def pollIter (evq : Nat → BitVec 64) (readPtr : Nat) :
    Option (Ev × (Nat → BitVec 64) × Nat) :=
  (evqTake evq readPtr).map fun out => (decodeEvent out.1, out.2)

/-- The loop `while (n < max_evs)`; the first argument is `max_evs - n`. -/
def pollLoop : Nat → (Nat → BitVec 64) → Nat → List Ev × (Nat → BitVec 64) × Nat
  | 0, evq, readPtr => ([], evq, readPtr)
  | left + 1, evq, readPtr =>
    match pollIter evq readPtr with
    | none => ([], evq, readPtr)
    | some (ev, evq', readPtr') =>
      let rest := pollLoop left evq' readPtr'
      (ev :: rest.1, rest.2)

/-- `sfc7120_poll`.  `none` is the return value -1; otherwise the events
digested, whose number is the value returned. -/
def poll (s : Session) (maxEvs : Int) : Option (List Ev) × Session :=
  if maxEvs ≤ 0 then (none, s)
  else if !s.sfc.evqRing || !s.sfc.mmioSlices ||
      s.sfc.mmioSlicesLen ≤ sliceDataEvqRptrDbl then (none, s)
  else
    let out := pollLoop maxEvs.toNat s.dev.evqRing s.sfc.evqReadPtr
    (some out.1,
      { sfc := { s.sfc with usedPoll := true, evqReadPtr := out.2.2 }
        dev :=
          { s.dev with
            evqRing := out.2.1
            evqRptrDbl :=
              if out.1.length > 0 then out.2.2 &&& evqRptrMask
              else s.dev.evqRptrDbl } })

/-! ## Receive -/

/-- What `sfc7120_rx_peek` hands back: the frame's offset in the RX buffer, its
length and its bus address. -/
structure Peek where
  pktOff : Nat
  len : Nat
  paddr : BitVec 64

/-- The RX ring and its doorbell slice are mapped. -/
def SfcIf.rxMapped (sfc : SfcIf) : Bool :=
  sfc.rxDescRing && sfc.mmioSlices && decide (sliceRxDescDbl < sfc.mmioSlicesLen)

/-- `sfc7120_rx_peek`. -/
def rxPeek (s : Session) (rxBytes : Nat) : Option Peek × Session :=
  if !s.sfc.rxBuffer || !s.sfc.rxMapped then (none, s)
  else
    let off := s.sfc.rxHead * rxBufferSize
    (some
      { pktOff := off + ef10RxPrefixLen
        len := frameLen s.dev.rxBuffer off rxBytes
        paddr := slotPa s.sfc.rxBufferPaddr s.sfc.rxHead +
          BitVec.ofNat 64 ef10RxPrefixLen },
      { s with sfc := { s.sfc with usedPoll := true } })

/-- The slot after `head` on the RX ring. -/
def rxNext (head : Nat) : Nat := (head + 1) &&& (numRxDesc - 1)

/-- The producer value advertised for a consumer at `head`. -/
def rxAdvertise (head window : Nat) : Nat := (head + window) &&& (numRxDesc - 1)

/-- `sfc7120_rx_release`: re-post the slot's own buffer, advance, advertise. -/
def rxRelease (s : Session) : Int × Session :=
  if !s.sfc.rxMapped then (-1, s)
  else
    let head := rxNext s.sfc.rxHead
    (0,
      { sfc := { s.sfc with rxHead := head }
        dev :=
          { s.dev with
            rxDescRing := Function.update s.dev.rxDescRing s.sfc.rxHead
              (identityDesc s.sfc.rxBufferPaddr s.sfc.rxHead)
            rxDescDbl := rxAdvertise head s.sfc.rxWindow } })

/-- The argument check shared by the external-buffer posts. -/
def extArgsOk (paddr : BitVec 64) (len : Nat) : Bool :=
  !(paddr == 0#64 || len == 0 || decide (len > 0x3fff))

/-- `sfc7120_rx_release_paddr`: post a caller buffer at `rx_head`. -/
def rxReleasePaddr (s : Session) (paddr : BitVec 64) (len : Nat)
    (cookie : Option Nat) : Int × Session :=
  if !s.sfc.rxMapped then (-1, s)
  else if !extArgsOk paddr len then (-1, s)
  else
    let head := rxNext s.sfc.rxHead
    (0,
      { sfc :=
          { s.sfc with
            rxExtCookie := Function.update s.sfc.rxExtCookie s.sfc.rxHead cookie
            rxHead := head }
        dev :=
          { s.dev with
            rxDescRing := Function.update s.dev.rxDescRing s.sfc.rxHead
              (descWord paddr len)
            rxDescDbl := rxAdvertise head s.sfc.rxWindow } })

/-- `sfc7120_rx_peek_ext`: the cookie recorded for the slot and the frame
length.  Only a library slot has a readable prefix. -/
def rxPeekExt (s : Session) (rxBytes : Nat) :
    Option (Option Nat × Nat) × Session :=
  if !s.sfc.rxMapped then (none, s)
  else
    let cookie := s.sfc.rxExtCookie s.sfc.rxHead
    let len :=
      if cookie = none ∧ s.sfc.rxBuffer = true then
        frameLen s.dev.rxBuffer (s.sfc.rxHead * rxBufferSize) rxBytes
      else eventLen rxBytes
    (some (cookie, len), { s with sfc := { s.sfc with usedPoll := true } })

/-- `sfc7120_rx_release_paddr_nodbl`: post a caller buffer at the tail slot
`rx_head + rx_window`; the doorbell is left to the flush. -/
def rxReleasePaddrNodbl (s : Session) (paddr : BitVec 64) (len : Nat)
    (cookie : Option Nat) : Int × Session :=
  if !s.sfc.rxDescRing then (-1, s)
  else if !extArgsOk paddr len then (-1, s)
  else
    let tail := rxAdvertise s.sfc.rxHead s.sfc.rxWindow
    (0,
      { sfc :=
          { s.sfc with
            rxExtCookie := Function.update s.sfc.rxExtCookie tail cookie
            rxHead := rxNext s.sfc.rxHead }
        dev :=
          { s.dev with
            rxDescRing := Function.update s.dev.rxDescRing tail
              (descWord paddr len) } })

/-- `sfc7120_rx_flush`. -/
def rxFlush (s : Session) : Session :=
  if !s.sfc.mmioSlices || s.sfc.mmioSlicesLen ≤ sliceRxDescDbl then s
  else
    { s with
      dev :=
        { s.dev with rxDescDbl := rxAdvertise s.sfc.rxHead s.sfc.rxWindow } }

/-- `sfc7120_rx_recv`: copy the frame out, re-post the slot's own buffer and
ring the doorbell with the advanced head.  The result lists the copied bytes. -/
def rxRecv (s : Session) (rxBytes : Nat) : Option (List (BitVec 8)) × Session :=
  if !s.sfc.rxBuffer || !s.sfc.rxMapped then (none, s)
  else
    let off := s.sfc.rxHead * rxBufferSize
    let plen := frameLen s.dev.rxBuffer off rxBytes
    let frame := frameBytes s.dev.rxBuffer off plen
    let head := rxNext s.sfc.rxHead
    (some frame,
      { sfc := { s.sfc with usedPoll := true, rxHead := head }
        dev :=
          { s.dev with
            rxDescRing := Function.update s.dev.rxDescRing s.sfc.rxHead
              (identityDesc s.sfc.rxBufferPaddr s.sfc.rxHead)
            rxDescDbl := head } })

/-! ### On a session that is ready -/

theorem rxMapped_of_ready {sfc : SfcIf} (hready : sfc.Ready) : sfc.rxMapped = true := by
  simp [SfcIf.rxMapped, hready.rxDescRing, hready.mmioSlices, hready.mmioSlicesLen,
    sliceRxDescDbl, sliceCount]

/-- The session after `sfc7120_rx_release`. -/
def released (s : Session) : Session :=
  { sfc := { s.sfc with rxHead := (s.sfc.rxHead + 1) % 512 }
    dev :=
      { s.dev with
        rxDescRing := Function.update s.dev.rxDescRing s.sfc.rxHead
          (identityDesc s.sfc.rxBufferPaddr s.sfc.rxHead)
        rxDescDbl := ((s.sfc.rxHead + 1) % 512 + s.sfc.rxWindow) % 512 } }

theorem rxRelease_of_ready {s : Session} (hready : s.sfc.Ready) :
    rxRelease s = (0, released s) := by
  simp only [rxRelease, rxMapped_of_ready hready, rxNext, rxAdvertise, numRxDesc,
    land_ringMask]
  rfl

/-- The session after an accepted `sfc7120_rx_release_paddr_nodbl`. -/
def tailPosted (s : Session) (paddr : BitVec 64) (len : Nat) (cookie : Option Nat) :
    Session :=
  let tail := (s.sfc.rxHead + s.sfc.rxWindow) % 512
  { sfc :=
      { s.sfc with
        rxExtCookie := Function.update s.sfc.rxExtCookie tail cookie
        rxHead := (s.sfc.rxHead + 1) % 512 }
    dev :=
      { s.dev with rxDescRing := Function.update s.dev.rxDescRing tail (descWord paddr len) } }

theorem rxReleasePaddrNodbl_of_ready {s : Session} {paddr : BitVec 64} {len : Nat}
    (hready : s.sfc.Ready) (hargs : extArgsOk paddr len = true) (cookie : Option Nat) :
    rxReleasePaddrNodbl s paddr len cookie = (0, tailPosted s paddr len cookie) := by
  have hmapped : (!s.sfc.rxDescRing) = false := by
    rw [hready.rxDescRing]
    rfl
  have hok : (!extArgsOk paddr len) = false := by
    rw [hargs]
    rfl
  simp only [rxReleasePaddrNodbl, hmapped, hok, rxNext, rxAdvertise, numRxDesc,
    land_ringMask]
  rfl

theorem rxFlush_of_ready {s : Session} (hready : s.sfc.Ready) :
    rxFlush s =
      { s with
        dev := { s.dev with rxDescDbl := (s.sfc.rxHead + s.sfc.rxWindow) % 512 } } := by
  have hmapped : (!s.sfc.mmioSlices || decide (s.sfc.mmioSlicesLen ≤ sliceRxDescDbl)) =
      false := by
    rw [hready.mmioSlices, hready.mmioSlicesLen]
    rfl
  simp only [rxFlush, hmapped, rxAdvertise, numRxDesc, land_ringMask]
  rfl

/-- The session after a call that records polling and changes nothing else. -/
def polledSession (s : Session) : Session :=
  { s with sfc := { s.sfc with usedPoll := true } }

theorem rxPeekExt_of_ready {s : Session} (hready : s.sfc.Ready) (rxBytes : Nat) :
    ∃ len, rxPeekExt s rxBytes =
        (some (s.sfc.rxExtCookie s.sfc.rxHead, len), polledSession s) ∧
      (s.sfc.rxExtCookie s.sfc.rxHead ≠ none → len = eventLen rxBytes) := by
  have hmapped : (!s.sfc.rxMapped) = false := by
    rw [rxMapped_of_ready hready]
    rfl
  simp only [rxPeekExt, hmapped]
  refine ⟨_, rfl, ?_⟩
  intro hcookie
  rw [if_neg fun hlib => hcookie hlib.1]

theorem rxPeek_of_ready {s : Session} (hready : s.sfc.Ready) (rxBytes : Nat) :
    ∃ pk, rxPeek s rxBytes = (some pk, polledSession s) ∧
      pk.len = frameLen s.dev.rxBuffer (s.sfc.rxHead * rxBufferSize) rxBytes := by
  have hmapped : (!s.sfc.rxBuffer || !s.sfc.rxMapped) = false := by
    rw [hready.rxBuffer, rxMapped_of_ready hready]
    rfl
  simp only [rxPeek, hmapped]
  exact ⟨_, rfl, rfl⟩

/-! ## Transmit -/

/-- `memcpy` of `bytes` to offset `off`. -/
def copyTo (mem : Nat → BitVec 8) (off : Nat) (bytes : List (BitVec 8)) :
    Nat → BitVec 8 :=
  fun j => if off ≤ j ∧ j < off + bytes.length then bytes.getD (j - off) 0#8 else mem j

/-- The slot after `head` on the TX ring. -/
def txNext (head : Nat) : Nat := (head + 1) &&& (numTxDesc - 1)

/-- The length check shared by the posting functions. -/
def txLenOk (len : Nat) : Bool := !(len == 0 || decide (len > txBufferSize))

theorem txLenOk_iff (len : Nat) : txLenOk len = true ↔ 0 < len ∧ len ≤ txBufferSize := by
  simp only [txLenOk, Bool.not_eq_true', Bool.or_eq_false_iff, beq_eq_false_iff_ne,
    decide_eq_false_iff_not]
  omega

/-- `sfc7120_tx_post_paddr_nodbl`: write the descriptor at `tx_head`. -/
def txPostPaddrNodbl (s : Session) (paddr : BitVec 64) (len : Nat) : Int × Session :=
  if !s.sfc.txDescRing then (-1, s)
  else if !txLenOk len then (-1, s)
  else
    (0,
      { sfc := { s.sfc with txHead := txNext s.sfc.txHead }
        dev :=
          { s.dev with
            txDescRing := Function.update s.dev.txDescRing s.sfc.txHead
              (descWord paddr len) } })

/-- `sfc7120_tx_flush`: the write-pointer-only doorbell. -/
def txFlush (s : Session) : Session :=
  if !s.sfc.mmioSlices || s.sfc.mmioSlicesLen ≤ sliceTxDescDbl then s
  else { s with dev := { s.dev with txDbl := .wptr s.sfc.txHead :: s.dev.txDbl } }

/-- The TX ring and its doorbell slice are mapped. -/
def SfcIf.txMapped (sfc : SfcIf) : Bool :=
  sfc.txDescRing && sfc.mmioSlices && decide (sliceTxDescDbl < sfc.mmioSlicesLen)

/-- Write the descriptor at `tx_head` and push it inline with the new pointer,
the common tail of `sfc7120_tx_post_paddr` and `sfc7120_tx_post`. -/
def txPush (s : Session) (paddr : BitVec 64) (len : Nat) : Session :=
  let desc := descWord paddr len
  { sfc := { s.sfc with usedPoll := true, txHead := txNext s.sfc.txHead }
    dev :=
      { s.dev with
        txDescRing := Function.update s.dev.txDescRing s.sfc.txHead desc
        txDbl := .push desc (txNext s.sfc.txHead) :: s.dev.txDbl } }

/-- `sfc7120_tx_post_paddr`. -/
def txPostPaddr (s : Session) (paddr : BitVec 64) (len : Nat) : Int × Session :=
  if !s.sfc.txMapped then (-1, s)
  else if !txLenOk len then (-1, s)
  else (0, txPush s paddr len)

theorem txMapped_of_ready {sfc : SfcIf} (hready : sfc.Ready) : sfc.txMapped = true := by
  simp [SfcIf.txMapped, hready.txDescRing, hready.mmioSlices, hready.mmioSlicesLen,
    sliceTxDescDbl, sliceCount]

/-- A ready session takes every frame of up to 2048 bytes. -/
theorem txPostPaddr_of_ready {s : Session} {len : Nat} (hready : s.sfc.Ready) (hpos : 0 < len)
    (hle : len ≤ txBufferSize) (paddr : BitVec 64) :
    txPostPaddr s paddr len = (0, txPush s paddr len) := by
  rw [txPostPaddr, txMapped_of_ready hready, (txLenOk_iff len).mpr ⟨hpos, hle⟩]
  rfl

/-- `sfc7120_tx_post`: copy the frame into the slot's own buffer and push. -/
def txPost (s : Session) (bytes : List (BitVec 8)) : Int × Session :=
  if !s.sfc.txBuffer || !s.sfc.txMapped then (-1, s)
  else if !txLenOk bytes.length then (-1, s)
  else
    let off := s.sfc.txHead * txBufferSize
    let copied :=
      { s with dev := { s.dev with txBuffer := copyTo s.dev.txBuffer off bytes } }
    (0, txPush copied (slotPa s.sfc.txBufferPaddr s.sfc.txHead) bytes.length)

end Userlib
end SfcCapio
