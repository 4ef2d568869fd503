import SfcCapio.Kernel.RxIoctl

/-!
# The transmit ioctl of the kernel driver

`SFC7120_TX` checks the caller's capability, copies the packet into the slot at
`tx_head`, writes its descriptor, rings the write-pointer doorbell and then polls the
data event queue until the completion of this very descriptor turns up, for at most
10000 reads.  Like the receive handler it consumes every event it reads, whatever its
kind.  `txIoctlStep` cuts the handler at the accesses the card can observe; the
acknowledgement and the increment of `tx_head` are one step.
-/

namespace SfcCapio
namespace Kernel

open Hardware

/-- `EPERM`. -/
abbrev eperm : Nat := 1

/-- `EINVAL`. -/
abbrev einval : Nat := 22

/-- The bound of the polling loop. -/
abbrev txTries : Nat := 10000

/-- `sfc7120_tx_req_t`: tag, permission and length of its capability, the byte count
and the packet. -/
structure TxReq where
  tag : Bool
  permLoad : Bool
  capLen : Nat
  length : Nat
  bytes : Nat → BitVec 8

/-- The checks before the lock is taken; `none` lets the request pass. -/
def txReqError (req : TxReq) : Option Nat :=
  if req.tag = false then some einval
  else if req.permLoad = false then some eperm
  else if req.length = 0 ∨ txBufferSize < req.length then some einval
  else if req.capLen < req.length then some einval
  else none

/-- Where the handler stands, with the lock held. -/
inductive TxPc
  /-- Before `copyin`. -/
  | copyin (req : TxReq)
  /-- Before the descriptor is written. -/
  | desc (length : Nat)
  /-- Before the doorbell. -/
  | ring
  /-- Head of the polling loop, `tx_done` being 0. -/
  | poll (postedIdx tries consumed : Nat)
  /-- Behind the loop. -/
  | ack (consumed : Nat) (txDone : Bool)

/-- The handler continues, or returns; `none` is the return value 0. -/
inductive TxStatus
  | running (pc : TxPc)
  | returned (rc : Option Nat)

/-- The packet in the slot at `tx_head`. -/
def copyinSlot (sc : Softc) (req : TxReq) : Nat → BitVec 8 := fun j =>
  if sc.txHead * txBufferSize ≤ j ∧ j < sc.txHead * txBufferSize + req.length then
    req.bytes (j - sc.txHead * txBufferSize)
  else sc.dev.txBuffer j

/-- A completion event of the descriptor at `postedIdx`. -/
def Completes (postedIdx : Nat) (ev : BitVec 64) : Prop :=
  evCode ev = 2 ∧ evTxDescIdx ev &&& (numTxDesc - 1) = postedIdx

instance (postedIdx : Nat) (ev : BitVec 64) : Decidable (Completes postedIdx ev) :=
  inferInstanceAs (Decidable (_ ∧ _))

/-- One step of the `SFC7120_TX` handler.  `copyErr` is the outcome of `copyin`, read
only where it is called. -/
def txIoctlStep (sc : Softc) (copyErr : Nat) : TxPc → Softc × TxStatus
  | .copyin req =>
    if copyErr ≠ 0 then (sc, .returned (some copyErr))
    else
      ({ sc with dev := { sc.dev with txBuffer := copyinSlot sc req } },
        .running (.desc req.length))
  | .desc length =>
    ({ sc with
        dev :=
          { sc.dev with
            txDescRing := Function.update sc.dev.txDescRing sc.txHead
              (descWord (slotPa sc.txBufferPaddr sc.txHead) length) } },
      .running .ring)
  | .ring =>
    ({ sc with
        dev :=
          { sc.dev with
            txDbl := .wptr ((sc.txHead + 1) &&& (numTxDesc - 1)) :: sc.dev.txDbl } },
      .running (.poll sc.txHead 0 0))
  | .poll postedIdx tries consumed =>
    if tries < txTries then
      match evqTake sc.dev.evqRing sc.dataEvqReadPtr with
      | none => (sc, .running (.poll postedIdx (tries + 1) consumed))
      | some (ev, evq, readPtr) =>
        let sc' :=
          { sc with dev := { sc.dev with evqRing := evq }, dataEvqReadPtr := readPtr }
        if Completes postedIdx ev then (sc', .running (.ack (consumed + 1) true))
        else (sc', .running (.poll postedIdx (tries + 1) (consumed + 1)))
    else (sc, .running (.ack consumed false))
  | .ack consumed txDone =>
    let dbl :=
      if consumed > 0 then sc.dataEvqReadPtr &&& evqRptrMask else sc.dev.evqRptrDbl
    ({ sc with
        dev := { sc.dev with evqRptrDbl := dbl }
        txHead := (sc.txHead + 1) &&& (numTxDesc - 1) },
      .returned (if txDone then none else some etimedout))

/-- `sc'` differs from `sc` in nothing that the receive path uses. -/
structure SameRx (sc sc' : Softc) : Prop where
  base : sc'.rxBufferPaddr = sc.rxBufferPaddr
  rxHead : sc'.rxHead = sc.rxHead
  rxDescDbl : sc'.dev.rxDescDbl = sc.dev.rxDescDbl
  rxDescRing : sc'.dev.rxDescRing = sc.dev.rxDescRing
  rxBuffer : sc'.dev.rxBuffer = sc.dev.rxBuffer

/-- No step of the transmit handler touches the receive ring, its buffer, its doorbell
or `rx_head`. -/
theorem sameRx_txIoctlStep (sc : Softc) (copyErr : Nat) (pc : TxPc) :
    SameRx sc (txIoctlStep sc copyErr pc).1 := by
  cases pc with
  | copyin req =>
    simp only [txIoctlStep]
    split
    · exact ⟨rfl, rfl, rfl, rfl, rfl⟩
    · exact ⟨rfl, rfl, rfl, rfl, rfl⟩
  | desc length => exact ⟨rfl, rfl, rfl, rfl, rfl⟩
  | ring => exact ⟨rfl, rfl, rfl, rfl, rfl⟩
  | poll postedIdx tries consumed =>
    simp only [txIoctlStep]
    split
    · split
      · exact ⟨rfl, rfl, rfl, rfl, rfl⟩
      · split
        · exact ⟨rfl, rfl, rfl, rfl, rfl⟩
        · exact ⟨rfl, rfl, rfl, rfl, rfl⟩
    · exact ⟨rfl, rfl, rfl, rfl, rfl⟩
  | ack consumed txDone => exact ⟨rfl, rfl, rfl, rfl, rfl⟩

end Kernel
end SfcCapio
