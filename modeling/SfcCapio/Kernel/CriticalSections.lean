import SfcCapio.Foundation.Locking
import SfcCapio.Kernel.Interrupt
import SfcCapio.Kernel.TxIoctl

/-!
# The critical sections of the driver, access by access

After attach the four cursors of the softc are used in two functions, `sfc7120_ioctl` and
`sfc7120_interrupt_handler`, and there only with `sc_mtx` held.  `driverProgram` is both
functions as one program of threads that share the mutex.  A step makes at most one access
to a ring, so that the card and the user, who has the data queue mapped, can write between
any two of them; `MemoryChange` lets them write anything, anywhere in the shared memory.

The cursors are C `int`s here, and `SFC7120_SET_EVQ_RPTR` stores any three 32-bit values that
pass its checks.  An access carries the signed index or offset that the code computes; the
contents of the memory are looked up at the unsigned one, which is the same on the ring.

`tx_section_agrees`, `rx_section_agrees` and `isr_section_agrees` connect the sections with the
handlers of `TxIoctl`, `RxIoctl` and `Interrupt`, in which reading an event and zeroing its slot are
one step or the cursor is loaded in a step of its own.

What `copyout` reads from the receive buffer is not listed.  The ioctls of the framework do
not reach `sfc7120_ioctl`, and its test for a missing softc cannot fail after attach.
-/

namespace SfcCapio
namespace Kernel

open Hardware Foundation

/-! ## State -/

/-- `ENOTTY`. -/
abbrev enotty : Nat := 25

/-- What the two functions use of `sfc7120_softc_t`, with the memory behind it. -/
structure DriverState where
  dev : Device
  /-- The control queue and its doorbell. -/
  evqRing : Nat → BitVec 64
  evqRptrDbl : Option Nat
  link : LinkState
  evqInitialized : Bool
  dying : Bool
  macAddr : BitVec 48
  viBase : BitVec 32
  rxBufferPaddr : BitVec 64
  txBufferPaddr : BitVec 64
  txHead : BitVec 32
  rxHead : BitVec 32
  dataEvqReadPtr : BitVec 32
  evqReadPtr : BitVec 32

/-- The part that the handlers of `TxIoctl` and `RxIoctl` work on. -/
def DriverState.softc (d : DriverState) : Softc where
  dev := d.dev
  rxBufferPaddr := d.rxBufferPaddr
  txBufferPaddr := d.txBufferPaddr
  rxHead := d.rxHead.toNat
  txHead := d.txHead.toNat
  dataEvqReadPtr := d.dataEvqReadPtr.toNat

/-- The rings. -/
inductive Ring
  | evq
  | dataEvq
  | txDesc
  | rxDesc
deriving DecidableEq, Repr

/-- Number of entries. -/
def Ring.size : Ring → Nat
  | .evq | .dataEvq => numEvqEntry
  | .txDesc => numTxDesc
  | .rxDesc => numRxDesc

/-- An access to a ring, or a byte written to the transmit buffer. -/
inductive RingAccess
  | read (ring : Ring) (index : Int)
  | write (ring : Ring) (index : Int)
  | txBuffer (offset : Int)
deriving DecidableEq, Repr

/-- `(cursor + 1) & (size - 1)`; the rings have the same size. -/
def nextCursor (cursor : BitVec 32) : BitVec 32 := (cursor + 1#32) &&& 511#32

/-! ## Requests and replies -/

/-- An ioctl with its argument, or an interrupt. -/
inductive DriverEntry
  | getMac
  | getViInfo
  | setEvqRptr (evqReadPtr txHead rxHead : BitVec 32)
  | tx (req : TxReq)
  | rx
  /-- Any other command. -/
  | other
  | interrupt

/-- What `SFC7120_GET_VI_INFO` fills in. -/
structure ViInfo where
  txBufferPaddr : BitVec 64
  rxBufferPaddr : BitVec 64
  viBase : BitVec 32
  evqInstance : Nat
  rxqInstance : Nat
  txqInstance : Nat
  numTxDesc : Nat
  numRxDesc : Nat
  numEvqEntry : Nat
  txHead : BitVec 32
  rxHead : BitVec 32
  evqReadPtr : BitVec 32

/-- What a call hands out. -/
inductive DriverReply
  | done
  | mac (addr : BitVec 48)
  | viInfo (info : ViInfo)
  | frame (reply : RxReply)

/-- Outcome of `copyin` or `copyout`: the errno and, if it is not 0, the number of bytes
copied before the fault. -/
structure CopyResult where
  err : Nat
  copied : Nat
deriving Inhabited

/-- `SFC7120_GET_VI_INFO`. -/
def DriverState.viInfo (d : DriverState) : ViInfo where
  txBufferPaddr := d.txBufferPaddr
  rxBufferPaddr := d.rxBufferPaddr
  viBase := d.viBase
  evqInstance := 1
  rxqInstance := 0
  txqInstance := 0
  numTxDesc := numTxDesc
  numRxDesc := numRxDesc
  numEvqEntry := numEvqEntry
  txHead := d.txHead
  rxHead := d.rxHead
  evqReadPtr := d.dataEvqReadPtr

/-! ## Positions -/

/-- Where a thread stands between `SFC7120_LOCK` and `SFC7120_UNLOCK`. -/
inductive Section
  | getMac
  | getViInfo
  | setEvqRptr (evqReadPtr txHead rxHead : BitVec 32)
  /-- The transmit ioctl, as in `TxPc`. -/
  | txCopyin (req : TxReq)
  | txDesc (length : Nat)
  | txRing
  | txPoll (postedIdx : BitVec 32) (tries consumed : Nat)
  /-- `ev` has been read, its slot not yet been zeroed. -/
  | txClear (postedIdx : BitVec 32) (tries consumed : Nat) (ev : BitVec 64)
  | txAck (consumed : Nat) (txDone : Bool)
  /-- The receive ioctl, as in `RxPc`. -/
  | rxPoll (tries consumed : Nat)
  | rxClear (tries consumed : Nat) (ev : BitVec 64)
  | rxAck (consumed : Nat) (rxFound : Option Nat)
  | rxCopy (rxBytes : Nat)
  | rxRepost (reply : RxReply)
  | rxRing (reply : RxReply)
  /-- The interrupt handler. -/
  | isrLook (processed : Nat)
  | isrClear (processed : Nat)
  | isrBell (processed : Nat)

/-- An errno, or 0 with what has been handed out. -/
abbrev DriverResult := Except Nat DriverReply

/-- Where a thread stands. -/
inductive DriverPos
  | entry (e : DriverEntry)
  | lock (sec : Section)
  | inside (sec : Section)
  | unlock (result : DriverResult)
  | ret (result : DriverResult)

/-! ## The two functions -/

/-- Up to the lock: the checks of the request, or the latch of the interrupt handler. -/
def beforeLock (d : DriverState) : DriverEntry → DriverPos
  | .getMac => .lock .getMac
  | .getViInfo => .lock .getViInfo
  | .setEvqRptr evqReadPtr txHead rxHead =>
    -- unsigned comparisons: the request has `uint32_t` fields
    if numEvqEntry ≤ evqReadPtr.toNat ∨ numTxDesc ≤ txHead.toNat ∨
        numRxDesc ≤ rxHead.toNat then .ret (.error einval)
    else .lock (.setEvqRptr evqReadPtr txHead rxHead)
  | .tx req =>
    match txReqError req with
    | some e => .ret (.error e)
    | none => .lock (.txCopyin req)
  | .rx => .lock (.rxPoll 0 0)
  | .other => .ret (.error enotty)
  | .interrupt =>
    if d.dying = true ∨ d.evqInitialized = false then .ret (.ok .done)
    else .lock (.isrLook 0)

/-- Bytes that `copyin` has written when it returns. -/
def bytesCopied (copy : CopyResult) (length : Nat) : Nat :=
  if copy.err = 0 then length else min copy.copied length

/-- The slot of the event just read is zeroed, the cursor of the data queue advanced. -/
def DriverState.consumeData (d : DriverState) : DriverState :=
  { d with
    dev := { d.dev with evqRing := Function.update d.dev.evqRing d.dataEvqReadPtr.toNat 0#64 }
    dataEvqReadPtr := nextCursor d.dataEvqReadPtr }

/-- The acknowledgement on the doorbell of the data queue. -/
def DriverState.ackData (d : DriverState) (consumed : Nat) : DriverState :=
  { d with
    dev :=
      { d.dev with
        evqRptrDbl :=
          if consumed > 0 then d.dataEvqReadPtr.toNat &&& evqRptrMask else d.dev.evqRptrDbl } }

/-- The event under the cursor of the data queue. -/
def DriverState.dataEvent (d : DriverState) : BitVec 64 :=
  d.dev.evqRing d.dataEvqReadPtr.toNat

/-- The event under the cursor of the control queue. -/
def DriverState.controlEvent (d : DriverState) : BitVec 64 := d.evqRing d.evqReadPtr.toNat

/-- One step with the mutex held. -/
def sectionStep (d : DriverState) (copy : CopyResult) :
    Section → DriverState × List RingAccess × DriverPos
  | .getMac => (d, [], .unlock (.ok (.mac d.macAddr)))
  | .getViInfo => (d, [], .unlock (.ok (.viInfo d.viInfo)))
  | .setEvqRptr evqReadPtr txHead rxHead =>
    ({ d with dataEvqReadPtr := evqReadPtr, txHead := txHead, rxHead := rxHead }, [],
      .unlock (.ok .done))
  | .txCopyin req =>
    let n := bytesCopied copy req.length
    ({ d with
        dev := { d.dev with txBuffer := copyinSlot d.softc { req with length := n } } },
      (List.range n).map fun (j : Nat) => .txBuffer (d.txHead.toInt * txBufferSize + j),
      -- a fault leaves what has been copied so far
      if copy.err = 0 then .inside (.txDesc req.length) else .unlock (.error copy.err))
  | .txDesc length =>
    ({ d with
        dev :=
          { d.dev with
            txDescRing := Function.update d.dev.txDescRing d.txHead.toNat
              (descWord (slotPa d.txBufferPaddr d.txHead.toNat) length) } },
      [.write .txDesc d.txHead.toInt], .inside .txRing)
  | .txRing =>
    ({ d with
        dev := { d.dev with txDbl := .wptr (nextCursor d.txHead).toNat :: d.dev.txDbl } },
      [], .inside (.txPoll d.txHead 0 0))
  | .txPoll postedIdx tries consumed =>
    -- an empty slot uses up a try like any other
    if tries < txTries then
      (d, [.read .dataEvq d.dataEvqReadPtr.toInt],
        .inside
          (if slotVacant d.dataEvent then .txPoll postedIdx (tries + 1) consumed
          else .txClear postedIdx tries consumed d.dataEvent))
    else (d, [], .inside (.txAck consumed false))
  | .txClear postedIdx tries consumed ev =>
    -- consumed whatever it is; the slot may hold another event by now
    (d.consumeData, [.write .dataEvq d.dataEvqReadPtr.toInt],
      .inside
        (if Completes postedIdx.toNat ev then .txAck (consumed + 1) true
        else .txPoll postedIdx (tries + 1) (consumed + 1)))
  | .txAck consumed txDone =>
    -- `tx_head` is advanced also after a timeout
    ({ d.ackData consumed with txHead := nextCursor d.txHead }, [],
      .unlock (if txDone then .ok .done else .error etimedout))
  | .rxPoll tries consumed =>
    if tries < rxTries then
      (d, [.read .dataEvq d.dataEvqReadPtr.toInt],
        .inside
          (if slotVacant d.dataEvent then .rxPoll (tries + 1) consumed
          else .rxClear tries consumed d.dataEvent))
    else (d, [], .inside (.rxAck consumed none))
  | .rxClear tries consumed ev =>
    (d.consumeData, [.write .dataEvq d.dataEvqReadPtr.toInt],
      .inside
        (if evCode ev = 0 then .rxAck (consumed + 1) (some (evRxBytes ev))
        else .rxPoll (tries + 1) (consumed + 1)))
  | .rxAck consumed rxFound =>
    (d.ackData consumed, [],
      match rxFound with
      | none => .unlock (.error etimedout)
      | some rxBytes => .inside (.rxCopy rxBytes))
  | .rxCopy rxBytes =>
    (d, [],
      if copy.err = 0 then .inside (.rxRepost (rxReply d.softc rxBytes))
      else .unlock (.error copy.err))
  | .rxRepost reply =>
    ({ d with
        dev :=
          { d.dev with
            rxDescRing := Function.update d.dev.rxDescRing d.rxHead.toNat
              (identityDesc d.rxBufferPaddr d.rxHead.toNat) } },
      [.write .rxDesc d.rxHead.toInt], .inside (.rxRing reply))
  | .rxRing reply =>
    -- the doorbell gets the index before the increment
    ({ d with
        dev := { d.dev with rxDescDbl := d.rxHead.toNat }
        rxHead := nextCursor d.rxHead },
      [], .unlock (.ok (.frame reply)))
  | .isrLook processed =>
    if slotVacant d.controlEvent then
      (d, [.read .evq d.evqReadPtr.toInt], .inside (.isrBell processed))
    else
      ({ d with link := handleEvent d.controlEvent d.link },
        [.read .evq d.evqReadPtr.toInt], .inside (.isrClear processed))
  | .isrClear processed =>
    -- `++processed` is compared with the ring size, so a full lap ends the loop
    ({ d with
        evqRing := Function.update d.evqRing d.evqReadPtr.toNat 0#64
        evqReadPtr := nextCursor d.evqReadPtr },
      [.write .evq d.evqReadPtr.toInt],
      .inside
        (if numEvqEntry ≤ processed + 1 then .isrBell (processed + 1)
        else .isrLook (processed + 1)))
  | .isrBell processed =>
    ({ d with
        evqRptrDbl :=
          if processed > 0 then some (d.evqReadPtr.toNat &&& evqRptrMask) else d.evqRptrDbl },
      [], .unlock (.ok .done))

/-- New contents of the memory that card and user can write. -/
structure MemoryChange where
  dev : Device
  evqRing : Nat → BitVec 64

/-- `sfc7120_ioctl` and `sfc7120_interrupt_handler`. -/
def driverProgram :
    Program DriverState MemoryChange DriverEntry CopyResult DriverPos RingAccess DriverResult where
  start := .entry
  op
    | .entry e => .work fun d _ => (d, [], beforeLock d e)
    | .lock sec => .lock (.inside sec)
    | .inside sec => .work fun d copy => sectionStep d copy sec
    | .unlock result => .unlock (.ret result)
    | .ret result => .ret result
  outside change d := { d with dev := change.dev, evqRing := change.evqRing }

/-- The driver after attach. -/
abbrev DriverSys := Threads DriverState DriverEntry DriverPos RingAccess

/-- A call or interrupt begins, a thread moves, or card and user write. -/
abbrev DriverLabel := ThreadLabel MemoryChange DriverEntry CopyResult

/-! ## The same handlers in coarser steps -/

@[simp] theorem nextCursor_toNat (cursor : BitVec 32) :
    (nextCursor cursor).toNat = (cursor.toNat + 1) % 512 := by
  rw [nextCursor, BitVec.toNat_and, BitVec.toNat_add]
  show (cursor.toNat + 1) % 2 ^ 32 &&& (512 - 1) = _
  rw [land_ringMask]
  omega

/-- The section as a place of the transmit handler. -/
def Section.txPc : Section → Option TxPc
  | .txCopyin req => some (.copyin req)
  | .txDesc length => some (.desc length)
  | .txRing => some .ring
  | .txPoll postedIdx tries consumed => some (.poll postedIdx.toNat tries consumed)
  | .txAck consumed txDone => some (.ack consumed txDone)
  | _ => none

/-- The section as a place of the receive handler. -/
def Section.rxPc : Section → Option RxPc
  | .rxPoll tries consumed => some (.poll tries consumed)
  | .rxAck consumed rxFound => some (.ack consumed rxFound)
  | .rxCopy rxBytes => some (.copy rxBytes)
  | .rxRepost reply => some (.repost reply)
  | .rxRing reply => some (.ring reply)
  | _ => none

/-- The position as a status of the transmit handler. -/
def DriverPos.txStatus : DriverPos → Option TxStatus
  | .inside sec => sec.txPc.map .running
  | .unlock (.ok _) => some (.returned none)
  | .unlock (.error e) => some (.returned (some e))
  | _ => none

/-- The position as a status of the receive handler. -/
def DriverPos.rxStatus : DriverPos → Option RxStatus
  | .inside sec => sec.rxPc.map .running
  | .unlock (.ok (.frame reply)) => some (.returned (.ok reply))
  | .unlock (.error e) => some (.returned (.error e))
  | _ => none

/-- A step, and the zeroing of the slot if it has read an event. -/
def sectionRound (d : DriverState) (copy : CopyResult) (sec : Section) :
    DriverState × DriverPos :=
  let out := sectionStep d copy sec
  match out.2.2 with
  | .inside (.txClear postedIdx tries consumed ev) =>
    let next := sectionStep out.1 copy (.txClear postedIdx tries consumed ev)
    (next.1, next.2.2)
  | .inside (.rxClear tries consumed ev) =>
    let next := sectionStep out.1 copy (.rxClear tries consumed ev)
    (next.1, next.2.2)
  | pos => (out.1, pos)

theorem copyinSlot_zero (sc : Softc) (req : TxReq) :
    copyinSlot sc { req with length := 0 } = sc.dev.txBuffer := by
  funext j
  rw [copyinSlot, if_neg]
  show ¬ (sc.txHead * txBufferSize ≤ j ∧ j < sc.txHead * txBufferSize + 0)
  omega

/-- Consuming the event under the cursor, in one step and in two. -/
theorem evqTake_dataEvent (d : DriverState) :
    evqTake d.softc.dev.evqRing d.softc.dataEvqReadPtr =
      if slotVacant d.dataEvent then none
      else some (d.dataEvent, d.consumeData.dev.evqRing, d.consumeData.dataEvqReadPtr.toNat) := by
  have hnext : (d.dataEvqReadPtr.toNat + 1) &&& (numEvqEntry - 1) =
      (nextCursor d.dataEvqReadPtr).toNat := by
    rw [nextCursor_toNat, numEvqEntry, land_ringMask]
  show (if slotVacant d.dataEvent then none
    else some (d.dataEvent, _, (d.dataEvqReadPtr.toNat + 1) &&& (numEvqEntry - 1))) = _
  rw [hnext]
  rfl

/-- The sections of the transmit ioctl are the steps of `txIoctlStep`, if nobody writes to the
queue between the reading of an event and the zeroing of its slot. -/
theorem tx_section_agrees (d : DriverState) (copy : CopyResult)
    (hcopied : copy.err ≠ 0 → copy.copied = 0) {sec : Section} {pc : TxPc}
    (hpc : sec.txPc = some pc) :
    (sectionRound d copy sec).1.softc = (txIoctlStep d.softc copy.err pc).1 ∧
      (sectionRound d copy sec).2.txStatus = some (txIoctlStep d.softc copy.err pc).2 := by
  have hnext : (d.txHead.toNat + 1) &&& (numTxDesc - 1) = (nextCursor d.txHead).toNat := by
    rw [nextCursor_toNat, numTxDesc, land_ringMask]
  cases sec with
  | txCopyin req =>
    cases hpc
    by_cases herr : copy.err = 0
    · simp only [sectionRound, sectionStep, txIoctlStep, bytesCopied, herr, if_true, ne_eq,
        not_true_eq_false, if_false]
      exact ⟨rfl, rfl⟩
    · simp only [sectionRound, sectionStep, txIoctlStep, bytesCopied, herr, if_false, ne_eq,
        not_false_eq_true, if_true, hcopied herr, Nat.zero_min]
      refine ⟨?_, rfl⟩
      rw [copyinSlot_zero]
      rfl
  | txDesc length =>
    cases hpc
    exact ⟨rfl, rfl⟩
  | txRing =>
    cases hpc
    simp only [txIoctlStep]
    have hwptr : (d.softc.txHead + 1) &&& (numTxDesc - 1) = (nextCursor d.txHead).toNat := hnext
    rw [hwptr]
    exact ⟨rfl, rfl⟩
  | txPoll postedIdx tries consumed =>
    cases hpc
    simp only [txIoctlStep, evqTake_dataEvent]
    by_cases htries : tries < txTries
    · by_cases hvacant : slotVacant d.dataEvent
      · simp only [sectionRound, sectionStep, htries, if_true, hvacant]
        exact ⟨trivial, rfl⟩
      · by_cases hcompletes : Completes postedIdx.toNat d.dataEvent
        · simp only [sectionRound, sectionStep, htries, if_true, hvacant, if_false, hcompletes]
          exact ⟨rfl, rfl⟩
        · simp only [sectionRound, sectionStep, htries, if_true, hvacant, if_false, hcompletes]
          exact ⟨rfl, rfl⟩
    · simp only [sectionRound, sectionStep, htries, if_false]
      exact ⟨trivial, rfl⟩
  | txAck consumed txDone =>
    cases hpc
    have hhead : (d.softc.txHead + 1) &&& (numTxDesc - 1) = (nextCursor d.txHead).toNat := hnext
    simp only [txIoctlStep]
    rw [hhead]
    cases txDone with
    | false => exact ⟨rfl, rfl⟩
    | true => exact ⟨rfl, rfl⟩
  | _ => cases hpc

theorem rx_section_agrees (d : DriverState) (copy : CopyResult) {sec : Section} {pc : RxPc}
    (hpc : sec.rxPc = some pc) :
    (sectionRound d copy sec).1.softc = (rxIoctlStep d.softc copy.err pc).1 ∧
      (sectionRound d copy sec).2.rxStatus = some (rxIoctlStep d.softc copy.err pc).2 := by
  cases sec with
  | rxPoll tries consumed =>
    cases hpc
    simp only [rxIoctlStep, evqTake_dataEvent]
    by_cases htries : tries < rxTries
    · by_cases hvacant : slotVacant d.dataEvent
      · simp only [sectionRound, sectionStep, htries, if_true, hvacant]
        exact ⟨trivial, rfl⟩
      · by_cases hrx : evCode d.dataEvent = 0
        · simp only [sectionRound, sectionStep, htries, if_true, hvacant, if_false, hrx]
          exact ⟨rfl, rfl⟩
        · simp only [sectionRound, sectionStep, htries, if_true, hvacant, if_false, hrx]
          exact ⟨rfl, rfl⟩
    · simp only [sectionRound, sectionStep, htries, if_false]
      exact ⟨trivial, rfl⟩
  | rxAck consumed rxFound =>
    cases hpc
    have hack : (d.ackData consumed).softc =
        if consumed > 0 then
          { d.softc with
            dev := { d.softc.dev with
              evqRptrDbl := d.softc.dataEvqReadPtr &&& evqRptrMask } }
        else d.softc := by
      by_cases hconsumed : consumed > 0
      · rw [DriverState.ackData, if_pos hconsumed, if_pos hconsumed]
        rfl
      · rw [DriverState.ackData, if_neg hconsumed, if_neg hconsumed]
    simp only [rxIoctlStep]
    cases rxFound with
    | none => exact ⟨hack, rfl⟩
    | some rxBytes => exact ⟨hack, rfl⟩
  | rxCopy rxBytes =>
    cases hpc
    by_cases herr : copy.err = 0
    · simp only [sectionRound, sectionStep, rxIoctlStep, herr, if_true, ne_eq,
        not_true_eq_false, if_false]
      exact ⟨trivial, rfl⟩
    · simp only [sectionRound, sectionStep, rxIoctlStep, herr, if_false, ne_eq,
        not_false_eq_true, if_true]
      exact ⟨trivial, rfl⟩
  | rxRepost reply =>
    cases hpc
    exact ⟨rfl, rfl⟩
  | rxRing reply =>
    cases hpc
    have hhead : (d.softc.rxHead + 1) &&& (numRxDesc - 1) = (nextCursor d.rxHead).toNat := by
      rw [nextCursor_toNat, numRxDesc, land_ringMask]
      rfl
    simp only [rxIoctlStep]
    rw [hhead]
    exact ⟨rfl, rfl⟩
  | _ => cases hpc

/-- The control queue of `Interrupt`, with the handler at `isr`. -/
def DriverState.control (d : DriverState) (c : ControlSys) (processed : Nat) (isr : IsrPc) :
    ControlSys :=
  { c with
    evqRing := d.evqRing
    evqReadPtr := d.evqReadPtr.toNat
    link := d.link
    rptrDbl := d.evqRptrDbl
    isr := isr
    processed := processed }

/-- The sections of the interrupt handler are rounds of `isrStep` in which nobody else stores
to the cursor: load and look; load and zero, load and advance; load and ring. -/
theorem isr_section_agrees (d : DriverState) (copy : CopyResult) (c : ControlSys)
    (processed : Nat) :
    exec controlStep (d.control c processed .load) [.isr, .isr] =
        some ((sectionStep d copy (.isrLook processed)).1.control c processed
          (if slotVacant d.controlEvent then if 0 < processed then .bellLoad else .idle
          else .clearLoad d.controlEvent)) ∧
      (∀ ev, exec controlStep (d.control c processed (.clearLoad ev)) [.isr, .isr, .isr, .isr] =
        some ((sectionStep d copy (.isrClear processed)).1.control
          { c with consumed := c.consumed ++ [ev] } (processed + 1)
          (if numEvqEntry ≤ processed + 1 then .bellLoad else .load))) ∧
      (0 < processed → exec controlStep (d.control c processed .bellLoad) [.isr, .isr] =
        some ((sectionStep d copy (.isrBell processed)).1.control c processed .idle)) := by
  refine ⟨?_, ?_, ?_⟩
  · have hload : controlStep (d.control c processed .load) .isr =
        some (d.control c processed (.look d.evqReadPtr.toNat)) := rfl
    rw [exec_cons_of_some hload]
    by_cases hvacant : slotVacant d.controlEvent
    · have hlook : controlStep (d.control c processed (.look d.evqReadPtr.toNat)) .isr =
          some (d.control c processed (if 0 < processed then .bellLoad else .idle)) :=
        if_pos hvacant
      rw [exec_cons_of_some hlook, exec_nil, sectionStep, if_pos hvacant, if_pos hvacant]
    · have hlook : controlStep (d.control c processed (.look d.evqReadPtr.toNat)) .isr =
          some ({ d with link := handleEvent d.controlEvent d.link }.control c processed
            (.clearLoad d.controlEvent)) := if_neg hvacant
      rw [exec_cons_of_some hlook, exec_nil, sectionStep, if_neg hvacant, if_neg hvacant]
  · intro ev
    have hnext : (d.evqReadPtr.toNat + 1) &&& (numEvqEntry - 1) =
        (nextCursor d.evqReadPtr).toNat := by
      rw [nextCursor_toNat, numEvqEntry, land_ringMask]
    have hround :
        exec controlStep (d.control c processed (.clearLoad ev)) [.isr, .isr, .isr, .isr] = some
          { (sectionStep d copy (.isrClear processed)).1.control
              { c with consumed := c.consumed ++ [ev] } (processed + 1)
              (if numEvqEntry ≤ processed + 1 then .bellLoad else .load) with
            evqReadPtr := (d.evqReadPtr.toNat + 1) &&& (numEvqEntry - 1) } := rfl
    rw [hround, hnext]
    rfl
  · intro hpos
    simp only [sectionStep, gt_iff_lt, hpos, if_true]
    rfl

end Kernel
end SfcCapio
