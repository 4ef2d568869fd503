import SfcCapio.Handover.Sessions

/-!
# The poll-mode driver's private state

`rte_eth_capio.c` exposes the library as a DPDK port.  `Internals` is its private
record (`struct capio_internals`) together with the packet buffers it can reach:
an `rte_mbuf` pointer is a number and `mbufs` gives the contents behind it.

The memory pool belongs to DPDK.  What it answers to an allocation is an input
of the model (`PoolReply`), and the inline functions of `rte_mbuf.h` that the driver
calls are parameters, with the properties it relies on (`MbufOps`).

The module also holds the two helpers on which both directions rest,
`capio_mbuf_get` and `capio_post_mbuf`, and the reaping loop for transmit
completions.
-/

namespace SfcCapio
namespace Pmd

open Hardware Userlib Kernel Handover

/-- `CAPIO_MAX_BURST`. -/
abbrev capioMaxBurst : Nat := 32

/-- `CAPIO_RX_PREFIX`. -/
abbrev capioRxPrefix : Nat := ef10RxPrefixLen

/-- `CAPIO_MIN_TX_FRAME`. -/
abbrev capioMinTxFrame : Nat := 60

/-- The size of `rxq->stash`. -/
abbrev stashSize : Nat := 64

/-! ## Packet buffers -/

/-- The fields of `struct rte_mbuf` that the driver uses.  `data` is the memory
at `rte_pktmbuf_mtod`. -/
structure RteMbuf where
  bufIova : BitVec 64
  bufLen : Nat
  dataOff : Nat
  dataLen : Nat
  pktLen : Nat
  nbSegs : UInt16
  next : Option Nat
  data : Nat → BitVec 8

/-- `n` bytes of the segment's data. -/
def RteMbuf.bytes (m : RteMbuf) (n : Nat) : List (BitVec 8) := (List.range n).map m.data

/-- `rte_mbuf_data_iova_default`, `rte_mbuf_data_iova`, `rte_pktmbuf_tailroom` and
`rte_pktmbuf_reset`, which every allocation performs.  They belong to DPDK; what is
assumed of them is that a buffer keeps its default address and its size, and that
tailroom and reset look at nothing but the size and the data window. -/
structure MbufOps where
  dataIovaDefault : RteMbuf → BitVec 64
  dataIova : RteMbuf → BitVec 64
  tailroom : RteMbuf → Nat
  reset : RteMbuf → RteMbuf
  dataIovaDefault_congr : ∀ {m m' : RteMbuf}, m'.bufIova = m.bufIova → m'.bufLen = m.bufLen →
    dataIovaDefault m' = dataIovaDefault m
  tailroom_congr : ∀ {m m' : RteMbuf}, m'.bufLen = m.bufLen → m'.dataOff = m.dataOff →
    m'.dataLen = m.dataLen → tailroom m' = tailroom m
  reset_object : ∀ m, (reset m).bufIova = m.bufIova ∧ (reset m).bufLen = m.bufLen
  reset_window : ∀ {m m' : RteMbuf}, m'.bufLen = m.bufLen →
    (reset m').dataOff = (reset m).dataOff ∧ (reset m').dataLen = (reset m).dataLen

/-- One choice of these functions, for a headroom of 128.  The tailroom is computed in
16 bits. -/
def sampleOps : MbufOps where
  dataIovaDefault m := m.bufIova + 128#64
  dataIova m := m.bufIova + BitVec.ofNat 64 m.dataOff
  tailroom m :=
    (BitVec.ofNat 16 m.bufLen - BitVec.ofNat 16 m.dataOff - BitVec.ofNat 16 m.dataLen).toNat
  reset m :=
    { m with
      dataOff := min 128 m.bufLen
      dataLen := 0
      pktLen := 0
      nbSegs := 1
      next := none }
  dataIovaDefault_congr := fun hiova _ => by rw [hiova]
  tailroom_congr := fun hlen hoff hdata => by rw [hlen, hoff, hdata]
  reset_object := fun _ => ⟨rfl, rfl⟩
  reset_window := fun hlen => ⟨by rw [hlen], rfl⟩

/-! ## Queues -/

/-- `struct capio_rx_queue`; `stash` lists `stash[0 .. nstash - 1]`. -/
structure RxQueue where
  stash : List Nat
  rxPkts : Nat
  rxBytes : Nat
  rxNombuf : Nat

/-- `struct capio_tx_queue`. -/
structure TxQueue where
  inflight : Nat → Option Nat
  lastFreed : Nat
  txInflightCnt : Nat
  txPkts : Nat
  txBytes : Nat
  txDropped : Nat

/-- `struct capio_internals` with the memory behind it.  `rxCopy` is the cached
test of the environment variable `CAPIO_RX_COPY`. -/
structure Internals where
  txCopyMode : Bool
  rxCopy : Bool
  ops : MbufOps
  session : Session
  rxq : RxQueue
  txq : TxQueue
  mbufs : Nat → RteMbuf

/-- The receive queue after the `memset` of `eth_dev_capio_create`. -/
def zeroRxQueue : RxQueue where
  stash := []
  rxPkts := 0
  rxBytes := 0
  rxNombuf := 0

/-- The transmit queue after the same `memset`. -/
def zeroTxQueue : TxQueue where
  inflight := fun _ => none
  lastFreed := 0
  txInflightCnt := 0
  txPkts := 0
  txBytes := 0
  txDropped := 0

/-- `eth_dev_capio_create` on a device that `sfc7120_init` accepts.  The record is
zeroed; the assignment of `tx_copy_mode` stands in the branch of a failed init, so
the flag stays clear. -/
def ethDevCapioCreate (sc : Softc) (rxWindow : Option (BitVec 32)) (rxCopy : Bool)
    (ops : MbufOps) (mbufs : Nat → RteMbuf) : Internals where
  txCopyMode := false
  rxCopy := rxCopy
  ops := ops
  session := { sfc := sfcInit sc rxWindow, dev := sc.dev }
  rxq := zeroRxQueue
  txq := zeroTxQueue
  mbufs := mbufs

/-! ## Buffers in and out of the pool -/

/-- What becomes of an mbuf: it comes from the pool, goes into the RX ring (or is
refused there), goes to the caller or back to the pool. -/
inductive MbufAct
  | alloc (m : Nat)
  | post (m : Nat)
  | refuse (m : Nat)
  | deliver (m : Nat)
  | free (m : Nat)
deriving DecidableEq, Repr

/-- The pool's answers to one `capio_mbuf_get`: to the bulk allocation, and to
the single one tried when the bulk fails. -/
structure PoolReply where
  bulk : Option (List Nat)
  single : Option Nat

/-- `rte_pktmbuf_alloc` and its bulk form reset what they hand out. -/
def Internals.allocated (pi : Internals) (ms : List Nat) : Internals :=
  { pi with
    mbufs := fun m => if m ∈ ms then pi.ops.reset (pi.mbufs m) else pi.mbufs m }

/-- What one allocation yields: the mbuf, those taken from the pool, and the
stash it leaves. -/
structure Taken where
  mbuf : Option Nat
  allocs : List Nat
  stash : List Nat

/-- The control flow of `capio_mbuf_get`: the top of the stash, which is refilled
in bulk when it is empty; a single allocation when that fails. -/
def takeMbuf (stash : List Nat) (reply : PoolReply) : Taken :=
  match stash.getLast? with
  | some m => { mbuf := some m, allocs := [], stash := stash.dropLast }
  | none =>
    match reply.bulk with
    | some ms => { mbuf := ms.getLast?, allocs := ms, stash := ms.dropLast }
    | none =>
      match reply.single with
      | some m => { mbuf := some m, allocs := [m], stash := [] }
      | none => { mbuf := none, allocs := [], stash := [] }

/-- The driver's state after an allocation. -/
def Internals.taken (pi : Internals) (t : Taken) : Internals :=
  { pi.allocated t.allocs with rxq := { pi.rxq with stash := t.stash } }

/-- `capio_mbuf_get` on the driver's state. -/
def capioMbufGet (pi : Internals) (reply : PoolReply) :
    Option Nat × List MbufAct × Internals :=
  let t := takeMbuf pi.rxq.stash reply
  (t.mbuf, t.allocs.map .alloc, pi.taken t)

/-- The length `capio_post_mbuf` advertises. -/
def postRoom (ops : MbufOps) (m : RteMbuf) : Nat :=
  if ops.tailroom m > rxBufferSize then rxBufferSize else ops.tailroom m

/-- `capio_post_mbuf`: post the mbuf at the tail of the RX ring. -/
def capioPostMbuf (pi : Internals) (m : Nat) : List MbufAct × Internals :=
  let out := rxReleasePaddrNodbl pi.session
    (pi.ops.dataIovaDefault (pi.mbufs m)) (postRoom pi.ops (pi.mbufs m)) (some m)
  (if out.1 = 0 then [.post m] else [.refuse m], { pi with session := out.2 })

/-! ## Reaping transmit completions -/

/-- The body of the reaping loop at slot `f`. -/
def reapSlot (txq : TxQueue) (f : Nat) : TxQueue :=
  { txq with
    inflight := Function.update txq.inflight f none
    txInflightCnt := if txq.txInflightCnt > 0 then txq.txInflightCnt - 1 else 0 }

/-- The loop `while (f != done)`, with the mbufs it frees.  A ring has 512 slots,
so 512 rounds always suffice. -/
def reapLoop : Nat → TxQueue → Nat → Nat → List Nat × TxQueue
  | 0, txq, _, _ => ([], txq)
  | fuel + 1, txq, f, done =>
    if f = done then ([], txq)
    else
      let f' := (f + 1) &&& (numTxDesc - 1)
      let rest := reapLoop fuel (reapSlot txq f') f' done
      ((txq.inflight f').toList ++ rest.1, rest.2)

/-- The handling of one TX event: free `(last_freed, done]`. -/
def reap (txq : TxQueue) (txDescIdx : Nat) : List Nat × TxQueue :=
  let done := txDescIdx &&& (numTxDesc - 1)
  let out := reapLoop numTxDesc txq txq.lastFreed done
  (out.1, { out.2 with lastFreed := done })

/-! ### What the loop does -/

/-- `n` rounds of the loop from slot `f`. -/
def reapRounds : Nat → TxQueue → Nat → List Nat × TxQueue
  | 0, txq, _ => ([], txq)
  | n + 1, txq, f =>
    let f' := (f + 1) % 512
    let rest := reapRounds n (reapSlot txq f') f'
    ((txq.inflight f').toList ++ rest.1, rest.2)

/-- The loop runs until it meets `done`, which is `n` rounds away. -/
theorem reapLoop_eq_rounds {fuel n f : Nat} (txq : TxQueue) (hfuel : n ≤ fuel)
    (hn : n < 512) (hf : f < 512) :
    reapLoop fuel txq f ((f + n) % 512) = reapRounds n txq f := by
  induction n generalizing fuel f txq with
  | zero =>
    have hdone : (f + 0) % 512 = f := by omega
    cases fuel with
    | zero => rfl
    | succ fuel => rw [hdone, reapLoop, if_pos rfl, reapRounds]
  | succ n ih =>
    cases fuel with
    | zero => omega
    | succ fuel =>
      have hne : f ≠ (f + (n + 1)) % 512 := by omega
      have hdone : (f + (n + 1)) % 512 = ((f + 1) % 512 + n) % 512 := by omega
      have hrest := ih (reapSlot txq ((f + 1) % 512)) (Nat.le_of_succ_le_succ hfuel)
        (by omega) (Nat.mod_lt (f + 1) (by decide))
      rw [reapLoop, if_neg hne]
      simp only [numTxDesc, land_ringMask]
      rw [hdone, hrest, reapRounds]

/-- The mbufs freed are those of the slots passed, in ring order. -/
theorem reapRounds_freed (n f : Nat) (txq : TxQueue) (hn : n < 512) :
    (reapRounds n txq f).1 =
      (List.range n).flatMap fun i => (txq.inflight ((f + 1 + i) % 512)).toList := by
  induction n generalizing f txq with
  | zero => rfl
  | succ n ih =>
    rw [reapRounds, List.range_succ_eq_map, List.flatMap_cons, List.flatMap_map]
    simp only [ih ((f + 1) % 512) (reapSlot txq ((f + 1) % 512)) (by omega)]
    congr 1
    -- the later slots of the lap are not the one just cleared
    refine List.flatMap_congr ?_
    intro i hi
    have hlt := List.mem_range.mp hi
    have hslot : ((f + 1) % 512 + 1 + i) % 512 = (f + 1 + (i + 1)) % 512 := by omega
    have hne : (f + 1 + (i + 1)) % 512 ≠ (f + 1) % 512 := by omega
    simp only [reapSlot, hslot, Function.update_of_ne hne, Nat.succ_eq_add_one]

/-- The slots passed are cleared, the others stay. -/
theorem reapRounds_inflight (n f : Nat) (txq : TxQueue) (slot : Nat) :
    (reapRounds n txq f).2.inflight slot =
      if ∃ i, i < n ∧ (f + 1 + i) % 512 = slot then none else txq.inflight slot := by
  induction n generalizing f txq with
  | zero => simp [reapRounds]
  | succ n ih =>
    rw [reapRounds]
    simp only [ih]
    by_cases hfirst : (f + 1) % 512 = slot
    · have hhit : ∃ i, i < n + 1 ∧ (f + 1 + i) % 512 = slot := ⟨0, by omega, hfirst⟩
      rw [if_pos hhit]
      split
      · rfl
      · simp [reapSlot, hfirst]
    · have hiff : (∃ i, i < n ∧ ((f + 1) % 512 + 1 + i) % 512 = slot) ↔
          ∃ i, i < n + 1 ∧ (f + 1 + i) % 512 = slot := by
        constructor
        · rintro ⟨i, hi, hslot⟩
          exact ⟨i + 1, by omega, by omega⟩
        · rintro ⟨i, hi, hslot⟩
          have hpos : i ≠ 0 := by
            rintro rfl
            exact hfirst hslot
          exact ⟨i - 1, by omega, by omega⟩
      have hother : (reapSlot txq ((f + 1) % 512)).inflight slot = txq.inflight slot :=
        Function.update_of_ne (Ne.symm hfirst) _ _
      simp only [hiff, hother]

/-- Each round lowers the counter, but not below zero. -/
theorem reapRounds_txInflightCnt (n f : Nat) (txq : TxQueue) :
    (reapRounds n txq f).2.txInflightCnt = txq.txInflightCnt - n := by
  induction n generalizing f txq with
  | zero => rfl
  | succ n ih =>
    rw [reapRounds]
    simp only [ih, reapSlot]
    split <;> omega

/-- Reaping up to a slot `n` ahead of `last_freed`. -/
theorem reap_eq_rounds {n : Nat} (txq : TxQueue) (txDescIdx : Nat) (hn : n < 512)
    (hlast : txq.lastFreed < 512) (hdone : txDescIdx % 512 = (txq.lastFreed + n) % 512) :
    reap txq txDescIdx =
      ((reapRounds n txq txq.lastFreed).1,
        { (reapRounds n txq txq.lastFreed).2 with lastFreed := txDescIdx % 512 }) := by
  simp only [reap, numTxDesc, land_ringMask]
  rw [hdone, reapLoop_eq_rounds txq (by omega) hn hlast]

end Pmd
end SfcCapio
