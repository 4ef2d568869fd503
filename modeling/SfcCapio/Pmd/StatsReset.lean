import SfcCapio.Foundation.Lockstep
import SfcCapio.Pmd.TxDoorbells
import SfcCapio.Pmd.TxReturn
import SfcCapio.Userlib.EventQueue

/-!
# Resetting the statistics of a running port

`eth_stats_reset` clears the six counters of `eth_stats_get`.  It also stores to
`last_freed` and `tx_inflight_cnt`, from which the reaping loop and the ring-full test
go.

The two calls of the data path and the card's writes form a machine whose output is
what a call shows outside the driver.  The machine factors through the state without
its counters.  A reset is therefore invisible if it finds the two other fields as it
leaves them; otherwise some continuation of the run tells it from no reset.
-/

namespace SfcCapio
namespace Pmd

open Hardware Userlib Kernel Foundation

/-! ## The calls -/

/-- The fields of `struct rte_eth_stats` that the driver fills in. -/
structure EthStats where
  ipackets : Nat
  ibytes : Nat
  rxNombuf : Nat
  opackets : Nat
  obytes : Nat
  oerrors : Nat
deriving DecidableEq, Repr

/-- `eth_stats_get`. -/
def ethStatsGet (pi : Internals) : EthStats where
  ipackets := pi.rxq.rxPkts
  ibytes := pi.rxq.rxBytes
  rxNombuf := pi.rxq.rxNombuf
  opackets := pi.txq.txPkts
  obytes := pi.txq.txBytes
  oerrors := pi.txq.txDropped

/-- `eth_stats_reset`; either `memset` covers three counters. -/
def ethStatsReset (pi : Internals) : Internals :=
  { pi with
    rxq := { pi.rxq with rxPkts := 0, rxBytes := 0, rxNombuf := 0 }
    txq :=
      { pi.txq with
        txPkts := 0
        txBytes := 0
        txDropped := 0
        lastFreed := numTxDesc - 1
        txInflightCnt := 0 } }

/-- The tests `tx_inflight_cnt >= SFC7120_NUM_TX_DESC - 16` of a burst; a chained mbuf
is not tested. -/
def ringFullTests : Internals → List Nat → List Bool
  | _, [] => []
  | pi, m :: ms =>
    let test :=
      if (pi.mbufs m).nbSegs ≠ 1 then []
      else [decide (pi.txq.txInflightCnt ≥ numTxDesc - 16)]
    if (txOne pi m).more then test ++ ringFullTests (txOne pi m).pi ms else test

/-- What a call shows outside the driver: the value returned, what became of the mbufs,
the ring-full tests, and the session with the rings and doorbells. -/
structure CallView where
  returned : Nat
  acts : List MbufAct
  fates : List TxFate
  fullTests : List Bool
  session : Session

/-- An mbuf is handed to the caller. -/
def MbufAct.isDeliver : MbufAct → Bool
  | .deliver _ => true
  | _ => false

/-- The machine of the data path. -/
def portStep (pi : Internals) : WireLabel → CallView × Internals
  | .burst mbufs bufs =>
    let out := ethCapioTx { pi with mbufs := mbufs } bufs
    ({ returned := out.1
       acts := []
       fates := out.2.1
       fullTests := ringFullTests { pi with mbufs := mbufs } bufs
       session := out.2.2.session }, out.2.2)
  | .receive nbBufs replies =>
    let out := ethCapioRx pi nbBufs replies
    ({ returned := out.1.countP MbufAct.isDeliver
       acts := out.1
       fates := []
       fullTests := []
       session := out.2.session }, out.2)
  | .card evqRing rxBuffer =>
    let session :=
      { pi.session with
        dev := { pi.session.dev with evqRing := evqRing, rxBuffer := rxBuffer } }
    ({ returned := 0, acts := [], fates := [], fullTests := [], session := session },
      { pi with session := session })

/-! ## The state without its counters -/

def RxQueue.uncounted (rxq : RxQueue) : RxQueue :=
  { rxq with rxPkts := 0, rxBytes := 0, rxNombuf := 0 }

def TxQueue.uncounted (txq : TxQueue) : TxQueue :=
  { txq with txPkts := 0, txBytes := 0, txDropped := 0 }

/-- The driver's state with the counters of `eth_stats_get` cleared. -/
def Internals.uncounted (pi : Internals) : Internals :=
  { pi with rxq := pi.rxq.uncounted, txq := pi.txq.uncounted }

def TxOutcome.uncounted (out : TxOutcome) : TxOutcome := { out with pi := out.pi.uncounted }

def RxOutcome.uncounted (out : RxOutcome) : RxOutcome := { out with pi := out.pi.uncounted }

@[simp] theorem uncounted_mbufs (pi : Internals) : pi.uncounted.mbufs = pi.mbufs := rfl

@[simp] theorem uncounted_session (pi : Internals) : pi.uncounted.session = pi.session := rfl

@[simp] theorem uncounted_txCopyMode (pi : Internals) :
    pi.uncounted.txCopyMode = pi.txCopyMode := rfl

@[simp] theorem uncounted_ops (pi : Internals) : pi.uncounted.ops = pi.ops := rfl

@[simp] theorem uncounted_rxCopy (pi : Internals) : pi.uncounted.rxCopy = pi.rxCopy := rfl

@[simp] theorem uncounted_txInflightCnt (pi : Internals) :
    pi.uncounted.txq.txInflightCnt = pi.txq.txInflightCnt := rfl

variable {pi pi' : Internals}

theorem session_of_uncounted (hsame : pi.uncounted = pi'.uncounted) :
    pi.session = pi'.session := by
  have hsession := congrArg (fun p : Internals => p.session) hsame
  exact hsession

/-- Only the counters of `eth_stats_get` are left out. -/
theorem eq_of_uncounted (hsame : pi.uncounted = pi'.uncounted)
    (hstats : ethStatsGet pi = ethStatsGet pi') : pi = pi' := by
  obtain ⟨copyMode, rxCopy, ops, session, ⟨stash, p₁, p₂, p₃⟩,
    ⟨inflight, last, cnt, q₁, q₂, q₃⟩, mbufs⟩ := pi
  obtain ⟨copyMode', rxCopy', ops', session', ⟨stash', p₁', p₂', p₃'⟩,
    ⟨inflight', last', cnt', q₁', q₂', q₃'⟩, mbufs'⟩ := pi'
  simp_all [Internals.uncounted, RxQueue.uncounted, TxQueue.uncounted, ethStatsGet]

/-! ### Transmit -/

theorem txChained_uncounted (pi : Internals) (m : Nat) :
    (txChained pi.uncounted m).uncounted = (txChained pi m).uncounted := by
  simp only [txChained, uncounted_mbufs, uncounted_session]
  by_cases hfits : (pi.mbufs m).pktLen ≤ txBufferSize
  · by_cases hposted : (txPost pi.session (padFrame (gathered pi.mbufs m))).1 = 0
    · simp only [hfits, hposted, if_true]
      rfl
    · simp only [hfits, hposted, if_true, if_false]
      rfl
  · simp only [hfits, if_false]
    rfl

theorem txCopied_uncounted (pi : Internals) (bytes : List (BitVec 8)) :
    (txCopied pi.uncounted bytes).uncounted = (txCopied pi bytes).uncounted := by
  simp only [txCopied, uncounted_session]
  by_cases hposted : (txPost pi.session bytes).1 = 0
  · simp only [hposted, ne_eq, not_true_eq_false, if_false]
    rfl
  · simp only [hposted, ne_eq, not_false_eq_true, if_true]
    rfl

theorem txInPlace_uncounted (pi : Internals) (m : Nat) :
    (txInPlace pi.uncounted m).uncounted = (txInPlace pi m).uncounted := by
  simp only [txInPlace, uncounted_mbufs, uncounted_session, uncounted_ops]
  by_cases hposted :
      (txPostPaddrNodbl pi.session (pi.ops.dataIova (pi.mbufs m)) (pi.mbufs m).pktLen).1 = 0
  · simp only [hposted, ne_eq, not_true_eq_false, if_false]
    rfl
  · simp only [hposted, ne_eq, not_false_eq_true, if_true]
    rfl

theorem txOne_uncounted (pi : Internals) (m : Nat) :
    (txOne pi.uncounted m).uncounted = (txOne pi m).uncounted := by
  simp only [txOne, uncounted_mbufs, uncounted_txInflightCnt, uncounted_txCopyMode]
  by_cases hsingle : (pi.mbufs m).nbSegs = 1
  · simp only [hsingle, ne_eq, not_true_eq_false, if_false]
    by_cases hfull : pi.txq.txInflightCnt ≥ numTxDesc - 16
    · simp only [hfull, if_true]
      rfl
    · simp only [hfull, if_false]
      by_cases hshort : (pi.mbufs m).pktLen < capioMinTxFrame
      · simp only [hshort, if_true]
        exact txCopied_uncounted pi _
      · simp only [hshort, if_false]
        by_cases hcopy : pi.txCopyMode = true
        · simp only [hcopy, if_true]
          exact txCopied_uncounted pi _
        · simp only [hcopy]
          exact txInPlace_uncounted pi m
  · simp only [hsingle, ne_eq, not_false_eq_true, if_true]
    exact txChained_uncounted pi m

/-- The loop body answers states that differ in the counters alike. -/
theorem txOne_congr (hsame : pi.uncounted = pi'.uncounted) (m : Nat) :
    (txOne pi m).uncounted = (txOne pi' m).uncounted := by
  rw [← txOne_uncounted pi, hsame, txOne_uncounted]

theorem txLoop_congr (hsame : pi.uncounted = pi'.uncounted) (bufs : List Nat) :
    (txLoop pi bufs).1 = (txLoop pi' bufs).1 ∧ (txLoop pi bufs).2.1 = (txLoop pi' bufs).2.1 ∧
      (txLoop pi bufs).2.2.uncounted = (txLoop pi' bufs).2.2.uncounted ∧
      ringFullTests pi bufs = ringFullTests pi' bufs := by
  induction bufs generalizing pi pi' with
  | nil => exact ⟨rfl, rfl, hsame, rfl⟩
  | cons m ms ih =>
    have hone := txOne_congr hsame m
    have hfate := congrArg (fun out : TxOutcome => out.fate) hone
    have hmore := congrArg (fun out : TxOutcome => out.more) hone
    have hpi := congrArg (fun out : TxOutcome => out.pi) hone
    have hmbufs := congrArg (fun p : Internals => p.mbufs) hsame
    have hcnt := congrArg (fun p : Internals => p.txq.txInflightCnt) hsame
    simp only [TxOutcome.uncounted] at hfate hmore hpi
    simp only [uncounted_mbufs, uncounted_txInflightCnt] at hmbufs hcnt
    obtain ⟨hfates, hcount, hlast, htests⟩ := ih hpi
    simp only [txLoop, ringFullTests, hmore, hmbufs, hcnt, hfate, hfates, hcount, htests]
    cases (txOne pi' m).more with
    | true => exact ⟨rfl, rfl, hlast, trivial⟩
    | false => exact ⟨rfl, rfl, hpi, trivial⟩

theorem ethCapioTx_congr (hsame : pi.uncounted = pi'.uncounted) (bufs : List Nat) :
    (ethCapioTx pi bufs).1 = (ethCapioTx pi' bufs).1 ∧
      (ethCapioTx pi bufs).2.1 = (ethCapioTx pi' bufs).2.1 ∧
      (ethCapioTx pi bufs).2.2.uncounted = (ethCapioTx pi' bufs).2.2.uncounted := by
  obtain ⟨hfates, hcount, hlast, -⟩ := txLoop_congr hsame bufs
  refine ⟨hcount, hfates, ?_⟩
  simp only [ethCapioTx, hcount]
  split
  · exact congrArg (fun p => { p with session := txFlush p.session }) hlast
  · exact hlast

/-! ### Receive -/

theorem reapLoop_uncounted (fuel : Nat) (txq : TxQueue) (f done : Nat) :
    reapLoop fuel txq.uncounted f done =
      ((reapLoop fuel txq f done).1, (reapLoop fuel txq f done).2.uncounted) := by
  induction fuel generalizing txq f with
  | zero => rfl
  | succ fuel ih =>
    rw [reapLoop, reapLoop]
    by_cases hdone : f = done
    · rw [if_pos hdone, if_pos hdone]
    · rw [if_neg hdone, if_neg hdone]
      have hrest := ih (reapSlot txq ((f + 1) &&& (numTxDesc - 1))) ((f + 1) &&& (numTxDesc - 1))
      have hslot : reapSlot txq.uncounted ((f + 1) &&& (numTxDesc - 1)) =
          (reapSlot txq ((f + 1) &&& (numTxDesc - 1))).uncounted := rfl
      simp only [hslot, hrest]
      rfl

theorem reap_uncounted (txq : TxQueue) (txDescIdx : Nat) :
    reap txq.uncounted txDescIdx = ((reap txq txDescIdx).1, (reap txq txDescIdx).2.uncounted) := by
  have hloop := reapLoop_uncounted numTxDesc txq txq.lastFreed (txDescIdx &&& (numTxDesc - 1))
  have hlast : txq.uncounted.lastFreed = txq.lastFreed := rfl
  simp only [reap, hlast, hloop]
  rfl

theorem rxNoReplacement_uncounted (pi : Internals) (cookie : Option Nat) :
    (rxNoReplacement pi.uncounted cookie).uncounted = (rxNoReplacement pi cookie).uncounted := by
  cases cookie <;> rfl

theorem rxCopyOut_uncounted (pi : Internals) (pk : Peek) (m repl : Nat) :
    (rxCopyOut pi.uncounted pk m repl).uncounted = (rxCopyOut pi pk m repl).uncounted := by
  simp only [rxCopyOut, uncounted_rxCopy]
  by_cases hcopy : pi.rxCopy = true
  · simp only [hcopy, if_true]
    rfl
  · simp only [hcopy]
    rfl

theorem capioMbufGet_uncounted (pi : Internals) (reply : PoolReply) :
    capioMbufGet pi.uncounted reply =
      ((capioMbufGet pi reply).1, (capioMbufGet pi reply).2.1,
        (capioMbufGet pi reply).2.2.uncounted) := rfl

theorem after_uncounted (out : RxOutcome) (pre : List MbufAct) :
    (out.after pre).uncounted = out.uncounted.after pre := rfl

theorem rxFromLibrary_uncounted (pi : Internals) (rxBytes m : Nat) (reply : PoolReply) :
    (rxFromLibrary pi.uncounted rxBytes m reply).uncounted =
      (rxFromLibrary pi rxBytes m reply).uncounted := by
  simp only [rxFromLibrary, uncounted_session]
  rcases rxPeek pi.session rxBytes with ⟨_ | pk, session⟩
  · rfl
  · have hpeeked : ({ pi.uncounted with session := session } : Internals) =
        ({ pi with session := session } : Internals).uncounted := rfl
    simp only [hpeeked, capioMbufGet_uncounted]
    by_cases hempty : pk.len = 0
    · simp only [hempty, if_true]
      rfl
    · simp only [hempty, if_false]
      cases (capioMbufGet { pi with session := session } reply).1 with
      | none => rfl
      | some repl =>
        simp only [after_uncounted]
        exact congrArg (RxOutcome.after · _) (rxCopyOut_uncounted _ pk m repl)

theorem rxFromCookie_uncounted (pi : Internals) (len m repl : Nat) :
    (rxFromCookie pi.uncounted len m repl).uncounted = (rxFromCookie pi len m repl).uncounted := by
  simp only [rxFromCookie]
  by_cases hempty : len = 0
  · simp only [hempty, if_true]
    rfl
  · simp only [hempty, if_false]
    rfl

theorem rxEvent_uncounted (pi : Internals) (rxBytes : Nat) (reply₁ reply₂ : PoolReply) :
    (rxEvent pi.uncounted rxBytes reply₁ reply₂).uncounted =
      (rxEvent pi rxBytes reply₁ reply₂).uncounted := by
  simp only [rxEvent, uncounted_session]
  rcases rxPeekExt pi.session rxBytes with ⟨_ | ⟨cookie, len⟩, session⟩
  · rfl
  · have hpeeked : ({ pi.uncounted with session := session } : Internals) =
        ({ pi with session := session } : Internals).uncounted := rfl
    simp only [hpeeked, capioMbufGet_uncounted, after_uncounted]
    refine congrArg (RxOutcome.after · _) ?_
    cases (capioMbufGet { pi with session := session } reply₁).1 with
    | none => exact rxNoReplacement_uncounted _ cookie
    | some repl =>
      cases hcopy : pi.rxCopy with
      | true =>
        simp only [uncounted_rxCopy, hcopy, if_true]
        exact rxFromLibrary_uncounted _ rxBytes repl reply₂
      | false =>
        simp only [uncounted_rxCopy, hcopy, Bool.false_eq_true, if_false]
        cases cookie with
        | none => exact rxFromLibrary_uncounted _ rxBytes repl reply₂
        | some m => exact rxFromCookie_uncounted _ len m repl

theorem pmdEvent_uncounted (pi : Internals) (ev : Ev) (reply₁ reply₂ : PoolReply) :
    (pmdEvent pi.uncounted ev reply₁ reply₂).uncounted =
      (pmdEvent pi ev reply₁ reply₂).uncounted := by
  unfold pmdEvent
  cases ev.type with
  | rx => exact rxEvent_uncounted pi ev.rxBytes reply₁ reply₂
  | tx =>
    have hreap : reap pi.uncounted.txq ev.txDescIdx =
        ((reap pi.txq ev.txDescIdx).1, (reap pi.txq ev.txDescIdx).2.uncounted) :=
      reap_uncounted pi.txq ev.txDescIdx
    simp only [hreap]
    rfl
  | other => rfl

theorem eventLoop_congr (replies : Nat → PoolReply × PoolReply)
    (hsame : pi.uncounted = pi'.uncounted) (i : Nat) (evs : List Ev) :
    (eventLoop replies i pi evs).1 = (eventLoop replies i pi' evs).1 ∧
      (eventLoop replies i pi evs).2.uncounted = (eventLoop replies i pi' evs).2.uncounted := by
  induction evs generalizing pi pi' i with
  | nil => exact ⟨rfl, hsame⟩
  | cons ev evs ih =>
    have hone : (pmdEvent pi ev (replies i).1 (replies i).2).uncounted =
        (pmdEvent pi' ev (replies i).1 (replies i).2).uncounted := by
      rw [← pmdEvent_uncounted pi, hsame, pmdEvent_uncounted]
    have hmore := congrArg RxOutcome.more hone
    have hacts := congrArg RxOutcome.acts hone
    have hpi := congrArg RxOutcome.pi hone
    simp only [RxOutcome.uncounted] at hmore hacts hpi
    obtain ⟨hlog, hlast⟩ := ih hpi (i + 1)
    simp only [eventLoop, hmore, hacts, hlog]
    split
    · exact ⟨rfl, hlast⟩
    · exact ⟨rfl, hpi⟩

theorem ethCapioRx_congr (hsame : pi.uncounted = pi'.uncounted) (nbBufs : Nat)
    (replies : Nat → PoolReply × PoolReply) :
    (ethCapioRx pi nbBufs replies).1 = (ethCapioRx pi' nbBufs replies).1 ∧
      (ethCapioRx pi nbBufs replies).2.uncounted = (ethCapioRx pi' nbBufs replies).2.uncounted := by
  have hsession : pi.session = pi'.session := session_of_uncounted hsame
  have hpolled : ∀ session : Session,
      Internals.uncounted { pi with session := session } =
        Internals.uncounted { pi' with session := session } := fun session =>
    congrArg (fun p : Internals => { p with session := session }) hsame
  simp only [ethCapioRx, hsession]
  split
  · exact ⟨rfl, hpolled _⟩
  · exact ⟨rfl, hpolled _⟩
  · rename_i evs _ _
    obtain ⟨hlog, hlast⟩ := eventLoop_congr replies
      (hpolled (poll pi'.session (min nbBufs capioMaxBurst : Nat)).2) 0 evs
    exact ⟨hlog, congrArg (fun p : Internals => { p with session := rxFlush p.session }) hlast⟩

/-- The machine factors through the state without its counters. -/
theorem portStep_factors : FactorsThrough portStep Internals.uncounted := by
  intro pi pi' l hsame
  cases l with
  | burst mbufs bufs =>
    have hhanded : Internals.uncounted { pi with mbufs := mbufs } =
        Internals.uncounted { pi' with mbufs := mbufs } :=
      congrArg (fun p : Internals => { p with mbufs := mbufs }) hsame
    obtain ⟨hcount, hfates, hlast⟩ := ethCapioTx_congr hhanded bufs
    obtain ⟨-, -, -, htests⟩ := txLoop_congr hhanded bufs
    have hsession := session_of_uncounted hlast
    refine ⟨?_, hlast⟩
    simp only [portStep, hcount, hfates, htests, hsession]
  | receive nbBufs replies =>
    obtain ⟨hlog, hlast⟩ := ethCapioRx_congr hsame nbBufs replies
    have hsession := session_of_uncounted hlast
    refine ⟨?_, hlast⟩
    simp only [portStep, hlog, hsession]
  | card evqRing rxBuffer =>
    have hsession : pi.session = pi'.session := session_of_uncounted hsame
    refine ⟨?_, ?_⟩
    · simp only [portStep, hsession]
    · simp only [portStep, hsession]
      exact congrArg (fun p : Internals =>
        { p with
          session :=
            { pi'.session with
              dev := { pi'.session.dev with evqRing := evqRing, rxBuffer := rxBuffer } } }) hsame

/-! ## A reset that is seen -/

/-- A probed port in a run: its regions are mapped and `last_freed` is a ring slot. -/
structure PortLive (pi : Internals) : Prop where
  ready : pi.session.sfc.Ready
  lastFreedLt : pi.txq.lastFreed < 512

theorem lastFreed_reap_lt (txq : TxQueue) (txDescIdx : Nat) :
    (reap txq txDescIdx).2.lastFreed < 512 :=
  land_ringMask_lt txDescIdx

theorem lastFreed_pmdEvent_lt (ev : Ev) (reply₁ reply₂ : PoolReply)
    (hlast : pi.txq.lastFreed < 512) :
    (pmdEvent pi ev reply₁ reply₂).pi.txq.lastFreed < 512 := by
  unfold pmdEvent
  split
  · rw [(keepsTx_rxEvent ..).txq]
    exact hlast
  · exact lastFreed_reap_lt pi.txq ev.txDescIdx
  · exact hlast

theorem lastFreed_eventLoop_lt (replies : Nat → PoolReply × PoolReply) (i : Nat) (evs : List Ev)
    (hlast : pi.txq.lastFreed < 512) :
    (eventLoop replies i pi evs).2.txq.lastFreed < 512 := by
  induction evs generalizing pi i with
  | nil => exact hlast
  | cons ev evs ih =>
    have hone := lastFreed_pmdEvent_lt ev (replies i).1 (replies i).2 hlast
    simp only [eventLoop]
    split
    · exact ih (i + 1) hone
    · exact hone

theorem TxCase.lastFreed {m : Nat} {view : TxView} {fate : TxFate}
    (hcase : TxCase pi m view fate) : view.lastFreed = pi.txq.lastFreed := by
  cases hcase <;> rfl

theorem PortLive.burst (hlive : PortLive pi) (bufs : List Nat) :
    PortLive (ethCapioTx pi bufs).2.2 := by
  have hloop : PortLive (txLoop pi bufs).2.2 := by
    have hframe : ∀ p (_ : List TxFate) m (_ : List Nat), PortLive p → PortLive (txOne p m).pi := by
      intro p _ m _ hp
      obtain ⟨hframe, hcase⟩ := txOne_case p m
      exact ⟨hframe.ready hp.ready, lt_of_eq_of_lt hcase.lastFreed hp.lastFreedLt⟩
    exact (txLoop_invariant (fun _ p _ => PortLive p) hframe bufs pi [] hlive).elim fun _ h => h
  simp only [ethCapioTx]
  split
  · refine ⟨?_, hloop.lastFreedLt⟩
    rw [txFlush_sfc]
    exact hloop.ready
  · exact hloop

theorem portLive_step (pi : Internals) (l : WireLabel) (hlive : PortLive pi) :
    PortLive (portStep pi l).2 := by
  cases l with
  | burst mbufs bufs =>
    have hhanded : PortLive { pi with mbufs := mbufs } := { hlive with }
    exact hhanded.burst bufs
  | receive nbBufs replies =>
    refine ⟨(sameTx_ethCapioRx pi nbBufs replies).ready hlive.ready, ?_⟩
    simp only [portStep, ethCapioRx]
    split
    · exact hlive.lastFreedLt
    · exact hlive.lastFreedLt
    · exact lastFreed_eventLoop_lt replies 0 _ hlive.lastFreedLt
  | card evqRing rxBuffer => exact { hlive with }

/-- The driver when every mbuf holds a plain frame. -/
def Internals.plain (pi : Internals) : Internals := { pi with mbufs := fun _ => plainFrame }

/-- A burst of `n` plain frames, in the mbufs from `first` on. -/
def plainBurst (first n : Nat) : WireLabel :=
  .burst (fun _ => plainFrame) (List.range' first n)

theorem accepted_plain (hlive : PortLive pi) (m : Nat) :
    Accepted pi.plain m := by
  have hready := hlive.ready
  have hring : pi.plain.session.sfc.txDescRing = true := hready.txDescRing
  have hcopy : CopyMapped pi.plain.session.sfc := by
    refine ⟨hready.txBuffer, ?_⟩
    simp [Internals.plain, SfcIf.txMapped, hready.txDescRing, hready.mmioSlices,
      hready.mmioSlicesLen, sliceTxDescDbl, sliceCount]
  have hlen : (pi.plain.mbufs m).pktLen = 60 := rfl
  have hsegs : (pi.plain.mbufs m).nbSegs = 1 := rfl
  simp [Accepted, hlen, hsegs, hcopy, hring, capioMinTxFrame, txBufferSize]

theorem singles_plain (pi : Internals) (bufs : List Nat) :
    singles pi.plain bufs = bufs.length := by
  have hsingle : ∀ m, Single pi.plain m := fun _ => rfl
  simp [singles, hsingle]

/-- A burst of plain frames stops early exactly if the ring has no room for it. -/
theorem getsThrough_plain (hlive : PortLive pi) (first n : Nat) :
    GetsThrough pi.plain (List.range' first n) ↔ n = 0 ∨ pi.txq.txInflightCnt + n ≤ 496 := by
  rw [GetsThrough, singles_plain, List.length_range']
  have hcnt : pi.plain.txq.txInflightCnt = pi.txq.txInflightCnt := rfl
  rw [hcnt]
  constructor
  · exact fun h => h.2
  · exact fun h => ⟨fun m _ _ => accepted_plain hlive m, h⟩

theorem returned_plainBurst (hlive : PortLive pi) (first n : Nat) :
    (portStep pi (plainBurst first n)).1.returned = n ↔
      n = 0 ∨ pi.txq.txInflightCnt + n ≤ 496 := by
  have hall := txLoop_all_iff pi.plain (List.range' first n)
  rw [List.length_range'] at hall
  exact hall.trans (getsThrough_plain hlive first n)

theorem txLoop_counted {bufs : List Nat} (hall : GetsThrough pi bufs) :
    (txLoop pi bufs).2.2.txq.txInflightCnt = pi.txq.txInflightCnt + singles pi bufs ∧
      (txLoop pi bufs).2.2.txq.lastFreed = pi.txq.lastFreed := by
  induction bufs generalizing pi with
  | nil => exact ⟨rfl, rfl⟩
  | cons m ms ih =>
    rcases txOne_goesOn_or_stops pi m with hgo | hstop
    · have hcnt : (txOne pi m).pi.txq.txInflightCnt =
          pi.txq.txInflightCnt + if Single pi m then 1 else 0 := congrArg TxView.cnt hgo.view
      have hlast : (txOne pi m).pi.txq.lastFreed = pi.txq.lastFreed :=
        congrArg TxView.lastFreed hgo.view
      obtain ⟨hcounted, hkept⟩ := ih ((getsThrough_cons_of_goesOn hgo ms).mp hall)
      rw [txLoop_of_goesOn hgo]
      refine ⟨?_, hkept.trans hlast⟩
      rw [hcounted, hcnt, (sameBranches_txOne pi m).singles, singles_cons]
      omega
    · exact absurd hall (not_getsThrough_of_stops hstop ms)

theorem state_plainBurst (hlive : PortLive pi) (first : Nat) {n : Nat}
    (hroom : pi.txq.txInflightCnt + n ≤ 496) :
    (portStep pi (plainBurst first n)).2.txq.txInflightCnt = pi.txq.txInflightCnt + n ∧
      (portStep pi (plainBurst first n)).2.txq.lastFreed = pi.txq.lastFreed := by
  have hloop := txLoop_counted ((getsThrough_plain hlive first n).mpr (Or.inr hroom))
  rw [singles_plain, List.length_range'] at hloop
  have htxq : (portStep pi (plainBurst first n)).2.txq =
      (txLoop pi.plain (List.range' first n)).2.2.txq := by
    show (ethCapioTx pi.plain (List.range' first n)).2.2.txq = _
    simp only [ethCapioTx]
    split <;> rfl
  rw [htxq]
  exact hloop

/-- A completion event for the descriptor index `idx`. -/
def txWord (idx : Nat) : BitVec 64 := BitVec.ofNat 64 (2 * 2 ^ 60 + idx)

theorem toNat_txWord (hidx : idx < 512) : (txWord idx).toNat = 2 * 2 ^ 60 + idx := by
  simp only [txWord, BitVec.toNat_ofNat]
  omega

theorem evCode_txWord (hidx : idx < 512) : evCode (txWord idx) = 2 := by
  rw [evCode_eq, BitVec.extractLsb'_toNat, toNat_txWord hidx, Nat.shiftRight_eq_div_pow]
  omega

theorem evTxDescIdx_txWord (hidx : idx < 512) : evTxDescIdx (txWord idx) = idx := by
  rw [evTxDescIdx_eq, BitVec.extractLsb'_toNat, toNat_txWord hidx, Nat.shiftRight_eq_div_pow]
  omega

theorem decodeEvent_txWord (hidx : idx < 512) :
    decodeEvent (txWord idx) =
      { type := .tx, txDescIdx := idx, rxBytes := 0, raw := txWord idx } := by
  simp [decodeEvent, evCode_txWord hidx, evTxDescIdx_txWord hidx]

/-- The card fills its queue with one word. -/
def cardWrites (w : BitVec 64) : WireLabel := .card (fun _ => w) (fun _ => 0#8)

/-- A receive call that finds the pool empty. -/
def receiveOne : WireLabel := .receive 1 fun _ => (⟨none, none⟩, ⟨none, none⟩)

/-- A call that reads one completion reaps up to its index. -/
theorem txq_ethCapioRx {nbBufs : Nat} {ev : Ev} (replies : Nat → PoolReply × PoolReply)
    (hpoll : (poll pi.session (min nbBufs capioMaxBurst : Nat)).1 = some [ev])
    (htype : ev.type = .tx) :
    (ethCapioRx pi nbBufs replies).2.txq = (reap pi.txq ev.txDescIdx).2 := by
  simp only [ethCapioRx, hpoll, eventLoop, pmdEvent, htype, if_true]

theorem txq_receiveOne (hlive : PortLive pi) (hidx : idx < 512) :
    (portStep (portStep pi (cardWrites (txWord idx))).2 receiveOne).2.txq =
      (reap pi.txq idx).2 := by
  have hword := decodeEvent_txWord hidx
  have hvisible := not_slotVacant_of_tx (evCode_txWord hidx)
  have hready : (portStep pi (cardWrites (txWord idx))).2.session.sfc.Ready := hlive.ready
  have hpoll : (poll (portStep pi (cardWrites (txWord idx))).2.session
      (min 1 capioMaxBurst : Nat)).1 = some [decodeEvent (txWord idx)] := by
    have hone : min 1 capioMaxBurst = 1 := by decide
    rw [hone, poll_of_ready hready (by decide)]
    simp [portStep, cardWrites, pollLoop, pollIter, evqTake, hvisible]
  have hreap := txq_ethCapioRx (fun _ => (⟨none, none⟩, ⟨none, none⟩)) hpoll (by rw [hword])
  rw [hword] at hreap
  exact hreap

/-- The counter after the reaping loop, which starts behind `last_freed`. -/
theorem txInflightCnt_reap {txq : TxQueue} (hlast : txq.lastFreed < 512) (hidx : idx < 512) :
    (reap txq idx).2.txInflightCnt = txq.txInflightCnt - (idx + 512 - txq.lastFreed) % 512 := by
  have hrounds := reap_eq_rounds (n := (idx + 512 - txq.lastFreed) % 512) txq idx
    (Nat.mod_lt _ (by decide)) hlast (by omega)
  rw [hrounds]
  exact reapRounds_txInflightCnt _ _ _

/-- A run that fills the ring, reports the slot `idx` and sends one more frame. -/
def fillAndReport (idx : Nat) : List WireLabel :=
  [plainBurst 0 496, cardWrites (txWord idx), receiveOne, plainBurst 496 1]

/-- The last burst of that run gets through exactly if the report takes a slot off the
counter. -/
theorem returned_fillAndReport (hlive : PortLive pi) (hcnt : pi.txq.txInflightCnt = 0)
    (hidx : idx < 512) :
    ∃ first second third last, outputs portStep pi (fillAndReport idx) =
        [first, second, third, last] ∧
      (last.returned = 1 ↔ idx ≠ pi.txq.lastFreed) := by
  refine ⟨_, _, _, _, rfl, ?_⟩
  have hfull := portLive_step pi (plainBurst 0 496) hlive
  have htold := portLive_step _ (cardWrites (txWord idx)) hfull
  have hreaped := portLive_step _ receiveOne htold
  obtain ⟨hcounted, hlast⟩ := state_plainBurst hlive 0 (n := 496) (by omega)
  have hcnt' := txInflightCnt_reap hfull.lastFreedLt hidx
  rw [← txq_receiveOne hfull hidx, hcounted, hlast, hcnt] at hcnt'
  have hlt := hlive.lastFreedLt
  refine (returned_plainBurst hreaped 496 1).trans ?_
  rw [hcnt']
  omega

/-- With the ring counted full, a burst of plain frames returns 0. -/
theorem returned_of_full (hfull : 496 ≤ pi.txq.txInflightCnt) (first n : Nat) :
    (portStep pi (plainBurst first n)).1.returned = 0 := by
  show (txLoop pi.plain (List.range' first n)).2.1 = 0
  cases n with
  | zero => rfl
  | succ n =>
    rw [List.range'_succ]
    rcases txOne_goesOn_or_stops pi.plain first with hgo | hstop
    · have hroom : pi.txq.txInflightCnt < 496 := (hgo.allowed rfl).1
      omega
    · rw [txLoop_of_stops hstop]

/-! ## The reset -/

/-- No continuation of the run tells the reset from no reset. -/
def ResetUnseen (pi : Internals) : Prop :=
  ∀ after, outputs portStep (ethStatsReset pi) after = outputs portStep pi after

theorem uncounted_ethStatsReset (hlast : pi.txq.lastFreed = 511)
    (hcnt : pi.txq.txInflightCnt = 0) : (ethStatsReset pi).uncounted = pi.uncounted := by
  have htxq : (ethStatsReset pi).txq.uncounted = pi.txq.uncounted := by
    simp only [ethStatsReset, TxQueue.uncounted, hlast, hcnt, numTxDesc]
  exact congrArg (fun txq => { pi.uncounted with txq := txq }) htxq

theorem clear_of_resetUnseen (hlive : PortLive pi) (hunseen : ResetUnseen pi) :
    pi.txq.lastFreed = 511 ∧ pi.txq.txInflightCnt = 0 := by
  have hreset : PortLive (ethStatsReset pi) := ⟨hlive.ready, (by decide : 511 < 512)⟩
  -- a full burst after the reset gets through
  have hcnt : pi.txq.txInflightCnt = 0 := by
    have hview := (List.cons.inj (hunseen [plainBurst 0 496])).1
    have hall := (returned_plainBurst hreset 0 496).mpr (Or.inr (Nat.le_refl 496))
    rw [hview] at hall
    have hroom := (returned_plainBurst hlive 0 496).mp hall
    omega
  refine ⟨?_, hcnt⟩
  -- a report of `last_freed` itself reaps nothing
  by_contra hne
  obtain ⟨a, b, c, last, houts, hlast⟩ := returned_fillAndReport hlive hcnt hlive.lastFreedLt
  obtain ⟨a', b', c', last', houts', hlast'⟩ :=
    returned_fillAndReport hreset rfl hlive.lastFreedLt
  have hviews := hunseen (fillAndReport pi.txq.lastFreed)
  rw [houts, houts'] at hviews
  have hsame : last' = last := by
    simp only [List.cons.injEq, and_true] at hviews
    exact hviews.2.2.2
  have hthrough : last'.returned = 1 := hlast'.mpr hne
  rw [hsame] at hthrough
  exact hlast.mp hthrough rfl

section Resets

variable (sc : Softc) (rxWindow : Option (BitVec 32)) (rxCopy : Bool) (ops : MbufOps)
  (mbufs : Nat → RteMbuf)

/-- The port behind a run from its creation. -/
def portAfter (before : List WireLabel) : Internals :=
  stateAfter portStep (ethDevCapioCreate sc rxWindow rxCopy ops mbufs) before

theorem portLive_portAfter (before : List WireLabel) :
    PortLive (portAfter sc rxWindow rxCopy ops mbufs before) := by
  refine stateAfter_invariant portLive_step ?_ before
  exact ⟨⟨rfl, rfl, rfl, rfl, rfl, rfl, rfl⟩, (by decide : 0 < 512)⟩

/-- A reset inserted behind any run of the port is invisible to every continuation exactly
if it finds `last_freed` at 511 and no frame counted in flight.  Then the states stay equal
up to the counters of `eth_stats_get`. -/
theorem stats_reset_unseen_iff (before : List WireLabel) :
    (ResetUnseen (portAfter sc rxWindow rxCopy ops mbufs before) ↔
      (portAfter sc rxWindow rxCopy ops mbufs before).txq.lastFreed = numTxDesc - 1 ∧
        (portAfter sc rxWindow rxCopy ops mbufs before).txq.txInflightCnt = 0) ∧
    (ResetUnseen (portAfter sc rxWindow rxCopy ops mbufs before) → ∀ after,
      (stateAfter portStep
          (ethStatsReset (portAfter sc rxWindow rxCopy ops mbufs before)) after).uncounted =
        (portAfter sc rxWindow rxCopy ops mbufs (before ++ after)).uncounted) := by
  have hclear := clear_of_resetUnseen (portLive_portAfter sc rxWindow rxCopy ops mbufs before)
  refine ⟨⟨hclear, ?_⟩, ?_⟩
  · rintro ⟨hlast, hcnt⟩ after
    exact (portStep_factors.run (uncounted_ethStatsReset hlast hcnt) after).1
  · intro hunseen after
    obtain ⟨hlast, hcnt⟩ := hclear hunseen
    rw [show portAfter sc rxWindow rxCopy ops mbufs (before ++ after) =
      stateAfter portStep (portAfter sc rxWindow rxCopy ops mbufs before) after from
      stateAfter_append ..]
    exact (portStep_factors.run (uncounted_ethStatsReset hlast hcnt) after).2

end Resets

/-- With a full ring the reset lets the next frame in. -/
theorem reset_of_full {pi : Internals} (hlive : PortLive pi) (hcnt : pi.txq.txInflightCnt = 496) :
    (portStep pi (plainBurst 496 1)).1.returned = 0 ∧
      (portStep (ethStatsReset pi) (plainBurst 496 1)).1.returned = 1 ∧ ¬ ResetUnseen pi := by
  have hreset : PortLive (ethStatsReset pi) := ⟨hlive.ready, (by decide : 511 < 512)⟩
  refine ⟨returned_of_full (Nat.le_of_eq hcnt.symm) 496 1,
    (returned_plainBurst hreset 496 1).mpr (Or.inr (by decide : 0 + 1 ≤ 496)), ?_⟩
  intro hunseen
  have hclear := (clear_of_resetUnseen hlive hunseen).2
  omega

/-- The port created right after attach. -/
def newPort : Internals := portAfter rxIoctlAfterAttach.sc none false sampleOps samplePool []

/-- That port with 496 frames in flight. -/
def fullPort : Internals :=
  portAfter rxIoctlAfterAttach.sc none false sampleOps samplePool [plainBurst 0 496]

theorem txInflightCnt_fullPort : fullPort.txq.txInflightCnt = 496 := by
  have hlive : PortLive newPort := portLive_portAfter _ _ _ _ _ []
  have hempty : newPort.txq.txInflightCnt = 0 := rfl
  have hburst := (state_plainBurst hlive 0 (n := 496) (by omega)).1
  have hstep : ∀ l, portAfter rxIoctlAfterAttach.sc none false sampleOps samplePool [l] =
      (portStep newPort l).2 := fun _ => rfl
  rw [fullPort, hstep, hburst, hempty]

/-- Without a reset the next burst finds the ring full; after a reset it is posted. -/
theorem stats_reset_overfills_ring :
    fullPort.txq.txInflightCnt = 496 ∧ (portStep fullPort (plainBurst 496 1)).1.returned = 0 ∧
      (portStep (ethStatsReset fullPort) (plainBurst 496 1)).1.returned = 1 ∧
      ¬ ResetUnseen fullPort :=
  ⟨txInflightCnt_fullPort,
    reset_of_full (portLive_portAfter _ _ _ _ _ _) txInflightCnt_fullPort⟩

end Pmd
end SfcCapio
