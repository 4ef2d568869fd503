import SfcCapio.Pmd.Queues

/-!
# `eth_capio_tx`

One iteration of the burst loop is `txOne`; it is cut into the four posting
branches of the source.  Each frame meets one of three fates: it is dropped, it
is copied into a library slot and freed, or it is posted in place and held in
`inflight[]` until its completion.  A `held` fate also records what `inflight[]`
held before, so that an overwritten entry shows in the result.

The chained branch stands before the check of `tx_inflight_cnt` and does not
count its descriptor; the other three come behind it and count theirs.
-/

namespace SfcCapio
namespace Pmd

open Hardware Userlib

/-- What a burst did with one frame. -/
inductive TxFate
  /-- Freed, no descriptor written. -/
  | dropped
  /-- Its bytes were posted from a library slot; freed. -/
  | copied
  /-- Posted in place and recorded in `inflight[slot]`, which held `prev`. -/
  | held (m slot : Nat) (prev : Option Nat)
deriving DecidableEq, Repr

namespace TxFate

/-- Descriptors written for the frame, with the mbuf each one reads from. -/
def descriptors : TxFate → List (Option Nat)
  | dropped => []
  | copied => [none]
  | held m _ _ => [some m]

/-- No live `inflight[]` entry was overwritten. -/
def Keeps : TxFate → Prop
  | held _ _ prev => prev = none
  | _ => True

end TxFate

/-- The result of one iteration; `more` is false when the loop breaks. -/
structure TxOutcome where
  fate : TxFate
  more : Bool
  pi : Internals

namespace Internals

/-- Counters of a frame that was dropped. -/
def txDrop (pi : Internals) : Internals :=
  { pi with txq := { pi.txq with txDropped := pi.txq.txDropped + 1 } }

/-- Counters of a frame of `n` bytes that was posted. -/
def txCount (pi : Internals) (session : Session) (n : Nat) : Internals :=
  { pi with
    session := session
    txq := { pi.txq with txPkts := pi.txq.txPkts + 1, txBytes := pi.txq.txBytes + n } }

/-- `txq->tx_inflight_cnt++`. -/
def txInflight (pi : Internals) : Internals :=
  { pi with txq := { pi.txq with txInflightCnt := pi.txq.txInflightCnt + 1 } }

end Internals

/-- The gathering loop, which follows `next` to `NULL`.  The first argument only bounds
the recursion. -/
def gather (mbufs : Nat → RteMbuf) : Nat → Option Nat → List (BitVec 8)
  | 0, _ => []
  | _ + 1, none => []
  | n + 1, some seg =>
    (mbufs seg).bytes (mbufs seg).dataLen ++ gather mbufs n (mbufs seg).next

/-- The longest chain: `nb_segs` has 16 bits. -/
abbrev maxSegs : Nat := 2 ^ 16 - 1

/-- All that the loop gathers from the mbuf `m` on.  `nb_segs` is not looked at. -/
def gathered (mbufs : Nat → RteMbuf) (m : Nat) : List (BitVec 8) :=
  gather mbufs maxSegs (some m)

/-- Zero padding up to `CAPIO_MIN_TX_FRAME`. -/
def padFrame (bytes : List (BitVec 8)) : List (BitVec 8) :=
  bytes ++ List.replicate (capioMinTxFrame - bytes.length) 0#8

@[simp] theorem length_bytes (b : RteMbuf) (n : Nat) : (b.bytes n).length = n := by
  simp [RteMbuf.bytes]

theorem length_padFrame (bytes : List (BitVec 8)) :
    (padFrame bytes).length = max bytes.length capioMinTxFrame := by
  simp only [padFrame, List.length_append, List.length_replicate]
  omega

/-- The branch for a chained mbuf: linearise and post a copy. -/
def txChained (pi : Internals) (m : Nat) : TxOutcome :=
  if (pi.mbufs m).pktLen ≤ txBufferSize then
    let linbuf := padFrame (gathered pi.mbufs m)
    let out := txPost pi.session linbuf
    if out.1 = 0 then
      { fate := .copied, more := true, pi := pi.txCount out.2 linbuf.length }
    else { fate := .dropped, more := true, pi := pi.txDrop }
  else { fate := .dropped, more := true, pi := pi.txDrop }

/-- The two branches that post a copy of a single segment. -/
def txCopied (pi : Internals) (bytes : List (BitVec 8)) : TxOutcome :=
  let out := txPost pi.session bytes
  if out.1 ≠ 0 then { fate := .dropped, more := false, pi := pi.txDrop }
  else
    { fate := .copied, more := true, pi := (pi.txCount out.2 bytes.length).txInflight }

/-- The zero-copy branch: post in place, record at the slot before the advance. -/
def txInPlace (pi : Internals) (m : Nat) : TxOutcome :=
  let txSlot := pi.session.sfc.txHead &&& (numTxDesc - 1)
  let len := (pi.mbufs m).pktLen
  let out := txPostPaddrNodbl pi.session (pi.ops.dataIova (pi.mbufs m)) len
  if out.1 ≠ 0 then { fate := .dropped, more := false, pi := pi.txDrop }
  else
    let counted := (pi.txCount out.2 len).txInflight
    { fate := .held m txSlot (pi.txq.inflight txSlot)
      more := true
      pi :=
        { counted with
          txq :=
            { counted.txq with
              inflight := Function.update pi.txq.inflight txSlot (some m) } } }

/-- One iteration of the loop of `eth_capio_tx`. -/
def txOne (pi : Internals) (m : Nat) : TxOutcome :=
  if (pi.mbufs m).nbSegs ≠ 1 then txChained pi m
  else if pi.txq.txInflightCnt ≥ numTxDesc - 16 then
    { fate := .dropped, more := false, pi := pi.txDrop }
  else if (pi.mbufs m).pktLen < capioMinTxFrame then
    txCopied pi (padFrame ((pi.mbufs m).bytes (pi.mbufs m).pktLen))
  else if pi.txCopyMode then txCopied pi ((pi.mbufs m).bytes (pi.mbufs m).pktLen)
  else txInPlace pi m

/-- The loop: the fates of the frames looked at, the index `i` it ends with and
the state. -/
def txLoop : Internals → List Nat → List TxFate × Nat × Internals
  | pi, [] => ([], 0, pi)
  | pi, m :: ms =>
    let out := txOne pi m
    if out.more then
      let rest := txLoop out.pi ms
      (out.fate :: rest.1, rest.2.1 + 1, rest.2.2)
    else ([out.fate], 0, out.pi)

/-- `eth_capio_tx`: the value returned, the fates and the state. -/
def ethCapioTx (pi : Internals) (bufs : List Nat) : Nat × List TxFate × Internals :=
  let out := txLoop pi bufs
  (out.2.1, out.1,
    if out.2.1 > 0 then { out.2.2 with session := txFlush out.2.2.session } else out.2.2)

/-! ## What one iteration can do -/

/-- The part of the state the transmit path goes by: the next ring slot, the
mbufs in flight, the last slot freed and the counter. -/
structure TxView where
  head : Nat
  inflight : Nat → Option Nat
  lastFreed : Nat
  cnt : Nat

/-- The view of the driver's state. -/
def Internals.txView (pi : Internals) : TxView where
  head := pi.session.sfc.txHead
  inflight := pi.txq.inflight
  lastFreed := pi.txq.lastFreed
  cnt := pi.txq.txInflightCnt

/-- One descriptor written, not counted. -/
def TxView.written (v : TxView) : TxView := { v with head := (v.head + 1) % 512 }

/-- One descriptor written and counted. -/
def TxView.counted (v : TxView) : TxView :=
  { v with head := (v.head + 1) % 512, cnt := v.cnt + 1 }

/-- One mbuf posted in place. -/
def TxView.holding (v : TxView) (m : Nat) : TxView :=
  { v.counted with inflight := Function.update v.inflight (v.head % 512) (some m) }

/-- What stays as it is, whatever becomes of a frame. -/
structure TxFrame (pi pi' : Internals) : Prop where
  ready : pi.session.sfc.Ready → pi'.session.sfc.Ready
  mbufs : pi'.mbufs = pi.mbufs
  txCopyMode : pi'.txCopyMode = pi.txCopyMode
  ops : pi'.ops = pi.ops

/-- The lines of the loop body, with the guards that lead there. -/
inductive TxCase (pi : Internals) (m : Nat) : TxView → TxFate → Prop
  | dropped : TxCase pi m pi.txView .dropped
  | linearised (hchain : (pi.mbufs m).nbSegs ≠ 1) (hfits : (pi.mbufs m).pktLen ≤ txBufferSize) :
      TxCase pi m pi.txView.written .copied
  | copied (hsingle : (pi.mbufs m).nbSegs = 1) (hroom : pi.txq.txInflightCnt < 496)
      (hcopy : (pi.mbufs m).pktLen < capioMinTxFrame ∨ pi.txCopyMode = true) :
      TxCase pi m pi.txView.counted .copied
  | held (hsingle : (pi.mbufs m).nbSegs = 1) (hroom : pi.txq.txInflightCnt < 496)
      (hlong : capioMinTxFrame ≤ (pi.mbufs m).pktLen) (hcopy : pi.txCopyMode = false) :
      TxCase pi m (pi.txView.holding m)
        (.held m (pi.session.sfc.txHead % 512)
          (pi.txq.inflight (pi.session.sfc.txHead % 512)))

/-- `sfc7120_tx_post` writes one descriptor or changes nothing. -/
theorem txPost_cases (s : Session) (bytes : List (BitVec 8)) :
    (∃ s', txPost s bytes = (0, s') ∧ s'.sfc.txHead = (s.sfc.txHead + 1) % 512 ∧
      (s.sfc.Ready → s'.sfc.Ready)) ∨ txPost s bytes = (-1, s) := by
  unfold txPost
  split
  · exact Or.inr rfl
  · split
    · exact Or.inr rfl
    · refine Or.inl ⟨_, rfl, ?_, fun hready => { hready with }⟩
      simp only [txPush, txNext, numTxDesc, land_ringMask]

theorem txPostPaddrNodbl_cases (s : Session) (paddr : BitVec 64) (len : Nat) :
    (∃ s', txPostPaddrNodbl s paddr len = (0, s') ∧
      s'.sfc.txHead = (s.sfc.txHead + 1) % 512 ∧ (s.sfc.Ready → s'.sfc.Ready)) ∨
      txPostPaddrNodbl s paddr len = (-1, s) := by
  unfold txPostPaddrNodbl
  split
  · exact Or.inr rfl
  · split
    · exact Or.inr rfl
    · refine Or.inl ⟨_, rfl, ?_, fun hready => { hready with }⟩
      simp only [txNext, numTxDesc, land_ringMask]

theorem txFrame_txDrop (pi : Internals) : TxFrame pi pi.txDrop := ⟨id, rfl, rfl, rfl⟩

theorem txChained_case {pi : Internals} {m : Nat} (hchain : (pi.mbufs m).nbSegs ≠ 1) :
    TxFrame pi (txChained pi m).pi ∧
      TxCase pi m (txChained pi m).pi.txView (txChained pi m).fate := by
  unfold txChained
  split
  · rename_i hfits
    rcases txPost_cases pi.session (padFrame (gathered pi.mbufs m)) with
      ⟨s', hpost, hhead, hready⟩ | hpost
    · simp only [hpost, if_true]
      refine ⟨⟨hready, rfl, rfl, rfl⟩, ?_⟩
      have hview : (pi.txCount s' (padFrame (gathered pi.mbufs m)).length).txView =
          pi.txView.written := by
        simp only [Internals.txView, Internals.txCount, TxView.written, hhead]
      rw [hview]
      exact .linearised hchain hfits
    · simp only [hpost]
      exact ⟨txFrame_txDrop pi, .dropped⟩
  · exact ⟨txFrame_txDrop pi, .dropped⟩

theorem txCopied_case {pi : Internals} {m : Nat} (bytes : List (BitVec 8))
    (hsingle : (pi.mbufs m).nbSegs = 1) (hroom : pi.txq.txInflightCnt < 496)
    (hcopy : (pi.mbufs m).pktLen < capioMinTxFrame ∨ pi.txCopyMode = true) :
    TxFrame pi (txCopied pi bytes).pi ∧
      TxCase pi m (txCopied pi bytes).pi.txView (txCopied pi bytes).fate := by
  unfold txCopied
  rcases txPost_cases pi.session bytes with ⟨s', hpost, hhead, hready⟩ | hpost
  · simp only [hpost, ne_eq, not_true_eq_false, if_false]
    refine ⟨⟨hready, rfl, rfl, rfl⟩, ?_⟩
    have hview : (pi.txCount s' bytes.length).txInflight.txView = pi.txView.counted := by
      simp only [Internals.txView, Internals.txCount, Internals.txInflight, TxView.counted, hhead]
    rw [hview]
    exact .copied hsingle hroom hcopy
  · simp only [hpost]
    exact ⟨txFrame_txDrop pi, .dropped⟩

theorem txInPlace_case {pi : Internals} {m : Nat}
    (hsingle : (pi.mbufs m).nbSegs = 1) (hroom : pi.txq.txInflightCnt < 496)
    (hlong : capioMinTxFrame ≤ (pi.mbufs m).pktLen) (hcopy : pi.txCopyMode = false) :
    TxFrame pi (txInPlace pi m).pi ∧
      TxCase pi m (txInPlace pi m).pi.txView (txInPlace pi m).fate := by
  unfold txInPlace
  rcases txPostPaddrNodbl_cases pi.session (pi.ops.dataIova (pi.mbufs m))
      (pi.mbufs m).pktLen with ⟨s', hpost, hhead, hready⟩ | hpost
  · simp only [hpost, ne_eq, not_true_eq_false, if_false, numTxDesc, land_ringMask]
    refine ⟨⟨hready, rfl, rfl, rfl⟩, ?_⟩
    have hcase := TxCase.held hsingle hroom hlong hcopy
    simpa only [Internals.txView, Internals.txCount, Internals.txInflight, TxView.holding,
      TxView.counted, hhead] using hcase
  · simp only [hpost]
    exact ⟨txFrame_txDrop pi, .dropped⟩

theorem txOne_case (pi : Internals) (m : Nat) :
    TxFrame pi (txOne pi m).pi ∧ TxCase pi m (txOne pi m).pi.txView (txOne pi m).fate := by
  unfold txOne
  split
  · rename_i hchain
    exact txChained_case hchain
  · rename_i hchain
    have hsingle : (pi.mbufs m).nbSegs = 1 := by simpa using hchain
    split
    · exact ⟨txFrame_txDrop pi, .dropped⟩
    · rename_i hfull
      have hroom : pi.txq.txInflightCnt < 496 := by
        simp only [numTxDesc] at hfull
        omega
      split
      · rename_i hshort
        exact txCopied_case _ hsingle hroom (Or.inl hshort)
      · rename_i hlong
        split
        · rename_i hcopy
          exact txCopied_case _ hsingle hroom (Or.inr hcopy)
        · rename_i hcopy
          exact txInPlace_case hsingle hroom (by omega) (by simpa using hcopy)

/-- The induction rule for the loop: what every iteration keeps, relative to the
frames still to come and the fates so far, holds at its end. -/
theorem txLoop_invariant (Inv : List Nat → Internals → List TxFate → Prop)
    (hstep : ∀ pi fates m ms, Inv (m :: ms) pi fates →
      Inv ms (txOne pi m).pi (fates ++ [(txOne pi m).fate]))
    (bufs : List Nat) (pi : Internals) (fates : List TxFate) (hinit : Inv bufs pi fates) :
    ∃ rest, Inv rest (txLoop pi bufs).2.2 (fates ++ (txLoop pi bufs).1) := by
  induction bufs generalizing pi fates with
  | nil =>
    rw [txLoop, List.append_nil]
    exact ⟨[], hinit⟩
  | cons m ms ih =>
    have hone := hstep pi fates m ms hinit
    rw [txLoop]
    cases hmore : (txOne pi m).more with
    | false =>
      simp only
      exact ⟨ms, hone⟩
    | true =>
      obtain ⟨rest, hrest⟩ := ih _ _ hone
      simp only [if_true]
      rw [List.append_assoc, List.singleton_append] at hrest
      exact ⟨rest, hrest⟩

end Pmd
end SfcCapio
