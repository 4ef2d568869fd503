import SfcCapio.Hardware.TxEngine
import SfcCapio.Pmd.TxCompletions

/-!
# Transmit bursts and the two kinds of doorbell

`eth_capio_tx` posts an ordinary frame with `sfc7120_tx_post_paddr_nodbl` and leaves the
doorbell to one `sfc7120_tx_flush` at the end of the burst.  Runts and chains go through
`sfc7120_tx_post`, which pushes its descriptor inline at once.

A burst is taken apart into the library calls it makes (`burstCalls`), and the card's
transmit engine watches every call.  A push made while descriptors of the same burst
wait for their flush names the wrong one: the engine takes it for the first descriptor
that waits.  On bursts in which no frame is posted as a copy behind one posted in place,
the engine sends what was posted, whatever the receive side does in between.
-/

namespace SfcCapio
namespace Pmd

open Hardware Userlib Kernel Handover Foundation

/-! ## Library calls and the card -/

/-- The posting calls that `eth_capio_tx` makes, and the flush.  It has no call of
`sfc7120_tx_post_paddr`. -/
inductive TxCall
  | post (bytes : List (BitVec 8))
  | postPaddrNodbl (paddr : BitVec 64) (len : Nat)
  | flush

namespace TxCall

/-- The value returned and the session left; the flush returns nothing. -/
def perform (s : Session) : TxCall → Int × Session
  | post bytes => txPost s bytes
  | postPaddrNodbl paddr len => txPostPaddrNodbl s paddr len
  | flush => (0, txFlush s)

/-- The descriptor a call posts if it is accepted. -/
def descriptors (s : Session) : TxCall → List (BitVec 64)
  | post bytes => [descWord (slotPa s.sfc.txBufferPaddr s.sfc.txHead) bytes.length]
  | postPaddrNodbl paddr len => [descWord paddr len]
  | flush => []

end TxCall

/-- A session, the engine behind it and the descriptors of all accepted posts. -/
structure Wire where
  session : Session
  engine : TxEngine
  posted : List (BitVec 64)

namespace Wire

/-- One library call, watched by the engine. -/
def call (w : Wire) (c : TxCall) : Wire :=
  let out := c.perform w.session
  { session := out.2
    engine := w.engine.watch w.session.dev out.2.dev
    posted := if out.1 = 0 then w.posted ++ c.descriptors w.session else w.posted }

/-- The session is ready and `k` of its descriptors wait for a doorbell. -/
def Waiting (w : Wire) (k : Nat) : Prop :=
  w.session.sfc.Ready ∧
    TxBacklog w.engine w.session.dev.txDescRing w.session.sfc.txHead w.posted k

end Wire

/-- The call that one iteration of the loop makes, if it makes one. -/
def frameCall (pi : Internals) (m : Nat) : Option TxCall :=
  if (pi.mbufs m).nbSegs ≠ 1 then
    if (pi.mbufs m).pktLen ≤ txBufferSize then
      some (.post (padFrame (gathered pi.mbufs m)))
    else none
  else if pi.txq.txInflightCnt ≥ numTxDesc - 16 then none
  else if (pi.mbufs m).pktLen < capioMinTxFrame then
    some (.post (padFrame ((pi.mbufs m).bytes (pi.mbufs m).pktLen)))
  else if pi.txCopyMode then some (.post ((pi.mbufs m).bytes (pi.mbufs m).pktLen))
  else some (.postPaddrNodbl (pi.ops.dataIova (pi.mbufs m)) (pi.mbufs m).pktLen)

/-- The calls of the loop. -/
def loopCalls : Internals → List Nat → List TxCall
  | _, [] => []
  | pi, m :: ms =>
    (frameCall pi m).toList ++
      if (txOne pi m).more then loopCalls (txOne pi m).pi ms else []

/-- The calls of one `eth_capio_tx`. -/
def burstCalls (pi : Internals) (bufs : List Nat) : List TxCall :=
  loopCalls pi bufs ++ if (txLoop pi bufs).2.1 > 0 then [.flush] else []

/-! ## The calls are those of the burst -/

/-- The session after a list of calls. -/
def performAll (s : Session) (calls : List TxCall) : Session :=
  calls.foldl (fun s c => (c.perform s).2) s

theorem performAll_append (s : Session) (calls more : List TxCall) :
    performAll s (calls ++ more) = performAll (performAll s calls) more :=
  List.foldl_append

theorem txChained_session {pi : Internals} {m : Nat}
    (hfits : (pi.mbufs m).pktLen ≤ txBufferSize) :
    (txChained pi m).pi.session =
      (txPost pi.session (padFrame (gathered pi.mbufs m))).2 := by
  simp only [txChained, if_pos hfits]
  rcases txPost_cases pi.session (padFrame (gathered pi.mbufs m)) with ⟨s', hpost, -⟩ | hpost
  · simp only [hpost, if_true, Internals.txCount]
  · simp only [hpost]
    rfl

theorem txCopied_session (pi : Internals) (bytes : List (BitVec 8)) :
    (txCopied pi bytes).pi.session = (txPost pi.session bytes).2 := by
  unfold txCopied
  rcases txPost_cases pi.session bytes with ⟨s', hpost, -⟩ | hpost
  · simp only [hpost]
    rfl
  · simp only [hpost]
    rfl

theorem txInPlace_session (pi : Internals) (m : Nat) :
    (txInPlace pi m).pi.session =
      (txPostPaddrNodbl pi.session (pi.ops.dataIova (pi.mbufs m)) (pi.mbufs m).pktLen).2 := by
  unfold txInPlace
  rcases txPostPaddrNodbl_cases pi.session (pi.ops.dataIova (pi.mbufs m))
      (pi.mbufs m).pktLen with ⟨s', hpost, -⟩ | hpost
  · simp only [hpost]
    rfl
  · simp only [hpost]
    rfl

theorem txOne_session (pi : Internals) (m : Nat) :
    (txOne pi m).pi.session = performAll pi.session (frameCall pi m).toList := by
  unfold txOne frameCall
  split
  · split
    · rename_i hfits
      exact txChained_session hfits
    · rename_i hlong
      simp only [txChained, if_neg hlong]
      rfl
  · split
    · rfl
    · split
      · exact txCopied_session pi _
      · split
        · exact txCopied_session pi _
        · exact txInPlace_session pi m

theorem txLoop_session (pi : Internals) (bufs : List Nat) :
    (txLoop pi bufs).2.2.session = performAll pi.session (loopCalls pi bufs) := by
  induction bufs generalizing pi with
  | nil => rfl
  | cons m ms ih =>
    rw [loopCalls, performAll_append, ← txOne_session, txLoop]
    cases hmore : (txOne pi m).more with
    | false => rfl
    | true => exact ih (txOne pi m).pi

/-- `eth_capio_tx` changes the session by exactly its calls. -/
theorem ethCapioTx_session (pi : Internals) (bufs : List Nat) :
    (ethCapioTx pi bufs).2.2.session = performAll pi.session (burstCalls pi bufs) := by
  rw [burstCalls, performAll_append, ← txLoop_session]
  simp only [ethCapioTx]
  split <;> rfl

theorem foldl_call_session (w : Wire) (calls : List TxCall) :
    (calls.foldl Wire.call w).session = performAll w.session calls := by
  induction calls generalizing w with
  | nil => rfl
  | cons c calls ih => exact ih (w.call c)

/-! ## What a call does to the descriptors that wait -/

namespace Wire

variable {w : Wire} {k : Nat}

theorem call_of_refused {c : TxCall} (hcall : c.perform w.session = (-1, w.session)) :
    w.call c = w := by
  simp only [call, hcall, TxEngine.watch_of_silent w.engine rfl]
  rfl

theorem call_of_silent {c : TxCall} {s : Session} (hcall : c.perform w.session = (0, s))
    (hdbl : s.dev.txDbl = w.session.dev.txDbl) :
    w.call c =
      { session := s, engine := w.engine, posted := w.posted ++ c.descriptors w.session } := by
  simp only [call, hcall, if_true, TxEngine.watch_of_silent w.engine hdbl]

theorem call_of_rung {c : TxCall} {s : Session} {d : TxDoorbell}
    (hcall : c.perform w.session = (0, s)) (hdbl : s.dev.txDbl = d :: w.session.dev.txDbl) :
    w.call c =
      { session := s
        engine := w.engine.doorbell s.dev.txDescRing d
        posted := w.posted ++ c.descriptors w.session } := by
  simp only [call, hcall, if_true, TxEngine.watch_of_rung w.engine hdbl]

/-- `sfc7120_tx_post` with nothing waiting leaves nothing waiting. -/
theorem Waiting.post (hwait : w.Waiting 0) (bytes : List (BitVec 8)) :
    (w.call (.post bytes)).Waiting 0 := by
  have hcases : TxCall.perform w.session (.post bytes) = (-1, w.session) ∨
      TxCall.perform w.session (.post bytes) = (0, txPush
        { w.session with
          dev :=
            { w.session.dev with
              txBuffer := copyTo w.session.dev.txBuffer (w.session.sfc.txHead * txBufferSize)
                bytes } }
        (slotPa w.session.sfc.txBufferPaddr w.session.sfc.txHead) bytes.length) := by
    simp only [TxCall.perform, txPost]
    split
    · exact Or.inl rfl
    · split
      · exact Or.inl rfl
      · exact Or.inr rfl
  rcases hcases with hrefused | haccepted
  · rw [call_of_refused hrefused]
    exact hwait
  · obtain ⟨hready, hlog⟩ := hwait
    rw [call_of_rung haccepted rfl]
    refine ⟨{ hready with }, ?_⟩
    simp only [txPush, txNext, numTxDesc, land_ringMask, TxCall.descriptors]
    exact hlog.push _

/-- `sfc7120_tx_post_paddr_nodbl` adds its descriptor to those that wait, or is
refused. -/
theorem Waiting.postPaddrNodbl (hwait : w.Waiting k) (hroom : k + 1 < 512)
    (paddr : BitVec 64) (len : Nat) :
    (txPostPaddrNodbl w.session paddr len).1 = 0 ∧
        (w.call (.postPaddrNodbl paddr len)).Waiting (k + 1) ∨
      (txPostPaddrNodbl w.session paddr len).1 ≠ 0 ∧
        (w.call (.postPaddrNodbl paddr len)).Waiting k := by
  have hcases : TxCall.perform w.session (.postPaddrNodbl paddr len) = (-1, w.session) ∨
      TxCall.perform w.session (.postPaddrNodbl paddr len) = (0,
        { sfc := { w.session.sfc with txHead := txNext w.session.sfc.txHead }
          dev :=
            { w.session.dev with
              txDescRing := Function.update w.session.dev.txDescRing w.session.sfc.txHead
                (descWord paddr len) } }) := by
    simp only [TxCall.perform, txPostPaddrNodbl]
    split
    · exact Or.inl rfl
    · split
      · exact Or.inl rfl
      · exact Or.inr rfl
  change (TxCall.perform w.session (.postPaddrNodbl paddr len)).1 = 0 ∧ _ ∨
    (TxCall.perform w.session (.postPaddrNodbl paddr len)).1 ≠ 0 ∧ _
  rcases hcases with hrefused | haccepted
  · refine Or.inr ⟨?_, ?_⟩
    · rw [hrefused]
      exact (by decide : (-1 : Int) ≠ 0)
    · rw [call_of_refused hrefused]
      exact hwait
  · refine Or.inl ⟨?_, ?_⟩
    · rw [haccepted]
    · obtain ⟨hready, hlog⟩ := hwait
      rw [call_of_silent haccepted rfl]
      refine ⟨{ hready with }, ?_⟩
      simp only [txNext, numTxDesc, land_ringMask, TxCall.descriptors]
      exact hlog.write hroom _

/-- `sfc7120_tx_flush` leaves nothing waiting. -/
theorem Waiting.flush (hwait : w.Waiting k) : (w.call .flush).Waiting 0 := by
  obtain ⟨hready, hlog⟩ := hwait
  have hflush : TxCall.perform w.session .flush = (0,
      { w.session with
        dev :=
          { w.session.dev with
            txDbl := .wptr w.session.sfc.txHead :: w.session.dev.txDbl } }) := by
    simp [TxCall.perform, txFlush, hready.mmioSlices, hready.mmioSlicesLen, sliceTxDescDbl,
      sliceCount]
  rw [call_of_rung hflush rfl]
  refine ⟨hready, ?_⟩
  simp only [TxCall.descriptors, List.append_nil]
  exact hlog.flush

end Wire

/-! ## What a burst does -/

/-- The frame was posted in place. -/
def TxFate.isHeld : TxFate → Bool
  | .held _ _ _ => true
  | _ => false

/-- The call made for a frame: none, a push, a push that is refused, or a post that
waits. -/
inductive FrameCase (pi : Internals) (m : Nat) : Option TxCall → TxOutcome → Prop
  | skipped {out : TxOutcome} (hcnt : out.pi.txq.txInflightCnt = pi.txq.txInflightCnt) :
      FrameCase pi m none out
  | pushed {bytes : List (BitVec 8)} {out : TxOutcome} (hcopied : out.fate = .copied) :
      FrameCase pi m (some (.post bytes)) out
  | refused {bytes : List (BitVec 8)} {out : TxOutcome}
      (hpost : txPost pi.session bytes = (-1, pi.session))
      (hcnt : out.pi.txq.txInflightCnt = pi.txq.txInflightCnt) :
      FrameCase pi m (some (.post bytes)) out
  | waiting (hroom : pi.txq.txInflightCnt < 496) :
      FrameCase pi m (some (.postPaddrNodbl (pi.ops.dataIova (pi.mbufs m)) (pi.mbufs m).pktLen))
        (txInPlace pi m)

theorem frameCase_txChained {pi : Internals} {m : Nat}
    (hfits : (pi.mbufs m).pktLen ≤ txBufferSize) :
    FrameCase pi m (some (.post (padFrame (gathered pi.mbufs m)))) (txChained pi m) := by
  simp only [txChained, if_pos hfits]
  rcases txPost_cases pi.session (padFrame (gathered pi.mbufs m)) with ⟨s', hpost, -⟩ | hpost
  · simp only [hpost, if_true]
    exact .pushed rfl
  · exact .refused hpost (by simp only [hpost]; rfl)

theorem frameCase_txCopied (pi : Internals) (m : Nat) (bytes : List (BitVec 8)) :
    FrameCase pi m (some (.post bytes)) (txCopied pi bytes) := by
  unfold txCopied
  rcases txPost_cases pi.session bytes with ⟨s', hpost, -⟩ | hpost
  · simp only [hpost]
    exact .pushed rfl
  · exact .refused hpost (by simp only [hpost]; rfl)

theorem frame_case (pi : Internals) (m : Nat) :
    FrameCase pi m (frameCall pi m) (txOne pi m) := by
  unfold txOne frameCall
  split
  · split
    · rename_i hfits
      exact frameCase_txChained hfits
    · rename_i hlong
      simp only [txChained, if_neg hlong]
      exact .skipped rfl
  · split
    · exact .skipped rfl
    · rename_i hfull
      split
      · exact frameCase_txCopied pi m _
      · split
        · exact frameCase_txCopied pi m _
        · refine .waiting ?_
          simp only [numTxDesc] at hfull
          omega

/-- An iteration in place counts its frame, or breaks the loop. -/
theorem txInPlace_result (pi : Internals) (m : Nat) :
    ((txPostPaddrNodbl pi.session (pi.ops.dataIova (pi.mbufs m)) (pi.mbufs m).pktLen).1 = 0 →
        (txInPlace pi m).more = true ∧ (txInPlace pi m).fate.isHeld = true ∧
          (txInPlace pi m).pi.txq.txInflightCnt = pi.txq.txInflightCnt + 1) ∧
      ((txPostPaddrNodbl pi.session (pi.ops.dataIova (pi.mbufs m)) (pi.mbufs m).pktLen).1 ≠ 0 →
        (txInPlace pi m).pi.txq.txInflightCnt = pi.txq.txInflightCnt) := by
  refine ⟨?_, ?_⟩
  · intro hok
    simp only [txInPlace, hok]
    exact ⟨rfl, rfl, rfl⟩
  · intro herr
    simp only [txInPlace, if_pos herr]
    rfl

/-- The calls of a burst that has not been flushed: what waits at their end is bounded
by the driver's own counter. -/
structure LoopWaits (pi : Internals) (w : Wire) (k : Nat) : Prop where
  waiting : w.Waiting k
  session : w.session = pi.session
  counted : k ≤ pi.txq.txInflightCnt
  bounded : k ≤ 496

/-- One frame.  A frame that is posted as a copy must find nothing waiting. -/
theorem LoopWaits.frame {pi : Internals} {w : Wire} {k m : Nat} (hst : LoopWaits pi w k)
    (hclear : (txOne pi m).fate = .copied → k = 0) :
    ∃ k', LoopWaits (txOne pi m).pi ((frameCall pi m).toList.foldl Wire.call w) k' ∧
      ((txOne pi m).more = false → k' = k) ∧
      (k' ≠ 0 → k ≠ 0 ∨ (txOne pi m).fate.isHeld = true) := by
  have hsession : ((frameCall pi m).toList.foldl Wire.call w).session =
      (txOne pi m).pi.session := by
    rw [foldl_call_session, hst.session, txOne_session]
  have hcounted := hst.counted
  have hbounded := hst.bounded
  have hcase := frame_case pi m
  generalize frameCall pi m = c at hcase hsession ⊢
  generalize txOne pi m = out at hcase hsession hclear ⊢
  cases hcase with
  | skipped hcnt =>
    refine ⟨k, ⟨hst.waiting, hsession, ?_, hbounded⟩, fun _ => rfl, Or.inl⟩
    rw [hcnt]
    exact hcounted
  | pushed hcopied =>
    have hzero := hclear hcopied
    subst hzero
    exact ⟨0, ⟨hst.waiting.post _, hsession, Nat.zero_le _, by decide⟩, fun _ => rfl,
      fun hne => absurd rfl hne⟩
  | refused hpost hcnt =>
    rw [← hst.session] at hpost
    have hsame : w.call (.post _) = w := Wire.call_of_refused hpost
    refine ⟨k, ⟨?_, hsession, ?_, hbounded⟩, fun _ => rfl, Or.inl⟩
    · change (w.call (.post _)).Waiting k
      rw [hsame]
      exact hst.waiting
    · rw [hcnt]
      exact hcounted
  | waiting hroom =>
    obtain ⟨hok, herr⟩ := txInPlace_result pi m
    rcases hst.waiting.postPaddrNodbl (by omega) (pi.ops.dataIova (pi.mbufs m))
        (pi.mbufs m).pktLen with ⟨hzero, hwait⟩ | ⟨hne, hwait⟩
    · rw [hst.session] at hzero
      obtain ⟨hmore, hheld, hcnt⟩ := hok hzero
      refine ⟨k + 1, ⟨hwait, hsession, by omega, by omega⟩, ?_, fun _ => Or.inr hheld⟩
      rw [hmore]
      intro hfalse
      cases hfalse
    · rw [hst.session] at hne
      refine ⟨k, ⟨hwait, hsession, ?_, hbounded⟩, fun _ => rfl, Or.inl⟩
      rw [herr hne]
      exact hcounted

/-- Of the frames that are posted, no copy comes behind one that is posted in place. -/
def CopiesFirst (fates : List TxFate) : Prop :=
  fates.Pairwise fun f g => f.isHeld = true → g ≠ .copied

instance (fates : List TxFate) : Decidable (CopiesFirst fates) :=
  inferInstanceAs (Decidable (List.Pairwise _ _))

/-- The loop; the induction is on the frames left.  Once something waits, none of them
is posted as a copy. -/
theorem LoopWaits.loop {pi : Internals} {w : Wire} {k : Nat} {bufs : List Nat}
    (hst : LoopWaits pi w k) (hfirst : CopiesFirst (txLoop pi bufs).1)
    (hclear : k ≠ 0 → ∀ f ∈ (txLoop pi bufs).1, f ≠ .copied) :
    ∃ k', LoopWaits (txLoop pi bufs).2.2 ((loopCalls pi bufs).foldl Wire.call w) k' ∧
      ((txLoop pi bufs).2.1 = 0 → k' = k) := by
  induction bufs generalizing pi w k with
  | nil => exact ⟨k, hst, fun _ => rfl⟩
  | cons m ms ih =>
    have hfates : (txLoop pi (m :: ms)).1 = (txOne pi m).fate ::
        if (txOne pi m).more then (txLoop (txOne pi m).pi ms).1 else [] := by
      rw [txLoop]
      split <;> rfl
    rw [hfates] at hfirst hclear
    obtain ⟨hpair, hrest⟩ := List.pairwise_cons.mp hfirst
    have hnow : (txOne pi m).fate = .copied → k = 0 := by
      intro hcopied
      by_contra hne
      exact hclear hne _ (List.mem_cons_self ..) hcopied
    obtain ⟨k', hone, hbreak, hnext⟩ := hst.frame hnow
    rw [txLoop, loopCalls, List.foldl_append]
    cases hmore : (txOne pi m).more with
    | false =>
      have hsame : k' = k := hbreak hmore
      subst hsame
      exact ⟨k', hone, fun _ => rfl⟩
    | true =>
      rw [hmore, if_pos rfl] at hpair hrest hclear
      have hclear' : k' ≠ 0 → ∀ f ∈ (txLoop (txOne pi m).pi ms).1, f ≠ .copied := by
        intro hne f hf
        rcases hnext hne with hold | hheld
        · exact hclear hold f (List.mem_cons_of_mem _ hf)
        · exact hpair f hf hheld
      obtain ⟨k'', hloop, -⟩ := ih hone hrest hclear'
      refine ⟨k'', hloop, ?_⟩
      intro hzero
      exact absurd hzero (Nat.succ_ne_zero _)

/-- A burst that starts with nothing waiting ends so, the flush included. -/
theorem burst_waits {pi : Internals} {w : Wire} {bufs : List Nat} (hwait : w.Waiting 0)
    (hsession : w.session = pi.session) (hfirst : CopiesFirst (txLoop pi bufs).1) :
    ((burstCalls pi bufs).foldl Wire.call w).Waiting 0 := by
  have hst : LoopWaits pi w 0 := ⟨hwait, hsession, Nat.zero_le _, by decide⟩
  obtain ⟨k, hloop, hnone⟩ := hst.loop hfirst fun hne => absurd rfl hne
  rw [burstCalls, List.foldl_append]
  split
  · exact hloop.waiting.flush
  · rename_i hidx
    have hzero : k = 0 := hnone (by omega)
    subst hzero
    exact hloop.waiting

/-! ## The receive side leaves the transmit side alone -/

/-- `s'` agrees with `s` in what the engine and the transmit calls go by. -/
structure SameTx (s s' : Session) : Prop where
  ready : s.sfc.Ready → s'.sfc.Ready
  txHead : s'.sfc.txHead = s.sfc.txHead
  txDescRing : s'.dev.txDescRing = s.dev.txDescRing
  txDbl : s'.dev.txDbl = s.dev.txDbl

namespace SameTx

theorem refl (s : Session) : SameTx s s := ⟨id, rfl, rfl, rfl⟩

theorem trans {s s' s'' : Session} (h : SameTx s s') (h' : SameTx s' s'') : SameTx s s'' :=
  ⟨fun hr => h'.ready (h.ready hr), h'.txHead.trans h.txHead,
    h'.txDescRing.trans h.txDescRing, h'.txDbl.trans h.txDbl⟩

theorem poll (s : Session) (maxEvs : Int) : SameTx s (Userlib.poll s maxEvs).2 := by
  unfold Userlib.poll
  split
  · exact refl s
  · split
    · exact refl s
    · exact ⟨fun hr => { hr with }, rfl, rfl, rfl⟩

theorem rxPeek (s : Session) (rxBytes : Nat) : SameTx s (Userlib.rxPeek s rxBytes).2 := by
  unfold Userlib.rxPeek
  split
  · exact refl s
  · exact ⟨fun hr => { hr with }, rfl, rfl, rfl⟩

theorem rxPeekExt (s : Session) (rxBytes : Nat) :
    SameTx s (Userlib.rxPeekExt s rxBytes).2 := by
  unfold Userlib.rxPeekExt
  split
  · exact refl s
  · exact ⟨fun hr => { hr with }, rfl, rfl, rfl⟩

theorem rxRelease (s : Session) : SameTx s (Userlib.rxRelease s).2 := by
  unfold Userlib.rxRelease
  split
  · exact refl s
  · exact ⟨fun hr => { hr with }, rfl, rfl, rfl⟩

theorem rxReleasePaddrNodbl (s : Session) (paddr : BitVec 64) (len : Nat)
    (cookie : Option Nat) : SameTx s (Userlib.rxReleasePaddrNodbl s paddr len cookie).2 := by
  unfold Userlib.rxReleasePaddrNodbl
  split
  · exact refl s
  · split
    · exact refl s
    · exact ⟨fun hr => { hr with }, rfl, rfl, rfl⟩

theorem rxFlush (s : Session) : SameTx s (Userlib.rxFlush s) := by
  unfold Userlib.rxFlush
  split
  · exact refl s
  · exact ⟨id, rfl, rfl, rfl⟩

end SameTx

/-- The receive code leaves the queue of a driver alone as well. -/
structure KeepsTx (pi pi' : Internals) : Prop where
  session : SameTx pi.session pi'.session
  txq : pi'.txq = pi.txq

theorem keepsTx_rxNoReplacement (pi : Internals) (cookie : Option Nat) :
    KeepsTx pi (rxNoReplacement pi cookie).pi := by
  cases cookie with
  | some c => exact ⟨SameTx.rxReleasePaddrNodbl .., rfl⟩
  | none => exact ⟨SameTx.rxRelease _, rfl⟩

theorem keepsTx_rxCopyOut (pi : Internals) (pk : Peek) (m repl : Nat) :
    KeepsTx pi (rxCopyOut pi pk m repl).pi := by
  unfold rxCopyOut
  split
  · exact ⟨SameTx.rxRelease pi.session, rfl⟩
  · exact ⟨SameTx.rxReleasePaddrNodbl .., rfl⟩

theorem keepsTx_rxFromLibrary (pi : Internals) (rxBytes m : Nat) (reply : PoolReply) :
    KeepsTx pi (rxFromLibrary pi rxBytes m reply).pi := by
  have hpeek := SameTx.rxPeek pi.session rxBytes
  unfold rxFromLibrary
  generalize rxPeek pi.session rxBytes = out at hpeek
  obtain ⟨found, session⟩ := out
  have hgiven := hpeek.trans (SameTx.rxRelease session)
  cases found with
  | none => exact ⟨hgiven, rfl⟩
  | some pk =>
    simp only
    split
    · exact ⟨hgiven, rfl⟩
    · split
      · exact ⟨hgiven, rfl⟩
      · have hcopy := keepsTx_rxCopyOut (capioMbufGet { pi with session := session }
          reply).2.2 pk m
        exact ⟨hpeek.trans (hcopy _).session, (hcopy _).txq⟩

theorem keepsTx_rxFromCookie (pi : Internals) (len m repl : Nat) :
    KeepsTx pi (rxFromCookie pi len m repl).pi := by
  unfold rxFromCookie
  simp only
  split
  · exact ⟨SameTx.rxReleasePaddrNodbl .., rfl⟩
  · exact ⟨SameTx.rxReleasePaddrNodbl .., rfl⟩

theorem keepsTx_rxEvent (pi : Internals) (rxBytes : Nat) (reply₁ reply₂ : PoolReply) :
    KeepsTx pi (rxEvent pi rxBytes reply₁ reply₂).pi := by
  have hpeek := SameTx.rxPeekExt pi.session rxBytes
  unfold rxEvent
  generalize rxPeekExt pi.session rxBytes = out at hpeek
  obtain ⟨found, session⟩ := out
  cases found with
  | none => exact ⟨hpeek, rfl⟩
  | some ext =>
    obtain ⟨cookie, len⟩ := ext
    have hafter : ∀ p, KeepsTx (capioMbufGet { pi with session := session } reply₁).2.2 p →
        KeepsTx pi p := fun p h => ⟨hpeek.trans h.session, h.txq⟩
    simp only [RxOutcome.after]
    split
    · exact hafter _ (keepsTx_rxNoReplacement ..)
    · split
      · exact hafter _ (keepsTx_rxFromLibrary ..)
      · exact hafter _ (keepsTx_rxFromCookie ..)

theorem sameTx_pmdEvent (pi : Internals) (ev : Ev) (reply₁ reply₂ : PoolReply) :
    SameTx pi.session (pmdEvent pi ev reply₁ reply₂).pi.session := by
  unfold pmdEvent
  split
  · exact (keepsTx_rxEvent ..).session
  · exact SameTx.refl pi.session
  · exact SameTx.refl pi.session

theorem sameTx_eventLoop (replies : Nat → PoolReply × PoolReply) (i : Nat) (pi : Internals)
    (evs : List Ev) : SameTx pi.session (eventLoop replies i pi evs).2.session := by
  induction evs generalizing i pi with
  | nil => exact SameTx.refl pi.session
  | cons ev evs ih =>
    have hone := sameTx_pmdEvent pi ev (replies i).1 (replies i).2
    rw [eventLoop]
    split
    · exact hone.trans (ih (i + 1) _)
    · exact hone

/-- `eth_capio_rx` touches nothing of the transmit side but its bookkeeping. -/
theorem sameTx_ethCapioRx (pi : Internals) (nbBufs : Nat)
    (replies : Nat → PoolReply × PoolReply) :
    SameTx pi.session (ethCapioRx pi nbBufs replies).2.session := by
  have hpoll := SameTx.poll pi.session (min nbBufs capioMaxBurst : Nat)
  simp only [ethCapioRx]
  split
  · exact hpoll
  · exact hpoll
  · rename_i evs _ _
    have hloop := sameTx_eventLoop replies 0
      { pi with session := (poll pi.session (min nbBufs capioMaxBurst : Nat)).2 } evs
    exact hpoll.trans (hloop.trans (SameTx.rxFlush _))

/-! ## Runs -/

/-- The driver, the engine and the descriptors of all accepted posts. -/
structure WireSys where
  pi : Internals
  engine : TxEngine
  posted : List (BitVec 64)

/-- A burst on mbufs with the given contents, a receive call, or writes of the card to
the event queue and the receive buffer. -/
inductive WireLabel
  | burst (mbufs : Nat → RteMbuf) (bufs : List Nat)
  | receive (nbBufs : Nat) (replies : Nat → PoolReply × PoolReply)
  | card (evqRing : Nat → BitVec 64) (rxBuffer : Nat → BitVec 8)

namespace WireSys

/-- The calls of a burst, watched by the engine. -/
def wire (s : WireSys) (mbufs : Nat → RteMbuf) (bufs : List Nat) : Wire :=
  (burstCalls { s.pi with mbufs := mbufs } bufs).foldl Wire.call
    { session := s.pi.session, engine := s.engine, posted := s.posted }

/-- The system after a burst. -/
def afterBurst (s : WireSys) (mbufs : Nat → RteMbuf) (bufs : List Nat) : WireSys where
  pi := (ethCapioTx { s.pi with mbufs := mbufs } bufs).2.2
  engine := (s.wire mbufs bufs).engine
  posted := (s.wire mbufs bufs).posted

/-- The card has written an event queue and a receive buffer. -/
def written (s : WireSys) (evqRing : Nat → BitVec 64) (rxBuffer : Nat → BitVec 8) : WireSys :=
  { s with
    pi :=
      { s.pi with
        session :=
          { s.pi.session with
            dev := { s.pi.session.dev with evqRing := evqRing, rxBuffer := rxBuffer } } } }

end WireSys

/-- The interleaved system. -/
def wireStep (s : WireSys) : WireLabel → Option WireSys
  | .burst mbufs bufs => some (s.afterBurst mbufs bufs)
  | .receive nbBufs replies => some { s with pi := (ethCapioRx s.pi nbBufs replies).2 }
  | .card evqRing rxBuffer => some (s.written evqRing rxBuffer)

/-- A probed port whose engine stands at the seeded `tx_head`. -/
structure WireStart (s : WireSys) : Prop where
  ready : s.pi.session.sfc.Ready
  headLt : s.pi.session.sfc.txHead < numTxDesc
  wptr : s.engine.wptr = s.pi.session.sfc.txHead
  nothingPosted : s.posted = []
  nothingSent : s.engine.sent = []

/-- The card has sent exactly the posted descriptors, in their order. -/
def SentAsPosted (s : WireSys) : Prop := s.engine.sent = s.posted

instance (s : WireSys) : Decidable (SentAsPosted s) := inferInstanceAs (Decidable (_ = _))

/-- No burst posts a copy behind a frame that it has posted in place. -/
def BurstCopiesFirst (s : WireSys) : WireLabel → Prop
  | .burst mbufs bufs => CopiesFirst (ethCapioTx { s.pi with mbufs := mbufs } bufs).2.1
  | _ => True

instance (s : WireSys) (l : WireLabel) : Decidable (BurstCopiesFirst s l) :=
  match l with
  | .burst _ _ => inferInstanceAs (Decidable (CopiesFirst _))
  | .receive _ _ | .card _ _ => inferInstanceAs (Decidable True)

/-- Between calls nothing waits for a doorbell. -/
structure WireIdle (s : WireSys) : Prop where
  ready : s.pi.session.sfc.Ready
  backlog : TxBacklog s.engine s.pi.session.dev.txDescRing s.pi.session.sfc.txHead s.posted 0

theorem wireIdle_start {s : WireSys} (hstart : WireStart s) : WireIdle s where
  ready := hstart.ready
  backlog :=
    { wptrLt := by
        rw [hstart.wptr]
        exact hstart.headLt
      partLap := by decide
      head := by
        rw [hstart.wptr]
        exact (Nat.mod_eq_of_lt hstart.headLt).symm
      posted := by rw [hstart.nothingPosted, hstart.nothingSent, cells_zero, List.append_nil] }

theorem WireIdle.of_sameTx {s : WireSys} {pi : Internals} (hidle : WireIdle s)
    (hsame : SameTx s.pi.session pi.session) : WireIdle { s with pi := pi } where
  ready := hsame.ready hidle.ready
  backlog := by
    have hlog := hidle.backlog
    rw [← hsame.txHead, ← hsame.txDescRing] at hlog
    exact hlog

theorem WireIdle.burst {s : WireSys} {mbufs : Nat → RteMbuf} {bufs : List Nat}
    (hidle : WireIdle s) (hfirst : BurstCopiesFirst s (.burst mbufs bufs)) :
    WireIdle (s.afterBurst mbufs bufs) := by
  have hwait : (s.wire mbufs bufs).Waiting 0 := by
    have hstart : Wire.Waiting ⟨s.pi.session, s.engine, s.posted⟩ 0 :=
      ⟨hidle.ready, hidle.backlog⟩
    have hsame : s.pi.session = Internals.session { s.pi with mbufs := mbufs } := rfl
    exact burst_waits hstart hsame hfirst
  have hsession : (s.wire mbufs bufs).session = (s.afterBurst mbufs bufs).pi.session := by
    rw [WireSys.wire, foldl_call_session]
    exact (ethCapioTx_session { s.pi with mbufs := mbufs } bufs).symm
  obtain ⟨hready, hlog⟩ := hwait
  rw [hsession] at hready hlog
  exact ⟨hready, hlog⟩

theorem wireIdle_step (s : WireSys) (l : WireLabel) (s' : WireSys) (hidle : WireIdle s)
    (hguard : BurstCopiesFirst s l) (hstep : wireStep s l = some s') : WireIdle s' := by
  cases l with
  | burst mbufs bufs =>
    obtain rfl := Option.some.inj hstep
    exact hidle.burst hguard
  | receive nbBufs replies =>
    obtain rfl := Option.some.inj hstep
    exact hidle.of_sameTx (sameTx_ethCapioRx s.pi nbBufs replies)
  | card evqRing rxBuffer =>
    obtain rfl := Option.some.inj hstep
    exact hidle.of_sameTx ⟨id, rfl, rfl, rfl⟩

/-- Over every run of bursts, receive calls and writes of the card in which no burst posts
a copy behind a frame it has posted in place, the card has sent exactly what was posted
whenever a call has returned. -/
theorem tx_bursts_sent_as_posted {s : WireSys} {labels : List WireLabel}
    (hstart : WireStart s) (hfirst : Obeys wireStep BurstCopiesFirst s labels) :
    Along wireStep SentAsPosted s labels :=
  along_of_obeys wireIdle_step (fun _ hidle => hidle.backlog.sent_eq) (wireIdle_start hstart)
    hfirst

/-- A port probed right after attach. -/
def wireAfterAttach : WireSys where
  pi := ethDevCapioCreate rxIoctlAfterAttach.sc none false sampleOps samplePool
  engine := { wptr := 0, sent := [] }
  posted := []

theorem wireStart_wireAfterAttach : WireStart wireAfterAttach where
  ready := ⟨rfl, rfl, rfl, rfl, rfl, rfl, rfl⟩
  headLt := by decide
  wptr := rfl
  nothingPosted := rfl
  nothingSent := rfl

/-- An ARP request, which is shorter than the minimum frame. -/
def runtFrame : RteMbuf := { plainFrame with dataLen := 42, pktLen := 42 }

/-- Two ordinary frames around a runt. -/
def mixedMbufs (m : Nat) : RteMbuf := if m = 1 then runtFrame else plainFrame

/-- A burst with the runt first, and a second one without, are sent as posted. -/
theorem tx_runt_first_sent_as_posted :
    Obeys wireStep BurstCopiesFirst wireAfterAttach
        [.burst mixedMbufs [1, 0, 2], .receive 32 (fun _ => (⟨none, none⟩, ⟨none, none⟩)),
          .burst mixedMbufs [0, 2]] ∧
      Along wireStep SentAsPosted wireAfterAttach
        [.burst mixedMbufs [1, 0, 2], .receive 32 (fun _ => (⟨none, none⟩, ⟨none, none⟩)),
          .burst mixedMbufs [0, 2]] := by
  have hobeys : Obeys wireStep BurstCopiesFirst wireAfterAttach
      [.burst mixedMbufs [1, 0, 2], .receive 32 (fun _ => (⟨none, none⟩, ⟨none, none⟩)),
        .burst mixedMbufs [0, 2]] := by
    decide +kernel
  exact ⟨hobeys, tx_bursts_sent_as_posted wireStart_wireAfterAttach hobeys⟩

/-- An ordinary frame followed by a runt: the card sends the runt twice and the ordinary
frame not at all. -/
theorem tx_runt_last_is_sent_twice :
    ∃ t normal runt, wireStep wireAfterAttach (.burst mixedMbufs [0, 1]) = some t ∧
      t.posted = [normal, runt] ∧ t.engine.sent = [runt, runt] ∧ ¬ SentAsPosted t := by
  refine ⟨_, descWord (sampleOps.dataIova plainFrame) 60, descWord (slotPa 0x200000#64 1) 60, rfl,
    ?_, ?_, ?_⟩
  · decide +kernel
  · decide +kernel
  · decide +kernel

end Pmd
end SfcCapio
