import SfcCapio.Foundation.TracedMemory
import SfcCapio.Pmd.Receive
import SfcCapio.Pmd.Transmit

/-!
# What a transmitted frame holds

An mbuf chain is a packet cut into segments.  `eth_capio_tx` gathers a chain in `linbuf`,
pads a short packet in `padbuf`, copies or posts in place; whichever it does, the descriptor
names memory that holds the packet, padded with zeros to the minimum frame length.

The two local buffers are traced memories here: `linbufFrame` and `padbufFrame` make the
stores of the source and then the loads of `sfc7120_tx_post`.
-/

namespace SfcCapio
namespace Pmd

open Hardware Userlib Kernel Handover Foundation Foundation.TraceM

/-! ## Packets -/

/-- The segments that the loop over `seg->next` meets. -/
inductive Chain (mbufs : Nat → RteMbuf) : Option Nat → List Nat → Prop
  | nil : Chain mbufs none []
  | cons {seg : Nat} {segs : List Nat} (hnext : Chain mbufs (mbufs seg).next segs) :
      Chain mbufs (some seg) (seg :: segs)

/-- The segments one after the other. -/
def content (mbufs : Nat → RteMbuf) (segs : List Nat) : List (BitVec 8) :=
  segs.flatMap fun seg => (mbufs seg).bytes (mbufs seg).dataLen

/-- `m` is the first mbuf of a chain whose segment lengths sum to `pkt_len`. -/
structure Packet (mbufs : Nat → RteMbuf) (m : Nat) (segs : List Nat) : Prop where
  chain : Chain mbufs (some m) segs
  nbSegs : (mbufs m).nbSegs.toNat = segs.length
  pktLen : (mbufs m).pktLen = (segs.map fun seg => (mbufs seg).dataLen).sum

/-- What the card finds at a bus address: the bytes of slot `slot` of the library, or the data
of the mbuf `m`. -/
inductive BusHolds (pi : Internals) (slot m : Nat) : Nat → List (BitVec 8) → Prop
  | txSlot {bytes : List (BitVec 8)}
      (hmem : cellsAt pi.session.dev.txBuffer (slot * txBufferSize) bytes.length = bytes) :
      BusHolds pi slot m (slotPa pi.session.sfc.txBufferPaddr slot).toNat bytes
  | mbuf {bytes : List (BitVec 8)} (hmem : (pi.mbufs m).bytes bytes.length = bytes) :
      BusHolds pi slot m (pi.ops.dataIova (pi.mbufs m)).toNat bytes

/-- The descriptor at `slot` names `frame`, in the slot's own buffer or in the mbuf `m`. -/
structure Names (pi : Internals) (slot m : Nat) (frame : List (BitVec 8)) : Prop where
  byteCnt : descByteCnt (pi.session.dev.txDescRing slot) = frame.length
  memory : BusHolds pi slot m (descAddr (pi.session.dev.txDescRing slot)) frame

/-! ## The local buffers -/

/-- The copies into `linbuf`; the result is `off`. -/
def gatherSegs (mbufs : Nat → RteMbuf) : List Nat → Nat → TraceM (BitVec 8) Nat
  | [], off => pure off
  | seg :: segs, off => do
      storeCells off ((mbufs seg).bytes (mbufs seg).dataLen)
      gatherSegs mbufs segs (off + (mbufs seg).dataLen)

/-- The life of `linbuf`; the result is what `sfc7120_tx_post` reads. -/
def linbufFrame (mbufs : Nat → RteMbuf) (segs : List Nat) :
    TraceM (BitVec 8) (List (BitVec 8)) := do
  let off ← gatherSegs mbufs segs 0
  if off < capioMinTxFrame then
    storeCells off (List.replicate (capioMinTxFrame - off) 0#8)
    loadCells 0 capioMinTxFrame
  else loadCells 0 off

/-- The life of `padbuf`. -/
def padbufFrame (bytes : List (BitVec 8)) : TraceM (BitVec 8) (List (BitVec 8)) := do
  storeCells 0 (List.replicate capioMinTxFrame 0#8)
  storeCells 0 bytes
  loadCells 0 capioMinTxFrame

theorem length_content (mbufs : Nat → RteMbuf) (segs : List Nat) :
    (content mbufs segs).length = (segs.map fun seg => (mbufs seg).dataLen).sum := by
  rw [content, List.length_flatMap]
  simp only [length_bytes]

theorem padFrame_of_le {bytes : List (BitVec 8)} (hle : capioMinTxFrame ≤ bytes.length) :
    padFrame bytes = bytes := by
  rw [padFrame, Nat.sub_eq_zero_of_le hle, List.replicate_zero, List.append_nil]

section Buffers

variable {mem : Nat → BitVec 8} {hi : Nat}

theorem gatherSegs_runs (mbufs : Nat → RteMbuf) {segs : List Nat} {off : Nat}
    (hhi : off + (content mbufs segs).length ≤ hi) :
    Runs 0 hi (gatherSegs mbufs segs off) mem (off + (content mbufs segs).length)
      (blit mem off (content mbufs segs)) := by
  induction segs generalizing mem off with
  | nil =>
    rw [content, List.flatMap_nil, blit_nil]
    exact Runs.pure off
  | cons seg segs ih =>
    have hsplit : content mbufs (seg :: segs) =
        (mbufs seg).bytes (mbufs seg).dataLen ++ content mbufs segs := List.flatMap_cons
    have hlen := length_bytes (mbufs seg) (mbufs seg).dataLen
    rw [hsplit, List.length_append, hlen, ← Nat.add_assoc] at hhi ⊢
    refine (Runs.storeCells (Nat.zero_le off) (by omega)).bind ?_
    rw [← blit_append, hlen]
    exact ih hhi

/-- `linbuf` is written and read within its size. -/
theorem linbufFrame_runs (mbufs : Nat → RteMbuf) {segs : List Nat}
    (hfits : (content mbufs segs).length ≤ txBufferSize) (mem : Nat → BitVec 8) :
    ∃ mem', Runs 0 txBufferSize (linbufFrame mbufs segs) mem (padFrame (content mbufs segs))
      mem' := by
  refine ⟨blit mem 0 (padFrame (content mbufs segs)), ?_⟩
  refine (gatherSegs_runs mbufs (by omega)).bind ?_
  rw [Nat.zero_add]
  have hlen := length_padFrame (content mbufs segs)
  split
  · next hshort =>
      have hroom : capioMinTxFrame ≤ txBufferSize := by decide
      refine (Runs.storeCells (Nat.zero_le _) (by rw [List.length_replicate]; omega)).bind ?_
      have hall := blit_append mem 0 (content mbufs segs)
        (List.replicate (capioMinTxFrame - (content mbufs segs).length) 0#8)
      rw [Nat.zero_add] at hall
      rw [hall]
      exact Runs.loadBlit (hlen.trans (by omega)) (Nat.le_refl 0) (by omega)
  · next hlong =>
      rw [padFrame_of_le (by omega)]
      exact Runs.loadBlit rfl (Nat.le_refl 0) (by omega)

theorem padbufFrame_runs {bytes : List (BitVec 8)} (hfits : bytes.length ≤ capioMinTxFrame)
    (mem : Nat → BitVec 8) :
    ∃ mem', Runs 0 capioMinTxFrame (padbufFrame bytes) mem (padFrame bytes) mem' := by
  have hlen := length_padFrame bytes
  refine ⟨blit mem 0 (padFrame bytes), ?_⟩
  refine (Runs.storeCells (Nat.le_refl 0) (by rw [List.length_replicate]; omega)).bind ?_
  refine (Runs.storeCells (Nat.le_refl 0) (by omega)).bind ?_
  rw [blit_over, List.drop_replicate]
  exact Runs.loadBlit (hlen.trans (by omega)) (Nat.le_refl 0) (by omega)

end Buffers

/-! ## The four branches -/

section Branches

variable {pi : Internals} {m : Nat} {segs : List Nat}

theorem copyTo_eq_blit (mem : Nat → BitVec 8) (off : Nat) (bytes : List (BitVec 8)) :
    copyTo mem off bytes = blit mem off bytes := by
  funext j
  by_cases hj : off ≤ j ∧ j < off + bytes.length
  · obtain ⟨i, rfl⟩ := Nat.exists_eq_add_of_le hj.1
    have hi : i < bytes.length := by omega
    rw [copyTo, if_pos hj, Nat.add_sub_cancel_left, blit_of_inside mem hi,
      List.getD_eq_getElem bytes _ hi]
  · rw [copyTo, if_neg hj, blit_of_outside mem hj]

/-- The segments of a chain are gathered whole. -/
theorem gather_eq_content {mbufs : Nat → RteMbuf} {start : Option Nat}
    (hchain : Chain mbufs start segs) {n : Nat} (hle : segs.length ≤ n) :
    gather mbufs n start = content mbufs segs := by
  induction hchain generalizing n with
  | nil => cases n <;> rfl
  | cons hnext ih =>
    cases n with
    | zero => cases hle
    | succ n =>
      rw [gather, ih (Nat.le_of_succ_le_succ hle), content, content, List.flatMap_cons]

theorem Packet.gathered_eq (hpacket : Packet pi.mbufs m segs) :
    gathered pi.mbufs m = content pi.mbufs segs := by
  have hlt := (pi.mbufs m).nbSegs.toNat_lt
  rw [hpacket.nbSegs] at hlt
  exact gather_eq_content hpacket.chain (Nat.le_of_lt_succ hlt)

theorem Packet.length_content (hpacket : Packet pi.mbufs m segs) :
    (content pi.mbufs segs).length = (pi.mbufs m).pktLen := by
  rw [Pmd.length_content, hpacket.pktLen]

theorem Packet.content_of_single (hpacket : Packet pi.mbufs m segs)
    (hsingle : (pi.mbufs m).nbSegs = 1) :
    content pi.mbufs segs = (pi.mbufs m).bytes (pi.mbufs m).pktLen := by
  obtain ⟨hchain, hsegs, hlen⟩ := hpacket
  cases hchain with
  | cons hnext =>
    rename_i rest
    have hnil : rest = [] := List.eq_nil_of_length_eq_zero (by
      rw [hsingle, List.length_cons] at hsegs
      exact (Nat.succ.inj hsegs).symm)
    subst hnil
    rw [hlen, content, List.flatMap_cons, List.flatMap_nil, List.append_nil, List.map_cons,
      List.map_nil, List.sum_singleton]

/-- A copy that was posted is in the slot its descriptor names. -/
theorem names_of_txPost {bytes : List (BitVec 8)} {pi' : Internals}
    (hpost : txPost pi.session bytes = (0, pi'.session))
    (haddr : (slotPa pi.session.sfc.txBufferPaddr pi.session.sfc.txHead).toNat < 2 ^ 48) :
    Names pi' pi.session.sfc.txHead m bytes := by
  unfold txPost at hpost
  split at hpost
  · cases hpost
  · split at hpost
    · cases hpost
    · next hlen =>
        obtain ⟨-, hle⟩ := (txLenOk_iff bytes.length).mp (by simpa using hlen)
        have hsession := (Prod.mk.inj hpost).2
        have hdesc : pi'.session.dev.txDescRing pi.session.sfc.txHead =
            descWord (slotPa pi.session.sfc.txBufferPaddr pi.session.sfc.txHead)
              bytes.length := by
          rw [← hsession]
          exact Function.update_self ..
        have hbase : pi'.session.sfc.txBufferPaddr = pi.session.sfc.txBufferPaddr := by
          rw [← hsession]
          rfl
        have hmem : pi'.session.dev.txBuffer =
            blit pi.session.dev.txBuffer (pi.session.sfc.txHead * txBufferSize) bytes := by
          rw [← hsession, ← copyTo_eq_blit]
          rfl
        refine ⟨?_, ?_⟩
        · rw [hdesc, descByteCnt_descWord]
          exact Nat.mod_eq_of_lt (Nat.lt_of_le_of_lt hle (by decide))
        · rw [hdesc, descAddr_descWord, Nat.mod_eq_of_lt haddr, ← hbase]
          exact .txSlot (by rw [hmem, cellsAt_blit])

theorem txCopied_names {bytes : List (BitVec 8)}
    (hposted : (txCopied pi bytes).fate ≠ .dropped)
    (haddr : (slotPa pi.session.sfc.txBufferPaddr pi.session.sfc.txHead).toNat < 2 ^ 48) :
    Names (txCopied pi bytes).pi pi.session.sfc.txHead m bytes := by
  unfold txCopied at hposted ⊢
  rcases txPost_cases pi.session bytes with ⟨s', hpost, -, -⟩ | hpost
  · simp only [hpost, ne_eq, not_true_eq_false, if_false]
    exact names_of_txPost hpost haddr
  · simp only [hpost] at hposted
    exact absurd rfl hposted

theorem txChained_names (hpacket : Packet pi.mbufs m segs)
    (hposted : (txChained pi m).fate ≠ .dropped)
    (haddr : (slotPa pi.session.sfc.txBufferPaddr pi.session.sfc.txHead).toNat < 2 ^ 48) :
    Names (txChained pi m).pi pi.session.sfc.txHead m (padFrame (content pi.mbufs segs)) := by
  unfold txChained at hposted ⊢
  rw [hpacket.gathered_eq] at hposted ⊢
  split
  · next hfits =>
      rcases txPost_cases pi.session (padFrame (content pi.mbufs segs)) with
        ⟨s', hpost, -, -⟩ | hpost
      · simp only [hpost, if_true]
        exact names_of_txPost hpost haddr
      · simp only [hfits, hpost] at hposted
        exact absurd rfl hposted
  · next hlong =>
      simp only [hlong] at hposted
      exact absurd rfl hposted

theorem desc_of_txPostPaddrNodbl {s s' : Session} {paddr : BitVec 64} {len : Nat}
    (hpost : txPostPaddrNodbl s paddr len = (0, s')) :
    s'.dev.txDescRing s.sfc.txHead = descWord paddr len ∧ len ≤ txBufferSize := by
  unfold txPostPaddrNodbl at hpost
  split at hpost
  · cases hpost
  · split at hpost
    · cases hpost
    · next hlen =>
        cases hpost
        exact ⟨Function.update_self .., ((txLenOk_iff len).mp (by simpa using hlen)).2⟩

/-- Posted in place, the mbuf itself is named. -/
theorem txInPlace_names (hposted : (txInPlace pi m).fate ≠ .dropped)
    (haddr : (pi.ops.dataIova (pi.mbufs m)).toNat < 2 ^ 48) :
    Names (txInPlace pi m).pi pi.session.sfc.txHead m
      ((pi.mbufs m).bytes (pi.mbufs m).pktLen) := by
  unfold txInPlace at hposted ⊢
  rcases txPostPaddrNodbl_cases pi.session (pi.ops.dataIova (pi.mbufs m))
      (pi.mbufs m).pktLen with ⟨s', hpost, -, -⟩ | hpost
  · obtain ⟨hdesc, hle⟩ := desc_of_txPostPaddrNodbl hpost
    simp only [hpost, ne_eq, not_true_eq_false, if_false]
    refine ⟨?_, ?_⟩
    · show descByteCnt (s'.dev.txDescRing pi.session.sfc.txHead) = _
      rw [hdesc, descByteCnt_descWord, length_bytes]
      exact Nat.mod_eq_of_lt (Nat.lt_of_le_of_lt hle (by decide))
    · show BusHolds _ _ _ (descAddr (s'.dev.txDescRing pi.session.sfc.txHead)) _
      rw [hdesc, descAddr_descWord, Nat.mod_eq_of_lt haddr]
      exact .mbuf (by rw [length_bytes]; rfl)
  · simp only [hpost] at hposted
    exact absurd rfl hposted

theorem txOne_names (hpacket : Packet pi.mbufs m segs) (hposted : (txOne pi m).fate ≠ .dropped)
    (hslot : (slotPa pi.session.sfc.txBufferPaddr pi.session.sfc.txHead).toNat < 2 ^ 48)
    (hmbuf : (pi.ops.dataIova (pi.mbufs m)).toNat < 2 ^ 48) :
    Names (txOne pi m).pi pi.session.sfc.txHead m (padFrame (content pi.mbufs segs)) := by
  have hlen := hpacket.length_content
  unfold txOne at hposted ⊢
  by_cases hchain : (pi.mbufs m).nbSegs ≠ 1
  · simp only [if_pos hchain] at hposted ⊢
    exact txChained_names hpacket hposted hslot
  · have hsingle := hpacket.content_of_single (not_not.mp hchain)
    simp only [if_neg hchain] at hposted ⊢
    by_cases hfull : pi.txq.txInflightCnt ≥ numTxDesc - 16
    · simp only [if_pos hfull] at hposted
      exact absurd rfl hposted
    · simp only [if_neg hfull] at hposted ⊢
      by_cases hshort : (pi.mbufs m).pktLen < capioMinTxFrame
      · simp only [if_pos hshort] at hposted ⊢
        rw [hsingle]
        exact txCopied_names hposted hslot
      · -- nothing to pad
        simp only [if_neg hshort] at hposted ⊢
        rw [padFrame_of_le (by omega), hsingle]
        by_cases hcopy : pi.txCopyMode = true
        · simp only [if_pos hcopy] at hposted ⊢
          exact txCopied_names hposted hslot
        · simp only [if_neg hcopy] at hposted ⊢
          exact txInPlace_names hposted hmbuf

end Branches

/-! ## In a burst -/

section Burst

variable {pi : Internals} {m : Nat} {before after : List Nat}

/-- A frame of a burst that was looked at was looked at behind all those in front of it. -/
theorem txLoop_fate {fate : TxFate}
    (hfate : (txLoop pi (before ++ m :: after)).1[before.length]? = some fate) :
    (txOne (txLoop pi before).2.2 m).fate = fate := by
  induction before generalizing pi with
  | nil =>
    rw [List.nil_append, txLoop] at hfate
    split at hfate
    · exact Option.some.inj hfate
    · exact Option.some.inj hfate
  | cons x before ih =>
    rw [List.cons_append, txLoop, List.length_cons] at hfate
    rw [txLoop]
    split at hfate
    · next hmore =>
        simp only [hmore, if_true]
        exact ih hfate
    · rw [List.getElem?_cons_succ] at hfate
      cases hfate

theorem txLoop_mbufs (pi : Internals) (bufs : List Nat) :
    (txLoop pi bufs).2.2.mbufs = pi.mbufs ∧ (txLoop pi bufs).2.2.ops = pi.ops := by
  obtain ⟨-, hsame⟩ := txLoop_invariant (fun _ p _ => p.mbufs = pi.mbufs ∧ p.ops = pi.ops)
    (fun p _ x _ hsame => ⟨(txOne_case p x).1.mbufs.trans hsame.1,
      (txOne_case p x).1.ops.trans hsame.2⟩) bufs pi [] ⟨rfl, rfl⟩
  exact hsame

end Burst

/-- **The content of a frame.**  For every packet of up to 2048 bytes in every segmentation, in
every burst and in both modes: if it is posted, its descriptor names memory that holds the
segments one after the other, padded to 60 bytes; and neither local buffer is accessed behind
its end. -/
theorem tx_content_exact (pi : Internals) (before after : List Nat) (m : Nat) (segs : List Nat)
    (hpacket : Packet pi.mbufs m segs) (hfits : (pi.mbufs m).pktLen ≤ txBufferSize)
    (hslot : (slotPa (txLoop pi before).2.2.session.sfc.txBufferPaddr
      (txLoop pi before).2.2.session.sfc.txHead).toNat < 2 ^ 48)
    (hmbuf : (pi.ops.dataIova (pi.mbufs m)).toNat < 2 ^ 48) :
    (∀ fate, (ethCapioTx pi (before ++ m :: after)).2.1[before.length]? = some fate →
      fate ≠ .dropped →
      ∃ out, txOne (txLoop pi before).2.2 m = out ∧ out.fate = fate ∧
        Names out.pi (txLoop pi before).2.2.session.sfc.txHead m
          (padFrame (content pi.mbufs segs))) ∧
    (∀ mem, ∃ mem', Runs 0 txBufferSize (linbufFrame pi.mbufs segs) mem
      (padFrame (content pi.mbufs segs)) mem') ∧
    ((pi.mbufs m).nbSegs = 1 → (pi.mbufs m).pktLen < capioMinTxFrame →
      ∀ mem, ∃ mem', Runs 0 capioMinTxFrame
        (padbufFrame ((pi.mbufs m).bytes (pi.mbufs m).pktLen)) mem
        (padFrame (content pi.mbufs segs)) mem') := by
  obtain ⟨hsame, hops⟩ := txLoop_mbufs pi before
  refine ⟨?_, ?_, ?_⟩
  · intro fate hfate hposted
    have hone := txLoop_fate hfate
    refine ⟨_, rfl, hone, ?_⟩
    rw [← hone] at hposted
    rw [← hops] at hmbuf
    rw [← hsame] at hpacket hmbuf ⊢
    exact txOne_names hpacket hposted hslot hmbuf
  · exact linbufFrame_runs pi.mbufs (by rw [hpacket.length_content]; exact hfits)
  · intro hsingle hshort
    rw [hpacket.content_of_single hsingle]
    exact padbufFrame_runs (by rw [length_bytes]; omega)

/-- Mbuf 0 is 42 bytes in segments of 14 and 28. -/
def twoSegments : Nat → RteMbuf
  | 0 => { samplePool 0 with dataLen := 14, pktLen := 42, nbSegs := 2, next := some 1 }
  | m => { samplePool m with dataLen := 28, data := fun _ => 1#8 }

/-- The port that is handed it. -/
def twoSegmentPort : Internals :=
  ethDevCapioCreate rxIoctlAfterAttach.sc none false sampleOps twoSegments

theorem tx_content_exact_chain :
    ∃ out, txOne twoSegmentPort 0 = out ∧ out.fate = .copied ∧
      Names out.pi 0 0 (padFrame (content twoSegments [0, 1])) := by
  have hpacket : Packet twoSegments 0 [0, 1] := ⟨.cons (.cons .nil), rfl, rfl⟩
  exact (tx_content_exact twoSegmentPort [] [] 0 [0, 1] hpacket (by decide) (by decide)
    (by decide)).1 .copied (by decide) (by decide)

end Pmd
end SfcCapio
