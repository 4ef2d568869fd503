import SfcCapio.Foundation.Runs
import SfcCapio.Pmd.Receive
import SfcCapio.Pmd.Transmit

/-!
# Transmit descriptors and their completions

`TxSys` interleaves bursts of `eth_capio_tx` with the card and with the transmit
events that `eth_capio_rx` reaps.  Descriptors are numbered from 0 in the order in
which they are written; the card counts them from `base`, whose residue modulo 512
is the `tx_head` the driver was seeded with, and an event carries the low 16 bits
of the number of the last descriptor finished.

The driver compares this with `last_freed`, which starts at 0 whatever the seed.
`TxCount` states what remains true of the counter: after the first report it is
short by at most `seed - 1` and one for each short chain.  The module settles for
which seeds and how many such chains the producer never laps the card; which seeds
keep the mbufs safe is settled in the next one.
-/

namespace SfcCapio
namespace Pmd

open Hardware Userlib Kernel Handover Foundation

/-! ## The system -/

/-- The driver and the card.  `posted` lists, for each descriptor written, the
mbuf it reads from; `none` is a library slot. -/
structure TxSys where
  pi : Internals
  base : Nat
  posted : List (Option Nat)
  completed : Nat
  reported : Nat

/-- A burst, with the mbufs as the caller has filled them, the card finishing
descriptors, and a transmit event. -/
inductive TxLabel
  | burst (mbufs : Nat → RteMbuf) (bufs : List Nat)
  | complete (upto : Nat)
  | event (upto : Nat)

namespace TxSys

/-- The event for the first `upto` descriptors. -/
def txEvent (s : TxSys) (upto : Nat) : Ev where
  type := .tx
  txDescIdx := (s.base + upto - 1) % 2 ^ 16
  rxBytes := 0
  raw := 0#64

/-- Events come in order and not before the card has finished. -/
def CanReport (s : TxSys) (upto : Nat) : Prop :=
  1 ≤ upto ∧ s.reported ≤ upto ∧ upto ≤ s.completed

instance (s : TxSys) (upto : Nat) : Decidable (s.CanReport upto) :=
  inferInstanceAs (Decidable (_ ∧ _))

/-- The loop body of `eth_capio_rx` on that event; no mbuf is allocated for it. -/
def reports (s : TxSys) (upto : Nat) : RxOutcome :=
  pmdEvent s.pi (s.txEvent upto) { bulk := none, single := none }
    { bulk := none, single := none }

/-- What `eth_capio_tx` returns for a burst. -/
def bursts (s : TxSys) (mbufs : Nat → RteMbuf) (bufs : List Nat) :
    Nat × List TxFate × Internals :=
  ethCapioTx { s.pi with mbufs := mbufs } bufs

/-- The system after frames have met their fates. -/
def after (s : TxSys) (pi : Internals) (fates : List TxFate) : TxSys :=
  { s with pi := pi, posted := s.posted ++ fates.flatMap TxFate.descriptors }

end TxSys

/-- The interleaved system. -/
def txStep (s : TxSys) : TxLabel → Option TxSys
  | .burst mbufs bufs => some (s.after (s.bursts mbufs bufs).2.2 (s.bursts mbufs bufs).2.1)
  | .complete upto =>
    if s.completed ≤ upto ∧ upto ≤ s.posted.length then some { s with completed := upto }
    else none
  | .event upto =>
    if s.CanReport upto then some { s with pi := (s.reports upto).pi, reported := upto }
    else none

/-- The driver after probe; the card's counter stands at `base`. -/
def txStart (sc : Softc) (rxWindow : Option (BitVec 32)) (rxCopy : Bool) (ops : MbufOps)
    (mbufs : Nat → RteMbuf) (base : Nat) : TxSys where
  pi := ethDevCapioCreate sc rxWindow rxCopy ops mbufs
  base := base
  posted := []
  completed := 0
  reported := 0

/-- At most 512 descriptors are written and not completed, so a descriptor is
written only into a slot whose last descriptor is completed. -/
def NeverLaps (s : TxSys) : Prop := s.posted.length ≤ s.completed + 512

/-- A chain that fits the buffer it is linearised in: its descriptor is not counted. -/
def RteMbuf.shortChain (mb : RteMbuf) : Bool :=
  decide (mb.nbSegs ≠ 1 ∧ mb.pktLen ≤ txBufferSize)

/-- The short chains handed to a call. -/
def TxLabel.chains : TxLabel → Nat
  | .burst mbufs bufs => bufs.countP fun m => (mbufs m).shortChain
  | _ => 0

/-- The short chains of a whole run. -/
def shortChains (labels : List TxLabel) : Nat := (labels.map TxLabel.chains).sum

/-! ## Bursts and reports on the view -/

theorem after_after (s : TxSys) (pi pi' : Internals) (fates : List TxFate) (f : TxFate) :
    (s.after pi fates).after pi' [f] = s.after pi' (fates ++ [f]) := by
  simp [TxSys.after, List.flatMap_append, List.append_assoc]

/-- Ringing the transmit doorbell changes nothing the view shows. -/
theorem txFlush_sfc (s : Session) : (txFlush s).sfc = s.sfc := by
  unfold txFlush
  split <;> rfl

/-- The induction rule for a burst: what each frame keeps, relative to the frames still
to come, and the flush does not touch holds after the burst. -/
theorem bursts_invariant (Inv : List Nat → TxSys → List TxFate → Prop) (s : TxSys)
    (mbufs : Nat → RteMbuf) (bufs : List Nat)
    (hstart : Inv bufs { s with pi := { s.pi with mbufs := mbufs } } [])
    (hframe : ∀ (u : TxSys) fates m ms, u.pi.mbufs = mbufs → Inv (m :: ms) u fates →
      Inv ms (u.after (txOne u.pi m).pi [(txOne u.pi m).fate]) (fates ++ [(txOne u.pi m).fate]))
    (hflush : ∀ rest (u : TxSys) fates, Inv rest u fates →
      Inv rest { u with pi := { u.pi with session := txFlush u.pi.session } } fates) :
    ∃ rest, Inv rest (s.after (s.bursts mbufs bufs).2.2 (s.bursts mbufs bufs).2.1)
      (s.bursts mbufs bufs).2.1 := by
  have hafter : s.after { s.pi with mbufs := mbufs } [] =
      { s with pi := { s.pi with mbufs := mbufs } } := by
    simp [TxSys.after]
  obtain ⟨rest, -, hloop⟩ := txLoop_invariant
    (fun rest pi fates => pi.mbufs = mbufs ∧ Inv rest (s.after pi fates) fates)
    (by
      rintro pi fates m ms ⟨hmbufs, hinv⟩
      refine ⟨(txOne_case pi m).1.mbufs.trans hmbufs, ?_⟩
      have hone := hframe (s.after pi fates) fates m ms hmbufs hinv
      rw [after_after] at hone
      exact hone)
    bufs { s.pi with mbufs := mbufs } [] ⟨rfl, hafter ▸ hstart⟩
  rw [List.nil_append] at hloop
  refine ⟨rest, ?_⟩
  simp only [TxSys.bursts, ethCapioTx]
  split
  · exact hflush _ _ _ hloop
  · exact hloop

/-- A report moves `last_freed` to the slot of the last descriptor finished, and
the counter down by the number of slots passed on the way. -/
theorem reports_eq {s : TxSys} {upto n : Nat} (hlast : s.pi.txq.lastFreed < 512) (hn : n < 512)
    (hdone : (s.base + upto - 1) % 512 = (s.pi.txq.lastFreed + n) % 512) :
    s.reports upto =
      { pi :=
          { s.pi with
            txq :=
              { (reapRounds n s.pi.txq s.pi.txq.lastFreed).2 with
                lastFreed := (s.base + upto - 1) % 512 } }
        acts := (reapRounds n s.pi.txq s.pi.txq.lastFreed).1.map .free
        used := none
        more := true } := by
  have hidx : (s.base + upto - 1) % 2 ^ 16 % 512 = (s.base + upto - 1) % 512 := by omega
  have hreap := reap_eq_rounds (n := n) s.pi.txq ((s.base + upto - 1) % 2 ^ 16) hn hlast
    (by rw [hidx, hdone])
  simp only [TxSys.reports, pmdEvent, TxSys.txEvent, hreap, hidx]

/-! ## The counter -/

/-- Ring positions and counts after `u` short chains.  The counter may be short of the
descriptors in flight by these and by what the first report counted too much. -/
structure TxCount (u : Nat) (s : TxSys) : Prop where
  head : s.pi.txView.head = (s.base + s.posted.length) % 512
  lastFreed : s.pi.txView.lastFreed =
    if s.reported = 0 then 0 else (s.base + s.reported - 1) % 512
  order : s.reported ≤ s.completed ∧ s.completed ≤ s.posted.length
  cntLe : s.pi.txView.cnt ≤ 496
  short : s.posted.length ≤ s.reported + s.pi.txView.cnt + u +
    if s.reported = 0 then 0 else s.base % 512 - 1

namespace TxCount

variable {u : Nat} {s : TxSys}

theorem mono {v : Nat} (hinv : TxCount u s) (hle : u ≤ v) : TxCount v s :=
  { hinv with short := hinv.short.trans (by omega) }

theorem lastFreed_lt (hinv : TxCount u s) : s.pi.txq.lastFreed < 512 := by
  have hlast := hinv.lastFreed
  change s.pi.txq.lastFreed = _ at hlast
  rw [hlast]
  split
  · decide
  · exact Nat.mod_lt _ (by decide)

/-- The ring has room for 16 descriptors that the counter does not show. -/
theorem neverLaps (hinv : TxCount u s) (hslack : s.base % 512 - 1 + u ≤ 16) : NeverLaps s := by
  have hshort := hinv.short
  have hcnt := hinv.cntLe
  have horder := hinv.order
  unfold NeverLaps
  split at hshort <;> omega

theorem frame (hinv : TxCount u s) (m : Nat) :
    TxCount (u + if (s.pi.mbufs m).shortChain then 1 else 0)
      (s.after (txOne s.pi m).pi [(txOne s.pi m).fate]) := by
  obtain ⟨-, hcase⟩ := txOne_case s.pi m
  have hhead := hinv.head
  have hshort := hinv.short
  have horder := hinv.order
  have hcnt : s.pi.txView.cnt = s.pi.txq.txInflightCnt := rfl
  generalize hview : (txOne s.pi m).pi.txView = v at hcase
  generalize (txOne s.pi m).fate = f at hcase
  cases hcase with
  | dropped =>
    refine ⟨?_, ?_, ?_, ?_, ?_⟩ <;>
      simp only [TxSys.after, hview, List.flatMap_cons, List.flatMap_nil, TxFate.descriptors,
        List.append_nil]
    · exact hinv.head
    · exact hinv.lastFreed
    · exact hinv.order
    · exact hinv.cntLe
    · omega
  | linearised hchain hfits =>
    -- written in any case, and the counter stays
    have hone : (s.pi.mbufs m).shortChain = true := decide_eq_true ⟨hchain, hfits⟩
    refine ⟨?_, ?_, ?_, ?_, ?_⟩ <;>
      simp only [TxSys.after, hview, List.flatMap_cons, List.flatMap_nil, TxFate.descriptors,
        TxView.written, List.length_append, List.length_cons, List.length_nil, hone, if_true]
    · omega
    · exact hinv.lastFreed
    · omega
    · exact hinv.cntLe
    · omega
  | copied hsingle hroom hcopy =>
    refine ⟨?_, ?_, ?_, ?_, ?_⟩ <;>
      simp only [TxSys.after, hview, List.flatMap_cons, List.flatMap_nil, TxFate.descriptors,
        TxView.counted, List.length_append, List.length_cons, List.length_nil]
    · omega
    · exact hinv.lastFreed
    · omega
    · omega
    · omega
  | held hsingle hroom hlong hcopy =>
    refine ⟨?_, ?_, ?_, ?_, ?_⟩ <;>
      simp only [TxSys.after, hview, List.flatMap_cons, List.flatMap_nil, TxFate.descriptors,
        TxView.holding, TxView.counted, List.length_append, List.length_cons, List.length_nil]
    · omega
    · exact hinv.lastFreed
    · omega
    · omega
    · omega

theorem flush (hinv : TxCount u s) :
    TxCount u { s with pi := { s.pi with session := txFlush s.pi.session } } := by
  have hview : Internals.txView { s.pi with session := txFlush s.pi.session } = s.pi.txView := by
    simp only [Internals.txView, txFlush_sfc]
  refine ⟨?_, ?_, hinv.order, ?_, ?_⟩ <;> simp only [hview]
  · exact hinv.head
  · exact hinv.lastFreed
  · exact hinv.cntLe
  · exact hinv.short

theorem burst (hinv : TxCount u s) (mbufs : Nat → RteMbuf) (bufs : List Nat) :
    TxCount (u + TxLabel.chains (.burst mbufs bufs))
      (s.after (s.bursts mbufs bufs).2.2 (s.bursts mbufs bufs).2.1) := by
  obtain ⟨rest, v, hle, hcount⟩ := bursts_invariant
    (fun rest p _ => ∃ v, v + TxLabel.chains (.burst mbufs rest) ≤
      u + TxLabel.chains (.burst mbufs bufs) ∧ TxCount v p) s mbufs bufs
    ⟨u, Nat.le_refl _, { hinv with }⟩
    (by
      rintro p fates m ms hmbufs ⟨v, hle, hp⟩
      refine ⟨_, ?_, hp.frame m⟩
      simp only [TxLabel.chains, List.countP_cons] at hle ⊢
      rw [hmbufs]
      omega)
    (by
      rintro rest p fates ⟨v, hle, hp⟩
      exact ⟨v, hle, hp.flush⟩)
  exact hcount.mono (by omega)

/-- The number of slots from `last_freed` to the slot of a report. -/
def rounds (s : TxSys) (upto : Nat) : Nat :=
  ((s.base + upto - 1) % 512 + (512 - s.pi.txq.lastFreed)) % 512

theorem rounds_lt (s : TxSys) (upto : Nat) : rounds s upto < 512 :=
  Nat.mod_lt _ (by decide)

theorem rounds_done (hinv : TxCount u s) (upto : Nat) :
    (s.base + upto - 1) % 512 = (s.pi.txq.lastFreed + rounds s upto) % 512 := by
  have hlast := hinv.lastFreed_lt
  unfold rounds
  omega

theorem event (hinv : TxCount u s) {upto : Nat} (hreport : s.CanReport upto) :
    TxCount u { s with pi := (s.reports upto).pi, reported := upto } := by
  obtain ⟨hpos, hle, hdone⟩ := hreport
  have horder := hinv.order
  have hlast := hinv.lastFreed
  have hshort := hinv.short
  have hcnt := hinv.cntLe
  have hcntEq : s.pi.txView.cnt = s.pi.txq.txInflightCnt := rfl
  have hlastEq : s.pi.txView.lastFreed = s.pi.txq.lastFreed := rfl
  have hreports := reports_eq hinv.lastFreed_lt (rounds_lt s upto) (hinv.rounds_done upto)
  have hcount := reapRounds_txInflightCnt (rounds s upto) s.pi.txq.lastFreed s.pi.txq
  have hnonzero : upto ≠ 0 := by omega
  refine ⟨?_, ?_, ⟨hdone, horder.2⟩, ?_, ?_⟩
  · rw [hreports]
    exact hinv.head
  · rw [hreports]
    simp only [Internals.txView, hnonzero, if_false]
  · rw [hreports]
    simp only [Internals.txView, hcount]
    omega
  · rw [hreports]
    simp only [Internals.txView, hcount, hnonzero, if_false]
    unfold rounds
    by_cases hfirst : s.reported = 0
    · -- the first report passes `seed - 1` slots that were never posted
      rw [if_pos hfirst] at hlast hshort
      omega
    · rw [if_neg hfirst] at hlast hshort
      omega

theorem complete (hinv : TxCount u s) {upto : Nat} (hlow : s.completed ≤ upto)
    (hhigh : upto ≤ s.posted.length) : TxCount u { s with completed := upto } :=
  { hinv with order := ⟨Nat.le_trans hinv.order.1 hlow, hhigh⟩ }

end TxCount

variable {u base m k done n count : Nat} {sc : Softc} {rxWindow : Option (BitVec 32)}
  {rxCopy : Bool} {ops : MbufOps} {mbufs : Nat → RteMbuf}

/-- A step keeps the count, up to the short chains it sends. -/
theorem txCount_step {s s' : TxSys} {a : TxLabel} (hinv : TxCount u s)
    (hstep : txStep s a = some s') : TxCount (u + a.chains) s' ∧ s'.base = s.base := by
  cases a with
  | burst mbufs bufs =>
    cases hstep
    exact ⟨hinv.burst mbufs bufs, rfl⟩
  | complete upto =>
    simp only [txStep] at hstep
    split at hstep
    · rename_i hguard
      cases hstep
      exact ⟨hinv.complete hguard.1 hguard.2, rfl⟩
    · cases hstep
  | event upto =>
    simp only [txStep] at hstep
    split at hstep
    · rename_i hguard
      cases hstep
      exact ⟨hinv.event hguard, rfl⟩
    · cases hstep

theorem txCount_exec {s t : TxSys} {labels : List TxLabel} (hinv : TxCount u s)
    (hrun : exec txStep s labels = some t) :
    TxCount (u + shortChains labels) t ∧ t.base = s.base := by
  induction labels generalizing u s with
  | nil =>
    cases hrun
    exact ⟨hinv, rfl⟩
  | cons a labels ih =>
    obtain ⟨s', hstep, hrest⟩ := exec_cons_eq_some hrun
    obtain ⟨hnext, hbase⟩ := txCount_step hinv hstep
    obtain ⟨hcount, hbase'⟩ := ih hnext hrest
    refine ⟨?_, hbase'.trans hbase⟩
    rw [Nat.add_assoc] at hcount
    exact hcount

theorem txCount_txStart (hbase : base % 512 = sc.txHead) :
    TxCount 0 (txStart sc rxWindow rxCopy ops mbufs base) where
  head := hbase.symm
  lastFreed := rfl
  order := ⟨Nat.le_refl 0, Nat.le_refl 0⟩
  cntLe := Nat.zero_le 496
  short := Nat.zero_le _

/-! ## Bursts of one frame -/

/-- A single-segment frame of 60 bytes. -/
def plainFrame : RteMbuf where
  bufIova := 0x40000000#64
  bufLen := 2176
  dataOff := 128
  dataLen := 60
  pktLen := 60
  nbSegs := 1
  next := none
  data := fun _ => 0#8

/-- A frame of 60 bytes in two segments, the mbufs `m` and `m + 1`. -/
def chainAt (m x : Nat) : RteMbuf :=
  { plainFrame with
    dataLen := 30
    nbSegs := if x = m then 2 else 1
    next := if x = m then some (m + 1) else none }

/-- The driver is ready to transmit in zero-copy mode. -/
structure TxReady (pi : Internals) : Prop where
  ready : pi.session.sfc.Ready
  zeroCopy : pi.txCopyMode = false

theorem txStep_burst_one (s : TxSys) (mbufs : Nat → RteMbuf) (m : Nat) :
    ∃ pi, txStep s (.burst mbufs [m]) =
        some (s.after pi [(txOne { s.pi with mbufs := mbufs } m).fate]) ∧
      pi.txView = (txOne { s.pi with mbufs := mbufs } m).pi.txView ∧
      (TxReady s.pi → TxReady pi) := by
  obtain ⟨hframe, -⟩ := txOne_case { s.pi with mbufs := mbufs } m
  generalize hone : txOne { s.pi with mbufs := mbufs } m = out at hframe
  have hkeep : TxReady s.pi → TxReady out.pi := fun hr =>
    ⟨hframe.ready hr.ready, hframe.txCopyMode.trans hr.zeroCopy⟩
  cases hmore : out.more with
  | false =>
    refine ⟨out.pi, ?_, rfl, hkeep⟩
    simp [txStep, TxSys.bursts, ethCapioTx, txLoop, hone, hmore]
  | true =>
    refine ⟨{ out.pi with session := txFlush out.pi.session }, ?_, ?_, ?_⟩
    · simp [txStep, TxSys.bursts, ethCapioTx, txLoop, hone, hmore]
    · simp only [Internals.txView, txFlush_sfc]
    · intro hr
      refine ⟨?_, (hkeep hr).zeroCopy⟩
      rw [txFlush_sfc]
      exact (hkeep hr).ready

/-- A plain frame is posted in place while the counter is below its limit. -/
theorem txOne_plain {pi : Internals} (hready : TxReady pi) (hmb : pi.mbufs m = plainFrame)
    (hroom : pi.txView.cnt < 496) :
    (txOne pi m).pi.txView = pi.txView.holding m ∧
      (txOne pi m).fate.descriptors = [some m] := by
  have hcnt : ¬ pi.txq.txInflightCnt ≥ numTxDesc - 16 := by
    change ¬ pi.txView.cnt ≥ 496
    omega
  have hposted : (txPostPaddrNodbl pi.session (pi.ops.dataIova plainFrame) 60).1 = 0 := by
    simp [txPostPaddrNodbl, hready.ready.txDescRing, txLenOk, txBufferSize]
  have hin : (txInPlace pi m).fate ≠ .dropped := by
    simp only [txInPlace, hmb]
    rw [if_neg]
    · simp
    · intro hne
      exact hne hposted
  have hfate : (txOne pi m).fate ≠ .dropped := by
    simp only [txOne, hmb, hcnt, hready.zeroCopy]
    simpa [plainFrame] using hin
  -- the other lines of the body need another frame
  obtain ⟨-, hcase⟩ := txOne_case pi m
  generalize (txOne pi m).pi.txView = v at hcase ⊢
  generalize (txOne pi m).fate = f at hcase hfate ⊢
  cases hcase with
  | dropped => exact absurd rfl hfate
  | linearised hchain _ => exact absurd (by rw [hmb]; rfl) hchain
  | copied _ _ hcopy =>
    rcases hcopy with hshort | hmode
    · rw [hmb] at hshort
      exact absurd hshort (by decide)
    · rw [hready.zeroCopy] at hmode
      cases hmode
  | held _ _ _ _ => exact ⟨rfl, rfl⟩

/-- A short chain is linearised whatever the counter says, and not counted. -/
theorem txOne_chained {pi : Internals} (hready : TxReady pi) (hmb : pi.mbufs = chainAt m) :
    (txOne pi m).pi.txView = pi.txView.written ∧
      (txOne pi m).fate.descriptors = [none] := by
  have hbytes : (padFrame (gathered pi.mbufs m)).length = 60 := by
    rw [length_padFrame, gathered, hmb]
    simp [maxSegs, gather, chainAt, plainFrame, capioMinTxFrame]
  have hposted : (txPost pi.session (padFrame (gathered pi.mbufs m))).1 = 0 := by
    simp [txPost, hready.ready.txBuffer, SfcIf.txMapped, hready.ready.txDescRing,
      hready.ready.mmioSlices, hready.ready.mmioSlicesLen, txLenOk, hbytes, txBufferSize,
      sliceTxDescDbl, sliceCount]
  have hsegs : (pi.mbufs m).nbSegs = 2 := by simp [hmb, chainAt]
  have hlen : (pi.mbufs m).pktLen = 60 := by simp [hmb, chainAt, plainFrame]
  have hfate : (txOne pi m).fate ≠ .dropped := by
    simp [txOne, txChained, hsegs, hlen, hposted, txBufferSize]
  obtain ⟨-, hcase⟩ := txOne_case pi m
  generalize (txOne pi m).pi.txView = v at hcase ⊢
  generalize (txOne pi m).fate = f at hcase hfate ⊢
  cases hcase with
  | dropped => exact absurd rfl hfate
  | linearised _ _ => exact ⟨rfl, rfl⟩
  | copied hsingle _ _ | held hsingle _ _ _ =>
    rw [hsegs] at hsingle
    exact absurd hsingle (by decide)

/-- What a burst of one frame leads to. -/
structure BurstOf (s s' : TxSys) (desc : Option Nat) (v : TxView) : Prop where
  ready : TxReady s'.pi
  view : s'.pi.txView = v
  posted : s'.posted = s.posted ++ [desc]
  base : s'.base = s.base
  completed : s'.completed = s.completed
  reported : s'.reported = s.reported

variable {s : TxSys}

theorem exists_burst {desc : Option Nat} {v : TxView} (hready : TxReady s.pi)
    (hone : (txOne { s.pi with mbufs := mbufs } m).pi.txView = v ∧
      (txOne { s.pi with mbufs := mbufs } m).fate.descriptors = [desc]) :
    ∃ s', txStep s (.burst mbufs [m]) = some s' ∧ BurstOf s s' desc v := by
  obtain ⟨pi, hstep, hview, hkeep⟩ := txStep_burst_one s mbufs m
  refine ⟨_, hstep, hkeep hready, hview.trans hone.1, ?_, rfl, rfl, rfl⟩
  simp only [TxSys.after, List.flatMap_cons, List.flatMap_nil, hone.2, List.append_nil]

/-- The burst of the plain frame `m`. -/
def onePlain (m : Nat) : TxLabel := .burst (fun _ => plainFrame) [m]

/-- The burst of the short chain that starts at `m`. -/
def oneChain (m : Nat) : TxLabel := .burst (chainAt m) [m]

theorem exists_burst_plain (m : Nat) (hready : TxReady s.pi) (hroom : s.pi.txView.cnt < 496) :
    ∃ s', txStep s (onePlain m) = some s' ∧ BurstOf s s' (some m) (s.pi.txView.holding m) :=
  exists_burst hready (txOne_plain { hready with } rfl hroom)

theorem exists_burst_chained (m : Nat) (hready : TxReady s.pi) :
    ∃ s', txStep s (oneChain m) = some s' ∧ BurstOf s s' none s.pi.txView.written :=
  exists_burst hready (txOne_chained { hready with } rfl)

/-! ## Filling the ring -/

/-- `k` plain frames posted and nothing reported; the mbufs are numbered in the
order of posting. -/
structure Posting (base k : Nat) (s : TxSys) : Prop where
  ready : TxReady s.pi
  baseEq : s.base = base
  posted : s.posted = (List.range k).map some
  completed : s.completed = 0
  reported : s.reported = 0
  head : s.pi.txView.head = (base + k) % 512
  lastFreed : s.pi.txView.lastFreed = 0
  cnt : s.pi.txView.cnt = k
  inflight : ∀ j, j < k → s.pi.txView.inflight ((base + j) % 512) = some j

theorem posting_txStart (hbase : base % 512 = sc.txHead) :
    Posting base 0 (txStart sc rxWindow rxCopy ops mbufs base) where
  ready := ⟨⟨rfl, rfl, rfl, rfl, rfl, rfl, rfl⟩, rfl⟩
  baseEq := rfl
  posted := rfl
  completed := rfl
  reported := rfl
  head := hbase.symm
  lastFreed := rfl
  cnt := rfl
  inflight := by
    intro j hj
    omega

theorem Posting.progress (k : Nat) (s : TxSys) (hk : k < 496) (hst : Posting base k s) :
    ∃ s', txStep s (onePlain k) = some s' ∧ Posting base (k + 1) s' := by
  obtain ⟨s', hstep, hburst⟩ := exists_burst_plain k hst.ready (by rw [hst.cnt]; exact hk)
  have hview := hburst.view
  refine ⟨s', hstep,
    { ready := hburst.ready
      baseEq := hburst.base.trans hst.baseEq
      posted := ?_
      completed := hburst.completed.trans hst.completed
      reported := hburst.reported.trans hst.reported
      head := ?_
      lastFreed := ?_
      cnt := ?_
      inflight := ?_ }⟩
  · rw [hburst.posted, hst.posted, List.range_succ, List.map_append]
    rfl
  · rw [hview]
    simp only [TxView.holding, TxView.counted, hst.head]
    omega
  · rw [hview]
    exact hst.lastFreed
  · rw [hview]
    simp only [TxView.holding, TxView.counted, hst.cnt]
  · intro j hj
    rw [hview]
    simp only [TxView.holding, hst.head, Nat.mod_mod]
    by_cases hlast : j = k
    · subst j
      rw [Function.update_self]
    · rw [Function.update_of_ne (by omega)]
      exact hst.inflight j (by omega)

theorem exec_onePlain (hbase : base % 512 = sc.txHead) (hk : k ≤ 496) :
    ∃ s, exec txStep (txStart sc rxWindow rxCopy ops mbufs base)
        ((List.range k).map onePlain) = some s ∧ Posting base k s :=
  exec_range_of_progress onePlain
    (fun j u hj => Posting.progress j u (Nat.lt_of_lt_of_le hj hk)) (posting_txStart hbase)

/-- The card finishes the first `upto` descriptors and reports them. -/
def TxSys.finishedTo (s : TxSys) (upto : Nat) : TxSys :=
  { s with completed := upto, pi := (s.reports upto).pi, reported := upto }

theorem exec_finish {upto : Nat} (hpos : 1 ≤ upto) (horder : s.reported ≤ upto ∧ s.completed ≤ upto)
    (hle : upto ≤ s.posted.length) :
    exec txStep s [.complete upto, .event upto] = some (s.finishedTo upto) := by
  have hfirst : txStep s (.complete upto) = some { s with completed := upto } :=
    if_pos ⟨horder.2, hle⟩
  have hreport : TxSys.CanReport { s with completed := upto } upto :=
    ⟨hpos, horder.1, Nat.le_refl upto⟩
  rw [exec_cons_of_some hfirst, exec_cons_of_some (if_pos hreport), exec_nil]
  rfl

/-! ## Which seeds keep the producer behind the card -/

/-- `n` descriptors are written and `done` of them finished, while the counter shows at
most `count`. -/
structure Outstanding (done n count : Nat) (s : TxSys) : Prop where
  ready : TxReady s.pi
  posted : s.posted.length = n
  completed : s.completed = done
  cnt : s.pi.txView.cnt ≤ count

/-- Plain frames go out until the counter is full. -/
theorem Outstanding.plains (hst : Outstanding done n count s) (hk : count + k ≤ 496) :
    ∃ t, exec txStep s ((List.range k).map fun i => onePlain (n + i)) = some t ∧
      Outstanding done (n + k) (count + k) t := by
  apply exec_range_of_progress _ _ hst
  intro i u hi hu
  have hcnt := hu.cnt
  obtain ⟨u', hstep, hburst⟩ := exists_burst_plain (n + i) hu.ready (by omega)
  refine ⟨u', hstep, hburst.ready, ?_, hburst.completed.trans hu.completed, ?_⟩
  · rw [hburst.posted, List.length_append, hu.posted]
    rfl
  · rw [hburst.view]
    simp only [TxView.holding, TxView.counted]
    omega

/-- Short chains go out whatever the counter shows. -/
theorem Outstanding.chains (hst : Outstanding done n count s) (k : Nat) :
    ∃ t, exec txStep s ((List.range k).map fun i => oneChain (n + 2 * i)) = some t ∧
      Outstanding done (n + k) count t := by
  apply exec_range_of_progress _ _ hst
  intro i u _ hu
  obtain ⟨u', hstep, hburst⟩ := exists_burst_chained (n + 2 * i) hu.ready
  refine ⟨u', hstep, hburst.ready, ?_, hburst.completed.trans hu.completed, ?_⟩
  · rw [hburst.posted, List.length_append, hu.posted]
    rfl
  · rw [hburst.view]
    exact hu.cnt

/-- The first report counts the slots from 1 up to the seed. -/
theorem Posting.reported_one (hst : Posting base 496 s) :
    exec txStep s [.complete 1, .event 1] = some (s.finishedTo 1) ∧
      Outstanding 1 496 (496 - base % 512) (s.finishedTo 1) := by
  have hlen : s.posted.length = 496 := by
    rw [hst.posted, List.length_map, List.length_range]
  have hlast : s.pi.txq.lastFreed = 0 := hst.lastFreed
  have hcnt : s.pi.txq.txInflightCnt = 496 := hst.cnt
  have hdone : (s.base + 1 - 1) % 512 = (s.pi.txq.lastFreed + base % 512) % 512 := by
    rw [hst.baseEq, hlast]
    omega
  have hreports := reports_eq (by omega) (Nat.mod_lt base (by decide)) hdone
  refine ⟨?_, ?_⟩
  · apply exec_finish (Nat.le_refl 1)
    · rw [hst.reported, hst.completed]
      decide
    · omega
  · refine ⟨?_, hlen, rfl, ?_⟩
    · simp only [TxSys.finishedTo, hreports]
      exact ⟨hst.ready.ready, hst.ready.zeroCopy⟩
    · simp only [TxSys.finishedTo, hreports, Internals.txView, reapRounds_txInflightCnt, hcnt]
      omega

theorem shortChains_append (as bs : List TxLabel) :
    shortChains (as ++ bs) = shortChains as + shortChains bs := by
  simp only [shortChains, List.map_append, List.sum_append]

theorem shortChains_plains (f : Nat → Nat) (k : Nat) :
    shortChains ((List.range k).map fun i => onePlain (f i)) = 0 := by
  simp [shortChains, onePlain, TxLabel.chains, plainFrame, RteMbuf.shortChain, Function.comp_def]

theorem shortChains_chains (f : Nat → Nat) (k : Nat) :
    shortChains ((List.range k).map fun i => oneChain (f i)) = k := by
  simp [shortChains, oneChain, TxLabel.chains, chainAt, plainFrame, RteMbuf.shortChain,
    txBufferSize, Function.comp_def]

section Main

variable {sc : Softc} {rxWindow : Option (BitVec 32)} {rxCopy : Bool} {ops : MbufOps}
variable {mbufs : Nat → RteMbuf} {base : Nat}

variable (rxWindow rxCopy ops mbufs) in
/-- Plain frames alone bring the ring to 496 and `extra` more, if the seed allows it. -/
theorem exists_outstanding (hbase : base % 512 = sc.txHead) {extra : Nat}
    (hextra : extra ≤ base % 512 - 1) (hle : extra ≤ 17) :
    ∃ labels s done, shortChains labels = 0 ∧
      exec txStep (txStart sc rxWindow rxCopy ops mbufs base) labels = some s ∧
      Outstanding done (done + 496 + extra) 496 s := by
  obtain ⟨s, hposts, hst⟩ := exec_onePlain (k := 496) hbase (Nat.le_refl 496)
  by_cases hseed : base % 512 = 0
  · refine ⟨_, s, 0, shortChains_plains id 496, hposts, hst.ready, ?_, hst.completed, ?_⟩
    · rw [hst.posted, List.length_map, List.length_range]
      omega
    · exact Nat.le_of_eq hst.cnt
  · -- the first report takes the seed off the counter, and one descriptor off the ring
    obtain ⟨hreport, hout⟩ := hst.reported_one
    obtain ⟨t, hmore, ht⟩ := hout.plains (k := extra + 1) (by omega)
    refine ⟨_, t, 1, ?_, exec_append hposts (exec_append hreport hmore), ht.ready, ?_,
      ht.completed, ?_⟩
    · rw [shortChains_append, shortChains_append, shortChains_plains, shortChains_plains]
      rfl
    · rw [ht.posted]
      omega
    · exact ht.cnt.trans (by omega)

/-- If at most `u` short chains are sent, the producer stays behind the card exactly when
these and the seed but one come to no more than 16.  Without chains the seeds up to 17
are the safe ones. -/
theorem tx_producer_never_laps_iff (hbase : base % 512 = sc.txHead) (u : Nat) :
    (∀ labels t, shortChains labels ≤ u →
      exec txStep (txStart sc rxWindow rxCopy ops mbufs base) labels = some t →
      NeverLaps t) ↔ sc.txHead - 1 + u ≤ 16 := by
  rw [← hbase]
  constructor
  · intro hall
    by_contra hslack
    obtain ⟨labels, s, done, hnone, hrun, hst⟩ :=
      exists_outstanding rxWindow rxCopy ops mbufs hbase
        (Nat.min_le_left (base % 512 - 1) 17) (Nat.min_le_right ..)
    obtain ⟨t, hmore, ht⟩ := hst.chains u
    have hlaps := hall _ t (by rw [shortChains_append, hnone, shortChains_chains, Nat.zero_add])
      (exec_append hrun hmore)
    unfold NeverLaps at hlaps
    rw [ht.posted, ht.completed] at hlaps
    omega
  · intro hslack labels t hchains hrun
    obtain ⟨hcount, hb⟩ := txCount_exec (txCount_txStart hbase) hrun
    refine hcount.neverLaps ?_
    rw [hb]
    change base % 512 - 1 + _ ≤ 16
    omega

end Main

/-- A port probed right after attach, where the seed is 0, takes 16 short chains. -/
theorem tx_producer_never_laps_after_attach :
    0 % 512 = rxIoctlAfterAttach.sc.txHead ∧
      ∀ labels t, shortChains labels ≤ 16 →
        exec txStep (txStart rxIoctlAfterAttach.sc none false sampleOps samplePool 0) labels =
          some t →
        NeverLaps t :=
  ⟨rfl, (tx_producer_never_laps_iff rfl 16).mpr (by decide)⟩

/-- Chained frames of 60 bytes lap a stalled card. -/
theorem tx_short_chains_lap :
    ∃ labels t,
      exec txStep (txStart rxIoctlAfterAttach.sc none false sampleOps samplePool 0) labels =
        some t ∧ ¬ NeverLaps t := by
  have hstart : Outstanding 0 0 0
      (txStart rxIoctlAfterAttach.sc none false sampleOps samplePool 0) :=
    ⟨⟨⟨rfl, rfl, rfl, rfl, rfl, rfl, rfl⟩, rfl⟩, rfl, rfl, Nat.le_refl 0⟩
  obtain ⟨t, hrun, ht⟩ := hstart.chains 513
  refine ⟨_, t, hrun, ?_⟩
  unfold NeverLaps
  rw [ht.posted, ht.completed]
  decide

end Pmd
end SfcCapio
