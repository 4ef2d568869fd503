import SfcCapio.Pmd.Transmit
import SfcCapio.Userlib.EventQueue

/-!
# What the return value of `eth_capio_tx` says

A burst function returns how many mbufs it has taken over.  Its caller, `send_burst`,
frees `bufs[r], ..., bufs[nb_bufs - 1]` for a return value `r`, so those must still be
the caller's, and each of the mbufs before them must have been freed once or be held in
`inflight[]`.

The three branches that leave the loop early (ring full, and a failed post of either
kind) free the mbuf they stop at, and the value returned is its index.
`tx_return_iff` therefore asks that the loop is not left early.  It also asks that no
frame of the burst takes the `inflight[]` entry of an earlier one, which a burst of at
most 512 frames never does (`inPlaceSlots_nodup_of_length`).
-/

namespace SfcCapio
namespace Pmd

open Hardware Userlib

/-! ## Freed, posted and held -/

namespace TxFate

/-- The calls of `rte_pktmbuf_free` for the frame `m`: every branch but the zero-copy
one makes one. -/
def frees (m : Nat) : TxFate → List Nat
  | dropped => [m]
  | copied => [m]
  | held _ _ _ => []

/-- The frame `m` once for every descriptor written for it. -/
def posts (m : Nat) : TxFate → List Nat
  | dropped => []
  | copied => [m]
  | held _ _ _ => [m]

end TxFate

/-- The mbufs freed by a burst, in order. -/
def burstFrees (bufs : List Nat) (fates : List TxFate) : List Nat :=
  (List.zipWith TxFate.frees bufs fates).flatten

/-- The mbufs posted by a burst, in order. -/
def burstPosts (bufs : List Nat) (fates : List TxFate) : List Nat :=
  (List.zipWith TxFate.posts bufs fates).flatten

/-- The mbuf is held in `inflight[]`. -/
def Held (pi : Internals) (m : Nat) : Prop :=
  ∃ slot, slot < numTxDesc ∧ pi.txq.inflight slot = some m

instance (pi : Internals) (m : Nat) : Decidable (Held pi m) :=
  inferInstanceAs (Decidable (∃ slot, slot < numTxDesc ∧ _))

/-- The result of a burst follows the value returned: an mbuf before it was freed once
or is held, one from it on is untouched. -/
def OwnsReturned (bufs : List Nat) (out : Nat × List TxFate × Internals) : Prop :=
  (∀ m ∈ bufs.take out.1,
    (burstFrees bufs out.2.1).count m = 1 ∧ ¬ Held out.2.2 m ∨
      (burstFrees bufs out.2.1).count m = 0 ∧ Held out.2.2 m) ∧
  ∀ m ∈ bufs.drop out.1, m ∉ burstFrees bufs out.2.1 ∧ m ∉ burstPosts bufs out.2.1

/-- What `send_burst` and the driver free between them. -/
def sendBurstFrees (pi : Internals) (bufs : List Nat) : List Nat :=
  let out := ethCapioTx pi bufs
  burstFrees bufs out.2.1 ++ bufs.drop out.1

/-! ## The condition on the burst -/

/-- The regions `sfc7120_tx_post` needs are mapped. -/
def CopyMapped (sfc : SfcIf) : Prop := sfc.txBuffer = true ∧ sfc.txMapped = true

instance (sfc : SfcIf) : Decidable (CopyMapped sfc) := inferInstanceAs (Decidable (_ ∧ _))

/-- The posting call of the branch that the frame takes accepts it. -/
def Accepted (pi : Internals) (m : Nat) : Prop :=
  if (pi.mbufs m).nbSegs ≠ 1 then
    CopyMapped pi.session.sfc ∧ (pi.mbufs m).pktLen ≤ txBufferSize ∧
      (gathered pi.mbufs m).length ≤ txBufferSize
  else if (pi.mbufs m).pktLen < capioMinTxFrame then CopyMapped pi.session.sfc
  else if pi.txCopyMode then
    CopyMapped pi.session.sfc ∧ (pi.mbufs m).pktLen ≤ txBufferSize
  else pi.session.sfc.txDescRing = true ∧ (pi.mbufs m).pktLen ≤ txBufferSize

instance (pi : Internals) (m : Nat) : Decidable (Accepted pi m) := by
  unfold Accepted
  infer_instance

/-- The mbuf has one segment. -/
def Single (pi : Internals) (m : Nat) : Prop := (pi.mbufs m).nbSegs = 1

instance (pi : Internals) (m : Nat) : Decidable (Single pi m) :=
  inferInstanceAs (Decidable (_ = _))

/-- The frame takes the zero-copy branch. -/
def InPlace (pi : Internals) (m : Nat) : Prop :=
  Single pi m ∧ capioMinTxFrame ≤ (pi.mbufs m).pktLen ∧ pi.txCopyMode = false

instance (pi : Internals) (m : Nat) : Decidable (InPlace pi m) :=
  inferInstanceAs (Decidable (_ ∧ _ ∧ _))

/-- The single-segment mbufs of the burst. -/
def singles (pi : Internals) (bufs : List Nat) : Nat := bufs.countP fun m => Single pi m

/-- The ring slots of the frames posted in place, for a burst that starts at `head`. -/
def inPlaceSlots (pi : Internals) : Nat → List Nat → List Nat
  | _, [] => []
  | head, m :: ms =>
    let rest := inPlaceSlots pi (if Accepted pi m then (head + 1) % 512 else head) ms
    if InPlace pi m then head % 512 :: rest else rest

/-- The burst gets through: the posting calls accept its single-segment mbufs and the
ring has room for them. -/
def GetsThrough (pi : Internals) (bufs : List Nat) : Prop :=
  (∀ m ∈ bufs, Single pi m → Accepted pi m) ∧
    (singles pi bufs = 0 ∨ pi.txq.txInflightCnt + singles pi bufs ≤ numTxDesc - 16)

instance (pi : Internals) (bufs : List Nat) : Decidable (GetsThrough pi bufs) :=
  inferInstanceAs (Decidable (_ ∧ _))

/-! ## One frame -/

theorem txPost_fst (s : Session) (bytes : List (BitVec 8)) :
    (txPost s bytes).1 = 0 ↔ CopyMapped s.sfc ∧ txLenOk bytes.length = true := by
  unfold txPost CopyMapped
  split
  · rename_i hunmapped
    simp only [Bool.or_eq_true, Bool.not_eq_true'] at hunmapped
    rcases hunmapped with h | h <;> simp [h]
  · rename_i hmapped
    simp only [Bool.or_eq_true, Bool.not_eq_true', not_or, Bool.not_eq_false] at hmapped
    split
    · rename_i hlen
      simp_all
    · rename_i hlen
      simp_all

theorem txPostPaddrNodbl_fst (s : Session) (paddr : BitVec 64) (len : Nat) :
    (txPostPaddrNodbl s paddr len).1 = 0 ↔
      s.sfc.txDescRing = true ∧ txLenOk len = true := by
  unfold txPostPaddrNodbl
  split
  · simp_all
  · split <;> simp_all

theorem txLenOk_padFrame (bytes : List (BitVec 8)) :
    txLenOk (padFrame bytes).length = true ↔ bytes.length ≤ txBufferSize := by
  rw [txLenOk_iff, length_padFrame]
  simp only [capioMinTxFrame, txBufferSize]
  omega

theorem txLenOk_of_long {len : Nat} (hlong : capioMinTxFrame ≤ len) :
    txLenOk len = true ↔ len ≤ txBufferSize := by
  rw [txLenOk_iff]
  simp only [capioMinTxFrame] at hlong
  omega

/-- What the loop body decides for a frame: whether the loop goes on, and the fate. -/
inductive TxDecision (pi : Internals) (m : Nat) : Bool → TxFate → Prop
  | linearised (hchain : ¬ Single pi m) (hacc : Accepted pi m) : TxDecision pi m true .copied
  | discarded (hchain : ¬ Single pi m) (hrefused : ¬ Accepted pi m) :
      TxDecision pi m true .dropped
  | copied (hsingle : Single pi m) (hroom : pi.txq.txInflightCnt < 496)
      (hacc : Accepted pi m) (hcopy : ¬ InPlace pi m) : TxDecision pi m true .copied
  | held (hplace : InPlace pi m) (hroom : pi.txq.txInflightCnt < 496)
      (hacc : Accepted pi m) :
      TxDecision pi m true
        (.held m (pi.session.sfc.txHead % 512)
          (pi.txq.inflight (pi.session.sfc.txHead % 512)))
  | stopped (hsingle : Single pi m)
      (hstop : pi.txq.txInflightCnt < 496 → ¬ Accepted pi m) : TxDecision pi m false .dropped

theorem accepted_of_chained {pi : Internals} {m : Nat} (hchain : ¬ Single pi m) :
    Accepted pi m ↔ (pi.mbufs m).pktLen ≤ txBufferSize ∧
      (txPost pi.session (padFrame (gathered pi.mbufs m))).1 = 0 := by
  have hsegs : (pi.mbufs m).nbSegs ≠ 1 := hchain
  rw [Accepted, if_pos hsegs, txPost_fst, txLenOk_padFrame]
  exact and_left_comm

theorem txChained_decision {pi : Internals} {m : Nat} (hchain : ¬ Single pi m) :
    TxDecision pi m (txChained pi m).more (txChained pi m).fate := by
  have hacc := accepted_of_chained hchain
  unfold txChained
  split
  · rename_i hfits
    dsimp only
    split
    · rename_i hpost
      exact .linearised hchain (hacc.mpr ⟨hfits, hpost⟩)
    · rename_i hpost
      exact .discarded hchain fun h => hpost (hacc.mp h).2
  · rename_i hfits
    exact .discarded hchain fun h => hfits (hacc.mp h).1

theorem txCopied_decision {pi : Internals} {m : Nat} {bytes : List (BitVec 8)}
    (hsingle : Single pi m) (hroom : pi.txq.txInflightCnt < 496) (hcopy : ¬ InPlace pi m)
    (hacc : Accepted pi m ↔ CopyMapped pi.session.sfc ∧ txLenOk bytes.length = true) :
    TxDecision pi m (txCopied pi bytes).more (txCopied pi bytes).fate := by
  rw [← txPost_fst] at hacc
  unfold txCopied
  dsimp only
  split
  · rename_i hpost
    exact .stopped hsingle fun _ h => hpost (hacc.mp h)
  · rename_i hpost
    exact .copied hsingle hroom (hacc.mpr (by simpa using hpost)) hcopy

theorem txInPlace_decision {pi : Internals} {m : Nat} (hplace : InPlace pi m)
    (hroom : pi.txq.txInflightCnt < 496) :
    TxDecision pi m (txInPlace pi m).more (txInPlace pi m).fate := by
  have hacc : Accepted pi m ↔ (txPostPaddrNodbl pi.session (pi.ops.dataIova (pi.mbufs m))
      (pi.mbufs m).pktLen).1 = 0 := by
    obtain ⟨hsingle, hlong, hmode⟩ := hplace
    have hsegs : ¬ (pi.mbufs m).nbSegs ≠ 1 := not_not_intro hsingle
    rw [Accepted, if_neg hsegs, if_neg (Nat.not_lt.mpr hlong),
      if_neg (by simp [hmode]), txPostPaddrNodbl_fst, txLenOk_of_long hlong]
  unfold txInPlace
  simp only [numTxDesc, land_ringMask]
  split
  · rename_i hpost
    exact .stopped hplace.1 fun _ h => hpost (hacc.mp h)
  · rename_i hpost
    exact .held hplace hroom (hacc.mpr (by simpa using hpost))

theorem txOne_decision (pi : Internals) (m : Nat) :
    TxDecision pi m (txOne pi m).more (txOne pi m).fate := by
  unfold txOne
  split
  · rename_i hchain
    exact txChained_decision hchain
  · rename_i hsegs
    have hsingle : Single pi m := not_not.mp hsegs
    split
    · rename_i hfull
      exact .stopped hsingle fun hroom => absurd hroom (by simpa [numTxDesc] using hfull)
    · rename_i hfull
      have hroom : pi.txq.txInflightCnt < 496 := by simpa [numTxDesc] using hfull
      split
      · rename_i hshort
        refine txCopied_decision hsingle hroom (fun h => absurd h.2.1 (by omega)) ?_
        rw [Accepted, if_neg hsegs, if_pos hshort, txLenOk_padFrame, length_bytes]
        exact (and_iff_left (by simp only [capioMinTxFrame, txBufferSize] at hshort ⊢; omega)).symm
      · rename_i hlong
        split
        · rename_i hmode
          refine txCopied_decision hsingle hroom (fun h => by simp [h.2.2] at hmode) ?_
          rw [Accepted, if_neg hsegs, if_neg hlong, if_pos hmode, length_bytes,
            txLenOk_of_long (Nat.not_lt.mp hlong)]
        · rename_i hmode
          exact txInPlace_decision ⟨hsingle, by omega, by simpa using hmode⟩ hroom

/-- The transmit mappings are the same. -/
structure SameMappings (sfc sfc' : SfcIf) : Prop where
  txBuffer : sfc'.txBuffer = sfc.txBuffer
  txDescRing : sfc'.txDescRing = sfc.txDescRing
  txMapped : sfc'.txMapped = sfc.txMapped

/-- The parts of the state that say which branch a frame takes; no iteration changes
them. -/
structure SameBranches (pi pi' : Internals) : Prop where
  mbufs : pi'.mbufs = pi.mbufs
  txCopyMode : pi'.txCopyMode = pi.txCopyMode
  mappings : SameMappings pi.session.sfc pi'.session.sfc

namespace SameBranches

variable {pi pi' : Internals}

theorem single (h : SameBranches pi pi') : Single pi' = Single pi := by
  funext m
  rw [Single, Single, h.mbufs]

theorem inPlace (h : SameBranches pi pi') : InPlace pi' = InPlace pi := by
  funext m
  rw [InPlace, InPlace, h.single, h.mbufs, h.txCopyMode]

theorem accepted (h : SameBranches pi pi') : Accepted pi' = Accepted pi := by
  funext m
  simp only [Accepted, CopyMapped, h.mbufs, h.txCopyMode, h.mappings.txBuffer,
    h.mappings.txDescRing, h.mappings.txMapped]

theorem singles (h : SameBranches pi pi') (bufs : List Nat) :
    Pmd.singles pi' bufs = Pmd.singles pi bufs := by
  simp only [Pmd.singles, h.single]

theorem inPlaceSlots (h : SameBranches pi pi') (head : Nat) (bufs : List Nat) :
    Pmd.inPlaceSlots pi' head bufs = Pmd.inPlaceSlots pi head bufs := by
  induction bufs generalizing head with
  | nil => rfl
  | cons m ms ih => simp only [Pmd.inPlaceSlots, h.inPlace, h.accepted, ih]

end SameBranches

theorem sameMappings_txPost (s : Session) (bytes : List (BitVec 8)) :
    SameMappings s.sfc (txPost s bytes).2.sfc := by
  unfold txPost
  split
  · exact ⟨rfl, rfl, rfl⟩
  · split <;> exact ⟨rfl, rfl, rfl⟩

theorem sameMappings_txPostPaddrNodbl (s : Session) (paddr : BitVec 64) (len : Nat) :
    SameMappings s.sfc (txPostPaddrNodbl s paddr len).2.sfc := by
  unfold txPostPaddrNodbl
  split
  · exact ⟨rfl, rfl, rfl⟩
  · split <;> exact ⟨rfl, rfl, rfl⟩

theorem sameBranches_txDrop (pi : Internals) : SameBranches pi pi.txDrop :=
  ⟨rfl, rfl, rfl, rfl, rfl⟩

theorem sameBranches_txCopied (pi : Internals) (bytes : List (BitVec 8)) :
    SameBranches pi (txCopied pi bytes).pi := by
  unfold txCopied
  dsimp only
  split
  · exact sameBranches_txDrop pi
  · exact ⟨rfl, rfl, sameMappings_txPost _ _⟩

theorem sameBranches_txOne (pi : Internals) (m : Nat) : SameBranches pi (txOne pi m).pi := by
  unfold txOne
  split
  · unfold txChained
    split
    · dsimp only
      split
      · exact ⟨rfl, rfl, sameMappings_txPost _ _⟩
      · exact sameBranches_txDrop pi
    · exact sameBranches_txDrop pi
  · split
    · exact sameBranches_txDrop pi
    · split
      · exact sameBranches_txCopied pi _
      · split
        · exact sameBranches_txCopied pi _
        · unfold txInPlace
          dsimp only
          split
          · exact sameBranches_txDrop pi
          · exact ⟨rfl, rfl, sameMappings_txPostPaddrNodbl _ _ _⟩

/-- The view after a frame, by its fate. -/
def viewByFate (pi : Internals) (m : Nat) : TxFate → TxView
  | .dropped => pi.txView
  | .copied => if Single pi m then pi.txView.counted else pi.txView.written
  | .held _ _ _ => pi.txView.holding m

variable {pi : Internals} {m x : Nat} {bufs : List Nat}

theorem TxCase.view_eq {view : TxView} {fate : TxFate}
    (hcase : TxCase pi m view fate) : view = viewByFate pi m fate := by
  cases hcase with
  | dropped => rfl
  | linearised hchain hfits => exact (if_neg (show ¬ Single pi m from hchain)).symm
  | copied hsingle hroom hcopy => exact (if_pos (show Single pi m from hsingle)).symm
  | held hsingle hroom hlong hcopy => rfl

/-- The view after a frame at which the loop goes on. -/
def viewAfter (pi : Internals) (m : Nat) : TxView where
  head := if Accepted pi m then (pi.session.sfc.txHead + 1) % 512 else pi.session.sfc.txHead
  inflight :=
    if InPlace pi m then
      Function.update pi.txq.inflight (pi.session.sfc.txHead % 512) (some m)
    else pi.txq.inflight
  lastFreed := pi.txq.lastFreed
  cnt := pi.txq.txInflightCnt + if Single pi m then 1 else 0

/-- The loop goes on after the frame. -/
structure GoesOn (pi : Internals) (m : Nat) : Prop where
  more : (txOne pi m).more = true
  allowed : Single pi m → pi.txq.txInflightCnt < 496 ∧ Accepted pi m
  frees : (txOne pi m).fate.frees m = if InPlace pi m then [] else [m]
  view : (txOne pi m).pi.txView = viewAfter pi m

/-- The loop stops at the frame and frees it. -/
structure Stops (pi : Internals) (m : Nat) : Prop where
  more : (txOne pi m).more = false
  fate : (txOne pi m).fate = .dropped
  single : Single pi m
  because : pi.txq.txInflightCnt < 496 → ¬ Accepted pi m

theorem txOne_goesOn_or_stops (pi : Internals) (m : Nat) : GoesOn pi m ∨ Stops pi m := by
  have hview := (txOne_case pi m).2.view_eq
  have hdec := txOne_decision pi m
  generalize hmore : (txOne pi m).more = more at hdec
  generalize hfate : (txOne pi m).fate = fate at hdec hview
  cases hdec with
  | linearised hchain hacc =>
    have hplace : ¬ InPlace pi m := fun h => hchain h.1
    refine Or.inl ⟨hmore, fun h => absurd h hchain, ?_, ?_⟩
    · rw [hfate, if_neg hplace]
      rfl
    · rw [hview]
      simp [viewByFate, viewAfter, hchain, hacc, hplace, TxView.written, Internals.txView]
  | discarded hchain hrefused =>
    have hplace : ¬ InPlace pi m := fun h => hchain h.1
    refine Or.inl ⟨hmore, fun h => absurd h hchain, ?_, ?_⟩
    · rw [hfate, if_neg hplace]
      rfl
    · rw [hview]
      simp [viewByFate, viewAfter, hchain, hrefused, hplace, Internals.txView]
  | copied hsingle hroom hacc hplace =>
    refine Or.inl ⟨hmore, fun _ => ⟨hroom, hacc⟩, ?_, ?_⟩
    · rw [hfate, if_neg hplace]
      rfl
    · rw [hview]
      simp [viewByFate, viewAfter, hsingle, hacc, hplace, TxView.counted, Internals.txView]
  | held hplace hroom hacc =>
    refine Or.inl ⟨hmore, fun _ => ⟨hroom, hacc⟩, ?_, ?_⟩
    · rw [hfate, if_pos hplace]
      rfl
    · rw [hview]
      simp [viewByFate, viewAfter, hplace.1, hacc, hplace, TxView.holding, TxView.counted,
        Internals.txView]
  | stopped hsingle hstop => exact Or.inr ⟨hmore, hfate, hsingle, hstop⟩

/-! ## The loop -/

theorem txLoop_of_goesOn (hgo : GoesOn pi m) (ms : List Nat) :
    txLoop pi (m :: ms) =
      ((txOne pi m).fate :: (txLoop (txOne pi m).pi ms).1,
        (txLoop (txOne pi m).pi ms).2.1 + 1, (txLoop (txOne pi m).pi ms).2.2) := by
  simp [txLoop, hgo.more]

theorem txLoop_of_stops (hstop : Stops pi m) (ms : List Nat) :
    txLoop pi (m :: ms) = ([.dropped], 0, (txOne pi m).pi) := by
  simp [txLoop, hstop.more, hstop.fate]

theorem singles_cons (pi : Internals) (m : Nat) (ms : List Nat) :
    singles pi (m :: ms) = singles pi ms + if Single pi m then 1 else 0 := by
  simp [singles, List.countP_cons]

theorem getsThrough_cons_of_goesOn (hgo : GoesOn pi m)
    (ms : List Nat) : GetsThrough pi (m :: ms) ↔ GetsThrough (txOne pi m).pi ms := by
  have hsame := sameBranches_txOne pi m
  have hcnt : (txOne pi m).pi.txq.txInflightCnt =
      pi.txq.txInflightCnt + if Single pi m then 1 else 0 := congrArg TxView.cnt hgo.view
  rw [GetsThrough, GetsThrough, hsame.singles, hsame.single, hsame.accepted, hcnt,
    singles_cons, List.forall_mem_cons]
  have hroom := fun h => (hgo.allowed h).1
  have hacc := fun h => (hgo.allowed h).2
  by_cases hsingle : Single pi m
  · have := hroom hsingle
    simp only [hsingle, if_true, numTxDesc]
    constructor
    · rintro ⟨⟨-, hall⟩, hcount⟩
      exact ⟨hall, by omega⟩
    · rintro ⟨hall, hcount⟩
      exact ⟨⟨fun _ => hacc hsingle, hall⟩, by omega⟩
  · simp only [hsingle, if_false, Nat.add_zero, false_implies, true_and]

theorem not_getsThrough_of_stops (hstop : Stops pi m)
    (ms : List Nat) : ¬ GetsThrough pi (m :: ms) := by
  rintro ⟨hall, hcount⟩
  refine hstop.because ?_ (hall m List.mem_cons_self hstop.single)
  rw [singles_cons, if_pos hstop.single] at hcount
  simp only [numTxDesc] at hcount
  omega

/-- The loop is left early exactly if the burst does not get through. -/
theorem txLoop_all_iff (pi : Internals) (bufs : List Nat) :
    (txLoop pi bufs).2.1 = bufs.length ↔ GetsThrough pi bufs := by
  induction bufs generalizing pi with
  | nil => simp [txLoop, GetsThrough, singles]
  | cons m ms ih =>
    rcases txOne_goesOn_or_stops pi m with hgo | hstop
    · rw [txLoop_of_goesOn hgo, getsThrough_cons_of_goesOn hgo, ← ih]
      simp
    · rw [txLoop_of_stops hstop]
      simp [not_getsThrough_of_stops hstop ms]

/-- A loop left early has freed the mbuf at the index returned. -/
theorem txLoop_stopped (hstop : (txLoop pi bufs).2.1 ≠ bufs.length) :
    ∃ m ∈ bufs.drop (txLoop pi bufs).2.1, m ∈ burstFrees bufs (txLoop pi bufs).1 := by
  induction bufs generalizing pi with
  | nil => exact absurd rfl hstop
  | cons m ms ih =>
    rcases txOne_goesOn_or_stops pi m with hgo | hhere
    · rw [txLoop_of_goesOn hgo] at hstop ⊢
      obtain ⟨x, hdrop, hfreed⟩ := ih (by simpa using hstop)
      refine ⟨x, hdrop, ?_⟩
      simp only [burstFrees, List.zipWith_cons_cons, List.flatten_cons, List.mem_append]
      exact Or.inr hfreed
    · rw [txLoop_of_stops hhere]
      exact ⟨m, List.mem_cons_self, by simp [burstFrees, TxFate.frees]⟩

/-- A burst that gets through frees what it does not post in place. -/
theorem txLoop_frees (hall : GetsThrough pi bufs) :
    burstFrees bufs (txLoop pi bufs).1 = bufs.filter fun m => ¬ InPlace pi m := by
  induction bufs generalizing pi with
  | nil => rfl
  | cons m ms ih =>
    rcases txOne_goesOn_or_stops pi m with hgo | hstop
    · rw [getsThrough_cons_of_goesOn hgo] at hall
      have hrest := ih hall
      simp only [(sameBranches_txOne pi m).inPlace] at hrest
      rw [txLoop_of_goesOn hgo, burstFrees, List.zipWith_cons_cons, List.flatten_cons, hgo.frees]
      rw [burstFrees] at hrest
      rw [hrest]
      by_cases hplace : InPlace pi m <;> simp [hplace]
    · exact absurd hall (not_getsThrough_of_stops hstop ms)

/-- The slots of the rest of a burst, seen from before the first frame. -/
theorem inPlaceSlots_of_goesOn (hgo : GoesOn pi m) (ms : List Nat) :
    inPlaceSlots pi pi.session.sfc.txHead (m :: ms) =
      (if InPlace pi m then [pi.session.sfc.txHead % 512] else []) ++
        inPlaceSlots (txOne pi m).pi (txOne pi m).pi.session.sfc.txHead ms := by
  have hhead : (txOne pi m).pi.session.sfc.txHead =
      if Accepted pi m then (pi.session.sfc.txHead + 1) % 512 else pi.session.sfc.txHead :=
    congrArg TxView.head hgo.view
  rw [(sameBranches_txOne pi m).inPlaceSlots, hhead, inPlaceSlots]
  by_cases hplace : InPlace pi m <;> simp [hplace]

theorem inflight_of_goesOn (hgo : GoesOn pi m) :
    (txOne pi m).pi.txq.inflight =
      if InPlace pi m then
        Function.update pi.txq.inflight (pi.session.sfc.txHead % 512) (some m)
      else pi.txq.inflight :=
  congrArg TxView.inflight hgo.view

/-- An mbuf that is not of the burst stays in its entry unless a frame of the burst
takes it. -/
theorem txLoop_inflight_iff (hall : GetsThrough pi bufs) (hother : x ∉ bufs) (slot : Nat) :
    (txLoop pi bufs).2.2.txq.inflight slot = some x ↔
      pi.txq.inflight slot = some x ∧ slot ∉ inPlaceSlots pi pi.session.sfc.txHead bufs := by
  induction bufs generalizing pi with
  | nil => simp [txLoop, inPlaceSlots]
  | cons m ms ih =>
    rw [List.mem_cons, not_or] at hother
    obtain ⟨hne, hms⟩ := hother
    rcases txOne_goesOn_or_stops pi m with hgo | hstop
    · rw [getsThrough_cons_of_goesOn hgo] at hall
      rw [txLoop_of_goesOn hgo, ih hall hms, inPlaceSlots_of_goesOn hgo, inflight_of_goesOn hgo]
      by_cases hplace : InPlace pi m
      · by_cases hslot : slot = pi.session.sfc.txHead % 512
        · simp [hplace, hslot, Ne.symm hne]
        · simp [hplace, hslot]
      · simp [hplace]
    · exact absurd hall (not_getsThrough_of_stops hstop ms)

/-- No mbuf of the rest of the burst is in `inflight[]` after the first. -/
theorem not_held_of_goesOn (hgo : GoesOn pi m) (hne : x ≠ m)
    (hfree : ¬ Held pi x) : ¬ Held (txOne pi m).pi x := by
  rintro ⟨slot, hlt, hslot⟩
  rw [inflight_of_goesOn hgo] at hslot
  split at hslot
  · by_cases hhere : slot = pi.session.sfc.txHead % 512
    · rw [hhere, Function.update_self] at hslot
      exact hne (Option.some.inj hslot).symm
    · rw [Function.update_of_ne hhere] at hslot
      exact hfree ⟨slot, hlt, hslot⟩
  · exact hfree ⟨slot, hlt, hslot⟩

/-- Whether the first frame of a burst is held at its end. -/
theorem held_first_iff {ms : List Nat} (hgo : GoesOn pi m) (hall : GetsThrough (txOne pi m).pi ms)
    (hms : m ∉ ms) (hfree : ¬ Held pi m) :
    Held (txLoop (txOne pi m).pi ms).2.2 m ↔
      InPlace pi m ∧ pi.session.sfc.txHead % 512 ∉
        inPlaceSlots (txOne pi m).pi (txOne pi m).pi.session.sfc.txHead ms := by
  simp only [Held, txLoop_inflight_iff hall hms, inflight_of_goesOn hgo]
  by_cases hplace : InPlace pi m
  · simp only [hplace, if_true, true_and]
    constructor
    · rintro ⟨slot, hlt, hslot, hkept⟩
      by_cases hhere : slot = pi.session.sfc.txHead % 512
      · rwa [hhere] at hkept
      · rw [Function.update_of_ne hhere] at hslot
        exact absurd ⟨slot, hlt, hslot⟩ hfree
    · intro hkept
      exact ⟨_, Nat.mod_lt _ (by decide), Function.update_self .., hkept⟩
  · simp only [hplace, if_false, false_and, iff_false]
    rintro ⟨slot, hlt, hslot, -⟩
    exact hfree ⟨slot, hlt, hslot⟩

/-- At the end of a burst that gets through, the mbufs posted in place are held exactly
if no two of them have taken the same slot; the others are not held. -/
theorem txLoop_held (hall : GetsThrough pi bufs) (hnodup : bufs.Nodup)
    (hfree : ∀ m ∈ bufs, ¬ Held pi m) :
    ((∀ m ∈ bufs, InPlace pi m → Held (txLoop pi bufs).2.2 m) ↔
        (inPlaceSlots pi pi.session.sfc.txHead bufs).Nodup) ∧
      ∀ m ∈ bufs, ¬ InPlace pi m → ¬ Held (txLoop pi bufs).2.2 m := by
  induction bufs generalizing pi with
  | nil => simp [inPlaceSlots]
  | cons m ms ih =>
    obtain ⟨hm, hms⟩ := List.nodup_cons.mp hnodup
    obtain ⟨hfm, hfms⟩ := List.forall_mem_cons.mp hfree
    rcases txOne_goesOn_or_stops pi m with hgo | hstop
    · rw [getsThrough_cons_of_goesOn hgo] at hall
      have hne : ∀ x ∈ ms, x ≠ m := fun x hx hxm => hm (hxm ▸ hx)
      obtain ⟨hiff, hnot⟩ :=
        ih hall hms fun x hx => not_held_of_goesOn hgo (hne x hx) (hfms x hx)
      rw [(sameBranches_txOne pi m).inPlace] at hiff hnot
      have hfirst := held_first_iff hgo hall hm hfm
      rw [txLoop_of_goesOn hgo, inPlaceSlots_of_goesOn hgo, List.forall_mem_cons,
        List.forall_mem_cons, hfirst, hiff]
      refine ⟨?_, fun hplace h => hplace h.1, hnot⟩
      by_cases hplace : InPlace pi m <;> simp [hplace]
    · exact absurd hall (not_getsThrough_of_stops hstop ms)

/-! ## The slots of a short burst -/

/-- The slots taken lie within a ring length from the start. -/
theorem mem_inPlaceSlots {head slot : Nat} (hslot : slot ∈ inPlaceSlots pi head bufs) :
    ∃ j, j < bufs.length ∧ slot = (head + j) % 512 := by
  induction bufs generalizing head with
  | nil => cases hslot
  | cons m ms ih =>
    have hrest : slot ∈ inPlaceSlots pi (if Accepted pi m then (head + 1) % 512 else head) ms →
        ∃ j, j < (m :: ms).length ∧ slot = (head + j) % 512 := by
      intro hmem
      obtain ⟨j, hj, rfl⟩ := ih hmem
      rw [List.length_cons]
      split
      · exact ⟨j + 1, by omega, by omega⟩
      · exact ⟨j, by omega, rfl⟩
    simp only [inPlaceSlots] at hslot
    split at hslot
    · rcases List.mem_cons.mp hslot with rfl | hmem
      · exact ⟨0, by simp, rfl⟩
      · exact hrest hmem
    · exact hrest hslot

/-- A burst of at most 512 frames whose in-place posts succeed takes no slot twice. -/
theorem inPlaceSlots_nodup_of_length (hacc : ∀ m ∈ bufs, Single pi m → Accepted pi m)
    (hlen : bufs.length ≤ 512) (head : Nat) :
    (inPlaceSlots pi head bufs).Nodup := by
  induction bufs generalizing head with
  | nil => exact List.nodup_nil
  | cons m ms ih =>
    obtain ⟨hm, hms⟩ := List.forall_mem_cons.mp hacc
    rw [List.length_cons] at hlen
    simp only [inPlaceSlots]
    split
    · rename_i hplace
      rw [if_pos (hm hplace.1)]
      refine List.nodup_cons.mpr ⟨fun hagain => ?_, ih hms (by omega) _⟩
      obtain ⟨j, hj, heq⟩ := mem_inPlaceSlots hagain
      omega
    · exact ih hms (by omega) _

/-! ## The result -/

/-- The index returned says who owns each mbuf exactly if the loop is not left early and
no frame of the burst takes the entry of an earlier one. -/
theorem tx_return_iff {pi : Internals} {bufs : List Nat} (hnodup : bufs.Nodup)
    (hfree : ∀ m ∈ bufs, ¬ Held pi m) :
    OwnsReturned bufs (ethCapioTx pi bufs) ↔
      GetsThrough pi bufs ∧ (inPlaceSlots pi pi.session.sfc.txHead bufs).Nodup := by
  have hheld : ∀ m, Held (ethCapioTx pi bufs).2.2 m ↔ Held (txLoop pi bufs).2.2 m := by
    intro m
    unfold ethCapioTx
    dsimp only
    split <;> rfl
  by_cases hall : GetsThrough pi bufs
  · have hr : (ethCapioTx pi bufs).1 = bufs.length := (txLoop_all_iff pi bufs).mpr hall
    have hfrees : burstFrees bufs (ethCapioTx pi bufs).2.1 =
        bufs.filter fun m => ¬ InPlace pi m := txLoop_frees hall
    obtain ⟨hiff, hnot⟩ := txLoop_held hall hnodup hfree
    rw [OwnsReturned, hr, List.take_length, List.drop_length, hfrees, and_iff_right hall, ← hiff]
    simp only [hheld, List.not_mem_nil, false_implies, implies_true, and_true]
    refine forall₂_congr fun m hm => ?_
    by_cases hplace : InPlace pi m
    · have hnone : (bufs.filter fun m => ¬ InPlace pi m).count m = 0 :=
        List.count_eq_zero.mpr (by simp [hplace])
      simp only [hnone, hplace, true_implies, Nat.zero_ne_one, false_and, false_or, true_and]
    · have honce : (bufs.filter fun m => ¬ InPlace pi m).count m = 1 := by
        rw [List.count_filter (by simpa using hplace), List.count_eq_one_of_mem hnodup hm]
      simp only [honce, hnot m hm hplace, hplace, not_false_eq_true, and_self, true_or,
        false_implies]
  · refine iff_of_false ?_ fun h => hall h.1
    rintro ⟨-, huntouched⟩
    obtain ⟨m, hdrop, hfreed⟩ := txLoop_stopped (mt (txLoop_all_iff pi bufs).mp hall)
    exact (huntouched m hdrop).1 hfreed

/-- With its caller: between them they free no mbuf twice exactly if the loop is not
left early. -/
theorem sendBurstFrees_nodup_iff (hnodup : bufs.Nodup) :
    (sendBurstFrees pi bufs).Nodup ↔ GetsThrough pi bufs := by
  by_cases hall : GetsThrough pi bufs
  · have hr : (ethCapioTx pi bufs).1 = bufs.length := (txLoop_all_iff pi bufs).mpr hall
    have hfrees : burstFrees bufs (ethCapioTx pi bufs).2.1 =
        bufs.filter fun m => ¬ InPlace pi m := txLoop_frees hall
    rw [sendBurstFrees, hr, hfrees, List.drop_length, List.append_nil]
    exact iff_of_true (hnodup.filter _) hall
  · refine iff_of_false ?_ hall
    obtain ⟨m, hdrop, hfreed⟩ := txLoop_stopped (mt (txLoop_all_iff pi bufs).mp hall)
    exact fun hdistinct => List.disjoint_of_nodup_append hdistinct hfreed hdrop

/-- A driver whose ring counts `cnt` frames in flight; every mbuf holds 100 bytes in one
segment. -/
def driverWith (cnt : Nat) : Internals where
  txCopyMode := false
  rxCopy := false
  ops := sampleOps
  session := (pollOnFreshDevice 0).session
  rxq := zeroRxQueue
  txq := { zeroTxQueue with txInflightCnt := cnt }
  mbufs := fun m =>
    { bufIova := BitVec.ofNat 64 (0x10000 * m), bufLen := 2176, dataOff := 128
      dataLen := 100, pktLen := 100, nbSegs := 1, next := none, data := fun _ => 0#8 }

theorem tx_return_two_frames :
    [1, 2].Nodup ∧ (∀ m ∈ [1, 2], ¬ Held (driverWith 494) m) ∧
      (ethCapioTx (driverWith 494) [1, 2]).1 = 2 ∧
      OwnsReturned [1, 2] (ethCapioTx (driverWith 494) [1, 2]) := by
  have hfree : ∀ m ∈ [1, 2], ¬ Held (driverWith 494) m := by
    rintro m - ⟨slot, -, hslot⟩
    cases hslot
  refine ⟨by decide, hfree, by decide, ?_⟩
  exact (tx_return_iff (by decide) hfree).mpr (by decide)

/-- With 496 frames counted the burst returns 0 and has freed its first mbuf, which
`send_burst` then frees again. -/
theorem full_ring_double_free :
    (ethCapioTx (driverWith 496) [1, 2]).1 = 0 ∧
      burstFrees [1, 2] (ethCapioTx (driverWith 496) [1, 2]).2.1 = [1] ∧
      sendBurstFrees (driverWith 496) [1, 2] = [1, 1, 2] ∧
      ¬ OwnsReturned [1, 2] (ethCapioTx (driverWith 496) [1, 2]) := by
  have hfrees : burstFrees [1, 2] (ethCapioTx (driverWith 496) [1, 2]).2.1 = [1] := by decide
  refine ⟨by decide, hfrees, by decide, ?_⟩
  rintro ⟨-, huntouched⟩
  exact (huntouched 1 (by decide)).1 (by rw [hfrees]; decide)

end Pmd
end SfcCapio
