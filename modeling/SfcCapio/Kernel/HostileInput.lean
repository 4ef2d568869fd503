import SfcCapio.Kernel.CriticalSections

/-!
# Hostile input to the kernel

The user chooses the arguments of every ioctl and writes to the data event queue while the
driver reads it; the card, which is not trusted here either, writes to all shared memory.
None of this reaches the cursors except through the mask of an increment or the three
comparisons of `SFC7120_SET_EVQ_RPTR`, so they stay on their rings and with them every access
of the driver (`hostile_input_contained`).

The loops end because they count their tries, whatever they find in the queue.  Every exit
releases the mutex: this is the marking `DriverPos.held`, checked position by position.

Not covered: the length that the receive ioctl takes from the card's buffer, which may lead
`copyout` behind the slot, and detach.
-/

namespace SfcCapio
namespace Kernel

open Hardware Foundation

/-! ## What is to hold -/

/-- The cursor, as a signed number, names an entry of a ring. -/
def OnRing (cursor : BitVec 32) : Prop := 0 ≤ cursor.toInt ∧ cursor.toInt < 512

/-- The four cursors. -/
structure CursorsInRange (d : DriverState) : Prop where
  txHead : OnRing d.txHead
  rxHead : OnRing d.rxHead
  dataEvqReadPtr : OnRing d.dataEvqReadPtr
  evqReadPtr : OnRing d.evqReadPtr

/-- Inside of the ring, or inside of the slot at `tx_head`. -/
def RingAccess.Inside (d : DriverState) : RingAccess → Prop
  | .read ring index | .write ring index => 0 ≤ index ∧ index < ring.size
  | .txBuffer offset =>
    d.txHead.toInt * txBufferSize ≤ offset ∧
      offset < d.txHead.toInt * txBufferSize + txBufferSize

/-- The access reads a ring. -/
def RingAccess.isRead : RingAccess → Bool
  | .read _ _ => true
  | _ => false

/-- Ring reads of a thread so far. -/
def ringReads (t : Thread DriverEntry DriverPos RingAccess) : Nat :=
  t.trace.countP RingAccess.isRead

/-- Ring reads that a call may make. -/
def DriverEntry.readLimit : DriverEntry → Nat
  | .tx _ => txTries
  | .rx => rxTries
  | .interrupt => numEvqEntry
  | _ => 0

/-- Steps from here to the return of the function, at most. -/
def Section.left : Section → Nat
  | .getMac | .getViInfo | .setEvqRptr _ _ _ => 2
  | .txCopyin _ => 2 * txTries + 6
  | .txDesc _ => 2 * txTries + 5
  | .txRing => 2 * txTries + 4
  | .txPoll _ tries _ => 2 * (txTries - tries) + 3
  | .txClear _ tries _ _ => 2 * (txTries - tries) + 2
  | .txAck _ _ => 2
  | .rxPoll tries _ => 2 * (rxTries - tries) + 6
  | .rxClear tries _ _ => 2 * (rxTries - tries) + 5
  | .rxAck _ _ => 5
  | .rxCopy _ => 4
  | .rxRepost _ => 3
  | .rxRing _ => 2
  | .isrLook processed => 2 * (numEvqEntry - processed) + 3
  | .isrClear processed => 2 * (numEvqEntry - processed) + 2
  | .isrBell _ => 2

/-- The same for a function that has just been entered. -/
def DriverEntry.left : DriverEntry → Nat
  | .getMac | .getViInfo | .setEvqRptr _ _ _ => 4
  | .tx _ => 2 * txTries + 8
  | .rx => 2 * rxTries + 8
  | .other => 1
  | .interrupt => 2 * numEvqEntry + 5

/-- The same for any position. -/
def DriverPos.left : DriverPos → Nat
  | .entry e => e.left
  | .lock sec => sec.left + 1
  | .inside sec => sec.left
  | .unlock _ => 1
  | .ret _ => 0

/-- What holds in every state, whatever the callers ask for and whoever writes to the
queues. -/
structure Contained (s : DriverSys) : Prop where
  cursors : CursorsInRange s.shared
  /-- Whichever step comes next. -/
  accesses : ∀ label : DriverLabel, ∀ a ∈ driverProgram.accesses s label, a.Inside s.shared
  reads : ∀ n t, s.threads n = some t → ringReads t ≤ t.entry.readLimit
  /-- A thread makes no more steps than it has left, whatever the others do. -/
  bounded : ∀ n t, s.threads n = some t → ∀ (later : List DriverLabel) s',
    exec driverProgram.step s later = some s' → movesOf n later ≤ t.pos.left
  /-- It can make its next step, unless it waits for the mutex; then the owner can. -/
  progress : ∀ n t, s.threads n = some t → (∃ result, t.pos = .ret result) ∨
    (∀ copy, ∃ s', driverProgram.step s (.move n copy) = some s') ∨
    (∃ sec, t.pos = .lock sec) ∧
      ∃ m, s.mutex = some m ∧ m ≠ n ∧ ∀ copy, ∃ s', driverProgram.step s (.move m copy) = some s'
  /-- With the mutex held or free it runs to its return, whatever is written to the memory
  before each of its steps; it stays within its ring reads and leaves the mutex released. -/
  returns : ∀ n t, s.threads n = some t → s.mutex = none ∨ s.mutex = some n →
    ∀ script : List (MemoryChange × CopyResult), t.pos.left ≤ script.length →
      ∃ k s' t' result,
        exec driverProgram.step s ((script.take k).flatMap (Program.turn n)) = some s' ∧
          s'.threads n = some t' ∧ t'.pos = .ret result ∧
          ringReads t' ≤ t.entry.readLimit ∧ s'.mutex = none
  /-- Who has returned has released the mutex. -/
  released : ∀ n t result, s.threads n = some t → t.pos = .ret result → s.mutex ≠ some n

/-- Attach has returned: the softc, zeroed when it was allocated, has its cursors at 0, except
that interrupts may have moved that of the control queue. -/
structure AfterAttach (s : DriverSys) : Prop where
  txHead : s.shared.txHead = 0#32
  rxHead : s.shared.rxHead = 0#32
  dataEvqReadPtr : s.shared.dataEvqReadPtr = 0#32
  evqReadPtr : ∃ link labels c, exec controlStep (controlStart link) labels = some c ∧
    c.attach = .attached ∧ s.shared.evqReadPtr = BitVec.ofNat 32 c.evqReadPtr
  unlocked : s.mutex = none
  idle : ∀ n, s.threads n = none

/-! ## Cursors -/

theorem onRing_of_toNat_lt {cursor : BitVec 32} (hlt : cursor.toNat < 512) : OnRing cursor := by
  have hint : cursor.toInt = cursor.toNat := BitVec.toInt_eq_toNat_of_lt (by omega)
  unfold OnRing
  omega

/-- The mask of an increment brings any cursor to the ring. -/
theorem onRing_nextCursor (cursor : BitVec 32) : OnRing (nextCursor cursor) := by
  apply onRing_of_toNat_lt
  rw [nextCursor_toNat]
  exact Nat.mod_lt _ (by decide)

/-- The cursor of the control queue stays on the ring while attach and the handler both store
to it. -/
theorem controlStep_evqReadPtr_lt {c c' : ControlSys} {a : ControlLabel}
    (hlt : c.evqReadPtr < 512) (hstep : controlStep c a = some c') : c'.evqReadPtr < 512 := by
  cases a with
  | nic ev =>
    simp only [controlStep, nicStep] at hstep
    split at hstep
    · cases hstep
      exact hlt
    · cases hstep
  | interrupt =>
    simp only [controlStep, interruptStep] at hstep
    split at hstep
    · split at hstep
      · cases hstep
        exact hlt
      · cases hstep
        exact hlt
    · cases hstep
  | isr =>
    cases isrAccess_of_isrStep hstep with
    | @bump _ i =>
      -- `i` may be stale, but the mask does not care
      exact land_ringMask_lt (i + 1)
    | _ => exact hlt
  | attach ok =>
    simp only [controlStep, attachStep, attachCommand] at hstep
    cases hpc : c.attach with
    | attached | stopped =>
      rw [hpc] at hstep
      cases hstep
    | failDma =>
      rw [hpc] at hstep
      dsimp only at hstep
      split at hstep
      · cases hstep
        exact hlt
      · cases hstep
    | resetControl | resetData =>
      rw [hpc] at hstep
      cases hstep
      exact Nat.zero_lt_succ _
    | _ =>
      rw [hpc] at hstep
      cases hstep
      exact hlt

theorem AfterAttach.cursors {s : DriverSys} (hattached : AfterAttach s) :
    CursorsInRange s.shared where
  txHead := by
    rw [hattached.txHead]
    exact onRing_of_toNat_lt (by decide)
  rxHead := by
    rw [hattached.rxHead]
    exact onRing_of_toNat_lt (by decide)
  dataEvqReadPtr := by
    rw [hattached.dataEvqReadPtr]
    exact onRing_of_toNat_lt (by decide)
  evqReadPtr := by
    obtain ⟨link, labels, c, hrun, -, heq⟩ := hattached.evqReadPtr
    have hlt : c.evqReadPtr < 512 :=
      exec_invariant (fun _ _ _ hlt hstep => controlStep_evqReadPtr_lt hlt hstep)
        (show (controlStart link).evqReadPtr < 512 from Nat.zero_lt_succ _) hrun
    rw [heq]
    apply onRing_of_toNat_lt
    rw [BitVec.toNat_ofNat]
    omega

/-! ## One step of a section -/

/-- What the checks before the lock have established, and the counters of the loops. -/
def Section.Fits : Section → Prop
  | .setEvqRptr evqReadPtr txHead rxHead =>
    evqReadPtr.toNat < 512 ∧ txHead.toNat < 512 ∧ rxHead.toNat < 512
  | .txCopyin req => req.length ≤ txBufferSize
  | .txClear _ tries _ _ => tries < txTries
  | .rxClear tries _ _ => tries < rxTries
  | .isrLook processed | .isrClear processed => processed < numEvqEntry
  | _ => True

/-- Ring reads from here on, at most. -/
def Section.readsLeft : Section → Nat
  | .txCopyin _ | .txDesc _ | .txRing => txTries
  | .txPoll _ tries _ => txTries - tries
  | .txClear _ tries _ _ => txTries - (tries + 1)
  | .rxPoll tries _ => rxTries - tries
  | .rxClear tries _ _ => rxTries - (tries + 1)
  | .isrLook processed => numEvqEntry - processed
  | .isrClear processed => numEvqEntry - (processed + 1)
  | _ => 0

def DriverPos.Fits : DriverPos → Prop
  | .lock sec | .inside sec => sec.Fits
  | _ => True

def DriverPos.readsLeft : DriverPos → Nat
  | .entry e => e.readLimit
  | .lock sec | .inside sec => sec.readsLeft
  | _ => 0

/-- The mutex is held. -/
def DriverPos.held : DriverPos → Bool
  | .inside _ | .unlock _ => true
  | _ => false

/-- Everything the proofs below need to know about a step. -/
structure SectionSpec (d : DriverState) (sec : Section)
    (out : DriverState × List RingAccess × DriverPos) : Prop where
  range : CursorsInRange out.1
  inside : ∀ a ∈ out.2.1, a.Inside d
  fits : out.2.2.Fits
  left : out.2.2.left < sec.left
  reads : out.2.1.countP RingAccess.isRead + out.2.2.readsLeft ≤ sec.readsLeft

section Steps

variable {d d' : DriverState} {sec : Section} {pos : DriverPos}

theorem SectionSpec.quiet (hrange : CursorsInRange d') (hfits : pos.Fits)
    (hleft : pos.left < sec.left) (hreads : pos.readsLeft ≤ sec.readsLeft) :
    SectionSpec d sec (d', [], pos) where
  range := hrange
  inside := nofun
  fits := hfits
  left := hleft
  reads := by
    rw [List.countP_nil, Nat.zero_add]
    exact hreads

variable {ring : Ring} {index : Int}

theorem SectionSpec.read (hrange : CursorsInRange d') (hinside : 0 ≤ index ∧ index < ring.size)
    (hfits : pos.Fits) (hleft : pos.left < sec.left) (hreads : pos.readsLeft < sec.readsLeft) :
    SectionSpec d sec (d', [.read ring index], pos) where
  range := hrange
  inside := by
    intro a ha
    rw [List.mem_singleton.mp ha]
    exact hinside
  fits := hfits
  left := hleft
  reads := by
    show 1 + pos.readsLeft ≤ sec.readsLeft
    omega

theorem SectionSpec.write (hrange : CursorsInRange d') (hinside : 0 ≤ index ∧ index < ring.size)
    (hfits : pos.Fits) (hleft : pos.left < sec.left) (hreads : pos.readsLeft ≤ sec.readsLeft) :
    SectionSpec d sec (d', [.write ring index], pos) where
  range := hrange
  inside := by
    intro a ha
    rw [List.mem_singleton.mp ha]
    exact hinside
  fits := hfits
  left := hleft
  reads := by
    show 0 + pos.readsLeft ≤ sec.readsLeft
    omega

/-- A ring is read, and the event decides where to go. -/
theorem SectionSpec.readThen {p : Prop} [Decidable p] {next other : Section}
    (hrange : CursorsInRange d') (hinside : 0 ≤ index ∧ index < ring.size)
    (hnext : next.Fits ∧ next.left < sec.left ∧ next.readsLeft < sec.readsLeft)
    (hother : other.Fits ∧ other.left < sec.left ∧ other.readsLeft < sec.readsLeft) :
    SectionSpec d sec (d', [.read ring index], .inside (if p then next else other)) := by
  split
  · exact .read hrange hinside hnext.1 hnext.2.1 hnext.2.2
  · exact .read hrange hinside hother.1 hother.2.1 hother.2.2

/-- A slot is zeroed, and the event decides where to go. -/
theorem SectionSpec.writeThen {p : Prop} [Decidable p] {next other : Section}
    (hrange : CursorsInRange d') (hinside : 0 ≤ index ∧ index < ring.size)
    (hnext : next.Fits ∧ next.left < sec.left ∧ next.readsLeft ≤ sec.readsLeft)
    (hother : p ∨ other.Fits ∧ other.left < sec.left ∧ other.readsLeft ≤ sec.readsLeft) :
    SectionSpec d sec (d', [.write ring index], .inside (if p then next else other)) := by
  split
  · exact .write hrange hinside hnext.1 hnext.2.1 hnext.2.2
  · next hp =>
      obtain ⟨hfits, hleft, hreads⟩ := hother.resolve_left hp
      exact .write hrange hinside hfits hleft hreads

/-- Behind every section there is at least the release of the mutex. -/
theorem Section.one_lt_left (sec : Section) : 1 < sec.left := by
  cases sec <;> simp only [Section.left] <;> omega

theorem bytesCopied_le (copy : CopyResult) (length : Nat) : bytesCopied copy length ≤ length := by
  unfold bytesCopied
  split
  · exact Nat.le_refl length
  · exact Nat.min_le_right _ _

/-- `copyin` stays in the slot at `tx_head`, also if it faults. -/
theorem sectionStep_txCopyin (hrange : CursorsInRange d) (copy : CopyResult) {req : TxReq}
    (hlength : req.length ≤ txBufferSize) :
    SectionSpec d (.txCopyin req) (sectionStep d copy (.txCopyin req)) := by
  have hcopied := bytesCopied_le copy req.length
  have hnone : ((List.range (bytesCopied copy req.length)).map fun j : Nat =>
      RingAccess.txBuffer (d.txHead.toInt * txBufferSize + j)).countP RingAccess.isRead = 0 := by
    rw [List.countP_eq_zero]
    intro a ha
    obtain ⟨j, -, rfl⟩ := List.mem_map.mp ha
    exact Bool.false_ne_true
  have hinside : ∀ a ∈ (sectionStep d copy (.txCopyin req)).2.1, a.Inside d := by
    intro a ha
    obtain ⟨j, hj, rfl⟩ := List.mem_map.mp ha
    have hlt := List.mem_range.mp hj
    simp only [RingAccess.Inside]
    simp only [txBufferSize] at hlength ⊢
    omega
  have hcursors : CursorsInRange (sectionStep d copy (.txCopyin req)).1 :=
    ⟨hrange.txHead, hrange.rxHead, hrange.dataEvqReadPtr, hrange.evqReadPtr⟩
  by_cases herr : copy.err = 0
  · refine ⟨hcursors, hinside, ?_, ?_, ?_⟩
    all_goals simp only [sectionStep, herr, if_true]
    · trivial
    · exact Nat.lt_succ_self _
    · rw [hnone, Nat.zero_add]
      exact Nat.le_refl _
  · refine ⟨hcursors, hinside, ?_, ?_, ?_⟩
    all_goals simp only [sectionStep, herr, if_false]
    · trivial
    · exact Section.one_lt_left _
    · rw [hnone, Nat.zero_add]
      exact Nat.zero_le _

/-- Compared unsigned in front of the lock, none of the three cursors is negative. -/
theorem sectionStep_setEvqRptr (hrange : CursorsInRange d) (copy : CopyResult)
    {evqReadPtr txHead rxHead : BitVec 32}
    (hfits : (Section.setEvqRptr evqReadPtr txHead rxHead).Fits) :
    SectionSpec d (.setEvqRptr evqReadPtr txHead rxHead)
      (sectionStep d copy (.setEvqRptr evqReadPtr txHead rxHead)) := by
  obtain ⟨hptr, hhead, hrxHead⟩ := hfits
  refine .quiet ⟨?_, ?_, ?_, hrange.evqReadPtr⟩ trivial (Section.one_lt_left _) (Nat.le_refl _)
  · exact onRing_of_toNat_lt hhead
  · exact onRing_of_toNat_lt hrxHead
  · exact onRing_of_toNat_lt hptr

theorem sectionStep_txPoll (hrange : CursorsInRange d) (copy : CopyResult)
    (postedIdx : BitVec 32) (tries consumed : Nat) :
    SectionSpec d (.txPoll postedIdx tries consumed)
      (sectionStep d copy (.txPoll postedIdx tries consumed)) := by
  simp only [sectionStep]
  split
  · next htries =>
      refine .readThen hrange hrange.dataEvqReadPtr ⟨trivial, ?_, ?_⟩ ⟨htries, ?_, ?_⟩
      all_goals
        simp only [Section.left, Section.readsLeft]
        omega
  · refine .quiet hrange trivial ?_ (Nat.zero_le _)
    simp only [DriverPos.left, Section.left]
    omega

/-- The next cursor is masked: it is on the ring whatever the current one was. -/
theorem sectionStep_txClear (hrange : CursorsInRange d) (copy : CopyResult)
    {postedIdx : BitVec 32} {tries consumed : Nat} {ev : BitVec 64} (htries : tries < txTries) :
    SectionSpec d (.txClear postedIdx tries consumed ev)
      (sectionStep d copy (.txClear postedIdx tries consumed ev)) := by
  refine .writeThen { hrange with dataEvqReadPtr := onRing_nextCursor _ } hrange.dataEvqReadPtr
    ⟨trivial, ?_, Nat.zero_le _⟩ (Or.inr ⟨trivial, ?_, Nat.le_refl _⟩)
  all_goals
    simp only [Section.left]
    omega

theorem sectionStep_rxPoll (hrange : CursorsInRange d) (copy : CopyResult)
    (tries consumed : Nat) :
    SectionSpec d (.rxPoll tries consumed) (sectionStep d copy (.rxPoll tries consumed)) := by
  simp only [sectionStep]
  split
  · next htries =>
      refine .readThen hrange hrange.dataEvqReadPtr ⟨trivial, ?_, ?_⟩ ⟨htries, ?_, ?_⟩
      all_goals
        simp only [Section.left, Section.readsLeft]
        omega
  · refine .quiet hrange trivial ?_ (Nat.zero_le _)
    simp only [DriverPos.left, Section.left]
    omega

theorem sectionStep_rxClear (hrange : CursorsInRange d) (copy : CopyResult)
    {tries consumed : Nat} {ev : BitVec 64} (htries : tries < rxTries) :
    SectionSpec d (.rxClear tries consumed ev)
      (sectionStep d copy (.rxClear tries consumed ev)) := by
  refine .writeThen { hrange with dataEvqReadPtr := onRing_nextCursor _ } hrange.dataEvqReadPtr
    ⟨trivial, ?_, Nat.zero_le _⟩ (Or.inr ⟨trivial, ?_, Nat.le_refl _⟩)
  all_goals
    simp only [Section.left]
    omega

theorem sectionStep_rxCopy (hrange : CursorsInRange d) (copy : CopyResult) (rxBytes : Nat) :
    SectionSpec d (.rxCopy rxBytes) (sectionStep d copy (.rxCopy rxBytes)) := by
  by_cases herr : copy.err = 0
  · simp only [sectionStep, herr, if_true]
    exact .quiet hrange trivial (Nat.lt_succ_self _) (Nat.le_refl _)
  · simp only [sectionStep, herr, if_false]
    exact .quiet hrange trivial (Section.one_lt_left _) (Nat.le_refl _)

/-- An empty slot ends the loop of the handler, and only the doorbell is left. -/
theorem sectionStep_isrLook (hrange : CursorsInRange d) (copy : CopyResult) {processed : Nat}
    (hprocessed : processed < numEvqEntry) :
    SectionSpec d (.isrLook processed) (sectionStep d copy (.isrLook processed)) := by
  simp only [sectionStep]
  split
  · refine .read hrange hrange.evqReadPtr trivial ?_ ?_
    all_goals
      simp only [DriverPos.left, DriverPos.readsLeft, Section.left, Section.readsLeft]
      omega
  · refine .read { hrange with } hrange.evqReadPtr hprocessed (Nat.lt_succ_self _) ?_
    simp only [DriverPos.readsLeft, Section.readsLeft]
    omega

/-- After a whole lap the handler stops. -/
theorem sectionStep_isrClear (hrange : CursorsInRange d) (copy : CopyResult) {processed : Nat}
    (hprocessed : processed < numEvqEntry) :
    SectionSpec d (.isrClear processed) (sectionStep d copy (.isrClear processed)) := by
  refine .writeThen { hrange with evqReadPtr := onRing_nextCursor _ } hrange.evqReadPtr
    ⟨trivial, ?_, Nat.zero_le _⟩ ?_
  · simp only [Section.left]
    omega
  · rw [or_iff_not_imp_left, Nat.not_le]
    intro hmore
    refine ⟨hmore, ?_, Nat.le_refl _⟩
    simp only [Section.left]
    omega

/-- A step of a section keeps the cursors on their rings and its accesses inside, and uses up
steps and reads. -/
theorem sectionStep_spec (hrange : CursorsInRange d) (copy : CopyResult) (hfits : sec.Fits) :
    SectionSpec d sec (sectionStep d copy sec) := by
  have hone : ∀ sec : Section, 1 < sec.left := Section.one_lt_left
  cases sec with
  | getMac | getViInfo => exact .quiet hrange trivial (hone _) (Nat.le_refl _)
  | setEvqRptr => exact sectionStep_setEvqRptr hrange copy hfits
  | txCopyin => exact sectionStep_txCopyin hrange copy hfits
  | txDesc =>
    exact .write { hrange with } hrange.txHead trivial (Nat.lt_succ_self _) (Nat.le_refl _)
  | txRing => exact .quiet { hrange with } trivial (Nat.lt_succ_self _) (Nat.le_refl _)
  | txPoll => exact sectionStep_txPoll hrange copy _ _ _
  | txClear => exact sectionStep_txClear hrange copy hfits
  | txAck =>
    exact .quiet { hrange with txHead := onRing_nextCursor _ } trivial (hone _) (Nat.le_refl _)
  | rxPoll => exact sectionStep_rxPoll hrange copy _ _
  | rxClear => exact sectionStep_rxClear hrange copy hfits
  | rxAck consumed rxFound =>
    cases rxFound with
    | none => exact .quiet { hrange with } trivial (hone _) (Nat.le_refl _)
    | some rxBytes => exact .quiet { hrange with } trivial (Nat.lt_succ_self _) (Nat.le_refl _)
  | rxCopy => exact sectionStep_rxCopy hrange copy _
  | rxRepost =>
    exact .write { hrange with } hrange.rxHead trivial (Nat.lt_succ_self _) (Nat.le_refl _)
  | rxRing =>
    exact .quiet { hrange with rxHead := onRing_nextCursor _ } trivial (hone _) (Nat.le_refl _)
  | isrLook => exact sectionStep_isrLook hrange copy hfits
  | isrClear => exact sectionStep_isrClear hrange copy hfits
  | isrBell => exact .quiet { hrange with } trivial (hone _) (Nat.le_refl _)

/-- The checks before the lock let only sections through that fit. -/
theorem beforeLock_fits (d : DriverState) (e : DriverEntry) : (beforeLock d e).Fits := by
  cases e with
  | getMac | getViInfo | rx | other => trivial
  | setEvqRptr evqReadPtr txHead rxHead =>
    simp only [beforeLock]
    split
    · trivial
    · next hchecked =>
        simp only [numEvqEntry, numTxDesc, numRxDesc, not_or, Nat.not_le] at hchecked
        exact hchecked
  | tx req =>
    simp only [beforeLock]
    split
    · trivial
    · next hchecked =>
        simp only [txReqError] at hchecked
        show req.length ≤ txBufferSize
        grind
  | interrupt =>
    simp only [beforeLock]
    split
    · trivial
    · exact Nat.zero_lt_succ _

/-- The checks take one step, and read no ring. -/
theorem beforeLock_left (d : DriverState) (e : DriverEntry) :
    (beforeLock d e).left < e.left ∧ (beforeLock d e).readsLeft ≤ e.readLimit ∧
      (beforeLock d e).held = false := by
  cases e with
  | getMac | getViInfo | rx | other => exact ⟨Nat.lt_succ_self _, Nat.le_refl _, rfl⟩
  | setEvqRptr evqReadPtr txHead rxHead =>
    simp only [beforeLock]
    split
    · exact ⟨Nat.zero_lt_succ _, Nat.le_refl _, rfl⟩
    · exact ⟨Nat.lt_succ_self _, Nat.le_refl _, rfl⟩
  | tx req =>
    simp only [beforeLock]
    split
    · exact ⟨Nat.zero_lt_succ _, Nat.zero_le _, rfl⟩
    · exact ⟨Nat.lt_succ_self _, Nat.le_refl _, rfl⟩
  | interrupt =>
    simp only [beforeLock]
    split
    · exact ⟨Nat.zero_lt_succ _, Nat.zero_le _, rfl⟩
    · exact ⟨Nat.lt_succ_self _, Nat.le_refl _, rfl⟩

end Steps

/-! ## Threads -/

/-- A thread has passed its checks and keeps within its ring reads. -/
structure WithinLimits (t : Thread DriverEntry DriverPos RingAccess) : Prop where
  fits : t.pos.Fits
  reads : ringReads t + t.pos.readsLeft ≤ t.entry.readLimit

theorem ringReads_moved (t : Thread DriverEntry DriverPos RingAccess)
    (out : Moved DriverState DriverPos RingAccess) :
    ringReads (t.moved out) = ringReads t + out.accesses.countP RingAccess.isRead :=
  List.countP_append

/-- What one operation of a thread does: all that `sectionStep_spec` says, and the same of the
positions outside of the sections. -/
structure MoveSpec (d : DriverState) (pos : DriverPos)
    (out : Moved DriverState DriverPos RingAccess) : Prop where
  range : CursorsInRange out.shared
  inside : ∀ a ∈ out.accesses, a.Inside d
  fits : out.pos.Fits
  left : out.pos.left < pos.left
  reads : out.accesses.countP RingAccess.isRead + out.pos.readsLeft ≤ pos.readsLeft

theorem perform_spec {d : DriverState} {mutex : Option Nat} {n : Nat} {copy : CopyResult}
    {pos : DriverPos} {out : Moved DriverState DriverPos RingAccess} (hrange : CursorsInRange d)
    (hfits : pos.Fits) (hout : driverProgram.perform d mutex n copy pos = some out) :
    MoveSpec d pos out := by
  cases pos with
  | entry e =>
    cases hout
    obtain ⟨hleft, hreads, -⟩ := beforeLock_left d e
    refine ⟨hrange, List.forall_mem_nil _, beforeLock_fits d e, hleft, ?_⟩
    rw [List.countP_nil, Nat.zero_add]
    exact hreads
  | lock sec =>
    simp only [Program.perform, driverProgram] at hout
    split at hout
    · cases hout
      exact ⟨hrange, List.forall_mem_nil _, hfits, Nat.lt_succ_self _,
        Nat.le_of_eq (Nat.zero_add _)⟩
    · cases hout
  | inside sec =>
    cases hout
    have hspec := sectionStep_spec hrange copy hfits
    exact ⟨hspec.range, hspec.inside, hspec.fits, hspec.left, hspec.reads⟩
  | unlock result =>
    simp only [Program.perform, driverProgram] at hout
    split at hout
    · cases hout
      exact ⟨hrange, List.forall_mem_nil _, trivial, Nat.zero_lt_one, Nat.le_refl _⟩
    · cases hout
  | ret result => cases hout

/-- From a section the thread goes on to another one, or to the release of the mutex. -/
theorem sectionStep_held (d : DriverState) (copy : CopyResult) (sec : Section) :
    (sectionStep d copy sec).2.2.held = true := by
  cases sec with
  | txCopyin _ | txPoll _ _ _ | rxPoll _ _ | rxAck _ _ | rxCopy _ | isrLook _ =>
    simp only [sectionStep]
    split <;> rfl
  | _ => rfl

/-- Every exit of a section goes through the release of the mutex. -/
theorem driver_marking : driverProgram.Marking DriverPos.held where
  start _ := rfl
  lock := by
    intro pos next hop
    cases pos <;> cases hop
    exact ⟨rfl, rfl⟩
  unlock := by
    intro pos next hop
    cases pos <;> cases hop
    exact ⟨rfl, rfl⟩
  work := by
    intro pos act hop d copy
    cases pos with
    | entry e =>
      cases hop
      exact (beforeLock_left d e).2.2
    | inside sec =>
      cases hop
      exact sectionStep_held d copy sec
    | lock sec | unlock result | ret result => cases hop
  ret := by
    intro pos result hop
    cases pos <;> cases hop
    rfl

/-- The cursors are an invariant of the shared state, the limits one of each thread, and every
step has its price. -/
theorem driver_bounded :
    driverProgram.Bounded CursorsInRange WithinLimits DriverPos.left where
  start e := ⟨trivial, Nat.le_of_eq (Nat.zero_add _)⟩
  outside change d hrange :=
    ⟨hrange.txHead, hrange.rxHead, hrange.dataEvqReadPtr, hrange.evqReadPtr⟩
  move := by
    intro d mutex n copy t out hrange hlimits hout
    have hspec := perform_spec hrange hlimits.fits hout
    refine ⟨hspec.range, hspec.fits, ?_⟩
    have hreads := hspec.reads
    have hsofar := hlimits.reads
    rw [ringReads_moved]
    show _ + out.pos.readsLeft ≤ t.entry.readLimit
    omega
  decreases := by
    intro d mutex n copy t out hrange hlimits hout
    exact (perform_spec hrange hlimits.fits hout).left

/-! ## Runs -/

/-- The invariant of the driver. -/
structure DriverInv (s : DriverSys) : Prop where
  kept : Program.Kept CursorsInRange WithinLimits s
  owned : Program.Owned DriverPos.held s

theorem driverInv_start {s : DriverSys} (hattached : AfterAttach s) : DriverInv s where
  kept :=
    { shared := hattached.cursors
      thread := by
        intro n t ht
        rw [hattached.idle n] at ht
        cases ht }
  owned :=
    { owner := by
        intro n t ht
        rw [hattached.idle n] at ht
        cases ht
      present := by
        intro n hn
        rw [hattached.unlocked] at hn
        cases hn }

theorem driverInv_run {s s' : DriverSys} {labels : List DriverLabel} (hinv : DriverInv s)
    (hrun : exec driverProgram.step s labels = some s') : DriverInv s' := by
  refine exec_invariant ?_ hinv hrun
  intro s a s' hinv hstep
  exact ⟨Program.kept_step driver_bounded.toKeeps hinv.kept hstep,
    Program.owned_step driver_marking hinv.owned hstep⟩

theorem pos_of_ret {pos : DriverPos} {result : DriverResult}
    (hret : driverProgram.op pos = .ret result) : pos = .ret result := by
  cases pos <;> cases hret
  rfl

namespace DriverInv

variable {s : DriverSys}

/-- The next step stays inside, whichever it is. -/
theorem accesses (hinv : DriverInv s) (label : DriverLabel) :
    ∀ a ∈ driverProgram.accesses s label, a.Inside s.shared := by
  cases label with
  | enter n e => nofun
  | outside change => nofun
  | move n copy =>
    intro a ha
    simp only [Program.accesses] at ha
    split at ha
    · cases ha
    · next t ht =>
        cases hout : driverProgram.perform s.shared s.mutex n copy t.pos with
        | none =>
          rw [hout] at ha
          cases ha
        | some out =>
          rw [hout] at ha
          have hfits := (hinv.kept.thread n t ht).fits
          exact (perform_spec hinv.kept.shared hfits hout).inside a ha

variable {n : Nat} {t : Thread DriverEntry DriverPos RingAccess}

theorem reads (hinv : DriverInv s) (ht : s.threads n = some t) : ringReads t ≤ t.entry.readLimit :=
  Nat.le_trans (Nat.le_add_right _ _) (hinv.kept.thread n t ht).reads

theorem returns (hinv : DriverInv s) (ht : s.threads n = some t)
    (hmutex : s.mutex = none ∨ s.mutex = some n) (script : List (MemoryChange × CopyResult))
    (hlong : t.pos.left ≤ script.length) :
    ∃ k s' t' result,
      exec driverProgram.step s ((script.take k).flatMap (Program.turn n)) = some s' ∧
        s'.threads n = some t' ∧ t'.pos = .ret result ∧
        ringReads t' ≤ t.entry.readLimit ∧ s'.mutex = none := by
  obtain ⟨k, s', t', result, hrun, ht', hret, hfree⟩ :=
    driver_bounded.finishes driver_marking hinv.kept hinv.owned ht hmutex script hlong
  refine ⟨k, s', t', result, hrun, ht', pos_of_ret hret, ?_, hfree⟩
  -- the thread is still the same call
  obtain ⟨u, hu, hentry, -⟩ := driver_bounded.run hinv.kept hrun ht
  obtain rfl : u = t' := Option.some.inj (hu.symm.trans ht')
  rw [← hentry]
  exact (driverInv_run hinv hrun).reads ht'

theorem progress (hinv : DriverInv s)
    (ht : s.threads n = some t) : (∃ result, t.pos = .ret result) ∨
      (∀ copy, ∃ s', driverProgram.step s (.move n copy) = some s') ∨
      (∃ sec, t.pos = .lock sec) ∧ ∃ m, s.mutex = some m ∧ m ≠ n ∧
        ∀ copy, ∃ s', driverProgram.step s (.move m copy) = some s' := by
  rcases hinv.owned.progress driver_marking ht with
    ⟨result, hret⟩ | hmoves | ⟨⟨next, hlock⟩, howner⟩
  · exact Or.inl ⟨result, pos_of_ret hret⟩
  · exact Or.inr (Or.inl hmoves)
  · refine Or.inr (Or.inr ⟨?_, howner⟩)
    cases hpos : t.pos with
    | lock sec => exact ⟨sec, rfl⟩
    | _ =>
      rw [hpos] at hlock
      cases hlock

end DriverInv

/-- **Hostile input is contained.**  After attach, in every interleaving of ioctls with any
arguments, interrupts and writes to the shared memory: the four cursors lie in `[0, 512)`; every
access to an event or descriptor ring is inside of it, and every write to the transmit buffer
inside of the slot at `tx_head`; and every call returns within its 10000 or 100000 ring reads,
with the mutex released, and is never held up except by one that can go on. -/
theorem hostile_input_contained {start s : DriverSys} {labels : List DriverLabel}
    (hattached : AfterAttach start) (hrun : exec driverProgram.step start labels = some s) :
    Contained s := by
  have hinv := driverInv_run (driverInv_start hattached) hrun
  exact
    { cursors := hinv.kept.shared
      accesses := hinv.accesses
      reads := fun _ _ ht => hinv.reads ht
      bounded := by
        intro n t ht later s' hlater
        obtain ⟨t', -, -, hle⟩ := driver_bounded.run hinv.kept hlater ht
        omega
      progress := fun _ _ ht => hinv.progress ht
      returns := fun _ _ ht => hinv.returns ht
      released := by
        intro n t result ht hpos
        exact hinv.owned.released driver_marking ht (by rw [hpos]; rfl) }

/-- A driver after attach. -/
def attachedDriver : DriverSys where
  shared :=
    { dev := postRxBuffers 0x40000000#64 allocDmaResources
      evqRing := fun _ => 0xffffffffffffffff#64
      evqRptrDbl := none
      link := ⟨false, false, 0, 0⟩
      evqInitialized := true
      dying := false
      macAddr := 0x000f53000001#48
      viBase := 0#32
      rxBufferPaddr := 0x40000000#64
      txBufferPaddr := 0x40100000#64
      txHead := 0#32
      rxHead := 0#32
      dataEvqReadPtr := 0#32
      evqReadPtr := 0#32 }
  mutex := none
  threads := fun _ => none

theorem afterAttach_attachedDriver : AfterAttach attachedDriver where
  txHead := rfl
  rxHead := rfl
  dataEvqReadPtr := rfl
  evqReadPtr := ⟨⟨false, false, 0, 0⟩, List.replicate 12 (.attach true), _, rfl, rfl, rfl⟩
  unlocked := rfl
  idle _ := rfl

/-- All slots of the data queue hold the same event. -/
def flooded (ev : BitVec 64) : MemoryChange where
  dev := { allocDmaResources with evqRing := fun _ => ev }
  evqRing := fun _ => ev

/-- A refused and an accepted `SFC7120_SET_EVQ_RPTR`, then a packet of 2048 bytes from the last
slot; the queue is flooded with receive events, and with completions of that slot after the
first of them has been read. -/
def hostileLabels : List DriverLabel :=
  [.enter 0 (.setEvqRptr 0xffffffff#32 0x80000000#32 512#32), .move 0 ⟨0, 0⟩,
    .enter 1 (.setEvqRptr 511#32 511#32 0#32), .move 1 ⟨0, 0⟩, .move 1 ⟨0, 0⟩, .move 1 ⟨0, 0⟩,
    .move 1 ⟨0, 0⟩,
    .enter 2 (.tx ⟨true, true, 2048, 2048, fun _ => 0#8⟩), .move 2 ⟨0, 0⟩, .move 2 ⟨0, 0⟩,
    .move 2 ⟨0, 0⟩, .move 2 ⟨0, 0⟩, .move 2 ⟨0, 0⟩,
    .outside (flooded 0x0000000000000040#64), .move 2 ⟨0, 0⟩,
    .outside (flooded 0x20000000000001ff#64), .move 2 ⟨0, 0⟩, .move 2 ⟨0, 0⟩, .move 2 ⟨0, 0⟩,
    .move 2 ⟨0, 0⟩, .move 2 ⟨0, 0⟩]

theorem hostile_input_contained_flood :
    ∃ s, exec driverProgram.step attachedDriver hostileLabels = some s ∧
      (s.shared.txHead = 0#32 ∧ s.shared.dataEvqReadPtr = 1#32 ∧ s.mutex = none) ∧
      Contained s := by
  have hfinal : (exec driverProgram.step attachedDriver hostileLabels).map
      (fun s => (s.shared.txHead, s.shared.dataEvqReadPtr, s.mutex)) =
        some (0#32, 1#32, none) := by
    decide +kernel
  obtain ⟨s, hrun, hs⟩ := Option.map_eq_some_iff.mp hfinal
  simp only [Prod.mk.injEq] at hs
  exact ⟨s, hrun, hs, hostile_input_contained afterAttach_attachedDriver hrun⟩

end Kernel
end SfcCapio
