import SfcCapio.Handover.Sessions
import SfcCapio.Kernel.TxIoctl

/-!
# The cursors across sessions

The driver and the library each keep a read pointer of the event queue and the
heads of the two descriptor rings.  A session drives the card by one of them: by
the ioctls `SFC7120_TX` and `SFC7120_RX`, which move the driver's cursors, or by
the direct calls, which move the library's.  `sfc7120_init` copies the driver's
cursors into the library; `sfc7120_destroy` copies them back if the session has
set `used_poll`.

`CursorSys` runs any number of sessions of both kinds.  `last` remembers where the
session before ended, and `HandsOver` says that the next session starts there.

Four of the direct calls, the three releases and `sfc7120_tx_post_paddr_nodbl`,
move a head and leave `used_poll` alone.  A session made of these only is
forgotten by the driver, unless it went round its rings a whole number of times.
`cursors_handed_over_iff` states this as the exact condition.
-/

namespace SfcCapio
namespace Handover

open Hardware Foundation Kernel Userlib

/-! ## The system -/

/-- The triple of `SFC7120_GET_VI_INFO` and `SFC7120_SET_EVQ_RPTR`. -/
structure Cursors where
  evqReadPtr : Nat
  txHead : Nat
  rxHead : Nat
deriving DecidableEq

/-- The driver's cursors. -/
def kernelCursors (sc : Softc) : Cursors := ⟨sc.dataEvqReadPtr, sc.txHead, sc.rxHead⟩

/-- The library's cursors. -/
def libraryCursors (sfc : SfcIf) : Cursors := ⟨sfc.evqReadPtr, sfc.txHead, sfc.rxHead⟩

/-- The functions a session uses. -/
inductive Path
  | ioctl
  | direct
deriving DecidableEq

/-- A session between init and destroy.  `rxMoves` and `txMoves` count the steps of
the library's two heads, `reported` says whether a call has been made that reports
them. -/
structure OpenSession where
  path : Path
  sfc : SfcIf
  rxMoves : Nat
  txMoves : Nat
  reported : Bool

/-- The cursors at which a session stands. -/
def OpenSession.cursors (o : OpenSession) (sc : Softc) : Cursors :=
  match o.path with
  | .ioctl => kernelCursors sc
  | .direct => libraryCursors o.sfc

/-- The ioctl handler in progress. -/
inductive IoctlPc
  | rx (pc : RxPc)
  | tx (pc : TxPc)

/-- The driver, the open session, the handler it waits for, and the cursors at
which the session before it ended. -/
structure CursorSys where
  sc : Softc
  session : Option OpenSession
  call : Option IoctlPc
  last : Option Cursors

/-- A session starts or ends, makes a direct call, enters `sfc7120_rx` or
`sfc7120_tx` or moves inside the ioctl; or the card writes. -/
inductive CursorLabel
  | init (path : Path) (rxWindow : Option (BitVec 32))
  | call (c : LibCall)
  | rxEnter
  | txEnter (req : TxReq)
  | move (copyErr : Nat)
  | card (evqRing : Nat → BitVec 64) (rxBuffer : Nat → BitVec 8)
  | destroy

/-- The call moves `tx_head`. -/
def LibCall.postsTx (s : Session) : LibCall → Bool
  | .txPost bytes => s.sfc.txBuffer && s.sfc.txMapped && txLenOk bytes.length
  | .txPostPaddr _ len => s.sfc.txMapped && txLenOk len
  | .txPostPaddrNodbl _ len => s.sfc.txDescRing && txLenOk len
  | _ => false

/-- The six calls after which destroy writes the cursors back; each must have passed the
checks of its arguments. -/
def LibCall.reports (s : Session) : LibCall → Bool
  | .poll maxEvs =>
    decide (0 < maxEvs) && s.sfc.evqRing && s.sfc.mmioSlices &&
      decide (sliceDataEvqRptrDbl < s.sfc.mmioSlicesLen)
  | .rxPeek _ | .rxRecv _ => s.sfc.rxBuffer && s.sfc.rxMapped
  | .rxPeekExt _ => s.sfc.rxMapped
  | .txPost bytes => s.sfc.txBuffer && s.sfc.txMapped && txLenOk bytes.length
  | .txPostPaddr _ len => s.sfc.txMapped && txLenOk len
  | _ => false

/-- The effect of a direct call.  A call moves `rx_head` when it posts a receive
descriptor. -/
def CursorSys.called (s : CursorSys) (o : OpenSession) (c : LibCall) : CursorSys :=
  let session : Session := ⟨o.sfc, s.sc.dev⟩
  { s with
    sc := { s.sc with dev := (c.run session).dev }
    session := some
      { o with
        sfc := (c.run session).sfc
        rxMoves := o.rxMoves + (c.post session).isSome.toNat
        txMoves := o.txMoves + (c.postsTx session).toNat
        reported := o.reported || c.reports session } }

/-- One step of the handler in progress. -/
def ioctlStep (sc : Softc) (copyErr : Nat) : IoctlPc → Softc × Option IoctlPc
  | .rx pc =>
    let out := rxIoctlStep sc copyErr pc
    match out.2 with
    | .running pc' => (out.1, some (.rx pc'))
    | .returned _ => (out.1, none)
  | .tx pc =>
    let out := txIoctlStep sc copyErr pc
    match out.2 with
    | .running pc' => (out.1, some (.tx pc'))
    | .returned _ => (out.1, none)

/-- Sessions in sequence, each of one kind, each making one call at a time. -/
def cursorStep (s : CursorSys) : CursorLabel → Option CursorSys
  | .init path rxWindow =>
    match s.session with
    | some _ => none
    | none => some { s with session := some ⟨path, sfcInit s.sc rxWindow, 0, 0, false⟩ }
  | .call c =>
    match s.session with
    | none => none
    | some o => if o.path = .direct then some (s.called o c) else none
  | .rxEnter =>
    match s.session, s.call with
    | some o, none =>
      if o.path = .ioctl then some { s with call := some (.rx (.poll 0 0)) } else none
    | _, _ => none
  | .txEnter req =>
    match s.session, s.call with
    | some o, none =>
      if o.path = .ioctl then
        -- a request that fails its checks returns before the lock is taken
        some
          { s with
            call := if (txReqError req).isSome then none else some (.tx (.copyin req)) }
      else none
    | _, _ => none
  | .move copyErr =>
    s.call.map fun pc =>
      { s with sc := (ioctlStep s.sc copyErr pc).1, call := (ioctlStep s.sc copyErr pc).2 }
  | .card evqRing rxBuffer =>
    some
      { s with
        sc := { s.sc with dev := { s.sc.dev with evqRing := evqRing, rxBuffer := rxBuffer } } }
  | .destroy =>
    match s.session, s.call with
    | some o, none =>
      some
        { s with
          sc := sfcDestroy s.sc o.sfc
          session := none
          last := some (o.cursors s.sc) }
    | _, _ => none

/-- Cursors on their rings. -/
structure Cursors.OnRing (c : Cursors) : Prop where
  evqReadPtr : c.evqReadPtr < 512
  txHead : c.txHead < 512
  rxHead : c.rxHead < 512

/-- A device on which no session has run yet. -/
structure CursorStart (s : CursorSys) : Prop where
  onRing : (kernelCursors s.sc).OnRing
  closed : s.session = none
  idle : s.call = none
  unused : s.last = none

/-- Between two sessions: the one that starts next, with whatever window, starts
where the last one ended. -/
def HandsOver (s : CursorSys) : Prop :=
  s.session = none →
    ∀ final ∈ s.last, ∀ rxWindow, libraryCursors (sfcInit s.sc rxWindow) = final

/-- A direct session that ends has made one of the calls that report it, or each of its
heads has gone round the ring a whole number of times. -/
def ReportsMoves (s : CursorSys) : CursorLabel → Prop
  | .destroy =>
    ∀ o ∈ s.session, o.path = .direct →
      o.reported = true ∨ o.rxMoves % 512 = 0 ∧ o.txMoves % 512 = 0
  | _ => True

/-! ## What a direct call does to the cursors -/

/-- The read pointer stays on the ring through a whole call of the poll loop. -/
theorem pollLoop_readPtr_lt (left : Nat) {evq : Nat → BitVec 64} {readPtr : Nat}
    (hlt : readPtr < 512) : (pollLoop left evq readPtr).2.2 < 512 := by
  induction left generalizing evq readPtr with
  | zero => exact hlt
  | succ left ih =>
    cases htake : evqTake evq readPtr with
    | none =>
      simp only [pollLoop, pollIter, htake, Option.map_none]
      exact hlt
    | some out =>
      obtain ⟨ev, evq', readPtr'⟩ := out
      simp only [pollLoop, pollIter, htake, Option.map_some]
      exact ih (evqTake_readPtr_lt htake)

/-- From `sfc` to `sfc'` the heads move by `rx` and `tx` slots; a call that does not
report the session leaves `used_poll` and the read pointer alone. -/
structure Advances (sfc sfc' : SfcIf) (rx tx : Nat) (reports : Bool) : Prop where
  rxHead : sfc.rxHead < 512 → sfc'.rxHead = (sfc.rxHead + rx) % 512
  txHead : sfc.txHead < 512 → sfc'.txHead = (sfc.txHead + tx) % 512
  evqReadPtr : sfc.evqReadPtr < 512 → sfc'.evqReadPtr < 512
  usedPoll : sfc'.usedPoll = (sfc.usedPoll || reports)
  unreported : reports = false → sfc'.evqReadPtr = sfc.evqReadPtr
  viInfoValid : sfc'.viInfoValid = sfc.viInfoValid

namespace Advances

variable {sfc sfc' : SfcIf} {reports : Bool}

theorem refl (sfc : SfcIf) : Advances sfc sfc 0 0 false where
  rxHead := fun hlt => (Nat.mod_eq_of_lt hlt).symm
  txHead := fun hlt => (Nat.mod_eq_of_lt hlt).symm
  evqReadPtr := id
  usedPoll := (Bool.or_false _).symm
  unreported := fun _ => rfl
  viInfoValid := rfl

/-- A call that sets `used_poll` and moves neither head. -/
theorem polled (hrx : sfc'.rxHead = sfc.rxHead) (htx : sfc'.txHead = sfc.txHead)
    (hevq : sfc.evqReadPtr < 512 → sfc'.evqReadPtr < 512) (hused : sfc'.usedPoll = true)
    (hvalid : sfc'.viInfoValid = sfc.viInfoValid) : Advances sfc sfc' 0 0 true where
  rxHead := fun hlt => hrx.trans (Nat.mod_eq_of_lt hlt).symm
  txHead := fun hlt => htx.trans (Nat.mod_eq_of_lt hlt).symm
  evqReadPtr := hevq
  usedPoll := hused.trans (Bool.or_true _).symm
  unreported := nofun
  viInfoValid := hvalid

/-- A call that moves `rx_head`; the flag may be set on the way. -/
theorem received (hrx : sfc'.rxHead = rxNext sfc.rxHead) (htx : sfc'.txHead = sfc.txHead)
    (hevq : sfc'.evqReadPtr = sfc.evqReadPtr)
    (hused : sfc'.usedPoll = (sfc.usedPoll || reports))
    (hvalid : sfc'.viInfoValid = sfc.viInfoValid) : Advances sfc sfc' 1 0 reports where
  rxHead := fun _ => hrx.trans (land_ringMask _)
  txHead := fun hlt => htx.trans (Nat.mod_eq_of_lt hlt).symm
  evqReadPtr := fun hlt => hevq ▸ hlt
  usedPoll := hused
  unreported := fun _ => hevq
  viInfoValid := hvalid

/-- A call that moves `tx_head`; the flag may be set on the way. -/
theorem sent (hrx : sfc'.rxHead = sfc.rxHead) (htx : sfc'.txHead = txNext sfc.txHead)
    (hevq : sfc'.evqReadPtr = sfc.evqReadPtr)
    (hused : sfc'.usedPoll = (sfc.usedPoll || reports))
    (hvalid : sfc'.viInfoValid = sfc.viInfoValid) : Advances sfc sfc' 0 1 reports where
  rxHead := fun hlt => hrx.trans (Nat.mod_eq_of_lt hlt).symm
  txHead := fun _ => htx.trans (land_ringMask _)
  evqReadPtr := fun hlt => hevq ▸ hlt
  usedPoll := hused
  unreported := fun _ => hevq
  viInfoValid := hvalid

end Advances

/-- What each direct call does to the cursors and to the flag that reports them. -/
theorem LibCall.run_advances (s : Session) (c : LibCall) :
    Advances s.sfc (c.run s).sfc (c.post s).isSome.toNat (c.postsTx s).toNat
      (c.reports s) := by
  cases c with
  | poll maxEvs =>
    cases hreports : LibCall.reports s (.poll maxEvs) with
    | false =>
      have hrefused : (Userlib.poll s maxEvs).2 = s := by
        simp only [LibCall.reports, Bool.and_eq_false_iff, decide_eq_false_iff_not] at hreports
        unfold Userlib.poll
        split
        · rfl
        · rw [if_pos (by grind)]
      simp only [LibCall.run, hrefused]
      exact .refl _
    | true =>
      simp only [LibCall.reports, Bool.and_eq_true, decide_eq_true_eq] at hreports
      obtain ⟨⟨⟨hmax, hring⟩, hslices⟩, hlen⟩ := hreports
      simp only [LibCall.run, Userlib.poll, if_neg (not_le.mpr hmax), hring, hslices,
        decide_eq_false (not_le.mpr hlen)]
      exact .polled rfl rfl (pollLoop_readPtr_lt _) rfl rfl
  | rxPeek rxBytes =>
    simp only [LibCall.run, LibCall.reports, Userlib.rxPeek]
    cases s.sfc.rxBuffer with
    | false => exact .refl _
    | true =>
      cases s.sfc.rxMapped with
      | false => exact .refl _
      | true => exact .polled rfl rfl id rfl rfl
  | rxPeekExt rxBytes =>
    simp only [LibCall.run, LibCall.reports, Userlib.rxPeekExt]
    cases s.sfc.rxMapped with
    | false => exact .refl _
    | true => exact .polled rfl rfl id rfl rfl
  -- the three releases move the head and leave the flag as it was
  | rxRelease =>
    simp only [LibCall.run, LibCall.post, Userlib.rxRelease]
    cases s.sfc.rxMapped with
    | false => exact .refl _
    | true => exact .received rfl rfl rfl (Bool.or_false _).symm rfl
  | rxReleasePaddr paddr len cookie =>
    simp only [LibCall.run, LibCall.post, Userlib.rxReleasePaddr]
    cases s.sfc.rxMapped with
    | false => exact .refl _
    | true =>
      cases extArgsOk paddr len with
      | false => exact .refl _
      | true => exact .received rfl rfl rfl (Bool.or_false _).symm rfl
  | rxReleasePaddrNodbl paddr len cookie =>
    simp only [LibCall.run, LibCall.post, Userlib.rxReleasePaddrNodbl]
    cases s.sfc.rxDescRing with
    | false => exact .refl _
    | true =>
      cases extArgsOk paddr len with
      | false => exact .refl _
      | true => exact .received rfl rfl rfl (Bool.or_false _).symm rfl
  | rxFlush =>
    simp only [LibCall.run, Userlib.rxFlush]
    split
    · exact .refl _
    · exact .refl _
  -- here the flag is set with the move
  | rxRecv rxBytes =>
    simp only [LibCall.run, LibCall.post, LibCall.reports, Userlib.rxRecv]
    cases s.sfc.rxBuffer with
    | false => exact .refl _
    | true =>
      cases s.sfc.rxMapped with
      | false => exact .refl _
      | true => exact .received rfl rfl rfl (Bool.or_true _).symm rfl
  | txPost bytes =>
    simp only [LibCall.run, LibCall.postsTx, LibCall.reports, Userlib.txPost]
    cases s.sfc.txBuffer with
    | false => exact .refl _
    | true =>
      cases s.sfc.txMapped with
      | false => exact .refl _
      | true =>
        cases txLenOk bytes.length with
        | false => exact .refl _
        | true => exact .sent rfl rfl rfl (Bool.or_true _).symm rfl
  | txPostPaddr paddr len =>
    simp only [LibCall.run, LibCall.postsTx, LibCall.reports, Userlib.txPostPaddr]
    cases s.sfc.txMapped with
    | false => exact .refl _
    | true =>
      cases txLenOk len with
      | false => exact .refl _
      | true => exact .sent rfl rfl rfl (Bool.or_true _).symm rfl
  -- the batched post does not set it
  | txPostPaddrNodbl paddr len =>
    simp only [LibCall.run, LibCall.postsTx, Userlib.txPostPaddrNodbl]
    cases s.sfc.txDescRing with
    | false => exact .refl _
    | true =>
      cases txLenOk len with
      | false => exact .refl _
      | true => exact .sent rfl rfl rfl (Bool.or_false _).symm rfl
  | txFlush =>
    simp only [LibCall.run, Userlib.txFlush]
    split
    · exact .refl _
    · exact .refl _

/-! ## What an ioctl does to the cursors -/

variable {sc : Softc} {o : OpenSession}

theorem onRing_rxIoctlStep (honRing : (kernelCursors sc).OnRing) (copyErr : Nat)
    (pc : RxPc) : (kernelCursors (rxIoctlStep sc copyErr pc).1).OnRing := by
  cases pc with
  | poll tries consumed =>
    simp only [rxIoctlStep]
    split
    · cases htake : evqTake sc.dev.evqRing sc.dataEvqReadPtr with
      | none => exact honRing
      | some out =>
        have hlt := evqTake_readPtr_lt htake
        simp only
        split
        · exact { honRing with evqReadPtr := hlt }
        · exact { honRing with evqReadPtr := hlt }
    · exact honRing
  | ack consumed rxFound =>
    simp only [rxIoctlStep]
    cases rxFound with
    | none => simp only; split <;> exact honRing
    | some rxBytes => simp only; split <;> exact honRing
  | copy rxBytes =>
    simp only [rxIoctlStep]
    split <;> exact honRing
  | repost reply => exact honRing
  | ring reply =>
    exact { honRing with rxHead := land_ringMask_lt (sc.rxHead + 1) }

theorem onRing_txIoctlStep (honRing : (kernelCursors sc).OnRing) (copyErr : Nat)
    (pc : TxPc) : (kernelCursors (txIoctlStep sc copyErr pc).1).OnRing := by
  cases pc with
  | copyin req =>
    simp only [txIoctlStep]
    split <;> exact honRing
  | desc length => exact honRing
  | ring => exact honRing
  | poll postedIdx tries consumed =>
    simp only [txIoctlStep]
    split
    · cases htake : evqTake sc.dev.evqRing sc.dataEvqReadPtr with
      | none => exact honRing
      | some out =>
        have hlt := evqTake_readPtr_lt htake
        simp only
        split
        · exact { honRing with evqReadPtr := hlt }
        · exact { honRing with evqReadPtr := hlt }
    · exact honRing
  | ack consumed txDone =>
    exact { honRing with txHead := land_ringMask_lt (sc.txHead + 1) }

theorem onRing_ioctlStep (honRing : (kernelCursors sc).OnRing) (copyErr : Nat)
    (pc : IoctlPc) : (kernelCursors (ioctlStep sc copyErr pc).1).OnRing := by
  cases pc with
  | rx pc =>
    simp only [ioctlStep]
    split <;> exact onRing_rxIoctlStep honRing copyErr pc
  | tx pc =>
    simp only [ioctlStep]
    split <;> exact onRing_txIoctlStep honRing copyErr pc

/-! ## The invariant -/

/-- A session and the driver under it.  During a direct session the driver's cursors
are still those of init, the library's heads are that many moves ahead, and `used_poll`
tells whether the session is reported. -/
structure SessionInv (sc : Softc) (o : OpenSession) : Prop where
  valid : o.sfc.viInfoValid = true
  onRing : (libraryCursors o.sfc).OnRing
  ioctl : o.path = .ioctl → o.sfc.usedPoll = false
  rxHead : o.path = .direct → o.sfc.rxHead = (sc.rxHead + o.rxMoves) % 512
  txHead : o.path = .direct → o.sfc.txHead = (sc.txHead + o.txMoves) % 512
  usedPoll : o.path = .direct → o.sfc.usedPoll = o.reported
  unreported : o.path = .direct → o.reported = false → o.sfc.evqReadPtr = sc.dataEvqReadPtr

structure CursorsInv (s : CursorSys) : Prop where
  kernel : (kernelCursors s.sc).OnRing
  session : ∀ o ∈ s.session, SessionInv s.sc o
  call : s.call.isSome = true → ∃ o ∈ s.session, o.path = .ioctl
  last : s.session = none → ∀ final ∈ s.last, kernelCursors s.sc = final

theorem cursorsInv_start {s : CursorSys} (hstart : CursorStart s) : CursorsInv s where
  kernel := hstart.onRing
  session := by simp [hstart.closed]
  call := by simp [hstart.idle]
  last := by simp [hstart.unused]

theorem sessionInv_init (honRing : (kernelCursors sc).OnRing) (path : Path)
    (rxWindow : Option (BitVec 32)) :
    SessionInv sc ⟨path, sfcInit sc rxWindow, 0, 0, false⟩ where
  valid := rfl
  onRing := honRing
  ioctl := fun _ => rfl
  rxHead := fun _ => (Nat.mod_eq_of_lt honRing.rxHead).symm
  txHead := fun _ => (Nat.mod_eq_of_lt honRing.txHead).symm
  usedPoll := fun _ => rfl
  unreported := fun _ _ => rfl

theorem sessionInv_called {s : CursorSys} (c : LibCall) (hinv : SessionInv s.sc o)
    (hpath : o.path = .direct) :
    ∀ o' ∈ (s.called o c).session, SessionInv (s.called o c).sc o' := by
  have hadv := c.run_advances ⟨o.sfc, s.sc.dev⟩
  have hrx := hadv.rxHead hinv.onRing.rxHead
  have htx := hadv.txHead hinv.onRing.txHead
  intro o' ho'
  obtain rfl := Option.some.inj ho'
  constructor
  · exact hadv.viInfoValid.trans hinv.valid
  · constructor
    · exact hadv.evqReadPtr hinv.onRing.evqReadPtr
    · show (c.run ⟨o.sfc, s.sc.dev⟩).sfc.txHead < 512
      rw [htx]
      exact Nat.mod_lt _ (by decide)
    · show (c.run ⟨o.sfc, s.sc.dev⟩).sfc.rxHead < 512
      rw [hrx]
      exact Nat.mod_lt _ (by decide)
  · intro hioctl
    cases hpath.symm.trans hioctl
  · intro _
    show (c.run ⟨o.sfc, s.sc.dev⟩).sfc.rxHead = (s.sc.rxHead + (o.rxMoves + _)) % 512
    rw [hrx, hinv.rxHead hpath, Nat.mod_add_mod, Nat.add_assoc]
  · intro _
    show (c.run ⟨o.sfc, s.sc.dev⟩).sfc.txHead = (s.sc.txHead + (o.txMoves + _)) % 512
    rw [htx, hinv.txHead hpath, Nat.mod_add_mod, Nat.add_assoc]
  · intro _
    show (c.run ⟨o.sfc, s.sc.dev⟩).sfc.usedPoll = (o.reported || _)
    rw [hadv.usedPoll, hinv.usedPoll hpath]
  · intro _ hnone
    obtain ⟨hbefore, hcall⟩ := Bool.or_eq_false_iff.mp hnone
    exact (hadv.unreported hcall).trans (hinv.unreported hpath hbefore)

/-- An ioctl session does not look at the library's cursors, so the driver may move
its own. -/
theorem SessionInv.of_ioctl {sc sc' : Softc} (hinv : SessionInv sc o)
    (hpath : o.path = .ioctl) : SessionInv sc' o where
  valid := hinv.valid
  onRing := hinv.onRing
  ioctl := hinv.ioctl
  rxHead := fun hdirect => by cases hpath.symm.trans hdirect
  txHead := fun hdirect => by cases hpath.symm.trans hdirect
  usedPoll := fun hdirect => by cases hpath.symm.trans hdirect
  unreported := fun hdirect => by cases hpath.symm.trans hdirect

/-! ## Destroy -/

/-- Cursors on their rings are accepted by `SFC7120_SET_EVQ_RPTR`. -/
theorem kernelCursors_destroy_of_polled {sfc : SfcIf} (hvalid : sfc.viInfoValid = true)
    (hused : sfc.usedPoll = true) (honRing : (libraryCursors sfc).OnRing) :
    kernelCursors (sfcDestroy sc sfc) = libraryCursors sfc := by
  have haccepted : ¬ (sfc.evqReadPtr ≥ 512 ∨ sfc.txHead ≥ 512 ∨ sfc.rxHead ≥ 512) := by
    have hevq : sfc.evqReadPtr < 512 := honRing.evqReadPtr
    have htx : sfc.txHead < 512 := honRing.txHead
    have hrx : sfc.rxHead < 512 := honRing.rxHead
    omega
  simp only [sfcDestroy, setEvqRptr, hvalid, hused, Bool.and_self, if_true, if_neg haccepted]
  rfl

theorem sfcDestroy_of_unpolled {sfc : SfcIf} (hunused : sfc.usedPoll = false) (sc : Softc) :
    sfcDestroy sc sfc = sc := by
  simp [sfcDestroy, hunused]

/-- Steps round a ring of 512 that return to where they started. -/
theorem add_mod_ring_eq_iff {head : Nat} (hlt : head < 512) (moves : Nat) :
    head = (head + moves) % 512 ↔ moves % 512 = 0 := by
  omega

/-- What destroy leaves in the driver is where the session ended, exactly if the
session reported its moves. -/
theorem destroy_keeps_cursors_iff (honRing : (kernelCursors sc).OnRing) (hinv : SessionInv sc o) :
    kernelCursors (sfcDestroy sc o.sfc) = o.cursors sc ↔
      (o.path = .direct →
        o.reported = true ∨ o.rxMoves % 512 = 0 ∧ o.txMoves % 512 = 0) := by
  cases hpath : o.path with
  | ioctl =>
    -- the library's copy is stale and is not written back
    rw [sfcDestroy_of_unpolled (hinv.ioctl hpath)]
    simp [OpenSession.cursors, hpath]
  | direct =>
    simp only [OpenSession.cursors, hpath, forall_const]
    have hused := hinv.usedPoll hpath
    cases hreported : o.reported with
    | true =>
      rw [hreported] at hused
      rw [kernelCursors_destroy_of_polled hinv.valid hused hinv.onRing]
      simp
    | false =>
      -- the driver still has the seed, the library is `moves` further on
      rw [hreported] at hused
      rw [sfcDestroy_of_unpolled hused]
      have hrx : sc.rxHead = (sc.rxHead + o.rxMoves) % 512 ↔ o.rxMoves % 512 = 0 :=
        add_mod_ring_eq_iff honRing.rxHead o.rxMoves
      have htx : sc.txHead = (sc.txHead + o.txMoves) % 512 ↔ o.txMoves % 512 = 0 :=
        add_mod_ring_eq_iff honRing.txHead o.txMoves
      simp only [kernelCursors, libraryCursors, Cursors.mk.injEq,
        hinv.unreported hpath hreported, hinv.rxHead hpath, hinv.txHead hpath]
      simp [hrx, htx, and_comm]

theorem onRing_destroy (honRing : (kernelCursors sc).OnRing)
    (hinv : SessionInv sc o) : (kernelCursors (sfcDestroy sc o.sfc)).OnRing := by
  cases hused : o.sfc.usedPoll with
  | true =>
    rw [kernelCursors_destroy_of_polled hinv.valid hused hinv.onRing]
    exact hinv.onRing
  | false =>
    rw [sfcDestroy_of_unpolled hused]
    exact honRing

/-! ## The steps -/

namespace CursorsInv

variable {s : CursorSys} {o : OpenSession}

theorem init (hinv : CursorsInv s) (hclosed : s.session = none) (path : Path)
    (rxWindow : Option (BitVec 32)) :
    CursorsInv { s with session := some ⟨path, sfcInit s.sc rxWindow, 0, 0, false⟩ } := by
  constructor
  · exact hinv.kernel
  · intro o ho
    obtain rfl := Option.some.inj ho
    exact sessionInv_init hinv.kernel path rxWindow
  · intro hcall
    obtain ⟨o, ho, -⟩ := hinv.call hcall
    cases hclosed.symm.trans ho
  · nofun

theorem called (hinv : CursorsInv s) (hopen : s.session = some o) (hpath : o.path = .direct)
    (c : LibCall) : CursorsInv (s.called o c) := by
  constructor
  · exact hinv.kernel
  · exact sessionInv_called c (hinv.session o hopen) hpath
  · -- a direct session waits for no ioctl
    intro hcall
    obtain ⟨o', ho', hioctl⟩ := hinv.call hcall
    obtain rfl := Option.some.inj (hopen.symm.trans ho')
    cases hpath.symm.trans hioctl
  · nofun

theorem entered (hinv : CursorsInv s) (hopen : s.session = some o) (hpath : o.path = .ioctl)
    (call : Option IoctlPc) : CursorsInv { s with call := call } :=
  { hinv with call := fun _ => ⟨o, hopen, hpath⟩ }

theorem moved (hinv : CursorsInv s) (copyErr : Nat) {pc : IoctlPc} (hcall : s.call = some pc) :
    CursorsInv
      { s with sc := (ioctlStep s.sc copyErr pc).1, call := (ioctlStep s.sc copyErr pc).2 } := by
  obtain ⟨o, hopen, hpath⟩ := hinv.call (by rw [hcall]; rfl)
  constructor
  · exact onRing_ioctlStep hinv.kernel copyErr pc
  · intro o' ho'
    obtain rfl := Option.some.inj (hopen.symm.trans ho')
    exact (hinv.session o hopen).of_ioctl hpath
  · exact fun _ => ⟨o, hopen, hpath⟩
  · intro hclosed
    cases hopen.symm.trans hclosed

theorem card (hinv : CursorsInv s) (dev : Device) :
    CursorsInv { s with sc := { s.sc with dev := dev } } where
  kernel := hinv.kernel
  session := fun o ho => { hinv.session o ho with }
  call := hinv.call
  last := hinv.last

theorem destroyed (hinv : CursorsInv s) (hopen : s.session = some o) (hidle : s.call = none)
    (hreports : ReportsMoves s .destroy) :
    CursorsInv
      { s with
        sc := sfcDestroy s.sc o.sfc
        session := none
        last := some (o.cursors s.sc) } := by
  have hsession := hinv.session o hopen
  constructor
  · exact onRing_destroy hinv.kernel hsession
  · intro o' ho'
    cases ho'
  · simp [hidle]
  · intro _ final hfinal
    obtain rfl := Option.some.inj hfinal
    exact (destroy_keeps_cursors_iff hinv.kernel hsession).mpr (hreports o hopen)

end CursorsInv

theorem cursorsInv_step (s : CursorSys) (l : CursorLabel) (s' : CursorSys)
    (hinv : CursorsInv s) (hguard : ReportsMoves s l) (hstep : cursorStep s l = some s') :
    CursorsInv s' := by
  cases l with
  | init path rxWindow =>
    simp only [cursorStep] at hstep
    split at hstep
    · cases hstep
    · rename_i hclosed
      obtain rfl := Option.some.inj hstep
      exact hinv.init hclosed path rxWindow
  | call c =>
    simp only [cursorStep] at hstep
    split at hstep
    · cases hstep
    · rename_i o hopen
      split at hstep
      · rename_i hpath
        obtain rfl := Option.some.inj hstep
        exact hinv.called hopen hpath c
      · cases hstep
  | rxEnter =>
    simp only [cursorStep] at hstep
    split at hstep
    · rename_i o hopen _
      split at hstep
      · rename_i hpath
        obtain rfl := Option.some.inj hstep
        exact hinv.entered hopen hpath _
      · cases hstep
    · cases hstep
  | txEnter req =>
    simp only [cursorStep] at hstep
    split at hstep
    · rename_i o hopen _
      split at hstep
      · rename_i hpath
        obtain rfl := Option.some.inj hstep
        exact hinv.entered hopen hpath _
      · cases hstep
    · cases hstep
  | move copyErr =>
    obtain ⟨pc, hcall, rfl⟩ := Option.map_eq_some_iff.mp hstep
    exact hinv.moved copyErr hcall
  | card evqRing rxBuffer =>
    obtain rfl := Option.some.inj hstep
    exact hinv.card _
  | destroy =>
    simp only [cursorStep] at hstep
    split at hstep
    · rename_i o hopen hidle
      obtain rfl := Option.some.inj hstep
      exact hinv.destroyed hopen hidle hguard
    · cases hstep

/-- A session that does not report its moves leaves the driver behind at once. -/
theorem not_handsOver_of_unreported (s : CursorSys) (l : CursorLabel) (s' : CursorSys)
    (hinv : CursorsInv s) (hbad : ¬ ReportsMoves s l) (hstep : cursorStep s l = some s') :
    ¬ HandsOver s' := by
  cases l with
  | destroy =>
    simp only [cursorStep] at hstep
    split at hstep
    · rename_i o hopen hidle
      obtain rfl := Option.some.inj hstep
      intro hhands
      apply hbad
      intro o' ho'
      obtain rfl := Option.some.inj (hopen.symm.trans ho')
      have hkept : kernelCursors (sfcDestroy s.sc o.sfc) = o.cursors s.sc :=
        hhands rfl _ rfl none
      exact (destroy_keeps_cursors_iff hinv.kernel (hinv.session o hopen)).mp hkept
    · cases hstep
  | _ => exact absurd trivial hbad

/-! ## The result -/

/-- Every session starts where the one before it ended, if and only if every direct
session that is destroyed has made a call that reports it or has moved each head by a
multiple of the ring.  Ioctl sessions need no condition. -/
theorem cursors_handed_over_iff {s t : CursorSys} (hstart : CursorStart s)
    {labels : List CursorLabel} (hrun : exec cursorStep s labels = some t) :
    Along cursorStep HandsOver s labels ↔ Obeys cursorStep ReportsMoves s labels := by
  refine along_iff_obeys cursorsInv_step ?_ not_handsOver_of_unreported
    (cursorsInv_start hstart) hrun
  intro s hinv hclosed final hfinal rxWindow
  exact hinv.last hclosed final hfinal

/-- The device of `rxIoctlAfterAttach`, before its first session. -/
def cursorsAfterAttach : CursorSys where
  sc := rxIoctlAfterAttach.sc
  session := none
  call := none
  last := none

theorem cursorStart_cursorsAfterAttach : CursorStart cursorsAfterAttach where
  onRing := ⟨by decide, by decide, by decide⟩
  closed := rfl
  idle := rfl
  unused := rfl

/-- A direct session that polls, releases a slot and posts a frame, and after it a
session on the ioctls, which starts at slot 1 of both rings. -/
theorem polled_session_hands_over :
    ∃ t, exec cursorStep cursorsAfterAttach
          [.init .direct none, .call (.poll 8), .call .rxRelease,
            .call (.txPostPaddr 0x500000#64 64), .destroy, .init .ioctl none] = some t ∧
        kernelCursors t.sc = ⟨0, 1, 1⟩ ∧
        Along cursorStep HandsOver cursorsAfterAttach
          [.init .direct none, .call (.poll 8), .call .rxRelease,
            .call (.txPostPaddr 0x500000#64 64), .destroy, .init .ioctl none] := by
  refine ⟨_, rfl, by decide, (cursors_handed_over_iff cursorStart_cursorsAfterAttach rfl).mpr ?_⟩
  refine ⟨trivial, trivial, trivial, trivial, ?_, trivial, trivial⟩
  intro o ho _
  obtain rfl := Option.some.inj ho
  exact Or.inl rfl

/-- A direct session that posts one frame with `sfc7120_tx_post_paddr_nodbl` and
flushes: the card has been told to send slot 0, and the next session posts to slot 0
again. -/
theorem batched_post_is_forgotten :
    ∃ t, exec cursorStep cursorsAfterAttach
          [.init .direct none, .call (.txPostPaddrNodbl 0x500000#64 64), .call .txFlush,
            .destroy] = some t ∧
        t.last = some ⟨0, 1, 0⟩ ∧ t.sc.dev.txDbl.head? = some (.wptr 1) ∧
        libraryCursors (sfcInit t.sc none) = ⟨0, 0, 0⟩ ∧
        ¬ Along cursorStep HandsOver cursorsAfterAttach
          [.init .direct none, .call (.txPostPaddrNodbl 0x500000#64 64), .call .txFlush,
            .destroy] := by
  refine ⟨_, rfl, by decide, by decide, by decide, ?_⟩
  intro halong
  have hhands := halong.2.2.2.2 rfl ⟨0, 1, 0⟩ rfl none
  exact absurd hhands (by decide)

end Handover
end SfcCapio
