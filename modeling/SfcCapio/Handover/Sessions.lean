import SfcCapio.Kernel.RxIoctl
import SfcCapio.Userlib.Interface

/-!
# Sessions on one device

The rings and the card's pointers live as long as the module; a session is the
time between `sfc7120_init` and `sfc7120_destroy`.  `SessionSys` runs any number
of sessions one after the other on one device: init takes its cursors from
`SFC7120_GET_VI_INFO`, every library call acts on the shared device memory, and
destroy writes the cursors back with `SFC7120_SET_EVQ_RPTR` if the session has
polled.  Between any two steps the card may change the event ring and the packet
buffer.

Each receive call posts at most one descriptor.  `LibCall.post` says which slot
and which buffer, and `lent` keeps the account: a slot is lent while its last
post named a buffer other than the slot's own.  The main result,
`sessions_start_clean_iff`, says that the ring a session finds is the identity
ring exactly when nothing is lent at that moment.  Nothing in init or destroy
settles the account.
-/

namespace SfcCapio
namespace Handover

open Hardware Foundation Kernel Userlib

/-! ## The two cursor ioctls -/

/-- `SFC7120_SET_EVQ_RPTR`: refused when a cursor is out of range. -/
def setEvqRptr (sc : Softc) (evqReadPtr txHead rxHead : Nat) : Softc :=
  if evqReadPtr ≥ numEvqEntry ∨ txHead ≥ numTxDesc ∨ rxHead ≥ numRxDesc then sc
  else { sc with dataEvqReadPtr := evqReadPtr, txHead := txHead, rxHead := rxHead }

/-- The window chosen from `SFC_RX_WINDOW`; the value is `(uint32_t)atoi(w)`. -/
def initRxWindow : Option (BitVec 32) → Nat
  | none => 64
  | some w => if w.toNat < 1 ∨ w.toNat > numRxDesc - 1 then 64 else w.toNat

/-- Whatever the environment says, the window lies on the ring. -/
theorem initRxWindow_range (rxWindow : Option (BitVec 32)) :
    0 < initRxWindow rxWindow ∧ initRxWindow rxWindow < 512 := by
  cases rxWindow with
  | none => decide
  | some w =>
    simp only [initRxWindow, numRxDesc]
    split
    · omega
    · omega

/-- A successful `sfc7120_init` on a zeroed `sfc7120_if_t`: everything is mapped
and the cursors are those of `SFC7120_GET_VI_INFO`. -/
def sfcInit (sc : Softc) (rxWindow : Option (BitVec 32)) : SfcIf where
  txBuffer := true
  rxBuffer := true
  txDescRing := true
  rxDescRing := true
  evqRing := true
  mmioSlices := true
  mmioSlicesLen := sliceCount
  rxBufferPaddr := sc.rxBufferPaddr
  txBufferPaddr := sc.txBufferPaddr
  viInfoValid := true
  evqReadPtr := sc.dataEvqReadPtr
  usedPoll := false
  rxWindow := initRxWindow rxWindow
  rxHead := sc.rxHead
  txHead := sc.txHead
  rxExtCookie := fun _ => none

/-- `sfc7120_destroy` as far as the driver's cursors are concerned. -/
def sfcDestroy (sc : Softc) (sfc : SfcIf) : Softc :=
  if sfc.viInfoValid && sfc.usedPoll then
    setEvqRptr sc sfc.evqReadPtr sfc.txHead sfc.rxHead
  else sc

/-! ## Library calls and the descriptors they post -/

/-- The data-path calls of the library. -/
inductive LibCall
  | poll (maxEvs : Int)
  | rxPeek (rxBytes : Nat)
  | rxPeekExt (rxBytes : Nat)
  | rxRelease
  | rxReleasePaddr (paddr : BitVec 64) (len : Nat) (cookie : Option Nat)
  | rxReleasePaddrNodbl (paddr : BitVec 64) (len : Nat) (cookie : Option Nat)
  | rxFlush
  | rxRecv (rxBytes : Nat)
  | txPost (bytes : List (BitVec 8))
  | txPostPaddr (paddr : BitVec 64) (len : Nat)
  | txPostPaddrNodbl (paddr : BitVec 64) (len : Nat)
  | txFlush

/-- The state a call leaves. -/
def LibCall.run (s : Session) : LibCall → Session
  | .poll maxEvs => (Userlib.poll s maxEvs).2
  | .rxPeek rxBytes => (Userlib.rxPeek s rxBytes).2
  | .rxPeekExt rxBytes => (Userlib.rxPeekExt s rxBytes).2
  | .rxRelease => (Userlib.rxRelease s).2
  | .rxReleasePaddr paddr len cookie => (Userlib.rxReleasePaddr s paddr len cookie).2
  | .rxReleasePaddrNodbl paddr len cookie =>
    (Userlib.rxReleasePaddrNodbl s paddr len cookie).2
  | .rxFlush => Userlib.rxFlush s
  | .rxRecv rxBytes => (Userlib.rxRecv s rxBytes).2
  | .txPost bytes => (Userlib.txPost s bytes).2
  | .txPostPaddr paddr len => (Userlib.txPostPaddr s paddr len).2
  | .txPostPaddrNodbl paddr len => (Userlib.txPostPaddrNodbl s paddr len).2
  | .txFlush => Userlib.txFlush s

/-- What a post hands to the card: the slot's own buffer or the caller's. -/
inductive Post
  | own
  | caller (paddr : BitVec 64) (len : Nat)

/-- The descriptor of a post to `slot`. -/
def Post.desc (base : BitVec 64) (slot : Nat) : Post → BitVec 64
  | .own => identityDesc base slot
  | .caller paddr len => descWord paddr len

/-- The post names a buffer other than the slot's own. -/
def Post.lends (base : BitVec 64) (slot : Nat) : Post → Bool
  | .own => false
  | .caller paddr len => !decide (NamesOwnSlot base slot (descWord paddr len))

/-- The slot a call posts to and what it posts; `none` for the calls that post
nothing and for those that are refused. -/
def LibCall.post (s : Session) : LibCall → Option (Nat × Post)
  | .rxRelease => if s.sfc.rxMapped then some (s.sfc.rxHead, .own) else none
  | .rxRecv _ =>
    if s.sfc.rxBuffer && s.sfc.rxMapped then some (s.sfc.rxHead, .own) else none
  | .rxReleasePaddr paddr len _ =>
    if s.sfc.rxMapped && extArgsOk paddr len then
      some (s.sfc.rxHead, .caller paddr len)
    else none
  | .rxReleasePaddrNodbl paddr len _ =>
    if s.sfc.rxDescRing && extArgsOk paddr len then
      some (rxAdvertise s.sfc.rxHead s.sfc.rxWindow, .caller paddr len)
    else none
  | _ => none

/-- The RX ring after an optional post. -/
def postOn (base : BitVec 64) (ring : Nat → BitVec 64) :
    Option (Nat × Post) → Nat → BitVec 64
  | none => ring
  | some (slot, post) => Function.update ring slot (post.desc base slot)

/-- The account after an optional post. -/
def accountOn (base : BitVec 64) (lent : Nat → Bool) :
    Option (Nat × Post) → Nat → Bool
  | none => lent
  | some (slot, post) => Function.update lent slot (post.lends base slot)

/-- A call changes the RX ring by its post and by nothing else, and the packet
buffer stays where it is. -/
theorem LibCall.run_frame (s : Session) (c : LibCall) :
    (c.run s).dev.rxDescRing = postOn s.sfc.rxBufferPaddr s.dev.rxDescRing (c.post s) ∧
      (c.run s).sfc.rxBufferPaddr = s.sfc.rxBufferPaddr := by
  cases c with
  | poll maxEvs =>
    simp only [LibCall.run, LibCall.post, postOn, Userlib.poll]
    split
    · exact ⟨rfl, rfl⟩
    · split <;> exact ⟨rfl, rfl⟩
  | rxPeek rxBytes =>
    simp only [LibCall.run, LibCall.post, postOn, Userlib.rxPeek]
    split <;> exact ⟨rfl, rfl⟩
  | rxPeekExt rxBytes =>
    simp only [LibCall.run, LibCall.post, postOn, Userlib.rxPeekExt]
    split <;> exact ⟨rfl, rfl⟩
  | rxRelease =>
    simp only [LibCall.run, LibCall.post, Userlib.rxRelease]
    cases s.sfc.rxMapped <;> exact ⟨rfl, rfl⟩
  | rxReleasePaddr paddr len cookie =>
    simp only [LibCall.run, LibCall.post, Userlib.rxReleasePaddr]
    cases s.sfc.rxMapped <;> cases extArgsOk paddr len <;> exact ⟨rfl, rfl⟩
  | rxReleasePaddrNodbl paddr len cookie =>
    simp only [LibCall.run, LibCall.post, Userlib.rxReleasePaddrNodbl]
    cases s.sfc.rxDescRing <;> cases extArgsOk paddr len <;> exact ⟨rfl, rfl⟩
  | rxFlush =>
    simp only [LibCall.run, LibCall.post, postOn, Userlib.rxFlush]
    split <;> exact ⟨rfl, rfl⟩
  | rxRecv rxBytes =>
    simp only [LibCall.run, LibCall.post, Userlib.rxRecv]
    cases s.sfc.rxBuffer <;> cases s.sfc.rxMapped <;> exact ⟨rfl, rfl⟩
  | txPost bytes =>
    simp only [LibCall.run, LibCall.post, postOn, Userlib.txPost]
    split
    · exact ⟨rfl, rfl⟩
    · split <;> exact ⟨rfl, rfl⟩
  | txPostPaddr paddr len =>
    simp only [LibCall.run, LibCall.post, postOn, Userlib.txPostPaddr]
    split
    · exact ⟨rfl, rfl⟩
    · split <;> exact ⟨rfl, rfl⟩
  | txPostPaddrNodbl paddr len =>
    simp only [LibCall.run, LibCall.post, postOn, Userlib.txPostPaddrNodbl]
    split
    · exact ⟨rfl, rfl⟩
    · split <;> exact ⟨rfl, rfl⟩
  | txFlush =>
    simp only [LibCall.run, LibCall.post, postOn, Userlib.txFlush]
    split <;> exact ⟨rfl, rfl⟩

/-! ## Any number of sessions -/

/-- The driver, the open session if there is one, the receive ioctl in progress
and the account of lent slots. -/
structure SessionSys where
  sc : Softc
  sfc : Option SfcIf
  call : Option RxPc
  lent : Nat → Bool

/-- A session starts or ends, makes a library call, enters `sfc7120_rx` or moves
inside its ioctl; or the card writes. -/
inductive SessionLabel
  | init (rxWindow : Option (BitVec 32))
  | call (c : LibCall)
  | rxEnter
  | rxMove (copyErr : Nat)
  | card (evqRing : Nat → BitVec 64) (rxBuffer : Nat → BitVec 8)
  | destroy

/-- The effect of a library call of the open session. -/
def SessionSys.called (s : SessionSys) (sfc : SfcIf) (c : LibCall) : SessionSys :=
  let session : Session := ⟨sfc, s.sc.dev⟩
  { s with
    sc := { s.sc with dev := (c.run session).dev }
    sfc := some (c.run session).sfc
    lent := accountOn sfc.rxBufferPaddr s.lent (c.post session) }

/-- The slot which a step of the receive ioctl re-posts. -/
def ioctlPost (sc : Softc) : RxPc → Option (Nat × Post)
  | .repost _ => some (sc.rxHead, .own)
  | _ => none

/-- The effect of a step of the receive ioctl. -/
def SessionSys.moved (s : SessionSys) (copyErr : Nat) (pc : RxPc) : SessionSys :=
  let out := rxIoctlStep s.sc copyErr pc
  { s with
    sc := out.1
    call :=
      match out.2 with
      | .running pc' => some pc'
      | .returned _ => none
    lent := accountOn s.sc.rxBufferPaddr s.lent (ioctlPost s.sc pc) }

/-- Sessions in sequence; a session makes one call at a time. -/
def sessionStep (s : SessionSys) : SessionLabel → Option SessionSys
  | .init rxWindow =>
    match s.sfc with
    | some _ => none
    | none => some { s with sfc := some (sfcInit s.sc rxWindow) }
  | .call c =>
    match s.sfc, s.call with
    | some sfc, none => some (s.called sfc c)
    | _, _ => none
  | .rxEnter =>
    match s.sfc, s.call with
    | some _, none => some { s with call := some (.poll 0 0) }
    | _, _ => none
  | .rxMove copyErr => s.call.map (s.moved copyErr)
  | .card evqRing rxBuffer =>
    some
      { s with
        sc := { s.sc with dev := { s.sc.dev with evqRing := evqRing, rxBuffer := rxBuffer } } }
  | .destroy =>
    match s.sfc, s.call with
    | some sfc, none => some { s with sc := sfcDestroy s.sc sfc, sfc := none }
    | _, _ => none

/-- A device after attach, with no session and nothing lent. -/
structure SessionStart (geom : Geometry) (s : SessionSys) : Prop where
  base : s.sc.rxBufferPaddr = geom.rxBufferPaddr
  posted : ∃ dev, s.sc.dev = postRxBuffers geom.rxBufferPaddr dev
  closed : s.sfc = none
  idle : s.call = none
  nothingLent : s.lent = fun _ => false

/-- At the start of a session every descriptor decodes to its own slot. -/
def StartsClean (geom : Geometry) (s : SessionSys) : SessionLabel → Prop
  | .init _ => RingIsIdentity geom.rxBufferPaddr s.sc.dev.rxDescRing
  | _ => True

/-- At the start of a session no slot is lent. -/
def NothingLent (s : SessionSys) : SessionLabel → Prop
  | .init _ => ∀ i, i < numRxDesc → s.lent i = false
  | _ => True

/-! ## The account is right -/

/-- The descriptors that do not name their own slot are the lent ones. -/
structure AccountInv (geom : Geometry) (s : SessionSys) : Prop where
  base : s.sc.rxBufferPaddr = geom.rxBufferPaddr
  sessionBase : ∀ sfc ∈ s.sfc, sfc.rxBufferPaddr = geom.rxBufferPaddr
  account : ∀ i, i < 512 →
    (NamesOwnSlot geom.rxBufferPaddr i (s.sc.dev.rxDescRing i) ↔ s.lent i = false)

theorem Post.namesOwnSlot_iff (geom : Geometry) {slot : Nat} (hslot : slot < 512)
    (p : Post) :
    NamesOwnSlot geom.rxBufferPaddr slot (p.desc geom.rxBufferPaddr slot) ↔
      p.lends geom.rxBufferPaddr slot = false := by
  cases p with
  | own => exact iff_of_true (namesOwnSlot_identityDesc geom hslot) rfl
  | caller paddr len => simp [Post.desc, Post.lends]

variable {geom : Geometry} {s : SessionSys}

/-- A post and its entry in the account go together. -/
theorem account_post {ring : Nat → BitVec 64} {lent : Nat → Bool} (haccount : ∀ i, i < 512 →
      (NamesOwnSlot geom.rxBufferPaddr i (ring i) ↔ lent i = false)) (post : Option (Nat × Post)) :
    ∀ i, i < 512 →
      (NamesOwnSlot geom.rxBufferPaddr i (postOn geom.rxBufferPaddr ring post i) ↔
        accountOn geom.rxBufferPaddr lent post i = false) := by
  intro i hi
  cases post with
  | none => exact haccount i hi
  | some entry =>
    obtain ⟨slot, p⟩ := entry
    by_cases hslot : i = slot
    · subst hslot
      simp only [postOn, accountOn, Function.update_self]
      exact p.namesOwnSlot_iff geom hi
    · simp only [postOn, accountOn, Function.update_of_ne hslot]
      exact haccount i hi

theorem accountInv_start (hstart : SessionStart geom s) : AccountInv geom s := by
  obtain ⟨dev, hdev⟩ := hstart.posted
  refine ⟨hstart.base, ?_, ?_⟩
  · simp [hstart.closed]
  · intro i hi
    rw [hdev, hstart.nothingLent]
    exact iff_of_true (ringIsIdentity_postRxBuffers geom dev i hi) rfl

/-- A step of the receive ioctl changes the RX ring by its post. -/
theorem rxIoctlStep_rxDescRing (sc : Softc) (copyErr : Nat) (pc : RxPc) :
    (rxIoctlStep sc copyErr pc).1.dev.rxDescRing =
        postOn sc.rxBufferPaddr sc.dev.rxDescRing (ioctlPost sc pc) ∧
      (rxIoctlStep sc copyErr pc).1.rxBufferPaddr = sc.rxBufferPaddr := by
  cases pc with
  | poll tries consumed =>
    simp only [rxIoctlStep, ioctlPost, postOn]
    split
    · cases evqTake sc.dev.evqRing sc.dataEvqReadPtr with
      | none => exact ⟨rfl, rfl⟩
      | some out =>
        simp only
        split <;> exact ⟨rfl, rfl⟩
    · exact ⟨rfl, rfl⟩
  | ack consumed rxFound =>
    simp only [rxIoctlStep, ioctlPost, postOn]
    cases rxFound <;> (simp only; split <;> exact ⟨rfl, rfl⟩)
  | copy rxBytes =>
    simp only [rxIoctlStep, ioctlPost, postOn]
    split <;> exact ⟨rfl, rfl⟩
  | repost reply => exact ⟨rfl, rfl⟩
  | ring reply => exact ⟨rfl, rfl⟩

theorem accountInv_called {sfc : SfcIf} (c : LibCall) (hinv : AccountInv geom s)
    (hopen : s.sfc = some sfc) :
    AccountInv geom (s.called sfc c) := by
  have hbase := hinv.sessionBase sfc hopen
  obtain ⟨hring, hpaddr⟩ := c.run_frame ⟨sfc, s.sc.dev⟩
  refine ⟨hinv.base, ?_, ?_⟩
  · intro sfc' hsfc'
    obtain rfl := Option.some.inj hsfc'
    rw [hpaddr]
    exact hbase
  · simp only [SessionSys.called, hring, hbase]
    exact account_post hinv.account _

theorem accountInv_moved (copyErr : Nat) (pc : RxPc)
    (hinv : AccountInv geom s) : AccountInv geom (s.moved copyErr pc) := by
  obtain ⟨hring, hpaddr⟩ := rxIoctlStep_rxDescRing s.sc copyErr pc
  refine ⟨?_, hinv.sessionBase, ?_⟩
  · exact hpaddr.trans hinv.base
  · simp only [SessionSys.moved, hring, hinv.base]
    exact account_post hinv.account _

/-- The cursor write-back touches neither the ring nor the buffer address. -/
theorem sfcDestroy_frame (sc : Softc) (sfc : SfcIf) :
    (sfcDestroy sc sfc).dev = sc.dev ∧
      (sfcDestroy sc sfc).rxBufferPaddr = sc.rxBufferPaddr := by
  unfold sfcDestroy setEvqRptr
  split
  · split <;> exact ⟨rfl, rfl⟩
  · exact ⟨rfl, rfl⟩

theorem accountInv_sessionStep (s : SessionSys) (l : SessionLabel) (s' : SessionSys)
    (hinv : AccountInv geom s) (hstep : sessionStep s l = some s') :
    AccountInv geom s' := by
  cases l with
  | init rxWindow =>
    simp only [sessionStep] at hstep
    split at hstep
    · cases hstep
    · obtain rfl := Option.some.inj hstep
      refine ⟨hinv.base, ?_, hinv.account⟩
      intro sfc hsfc
      obtain rfl := Option.some.inj hsfc
      exact hinv.base
  | call c =>
    simp only [sessionStep] at hstep
    split at hstep
    · rename_i sfc hopen hidle
      obtain rfl := Option.some.inj hstep
      exact accountInv_called c hinv hopen
    · cases hstep
  | rxEnter =>
    simp only [sessionStep] at hstep
    split at hstep
    · obtain rfl := Option.some.inj hstep
      exact ⟨hinv.base, hinv.sessionBase, hinv.account⟩
    · cases hstep
  | rxMove copyErr =>
    obtain ⟨pc, -, rfl⟩ := Option.map_eq_some_iff.mp hstep
    exact accountInv_moved copyErr pc hinv
  | card evqRing rxBuffer =>
    obtain rfl := Option.some.inj hstep
    exact ⟨hinv.base, hinv.sessionBase, hinv.account⟩
  | destroy =>
    simp only [sessionStep] at hstep
    split at hstep
    · rename_i sfc hopen hidle
      obtain rfl := Option.some.inj hstep
      obtain ⟨hdev, hpaddr⟩ := sfcDestroy_frame s.sc sfc
      refine ⟨hpaddr.trans hinv.base, by simp, ?_⟩
      simp only [hdev]
      exact hinv.account
    · cases hstep

/-- Where the account is right, a clean start and an empty account coincide. -/
theorem startsClean_iff_nothingLent (hinv : AccountInv geom s) (l : SessionLabel) :
    StartsClean geom s l ↔ NothingLent s l := by
  cases l with
  | init rxWindow =>
    constructor
    · intro hclean i hi
      exact (hinv.account i hi).mp (hclean i hi)
    · intro hnone i hi
      exact (hinv.account i hi).mpr (hnone i hi)
  | _ => exact Iff.rfl

/-! ## The result -/

/-- Every session of a run starts on an identity ring if and only if no slot is
lent when a session starts: whatever a session has posted of its own memory must
have been re-posted with the slot's own buffer, since no other step does it. -/
theorem sessions_start_clean_iff {geom : Geometry} {s : SessionSys}
    (hstart : SessionStart geom s) (labels : List SessionLabel) :
    Obeys sessionStep (StartsClean geom) s labels ↔
      Obeys sessionStep NothingLent s labels :=
  obeys_iff_of_invariant accountInv_sessionStep
    (fun _ l hinv => startsClean_iff_nothingLent hinv l) (accountInv_start hstart) labels

/-- The device of `rxIoctlAfterAttach`, before its first session. -/
def sessionsAfterAttach : SessionSys where
  sc := rxIoctlAfterAttach.sc
  sfc := none
  call := none
  lent := fun _ => false

theorem sessionStart_sessionsAfterAttach :
    SessionStart sampleGeometry sessionsAfterAttach where
  base := rfl
  posted := ⟨allocDmaResources, rfl⟩
  closed := rfl
  idle := rfl
  nothingLent := rfl

/-- Two sessions, the first of which recycles through `sfc7120_rx_release`. -/
theorem release_session_restarts_clean :
    (∃ t, exec sessionStep sessionsAfterAttach
        [.init none, .call (.poll 8), .call .rxRelease, .destroy, .init none] = some t) ∧
      Obeys sessionStep (StartsClean sampleGeometry) sessionsAfterAttach
        [.init none, .call (.poll 8), .call .rxRelease, .destroy, .init none] := by
  refine ⟨⟨_, rfl⟩,
    (sessions_start_clean_iff sessionStart_sessionsAfterAttach _).mpr ?_⟩
  refine ⟨fun _ _ => rfl, trivial, trivial, trivial, ?_, trivial⟩
  intro i _
  show Function.update (fun _ => false) 0 false i = false
  rw [Function.update_apply]
  split <;> rfl

/-- Two sessions, the first of which posts one buffer of its own and ends: the
second finds slot 0 still pointing into the memory of the first. -/
theorem caller_buffer_outlives_session :
    (∃ t, exec sessionStep sessionsAfterAttach
        [.init none, .call (.rxReleasePaddr 0x500000#64 2048 (some 7)), .destroy,
          .init none] = some t ∧
        descAddr (t.sc.dev.rxDescRing 0) = 0x500000) ∧
      ¬ Obeys sessionStep (StartsClean sampleGeometry) sessionsAfterAttach
        [.init none, .call (.rxReleasePaddr 0x500000#64 2048 (some 7)), .destroy,
          .init none] := by
  refine ⟨⟨_, rfl, by decide⟩, ?_⟩
  intro hclean
  have hslot : NamesOwnSlot 0x100000#64 0 (descWord 0x500000#64 2048) :=
    hclean.2.2.2.1 0 (by decide)
  exact absurd hslot (by decide)

end Handover
end SfcCapio
