import SfcCapio.Userlib.RxWindow
import SfcCapio.Echo.Frame

/-!
# The echo loop and the two rings

The main loop of `sockperf_echo` polls for events, and for every receive event looks at
the frame, posts it for transmission from the receive slot it lies in, and releases the
slot at once.  Completions of transmissions are skipped.  What keeps a slot from being
filled while it is still being transmitted is only that the card has to fill the rest
of the ring first.

The card fills slots up to the doorbell, completes transmissions in order and with any
delay, and writes events that are never dropped.  One label is one library call or one
action of the card.
-/

namespace SfcCapio
namespace Echo

open Foundation Hardware Userlib

/-- Where the loop stands; the lists are the events of the batch not yet looked at. -/
inductive EchoPc
  | top
  | events (evs : List Ev)
  | check (pk : Peek) (evs : List Ev)
  | post (pk : Peek) (evs : List Ev)
  | pair (evs : List Ev)
  | release (evs : List Ev)
  | stopped

/-- A transmission: its TX slot and, if it is an echo, the RX slot it is sent from and
the number of that frame. -/
structure TxEntry where
  slot : Nat
  rxSlot : Option Nat
  frame : Nat

/-- The echo server and the card.  `strict`, `pairTx` and `macAddr` are its
configuration; `fills`, `released` and `completed` count, and `posts` lists the
transmissions of the loop and those before it. -/
structure EchoSys where
  session : Session
  strict : Bool
  pairTx : Bool
  macAddr : Fin 6 → BitVec 8
  pc : EchoPc
  fillPos : Nat
  evqWptr : Nat
  unread : List (BitVec 64)
  fills : Nat
  released : Nat
  posts : List TxEntry
  completed : Nat

/-- Who moves. -/
inductive EchoLabel
  | fill (w : BitVec 64) (rxBuffer : Nat → BitVec 8)
  | complete
  | txEvent (w : BitVec 64)
  | loop

/-- The card writes an event, if there is room for it. -/
def EchoSys.event (s : EchoSys) (w : BitVec 64) : EchoSys :=
  { s with
    session :=
      { s.session with
        dev :=
          { s.session.dev with
            evqRing := Function.update s.session.dev.evqRing s.evqWptr w } }
    evqWptr := (s.evqWptr + 1) % numEvqEntry
    unread := s.unread ++ [w] }

/-- The card puts a frame into its next slot and reports it. -/
def EchoSys.filled (s : EchoSys) (w : BitVec 64) (rxBuffer : Nat → BitVec 8) : EchoSys :=
  let s := s.event w
  { s with
    session := { s.session with dev := { s.session.dev with rxBuffer := rxBuffer } }
    fillPos := (s.fillPos + 1) % numRxDesc
    fills := s.fills + 1 }

/-- A post that was accepted is entered in the list. -/
def EchoSys.posted (s : EchoSys) (out : Int × Session) (rxSlot : Option Nat) : EchoSys :=
  if out.1 = 0 then
    { s with
      session := out.2
      posts := s.posts ++
        [{ slot := s.session.sfc.txHead, rxSlot := rxSlot, frame := s.released }] }
  else { s with session := out.2 }

/-- The loop that posts the startup probes; the first failure ends it. -/
def probeLoop : Nat → EchoSys → EchoSys
  | 0, s => s
  | left + 1, s =>
    let out := txPost s.session (probeFrame s.macAddr)
    if out.1 ≠ 0 then { s with session := out.2 } else probeLoop left (s.posted out none)

/-- The next action of the loop. -/
def loopStep (s : EchoSys) : Option EchoSys :=
  match s.pc with
  | .top =>
    let out := poll s.session 8
    match out.1 with
    | none => some { s with session := out.2, pc := .stopped }
    | some evs =>
      some
        { s with
          session := out.2
          unread := s.unread.drop evs.length
          pc := .events evs }
  | .events [] => some { s with pc := .top }
  | .events (ev :: evs) =>
    if ev.type ≠ .rx then some { s with pc := .events evs }
    else
      let out := rxPeek s.session ev.rxBytes
      match out.1 with
      | none => some { s with session := out.2, pc := .events evs }
      | some pk => some { s with session := out.2, pc := .check pk evs }
  | .check pk evs =>
    if accepts s.strict s.session.dev.rxBuffer pk.pktOff pk.len then
      some
        { s with
          session :=
            { s.session with
              dev :=
                { s.session.dev with
                  rxBuffer := rewrite s.strict s.session.dev.rxBuffer pk.pktOff } }
          pc := .post pk evs }
    else some { s with pc := .release evs }
  | .post pk evs =>
    let out := txPostPaddr s.session pk.paddr pk.len
    some
      { s.posted out (some s.session.sfc.rxHead) with
        pc := if out.1 = 0 ∧ s.pairTx = true then .pair evs else .release evs }
  | .pair evs =>
    some
      { s.posted (txPost s.session (pairFrame s.macAddr)) none with
        pc := .release evs }
  | .release evs =>
    let out := rxRelease s.session
    some
      { s with
        session := out.2
        released := if out.1 = 0 then s.released + 1 else s.released
        pc := .events evs }
  | .stopped => none

/-- The card stops filling at the doorbell. -/
def EchoSys.CanFill (s : EchoSys) : Prop := s.fillPos ≠ s.session.dev.rxDescDbl % numRxDesc

instance (s : EchoSys) : Decidable s.CanFill :=
  inferInstanceAs (Decidable (_ ≠ _))

/-- One step of the system. -/
def echoStep (s : EchoSys) : EchoLabel → Option EchoSys
  | .fill w rxBuffer =>
    if IsRxEvent w ∧ s.CanFill ∧ s.unread.length < numEvqEntry then some (s.filled w rxBuffer)
    else none
  | .complete =>
    if s.completed < s.posts.length then some { s with completed := s.completed + 1 } else none
  | .txEvent w =>
    if evCode w ≠ 0 ∧ ¬ slotVacant w ∧ s.unread.length < numEvqEntry then some (s.event w)
    else none
  | .loop => loopStep s

/-- The state in which the loop starts: the rings as attach or an earlier session has
left them, `head` the slot both sides stand at, `granted` slots granted, and whatever
has been transmitted before, none of it an echo. -/
structure EchoStart (head txBase window granted : Nat) (s : EchoSys) : Prop where
  ready : s.session.sfc.Ready
  top : s.pc = .top
  headLt : head < numRxDesc
  rxHead : s.session.sfc.rxHead = head
  fillPos : s.fillPos = head
  rxWindow : s.session.sfc.rxWindow = window
  windowLt : window < numRxDesc
  grantedLt : granted < numRxDesc
  doorbell : s.session.dev.rxDescDbl = (head + granted) % numRxDesc
  readPtrLt : s.session.sfc.evqReadPtr < numEvqEntry
  evqWptr : s.evqWptr = s.session.sfc.evqReadPtr
  vacant : ∀ i, i < numEvqEntry → slotVacant (s.session.dev.evqRing i)
  unread : s.unread = []
  counts : s.fills = 0 ∧ s.released = 0
  txHead : s.session.sfc.txHead = (txBase + s.posts.length) % numTxDesc
  posts : ∀ i e, s.posts[i]? = some e → e.slot = (txBase + i) % numTxDesc ∧ e.rxSlot = none
  completed : s.completed ≤ s.posts.length

/-- What a post leaves of a session: only the transmit side changes, and `tx_head`
advances if the post is accepted. -/
def PostOutcome (s : Session) (out : Int × Session) : Prop :=
  out = (-1, s) ∨ ∃ ring dbl buffer, out =
    (0,
      { sfc := { s.sfc with usedPoll := true, txHead := (s.sfc.txHead + 1) % 512 }
        dev := { s.dev with txDescRing := ring, txDbl := dbl, txBuffer := buffer } })

theorem postOutcome_txPostPaddr (s : Session) (paddr : BitVec 64) (len : Nat) :
    PostOutcome s (txPostPaddr s paddr len) := by
  unfold txPostPaddr
  split
  · exact Or.inl rfl
  · split
    · exact Or.inl rfl
    · rw [txPush, txNext, numTxDesc, land_ringMask]
      exact Or.inr ⟨_, _, _, rfl⟩

theorem postOutcome_txPost (s : Session) (bytes : List (BitVec 8)) :
    PostOutcome s (txPost s bytes) := by
  unfold txPost
  split
  · exact Or.inl rfl
  · split
    · exact Or.inl rfl
    · simp only [txPush, txNext, numTxDesc, land_ringMask]
      exact Or.inr ⟨_, _, _, rfl⟩

/-- The probes leave the state as the loop expects it. -/
theorem echoStart_probeLoop {head txBase window granted : Nat} (left : Nat) {s : EchoSys}
    (hstart : EchoStart head txBase window granted s) :
    EchoStart head txBase window granted (probeLoop left s) := by
  induction left generalizing s with
  | zero => exact hstart
  | succ left ih =>
    unfold probeLoop
    rcases postOutcome_txPost s.session (probeFrame s.macAddr) with
      hout | ⟨ring, dbl, buffer, hout⟩
    · simp only [hout]
      exact hstart
    · simp only [hout, EchoSys.posted]
      apply ih
      refine
        { hstart with ready := { hstart.ready with }, txHead := ?_, posts := ?_, completed := ?_ }
      · show (s.session.sfc.txHead + 1) % 512 = (txBase + (s.posts ++ [_]).length) % 512
        rw [hstart.txHead, List.length_append, List.length_singleton, numTxDesc]
        omega
      · intro i e he
        rcases getElem?_concat_cases he with hold | ⟨rfl, rfl⟩
        · exact hstart.posts i e hold
        · exact ⟨hstart.txHead, rfl⟩
      · show s.completed ≤ (s.posts ++ [_]).length
        rw [List.length_append]
        exact Nat.le_add_right_of_le hstart.completed

end Echo
end SfcCapio
