import SfcCapio.Kernel.TxIoctl

/-!
# Transmit and receive calls on one event queue

Receive events and transmit completions arrive in the same queue, and both ioctl
handlers consume whatever stands under the one cursor `data_evq_read_ptr`.  Only the
receive handler advances `rx_head` for a receive event; a transmit call that walks
past one leaves `rx_head` behind for good.

`SharedSys` interleaves calls of both kinds with the card.  It records who consumed
each receive event.  The calls leave each other alone exactly on the runs in which no
transmit call finds a receive event under the cursor: the other receive events are
seen by the receive handler as if the transmit calls and their completions were not
there, which is how the proof uses the invariant of the receive path alone.
-/

namespace SfcCapio
namespace Kernel

open Hardware Foundation

/-- The handler that holds the device lock. -/
inductive Handler
  | rx (pc : RxPc)
  | tx (pc : TxPc)

/-- A call in progress; calls are numbered in the order in which they take the lock. -/
structure Call where
  number : Nat
  handler : Handler

/-- The call that consumed a receive event. -/
inductive Taker
  | rx (call : Nat)
  | tx (call : Nat)
deriving DecidableEq

/-- The driver, the call in progress and the card.  `pending` are the event words the
card has written and no call has consumed; `takers` says who consumed each receive
event, in the order of consumption; `replies` are the successful receive calls. -/
structure SharedSys where
  sc : Softc
  call : Option Call
  calls : Nat
  fillPos : Nat
  evqWptr : Nat
  pending : List (BitVec 64)
  fills : List RxFill
  takers : List Taker
  replies : List (Nat × RxReply)

/-- The card receives a frame, or writes another event; a caller enters one of the
two handlers; the handler in progress moves. -/
inductive SharedLabel
  | fill (w : BitVec 64) (image : Nat → BitVec 8)
  | event (w : BitVec 64)
  | enterRx
  | enterTx (req : TxReq)
  | cpu (copyErr : Nat)

namespace SharedSys

/-- The card stops at the receive doorbell, and at a full event queue. -/
def CanFill (s : SharedSys) : Prop :=
  s.fillPos ≠ s.sc.dev.rxDescDbl % numRxDesc ∧ s.pending.length < numEvqEntry

instance (s : SharedSys) : Decidable s.CanFill := inferInstanceAs (Decidable (_ ∧ _))

/-- The card writes an event word. -/
def posted (s : SharedSys) (w : BitVec 64) : SharedSys :=
  { s with
    sc :=
      { s.sc with
        dev := { s.sc.dev with evqRing := Function.update s.sc.dev.evqRing s.evqWptr w } }
    evqWptr := (s.evqWptr + 1) % numEvqEntry
    pending := s.pending ++ [w] }

/-- The card writes the image where the slot's descriptor points, then the event. -/
def filled (s : SharedSys) (w : BitVec 64) (image : Nat → BitVec 8) : SharedSys :=
  { s.posted w with
    sc :=
      { (s.posted w).sc with
        dev :=
          { (s.posted w).sc.dev with
            rxBuffer := dmaFill s.sc.rxBufferPaddr s.sc.dev.rxBuffer
              (s.sc.dev.rxDescRing s.fillPos) image } }
    fillPos := (s.fillPos + 1) % numRxDesc
    fills := s.fills ++ [{ slot := s.fillPos, word := w, image := image }] }

/-- A call takes the lock. -/
def entered (s : SharedSys) (handler : Handler) : SharedSys :=
  { s with call := some { number := s.calls, handler := handler }, calls := s.calls + 1 }

end SharedSys

namespace Call

/-- The call reads the event queue next. -/
def polling (c : Call) : Bool :=
  match c.handler with
  | .rx (.poll tries _) => tries < rxTries
  | .tx (.poll _ tries _) => tries < txTries
  | _ => false

/-- The call as a taker. -/
def taker (c : Call) : Taker :=
  match c.handler with
  | .rx _ => .rx c.number
  | .tx _ => .tx c.number

end Call

namespace SharedSys

/-- The event that the next step of the call consumes. -/
def taking (s : SharedSys) (c : Call) : Option (BitVec 64) :=
  if c.polling then (evqTake s.sc.dev.evqRing s.sc.dataEvqReadPtr).map Prod.fst else none

/-- The records of consumption. -/
def recorded (s : SharedSys) (c : Call) : SharedSys :=
  match s.taking c with
  | none => s
  | some ev =>
    { s with
      pending := s.pending.tail
      takers := if evCode ev = 0 then s.takers ++ [c.taker] else s.takers }

/-- A receive handler has moved. -/
def movedRx (s : SharedSys) (number : Nat) (out : Softc × RxStatus) : SharedSys :=
  match out.2 with
  | .running pc => { s with sc := out.1, call := some ⟨number, .rx pc⟩ }
  | .returned (.error _) => { s with sc := out.1, call := none }
  | .returned (.ok reply) =>
    { s with sc := out.1, call := none, replies := s.replies ++ [(number, reply)] }

/-- A transmit handler has moved. -/
def movedTx (s : SharedSys) (number : Nat) (out : Softc × TxStatus) : SharedSys :=
  match out.2 with
  | .running pc => { s with sc := out.1, call := some ⟨number, .tx pc⟩ }
  | .returned _ => { s with sc := out.1, call := none }

/-- The call in progress makes its next step. -/
def moved (s : SharedSys) (copyErr : Nat) (c : Call) : SharedSys :=
  match c.handler with
  | .rx pc => (s.recorded c).movedRx c.number (rxIoctlStep s.sc copyErr pc)
  | .tx pc => (s.recorded c).movedTx c.number (txIoctlStep s.sc copyErr pc)

end SharedSys

/-- The interleaved system.  A transmit request is checked before the lock is taken. -/
def sharedStep (s : SharedSys) : SharedLabel → Option SharedSys
  | .fill w image => if IsRxEvent w ∧ s.CanFill then some (s.filled w image) else none
  | .event w =>
    if ¬ slotVacant w ∧ evCode w ≠ 0 ∧ s.pending.length < numEvqEntry then
      some (s.posted w)
    else none
  | .enterRx => if s.call.isSome then none else some (s.entered (.rx (.poll 0 0)))
  | .enterTx req =>
    match txReqError req with
    | some _ => some s
    | none => if s.call.isSome then none else some (s.entered (.tx (.copyin req)))
  | .cpu copyErr => s.call.map (s.moved copyErr)

/-- The state `sfc7120_post_rx_buffers` leaves, before any traffic or call. -/
structure SharedStart (geom : Geometry) (s : SharedSys) : Prop where
  base : s.sc.rxBufferPaddr = geom.rxBufferPaddr
  primed : ∃ dev, s.sc.dev = postRxBuffers geom.rxBufferPaddr dev
  rxHead : s.sc.rxHead = 0
  readPtrLt : s.sc.dataEvqReadPtr < numEvqEntry
  vacant : ∀ i, i < numEvqEntry → slotVacant (s.sc.dev.evqRing i)
  idle : s.call = none
  fillPos : s.fillPos = 0
  evqWptr : s.evqWptr = s.sc.dataEvqReadPtr
  nonePending : s.pending = []
  noFills : s.fills = []
  noTakers : s.takers = []
  noReplies : s.replies = []

/-! ## What is to hold -/

/-- The receive call with this number has not returned. -/
def SharedSys.InProgress (s : SharedSys) (number : Nat) : Prop :=
  ∃ pc, s.call = some ⟨number, .rx pc⟩

/-- The receive call in progress has consumed its event. -/
def SharedSys.inHand (s : SharedSys) : List Taker :=
  match s.call with
  | some ⟨number, .rx pc⟩ => if pc.taken = 1 then [.rx number] else []
  | _ => []

/-- Transmit calls have not disturbed the receive path. -/
structure Undisturbed (s : SharedSys) : Prop where
  /-- Receive events are consumed by receive calls. -/
  byRx : ∀ taker ∈ s.takers, ∃ number, taker = .rx number
  /-- No call consumes two. -/
  once : s.takers.Nodup
  /-- A call returns the contents of the slot its event was posted for. -/
  returned : ∀ (k : Nat) number, s.takers[k]? = some (.rx number) →
    ∃ f, s.fills[k]? = some f ∧
      (s.InProgress number ∨ ∃ reply, (number, reply) ∈ s.replies ∧ Delivers f reply)
  /-- `rx_head` counts the receive events consumed, up to the one in hand. -/
  rxHead : s.inHand = [] → s.sc.rxHead = s.takers.length % numRxDesc

/-- Every `copyout` of the run succeeds. -/
def CopyoutWorks (s : SharedSys) : SharedLabel → Prop
  | .cpu copyErr => ∀ c ∈ s.call, (∃ pc, c.handler = .rx pc) → copyErr = 0
  | _ => True

/-- A transmit call that reads the event queue finds no receive event there. -/
def TxLeavesRx (s : SharedSys) : SharedLabel → Prop
  | .cpu _ => ∀ c ∈ s.call, (∃ pc, c.handler = .tx pc) → c.polling = true →
      ¬ IsRxEvent (s.sc.dev.evqRing s.sc.dataEvqReadPtr)
  | _ => True

instance (s : SharedSys) (l : SharedLabel) : Decidable (TxLeavesRx s l) :=
  match l with
  | .cpu _ =>
    match hcall : s.call with
    | none | some ⟨_, .rx _⟩ => .isTrue (by simp [TxLeavesRx, hcall])
    | some ⟨number, .tx pc⟩ =>
      decidable_of_iff ((Call.mk number (.tx pc)).polling = true →
        ¬ IsRxEvent (s.sc.dev.evqRing s.sc.dataEvqReadPtr)) (by simp [TxLeavesRx, hcall])
  | .fill _ _ | .event _ | .enterRx | .enterTx _ => inferInstanceAs (Decidable True)

/-! ## The receive path alone -/

/-- The program counter of a receive call. -/
def SharedSys.rxCall (s : SharedSys) : Option RxPc :=
  match s.call with
  | some ⟨_, .rx pc⟩ => some pc
  | _ => none

/-- The system without its transmit calls, over a queue of receive events only. -/
def SharedSys.rxView (s : SharedSys) (evq : Nat → BitVec 64) (readPtr wptr : Nat) :
    RxIoctlSys where
  sc := { s.sc with dev := { s.sc.dev with evqRing := evq }, dataEvqReadPtr := readPtr }
  call := s.rxCall
  fillPos := s.fillPos
  evqWptr := wptr
  fills := s.fills
  replies := s.replies.map Prod.snd

/-- The receive events among the pending ones. -/
def rxPart (pending : List (BitVec 64)) : List (BitVec 64) :=
  pending.filter fun w => evCode w = 0

/-- The shared queue, the receive path seen alone, and the records. -/
structure SharedInv (geom : Geometry) (s : SharedSys) (evq : Nat → BitVec 64)
    (readPtr wptr : Nat) : Prop where
  events : EvqHolds s.sc.dev.evqRing s.sc.dataEvqReadPtr s.pending
  evqWptr : s.evqWptr = (s.sc.dataEvqReadPtr + s.pending.length) % 512
  view : RxIoctlInv geom (s.rxView evq readPtr wptr)
  rxPending : rxPart s.pending = (s.rxView evq readPtr wptr).pending
  takers : s.takers = s.replies.map (fun p => Taker.rx p.1) ++ s.inHand
  increasing : (s.replies.map Prod.fst).Pairwise (· < ·)
  numbers : ∀ number ∈ s.replies.map Prod.fst, number < s.calls
  current : ∀ c ∈ s.call, c.number < s.calls ∧
    ∀ number ∈ s.replies.map Prod.fst, number < c.number

variable {geom : Geometry} {s s' : SharedSys} {evq evq' : Nat → BitVec 64}
  {readPtr wptr number readPtr' tries consumed : Nat} {w ev : BitVec 64} {pc : RxPc}

/-- The receive path only depends on its own part of the driver's state. -/
theorem rxIoctlInv_sameRx {r : RxIoctlSys} {sc : Softc} (hinv : RxIoctlInv geom r)
    (hsame : SameRx r.sc sc) (hevq : sc.dev.evqRing = r.sc.dev.evqRing)
    (hptr : sc.dataEvqReadPtr = r.sc.dataEvqReadPtr) :
    RxIoctlInv geom { r with sc := sc } where
  base := hsame.base.trans hinv.base
  rxHead := hsame.rxHead.trans hinv.rxHead
  doorbell := by
    change sc.dev.rxDescDbl = (sc.rxHead + 511) % 512
    rw [hsame.rxDescDbl, hsame.rxHead]
    exact hinv.doorbell
  identity := hsame.rxDescRing ▸ hinv.identity
  fillPos := hinv.fillPos
  slots := hinv.slots
  credit := hsame.rxDescDbl ▸ hinv.credit
  takenLe := hinv.takenLe
  rx := hinv.rx
  evqWptr := by
    change r.evqWptr = (sc.dataEvqReadPtr + r.pending.length) % 512
    rw [hptr]
    exact hinv.evqWptr
  events := by
    change EvqHolds sc.dev.evqRing sc.dataEvqReadPtr r.pending
    rw [hevq, hptr]
    exact hinv.events
  images := hsame.rxBuffer ▸ hinv.images
  answered := hinv.answered
  carried := hinv.carried

theorem sharedInv_start (hstart : SharedStart geom s) :
    SharedInv geom s s.sc.dev.evqRing s.sc.dataEvqReadPtr s.evqWptr := by
  have hview : RxIoctlStart geom
      (s.rxView s.sc.dev.evqRing s.sc.dataEvqReadPtr s.evqWptr) :=
    { base := hstart.base
      posted := hstart.primed
      rxHead := hstart.rxHead
      readPtrLt := hstart.readPtrLt
      vacant := hstart.vacant
      idle := by simp [SharedSys.rxView, SharedSys.rxCall, hstart.idle]
      fillPos := hstart.fillPos
      evqWptr := hstart.evqWptr
      noFills := hstart.noFills
      noReplies := by simp [SharedSys.rxView, hstart.noReplies] }
  refine
    { events := ?_
      evqWptr := ?_
      view := rxIoctlInv_start hview
      rxPending := ?_
      takers := ?_
      increasing := by simp [hstart.noReplies]
      numbers := by simp [hstart.noReplies]
      current := by simp [hstart.idle] }
  · rw [hstart.nonePending]
    exact EvqHolds.empty hstart.vacant hstart.readPtrLt
  · rw [hstart.nonePending, hstart.evqWptr, List.length_nil, Nat.add_zero,
      Nat.mod_eq_of_lt hstart.readPtrLt]
  · rw [hstart.nonePending, RxIoctlSys.pending, hview.noFills, List.drop_nil]
    rfl
  · simp [hstart.noTakers, hstart.noReplies, SharedSys.inHand, hstart.idle]

/-! ## The card's steps -/

theorem rxPart_append (pending : List (BitVec 64)) (w : BitVec 64) :
    rxPart (pending ++ [w]) = rxPart pending ++ rxPart [w] :=
  List.filter_append pending [w]

theorem SharedInv.events_posted (hinv : SharedInv geom s evq readPtr wptr) (hw : ¬ slotVacant w)
    (hroom : s.pending.length < numEvqEntry) :
    EvqHolds (Function.update s.sc.dev.evqRing s.evqWptr w) s.sc.dataEvqReadPtr
      (s.pending ++ [w]) := by
  rw [hinv.evqWptr]
  exact hinv.events.write hroom hw

theorem SharedInv.evqWptr_posted (hinv : SharedInv geom s evq readPtr wptr) (w : BitVec 64) :
    (s.evqWptr + 1) % numEvqEntry =
      (s.sc.dataEvqReadPtr + (s.pending ++ [w]).length) % 512 := by
  rw [hinv.evqWptr, List.length_append, List.length_singleton]
  simp only [numEvqEntry]
  omega

theorem sharedInv_posted (hinv : SharedInv geom s evq readPtr wptr) (hw : ¬ slotVacant w)
    (hcode : evCode w ≠ 0) (hroom : s.pending.length < numEvqEntry) :
    SharedInv geom (s.posted w) evq readPtr wptr := by
  refine
    { hinv with
      events := hinv.events_posted hw hroom
      evqWptr := hinv.evqWptr_posted w
      rxPending := ?_ }
  change rxPart (s.pending ++ [w]) = _
  rw [rxPart_append, hinv.rxPending]
  simp only [rxPart, List.filter_cons, hcode, decide_false, Bool.false_eq_true, if_false,
    List.filter_nil, List.append_nil]
  rfl

theorem sharedInv_filled (image : Nat → BitVec 8) (hinv : SharedInv geom s evq readPtr wptr)
    (hw : IsRxEvent w) (hfill : s.CanFill) :
    SharedInv geom (s.filled w image) (Function.update evq wptr w) readPtr
      ((wptr + 1) % numEvqEntry) := by
  have hview : RxIoctlInv geom ((s.rxView evq readPtr wptr).filled w image) :=
    rxIoctlInv_fill hinv.view hw hfill.1
  refine
    { hinv with
      events := hinv.events_posted hw.2 hfill.2
      evqWptr := hinv.evqWptr_posted w
      view := hview
      rxPending := ?_ }
  change rxPart (s.pending ++ [w]) = ((s.rxView evq readPtr wptr).filled w image).pending
  rw [rxPart_append, hinv.rxPending, hinv.view.pending_filled]
  simp [rxPart, hw.1]

/-! ## Steps of the handlers -/

theorem sharedInv_entered {handler : Handler} (hinv : SharedInv geom s evq readPtr wptr)
    (hidle : s.call = none)
    (hhandler : handler = .rx (.poll 0 0) ∨ ∃ req, handler = .tx (.copyin req)) :
    SharedInv geom (s.entered handler) evq readPtr wptr := by
  have hnone : s.rxCall = none := by simp [SharedSys.rxCall, hidle]
  have hnumbers : ∀ number ∈ s.replies.map Prod.fst, number < s.calls + 1 := by
    intro number hmem
    exact Nat.lt_succ_of_lt (hinv.numbers number hmem)
  have hcurrent : ∀ c ∈ (s.entered handler).call, c.number < s.calls + 1 ∧
      ∀ number ∈ s.replies.map Prod.fst, number < c.number := by
    intro c hc
    obtain rfl := Option.some.inj hc
    exact ⟨Nat.lt_succ_self _, hinv.numbers⟩
  have hempty : s.inHand = [] := by simp [SharedSys.inHand, hidle]
  have htakers := hinv.takers
  have hpending := hinv.rxPending
  rw [hempty] at htakers
  rcases hhandler with rfl | ⟨req, rfl⟩
  · refine
      { hinv with
        view := rxIoctlInv_enter hinv.view hnone
        rxPending := ?_
        takers := htakers
        numbers := hnumbers
        current := hcurrent }
    change rxPart s.pending = _
    rw [hpending]
    simp only [RxIoctlSys.pending, RxIoctlSys.taken, SharedSys.rxView, hnone]
    rfl
  · have hview : (s.entered (.tx (.copyin req))).rxView evq readPtr wptr =
        s.rxView evq readPtr wptr := by
      simp only [SharedSys.rxView, hnone]
      rfl
    exact
      { hinv with
        view := hview ▸ hinv.view
        rxPending := hview ▸ hinv.rxPending
        takers := htakers
        numbers := hnumbers
        current := hcurrent }

theorem sharedInv_rx_running (pc' : RxPc) (sc : Softc) (hinv : SharedInv geom s evq readPtr wptr)
    (hcall : s.call = some ⟨number, .rx pc⟩) (hevq : sc.dev.evqRing = s.sc.dev.evqRing)
    (hptr : sc.dataEvqReadPtr = s.sc.dataEvqReadPtr) (htaken : pc'.taken = pc.taken)
    (hview : RxIoctlInv geom (SharedSys.rxView
      { s with sc := sc, call := some ⟨number, .rx pc'⟩ } evq readPtr wptr)) :
    SharedInv geom { s with sc := sc, call := some ⟨number, .rx pc'⟩ } evq readPtr wptr := by
  have hcurrent := hinv.current _ hcall
  refine
    { events := ?_
      evqWptr := ?_
      view := hview
      rxPending := ?_
      takers := ?_
      increasing := hinv.increasing
      numbers := hinv.numbers
      current := ?_ }
  · change EvqHolds sc.dev.evqRing sc.dataEvqReadPtr s.pending
    rw [hevq, hptr]
    exact hinv.events
  · change s.evqWptr = (sc.dataEvqReadPtr + s.pending.length) % 512
    rw [hptr]
    exact hinv.evqWptr
  · change rxPart s.pending = _
    rw [hinv.rxPending]
    simp only [RxIoctlSys.pending, RxIoctlSys.taken, SharedSys.rxView, SharedSys.rxCall, hcall,
      Option.map_some, htaken]
  · change s.takers = _
    rw [hinv.takers]
    simp only [SharedSys.inHand, hcall, htaken]
  · intro c hc
    obtain rfl := Option.some.inj hc
    exact hcurrent

/-- A call of either kind consumes an event that is not a receive event. -/
theorem sharedInv_consume_other (hinv : SharedInv geom s evq readPtr wptr)
    (htake : evqTake s.sc.dev.evqRing s.sc.dataEvqReadPtr = some (ev, evq', readPtr'))
    (hcode : evCode ev ≠ 0) :
    SharedInv geom
      { s with
        sc := { s.sc with dev := { s.sc.dev with evqRing := evq' }, dataEvqReadPtr := readPtr' }
        pending := s.pending.tail } evq readPtr wptr := by
  obtain ⟨rest, hpending, hcursor, hrest⟩ := hinv.events.of_take htake
  have hwptr := hinv.evqWptr
  have hrx := hinv.rxPending
  rw [hpending, List.length_cons] at hwptr
  simp only [hpending, rxPart, List.filter_cons, hcode, decide_false, Bool.false_eq_true,
    if_false] at hrx
  refine { hinv with events := ?_, evqWptr := ?_, rxPending := ?_ }
  · rw [hpending]
    exact hrest
  · change s.evqWptr = (readPtr' + s.pending.tail.length) % 512
    rw [hpending, List.tail_cons, hwptr, hcursor]
    omega
  · change rxPart s.pending.tail = _
    rw [hpending]
    exact hrx

theorem sharedInv_movedTx {pc : TxPc} (sc : Softc) (status : TxStatus)
    (hinv : SharedInv geom s evq readPtr wptr) (hcall : s.call = some ⟨number, .tx pc⟩)
    (hsame : SameRx s.sc sc) (hevq : sc.dev.evqRing = s.sc.dev.evqRing)
    (hptr : sc.dataEvqReadPtr = s.sc.dataEvqReadPtr) :
    SharedInv geom (s.movedTx number (sc, status)) evq readPtr wptr := by
  have hnone : s.rxCall = none := by simp [SharedSys.rxCall, hcall]
  have hempty : s.inHand = [] := by simp [SharedSys.inHand, hcall]
  have htakers := hinv.takers
  have hrx := hinv.rxPending
  have hcurrent := hinv.current _ hcall
  have hwptr : s.evqWptr = (sc.dataEvqReadPtr + s.pending.length) % 512 := by
    rw [hptr]
    exact hinv.evqWptr
  have hevents : EvqHolds sc.dev.evqRing sc.dataEvqReadPtr s.pending := by
    rw [hevq, hptr]
    exact hinv.events
  have hview : RxIoctlInv geom
      { s.rxView evq readPtr wptr with
        sc := { sc with dev := { sc.dev with evqRing := evq }, dataEvqReadPtr := readPtr } } :=
    rxIoctlInv_sameRx hinv.view
      ⟨hsame.base, hsame.rxHead, hsame.rxDescDbl, hsame.rxDescRing, hsame.rxBuffer⟩ rfl rfl
  rw [hempty] at htakers
  simp only [SharedSys.rxView, hnone] at hview hrx
  cases status with
  | running pc' =>
    refine
      { hinv with
        events := hevents
        evqWptr := hwptr
        view := hview
        rxPending := hrx
        takers := htakers
        current := ?_ }
    intro c hc
    obtain rfl := Option.some.inj hc
    exact hcurrent
  | returned rc =>
    exact
      { hinv with
        events := hevents
        evqWptr := hwptr
        view := hview
        rxPending := hrx
        takers := htakers
        current := fun c hc => absurd hc (Option.not_mem_none c) }

/-- A receive call consumes a receive event: the oldest of the receive path seen
alone. -/
theorem sharedInv_rx_take (hinv : SharedInv geom s evq readPtr wptr)
    (hcall : s.call = some ⟨number, .rx (.poll tries consumed)⟩) (htries : tries < rxTries)
    (htake : evqTake s.sc.dev.evqRing s.sc.dataEvqReadPtr = some (ev, evq', readPtr'))
    (hcode : evCode ev = 0) :
    SharedInv geom
      { s with
        sc := { s.sc with dev := { s.sc.dev with evqRing := evq' }, dataEvqReadPtr := readPtr' }
        call := some ⟨number, .rx (.ack (consumed + 1) (some (evRxBytes ev)))⟩
        pending := s.pending.tail
        takers := s.takers ++ [.rx number] }
      (Function.update evq readPtr 0#64) ((readPtr + 1) % 512) wptr := by
  obtain ⟨rest, hpending, hcursor, hrest⟩ := hinv.events.of_take htake
  have hwptr := hinv.evqWptr
  have hrx := hinv.rxPending
  have hcurrent := hinv.current _ hcall
  have hrxCall : (s.rxView evq readPtr wptr).call = some (.poll tries consumed) := by
    simp [SharedSys.rxView, SharedSys.rxCall, hcall]
  rw [hpending, List.length_cons] at hwptr
  simp only [hpending, rxPart, List.filter_cons, hcode, decide_true, if_true] at hrx
  -- the receive path seen alone takes the same event in its own step
  have hview : RxIoctlInv geom ((s.rxView evq readPtr wptr).moved
      (rxIoctlStep (s.rxView evq readPtr wptr).sc 0 (.poll tries consumed))) :=
    rxIoctlInv_poll hinv.view hrxCall
  have hevents := hinv.view.events
  rw [← hrx] at hevents
  have htakeView : evqTake (s.rxView evq readPtr wptr).sc.dev.evqRing
      (s.rxView evq readPtr wptr).sc.dataEvqReadPtr = _ := hevents.take_cons
  simp only [rxIoctlStep, if_pos htries, htakeView, if_pos hcode] at hview
  refine
    { events := ?_
      evqWptr := ?_
      view := hview
      rxPending := ?_
      takers := ?_
      increasing := hinv.increasing
      numbers := hinv.numbers
      current := ?_ }
  · rw [hpending]
    exact hrest
  · change s.evqWptr = (readPtr' + s.pending.tail.length) % 512
    rw [hpending, List.tail_cons, hwptr, hcursor]
    omega
  · -- one receive event less on both sides
    simp only [RxIoctlSys.pending, RxIoctlSys.taken, hrxCall, Option.map_some, RxPc.taken,
      Option.getD_some, Nat.add_zero] at hrx
    change rxPart s.pending.tail =
      (s.fills.drop ((s.replies.map Prod.snd).length + 1)).map RxFill.word
    rw [hpending, ← List.tail_drop, List.map_tail]
    exact congrArg List.tail hrx
  · have htakers := hinv.takers
    have hempty : s.inHand = [] := by simp [SharedSys.inHand, hcall, RxPc.taken]
    rw [hempty, List.append_nil] at htakers
    change s.takers ++ [.rx number] = s.replies.map _ ++ [.rx number]
    rw [htakers]
  · intro c hc
    obtain rfl := Option.some.inj hc
    exact hcurrent

theorem sharedInv_rx_leave (hinv : SharedInv geom s evq readPtr wptr)
    (hcall : s.call = some ⟨number, .rx pc⟩) (htaken : pc.taken = 0) (dbl : Nat) :
    SharedInv geom
      { s with
        sc := { s.sc with dev := { s.sc.dev with evqRptrDbl := dbl } }
        call := none } evq readPtr wptr := by
  have hrxCall : (s.rxView evq readPtr wptr).call = some pc := by
    simp [SharedSys.rxView, SharedSys.rxCall, hcall]
  have hview := rxIoctlInv_leave (rxIoctlInv_evqRptrDbl dbl hinv.view) hrxCall htaken
  have hrx := hinv.rxPending
  have htakers := hinv.takers
  have hempty : s.inHand = [] := by simp [SharedSys.inHand, hcall, htaken]
  rw [hempty] at htakers
  simp only [RxIoctlSys.pending, RxIoctlSys.taken, hrxCall, Option.map_some, htaken,
    Option.getD_some] at hrx
  exact
    { hinv with
      view := hview
      rxPending := hrx
      takers := htakers
      current := fun c hc => absurd hc (Option.not_mem_none c) }

theorem sharedInv_rx_ring {reply : RxReply} (hinv : SharedInv geom s evq readPtr wptr)
    (hcall : s.call = some ⟨number, .rx (.ring reply)⟩) :
    SharedInv geom (s.movedRx number (rxIoctlStep s.sc 0 (.ring reply))) evq readPtr wptr := by
  obtain ⟨hlt, hnewest⟩ := hinv.current _ hcall
  have hrxCall : (s.rxView evq readPtr wptr).call = some (.ring reply) := by
    simp [SharedSys.rxView, SharedSys.rxCall, hcall]
  have hview : RxIoctlInv geom ((s.rxView evq readPtr wptr).moved
      (rxIoctlStep (s.rxView evq readPtr wptr).sc 0 (.ring reply))) :=
    rxIoctlInv_ring hinv.view hrxCall
  have hrx := hinv.rxPending
  have htakers := hinv.takers
  have hreplies : (s.replies ++ [(number, reply)]).map Prod.snd =
      s.replies.map Prod.snd ++ [reply] := List.map_append
  have hnumbers : (s.replies ++ [(number, reply)]).map Prod.fst =
      s.replies.map Prod.fst ++ [number] := List.map_append
  simp only [RxIoctlSys.pending, RxIoctlSys.taken, hrxCall, Option.map_some, RxPc.taken,
    Option.getD_some] at hrx
  simp only [SharedSys.inHand, hcall, RxPc.taken, if_true] at htakers
  refine
    { events := hinv.events
      evqWptr := hinv.evqWptr
      view := ?_
      rxPending := ?_
      takers := ?_
      increasing := ?_
      numbers := ?_
      current := fun c hc => absurd hc (Option.not_mem_none c) }
  · have hsame : (s.movedRx number (rxIoctlStep s.sc 0 (.ring reply))).rxView
        evq readPtr wptr = (s.rxView evq readPtr wptr).moved
          (rxIoctlStep (s.rxView evq readPtr wptr).sc 0 (.ring reply)) := by
      simp only [SharedSys.rxView, SharedSys.movedRx, rxIoctlStep, RxIoctlSys.moved, hreplies]
      rfl
    exact hsame ▸ hview
  · change rxPart s.pending =
      (s.fills.drop (((s.replies ++ [(number, reply)]).map Prod.snd).length + 0)).map RxFill.word
    rw [hreplies, hrx, List.length_append]
    rfl
  · change s.takers = (s.replies ++ [(number, reply)]).map _ ++ []
    rw [htakers, List.map_append, List.append_nil]
    rfl
  · -- calls do not overlap, so the one that returns is the newest
    change ((s.replies ++ [(number, reply)]).map Prod.fst).Pairwise (· < ·)
    rw [hnumbers, List.pairwise_append]
    refine ⟨hinv.increasing, List.pairwise_singleton _ _, ?_⟩
    intro m hm n hn
    rw [List.mem_singleton.mp hn]
    exact hnewest m hm
  · change ∀ m ∈ (s.replies ++ [(number, reply)]).map Prod.fst, m < s.calls
    intro m hm
    rw [hnumbers] at hm
    rcases List.mem_append.mp hm with hold | hnew
    · exact hinv.numbers m hold
    · rw [List.mem_singleton.mp hnew]
      exact hlt

/-! ## Moves of a call -/

theorem recorded_of_not_polling {c : Call} (hpolling : c.polling = false) :
    s.recorded c = s := by
  simp [SharedSys.recorded, SharedSys.taking, hpolling]

theorem recorded_of_vacant (c : Call)
    (htake : evqTake s.sc.dev.evqRing s.sc.dataEvqReadPtr = none) : s.recorded c = s := by
  simp [SharedSys.recorded, SharedSys.taking, htake]

theorem recorded_of_take {c : Call} (hpolling : c.polling = true)
    (htake : evqTake s.sc.dev.evqRing s.sc.dataEvqReadPtr = some (ev, evq, readPtr)) :
    s.recorded c =
      { s with
        pending := s.pending.tail
        takers := if evCode ev = 0 then s.takers ++ [c.taker] else s.takers } := by
  simp [SharedSys.recorded, SharedSys.taking, hpolling, htake]

theorem sharedInv_poll_rx (copyErr : Nat) (hinv : SharedInv geom s evq readPtr wptr)
    (hcall : s.call = some ⟨number, .rx (.poll tries consumed)⟩) :
    ∃ evq readPtr wptr, SharedInv geom
      (s.moved copyErr ⟨number, .rx (.poll tries consumed)⟩) evq readPtr wptr := by
  have hrxCall : (s.rxView evq readPtr wptr).call = some (.poll tries consumed) := by
    simp [SharedSys.rxView, SharedSys.rxCall, hcall]
  simp only [SharedSys.moved, rxIoctlStep]
  by_cases htries : tries < rxTries
  · have hpolling : Call.polling ⟨number, .rx (.poll tries consumed)⟩ = true := by
      simpa [Call.polling] using htries
    rw [if_pos htries]
    cases htake : evqTake s.sc.dev.evqRing s.sc.dataEvqReadPtr with
    | none =>
      rw [recorded_of_vacant _ htake]
      have hview := rxIoctlInv_running hinv.view hrxCall
        (show (RxPc.poll (tries + 1) consumed).taken = 0 from rfl) fun _ _ _ => trivial
      exact ⟨evq, readPtr, wptr, sharedInv_rx_running _ _ hinv hcall rfl rfl rfl hview⟩
    | some out =>
      obtain ⟨ev, evq', readPtr'⟩ := out
      rw [recorded_of_take hpolling htake]
      by_cases hcode : evCode ev = 0
      · simp only [if_pos hcode]
        exact ⟨_, _, _, sharedInv_rx_take hinv hcall htries htake hcode⟩
      · simp only [if_neg hcode]
        have hconsumed := sharedInv_consume_other hinv htake hcode
        have hview := rxIoctlInv_running hconsumed.view hrxCall
          (show (RxPc.poll (tries + 1) (consumed + 1)).taken = 0 from rfl) fun _ _ _ => trivial
        have hnext := sharedInv_rx_running (.poll (tries + 1) (consumed + 1)) _ hconsumed hcall
          rfl rfl rfl hview
        exact ⟨evq, readPtr, wptr, hnext⟩
  · rw [if_neg htries, recorded_of_not_polling (by simpa [Call.polling] using htries)]
    have hview := rxIoctlInv_running hinv.view hrxCall
      (show (RxPc.ack consumed none).taken = 0 from rfl) fun _ _ _ => trivial
    exact ⟨evq, readPtr, wptr, sharedInv_rx_running _ _ hinv hcall rfl rfl rfl hview⟩

theorem sharedInv_ack_rx {rxFound : Option Nat} (copyErr : Nat)
    (hinv : SharedInv geom s evq readPtr wptr)
    (hcall : s.call = some ⟨number, .rx (.ack consumed rxFound)⟩) :
    SharedInv geom (s.moved copyErr ⟨number, .rx (.ack consumed rxFound)⟩) evq readPtr wptr := by
  have hrxCall : (s.rxView evq readPtr wptr).call = some (.ack consumed rxFound) := by
    simp [SharedSys.rxView, SharedSys.rxCall, hcall]
  obtain ⟨dbl, hdbl⟩ := exists_ackedDbl s.sc consumed
  have hrecorded : s.recorded ⟨number, .rx (.ack consumed rxFound)⟩ = s :=
    recorded_of_not_polling rfl
  simp only [SharedSys.moved, hrecorded, rxIoctlStep, hdbl]
  cases rxFound with
  | none => exact sharedInv_rx_leave hinv hcall rfl dbl
  | some rxBytes =>
    have hview := rxIoctlInv_running (rxIoctlInv_evqRptrDbl dbl hinv.view) hrxCall
      (show (RxPc.copy rxBytes).taken = 1 from rfl) fun _ _ hcarries => hcarries
    exact sharedInv_rx_running (.copy rxBytes)
      { s.sc with dev := { s.sc.dev with evqRptrDbl := dbl } } hinv hcall rfl rfl rfl hview

/-- Every move of a receive call whose `copyout` succeeds. -/
theorem sharedInv_moved_rx (hinv : SharedInv geom s evq readPtr wptr)
    (hcall : s.call = some ⟨number, .rx pc⟩) :
    ∃ evq readPtr wptr, SharedInv geom (s.moved 0 ⟨number, .rx pc⟩) evq readPtr wptr := by
  have hrxCall : (s.rxView evq readPtr wptr).call = some pc := by
    simp [SharedSys.rxView, SharedSys.rxCall, hcall]
  cases pc with
  | poll tries consumed => exact sharedInv_poll_rx 0 hinv hcall
  | ack consumed rxFound => exact ⟨evq, readPtr, wptr, sharedInv_ack_rx 0 hinv hcall⟩
  | copy rxBytes =>
    have hview := rxIoctlInv_copy hinv.view hrxCall
    exact ⟨evq, readPtr, wptr, sharedInv_rx_running _ _ hinv hcall rfl rfl rfl hview⟩
  | repost reply =>
    have hview : RxIoctlInv geom ((s.rxView evq readPtr wptr).moved
        (rxIoctlStep (s.rxView evq readPtr wptr).sc 0 (.repost reply))) :=
      rxIoctlInv_repost hinv.view hrxCall
    exact ⟨evq, readPtr, wptr, sharedInv_rx_running _ _ hinv hcall rfl rfl rfl hview⟩
  | ring reply => exact ⟨evq, readPtr, wptr, sharedInv_rx_ring hinv hcall⟩

/-- Every move of a transmit call that does not find a receive event. -/
theorem sharedInv_moved_tx {pc : TxPc} (copyErr : Nat) (hinv : SharedInv geom s evq readPtr wptr)
    (hcall : s.call = some ⟨number, .tx pc⟩) (hleaves : Call.polling ⟨number, .tx pc⟩ = true →
      ¬ IsRxEvent (s.sc.dev.evqRing s.sc.dataEvqReadPtr)) :
    SharedInv geom (s.moved copyErr ⟨number, .tx pc⟩) evq readPtr wptr := by
  have hsame := sameRx_txIoctlStep s.sc copyErr pc
  simp only [SharedSys.moved]
  cases pc with
  | copyin req =>
    rw [recorded_of_not_polling rfl]
    simp only [txIoctlStep] at hsame ⊢
    split
    · exact sharedInv_movedTx _ _ hinv hcall ⟨rfl, rfl, rfl, rfl, rfl⟩ rfl rfl
    · exact sharedInv_movedTx _ _ hinv hcall ⟨rfl, rfl, rfl, rfl, rfl⟩ rfl rfl
  | desc length =>
    rw [recorded_of_not_polling rfl]
    exact sharedInv_movedTx _ _ hinv hcall hsame rfl rfl
  | ring =>
    rw [recorded_of_not_polling rfl]
    exact sharedInv_movedTx _ _ hinv hcall hsame rfl rfl
  | ack consumed txDone =>
    rw [recorded_of_not_polling rfl]
    exact sharedInv_movedTx _ _ hinv hcall hsame rfl rfl
  | poll postedIdx tries consumed =>
    simp only [txIoctlStep]
    by_cases htries : tries < txTries
    · have hpolling : Call.polling ⟨number, .tx (.poll postedIdx tries consumed)⟩ = true := by
        simpa [Call.polling] using htries
      rw [if_pos htries]
      cases htake : evqTake s.sc.dev.evqRing s.sc.dataEvqReadPtr with
      | none =>
        rw [recorded_of_vacant _ htake]
        exact sharedInv_movedTx _ _ hinv hcall ⟨rfl, rfl, rfl, rfl, rfl⟩ rfl rfl
      | some out =>
        obtain ⟨ev, evq', readPtr'⟩ := out
        obtain ⟨rest, hpending, -, -⟩ := hinv.events.of_take htake
        have hevents := hinv.events
        rw [hpending] at hevents
        -- the event at the cursor is not a receive event
        have hcode : evCode ev ≠ 0 := by
          intro hzero
          apply hleaves hpolling
          rw [hevents.head_eq]
          exact ⟨hzero, hevents.head_not_vacant⟩
        rw [recorded_of_take hpolling htake]
        simp only [if_neg hcode]
        have hconsumed := sharedInv_consume_other hinv htake hcode
        have hnext := fun status => sharedInv_movedTx
          { s.sc with
            dev := { s.sc.dev with evqRing := evq' }
            dataEvqReadPtr := readPtr' } status hconsumed hcall
          ⟨rfl, rfl, rfl, rfl, rfl⟩ rfl rfl
        split
        · exact hnext (.running (.ack (consumed + 1) true))
        · exact hnext (.running (.poll postedIdx (tries + 1) (consumed + 1)))
    · rw [if_neg htries, recorded_of_not_polling (by simpa [Call.polling] using htries)]
      exact sharedInv_movedTx _ _ hinv hcall ⟨rfl, rfl, rfl, rfl, rfl⟩ rfl rfl

/-! ## Whole runs -/

/-- The invariant, for some view of the receive path. -/
def SharedOk (geom : Geometry) (s : SharedSys) : Prop :=
  ∃ evq readPtr wptr, SharedInv geom s evq readPtr wptr

theorem sharedOk_step (s : SharedSys) (l : SharedLabel) (s' : SharedSys) (hok : SharedOk geom s)
    (hguard : CopyoutWorks s l ∧ TxLeavesRx s l)
    (hstep : sharedStep s l = some s') : SharedOk geom s' := by
  obtain ⟨evq, readPtr, wptr, hinv⟩ := hok
  cases l with
  | fill w image =>
    simp only [sharedStep] at hstep
    split at hstep
    · rename_i hcan
      obtain rfl := Option.some.inj hstep
      exact ⟨_, _, _, sharedInv_filled image hinv hcan.1 hcan.2⟩
    · cases hstep
  | event w =>
    simp only [sharedStep] at hstep
    split at hstep
    · rename_i hcan
      obtain rfl := Option.some.inj hstep
      exact ⟨_, _, _, sharedInv_posted hinv hcan.1 hcan.2.1 hcan.2.2⟩
    · cases hstep
  | enterRx =>
    simp only [sharedStep] at hstep
    split at hstep
    · cases hstep
    · rename_i hidle
      obtain rfl := Option.some.inj hstep
      have hnone := Option.not_isSome_iff_eq_none.mp hidle
      exact ⟨_, _, _, sharedInv_entered hinv hnone (Or.inl rfl)⟩
  | enterTx req =>
    simp only [sharedStep] at hstep
    split at hstep
    · obtain rfl := Option.some.inj hstep
      exact ⟨_, _, _, hinv⟩
    · split at hstep
      · cases hstep
      · rename_i hidle
        obtain rfl := Option.some.inj hstep
        have hnone := Option.not_isSome_iff_eq_none.mp hidle
        exact ⟨_, _, _, sharedInv_entered hinv hnone (Or.inr ⟨req, rfl⟩)⟩
  | cpu copyErr =>
    obtain ⟨c, hcall, rfl⟩ := Option.map_eq_some_iff.mp hstep
    obtain ⟨hcopy, hleaves⟩ := hguard
    obtain ⟨number, handler⟩ := c
    cases handler with
    | rx pc =>
      obtain rfl : copyErr = 0 := hcopy _ hcall ⟨pc, rfl⟩
      exact sharedInv_moved_rx hinv hcall
    | tx pc =>
      exact ⟨_, _, _, sharedInv_moved_tx copyErr hinv hcall (hleaves _ hcall ⟨pc, rfl⟩)⟩

/-- The numbers of the receive calls that returned a reply, and of the one that holds
an event, are all different. -/
theorem SharedInv.takers_nodup (hinv : SharedInv geom s evq readPtr wptr) : s.takers.Nodup := by
  have hreplies : (s.replies.map fun p => Taker.rx p.1).Nodup := by
    have hinj : Function.Injective Taker.rx := fun m n hmn => Taker.rx.inj hmn
    have hdistinct := hinv.increasing.imp (fun hlt => Nat.ne_of_lt hlt)
    have hmap := List.Nodup.map hinj hdistinct
    rw [List.map_map] at hmap
    exact hmap
  rw [hinv.takers]
  cases hcall : s.call with
  | none =>
    simp only [SharedSys.inHand, hcall, List.append_nil]
    exact hreplies
  | some c =>
    obtain ⟨number, handler⟩ := c
    cases handler with
    | tx pc =>
      simp only [SharedSys.inHand, hcall, List.append_nil]
      exact hreplies
    | rx pc =>
      simp only [SharedSys.inHand, hcall]
      split
      · apply hreplies.append (List.nodup_singleton _)
        intro taker hold hnew
        obtain ⟨p, hp, rfl⟩ := List.mem_map.mp hold
        obtain rfl := Taker.rx.inj (List.mem_singleton.mp hnew)
        have hlt := (hinv.current _ hcall).2 p.1 (List.mem_map_of_mem hp)
        exact Nat.lt_irrefl _ hlt
      · rw [List.append_nil]
        exact hreplies

theorem SharedInv.undisturbed (hinv : SharedInv geom s evq readPtr wptr) : Undisturbed s where
  byRx := by
    intro taker htaker
    rw [hinv.takers] at htaker
    rcases List.mem_append.mp htaker with hold | hnew
    · obtain ⟨p, -, rfl⟩ := List.mem_map.mp hold
      exact ⟨p.1, rfl⟩
    · unfold SharedSys.inHand at hnew
      split at hnew
      · split at hnew
        · exact ⟨_, List.mem_singleton.mp hnew⟩
        · cases hnew
      · cases hnew
  once := hinv.takers_nodup
  returned := by
    intro k number htaker
    rw [hinv.takers, List.getElem?_append] at htaker
    split at htaker
    · -- a call that has returned
      rw [List.getElem?_map] at htaker
      obtain ⟨⟨n, reply⟩, hreply, hn⟩ := Option.map_eq_some_iff.mp htaker
      obtain rfl : n = number := Taker.rx.inj hn
      have hview : (s.replies.map Prod.snd)[k]? = some reply := by
        rw [List.getElem?_map, hreply]
        rfl
      obtain ⟨f, hf, hdelivers⟩ := hinv.view.answered k reply hview
      exact ⟨f, hf, Or.inr ⟨reply, List.mem_of_getElem? hreply, hdelivers⟩⟩
    · -- the call that holds an event
      rename_i hk
      rw [List.length_map] at hk htaker
      unfold SharedSys.inHand at htaker
      split at htaker
      · rename_i number' pc hcall
        split at htaker
        · rename_i hone
          obtain ⟨hlt, hnumber⟩ := List.getElem?_eq_some_iff.mp htaker
          rw [List.length_singleton] at hlt
          rw [List.getElem_singleton] at hnumber
          obtain rfl := Taker.rx.inj hnumber
          have hle := hinv.view.takenLe
          simp only [RxIoctlSys.taken, SharedSys.rxView, SharedSys.rxCall, hcall,
            Option.map_some, Option.getD_some, hone, List.length_map] at hle
          have hfill : k < s.fills.length := by omega
          exact ⟨_, List.getElem?_eq_getElem hfill, Or.inl ⟨pc, hcall⟩⟩
        · cases htaker
      · cases htaker
  rxHead := by
    intro hnone
    have hhead : s.sc.rxHead = (s.replies.map Prod.snd).length % 512 := hinv.view.rxHead
    rw [hinv.takers, hnone, List.append_nil, hhead, List.length_map, List.length_map]

/-! ## Traces of a transmit call -/

/-- A transmit call has consumed a receive event. -/
def TxTook (s : SharedSys) : Prop := ∃ number, Taker.tx number ∈ s.takers

theorem takers_recorded (s : SharedSys) (c : Call) : s.takers ⊆ (s.recorded c).takers := by
  unfold SharedSys.recorded
  split
  · exact fun _ hmem => hmem
  · intro taker hmem
    change taker ∈ if _ then _ else _
    split
    · exact List.mem_append_left _ hmem
    · exact hmem

theorem takers_movedRx (s : SharedSys) (number : Nat) (out : Softc × RxStatus) :
    (s.movedRx number out).takers = s.takers := by
  unfold SharedSys.movedRx
  split <;> rfl

theorem takers_movedTx (s : SharedSys) (number : Nat) (out : Softc × TxStatus) :
    (s.movedTx number out).takers = s.takers := by
  unfold SharedSys.movedTx
  split <;> rfl

theorem takers_moved (s : SharedSys) (copyErr : Nat) (c : Call) :
    (s.moved copyErr c).takers = (s.recorded c).takers := by
  unfold SharedSys.moved
  split
  · exact takers_movedRx _ _ _
  · exact takers_movedTx _ _ _

theorem takers_step {l : SharedLabel} (hstep : sharedStep s l = some s') :
    s.takers ⊆ s'.takers := by
  cases l with
  | fill w image =>
    simp only [sharedStep] at hstep
    split at hstep
    · obtain rfl := Option.some.inj hstep
      exact fun _ hmem => hmem
    · cases hstep
  | event w =>
    simp only [sharedStep] at hstep
    split at hstep
    · obtain rfl := Option.some.inj hstep
      exact fun _ hmem => hmem
    · cases hstep
  | enterRx =>
    simp only [sharedStep] at hstep
    split at hstep
    · cases hstep
    · obtain rfl := Option.some.inj hstep
      exact fun _ hmem => hmem
  | enterTx req =>
    simp only [sharedStep] at hstep
    split at hstep
    · obtain rfl := Option.some.inj hstep
      exact fun _ hmem => hmem
    · split at hstep
      · cases hstep
      · obtain rfl := Option.some.inj hstep
        exact fun _ hmem => hmem
  | cpu copyErr =>
    obtain ⟨c, -, rfl⟩ := Option.map_eq_some_iff.mp hstep
    rw [takers_moved]
    exact takers_recorded s c

theorem txTook_of_not_leaves {l : SharedLabel} (hbad : ¬ TxLeavesRx s l)
    (hstep : sharedStep s l = some s') : TxTook s' := by
  cases l with
  | fill w image => exact absurd trivial hbad
  | event w => exact absurd trivial hbad
  | enterRx => exact absurd trivial hbad
  | enterTx req => exact absurd trivial hbad
  | cpu copyErr =>
    simp only [TxLeavesRx] at hbad
    push Not at hbad
    obtain ⟨c, hcall, ⟨pc, hpc⟩, hpolling, hrx⟩ := hbad
    obtain ⟨c', hcall', rfl⟩ := Option.map_eq_some_iff.mp hstep
    have hcall'' : s.call = some c := hcall
    rw [hcall'] at hcall''
    obtain rfl := Option.some.inj hcall''
    have htake : evqTake s.sc.dev.evqRing s.sc.dataEvqReadPtr = some
        (s.sc.dev.evqRing s.sc.dataEvqReadPtr,
          Function.update s.sc.dev.evqRing s.sc.dataEvqReadPtr 0#64,
          (s.sc.dataEvqReadPtr + 1) &&& (numEvqEntry - 1)) := by
      rw [evqTake, if_neg hrx.2]
    have htaker : c'.taker = .tx c'.number := by simp only [Call.taker, hpc]
    refine ⟨c'.number, ?_⟩
    rw [takers_moved, recorded_of_take hpolling htake]
    change _ ∈ if _ then _ else _
    rw [if_pos hrx.1, htaker]
    exact List.mem_append_right _ List.mem_cons_self

/-! ## The result -/

/-- With `copyout` succeeding, transmit calls leave the receive path undisturbed
exactly if none of their reads of the event queue finds a receive event. -/
theorem tx_leaves_rx_undisturbed_iff {geom : Geometry} {s t : SharedSys}
    {labels : List SharedLabel} (hstart : SharedStart geom s)
    (hcopy : Obeys sharedStep CopyoutWorks s labels)
    (hrun : exec sharedStep s labels = some t) :
    Undisturbed t ↔ Obeys sharedStep TxLeavesRx s labels := by
  constructor
  · intro hundisturbed
    have hkeeps : ∀ s a s', TxTook s → sharedStep s a = some s' → TxTook s' := by
      rintro s a s' ⟨number, hmem⟩ hstep
      exact ⟨number, takers_step hstep hmem⟩
    apply obeys_of_no_trace hkeeps (fun _ _ _ => txTook_of_not_leaves) hrun
    rintro ⟨number, hmem⟩
    obtain ⟨number', hrx⟩ := hundisturbed.byRx _ hmem
    cases hrx
  · intro hleaves
    have hok : SharedOk geom s := ⟨_, _, _, sharedInv_start hstart⟩
    obtain ⟨evq, readPtr, wptr, hinv⟩ :=
      exec_invariant_of_obeys sharedOk_step hok (hcopy.and hleaves) hrun
    exact hinv.undisturbed

/-- The driver after attach, before any traffic. -/
def sharedAfterAttach : SharedSys where
  sc := rxIoctlAfterAttach.sc
  call := none
  calls := 0
  fillPos := 0
  evqWptr := 0
  pending := []
  fills := []
  takers := []
  replies := []

theorem sharedStart_afterAttach : SharedStart sampleGeometry sharedAfterAttach where
  base := rfl
  primed := ⟨allocDmaResources, rfl⟩
  rxHead := rfl
  readPtrLt := by decide
  vacant := fun _ _ => Or.inl rfl
  idle := rfl
  fillPos := rfl
  evqWptr := rfl
  nonePending := rfl
  noFills := rfl
  noTakers := rfl
  noReplies := rfl

/-- A packet of 60 bytes. -/
def sampleTxReq : TxReq where
  tag := true
  permLoad := true
  capLen := 60
  length := 60
  bytes := fun _ => 0#8

/-- A transmit call up to its first read of the event queue. -/
def txUpToPoll : List SharedLabel := [.enterTx sampleTxReq, .cpu 0, .cpu 0, .cpu 0]

/-- A receive call that finds its event at the first read. -/
def rxAtOnce : List SharedLabel := [.enterRx, .cpu 0, .cpu 0, .cpu 0, .cpu 0, .cpu 0]

theorem obeys_copyoutWorks {labels : List SharedLabel}
    (hzero : ∀ copyErr, .cpu copyErr ∈ labels → copyErr = 0) (s : SharedSys) :
    Obeys sharedStep CopyoutWorks s labels := by
  apply obeys_of_labels
  intro a ha s
  cases a with
  | cpu copyErr => exact fun _ _ _ => hzero copyErr ha
  | fill w image => trivial
  | event w => trivial
  | enterRx => trivial
  | enterTx req => trivial

/-- A transmit call, its completion, then a frame and a receive call. -/
def txThenRx : List SharedLabel :=
  txUpToPoll ++ [.event 0x2000000000000000#64, .cpu 0, .cpu 0,
    .fill 0x4e#64 fun _ => 1#8] ++ rxAtOnce

theorem tx_then_rx_undisturbed :
    ∃ t, SharedStart sampleGeometry sharedAfterAttach ∧
      Obeys sharedStep CopyoutWorks sharedAfterAttach txThenRx ∧
      exec sharedStep sharedAfterAttach txThenRx = some t ∧ t.takers = [.rx 1] ∧
      Undisturbed t := by
  have hcopy : Obeys sharedStep CopyoutWorks sharedAfterAttach txThenRx := by
    apply obeys_copyoutWorks
    simp [txThenRx, txUpToPoll, rxAtOnce]
  refine ⟨_, sharedStart_afterAttach, hcopy, rfl, rfl, ?_⟩
  exact (tx_leaves_rx_undisturbed_iff sharedStart_afterAttach hcopy rfl).mpr (by decide +kernel)

/-- A frame arrives before the completion that a transmit call waits for, and a second
one after it. -/
def frameBeforeCompletion : List SharedLabel :=
  [.fill 0x4e#64 fun _ => 1#8] ++ txUpToPoll ++
    [.cpu 0, .event 0x2000000000000000#64, .cpu 0, .cpu 0,
      .fill 0x4e#64 fun _ => 2#8] ++ rxAtOnce

/-- The transmit call eats the first frame's event; the receive call, answering the
second frame's, returns slot 0. -/
theorem tx_call_eats_rx_event :
    ∃ t, SharedStart sampleGeometry sharedAfterAttach ∧
      Obeys sharedStep CopyoutWorks sharedAfterAttach frameBeforeCompletion ∧
      exec sharedStep sharedAfterAttach frameBeforeCompletion = some t ∧
      t.takers = [.tx 0, .rx 1] ∧ t.fills.map RxFill.slot = [0, 1] ∧
      t.replies.map (fun p => (p.1, p.2.slot)) = [(1, 0)] ∧ t.sc.rxHead = 1 ∧
      ¬ Undisturbed t := by
  obtain ⟨t, hrun, htakers, hslots, hreplies, hhead⟩ :
      ∃ t, exec sharedStep sharedAfterAttach frameBeforeCompletion = some t ∧
        t.takers = [.tx 0, .rx 1] ∧ t.fills.map RxFill.slot = [0, 1] ∧
        t.replies.map (fun p => (p.1, p.2.slot)) = [(1, 0)] ∧ t.sc.rxHead = 1 :=
    ⟨_, rfl, rfl, rfl, rfl, rfl⟩
  refine ⟨t, sharedStart_afterAttach, ?_, hrun, htakers, hslots, hreplies, hhead, ?_⟩
  · apply obeys_copyoutWorks
    simp [frameBeforeCompletion, txUpToPoll, rxAtOnce]
  · intro hundisturbed
    obtain ⟨number, htx⟩ := hundisturbed.byRx (.tx 0) (htakers ▸ List.mem_cons_self)
    cases htx

end Kernel
end SfcCapio
