import SfcCapio.Foundation.Runs
import SfcCapio.Kernel.RxIoctl
import SfcCapio.Bench.Port

/-!
# Two ports on one cable

The two physical functions of the card are joined by a cable.  Frames that a port's card has
fetched are under way in the order of fetching; each arrives at the other port or is lost.
The card of either port and the program take their steps in any order.

No call of the direct path checks whether a slot is still in use: `tx_post` takes the next TX
slot, and nothing returns an RX slot to the card but the position of its ring.  `Windowed` is
what a program has to see to instead: fewer than 511 frames are posted at a port beyond those
received at the other one when it posts, and no receive event of the last poll is left over
when it polls again.  Under it the network is two lossy FIFO lines.
-/

namespace SfcCapio
namespace Bench

open Foundation Hardware Userlib

/-- The two ports. -/
inductive Pf
  | pf0
  | pf1
deriving DecidableEq, Repr

namespace Pf

/-- The port at the other end of the cable. -/
def peer : Pf → Pf
  | pf0 => pf1
  | pf1 => pf0

@[simp] theorem peer_peer (p : Pf) : p.peer.peer = p := by
  cases p <;> rfl

theorem peer_ne (p : Pf) : p.peer ≠ p := by
  cases p <;> decide

theorem forall_of {P : Pf → Prop} (p : Pf) (hself : P p) (hpeer : P p.peer) : ∀ q, P q := by
  intro q
  cases p <;> cases q <;> assumption

end Pf

/-! ## The network -/

/-- `wire p` are the frames on their way from `p`, oldest first.  `posted`, `received` and
`lost` are kept for the record. -/
structure Net where
  port : Pf → Port
  wire : Pf → List Frame
  posted : Pf → List Frame
  received : Pf → List Frame
  lost : Pf → Nat

/-- A move of a card or of the cable. -/
inductive CardLabel
  /-- The card of `p` fetches a frame and sends it. -/
  | fetch (p : Pf)
  /-- A frame of `p` is written to a buffer of the other port and announced by `w`. -/
  | arrive (p : Pf) (img : Nat → BitVec 8) (w : BitVec 64)
  /-- A frame of `p` gets lost. -/
  | lose (p : Pf)
  /-- The card of `p` writes a completion or another event that is no receive event. -/
  | event (p : Pf) (w : BitVec 64)

namespace Net

def card (net : Net) : CardLabel → Option Net
  | .fetch p =>
    if (net.port p).CanFetch then
      some
        { net with
          port := Function.update net.port p (net.port p).fetch.2
          wire := Function.update net.wire p (net.wire p ++ [(net.port p).fetch.1]) }
    else none
  | .arrive p img w =>
    match net.wire p with
    | [] => none
    | frame :: rest =>
      if (net.port p.peer).EvqFree ∧ Carries frame img ∧ Announces w frame then
        some
          { net with
            port := Function.update net.port p.peer ((net.port p.peer).filled img w)
            wire := Function.update net.wire p rest }
      else none
  | .lose p =>
    match net.wire p with
    | [] => none
    | _ :: rest =>
      some
        { net with
          wire := Function.update net.wire p rest
          lost := Function.update net.lost p (net.lost p + 1) }
  | .event p w =>
    if (net.port p).EvqFree ∧ evCode w ≠ 0 ∧ ¬ slotVacant w then
      some { net with port := Function.update net.port p ((net.port p).written w) }
    else none

/-- `sfc7120_tx_post` at `p`. -/
def post (net : Net) (p : Pf) (frame : Frame) : Int × Net :=
  let out := (net.port p).post frame
  (out.1,
    { net with
      port := Function.update net.port p out.2
      posted :=
        if out.1 = 0 then Function.update net.posted p (net.posted p ++ [frame])
        else net.posted })

/-- `sfc7120_poll` at `p`. -/
def poll (net : Net) (p : Pf) (maxEvs : Nat) : Option (List Ev) × Net :=
  let out := (net.port p).poll maxEvs
  (out.1, { net with port := Function.update net.port p out.2 })

/-- One iteration of a loop over the events polled at `p`. -/
def next (net : Net) (p : Pf) : Service × Net :=
  let out := (net.port p).next
  (out.1,
    { net with
      port := Function.update net.port p out.2
      received :=
        match out.1 with
        | .frame frame => Function.update net.received p (net.received p ++ [frame])
        | _ => net.received })

end Net

/-- A step of the network: a card's, or a call of some program. -/
inductive NetLabel
  | card (c : CardLabel)
  | post (p : Pf) (frame : Frame)
  | poll (p : Pf) (maxEvs : Nat)
  | next (p : Pf)

def netStep (net : Net) : NetLabel → Option Net
  | .card c => net.card c
  | .post p frame => some (net.post p frame).2
  | .poll p maxEvs => some (net.poll p maxEvs).2
  | .next p => some (net.next p).2

/-- Posted frames that have not been received are fewer than the slots of a ring, and the
events of a poll are used up before the next. -/
def Windowed (net : Net) : NetLabel → Prop
  | .post p _ => (net.posted p).length + 1 < (net.received p.peer).length + 512
  | .poll p maxEvs =>
    0 < maxEvs ∧ ((net.port p).evs.filter fun ev => ev.type = .rx) = []
  | _ => True

instance (net : Net) (l : NetLabel) : Decidable (Windowed net l) :=
  match l with
  | .post _ _ => inferInstanceAs (Decidable (_ < _))
  | .poll _ _ => inferInstanceAs (Decidable (_ ∧ _))
  | .card _ | .next _ => inferInstanceAs (Decidable True)

/-- From `p` to its peer nothing is left to do: the card stands at the doorbell, the cable is
empty, and the peer has no receive event. -/
def Net.Idle (net : Net) (p : Pf) : Prop :=
  ¬ (net.port p).CanFetch ∧ net.wire p = [] ∧ (net.port p.peer).Quiet

instance (net : Net) (p : Pf) : Decidable (net.Idle p) := inferInstanceAs (Decidable (_ ∧ _))

/-- Both ports without a frame under way, and nothing on the cable; the record begins here. -/
structure NetStart (net : Net) : Prop where
  port : ∀ p, PortStart (net.port p)
  wire : ∀ p, net.wire p = []
  posted : ∀ p, net.posted p = []
  received : ∀ p, net.received p = []
  lost : ∀ p, net.lost p = 0

/-! ## Refinement -/

/-- The way from `p` to its peer is the line: `p` holds the transmit queue, the peer the
receive queue. -/
structure Follows (net : Net) (line : Pf → Line Frame) (p : Pf) : Prop where
  port : PortHolds (net.port p) (line p).tx (line p.peer).rx
  wire : (line p).wire = net.wire p
  posted : (line p).pushed = net.posted p
  received : (line p).taken = net.received p.peer
  lost : (line p).lost = net.lost p
  conserves : (line p).Conserves
  window : (net.posted p).length < (net.received p.peer).length + 512

/-- The network is two FIFO lines. -/
def IsFifo (net : Net) : Prop := ∃ line, ∀ p, Follows net line p

theorem isFifo_start {net : Net} (hstart : NetStart net) : IsFifo net := by
  refine ⟨fun _ => Line.idle, fun p => ?_⟩
  refine ⟨portHolds_start (hstart.port p), (hstart.wire p).symm, (hstart.posted p).symm,
    (hstart.received _).symm, (hstart.lost p).symm, Line.conserves_idle, ?_⟩
  rw [hstart.posted p]
  exact Nat.lt_of_lt_of_le (by decide) (Nat.le_add_left _ _)

section Steps

variable {net net' : Net} {line : Pf → Line Frame} {p : Pf}

/-- One line is replaced; the ports at its ends hold it. -/
theorem isFifo_of_line (h : ∀ q, Follows net line q) (p : Pf) (l : Line Frame)
    (htx : PortHolds (net'.port p) l.tx (line p.peer).rx)
    (hrx : PortHolds (net'.port p.peer) (line p.peer).tx l.rx)
    (hwire : net'.wire = Function.update net.wire p l.wire)
    (hposted : net'.posted = Function.update net.posted p l.pushed)
    (hreceived : net'.received = Function.update net.received p.peer l.taken)
    (hlost : net'.lost = Function.update net.lost p l.lost) (hconserves : l.Conserves)
    (hwindow : l.pushed.length < l.taken.length + 512) : IsFifo net' := by
  have hself : Function.update line p l p = l := Function.update_self _ _ _
  have hpeer : Function.update line p l p.peer = line p.peer :=
    Function.update_of_ne p.peer_ne _ _
  refine ⟨Function.update line p l, Pf.forall_of p ?_ ?_⟩
  · constructor
    · rw [hself, hpeer]
      exact htx
    · rw [hself, hwire, Function.update_self]
    · rw [hself, hposted, Function.update_self]
    · rw [hself, hreceived, Function.update_self]
    · rw [hself, hlost, Function.update_self]
    · rw [hself]
      exact hconserves
    · rw [hposted, hreceived, Function.update_self, Function.update_self]
      exact hwindow
  · have hother := h p.peer
    have hreceived' : net'.received p = net.received p := by
      rw [hreceived, Function.update_of_ne p.peer_ne.symm]
    have hposted' : net'.posted p.peer = net.posted p.peer := by
      rw [hposted, Function.update_of_ne p.peer_ne]
    constructor
    · rw [hpeer, Pf.peer_peer, hself]
      exact hrx
    · rw [hpeer, hwire, Function.update_of_ne p.peer_ne]
      exact hother.wire
    · rw [hpeer, hposted']
      exact hother.posted
    · have htaken := hother.received
      rw [Pf.peer_peer] at htaken
      rw [hpeer, Pf.peer_peer, hreceived']
      exact htaken
    · rw [hpeer, hlost, Function.update_of_ne p.peer_ne]
      exact hother.lost
    · rw [hpeer]
      exact hother.conserves
    · have hbound := hother.window
      rw [Pf.peer_peer] at hbound ⊢
      rw [hposted', hreceived']
      exact hbound

theorem isFifo_of_port (h : ∀ q, Follows net line q) {port : Port}
    (hport : PortHolds port (line p).tx (line p.peer).rx) :
    IsFifo { net with port := Function.update net.port p port } := by
  have hp := h p
  have hpeer := (h p.peer).port
  rw [Pf.peer_peer] at hpeer
  refine isFifo_of_line h p (line p) ?_ ?_ ?_ ?_ ?_ ?_ hp.conserves ?_
  · simp only [Function.update_self]
    exact hport
  · simp only [Function.update_of_ne p.peer_ne]
    exact hpeer
  · rw [hp.wire, Function.update_eq_self]
  · rw [hp.posted, Function.update_eq_self]
  · rw [hp.received, Function.update_eq_self]
  · rw [hp.lost, Function.update_eq_self]
  · rw [hp.posted, hp.received]
    exact hp.window

/-- Frames between a transmit queue and the other port's program are fewer than 512. -/
theorem Follows.in_flight_lt (h : Follows net line p) :
    (line p).rx.length + (line p).wire.length + (line p).tx.length < 512 := by
  have hlengths := h.conserves.lengths
  have hwindow := h.window
  rw [← h.posted, ← h.received] at hwindow
  omega

theorem isFifo_fetch (h : ∀ q, Follows net line q)
    (hstep : net.card (.fetch p) = some net') : IsFifo net' := by
  simp only [Net.card] at hstep
  split at hstep
  · rename_i hcan
    obtain rfl := Option.some.inj hstep
    have hp := h p
    have hpeer := (h p.peer).port
    rw [Pf.peer_peer] at hpeer
    obtain ⟨frame, rest, htx, hframe, hport⟩ := hp.port.fetch hcan
    refine isFifo_of_line h p ((line p).fetch frame rest) ?_ ?_ ?_ ?_ ?_ ?_
      (hp.conserves.fetch htx) ?_
    · simp only [Function.update_self]
      exact hport
    · simp only [Function.update_of_ne p.peer_ne]
      exact hpeer
    · simp only [Line.fetch, hp.wire, hframe]
    · simp [Line.fetch, hp.posted]
    · simp [Line.fetch, hp.received]
    · simp [Line.fetch, hp.lost]
    · simp only [Line.fetch, hp.posted, hp.received]
      exact hp.window
  · cases hstep

theorem isFifo_arrive (h : ∀ q, Follows net line q) {img : Nat → BitVec 8} {w : BitVec 64}
    (hstep : net.card (.arrive p img w) = some net') : IsFifo net' := by
  have hp := h p
  have hpeer := (h p.peer).port
  rw [Pf.peer_peer] at hpeer
  simp only [Net.card] at hstep
  split at hstep
  · cases hstep
  · rename_i frame rest hwire
    split at hstep
    · rename_i hguard
      obtain ⟨hfree, hcarries, hw⟩ := hguard
      obtain rfl := Option.some.inj hstep
      have hbound := hp.in_flight_lt
      have hline : (line p).wire = frame :: rest := hp.wire.trans hwire
      refine isFifo_of_line h p ((line p).arrive frame rest) ?_ ?_ rfl ?_ ?_ ?_
        (hp.conserves.arrive hline) ?_
      · simp only [Function.update_of_ne p.peer_ne.symm]
        exact hp.port
      · simp only [Function.update_self]
        exact hpeer.fill (by omega) hfree hcarries hw
      · simp [Line.arrive, hp.posted]
      · simp [Line.arrive, hp.received]
      · simp [Line.arrive, hp.lost]
      · simp only [Line.arrive, hp.posted, hp.received]
        exact hp.window
    · cases hstep

theorem isFifo_lose (h : ∀ q, Follows net line q)
    (hstep : net.card (.lose p) = some net') : IsFifo net' := by
  have hp := h p
  have hpeer := (h p.peer).port
  rw [Pf.peer_peer] at hpeer
  simp only [Net.card] at hstep
  split at hstep
  · cases hstep
  · rename_i frame rest hwire
    obtain rfl := Option.some.inj hstep
    have hline : (line p).wire = frame :: rest := hp.wire.trans hwire
    refine isFifo_of_line h p ((line p).lose rest) hp.port hpeer rfl ?_ ?_ ?_
      (hp.conserves.lose hline) ?_
    · simp [Line.lose, hp.posted]
    · simp [Line.lose, hp.received]
    · simp only [Line.lose, hp.lost]
    · simp only [Line.lose, hp.posted, hp.received]
      exact hp.window

theorem isFifo_event (h : ∀ q, Follows net line q) {w : BitVec 64}
    (hstep : net.card (.event p w) = some net') : IsFifo net' := by
  simp only [Net.card] at hstep
  split at hstep
  · rename_i hguard
    obtain ⟨hfree, hcode, hw⟩ := hguard
    obtain rfl := Option.some.inj hstep
    exact isFifo_of_port h ((h p).port.event hfree hcode hw)
  · cases hstep

/-- The cards and the cable keep the lines. -/
theorem IsFifo.card (h : IsFifo net) {c : CardLabel} (hstep : net.card c = some net') :
    IsFifo net' := by
  obtain ⟨line, h⟩ := h
  cases c with
  | fetch p => exact isFifo_fetch h hstep
  | arrive p img w => exact isFifo_arrive h hstep
  | lose p => exact isFifo_lose h hstep
  | event p w => exact isFifo_event h hstep

/-- A post within the window is accepted, and the frame is the last one posted. -/
theorem IsFifo.post (h : IsFifo net)
    (hwindow : (net.posted p).length + 1 < (net.received p.peer).length + 512) (frame : Frame)
    (hpos : 0 < frame.length) (hlen : frame.length ≤ 2048) :
    (net.post p frame).1 = 0 ∧
      (net.post p frame).2.posted = Function.update net.posted p (net.posted p ++ [frame]) ∧
      IsFifo (net.post p frame).2 := by
  obtain ⟨line, h⟩ := h
  have hp := h p
  have hpeer := (h p.peer).port
  rw [Pf.peer_peer] at hpeer
  have hlengths := hp.conserves.lengths
  have hbound : (line p).tx.length + 1 < 512 := by
    rw [← hp.posted, ← hp.received] at hwindow
    omega
  obtain ⟨hrc, hport⟩ := hp.port.post hbound hpos hlen
  have hposted : (net.post p frame).2.posted =
      Function.update net.posted p (net.posted p ++ [frame]) := by
    simp only [Net.post, hrc, if_true]
  refine ⟨hrc, hposted, isFifo_of_line h p ((line p).push frame) ?_ ?_ ?_ ?_ ?_ ?_
    (hp.conserves.push frame) ?_⟩
  · simp only [Net.post, Function.update_self]
    exact hport
  · simp only [Net.post, Function.update_of_ne p.peer_ne]
    exact hpeer
  · simp [Line.push, Net.post, hp.wire]
  · rw [hposted]
    simp only [Line.push, hp.posted]
  · simp [Line.push, Net.post, hp.received]
  · simp [Line.push, Net.post, hp.lost]
  · simp only [Line.push, hp.posted, hp.received, List.length_append, List.length_singleton]
    exact hwindow

theorem Net.post_of_refused {frame : Frame} (hlen : ¬ (0 < frame.length ∧ frame.length ≤ 2048)) :
    (net.post p frame).2 = net := by
  have hbad : txLenOk frame.length = false := by
    rw [Bool.eq_false_iff, ne_eq, txLenOk_iff]
    exact hlen
  have hpost : (net.port p).post frame = (-1, net.port p) := by
    simp only [Port.post, txPost, hbad]
    split <;> rfl
  simp [Net.post, hpost]

/-- A poll succeeds; nothing has been polled away. -/
theorem IsFifo.poll (h : IsFifo net) (maxEvs : Nat) (hmax : 0 < maxEvs)
    (hdone : ((net.port p).evs.filter fun ev => ev.type = .rx) = []) :
    ∃ evs, (net.poll p maxEvs).1 = some evs ∧ ((net.poll p maxEvs).2.port p).evs = evs ∧
      IsFifo (net.poll p maxEvs).2 := by
  obtain ⟨line, h⟩ := h
  obtain ⟨evs, hevs, hkept, hport⟩ := (h p).port.poll hdone hmax
  refine ⟨evs, hevs, ?_, isFifo_of_port h hport⟩
  simp only [Net.poll, Function.update_self]
  exact hkept

theorem IsFifo.next_other (h : IsFifo net) {ev : Ev} {evs : List Ev}
    (hevs : (net.port p).evs = ev :: evs) (htype : ev.type ≠ .rx) :
    (net.next p).1 = .other ∧ (net.next p).2.received = net.received ∧
      ((net.next p).2.port p).evs = evs ∧ IsFifo (net.next p).2 := by
  obtain ⟨line, h⟩ := h
  obtain ⟨hnext, hport⟩ := (h p).port.next_other hevs htype
  simp only [Net.next, hnext, Function.update_self, true_and]
  exact isFifo_of_port h hport

/-- A receive event brings a frame, the next that the program has not received. -/
theorem IsFifo.next_rx (h : IsFifo net) {ev : Ev} {evs : List Ev}
    (hevs : (net.port p).evs = ev :: evs) (htype : ev.type = .rx) :
    ∃ frame, (net.next p).1 = .frame frame ∧
      (net.next p).2.received = Function.update net.received p (net.received p ++ [frame]) ∧
      ((net.next p).2.port p).evs = evs ∧ IsFifo (net.next p).2 := by
  obtain ⟨line, h⟩ := h
  obtain ⟨q, rfl⟩ : ∃ q, p = Pf.peer q := ⟨p.peer, p.peer_peer.symm⟩
  have hq := h q
  have hpeer := (h q.peer).port
  rw [Pf.peer_peer] at hpeer
  obtain ⟨frame, rest, hrx, hframe, hkept, hport⟩ := hpeer.next_rx hevs htype
  have hreceived : (net.next q.peer).2.received =
      Function.update net.received q.peer (net.received q.peer ++ [frame]) := by
    simp only [Net.next, hframe]
  refine ⟨frame, hframe, hreceived, ?_, isFifo_of_line h q ((line q).take frame rest) ?_ ?_ ?_
    ?_ ?_ ?_ (hq.conserves.take hrx) ?_⟩
  · simp only [Net.next, Function.update_self]
    exact hkept
  · simp only [Net.next, Function.update_of_ne q.peer_ne.symm]
    exact hq.port
  · simp only [Net.next, Function.update_self]
    exact hport
  · simp [Line.take, Net.next, hq.wire]
  · simp [Line.take, Net.next, hq.posted]
  · rw [hreceived]
    simp only [Line.take, hq.received]
  · simp [Line.take, Net.next, hq.lost]
  · have hwindow := hq.window
    simp only [Line.take, hq.posted, hq.received, List.length_append, List.length_singleton]
    omega

theorem Net.next_of_nil (hevs : (net.port p).evs = []) : net.next p = (.over, net) := by
  have hnext : (net.port p).next = (.over, net.port p) := by simp only [Port.next, hevs]
  simp only [Net.next, hnext, Function.update_eq_self]

theorem IsFifo.next (h : IsFifo net) : IsFifo (net.next p).2 := by
  cases hevs : (net.port p).evs with
  | nil =>
    rw [Net.next_of_nil hevs]
    exact h
  | cons ev evs =>
    by_cases htype : ev.type = .rx
    · obtain ⟨frame, -, -, -, hfifo⟩ := h.next_rx hevs htype
      exact hfifo
    · obtain ⟨-, -, -, hfifo⟩ := h.next_other hevs htype
      exact hfifo

theorem isFifo_step (net : Net) (l : NetLabel) (net' : Net) (h : IsFifo net)
    (hwindow : Windowed net l) (hstep : netStep net l = some net') : IsFifo net' := by
  cases l with
  | card c => exact h.card hstep
  | post p frame =>
    obtain rfl := Option.some.inj hstep
    by_cases hlen : 0 < frame.length ∧ frame.length ≤ 2048
    · exact (h.post hwindow frame hlen.1 hlen.2).2.2
    · rw [Net.post_of_refused hlen]
      exact h
  | poll p maxEvs =>
    obtain rfl := Option.some.inj hstep
    obtain ⟨evs, -, -, hfifo⟩ := h.poll maxEvs hwindow.1 hwindow.2
    exact hfifo
  | next p =>
    obtain rfl := Option.some.inj hstep
    exact h.next

end Steps

/-! ## What arrives -/

section Arrivals

variable {net : Net}

/-- Frames are received in the order of posting, and unchanged. -/
theorem IsFifo.received_sublist (h : IsFifo net) (p : Pf) :
    (net.received p.peer).Sublist (net.posted p) := by
  obtain ⟨line, h⟩ := h
  rw [← (h p).received, ← (h p).posted]
  exact (h p).conserves.taken_sublist

theorem IsFifo.received_prefix (h : IsFifo net) {p : Pf} (hlost : net.lost p = 0) :
    net.received p.peer <+: net.posted p := by
  obtain ⟨line, h⟩ := h
  rw [← (h p).received, ← (h p).posted]
  exact (h p).conserves.taken_prefix ((h p).lost.trans hlost)

/-- Once nothing is left to do, every frame has been received or was lost on the cable. -/
theorem IsFifo.accounted (h : IsFifo net) {p : Pf} (hidle : net.Idle p) :
    (net.posted p).length = (net.received p.peer).length + net.lost p := by
  obtain ⟨line, h⟩ := h
  obtain ⟨hfetched, hwire, hquiet⟩ := hidle
  have hp := h p
  have hpeer := (h p.peer).port
  rw [Pf.peer_peer] at hpeer
  have hlengths := hp.conserves.lengths
  rw [hp.port.tx_of_fetched hfetched, hpeer.rx_of_quiet hquiet, hp.wire, hwire, hp.posted,
    hp.received, hp.lost] at hlengths
  simpa using hlengths.symm

end Arrivals

/-! ## What a step leaves alone -/

section Frame

variable {net net' : Net} {p q : Pf}

/-- Posts, receipts and polled events are the program's. -/
theorem Net.card_frame {c : CardLabel} (hstep : net.card c = some net') :
    net'.posted = net.posted ∧ net'.received = net.received ∧
      ∀ q, (net'.port q).evs = (net.port q).evs := by
  have hevs : ∀ (r : Pf) (port : Port), port.evs = (net.port r).evs →
      ∀ q, (Function.update net.port r port q).evs = (net.port q).evs := by
    intro r port hport q
    by_cases hq : q = r
    · rw [hq, Function.update_self, hport]
    · rw [Function.update_of_ne hq]
  cases c with
  | fetch p =>
    simp only [Net.card] at hstep
    split at hstep
    · obtain rfl := Option.some.inj hstep
      exact ⟨rfl, rfl, hevs p _ rfl⟩
    · cases hstep
  | arrive p img w =>
    simp only [Net.card] at hstep
    split at hstep
    · cases hstep
    · split at hstep
      · obtain rfl := Option.some.inj hstep
        exact ⟨rfl, rfl, hevs p.peer _ rfl⟩
      · cases hstep
  | lose p =>
    simp only [Net.card] at hstep
    split at hstep
    · cases hstep
    · obtain rfl := Option.some.inj hstep
      exact ⟨rfl, rfl, fun _ => rfl⟩
  | event p w =>
    simp only [Net.card] at hstep
    split at hstep
    · obtain rfl := Option.some.inj hstep
      exact ⟨rfl, rfl, hevs p _ rfl⟩
    · cases hstep

@[simp] theorem Net.evs_post (frame : Frame) :
    ((net.post p frame).2.port q).evs = (net.port q).evs := by
  by_cases hq : q = p
  · simp [Net.post, Port.post, hq]
  · simp [Net.post, Function.update_of_ne hq]

theorem Net.evs_poll_of_ne (hq : q ≠ p) (maxEvs : Nat) :
    ((net.poll p maxEvs).2.port q).evs = (net.port q).evs := by
  simp [Net.poll, Function.update_of_ne hq]

theorem Net.evs_next_of_ne (hq : q ≠ p) : ((net.next p).2.port q).evs = (net.port q).evs := by
  simp [Net.next, Function.update_of_ne hq]

end Frame

/-- Any program that keeps to the window, at any speed of the cards and with any losses:
what is received at a port is what was posted at the other, in that order and byte for byte,
without the frames lost; nothing lost, it is an initial part; and once nothing is left to do,
no frame is missing but those lost. -/
theorem windowed_calls_deliver_in_order {net net' : Net} {labels : List NetLabel}
    (hstart : NetStart net) (hwindow : Obeys netStep Windowed net labels)
    (hrun : exec netStep net labels = some net') (p : Pf) :
    (net'.received p.peer).Sublist (net'.posted p) ∧
      (net'.lost p = 0 → net'.received p.peer <+: net'.posted p) ∧
      (net'.Idle p →
        (net'.posted p).length = (net'.received p.peer).length + net'.lost p) := by
  have hfifo := exec_invariant_of_obeys isFifo_step (isFifo_start hstart) hwindow hrun
  exact ⟨hfifo.received_sublist p, hfifo.received_prefix, hfifo.accounted⟩

/-- A port in the state that attach leaves. -/
def attachedPort : Port where
  geom := Kernel.sampleGeometry
  session := (rxAfterAttach 64).session
  fetchPos := 0
  fillPos := 0
  evqWptr := 0
  evs := []

theorem portStart_attachedPort : PortStart attachedPort where
  ready := ⟨rfl, rfl, rfl, rfl, rfl, rfl, rfl⟩
  txBase := rfl
  rxBase := rfl
  ring := ringIsIdentity_postRxBuffers attachedPort.geom _
  txHead := by decide
  fetchPos := rfl
  wptr := rfl
  rxHead := by decide
  fillPos := rfl
  events :=
    ⟨[], ⟨⟨rfl, rfl, rfl, rfl, rfl, rfl, rfl⟩, rfl, EvqHolds.empty (fun _ _ => Or.inl rfl)
      (by decide)⟩, nofun⟩
  evs := rfl

/-- Two such ports and an empty cable. -/
def cabledNet : Net where
  port := fun _ => attachedPort
  wire := fun _ => []
  posted := fun _ => []
  received := fun _ => []
  lost := fun _ => 0

theorem netStart_cabledNet : NetStart cabledNet where
  port := fun _ => portStart_attachedPort
  wire := fun _ => rfl
  posted := fun _ => rfl
  received := fun _ => rfl
  lost := fun _ => rfl

/-- A frame of one byte arrives; the prefix says nothing of its length, the event does. -/
def byteArrives (b : BitVec 8) : NetLabel :=
  .card (.arrive .pf0 (fun j => if j = 14 then b else 0#8) 0xf#64)

/-- Of three frames the second is lost; the program goes on until nothing is left to do. -/
def middleFrameLost : List NetLabel :=
  [.post .pf0 [0xaa#8], .post .pf0 [0xbb#8], .card (.fetch .pf0), .post .pf0 [0xcc#8],
    .card (.fetch .pf0), byteArrives 0xaa#8, .card (.lose .pf0), .card (.fetch .pf0),
    .card (.event .pf0 0x2000000000000000#64), byteArrives 0xcc#8, .poll .pf1 8, .next .pf1,
    .next .pf1]

theorem windowed_calls_deliver_around_loss :
    ∃ net', exec netStep cabledNet middleFrameLost = some net' ∧
      net'.received .pf1 = [[0xaa#8], [0xcc#8]] ∧ net'.Idle .pf0 ∧
      (net'.received .pf1).Sublist (net'.posted .pf0) ∧
      (net'.posted .pf0).length = (net'.received .pf1).length + net'.lost .pf0 := by
  obtain ⟨net', hrun, hend⟩ := Option.map_eq_some_iff.mp
    (show (exec netStep cabledNet middleFrameLost).map
      (fun net => (net.received .pf1, decide (net.Idle .pf0))) =
        some ([[0xaa#8], [0xcc#8]], true) by decide +kernel)
  obtain ⟨hreceived, hdecide⟩ := Prod.mk.inj hend
  have hidle : net'.Idle .pf0 := of_decide_eq_true hdecide
  obtain ⟨horder, -, haccounted⟩ :=
    windowed_calls_deliver_in_order netStart_cabledNet (by decide +kernel) hrun .pf0
  exact ⟨net', hrun, hreceived, hidle, horder, haccounted hidle⟩

end Bench
end SfcCapio
