import SfcCapio.Foundation.FifoLine
import SfcCapio.Userlib.RxRecv

/-!
# A port of the card and the library calls of the benchmark

`bench.c` drives two ports with three calls of the direct path: `sfc7120_tx_post`,
`sfc7120_poll` and `sfc7120_rx_recv`.  A `Port` is a session with the card behind it.  The
card fetches a posted descriptor and its bytes as late as it likes, writes an arriving frame
to the buffer that its next RX descriptor names, and reports it by an event.  It is not held
back by the RX doorbell: whether a slot is overwritten before it has been read is a matter of
how many frames the program keeps under way, and that is what the program is proved for.

`TxHolds` and `RxHolds` say which frames the rings of a port stand for, `tx` those posted and
not fetched, `held ++ queue` those arrived and not received.  The events of `held` have been
polled; those of `queue` are in the event ring, among other events.  Below the definitions
each call and each move of the card has one lemma.
-/

namespace SfcCapio
namespace Bench

open Foundation Hardware Userlib

abbrev Frame := List (BitVec 8)

/-- What a 2048-byte receive slot takes behind the 14-byte prefix. -/
abbrev maxFrame : Nat := 2034

/-! ## The port -/

/-- `evs` is what a loop over the events of the last poll has not looked at. -/
structure Port where
  geom : Geometry
  session : Session
  fetchPos : Nat
  fillPos : Nat
  evqWptr : Nat
  evs : List Ev

/-- The write pointer that the newest TX doorbell carries. -/
def txWptr (dev : Device) : Nat :=
  match dev.txDbl with
  | [] => 0
  | .push _ wptr :: _ => wptr
  | .wptr wptr :: _ => wptr

/-- The bytes that a descriptor names, seen through the TX packet buffer mapped at bus
address `base`. -/
def dmaRead (base : BitVec 64) (buf : Nat → BitVec 8) (desc : BitVec 64) : Frame :=
  (List.range (descByteCnt desc)).map fun i => buf (descAddr desc - base.toNat + i)

namespace Port

/-- `sfc7120_tx_post`. -/
def post (p : Port) (frame : Frame) : Int × Port :=
  let out := txPost p.session frame
  (out.1, { p with session := out.2 })

/-- `sfc7120_poll` into the array `evs`. -/
def poll (p : Port) (maxEvs : Nat) : Option (List Ev) × Port :=
  let out := Userlib.poll p.session maxEvs
  (out.1, { p with session := out.2, evs := out.1.getD p.evs })

end Port

/-- Outcome of one iteration of a loop over `evs`. -/
inductive Service
  /-- The loop has ended. -/
  | over
  /-- Not a receive event: `continue`. -/
  | other
  /-- `sfc7120_rx_recv` failed. -/
  | error
  | frame (frame : Frame)
deriving DecidableEq

namespace Port

/-- One iteration: `if (evs[j].type != SFC7120_EV_RX) continue;` and `sfc7120_rx_recv`. -/
def next (p : Port) : Service × Port :=
  match p.evs with
  | [] => (.over, p)
  | ev :: rest =>
    if ev.type ≠ .rx then (.other, { p with evs := rest })
    else
      let out := rxRecv p.session ev.rxBytes
      (out.1.elim .error .frame, { p with session := out.2, evs := rest })

/-- The card has not fetched everything up to the doorbell. -/
def CanFetch (p : Port) : Prop := p.fetchPos ≠ txWptr p.session.dev

instance (p : Port) : Decidable p.CanFetch := inferInstanceAs (Decidable (_ ≠ _))

/-- The frame that the card fetches. -/
def fetch (p : Port) : Frame × Port :=
  (dmaRead p.geom.txBufferPaddr p.session.dev.txBuffer (p.session.dev.txDescRing p.fetchPos),
    { p with fetchPos := (p.fetchPos + 1) % 512 })

/-- There is room in the event ring. -/
def EvqFree (p : Port) : Prop := slotVacant (p.session.dev.evqRing p.evqWptr)

instance (p : Port) : Decidable p.EvqFree := inferInstanceAs (Decidable (slotVacant _))

/-- The events in the ring are none of them receive events. -/
def Unannounced (p : Port) : Prop :=
  ∃ pending, EvqPending p.session p.evqWptr pending ∧ ∀ w ∈ pending, evCode w ≠ 0

/-- No receive event is in the ring or in the hands of the program. -/
def Quiet (p : Port) : Prop :=
  (p.evs.filter fun ev => ev.type = .rx) = [] ∧
    ∀ i, i < 512 → slotVacant (p.session.dev.evqRing i) ∨ evCode (p.session.dev.evqRing i) ≠ 0

instance (p : Port) : Decidable p.Quiet := inferInstanceAs (Decidable (_ ∧ _))

/-- The card writes an event. -/
def written (p : Port) (w : BitVec 64) : Port :=
  { p with
    session :=
      { p.session with
        dev :=
          { p.session.dev with
            evqRing := Function.update p.session.dev.evqRing p.evqWptr w } }
    evqWptr := (p.evqWptr + 1) % 512 }

/-- The card writes an image to the buffer of its next descriptor, then the event. -/
def filled (p : Port) (img : Nat → BitVec 8) (w : BitVec 64) : Port :=
  written
    { p with
      session :=
        { p.session with
          dev :=
            { p.session.dev with
              rxBuffer := dmaFill p.geom.rxBufferPaddr p.session.dev.rxBuffer
                (p.session.dev.rxDescRing p.fillPos) img } }
      fillPos := (p.fillPos + 1) % 512 } w

end Port

/-- A slot image that carries the frame: behind the prefix, with its length in the prefix
or, under cut-through, nothing there. -/
structure Carries (frame : Frame) (img : Nat → BitVec 8) : Prop where
  fits : frame.length ≤ maxFrame
  len : prefixLen img 0 = 0 ∨ prefixLen img 0 = frame.length
  bytes : ∀ j b, frame[j]? = some b → img (14 + j) = b

instance (frame : Frame) (img : Nat → BitVec 8) : Decidable (Carries frame img) :=
  decidable_of_iff
    (frame.length ≤ maxFrame ∧ (prefixLen img 0 = 0 ∨ prefixLen img 0 = frame.length) ∧
      ∀ j : Fin frame.length, img (14 + j) = frame[j])
    ⟨fun ⟨hfits, hlen, hbytes⟩ => ⟨hfits, hlen, fun j b hj => by
      obtain ⟨hlt, rfl⟩ := List.getElem?_eq_some_iff.mp hj
      exact hbytes ⟨j, hlt⟩⟩,
    fun h => ⟨h.fits, h.len, fun j => h.bytes j _ (List.getElem?_eq_getElem j.isLt)⟩⟩

/-- The receive event of a frame. -/
def Announces (w : BitVec 64) (frame : Frame) : Prop :=
  IsRxEvent w ∧ evRxBytes w = frame.length + 14

instance (w : BitVec 64) (frame : Frame) : Decidable (Announces w frame) :=
  inferInstanceAs (Decidable (_ ∧ _))

/-- An event record of a frame. -/
def Reports (ev : Ev) (frame : Frame) : Prop := ev.rxBytes = frame.length + 14

/-! ## What the rings hold -/

/-- Descriptor and bytes of a posted frame. -/
structure Stored (geom : Geometry) (ring : Nat → BitVec 64) (buf : Nat → BitVec 8) (slot : Nat)
    (frame : Frame) : Prop where
  fits : frame.length ≤ 2048
  desc : ring slot = descWord (slotPa geom.txBufferPaddr slot) frame.length
  bytes : ∀ j b, frame[j]? = some b → buf (slot * 2048 + j) = b

/-- The TX ring between the card and the doorbell. -/
structure TxHolds (p : Port) (tx : List Frame) : Prop where
  base : p.session.sfc.txBufferPaddr = p.geom.txBufferPaddr
  fetchPos : p.fetchPos < 512
  short : tx.length < 512
  txHead : p.session.sfc.txHead = (p.fetchPos + tx.length) % 512
  wptr : txWptr p.session.dev = p.session.sfc.txHead
  stored : Segment 512 (Stored p.geom p.session.dev.txDescRing p.session.dev.txBuffer) p.fetchPos tx

/-- The bytes of a receive slot. -/
def slotImage (buf : Nat → BitVec 8) (slot : Nat) : Nat → BitVec 8 :=
  fun j => buf (slot * 2048 + j)

/-- The RX ring between the library and the card, and the events. -/
structure RxHolds (p : Port) (held queue : List Frame) : Prop where
  base : p.session.sfc.rxBufferPaddr = p.geom.rxBufferPaddr
  ring : RingIsIdentity p.geom.rxBufferPaddr p.session.dev.rxDescRing
  rxHead : p.session.sfc.rxHead < 512
  fillPos : p.fillPos = (p.session.sfc.rxHead + (held ++ queue).length) % 512
  stored : Segment 512 (fun slot frame => Carries frame (slotImage p.session.dev.rxBuffer slot))
    p.session.sfc.rxHead (held ++ queue)
  events : ∃ pending, EvqPending p.session p.evqWptr pending ∧
    List.Forall₂ Announces (pending.filter fun w => evCode w = 0) queue
  polled : List.Forall₂ Reports (p.evs.filter fun ev => ev.type = .rx) held

/-- The frames between a port's library and its card. -/
structure PortHolds (p : Port) (tx rx : List Frame) : Prop where
  ready : p.session.sfc.Ready
  transmit : TxHolds p tx
  receive : ∃ held queue, rx = held ++ queue ∧ RxHolds p held queue

/-- A port without a frame under way, as `sfc7120_init` or an earlier benchmark of the session
leaves it: the three cursors may stand anywhere, and completions may be unread. -/
structure PortStart (p : Port) : Prop where
  ready : p.session.sfc.Ready
  txBase : p.session.sfc.txBufferPaddr = p.geom.txBufferPaddr
  rxBase : p.session.sfc.rxBufferPaddr = p.geom.rxBufferPaddr
  ring : RingIsIdentity p.geom.rxBufferPaddr p.session.dev.rxDescRing
  txHead : p.session.sfc.txHead < 512
  fetchPos : p.fetchPos = p.session.sfc.txHead
  wptr : txWptr p.session.dev = p.session.sfc.txHead
  rxHead : p.session.sfc.rxHead < 512
  fillPos : p.fillPos = p.session.sfc.rxHead
  events : p.Unannounced
  evs : p.evs = []

theorem portHolds_start {p : Port} (hstart : PortStart p) : PortHolds p [] [] where
  ready := hstart.ready
  transmit := by
    refine ⟨hstart.txBase, ?_, by decide, ?_, hstart.wptr, Segment.nil _ _ _⟩
    · rw [hstart.fetchPos]
      exact hstart.txHead
    · rw [hstart.fetchPos, List.length_nil, Nat.add_zero, Nat.mod_eq_of_lt hstart.txHead]
  receive := by
    obtain ⟨pending, hev, hcodes⟩ := hstart.events
    refine ⟨[], [], rfl, hstart.rxBase, hstart.ring, hstart.rxHead, ?_, Segment.nil _ _ _,
      ⟨pending, hev, ?_⟩, ?_⟩
    · rw [hstart.fillPos, List.append_nil, List.length_nil, Nat.add_zero,
        Nat.mod_eq_of_lt hstart.rxHead]
    · rw [List.filter_eq_nil_iff.mpr (by simpa using hcodes)]
      exact List.Forall₂.nil
    · rw [hstart.evs]
      exact List.Forall₂.nil

/-! ## Transmitting -/

/-- A memory that agrees with the list byte for byte is read back as the list. -/
theorem map_range_of_agrees {frame : Frame} {mem : Nat → BitVec 8}
    (hbytes : ∀ j b, frame[j]? = some b → mem j = b) :
    (List.range frame.length).map mem = frame := by
  apply List.ext_getElem
  · rw [List.length_map, List.length_range]
  · intro j hj hj'
    rw [List.getElem_map, List.getElem_range]
    exact hbytes j _ (List.getElem?_eq_getElem hj')

section Transmitting

variable {geom : Geometry} {ring : Nat → BitVec 64} {buf : Nat → BitVec 8} {slot : Nat}
  {frame : Frame}

/-- The card reads a stored frame back. -/
theorem Stored.dmaRead_eq (h : Stored geom ring buf slot frame) (hslot : slot < 512) :
    dmaRead geom.txBufferPaddr buf (ring slot) = frame := by
  have hfits := geom.txFits
  have hlen := h.fits
  simp only [numTxDesc, txBufferSize] at hfits
  have hcnt : descByteCnt (ring slot) = frame.length := by
    rw [h.desc, descByteCnt_descWord]
    exact Nat.mod_eq_of_lt (by omega)
  have haddr : descAddr (ring slot) - geom.txBufferPaddr.toNat = slot * 2048 := by
    rw [h.desc, descAddr_descWord, slotPa_toNat hfits hslot]
    omega
  rw [dmaRead, hcnt, haddr]
  exact map_range_of_agrees h.bytes

/-- What `sfc7120_tx_post` writes to its slot. -/
theorem stored_posted (geom : Geometry) (ring : Nat → BitVec 64) (buf : Nat → BitVec 8)
    (slot : Nat) (hlen : frame.length ≤ 2048) :
    Stored geom
      (Function.update ring slot (descWord (slotPa geom.txBufferPaddr slot) frame.length))
      (copyTo buf (slot * 2048) frame) slot frame where
  fits := hlen
  desc := Function.update_self _ _ _
  bytes := by
    intro j b hj
    have hlt : j < frame.length := (List.getElem?_eq_some_iff.mp hj).1
    rw [copyTo, if_pos ⟨Nat.le_add_right _ _, Nat.add_lt_add_left hlt _⟩,
      Nat.add_sub_cancel_left, List.getD_eq_getElem?_getD, hj, Option.getD_some]

/-- A post leaves the frames of the other slots alone. -/
theorem Stored.of_ne {other : Nat} {posted : Frame} (h : Stored geom ring buf other posted)
    (hne : other ≠ slot) (hlen : frame.length ≤ 2048) (desc : BitVec 64) :
    Stored geom (Function.update ring slot desc) (copyTo buf (slot * 2048) frame) other posted where
  fits := h.fits
  desc := by
    rw [Function.update_of_ne hne]
    exact h.desc
  bytes := by
    intro j b hj
    have hlt : j < posted.length := (List.getElem?_eq_some_iff.mp hj).1
    have hfits := h.fits
    rw [copyTo, if_neg (by omega)]
    exact h.bytes j b hj

end Transmitting

/-- The state after an accepted post: the frame copied to the slot at `tx_head`, its descriptor
in the ring and pushed with the doorbell. -/
theorem Port.post_eq {p : Port} {frame : Frame} (hready : p.session.sfc.Ready)
    (hbase : p.session.sfc.txBufferPaddr = p.geom.txBufferPaddr) (hpos : 0 < frame.length)
    (hlen : frame.length ≤ 2048) :
    p.post frame =
      (0,
        { p with
          session :=
            { sfc :=
                { p.session.sfc with
                  usedPoll := true
                  txHead := (p.session.sfc.txHead + 1) % 512 }
              dev :=
                { p.session.dev with
                  txBuffer := copyTo p.session.dev.txBuffer (p.session.sfc.txHead * 2048) frame
                  txDescRing := Function.update p.session.dev.txDescRing p.session.sfc.txHead
                    (descWord (slotPa p.geom.txBufferPaddr p.session.sfc.txHead) frame.length)
                  txDbl :=
                    .push
                      (descWord (slotPa p.geom.txBufferPaddr p.session.sfc.txHead) frame.length)
                      ((p.session.sfc.txHead + 1) % 512) :: p.session.dev.txDbl } } }) := by
  have hmapped : (!p.session.sfc.txBuffer || !p.session.sfc.txMapped) = false := by
    rw [hready.txBuffer, txMapped_of_ready hready]
    rfl
  have hok : txLenOk frame.length = true := (txLenOk_iff _).mpr ⟨hpos, hlen⟩
  simp only [Port.post, txPost, hmapped, hok, txPush, txNext, numTxDesc, land_ringMask,
    txBufferSize, hbase, Bool.not_true, Bool.false_eq_true, if_false]

namespace PortHolds

variable {p : Port} {tx rx : List Frame}

/-- `sfc7120_tx_post` appends the frame to the TX ring. -/
theorem post (h : PortHolds p tx rx) (hroom : tx.length + 1 < 512) {frame : Frame}
    (hpos : 0 < frame.length) (hlen : frame.length ≤ 2048) :
    (p.post frame).1 = 0 ∧ PortHolds (p.post frame).2 (tx ++ [frame]) rx := by
  have htx := h.transmit
  obtain ⟨held, queue, hrx, hreceive⟩ := h.receive
  have hhead := htx.txHead
  rw [Port.post_eq h.ready htx.base hpos hlen]
  refine ⟨rfl, { h.ready with }, ?_, held, queue, hrx, ?_⟩
  · refine ⟨htx.base, htx.fetchPos, ?_, ?_, rfl, ?_⟩
    · rw [List.length_append, List.length_singleton]
      exact hroom
    · rw [List.length_append, List.length_singleton]
      simp only [hhead]
      omega
    · refine htx.stored.concat htx.short ?_ ?_
      · intro slot posted _ hne hstored
        exact hstored.of_ne (hhead ▸ hne) hlen _
      · rw [← hhead]
        exact stored_posted _ _ _ _ hlen
  · obtain ⟨pending, hev, hannounced⟩ := hreceive.events
    exact ⟨hreceive.base, hreceive.ring, hreceive.rxHead, hreceive.fillPos, hreceive.stored,
      ⟨pending, ⟨{ h.ready with }, hev.evqWptr, hev.holds⟩, hannounced⟩, hreceive.polled⟩

/-- The card fetches the oldest frame of the TX ring, and there is one. -/
theorem fetch (h : PortHolds p tx rx) (hcan : p.CanFetch) :
    ∃ frame rest, tx = frame :: rest ∧ p.fetch.1 = frame ∧ PortHolds p.fetch.2 rest rx := by
  have htx := h.transmit
  obtain ⟨held, queue, hrx, hreceive⟩ := h.receive
  cases tx with
  | nil =>
    exfalso
    apply hcan
    rw [htx.wptr, htx.txHead, List.length_nil, Nat.add_zero, Nat.mod_eq_of_lt htx.fetchPos]
  | cons frame rest =>
    refine ⟨frame, rest, rfl, (htx.stored.head htx.fetchPos).dmaRead_eq htx.fetchPos, h.ready,
      ?_, held, queue, hrx, ?_⟩
    · have hhead := htx.txHead
      have hshort := htx.short
      rw [List.length_cons] at hhead hshort
      refine ⟨htx.base, Nat.mod_lt _ (by decide), by omega, ?_, htx.wptr, htx.stored.tail⟩
      simp only [Port.fetch, hhead]
      omega
    · exact { hreceive with }

end PortHolds

/-! ## Receiving -/

section Receiving

variable {frame : Frame} {img img' : Nat → BitVec 8}

/-- The library reads the length from the prefix field, else from the event's byte count. -/
theorem Carries.frameLen_eq {buf : Nat → BitVec 8} {slot : Nat}
    (h : Carries frame (slotImage buf slot)) :
    frameLen buf (slot * 2048) (frame.length + 14) = frame.length := by
  have hfits : frame.length ≤ 2034 := h.fits
  have hevent : eventLen (frame.length + 14) = frame.length := by
    simp only [eventLen, ef10RxPrefixLen]
    split
    · omega
    · omega
  unfold frameLen
  split
  · exact hevent
  · rename_i hlength
    exact h.len.resolve_left hlength

theorem Carries.frameBytes_eq {buf : Nat → BitVec 8} {slot : Nat}
    (h : Carries frame (slotImage buf slot)) :
    frameBytes buf (slot * 2048) frame.length = frame := by
  refine map_range_of_agrees ?_
  intro j b hj
  rw [Nat.add_assoc]
  exact h.bytes j b hj

/-- Only the 2048 bytes of the slot count. -/
theorem Carries.congr (h : Carries frame img) (hsame : ∀ j, j < 2048 → img' j = img j) :
    Carries frame img' where
  fits := h.fits
  len := by
    have hlength : prefixLen img' 0 = prefixLen img 0 := by
      unfold prefixLen
      rw [hsame _ (by decide), hsame _ (by decide)]
    rw [hlength]
    exact h.len
  bytes := by
    intro j b hj
    have hlt : j < frame.length := (List.getElem?_eq_some_iff.mp hj).1
    have hfits : frame.length ≤ 2034 := h.fits
    rw [hsame _ (by omega)]
    exact h.bytes j b hj

theorem slotImage_dmaFill_self {base : BitVec 64} {slot : Nat} {desc : BitVec 64}
    (hdesc : NamesOwnSlot base slot desc) (buf : Nat → BitVec 8) {j : Nat} (hj : j < 2048) :
    slotImage (dmaFill base buf desc img) slot j = img j := by
  rw [slotImage, dmaFill_of_namesOwnSlot hdesc, if_pos (by omega), Nat.add_sub_cancel_left]

theorem slotImage_dmaFill_of_ne {base : BitVec 64} {slot other : Nat} {desc : BitVec 64}
    (hdesc : NamesOwnSlot base slot desc) (hne : other ≠ slot) (buf : Nat → BitVec 8) {j : Nat}
    (hj : j < 2048) : slotImage (dmaFill base buf desc img) other j = slotImage buf other j := by
  rw [slotImage, slotImage, dmaFill_of_namesOwnSlot hdesc, if_neg (by omega)]

/-- The record that `sfc7120_poll` makes of a frame's event. -/
theorem Announces.reports {w : BitVec 64} (h : Announces w frame) :
    Reports (decodeEvent w) frame := by
  rw [Reports, decodeEvent, if_pos h.1.1]
  exact h.2

theorem type_decodeEvent (w : BitVec 64) : (decodeEvent w).type = .rx ↔ evCode w = 0 := by
  unfold decodeEvent
  split
  · simp [*]
  · split <;> simp [*]

/-- The receive events of a poll are those of the words taken. -/
theorem filter_map_decodeEvent (taken : List (BitVec 64)) :
    ((taken.map decodeEvent).filter fun ev => ev.type = .rx) =
      (taken.filter fun w => evCode w = 0).map decodeEvent := by
  rw [List.filter_map]
  congr 1
  apply List.filter_congr
  intro w _
  simp [type_decodeEvent]

theorem lt_of_free {s : Session} {evqWptr : Nat} {pending : List (BitVec 64)}
    (hev : EvqPending s evqWptr pending) (hfree : slotVacant (s.dev.evqRing evqWptr)) :
    pending.length < 512 := by
  refine Nat.lt_of_le_of_ne hev.holds.ring.fits ?_
  intro hfull
  have hptr := hev.holds.readPtrLt
  have hwptr : evqWptr = s.sfc.evqReadPtr := by
    rw [hev.evqWptr, hfull]
    omega
  rw [hwptr] at hfree
  rw [hev.holds.nil_of_vacant hfree] at hfull
  cases hfull

theorem rxRecv_eq {s : Session} (hready : s.sfc.Ready) (rxBytes : Nat) :
    rxRecv s rxBytes =
      (some (frameBytes s.dev.rxBuffer (s.sfc.rxHead * 2048)
        (frameLen s.dev.rxBuffer (s.sfc.rxHead * 2048) rxBytes)), received s) := by
  have hmapped : (!s.sfc.rxBuffer || !s.sfc.rxMapped) = false := by
    rw [hready.rxBuffer, rxMapped_of_ready hready]
    rfl
  refine Prod.ext ?_ (rxRecv_of_ready hready rxBytes)
  simp only [rxRecv, hmapped, rxBufferSize, Bool.false_eq_true, if_false]

end Receiving

namespace PortHolds

variable {p : Port} {tx rx : List Frame}

theorem event (h : PortHolds p tx rx) (hfree : p.EvqFree) {w : BitVec 64} (hcode : evCode w ≠ 0)
    (hw : ¬ slotVacant w) : PortHolds (p.written w) tx rx := by
  obtain ⟨held, queue, hrx, hreceive⟩ := h.receive
  obtain ⟨pending, hev, hannounced⟩ := hreceive.events
  refine ⟨h.ready, { h.transmit with }, held, queue, hrx, hreceive.base, hreceive.ring,
    hreceive.rxHead, hreceive.fillPos, hreceive.stored,
    ⟨pending ++ [w], hev.write hw (lt_of_free hev hfree), ?_⟩, hreceive.polled⟩
  simpa [List.filter_append, hcode] using hannounced

/-- A frame arrives: it is appended to the RX ring and announced behind all others. -/
theorem fill (h : PortHolds p tx rx) (hroom : rx.length < 512) (hfree : p.EvqFree)
    {frame : Frame} {img : Nat → BitVec 8} {w : BitVec 64} (hcarries : Carries frame img)
    (hw : Announces w frame) : PortHolds (p.filled img w) tx (rx ++ [frame]) := by
  obtain ⟨held, queue, rfl, hreceive⟩ := h.receive
  obtain ⟨pending, hev, hannounced⟩ := hreceive.events
  have hslot : p.fillPos < 512 := by
    rw [hreceive.fillPos]
    exact Nat.mod_lt _ (by decide)
  have hdesc := hreceive.ring p.fillPos hslot
  have hevs := hev.write hw.1.2 (lt_of_free hev hfree)
  refine ⟨h.ready, { h.transmit with }, held, queue ++ [frame], List.append_assoc _ _ _,
    hreceive.base, hreceive.ring, hreceive.rxHead, ?_, ?_,
    ⟨pending ++ [w], ⟨h.ready, hevs.evqWptr, hevs.holds⟩, ?_⟩, hreceive.polled⟩
  · have hpos := hreceive.fillPos
    rw [← List.append_assoc, List.length_append, List.length_singleton]
    simp only [Port.filled, Port.written, hpos]
    omega
  · rw [← List.append_assoc]
    -- only the slot at `fillPos` is written
    refine hreceive.stored.concat hroom ?_ ?_
    · intro slot other _ hne hother
      rw [← hreceive.fillPos] at hne
      exact hother.congr fun j hj => slotImage_dmaFill_of_ne hdesc hne _ hj
    · rw [← hreceive.fillPos]
      exact hcarries.congr fun j hj => slotImage_dmaFill_self hdesc _ hj
  · rw [List.filter_append]
    refine List.rel_append hannounced ?_
    simpa [hw.1.1] using List.Forall₂.cons hw List.Forall₂.nil

/-- A poll, made when no receive event of the last one is left, moves frames from the
announced to the held ones. -/
theorem poll (h : PortHolds p tx rx) (hdone : (p.evs.filter fun ev => ev.type = .rx) = [])
    {maxEvs : Nat} (hmax : 0 < maxEvs) :
    ∃ evs, (p.poll maxEvs).1 = some evs ∧ (p.poll maxEvs).2.evs = evs ∧
      PortHolds (p.poll maxEvs).2 tx rx := by
  obtain ⟨held, queue, rfl, hreceive⟩ := h.receive
  obtain ⟨pending, hev, hannounced⟩ := hreceive.events
  obtain ⟨taken, rest, used, readPtr, evq, dbl, rfl, -, hpoll, hev'⟩ := hev.poll maxEvs
  have hpolled := hreceive.polled
  rw [hdone] at hpolled
  cases hpolled
  rw [if_neg (Nat.pos_iff_ne_zero.mp hmax)] at hpoll
  simp only [Port.poll, hpoll]
  refine ⟨_, rfl, rfl, { h.ready with }, { h.transmit with }, ?_⟩
  rw [List.filter_append] at hannounced
  -- the first frames of the queue are those whose events were taken
  have hfirst := List.forall₂_take_append _ _ _ hannounced.flip
  have hrest := List.forall₂_drop_append _ _ _ hannounced.flip
  refine ⟨queue.take (taken.filter fun w => evCode w = 0).length,
    queue.drop (taken.filter fun w => evCode w = 0).length, ?_, hreceive.base, hreceive.ring,
    hreceive.rxHead, ?_, ?_, ⟨rest, hev', hrest.flip⟩, ?_⟩
  · rw [List.nil_append, List.take_append_drop]
  · rw [List.take_append_drop]
    exact hreceive.fillPos
  · rw [List.take_append_drop]
    exact hreceive.stored
  · simp only [Option.getD_some, filter_map_decodeEvent]
    rw [List.forall₂_map_left_iff]
    exact hfirst.flip.imp fun w frame hw => Announces.reports hw

theorem tx_of_fetched (h : PortHolds p tx rx) (hall : ¬ p.CanFetch) : tx = [] := by
  have hpos := Decidable.of_not_not hall
  have hhead := h.transmit.txHead
  have hshort := h.transmit.short
  have hlt := h.transmit.fetchPos
  rw [← h.transmit.wptr, ← hpos] at hhead
  exact List.eq_nil_of_length_eq_zero (by omega)

/-- With no receive event in the ring and none polled, every frame has been received. -/
theorem rx_of_quiet (h : PortHolds p tx rx) (hquiet : p.Quiet) : rx = [] := by
  obtain ⟨held, queue, rfl, hreceive⟩ := h.receive
  obtain ⟨pending, hev, hannounced⟩ := hreceive.events
  have hcodes : ∀ w ∈ pending, evCode w ≠ 0 := by
    intro w hw
    obtain ⟨i, hi, rfl⟩ := hev.holds.ring.exists_cell hw
    exact (hquiet.2 i hi).resolve_left (hev.holds.ring.occupied _ hw)
  have hpolled := hreceive.polled
  rw [List.filter_eq_nil_iff.mpr (by simpa using hcodes)] at hannounced
  rw [hquiet.1] at hpolled
  cases hannounced
  cases hpolled
  rfl

/-- A receive event left over is one for the oldest frame of the RX ring. -/
theorem next_rx (h : PortHolds p tx rx) {ev : Ev} {evs : List Ev} (hevs : p.evs = ev :: evs)
    (htype : ev.type = .rx) :
    ∃ frame rest, rx = frame :: rest ∧ p.next.1 = .frame frame ∧ p.next.2.evs = evs ∧
      PortHolds p.next.2 tx rest := by
  obtain ⟨held, queue, rfl, hreceive⟩ := h.receive
  obtain ⟨pending, hev, hannounced⟩ := hreceive.events
  have hpolled := hreceive.polled
  rw [hevs, List.filter_cons_of_pos (by simpa using htype)] at hpolled
  cases hpolled with
  | @cons _ frame _ held hreport hpolled =>
    have hcarries := hreceive.stored.head hreceive.rxHead
    have hframe : frameBytes p.session.dev.rxBuffer (p.session.sfc.rxHead * 2048)
        (frameLen p.session.dev.rxBuffer (p.session.sfc.rxHead * 2048) ev.rxBytes) = frame := by
      rw [show ev.rxBytes = frame.length + 14 from hreport, hcarries.frameLen_eq,
        hcarries.frameBytes_eq]
    have hnext : p.next =
        (.frame frame, { p with session := received p.session, evs := evs }) := by
      simp only [Port.next, hevs, htype, rxRecv_eq h.ready, hframe]
      rfl
    rw [hnext]
    refine ⟨frame, held ++ queue, rfl, rfl, rfl, { h.ready with }, { h.transmit with }, held,
      queue, rfl, hreceive.base, ?_, Nat.mod_lt _ (by decide), ?_, hreceive.stored.tail,
      ⟨pending, ⟨{ h.ready with }, hev.evqWptr, hev.holds⟩, hannounced⟩, hpolled⟩
    · show RingIsIdentity _ (Function.update _ _ (identityDesc p.session.sfc.rxBufferPaddr _))
      rw [hreceive.base]
      exact hreceive.ring.update_identity _
    · have hpos := hreceive.fillPos
      rw [List.cons_append, List.length_cons] at hpos
      simp only [received, hpos]
      omega

theorem next_other (h : PortHolds p tx rx) {ev : Ev} {evs : List Ev} (hevs : p.evs = ev :: evs)
    (htype : ev.type ≠ .rx) :
    p.next = (.other, { p with evs := evs }) ∧ PortHolds { p with evs := evs } tx rx := by
  obtain ⟨held, queue, hrx, hreceive⟩ := h.receive
  refine ⟨?_, h.ready, { h.transmit with }, held, queue, hrx, ?_⟩
  · simp only [Port.next, hevs]
    rw [if_pos htype]
  · have hpolled := hreceive.polled
    rw [hevs, List.filter_cons_of_neg (by simpa using htype)] at hpolled
    exact { hreceive with polled := hpolled }

end PortHolds

end Bench
end SfcCapio
