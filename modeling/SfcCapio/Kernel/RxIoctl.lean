import SfcCapio.Foundation.Runs
import SfcCapio.Foundation.Credit
import SfcCapio.Hardware.Device
import SfcCapio.Hardware.EventRing

/-!
# The receive ioctl of the kernel driver

`SFC7120_RX` runs under the device lock: it polls the data event queue for at
most 100000 reads, acknowledges what it consumed, copies the frame at `rx_head`
out, re-posts the slot's descriptor and rings the doorbell with the index before
the increment.  `rxIoctlStep` is the handler cut at the accesses that the card
can observe or influence; the doorbell write and the increment of `rx_head`,
which the card does not see, are one step.

`RxIoctlSys` interleaves the handler with the card's fills.  The card stops only
at the doorbell and writes one receive event per fill, without looking at the
event ring; that the ring never overflows is part of what is proved.
-/

namespace SfcCapio
namespace Kernel

open Hardware Foundation

/-- The receive and transmit bookkeeping of `sfc7120_softc_t`. -/
structure Softc where
  dev : Device
  rxBufferPaddr : BitVec 64
  txBufferPaddr : BitVec 64
  rxHead : Nat
  txHead : Nat
  dataEvqReadPtr : Nat

/-- `ETIMEDOUT`. -/
abbrev etimedout : Nat := 60

/-- The bound of the polling loop. -/
abbrev rxTries : Nat := 100000

/-! ## The handler -/

/-- What a successful call has handed out: the slot it read, the byte count of
the event and the bytes copied to the caller. -/
structure RxReply where
  slot : Nat
  rxBytes : Nat
  frame : List (BitVec 8)

/-- Where the handler stands. -/
inductive RxPc
  /-- Head of the polling loop, `rx_found` being 0. -/
  | poll (tries consumed : Nat)
  /-- Behind the loop; `rxFound` carries `rx_bytes` if an event was found. -/
  | ack (consumed : Nat) (rxFound : Option Nat)
  /-- Before `copyout`. -/
  | copy (rxBytes : Nat)
  /-- Before the descriptor is re-posted. -/
  | repost (reply : RxReply)
  /-- Before the doorbell. -/
  | ring (reply : RxReply)

/-- The handler continues, or returns an errno or its reply. -/
inductive RxStatus
  | running (pc : RxPc)
  | returned (result : Except Nat RxReply)

/-- The reply for the slot at `rx_head`. -/
def rxReply (sc : Softc) (rxBytes : Nat) : RxReply :=
  let off := sc.rxHead * rxBufferSize
  { slot := sc.rxHead
    rxBytes := rxBytes
    frame := frameBytes sc.dev.rxBuffer off (frameLen sc.dev.rxBuffer off rxBytes) }

/-- One step of the `SFC7120_RX` handler.  `copyErr` is the outcome of
`copyout`, read only where it is called. -/
def rxIoctlStep (sc : Softc) (copyErr : Nat) : RxPc → Softc × RxStatus
  | .poll tries consumed =>
    if tries < rxTries then
      match evqTake sc.dev.evqRing sc.dataEvqReadPtr with
      | none => (sc, .running (.poll (tries + 1) consumed))
      | some (ev, evq, readPtr) =>
        let sc' :=
          { sc with dev := { sc.dev with evqRing := evq }, dataEvqReadPtr := readPtr }
        if evCode ev = 0 then
          (sc', .running (.ack (consumed + 1) (some (evRxBytes ev))))
        else (sc', .running (.poll (tries + 1) (consumed + 1)))
    else (sc, .running (.ack consumed none))
  | .ack consumed rxFound =>
    let sc' :=
      if consumed > 0 then
        { sc with
          dev := { sc.dev with evqRptrDbl := sc.dataEvqReadPtr &&& evqRptrMask } }
      else sc
    match rxFound with
    | none => (sc', .returned (.error etimedout))
    | some rxBytes => (sc', .running (.copy rxBytes))
  | .copy rxBytes =>
    if copyErr ≠ 0 then (sc, .returned (.error copyErr))
    else (sc, .running (.repost (rxReply sc rxBytes)))
  | .repost reply =>
    ({ sc with
        dev :=
          { sc.dev with
            rxDescRing := Function.update sc.dev.rxDescRing sc.rxHead
              (identityDesc sc.rxBufferPaddr sc.rxHead) } },
      .running (.ring reply))
  | .ring reply =>
    ({ sc with
        dev := { sc.dev with rxDescDbl := sc.rxHead }
        rxHead := (sc.rxHead + 1) &&& (numRxDesc - 1) },
      .returned (.ok reply))

/-! ## The handler and the card -/

/-- One fill by the card: the slot, the event word and the received image. -/
structure RxFill where
  slot : Nat
  word : BitVec 64
  image : Nat → BitVec 8

namespace RxFill

/-- Length of the received frame. -/
def len (f : RxFill) : Nat := frameLen f.image 0 (evRxBytes f.word)

/-- The frame lies inside its slot. -/
def Fits (f : RxFill) : Prop := ef10RxPrefixLen + f.len ≤ rxBufferSize

/-- The received frame. -/
def frame (f : RxFill) : List (BitVec 8) := frameBytes f.image 0 f.len

end RxFill

/-- The driver, the handler in progress and the card.  `fills` and `replies` are
the histories of the card's fills and of the successful calls. -/
structure RxIoctlSys where
  sc : Softc
  call : Option RxPc
  fillPos : Nat
  evqWptr : Nat
  fills : List RxFill
  replies : List RxReply

/-- The card fills a slot, a caller enters the handler, or the handler moves. -/
inductive RxIoctlLabel
  | fill (w : BitVec 64) (image : Nat → BitVec 8)
  | enter
  | cpu (copyErr : Nat)

/-- The card stops only at the doorbell. -/
def RxIoctlSys.CanFill (s : RxIoctlSys) : Prop :=
  s.fillPos ≠ s.sc.dev.rxDescDbl % numRxDesc

instance (s : RxIoctlSys) : Decidable s.CanFill :=
  inferInstanceAs (Decidable (_ ≠ _))

/-- The card writes the image where the slot's descriptor points, then the
event. -/
def RxIoctlSys.filled (s : RxIoctlSys) (w : BitVec 64) (image : Nat → BitVec 8) :
    RxIoctlSys :=
  { s with
    sc :=
      { s.sc with
        dev :=
          { s.sc.dev with
            rxBuffer := dmaFill s.sc.rxBufferPaddr s.sc.dev.rxBuffer
              (s.sc.dev.rxDescRing s.fillPos) image
            evqRing := Function.update s.sc.dev.evqRing s.evqWptr w } }
    fillPos := (s.fillPos + 1) % numRxDesc
    evqWptr := (s.evqWptr + 1) % numEvqEntry
    fills := s.fills ++ [{ slot := s.fillPos, word := w, image := image }] }

/-- The state after a move of the handler. -/
def RxIoctlSys.moved (s : RxIoctlSys) (out : Softc × RxStatus) : RxIoctlSys :=
  match out.2 with
  | .running pc => { s with sc := out.1, call := some pc }
  | .returned (.error _) => { s with sc := out.1, call := none }
  | .returned (.ok reply) =>
    { s with sc := out.1, call := none, replies := s.replies ++ [reply] }

/-- The interleaved system.  The device lock admits one handler at a time. -/
def rxIoctlSysStep (s : RxIoctlSys) : RxIoctlLabel → Option RxIoctlSys
  | .fill w image => if IsRxEvent w ∧ s.CanFill then some (s.filled w image) else none
  | .enter => if s.call.isSome then none else some { s with call := some (.poll 0 0) }
  | .cpu copyErr => s.call.map fun pc => s.moved (rxIoctlStep s.sc copyErr pc)

/-- Every `copyout` of the run succeeds. -/
def CopyoutSucceeds (_ : RxIoctlSys) : RxIoctlLabel → Prop
  | .cpu copyErr => copyErr = 0
  | _ => True

/-- The state `sfc7120_post_rx_buffers` leaves, before any fill or call. -/
structure RxIoctlStart (geom : Geometry) (s : RxIoctlSys) : Prop where
  base : s.sc.rxBufferPaddr = geom.rxBufferPaddr
  posted : ∃ dev, s.sc.dev = postRxBuffers geom.rxBufferPaddr dev
  rxHead : s.sc.rxHead = 0
  readPtrLt : s.sc.dataEvqReadPtr < numEvqEntry
  vacant : ∀ i, i < numEvqEntry → slotVacant (s.sc.dev.evqRing i)
  idle : s.call = none
  fillPos : s.fillPos = 0
  evqWptr : s.evqWptr = s.sc.dataEvqReadPtr
  noFills : s.fills = []
  noReplies : s.replies = []

/-! ## What is to hold in every state -/

/-- The reply delivers the fill: its slot, its byte count and its frame. -/
def Delivers (f : RxFill) (r : RxReply) : Prop :=
  r.slot = f.slot ∧ r.rxBytes = evRxBytes f.word ∧ (f.Fits → r.frame = f.frame)

/-- Slots and credits of the receive path. -/
structure SlotsAndCredits (geom : Geometry) (s : RxIoctlSys) : Prop where
  /-- The doorbell stands one behind `rx_head`. -/
  doorbell : s.sc.dev.rxDescDbl = (s.sc.rxHead + (numRxDesc - 1)) % numRxDesc
  /-- Every descriptor decodes to its own slot's buffer. -/
  identity : RingIsIdentity geom.rxBufferPaddr s.sc.dev.rxDescRing
  /-- The card's next slot holds no frame that has not been returned. -/
  noOverwrite : s.CanFill → ∀ f ∈ s.fills.drop s.replies.length, f.slot ≠ s.fillPos
  /-- The `k`-th successful call delivers the `k`-th fill. -/
  inOrder : ∀ (k : Nat) r, s.replies[k]? = some r →
    ∃ f, s.fills[k]? = some f ∧ Delivers f r

/-! ## The invariant -/

/-- Receive events consumed by the handler in progress. -/
def RxPc.taken : RxPc → Nat
  | .poll _ _ => 0
  | .ack _ none => 0
  | .ack _ (some _) => 1
  | .copy _ => 1
  | .repost _ => 1
  | .ring _ => 1

/-- What the handler carries about the fill `f` it is answering. -/
def RxPc.Carries (f : RxFill) : RxPc → Prop
  | .poll _ _ => True
  | .ack _ none => True
  | .ack _ (some rxBytes) => rxBytes = evRxBytes f.word
  | .copy rxBytes => rxBytes = evRxBytes f.word
  | .repost reply => Delivers f reply
  | .ring reply => Delivers f reply

/-- Receive events consumed by the call in progress, if there is one. -/
def RxIoctlSys.taken (s : RxIoctlSys) : Nat := (s.call.map RxPc.taken).getD 0

/-- The words of the fills whose event has not been consumed. -/
def RxIoctlSys.pending (s : RxIoctlSys) : List (BitVec 64) :=
  (s.fills.drop (s.replies.length + s.taken)).map RxFill.word

/-- The part of the invariant that speaks neither about the event queue nor about the
handler. -/
structure RingSide (geom : Geometry) (s : RxIoctlSys) : Prop where
  base : s.sc.rxBufferPaddr = geom.rxBufferPaddr
  rxHead : s.sc.rxHead = s.replies.length % 512
  doorbell : s.sc.dev.rxDescDbl = (s.sc.rxHead + 511) % 512
  identity : RingIsIdentity geom.rxBufferPaddr s.sc.dev.rxDescRing
  fillPos : s.fillPos = s.fills.length % 512
  slots : ∀ (k : Nat) f, s.fills[k]? = some f → f.slot = k % 512
  credit : Credit 512 0 s.replies.length s.fills.length s.sc.dev.rxDescDbl
  rx : ∀ f ∈ s.fills, IsRxEvent f.word
  images : ∀ (k : Nat) f, s.replies.length ≤ k → s.fills[k]? = some f →
    ∀ i, i < 2048 → s.sc.dev.rxBuffer (f.slot * 2048 + i) = f.image i

/-- The cursors, the ring contents and what the handler in progress carries. -/
structure RxIoctlInv (geom : Geometry) (s : RxIoctlSys) : Prop extends RingSide geom s where
  takenLe : s.replies.length + s.taken ≤ s.fills.length
  evqWptr : s.evqWptr = (s.sc.dataEvqReadPtr + s.pending.length) % 512
  events : EvqHolds s.sc.dev.evqRing s.sc.dataEvqReadPtr s.pending
  answered : ∀ (k : Nat) r, s.replies[k]? = some r →
    ∃ f, s.fills[k]? = some f ∧ Delivers f r
  carried : ∀ pc ∈ s.call, ∀ f, s.fills[s.replies.length]? = some f → pc.Carries f

theorem rxIoctlInv_start {geom : Geometry} {s : RxIoctlSys}
    (hstart : RxIoctlStart geom s) : RxIoctlInv geom s := by
  obtain ⟨dev, hdev⟩ := hstart.posted
  have htaken : s.taken = 0 := by simp [RxIoctlSys.taken, hstart.idle]
  have hpending : s.pending = [] := by simp [RxIoctlSys.pending, hstart.noFills]
  have hdbl : s.sc.dev.rxDescDbl = 511 := by rw [hdev]; rfl
  refine ⟨⟨hstart.base, ?_, ?_, ?_, ?_, ?_, ?_, ?_, ?_⟩, ?_, ?_, ?_, ?_, ?_⟩
  · simp [hstart.rxHead, hstart.noReplies]
  · rw [hdbl, hstart.rxHead]
  · rw [hdev]
    exact ringIsIdentity_postRxBuffers geom dev
  · simp [hstart.fillPos, hstart.noFills]
  · simp [hstart.noFills]
  · rw [hdbl, hstart.noReplies, hstart.noFills]
    exact Credit.initial (by decide)
  · simp [hstart.noFills]
  · simp [hstart.noFills]
  · simp [htaken, hstart.noReplies]
  · rw [hpending, hstart.evqWptr, List.length_nil, Nat.add_zero,
      Nat.mod_eq_of_lt hstart.readPtrLt]
  · rw [hpending]
    exact EvqHolds.empty hstart.vacant hstart.readPtrLt
  · simp [hstart.noReplies]
  · simp [hstart.idle]

namespace RingSide

variable {geom : Geometry} {s : RxIoctlSys}

theorem moving (hside : RingSide geom s) (hfill : s.CanFill) :
    (0 + s.fills.length) % 512 ≠ s.sc.dev.rxDescDbl := by
  have hdbl := hside.doorbell
  rw [RxIoctlSys.CanFill, hside.fillPos] at hfill
  simp only [numRxDesc] at hfill
  omega

theorem noOverwrite (hside : RingSide geom s) :
    ∀ f ∈ s.fills.drop s.replies.length, f.slot ≠ s.fillPos := by
  intro f hf
  obtain ⟨j, hj⟩ := List.mem_iff_getElem?.mp hf
  rw [List.getElem?_drop] at hj
  obtain ⟨hlt, -⟩ := List.getElem?_eq_some_iff.mp hj
  have hroom := hside.credit.filled_lt
  rw [hside.slots _ f hj, hside.fillPos]
  omega

/-- The image lands in the card's slot, which none of the unreturned fills uses. -/
theorem images_filled (hside : RingSide geom s) (w : BitVec 64) (image : Nat → BitVec 8)
    (k : Nat) (f : RxFill) (hk : s.replies.length ≤ k)
    (hf : (s.filled w image).fills[k]? = some f) (i : Nat) (hi : i < 2048) :
    (s.filled w image).sc.dev.rxBuffer (f.slot * 2048 + i) = f.image i := by
  have hdesc : NamesOwnSlot s.sc.rxBufferPaddr s.fillPos (s.sc.dev.rxDescRing s.fillPos) := by
    rw [hside.base]
    refine hside.identity s.fillPos ?_
    rw [hside.fillPos]
    exact Nat.mod_lt _ (by decide)
  show dmaFill s.sc.rxBufferPaddr s.sc.dev.rxBuffer _ image (f.slot * 2048 + i) = f.image i
  rw [dmaFill_of_namesOwnSlot hdesc]
  rcases getElem?_concat_cases hf with hold | ⟨rfl, rfl⟩
  · have hne : f.slot ≠ s.fillPos := by
      refine hside.noOverwrite f (List.mem_iff_getElem?.mpr ⟨k - s.replies.length, ?_⟩)
      rw [List.getElem?_drop, Nat.add_sub_cancel' hk]
      exact hold
    rw [if_neg (by omega)]
    exact hside.images k f hk hold i hi
  · simp only
    rw [if_pos (by omega), Nat.add_sub_cancel_left]

theorem filled (hside : RingSide geom s) {w : BitVec 64} {image : Nat → BitVec 8}
    (hw : IsRxEvent w) (hfill : s.CanFill) : RingSide geom (s.filled w image) where
  base := hside.base
  rxHead := hside.rxHead
  doorbell := hside.doorbell
  identity := hside.identity
  fillPos := by
    simp only [RxIoctlSys.filled, hside.fillPos, List.length_append, List.length_singleton,
      numRxDesc]
    omega
  slots := by
    intro k f hf
    rcases getElem?_concat_cases hf with hold | ⟨rfl, rfl⟩
    · exact hside.slots k f hold
    · exact hside.fillPos
  credit := by
    have hcredit := hside.credit.fill (hside.moving hfill)
    simpa [RxIoctlSys.filled] using hcredit
  rx := by
    intro f hf
    rcases List.mem_append.mp hf with hold | hnew
    · exact hside.rx f hold
    · rw [List.mem_singleton.mp hnew]
      exact hw
  images := hside.images_filled w image

/-- The slot at `rx_head` is given back and the doorbell rung. -/
theorem rung (hside : RingSide geom s) {reply : RxReply} {copyErr : Nat}
    (hsome : s.replies.length < s.fills.length) :
    RingSide geom (s.moved (rxIoctlStep s.sc copyErr (.ring reply))) := by
  have hhead := hside.rxHead
  have hroom := hside.credit.filled_lt
  have hlen : (s.replies ++ [reply]).length = s.replies.length + 1 := by simp
  refine
    { base := hside.base
      rxHead := ?_
      doorbell := ?_
      identity := hside.identity
      fillPos := hside.fillPos
      slots := hside.slots
      credit := ?_
      rx := hside.rx
      images := ?_ }
  · show (s.sc.rxHead + 1) &&& (512 - 1) = (s.replies ++ [reply]).length % 512
    rw [land_ringMask, hlen, hhead]
    omega
  · show s.sc.rxHead = (((s.sc.rxHead + 1) &&& (512 - 1)) + 511) % 512
    rw [land_ringMask, hhead]
    omega
  · -- ringing `rx_head` before the increment grants up to 511 beyond the new head
    show Credit 512 0 (s.replies ++ [reply]).length s.fills.length s.sc.rxHead
    have hgrant : s.sc.rxHead = (0 + (s.replies.length + 512)) % 512 := by
      rw [hhead]
      omega
    rw [hlen, hgrant]
    exact Credit.ring hsome (by omega) (by omega)
  · intro k f hk hf
    change (s.replies ++ [reply]).length ≤ k at hk
    exact hside.images k f (by omega) hf

/-- The slot at `rx_head` holds the image of the oldest unreturned fill. -/
theorem image_at_head {f : RxFill} (hside : RingSide geom s)
    (hf : s.fills[s.replies.length]? = some f) :
    f.slot = s.sc.rxHead ∧
      ∀ i, i < 2048 → s.sc.dev.rxBuffer (s.sc.rxHead * 2048 + i) = f.image i := by
  have hslot : f.slot = s.sc.rxHead := by
    rw [hside.slots _ f hf, hside.rxHead]
  have himage := hside.images _ f (Nat.le_refl _) hf
  rw [hslot] at himage
  exact ⟨hslot, himage⟩

end RingSide

variable {geom : Geometry} {s : RxIoctlSys} {consumed copyErr : Nat}

theorem RxIoctlInv.slotsAndCredits (hinv : RxIoctlInv geom s) : SlotsAndCredits geom s :=
  ⟨hinv.doorbell, hinv.identity, fun _ => hinv.noOverwrite, hinv.answered⟩

/-! ## The card's step -/

theorem RxIoctlInv.pending_filled (hinv : RxIoctlInv geom s) (w : BitVec 64)
    (image : Nat → BitVec 8) :
    (s.filled w image).pending = s.pending ++ [w] := by
  show ((s.fills ++ [_]).drop (s.replies.length + s.taken)).map RxFill.word = _
  rw [List.drop_append_of_le_length hinv.takenLe, List.map_append]
  rfl

theorem rxIoctlInv_fill {w : BitVec 64} {image : Nat → BitVec 8} (hinv : RxIoctlInv geom s)
    (hw : IsRxEvent w) (hfill : s.CanFill) : RxIoctlInv geom (s.filled w image) := by
  have hroom := hinv.credit.filled_lt
  have htaken := hinv.takenLe
  have hpending := hinv.pending_filled w image
  have hlen : s.pending.length < 512 := by
    rw [RxIoctlSys.pending, List.length_map, List.length_drop]
    omega
  have hside : RingSide geom (s.filled w image) := hinv.filled hw hfill
  obtain ⟨hevents, hcursor⟩ := hinv.events.write_at hinv.evqWptr hlen hw.2
  refine
    { hside with
      takenLe := ?_
      evqWptr := ?_
      events := ?_
      answered := ?_
      carried := ?_ }
  · show s.replies.length + s.taken ≤ (s.fills ++ [_]).length
    rw [List.length_append]
    exact Nat.le_add_right_of_le htaken
  · rw [hpending]
    exact hcursor
  · rw [hpending]
    exact hevents
  · intro k r hr
    obtain ⟨f, hf, hdel⟩ := hinv.answered k r hr
    exact ⟨f, getElem?_concat_of_some hf, hdel⟩
  · intro pc hpc f hf
    rcases getElem?_concat_cases hf with hold | ⟨hlast, rfl⟩
    · exact hinv.carried pc hpc f hold
    · -- without an unreturned fill the handler has consumed no event
      change s.replies.length = s.fills.length at hlast
      have hnone : pc.taken = 0 := by
        have hcall : s.call = some pc := hpc
        have : s.taken = pc.taken := by simp [RxIoctlSys.taken, hcall]
        omega
      match pc, hnone with
      | .poll _ _, _ => trivial
      | .ack _ none, _ => trivial

/-! ## The handler's steps -/

/-- A change of the handler's state that keeps the number of events consumed only has to
say what the handler carries. -/
theorem rxIoctlInv_withCall {call : Option RxPc} (hinv : RxIoctlInv geom s)
    (htaken : RxIoctlSys.taken { s with call := call } = s.taken)
    (hcarries : ∀ pc ∈ call, ∀ f, s.fills[s.replies.length]? = some f → pc.Carries f) :
    RxIoctlInv geom { s with call := call } := by
  have hpending : RxIoctlSys.pending { s with call := call } = s.pending := by
    simp only [RxIoctlSys.pending, htaken]
  exact
    { hinv with
      takenLe := htaken ▸ hinv.takenLe
      evqWptr := hpending ▸ hinv.evqWptr
      events := hpending ▸ hinv.events
      carried := hcarries }

theorem rxIoctlInv_enter (hinv : RxIoctlInv geom s)
    (hidle : s.call = none) : RxIoctlInv geom { s with call := some (.poll 0 0) } := by
  apply rxIoctlInv_withCall hinv
  · simp [RxIoctlSys.taken, hidle, RxPc.taken]
  · intro pc hpc f _
    obtain rfl := Option.some.inj hpc
    trivial

theorem rxIoctlInv_running {pc pc' : RxPc} (hinv : RxIoctlInv geom s) (hcall : s.call = some pc)
    (htaken : pc'.taken = pc.taken)
    (hcarries : ∀ f, s.fills[s.replies.length]? = some f → pc.Carries f → pc'.Carries f) :
    RxIoctlInv geom { s with call := some pc' } := by
  apply rxIoctlInv_withCall hinv
  · simp [RxIoctlSys.taken, hcall, htaken]
  · intro pc₁ hpc f hf
    obtain rfl := Option.some.inj hpc
    exact hcarries f hf (hinv.carried pc hcall f hf)

/-- The polling loop: a vacant slot, an event, or the end of the tries. -/
theorem rxIoctlInv_poll {tries consumed copyErr : Nat} (hinv : RxIoctlInv geom s)
    (hcall : s.call = some (.poll tries consumed)) :
    RxIoctlInv geom (s.moved (rxIoctlStep s.sc copyErr (.poll tries consumed))) := by
  simp only [rxIoctlStep]
  split
  · cases htake : evqTake s.sc.dev.evqRing s.sc.dataEvqReadPtr with
    | none => exact rxIoctlInv_running hinv hcall rfl fun _ _ _ => trivial
    | some out =>
      obtain ⟨ev, evq, readPtr⟩ := out
      obtain ⟨rest, hpending, hcursor, hrest⟩ := hinv.events.of_take htake
      -- the event belongs to the oldest fill that has not been returned
      have htaken : s.taken = 0 := by simp [RxIoctlSys.taken, hcall, RxPc.taken]
      have hlt : s.replies.length < s.fills.length := by
        by_contra hge
        rw [RxIoctlSys.pending, htaken, List.drop_eq_nil_of_le (by omega)] at hpending
        cases hpending
      rw [RxIoctlSys.pending, htaken, Nat.add_zero, List.drop_eq_getElem_cons hlt,
        List.map_cons] at hpending
      obtain ⟨hev, hrestEq⟩ := List.cons.inj hpending
      have hrx : IsRxEvent ev := hev ▸ hinv.rx _ (List.getElem_mem hlt)
      simp only [hrx.1, if_true]
      refine
        { hinv with
          takenLe := hlt
          evqWptr := ?_
          events := ?_
          carried := ?_ }
      · have hwptr := hinv.evqWptr
        rw [RxIoctlSys.pending, htaken, Nat.add_zero, List.drop_eq_getElem_cons hlt,
          List.map_cons, List.length_cons, hrestEq] at hwptr
        show s.evqWptr = (readPtr +
          ((s.fills.drop (s.replies.length + 1)).map RxFill.word).length) % 512
        rw [hwptr, hrestEq, hcursor]
        omega
      · show EvqHolds evq readPtr
          ((s.fills.drop (s.replies.length + 1)).map RxFill.word)
        rw [hrestEq]
        exact hrest
      · intro pc hpc f hf
        obtain rfl := Option.some.inj hpc
        change s.fills[s.replies.length]? = some f at hf
        rw [List.getElem?_eq_getElem hlt] at hf
        obtain rfl := Option.some.inj hf
        show evRxBytes ev = _
        rw [hev]
  · exact rxIoctlInv_running hinv hcall rfl fun _ _ _ => trivial

/-- A call that has consumed no receive event may return without a reply. -/
theorem rxIoctlInv_leave {pc : RxPc} (hinv : RxIoctlInv geom s) (hcall : s.call = some pc)
    (htaken : pc.taken = 0) :
    RxIoctlInv geom { s with call := none } := by
  apply rxIoctlInv_withCall hinv
  · simp [RxIoctlSys.taken, hcall, htaken]
  · intro pc' hpc'
    cases hpc'

/-- The acknowledgement register is not part of the invariant. -/
theorem rxIoctlInv_evqRptrDbl (dbl : Nat) (hinv : RxIoctlInv geom s) :
    RxIoctlInv geom
      { s with sc := { s.sc with dev := { s.sc.dev with evqRptrDbl := dbl } } } :=
  { hinv with }

/-- The acknowledgement writes at most that register. -/
theorem exists_ackedDbl (sc : Softc) (consumed : Nat) :
    ∃ dbl,
      (if consumed > 0 then
        { sc with dev := { sc.dev with evqRptrDbl := sc.dataEvqReadPtr &&& evqRptrMask } }
      else sc) = { sc with dev := { sc.dev with evqRptrDbl := dbl } } := by
  split
  · exact ⟨_, rfl⟩
  · exact ⟨sc.dev.evqRptrDbl, rfl⟩

theorem rxIoctlInv_ack {rxFound : Option Nat} (hinv : RxIoctlInv geom s)
    (hcall : s.call = some (.ack consumed rxFound)) :
    RxIoctlInv geom (s.moved (rxIoctlStep s.sc copyErr (.ack consumed rxFound))) := by
  obtain ⟨dbl, hdbl⟩ := exists_ackedDbl s.sc consumed
  have hacked := rxIoctlInv_evqRptrDbl dbl hinv
  cases rxFound with
  | none =>
    simp only [rxIoctlStep, hdbl]
    exact rxIoctlInv_leave hacked hcall rfl
  | some rxBytes =>
    simp only [rxIoctlStep, hdbl]
    exact rxIoctlInv_running hacked hcall rfl fun _ _ hcarries => hcarries

/-- The length read at `rx_head` is that of the oldest unreturned fill. -/
theorem RxIoctlInv.frameLen_at_head {f : RxFill} (hinv : RxIoctlInv geom s)
    (hf : s.fills[s.replies.length]? = some f) :
    frameLen s.sc.dev.rxBuffer (s.sc.rxHead * rxBufferSize) (evRxBytes f.word) = f.len := by
  obtain ⟨-, himage⟩ := hinv.image_at_head hf
  have hpre : prefixLen s.sc.dev.rxBuffer (s.sc.rxHead * rxBufferSize) =
      prefixLen f.image 0 := by
    simp only [prefixLen, rxBufferSize, Nat.zero_add]
    rw [himage 8 (by decide), himage 9 (by decide)]
  simp only [RxFill.len, frameLen, hpre]

/-- The reply read at `rx_head` delivers the oldest unreturned fill. -/
theorem RxIoctlInv.delivers {f : RxFill} (hinv : RxIoctlInv geom s)
    (hf : s.fills[s.replies.length]? = some f) :
    Delivers f (rxReply s.sc (evRxBytes f.word)) := by
  obtain ⟨hslot, himage⟩ := hinv.image_at_head hf
  refine ⟨hslot.symm, rfl, ?_⟩
  intro hfits
  simp only [rxReply, hinv.frameLen_at_head hf, RxFill.frame, frameBytes]
  refine List.map_congr_left ?_
  intro i hi
  have hi' := List.mem_range.mp hi
  simp only [RxFill.Fits, ef10RxPrefixLen, rxBufferSize] at hfits
  rw [Nat.add_assoc, himage (ef10RxPrefixLen + i) (by simp only [ef10RxPrefixLen]; omega)]
  simp

theorem rxIoctlInv_copy {rxBytes : Nat} (hinv : RxIoctlInv geom s)
    (hcall : s.call = some (.copy rxBytes)) :
    RxIoctlInv geom (s.moved (rxIoctlStep s.sc 0 (.copy rxBytes))) := by
  refine rxIoctlInv_running hinv hcall rfl ?_
  intro f hf hcarries
  have hbytes : rxBytes = evRxBytes f.word := hcarries
  subst hbytes
  exact hinv.delivers hf

theorem rxIoctlInv_repost {reply : RxReply} (hinv : RxIoctlInv geom s)
    (hcall : s.call = some (.repost reply)) :
    RxIoctlInv geom (s.moved (rxIoctlStep s.sc copyErr (.repost reply))) := by
  have hposted : RxIoctlInv geom
      { s with
        sc :=
          { s.sc with
            dev :=
              { s.sc.dev with
                rxDescRing := Function.update s.sc.dev.rxDescRing s.sc.rxHead
                  (identityDesc s.sc.rxBufferPaddr s.sc.rxHead) } } } :=
    { hinv with
      identity := by
        rw [hinv.base]
        exact hinv.identity.update_identity s.sc.rxHead }
  exact rxIoctlInv_running hposted hcall rfl fun _ _ hcarries => hcarries

theorem rxIoctlInv_ring {reply : RxReply} (hinv : RxIoctlInv geom s)
    (hcall : s.call = some (.ring reply)) :
    RxIoctlInv geom (s.moved (rxIoctlStep s.sc copyErr (.ring reply))) := by
  have htaken : s.taken = 1 := by simp [RxIoctlSys.taken, hcall, RxPc.taken]
  have hle := hinv.takenLe
  rw [htaken] at hle
  have hlen : (s.replies ++ [reply]).length = s.replies.length + 1 := by simp
  have hpending : RxIoctlSys.pending (s.moved (rxIoctlStep s.sc copyErr (.ring reply))) =
      s.pending := by
    show ((s.fills.drop ((s.replies ++ [reply]).length + 0)).map RxFill.word) = _
    rw [hlen, RxIoctlSys.pending, htaken]
  have hside : RingSide geom (s.moved (rxIoctlStep s.sc copyErr (.ring reply))) :=
    hinv.rung hle
  refine
    { hside with
      takenLe := ?_
      evqWptr := hpending ▸ hinv.evqWptr
      events := hpending ▸ hinv.events
      answered := ?_
      carried := ?_ }
  · show (s.replies ++ [reply]).length + 0 ≤ s.fills.length
    rw [hlen]
    exact hle
  · intro k r hr
    rcases getElem?_concat_cases hr with hold | ⟨rfl, rfl⟩
    · exact hinv.answered k r hold
    · have hcur : s.fills[s.replies.length]? = some (s.fills[s.replies.length]) :=
        List.getElem?_eq_getElem hle
      exact ⟨_, hcur, hinv.carried _ hcall _ hcur⟩
  · intro pc hpc
    cases hpc

theorem rxIoctlInv_step (s : RxIoctlSys) (l : RxIoctlLabel) (s' : RxIoctlSys)
    (hinv : RxIoctlInv geom s) (hcopy : CopyoutSucceeds s l)
    (hstep : rxIoctlSysStep s l = some s') : RxIoctlInv geom s' := by
  cases l with
  | fill w image =>
    simp only [rxIoctlSysStep] at hstep
    split at hstep
    · rename_i hguard
      obtain rfl := Option.some.inj hstep
      exact rxIoctlInv_fill hinv hguard.1 hguard.2
    · cases hstep
  | enter =>
    simp only [rxIoctlSysStep] at hstep
    split at hstep
    · cases hstep
    · rename_i hbusy
      obtain rfl := Option.some.inj hstep
      exact rxIoctlInv_enter hinv (by simpa using hbusy)
  | cpu copyErr =>
    obtain ⟨pc, hcall, rfl⟩ := Option.map_eq_some_iff.mp hstep
    obtain rfl : copyErr = 0 := hcopy
    cases pc with
    | poll tries consumed => exact rxIoctlInv_poll hinv hcall
    | ack consumed rxFound => exact rxIoctlInv_ack hinv hcall
    | copy rxBytes => exact rxIoctlInv_copy hinv hcall
    | repost reply => exact rxIoctlInv_repost hinv hcall
    | ring reply => exact rxIoctlInv_ring hinv hcall

/-! ## The result -/

/-- The ioctl receive path keeps its slots and credits over every interleaving
of the card's fills with receive calls, successful or timed out. -/
theorem rx_ioctl_keeps_slots_and_credits {geom : Geometry} {s t : RxIoctlSys}
    {labels : List RxIoctlLabel} (hstart : RxIoctlStart geom s)
    (hcopy : Obeys rxIoctlSysStep CopyoutSucceeds s labels)
    (hrun : exec rxIoctlSysStep s labels = some t) : SlotsAndCredits geom t :=
  (exec_invariant_of_obeys rxIoctlInv_step (rxIoctlInv_start hstart) hcopy
    hrun).slotsAndCredits

/-- A packet-buffer layout below `2 ^ 48`. -/
def sampleGeometry : Geometry where
  rxBufferPaddr := 0x100000#64
  txBufferPaddr := 0x200000#64
  rxFits := by decide
  txFits := by decide

/-- The driver after attach, before any traffic. -/
def rxIoctlAfterAttach : RxIoctlSys where
  sc :=
    { dev := postRxBuffers 0x100000#64 allocDmaResources
      rxBufferPaddr := 0x100000#64
      txBufferPaddr := 0x200000#64
      rxHead := 0
      txHead := 0
      dataEvqReadPtr := 0 }
  call := none
  fillPos := 0
  evqWptr := 0
  fills := []
  replies := []

theorem rxIoctlStart_afterAttach : RxIoctlStart sampleGeometry rxIoctlAfterAttach where
  base := rfl
  posted := ⟨allocDmaResources, rfl⟩
  rxHead := rfl
  readPtrLt := by decide
  vacant := fun _ _ => Or.inl rfl
  idle := rfl
  fillPos := rfl
  evqWptr := rfl
  noFills := rfl
  noReplies := rfl

/-- One receive during which the handler first finds the ring empty. -/
theorem rx_ioctl_one_receive :
    ∃ t, exec rxIoctlSysStep rxIoctlAfterAttach
        [.enter, .cpu 0, .fill 0x4e#64 (fun _ => 1#8), .cpu 0, .cpu 0, .cpu 0, .cpu 0,
          .cpu 0] = some t ∧
      t.replies.length = 1 ∧ t.sc.rxHead = 1 ∧ SlotsAndCredits sampleGeometry t := by
  obtain ⟨t, hrun, hlen, hhead⟩ : ∃ t, exec rxIoctlSysStep rxIoctlAfterAttach
      [.enter, .cpu 0, .fill 0x4e#64 (fun _ => 1#8), .cpu 0, .cpu 0, .cpu 0, .cpu 0,
        .cpu 0] = some t ∧ t.replies.length = 1 ∧ t.sc.rxHead = 1 :=
    ⟨_, rfl, rfl, rfl⟩
  refine ⟨t, hrun, hlen, hhead,
    rx_ioctl_keeps_slots_and_credits rxIoctlStart_afterAttach ?_ hrun⟩
  exact ⟨trivial, rfl, trivial, rfl, rfl, rfl, rfl, rfl, trivial⟩

end Kernel
end SfcCapio
