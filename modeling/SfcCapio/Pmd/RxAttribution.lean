import SfcCapio.Foundation.Credit
import SfcCapio.Pmd.LiveCookies
import SfcCapio.Userlib.EventQueue

/-!
# Which buffer a frame is in

In zero-copy mode `eth_capio_rx` posts a fresh mbuf `rx_window` slots ahead of
`rx_head` and records it in `rx_ext_cookie[]`.  A later event is attributed to
the cookie of its slot, or to the library buffer if there is none.  The card goes
by the descriptor, and it may have read the descriptor of a slot at any moment
since the doorbell covered it.

`AttrSys` interleaves the card (reading descriptors ahead, filling slots in ring
order up to the doorbell) with the statements of `eth_capio_rx`.  The pool never
refuses.  The invariant `AttrInv` is for the largest window, 511, where a tail
post always goes to the one slot the grant leaves out.  A frame without payload in a
library slot is released without a post; the slot then keeps descriptor and cookie
of the lap before, which still name one buffer.
-/

namespace SfcCapio
namespace Pmd

open Hardware Userlib Kernel Handover Foundation

/-! ## The system -/

/-- The slot lies in front of the doorbell as seen from `start`. -/
def Covers (start doorbell slot : Nat) : Prop :=
  (slot + (512 - start)) % 512 < (doorbell + (512 - start)) % 512

instance (start doorbell slot : Nat) : Decidable (Covers start doorbell slot) :=
  inferInstanceAs (Decidable (_ < _))

/-- The bus address of the buffer `eth_capio_rx` takes the next frame from. -/
def Internals.attributed (pi : Internals) : BitVec 64 :=
  match pi.session.sfc.rxExtCookie pi.session.sfc.rxHead with
  | some m => pi.ops.dataIovaDefault (pi.mbufs m)
  | none => slotPa pi.session.sfc.rxBufferPaddr pi.session.sfc.rxHead

/-- The driver and the card.  `fetched` holds the descriptors the card has read
ahead, `batch` the events a call of `eth_capio_rx` has polled and not yet handled.
`used` lists the descriptors of all fills, `attributed` the buffers of all
receive events handled. -/
structure AttrSys where
  pi : Internals
  owner : Nat → Owner
  fillPos : Nat
  evqWptr : Nat
  fetched : Nat → Option (BitVec 64)
  batch : Option (List Ev)
  used : List (BitVec 64)
  attributed : List (BitVec 64)

/-- The card reads a descriptor ahead or fills a slot and writes the event `w`;
`eth_capio_rx` polls, handles one event, or rings the doorbell and returns; the
caller uses or returns an mbuf it owns. -/
inductive AttrLabel
  | fetch (slot : Nat)
  | fill (w : BitVec 64) (image : Nat → BitVec 8)
  | call (nbBufs : Nat)
  | event (reply₁ reply₂ : PoolReply)
  | flush
  | appUse (m : Nat) (mb : RteMbuf)
  | appFree (m : Nat)

namespace AttrSys

/-- The RX ring. -/
def ring (s : AttrSys) : Nat → BitVec 64 := s.pi.session.dev.rxDescRing

/-- The last doorbell value. -/
def doorbell (s : AttrSys) : Nat := s.pi.session.dev.rxDescDbl % numRxDesc

/-- The descriptor the card uses for its next fill. -/
def nextDesc (s : AttrSys) : BitVec 64 := (s.fetched s.fillPos).getD (s.ring s.fillPos)

/-- The card fills its next slot.  Of the memory it may write only the RX packet
buffer is represented. -/
def filled (s : AttrSys) (w : BitVec 64) (image : Nat → BitVec 8) : AttrSys :=
  { s with
    pi :=
      { s.pi with
        session :=
          { s.pi.session with
            dev :=
              { s.pi.session.dev with
                evqRing := Function.update s.pi.session.dev.evqRing s.evqWptr w
                rxBuffer := dmaFill s.pi.session.sfc.rxBufferPaddr s.pi.session.dev.rxBuffer
                  s.nextDesc image } } }
    fillPos := (s.fillPos + 1) % numRxDesc
    evqWptr := (s.evqWptr + 1) % numEvqEntry
    fetched := Function.update s.fetched s.fillPos none
    used := s.used ++ [s.nextDesc] }

end AttrSys

/-- Both allocations an event may make succeed. -/
def allocates (stash : List Nat) (reply₁ reply₂ : PoolReply) : Bool :=
  (takeMbuf stash reply₁).mbuf.isSome &&
    (takeMbuf (takeMbuf stash reply₁).stash reply₂).mbuf.isSome

/-- The interleaved system. -/
def attrStep (s : AttrSys) : AttrLabel → Option AttrSys
  | .fetch slot =>
    if slot < numRxDesc ∧ Covers s.fillPos s.doorbell slot then
      some { s with fetched := Function.update s.fetched slot (some (s.ring slot)) }
    else none
  | .fill w image =>
    if IsRxEvent w ∧ s.fillPos ≠ s.doorbell then some (s.filled w image) else none
  | .call nbBufs =>
    match s.batch with
    | some _ => none
    | none =>
      let out := poll s.pi.session (min nbBufs capioMaxBurst : Nat)
      some
        { s with
          pi := { s.pi with session := out.2 }
          batch := if out.1.getD [] = [] then none else out.1 }
  | .event reply₁ reply₂ =>
    match s.batch with
    | some (ev :: evs) =>
      if poolAnswers s.owner s.pi.rxq.stash reply₁ reply₂ &&
          allocates s.pi.rxq.stash reply₁ reply₂ then
        let out := pmdEvent s.pi ev reply₁ reply₂
        some
          { s with
            pi := out.pi
            owner := settleAll s.owner out.acts
            batch := some (if out.more then evs else [])
            attributed :=
              if ev.type = .rx then s.attributed ++ [s.pi.attributed]
              else s.attributed }
      else none
    | _ => none
  | .flush =>
    match s.batch with
    | some [] =>
      some { s with pi := { s.pi with session := rxFlush s.pi.session }, batch := none }
    | _ => none
  | .appUse m mb =>
    if s.owner m = .app ∧ mb.bufIova = (s.pi.mbufs m).bufIova ∧
        mb.bufLen = (s.pi.mbufs m).bufLen then
      some { s with pi := { s.pi with mbufs := Function.update s.pi.mbufs m mb } }
    else none
  | .appFree m =>
    if s.owner m = .app then some { s with owner := Function.update s.owner m .pool }
    else none

/-- A device as attach leaves it: identity descriptors, doorbell 511, `rx_head` 0
and an empty event queue. -/
structure Attached (geom : Geometry) (sc : Softc) : Prop where
  base : sc.rxBufferPaddr = geom.rxBufferPaddr
  posted : ∃ dev, sc.dev = postRxBuffers geom.rxBufferPaddr dev
  rxHead : sc.rxHead = 0
  readPtrLt : sc.dataEvqReadPtr < 512
  vacant : ∀ i, i < numEvqEntry → slotVacant (sc.dev.evqRing i)

/-- What the driver relies on in its pool: every mbuf can be posted, at a bus
address a descriptor can hold and outside the library's RX buffer. -/
structure PoolFits (geom : Geometry) (ops : MbufOps) (mbufs : Nat → RteMbuf) : Prop where
  postable : ∀ m, Postable ops (ops.reset (mbufs m))
  addressLt : ∀ m, (ops.dataIovaDefault (mbufs m)).toNat < 2 ^ 48
  outside : ∀ m i, i < 512 →
    (ops.dataIovaDefault (mbufs m)).toNat ≠ geom.rxBufferPaddr.toNat + i * 2048

/-- The driver after probe in zero-copy mode. -/
def attrStart (sc : Softc) (rxWindow : Option (BitVec 32)) (ops : MbufOps)
    (mbufs : Nat → RteMbuf) : AttrSys where
  pi := ethDevCapioCreate sc rxWindow false ops mbufs
  owner := fun _ => .pool
  fillPos := sc.rxHead
  evqWptr := sc.dataEvqReadPtr
  fetched := fun _ => none
  batch := none
  used := []
  attributed := []

/-- The buffers attributed so far are the buffers of the fills, and the tail post
of the event at hand does not rewrite a slot the doorbell covers. -/
structure Attributes (s : AttrSys) : Prop where
  named : ∀ (k : Nat) a, s.attributed[k]? = some a →
    ∃ desc, s.used[k]? = some desc ∧ descAddr desc = a.toNat
  apart : ∀ ev evs, s.batch = some (ev :: evs) →
    ¬ Covers s.pi.session.sfc.rxHead s.doorbell
      ((s.pi.session.sfc.rxHead + s.pi.session.sfc.rxWindow) % 512)

/-- The frame carries payload according to its event. -/
def AttrLabel.NonEmpty : AttrLabel → Prop
  | .fill w _ => eventLen (evRxBytes w) ≠ 0
  | _ => True

instance : DecidablePred AttrLabel.NonEmpty := fun l =>
  match l with
  | .fill w _ => inferInstanceAs (Decidable (eventLen (evRxBytes w) ≠ 0))
  | .fetch _ | .call _ | .event _ _ | .flush | .appUse _ _ | .appFree _ =>
    inferInstanceAs (Decidable True)

/-- The mbufs that the event at hand has to post have a bus address and room. -/
def PostsAccepted (s : AttrSys) : AttrLabel → Prop
  | .event reply₁ reply₂ =>
    ∀ ev ∈ (s.batch.getD []).head?, EventFits s.pi ev.rxBytes reply₁ reply₂
  | _ => True

/-! ## Positions on the ring

Slots are counted by positions: the card stands at position `F`, the driver at
position `P`, and the doorbell is the residue of a grant. -/

/-- What the card may still fill has a position before the grant. -/
theorem exists_position_of_covers {F G slot : Nat} (hle : F ≤ G) (hlt : G < F + 512)
    (hslot : slot < 512) (hcovers : Covers (F % 512) (G % 512) slot) :
    ∃ q, F ≤ q ∧ q < G ∧ slot = q % 512 := by
  unfold Covers at hcovers
  refine ⟨F + (slot + (512 - F % 512)) % 512, Nat.le_add_right F _, ?_, ?_⟩
  · omega
  · omega

/-- A slot 511 positions ahead is never covered: that would be a full lap. -/
theorem not_covers_tail (P doorbell : Nat) :
    ¬ Covers (P % 512) doorbell ((P % 512 + 511) % 512) := by
  unfold Covers
  omega

/-- The bus address of the buffer the driver would take from the slot `d`
positions ahead. -/
def Internals.addrAt (pi : Internals) (d : Nat) : BitVec 64 :=
  match pi.cookieAt d with
  | some m => pi.ops.dataIovaDefault (pi.mbufs m)
  | none => slotPa pi.session.sfc.rxBufferPaddr ((pi.session.sfc.rxHead + d) % 512)

theorem Internals.addrAt_zero {pi : Internals} (hhead : pi.session.sfc.rxHead < 512) :
    pi.addrAt 0 = pi.attributed := by
  simp only [Internals.addrAt, Internals.attributed, Internals.cookieAt, Nat.add_zero,
    Nat.mod_eq_of_lt hhead]

/-- The address depends on the cookies, the cursor and fixed addresses only. -/
theorem Internals.addrAt_congr {pi pi' : Internals} {d d' : Nat}
    (hcookie : pi'.cookieAt d' = pi.cookieAt d)
    (hslot : (pi'.session.sfc.rxHead + d') % 512 = (pi.session.sfc.rxHead + d) % 512)
    (hbase : pi'.session.sfc.rxBufferPaddr = pi.session.sfc.rxBufferPaddr)
    (haddr : ∀ m, pi'.ops.dataIovaDefault (pi'.mbufs m) =
      pi.ops.dataIovaDefault (pi.mbufs m)) :
    pi'.addrAt d' = pi.addrAt d := by
  simp only [Internals.addrAt, hcookie, hslot, hbase, haddr]

theorem slotPa_toNat_geom (geom : Geometry) {i : Nat} (hi : i < 512) :
    (slotPa geom.rxBufferPaddr i).toNat = geom.rxBufferPaddr.toNat + i * 2048 := by
  have hfits := geom.rxFits
  simp only [numRxDesc, rxBufferSize] at hfits
  exact slotPa_toNat hfits hi

/-- What an event leaves with a window of 511: the head moves on, every slot the card may
use keeps its buffer, and descriptors still agree with expected addresses. -/
structure Moved (pi pi' : Internals) : Prop where
  rxHead : pi'.session.sfc.rxHead = (pi.session.sfc.rxHead + 1) % 512
  base : pi'.session.sfc.rxBufferPaddr = pi.session.sfc.rxBufferPaddr
  address : ∀ m, pi'.ops.dataIovaDefault (pi'.mbufs m) =
    pi.ops.dataIovaDefault (pi.mbufs m)
  closer : ∀ d, d < 510 → pi'.addrAt d = pi.addrAt (d + 1)
  ahead : (∀ d, descAddr (pi.session.dev.rxDescRing ((pi.session.sfc.rxHead + d) % 512)) =
      (pi.addrAt d).toNat) →
    ∀ d, descAddr (pi'.session.dev.rxDescRing ((pi'.session.sfc.rxHead + d) % 512)) =
      (pi'.addrAt d).toNat

section Moved

variable {pi : Internals} {out : RxOutcome} {t : Taken} {acts : List MbufAct}

/-- A post: the slot 511 ahead of the old head gets the new descriptor and cookie. -/
theorem RxEffect.moved_of_post {p : Nat} (heff : RxEffect pi out t (.post p) acts)
    (hready : pi.session.sfc.Ready) (hwindow : pi.session.sfc.rxWindow = 511)
    (hlt : (pi.ops.dataIovaDefault (pi.mbufs p)).toNat < 2 ^ 48) : Moved pi out.pi := by
  have hhead := (heff.advanced hready).rxHead
  have hcookie := heff.cookieAt_post (by rw [hwindow]; decide)
  rw [hwindow] at hcookie
  have haddress := heff.carries.dataIovaDefault
  obtain ⟨len, hsession⟩ := heff.session
  have hbase : out.pi.session.sfc.rxBufferPaddr = pi.session.sfc.rxBufferPaddr := by
    rw [hsession]
    rfl
  have hother : ∀ d, (d + 1) % 512 ≠ 511 → out.pi.addrAt d = pi.addrAt (d + 1) := by
    intro d hd
    refine Internals.addrAt_congr ?_ (by omega) hbase haddress
    rw [hcookie, if_neg hd]
  refine ⟨hhead, hbase, haddress, fun d hd => hother d (by omega), ?_⟩
  intro hahead d
  have hring : out.pi.session.dev.rxDescRing =
      Function.update pi.session.dev.rxDescRing ((pi.session.sfc.rxHead + 511) % 512)
        (descWord (pi.ops.dataIovaDefault (pi.mbufs p)) len) := by
    rw [hsession]
    simp only [tailPosted, polledSession, hwindow]
  rw [hring, hhead]
  by_cases htail : (d + 1) % 512 = 511
  · have hslot : ((pi.session.sfc.rxHead + 1) % 512 + d) % 512 =
        (pi.session.sfc.rxHead + 511) % 512 := by omega
    rw [hslot, Function.update_self, descAddr_descWord, Nat.mod_eq_of_lt hlt]
    simp only [Internals.addrAt, hcookie, if_pos htail, haddress]
  · have hslot : ((pi.session.sfc.rxHead + 1) % 512 + d) % 512 =
        (pi.session.sfc.rxHead + (d + 1)) % 512 := by omega
    rw [hslot, Function.update_of_ne (by omega), hother d htail]
    exact hahead (d + 1)

/-- A release: the old head slot gets its identity descriptor again. -/
theorem RxEffect.moved_of_release {geom : Geometry} (heff : RxEffect pi out t .release acts)
    (hready : pi.session.sfc.Ready) (hlt : pi.session.sfc.rxHead < 512)
    (hgeom : pi.session.sfc.rxBufferPaddr = geom.rxBufferPaddr)
    (hlibrary : pi.cookieAt 0 = none) : Moved pi out.pi := by
  have hhead := (heff.advanced hready).rxHead
  have haddress := heff.carries.dataIovaDefault
  have hsession : out.pi.session = released (polledSession pi.session) := heff.session
  have hbase : out.pi.session.sfc.rxBufferPaddr = pi.session.sfc.rxBufferPaddr := by
    rw [hsession]
    rfl
  have hother : ∀ d, out.pi.addrAt d = pi.addrAt (d + 1) := fun d =>
    Internals.addrAt_congr (heff.cookieAt_release d) (by omega) hbase haddress
  refine ⟨hhead, hbase, haddress, fun d _ => hother d, ?_⟩
  intro hahead d
  have hring : out.pi.session.dev.rxDescRing =
      Function.update pi.session.dev.rxDescRing pi.session.sfc.rxHead
        (identityDesc pi.session.sfc.rxBufferPaddr pi.session.sfc.rxHead) := by
    rw [hsession]
    rfl
  have hslot : ((pi.session.sfc.rxHead + 1) % 512 + d) % 512 =
      (pi.session.sfc.rxHead + (d + 1)) % 512 := by omega
  rw [hring, hhead, hslot, hother]
  by_cases hlap : (pi.session.sfc.rxHead + (d + 1)) % 512 = pi.session.sfc.rxHead
  · have hnone : pi.cookieAt (d + 1) = none := by
      rw [Internals.cookieAt, hlap, ← Internals.cookieAt_zero hlt]
      exact hlibrary
    simp only [Internals.addrAt, hnone, hlap, Function.update_self, hgeom]
    rw [(namesOwnSlot_identityDesc geom hlt).1, slotPa_toNat_geom geom hlt]
  · rw [Function.update_of_ne hlap]
    exact hahead (d + 1)

end Moved

/-! ## The largest window -/

/-- The invariant for window 511.  On a `strict` run no frame is empty, and the mbufs are
kept apart as well. -/
structure AttrInv (geom : Geometry) (strict : Prop) (s : AttrSys) : Prop where
  ready : s.pi.session.sfc.Ready
  window : s.pi.session.sfc.rxWindow = 511
  live : strict → LiveInv 511 s.pi s.owner
  zeroCopy : s.pi.rxCopy = false
  base : s.pi.session.sfc.rxBufferPaddr = geom.rxBufferPaddr
  addressLt : ∀ m, (s.pi.ops.dataIovaDefault (s.pi.mbufs m)).toNat < 2 ^ 48
  rxHead : s.pi.session.sfc.rxHead = s.attributed.length % 512
  fillPos : s.fillPos = s.used.length % 512
  credit : Credit 512 0 s.attributed.length s.used.length s.doorbell
  /-- the slots ahead hold the buffers the driver expects there -/
  ahead : ∀ d, descAddr (s.ring ((s.pi.session.sfc.rxHead + d) % 512)) = (s.pi.addrAt d).toNat
  /-- so did the slots the card has filled -/
  filled : ∀ (k : Nat) desc, s.used[k]? = some desc → s.attributed.length ≤ k →
    descAddr desc = (s.pi.addrAt (k - s.attributed.length)).toNat
  /-- and those it has read ahead -/
  fetched : ∀ slot desc, s.fetched slot = some desc →
    ∃ q, s.used.length ≤ q ∧ q < s.attributed.length + 511 ∧ slot = q % 512 ∧
      descAddr desc = (s.pi.addrAt (q - s.attributed.length)).toNat
  named : ∀ (k : Nat) a, s.attributed[k]? = some a →
    ∃ desc, s.used[k]? = some desc ∧ descAddr desc = a.toNat
  batch : ∀ ev ∈ s.batch.getD [], ev.type = .rx ∧ (strict → eventLen ev.rxBytes ≠ 0)
  events : ∃ pending, EvqPending s.pi.session s.evqWptr pending ∧
    (∀ w ∈ pending, IsRxEvent w ∧ (strict → eventLen (evRxBytes w) ≠ 0)) ∧
    s.attributed.length + (s.batch.getD []).length + pending.length = s.used.length

namespace AttrInv

variable {geom : Geometry} {strict : Prop} {s s' : AttrSys}

theorem headLt (hinv : AttrInv geom strict s) : s.pi.session.sfc.rxHead < 512 := by
  rw [hinv.rxHead]
  exact Nat.mod_lt _ (by decide)

theorem attributes (hinv : AttrInv geom strict s) : Attributes s := by
  refine ⟨hinv.named, ?_⟩
  intro ev evs _
  rw [hinv.window, hinv.rxHead]
  exact not_covers_tail _ _

/-- The grant, with what the card may still fill. -/
theorem grant (hinv : AttrInv geom strict s) :
    ∃ G, s.doorbell = G % 512 ∧ s.used.length ≤ G ∧ G < s.attributed.length + 512 ∧
      s.attributed.length ≤ s.used.length := by
  obtain ⟨hle, grant, hdbl, hahead, hbound⟩ := hinv.credit
  rw [Nat.zero_add] at hdbl
  exact ⟨grant, hdbl, hahead, hbound, hle⟩

theorem fetch {slot : Nat} (hinv : AttrInv geom strict s)
    (hstep : attrStep s (.fetch slot) = some s') : AttrInv geom strict s' := by
  simp only [attrStep] at hstep
  split at hstep
  · rename_i hguard
    cases hstep
    obtain ⟨hslot, hcovers⟩ := hguard
    obtain ⟨G, hdbl, hahead, hbound, hle⟩ := hinv.grant
    rw [hinv.fillPos, hdbl] at hcovers
    obtain ⟨q, hlow, hhigh, rfl⟩ :=
      exists_position_of_covers hahead (by omega) hslot hcovers
    have hnew : descAddr (s.ring (q % 512)) =
        (s.pi.addrAt (q - s.attributed.length)).toNat := by
      have hpos : (s.pi.session.sfc.rxHead + (q - s.attributed.length)) % 512 = q % 512 := by
        rw [hinv.rxHead]
        omega
      rw [← hinv.ahead, hpos]
    refine { hinv with fetched := ?_ }
    intro slot' desc hdesc
    by_cases heq : slot' = q % 512
    · subst heq
      simp only [Function.update_self, Option.some.injEq] at hdesc
      subst hdesc
      have hwithin : q < s.attributed.length + 511 := by omega
      exact ⟨q, hlow, hwithin, rfl, hnew⟩
    · simp only [Function.update_of_ne heq] at hdesc
      exact hinv.fetched slot' desc hdesc
  · cases hstep

/-- The card's next fill goes to the buffer the driver expects. -/
theorem nextDesc (hinv : AttrInv geom strict s) (hmove : s.fillPos ≠ s.doorbell) :
    descAddr s.nextDesc =
      (s.pi.addrAt (s.used.length - s.attributed.length)).toNat := by
  obtain ⟨G, hdbl, hahead, hbound, hle⟩ := hinv.grant
  rw [hinv.fillPos, hdbl] at hmove
  have hroom : s.used.length < s.attributed.length + 511 := by
    rcases Nat.lt_or_ge s.used.length G with hlt | hge
    · omega
    · exact absurd (by rw [Nat.le_antisymm hahead hge]) hmove
  unfold AttrSys.nextDesc
  cases hfetched : s.fetched s.fillPos with
  | some desc =>
    obtain ⟨q, hlow, hhigh, hslot, haddr⟩ := hinv.fetched s.fillPos desc hfetched
    obtain rfl : q = s.used.length := by
      rw [hinv.fillPos] at hslot
      omega
    exact haddr
  | none =>
    have hpos : (s.pi.session.sfc.rxHead + (s.used.length - s.attributed.length)) % 512 =
        s.fillPos := by
      rw [hinv.rxHead, hinv.fillPos]
      omega
    rw [← hinv.ahead, hpos]
    rfl

theorem fill {w : BitVec 64} {image : Nat → BitVec 8} (hinv : AttrInv geom strict s)
    (hgood : strict → eventLen (evRxBytes w) ≠ 0) (hstep : attrStep s (.fill w image) = some s') :
    AttrInv geom strict s' := by
  simp only [attrStep] at hstep
  split at hstep
  · rename_i hguard
    cases hstep
    obtain ⟨hw, hmove⟩ := hguard
    have hnext := hinv.nextDesc hmove
    obtain ⟨pending, hev, hpending, hcount⟩ := hinv.events
    have hfree := hinv.credit.filled_lt
    have hmove' : (0 + s.used.length) % 512 ≠ s.doorbell := by
      rw [Nat.zero_add, ← hinv.fillPos]
      exact hmove
    have hlen : (s.filled w image).used.length = s.used.length + 1 := by
      simp [AttrSys.filled]
    -- the fill moves the card; nothing the driver goes by changes
    refine
      { hinv with
        live := fun h => (hinv.live h).withSession hinv.ready rfl rfl rfl
        fillPos := ?_
        credit := ?_
        filled := ?_
        fetched := ?_
        named := ?_
        events := ?_ }
    · rw [hlen]
      simp only [AttrSys.filled, hinv.fillPos, numRxDesc]
      omega
    · rw [hlen]
      exact hinv.credit.fill hmove'
    · intro k desc hk hle
      rcases getElem?_concat_cases hk with hold | ⟨rfl, rfl⟩
      · exact hinv.filled k desc hold hle
      · exact hnext
    · intro slot desc hdesc
      have hne : slot ≠ s.fillPos := by
        rintro rfl
        simp [AttrSys.filled] at hdesc
      have hdesc' : s.fetched slot = some desc := by
        simpa only [AttrSys.filled, Function.update_of_ne hne] using hdesc
      obtain ⟨q, hlow, hhigh, hslot, haddr⟩ := hinv.fetched slot desc hdesc'
      have hpast : q ≠ s.used.length := by
        rintro rfl
        exact hne (hslot.trans hinv.fillPos.symm)
      rw [hlen]
      exact ⟨q, by omega, hhigh, hslot, haddr⟩
    · intro k a ha
      obtain ⟨desc, hdesc, haddr⟩ := hinv.named k a ha
      exact ⟨desc, getElem?_concat_of_some hdesc, haddr⟩
    · rw [hlen]
      refine ⟨pending ++ [w], ?_, ?_, ?_⟩
      · have hwrite := hev.write hw.2 (by omega)
        exact { hwrite with }
      · intro v hv
        rcases List.mem_append.mp hv with hold | hnew
        · exact hpending v hold
        · rw [List.mem_singleton.mp hnew]
          exact ⟨hw, hgood⟩
      · simp only [AttrSys.filled, List.length_append, List.length_singleton]
        omega
  · cases hstep

/-- A step of the driver's own that leaves cursors, cookies and rings alone. -/
theorem withSession (hinv : AttrInv geom strict s) {session : Session} {batch : Option (List Ev)}
    (hready : session.sfc.Ready) (hhead : session.sfc.rxHead = s.pi.session.sfc.rxHead)
    (hwindow : session.sfc.rxWindow = s.pi.session.sfc.rxWindow)
    (hcookies : session.sfc.rxExtCookie = s.pi.session.sfc.rxExtCookie)
    (hbase : session.sfc.rxBufferPaddr = s.pi.session.sfc.rxBufferPaddr)
    (hring : session.dev.rxDescRing = s.pi.session.dev.rxDescRing)
    (hcredit : Credit 512 0 s.attributed.length s.used.length (session.dev.rxDescDbl % 512))
    (hbatch : ∀ ev ∈ batch.getD [], ev.type = .rx ∧ (strict → eventLen ev.rxBytes ≠ 0))
    (hevents : ∃ pending, EvqPending session s.evqWptr pending ∧
      (∀ w ∈ pending, IsRxEvent w ∧ (strict → eventLen (evRxBytes w) ≠ 0)) ∧
      s.attributed.length + (batch.getD []).length + pending.length = s.used.length) :
    AttrInv geom strict { s with pi := { s.pi with session := session }, batch := batch } := by
  have haddr : ∀ d, Internals.addrAt { s.pi with session := session } d = s.pi.addrAt d := by
    intro d
    apply Internals.addrAt_congr
    · simp only [Internals.cookieAt, hhead, hcookies]
    · rw [hhead]
    · exact hbase
    · intro m
      rfl
  exact
    { hinv with
      ready := hready
      window := hwindow.trans hinv.window
      live := fun h => (hinv.live h).withSession hready hhead hwindow hcookies
      base := hbase.trans hinv.base
      rxHead := hhead.trans hinv.rxHead
      credit := hcredit
      ahead := by
        intro d
        simp only [haddr]
        rw [← hinv.ahead d]
        simp only [AttrSys.ring, hring, hhead]
      filled := by
        intro k desc hk hle
        simp only [haddr]
        exact hinv.filled k desc hk hle
      fetched := by
        intro slot desc hdesc
        simp only [haddr]
        exact hinv.fetched slot desc hdesc
      batch := hbatch
      events := hevents }

theorem call {nbBufs : Nat} (hinv : AttrInv geom strict s)
    (hstep : attrStep s (.call nbBufs) = some s') : AttrInv geom strict s' := by
  simp only [attrStep] at hstep
  cases hbatch : s.batch with
  | some evs => simp [hbatch] at hstep
  | none =>
    simp only [hbatch, Option.some.injEq] at hstep
    obtain ⟨pending, hev, hpending, hcount⟩ := hinv.events
    obtain ⟨taken, rest, used, readPtr, evq, dbl, rfl, hlen, hpoll, hrest⟩ :=
      hev.poll (min nbBufs capioMaxBurst)
    have hgot : (poll s.pi.session (min nbBufs capioMaxBurst : Nat)).1.getD [] =
        taken.map decodeEvent := by
      rw [hpoll]
      by_cases hzero : min nbBufs capioMaxBurst = 0
      · have hnil : taken = [] := by
          apply List.eq_nil_of_length_eq_zero
          omega
        simp [hzero, hnil]
      · simp [hzero]
    have hbatchEvs : ∀ o : Option (List Ev),
        (if o.getD [] = [] then none else o).getD [] = o.getD [] := by
      intro o
      split
      · rename_i hnil
        rw [hnil]
        rfl
      · rfl
    rw [hbatch] at hcount
    subst hstep
    simp only [hpoll] at hgot ⊢
    apply hinv.withSession hrest.ready rfl rfl rfl rfl rfl hinv.credit
    · rw [hbatchEvs, hgot]
      intro ev hmem
      obtain ⟨w, hw, rfl⟩ := List.mem_map.mp hmem
      obtain ⟨hrx, hlong⟩ := hpending w (List.mem_append_left rest hw)
      simp only [decodeEvent, hrx.1, if_true]
      exact ⟨trivial, hlong⟩
    · rw [hbatchEvs, hgot]
      refine ⟨rest, hrest, fun w hw => hpending w (List.mem_append_right taken hw), ?_⟩
      simp only [Option.getD_none, List.length_nil, List.length_append,
        List.length_map] at hcount ⊢
      omega

theorem flush (hinv : AttrInv geom strict s) (hstep : attrStep s .flush = some s') :
    AttrInv geom strict s' := by
  simp only [attrStep] at hstep
  split at hstep
  · rename_i hbatch
    cases hstep
    have hready := hinv.ready
    have hflush := rxFlush_of_ready hready
    have hbound := hinv.credit.filled_lt
    obtain ⟨pending, hev, hpending, hcount⟩ := hinv.events
    rw [hbatch] at hcount
    apply hinv.withSession
    · rw [hflush]
      exact hready
    · rw [hflush]
    · rw [hflush]
    · rw [hflush]
    · rw [hflush]
    · rw [hflush]
    · have hgrant : (rxFlush s.pi.session).dev.rxDescDbl % 512 =
          (0 + (s.attributed.length + 511)) % 512 := by
        simp only [hflush, hinv.window, hinv.rxHead]
        omega
      rw [hgrant]
      exact Credit.ring hinv.credit.1 (by omega) (by omega)
    · simp
    · rw [hflush]
      exact ⟨pending, { hev with }, hpending, hcount⟩
  · cases hstep

theorem appUse {m : Nat} {mb : RteMbuf} (hinv : AttrInv geom strict s)
    (hstep : attrStep s (.appUse m mb) = some s') : AttrInv geom strict s' := by
  simp only [attrStep] at hstep
  split at hstep
  · rename_i hguard
    cases hstep
    obtain ⟨hown, hiova, hlen⟩ := hguard
    have hfixed : ∀ y, s.pi.ops.dataIovaDefault (Function.update s.pi.mbufs m mb y) =
        s.pi.ops.dataIovaDefault (s.pi.mbufs y) := by
      intro y
      by_cases hy : y = m
      · subst hy
        rw [Function.update_self]
        exact s.pi.ops.dataIovaDefault_congr hiova hlen
      · rw [Function.update_of_ne hy]
    have haddr : ∀ d,
        Internals.addrAt { s.pi with mbufs := Function.update s.pi.mbufs m mb } d =
          s.pi.addrAt d :=
      fun d => Internals.addrAt_congr rfl rfl rfl hfixed
    exact
      { hinv with
        live := fun h => (hinv.live h).appUse hown hiova hlen
        addressLt := by
          intro y
          simp only [hfixed]
          exact hinv.addressLt y
        ahead := by
          intro d
          simp only [haddr]
          exact hinv.ahead d
        filled := by
          intro k desc hk hle
          simp only [haddr]
          exact hinv.filled k desc hk hle
        fetched := by
          intro slot desc hdesc
          simp only [haddr]
          exact hinv.fetched slot desc hdesc }
  · cases hstep

theorem appFree {m : Nat} (hinv : AttrInv geom strict s)
    (hstep : attrStep s (.appFree m) = some s') : AttrInv geom strict s' := by
  simp only [attrStep] at hstep
  split at hstep
  · rename_i hown
    cases hstep
    exact { hinv with live := fun h => (hinv.live h).appFree hown }
  · cases hstep

theorem handled {pi' : Internals} {owner' : Nat → Owner} {ev : Ev} {evs : List Ev}
    (hinv : AttrInv geom strict s) (hbatch : s.batch = some (ev :: evs))
    (hadv : Advanced s.pi pi') (hmoved : Moved s.pi pi')
    (hlive : strict → LiveInv 511 pi' owner')
    (hcredit : s.attributed.length < s.used.length →
      Credit 512 0 (s.attributed.length + 1) s.used.length (pi'.session.dev.rxDescDbl % 512))
    (hqueue : ∀ pending, EvqPending s.pi.session s.evqWptr pending →
      EvqPending pi'.session s.evqWptr pending) :
    AttrInv geom strict
      { s with
        pi := pi'
        owner := owner'
        batch := some evs
        attributed := s.attributed ++ [s.pi.attributed] } := by
  obtain ⟨pending, hev, hpending, hcount⟩ := hinv.events
  have hbatchOk := hinv.batch
  rw [hbatch, Option.getD_some] at hcount hbatchOk
  rw [List.length_cons] at hcount
  have hlt : s.attributed.length < s.used.length := by omega
  have hbound := hinv.credit.filled_lt
  have hlen : (s.attributed ++ [s.pi.attributed]).length = s.attributed.length + 1 := by
    simp
  refine
    { ready := hadv.ready
      window := hadv.rxWindow.trans hinv.window
      live := hlive
      zeroCopy := hadv.rxCopy.trans hinv.zeroCopy
      base := hmoved.base.trans hinv.base
      addressLt := ?_
      rxHead := ?_
      fillPos := hinv.fillPos
      credit := ?_
      ahead := hmoved.ahead hinv.ahead
      filled := ?_
      fetched := ?_
      named := ?_
      batch := fun e he => hbatchOk e (List.mem_cons_of_mem ev he)
      events := ⟨pending, hqueue pending hev, hpending, ?_⟩ }
  · intro m
    rw [hmoved.address]
    exact hinv.addressLt m
  · rw [hlen, hmoved.rxHead, hinv.rxHead]
    omega
  · rw [hlen]
    exact hcredit hlt
  · -- distances shrink by one along with the head
    intro k desc hk hle
    rw [hlen] at hle
    have hkLt : k < s.used.length := (List.getElem?_eq_some_iff.mp hk).1
    rw [hlen, hmoved.closer _ (by omega), hinv.filled k desc hk (by omega)]
    congr 2
    omega
  · -- what is fetched ahead lies behind the fills, where the head has not come yet
    intro slot desc hdesc
    obtain ⟨q, hlow, hhigh, hslot, haddr⟩ := hinv.fetched slot desc hdesc
    refine ⟨q, hlow, by rw [hlen]; omega, hslot, ?_⟩
    rw [hlen, hmoved.closer _ (by omega), haddr]
    congr 2
    have : s.attributed.length < q := Nat.lt_of_lt_of_le hlt hlow
    omega
  · intro k a ha
    rcases getElem?_concat_cases ha with hold | ⟨rfl, rfl⟩
    · exact hinv.named k a hold
    · -- the frame just handed on is the oldest fill not attributed yet
      obtain ⟨desc, hdesc⟩ : ∃ desc, s.used[s.attributed.length]? = some desc :=
        ⟨_, List.getElem?_eq_getElem hlt⟩
      refine ⟨desc, hdesc, ?_⟩
      rw [hinv.filled _ desc hdesc (Nat.le_refl _), Nat.sub_self,
        Internals.addrAt_zero hinv.headLt]
  · have hsum : s.attributed.length + 1 + evs.length + pending.length = s.used.length := by
      omega
    rw [hlen, Option.getD_some]
    exact hsum

theorem event {reply₁ reply₂ : PoolReply} (hinv : AttrInv geom strict s)
    (hfits : ¬ strict → PostsAccepted s (.event reply₁ reply₂))
    (hstep : attrStep s (.event reply₁ reply₂) = some s') : AttrInv geom strict s' := by
  simp only [attrStep] at hstep
  split at hstep
  · rename_i ev evs hbatch
    have hbatchOk := hinv.batch
    rw [hbatch, Option.getD_some] at hbatchOk
    obtain ⟨hrx, hlong⟩ := hbatchOk ev (List.mem_cons_self ..)
    have hpmd : pmdEvent s.pi ev reply₁ reply₂ = rxEvent s.pi ev.rxBytes reply₁ reply₂ := by
      rw [pmdEvent, hrx]
    rw [hpmd, hrx] at hstep
    split at hstep
    · rename_i hguard
      rw [Bool.and_eq_true, allocates, Bool.and_eq_true] at hguard
      obtain ⟨hanswers, hgot₁, hgot₂⟩ := hguard
      have hfit : EventFits s.pi ev.rxBytes reply₁ reply₂ := by
        by_cases hstrict : strict
        · exact (hinv.live hstrict).eventFits (by decide) hanswers _
        · exact hfits hstrict ev (by rw [hbatch]; rfl)
      obtain ⟨second, back, acts, used, hturn⟩ := EventTurn.of_fits hinv.ready hinv.headLt hfit
      have hadv := hturn.effect.advanced hinv.ready
      -- both allocations succeed, so an event on a strict run posts
      have hlive : strict → LiveInv 511 (rxEvent s.pi ev.rxBytes reply₁ reply₂).pi
          (settleAll s.owner (rxEvent s.pi ev.rxBytes reply₁ reply₂).acts) := by
        intro hstrict
        obtain ⟨p, rfl⟩ := hturn.line.exists_post hinv.zeroCopy
          (frameLen_ne_zero (hlong hstrict) _ _) hgot₁ hgot₂
        exact (hinv.live hstrict).event (by decide) (by decide) hanswers hturn
          (fun hback => by cases hback)
      rw [hturn.effect.more] at hstep
      simp only [if_true, Option.some.injEq] at hstep
      subst hstep
      have hline := hturn.line
      have heff := hturn.effect
      cases back with
      | post p =>
        obtain ⟨len, hsession⟩ := heff.session
        refine hinv.handled hbatch hadv
          (heff.moved_of_post hinv.ready hinv.window (hinv.addressLt p)) hlive ?_ ?_
        · intro hlt
          rw [hsession]
          exact hinv.credit.giveBack hlt
        · intro pending hev
          rw [hsession]
          exact { hev with ready := { hev.ready with } }
      | release =>
        -- only a library slot is released; the doorbell moves with the head
        have hsession : (rxEvent s.pi ev.rxBytes reply₁ reply₂).pi.session =
            released (polledSession s.pi.session) := heff.session
        have hlibrary := hline.release_cookie rfl hinv.zeroCopy
        refine hinv.handled hbatch hadv
          (heff.moved_of_release hinv.ready hinv.headLt hinv.base hlibrary) hlive ?_ ?_
        · intro hlt
          have hbound := hinv.credit.filled_lt
          have hdbl : (released (polledSession s.pi.session)).dev.rxDescDbl % 512 =
              (0 + (s.attributed.length + 512)) % 512 := by
            simp only [released, polledSession, hinv.window, hinv.rxHead]
            omega
          rw [hsession, hdbl]
          exact Credit.ring hlt (by omega) (by omega)
        · intro pending hev
          rw [hsession]
          exact { hev with ready := { hev.ready with } }
    · cases hstep
  · cases hstep

end AttrInv

/-- Every step keeps the invariant, if on a strict run no frame is empty and otherwise
no post is refused. -/
theorem attrInv_step {geom : Geometry} {strict : Prop} {s s' : AttrSys} {a : AttrLabel}
    (hinv : AttrInv geom strict s) (hgood : strict → a.NonEmpty)
    (hfits : ¬ strict → PostsAccepted s a) (hstep : attrStep s a = some s') :
    AttrInv geom strict s' := by
  cases a with
  | fetch slot => exact hinv.fetch hstep
  | fill w image => exact hinv.fill hgood hstep
  | call nbBufs => exact hinv.call hstep
  | event reply₁ reply₂ => exact hinv.event hfits hstep
  | flush => exact hinv.flush hstep
  | appUse m mb => exact hinv.appUse hstep
  | appFree m => exact hinv.appFree hstep

section Start

variable {geom : Geometry} {sc : Softc} {rxWindow : Option (BitVec 32)} {ops : MbufOps}
variable {mbufs : Nat → RteMbuf}

/-- The ring attach leaves behind names the library buffers. -/
theorem Attached.descAddr_ring (hsc : Attached geom sc) {i : Nat} (hi : i < 512) :
    descAddr (sc.dev.rxDescRing i) = geom.rxBufferPaddr.toNat + i * 2048 := by
  obtain ⟨dev, hdev⟩ := hsc.posted
  rw [hdev]
  exact (ringIsIdentity_postRxBuffers geom dev i hi).1

theorem Attached.doorbell (hsc : Attached geom sc) : sc.dev.rxDescDbl = 511 := by
  obtain ⟨dev, hdev⟩ := hsc.posted
  rw [hdev]
  rfl

theorem Attached.evqPending (hsc : Attached geom sc) :
    EvqPending { sfc := sfcInit sc rxWindow, dev := sc.dev } sc.dataEvqReadPtr [] where
  ready := ⟨rfl, rfl, rfl, rfl, rfl, rfl, rfl⟩
  evqWptr := (Nat.mod_eq_of_lt hsc.readPtrLt).symm
  holds := EvqHolds.empty hsc.vacant hsc.readPtrLt

theorem attrInv_attrStart (hsc : Attached geom sc) (hpool : PoolFits geom ops mbufs)
    (hwindow : initRxWindow rxWindow = 511) (strict : Prop) :
    AttrInv geom strict (attrStart sc rxWindow ops mbufs) where
  ready := ⟨rfl, rfl, rfl, rfl, rfl, rfl, rfl⟩
  window := hwindow
  live := fun _ =>
    { ready := ⟨rfl, rfl, rfl, rfl, rfl, rfl, rfl⟩
      headLt := by
        change sc.rxHead < 512
        rw [hsc.rxHead]
        decide
      window := hwindow
      fit := hpool.postable
      stashNodup := List.nodup_nil
      stashOwned := by
        intro y hy
        cases hy
      stashPostable := by
        intro y hy
        cases hy
      live := by
        intro d m _ hm
        cases hm
      distinct := by
        intro d d' m _ _ hm
        cases hm }
  zeroCopy := rfl
  base := hsc.base
  addressLt := hpool.addressLt
  rxHead := hsc.rxHead
  fillPos := hsc.rxHead
  credit := by
    change Credit 512 0 0 0 (sc.dev.rxDescDbl % 512)
    rw [hsc.doorbell]
    exact Credit.initial (by decide)
  ahead := by
    intro d
    change descAddr (sc.dev.rxDescRing ((sc.rxHead + d) % 512)) =
      (slotPa sc.rxBufferPaddr ((sc.rxHead + d) % 512)).toNat
    have hlt : (sc.rxHead + d) % 512 < 512 := Nat.mod_lt _ (by decide)
    rw [hsc.descAddr_ring hlt, hsc.base, slotPa_toNat_geom geom hlt]
  filled := by
    intro k desc hk
    cases hk
  fetched := by
    intro slot desc hdesc
    cases hdesc
  named := by
    intro k a ha
    cases ha
  batch := by
    intro ev hmem
    cases hmem
  events := ⟨[], hsc.evqPending, by simp, rfl⟩

end Start

end Pmd
end SfcCapio
