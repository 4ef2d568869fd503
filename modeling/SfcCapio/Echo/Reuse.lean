import SfcCapio.Handover.Sessions
import SfcCapio.Echo.Loop

/-!
# Transmitting from a receive slot

`sfc7120_rx_release` is called as soon as the echo has been posted; its comment argues
that the card has to fill the other 511 slots before it comes back to this one.  Two
things are left to luck.  Nothing bounds the time a transmission takes, and neither the
doorbell of the receive ring nor the transmit ring waits for it.  And the doorbell is a
position on the ring: where the card has already filled beyond the new value, it grants
a whole lap, with the slot just transmitted from in it.
-/

namespace SfcCapio
namespace Echo

open Foundation Hardware Kernel Userlib Handover

/-! ## Buffers and descriptors in flight -/

/-- A transmission that the card has not completed. -/
def EchoSys.InFlight (s : EchoSys) (i : Nat) (e : TxEntry) : Prop :=
  s.posts[i]? = some e ∧ s.completed ≤ i

/-- The slot lies between the card's position and the doorbell. -/
def EchoSys.Granted (s : EchoSys) (slot : Nat) : Prop :=
  (slot + numRxDesc - s.fillPos) % numRxDesc <
    (s.session.dev.rxDescDbl + numRxDesc - s.fillPos) % numRxDesc

/-- While an echo is in flight, no later post has used its TX slot, and the RX slot it
is sent from is not granted to the card. -/
structure ReuseSafe (s : EchoSys) : Prop where
  txSlot : ∀ i j e e', s.InFlight i e → e.rxSlot ≠ none → i < j → s.posts[j]? = some e' →
    e'.slot ≠ e.slot
  rxSlot : ∀ i e slot, s.InFlight i e → e.rxSlot = some slot → ¬ s.Granted slot

/-- Every echo in flight is among the last 511 posts. -/
def EchoSys.TxInTime (s : EchoSys) : Prop :=
  ∀ i e, s.InFlight i e → e.rxSlot ≠ none → s.posts.length < i + numTxDesc

/-- What the loop does not check.  Before a post the transmit ring is in time; and before
that of an echo, the card has not filled beyond the doorbell of the last release, if there
was one.  Before a release with an echo in flight: the card has not filled beyond the new
doorbell, and the new doorbell does not reach the slot of that echo. -/
def InTime (s : EchoSys) : EchoLabel → Prop
  | .loop =>
    match s.pc with
    | .post _ _ =>
      s.TxInTime ∧ (s.released = 0 ∨ s.fills ≤ s.released + s.session.sfc.rxWindow)
    | .pair _ => s.TxInTime
    | .release _ =>
      ∀ i e, s.InFlight i e → e.rxSlot ≠ none →
        s.fills ≤ s.released + 1 + s.session.sfc.rxWindow ∧
          s.released + 1 + s.session.sfc.rxWindow ≤ e.frame + numRxDesc
    | _ => True
  | _ => True

/-! ## The invariant -/

/-- Receive events among the words of the ring. -/
def countRxWords (ws : List (BitVec 64)) : Nat := ws.countP fun w => evCode w = 0

/-- Receive events that the loop has taken and not yet released. -/
def EchoPc.inHand : EchoPc → Nat
  | .top | .stopped => 0
  | .events evs => countRx evs
  | .check _ evs | .post _ evs | .pair evs | .release evs => countRx evs + 1

/-- Cursors are counts, the doorbell is a grant, and no echo in flight is reached by
either ring. -/
structure EchoInv (head txBase window : Nat) (s : EchoSys) : Prop where
  windowLt : window < 512
  rxWindow : s.session.sfc.rxWindow = window
  rxHead : s.session.sfc.rxHead = (head + s.released) % 512
  fillPos : s.fillPos = (head + s.fills) % 512
  txHead : s.session.sfc.txHead = (txBase + s.posts.length) % 512
  events : EvqPending s.session s.evqWptr s.unread
  account : s.released + s.pc.inHand + countRxWords s.unread = s.fills
  txSlots : ∀ i e, s.posts[i]? = some e → e.slot = (txBase + i) % 512
  echoes : ∀ (i : Nat) (e : TxEntry) (slot : Nat), s.posts[i]? = some e → e.rxSlot = some slot →
    slot = (head + e.frame) % 512 ∧ e.frame < s.fills
  txLag : ∀ i e, s.InFlight i e → e.rxSlot ≠ none → s.posts.length ≤ i + 512
  doorbell : s.released ≠ 0 →
    s.session.dev.rxDescDbl = (head + (s.released + window)) % 512
  grant : ∃ grant, s.session.dev.rxDescDbl = (head + grant) % 512 ∧ s.fills ≤ grant ∧
    grant < s.fills + 512 ∧ (s.released = 0 → grant < 512) ∧
    ∀ i e, s.InFlight i e → e.rxSlot ≠ none → grant ≤ e.frame + 512

section Steps

variable {head txBase window : Nat} {s s' : EchoSys}

theorem echoInv_start {granted : Nat} (hstart : EchoStart head txBase window granted s) :
    EchoInv head txBase window s := by
  have hnone : ∀ i e, s.InFlight i e → e.rxSlot = none :=
    fun i e hflight => (hstart.posts i e hflight.1).2
  obtain ⟨hfills, hreleased⟩ := hstart.counts
  have hhead : head % 512 = head := Nat.mod_eq_of_lt hstart.headLt
  constructor
  · exact hstart.windowLt
  · exact hstart.rxWindow
  · rw [hstart.rxHead, hreleased, Nat.add_zero, hhead]
  · rw [hstart.fillPos, hfills, Nat.add_zero, hhead]
  · exact hstart.txHead
  · refine ⟨hstart.ready, ?_, ?_⟩
    · rw [hstart.evqWptr, hstart.unread, List.length_nil, Nat.add_zero,
        Nat.mod_eq_of_lt hstart.readPtrLt]
    · rw [hstart.unread]
      exact EvqHolds.empty hstart.vacant hstart.readPtrLt
  · rw [hstart.top, hstart.unread, hfills, hreleased]
    rfl
  · exact fun i e he => (hstart.posts i e he).1
  · intro i e slot he hslot
    rw [(hstart.posts i e he).2] at hslot
    cases hslot
  · exact fun i e hflight hecho => absurd (hnone i e hflight) hecho
  · exact fun hnot => absurd hreleased hnot
  · refine ⟨granted, hstart.doorbell, ?_, ?_, fun _ => hstart.grantedLt, ?_⟩
    · rw [hfills]
      exact Nat.zero_le _
    · rw [hfills, Nat.zero_add]
      exact hstart.grantedLt
    · exact fun i e hflight hecho => absurd (hnone i e hflight) hecho

theorem EchoInv.reuseSafe (hinv : EchoInv head txBase window s) : ReuseSafe s := by
  constructor
  · intro i j e e' hflight hecho hlt hj hslot
    have hlag := hinv.txLag i e hflight hecho
    have hbound := (List.getElem?_eq_some_iff.mp hj).1
    rw [hinv.txSlots i e hflight.1, hinv.txSlots j e' hj] at hslot
    omega
  · intro i e slot hflight hslot hgranted
    have hecho : e.rxSlot ≠ none := by
      rw [hslot]
      exact Option.some_ne_none slot
    obtain ⟨hpos, hframe⟩ := hinv.echoes i e slot hflight.1 hslot
    obtain ⟨grant, hdbl, hfilled, hbound, _, hreach⟩ := hinv.grant
    have hlimit := hreach i e hflight hecho
    simp only [EchoSys.Granted, numRxDesc, hdbl, hpos, hinv.fillPos] at hgranted
    omega

/-! ### The card -/

theorem countRxWords_append (ws : List (BitVec 64)) (w : BitVec 64) :
    countRxWords (ws ++ [w]) = countRxWords ws + if evCode w = 0 then 1 else 0 := by
  simp [countRxWords, List.countP_append, List.countP_singleton]

theorem echoInv_fill {w : BitVec 64} {rxBuffer : Nat → BitVec 8}
    (hinv : EchoInv head txBase window s) (hw : IsRxEvent w) (hfill : s.CanFill)
    (hroom : s.unread.length < numEvqEntry) :
    EchoInv head txBase window (s.filled w rxBuffer) := by
  obtain ⟨grant, hdbl, hfilled, hbound, hfirst, hreach⟩ := hinv.grant
  have hevents := hinv.events.write hw.2 hroom
  have hne : s.fills ≠ grant := by
    rintro rfl
    apply hfill
    rw [hinv.fillPos, hdbl, numRxDesc]
    omega
  refine
    { windowLt := hinv.windowLt
      rxWindow := hinv.rxWindow
      rxHead := hinv.rxHead
      fillPos := ?_
      txHead := hinv.txHead
      events := ⟨{ hevents.ready with }, hevents.evqWptr, hevents.holds⟩
      account := ?_
      txSlots := hinv.txSlots
      echoes := ?_
      txLag := hinv.txLag
      doorbell := hinv.doorbell
      grant := ⟨grant, hdbl, ?_, Nat.lt_add_right 1 hbound, hfirst, hreach⟩ }
  · show (s.fillPos + 1) % numRxDesc = (head + (s.fills + 1)) % 512
    rw [hinv.fillPos, numRxDesc]
    omega
  · show s.released + s.pc.inHand + countRxWords (s.unread ++ [w]) = s.fills + 1
    rw [countRxWords_append, if_pos hw.1, ← hinv.account]
    omega
  · intro i e slot he hslot
    obtain ⟨hpos, hframe⟩ := hinv.echoes i e slot he hslot
    exact ⟨hpos, Nat.lt_succ_of_lt hframe⟩
  · show s.fills + 1 ≤ grant
    omega

theorem echoInv_txEvent {w : BitVec 64} (hinv : EchoInv head txBase window s)
    (hcode : evCode w ≠ 0) (hw : ¬ slotVacant w) (hroom : s.unread.length < numEvqEntry) :
    EchoInv head txBase window (s.event w) :=
  { hinv with
    events := hinv.events.write hw hroom
    account := by
      show s.released + s.pc.inHand + countRxWords (s.unread ++ [w]) = s.fills
      rw [countRxWords_append, if_neg hcode, Nat.add_zero]
      exact hinv.account }

theorem echoInv_complete (hinv : EchoInv head txBase window s) :
    EchoInv head txBase window { s with completed := s.completed + 1 } := by
  have hflight : ∀ i e, EchoSys.InFlight { s with completed := s.completed + 1 } i e →
      s.InFlight i e :=
    fun i e h => ⟨h.1, Nat.le_of_succ_le h.2⟩
  obtain ⟨grant, hdbl, hfilled, hbound, hfirst, hreach⟩ := hinv.grant
  exact
    { hinv with
      txLag := fun i e h hecho => hinv.txLag i e (hflight i e h) hecho
      grant := ⟨grant, hdbl, hfilled, hbound, hfirst,
        fun i e h hecho => hreach i e (hflight i e h) hecho⟩ }

/-! ### The loop -/

/-- A step that only moves the loop on and touches nothing the invariant reads. -/
theorem EchoInv.goto (hinv : EchoInv head txBase window s) (used : Bool)
    (rxBuffer : Nat → BitVec 8) (pc : EchoPc) (hpc : pc.inHand = s.pc.inHand) :
    EchoInv head txBase window
      { s with
        session :=
          { sfc := { s.session.sfc with usedPoll := used }
            dev := { s.session.dev with rxBuffer := rxBuffer } }
        pc := pc } :=
  { hinv with
    events := ⟨{ hinv.events.ready with }, hinv.events.evqWptr, hinv.events.holds⟩
    account := by
      show s.released + pc.inHand + countRxWords s.unread = s.fills
      rw [hpc]
      exact hinv.account }

theorem EchoInv.skip (hinv : EchoInv head txBase window s) (pc : EchoPc)
    (hpc : pc.inHand = s.pc.inHand) : EchoInv head txBase window { s with pc := pc } :=
  hinv.goto s.session.sfc.usedPoll s.session.dev.rxBuffer pc hpc

theorem countRx_map_decode (ws : List (BitVec 64)) :
    countRx (ws.map decodeEvent) = countRxWords ws := by
  rw [countRx, countRxWords, List.countP_map]
  apply List.countP_congr
  intro w _
  have htype : (decodeEvent w).type = .rx ↔ evCode w = 0 := by
    unfold decodeEvent
    split
    · next hzero => simp [hzero]
    · next hzero => split <;> simp [hzero]
  simp [htype]

/-- A batch takes the oldest events out of the ring. -/
theorem echoInv_poll (hinv : EchoInv head txBase window s) (hpc : s.pc = .top)
    (hstep : loopStep s = some s') : EchoInv head txBase window s' := by
  obtain ⟨taken, rest, used, readPtr, evq, dbl, hsplit, _, hpoll, hrest⟩ := hinv.events.poll 8
  have hpoll' : poll s.session 8 = _ := hpoll
  simp only [loopStep, hpc, hpoll', if_neg (show ¬ (8 : Nat) = 0 by decide)] at hstep
  cases hstep
  have haccount := hinv.account
  rw [hpc, hsplit] at haccount
  refine
    { hinv with
      events := ?_
      account := ?_ }
  · show EvqPending _ s.evqWptr (s.unread.drop (taken.map decodeEvent).length)
    rw [List.length_map, hsplit, List.drop_left]
    exact hrest
  · show s.released + countRx (taken.map decodeEvent) +
      countRxWords (s.unread.drop (taken.map decodeEvent).length) = s.fills
    rw [List.length_map, countRx_map_decode, ← haccount, hsplit, List.drop_left]
    simp only [countRxWords, List.countP_append, EchoPc.inHand]
    omega

theorem countRx_cons (ev : Ev) (evs : List Ev) :
    countRx (ev :: evs) = countRx evs + if ev.type = .rx then 1 else 0 := by
  simp [countRx, List.countP_cons]

/-- The next event of the batch: a receive event is looked at, others are skipped. -/
theorem echoInv_events {evs : List Ev} (hinv : EchoInv head txBase window s)
    (hpc : s.pc = .events evs) (hstep : loopStep s = some s') :
    EchoInv head txBase window s' := by
  cases evs with
  | nil =>
    simp only [loopStep, hpc] at hstep
    cases hstep
    exact hinv.skip .top (by rw [hpc]; rfl)
  | cons ev evs =>
    simp only [loopStep, hpc] at hstep
    by_cases hrx : ev.type = .rx
    · obtain ⟨pk, hpeek, _⟩ := rxPeek_of_ready hinv.events.ready ev.rxBytes
      simp only [hrx, hpeek] at hstep
      cases hstep
      apply hinv.goto true s.session.dev.rxBuffer (.check pk evs)
      rw [hpc]
      simp only [EchoPc.inHand, countRx_cons, hrx, if_true]
    · simp only [if_pos hrx] at hstep
      cases hstep
      apply hinv.skip (.events evs)
      rw [hpc]
      simp only [EchoPc.inHand, countRx_cons, hrx, if_false, Nat.add_zero]

/-- The card cannot come to the slot of the frame in hand without another release. -/
theorem EchoInv.grant_le (hinv : EchoInv head txBase window s)
    (hfills : s.released = 0 ∨ s.fills ≤ s.released + window) {grant : Nat}
    (hdbl : s.session.dev.rxDescDbl = (head + grant) % 512) (hfilled : s.fills ≤ grant)
    (hbound : grant < s.fills + 512) (hfirst : s.released = 0 → grant < 512) :
    grant ≤ s.released + 512 := by
  rcases Nat.eq_zero_or_pos s.released with hzero | hpos
  · have := hfirst hzero
    omega
  · have hrung := hinv.doorbell (Nat.ne_of_gt hpos)
    have haccount := hinv.account
    have hwindow := hinv.windowLt
    rw [hdbl] at hrung
    omega

/-- A post, of an echo or of a companion frame, into a TX slot that no echo in flight
occupies. -/
theorem EchoInv.posted {out : Int × Session} {rxSlot : Option Nat} {pc : EchoPc}
    (hinv : EchoInv head txBase window s) (hout : PostOutcome s.session out)
    (hpc : pc.inHand = s.pc.inHand) (hhand : 0 < s.pc.inHand)
    (hslot : ∀ slot, rxSlot = some slot → slot = s.session.sfc.rxHead)
    (hfills : rxSlot ≠ none → s.released = 0 ∨ s.fills ≤ s.released + window)
    (hguard : s.TxInTime) :
    EchoInv head txBase window { s.posted out rxSlot with pc := pc } := by
  rcases hout with rfl | ⟨ring, dbl, buffer, rfl⟩
  · -- a refused post leaves the session alone
    exact hinv.skip pc hpc
  · have haccount := hinv.account
    have hcases : ∀ i e, (s.posts ++
        [{ slot := s.session.sfc.txHead, rxSlot := rxSlot, frame := s.released }])[i]? = some e →
        s.posts[i]? = some e ∨ i = s.posts.length ∧
          e = { slot := s.session.sfc.txHead, rxSlot := rxSlot, frame := s.released } :=
      fun i e => getElem?_concat_cases
    obtain ⟨grant, hdbl, hfilled, hbound, hfirst, hreach⟩ := hinv.grant
    refine
      { windowLt := hinv.windowLt
        rxWindow := hinv.rxWindow
        rxHead := hinv.rxHead
        fillPos := hinv.fillPos
        txHead := ?_
        events := ⟨{ hinv.events.ready with }, hinv.events.evqWptr, hinv.events.holds⟩
        account := ?_
        txSlots := ?_
        echoes := ?_
        txLag := ?_
        doorbell := hinv.doorbell
        grant := ⟨grant, hdbl, hfilled, hbound, hfirst, ?_⟩ }
    · show (s.session.sfc.txHead + 1) % 512 = (txBase + (s.posts ++ [_]).length) % 512
      rw [hinv.txHead, List.length_append, List.length_singleton]
      omega
    · show s.released + pc.inHand + countRxWords s.unread = s.fills
      rw [hpc]
      exact haccount
    · intro i e he
      rcases hcases i e he with hold | ⟨rfl, rfl⟩
      · exact hinv.txSlots i e hold
      · exact hinv.txHead
    · intro i e slot he hsome
      rcases hcases i e he with hold | ⟨rfl, rfl⟩
      · exact hinv.echoes i e slot hold hsome
      · refine ⟨?_, ?_⟩
        · rw [hslot slot hsome]
          exact hinv.rxHead
        · show s.released < s.fills
          omega
    · -- the guard is about the posts so far; the new one is the youngest
      rintro i e ⟨he, hflight⟩ hecho
      show (s.posts ++ [_]).length ≤ i + 512
      rw [List.length_append, List.length_singleton]
      rcases hcases i e he with hold | ⟨rfl, rfl⟩
      · exact hguard i e ⟨hold, hflight⟩ hecho
      · omega
    · rintro i e ⟨he, hflight⟩ hecho
      rcases hcases i e he with hold | ⟨rfl, rfl⟩
      · exact hreach i e ⟨hold, hflight⟩ hecho
      · exact hinv.grant_le (hfills hecho) hdbl hfilled hbound hfirst

/-- The doorbell grants whole laps, so that it always lies ahead of the card. -/
theorem exists_grant (head fills position : Nat) :
    ∃ grant, (head + position) % 512 = (head + grant) % 512 ∧ fills ≤ grant ∧
      grant < fills + 512 :=
  ⟨fills + (position + 511 * fills) % 512, by omega, by omega, by omega⟩

/-- The slot is released and the doorbell moved, far enough behind every echo. -/
theorem echoInv_release {evs : List Ev} (hinv : EchoInv head txBase window s)
    (hpc : s.pc = .release evs) (hguard : InTime s .loop) (hstep : loopStep s = some s') :
    EchoInv head txBase window s' := by
  simp only [InTime, hpc, numRxDesc, hinv.rxWindow] at hguard
  have haccount := hinv.account
  rw [hpc, EchoPc.inHand] at haccount
  have hwindow := hinv.windowLt
  have hdbl : ((s.session.sfc.rxHead + 1) % 512 + s.session.sfc.rxWindow) % 512 =
      (head + (s.released + 1 + window)) % 512 := by
    rw [hinv.rxHead, hinv.rxWindow]
    omega
  obtain ⟨grant, hsame, hfilled, hbound⟩ := exists_grant head s.fills (s.released + 1 + window)
  simp only [loopStep, hpc, rxRelease_of_ready hinv.events.ready] at hstep
  cases hstep
  refine
    { windowLt := hwindow
      rxWindow := hinv.rxWindow
      rxHead := ?_
      fillPos := hinv.fillPos
      txHead := hinv.txHead
      events := ⟨{ hinv.events.ready with }, hinv.events.evqWptr, hinv.events.holds⟩
      account := ?_
      txSlots := hinv.txSlots
      echoes := hinv.echoes
      txLag := hinv.txLag
      doorbell := fun _ => hdbl
      grant := ⟨grant, hdbl.trans hsame, hfilled, hbound, nofun, ?_⟩ }
  · show (s.session.sfc.rxHead + 1) % 512 = (head + (s.released + 1)) % 512
    rw [hinv.rxHead]
    omega
  · show s.released + 1 + countRx evs + countRxWords s.unread = s.fills
    omega
  · -- with an echo in flight the card is not beyond the doorbell
    intro i e hflight hecho
    obtain ⟨hahead, hreach⟩ := hguard i e hflight hecho
    omega

theorem echoInv_loop (hinv : EchoInv head txBase window s) (hguard : InTime s .loop)
    (hstep : loopStep s = some s') : EchoInv head txBase window s' := by
  cases hpc : s.pc with
  | top => exact echoInv_poll hinv hpc hstep
  | events evs => exact echoInv_events hinv hpc hstep
  | check pk evs =>
    simp only [loopStep, hpc] at hstep
    split at hstep
    · cases hstep
      exact hinv.goto s.session.sfc.usedPoll _ (.post pk evs) (by rw [hpc]; rfl)
    · cases hstep
      exact hinv.skip (.release evs) (by rw [hpc]; rfl)
  | post pk evs =>
    simp only [InTime, hpc] at hguard
    simp only [loopStep, hpc] at hstep
    cases hstep
    apply hinv.posted (postOutcome_txPostPaddr s.session pk.paddr pk.len) _ _ _ _ hguard.1
    · rw [hpc]
      split <;> rfl
    · rw [hpc]
      exact Nat.succ_pos _
    · exact fun slot hslot => (Option.some.inj hslot).symm
    · rw [← hinv.rxWindow]
      exact fun _ => hguard.2
  | pair evs =>
    simp only [InTime, hpc] at hguard
    simp only [loopStep, hpc] at hstep
    cases hstep
    apply hinv.posted (postOutcome_txPost s.session _) _ _ _ _ hguard
    · rw [hpc]
      rfl
    · rw [hpc]
      exact Nat.succ_pos _
    · exact nofun
    · exact fun hnot => absurd rfl hnot
  | release evs => exact echoInv_release hinv hpc hguard hstep
  | stopped =>
    simp only [loopStep, hpc] at hstep
    cases hstep

theorem echoInv_step {a : EchoLabel} (hinv : EchoInv head txBase window s)
    (hguard : InTime s a) (hstep : echoStep s a = some s') : EchoInv head txBase window s' := by
  cases a with
  | fill w rxBuffer =>
    simp only [echoStep] at hstep
    split at hstep
    · next hcond =>
        cases hstep
        exact echoInv_fill hinv hcond.1 hcond.2.1 hcond.2.2
    · cases hstep
  | complete =>
    simp only [echoStep] at hstep
    split at hstep
    · cases hstep
      exact echoInv_complete hinv
    · cases hstep
  | txEvent w =>
    simp only [echoStep] at hstep
    split at hstep
    · next hcond =>
        cases hstep
        exact echoInv_txEvent hinv hcond.1 hcond.2.1 hcond.2.2
    · cases hstep
  | loop => exact echoInv_loop hinv hguard hstep

end Steps

/-- **No reuse in flight.**  In every interleaving of the card with the loop in which
each post and each release comes in time, no echo in flight loses its TX slot to a later
post or has its RX slot granted to the card, at any moment. -/
theorem echo_reuse_safe {head txBase window granted : Nat} {s : EchoSys}
    (hstart : EchoStart head txBase window granted s) {run : List EchoLabel}
    (hintime : Obeys echoStep InTime s run) : Along echoStep ReuseSafe s run :=
  along_of_obeys (fun _ _ _ hinv hguard => echoInv_step hinv hguard)
    (fun _ hinv => hinv.reuseSafe) (echoInv_start hstart) hintime

/-- After attach and `sfc7120_init`, the window being that of `SFC_RX_WINDOW`. -/
def echoAfterInit (rxWindow : Option (BitVec 32)) : EchoSys where
  session := ⟨sfcInit rxIoctlAfterAttach.sc rxWindow, rxIoctlAfterAttach.sc.dev⟩
  strict := false
  pairTx := false
  macAddr := fun i => BitVec.ofNat 8 i
  pc := .top
  fillPos := 0
  evqWptr := 0
  unread := []
  fills := 0
  released := 0
  posts := []
  completed := 0

theorem echoStart_afterInit (rxWindow : Option (BitVec 32)) :
    EchoStart 0 0 (initRxWindow rxWindow) 511 (probeLoop 50 (echoAfterInit rxWindow)) := by
  apply echoStart_probeLoop
  exact
    { ready := ⟨rfl, rfl, rfl, rfl, rfl, rfl, rfl⟩
      top := rfl
      headLt := by decide
      rxHead := rfl
      fillPos := rfl
      rxWindow := rfl
      windowLt := (initRxWindow_range rxWindow).2
      grantedLt := by decide
      doorbell := rfl
      readPtrLt := Nat.zero_lt_succ 511
      evqWptr := rfl
      vacant := fun _ _ => Or.inl rfl
      unread := rfl
      counts := ⟨rfl, rfl⟩
      txHead := rfl
      posts := nofun
      completed := Nat.le_refl 0 }

/-- A receive buffer with the same UDP datagram of 60 bytes in every slot. -/
def udpFrames : Nat → BitVec 8 := fun j =>
  match j % 2048 with
  | 8 => 60#8
  | 26 => 0x08#8
  | 28 => 0x45#8
  | 37 => 17#8
  | _ => 0#8

/-- One frame arrives. -/
def frameArrives : EchoLabel := .fill 0x4a#64 udpFrames

/-- One frame comes in and is echoed, in six actions of the loop. -/
def echoOne : List EchoLabel := frameArrives :: List.replicate 6 .loop

theorem echo_one_reuse_safe :
    (∃ t, exec echoStep (probeLoop 50 (echoAfterInit none)) echoOne = some t ∧
      t.released = 1 ∧ t.posts.length = 51) ∧
    Along echoStep ReuseSafe (probeLoop 50 (echoAfterInit none)) echoOne := by
  refine ⟨⟨_, rfl, rfl, rfl⟩, echo_reuse_safe (echoStart_afterInit none) ?_⟩
  refine ⟨trivial, trivial, trivial, trivial, ⟨?_, Or.inl rfl⟩, ?_, trivial, trivial⟩
  · intro i e _ _
    show 50 < i + 512
    omega
  · intro i e _ _
    show 1 ≤ 65 ∧ 65 ≤ e.frame + 512
    omega

-- the runs below are evaluated as they stand
set_option maxRecDepth 2000

/-- The probes are out, and 66 frames arrive before the first is released. -/
def burst : List EchoLabel :=
  List.replicate 50 .complete ++ List.replicate 66 frameArrives ++ List.replicate 5 .loop

/-- The probes are out, and two frames are echoed while the transmitter stands still. -/
def stall : List EchoLabel :=
  List.replicate 50 .complete ++ echoOne ++ frameArrives :: List.replicate 5 .loop

/-- With the default window, the first release rings 65 when the card is at 66: all
slots but one are granted, that of the echo just posted among them.  With a window of
511, the second release grants the slot of the first echo. -/
theorem echo_slot_granted_in_flight :
    (∃ t, exec echoStep (probeLoop 50 (echoAfterInit none)) burst = some t ∧
      t.InFlight 50 ⟨50, some 0, 0⟩ ∧ t.Granted 0 ∧ ¬ ReuseSafe t) ∧
    ∃ t, exec echoStep (probeLoop 50 (echoAfterInit (some 511#32))) stall = some t ∧
      t.InFlight 50 ⟨50, some 0, 0⟩ ∧ t.Granted 0 ∧ ¬ ReuseSafe t := by
  constructor
  · obtain ⟨t, hrun, hflight, hgranted⟩ : ∃ t,
        exec echoStep (probeLoop 50 (echoAfterInit none)) burst = some t ∧
          t.InFlight 50 ⟨50, some 0, 0⟩ ∧ t.Granted 0 :=
      ⟨_, rfl, ⟨rfl, by decide⟩, by unfold EchoSys.Granted; decide⟩
    exact ⟨t, hrun, hflight, hgranted, fun hsafe => hsafe.rxSlot 50 _ 0 hflight rfl hgranted⟩
  · obtain ⟨t, hrun, hflight, hgranted⟩ : ∃ t,
        exec echoStep (probeLoop 50 (echoAfterInit (some 511#32))) stall = some t ∧
          t.InFlight 50 ⟨50, some 0, 0⟩ ∧ t.Granted 0 :=
      ⟨_, rfl, ⟨rfl, by decide⟩, by unfold EchoSys.Granted; decide⟩
    exact ⟨t, hrun, hflight, hgranted, fun hsafe => hsafe.rxSlot 50 _ 0 hflight rfl hgranted⟩

end Echo
end SfcCapio
