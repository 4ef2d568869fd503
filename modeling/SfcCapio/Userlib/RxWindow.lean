import SfcCapio.Foundation.Credit
import SfcCapio.Userlib.EventQueue

/-!
# The advertised window of direct receive

`sfc7120_rx_release` rings the RX doorbell with `rx_head + rx_window`, whatever
was advertised before.  Attach, and every receive through the kernel ioctl,
leave `rx_head - 1` in the doorbell, a grant of 511 slots.  This module runs the
card's fills against `sfc7120_poll`, `sfc7120_rx_peek` and `sfc7120_rx_release`
from such a state, each receive event being followed by one release.

A fill is refused only where the card's position equals the doorbell.  If the
first release rings a value which the card has already passed, the card does not
stop there but goes round the ring.  Which windows allow this is settled by
`direct_rx_never_overwrites_iff`: exactly those below 510.

Frames which the kernel session has left unread need no separate start: they are
fills that happen before the first library call.
-/

namespace SfcCapio
namespace Userlib

open Hardware Foundation

/-- Direct receive and the card.  `fillPos` is the slot the card fills next and
`evqWptr` the event slot it writes next.  `held` marks the slots whose frame has
not been released; `fills`, `polled` and `released` count the frames received,
the receive events returned and the releases made. -/
structure RxSys where
  session : Session
  fillPos : Nat
  evqWptr : Nat
  held : Nat → Bool
  fills : Nat
  polled : Nat
  released : Nat

/-- Who moves: the card fills a slot and writes the receive event `w`, or the
caller makes one of the three library calls. -/
inductive RxLabel
  | fill (w : BitVec 64)
  | poll (maxEvs : Int)
  | peek (rxBytes : Nat)
  | release

/-- The card stops only at the doorbell. -/
def RxSys.CanFill (s : RxSys) : Prop := s.fillPos ≠ s.session.dev.rxDescDbl % numRxDesc

instance (s : RxSys) : Decidable s.CanFill :=
  inferInstanceAs (Decidable (_ ≠ _))

/-- The card fills its next slot and posts the event. -/
def RxSys.filled (s : RxSys) (w : BitVec 64) : RxSys :=
  { s with
    session :=
      { s.session with
        dev :=
          { s.session.dev with
            evqRing := Function.update s.session.dev.evqRing s.evqWptr w } }
    fillPos := (s.fillPos + 1) % numRxDesc
    evqWptr := (s.evqWptr + 1) % numEvqEntry
    held := Function.update s.held s.fillPos true
    fills := s.fills + 1 }

/-- Receive events among the records of one poll. -/
def countRx (evs : List Ev) : Nat := evs.countP fun ev => ev.type = .rx

/-- The interleaved system; a release is taken only for a polled event. -/
def rxStep (s : RxSys) : RxLabel → Option RxSys
  | .fill w => if IsRxEvent w ∧ s.CanFill then some (s.filled w) else none
  | .poll maxEvs =>
    let out := poll s.session maxEvs
    some
      { s with
        session := out.2
        polled := s.polled + countRx (out.1.getD []) }
  | .peek rxBytes => some { s with session := (rxPeek s.session rxBytes).2 }
  | .release =>
    if s.released < s.polled then
      some
        { s with
          session := (rxRelease s.session).2
          held := Function.update s.held s.session.sfc.rxHead false
          released := s.released + 1 }
    else none

/-- The state direct receive starts from: `rx_head` at `head`, the doorbell one
behind it, no frame outstanding, no event pending. -/
structure RxStart (window head : Nat) (s : RxSys) : Prop where
  ready : s.session.sfc.Ready
  windowPos : 1 ≤ window
  windowLt : window < numRxDesc
  headLt : head < numRxDesc
  rxWindow : s.session.sfc.rxWindow = window
  rxHead : s.session.sfc.rxHead = head
  doorbell : s.session.dev.rxDescDbl = (head + (numRxDesc - 1)) % numRxDesc
  fillPos : s.fillPos = head
  readPtrLt : s.session.sfc.evqReadPtr < numEvqEntry
  evqWptr : s.evqWptr = s.session.sfc.evqReadPtr
  vacant : ∀ i, i < numEvqEntry → slotVacant (s.session.dev.evqRing i)
  noneHeld : s.held = fun _ => false
  noneFilled : s.fills = 0
  nonePolled : s.polled = 0
  noneReleased : s.released = 0

/-- If the card may fill, its next slot holds no unreleased frame. -/
def NoOverwrite (s : RxSys) : Prop := s.CanFill → s.held s.fillPos = false

/-! ## The event queue side -/

theorem countRx_map_decodeEvent {ws : List (BitVec 64)} (hrx : ∀ w ∈ ws, IsRxEvent w) :
    countRx (ws.map decodeEvent) = ws.length := by
  rw [countRx, List.countP_eq_length.mpr, List.length_map]
  intro ev hev
  obtain ⟨w, hw, rfl⟩ := List.mem_map.mp hev
  simp [decodeEvent, (hrx w hw).1]

/-- The event queue: the pending words are the receive events of the fills that
have not been polled. -/
structure EventsPending (s : RxSys) (pending : List (BitVec 64)) : Prop
    extends EvqPending s.session s.evqWptr pending where
  rx : ∀ w ∈ pending, IsRxEvent w

variable {s s' : RxSys} {pending : List (BitVec 64)} {w : BitVec 64} {window head : Nat}

theorem EventsPending.fill (hev : EventsPending s pending) (hw : IsRxEvent w)
    (hroom : pending.length < 512) : EventsPending (s.filled w) (pending ++ [w]) := by
  refine ⟨hev.toEvqPending.write hw.2 hroom, ?_⟩
  intro v hv
  rcases List.mem_append.mp hv with hold | hnew
  · exact hev.rx v hold
  · rw [List.mem_singleton.mp hnew]
    exact hw

/-- What a poll changes, and that it returns the oldest pending events. -/
theorem EventsPending.poll_cases (hev : EventsPending s pending) (maxEvs : Int) :
    ∃ taken rest used readPtr evq dbl,
      pending = taken ++ rest ∧
      taken.length = min maxEvs.toNat pending.length ∧
      countRx ((poll s.session maxEvs).1.getD []) = taken.length ∧
      (poll s.session maxEvs).2 =
        { sfc := { s.session.sfc with usedPoll := used, evqReadPtr := readPtr }
          dev := { s.session.dev with evqRing := evq, evqRptrDbl := dbl } } ∧
      EvqPending
        { sfc := { s.session.sfc with usedPoll := used, evqReadPtr := readPtr }
          dev := { s.session.dev with evqRing := evq, evqRptrDbl := dbl } } s.evqWptr rest := by
  -- a negative bound is refused like zero
  have hcast : poll s.session maxEvs = poll s.session (maxEvs.toNat : Int) := by
    by_cases hmax : maxEvs ≤ 0
    · simp [poll, hmax]
    · rw [Int.toNat_of_nonneg (by omega)]
  obtain ⟨taken, rest, used, readPtr, evq, dbl, hsplit, hlen, hpoll, hrest⟩ :=
    hev.toEvqPending.poll maxEvs.toNat
  refine ⟨taken, rest, used, readPtr, evq, dbl, hsplit, hlen, ?_, ?_, hrest⟩
  · rw [hcast, hpoll]
    by_cases hzero : maxEvs.toNat = 0
    · simp [hzero, countRx, hlen]
    · rw [if_neg hzero]
      apply countRx_map_decodeEvent
      intro w hw
      exact hev.rx w (hsplit ▸ List.mem_append_left rest hw)
  · rw [hcast, hpoll]

/-! ## Windows of 510 and 511 -/

/-- The cursors, the credit and the frames in the caller's hands. -/
structure RxInv (window head : Nat) (s : RxSys) : Prop where
  rxWindow : s.session.sfc.rxWindow = window
  rxHead : s.session.sfc.rxHead = (head + s.released) % 512
  fillPos : s.fillPos = (head + s.fills) % 512
  credit : Credit 512 head s.released s.fills s.session.dev.rxDescDbl
  occupied : Occupies 512 head s.released s.fills s.held
  releasedLe : s.released ≤ s.polled
  events : ∃ pending, EventsPending s pending ∧ s.polled + pending.length = s.fills

theorem rxInv_start (hstart : RxStart window head s) :
    RxInv window head s := by
  have hhead : head % 512 = head := Nat.mod_eq_of_lt hstart.headLt
  refine ⟨hstart.rxWindow, ?_, ?_, ?_, ?_, ?_, [], ?_, ?_⟩
  · rw [hstart.rxHead, hstart.noneReleased, Nat.add_zero, hhead]
  · rw [hstart.fillPos, hstart.noneFilled, Nat.add_zero, hhead]
  · rw [hstart.noneReleased, hstart.noneFilled, hstart.doorbell]
    exact Credit.initial (by decide)
  · rw [hstart.noneReleased, hstart.noneFilled, hstart.noneHeld]
    exact Occupies.none
  · rw [hstart.noneReleased]
    exact Nat.zero_le _
  · refine ⟨⟨hstart.ready, ?_, EvqHolds.empty hstart.vacant hstart.readPtrLt⟩, by simp⟩
    rw [hstart.evqWptr, List.length_nil, Nat.add_zero, Nat.mod_eq_of_lt hstart.readPtrLt]
  · rw [hstart.nonePolled, hstart.noneFilled]
    rfl

theorem RxInv.moving (hinv : RxInv window head s)
    (hfill : s.CanFill) : (head + s.fills) % 512 ≠ s.session.dev.rxDescDbl := by
  obtain ⟨-, grant, hdbl, -⟩ := hinv.credit
  rw [RxSys.CanFill, hinv.fillPos, hdbl, Nat.mod_mod] at hfill
  rw [hdbl]
  exact hfill

theorem RxInv.noOverwrite (hinv : RxInv window head s) :
    NoOverwrite s := by
  intro _
  rw [hinv.fillPos]
  exact hinv.occupied.next_free hinv.credit.filled_lt

theorem rxInv_fill (hinv : RxInv window head s) (hw : IsRxEvent w) (hfill : s.CanFill) :
    RxInv window head (s.filled w) := by
  obtain ⟨pending, hev, hcount⟩ := hinv.events
  have hreleased := hinv.releasedLe
  have hlt := hinv.credit.filled_lt
  refine ⟨hinv.rxWindow, hinv.rxHead, ?_, hinv.credit.fill (hinv.moving hfill), ?_,
    hinv.releasedLe, pending ++ [w], hev.fill hw (by omega), ?_⟩
  · simp only [RxSys.filled, hinv.fillPos, numRxDesc]
    omega
  · have hocc := hinv.occupied.fill hinv.credit.1
    rw [← hinv.fillPos] at hocc
    exact hocc
  · simp only [RxSys.filled, List.length_append, List.length_singleton]
    omega

/-- What a poll takes counts as polled, the rest is pending; nothing else changes but the
cursor, the event ring and its doorbell. -/
theorem EventsPending.poll_step {maxEvs : Int} (hev : EventsPending s pending)
    (hcount : s.polled + pending.length = s.fills) (hstep : rxStep s (.poll maxEvs) = some s') :
    ∃ used readPtr evq dbl polled,
      s' =
        { s with
          session :=
            { sfc := { s.session.sfc with usedPoll := used, evqReadPtr := readPtr }
              dev := { s.session.dev with evqRing := evq, evqRptrDbl := dbl } }
          polled := polled } ∧
      s.polled ≤ polled ∧ ∃ rest, EventsPending s' rest ∧ polled + rest.length = s.fills := by
  obtain ⟨taken, rest, used, readPtr, evq, dbl, rfl, -, hrx, hsession, hrest⟩ :=
    hev.poll_cases maxEvs
  simp only [rxStep, hrx, hsession, Option.some.injEq] at hstep
  subst hstep
  rw [List.length_append] at hcount
  refine ⟨used, readPtr, evq, dbl, s.polled + taken.length, rfl, Nat.le_add_right _ _,
    rest, ⟨hrest, ?_⟩, by omega⟩
  intro w hw
  exact hev.rx w (List.mem_append_right taken hw)

theorem rxInv_poll {maxEvs : Int} (hinv : RxInv window head s)
    (hstep : rxStep s (.poll maxEvs) = some s') :
    RxInv window head s' := by
  obtain ⟨pending, hev, hcount⟩ := hinv.events
  obtain ⟨used, readPtr, evq, dbl, polled, rfl, hle, hevents⟩ := hev.poll_step hcount hstep
  exact ⟨hinv.rxWindow, hinv.rxHead, hinv.fillPos, hinv.credit, hinv.occupied,
    Nat.le_trans hinv.releasedLe hle, hevents⟩

theorem rxInv_release (hwindow : 510 ≤ window) (hwindowLt : window < 512)
    (hinv : RxInv window head s) (hstep : rxStep s .release = some s') : RxInv window head s' := by
  obtain ⟨pending, hev, hcount⟩ := hinv.events
  have hlt := hinv.credit.filled_lt
  simp only [rxStep] at hstep
  split at hstep
  · rename_i hsome
    simp only [rxRelease_of_ready hev.ready, released, Option.some.injEq] at hstep
    subst hstep
    refine ⟨hinv.rxWindow, ?_, hinv.fillPos, ?_, ?_, hsome, pending, ⟨⟨?_, ?_, ?_⟩, ?_⟩,
      hcount⟩
    · simp only [hinv.rxHead]
      omega
    · -- the new grant is `released + 1 + window`, at least 511 beyond the consumer
      have hgrant : ((s.session.sfc.rxHead + 1) % 512 + s.session.sfc.rxWindow) % 512 =
          (head + (s.released + 1 + window)) % 512 := by
        rw [hinv.rxHead, hinv.rxWindow]
        omega
      simp only [hgrant]
      exact Credit.ring (by omega) (by omega) (by omega)
    · simp only [hinv.rxHead]
      exact hinv.occupied.giveBack (by omega)
    · exact { hev.ready with }
    · exact hev.evqWptr
    · exact hev.holds
    · exact hev.rx
  · cases hstep

/-- `sfc7120_rx_peek` records that the session has polled, nothing else. -/
theorem rxPeek_session (s : Session) (rxBytes : Nat) :
    ∃ used, (rxPeek s rxBytes).2 = { s with sfc := { s.sfc with usedPoll := used } } := by
  unfold rxPeek
  split
  · exact ⟨s.sfc.usedPoll, rfl⟩
  · exact ⟨true, rfl⟩

theorem rxInv_peek {rxBytes : Nat} (hinv : RxInv window head s)
    (hstep : rxStep s (.peek rxBytes) = some s') :
    RxInv window head s' := by
  obtain ⟨pending, hev, hcount⟩ := hinv.events
  obtain ⟨used, hpeek⟩ := rxPeek_session s.session rxBytes
  simp only [rxStep, hpeek, Option.some.injEq] at hstep
  subst hstep
  exact
    { hinv with
      events := ⟨pending, { hev with ready := { hev.ready with } }, hcount⟩ }

theorem rxInv_rxStep (hwindow : 510 ≤ window) (hwindowLt : window < 512) (s : RxSys) (l : RxLabel)
    (s' : RxSys) (hinv : RxInv window head s) (hstep : rxStep s l = some s') :
    RxInv window head s' := by
  cases l with
  | fill w =>
    simp only [rxStep] at hstep
    split at hstep
    · rename_i hguard
      obtain rfl := Option.some.inj hstep
      exact rxInv_fill hinv hguard.1 hguard.2
    · cases hstep
  | poll maxEvs => exact rxInv_poll hinv hstep
  | peek rxBytes => exact rxInv_peek hinv hstep
  | release => exact rxInv_release hwindow hwindowLt hinv hstep

/-! ## Smaller windows -/

theorem rxStep_fill (hw : IsRxEvent w) (hfill : s.CanFill) :
    rxStep s (.fill w) = some (s.filled w) := by
  simp only [rxStep, if_pos (And.intro hw hfill)]

/-- The card can use up the whole initial grant before the first library call. -/
theorem exec_fills (hstart : RxStart window head s) (hw : IsRxEvent w) {k : Nat} (hk : k ≤ 511) :
    ∃ t, exec rxStep s (List.replicate k (.fill w)) = some t ∧
      RxInv window head t ∧ t.fills = k ∧ t.released = 0 ∧ t.polled = 0 ∧
      t.session.dev.rxDescDbl = (head + 511) % 512 := by
  induction k with
  | zero =>
    exact ⟨s, rfl, rxInv_start hstart, hstart.noneFilled, hstart.noneReleased,
      hstart.nonePolled, hstart.doorbell⟩
  | succ k ih =>
    obtain ⟨t, hrun, hinv, hfills, hreleased, hpolled, hdbl⟩ := ih (by omega)
    have hfill : t.CanFill := by
      rw [RxSys.CanFill, hinv.fillPos, hfills, hdbl]
      simp only [numRxDesc]
      omega
    refine ⟨t.filled w, ?_, rxInv_fill hinv hw hfill, ?_, hreleased, hpolled, hdbl⟩
    · rw [List.replicate_succ']
      exact exec_append hrun (exec_cons_of_some (rxStep_fill hw hfill) [])
    · simp [RxSys.filled, hfills]

/-- Polling one event and releasing its frame when nothing was polled before. -/
theorem exec_pollOne_release (hinv : RxInv window head s) (hpolled : s.polled = 0)
    (hsome : 0 < s.fills) :
    ∃ t, exec rxStep s [.poll 1, .release] = some t ∧ t.fillPos = s.fillPos ∧
      t.held = Function.update s.held (head % 512) false ∧
      t.session.dev.rxDescDbl = (head + 1 + window) % 512 := by
  obtain ⟨u, hpoll, hu, hone, hreleased, hheld, hfillPos⟩ : ∃ u,
      rxStep s (.poll 1) = some u ∧ RxInv window head u ∧ u.polled = 1 ∧
        u.released = 0 ∧ u.held = s.held ∧ u.fillPos = s.fillPos := by
    obtain ⟨pending, hev, hcount⟩ := hinv.events
    obtain ⟨taken, rest, used, readPtr, evq, dbl, -, hlen, hrx, -⟩ := hev.poll_cases 1
    have htaken : taken.length = 1 := by
      rw [hlen, Int.toNat_one]
      omega
    have hreleased : s.released = 0 := by
      have := hinv.releasedLe
      omega
    refine ⟨_, rfl, rxInv_poll hinv rfl, ?_, hreleased, rfl, rfl⟩
    simp only [hrx, hpolled, htaken]
  obtain ⟨pending, hev, -⟩ := hu.events
  have hhead : u.session.sfc.rxHead = head % 512 := by
    rw [hu.rxHead, hreleased, Nat.add_zero]
  have hsome : u.released < u.polled := by omega
  rw [exec_cons_of_some hpoll]
  simp only [exec, rxStep, if_pos hsome, rxRelease_of_ready hev.ready, released]
  refine ⟨_, rfl, hfillPos, ?_, ?_⟩
  · simp only [hhead, hheld]
  · simp only [hhead, hu.rxWindow]
    omega

/-- The overrun: the card spends its 511 credits, one frame is polled and
released, and two more fills bring the card to the second, unread, frame. -/
def overrunLabels (w : BitVec 64) : List RxLabel :=
  List.replicate 511 (.fill w) ++ ([.poll 1, .release] ++ [.fill w, .fill w])

theorem exec_overrun (hstart : RxStart window head s) (hwindow : window ≤ 509) (hw : IsRxEvent w) :
    ∃ t, exec rxStep s (overrunLabels w) = some t ∧ ¬ NoOverwrite t := by
  have hpos := hstart.windowPos
  obtain ⟨t, hfilled, hinv, hfills, hnone, hpolled, -⟩ :=
    exec_fills hstart hw (Nat.le_refl 511)
  obtain ⟨u, hreleased, hfillPos, hheld, hdbl⟩ :=
    exec_pollOne_release hinv hpolled (by omega)
  rw [hinv.fillPos, hfills] at hfillPos
  -- neither slot 511 nor slot 0 of the lap is where the doorbell now points
  have hfirst : u.CanFill := by
    rw [RxSys.CanFill, hfillPos, hdbl]
    simp only [numRxDesc]
    omega
  have hsecond : (u.filled w).CanFill := by
    simp only [RxSys.CanFill, RxSys.filled, hfillPos, hdbl, numRxDesc]
    omega
  have hlast : exec rxStep u [.fill w, .fill w] = some ((u.filled w).filled w) := by
    rw [exec_cons_of_some (rxStep_fill hw hfirst),
      exec_cons_of_some (rxStep_fill hw hsecond), exec_nil]
  refine ⟨_, exec_append hfilled (exec_append hreleased hlast), ?_⟩
  intro hsafe
  have hthird : ((u.filled w).filled w).CanFill := by
    simp only [RxSys.CanFill, RxSys.filled, hfillPos, hdbl, numRxDesc]
    omega
  have hslot : ((u.filled w).filled w).fillPos = (head + 1) % 512 := by
    simp only [RxSys.filled, hfillPos, numRxDesc]
    omega
  have hunread : t.held ((head + 1) % 512) = true :=
    (hinv.occupied _).mpr ⟨1, by omega, by omega, rfl⟩
  have hfree := hsafe hthird
  rw [hslot] at hfree
  simp only [RxSys.filled, hfillPos, hheld, numRxDesc] at hfree
  rw [Function.update_of_ne (by omega), Function.update_of_ne (by omega),
    Function.update_of_ne (by omega), hunread] at hfree
  cases hfree

/-! ## The result -/

/-- Direct receive never lets the card overwrite an unreleased frame, whatever
the interleaving, exactly for the windows 510 and 511. -/
theorem direct_rx_never_overwrites_iff {window head : Nat} {s : RxSys}
    (hstart : RxStart window head s) :
    (∀ labels t, exec rxStep s labels = some t → NoOverwrite t) ↔ 510 ≤ window := by
  constructor
  · intro hsafe
    by_contra hsmall
    have hevent : IsRxEvent 0x4e#64 := by decide
    obtain ⟨t, hrun, hbad⟩ := exec_overrun hstart (by omega) hevent
    exact hbad (hsafe _ t hrun)
  · intro hwindow labels t hrun
    exact (exec_invariant (rxInv_rxStep hwindow hstart.windowLt) (rxInv_start hstart)
      hrun).noOverwrite

/-- A library session on the device as attach leaves it. -/
def rxAfterAttach (window : Nat) : RxSys where
  session :=
    { sfc := { (pollOnFreshDevice 0).session.sfc with rxWindow := window }
      dev := postRxBuffers 0x100000#64 allocDmaResources }
  fillPos := 0
  evqWptr := 0
  held := fun _ => false
  fills := 0
  polled := 0
  released := 0

theorem rxStart_rxAfterAttach (hpos : 1 ≤ window) (hlt : window < 512) :
    RxStart window 0 (rxAfterAttach window) where
  ready := ⟨rfl, rfl, rfl, rfl, rfl, rfl, rfl⟩
  windowPos := hpos
  windowLt := hlt
  headLt := by decide
  rxWindow := rfl
  rxHead := rfl
  doorbell := rfl
  fillPos := rfl
  readPtrLt := Nat.zero_lt_succ 511
  evqWptr := rfl
  vacant := fun _ _ => Or.inl rfl
  noneHeld := rfl
  noneFilled := rfl
  nonePolled := rfl
  noneReleased := rfl

/-- The largest window is safe in the state attach leaves. -/
theorem direct_rx_window_511_safe :
    RxStart 511 0 (rxAfterAttach 511) ∧
      ∀ labels t, exec rxStep (rxAfterAttach 511) labels = some t → NoOverwrite t :=
  ⟨rxStart_rxAfterAttach (by decide) (by decide),
    (direct_rx_never_overwrites_iff
      (rxStart_rxAfterAttach (by decide) (by decide))).mpr (by decide)⟩

/-- The default window of 64, in the state attach leaves, is overrun. -/
theorem direct_rx_default_window_overruns :
    ∃ t, exec rxStep (rxAfterAttach 64) (overrunLabels 0x4e#64) = some t ∧
      ¬ NoOverwrite t :=
  exec_overrun (rxStart_rxAfterAttach (by decide) (by decide)) (by decide) (by decide)

end Userlib
end SfcCapio
