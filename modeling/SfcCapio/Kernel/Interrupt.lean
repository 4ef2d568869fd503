import SfcCapio.Foundation.Runs
import SfcCapio.Hardware.EventRing

/-!
# The control event queue

Event queue 0 carries link changes and firmware notices.  The card writes it, and
`sfc7120_interrupt_handler` reads it: look at the slot under `sc->evq_read_ptr`, decode
the event, zero the slot, advance.  The cursor is a field of the softc, so each use of
it in the handler is a load of its own, and attach, which still runs when the handler is
armed, may store to the field between two of them.

One label is one access.  The device lock does not appear: attach does not take it.
-/

namespace SfcCapio
namespace Kernel

open Foundation Hardware

/-! ## Events -/

/-- The link fields of the softc. -/
structure LinkState where
  linkUp : Bool
  fullDuplex : Bool
  linkSpeedMbps : Nat
  linkFcntl : Nat
deriving DecidableEq, Repr

/-- `sfc7120_linkchange_speed_mbps`. -/
def linkchangeSpeedMbps : Nat → Nat
  | 1 => 100
  | 2 => 1000
  | 3 => 10000
  | 4 => 40000
  | 5 => 25000
  | 6 => 50000
  | 7 => 100000
  | _ => 0

/-- `SFC7120_EV_CODE_MCDI`. -/
abbrev evCodeMcdi : Nat := 12

/-- `SFC7120_MCDI_EV_LINKCHANGE`. -/
abbrev mcdiEvLinkchange : Nat := 4

/-- The subcode of an MCDI event, bits 44 to 51. -/
def mcdiEventCode (ev : BitVec 64) : Nat := ((ev >>> 44) &&& 0xff#64).toNat

/-- The event is a link change. -/
def IsLinkchange (ev : BitVec 64) : Prop :=
  evCode ev = evCodeMcdi ∧ mcdiEventCode ev = mcdiEvLinkchange

instance (ev : BitVec 64) : Decidable (IsLinkchange ev) :=
  inferInstanceAs (Decidable (_ ∧ _))

/-- The payload of a link change: flags, speed code and flow control in the low half. -/
def linkchange (ev : BitVec 64) : LinkState where
  linkUp := ((ev >>> 24) &&& 0x01#64) ≠ 0#64
  fullDuplex := ((ev >>> 24) &&& 0x02#64) ≠ 0#64
  linkSpeedMbps := linkchangeSpeedMbps ((ev >>> 16) &&& 0xf#64).toNat
  linkFcntl := ((ev >>> 20) &&& 0xf#64).toNat

/-- The `switch` of the handler; every other event is only reported. -/
def handleEvent (ev : BitVec 64) (link : LinkState) : LinkState :=
  if IsLinkchange ev then linkchange ev else link

/-! ## Handler and attach -/

/-- Where an invocation of the handler stands.  `look`, `clear`, `bump` and `bell` hold
the cursor as loaded one step before. -/
inductive IsrPc
  | idle
  | load
  | look (i : Nat)
  | clearLoad (ev : BitVec 64)
  | clear (ev : BitVec 64) (i : Nat)
  | bumpLoad (ev : BitVec 64)
  | bump (ev : BitVec 64) (i : Nat)
  | bellLoad
  | bell (i : Nat)
deriving DecidableEq, Repr

/-- Where attach stands, from the creation of the control queue on.  A step named
`init..` is the firmware command; the steps after it are the stores to the softc. -/
inductive AttachPc
  | initControl
  | resetControl
  | flagControl
  | arm
  | initData
  | resetData
  | flagData
  | noteData
  | initRxq
  | initTxq
  | insertFilters
  | makeDev
  | attached
  | failDma
  | stopped
deriving DecidableEq, Repr

/-- The control queue, the softc fields about it, handler and attach.  `written` and
`consumed` are the events so far, in order; the cursor passes an event when it is
stored. -/
structure ControlSys where
  evqRing : Nat → BitVec 64
  evqReadPtr : Nat
  evqInitialized : Bool
  dataEvqInitialized : Bool
  dying : Bool
  link : LinkState
  rptrDbl : Option Nat
  isr : IsrPc
  processed : Nat
  attach : AttachPc
  live : Bool
  written : List (BitVec 64)
  consumed : List (BitVec 64)

/-- What can happen next. -/
inductive ControlLabel
  | nic (ev : BitVec 64)
  | interrupt
  | isr
  | attach (ok : Bool)
deriving DecidableEq, Repr

/-- The card writes an event in ring order, never over one that is not yet consumed. -/
def nicStep (s : ControlSys) (ev : BitVec 64) : Option ControlSys :=
  if s.live = true ∧ ¬ slotVacant ev ∧ s.written.length < s.consumed.length + numEvqEntry then
    some
      { s with
        evqRing := Function.update s.evqRing (s.written.length % numEvqEntry) ev
        written := s.written ++ [ev] }
  else none

/-- The vector fires: `sfc7120_interrupt_handler` up to its latch. -/
def interruptStep (s : ControlSys) : Option ControlSys :=
  if s.isr = .idle ∧ s.attach ≠ .stopped then
    if s.dying = true ∨ s.evqInitialized = false then some s
    else some { s with isr := .load, processed := 0 }
  else none

/-- One access of the handler. -/
def isrStep (s : ControlSys) : Option ControlSys :=
  match s.isr with
  | .idle => none
  | .load => some { s with isr := .look s.evqReadPtr }
  | .look i =>
    if slotVacant (s.evqRing i) then
      some { s with isr := if 0 < s.processed then .bellLoad else .idle }
    else
      some
        { s with
          link := handleEvent (s.evqRing i) s.link
          isr := .clearLoad (s.evqRing i) }
  | .clearLoad ev => some { s with isr := .clear ev s.evqReadPtr }
  | .clear ev i =>
    some { s with evqRing := Function.update s.evqRing i 0#64, isr := .bumpLoad ev }
  | .bumpLoad ev => some { s with isr := .bump ev s.evqReadPtr }
  | .bump ev i =>
    some
      { s with
        evqReadPtr := (i + 1) &&& (numEvqEntry - 1)
        consumed := s.consumed ++ [ev]
        processed := s.processed + 1
        isr := if numEvqEntry ≤ s.processed + 1 then .bellLoad else .load }
  | .bellLoad => some { s with isr := .bell s.evqReadPtr }
  | .bell i => some { s with rptrDbl := some (i &&& evqRptrMask), isr := .idle }

/-- What one access of the handler can be, with the branch it takes decided. -/
inductive IsrAccess (s : ControlSys) : ControlSys → Prop
  | load (hpc : s.isr = .load) : IsrAccess s { s with isr := .look s.evqReadPtr }
  | leave {i : Nat} (hpc : s.isr = .look i) (hvacant : slotVacant (s.evqRing i))
      (hnone : ¬ 0 < s.processed) : IsrAccess s { s with isr := .idle }
  | drained {i : Nat} (hpc : s.isr = .look i) (hvacant : slotVacant (s.evqRing i))
      (hsome : 0 < s.processed) : IsrAccess s { s with isr := .bellLoad }
  | event {i : Nat} (hpc : s.isr = .look i) (hfull : ¬ slotVacant (s.evqRing i)) :
      IsrAccess s
        { s with
          link := handleEvent (s.evqRing i) s.link
          isr := .clearLoad (s.evqRing i) }
  | clearLoad {ev : BitVec 64} (hpc : s.isr = .clearLoad ev) :
      IsrAccess s { s with isr := .clear ev s.evqReadPtr }
  | clear {ev : BitVec 64} {i : Nat} (hpc : s.isr = .clear ev i) :
      IsrAccess s { s with evqRing := Function.update s.evqRing i 0#64, isr := .bumpLoad ev }
  | bumpLoad {ev : BitVec 64} (hpc : s.isr = .bumpLoad ev) :
      IsrAccess s { s with isr := .bump ev s.evqReadPtr }
  | bump {ev : BitVec 64} {i : Nat} {next : IsrPc} (hpc : s.isr = .bump ev i)
      (hnext : (numEvqEntry ≤ s.processed + 1 ∧ next = .bellLoad) ∨
        (s.processed + 1 < numEvqEntry ∧ next = .load)) :
      IsrAccess s
        { s with
          evqReadPtr := (i + 1) &&& (numEvqEntry - 1)
          consumed := s.consumed ++ [ev]
          processed := s.processed + 1
          isr := next }
  | bellLoad (hpc : s.isr = .bellLoad) : IsrAccess s { s with isr := .bell s.evqReadPtr }
  | bell {i : Nat} (hpc : s.isr = .bell i) :
      IsrAccess s { s with rptrDbl := some (i &&& evqRptrMask), isr := .idle }

theorem isrAccess_of_isrStep {s s' : ControlSys} (hstep : isrStep s = some s') :
    IsrAccess s s' := by
  unfold isrStep at hstep
  cases hpc : s.isr with
  | idle =>
    rw [hpc] at hstep
    cases hstep
  | load =>
    rw [hpc] at hstep
    cases hstep
    exact .load hpc
  | look i =>
    rw [hpc] at hstep
    dsimp only at hstep
    split at hstep
    · next hvacant =>
        cases hstep
        by_cases hsome : 0 < s.processed
        · rw [if_pos hsome]
          exact .drained hpc hvacant hsome
        · rw [if_neg hsome]
          exact .leave hpc hvacant hsome
    · next hfull =>
        cases hstep
        exact .event hpc hfull
  | clearLoad ev =>
    rw [hpc] at hstep
    cases hstep
    exact .clearLoad hpc
  | clear ev i =>
    rw [hpc] at hstep
    cases hstep
    exact .clear hpc
  | bumpLoad ev =>
    rw [hpc] at hstep
    cases hstep
    exact .bumpLoad hpc
  | bump ev i =>
    rw [hpc] at hstep
    cases hstep
    apply IsrAccess.bump hpc
    by_cases hlast : numEvqEntry ≤ s.processed + 1
    · exact Or.inl ⟨hlast, if_pos hlast⟩
    · exact Or.inr ⟨Nat.lt_of_not_le hlast, if_neg hlast⟩
  | bellLoad =>
    rw [hpc] at hstep
    cases hstep
    exact .bellLoad hpc
  | bell i =>
    rw [hpc] at hstep
    cases hstep
    exact .bell hpc

/-- A firmware command of attach: on to the next step, or to `fail_dma`. -/
def attachCommand (s : ControlSys) (ok : Bool) (next : AttachPc) : Option ControlSys :=
  some { s with attach := if ok then next else .failDma }

/-- One step of attach; `sfc7120_mcdi_init_evq` stores cursor and flag of the control
queue for either instance. -/
def attachStep (s : ControlSys) (ok : Bool) : Option ControlSys :=
  match s.attach with
  | .initControl => attachCommand { s with live := ok } ok .resetControl
  | .resetControl => some { s with evqReadPtr := 0, attach := .flagControl }
  | .flagControl => some { s with evqInitialized := true, attach := .arm }
  | .arm => some { s with evqInitialized := true, attach := .initData }
  | .initData => attachCommand s ok .resetData
  | .resetData => some { s with evqReadPtr := 0, attach := .flagData }
  | .flagData => some { s with evqInitialized := true, attach := .noteData }
  | .noteData => some { s with dataEvqInitialized := true, attach := .initRxq }
  | .initRxq => attachCommand s ok .initTxq
  | .initTxq => attachCommand s ok .insertFilters
  | .insertFilters => attachCommand s ok .makeDev
  | .makeDev => attachCommand s ok .attached
  | .attached => none
  -- `bus_teardown_intr` waits for a handler that is running
  | .failDma => if s.isr = .idle then some { s with attach := .stopped } else none
  | .stopped => none

/-- One step of the system. -/
def controlStep (s : ControlSys) : ControlLabel → Option ControlSys
  | .nic ev => nicStep s ev
  | .interrupt => interruptStep s
  | .isr => isrStep s
  | .attach ok => attachStep s ok

/-- Memory allocated, the ring primed, the vector wired, no queue yet. -/
def controlStart (link : LinkState) : ControlSys where
  evqRing := fun _ => 0xffffffffffffffff#64
  evqReadPtr := 0
  evqInitialized := false
  dataEvqInitialized := false
  dying := false
  link := link
  rptrDbl := none
  isr := .idle
  processed := 0
  attach := .initControl
  live := false
  written := []
  consumed := []

/-! ## The handler against the card

What follows holds as long as nobody else moves the cursor. -/

/-- The handler has zeroed the slot of the event it is about to pass. -/
def IsrPc.cleared : IsrPc → Nat
  | .bumpLoad _ | .bump _ _ => 1
  | _ => 0

/-- The event that the handler has in hand. -/
def IsrPc.inHand : IsrPc → Option (BitVec 64)
  | .clearLoad ev | .clear ev _ | .bumpLoad ev | .bump ev _ => some ev
  | _ => none

/-- The cursor as the handler has loaded it. -/
def IsrPc.loaded : IsrPc → Option Nat
  | .look i | .clear _ i | .bump _ i | .bell i => some i
  | _ => none

/-- The cursor counts the consumed events, which are the first ones written; the ring
holds the others, less the one whose slot has just been zeroed. -/
structure ControlInv (s : ControlSys) : Prop where
  cursor : s.evqReadPtr = s.consumed.length % 512
  order : s.consumed = s.written.take s.consumed.length
  ring : Holds 512 slotVacant s.evqRing (s.consumed.length + s.isr.cleared)
    (s.written.drop (s.consumed.length + s.isr.cleared))
  inHand : ∀ ev, s.isr.inHand = some ev → s.written[s.consumed.length]? = some ev
  loaded : ∀ i, s.isr.loaded = some i → i = s.consumed.length % 512

section Steps

variable {s s' : ControlSys}

theorem ControlInv.consumed_le (hinv : ControlInv s) :
    s.consumed.length ≤ s.written.length := by
  have hlen := congrArg List.length hinv.order
  rw [List.length_take] at hlen
  omega

/-- The queue that the ring represents ends where the card writes next. -/
theorem ControlInv.cursor_le (hinv : ControlInv s) :
    s.consumed.length + s.isr.cleared ≤ s.written.length := by
  have hle := hinv.consumed_le
  have hhand := hinv.inHand
  cases hpc : s.isr with
  | bumpLoad ev | bump ev i =>
    rw [hpc] at hhand
    have hlt := (List.getElem?_eq_some_iff.mp (hhand ev rfl)).1
    exact hlt
  | _ => exact hle

/-- A step that only moves the handler on, with nothing zeroed. -/
theorem ControlInv.goto {pc : IsrPc} (hinv : ControlInv s) (hcleared : pc.cleared = s.isr.cleared)
    (hhand : ∀ ev, pc.inHand = some ev → s.written[s.consumed.length]? = some ev)
    (hloaded : ∀ i, pc.loaded = some i → i = s.consumed.length % 512) :
    ControlInv { s with isr := pc } where
  cursor := hinv.cursor
  order := hinv.order
  ring := by
    show Holds 512 slotVacant s.evqRing (s.consumed.length + pc.cleared)
      (s.written.drop (s.consumed.length + pc.cleared))
    rw [hcleared]
    exact hinv.ring
  inHand := hhand
  loaded := hloaded

theorem controlInv_nic {ev : BitVec 64} (hinv : ControlInv s) (hstep : nicStep s ev = some s') :
    ControlInv s' := by
  unfold nicStep at hstep
  split at hstep
  · next hcond =>
      obtain ⟨_, hvacant, hroom⟩ := hcond
      cases hstep
      have hle := hinv.cursor_le
      have hlen : (s.written.drop (s.consumed.length + s.isr.cleared)).length =
          s.written.length - (s.consumed.length + s.isr.cleared) := List.length_drop
      have hwrite := hinv.ring.write (e := ev)
        (by rw [hlen]; simp only [numEvqEntry] at hroom; omega) hvacant
      rw [hlen, Nat.add_sub_cancel' hle] at hwrite
      refine ⟨hinv.cursor, ?_, ?_, ?_, hinv.loaded⟩
      · exact hinv.order.trans (List.take_append_of_le_length hinv.consumed_le).symm
      · show Holds 512 slotVacant _ _ ((s.written ++ [ev]).drop _)
        rw [List.drop_append_of_le_length hle]
        exact hwrite
      · intro ev' hhand
        exact getElem?_concat_of_some (hinv.inHand ev' hhand)
  · cases hstep

theorem ControlInv.load_cursor (hinv : ControlInv s) {i : Nat}
    (hload : some s.evqReadPtr = some i) :
    i = s.consumed.length % 512 := by
  rw [← Option.some.inj hload]
  exact hinv.cursor

/-- An event under the cursor is the oldest that has not been consumed. -/
theorem ControlInv.oldest (hinv : ControlInv s) (hcleared : s.isr.cleared = 0)
    (hfull : ¬ slotVacant (s.evqRing (s.consumed.length % 512))) :
    s.written[s.consumed.length]? = some (s.evqRing (s.consumed.length % 512)) := by
  have hring := hinv.ring
  rw [hcleared, Nat.add_zero] at hring
  cases hpending : s.written.drop s.consumed.length with
  | nil =>
    rw [hpending] at hring
    exact absurd (hring.vacant_of_nil (by decide)) hfull
  | cons e rest =>
    rw [hpending] at hring
    rw [hring.cell_eq_head, ← List.head?_drop, hpending]
    rfl

theorem ControlInv.clear {ev : BitVec 64} {i : Nat} (hinv : ControlInv s)
    (hpc : s.isr = .clear ev i) :
    ControlInv { s with evqRing := Function.update s.evqRing i 0#64, isr := .bumpLoad ev } := by
  have hring := hinv.ring
  have hhand := hinv.inHand
  rw [hpc] at hhand hring
  have hi : i = s.consumed.length % 512 := hinv.loaded i (by rw [hpc]; rfl)
  -- the event in hand is the head of what the ring holds
  have hlt := (List.getElem?_eq_some_iff.mp (hhand ev rfl)).1
  have hdrop : s.written.drop (s.consumed.length + IsrPc.cleared (.clear ev i)) =
      s.written[s.consumed.length] :: s.written.drop (s.consumed.length + 1) :=
    List.drop_eq_getElem_cons hlt
  rw [hdrop] at hring
  subst hi
  exact ⟨hinv.cursor, hinv.order, hring.consume zero_slotVacant, hhand, nofun⟩

theorem ControlInv.bump {ev : BitVec 64} {i processed : Nat} {pc : IsrPc} (hinv : ControlInv s)
    (hpc : s.isr = .bump ev i) (hnext : pc = .load ∨ pc = .bellLoad) :
    ControlInv
      { s with
        evqReadPtr := (i + 1) &&& (numEvqEntry - 1)
        consumed := s.consumed ++ [ev]
        processed := processed
        isr := pc } := by
  have hring := hinv.ring
  have hhand := hinv.inHand
  rw [hpc] at hhand hring
  have hi : i = s.consumed.length % 512 := hinv.loaded i (by rw [hpc]; rfl)
  have hhead := hhand ev rfl
  have hlen : (s.consumed ++ [ev]).length = s.consumed.length + 1 := by simp
  refine ⟨?_, ?_, ?_, ?_, ?_⟩
  · show (i + 1) &&& (numEvqEntry - 1) = (s.consumed ++ [ev]).length % 512
    rw [hlen, numEvqEntry, land_ringMask, hi]
    omega
  · show s.consumed ++ [ev] = s.written.take (s.consumed ++ [ev]).length
    rw [hlen, List.take_add_one, hhead, ← hinv.order]
    rfl
  · show Holds 512 slotVacant s.evqRing ((s.consumed ++ [ev]).length + pc.cleared)
      (s.written.drop ((s.consumed ++ [ev]).length + pc.cleared))
    have hcleared : pc.cleared = 0 := by
      rcases hnext with rfl | rfl <;> rfl
    rw [hcleared, hlen]
    exact hring
  · rcases hnext with rfl | rfl <;> nofun
  · rcases hnext with rfl | rfl <;> nofun

theorem controlInv_isr (hinv : ControlInv s) (hstep : isrStep s = some s') : ControlInv s' := by
  have hhand := hinv.inHand
  cases isrAccess_of_isrStep hstep with
  | load hpc | bellLoad hpc =>
    exact hinv.goto (by rw [hpc]; rfl) nofun (fun _ h => hinv.load_cursor h)
  | leave hpc | drained hpc =>
    exact hinv.goto (by rw [hpc]; rfl) nofun nofun
  | @event i hpc hfull =>
    have hi : i = s.consumed.length % 512 := hinv.loaded i (by rw [hpc]; rfl)
    rw [hi] at hfull ⊢
    have holdest := hinv.oldest (by rw [hpc]; rfl) hfull
    have hgoto : ControlInv
        { s with isr := .clearLoad (s.evqRing (s.consumed.length % 512)) } :=
      hinv.goto (by rw [hpc]; rfl) (fun _ h => (Option.some.inj h) ▸ holdest) nofun
    exact { hgoto with }
  | clearLoad hpc | bumpLoad hpc =>
    rw [hpc] at hhand
    exact hinv.goto (by rw [hpc]; rfl) hhand (fun _ h => hinv.load_cursor h)
  | clear hpc => exact hinv.clear hpc
  | bump hpc hnext =>
    apply hinv.bump hpc
    rcases hnext with ⟨-, hnext⟩ | ⟨-, hnext⟩
    · exact Or.inr hnext
    · exact Or.inl hnext
  | bell hpc =>
    have hgoto : ControlInv { s with isr := .idle } :=
      hinv.goto (by rw [hpc]; rfl) nofun nofun
    exact { hgoto with }

/-- Firing the vector begins a round or does nothing. -/
theorem controlInv_interrupt (hinv : ControlInv s) (hstep : interruptStep s = some s') :
    ControlInv s' := by
  unfold interruptStep at hstep
  split at hstep
  · next hidle =>
      split at hstep
      · cases hstep
        exact hinv
      · cases hstep
        have hgoto : ControlInv { s with isr := .load } :=
          hinv.goto (by rw [hidle.1]; rfl) nofun nofun
        exact { hgoto with }
  · cases hstep

end Steps

end Kernel
end SfcCapio
