import SfcCapio.Kernel.Interrupt

/-!
# Who moves the cursor of the control queue

The handler is armed as soon as the control queue exists, and is meant to be the only
one to move its cursor.  Attach goes on to create the data queue with the same helper
`sfc7120_mcdi_init_evq`, which sets `sc->evq_read_ptr` to 0 whatever the instance.  If
the handler has consumed events by then, the cursor points at a slot it has already
zeroed, and the events behind it are not seen until the card has gone around the ring.
-/

namespace SfcCapio
namespace Kernel

open Foundation Hardware

/-- The cursor counts the consumed events, and the slot under it holds the oldest event
not yet consumed (unless the handler has just zeroed it). -/
structure CursorExact (s : ControlSys) : Prop where
  cursor : s.evqReadPtr = s.consumed.length % numEvqEntry
  oldest : s.isr.cleared = 0 → ∀ ev, s.written[s.consumed.length]? = some ev →
    s.evqRing s.evqReadPtr = ev

/-- Where the creation of the data queue stores 0, the cursor is at 0 anyway. -/
def ResetHarmless (s : ControlSys) : ControlLabel → Prop
  | .attach _ => s.attach = .resetData → s.consumed.length % numEvqEntry = 0
  | _ => True

instance (s : ControlSys) (a : ControlLabel) : Decidable (ResetHarmless s a) :=
  match a with
  | .attach _ => inferInstanceAs (Decidable (_ → _))
  | .nic _ | .interrupt | .isr => inferInstanceAs (Decidable True)

/-- The handler is not armed yet. -/
def AttachPc.unarmed : AttachPc → Bool
  | .initControl | .resetControl | .flagControl => true
  | _ => false

/-- Until the handler is armed nothing is consumed. -/
structure CursorInv (s : ControlSys) : Prop extends ControlInv s where
  unarmed : s.attach.unarmed = true →
    s.evqInitialized = false ∧ s.isr = .idle ∧ s.consumed = []

section Steps

variable {s s' : ControlSys}

theorem CursorInv.exact (hinv : CursorInv s) : CursorExact s where
  cursor := hinv.cursor
  oldest := by
    intro hcleared ev hev
    have hring := hinv.ring
    rw [hcleared, Nat.add_zero] at hring
    obtain ⟨hlt, hget⟩ := List.getElem?_eq_some_iff.mp hev
    rw [List.drop_eq_getElem_cons hlt] at hring
    rw [hinv.cursor, hring.cell_eq_head]
    exact hget

theorem cursorInv_start (link : LinkState) : CursorInv (controlStart link) where
  cursor := rfl
  order := rfl
  ring := by
    show Holds 512 slotVacant (fun _ => 0xffffffffffffffff#64) 0 []
    apply Holds.empty
    intro i _
    exact Or.inl rfl
  inHand := nofun
  loaded := nofun
  unarmed _ := ⟨rfl, rfl, rfl⟩

theorem CursorInv.pass {pc : AttachPc} {flag data live : Bool} (hinv : CursorInv s)
    (hunarmed : pc.unarmed = true → s.attach.unarmed = true ∧ flag = s.evqInitialized) :
    CursorInv
      { s with
        evqInitialized := flag
        dataEvqInitialized := data
        live := live
        attach := pc } :=
  { hinv with
    unarmed := by
      intro hpc
      obtain ⟨hbefore, hflag⟩ := hunarmed hpc
      obtain ⟨hinit, hidle, hnone⟩ := hinv.unarmed hbefore
      exact ⟨hflag.trans hinit, hidle, hnone⟩ }

theorem CursorInv.reset {pc : AttachPc} (hinv : CursorInv s)
    (hzero : s.consumed.length % numEvqEntry = 0)
    (hunarmed : pc.unarmed = true → s.attach.unarmed = true) :
    CursorInv { s with evqReadPtr := 0, attach := pc } :=
  { hinv with
    cursor := hzero.symm
    unarmed := fun hpc => hinv.unarmed (hunarmed hpc) }

theorem cursorInv_attach {ok : Bool} (hinv : CursorInv s)
    (hguard : s.attach = .resetData → s.consumed.length % numEvqEntry = 0)
    (hstep : attachStep s ok = some s') : CursorInv s' := by
  unfold attachStep attachCommand at hstep
  cases hpc : s.attach with
  | resetControl =>
    rw [hpc] at hstep
    cases hstep
    have hnone := (hinv.unarmed (by rw [hpc]; rfl)).2.2
    exact hinv.reset (by rw [hnone]; rfl) (fun _ => by rw [hpc]; rfl)
  | resetData =>
    rw [hpc] at hstep
    cases hstep
    exact hinv.reset (hguard hpc) nofun
  | initControl =>
    rw [hpc] at hstep
    cases hstep
    exact hinv.pass fun _ => ⟨by rw [hpc]; rfl, rfl⟩
  | failDma =>
    rw [hpc] at hstep
    dsimp only at hstep
    split at hstep
    · cases hstep
      exact hinv.pass nofun
    · cases hstep
  | attached | stopped =>
    rw [hpc] at hstep
    cases hstep
  | flagControl | arm | flagData | noteData =>
    rw [hpc] at hstep
    cases hstep
    exact hinv.pass nofun
  | initData | initRxq | initTxq | insertFilters | makeDev =>
    rw [hpc] at hstep
    cases hstep
    cases ok <;> exact hinv.pass nofun

theorem isrStep_attach (hstep : isrStep s = some s') : s'.attach = s.attach := by
  cases isrAccess_of_isrStep hstep <;> rfl

/-- The handler runs only once it is armed. -/
theorem cursorInv_isr (hinv : CursorInv s) (hstep : isrStep s = some s') : CursorInv s' :=
  { controlInv_isr hinv.toControlInv hstep with
    unarmed := by
      intro hpc
      rw [isrStep_attach hstep] at hpc
      rw [isrStep, (hinv.unarmed hpc).2.1] at hstep
      cases hstep }

theorem cursorInv_interrupt (hinv : CursorInv s) (hstep : interruptStep s = some s') :
    CursorInv s' :=
  { controlInv_interrupt hinv.toControlInv hstep with
    unarmed := by
      unfold interruptStep at hstep
      split at hstep
      · split at hstep
        · cases hstep
          exact hinv.unarmed
        · next hlatch =>
            cases hstep
            intro hpc
            exact absurd (Or.inr (hinv.unarmed hpc).1) hlatch
      · cases hstep }

theorem cursorInv_nic {ev : BitVec 64} (hinv : CursorInv s) (hstep : nicStep s ev = some s') :
    CursorInv s' :=
  { controlInv_nic hinv.toControlInv hstep with
    unarmed := by
      unfold nicStep at hstep
      split at hstep
      · cases hstep
        exact hinv.unarmed
      · cases hstep }

/-- One step, with the store of attach kept harmless. -/
theorem cursorInv_step {a : ControlLabel} (hinv : CursorInv s) (hguard : ResetHarmless s a)
    (hstep : controlStep s a = some s') : CursorInv s' := by
  cases a with
  | nic ev => exact cursorInv_nic hinv hstep
  | interrupt => exact cursorInv_interrupt hinv hstep
  | isr => exact cursorInv_isr hinv hstep
  | attach ok => exact cursorInv_attach hinv hguard hstep

/-- A store of 0 while the count is elsewhere is seen at once. -/
theorem not_exact_of_reset {a : ControlLabel} (hguard : ¬ ResetHarmless s a)
    (hstep : controlStep s a = some s') : ¬ CursorExact s' := by
  intro hexact
  apply hguard
  cases a with
  | attach ok =>
    intro hpc
    rw [controlStep, attachStep, hpc] at hstep
    cases hstep
    exact hexact.cursor.symm
  | nic ev | interrupt | isr => trivial

end Steps

/-- **The owner of the control cursor.**  In any interleaving of the card, the handler and
attach, the cursor equals the number of consumed events modulo the ring size at every
moment, and points at the oldest unconsumed event, if and only if the handler has
consumed a multiple of 512 events when attach stores 0 for the data queue. -/
theorem control_cursor_exact_iff (link : LinkState) {run : List ControlLabel} {t : ControlSys}
    (hrun : exec controlStep (controlStart link) run = some t) :
    Along controlStep CursorExact (controlStart link) run ↔
      Obeys controlStep ResetHarmless (controlStart link) run :=
  along_iff_obeys (fun _ _ _ hinv hguard => cursorInv_step hinv hguard)
    (fun _ hinv => hinv.exact) (fun _ _ _ _ hguard => not_exact_of_reset hguard)
    (cursorInv_start link) hrun

/-- A link change: up, full duplex, 10 Gb/s. -/
def linkUpEvent : BitVec 64 := 0xc000400003030000#64

/-- One invocation that finds one event: six accesses for it, two for the empty slot
after it, two for the doorbell. -/
def oneEvent : List ControlLabel := .interrupt :: List.replicate 10 .isr

/-- The link comes up after attach is done. -/
def lateEvent : List ControlLabel :=
  List.replicate 12 (.attach true) ++ .nic linkUpEvent :: oneEvent

/-- The link comes up between the creation of the two event queues. -/
def earlyEvent : List ControlLabel :=
  List.replicate 4 (.attach true) ++ .nic linkUpEvent :: oneEvent ++
    List.replicate 2 (.attach true) ++ .nic linkUpEvent :: [.interrupt, .isr, .isr]

theorem late_event_cursor_exact :
    ∃ t, exec controlStep (controlStart ⟨false, false, 0, 0⟩) lateEvent = some t ∧
      Along controlStep CursorExact (controlStart ⟨false, false, 0, 0⟩) lateEvent ∧
      t.consumed = [linkUpEvent] ∧ t.evqReadPtr = 1 := by
  obtain ⟨t, hrun, hconsumed, hptr⟩ : ∃ t,
      exec controlStep (controlStart ⟨false, false, 0, 0⟩) lateEvent = some t ∧
        t.consumed = [linkUpEvent] ∧ t.evqReadPtr = 1 := ⟨_, rfl, rfl, rfl⟩
  refine ⟨t, hrun, (control_cursor_exact_iff _ hrun).mpr ?_, hconsumed, hptr⟩
  decide +kernel

/-- The second event is in slot 1, the cursor at 0: the handler sees an empty slot and
returns. -/
theorem early_event_breaks_cursor :
    ∃ t, exec controlStep (controlStart ⟨false, false, 0, 0⟩) earlyEvent = some t ∧
      t.written.length = 2 ∧ t.consumed.length = 1 ∧ t.evqReadPtr = 0 ∧ t.isr = .idle ∧
      ¬ CursorExact t := by
  refine ⟨_, rfl, rfl, rfl, rfl, rfl, ?_⟩
  intro hexact
  exact absurd hexact.cursor (by decide)

end Kernel
end SfcCapio
