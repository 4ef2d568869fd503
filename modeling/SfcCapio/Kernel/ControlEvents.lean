import SfcCapio.Kernel.Interrupt

/-!
# What the control queue delivers

Once attach is over nobody but the handler moves `sc->evq_read_ptr`.  From a state in
which cursor and ring agree, whatever the card writes and whenever the vector fires:

* the consumed events are the written ones, each once and in order (`EventsExact.order`),
  and a handler that finds an empty slot has consumed all of them (`EventsExact.caughtUp`);
* an invocation that is left alone empties the queue (`control_drains`);
* the link fields are those of the last link change among them (`EventsExact.link`), read
  from the bits of the event.

The bound on one invocation does not need the card to behave: `handlerStep` lets the
contents of the ring change before every access.
-/

namespace SfcCapio
namespace Kernel

open Foundation Hardware

/-! ## The link fields

The layout of an event comes from the register reference of the card (field positions
`MCDI_EVENT_*_LBN`, speed codes `MCDI_EVENT_LINKCHANGE_SPEED_*`).  The definitions read it
bit by bit and do not go through the shifts and masks of the handler. -/

/-- Event code 12 in bits 60 to 63 and MCDI subcode 4 in bits 44 to 51. -/
def SaysLinkchange (w : BitVec 64) : Prop :=
  w.extractLsb' 60 4 = 12#4 ∧ w.extractLsb' 44 8 = 4#8

/-- The link speed in Mbit/s by its code; a code behind the table is unknown. -/
def linkSpeeds : List Nat := [0, 100, 1000, 10000, 40000, 25000, 50000, 100000]

/-- The link fields are what the link change `w` reports. -/
structure ReportsLink (w : BitVec 64) (link : LinkState) : Prop where
  up : link.linkUp = w.getLsbD 24
  fullDuplex : link.fullDuplex = w.getLsbD 25
  speed : link.linkSpeedMbps = linkSpeeds.getD (w.extractLsb' 16 4).toNat 0
  fcntl : link.linkFcntl = (w.extractLsb' 20 4).toNat

/-- After the events `evs` the fields report the last link change among them; without one
they are as they were. -/
structure LinkShows (before : LinkState) (evs : List (BitVec 64)) (link : LinkState) :
    Prop where
  last : ∀ earlier w later, evs = earlier ++ w :: later → SaysLinkchange w →
    (∀ e ∈ later, ¬ SaysLinkchange e) → ReportsLink w link
  kept : (∀ e ∈ evs, ¬ SaysLinkchange e) → link = before

theorem isLinkchange_iff (w : BitVec 64) : IsLinkchange w ↔ SaysLinkchange w := by
  have hcode : evCode w = (w.extractLsb' 60 4).toNat := toNat_shift_mask w 60 rfl
  have hsub : mcdiEventCode w = (w.extractLsb' 44 8).toNat := toNat_shift_mask w 44 rfl
  rw [IsLinkchange, hcode, hsub]
  exact and_congr (BitVec.toNat_inj (y := 12#4)) (BitVec.toNat_inj (y := 4#8))

/-- A bit that the handler tests with a one-bit mask. -/
theorem decide_mask_ne_zero (w : BitVec 64) (lbn i : Nat) (hi : BitVec.twoPow 64 i ≠ 0#64) :
    decide (((w >>> lbn) &&& BitVec.twoPow 64 i) ≠ 0#64) = w.getLsbD (lbn + i) := by
  rw [BitVec.and_twoPow, BitVec.getLsbD_ushiftRight]
  cases w.getLsbD (lbn + i) with
  | false => simp
  | true => simp [hi]

theorem linkchangeSpeedMbps_eq (code : Nat) :
    linkchangeSpeedMbps code = linkSpeeds.getD code 0 := by
  match code with
  | 0 | 1 | 2 | 3 | 4 | 5 | 6 | 7 => rfl
  | n + 8 => rfl

theorem reportsLink_linkchange (w : BitVec 64) : ReportsLink w (linkchange w) where
  up := decide_mask_ne_zero w 24 0 (by decide)
  fullDuplex := decide_mask_ne_zero w 24 1 (by decide)
  speed := by
    have hcode := toNat_shift_mask w 16 (show (0xf#64).toNat = 2 ^ 4 - 1 from rfl)
    rw [linkchange, linkchangeSpeedMbps_eq, hcode]
  fcntl := toNat_shift_mask w 20 rfl

/-- One event more: it is the last link change, or it changes nothing. -/
theorem LinkShows.concat {before link : LinkState} {evs : List (BitVec 64)}
    (hshows : LinkShows before evs link) (ev : BitVec 64) :
    LinkShows before (evs ++ [ev]) (handleEvent ev link) := by
  have hlast : ∀ {earlier w later}, evs ++ [ev] = earlier ++ w :: later →
      later = [] ∧ w = ev ∨ ∃ rest, later = rest ++ [ev] ∧ evs = earlier ++ w :: rest := by
    intro earlier w later hsplit
    rcases List.eq_nil_or_concat later with rfl | ⟨rest, e, rfl⟩
    · obtain ⟨-, hw⟩ := List.append_inj' hsplit rfl
      exact Or.inl ⟨rfl, (List.cons.inj hw).1.symm⟩
    · rw [List.concat_eq_append, ← List.cons_append, ← List.append_assoc] at hsplit
      obtain ⟨hevs, he⟩ := List.append_inj' hsplit rfl
      exact Or.inr ⟨rest, by rw [List.concat_eq_append, (List.cons.inj he).1], hevs⟩
  by_cases hlink : SaysLinkchange ev
  · rw [handleEvent, if_pos ((isLinkchange_iff ev).mpr hlink)]
    refine ⟨?_, fun hnone => absurd hlink (hnone ev (by simp))⟩
    intro earlier w later hsplit _ hnone
    rcases hlast hsplit with ⟨-, rfl⟩ | ⟨rest, rfl, -⟩
    · exact reportsLink_linkchange w
    · exact absurd hlink (hnone ev (by simp))
  · rw [handleEvent, if_neg fun h => hlink ((isLinkchange_iff ev).mp h)]
    refine ⟨?_, fun hnone => hshows.kept fun e he => hnone e (List.mem_append_left _ he)⟩
    intro earlier w later hsplit hw hnone
    rcases hlast hsplit with ⟨-, rfl⟩ | ⟨rest, rfl, hevs⟩
    · exact absurd hw hlink
    · exact hshows.last earlier w rest hevs hw fun e he => hnone e (List.mem_append_left _ he)

/-- The events whose effect the link fields show: the consumed ones, and the one that the
handler has in hand. -/
def ControlSys.seen (s : ControlSys) : List (BitVec 64) := s.consumed ++ s.isr.inHand.toList

section Steps

variable {s s' t : ControlSys}

/-- The handler sees one event more, or nothing new. -/
theorem isrStep_seen (hstep : isrStep s = some s') :
    (s'.seen = s.seen ∧ s'.link = s.link) ∨
      ∃ ev, s'.seen = s.seen ++ [ev] ∧ s'.link = handleEvent ev s.link := by
  cases isrAccess_of_isrStep hstep with
  | @event i hpc _ =>
    exact Or.inr ⟨s.evqRing i, by simp [ControlSys.seen, hpc, IsrPc.inHand], rfl⟩
  | bump hpc hnext =>
    -- what was in hand is now consumed
    refine Or.inl ⟨?_, rfl⟩
    rcases hnext with ⟨-, rfl⟩ | ⟨-, rfl⟩
    · simp [ControlSys.seen, hpc, IsrPc.inHand]
    · simp [ControlSys.seen, hpc, IsrPc.inHand]
  | load hpc | leave hpc | drained hpc | clearLoad hpc | clear hpc | bumpLoad hpc
  | bellLoad hpc | bell hpc =>
    exact Or.inl ⟨by simp [ControlSys.seen, hpc, IsrPc.inHand], rfl⟩

theorem isrStep_consumed (hstep : isrStep s = some s') : s.consumed <+: s'.consumed := by
  cases isrAccess_of_isrStep hstep with
  | bump => exact List.prefix_append _ _
  | _ => exact List.prefix_refl _

/-! ## Runs after attach -/

/-- Attach is over, the handler is between two invocations, and the ring holds exactly the
events that are still to be consumed, from the cursor on.  The lists count from a common
point: they have the length that gives the position of the card and of the cursor. -/
structure AttachedInStep (s : ControlSys) : Prop where
  attached : s.attach = .attached
  up : s.evqInitialized = true ∧ s.dying = false
  idle : s.isr = .idle
  noneYet : s.processed = 0
  cursor : s.evqReadPtr = s.consumed.length % numEvqEntry
  order : s.consumed = s.written.take s.consumed.length
  ring : Holds numEvqEntry slotVacant s.evqRing s.consumed.length
    (s.written.drop s.consumed.length)

/-- The plain case: nothing is outstanding, every slot is vacant, and the cursor points at
the slot that the card writes next. -/
theorem AttachedInStep.of_vacant (hattached : s.attach = .attached)
    (hup : s.evqInitialized = true ∧ s.dying = false) (hidle : s.isr = .idle)
    (hnone : s.processed = 0) (hall : s.consumed = s.written)
    (hcursor : s.evqReadPtr = s.written.length % numEvqEntry)
    (hvacant : ∀ i, i < numEvqEntry → slotVacant (s.evqRing i)) : AttachedInStep s where
  attached := hattached
  up := hup
  idle := hidle
  noneYet := hnone
  cursor := by
    rw [hall]
    exact hcursor
  order := by
    rw [hall, List.take_length]
  ring := by
    rw [hall, List.drop_length]
    exact Holds.empty hvacant _

/-- What holds of `t`, reached from `s`.  `processed` is the count of the latest invocation
since `s`. -/
structure EventsExact (s t : ControlSys) : Prop where
  order : t.consumed = t.written.take t.consumed.length
  kept : s.consumed <+: t.consumed
  caughtUp : ∀ i, t.isr = .look i → slotVacant (t.evqRing i) → t.consumed = t.written
  doorbell : t.isr = .idle → 0 < t.processed → t.rptrDbl = some t.evqReadPtr
  link : LinkShows s.link (t.seen.drop s.consumed.length) t.link

/-- The invariant of the runs from `s`. -/
structure EventsInv (s t : ControlSys) : Prop extends ControlInv t where
  attached : t.attach = .attached
  up : t.evqInitialized = true ∧ t.dying = false
  kept : s.consumed <+: t.consumed
  doorbell : t.isr = .idle → 0 < t.processed → t.rptrDbl = some t.evqReadPtr
  link : LinkShows s.link (t.seen.drop s.consumed.length) t.link

theorem AttachedInStep.inv (hstart : AttachedInStep s) : EventsInv s s where
  cursor := hstart.cursor
  order := hstart.order
  ring := by
    rw [hstart.idle]
    exact hstart.ring
  inHand := by
    rw [hstart.idle]
    nofun
  loaded := by
    rw [hstart.idle]
    nofun
  attached := hstart.attached
  up := hstart.up
  kept := List.prefix_refl _
  doorbell := by
    intro _ hpos
    rw [hstart.noneYet] at hpos
    exact absurd hpos (Nat.lt_irrefl 0)
  link := by
    have hseen : s.seen.drop s.consumed.length = [] := by
      simp [ControlSys.seen, hstart.idle, IsrPc.inHand]
    rw [hseen]
    exact ⟨fun earlier w later hsplit => by simp at hsplit, fun _ => rfl⟩

/-- The handler looks at an empty slot only when nothing is outstanding. -/
theorem ControlInv.caughtUp (hinv : ControlInv s) {i : Nat} (hpc : s.isr = .look i)
    (hvacant : slotVacant (s.evqRing i)) : s.consumed = s.written := by
  have hi : i = s.consumed.length % 512 := hinv.loaded i (by rw [hpc]; rfl)
  have hring := hinv.ring
  have hcleared : s.isr.cleared = 0 := by
    rw [hpc]
    rfl
  rw [hcleared, Nat.add_zero] at hring
  cases hpending : s.written.drop s.consumed.length with
  | nil =>
    have hlen : s.written.length ≤ s.consumed.length := List.drop_eq_nil_iff.mp hpending
    rw [hinv.order, List.take_of_length_le hlen]
  | cons e rest =>
    rw [hpending] at hring
    rw [hi, hring.cell_eq_head] at hvacant
    exact absurd hvacant (hring.occupied e List.mem_cons_self)

theorem EventsInv.exact (hinv : EventsInv s t) : EventsExact s t where
  order := hinv.order
  kept := hinv.kept
  caughtUp := fun _ => hinv.caughtUp
  doorbell := hinv.doorbell
  link := hinv.link

/-- Only the last access of an invocation that consumed something leads back to `idle`, and
it rings the doorbell with the cursor. -/
theorem isrStep_doorbell (hinv : ControlInv s) (hstep : isrStep s = some s')
    (hidle : s'.isr = .idle) (hpos : 0 < s'.processed) : s'.rptrDbl = some s'.evqReadPtr := by
  cases isrAccess_of_isrStep hstep with
  | leave _ _ hnone => exact absurd hpos hnone
  | bump _ hnext =>
    rcases hnext with ⟨-, rfl⟩ | ⟨-, rfl⟩ <;> cases hidle
  | @bell i hpc =>
    have hi : i = s.consumed.length % 512 := hinv.loaded i (by rw [hpc]; rfl)
    show some (i &&& evqRptrMask) = some s.evqReadPtr
    rw [hi, land_evqRptrMask, hinv.cursor]
  | _ => cases hidle

theorem isrStep_frame (hstep : isrStep s = some s') :
    s'.attach = s.attach ∧ s'.evqInitialized = s.evqInitialized ∧ s'.dying = s.dying ∧
      s'.written = s.written := by
  cases isrAccess_of_isrStep hstep <;> exact ⟨rfl, rfl, rfl, rfl⟩

theorem EventsInv.isr (hinv : EventsInv s t) {t' : ControlSys} (hstep : isrStep t = some t') :
    EventsInv s t' := by
  obtain ⟨hattach, hinit, hdying, -⟩ := isrStep_frame hstep
  have hseenLength : s.consumed.length ≤ t.seen.length := by
    rw [ControlSys.seen, List.length_append]
    have := hinv.kept.length_le
    omega
  refine { controlInv_isr hinv.toControlInv hstep with
    attached := hattach.trans hinv.attached
    up := ?_
    kept := hinv.kept.trans (isrStep_consumed hstep)
    doorbell := isrStep_doorbell hinv.toControlInv hstep
    link := ?_ }
  · rw [hinit, hdying]
    exact hinv.up
  · rcases isrStep_seen hstep with ⟨hseen, hlink⟩ | ⟨ev, hseen, hlink⟩
    · rw [hlink, hseen]
      exact hinv.link
    · rw [hlink, hseen, List.drop_append_of_le_length hseenLength]
      exact hinv.link.concat ev

theorem EventsInv.nic (hinv : EventsInv s t) {t' : ControlSys} {ev : BitVec 64}
    (hstep : nicStep t ev = some t') : EventsInv s t' := by
  have hcontrol := controlInv_nic hinv.toControlInv hstep
  unfold nicStep at hstep
  split at hstep
  · cases hstep
    exact
      { hcontrol with
        attached := hinv.attached
        up := hinv.up
        kept := hinv.kept
        doorbell := hinv.doorbell
        link := hinv.link }
  · cases hstep

theorem EventsInv.interrupt (hinv : EventsInv s t) {t' : ControlSys}
    (hstep : interruptStep t = some t') : EventsInv s t' := by
  have hcontrol := controlInv_interrupt hinv.toControlInv hstep
  unfold interruptStep at hstep
  split at hstep
  · next hidle =>
      split at hstep
      · cases hstep
        exact hinv
      · cases hstep
        exact
          { hcontrol with
            attached := hinv.attached
            up := hinv.up
            kept := hinv.kept
            doorbell := nofun
            link := by
              have hlink := hinv.link
              rw [ControlSys.seen, hidle.1] at hlink
              exact hlink }
  · cases hstep

theorem EventsInv.step (hinv : EventsInv s t) {t' : ControlSys} {a : ControlLabel}
    (hstep : controlStep t a = some t') : EventsInv s t' := by
  cases a with
  | nic ev => exact hinv.nic hstep
  | interrupt => exact hinv.interrupt hstep
  | isr => exact hinv.isr hstep
  | attach ok =>
    have hrefused : attachStep t ok = none := by
      unfold attachStep
      rw [hinv.attached]
    exact absurd hstep (by simp [controlStep, hrefused])

end Steps

/-! ## An invocation that is left alone -/

/-- The handler, started now, with nothing else happening, consumes all that was written. -/
def Drains (t : ControlSys) : Prop :=
  ∃ n t', exec controlStep t (.interrupt :: List.replicate n .isr) = some t' ∧
    t'.isr = .idle ∧ t'.written = t.written ∧ t'.consumed = t.written

section Drain

variable {t : ControlSys}

theorem bell_run (hpc : t.isr = .bellLoad) :
    exec controlStep t (List.replicate 2 .isr) =
      some { t with rptrDbl := some (t.evqReadPtr &&& evqRptrMask), isr := .idle } := by
  simp [List.replicate, exec, controlStep, isrStep, hpc]

/-- Six accesses consume the oldest event. -/
theorem event_run (hinv : ControlInv t) (hpc : t.isr = .load) {e : BitVec 64}
    (he : t.written[t.consumed.length]? = some e) :
    exec controlStep t (List.replicate 6 .isr) =
      some
        { t with
          link := handleEvent e t.link
          evqRing := Function.update t.evqRing t.evqReadPtr 0#64
          evqReadPtr := (t.evqReadPtr + 1) &&& (numEvqEntry - 1)
          consumed := t.consumed ++ [e]
          processed := t.processed + 1
          isr := if numEvqEntry ≤ t.processed + 1 then .bellLoad else .load } := by
  have hring := hinv.ring
  have hcleared : t.isr.cleared = 0 := by
    rw [hpc]
    rfl
  obtain ⟨hlt, hget⟩ := List.getElem?_eq_some_iff.mp he
  rw [hcleared, Nat.add_zero, List.drop_eq_getElem_cons hlt, hget] at hring
  have hcell : t.evqRing t.evqReadPtr = e := by
    rw [hinv.cursor]
    exact hring.cell_eq_head
  have hfull : ¬ slotVacant e := hring.occupied e List.mem_cons_self
  simp [List.replicate, exec, controlStep, isrStep, hpc, hcell, hfull]

/-- From the head of the loop the handler ends with everything consumed, if the events
still fit under its limit.  The induction is on the number of outstanding events. -/
theorem loop_drains {s : ControlSys} (k : Nat) : ∀ t, EventsInv s t → t.isr = .load →
    t.written.length = t.consumed.length + k → t.processed + k ≤ numEvqEntry →
    ∃ n t', exec controlStep t (List.replicate n .isr) = some t' ∧
      t'.isr = .idle ∧ t'.written = t.written ∧ t'.consumed = t.written := by
  induction k with
  | zero =>
    intro t hinv hpc hlen _
    have hall : t.consumed = t.written := by
      rw [hinv.order, List.take_of_length_le (by omega)]
    have hvacant : slotVacant (t.evqRing t.evqReadPtr) := by
      have hring := hinv.ring
      rw [hpc, List.drop_eq_nil_of_le (by omega)] at hring
      rw [hinv.cursor]
      exact hring.vacant_of_nil (by decide)
    have hlook : exec controlStep t (List.replicate 2 .isr) =
        some { t with isr := if 0 < t.processed then .bellLoad else .idle } := by
      simp [List.replicate, exec, controlStep, isrStep, hpc, hvacant]
    by_cases hprocessed : 0 < t.processed
    · rw [if_pos hprocessed] at hlook
      exact ⟨4, _, exec_append hlook (bell_run rfl), rfl, rfl, hall⟩
    · rw [if_neg hprocessed] at hlook
      exact ⟨2, _, hlook, rfl, rfl, hall⟩
  | succ k ih =>
    intro t hinv hpc hlen hlimit
    have hlt : t.consumed.length < t.written.length := by omega
    have hevent := event_run hinv.toControlInv hpc (List.getElem?_eq_getElem hlt)
    have hinv' := exec_invariant (fun _ _ _ hinv hstep => EventsInv.step hinv hstep) hinv hevent
    by_cases hfull : numEvqEntry ≤ t.processed + 1
    · -- the limit is reached with the last event
      rw [if_pos hfull] at hevent hinv'
      refine ⟨8, _, exec_append hevent (bell_run rfl), rfl, rfl, ?_⟩
      have horder : t.consumed ++ [t.written[t.consumed.length]] =
          t.written.take (t.consumed ++ [t.written[t.consumed.length]]).length := hinv'.order
      rw [List.take_of_length_le (by simp; omega)] at horder
      exact horder
    · rw [if_neg hfull] at hevent hinv'
      obtain ⟨n, t', hrun, hidle, hwritten, hconsumed⟩ :=
        ih _ hinv' rfl (by simp; omega) (by simp; omega)
      refine ⟨6 + n, t', ?_, hidle, hwritten, hconsumed⟩
      rw [List.replicate_add]
      exact exec_append hevent hrun

theorem control_drains {s : ControlSys} (hinv : EventsInv s t) (hidle : t.isr = .idle) :
    Drains t := by
  obtain ⟨hinit, hdying⟩ := hinv.up
  have hfire : controlStep t .interrupt = some { t with isr := .load, processed := 0 } := by
    simp [controlStep, interruptStep, hidle, hinit, hdying, hinv.attached]
  have hpending : (t.written.drop t.consumed.length).length ≤ numEvqEntry := by
    have hring := hinv.ring
    rw [hidle] at hring
    exact hring.fits
  have hle := hinv.consumed_le
  rw [List.length_drop] at hpending
  obtain ⟨n, t', hrun, hrest⟩ := loop_drains (t.written.length - t.consumed.length) _
    (hinv.step hfire) rfl (by simp; omega) (by simp; omega)
  refine ⟨n, t', ?_, hrest⟩
  rw [exec_cons_of_some hfire]
  exact hrun

end Drain

/-! ## The bound on one invocation -/

/-- One access of the handler, with any contents of the ring. -/
def handlerStep (t : ControlSys) (ring : Nat → BitVec 64) : Option ControlSys :=
  isrStep { t with evqRing := ring }

/-- The accesses behind the handler when it stands at `pc` after `processed` events are at
most this many. -/
def IsrPc.reached (processed : Nat) : IsrPc → Nat
  | .load => 6 * processed
  | .look _ => 6 * processed + 1
  | .clearLoad _ => 6 * processed + 2
  | .clear _ _ => 6 * processed + 3
  | .bumpLoad _ => 6 * processed + 4
  | .bump _ _ => 6 * processed + 5
  | .bellLoad => 6 * processed + 2
  | .bell _ => 6 * processed + 3
  | .idle => 6 * processed + 4

/-- The handler is in its loop. -/
def IsrPc.looping : IsrPc → Bool
  | .idle | .bellLoad | .bell _ => false
  | _ => true

/-- One more event is possible as long as the loop goes on. -/
structure WithinLimit (t : ControlSys) : Prop where
  processed : t.processed ≤ numEvqEntry
  looping : t.isr.looping = true → t.processed < numEvqEntry

section Bound

variable {t t' : ControlSys} {ring : Nat → BitVec 64}

theorem handlerStep_within (hlimit : WithinLimit t) (hstep : handlerStep t ring = some t') :
    WithinLimit t' ∧ t.isr.reached t.processed < t'.isr.reached t'.processed := by
  obtain ⟨hprocessed, hlooping⟩ := hlimit
  cases isrAccess_of_isrStep hstep with
  | load hpc | event hpc | clearLoad hpc | clear hpc | bumpLoad hpc =>
    change t.isr = _ at hpc
    rw [hpc] at hlooping ⊢
    exact ⟨⟨hprocessed, fun _ => hlooping rfl⟩, by simp only [IsrPc.reached]; omega⟩
  | bump hpc hnext =>
    change t.isr = _ at hpc
    rw [hpc] at hlooping ⊢
    have hlt := hlooping rfl
    rcases hnext with ⟨-, rfl⟩ | ⟨hmore, rfl⟩
    · exact ⟨⟨hlt, nofun⟩, by simp only [IsrPc.reached]; omega⟩
    · exact ⟨⟨hlt, fun _ => hmore⟩, by simp only [IsrPc.reached]; omega⟩
  | leave hpc | drained hpc | bellLoad hpc | bell hpc =>
    change t.isr = _ at hpc
    rw [hpc]
    exact ⟨⟨hprocessed, nofun⟩, by simp only [IsrPc.reached]; omega⟩

/-- Each access moves the handler on, so that the accesses of an invocation are bounded. -/
theorem handler_run_bound (rings : List (Nat → BitVec 64)) : ∀ t t', WithinLimit t →
    exec handlerStep t rings = some t' →
    WithinLimit t' ∧ t.isr.reached t.processed + rings.length ≤ t'.isr.reached t'.processed := by
  induction rings with
  | nil =>
    intro t t' hlimit hrun
    cases hrun
    exact ⟨hlimit, Nat.le_refl _⟩
  | cons ring rings ih =>
    intro t t' hlimit hrun
    obtain ⟨u, hstep, hrest⟩ := exec_cons_eq_some hrun
    obtain ⟨hu, hlt⟩ := handlerStep_within hlimit hstep
    obtain ⟨hlimit', hle⟩ := ih u t' hu hrest
    refine ⟨hlimit', ?_⟩
    rw [List.length_cons]
    omega

theorem IsrPc.reached_le (pc : IsrPc) {processed : Nat} (hle : processed ≤ numEvqEntry) :
    pc.reached processed ≤ 6 * numEvqEntry + 5 := by
  cases pc <;> simp only [IsrPc.reached] <;> omega

end Bound

/-- **The control queue.**  From a completed attach with the cursor in step, any
interleaving of card events with invocations of the handler consumes every event once and
in order, rings the doorbell with the cursor, and leaves the link fields as the last
consumed link change has them; an invocation handles at most 512 events, and makes at most
3077 accesses, whatever is in the ring. -/
theorem control_events_exact {s : ControlSys} (hstart : AttachedInStep s) :
    (∀ run t, exec controlStep s run = some t →
      EventsExact s t ∧ (t.isr = .idle → Drains t)) ∧
    ∀ (t t' : ControlSys) (rings : List (Nat → BitVec 64)), t.isr = .load → t.processed = 0 →
      exec handlerStep t rings = some t' →
      t'.processed ≤ numEvqEntry ∧ rings.length ≤ 6 * numEvqEntry + 5 := by
  constructor
  · intro run t hrun
    have hinv : EventsInv s t :=
      exec_invariant (fun _ _ _ hinv hstep => EventsInv.step hinv hstep) hstart.inv hrun
    exact ⟨hinv.exact, control_drains hinv⟩
  · intro t t' rings hpc hnone hrun
    have hlimit : WithinLimit t := by
      refine ⟨?_, fun _ => ?_⟩
      · rw [hnone]
        exact Nat.zero_le _
      · rw [hnone]
        decide
    obtain ⟨hlimit', hle⟩ := handler_run_bound rings t t' hlimit hrun
    have hmax := IsrPc.reached_le t'.isr hlimit'.processed
    exact ⟨hlimit'.processed, by omega⟩

/-- Attached, the link up, the cursor and the card at slot 511, every slot vacant. -/
def attachedAt511 : ControlSys :=
  { controlStart ⟨true, true, 10000, 0⟩ with
    evqReadPtr := 511
    evqInitialized := true
    dataEvqInitialized := true
    attach := .attached
    live := true
    written := List.replicate 511 1#64
    consumed := List.replicate 511 1#64 }

/-- A link change, up at 40 Gbit/s; a driver event; a link change, down. -/
def linkGoesDown : List (BitVec 64) :=
  [0xc000400003040000#64, 0x5000000000000001#64, 0xc000400000320000#64]

/-- These events across the end of the ring, and one invocation. -/
def threeEvents : List ControlLabel :=
  linkGoesDown.map .nic ++ .interrupt :: List.replicate 22 .isr

theorem control_events_exact_wrap :
    ∃ t, exec controlStep attachedAt511 threeEvents = some t ∧ EventsExact attachedAt511 t ∧
      t.isr = .idle ∧ t.evqReadPtr = 2 ∧ ReportsLink 0xc000400000320000#64 t.link ∧
      t.link = ⟨false, false, 1000, 3⟩ := by
  have hstart : AttachedInStep attachedAt511 :=
    .of_vacant rfl ⟨rfl, rfl⟩ rfl rfl rfl (by decide +kernel)
      (fun _ _ => Or.inl rfl)
  have hresult : (exec controlStep attachedAt511 threeEvents).map
      (fun t => (t.isr, t.evqReadPtr, t.seen.drop 511)) = some (.idle, 2, linkGoesDown) := by
    decide +kernel
  obtain ⟨t, hrun, hfields⟩ := Option.map_eq_some_iff.mp hresult
  obtain ⟨hidle, hptr, hseen⟩ : t.isr = .idle ∧ t.evqReadPtr = 2 ∧
      t.seen.drop 511 = linkGoesDown := by simpa using hfields
  have hexact := ((control_events_exact hstart).1 _ t hrun).1
  -- the fields come from the bits of the last event, through the theorem
  have hlink : ReportsLink 0xc000400000320000#64 t.link := by
    refine hexact.link.last (linkGoesDown.take 2) _ [] ?_ ⟨rfl, rfl⟩ (by simp)
    rw [show attachedAt511.consumed.length = 511 from List.length_replicate, hseen]
    rfl
  refine ⟨t, hrun, hexact, hidle, hptr, hlink, ?_⟩
  obtain ⟨hup, hduplex, hspeed, hfcntl⟩ := hlink
  cases hl : t.link with
  | mk up duplex speed fcntl =>
    rw [hl] at hup hduplex hspeed hfcntl
    subst hup hduplex hspeed hfcntl
    rfl

end Kernel
end SfcCapio
