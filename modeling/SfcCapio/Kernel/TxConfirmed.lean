import SfcCapio.Kernel.TxRuns

/-!
# What a successful transmit ioctl has been told

The handler compares the low 16 bits of the free-running index in a completion event,
reduced to the ring, with the slot it has posted.  Completions of earlier calls that
timed out may still be queued, and the index passes both the ring size and `2 ^ 16`.

The events in the queue report strictly increasing counts, all beyond the last one read
and none beyond the descriptors posted.  If these are at most 512, their residues modulo
512 are distinct, so the only one that matches the call's slot reports its own
descriptor.
-/

namespace SfcCapio
namespace Kernel

open Hardware Foundation

/-! ## The completions in the queue -/

/-- The word of the event says what it reports. -/
def CardEvent.Told (e : CardEvent) : Prop :=
  match e.upto with
  | some upto => evCode e.word = 2 ∧ evTxDescIdx e.word = (upto - 1) % 2 ^ 16
  | none => evCode e.word ≠ 2

/-- The counts reported by the events in the queue. -/
def TxRunSys.reports (s : TxRunSys) : List Nat := s.pending.filterMap CardEvent.upto

/-- The event ring represents the queue, and the counts of its completions increase. -/
structure TxEvents (s : TxRunSys) : Prop where
  evqWptr : s.evqWptr = (s.sc.dataEvqReadPtr + s.pending.length) % 512
  events : EvqHolds s.sc.dev.evqRing s.sc.dataEvqReadPtr (s.pending.map CardEvent.word)
  told : ∀ e ∈ s.pending, e.Told
  increasing : (s.consumed :: s.reports).Pairwise (· < ·)
  upToReported : ∀ upto ∈ s.consumed :: s.reports, upto ≤ s.reported
  reportedLe : s.reported ≤ s.completed

theorem txEvents_start {s : TxRunSys} (hstart : TxRunStart s) : TxEvents s := by
  have hreports : s.reports = [] := by simp [TxRunSys.reports, hstart.nonePending]
  refine ⟨?_, ?_, ?_, ?_, ?_, ?_⟩
  · rw [hstart.nonePending, hstart.evqWptr, List.length_nil, Nat.add_zero,
      Nat.mod_eq_of_lt hstart.readPtrLt]
  · rw [hstart.nonePending]
    exact EvqHolds.empty hstart.vacant hstart.readPtrLt
  · rw [hstart.nonePending]
    intro e he
    cases he
  · rw [hreports]
    exact List.pairwise_singleton ..
  · rw [hreports, hstart.noneConsumed]
    intro upto hupto
    rw [List.mem_singleton.mp hupto]
    exact Nat.zero_le _
  · rw [hstart.noneReported]
    exact Nat.zero_le _

namespace TxEvents

variable {s : TxRunSys}

theorem queue {e : CardEvent} {reported : Nat} (hev : TxEvents s) (hroom : s.pending.length < 512)
    (hvisible : ¬ slotVacant e.word) (htold : e.Told) (hle : s.reported ≤ reported)
    (hdone : reported ≤ s.completed)
    (hnew : ∀ upto ∈ e.upto, s.reported < upto ∧ upto ≤ reported) :
    TxEvents { s.queued e with reported := reported } := by
  have hreports : TxRunSys.reports { s.queued e with reported := reported } =
      s.reports ++ e.upto.toList := by
    show (s.pending ++ [e]).filterMap CardEvent.upto = _
    rw [List.filterMap_append]
    cases hupto : e.upto <;> simp [TxRunSys.reports, hupto]
  have hmap : (s.pending.map CardEvent.word).length = s.pending.length := List.length_map _
  have hwptr := hev.evqWptr
  rw [← hmap] at hwptr
  obtain ⟨hevents, hcursor⟩ := hev.events.write_at hwptr (by omega) hvisible
  refine ⟨?_, ?_, ?_, ?_, ?_, hdone⟩
  · show (s.evqWptr + 1) % 512 = (s.sc.dataEvqReadPtr + (s.pending ++ [e]).length) % 512
    rw [hcursor, List.length_append, List.length_append, hmap]
    rfl
  · show EvqHolds (Function.update s.sc.dev.evqRing s.evqWptr e.word) s.sc.dataEvqReadPtr
      ((s.pending ++ [e]).map CardEvent.word)
    rw [List.map_append, List.map_singleton]
    exact hevents
  · intro e' he'
    rcases List.mem_append.mp he' with hold | hlast
    · exact hev.told e' hold
    · rw [List.mem_singleton.mp hlast]
      exact htold
  · rw [hreports]
    show (s.consumed :: s.reports ++ e.upto.toList).Pairwise (· < ·)
    refine List.pairwise_append.mpr ⟨hev.increasing, ?_, ?_⟩
    · cases e.upto <;> simp
    · intro a ha b hb
      exact Nat.lt_of_le_of_lt (hev.upToReported a ha) (hnew b (Option.mem_toList.mp hb)).1
  · rw [hreports]
    show ∀ upto ∈ s.consumed :: s.reports ++ e.upto.toList, upto ≤ reported
    intro upto hupto
    rcases List.mem_append.mp hupto with hold | hlast
    · exact Nat.le_trans (hev.upToReported upto hold) hle
    · exact (hnew upto (Option.mem_toList.mp hlast)).2

theorem take {ev : BitVec 64} {evq : Nat → BitVec 64} {readPtr : Nat} (hev : TxEvents s)
    (htake : evqTake s.sc.dev.evqRing s.sc.dataEvqReadPtr = some (ev, evq, readPtr))
    (call : Option TxPc) :
    ∃ e rest, s.pending = e :: rest ∧ e.word = ev ∧ s.consumed ≤ s.dequeued.consumed ∧
      TxEvents
        { s.dequeued with
          sc := { s.sc with dev := { s.sc.dev with evqRing := evq }, dataEvqReadPtr := readPtr }
          call := call } := by
  obtain ⟨words, hwords, hptr, hholds⟩ := hev.events.of_take htake
  have hwptr := hev.evqWptr
  have hinc := hev.increasing
  have hle := hev.upToReported
  cases hpending : s.pending with
  | nil =>
    rw [hpending] at hwords
    cases hwords
  | cons e rest =>
    rw [hpending, List.map_cons] at hwords
    obtain ⟨hword, hrest⟩ := List.cons.inj hwords
    rw [hpending, List.length_cons] at hwptr
    have hdequeued : s.dequeued =
        { s with pending := rest, consumed := e.upto.getD s.consumed } := by
      simp only [TxRunSys.dequeued, hpending]
    rw [hdequeued]
    -- the counts left are those behind the one read, which is the new bound
    have hcounts : (e.upto.getD s.consumed :: rest.filterMap CardEvent.upto).Pairwise (· < ·) ∧
        (∀ upto ∈ e.upto.getD s.consumed :: rest.filterMap CardEvent.upto,
          upto ≤ s.reported) ∧ s.consumed ≤ e.upto.getD s.consumed := by
      rw [TxRunSys.reports, hpending, List.filterMap_cons] at hinc hle
      cases hupto : e.upto with
      | none =>
        simp only [hupto] at hinc hle
        exact ⟨hinc, hle, Nat.le_refl _⟩
      | some upto =>
        simp only [hupto] at hinc hle
        obtain ⟨hfirst, htail⟩ := List.pairwise_cons.mp hinc
        exact ⟨htail, fun u hu => hle u (List.mem_cons_of_mem _ hu),
          Nat.le_of_lt (hfirst upto (List.mem_cons_self ..))⟩
    refine ⟨e, rest, rfl, hword, hcounts.2.2, ?_, ?_, ?_, hcounts.1, hcounts.2.1,
      hev.reportedLe⟩
    · show s.evqWptr = (readPtr + rest.length) % 512
      rw [hwptr, hptr]
      omega
    · show EvqHolds evq readPtr (rest.map CardEvent.word)
      rw [hrest]
      exact hholds
    · intro e' he'
      exact hev.told e' (hpending ▸ List.mem_cons_of_mem e he')

end TxEvents

/-! ## The call in progress -/

/-- The handler rings the doorbell next. -/
def TxRunSys.ringing (s : TxRunSys) : Bool :=
  match s.call with
  | some .ring => true
  | _ => false

/-- When descriptor `n` is posted, at most 512 descriptors, this one included, lie beyond
the last completion that was read. -/
def AtMostALapBeyond (n : Nat) (s : TxRunSys) : TxRunLabel → Prop
  | .cpu _ => s.ringing = true → s.slots.length = n → n + 1 ≤ s.consumed + numTxDesc
  | _ => True

instance (n : Nat) (s : TxRunSys) (l : TxRunLabel) : Decidable (AtMostALapBeyond n s l) :=
  match l with
  | .cpu _ => inferInstanceAs (Decidable (_ → _ → _))
  | .enter _ | .complete _ | .report _ _ | .event _ => inferInstanceAs (Decidable True)

/-- If the call that posted descriptor `n` has returned 0, the card has reported `n` as
finished. -/
def SentReported (n : Nat) (s : TxRunSys) : Prop := n ∈ s.sent → n < s.reported

/-- The descriptor of the call in progress, and what its loop has found if that is `n`. -/
structure TxWaits (n : Nat) (s : TxRunSys) : Prop where
  own : s.rung = 1 → s.own + 1 = s.slots.length
  window : s.rung = 1 → s.own = n → s.slots.length ≤ s.consumed + 512
  postedIdx : ∀ idx tries consumed, s.call = some (.poll idx tries consumed) → idx = s.sc.txHead
  done : ∀ consumed, s.call = some (.ack consumed true) → s.own = n → s.own < s.reported
  sent : SentReported n s

/-- The invariant of the guarded runs. -/
structure TxConfirm (n : Nat) (s : TxRunSys) : Prop where
  ring : TxRing s
  events : TxEvents s
  waits : TxWaits n s

theorem txConfirm_start {n : Nat} {s : TxRunSys} (hstart : TxRunStart s) : TxConfirm n s := by
  have hrung : s.rung = 0 := by simp [TxRunSys.rung, hstart.idle]
  refine ⟨txRing_start hstart, txEvents_start hstart, ?_, ?_, ?_, ?_, ?_⟩
  · intro hone
    omega
  · intro hone
    omega
  · intro idx tries consumed hcall
    rw [hstart.idle] at hcall
    cases hcall
  · intro consumed hcall
    rw [hstart.idle] at hcall
    cases hcall
  · intro hn
    rw [hstart.noneSent] at hn
    cases hn

/-- The residue of a count that the window allows tells which one it is. -/
theorem eq_of_residue {upto posted consumed : Nat} (hlow : consumed < upto)
    (hhigh : upto ≤ posted) (hwindow : posted ≤ consumed + 512)
    (hslot : (upto - 1) % 2 ^ 16 % 512 = (posted - 1) % 512) : upto = posted := by
  omega

/-- A matching completion reports the call's own descriptor. -/
theorem TxConfirm.own_reported {n idx tries consumed : Nat} {s : TxRunSys} {e : CardEvent}
    {rest : List CardEvent} (hinv : TxConfirm n s)
    (hcall : s.call = some (.poll idx tries consumed)) (hn : s.own = n)
    (hpending : s.pending = e :: rest) (hmatch : Completes idx e.word) : s.own < s.reported := by
  have hrung : s.rung = 1 := by simp [TxRunSys.rung, hcall, TxPc.rung]
  have hidx := hinv.waits.postedIdx idx tries consumed hcall
  have htold : e.Told := hinv.events.told e (hpending ▸ List.mem_cons_self ..)
  obtain ⟨hcode, hdesc⟩ := hmatch
  unfold CardEvent.Told at htold
  cases hupto : e.upto with
  | none =>
    rw [hupto] at htold
    exact absurd hcode htold
  | some upto =>
    rw [hupto] at htold
    have hmem : upto ∈ s.reports := by
      rw [TxRunSys.reports, hpending, List.filterMap_cons, hupto]
      exact List.mem_cons_self ..
    have hlow : s.consumed < upto := (List.pairwise_cons.mp hinv.events.increasing).1 upto hmem
    have hreported : upto ≤ s.reported :=
      hinv.events.upToReported upto (List.mem_cons_of_mem _ hmem)
    have hhigh : upto ≤ s.slots.length :=
      Nat.le_trans hreported (Nat.le_trans hinv.events.reportedLe hinv.ring.completedLe)
    have hown := hinv.waits.own hrung
    have hhead := hinv.ring.head
    have hheadLt := hinv.ring.headLt
    rw [htold.2, numTxDesc, land_ringMask, hidx] at hdesc
    rw [hrung] at hhead
    have heq : upto = s.slots.length :=
      eq_of_residue hlow hhigh (hinv.waits.window hrung hn) (by omega)
    omega

/-! ## Steps -/

/-- A state in which no call waits for a completion. -/
theorem TxWaits.of_not_rung {n : Nat} {s : TxRunSys} (hrung : s.rung = 0)
    (hsent : SentReported n s) : TxWaits n s := by
  refine ⟨?_, ?_, ?_, ?_, hsent⟩
  · intro hone
    omega
  · intro hone
    omega
  · intro idx tries consumed hcall
    simp [TxRunSys.rung, hcall, TxPc.rung] at hrung
  · intro consumed hcall
    simp [TxRunSys.rung, hcall, TxPc.rung] at hrung

theorem TxWaits.card {n : Nat} {s s' : TxRunSys} (hwaits : TxWaits n s)
    (hcall : s'.call = s.call) (hhead : s'.sc.txHead = s.sc.txHead) (hslots : s'.slots = s.slots)
    (hown : s'.own = s.own) (hconsumed : s'.consumed = s.consumed) (hsent : s'.sent = s.sent)
    (hreported : s.reported ≤ s'.reported) : TxWaits n s' := by
  have hrung : s'.rung = s.rung := by simp only [TxRunSys.rung, hcall]
  refine ⟨?_, ?_, ?_, ?_, ?_⟩
  · rw [hrung, hown, hslots]
    exact hwaits.own
  · rw [hrung, hown, hslots, hconsumed]
    exact hwaits.window
  · rw [hcall, hhead]
    exact hwaits.postedIdx
  · intro consumed hack hn
    rw [hcall] at hack
    rw [hown] at hn ⊢
    exact Nat.lt_of_lt_of_le (hwaits.done consumed hack hn) hreported
  · intro hn
    rw [hsent] at hn
    exact Nat.lt_of_lt_of_le (hwaits.sent hn) hreported

namespace TxConfirm

variable {n : Nat} {s : TxRunSys}

theorem copyin {copyErr : Nat} {req : TxReq} (hinv : TxConfirm n s)
    (hring : TxRing (s.moved copyErr (.copyin req))) :
    TxConfirm n (s.moved copyErr (.copyin req)) := by
  have hev := hinv.events
  by_cases herr : copyErr = 0
  · subst herr
    exact ⟨hring, ⟨hev.evqWptr, hev.events, hev.told, hev.increasing, hev.upToReported,
      hev.reportedLe⟩, TxWaits.of_not_rung rfl hinv.waits.sent⟩
  · have hout : txIoctlStep s.sc copyErr (.copyin req) = (s.sc, .returned (some copyErr)) :=
      if_pos herr
    have hmoved : s.moved copyErr (.copyin req) = { s.wrote with call := none } := by
      simp only [TxRunSys.moved, hout]
      rfl
    rw [hmoved] at hring ⊢
    exact ⟨hring, ⟨hev.evqWptr, hev.events, hev.told, hev.increasing, hev.upToReported,
      hev.reportedLe⟩, TxWaits.of_not_rung rfl hinv.waits.sent⟩

theorem rings {copyErr : Nat} (hinv : TxConfirm n s) (hring : TxRing (s.moved copyErr .ring))
    (hroom : s.slots.length = n → n + 1 ≤ s.consumed + 512) :
    TxConfirm n (s.moved copyErr .ring) := by
  have hev := hinv.events
  have hlen : (s.slots ++ [s.sc.txHead]).length = s.slots.length + 1 := by simp
  refine ⟨hring, ⟨hev.evqWptr, hev.events, hev.told, hev.increasing, hev.upToReported,
    hev.reportedLe⟩, ?_, ?_, ?_, ?_, hinv.waits.sent⟩
  · intro _
    exact hlen.symm
  · intro _ hn
    show (s.slots ++ [s.sc.txHead]).length ≤ s.consumed + 512
    have hposted : s.slots.length = n := hn
    rw [hlen, hposted]
    exact hroom hposted
  · intro idx tries consumed hcall
    cases hcall
    rfl
  · intro consumed hcall
    cases hcall

theorem poll {copyErr idx tries consumed : Nat} (hinv : TxConfirm n s)
    (hcall : s.call = some (.poll idx tries consumed))
    (hring : TxRing (s.moved copyErr (.poll idx tries consumed))) :
    TxConfirm n (s.moved copyErr (.poll idx tries consumed)) := by
  have hev := hinv.events
  have hrung : s.rung = 1 := by simp [TxRunSys.rung, hcall, TxPc.rung]
  have hidx := hinv.waits.postedIdx idx tries consumed hcall
  have hown := hinv.waits.own hrung
  have hwindow := hinv.waits.window hrung
  rcases txIoctlStep_poll s.sc copyErr idx tries consumed with
    ⟨hover, hout⟩ | ⟨htries, hnone, hout⟩ | ⟨ev, evq, readPtr, htries, htake, hout⟩
  · -- the tries are over
    have hmoved : s.moved copyErr (.poll idx tries consumed) =
        { s with call := some (.ack consumed false) } := by
      simp only [TxRunSys.moved, TxRunSys.recorded, hout, hover, false_and, if_false]
    rw [hmoved] at hring ⊢
    refine ⟨hring, { hev with }, fun _ => hown, fun _ => hwindow, ?_, ?_, hinv.waits.sent⟩
    · intro idx' tries' consumed' hcall'
      cases hcall'
    · intro consumed' hcall'
      cases hcall'
  · -- nothing in the queue
    have hmoved : s.moved copyErr (.poll idx tries consumed) =
        { s with call := some (.poll idx (tries + 1) consumed) } := by
      simp [TxRunSys.moved, TxRunSys.recorded, hout, hnone]
    rw [hmoved] at hring ⊢
    refine ⟨hring, { hev with }, fun _ => hown, fun _ => hwindow, ?_, ?_, hinv.waits.sent⟩
    · intro idx' tries' consumed' hcall'
      cases hcall'
      exact hidx
    · intro consumed' hcall'
      cases hcall'
  · -- an event is read
    obtain ⟨e, rest, hpending, hword, hmono, hevents⟩ := hev.take htake
      (some (if Completes idx ev then .ack (consumed + 1) true
        else .poll idx (tries + 1) (consumed + 1)))
    have hmoved : s.moved copyErr (.poll idx tries consumed) =
        { s.dequeued with
          sc := { s.sc with dev := { s.sc.dev with evqRing := evq }, dataEvqReadPtr := readPtr }
          call := some (if Completes idx ev then .ack (consumed + 1) true
            else .poll idx (tries + 1) (consumed + 1))
          sent := s.sent } := by
      simp only [TxRunSys.moved, TxRunSys.recorded, hout, htries, htake, Option.isSome_some,
        and_self, if_true]
    have hdequeued : s.dequeued.own = s.own ∧ s.dequeued.slots = s.slots ∧
        s.dequeued.reported = s.reported := by
      simp only [TxRunSys.dequeued, hpending, and_self]
    obtain ⟨hownEq, hslotsEq, hreportedEq⟩ := hdequeued
    rw [hmoved] at hring ⊢
    refine ⟨hring, { hevents with }, ?_, ?_, ?_, ?_, ?_⟩
    · intro _
      show s.dequeued.own + 1 = s.dequeued.slots.length
      rw [hownEq, hslotsEq]
      exact hown
    · intro _ hn
      show s.dequeued.slots.length ≤ s.dequeued.consumed + 512
      have hbefore := hwindow (hownEq.symm.trans hn)
      rw [hslotsEq]
      omega
    · intro idx' tries' consumed' hcall'
      simp only [Option.some.injEq] at hcall'
      split at hcall'
      · cases hcall'
      · cases hcall'
        exact hidx
    · intro consumed' hcall'
      simp only [Option.some.injEq] at hcall'
      split at hcall'
      · rename_i hmatch
        intro hn
        show s.dequeued.own < s.dequeued.reported
        rw [hownEq, hreportedEq]
        exact hinv.own_reported hcall (hownEq.symm.trans hn) hpending (hword ▸ hmatch)
      · cases hcall'
    · show n ∈ s.sent → n < s.dequeued.reported
      rw [hreportedEq]
      exact hinv.waits.sent

/-- The call returns; 0 only if its loop has found the completion. -/
theorem ack {copyErr consumed : Nat} {txDone : Bool} (hinv : TxConfirm n s)
    (hcall : s.call = some (.ack consumed txDone))
    (hring : TxRing (s.moved copyErr (.ack consumed txDone))) :
    TxConfirm n (s.moved copyErr (.ack consumed txDone)) := by
  have hev := hinv.events
  cases txDone with
  | false =>
    exact ⟨hring, ⟨hev.evqWptr, hev.events, hev.told, hev.increasing, hev.upToReported,
      hev.reportedLe⟩, TxWaits.of_not_rung rfl hinv.waits.sent⟩
  | true =>
    refine ⟨hring, ⟨hev.evqWptr, hev.events, hev.told, hev.increasing, hev.upToReported,
      hev.reportedLe⟩, TxWaits.of_not_rung rfl ?_⟩
    intro hn
    rcases List.mem_append.mp hn with hold | hnew
    · exact hinv.waits.sent hold
    · have hown : n = s.own := List.mem_singleton.mp hnew
      rw [hown]
      exact hinv.waits.done consumed hcall hown.symm

end TxConfirm

theorem txConfirm_step (n : Nat) (s : TxRunSys) (l : TxRunLabel) (s' : TxRunSys)
    (hinv : TxConfirm n s) (hguard : AtMostALapBeyond n s l) (hstep : txRunStep s l = some s') :
    TxConfirm n s' := by
  have hring := txRing_step s l s' hinv.ring hstep
  have hev := hinv.events
  cases l with
  | enter req =>
    simp only [txRunStep] at hstep
    split at hstep
    · obtain rfl := Option.some.inj hstep
      exact hinv
    · split at hstep
      · cases hstep
      · obtain rfl := Option.some.inj hstep
        exact ⟨hring, { hev with }, TxWaits.of_not_rung rfl hinv.waits.sent⟩
  | cpu copyErr =>
    obtain ⟨pc, hcall, rfl⟩ := Option.map_eq_some_iff.mp hstep
    cases pc with
    | copyin req => exact hinv.copyin hring
    | desc length =>
      exact ⟨hring, ⟨hev.evqWptr, hev.events, hev.told, hev.increasing, hev.upToReported,
        hev.reportedLe⟩, TxWaits.of_not_rung rfl hinv.waits.sent⟩
    | ring => exact hinv.rings hring (hguard (by rw [TxRunSys.ringing, hcall]))
    | poll idx tries consumed => exact hinv.poll hcall hring
    | ack consumed txDone => exact hinv.ack hcall hring
  | complete upto =>
    simp only [txRunStep] at hstep
    split at hstep
    · rename_i hdone
      obtain rfl := Option.some.inj hstep
      exact ⟨hring, { hev with reportedLe := Nat.le_trans hev.reportedLe hdone.1 },
        hinv.waits.card rfl rfl rfl rfl rfl rfl (Nat.le_refl _)⟩
    · cases hstep
  | report upto w =>
    simp only [txRunStep] at hstep
    split at hstep
    · rename_i hreport
      obtain ⟨hnew, hdone, hcode, hidx, hroom⟩ := hreport
      obtain rfl := Option.some.inj hstep
      refine ⟨hring, ?_, hinv.waits.card rfl rfl rfl rfl rfl rfl (Nat.le_of_lt hnew)⟩
      refine hev.queue hroom (not_slotVacant_of_tx hcode) ⟨hcode, hidx⟩ (Nat.le_of_lt hnew)
        hdone ?_
      intro upto' hupto
      cases hupto
      exact ⟨hnew, Nat.le_refl _⟩
    · cases hstep
  | event w =>
    simp only [txRunStep] at hstep
    split at hstep
    · rename_i hother
      obtain ⟨hcode, hvisible, hroom⟩ := hother
      obtain rfl := Option.some.inj hstep
      refine ⟨hring, ?_, hinv.waits.card rfl rfl rfl rfl rfl rfl (Nat.le_refl _)⟩
      refine hev.queue hroom hvisible hcode (Nat.le_refl _) hev.reportedLe ?_
      intro upto' hupto
      cases hupto
    · cases hstep

/-- Over every run of transmit calls since attach, of any length: if descriptor `n` is
posted while at most 512 descriptors, itself included, lie beyond the last completion
read, the call that posts it returns 0 only once the card has reported `n`.  The other
calls of the run may post theirs as they like. -/
theorem tx_success_reported {n : Nat} {s : TxRunSys} {labels : List TxRunLabel}
    (hstart : TxRunStart s) (hwindow : Obeys txRunStep (AtMostALapBeyond n) s labels) :
    Along txRunStep (SentReported n) s labels :=
  along_of_obeys (txConfirm_step n) (fun _ hinv => hinv.waits.sent) (txConfirm_start hstart)
    hwindow

/-- A call reads a stray event, then its completion; a second call reads its own. -/
def strayThenCompletion : List TxRunLabel :=
  sendPacket ++ [.event 0x4e#64, .complete 1, .report 1 0x2000000000000000#64,
    .cpu 0, .cpu 0, .cpu 0] ++ sendPacket ++
    [.complete 2, .report 2 0x2000000000000001#64, .cpu 0, .cpu 0]

theorem tx_success_reported_two_sends :
    ∃ t, exec txRunStep txRunAfterAttach strayThenCompletion = some t ∧ t.sent = [0, 1] ∧
      t.reported = 2 ∧ Along txRunStep (SentReported 1) txRunAfterAttach strayThenCompletion :=
  ⟨_, rfl, rfl, rfl, tx_success_reported txRunStart_afterAttach (by decide +kernel)⟩

end Kernel
end SfcCapio
