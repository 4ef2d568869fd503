import SfcCapio.Foundation.Runs
import SfcCapio.Userlib.Interface

/-!
# Exactness of the event queue

`sfc7120_poll` shares the event ring with the card and no pointers: a pending
event is recognised by the contents of its slot, slots are zeroed one by one,
and one doorbell write at the end of the call acknowledges them all.  The card
may write between any two reads of the loop.

`pollStep` is the interleaving of the card's writes with the iterations of the
loop; a whole call is `begin`, some `iter`s and `finish`.  The invariant
`PollInv` says that the ring represents, as a marked ring, the events written
and not yet consumed.  From it follows `poll_exact`: nothing is lost, repeated
or reordered, whatever the batch sizes and wherever the writes fall.

The same representation gives `poll_of_holds`, the specification of one
uninterrupted call that the receive paths above the library use, and
`exec_uninterrupted_call` says that such a call is a run of the step function.
-/

namespace SfcCapio
namespace Userlib

open Hardware Foundation

/-! ## Decoding -/

/-- The event layout as the library's header documents it, field by field. -/
def DecodesTo (w : BitVec 64) (ev : Ev) : Prop :=
  ev.raw = w ∧
    if w.extractLsb' 60 4 = 0#4 then
      ev.type = .rx ∧ ev.rxBytes = (w.extractLsb' 0 14).toNat ∧ ev.txDescIdx = 0
    else if w.extractLsb' 60 4 = 2#4 then
      ev.type = .tx ∧ ev.txDescIdx = (w.extractLsb' 0 16).toNat ∧ ev.rxBytes = 0
    else ev.type = .other ∧ ev.txDescIdx = 0 ∧ ev.rxBytes = 0

theorem evCode_eq (w : BitVec 64) : evCode w = (w.extractLsb' 60 4).toNat :=
  toNat_shift_mask w 60 rfl

theorem evRxBytes_eq (w : BitVec 64) : evRxBytes w = (w.extractLsb' 0 14).toNat := by
  rw [evRxBytes, BitVec.toNat_and, BitVec.extractLsb'_toNat, Nat.shiftRight_zero]
  exact Nat.and_two_pow_sub_one_eq_mod _ 14

theorem evTxDescIdx_eq (w : BitVec 64) :
    evTxDescIdx w = (w.extractLsb' 0 16).toNat := by
  rw [evTxDescIdx, BitVec.toNat_and, BitVec.extractLsb'_toNat, Nat.shiftRight_zero]
  exact Nat.and_two_pow_sub_one_eq_mod _ 16

/-- The shift-and-mask chain of the source reads the documented fields. -/
theorem decodesTo_decodeEvent (w : BitVec 64) : DecodesTo w (decodeEvent w) := by
  have hcode : ∀ c : BitVec 4, evCode w = c.toNat ↔ w.extractLsb' 60 4 = c := by
    intro c
    rw [evCode_eq]
    exact BitVec.toNat_inj
  refine ⟨decodeEvent_raw w, ?_⟩
  by_cases hrx : w.extractLsb' 60 4 = 0#4
  · have hzero : evCode w = 0 := (hcode 0#4).mpr hrx
    simp [decodeEvent, hrx, hzero, evRxBytes_eq]
  · have hnonzero : evCode w ≠ 0 := fun h => hrx ((hcode 0#4).mp h)
    by_cases htx : w.extractLsb' 60 4 = 2#4
    · have htwo : evCode w = 2 := (hcode 2#4).mpr htx
      simp [decodeEvent, htx, htwo, evTxDescIdx_eq]
    · have hnottwo : evCode w ≠ 2 := fun h => htx ((hcode 2#4).mp h)
      simp [decodeEvent, hrx, htx, hnonzero, hnottwo]

/-! ## One uninterrupted call -/

variable {pending : List (BitVec 64)} {s : Session}

/-- The loop returns the oldest pending events and leaves the others. -/
theorem pollLoop_spec (left : Nat) {evq : Nat → BitVec 64} {readPtr : Nat}
    (hholds : EvqHolds evq readPtr pending) :
    (pollLoop left evq readPtr).1 = (pending.take left).map decodeEvent ∧
      (pollLoop left evq readPtr).2.2 = (readPtr + min left pending.length) % 512 ∧
      EvqHolds (pollLoop left evq readPtr).2.1 (pollLoop left evq readPtr).2.2
        (pending.drop left) := by
  induction left generalizing evq readPtr pending with
  | zero =>
    refine ⟨by simp [pollLoop], ?_, by simpa [pollLoop] using hholds⟩
    simp [pollLoop, Nat.mod_eq_of_lt hholds.readPtrLt]
  | succ left ih =>
    cases pending with
    | nil =>
      have hnone : pollIter evq readPtr = none := by
        rw [pollIter, hholds.take_nil, Option.map_none]
      refine ⟨by simp [pollLoop, hnone], ?_, by simpa [pollLoop, hnone] using hholds⟩
      simp [pollLoop, hnone, Nat.mod_eq_of_lt hholds.readPtrLt]
    | cons w rest =>
      have hsome : pollIter evq readPtr =
          some (decodeEvent w, Function.update evq readPtr 0#64,
            (readPtr + 1) % 512) := by
        rw [pollIter, hholds.take_cons, Option.map_some]
      obtain ⟨hevs, hcursor, hrest⟩ := ih hholds.consume
      refine ⟨by simp [pollLoop, hsome, hevs], ?_, by simpa [pollLoop, hsome] using hrest⟩
      simp only [pollLoop, hsome, hcursor, List.length_cons]
      omega

/-- Past its argument checks, `sfc7120_poll` is the loop and the doorbell. -/
theorem poll_of_ready {maxEvs : Nat} (hready : s.sfc.Ready) (hmax : 0 < maxEvs) :
    poll s maxEvs =
      (some (pollLoop maxEvs s.dev.evqRing s.sfc.evqReadPtr).1,
        { sfc :=
            { s.sfc with
              usedPoll := true
              evqReadPtr := (pollLoop maxEvs s.dev.evqRing s.sfc.evqReadPtr).2.2 }
          dev :=
            { s.dev with
              evqRing := (pollLoop maxEvs s.dev.evqRing s.sfc.evqReadPtr).2.1
              evqRptrDbl :=
                if (pollLoop maxEvs s.dev.evqRing s.sfc.evqReadPtr).1.length > 0 then
                  (pollLoop maxEvs s.dev.evqRing s.sfc.evqReadPtr).2.2 &&& evqRptrMask
                else s.dev.evqRptrDbl } }) := by
  have hpos : ¬ ((maxEvs : Int) ≤ 0) := by omega
  have hmapped : (!s.sfc.evqRing || !s.sfc.mmioSlices ||
      decide (s.sfc.mmioSlicesLen ≤ sliceDataEvqRptrDbl)) = false := by
    rw [hready.evqRing, hready.mmioSlices, hready.mmioSlicesLen]
    decide
  simp only [poll, if_neg hpos, hmapped, Int.toNat_natCast]
  rfl

/-- One uninterrupted call of `sfc7120_poll` on a ring that represents
`pending`: it returns the oldest `maxEvs` events, decoded and in order, and
touches nothing but the event ring, its cursor and its doorbell. -/
theorem poll_of_holds {maxEvs : Nat} (hready : s.sfc.Ready) (hmax : 0 < maxEvs)
    (hholds : EvqHolds s.dev.evqRing s.sfc.evqReadPtr pending) :
    ∃ evq readPtr dbl,
      poll s maxEvs =
        (some ((pending.take maxEvs).map decodeEvent),
          { sfc := { s.sfc with usedPoll := true, evqReadPtr := readPtr }
            dev := { s.dev with evqRing := evq, evqRptrDbl := dbl } }) ∧
      readPtr = (s.sfc.evqReadPtr + min maxEvs pending.length) % 512 ∧
      EvqHolds evq readPtr (pending.drop maxEvs) := by
  obtain ⟨hevs, hcursor, hrest⟩ := pollLoop_spec maxEvs hholds
  rw [poll_of_ready hready hmax, hevs]
  exact ⟨_, _, _, rfl, hcursor, hrest⟩

/-- The queue between the card and the library: the words the card has written,
up to its cursor, and the library has not yet taken. -/
structure EvqPending (s : Session) (evqWptr : Nat) (pending : List (BitVec 64)) : Prop where
  ready : s.sfc.Ready
  evqWptr : evqWptr = (s.sfc.evqReadPtr + pending.length) % 512
  holds : EvqHolds s.dev.evqRing s.sfc.evqReadPtr pending

theorem EvqPending.write {evqWptr : Nat} (hev : EvqPending s evqWptr pending) {w : BitVec 64}
    (hw : ¬ slotVacant w) (hroom : pending.length < 512) :
    EvqPending
      { s with dev := { s.dev with evqRing := Function.update s.dev.evqRing evqWptr w } }
      ((evqWptr + 1) % 512) (pending ++ [w]) := by
  obtain ⟨hholds, hcursor⟩ := hev.holds.write_at hev.evqWptr hroom hw
  exact ⟨hev.ready, hcursor, hholds⟩

/-- A poll takes the oldest events; `poll` changes no more than its cursor, the
event ring and the event doorbell. -/
theorem EvqPending.poll {evqWptr : Nat} (hev : EvqPending s evqWptr pending) (maxEvs : Nat) :
    ∃ taken rest used readPtr evq dbl,
      pending = taken ++ rest ∧
      taken.length = min maxEvs pending.length ∧
      Userlib.poll s maxEvs =
        (if maxEvs = 0 then none else some (taken.map decodeEvent),
          { sfc := { s.sfc with usedPoll := used, evqReadPtr := readPtr }
            dev := { s.dev with evqRing := evq, evqRptrDbl := dbl } }) ∧
      EvqPending
        { sfc := { s.sfc with usedPoll := used, evqReadPtr := readPtr }
          dev := { s.dev with evqRing := evq, evqRptrDbl := dbl } } evqWptr rest := by
  by_cases hmax : maxEvs = 0
  · refine ⟨[], pending, s.sfc.usedPoll, s.sfc.evqReadPtr, s.dev.evqRing, s.dev.evqRptrDbl,
      rfl, by simp [hmax], ?_, hev⟩
    simp [Userlib.poll, hmax]
  · obtain ⟨evq, readPtr, dbl, hpoll, hcursor, hrest⟩ :=
      poll_of_holds hev.ready (Nat.pos_of_ne_zero hmax) hev.holds
    refine ⟨pending.take maxEvs, pending.drop maxEvs, true, readPtr, evq, dbl,
      (List.take_append_drop maxEvs pending).symm, List.length_take, ?_, ?_⟩
    · rw [hpoll, if_neg hmax]
    · refine ⟨{ hev.ready with }, ?_, hrest⟩
      have hwptr := hev.evqWptr
      have hlen : (pending.drop maxEvs).length = pending.length - maxEvs := List.length_drop
      simp only [hcursor, hlen, hwptr]
      omega

/-! ## Interleaving the loop with the card -/

/-- A call in progress: the bound it was given, the records it has filled and,
once the loop has ended, the number of events that stood unread in the ring at
that moment. -/
structure PollCall where
  maxEvs : Nat
  got : List Ev
  ended : Option Nat

/-- A finished call.  `unread` is the number of events that stood in the ring,
written and not consumed, when the loop ended, and `doorbell` the value of the
acknowledgement register after the call. -/
structure PollRecord where
  maxEvs : Nat
  evs : List Ev
  unread : Nat
  doorbell : Nat

/-- A polling session and the card's side of the event queue.  `wptr` is the
slot the card writes next; `written` is the history of the words it has
written, `acked` the number of events acknowledged through the doorbell. -/
structure PollSys where
  session : Session
  call : Option PollCall
  wptr : Nat
  written : List (BitVec 64)
  acked : Nat
  calls : List PollRecord

/-- Who moves: the card writes an event, or the library enters the call, runs
one iteration of its loop, leaves the loop, or acknowledges and returns. -/
inductive PollLabel
  | nic (w : BitVec 64)
  | enter (maxEvs : Nat)
  | iter
  | leave
  | ret

namespace PollSys

/-- Events returned by the finished calls, in order. -/
def returned (s : PollSys) : List Ev := s.calls.flatMap PollRecord.evs

/-- Records the call in progress has filled. -/
def inCall (s : PollSys) : List Ev := (s.call.map PollCall.got).getD []

/-- Events taken out of the ring so far. -/
def taken (s : PollSys) : List Ev := s.returned ++ s.inCall

end PollSys

/-- The card writes a non-vacant word into the next slot of the ring, only
while fewer than 512 events are unacknowledged. -/
def nicWrite (s : PollSys) (w : BitVec 64) : Option PollSys :=
  if slotVacant w ∨ s.acked + numEvqEntry ≤ s.written.length then none
  else
    some
      { s with
        session :=
          { s.session with
            dev :=
              { s.session.dev with
                evqRing := Function.update s.session.dev.evqRing s.wptr w } }
        wptr := (s.wptr + 1) % numEvqEntry
        written := s.written ++ [w] }

/-- The state on entering the loop: `used_poll = true`, `n = 0`. -/
def PollSys.entered (s : PollSys) (maxEvs : Nat) : PollSys :=
  { s with
    session := { s.session with sfc := { s.session.sfc with usedPoll := true } }
    call := some { maxEvs := maxEvs, got := [], ended := none } }

/-- Entry of `sfc7120_poll`: the argument checks first. -/
def pollEnter (s : PollSys) (maxEvs : Nat) : Option PollSys :=
  if s.call.isSome ∨ maxEvs = 0 ∨ s.session.sfc.evqRing = false ∨
      s.session.sfc.mmioSlices = false ∨
      s.session.sfc.mmioSlicesLen ≤ sliceDataEvqRptrDbl then none
  else some (s.entered maxEvs)

/-- The state after an iteration that consumed one event. -/
def PollSys.iterated (s : PollSys) (c : PollCall)
    (out : Ev × (Nat → BitVec 64) × Nat) : PollSys :=
  { s with
    session :=
      { sfc := { s.session.sfc with evqReadPtr := out.2.2 }
        dev := { s.session.dev with evqRing := out.2.1 } }
    call := some { c with got := c.got ++ [out.1] } }

/-- One iteration of the loop body, when the slot is not vacant. -/
def pollIterate (s : PollSys) (c : PollCall) : Option PollSys :=
  if c.ended.isSome ∨ c.maxEvs ≤ c.got.length then none
  else
    (pollIter s.session.dev.evqRing s.session.sfc.evqReadPtr).map (s.iterated c)

/-- End of the loop, on a full batch or on a vacant slot. -/
def pollLeave (s : PollSys) (c : PollCall) : Option PollSys :=
  if c.ended.isSome ∨ c.got.length < c.maxEvs ∧
      ¬ slotVacant (s.session.dev.evqRing s.session.sfc.evqReadPtr) then none
  else
    some { s with call := some { c with ended := some (s.written.length - s.taken.length) } }

/-- The acknowledgement register after the call: written only if `n > 0`. -/
def evqDoorbell (session : Session) (n : Nat) : Nat :=
  if n > 0 then session.sfc.evqReadPtr &&& evqRptrMask else session.dev.evqRptrDbl

/-- The doorbell write and the return. -/
def pollReturn (s : PollSys) (c : PollCall) : Option PollSys :=
  c.ended.map fun unread =>
    let dbl := evqDoorbell s.session c.got.length
    { s with
      session := { s.session with dev := { s.session.dev with evqRptrDbl := dbl } }
      call := none
      acked := s.acked + c.got.length
      calls := s.calls ++
        [{ maxEvs := c.maxEvs, evs := c.got, unread := unread, doorbell := dbl }] }

/-- The interleaved system. -/
def pollStep (s : PollSys) : PollLabel → Option PollSys
  | .nic w => nicWrite s w
  | .enter maxEvs => pollEnter s maxEvs
  | .iter => s.call.bind (pollIterate s)
  | .leave => s.call.bind (pollLeave s)
  | .ret => s.call.bind (pollReturn s)

/-- A polling session about to start: everything is mapped, the ring has only
vacant slots, and library and card agree on the seed `evq_read_ptr`. -/
structure PollStart (seed : Nat) (s : PollSys) : Prop where
  ready : s.session.sfc.Ready
  seedLt : seed < numEvqEntry
  vacant : ∀ i, i < numEvqEntry → slotVacant (s.session.dev.evqRing i)
  readPtr : s.session.sfc.evqReadPtr = seed
  wptr : s.wptr = seed
  idle : s.call = none
  noneWritten : s.written = []
  noneAcked : s.acked = 0
  noCalls : s.calls = []

/-! ## The invariant -/

/-- Both cursors and the ring contents, given the words written and the records
taken: the ring represents exactly the words not yet taken. -/
structure RingInv (seed : Nat) (evq : Nat → BitVec 64) (readPtr wptr : Nat)
    (written : List (BitVec 64)) (taken : List Ev) : Prop where
  readPtrEq : readPtr = (seed + taken.length) % 512
  wptrEq : wptr = (seed + written.length) % 512
  takenLe : taken.length ≤ written.length
  takenEq : taken = (written.take taken.length).map decodeEvent
  holds : EvqHolds evq readPtr (written.drop taken.length)

namespace RingInv

variable {seed readPtr wptr : Nat} {evq : Nat → BitVec 64}
  {written : List (BitVec 64)} {taken : List Ev}

/-- The card's write keeps the ring: its slot is the first free one. -/
theorem write (hinv : RingInv seed evq readPtr wptr written taken) {w : BitVec 64}
    (hw : ¬ slotVacant w) (hroom : written.length < taken.length + 512) :
    RingInv seed (Function.update evq wptr w) readPtr ((wptr + 1) % 512)
      (written ++ [w]) taken := by
  have hle := hinv.takenLe
  refine ⟨hinv.readPtrEq, ?_, ?_, ?_, ?_⟩
  · rw [hinv.wptrEq, List.length_append, List.length_singleton]
    omega
  · rw [List.length_append]
    exact Nat.le_add_right_of_le hle
  · rw [List.take_append_of_le_length hle]
    exact hinv.takenEq
  · have hlen : (written.drop taken.length).length < 512 := by
      rw [List.length_drop]
      omega
    have hslot : (readPtr + (written.drop taken.length).length) % 512 = wptr := by
      rw [hinv.readPtrEq, hinv.wptrEq, List.length_drop]
      omega
    have hwrite := hinv.holds.write hlen hw
    rw [hslot, ← List.drop_append_of_le_length hle] at hwrite
    exact hwrite

/-- An iteration that finds an event takes the oldest one. -/
theorem iterate (hinv : RingInv seed evq readPtr wptr written taken) {ev : Ev}
    {evq' : Nat → BitVec 64} {readPtr' : Nat}
    (hiter : pollIter evq readPtr = some (ev, evq', readPtr')) :
    RingInv seed evq' readPtr' wptr written (taken ++ [ev]) := by
  obtain ⟨⟨w, evq₁, readPtr₁⟩, htake, heq⟩ := Option.map_eq_some_iff.mp hiter
  obtain ⟨rfl, rfl, rfl⟩ : decodeEvent w = ev ∧ evq₁ = evq' ∧ readPtr₁ = readPtr' := by
    simpa using heq
  obtain ⟨rest, hpending, hcursor, hrest⟩ := hinv.holds.of_take htake
  have hlt : taken.length < written.length := by
    by_contra hge
    rw [List.drop_eq_nil_of_le (by omega)] at hpending
    cases hpending
  rw [List.drop_eq_getElem_cons hlt] at hpending
  obtain ⟨hw, hdrop⟩ := List.cons.inj hpending
  have hlen : (taken ++ [decodeEvent w]).length = taken.length + 1 := by simp
  refine ⟨?_, hinv.wptrEq, ?_, ?_, ?_⟩
  · rw [hlen, hcursor, hinv.readPtrEq]
    omega
  · rw [hlen]
    exact hlt
  · rw [hlen, List.take_succ_eq_append_getElem hlt, List.map_append,
      List.map_singleton, hw, ← hinv.takenEq]
  · rw [hlen, hdrop]
    exact hrest

theorem nothing_unread (hinv : RingInv seed evq readPtr wptr written taken)
    (hvacant : slotVacant (evq readPtr)) : written.length - taken.length = 0 := by
  simpa using congrArg List.length (hinv.holds.nil_of_vacant hvacant)

end RingInv

/-- What every finished call has delivered. -/
structure CallsExact (seed : Nat) (calls : List PollRecord) : Prop where
  size : ∀ r ∈ calls, r.evs.length ≤ r.maxEvs
  short : ∀ r ∈ calls, r.evs.length < r.maxEvs → r.unread = 0
  doorbell : ∀ done r rest, calls = done ++ r :: rest → r.evs ≠ [] →
    r.doorbell = (seed + ((done ++ [r]).flatMap PollRecord.evs).length) % 512

variable {seed maxEvs : Nat} {s s' : PollSys} {c : PollCall}

theorem CallsExact.append {calls : List PollRecord} {r : PollRecord}
    (hcalls : CallsExact seed calls) (hsize : r.evs.length ≤ r.maxEvs)
    (hshort : r.evs.length < r.maxEvs → r.unread = 0) (hdbl : r.evs ≠ [] →
      r.doorbell = (seed + ((calls ++ [r]).flatMap PollRecord.evs).length) % 512) :
    CallsExact seed (calls ++ [r]) := by
  refine ⟨?_, ?_, ?_⟩
  · intro r' hr'
    rcases List.mem_append.mp hr' with hold | hnew
    · exact hcalls.size r' hold
    · rw [List.mem_singleton.mp hnew]
      exact hsize
  · intro r' hr'
    rcases List.mem_append.mp hr' with hold | hnew
    · exact hcalls.short r' hold
    · rw [List.mem_singleton.mp hnew]
      exact hshort
  · intro done r' rest hsplit hne
    rcases List.eq_nil_or_concat rest with hnil | ⟨front, last, hfront⟩
    · subst hnil
      obtain ⟨hdone, hlast⟩ := List.append_inj' hsplit rfl
      obtain rfl : r = r' := by simpa using hlast
      rw [← hdone]
      exact hdbl hne
    · subst hfront
      have hsplit' : calls ++ [r] = (done ++ r' :: front) ++ [last] := by
        simpa using hsplit
      obtain ⟨hdone, -⟩ := List.append_inj' hsplit' rfl
      exact hcalls.doorbell done r' front hdone hne

/-- What holds at every moment of a polling session. -/
structure PollInv (seed : Nat) (s : PollSys) : Prop where
  ring : RingInv seed s.session.dev.evqRing s.session.sfc.evqReadPtr s.wptr
    s.written s.taken
  acked : s.acked = s.returned.length
  room : s.written.length ≤ s.returned.length + 512
  size : ∀ c ∈ s.call, c.got.length ≤ c.maxEvs
  ended : ∀ c ∈ s.call, ∀ unread ∈ c.ended, c.got.length < c.maxEvs → unread = 0
  calls : CallsExact seed s.calls

theorem pollInv_start (hstart : PollStart seed s) :
    PollInv seed s := by
  have hreturned : s.returned = [] := by simp [PollSys.returned, hstart.noCalls]
  have htaken : s.taken = [] := by
    simp [PollSys.taken, PollSys.inCall, hreturned, hstart.idle]
  have hseed : seed % 512 = seed := Nat.mod_eq_of_lt hstart.seedLt
  refine ⟨⟨?_, ?_, ?_, ?_, ?_⟩, ?_, ?_, ?_, ?_, ?_, ?_, ?_⟩
  · rw [hstart.readPtr, htaken, List.length_nil, Nat.add_zero, hseed]
  · rw [hstart.wptr, hstart.noneWritten, List.length_nil, Nat.add_zero, hseed]
  · simp [htaken]
  · simp [htaken]
  · rw [hstart.noneWritten, List.drop_nil]
    exact EvqHolds.empty hstart.vacant (hstart.readPtr ▸ hstart.seedLt)
  · rw [hstart.noneAcked, hreturned, List.length_nil]
  · simp [hstart.noneWritten]
  · simp [hstart.idle]
  · simp [hstart.idle]
  · simp [hstart.noCalls]
  · simp [hstart.noCalls]
  · simp [hstart.noCalls]

theorem pollInv_nicWrite {w : BitVec 64} (hinv : PollInv seed s)
    (hstep : nicWrite s w = some s') : PollInv seed s' := by
  unfold nicWrite at hstep
  split at hstep
  · cases hstep
  · rename_i hguard
    push Not at hguard
    obtain ⟨hw, hroom⟩ := hguard
    rw [hinv.acked] at hroom
    simp only [Option.some.injEq] at hstep
    subst hstep
    have hroomTaken : s.written.length < s.taken.length + 512 := by
      rw [PollSys.taken, List.length_append]
      simp only [numEvqEntry] at hroom
      omega
    refine ⟨hinv.ring.write hw hroomTaken, hinv.acked, ?_, hinv.size, hinv.ended,
      hinv.calls⟩
    rw [List.length_append, List.length_singleton]
    exact hroom

theorem pollInv_pollEnter (hinv : PollInv seed s) (hstep : pollEnter s maxEvs = some s') :
    PollInv seed s' := by
  unfold pollEnter at hstep
  split at hstep
  · cases hstep
  · rename_i hguard
    have hidle : s.call = none := by
      simpa using fun h => hguard (Or.inl h)
    simp only [Option.some.injEq] at hstep
    have htaken : s'.taken = s.taken := by
      simp [← hstep, PollSys.entered, PollSys.taken, PollSys.returned,
        PollSys.inCall, hidle]
    have hring := hinv.ring
    rw [← htaken] at hring
    subst hstep
    refine ⟨hring, hinv.acked, hinv.room, ?_, ?_, hinv.calls⟩
    · intro c hc
      obtain rfl := Option.some.inj hc
      exact Nat.zero_le _
    · intro c hc unread hunread
      obtain rfl := Option.some.inj hc
      cases hunread

theorem pollInv_pollIterate (hinv : PollInv seed s) (hcall : s.call = some c)
    (hstep : pollIterate s c = some s') : PollInv seed s' := by
  unfold pollIterate at hstep
  split at hstep
  · cases hstep
  · rename_i hguard
    push Not at hguard
    obtain ⟨hrunning, hmore⟩ := hguard
    obtain ⟨⟨ev, evq', readPtr'⟩, hiter, hs'⟩ := Option.map_eq_some_iff.mp hstep
    have htaken : s'.taken = s.taken ++ [ev] := by
      simp [← hs', PollSys.iterated, PollSys.taken, PollSys.returned,
        PollSys.inCall, hcall]
    have hring := hinv.ring.iterate hiter
    rw [← htaken] at hring
    subst hs'
    refine ⟨hring, hinv.acked, hinv.room, ?_, ?_, hinv.calls⟩
    · intro c' hc'
      obtain rfl := Option.some.inj hc'
      simp only [List.length_append, List.length_singleton]
      omega
    · intro c' hc' unread hunread
      obtain rfl := Option.some.inj hc'
      exact absurd (Option.isSome_of_mem hunread) hrunning

theorem pollInv_pollLeave (hinv : PollInv seed s) (hcall : s.call = some c)
    (hstep : pollLeave s c = some s') : PollInv seed s' := by
  unfold pollLeave at hstep
  split at hstep
  · cases hstep
  · rename_i hguard
    push Not at hguard
    simp only [Option.some.injEq] at hstep
    have htaken : s'.taken = s.taken := by
      simp [← hstep, PollSys.taken, PollSys.returned, PollSys.inCall, hcall]
    have hring := hinv.ring
    rw [← htaken] at hring
    subst hstep
    refine ⟨hring, hinv.acked, hinv.room, ?_, ?_, hinv.calls⟩
    · intro c' hc'
      obtain rfl := Option.some.inj hc'
      exact hinv.size c hcall
    · intro c' hc' unread hunread hshort
      obtain rfl := Option.some.inj hc'
      obtain rfl := Option.some.inj hunread
      exact hinv.ring.nothing_unread (hguard.2 hshort)

theorem pollInv_pollReturn (hinv : PollInv seed s) (hcall : s.call = some c)
    (hstep : pollReturn s c = some s') : PollInv seed s' := by
  unfold pollReturn at hstep
  obtain ⟨unread, hended, hs'⟩ := Option.map_eq_some_iff.mp hstep
  have htaken : s'.taken = s.taken := by
    simp [← hs', PollSys.taken, PollSys.returned, PollSys.inCall, hcall]
  have hreturned : s'.returned = s.taken := by
    rw [← htaken, PollSys.taken]
    simp [← hs', PollSys.inCall]
  have hlen : s.taken.length = s.returned.length + c.got.length := by
    simp [PollSys.taken, PollSys.inCall, hcall]
  have hring := hinv.ring
  rw [← htaken] at hring
  have hacked : s'.acked = s'.returned.length := by
    rw [hreturned, hlen, ← hinv.acked, ← hs']
  have hroom : s'.written.length ≤ s'.returned.length + 512 := by
    have := hinv.room
    rw [hreturned, hlen]
    simp only [← hs']
    omega
  have hdbl : c.got ≠ [] →
      evqDoorbell s.session c.got.length = (seed + s'.returned.length) % 512 := by
    intro hne
    rw [evqDoorbell, if_pos (List.length_pos_of_ne_nil hne), hinv.ring.readPtrEq,
      land_evqRptrMask, hreturned]
  have hcalls : CallsExact seed s'.calls := by
    simp only [PollSys.returned] at hdbl
    rw [← hs'] at hdbl ⊢
    exact hinv.calls.append (hinv.size c hcall) (hinv.ended c hcall unread hended) hdbl
  subst hs'
  refine ⟨hring, hacked, hroom, ?_, ?_, hcalls⟩
  · intro c' hc'
    cases hc'
  · intro c' hc'
    cases hc'

theorem pollInv_pollStep (s : PollSys) (l : PollLabel) (s' : PollSys) (hinv : PollInv seed s)
    (hstep : pollStep s l = some s') : PollInv seed s' := by
  cases l with
  | nic w => exact pollInv_nicWrite hinv hstep
  | enter maxEvs => exact pollInv_pollEnter hinv hstep
  | iter =>
    obtain ⟨c, hcall, hbody⟩ := Option.bind_eq_some_iff.mp hstep
    exact pollInv_pollIterate hinv hcall hbody
  | leave =>
    obtain ⟨c, hcall, hbody⟩ := Option.bind_eq_some_iff.mp hstep
    exact pollInv_pollLeave hinv hcall hbody
  | ret =>
    obtain ⟨c, hcall, hbody⟩ := Option.bind_eq_some_iff.mp hstep
    exact pollInv_pollReturn hinv hcall hbody

/-! ## Exactness -/

/-- Exactness of the event queue at one moment of a session. -/
structure PollExact (seed : Nat) (s : PollSys) : Prop where
  /-- The raw events returned are a prefix of the words written. -/
  inOrder : s.returned.map Ev.raw <+: s.written
  /-- Every record returned is the decoding of its raw word. -/
  decoded : ∀ ev ∈ s.returned, DecodesTo ev.raw ev
  /-- Batch bound, reason for a short batch, and acknowledgement of each call. -/
  calls : CallsExact seed s.calls

theorem PollInv.pollExact (hinv : PollInv seed s) :
    PollExact seed s := by
  have hpre : s.returned <+: s.written.map decodeEvent := by
    have htake : s.taken <+: s.written.map decodeEvent := by
      rw [hinv.ring.takenEq, List.map_take]
      exact List.take_prefix _ _
    exact (List.prefix_append s.returned s.inCall).trans htake
  refine ⟨?_, ?_, hinv.calls⟩
  · have hraw := hpre.map Ev.raw
    rw [List.map_map] at hraw
    simpa [Function.comp_def] using hraw
  · intro ev hev
    obtain ⟨w, -, rfl⟩ := List.mem_map.mp (hpre.subset hev)
    rw [decodeEvent_raw]
    exact decodesTo_decodeEvent w

/-- `sfc7120_poll` returns the card's events exactly: over every interleaving of
card writes with calls of any batch size, what the calls have returned is a
prefix of what was written, decoded field by field; a call stops short only at
an unwritten slot; and the doorbell counts the events returned. -/
theorem poll_exact {seed : Nat} {s t : PollSys} {labels : List PollLabel}
    (hstart : PollStart seed s) (hrun : exec pollStep s labels = some t) :
    PollExact seed t :=
  (exec_invariant pollInv_pollStep (pollInv_start hstart) hrun).pollExact

/-- A session on a freshly allocated device whose cursors start at `seed`. -/
def pollOnFreshDevice (seed : Nat) : PollSys where
  session :=
    { sfc :=
        { txBuffer := true, rxBuffer := true, txDescRing := true
          rxDescRing := true, evqRing := true, mmioSlices := true
          mmioSlicesLen := sliceCount
          rxBufferPaddr := 0x100000#64, txBufferPaddr := 0x200000#64
          viInfoValid := true, evqReadPtr := seed, usedPoll := false
          rxWindow := 64, rxHead := 0, txHead := 0, rxExtCookie := fun _ => none }
      dev := allocDmaResources }
  call := none
  wptr := seed
  written := []
  acked := 0
  calls := []

theorem pollStart_pollOnFreshDevice (hseed : seed < 512) :
    PollStart seed (pollOnFreshDevice seed) where
  ready := ⟨rfl, rfl, rfl, rfl, rfl, rfl, rfl⟩
  seedLt := hseed
  vacant := fun _ _ => Or.inl rfl
  readPtr := rfl
  wptr := rfl
  idle := rfl
  noneWritten := rfl
  noneAcked := rfl
  noCalls := rfl

/-- A run that wraps the ring inside one call: an RX and a TX event, the second
written while the loop is running. -/
theorem poll_exact_across_wrap :
    ∃ t, exec pollStep (pollOnFreshDevice 511)
        [.nic 0x4e#64, .enter 8, .iter, .nic 0x2000000000000007#64, .iter, .leave, .ret] =
          some t ∧
      t.returned.length = 2 ∧ t.session.dev.evqRptrDbl = 1 ∧ PollExact 511 t := by
  obtain ⟨t, hrun, hlen, hdbl⟩ : ∃ t, exec pollStep (pollOnFreshDevice 511)
      [.nic 0x4e#64, .enter 8, .iter, .nic 0x2000000000000007#64, .iter, .leave, .ret] =
        some t ∧ t.returned.length = 2 ∧ t.session.dev.evqRptrDbl = 1 :=
    ⟨_, rfl, rfl, rfl⟩
  exact ⟨t, hrun, hlen, hdbl,
    poll_exact (pollStart_pollOnFreshDevice (by decide)) hrun⟩

/-! ## The uninterrupted call as a run -/

/-- The state in which the loop of a call ends when the card stays silent. -/
def afterLoop (s : PollSys) (c : PollCall) (left : Nat) : PollSys :=
  let out := pollLoop left s.session.dev.evqRing s.session.sfc.evqReadPtr
  { s with
    session :=
      { sfc := { s.session.sfc with evqReadPtr := out.2.2 }
        dev := { s.session.dev with evqRing := out.2.1 } }
    call := some
      { c with
        got := c.got ++ out.1
        ended := some (s.written.length - (s.taken ++ out.1).length) } }

/-- The loop of the source is a run of `iter` steps closed by `leave`. -/
theorem exec_loop (left : Nat) (hcall : s.call = some c) (hrunning : c.ended = none)
    (hleft : c.maxEvs = c.got.length + left) :
    ∃ n, exec pollStep s (List.replicate n .iter ++ [.leave]) =
      some (afterLoop s c left) := by
  induction left generalizing s c with
  | zero =>
    refine ⟨0, ?_⟩
    have hfull : ¬ (c.got.length < c.maxEvs) := by omega
    simp [exec, pollStep, hcall, pollLeave, hrunning, hfull, afterLoop, pollLoop]
  | succ left ih =>
    cases hiter : pollIter s.session.dev.evqRing s.session.sfc.evqReadPtr with
    | none =>
      have hvacant :
          slotVacant (s.session.dev.evqRing s.session.sfc.evqReadPtr) := by
        by_contra hfull
        simp [pollIter, evqTake, hfull] at hiter
      refine ⟨0, ?_⟩
      simp [exec, pollStep, hcall, pollLeave, hrunning, hvacant, afterLoop,
        pollLoop, hiter]
    | some out =>
      have hmore : ¬ (c.maxEvs ≤ c.got.length) := by omega
      have hstep : pollStep s .iter = some (s.iterated c out) := by
        simp [pollStep, hcall, pollIterate, hrunning, hmore, hiter]
      have hcall' : (s.iterated c out).call =
          some { c with got := c.got ++ [out.1] } := rfl
      obtain ⟨n, hn⟩ := ih hcall' hrunning (by simp; omega)
      refine ⟨n + 1, ?_⟩
      rw [List.replicate_succ, List.cons_append, exec_cons_of_some hstep, hn]
      simp [afterLoop, pollLoop, hiter, PollSys.iterated, PollSys.taken,
        PollSys.inCall, PollSys.returned, hcall, List.append_assoc]

theorem pollStep_ret {unread : Nat} (hcall : s.call = some c) (hended : c.ended = some unread) :
    ∃ t, pollStep s .ret = some t ∧ t.call = none ∧
      t.session =
        { s.session with
          dev :=
            { s.session.dev with
              evqRptrDbl := evqDoorbell s.session c.got.length } } ∧
      t.returned = s.returned ++ c.got := by
  simp [pollStep, hcall, pollReturn, hended, PollSys.returned]

/-- A call during which the card stays silent ends in the state that
`sfc7120_poll`, taken as one function, computes. -/
theorem exec_uninterrupted_call (hready : s.session.sfc.Ready) (hidle : s.call = none)
    (hmax : 0 < maxEvs) :
    ∃ labels t, exec pollStep s labels = some t ∧ t.call = none ∧
      t.session = (poll s.session maxEvs).2 ∧
      some t.returned = (poll s.session maxEvs).1.map (s.returned ++ ·) := by
  have henter : pollStep s (.enter maxEvs) = some (s.entered maxEvs) := by
    have hne : maxEvs ≠ 0 := by omega
    simp [pollStep, pollEnter, hidle, hne, hready.evqRing, hready.mmioSlices,
      hready.mmioSlicesLen, sliceCount, sliceDataEvqRptrDbl]
  have hcall : (s.entered maxEvs).call =
      some { maxEvs := maxEvs, got := [], ended := none } := rfl
  obtain ⟨n, hloop⟩ := exec_loop maxEvs hcall rfl (by simp)
  obtain ⟨t, hret, hdone, hsession, hreturned⟩ :=
    pollStep_ret (s := afterLoop (s.entered maxEvs) _ maxEvs) rfl rfl
  have hlast := (exec_cons_of_some hret []).trans (exec_nil pollStep t)
  refine ⟨_, t, exec_append ((exec_cons_of_some henter _).trans hloop) hlast, hdone, ?_, ?_⟩
  · rw [hsession, poll_of_ready hready hmax]
    rfl
  · rw [hreturned, poll_of_ready hready hmax]
    rfl

end Userlib
end SfcCapio
