import SfcCapio.Kernel.TxIoctl

/-!
# Runs of the transmit ioctl

`SFC7120_TX` advances `tx_head` whether or not the completion of its descriptor has been
seen, and keeps no record of descriptors that are still with the card.  `TxRunSys` runs
the handler against a card that finishes the descriptors in order, reports them late and
merged, and writes other events in between.

Descriptors are numbered from 0 in the order in which they are posted; `slots` gives the
slot of each.  A completion event that reports the first `upto` descriptors carries the
low 16 bits of `upto - 1`, the number of the last one.  The records `writes` and `sent`
keep what the handler wrote and which of its descriptors it called finished.

Two questions are settled.  A slot is overwritten while the card still has it exactly
when 512 descriptors are unfinished at the write.  A call that returns 0 has been told the
truth as long as at most 512 descriptors, its own included, lie beyond the last completion
that was read.
-/

namespace SfcCapio
namespace Kernel

open Hardware Foundation

/-! ## The system -/

/-- An event that no call has read.  A completion reports the first `upto`
descriptors. -/
structure CardEvent where
  word : BitVec 64
  upto : Option Nat

/-- A write of the handler to the buffer or to the descriptor of a slot: the slots of the
descriptors posted before, and how many of these were finished. -/
structure TxWrite where
  slot : Nat
  slots : List Nat
  completed : Nat

/-- Every descriptor posted in the slot before was finished. -/
def TxWrite.Safe (w : TxWrite) : Prop := ∀ n, w.slots[n]? = some w.slot → n < w.completed

/-- The driver, the handler in progress and the card.  `consumed` is the count of the
last completion that a call has read, `own` the number of the descriptor that the call in
progress has posted, and `sent` lists the descriptors whose call returned 0. -/
structure TxRunSys where
  sc : Softc
  call : Option TxPc
  evqWptr : Nat
  pending : List CardEvent
  slots : List Nat
  completed : Nat
  reported : Nat
  consumed : Nat
  own : Nat
  writes : List TxWrite
  sent : List Nat

/-- A caller enters the handler or the handler moves; the card finishes descriptors,
reports them, or writes another event. -/
inductive TxRunLabel
  | enter (req : TxReq)
  | cpu (copyErr : Nat)
  | complete (upto : Nat)
  | report (upto : Nat) (w : BitVec 64)
  | event (w : BitVec 64)

namespace TxRunSys

/-- The card writes an event. -/
def queued (s : TxRunSys) (e : CardEvent) : TxRunSys :=
  { s with
    sc :=
      { s.sc with
        dev :=
          { s.sc.dev with evqRing := Function.update s.sc.dev.evqRing s.evqWptr e.word } }
    evqWptr := (s.evqWptr + 1) % numEvqEntry
    pending := s.pending ++ [e] }

/-- A completion reports descriptors that are finished and were not reported before. -/
def CanReport (s : TxRunSys) (upto : Nat) (w : BitVec 64) : Prop :=
  s.reported < upto ∧ upto ≤ s.completed ∧ evCode w = 2 ∧
    evTxDescIdx w = (upto - 1) % 2 ^ 16 ∧ s.pending.length < numEvqEntry

instance (s : TxRunSys) (upto : Nat) (w : BitVec 64) : Decidable (s.CanReport upto w) :=
  inferInstanceAs (Decidable (_ ∧ _))

/-- A write to the slot at `tx_head`. -/
def nextWrite (s : TxRunSys) : TxWrite where
  slot := s.sc.txHead
  slots := s.slots
  completed := s.completed

/-- The record of that write.  A `copyin` that fails may have written a part of the
packet. -/
def wrote (s : TxRunSys) : TxRunSys := { s with writes := s.writes ++ [s.nextWrite] }

/-- The oldest event has been read. -/
def dequeued (s : TxRunSys) : TxRunSys :=
  match s.pending with
  | [] => s
  | e :: rest => { s with pending := rest, consumed := e.upto.getD s.consumed }

/-- The records of the step from `pc`. -/
def recorded (s : TxRunSys) : TxPc → TxRunSys
  | .copyin _ => s.wrote
  | .desc _ => s.wrote
  | .ring => { s with slots := s.slots ++ [s.sc.txHead], own := s.slots.length }
  | .poll _ tries _ =>
    if tries < txTries ∧ (evqTake s.sc.dev.evqRing s.sc.dataEvqReadPtr).isSome then s.dequeued
    else s
  | .ack _ _ => s

/-- The handler makes its next step.  A call that returns 0 calls its descriptor sent. -/
def moved (s : TxRunSys) (copyErr : Nat) (pc : TxPc) : TxRunSys :=
  { s.recorded pc with
    sc := (txIoctlStep s.sc copyErr pc).1
    call :=
      match (txIoctlStep s.sc copyErr pc).2 with
      | .running pc' => some pc'
      | .returned _ => none
    sent :=
      match (txIoctlStep s.sc copyErr pc).2 with
      | .returned none => s.sent ++ [s.own]
      | _ => s.sent }

end TxRunSys

/-- The interleaved system.  A request is checked before the lock is taken, and the lock
admits one handler at a time. -/
def txRunStep (s : TxRunSys) : TxRunLabel → Option TxRunSys
  | .enter req =>
    match txReqError req with
    | some _ => some s
    | none => if s.call.isSome then none else some { s with call := some (.copyin req) }
  | .cpu copyErr => s.call.map (s.moved copyErr)
  | .complete upto =>
    if s.completed ≤ upto ∧ upto ≤ s.slots.length then some { s with completed := upto }
    else none
  | .report upto w =>
    if s.CanReport upto w then
      some { s.queued { word := w, upto := some upto } with reported := upto }
    else none
  | .event w =>
    if evCode w ≠ 2 ∧ ¬ slotVacant w ∧ s.pending.length < numEvqEntry then
      some (s.queued { word := w, upto := none })
    else none

/-- The state attach leaves. -/
structure TxRunStart (s : TxRunSys) : Prop where
  txHead : s.sc.txHead = 0
  readPtrLt : s.sc.dataEvqReadPtr < numEvqEntry
  vacant : ∀ i, i < numEvqEntry → slotVacant (s.sc.dev.evqRing i)
  idle : s.call = none
  evqWptr : s.evqWptr = s.sc.dataEvqReadPtr
  nonePending : s.pending = []
  nonePosted : s.slots = []
  noneCompleted : s.completed = 0
  noneReported : s.reported = 0
  noneConsumed : s.consumed = 0
  noWrites : s.writes = []
  noneSent : s.sent = []

/-! ## The descriptor ring -/

/-- The step counts its descriptor only when it has rung the doorbell. -/
def TxPc.rung : TxPc → Nat
  | .poll _ _ _ => 1
  | .ack _ _ => 1
  | _ => 0

/-- Descriptors that the call in progress has posted. -/
def TxRunSys.rung (s : TxRunSys) : Nat := (s.call.map TxPc.rung).getD 0

/-- `tx_head` follows the number of descriptors posted. -/
structure TxRing (s : TxRunSys) : Prop where
  headLt : s.sc.txHead < 512
  head : s.slots.length % 512 = (s.sc.txHead + s.rung) % 512
  slotOf : ∀ (n : Nat) i, s.slots[n]? = some i → i = n % 512
  completedLe : s.completed ≤ s.slots.length

theorem txRing_start {s : TxRunSys} (hstart : TxRunStart s) : TxRing s := by
  have hrung : s.rung = 0 := by simp [TxRunSys.rung, hstart.idle]
  refine ⟨?_, ?_, ?_, ?_⟩
  · rw [hstart.txHead]
    decide
  · rw [hstart.nonePosted, hstart.txHead, hrung]
    rfl
  · rw [hstart.nonePosted]
    intro n i hi
    cases hi
  · rw [hstart.noneCompleted]
    exact Nat.zero_le _

namespace TxRing

variable {s : TxRunSys}

theorem congr {s' : TxRunSys} (hring : TxRing s) (hhead : s'.sc.txHead = s.sc.txHead)
    (hslots : s'.slots = s.slots) (hcompleted : s'.completed = s.completed)
    (hrung : s'.rung = s.rung) : TxRing s' where
  headLt := hhead ▸ hring.headLt
  head := by
    rw [hslots, hhead, hrung]
    exact hring.head
  slotOf := hslots ▸ hring.slotOf
  completedLe := by
    rw [hcompleted, hslots]
    exact hring.completedLe

/-- The doorbell: the descriptor at `tx_head` is the next one. -/
theorem ring (hring : TxRing s) (hcall : s.call = some .ring) (copyErr : Nat) :
    TxRing (s.moved copyErr .ring) := by
  have hrung : s.rung = 0 := by simp [TxRunSys.rung, hcall, TxPc.rung]
  have hhead := hring.head
  rw [hrung, Nat.add_zero, Nat.mod_eq_of_lt hring.headLt] at hhead
  refine ⟨hring.headLt, ?_, ?_, ?_⟩
  · show (s.slots ++ [s.sc.txHead]).length % 512 = (s.sc.txHead + 1) % 512
    rw [List.length_append, List.length_singleton, ← hhead]
    omega
  · intro n i hi
    rcases getElem?_concat_cases hi with hold | ⟨rfl, rfl⟩
    · exact hring.slotOf n i hold
    · exact hhead.symm
  · show s.completed ≤ (s.slots ++ [s.sc.txHead]).length
    rw [List.length_append]
    exact Nat.le_add_right_of_le hring.completedLe

/-- The end of the call: `tx_head` moves on, whatever has been found. -/
theorem ack {consumed copyErr : Nat} {txDone : Bool} (hring : TxRing s)
    (hcall : s.call = some (.ack consumed txDone)) :
    TxRing (s.moved copyErr (.ack consumed txDone)) := by
  have hrung : s.rung = 1 := by simp [TxRunSys.rung, hcall, TxPc.rung]
  refine ⟨land_ringMask_lt _, ?_, hring.slotOf, hring.completedLe⟩
  show s.slots.length % 512 = (((s.sc.txHead + 1) &&& (512 - 1)) + 0) % 512
  rw [land_ringMask, hring.head, hrung]
  omega

end TxRing

theorem dequeued_ring (s : TxRunSys) :
    s.dequeued.slots = s.slots ∧ s.dequeued.completed = s.completed := by
  unfold TxRunSys.dequeued
  split <;> exact ⟨rfl, rfl⟩

theorem recorded_poll_ring (s : TxRunSys) (postedIdx tries consumed : Nat) :
    (s.recorded (.poll postedIdx tries consumed)).slots = s.slots ∧
      (s.recorded (.poll postedIdx tries consumed)).completed = s.completed := by
  simp only [TxRunSys.recorded]
  split
  · exact dequeued_ring s
  · exact ⟨rfl, rfl⟩

/-- The outcomes of one iteration of the polling loop: the tries are over, the slot is
vacant, or an event is taken. -/
theorem txIoctlStep_poll (sc : Softc) (copyErr postedIdx tries consumed : Nat) :
    (¬ tries < txTries ∧ txIoctlStep sc copyErr (.poll postedIdx tries consumed) =
        (sc, .running (.ack consumed false))) ∨
      (tries < txTries ∧ evqTake sc.dev.evqRing sc.dataEvqReadPtr = none ∧
        txIoctlStep sc copyErr (.poll postedIdx tries consumed) =
          (sc, .running (.poll postedIdx (tries + 1) consumed))) ∨
      ∃ ev evq readPtr, tries < txTries ∧
        evqTake sc.dev.evqRing sc.dataEvqReadPtr = some (ev, evq, readPtr) ∧
        txIoctlStep sc copyErr (.poll postedIdx tries consumed) =
          ({ sc with dev := { sc.dev with evqRing := evq }, dataEvqReadPtr := readPtr },
            .running (if Completes postedIdx ev then .ack (consumed + 1) true
              else .poll postedIdx (tries + 1) (consumed + 1))) := by
  simp only [txIoctlStep]
  by_cases htries : tries < txTries
  · cases htake : evqTake sc.dev.evqRing sc.dataEvqReadPtr with
    | none =>
      refine Or.inr (Or.inl ⟨htries, rfl, ?_⟩)
      rw [if_pos htries]
    | some out =>
      obtain ⟨ev, evq, readPtr⟩ := out
      refine Or.inr (Or.inr ⟨ev, evq, readPtr, htries, rfl, ?_⟩)
      rw [if_pos htries]
      simp only
      split <;> rfl
  · exact Or.inl ⟨htries, if_neg htries⟩

theorem TxRing.poll {s : TxRunSys} {copyErr postedIdx tries consumed : Nat} (hring : TxRing s)
    (hcall : s.call = some (.poll postedIdx tries consumed)) :
    TxRing (s.moved copyErr (.poll postedIdx tries consumed)) := by
  have hrung : s.rung = 1 := by simp [TxRunSys.rung, hcall, TxPc.rung]
  obtain ⟨hslots, hcompleted⟩ := recorded_poll_ring s postedIdx tries consumed
  refine hring.congr ?_ hslots hcompleted ?_
  · show (txIoctlStep s.sc copyErr (.poll postedIdx tries consumed)).1.txHead = _
    rcases txIoctlStep_poll s.sc copyErr postedIdx tries consumed with
      ⟨-, hout⟩ | ⟨-, -, hout⟩ | ⟨ev, evq, readPtr, -, -, hout⟩ <;> rw [hout]
  · rw [hrung]
    rcases txIoctlStep_poll s.sc copyErr postedIdx tries consumed with
      ⟨-, hout⟩ | ⟨-, -, hout⟩ | ⟨ev, evq, readPtr, -, -, hout⟩
    · simp [TxRunSys.rung, TxRunSys.moved, hout, TxPc.rung]
    · simp [TxRunSys.rung, TxRunSys.moved, hout, TxPc.rung]
    · simp only [TxRunSys.rung, TxRunSys.moved, hout]
      split <;> rfl

theorem txRing_step (s : TxRunSys) (l : TxRunLabel) (s' : TxRunSys) (hring : TxRing s)
    (hstep : txRunStep s l = some s') : TxRing s' := by
  cases l with
  | enter req =>
    simp only [txRunStep] at hstep
    split at hstep
    · obtain rfl := Option.some.inj hstep
      exact hring
    · split at hstep
      · cases hstep
      · rename_i hbusy
        obtain rfl := Option.some.inj hstep
        have hidle : s.call = none := by simpa using hbusy
        exact hring.congr rfl rfl rfl (by simp [TxRunSys.rung, hidle, TxPc.rung])
  | cpu copyErr =>
    obtain ⟨pc, hcall, rfl⟩ := Option.map_eq_some_iff.mp hstep
    cases pc with
    | copyin req =>
      have hrung : s.rung = 0 := by simp [TxRunSys.rung, hcall, TxPc.rung]
      by_cases herr : copyErr = 0
      · subst herr
        exact hring.congr rfl rfl rfl (by rw [hrung]; rfl)
      · -- a failed copyin ends the call with nothing posted
        have hout : txIoctlStep s.sc copyErr (.copyin req) =
            (s.sc, .returned (some copyErr)) := if_pos herr
        refine hring.congr ?_ rfl rfl ?_
        · simp only [TxRunSys.moved, hout]
        · rw [hrung]
          simp only [TxRunSys.rung, TxRunSys.moved, hout]
          rfl
    | desc length =>
      have hrung : s.rung = 0 := by simp [TxRunSys.rung, hcall, TxPc.rung]
      exact hring.congr rfl rfl rfl (by rw [hrung]; rfl)
    | ring => exact hring.ring hcall copyErr
    | poll postedIdx tries consumed => exact hring.poll hcall
    | ack consumed txDone => exact hring.ack hcall
  | complete upto =>
    simp only [txRunStep] at hstep
    split at hstep
    · rename_i hguard
      obtain rfl := Option.some.inj hstep
      exact { hring with completedLe := hguard.2 }
    · cases hstep
  | report upto w =>
    simp only [txRunStep] at hstep
    split at hstep
    · obtain rfl := Option.some.inj hstep
      exact hring.congr rfl rfl rfl rfl
    · cases hstep
  | event w =>
    simp only [txRunStep] at hstep
    split at hstep
    · obtain rfl := Option.some.inj hstep
      exact hring.congr rfl rfl rfl rfl
    · cases hstep

/-! ## Writes to slots in flight -/

/-- The handler writes to the slot at `tx_head` next. -/
def TxRunSys.writing (s : TxRunSys) : Bool :=
  match s.call with
  | some (.copyin _) => true
  | some (.desc _) => true
  | _ => false

/-- No write has hit a slot whose descriptor the card had not finished. -/
def NeverOverwrites (s : TxRunSys) : Prop := ∀ w ∈ s.writes, w.Safe

/-- The handler writes only while fewer than 512 descriptors are unfinished. -/
def LessThanALapUnfinished (s : TxRunSys) : TxRunLabel → Prop
  | .cpu _ => s.writing = true → s.slots.length < s.completed + numTxDesc
  | _ => True

instance (s : TxRunSys) (l : TxRunLabel) : Decidable (LessThanALapUnfinished s l) :=
  match l with
  | .cpu _ => inferInstanceAs (Decidable (_ → _))
  | .enter _ | .complete _ | .report _ _ | .event _ => inferInstanceAs (Decidable True)

/-- The record of writes grows only by the handler's next write. -/
theorem txRunStep_writes {s s' : TxRunSys} {l : TxRunLabel} (hstep : txRunStep s l = some s') :
    s'.writes = s.writes ∧ (∀ copyErr, l = .cpu copyErr → s.writing = false) ∨
      (∃ copyErr, l = .cpu copyErr) ∧ s.writing = true ∧
        s'.writes = s.writes ++ [s.nextWrite] := by
  cases l with
  | enter req =>
    refine Or.inl ⟨?_, nofun⟩
    simp only [txRunStep] at hstep
    split at hstep
    · obtain rfl := Option.some.inj hstep
      rfl
    · split at hstep <;> cases hstep
      rfl
  | cpu copyErr =>
    obtain ⟨pc, hcall, rfl⟩ := Option.map_eq_some_iff.mp hstep
    cases pc with
    | copyin req => exact Or.inr ⟨⟨copyErr, rfl⟩, by rw [TxRunSys.writing, hcall], rfl⟩
    | desc length => exact Or.inr ⟨⟨copyErr, rfl⟩, by rw [TxRunSys.writing, hcall], rfl⟩
    | ring => exact Or.inl ⟨rfl, fun _ _ => by rw [TxRunSys.writing, hcall]⟩
    | poll postedIdx tries consumed =>
      refine Or.inl ⟨?_, fun _ _ => by rw [TxRunSys.writing, hcall]⟩
      simp only [TxRunSys.moved, TxRunSys.recorded]
      split
      · unfold TxRunSys.dequeued
        split <;> rfl
      · rfl
    | ack consumed txDone => exact Or.inl ⟨rfl, fun _ _ => by rw [TxRunSys.writing, hcall]⟩
  | complete upto =>
    refine Or.inl ⟨?_, nofun⟩
    simp only [txRunStep] at hstep
    split at hstep <;> cases hstep
    rfl
  | report upto w =>
    refine Or.inl ⟨?_, nofun⟩
    simp only [txRunStep] at hstep
    split at hstep <;> cases hstep
    rfl
  | event w =>
    refine Or.inl ⟨?_, nofun⟩
    simp only [txRunStep] at hstep
    split at hstep <;> cases hstep
    rfl

theorem TxRunSys.rung_of_writing {s : TxRunSys} (hwriting : s.writing = true) : s.rung = 0 := by
  unfold TxRunSys.writing at hwriting
  unfold TxRunSys.rung
  split at hwriting
  · rename_i hcall
    rw [hcall]
    rfl
  · rename_i hcall
    rw [hcall]
    rfl
  · cases hwriting

/-- The last descriptor in the slot at `tx_head` is the one posted 512 descriptors ago. -/
theorem TxRing.nextWrite_safe_iff {s : TxRunSys} (hring : TxRing s)
    (hwriting : s.writing = true) :
    s.nextWrite.Safe ↔ s.slots.length < s.completed + 512 := by
  have hhead := hring.head
  rw [s.rung_of_writing hwriting, Nat.add_zero, Nat.mod_eq_of_lt hring.headLt] at hhead
  constructor
  · intro hsafe
    by_contra hlap
    have hlt : s.slots.length - 512 < s.slots.length := by omega
    have hslot : s.slots[s.slots.length - 512]? = some s.sc.txHead := by
      rw [List.getElem?_eq_getElem hlt, Option.some.injEq]
      rw [hring.slotOf _ _ (List.getElem?_eq_getElem hlt), ← hhead]
      omega
    have hdone : s.slots.length - 512 < s.completed := hsafe _ hslot
    omega
  · intro hroom n hslot
    change s.slots[n]? = some s.sc.txHead at hslot
    obtain ⟨hlt, -⟩ := List.getElem?_eq_some_iff.mp hslot
    have hmod := hring.slotOf n _ hslot
    show n < s.completed
    omega

theorem neverOverwrites_step (s : TxRunSys) (l : TxRunLabel) (s' : TxRunSys)
    (hinv : TxRing s ∧ NeverOverwrites s) (hguard : LessThanALapUnfinished s l)
    (hstep : txRunStep s l = some s') : TxRing s' ∧ NeverOverwrites s' := by
  obtain ⟨hring, hsafe⟩ := hinv
  refine ⟨txRing_step s l s' hring hstep, ?_⟩
  unfold NeverOverwrites
  rcases txRunStep_writes hstep with ⟨hwrites, -⟩ | ⟨⟨copyErr, rfl⟩, hwriting, hwrites⟩
  · rw [hwrites]
    exact hsafe
  · rw [hwrites]
    intro w hw
    rcases List.mem_append.mp hw with hold | hnew
    · exact hsafe w hold
    · rw [List.mem_singleton.mp hnew]
      exact (hring.nextWrite_safe_iff hwriting).mpr (hguard hwriting)

theorem overwrites_of_lap (s : TxRunSys) (l : TxRunLabel) (s' : TxRunSys)
    (hinv : TxRing s ∧ NeverOverwrites s) (hguard : ¬ LessThanALapUnfinished s l)
    (hstep : txRunStep s l = some s') : ¬ NeverOverwrites s' := by
  rcases txRunStep_writes hstep with ⟨-, hquiet⟩ | ⟨⟨copyErr, rfl⟩, hwriting, hwrites⟩
  · cases l with
    | cpu copyErr =>
      obtain ⟨hwriting, -⟩ := Classical.not_imp.mp hguard
      rw [hquiet copyErr rfl] at hwriting
      cases hwriting
    | enter req => exact absurd trivial hguard
    | complete upto => exact absurd trivial hguard
    | report upto w => exact absurd trivial hguard
    | event w => exact absurd trivial hguard
  · obtain ⟨-, hlap⟩ := Classical.not_imp.mp hguard
    intro hsafe
    have hnew : s.nextWrite ∈ s'.writes := by
      rw [hwrites]
      exact List.mem_append_right _ (List.mem_singleton.mpr rfl)
    exact hlap ((hinv.1.nextWrite_safe_iff hwriting).mp (hsafe _ hnew))

/-- Over every run of transmit calls and every in-order sequence of completions, no slot
is overwritten in flight exactly if fewer than 512 descriptors are unfinished whenever the
handler writes. -/
theorem tx_never_overwrites_iff {s t : TxRunSys} {labels : List TxRunLabel}
    (hstart : TxRunStart s) (hrun : exec txRunStep s labels = some t) :
    Along txRunStep NeverOverwrites s labels ↔
      Obeys txRunStep LessThanALapUnfinished s labels := by
  have hnone : NeverOverwrites s := by
    intro w hw
    rw [hstart.noWrites] at hw
    cases hw
  exact along_iff_obeys neverOverwrites_step (fun _ hinv => hinv.2) overwrites_of_lap
    ⟨txRing_start hstart, hnone⟩ hrun

/-- The driver after attach, before any call. -/
def txRunAfterAttach : TxRunSys where
  sc := rxIoctlAfterAttach.sc
  call := none
  evqWptr := 0
  pending := []
  slots := []
  completed := 0
  reported := 0
  consumed := 0
  own := 0
  writes := []
  sent := []

theorem txRunStart_afterAttach : TxRunStart txRunAfterAttach where
  txHead := rfl
  readPtrLt := by decide
  vacant := fun _ _ => Or.inl rfl
  idle := rfl
  evqWptr := rfl
  nonePending := rfl
  nonePosted := rfl
  noneCompleted := rfl
  noneReported := rfl
  noneConsumed := rfl
  noWrites := rfl
  noneSent := rfl

/-- A packet of 64 bytes. -/
def packet64 : TxReq where
  tag := true
  permLoad := true
  capLen := 64
  length := 64
  bytes := fun _ => 0#8

/-- A call up to its first read of the event queue. -/
def sendPacket : List TxRunLabel := [.enter packet64, .cpu 0, .cpu 0, .cpu 0]

/-- A call whose completion is there when it polls, and the start of the next one. -/
def twoSends : List TxRunLabel :=
  sendPacket ++ [.complete 1, .report 1 0x2000000000000000#64, .cpu 0, .cpu 0] ++ sendPacket

theorem tx_never_overwrites_two_sends :
    ∃ t, exec txRunStep txRunAfterAttach twoSends = some t ∧ t.sc.txHead = 1 ∧
      Along txRunStep NeverOverwrites txRunAfterAttach twoSends :=
  ⟨_, rfl, rfl, (tx_never_overwrites_iff txRunStart_afterAttach rfl).mpr (by decide +kernel)⟩

/-! ### A card that finishes nothing -/

/-- `k` calls have timed out, and the card has neither finished nor written anything. -/
structure Stalled (k : Nat) (s : TxRunSys) : Prop where
  idle : s.call = none
  posted : s.slots.length = k
  completed : s.completed = 0
  silent : evqTake s.sc.dev.evqRing s.sc.dataEvqReadPtr = none

/-- The polling loop on a silent queue only counts its tries. -/
theorem exec_polls {s : TxRunSys} {postedIdx tries consumed : Nat} (n : Nat)
    (hcall : s.call = some (.poll postedIdx tries consumed))
    (hsilent : evqTake s.sc.dev.evqRing s.sc.dataEvqReadPtr = none)
    (hn : tries + n ≤ txTries) :
    exec txRunStep s (List.replicate n (.cpu 0)) =
      some { s with call := some (.poll postedIdx (tries + n) consumed) } := by
  induction n generalizing s tries with
  | zero =>
    rw [List.replicate_zero, exec_nil, Nat.add_zero, ← hcall]
  | succ n ih =>
    have hone : txRunStep s (.cpu 0) =
        some { s with call := some (.poll postedIdx (tries + 1) consumed) } := by
      rcases txIoctlStep_poll s.sc 0 postedIdx tries consumed with
        ⟨hover, -⟩ | ⟨-, -, hout⟩ | ⟨ev, evq, readPtr, -, htake, -⟩
      · omega
      · simp [txRunStep, hcall, TxRunSys.moved, TxRunSys.recorded, hsilent, hout]
      · rw [hsilent] at htake
        cases htake
    have hrest : exec txRunStep
        { s with call := some (.poll postedIdx (tries + 1) consumed) }
        (List.replicate n (.cpu 0)) =
          some { s with call := some (.poll postedIdx (tries + 1 + n) consumed) } :=
      ih rfl hsilent (by omega)
    rw [List.replicate_succ, exec_cons_of_some hone, hrest, Nat.add_right_comm, Nat.add_assoc]

/-- A call that times out. -/
def timeOut : List TxRunLabel :=
  sendPacket ++ (List.replicate txTries (.cpu 0) ++ [.cpu 0, .cpu 0])

theorem Stalled.progress (k : Nat) (s : TxRunSys) (_ : k < 512) (hst : Stalled k s) :
    ∃ labels s', exec txRunStep s labels = some s' ∧ Stalled (k + 1) s' := by
  have henter : txRunStep s (.enter packet64) =
      some { s with call := some (.copyin packet64) } := by
    simp [txRunStep, txReqError, packet64, hst.idle, txBufferSize]
  obtain ⟨u, hsend, hcall, hposted, hcompleted, hevq, hptr⟩ : ∃ u,
      exec txRunStep s sendPacket = some u ∧ u.call = some (.poll s.sc.txHead 0 0) ∧
        u.slots = s.slots ++ [s.sc.txHead] ∧ u.completed = s.completed ∧
        u.sc.dev.evqRing = s.sc.dev.evqRing ∧ u.sc.dataEvqReadPtr = s.sc.dataEvqReadPtr := by
    rw [sendPacket, exec_cons_of_some henter]
    exact ⟨_, rfl, rfl, rfl, rfl, rfl, rfl⟩
  have hsilent : evqTake u.sc.dev.evqRing u.sc.dataEvqReadPtr = none := by
    rw [hevq, hptr]
    exact hst.silent
  have hpolls := exec_polls txTries hcall hsilent (by omega)
  have hover : exec txRunStep { u with call := some (.poll s.sc.txHead (0 + txTries) 0) }
      [.cpu 0, .cpu 0] =
        some
          { u with
            sc := { u.sc with txHead := (u.sc.txHead + 1) &&& (numTxDesc - 1) }
            call := none } := by
    simp [exec, txRunStep, TxRunSys.moved, TxRunSys.recorded, txIoctlStep]
  refine ⟨timeOut, _, exec_append hsend (exec_append hpolls hover), rfl, ?_, ?_, hsilent⟩
  · show u.slots.length = k + 1
    rw [hposted, List.length_append, hst.posted]
    rfl
  · exact hcompleted.trans hst.completed

/-- After 512 timeouts the next call copies its packet into the slot of the first
descriptor, which the card has not finished. -/
theorem tx_overwrites_after_512_timeouts :
    ∃ labels t, exec txRunStep txRunAfterAttach labels = some t ∧ t.slots.length = 512 ∧
      t.completed = 0 ∧ ¬ NeverOverwrites t := by
  have hstart : Stalled 0 txRunAfterAttach := ⟨rfl, rfl, rfl, rfl⟩
  obtain ⟨labels, s, hrun, hst⟩ := exists_exec_of_progress Stalled.progress hstart
  have hring : TxRing s :=
    exec_invariant txRing_step (txRing_start txRunStart_afterAttach) hrun
  have henter : txRunStep s (.enter packet64) =
      some { s with call := some (.copyin packet64) } := by
    simp [txRunStep, txReqError, packet64, hst.idle, txBufferSize]
  have hentered : TxRing { s with call := some (.copyin packet64) } :=
    txRing_step s _ _ hring henter
  refine ⟨labels ++ [.enter packet64, .cpu 0],
    TxRunSys.moved { s with call := some (.copyin packet64) } 0 (.copyin packet64),
    exec_append hrun ?_, hst.posted, hst.completed, ?_⟩
  · rw [exec_cons_of_some henter]
    rfl
  · intro hsafe
    have hsafe' := hsafe (TxRunSys.nextWrite { s with call := some (.copyin packet64) })
      (List.mem_append_right _ (List.mem_singleton.mpr rfl))
    have hroom := (hentered.nextWrite_safe_iff rfl).mp hsafe'
    simp only [hst.posted, hst.completed] at hroom
    omega

end Kernel
end SfcCapio
