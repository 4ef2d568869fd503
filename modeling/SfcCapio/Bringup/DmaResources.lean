import Mathlib.Data.List.Count
import Mathlib.Logic.Function.Basic
import SfcCapio.Foundation.Fallible

/-!
# The DMA buffers of the driver

`sfc7120_alloc_dma_resources` makes seven DMA buffers one after the other, each by a tag,
a memory block under the tag and a mapping of the block; a failure of one of the first six
leaves through the labels, which free the earlier ones.  The seventh, for the MAC
statistics, may fail without harm, and `sfc7120_free_dma_resources` does not free it.

The calls of `bus_dma` that had an effect are logged in order.  One call of
`sfc7120_alloc_dma_resources` makes each buffer at most once, so the tag, the block and the
mapping are named by their buffer.
-/

namespace SfcCapio
namespace Bringup
namespace Dma

open Foundation

/-- The buffers, in the order they are allocated. -/
inductive Buffer
  | evqRing
  | dataEvqRing
  | txDescRing
  | rxDescRing
  | txBuffer
  | rxBuffer
  | stats
  deriving DecidableEq, Repr

/-- What `bus_dma` hands out for a buffer. -/
inductive Object
  | tag
  | memory
  | mapping
  deriving DecidableEq, Repr

/-- A call of `bus_dma` that had an effect. -/
inductive Call
  | create (o : Object) (b : Buffer)
  | release (o : Object) (b : Buffer)
  deriving DecidableEq, Repr

def Call.buffer : Call → Buffer
  | create _ b => b
  | release _ b => b

/-- The four fields of the softc for one buffer.  `dmamap` is valid exactly while the
block is allocated and is not read otherwise; it has no field of its own here. -/
structure Fields where
  /-- `dtag != NULL` -/
  dtag : Bool
  /-- `vaddr != NULL` -/
  vaddr : Bool
  paddr : Nat
  deriving DecidableEq, Repr

/-- What the three calls for one buffer return, and the first segment the callback of the
load is given; there is none if it is told an error, or not called. -/
structure Outcome where
  tagCreate : Nat
  memAlloc : Nat
  load : Nat
  segment : Option Nat
  deriving DecidableEq, Repr

structure State where
  fields : Buffer → Fields
  calls : List Call

/-- The softc is zeroed before attach. -/
def State.start : State :=
  { fields := fun _ => { dtag := false, vaddr := false, paddr := 0 }, calls := [] }

def State.call (s : State) (c : Call) : State := { s with calls := s.calls ++ [c] }

def State.set (s : State) (b : Buffer) (f : Fields → Fields) : State :=
  { s with fields := Function.update s.fields b (f (s.fields b)) }

/-! ## The source's functions -/

/-- `sfc7120_dma_cb` -/
def dmaCb (segment : Option Nat) : Nat := segment.getD 0

def enomem : Nat := 12

/-- `bus_dmamap_load`: a mapping is made if the call returns 0 and has segments to give. -/
def dmamapLoad (o : Outcome) (b : Buffer) (s : State) : State :=
  (if o.load = 0 ∧ o.segment.isSome then s.call (.create .mapping b) else s).set b
    fun f => { f with paddr := dmaCb o.segment }

/-- `sfc7120_alloc_dmabuf` -/
def allocDmabuf (o : Outcome) (b : Buffer) : Action State Nat := fun s =>
  if o.tagCreate ≠ 0 then (some o.tagCreate, s)
  else
    let s := (s.call (.create .tag b)).set b fun f => { f with dtag := true }
    if o.memAlloc ≠ 0 then
      (some o.memAlloc, (s.call (.release .tag b)).set b fun f => { f with dtag := false })
    else
      let s := (s.call (.create .memory b)).set b fun f => { f with vaddr := true, paddr := 0 }
      let s := dmamapLoad o b s
      if o.load ≠ 0 ∨ (s.fields b).paddr = 0 then
        -- neither branch unloads: the source takes both for a load that failed
        (some (if o.load ≠ 0 then o.load else enomem),
          ((s.call (.release .memory b)).call (.release .tag b)).set b
            fun f => { f with vaddr := false, dtag := false })
      else (none, s)

/-- `sfc7120_free_dmabuf` -/
def freeDmabuf (b : Buffer) (s : State) : State :=
  let s := if (s.fields b).paddr ≠ 0 then
      (s.call (.release .mapping b)).set b fun f => { f with paddr := 0 }
    else s
  let s := if (s.fields b).vaddr then
      (s.call (.release .memory b)).set b fun f => { f with vaddr := false }
    else s
  if (s.fields b).dtag then
    (s.call (.release .tag b)).set b fun f => { f with dtag := false }
  else s

/-! The labels, from the last one up; each falls through to the next. -/

def failEvq (s : State) : State := freeDmabuf .evqRing s
def failDataEvq (s : State) : State := failEvq (freeDmabuf .dataEvqRing s)
def failTxd (s : State) : State := failDataEvq (freeDmabuf .txDescRing s)
def failRxd (s : State) : State := failTxd (freeDmabuf .rxDescRing s)
def failTxb (s : State) : State := failRxd (freeDmabuf .txBuffer s)

/-- The MAC statistics buffer: a failure is only printed. -/
def allocStats (o : Outcome) : Action State Nat := fun s =>
  match allocDmabuf o .stats s with
  | (none, s) => (none, s)
  | (some _, s) => (none, s.set .stats fun f => { f with vaddr := false })

/-- `sfc7120_alloc_dma_resources` -/
def allocDmaResources (o : Buffer → Outcome) : Action State Nat :=
  (allocDmabuf (o .evqRing) .evqRing).andThen id <|
  (allocDmabuf (o .dataEvqRing) .dataEvqRing).andThen failEvq <|
  (allocDmabuf (o .txDescRing) .txDescRing).andThen failDataEvq <|
  (allocDmabuf (o .rxDescRing) .rxDescRing).andThen failTxd <|
  (allocDmabuf (o .txBuffer) .txBuffer).andThen failRxd <|
  (allocDmabuf (o .rxBuffer) .rxBuffer).andThen failTxb <|
  allocStats (o .stats)

/-- `sfc7120_free_dma_resources` -/
def freeDmaResources (s : State) : State :=
  freeDmabuf .evqRing <|
  freeDmabuf .dataEvqRing <|
  freeDmabuf .txDescRing <|
  freeDmabuf .rxDescRing <|
  freeDmabuf .txBuffer <|
  freeDmabuf .rxBuffer s

/-! ## What balance means -/

/-- Every object made for the buffer is released once, the mapping before the block and the
block before the tag. -/
def Balanced (calls : List Call) (b : Buffer) : Prop :=
  (∀ o, calls.count (.release o b) = calls.count (.create o b) ∧
    calls.count (.create o b) ≤ 1) ∧
  calls.Pairwise (fun earlier later =>
    ¬ (earlier = .release .memory b ∧ later = .release .mapping b)) ∧
  calls.Pairwise (fun earlier later =>
    ¬ (earlier = .release .tag b ∧ later = .release .memory b))

theorem Object.forall_iff {p : Object → Prop} :
    (∀ o, p o) ↔ p .tag ∧ p .memory ∧ p .mapping :=
  ⟨fun h => ⟨h _, h _, h _⟩, fun ⟨htag, hmemory, hmapping⟩ o => by cases o <;> assumption⟩

instance (p : Object → Prop) [DecidablePred p] : Decidable (∀ o, p o) :=
  decidable_of_iff _ Object.forall_iff.symm

instance (calls : List Call) (b : Buffer) : Decidable (Balanced calls b) :=
  inferInstanceAs (Decidable (_ ∧ _ ∧ _))

/-- After an error of `sfc7120_alloc_dma_resources`, and after its success followed by
`sfc7120_free_dma_resources`, every buffer is balanced. -/
def AllocationsBalance (o : Buffer → Outcome) : Prop :=
  match allocDmaResources o State.start with
  | (some _, s) => ∀ b, Balanced s.calls b
  | (none, s) => ∀ b, Balanced (freeDmaResources s).calls b

/-- The calls for one buffer. -/
def State.callsFor (s : State) (b : Buffer) : List Call := s.calls.filter (·.buffer = b)

/-- Calls for other buffers do not matter to the balance of `b`. -/
theorem balanced_callsFor (s : State) (b : Buffer) :
    Balanced (s.callsFor b) b ↔ Balanced s.calls b := by
  have hcount : ∀ c : Call, c.buffer = b → (s.callsFor b).count c = s.calls.count c := by
    intro c hc
    exact List.count_filter (by simpa using hc)
  have hpairwise : ∀ x y : Call, x.buffer = b → y.buffer = b →
      ((s.callsFor b).Pairwise (fun p q => ¬ (p = x ∧ q = y)) ↔
        s.calls.Pairwise fun p q => ¬ (p = x ∧ q = y)) := by
    intro x y hx hy
    rw [State.callsFor, List.pairwise_filter]
    refine List.Pairwise.iff_of_mem fun {p q} _ _ => ?_
    constructor
    · rintro h ⟨rfl, rfl⟩
      exact h (by simpa using hx) (by simpa using hy) ⟨rfl, rfl⟩
    · intro h _ _
      exact h
  have hobjects : ∀ o, (s.callsFor b).count (.release o b) = s.calls.count (.release o b) ∧
      (s.callsFor b).count (.create o b) = s.calls.count (.create o b) := fun o =>
    ⟨hcount _ rfl, hcount _ rfl⟩
  have hrelease : ∀ o, Call.buffer (.release o b) = b := fun _ => rfl
  simp only [Balanced, hobjects, hpairwise _ _ (hrelease .memory) (hrelease .mapping),
    hpairwise _ _ (hrelease .tag) (hrelease .memory)]

/-! ## What one call does to one buffer -/

@[simp] theorem callsFor_call (s : State) (c : Call) (b : Buffer) :
    (s.call c).callsFor b = if c.buffer = b then s.callsFor b ++ [c] else s.callsFor b := by
  by_cases hc : c.buffer = b
  · simp [State.callsFor, State.call, hc]
  · simp [State.callsFor, State.call, hc]

@[simp] theorem callsFor_set (s : State) (b b' : Buffer) (f : Fields → Fields) :
    (s.set b f).callsFor b' = s.callsFor b' := rfl

@[simp] theorem fields_call (s : State) (c : Call) : (s.call c).fields = s.fields := rfl

@[simp] theorem fields_set_self (s : State) (b : Buffer) (f : Fields → Fields) :
    (s.set b f).fields b = f (s.fields b) := Function.update_self ..

variable {b b' : Buffer}

theorem fields_set_of_ne (hne : b' ≠ b) (s : State) (f : Fields → Fields) :
    (s.set b f).fields b' = s.fields b' := Function.update_of_ne hne ..

/-- Nothing about another buffer changes. -/
def SameElsewhere (b : Buffer) (s s' : State) : Prop :=
  ∀ b', b' ≠ b → s'.callsFor b' = s.callsFor b' ∧ s'.fields b' = s.fields b'

theorem SameElsewhere.refl (b : Buffer) (s : State) : SameElsewhere b s s :=
  fun _ _ => ⟨rfl, rfl⟩

theorem SameElsewhere.call (h : SameElsewhere b s s') {c : Call}
    (hc : c.buffer = b) : SameElsewhere b s (s'.call c) := by
  intro b' hne
  have hother : c.buffer ≠ b' := fun h => hne (h.symm.trans hc)
  rw [callsFor_call, if_neg hother]
  exact h b' hne

theorem SameElsewhere.set (h : SameElsewhere b s s')
    (f : Fields → Fields) : SameElsewhere b s (s'.set b f) := by
  intro b' hne
  rw [callsFor_set, fields_set_of_ne hne]
  exact h b' hne

theorem SameElsewhere.ite {s s₁ s₂ : State} {c : Prop} [Decidable c] (h₁ : SameElsewhere b s s₁)
    (h₂ : SameElsewhere b s s₂) :
    SameElsewhere b s (if c then s₁ else s₂) := by
  by_cases hc : c
  · rw [if_pos hc]
    exact h₁
  · rw [if_neg hc]
    exact h₂

/-- All three objects are made and a bus address is known. -/
def Outcome.Succeeds (o : Outcome) : Prop :=
  o.tagCreate = 0 ∧ o.memAlloc = 0 ∧ o.load = 0 ∧ dmaCb o.segment ≠ 0

/-- All three objects are made, the mapping at bus address 0. -/
def Outcome.LoadsAtZero (o : Outcome) : Prop :=
  o.tagCreate = 0 ∧ o.memAlloc = 0 ∧ o.load = 0 ∧ o.segment = some 0

instance : DecidablePred Outcome.Succeeds := fun _ => inferInstanceAs (Decidable (_ ∧ _))

instance : DecidablePred Outcome.LoadsAtZero := fun _ => inferInstanceAs (Decidable (_ ∧ _))

/-- Where a buffer is: not tried yet, allocated, all its objects released, or released
with its mapping left. -/
inductive Stage
  | fresh
  | held
  | settled
  | unmapped
  deriving DecidableEq, Repr

/-- The three calls of an allocation. -/
def acquire (b : Buffer) : List Call :=
  [.create .tag b, .create .memory b, .create .mapping b]

/-- The calls for the buffer, and its fields while it is allocated. -/
def Stage.Fits (b : Buffer) (f : Fields) (calls : List Call) : Stage → Prop
  | fresh => calls = []
  | held => calls = acquire b ∧ f.dtag = true ∧ f.vaddr = true ∧ f.paddr ≠ 0
  | settled => Balanced calls b
  | unmapped => calls = acquire b ++ [.release .memory b, .release .tag b]

/-- Only an allocated buffer has something to say about its fields. -/
theorem Stage.Fits.fields_irrel {f : Fields} {calls : List Call} {stage : Stage}
    (hfits : stage.Fits b f calls) (hstage : stage ≠ .held) (f' : Fields) :
    stage.Fits b f' calls := by
  cases stage with
  | fresh => exact hfits
  | held => exact absurd rfl hstage
  | settled => exact hfits
  | unmapped => exact hfits

/-- Every buffer is at its stage. -/
def At (stage : Buffer → Stage) (s : State) : Prop :=
  ∀ b, (stage b).Fits b (s.fields b) (s.callsFor b)

/-- Where an allocation that was tried leaves its buffer. -/
def Outcome.stage (o : Outcome) : Stage :=
  if o.Succeeds then .held else if o.LoadsAtZero then .unmapped else .settled

theorem stage_of_settled {o : Outcome} (hfails : ¬ o.Succeeds) (hzero : ¬ o.LoadsAtZero) :
    o.stage = .settled := by
  rw [Outcome.stage, if_neg hfails, if_neg hzero]

theorem stage_ne_held {o : Outcome} (hfails : ¬ o.Succeeds) : o.stage ≠ .held := by
  rw [Outcome.stage, if_neg hfails]
  split <;> simp

/-- The traces of a buffer that is at rest. -/
theorem balanced_of_tag (b : Buffer) : Balanced [.create .tag b, .release .tag b] b := by
  cases b <;> decide

theorem balanced_of_memory (b : Buffer) :
    Balanced [.create .tag b, .create .memory b, .release .memory b, .release .tag b] b := by
  cases b <;> decide

theorem balanced_of_mapping (b : Buffer) :
    Balanced (acquire b ++ [.release .mapping b, .release .memory b, .release .tag b]) b := by
  cases b <;> decide

theorem not_balanced_acquire (b : Buffer) : ¬ Balanced (acquire b) b := by
  cases b <;> decide

theorem not_balanced_unmapped (b : Buffer) :
    ¬ Balanced (acquire b ++ [.release .memory b, .release .tag b]) b := by
  cases b <;> decide

theorem Stage.Fits.balanced_iff {f : Fields} {calls : List Call} {stage : Stage}
    (hfits : stage.Fits b f calls) :
    Balanced calls b ↔ stage = .fresh ∨ stage = .settled := by
  cases stage with
  | fresh =>
    have hcalls : calls = [] := hfits
    subst hcalls
    exact iff_of_true (by simp [Balanced]) (Or.inl rfl)
  | held =>
    have hcalls : calls = acquire b := hfits.1
    subst hcalls
    exact iff_of_false (not_balanced_acquire b) (by simp)
  | settled => exact iff_of_true hfits (Or.inr rfl)
  | unmapped =>
    have hcalls : calls = acquire b ++ [.release .memory b, .release .tag b] := hfits
    subst hcalls
    exact iff_of_false (not_balanced_unmapped b) (by simp)

theorem At.balanced_iff {stage : Buffer → Stage} (hat : At stage s) :
    (∀ b, Balanced s.calls b) ↔ ∀ b, stage b = .fresh ∨ stage b = .settled := by
  refine forall_congr' fun b => ?_
  rw [← balanced_callsFor]
  exact (hat b).balanced_iff

theorem allocDmabuf_elsewhere (o : Outcome) (b : Buffer) (s : State) :
    SameElsewhere b s (allocDmabuf o b s).2 := by
  have htag : SameElsewhere b s ((s.call (.create .tag b)).set b
      fun f => { f with dtag := true }) := ((SameElsewhere.refl b s).call rfl).set _
  have hmemory := (htag.call (c := .create .memory b) rfl).set
    fun f => { f with vaddr := true, paddr := 0 }
  have hload := ((hmemory.call (c := .create .mapping b) rfl).ite hmemory
    (c := o.load = 0 ∧ o.segment.isSome)).set fun f => { f with paddr := dmaCb o.segment }
  unfold allocDmabuf
  dsimp only
  split
  · exact SameElsewhere.refl b s
  split
  · exact (htag.call rfl).set _
  split
  · exact ((hload.call rfl).call rfl).set _
  · exact hload

theorem allocDmabuf_self (o : Outcome) (hfresh : s.callsFor b = []) :
    ((allocDmabuf o b s).1 = none ↔ o.Succeeds) ∧
      o.stage.Fits b ((allocDmabuf o b s).2.fields b) ((allocDmabuf o b s).2.callsFor b) := by
  by_cases htag : o.tagCreate = 0
  swap
  · have hsettled : o.stage = .settled :=
      stage_of_settled (fun h => htag h.1) (fun h => htag h.1)
    simp [allocDmabuf, htag, hsettled, Stage.Fits, hfresh, Outcome.Succeeds, Balanced]
  by_cases hmem : o.memAlloc = 0
  swap
  · have hsettled : o.stage = .settled :=
      stage_of_settled (fun h => hmem h.2.1) (fun h => hmem h.2.1)
    simpa [allocDmabuf, htag, hmem, hsettled, Stage.Fits, hfresh, Outcome.Succeeds, Call.buffer]
      using balanced_of_tag b
  by_cases hload : o.load = 0
  swap
  · have hsettled : o.stage = .settled :=
      stage_of_settled (fun h => hload h.2.2.1) (fun h => hload h.2.2.1)
    simpa [allocDmabuf, dmamapLoad, htag, hmem, hload, hsettled, Stage.Fits, hfresh,
      Outcome.Succeeds, Call.buffer] using balanced_of_memory b
  rcases hsegment : o.segment with _ | p
  · have hsettled : o.stage = .settled :=
      stage_of_settled (by simp [Outcome.Succeeds, hsegment, dmaCb])
        (by simp [Outcome.LoadsAtZero, hsegment])
    simpa [allocDmabuf, dmamapLoad, htag, hmem, hload, hsegment, hsettled, Stage.Fits, hfresh,
      Outcome.Succeeds, Call.buffer, dmaCb] using balanced_of_memory b
  by_cases hzero : p = 0
  · have hstage : o.stage = .unmapped := by
      simp [Outcome.stage, Outcome.Succeeds, Outcome.LoadsAtZero, htag, hmem, hload, hsegment,
        hzero, dmaCb]
    simp [allocDmabuf, dmamapLoad, htag, hmem, hload, hsegment, hzero, hstage, Stage.Fits,
      hfresh, Outcome.Succeeds, Call.buffer, dmaCb, acquire]
  · have hstage : o.stage = .held := by
      simp [Outcome.stage, Outcome.Succeeds, htag, hmem, hload, hsegment, hzero, dmaCb]
    simp [allocDmabuf, dmamapLoad, htag, hmem, hload, hsegment, hzero, hstage, Stage.Fits,
      hfresh, Outcome.Succeeds, Call.buffer, dmaCb, acquire]

theorem SameElsewhere.release (h : SameElsewhere b s s') (c : Prop) [Decidable c] (o : Object)
    (f : Fields → Fields) :
    SameElsewhere b s (if c then (s'.call (.release o b)).set b f else s') :=
  ((h.call rfl).set f).ite h

theorem freeDmabuf_elsewhere (b : Buffer) (s : State) : SameElsewhere b s (freeDmabuf b s) :=
  (((SameElsewhere.refl b s).release _ .mapping _).release _ .memory _).release _ .tag _

theorem freeDmabuf_self (hheld : Stage.held.Fits b (s.fields b) (s.callsFor b)) :
    Balanced ((freeDmabuf b s).callsFor b) b := by
  obtain ⟨hcalls, hdtag, hvaddr, hpaddr⟩ := hheld
  simpa [freeDmabuf, hpaddr, hvaddr, hdtag, hcalls, Call.buffer] using balanced_of_mapping b

/-! ## The whole allocation -/

/-- The place of a buffer in the order of allocation. -/
def Buffer.rank : Buffer → Nat
  | evqRing => 0
  | dataEvqRing => 1
  | txDescRing => 2
  | rxDescRing => 3
  | txBuffer => 4
  | rxBuffer => 5
  | stats => 6

theorem Buffer.rank_injective (h : b.rank = b'.rank) : b = b' := by
  cases b <;> cases b' <;> first | rfl | exact absurd h (by decide)

/-- The first `j` buffers are allocated, those up to `k` are free again, buffer `k` is where
its own attempt left it, and the rest was not tried. -/
def progress (o : Buffer → Outcome) (j k : Nat) (b : Buffer) : Stage :=
  if b.rank < j then .held
  else if b.rank < k then .settled
  else if b.rank = k then (o b).stage
  else .fresh

/-- The first `k` buffers are allocated and the rest was not tried. -/
def allocated (k : Nat) (b : Buffer) : Stage := if b.rank < k then .held else .fresh

variable {o : Buffer → Outcome} {b : Buffer} {s : State}

/-- A step that concerns one buffer moves that buffer alone. -/
theorem At.move {stage stage' : Buffer → Stage} (hat : At stage s) (hsame : SameElsewhere b s s')
    (hstage : ∀ b', b' ≠ b → stage' b' = stage b')
    (hself : (stage' b).Fits b (s'.fields b) (s'.callsFor b)) : At stage' s' := by
  intro b'
  by_cases hne : b' = b
  · subst hne
    exact hself
  · rw [(hsame b' hne).1, (hsame b' hne).2, hstage b' hne]
    exact hat b'

/-- One attempt: it goes on with one buffer more, or stops with what it left. -/
theorem alloc_step (o : Buffer → Outcome) (b : Buffer) :
    Triple (At (allocated b.rank)) (allocDmabuf (o b) b)
      (fun s => At (allocated (b.rank + 1)) s ∧ (o b).Succeeds)
      (fun _ s => At (progress o b.rank b.rank) s ∧ ¬ (o b).Succeeds) := by
  intro s hat
  have hfresh : s.callsFor b = [] := by
    have hself := hat b
    rw [allocated, if_neg (Nat.lt_irrefl _)] at hself
    exact hself
  obtain ⟨hnone, hfits⟩ := allocDmabuf_self (o b) hfresh
  have hsame := allocDmabuf_elsewhere (o b) b s
  cases hout : allocDmabuf (o b) b s with
  | mk err s' =>
    rw [hout] at hnone hfits hsame
    cases err with
    | none =>
      have hsucceeds := hnone.mp rfl
      refine ⟨hat.move hsame ?_ ?_, hsucceeds⟩
      · intro b' hne
        have hrank : b'.rank ≠ b.rank := fun h => hne (Buffer.rank_injective h)
        simp only [allocated, show b'.rank < b.rank + 1 ↔ b'.rank < b.rank by omega]
      · rw [allocated, if_pos (Nat.lt_succ_self _)]
        rw [Outcome.stage, if_pos hsucceeds] at hfits
        exact hfits
    | some e =>
      refine ⟨hat.move hsame ?_ ?_, fun h => nomatch hnone.mpr h⟩
      · intro b' hne
        have hrank : b'.rank ≠ b.rank := fun h => hne (Buffer.rank_injective h)
        simp only [allocated, progress, if_neg hrank]
        split <;> rfl
      · rw [progress, if_neg (Nat.lt_irrefl _), if_neg (Nat.lt_irrefl _), if_pos rfl]
        exact hfits

/-- One label: the last buffer that is still allocated is released. -/
theorem free_step (hrank : b.rank < k) (hat : At (progress o (b.rank + 1) k) s) :
    At (progress o b.rank k) (freeDmabuf b s) := by
  refine hat.move (freeDmabuf_elsewhere b s) ?_ ?_
  · intro b' hne
    have hother : b'.rank ≠ b.rank := fun h => hne (Buffer.rank_injective h)
    simp only [progress, show b'.rank < b.rank + 1 ↔ b'.rank < b.rank by omega]
  · have hself := hat b
    rw [progress, if_pos (Nat.lt_succ_self _)] at hself
    rw [progress, if_neg (Nat.lt_irrefl _), if_pos hrank]
    exact freeDmabuf_self hself

/-- The labels, each from the buffers that are allocated when it is reached. -/
theorem failEvq_settles (hk : 1 ≤ k) (hat : At (progress o 1 k) s) :
    At (progress o 0 k) (failEvq s) :=
  free_step (b := .evqRing) hk hat

theorem failDataEvq_settles (hk : 2 ≤ k) (hat : At (progress o 2 k) s) :
    At (progress o 0 k) (failDataEvq s) :=
  failEvq_settles (Nat.le_of_succ_le hk) (free_step (b := .dataEvqRing) hk hat)

theorem failTxd_settles (hk : 3 ≤ k) (hat : At (progress o 3 k) s) :
    At (progress o 0 k) (failTxd s) :=
  failDataEvq_settles (Nat.le_of_succ_le hk) (free_step (b := .txDescRing) hk hat)

theorem failRxd_settles (hk : 4 ≤ k) (hat : At (progress o 4 k) s) :
    At (progress o 0 k) (failRxd s) :=
  failTxd_settles (Nat.le_of_succ_le hk) (free_step (b := .rxDescRing) hk hat)

theorem failTxb_settles (hk : 5 ≤ k) (hat : At (progress o 5 k) s) :
    At (progress o 0 k) (failTxb s) :=
  failRxd_settles (Nat.le_of_succ_le hk) (free_step (b := .txBuffer) hk hat)

/-- The labels and `sfc7120_free_dma_resources` free in the same order. -/
theorem freeDmaResources_settles (hk : 6 ≤ k) (hat : At (progress o 6 k) s) :
    At (progress o 0 k) (freeDmaResources s) := by
  have hsame : freeDmaResources s = failTxb (freeDmabuf .rxBuffer s) := by
    rw [failTxb, failRxd, failTxd, failDataEvq, failEvq, freeDmaResources]
  rw [hsame]
  exact failTxb_settles (Nat.le_of_succ_le hk) (free_step (b := .rxBuffer) hk hat)

/-- Every buffer before `b` was allocated. -/
def Reached (o : Buffer → Outcome) (b : Buffer) : Prop :=
  ∀ b', b'.rank < b.rank → (o b').Succeeds

/-- The last attempt of the call was the one for `b`, which failed unless `b` is the buffer
for the statistics. -/
def EndedAt (o : Buffer → Outcome) (b : Buffer) : Prop :=
  Reached o b ∧ (b = .stats ∨ ¬ (o b).Succeeds)

/-- All buffers but the last one tried are free again. -/
def Ended (o : Buffer → Outcome) (s : State) : Prop :=
  ∃ b, EndedAt o b ∧ At (progress o 0 b.rank) s

theorem Reached.next (hreached : Reached o b) (hsucceeds : (o b).Succeeds)
    (hrank : b'.rank = b.rank + 1) : Reached o b' := by
  intro b'' hlt
  rcases Nat.lt_or_eq_of_le (Nat.le_of_lt_succ (hrank ▸ hlt)) with hlt | heq
  · exact hreached b'' hlt
  · rw [Buffer.rank_injective heq]
    exact hsucceeds

/-- One attempt and its label, in front of the attempts that follow. -/
theorem alloc_andThen (b b' : Buffer) {unwind : State → State} {rest : Action State Nat}
    {Q : State → Prop} (hrank : b'.rank = b.rank + 1)
    (hunwind : ∀ s, At (progress o b.rank b.rank) s → At (progress o 0 b.rank) (unwind s))
    (hrest : Reached o b' → Triple (At (allocated b'.rank)) rest Q (fun _ => Ended o))
    (hreached : Reached o b) :
    Triple (At (allocated b.rank)) ((allocDmabuf (o b) b).andThen unwind rest) Q
      (fun _ => Ended o) := by
  refine Triple.andThen (alloc_step o b) ?_ ?_
  · rintro e s ⟨hat, hfailed⟩
    exact ⟨b, ⟨hreached, Or.inr hfailed⟩, hunwind s hat⟩
  · rintro s ⟨hat, hsucceeds⟩
    rw [← hrank] at hat
    exact hrest (hreached.next hsucceeds hrank) s hat

theorem allocStats_spec (o : Buffer → Outcome) {R : Nat → State → Prop} :
    Triple (At (allocated 6)) (allocStats (o .stats)) (At (progress o 6 6)) R := by
  intro s hat
  have hpost := alloc_step o .stats s hat
  unfold allocStats
  cases hout : allocDmabuf (o .stats) .stats s with
  | mk err s' =>
    rw [hout] at hpost
    cases err with
    | none =>
      obtain ⟨hat', hsucceeds⟩ := hpost
      have hstage : progress o 6 6 = allocated 7 := by
        funext b
        cases b <;> simp [progress, allocated, Buffer.rank, Outcome.stage, hsucceeds]
      change At (progress o 6 6) s'
      rw [hstage]
      exact hat'
    | some e =>
      obtain ⟨hat', hfailed⟩ := hpost
      refine hat'.move ((SameElsewhere.refl .stats s').set _) (fun _ _ => rfl) ?_
      have hself : (o .stats).stage.Fits .stats (s'.fields .stats) (s'.callsFor .stats) :=
        hat' .stats
      exact hself.fields_irrel (stage_ne_held hfailed) _

theorem allocDmaResources_spec (o : Buffer → Outcome) :
    Triple (At (allocated 0)) (allocDmaResources o)
      (fun s => At (progress o 6 6) s ∧ Reached o .stats) (fun _ => Ended o) := by
  refine alloc_andThen .evqRing .dataEvqRing rfl (fun _ hat => hat) ?_
    (fun _ hlt => absurd hlt (Nat.not_lt_zero _))
  refine alloc_andThen .dataEvqRing .txDescRing rfl
    (fun _ => failEvq_settles (Nat.le_refl _)) ?_
  refine alloc_andThen .txDescRing .rxDescRing rfl
    (fun _ => failDataEvq_settles (Nat.le_refl _)) ?_
  refine alloc_andThen .rxDescRing .txBuffer rfl
    (fun _ => failTxd_settles (Nat.le_refl _)) ?_
  refine alloc_andThen .txBuffer .rxBuffer rfl
    (fun _ => failRxd_settles (Nat.le_refl _)) ?_
  refine alloc_andThen .rxBuffer .stats rfl
    (fun _ => failTxb_settles (Nat.le_refl _)) ?_
  intro hreached s hat
  have hpost := allocStats_spec o (R := fun _ => Ended o) s hat
  cases hout : allocStats (o .stats) s with
  | mk err s' =>
    rw [hout] at hpost
    cases err with
    | none => exact ⟨hpost, hreached⟩
    | some e => exact hpost

theorem at_start : At (allocated 0) State.start := by
  intro b
  rw [allocated, if_neg (Nat.not_lt_zero _)]
  rfl

/-- The balance depends on the last buffer tried alone. -/
theorem Ended.balanced_iff (hended : Ended o s) :
    (∀ b, Balanced s.calls b) ↔
      ∃ b, Reached o b ∧ ¬ (o b).Succeeds ∧ ¬ (o b).LoadsAtZero := by
  obtain ⟨b, ⟨hreached, hlast⟩, hat⟩ := hended
  have hself : progress o 0 b.rank b = (o b).stage := by
    simp [progress]
  rw [hat.balanced_iff]
  constructor
  · intro hrest
    have hstage := hrest b
    rw [hself, Outcome.stage] at hstage
    by_cases hsucceeds : (o b).Succeeds
    · simp [hsucceeds] at hstage
    by_cases hzero : (o b).LoadsAtZero
    · simp [hsucceeds, hzero] at hstage
    · exact ⟨b, hreached, hsucceeds, hzero⟩
  · rintro ⟨b₀, hreached₀, hfails, hzero⟩
    have hsame : b₀ = b := by
      rcases Nat.lt_trichotomy b₀.rank b.rank with hlt | heq | hgt
      · exact absurd (hreached b₀ hlt) hfails
      · exact Buffer.rank_injective heq
      · rcases hlast with rfl | hfailed
        · cases b₀ <;> exact absurd hgt (by decide)
        · exact absurd (hreached₀ b hgt) hfailed
    subst hsame
    intro b'
    by_cases hlt : b'.rank < b₀.rank
    · exact Or.inr (by simp [progress, hlt])
    by_cases heq : b'.rank = b₀.rank
    · rw [Buffer.rank_injective heq, hself, stage_of_settled hfails hzero]
      exact Or.inr rfl
    · exact Or.inl (by simp [progress, hlt, heq])

/-- The DMA objects of a call are all released, in order, exactly if some buffer could not
be allocated, the first of them for another reason than a load at bus address 0. -/
theorem dma_allocations_balance_iff (o : Buffer → Outcome) :
    AllocationsBalance o ↔
      ∃ b, Reached o b ∧ ¬ (o b).Succeeds ∧ ¬ (o b).LoadsAtZero := by
  have hpost := allocDmaResources_spec o State.start at_start
  unfold AllocationsBalance
  cases hout : allocDmaResources o State.start with
  | mk err s =>
    rw [hout] at hpost
    cases err with
    | none =>
      obtain ⟨hat, hreached⟩ := hpost
      have hended : Ended o (freeDmaResources s) :=
        ⟨.stats, ⟨hreached, Or.inl rfl⟩, freeDmaResources_settles (Nat.le_refl _) hat⟩
      exact hended.balanced_iff
    | some e => exact Ended.balanced_iff hpost

theorem AllocationsBalance.of_success (hbalance : AllocationsBalance o)
    (hsuccess : (allocDmaResources o State.start).1 = none) (b : Buffer) :
    Balanced (freeDmaResources (allocDmaResources o State.start).2).calls b := by
  unfold AllocationsBalance at hbalance
  cases hout : allocDmaResources o State.start with
  | mk err s =>
    rw [hout] at hbalance hsuccess
    cases hsuccess
    exact hbalance b

/-- All three calls return 0, with a segment at the given address. -/
def loadedAt (paddr : Nat) : Outcome :=
  { tagCreate := 0, memAlloc := 0, load := 0, segment := some paddr }

/-- Every call succeeds: the tag of the statistics buffer is made and never destroyed. -/
theorem stats_buffer_not_released : ¬ AllocationsBalance fun _ => loadedAt 0x80000000 := by
  intro hbalance
  have hstats := hbalance.of_success (by decide +kernel) .stats
  exact absurd hstats (by decide +kernel)

end Dma
end Bringup
end SfcCapio
