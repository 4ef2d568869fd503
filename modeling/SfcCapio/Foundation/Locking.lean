import Mathlib.Logic.Function.Basic
import SfcCapio.Foundation.Runs

/-!
# Threads that share one mutex

A program says for every position which operation stands there: take the mutex, release
it, work on the shared state, or return.  Any number of threads run it, and between any two
of their steps the shared state may be changed from outside.

* `Marking` is the usual discipline, checked on the program alone: every position either has
  the mutex or has it not.  A run then keeps `Owned`: the thread at a marked position is the
  owner, so there is at most one, and a thread that has returned is not.
* `Owned.progress`: a thread that has not returned can move, or waits for one that can.
* `Keeps` is the invariant rule, with one part for the shared state and one for each thread.
* `Bounded` adds a measure; whatever the others do, a thread cannot move more often than
  its measure says, and once it has the mutex it runs to its return (`Bounded.finishes`).

Nothing is said about fairness.  A thread that waits for the mutex may be overtaken.
-/

namespace SfcCapio
namespace Foundation

/-- What stands at a position of a program. -/
inductive Op (σ ε κ α ρ : Type)
  /-- Wait until the mutex is free and take it. -/
  | lock (next : κ)
  /-- Release the mutex, which the thread must own. -/
  | unlock (next : κ)
  /-- Work on the shared state; what it accesses is listed. -/
  | work (act : σ → ε → σ × List α × κ)
  | ret (result : ρ)

/-- A program with shared state `σ`, entry points `ι` and positions `κ`.  `ε` are the inputs
of a step, `ω` the changes from outside. -/
structure Program (σ ω ι ε κ α ρ : Type) where
  start : ι → κ
  op : κ → Op σ ε κ α ρ
  outside : ω → σ → σ

/-- A thread, with the list of its accesses. -/
structure Thread (ι κ α : Type) where
  entry : ι
  pos : κ
  trace : List α

/-- The shared state, the owner of the mutex and the threads, by number. -/
structure Threads (σ ι κ α : Type) where
  shared : σ
  mutex : Option Nat
  threads : Nat → Option (Thread ι κ α)

/-- A thread starts or moves, or the shared state is changed from outside. -/
inductive ThreadLabel (ω ι ε : Type)
  | enter (n : Nat) (entry : ι)
  | move (n : Nat) (input : ε)
  | outside (change : ω)

/-- The effect of a step of one thread. -/
structure Moved (σ κ α : Type) where
  shared : σ
  mutex : Option Nat
  accesses : List α
  pos : κ

variable {σ ω ι ε κ α ρ : Type}

/-- The label is a move of thread `n`. -/
def ThreadLabel.isMoveOf (n : Nat) : ThreadLabel ω ι ε → Bool
  | .move m _ => m = n
  | _ => false

/-- How often thread `n` moves. -/
def movesOf (n : Nat) (labels : List (ThreadLabel ω ι ε)) : Nat :=
  labels.countP (ThreadLabel.isMoveOf n)

/-- The thread after a step. -/
def Thread.moved (t : Thread ι κ α) (out : Moved σ κ α) : Thread ι κ α :=
  { t with pos := out.pos, trace := t.trace ++ out.accesses }

/-- All threads after a step of one. -/
def Threads.moved (s : Threads σ ι κ α) (n : Nat) (t : Thread ι κ α) (out : Moved σ κ α) :
    Threads σ ι κ α where
  shared := out.shared
  mutex := out.mutex
  threads := Function.update s.threads n (some (t.moved out))

namespace Program

variable (p : Program σ ω ι ε κ α ρ)

/-- The operation at `pos`, done by thread `n`. -/
def perform (shared : σ) (mutex : Option Nat) (n : Nat) (input : ε) (pos : κ) :
    Option (Moved σ κ α) :=
  match p.op pos with
  | .lock next => if mutex = none then some ⟨shared, some n, [], next⟩ else none
  | .unlock next => if mutex = some n then some ⟨shared, none, [], next⟩ else none
  | .work act =>
    let out := act shared input
    some ⟨out.1, mutex, out.2.1, out.2.2⟩
  | .ret _ => none

/-- A thread as it starts. -/
def entered (entry : ι) : Thread ι κ α := ⟨entry, p.start entry, []⟩

/-- One step. -/
def step (s : Threads σ ι κ α) : ThreadLabel ω ι ε → Option (Threads σ ι κ α)
  | .enter n entry =>
    match s.threads n with
    | some _ => none
    | none =>
      some { s with threads := Function.update s.threads n (some (p.entered entry)) }
  | .move n input =>
    match s.threads n with
    | none => none
    | some t => (p.perform s.shared s.mutex n input t.pos).map (s.moved n t)
  | .outside change => some { s with shared := p.outside change s.shared }

/-- What a step accesses. -/
def accesses (s : Threads σ ι κ α) : ThreadLabel ω ι ε → List α
  | .move n input =>
    match s.threads n with
    | none => []
    | some t => ((p.perform s.shared s.mutex n input t.pos).map Moved.accesses).getD []
  | _ => []

variable {p}

/-! ## What a step can be -/

variable {n : Nat} {input : ε} {out : Moved σ κ α} {a : ThreadLabel ω ι ε} {s : Threads σ ι κ α}
  {t : Thread ι κ α}

theorem perform_cases {shared : σ} {mutex : Option Nat} {pos : κ}
    (hout : p.perform shared mutex n input pos = some out) :
    (∃ next, p.op pos = .lock next ∧ mutex = none ∧ out = ⟨shared, some n, [], next⟩) ∨
    (∃ next, p.op pos = .unlock next ∧ mutex = some n ∧ out = ⟨shared, none, [], next⟩) ∨
    (∃ act, p.op pos = .work act ∧ out = ⟨(act shared input).1, mutex, (act shared input).2.1,
      (act shared input).2.2⟩) := by
  unfold perform at hout
  split at hout
  · next next hop =>
      split at hout
      · next hfree =>
          cases hout
          exact Or.inl ⟨next, hop, hfree, rfl⟩
      · cases hout
  · next next hop =>
      split at hout
      · next howner =>
          cases hout
          exact Or.inr (Or.inl ⟨next, hop, howner, rfl⟩)
      · cases hout
  · next act hop =>
      cases hout
      exact Or.inr (Or.inr ⟨act, hop, rfl⟩)
  · cases hout

theorem step_cases {s s' : Threads σ ι κ α} (hstep : p.step s a = some s') :
    (∃ n entry, a = .enter n entry ∧ s.threads n = none ∧
      s' = { s with threads := Function.update s.threads n (some (p.entered entry)) }) ∨
    (∃ n input t out, a = .move n input ∧ s.threads n = some t ∧
      p.perform s.shared s.mutex n input t.pos = some out ∧ s' = s.moved n t out) ∨
    (∃ change, a = .outside change ∧ s' = { s with shared := p.outside change s.shared }) := by
  cases a with
  | enter n entry =>
    simp only [step] at hstep
    split at hstep
    · cases hstep
    · next hfree =>
        cases hstep
        exact Or.inl ⟨n, entry, rfl, hfree, rfl⟩
  | move n input =>
    simp only [step] at hstep
    split at hstep
    · cases hstep
    · next t ht =>
        obtain ⟨out, hout, hs'⟩ := Option.map_eq_some_iff.mp hstep
        exact Or.inr (Or.inl ⟨n, input, t, out, rfl, ht, hout, hs'.symm⟩)
  | outside change =>
    cases hstep
    exact Or.inr (Or.inr ⟨change, rfl, rfl⟩)

theorem step_move (ht : s.threads n = some t)
    (hout : p.perform s.shared s.mutex n input t.pos = some out) :
    p.step s (.move n input) = some (s.moved n t out) := by
  simp only [step, ht, hout, Option.map_some]

/-- Work is never held up. -/
theorem work_moves {act : σ → ε → σ × List α × κ} (ht : s.threads n = some t)
    (hop : p.op t.pos = .work act) (input : ε) : ∃ s', p.step s (.move n input) = some s' := by
  have hout : p.perform s.shared s.mutex n input t.pos =
      some ⟨(act s.shared input).1, s.mutex, (act s.shared input).2.1,
        (act s.shared input).2.2⟩ := by
    rw [perform, hop]
  exact ⟨_, step_move ht hout⟩

/-- After one thread has been put in, every thread is that one or was there before. -/
theorem threads_update {threads : Nat → Option (Thread ι κ α)} {n m : Nat} {t t' : Thread ι κ α}
    (hm : Function.update threads n (some t) m = some t') :
    m = n ∧ t' = t ∨ m ≠ n ∧ threads m = some t' := by
  by_cases hmn : m = n
  · subst hmn
    rw [Function.update_self] at hm
    exact Or.inl ⟨rfl, (Option.some.inj hm).symm⟩
  · rw [Function.update_of_ne hmn] at hm
    exact Or.inr ⟨hmn, hm⟩

/-! ## The discipline -/

variable (p) in
/-- `held` marks the positions at which the thread has the mutex. -/
structure Marking (held : κ → Bool) : Prop where
  start : ∀ entry, held (p.start entry) = false
  lock : ∀ pos next, p.op pos = .lock next → held pos = false ∧ held next = true
  unlock : ∀ pos next, p.op pos = .unlock next → held pos = true ∧ held next = false
  work : ∀ pos act, p.op pos = .work act →
    ∀ shared input, held (act shared input).2.2 = held pos
  ret : ∀ pos result, p.op pos = .ret result → held pos = false

/-- The owner of the mutex is the thread at a marked position. -/
structure Owned (held : κ → Bool) (s : Threads σ ι κ α) : Prop where
  owner : ∀ n t, s.threads n = some t → (s.mutex = some n ↔ held t.pos = true)
  present : ∀ n, s.mutex = some n → ∃ t, s.threads n = some t

variable {held : κ → Bool} {s s' : Threads σ ι κ α}

/-- Taking and releasing the mutex keep the marking. -/
theorem Owned.moved (hmark : p.Marking held) (hown : Owned held s) (ht : s.threads n = some t)
    (hout : p.perform s.shared s.mutex n input t.pos = some out) :
    Owned held (s.moved n t out) := by
  have hself := hown.owner n t ht
  -- the mutex afterwards, seen from the thread that moved and from another
  have hmutex : (out.mutex = some n ↔ held out.pos = true) ∧
      ∀ m, m ≠ n → (out.mutex = some m ↔ s.mutex = some m) := by
    rcases perform_cases hout with ⟨next, hop, hfree, rfl⟩ | ⟨next, hop, howner, rfl⟩ |
      ⟨act, hop, rfl⟩
    · refine ⟨by simp [(hmark.lock _ _ hop).2], fun m hm => ?_⟩
      rw [hfree]
      simp [Ne.symm hm]
    · refine ⟨by simp [(hmark.unlock _ _ hop).2], fun m hm => ?_⟩
      rw [howner]
      simp [Ne.symm hm]
    · refine ⟨?_, fun m _ => Iff.rfl⟩
      show s.mutex = some n ↔ held (act s.shared input).2.2 = true
      rw [hmark.work _ _ hop]
      exact hself
  refine ⟨?_, ?_⟩
  · intro m t' hm
    rcases threads_update hm with ⟨rfl, rfl⟩ | ⟨hne, hm⟩
    · exact hmutex.1
    · exact (hmutex.2 m hne).trans (hown.owner m t' hm)
  · intro m hm
    by_cases hmn : m = n
    · subst hmn
      exact ⟨t.moved out, Function.update_self ..⟩
    · obtain ⟨t', ht'⟩ := hown.present m ((hmutex.2 m hmn).mp hm)
      exact ⟨t', (Function.update_of_ne hmn ..).trans ht'⟩

theorem owned_step (hmark : p.Marking held) (hown : Owned held s)
    (hstep : p.step s a = some s') : Owned held s' := by
  rcases step_cases hstep with ⟨n, entry, rfl, hfree, rfl⟩ |
    ⟨n, input, t, out, rfl, ht, hout, rfl⟩ | ⟨change, rfl, rfl⟩
  · -- a thread that starts has not got the mutex, and no thread had its number
    refine ⟨?_, ?_⟩
    · intro m t hm
      rcases threads_update hm with ⟨rfl, rfl⟩ | ⟨-, hm⟩
      · have hnot : s.mutex ≠ some m := by
          intro howns
          obtain ⟨t, ht⟩ := hown.present m howns
          rw [hfree] at ht
          cases ht
        simp [entered, hmark.start, hnot]
      · exact hown.owner m t hm
    · intro m hm
      obtain ⟨t, ht⟩ := hown.present m hm
      have hmn : m ≠ n := by
        rintro rfl
        rw [hfree] at ht
        cases ht
      exact ⟨t, (Function.update_of_ne hmn ..).trans ht⟩
  · exact hown.moved hmark ht hout
  · exact ⟨hown.owner, hown.present⟩

theorem Owned.released (hmark : p.Marking held) (hown : Owned held s) {result : ρ}
    (ht : s.threads n = some t) (hret : p.op t.pos = .ret result) :
    s.mutex ≠ some n := by
  intro howner
  have hheld := (hown.owner n t ht).mp howner
  rw [hmark.ret _ _ hret] at hheld
  cases hheld

/-- The owner of the mutex is never held up. -/
theorem Owned.owner_moves (hmark : p.Marking held) (hown : Owned held s) (howner : s.mutex = some n)
    (input : ε) : ∃ s', p.step s (.move n input) = some s' := by
  obtain ⟨t, ht⟩ := hown.present n howner
  have hheld := (hown.owner n t ht).mp howner
  cases hop : p.op t.pos with
  | lock next =>
    rw [(hmark.lock _ _ hop).1] at hheld
    cases hheld
  | ret result =>
    rw [hmark.ret _ _ hop] at hheld
    cases hheld
  | unlock next =>
    have hout : p.perform s.shared s.mutex n input t.pos = some ⟨s.shared, none, [], next⟩ := by
      rw [perform, hop]
      exact if_pos howner
    exact ⟨_, step_move ht hout⟩
  | work act => exact work_moves ht hop input

/-- A thread has returned, or it can move, or it waits for the mutex and the owner can
move. -/
theorem Owned.progress (hmark : p.Marking held) (hown : Owned held s) (ht : s.threads n = some t) :
    (∃ result, p.op t.pos = .ret result) ∨
    (∀ input, ∃ s', p.step s (.move n input) = some s') ∨
    (∃ next, p.op t.pos = .lock next) ∧
      ∃ m, s.mutex = some m ∧ m ≠ n ∧ ∀ input, ∃ s', p.step s (.move m input) = some s' := by
  cases hop : p.op t.pos with
  | ret result => exact Or.inl ⟨result, rfl⟩
  | lock next =>
    right
    cases hmutex : s.mutex with
    | none =>
      left
      intro input
      have hout : p.perform s.shared s.mutex n input t.pos =
          some ⟨s.shared, some n, [], next⟩ := by
        rw [perform, hop]
        exact if_pos hmutex
      exact ⟨_, step_move ht hout⟩
    | some m =>
      right
      refine ⟨⟨next, rfl⟩, m, rfl, ?_, hown.owner_moves hmark hmutex⟩
      rintro rfl
      have hheld := (hown.owner m t ht).mp hmutex
      rw [(hmark.lock _ _ hop).1] at hheld
      cases hheld
  | unlock next =>
    have howner := (hown.owner n t ht).mpr (hmark.unlock _ _ hop).1
    exact Or.inr (Or.inl (hown.owner_moves hmark howner))
  | work act => exact Or.inr (Or.inl (work_moves ht hop))

/-! ## Invariants -/

variable (p) in
/-- An invariant `I` of the shared state and `J` of every single thread. -/
structure Keeps (I : σ → Prop) (J : Thread ι κ α → Prop) : Prop where
  start : ∀ entry, J (p.entered entry)
  outside : ∀ change shared, I shared → I (p.outside change shared)
  move : ∀ shared mutex n input t out, I shared → J t →
    p.perform shared mutex n input t.pos = some out → I out.shared ∧ J (t.moved out)

/-- Both parts of the invariant. -/
structure Kept (I : σ → Prop) (J : Thread ι κ α → Prop) (s : Threads σ ι κ α) : Prop where
  shared : I s.shared
  thread : ∀ n t, s.threads n = some t → J t

variable {I : σ → Prop} {J : Thread ι κ α → Prop}

theorem kept_step (hkeeps : p.Keeps I J) (hkept : Kept I J s)
    (hstep : p.step s a = some s') : Kept I J s' := by
  rcases step_cases hstep with ⟨n, entry, rfl, -, rfl⟩ | ⟨n, input, t, out, rfl, ht, hout, rfl⟩ |
    ⟨change, rfl, rfl⟩
  · refine ⟨hkept.shared, ?_⟩
    intro m t hm
    rcases threads_update hm with ⟨-, rfl⟩ | ⟨-, hm⟩
    · exact hkeeps.start entry
    · exact hkept.thread m t hm
  · have hmove := hkeeps.move _ _ _ _ _ _ hkept.shared (hkept.thread n t ht) hout
    refine ⟨hmove.1, ?_⟩
    intro m t' hm
    rcases threads_update hm with ⟨-, rfl⟩ | ⟨-, hm⟩
    · exact hmove.2
    · exact hkept.thread m t' hm
  · exact ⟨hkeeps.outside change _ hkept.shared, hkept.thread⟩

variable (p) in
/-- A measure that every step of a thread makes smaller. -/
structure Bounded (I : σ → Prop) (J : Thread ι κ α → Prop) (left : κ → Nat) : Prop
    extends p.Keeps I J where
  decreases : ∀ shared mutex n input t out, I shared → J t →
    p.perform shared mutex n input t.pos = some out → left out.pos < left t.pos

variable {left : κ → Nat}

/-- Every move of a thread is paid for by its measure; the moves of the others and the
changes from outside cost it nothing. -/
theorem Bounded.run (hbound : p.Bounded I J left) {labels : List (ThreadLabel ω ι ε)}
    (hkept : Kept I J s) (hrun : exec p.step s labels = some s') (ht : s.threads n = some t) :
    ∃ t', s'.threads n = some t' ∧ t'.entry = t.entry ∧
      left t'.pos + movesOf n labels ≤ left t.pos := by
  -- over the labels; only a move of the thread itself touches its position
  induction labels generalizing s t with
  | nil =>
    cases hrun
    exact ⟨t, ht, rfl, Nat.le_refl _⟩
  | cons a labels ih =>
    obtain ⟨s₁, hstep, hrest⟩ := exec_cons_eq_some hrun
    have hkept₁ := kept_step hbound.toKeeps hkept hstep
    rcases step_cases hstep with ⟨m, entry, rfl, hfree, rfl⟩ |
      ⟨m, input, u, out, rfl, hu, hout, rfl⟩ | ⟨change, rfl, rfl⟩
    · have hnm : n ≠ m := by
        rintro rfl
        rw [hfree] at ht
        cases ht
      exact ih hkept₁ hrest ((Function.update_of_ne hnm ..).trans ht)
    · by_cases hnm : n = m
      · subst hnm
        obtain rfl : u = t := Option.some.inj (hu.symm.trans ht)
        obtain ⟨t', ht', hentry, hle⟩ := ih hkept₁ hrest (Function.update_self ..)
        have hless := hbound.decreases _ _ _ _ _ _ hkept.shared (hkept.thread n u hu) hout
        refine ⟨t', ht', hentry, ?_⟩
        have hcount : movesOf n (ThreadLabel.move n input :: labels) = movesOf n labels + 1 := by
          simp [movesOf, ThreadLabel.isMoveOf]
        change left t'.pos + movesOf n labels ≤ left out.pos at hle
        omega
      · obtain ⟨t', ht', hentry, hle⟩ :=
          ih hkept₁ hrest ((Function.update_of_ne hnm ..).trans ht)
        refine ⟨t', ht', hentry, ?_⟩
        have hcount : movesOf n (ThreadLabel.move m input :: labels) = movesOf n labels := by
          simp [movesOf, ThreadLabel.isMoveOf, Ne.symm hnm]
        rw [hcount]
        exact hle
    · exact ih hkept₁ hrest ht

/-- A change from outside and a move of thread `n`. -/
def turn (n : Nat) (round : ω × ε) : List (ThreadLabel ω ι ε) :=
  [.outside round.1, .move n round.2]

/-- A thread that has the mutex, or finds it free, runs to its return and leaves it free,
whatever is changed before each of its steps. -/
theorem Bounded.finishes [Inhabited ε] (hbound : p.Bounded I J left) (hmark : p.Marking held)
    (hkept : Kept I J s) (hown : Owned held s) (ht : s.threads n = some t)
    (hmutex : s.mutex = none ∨ s.mutex = some n) (script : List (ω × ε))
    (hlong : left t.pos ≤ script.length) :
    ∃ k s' t' result, exec p.step s ((script.take k).flatMap (turn n)) = some s' ∧
      s'.threads n = some t' ∧ p.op t'.pos = .ret result ∧ s'.mutex = none := by
  -- at every state of the induction the thread has returned or its next step is possible
  have hnext : ∀ {s : Threads σ ι κ α} {t}, Owned held s → s.threads n = some t →
      (s.mutex = none ∨ s.mutex = some n) →
        (∃ result, p.op t.pos = .ret result ∧ s.mutex = none) ∨
          ∀ input, ∃ out, p.perform s.shared s.mutex n input t.pos = some out := by
    intro s t hown ht hmutex
    rcases hown.progress hmark ht with ⟨result, hret⟩ | hmoves | ⟨-, m, howner, hne, -⟩
    · exact Or.inl ⟨result, hret, hmutex.resolve_right (hown.released hmark ht hret)⟩
    · right
      intro input
      obtain ⟨s', hstep⟩ := hmoves input
      simp only [step, ht] at hstep
      obtain ⟨out, hout, -⟩ := Option.map_eq_some_iff.mp hstep
      exact ⟨out, hout⟩
    · exfalso
      rcases hmutex with hnone | hown
      · rw [hnone] at howner
        cases howner
      · rw [hown] at howner
        exact hne (Option.some.inj howner).symm
  induction script generalizing s t with
  | nil =>
    rcases hnext hown ht hmutex with ⟨result, hret, hnone⟩ | hmoves
    · exact ⟨0, s, t, result, rfl, ht, hret, hnone⟩
    · obtain ⟨out, hout⟩ := hmoves default
      have hless := hbound.decreases _ _ _ _ _ _ hkept.shared (hkept.thread n t ht) hout
      rw [List.length_nil] at hlong
      omega
  | cons round rest ih =>
    obtain ⟨change, input⟩ := round
    -- the change from outside leaves mutex and threads alone
    have hchange : p.step s (.outside change) =
        some { s with shared := p.outside change s.shared } := rfl
    have hkept₁ := kept_step hbound.toKeeps hkept hchange
    have hown₁ := owned_step hmark hown hchange
    rcases hnext hown₁ ht hmutex with ⟨result, hret, hnone⟩ | hmoves
    · exact ⟨0, s, t, result, rfl, ht, hret, hnone⟩
    · obtain ⟨out, hout⟩ := hmoves input
      have hmove := step_move (s := { s with shared := p.outside change s.shared }) ht hout
      have hless := hbound.decreases _ _ _ _ _ _ hkept₁.shared (hkept₁.thread n t ht) hout
      have hfree : out.mutex = none ∨ out.mutex = some n := by
        rcases perform_cases hout with ⟨next, -, -, rfl⟩ | ⟨next, -, -, rfl⟩ | ⟨act, -, rfl⟩
        · exact Or.inr rfl
        · exact Or.inl rfl
        · exact hmutex
      have hlong' : left (t.moved out).pos ≤ rest.length := by
        rw [List.length_cons] at hlong
        show left out.pos ≤ rest.length
        omega
      obtain ⟨k, s', t', result, hrun, ht', hreturned⟩ :=
        ih (kept_step hbound.toKeeps hkept₁ hmove) (owned_step hmark hown₁ hmove)
          (Function.update_self ..) hfree hlong'
      refine ⟨k + 1, s', t', result, ?_, ht', hreturned⟩
      rw [List.take_succ_cons, List.flatMap_cons]
      refine exec_append ?_ hrun
      rw [turn, exec_cons_of_some hchange, exec_cons_of_some hmove, exec_nil]

end Program

end Foundation
end SfcCapio
