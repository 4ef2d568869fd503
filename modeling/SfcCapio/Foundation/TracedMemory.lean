import Mathlib.Logic.Function.Basic

/-!
# Programs over a memory that record what they touch

A `TraceM` program loads and stores single cells, and every access is entered in a list.
`Runs lo hi p mem out mem'` says what a program returns and leaves, and that it stays inside
of `[lo, hi)`; its rules follow the program text.  Copies are loops of single accesses:
`cellsAt` is what they load and `blit` what they leave.
-/

namespace SfcCapio
namespace Foundation

/-- A memory and the addresses accessed so far, the last one first. -/
structure Traced (β : Type) where
  mem : Nat → β
  touched : List Nat

/-- A program over a memory. -/
abbrev TraceM (β : Type) := StateM (Traced β)

variable {α β γ : Type}

/-- The `n` cells from `a` on. -/
def cellsAt (mem : Nat → β) : Nat → Nat → List β
  | _, 0 => []
  | a, n + 1 => mem a :: cellsAt mem (a + 1) n

/-- The memory with `cells` stored from `a` on. -/
def blit (mem : Nat → β) (a : Nat) (cells : List β) : Nat → β := fun j =>
  if a ≤ j then (cells[j - a]?).getD (mem j) else mem j

@[simp] theorem length_cellsAt (mem : Nat → β) (a n : Nat) : (cellsAt mem a n).length = n := by
  induction n generalizing a with
  | zero => rfl
  | succ n ih => rw [cellsAt, List.length_cons, ih]

theorem getElem?_cellsAt (mem : Nat → β) {a n i : Nat} (hi : i < n) :
    (cellsAt mem a n)[i]? = some (mem (a + i)) := by
  induction n generalizing a i with
  | zero => exact absurd hi (Nat.not_lt_zero i)
  | succ n ih =>
    rw [cellsAt]
    cases i with
    | zero => rfl
    | succ i =>
      rw [List.getElem?_cons_succ, ih (Nat.lt_of_succ_lt_succ hi)]
      congr 2
      omega

theorem blit_nil (mem : Nat → β) (a : Nat) : blit mem a [] = mem := by
  funext j
  simp [blit]

/-- Storing the first cell and then the others is storing them all. -/
theorem blit_cons (mem : Nat → β) (a : Nat) (b : β) (cells : List β) :
    blit (Function.update mem a b) (a + 1) cells = blit mem a (b :: cells) := by
  funext j
  unfold blit
  rcases Nat.lt_trichotomy j a with hlt | rfl | hgt
  · rw [if_neg (by omega), if_neg (by omega), Function.update_of_ne (by omega)]
  · rw [if_neg (by omega), if_pos (Nat.le_refl j), Function.update_self, Nat.sub_self]
    rfl
  · rw [if_pos (by omega), if_pos (by omega), Function.update_of_ne (by omega),
      show j - a = (j - (a + 1)) + 1 by omega, List.getElem?_cons_succ]

theorem blit_of_inside (mem : Nat → β) {a i : Nat} {cells : List β} (hi : i < cells.length) :
    blit mem a cells (a + i) = cells[i] := by
  rw [blit, if_pos (Nat.le_add_right a i), Nat.add_sub_cancel_left, List.getElem?_eq_getElem hi,
    Option.getD_some]

theorem blit_of_outside (mem : Nat → β) {a j : Nat} {cells : List β}
    (hj : ¬ (a ≤ j ∧ j < a + cells.length)) : blit mem a cells j = mem j := by
  unfold blit
  split
  · rw [List.getElem?_eq_none (by omega), Option.getD_none]
  · rfl

theorem blit_append (mem : Nat → β) (a : Nat) (xs ys : List β) :
    blit (blit mem a xs) (a + xs.length) ys = blit mem a (xs ++ ys) := by
  induction xs generalizing mem a with
  | nil => rw [blit_nil, List.length_nil, Nat.add_zero, List.nil_append]
  | cons x xs ih =>
    have hlen : a + (x :: xs).length = a + 1 + xs.length := by
      rw [List.length_cons]
      omega
    rw [← blit_cons, hlen, ih, blit_cons, List.cons_append]

/-- A copy over the front of an earlier one. -/
theorem blit_over (mem : Nat → β) (a : Nat) (xs ys : List β) :
    blit (blit mem a ys) a xs = blit mem a (xs ++ ys.drop xs.length) := by
  funext j
  unfold blit
  split
  · by_cases hfront : j - a < xs.length
    · rw [List.getElem?_append_left hfront, List.getElem?_eq_getElem hfront, Option.getD_some,
        Option.getD_some]
    · have hback : j - a = xs.length + (j - a - xs.length) := by omega
      rw [List.getElem?_append_right (by omega), List.getElem?_eq_none (by omega),
        Option.getD_none, List.getElem?_drop, ← hback]
  · rfl

theorem cellsAt_blit (mem : Nat → β) (a : Nat) (cells : List β) :
    cellsAt (blit mem a cells) a cells.length = cells := by
  refine List.ext_getElem? fun i => ?_
  by_cases hi : i < cells.length
  · rw [getElem?_cellsAt _ hi, blit_of_inside mem hi, List.getElem?_eq_getElem hi]
  · rw [List.getElem?_eq_none (by rw [length_cellsAt]; omega), List.getElem?_eq_none (by omega)]

namespace TraceM

/-! ## Programs -/

/-- A load of one cell. -/
def load (a : Nat) : TraceM β β := fun s => (s.mem a, { s with touched := a :: s.touched })

/-- A store of one cell. -/
def store (a : Nat) (b : β) : TraceM β Unit := fun s =>
  ((), { mem := Function.update s.mem a b, touched := a :: s.touched })

/-- The loads of a copy. -/
def loadCells : Nat → Nat → TraceM β (List β)
  | _, 0 => pure []
  | a, n + 1 => do
      let b ← load a
      let cells ← loadCells (a + 1) n
      return b :: cells

/-- The stores of a copy. -/
def storeCells : Nat → List β → TraceM β Unit
  | _, [] => pure ()
  | a, b :: cells => do
      store a b
      storeCells (a + 1) cells

/-! ## Rules -/

/-- From `mem` the program returns `out` and leaves `mem'`, and all that it accesses lies in
`[lo, hi)`. -/
def Runs (lo hi : Nat) (p : TraceM β α) (mem : Nat → β) (out : α) (mem' : Nat → β) : Prop :=
  ∀ touched, ∃ new, p ⟨mem, touched⟩ = (out, ⟨mem', new ++ touched⟩) ∧
    ∀ a ∈ new, lo ≤ a ∧ a < hi

variable {lo hi : Nat} {mem mem' mem'' : Nat → β} {p : TraceM β α} {out : α}

theorem Runs.pure (out : α) : Runs lo hi (pure out : TraceM β α) mem out mem :=
  fun _ => ⟨[], rfl, fun _ ha => absurd ha List.not_mem_nil⟩

theorem Runs.bind {f : α → TraceM β γ} {res : γ} (hfirst : Runs lo hi p mem out mem')
    (hrest : Runs lo hi (f out) mem' res mem'') : Runs lo hi (p >>= f) mem res mem'' := by
  intro touched
  obtain ⟨new, hp, hnew⟩ := hfirst touched
  obtain ⟨more, hf, hmore⟩ := hrest (new ++ touched)
  refine ⟨more ++ new, ?_, ?_⟩
  · have hbind : (p >>= f) ⟨mem, touched⟩ = f (p ⟨mem, touched⟩).1 (p ⟨mem, touched⟩).2 := rfl
    rw [hbind, hp, List.append_assoc]
    exact hf
  · intro a ha
    rcases List.mem_append.mp ha with hin | hin
    · exact hmore a hin
    · exact hnew a hin

theorem Runs.load {a : Nat} (hlo : lo ≤ a) (hhi : a < hi) :
    Runs lo hi (load a) mem (mem a) mem := by
  intro touched
  refine ⟨[a], rfl, ?_⟩
  intro x hx
  rw [List.mem_singleton.mp hx]
  exact ⟨hlo, hhi⟩

theorem Runs.store {a : Nat} (b : β) (hlo : lo ≤ a) (hhi : a < hi) :
    Runs lo hi (store a b) mem () (Function.update mem a b) := by
  intro touched
  refine ⟨[a], rfl, ?_⟩
  intro x hx
  rw [List.mem_singleton.mp hx]
  exact ⟨hlo, hhi⟩

theorem Runs.loadCells {a n : Nat} (hlo : lo ≤ a) (hhi : a + n ≤ hi) :
    Runs lo hi (loadCells a n) mem (cellsAt mem a n) mem := by
  induction n generalizing a with
  | zero => exact Runs.pure []
  | succ n ih =>
    refine (Runs.load hlo (by omega)).bind ?_
    refine (ih (Nat.le_succ_of_le hlo) (by omega)).bind ?_
    exact Runs.pure _

theorem Runs.storeCells {a : Nat} {cells : List β} (hlo : lo ≤ a)
    (hhi : a + cells.length ≤ hi) :
    Runs lo hi (storeCells a cells) mem () (blit mem a cells) := by
  induction cells generalizing a mem with
  | nil =>
    rw [blit_nil]
    exact Runs.pure ()
  | cons b cells ih =>
    rw [List.length_cons] at hhi
    refine (Runs.store b hlo (by omega)).bind ?_
    rw [← blit_cons]
    exact ih (Nat.le_succ_of_le hlo) (by omega)

theorem Runs.loadBlit {a n : Nat} {cells : List β} (hn : cells.length = n) (hlo : lo ≤ a)
    (hhi : a + n ≤ hi) :
    Runs lo hi (TraceM.loadCells a n) (blit mem a cells) cells (blit mem a cells) := by
  subst hn
  have hread : Runs lo hi (TraceM.loadCells a cells.length) (blit mem a cells)
      (cellsAt (blit mem a cells) a cells.length) (blit mem a cells) := Runs.loadCells hlo hhi
  rw [cellsAt_blit] at hread
  exact hread

end TraceM

end Foundation
end SfcCapio
