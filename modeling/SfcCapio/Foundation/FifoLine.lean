import Mathlib.Data.List.Forall2
import SfcCapio.Foundation.MarkedRing

/-!
# FIFO lines and the ring segments that hold them

A `Line` is the way of an item from a producer to a consumer: it is pushed into a transmit
queue, fetched from there onto a wire, arrives in a receive queue or is lost, and is taken
out.  Nothing overtakes anything.  `Line.Conserves` is the law of such a line: what has been
taken and what is still under way, read from the consumer's end, is what was pushed without
the items lost.  Every bound on a queue follows from it by counting.

`Segment n P r items` says how an array of `n` cells stands for one of the queues: beginning
at cell `r` and wrapping around, cell after cell is related to the next item by `P`.  The
rules are those of a queue: an item is appended behind the last one, or the first is removed
by moving `r`.
-/

namespace SfcCapio
namespace Foundation

variable {α : Type*}

/-! ## Lines -/

/-- Items between a producer and a consumer, oldest first.  `pushed` and `taken` are the
histories of the two ends. -/
structure Line (α : Type*) where
  pushed : List α
  tx : List α
  wire : List α
  rx : List α
  taken : List α
  lost : Nat

namespace Line

/-- Everything that has not been lost, from the consumer's end. -/
def flow (line : Line α) : List α := line.taken ++ line.rx ++ line.wire ++ line.tx

/-- Items keep their order, and only those counted as lost are missing. -/
structure Conserves (line : Line α) : Prop where
  order : line.flow.Sublist line.pushed
  count : line.pushed.length = line.flow.length + line.lost

/-- Nothing has happened yet. -/
def idle : Line α := ⟨[], [], [], [], [], 0⟩

theorem conserves_idle : (idle : Line α).Conserves := ⟨List.Sublist.refl [], rfl⟩

variable {line : Line α} {a : α} {rest : List α}

/-- The producer pushes an item. -/
def push (line : Line α) (a : α) : Line α :=
  { line with pushed := line.pushed ++ [a], tx := line.tx ++ [a] }

/-- The oldest item of the transmit queue goes onto the wire. -/
def fetch (line : Line α) (a : α) (rest : List α) : Line α :=
  { line with tx := rest, wire := line.wire ++ [a] }

/-- The oldest item of the wire reaches the receive queue. -/
def arrive (line : Line α) (a : α) (rest : List α) : Line α :=
  { line with wire := rest, rx := line.rx ++ [a] }

/-- The oldest item of the wire is lost. -/
def lose (line : Line α) (rest : List α) : Line α :=
  { line with wire := rest, lost := line.lost + 1 }

/-- The consumer takes the oldest item of the receive queue. -/
def take (line : Line α) (a : α) (rest : List α) : Line α :=
  { line with rx := rest, taken := line.taken ++ [a] }

namespace Conserves

theorem push (h : line.Conserves) (a : α) : (line.push a).Conserves where
  order := by
    have hflow : (line.push a).flow = line.flow ++ [a] := by simp [flow, Line.push]
    rw [hflow]
    exact h.order.append (List.Sublist.refl [a])
  count := by
    have hcount := h.count
    simp only [flow, Line.push, List.length_append, List.length_singleton] at hcount ⊢
    omega

theorem fetch (h : line.Conserves) (htx : line.tx = a :: rest) :
    (line.fetch a rest).Conserves := by
  have hflow : (line.fetch a rest).flow = line.flow := by simp [flow, Line.fetch, htx]
  refine ⟨?_, ?_⟩
  · rw [hflow]
    exact h.order
  · rw [hflow]
    exact h.count

theorem arrive (h : line.Conserves) (hwire : line.wire = a :: rest) :
    (line.arrive a rest).Conserves := by
  have hflow : (line.arrive a rest).flow = line.flow := by simp [flow, Line.arrive, hwire]
  refine ⟨?_, ?_⟩
  · rw [hflow]
    exact h.order
  · rw [hflow]
    exact h.count

theorem lose (h : line.Conserves) (hwire : line.wire = a :: rest) :
    (line.lose rest).Conserves where
  order := by
    refine List.Sublist.trans ?_ h.order
    simp only [flow, Line.lose, hwire, List.append_assoc]
    exact ((List.sublist_cons_self a _).append_left _).append_left _
  count := by
    have hcount := h.count
    simp only [flow, Line.lose, hwire, List.length_append, List.length_cons] at hcount ⊢
    omega

theorem take (h : line.Conserves) (hrx : line.rx = a :: rest) :
    (line.take a rest).Conserves := by
  have hflow : (line.take a rest).flow = line.flow := by simp [flow, Line.take, hrx]
  refine ⟨?_, ?_⟩
  · rw [hflow]
    exact h.order
  · rw [hflow]
    exact h.count

/-- The count, queue by queue. -/
theorem lengths (h : line.Conserves) :
    line.taken.length + line.rx.length + line.wire.length + line.tx.length + line.lost =
      line.pushed.length := by
  have hcount := h.count
  simp only [flow, List.length_append] at hcount
  omega

/-- The consumer has taken pushed items in their order. -/
theorem taken_sublist (h : line.Conserves) : line.taken.Sublist line.pushed := by
  refine List.Sublist.trans ?_ h.order
  simp only [flow, List.append_assoc]
  exact List.sublist_append_left _ _

/-- Without a loss it has taken the first items, and no item is missing between. -/
theorem flow_eq_pushed (h : line.Conserves) (hlost : line.lost = 0) :
    line.flow = line.pushed := by
  refine h.order.eq_of_length ?_
  have hcount := h.count
  omega

theorem taken_prefix (h : line.Conserves) (hlost : line.lost = 0) :
    line.taken <+: line.pushed := by
  rw [← h.flow_eq_pushed hlost, flow, List.append_assoc, List.append_assoc]
  exact List.prefix_append _ _

end Conserves

end Line

/-! ## Segments -/

variable {n r : Nat} {P Q : Nat → α → Prop} {items : List α}

/-- The cells from `r` on are related to the items in order. -/
def Segment (n : Nat) (P : Nat → α → Prop) (r : Nat) (items : List α) : Prop :=
  ∀ i a, items[i]? = some a → P ((r + i) % n) a

namespace Segment

theorem nil (n : Nat) (P : Nat → α → Prop) (r : Nat) : Segment n P r [] := by
  intro i a hi
  cases hi

theorem head {a : α} {rest : List α} (h : Segment n P r (a :: rest)) (hr : r < n) : P r a := by
  have hfirst := h 0 a rfl
  rwa [Nat.add_zero, Nat.mod_eq_of_lt hr] at hfirst

theorem tail {a : α} {rest : List α} (h : Segment n P r (a :: rest)) :
    Segment n P ((r + 1) % n) rest := by
  intro i b hi
  have hnext := h (i + 1) b (by rwa [List.getElem?_cons_succ])
  rwa [Nat.mod_add_mod, Nat.add_assoc, Nat.add_comm 1 i]

/-- An item is put into the cell behind the last; only that cell changes. -/
theorem concat {a : α} (h : Segment n P r items) (hroom : items.length < n)
    (hkeep : ∀ s b, s < n → s ≠ (r + items.length) % n → P s b → Q s b)
    (hnew : Q ((r + items.length) % n) a) : Segment n Q r (items ++ [a]) := by
  intro i b hi
  obtain hlt | rfl | hgt := Nat.lt_trichotomy i items.length
  · rw [List.getElem?_append_left hlt] at hi
    refine hkeep _ b (Nat.mod_lt _ (by omega)) ?_ (h i b hi)
    intro hslot
    have hsame := slot_add_inj (by omega) hroom hslot
    omega
  · rw [List.getElem?_append_right (Nat.le_refl _), Nat.sub_self] at hi
    obtain rfl := Option.some.inj hi
    exact hnew
  · rw [List.getElem?_eq_none] at hi
    · cases hi
    · rw [List.length_append, List.length_singleton]
      exact hgt

end Segment

end Foundation
end SfcCapio
