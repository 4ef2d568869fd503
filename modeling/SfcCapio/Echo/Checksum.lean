import Mathlib.Algebra.BigOperators.Ring.Finset
import SfcCapio.Foundation.OnesComplement
import SfcCapio.Echo.Frame

/-!
# Sums of 16-bit words

`ip_cksum` adds the 16-bit words of a header as the host reads them.  A header whose words
sum to a positive multiple of 65535 is `Balanced`: its one's-complement sum is `0xffff`.
Exchanging the bytes of every word multiplies the sum by 256, so that a header balanced in
one byte order is balanced in the other.
-/

namespace SfcCapio
namespace Echo

open Foundation

/-- The byte order of a host. -/
inductive ByteOrder
  | little
  | big
deriving DecidableEq, Repr

/-- The two bytes at `off` as such a host reads them. -/
def ByteOrder.read : ByteOrder → (Nat → BitVec 8) → Nat → Nat
  | .little => le16
  | .big => be16

/-- Its store of a 16-bit value. -/
def ByteOrder.store : ByteOrder → (Nat → BitVec 8) → Nat → Nat → Nat → BitVec 8
  | .little => putLe16
  | .big => putBe16

/-- The first `n` words at `off`, each read by `get`. -/
def wordsAt (get : (Nat → BitVec 8) → Nat → Nat) (mem : Nat → BitVec 8) (off n : Nat) :
    List Nat :=
  (List.range n).map fun k => get mem (off + 2 * k)

/-- Their plain sum. -/
def wordSum (get : (Nat → BitVec 8) → Nat → Nat) (mem : Nat → BitVec 8) (off n : Nat) : Nat :=
  ∑ k ∈ Finset.range n, get mem (off + 2 * k)

/-- The words sum to a positive multiple of 65535. -/
structure Balanced (order : ByteOrder) (mem : Nat → BitVec 8) (off n : Nat) : Prop where
  dvd : wordSum order.read mem off n ≡ 0 [MOD 65535]
  pos : wordSum order.read mem off n ≠ 0

section Sums

variable {mem mem' : Nat → BitVec 8} {off n : Nat}

theorem sum_wordsAt (get : (Nat → BitVec 8) → Nat → Nat) (mem : Nat → BitVec 8) (off n : Nat) :
    (wordsAt get mem off n).sum = wordSum get mem off n := by
  induction n with
  | zero => rfl
  | succ n ih =>
    rw [wordSum, Finset.sum_range_succ, ← wordSum, ← ih, wordsAt, List.range_succ,
      List.map_append, List.sum_append]
    simp [wordsAt]

theorem wordSum_succ (get : (Nat → BitVec 8) → Nat → Nat) (mem : Nat → BitVec 8) (off n : Nat) :
    wordSum get mem off (n + 1) = wordSum get mem (off + 2) n + get mem off := by
  rw [wordSum, Finset.sum_range_succ']
  refine congrArg (· + _) (Finset.sum_congr rfl fun k _ => ?_)
  rw [show off + 2 * (k + 1) = off + 2 + 2 * k by omega]

theorem wordSum_congr {get : (Nat → BitVec 8) → Nat → Nat}
    (h : ∀ k, k < n → get mem' (off + 2 * k) = get mem (off + 2 * k)) :
    wordSum get mem' off n = wordSum get mem off n :=
  Finset.sum_congr rfl fun k hk => h k (Finset.mem_range.mp hk)

theorem read_lt (order : ByteOrder) (mem : Nat → BitVec 8) (off : Nat) :
    order.read mem off < 2 ^ 16 := by
  have h₀ := (mem off).isLt
  have h₁ := (mem (off + 1)).isLt
  cases order with
  | little =>
    show le16 mem off < 2 ^ 16
    unfold le16
    omega
  | big =>
    show be16 mem off < 2 ^ 16
    unfold be16
    omega

theorem read_congr (order : ByteOrder) {i : Nat} (hlow : mem' i = mem i)
    (hhigh : mem' (i + 1) = mem (i + 1)) : order.read mem' i = order.read mem i := by
  cases order with
  | little =>
    show le16 mem' i = le16 mem i
    rw [le16, le16, hlow, hhigh]
  | big =>
    show be16 mem' i = be16 mem i
    rw [be16, be16, hlow, hhigh]

theorem wordSum_le (order : ByteOrder) (mem : Nat → BitVec 8) (off n : Nat) :
    wordSum order.read mem off n ≤ n * 65535 := by
  induction n generalizing off with
  | zero => exact Nat.le_refl 0
  | succ n ih =>
    have hfirst := read_lt order mem off
    have hrest := ih (off + 2)
    rw [wordSum_succ]
    omega

end Sums

/-! ## Byte orders -/

section Orders

variable {mem : Nat → BitVec 8} {off n : Nat} {host : ByteOrder}

/-- The bytes of a word exchanged: a factor of 256, in either direction. -/
theorem exists_read_modEq (host reader : ByteOrder) :
    ∃ c, ∀ mem off, reader.read mem off ≡ c * host.read mem off [MOD 65535] := by
  by_cases hsame : reader = host
  · refine ⟨1, fun mem off => ?_⟩
    rw [hsame, Nat.one_mul]
  refine ⟨256, fun mem off => ?_⟩
  cases host with
  | little =>
    cases reader with
    | little => exact absurd rfl hsame
    | big =>
      have hcarry := carry_modEq 16 ((mem off).toNat * 256) (mem (off + 1)).toNat
      have hle : 256 * le16 mem off =
          (mem off).toNat * 256 + 2 ^ 16 * (mem (off + 1)).toNat := by
        unfold le16
        omega
      show be16 mem off ≡ 256 * le16 mem off [MOD 65535]
      rw [hle]
      exact hcarry.symm
  | big =>
    cases reader with
    | big => exact absurd rfl hsame
    | little =>
      have hcarry := carry_modEq 16 ((mem (off + 1)).toNat * 256) (mem off).toNat
      have hbe : 256 * be16 mem off =
          (mem (off + 1)).toNat * 256 + 2 ^ 16 * (mem off).toNat := by
        unfold be16
        omega
      show le16 mem off ≡ 256 * be16 mem off [MOD 65535]
      rw [hbe, le16, Nat.add_comm]
      exact hcarry.symm

theorem exists_wordSum_modEq (host reader : ByteOrder) (mem : Nat → BitVec 8) (off n : Nat) :
    ∃ c, wordSum reader.read mem off n ≡ c * wordSum host.read mem off n [MOD 65535] := by
  obtain ⟨c, hword⟩ := exists_read_modEq host reader
  refine ⟨c, ?_⟩
  induction n generalizing off with
  | zero => rfl
  | succ n ih =>
    rw [wordSum_succ, wordSum_succ, Nat.mul_add]
    exact (ih (off + 2)).add (hword mem off)

/-- A word is zero in either order for zero bytes only. -/
theorem read_eq_zero_iff (order : ByteOrder) :
    order.read mem off = 0 ↔ mem off = 0#8 ∧ mem (off + 1) = 0#8 := by
  rw [← BitVec.toNat_inj, ← BitVec.toNat_inj, BitVec.toNat_zero]
  cases order with
  | little =>
    show le16 mem off = 0 ↔ _
    unfold le16
    omega
  | big =>
    show be16 mem off = 0 ↔ _
    unfold be16
    omega

theorem wordSum_eq_zero_iff (host reader : ByteOrder) :
    wordSum reader.read mem off n = 0 ↔ wordSum host.read mem off n = 0 := by
  rw [wordSum, wordSum, Finset.sum_eq_zero_iff, Finset.sum_eq_zero_iff]
  refine forall_congr' fun k => imp_congr_right fun _ => ?_
  rw [read_eq_zero_iff, read_eq_zero_iff]

theorem Balanced.reorder (h : Balanced host mem off n) (reader : ByteOrder) :
    Balanced reader mem off n where
  dvd := by
    obtain ⟨c, hfactor⟩ := exists_wordSum_modEq host reader mem off n
    exact hfactor.trans (h.dvd.mul_left c)
  pos := fun hzero => h.pos ((wordSum_eq_zero_iff host reader).mp hzero)

theorem Balanced.congr {mem' : Nat → BitVec 8} (h : Balanced host mem off n)
    (hbytes : ∀ i, off ≤ i → i < off + 2 * n → mem' i = mem i) : Balanced host mem' off n := by
  have hsum : wordSum host.read mem' off n = wordSum host.read mem off n :=
    wordSum_congr fun k hk =>
      read_congr host (hbytes _ (by omega) (by omega)) (hbytes _ (by omega) (by omega))
  refine ⟨?_, ?_⟩
  · rw [hsum]
    exact h.dvd
  · rw [hsum]
    exact h.pos

/-- What the sum of a balanced header folds to. -/
theorem Balanced.folds_to (h : Balanced host mem off n) {y : Nat}
    (hfolds : Folds 16 (wordSum host.read mem off n) y) : y = 0xffff :=
  hfolds.eq_allOnes h.dvd h.pos

theorem Balanced.onesSum_eq (h : Balanced host mem off n) :
    onesSum 16 (wordsAt host.read mem off n) = 0xffff := by
  have hwords : ∀ a ∈ wordsAt host.read mem off n, a < 2 ^ 16 := by
    intro a ha
    obtain ⟨k, -, rfl⟩ := List.mem_map.mp ha
    exact read_lt host mem _
  have hfolds := folds_onesSum hwords
  rw [sum_wordsAt] at hfolds
  exact h.folds_to hfolds

end Orders

/-! ## Stores -/

section Stores

variable {mem : Nat → BitVec 8} {off n i value : Nat}

theorem store_of_ne (order : ByteOrder) (h₀ : i ≠ off) (h₁ : i ≠ off + 1) :
    order.store mem off value i = mem i := by
  cases order with
  | little =>
    show putLe16 mem off value i = mem i
    rw [putLe16, Function.update_of_ne h₁, Function.update_of_ne h₀]
  | big =>
    show putBe16 mem off value i = mem i
    rw [putBe16, Function.update_of_ne h₁, Function.update_of_ne h₀]

theorem putLe16_of_ne (h₀ : i ≠ off) (h₁ : i ≠ off + 1) : putLe16 mem off value i = mem i :=
  store_of_ne .little h₀ h₁

theorem store_store (order : ByteOrder) (first : Nat) :
    order.store (order.store mem off first) off value = order.store mem off value := by
  funext i
  by_cases h : i = off ∨ i = off + 1
  · cases order with
    | little =>
      show putLe16 (putLe16 mem off first) off value i = putLe16 mem off value i
      simp only [putLe16, Function.update_apply]
      grind
    | big =>
      show putBe16 (putBe16 mem off first) off value i = putBe16 mem off value i
      simp only [putBe16, Function.update_apply]
      grind
  · rw [not_or] at h
    rw [store_of_ne order h.1 h.2, store_of_ne order h.1 h.2, store_of_ne order h.1 h.2]

theorem read_store_self (order : ByteOrder) (hvalue : value < 2 ^ 16) :
    order.read (order.store mem off value) off = value := by
  cases order with
  | little =>
    show le16 (putLe16 mem off value) off = value
    unfold le16 putLe16
    rw [Function.update_self, Function.update_of_ne (by omega), Function.update_self,
      BitVec.toNat_ofNat, BitVec.toNat_ofNat]
    omega
  | big =>
    show be16 (putBe16 mem off value) off = value
    unfold be16 putBe16
    rw [Function.update_self, Function.update_of_ne (by omega), Function.update_self,
      BitVec.toNat_ofNat, BitVec.toNat_ofNat]
    omega

theorem read_store_of_disjoint (order : ByteOrder) (h : i + 2 ≤ off ∨ off + 2 ≤ i) :
    order.read (order.store mem off value) i = order.read mem i :=
  read_congr order (store_of_ne order (by omega) (by omega))
    (store_of_ne order (by omega) (by omega))

/-- A word stored into a field that was zero adds its value. -/
theorem wordSum_store (order : ByteOrder) {f : Nat} (hf : f < n) (hvalue : value < 2 ^ 16)
    (hzero : order.read mem (off + 2 * f) = 0) :
    wordSum order.read (order.store mem (off + 2 * f) value) off n =
      wordSum order.read mem off n + value := by
  have hterm : ∀ k, order.read (order.store mem (off + 2 * f) value) (off + 2 * k) =
      order.read mem (off + 2 * k) + if k = f then value else 0 := by
    intro k
    by_cases hk : k = f
    · rw [hk, read_store_self order hvalue, hzero, if_pos rfl, Nat.zero_add]
    · rw [if_neg hk, read_store_of_disjoint order (by omega), Nat.add_zero]
  rw [wordSum, Finset.sum_congr rfl fun k _ => hterm k, Finset.sum_add_distrib,
    Finset.sum_ite_eq' (Finset.range n) f, if_pos (Finset.mem_range.mpr hf), ← wordSum]

end Stores

end Echo
end SfcCapio
