import SfcCapio.Foundation.OnesComplement

/-!
# Sums of bytes by position

The 16-bit words of a byte string are added modulo 65535 most easily byte by byte: a byte
at an even position has weight 1, one at an odd position weight 256.  In this form the sum
of a string is the sum of its pieces, whatever their lengths; a piece that was added at the
wrong parity is put right by a factor of 256, since `256 * 256` is 1 modulo 65535.
-/

namespace SfcCapio
namespace Foundation

/-- The weight of the byte at position `p`. -/
def weight (p : Nat) : Nat := if p % 2 = 0 then 1 else 256

/-- The bytes of a string that starts at position `p`, each with its weight. -/
def byteSum : Nat → List (BitVec 8) → Nat
  | _, [] => 0
  | p, b :: rest => weight p * b.toNat + byteSum (p + 1) rest

/-- The little-endian 16-bit words of a string, the last one padded with a zero byte. -/
def leWords : List (BitVec 8) → List Nat
  | [] => []
  | [b] => [b.toNat]
  | b :: c :: rest => (b.toNat + 256 * c.toNat) :: leWords rest

section

variable {p q : Nat} {bytes : List (BitVec 8)}

theorem weight_add_two (p : Nat) : weight (p + 2) = weight p := by
  unfold weight
  rw [Nat.add_mod_right]

theorem weight_pos (p : Nat) : 0 < weight p := by
  unfold weight
  split <;> decide

theorem weight_succ_modEq (p : Nat) : weight (p + 1) ≡ 256 * weight p [MOD 65535] := by
  unfold weight
  rcases Nat.mod_two_eq_zero_or_one p with hp | hp
  · rw [if_neg (by omega), if_pos hp]
  · rw [if_pos (by omega), if_neg (by omega)]
    decide

theorem byteSum_append (p : Nat) (bytes more : List (BitVec 8)) :
    byteSum p (bytes ++ more) = byteSum p bytes + byteSum (p + bytes.length) more := by
  induction bytes generalizing p with
  | nil => rw [List.nil_append, byteSum, Nat.zero_add, List.length_nil, Nat.add_zero]
  | cons b bytes ih =>
    have hpos : p + (bytes.length + 1) = p + 1 + bytes.length := by omega
    rw [List.cons_append, byteSum, byteSum, ih, List.length_cons, hpos, ← Nat.add_assoc]

theorem byteSum_add_two (p : Nat) (bytes : List (BitVec 8)) :
    byteSum (p + 2) bytes = byteSum p bytes := by
  induction bytes generalizing p with
  | nil => rfl
  | cons b bytes ih =>
    rw [byteSum, byteSum, weight_add_two, ← ih (p + 1)]

theorem byteSum_of_parity (hparity : p % 2 = q % 2) (bytes : List (BitVec 8)) :
    byteSum p bytes = byteSum q bytes := by
  have hlow : ∀ p, byteSum p bytes = byteSum (p % 2) bytes := by
    intro p
    induction p using Nat.strongRecOn with
    | ind p ih =>
      by_cases hp : p < 2
      · rw [Nat.mod_eq_of_lt hp]
      · obtain ⟨k, rfl⟩ := Nat.exists_eq_add_of_le' (Nat.le_of_not_lt hp)
        rw [byteSum_add_two, ih k (by omega), Nat.add_mod_right]
  rw [hlow p, hlow q, hparity]

theorem byteSum_succ_modEq (p : Nat) (bytes : List (BitVec 8)) :
    byteSum (p + 1) bytes ≡ 256 * byteSum p bytes [MOD 65535] := by
  induction bytes generalizing p with
  | nil => rfl
  | cons b bytes ih =>
    rw [byteSum, byteSum, Nat.mul_add, ← Nat.mul_assoc]
    exact ((weight_succ_modEq p).mul_right b.toNat).add (ih (p + 1))

theorem byteSum_eq_zero_iff : byteSum p bytes = 0 ↔ ∀ b ∈ bytes, b = 0#8 := by
  induction bytes generalizing p with
  | nil => simp [byteSum]
  | cons b bytes ih =>
    have hweight := weight_pos p
    rw [byteSum, Nat.add_eq_zero_iff, Nat.mul_eq_zero, ih, List.forall_mem_cons]
    refine and_congr_left fun _ => ?_
    rw [← BitVec.toNat_inj, BitVec.toNat_zero]
    omega

/-- The words of a string and its bytes have the same sum. -/
theorem sum_leWords (bytes : List (BitVec 8)) : (leWords bytes).sum = byteSum 0 bytes := by
  induction bytes using leWords.induct with
  | case1 => rfl
  | case2 b => simp [leWords, byteSum, weight]
  | case3 b c rest ih =>
    have heven : weight 0 = 1 := rfl
    have hodd : weight (0 + 1) = 256 := rfl
    rw [leWords, List.sum_cons, ih, byteSum, byteSum, byteSum_add_two, heven, hodd]
    omega

theorem leWords_lt (bytes : List (BitVec 8)) : ∀ a ∈ leWords bytes, a < 2 ^ 16 := by
  induction bytes using leWords.induct with
  | case1 => exact List.forall_mem_nil _
  | case2 b =>
    intro a ha
    have hb := b.isLt
    rw [leWords, List.mem_singleton] at ha
    omega
  | case3 b c rest ih =>
    intro a ha
    have hb := b.isLt
    have hc := c.isLt
    rcases List.mem_cons.mp ha with rfl | hrest
    · omega
    · exact ih a hrest

/-- The one's-complement sum of a string is what its byte sum folds to. -/
theorem folds_byteSum (bytes : List (BitVec 8)) :
    Folds 16 (byteSum 0 bytes) (onesSum 16 (leWords bytes)) := by
  rw [← sum_leWords]
  exact folds_onesSum (leWords_lt bytes)

end

/-- A number may be replaced by one of the same residue that is zero when it is. -/
theorem Folds.of_modEq {w x x' y : Nat} (h : Folds w x y) (hmod : x ≡ x' [MOD 2 ^ w - 1])
    (hzero : x = 0 ↔ x' = 0) : Folds w x' y :=
  ⟨h.lt, h.modEq.trans hmod, h.zero.trans hzero⟩

/-- What a number folds to depends on its residue and on whether it is zero. -/
theorem Folds.unique {w x x' y y' : Nat} (h : Folds w x y) (h' : Folds w x' y')
    (hmod : x ≡ x' [MOD 2 ^ w - 1]) (hzero : x = 0 ↔ x' = 0) : y = y' := by
  have hres : y ≡ y' [MOD 2 ^ w - 1] := h.modEq.trans (hmod.trans h'.modEq.symm)
  have hsame : y = 0 ↔ y' = 0 := h.zero.trans (hzero.trans h'.zero.symm)
  have hlt := h.lt
  have hlt' := h'.lt
  -- both are 0, or both lie between 1 and the modulus
  rcases Nat.eq_zero_or_pos y with hy | hy
  · rw [hy, hsame.mp hy]
  · have hy' : 0 < y' := Nat.pos_of_ne_zero fun hz => by
      rw [hsame.mpr hz] at hy
      exact Nat.lt_irrefl 0 hy
    have hpred : y - 1 ≡ y' - 1 [MOD 2 ^ w - 1] := by
      refine Nat.ModEq.add_right_cancel' 1 ?_
      rw [Nat.sub_add_cancel hy, Nat.sub_add_cancel hy']
      exact hres
    have heq := hpred.eq_of_lt_of_lt (by omega) (by omega)
    omega

end Foundation
end SfcCapio
