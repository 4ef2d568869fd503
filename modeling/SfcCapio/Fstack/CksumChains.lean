import Mathlib.Data.Nat.Bitwise
import SfcCapio.Foundation.ByteSums
import SfcCapio.Fstack.Cksum

/-!
# The checksum of an mbuf chain

`in_cksum_skip` adds up the data of a chain of mbufs, one call of `in_cksumdata` for each
mbuf.  `in_cksumdata` sums 16-bit words by the parity of the address, the checksum is over
words by the parity of the position in the packet; where the two differ the sum of the mbuf
is shifted by eight bits.

The result is the complement of the one's-complement sum of the selected bytes
(`in_cksum_skip_eq`).  Nothing of the segmentation, of the addresses and of the build is
left in it, so that a sender and a receiver who hold the same bytes in different chains
agree (`pseudo_cksum_verifies`).

`m_len`, `len` and `skip` are `int` in the source; here they are natural numbers, and the
results are about calls with `skip` at most `len`.
-/

namespace SfcCapio
namespace Fstack

open Foundation

/-- An mbuf: `mtod(m)` and `m_len`. -/
structure Mbuf where
  data : Nat
  len : Nat
deriving DecidableEq, Repr

/-- `ADDCARRY`. -/
def addCarry (x : BitVec 64) : BitVec 64 := if 65535#64 < x then x - 65535#64 else x

/-- `REDUCE16`. -/
def reduce16 (sum : BitVec 64) : BitVec 64 :=
  let l : BitVec 32 :=
    (sum.extractLsb' 0 16).setWidth 32 + (sum.extractLsb' 16 16).setWidth 32 +
      (sum.extractLsb' 32 16).setWidth 32 + (sum.extractLsb' 48 16).setWidth 32
  addCarry ((l.extractLsb' 0 16).setWidth 64 + (l.extractLsb' 16 16).setWidth 64)

/-- `in_addword`. -/
def inAddword (a b : BitVec 16) : BitVec 16 :=
  (addCarry (a.setWidth 64 + b.setWidth 64)).setWidth 16

/-- `in_pseudo`. -/
def inPseudo (a b c : BitVec 32) : BitVec 16 :=
  (reduce16 (a.setWidth 64 + b.setWidth 64 + c.setWidth 64)).setWidth 16

/-- The variables of `in_cksum_skip` in its loops. -/
structure SkipVars where
  len : Nat
  clen : Nat
  sum : BitVec 64

/-- From `skip_start` on: the bytes of one mbuf that are wanted. -/
def addMbuf (pureCap : Bool) (mem : Memory) (addr mlen : Nat) (v : SkipVars) : SkipVars :=
  let mlen := if v.len < mlen then v.len else mlen
  let part := (inCksumdata pureCap mem addr mlen).1
  { len := v.len - mlen
    clen := v.clen + mlen
    sum := v.sum + if (v.clen ^^^ addr) &&& 1 ≠ 0 then part <<< 8 else part }

/-- The second loop, `for (; m && len; m = m->m_next)`. -/
def addChain (pureCap : Bool) (mem : Memory) : List Mbuf → SkipVars → SkipVars
  | [], v => v
  | m :: rest, v =>
    if v.len = 0 then v
    else if m.len = 0 then addChain pureCap mem rest v
    else addChain pureCap mem rest (addMbuf pureCap mem m.data m.len v)

/-- The first loop, `for (; skip && m; m = m->m_next)`, and the second one after it.  The
jump to `skip_start` does not test `len`. -/
def skipChain (pureCap : Bool) (mem : Memory) : List Mbuf → Nat → SkipVars → SkipVars
  | [], _, v => v
  | m :: rest, skip, v =>
    if skip = 0 then addChain pureCap mem (m :: rest) v
    else if skip < m.len then
      addChain pureCap mem rest (addMbuf pureCap mem (m.data + skip) (m.len - skip) v)
    else skipChain pureCap mem rest (skip - m.len) v

/-- `in_cksum_skip`. -/
def inCksumSkip (pureCap : Bool) (mem : Memory) (m : List Mbuf) (len skip : Nat) : BitVec 16 :=
  let v := skipChain pureCap mem m skip { len := len - skip, clen := 0, sum := 0#64 }
  (~~~ reduce16 v.sum &&& 0xffff#64).setWidth 16

/-- `in_cksum_hdr`, over the 20 bytes of `struct ip`. -/
def inCksumHdr (pureCap : Bool) (mem : Memory) (ip : Nat) : BitVec 16 :=
  (~~~ reduce16 (inCksumdata pureCap mem ip 20).1 &&& 0xffff#64).setWidth 16

/-! ## Bytes -/

/-- The `n` bytes at `a`. -/
def dataBytes (mem : Memory) (a n : Nat) : List (BitVec 8) :=
  (List.range n).map fun i => mem (a + i)

/-- The packet that a chain holds. -/
def chainBytes (mem : Memory) (m : List Mbuf) : List (BitVec 8) :=
  m.flatMap fun b => dataBytes mem b.data b.len

section Bytes

variable {mem : Memory} {a n : Nat}

theorem length_dataBytes (mem : Memory) (a n : Nat) : (dataBytes mem a n).length = n := by
  rw [dataBytes, List.length_map, List.length_range]

theorem dataBytes_succ (mem : Memory) (a n : Nat) :
    dataBytes mem a (n + 1) = dataBytes mem a n ++ [mem (a + n)] := by
  rw [dataBytes, List.range_succ, List.map_append]
  rfl

theorem take_dataBytes (mem : Memory) (a n k : Nat) :
    (dataBytes mem a n).take k = dataBytes mem a (min k n) := by
  rw [dataBytes, ← List.map_take, List.take_range, ← dataBytes]

theorem drop_dataBytes (mem : Memory) (a n k : Nat) :
    (dataBytes mem a n).drop k = dataBytes mem (a + k) (n - k) := by
  refine List.ext_getElem ?_ ?_
  · rw [List.length_drop, length_dataBytes, length_dataBytes]
  · intro i _ _
    simp only [dataBytes, List.getElem_drop, List.getElem_map, List.getElem_range, Nat.add_assoc]

/-- The last byte of a buffer counts by its address. -/
theorem byteSum_dataBytes_succ (mem : Memory) (p a n : Nat) :
    byteSum p (dataBytes mem a (n + 1)) =
      byteSum p (dataBytes mem a n) + weight (p + n) * (mem (a + n)).toNat := by
  rw [dataBytes_succ, byteSum_append, length_dataBytes]
  rfl

end Bytes

/-! ## One buffer -/

section Buffer

variable {mem : Memory} {buf len : Nat}

/-- Byte `j` from the aligned address before the buffer on, with its weight. -/
def weighted (mem : Memory) (buf len j : Nat) : Nat :=
  weight j * (padded mem buf len (buf - buf % 4 + j)).toNat

theorem sum_weighted_halves (mem : Memory) (buf len n : Nat) :
    ∑ k ∈ Finset.range n, paddedHalf mem buf len k =
      ∑ j ∈ Finset.range (2 * n), weighted mem buf len j := by
  induction n with
  | zero => rfl
  | succ n ih =>
    have heven : weight (2 * n) = 1 := if_pos (by omega)
    have hodd : weight (2 * n + 1) = 256 := if_neg (by omega)
    rw [Finset.sum_range_succ, ih, show 2 * (n + 1) = 2 * n + 1 + 1 by omega,
      Finset.sum_range_succ, Finset.sum_range_succ, Nat.add_assoc]
    unfold weighted paddedHalf
    rw [heven, hodd, Nat.one_mul, Nat.add_assoc]

/-- Outside of the buffer there is nothing to add. -/
theorem weighted_eq_zero {j : Nat} (hj : j < buf % 4 ∨ buf % 4 + len ≤ j) :
    weighted mem buf len j = 0 := by
  unfold weighted padded
  rw [if_neg (by omega)]
  rfl

theorem sum_weighted_bytes (mem : Memory) (buf len : Nat) {m : Nat} (hm : m ≤ len) :
    ∑ j ∈ Finset.range (buf % 4 + m), weighted mem buf len j =
      byteSum buf (dataBytes mem buf m) := by
  induction m with
  | zero =>
    refine Finset.sum_eq_zero fun j hj => weighted_eq_zero (Or.inl ?_)
    rw [Finset.mem_range] at hj
    omega
  | succ m ih =>
    have hweight : weight (buf % 4 + m) = weight (buf + m) := by
      unfold weight
      rw [show (buf % 4 + m) % 2 = (buf + m) % 2 by omega]
    have hbyte : padded mem buf len (buf - buf % 4 + (buf % 4 + m)) = mem (buf + m) := by
      rw [show buf - buf % 4 + (buf % 4 + m) = buf + m by omega, padded, if_pos (by omega)]
    rw [← Nat.add_assoc, Finset.sum_range_succ, ih (by omega), byteSum_dataBytes_succ, weighted,
      hweight, hbyte]

/-- The 16-bit words at the alignment of the buffer are its bytes by address. -/
theorem halfSum_eq_byteSum (mem : Memory) (buf len : Nat) :
    halfSum mem buf len = byteSum buf (dataBytes mem buf len) := by
  rw [halfSum, sum_weighted_halves, ← sum_weighted_bytes mem buf len (Nat.le_refl len)]
  refine (Finset.sum_subset (Finset.range_subset_range.mpr (by omega)) ?_).symm
  intro j _ hj
  rw [Finset.mem_range] at hj
  exact weighted_eq_zero (Or.inr (by omega))

theorem reduce32_eq_zero_iff (sum : BitVec 64) : (reduce32 sum).toNat = 0 ↔ sum.toNat = 0 := by
  rw [toNat_reduce32]
  omega

theorem reduce32_le (sum : BitVec 64) : (reduce32 sum).toNat ≤ 4 * 65535 := by
  have hlt := sum.isLt
  rw [toNat_reduce32]
  omega

/-- A number that stands for bytes from position `p` on: their residue, and zero for zero
bytes only. -/
structure Counts (part p : Nat) (bytes : List (BitVec 8)) : Prop where
  modEq : part ≡ byteSum p bytes [MOD 65535]
  zero : part = 0 ↔ byteSum p bytes = 0

theorem Counts.append {x y p : Nat} {bytes more : List (BitVec 8)} (hx : Counts x p bytes)
    (hy : Counts y (p + bytes.length) more) : Counts (x + y) p (bytes ++ more) where
  modEq := by
    rw [byteSum_append]
    exact hx.modEq.add hy.modEq
  zero := by
    rw [byteSum_append, Nat.add_eq_zero_iff, Nat.add_eq_zero_iff, hx.zero, hy.zero]

/-- Shifted by a byte, it stands for the bytes one position on. -/
theorem Counts.shift {x p q : Nat} {bytes : List (BitVec 8)} (hx : Counts x p bytes)
    (hparity : q % 2 ≠ p % 2) : Counts (x * 256) q bytes where
  modEq := by
    rw [byteSum_of_parity (show q % 2 = (p + 1) % 2 by omega), Nat.mul_comm]
    exact (hx.modEq.mul_left 256).trans (byteSum_succ_modEq p bytes).symm
  zero := by
    rw [byteSum_eq_zero_iff, ← byteSum_eq_zero_iff (p := p), ← hx.zero]
    omega

theorem sum_paddedWord_eq_zero_iff (mem : Memory) (buf len : Nat) :
    ∑ k ∈ Finset.range (wordCount buf len), (paddedWord mem buf len k).toNat = 0 ↔
      byteSum buf (dataBytes mem buf len) = 0 := by
  have hhalves : ∀ n, ∑ k ∈ Finset.range n, (paddedWord mem buf len k).toNat = 0 ↔
      ∑ k ∈ Finset.range (2 * n), paddedHalf mem buf len k = 0 := by
    intro n
    induction n with
    | zero => exact Iff.rfl
    | succ n ih =>
      rw [Finset.sum_range_succ, show 2 * (n + 1) = 2 * n + 1 + 1 by omega,
        Finset.sum_range_succ, Finset.sum_range_succ, Nat.add_eq_zero_iff, ih, toNat_paddedWord]
      omega
  rw [hhalves, sum_paddedHalf (by unfold wordCount; omega), halfSum_eq_byteSum]

theorem counts_inCksumdata (pureCap : Bool) (mem : Memory) (buf len : Nat)
    (hlen : len < 2 ^ 31) :
    Counts (inCksumdata pureCap mem buf len).1.toNat buf (dataBytes mem buf len) where
  modEq := by
    rw [← halfSum_eq_byteSum]
    exact inCksumdata_modEq pureCap mem buf hlen
  zero := by
    have hcount : wordCount buf len ≤ 2 ^ 32 := by
      unfold wordCount
      omega
    rw [inCksumdata_eq, reduce32_eq_zero_iff, (toNat_paddedSum mem buf len _ hcount).1]
    exact sum_paddedWord_eq_zero_iff mem buf len

theorem inCksumdata_le (pureCap : Bool) (mem : Memory) (buf len : Nat) :
    (inCksumdata pureCap mem buf len).1.toNat ≤ 4 * 65535 := by
  rw [inCksumdata_eq]
  exact reduce32_le _

/-- The sum of an mbuf, shifted where the parity of its address is not that of its
position: it stands for the bytes by position. -/
theorem counts_part (pureCap : Bool) (mem : Memory) (clen addr mlen : Nat)
    (hmlen : mlen < 2 ^ 31) {part : BitVec 64}
    (hpart : part = (inCksumdata pureCap mem addr mlen).1) :
    Counts (if (clen ^^^ addr) &&& 1 ≠ 0 then part <<< 8 else part).toNat clen
        (dataBytes mem addr mlen) ∧
      (if (clen ^^^ addr) &&& 1 ≠ 0 then part <<< 8 else part).toNat < 2 ^ 26 := by
  have hcounts := counts_inCksumdata pureCap mem addr mlen hmlen
  have hle := inCksumdata_le pureCap mem addr mlen
  have hbit : (clen ^^^ addr) &&& 1 = (clen + addr) % 2 := by
    rw [Nat.and_one_is_mod, Nat.xor_mod_two_eq]
  rw [← hpart] at hcounts hle
  by_cases hparity : clen % 2 = addr % 2
  · rw [if_neg (by rw [hbit]; omega)]
    refine ⟨⟨?_, ?_⟩, by omega⟩
    · rw [byteSum_of_parity hparity]
      exact hcounts.modEq
    · rw [byteSum_of_parity hparity]
      exact hcounts.zero
  · have hshift : (part <<< 8).toNat = part.toNat * 256 := by
      rw [BitVec.toNat_shiftLeft, Nat.shiftLeft_eq]
      omega
    rw [if_pos (by rw [hbit]; omega), hshift]
    exact ⟨hcounts.shift hparity, by omega⟩

end Buffer

/-! ## The chain -/

section Chain

variable (pureCap : Bool) (mem : Memory) {total : Nat} {v : SkipVars} {done : List (BitVec 8)}

/-- Where the loops stand: `done` is summed, and of the `total` bytes wanted `len` are
left. -/
structure Covers (total : Nat) (v : SkipVars) (done : List (BitVec 8)) : Prop where
  clen : v.clen = done.length
  len : v.len = total - done.length
  within : done.length ≤ total
  counts : Counts v.sum.toNat 0 done
  small : v.sum.toNat ≤ done.length * 2 ^ 26

theorem covers_start (total : Nat) : Covers total { len := total, clen := 0, sum := 0#64 } [] where
  clen := rfl
  len := rfl
  within := Nat.zero_le total
  counts := ⟨rfl, Iff.rfl⟩
  small := Nat.zero_le _

/-- One mbuf: its bytes, as far as they are wanted. -/
theorem covers_addMbuf (htotal : total < 2 ^ 31) (h : Covers total v done) (addr mlen : Nat) :
    Covers total (addMbuf pureCap mem addr mlen v)
      (done ++ (dataBytes mem addr mlen).take v.len) := by
  have hlen := h.len
  have hwithin := h.within
  have hsmall := h.small
  obtain ⟨n, hn⟩ : ∃ n, n = if v.len < mlen then v.len else mlen := ⟨_, rfl⟩
  have hmin : n = min v.len mlen := by
    rw [hn]
    split <;> omega
  obtain ⟨hpart, hbound⟩ := counts_part pureCap mem v.clen addr n (by omega) rfl
  rw [take_dataBytes, ← hmin]
  unfold addMbuf
  rw [← hn]
  dsimp only
  generalize (if (v.clen ^^^ addr) &&& 1 ≠ 0 then (inCksumdata pureCap mem addr n).1 <<< 8
    else (inCksumdata pureCap mem addr n).1) = part at hpart hbound
  rw [h.clen, ← Nat.zero_add done.length] at hpart
  -- the accumulator does not wrap: a mbuf without bytes adds nothing
  have hzero : n = 0 → part.toNat = 0 := by
    rintro rfl
    exact hpart.zero.mpr rfl
  have hpartLe : part.toNat ≤ n * 2 ^ 26 := by
    rcases Nat.eq_zero_or_pos n with hn | hn
    · rw [hzero hn]
      exact Nat.zero_le _
    · exact Nat.le_trans (Nat.le_of_lt hbound) (Nat.le_mul_of_pos_left _ hn)
  have hlength : (done ++ dataBytes mem addr n).length = done.length + n := by
    rw [List.length_append, length_dataBytes]
  have hsum : (v.sum + part).toNat = v.sum.toNat + part.toNat := by
    rw [BitVec.toNat_add, Nat.mod_eq_of_lt]
    omega
  refine ⟨?_, ?_, ?_, ?_, ?_⟩
  · rw [hlength, h.clen]
  · rw [hlength]
    dsimp only
    omega
  · rw [hlength]
    omega
  · rw [hsum]
    exact h.counts.append hpart
  · rw [hsum, hlength]
    omega

/-- The second loop sums what is wanted of the rest of the chain. -/
theorem covers_addChain (htotal : total < 2 ^ 31) (m : List Mbuf) :
    ∀ (v : SkipVars) (done : List (BitVec 8)), Covers total v done →
      Covers total (addChain pureCap mem m v) (done ++ (chainBytes mem m).take v.len) := by
  induction m with
  | nil =>
    intro v done h
    rw [chainBytes, List.flatMap_nil, List.take_nil, List.append_nil]
    exact h
  | cons b m ih =>
    intro v done h
    have hbytes : chainBytes mem (b :: m) = dataBytes mem b.data b.len ++ chainBytes mem m := rfl
    rw [addChain]
    split
    · next hdone =>
        rw [hdone, List.take_zero, List.append_nil]
        exact h
    · split
      · next hempty =>
          rw [hbytes, hempty]
          exact ih v done h
      · have hnext := ih _ _ (covers_addMbuf pureCap mem htotal h b.data b.len)
        have hleft : (addMbuf pureCap mem b.data b.len v).len = v.len - b.len := by
          unfold addMbuf
          dsimp only
          split <;> omega
        rw [hleft, List.append_assoc] at hnext
        rw [hbytes, List.take_append, length_dataBytes]
        exact hnext

/-- Both loops: the bytes behind `skip`, as far as they are wanted. -/
theorem covers_skipChain (htotal : total < 2 ^ 31) (m : List Mbuf) :
    ∀ (skip : Nat) (v : SkipVars), Covers total v [] →
      Covers total (skipChain pureCap mem m skip v)
        (((chainBytes mem m).drop skip).take total) := by
  induction m with
  | nil =>
    intro skip v h
    rw [chainBytes, List.flatMap_nil, List.drop_nil, List.take_nil]
    exact h
  | cons b m ih =>
    intro skip v h
    have hbytes : chainBytes mem (b :: m) = dataBytes mem b.data b.len ++ chainBytes mem m := rfl
    have hlen : v.len = total := h.len
    rw [skipChain]
    split
    · next hnone =>
        have hall := covers_addChain pureCap mem htotal (b :: m) v [] h
        rw [hlen, List.nil_append] at hall
        rw [hnone, List.drop_zero]
        exact hall
    · split
      · next hinside =>
          -- the skipped bytes end inside of this mbuf
          have hfirst := covers_addMbuf pureCap mem htotal h (b.data + skip)
            (b.len - skip)
          have hnext := covers_addChain pureCap mem htotal m _ _ hfirst
          have hleft : (addMbuf pureCap mem (b.data + skip) (b.len - skip) v).len =
              total - (b.len - skip) := by
            unfold addMbuf
            dsimp only
            rw [hlen]
            split <;> omega
          rw [hleft, hlen, List.nil_append] at hnext
          rw [hbytes, List.drop_append, length_dataBytes, drop_dataBytes,
            Nat.sub_eq_zero_of_le (Nat.le_of_lt hinside), List.drop_zero, List.take_append,
            length_dataBytes]
          exact hnext
      · next hbehind =>
          rw [hbytes, List.drop_append, length_dataBytes, drop_dataBytes,
            Nat.sub_eq_zero_of_le (Nat.le_of_not_lt hbehind)]
          exact ih (skip - b.len) v h

end Chain

/-! ## Folding -/

/-- `ADDCARRY` folds once where it has to. -/
theorem folds_addCarry {x : BitVec 64} (hx : x.toNat < 2 * 65536 - 1) :
    Folds 16 x.toNat (addCarry x).toNat := by
  unfold addCarry
  split
  · next hcarry =>
      rw [BitVec.lt_def, show (65535#64).toNat = 65535 from rfl] at hcarry
      have hsub : (x - 65535#64).toNat = x.toNat % 2 ^ 16 + x.toNat / 2 ^ 16 := by
        rw [BitVec.toNat_sub_of_le (by
          rw [BitVec.le_def, show (65535#64).toNat = 65535 from rfl]
          omega), show (65535#64).toNat = 65535 from rfl]
        omega
      rw [hsub]
      exact Folds.step (Folds.refl (by omega))
  · next hfits =>
      rw [BitVec.lt_def, show (65535#64).toNat = 65535 from rfl] at hfits
      exact Folds.refl (by omega)

/-- The two 16-bit parts of a number below `2 ^ 18`, added. -/
theorem toNat_halves {l : BitVec 32} (hl : l.toNat < 2 ^ 18) :
    ((l.extractLsb' 0 16).setWidth 64 + (l.extractLsb' 16 16).setWidth 64).toNat =
      l.toNat % 2 ^ 16 + l.toNat / 2 ^ 16 := by
  have hhigh : l.toNat / 2 ^ 16 < 4 := by omega
  have hlow : l.toNat % 2 ^ 16 < 2 ^ 16 := Nat.mod_lt _ (by decide)
  rw [BitVec.toNat_add, BitVec.toNat_setWidth, BitVec.toNat_setWidth, BitVec.extractLsb'_toNat,
    BitVec.extractLsb'_toNat, Nat.shiftRight_zero, Nat.shiftRight_eq_div_pow]
  generalize l.toNat / 2 ^ 16 = high at hhigh ⊢
  generalize l.toNat % 2 ^ 16 = low at hlow ⊢
  omega

/-- The four 16-bit parts add up alike in 32 and in 64 bits. -/
theorem toNat_parts (sum : BitVec 64) :
    ((sum.extractLsb' 0 16).setWidth 32 + (sum.extractLsb' 16 16).setWidth 32 +
      (sum.extractLsb' 32 16).setWidth 32 + (sum.extractLsb' 48 16).setWidth 32 :
        BitVec 32).toNat = (reduce32 sum).toNat := by
  have hpart : ∀ k, (sum.extractLsb' k 16).toNat < 2 ^ 16 := fun k => BitVec.isLt _
  have h₀ := hpart 0
  have h₁ := hpart 16
  have h₂ := hpart 32
  have h₃ := hpart 48
  rw [reduce32]
  simp only [BitVec.toNat_add, BitVec.toNat_setWidth]
  omega

/-- `REDUCE16` folds any 64-bit sum to 16 bits. -/
theorem folds_reduce16 (sum : BitVec 64) : Folds 16 sum.toNat (reduce16 sum).toNat := by
  have hle := reduce32_le sum
  have hparts := toNat_parts sum
  unfold reduce16
  dsimp only
  generalize ((sum.extractLsb' 0 16).setWidth 32 + (sum.extractLsb' 16 16).setWidth 32 +
    (sum.extractLsb' 32 16).setWidth 32 + (sum.extractLsb' 48 16).setWidth 32 : BitVec 32) = l
    at hparts
  have hhalves := toNat_halves (l := l) (by omega)
  have hfold : Folds 16 l.toNat
      (addCarry ((l.extractLsb' 0 16).setWidth 64 + (l.extractLsb' 16 16).setWidth 64)).toNat := by
    refine Folds.step ?_
    rw [← hhalves]
    exact folds_addCarry (by rw [hhalves]; omega)
  rw [hparts] at hfold
  exact hfold.of_modEq (reduce32_modEq sum) (reduce32_eq_zero_iff sum)

/-! ## Checksums -/

section Checksums

/-- The one's-complement sum of the 16-bit words of a string. -/
def onesWord (bytes : List (BitVec 8)) : BitVec 16 :=
  BitVec.ofNat 16 (onesSum 16 (leWords bytes))

theorem toNat_onesWord (bytes : List (BitVec 8)) :
    (onesWord bytes).toNat = onesSum 16 (leWords bytes) := by
  rw [onesWord, BitVec.toNat_ofNat, Nat.mod_eq_of_lt (folds_byteSum bytes).lt]

theorem complement_eq {sum : BitVec 64} {bytes : List (BitVec 8)}
    (hsum : Counts sum.toNat 0 bytes) :
    (~~~ reduce16 sum &&& 0xffff#64).setWidth 16 = ~~~ onesWord bytes := by
  have hfold := folds_reduce16 sum
  have hsame : (reduce16 sum).toNat = onesSum 16 (leWords bytes) :=
    hfold.unique (folds_byteSum bytes) hsum.modEq hsum.zero
  have hword : (reduce16 sum).setWidth 16 = onesWord bytes := by
    apply BitVec.eq_of_toNat_eq
    rw [BitVec.toNat_setWidth, toNat_onesWord, hsame, Nat.mod_eq_of_lt (folds_byteSum bytes).lt]
  rw [BitVec.setWidth_and, BitVec.setWidth_not (by decide), hword]
  exact BitVec.and_allOnes

/-- `in_cksum_skip` returns the complement of the sum of the bytes selected. -/
theorem inCksumSkip_eq (pureCap : Bool) (mem : Memory) (m : List Mbuf) {len skip : Nat}
    (hskip : skip ≤ len) (hlen : len < 2 ^ 31) :
    inCksumSkip pureCap mem m len skip =
      ~~~ onesWord (((chainBytes mem m).take len).drop skip) := by
  have hcovers := covers_skipChain pureCap mem (by omega) m skip _ (covers_start (len - skip))
  rw [inCksumSkip, complement_eq hcovers.counts, List.drop_take]

theorem inCksumHdr_eq (pureCap : Bool) (mem : Memory) {ip : Nat} (haligned : ip % 2 = 0) :
    inCksumHdr pureCap mem ip = ~~~ onesWord (dataBytes mem ip 20) := by
  have hcounts := counts_inCksumdata pureCap mem ip 20 (by decide)
  refine complement_eq ⟨?_, ?_⟩
  · rw [byteSum_of_parity (p := 0) (q := ip) haligned.symm]
    exact hcounts.modEq
  · rw [byteSum_of_parity (p := 0) (q := ip) haligned.symm]
    exact hcounts.zero

/-- **The checksum of a chain.**  For every chain of mbufs, every placing of their data and
either build, `in_cksum_skip` returns the complement of the one's-complement sum of the
bytes from `skip` up to `len`.  Where these are a header without options at an even address,
`in_cksum_hdr` returns the same for it. -/
theorem in_cksum_skip_eq (pureCap : Bool) (mem : Memory) (m : List Mbuf) (len skip : Nat)
    (hskip : skip ≤ len) (hlen : len < 2 ^ 31) :
    inCksumSkip pureCap mem m len skip =
        ~~~ BitVec.ofNat 16 (onesSum 16 (leWords (((chainBytes mem m).take len).drop skip))) ∧
      ∀ (pureCap' : Bool) (mem' : Memory) (ip : Nat), ip % 2 = 0 →
        dataBytes mem' ip 20 = ((chainBytes mem m).take len).drop skip →
        inCksumHdr pureCap' mem' ip = inCksumSkip pureCap mem m len skip := by
  refine ⟨inCksumSkip_eq pureCap mem m hskip hlen, ?_⟩
  intro pureCap' mem' ip haligned hbytes
  rw [inCksumHdr_eq pureCap' mem' haligned, hbytes, inCksumSkip_eq pureCap mem m hskip hlen]

/-- Bytes that differ from address to address. -/
def ramp : Memory := fun a => BitVec.ofNat 8 (31 * a)

/-- Eight bytes in three mbufs, one of them empty, at odd and even addresses. -/
def threeMbufs : List Mbuf := [⟨5, 3⟩, ⟨16, 0⟩, ⟨9, 5⟩]

theorem in_cksum_skip_eq_three_mbufs :
    1 ≤ 8 ∧ ((chainBytes ramp threeMbufs).take 8).drop 1 =
        [0xba#8, 0xd9#8, 0x17#8, 0x36#8, 0x55#8, 0x74#8, 0x93#8] ∧
      inCksumSkip true ramp threeMbufs 8 1 =
        ~~~ BitVec.ofNat 16 (onesSum 16 (leWords (((chainBytes ramp threeMbufs).take 8).drop 1))) :=
  ⟨by decide, by decide,
    (in_cksum_skip_eq true ramp threeMbufs 8 1 (by decide) (by decide)).1⟩

/-! ## A packet and its checksum field -/

/-- A packet whose checksum field, behind `pre`, holds `w` in little-endian order. -/
def withField (pre : List (BitVec 8)) (w : BitVec 16) (post : List (BitVec 8)) :
    List (BitVec 8) :=
  pre ++ (w.extractLsb' 0 8 :: w.extractLsb' 8 8 :: post)

theorem byteSum_withField {pre : List (BitVec 8)} (heven : pre.length % 2 = 0) (w : BitVec 16)
    (post : List (BitVec 8)) :
    byteSum 0 (withField pre w post) = byteSum 0 pre + byteSum 0 post + w.toNat := by
  have hlt := w.isLt
  have hpost : byteSum (0 + pre.length + 1 + 1) post = byteSum 0 post :=
    byteSum_of_parity (by omega) post
  have hlow : weight (0 + pre.length) = 1 := if_pos (by omega)
  have hhigh : weight (0 + pre.length + 1) = 256 := if_neg (by omega)
  rw [withField, byteSum_append, byteSum, byteSum, hpost, hlow, hhigh, BitVec.extractLsb'_toNat,
    BitVec.extractLsb'_toNat, Nat.shiftRight_zero, Nat.shiftRight_eq_div_pow]
  omega

theorem folds_inPseudo (a b c : BitVec 32) :
    Folds 16 (a.toNat + b.toNat + c.toNat) (inPseudo a b c).toNat := by
  have ha := a.isLt
  have hb := b.isLt
  have hc := c.isLt
  have hfold := folds_reduce16 (a.setWidth 64 + b.setWidth 64 + c.setWidth 64)
  have hsum : (a.setWidth 64 + b.setWidth 64 + c.setWidth 64).toNat =
      a.toNat + b.toNat + c.toNat := by
    simp only [BitVec.toNat_add, BitVec.toNat_setWidth]
    omega
  rw [hsum] at hfold
  rw [inPseudo, BitVec.toNat_setWidth, Nat.mod_eq_of_lt hfold.lt]
  exact hfold

theorem folds_inAddword (a b : BitVec 16) :
    Folds 16 (a.toNat + b.toNat) (inAddword a b).toNat := by
  have ha := a.isLt
  have hb := b.isLt
  have hsum : (a.setWidth 64 + b.setWidth 64).toNat = a.toNat + b.toNat := by
    simp only [BitVec.toNat_add, BitVec.toNat_setWidth]
    omega
  have hfold := folds_addCarry (x := a.setWidth 64 + b.setWidth 64) (by omega)
  rw [hsum] at hfold
  rw [inAddword, BitVec.toNat_setWidth, Nat.mod_eq_of_lt hfold.lt]
  exact hfold

/-- Once the field with the seed has been replaced by the complement of the sum, the seed and
the packet add up to a multiple of 65535 other than zero. -/
theorem seed_add_byteSum {pre : List (BitVec 8)} (heven : pre.length % 2 = 0) (seed : BitVec 16)
    (post : List (BitVec 8)) {bytes : List (BitVec 8)}
    (hbytes : bytes = withField pre (~~~ onesWord (withField pre seed post)) post) :
    seed.toNat + byteSum 0 bytes ≡ 0 [MOD 2 ^ 16 - 1] ∧ seed.toNat + byteSum 0 bytes ≠ 0 := by
  subst hbytes
  obtain ⟨sent, hsent⟩ : ∃ sent, sent = onesWord (withField pre seed post) := ⟨_, rfl⟩
  have hfold := folds_byteSum (withField pre seed post)
  rw [← toNat_onesWord, ← hsent, byteSum_withField heven] at hfold
  rw [← hsent, byteSum_withField heven]
  have hnot : (~~~ sent).toNat = 65535 - sent.toNat := BitVec.toNat_not
  have hlt := sent.isLt
  generalize byteSum 0 pre + byteSum 0 post = base at hfold ⊢
  constructor
  · calc seed.toNat + (base + (~~~ sent).toNat)
        = base + seed.toNat + (~~~ sent).toNat := by omega
      _ ≡ sent.toNat + (~~~ sent).toNat [MOD 2 ^ 16 - 1] := hfold.modEq.symm.add_right _
      _ = 65535 := by omega
      _ ≡ 0 [MOD 2 ^ 16 - 1] := by decide
  · intro hzero
    have hsentZero := hfold.zero
    omega

/-- The pseudo header as 16-bit words. -/
def pseudoWords (a b c : BitVec 32) : List Nat :=
  [a, b, c].flatMap fun w => [w.toNat % 2 ^ 16, w.toNat / 2 ^ 16]

theorem pseudoWords_lt (a b c : BitVec 32) : ∀ x ∈ pseudoWords a b c, x < 2 ^ 16 := by
  have ha := a.isLt
  have hb := b.isLt
  have hc := c.isLt
  simp only [pseudoWords, List.flatMap_cons, List.flatMap_nil, List.cons_append, List.nil_append,
    List.mem_cons, List.not_mem_nil, or_false]
  omega

/-- `in_pseudo` is the sum of the words of the pseudo header. -/
theorem folds_sum_pseudoWords (a b c : BitVec 32) :
    Folds 16 (pseudoWords a b c).sum (inPseudo a b c).toNat := by
  have hsum : (pseudoWords a b c).sum =
      (a.toNat % 2 ^ 16 + a.toNat / 2 ^ 16) + (b.toNat % 2 ^ 16 + b.toNat / 2 ^ 16) +
        (c.toNat % 2 ^ 16 + c.toNat / 2 ^ 16) := by
    simp only [pseudoWords, List.flatMap_cons, List.flatMap_nil, List.cons_append,
      List.nil_append, List.sum_cons, List.sum_nil]
    omega
  rw [hsum]
  apply (folds_inPseudo a b c).of_modEq
  · exact (((fold_modEq 16 a.toNat).add (fold_modEq 16 b.toNat)).add (fold_modEq 16 c.toNat)).symm
  · omega

/-- **Sender and receiver.**  The sender puts the sum of the pseudo header into the checksum
field, and then what `in_cksum_skip` returns for the packet.  The receiver may hold the
packet in other mbufs, at other addresses and in the other build: the sum that it gets from
`in_addword` is all ones, and so is the sum of the words of pseudo header and packet. -/
theorem pseudo_cksum_verifies (pureCap pureCap' : Bool) (mem mem' : Memory) (m m' : List Mbuf)
    (a b c : BitVec 32) (pre post : List (BitVec 8)) (len len' skip skip' : Nat)
    (heven : pre.length % 2 = 0)
    (hskip : skip ≤ len) (hlen : len < 2 ^ 31) (hskip' : skip' ≤ len') (hlen' : len' < 2 ^ 31)
    (hsent : ((chainBytes mem m).take len).drop skip = withField pre (inPseudo a b c) post)
    (hreceived : ((chainBytes mem' m').take len').drop skip' =
      withField pre (inCksumSkip pureCap mem m len skip) post) :
    inAddword (inPseudo a b c) (~~~ inCksumSkip pureCap' mem' m' len' skip') = 0xffff#16 ∧
      onesSum 16 (pseudoWords a b c ++ leWords (((chainBytes mem' m').take len').drop skip')) =
        0xffff := by
  rw [inCksumSkip_eq pureCap mem m hskip hlen, hsent] at hreceived
  rw [inCksumSkip_eq pureCap' mem' m' hskip' hlen', BitVec.not_not]
  obtain ⟨hdvd, hpos⟩ := seed_add_byteSum heven (inPseudo a b c) post hreceived
  generalize ((chainBytes mem' m').take len').drop skip' = bytes at hdvd hpos ⊢
  have hseen := folds_byteSum bytes
  constructor
  · rw [← toNat_onesWord] at hseen
    apply BitVec.eq_of_toNat_eq
    apply (folds_inAddword (inPseudo a b c) (onesWord bytes)).eq_allOnes
    · exact (hseen.modEq.add_left _).trans hdvd
    · have hzero := hseen.zero
      omega
  · have hpseudo := folds_sum_pseudoWords a b c
    have hwords : ∀ x ∈ pseudoWords a b c ++ leWords bytes, x < 2 ^ 16 := by
      intro x hx
      exact (List.mem_append.mp hx).elim (pseudoWords_lt a b c x) (leWords_lt bytes x)
    have hfold := folds_onesSum hwords
    rw [List.sum_append, sum_leWords] at hfold
    apply hfold.eq_allOnes
    · exact (hpseudo.modEq.symm.add_right _).trans hdvd
    · have hzero := hpseudo.zero
      omega

/-- The packet as the sender holds it, in two mbufs, and as the receiver does, in one behind
two other bytes. -/
def sentBytes : Memory := fun a => [0#8, 0#8, 0#8, 0x45#8, 0#8, 0#8, 6#8, 0#8, 0xab#8].getD a 0#8

def receivedBytes : Memory := fun a => [7#8, 7#8, 0x45#8, 0#8, 9#8, 0xff#8, 0xab#8].getD a 0#8

theorem pseudo_cksum_verifies_two_chains :
    inCksumSkip true sentBytes [⟨3, 2⟩, ⟨6, 3⟩] 5 0 = 0xff09#16 ∧
      inAddword (inPseudo 1#32 2#32 3#32)
        (~~~ inCksumSkip false receivedBytes [⟨0, 7⟩] 7 2) = 0xffff#16 ∧
      onesSum 16 (pseudoWords 1#32 2#32 3#32 ++
        leWords (((chainBytes receivedBytes [⟨0, 7⟩]).take 7).drop 2)) = 0xffff :=
  ⟨by decide +kernel,
    pseudo_cksum_verifies true false sentBytes receivedBytes [⟨3, 2⟩, ⟨6, 3⟩] [⟨0, 7⟩]
      1#32 2#32 3#32 [0x45#8, 0#8] [0xab#8] 5 7 0 2 (by decide) (by decide) (by decide)
      (by decide) (by decide) (by decide +kernel) (by decide +kernel)⟩

end Checksums

end Fstack
end SfcCapio
