import SfcCapio.Foundation.Loops
import SfcCapio.Echo.Checksum

/-!
# The checksum of the echo server

`ip_cksum` adds words in a first loop, folds the 32-bit sum in a second one and returns the
complement.  Here both loops are given round by round, with a `uint32_t` accumulator, for a
host of either byte order; in the order of this one the result is `ipCksum`
(`toNat_ipCksumOn`).  The probe at startup has the same two loops in the text of `main`, with
words read and stored big-endian.

The first loop is exact as long as the total of the words fits (`Adding`), which it does up
to 131074 bytes.  The second loop needs at most two rounds for any 32-bit word.  What is
returned balances the data once it is stored in a field that was zero (`stored_balanced`).
-/

namespace SfcCapio
namespace Echo

open Foundation

/-- The variables of `ip_cksum`. -/
structure CksumVars where
  p : Nat
  len : Nat
  sum : BitVec 32
deriving DecidableEq, Repr

/-- The state in front of the first loop. -/
def CksumVars.start (data len : Nat) : CksumVars := { p := data, len := len, sum := 0#32 }

/-- `while (len > 1) { sum += *p++; len -= 2; }`. -/
def addLoop (host : ByteOrder) (mem : Nat → BitVec 8) : Loop CksumVars where
  round c :=
    if 1 < c.len then
      some
        { p := c.p + 2
          len := c.len - 2
          sum := c.sum + BitVec.ofNat 32 (host.read mem c.p) }
    else none
  measure c := c.len
  decreases := by
    intro c c' hround
    obtain ⟨hlen, heq⟩ := Option.ite_none_right_eq_some.mp hround
    cases heq
    exact Nat.sub_lt (by omega) (by decide)

/-- `if (len) sum += *(const uint8_t *)p`. -/
def addLast (mem : Nat → BitVec 8) (c : CksumVars) : BitVec 32 :=
  if c.len = 0 then c.sum else c.sum + (mem c.p).setWidth 32

/-- A round of folding does not carry out of the accumulator. -/
theorem toNat_fold (sum : BitVec 32) :
    ((sum &&& 0xffff#32) + sum >>> 16).toNat = sum.toNat % 2 ^ 16 + sum.toNat / 2 ^ 16 := by
  have hlt := sum.isLt
  have hlow : sum.toNat &&& 0xffff = sum.toNat % 2 ^ 16 := Nat.and_two_pow_sub_one_eq_mod _ 16
  rw [BitVec.toNat_add, BitVec.toNat_and, BitVec.toNat_ushiftRight, Nat.shiftRight_eq_div_pow]
  show ((sum.toNat &&& 0xffff) + _) % 2 ^ 32 = _
  rw [hlow]
  omega

/-- `sum >> 16` is the condition of the second loop. -/
theorem ushiftRight_eq_zero_iff (sum : BitVec 32) : sum >>> 16 = 0#32 ↔ sum.toNat < 2 ^ 16 := by
  rw [← BitVec.toNat_inj, BitVec.toNat_ushiftRight, Nat.shiftRight_eq_div_pow, BitVec.toNat_zero]
  omega

/-- `while (sum >> 16) sum = (sum & 0xffff) + (sum >> 16)`. -/
def foldLoop : Loop (BitVec 32) where
  round sum := if sum >>> 16 = 0#32 then none else some ((sum &&& 0xffff#32) + sum >>> 16)
  measure sum := sum.toNat
  decreases := by
    intro sum sum' hround
    obtain ⟨hbig, heq⟩ := Option.ite_none_left_eq_some.mp hround
    cases heq
    rw [ushiftRight_eq_zero_iff] at hbig
    rw [toNat_fold]
    omega

/-- `sum` in front of the second loop. -/
def addedSum (host : ByteOrder) (mem : Nat → BitVec 8) (data len : Nat) : BitVec 32 :=
  addLast mem ((addLoop host mem).exit (.start data len))

/-- `sum` behind the second loop. -/
def foldedSum (host : ByteOrder) (mem : Nat → BitVec 8) (data len : Nat) : BitVec 32 :=
  foldLoop.exit (addedSum host mem data len)

/-- `ip_cksum` on a host of the given byte order. -/
def ipCksumOn (host : ByteOrder) (mem : Nat → BitVec 8) (data len : Nat) : BitVec 16 :=
  (~~~ foldedSum host mem data len).setWidth 16

/-- No addition of a call overflows the accumulator, and the second loop makes at most two
rounds. -/
structure CksumExact (host : ByteOrder) (mem : Nat → BitVec 8) (data len : Nat) : Prop where
  adds : ∀ c ∈ (addLoop host mem).passes (.start data len),
    c.sum.toNat + host.read mem c.p < 2 ^ 32
  folds : ∀ sum ∈ foldLoop.passes (addedSum host mem data len),
    (sum &&& 0xffff#32).toNat + (sum >>> 16).toNat < 2 ^ 32
  rounds : (foldLoop.passes (addedSum host mem data len)).length ≤ 2

/-! ## The first loop -/

section Add

variable {host : ByteOrder} {mem : Nat → BitVec 8} {c c' : CksumVars} {total : Nat}

theorem addLoop_round (hround : (addLoop host mem).round c = some c') :
    1 < c.len ∧ c' = ⟨c.p + 2, c.len - 2, c.sum + BitVec.ofNat 32 (host.read mem c.p)⟩ := by
  obtain ⟨hlen, heq⟩ := Option.ite_none_right_eq_some.mp hround
  exact ⟨hlen, (Option.some.inj heq).symm⟩

theorem len_of_addLoop_none (hround : (addLoop host mem).round c = none) : c.len ≤ 1 := by
  by_contra hlen
  have hsome : (addLoop host mem).round c = some _ := if_pos (Nat.lt_of_not_le hlen)
  rw [hsome] at hround
  cases hround

/-- The accumulator and the words still to come make up the total. -/
structure Adding (host : ByteOrder) (mem : Nat → BitVec 8) (total : Nat) (c : CksumVars) :
    Prop where
  even : c.len % 2 = 0
  total : c.sum.toNat + wordSum host.read mem c.p (c.len / 2) = total

/-- In a round of the loop, one of the words still to come is `*p`. -/
theorem Adding.next (h : Adding host mem total c) (hlen : 1 < c.len) :
    c.sum.toNat + host.read mem c.p + wordSum host.read mem (c.p + 2) ((c.len - 2) / 2) =
      total := by
  have htotal := h.total
  have hwords : c.len / 2 = (c.len - 2) / 2 + 1 := by omega
  rw [hwords, wordSum_succ] at htotal
  omega

theorem Adding.round (hfits : total < 2 ^ 32) (h : Adding host mem total c)
    (hround : (addLoop host mem).round c = some c') : Adding host mem total c' := by
  obtain ⟨hlen, rfl⟩ := addLoop_round hround
  have heven := h.even
  have hnext := h.next hlen
  have hword := read_lt host mem c.p
  refine ⟨by show (c.len - 2) % 2 = 0; omega, ?_⟩
  show (c.sum + BitVec.ofNat 32 (host.read mem c.p)).toNat + _ = total
  rw [BitVec.toNat_add, BitVec.toNat_ofNat, Nat.mod_eq_of_lt (a := host.read mem c.p) (by omega),
    Nat.mod_eq_of_lt (by omega)]
  exact hnext

theorem adding_run (host : ByteOrder) (mem : Nat → BitVec 8) (data : Nat) {len : Nat}
    (heven : len % 2 = 0) (hlen : len ≤ 131074) :
    (∀ c ∈ (addLoop host mem).passes (.start data len),
      Adding host mem (wordSum host.read mem data (len / 2)) c ∧
        ∃ c', (addLoop host mem).round c = some c') ∧
      Adding host mem (wordSum host.read mem data (len / 2))
        ((addLoop host mem).exit (.start data len)) := by
  have hbound := wordSum_le host mem data (len / 2)
  have hfits : wordSum host.read mem data (len / 2) < 2 ^ 32 := by omega
  have hinit : Adding host mem (wordSum host.read mem data (len / 2)) (.start data len) :=
    ⟨heven, Nat.zero_add _⟩
  exact Loop.invariant (fun c c' h hround => h.round hfits hround) hinit

/-- Data of even length is added up exactly. -/
theorem toNat_addedSum (host : ByteOrder) (mem : Nat → BitVec 8) (data : Nat) {len : Nat}
    (heven : len % 2 = 0) (hlen : len ≤ 131074) :
    (addedSum host mem data len).toNat = wordSum host.read mem data (len / 2) := by
  obtain ⟨-, hexit⟩ := adding_run host mem data heven hlen
  have hover := len_of_addLoop_none ((addLoop host mem).round_exit (.start data len))
  have hzero : ((addLoop host mem).exit (.start data len)).len = 0 := by
    have := hexit.even
    omega
  have htotal := hexit.total
  rw [hzero] at htotal
  rw [addedSum, addLast, if_pos hzero]
  exact htotal

end Add

/-! ## The second loop -/

theorem foldLoop_round {sum sum' : BitVec 32} (hround : foldLoop.round sum = some sum') :
    2 ^ 16 ≤ sum.toNat ∧ sum'.toNat = sum.toNat % 2 ^ 16 + sum.toNat / 2 ^ 16 := by
  obtain ⟨hbig, heq⟩ := Option.ite_none_left_eq_some.mp hround
  rw [ushiftRight_eq_zero_iff] at hbig
  rw [← Option.some.inj heq, toNat_fold]
  exact ⟨Nat.le_of_not_lt hbig, rfl⟩

theorem lt_of_foldLoop_none {sum : BitVec 32} (hround : foldLoop.round sum = none) :
    sum.toNat < 2 ^ 16 := by
  by_contra hbig
  rw [← ushiftRight_eq_zero_iff] at hbig
  have hsome : foldLoop.round sum = some _ := if_neg hbig
  rw [hsome] at hround
  cases hround

theorem folds_foldLoop (sum : BitVec 32) : Folds 16 sum.toNat (foldLoop.exit sum).toNat := by
  induction sum using foldLoop.induct with
  | stop sum hround =>
    rw [Loop.exit_of_none hround]
    exact Folds.refl (lt_of_foldLoop_none hround)
  | go sum sum' hround ih =>
    rw [(foldLoop_round hround).2] at ih
    rw [Loop.exit_of_some hround]
    exact Folds.step ih

/-- The first round leaves a carry of at most one, and the second one brings it in. -/
theorem foldLoop_rounds (sum : BitVec 32) : (foldLoop.passes sum).length ≤ 2 := by
  have hlt := sum.isLt
  cases hfirst : foldLoop.round sum with
  | none =>
    rw [Loop.passes_of_none hfirst]
    exact Nat.zero_le 2
  | some sum₁ =>
    obtain ⟨-, h₁⟩ := foldLoop_round hfirst
    rw [Loop.passes_of_some hfirst]
    cases hsecond : foldLoop.round sum₁ with
    | none =>
      rw [Loop.passes_of_none hsecond]
      exact Nat.le_succ 1
    | some sum₂ =>
      obtain ⟨hcarry, h₂⟩ := foldLoop_round hsecond
      rw [Loop.passes_of_some hsecond]
      cases hthird : foldLoop.round sum₂ with
      | none =>
        rw [Loop.passes_of_none hthird]
        exact Nat.le_refl 2
      | some sum₃ =>
        have hmore := (foldLoop_round hthird).1
        omega

/-! ## The function -/

section Call

variable {host : ByteOrder} {mem : Nat → BitVec 8} {data len : Nat}

theorem foldedSum_lt (host : ByteOrder) (mem : Nat → BitVec 8) (data len : Nat) :
    (foldedSum host mem data len).toNat < 2 ^ 16 := (folds_foldLoop _).lt

theorem toNat_complement {sum : BitVec 32} (hlt : sum.toNat < 2 ^ 16) :
    ((~~~ sum).setWidth 16).toNat = 2 ^ 16 - 1 - sum.toNat := by
  rw [BitVec.toNat_setWidth, BitVec.toNat_not]
  omega

theorem folds_foldedSum (host : ByteOrder) (mem : Nat → BitVec 8) (data : Nat) {len : Nat}
    (heven : len % 2 = 0) (hlen : len ≤ 131074) :
    Folds 16 (wordSum host.read mem data (len / 2)) (foldedSum host mem data len).toNat := by
  rw [← toNat_addedSum host mem data heven hlen]
  exact folds_foldLoop _

theorem cksumExact (host : ByteOrder) (mem : Nat → BitVec 8) (data : Nat) {len : Nat}
    (heven : len % 2 = 0) (hlen : len ≤ 131074) :
    CksumExact host mem data len where
  adds := by
    intro c hc
    obtain ⟨hadding, c', hround⟩ := (adding_run host mem data heven hlen).1 c hc
    have hbound := wordSum_le host mem data (len / 2)
    have hnext := hadding.next (addLoop_round hround).1
    omega
  folds := by
    intro sum _
    have hlow : (sum &&& 0xffff#32).toNat ≤ 0xffff := by
      rw [BitVec.toNat_and]
      exact Nat.and_le_right
    have hhigh : (sum >>> 16).toNat < 2 ^ 16 := by
      have hlt := sum.isLt
      rw [BitVec.toNat_ushiftRight, Nat.shiftRight_eq_div_pow]
      omega
    omega
  rounds := foldLoop_rounds _

/-- The value returned completes the sum to a positive multiple of 65535. -/
theorem ipCksumOn_completes (host : ByteOrder) (mem : Nat → BitVec 8) (data : Nat) {len : Nat}
    (heven : len % 2 = 0) (hlen : len ≤ 131074) :
    wordSum host.read mem data (len / 2) + (ipCksumOn host mem data len).toNat ≡ 0 [MOD 65535] ∧
      wordSum host.read mem data (len / 2) + (ipCksumOn host mem data len).toNat ≠ 0 := by
  have hfolds := folds_foldedSum host mem data heven hlen
  have hlt := hfolds.lt
  have hzero := hfolds.zero
  rw [ipCksumOn, toNat_complement hlt]
  constructor
  · have hmod := hfolds.modEq.symm.add_right
      (2 ^ 16 - 1 - (foldedSum host mem data len).toNat)
    have hall : (foldedSum host mem data len).toNat +
        (2 ^ 16 - 1 - (foldedSum host mem data len).toNat) = 65535 := by omega
    rw [hall] at hmod
    exact hmod.trans (Nat.modEq_zero_iff_dvd.mpr (Nat.dvd_refl _))
  · omega

/-- The checksum of data with a zero field, stored in that field. -/
theorem stored_balanced {f : Nat} (hf : 2 * f + 2 ≤ len) (heven : len % 2 = 0)
    (hlen : len ≤ 131074) (hzero : host.read mem (data + 2 * f) = 0) :
    Balanced host (host.store mem (data + 2 * f) (ipCksumOn host mem data len).toNat) data
      (len / 2) := by
  obtain ⟨hdvd, hpos⟩ := ipCksumOn_completes host mem data heven hlen
  have hsum := wordSum_store host (show f < len / 2 by omega)
    (ipCksumOn host mem data len).isLt hzero
  rw [← hsum] at hdvd hpos
  exact ⟨hdvd, hpos⟩

end Call

/-! ## The model of the whole function -/

section Little

variable {mem : Nat → BitVec 8}

theorem toNat_addLast_exit (c : CksumVars) :
    (addLast mem ((addLoop .little mem).exit c)).toNat = cksumSum mem c.p c.len c.sum.toNat := by
  induction c using (addLoop .little mem).induct with
  | stop c hround =>
    have hlen := len_of_addLoop_none hround
    rw [Loop.exit_of_none hround, addLast]
    by_cases hzero : c.len = 0
    · rw [if_pos hzero, hzero, cksumSum]
    · have hone : c.len = 1 := by omega
      have hbyte := (mem c.p).isLt
      rw [if_neg hzero, hone, cksumSum, BitVec.toNat_add, BitVec.toNat_setWidth,
        Nat.mod_eq_of_lt (a := (mem c.p).toNat) (by omega)]
  | go c c' hround ih =>
    obtain ⟨hlen, rfl⟩ := addLoop_round hround
    obtain ⟨rest, hrest⟩ := Nat.exists_eq_add_of_le' hlen
    have hword : le16 mem c.p < 2 ^ 16 := read_lt .little mem c.p
    rw [Loop.exit_of_some hround, ih, hrest, cksumSum, BitVec.toNat_add, BitVec.toNat_ofNat]
    show cksumSum mem (c.p + 2) rest ((c.sum.toNat + le16 mem c.p % 2 ^ 32) % 2 ^ 32) = _
    rw [Nat.mod_eq_of_lt (a := le16 mem c.p) (by omega)]

theorem toNat_exit_foldLoop (sum : BitVec 32) :
    (foldLoop.exit sum).toNat = cksumFold sum.toNat := by
  induction sum using foldLoop.induct with
  | stop sum hround =>
    have hlt := lt_of_foldLoop_none hround
    rw [Loop.exit_of_none hround, cksumFold, if_pos (by omega)]
  | go sum sum' hround ih =>
    obtain ⟨hbig, hnext⟩ := foldLoop_round hround
    rw [Loop.exit_of_some hround, ih, hnext, cksumFold.eq_def sum.toNat, if_neg (by omega)]

/-- On a little-endian host the loops compute `ipCksum`, for every length. -/
theorem toNat_ipCksumOn (mem : Nat → BitVec 8) (data len : Nat) :
    (ipCksumOn .little mem data len).toNat = ipCksum mem data len := by
  rw [ipCksumOn, toNat_complement (foldedSum_lt _ _ _ _), foldedSum, toNat_exit_foldLoop,
    addedSum, toNat_addLast_exit]
  rfl

end Little

/-! ## The probe -/

/-- The probe in memory. -/
def probeMem (macAddr : Fin 6 → BitVec 8) (i : Nat) : BitVec 8 := (probeFrame macAddr).getD i 0#8

/-- Behind the addresses the probe is the same for every port. -/
theorem probeMem_of_le (macAddr : Fin 6 → BitVec 8) {i : Nat} (hi : 12 ≤ i) :
    probeMem macAddr i = probeMem (fun _ => 0#8) i := by
  have hrest : ∀ (first second : Fin 6 → BitVec 8) (rest : List (BitVec 8)),
      (List.ofFn first ++ (List.ofFn second ++ rest)).getD i 0#8 = rest.getD (i - 12) 0#8 := by
    intro first second rest
    rw [List.getD_append_right _ _ _ _ (by rw [List.length_ofFn]; omega),
      List.getD_append_right _ _ _ _ (by rw [List.length_ofFn, List.length_ofFn]; omega),
      List.length_ofFn, List.length_ofFn, Nat.sub_sub]
  simp only [probeMem, probeFrame, List.append_assoc]
  rw [hrest, hrest]

/-- The checksum that `probeFrame` carries is what the loops of `main` give for its header. -/
theorem probe_checksum (macAddr : Fin 6 → BitVec 8) :
    ipCksumOn .big (ByteOrder.big.store (probeMem macAddr) 24 0) 14 20 = 0x64b5#16 ∧
      be16 (probeMem macAddr) 24 = 0x64b5 := by
  have hbyte : ∀ i, 12 ≤ i → ByteOrder.big.store (probeMem macAddr) 24 0 i =
      ByteOrder.big.store (probeMem fun _ => 0#8) 24 0 i := by
    intro i hi
    simp only [ByteOrder.store, putBe16, Function.update_apply, probeMem_of_le macAddr hi]
  have hsum : addedSum .big (ByteOrder.big.store (probeMem macAddr) 24 0) 14 20 =
      addedSum .big (ByteOrder.big.store (probeMem fun _ => 0#8) 24 0) 14 20 := by
    apply BitVec.eq_of_toNat_eq
    rw [toNat_addedSum .big _ 14 (by decide) (by decide),
      toNat_addedSum .big _ 14 (by decide) (by decide)]
    refine wordSum_congr fun k _ => ?_
    show be16 _ (14 + 2 * k) = be16 _ (14 + 2 * k)
    rw [be16, be16, hbyte _ (by omega), hbyte _ (by omega)]
  -- what is left has no address in it and is evaluated
  constructor
  · rw [ipCksumOn, foldedSum, hsum]
    decide +kernel
  · rw [be16, probeMem_of_le macAddr (by decide), probeMem_of_le macAddr (by decide)]
    decide +kernel

/-! ## Correctness -/

/-- **`ip_cksum` is an Internet checksum.**  The value for the data with a zeroed field, stored
in that field, makes the one's-complement sum `0xffff` in either byte order; the arithmetic of
a call is exact for any contents. -/
theorem ip_cksum_correct (host : ByteOrder) (mem : Nat → BitVec 8) (data len field : Nat)
    (heven : len % 2 = 0) (hlen : len ≤ 131072) (hfield : field % 2 = 0)
    (hinside : field + 2 ≤ len) :
    let zeroed := host.store mem (data + field) 0
    let stored := host.store mem (data + field) (ipCksumOn host zeroed data len).toNat
    (∀ reader : ByteOrder,
      onesSum 16 (wordsAt reader.read stored data (len / 2)) = 0xffff ∧
        foldedSum reader stored data len = 0xffff#32) ∧
      ∀ contents, CksumExact host contents data len := by
  intro zeroed stored
  have hword : data + field = data + 2 * (field / 2) := by omega
  have hzero : host.read zeroed (data + 2 * (field / 2)) = 0 := by
    rw [← hword]
    exact read_store_self host (by decide)
  have hbalanced := stored_balanced (show 2 * (field / 2) + 2 ≤ len by omega) heven
    (show len ≤ 131074 by omega) hzero
  rw [← hword, store_store] at hbalanced
  refine ⟨?_, fun contents => cksumExact host contents data heven (by omega)⟩
  intro reader
  have hread := hbalanced.reorder reader
  refine ⟨hread.onesSum_eq, BitVec.eq_of_toNat_eq ?_⟩
  exact hread.folds_to (folds_foldedSum reader stored data heven (by omega))

theorem ip_cksum_correct_probe :
    let zeroed := ByteOrder.big.store (probeMem fun _ => 0#8) 24 0
    let stored := ByteOrder.big.store (probeMem fun _ => 0#8) 24
      (ipCksumOn .big zeroed 14 20).toNat
    ipCksumOn .big zeroed 14 20 = 0x64b5#16 ∧
      (∀ reader : ByteOrder, onesSum 16 (wordsAt reader.read stored 14 10) = 0xffff ∧
        foldedSum reader stored 14 20 = 0xffff#32) ∧
      ∀ contents, CksumExact .big contents 14 20 :=
  ⟨(probe_checksum _).1,
    ip_cksum_correct .big (probeMem fun _ => 0#8) 14 20 10 (by decide) (by decide) (by decide)
      (by decide)⟩

end Echo
end SfcCapio
