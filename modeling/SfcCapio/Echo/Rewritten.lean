import SfcCapio.Echo.CksumLoops

/-!
# What an echoed frame looks like

`Echoed mem mem' pkt` says what the plain echo makes of the frame at `pkt`, field by field
and with nothing else changed.  `rewrite` does that to every frame with a full IP header
(`rewrite_echoed`), for any header length with options.  The echo of an echo, wherever it is
received, is the frame again but for the two checksums (`Echoed.twice`).
-/

namespace SfcCapio
namespace Echo

open Foundation

/-- The address is in none of the fields that the echo writes. -/
def Untouched (mem : Nat → BitVec 8) (pkt a : Nat) : Prop :=
  ¬ (pkt ≤ a ∧ a < pkt + 12) ∧ ¬ (pkt + 24 ≤ a ∧ a < pkt + 34) ∧
    ¬ (udpOff mem pkt ≤ a ∧ a < udpOff mem pkt + 4) ∧
    ¬ (udpOff mem pkt + 6 ≤ a ∧ a < udpOff mem pkt + 8)

/-- MAC addresses, IP addresses and ports are exchanged, the UDP checksum is zero, the
one's-complement sum of the IP header is `0xffff` in either byte order, and the rest is as
it was. -/
structure Echoed (mem mem' : Nat → BitVec 8) (pkt : Nat) : Prop where
  dstMac : ∀ i, i < 6 → mem' (pkt + i) = mem (pkt + 6 + i)
  srcMac : ∀ i, i < 6 → mem' (pkt + 6 + i) = mem (pkt + i)
  srcIp : ∀ i, i < 4 → mem' (pkt + 26 + i) = mem (pkt + 30 + i)
  dstIp : ∀ i, i < 4 → mem' (pkt + 30 + i) = mem (pkt + 26 + i)
  srcPort : ∀ i, i < 2 → mem' (udpOff mem pkt + i) = mem (udpOff mem pkt + 2 + i)
  dstPort : ∀ i, i < 2 → mem' (udpOff mem pkt + 2 + i) = mem (udpOff mem pkt + i)
  udpCksum : ∀ i, i < 2 → mem' (udpOff mem pkt + 6 + i) = 0#8
  ipSum : onesSum 16 (wordsAt le16 mem' (pkt + ethHdrLen) (ipHlen mem pkt / 2)) = 0xffff ∧
    onesSum 16 (wordsAt be16 mem' (pkt + ethHdrLen) (ipHlen mem pkt / 2)) = 0xffff
  others : ∀ a, Untouched mem pkt a → mem' a = mem a

section Swap

variable {mem : Nat → BitVec 8} {a b n : Nat}

theorem swapBytes_left {i : Nat} (hi : i < n) : swapBytes mem a b n (a + i) = mem (b + i) := by
  rw [swapBytes, if_pos (by omega), Nat.add_sub_cancel_left]

theorem swapBytes_right {i : Nat} (hab : a + n ≤ b) (hi : i < n) :
    swapBytes mem a b n (b + i) = mem (a + i) := by
  rw [swapBytes, if_neg (by omega), if_pos (by omega), Nat.add_sub_cancel_left]

theorem swapBytes_of_disjoint {x : Nat} (ha : ¬ (a ≤ x ∧ x < a + n))
    (hb : ¬ (b ≤ x ∧ x < b + n)) : swapBytes mem a b n x = mem x := by
  rw [swapBytes, if_neg ha, if_neg hb]

theorem putLe16_zero {off i : Nat} (hi : i < 2) : putLe16 mem off 0 (off + i) = 0#8 := by
  unfold putLe16
  by_cases hone : i = 1
  · subst hone
    rw [Function.update_self]
  · have hzero : i = 0 := by omega
    subst hzero
    rw [Function.update_of_ne (by omega), Nat.add_zero, Function.update_self]

end Swap

section Layers

variable (mem : Nat → BitVec 8) (pkt : Nat)

/-- MAC and IP addresses exchanged. -/
def swapped : Nat → BitVec 8 :=
  swapBytes (swapBytes mem pkt (pkt + 6) 6) (pkt + 26) (pkt + 30) 4

/-- The IP checksum over the exchanged header, in place. -/
def checksummed : Nat → BitVec 8 :=
  putLe16 (putLe16 (swapped mem pkt) (pkt + 24) 0) (pkt + 24)
    (ipCksum (putLe16 (swapped mem pkt) (pkt + 24) 0) (pkt + ethHdrLen) (ipHlen mem pkt))

theorem rewrite_eq : rewrite false mem pkt =
    putLe16 (swapBytes (checksummed mem pkt) (udpOff mem pkt) (udpOff mem pkt + 2) 2)
      (udpOff mem pkt + 6) 0 := rfl

end Layers

section Fields

variable {mem : Nat → BitVec 8} {pkt : Nat}

/-- The length of the header is a nibble, in words of four bytes. -/
theorem ipHlen_le (mem : Nat → BitVec 8) (pkt : Nat) :
    ipHlen mem pkt ≤ 60 ∧ ipHlen mem pkt % 4 = 0 := by
  have hnibble : (mem (pkt + ethHdrLen) &&& 0x0f#8).toNat ≤ 15 := by
    rw [BitVec.toNat_and]
    exact Nat.and_le_right
  unfold ipHlen
  omega

theorem swapped_of_ne {x : Nat} (hmac : ¬ (pkt ≤ x ∧ x < pkt + 12))
    (hip : ¬ (pkt + 26 ≤ x ∧ x < pkt + 34)) : swapped mem pkt x = mem x := by
  rw [swapped, swapBytes_of_disjoint (by omega) (by omega),
    swapBytes_of_disjoint (by omega) (by omega)]

theorem checksummed_of_ne {x : Nat} (hx : ¬ (pkt + 24 ≤ x ∧ x < pkt + 26)) :
    checksummed mem pkt x = swapped mem pkt x := by
  rw [checksummed, putLe16_of_ne (by omega) (by omega), putLe16_of_ne (by omega) (by omega)]

/-- In front of the ports the last two stores change nothing. -/
theorem rewrite_of_lt {x : Nat} (hx : x < udpOff mem pkt) :
    rewrite false mem pkt x = checksummed mem pkt x := by
  rw [rewrite_eq, putLe16_of_ne (by omega) (by omega),
    swapBytes_of_disjoint (by omega) (by omega)]

theorem checksummed_balanced (hhlen : ipHdrLen ≤ ipHlen mem pkt) :
    Balanced .little (checksummed mem pkt) (pkt + ethHdrLen) (ipHlen mem pkt / 2) := by
  obtain ⟨hle, hfour⟩ := ipHlen_le mem pkt
  have hhdr : 20 ≤ ipHlen mem pkt := hhlen
  -- the checksum is word 5 of the header
  have hzero : ByteOrder.little.read (putLe16 (swapped mem pkt) (pkt + 24) 0)
      (pkt + ethHdrLen + 2 * 5) = 0 := read_store_self .little (by decide)
  have hinside : 2 * 5 + 2 ≤ ipHlen mem pkt := by omega
  have hbalanced := stored_balanced hinside (by omega) (by omega) hzero
  rw [toNat_ipCksumOn] at hbalanced
  exact hbalanced

/-- **The rewriting of a frame** with a full IP header. -/
theorem rewrite_echoed (hhlen : ipHdrLen ≤ ipHlen mem pkt) :
    Echoed mem (rewrite false mem pkt) pkt := by
  have hhdr : 20 ≤ ipHlen mem pkt := hhlen
  have hudp : udpOff mem pkt = pkt + 14 + ipHlen mem pkt := rfl
  refine ⟨?_, ?_, ?_, ?_, ?_, ?_, ?_, ?_, ?_⟩
  · intro i hi
    rw [rewrite_of_lt (by omega), checksummed_of_ne (by omega), swapped,
      swapBytes_of_disjoint (by omega) (by omega), swapBytes_left hi]
  · intro i hi
    rw [rewrite_of_lt (by omega), checksummed_of_ne (by omega), swapped,
      swapBytes_of_disjoint (by omega) (by omega), swapBytes_right (by omega) hi]
  · intro i hi
    rw [rewrite_of_lt (by omega), checksummed_of_ne (by omega), swapped, swapBytes_left hi,
      swapBytes_of_disjoint (by omega) (by omega)]
  · intro i hi
    rw [rewrite_of_lt (by omega), checksummed_of_ne (by omega), swapped,
      swapBytes_right (by omega) hi, swapBytes_of_disjoint (by omega) (by omega)]
  · intro i hi
    rw [rewrite_eq, putLe16_of_ne (by omega) (by omega), swapBytes_left hi,
      checksummed_of_ne (by omega), swapped_of_ne (by omega) (by omega)]
  · intro i hi
    rw [rewrite_eq, putLe16_of_ne (by omega) (by omega), swapBytes_right (by omega) hi,
      checksummed_of_ne (by omega), swapped_of_ne (by omega) (by omega)]
  · intro i hi
    rw [rewrite_eq]
    exact putLe16_zero hi
  · -- the header ends where the ports begin
    have hbalanced : Balanced .little (rewrite false mem pkt) (pkt + ethHdrLen)
        (ipHlen mem pkt / 2) := by
      refine (checksummed_balanced hhlen).congr fun i hlow hhigh => ?_
      have hethernet : ethHdrLen = 14 := rfl
      exact rewrite_of_lt (by omega)
    exact ⟨hbalanced.onesSum_eq, (hbalanced.reorder .big).onesSum_eq⟩
  · rintro a ⟨hmac, hip, hports, hcksum⟩
    rw [rewrite_eq, putLe16_of_ne (by omega) (by omega),
      swapBytes_of_disjoint (by omega) (by omega), checksummed_of_ne (by omega),
      swapped_of_ne (by omega) (by omega)]

end Fields

/-! ## Twice -/

section Twice

variable {mem mem' mem₂ mem₃ : Nat → BitVec 8} {pkt pkt₂ len : Nat}

/-- The first `len` bytes at `pkt₂` are those at `pkt`. -/
def SameFrame (len : Nat) (mem : Nat → BitVec 8) (pkt : Nat) (mem₂ : Nat → BitVec 8)
    (pkt₂ : Nat) : Prop :=
  ∀ i, i < len → mem₂ (pkt₂ + i) = mem (pkt + i)

/-- Byte `i` of a frame is in one of the two checksums. -/
def InChecksum (hlen i : Nat) : Prop :=
  (24 ≤ i ∧ i < 26) ∨ (ethHdrLen + hlen + 6 ≤ i ∧ i < ethHdrLen + hlen + 8)

theorem SameFrame.ipHlen_eq (h : SameFrame len mem pkt mem₂ pkt₂) (hlen : ethHdrLen < len) :
    ipHlen mem₂ pkt₂ = ipHlen mem pkt := by
  rw [ipHlen, ipHlen, h ethHdrLen hlen]

theorem SameFrame.accepts_eq (h : SameFrame len mem pkt mem₂ pkt₂) :
    accepts false mem₂ pkt₂ len = accepts false mem pkt len := by
  by_cases hmin : len < minFrameLen
  · rw [accepts, accepts, if_pos hmin, if_pos hmin]
  · have hfull : 56 ≤ len := Nat.le_of_not_lt hmin
    have htype : be16 mem₂ (pkt₂ + 12) = be16 mem (pkt + 12) := by
      rw [be16, be16, h 12 (by omega)]
      exact congrArg _ (congrArg _ (h 13 (by omega)))
    have hproto : mem₂ (pkt₂ + ethHdrLen + 9) = mem (pkt + ethHdrLen + 9) := h 23 (by omega)
    have hhlen : ipHlen mem₂ pkt₂ = ipHlen mem pkt :=
      h.ipHlen_eq (Nat.lt_of_lt_of_le (by decide) hfull)
    rw [accepts, accepts, htype, hproto, hhlen]
    simp only [Bool.false_eq_true, if_false]

/-- The checks look at bytes that the echo leaves alone. -/
theorem Echoed.sameHeader (h : Echoed mem mem' pkt) (hhlen : ipHdrLen ≤ ipHlen mem pkt) :
    SameFrame 12 mem (pkt + 12) mem' (pkt + 12) := by
  intro i hi
  have hhdr : 20 ≤ ipHlen mem pkt := hhlen
  have hudp : udpOff mem pkt = pkt + 14 + ipHlen mem pkt := rfl
  exact h.others _ ⟨by omega, by omega, by omega, by omega⟩

theorem Echoed.ipHlen_eq (h : Echoed mem mem' pkt) (hhlen : ipHdrLen ≤ ipHlen mem pkt) :
    ipHlen mem' pkt = ipHlen mem pkt := by
  have hvhl : mem' (pkt + ethHdrLen) = mem (pkt + ethHdrLen) := h.sameHeader hhlen 2 (by decide)
  rw [ipHlen, ipHlen, hvhl]

theorem Echoed.accepts_eq (h : Echoed mem mem' pkt) (hhlen : ipHdrLen ≤ ipHlen mem pkt)
    (len : Nat) : accepts false mem' pkt len = accepts false mem pkt len := by
  have htype : be16 mem' (pkt + 12) = be16 mem (pkt + 12) := by
    have hlow : mem' (pkt + 12 + 1) = mem (pkt + 12 + 1) := h.sameHeader hhlen 1 (by decide)
    have hhigh : mem' (pkt + 12) = mem (pkt + 12) := h.sameHeader hhlen 0 (by decide)
    rw [be16, be16, hlow, hhigh]
  have hproto : mem' (pkt + ethHdrLen + 9) = mem (pkt + ethHdrLen + 9) :=
    h.sameHeader hhlen 11 (by decide)
  rw [accepts, accepts, htype, hproto, h.ipHlen_eq hhlen]
  simp only [Bool.false_eq_true, if_false]

/-- **The echo of the echo** is the frame but for the checksums. -/
theorem Echoed.twice (h : Echoed mem mem' pkt) (hsame : SameFrame len mem' pkt mem₂ pkt₂)
    (h₂ : Echoed mem₂ mem₃ pkt₂) (hhlen : ipHdrLen ≤ ipHlen mem pkt)
    (hfits : ethHdrLen + ipHlen mem pkt + udpHdrLen ≤ len) {i : Nat} (hi : i < len)
    (hcksum : ¬ InChecksum (ipHlen mem pkt) i) : mem₃ (pkt₂ + i) = mem (pkt + i) := by
  have hhdr : 20 ≤ ipHlen mem pkt := hhlen
  have hlen : 14 + ipHlen mem pkt + 8 ≤ len := hfits
  have hethernet : ethHdrLen = 14 := rfl
  have hhlen₂ : ipHlen mem₂ pkt₂ = ipHlen mem pkt := by
    rw [hsame.ipHlen_eq (by omega), h.ipHlen_eq hhlen]
  have hudp : udpOff mem pkt = pkt + (14 + ipHlen mem pkt) := Nat.add_assoc pkt 14 _
  have hudp₂ : udpOff mem₂ pkt₂ = pkt₂ + (14 + ipHlen mem pkt) := by
    rw [udpOff, hhlen₂, Nat.add_assoc]
  -- a byte of the field at `a`, which came from `b` and had gone there
  have hfield : ∀ a b n, b + n ≤ len → (∀ j, j < n → mem' (pkt + b + j) = mem (pkt + a + j)) →
      (∀ j, j < n → mem₃ (pkt₂ + a + j) = mem₂ (pkt₂ + b + j)) → a ≤ i → i < a + n →
      mem₃ (pkt₂ + i) = mem (pkt + i) := by
    intro a b n hb hthere hback hlow hhigh
    obtain ⟨j, rfl⟩ := Nat.exists_eq_add_of_le hlow
    have hsent := hsame (b + j) (by omega)
    rw [← Nat.add_assoc, ← Nat.add_assoc] at hsent
    rw [← Nat.add_assoc, ← Nat.add_assoc, hback j (by omega), hsent, hthere j (by omega)]
  have hsrcPort := h.srcPort
  have hdstPort := h.dstPort
  have hsrcPort₂ := h₂.srcPort
  have hdstPort₂ := h₂.dstPort
  rw [hudp] at hsrcPort hdstPort
  rw [hudp₂] at hsrcPort₂ hdstPort₂
  unfold InChecksum at hcksum
  by_cases hdstMac : i < 6
  · exact hfield 0 6 6 (by omega) h.srcMac h₂.dstMac (Nat.zero_le i) (by omega)
  by_cases hsrcMac : i < 12
  · exact hfield 6 0 6 (by omega) h.dstMac h₂.srcMac (by omega) hsrcMac
  by_cases hsrcIp : 26 ≤ i ∧ i < 30
  · exact hfield 26 30 4 (by omega) h.dstIp h₂.srcIp hsrcIp.1 hsrcIp.2
  by_cases hdstIp : 30 ≤ i ∧ i < 34
  · exact hfield 30 26 4 (by omega) h.srcIp h₂.dstIp hdstIp.1 hdstIp.2
  by_cases hsrc : 14 + ipHlen mem pkt ≤ i ∧ i < 14 + ipHlen mem pkt + 2
  · exact hfield _ (14 + ipHlen mem pkt + 2) 2 (by omega) hdstPort hsrcPort₂ hsrc.1 hsrc.2
  by_cases hdst : 14 + ipHlen mem pkt + 2 ≤ i ∧ i < 14 + ipHlen mem pkt + 2 + 2
  · exact hfield _ (14 + ipHlen mem pkt) 2 (by omega) hsrcPort hdstPort₂ hdst.1 hdst.2
  rw [h₂.others _ ⟨by omega, by omega, by omega, by omega⟩, hsame i hi,
    h.others _ ⟨by omega, by omega, by omega, by omega⟩]

end Twice

end Echo
end SfcCapio
