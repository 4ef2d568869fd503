import Mathlib.Data.BitVec
import Mathlib.Data.Nat.Bitwise

/-!
# Ring geometry, descriptor words and event words

The three data-path rings of the card have 512 eight-byte entries each, and the
packet buffers are arrays of 512 slots of 2048 bytes (`sfc7120_uapi.h`).  This
module fixes these constants and the two word formats which the kernel driver,
the user library and the poll-mode driver all build by hand:

* the RX/TX descriptor, `BYTE_CNT` in bits 61:48 over a 48-bit bus address;
* the event, `EV_CODE` in bits 63:60 over a payload whose layout depends on it.

Both are built with the shifts and masks of the source.  The reading of a
descriptor is stated through bit fields, so that the round trip is a theorem.
-/

namespace SfcCapio
namespace Hardware

/-- `SFC7120_NUM_RX_DESC`. -/
abbrev numRxDesc : Nat := 512

/-- `SFC7120_NUM_TX_DESC`. -/
abbrev numTxDesc : Nat := 512

/-- `SFC7120_NUM_EVQ_ENTRY`. -/
abbrev numEvqEntry : Nat := 512

/-- `SFC7120_RX_BUFFER_SIZE`. -/
abbrev rxBufferSize : Nat := 2048

/-- `SFC7120_TX_BUFFER_SIZE`. -/
abbrev txBufferSize : Nat := 2048

/-- `SFC7120_EF10_RX_PREFIX_LEN`. -/
abbrev ef10RxPrefixLen : Nat := 14

/-- `SFC7120_EVQ_RPTR_MASK`: the read-pointer field of the EVQ doorbell. -/
abbrev evqRptrMask : Nat := 0x7fff

/-- Masking with `ring size - 1`, the idiom of every cursor update. -/
theorem land_ringMask (x : Nat) : x &&& (512 - 1) = x % 512 := by
  exact Nat.and_two_pow_sub_one_eq_mod x 9

theorem land_ringMask_lt (x : Nat) : x &&& (512 - 1) < 512 := by
  rw [land_ringMask]
  exact Nat.mod_lt _ (by decide)

/-- The EVQ doorbell mask does not truncate a ring cursor. -/
theorem land_evqRptrMask (x : Nat) : (x % 512) &&& evqRptrMask = x % 512 := by
  have hmask : (x % 512) &&& (2 ^ 15 - 1) = x % 512 % 2 ^ 15 :=
    Nat.and_two_pow_sub_one_eq_mod (x % 512) 15
  rw [show evqRptrMask = 2 ^ 15 - 1 from rfl, hmask]
  omega

/-! ## Descriptors -/

/-- The descriptor expression that the driver, the library and the priming loop
all spell out: `BYTE_CNT`, upper 16 and lower 32 address bits. -/
def descWord (paddr : BitVec 64) (len : Nat) : BitVec 64 :=
  (BitVec.ofNat 64 (len &&& 0x3fff) <<< 48) |||
    (((paddr >>> 32) &&& 0xffff#64) <<< 32) |||
    (paddr &&& 0xffffffff#64)

/-- The bus address a descriptor names, bits 47:0. -/
def descAddr (desc : BitVec 64) : Nat := (desc.extractLsb' 0 48).toNat

/-- The buffer length a descriptor names, bits 61:48. -/
def descByteCnt (desc : BitVec 64) : Nat := (desc.extractLsb' 48 14).toNat

/-- The word as a number: the three fields do not overlap. -/
theorem descWord_toNat (paddr : BitVec 64) (len : Nat) :
    (descWord paddr len).toNat =
      (len % 2 ^ 14) * 2 ^ 48 + paddr.toNat % 2 ^ 48 := by
  have hlen : len &&& 0x3fff = len % 2 ^ 14 := Nat.and_two_pow_sub_one_eq_mod len 14
  have hhigh : (paddr.toNat >>> 32) &&& 0xffff = paddr.toNat / 2 ^ 32 % 2 ^ 16 := by
    rw [Nat.shiftRight_eq_div_pow]
    exact Nat.and_two_pow_sub_one_eq_mod _ 16
  have hlow : paddr.toNat &&& 0xffffffff = paddr.toNat % 2 ^ 32 :=
    Nat.and_two_pow_sub_one_eq_mod _ 32
  have hlt := paddr.isLt
  simp only [descWord, BitVec.toNat_or, BitVec.toNat_shiftLeft, BitVec.toNat_and,
    BitVec.toNat_ushiftRight, BitVec.toNat_ofNat, Nat.shiftLeft_eq]
  rw [show (65535 % 2 ^ 64) = 0xffff from rfl,
    show (4294967295 % 2 ^ 64) = 0xffffffff from rfl, hlen, hhigh, hlow]
  rw [Nat.mod_eq_of_lt (show len % 2 ^ 14 < 2 ^ 64 by omega),
    Nat.mod_eq_of_lt (show len % 2 ^ 14 * 2 ^ 48 < 2 ^ 64 by omega),
    Nat.mod_eq_of_lt
      (show paddr.toNat / 2 ^ 32 % 2 ^ 16 * 2 ^ 32 < 2 ^ 64 by omega)]
  -- each field lies below the next one, so the disjunctions are sums
  have hsumHigh : len % 2 ^ 14 * 2 ^ 48 ||| paddr.toNat / 2 ^ 32 % 2 ^ 16 * 2 ^ 32 =
      len % 2 ^ 14 * 2 ^ 48 + paddr.toNat / 2 ^ 32 % 2 ^ 16 * 2 ^ 32 := by
    rw [Nat.mul_comm (len % 2 ^ 14)]
    exact (Nat.two_pow_add_eq_or_of_lt (i := 48) (by omega) _).symm
  rw [hsumHigh]
  have hfactor : len % 2 ^ 14 * 2 ^ 48 + paddr.toNat / 2 ^ 32 % 2 ^ 16 * 2 ^ 32 =
      2 ^ 32 * (len % 2 ^ 14 * 2 ^ 16 + paddr.toNat / 2 ^ 32 % 2 ^ 16) := by
    omega
  rw [hfactor, ← Nat.two_pow_add_eq_or_of_lt (i := 32) (by omega)]
  omega

/-- The address field of a built descriptor is the low 48 bits of the address. -/
@[simp] theorem descAddr_descWord (paddr : BitVec 64) (len : Nat) :
    descAddr (descWord paddr len) = paddr.toNat % 2 ^ 48 := by
  simp only [descAddr, BitVec.extractLsb'_toNat, descWord_toNat, Nat.shiftRight_zero]
  omega

/-- The length field of a built descriptor is the low 14 bits of the length. -/
@[simp] theorem descByteCnt_descWord (paddr : BitVec 64) (len : Nat) :
    descByteCnt (descWord paddr len) = len % 2 ^ 14 := by
  simp only [descByteCnt, BitVec.extractLsb'_toNat, descWord_toNat,
    Nat.shiftRight_eq_div_pow]
  omega

/-! ## Events -/

/-- `sfc7120_ev_type_t`. -/
inductive EvType
  | rx
  | tx
  | other
deriving DecidableEq, Repr

/-- `sfc7120_ev_t`: one decoded event record. -/
structure Ev where
  type : EvType
  txDescIdx : Nat
  rxBytes : Nat
  raw : BitVec 64
deriving DecidableEq, Repr

/-- No event written yet: all-ones (never written) or zero (consumed). -/
def slotVacant (ev : BitVec 64) : Prop :=
  ev = 0xffffffffffffffff#64 ∨ ev = 0#64

instance (ev : BitVec 64) : Decidable (slotVacant ev) :=
  inferInstanceAs (Decidable (_ ∨ _))

/-- The `EV_CODE` nibble, `(uint32_t)(ev >> 60) & 0xf`. -/
def evCode (ev : BitVec 64) : Nat := ((ev >>> 60) &&& 0xf#64).toNat

/-- `RX_BYTES`, `ev & 0x3fff`. -/
def evRxBytes (ev : BitVec 64) : Nat := (ev &&& 0x3fff#64).toNat

/-- `TX_DESCR_INDX`, `ev & 0xffff`. -/
def evTxDescIdx (ev : BitVec 64) : Nat := (ev &&& 0xffff#64).toNat

/-- A field of an event read by a shift and a mask. -/
theorem toNat_shift_mask (w : BitVec 64) (lbn : Nat) {width : Nat} {mask : BitVec 64}
    (hmask : mask.toNat = 2 ^ width - 1) :
    ((w >>> lbn) &&& mask).toNat = (w.extractLsb' lbn width).toNat := by
  rw [BitVec.toNat_and, BitVec.toNat_ushiftRight, BitVec.extractLsb'_toNat, hmask]
  exact Nat.and_two_pow_sub_one_eq_mod _ width

/-- The decode chain of `sfc7120_poll`. -/
def decodeEvent (ev : BitVec 64) : Ev :=
  if evCode ev = 0 then
    { type := .rx, txDescIdx := 0, rxBytes := evRxBytes ev, raw := ev }
  else if evCode ev = 2 then
    { type := .tx, txDescIdx := evTxDescIdx ev, rxBytes := 0, raw := ev }
  else
    { type := .other, txDescIdx := 0, rxBytes := 0, raw := ev }

@[simp] theorem decodeEvent_raw (ev : BitVec 64) : (decodeEvent ev).raw = ev := by
  unfold decodeEvent
  split
  · rfl
  · split <;> rfl

/-- A receive event: `EV_CODE` 0, and a word the library can see. -/
def IsRxEvent (w : BitVec 64) : Prop := evCode w = 0 ∧ ¬ slotVacant w

instance (w : BitVec 64) : Decidable (IsRxEvent w) :=
  inferInstanceAs (Decidable (_ ∧ _))

theorem zero_slotVacant : slotVacant 0#64 := Or.inr rfl

theorem not_slotVacant_of_tx {w : BitVec 64} (hcode : evCode w = 2) : ¬ slotVacant w := by
  rintro (rfl | rfl)
  · exact absurd hcode (by decide)
  · exact absurd hcode (by decide)

end Hardware
end SfcCapio
