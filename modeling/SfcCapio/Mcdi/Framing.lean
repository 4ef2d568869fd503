import Mathlib.Data.BitVec
import Mathlib.Data.List.GetD
import Mathlib.Tactic.IntervalCases

/-!
# MCDI request framing

A request to the management controller is written into a mailbox of 256 bytes,
dword by dword, before the doorbell is rung (`sfc7120_mcdi.c`).  There are two
header formats: v1 has one header word with a 7-bit command and an 8-bit length;
v2 puts the escape code `0x7f` there and the command and length in a second word.
Lengths count bytes, and a trailing partial dword is padded with zeros.

`requestWrites` lists the dword writes of `sfc7120_mcdi_send_locked` in program
order.  `decodeRequest` reads a mailbox by the documented bit ranges and shares
no definition with the encoder but the access to a dword.  `request_framing_lossless`
is the round trip.
-/

namespace SfcCapio
namespace Mcdi

/-- `MCDI_HEADER_LEN`. -/
abbrev mcdiHeaderLen : Nat := 4

/-- `MCDI_V2_HEADER_LEN`. -/
abbrev mcdiV2HeaderLen : Nat := 8

/-- `MCDI_PAYLOAD_LEN_MAX_V1`. -/
abbrev mcdiPayloadLenMaxV1 : Nat := 0xfc

/-- `MC_CMD_V2_EXTN`. -/
abbrev mcCmdV2Extn : BitVec 32 := 0x7f#32

/-- The size of the DMA buffer behind `mcdi_buf`. -/
abbrev mailboxLen : Nat := mcdiHeaderLen + mcdiPayloadLenMaxV1

/-- The mailbox by byte offset. -/
abbrev Mailbox := Nat → BitVec 8

/-! ## Dword access -/

/-- `mcdi_buf_write_dword`. -/
def writeDword (buf : Mailbox) (offset : Nat) (v : BitVec 32) : Mailbox :=
  fun j =>
    if offset ≤ j ∧ j < offset + 4 then v.extractLsb' (8 * (j - offset)) 8 else buf j

/-- The dword of four bytes in memory order. -/
def dwordOf (b0 b1 b2 b3 : BitVec 8) : BitVec 32 :=
  b0.setWidth 32 ||| (b1.setWidth 32 <<< 8) ||| (b2.setWidth 32 <<< 16) |||
    (b3.setWidth 32 <<< 24)

/-- `mcdi_buf_read_dword`. -/
def readDword (buf : Mailbox) (offset : Nat) : BitVec 32 :=
  dwordOf (buf offset) (buf (offset + 1)) (buf (offset + 2)) (buf (offset + 3))

/-- `memcpy(&v, bytes, n)` over `v = 0` for at most four bytes. -/
def loadDword (bytes : List (BitVec 8)) : BitVec 32 :=
  dwordOf (bytes.getD 0 0#8) (bytes.getD 1 0#8) (bytes.getD 2 0#8) (bytes.getD 3 0#8)

theorem readDword_writeDword (buf : Mailbox) (offset : Nat) (v : BitVec 32) :
    readDword (writeDword buf offset v) offset = v := by
  have hbyte : ∀ k, k < 4 → writeDword buf offset v (offset + k) = v.extractLsb' (8 * k) 8 := by
    intro k hk
    simp only [writeDword]
    rw [if_pos (by omega), Nat.add_sub_cancel_left]
  have hfirst := hbyte 0 (by decide)
  rw [Nat.add_zero] at hfirst
  unfold readDword dwordOf
  rw [hfirst, hbyte 1 (by decide), hbyte 2 (by decide), hbyte 3 (by decide)]
  ext i hi
  interval_cases i <;> simp

/-- Byte `k` of a loaded dword is byte `k` of the source, zero behind its end. -/
theorem loadDword_byte (bytes : List (BitVec 8)) {k : Nat} (hk : k < 4) :
    (loadDword bytes).extractLsb' (8 * k) 8 = bytes.getD k 0#8 := by
  unfold loadDword dwordOf
  ext i hi
  interval_cases k <;> interval_cases i <;> simp

theorem writeDword_of_lt {buf : Mailbox} {offset j : Nat} (hj : j < offset) (v : BitVec 32) :
    writeDword buf offset v j = buf j := by
  simp only [writeDword]
  rw [if_neg (by omega)]

/-! ## The request -/

/-- The dword writes of `mcdi_buf_write_payload`: whole dwords first, then the
tail. -/
def payloadWrites : Nat → List (BitVec 8) → List (Nat × BitVec 32)
  | offset, b0 :: b1 :: b2 :: b3 :: rest =>
    (offset, loadDword [b0, b1, b2, b3]) :: payloadWrites (offset + 4) rest
  | _, [] => []
  | offset, tail => [(offset, loadDword tail)]

/-- The choice of the framing. -/
def useV2 (cmd : BitVec 32) (inLen : Nat) : Bool :=
  decide (mcCmdV2Extn ≤ cmd) || decide (mcdiPayloadLenMaxV1 < inLen)

/-- The first header word: command, length, sequence number, `NOT_EPOCH`. -/
def v1Hdr (code dataLen : BitVec 32) (seq : BitVec 8) (newEpoch : Bool) : BitVec 32 :=
  ((code &&& 0x7f#32) <<< 0) ||| ((dataLen &&& 0xff#32) <<< 8) |||
    ((seq.setWidth 32 &&& 0x0f#32) <<< 16) |||
    (if newEpoch then 0#32 else 1#32 <<< 21)

/-- The extended header word. -/
def v2Hdr (cmd inLen : BitVec 32) : BitVec 32 :=
  ((cmd &&& 0x7fff#32) <<< 0) ||| ((inLen &&& 0x3ff#32) <<< 16)

/-- Where the payload starts, the value `sfc7120_mcdi_send_locked` returns. -/
def payloadOff (cmd : BitVec 32) (inLen : Nat) : Nat :=
  if useV2 cmd inLen then mcdiV2HeaderLen else mcdiHeaderLen

/-- The header writes of `sfc7120_mcdi_send_locked`. -/
def headerWrites (newEpoch : Bool) (cmd : BitVec 32) (inLen : Nat) (seq : BitVec 8) :
    List (Nat × BitVec 32) :=
  if useV2 cmd inLen then
    [(0, v1Hdr mcCmdV2Extn 0#32 seq newEpoch),
      (mcdiHeaderLen, v2Hdr cmd (BitVec.ofNat 32 inLen))]
  else [(0, v1Hdr cmd (BitVec.ofNat 32 inLen) seq newEpoch)]

/-- All mailbox writes of `sfc7120_mcdi_send_locked`, in program order. -/
def requestWrites (newEpoch : Bool) (cmd : BitVec 32) (payload : List (BitVec 8))
    (seq : BitVec 8) : List (Nat × BitVec 32) :=
  headerWrites newEpoch cmd payload.length seq ++
    payloadWrites (payloadOff cmd payload.length) payload

/-- A sequence of dword writes. -/
def writeAll (buf : Mailbox) (writes : List (Nat × BitVec 32)) : Mailbox :=
  writes.foldl (fun b w => writeDword b w.1 w.2) buf

/-- The mailbox that `sfc7120_mcdi_send_locked` builds. -/
def sendLocked (buf : Mailbox) (newEpoch : Bool) (cmd : BitVec 32) (payload : List (BitVec 8))
    (seq : BitVec 8) : Mailbox :=
  writeAll buf (requestWrites newEpoch cmd payload seq)

theorem writeAll_append (buf : Mailbox) (ws ws' : List (Nat × BitVec 32)) :
    writeAll buf (ws ++ ws') = writeAll (writeAll buf ws) ws' := by
  unfold writeAll
  rw [List.foldl_append]

/-! ## Reading a request by the documented format -/

/-- What a request mailbox says. -/
structure Request where
  cmd : Nat
  len : Nat
  payload : List (BitVec 8)
  seq : Nat
  notEpoch : Bool
  payloadOff : Nat
deriving DecidableEq, Repr

/-- `len` bytes of the mailbox from `off` on. -/
def bytesAt (buf : Mailbox) (off len : Nat) : List (BitVec 8) :=
  (List.range len).map fun i => buf (off + i)

/-- The wire format: bits 6:0 the command, 15:8 the length, 19:16 the sequence
number, 21 `NOT_EPOCH`; with command `0x7f` the real command and length are in bits
14:0 and 25:16 of the word at offset 4. -/
def decodeRequest (buf : Mailbox) : Request :=
  let hdr := readDword buf 0
  let ext := readDword buf 4
  let extended := (hdr.extractLsb' 0 7).toNat = 0x7f
  let cmd := if extended then (ext.extractLsb' 0 15).toNat else (hdr.extractLsb' 0 7).toNat
  let len := if extended then (ext.extractLsb' 16 10).toNat else (hdr.extractLsb' 8 8).toNat
  let off := if extended then 8 else 4
  { cmd := cmd
    len := len
    payload := bytesAt buf off len
    seq := (hdr.extractLsb' 16 4).toNat
    notEpoch := hdr.getLsbD 21
    payloadOff := off }

/-! ## Header fields -/

section Fields

variable (code dataLen : BitVec 32) (seq : BitVec 8) (newEpoch : Bool)

theorem v1Hdr_code :
    (v1Hdr code dataLen seq newEpoch).extractLsb' 0 7 = code.extractLsb' 0 7 := by
  ext i hi
  unfold v1Hdr
  cases newEpoch <;> interval_cases i <;> simp

theorem v1Hdr_dataLen :
    (v1Hdr code dataLen seq newEpoch).extractLsb' 8 8 = dataLen.extractLsb' 0 8 := by
  ext i hi
  unfold v1Hdr
  cases newEpoch <;> interval_cases i <;> simp

theorem v1Hdr_seq :
    (v1Hdr code dataLen seq newEpoch).extractLsb' 16 4 = seq.extractLsb' 0 4 := by
  ext i hi
  unfold v1Hdr
  cases newEpoch <;> interval_cases i <;> simp

theorem v1Hdr_notEpoch : (v1Hdr code dataLen seq newEpoch).getLsbD 21 = !newEpoch := by
  unfold v1Hdr
  cases newEpoch <;> simp

/-- A request never carries the response bit. -/
theorem v1Hdr_response : (v1Hdr code dataLen seq newEpoch).getLsbD 23 = false := by
  unfold v1Hdr
  cases newEpoch <;> simp

theorem v2Hdr_cmd : (v2Hdr code dataLen).extractLsb' 0 15 = code.extractLsb' 0 15 := by
  ext i hi
  unfold v2Hdr
  interval_cases i <;> simp

theorem v2Hdr_len : (v2Hdr code dataLen).extractLsb' 16 10 = dataLen.extractLsb' 0 10 := by
  ext i hi
  unfold v2Hdr
  interval_cases i <;> simp

end Fields

theorem toNat_low {w : Nat} {x : BitVec w} {k : Nat} (hx : x.toNat < 2 ^ k) :
    (x.extractLsb' 0 k).toNat = x.toNat := by
  rw [BitVec.extractLsb'_toNat, Nat.shiftRight_zero, Nat.mod_eq_of_lt hx]

/-! ## The payload -/

/-- The payload length rounded up to whole dwords. -/
def padded (len : Nat) : Nat := 4 * ((len + 3) / 4)

theorem length_of_tail {tail : List (BitVec 8)}
    (hshort : ∀ b0 b1 b2 b3 rest, tail = b0 :: b1 :: b2 :: b3 :: rest → False)
    (hne : tail = [] → False) : tail.length < 4 ∧ 0 < tail.length := by
  match tail, hshort, hne with
  | [], _, hne => exact absurd rfl hne
  | [_], _, _ => exact ⟨by simp, by simp⟩
  | [_, _], _, _ => exact ⟨by simp, by simp⟩
  | [_, _, _], _, _ => exact ⟨by simp, by simp⟩
  | b0 :: b1 :: b2 :: b3 :: rest, hshort, _ => exact absurd rfl (hshort b0 b1 b2 b3 rest)

/-- The payload bytes followed by zeros, and nothing else. -/
theorem writeAll_payloadWrites (buf : Mailbox) (offset : Nat) (src : List (BitVec 8)) (j : Nat) :
    writeAll buf (payloadWrites offset src) j =
      if offset ≤ j ∧ j < offset + padded src.length then src.getD (j - offset) 0#8
      else buf j := by
  induction offset, src using payloadWrites.induct generalizing buf with
  | case1 offset b0 b1 b2 b3 rest ih =>
    -- one whole dword, then the rest four bytes further on
    have hlen : padded (b0 :: b1 :: b2 :: b3 :: rest).length = padded rest.length + 4 := by
      simp only [padded, List.length_cons]
      omega
    rw [payloadWrites, writeAll, List.foldl_cons]
    change writeAll (writeDword buf offset _) (payloadWrites (offset + 4) rest) j = _
    rw [ih, hlen]
    by_cases hrest : offset + 4 ≤ j
    · obtain ⟨k, rfl⟩ := Nat.exists_eq_add_of_le hrest
      have hdrop : (b0 :: b1 :: b2 :: b3 :: rest).getD (offset + 4 + k - offset) 0#8 =
          rest.getD (offset + 4 + k - (offset + 4)) 0#8 := by
        rw [show offset + 4 + k - offset = k + 4 by omega, Nat.add_sub_cancel_left]
        rfl
      by_cases hin : k < padded rest.length
      · rw [if_pos (by omega), if_pos (by omega), hdrop]
      · rw [if_neg (by omega), if_neg (by omega)]
        simp only [writeDword]
        rw [if_neg (by omega)]
    · rw [if_neg (by omega)]
      by_cases hin : offset ≤ j
      · obtain ⟨k, rfl⟩ := Nat.exists_eq_add_of_le hin
        have hk : k < 4 := by omega
        rw [if_pos (by omega)]
        simp only [writeDword]
        rw [if_pos (by omega), Nat.add_sub_cancel_left, loadDword_byte _ hk]
        interval_cases k <;> rfl
      · rw [if_neg (by omega), writeDword_of_lt (by omega)]
  | case2 offset =>
    rw [payloadWrites]
    change buf j = _
    rw [if_neg (by simp [padded])]
  | case3 offset tail hshort hne =>
    have hlen := length_of_tail hshort hne
    have hpad : padded tail.length = 4 := by
      simp only [padded]
      omega
    rw [payloadWrites]
    · change writeDword buf offset (loadDword tail) j = _
      rw [hpad]
      by_cases hin : offset ≤ j ∧ j < offset + 4
      · rw [if_pos hin]
        simp only [writeDword]
        rw [if_pos hin, loadDword_byte _ (by omega)]
      · rw [if_neg hin]
        simp only [writeDword]
        rw [if_neg hin]
    · exact hshort
    · exact hne

/-! ## The mailbox as a whole -/

theorem readDword_congr {buf buf' : Mailbox} {offset : Nat}
    (hbytes : ∀ k, k < 4 → buf (offset + k) = buf' (offset + k)) :
    readDword buf offset = readDword buf' offset := by
  have hfirst := hbytes 0 (by decide)
  rw [Nat.add_zero] at hfirst
  unfold readDword
  rw [hfirst, hbytes 1 (by decide), hbytes 2 (by decide), hbytes 3 (by decide)]

/-- A later write leaves the dwords before it alone. -/
theorem readDword_writeDword_of_le {buf : Mailbox} {offset off : Nat} (hle : offset + 4 ≤ off)
    (v : BitVec 32) : readDword (writeDword buf off v) offset = readDword buf offset := by
  apply readDword_congr
  intro k hk
  exact writeDword_of_lt (by omega) v

section Request

variable (buf : Mailbox) (newEpoch : Bool) (cmd : BitVec 32) (payload : List (BitVec 8))
  (seq : BitVec 8)

/-- The mailbox after the header writes. -/
def headed : Mailbox := writeAll buf (headerWrites newEpoch cmd payload.length seq)

/-- The mailbox byte by byte: headers below the payload offset, then the padded
payload. -/
theorem sendLocked_apply (j : Nat) :
    sendLocked buf newEpoch cmd payload seq j =
      if payloadOff cmd payload.length ≤ j ∧
          j < payloadOff cmd payload.length + padded payload.length then
        payload.getD (j - payloadOff cmd payload.length) 0#8
      else headed buf newEpoch cmd payload seq j := by
  unfold sendLocked requestWrites
  rw [writeAll_append, writeAll_payloadWrites]
  rfl

/-- The payload does not reach into the headers. -/
theorem readDword_sendLocked {offset : Nat} (hle : offset + 4 ≤ payloadOff cmd payload.length) :
    readDword (sendLocked buf newEpoch cmd payload seq) offset =
      readDword (headed buf newEpoch cmd payload seq) offset := by
  apply readDword_congr
  intro k hk
  rw [sendLocked_apply, if_neg (by omega)]

theorem readDword_sendLocked_zero :
    readDword (sendLocked buf newEpoch cmd payload seq) 0 =
      if useV2 cmd payload.length then v1Hdr mcCmdV2Extn 0#32 seq newEpoch
      else v1Hdr cmd (BitVec.ofNat 32 payload.length) seq newEpoch := by
  rw [readDword_sendLocked]
  · unfold headed headerWrites
    split
    · change readDword (writeDword (writeDword buf 0 _) mcdiHeaderLen _) 0 = _
      rw [readDword_writeDword_of_le (by decide), readDword_writeDword]
    · change readDword (writeDword buf 0 _) 0 = _
      rw [readDword_writeDword]
  · unfold payloadOff
    split <;> decide

theorem readDword_sendLocked_four (hv2 : useV2 cmd payload.length = true) :
    readDword (sendLocked buf newEpoch cmd payload seq) 4 =
      v2Hdr cmd (BitVec.ofNat 32 payload.length) := by
  rw [readDword_sendLocked]
  · unfold headed headerWrites
    rw [if_pos hv2]
    change readDword (writeDword (writeDword buf 0 _) mcdiHeaderLen _) 4 = _
    exact readDword_writeDword _ _ _
  · unfold payloadOff
    rw [if_pos hv2]

/-- The payload is where the returned offset says. -/
theorem bytesAt_sendLocked :
    bytesAt (sendLocked buf newEpoch cmd payload seq) (payloadOff cmd payload.length)
      payload.length = payload := by
  have hpad : payload.length ≤ padded payload.length := by
    simp only [padded]
    omega
  apply List.ext_getElem
  · simp [bytesAt]
  · intro k hk hk'
    simp only [bytesAt, List.getElem_map, List.getElem_range]
    rw [sendLocked_apply, if_pos (by omega), Nat.add_sub_cancel_left]
    exact List.getD_eq_getElem payload 0#8 hk'

/-- Headers and payload lie below the end of the padded payload. -/
theorem sendLocked_of_ge {j : Nat}
    (hj : payloadOff cmd payload.length + padded payload.length ≤ j) :
    sendLocked buf newEpoch cmd payload seq j = buf j := by
  rw [sendLocked_apply, if_neg (by omega)]
  unfold payloadOff at hj
  unfold headed headerWrites
  split
  · rename_i hv2
    rw [if_pos hv2] at hj
    change 8 + _ ≤ j at hj
    change writeDword (writeDword buf 0 _) 4 _ j = _
    simp only [writeDword]
    rw [if_neg (by omega), if_neg (by omega)]
  · rename_i hv1
    rw [if_neg hv1] at hj
    change 4 + _ ≤ j at hj
    change writeDword buf 0 _ j = _
    simp only [writeDword]
    rw [if_neg (by omega)]

/-- A short command with a length that fits uses the v1 header and is no escape. -/
theorem lt_of_not_useV2 (hv1 : useV2 cmd payload.length = false) :
    cmd.toNat < 0x7f ∧ payload.length ≤ 252 := by
  unfold useV2 at hv1
  simp only [Bool.or_eq_false_iff, decide_eq_false_iff_not, BitVec.le_def] at hv1
  obtain ⟨hcmd, hlen⟩ := hv1
  have hextn : mcCmdV2Extn.toNat = 0x7f := rfl
  rw [hextn] at hcmd
  exact ⟨by omega, by simpa using hlen⟩

theorem decodeRequest_sendLocked (hcmd : cmd.toNat < 2 ^ 15)
    (hfits : payloadOff cmd payload.length + payload.length ≤ mailboxLen) :
    decodeRequest (sendLocked buf newEpoch cmd payload seq) =
      { cmd := cmd.toNat
        len := payload.length
        payload := payload
        seq := seq.toNat % 16
        notEpoch := !newEpoch
        payloadOff := payloadOff cmd payload.length } := by
  have hbytes := bytesAt_sendLocked buf newEpoch cmd payload seq
  have hzero := readDword_sendLocked_zero buf newEpoch cmd payload seq
  have hseq : (seq.extractLsb' 0 4).toNat = seq.toNat % 16 := by
    rw [BitVec.extractLsb'_toNat, Nat.shiftRight_zero]
  have hlenWord : (BitVec.ofNat 32 payload.length).toNat = payload.length := by
    rw [BitVec.toNat_ofNat]
    apply Nat.mod_eq_of_lt
    simp only [mailboxLen, mcdiHeaderLen, mcdiPayloadLenMaxV1] at hfits
    omega
  cases hframing : useV2 cmd payload.length with
  | true =>
    -- the escape code sends the reader to the second word
    have hoff : payloadOff cmd payload.length = 8 := by
      unfold payloadOff
      rw [if_pos hframing]
    have hfour := readDword_sendLocked_four buf newEpoch cmd payload seq hframing
    rw [hframing, if_pos rfl] at hzero
    rw [hoff] at hbytes hfits ⊢
    have hcode : ((v1Hdr mcCmdV2Extn 0#32 seq newEpoch).extractLsb' 0 7).toNat = 0x7f := by
      rw [v1Hdr_code]
      rfl
    have hlen : ((v2Hdr cmd (BitVec.ofNat 32 payload.length)).extractLsb' 16 10).toNat =
        payload.length := by
      rw [v2Hdr_len, toNat_low, hlenWord]
      rw [hlenWord]
      simp only [mailboxLen, mcdiHeaderLen, mcdiPayloadLenMaxV1] at hfits
      omega
    simp only [decodeRequest, hzero, hfour, hcode, if_true, hlen, hbytes, v2Hdr_cmd, v1Hdr_seq,
      v1Hdr_notEpoch, hseq, toNat_low hcmd]
  | false =>
    have hoff : payloadOff cmd payload.length = 4 := by
      unfold payloadOff
      rw [hframing]
      rfl
    obtain ⟨hsmall, hshort⟩ := lt_of_not_useV2 cmd payload hframing
    rw [hframing] at hzero
    simp only [Bool.false_eq_true, if_false] at hzero
    rw [hoff] at hbytes ⊢
    have hcode : ((v1Hdr cmd (BitVec.ofNat 32 payload.length) seq newEpoch).extractLsb' 0
        7).toNat = cmd.toNat := by
      rw [v1Hdr_code]
      exact toNat_low (by omega)
    have hne : cmd.toNat ≠ 0x7f := by omega
    have hlen : ((v1Hdr cmd (BitVec.ofNat 32 payload.length) seq newEpoch).extractLsb' 8
        8).toNat = payload.length := by
      rw [v1Hdr_dataLen, toNat_low, hlenWord]
      rw [hlenWord]
      omega
    simp only [decodeRequest, hzero, hcode, hne, if_false, hlen, hbytes, v1Hdr_seq,
      v1Hdr_notEpoch, hseq]

/-- Whatever fits the mailbox is framed without loss: a reader of the documented
format gets back the command, the byte length, the payload, the sequence number
modulo 16 and the epoch bit, and finds the payload at the returned offset; a partial
last dword is padded with zeros; nothing outside the mailbox is written. -/
theorem request_framing_lossless (hcmd : cmd.toNat < 2 ^ 15)
    (hfits : payloadOff cmd payload.length + payload.length ≤ mailboxLen) :
    decodeRequest (sendLocked buf newEpoch cmd payload seq) =
        { cmd := cmd.toNat
          len := payload.length
          payload := payload
          seq := seq.toNat % 16
          notEpoch := !newEpoch
          payloadOff := payloadOff cmd payload.length } ∧
      (∀ k, payload.length ≤ k → k < padded payload.length →
        sendLocked buf newEpoch cmd payload seq (payloadOff cmd payload.length + k) = 0#8) ∧
      ∀ j, mailboxLen ≤ j → sendLocked buf newEpoch cmd payload seq j = buf j := by
  refine ⟨decodeRequest_sendLocked buf newEpoch cmd payload seq hcmd hfits, ?_, ?_⟩
  · intro k hlow hhigh
    rw [sendLocked_apply, if_pos (by omega), Nat.add_sub_cancel_left]
    exact List.getD_eq_default payload 0#8 hlow
  · intro j hj
    apply sendLocked_of_ge
    -- both offsets and the mailbox size are multiples of four
    have hoff : payloadOff cmd payload.length = 4 ∨ payloadOff cmd payload.length = 8 := by
      unfold payloadOff
      split
      · exact Or.inr rfl
      · exact Or.inl rfl
    simp only [mailboxLen, mcdiHeaderLen, mcdiPayloadLenMaxV1, padded] at hfits hj ⊢
    omega

end Request

/-- `MC_CMD_VADAPTOR_ALLOC`, a v2 request of 30 bytes. -/
theorem request_framing_vadaptor_alloc :
    payloadOff 0x98#32 30 + 30 ≤ mailboxLen ∧
      (decodeRequest (sendLocked (fun _ => 0xff#8) true 0x98#32 (List.replicate 30 0xa5#8)
        0x13#8)).len = 30 ∧
      sendLocked (fun _ => 0xff#8) true 0x98#32 (List.replicate 30 0xa5#8) 0x13#8 39 = 0#8 := by
  obtain ⟨hdecode, hpad, -⟩ := request_framing_lossless (fun _ => 0xff#8) true 0x98#32
    (List.replicate 30 0xa5#8) 0x13#8 (by decide) (by decide)
  refine ⟨by decide, ?_, ?_⟩
  · rw [hdecode]
    rfl
  · exact hpad 31 (by decide) (by decide)

end Mcdi
end SfcCapio
