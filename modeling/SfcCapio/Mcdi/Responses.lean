import SfcCapio.Foundation.Runs
import SfcCapio.Mcdi.Exec

/-!
# Which response an exchange accepts

Requests and responses share one mailbox, and only a sequence number of four bits
tells them apart.  The driver compares it once, after reading the header, and reads
length and payload afterwards.

Two things have to hold for the comparison to mean anything.  A late response must
not be sixteen requests old, counted from the moment the driver starts to write the
newest one: the doorbell comes too late, since the header is in the mailbox before.
And no response may arrive between the reading of a header and the reading of the
payload it belongs to.  `Settled` says both, and `accepted_response_is_own` is the
result; `late_response_replaces_payload` shows a run without either.
-/

namespace SfcCapio
namespace Mcdi

open Foundation

/-! ## What is to hold -/

/-- The bytes a caller gets of an answer: as many as fit, then zeros. -/
def filled (bytes : List (BitVec 8)) (outLen : Nat) : List (BitVec 8) :=
  bytes.take outLen ++ List.replicate (outLen - bytes.length) 0#8

/-- The result of request `k` is not built on the response to another request. -/
structure OwnAnswer (delivered : List (Nat × Answer)) (k : Nat) (res : Result) : Prop where
  /-- Output bytes are those of the answer to this very request. -/
  bytes : ∀ out used, res.rc = none → res.out = some (out, used) →
    ∃ a, (k, a) ∈ delivered ∧ a.error = false ∧ out = filled a.bytes res.args.outLen ∧
      used = min a.bytes.length res.args.outLen
  /-- Any other response makes the call fail. -/
  others : ∀ j, res.seen = some j → j ≠ k → res.rc ≠ none

/-- The `k`-th result belongs to the `k`-th request, and the sequence number counts
the results. -/
structure AcceptsOwn (s : McdiSys) : Prop where
  results : ∀ (k : Nat) res, s.results[k]? = some res → OwnAnswer s.delivered k res
  seq : s.mcdiSeq.toNat = s.results.length % 16

/-- The exchange has read a header and not yet the length and payload that belong to it. -/
def ExecPc.Reading : ExecPc → Prop
  | .ext _ => True
  | .payload _ _ => True
  | _ => False

/-- A response comes before sixteen further requests have been begun, and not while
the driver reads one. -/
def Settled (s : McdiSys) : McdiLabel → Prop
  | .deliver k _ _ => s.reqs.length ≤ k + 16 ∧ ∀ c ∈ s.call, ¬ c.pc.Reading
  | _ => True

/-! ## Header bits and sequence numbers -/

theorem hdrResponse_eq (hdr : BitVec 32) : hdrResponse hdr = hdr.getLsbD 23 := by
  unfold hdrResponse
  rw [BitVec.and_one_eq_setWidth_ofBool_getLsbD, BitVec.getLsbD_ushiftRight]
  cases hdr.getLsbD (23 + 0) <;> rfl

theorem hdrResponse_firstHdr (args : ExecArgs) (newEpoch : Bool) (seq : BitVec 8) :
    hdrResponse (args.firstHdr newEpoch seq) = false := by
  rw [hdrResponse_eq]
  unfold ExecArgs.firstHdr
  split
  · exact v1Hdr_response _ _ _ _
  · exact v1Hdr_response _ _ _ _

/-- The sequence number of the `k`-th request. -/
def seqOf (k : Nat) : BitVec 8 := BitVec.ofNat 8 (k % 16)

theorem seqOf_toNat (k : Nat) : (seqOf k).toNat = k % 16 := by
  unfold seqOf
  rw [BitVec.toNat_ofNat]
  omega

theorem seqOf_mask (k : Nat) : seqOf k &&& 0x0f#8 = seqOf k := by
  apply BitVec.eq_of_toNat_eq
  rw [BitVec.toNat_and, seqOf_toNat]
  change k % 16 &&& (2 ^ 4 - 1) = k % 16
  rw [Nat.and_two_pow_sub_one_eq_mod]
  omega

theorem seqOf_succ (k : Nat) : (seqOf k + 1#8) &&& 0x0f#8 = seqOf (k + 1) := by
  apply BitVec.eq_of_toNat_eq
  rw [BitVec.toNat_and, BitVec.toNat_add, seqOf_toNat, seqOf_toNat]
  change (k % 16 + 1) % 2 ^ 8 &&& (2 ^ 4 - 1) = (k + 1) % 16
  rw [Nat.and_two_pow_sub_one_eq_mod]
  omega

variable {j k copy : Nat} {c : Call} {buf : Mailbox}

/-- Within a window of sixteen the sequence number tells requests apart. -/
theorem eq_of_seqOf_eq (hle : j ≤ k) (hwindow : k < j + 16) (hseq : seqOf j = seqOf k) : j = k := by
  have hnat := congrArg BitVec.toNat hseq
  rw [seqOf_toNat, seqOf_toNat] at hnat
  omega

/-- After the first dword a request is written behind it. -/
theorem laterWrites_offset (args : ExecArgs) (newEpoch : Bool) (seq : BitVec 8) :
    ∀ w ∈ args.laterWrites newEpoch seq, 4 ≤ w.1 := by
  have hpayload : ∀ (offset : Nat) (src : List (BitVec 8)), ∀ w ∈ payloadWrites offset src,
      offset ≤ w.1 := by
    intro offset src
    induction offset, src using payloadWrites.induct with
    | case1 offset b0 b1 b2 b3 rest ih =>
      intro w hw
      rw [payloadWrites] at hw
      rcases List.mem_cons.mp hw with rfl | hrest
      · exact Nat.le_refl offset
      · exact Nat.le_trans (Nat.le_add_right offset 4) (ih w hrest)
    | case2 offset =>
      intro w hw
      rw [payloadWrites] at hw
      cases hw
    | case3 offset tail hshort hne =>
      intro w hw
      rw [payloadWrites] at hw
      · rw [List.mem_singleton.mp hw]
      · exact hshort
      · exact hne
  have hoff : 4 ≤ payloadOff args.cmd args.payload.length := by
    unfold payloadOff
    split <;> decide
  intro w hw
  unfold ExecArgs.laterWrites requestWrites headerWrites at hw
  split at hw
  · rcases List.mem_cons.mp hw with rfl | hrest
    · exact Nat.le_refl 4
    · exact Nat.le_trans hoff (hpayload _ _ w hrest)
  · exact Nat.le_trans hoff (hpayload _ _ w hw)

/-! ## The invariant -/

/-- The response in the mailbox, if one has arrived since the newest request was
begun: whose it is, and that it is whole if it is the newest request's own. -/
def McdiSys.MailboxOk (s : McdiSys) : Prop :=
  match s.last with
  | none => hdrResponse (readDword s.buf 0) = false
  | some j =>
    ∃ r a, s.reqs[j]? = some r ∧ (j, a) ∈ s.delivered ∧
      hdrSeq (readDword s.buf 0) = r.seq ∧ s.reqs.length ≤ j + 16 ∧
      (j = s.results.length → Encodes r a s.buf)

/-- The mailbox holds the answer to the exchange in progress. -/
def McdiSys.Holds (s : McdiSys) (c : Call) (a : Answer) : Prop :=
  c.seen = some s.results.length ∧ (s.results.length, a) ∈ s.delivered ∧
    Encodes ⟨c.args, c.seq⟩ a s.buf

/-- What the exchange carries at each point. -/
def McdiSys.PcOk (s : McdiSys) (c : Call) : ExecPc → Prop
  | .write rest => s.posted = s.results.length ∧ ∀ w ∈ rest, 4 ≤ w.1
  | .poll _ _ => s.posted = s.reqs.length
  | .header => s.posted = s.reqs.length ∧ s.last ≠ none
  | .ext hdr =>
    s.posted = s.reqs.length ∧ s.last ≠ none ∧ c.seen = s.last ∧ hdr = readDword s.buf 0 ∧
      c.args.off = mcdiV2HeaderLen
  | .errCode => s.posted = s.reqs.length ∧ c.seen = some s.results.length
  | .payload copy acc =>
    s.posted = s.reqs.length ∧ ∃ a, s.Holds c a ∧ a.error = false ∧
      copy = min a.bytes.length c.args.outLen ∧ acc.length ≤ copy ∧
      acc = a.bytes.take acc.length

/-- The exchange in progress. -/
structure McdiSys.CallOk (s : McdiSys) (c : Call) : Prop where
  newest : s.reqs.length = s.results.length + 1
  req : s.reqs[s.results.length]? = some ⟨c.args, c.seq⟩
  mailbox : s.MailboxOk
  pc : s.PcOk c c.pc

/-- Sequence numbers, counts, the exchange in progress and the results. -/
structure McdiInv (s : McdiSys) : Prop where
  seqs : ∀ (k : Nat) r, s.reqs[k]? = some r → r.seq = seqOf k
  mcdiSeq : s.mcdiSeq = seqOf s.results.length
  idle : s.call = none → s.reqs.length = s.results.length ∧ s.posted = s.reqs.length
  delivered : ∀ k a, (k, a) ∈ s.delivered → k < s.posted
  call : ∀ c, s.call = some c → s.CallOk c
  results : ∀ (k : Nat) res, s.results[k]? = some res → OwnAnswer s.delivered k res

variable {s : McdiSys}

theorem McdiInv.acceptsOwn (hinv : McdiInv s) : AcceptsOwn s where
  results := hinv.results
  seq := by rw [hinv.mcdiSeq, seqOf_toNat]

theorem mcdiInv_start (hstart : McdiStart s) : McdiInv s where
  seqs := by simp [hstart.noReqs]
  mcdiSeq := by
    rw [hstart.mcdiSeq, hstart.noResults]
    rfl
  idle := by
    intro _
    rw [hstart.noReqs, hstart.noResults, hstart.nonePosted]
    exact ⟨rfl, rfl⟩
  delivered := by simp [hstart.noneDelivered]
  call := by
    intro c hcall
    rw [hstart.idle] at hcall
    cases hcall
  results := by simp [hstart.noResults]

theorem OwnAnswer.mono {delivered delivered' : List (Nat × Answer)} {res : Result}
    (hown : OwnAnswer delivered k res) (hsub : delivered ⊆ delivered') :
    OwnAnswer delivered' k res where
  bytes := by
    intro out used hrc hout
    obtain ⟨a, ha, hrest⟩ := hown.bytes out used hrc hout
    exact ⟨a, hsub ha, hrest⟩
  others := hown.others

/-! ## Beginning a request and writing it -/

theorem mcdiInv_begun (args : ExecArgs) (hinv : McdiInv s)
    (hidle : s.call = none) : McdiInv (s.begun args) := by
  obtain ⟨hlen, hposted⟩ := hinv.idle hidle
  have hseq : s.mcdiSeq &&& 0x0f#8 = seqOf s.reqs.length := by
    rw [hinv.mcdiSeq, seqOf_mask, hlen]
  refine
    { seqs := ?_
      mcdiSeq := hinv.mcdiSeq
      idle := nofun
      delivered := hinv.delivered
      call := ?_
      results := hinv.results }
  · intro k r hr
    rcases getElem?_concat_cases hr with hold | ⟨rfl, rfl⟩
    · exact hinv.seqs k r hold
    · exact hseq
  · intro c hcall
    obtain rfl := Option.some.inj hcall
    refine
      { newest := ?_
        req := ?_
        mailbox := ?_
        pc := ⟨?_, laterWrites_offset args s.newEpoch _⟩ }
    · change (s.reqs ++ [_]).length = s.results.length + 1
      rw [List.length_append, hlen]
      rfl
    · change (s.reqs ++ [_])[s.results.length]? = _
      rw [← hlen, List.getElem?_concat_length]
    · change hdrResponse (readDword (writeDword s.buf 0 _) 0) = false
      rw [readDword_writeDword, hdrResponse_firstHdr]
    · change s.posted = s.results.length
      rw [hposted, hlen]

/-- While a request is being written the mailbox cannot hold its answer. -/
theorem McdiSys.MailboxOk.write {w : Nat × BitVec 32} {ws : List (Nat × BitVec 32)}
    (hok : s.MailboxOk) (hdelivered : ∀ k a, (k, a) ∈ s.delivered → k < s.posted)
    (hposted : s.posted = s.results.length) (hw : 4 ≤ w.1) :
    McdiSys.MailboxOk
      { s with buf := writeDword s.buf w.1 w.2, call := some { c with pc := .write ws } } := by
  have hhdr : readDword (writeDword s.buf w.1 w.2) 0 = readDword s.buf 0 :=
    readDword_writeDword_of_le (by omega) w.2
  unfold McdiSys.MailboxOk at hok ⊢
  cases hlast : s.last with
  | none =>
    rw [hlast] at hok
    simp only [hhdr]
    exact hok
  | some j =>
    rw [hlast] at hok
    obtain ⟨r, a, hr, ha, hseq, hwindow, -⟩ := hok
    simp only [hhdr]
    refine ⟨r, a, hr, ha, hseq, hwindow, ?_⟩
    intro hown
    have hlt := hdelivered j a ha
    omega

theorem mcdiInv_write {w : Nat × BitVec 32} {ws : List (Nat × BitVec 32)} (hinv : McdiInv s)
    (hcall : s.call = some c) (hpc : c.pc = .write (w :: ws)) :
    McdiInv
      { s with buf := writeDword s.buf w.1 w.2, call := some { c with pc := .write ws } } := by
  have hok := hinv.call c hcall
  obtain ⟨hposted, hoffsets⟩ : s.PcOk c (.write (w :: ws)) := hpc ▸ hok.pc
  have hw := hoffsets w List.mem_cons_self
  refine { hinv with idle := nofun, call := ?_ }
  intro c' hcall'
  obtain rfl := Option.some.inj hcall'
  refine
    { newest := hok.newest
      req := hok.req
      mailbox := hok.mailbox.write hinv.delivered hposted hw
      pc := ⟨hposted, ?_⟩ }
  intro w' hw'
  exact hoffsets w' (List.mem_cons_of_mem w hw')

theorem mcdiInv_ring (hinv : McdiInv s) (hcall : s.call = some c) (hpc : c.pc = .write []) :
    McdiInv { s with posted := s.posted + 1, call := some { c with pc := .poll pollMinUs 0 } } := by
  have hok := hinv.call c hcall
  obtain ⟨hposted, -⟩ : s.PcOk c (.write []) := hpc ▸ hok.pc
  refine { hinv with idle := nofun, delivered := ?_, call := ?_ }
  · intro k a ha
    exact Nat.lt_succ_of_lt (hinv.delivered k a ha)
  · intro c' hcall'
    obtain rfl := Option.some.inj hcall'
    refine { newest := hok.newest, req := hok.req, mailbox := hok.mailbox, pc := ?_ }
    change s.posted + 1 = s.reqs.length
    rw [hposted, hok.newest]

/-! ## Reading a response -/

/-- What an outcome must provide for the invariant to go on. -/
def McdiSys.OutcomeOk (s : McdiSys) (c : Call) : Outcome → Prop
  | .running pc => s.PcOk c pc
  | .returned rc out =>
    s.posted = s.reqs.length ∧ OwnAnswer s.delivered s.results.length ⟨c.args, rc, out, c.seen⟩

theorem mcdiInv_finished {rc : Option Errno} {out : Option (List (BitVec 8) × Nat)}
    (hinv : McdiInv s) (hnewest : s.reqs.length = s.results.length + 1)
    (hok : s.OutcomeOk c (.returned rc out)) : McdiInv (s.finished c rc out) := by
  obtain ⟨hposted, hown⟩ := hok
  have hlen : (s.results ++ [(⟨c.args, rc, out, c.seen⟩ : Result)]).length =
      s.results.length + 1 := by
    rw [List.length_append]
    rfl
  refine
    { seqs := hinv.seqs
      mcdiSeq := ?_
      idle := ?_
      delivered := hinv.delivered
      call := nofun
      results := ?_ }
  · change (s.mcdiSeq + 1#8) &&& 0x0f#8 = seqOf (s.results ++ [_]).length
    rw [hlen, hinv.mcdiSeq, seqOf_succ]
  · intro _
    change s.reqs.length = (s.results ++ [_]).length ∧ s.posted = s.reqs.length
    exact ⟨hnewest.trans hlen.symm, hposted⟩
  · intro k res hres
    rcases getElem?_concat_cases hres with hold | ⟨rfl, rfl⟩
    · exact hinv.results k res hold
    · exact hown

/-- A return that hands out no bytes is harmless if it fails or has seen the own
response. -/
theorem ownAnswer_without_bytes {delivered : List (Nat × Answer)} {args : ExecArgs}
    {rc : Option Errno} {seen : Option Nat} (hseen : rc ≠ none ∨ seen = some k) :
    OwnAnswer delivered k ⟨args, rc, none, seen⟩ where
  bytes := by
    intro out used _ hout
    cases hout
  others := by
    intro j hj hne
    rcases hseen with hrc | hown
    · exact hrc
    · change seen = some j at hj
      rw [hown] at hj
      exact absurd (Option.some.inj hj).symm hne

/-- A matching sequence number means that the response is the own one. -/
theorem McdiInv.holds_of_seq (hinv : McdiInv s) (hcall : s.CallOk c) (hlast : s.last ≠ none)
    (hseq : hdrSeq (readDword s.buf 0) = c.seq) :
    ∃ a, McdiSys.Holds s { c with seen := s.last } a := by
  have hmailbox := hcall.mailbox
  unfold McdiSys.MailboxOk at hmailbox
  cases hj : s.last with
  | none => exact absurd hj hlast
  | some j =>
    rw [hj] at hmailbox
    obtain ⟨r, a, hr, ha, hseqj, hwindow, hwhole⟩ := hmailbox
    have hnewest := hcall.newest
    obtain ⟨hlt, -⟩ := List.getElem?_eq_some_iff.mp hr
    have hmine : c.seq = seqOf s.results.length := hinv.seqs _ _ hcall.req
    have hsame : seqOf j = seqOf s.results.length := by
      rw [← hinv.seqs j r hr, ← hmine, ← hseqj, hseq]
    obtain rfl : j = s.results.length := eq_of_seqOf_eq (by omega) (by omega) hsame
    have hreq := hcall.req
    rw [hr] at hreq
    obtain rfl := Option.some.inj hreq
    exact ⟨a, rfl, ha, hwhole rfl⟩

/-- The checks behind the header, for the length that belongs to it. -/
theorem McdiInv.checked_ok {respLen : Nat} (hinv : McdiInv s) (hcall : s.CallOk c)
    (hposted : s.posted = s.reqs.length) (hlast : s.last ≠ none)
    (hlen : ∀ a, Encodes ⟨c.args, c.seq⟩ a s.buf → respLen = a.bytes.length) :
    s.OutcomeOk { c with seen := s.last }
      (checked c.args c.seq (readDword s.buf 0) respLen) := by
  unfold checked
  by_cases hseq : hdrSeq (readDword s.buf 0) = c.seq
  · obtain ⟨a, hseen, ha, hencodes⟩ := hinv.holds_of_seq hcall hlast hseq
    change s.last = some s.results.length at hseen
    have herror := hencodes.2.2.1
    rw [if_neg (not_not_intro hseq), hlen a hencodes, herror]
    cases hcase : a.error with
    | true =>
      simp only [if_true]
      split
      · exact ⟨hposted, hseen⟩
      · exact ⟨hposted, ownAnswer_without_bytes (Or.inr hseen)⟩
    | false =>
      simp only [Bool.false_eq_true, if_false]
      split
      · refine ⟨hposted, a, ⟨hseen, ha, hencodes⟩, hcase, rfl, Nat.zero_le _, ?_⟩
        rw [List.length_nil, List.take_zero]
      · exact ⟨hposted, ownAnswer_without_bytes (Or.inr hseen)⟩
  · rw [if_pos hseq]
    exact ⟨hposted, ownAnswer_without_bytes (Or.inl (by simp))⟩

/-- The bytes of a dword are the bytes of the mailbox it was read from. -/
theorem dwordBytes_readDword (buf : Mailbox) (offset : Nat) :
    dwordBytes (readDword buf offset) = bytesAt buf offset 4 := by
  unfold dwordBytes bytesAt
  apply List.map_congr_left
  intro k hk
  have hk' := List.mem_range.mp hk
  have hbyte := loadDword_byte
    [buf offset, buf (offset + 1), buf (offset + 2), buf (offset + 3)] hk'
  change (readDword buf offset).extractLsb' (8 * k) 8 = _ at hbyte
  rw [hbyte]
  interval_cases k <;> rfl

theorem take_dword {off copy n : Nat} {bytes : List (BitVec 8)}
    (hbytes : bytesAt buf off bytes.length = bytes) (hcopy : copy ≤ bytes.length) (hn : n < copy) :
    bytes.take n ++ (dwordBytes (readDword buf (off + n))).take (copy - n) =
      bytes.take (min copy (n + 4)) := by
  have hget : ∀ i, i < bytes.length → bytes[i]? = some (buf (off + i)) := by
    intro i hi
    rw [← hbytes]
    simp [bytesAt, hi]
  rw [dwordBytes_readDword]
  apply List.ext_getElem?
  intro i
  rw [List.getElem?_append]
  have hlen : (bytes.take n).length = n := by
    rw [List.length_take]
    omega
  rw [hlen]
  split
  · rename_i hi
    rw [List.getElem?_take_of_lt hi, List.getElem?_take_of_lt (by omega)]
  · rename_i hi
    by_cases hin : i < min copy (n + 4)
    · rw [List.getElem?_take_of_lt (by omega), List.getElem?_take_of_lt hin, hget i (by omega)]
      have hrange : i - n < 4 := by omega
      simp only [bytesAt, List.getElem?_map, List.getElem?_range hrange, Option.map_some]
      rw [show off + n + (i - n) = off + i by omega]
    · rw [List.getElem?_eq_none, List.getElem?_eq_none]
      · rw [List.length_take]
        omega
      · rw [List.length_take, bytesAt, List.length_map, List.length_range]
        omega

theorem McdiSys.payload_ok {acc : List (BitVec 8)} (hpc : s.PcOk c (.payload copy acc)) :
    s.OutcomeOk c (readStep s.buf c.args c.seq (.payload copy acc)) := by
  obtain ⟨hposted, a, hholds, herror, hcopy, hle, hacc⟩ := hpc
  have hencodes := hholds.2.2
  simp only [readStep]
  split
  · rename_i hmore
    refine ⟨hposted, a, hholds, herror, hcopy, ?_, ?_⟩
    · rw [List.length_append, List.length_take]
      omega
    · have htake := take_dword hencodes.2.2.2.2 (show copy ≤ a.bytes.length by omega) hmore
      rw [← hacc] at htake
      have hmin : min copy (acc.length + 4) ≤ a.bytes.length := by omega
      rw [htake, List.length_take, Nat.min_eq_left hmin]
  · rename_i hdone
    refine ⟨hposted, ?_, ?_⟩
    · intro out used _ hout
      obtain ⟨rfl, rfl⟩ := Prod.mk.inj (Option.some.inj hout)
      refine ⟨a, hholds.2.1, herror, ?_, hcopy⟩
      -- all of the answer that fits has been read; zeros fill the rest
      have hfull : acc.length = min a.bytes.length c.args.outLen := by omega
      change acc ++ _ = a.bytes.take c.args.outLen ++ _
      congr 1
      · rw [hacc, List.take_eq_take_iff]
        omega
      · congr 1
        change c.args.outLen - copy = c.args.outLen - a.bytes.length
        omega
    · intro j hj hne
      change c.seen = some j at hj
      rw [hholds.1] at hj
      exact absurd (Option.some.inj hj).symm hne

theorem McdiInv.readStep_ok (hinv : McdiInv s) (hcall : s.call = some c)
    (hnot : ∀ rest, c.pc ≠ .write rest) :
    s.OutcomeOk { c with seen := if c.pc = .header then s.last else c.seen }
      (readStep s.buf c.args c.seq c.pc) := by
  have hok := hinv.call c hcall
  have hpc := hok.pc
  obtain ⟨args, seq, pc, seen⟩ := c
  cases pc with
  | write rest => exact absurd rfl (hnot rest)
  | poll delayUs totalUs =>
    simp only [readStep, reduceCtorEq, if_false]
    split
    · -- the response bit cannot be the request's
      rename_i hresponse
      refine ⟨hpc, ?_⟩
      intro hnone
      have hmailbox := hok.mailbox
      unfold McdiSys.MailboxOk at hmailbox
      rw [hnone] at hmailbox
      rw [hmailbox] at hresponse
      cases hresponse
    · split
      · exact ⟨hpc, ownAnswer_without_bytes (Or.inl (by simp))⟩
      · exact hpc
  | header =>
    obtain ⟨hposted, hlast⟩ := hpc
    simp only [readStep, if_true]
    split
    · rename_i hoff
      exact ⟨hposted, hlast, rfl, rfl, hoff⟩
    · rename_i hoff
      apply hinv.checked_ok hok hposted hlast
      intro a hencodes
      have hlen := hencodes.2.2.2.1
      rw [if_neg hoff] at hlen
      exact hlen
  | ext hdr =>
    obtain ⟨hposted, hlast, hseen, rfl, hoff⟩ := hpc
    change seen = s.last at hseen
    subst hseen
    simp only [readStep, reduceCtorEq, if_false]
    apply hinv.checked_ok hok hposted hlast
    intro a hencodes
    have hlen := hencodes.2.2.2.1
    rw [if_pos hoff] at hlen
    exact hlen
  | errCode =>
    obtain ⟨hposted, hseen⟩ := hpc
    exact ⟨hposted, ownAnswer_without_bytes (Or.inr hseen)⟩
  | payload copy acc => exact McdiSys.payload_ok hpc

theorem mcdiInv_read (hinv : McdiInv s) (hcall : s.call = some c)
    (hnot : ∀ rest, c.pc ≠ .write rest) : McdiInv (s.read c) := by
  have hok := hinv.call c hcall
  have houtcome := hinv.readStep_ok hcall hnot
  unfold McdiSys.read
  cases hstep : readStep s.buf c.args c.seq c.pc with
  | running pc =>
    rw [hstep] at houtcome
    refine { hinv with idle := nofun, call := ?_ }
    intro c' hcall'
    obtain rfl := Option.some.inj hcall'
    exact { newest := hok.newest, req := hok.req, mailbox := hok.mailbox, pc := houtcome }
  | returned rc out =>
    rw [hstep] at houtcome
    exact mcdiInv_finished hinv hok.newest houtcome

theorem mcdiInv_moved (hinv : McdiInv s) (hcall : s.call = some c) :
    McdiInv (s.moved c) := by
  unfold McdiSys.moved
  split
  · rename_i w ws hpc
    exact mcdiInv_write hinv hcall hpc
  · rename_i hpc
    exact mcdiInv_ring hinv hcall hpc
  · rename_i hcons hnil
    apply mcdiInv_read hinv hcall
    intro rest hpc
    cases rest with
    | nil => exact hnil hpc
    | cons w ws => exact hcons w ws hpc

/-! ## Responses -/

/-- A response does not disturb an exchange that is not reading one. -/
theorem McdiSys.PcOk.deliver {answer : Answer} (hok : s.PcOk c c.pc) (hnot : ¬ c.pc.Reading) :
    McdiSys.PcOk
      { s with buf := buf, delivered := s.delivered ++ [(k, answer)], last := some k } c c.pc := by
  cases hpc : c.pc with
  | write rest =>
    rw [hpc] at hok
    exact hok
  | poll delayUs totalUs =>
    rw [hpc] at hok
    exact hok
  | header =>
    rw [hpc] at hok
    exact ⟨hok.1, nofun⟩
  | ext hdr => exact absurd (hpc ▸ trivial) hnot
  | errCode =>
    rw [hpc] at hok
    exact hok
  | payload copy acc => exact absurd (hpc ▸ trivial) hnot

theorem mcdiInv_deliver {answer : Answer} (hinv : McdiInv s)
    (hsettled : Settled s (.deliver k answer buf)) (hcan : s.CanDeliver k answer buf) :
    McdiInv
      { s with buf := buf, delivered := s.delivered ++ [(k, answer)], last := some k } := by
  obtain ⟨hwindow, hquiet⟩ := hsettled
  obtain ⟨hk, -, r, hr, hencodes⟩ := hcan
  have hsub : s.delivered ⊆ s.delivered ++ [(k, answer)] := List.subset_append_left _ _
  refine { hinv with delivered := ?_, call := ?_, results := ?_ }
  · intro j a hj
    rcases List.mem_append.mp hj with hold | hnew
    · exact hinv.delivered j a hold
    · obtain ⟨rfl, -⟩ := Prod.mk.inj (List.mem_singleton.mp hnew)
      exact hk
  · intro c hcall
    have hok := hinv.call c hcall
    have hmem : (k, answer) ∈ s.delivered ++ [(k, answer)] :=
      List.mem_append_right _ List.mem_cons_self
    exact
      { newest := hok.newest
        req := hok.req
        mailbox := ⟨r, answer, hr, hmem, hencodes.2.1, hwindow, fun _ => hencodes⟩
        pc := hok.pc.deliver (hquiet c hcall) }
  · intro j res hres
    exact (hinv.results j res hres).mono hsub

/-! ## Whole runs -/

variable {t : McdiSys}

theorem mcdiInv_step {l : McdiLabel} (hinv : McdiInv s) (hsettled : Settled s l)
    (hstep : mcdiStep s l = some t) : McdiInv t := by
  cases l with
  | enter args =>
    simp only [mcdiStep] at hstep
    split at hstep
    · cases hstep
    · rename_i hidle
      split at hstep
      · obtain rfl := Option.some.inj hstep
        exact mcdiInv_begun args hinv (Option.not_isSome_iff_eq_none.mp hidle)
      · obtain rfl := Option.some.inj hstep
        exact hinv
  | move =>
    obtain ⟨c, hcall, rfl⟩ := Option.map_eq_some_iff.mp hstep
    exact mcdiInv_moved hinv hcall
  | deliver k answer buf =>
    simp only [mcdiStep] at hstep
    split at hstep
    · rename_i hcan
      obtain rfl := Option.some.inj hstep
      exact mcdiInv_deliver hinv hsettled hcan
    · cases hstep

/-- Output bytes are those of the own answer, responses to other requests make the
call fail, and every way out counts in the sequence number. -/
theorem accepted_response_is_own {s t : McdiSys} {labels : List McdiLabel}
    (hstart : McdiStart s) (hsettled : Obeys mcdiStep Settled s labels)
    (hrun : exec mcdiStep s labels = some t) : AcceptsOwn t := by
  have hinv : McdiInv t :=
    exec_invariant_of_obeys (fun _ _ _ => mcdiInv_step) (mcdiInv_start hstart) hsettled hrun
  exact hinv.acceptsOwn

/-- A state `sfc7120_mcdi_init` can leave. -/
def mcdiAfterInit : McdiSys where
  buf := fun _ => 0#8
  mcdiSeq := 0#8
  newEpoch := true
  call := none
  reqs := []
  posted := 0
  delivered := []
  last := none
  results := []

theorem mcdiStart_afterInit : McdiStart mcdiAfterInit := ⟨rfl, rfl, rfl, rfl, rfl, rfl, rfl⟩

/-- `MC_CMD_GET_VERSION` with room for four bytes. -/
def getVersionArgs : ExecArgs where
  cmd := 0x08#32
  payload := []
  outLen := 4
  hasOut := true

/-- A response of four bytes to it. -/
def versionResponse (seq version : BitVec 32) : Mailbox :=
  writeAll (fun _ => 0#8)
    [(0, (1#32 <<< 23) ||| (seq <<< 16) ||| (4#32 <<< 8) ||| 0x08#32), (4, version)]

/-! ## Requests that nobody answers -/

theorem exec_poll_timeout {delayUs totalUs : Nat} (hcall : s.call = some c)
    (hpc : c.pc = .poll delayUs totalUs) (hdelay : 0 < delayUs)
    (hclear : hdrResponse (readDword s.buf 0) = false) :
    ∃ n, exec mcdiStep s (List.replicate n .move) =
      some (s.finished c (some .etimedout) none) := by
  -- every round adds its delay to the time spent
  induction hleft : timeoutUs - totalUs using Nat.strong_induction_on
    generalizing s c delayUs totalUs with
  | _ left ih =>
    have hmove : mcdiStep s .move = some (s.read c) := by
      simp only [mcdiStep, hcall, Option.map_some, McdiSys.moved, hpc]
    by_cases htimeout : timeoutUs ≤ totalUs
    · refine ⟨1, ?_⟩
      rw [List.replicate_one, exec_cons_of_some hmove, exec_nil]
      simp [McdiSys.read, hpc, readStep, hclear, htimeout, McdiSys.finished]
    · have hread : s.read c =
          { s with
            call := some { c with
              pc := .poll (min (delayUs * 2) pollMaxUs) (totalUs + delayUs) } } := by
        simp [McdiSys.read, hpc, readStep, hclear, htimeout]
      obtain ⟨n, hn⟩ := ih (timeoutUs - (totalUs + delayUs)) (by omega)
        (s := s.read c) (by rw [hread]) rfl (by simp only [pollMaxUs]; omega)
        (by rw [hread]; exact hclear) rfl
      refine ⟨n + 1, ?_⟩
      rw [List.replicate_succ, exec_cons_of_some hmove, hn, hread]
      rfl

/-- A request as it stands when its doorbell has been rung. -/
def McdiSys.polling (s : McdiSys) : McdiSys :=
  { s.begun getVersionArgs with
    posted := s.posted + 1
    call := some ⟨getVersionArgs, s.mcdiSeq &&& 0x0f#8, .poll pollMinUs 0, none⟩ }

/-- The request has been given up. -/
def McdiSys.timedOut (s : McdiSys) : McdiSys :=
  s.polling.finished ⟨getVersionArgs, s.mcdiSeq &&& 0x0f#8, .poll pollMinUs 0, none⟩
    (some .etimedout) none

/-- A step of the driver. -/
def McdiLabel.byDriver : McdiLabel → Bool
  | .deliver _ _ _ => false
  | _ => true

theorem exec_timedOut (hidle : s.call = none) :
    ∃ labels, (∀ l ∈ labels, l.byDriver = true) ∧ exec mcdiStep s labels = some s.timedOut := by
  have henter : mcdiStep s (.enter getVersionArgs) = some (s.begun getVersionArgs) := by
    have haccepted : getVersionArgs.Accepted := by decide
    simp [mcdiStep, hidle, haccepted]
  have hring : mcdiStep (s.begun getVersionArgs) .move = some s.polling := rfl
  have hclear : hdrResponse (readDword s.polling.buf 0) = false := by
    change hdrResponse (readDword (writeDword s.buf 0 _) 0) = false
    rw [readDword_writeDword, hdrResponse_firstHdr]
  obtain ⟨n, hn⟩ := exec_poll_timeout (s := s.polling) rfl rfl (by decide) hclear
  refine ⟨.enter getVersionArgs :: .move :: List.replicate n .move, ?_, ?_⟩
  · intro l hl
    rcases List.mem_cons.mp hl with rfl | hl
    · rfl
    · rw [← List.replicate_succ] at hl
      rw [List.eq_of_mem_replicate hl]
      rfl
  · rw [exec_cons_of_some henter, exec_cons_of_some hring, hn]
    rfl

/-- Any number of requests in a row that nobody answers. -/
theorem exec_timeouts (k : Nat) :
    ∃ labels, (∀ l ∈ labels, l.byDriver = true) ∧
      exec mcdiStep mcdiAfterInit labels = some (McdiSys.timedOut^[k] mcdiAfterInit) := by
  induction k with
  | zero => exact ⟨[], nofun, rfl⟩
  | succ k ih =>
    obtain ⟨labels, hlabels, hrun⟩ := ih
    rw [Function.iterate_succ_apply']
    have hidle : (McdiSys.timedOut^[k] mcdiAfterInit).call = none := by
      cases k with
      | zero => rfl
      | succ k =>
        rw [Function.iterate_succ_apply']
        rfl
    obtain ⟨more, hmore, hmoreRun⟩ := exec_timedOut hidle
    refine ⟨labels ++ more, ?_, exec_append hrun hmoreRun⟩
    intro l hl
    rcases List.mem_append.mp hl with hold | hnew
    · exact hlabels l hold
    · exact hmore l hnew

/-- The steps of the driver keep any order that is about responses. -/
theorem obeys_byDriver {guard : McdiSys → McdiLabel → Prop} {labels : List McdiLabel}
    (henter : ∀ s args, guard s (.enter args)) (hmove : ∀ s, guard s .move)
    (hlabels : ∀ l ∈ labels, l.byDriver = true) (s : McdiSys) : Obeys mcdiStep guard s labels := by
  apply obeys_of_labels
  intro l hl s'
  have hdriver := hlabels l hl
  cases l with
  | enter args => exact henter s' args
  | move => exact hmove s'
  | deliver k answer buf => cases hdriver

/-- The answer to the first request arrives while the driver waits for the second, which
fails.  The third request is answered. -/
def overtakenRun : List McdiLabel :=
  [.enter getVersionArgs, .move,
    .deliver 0 ⟨false, [1#8, 0#8, 0#8, 0#8]⟩ (versionResponse 0#32 1#32),
    .move, .move, .enter getVersionArgs, .move,
    .deliver 2 ⟨false, [3#8, 0#8, 0#8, 0#8]⟩ (versionResponse 2#32 3#32),
    .move, .move, .move, .move]

theorem accepted_response_get_version :
    ∃ labels t, McdiStart mcdiAfterInit ∧ Obeys mcdiStep Settled mcdiAfterInit labels ∧
      exec mcdiStep mcdiAfterInit labels = some t ∧
      t.results.map Result.seen = [none, some 0, some 2] ∧
      t.results.map Result.rc = [some .etimedout, some .eproto, none] ∧ AcceptsOwn t := by
  obtain ⟨labels, hlabels, hfirst⟩ := exec_timeouts 1
  obtain ⟨t, hlate, hseen, hrc⟩ : ∃ t,
      exec mcdiStep (McdiSys.timedOut^[1] mcdiAfterInit) overtakenRun = some t ∧
        t.results.map Result.seen = [none, some 0, some 2] ∧
          t.results.map Result.rc = [some .etimedout, some .eproto, none] :=
    ⟨_, rfl, rfl, rfl⟩
  have hrun := exec_append hfirst hlate
  have hsettled : Obeys mcdiStep Settled mcdiAfterInit (labels ++ overtakenRun) := by
    refine (obeys_byDriver (fun _ _ => trivial) (fun _ => trivial) hlabels _).append hfirst ?_
    refine ⟨trivial, trivial, ⟨by decide, ?_⟩, trivial, trivial, trivial, trivial,
      ⟨by decide, ?_⟩, trivial, trivial, trivial, trivial, trivial⟩
    · intro c hc hreading
      obtain rfl := Option.some.inj hc
      exact hreading
    · intro c hc hreading
      obtain rfl := Option.some.inj hc
      exact hreading
  exact ⟨_, t, mcdiStart_afterInit, hsettled, hrun, hseen, hrc,
    accepted_response_is_own mcdiStart_afterInit hsettled hrun⟩

/-! ## Responses that are taken for another's -/

/-- The window counted from the doorbell. -/
def InWindow (s : McdiSys) : McdiLabel → Prop
  | .deliver k _ _ => s.posted ≤ k + 16
  | _ => True

/-- The same, and no response comes while the driver reads one. -/
def SettledFromDoorbell (s : McdiSys) : McdiLabel → Prop
  | .deliver k _ _ => s.posted ≤ k + 16 ∧ ∀ c ∈ s.call, ¬ c.pc.Reading
  | _ => True

/-- The second request is answered first, and the answer to the first one arrives
after the header of the second has been read. -/
def lateResponse : List McdiLabel :=
  [.enter getVersionArgs, .move,
    .deliver 1 ⟨false, [2#8, 0#8, 0#8, 0#8]⟩ (versionResponse 1#32 2#32),
    .move, .move,
    .deliver 0 ⟨false, [1#8, 0#8, 0#8, 0#8]⟩ (versionResponse 0#32 1#32),
    .move, .move]

/-- After sixteen requests the answer to the first one arrives between the header of the
next, which has its sequence number, and the doorbell. -/
def staleResponse : List McdiLabel :=
  [.enter getVersionArgs,
    .deliver 0 ⟨false, [1#8, 0#8, 0#8, 0#8]⟩ (versionResponse 0#32 1#32),
    .move, .move, .move, .move, .move]

theorem foreign_bytes_not_acceptsOwn (hdelivered : t.delivered =
      [(1, ⟨false, [2#8, 0#8, 0#8, 0#8]⟩), (0, ⟨false, [1#8, 0#8, 0#8, 0#8]⟩)])
    (hresult : t.results[1]? =
      some ⟨getVersionArgs, none, some ([1#8, 0#8, 0#8, 0#8], 4), some 1⟩) :
    ¬ AcceptsOwn t := by
  intro haccepts
  obtain ⟨a, ha, -, hbytes, -⟩ := (haccepts.results 1 _ hresult).bytes _ _ rfl rfl
  rw [hdelivered] at ha
  rcases List.mem_cons.mp ha with hown | hfirst
  · rw [(Prod.mk.inj hown).2] at hbytes
    exact absurd hbytes (by decide)
  · have hindex := (Prod.mk.inj (List.mem_singleton.mp hfirst)).1
    exact absurd hindex (by decide)

theorem not_acceptsOwn_of_seen {res : Result} (hresult : t.results[k]? = some res)
    (hrc : res.rc = none) (hseen : res.seen = some j) (hne : j ≠ k) : ¬ AcceptsOwn t := by
  intro haccepts
  exact (haccepts.results k res hresult).others j hseen hne hrc

/-- Neither half of `Settled` can be dropped: a response that arrives after the header of
another has been read replaces its payload, and one that is in the window only when it is
counted from the doorbell is taken for the answer to the newest request. -/
theorem late_response_replaces_payload :
    (∃ labels t, McdiStart mcdiAfterInit ∧ Obeys mcdiStep InWindow mcdiAfterInit labels ∧
      exec mcdiStep mcdiAfterInit labels = some t ∧
      t.delivered =
        [(1, ⟨false, [2#8, 0#8, 0#8, 0#8]⟩), (0, ⟨false, [1#8, 0#8, 0#8, 0#8]⟩)] ∧
      t.results[1]? =
        some ⟨getVersionArgs, none, some ([1#8, 0#8, 0#8, 0#8], 4), some 1⟩ ∧
      ¬ AcceptsOwn t) ∧
    ∃ labels t, McdiStart mcdiAfterInit ∧
      Obeys mcdiStep SettledFromDoorbell mcdiAfterInit labels ∧
      exec mcdiStep mcdiAfterInit labels = some t ∧
      t.delivered = [(0, ⟨false, [1#8, 0#8, 0#8, 0#8]⟩)] ∧
      t.results[16]? =
        some ⟨getVersionArgs, none, some ([1#8, 0#8, 0#8, 0#8], 4), some 0⟩ ∧
      ¬ AcceptsOwn t := by
  constructor
  · obtain ⟨labels, hlabels, hfirst⟩ := exec_timeouts 1
    obtain ⟨t, hlate, hdelivered, hresult⟩ : ∃ t,
        exec mcdiStep (McdiSys.timedOut^[1] mcdiAfterInit) lateResponse = some t ∧
          t.delivered =
            [(1, ⟨false, [2#8, 0#8, 0#8, 0#8]⟩), (0, ⟨false, [1#8, 0#8, 0#8, 0#8]⟩)] ∧
          t.results[1]? =
            some ⟨getVersionArgs, none, some ([1#8, 0#8, 0#8, 0#8], 4), some 1⟩ :=
      ⟨_, rfl, rfl, rfl⟩
    refine ⟨_, t, mcdiStart_afterInit, ?_, exec_append hfirst hlate, hdelivered, hresult,
      foreign_bytes_not_acceptsOwn hdelivered hresult⟩
    refine (obeys_byDriver (fun _ _ => trivial) (fun _ => trivial) hlabels _).append hfirst ?_
    exact ⟨trivial, trivial, show 2 ≤ 1 + 16 by decide, trivial, trivial,
      show 2 ≤ 0 + 16 by decide, trivial, trivial, trivial⟩
  · obtain ⟨labels, hlabels, hfirst⟩ := exec_timeouts 16
    obtain ⟨t, hstale, hdelivered, hresult⟩ : ∃ t,
        exec mcdiStep (McdiSys.timedOut^[16] mcdiAfterInit) staleResponse = some t ∧
          t.delivered = [(0, ⟨false, [1#8, 0#8, 0#8, 0#8]⟩)] ∧
          t.results[16]? =
            some ⟨getVersionArgs, none, some ([1#8, 0#8, 0#8, 0#8], 4), some 0⟩ :=
      ⟨_, rfl, rfl, rfl⟩
    refine ⟨_, t, mcdiStart_afterInit, ?_, exec_append hfirst hstale, hdelivered, hresult,
      not_acceptsOwn_of_seen hresult rfl rfl (by decide)⟩
    refine (obeys_byDriver (fun _ _ => trivial) (fun _ => trivial) hlabels _).append hfirst ?_
    refine ⟨trivial, ⟨show 16 ≤ 0 + 16 by decide, ?_⟩, trivial, trivial, trivial, trivial, trivial,
      trivial⟩
    intro c hc hreading
    obtain rfl := Option.some.inj hc
    exact hreading

end Mcdi
end SfcCapio
