import SfcCapio.Mcdi.Responses

/-!
# An exchange as a whole

`mcdiExec` is `sfc7120_mcdi_exec` from its length checks to its return, for a controller
that leaves the mailbox alone once it has set the response bit: `mc k` is the mailbox at
poll `k`, and what poll saw is what the later reads find.  `SfcCapio.Mcdi.Exec` has the
same function cut at its accesses, for a controller that does not; that both agree when
nothing is delivered in between is `exec_moves_respond`.

Next to the return value the result has the caller's buffer, the value stored through
`out_used`, and the offsets of the dwords of the mailbox that were touched, in program
order.
-/

namespace SfcCapio
namespace Mcdi

open Foundation

/-! ## The copy loop -/

/-- `memcpy` of `bytes` to index `idx` of the caller's buffer. -/
def store (mem : Nat → BitVec 8) (idx : Nat) (bytes : List (BitVec 8)) : Nat → BitVec 8 :=
  fun j => if idx ≤ j ∧ j < idx + bytes.length then bytes.getD (j - idx) 0#8 else mem j

/-- A dword read of which `n` bytes go to index `dst` of the caller's buffer. -/
structure DwordRead where
  dst : Nat
  src : Nat
  n : Nat
deriving DecidableEq, Repr

/-- The reads of `mcdi_buf_read_payload`: whole dwords first, then the tail.  The last
argument is the number of bytes left, `len - i`. -/
def payloadReads : Nat → Nat → Nat → List DwordRead
  | dst, src, left + 4 => ⟨dst, src, 4⟩ :: payloadReads (dst + 4) (src + 4) left
  | _, _, 0 => []
  | dst, src, tail => [⟨dst, src, tail⟩]

/-- The reads with the copies that follow them. -/
def readAll (buf : Mailbox) (mem : Nat → BitVec 8) (reads : List DwordRead) : Nat → BitVec 8 :=
  reads.foldl (fun mem r => store mem r.dst ((dwordBytes (readDword buf r.src)).take r.n)) mem

/-! ## Polling -/

/-- The end of the polling loop: the polls made, and the mailbox with the response. -/
structure Polled where
  polls : Nat
  response : Option Mailbox

/-- The loop over `sfc7120_mcdi_poll_response` from poll `k` on. -/
def pollLoop (mc : Nat → Mailbox) : Nat → Nat → Nat → Nat → Polled
  | 0, k, _, _ => ⟨k, none⟩
  | fuel + 1, k, delayUs, totalUs =>
    if hdrResponse (readDword (mc k) 0) then ⟨k + 1, some (mc k)⟩
    else if timeoutUs ≤ totalUs then ⟨k + 1, none⟩
    else pollLoop mc fuel (k + 1) (min (delayUs * 2) pollMaxUs) (totalUs + delayUs)

/-- More rounds than the loop can make. -/
abbrev maxPolls : Nat := timeoutUs / pollMinUs + 1

/-- The polls of one exchange. -/
def polled (mc : Nat → Mailbox) : Polled := pollLoop mc maxPolls 0 pollMinUs 0

/-! ## The exchange -/

/-- The part of `sfc7120_softc_t` that an exchange uses. -/
structure McdiSoftc where
  initialized : Bool
  mcdiSeq : BitVec 8
  newEpoch : Bool
deriving DecidableEq, Repr

/-- What an exchange leaves: the return value, the caller's buffer, what was stored
through `out_used`, and the mailbox dwords touched. -/
structure ExecReturn where
  rc : Option Errno
  out : Nat → BitVec 8
  outUsed : Option Nat
  touched : List Nat

/-- The sequence number of the next request. -/
def McdiSoftc.seq (sc : McdiSoftc) : BitVec 8 := sc.mcdiSeq &&& 0x0f#8

/-- Every way out advances the sequence number and ends the epoch. -/
def McdiSoftc.advanced (sc : McdiSoftc) : McdiSoftc :=
  { sc with mcdiSeq := (sc.mcdiSeq + 1#8) &&& 0x0f#8, newEpoch := false }

/-- `resp_datalen`. -/
def ExecArgs.respLen (args : ExecArgs) (buf : Mailbox) : Nat :=
  if args.off = mcdiV2HeaderLen then extLen (readDword buf mcdiHeaderLen)
  else hdrDataLen (readDword buf 0)

/-- The reads of the response headers. -/
def ExecArgs.headerReads (args : ExecArgs) : List Nat :=
  if args.off = mcdiV2HeaderLen then [0, mcdiHeaderLen] else [0]

/-- The handling of a response, from the reading of its header on. -/
def respond (buf : Mailbox) (args : ExecArgs) (seq : BitVec 8) (out : Nat → BitVec 8) :
    ExecReturn :=
  if hdrSeq (readDword buf 0) ≠ seq then ⟨some .eproto, out, none, args.headerReads⟩
  else if hdrError (readDword buf 0) then
    if 4 ≤ args.respLen buf then
      ⟨xlateErr (readDword buf args.off), out, none, args.headerReads ++ [args.off]⟩
    else ⟨xlateErr 0#32, out, none, args.headerReads⟩
  else if 0 < args.outLen ∧ args.hasOut = true then
    let copy := min (args.respLen buf) args.outLen
    let reads := payloadReads 0 args.off copy
    { rc := none
      out := store (readAll buf out reads) copy (List.replicate (args.outLen - copy) 0#8)
      outUsed := some copy
      touched := args.headerReads ++ reads.map DwordRead.src }
  else ⟨none, out, some 0, args.headerReads⟩

/-- `sfc7120_mcdi_exec`. -/
def mcdiExec (sc : McdiSoftc) (args : ExecArgs) (mc : Nat → Mailbox) (out : Nat → BitVec 8) :
    ExecReturn × McdiSoftc :=
  if sc.initialized = false then (⟨some .enxio, out, none, []⟩, sc)
  else if ¬ args.Accepted then (⟨some .einval, out, none, []⟩, sc)
  else
    let sent := (requestWrites sc.newEpoch args.cmd args.payload sc.seq).map Prod.fst
    let polls := List.replicate (polled mc).polls 0
    match (polled mc).response with
    | none =>
      -- the dwords dumped when the wait is given up
      (⟨some .etimedout, out, none, sent ++ polls ++ [0, 4, 8, 12]⟩, sc.advanced)
    | some buf =>
      let ret := respond buf args sc.seq out
      ({ ret with touched := sent ++ polls ++ ret.touched }, sc.advanced)

/-- The response that a call acts on, if it comes to one. -/
def responseSeen (sc : McdiSoftc) (args : ExecArgs) (mc : Nat → Mailbox) : Option Mailbox :=
  if sc.initialized = true ∧ args.Accepted then (polled mc).response else none

/-! ## The loops -/

/-- The bound on the rounds is never what ends the loop: each round waits at least the
shortest delay. -/
theorem pollLoop_add_fuel {mc : Nat → Mailbox} {fuel k delayUs totalUs : Nat} (more : Nat)
    (hdelay : pollMinUs ≤ delayUs) (hfuel : timeoutUs ≤ totalUs + pollMinUs * fuel) :
    pollLoop mc (fuel + 1 + more) k delayUs totalUs =
      pollLoop mc (fuel + 1) k delayUs totalUs := by
  induction fuel generalizing k delayUs totalUs with
  | zero =>
    have htimeout : timeoutUs ≤ totalUs := by simpa using hfuel
    rw [Nat.add_right_comm]
    simp only [pollLoop, htimeout, if_true]
  | succ fuel ih =>
    have hnext : pollMinUs ≤ min (delayUs * 2) pollMaxUs := by
      simp only [pollMinUs, pollMaxUs] at hdelay ⊢
      omega
    have hleft : timeoutUs ≤ totalUs + delayUs + pollMinUs * fuel := by
      rw [Nat.mul_succ] at hfuel
      omega
    have hrest := ih (k := k + 1) hnext hleft
    rw [Nat.add_right_comm, pollLoop, hrest]
    conv_rhs => rw [pollLoop]

theorem polled_eq_of_more_rounds (mc : Nat → Mailbox) (more : Nat) :
    pollLoop mc (maxPolls + more) 0 pollMinUs 0 = polled mc :=
  pollLoop_add_fuel more (Nat.le_refl pollMinUs) (by decide)

/-- Only a set response bit ends the wait with a response. -/
theorem pollLoop_response {mc : Nat → Mailbox} {fuel k delayUs totalUs : Nat} {buf : Mailbox}
    (hbuf : (pollLoop mc fuel k delayUs totalUs).response = some buf) :
    hdrResponse (readDword buf 0) = true := by
  induction fuel generalizing k delayUs totalUs with
  | zero => cases hbuf
  | succ fuel ih =>
    rw [pollLoop] at hbuf
    split at hbuf
    · rename_i hset
      obtain rfl := Option.some.inj hbuf
      exact hset
    · split at hbuf
      · cases hbuf
      · exact ih hbuf

/-- Copying `n` bytes of the dword at `src`. -/
theorem store_dword (buf : Mailbox) (mem : Nat → BitVec 8) {idx src n : Nat} (hn : n ≤ 4)
    (j : Nat) :
    store mem idx ((dwordBytes (readDword buf src)).take n) j =
      if idx ≤ j ∧ j < idx + n then buf (src + (j - idx)) else mem j := by
  have hlen : ((dwordBytes (readDword buf src)).take n).length = n := by
    rw [dwordBytes_readDword, List.length_take, bytesAt, List.length_map, List.length_range]
    omega
  unfold store
  rw [hlen]
  split
  · rename_i hin
    rw [dwordBytes_readDword, List.getD_eq_getElem?_getD, List.getElem?_take_of_lt (by omega)]
    simp only [bytesAt, List.getElem?_map, List.getElem?_range (show j - idx < 4 by omega),
      Option.map_some, Option.getD_some]
  · rfl

/-- The copy loop moves exactly the bytes asked for, whatever their number. -/
theorem readAll_payloadReads (buf : Mailbox) (mem : Nat → BitVec 8) (dst src len j : Nat) :
    readAll buf mem (payloadReads dst src len) j =
      if dst ≤ j ∧ j < dst + len then buf (src + (j - dst)) else mem j := by
  induction dst, src, len using payloadReads.induct generalizing mem with
  | case1 dst src left ih =>
    -- one whole dword, then the rest four bytes further on
    rw [payloadReads, readAll, List.foldl_cons]
    change readAll buf (store mem dst _) (payloadReads (dst + 4) (src + 4) left) j = _
    rw [ih, store_dword buf mem (Nat.le_refl 4)]
    by_cases hrest : dst + 4 ≤ j
    · by_cases hin : j < dst + 4 + left
      · rw [if_pos ⟨hrest, hin⟩, if_pos (by omega)]
        congr 1
        omega
      · rw [if_neg (by omega), if_neg (by omega), if_neg (by omega)]
    · rw [if_neg (by omega)]
      by_cases hin : dst ≤ j
      · rw [if_pos (by omega), if_pos (by omega)]
      · rw [if_neg (by omega), if_neg (by omega)]
  | case2 dst src =>
    rw [payloadReads]
    change mem j = _
    rw [if_neg (by omega)]
  | case3 dst src tail hshort hne =>
    have hlt : tail < 4 := by
      by_contra hlong
      exact hshort (tail - 4) (by omega)
    rw [payloadReads]
    · exact store_dword buf mem (Nat.le_of_lt hlt) j
    · exact hshort
    · exact hne

/-! ## The exchange cut at its accesses -/

/-- What the stepwise exchange hands over, put into the caller's buffer. -/
def handedOver (mem : Nat → BitVec 8) : Option (List (BitVec 8) × Nat) → Nat → BitVec 8
  | none => mem
  | some (bytes, _) => store mem 0 bytes

theorem length_bytesAt (buf : Mailbox) (off len : Nat) : (bytesAt buf off len).length = len := by
  rw [bytesAt, List.length_map, List.length_range]

theorem exec_moves_payload {s : McdiSys} {c : Call} {copy : Nat} {acc : List (BitVec 8)}
    (hcall : s.call = some c) (hpc : c.pc = .payload copy acc)
    (hacc : acc = (bytesAt s.buf c.args.off copy).take acc.length) :
    ∃ n, exec mcdiStep s (List.replicate n .move) =
      some (s.finished c none
        (some (bytesAt s.buf c.args.off copy ++
          List.replicate (c.args.outLen - copy) 0#8, copy))) := by
  induction hleft : copy - acc.length using Nat.strong_induction_on
    generalizing s c acc with
  | _ left ih =>
    have hmove : mcdiStep s .move = some (s.read c) := by
      simp only [mcdiStep, hcall, Option.map_some, McdiSys.moved, hpc]
    by_cases hmore : acc.length < copy
    · -- one more dword
      obtain ⟨acc', hacc'⟩ : ∃ acc', acc' = acc ++
          (dwordBytes (readDword s.buf (c.args.off + acc.length))).take (copy - acc.length) :=
        ⟨_, rfl⟩
      have hgrown : acc' = (bytesAt s.buf c.args.off copy).take (min copy (acc.length + 4)) := by
        have hwhole : bytesAt s.buf c.args.off (bytesAt s.buf c.args.off copy).length =
            bytesAt s.buf c.args.off copy := by
          rw [length_bytesAt]
        rw [hacc', ← take_dword hwhole (Nat.le_of_eq (length_bytesAt _ _ _).symm) hmore, ← hacc]
      have hlength : acc'.length = min copy (acc.length + 4) := by
        rw [hgrown, List.length_take, length_bytesAt]
        omega
      have hread : s.read c = { s with call := some { c with pc := .payload copy acc' } } := by
        simp [McdiSys.read, hpc, readStep, hmore, hacc']
      obtain ⟨n, hn⟩ := ih (copy - acc'.length) (by omega) (s := s.read c)
        (c := { c with pc := .payload copy acc' }) (by rw [hread]) rfl
        (by rw [hread, hlength]; exact hgrown) rfl
      refine ⟨n + 1, ?_⟩
      rw [List.replicate_succ, exec_cons_of_some hmove, hn, hread]
      rfl
    · have hdone : acc = bytesAt s.buf c.args.off copy := by
        rw [hacc]
        apply List.take_of_length_le
        rw [length_bytesAt]
        omega
      refine ⟨1, ?_⟩
      rw [List.replicate_one, exec_cons_of_some hmove, exec_nil]
      simp [McdiSys.read, hpc, readStep, hmore, McdiSys.finished, ← hdone]

/-- The copy and the zeros behind it are one block. -/
theorem store_readAll (buf : Mailbox) (mem : Nat → BitVec 8) (off copy : Nat)
    (zeros : List (BitVec 8)) :
    store (readAll buf mem (payloadReads 0 off copy)) copy zeros =
      store mem 0 (bytesAt buf off copy ++ zeros) := by
  funext j
  simp only [store, readAll_payloadReads, List.length_append, length_bytesAt, Nat.zero_le,
    true_and, Nat.zero_add, Nat.sub_zero]
  by_cases hcopied : j < copy
  · rw [if_neg (by omega), if_pos hcopied, if_pos (by omega),
      List.getD_append _ _ _ _ (by rwa [length_bytesAt])]
    simp [bytesAt, hcopied]
  · by_cases hzero : j < copy + zeros.length
    · rw [if_pos (by omega), if_pos hzero, List.getD_append_right _ _ _ _ (by
        rw [length_bytesAt]
        omega), length_bytesAt]
    · rw [if_neg (by omega), if_neg hcopied, if_neg hzero]

theorem exec_moves_checked {s : McdiSys} {c : Call} (out : Nat → BitVec 8)
    (hmove : mcdiStep s .move = some (s.read c))
    (hread : readStep s.buf c.args c.seq c.pc =
      checked c.args c.seq (readDword s.buf 0) (c.args.respLen s.buf)) :
    ∃ n o, exec mcdiStep s (List.replicate (n + 1) .move) =
        some (s.finished { c with seen := if c.pc = .header then s.last else c.seen }
          (respond s.buf c.args c.seq out).rc o) ∧
      (respond s.buf c.args c.seq out).out = handedOver out o := by
  obtain ⟨seen, hseen⟩ : ∃ seen, seen = if c.pc = .header then s.last else c.seen := ⟨_, rfl⟩
  rw [← hseen]
  have hstep : ∀ n, exec mcdiStep s (List.replicate (n + 1) .move) =
      exec mcdiStep (s.read c) (List.replicate n .move) := by
    intro n
    rw [List.replicate_succ, exec_cons_of_some hmove]
  unfold McdiSys.read at hstep
  rw [hread] at hstep
  unfold checked at hstep
  unfold respond
  by_cases hseq : hdrSeq (readDword s.buf 0) ≠ c.seq
  · simp only [if_pos hseq] at hstep ⊢
    exact ⟨0, none, by rw [hstep, hseen]; rfl, rfl⟩
  · simp only [if_neg hseq] at hstep ⊢
    cases herror : hdrError (readDword s.buf 0) with
    | true =>
      by_cases hcode : 4 ≤ c.args.respLen s.buf
      · -- the error code is one more read
        simp only [herror, hcode, if_true] at hstep ⊢
        exact ⟨1, none, by rw [hstep, hseen]; rfl, rfl⟩
      · simp only [herror, hcode, if_true, if_false] at hstep ⊢
        exact ⟨0, none, by rw [hstep, hseen]; rfl, rfl⟩
    | false =>
      by_cases hout : 0 < c.args.outLen ∧ c.args.hasOut = true
      · simp only [herror, Bool.false_eq_true, if_false, if_pos hout] at hstep ⊢
        let copy := min (c.args.respLen s.buf) c.args.outLen
        let c' : Call := { c with pc := .payload copy [], seen := seen }
        obtain ⟨n, hn⟩ := exec_moves_payload (s := { s with call := some c' }) (c := c') rfl rfl
          (by rw [List.length_nil, List.take_zero])
        refine ⟨n, some (_, copy), ?_, store_readAll _ _ _ _ _⟩
        rw [hstep, ← hseen]
        exact hn
      · simp only [herror, Bool.false_eq_true, if_false, if_neg hout] at hstep ⊢
        exact ⟨0, none, by rw [hstep, hseen]; rfl, rfl⟩

/-- An exchange that stands before the header of a response and is left alone returns
what `respond` says. -/
theorem exec_moves_respond {s : McdiSys} {c : Call} (hcall : s.call = some c)
    (hpc : c.pc = .header) (out : Nat → BitVec 8) :
    ∃ n o, exec mcdiStep s (List.replicate n .move) =
        some (s.finished { c with seen := s.last } (respond s.buf c.args c.seq out).rc o) ∧
      (respond s.buf c.args c.seq out).out = handedOver out o := by
  have hmove : mcdiStep s .move = some (s.read c) := by
    simp only [mcdiStep, hcall, Option.map_some, McdiSys.moved, hpc]
  by_cases hoff : c.args.off = mcdiV2HeaderLen
  · -- the length is in the second header word
    have hread : s.read c =
        { s with call := some { c with pc := .ext (readDword s.buf 0), seen := s.last } } := by
      simp [McdiSys.read, hpc, readStep, hoff]
    obtain ⟨n, o, hrun, hout⟩ := exec_moves_checked (s := s.read c)
      (c := { c with pc := .ext (readDword s.buf 0), seen := s.last }) out
      (by rw [hread]; rfl)
      (by
        rw [hread]
        simp only [readStep, ExecArgs.respLen, hoff, if_true])
    refine ⟨n + 2, o, ?_, ?_⟩
    · rw [List.replicate_succ, exec_cons_of_some hmove, hrun, hread]
      rfl
    · rw [hread] at hout
      exact hout
  · obtain ⟨n, o, hrun, hout⟩ := exec_moves_checked out hmove (by
      rw [hpc]
      simp only [readStep, ExecArgs.respLen, hoff, if_false])
    refine ⟨n + 1, o, ?_, hout⟩
    rw [hrun, if_pos hpc]

end Mcdi
end SfcCapio
