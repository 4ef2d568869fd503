import SfcCapio.Mcdi.Framing

/-!
# One MCDI exchange at a time

`sfc7120_mcdi_exec` writes a request into the mailbox, rings the doorbell, polls
the response bit with a growing delay for ten seconds, and then reads header and
payload out of the same mailbox.  The management controller may write a response at
any time, also long after the driver has given up on it.

The driver holds a lock during the exchange, the controller does not.  So every
access to the mailbox is a step of its own here, and responses may fall between any
two of them.  The record of requests, of the responses delivered and of the values
returned is kept beside the driver's state.
-/

namespace SfcCapio
namespace Mcdi

/-! ## Return values -/

/-- The error numbers an exchange can return. -/
inductive Errno
  | eperm
  | enoent
  | eintr
  | eio
  | enxio
  | eagain
  | enomem
  | eacces
  | ebusy
  | einval
  | enosys
  | etimedout
  | eopnotsupp
  | eproto
deriving DecidableEq, Repr

/-- `sfc7120_mcdi_xlate_err`; `none` is the return value 0. -/
def xlateErr (mcErr : BitVec 32) : Option Errno :=
  if mcErr = 0#32 then none
  else if mcErr = 1#32 then some .eperm
  else if mcErr = 2#32 then some .enoent
  else if mcErr = 4#32 then some .eintr
  else if mcErr = 5#32 then some .eio
  else if mcErr = 11#32 then some .eagain
  else if mcErr = 12#32 then some .enomem
  else if mcErr = 13#32 then some .eacces
  else if mcErr = 16#32 then some .ebusy
  else if mcErr = 22#32 then some .einval
  else if mcErr = 38#32 then some .enosys
  else if mcErr = 62#32 then some .etimedout
  else if mcErr = 95#32 then some .eopnotsupp
  else some .eio

/-! ## Response headers -/

/-- `MCDI_HDR_RESPONSE`. -/
def hdrResponse (hdr : BitVec 32) : Bool := (hdr >>> 23) &&& 1#32 != 0#32

/-- `MCDI_HDR_ERROR`. -/
def hdrError (hdr : BitVec 32) : Bool := (hdr >>> 22) &&& 1#32 != 0#32

/-- `MCDI_HDR_SEQ`, as a `uint8_t`. -/
def hdrSeq (hdr : BitVec 32) : BitVec 8 := ((hdr >>> 16) &&& 0x0f#32).setWidth 8

/-- `MCDI_HDR_DATALEN`. -/
def hdrDataLen (hdr : BitVec 32) : Nat := ((hdr >>> 8) &&& 0xff#32).toNat

/-- `MCDI_V2_EXT_LEN`. -/
def extLen (ext : BitVec 32) : Nat := ((ext >>> 16) &&& 0x3ff#32).toNat

/-! ## The driver's side -/

/-- `SFC7120_MCDI_POLL_MIN_US`. -/
abbrev pollMinUs : Nat := 10

/-- `SFC7120_MCDI_POLL_MAX_US`. -/
abbrev pollMaxUs : Nat := 100 * 1000

/-- `SFC7120_MCDI_TIMEOUT_US`. -/
abbrev timeoutUs : Nat := 10 * 1000 * 1000

/-- The arguments of `sfc7120_mcdi_exec`; `hasOut` says that `out` is not `NULL`. -/
structure ExecArgs where
  cmd : BitVec 32
  payload : List (BitVec 8)
  outLen : Nat
  hasOut : Bool
deriving DecidableEq, Repr

namespace ExecArgs

/-- The length check. -/
def Accepted (args : ExecArgs) : Prop :=
  args.payload.length ≤ mcdiPayloadLenMaxV1 ∧ args.outLen ≤ mcdiPayloadLenMaxV1

instance (args : ExecArgs) : Decidable args.Accepted :=
  inferInstanceAs (Decidable (_ ∧ _))

/-- `payload_off`. -/
def off (args : ExecArgs) : Nat := payloadOff args.cmd args.payload.length

/-- The first dword written. -/
def firstHdr (args : ExecArgs) (newEpoch : Bool) (seq : BitVec 8) : BitVec 32 :=
  if useV2 args.cmd args.payload.length then v1Hdr mcCmdV2Extn 0#32 seq newEpoch
  else v1Hdr args.cmd (BitVec.ofNat 32 args.payload.length) seq newEpoch

/-- The writes after the first one. -/
def laterWrites (args : ExecArgs) (newEpoch : Bool) (seq : BitVec 8) : List (Nat × BitVec 32) :=
  (requestWrites newEpoch args.cmd args.payload seq).tail

end ExecArgs

/-- Where an exchange stands: before its next access to the mailbox, or, with no
writes left, to the doorbell. -/
inductive ExecPc
  | write (rest : List (Nat × BitVec 32))
  | poll (delayUs totalUs : Nat)
  | header
  | ext (hdr : BitVec 32)
  | errCode
  | payload (copy : Nat) (acc : List (BitVec 8))
deriving DecidableEq, Repr

/-- The exchange goes on, or returns; `out` is what it has put into the caller's
buffer with the value of `out_used`. -/
inductive Outcome
  | running (pc : ExecPc)
  | returned (rc : Option Errno) (out : Option (List (BitVec 8) × Nat))

/-- The bytes of a dword in memory order. -/
def dwordBytes (v : BitVec 32) : List (BitVec 8) :=
  (List.range 4).map fun k => v.extractLsb' (8 * k) 8

/-- What follows once header and length are known. -/
def checked (args : ExecArgs) (seq : BitVec 8) (hdr : BitVec 32) (respLen : Nat) : Outcome :=
  if hdrSeq hdr ≠ seq then .returned (some .eproto) none
  else if hdrError hdr then
    if 4 ≤ respLen then .running .errCode else .returned (xlateErr 0#32) none
  else if 0 < args.outLen ∧ args.hasOut = true then
    .running (.payload (min respLen args.outLen) [])
  else .returned none none

/-- One read of the mailbox by the exchange. -/
def readStep (buf : Mailbox) (args : ExecArgs) (seq : BitVec 8) : ExecPc → Outcome
  | .write rest => .running (.write rest)
  | .poll delayUs totalUs =>
    if hdrResponse (readDword buf 0) then .running .header
    else if timeoutUs ≤ totalUs then .returned (some .etimedout) none
    else .running (.poll (min (delayUs * 2) pollMaxUs) (totalUs + delayUs))
  | .header =>
    let hdr := readDword buf 0
    if args.off = mcdiV2HeaderLen then .running (.ext hdr)
    else checked args seq hdr (hdrDataLen hdr)
  | .ext hdr => checked args seq hdr (extLen (readDword buf mcdiHeaderLen))
  | .errCode => .returned (xlateErr (readDword buf args.off)) none
  | .payload copy acc =>
    if acc.length < copy then
      .running (.payload copy
        (acc ++ (dwordBytes (readDword buf (args.off + acc.length))).take (copy - acc.length)))
    else .returned none (some (acc ++ List.replicate (args.outLen - copy) 0#8, copy))

/-! ## The driver and the controller -/

/-- A request: its arguments and the sequence number in its header. -/
structure Req where
  args : ExecArgs
  seq : BitVec 8
deriving DecidableEq, Repr

/-- What the controller answers. -/
structure Answer where
  error : Bool
  bytes : List (BitVec 8)
deriving DecidableEq, Repr

/-- The response bits, sequence number, length and bytes of an answer, in the framing
of its request. -/
def Encodes (req : Req) (answer : Answer) (buf : Mailbox) : Prop :=
  hdrResponse (readDword buf 0) = true ∧ hdrSeq (readDword buf 0) = req.seq ∧
    hdrError (readDword buf 0) = answer.error ∧
    (if req.args.off = mcdiV2HeaderLen then extLen (readDword buf mcdiHeaderLen)
      else hdrDataLen (readDword buf 0)) = answer.bytes.length ∧
    bytesAt buf req.args.off answer.bytes.length = answer.bytes

instance (req : Req) (answer : Answer) (buf : Mailbox) : Decidable (Encodes req answer buf) :=
  inferInstanceAs (Decidable (_ ∧ _))

/-- An exchange in progress.  `seen` is the request whose response was in the mailbox
when the header was read. -/
structure Call where
  args : ExecArgs
  seq : BitVec 8
  pc : ExecPc
  seen : Option Nat

/-- A finished exchange. -/
structure Result where
  args : ExecArgs
  rc : Option Errno
  out : Option (List (BitVec 8) × Nat)
  seen : Option Nat

/-- The mailbox, the driver and the record.  `reqs` are the requests begun, of which
the first `posted` have been handed over; `last` is the request whose response was
written last since the newest request was begun. -/
structure McdiSys where
  buf : Mailbox
  mcdiSeq : BitVec 8
  newEpoch : Bool
  call : Option Call
  reqs : List Req
  posted : Nat
  delivered : List (Nat × Answer)
  last : Option Nat
  results : List Result

/-- A caller enters the function, the exchange makes its next access, or the
controller writes the response to request `k`. -/
inductive McdiLabel
  | enter (args : ExecArgs)
  | move
  | deliver (k : Nat) (answer : Answer) (buf : Mailbox)

/-- `seq = mcdi_seq & 0xf`, and the first dword of the request. -/
def McdiSys.begun (s : McdiSys) (args : ExecArgs) : McdiSys :=
  let seq := s.mcdiSeq &&& 0x0f#8
  { s with
    buf := writeDword s.buf 0 (args.firstHdr s.newEpoch seq)
    call :=
      some
        { args := args
          seq := seq
          pc := .write (args.laterWrites s.newEpoch seq)
          seen := none }
    reqs := s.reqs ++ [{ args := args, seq := seq }]
    last := none }

/-- Every way out advances the sequence number and ends the epoch. -/
def McdiSys.finished (s : McdiSys) (c : Call) (rc : Option Errno)
    (out : Option (List (BitVec 8) × Nat)) : McdiSys :=
  { s with
    mcdiSeq := (s.mcdiSeq + 1#8) &&& 0x0f#8
    newEpoch := false
    call := none
    results := s.results ++ [{ args := c.args, rc := rc, out := out, seen := c.seen }] }

/-- A read of the mailbox. -/
def McdiSys.read (s : McdiSys) (c : Call) : McdiSys :=
  let seen := if c.pc = .header then s.last else c.seen
  match readStep s.buf c.args c.seq c.pc with
  | .running pc => { s with call := some { c with pc := pc, seen := seen } }
  | .returned rc out => s.finished { c with seen := seen } rc out

/-- The next access of the exchange. -/
def McdiSys.moved (s : McdiSys) (c : Call) : McdiSys :=
  match c.pc with
  | .write (w :: ws) =>
    { s with buf := writeDword s.buf w.1 w.2, call := some { c with pc := .write ws } }
  | .write [] =>
    -- the doorbell
    { s with posted := s.posted + 1, call := some { c with pc := .poll pollMinUs 0 } }
  | _ => s.read c

/-- The controller answers a request that has been posted, once. -/
def McdiSys.CanDeliver (s : McdiSys) (k : Nat) (answer : Answer) (buf : Mailbox) : Prop :=
  k < s.posted ∧ k ∉ s.delivered.map Prod.fst ∧ ∃ req ∈ s.reqs[k]?, Encodes req answer buf

instance (s : McdiSys) (k : Nat) (answer : Answer) (buf : Mailbox) :
    Decidable (s.CanDeliver k answer buf) :=
  inferInstanceAs (Decidable (_ ∧ _ ∧ ∃ req ∈ s.reqs[k]?, Encodes req answer buf))

/-- The interleaved system. -/
def mcdiStep (s : McdiSys) : McdiLabel → Option McdiSys
  | .enter args =>
    if s.call.isSome then none
    else if args.Accepted then some (s.begun args)
    else some s
  | .move => s.call.map s.moved
  | .deliver k answer buf =>
    if s.CanDeliver k answer buf then
      some { s with buf := buf, delivered := s.delivered ++ [(k, answer)], last := some k }
    else none

/-- The state `sfc7120_mcdi_init` leaves. -/
structure McdiStart (s : McdiSys) : Prop where
  mcdiSeq : s.mcdiSeq = 0#8
  newEpoch : s.newEpoch = true
  idle : s.call = none
  noReqs : s.reqs = []
  nonePosted : s.posted = 0
  noneDelivered : s.delivered = []
  noResults : s.results = []

end Mcdi
end SfcCapio
