import SfcCapio.Mcdi.Filters

/-!
# The commands of the driver and what the controller reads

`sfc7120_mcdi.c` copies opcodes, lengths and field offsets by hand from
`ref_efx_regs_mcdi.h`.  Here a call is followed from its arguments to the mailbox and back:
`buffer` is what a function fills in, with the driver's own constants; `mcDecode` reads the
framed request with the constants of the reference header.

The three queue commands announce one DMA address for each 4 KiB of the ring but have a
buffer for one.  The driver itself asks for 512 entries, which is one page.  Larger rings pass
the argument checks, and only a `KASSERT`, absent from a kernel built without `INVARIANTS`,
stands between them and a read behind the buffer.
-/

namespace SfcCapio
namespace Mcdi

/-- Stores of dwords into a zeroed buffer, in program order. -/
abbrev Fields := List (Nat × BitVec 32)

/-- `*(uint64_t *)(buf + off) = v`. -/
def qword (off : Nat) (v : BitVec 64) : Fields :=
  [(off, (v &&& 0xffffffff#64).setWidth 32), (off + 4, (v >>> 32).setWidth 32)]

/-- What a function hands to `sfc7120_mcdi_exec`: `inLen` bytes of a buffer of `bufLen`. -/
structure Sent where
  cmd : BitVec 32
  bufLen : Nat
  inLen : Nat
  fields : Fields

/-- The bytes at the pointer; `behind` is the memory that follows the buffer. -/
def Sent.payload (s : Sent) (behind : Nat → BitVec 8) : List (BitVec 8) :=
  (List.range s.inLen).map fun j =>
    if j < s.bufLen then writeAll (fun _ => 0#8) s.fields j else behind (j - s.bufLen)

/-! ## The driver -/

/-- What the functions read of `sfc7120_softc_t`, and the two tunables. -/
structure CmdSoftc where
  viCount : Nat
  vadaptorAllocated : Bool
  evqInitialized : Bool
  dataEvqInitialized : Bool
  rxqInitialized : Bool
  txqInitialized : Bool
  drvAttached : Bool
  mcdiCapsValid : Bool
  mcdiCapFlags1 : BitVec 32
  macAddr : MacAddr
  phySupportedCapMask : BitVec 32
  /-- Whether `stats_buf` is set. -/
  statsBuf : Bool
  statsPaddr : BitVec 64
  txCsum : Int
  fcntl : Int

/-- The functions that send arguments. -/
inductive McdiCall
  | clearAssertions
  | entityReset
  | rebootAfterAssertion
  | drvAttach
  | drvDetach
  | allocVis (minCount maxCount : BitVec 32)
  | initEvq (inst : BitVec 32) (paddr : BitVec 64) (nevs : Nat)
  | initRxq (inst targetEvq : BitVec 32) (ringPaddr : BitVec 64) (ndescs : Nat)
  | initTxq (inst targetEvq : BitVec 32) (ringPaddr : BitVec 64) (ndescs : Nat)
  | finiEvq (inst : BitVec 32)
  | finiRxq (inst : BitVec 32)
  | finiTxq (inst : BitVec 32)
  | vadaptorAlloc
  | vadaptorFree
  | setMac
  | setLink
  | macStats

/-- A power of two of whole pages, in range. -/
def RingSizeOk (n limit : Nat) : Prop :=
  ¬ (n < 512 ∨ n > limit ∨ n &&& (n - 1) ≠ 0 ∨ n * 8 % 4096 ≠ 0)

instance (n limit : Nat) : Decidable (RingSizeOk n limit) := inferInstanceAs (Decidable (¬ _))

/-- A buffer of exactly the length sent. -/
def Sent.whole (cmd : BitVec 32) (len : Nat) (fields : Fields) : Sent := ⟨cmd, len, len, fields⟩

/-- The buffer of `sfc7120_mcdi_init_evq`.  The comment there wants no event merging on a
data queue; the code sets both merge bits for every instance. -/
def initEvqSent (inst : BitVec 32) (paddr : BitVec 64) (nevs : Nat) : Sent :=
  let npages := nevs * 8 / 4096
  let interrupting := inst = 0#32
  let flags := 1#32 <<< 3 ||| 1#32 <<< 4 ||| 1#32 <<< 5
  { cmd := 0x80#32
    bufLen := 36 + 8 * 1
    inLen := 36 + 8 * npages
    fields := [(0, BitVec.ofNat 32 nevs), (4, inst),
      (16, if interrupting then flags ||| (1#32 <<< 0 ||| 1#32 <<< 4 ||| 1#32 <<< 5) else flags),
      (24, if interrupting then inst else 0#32)] ++ qword 36 paddr }

/-- The buffer of `sfc7120_mcdi_init_rxq` and `sfc7120_mcdi_init_txq`, which differ in opcode
and flags. -/
def initDmaqSent (cmd flags inst targetEvq : BitVec 32) (ringPaddr : BitVec 64) (ndescs : Nat) :
    Sent where
  cmd := cmd
  bufLen := 28 + 8 * 1
  inLen := 28 + 8 * (ndescs * 8 / 4096)
  fields := [(0, BitVec.ofNat 32 ndescs), (4, targetEvq), (12, inst), (16, flags),
    (24, evbPortIdAssigned)] ++ qword 28 ringPaddr

/-- The checks before the command; where one fails the function returns without it. -/
def checks (sc : CmdSoftc) : McdiCall → Bool
  | .drvDetach => sc.drvAttached
  | .initEvq inst _ nevs => RingSizeOk nevs 32768 && inst.toNat < sc.viCount
  | .initRxq inst targetEvq _ ndescs =>
    RingSizeOk ndescs 4096 && sc.vadaptorAllocated && inst.toNat < sc.viCount &&
      targetEvq.toNat < sc.viCount
  | .initTxq inst targetEvq _ ndescs =>
    RingSizeOk ndescs 4096 && sc.vadaptorAllocated && inst.toNat < sc.viCount &&
      targetEvq.toNat < sc.viCount
  | .finiEvq inst => if inst = 0#32 then sc.evqInitialized else sc.dataEvqInitialized
  | .finiRxq _ => sc.rxqInitialized
  | .finiTxq _ => sc.txqInitialized
  | .vadaptorAlloc => !sc.vadaptorAllocated
  | .vadaptorFree => sc.vadaptorAllocated
  | .macStats => sc.statsBuf
  | _ => true

/-- The buffer that each function fills in. -/
def buffer (sc : CmdSoftc) : McdiCall → Sent
  | .clearAssertions => .whole 0x06#32 4 [(0, 1#32)]
  | .entityReset => .whole 0x20#32 4 [(0, 0x1#32)]
  | .rebootAfterAssertion => .whole 0x3d#32 4 [(0, 0x1#32)]
  | .drvAttach => .whole 0x1c#32 12 [(0, 0x1#32), (4, 0x1#32), (8, 0x1#32)]
  | .drvDetach => .whole 0x1c#32 12 [(0, 0x0#32), (4, 0x1#32), (8, 0xffffffff#32)]
  | .allocVis minCount maxCount => .whole 0x8b#32 8 [(0, minCount), (4, maxCount)]
  | .initEvq inst paddr nevs => initEvqSent inst paddr nevs
  | .initRxq inst targetEvq ringPaddr ndescs =>
    initDmaqSent 0x81#32 (1#32 <<< 8 ||| 1#32 <<< 9) inst targetEvq ringPaddr ndescs
  | .initTxq inst targetEvq ringPaddr ndescs =>
    initDmaqSent 0x82#32 (if sc.txCsum = 0 then 1#32 <<< 1 ||| 1#32 <<< 2 else 0#32) inst
      targetEvq ringPaddr ndescs
  | .finiEvq inst => .whole 0x83#32 4 [(0, inst)]
  | .finiRxq inst => .whole 0x84#32 4 [(0, inst)]
  | .finiTxq inst => .whole 0x85#32 4 [(0, inst)]
  | .vadaptorAlloc =>
    let permit := sc.mcdiCapsValid = true ∧ sc.mcdiCapFlags1 &&& 1#32 <<< 11 ≠ 0#32
    .whole 0x98#32 30 [(0, evbPortIdAssigned), (8, if permit then 1#32 <<< 1 else 0#32)]
  | .vadaptorFree => .whole 0x99#32 4 [(0, evbPortIdAssigned)]
  | .setMac =>
    let fcntl := if sc.fcntl < 0 ∨ sc.fcntl > 3 then 3 else sc.fcntl
    -- the six bytes of the address fill one dword and half of the next
    .whole 0x2c#32 28
      [(0, 1544#32), (4, 0#32), (8, loadDword ((List.ofFn sc.macAddr).take 4)),
        (12, loadDword ((List.ofFn sc.macAddr).drop 4)), (16, 0#32),
        (20, BitVec.ofInt 32 fcntl), (24, 0#32)]
  | .setLink =>
    .whole 0x2a#32 16
      [(0, sc.phySupportedCapMask ||| 1#32 <<< 10), (4, 0#32), (8, 0#32), (12, 0#32)]
  | .macStats =>
    .whole 0x2e#32 20
      (qword 0 sc.statsPaddr ++
        [(8, 1#32 <<< 0), (12, 0x61#32 * 8#32), (16, evbPortIdAssigned)])

/-- What reaches the mailbox: `sfc7120_mcdi_exec` refuses more than 252 bytes. -/
def issue (sc : CmdSoftc) (call : McdiCall) : Option Sent :=
  if checks sc call = true ∧ (buffer sc call).inLen ≤ mcdiPayloadLenMaxV1 then
    some (buffer sc call)
  else none

/-! ## The controller -/

/-- `MC_CMD_INIT_EVQ_IN`. -/
structure McEvq where
  size : BitVec 32
  inst : BitVec 32
  tmrLoad : BitVec 32
  tmrReload : BitVec 32
  flags : BitVec 32
  tmrMode : BitVec 32
  targetEvq : BitVec 32
  countMode : BitVec 32
  countThrshld : BitVec 32
  dmaAddr : List (BitVec 64)
deriving DecidableEq

/-- `MC_CMD_INIT_RXQ_IN` and `MC_CMD_INIT_TXQ_IN`. -/
structure McDmaq where
  size : BitVec 32
  targetEvq : BitVec 32
  label : BitVec 32
  inst : BitVec 32
  flags : BitVec 32
  ownerId : BitVec 32
  portId : BitVec 32
  dmaAddr : List (BitVec 64)
deriving DecidableEq

/-- A request as the controller reads it. -/
inductive McCommand
  | getAsserts (clear : BitVec 32)
  | entityReset (flag : BitVec 32)
  | reboot (flags : BitVec 32)
  | drvAttach (newState update firmwareId : BitVec 32)
  | allocVis (minViCount maxViCount : BitVec 32)
  | initEvq (q : McEvq)
  | initRxq (q : McDmaq)
  | initTxq (q : McDmaq)
  | finiEvq (inst : BitVec 32)
  | finiRxq (inst : BitVec 32)
  | finiTxq (inst : BitVec 32)
  | vadaptorAlloc (upstreamPortId flags numVlans numVlanTags vlanTags : BitVec 32)
      (macaddr : List (BitVec 8))
  | vadaptorFree (upstreamPortId : BitVec 32)
  | setMac (mtu drain : BitVec 32) (addr : List (BitVec 8)) (reject fcntl flags : BitVec 32)
  | setLink (cap flags loopbackMode loopbackSpeed : BitVec 32)
  | macStats (dmaAddr : BitVec 64) (cmd dmaLen portId : BitVec 32)
deriving DecidableEq

section Controller

variable (r : Request)

/-- The arguments by byte offset. -/
def Request.args : Mailbox := fun j => r.payload.getD j 0#8

def Request.dword (off : Nat) : BitVec 32 := readDword r.args off

/-- A 64-bit field given by its `LO` and `HI` offsets. -/
def Request.addr (off : Nat) : BitVec 64 := r.dword (off + 4) ++ r.dword off

/-- The addresses behind `off`, one for each 4 KiB. -/
def Request.pages (off : Nat) : List (BitVec 64) :=
  (List.range ((r.len - off) / 8)).map fun i => r.addr (off + 8 * i)

def Request.evq : McEvq where
  size := r.dword 0
  inst := r.dword 4
  tmrLoad := r.dword 8
  tmrReload := r.dword 12
  flags := r.dword 16
  tmrMode := r.dword 20
  targetEvq := r.dword 24
  countMode := r.dword 28
  countThrshld := r.dword 32
  dmaAddr := r.pages 36

def Request.dmaq : McDmaq where
  size := r.dword 0
  targetEvq := r.dword 4
  label := r.dword 8
  inst := r.dword 12
  flags := r.dword 16
  ownerId := r.dword 20
  portId := r.dword 24
  dmaAddr := r.pages 28

/-- The reference header: opcode, length and layout of each request. -/
def mcDecode : Option McCommand :=
  match r.cmd with
  | 0x06 => if r.len = 4 then some (.getAsserts (r.dword 0)) else none
  | 0x20 => if r.len = 4 then some (.entityReset (r.dword 0)) else none
  | 0x3d => if r.len = 4 then some (.reboot (r.dword 0)) else none
  | 0x1c => if r.len = 12 then some (.drvAttach (r.dword 0) (r.dword 4) (r.dword 8)) else none
  | 0x8b => if r.len = 8 then some (.allocVis (r.dword 0) (r.dword 4)) else none
  | 0x80 => if 44 ≤ r.len ∧ r.len ≤ 548 then some (.initEvq r.evq) else none
  | 0x81 => if 36 ≤ r.len ∧ r.len ≤ 252 then some (.initRxq r.dmaq) else none
  | 0x82 => if 36 ≤ r.len ∧ r.len ≤ 252 then some (.initTxq r.dmaq) else none
  | 0x83 => if r.len = 4 then some (.finiEvq (r.dword 0)) else none
  | 0x84 => if r.len = 4 then some (.finiRxq (r.dword 0)) else none
  | 0x85 => if r.len = 4 then some (.finiTxq (r.dword 0)) else none
  | 0x98 =>
    if r.len = 30 then
      some (.vadaptorAlloc (r.dword 0) (r.dword 8) (r.dword 12) (r.dword 16) (r.dword 20)
        (bytesAt r.args 24 6))
    else none
  | 0x99 => if r.len = 4 then some (.vadaptorFree (r.dword 0)) else none
  | 0x2c =>
    if r.len = 28 then
      some (.setMac (r.dword 0) (r.dword 4) (bytesAt r.args 8 8) (r.dword 16) (r.dword 20)
        (r.dword 24))
    else none
  | 0x2a =>
    if r.len = 16 then some (.setLink (r.dword 0) (r.dword 4) (r.dword 8) (r.dword 12)) else none
  | 0x2e =>
    if r.len = 20 then some (.macStats (r.addr 0) (r.dword 8) (r.dword 12) (r.dword 16))
    else none
  | _ => none

end Controller

/-! ## What the driver asks for -/

/-- A word with the bits at the given positions. -/
def flagWord (lbns : List Nat) : BitVec 32 := lbns.foldr (fun lbn w => 1#32 <<< lbn ||| w) 0#32

/-- A call in the controller's terms, bits by their `_LBN` in the reference header. -/
def meaning (sc : CmdSoftc) : McdiCall → McCommand
  | .clearAssertions => .getAsserts 1#32
  | .entityReset => .entityReset (flagWord [0])
  | .rebootAfterAssertion => .reboot 1#32
  | .drvAttach => .drvAttach (flagWord [0]) 1#32 1#32
  | .drvDetach => .drvAttach (flagWord []) 1#32 0xffffffff#32
  | .allocVis minCount maxCount => .allocVis minCount maxCount
  | .initEvq inst paddr nevs =>
    -- `CUT_THRU`, `RX_MERGE`, `TX_MERGE`, and `INTERRUPTING` for the control queue
    .initEvq
      { size := BitVec.ofNat 32 nevs, inst := inst, tmrLoad := 0#32, tmrReload := 0#32
        flags := flagWord (if inst = 0#32 then [0, 3, 4, 5] else [3, 4, 5])
        tmrMode := 0#32, targetEvq := 0#32, countMode := 0#32, countThrshld := 0#32
        dmaAddr := [paddr] }
  | .initRxq inst targetEvq ringPaddr ndescs =>
    -- `PREFIX` and `DISABLE_SCATTER`
    .initRxq
      { size := BitVec.ofNat 32 ndescs, targetEvq := targetEvq, label := 0#32, inst := inst
        flags := flagWord [8, 9], ownerId := 0#32, portId := evbPortIdAssigned
        dmaAddr := [ringPaddr] }
  | .initTxq inst targetEvq ringPaddr ndescs =>
    -- `IP_CSUM_DIS` and `TCP_CSUM_DIS`
    .initTxq
      { size := BitVec.ofNat 32 ndescs, targetEvq := targetEvq, label := 0#32, inst := inst
        flags := flagWord (if sc.txCsum = 0 then [1, 2] else []), ownerId := 0#32
        portId := evbPortIdAssigned, dmaAddr := [ringPaddr] }
  | .finiEvq inst => .finiEvq inst
  | .finiRxq inst => .finiRxq inst
  | .finiTxq inst => .finiTxq inst
  | .vadaptorAlloc =>
    -- `PERMIT_SET_MAC_WHEN_FILTERS_INSTALLED`, if the capability of that name is there
    .vadaptorAlloc evbPortIdAssigned
      (flagWord (if sc.mcdiCapsValid ∧ sc.mcdiCapFlags1.getLsbD 11 then [1] else []))
      0#32 0#32 0#32 (List.replicate 6 0#8)
  | .vadaptorFree => .vadaptorFree evbPortIdAssigned
  | .setMac =>
    .setMac 1544#32 0#32 (List.ofFn sc.macAddr ++ [0#8, 0#8]) 0#32
      (if 0 ≤ sc.fcntl ∧ sc.fcntl ≤ 3 then BitVec.ofInt 32 sc.fcntl else 3#32) 0#32
  | .setLink => .setLink (sc.phySupportedCapMask ||| flagWord [10]) 0#32 0#32 0#32
  | .macStats =>
    .macStats sc.statsPaddr (flagWord [0]) (BitVec.ofNat 32 (0x61 * 8))
      evbPortIdAssigned

/-- One page of ring, where there is a ring. -/
def McdiCall.OnePage : McdiCall → Prop
  | .initEvq _ _ n => n = 512
  | .initRxq _ _ _ n => n = 512
  | .initTxq _ _ _ n => n = 512
  | _ => True

/-! ## Reading a delivered request -/

/-- The last dword stored at `off`. -/
def fieldAt (fields : Fields) (init : BitVec 32) (off : Nat) : BitVec 32 :=
  fields.foldl (fun v f => if f.1 = off then f.2 else v) init

theorem readDword_writeDword_aligned (buf : Mailbox) {at_ off : Nat} (hat : at_ % 4 = 0)
    (hoff : off % 4 = 0) (v : BitVec 32) :
    readDword (writeDword buf at_ v) off = if at_ = off then v else readDword buf off := by
  by_cases heq : at_ = off
  · rw [if_pos heq, heq, readDword_writeDword]
  · rw [if_neg heq]
    apply readDword_congr
    intro k hk
    simp only [writeDword]
    rw [if_neg (by omega)]

/-- Aligned stores do not overlap, so a dword is the last one stored there. -/
theorem readDword_writeAll {fields : Fields} (haligned : ∀ f ∈ fields, f.1 % 4 = 0) {off : Nat}
    (hoff : off % 4 = 0) (buf : Mailbox) :
    readDword (writeAll buf fields) off = fieldAt fields (readDword buf off) off := by
  induction fields generalizing buf with
  | nil => rfl
  | cons f rest ih =>
    have hrest := ih (fun g hg => haligned g (List.mem_cons_of_mem f hg)) (writeDword buf f.1 f.2)
    rw [readDword_writeDword_aligned buf (haligned f List.mem_cons_self) hoff] at hrest
    exact hrest

/-- The controller has the opcode, the length and the stores of a buffer. -/
structure Delivered (r : Request) (cmd len : Nat) (fields : Fields) : Prop where
  opcode : r.cmd = cmd
  length : r.len = len
  args : ∀ j, j < len → r.args j = writeAll (fun _ => 0#8) fields j
  aligned : ∀ f ∈ fields, f.1 % 4 = 0

namespace Delivered

variable {r : Request} {cmd len : Nat} {fields : Fields}

theorem dword (hd : Delivered r cmd len fields) {off : Nat} (hoff : off % 4 = 0)
    (hin : off + 4 ≤ len) : r.dword off = fieldAt fields 0#32 off := by
  have hcongr : readDword r.args off = readDword (writeAll (fun _ => 0#8) fields) off :=
    readDword_congr fun k hk => hd.args (off + k) (by omega)
  have hzero : readDword (fun _ => 0#8) off = 0#32 := by simp [readDword, dwordOf]
  rw [Request.dword, hcongr, readDword_writeAll hd.aligned hoff, hzero]

theorem bytes (hd : Delivered r cmd len fields) {off n : Nat} (hin : off + n ≤ len) :
    bytesAt r.args off n = bytesAt (writeAll (fun _ => 0#8) fields) off n := by
  apply List.map_congr_left
  intro i hi
  exact hd.args (off + i) (by have := List.mem_range.mp hi; omega)

/-- A 64-bit store is read back through its two halves. -/
theorem addr (hd : Delivered r cmd len fields) {off : Nat} {v : BitVec 64} (hoff : off % 4 = 0)
    (hin : off + 8 ≤ len) (hlo : fieldAt fields 0#32 off = (v &&& 0xffffffff#64).setWidth 32)
    (hhi : fieldAt fields 0#32 (off + 4) = (v >>> 32).setWidth 32) : r.addr off = v := by
  rw [Request.addr, hd.dword (by omega) (by omega), hd.dword hoff (by omega), hlo,
    hhi, append_halves]

theorem of_sendLocked {s : Sent} (hwhole : s.inLen ≤ s.bufLen) (hfits : s.inLen ≤ 248)
    (hcmd : s.cmd.toNat < 2 ^ 15) (haligned : ∀ f ∈ s.fields, f.1 % 4 = 0)
    (behind : Nat → BitVec 8) (buf : Mailbox) (newEpoch : Bool) (seq : BitVec 8) :
    Delivered (decodeRequest (sendLocked buf newEpoch s.cmd (s.payload behind) seq)) s.cmd.toNat
      s.inLen s.fields := by
  have hlength : (s.payload behind).length = s.inLen := by simp [Sent.payload]
  have hoff : payloadOff s.cmd s.inLen ≤ 8 := by
    unfold payloadOff
    split <;> decide
  have hdecode := decodeRequest_sendLocked buf newEpoch s.cmd (s.payload behind) seq hcmd (by
    rw [hlength]
    change _ ≤ 256
    omega)
  rw [hdecode]
  refine ⟨rfl, hlength, fun j hj => ?_, haligned⟩
  have hin : j < s.bufLen := by omega
  simp [Request.args, Sent.payload, hj, hin]

end Delivered

/-! ## The queues -/

/-- Rings are whole pages, so the addresses of a ring fit behind a header of `base` bytes and
one address exactly if the ring has 512 entries. -/
theorem RingSizeOk.addresses_fit_iff {n limit : Nat} (hn : RingSizeOk n limit) (base : Nat) :
    base + 8 * (n * 8 / 4096) ≤ base + 8 * 1 ↔ n = 512 := by
  unfold RingSizeOk at hn
  omega

/-- A request that ends after one address has one page. -/
theorem pages_one {r : Request} {off : Nat} (hlen : r.len = off + 8) :
    r.pages off = [r.addr off] := by
  simp [Request.pages, hlen]

theorem Delivered.evq {r : Request} {inst : BitVec 32} {paddr : BitVec 64}
    (hd : Delivered r 0x80 44 (initEvqSent inst paddr 512).fields) :
    r.evq =
      { size := 512#32, inst := inst, tmrLoad := 0#32, tmrReload := 0#32
        flags := flagWord (if inst = 0#32 then [0, 3, 4, 5] else [3, 4, 5])
        tmrMode := 0#32, targetEvq := 0#32, countMode := 0#32, countThrshld := 0#32
        dmaAddr := [paddr] } := by
  have hpages : r.pages 36 = [paddr] := by
    rw [pages_one hd.length, hd.addr (by decide) (by decide) rfl rfl]
  have hflags : r.dword 16 = flagWord (if inst = 0#32 then [0, 3, 4, 5] else [3, 4, 5]) := by
    rw [hd.dword (by decide) (by decide)]
    by_cases hinst : inst = 0#32 <;> simp [initEvqSent, qword, fieldAt, flagWord, hinst]
  -- the control queue names itself, instance 0, and every other queue names it
  have htarget : r.dword 24 = 0#32 := by
    rw [hd.dword (by decide) (by decide)]
    by_cases hinst : inst = 0#32 <;> simp [initEvqSent, qword, fieldAt, hinst]
  simp only [Request.evq, hpages, hflags, htarget]
  simp (disch := decide) [hd.dword, initEvqSent, qword, fieldAt]

theorem Delivered.dmaq {r : Request} {cmd : Nat} {op flags inst targetEvq : BitVec 32}
    {ringPaddr : BitVec 64}
    (hd : Delivered r cmd 36 (initDmaqSent op flags inst targetEvq ringPaddr 512).fields) :
    r.dmaq =
      { size := 512#32, targetEvq := targetEvq, label := 0#32, inst := inst, flags := flags
        ownerId := 0#32, portId := evbPortIdAssigned, dmaAddr := [ringPaddr] } := by
  have hpages : r.pages 28 = [ringPaddr] := by
    rw [pages_one hd.length, hd.addr (by decide) (by decide) rfl rfl]
  simp only [Request.dmaq, hpages]
  simp (disch := decide) [hd.dword, initDmaqSent, qword, fieldAt]

/-! ## The round trip -/

section RoundTrip

variable {sc : CmdSoftc} {call : McdiCall}

/-- The buffer holds all that is sent exactly when the ring has one page. -/
theorem inLen_le_bufLen_iff (hchecks : checks sc call = true) :
    (buffer sc call).inLen ≤ (buffer sc call).bufLen ↔ call.OnePage := by
  cases call with
  | initEvq inst paddr nevs =>
    simp only [checks, Bool.and_eq_true, decide_eq_true_eq] at hchecks
    exact hchecks.1.addresses_fit_iff _
  | initRxq inst targetEvq ringPaddr ndescs =>
    simp only [checks, Bool.and_eq_true, decide_eq_true_eq] at hchecks
    exact hchecks.1.1.1.addresses_fit_iff _
  | initTxq inst targetEvq ringPaddr ndescs =>
    simp only [checks, Bool.and_eq_true, decide_eq_true_eq] at hchecks
    exact hchecks.1.1.1.addresses_fit_iff _
  | _ => exact iff_of_true (Nat.le_refl _) trivial

theorem buffer_aligned (sc : CmdSoftc) (call : McdiCall) :
    ∀ f ∈ (buffer sc call).fields, f.1 % 4 = 0 := by
  cases call <;> simp [buffer, Sent.whole, initEvqSent, initDmaqSent, qword]

theorem buffer_cmd_lt (sc : CmdSoftc) (call : McdiCall) : (buffer sc call).cmd.toNat < 2 ^ 15 := by
  cases call <;> simp [buffer, Sent.whole, initEvqSent, initDmaqSent]

theorem buffer_bufLen_le (sc : CmdSoftc) (call : McdiCall) : (buffer sc call).bufLen ≤ 248 := by
  cases call <;> simp [buffer, Sent.whole, initEvqSent, initDmaqSent]

/-- Bit 11 of `FLAGS1` as the driver tests it. -/
theorem and_bit_eleven_ne_zero_iff (w : BitVec 32) :
    w &&& 1#32 <<< 11 ≠ 0#32 ↔ w.getLsbD 11 = true := by
  have hbit : 1#32 <<< 11 = BitVec.twoPow 32 11 := rfl
  rw [hbit, BitVec.and_twoPow]
  cases w.getLsbD 11 <;> decide

theorem Delivered.vadaptorAlloc {r : Request} {cmd : Nat}
    (hd : Delivered r cmd 30 (buffer sc .vadaptorAlloc).fields) :
    r.dword 8 =
        flagWord (if sc.mcdiCapsValid = true ∧ sc.mcdiCapFlags1.getLsbD 11 = true then [1] else [])
      ∧ bytesAt r.args 24 6 = List.replicate 6 0#8 := by
  simp only [buffer, Sent.whole, and_bit_eleven_ne_zero_iff] at hd
  constructor
  · rw [hd.dword (by decide) (by decide)]
    simp only [fieldAt, List.foldl_cons, List.foldl_nil]
    split_ifs <;> rfl
  · rw [hd.bytes (by decide)]
    simp [bytesAt, writeAll, writeDword, List.range_succ]

/-- The address arrives in memory order, with two zero bytes behind it; a flow control mode
out of range has become `AUTO`. -/
theorem Delivered.setMac {r : Request} {cmd : Nat}
    (hd : Delivered r cmd 28 (buffer sc .setMac).fields) :
    bytesAt r.args 8 8 = List.ofFn sc.macAddr ++ [0#8, 0#8] ∧
      r.dword 20 = if 0 ≤ sc.fcntl ∧ sc.fcntl ≤ 3 then BitVec.ofInt 32 sc.fcntl else 3#32 := by
  simp only [buffer, Sent.whole] at hd
  constructor
  · have hlo {k : Nat} (hk : k < 4) := loadDword_byte ((List.ofFn sc.macAddr).take 4) hk
    have hhi {k : Nat} (hk : k < 4) := loadDword_byte ((List.ofFn sc.macAddr).drop 4) hk
    rw [hd.bytes (by decide)]
    have hbytes := And.intro
      (And.intro (hlo (k := 0) (by decide)) (And.intro (hlo (k := 1) (by decide))
        (And.intro (hlo (k := 2) (by decide)) (hlo (k := 3) (by decide)))))
      (And.intro (hhi (k := 0) (by decide)) (And.intro (hhi (k := 1) (by decide))
        (And.intro (hhi (k := 2) (by decide)) (hhi (k := 3) (by decide)))))
    simpa [bytesAt, writeAll, writeDword, List.range_succ, and_assoc] using hbytes
  · rw [hd.dword (by decide) (by decide)]
    simp only [fieldAt, List.foldl_cons, List.foldl_nil]
    split_ifs <;> first | rfl | omega

/-- By the reference header a delivered buffer says what the call means. -/
theorem mcDecode_of_delivered {r : Request} (hone : call.OnePage)
    (hd : Delivered r (buffer sc call).cmd.toNat (buffer sc call).inLen
      (buffer sc call).fields) :
    mcDecode r = some (meaning sc call) := by
  have hop := hd.opcode
  have hlen := hd.length
  cases call with
  | initEvq inst paddr nevs =>
    obtain rfl : nevs = 512 := hone
    have hevq : Delivered r 0x80 44 (initEvqSent inst paddr 512).fields := hd
    simp [mcDecode, hevq.opcode, hevq.length, hevq.evq, meaning]
  | initRxq inst targetEvq ringPaddr ndescs =>
    obtain rfl : ndescs = 512 := hone
    have hdmaq : Delivered r 0x81 36 (initDmaqSent 0x81#32 _ inst targetEvq ringPaddr 512).fields :=
      hd
    simp [mcDecode, hdmaq.opcode, hdmaq.length, hdmaq.dmaq, meaning, flagWord]
  | initTxq inst targetEvq ringPaddr ndescs =>
    obtain rfl : ndescs = 512 := hone
    have hdmaq : Delivered r 0x82 36 (initDmaqSent 0x82#32 _ inst targetEvq ringPaddr 512).fields :=
      hd
    by_cases hcsum : sc.txCsum = 0 <;>
      simp [mcDecode, hdmaq.opcode, hdmaq.length, hdmaq.dmaq, meaning, flagWord, hcsum]
  | vadaptorAlloc =>
    obtain ⟨hflags, hmac⟩ := Delivered.vadaptorAlloc hd
    simp only [buffer, Sent.whole] at hd hop hlen
    simp (disch := decide) only [mcDecode, hop, hlen, hflags, hmac, hd.dword, fieldAt, meaning]
    rfl
  | setMac =>
    obtain ⟨haddr, hfcntl⟩ := Delivered.setMac hd
    simp only [buffer, Sent.whole] at hd hop hlen
    simp (disch := decide) only [mcDecode, hop, hlen, haddr, hfcntl, hd.dword, fieldAt, meaning]
    rfl
  | macStats =>
    simp only [buffer, Sent.whole] at hd hop hlen
    have haddr : r.addr 0 = sc.statsPaddr := hd.addr (by decide) (by decide) rfl rfl
    simp (disch := decide) [mcDecode, hop, hlen, hd.dword, haddr, fieldAt, meaning, qword, flagWord]
  | _ =>
    simp only [buffer, Sent.whole] at hd hop hlen
    simp (disch := decide) [mcDecode, hop, hlen, hd.dword, fieldAt, meaning, flagWord]

/-- A call that sends anything sends no byte from behind its buffer exactly when its ring, if
it has one, is one page; the controller then reads, by the reference header, what the call
means, whatever the mailbox held before. -/
theorem controller_reads_what_driver_means {sent : Sent} (hissue : issue sc call = some sent) :
    (sent.inLen ≤ sent.bufLen ↔ call.OnePage) ∧
      (call.OnePage → ∀ (behind : Nat → BitVec 8) (buf : Mailbox) (newEpoch : Bool)
        (seq : BitVec 8),
        mcDecode (decodeRequest (sendLocked buf newEpoch sent.cmd (sent.payload behind) seq)) =
          some (meaning sc call)) := by
  unfold issue at hissue
  obtain ⟨⟨hchecks, -⟩, hsent⟩ := Option.ite_none_right_eq_some.mp hissue
  obtain rfl := Option.some.inj hsent
  have hwhole := inLen_le_bufLen_iff hchecks
  refine ⟨hwhole, fun hone behind buf newEpoch seq => ?_⟩
  have hin := hwhole.mpr hone
  have hfits := hin.trans (buffer_bufLen_le sc call)
  exact mcDecode_of_delivered hone
    (Delivered.of_sendLocked hin hfits (buffer_cmd_lt sc call) (buffer_aligned sc call) behind buf
      newEpoch seq)

end RoundTrip

/-- The driver before it creates its queues. -/
def cmdSoftcBeforeQueues : CmdSoftc where
  viCount := 4
  vadaptorAllocated := true
  evqInitialized := false
  dataEvqInitialized := false
  rxqInitialized := false
  txqInitialized := false
  drvAttached := true
  mcdiCapsValid := true
  mcdiCapFlags1 := 1#32 <<< 11
  macAddr := fun _ => 2#8
  phySupportedCapMask := 0#32
  statsBuf := false
  statsPaddr := 0#64
  txCsum := 1
  fcntl := 3

/-- The RX queue arrives as meant; a data event queue of two pages passes the checks and is
sent from behind its buffer. -/
theorem controller_reads_rxq_and_two_page_evq :
    mcDecode (decodeRequest (sendLocked (fun _ => 0xff#8) false 0x81#32
        ((buffer cmdSoftcBeforeQueues (.initRxq 1#32 1#32 0x5000#64 512)).payload
          fun _ => 0xaa#8) 3#8)) =
      some (meaning cmdSoftcBeforeQueues (.initRxq 1#32 1#32 0x5000#64 512)) ∧
    ∃ sent, issue cmdSoftcBeforeQueues (.initEvq 1#32 0x5000#64 1024) = some sent ∧
      ¬ sent.inLen ≤ sent.bufLen := by
  have hrxq : issue cmdSoftcBeforeQueues (.initRxq 1#32 1#32 0x5000#64 512) = some _ := rfl
  have hevq : issue cmdSoftcBeforeQueues (.initEvq 1#32 0x5000#64 1024) = some _ := rfl
  refine ⟨(controller_reads_what_driver_means hrxq).2 rfl _ _ _ _, _, hevq, ?_⟩
  rw [(controller_reads_what_driver_means hevq).1]
  exact (by decide : ¬ (1024 = 512))

end Mcdi
end SfcCapio
