import SfcCapio.Userlib.Interface

/-!
# The frames of the echo server

`sockperf_echo` works in the receive buffer: it checks the headers of a frame where
the card has put it, exchanges the addresses and ports in place and transmits from
the same memory.  Here are the checks and the rewriting of one frame, which starts at
offset `pkt` of the buffer.  `strict` is the build with `SPF_STRICT`.
-/

namespace SfcCapio
namespace Echo

/-- `ETH_HDR_LEN`. -/
abbrev ethHdrLen : Nat := 14

/-- `IP_HDR_LEN`. -/
abbrev ipHdrLen : Nat := 20

/-- `UDP_HDR_LEN`. -/
abbrev udpHdrLen : Nat := 8

/-- `SPF_HDR_LEN`. -/
abbrev spfHdrLen : Nat := 14

/-- `MIN_FRAME_LEN`. -/
abbrev minFrameLen : Nat := ethHdrLen + ipHdrLen + udpHdrLen + spfHdrLen

/-- `ntohs` of the two bytes at `off`. -/
def be16 (mem : Nat → BitVec 8) (off : Nat) : Nat :=
  (mem off).toNat * 256 + (mem (off + 1)).toNat

/-- The two bytes at `off` as the host reads them. -/
def le16 (mem : Nat → BitVec 8) (off : Nat) : Nat :=
  (mem off).toNat + (mem (off + 1)).toNat * 256

/-- A big-endian store of a 16-bit value. -/
def putBe16 (mem : Nat → BitVec 8) (off value : Nat) : Nat → BitVec 8 :=
  Function.update (Function.update mem off (BitVec.ofNat 8 (value / 256)))
    (off + 1) (BitVec.ofNat 8 value)

/-- The host's store of a 16-bit value. -/
def putLe16 (mem : Nat → BitVec 8) (off value : Nat) : Nat → BitVec 8 :=
  Function.update (Function.update mem off (BitVec.ofNat 8 value))
    (off + 1) (BitVec.ofNat 8 (value / 256))

/-- Exchange the `n` bytes at `a` with the `n` bytes at `b`. -/
def swapBytes (mem : Nat → BitVec 8) (a b n : Nat) : Nat → BitVec 8 := fun i =>
  if a ≤ i ∧ i < a + n then mem (b + (i - a))
  else if b ≤ i ∧ i < b + n then mem (a + (i - b))
  else mem i

/-! ## Checksum -/

/-- The loops of `ip_cksum` over `len` bytes, with a 32-bit accumulator. -/
def cksumSum (mem : Nat → BitVec 8) : Nat → Nat → Nat → Nat
  | _, 0, sum => sum
  | off, 1, sum => (sum + (mem off).toNat) % 2 ^ 32
  | off, len + 2, sum => cksumSum mem (off + 2) len ((sum + le16 mem off) % 2 ^ 32)

/-- `while (sum >> 16) sum = (sum & 0xffff) + (sum >> 16)`. -/
def cksumFold (sum : Nat) : Nat :=
  if sum / 2 ^ 16 = 0 then sum else cksumFold (sum % 2 ^ 16 + sum / 2 ^ 16)
termination_by sum

/-- `ip_cksum`. -/
def ipCksum (mem : Nat → BitVec 8) (off len : Nat) : Nat :=
  2 ^ 16 - 1 - cksumFold (cksumSum mem off len 0)

/-! ## One frame -/

/-- `(ip->vhl & 0x0f) * 4`. -/
def ipHlen (mem : Nat → BitVec 8) (pkt : Nat) : Nat :=
  (mem (pkt + ethHdrLen) &&& 0x0f#8).toNat * 4

/-- Where the UDP header of the frame starts. -/
def udpOff (mem : Nat → BitVec 8) (pkt : Nat) : Nat := pkt + ethHdrLen + ipHlen mem pkt

/-- `msg->flags`. -/
def spfFlags (mem : Nat → BitVec 8) (pkt : Nat) : Nat :=
  be16 mem (udpOff mem pkt + udpHdrLen + 8)

/-- The checks of the loop body, in order. -/
def accepts (strict : Bool) (mem : Nat → BitVec 8) (pkt len : Nat) : Bool :=
  if len < minFrameLen then false
  else if be16 mem (pkt + 12) ≠ 0x0800 then false
  else if ipHlen mem pkt < ipHdrLen then false
  else if (mem (pkt + ethHdrLen + 9)).toNat ≠ 17 then false
  else if len < ethHdrLen + ipHlen mem pkt + udpHdrLen + spfHdrLen then false
  else if strict then
    -- `SPF_MASK_CLIENT`, `SPF_MASK_WARMUP_MSG`, `SPF_MASK_PONG`
    spfFlags mem pkt &&& 1 ≠ 0 && (spfFlags mem pkt &&& 4 = 0) && spfFlags mem pkt &&& 2 ≠ 0
  else true

/-- The rewriting of an accepted frame: message flags in the strict build, MAC
addresses, IP addresses and checksum, UDP ports and checksum. -/
def rewrite (strict : Bool) (mem : Nat → BitVec 8) (pkt : Nat) : Nat → BitVec 8 :=
  let hlen := ipHlen mem pkt
  let udp := udpOff mem pkt
  let mem :=
    if strict then putBe16 mem (udp + udpHdrLen + 8) (spfFlags mem pkt &&& 0xfffe) else mem
  let mem := swapBytes mem pkt (pkt + 6) 6
  let mem := swapBytes mem (pkt + ethHdrLen + 12) (pkt + ethHdrLen + 16) 4
  let mem := putLe16 mem (pkt + ethHdrLen + 10) 0
  let mem := putLe16 mem (pkt + ethHdrLen + 10) (ipCksum mem (pkt + ethHdrLen) hlen)
  let mem := swapBytes mem udp (udp + 2) 2
  putLe16 mem (udp + 6) 0

/-- The probe sent at startup: a sockperf request in UDP over IPv4, 64 bytes, to the
other port of the card. -/
def probeFrame (macAddr : Fin 6 → BitVec 8) : List (BitVec 8) :=
  List.ofFn (Function.update macAddr 5 (macAddr 5 ^^^ 1#8)) ++ List.ofFn macAddr ++
    [0x08#8, 0x00#8] ++
    [0x45#8, 0#8, 0#8, 50#8, 0#8, 0#8, 0#8, 0#8, 64#8, 17#8, 0x64#8, 0xb5#8,
      10#8, 0#8, 1#8, 3#8, 10#8, 0#8, 1#8, 4#8] ++
    [0x2b#8, 0x67#8, 0x2b#8, 0x67#8, 0#8, 30#8, 0#8, 0#8] ++
    [0#8, 0#8, 0#8, 0#8, 0#8, 0#8, 0#8, 1#8, 0x00#8, 0x03#8, 0#8, 0#8, 0#8, 22#8] ++
    List.replicate 8 0#8

/-- The companion frame sent with `SFC_PAIR_TX`: 60 bytes from the port to itself. -/
def pairFrame (macAddr : Fin 6 → BitVec 8) : List (BitVec 8) :=
  List.ofFn macAddr ++ List.ofFn macAddr ++ [0x88#8, 0xb5#8] ++ List.replicate 46 0#8

end Echo
end SfcCapio
