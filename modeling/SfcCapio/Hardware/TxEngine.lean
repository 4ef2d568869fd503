import SfcCapio.Foundation.RingSpan
import SfcCapio.Hardware.Device

/-!
# The card's transmit engine

The card keeps a write pointer of its own.  A write-pointer doorbell `w` makes it send
the descriptors of the ring from that pointer up to `w`.  An inline push `(desc, w)`
makes it send `desc` in the place of the descriptor at its pointer, and then the
descriptors of the ring from the next slot up to `w`.

`TxBacklog` relates the engine with a producer that writes descriptors at `head`
without always ringing: `k` descriptors stand between the two pointers.  A
write-pointer doorbell clears any backlog; a push is right only when there is none.
-/

namespace SfcCapio
namespace Hardware

open Foundation

/-- The card's write pointer and the descriptors it has sent, oldest first. -/
structure TxEngine where
  wptr : Nat
  sent : List (BitVec 64)

namespace TxEngine

/-- The reaction to one doorbell. -/
def doorbell (e : TxEngine) (ring : Nat → BitVec 64) : TxDoorbell → TxEngine
  | .wptr w =>
    { wptr := w
      sent := e.sent ++ cells numTxDesc ring e.wptr (span numTxDesc e.wptr w) }
  | .push desc w =>
    { wptr := w
      sent := e.sent ++
        desc :: cells numTxDesc ring (e.wptr + 1) (span numTxDesc (e.wptr + 1) w) }

/-- The doorbells logged between two states of the device, oldest first. -/
def rung (before after : Device) : List TxDoorbell :=
  (after.txDbl.take (after.txDbl.length - before.txDbl.length)).reverse

/-- The engine after the host has taken the device from `before` to `after`. -/
def watch (e : TxEngine) (before after : Device) : TxEngine :=
  (rung before after).foldl (fun e d => e.doorbell after.txDescRing d) e

theorem watch_of_silent (e : TxEngine) {before after : Device}
    (hdbl : after.txDbl = before.txDbl) : e.watch before after = e := by
  simp [watch, rung, hdbl]

theorem watch_of_rung (e : TxEngine) {before after : Device} {d : TxDoorbell}
    (hdbl : after.txDbl = d :: before.txDbl) :
    e.watch before after = e.doorbell after.txDescRing d := by
  simp [watch, rung, hdbl]

end TxEngine

/-- The producer at `head` is `k` descriptors ahead of the engine, and `posted` are
the descriptors sent followed by those `k`. -/
structure TxBacklog (e : TxEngine) (ring : Nat → BitVec 64) (head : Nat)
    (posted : List (BitVec 64)) (k : Nat) : Prop where
  wptrLt : e.wptr < 512
  partLap : k < 512
  head : head = (e.wptr + k) % 512
  posted : posted = e.sent ++ cells 512 ring e.wptr k

namespace TxBacklog

variable {e : TxEngine} {ring : Nat → BitVec 64} {head k : Nat} {posted : List (BitVec 64)}

/-- Without a backlog everything posted has been sent. -/
theorem sent_eq (hlog : TxBacklog e ring head posted 0) : e.sent = posted := by
  rw [hlog.posted, cells_zero, List.append_nil]

theorem write (hlog : TxBacklog e ring head posted k) (hroom : k + 1 < 512)
    (desc : BitVec 64) :
    TxBacklog e (Function.update ring head desc) ((head + 1) % 512) (posted ++ [desc])
      (k + 1) where
  wptrLt := hlog.wptrLt
  partLap := hroom
  head := by
    rw [hlog.head]
    omega
  posted := by
    rw [hlog.posted, hlog.head, cells_update_end ring desc hlog.partLap, List.append_assoc]

/-- The write-pointer doorbell sends the whole backlog. -/
theorem flush (hlog : TxBacklog e ring head posted k) :
    TxBacklog (e.doorbell ring (.wptr head)) ring head posted 0 where
  wptrLt := by
    show head < 512
    rw [hlog.head]
    exact Nat.mod_lt _ (by decide)
  partLap := by decide
  head := by
    show head = (head + 0) % 512
    rw [hlog.head, Nat.add_zero, Nat.mod_mod]
  posted := by
    show posted = (e.sent ++ cells 512 ring e.wptr (span 512 e.wptr head)) ++ []
    rw [hlog.head, span_add hlog.partLap, List.append_nil]
    exact hlog.posted

/-- An inline push with no backlog sends the descriptor just written. -/
theorem push (hlog : TxBacklog e ring head posted 0) (desc : BitVec 64) :
    TxBacklog
      (e.doorbell (Function.update ring head desc) (.push desc ((head + 1) % 512)))
      (Function.update ring head desc) ((head + 1) % 512) (posted ++ [desc]) 0 where
  wptrLt := Nat.mod_lt _ (by decide)
  partLap := by decide
  head := by
    show (head + 1) % 512 = ((head + 1) % 512 + 0) % 512
    omega
  posted := by
    have hnext : (head + 1) % 512 = (e.wptr + 1 + 0) % 512 := by
      rw [hlog.head]
      omega
    have hnone : span 512 (e.wptr + 1) ((head + 1) % 512) = 0 := by
      rw [hnext]
      exact span_add (by decide)
    show posted ++ [desc] = (e.sent ++ desc :: cells 512 _ (e.wptr + 1)
      (span 512 (e.wptr + 1) ((head + 1) % 512))) ++ []
    rw [hnone, cells_zero, List.append_nil, hlog.sent_eq]

end TxBacklog

end Hardware
end SfcCapio
