import SfcCapio.Pmd.Queues

/-!
# `eth_capio_rx`

`rxEvent` is the loop body of `eth_capio_rx` for a receive event, branch by
branch; `pmdEvent` adds the transmit completions, which go to the reaping loop.
Besides the new state a body returns the log of what it did with mbufs, in the
order of the source, and the cookie it used as a packet or posted again.

The three ways to give a slot back differ: `sfc7120_rx_release` re-posts the slot
at `rx_head` and rings the doorbell at once, while `capio_post_mbuf` posts at the
tail slot and leaves the doorbell to the flush at the end of the call.
-/

namespace SfcCapio
namespace Pmd

open Hardware Userlib

/-- The result of one loop body.  `used` is the cookie that was delivered, freed
or posted again, and `more` is false when the loop breaks. -/
structure RxOutcome where
  pi : Internals
  acts : List MbufAct
  used : Option Nat
  more : Bool

/-- The same result with `pre` in front of its log. -/
def RxOutcome.after (out : RxOutcome) (pre : List MbufAct) : RxOutcome :=
  { out with acts := pre ++ out.acts }

namespace Internals

/-- `sfc7120_rx_release` on the driver's session. -/
def rxRelease (pi : Internals) : Internals :=
  { pi with session := (Userlib.rxRelease pi.session).2 }

/-- `rxq->rx_nombuf++`. -/
def nombuf (pi : Internals) : Internals :=
  { pi with rxq := { pi.rxq with rxNombuf := pi.rxq.rxNombuf + 1 } }

/-- The fields of the mbuf `m` for a frame of `len` bytes. -/
def framed (pi : Internals) (m len : Nat) : Internals :=
  { pi with
    mbufs := Function.update pi.mbufs m
      { pi.mbufs m with
        pktLen := len % 2 ^ 16
        dataLen := len % 2 ^ 16
        nbSegs := 1
        next := none } }

/-- Counters of a delivered frame of `len` bytes. -/
def rxCount (pi : Internals) (len : Nat) : Internals :=
  { pi with
    rxq := { pi.rxq with rxPkts := pi.rxq.rxPkts + 1, rxBytes := pi.rxq.rxBytes + len } }

/-- `rte_memcpy` of a frame of the RX buffer into an mbuf. -/
def copyIn (pi : Internals) (m pktOff plen : Nat) : Internals :=
  { pi with
    mbufs := Function.update pi.mbufs m
      { pi.mbufs m with
        data := fun i =>
          if i < plen then pi.session.dev.rxBuffer (pktOff + i) else (pi.mbufs m).data i } }

/-- `m->data_off += CAPIO_RX_PREFIX`. -/
def skipPrefix (pi : Internals) (m : Nat) : Internals :=
  { pi with
    mbufs := Function.update pi.mbufs m
      { pi.mbufs m with dataOff := (pi.mbufs m).dataOff + capioRxPrefix } }

end Internals

/-- No replacement mbuf: drop the frame and give its buffer back. -/
def rxNoReplacement (pi : Internals) (cookie : Option Nat) : RxOutcome :=
  match cookie with
  | some c =>
    let out := capioPostMbuf pi.nombuf c
    { pi := out.2, acts := out.1, used := some c, more := true }
  | none => { pi := pi.nombuf.rxRelease, acts := [], used := none, more := true }

/-- Two mbufs are at hand for a library slot: copy the frame into `m`. -/
def rxCopyOut (pi : Internals) (pk : Peek) (m repl : Nat) : RxOutcome :=
  let copied := pi.copyIn m pk.pktOff pk.len
  if pi.rxCopy then
    { pi := (copied.rxRelease.framed m pk.len).rxCount pk.len
      acts := [.free repl, .deliver m]
      used := none
      more := true }
  else
    let out := capioPostMbuf (copied.framed m pk.len) repl
    { pi := out.2.rxCount pk.len
      acts := out.1 ++ [.deliver m]
      used := none
      more := true }

/-- The slot still holds a library buffer. -/
def rxFromLibrary (pi : Internals) (rxBytes m : Nat) (reply : PoolReply) : RxOutcome :=
  match rxPeek pi.session rxBytes with
  | (none, session) =>
    { pi := Internals.rxRelease { pi with session := session }
      acts := [.free m]
      used := none
      more := true }
  | (some pk, session) =>
    let peeked := { pi with session := session }
    if pk.len = 0 then
      { pi := peeked.rxRelease, acts := [.free m], used := none, more := true }
    else
      let got := capioMbufGet peeked reply
      match got.1 with
      | none =>
        { pi := got.2.2.nombuf.rxRelease
          acts := got.2.1 ++ [.free m]
          used := none
          more := true }
      | some repl => (rxCopyOut got.2.2 pk m repl).after got.2.1

/-- The card wrote into the mbuf `m` that the cookie names. -/
def rxFromCookie (pi : Internals) (len m repl : Nat) : RxOutcome :=
  let skipped := pi.skipPrefix m
  if len = 0 then
    let out := capioPostMbuf skipped repl
    { pi := out.2, acts := .free m :: out.1, used := some m, more := true }
  else
    let out := capioPostMbuf (skipped.framed m len) repl
    { pi := out.2.rxCount len
      acts := out.1 ++ [.deliver m]
      used := some m
      more := true }

/-- The loop body for a receive event of `rxBytes` bytes. -/
def rxEvent (pi : Internals) (rxBytes : Nat) (reply₁ reply₂ : PoolReply) : RxOutcome :=
  match rxPeekExt pi.session rxBytes with
  | (none, session) =>
    { pi := { pi with session := session }, acts := [], used := none, more := false }
  | (some (cookie, len), session) =>
    let got := capioMbufGet { pi with session := session } reply₁
    let out :=
      match got.1 with
      | none => rxNoReplacement got.2.2 cookie
      | some repl =>
        match if pi.rxCopy then none else cookie with
        | none => rxFromLibrary got.2.2 rxBytes repl reply₂
        | some m => rxFromCookie got.2.2 len m repl
    out.after got.2.1

/-- The loop body of `eth_capio_rx`: receive events, transmit completions, and
events that are ignored. -/
def pmdEvent (pi : Internals) (ev : Ev) (reply₁ reply₂ : PoolReply) : RxOutcome :=
  match ev.type with
  | .rx => rxEvent pi ev.rxBytes reply₁ reply₂
  | .tx =>
    let out := reap pi.txq ev.txDescIdx
    { pi := { pi with txq := out.2 }, acts := out.1.map .free, used := none, more := true }
  | .other => { pi := pi, acts := [], used := none, more := true }

/-- The loop over the events of one poll; `replies` gives the pool's answers by
the index of the event. -/
def eventLoop (replies : Nat → PoolReply × PoolReply) :
    Nat → Internals → List Ev → List MbufAct × Internals
  | _, pi, [] => ([], pi)
  | i, pi, ev :: evs =>
    let out := pmdEvent pi ev (replies i).1 (replies i).2
    if out.more then
      let rest := eventLoop replies (i + 1) out.pi evs
      (out.acts ++ rest.1, rest.2)
    else (out.acts, out.pi)

/-- `eth_capio_rx`: the mbufs handed to the caller are the `deliver` entries of
the log. -/
def ethCapioRx (pi : Internals) (nbBufs : Nat)
    (replies : Nat → PoolReply × PoolReply) : List MbufAct × Internals :=
  let polled := poll pi.session (min nbBufs capioMaxBurst : Nat)
  match polled.1 with
  | none => ([], { pi with session := polled.2 })
  | some [] => ([], { pi with session := polled.2 })
  | some evs =>
    let out := eventLoop replies 0 { pi with session := polled.2 } evs
    (out.1, { out.2 with session := rxFlush out.2.session })

/-! ## What one receive event can do -/

/-- The buffer can be posted: `sfc7120_rx_release_paddr_nodbl` accepts it. -/
def Postable (ops : MbufOps) (mb : RteMbuf) : Prop :=
  extArgsOk (ops.dataIovaDefault mb) (postRoom ops mb) = true

variable {ops : MbufOps} {pi : Internals} {mb : RteMbuf}

/-- The room advertised is never too long, so address and tailroom decide. -/
theorem postable_iff :
    Postable ops mb ↔ ops.dataIovaDefault mb ≠ 0#64 ∧ ops.tailroom mb ≠ 0 := by
  have hroom : (postRoom ops mb = 0 ↔ ops.tailroom mb = 0) ∧ postRoom ops mb ≤ 2048 := by
    simp only [postRoom, rxBufferSize]
    split <;> omega
  simp only [Postable, extArgsOk, Bool.not_eq_true', Bool.or_eq_false_iff, beq_eq_false_iff_ne,
    decide_eq_false_iff_not, ne_eq, hroom.1]
  constructor
  · exact fun h => h.1
  · exact fun h => ⟨h, by omega⟩

variable {mb' : RteMbuf}

/-- Only the address, the size and the data window of the buffer matter. -/
theorem postable_congr (hiova : mb'.bufIova = mb.bufIova) (hlen : mb'.bufLen = mb.bufLen)
    (hoff : mb'.dataOff = mb.dataOff)
    (hdata : mb'.dataLen = mb.dataLen) : Postable ops mb' ↔ Postable ops mb := by
  have hroom : postRoom ops mb' = postRoom ops mb := by
    unfold postRoom
    rw [ops.tailroom_congr hlen hoff hdata]
  rw [Postable, Postable, hroom, ops.dataIovaDefault_congr hiova hlen]

theorem capioPostMbuf_of_postable {m : Nat} (hready : pi.session.sfc.Ready)
    (hpost : Postable pi.ops (pi.mbufs m)) :
    capioPostMbuf pi m =
      ([.post m],
        { pi with
          session := tailPosted pi.session (pi.ops.dataIovaDefault (pi.mbufs m))
            (postRoom pi.ops (pi.mbufs m)) (some m) }) := by
  simp only [capioPostMbuf, rxReleasePaddrNodbl_of_ready hready hpost, if_true]

/-- How a receive event gives its slot back. -/
inductive GiveBack
  | release
  | post (m : Nat)

/-- The table of the loop body's branches.  `libLen` and `extLen` are the frame
length as read from a library slot and from the event; `got₁` and `got₂` are what
the two allocations would yield, and the Boolean says whether the second one is
made.  The last three arguments are the way the slot is given back, the further
log entries and the cookie used. -/
inductive RxCase (copy : Bool) (libLen extLen : Nat) (cookie got₁ got₂ : Option Nat) :
    Bool → GiveBack → List MbufAct → Option Nat → Prop
  | starvedLibrary (hgot : got₁ = none) (hcookie : cookie = none) :
      RxCase copy libLen extLen cookie got₁ got₂ false .release [] none
  | starvedCookie {c : Nat} (hgot : got₁ = none) (hcookie : cookie = some c) :
      RxCase copy libLen extLen cookie got₁ got₂ false (.post c) [.post c] (some c)
  | emptyLibrary {m : Nat} (hgot : got₁ = some m) (hcookie : copy = true ∨ cookie = none)
      (hlen : libLen = 0) :
      RxCase copy libLen extLen cookie got₁ got₂ false .release [.free m] none
  | starvedCopy {m : Nat} (hgot : got₁ = some m) (hcookie : copy = true ∨ cookie = none)
      (hlen : libLen ≠ 0) (hgot' : got₂ = none) :
      RxCase copy libLen extLen cookie got₁ got₂ true .release [.free m] none
  | copied {m repl : Nat} (hgot : got₁ = some m) (hcopy : copy = true) (hlen : libLen ≠ 0)
      (hgot' : got₂ = some repl) :
      RxCase copy libLen extLen cookie got₁ got₂ true .release [.free repl, .deliver m] none
  | swapped {m repl : Nat} (hgot : got₁ = some m) (hcopy : copy = false)
      (hcookie : cookie = none) (hlen : libLen ≠ 0) (hgot' : got₂ = some repl) :
      RxCase copy libLen extLen cookie got₁ got₂ true (.post repl) [.post repl, .deliver m] none
  | emptyCookie {c repl : Nat} (hgot : got₁ = some repl) (hcopy : copy = false)
      (hcookie : cookie = some c) (hlen : extLen = 0) :
      RxCase copy libLen extLen cookie got₁ got₂ false (.post repl) [.free c, .post repl] (some c)
  | handed {c repl : Nat} (hgot : got₁ = some repl) (hcopy : copy = false)
      (hcookie : cookie = some c) (hlen : extLen ≠ 0) :
      RxCase copy libLen extLen cookie got₁ got₂ false (.post repl) [.post repl, .deliver c]
        (some c)

/-- The session after the slot was given back. -/
def GiveBack.Leads (pi : Internals) (s s' : Session) : GiveBack → Prop
  | .release => s' = released s
  | .post m => ∃ len, s' = tailPosted s (pi.ops.dataIovaDefault (pi.mbufs m)) len (some m)

/-- Address, size and data window of a buffer. -/
def RteMbuf.SameWindow (mb mb' : RteMbuf) : Prop :=
  mb'.bufIova = mb.bufIova ∧ mb'.bufLen = mb.bufLen ∧ mb'.dataOff = mb.dataOff ∧
    mb'.dataLen = mb.dataLen

/-- The mbuf `x` leaves the driver: it goes to the caller or back to the pool. -/
def HandsOn (acts : List MbufAct) (x : Nat) : Prop := .deliver x ∈ acts ∨ .free x ∈ acts

/-- The state `p` differs from `pi` by the allocations `t`, by the library session
and the counters, and in the contents of the mbufs in `touched`. -/
structure Carries (pi p : Internals) (t : Taken) (touched : Nat → Prop) : Prop where
  stash : p.rxq.stash = t.stash
  ops : p.ops = pi.ops
  rxCopy : p.rxCopy = pi.rxCopy
  txCopyMode : p.txCopyMode = pi.txCopyMode
  txq : p.txq = pi.txq
  address : ∀ x, (p.mbufs x).bufIova = (pi.mbufs x).bufIova ∧
    (p.mbufs x).bufLen = (pi.mbufs x).bufLen
  window : ∀ x, ¬ touched x → ((pi.taken t).mbufs x).SameWindow (p.mbufs x)

/-- The effect of a receive event in one case of the table, `t` being the outcome
of its allocations. -/
structure RxEffect (pi : Internals) (out : RxOutcome) (t : Taken) (back : GiveBack)
    (acts : List MbufAct) : Prop where
  more : out.more = true
  log : out.acts = t.allocs.map .alloc ++ acts
  session : back.Leads pi (polledSession pi.session) out.pi.session
  carries : Carries pi out.pi t (HandsOn acts)

/-- Two allocations in sequence. -/
def Taken.andThen (t₁ t₂ : Taken) : Taken :=
  { mbuf := t₂.mbuf, allocs := t₁.allocs ++ t₂.allocs, stash := t₂.stash }

/-- All that an event allocates after `t₁`. -/
def Taken.followedBy (t₁ : Taken) (reply : PoolReply) : Bool → Taken
  | false => t₁
  | true => t₁.andThen (takeMbuf t₁.stash reply)

/-- The mbuf that the event posts, if it posts one, can be posted as it is at that moment: the
slot's own when there is no replacement, the second one behind a library slot, or the
replacement of the mbuf that the cookie names. -/
structure EventFits (pi : Internals) (rxBytes : Nat) (reply₁ reply₂ : PoolReply) : Prop where
  starved : ∀ c, (takeMbuf pi.rxq.stash reply₁).mbuf = none →
    pi.session.sfc.rxExtCookie pi.session.sfc.rxHead = some c →
    Postable pi.ops ((pi.taken (takeMbuf pi.rxq.stash reply₁)).mbufs c)
  library : ∀ m repl, (takeMbuf pi.rxq.stash reply₁).mbuf = some m → pi.rxCopy = false →
    pi.session.sfc.rxExtCookie pi.session.sfc.rxHead = none →
    frameLen pi.session.dev.rxBuffer (pi.session.sfc.rxHead * rxBufferSize) rxBytes ≠ 0 →
    (takeMbuf (takeMbuf pi.rxq.stash reply₁).stash reply₂).mbuf = some repl →
    Postable pi.ops ((((pi.taken (takeMbuf pi.rxq.stash reply₁)).taken
      (takeMbuf (takeMbuf pi.rxq.stash reply₁).stash reply₂)).framed m
      (frameLen pi.session.dev.rxBuffer (pi.session.sfc.rxHead * rxBufferSize) rxBytes)).mbufs repl)
  empty : ∀ repl c, (takeMbuf pi.rxq.stash reply₁).mbuf = some repl → pi.rxCopy = false →
    pi.session.sfc.rxExtCookie pi.session.sfc.rxHead = some c → eventLen rxBytes = 0 →
    Postable pi.ops (((pi.taken (takeMbuf pi.rxq.stash reply₁)).skipPrefix c).mbufs repl)
  handed : ∀ repl c, (takeMbuf pi.rxq.stash reply₁).mbuf = some repl → pi.rxCopy = false →
    pi.session.sfc.rxExtCookie pi.session.sfc.rxHead = some c → eventLen rxBytes ≠ 0 →
    Postable pi.ops ((((pi.taken (takeMbuf pi.rxq.stash reply₁)).skipPrefix c).framed c
      (eventLen rxBytes)).mbufs repl)

theorem MbufOps.reset_sameWindow (ops : MbufOps) (hiova : mb'.bufIova = mb.bufIova)
    (hlen : mb'.bufLen = mb.bufLen) :
    (ops.reset mb).SameWindow (ops.reset mb') := by
  obtain ⟨h₁, h₂⟩ := ops.reset_object mb
  obtain ⟨g₁, g₂⟩ := ops.reset_object mb'
  exact ⟨g₁.trans (hiova.trans h₁.symm), g₂.trans (hlen.trans h₂.symm), ops.reset_window hlen⟩

theorem RteMbuf.SameWindow.refl (mb : RteMbuf) : mb.SameWindow mb := ⟨rfl, rfl, rfl, rfl⟩

theorem RteMbuf.SameWindow.trans {a b c : RteMbuf} (hab : a.SameWindow b)
    (hbc : b.SameWindow c) : a.SameWindow c := by
  obtain ⟨h₁, h₂, h₃, h₄⟩ := hab
  obtain ⟨g₁, g₂, g₃, g₄⟩ := hbc
  exact ⟨g₁.trans h₁, g₂.trans h₂, g₃.trans h₃, g₄.trans h₄⟩

theorem RteMbuf.SameWindow.postable (hsame : mb.SameWindow mb')
    (hpost : Postable ops mb) : Postable ops mb' := by
  obtain ⟨h₁, h₂, h₃, h₄⟩ := hsame
  exact (postable_congr h₁ h₂ h₃ h₄).mpr hpost

/-! ### Allocations -/

/-- What `capio_mbuf_get` yields or leaves in the stash was in the stash or comes
from the pool. -/
theorem mem_of_takeMbuf {stash : List Nat} {reply : PoolReply} {x : Nat}
    (hx : (takeMbuf stash reply).mbuf = some x ∨ x ∈ (takeMbuf stash reply).stash) :
    x ∈ stash ∨ x ∈ (takeMbuf stash reply).allocs := by
  unfold takeMbuf at hx ⊢
  cases hlast : stash.getLast? with
  | some m =>
    simp only [hlast, Option.some.injEq] at hx ⊢
    rcases hx with rfl | hx
    · exact Or.inl (List.mem_of_getLast? hlast)
    · exact Or.inl (List.mem_of_mem_dropLast hx)
  | none =>
    simp only [hlast] at hx ⊢
    cases hbulk : reply.bulk with
    | some ms =>
      simp only [hbulk] at hx ⊢
      rcases hx with hx | hx
      · exact Or.inr (List.mem_of_getLast? hx)
      · exact Or.inr (List.mem_of_mem_dropLast hx)
    | none =>
      simp only [hbulk] at hx ⊢
      cases hsingle : reply.single with
      | some m => simp_all
      | none => simp_all

theorem Internals.taken_address (pi : Internals) (t : Taken) (x : Nat) :
    ((pi.taken t).mbufs x).bufIova = (pi.mbufs x).bufIova ∧
      ((pi.taken t).mbufs x).bufLen = (pi.mbufs x).bufLen := by
  simp only [Internals.taken, Internals.allocated]
  split
  · exact pi.ops.reset_object _
  · exact ⟨rfl, rfl⟩

/-- After an allocation from a stash of buffers that can be posted, what it yields
and what it leaves in the stash can be posted too. -/
theorem postable_of_takeMbuf (reply : PoolReply) {x : Nat}
    (hfit : ∀ y, Postable pi.ops (pi.ops.reset (pi.mbufs y)))
    (hstash : ∀ y ∈ pi.rxq.stash, Postable pi.ops (pi.mbufs y))
    (hx : (takeMbuf pi.rxq.stash reply).mbuf = some x ∨
      x ∈ (takeMbuf pi.rxq.stash reply).stash) :
    Postable pi.ops ((pi.taken (takeMbuf pi.rxq.stash reply)).mbufs x) := by
  simp only [Internals.taken, Internals.allocated]
  split
  · exact hfit x
  · rename_i hnew
    rcases mem_of_takeMbuf hx with hold | halloc
    · exact hstash x hold
    · exact absurd halloc hnew

/-- A buffer the pool could hand out before an allocation still fits after it. -/
theorem postable_reset_taken (t : Taken) (hfit : ∀ y, Postable pi.ops (pi.ops.reset (pi.mbufs y)))
    (y : Nat) :
    Postable pi.ops (pi.ops.reset ((pi.taken t).mbufs y)) := by
  obtain ⟨hiova, hlen⟩ := pi.taken_address t y
  exact (pi.ops.reset_sameWindow hiova hlen).postable (hfit y)

/-! ### Straight-line pieces -/

namespace Carries

variable {pi p : Internals} {t : Taken} {touched : Nat → Prop}

theorem first (pi : Internals) (session : Session) (t : Taken) :
    Carries pi ({ pi with session := session }.taken t) t touched :=
  { stash := rfl
    ops := rfl
    rxCopy := rfl
    txCopyMode := rfl
    txq := rfl
    address := pi.taken_address t
    window := fun _ _ => .refl _ }

theorem second (hp : Carries pi p t touched) (t' : Taken) :
    Carries pi (p.taken t') (t.andThen t') touched := by
  refine { hp with stash := rfl, address := ?_, window := ?_ }
  · intro x
    obtain ⟨h₁, h₂⟩ := p.taken_address t' x
    obtain ⟨g₁, g₂⟩ := hp.address x
    exact ⟨h₁.trans g₁, h₂.trans g₂⟩
  · intro x hx
    obtain ⟨h₁, h₂, h₃, h₄⟩ := hp.window x hx
    obtain ⟨g₁, g₂⟩ := hp.address x
    simp only [Taken.andThen, Internals.taken, Internals.allocated,
      List.mem_append] at h₁ h₂ h₃ h₄ ⊢
    by_cases hnew : x ∈ t'.allocs
    · simp only [hnew, or_true, if_true, hp.ops]
      exact pi.ops.reset_sameWindow g₁ g₂
    · by_cases hold : x ∈ t.allocs
      · simp_all [RteMbuf.SameWindow]
      · simp_all [RteMbuf.SameWindow]

theorem withSession (hp : Carries pi p t touched) (session : Session) :
    Carries pi { p with session := session } t touched := { hp with }

theorem nombuf (hp : Carries pi p t touched) : Carries pi p.nombuf t touched := { hp with }

theorem weaken (hp : Carries pi p t fun _ => False) : Carries pi p t touched :=
  { hp with window := fun x _ => hp.window x id }

/-- Bytes copied into a buffer do not move its window. -/
theorem copyIn (hp : Carries pi p t touched) (m pktOff plen : Nat) :
    Carries pi (p.copyIn m pktOff plen) t touched := by
  have hsame : ∀ x, (p.mbufs x).SameWindow ((p.copyIn m pktOff plen).mbufs x) := by
    intro x
    simp only [Internals.copyIn, Function.update_apply]
    split
    · subst x
      exact ⟨rfl, rfl, rfl, rfl⟩
    · exact .refl _
  refine { hp with address := ?_, window := ?_ }
  · intro x
    obtain ⟨h₁, h₂, -⟩ := hsame x
    exact ⟨h₁.trans (hp.address x).1, h₂.trans (hp.address x).2⟩
  · intro x hx
    exact (hp.window x hx).trans (hsame x)

/-- A buffer that is handed on may change its window but not its address. -/
theorem touch (hp : Carries pi p t touched) {m : Nat} (mb : RteMbuf)
    (haddr : mb.bufIova = (p.mbufs m).bufIova ∧ mb.bufLen = (p.mbufs m).bufLen)
    (hm : touched m) :
    Carries pi { p with mbufs := Function.update p.mbufs m mb } t touched := by
  refine { hp with address := ?_, window := ?_ }
  · intro x
    simp only [Function.update_apply]
    split
    · subst x
      exact ⟨haddr.1.trans (hp.address m).1, haddr.2.trans (hp.address m).2⟩
    · exact hp.address x
  · intro x hx
    have hne : x ≠ m := by
      rintro rfl
      exact hx hm
    simp only [Function.update_of_ne hne]
    exact hp.window x hx

theorem skipPrefix (hp : Carries pi p t touched) {m : Nat} (hm : touched m) :
    Carries pi (p.skipPrefix m) t touched := hp.touch _ ⟨rfl, rfl⟩ hm

theorem framed (hp : Carries pi p t touched) {m : Nat} (len : Nat) (hm : touched m) :
    Carries pi (p.framed m len) t touched := hp.touch _ ⟨rfl, rfl⟩ hm

theorem rxCount (hp : Carries pi p t touched) (len : Nat) :
    Carries pi (p.rxCount len) t touched := { hp with }

theorem dataIovaDefault (hp : Carries pi p t touched) (m : Nat) :
    p.ops.dataIovaDefault (p.mbufs m) = pi.ops.dataIovaDefault (pi.mbufs m) := by
  rw [hp.ops, pi.ops.dataIovaDefault_congr (hp.address m).1 (hp.address m).2]

end Carries

theorem Internals.rxRelease_of_ready {pi : Internals} (hready : pi.session.sfc.Ready) :
    pi.rxRelease = { pi with session := released pi.session } := by
  rw [Internals.rxRelease, Userlib.rxRelease_of_ready hready]

/-- The slot is given back with `sfc7120_rx_release`. -/
theorem RxEffect.ofRelease {pi p : Internals} {t : Taken} {acts log : List MbufAct}
    (used : Option Nat) (hready : pi.session.sfc.Ready) (hp : Carries pi p t fun _ => False)
    (hsession : p.session = polledSession pi.session)
    (hlog : log = t.allocs.map .alloc ++ acts) :
    RxEffect pi { pi := p.rxRelease, acts := log, used := used, more := true }
      t .release acts := by
  have hready' : p.session.sfc.Ready := by
    rw [hsession]
    exact { hready with }
  rw [Internals.rxRelease_of_ready hready', hsession]
  exact { more := rfl, log := hlog, session := rfl, carries := (hp.withSession _).weaken }

/-- The slot is given back by posting the mbuf `m` at the tail. -/
theorem Carries.post {pi p : Internals} {t : Taken} {touched : Nat → Prop} {m : Nat}
    (hready : pi.session.sfc.Ready) (hp : Carries pi p t touched)
    (hsession : p.session = polledSession pi.session)
    (hpost : Postable pi.ops (p.mbufs m)) :
    ∃ session, capioPostMbuf p m = ([.post m], { p with session := session }) ∧
      (GiveBack.post m).Leads pi (polledSession pi.session) session := by
  have hready' : p.session.sfc.Ready := by
    rw [hsession]
    exact { hready with }
  rw [← hp.ops] at hpost
  rw [capioPostMbuf_of_postable hready' hpost, hp.dataIovaDefault m, hsession]
  exact ⟨_, rfl, _, rfl⟩

section Branches

variable {pi p : Internals} {t : Taken} {cookie : Option Nat}

theorem rxNoReplacement_effect (hready : pi.session.sfc.Ready)
    (hp : Carries pi p t fun _ => False) (hsession : p.session = polledSession pi.session)
    (hcookie : ∀ c, cookie = some c → Postable pi.ops (p.mbufs c))
    (hgot : t.mbuf = none) (libLen extLen : Nat) (got₂ : Option Nat) :
    ∃ back acts used,
      RxCase pi.rxCopy libLen extLen cookie t.mbuf got₂ false back acts used ∧
      RxEffect pi ((rxNoReplacement p cookie).after (t.allocs.map .alloc)) t back acts ∧
      (rxNoReplacement p cookie).used = used := by
  cases cookie with
  | none =>
    exact ⟨.release, [], none, .starvedLibrary hgot rfl,
      .ofRelease none hready hp.nombuf hsession rfl, rfl⟩
  | some c =>
    obtain ⟨session, hpost, hleads⟩ := hp.nombuf.post hready hsession (hcookie c rfl)
    refine ⟨.post c, [.post c], some c, .starvedCookie hgot rfl, ?_, rfl⟩
    simp only [rxNoReplacement, hpost, RxOutcome.after]
    exact
      { more := rfl
        log := rfl
        session := hleads
        carries := (hp.nombuf.withSession session).weaken }

theorem rxCopyOut_effect {m repl : Nat} {got₁ got₂ : Option Nat} (pk : Peek)
    (hready : pi.session.sfc.Ready) (hp : Carries pi p t fun _ => False)
    (hsession : p.session = polledSession pi.session)
    (hrepl : pi.rxCopy = false → cookie = none →
      Postable pi.ops ((p.framed m pk.len).mbufs repl))
    (hgot : got₁ = some m) (hgot' : got₂ = some repl)
    (hcookie : pi.rxCopy = true ∨ cookie = none) {libLen : Nat} (hlen : libLen ≠ 0)
    (extLen : Nat) :
    ∃ back acts used, RxCase pi.rxCopy libLen extLen cookie got₁ got₂ true back acts used ∧
      RxEffect pi ((rxCopyOut p pk m repl).after (t.allocs.map .alloc)) t back acts ∧
      (rxCopyOut p pk m repl).used = used := by
  have hcopied := hp.copyIn m pk.pktOff pk.len
  by_cases hcopy : pi.rxCopy = true
  · have hrel := RxEffect.ofRelease none hready hcopied hsession
      (rfl : _ = t.allocs.map MbufAct.alloc ++ [MbufAct.free repl, MbufAct.deliver m])
    simp only [rxCopyOut, hp.rxCopy, hcopy, if_true, RxOutcome.after]
    exact ⟨.release, [.free repl, .deliver m], none, .copied hgot rfl hlen hgot',
      { more := rfl
        log := rfl
        session := hrel.session
        carries := (hrel.carries.framed pk.len (Or.inl (by simp))).rxCount pk.len }, rfl⟩
  · have hnocopy : pi.rxCopy = false := by simpa using hcopy
    have hnone : cookie = none := hcookie.resolve_left hcopy
    have hframed : Carries pi ((p.copyIn m pk.pktOff pk.len).framed m pk.len) t
        (HandsOn [.post repl, .deliver m]) := hcopied.weaken.framed pk.len (Or.inl (by simp))
    -- the bytes copied in do not matter for the post
    have hrepl' : Postable pi.ops
        (((p.copyIn m pk.pktOff pk.len).framed m pk.len).mbufs repl) := by
      refine RteMbuf.SameWindow.postable ?_ (hrepl hnocopy hnone)
      simp only [Internals.framed, Internals.copyIn, Function.update_apply]
      split
      · exact ⟨by simp, by simp, by simp, rfl⟩
      · exact .refl _
    obtain ⟨session, hpost, hleads⟩ := hframed.post hready hsession hrepl'
    simp only [rxCopyOut, hp.rxCopy, hnocopy, hpost, RxOutcome.after]
    exact ⟨.post repl, [.post repl, .deliver m], none, .swapped hgot rfl hnone hlen hgot',
      { more := rfl
        log := rfl
        session := hleads
        carries := (hframed.withSession session).rxCount pk.len }, rfl⟩

theorem rxFromLibrary_effect {m : Nat} (rxBytes : Nat) (reply : PoolReply)
    (hready : pi.session.sfc.Ready) (hp : Carries pi p t fun _ => False)
    (hsession : p.session = polledSession pi.session)
    (hrepl : ∀ repl, pi.rxCopy = false → cookie = none →
      frameLen pi.session.dev.rxBuffer (pi.session.sfc.rxHead * rxBufferSize) rxBytes ≠ 0 →
      (takeMbuf t.stash reply).mbuf = some repl →
      Postable pi.ops (((p.taken (takeMbuf t.stash reply)).framed m
        (frameLen pi.session.dev.rxBuffer (pi.session.sfc.rxHead * rxBufferSize)
          rxBytes)).mbufs repl))
    (hgot : t.mbuf = some m) (hcookie : pi.rxCopy = true ∨ cookie = none) (extLen : Nat) :
    ∃ second back acts used,
      RxCase pi.rxCopy
        (frameLen pi.session.dev.rxBuffer (pi.session.sfc.rxHead * rxBufferSize) rxBytes)
        extLen cookie t.mbuf (takeMbuf t.stash reply).mbuf second back acts used ∧
      RxEffect pi ((rxFromLibrary p rxBytes m reply).after (t.allocs.map .alloc))
        (t.followedBy reply second) back acts ∧
      (rxFromLibrary p rxBytes m reply).used = used := by
  have hready' : p.session.sfc.Ready := by
    rw [hsession]
    exact { hready with }
  obtain ⟨pk, hpeek, hpklen⟩ := rxPeek_of_ready hready' rxBytes
  rw [hsession] at hpklen
  change pk.len =
    frameLen pi.session.dev.rxBuffer (pi.session.sfc.rxHead * rxBufferSize) rxBytes at hpklen
  rw [← hpklen] at hrepl ⊢
  have hidem : polledSession p.session = polledSession pi.session := by
    rw [hsession]
    rfl
  have hpeeked := hp.withSession (polledSession p.session)
  simp only [rxFromLibrary, hpeek]
  by_cases hlen : pk.len = 0
  · simp only [hlen, if_true]
    exact ⟨false, .release, [.free m], none, .emptyLibrary hgot hcookie rfl,
      .ofRelease none hready hpeeked hidem rfl, rfl⟩
  · simp only [hlen, if_false, capioMbufGet, hp.stash]
    have hsecond := hpeeked.second (takeMbuf t.stash reply)
    cases hgot₂ : (takeMbuf t.stash reply).mbuf with
    | none =>
      refine ⟨true, .release, [.free m], none, .starvedCopy hgot hcookie hlen rfl, ?_, rfl⟩
      refine .ofRelease none hready hsecond.nombuf hidem ?_
      simp [Taken.followedBy, Taken.andThen]
    | some repl =>
      obtain ⟨back, acts, used, hcase, heff, hused⟩ :=
        rxCopyOut_effect pk hready hsecond hidem
          (fun hcopy hnone => hrepl repl hcopy hnone hlen hgot₂) hgot rfl hcookie hlen extLen
      refine ⟨true, back, acts, used, hcase, ?_, hused⟩
      simpa [RxOutcome.after, Taken.followedBy, Taken.andThen] using heff

theorem rxFromCookie_effect {c repl : Nat} (len : Nat) (hready : pi.session.sfc.Ready)
    (hp : Carries pi p t fun _ => False) (hsession : p.session = polledSession pi.session)
    (hempty : len = 0 → Postable pi.ops ((p.skipPrefix c).mbufs repl))
    (hfull : len ≠ 0 → Postable pi.ops (((p.skipPrefix c).framed c len).mbufs repl))
    (hgot : t.mbuf = some repl) (hcopy : pi.rxCopy = false) (libLen : Nat) (got₂ : Option Nat) :
    ∃ back acts used,
      RxCase pi.rxCopy libLen len (some c) t.mbuf got₂ false back acts used ∧
      RxEffect pi ((rxFromCookie p len c repl).after (t.allocs.map .alloc)) t back acts ∧
      (rxFromCookie p len c repl).used = used := by
  have hskip : ∀ acts, HandsOn acts c → Carries pi (p.skipPrefix c) t (HandsOn acts) :=
    fun acts hc => hp.weaken.skipPrefix hc
  by_cases hlen : len = 0
  · have hcarries := hskip [.free c, .post repl] (Or.inr (by simp))
    obtain ⟨session, hpost, hleads⟩ := hcarries.post hready hsession (hempty hlen)
    simp only [rxFromCookie, hlen, if_true, hpost, RxOutcome.after]
    exact ⟨.post repl, [.free c, .post repl], some c, .emptyCookie hgot hcopy rfl rfl,
      { more := rfl, log := rfl, session := hleads, carries := hcarries.withSession session },
      rfl⟩
  · have hc : HandsOn [.post repl, .deliver c] c := Or.inl (by simp)
    have hcarries := (hskip _ hc).framed len hc
    obtain ⟨session, hpost, hleads⟩ := hcarries.post hready hsession (hfull hlen)
    simp only [rxFromCookie, hlen, if_false, hpost, RxOutcome.after]
    exact ⟨.post repl, [.post repl, .deliver c], some c, .handed hgot hcopy rfl hlen,
      { more := rfl
        log := rfl
        session := hleads
        carries := (hcarries.withSession session).rxCount len }, rfl⟩

end Branches

/-- The spec of the loop body: it takes one line of the table `RxCase`, and its
effect is the one of that line. -/
theorem rxEvent_effect_of_fits {pi : Internals} {rxBytes : Nat} {reply₁ reply₂ : PoolReply}
    (hready : pi.session.sfc.Ready) (hfits : EventFits pi rxBytes reply₁ reply₂) :
    ∃ second back acts used,
      RxCase pi.rxCopy
        (frameLen pi.session.dev.rxBuffer (pi.session.sfc.rxHead * rxBufferSize) rxBytes)
        (eventLen rxBytes) (pi.session.sfc.rxExtCookie pi.session.sfc.rxHead)
        (takeMbuf pi.rxq.stash reply₁).mbuf
        (takeMbuf (takeMbuf pi.rxq.stash reply₁).stash reply₂).mbuf second back acts used ∧
      RxEffect pi (rxEvent pi rxBytes reply₁ reply₂)
        ((takeMbuf pi.rxq.stash reply₁).followedBy reply₂ second) back acts ∧
      (rxEvent pi rxBytes reply₁ reply₂).used = used := by
  obtain ⟨len, hpeek, hlen⟩ := rxPeekExt_of_ready hready rxBytes
  simp only [rxEvent, hpeek, capioMbufGet]
  have hp : Carries pi ({ pi with session := polledSession pi.session }.taken
      (takeMbuf pi.rxq.stash reply₁)) (takeMbuf pi.rxq.stash reply₁) fun _ => False :=
    .first pi _ _
  cases hgot : (takeMbuf pi.rxq.stash reply₁).mbuf with
  | none =>
    -- nothing to replace the slot's buffer with: it goes back as it is
    have heff := rxNoReplacement_effect hready hp rfl (fun c => hfits.starved c hgot) hgot
      (frameLen pi.session.dev.rxBuffer (pi.session.sfc.rxHead * rxBufferSize) rxBytes)
      (eventLen rxBytes) (takeMbuf (takeMbuf pi.rxq.stash reply₁).stash reply₂).mbuf
    rw [hgot] at heff
    exact ⟨false, heff⟩
  | some m =>
    cases hown : if pi.rxCopy then none
        else pi.session.sfc.rxExtCookie pi.session.sfc.rxHead with
    | none =>
      -- the frame is copied out of the library's buffer
      have hlib : pi.rxCopy = true ∨
          pi.session.sfc.rxExtCookie pi.session.sfc.rxHead = none := by
        by_cases hcopy : pi.rxCopy = true
        · exact Or.inl hcopy
        · rw [if_neg hcopy] at hown
          exact Or.inr hown
      have heff := rxFromLibrary_effect rxBytes reply₂ hready hp rfl
        (fun repl => hfits.library m repl hgot) hgot hlib (eventLen rxBytes)
      rw [hgot] at heff
      exact heff
    | some c =>
      -- the frame lies in `c`
      have hcopy : pi.rxCopy = false := by
        by_contra hcopy
        simp [hcopy] at hown
      have hc : pi.session.sfc.rxExtCookie pi.session.sfc.rxHead = some c := by
        simpa [hcopy] using hown
      obtain rfl := hlen (by simp [hc])
      have heff := rxFromCookie_effect (eventLen rxBytes) hready hp rfl
        (hfits.empty m c hgot hcopy hc) (hfits.handed m c hgot hcopy hc) hgot hcopy
        (frameLen pi.session.dev.rxBuffer (pi.session.sfc.rxHead * rxBufferSize) rxBytes)
        (takeMbuf (takeMbuf pi.rxq.stash reply₁).stash reply₂).mbuf
      rw [hgot] at heff
      rw [hc]
      exact ⟨false, heff⟩

/-- Buffers that can all be posted, of which the event hands out none twice. -/
theorem eventFits_of_postable {pi : Internals} (rxBytes : Nat) (reply₁ reply₂ : PoolReply)
    (hfit : ∀ y, Postable pi.ops (pi.ops.reset (pi.mbufs y)))
    (hstash : ∀ y ∈ pi.rxq.stash, Postable pi.ops (pi.mbufs y))
    (hcookie : ∀ c, pi.session.sfc.rxExtCookie pi.session.sfc.rxHead = some c →
      Postable pi.ops (pi.mbufs c) ∧ (takeMbuf pi.rxq.stash reply₁).mbuf ≠ some c)
    (hapart : ∀ m, (takeMbuf pi.rxq.stash reply₁).mbuf = some m →
      (takeMbuf (takeMbuf pi.rxq.stash reply₁).stash reply₂).mbuf ≠ some m) :
    EventFits pi rxBytes reply₁ reply₂ := by
  have hpostable := fun x hx => postable_of_takeMbuf reply₁ (x := x) hfit hstash hx
  have hne : ∀ repl c, (takeMbuf pi.rxq.stash reply₁).mbuf = some repl →
      pi.session.sfc.rxExtCookie pi.session.sfc.rxHead = some c → repl ≠ c :=
    fun repl c hgot hc heq => (hcookie c hc).2 (heq ▸ hgot)
  refine ⟨?_, ?_, ?_, ?_⟩
  · intro c _ hc
    simp only [Internals.taken, Internals.allocated]
    split
    · exact hfit c
    · exact (hcookie c hc).1
  · intro m repl hm _ _ _ hgot
    have hother : repl ≠ m := fun heq => hapart m hm (heq ▸ hgot)
    have hfit' : ∀ y, Postable (pi.taken (takeMbuf pi.rxq.stash reply₁)).ops
        ((pi.taken (takeMbuf pi.rxq.stash reply₁)).ops.reset
          ((pi.taken (takeMbuf pi.rxq.stash reply₁)).mbufs y)) :=
      postable_reset_taken (takeMbuf pi.rxq.stash reply₁) hfit
    have hsecond : Postable (pi.taken (takeMbuf pi.rxq.stash reply₁)).ops
        (((pi.taken (takeMbuf pi.rxq.stash reply₁)).taken
          (takeMbuf (takeMbuf pi.rxq.stash reply₁).stash reply₂)).mbufs repl) :=
      postable_of_takeMbuf reply₂ hfit' (fun y hy => hpostable y (Or.inr hy)) (Or.inl hgot)
    simp only [Internals.framed, Function.update_of_ne hother]
    exact hsecond
  · intro repl c hgot _ hc _
    simp only [Internals.skipPrefix, Function.update_of_ne (hne repl c hgot hc)]
    exact hpostable repl (Or.inl hgot)
  · intro repl c hgot _ hc _
    simp only [Internals.framed, Internals.skipPrefix, Function.update_of_ne (hne repl c hgot hc)]
    exact hpostable repl (Or.inl hgot)

/-- A pool of 4 KiB objects with 2048 bytes of room behind a headroom of 128. -/
def samplePool (m : Nat) : RteMbuf where
  bufIova := BitVec.ofNat 64 (0x40000000 + 4096 * (m % 65536))
  bufLen := 2176
  dataOff := 0
  dataLen := 0
  pktLen := 0
  nbSegs := 1
  next := none
  data := fun _ => 0#8

theorem samplePool_iova (m : Nat) :
    (sampleOps.dataIovaDefault (samplePool m)).toNat =
      0x40000080 + 4096 * (m % 65536) := by
  have hlt := Nat.mod_lt m (show 0 < 65536 by decide)
  simp only [samplePool, sampleOps, BitVec.toNat_add, BitVec.toNat_ofNat]
  omega

theorem postable_samplePool (m : Nat) :
    Postable sampleOps (sampleOps.reset (samplePool m)) := by
  have hne : sampleOps.dataIovaDefault (sampleOps.reset (samplePool m)) ≠ 0#64 := by
    intro hzero
    have hnat := samplePool_iova m
    change (sampleOps.dataIovaDefault (sampleOps.reset (samplePool m))).toNat = _ at hnat
    rw [hzero] at hnat
    simp only [BitVec.toNat_ofNat, Nat.zero_mod] at hnat
    omega
  have hroom : sampleOps.tailroom (sampleOps.reset (samplePool m)) = 2048 := by
    simp [sampleOps, samplePool]
  exact postable_iff.mpr ⟨hne, by rw [hroom]; decide⟩

end Pmd
end SfcCapio
