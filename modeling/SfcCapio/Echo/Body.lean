import SfcCapio.Foundation.TracedMemory
import SfcCapio.Echo.Reuse
import SfcCapio.Echo.Rewritten

/-!
# One pass of the plain echo loop

The body of the loop is written here once more, as a program that loads and stores the bytes
of the receive buffer in the order of the source.  It computes what `accepts` and `rewrite`
say and touches nothing outside of the frame (`echoFrame_runs`).  Around it stand the calls of
the library: whatever the frame is, the pass ends with the slot released once.
-/

namespace SfcCapio
namespace Echo

open Foundation Foundation.TraceM Hardware Userlib

/-- A program over the receive buffer. -/
abbrev FrameM := TraceM (BitVec 8)

/-- `ntohs` of a loaded field. -/
def loadBe16 (off : Nat) : FrameM Nat := do
  let high ← load off
  let low ← load (off + 1)
  return high.toNat * 256 + low.toNat

def loadLe16 (off : Nat) : FrameM Nat := do
  let low ← load off
  let high ← load (off + 1)
  return low.toNat + high.toNat * 256

def storeLe16 (off value : Nat) : FrameM Unit := do
  store off (BitVec.ofNat 8 value)
  store (off + 1) (BitVec.ofNat 8 (value / 256))

/-- Two fields of `n` bytes are exchanged through a temporary. -/
def swapFields (a b n : Nat) : FrameM Unit := do
  let tmp ← loadCells a n
  let other ← loadCells b n
  storeCells a other
  storeCells b tmp

/-- The two loops of `ip_cksum` that add up. -/
def cksumLoads : Nat → Nat → Nat → FrameM Nat
  | _, 0, sum => pure sum
  | off, 1, sum => do
      let b ← load off
      return (sum + b.toNat) % 2 ^ 32
  | off, len + 2, sum => do
      let word ← loadLe16 off
      cksumLoads (off + 2) len ((sum + word) % 2 ^ 32)

/-- The checks; the result is `ip_hlen` of a frame that passes them. -/
def checkFrame (pkt len : Nat) : FrameM (Option Nat) :=
  if len < minFrameLen then return none
  else do
    let etherType ← loadBe16 (pkt + 12)
    if etherType ≠ 0x0800 then return none
    else do
      let vhl ← load (pkt + ethHdrLen)
      let hlen := (vhl &&& 0x0f#8).toNat * 4
      if hlen < ipHdrLen then return none
      else do
        let proto ← load (pkt + ethHdrLen + 9)
        if proto.toNat ≠ 17 then return none
        else if len < ethHdrLen + hlen + udpHdrLen + spfHdrLen then return none
        else return some hlen

/-- The rewriting of a frame that passed. -/
def reflectFrame (pkt hlen : Nat) : FrameM Unit := do
  swapFields pkt (pkt + 6) 6
  swapFields (pkt + ethHdrLen + 12) (pkt + ethHdrLen + 16) 4
  storeLe16 (pkt + ethHdrLen + 10) 0
  let sum ← cksumLoads (pkt + ethHdrLen) hlen 0
  storeLe16 (pkt + ethHdrLen + 10) (2 ^ 16 - 1 - cksumFold sum)
  let udp := pkt + ethHdrLen + hlen
  swapFields udp (udp + 2) 2
  storeLe16 (udp + 6) 0

/-- The body between `sfc7120_rx_peek` and the post; the result says whether to post. -/
def echoFrame (pkt len : Nat) : FrameM Bool := do
  match ← checkFrame pkt len with
  | none => return false
  | some hlen =>
    reflectFrame pkt hlen
    return true

/-! ## What the parts do -/

section Parts

variable {lo hi off : Nat} {mem : Nat → BitVec 8}

theorem loadBe16_runs (hlo : lo ≤ off) (hhi : off + 2 ≤ hi) :
    Runs lo hi (loadBe16 off) mem (be16 mem off) mem := by
  refine (Runs.load hlo (by omega)).bind ?_
  refine (Runs.load (by omega) (by omega)).bind ?_
  exact Runs.pure _

theorem loadLe16_runs (hlo : lo ≤ off) (hhi : off + 2 ≤ hi) :
    Runs lo hi (loadLe16 off) mem (le16 mem off) mem := by
  refine (Runs.load hlo (by omega)).bind ?_
  refine (Runs.load (by omega) (by omega)).bind ?_
  exact Runs.pure _

theorem storeLe16_runs (value : Nat) (hlo : lo ≤ off) (hhi : off + 2 ≤ hi) :
    Runs lo hi (storeLe16 off value) mem () (putLe16 mem off value) := by
  refine (Runs.store _ hlo (by omega)).bind ?_
  exact Runs.store _ (by omega) (by omega)

/-- An exchange through a temporary is an exchange, the second field being behind the
first. -/
theorem blit_blit_cellsAt {a b n : Nat} (hab : a + n ≤ b) :
    blit (blit mem a (cellsAt mem b n)) b (cellsAt mem a n) = swapBytes mem a b n := by
  funext x
  by_cases hb : b ≤ x ∧ x < b + n
  · obtain ⟨i, rfl⟩ : ∃ i, x = b + i := ⟨x - b, by omega⟩
    rw [blit, if_pos (by omega), Nat.add_sub_cancel_left, getElem?_cellsAt mem (by omega),
      Option.getD_some, swapBytes_right hab (by omega)]
  · rw [blit_of_outside _ (by rwa [length_cellsAt])]
    by_cases ha : a ≤ x ∧ x < a + n
    · obtain ⟨i, rfl⟩ : ∃ i, x = a + i := ⟨x - a, by omega⟩
      rw [blit, if_pos (by omega), Nat.add_sub_cancel_left, getElem?_cellsAt mem (by omega),
        Option.getD_some, swapBytes_left (by omega)]
    · rw [blit_of_outside _ (by rwa [length_cellsAt]), swapBytes_of_disjoint ha hb]

theorem swapFields_runs {a b n : Nat} (hlo : lo ≤ a) (hab : a + n ≤ b) (hhi : b + n ≤ hi) :
    Runs lo hi (swapFields a b n) mem () (swapBytes mem a b n) := by
  refine (Runs.loadCells hlo (by omega)).bind ?_
  refine (Runs.loadCells (by omega) hhi).bind ?_
  refine (Runs.storeCells hlo (by rw [length_cellsAt]; omega)).bind ?_
  rw [← blit_blit_cellsAt hab]
  exact Runs.storeCells (by omega) (by rwa [length_cellsAt])

theorem cksumLoads_runs {len sum : Nat} (hlo : lo ≤ off) (hhi : off + len ≤ hi) :
    Runs lo hi (cksumLoads off len sum) mem (cksumSum mem off len sum) mem := by
  -- along the recursion of both: two bytes at a time
  fun_induction cksumSum mem off len sum with
  | case1 off sum => exact Runs.pure sum
  | case2 off sum =>
    refine (Runs.load hlo (by omega)).bind ?_
    exact Runs.pure _
  | case3 off len sum ih =>
    refine (loadLe16_runs hlo (by omega)).bind ?_
    exact ih (by omega) (by omega)

end Parts

section Frame

variable {mem : Nat → BitVec 8} {pkt len : Nat}

theorem accepts_iff : accepts false mem pkt len = true ↔
    minFrameLen ≤ len ∧ be16 mem (pkt + 12) = 0x0800 ∧ ipHdrLen ≤ ipHlen mem pkt ∧
      (mem (pkt + ethHdrLen + 9)).toNat = 17 ∧
      ethHdrLen + ipHlen mem pkt + udpHdrLen + spfHdrLen ≤ len := by
  simp only [accepts, Bool.false_eq_true, if_false, ne_eq, ite_not]
  grind

/-- The checks look at no more of the frame than its length allows. -/
theorem checkFrame_runs (mem : Nat → BitVec 8) (pkt len : Nat) :
    Runs pkt (pkt + len) (checkFrame pkt len) mem
      (if accepts false mem pkt len then some (ipHlen mem pkt) else none) mem := by
  unfold checkFrame accepts
  split
  · exact Runs.pure none
  · next hmin =>
      have hfull : 56 ≤ len := Nat.le_of_not_lt hmin
      refine (loadBe16_runs (by omega) (by omega)).bind ?_
      split
      · exact Runs.pure none
      · refine (Runs.load (by omega) (by simp only [ethHdrLen]; omega)).bind ?_
        simp only
        change Runs _ _ (if ipHlen mem pkt < ipHdrLen then _ else _) _ _ _
        split
        · exact Runs.pure none
        · refine (Runs.load (by omega) (by simp only [ethHdrLen]; omega)).bind ?_
          split
          · exact Runs.pure none
          · change Runs _ _
              (if len < ethHdrLen + ipHlen mem pkt + udpHdrLen + spfHdrLen then _ else _) _ _ _
            split
            · exact Runs.pure none
            · exact Runs.pure _

theorem reflectFrame_runs (hhlen : ipHdrLen ≤ ipHlen mem pkt)
    (hfits : ethHdrLen + ipHlen mem pkt + udpHdrLen ≤ len) :
    Runs pkt (pkt + len) (reflectFrame pkt (ipHlen mem pkt)) mem () (rewrite false mem pkt) := by
  have hhdr : 20 ≤ ipHlen mem pkt := hhlen
  have hlen : 14 + ipHlen mem pkt + 8 ≤ len := hfits
  have hethernet : ethHdrLen = 14 := rfl
  refine (swapFields_runs (Nat.le_refl pkt) (Nat.le_refl _) (by omega)).bind ?_
  refine (swapFields_runs (by omega) (Nat.le_refl _) (by omega)).bind ?_
  refine (storeLe16_runs 0 (by omega) (by omega)).bind ?_
  refine (cksumLoads_runs (by omega) (by omega)).bind ?_
  refine (storeLe16_runs _ (by omega) (by omega)).bind ?_
  refine (swapFields_runs (by omega) (Nat.le_refl _) (by omega)).bind ?_
  exact storeLe16_runs 0 (by omega) (by omega)

/-- **The body of the loop**: the checks, the rewriting if they pass, and no access outside
of the first `len` bytes of the frame. -/
theorem echoFrame_runs (mem : Nat → BitVec 8) (pkt len : Nat) :
    Runs pkt (pkt + len) (echoFrame pkt len) mem (accepts false mem pkt len)
      (if accepts false mem pkt len then rewrite false mem pkt else mem) := by
  refine (checkFrame_runs mem pkt len).bind ?_
  cases haccepts : accepts false mem pkt len with
  | false => exact Runs.pure false
  | true =>
    obtain ⟨-, -, hhlen, -, hfits⟩ := accepts_iff.mp haccepts
    refine (reflectFrame_runs hhlen (Nat.le_of_add_right_le hfits)).bind ?_
    exact Runs.pure true

end Frame

/-! ## One pass -/

/-- The loop alone makes `n` steps. -/
def Loops (n : Nat) (s t : EchoSys) : Prop := exec echoStep s (List.replicate n .loop) = some t

theorem Loops.trans {m n : Nat} {s t u : EchoSys} (hfirst : Loops m s t) (hrest : Loops n t u) :
    Loops (m + n) s u := by
  unfold Loops
  rw [← List.replicate_append_replicate]
  exact exec_append hfirst hrest

theorem Loops.step {n : Nat} {s t u : EchoSys} (hstep : loopStep s = some t)
    (hrest : Loops n t u) : Loops (n + 1) s u := by
  have hlabel : echoStep s .loop = some t := hstep
  unfold Loops
  rw [List.replicate_succ, exec_cons_of_some hlabel]
  exact hrest

/-- What a post leaves of a session: the receive side, and every descriptor but the one at
`tx_head`. -/
structure PostKept (s s' : Session) : Prop where
  ready : s.sfc.Ready → s'.sfc.Ready
  rxHead : s'.sfc.rxHead = s.sfc.rxHead
  rxBuffer : s'.dev.rxBuffer = s.dev.rxBuffer
  others : ∀ slot, slot ≠ s.sfc.txHead → s'.dev.txDescRing slot = s.dev.txDescRing slot

theorem PostKept.refl (s : Session) : PostKept s s := ⟨id, rfl, rfl, fun _ _ => rfl⟩

theorem postKept_txPostPaddr (s : Session) (paddr : BitVec 64) (len : Nat) :
    PostKept s (txPostPaddr s paddr len).2 := by
  unfold txPostPaddr
  split
  · exact .refl s
  · split
    · exact .refl s
    · exact ⟨fun hready => { hready with }, rfl, rfl,
        fun slot hslot => Function.update_of_ne hslot _ _⟩

theorem postKept_txPost (s : Session) (bytes : List (BitVec 8)) :
    PostKept s (txPost s bytes).2 := by
  unfold txPost
  split
  · exact .refl s
  · split
    · exact .refl s
    · exact ⟨fun hready => { hready with }, rfl, rfl,
        fun slot hslot => Function.update_of_ne hslot _ _⟩

@[simp] theorem posted_session (s : EchoSys) (out : Int × Session) (rxSlot : Option Nat) :
    (s.posted out rxSlot).session = out.2 := by
  unfold EchoSys.posted
  split <;> rfl

@[simp] theorem posted_released (s : EchoSys) (out : Int × Session) (rxSlot : Option Nat) :
    (s.posted out rxSlot).released = s.released := by
  unfold EchoSys.posted
  split <;> rfl

/-- What the posts of a pass leave of the state: the frame stays where it is, and its
descriptor is written if the library takes it. -/
structure Posted (u v : EchoSys) (pk : Peek) (evs : List Ev) : Prop where
  pc : v.pc = .release evs
  ready : v.session.sfc.Ready
  rxHead : v.session.sfc.rxHead = u.session.sfc.rxHead
  released : v.released = u.released
  rxBuffer : v.session.dev.rxBuffer = u.session.dev.rxBuffer
  sent : 0 < pk.len → pk.len ≤ txBufferSize →
    v.session.dev.txDescRing u.session.sfc.txHead = descWord pk.paddr pk.len

/-- What a pass over a receive event is to do: the slot is released once and the loop goes
on; only the first `len` bytes of the frame are touched; a frame that is accepted goes out
exchanged, from where it is, and would come back as it was; any other is left alone. -/
structure EchoPass (s t : EchoSys) (ev : Ev) (evs : List Ev) (pk : Peek) : Prop where
  peek : rxPeek s.session ev.rxBytes = (some pk, polledSession s.session)
  paddr : pk.paddr = s.session.sfc.rxBufferPaddr + BitVec.ofNat 64 pk.pktOff
  next : t.pc = .events evs
  released : t.released = s.released + 1
  rxHead : t.session.sfc.rxHead = (s.session.sfc.rxHead + 1) % numRxDesc
  touched : ∃ touched,
    echoFrame pk.pktOff pk.len ⟨s.session.dev.rxBuffer, []⟩ =
      (accepts false s.session.dev.rxBuffer pk.pktOff pk.len,
        ⟨t.session.dev.rxBuffer, touched⟩) ∧
      ∀ a ∈ touched, pk.pktOff ≤ a ∧ a < pk.pktOff + pk.len
  ignored : accepts false s.session.dev.rxBuffer pk.pktOff pk.len = false →
    t.session.dev.rxBuffer = s.session.dev.rxBuffer ∧
      t.session.sfc.txHead = s.session.sfc.txHead
  echoed : accepts false s.session.dev.rxBuffer pk.pktOff pk.len = true →
    Echoed s.session.dev.rxBuffer t.session.dev.rxBuffer pk.pktOff ∧
      (pk.len ≤ txBufferSize →
        t.session.dev.txDescRing s.session.sfc.txHead = descWord pk.paddr pk.len)
  again : accepts false s.session.dev.rxBuffer pk.pktOff pk.len = true →
    ∀ mem pkt, SameFrame pk.len t.session.dev.rxBuffer pk.pktOff mem pkt →
      accepts false mem pkt pk.len = true ∧
        ∀ i, i < pk.len → ¬ InChecksum (ipHlen s.session.dev.rxBuffer pk.pktOff) i →
          rewrite false mem pkt (pkt + i) = s.session.dev.rxBuffer (pk.pktOff + i)

section Pass

variable {s u : EchoSys} {pk : Peek} {ev : Ev} {evs : List Ev}

/-- The state between the rewriting and the post. -/
def EchoSys.rewritten (s : EchoSys) (pk : Peek) (evs : List Ev) : EchoSys :=
  { s with
    session :=
      { sfc := (polledSession s.session).sfc
        dev :=
          { s.session.dev with rxBuffer := rewrite s.strict s.session.dev.rxBuffer pk.pktOff } }
    pc := .post pk evs }

/-- The release at the end of every path. -/
theorem release_loops (hpc : u.pc = .release evs) (hready : u.session.sfc.Ready) :
    Loops 1 u
      { u with
        session := Userlib.released u.session
        released := u.released + 1
        pc := .events evs } := by
  refine Loops.step ?_ rfl
  unfold loopStep
  simp only [hpc, rxRelease_of_ready hready, if_true]

/-- The frame's own post: its descriptor, and `tx_head` moves on from it. -/
theorem txPostPaddr_sent {s : Session} (hready : s.sfc.Ready) (pk : Peek) (hpos : 0 < pk.len)
    (hle : pk.len ≤ txBufferSize) :
    (txPostPaddr s pk.paddr pk.len).2.dev.txDescRing s.sfc.txHead = descWord pk.paddr pk.len ∧
      s.sfc.txHead ≠ (txPostPaddr s pk.paddr pk.len).2.sfc.txHead := by
  rw [txPostPaddr_of_ready hready hpos hle]
  refine ⟨Function.update_self .., ?_⟩
  show s.sfc.txHead ≠ txNext s.sfc.txHead
  rw [txNext, numTxDesc, land_ringMask]
  omega

/-- The post of the frame and, with `SFC_PAIR_TX`, that of the companion, which takes the
next descriptor. -/
theorem post_loops (hpc : u.pc = .post pk evs) (hready : u.session.sfc.Ready) :
    ∃ n v, Loops n u v ∧ Posted u v pk evs := by
  have hkept := postKept_txPostPaddr u.session pk.paddr pk.len
  have hsent := txPostPaddr_sent hready pk
  generalize hout : txPostPaddr u.session pk.paddr pk.len = out at hkept hsent
  by_cases hpair : out.1 = 0 ∧ u.pairTx = true
  · have hfirst : loopStep u =
        some { u.posted out (some u.session.sfc.rxHead) with pc := .pair evs } := by
      unfold loopStep
      simp only [hpc, hout, if_pos hpair]
    obtain ⟨v, hv, hsession, hreleased, hpair⟩ : ∃ v, loopStep u = some v ∧ v.session = out.2 ∧
        v.released = u.released ∧ v.pc = .pair evs :=
      ⟨_, hfirst, posted_session u out _, posted_released u out _, rfl⟩
    have hlast : loopStep v =
        some
          { v.posted (txPost v.session (pairFrame v.macAddr)) none with
            pc := .release evs } := by
      unfold loopStep
      rw [hpair]
    have hkept' := postKept_txPost v.session (pairFrame v.macAddr)
    rw [hsession] at hkept'
    refine ⟨2, _, Loops.step hv (Loops.step hlast rfl), rfl, ?_, ?_, ?_, ?_, ?_⟩
    · rw [posted_session, hsession]
      exact hkept'.ready (hkept.ready hready)
    · rw [posted_session, hsession, hkept'.rxHead, hkept.rxHead]
    · rw [posted_released, hreleased]
    · rw [posted_session, hsession, hkept'.rxBuffer, hkept.rxBuffer]
    · intro hpos hle
      obtain ⟨hdesc, hmoved⟩ := hsent hpos hle
      rw [posted_session, hsession, hkept'.others _ hmoved, hdesc]
  · have hfirst : loopStep u =
        some { u.posted out (some u.session.sfc.rxHead) with pc := .release evs } := by
      unfold loopStep
      simp only [hpc, hout, if_neg hpair]
    refine ⟨1, _, Loops.step hfirst rfl, rfl, ?_, ?_, ?_, ?_, ?_⟩
    · rw [posted_session]
      exact hkept.ready hready
    · rw [posted_session]
      exact hkept.rxHead
    · rw [posted_released]
    · rw [posted_session]
      exact hkept.rxBuffer
    · intro hpos hle
      rw [posted_session]
      exact (hsent hpos hle).1

variable {pk : Peek} {ev : Ev} {evs : List Ev} {s : EchoSys}

/-- The address of the frame in the slot. -/
theorem rxPeek_frame {s : Session} {rxBytes : Nat}
    (hpeek : rxPeek s rxBytes = (some pk, polledSession s)) :
    pk.paddr = s.sfc.rxBufferPaddr + BitVec.ofNat 64 pk.pktOff := by
  unfold rxPeek at hpeek
  split at hpeek
  · cases hpeek
  · cases hpeek
    show slotPa _ _ + _ = _
    rw [slotPa, BitVec.add_assoc, ← BitVec.ofNat_mul, ← BitVec.ofNat_add]

theorem loopStep_peek (hpc : s.pc = .events (ev :: evs)) (hrx : ev.type = .rx)
    (hpeek : rxPeek s.session ev.rxBytes = (some pk, polledSession s.session)) :
    loopStep s = some { s with session := polledSession s.session, pc := .check pk evs } := by
  unfold loopStep
  simp only [hpc, hrx, hpeek, ne_eq, not_true_eq_false, if_false]

/-- A frame that fails the checks is dropped and its slot released. -/
theorem dropped_pass (hready : s.session.sfc.Ready) (hplain : s.strict = false)
    (hpc : s.pc = .events (ev :: evs)) (hrx : ev.type = .rx)
    (hpeek : rxPeek s.session ev.rxBytes = (some pk, polledSession s.session))
    (hrefused : accepts false s.session.dev.rxBuffer pk.pktOff pk.len = false) :
    ∃ n t, Loops n s t ∧ EchoPass s t ev evs pk := by
  obtain ⟨touched, hruns, hinside⟩ := echoFrame_runs s.session.dev.rxBuffer pk.pktOff pk.len []
  rw [List.append_nil, hrefused] at hruns
  have hcheck : loopStep { s with session := polledSession s.session, pc := .check pk evs } =
      some { s with session := polledSession s.session, pc := .release evs } := by
    unfold loopStep
    simp only [hplain, polledSession, hrefused]
    rfl
  refine ⟨3, _, Loops.step (loopStep_peek hpc hrx hpeek)
    (Loops.step hcheck (release_loops rfl { hready with })),
    hpeek, rxPeek_frame hpeek, rfl, rfl, rfl, ?_, ?_, ?_, ?_⟩
  · rw [hrefused]
    exact ⟨touched, hruns, hinside⟩
  · intro _
    exact ⟨rfl, rfl⟩
  · intro hyes
    rw [hrefused] at hyes
    cases hyes
  · intro hyes
    rw [hrefused] at hyes
    cases hyes

/-- A frame that passes them is rewritten in place and posted. -/
theorem echoed_pass (hready : s.session.sfc.Ready) (hplain : s.strict = false)
    (hpc : s.pc = .events (ev :: evs)) (hrx : ev.type = .rx)
    (hpeek : rxPeek s.session ev.rxBytes = (some pk, polledSession s.session))
    (haccepts : accepts false s.session.dev.rxBuffer pk.pktOff pk.len = true) :
    ∃ n t, Loops n s t ∧ EchoPass s t ev evs pk := by
  obtain ⟨touched, hruns, hinside⟩ := echoFrame_runs s.session.dev.rxBuffer pk.pktOff pk.len []
  rw [List.append_nil, haccepts] at hruns
  obtain ⟨hmin, -, hhlen, -, hfits⟩ := accepts_iff.mp haccepts
  have hcheck : loopStep { s with session := polledSession s.session, pc := .check pk evs } =
      some (s.rewritten pk evs) := by
    have hyes : accepts s.strict s.session.dev.rxBuffer pk.pktOff pk.len = true := by
      rw [hplain]
      exact haccepts
    unfold loopStep
    simp only [polledSession, hyes, if_true]
    rfl
  obtain ⟨n, v, hloops, hposted⟩ := post_loops (u := s.rewritten pk evs) rfl { hready with }
  have hrxBuffer : v.session.dev.rxBuffer = rewrite false s.session.dev.rxBuffer pk.pktOff := by
    rw [hposted.rxBuffer, ← hplain]
    rfl
  have hechoed : Echoed s.session.dev.rxBuffer v.session.dev.rxBuffer pk.pktOff := by
    rw [hrxBuffer]
    exact rewrite_echoed hhlen
  refine ⟨_, _, Loops.step (loopStep_peek hpc hrx hpeek) (Loops.step hcheck
    (hloops.trans (release_loops hposted.pc hposted.ready))),
    hpeek, rxPeek_frame hpeek, rfl, ?_, ?_, ?_, ?_, ?_, ?_⟩
  · exact congrArg (· + 1) hposted.released
  · exact congrArg (fun head => (head + 1) % numRxDesc) hposted.rxHead
  · rw [haccepts]
    refine ⟨touched, ?_, hinside⟩
    rw [hruns, ← hrxBuffer]
    rfl
  · intro hno
    rw [haccepts] at hno
    cases hno
  · intro _
    exact ⟨hechoed, fun hle => hposted.sent (Nat.lt_of_lt_of_le (by decide) hmin) hle⟩
  · -- the peer's echo of the echo: accepted again, and the first frame but for its checksums
    intro _ mem pkt hsame
    have hagain : accepts false mem pkt pk.len = true := by
      rw [hsame.accepts_eq]
      exact (hechoed.accepts_eq hhlen pk.len).trans haccepts
    refine ⟨hagain, fun i hi hcksum => ?_⟩
    obtain ⟨-, -, hhlen', -, -⟩ := accepts_iff.mp hagain
    exact hechoed.twice hsame (rewrite_echoed hhlen') hhlen
      (Nat.le_of_add_right_le hfits) hi hcksum

/-- **Echo.**  Every pass of the plain loop over a receive event does what `EchoPass` says,
whatever the frame holds and whatever length the card reports for it. -/
theorem echo_body_correct (s : EchoSys) (ev : Ev) (evs : List Ev)
    (hready : s.session.sfc.Ready) (hplain : s.strict = false) (hpc : s.pc = .events (ev :: evs))
    (hrx : ev.type = .rx) : ∃ n t pk, Loops n s t ∧ EchoPass s t ev evs pk := by
  obtain ⟨pk, hpeek, -⟩ := rxPeek_of_ready hready ev.rxBytes
  cases haccepts : accepts false s.session.dev.rxBuffer pk.pktOff pk.len with
  | false =>
    obtain ⟨n, t, hpass⟩ := dropped_pass hready hplain hpc hrx hpeek haccepts
    exact ⟨n, t, pk, hpass⟩
  | true =>
    obtain ⟨n, t, hpass⟩ := echoed_pass hready hplain hpc hrx hpeek haccepts
    exact ⟨n, t, pk, hpass⟩

end Pass

/-- The loop has polled the event of a frame of 60 bytes. -/
def udpFramePolled : EchoSys :=
  { echoAfterInit none with
    session :=
      { (echoAfterInit none).session with
        dev := { (echoAfterInit none).session.dev with rxBuffer := udpFrames } }
    pc := .events [decodeEvent 0x4a#64] }

theorem echo_body_correct_udp :
    accepts false udpFramePolled.session.dev.rxBuffer 14 60 = true ∧
      ∃ n t pk, Loops n udpFramePolled t ∧
        EchoPass udpFramePolled t (decodeEvent 0x4a#64) [] pk := by
  refine ⟨by decide, echo_body_correct _ _ _ ?_ rfl rfl rfl⟩
  exact ⟨rfl, rfl, rfl, rfl, rfl, rfl, rfl⟩

end Echo
end SfcCapio
