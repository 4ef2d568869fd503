import SfcCapio.Pmd.RxAttribution

/-!
# Which windows attribute frames correctly

Attach advertises 511 slots.  A tail post within that grant rewrites a slot the
card may already have read, or filled.  `rx_attribution_iff` concludes that the
driver attributes every frame to the buffer the card used exactly when the window
is 511.  With that window empty frames do no harm either, as long as no post is
refused.
-/

namespace SfcCapio
namespace Pmd

open Hardware Userlib Kernel Handover Foundation

/-! ## Smaller windows

The card fills the slots `0, ..., W` before the first poll, all through identity
descriptors.  The driver then serves one event per call.  Its first tail post goes
to slot `W`, within the grant of attach, and the frame in slot `W` is taken for a
frame in the mbuf posted there. -/

/-- A receive event of 74 bytes. -/
abbrev frameEvent : BitVec 64 := 0x4a#64

/-- The driver with memory the card has written. -/
def Internals.written (pi : Internals) (evq : Nat → BitVec 64) (buf : Nat → BitVec 8) :
    Internals :=
  { pi with
    session :=
      { pi.session with dev := { pi.session.dev with evqRing := evq, rxBuffer := buf } } }

/-- `j` fills, and nothing else yet. -/
structure Filling (geom : Geometry) (W : Nat) (pi : Internals) (j : Nat) (s : AttrSys) :
    Prop where
  driver : ∃ evq buf, s.pi = pi.written evq buf
  ring : ∀ i, i < 512 →
    descAddr (pi.session.dev.rxDescRing i) = geom.rxBufferPaddr.toNat + i * 2048
  doorbell : s.doorbell = 511
  owner : s.owner = fun _ => .pool
  fillPos : s.fillPos = j
  fetched : s.fetched = fun _ => none
  batch : s.batch = none
  attributed : s.attributed = []
  length : s.used.length = j
  used : ∀ i, i < j → ∃ desc, s.used[i]? = some desc ∧
    descAddr desc = geom.rxBufferPaddr.toNat + i * 2048
  pending : EvqPending s.pi.session s.evqWptr (List.replicate j frameEvent)

variable {geom : Geometry} {W k : Nat}

/-- The card may fill up to the grant of attach. -/
theorem Filling.progress {pi : Internals} (hlt : W < 511) (j : Nat) (s : AttrSys) (hj : j < W + 1)
    (hst : Filling geom W pi j s) :
    ∃ labels s', exec (restrict attrStep AttrLabel.NonEmpty) s labels = some s' ∧
      Filling geom W pi (j + 1) s' := by
  have hguard : IsRxEvent frameEvent ∧ s.fillPos ≠ s.doorbell := by
    refine ⟨by decide, ?_⟩
    rw [hst.fillPos, hst.doorbell]
    omega
  obtain ⟨evq, buf, hdriver⟩ := hst.driver
  have hnext : descAddr s.nextDesc = geom.rxBufferPaddr.toNat + j * 2048 := by
    simp only [AttrSys.nextDesc, hst.fetched, hst.fillPos, Option.getD_none, AttrSys.ring,
      hdriver]
    exact hst.ring j (by omega)
  -- one fill, with an event that announces a frame
  refine ⟨[.fill frameEvent fun _ => 0#8], s.filled frameEvent fun _ => 0#8, ?_, ?_⟩
  · have hgood : AttrLabel.NonEmpty (.fill frameEvent fun _ => 0#8) := by
      change eventLen (evRxBytes frameEvent) ≠ 0
      decide
    simp only [exec, restrict, attrStep, if_pos hgood, if_pos hguard]
  · refine
      { driver := ?_
        ring := hst.ring
        doorbell := hst.doorbell
        owner := hst.owner
        fillPos := ?_
        fetched := ?_
        batch := hst.batch
        attributed := hst.attributed
        length := ?_
        used := ?_
        pending := ?_ }
    · refine ⟨Function.update s.pi.session.dev.evqRing s.evqWptr frameEvent,
        dmaFill s.pi.session.sfc.rxBufferPaddr s.pi.session.dev.rxBuffer s.nextDesc
          fun _ => 0#8, ?_⟩
      change s.pi.written _ _ = _
      rw [hdriver]
      rfl
    · simp only [AttrSys.filled, hst.fillPos, numRxDesc]
      omega
    · simp only [AttrSys.filled, hst.fetched]
      funext slot
      simp [Function.update_apply]
    · simp [AttrSys.filled, hst.length]
    · intro i hi
      by_cases hlast : i = j
      · -- the descriptor fetched now is that of slot `j`
        subst i
        refine ⟨s.nextDesc, ?_, hnext⟩
        simp only [AttrSys.filled]
        rw [← hst.length, List.getElem?_concat_length]
      · obtain ⟨desc, hdesc, haddr⟩ := hst.used i (by omega)
        exact ⟨desc, getElem?_concat_of_some hdesc, haddr⟩
    · have hroom : (List.replicate j frameEvent).length < 512 := by
        rw [List.length_replicate]
        omega
      have hwrite := hst.pending.write (show ¬ slotVacant frameEvent by decide) hroom
      rw [List.replicate_succ']
      exact { hwrite with }

/-- `k` events served, one per call. -/
structure Serving (geom : Geometry) (W k : Nat) (s : AttrSys) : Prop where
  ready : s.pi.session.sfc.Ready
  rxHead : s.pi.session.sfc.rxHead = k
  window : s.pi.session.sfc.rxWindow = W
  fit : ∀ y, Postable s.pi.ops (s.pi.ops.reset (s.pi.mbufs y))
  zeroCopy : s.pi.rxCopy = false
  stash : s.pi.rxq.stash = []
  pool : ∀ m, 2 * k ≤ m → s.owner m = .pool
  batch : s.batch = none
  length : s.attributed.length = k
  used : ∃ desc, s.used[W]? = some desc ∧
    descAddr desc = geom.rxBufferPaddr.toNat + W * 2048
  outside : ∀ m, (s.pi.ops.dataIovaDefault (s.pi.mbufs m)).toNat ≠
    geom.rxBufferPaddr.toNat + W * 2048
  library : ∀ j, k ≤ j → j < W → s.pi.session.sfc.rxExtCookie j = none
  posted : 1 ≤ k → s.pi.session.sfc.rxExtCookie W = some 1
  pending : EvqPending s.pi.session s.evqWptr (List.replicate (W + 1 - k) frameEvent)

/-- The state in which the event just polled is handled. -/
def AttrSys.polled (s : AttrSys) (session : Session) : AttrSys :=
  { s with
    pi := { s.pi with session := session }
    batch := some [decodeEvent frameEvent] }

/-- The state after that event. -/
def AttrSys.handled (s : AttrSys) (out : RxOutcome) : AttrSys :=
  { s with
    pi := out.pi
    owner := settleAll s.owner out.acts
    batch := some []
    attributed := s.attributed ++ [s.pi.attributed] }

/-- The state at the end of the call. -/
def AttrSys.flushed (s : AttrSys) : AttrSys :=
  { s with pi := { s.pi with session := rxFlush s.pi.session }, batch := none }

variable {s : AttrSys}

theorem Serving.call (hst : Serving geom W k s) (hk : k ≤ W) :
    ∃ session, attrStep s (.call 1) = some (s.polled session) ∧
      EvqPending session s.evqWptr (List.replicate (W - k) frameEvent) ∧
      session.sfc.rxHead = k ∧ session.sfc.rxWindow = W ∧
      session.sfc.rxExtCookie = s.pi.session.sfc.rxExtCookie := by
  obtain ⟨taken, rest, used, readPtr, evq, dbl, hsplit, hlen, hpoll, hrest⟩ :=
    hst.pending.poll 1
  have hcount : W + 1 - k = W - k + 1 := by omega
  rw [hcount, List.replicate_succ] at hsplit
  rw [List.length_replicate] at hlen
  obtain ⟨rfl, rfl⟩ : taken = [frameEvent] ∧ rest = List.replicate (W - k) frameEvent := by
    match taken, hlen with
    | [w], _ =>
      rw [List.singleton_append, List.cons.injEq] at hsplit
      exact ⟨by rw [← hsplit.1], hsplit.2.symm⟩
    | [], hlen => simp at hlen; omega
    | _ :: _ :: _, hlen => simp at hlen; omega
  refine ⟨_, ?_, hrest, hst.rxHead, hst.window, rfl⟩
  simp only [attrStep, hst.batch, AttrSys.polled]
  rw [show ((min 1 capioMaxBurst : Nat) : Int) = ((1 : Nat) : Int) from rfl, hpoll]
  rfl

/-- The event polled, with two fresh mbufs, is an enabled step. -/
theorem Serving.event (hst : Serving geom W k s) (session : Session) :
    attrStep (s.polled session) (.event (.one (some (2 * k))) (.one (some (2 * k + 1)))) =
      some ((s.polled session).handled (rxEvent (s.polled session).pi 74
        (.one (some (2 * k))) (.one (some (2 * k + 1))))) := by
  have hanswers : poolAnswers s.owner [] (.one (some (2 * k))) (.one (some (2 * k + 1))) =
      true :=
    poolAnswers_ones (hst.pool _ (by omega)) (hst.pool _ (by omega)) (by omega)
  have hguard : (poolAnswers s.owner s.pi.rxq.stash (.one (some (2 * k)))
      (.one (some (2 * k + 1))) &&
      allocates s.pi.rxq.stash (.one (some (2 * k))) (.one (some (2 * k + 1)))) = true := by
    rw [hst.stash, hanswers]
    rfl
  have hev : decodeEvent frameEvent =
      { type := .rx, txDescIdx := 0, rxBytes := 74, raw := frameEvent } := by decide
  simp only [attrStep, AttrSys.polled, hev, pmdEvent, if_true, ite_self]
  rw [if_pos hguard]
  rfl

/-- In the first window slot `k` is a library slot: the event copies the frame into the
first mbuf, delivers it, and posts the second. -/
theorem Serving.turn (hst : Serving geom W k s) (hlt : W < 511) (hk : k < W) {session : Session}
    (hready : session.sfc.Ready) (hhead : session.sfc.rxHead = k)
    (hcookies : session.sfc.rxExtCookie = s.pi.session.sfc.rxExtCookie) :
    RxEffect (s.polled session).pi
      (rxEvent (s.polled session).pi 74 (.one (some (2 * k))) (.one (some (2 * k + 1))))
      (takenOnes (some (2 * k)) (some (2 * k + 1)) true) (.post (2 * k + 1))
      [.post (2 * k + 1), .deliver (2 * k)] := by
  have hempty : (s.polled session).pi.cookieAt 0 = none := by
    rw [Internals.cookieAt_zero (by change session.sfc.rxHead < 512; omega)]
    change session.sfc.rxExtCookie session.sfc.rxHead = none
    rw [hhead, hcookies]
    exact hst.library k (Nat.le_refl k) hk
  obtain ⟨second, back, acts, used, hline, heff⟩ :=
    rxEvent_ones (s.polled session).pi (some (2 * k)) (some (2 * k + 1)) 74 hready
      (by change session.sfc.rxHead < 512; omega) hst.fit hst.stash
      (by
        intro c hc
        rw [hempty] at hc
        cases hc)
      (by simp)
  rw [hempty, show (s.polled session).pi.rxCopy = false from hst.zeroCopy] at hline
  obtain ⟨rfl, rfl, rfl⟩ := hline.of_library (frameLen_ne_zero (by decide) _ _)
  exact heff

/-- After the flush that ends the call, one more event has been served. -/
theorem Serving.next (hst : Serving geom W k s) (hlt : W < 511) (hk : k < W) {session : Session}
    {out : RxOutcome} (hpending : EvqPending session s.evqWptr (List.replicate (W - k) frameEvent))
    (hhead : session.sfc.rxHead = k) (hwindow : session.sfc.rxWindow = W)
    (hcookies : session.sfc.rxExtCookie = s.pi.session.sfc.rxExtCookie)
    (heff : RxEffect (s.polled session).pi out
      (takenOnes (some (2 * k)) (some (2 * k + 1)) true) (.post (2 * k + 1))
      [.post (2 * k + 1), .deliver (2 * k)]) :
    Serving geom W (k + 1) ((s.polled session).handled out).flushed := by
  have hready := hpending.ready
  have hadv := heff.advanced hready
  have hflush := rxFlush_of_ready hadv.ready
  obtain ⟨len, hsession⟩ := heff.session
  have hcookie : out.pi.session.sfc.rxExtCookie =
      Function.update s.pi.session.sfc.rxExtCookie ((k + W) % 512) (some (2 * k + 1)) := by
    rw [hsession, ← hcookies, ← hhead, ← hwindow]
    rfl
  refine
    { ready := ?_
      rxHead := ?_
      window := ?_
      fit := heff.carries.fit hst.fit
      zeroCopy := hadv.rxCopy.trans hst.zeroCopy
      stash := heff.carries.stash
      pool := ?_
      batch := rfl
      length := ?_
      used := hst.used
      outside := ?_
      library := ?_
      posted := ?_
      pending := ?_ }
  · change (rxFlush out.pi.session).sfc.Ready
    rw [hflush]
    exact hadv.ready
  · change (rxFlush out.pi.session).sfc.rxHead = k + 1
    rw [hflush, hadv.rxHead]
    change (session.sfc.rxHead + 1) % 512 = k + 1
    omega
  · change (rxFlush out.pi.session).sfc.rxWindow = W
    rw [hflush, hadv.rxWindow]
    exact hwindow
  · intro m hm
    have hnotAlloc : m ∉ (takenOnes (some (2 * k)) (some (2 * k + 1)) true).allocs := by
      simp only [takenOnes, Option.toList_some, List.mem_append, List.mem_singleton]
      omega
    change settleAll s.owner out.acts m = .pool
    rw [heff.owner_of_deliver, if_neg (by omega), if_neg hnotAlloc]
    exact hst.pool m (by omega)
  · simp [AttrSys.flushed, AttrSys.handled, AttrSys.polled, hst.length]
  · intro m
    change (out.pi.ops.dataIovaDefault (out.pi.mbufs m)).toNat ≠ _
    rw [heff.carries.dataIovaDefault]
    exact hst.outside m
  · -- the post goes to slot `k + W`, behind the slots still to be served
    intro j hj hlow
    change (rxFlush out.pi.session).sfc.rxExtCookie j = none
    rw [hflush, hcookie, Function.update_of_ne (by omega)]
    exact hst.library j (by omega) hlow
  · -- the first event posts to slot `W`, and no later one of the window does
    intro _
    change (rxFlush out.pi.session).sfc.rxExtCookie W = some 1
    rw [hflush, hcookie]
    by_cases hzero : k = 0
    · rw [hzero, Nat.zero_add, Nat.mod_eq_of_lt (by omega), Function.update_self]
    · rw [Function.update_of_ne (by omega)]
      exact hst.posted (by omega)
  · have hcount : W + 1 - (k + 1) = W - k := by omega
    rw [hcount]
    change EvqPending (rxFlush out.pi.session) s.evqWptr _
    rw [hflush, hsession]
    exact { hpending with ready := { hready with } }

/-- The events of the first window come from library slots. -/
theorem Serving.progress (hlt : W < 511) (k : Nat) (s : AttrSys) (hk : k < W)
    (hst : Serving geom W k s) :
    ∃ labels s', exec (restrict attrStep AttrLabel.NonEmpty) s labels = some s' ∧
      Serving geom W (k + 1) s' := by
  obtain ⟨session, hcall, hpending, hhead, hwindow, hcookies⟩ := hst.call (by omega)
  have heff := hst.turn hlt hk hpending.ready hhead hcookies
  have hevent := hst.event session
  generalize rxEvent (s.polled session).pi 74 (.one (some (2 * k)))
    (.one (some (2 * k + 1))) = out at heff hevent
  refine ⟨[.call 1, .event (.one (some (2 * k))) (.one (some (2 * k + 1))), .flush],
    ((s.polled session).handled out).flushed, ?_, ?_⟩
  · have hend : attrStep ((s.polled session).handled out) .flush =
        some ((s.polled session).handled out).flushed := rfl
    rw [exec_cons_of_some ((restrict_of_good trivial).trans hcall),
      exec_cons_of_some ((restrict_of_good trivial).trans hevent),
      exec_cons_of_some ((restrict_of_good trivial).trans hend), exec_nil]
  · exact hst.next hlt hk hpending hhead hwindow hcookies heff

section Main

variable {geom : Geometry} {sc : Softc} {rxWindow : Option (BitVec 32)} {ops : MbufOps}
variable {mbufs : Nat → RteMbuf}

theorem filling_attrStart (hsc : Attached geom sc) (W : Nat) :
    Filling geom W (ethDevCapioCreate sc rxWindow false ops mbufs) 0
      (attrStart sc rxWindow ops mbufs) where
  driver := ⟨sc.dev.evqRing, sc.dev.rxBuffer, rfl⟩
  ring := fun _ hi => hsc.descAddr_ring hi
  doorbell := by
    change sc.dev.rxDescDbl % 512 = 511
    rw [hsc.doorbell]
  owner := rfl
  fillPos := hsc.rxHead
  fetched := rfl
  batch := rfl
  attributed := rfl
  length := rfl
  used := by
    intro i hi
    omega
  pending := hsc.evqPending

/-- When the card has filled `W + 1` slots the driver can begin to serve them. -/
theorem Filling.serving {s : AttrSys} (hsc : Attached geom sc)
    (hpool : PoolFits geom ops mbufs) (hlt : initRxWindow rxWindow < 512)
    (hst : Filling geom (initRxWindow rxWindow)
      (ethDevCapioCreate sc rxWindow false ops mbufs) (initRxWindow rxWindow + 1) s) :
    Serving geom (initRxWindow rxWindow) 0 s := by
  obtain ⟨evq, buf, hdriver⟩ := hst.driver
  refine
    { ready := hst.pending.ready
      rxHead := ?_
      window := ?_
      fit := ?_
      zeroCopy := ?_
      stash := ?_
      pool := ?_
      batch := hst.batch
      length := ?_
      used := hst.used _ (by omega)
      outside := ?_
      library := ?_
      posted := by omega
      pending := hst.pending }
  · rw [hdriver]
    exact hsc.rxHead
  · rw [hdriver]
    rfl
  · rw [hdriver]
    exact hpool.postable
  · rw [hdriver]
    rfl
  · rw [hdriver]
    rfl
  · intro m _
    rw [hst.owner]
  · rw [hst.attributed]
    rfl
  · rw [hdriver]
    exact fun m => hpool.outside m _ hlt
  · rw [hdriver]
    exact fun _ _ _ => rfl

/-- With a window below 511 some run attributes a frame to the wrong buffer. -/
theorem exists_misattributed_run (hsc : Attached geom sc)
    (hpool : PoolFits geom ops mbufs) (hwindow : initRxWindow rxWindow ≠ 511) :
    ∃ (labels : List AttrLabel) (t : AttrSys) (k : Nat) (a desc : BitVec 64),
      (∀ l ∈ labels, l.NonEmpty) ∧
      exec attrStep (attrStart sc rxWindow ops mbufs) labels = some t ∧
      t.attributed[k]? = some a ∧ t.used[k]? = some desc ∧ descAddr desc ≠ a.toNat := by
  obtain ⟨hW, hlt⟩ := initRxWindow_range rxWindow
  obtain ⟨fills, s, hfills, hfilling⟩ := exists_exec_of_progress
    (Filling.progress (show initRxWindow rxWindow < 511 by omega))
    (filling_attrStart hsc (initRxWindow rxWindow))
  obtain ⟨calls, u, hcalls, hst⟩ := exists_exec_of_progress
    (Serving.progress (show initRxWindow rxWindow < 511 by omega))
    (hfilling.serving hsc hpool hlt)
  obtain ⟨session, hcall, -, hhead, -, hcookies⟩ := hst.call (Nat.le_refl _)
  obtain ⟨desc, hdesc, haddr⟩ := hst.used
  -- the cookie in slot `W` is the first mbuf posted
  have hattr : (u.polled session).pi.attributed = u.pi.ops.dataIovaDefault (u.pi.mbufs 1) := by
    have hcookie : session.sfc.rxExtCookie session.sfc.rxHead = some 1 := by
      rw [hhead, hcookies]
      exact hst.posted hW
    simp only [Internals.attributed, AttrSys.polled, hcookie]
  have hrun := exec_append hfills (exec_append hcalls
    ((exec_cons_of_some ((restrict_of_good trivial).trans hcall) _).trans
      ((exec_cons_of_some ((restrict_of_good trivial).trans (hst.event session)) []).trans
        (exec_nil _ _))))
  obtain ⟨hgood, hrun⟩ := exec_restrict_iff.mp hrun
  refine ⟨_, _, initRxWindow rxWindow, (u.polled session).pi.attributed, desc, hgood, hrun, ?_,
    hdesc, ?_⟩
  · have hlen : (u.polled session).attributed.length = initRxWindow rxWindow := hst.length
    simp only [AttrSys.handled]
    rw [← hlen, List.getElem?_concat_length]
  · rw [haddr, hattr]
    exact (hst.outside 1).symm

/-- The driver attributes every frame to the buffer the card used, and never
rewrites a covered slot, exactly when the window is 511.  With that window it does so
for empty frames as well, in every run in which no post is refused. -/
theorem rx_attribution_iff (hsc : Attached geom sc) (hpool : PoolFits geom ops mbufs) :
    ((∀ labels t, (∀ l ∈ labels, l.NonEmpty) →
        exec attrStep (attrStart sc rxWindow ops mbufs) labels = some t → Attributes t) ↔
      initRxWindow rxWindow = 511) ∧
    (initRxWindow rxWindow = 511 →
      ∀ labels t, Obeys attrStep PostsAccepted (attrStart sc rxWindow ops mbufs) labels →
        exec attrStep (attrStart sc rxWindow ops mbufs) labels = some t → Attributes t) := by
  refine ⟨⟨?_, ?_⟩, ?_⟩
  · intro hall
    by_contra hwindow
    obtain ⟨labels, t, k, a, desc, hgood, hrun, hk, hdesc, hne⟩ :=
      exists_misattributed_run hsc hpool hwindow
    obtain ⟨desc', hdesc', haddr⟩ := (hall labels t hgood hrun).named k a hk
    rw [hdesc] at hdesc'
    cases hdesc'
    exact hne haddr
  · intro hwindow labels t hgood hrun
    have hpres : ∀ s a s', AttrInv geom True s →
        restrict attrStep AttrLabel.NonEmpty s a = some s' → AttrInv geom True s' := by
      intro s a s' hinv hstep
      unfold restrict at hstep
      split at hstep
      · rename_i ha
        exact attrInv_step hinv (fun _ => ha) (fun hno => absurd trivial hno) hstep
      · cases hstep
    exact (exec_invariant hpres (attrInv_attrStart hsc hpool hwindow True)
      (exec_restrict_iff.mpr ⟨hgood, hrun⟩)).attributes
  · intro hwindow labels t hobeys hrun
    exact (exec_invariant_of_obeys
      (fun s a s' hinv hfits hstep => attrInv_step hinv False.elim (fun _ => hfits) hstep)
      (attrInv_attrStart hsc hpool hwindow False) hobeys hrun).attributes

end Main

theorem attached_afterAttach : Attached sampleGeometry rxIoctlAfterAttach.sc where
  base := rfl
  posted := ⟨allocDmaResources, rfl⟩
  rxHead := rfl
  readPtrLt := by decide
  vacant := fun _ _ => Or.inl rfl

theorem poolFits_samplePool : PoolFits sampleGeometry sampleOps samplePool where
  postable := postable_samplePool
  addressLt := by
    intro m
    rw [samplePool_iova]
    omega
  outside := by
    intro m i hi
    have hbase : sampleGeometry.rxBufferPaddr.toNat = 0x100000 := rfl
    rw [samplePool_iova, hbase]
    omega

/-- A driver with the largest window. -/
def attrStart511 : AttrSys :=
  attrStart rxIoctlAfterAttach.sc (some 511#32) sampleOps samplePool

/-- The card delivers a prefix without a frame. -/
def prefixOnly : List AttrLabel :=
  [.fill 0xe#64 fun _ => 0#8, .call 1, .event (.one (some 0)) (.one (some 1)), .flush]

theorem obeys_prefixOnly : Obeys attrStep PostsAccepted attrStart511 prefixOnly := by
  refine ⟨trivial, trivial, ?_, ?_⟩
  · intro ev _
    exact eventFits_of_postable _ _ _ postable_samplePool (fun y hy => absurd hy List.not_mem_nil)
      (fun c hc => absurd (show none = some c from hc) (by simp))
      (fun m h₁ h₂ => absurd
        ((show some 0 = some m from h₁).trans (show some 1 = some m from h₂).symm) (by simp))
  · split
    · trivial
    · refine ⟨trivial, ?_⟩
      split <;> trivial

/-- The largest window attributes every frame correctly. -/
theorem rx_attribution_window_511 :
    initRxWindow (some 511#32) = 511 ∧
      (∀ labels t, (∀ l ∈ labels, l.NonEmpty) → exec attrStep attrStart511 labels = some t →
        Attributes t) ∧
      ∃ t, exec attrStep attrStart511 prefixOnly = some t ∧ t.attributed.length = 1 ∧
        Attributes t := by
  obtain ⟨hiff, hempty⟩ :=
    rx_attribution_iff attached_afterAttach poolFits_samplePool
  obtain ⟨t, hrun, hlen⟩ := Option.map_eq_some_iff.mp
    (show (exec attrStep attrStart511 prefixOnly).map (·.attributed.length) = some 1 by
      decide +kernel)
  exact ⟨by decide, hiff.mpr (by decide), t, hrun, hlen,
    hempty (by decide) _ t obeys_prefixOnly hrun⟩

/-- The default window of 64 does not: the frame in slot 64 is taken for a frame in
the mbuf posted there after it was filled. -/
theorem rx_default_window_misattributes :
    ∃ (labels : List AttrLabel) (t : AttrSys) (k : Nat) (a desc : BitVec 64),
      (∀ l ∈ labels, l.NonEmpty) ∧
      exec attrStep (attrStart rxIoctlAfterAttach.sc none sampleOps samplePool) labels = some t ∧
      t.attributed[k]? = some a ∧ t.used[k]? = some desc ∧ descAddr desc ≠ a.toNat :=
  exists_misattributed_run attached_afterAttach poolFits_samplePool (by decide)

end Pmd
end SfcCapio
