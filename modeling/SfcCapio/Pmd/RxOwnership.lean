import SfcCapio.Foundation.Runs
import SfcCapio.Pmd.LiveCookies

/-!
# Who owns a receive buffer

`rx_ext_cookie[]` is never cleared.  A cookie whose mbuf has been delivered or
freed is harmless only if a tail post overwrites it before `rx_head` comes back
to its slot, and the posts come `rx_window` slots ahead of the head while some
branches of `eth_capio_rx` advance the head without a post.

`RxOwnSys` runs receive events with arbitrary lengths and arbitrary answers of
the pool.  `rx_mbuf_ownership_iff` settles for which windows no event ever uses a
cookie the driver has given away.
-/

namespace SfcCapio
namespace Pmd

open Hardware Userlib Kernel Handover Foundation

/-! ## The system -/

/-- The driver with the owners of all mbufs. -/
structure RxOwnSys where
  pi : Internals
  owner : Nat → Owner

/-- One receive event, the two ends of an `eth_capio_rx` call, the caller using
or returning an mbuf it owns, and the card writing the RX buffer. -/
inductive RxOwnLabel
  | event (rxBytes : Nat) (reply₁ reply₂ : PoolReply)
  | poll (nbBufs : Nat)
  | flush
  | appUse (m : Nat) (mb : RteMbuf)
  | appFree (m : Nat)
  | card (buf : Nat → BitVec 8)

/-- The pool's answers to an event are possible in the state. -/
def RxOwnSys.answers (s : RxOwnSys) (reply₁ reply₂ : PoolReply) : Bool :=
  poolAnswers s.owner s.pi.rxq.stash reply₁ reply₂

/-- The step function. -/
def rxOwnStep (s : RxOwnSys) : RxOwnLabel → Option RxOwnSys
  | .event rxBytes reply₁ reply₂ =>
    if s.answers reply₁ reply₂ then
      let out := rxEvent s.pi rxBytes reply₁ reply₂
      some { pi := out.pi, owner := settleAll s.owner out.acts }
    else none
  | .poll nbBufs =>
    some { s with
      pi := { s.pi with
        session := (poll s.pi.session (min nbBufs capioMaxBurst : Nat)).2 } }
  | .flush => some { s with pi := { s.pi with session := rxFlush s.pi.session } }
  | .appUse m mb =>
    if s.owner m = .app ∧ mb.bufIova = (s.pi.mbufs m).bufIova ∧
        mb.bufLen = (s.pi.mbufs m).bufLen then
      some { s with pi := { s.pi with mbufs := Function.update s.pi.mbufs m mb } }
    else none
  | .appFree m =>
    if s.owner m = .app then some { s with owner := Function.update s.owner m .pool }
    else none
  | .card buf =>
    some { s with
      pi := { s.pi with
        session := { s.pi.session with
          dev := { s.pi.session.dev with rxBuffer := buf } } } }

/-- The driver after probe, with every mbuf in the pool. -/
def rxOwnStart (sc : Softc) (rxWindow : Option (BitVec 32)) (rxCopy : Bool)
    (ops : MbufOps) (mbufs : Nat → RteMbuf) : RxOwnSys where
  pi := ethDevCapioCreate sc rxWindow rxCopy ops mbufs
  owner := fun _ => .pool

/-- The cookie an event delivers, frees or posts again is an mbuf that belongs to
the driver: since it was last delivered or freed it has come from the pool. -/
def Exclusive (s : RxOwnSys) : Prop :=
  ∀ rxBytes reply₁ reply₂ m, s.answers reply₁ reply₂ = true →
    (rxEvent s.pi rxBytes reply₁ reply₂).used = some m → s.owner m = .pmd

variable {W rxBytes : Nat} {pi : Internals}

/-- Under the invariant every cookie used belongs to the driver. -/
theorem LiveInv.exclusive {s : RxOwnSys} (hinv : LiveInv W s.pi s.owner) (hW : 0 < W) :
    Exclusive s := by
  intro rxBytes reply₁ reply₂ m hanswers hused
  obtain ⟨second, back, acts, used, hturn⟩ := hinv.turn hW hanswers rxBytes
  rw [hturn.used] at hused
  exact (hinv.live 0 m hW (hturn.line.used_eq hused)).1

/-! ## Windows for which no stale cookie comes back -/

/-- No cookie enters the window stale.  In copy mode there are none.  Otherwise,
when the window divides the ring, the slots fall into classes a window apart, and
a class that has not been posted to yet is empty throughout. -/
def NoneStale (W : Nat) (pi : Internals) : Prop :=
  (pi.rxCopy = true ∧ ∀ d, pi.cookieAt d = none) ∨
    (pi.rxCopy = false ∧ W ∣ 512 ∧
      ∀ d, d < W → pi.cookieAt d = none → ∀ k, pi.cookieAt (d + k * W) = none)

theorem NoneStale.withSession (hnone : NoneStale W pi) {session : Session}
    (hhead : session.sfc.rxHead = pi.session.sfc.rxHead)
    (hcookies : session.sfc.rxExtCookie = pi.session.sfc.rxExtCookie) :
    NoneStale W { pi with session := session } := by
  have hcookieAt : ∀ d, Internals.cookieAt { pi with session := session } d = pi.cookieAt d := by
    intro d
    simp only [Internals.cookieAt, hhead, hcookies]
  simp only [NoneStale, hcookieAt]
  exact hnone

/-- A slot that is released lets only an empty slot into the window. -/
theorem NoneStale.entering {reply₁ reply₂ : PoolReply} {second : Bool} {acts : List MbufAct}
    {used : Option Nat} (hnone : NoneStale W pi) (hW : 0 < W)
    (hturn : EventTurn pi rxBytes reply₁ reply₂ second .release acts used) :
    pi.cookieAt W = none := by
  rcases hnone with ⟨-, hall⟩ | ⟨hcopy, -, hclass⟩
  · exact hall W
  · have hhead := hturn.line.release_cookie rfl hcopy
    have hnext := hclass 0 hW hhead 1
    rwa [Nat.one_mul, Nat.zero_add] at hnext

theorem NoneStale.event {owner : Nat → Owner} {reply₁ reply₂ : PoolReply} {second : Bool}
    {back : GiveBack} {acts : List MbufAct} {used : Option Nat} (hnone : NoneStale W pi)
    (hinv : LiveInv W pi owner) (hlt : W < 512)
    (hturn : EventTurn pi rxBytes reply₁ reply₂ second back acts used) :
    NoneStale W (rxEvent pi rxBytes reply₁ reply₂).pi := by
  have hcopyEq := hturn.effect.carries.rxCopy
  rcases hnone with ⟨hcopy, hall⟩ | ⟨hcopy, hdvd, hclass⟩
  · refine Or.inl ⟨hcopyEq.trans hcopy, ?_⟩
    intro d
    cases back with
    | release => rw [hturn.effect.cookieAt_release, hall]
    | post p =>
      -- in copy mode only a starved event with a cookie would post
      have hline := hturn.line
      rw [hcopy, hall] at hline
      cases hline <;> simp_all
  · refine Or.inr ⟨hcopyEq.trans hcopy, hdvd, ?_⟩
    intro d hd hempty k
    have hassoc : d + k * W + 1 = d + 1 + k * W := by omega
    cases back with
    | release =>
      rw [hturn.effect.cookieAt_release] at hempty ⊢
      by_cases hlast : d + 1 = W
      · have hhead := hturn.line.release_cookie rfl hcopy
        have hnext := hclass 0 (by omega) hhead (k + 1)
        rwa [show 0 + (k + 1) * W = d + k * W + 1 by rw [Nat.succ_mul]; omega] at hnext
      · rw [hassoc]
        exact hclass (d + 1) (by omega) hempty k
    | post p =>
      have hwindow : pi.session.sfc.rxWindow < 512 := by
        rw [hinv.window]
        exact hlt
      rw [hturn.effect.cookieAt_post hwindow, hinv.window] at hempty ⊢
      by_cases hlast : d + 1 = W
      · rw [if_pos (by omega)] at hempty
        cases hempty
      · -- the post goes to another class
        have hother : (d + k * W + 1) % 512 ≠ W := by
          intro heq
          have hmod : (d + k * W + 1) % W = W % W := by
            rw [← Nat.mod_mod_of_dvd _ hdvd, heq]
          rw [hassoc, Nat.add_mul_mod_self_right, Nat.mod_self,
            Nat.mod_eq_of_lt (show d + 1 < W by omega)] at hmod
          omega
        rw [if_neg (by omega)] at hempty
        rw [if_neg hother, hassoc]
        exact hclass (d + 1) (by omega) hempty k

/-- The invariant of the system. -/
structure OwnInv (W : Nat) (s : RxOwnSys) : Prop where
  live : LiveInv W s.pi s.owner
  noneStale : NoneStale W s.pi

/-- `sfc7120_poll` touches its own cursor only. -/
theorem poll_sfc (s : Session) (maxEvs : Int) :
    ∃ used readPtr, (poll s maxEvs).2.sfc =
      { s.sfc with usedPoll := used, evqReadPtr := readPtr } := by
  unfold poll
  split
  · exact ⟨_, _, rfl⟩
  · split
    · exact ⟨_, _, rfl⟩
    · exact ⟨_, _, rfl⟩

theorem rxFlush_sfc (s : Session) : (rxFlush s).sfc = s.sfc := by
  unfold rxFlush
  split <;> rfl

theorem OwnInv.withSession {s : RxOwnSys} (hinv : OwnInv W s) {session : Session}
    (hready : session.sfc.Ready) (hhead : session.sfc.rxHead = s.pi.session.sfc.rxHead)
    (hwindow : session.sfc.rxWindow = s.pi.session.sfc.rxWindow)
    (hcookies : session.sfc.rxExtCookie = s.pi.session.sfc.rxExtCookie) :
    OwnInv W { s with pi := { s.pi with session := session } } :=
  ⟨hinv.live.withSession hready hhead hwindow hcookies,
    hinv.noneStale.withSession hhead hcookies⟩

theorem ownInv_step (hW : 0 < W) (hlt : W < 512) (s : RxOwnSys) (a : RxOwnLabel) (s' : RxOwnSys)
    (hinv : OwnInv W s) (hstep : rxOwnStep s a = some s') : OwnInv W s' := by
  have hready := hinv.live.ready
  cases a with
  | event rxBytes reply₁ reply₂ =>
    simp only [rxOwnStep] at hstep
    split at hstep
    · rename_i hanswers
      cases hstep
      obtain ⟨second, back, acts, used, hturn⟩ := hinv.live.turn hW hanswers rxBytes
      refine ⟨?_, hinv.noneStale.event hinv.live hlt hturn⟩
      apply hinv.live.event hW hlt hanswers hturn
      rintro rfl
      exact hinv.noneStale.entering hW hturn
    · cases hstep
  | poll nbBufs =>
    cases hstep
    obtain ⟨used, readPtr, hsfc⟩ := poll_sfc s.pi.session (min nbBufs capioMaxBurst : Nat)
    apply hinv.withSession
    · rw [hsfc]
      exact { hready with }
    · rw [hsfc]
    · rw [hsfc]
    · rw [hsfc]
  | flush =>
    cases hstep
    have hsfc := rxFlush_sfc s.pi.session
    apply hinv.withSession
    · rw [hsfc]
      exact hready
    · rw [hsfc]
    · rw [hsfc]
    · rw [hsfc]
  | appUse m mb =>
    simp only [rxOwnStep] at hstep
    split at hstep
    · rename_i hguard
      cases hstep
      exact ⟨hinv.live.appUse hguard.1 hguard.2.1 hguard.2.2, hinv.noneStale⟩
    · cases hstep
  | appFree m =>
    simp only [rxOwnStep] at hstep
    split at hstep
    · rename_i hguard
      cases hstep
      exact ⟨hinv.live.appFree hguard, hinv.noneStale⟩
    · cases hstep
  | card buf =>
    cases hstep
    exact hinv.withSession hready rfl rfl rfl

section Start

variable {sc : Softc} {rxWindow : Option (BitVec 32)} {rxCopy : Bool} {ops : MbufOps}
variable {mbufs : Nat → RteMbuf}

/-- After probe no cookie is set and nothing is stashed. -/
theorem ownInv_rxOwnStart (hhead : sc.rxHead < 512)
    (hfit : ∀ m, Postable ops (ops.reset (mbufs m)))
    (hsafe : rxCopy = true ∨ initRxWindow rxWindow ∣ 512) :
    OwnInv (initRxWindow rxWindow) (rxOwnStart sc rxWindow rxCopy ops mbufs) where
  live :=
    { ready := ⟨rfl, rfl, rfl, rfl, rfl, rfl, rfl⟩
      headLt := hhead
      window := rfl
      fit := hfit
      stashNodup := List.nodup_nil
      stashOwned := by
        intro y hy
        cases hy
      stashPostable := by
        intro y hy
        cases hy
      live := by
        intro d m _ hm
        cases hm
      distinct := by
        intro d d' m _ _ hm
        cases hm }
  noneStale := by
    cases rxCopy with
    | true => exact Or.inl ⟨rfl, fun _ => rfl⟩
    | false =>
      have hdvd : initRxWindow rxWindow ∣ 512 := hsafe.resolve_left Bool.noConfusion
      exact Or.inr ⟨rfl, hdvd, fun _ _ _ _ => rfl⟩

end Start

/-! ## A whole call

`eth_capio_rx` is a run of the system: one poll, its events, one flush. -/

/-- The labels for the events of one poll. -/
def eventLabels (replies : Nat → PoolReply × PoolReply) : Nat → List Ev → List RxOwnLabel
  | _, [] => []
  | i, ev :: evs =>
    .event ev.rxBytes (replies i).1 (replies i).2 :: eventLabels replies (i + 1) evs

theorem exec_eventLabels {W : Nat} (hW : 0 < W) (hlt : W < 512)
    {replies : Nat → PoolReply × PoolReply} {i : Nat} {evs : List Ev} {s t : RxOwnSys}
    (hinv : OwnInv W s) (hrx : ∀ ev ∈ evs, ev.type = .rx)
    (hrun : exec rxOwnStep s (eventLabels replies i evs) = some t) :
    t.pi = (eventLoop replies i s.pi evs).2 ∧
      t.owner = settleAll s.owner (eventLoop replies i s.pi evs).1 := by
  induction evs generalizing i s with
  | nil =>
    cases hrun
    exact ⟨rfl, rfl⟩
  | cons ev evs ih =>
    obtain ⟨s', hstep, hrest⟩ := exec_cons_eq_some hrun
    have hinv' := ownInv_step hW hlt s _ s' hinv hstep
    simp only [rxOwnStep] at hstep
    split at hstep
    · rename_i hanswers
      obtain ⟨second, back, acts, used, hturn⟩ := hinv.live.turn hW hanswers ev.rxBytes
      have htail := ih hinv' (fun e he => hrx e (List.mem_cons_of_mem ev he)) hrest
      have hev : pmdEvent s.pi ev (replies i).1 (replies i).2 =
          rxEvent s.pi ev.rxBytes (replies i).1 (replies i).2 := by
        rw [pmdEvent, hrx ev (List.mem_cons_self ..)]
      cases hstep
      simp only [eventLoop, hev, hturn.effect.more, if_true]
      refine ⟨htail.1, ?_⟩
      rw [htail.2, settleAll_append]
    · cases hstep

/-- A call that polls receive events only leaves the driver where the run of its
labels ends, and its log moves the owners as the run does. -/
theorem exec_ethCapioRx {W nbBufs : Nat} (hW : 0 < W) (hlt : W < 512)
    {replies : Nat → PoolReply × PoolReply} {evs : List Ev} {s t : RxOwnSys}
    (hinv : OwnInv W s) (hne : evs ≠ [])
    (hpoll : (poll s.pi.session (min nbBufs capioMaxBurst : Nat)).1 = some evs)
    (hrx : ∀ ev ∈ evs, ev.type = .rx)
    (hrun : exec rxOwnStep s (.poll nbBufs :: eventLabels replies 0 evs) = some t) :
    rxOwnStep t .flush =
      some { pi := (ethCapioRx s.pi nbBufs replies).2
             owner := settleAll s.owner (ethCapioRx s.pi nbBufs replies).1 } := by
  obtain ⟨s', hstep, hrest⟩ := exec_cons_eq_some hrun
  have hinv' := ownInv_step hW hlt s _ s' hinv hstep
  obtain ⟨hpi, howner⟩ := exec_eventLabels hW hlt hinv' hrx hrest
  cases hstep
  cases evs with
  | nil => exact absurd rfl hne
  | cons ev evs =>
    simp only [rxOwnStep, ethCapioRx, hpoll, hpi, howner]

/-! ## A run that brings a stale cookie back

Let `W` not divide 512.  The pool is empty whenever the run comes to a position
that lies a multiple of `W` before 512, or to 512 itself, and answers otherwise.
Position 0 posts at `W`; position 512 does not post at `512 + W`, which is the
same slot, so the cookie posted first and delivered at `W` is found there again. -/

/-- Positions at which the pool is empty. -/
def Skips (W k : Nat) : Prop := k % W = 512 % W ∧ k ≤ 512

instance (W k : Nat) : Decidable (Skips W k) := inferInstanceAs (Decidable (_ ∧ _))

/-- The state after `k` events of the run. -/
structure Stage (W k : Nat) (s : RxOwnSys) : Prop where
  ready : s.pi.session.sfc.Ready
  headLt : s.pi.session.sfc.rxHead < 512
  window : s.pi.session.sfc.rxWindow = W
  fit : ∀ y, Postable s.pi.ops (s.pi.ops.reset (s.pi.mbufs y))
  zeroCopy : s.pi.rxCopy = false
  stash : s.pi.rxq.stash = []
  pool : ∀ m, 2 * k ≤ m → s.owner m = .pool
  ahead : ∀ d, d < W → k + d ≠ 512 + W → s.pi.cookieAt d =
    if k + d < W ∨ Skips W (k + d - W) then none else some (2 * (k + d - W) + 1)
  postable : ∀ j, j < k → k ≤ j + W → ¬ Skips W j →
    Postable s.pi.ops (s.pi.mbufs (2 * j + 1))
  untouched : ∀ d, W ≤ d → k + d ≤ 512 → s.pi.cookieAt d = none
  stale : 1 ≤ k → s.pi.cookieAt (512 + W - k) = some 1
  lost : W < k → s.owner 1 = .app

namespace Stage

variable {W k : Nat} {s : RxOwnSys}

theorem turn (hst : Stage W k s) (got₁ got₂ : Option Nat)
    (hcookie : ∀ c, s.pi.cookieAt 0 = some c →
      Postable s.pi.ops (s.pi.mbufs c) ∧ got₁ ≠ some c)
    (hapart : ∀ m, got₁ = some m → got₂ ≠ some m) :
    ∃ second back acts used,
      RxCase false
        (frameLen s.pi.session.dev.rxBuffer (s.pi.session.sfc.rxHead * rxBufferSize) 74)
        60 (s.pi.cookieAt 0) got₁ got₂ second back acts used ∧
      RxEffect s.pi (rxEvent s.pi 74 (.one got₁) (.one got₂)) (takenOnes got₁ got₂ second)
        back acts := by
  have hturn := rxEvent_ones s.pi got₁ got₂ 74 hst.ready hst.headLt hst.fit hst.stash hcookie
    hapart
  rw [hst.zeroCopy] at hturn
  exact hturn

/-- The step of the run at a position that posts: `2 * k + 1` is posted and `x`
delivered, the fresh `2 * k` on the first window and the slot's cookie later. -/
theorem posts (hst : Stage W k s) (hW : 0 < W) (hlt : W < 512) (hk : k < 512 + W)
    (hskip : ¬ Skips W k) {out : RxOutcome} {t : Taken} {x : Nat}
    (heff : RxEffect s.pi out t (.post (2 * k + 1)) [.post (2 * k + 1), .deliver x])
    (hstash : t.stash = []) (hallocs : ∀ y ∈ t.allocs, y = 2 * k ∨ y = 2 * k + 1)
    (hnew : 2 * k + 1 ∈ t.allocs)
    (hx : x = 2 * k ∧ k < W ∨ W ≤ k ∧ x = 2 * (k - W) + 1) :
    Stage W (k + 1) { pi := out.pi, owner := settleAll s.owner out.acts } := by
  have hadv := heff.advanced hst.ready
  have hne512 : k ≠ 512 := fun heq => hskip (heq ▸ ⟨rfl, Nat.le_refl 512⟩)
  have hcookie : ∀ d, out.pi.cookieAt d =
      if (d + 1) % 512 = W then some (2 * k + 1) else s.pi.cookieAt (d + 1) := by
    intro d
    rw [heff.cookieAt_post (by rw [hst.window]; exact hlt), hst.window]
  have howner := heff.owner_of_deliver s.owner
  refine
    { ready := hadv.ready
      headLt := by rw [hadv.rxHead]; exact Nat.mod_lt _ (by decide)
      window := hadv.rxWindow.trans hst.window
      fit := heff.carries.fit hst.fit
      zeroCopy := hadv.rxCopy.trans hst.zeroCopy
      stash := heff.carries.stash.trans hstash
      pool := ?_
      ahead := ?_
      postable := ?_
      untouched := ?_
      stale := ?_
      lost := ?_ }
  · intro m hm
    have hnotAlloc : m ∉ t.allocs := by
      intro hin
      rcases hallocs m hin with h | h <;> omega
    change settleAll s.owner out.acts m = .pool
    rw [howner, if_neg (by omega), if_neg hnotAlloc]
    exact hst.pool m (by omega)
  · -- the new cookie is at the far end of the window, the others come one closer
    intro d hd hnot
    rw [hcookie, Nat.mod_eq_of_lt (show d + 1 < 512 by omega)]
    by_cases hlast : d + 1 = W
    · have hpos : k + 1 + d - W = k := by omega
      have hposts : ¬ (k + 1 + d < W ∨ Skips W k) := by
        rintro (hsmall | hempty)
        · omega
        · exact hskip hempty
      rw [if_pos hlast, hpos, if_neg hposts]
    · have hpos : k + (d + 1) = k + 1 + d := by omega
      rw [if_neg hlast, hst.ahead (d + 1) (by omega) (by omega), hpos]
  · intro j hj hnear hnot
    have hkeep : ¬ HandsOn [.post (2 * k + 1), .deliver x] (2 * j + 1) := by
      simp only [HandsOn, List.mem_cons, MbufAct.deliver.injEq, reduceCtorEq, List.not_mem_nil,
        or_false, false_or]
      omega
    rw [hadv.ops]
    refine (heff.carries.window _ hkeep).postable ?_
    simp only [Internals.taken, Internals.allocated]
    by_cases hlast : j = k
    · subst j
      rw [if_pos hnew]
      exact hst.fit _
    · have hold : 2 * j + 1 ∉ t.allocs := by
        intro hin
        rcases hallocs _ hin with h | h <;> omega
      rw [if_neg hold]
      exact hst.postable j (by omega) (by omega) hnot
  · intro d hd hle
    rw [hcookie, if_neg (by omega)]
    exact hst.untouched (d + 1) (by omega) (by omega)
  · -- slot `W` is posted to at position 0, and not again before `512 + W`
    intro _
    have hpos : 512 + W - (k + 1) + 1 = 512 + W - k := by omega
    rw [hcookie, hpos]
    by_cases hzero : k = 0
    · subst k
      rw [if_pos (by omega)]
    · rw [if_neg (by omega)]
      exact hst.stale (by omega)
  · -- mbuf 1 is delivered at position `W` and never allocated again
    intro hpast
    change settleAll s.owner out.acts 1 = .app
    rw [howner]
    by_cases hfirst : k = W
    · rw [if_pos (by omega)]
    · have hnotAlloc : 1 ∉ t.allocs := by
        intro hin
        rcases hallocs 1 hin with h | h <;> omega
      rw [if_neg (by omega), if_neg hnotAlloc]
      exact hst.lost (by omega)

/-- The step at a position where the pool is empty: the slot is released. -/
theorem skips (hst : Stage W k s) (hW : 0 < W) (hk : k < 512 + W) (hskip : Skips W k)
    (hndvd : ¬ W ∣ 512) {out : RxOutcome} {t : Taken}
    (heff : RxEffect s.pi out t .release []) (hstash : t.stash = []) (hallocs : t.allocs = []) :
    Stage W (k + 1) { pi := out.pi, owner := settleAll s.owner out.acts } := by
  have hadv := heff.advanced hst.ready
  have hcookie := heff.cookieAt_release
  have hpos : 1 ≤ k := by
    rcases Nat.eq_zero_or_pos k with rfl | hpos
    · exact absurd (Nat.dvd_of_mod_eq_zero (hskip.1.symm.trans (Nat.zero_mod W))) hndvd
    · exact hpos
  have howner : settleAll s.owner out.acts = s.owner := by
    rw [heff.log, hallocs]
    rfl
  -- the skipped positions lie whole windows apart
  have hstride : k ≠ 512 → k + W ≤ 512 := by
    intro hne
    have hdvd : W ∣ 512 - k := (Nat.modEq_iff_dvd' hskip.2).mp hskip.1
    have hle := Nat.le_of_dvd (by have := hskip.2; omega) hdvd
    omega
  refine
    { ready := hadv.ready
      headLt := by rw [hadv.rxHead]; exact Nat.mod_lt _ (by decide)
      window := hadv.rxWindow.trans hst.window
      fit := heff.carries.fit hst.fit
      zeroCopy := hadv.rxCopy.trans hst.zeroCopy
      stash := heff.carries.stash.trans hstash
      pool := ?_
      ahead := ?_
      postable := ?_
      untouched := ?_
      stale := ?_
      lost := ?_ }
  · intro m hm
    change settleAll s.owner out.acts m = .pool
    rw [howner]
    exact hst.pool m (by omega)
  · intro d hd hnot
    rw [hcookie]
    by_cases hlast : d + 1 = W
    · have hk' : k + 1 + d - W = k := by omega
      rw [hk', if_pos (Or.inr hskip), hlast]
      exact hst.untouched W (Nat.le_refl W) (hstride (by omega))
    · have hpos : k + (d + 1) = k + 1 + d := by omega
      rw [hst.ahead (d + 1) (by omega) (by omega), hpos]
  · intro j hj hnear hnot
    have hne : j ≠ k := fun heq => hnot (heq ▸ hskip)
    rw [hadv.ops]
    refine (heff.carries.window _ (by simp [HandsOn])).postable ?_
    simp only [Internals.taken, Internals.allocated, hallocs]
    exact hst.postable j (by omega) (by omega) hnot
  · intro d hd hle
    rw [hcookie]
    exact hst.untouched (d + 1) (by omega) (by omega)
  · intro _
    have hpos' : 512 + W - (k + 1) + 1 = 512 + W - k := by omega
    rw [hcookie, hpos']
    exact hst.stale hpos
  · intro hpast
    change settleAll s.owner out.acts 1 = .app
    rw [howner]
    refine hst.lost ?_
    have hne : k ≠ W := by
      rintro rfl
      exact hndvd (Nat.dvd_of_mod_eq_zero (hskip.1.symm.trans (Nat.mod_self k)))
    omega

theorem head (hst : Stage W k s) (hW : 0 < W) (hk : k < 512 + W) :
    s.pi.cookieAt 0 =
      if k < W ∨ Skips W (k - W) then none else some (2 * (k - W) + 1) := by
  simpa using hst.ahead 0 hW (by omega)

/-- Whether a position is skipped depends on its class only. -/
theorem skips_sub_iff (hle : W ≤ k) (hk : k < 512 + W) :
    Skips W (k - W) ↔ Skips W k := by
  have hmod : (k - W) % W = k % W := (Nat.mod_eq_sub_mod hle).symm
  unfold Skips
  rw [hmod]
  constructor
  · rintro ⟨hclass, -⟩
    refine ⟨hclass, ?_⟩
    -- no other member of the class lies less than a window beyond 512
    by_contra hgt
    have hdvd : W ∣ k - 512 := (Nat.modEq_iff_dvd' (by omega)).mp hclass.symm
    have := Nat.le_of_dvd (by omega) hdvd
    omega
  · rintro ⟨hclass, hle'⟩
    exact ⟨hclass, by omega⟩

theorem progress (hW : 0 < W) (hlt : W < 512) (hndvd : ¬ W ∣ 512) (k : Nat) (s : RxOwnSys)
    (hk : k < 512 + W) (hst : Stage W k s) :
    ∃ labels s', exec rxOwnStep s labels = some s' ∧ Stage W (k + 1) s' := by
  have hlib : frameLen s.pi.session.dev.rxBuffer
      (s.pi.session.sfc.rxHead * rxBufferSize) 74 ≠ 0 :=
    frameLen_ne_zero (by decide) _ _
  have hhead := hst.head hW hk
  have hpool₁ := hst.pool (2 * k) (by omega)
  have hpool₂ := hst.pool (2 * k + 1) (by omega)
  -- one event whose answers are possible is a run of length one
  have hrun : ∀ got₁ got₂, s.answers (.one got₁) (.one got₂) = true →
      exec rxOwnStep s [.event 74 (.one got₁) (.one got₂)] =
        some { pi := (rxEvent s.pi 74 (.one got₁) (.one got₂)).pi
               owner := settleAll s.owner (rxEvent s.pi 74 (.one got₁) (.one got₂)).acts } := by
    intro got₁ got₂ hanswers
    simp only [exec, rxOwnStep, hanswers, if_true]
  by_cases hskip : Skips W k
  · -- the pool is empty, and so is the slot
    have hempty : s.pi.cookieAt 0 = none := by
      rw [hhead, if_pos]
      by_cases hsmall : k < W
      · exact Or.inl hsmall
      · exact Or.inr ((skips_sub_iff (by omega) hk).mpr hskip)
    obtain ⟨second, back, acts, used, hline, heff⟩ := hst.turn none none
      (by
        intro c hc
        rw [hempty] at hc
        cases hc)
      (by simp)
    rw [hempty] at hline
    refine ⟨_, _, hrun none none ?_, ?_⟩
    · simp [RxOwnSys.answers, poolAnswers, PoolReply.valid, PoolReply.one]
    · obtain ⟨rfl, rfl, rfl⟩ := hline.of_starved
      exact hst.skips hW hk hskip hndvd heff rfl rfl
  · by_cases hsmall : k < W
    · -- first window: copy out of the library slot and post a second mbuf
      have hempty : s.pi.cookieAt 0 = none := by rw [hhead, if_pos (Or.inl hsmall)]
      obtain ⟨second, back, acts, used, hline, heff⟩ :=
        hst.turn (some (2 * k)) (some (2 * k + 1))
          (by
            intro c hc
            rw [hempty] at hc
            cases hc)
          (by simp)
      rw [hempty] at hline
      refine ⟨_, _, hrun (some (2 * k)) (some (2 * k + 1)) ?_, ?_⟩
      · rw [RxOwnSys.answers, hst.stash]
        exact poolAnswers_ones hpool₁ hpool₂ (by omega)
      · obtain ⟨rfl, rfl, rfl⟩ := hline.of_library hlib
        exact hst.posts hW hlt hk hskip heff rfl (by simp [takenOnes]) (by simp [takenOnes])
          (Or.inl ⟨rfl, hsmall⟩)
    · -- later windows: hand on the mbuf of the slot
      have hfull : s.pi.cookieAt 0 = some (2 * (k - W) + 1) := by
        rw [hhead, if_neg]
        rintro (hlow | hempty)
        · exact hsmall hlow
        · exact hskip ((skips_sub_iff (by omega) hk).mp hempty)
      have hbefore : ¬ Skips W (k - W) := fun hempty =>
        hskip ((skips_sub_iff (by omega) hk).mp hempty)
      obtain ⟨second, back, acts, used, hline, heff⟩ := hst.turn (some (2 * k + 1)) none
        (by
          intro c hc
          rw [hfull] at hc
          cases hc
          refine ⟨hst.postable (k - W) (by omega) (by omega) hbefore, ?_⟩
          simp only [ne_eq, Option.some.injEq]
          omega)
        (by simp)
      rw [hfull] at hline
      refine ⟨_, _, hrun (some (2 * k + 1)) none ?_, ?_⟩
      · simp only [RxOwnSys.answers, poolAnswers, Bool.and_eq_true]
        refine ⟨PoolReply.one_valid ?_, PoolReply.one_valid ?_⟩
        · rintro m ⟨⟩
          exact hpool₂
        · rintro m ⟨⟩
      · obtain ⟨rfl, rfl, rfl⟩ := hline.of_cookie (by decide)
        exact hst.posts hW hlt hk hskip heff rfl (by simp [takenOnes]) (by simp [takenOnes])
          (Or.inr ⟨by omega, rfl⟩)

end Stage

/-- An event that gets no mbuf posts the slot's cookie again. -/
theorem rxEvent_used_of_starved {pi : Internals} {c : Nat} (rxBytes : Nat)
    (hready : pi.session.sfc.Ready) (hstash : pi.rxq.stash = [])
    (hcookie : pi.session.sfc.rxExtCookie pi.session.sfc.rxHead = some c) :
    (rxEvent pi rxBytes (.one none) (.one none)).used = some c := by
  obtain ⟨len, hpeek, -⟩ := rxPeekExt_of_ready hready rxBytes
  simp only [rxEvent, hpeek, capioMbufGet, hstash, takeMbuf_one, hcookie]
  rfl

section Main

variable {sc : Softc} {rxWindow : Option (BitVec 32)} {ops : MbufOps} {mbufs : Nat → RteMbuf}

/-- A window that does not divide the ring has a run to a stale cookie. -/
theorem exists_stale_run (hhead : sc.rxHead < 512)
    (hfit : ∀ m, Postable ops (ops.reset (mbufs m)))
    (hndvd : ¬ initRxWindow rxWindow ∣ 512) :
    ∃ labels t, exec rxOwnStep (rxOwnStart sc rxWindow false ops mbufs) labels = some t ∧
      ¬ Exclusive t := by
  obtain ⟨hW, hlt⟩ := initRxWindow_range rxWindow
  have hstart : Stage (initRxWindow rxWindow) 0
      (rxOwnStart sc rxWindow false ops mbufs) :=
    { ready := ⟨rfl, rfl, rfl, rfl, rfl, rfl, rfl⟩
      headLt := hhead
      window := rfl
      fit := hfit
      zeroCopy := rfl
      stash := rfl
      pool := fun _ _ => rfl
      ahead := by
        intro d hd _
        rw [if_pos (Or.inl (by omega))]
        rfl
      postable := by
        intro j hj
        omega
      untouched := fun _ _ _ => rfl
      stale := by
        intro h
        omega
      lost := by
        intro h
        omega }
  obtain ⟨labels, t, hrun, hst⟩ :=
    exists_exec_of_progress (Stage.progress hW hlt hndvd) hstart
  refine ⟨labels, t, hrun, ?_⟩
  intro hexcl
  have hcookie := hst.stale (by omega)
  rw [Nat.sub_self, Internals.cookieAt_zero hst.headLt] at hcookie
  have hown := hexcl 74 (.one none) (.one none) 1 rfl
    (rxEvent_used_of_starved 74 hst.ready hst.stash hcookie)
  rw [hst.lost (by omega)] at hown
  cases hown

/-- No event ever uses a cookie that the driver has given away, exactly in copy
mode and for windows that divide the ring. -/
theorem rx_mbuf_ownership_iff {rxCopy : Bool} (hhead : sc.rxHead < 512)
    (hfit : ∀ m, Postable ops (ops.reset (mbufs m))) :
    (∀ labels t, exec rxOwnStep (rxOwnStart sc rxWindow rxCopy ops mbufs) labels = some t →
      Exclusive t) ↔ rxCopy = true ∨ initRxWindow rxWindow ∣ 512 := by
  obtain ⟨hW, hlt⟩ := initRxWindow_range rxWindow
  constructor
  · intro hall
    by_contra hnot
    obtain ⟨hcopy, hndvd⟩ := not_or.mp hnot
    obtain rfl : rxCopy = false := by simpa using hcopy
    obtain ⟨labels, t, hrun, hstale⟩ :=
      exists_stale_run hhead hfit hndvd
    exact hstale (hall labels t hrun)
  · intro hsafe labels t hrun
    have hinv := exec_invariant (ownInv_step hW hlt) (ownInv_rxOwnStart hhead hfit hsafe) hrun
    exact hinv.live.exclusive hW

end Main

/-- The default window of 64 is one of the safe ones. -/
theorem rx_mbuf_ownership_default_window :
    rxIoctlAfterAttach.sc.rxHead < 512 ∧
      ∀ labels t, exec rxOwnStep
        (rxOwnStart rxIoctlAfterAttach.sc none false sampleOps samplePool) labels = some t →
        Exclusive t :=
  ⟨by decide, (rx_mbuf_ownership_iff (by decide) postable_samplePool).mpr (Or.inr ⟨8, rfl⟩)⟩

/-- With the largest window two failed allocations bring a delivered mbuf back. -/
theorem rx_mbuf_returns_with_window_511 :
    ∃ labels t, exec rxOwnStep
      (rxOwnStart rxIoctlAfterAttach.sc (some 511#32) false sampleOps samplePool) labels = some t ∧
      ¬ Exclusive t := by
  have hwindow : initRxWindow (some 511#32) = 511 := by decide
  apply exists_stale_run (by decide) postable_samplePool
  rw [hwindow]
  omega

end Pmd
end SfcCapio
