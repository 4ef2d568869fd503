import SfcCapio.Pmd.MbufOwners

/-!
# The cookies of the next window

`LiveInv` says that the stash and the cookies of the next `rx_window` slots name
distinct mbufs that belong to the driver.  A receive event keeps it when the
cookie that enters the window is the one the event has just posted, or when there
is none.  Whether that is so is left to the modules that use the invariant.
-/

namespace SfcCapio
namespace Pmd

open Hardware Userlib

/-! ## The cookies ahead of the head -/

/-- The cookie of the slot `d` positions ahead of `rx_head`. -/
def Internals.cookieAt (pi : Internals) (d : Nat) : Option Nat :=
  pi.session.sfc.rxExtCookie ((pi.session.sfc.rxHead + d) % 512)

variable {pi : Internals} {out : RxOutcome} {t : Taken} {acts : List MbufAct}

theorem Internals.cookieAt_zero (hhead : pi.session.sfc.rxHead < 512) :
    pi.cookieAt 0 = pi.session.sfc.rxExtCookie pi.session.sfc.rxHead := by
  rw [Internals.cookieAt, Nat.add_zero, Nat.mod_eq_of_lt hhead]

/-- An event of a driver without stash, when the pool answers one by one. -/
theorem rxEvent_ones (pi : Internals) (got₁ got₂ : Option Nat) (rxBytes : Nat)
    (hready : pi.session.sfc.Ready) (hhead : pi.session.sfc.rxHead < 512)
    (hfit : ∀ y, Postable pi.ops (pi.ops.reset (pi.mbufs y)))
    (hstash : pi.rxq.stash = [])
    (hcookie : ∀ c, pi.cookieAt 0 = some c →
      Postable pi.ops (pi.mbufs c) ∧ got₁ ≠ some c)
    (hapart : ∀ m, got₁ = some m → got₂ ≠ some m) :
    ∃ second back acts used,
      RxCase pi.rxCopy
        (frameLen pi.session.dev.rxBuffer (pi.session.sfc.rxHead * rxBufferSize) rxBytes)
        (eventLen rxBytes) (pi.cookieAt 0) got₁ got₂ second back acts used ∧
      RxEffect pi (rxEvent pi rxBytes (.one got₁) (.one got₂)) (takenOnes got₁ got₂ second)
        back acts := by
  obtain ⟨second, back, acts, used, hcase, heff, -⟩ :=
    rxEvent_effect_of_fits hready (eventFits_of_postable rxBytes (.one got₁) (.one got₂) hfit
      (by
        intro y hy
        rw [hstash] at hy
        cases hy)
      (by
        intro c hc
        rw [hstash, takeMbuf_one]
        rw [← Internals.cookieAt_zero hhead] at hc
        exact hcookie c hc)
      (by
        intro m hm
        rw [hstash] at hm ⊢
        simp only [takeMbuf_one] at hm ⊢
        exact hapart m hm))
  rw [hstash] at hcase heff
  rw [followedBy_ones] at heff
  simp only [takeMbuf_one] at hcase
  rw [← Internals.cookieAt_zero hhead] at hcase
  exact ⟨second, back, acts, used, hcase, heff⟩

/-- The library session after an event, whichever way the slot went back. -/
structure Advanced (pi pi' : Internals) : Prop where
  ready : pi'.session.sfc.Ready
  rxHead : pi'.session.sfc.rxHead = (pi.session.sfc.rxHead + 1) % 512
  rxWindow : pi'.session.sfc.rxWindow = pi.session.sfc.rxWindow
  ops : pi'.ops = pi.ops
  rxCopy : pi'.rxCopy = pi.rxCopy

theorem RxEffect.advanced {back : GiveBack} (hready : pi.session.sfc.Ready)
    (heff : RxEffect pi out t back acts) :
    Advanced pi out.pi := by
  have hsession := heff.session
  cases back with
  | release =>
    change out.pi.session = _ at hsession
    refine ⟨?_, ?_, ?_, heff.carries.ops, heff.carries.rxCopy⟩
    · rw [hsession]
      exact { hready with }
    · rw [hsession]
      rfl
    · rw [hsession]
      rfl
  | post m =>
    obtain ⟨len, hsession⟩ := hsession
    refine ⟨?_, ?_, ?_, heff.carries.ops, heff.carries.rxCopy⟩
    · rw [hsession]
      exact { hready with }
    · rw [hsession]
      rfl
    · rw [hsession]
      rfl

/-- Buffers of the pool stay fit for posting. -/
theorem Carries.fit {pi p : Internals} {touched : Nat → Prop} (hp : Carries pi p t touched)
    (hfit : ∀ y, Postable pi.ops (pi.ops.reset (pi.mbufs y))) (y : Nat) :
    Postable p.ops (p.ops.reset (p.mbufs y)) := by
  obtain ⟨hiova, hlen⟩ := hp.address y
  rw [hp.ops]
  exact (pi.ops.reset_sameWindow hiova hlen).postable (hfit y)

theorem RxEffect.cookieAt_release (heff : RxEffect pi out t .release acts) (d : Nat) :
    out.pi.cookieAt d = pi.cookieAt (d + 1) := by
  have hsession : out.pi.session = released (polledSession pi.session) := heff.session
  have hslot : ((pi.session.sfc.rxHead + 1) % 512 + d) % 512 =
      (pi.session.sfc.rxHead + (d + 1)) % 512 := by omega
  simp only [Internals.cookieAt, hsession, released, polledSession, hslot]

/-- A post writes the cookie `rx_window` slots ahead and no other. -/
theorem RxEffect.cookieAt_post {p : Nat} (heff : RxEffect pi out t (.post p) acts)
    (hwindow : pi.session.sfc.rxWindow < 512) (d : Nat) :
    out.pi.cookieAt d =
      if (d + 1) % 512 = pi.session.sfc.rxWindow then some p else pi.cookieAt (d + 1) := by
  obtain ⟨len, hsession⟩ := heff.session
  have hslot : ((pi.session.sfc.rxHead + 1) % 512 + d) % 512 =
      (pi.session.sfc.rxHead + (d + 1)) % 512 := by omega
  simp only [Internals.cookieAt, hsession, tailPosted, polledSession, hslot,
    Function.update_apply]
  by_cases htail : (d + 1) % 512 = pi.session.sfc.rxWindow
  · have heq : (pi.session.sfc.rxHead + (d + 1)) % 512 =
        (pi.session.sfc.rxHead + pi.session.sfc.rxWindow) % 512 := by omega
    rw [if_pos heq, if_pos htail]
  · have hne : (pi.session.sfc.rxHead + (d + 1)) % 512 ≠
        (pi.session.sfc.rxHead + pi.session.sfc.rxWindow) % 512 := by omega
    rw [if_neg hne, if_neg htail]

/-- An event that posts and delivers gives the frame away and keeps what it allocated. -/
theorem RxEffect.owner_of_deliver {back : GiveBack} {p x : Nat}
    (heff : RxEffect pi out t back [.post p, .deliver x]) (owner : Nat → Owner) (y : Nat) :
    settleAll owner out.acts y =
      if y = x then .app else if y ∈ t.allocs then .pmd else owner y := by
  rw [heff.log, settleAll_append]
  change Function.update (settleAll owner (t.allocs.map .alloc)) x .app y = _
  rw [Function.update_apply, settleAll_alloc]

/-- The stash and the cookies of the next `W` slots name distinct mbufs of the
driver, and all of them can be posted. -/
structure LiveInv (W : Nat) (pi : Internals) (owner : Nat → Owner) : Prop where
  ready : pi.session.sfc.Ready
  headLt : pi.session.sfc.rxHead < 512
  window : pi.session.sfc.rxWindow = W
  fit : ∀ y, Postable pi.ops (pi.ops.reset (pi.mbufs y))
  stashNodup : pi.rxq.stash.Nodup
  stashOwned : ∀ y ∈ pi.rxq.stash, owner y = .pmd
  stashPostable : ∀ y ∈ pi.rxq.stash, Postable pi.ops (pi.mbufs y)
  live : ∀ d m, d < W → pi.cookieAt d = some m →
    owner m = .pmd ∧ m ∉ pi.rxq.stash ∧ Postable pi.ops (pi.mbufs m)
  distinct : ∀ d d' m, d < W → d' < W → pi.cookieAt d = some m →
    pi.cookieAt d' = some m → d = d'

/-- One event of the system, read through the table. -/
structure EventTurn (pi : Internals) (rxBytes : Nat) (reply₁ reply₂ : PoolReply)
    (second : Bool) (back : GiveBack) (acts : List MbufAct) (used : Option Nat) : Prop where
  line : RxCase pi.rxCopy
    (frameLen pi.session.dev.rxBuffer (pi.session.sfc.rxHead * rxBufferSize) rxBytes)
    (eventLen rxBytes) (pi.cookieAt 0) (takeMbuf pi.rxq.stash reply₁).mbuf
    (takeMbuf (takeMbuf pi.rxq.stash reply₁).stash reply₂).mbuf second back acts used
  effect : RxEffect pi (rxEvent pi rxBytes reply₁ reply₂)
    ((takeMbuf pi.rxq.stash reply₁).followedBy reply₂ second) back acts
  used : (rxEvent pi rxBytes reply₁ reply₂).used = used

theorem EventTurn.of_fits {rxBytes : Nat} {reply₁ reply₂ : PoolReply}
    (hready : pi.session.sfc.Ready) (hhead : pi.session.sfc.rxHead < 512)
    (hfits : EventFits pi rxBytes reply₁ reply₂) :
    ∃ second back acts used, EventTurn pi rxBytes reply₁ reply₂ second back acts used := by
  obtain ⟨second, back, acts, used, hcase, heff, hused⟩ := rxEvent_effect_of_fits hready hfits
  rw [← Internals.cookieAt_zero hhead] at hcase
  exact ⟨second, back, acts, used, hcase, heff, hused⟩

namespace LiveInv

variable {W : Nat} {pi : Internals} {owner : Nat → Owner}

/-- What an event obtains is not a live cookie. -/
theorem not_took {t : Taken} {gots : List Nat} (hinv : LiveInv W pi owner)
    (htook : Took owner pi.rxq.stash t gots) {d m : Nat} (hd : d < W)
    (hm : pi.cookieAt d = some m) : m ∉ gots ∧ m ∉ t.stash ∧ m ∉ t.allocs := by
  obtain ⟨hown, hstash, -⟩ := hinv.live d m hd hm
  have halloc : m ∉ t.allocs := by
    intro hin
    rw [htook.pooled m hin] at hown
    cases hown
  refine ⟨fun hin => ?_, fun hin => ?_, halloc⟩
  · exact (htook.got m hin).2.elim hstash halloc
  · exact (htook.source m hin).elim hstash halloc

/-- The mbufs an event may have to post are there for it. -/
theorem eventFits (hinv : LiveInv W pi owner) (hW : 0 < W) {reply₁ reply₂ : PoolReply}
    (hanswers : poolAnswers owner pi.rxq.stash reply₁ reply₂ = true) (rxBytes : Nat) :
    EventFits pi rxBytes reply₁ reply₂ := by
  simp only [poolAnswers, Bool.and_eq_true] at hanswers
  have htook := took_event hinv.stashNodup hinv.stashOwned hanswers.1 hanswers.2 true
  refine eventFits_of_postable rxBytes reply₁ reply₂ hinv.fit hinv.stashPostable ?_ ?_
  · intro c hc
    rw [← Internals.cookieAt_zero hinv.headLt] at hc
    refine ⟨(hinv.live 0 c hW hc).2.2, ?_⟩
    intro hgot
    exact (hinv.not_took htook hW hc).1 (by simp [obtained, hgot])
  · intro m hm hgot
    have hnodup := htook.gotNodup
    simp [obtained, hm, hgot] at hnodup

theorem turn (hinv : LiveInv W pi owner) (hW : 0 < W) {reply₁ reply₂ : PoolReply}
    (hanswers : poolAnswers owner pi.rxq.stash reply₁ reply₂ = true) (rxBytes : Nat) :
    ∃ second back acts used, EventTurn pi rxBytes reply₁ reply₂ second back acts used :=
  EventTurn.of_fits hinv.ready hinv.headLt (hinv.eventFits hW hanswers rxBytes)

section Event

variable {rxBytes : Nat} {reply₁ reply₂ : PoolReply} {second : Bool} {back : GiveBack}
variable {acts : List MbufAct} {used : Option Nat}

/-- The owners after an event, for mbufs that stay with the driver. -/
theorem owner_of_kept (hturn : EventTurn pi rxBytes reply₁ reply₂ second back acts used)
    {x : Nat} (hx : ¬ HandsOn acts x) :
    settleAll owner (rxEvent pi rxBytes reply₁ reply₂).acts x =
      if x ∈ ((takeMbuf pi.rxq.stash reply₁).followedBy reply₂ second).allocs then .pmd
      else owner x := by
  rw [hturn.effect.log, settleAll_append,
    settleAll_of_not_mem _ (hturn.line.alloc_not_mem x) hx, settleAll_alloc]

/-- Allocation resets a buffer, so the driver can post it. -/
theorem postable_of_kept (hturn : EventTurn pi rxBytes reply₁ reply₂ second back acts used)
    (hinv : LiveInv W pi owner) {x : Nat} (hx : ¬ HandsOn acts x)
    (hsource : x ∈ ((takeMbuf pi.rxq.stash reply₁).followedBy reply₂ second).allocs ∨
      Postable pi.ops (pi.mbufs x)) :
    Postable (rxEvent pi rxBytes reply₁ reply₂).pi.ops
      ((rxEvent pi rxBytes reply₁ reply₂).pi.mbufs x) := by
  rw [hturn.effect.carries.ops]
  refine (hturn.effect.carries.window x hx).postable ?_
  simp only [Internals.taken, Internals.allocated]
  split
  · exact hinv.fit x
  · rename_i hnew
    exact hsource.resolve_left hnew

theorem kept_of_source (hinv : LiveInv W pi owner)
    (hturn : EventTurn pi rxBytes reply₁ reply₂ second back acts used) {x : Nat}
    (hx : ¬ HandsOn acts x) (hsource : x ∈ pi.rxq.stash ∨
      x ∈ ((takeMbuf pi.rxq.stash reply₁).followedBy reply₂ second).allocs) :
    settleAll owner (rxEvent pi rxBytes reply₁ reply₂).acts x = .pmd ∧
      Postable (rxEvent pi rxBytes reply₁ reply₂).pi.ops
        ((rxEvent pi rxBytes reply₁ reply₂).pi.mbufs x) := by
  refine ⟨?_, postable_of_kept hturn hinv hx ?_⟩
  · rw [owner_of_kept hturn hx]
    split
    · rfl
    · rename_i hnew
      exact hinv.stashOwned x (hsource.resolve_right hnew)
  · rcases hsource with hold | hnew
    · exact Or.inr (hinv.stashPostable x hold)
    · exact Or.inl hnew

/-- A live cookie that the event keeps stays with the driver, out of the stash. -/
theorem live_of_kept {gots : List Nat} (hinv : LiveInv W pi owner)
    (hturn : EventTurn pi rxBytes reply₁ reply₂ second back acts used)
    (htook : Took owner pi.rxq.stash ((takeMbuf pi.rxq.stash reply₁).followedBy reply₂ second) gots)
    {d m : Nat} (hd : d < W) (hm : pi.cookieAt d = some m) (hkeep : ¬ HandsOn acts m) :
    settleAll owner (rxEvent pi rxBytes reply₁ reply₂).acts m = .pmd ∧
      m ∉ ((takeMbuf pi.rxq.stash reply₁).followedBy reply₂ second).stash ∧
        Postable (rxEvent pi rxBytes reply₁ reply₂).pi.ops
          ((rxEvent pi rxBytes reply₁ reply₂).pi.mbufs m) := by
  obtain ⟨-, hnstash, hnalloc⟩ := hinv.not_took htook hd hm
  obtain ⟨hown, -, hpost⟩ := hinv.live d m hd hm
  refine ⟨?_, hnstash, postable_of_kept hturn hinv hkeep (Or.inr hpost)⟩
  rw [owner_of_kept hturn hkeep, if_neg hnalloc, hown]

/-- The window after an event: the old cookies one slot closer, and the one that
enters. -/
theorem cookieAt_event (hinv : LiveInv W pi owner) (hlt : W < 512)
    (hturn : EventTurn pi rxBytes reply₁ reply₂ second back acts used)
    (hrelease : back = .release → pi.cookieAt W = none) {d m : Nat} (hd : d < W)
    (hm : (rxEvent pi rxBytes reply₁ reply₂).pi.cookieAt d = some m) :
    (d + 1 < W ∧ pi.cookieAt (d + 1) = some m) ∨ (d + 1 = W ∧ back = .post m) := by
  cases back with
  | release =>
    rw [hturn.effect.cookieAt_release] at hm
    by_cases hlast : d + 1 = W
    · rw [hlast, hrelease rfl] at hm
      cases hm
    · exact Or.inl ⟨by omega, hm⟩
  | post p =>
    rw [hturn.effect.cookieAt_post (by rw [hinv.window]; exact hlt), hinv.window,
      Nat.mod_eq_of_lt (show d + 1 < 512 by omega)] at hm
    by_cases hlast : d + 1 = W
    · rw [if_pos hlast, Option.some.injEq] at hm
      exact Or.inr ⟨hlast, by rw [hm]⟩
    · rw [if_neg hlast] at hm
      exact Or.inl ⟨by omega, hm⟩

/-- An event keeps the invariant if the cookie that enters the window is the one
it posted, or none. -/
theorem event (hinv : LiveInv W pi owner) (hW : 0 < W) (hlt : W < 512)
    (hanswers : poolAnswers owner pi.rxq.stash reply₁ reply₂ = true)
    (hturn : EventTurn pi rxBytes reply₁ reply₂ second back acts used)
    (hrelease : back = .release → pi.cookieAt W = none) :
    LiveInv W (rxEvent pi rxBytes reply₁ reply₂).pi
      (settleAll owner (rxEvent pi rxBytes reply₁ reply₂).acts) := by
  have hadv := hturn.effect.advanced hinv.ready
  simp only [poolAnswers, Bool.and_eq_true] at hanswers
  have htook := took_event hinv.stashNodup hinv.stashOwned hanswers.1
    hanswers.2 second
  set t := (takeMbuf pi.rxq.stash reply₁).followedBy reply₂ second with ht
  set gots := obtained (takeMbuf pi.rxq.stash reply₁).mbuf
    (takeMbuf (takeMbuf pi.rxq.stash reply₁).stash reply₂).mbuf second with hgots
  have hstash : (rxEvent pi rxBytes reply₁ reply₂).pi.rxq.stash = t.stash :=
    hturn.effect.carries.stash
  -- what stays in the stash does not leave the driver
  have hkeepStash : ∀ y ∈ t.stash, ¬ HandsOn acts y := by
    intro y hy hhands
    rcases hturn.line.handsOn hhands with hgot | hcookie
    · exact (htook.got y hgot).1 hy
    · exact (hinv.not_took htook hW hcookie).2.1 hy
  -- nor does a cookie of the slots behind the head slot
  have hkeepLive : ∀ d m, d + 1 < W → pi.cookieAt (d + 1) = some m → ¬ HandsOn acts m := by
    intro d m hd hm hhands
    rcases hturn.line.handsOn hhands with hgot | hcookie
    · exact (hinv.not_took htook hd hm).1 hgot
    · have := hinv.distinct 0 (d + 1) m hW hd hcookie hm
      omega
  have hapart : ∀ y ∈ gots, pi.cookieAt 0 ≠ some y := fun y hy hc =>
    (hinv.not_took htook hW hc).1 hy
  refine
    { ready := hadv.ready
      headLt := by rw [hadv.rxHead]; exact Nat.mod_lt _ (by decide)
      window := hadv.rxWindow.trans hinv.window
      fit := ?_
      stashNodup := by rw [hstash]; exact htook.stashNodup
      stashOwned := ?_
      stashPostable := ?_
      live := ?_
      distinct := ?_ }
  · exact hturn.effect.carries.fit hinv.fit
  · intro y hy
    rw [hstash] at hy
    exact (kept_of_source hinv hturn (hkeepStash y hy) (htook.source y hy)).1
  · intro y hy
    rw [hstash] at hy
    exact (kept_of_source hinv hturn (hkeepStash y hy) (htook.source y hy)).2
  · intro d m hd hm
    rw [hstash]
    rcases hinv.cookieAt_event hlt hturn hrelease hd hm with ⟨hd', hold⟩ | ⟨-, hback⟩
    · exact hinv.live_of_kept hturn htook hd' hold (hkeepLive d m hd' hold)
    · obtain ⟨hfrom, hkeep⟩ := hturn.line.posted hback htook.gotNodup hapart
      rcases hfrom with hgot | hcookie
      · obtain ⟨hnstash, hsource⟩ := htook.got m hgot
        obtain ⟨hown, hpost⟩ := kept_of_source hinv hturn hkeep hsource
        exact ⟨hown, hnstash, hpost⟩
      · exact hinv.live_of_kept hturn htook hW hcookie hkeep
  · -- the posted mbuf is none of the cookies that were already there
    have hnew : ∀ d m, d + 1 < W → pi.cookieAt (d + 1) = some m → back ≠ .post m := by
      intro d m hd hm hback
      rcases (hturn.line.posted hback htook.gotNodup hapart).1 with hgot | hcookie
      · exact (hinv.not_took htook hd hm).1 hgot
      · have := hinv.distinct 0 (d + 1) m hW hd hcookie hm
        omega
    intro d d' m hd hd' hm hm'
    rcases hinv.cookieAt_event hlt hturn hrelease hd hm with
        ⟨hlt₁, hold₁⟩ | ⟨heq₁, hback₁⟩ <;>
      rcases hinv.cookieAt_event hlt hturn hrelease hd' hm' with
        ⟨hlt₂, hold₂⟩ | ⟨heq₂, hback₂⟩
    · have := hinv.distinct (d + 1) (d' + 1) m hlt₁ hlt₂ hold₁ hold₂
      omega
    · exact absurd hback₂ (hnew d m hlt₁ hold₁)
    · exact absurd hback₁ (hnew d' m hlt₂ hold₂)
    · omega

end Event

/-- Calls that leave the receive cursors and the cookies alone. -/
theorem withSession (hinv : LiveInv W pi owner) {session : Session}
    (hready : session.sfc.Ready) (hhead : session.sfc.rxHead = pi.session.sfc.rxHead)
    (hwindow : session.sfc.rxWindow = pi.session.sfc.rxWindow)
    (hcookies : session.sfc.rxExtCookie = pi.session.sfc.rxExtCookie) :
    LiveInv W { pi with session := session } owner := by
  have hcookieAt : ∀ d, Internals.cookieAt { pi with session := session } d = pi.cookieAt d := by
    intro d
    simp only [Internals.cookieAt, hhead, hcookies]
  refine
    { hinv with
      ready := hready
      headLt := by rw [hhead]; exact hinv.headLt
      window := hwindow.trans hinv.window
      live := ?_
      distinct := ?_ }
  · intro d m hd hm
    rw [hcookieAt] at hm
    exact hinv.live d m hd hm
  · intro d d' m hd hd' hm hm'
    rw [hcookieAt] at hm hm'
    exact hinv.distinct d d' m hd hd' hm hm'

/-- The caller may do as it likes with an mbuf it owns. -/
theorem appUse (hinv : LiveInv W pi owner) {m : Nat} {mb : RteMbuf} (hm : owner m = .app)
    (hiova : mb.bufIova = (pi.mbufs m).bufIova) (hlen : mb.bufLen = (pi.mbufs m).bufLen) :
    LiveInv W { pi with mbufs := Function.update pi.mbufs m mb } owner := by
  have hother : ∀ y, owner y = .pmd → Function.update pi.mbufs m mb y = pi.mbufs y := by
    intro y hy
    apply Function.update_of_ne
    rintro rfl
    rw [hm] at hy
    cases hy
  refine { hinv with fit := ?_, stashPostable := ?_, live := ?_ }
  · intro y
    by_cases hy : y = m
    · subst y
      simp only [Function.update_self]
      exact (pi.ops.reset_sameWindow hiova hlen).postable (hinv.fit m)
    · simp only [Function.update_of_ne hy]
      exact hinv.fit y
  · intro y hy
    simp only [hother y (hinv.stashOwned y hy)]
    exact hinv.stashPostable y hy
  · intro d x hd hx
    obtain ⟨hown, hstash, hpost⟩ := hinv.live d x hd hx
    refine ⟨hown, hstash, ?_⟩
    simp only [hother x hown]
    exact hpost

/-- An mbuf of the caller that goes back to the pool was none of the driver's. -/
theorem appFree (hinv : LiveInv W pi owner) {m : Nat} (hm : owner m = .app) :
    LiveInv W pi (Function.update owner m .pool) := by
  have hother : ∀ y, owner y = .pmd → Function.update owner m .pool y = .pmd := by
    intro y hy
    rw [Function.update_of_ne, hy]
    rintro rfl
    rw [hm] at hy
    cases hy
  refine { hinv with stashOwned := ?_, live := ?_ }
  · intro y hy
    exact hother y (hinv.stashOwned y hy)
  · intro d x hd hx
    obtain ⟨hown, hrest⟩ := hinv.live d x hd hx
    exact ⟨hother x hown, hrest⟩

end LiveInv

end Pmd
end SfcCapio
