import SfcCapio.Userlib.RxWindow

/-!
# Descriptors and cookies of the receive ring

Four functions of the library write receive descriptors: `sfc7120_rx_release` and
`sfc7120_rx_recv` re-post the slot's own buffer at `rx_head`,
`sfc7120_rx_release_paddr` posts a caller's buffer there, and
`sfc7120_rx_release_paddr_nodbl` posts one at `rx_head + rx_window`.  Beside the ring
the library keeps `rx_ext_cookie[slot]`, "the caller's handle for the buffer currently
posted at that slot, or NULL when the slot still holds the library's own".

The first two leave the cookie as it is.  On a slot that holds a caller's buffer they
put the library's buffer into the ring and keep the caller's handle beside it, and the
next peek attributes the frame to a buffer the card has not written.
`cookies_coherent_iff` says that this is the only way the two fall apart.
-/

namespace SfcCapio
namespace Userlib

open Hardware Foundation

/-! ## The calls -/

/-- A caller's buffer and handle. -/
structure Lent where
  paddr : BitVec 64
  len : Nat
  cookie : Option Nat
deriving DecidableEq, Repr

/-- The calls that write a receive descriptor, with their arguments. -/
inductive RxCall
  | release
  | releasePaddr (p : Lent)
  | releasePaddrNodbl (p : Lent)
  | recv (rxBytes : Nat)
deriving DecidableEq, Repr

namespace RxCall

/-- Whether the call returns 0, and the session it leaves. -/
def run (s : Session) : RxCall → Bool × Session
  | release => (decide ((rxRelease s).1 = 0), (rxRelease s).2)
  | releasePaddr p =>
    let out := rxReleasePaddr s p.paddr p.len p.cookie
    (decide (out.1 = 0), out.2)
  | releasePaddrNodbl p =>
    let out := rxReleasePaddrNodbl s p.paddr p.len p.cookie
    (decide (out.1 = 0), out.2)
  | recv rxBytes => ((rxRecv s rxBytes).1.isSome, (rxRecv s rxBytes).2)

/-- The slot whose descriptor the call writes. -/
def slot (s : Session) : RxCall → Nat
  | releasePaddrNodbl _ => rxAdvertise s.sfc.rxHead s.sfc.rxWindow
  | _ => s.sfc.rxHead

/-- The caller's buffer, if the call posts one. -/
def lent : RxCall → Option Lent
  | releasePaddr p => some p
  | releasePaddrNodbl p => some p
  | _ => none

/-- The bus address fits the descriptor. -/
def AddrOk (c : RxCall) : Prop := ∀ p ∈ c.lent, p.paddr.toNat < 2 ^ 48

instance (c : RxCall) : Decidable c.AddrOk :=
  inferInstanceAs (Decidable (∀ p ∈ c.lent, _))

end RxCall

/-! ## The ring and its record -/

/-- A session with the record of what the last accepted call has posted at each slot:
the caller's buffer, or `none` for the library's own. -/
structure CookieSys where
  session : Session
  posted : Nat → Option Lent

/-- A call; a rejected one posts nothing. -/
def cookieStep (s : CookieSys) (c : RxCall) : Option CookieSys :=
  if c.AddrOk then
    let out := c.run s.session
    some
      { session := out.2
        posted := if out.1 then Function.update s.posted (c.slot s.session) c.lent else s.posted }
  else none

/-- Identity descriptors and no cookies. -/
structure CookieStart (geom : Geometry) (s : CookieSys) : Prop where
  base : s.session.sfc.rxBufferPaddr = geom.rxBufferPaddr
  rxHeadLt : s.session.sfc.rxHead < numRxDesc
  identity : RingIsIdentity geom.rxBufferPaddr s.session.dev.rxDescRing
  noCookies : ∀ slot, slot < numRxDesc → s.session.sfc.rxExtCookie slot = none
  nonePosted : ∀ slot, s.posted slot = none

/-- The cookie belongs to the descriptor: none and the library's own buffer, or the one
passed in the call that wrote the descriptor, which names that call's buffer. -/
def SlotCoherent (s : CookieSys) (slot : Nat) : Prop :=
  (s.session.sfc.rxExtCookie slot = none ∧
    NamesOwnSlot s.session.sfc.rxBufferPaddr slot (s.session.dev.rxDescRing slot)) ∨
  ∃ p, s.posted slot = some p ∧ s.session.sfc.rxExtCookie slot = p.cookie ∧
    descAddr (s.session.dev.rxDescRing slot) = p.paddr.toNat ∧
    descByteCnt (s.session.dev.rxDescRing slot) = p.len

/-- Every slot is coherent. -/
def CookiesCoherent (s : CookieSys) : Prop := ∀ slot, slot < numRxDesc → SlotCoherent s slot

/-- The library's buffer is not put over a caller's: an accepted `sfc7120_rx_release` or
`sfc7120_rx_recv` finds no cookie at `rx_head`. -/
def NoCookieAtHead (s : CookieSys) (c : RxCall) : Prop :=
  c.lent = none → (c.run s.session).1 = true →
    s.session.sfc.rxExtCookie s.session.sfc.rxHead = none

instance (s : CookieSys) (c : RxCall) : Decidable (NoCookieAtHead s c) :=
  inferInstanceAs (Decidable (_ → _ → _))

/-! ## What a call does -/

/-- The effect of an accepted call on the ring and the cookies. -/
structure Posts (s s' : Session) (c : RxCall) : Prop where
  base : s'.sfc.rxBufferPaddr = s.sfc.rxBufferPaddr
  rxHead : s'.sfc.rxHead = (s.sfc.rxHead + 1) % 512
  ring : s'.dev.rxDescRing = Function.update s.dev.rxDescRing (c.slot s)
    (match c.lent with
      | some p => descWord p.paddr p.len
      | none => identityDesc s.sfc.rxBufferPaddr (c.slot s))
  cookies : s'.sfc.rxExtCookie =
    match c.lent with
      | some p => Function.update s.sfc.rxExtCookie (c.slot s) p.cookie
      | none => s.sfc.rxExtCookie
  len : ∀ p ∈ c.lent, p.len < 2 ^ 14

namespace Posts

variable {s s' : Session} {c : RxCall} {slot : Nat}

theorem ring_of_ne (hposts : Posts s s' c) (hne : slot ≠ c.slot s) :
    s'.dev.rxDescRing slot = s.dev.rxDescRing slot := by
  rw [hposts.ring, Function.update_of_ne hne]

theorem cookies_of_ne (hposts : Posts s s' c) (hne : slot ≠ c.slot s) :
    s'.sfc.rxExtCookie slot = s.sfc.rxExtCookie slot := by
  rw [hposts.cookies]
  cases c.lent with
  | none => rfl
  | some p => exact Function.update_of_ne hne _ _

end Posts

variable {c : RxCall} {geom : Geometry} {s : CookieSys}

/-- The library's own buffer goes to `rx_head`. -/
theorem RxCall.slot_of_own {s : Session} (hown : c.lent = none) :
    c.slot s = s.sfc.rxHead := by
  cases c <;> first | rfl | cases hown

theorem len_of_extArgsOk {paddr : BitVec 64} {len : Nat} (hok : extArgsOk paddr len = true) :
    len < 2 ^ 14 := by
  simp only [extArgsOk, Bool.not_eq_true', Bool.or_eq_false_iff, decide_eq_false_iff_not] at hok
  omega

/-- The spec of a call: it is rejected and changes nothing, or it posts. -/
theorem RxCall.run_cases (s : Session) (c : RxCall) :
    c.run s = (false, s) ∨ (c.run s).1 = true ∧ Posts s (c.run s).2 c := by
  cases c with
  | release =>
    simp only [run, rxRelease]
    split
    · exact Or.inl rfl
    · refine Or.inr ⟨rfl, rfl, ?_, rfl, rfl, ?_⟩
      · exact land_ringMask _
      · simp [lent]
  | releasePaddr p =>
    simp only [run, rxReleasePaddr]
    split
    · exact Or.inl rfl
    · split
      · exact Or.inl rfl
      · rename_i hargs
        refine Or.inr ⟨rfl, rfl, ?_, rfl, rfl, ?_⟩
        · exact land_ringMask _
        · intro q hq
          obtain rfl := Option.some.inj hq
          exact len_of_extArgsOk (by simpa using hargs)
  | releasePaddrNodbl p =>
    simp only [run, rxReleasePaddrNodbl]
    split
    · exact Or.inl rfl
    · split
      · exact Or.inl rfl
      · rename_i hargs
        refine Or.inr ⟨rfl, rfl, ?_, rfl, rfl, ?_⟩
        · exact land_ringMask _
        · intro q hq
          obtain rfl := Option.some.inj hq
          exact len_of_extArgsOk (by simpa using hargs)
  | recv rxBytes =>
    simp only [run, rxRecv]
    split
    · exact Or.inl rfl
    · refine Or.inr ⟨rfl, rfl, ?_, rfl, rfl, ?_⟩
      · exact land_ringMask _
      · simp [lent]

theorem RxCall.run_rejected {s : Session} (hrejected : (c.run s).1 = false) :
    (c.run s).2 = s := by
  rcases c.run_cases s with heq | ⟨haccepted, -⟩
  · rw [heq]
  · rw [haccepted] at hrejected
    cases hrejected

/-! ## The invariant -/

/-- What is recorded for a slot is what ring and cookie say. -/
structure CookieInv (geom : Geometry) (s : CookieSys) : Prop where
  base : s.session.sfc.rxBufferPaddr = geom.rxBufferPaddr
  rxHeadLt : s.session.sfc.rxHead < numRxDesc
  own : ∀ slot, slot < numRxDesc → s.posted slot = none →
    s.session.sfc.rxExtCookie slot = none ∧
      NamesOwnSlot geom.rxBufferPaddr slot (s.session.dev.rxDescRing slot)
  lent : ∀ slot p, s.posted slot = some p →
    s.session.sfc.rxExtCookie slot = p.cookie ∧
      descAddr (s.session.dev.rxDescRing slot) = p.paddr.toNat ∧
      descByteCnt (s.session.dev.rxDescRing slot) = p.len

theorem cookieInv_start (hstart : CookieStart geom s) :
    CookieInv geom s where
  base := hstart.base
  rxHeadLt := hstart.rxHeadLt
  own := by
    intro slot hslot _
    exact ⟨hstart.noCookies slot hslot, hstart.identity slot hslot⟩
  lent := by
    intro slot p hposted
    rw [hstart.nonePosted] at hposted
    cases hposted

theorem CookieInv.coherent (hinv : CookieInv geom s) :
    CookiesCoherent s := by
  intro slot hslot
  cases hposted : s.posted slot with
  | none =>
    refine Or.inl ?_
    rw [hinv.base]
    exact hinv.own slot hslot hposted
  | some p => exact Or.inr ⟨p, hposted, hinv.lent slot p hposted⟩

theorem CookieInv.posts {s' : Session} (hinv : CookieInv geom s) (hposts : Posts s.session s' c)
    (haddr : c.AddrOk)
    (hguard : c.lent = none → s.session.sfc.rxExtCookie s.session.sfc.rxHead = none) :
    CookieInv geom
      { session := s', posted := Function.update s.posted (c.slot s.session) c.lent } where
  base := by
    rw [hposts.base]
    exact hinv.base
  rxHeadLt := by
    rw [hposts.rxHead]
    exact Nat.mod_lt _ (by decide)
  own := by
    intro slot hslot hnone
    change Function.update s.posted (c.slot s.session) c.lent slot = none at hnone
    change s'.sfc.rxExtCookie slot = none ∧
      NamesOwnSlot geom.rxBufferPaddr slot (s'.dev.rxDescRing slot)
    by_cases heq : slot = c.slot s.session
    · -- the library's own buffer, written at rx_head
      subst heq
      rw [Function.update_self] at hnone
      rw [hposts.cookies, hposts.ring, Function.update_self]
      simp only [hnone, hinv.base]
      refine ⟨?_, namesOwnSlot_identityDesc geom hslot⟩
      rw [RxCall.slot_of_own hnone]
      exact hguard hnone
    · rw [Function.update_of_ne heq] at hnone
      rw [hposts.cookies_of_ne heq, hposts.ring_of_ne heq]
      exact hinv.own slot hslot hnone
  lent := by
    intro slot p hsome
    change Function.update s.posted (c.slot s.session) c.lent slot = some p at hsome
    change s'.sfc.rxExtCookie slot = p.cookie ∧ descAddr (s'.dev.rxDescRing slot) = _ ∧
      descByteCnt (s'.dev.rxDescRing slot) = _
    by_cases heq : slot = c.slot s.session
    · subst heq
      rw [Function.update_self] at hsome
      have hlen := hposts.len p hsome
      have hpaddr := haddr p hsome
      rw [hposts.cookies, hposts.ring, Function.update_self]
      simp only [hsome, Function.update_self, descAddr_descWord, descByteCnt_descWord]
      exact ⟨trivial, Nat.mod_eq_of_lt hpaddr, Nat.mod_eq_of_lt hlen⟩
    · rw [Function.update_of_ne heq] at hsome
      rw [hposts.cookies_of_ne heq, hposts.ring_of_ne heq]
      exact hinv.lent slot p hsome

theorem cookieStep_cases {s s' : CookieSys} (hstep : cookieStep s c = some s') :
    ((c.run s.session).1 = false ∧ s' = s) ∨
      ((c.run s.session).1 = true ∧ c.AddrOk ∧ Posts s.session (c.run s.session).2 c ∧
        s' =
          { session := (c.run s.session).2
            posted := Function.update s.posted (c.slot s.session) c.lent }) := by
  unfold cookieStep at hstep
  split at hstep
  · rename_i haddr
    cases hstep
    rcases c.run_cases s.session with hrejected | ⟨haccepted, hposts⟩
    · refine Or.inl ?_
      rw [hrejected]
      exact ⟨rfl, rfl⟩
    · refine Or.inr ⟨haccepted, haddr, hposts, ?_⟩
      simp only [haccepted, if_true]
  · cases hstep

theorem cookieInv_step (s : CookieSys) (c : RxCall) (s' : CookieSys) (hinv : CookieInv geom s)
    (hguard : NoCookieAtHead s c) (hstep : cookieStep s c = some s') :
    CookieInv geom s' := by
  rcases cookieStep_cases hstep with ⟨-, rfl⟩ | ⟨haccepted, haddr, hposts, rfl⟩
  · exact hinv
  · exact hinv.posts hposts haddr fun hown => hguard hown haccepted

/-- A step against the guard leaves the caller's handle beside the library's buffer. -/
theorem not_coherent_of_cookie_at_head (s : CookieSys) (c : RxCall) (s' : CookieSys)
    (hinv : CookieInv geom s) (hbad : ¬ NoCookieAtHead s c)
    (hstep : cookieStep s c = some s') : ¬ CookiesCoherent s' := by
  simp only [NoCookieAtHead, Classical.not_imp] at hbad
  obtain ⟨hown, haccepted, hcookie⟩ := hbad
  rcases cookieStep_cases hstep with ⟨hrejected, -⟩ | ⟨-, -, hposts, rfl⟩
  · rw [haccepted] at hrejected
    cases hrejected
  · have hkept : (c.run s.session).2.sfc.rxExtCookie = s.session.sfc.rxExtCookie := by
      rw [hposts.cookies, hown]
    intro hcoherent
    rcases hcoherent s.session.sfc.rxHead hinv.rxHeadLt with ⟨hnone, -⟩ | ⟨p, hposted, -⟩
    · rw [hkept] at hnone
      exact hcookie hnone
    · change Function.update s.posted (c.slot s.session) c.lent s.session.sfc.rxHead = _ at hposted
      rw [RxCall.slot_of_own hown, Function.update_self, hown] at hposted
      cases hposted

/-! ## The result -/

/-- Descriptors and cookies stay coherent exactly as long as the library's buffer is
never put over a caller's.  A rejected call changes nothing. -/
theorem cookies_coherent_iff {geom : Geometry} {s t : CookieSys} {calls : List RxCall}
    (hstart : CookieStart geom s) (hrun : exec cookieStep s calls = some t) :
    (Along cookieStep CookiesCoherent s calls ↔ Obeys cookieStep NoCookieAtHead s calls) ∧
      ∀ (session : Session) (c : RxCall), (c.run session).1 = false →
        (c.run session).2 = session := by
  refine ⟨?_, fun _ _ => RxCall.run_rejected⟩
  exact along_iff_obeys cookieInv_step (fun s => CookieInv.coherent)
    not_coherent_of_cookie_at_head (cookieInv_start hstart) hrun

/-- A library session on the device as attach leaves it, with the default window. -/
def cookiesAfterAttach : CookieSys where
  session := (rxAfterAttach 64).session
  posted := fun _ => none

theorem cookieStart_cookiesAfterAttach :
    CookieStart ⟨0x100000#64, 0x200000#64, by decide, by decide⟩ cookiesAfterAttach where
  base := rfl
  rxHeadLt := by decide
  identity := ringIsIdentity_postRxBuffers ⟨0x100000#64, 0x200000#64, by decide, by decide⟩ _
  noCookies := fun _ _ => rfl
  nonePosted := fun _ => rfl

/-- A caller's buffer with handle 7. -/
def callerBuffer : Lent := ⟨0x7f000000#64, 1536, some 7⟩

theorem cookies_coherent_two_posts :
    ∃ t, CookieStart ⟨0x100000#64, 0x200000#64, by decide, by decide⟩ cookiesAfterAttach ∧
      exec cookieStep cookiesAfterAttach
        [.releasePaddrNodbl callerBuffer, .release, .releasePaddr callerBuffer] = some t ∧
      Along cookieStep CookiesCoherent cookiesAfterAttach
        [.releasePaddrNodbl callerBuffer, .release, .releasePaddr callerBuffer] := by
  refine ⟨_, cookieStart_cookiesAfterAttach, rfl, ?_⟩
  exact (cookies_coherent_iff cookieStart_cookiesAfterAttach rfl).1.mpr (by decide)

/-- A caller's buffer posted at the tail, 63 releases up to it and one over it. -/
def releaseOverCaller : List RxCall :=
  .releasePaddrNodbl callerBuffer :: List.replicate 64 .release

/-- What is seen of slot 64. -/
def slotSixtyFour (s : CookieSys) : Option Nat × Option Lent × Bool :=
  (s.session.sfc.rxExtCookie 64, s.posted 64,
    decide (NamesOwnSlot 0x100000#64 64 (s.session.dev.rxDescRing 64)))

theorem exec_releaseOverCaller :
    ∃ t, exec cookieStep cookiesAfterAttach releaseOverCaller = some t ∧
      slotSixtyFour t = (some 7, none, true) := by
  have hseen : (exec cookieStep cookiesAfterAttach releaseOverCaller).map slotSixtyFour =
      some (some 7, none, true) := by decide +kernel
  exact Option.map_eq_some_iff.mp hseen

theorem stale_of_slotSixtyFour {t : CookieSys} (h : slotSixtyFour t = (some 7, none, true)) :
    t.session.sfc.rxExtCookie 64 = some 7 ∧
      NamesOwnSlot 0x100000#64 64 (t.session.dev.rxDescRing 64) ∧ ¬ CookiesCoherent t := by
  obtain ⟨hcookie, hposted, hnames⟩ : t.session.sfc.rxExtCookie 64 = some 7 ∧
      t.posted 64 = none ∧ NamesOwnSlot 0x100000#64 64 (t.session.dev.rxDescRing 64) := by
    simpa [slotSixtyFour] using h
  refine ⟨hcookie, hnames, fun hcoherent => ?_⟩
  rcases hcoherent 64 (by decide) with ⟨hnone, -⟩ | ⟨p, hsome, -⟩
  · rw [hcookie] at hnone
    cases hnone
  · rw [hposted] at hsome
    cases hsome

/-- Slot 64 then holds the library's descriptor and the caller's cookie. -/
theorem release_keeps_cookie :
    ∃ t, CookieStart ⟨0x100000#64, 0x200000#64, by decide, by decide⟩ cookiesAfterAttach ∧
      exec cookieStep cookiesAfterAttach releaseOverCaller = some t ∧
      t.session.sfc.rxExtCookie 64 = some 7 ∧
      NamesOwnSlot 0x100000#64 64 (t.session.dev.rxDescRing 64) ∧ ¬ CookiesCoherent t :=
  exec_releaseOverCaller.imp fun _ h =>
    ⟨cookieStart_cookiesAfterAttach, h.1, stale_of_slotSixtyFour h.2⟩

end Userlib
end SfcCapio
