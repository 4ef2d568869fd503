import SfcCapio.Pmd.RxOwnership

/-!
# The accounts of one receive call

Every round of the event loop of `eth_capio_rx` gets mbufs from the stash or the pool, and may
take the cookie of its slot.  A `Ledger` follows both: what was obtained ends delivered,
posted, freed or in the stash, and a cookie that was used ends delivered, posted or freed.
Ledgers of rounds one after the other add up (`Ledger.append`), so the call has one.

The ledger counts what the call has in hand, from whatever state it starts: whether a cookie is
stale, or the pool hands out an mbuf that someone still uses, makes no difference to it.
-/

namespace SfcCapio
namespace Pmd

open Hardware Userlib Kernel Handover

/-! ## Entries of the log -/

/-- The mbuf an entry is about. -/
def MbufAct.mbuf : MbufAct → Nat
  | .alloc m | .post m | .refuse m | .deliver m | .free m => m

/-- The entry says where an mbuf ends. -/
def MbufAct.Ends : MbufAct → Prop
  | .post _ | .deliver _ | .free _ => True
  | .alloc _ | .refuse _ => False

/-- The entries of `bufs` that a log writes. -/
def deliveries (log : List MbufAct) : List Nat :=
  log.filterMap fun
    | .deliver m => some m
    | _ => none

theorem deliveries_append (log₁ log₂ : List MbufAct) :
    deliveries (log₁ ++ log₂) = deliveries log₁ ++ deliveries log₂ := List.filterMap_append

theorem deliveries_alloc (ms : List Nat) : deliveries (ms.map .alloc) = [] := by
  induction ms with
  | nil => rfl
  | cons m ms ih => exact ih

theorem deliveries_free (ms : List Nat) : deliveries (ms.map .free) = [] := by
  induction ms with
  | nil => rfl
  | cons m ms ih => exact ih

/-- The mbufs `allocs` that the log obtains and the stash together are those that end in
`pool` and the stash that is left; the cookies `taken` end in `cookies`; and all other entries
are frees of `reaped`. -/
def Ledger (log : List MbufAct) (stash stash' taken reaped : List Nat) : Prop :=
  ∃ (allocs : List Nat) (pool cookies : List MbufAct),
    log.Perm (allocs.map .alloc ++ pool ++ cookies ++ reaped.map .free) ∧
    (∀ a ∈ pool ++ cookies, a.Ends) ∧
    (stash ++ allocs).Perm (pool.map MbufAct.mbuf ++ stash') ∧
    cookies.map MbufAct.mbuf = taken

theorem Ledger.nil (stash : List Nat) : Ledger [] stash stash [] [] :=
  ⟨[], [], [], List.Perm.refl _, fun _ ha => absurd ha List.not_mem_nil,
    by rw [List.append_nil]; exact List.Perm.refl _, rfl⟩

theorem Ledger.reaped (stash reaped : List Nat) :
    Ledger (reaped.map .free) stash stash [] reaped :=
  ⟨[], [], [], List.Perm.refl _, fun _ ha => absurd ha List.not_mem_nil,
    by rw [List.append_nil]; exact List.Perm.refl _, rfl⟩

theorem Ledger.append {log₁ log₂ : List MbufAct} {s s' s'' taken₁ taken₂ reaped₁ reaped₂ : List Nat}
    (h₁ : Ledger log₁ s s' taken₁ reaped₁) (h₂ : Ledger log₂ s' s'' taken₂ reaped₂) :
    Ledger (log₁ ++ log₂) s s'' (taken₁ ++ taken₂) (reaped₁ ++ reaped₂) := by
  obtain ⟨allocs₁, pool₁, cookies₁, hlog₁, hends₁, hpool₁, htaken₁⟩ := h₁
  obtain ⟨allocs₂, pool₂, cookies₂, hlog₂, hends₂, hpool₂, htaken₂⟩ := h₂
  refine ⟨allocs₁ ++ allocs₂, pool₁ ++ pool₂, cookies₁ ++ cookies₂, ?_, ?_, ?_, ?_⟩
  · refine List.perm_iff_count.mpr fun a => ?_
    have hcount₁ := hlog₁.count_eq a
    have hcount₂ := hlog₂.count_eq a
    simp only [List.map_append, List.count_append] at hcount₁ hcount₂ ⊢
    omega
  · intro a ha
    simp only [List.mem_append] at ha hends₁ hends₂
    rcases ha with (ha | ha) | (ha | ha)
    · exact hends₁ a (Or.inl ha)
    · exact hends₂ a (Or.inl ha)
    · exact hends₁ a (Or.inr ha)
    · exact hends₂ a (Or.inr ha)
  · refine List.perm_iff_count.mpr fun m => ?_
    have hcount₁ := hpool₁.count_eq m
    have hcount₂ := hpool₂.count_eq m
    simp only [List.map_append, List.count_append] at hcount₁ hcount₂ ⊢
    omega
  · rw [List.map_append, htaken₁, htaken₂]

/-- The mbufs a log obtains from the pool. -/
def obtainedOf (log : List MbufAct) : List Nat :=
  log.filterMap fun
    | .alloc m => some m
    | _ => none

/-- The mbufs a log ends, with repetitions. -/
def endedOf (log : List MbufAct) : List Nat :=
  log.filterMap fun
    | .post m | .deliver m | .free m => some m
    | _ => none

theorem endedOf_append (log₁ log₂ : List MbufAct) :
    endedOf (log₁ ++ log₂) = endedOf log₁ ++ endedOf log₂ := List.filterMap_append

theorem obtainedOf_append (log₁ log₂ : List MbufAct) :
    obtainedOf (log₁ ++ log₂) = obtainedOf log₁ ++ obtainedOf log₂ := List.filterMap_append

theorem endedOf_of_ends {log : List MbufAct} (hends : ∀ a ∈ log, a.Ends) :
    endedOf log = log.map MbufAct.mbuf ∧ obtainedOf log = [] := by
  induction log with
  | nil => exact ⟨rfl, rfl⟩
  | cons a log ih =>
    obtain ⟨hended, hobtained⟩ := ih fun b hb => hends b (List.mem_cons_of_mem a hb)
    have ha := hends a (List.mem_cons_self ..)
    cases a with
    | alloc m => exact ha.elim
    | refuse m => exact ha.elim
    | post m | deliver m | free m => exact ⟨congrArg (m :: ·) hended, hobtained⟩

theorem endedOf_alloc (ms : List Nat) :
    endedOf (ms.map .alloc) = [] ∧ obtainedOf (ms.map .alloc) = ms := by
  induction ms with
  | nil => exact ⟨rfl, rfl⟩
  | cons m ms ih => exact ⟨ih.1, congrArg (m :: ·) ih.2⟩

/-- Both accounts together: what the call has in hand is what it ends and keeps. -/
theorem Ledger.whole {log : List MbufAct} {stash stash' taken reaped : List Nat}
    (h : Ledger log stash stash' taken reaped) :
    (stash ++ obtainedOf log ++ taken ++ reaped).Perm (endedOf log ++ stash') := by
  obtain ⟨allocs, pool, cookies, hlog, hends, hpool, rfl⟩ := h
  have hfree : ∀ a ∈ reaped.map MbufAct.free, a.Ends := by
    intro a ha
    obtain ⟨m, -, rfl⟩ := List.mem_map.mp ha
    trivial
  obtain ⟨hpoolEnds, hpoolNone⟩ := endedOf_of_ends fun a ha => hends a (List.mem_append_left _ ha)
  obtain ⟨hcookieEnds, hcookieNone⟩ :=
    endedOf_of_ends fun a ha => hends a (List.mem_append_right _ ha)
  obtain ⟨hreapEnds, hreapNone⟩ := endedOf_of_ends hfree
  have hended : (endedOf log).Perm
      (pool.map MbufAct.mbuf ++ cookies.map MbufAct.mbuf ++ reaped) := by
    have hperm : (endedOf log).Perm (endedOf (allocs.map .alloc ++ pool ++ cookies ++
        reaped.map .free)) := hlog.filterMap _
    have hreaped : (reaped.map MbufAct.free).map MbufAct.mbuf = reaped := by
      rw [List.map_map]
      exact List.map_id reaped
    rw [endedOf_append, endedOf_append, endedOf_append, (endedOf_alloc allocs).1, hpoolEnds,
      hcookieEnds, hreapEnds, hreaped, List.nil_append] at hperm
    exact hperm
  have hobtained : (obtainedOf log).Perm allocs := by
    have hperm : (obtainedOf log).Perm (obtainedOf (allocs.map .alloc ++ pool ++ cookies ++
        reaped.map .free)) := hlog.filterMap _
    rw [obtainedOf_append, obtainedOf_append, obtainedOf_append, (endedOf_alloc allocs).2,
      hpoolNone, hcookieNone, hreapNone, List.append_nil, List.append_nil, List.append_nil] at hperm
    exact hperm
  refine List.perm_iff_count.mpr fun m => ?_
  have hcount₁ := hended.count_eq m
  have hcount₂ := hobtained.count_eq m
  have hcount₃ := hpool.count_eq m
  simp only [List.count_append] at hcount₁ hcount₂ hcount₃ ⊢
  omega

/-! ## Allocations and the table -/

/-- An allocation moves mbufs between the pool, the stash and the hand. -/
theorem takeMbuf_perm (stash : List Nat) (reply : PoolReply) :
    (stash ++ (takeMbuf stash reply).allocs).Perm
      ((takeMbuf stash reply).mbuf.toList ++ (takeMbuf stash reply).stash) := by
  have hlast : ∀ {ms : List Nat} {m : Nat}, ms.getLast? = some m → ms.Perm (m :: ms.dropLast) := by
    intro ms m hm
    obtain ⟨init, rfl⟩ := List.getLast?_eq_some_iff.mp hm
    rw [List.dropLast_concat]
    exact List.perm_append_singleton m init
  unfold takeMbuf
  cases hstash : stash.getLast? with
  | some m =>
    rw [List.append_nil]
    exact hlast hstash
  | none =>
    rw [List.getLast?_eq_none_iff.mp hstash]
    cases reply.bulk with
    | some ms =>
      cases hms : ms.getLast? with
      | some m =>
        simp only [hms]
        exact hlast hms
      | none =>
        rw [List.getLast?_eq_none_iff.mp hms]
        exact List.Perm.refl _
    | none =>
      cases reply.single with
      | some m => exact List.Perm.refl _
      | none => exact List.Perm.refl _

theorem followedBy_perm (stash : List Nat) (reply₁ reply₂ : PoolReply) (second : Bool) :
    (stash ++ ((takeMbuf stash reply₁).followedBy reply₂ second).allocs).Perm
      (obtained (takeMbuf stash reply₁).mbuf
          (takeMbuf (takeMbuf stash reply₁).stash reply₂).mbuf second ++
        ((takeMbuf stash reply₁).followedBy reply₂ second).stash) := by
  have hfirst := takeMbuf_perm stash reply₁
  cases second with
  | false => exact hfirst
  | true =>
    have hsecond := takeMbuf_perm (takeMbuf stash reply₁).stash reply₂
    refine List.perm_iff_count.mpr fun m => ?_
    have hcount₁ := hfirst.count_eq m
    have hcount₂ := hsecond.count_eq m
    simp only [Taken.followedBy, Taken.andThen, obtained, List.count_append] at hcount₁ hcount₂ ⊢
    omega

section Table

variable {copy : Bool} {libLen extLen : Nat} {cookie got₁ got₂ : Option Nat}
variable {second : Bool} {back : GiveBack} {acts : List MbufAct} {used : Option Nat}

/-- Every line of the table ends what was obtained, and the cookie, once. -/
theorem RxCase.ledger
    (hcase : RxCase copy libLen extLen cookie got₁ got₂ second back acts used) :
    ∃ pool cookies, acts.Perm (pool ++ cookies) ∧ (∀ a ∈ pool ++ cookies, a.Ends) ∧
      (obtained got₁ got₂ second).Perm (pool.map MbufAct.mbuf) ∧
      cookies.map MbufAct.mbuf = used.toList := by
  cases hcase with
  | starvedLibrary hgot hcookie =>
    subst hgot
    exact ⟨[], [], .refl _, by simp, .refl _, rfl⟩
  | @starvedCookie c hgot hcookie =>
    subst hgot
    exact ⟨[], [.post c], .refl _, by simp [MbufAct.Ends], .refl _, rfl⟩
  | @emptyLibrary m hgot hcookie hlen =>
    subst hgot
    exact ⟨[.free m], [], .refl _, by simp [MbufAct.Ends], .refl _, rfl⟩
  | @starvedCopy m hgot hcookie hlen hgot' =>
    subst hgot hgot'
    exact ⟨[.free m], [], .refl _, by simp [MbufAct.Ends], .refl _, rfl⟩
  | @copied m repl hgot hcopy hlen hgot' =>
    subst hgot hgot'
    exact ⟨[.free repl, .deliver m], [], .refl _, by simp [MbufAct.Ends], .swap _ _ _, rfl⟩
  | @swapped m repl hgot hcopy hcookie hlen hgot' =>
    subst hgot hgot'
    exact ⟨[.post repl, .deliver m], [], .refl _, by simp [MbufAct.Ends], .swap _ _ _, rfl⟩
  | @emptyCookie c repl hgot hcopy hcookie hlen =>
    subst hgot
    exact ⟨[.post repl], [.free c], .swap _ _ _, by simp [MbufAct.Ends], .refl _, rfl⟩
  | @handed c repl hgot hcopy hcookie hlen =>
    subst hgot
    exact ⟨[.post repl], [.deliver c], .refl _, by simp [MbufAct.Ends], .refl _, rfl⟩

/-- The cookie is used, unless the copying mode has an mbuf to copy into. -/
theorem RxCase.used_iff
    (hcase : RxCase copy libLen extLen cookie got₁ got₂ second back acts used) :
    used = if copy = false ∨ got₁ = none then cookie else none := by
  cases hcase <;> grind

theorem RxCase.deliveries_le
    (hcase : RxCase copy libLen extLen cookie got₁ got₂ second back acts used) :
    (deliveries acts).length ≤ 1 := by
  cases hcase <;> simp [deliveries]

/-- What the log posts is what the slot was given back with. -/
theorem RxCase.post_mem
    (hcase : RxCase copy libLen extLen cookie got₁ got₂ second back acts used) {m : Nat}
    (hm : .post m ∈ acts) : back = .post m := by
  cases hcase <;> simp_all

end Table

/-! ## Rounds -/

/-- A round of the event loop: the number of the event in the batch, the state the round
starts from, and the event. -/
structure Round where
  index : Nat
  pi : Internals
  ev : Ev

variable (replies : Nat → PoolReply × PoolReply)

namespace Round

/-- What the round does. -/
def out (r : Round) : RxOutcome :=
  pmdEvent r.pi r.ev (replies r.index).1 (replies r.index).2

/-- The cookie that the round takes at `rx_head` and uses as a packet: with `CAPIO_RX_COPY` it
is dropped as soon as there is a replacement. -/
def cookie (r : Round) : Option Nat :=
  if r.ev.type = .rx ∧
      (r.pi.rxCopy = false ∨ (takeMbuf r.pi.rxq.stash (replies r.index).1).mbuf = none) then
    r.pi.session.sfc.rxExtCookie r.pi.session.sfc.rxHead
  else none

/-- The mbufs whose transmission the event reports. -/
def reaped (r : Round) : List Nat :=
  if r.ev.type = .tx then (reap r.pi.txq r.ev.txDescIdx).1 else []

/-- The mbuf that the round posts has a bus address and tailroom. -/
def Fits (r : Round) : Prop :=
  r.ev.type = .rx → EventFits r.pi r.ev.rxBytes (replies r.index).1 (replies r.index).2

end Round

/-- The rounds of a batch. -/
def batchRounds : Nat → Internals → List Ev → List Round
  | _, _, [] => []
  | i, pi, ev :: evs =>
    let out := pmdEvent pi ev (replies i).1 (replies i).2
    ⟨i, pi, ev⟩ :: if out.more then batchRounds (i + 1) out.pi evs else []

/-- The mbuf `m` is in the ring with its cookie, at the tail slot of the round. -/
def Posts (r : Round) (pi' : Internals) (m : Nat) : Prop :=
  pi'.session.sfc.rxExtCookie ((r.pi.session.sfc.rxHead + r.pi.session.sfc.rxWindow) % 512) =
      some m ∧
    ∃ len, pi'.session.dev.rxDescRing
        ((r.pi.session.sfc.rxHead + r.pi.session.sfc.rxWindow) % 512) =
      descWord (r.pi.ops.dataIovaDefault (r.pi.mbufs m)) len

/-- What one round is to leave. -/
structure RoundBalance (r : Round) : Prop where
  more : (r.out replies).more = true
  ready : (r.out replies).pi.session.sfc.Ready
  rxHead : (r.out replies).pi.session.sfc.rxHead % 512 =
    (r.pi.session.sfc.rxHead + if r.ev.type = .rx then 1 else 0) % 512
  written : (deliveries (r.out replies).acts).length ≤ 1
  ledger : Ledger (r.out replies).acts r.pi.rxq.stash (r.out replies).pi.rxq.stash
    (r.cookie replies).toList r.reaped
  posted : ∀ m, .post m ∈ (r.out replies).acts → Posts r (r.out replies).pi m

section Balance

variable {replies} {r : Round}

theorem roundBalance_of_rx (hready : r.pi.session.sfc.Ready) (hrx : r.ev.type = .rx)
    (hfits : r.Fits replies) : RoundBalance replies r := by
  have hout : r.out replies =
      rxEvent r.pi r.ev.rxBytes (replies r.index).1 (replies r.index).2 := by
    rw [Round.out, pmdEvent, hrx]
  obtain ⟨second, back, acts, used, hcase, heff, -⟩ :=
    rxEvent_effect_of_fits hready (hfits hrx)
  rw [← hout] at heff
  have hadvanced := heff.advanced hready
  refine ⟨heff.more, hadvanced.ready, ?_, ?_, ?_, ?_⟩
  · rw [hadvanced.rxHead, if_pos hrx, Nat.mod_mod]
  · rw [heff.log, deliveries_append, deliveries_alloc, List.nil_append]
    exact hcase.deliveries_le
  · obtain ⟨pool, cookies, hperm, hends, hpool, hcookies⟩ := hcase.ledger
    have htaken := followedBy_perm r.pi.rxq.stash (replies r.index).1 (replies r.index).2 second
    have hcookie : r.cookie replies = used := by
      rw [hcase.used_iff, Round.cookie]
      simp only [hrx, true_and]
    have hreaped : r.reaped = [] := by
      rw [Round.reaped, hrx]
      rfl
    rw [heff.log, heff.carries.stash, hcookie, hreaped]
    refine ⟨_, pool, cookies, ?_, hends, htaken.trans (hpool.append_right _), hcookies⟩
    rw [List.map_nil, List.append_nil, List.append_assoc]
    exact hperm.append_left _
  · intro m hm
    rw [heff.log, List.mem_append] at hm
    have hacts : .post m ∈ acts := by
      rcases hm with halloc | hacts
      · obtain ⟨x, -, hx⟩ := List.mem_map.mp halloc
        cases hx
      · exact hacts
    have hsession := heff.session
    rw [hcase.post_mem hacts] at hsession
    obtain ⟨len, hsession⟩ := hsession
    rw [Posts, hsession]
    exact ⟨Function.update_self .., len, Function.update_self ..⟩

/-- Completions and other events change the transmit queue only, and free what is reaped. -/
theorem out_of_not_rx (replies : Nat → PoolReply × PoolReply) (hrx : r.ev.type ≠ .rx) :
    ∃ txq, r.out replies =
      { pi := { r.pi with txq := txq }
        acts := r.reaped.map .free
        used := none
        more := true } := by
  cases htype : r.ev.type with
  | rx => exact absurd htype hrx
  | tx =>
    refine ⟨(reap r.pi.txq r.ev.txDescIdx).2, ?_⟩
    rw [Round.out, pmdEvent, Round.reaped, htype]
    rfl
  | other =>
    refine ⟨r.pi.txq, ?_⟩
    rw [Round.out, pmdEvent, Round.reaped, htype]
    rfl

theorem roundBalance_of_not_rx (hready : r.pi.session.sfc.Ready) (hrx : r.ev.type ≠ .rx) :
    RoundBalance replies r := by
  have hcookie : r.cookie replies = none := by
    rw [Round.cookie, if_neg fun h => hrx h.1]
  obtain ⟨txq, hout⟩ := out_of_not_rx replies hrx
  refine ⟨?_, ?_, ?_, ?_, ?_, ?_⟩
  · rw [hout]
  · rw [hout]
    exact hready
  · rw [hout, if_neg hrx]
    rfl
  · rw [hout, deliveries_free]
    exact Nat.zero_le 1
  · rw [hout, hcookie]
    exact .reaped _ _
  · intro m hm
    rw [hout] at hm
    obtain ⟨x, -, hx⟩ := List.mem_map.mp hm
    cases hx

theorem roundBalance (hready : r.pi.session.sfc.Ready) (hfits : r.Fits replies) :
    RoundBalance replies r := by
  by_cases hrx : r.ev.type = .rx
  · exact roundBalance_of_rx hready hrx hfits
  · exact roundBalance_of_not_rx hready hrx

/-- The rounds of a batch one after the other. -/
structure BatchBalance (replies : Nat → PoolReply × PoolReply) (i : Nat) (pi : Internals)
    (evs : List Ev) : Prop where
  events : (batchRounds replies i pi evs).map Round.ev = evs
  rxHead : (eventLoop replies i pi evs).2.session.sfc.rxHead % 512 =
    (pi.session.sfc.rxHead + evs.countP fun ev => ev.type = .rx) % 512
  written : (deliveries (eventLoop replies i pi evs).1).length ≤ evs.length
  ledger : Ledger (eventLoop replies i pi evs).1 pi.rxq.stash
    (eventLoop replies i pi evs).2.rxq.stash
    ((batchRounds replies i pi evs).flatMap fun r => (r.cookie replies).toList)
    ((batchRounds replies i pi evs).flatMap Round.reaped)
  posted : ∀ r ∈ batchRounds replies i pi evs, ∀ m, .post m ∈ (r.out replies).acts →
    Posts r (r.out replies).pi m

theorem batchBalance {i : Nat} {pi : Internals} {evs : List Ev} (hready : pi.session.sfc.Ready)
    (hfits : ∀ r ∈ batchRounds replies i pi evs, r.Fits replies) :
    BatchBalance replies i pi evs := by
  induction evs generalizing i pi with
  | nil => exact ⟨rfl, rfl, Nat.le_refl 0, .nil _, fun _ hr => absurd hr List.not_mem_nil⟩
  | cons ev evs ih =>
    have hround : RoundBalance replies ⟨i, pi, ev⟩ :=
      roundBalance hready (hfits _ (List.mem_cons_self ..))
    have hmore : (pmdEvent pi ev (replies i).1 (replies i).2).more = true := hround.more
    have hrounds : batchRounds replies i pi (ev :: evs) =
        ⟨i, pi, ev⟩ :: batchRounds replies (i + 1)
          (Round.out replies ⟨i, pi, ev⟩).pi evs := by
      simp only [batchRounds, hmore, if_true]
      rfl
    have hloop : eventLoop replies i pi (ev :: evs) =
        ((Round.out replies ⟨i, pi, ev⟩).acts ++
            (eventLoop replies (i + 1) (Round.out replies ⟨i, pi, ev⟩).pi evs).1,
          (eventLoop replies (i + 1) (Round.out replies ⟨i, pi, ev⟩).pi evs).2) := by
      simp only [eventLoop, hmore, if_true]
      rfl
    have hrest := ih hround.ready fun r hr => hfits r (by
      rw [hrounds]
      exact List.mem_cons_of_mem _ hr)
    refine ⟨?_, ?_, ?_, ?_, ?_⟩
    · rw [hrounds, List.map_cons, hrest.events]
    · have hone := hround.rxHead
      have hothers := hrest.rxHead
      rw [hloop, List.countP_cons]
      simp only [decide_eq_true_eq] at hone ⊢
      omega
    · have hone := hround.written
      have hothers := hrest.written
      rw [hloop, deliveries_append, List.length_append, List.length_cons]
      omega
    · rw [hloop, hrounds, List.flatMap_cons, List.flatMap_cons]
      exact hround.ledger.append hrest.ledger
    · intro r hr
      rw [hrounds] at hr
      rcases List.mem_cons.mp hr with rfl | hr
      · exact hround.posted
      · exact hrest.posted r hr

end Balance

/-! ## The call -/

/-- The batch that the call polls. -/
def polledEvents (pi : Internals) (nbBufs : Nat) : List Ev :=
  ((poll pi.session (min nbBufs capioMaxBurst : Nat)).1).getD []

/-- The rounds of the call. -/
def callRounds (pi : Internals) (nbBufs : Nat) : List Round :=
  batchRounds replies 0
    { pi with session := (poll pi.session (min nbBufs capioMaxBurst : Nat)).2 }
    (polledEvents pi nbBufs)

/-- What one call of `eth_capio_rx` is to leave: `rx_head` advances by the receive events of
the batch, no more of `bufs` is written than there is room for, what the call obtained and
what it took are accounted for, and what it posted is in the ring with its cookie. -/
structure RxBalance (pi : Internals) (nbBufs : Nat) : Prop where
  batch : (callRounds replies pi nbBufs).map Round.ev = polledEvents pi nbBufs
  rxHead : (ethCapioRx pi nbBufs replies).2.session.sfc.rxHead % numRxDesc =
    (pi.session.sfc.rxHead + (polledEvents pi nbBufs).countP fun ev => ev.type = .rx) %
      numRxDesc
  written : (deliveries (ethCapioRx pi nbBufs replies).1).length ≤ nbBufs
  ledger : Ledger (ethCapioRx pi nbBufs replies).1 pi.rxq.stash
    (ethCapioRx pi nbBufs replies).2.rxq.stash
    ((callRounds replies pi nbBufs).flatMap fun r => (r.cookie replies).toList)
    ((callRounds replies pi nbBufs).flatMap Round.reaped)
  whole : (pi.rxq.stash ++ obtainedOf (ethCapioRx pi nbBufs replies).1 ++
      ((callRounds replies pi nbBufs).flatMap fun r => (r.cookie replies).toList) ++
      (callRounds replies pi nbBufs).flatMap Round.reaped).Perm
    (endedOf (ethCapioRx pi nbBufs replies).1 ++ (ethCapioRx pi nbBufs replies).2.rxq.stash)
  posted : ∀ r ∈ callRounds replies pi nbBufs, ∀ m, .post m ∈ (r.out replies).acts →
    Posts r (r.out replies).pi m

theorem length_pollLoop_le (left : Nat) (evq : Nat → BitVec 64) (readPtr : Nat) :
    (pollLoop left evq readPtr).1.length ≤ left := by
  induction left generalizing evq readPtr with
  | zero => exact Nat.le_refl 0
  | succ left ih =>
    rw [pollLoop]
    split
    · exact Nat.zero_le _
    · rw [List.length_cons]
      exact Nat.succ_le_succ (ih _ _)

theorem length_polledEvents_le (pi : Internals) (nbBufs : Nat) :
    (polledEvents pi nbBufs).length ≤ nbBufs := by
  unfold polledEvents poll
  split
  · exact Nat.zero_le _
  · split
    · exact Nat.zero_le _
    · have hle := length_pollLoop_le (min nbBufs capioMaxBurst) pi.session.dev.evqRing
        pi.session.sfc.evqReadPtr
      simp only [Option.getD_some, Int.toNat_natCast]
      omega

/-- The call is its batch, followed by the doorbell. -/
theorem ethCapioRx_eq (pi : Internals) (nbBufs : Nat) :
    (ethCapioRx pi nbBufs replies).1 =
        (eventLoop replies 0
          { pi with session := (poll pi.session (min nbBufs capioMaxBurst : Nat)).2 }
          (polledEvents pi nbBufs)).1 ∧
      (ethCapioRx pi nbBufs replies).2.rxq =
        (eventLoop replies 0
          { pi with session := (poll pi.session (min nbBufs capioMaxBurst : Nat)).2 }
          (polledEvents pi nbBufs)).2.rxq ∧
      (ethCapioRx pi nbBufs replies).2.session.sfc =
        (eventLoop replies 0
          { pi with session := (poll pi.session (min nbBufs capioMaxBurst : Nat)).2 }
          (polledEvents pi nbBufs)).2.session.sfc := by
  cases hpoll : (poll pi.session (min nbBufs capioMaxBurst : Nat)).1 with
  | none =>
    simp only [ethCapioRx, polledEvents, hpoll]
    exact ⟨rfl, rfl, rfl⟩
  | some evs =>
    cases evs with
    | nil =>
      simp only [ethCapioRx, polledEvents, hpoll]
      exact ⟨rfl, rfl, rfl⟩
    | cons ev evs =>
      simp only [ethCapioRx, polledEvents, hpoll]
      exact ⟨rfl, rfl, rxFlush_sfc _⟩

/-- **The accounts of a receive call.**  For every state of a port with a ready session, every
batch and every answer of the pool, in both modes, if the mbufs that are posted have a bus
address and tailroom. -/
theorem rx_accounts_balance (pi : Internals) (nbBufs : Nat)
    (replies : Nat → PoolReply × PoolReply) (hready : pi.session.sfc.Ready)
    (hfits : ∀ r ∈ callRounds replies pi nbBufs, r.Fits replies) :
    RxBalance replies pi nbBufs := by
  obtain ⟨used, readPtr, hsfc⟩ := poll_sfc pi.session (min nbBufs capioMaxBurst : Nat)
  obtain ⟨hlog, hrxq, hsession⟩ := ethCapioRx_eq replies pi nbBufs
  have hready' : (poll pi.session (min nbBufs capioMaxBurst : Nat)).2.sfc.Ready := by
    rw [hsfc]
    exact { hready with }
  have hbatch := batchBalance hready' hfits
  have hledger := hbatch.ledger
  rw [← hlog, ← hrxq] at hledger
  refine ⟨hbatch.events, ?_, ?_, hledger, hledger.whole, hbatch.posted⟩
  · have hhead := hbatch.rxHead
    rw [← hsession, hsfc] at hhead
    exact hhead
  · rw [hlog]
    exact Nat.le_trans hbatch.written (length_polledEvents_le pi nbBufs)

/-- A port right after attach that finds one frame in the event queue. -/
def oneFrameArrived : Internals :=
  let pi := ethDevCapioCreate rxIoctlAfterAttach.sc none false sampleOps samplePool
  { pi with
    session :=
      { pi.session with
        dev :=
          { pi.session.dev with
            evqRing := Function.update pi.session.dev.evqRing 0 0x4a#64 } } }

/-- The pool has mbufs 1 and 2. -/
def twoMbufs (_ : Nat) : PoolReply × PoolReply := (.one (some 1), .one (some 2))

theorem rx_accounts_balance_one :
    (polledEvents oneFrameArrived 4).length = 1 ∧ RxBalance twoMbufs oneFrameArrived 4 := by
  refine ⟨by decide +kernel, rx_accounts_balance _ _ _ ⟨rfl, rfl, rfl, rfl, rfl, rfl, rfl⟩ ?_⟩
  intro r hr
  have hround : r ∈ [(⟨0, { oneFrameArrived with session := (poll oneFrameArrived.session 4).2 },
    decodeEvent 0x4a#64⟩ : Round)] := hr
  rw [List.mem_singleton.mp hround]
  intro _
  exact eventFits_of_postable _ _ _ postable_samplePool (fun y hy => absurd hy List.not_mem_nil)
    (fun c hc => absurd (show none = some c from hc) (by simp))
    (fun m h₁ h₂ => absurd
      ((show some 1 = some m from h₁).trans (show some 2 = some m from h₂).symm) (by simp))

end Pmd
end SfcCapio
