import SfcCapio.Pmd.TxCompletions

/-!
# Lifetime of transmitted mbufs

An mbuf posted in place belongs to the card until its descriptor is reported
finished.  `TxLifetime` says that the driver treats it so: a report frees exactly
the mbufs of the descriptors it is the first to cover, and a burst overwrites no
entry of `inflight[]` that still holds one.

`TxWindow` is the invariant behind it: `inflight[]` is the window of the posted
descriptors from the last one reported on.  It needs a seed from 1 to 16.  The
cursor `last_freed` starts at slot 0, so with seed 0 the first descriptor's slot
is never passed; with a larger seed the slots from 1 up to the seed are passed by
the first report, and from 17 on the ring can have wrapped into them by then.
-/

namespace SfcCapio
namespace Pmd

open Hardware Userlib Kernel Handover Foundation

/-- The mbufs of the descriptors that a report up to `upto` is the first to
cover. -/
def TxSys.finished (s : TxSys) (upto : Nat) : List Nat :=
  ((s.posted.drop s.reported).take (upto - s.reported)).filterMap id

/-- Single-segment frames of at least 60 bytes. -/
def TxLabel.Plain : TxLabel → Prop
  | .burst mbufs bufs => ∀ m ∈ bufs, (mbufs m).nbSegs = 1 ∧ capioMinTxFrame ≤ (mbufs m).pktLen
  | _ => True

instance : DecidablePred TxLabel.Plain := fun l =>
  match l with
  | .burst mbufs bufs =>
    inferInstanceAs (Decidable (∀ m ∈ bufs,
      (mbufs m).nbSegs = 1 ∧ capioMinTxFrame ≤ (mbufs m).pktLen))
  | .complete _ | .event _ => inferInstanceAs (Decidable True)

/-- A report frees the mbufs of the descriptors it newly covers, each once and no
other; a burst overwrites no live entry. -/
structure TxLifetime (s : TxSys) : Prop where
  reaped : ∀ upto, s.CanReport upto → (s.reports upto).acts = (s.finished upto).map .free
  kept : ∀ mbufs bufs, TxLabel.Plain (.burst mbufs bufs) →
    ∀ f ∈ (s.bursts mbufs bufs).2.1, f.Keeps

/-! ## The window of descriptors in flight -/

/-- `inflight[]` holds the descriptors posted and not reported, and nothing else. -/
structure TxWindow (s : TxSys) : Prop extends TxCount 0 s where
  window : ∀ j, s.reported ≤ j → j < s.posted.length →
    s.posted[j]? = some (s.pi.txView.inflight ((s.base + j) % 512))
  live : ∀ slot m, s.pi.txView.inflight slot = some m →
    ∃ j, s.reported ≤ j ∧ j < s.posted.length ∧ (s.base + j) % 512 = slot

/-- The seeds for which the slots passed by the first report were never posted. -/
def SeedOk (s : TxSys) : Prop := 1 ≤ s.base % 512 ∧ s.base % 512 ≤ 16

namespace TxWindow

variable {s : TxSys}

/-- The window is shorter than the ring by two while the counter is below its
limit. -/
theorem room (hinv : TxWindow s) (hseed : SeedOk s) (hcnt : s.pi.txView.cnt < 496) :
    s.posted.length ≤ s.reported + 510 := by
  have hshort := hinv.short
  have hhigh := hseed.2
  split at hshort <;> omega

/-- The slot of the next descriptor holds no mbuf. -/
theorem vacant (hinv : TxWindow s) (hseed : SeedOk s) (hcnt : s.pi.txView.cnt < 496) :
    s.pi.txView.inflight ((s.base + s.posted.length) % 512) = none := by
  have hroom := hinv.room hseed hcnt
  cases hentry : s.pi.txView.inflight ((s.base + s.posted.length) % 512) with
  | none => rfl
  | some m =>
    obtain ⟨j, hlow, hhigh, hslot⟩ := hinv.live _ m hentry
    omega

/-- The window grows by one descriptor, whose mbuf is entered at its slot. -/
theorem grow (hinv : TxWindow s) {s' : TxSys} {desc : Option Nat}
    (hcount : TxCount 0 s') (hbase : s'.base = s.base) (hreported : s'.reported = s.reported)
    (hposted : s'.posted = s.posted ++ [desc])
    (hat : s'.pi.txView.inflight ((s.base + s.posted.length) % 512) = desc)
    (helse : ∀ slot, slot ≠ (s.base + s.posted.length) % 512 →
      s'.pi.txView.inflight slot = s.pi.txView.inflight slot)
    (hroom : s.posted.length ≤ s.reported + 510) : TxWindow s' := by
  have hlen : s'.posted.length = s.posted.length + 1 := by
    rw [hposted, List.length_append, List.length_singleton]
  refine { hcount with window := ?_, live := ?_ }
  · intro j hlow hhigh
    rw [hreported] at hlow
    rw [hbase, hposted]
    by_cases hlast : j = s.posted.length
    · subst hlast
      rw [hat, List.getElem?_concat_length]
    · rw [helse _ (by omega), List.getElem?_append_left (by omega)]
      exact hinv.window j hlow (by omega)
  · intro slot m hentry
    rw [hreported, hlen, hbase]
    by_cases hslot : slot = (s.base + s.posted.length) % 512
    · have hle := hinv.order.1.trans hinv.order.2
      exact ⟨s.posted.length, hle, Nat.lt_succ_self _, hslot.symm⟩
    · rw [helse slot hslot] at hentry
      obtain ⟨j, hlow, hhigh, hj⟩ := hinv.live slot m hentry
      exact ⟨j, hlow, by omega, hj⟩

/-- A single segment keeps the window, and what it overwrites is empty. -/
theorem onFrame (hinv : TxWindow s) (hseed : SeedOk s) {m : Nat}
    (hone : (s.pi.mbufs m).nbSegs = 1) :
    TxWindow (s.after (txOne s.pi m).pi [(txOne s.pi m).fate]) ∧
      (txOne s.pi m).fate.Keeps := by
  have hcounted : (s.pi.mbufs m).shortChain = false := by simp [RteMbuf.shortChain, hone]
  have hcount := hinv.frame m
  rw [hcounted] at hcount
  obtain ⟨-, hcase⟩ := txOne_case s.pi m
  have hhead : s.pi.session.sfc.txHead = (s.base + s.posted.length) % 512 := hinv.head
  generalize hout : (txOne s.pi m).pi = pi' at hcount hcase ⊢
  generalize hview : pi'.txView = v at hcase
  generalize (txOne s.pi m).fate = f at hcount hcase ⊢
  cases hcase with
  | dropped =>
    have hposted : (s.after pi' [TxFate.dropped]).posted = s.posted := List.append_nil _
    refine ⟨{ hcount with window := ?_, live := ?_ }, trivial⟩
    · rw [hposted]
      change ∀ j, s.reported ≤ j → j < s.posted.length →
        s.posted[j]? = some (pi'.txView.inflight ((s.base + j) % 512))
      rw [hview]
      exact hinv.window
    · rw [hposted]
      change ∀ slot m, pi'.txView.inflight slot = some m → _
      rw [hview]
      exact hinv.live
  | linearised hchain hfits => exact absurd hone hchain
  | copied hsingle hroom hcopy =>
    refine ⟨?_, trivial⟩
    apply hinv.grow hcount rfl rfl rfl
    · change pi'.txView.inflight _ = none
      rw [hview]
      exact hinv.vacant hseed hroom
    · intro slot hslot
      change pi'.txView.inflight slot = _
      rw [hview]
      rfl
    · exact hinv.room hseed hroom
  | held hsingle hroom hlong hcopy =>
    have hslotEq : s.pi.txView.head % 512 = (s.base + s.posted.length) % 512 := by
      change s.pi.session.sfc.txHead % 512 = _
      rw [hhead, Nat.mod_mod]
    refine ⟨?_, ?_⟩
    · apply hinv.grow hcount rfl rfl rfl
      · change pi'.txView.inflight _ = some m
        rw [hview]
        simp only [TxView.holding, hslotEq, Function.update_self]
      · intro slot hslot
        change pi'.txView.inflight slot = _
        rw [hview]
        simp only [TxView.holding, hslotEq]
        exact Function.update_of_ne hslot _ _
      · exact hinv.room hseed hroom
    · change s.pi.txView.inflight (s.pi.txView.head % 512) = none
      rw [hslotEq]
      exact hinv.vacant hseed hroom

theorem onFlush (hinv : TxWindow s) :
    TxWindow { s with pi := { s.pi with session := txFlush s.pi.session } } :=
  { hinv.flush with window := hinv.window, live := hinv.live }

/-- A plain burst keeps the window and overwrites no live entry. -/
theorem onBurst (hinv : TxWindow s) (hseed : SeedOk s) {mbufs : Nat → RteMbuf} {bufs : List Nat}
    (hplain : TxLabel.Plain (.burst mbufs bufs)) :
    TxWindow (s.after (s.bursts mbufs bufs).2.2 (s.bursts mbufs bufs).2.1) ∧
      ∀ f ∈ (s.bursts mbufs bufs).2.1, f.Keeps := by
  have hrule := bursts_invariant
    (fun rest u fates => TxLabel.Plain (.burst mbufs rest) ∧ (TxWindow u ∧ u.base = s.base) ∧
      ∀ f ∈ fates, f.Keeps) s mbufs bufs ?_ ?_ ?_
  · obtain ⟨-, -, ⟨hwin, -⟩, hkeeps⟩ := hrule
    exact ⟨hwin, hkeeps⟩
  · refine ⟨hplain, ⟨{ hinv with }, rfl⟩, ?_⟩
    intro f hf
    cases hf
  · rintro u fates m ms hmbufs ⟨hrest, ⟨hu, hbase⟩, hkeeps⟩
    have huseed : SeedOk u := by
      unfold SeedOk
      rw [hbase]
      exact hseed
    have hone : (u.pi.mbufs m).nbSegs = 1 := by
      rw [hmbufs]
      exact (hrest m (List.mem_cons_self ..)).1
    obtain ⟨hnext, hkeep⟩ := hu.onFrame huseed hone
    refine ⟨fun x hx => hrest x (List.mem_cons_of_mem m hx), ⟨hnext, hbase⟩, ?_⟩
    intro f hf
    rcases List.mem_append.mp hf with hold | hnew
    · exact hkeeps f hold
    · rw [List.mem_singleton.mp hnew]
      exact hkeep
  · rintro rest u fates ⟨hrest, ⟨hu, hbase⟩, hkeeps⟩
    exact ⟨hrest, ⟨hu.onFlush, hbase⟩, hkeeps⟩

/-! ### Reports -/

/-- The slots passed by a report are, among those of the window, the slots of the
descriptors it covers. -/
theorem passed_iff (hinv : TxWindow s) (hseed : SeedOk s) {upto j : Nat}
    (hreport : s.CanReport upto) (hlow : s.reported ≤ j) (hhigh : j < s.posted.length) :
    (∃ i, i < TxCount.rounds s upto ∧ (s.pi.txq.lastFreed + 1 + i) % 512 = (s.base + j) % 512) ↔
      j < upto := by
  obtain ⟨hpos, hle, hdone⟩ := hreport
  obtain ⟨hone, hsixteen⟩ := hseed
  have horder := hinv.order
  have hcnt := hinv.cntLe
  have hshort := hinv.short
  have hlast : s.pi.txq.lastFreed = _ := hinv.lastFreed
  unfold TxCount.rounds
  by_cases hfirst : s.reported = 0
  · -- nothing has wrapped yet, so ring slots and descriptors run in parallel
    rw [if_pos hfirst] at hlast hshort
    rw [hlast]
    constructor
    · rintro ⟨i, hi, hslot⟩
      omega
    · intro hj
      exact ⟨s.base % 512 + j - 1, by omega, by omega⟩
  · rw [if_neg hfirst] at hlast hshort
    rw [hlast]
    constructor
    · rintro ⟨i, hi, hslot⟩
      omega
    · intro hj
      exact ⟨j - s.reported, by omega, by omega⟩

/-- A stretch of the window read off `inflight[]`. -/
theorem flatMap_window (hinv : TxWindow s) (n : Nat)
    (hn : s.reported + n ≤ s.posted.length) :
    ((List.range n).flatMap fun i =>
        (s.pi.txq.inflight ((s.base + s.reported + i) % 512)).toList) =
      ((s.posted.drop s.reported).take n).filterMap id := by
  induction n with
  | zero => rfl
  | succ n ih =>
    have hentry : (s.posted.drop s.reported)[n]? =
        some (s.pi.txq.inflight ((s.base + s.reported + n) % 512)) := by
      rw [List.getElem?_drop, hinv.window _ (by omega) (by omega), Nat.add_assoc]
      rfl
    rw [List.range_succ, List.flatMap_append, ih (by omega), List.take_add_one,
      List.filterMap_append, hentry, List.flatMap_singleton]
    cases s.pi.txq.inflight ((s.base + s.reported + n) % 512) <;> rfl

theorem freed_eq (hinv : TxWindow s) (hseed : SeedOk s) {upto : Nat}
    (hreport : s.CanReport upto) :
    (reapRounds (TxCount.rounds s upto) s.pi.txq s.pi.txq.lastFreed).1 = s.finished upto := by
  obtain ⟨hpos, hle, hdone⟩ := hreport
  obtain ⟨hone, hsixteen⟩ := hseed
  have horder := hinv.order
  have hcnt := hinv.cntLe
  have hshort := hinv.short
  have hlast : s.pi.txq.lastFreed = _ := hinv.lastFreed
  have hstretch := hinv.flatMap_window (upto - s.reported) (by omega)
  rw [reapRounds_freed _ _ _ (TxCount.rounds_lt s upto), TxSys.finished, ← hstretch]
  by_cases hfirst : s.reported = 0
  · rw [if_pos hfirst] at hlast hshort
    have hrounds : TxCount.rounds s upto = (s.base % 512 - 1) + (upto - s.reported) := by
      unfold TxCount.rounds
      omega
    -- the slots below the seed hold nothing
    have hbelow : ∀ i ∈ List.range (s.base % 512 - 1),
        (s.pi.txq.inflight ((0 + 1 + i) % 512)).toList = [] := by
      intro i hi
      have hlt := List.mem_range.mp hi
      cases hentry : s.pi.txq.inflight ((0 + 1 + i) % 512) with
      | none => rfl
      | some m =>
        obtain ⟨j, hlow, hhigh, hslot⟩ := hinv.live _ m hentry
        omega
    rw [hlast, hrounds, List.range_add, List.flatMap_append, List.flatMap_map,
      List.flatMap_eq_nil_iff.mpr hbelow, List.nil_append]
    refine List.flatMap_congr ?_
    intro i hi
    have hslot : (0 + 1 + (s.base % 512 - 1 + i)) % 512 = (s.base + s.reported + i) % 512 := by
      omega
    rw [hslot]
  · rw [if_neg hfirst] at hlast hshort
    have hrounds : TxCount.rounds s upto = upto - s.reported := by
      unfold TxCount.rounds
      omega
    rw [hrounds]
    refine List.flatMap_congr ?_
    intro i hi
    have hslot : (s.pi.txq.lastFreed + 1 + i) % 512 = (s.base + s.reported + i) % 512 := by
      omega
    rw [hslot]

theorem reports_acts (hinv : TxWindow s) (hseed : SeedOk s) {upto : Nat}
    (hreport : s.CanReport upto) : (s.reports upto).acts = (s.finished upto).map .free := by
  rw [reports_eq hinv.lastFreed_lt (TxCount.rounds_lt s upto) (hinv.rounds_done upto)]
  exact congrArg (List.map MbufAct.free) (hinv.freed_eq hseed hreport)

theorem onEvent (hinv : TxWindow s) (hseed : SeedOk s) {upto : Nat}
    (hreport : s.CanReport upto) :
    TxWindow { s with pi := (s.reports upto).pi, reported := upto } := by
  have hcount := hinv.event hreport
  have hreports := reports_eq hinv.lastFreed_lt (TxCount.rounds_lt s upto)
    (hinv.rounds_done upto)
  have hinflight : ∀ slot, (s.reports upto).pi.txView.inflight slot =
      if ∃ i, i < TxCount.rounds s upto ∧ (s.pi.txq.lastFreed + 1 + i) % 512 = slot then none
      else s.pi.txq.inflight slot := by
    intro slot
    rw [hreports]
    exact reapRounds_inflight _ _ _ slot
  refine { hcount with window := ?_, live := ?_ }
  · intro j hlow hhigh
    have hbefore : s.reported ≤ j := hreport.2.1.trans hlow
    change s.posted[j]? = some ((s.reports upto).pi.txView.inflight ((s.base + j) % 512))
    rw [hinflight, if_neg, hinv.window j hbefore hhigh]
    · rfl
    · rw [hinv.passed_iff hseed hreport hbefore hhigh]
      exact Nat.not_lt.mpr hlow
  · intro slot m hentry
    change (s.reports upto).pi.txView.inflight slot = some m at hentry
    rw [hinflight] at hentry
    split at hentry
    · cases hentry
    · rename_i hpassed
      obtain ⟨j, hlow, hhigh, hslot⟩ := hinv.live slot m hentry
      rw [← hslot, hinv.passed_iff hseed hreport hlow hhigh] at hpassed
      exact ⟨j, Nat.not_lt.mp hpassed, hhigh, hslot⟩

/-- The window gives every mbuf its lifetime. -/
theorem lifetime (hinv : TxWindow s) (hseed : SeedOk s) : TxLifetime s where
  reaped := fun _ hreport => hinv.reports_acts hseed hreport
  kept := fun _ _ hplain => (hinv.onBurst hseed hplain).2

end TxWindow

variable {base k upto : Nat} {s : TxSys}

theorem txWindow_step (hseed : 1 ≤ base % 512 ∧ base % 512 ≤ 16) (s : TxSys) (a : TxLabel)
    (s' : TxSys) (hinv : TxWindow s ∧ s.base = base)
    (hstep : restrict txStep TxLabel.Plain s a = some s') :
    TxWindow s' ∧ s'.base = base := by
  obtain ⟨hwin, hbase⟩ := hinv
  have hok : SeedOk s := by
    unfold SeedOk
    rw [hbase]
    exact hseed
  unfold restrict at hstep
  split at hstep
  · rename_i hgood
    refine ⟨?_, (txCount_step hwin.toTxCount hstep).2.trans hbase⟩
    cases a with
    | burst mbufs bufs =>
      cases hstep
      exact (hwin.onBurst hok hgood).1
    | complete upto =>
      simp only [txStep] at hstep
      split at hstep
      · rename_i hguard
        cases hstep
        exact { hwin.complete hguard.1 hguard.2 with window := hwin.window, live := hwin.live }
      · cases hstep
    | event upto =>
      simp only [txStep] at hstep
      split at hstep
      · rename_i hguard
        cases hstep
        exact hwin.onEvent hok hguard
      · cases hstep
  · cases hstep

theorem txWindow_txStart {sc : Softc} {rxWindow : Option (BitVec 32)} {rxCopy : Bool}
    {ops : MbufOps} {mbufs : Nat → RteMbuf} (hbase : base % 512 = sc.txHead) :
    TxWindow (txStart sc rxWindow rxCopy ops mbufs base) :=
  { txCount_txStart hbase with
    window := by
      intro j _ hj
      cases hj
    live := by
      intro slot m hentry
      cases hentry }

/-! ## Seeds that break it -/

theorem plain_onePlain (m : Nat) : (onePlain m).Plain := fun _ _ => ⟨rfl, Nat.le_refl 60⟩

/-- The mbufs of the first plain frames are numbered from 0. -/
theorem Posting.finished_eq (hst : Posting base k s)
    (hupto : upto ≤ k) : s.finished upto = List.range upto := by
  rw [TxSys.finished, hst.posted, hst.reported, List.drop_zero, Nat.sub_zero, ← List.map_take,
    List.take_range, Nat.min_eq_left hupto, List.filterMap_map]
  exact List.filterMap_some

/-- Once the card has finished them it can report them. -/
theorem Posting.exec_complete (hst : Posting base k s) (hpos : 1 ≤ upto) (hupto : upto ≤ k) :
    exec txStep s [.complete upto] = some { s with completed := upto } ∧
      TxSys.CanReport { s with completed := upto } upto := by
  have hlen : s.posted.length = k := by
    rw [hst.posted, List.length_map, List.length_range]
  have hguard : s.completed ≤ upto ∧ upto ≤ s.posted.length := by
    rw [hst.completed, hlen]
    exact ⟨Nat.zero_le _, hupto⟩
  refine ⟨?_, hpos, ?_, Nat.le_refl upto⟩
  · have hstep : txStep s (.complete upto) = some { s with completed := upto } := if_pos hguard
    rw [exec_cons_of_some hstep, exec_nil]
  · change s.reported ≤ upto
    rw [hst.reported]
    exact Nat.zero_le _

/-- A report that ends on slot 0 frees nothing. -/
theorem Posting.frees_none (hst : Posting base k s)
    (hslot : (base + upto - 1) % 512 = 0) : (s.reports upto).acts = [] := by
  have hlast : s.pi.txq.lastFreed = 0 := hst.lastFreed
  have hdone : (s.base + upto - 1) % 512 = (s.pi.txq.lastFreed + 0) % 512 := by
    rw [hst.baseEq, hlast]
    exact hslot
  rw [reports_eq (by omega) (by decide) hdone]
  rfl

/-- With a large seed the first report frees the mbuf that has come round to slot 1. -/
theorem Posting.frees_early (hst : Posting base 496 s) (hseed : 18 ≤ base % 512) :
    MbufAct.free (513 - base % 512) ∈ (s.reports 1).acts := by
  have hlast : s.pi.txq.lastFreed = 0 := hst.lastFreed
  have hlt := Nat.mod_lt base (show 0 < 512 by decide)
  have hdone : (s.base + 1 - 1) % 512 = (s.pi.txq.lastFreed + base % 512) % 512 := by
    rw [hst.baseEq, hlast]
    omega
  have hentry : s.pi.txq.inflight 1 = some (513 - base % 512) := by
    have hheld := hst.inflight (513 - base % 512) (by omega)
    have hslot : (base + (513 - base % 512)) % 512 = 1 := by omega
    rw [hslot] at hheld
    exact hheld
  rw [reports_eq (by omega) hlt hdone]
  change _ ∈ (reapRounds (base % 512) s.pi.txq s.pi.txq.lastFreed).1.map MbufAct.free
  rw [reapRounds_freed _ _ _ hlt]
  refine List.mem_map_of_mem (List.mem_flatMap.mpr ⟨0, List.mem_range.mpr (by omega), ?_⟩)
  rw [hlast]
  simp [hentry]

/-- A run that posts `k` plain frames and finishes some of them, for any number the
driver accepts before the first report. -/
theorem exists_finished_run {sc : Softc} {rxWindow : Option (BitVec 32)} {rxCopy : Bool}
    {ops : MbufOps} {mbufs : Nat → RteMbuf} (hbase : base % 512 = sc.txHead) (hk : k ≤ 496)
    (hpos : 1 ≤ upto) (hupto : upto ≤ k) :
    ∃ labels s, Posting base k s ∧ (∀ l ∈ labels, l.Plain) ∧
      exec txStep (txStart sc rxWindow rxCopy ops mbufs base) labels =
        some { s with completed := upto } ∧
      TxSys.CanReport { s with completed := upto } upto := by
  obtain ⟨s, hposts, hst⟩ := exec_onePlain hbase hk
  obtain ⟨hcomplete, hreport⟩ := hst.exec_complete hpos hupto
  refine ⟨_, s, hst, ?_, exec_append hposts hcomplete, hreport⟩
  intro l hl
  rcases List.mem_append.mp hl with hpost | hlast
  · obtain ⟨m, -, rfl⟩ := List.mem_map.mp hpost
    exact plain_onePlain m
  · rw [List.mem_singleton.mp hlast]
    trivial

/-! ## The seeds -/

section Main

variable {sc : Softc} {rxWindow : Option (BitVec 32)} {rxCopy : Bool} {ops : MbufOps}
variable {mbufs : Nat → RteMbuf} {base : Nat}

/-- Transmitted mbufs live as long as they must and no longer exactly for the seeds
from 1 to 16. -/
theorem tx_mbuf_lifetime_iff (hbase : base % 512 = sc.txHead) :
    (∀ labels t, (∀ l ∈ labels, l.Plain) →
      exec txStep (txStart sc rxWindow rxCopy ops mbufs base) labels = some t →
      TxLifetime t) ↔ 1 ≤ sc.txHead ∧ sc.txHead ≤ 16 := by
  constructor
  · intro hall
    -- a report that ends on slot 0 stands still, whatever it covers
    have hstill : ∀ k, 1 ≤ k → k ≤ 496 → (base + k - 1) % 512 ≠ 0 := by
      intro k hpos hk hslot
      obtain ⟨labels, s, hst, hgood, hrun, hreport⟩ :=
        exists_finished_run hbase hk hpos (Nat.le_refl k)
      have hreaped := (hall labels _ hgood hrun).reaped k hreport
      change (s.reports k).acts = (s.finished k).map .free at hreaped
      rw [hst.frees_none hslot, hst.finished_eq (Nat.le_refl k)] at hreaped
      have hlen := congrArg List.length hreaped
      simp only [List.length_nil, List.length_map, List.length_range] at hlen
      omega
    have hlarge : base % 512 ≤ 17 := by
      by_contra hseed
      obtain ⟨labels, s, hst, hgood, hrun, hreport⟩ :=
        exists_finished_run hbase (Nat.le_refl 496) (Nat.le_refl 1) (by decide)
      have hreaped := (hall labels _ hgood hrun).reaped 1 hreport
      change (s.reports 1).acts = (s.finished 1).map .free at hreaped
      have hearly := hst.frees_early (by omega)
      rw [hreaped, hst.finished_eq (by decide)] at hearly
      simp only [List.range_one, List.map_cons, List.map_nil, List.mem_singleton,
        MbufAct.free.injEq] at hearly
      omega
    have hzero := hstill 1 (by decide) (by decide)
    have hseventeen := hstill 496 (by decide) (by decide)
    omega
  · intro hseed labels t hgood hrun
    have hrange : 1 ≤ base % 512 ∧ base % 512 ≤ 16 := by
      rw [hbase]
      exact hseed
    obtain ⟨hwin, hb⟩ := exec_invariant (txWindow_step hrange) ⟨txWindow_txStart hbase, rfl⟩
      (exec_restrict_iff.mpr ⟨hgood, hrun⟩)
    apply hwin.lifetime
    unfold SeedOk
    rw [hb]
    exact hrange

end Main

/-- A port probed after one frame has gone out. -/
theorem tx_mbuf_lifetime_seed_one :
    1 % 512 = { rxIoctlAfterAttach.sc with txHead := 1 }.txHead ∧
      ∀ labels t, (∀ l ∈ labels, l.Plain) →
        exec txStep
          (txStart { rxIoctlAfterAttach.sc with txHead := 1 } none false sampleOps samplePool 1)
          labels = some t →
        TxLifetime t :=
  ⟨rfl, (tx_mbuf_lifetime_iff rfl).mpr (by decide)⟩

/-- On a port probed right after attach the first mbuf is not freed by the report of
its descriptor. -/
theorem tx_first_mbuf_not_freed :
    ∃ labels t, (∀ l ∈ labels, l.Plain) ∧
      exec txStep (txStart rxIoctlAfterAttach.sc none false sampleOps samplePool 0) labels =
        some t ∧
      t.CanReport 1 ∧ t.finished 1 = [0] ∧ (t.reports 1).acts = [] ∧ ¬ TxLifetime t := by
  have hbase : 0 % 512 = rxIoctlAfterAttach.sc.txHead := rfl
  obtain ⟨labels, s, hst, hgood, hrun, hreport⟩ :=
    exists_finished_run hbase (show 1 ≤ 496 by decide) (Nat.le_refl 1) (Nat.le_refl 1)
  have hfinished : TxSys.finished { s with completed := 1 } 1 = [0] :=
    hst.finished_eq (Nat.le_refl 1)
  have hacts : (TxSys.reports { s with completed := 1 } 1).acts = [] := hst.frees_none rfl
  refine ⟨labels, _, hgood, hrun, hreport, hfinished, hacts, ?_⟩
  intro hlife
  have hreaped := hlife.reaped 1 hreport
  rw [hacts, hfinished] at hreaped
  cases hreaped

end Pmd
end SfcCapio
