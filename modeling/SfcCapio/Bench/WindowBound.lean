import SfcCapio.Bench.Throughput

/-!
# How large the throughput window may be

`bench.c` says of `TPUT_WINDOW` that it must stay below the ring depth of 512.  As the frames
of one size are still under way when the next size is primed, what has to stay below 512 is
the window times the number of sizes, and that is exactly what is needed.  Beyond it there is
a run in which the program posts 512 frames before the card has fetched one: `tx_head` is
back where the card stands, and to the card the ring is empty.
-/

namespace SfcCapio
namespace Bench

open Foundation Hardware Userlib

/-- No call has failed; fewer than 512 frames are under way in either direction; what comes
back is what was sent, with the addresses exchanged; and no frame has vanished. -/
structure SafeTput (t : Tput) : Prop where
  alive : t.pc ≠ .failed
  window : ∀ p, (t.net.posted p).length < (t.net.received p.peer).length + 512
  echoes : (t.net.received .pf0).Sublist ((t.net.posted .pf0).map swapped)
  accounted : ∀ p, t.net.Idle p →
    (t.net.posted p).length = (t.net.received p.peer).length + t.net.lost p

theorem TputInv.safe {sizes : List Nat} {window : Nat} {t : Tput}
    (hroom : window * sizes.length < 512) (h : TputInv sizes window t) : SafeTput t where
  alive := h.alive
  window := by
    intro p
    have hflight := h.in_flight p
    omega
  echoes := h.round_trips
  accounted := fun _ => h.fifo.accounted

/-! ## A card that is never served -/

/-- A port without a receive event, posted to `n` times, whose card has not moved from
`pos`. -/
structure IdlePort (pos n : Nat) (p : Port) : Prop where
  ready : p.session.sfc.Ready
  base : p.session.sfc.txBufferPaddr = p.geom.txBufferPaddr
  fetchPos : p.fetchPos = pos
  txHead : p.session.sfc.txHead = (pos + n) % 512
  wptr : txWptr p.session.dev = p.session.sfc.txHead
  events : p.Unannounced
  evs : ∀ ev ∈ p.evs, ev.type ≠ .rx

/-- Only the program has moved: `n` frames are posted at PF0 and nothing has arrived. -/
structure Unattended (n : Nat) (net : Net) : Prop where
  sender : ∃ pos, pos < 512 ∧ IdlePort pos n (net.port .pf0)
  receiver : ∃ pos, IdlePort pos 0 (net.port .pf1)
  posted : (net.posted .pf0).length = n
  received : net.received .pf1 = []
  wire : net.wire .pf0 = []
  lost : net.lost .pf0 = 0

theorem idlePort_start {p : Port} (hstart : PortStart p) :
    IdlePort p.session.sfc.txHead 0 p where
  ready := hstart.ready
  base := hstart.txBase
  fetchPos := hstart.fetchPos
  txHead := by rw [Nat.add_zero, Nat.mod_eq_of_lt hstart.txHead]
  wptr := hstart.wptr
  events := hstart.events
  evs := by
    rw [hstart.evs]
    nofun

theorem unattended_start {net : Net} (hstart : NetStart net) : Unattended 0 net where
  sender := ⟨_, (hstart.port .pf0).txHead, idlePort_start (hstart.port .pf0)⟩
  receiver := ⟨_, idlePort_start (hstart.port .pf1)⟩
  posted := by
    rw [hstart.posted]
    rfl
  received := hstart.received _
  wire := hstart.wire _
  lost := hstart.lost _

section Idle

variable {pos n : Nat} {p : Port}

theorem IdlePort.post (h : IdlePort pos n p) {frame : Frame} (hpos : 0 < frame.length)
    (hlen : frame.length ≤ 2048) :
    (p.post frame).1 = 0 ∧ IdlePort pos (n + 1) (p.post frame).2 := by
  obtain ⟨pending, hev, hcodes⟩ := h.events
  rw [Port.post_eq h.ready h.base hpos hlen]
  refine ⟨rfl, { h.ready with }, h.base, h.fetchPos, ?_, rfl,
    ⟨pending, ⟨{ h.ready with }, hev.evqWptr, hev.holds⟩, hcodes⟩, h.evs⟩
  show (p.session.sfc.txHead + 1) % 512 = (pos + (n + 1)) % 512
  rw [h.txHead]
  omega

theorem IdlePort.poll (h : IdlePort pos n p) :
    (p.poll 8).1.isSome = true ∧ IdlePort pos n (p.poll 8).2 := by
  obtain ⟨pending, hev, hcodes⟩ := h.events
  obtain ⟨taken, rest, used, readPtr, evq, dbl, rfl, -, hpoll, hev⟩ := hev.poll 8
  rw [if_neg (by decide)] at hpoll
  have hport : p.poll 8 = (some (taken.map decodeEvent),
      { p with
        session :=
          { sfc := { p.session.sfc with usedPoll := used, evqReadPtr := readPtr }
            dev := { p.session.dev with evqRing := evq, evqRptrDbl := dbl } }
        evs := taken.map decodeEvent }) := by
    simp only [Port.poll, hpoll, Option.getD_some]
  rw [hport]
  refine ⟨rfl, { h.ready with }, h.base, h.fetchPos, h.txHead, h.wptr,
    ⟨rest, hev, fun w hw => hcodes w (List.mem_append_right _ hw)⟩, ?_⟩
  intro ev hmem
  obtain ⟨w, hw, rfl⟩ := List.mem_map.mp hmem
  rw [Ne, type_decodeEvent]
  exact hcodes w (List.mem_append_left _ hw)

theorem IdlePort.next (h : IdlePort pos n p) {ev : Ev} {evs : List Ev}
    (hevs : p.evs = ev :: evs) :
    p.next = (.other, { p with evs := evs }) ∧ IdlePort pos n { p with evs := evs } := by
  have hall := h.evs
  rw [hevs] at hall
  refine ⟨?_, { h with evs := fun e he => hall e (List.mem_cons_of_mem _ he) }⟩
  simp only [Port.next, hevs]
  rw [if_pos (hall ev List.mem_cons_self)]

theorem IdlePort.quiet (h : IdlePort pos n p) : p.Quiet := by
  obtain ⟨pending, hev, hcodes⟩ := h.events
  refine ⟨List.filter_eq_nil_iff.mpr (by simpa using h.evs), ?_⟩
  intro i hi
  exact (hev.holds.ring.vacant_or_mem hev.holds.readPtrLt hi).imp_right (hcodes _)

end Idle

section Unattended

variable {n : Nat} {net : Net}

theorem Unattended.post (h : Unattended n net) {frame : Frame} (hpos : 0 < frame.length)
    (hlen : frame.length ≤ 2048) :
    (net.post .pf0 frame).1 = 0 ∧ Unattended (n + 1) (net.post .pf0 frame).2 := by
  obtain ⟨pos, hlt, hport⟩ := h.sender
  obtain ⟨hrc, hport'⟩ := hport.post hpos hlen
  refine ⟨hrc, ⟨pos, hlt, ?_⟩, ?_, ?_, h.received, h.wire, h.lost⟩
  · simp only [Net.post, Function.update_self]
    exact hport'
  · simp only [Net.post, Function.update_of_ne (show Pf.pf1 ≠ .pf0 by decide)]
    exact h.receiver
  · simp only [Net.post, hrc, if_true, Function.update_self, List.length_append,
      List.length_singleton, h.posted]

theorem Unattended.update (h : Unattended n net) (p : Pf) {port : Port}
    (hport : ∀ pos m, IdlePort pos m (net.port p) → IdlePort pos m port) :
    Unattended n { net with port := Function.update net.port p port } := by
  have hidle : ∀ q pos m, IdlePort pos m (net.port q) →
      IdlePort pos m (Function.update net.port p port q) := by
    intro q pos m hq
    by_cases heq : q = p
    · subst heq
      rw [Function.update_self]
      exact hport pos m hq
    · rw [Function.update_of_ne heq]
      exact hq
  obtain ⟨pos0, hlt, hport0⟩ := h.sender
  obtain ⟨pos1, hport1⟩ := h.receiver
  exact { h with
    sender := ⟨pos0, hlt, hidle .pf0 _ _ hport0⟩
    receiver := ⟨pos1, hidle .pf1 _ _ hport1⟩ }

theorem Unattended.port (h : Unattended n net) (p : Pf) :
    ∃ pos m, IdlePort pos m (net.port p) := by
  obtain ⟨pos0, -, hport0⟩ := h.sender
  obtain ⟨pos1, hport1⟩ := h.receiver
  cases p with
  | pf0 => exact ⟨pos0, n, hport0⟩
  | pf1 => exact ⟨pos1, 0, hport1⟩

theorem Unattended.poll (h : Unattended n net) (p : Pf) :
    (net.poll p 8).1.isSome = true ∧ Unattended n (net.poll p 8).2 := by
  obtain ⟨pos, m, hport⟩ := h.port p
  exact ⟨hport.poll.1, h.update p fun _ _ hidle => hidle.poll.2⟩

theorem Unattended.next (h : Unattended n net) {p : Pf} {ev : Ev} {evs : List Ev}
    (hevs : (net.port p).evs = ev :: evs) :
    (net.next p).1 = .other ∧ ((net.next p).2.port p).evs = evs ∧
      Unattended n (net.next p).2 := by
  obtain ⟨pos, m, hport⟩ := h.port p
  obtain ⟨hnext, -⟩ := hport.next hevs
  simp only [Net.next, hnext, Function.update_self, true_and]
  exact h.update p fun _ _ hidle => (hidle.next hevs).2

/-- With a whole lap of frames posted the network looks idle. -/
theorem Unattended.idle (h : Unattended 512 net) : net.Idle .pf0 := by
  obtain ⟨pos0, hlt, hport0⟩ := h.sender
  obtain ⟨pos1, hport1⟩ := h.receiver
  refine ⟨?_, h.wire, hport1.quiet⟩
  intro hcan
  apply hcan
  rw [hport0.wptr, hport0.txHead, hport0.fetchPos]
  omega

end Unattended

section Runs

variable {sizes : List Nat} {window n : Nat} {t : Tput}

theorem prime_step (h : Unattended n t.net)
    (hsizes : ∀ size ∈ sizes, 12 ≤ size ∧ size ≤ 2048) (hs : t.s < sizes.length) {k : Nat}
    (hpc : t.pc = .prime k) (hk : k < window) :
    ∃ t', exec (tputStep sizes window) t [.main true] = some t' ∧ Unattended (n + 1) t'.net ∧
      t'.pc = .prime (k + 1) ∧ t'.s = t.s ∧ t'.iter = t.iter := by
  have hsize := hsizes (sizes.getD t.s 0) (by
    rw [List.getD_eq_getElem _ _ hs]
    exact List.getElem_mem hs)
  rw [← length_firstBytes (t.newFrame sizes) (sizes.getD t.s 0)] at hsize
  obtain ⟨hrc, hnet⟩ := h.post (by omega) hsize.2
  have hstep : tputStep sizes window t (.main true) = some (t.sendNew sizes (.prime (k + 1))) := by
    simp only [tputStep, Tput.main, hpc, if_pos hk]
  refine ⟨t.sendNew sizes (.prime (k + 1)), ?_, hnet, ?_, rfl, rfl⟩
  · rw [exec_cons_of_some hstep, exec_nil]
  · simp only [Tput.sendNew]
    rw [if_pos hrc]

/-- The loop over events that are none of them receive events comes to its end. -/
theorem serve_ends (sizes : List Nat) (window : Nat) (t : Tput) (p : Pf) (pc next : TputPc)
    (hover : ∀ net, (net.port p).evs = [] →
      tputStep sizes window { t with net := net, pc := pc } (.main true) =
        some { t with net := net, pc := next })
    (hother : ∀ net, (net.next p).1 = .other →
      tputStep sizes window { t with net := net, pc := pc } (.main true) =
        some { t with net := (net.next p).2, pc := pc }) :
    ∀ evs net, (net.port p).evs = evs → Unattended n net →
      ∃ labels net', exec (tputStep sizes window) { t with net := net, pc := pc } labels =
        some { t with net := net', pc := next } ∧ Unattended n net' := by
  intro evs
  induction evs with
  | nil =>
    intro net hevs h
    exact ⟨[.main true], net, exec_cons_of_some (hover net hevs) [], h⟩
  | cons ev evs ih =>
    intro net hevs h
    obtain ⟨hskip, hrest, hnet⟩ := h.next hevs
    obtain ⟨labels, net', hrun, hnet'⟩ := ih (net.next p).2 hrest hnet
    exact ⟨.main true :: labels, net', (exec_cons_of_some (hother net hskip) _).trans hrun, hnet'⟩

/-- A round in which nothing arrives and the clock runs out: the next size. -/
theorem next_size (h : Unattended n t.net) (hpc : t.pc = .prime window) (hiter : t.iter = 0)
    (hs : t.s + 1 < sizes.length) :
    ∃ labels t', exec (tputStep sizes window) t labels = some t' ∧
      Unattended n t'.net ∧ t'.pc = .prime 0 ∧ t'.s = t.s + 1 ∧ t'.iter = 0 := by
  obtain ⟨hpoll1, hnet1⟩ := h.poll .pf1
  have hprimed : tputStep sizes window t (.main true) = some { t with pc := .poll1 } := by
    simp only [tputStep, Tput.main, hpc, lt_irrefl, if_false]
  have hpolled1 : tputStep sizes window { t with pc := .poll1 } (.main true) =
      some { t with net := (t.net.poll .pf1 8).2, pc := .serve1 } := by
    simp only [tputStep, Tput.main, Tput.pollPort, hpoll1, if_true]
  obtain ⟨labels1, net1, hserved1, hnet1⟩ := serve_ends sizes window t .pf1 .serve1 .poll0
    (fun net hevs => by simp only [tputStep, Tput.main, Net.next_of_nil hevs])
    (fun net hskip => by simp only [tputStep, Tput.main, hskip]) _ _ rfl hnet1
  obtain ⟨hpoll0, hnet0⟩ := hnet1.poll .pf0
  have hpolled0 : tputStep sizes window { t with net := net1, pc := .poll0 } (.main true) =
      some { t with net := (net1.poll .pf0 8).2, pc := .serve0 } := by
    simp only [tputStep, Tput.main, Tput.pollPort, hpoll0, if_true]
  obtain ⟨labels0, net0, hserved0, hnet0⟩ := serve_ends sizes window t .pf0 .serve0 .clock
    (fun net hevs => by simp only [tputStep, Tput.main, Net.next_of_nil hevs])
    (fun net hskip => by simp only [tputStep, Tput.main, hskip]) _ _ rfl hnet0
  have hexpired : tputStep sizes window { t with net := net0, pc := .clock } (.main true) =
      some
        { t with
          net := net0
          s := t.s + 1, seq := 0#32, roundTrips := 0, iter := 0, pc := .prime 0 } := by
    simp only [tputStep, Tput.main, hiter, Nat.zero_mod, and_self, if_true, if_pos hs]
  exact ⟨_, _, (exec_cons_of_some hprimed _).trans <| (exec_cons_of_some hpolled1 _).trans <|
    exec_append hserved1 <| (exec_cons_of_some hpolled0 _).trans <|
    exec_append hserved0 <| exec_cons_of_some hexpired [], hnet0, rfl, rfl, rfl⟩

/-- The program can post the windows of all sizes without any help from the cards. -/
theorem exists_unattended (hsizes : ∀ size ∈ sizes, 12 ≤ size ∧ size ≤ 2048)
    (hstart : TputStart sizes t) (hiter : t.iter = 0) :
    ∀ n, n ≤ window * sizes.length →
      ∃ labels t' k, exec (tputStep sizes window) t labels = some t' ∧ Unattended n t'.net ∧
        t'.pc = .prime k ∧ k ≤ window ∧ window * t'.s + k = n ∧ t'.s < sizes.length ∧
        t'.iter = 0 := by
  intro n
  induction n with
  | zero =>
    intro _
    refine ⟨[], t, 0, rfl, unattended_start hstart.net, hstart.pc, Nat.zero_le _, ?_, ?_, hiter⟩
    · rw [hstart.s, Nat.mul_zero]
    · rw [hstart.s]
      exact hstart.nonempty
  | succ n ih =>
    intro hn
    obtain ⟨labels, t₁, k, hrun, hnet, hpc, hk, hcount, hs, hiter₁⟩ := ih (by omega)
    by_cases hlt : k < window
    · obtain ⟨t₂, hmore, hnet₂, hpc₂, hs₂, hiter₂⟩ := prime_step hnet hsizes hs hpc hlt
      refine ⟨labels ++ [.main true], t₂, k + 1, exec_append hrun hmore, hnet₂, hpc₂, hlt, ?_,
        hs₂ ▸ hs, hiter₂.trans hiter₁⟩
      rw [hs₂]
      omega
    · -- the window is full: on to the next size, and its first frame
      obtain rfl : k = window := by omega
      have hfull : k * (t₁.s + 1) = n := by
        rw [Nat.mul_succ]
        exact hcount
      have hnext : t₁.s + 1 < sizes.length := by
        refine Nat.lt_of_mul_lt_mul_left (a := k) ?_
        omega
      have hpos : 0 < k := by
        refine Nat.pos_of_ne_zero ?_
        rintro rfl
        omega
      obtain ⟨round, t₂, hmore, hnet₂, hpc₂, hs₂, hiter₂⟩ := next_size hnet hpc hiter₁ hnext
      obtain ⟨t₃, hsend, hnet₃, hpc₃, hs₃, hiter₃⟩ :=
        prime_step hnet₂ hsizes (hs₂ ▸ hnext) hpc₂ hpos
      refine ⟨(labels ++ round) ++ [.main true], t₃, 1,
        exec_append (exec_append hrun hmore) hsend, hnet₃, hpc₃, hpos, ?_, ?_,
        hiter₃.trans hiter₂⟩
      · rw [hs₃, hs₂, hfull]
      · rw [hs₃, hs₂]
        exact hnext

end Runs

/-- `run_throughput` is safe on every run, at any speed of the cards and with any losses,
exactly if its window times the number of its sizes is smaller than a ring. -/
theorem run_throughput_safe_iff {sizes : List Nat} {window : Nat}
    (hsizes : ∀ size ∈ sizes, 12 ≤ size ∧ size ≤ 2048) {t : Tput} (hstart : TputStart sizes t) :
    (∀ labels t', exec (tputStep sizes window) t labels = some t' → SafeTput t') ↔
      window * sizes.length < 512 := by
  constructor
  · intro hsafe
    by_contra hbig
    obtain ⟨labels, t', k, hrun, hnet, -⟩ :=
      exists_unattended hsizes hstart hstart.iter 512 (Nat.le_of_not_lt hbig)
    have hall := (hsafe labels t' hrun).accounted .pf0 hnet.idle
    rw [hnet.posted, hnet.lost, show Pf.pf0.peer = .pf1 from rfl, hnet.received] at hall
    cases hall
  · intro hroom labels t' hrun
    exact (exec_invariant (tputInv_step hsizes hroom) (tputInv_start hstart) hrun).safe hroom

/-- `run_throughput` called on two ports just attached. -/
def tputOnCabledNet : Tput where
  net := cabledNet
  mac := #v[0x00#8, 0x0f#8, 0x53#8, 0x01#8, 0x02#8, 0x10#8]
  pc := .prime 0
  s := 0
  seq := 0#32
  roundTrips := 0
  iter := 0
  frame := fun _ => 0#8
  rxbuf := fun _ => 0#8
  len := 0

/-- The benchmark's own constants are safe; a window of 256, below the ring depth, is not. -/
theorem run_throughput_safe_gSizes :
    (∀ labels t', exec (tputStep gSizes tputWindow) tputOnCabledNet labels = some t' →
        SafeTput t') ∧
      ¬ ∀ labels t', exec (tputStep gSizes 256) tputOnCabledNet labels = some t' →
        SafeTput t' := by
  have hstart : TputStart gSizes tputOnCabledNet :=
    ⟨netStart_cabledNet, rfl, rfl, rfl, by decide⟩
  refine ⟨(run_throughput_safe_iff (by decide) hstart).mpr (by decide), ?_⟩
  rw [run_throughput_safe_iff (by decide) hstart]
  decide

end Bench
end SfcCapio
