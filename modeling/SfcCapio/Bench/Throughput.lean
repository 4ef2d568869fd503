import SfcCapio.Bench.Net

/-!
# The throughput benchmark

`run_throughput` primes a window of frames at PF0, reflects every arrival at PF1 with the
MAC addresses swapped, and launches a new frame at PF0 for every echo that comes back.  It
does so for each of the frame sizes in turn, for as long as the clock says, and it does not
wait for the frames under way when it goes on to the next size.  So the frames under way add
up: after `n` sizes there may be `n` windows of them, and the rings are large enough if the
window times the number of sizes is.

The clock is not modelled: at each of its readings the two seconds may be over.  Printing and
the rates computed from `round_trips` are left out.
-/

namespace SfcCapio
namespace Bench

open Foundation Hardware Userlib

/-! ## Frames -/

/-- The first `n` bytes of an array. -/
def firstBytes (mem : Nat → BitVec 8) (n : Nat) : Frame := (List.range n).map mem

/-- `memcpy(tmp, &frame[off], 6)`. -/
def macAt (mem : Nat → BitVec 8) (off : Nat) : Frame := (List.range 6).map fun i => mem (off + i)

/-- The four bytes of `seq` in memory. -/
def seqBytes (seq : BitVec 32) : Frame :=
  [seq.extractLsb' 0 8, seq.extractLsb' 8 8, seq.extractLsb' 16 8, seq.extractLsb' 24 8]

/-- `build_frame`, with `ETHERTYPE` 0x88B5. -/
def buildFrame (frame : Nat → BitVec 8) (dst src : Vector (BitVec 8) 6) (len : Nat)
    (seq : BitVec 32) : Nat → BitVec 8 :=
  let frame := copyTo frame 0 (List.replicate len 0#8)
  let frame := copyTo frame 0 dst.toList
  let frame := copyTo frame 6 src.toList
  let frame := Function.update frame 12 0x88#8
  let frame := Function.update frame 13 0xb5#8
  let frame := copyTo frame 14 (seqBytes seq)
  if len > 18 then copyTo frame 18 (List.replicate (len - 18) 0xa5#8) else frame

/-- `swap_mac`. -/
def swapMac (frame : Nat → BitVec 8) : Nat → BitVec 8 :=
  copyTo (copyTo frame 0 (macAt frame 6)) 6 (macAt frame 0)

/-- A frame with its two addresses exchanged. -/
def swapped (frame : Frame) : Frame :=
  (frame.drop 6).take 6 ++ frame.take 6 ++ frame.drop 12

@[simp] theorem length_firstBytes (mem : Nat → BitVec 8) (n : Nat) :
    (firstBytes mem n).length = n := by
  rw [firstBytes, List.length_map, List.length_range]

theorem firstBytes_copyTo (mem : Nat → BitVec 8) (frame : Frame) :
    firstBytes (copyTo mem 0 frame) frame.length = frame := by
  refine map_range_of_agrees ?_
  intro j b hj
  have hlt : j < frame.length := (List.getElem?_eq_some_iff.mp hj).1
  rw [copyTo, if_pos (by omega), Nat.sub_zero, List.getD_eq_getElem?_getD, hj, Option.getD_some]

theorem firstBytes_split (mem : Nat → BitVec 8) (m : Nat) :
    firstBytes mem (12 + m) =
      macAt mem 0 ++ macAt mem 6 ++ (List.range m).map fun i => mem (12 + i) := by
  rw [firstBytes, List.range_add, List.map_append, List.map_map]
  rfl

theorem swapped_split (dst src payload : Frame) (hdst : dst.length = 6) (hsrc : src.length = 6) :
    swapped (dst ++ src ++ payload) = src ++ dst ++ payload := by
  have hfirst : (dst ++ src ++ payload).take 6 = dst := by
    rw [List.append_assoc, List.take_left' hdst]
  have hsecond : ((dst ++ src ++ payload).drop 6).take 6 = src := by
    rw [List.append_assoc, List.drop_left' hdst, List.take_left' hsrc]
  have hrest : (dst ++ src ++ payload).drop 12 = payload := by
    refine List.drop_left' ?_
    rw [List.length_append, hdst, hsrc]
  rw [swapped, hfirst, hsecond, hrest]

/-- `swap_mac` on an array that begins with a frame of at least twelve bytes. -/
theorem firstBytes_swapMac (mem : Nat → BitVec 8) {n : Nat} (hn : 12 ≤ n) :
    firstBytes (swapMac mem) n = swapped (firstBytes mem n) := by
  obtain ⟨m, rfl⟩ := Nat.exists_eq_add_of_le hn
  have hdst : macAt (swapMac mem) 0 = macAt mem 6 := rfl
  have hsrc : macAt (swapMac mem) 6 = macAt mem 0 := rfl
  have hrest : ∀ i, swapMac mem (12 + i) = mem (12 + i) := by
    intro i
    simp only [swapMac, copyTo, macAt, List.length_map, List.length_range]
    rw [if_neg (by omega), if_neg (by omega)]
  rw [firstBytes_split, firstBytes_split, hdst, hsrc,
    swapped_split _ _ _ (by rfl) (by rfl)]
  simp only [hrest]

/-! ## The program -/

/-- Where `run_throughput` stands. -/
inductive TputPc
  /-- At the head of the priming loop. -/
  | prime (k : Nat)
  | poll1
  /-- In the loop over the events of PF1. -/
  | serve1
  /-- `swap_mac` and `sfc7120_tx_post` of the frame in `rxbuf`. -/
  | echo
  | poll0
  /-- In the loop over the events of PF0. -/
  | serve0
  /-- `build_frame` and `sfc7120_tx_post` after an echo has come back. -/
  | launch
  | clock
  | done
  /-- `return -1`. -/
  | failed
deriving DecidableEq

/-- The program and the network; `s` is the index of the size in `g_sizes`, and `mac` is
`pf0->mac_addr`. -/
structure Tput where
  net : Net
  mac : Vector (BitVec 8) 6
  pc : TputPc
  s : Nat
  seq : BitVec 32
  roundTrips : Nat
  iter : Nat
  frame : Nat → BitVec 8
  rxbuf : Nat → BitVec 8
  len : Nat

/-- `dst`: PF0's address plus one in the last octet. -/
def dstMac (mac : Vector (BitVec 8) 6) : Vector (BitVec 8) 6 := mac.set 5 (mac[5] + 1#8)

section Program

variable (sizes : List Nat) (window : Nat)

/-- `build_frame(frame, dst, pf0->mac_addr, size, seq)`. -/
def Tput.newFrame (t : Tput) : Nat → BitVec 8 :=
  buildFrame t.frame (dstMac t.mac) t.mac (sizes.getD t.s 0) t.seq

/-- A new frame is built, `seq` incremented and the frame posted at PF0. -/
def Tput.sendNew (t : Tput) (pc : TputPc) : Tput :=
  let frame := t.newFrame sizes
  let out := t.net.post .pf0 (firstBytes frame (sizes.getD t.s 0))
  { t with
    net := out.2
    frame := frame
    seq := t.seq + 1#32
    pc := if out.1 = 0 then pc else .failed }

/-- `sfc7120_poll(pf, evs, 8)`. -/
def Tput.pollPort (t : Tput) (p : Pf) (pc : TputPc) : Tput :=
  let out := t.net.poll p 8
  { t with net := out.2, pc := if out.1.isSome then pc else .failed }

/-- One move of the program; `expired` is what the clock says, if it is asked. -/
def Tput.main (t : Tput) (expired : Bool) : Option Tput :=
  match t.pc with
  | .prime k =>
    if k < window then some (t.sendNew sizes (.prime (k + 1)))
    else some { t with pc := .poll1 }
  | .poll1 => some (t.pollPort .pf1 .serve1)
  | .serve1 =>
    let out := t.net.next .pf1
    match out.1 with
    | .over => some { t with pc := .poll0 }
    | .other => some { t with net := out.2 }
    | .error => some { t with net := out.2, pc := .failed }
    | .frame frame =>
      some
        { t with
          net := out.2
          rxbuf := copyTo t.rxbuf 0 frame
          len := frame.length
          pc := .echo }
  | .echo =>
    let rxbuf := swapMac t.rxbuf
    let out := t.net.post .pf1 (firstBytes rxbuf t.len)
    some
      { t with
        net := out.2
        rxbuf := rxbuf
        pc := if out.1 = 0 then .serve1 else .failed }
  | .poll0 => some (t.pollPort .pf0 .serve0)
  | .serve0 =>
    let out := t.net.next .pf0
    match out.1 with
    | .over => some { t with pc := .clock }
    | .other => some { t with net := out.2 }
    | .error => some { t with net := out.2, pc := .failed }
    | .frame frame =>
      some
        { t with
          net := out.2
          rxbuf := copyTo t.rxbuf 0 frame
          len := frame.length
          roundTrips := t.roundTrips + 1
          pc := .launch }
  | .launch => some (t.sendNew sizes .serve0)
  | .clock =>
    if t.iter % 256 = 0 ∧ expired = true then
      if t.s + 1 < sizes.length then
        some
          { t with
            s := t.s + 1, seq := 0#32, roundTrips := 0, iter := 0, pc := .prime 0 }
      else some { t with s := t.s + 1, iter := t.iter + 1, pc := .done }
    else some { t with iter := t.iter + 1, pc := .poll1 }
  | .done => none
  | .failed => none

/-- A card or the program moves. -/
inductive TputLabel
  | card (c : CardLabel)
  | main (expired : Bool)

def tputStep (t : Tput) : TputLabel → Option Tput
  | .card c => (t.net.card c).map fun net => { t with net := net }
  | .main expired => t.main sizes window expired

/-- Entry of `run_throughput`, with no frame under way: first in its session or after
`run_latency`, which waits for each of its frames but not for the completions. -/
structure TputStart (t : Tput) : Prop where
  net : NetStart t.net
  pc : t.pc = .prime 0
  s : t.s = 0
  iter : t.iter = 0
  nonempty : 0 < sizes.length

end Program

/-! ## The invariant -/

namespace TputPc

/-- Frames of the current size that priming has sent. -/
def primed (window : Nat) : TputPc → Nat
  | prime k => k
  | done => 0
  | _ => window

/-- An echo has come back whose successor has not been launched. -/
def due : TputPc → Nat
  | launch => 1
  | _ => 0

end TputPc

/-- The frame that PF1 has received and not reflected. -/
def Tput.owed (t : Tput) : List Frame :=
  if t.pc = .echo then [firstBytes t.rxbuf t.len] else []

/-- Frames under way at PF0 are those of the windows primed so far; PF1 reflects each
arrival once. -/
structure TputInv (sizes : List Nat) (window : Nat) (t : Tput) : Prop where
  fifo : IsFifo t.net
  alive : t.pc ≠ .failed
  size : t.pc ≠ .done → t.s < sizes.length
  primed : t.pc.primed window ≤ window
  total : window * t.s + t.pc.primed window ≤ window * sizes.length
  budget : (t.net.posted .pf0).length + t.pc.due =
    (t.net.received .pf0).length + (window * t.s + t.pc.primed window)
  frames : ∀ frame ∈ t.net.posted .pf0, 12 ≤ frame.length ∧ frame.length ≤ 2048
  echoes : ∃ replied, t.net.received .pf1 = replied ++ t.owed ∧
    t.net.posted .pf1 = replied.map swapped
  evs1 : t.pc ≠ .serve1 → t.pc ≠ .echo → (t.net.port .pf1).evs = []
  evs0 : t.pc ≠ .serve0 → t.pc ≠ .launch → (t.net.port .pf0).evs = []

section Invariant

variable {sizes : List Nat} {window : Nat} {t t' : Tput}

theorem tputInv_start (hstart : TputStart sizes t) : TputInv sizes window t where
  fifo := isFifo_start hstart.net
  alive := by
    rw [hstart.pc]
    decide
  size := by
    intro _
    rw [hstart.s]
    exact hstart.nonempty
  primed := by
    rw [hstart.pc]
    exact Nat.zero_le _
  total := by
    rw [hstart.pc, hstart.s]
    exact Nat.zero_le _
  budget := by
    rw [hstart.pc, hstart.s, hstart.net.posted, hstart.net.received]
    rfl
  frames := by
    rw [hstart.net.posted]
    exact List.forall_mem_nil _
  echoes := by
    refine ⟨[], ?_, ?_⟩
    · rw [hstart.net.received, Tput.owed, hstart.pc, if_neg (by decide)]
      rfl
    · rw [hstart.net.posted]
      rfl
  evs1 := fun _ _ => (hstart.net.port .pf1).evs
  evs0 := fun _ _ => (hstart.net.port .pf0).evs

/-- Each count is at most the one before it on the way of a frame. -/
theorem TputInv.counts (h : TputInv sizes window t) :
    (t.net.received .pf0).length ≤ (t.net.posted .pf1).length ∧
      (t.net.posted .pf1).length + t.owed.length = (t.net.received .pf1).length ∧
      (t.net.received .pf1).length ≤ (t.net.posted .pf0).length := by
  obtain ⟨replied, hreceived, hposted⟩ := h.echoes
  refine ⟨(h.fifo.received_sublist .pf1).length_le, ?_, (h.fifo.received_sublist .pf0).length_le⟩
  rw [hreceived, hposted, List.length_append, List.length_map]

/-- At most the windows of all sizes are under way, on either side. -/
theorem TputInv.in_flight (h : TputInv sizes window t) (p : Pf) :
    (t.net.posted p).length ≤ (t.net.received p.peer).length + window * sizes.length := by
  obtain ⟨hback, hreflected, hout⟩ := h.counts
  have hbudget := h.budget
  have htotal := h.total
  cases p with
  | pf0 =>
    show (t.net.posted .pf0).length ≤ (t.net.received .pf1).length + _
    omega
  | pf1 =>
    show (t.net.posted .pf1).length ≤ (t.net.received .pf0).length + _
    omega

variable {frame : Frame} {net : Net} {pc : TputPc} {expired : Bool}

/-- Every frame that PF1 receives is long enough to be swapped. -/
theorem TputInv.received_frames (h : TputInv sizes window t)
    (hmem : frame ∈ t.net.received .pf1) : 12 ≤ frame.length ∧ frame.length ≤ 2048 :=
  h.frames frame ((h.fifo.received_sublist .pf0).subset hmem)

/-- What comes back is what was sent, with the addresses exchanged. -/
theorem TputInv.round_trips (h : TputInv sizes window t) :
    (t.net.received .pf0).Sublist ((t.net.posted .pf0).map swapped) := by
  obtain ⟨replied, hreceived, hposted⟩ := h.echoes
  have hback := h.fifo.received_sublist .pf1
  have hout := h.fifo.received_sublist .pf0
  have hreplied : replied.Sublist (t.net.received .pf1) := by
    rw [hreceived]
    exact List.sublist_append_left _ _
  rw [hposted] at hback
  exact hback.trans ((hreplied.trans hout).map swapped)

theorem tputInv_card (h : TputInv sizes window t) {c : CardLabel}
    (hstep : t.net.card c = some net) : TputInv sizes window { t with net := net } := by
  obtain ⟨hposted, hreceived, hevs⟩ := Net.card_frame hstep
  refine ⟨h.fifo.card hstep, h.alive, h.size, h.primed, h.total, ?_, ?_, ?_, ?_, ?_⟩
  · simp only [hposted, hreceived]
    exact h.budget
  · simp only [hposted]
    exact h.frames
  · simp only [hposted, hreceived]
    exact h.echoes
  · simp only [hevs]
    exact h.evs1
  · simp only [hevs]
    exact h.evs0

/-- A new frame is posted at PF0 while there is room for one. -/
theorem TputInv.sendNew (h : TputInv sizes window t)
    (hsizes : ∀ size ∈ sizes, 12 ≤ size ∧ size ≤ 2048) (hs : t.s < sizes.length)
    (hroom : (t.net.posted .pf0).length + 1 < (t.net.received .pf1).length + 512)
    (pc : TputPc) :
    ∃ frame, (12 ≤ frame.length ∧ frame.length ≤ 2048) ∧ (t.sendNew sizes pc).pc = pc ∧
      (t.sendNew sizes pc).net.posted =
        Function.update t.net.posted .pf0 (t.net.posted .pf0 ++ [frame]) ∧
      IsFifo (t.sendNew sizes pc).net ∧
      ∀ q, ((t.sendNew sizes pc).net.port q).evs = (t.net.port q).evs := by
  have hsize := hsizes (sizes.getD t.s 0) (by
    rw [List.getD_eq_getElem _ _ hs]
    exact List.getElem_mem hs)
  have hlen : (firstBytes (t.newFrame sizes) (sizes.getD t.s 0)).length = sizes.getD t.s 0 :=
    length_firstBytes _ _
  rw [← hlen] at hsize
  obtain ⟨hrc, hposted, hfifo⟩ := h.fifo.post (p := .pf0) hroom _ (by omega) hsize.2
  refine ⟨_, hsize, ?_, hposted, hfifo, fun q => Net.evs_post _⟩
  simp only [Tput.sendNew]
  rw [if_pos hrc]

/-- The effect of a new frame on the accounts. -/
theorem TputInv.sent (h : TputInv sizes window t) (hsizes : ∀ size ∈ sizes, 12 ≤ size ∧ size ≤ 2048)
    (hroom : window * sizes.length < 512) (hecho : t.pc ≠ .echo) (hpc : t.pc ≠ .done)
    (hnext : pc ≠ .echo) (halive : pc ≠ .failed) (hprimed : pc.primed window ≤ window)
    (hbudget : t.pc.primed window + pc.due + 1 = pc.primed window + t.pc.due)
    (hevs1 : pc ≠ .serve1 → (t.net.port .pf1).evs = [])
    (hevs0 : pc ≠ .serve0 → pc ≠ .launch → (t.net.port .pf0).evs = []) :
    TputInv sizes window (t.sendNew sizes pc) := by
  obtain ⟨hback, hreflected, hout⟩ := h.counts
  have hcount := h.budget
  have hs := h.size hpc
  have htotal : window * t.s + pc.primed window ≤ window * sizes.length := by
    have hle : window * (t.s + 1) ≤ window * sizes.length := Nat.mul_le_mul_left _ hs
    rw [Nat.mul_succ] at hle
    omega
  obtain ⟨frame, hframe, hpc', hposted, hfifo, hevs⟩ := h.sendNew hsizes hs (by omega) pc
  refine ⟨hfifo, ?_, fun _ => hs, ?_, ?_, ?_, ?_, ?_, ?_, ?_⟩
  · rw [hpc']
    exact halive
  · rw [hpc']
    exact hprimed
  · rw [hpc']
    exact htotal
  · rw [hpc', hposted, Function.update_self, List.length_append, List.length_singleton]
    show _ = (t.net.received .pf0).length + (window * t.s + pc.primed window)
    omega
  · rw [hposted, Function.update_self]
    intro f hf
    rcases List.mem_append.mp hf with hold | hnew
    · exact h.frames f hold
    · rw [List.mem_singleton.mp hnew]
      exact hframe
  · obtain ⟨replied, hreceived, hreplied⟩ := h.echoes
    refine ⟨replied, ?_, ?_⟩
    · rw [Tput.owed, if_neg hecho] at hreceived
      rw [Tput.owed, hpc', if_neg hnext]
      exact hreceived
    · rw [hposted, Function.update_of_ne (by decide)]
      exact hreplied
  · rw [hpc', hevs]
    exact fun h1 _ => hevs1 h1
  · rw [hpc', hevs]
    exact hevs0

/-- Steps on which nothing is posted or received. -/
theorem TputInv.of_same (h : TputInv sizes window t) (hfifo : IsFifo net)
    (hposted : net.posted = t.net.posted) (hreceived : net.received = t.net.received)
    (hecho : t.pc ≠ .echo) (hdone : t.pc ≠ .done) (hnext : pc ≠ .echo) (halive : pc ≠ .failed)
    (hprimed : pc.primed window = t.pc.primed window) (hdue : pc.due = t.pc.due)
    (hevs1 : pc ≠ .serve1 → pc ≠ .echo → (net.port .pf1).evs = [])
    (hevs0 : pc ≠ .serve0 → pc ≠ .launch → (net.port .pf0).evs = []) :
    TputInv sizes window { t with net := net, pc := pc } := by
  refine ⟨hfifo, halive, fun _ => h.size hdone, ?_, ?_, ?_, ?_, ?_, hevs1, hevs0⟩
  · rw [hprimed]
    exact h.primed
  · rw [hprimed]
    exact h.total
  · simp only [hposted, hreceived, hprimed, hdue]
    exact h.budget
  · simp only [hposted]
    exact h.frames
  · obtain ⟨replied, hold, hreplied⟩ := h.echoes
    rw [Tput.owed, if_neg hecho] at hold
    refine ⟨replied, ?_, ?_⟩
    · rw [Tput.owed, if_neg hnext]
      simp only [hreceived]
      exact hold
    · simp only [hposted]
      exact hreplied

/-- PF1 receives a frame and owes its echo. -/
theorem TputInv.arrived (h : TputInv sizes window t) (hpc : t.pc = .serve1) (hfifo : IsFifo net)
    (hposted : net.posted = t.net.posted) (hreceived : net.received =
      Function.update t.net.received .pf1 (t.net.received .pf1 ++ [frame]))
    (hevs0 : (net.port .pf0).evs = []) :
    TputInv sizes window
      { t with
        net := net
        rxbuf := copyTo t.rxbuf 0 frame
        len := frame.length
        pc := .echo } := by
  have hbudget := h.budget
  have htotal := h.total
  rw [hpc] at hbudget htotal
  refine ⟨hfifo, ?_, ?_, Nat.le_refl _, htotal, ?_, ?_, ?_, ?_, fun _ _ => hevs0⟩
  · simp
  · exact fun _ => h.size (by simp [hpc])
  · simp only [hposted, hreceived, Function.update_of_ne (show Pf.pf0 ≠ .pf1 by decide)]
    exact hbudget
  · simp only [hposted]
    exact h.frames
  · obtain ⟨replied, hold, hreplied⟩ := h.echoes
    rw [Tput.owed, hpc, if_neg (by decide), List.append_nil] at hold
    refine ⟨replied, ?_, ?_⟩
    · rw [Tput.owed, if_pos rfl, firstBytes_copyTo]
      simp only [hreceived, Function.update_self, hold]
    · simp only [hposted]
      exact hreplied
  · intro _ h
    exact absurd rfl h

theorem TputInv.echoed (h : TputInv sizes window t) (hroom : window * sizes.length < 512)
    (hpc : t.pc = .echo) :
    ∃ net, t.net.post .pf1 (firstBytes (swapMac t.rxbuf) t.len) = (0, net) ∧
      TputInv sizes window { t with net := net, rxbuf := swapMac t.rxbuf, pc := .serve1 } := by
  obtain ⟨replied, hreceived, hreplied⟩ := h.echoes
  obtain ⟨hback, hreflected, hout⟩ := h.counts
  have hbudget := h.budget
  have htotal := h.total
  rw [hpc] at hbudget htotal
  rw [Tput.owed, if_pos hpc] at hreceived hreflected
  have hframe : 12 ≤ (firstBytes t.rxbuf t.len).length ∧
      (firstBytes t.rxbuf t.len).length ≤ 2048 := by
    refine h.received_frames ?_
    rw [hreceived]
    exact List.mem_append_right _ (List.mem_singleton_self _)
  rw [length_firstBytes] at hframe
  have hswapped := firstBytes_swapMac t.rxbuf hframe.1
  simp only [List.length_singleton, TputPc.due, TputPc.primed] at hreflected hbudget htotal
  have hwindow : (t.net.posted .pf1).length + 1 < (t.net.received .pf0).length + 512 := by
    omega
  obtain ⟨hrc, hposted, hfifo⟩ := h.fifo.post (p := .pf1) hwindow
    (firstBytes (swapMac t.rxbuf) t.len) (by rw [length_firstBytes]; omega)
    (by rw [length_firstBytes]; exact hframe.2)
  refine ⟨_, Prod.ext hrc rfl, hfifo, ?_, ?_, Nat.le_refl _, htotal, ?_, ?_, ?_, ?_, ?_⟩
  · simp
  · exact fun _ => h.size (by simp [hpc])
  · simp only [hposted, Function.update_of_ne (show Pf.pf0 ≠ .pf1 by decide)]
    exact hbudget
  · simp only [hposted, Function.update_of_ne (show Pf.pf0 ≠ .pf1 by decide)]
    exact h.frames
  · refine ⟨replied ++ [firstBytes t.rxbuf t.len], ?_, ?_⟩
    · rw [Tput.owed, if_neg (by simp), List.append_nil]
      exact hreceived
    · simp only [hposted, Function.update_self, hreplied, List.map_append, List.map_cons,
        List.map_nil]
      rw [hswapped]
  · intro h
    exact absurd rfl h
  · intro _ _
    rw [Net.evs_post]
    exact h.evs0 (by simp [hpc]) (by simp [hpc])

theorem TputInv.returned (h : TputInv sizes window t) (hpc : t.pc = .serve0) (hfifo : IsFifo net)
    (hposted : net.posted = t.net.posted) (hreceived : net.received =
      Function.update t.net.received .pf0 (t.net.received .pf0 ++ [frame]))
    (hevs1 : (net.port .pf1).evs = []) :
    TputInv sizes window
      { t with
        net := net
        rxbuf := copyTo t.rxbuf 0 frame
        len := frame.length
        roundTrips := t.roundTrips + 1
        pc := .launch } := by
  have hbudget := h.budget
  have htotal := h.total
  rw [hpc] at hbudget htotal
  refine ⟨hfifo, ?_, ?_, Nat.le_refl _, htotal, ?_, ?_, ?_, fun _ _ => hevs1, ?_⟩
  · simp
  · exact fun _ => h.size (by simp [hpc])
  · simp only [hposted, hreceived, Function.update_self, List.length_append,
      List.length_singleton, TputPc.due, TputPc.primed] at hbudget ⊢
    omega
  · simp only [hposted]
    exact h.frames
  · obtain ⟨replied, hold, hreplied⟩ := h.echoes
    rw [Tput.owed, hpc, if_neg (by decide)] at hold
    refine ⟨replied, ?_, ?_⟩
    · rw [Tput.owed, if_neg (by simp)]
      simp only [hreceived, Function.update_of_ne (show Pf.pf1 ≠ .pf0 by decide)]
      exact hold
    · simp only [hposted]
      exact hreplied
  · intro _ h
    exact absurd rfl h

theorem tputInv_serve1 (h : TputInv sizes window t) (hpc : t.pc = .serve1)
    (hstep : t.main sizes window expired = some t') : TputInv sizes window t' := by
  have hevs0 := h.evs0 (by simp [hpc]) (by simp [hpc])
  have hother : ((t.net.next .pf1).2.port .pf0).evs = [] := by
    rw [Net.evs_next_of_ne (by decide)]
    exact hevs0
  simp only [Tput.main, hpc] at hstep
  cases hevs : (t.net.port .pf1).evs with
  | nil =>
    simp only [Net.next_of_nil hevs, Option.some.injEq] at hstep
    subst hstep
    exact h.of_same h.fifo rfl rfl (by simp [hpc]) (by simp [hpc]) (by decide)
      (by decide) (by rw [hpc]; rfl) (by rw [hpc]; rfl) (fun _ _ => hevs) (fun _ _ => hevs0)
  | cons ev evs =>
    by_cases htype : ev.type = .rx
    · obtain ⟨frame, hframe, hreceived, -, hfifo⟩ := h.fifo.next_rx hevs htype
      simp only [hframe, Option.some.injEq] at hstep
      subst hstep
      exact h.arrived hpc hfifo rfl hreceived hother
    · obtain ⟨hskip, hreceived, -, hfifo⟩ := h.fifo.next_other hevs htype
      simp only [hskip, Option.some.injEq] at hstep
      subst hstep
      exact h.of_same hfifo rfl hreceived (by simp [hpc]) (by simp [hpc])
        (by decide) (by decide) (by rw [hpc]) (by rw [hpc]) (fun hne _ => absurd rfl hne)
        (fun _ _ => hother)

theorem tputInv_serve0 (h : TputInv sizes window t) (hpc : t.pc = .serve0)
    (hstep : t.main sizes window expired = some t') : TputInv sizes window t' := by
  have hevs1 := h.evs1 (by simp [hpc]) (by simp [hpc])
  have hother : ((t.net.next .pf0).2.port .pf1).evs = [] := by
    rw [Net.evs_next_of_ne (by decide)]
    exact hevs1
  simp only [Tput.main, hpc] at hstep
  cases hevs : (t.net.port .pf0).evs with
  | nil =>
    simp only [Net.next_of_nil hevs, Option.some.injEq] at hstep
    subst hstep
    exact h.of_same h.fifo rfl rfl (by simp [hpc]) (by simp [hpc]) (by decide)
      (by decide) (by rw [hpc]; rfl) (by rw [hpc]; rfl) (fun _ _ => hevs1) (fun _ _ => hevs)
  | cons ev evs =>
    by_cases htype : ev.type = .rx
    · obtain ⟨frame, hframe, hreceived, -, hfifo⟩ := h.fifo.next_rx hevs htype
      simp only [hframe, Option.some.injEq] at hstep
      subst hstep
      exact h.returned hpc hfifo rfl hreceived hother
    · obtain ⟨hskip, hreceived, -, hfifo⟩ := h.fifo.next_other hevs htype
      simp only [hskip, Option.some.injEq] at hstep
      subst hstep
      exact h.of_same hfifo rfl hreceived (by simp [hpc]) (by simp [hpc])
        (by decide) (by decide) (by rw [hpc]) (by rw [hpc]) (fun _ _ => hother)
        (fun hne _ => absurd rfl hne)

/-- The clock is read: the next size, or another round. -/
theorem tputInv_clock (h : TputInv sizes window t) (hpc : t.pc = .clock)
    (hstep : t.main sizes window expired = some t') : TputInv sizes window t' := by
  have hevs1 := h.evs1 (by simp [hpc]) (by simp [hpc])
  have hevs0 := h.evs0 (by simp [hpc]) (by simp [hpc])
  have hbudget := h.budget
  have htotal := h.total
  have hechoes := h.echoes
  rw [hpc] at hbudget htotal
  rw [Tput.owed, hpc, if_neg (by decide)] at hechoes
  simp only [TputPc.due, TputPc.primed, Nat.add_zero] at hbudget htotal
  simp only [Tput.main, hpc] at hstep
  split at hstep
  · split at hstep
    · rename_i hmore
      obtain rfl := Option.some.inj hstep
      refine ⟨h.fifo, by simp, fun _ => hmore, Nat.zero_le _, ?_, ?_, h.frames, hechoes,
        fun _ _ => hevs1, fun _ _ => hevs0⟩
      · simp only [TputPc.primed, Nat.mul_succ]
        omega
      · simp only [TputPc.primed, TputPc.due, Nat.mul_succ]
        omega
    · obtain rfl := Option.some.inj hstep
      refine ⟨h.fifo, by simp, fun hne => absurd rfl hne, Nat.zero_le _, ?_, ?_, h.frames,
        hechoes, fun _ _ => hevs1, fun _ _ => hevs0⟩
      · simp only [TputPc.primed, Nat.mul_succ]
        omega
      · simp only [TputPc.primed, TputPc.due, Nat.mul_succ]
        omega
  · obtain rfl := Option.some.inj hstep
    exact ⟨h.fifo, by simp, fun _ => h.size (by simp [hpc]), Nat.le_refl _, htotal,
      hbudget, h.frames, hechoes, fun _ _ => hevs1, fun _ _ => hevs0⟩

theorem TputInv.polled (h : TputInv sizes window t) {p : Pf} (hevs : (t.net.port p).evs = [])
    (hecho : t.pc ≠ .echo) (hdone : t.pc ≠ .done) (hnext : pc ≠ .echo) (halive : pc ≠ .failed)
    (hprimed : pc.primed window = t.pc.primed window) (hdue : pc.due = t.pc.due)
    (hevs1 : pc ≠ .serve1 → p ≠ .pf1 ∧ (t.net.port .pf1).evs = [])
    (hevs0 : pc ≠ .serve0 → p ≠ .pf0 ∧ (t.net.port .pf0).evs = []) :
    TputInv sizes window (t.pollPort p pc) := by
  obtain ⟨evs, hpoll, -, hfifo⟩ := h.fifo.poll (p := p) 8 (by decide) (by rw [hevs]; rfl)
  have hsome : (t.net.poll p 8).1.isSome = true := by
    rw [hpoll]
    rfl
  have hport : t.pollPort p pc = { t with net := (t.net.poll p 8).2, pc := pc } := by
    simp only [Tput.pollPort, hsome, if_true]
  rw [hport]
  refine h.of_same hfifo rfl rfl hecho hdone hnext halive hprimed hdue ?_ ?_
  · intro hne _
    rw [Net.evs_poll_of_ne (hevs1 hne).1.symm]
    exact (hevs1 hne).2
  · intro hne _
    rw [Net.evs_poll_of_ne (hevs0 hne).1.symm]
    exact (hevs0 hne).2

theorem tputInv_main (hsizes : ∀ size ∈ sizes, 12 ≤ size ∧ size ≤ 2048)
    (hroom : window * sizes.length < 512) (h : TputInv sizes window t)
    (hstep : t.main sizes window expired = some t') : TputInv sizes window t' := by
  cases hpc : t.pc with
  | prime k =>
    have hevs1 := h.evs1 (by simp [hpc]) (by simp [hpc])
    have hevs0 := h.evs0 (by simp [hpc]) (by simp [hpc])
    have hk := h.primed
    rw [hpc] at hk
    simp only [Tput.main, hpc] at hstep
    split at hstep
    · rename_i hlt
      obtain rfl := Option.some.inj hstep
      exact h.sent hsizes hroom (by simp [hpc]) (by simp [hpc]) (by simp) (by simp) hlt
        (by rw [hpc]; rfl) (fun _ => hevs1) (fun _ _ => hevs0)
    · rename_i hge
      obtain rfl := Option.some.inj hstep
      have hfull : k = window := Nat.le_antisymm hk (Nat.le_of_not_lt hge)
      exact h.of_same h.fifo rfl rfl (by simp [hpc]) (by simp [hpc]) (by decide)
        (by decide) (by rw [hpc]; exact hfull.symm) (by rw [hpc]; rfl) (fun _ _ => hevs1)
        (fun _ _ => hevs0)
  | poll1 =>
    simp only [Tput.main, hpc, Option.some.injEq] at hstep
    subst hstep
    exact h.polled (h.evs1 (by simp [hpc]) (by simp [hpc])) (by simp [hpc])
      (by simp [hpc]) (by decide) (by decide) (by rw [hpc]; rfl) (by rw [hpc]; rfl)
      (fun hne => absurd rfl hne)
      (fun _ => ⟨by decide, h.evs0 (by simp [hpc]) (by simp [hpc])⟩)
  | serve1 => exact tputInv_serve1 h hpc hstep
  | echo =>
    obtain ⟨net, hpost, hinv⟩ := h.echoed hroom hpc
    simp only [Tput.main, hpc, hpost, if_true, Option.some.injEq] at hstep
    subst hstep
    exact hinv
  | poll0 =>
    simp only [Tput.main, hpc, Option.some.injEq] at hstep
    subst hstep
    exact h.polled (h.evs0 (by simp [hpc]) (by simp [hpc])) (by simp [hpc])
      (by simp [hpc]) (by decide) (by decide) (by rw [hpc]; rfl) (by rw [hpc]; rfl)
      (fun _ => ⟨by decide, h.evs1 (by simp [hpc]) (by simp [hpc])⟩)
      (fun hne => absurd rfl hne)
  | serve0 => exact tputInv_serve0 h hpc hstep
  | launch =>
    have hevs1 := h.evs1 (by simp [hpc]) (by simp [hpc])
    simp only [Tput.main, hpc, Option.some.injEq] at hstep
    subst hstep
    exact h.sent hsizes hroom (by simp [hpc]) (by simp [hpc]) (by decide)
      (by decide) (Nat.le_refl _) (by rw [hpc]; rfl) (fun _ => hevs1)
      (fun hne _ => absurd rfl hne)
  | clock => exact tputInv_clock h hpc hstep
  | done =>
    simp only [Tput.main, hpc] at hstep
    cases hstep
  | failed => exact absurd hpc h.alive

theorem tputInv_step (hsizes : ∀ size ∈ sizes, 12 ≤ size ∧ size ≤ 2048)
    (hroom : window * sizes.length < 512) (t : Tput) (l : TputLabel) (t' : Tput)
    (h : TputInv sizes window t) (hstep : tputStep sizes window t l = some t') :
    TputInv sizes window t' := by
  cases l with
  | card c =>
    obtain ⟨net, hcard, rfl⟩ := Option.map_eq_some_iff.mp hstep
    exact tputInv_card h hcard
  | main expired => exact tputInv_main hsizes hroom h hstep

end Invariant

/-- `g_sizes`. -/
def gSizes : List Nat := [64, 1024, 1518]

/-- `TPUT_WINDOW`. -/
abbrev tputWindow : Nat := 128

end Bench
end SfcCapio
