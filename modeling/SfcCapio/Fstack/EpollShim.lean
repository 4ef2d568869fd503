import Mathlib.Logic.Function.Basic
import SfcCapio.Foundation.Runs

/-!
# epoll over kqueue

The event module of nginx is written for epoll; `epoll_ctl` translates one call into two
changes of a kqueue, one for each direction: the filter is added if its bit is set and
deleted otherwise.  Both changes go down in one `kevent` call, READ first.

`kevent` without an event list applies the changes in order and stops at the first one that
fails.  Deleting a filter that is not there fails with `ENOENT`, which `epoll_ctl` takes for
success; whatever came after it has then not been done.

`ev` is taken to be `c->read` in calls for `NGX_READ_EVENT` and `c->write` in the others, as
nginx calls the two functions.  The value of `NGX_CLOSE_EVENT` is nginx's own and left open.
-/

namespace SfcCapio
namespace Fstack

open Foundation

/-- `EVFILT_READ` and `EVFILT_WRITE`; also the two events of a connection. -/
inductive Filter
  | read
  | write
  deriving DecidableEq, Repr

/-! ## kqueue -/

/-- The filters registered for the descriptor, with their `EV_CLEAR`. -/
abbrev Kqueue := Filter → Option Bool

inductive Change
  | add (f : Filter) (clear : Bool)
  | delete (f : Filter)
  deriving DecidableEq, Repr

def enoent : Nat := 2

/-- `kevent` with an empty event list: `errno` if a change fails, and the filters after
it. -/
def kevent : List Change → Kqueue → Option Nat × Kqueue
  | [], kq => (none, kq)
  | .add f clear :: rest, kq => kevent rest (Function.update kq f (some clear))
  | .delete f :: rest, kq =>
    if kq f = none then (some enoent, kq) else kevent rest (Function.update kq f none)

/-! ## The shim -/

def epollin : BitVec 32 := 0x001#32
def epollout : BitVec 32 := 0x004#32
def epollrdhup : BitVec 32 := 0x2000#32
def epollet : BitVec 32 := 1#32 <<< 31

/-- `EPOLL_CTL_ADD`, `EPOLL_CTL_DEL` and `EPOLL_CTL_MOD`. -/
inductive CtlOp
  | add
  | del
  | mod
  deriving DecidableEq, Repr

/-- `events & bit`. -/
def hasBit (events bit : BitVec 32) : Bool := events &&& bit ≠ 0#32

/-- The events of the call; a deletion has none. -/
def ctlEvents (op : CtlOp) (events : BitVec 32) : BitVec 32 :=
  if op = .del then 0#32 else events

/-- The two changes. -/
def ctlChanges (events : BitVec 32) : List Change :=
  [if hasBit events epollin then .add .read (hasBit events epollet) else .delete .read,
    if hasBit events epollout then .add .write (hasBit events epollet) else .delete .write]

/-- `epoll_ctl`: what it returns, and the filters. -/
def epollCtl (op : CtlOp) (events : BitVec 32) (kq : Kqueue) : Int × Kqueue :=
  let out := kevent (ctlChanges (ctlEvents op events)) kq
  match out.1 with
  | some errno => (if errno ≠ enoent then -1 else 0, out.2)
  | none => (0, out.2)

/-- The descriptor of a connection in the kqueue, and the `active` bits of its events. -/
structure Conn where
  kq : Kqueue
  active : Filter → Bool

/-- The event that is not `event`. -/
def Filter.other : Filter → Filter
  | read => write
  | write => read

/-- The epoll bits of an event. -/
def Filter.bits : Filter → BitVec 32
  | read => epollin ||| epollrdhup
  | write => epollout

/-- `ngx_ff_epoll_add_event`: whether it returns `NGX_OK`, and the connection. -/
def addEvent (event : Filter) (flags : BitVec 64) (c : Conn) : Bool × Conn :=
  let prev := event.other.bits
  let events := if c.active event.other then event.bits ||| prev else event.bits
  let op := if c.active event.other then .mod else .add
  let out := epollCtl op (events ||| flags.setWidth 32) c.kq
  if out.1 = -1 then (false, { c with kq := out.2 })
  else (true, { kq := out.2, active := Function.update c.active event true })

/-- `ngx_ff_epoll_del_event`. -/
def delEvent (ngxCloseEvent : BitVec 64) (event : Filter) (flags : BitVec 64) (c : Conn) :
    Bool × Conn :=
  if flags &&& ngxCloseEvent ≠ 0#64 then
    (true, { c with active := Function.update c.active event false })
  else
    let prev := event.other.bits
    let events := if c.active event.other then prev ||| flags.setWidth 32 else 0#32
    let op := if c.active event.other then .mod else .del
    let out := epollCtl op events c.kq
    if out.1 = -1 then (false, { c with kq := out.2 })
    else (true, { kq := out.2, active := Function.update c.active event false })

/-! ## Calls on one connection -/

inductive ShimCall
  | add (event : Filter) (flags : BitVec 64)
  | del (event : Filter) (flags : BitVec 64)
  deriving DecidableEq, Repr

/-- A call that returns `NGX_OK`. -/
def shimStep (ngxCloseEvent : BitVec 64) (c : Conn) (call : ShimCall) : Option Conn :=
  let out := match call with
    | .add event flags => addEvent event flags c
    | .del event flags => delEvent ngxCloseEvent event flags c
  if out.1 then some out.2 else none

/-- The call does not announce that the descriptor is about to be closed. -/
def ShimCall.KeepsOpen (ngxCloseEvent : BitVec 64) : ShimCall → Prop
  | add _ _ => True
  | del _ flags => flags &&& ngxCloseEvent = 0#64

instance (ngxCloseEvent : BitVec 64) : DecidablePred (ShimCall.KeepsOpen ngxCloseEvent) :=
  fun call => match call with
    | .add _ _ => inferInstanceAs (Decidable True)
    | .del _ _ => inferInstanceAs (Decidable (_ = _))

/-- The calls on a connection that stays open. -/
def openStep (ngxCloseEvent : BitVec 64) : Conn → ShimCall → Option Conn :=
  restrict (shimStep ngxCloseEvent) (ShimCall.KeepsOpen ngxCloseEvent)

/-- No filter, no active event. -/
def Conn.idle : Conn := { kq := fun _ => none, active := fun _ => false }

/-- A filter is registered exactly for the active events. -/
def InStep (c : Conn) : Prop := ∀ f, (c.kq f).isSome = c.active f

/-! ## What a call does -/

theorem hasBit_or (a b bit : BitVec 32) :
    hasBit (a ||| b) bit = (hasBit a bit || hasBit b bit) := by
  have hdistrib : (a ||| b) &&& bit = a &&& bit ||| b &&& bit := by
    ext i hi
    simp [Bool.and_or_distrib_right]
  unfold hasBit
  rw [hdistrib]
  by_cases ha : a &&& bit = 0#32
  · by_cases hb : b &&& bit = 0#32
    · simp [ha, hb]
    · simp [ha, hb]
  · simp [ha]

/-- The filters after the two changes: READ as its bit says; WRITE too, unless READ was to
be deleted and was not there. -/
theorem kevent_ctlChanges (events : BitVec 32) (kq : Kqueue) :
    ((kevent (ctlChanges events) kq).1 = none ∨ (kevent (ctlChanges events) kq).1 = some enoent) ∧
    ((kevent (ctlChanges events) kq).2 .read).isSome = hasBit events epollin ∧
    ((kevent (ctlChanges events) kq).2 .write).isSome =
      if hasBit events epollin || (kq .read).isSome then hasBit events epollout
      else (kq .write).isSome := by
  unfold ctlChanges
  cases hin : hasBit events epollin with
  | true =>
    cases hout : hasBit events epollout with
    | true => simp [kevent]
    | false =>
      cases hwrite : kq .write with
      | none => simp [kevent, hwrite]
      | some clear => simp [kevent, hwrite]
  | false =>
    cases hread : kq .read with
    | none => simp [kevent, hread]
    | some clear =>
      cases hout : hasBit events epollout with
      | true => simp [kevent, hread]
      | false =>
        cases hwrite : kq .write with
        | none => simp [kevent, hread, hwrite]
        | some clear => simp [kevent, hread, hwrite]

theorem epollCtl_snd (op : CtlOp) (events : BitVec 32) (kq : Kqueue) :
    (epollCtl op events kq).2 = (kevent (ctlChanges (ctlEvents op events)) kq).2 := by
  unfold epollCtl
  dsimp only
  split <;> rfl

/-- An error is always `ENOENT`, so that the call succeeds. -/
theorem epollCtl_fst (op : CtlOp) (events : BitVec 32) (kq : Kqueue) :
    (epollCtl op events kq).1 = 0 := by
  unfold epollCtl
  dsimp only
  rcases (kevent_ctlChanges (ctlEvents op events) kq).1 with hnone | hsome
  · rw [hnone]
  · rw [hsome]
    rfl

/-- What the bits of a call are, and which filters and active events it leaves. -/
structure CallEffect (c c' : Conn) (event : Filter) (active : Bool) (events : BitVec 32) :
    Prop where
  read : (c'.kq .read).isSome = hasBit events epollin
  write : (c'.kq .write).isSome =
    if hasBit events epollin || (c.kq .read).isSome then hasBit events epollout
    else (c.kq .write).isSome
  active : c'.active = Function.update c.active event active

section Calls

variable {ngxCloseEvent : BitVec 64} {c c' : Conn} {event : Filter} {flags : BitVec 64}

theorem callEffect {op : CtlOp} {events : BitVec 32} {active : Bool} :
    CallEffect c
      { kq := (epollCtl op events c.kq).2, active := Function.update c.active event active }
      event active (ctlEvents op events) where
  read := by
    rw [epollCtl_snd]
    exact (kevent_ctlChanges _ _).2.1
  write := by
    rw [epollCtl_snd]
    exact (kevent_ctlChanges _ _).2.2
  active := rfl

/-- An added event is asked for together with the other one, if that is active. -/
theorem addEvent_effect (hstep : openStep ngxCloseEvent c (.add event flags) = some c') :
    CallEffect c c' event true
      ((if c.active event.other then event.bits ||| event.other.bits else event.bits) |||
        flags.setWidth 32) := by
  have hcall : shimStep ngxCloseEvent c (.add event flags) = some c' := by
    rw [openStep, restrict_of_good trivial] at hstep
    exact hstep
  simp only [shimStep, addEvent, epollCtl_fst] at hcall
  cases hcall
  cases hother : c.active event.other with
  | true => exact callEffect
  | false => exact callEffect

/-- A deleted event leaves the other one, if that is active, and else nothing. -/
theorem delEvent_effect (hstep : openStep ngxCloseEvent c (.del event flags) = some c') :
    CallEffect c c' event false
      (if c.active event.other then event.other.bits ||| flags.setWidth 32 else 0#32) := by
  have hkeeps : ShimCall.KeepsOpen ngxCloseEvent (.del event flags) := by
    by_contra hclose
    rw [openStep, restrict, if_neg hclose] at hstep
    cases hstep
  have hcall : shimStep ngxCloseEvent c (.del event flags) = some c' := by
    rw [openStep, restrict_of_good hkeeps] at hstep
    exact hstep
  have hopen : flags &&& ngxCloseEvent = 0#64 := hkeeps
  simp only [shimStep, delEvent, hopen, epollCtl_fst] at hcall
  cases hcall
  cases hother : c.active event.other with
  | true => exact callEffect
  | false => exact callEffect

theorem inStep_iff : InStep c ↔
    (c.kq .read).isSome = c.active .read ∧ (c.kq .write).isSome = c.active .write :=
  ⟨fun h => ⟨h _, h _⟩, fun h f => by cases f <;> simp [h]⟩

/-- When a call keeps kqueue and active bits in step.  The flags go into the events
unchecked, so that one with the value of the other direction's bit counts as that bit. -/
def KeepsStep (c : Conn) : ShimCall → Prop
  | .add .read flags => c.active .write = true ∨ hasBit (flags.setWidth 32) epollout = false
  | .add .write flags => c.active .read = true ∨
      (c.active .write = true ∧ hasBit (flags.setWidth 32) epollin = false)
  | .del .read flags => c.active .write = false ∨ hasBit (flags.setWidth 32) epollin = false
  | .del .write flags =>
    (c.active .read = true ∧ hasBit (flags.setWidth 32) epollout = false) ∨
      (c.active .read = false ∧ c.active .write = false)

instance (c : Conn) (call : ShimCall) : Decidable (KeepsStep c call) :=
  match call with
  | .add .read _ | .add .write _ | .del .read _ | .del .write _ =>
    inferInstanceAs (Decidable (_ ∨ _))

theorem hasBit_bits : hasBit (Filter.bits .read) epollin = true ∧
    hasBit (Filter.bits .read) epollout = false ∧
    hasBit (Filter.bits .write) epollin = false ∧
    hasBit (Filter.bits .write) epollout = true := by
  decide

theorem inStep_add_iff (hinv : InStep c)
    (hstep : openStep ngxCloseEvent c (.add event flags) = some c') :
    InStep c' ↔ KeepsStep c (.add event flags) := by
  obtain ⟨hread, hwrite, hactive⟩ := addEvent_effect hstep
  obtain ⟨hrr, hrw, hwr, hww⟩ := hasBit_bits
  rw [hinv .read, hinv .write] at hwrite
  rw [inStep_iff, hread, hwrite, hactive]
  cases event with
  | read =>
    cases hother : c.active .write <;>
      simp [KeepsStep, Filter.other, hother, hasBit_or, hrr, hrw, hwr, hww]
  | write =>
    cases hother : c.active .read <;> cases hself : c.active .write <;>
      simp [KeepsStep, Filter.other, hother, hself, hasBit_or, hrr, hrw, hwr, hww]

theorem inStep_del_iff (hinv : InStep c)
    (hstep : openStep ngxCloseEvent c (.del event flags) = some c') :
    InStep c' ↔ KeepsStep c (.del event flags) := by
  obtain ⟨hread, hwrite, hactive⟩ := delEvent_effect hstep
  obtain ⟨hrr, hrw, hwr, hww⟩ := hasBit_bits
  have hzero : hasBit 0#32 epollin = false ∧ hasBit 0#32 epollout = false := by decide
  rw [hinv .read, hinv .write] at hwrite
  rw [inStep_iff, hread, hwrite, hactive]
  cases event with
  | read =>
    cases hother : c.active .write <;>
      simp [KeepsStep, Filter.other, hother, hasBit_or, hwr, hww, hzero]
  | write =>
    cases hother : c.active .read <;> cases hself : c.active .write <;>
      simp [KeepsStep, Filter.other, hother, hself, hasBit_or, hrr, hrw, hzero]

theorem inStep_call_iff {call : ShimCall} (hinv : InStep c)
    (hstep : openStep ngxCloseEvent c call = some c') : InStep c' ↔ KeepsStep c call := by
  cases call with
  | add event flags => exact inStep_add_iff hinv hstep
  | del event flags => exact inStep_del_iff hinv hstep

end Calls

/-- **epoll over kqueue.**  Along the calls on an open connection that starts without
filters, the kqueue holds the filters of the active events after each call if and only if
every call is one that keeps them in step. -/
theorem epoll_shim_in_step_iff (ngxCloseEvent : BitVec 64) {run : List ShimCall} {c : Conn}
    (hrun : exec (openStep ngxCloseEvent) Conn.idle run = some c) :
    Along (openStep ngxCloseEvent) InStep Conn.idle run ↔
      Obeys (openStep ngxCloseEvent) KeepsStep Conn.idle run :=
  along_iff_obeys (fun _ _ _ hinv hguard hstep => (inStep_call_iff hinv hstep).mpr hguard)
    (fun _ hinv => hinv)
    (fun _ _ _ hinv hguard hstep => fun hnext => hguard ((inStep_call_iff hinv hstep).mp hnext))
    (fun _ => rfl) hrun

/-- A connection as a client has it: read, write while read is active, and back. -/
def readThenWrite : List ShimCall :=
  [.add .read 0x20#64, .add .write 0x20#64, .del .write 0#64, .del .read 0#64]

theorem epoll_shim_in_step_read_first :
    (exec (openStep 1#64) Conn.idle readThenWrite).isSome = true ∧
      Along (openStep 1#64) InStep Conn.idle readThenWrite := by
  have hsome : (exec (openStep 1#64) Conn.idle readThenWrite).isSome = true := by
    decide
  obtain ⟨c, hrun⟩ := Option.isSome_iff_exists.mp hsome
  exact ⟨hsome, (epoll_shim_in_step_iff 1#64 hrun).mpr (by decide)⟩

/-- Only the write event is added: the deletion of READ fails, WRITE is never added, the
call returns `NGX_OK` and the event is active. -/
theorem write_event_without_filter :
    ∃ c, exec (openStep 1#64) Conn.idle [.add .write 0x20#64] = some c ∧
      c.active .write = true ∧ c.kq .write = none := by
  exact ⟨_, rfl, rfl, rfl⟩

end Fstack
end SfcCapio
