import SfcCapio.Foundation.Fallible
import SfcCapio.Mcdi.Exec

/-!
# Attach, detach and the firmware

`sfc7120_fbsd_attach` brings the card up with about twenty firmware commands and
leaves through one of five labels if a step fails.  The firmware is what the commands
act on: it remembers whether a driver is attached, whether it has given out VIs and a
vAdaptor, and which queues are initialised.  A command that fails has no effect, nor has
one that is answered by an error response without an error code, for which
`sfc7120_mcdi_exec` returns 0.  Any other answer means that the command has been carried
out, even if the driver finds it too short.  As the firmware documents, an event queue
cannot be finished while a receive or transmit queue targets it.

What the commands answer, and what allocations outside the driver return, is the
environment.  The record keeps every command as the firmware met it, and the state of
the firmware at the moment the DMA memory is freed.
-/

namespace SfcCapio
namespace Bringup

open Foundation Mcdi

/-! ## The firmware -/

/-- The two event queues, instances 0 and 1. -/
inductive Evq
  | control
  | data
deriving DecidableEq, Repr

/-- The function-local index of an event queue. -/
def Evq.instanceNo : Evq → Nat
  | .control => 0
  | .data => 1

/-- The commands that attach and detach issue. -/
inductive Cmd
  | getVersion
  | drvAttach
  | drvDetach
  | getAsserts
  | entityReset
  | getMacAddresses
  | getPortAssignment
  | getFunctionInfo
  | getCapabilities
  | allocVis
  | freeVis
  | vadaptorAlloc
  | vadaptorFree
  | getPhyCfg
  | setMac
  | setLink
  | getLink
  | initEvq (evq : Evq)
  | finiEvq (evq : Evq)
  | initRxq
  | finiRxq
  | initTxq
  | finiTxq
  | filterInsert
  | filterRemove
deriving DecidableEq, Repr

/-- What the firmware holds for this function. -/
structure Firmware where
  drvAttached : Bool
  vis : Bool
  vadaptor : Bool
  controlEvq : Bool
  dataEvq : Bool
  rxq : Bool
  txq : Bool
deriving DecidableEq, Repr

namespace Firmware

/-- The effect of a command that succeeds. -/
def after (fw : Firmware) : Cmd → Firmware
  | .drvAttach => { fw with drvAttached := true }
  | .drvDetach => { fw with drvAttached := false }
  | .entityReset =>
    { fw with
      vis := false
      vadaptor := false
      controlEvq := false
      dataEvq := false
      rxq := false
      txq := false }
  | .allocVis => { fw with vis := true }
  | .freeVis => { fw with vis := false }
  | .vadaptorAlloc => { fw with vadaptor := true }
  | .vadaptorFree => { fw with vadaptor := false }
  | .initEvq .control => { fw with controlEvq := true }
  | .initEvq .data => { fw with dataEvq := true }
  | .finiEvq .control => { fw with controlEvq := false }
  | .finiEvq .data => { fw with dataEvq := false }
  | .initRxq => { fw with rxq := true }
  | .finiRxq => { fw with rxq := false }
  | .initTxq => { fw with txq := true }
  | .finiTxq => { fw with txq := false }
  | _ => fw

/-- Both packet queues target the data event queue. -/
def busy (fw : Firmware) : Cmd → Bool
  | .finiEvq .data => fw.rxq || fw.txq
  | _ => false

end Firmware

/-- What `sfc7120_mcdi_exec` returns for a command: the return code, the number of
bytes of the response, and the fields of it that the driver looks at.  `refused` says
that a return of 0 stands for an error response without a code. -/
structure Reply where
  rc : Option Errno
  refused : Bool
  used : Nat
  viCount : Nat
  linkUp : Bool
  validHandle : Bool

/-- The firmware has done what the command asks for. -/
def Reply.carriedOut (reply : Reply) : Bool := reply.rc = none && !reply.refused

/-- A command, what the firmware held when it came, and whether it was carried out. -/
structure Issued where
  cmd : Cmd
  fw : Firmware
  done : Bool
deriving DecidableEq, Repr

/-! ## The driver -/

/-- The flags of `sfc7120_softc_t` that say what has been brought up. -/
structure Softc where
  mcdiInitialized : Bool
  drvAttached : Bool
  visAllocated : Bool
  viCount : Nat
  vadaptorAllocated : Bool
  evqInitialized : Bool
  dataEvqInitialized : Bool
  rxqInitialized : Bool
  txqInitialized : Bool
  rxFilterInserted : Bool
  linkUp : Bool

/-- The driver, the firmware and the record: mailbox and mutex made and destroyed,
the commands, and the firmware whenever DMA memory was freed. -/
structure Sys where
  sc : Softc
  fw : Firmware
  mtxInits : Nat
  mtxDestroys : Nat
  bufAllocs : Nat
  bufFrees : Nat
  log : List Issued
  freed : List Firmware

/-- The firmware has carried a command out, or not. -/
def Sys.issue (s : Sys) (cmd : Cmd) (done : Bool) : Sys :=
  { s with
    fw := if done then s.fw.after cmd else s.fw
    log := s.log ++ [⟨cmd, s.fw, done⟩] }

/-- The steps of attach that can fail, as its messages name them. -/
inductive Stage
  | bar
  | mcdiInit
  | getVersion
  | drvAttach
  | clearAssertions
  | entityReset
  | getMac
  | allocVis
  | vadaptorAlloc
  | getPhyCfg
  | setMac
  | setLink
  | getLink
  | allocDma
  | intrSetup
  | initEvq (evq : Evq)
  | initRxq
  | initTxq
  | filterInsert
  | makeDev
deriving DecidableEq, Repr

/-- Where attach failed and with which error; `short` says that the command was
carried out and the driver refused the answer. -/
structure Failure where
  stage : Stage
  rc : Errno
  short : Bool
deriving DecidableEq, Repr

/-- What comes from outside: the answers of the firmware, in order, and the results of
the allocations and checks. -/
structure Env where
  reply : Nat → Reply
  bar : Bool
  allocBuf : Option Errno
  pciReady : Bool
  hwRevOk : Bool
  allocDma : Option Errno
  intrSetup : Option Errno
  makeDev : Bool

section Driver

variable (env : Env)

/-- `sfc7120_mcdi_exec`. -/
def mcdiExec (cmd : Cmd) (s : Sys) : Reply × Sys :=
  let reply := env.reply s.log.length
  if s.sc.mcdiInitialized then
    let rc := if s.fw.busy cmd then some .ebusy else reply.rc
    -- an error response leaves `out_used` as the callers initialise it
    let reply := { reply with rc := rc, used := if reply.refused then 0 else reply.used }
    (reply, s.issue cmd reply.carriedOut)
  else ({ reply with rc := some .enxio }, s)

/-- A command whose response must have `need` bytes; `accept` is what the driver notes
down of it. -/
def query (cmd : Cmd) (stage : Stage) (need : Nat) (accept : Reply → Softc → Softc) :
    Action Sys Failure := fun s =>
  let out := mcdiExec env cmd s
  match out.1.rc with
  | some e => (some { stage := stage, rc := e, short := false }, out.2)
  | none =>
    if out.1.used < need then
      (some { stage := stage, rc := .eproto, short := out.1.carriedOut }, out.2)
    else (none, { out.2 with sc := accept out.1 out.2.sc })

/-- A command that an unprivileged function may be refused. -/
def tolerant (cmd : Cmd) (stage : Stage) : Action Sys Failure := fun s =>
  let out := mcdiExec env cmd s
  match out.1.rc with
  | some .eacces => (none, out.2)
  | some e => (some { stage := stage, rc := e, short := false }, out.2)
  | none => (none, out.2)

/-- A command that gives something back: issued only if the flag says so, and followed
by the clearing of the flag unless `keep` holds of the return code. -/
def release (flag : Softc → Bool) (clear : Softc → Softc) (keep : Option Errno → Bool)
    (cmd : Cmd) (s : Sys) : Sys :=
  if flag s.sc then
    let out := mcdiExec env cmd s
    if keep out.1.rc then out.2 else { out.2 with sc := clear out.2.sc }
  else s

/-! ### Mailbox -/

/-- `sfc7120_mcdi_init`. -/
def mcdiInit : Action Sys Failure := fun s =>
  let made := { s with mtxInits := s.mtxInits + 1 }
  match env.allocBuf with
  | some e =>
    (some { stage := .mcdiInit, rc := e, short := false },
      { made with mtxDestroys := made.mtxDestroys + 1 })
  | none =>
    let made := { made with bufAllocs := made.bufAllocs + 1 }
    if env.pciReady = true ∧ env.hwRevOk = true then
      (none, { made with sc := { made.sc with mcdiInitialized := true } })
    else
      (some { stage := .mcdiInit, rc := .enxio, short := false },
        { made with bufFrees := made.bufFrees + 1, mtxDestroys := made.mtxDestroys + 1 })

/-- `sfc7120_mcdi_fini`. -/
def mcdiFini (s : Sys) : Sys :=
  if s.sc.mcdiInitialized then
    { s with
      sc := { s.sc with mcdiInitialized := false }
      bufFrees := s.bufFrees + 1
      mtxDestroys := s.mtxDestroys + 1 }
  else s

/-! ### Identity and link -/

/-- `sfc7120_mcdi_get_version`. -/
def getVersion : Action Sys Failure := query env .getVersion .getVersion (24 + 8) fun _ sc => sc

/-- `sfc7120_mcdi_drv_attach`. -/
def drvAttach : Action Sys Failure :=
  query env .drvAttach .drvAttach 4 fun _ sc => { sc with drvAttached := true }

/-- `sfc7120_mcdi_drv_detach`. -/
def drvDetach : Sys → Sys :=
  release env Softc.drvAttached (fun sc => { sc with drvAttached := false })
    (fun rc => rc ≠ none) .drvDetach

/-- The retries of `sfc7120_mcdi_clear_assertions`. -/
def getAsserts : Nat → Option Errno → Sys → Option Errno × Sys
  | 0, rc, s => (rc, s)
  | n + 1, _, s =>
    let out := mcdiExec env .getAsserts s
    if out.1.rc = some .eintr ∨ out.1.rc = some .eio then getAsserts n out.1.rc out.2
    else (out.1.rc, out.2)

/-- `sfc7120_mcdi_clear_assertions`; a short response is only reported. -/
def clearAssertions : Action Sys Failure := fun s =>
  match getAsserts env 3 none s with
  | (some .eacces, s') => (none, s')
  | (some e, s') => (some { stage := .clearAssertions, rc := e, short := false }, s')
  | (none, s') => (none, s')

/-- `sfc7120_mcdi_entity_reset`. -/
def entityReset : Action Sys Failure := tolerant env .entityReset .entityReset

/-- `sfc7120_mcdi_get_mac`. -/
def getMac : Action Sys Failure := query env .getMacAddresses .getMac (0 + 6) fun _ sc => sc

/-- `sfc7120_mcdi_dump_func_info`: three queries that only report. -/
def dumpFuncInfo (s : Sys) : Sys :=
  let s := (mcdiExec env .getPortAssignment s).2
  let s := (mcdiExec env .getFunctionInfo s).2
  (mcdiExec env .getCapabilities s).2

/-- `sfc7120_mcdi_get_phy_cfg`. -/
def getPhyCfg : Action Sys Failure := query env .getPhyCfg .getPhyCfg (44 + 4) fun _ sc => sc

/-- `sfc7120_mcdi_set_mac`. -/
def setMac : Action Sys Failure := tolerant env .setMac .setMac

/-- `sfc7120_mcdi_set_link`. -/
def setLink : Action Sys Failure := query env .setLink .setLink 0 fun _ sc => sc

/-- `sfc7120_mcdi_get_link`. -/
def getLink : Action Sys Failure :=
  query env .getLink .getLink 28 fun reply sc => { sc with linkUp := reply.linkUp }

/-! ### VIs and vAdaptor -/

/-- `sfc7120_mcdi_alloc_vis`. -/
def allocVis : Action Sys Failure :=
  query env .allocVis .allocVis 8 fun reply sc =>
    { sc with visAllocated := true, viCount := reply.viCount }

/-- `sfc7120_mcdi_free_vis`. -/
def freeVis : Sys → Sys :=
  release env Softc.visAllocated (fun sc => { sc with visAllocated := false, viCount := 0 })
    (fun rc => rc ≠ none) .freeVis

/-- `sfc7120_mcdi_vadaptor_alloc`. -/
def vadaptorAlloc : Action Sys Failure := fun s =>
  if s.sc.vadaptorAllocated then (none, s)
  else
    query env .vadaptorAlloc .vadaptorAlloc 0
      (fun _ sc => { sc with vadaptorAllocated := true }) s

/-- `sfc7120_mcdi_vadaptor_free`. -/
def vadaptorFree : Sys → Sys :=
  release env Softc.vadaptorAllocated (fun sc => { sc with vadaptorAllocated := false })
    (fun _ => false) .vadaptorFree

/-! ### Queues -/

/-- `sfc7120_mcdi_init_evq`; it sets the flag of the control queue for either one. -/
def initEvq (evq : Evq) : Action Sys Failure := fun s =>
  if s.sc.viCount ≤ evq.instanceNo then
    (some { stage := .initEvq evq, rc := .einval, short := false }, s)
  else
    query env (.initEvq evq) (.initEvq evq) 0 (fun _ sc => { sc with evqInitialized := true }) s

/-- `sfc7120_mcdi_fini_evq`. -/
def finiEvq : Evq → Sys → Sys
  | .control =>
    release env Softc.evqInitialized (fun sc => { sc with evqInitialized := false })
      (fun rc => rc = some .ebusy) (.finiEvq .control)
  | .data =>
    release env Softc.dataEvqInitialized (fun sc => { sc with dataEvqInitialized := false })
      (fun rc => rc = some .ebusy) (.finiEvq .data)

/-- The checks of `sfc7120_mcdi_init_rxq` and `sfc7120_mcdi_init_txq` for instance 0
with the data queue as target, then the command. -/
def initQueue (cmd : Cmd) (stage : Stage) (accept : Softc → Softc) : Action Sys Failure := fun s =>
  if s.sc.vadaptorAllocated = false ∨ s.sc.viCount ≤ 0 ∨ s.sc.viCount ≤ Evq.data.instanceNo then
    (some { stage := stage, rc := .einval, short := false }, s)
  else query env cmd stage 0 (fun _ => accept) s

/-- `sfc7120_mcdi_init_rxq`. -/
def initRxq : Action Sys Failure :=
  initQueue env .initRxq .initRxq fun sc => { sc with rxqInitialized := true }

/-- `sfc7120_mcdi_fini_rxq`. -/
def finiRxq : Sys → Sys :=
  release env Softc.rxqInitialized (fun sc => { sc with rxqInitialized := false })
    (fun _ => false) .finiRxq

/-- `sfc7120_mcdi_init_txq`. -/
def initTxq : Action Sys Failure :=
  initQueue env .initTxq .initTxq fun sc => { sc with txqInitialized := true }

/-- `sfc7120_mcdi_fini_txq`. -/
def finiTxq : Sys → Sys :=
  release env Softc.txqInitialized (fun sc => { sc with txqInitialized := false })
    (fun _ => false) .finiTxq

/-- `sfc7120_mcdi_filter_insert_mac`. -/
def filterInsertMac : Action Sys Failure := fun s =>
  let out := mcdiExec env .filterInsert s
  match out.1.rc with
  | some e => (some { stage := .filterInsert, rc := e, short := false }, out.2)
  | none =>
    if out.1.used < 12 then
      (some { stage := .filterInsert, rc := .eproto, short := out.1.carriedOut }, out.2)
    else if out.1.validHandle = false then
      (some { stage := .filterInsert, rc := .eio, short := true }, out.2)
    else (none, out.2)

/-- `sfc7120_mcdi_filter_insert`; the broadcast filter may fail. -/
def filterInsert : Action Sys Failure := fun s =>
  if s.sc.rxFilterInserted then (none, s)
  else
    (Action.andThen (filterInsertMac env) id <| Action.always fun s =>
      (filterInsertMac env { s with sc := { s.sc with rxFilterInserted := true } }).2) s

/-- `sfc7120_mcdi_filter_remove`. -/
def filterRemove : Sys → Sys :=
  release env Softc.rxFilterInserted (fun sc => { sc with rxFilterInserted := false })
    (fun _ => false) .filterRemove

/-! ### Bring-up and teardown -/

/-- The label `fail_attach` of `sfc7120_hw_init`, which falls into `fail_mcdi`. -/
def failAttach (s : Sys) : Sys := mcdiFini (drvDetach env s)

/-- `sfc7120_hw_init`; `mcdiFini` is the label `fail_mcdi`. -/
def hwInit : Action Sys Failure :=
  (mcdiInit env).andThen id <|
  (getVersion env).andThen mcdiFini <|
  (drvAttach env).andThen mcdiFini <|
  (clearAssertions env).andThen mcdiFini <|
  (entityReset env).andThen (failAttach env) <|
  (getMac env).andThen (failAttach env) <|
  (Action.always (dumpFuncInfo env)).andThen id <|
  (allocVis env).andThen (failAttach env) <|
  (vadaptorAlloc env).andThen (failAttach env) <|
  (getPhyCfg env).andThen (failAttach env) <|
  (setMac env).andThen (failAttach env) <|
  (setLink env).andThen (failAttach env) <|
  (Action.rounds (getLink env) (fun s => s.sc.linkUp) 30).andThen (failAttach env) <|
  Action.done

/-- `sfc7120_hw_teardown`. -/
def hwTeardown (s : Sys) : Sys :=
  let s := filterRemove env s
  let s := finiTxq env s
  let s := finiRxq env s
  let s := finiEvq env .data s
  let s := finiEvq env .control s
  let s := vadaptorFree env s
  let s := freeVis env s
  let s := drvDetach env s
  mcdiFini s

/-- `sfc7120_free_dma_resources`. -/
def freeDmaResources (s : Sys) : Sys := { s with freed := s.freed ++ [s.fw] }

/-- The label `fail_dma` of attach. -/
def failDma (s : Sys) : Sys := freeDmaResources (hwTeardown env s)

/-- A step outside the firmware. -/
def outside (stage : Stage) (result : Option Errno) : Action Sys Failure := fun s =>
  (result.map fun e => { stage := stage, rc := e, short := false }, s)

/-- Attach notes the event queues itself, after each command. -/
def noteEvq : Evq → Sys → Sys
  | .control, s => { s with sc := { s.sc with evqInitialized := true } }
  | .data, s => { s with sc := { s.sc with dataEvqInitialized := true } }

/-- The queues and the character device, after the DMA memory has been allocated. -/
def attachQueues : Action Sys Failure :=
  (outside .intrSetup env.intrSetup).andThen (failDma env) <|
  (initEvq env .control).andThen (failDma env) <|
  (Action.always (noteEvq .control)).andThen id <|
  (initEvq env .data).andThen (failDma env) <|
  (Action.always (noteEvq .data)).andThen id <|
  (initRxq env).andThen (failDma env) <|
  (initTxq env).andThen (failDma env) <|
  (filterInsert env).andThen (failDma env) <|
  (outside .makeDev (if env.makeDev then none else some .enomem)).andThen (failDma env) <|
  Action.done

/-- `sfc7120_fbsd_attach`.  The labels `fail_bar` and `fail_lock` give back the BAR and
the device locks, which the firmware does not see. -/
def fbsdAttach : Action Sys Failure :=
  (outside .bar (if env.bar then none else some .enxio)).andThen id <|
  (hwInit env).andThen id <|
  (outside .allocDma env.allocDma).andThen (hwTeardown env) <|
  attachQueues env

/-- `sfc7120_fbsd_detach`, from the teardown of the firmware on. -/
def fbsdDetach (s : Sys) : Sys := freeDmaResources (hwTeardown env s)

end Driver

/-! ## Rules for the steps -/

section Rules

variable {env : Env} {s : Sys} {cmd : Cmd} {stage : Stage}

theorem mcdiExec_of_up (hup : s.sc.mcdiInitialized = true) :
    (mcdiExec env cmd s).2 = s.issue cmd (mcdiExec env cmd s).1.carriedOut := by
  simp only [mcdiExec, hup, if_true]

theorem Reply.rc_of_carriedOut {reply : Reply} (hdone : reply.carriedOut = true) :
    reply.rc = none := by
  simp only [Reply.carriedOut, Bool.and_eq_true, decide_eq_true_eq] at hdone
  exact hdone.1

/-- An answer with contents means that the command was carried out. -/
theorem carriedOut_of_used (hup : s.sc.mcdiInitialized = true)
    (hrc : (mcdiExec env cmd s).1.rc = none) (hused : 0 < (mcdiExec env cmd s).1.used) :
    (mcdiExec env cmd s).1.carriedOut = true := by
  simp only [mcdiExec, hup, if_true] at hrc hused ⊢
  cases hrefused : (env.reply s.log.length).refused with
  | true => simp [hrefused] at hused
  | false => simp [Reply.carriedOut, hrc]

@[simp] theorem mcdiFini_fw (s : Sys) : (mcdiFini s).fw = s.fw := by
  unfold mcdiFini
  split <;> rfl

@[simp] theorem mcdiFini_log (s : Sys) : (mcdiFini s).log = s.log := by
  unfold mcdiFini
  split <;> rfl

@[simp] theorem mcdiFini_freed (s : Sys) : (mcdiFini s).freed = s.freed := by
  unfold mcdiFini
  split <;> rfl

theorem triple_query {P Q : Sys → Prop} {R : Failure → Sys → Prop} {need : Nat}
    {accept : Reply → Softc → Softc} (hup : ∀ s, P s → s.sc.mcdiInitialized = true)
    (hrefused : ∀ s e, P s → R ⟨stage, e, false⟩ (s.issue cmd false))
    (hshort : ∀ s done, 0 < need → P s → R ⟨stage, .eproto, done⟩ (s.issue cmd done))
    (haccept : ∀ s reply done, (0 < need → done = true) → P s →
      Q { s.issue cmd done with sc := accept reply (s.issue cmd done).sc }) :
    Triple P (query env cmd stage need accept) Q R := by
  intro s hpre
  have hout : (mcdiExec env cmd s).2 = s.issue cmd (mcdiExec env cmd s).1.carriedOut :=
    mcdiExec_of_up (hup s hpre)
  unfold query
  cases hrc : (mcdiExec env cmd s).1.rc with
  | some e =>
    have hnot : (mcdiExec env cmd s).1.carriedOut = false := by
      simp [Reply.carriedOut, hrc]
    rw [hnot] at hout
    simp only [hrc, hout]
    exact hrefused s e hpre
  | none =>
    by_cases hused : (mcdiExec env cmd s).1.used < need
    · simp only [hrc, hout, if_pos hused]
      exact hshort s _ (Nat.zero_lt_of_lt hused) hpre
    · simp only [hrc, hout, if_neg hused]
      refine haccept s _ _ ?_ hpre
      intro hneed
      exact carriedOut_of_used (hup s hpre) hrc (by omega)

theorem triple_query_of_keeps {I : Sys → Prop} {need : Nat} {accept : Reply → Softc → Softc}
    (hup : ∀ s, I s → s.sc.mcdiInitialized = true)
    (hissue : ∀ s done, I s → I (s.issue cmd done))
    (haccept : ∀ s reply, I s → I { s with sc := accept reply s.sc }) :
    Triple I (query env cmd stage need accept) I (fun e s => e.stage = stage ∧ I s) := by
  apply triple_query hup
  · intro s e hinv
    exact ⟨rfl, hissue s false hinv⟩
  · intro s done _ hinv
    exact ⟨rfl, hissue s done hinv⟩
  · intro s reply done _ hinv
    exact haccept _ reply (hissue s done hinv)

theorem triple_tolerant_of_keeps {I : Sys → Prop}
    (hup : ∀ s, I s → s.sc.mcdiInitialized = true)
    (hissue : ∀ s done, I s → I (s.issue cmd done)) :
    Triple I (tolerant env cmd stage) I (fun e s => e.stage = stage ∧ I s) := by
  intro s hinv
  have hkept := hissue s (mcdiExec env cmd s).1.carriedOut hinv
  rw [← mcdiExec_of_up (hup s hinv)] at hkept
  unfold tolerant
  cases hrc : (mcdiExec env cmd s).1.rc with
  | none =>
    simp only [hrc]
    exact hkept
  | some e =>
    cases e <;> simp only [hrc] <;> first | exact hkept | exact ⟨trivial, hkept⟩

theorem getAsserts_keeps {I : Sys → Prop}
    (hup : ∀ s, I s → s.sc.mcdiInitialized = true)
    (hissue : ∀ s done, I s → I (s.issue .getAsserts done)) :
    ∀ (n : Nat) (rc : Option Errno) (s : Sys), I s → I (getAsserts env n rc s).2 := by
  intro n
  induction n with
  | zero => exact fun _ _ hinv => hinv
  | succ n ih =>
    intro rc s hinv
    have hkept := hissue s (mcdiExec env .getAsserts s).1.carriedOut hinv
    rw [← mcdiExec_of_up (hup s hinv)] at hkept
    simp only [getAsserts]
    split
    · exact ih _ _ hkept
    · exact hkept

theorem triple_clearAssertions_of_keeps {I : Sys → Prop}
    (hup : ∀ s, I s → s.sc.mcdiInitialized = true)
    (hissue : ∀ s done, I s → I (s.issue .getAsserts done)) :
    Triple I (clearAssertions env) I (fun e s => e.stage = .clearAssertions ∧ I s) := by
  intro s hinv
  have hkept : I (getAsserts env 3 none s).2 := getAsserts_keeps hup hissue 3 none s hinv
  unfold clearAssertions
  generalize getAsserts env 3 none s = out at hkept
  obtain ⟨rc, s'⟩ := out
  cases rc with
  | none => exact hkept
  | some e => cases e <;> first | exact hkept | exact ⟨rfl, hkept⟩

theorem dumpFuncInfo_keeps {I : Sys → Prop}
    (hup : ∀ s, I s → s.sc.mcdiInitialized = true)
    (hport : ∀ s done, I s → I (s.issue .getPortAssignment done))
    (hinfo : ∀ s done, I s → I (s.issue .getFunctionInfo done))
    (hcaps : ∀ s done, I s → I (s.issue .getCapabilities done)) (s : Sys) (hinv : I s) :
    I (dumpFuncInfo env s) := by
  have exec_keeps : ∀ cmd, (∀ s done, I s → I (s.issue cmd done)) → ∀ s, I s →
      I (mcdiExec env cmd s).2 := by
    intro cmd hissue s hinv
    rw [mcdiExec_of_up (hup s hinv)]
    exact hissue s _ hinv
  exact exec_keeps _ hcaps _ (exec_keeps _ hinfo _ (exec_keeps _ hport s hinv))

theorem filterInsertMac_snd (hup : s.sc.mcdiInitialized = true) :
    ∃ done, (filterInsertMac env s).2 = s.issue .filterInsert done := by
  refine ⟨(mcdiExec env .filterInsert s).1.carriedOut, ?_⟩
  rw [← mcdiExec_of_up hup]
  unfold filterInsertMac
  cases hrc : (mcdiExec env .filterInsert s).1.rc with
  | some e => simp only [hrc]
  | none =>
    simp only [hrc]
    split
    · rfl
    · split <;> rfl

/-- What giving something back does: nothing if there is nothing noted, one command
otherwise. -/
theorem release_cases (env : Env) (flag : Softc → Bool) (clear : Softc → Softc)
    (keep : Option Errno → Bool) (cmd : Cmd) (hup : s.sc.mcdiInitialized = true) :
    flag s.sc = false ∧ release env flag clear keep cmd s = s ∨
      flag s.sc = true ∧ ∃ rc done, (done = true → rc = none) ∧
        release env flag clear keep cmd s =
          { s.issue cmd done with sc := if keep rc then s.sc else clear s.sc } := by
  by_cases hflag : flag s.sc = true
  · refine Or.inr ⟨hflag, (mcdiExec env cmd s).1.rc, (mcdiExec env cmd s).1.carriedOut,
      Reply.rc_of_carriedOut, ?_⟩
    simp only [release, if_pos hflag, mcdiExec_of_up hup]
    by_cases hkeep : keep (mcdiExec env cmd s).1.rc = true
    · simp only [if_pos hkeep]
      rfl
    · simp only [if_neg hkeep]
      rfl
  · exact Or.inl ⟨Bool.eq_false_iff.mpr hflag, if_neg hflag⟩

end Rules

/-- A zeroed softc, and a firmware that holds nothing for the function. -/
def fresh : Sys where
  sc :=
    { mcdiInitialized := false
      drvAttached := false
      visAllocated := false
      viCount := 0
      vadaptorAllocated := false
      evqInitialized := false
      dataEvqInitialized := false
      rxqInitialized := false
      txqInitialized := false
      rxFilterInserted := false
      linkUp := false }
  fw :=
    { drvAttached := false
      vis := false
      vadaptor := false
      controlEvq := false
      dataEvq := false
      rxq := false
      txq := false }
  mtxInits := 0
  mtxDestroys := 0
  bufAllocs := 0
  bufFrees := 0
  log := []
  freed := []

/-- A firmware that answers everything but one command. -/
def refusing (refused : Nat) (e : Errno) : Env where
  reply n :=
    { rc := if n = refused then some e else none
      refused := false
      used := 256
      viCount := 32
      linkUp := true
      validHandle := true }
  bar := true
  allocBuf := none
  pciReady := true
  hwRevOk := true
  allocDma := none
  intrSetup := none
  makeDev := true

end Bringup
end SfcCapio
