import SfcCapio.Capio.Regions
import SfcCapio.Capio.Lifecycle

/-!
# User calls during attach

`sfc7120_fbsd_attach` creates the character device before CAPIO is initialised.
`make_dev_capio` registers the modmap callbacks, then `si_drv1` is set, the seven
entries of `smem[]` are filled, and only then `init_capio_sc` initialises the lock, the
key, the table and the operations.  A process can open the device as soon as it exists.

The methods of the device are refused as long as `si_drv1` is `NULL`, and modmap asks
for sizes only through a registered callback.  From there on nothing holds a call back:
it finds a lock that is not initialised and seals with a key that is not set.

`attachStep` interleaves the steps of attach with the calls of any number of threads.
A call is made in one step with the first section of the code it enters: the pointer it
has tested stays set, so testing it earlier makes no difference.  The sections that
follow are steps of `mapStep`, on whose assumptions about the kernel the model rests.
The entries of `smem[]` are filled one at a time; a call that would follow the table
while its length is set and its address is not finds it empty here.
-/

namespace SfcCapio
namespace Capio

open Foundation

/-! ## Attach -/

/-- How far `sfc7120_fbsd_attach` has come since the device exists. -/
inductive AttachPhase
  /-- `make_dev` has returned. -/
  | created
  /-- The vaddr callback is registered. -/
  | vaddrRegistered
  /-- The slice callback is registered. -/
  | sliceRegistered
  /-- `si_drv1` is set and `i` entries of `smem[]` are filled. -/
  | populating (i : Nat)
  /-- `init_capio_sc` has stored `dev`. -/
  | devSet
  /-- `cap_mtx` is initialised. -/
  | lockInit
  /-- `sealing_key` is set. -/
  | keySet
  /-- `shared_mem_regs_len` is set. -/
  | lenSet
  /-- `shared_mem_regs` is set. -/
  | regsSet
  /-- `capio_ops` is set and `init_capio_sc` has returned. -/
  | initialised
deriving DecidableEq, Repr

namespace AttachPhase

/-- modmap finds the slice callback. -/
def hasSlices : AttachPhase → Bool
  | created => false
  | vaddrRegistered => false
  | _ => true

/-- `si_drv1` is set. -/
def hasSoftc : AttachPhase → Bool
  | created => false
  | vaddrRegistered => false
  | sliceRegistered => false
  | _ => true

/-- The sealing key is set. -/
def hasKey : AttachPhase → Bool
  | keySet => true
  | lenSet => true
  | regsSet => true
  | initialised => true
  | _ => false

end AttachPhase

/-- What a call uses of CAPIO. -/
inductive Service
  | capLock
  | capState
  | capioOps
deriving DecidableEq, Repr

/-- A device that is being attached.  `served` lists what user calls have used, each
with whether `init_capio_sc` had returned; `issued` the tokens given out, each with
whether the key was set; `overwritten` says that a token was replaced by another. -/
structure AttachSys (Cap Key : Type*) where
  map : MapSys Cap Key
  phase : AttachPhase
  smem : List SharedMemRegion
  served : List (Service × Bool)
  issued : List Bool
  overwritten : Bool

/-- The calls of a process on the device, each up to its first section. -/
inductive UserCall (Cap : Type*)
  | ioctl (tid pid : Nat) (cmd : CapioCmd) (req : CapReq Cap)
  | sizeQuery (mapType : Int)
  | mmap (tid pid : Nat) (req : MapReq Cap) (nprot : Prot) (offset size : Nat)
  | close (tid pid : Nat)

/-- A step of attach, a user call, or the next section of a call under way. -/
inductive AttachLabel (Cap : Type*)
  | attach
  | call (c : UserCall Cap)
  | go (l : MapLabel Cap)

/-- The steps by which a call goes on, and those that no call makes. -/
def MapLabel.continues {Cap : Type*} : MapLabel Cap → Bool
  | .attach _ => false
  | .mmapAdmit _ _ _ _ _ _ _ => false
  | .goodbye _ _ _ => false
  | .close _ _ => false
  | _ => true

section System

variable {Cap Key : Type*} [DecidableEq Cap] (ch : Sealing Cap Key)
  (createSealingKey : Nat → Key) (barSize : Nat) (ablation : Bool)

namespace AttachSys

/-- `sc->smem`, which CAPIO shares once it has the address. -/
def currentSmem (s : AttachSys Cap Key) : List SharedMemRegion :=
  match s.phase with
  | .regsSet => s.map.sc.sharedMemRegs
  | .initialised => s.map.sc.sharedMemRegs
  | _ => s.smem

/-- What `get_buffer_size` answers at present. -/
def bufferSize (s : AttachSys Cap Key) : Int → Nat := getBufferSize barSize s.currentSmem

/-- The call gets past the test of the pointer it goes through. -/
def reaches (s : AttachSys Cap Key) : UserCall Cap → Bool
  | .sizeQuery _ => s.phase.hasSlices
  | _ => s.phase.hasSoftc

/-- The mappings move on, with what was used and issued. -/
def moved (s : AttachSys Cap Key) (m : MapSys Cap Key) (services : List Service)
    (issued : List Bool) : AttachSys Cap Key :=
  { s with
    map := m
    served := s.served ++ services.map fun service => (service, s.phase == .initialised)
    issued := s.issued ++ issued
    overwritten := s.overwritten ||
      (!ch.isNull s.map.sc.capState.sealedCap && !ch.isNull m.sc.capState.sealedCap &&
        decide (m.sc.capState.sealedCap ≠ s.map.sc.capState.sealedCap)) }

/-- The next step of `sfc7120_fbsd_attach`. -/
def attachNext (s : AttachSys Cap Key) : Option (AttachSys Cap Key) :=
  match s.phase with
  | .created => some { s with phase := .vaddrRegistered }
  | .vaddrRegistered => some { s with phase := .sliceRegistered }
  | .sliceRegistered => some { s with phase := .populating 0 }
  | .populating i =>
    match (attachSmem barSize ablation)[i]? with
    | some entry => some { s with smem := s.smem.set i entry, phase := .populating (i + 1) }
    | none => some { s with phase := .devSet }
  | .devSet => some { s with phase := .lockInit }
  | .lockInit =>
    let sc := { s.map.sc with sealingKey := createSealingKey 0x1234 }
    some { s with map := { s.map with sc := sc }, phase := .keySet }
  | .keySet => some { s with phase := .lenSet }
  | .lenSet =>
    let sc := { s.map.sc with sharedMemRegs := s.smem }
    some { s with map := { s.map with sc := sc }, phase := .regsSet }
  | .regsSet => some { s with phase := .initialised }
  | .initialised => none

/-- The first section of a call. -/
def callStep (s : AttachSys Cap Key) : UserCall Cap → Option (MapSys Cap Key)
  | .ioctl _ _ .attach req => mapStep ch (s.bufferSize barSize) s.map (.attach req)
  | .ioctl tid pid .goodbye req =>
    mapStep ch (s.bufferSize barSize) s.map (.goodbye tid pid req.sealedCap)
  | .ioctl _ _ (.driver _) _ => some s.map
  | .sizeQuery _ => some s.map
  | .mmap tid pid req nprot offset size =>
    mapStep ch (s.bufferSize barSize) s.map
      (.mmapAdmit tid pid false req nprot offset size)
  | .close tid pid =>
    (mapStep ch (s.bufferSize barSize) s.map (.close tid pid)).bind fun m =>
      mapStep ch (s.bufferSize barSize) m (.revokeClear tid)

/-- What the first section of a call uses, in program order. -/
def callServices (s : AttachSys Cap Key) : UserCall Cap → List Service
  | .ioctl _ _ .attach req =>
    .capLock :: if ch.isNull req.userCap then [] else [.capState]
  | .ioctl _ _ .goodbye _ => [.capState]
  | .ioctl _ _ (.driver _) req =>
    .capState ::
      if checkCapToken ch s.map.sc req.sealedCap = .ok () then [.capioOps] else []
  | .sizeQuery _ => [.capLock]
  | .mmap _ _ req nprot offset _ =>
    .capState ::
      if checkCapToken ch s.map.sc req.sealedCap = .ok () ∧
          nprot.readCap = false ∧ nprot.writeCap = false then
        .capLock ::
          if offset ≠ 0 then []
          else .capioOps :: if ch.tag req.userCap = false then [] else [.capioOps]
      else []
  | .close _ _ => [.capLock, .capState]

/-- The token a call issues, with whether the key is set. -/
def callIssues (s : AttachSys Cap Key) : UserCall Cap → List Bool
  | .ioctl _ _ .attach req =>
    match setCapToken ch s.map.sc req with
    | .ok _ => [s.phase.hasKey]
    | .error _ => []
  | _ => []

/-- What a later section of a call uses. -/
def goServices (s : AttachSys Cap Key) : MapLabel Cap → List Service
  | .mmapFind _ => [.capLock]
  | .mmapBuild _ => [.capLock, .capioOps]
  | .mmapCallback _ => [.capLock]
  | .revokeClear _ => [.capLock, .capState]
  | .revokeNext tid =>
    match (s.map.revokes tid).map RevokeCall.phase with
    | some (.scanning i) => if i < s.map.sc.sharedMemRegs.length then [.capLock] else []
    | _ => []
  | .revokeForget _ => [.capLock]
  | .dtor _ => [.capLock]
  | _ => []

end AttachSys

open AttachSys in
/-- The system. -/
def attachStep (s : AttachSys Cap Key) : AttachLabel Cap → Option (AttachSys Cap Key)
  | .attach =>
    (s.attachNext createSealingKey barSize ablation).map fun t =>
      { t with overwritten := (s.moved ch t.map [] []).overwritten }
  | .call c =>
    if s.reaches c then
      (s.callStep ch barSize c).map fun m =>
        s.moved ch m (s.callServices ch c) (s.callIssues ch c)
    else some s
  | .go l =>
    if l.continues then
      (mapStep ch (s.bufferSize barSize) s.map l).map fun m => s.moved ch m (s.goServices l) []
    else none

/-- The device has just been created over a zeroed softc. -/
structure AttachStart (unsetKey : Key) (s : AttachSys Cap Key) : Prop where
  phase : s.phase = .created
  key : s.map.sc.sealingKey = unsetKey
  token : s.map.sc.capState = ⟨ch.null, ch.null⟩
  regs : s.map.sc.sharedMemRegs = []
  objects : s.map.objects = []
  mmaps : ∀ tid, s.map.mmaps tid = none
  revokes : ∀ tid, s.map.revokes tid = none
  served : s.served = []
  issued : s.issued = []
  overwritten : s.overwritten = false

end System

variable {Cap Key : Type*}

/-- Nothing was used before `init_capio_sc` had returned, no token was sealed with an
unset key, and none was overwritten. -/
structure ServedInitialised (s : AttachSys Cap Key) : Prop where
  served : ∀ e ∈ s.served, e.2 = true
  issued : ∀ keySet ∈ s.issued, keySet = true
  kept : s.overwritten = false

/-- No call falls into the window: a call that gets past its pointer is made after
`init_capio_sc` has returned. -/
def OutsideWindow (s : AttachSys Cap Key) : AttachLabel Cap → Prop
  | .call c => s.reaches c = true → s.phase = .initialised
  | _ => True

instance (s : AttachSys Cap Key) (l : AttachLabel Cap) : Decidable (OutsideWindow s l) :=
  match l with
  | .attach => isTrue trivial
  | .call _ => inferInstanceAs (Decidable (_ → _))
  | .go _ => isTrue trivial

/-! ## The invariant -/

/-- Nobody has used CAPIO. -/
structure Quiet (ch : Sealing Cap Key) (m : MapSys Cap Key) : Prop where
  token : ch.isNull m.sc.capState.sealedCap = true
  objects : m.objects = []
  mmaps : ∀ tid, m.mmaps tid = none
  revokes : ∀ tid, m.revokes tid = none

/-- Until `init_capio_sc` has returned nobody has used CAPIO, and afterwards all is as
it should be. -/
structure AttachInv (ch : Sealing Cap Key) (s : AttachSys Cap Key) : Prop where
  good : ServedInitialised s
  quiet : s.phase ≠ .initialised → Quiet ch s.map

section Steps

variable [DecidableEq Cap] {ch : Sealing Cap Key} {createSealingKey : Nat → Key} {barSize : Nat}
  {ablation : Bool}

variable {m m' : MapSys Cap Key} {s : AttachSys Cap Key}

omit [DecidableEq Cap] in
theorem token_mapCase {bufferSize : Int → Nat} {l : MapLabel Cap}
    (hcase : MapCase ch bufferSize m l m') :
    ch.isNull m.sc.capState.sealedCap = true ∨ ch.isNull m'.sc.capState.sealedCap = true ∨
      m'.sc.capState.sealedCap = m.sc.capState.sealedCap := by
  cases hcase with
  | attach req hfree hset sc hregs => exact Or.inl hfree
  | clear tid c hcall hphase => exact Or.inr (Or.inl ch.isNull_null)
  | callback tid c vaddr hcall hphase =>
    refine Or.inr (Or.inr ?_)
    simp only [capioVaddrCallback]
    split <;> rfl
  | _ => exact Or.inr (Or.inr rfl)

/-- The good state is kept by a move that replaces no token, uses CAPIO only when it is
initialised and issues only under a key. -/
theorem ServedInitialised.moved {services : List Service} {issued : List Bool}
    (hgood : ServedInitialised s) (htoken : ch.isNull s.map.sc.capState.sealedCap = true ∨
      ch.isNull m.sc.capState.sealedCap = true ∨
      m.sc.capState.sealedCap = s.map.sc.capState.sealedCap)
    (hserved : services ≠ [] → s.phase = .initialised)
    (hissued : ∀ keySet ∈ issued, keySet = true) :
    ServedInitialised (s.moved ch m services issued) := by
  refine ⟨?_, ?_, ?_⟩
  · intro e he
    rcases List.mem_append.mp he with hold | hnew
    · exact hgood.served e hold
    · obtain ⟨service, hservice, rfl⟩ := List.mem_map.mp hnew
      simpa using hserved (List.ne_nil_of_mem hservice)
  · intro keySet hkey
    rcases List.mem_append.mp hkey with hold | hnew
    · exact hgood.issued keySet hold
    · exact hissued keySet hnew
  · simp only [AttachSys.moved, hgood.kept, Bool.false_or]
    rcases htoken with h | h | h <;> simp [h]

theorem token_callStep {c : UserCall Cap} (hcall : s.callStep ch barSize c = some m) :
    ch.isNull s.map.sc.capState.sealedCap = true ∨ ch.isNull m.sc.capState.sealedCap = true ∨
      m.sc.capState.sealedCap = s.map.sc.capState.sealedCap := by
  cases c with
  | ioctl tid pid cmd req =>
    cases cmd with
    | attach =>
      simp only [AttachSys.callStep] at hcall
      exact token_mapCase (mapCase_mapStep hcall)
    | goodbye =>
      simp only [AttachSys.callStep] at hcall
      exact token_mapCase (mapCase_mapStep hcall)
    | driver cmd =>
      cases hcall
      exact Or.inr (Or.inr rfl)
  | sizeQuery mapType =>
    cases hcall
    exact Or.inr (Or.inr rfl)
  | mmap tid pid req nprot offset size =>
    simp only [AttachSys.callStep] at hcall
    exact token_mapCase (mapCase_mapStep hcall)
  | close tid pid =>
    obtain ⟨m₁, hclose, hclear⟩ := Option.bind_eq_some_iff.mp hcall
    refine Or.inr (Or.inl ?_)
    obtain ⟨c, -, hc⟩ := Option.bind_eq_some_iff.mp hclear
    unfold revokeClearStep at hc
    split at hc
    · cases hc
      exact ch.isNull_null
    · cases hc

omit [DecidableEq Cap] in
theorem callIssues_of_initialised (hphase : s.phase = .initialised)
    (c : UserCall Cap) : ∀ keySet ∈ s.callIssues ch c, keySet = true := by
  intro keySet hkey
  unfold AttachSys.callIssues at hkey
  split at hkey
  · split at hkey
    · rw [List.mem_singleton.mp hkey, hphase]
      rfl
    · cases hkey
  · cases hkey

/-- While nobody uses CAPIO no call can go on. -/
theorem go_of_quiet {bufferSize : Int → Nat} {l : MapLabel Cap} (hquiet : Quiet ch m)
    (hgo : l.continues = true) (hstep : mapStep ch bufferSize m l = some m') :
    Quiet ch m' ∧ ∃ pid child, l = .fork pid child := by
  cases l with
  | fork pid child =>
    simp only [mapStep] at hstep
    split at hstep
    · cases hstep
      exact ⟨⟨hquiet.token, hquiet.objects, hquiet.mmaps, hquiet.revokes⟩, pid, child, rfl⟩
    · cases hstep
  | dtor object => simp [mapStep, hquiet.objects] at hstep
  | attach req => cases hgo
  | mmapAdmit tid pid dying req nprot offset size => cases hgo
  | goodbye tid pid sealedCap => cases hgo
  | close tid pid => cases hgo
  | mmapFind tid => simp [mapStep, hquiet.mmaps] at hstep
  | mmapBuild tid => simp [mapStep, hquiet.mmaps] at hstep
  | mmapEnter tid vaddr => simp [mapStep, hquiet.mmaps] at hstep
  | mmapCallback tid => simp [mapStep, hquiet.mmaps] at hstep
  | mmapFail tid => simp [mapStep, hquiet.mmaps] at hstep
  | revokeClear tid => simp [mapStep, hquiet.revokes] at hstep
  | revokeNext tid => simp [mapStep, hquiet.revokes] at hstep
  | revokeDelete tid => simp [mapStep, hquiet.revokes] at hstep
  | revokeForget tid => simp [mapStep, hquiet.revokes] at hstep

/-- What a step of attach leaves alone. -/
structure AttachFrame (s t : AttachSys Cap Key) : Prop where
  capState : t.map.sc.capState = s.map.sc.capState
  objects : t.map.objects = s.map.objects
  mmaps : t.map.mmaps = s.map.mmaps
  revokes : t.map.revokes = s.map.revokes
  served : t.served = s.served
  issued : t.issued = s.issued
  notYet : s.phase ≠ .initialised

omit [DecidableEq Cap] in
theorem attachFrame_attachNext {s t : AttachSys Cap Key}
    (hnext : s.attachNext createSealingKey barSize ablation = some t) : AttachFrame s t := by
  unfold AttachSys.attachNext at hnext
  split at hnext
  case h_4 i hphase =>
    split at hnext <;> cases hnext <;> exact ⟨rfl, rfl, rfl, rfl, rfl, rfl, by simp [hphase]⟩
  case h_10 hphase => cases hnext
  all_goals
    rename_i hphase
    cases hnext
    exact ⟨rfl, rfl, rfl, rfl, rfl, rfl, by simp [hphase]⟩

theorem attachInv_step (s : AttachSys Cap Key) (l : AttachLabel Cap) (s' : AttachSys Cap Key)
    (hinv : AttachInv ch s) (hguard : OutsideWindow s l)
    (hstep : attachStep ch createSealingKey barSize ablation s l = some s') :
    AttachInv ch s' := by
  cases l with
  | attach =>
    obtain ⟨t, hnext, rfl⟩ := Option.map_eq_some_iff.mp hstep
    have hframe := attachFrame_attachNext hnext
    have hquiet := hinv.quiet hframe.notYet
    refine ⟨⟨?_, ?_, ?_⟩, fun _ => ⟨?_, ?_, ?_, ?_⟩⟩
    · rw [hframe.served]
      exact hinv.good.served
    · rw [hframe.issued]
      exact hinv.good.issued
    · simp [AttachSys.moved, hinv.good.kept, hquiet.token]
    · rw [hframe.capState]
      exact hquiet.token
    · rw [hframe.objects]
      exact hquiet.objects
    · rw [hframe.mmaps]
      exact hquiet.mmaps
    · rw [hframe.revokes]
      exact hquiet.revokes
  | call c =>
    simp only [attachStep] at hstep
    split at hstep
    · rename_i hreaches
      have hphase := hguard hreaches
      obtain ⟨m, hm, rfl⟩ := Option.map_eq_some_iff.mp hstep
      refine ⟨hinv.good.moved (token_callStep hm) (fun _ => hphase)
        (callIssues_of_initialised hphase c), fun hnot => absurd hphase hnot⟩
    · cases hstep
      exact hinv
  | go l =>
    simp only [attachStep] at hstep
    split at hstep
    · rename_i hgo
      obtain ⟨m, hm, rfl⟩ := Option.map_eq_some_iff.mp hstep
      have htoken := token_mapCase (mapCase_mapStep hm)
      by_cases hphase : s.phase = .initialised
      · exact ⟨hinv.good.moved htoken (fun _ => hphase) (List.forall_mem_nil _),
          fun hnot => absurd hphase hnot⟩
      · obtain ⟨hquiet, pid, child, rfl⟩ := go_of_quiet (hinv.quiet hphase) hgo hm
        refine ⟨hinv.good.moved htoken (fun hused => absurd rfl hused) (List.forall_mem_nil _),
          fun _ => hquiet⟩
    · cases hstep

omit [DecidableEq Cap] in
theorem callServices_ne_nil [DecidableEq Cap] (s : AttachSys Cap Key) (c : UserCall Cap) :
    s.callServices ch c ≠ [] := by
  cases c with
  | ioctl tid pid cmd req => cases cmd <;> simp [AttachSys.callServices]
  | sizeQuery mapType => simp [AttachSys.callServices]
  | mmap tid pid req nprot offset size => simp [AttachSys.callServices]
  | close tid pid => simp [AttachSys.callServices]

/-- A call in the window uses CAPIO at once. -/
theorem not_served_of_window (s : AttachSys Cap Key) (l : AttachLabel Cap)
    (s' : AttachSys Cap Key) (_ : AttachInv ch s) (hbad : ¬ OutsideWindow s l)
    (hstep : attachStep ch createSealingKey barSize ablation s l = some s') :
    ¬ ServedInitialised s' := by
  cases l with
  | attach => exact absurd trivial hbad
  | go l => exact absurd trivial hbad
  | call c =>
    simp only [OutsideWindow, Classical.not_imp] at hbad
    obtain ⟨hreaches, hphase⟩ := hbad
    simp only [attachStep, hreaches, if_true] at hstep
    obtain ⟨m, -, rfl⟩ := Option.map_eq_some_iff.mp hstep
    obtain ⟨service, hservice⟩ := List.exists_mem_of_ne_nil _ (callServices_ne_nil s c)
    intro hgood
    have hflag := hgood.served (service, s.phase == .initialised)
      (List.mem_append_right _ (List.mem_map_of_mem hservice))
    exact hphase (by simpa using hflag)

end Steps

/-! ## The result -/

theorem attachInv_start [DecidableEq Cap] {ch : Sealing Cap Key} {unsetKey : Key}
    {s : AttachSys Cap Key} (hstart : AttachStart ch unsetKey s) : AttachInv ch s where
  good := by
    refine ⟨?_, ?_, hstart.overwritten⟩
    · simp [hstart.served]
    · simp [hstart.issued]
  quiet := by
    intro _
    refine ⟨?_, hstart.objects, hstart.mmaps, hstart.revokes⟩
    rw [hstart.token]
    exact ch.isNull_null

/-- Along a run nothing is served early exactly if no call falls into the window. -/
theorem nothing_served_early_iff [DecidableEq Cap] {ch : Sealing Cap Key}
    {createSealingKey : Nat → Key} {barSize : Nat} {ablation : Bool} {unsetKey : Key}
    {s t : AttachSys Cap Key} {labels : List (AttachLabel Cap)}
    (hstart : AttachStart ch unsetKey s)
    (hrun : exec (attachStep ch createSealingKey barSize ablation) s labels = some t) :
    Along (attachStep ch createSealingKey barSize ablation) ServedInitialised s labels ↔
      Obeys (attachStep ch createSealingKey barSize ablation) OutsideWindow s labels :=
  along_iff_obeys attachInv_step (fun _ hinv => hinv.good) not_served_of_window
    (attachInv_start hstart) hrun

/-- The state `make_dev` leaves, with key 0 for the unset one. -/
def deviceCreated : AttachSys SealedWord Nat where
  map :=
    { sc :=
        { sealingKey := 0
          capState := ⟨SealedWord.sealing.null, SealedWord.sealing.null⟩
          mapped := false
          sharedMemRegs := [] }
      session := 0
      entries := []
      objects := []
      nextObject := 0
      mmaps := fun _ => none
      revokes := fun _ => none
      revoked := [] }
  phase := .created
  smem := List.replicate 7 ⟨0, false, 0, 0, false, false, [], 0⟩
  served := []
  issued := []
  overwritten := false

theorem attachStart_deviceCreated : AttachStart SealedWord.sealing 0 deviceCreated :=
  ⟨rfl, rfl, rfl, rfl, rfl, fun _ => rfl, fun _ => rfl, rfl, rfl, rfl⟩

/-- `CAPIO_ATTACH` by thread 1 of process 10. -/
def attachCall : AttachLabel SealedWord :=
  .call (.ioctl 1 10 .attach ⟨.word true 5, .word false 0⟩)

/-- A call while `si_drv1` is `NULL`, the rest of attach, and the call again. -/
def attachTwice : List (AttachLabel SealedWord) :=
  attachCall :: List.replicate 16 .attach ++ [attachCall]

theorem served_after_attach :
    AttachStart SealedWord.sealing 0 deviceCreated ∧
      (∃ t, exec (attachStep SealedWord.sealing id 65536 false) deviceCreated attachTwice =
        some t ∧ t.phase = .initialised ∧ t.issued = [true]) ∧
      Along (attachStep SealedWord.sealing id 65536 false) ServedInitialised deviceCreated
        attachTwice := by
  refine ⟨attachStart_deviceCreated, ⟨_, rfl, rfl, rfl⟩, ?_⟩
  exact (nothing_served_early_iff attachStart_deviceCreated rfl).mpr (by decide)

/-- `CAPIO_ATTACH` right after `si_drv1` is set: the lock is taken and the capability
state used before either is initialised, and the token is sealed with the unset key. -/
theorem attach_serves_early :
    ∃ t, exec (attachStep SealedWord.sealing id 65536 false) deviceCreated
        [.attach, .attach, .attach, attachCall] = some t ∧
      t.phase = .populating 0 ∧ t.served = [(.capLock, false), (.capState, false)] ∧
      t.issued = [false] ∧ ¬ ServedInitialised t := by
  refine ⟨_, rfl, rfl, rfl, rfl, ?_⟩
  intro hgood
  exact absurd (hgood.issued false (List.mem_singleton_self _)) (by decide)

end Capio
end SfcCapio
