import SfcCapio.Capio.Softc
import SfcCapio.Foundation.Runs

/-!
# Mappings of one device, step by step

The threads of any number of processes map the regions of one device and revoke its
token.  A step is one section under `CAP_LOCK` or one call between two such
sections, so any interleaving of `capio_mmap_single_extra`, the entry of the object
into a map by modmap, `capio_vaddr_callback`, the pager's constructor and
destructor, fork, `CAPIO_GOODBYE` and the last close is a run.

`entries` are the entries of all process maps that show a region of the device.  As
assumed of the kernel, `vm_map_remove` takes the given range out of the given map,
modmap enters an object at a free nonzero address and then calls the callback once,
and a pager object is destroyed when no entry and no call refers to it any more.  A
request of length 0 reaches the driver, which accepts it for a type without a size; the
kernel has no entries of length 0, so that such a call fails after its object is built.

For the statement every attach starts a session with a number of its own.  A call
carries the session whose token let it in and hands it on to the entry it makes;
`revoked` lists the sessions for which `revoke_cap_token` has returned 0.
-/

namespace SfcCapio
namespace Capio

open Foundation

/-! ## Process maps -/

/-- An entry of a process map that shows a region, with the pager object behind it
and the session that authorised it. -/
structure MapEntry where
  pid : Nat
  type : Int
  start : Nat
  len : Nat
  readable : Bool
  object : Nat
  auth : Nat
deriving DecidableEq, Repr

/-- What is left of an entry when `[lo, hi)` is taken out. -/
def MapEntry.minus (e : MapEntry) (lo hi : Nat) : List MapEntry :=
  (if e.start < lo then [{ e with len := min e.len (lo - e.start) }] else []) ++
    if hi < e.start + e.len then
      [{ e with start := max e.start hi, len := e.start + e.len - max e.start hi }]
    else []

/-- `vm_map_remove` on the map of a process. -/
def vmMapRemove (entries : List MapEntry) (pid lo hi : Nat) : List MapEntry :=
  entries.flatMap fun e => if e.pid = pid then e.minus lo hi else [e]

/-- Whether `vm_map_lookup` for reading succeeds. -/
def vmMapLookup (entries : List MapEntry) (pid addr : Nat) : Bool :=
  entries.any fun e =>
    e.pid = pid && e.start ≤ addr && addr < e.start + e.len && e.readable

/-- `delete_mapping_from_user` called by a thread of the process: the result and the
maps.  A process without a map has no entries, and fails the lookup in the same way. -/
def deleteMappingFromUser (entries : List MapEntry) (pid offset len : Nat) :
    Option Errno × List MapEntry :=
  if vmMapLookup entries pid offset then (none, vmMapRemove entries pid offset (offset + len))
  else (none, entries)

/-! ## Calls under way -/

/-- How far a call of `capio_mmap_single_extra` has come. -/
inductive MmapPhase
  /-- The checks before the search of the regions are passed. -/
  | admitted
  /-- The search of the regions is passed. -/
  | found
  /-- The pager's constructor has run for `object`. -/
  | built (object : Nat)
  /-- modmap has entered the object at `vaddr`. -/
  | entered (vaddr : Nat)
deriving DecidableEq, Repr

/-- A call of `capio_mmap_single_extra` with what follows it up to the callback. -/
structure MmapCall where
  pid : Nat
  mapType : Int
  size : Nat
  readable : Bool
  auth : Nat
  phase : MmapPhase
deriving DecidableEq, Repr

/-- The call has passed the search of the regions, and asks for something: it may make an
entry. -/
def MmapCall.Maps (c : MmapCall) : Prop := c.size ≠ 0 ∧ c.phase ≠ .admitted

/-- How far a call of `revoke_cap_token` has come. -/
inductive RevokePhase
  /-- The ioctl handler has accepted the token, or a close has begun. -/
  | admitted
  /-- The token is cleared and the loop stands at region `i`. -/
  | scanning (i : Nat)
  /-- Region `i` was read with an address. -/
  | deleting (i : Nat) (smem : SharedMemRegion)
  /-- Its mapping was deleted and its address is about to be cleared. -/
  | forgetting (i : Nat)

/-- A call of `revoke_cap_token`.  `target` is the session whose token it cleared. -/
structure RevokeCall where
  pid : Nat
  target : Option Nat
  error : Option Errno
  phase : RevokePhase

/-- A live pager object.  `inCall` says that the call that built it still holds the
reference. -/
structure PagerObject where
  id : Nat
  type : Int
  inCall : Bool
deriving DecidableEq, Repr

/-- One device with the maps and threads that use it. -/
structure MapSys (Cap Key : Type*) where
  sc : CapioSoftc Cap Key
  session : Nat
  entries : List MapEntry
  objects : List PagerObject
  nextObject : Nat
  mmaps : Nat → Option MmapCall
  revokes : Nat → Option RevokeCall
  revoked : List Nat

/-- The steps; `tid` is a thread. -/
inductive MapLabel (Cap : Type*)
  | attach (req : CapReq Cap)
  | mmapAdmit (tid pid : Nat) (dying : Bool) (req : MapReq Cap) (nprot : Prot)
      (offset size : Nat)
  | mmapFind (tid : Nat)
  | mmapBuild (tid : Nat)
  | mmapEnter (tid vaddr : Nat)
  | mmapCallback (tid : Nat)
  | mmapFail (tid : Nat)
  | goodbye (tid pid : Nat) (sealedCap : Cap)
  | close (tid pid : Nat)
  | revokeClear (tid : Nat)
  | revokeNext (tid : Nat)
  | revokeDelete (tid : Nat)
  | revokeForget (tid : Nat)
  | fork (pid child : Nat)
  | dtor (object : Nat)

namespace MapSys

variable {Cap Key : Type*}

/-- A thread moves on in `capio_mmap_single_extra`, or leaves it. -/
def setMmap (s : MapSys Cap Key) (tid : Nat) (call : Option MmapCall) : MapSys Cap Key :=
  { s with mmaps := Function.update s.mmaps tid call }

/-- A thread moves on in `revoke_cap_token`, or leaves it. -/
def setRevoke (s : MapSys Cap Key) (tid : Nat) (call : Option RevokeCall) : MapSys Cap Key :=
  { s with revokes := Function.update s.revokes tid call }

/-- The thread is in neither function. -/
def Idle (s : MapSys Cap Key) (tid : Nat) : Prop :=
  (s.mmaps tid).isNone ∧ (s.revokes tid).isNone

instance (s : MapSys Cap Key) (tid : Nat) : Decidable (s.Idle tid) :=
  inferInstanceAs (Decidable (_ ∧ _))

/-- The range is free in the map of the process. -/
def Free (s : MapSys Cap Key) (pid vaddr size : Nat) : Prop :=
  ∀ e ∈ s.entries, e.pid = pid → e.start + e.len ≤ vaddr ∨ vaddr + size ≤ e.start

instance (s : MapSys Cap Key) (pid vaddr size : Nat) : Decidable (s.Free pid vaddr size) :=
  inferInstanceAs (Decidable (∀ e ∈ s.entries, _))

/-- The call that built the object lets go of its reference. -/
def letGo (s : MapSys Cap Key) (object : Nat) (type : Int) : List PagerObject :=
  s.objects.map fun o => if o.id = object ∧ o.type = type then { o with inCall := false } else o

/-- Nothing refers to the object. -/
def Unreferenced (s : MapSys Cap Key) (o : PagerObject) : Prop :=
  o.inCall = false ∧ ∀ e ∈ s.entries, e.object ≠ o.id

instance (s : MapSys Cap Key) (o : PagerObject) : Decidable (s.Unreferenced o) :=
  inferInstanceAs (Decidable (_ ∧ _))

/-- The session whose token is set, if one is. -/
def openSession (ch : Sealing Cap Key) (s : MapSys Cap Key) : Option Nat :=
  if ch.isNull s.sc.capState.sealedCap then none else some s.session

/-- The entry modmap makes for a call. -/
def entryOf (c : MmapCall) (object vaddr : Nat) : MapEntry where
  pid := c.pid
  type := c.mapType
  start := vaddr
  len := c.size
  readable := c.readable
  object := object
  auth := c.auth

end MapSys

/-! ## The steps -/

section System

variable {Cap Key : Type*} [DecidableEq Cap] (ch : Sealing Cap Key) (bufferSize : Int → Nat)

/-- The section of `capio_mmap_single_extra` that follows, by its phase. -/
def mmapFindStep (s : MapSys Cap Key) (tid : Nat) (c : MmapCall) :
    MmapPhase → Option (MapSys Cap Key)
  | .admitted =>
    match mmapFind s.sc.sharedMemRegs c.mapType with
    | .ok _ => some (s.setMmap tid (some { c with phase := .found }))
    | .error _ => some (s.setMmap tid none)
  | _ => none

/-- `cdev_pager_allocate`, which calls the constructor. -/
def mmapBuildStep (s : MapSys Cap Key) (tid : Nat) (c : MmapCall) :
    MmapPhase → Option (MapSys Cap Key)
  | .found =>
    some
      { s.setMmap tid (some { c with phase := .built s.nextObject }) with
        sc := capioPagerCtor s.sc c.mapType
        objects := s.objects ++ [{ id := s.nextObject, type := c.mapType, inCall := true }]
        nextObject := s.nextObject + 1 }
  | _ => none

/-- The entry of the object into the map of the process. -/
def mmapEnterStep (s : MapSys Cap Key) (tid vaddr : Nat) (c : MmapCall) :
    MmapPhase → Option (MapSys Cap Key)
  | .built object =>
    if vaddr ≠ 0 ∧ c.size ≠ 0 ∧ s.Free c.pid vaddr c.size then
      some
        { s.setMmap tid (some { c with phase := .entered vaddr }) with
          entries := s.entries ++ [MapSys.entryOf c object vaddr]
          objects := s.letGo object c.mapType }
    else none
  | _ => none

/-- The callback, which ends the call. -/
def mmapCallbackStep (s : MapSys Cap Key) (tid : Nat) (c : MmapCall) :
    MmapPhase → Option (MapSys Cap Key)
  | .entered vaddr =>
    some
      { s.setMmap tid none with
        sc := (capioVaddrCallback s.sc vaddr c.size c.mapType).2 }
  | _ => none

/-- The pager cannot allocate, or modmap cannot enter the object. -/
def mmapFailStep (s : MapSys Cap Key) (tid : Nat) (c : MmapCall) :
    MmapPhase → Option (MapSys Cap Key)
  | .found => some (s.setMmap tid none)
  | .built object =>
    some { s.setMmap tid none with objects := s.letGo object c.mapType }
  | _ => none

/-- The first section of `revoke_cap_token`. -/
def revokeClearStep (s : MapSys Cap Key) (tid : Nat) (c : RevokeCall) :
    RevokePhase → Option (MapSys Cap Key)
  | .admitted =>
    some
      { s.setRevoke tid
          (some { c with target := s.openSession ch, error := none, phase := .scanning 0 }) with
        sc := clearCapState ch s.sc }
  | _ => none

/-- The head of the loop of `revoke_cap_token`: read a region, or return. -/
def revokeNextStep (s : MapSys Cap Key) (tid : Nat) (c : RevokeCall) :
    RevokePhase → Option (MapSys Cap Key)
  | .scanning i =>
    match s.sc.sharedMemRegs[i]? with
    | some smem =>
      if smem.offset ≠ 0 then
        some (s.setRevoke tid (some { c with phase := .deleting i smem }))
      else some (s.setRevoke tid (some { c with phase := .scanning (i + 1) }))
    | none =>
      some
        { s.setRevoke tid none with
          revoked := if c.error = none then c.target.toList ++ s.revoked else s.revoked }
  | _ => none

/-- The call of `delete_mapping_from_user`. -/
def revokeDeleteStep (s : MapSys Cap Key) (tid : Nat) (c : RevokeCall) :
    RevokePhase → Option (MapSys Cap Key)
  | .deleting i smem =>
    let out := deleteMappingFromUser s.entries c.pid smem.offset smem.len
    let phase := if out.1 = none then RevokePhase.forgetting i else .scanning (i + 1)
    some
      { s.setRevoke tid (some { c with error := out.1, phase := phase }) with
        entries := out.2 }
  | _ => none

/-- The section that clears the address of a region. -/
def revokeForgetStep (s : MapSys Cap Key) (tid : Nat) (c : RevokeCall) :
    RevokePhase → Option (MapSys Cap Key)
  | .forgetting i =>
    some
      { s.setRevoke tid (some { c with phase := .scanning (i + 1) }) with
        sc :=
          { s.sc with
            sharedMemRegs := s.sc.sharedMemRegs.modify i fun smem => { smem with offset := 0 } } }
  | _ => none

/-- The system. -/
def mapStep (s : MapSys Cap Key) : MapLabel Cap → Option (MapSys Cap Key)
  | .attach req =>
    match setCapToken ch s.sc req with
    | .ok (_, sc) => some { s with sc := sc, session := s.session + 1 }
    | .error _ => some s
  | .mmapAdmit tid pid dying req nprot offset size =>
    if s.Idle tid then
      if mmapAdmit ch s.sc bufferSize dying req nprot offset size = .ok () then
        some (s.setMmap tid (some
          { pid := pid, mapType := req.mapType, size := size, readable := nprot.read,
            auth := s.session, phase := .admitted }))
      else some s
    else none
  | .mmapFind tid => (s.mmaps tid).bind fun c => mmapFindStep s tid c c.phase
  | .mmapBuild tid => (s.mmaps tid).bind fun c => mmapBuildStep s tid c c.phase
  | .mmapEnter tid vaddr => (s.mmaps tid).bind fun c => mmapEnterStep s tid vaddr c c.phase
  | .mmapCallback tid => (s.mmaps tid).bind fun c => mmapCallbackStep s tid c c.phase
  | .mmapFail tid => (s.mmaps tid).bind fun c => mmapFailStep s tid c c.phase
  | .goodbye tid pid sealedCap =>
    if s.Idle tid then
      if checkCapToken ch s.sc sealedCap = .ok () then
        some (s.setRevoke tid (some
          { pid := pid, target := none, error := none, phase := .admitted }))
      else some s
    else none
  | .close tid pid =>
    if s.Idle tid then
      some (s.setRevoke tid (some
        { pid := pid, target := none, error := none, phase := .admitted }))
    else none
  | .revokeClear tid => (s.revokes tid).bind fun c => revokeClearStep ch s tid c c.phase
  | .revokeNext tid => (s.revokes tid).bind fun c => revokeNextStep s tid c c.phase
  | .revokeDelete tid => (s.revokes tid).bind fun c => revokeDeleteStep s tid c c.phase
  | .revokeForget tid => (s.revokes tid).bind fun c => revokeForgetStep s tid c c.phase
  | .fork pid child =>
    if ∀ e ∈ s.entries, e.pid ≠ child then
      some
        { s with
          entries := s.entries ++
            (s.entries.filter fun e => e.pid = pid).map fun e => { e with pid := child } }
    else none
  | .dtor object =>
    (s.objects.find? fun o => o.id = object).bind fun o =>
      if s.Unreferenced o then
        some
          { s with
            sc := capioPagerDtor s.sc o.type
            objects := s.objects.filter fun o' => o' ≠ o }
      else none

/-- A device freshly initialised, with regions of different types and no mapping.
The driver gives a size to its own types only. -/
structure MapStart (createSealingKey : Nat → Key) (s : MapSys Cap Key) : Prop where
  init : ∃ smem, s.sc = initCapioSc ch createSealingKey smem
  types : (s.sc.sharedMemRegs.map SharedMemRegion.type).Nodup
  unmapped : ∀ smem ∈ s.sc.sharedMemRegs, smem.offset = 0
  sizes : ∀ type, bufferSize type ≠ 0 → type ∈ s.sc.sharedMemRegs.map SharedMemRegion.type
  entries : s.entries = []
  objects : s.objects = []
  mmaps : ∀ tid, s.mmaps tid = none
  revokes : ∀ tid, s.revokes tid = none
  revoked : s.revoked = []

/-- Once `revoke_cap_token` has returned 0, no process has a mapping authorised by the
token it revoked. -/
def RevocationComplete (s : MapSys Cap Key) : Prop :=
  ∀ e ∈ s.entries, e.auth ∉ s.revoked

/-! ## When revocation can be complete -/

/-- The thread has cleared the token and not returned yet. -/
def RevokeCall.Running (c : RevokeCall) : Prop := c.phase ≠ .admitted

/-- The order that the callers must keep.  Requests that are refused, or that ask for
nothing, are free.

* A call that passes the search maps readable, as the only one that maps the region, and
  with the token that is set.
* The token is revoked by the process that has all the mappings, when no call maps and no
  other revocation runs.
* Nobody is attached while a revocation runs.
* A process that has mappings does not fork. -/
def Orderly (s : MapSys Cap Key) : MapLabel Cap → Prop
  | .attach req =>
    ∀ out, setCapToken ch s.sc req = .ok out → ∀ tid c, s.revokes tid = some c → ¬ c.Running
  | .mmapFind tid =>
    ∀ c found, s.mmaps tid = some c → c.size ≠ 0 →
      mmapFind s.sc.sharedMemRegs c.mapType = .ok found →
        c.readable = true ∧ s.openSession ch = some c.auth ∧
          ∀ tid' c', s.mmaps tid' = some c' → c'.Maps → c'.mapType ≠ c.mapType
  | .revokeClear tid =>
    (∀ tid' c, s.mmaps tid' = some c → ¬ c.Maps) ∧
      (∀ tid' c, s.revokes tid' = some c → ¬ c.Running) ∧
        ∀ c, s.revokes tid = some c → ∀ e ∈ s.entries, e.pid = c.pid
  | .fork pid _ => ∀ e ∈ s.entries, e.pid ≠ pid
  | _ => True

end System

end Capio
end SfcCapio
