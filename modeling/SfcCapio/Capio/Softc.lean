import SfcCapio.Foundation.Capability

/-!
# The CAPIO framework

`capio.c` guards a device with a token: `CAPIO_ATTACH` seals a capability of the
caller's choice and remembers it, every other call must show the sealed value, and
`CAPIO_GOODBYE` or the last close forgets it.  It also keeps a table of the memory
regions that can be mapped, with the address of the one mapping it remembers for
each.

The functions are written over the part of `capio_softc_t` they touch.  CHERI is a
parameter (`Sealing`); so are the answers of the driver's `capio_ops` and of the
virtual memory system.  What `device_printf` and `uprintf` report is left out.
-/

namespace SfcCapio
namespace Capio

open Foundation

/-- The error numbers returned by `capio.c`. -/
inductive Errno
  | eperm
  | eio
  | enxio
  | einval
deriving DecidableEq, Repr

/-- `cap_req_t`. -/
structure CapReq (Cap : Type*) where
  userCap : Cap
  sealedCap : Cap

/-- The argument part of `map_req_t`. -/
structure MapReq (Cap : Type*) extends CapReq Cap where
  mapType : Int

/-- The protection bits of `nprot` that matter. -/
structure Prot where
  read : Bool
  write : Bool
  readCap : Bool
  writeCap : Bool

/-- `slice_def_t`. -/
structure SliceDef where
  offset : Nat
  name : String
  readOnly : Bool
  length : Nat

/-- `shared_mem_region_t`; `offset` is the user address of the mapping remembered,
0 for none. -/
structure SharedMemRegion where
  type : Int
  isPhysical : Bool
  offset : Nat
  len : Nat
  mapped : Bool
  isSliced : Bool
  sliceDefinitions : List SliceDef
  sliceDefLen : Nat

/-- `sealed_cap_state_t`. -/
structure SealedCapState (Cap : Type*) where
  originalCap : Cap
  sealedCap : Cap

/-- `capio_softc_t`. -/
structure CapioSoftc (Cap Key : Type*) where
  sealingKey : Key
  capState : SealedCapState Cap
  mapped : Bool
  sharedMemRegs : List SharedMemRegion

variable {Cap Key : Type*} (ch : Sealing Cap Key)

/-- `init_capio_sc` on a zeroed softc.  Every device asks for the same key. -/
def initCapioSc (createSealingKey : Nat → Key) (smem : List SharedMemRegion) :
    CapioSoftc Cap Key where
  sealingKey := createSealingKey 0x1234
  capState := { originalCap := ch.null, sealedCap := ch.null }
  mapped := false
  sharedMemRegs := smem

/-! ## The token -/

/-- `check_cap_token`. -/
def checkCapToken [DecidableEq Cap] (sc : CapioSoftc Cap Key) (capToken : Cap) :
    Except Errno Unit :=
  if ch.isNull sc.capState.sealedCap then .error .einval
  else if ch.isNull capToken then .error .einval
  else if ch.unsealWith capToken sc.sealingKey ≠ sc.capState.originalCap then .error .eperm
  else .ok ()

/-- `set_cap_token`: the request with its `sealed_cap` filled in, and the state. -/
def setCapToken (sc : CapioSoftc Cap Key) (req : CapReq Cap) :
    Except Errno (CapReq Cap × CapioSoftc Cap Key) :=
  if ch.isNull req.userCap ∨ ch.isNull sc.capState.sealedCap = false then .error .einval
  else
    let sealedCap := ch.sealWith req.userCap sc.sealingKey
    .ok ({ req with sealedCap := sealedCap },
      { sc with capState := { originalCap := req.userCap, sealedCap := sealedCap } })

/-- The first section of `revoke_cap_token`. -/
def clearCapState (sc : CapioSoftc Cap Key) : CapioSoftc Cap Key :=
  { sc with capState := { originalCap := ch.null, sealedCap := ch.null } }

/-- The loop of `revoke_cap_token` over the regions.  `delete` gives the result of
`delete_mapping_from_user`, and `error` is the variable of that name: each deletion
overwrites it. -/
def revokeRegions (delete : SharedMemRegion → Option Errno) :
    List SharedMemRegion → Option Errno → List SharedMemRegion × Option Errno
  | [], error => ([], error)
  | smem :: regs, error =>
    if smem.offset ≠ 0 then
      let rest := revokeRegions delete regs (delete smem)
      match delete smem with
      | none => ({ smem with offset := 0 } :: rest.1, rest.2)
      | some _ => (smem :: rest.1, rest.2)
    else
      let rest := revokeRegions delete regs error
      (smem :: rest.1, rest.2)

/-- `revoke_cap_token` with no other thread in between. -/
def revokeCapToken (sc : CapioSoftc Cap Key) (delete : SharedMemRegion → Option Errno) :
    Option Errno × CapioSoftc Cap Key :=
  let out := revokeRegions delete sc.sharedMemRegs none
  (out.2, { clearCapState ch sc with sharedMemRegs := out.1 })

/-- The commands the handler tells apart. -/
inductive CapioCmd
  | attach
  | goodbye
  | driver (cmd : Nat)
deriving DecidableEq, Repr

/-- `capio_ioctl_handler`: the error returned, the request as it is copied out, and
the state.  `ioctl` is the result of the driver's own handler, which has no access
to the token. -/
def capioIoctlHandler [DecidableEq Cap] (sc : CapioSoftc Cap Key) (cmd : CapioCmd)
    (req : CapReq Cap) (delete : SharedMemRegion → Option Errno) (ioctl : Option Errno) :
    Option Errno × CapReq Cap × CapioSoftc Cap Key :=
  match cmd with
  | .attach =>
    match setCapToken ch sc req with
    | .ok (reply, sc') => (none, reply, sc')
    | .error e => (some e, req, sc)
  | .goodbye =>
    match checkCapToken ch sc req.sealedCap with
    | .error _ => (some .eperm, req, sc)
    | .ok _ =>
      let out := revokeCapToken ch sc delete
      (out.1, req, out.2)
  | .driver _ =>
    match checkCapToken ch sc req.sealedCap with
    | .error _ => (some .eperm, req, sc)
    | .ok _ => (ioctl, req, sc)

/-! ## Mapping a region -/

/-- The part of `capio_mmap_single_extra` before its search of the regions.
`bufferSize` is what `get_buffer_size` answers for the type, `dying` what
`is_dying` does. -/
def mmapAdmit [DecidableEq Cap] (sc : CapioSoftc Cap Key) (bufferSize : Int → Nat)
    (dying : Bool) (req : MapReq Cap) (nprot : Prot) (offset size : Nat) : Except Errno Unit :=
  match checkCapToken ch sc req.sealedCap with
  | .error e => .error e
  | .ok _ =>
    if nprot.readCap ∨ nprot.writeCap then .error .einval
    else if offset ≠ 0 then .error .einval
    else if dying then .error .enxio
    else if ch.tag req.userCap = false then .error .einval
    else if size ≠ bufferSize req.mapType then .error .einval
    else .ok ()

/-- What the search of the regions yields: the return values of `map_req_t` and
whether the object gets the device memory attribute. -/
structure Found where
  isSliced : Bool
  sliceDefinitions : List SliceDef
  sliceDefLen : Nat
  device : Bool

/-- The search of the regions.  A type that no region has is not refused here. -/
def mmapFind (regs : List SharedMemRegion) (mapType : Int) : Except Errno Found :=
  match regs.find? fun smem => smem.type = mapType with
  | none =>
    .ok { isSliced := false, sliceDefinitions := [], sliceDefLen := 0, device := false }
  | some smem =>
    if smem.mapped then .error .einval
    else
      .ok
        { isSliced := smem.isSliced
          sliceDefinitions := smem.sliceDefinitions
          sliceDefLen := smem.sliceDefLen
          device := smem.isPhysical }

/-- A loop over the regions that changes those of one type. -/
def onType (type : Int) (f : SharedMemRegion → SharedMemRegion)
    (regs : List SharedMemRegion) : List SharedMemRegion :=
  regs.map fun smem => if smem.type = type then f smem else smem

/-- `capio_pager_ctor`: every region of the type is marked. -/
def capioPagerCtor (sc : CapioSoftc Cap Key) (type : Int) : CapioSoftc Cap Key :=
  { sc with
    mapped := true
    sharedMemRegs := onType type (fun smem => { smem with mapped := true }) sc.sharedMemRegs }

/-- `capio_pager_dtor`. -/
def capioPagerDtor (sc : CapioSoftc Cap Key) (type : Int) : CapioSoftc Cap Key :=
  let regs := onType type (fun smem => { smem with mapped := false }) sc.sharedMemRegs
  { sc with
    mapped := if regs.any SharedMemRegion.mapped then sc.mapped else false
    sharedMemRegs := regs }

/-- The loop of `capio_vaddr_callback`; it stops at the first region of the type. -/
def recordVaddr (vaddr size : Nat) (mapType : Int) :
    List SharedMemRegion → Option (List SharedMemRegion)
  | [] => none
  | smem :: regs =>
    if smem.type = mapType then some ({ smem with offset := vaddr, len := size } :: regs)
    else (recordVaddr vaddr size mapType regs).map (smem :: ·)

/-- `capio_vaddr_callback`. -/
def capioVaddrCallback (sc : CapioSoftc Cap Key) (vaddr size : Nat) (mapType : Int) :
    Except Errno Unit × CapioSoftc Cap Key :=
  match recordVaddr vaddr size mapType sc.sharedMemRegs with
  | none => (.error .einval, sc)
  | some regs => (.ok (), { sc with sharedMemRegs := regs })

/-- `capio_mmap_single_extra` with no other thread in between, where the pager
allocates the object and the device does not start to detach meanwhile; the mapping
is then entered at `vaddr` and the callback is called. -/
def capioMmap [DecidableEq Cap] (sc : CapioSoftc Cap Key) (bufferSize : Int → Nat)
    (dying : Bool) (req : MapReq Cap) (nprot : Prot) (offset size vaddr : Nat) :
    Except Errno Found × CapioSoftc Cap Key :=
  match mmapAdmit ch sc bufferSize dying req nprot offset size with
  | .error e => (.error e, sc)
  | .ok _ =>
    match mmapFind sc.sharedMemRegs req.mapType with
    | .error e => (.error e, sc)
    | .ok found =>
      (.ok found,
        (capioVaddrCallback (capioPagerCtor sc req.mapType) vaddr size req.mapType).2)

/-! ## Lemmas -/

section Token

variable {ch} [DecidableEq Cap] {sc : CapioSoftc Cap Key}

/-- A token is accepted when one is set and the value shown unseals to it. -/
theorem checkCapToken_eq_ok_iff {capToken : Cap} :
    checkCapToken ch sc capToken = .ok () ↔
      ch.isNull sc.capState.sealedCap = false ∧ ch.isNull capToken = false ∧
        ch.unsealWith capToken sc.sealingKey = sc.capState.originalCap := by
  unfold checkCapToken
  cases hheld : ch.isNull sc.capState.sealedCap with
  | true => simp
  | false =>
    cases htoken : ch.isNull capToken with
    | true => simp
    | false =>
      by_cases heq : ch.unsealWith capToken sc.sealingKey = sc.capState.originalCap
      · simp [heq]
      · simp [heq]

end Token

/-- When `set_cap_token` succeeds, and what it does then. -/
theorem setCapToken_cases (sc : CapioSoftc Cap Key) (req : CapReq Cap) :
    (ch.isNull req.userCap = false ∧ ch.isNull sc.capState.sealedCap = true ∧
      setCapToken ch sc req =
        .ok ({ req with sealedCap := ch.sealWith req.userCap sc.sealingKey },
          { sc with
            capState :=
              { originalCap := req.userCap
                sealedCap := ch.sealWith req.userCap sc.sealingKey } })) ∨
      setCapToken ch sc req = .error .einval := by
  unfold setCapToken
  cases huser : ch.isNull req.userCap with
  | true => exact Or.inr (by simp)
  | false =>
    cases hheld : ch.isNull sc.capState.sealedCap with
    | false => exact Or.inr (by simp)
    | true => exact Or.inl (by simp)

/-- Revoking forgets the token, whatever becomes of the mappings. -/
theorem revokeCapToken_state (sc : CapioSoftc Cap Key)
    (delete : SharedMemRegion → Option Errno) :
    ch.isNull (revokeCapToken ch sc delete).2.capState.sealedCap = true ∧
      (revokeCapToken ch sc delete).2.sealingKey = sc.sealingKey :=
  ⟨ch.isNull_null, rfl⟩

theorem capioMmap_capState [DecidableEq Cap] (sc : CapioSoftc Cap Key) (bufferSize : Int → Nat)
    (dying : Bool) (req : MapReq Cap) (nprot : Prot) (offset size vaddr : Nat) :
    (capioMmap ch sc bufferSize dying req nprot offset size vaddr).2.capState = sc.capState ∧
      (capioMmap ch sc bufferSize dying req nprot offset size vaddr).2.sealingKey =
        sc.sealingKey := by
  unfold capioMmap
  split
  · exact ⟨rfl, rfl⟩
  · split
    · exact ⟨rfl, rfl⟩
    · simp only [capioVaddrCallback]
      split <;> exact ⟨rfl, rfl⟩

end Capio
end SfcCapio
