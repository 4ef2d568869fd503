import SfcCapio.Capio.Mappings
import SfcCapio.Foundation.Fallible
import SfcCapio.Hardware.Words

/-!
# Opening and closing the device

`sfc7120_init` attaches, maps six regions one after the other and makes two driver
calls; any failure runs `sfc7120_destroy`.  Destroy unmaps what the library has
recorded, says goodbye and closes the device, which revokes once more.

The regions of the driver are those that `sfc7120_fbsd_attach` enters into `smem[]`,
in the order of `sfc7120_vm_map_type_t`.  Four functions write to that table:
`capio_pager_ctor` and `capio_pager_dtor` the flag, `capio_vaddr_callback` the address
and the length, and `revoke_cap_token` the address.

Everything that can fail outside this code is an answer in `InitEnv`: opening the two
devices, the allocations, the ioctls of modmap and of the driver, the pager and the
room in the process map.  As assumed of the kernel, modmap enters an object with the
length asked for at a free nonzero address and calls back with both, a request that
fails leaves no mapping, `vm_map_remove` takes out the given range, and unmapping the
last entry of an object runs its destructor.  The device is not being detached.
-/

namespace SfcCapio
namespace Capio

open Foundation Hardware

/-! ## The regions of the driver -/

/-- `sfc7120_vm_map_type_t`. -/
inductive VmMapType
  | txBuffer
  | rxBuffer
  | mmioRegion
  | txDescRing
  | rxDescRing
  | evqRing
  | mmioRegionUnsliced
deriving DecidableEq, Repr

namespace VmMapType

/-- The value of the enumerator. -/
def code : VmMapType → Int
  | txBuffer => 0
  | rxBuffer => 1
  | mmioRegion => 2
  | txDescRing => 3
  | rxDescRing => 4
  | evqRing => 5
  | mmioRegionUnsliced => 6

/-- The enumerators up to `SFC7120_REGION_COUNT`. -/
def all : List VmMapType :=
  [txBuffer, rxBuffer, mmioRegion, txDescRing, rxDescRing, evqRing, mmioRegionUnsliced]

theorem mem_all (t : VmMapType) : t ∈ all := by
  cases t <;> decide

theorem nodup_all : all.Nodup := by decide

theorem code_injective : Function.Injective code := by
  intro t t' heq
  cases t <;> cases t' <;> first | rfl | cases heq

end VmMapType

/-- `sfc7120_reg_slices`. -/
def regSlices : List SliceDef :=
  [⟨0x0000, "RESERVED0_HW_REV_ID", true, 4⟩, ⟨0x2400, "DATA_EVQ_RPTR_DBL", false, 4⟩,
    ⟨0x0830, "RX_DESC_DBL", false, 4⟩, ⟨0x0a10, "TX_DESC_DBL", false, 12⟩,
    ⟨0x0000, "HW_REV_ID", true, 4⟩]

/-- A region of DMA memory as attach enters it into the zeroed table. -/
def dmaRegion (t : VmMapType) (len : Nat) : SharedMemRegion where
  type := t.code
  isPhysical := false
  offset := 0
  len := len
  mapped := false
  isSliced := false
  sliceDefinitions := []
  sliceDefLen := 0

/-- The entry of `smem[]` after attach.  `barSize` is the size of the BAR, `ablation`
the tunable `hw.sfc7120pol.ablation`, without which the unsliced view of the BAR has no
length and counts as mapped. -/
def smemEntry (barSize : Nat) (ablation : Bool) : VmMapType → SharedMemRegion
  | .txBuffer => dmaRegion .txBuffer (numTxDesc * txBufferSize)
  | .rxBuffer => dmaRegion .rxBuffer (numRxDesc * rxBufferSize)
  | .mmioRegion =>
    { type := VmMapType.mmioRegion.code
      isPhysical := true
      offset := 0
      len := barSize
      mapped := false
      isSliced := true
      sliceDefinitions := regSlices
      sliceDefLen := regSlices.length }
  | .txDescRing => dmaRegion .txDescRing (numTxDesc * 8)
  | .rxDescRing => dmaRegion .rxDescRing (numRxDesc * 8)
  | .evqRing => dmaRegion .evqRing (numEvqEntry * 8)
  | .mmioRegionUnsliced =>
    { type := VmMapType.mmioRegionUnsliced.code
      isPhysical := true
      offset := 0
      len := if ablation then barSize else 0
      mapped := !ablation
      isSliced := false
      sliceDefinitions := []
      sliceDefLen := 0 }

/-- `smem[]` after attach. -/
def attachSmem (barSize : Nat) (ablation : Bool) : List SharedMemRegion :=
  VmMapType.all.map (smemEntry barSize ablation)

/-- `sfc7120_get_buffer_size`; the unsliced region answers with its current length. -/
def getBufferSize (barSize : Nat) (smem : List SharedMemRegion) (type : Int) : Nat :=
  match VmMapType.all.find? fun t => t.code = type with
  | some .txBuffer => numTxDesc * txBufferSize
  | some .rxBuffer => numRxDesc * rxBufferSize
  | some .mmioRegion => barSize
  | some .mmioRegionUnsliced => (smem[6]?.map SharedMemRegion.len).getD 0
  | some .txDescRing => numTxDesc * 8
  | some .rxDescRing => numRxDesc * 8
  | some .evqRing => numEvqEntry * 8
  | none => 0

/-- `region_sizes_t`. -/
structure RegionSizes where
  regionLength : Nat
  sliceDefLength : Nat

/-- `capio_slice_length_callback`. -/
def capioSliceLengthCallback (regs : List SharedMemRegion) (mapType : Int) : RegionSizes :=
  match regs.find? fun smem => smem.type = mapType with
  | none => ⟨0, 0⟩
  | some smem => ⟨smem.len, smem.sliceDefLen⟩

/-! ## The process and the device -/

/-- The device, the map of the process that has it open, and the fields of
`sfc7120_if_t` that opening and closing use: whether `fd` is open, `cap_req`, and base
and length in `region_maps`. -/
structure OpenSys (Cap Key : Type*) where
  sc : CapioSoftc Cap Key
  entries : List MapEntry
  nextObject : Nat
  fd : Bool
  capReq : CapReq Cap
  regionMaps : VmMapType → Option (Nat × Nat)

/-- What becomes of a request that the driver admits. -/
inductive MapOutcome
  /-- `cdev_pager_allocate` returns no object. -/
  | noObject
  /-- The object cannot be entered into the map and is given up. -/
  | noRoom
  /-- The object is entered at this address, if it is free. -/
  | entered (vaddr : Nat)

/-- The answers to one `map_region`. -/
structure MapEnv where
  getSlices : Bool
  calloc : Bool
  outcome : MapOutcome

/-- The answers to one `sfc7120_init`.  `stale` is what the caller's record holds in
`cap_req`, which init does not clear; `capToken` is the result of `malloc`; `copyout`
says whether the reply of `CAPIO_ATTACH` reaches the caller. -/
structure InitEnv (Cap : Type*) where
  openDev : Bool
  openModmap : Bool
  stale : CapReq Cap
  capToken : Option Cap
  copyout : Bool
  map : VmMapType → MapEnv
  getViInfo : Option Errno
  getMac : Option Errno

/-- `PROT_READ | PROT_WRITE`. -/
def protReadWrite : Prot := ⟨true, true, false, false⟩

section System

variable {Cap Key : Type*} [DecidableEq Cap] (ch : Sealing Cap Key) (barSize pid : Nat)

/-! ## Init -/

/-- The entry modmap makes at `vaddr`. -/
def OpenSys.entryAt (s : OpenSys Cap Key) (type : Int) (size vaddr : Nat) : MapEntry where
  pid := pid
  type := type
  start := vaddr
  len := size
  readable := true
  object := s.nextObject
  auth := 0

/-- The range is free in the map of the process. -/
def OpenSys.Free (s : OpenSys Cap Key) (vaddr size : Nat) : Prop :=
  ∀ e ∈ s.entries, e.start + e.len ≤ vaddr ∨ vaddr + size ≤ e.start

instance (s : OpenSys Cap Key) (vaddr size : Nat) : Decidable (s.Free vaddr size) :=
  inferInstanceAs (Decidable (∀ e ∈ s.entries, _))

/-- The object is made and given up again. -/
def OpenSys.dropped (s : OpenSys Cap Key) (type : Int) : OpenSys Cap Key :=
  { s with
    sc := capioPagerDtor (capioPagerCtor s.sc type) type
    nextObject := s.nextObject + 1 }

/-- The object is made and entered, and the callback is called. -/
def OpenSys.entered (s : OpenSys Cap Key) (type : Int) (size vaddr : Nat) : OpenSys Cap Key :=
  { s with
    sc := (capioVaddrCallback (capioPagerCtor s.sc type) vaddr size type).2
    entries := s.entries ++ [s.entryAt pid type size vaddr]
    nextObject := s.nextObject + 1 }

/-- `MODMAPIOC_MAP`: the address of the new mapping, or `none` for an error. -/
def modmapMap (outcome : MapOutcome) (req : MapReq Cap) (size : Nat) (s : OpenSys Cap Key) :
    Option Nat × OpenSys Cap Key :=
  match mmapAdmit ch s.sc (getBufferSize barSize s.sc.sharedMemRegs) false req protReadWrite 0
      size with
  | .error _ => (none, s)
  | .ok _ =>
    match mmapFind s.sc.sharedMemRegs req.mapType with
    | .error _ => (none, s)
    | .ok _ =>
      match outcome with
      | .noObject => (none, s)
      | .noRoom => (none, s.dropped req.mapType)
      | .entered vaddr =>
        if vaddr ≠ 0 ∧ s.Free vaddr size then
          (some vaddr, s.entered pid req.mapType size vaddr)
        else (none, s.dropped req.mapType)

/-- `map_region`; `outSlices` says whether the caller passes a slice array. -/
def mapRegion (env : MapEnv) (t : VmMapType) (outSlices : Bool) :
    Action (OpenSys Cap Key) Unit := fun s =>
  let sizes := capioSliceLengthCallback s.sc.sharedMemRegs t.code
  if env.getSlices = false then (some (), s)
  -- the state that a teardown used to leave which wiped the length
  else if sizes.regionLength = 0 then (some (), s)
  else if outSlices && !env.calloc then (some (), s)
  -- a sliced region asked for without a slice array
  else if !outSlices && sizes.sliceDefLength != 0 then (some (), s)
  else
    match modmapMap ch barSize pid env.outcome { s.capReq with mapType := t.code }
        sizes.regionLength s with
    | (none, s') => (some (), s')
    | (some addr, s') =>
      (none,
        { s' with
          regionMaps := Function.update s'.regionMaps t (some (addr, sizes.regionLength)) })

/-- `malloc` of the token and `CAPIO_ATTACH` with it. -/
def attachToken (env : InitEnv Cap) : Action (OpenSys Cap Key) Unit := fun s =>
  match env.capToken with
  | none => (some (), s)
  | some cap =>
    let req : CapReq Cap := { s.capReq with userCap := cap }
    match capioIoctlHandler ch s.sc .attach req (fun _ => none) none with
    | (some _, _, sc) => (some (), { s with capReq := req, sc := sc })
    | (none, reply, sc) =>
      -- a reply that is lost leaves the token set
      if env.copyout then (none, { s with capReq := reply, sc := sc })
      else (some (), { s with capReq := req, sc := sc })

/-- An ioctl of the driver, numbered as in its header. -/
def driverCall (cmd : Nat) (result : Option Errno) : Action (OpenSys Cap Key) Unit := fun s =>
  match capioIoctlHandler ch s.sc (.driver cmd) s.capReq (fun _ => none) result with
  | (some _, _, sc) => (some (), { s with sc := sc })
  | (none, _, sc) => (none, { s with sc := sc })

/-- The open of modmap. -/
def openModmap (env : InitEnv Cap) : Action (OpenSys Cap Key) Unit := fun s =>
  if env.openModmap then (none, s) else (some (), s)

/-- `sfc7120_init` between the open of the device and its normal end. -/
def initSteps (env : InitEnv Cap) : Action (OpenSys Cap Key) Unit :=
  (openModmap env).andThen id <|
  (attachToken ch env).andThen id <|
  -- the DMA memory, unsliced
  (mapRegion ch barSize pid (env.map .txBuffer) .txBuffer false).andThen id <|
  (mapRegion ch barSize pid (env.map .rxBuffer) .rxBuffer false).andThen id <|
  (mapRegion ch barSize pid (env.map .txDescRing) .txDescRing false).andThen id <|
  (mapRegion ch barSize pid (env.map .rxDescRing) .rxDescRing false).andThen id <|
  (mapRegion ch barSize pid (env.map .evqRing) .evqRing false).andThen id <|
  -- the doorbells, as slices of the BAR
  (mapRegion ch barSize pid (env.map .mmioRegion) .mmioRegion true).andThen id <|
  -- SFC7120_GET_VI_INFO and SFC7120_GET_MAC
  (driverCall ch 4 env.getViInfo).andThen id <|
  driverCall ch 3 env.getMac

/-! ## Destroy -/

/-- `munmap`: the range leaves the map, and the objects that lose their last entry are
destroyed. -/
def munmap (base len : Nat) (s : OpenSys Cap Key) : OpenSys Cap Key :=
  let entries := vmMapRemove s.entries pid base (base + len)
  let gone := s.entries.filter fun e => entries.all fun e' => e'.object != e.object
  { s with
    entries := entries
    sc := gone.foldl (fun sc e => capioPagerDtor sc e.type) s.sc }

/-- One round of the loop over `region_maps`. -/
def munmapRegion (s : OpenSys Cap Key) (t : VmMapType) : OpenSys Cap Key :=
  match s.regionMaps t with
  | none => s
  | some (base, len) =>
    { munmap pid base len s with regionMaps := Function.update s.regionMaps t none }

/-- What `delete_mapping_from_user` returns to `revoke_cap_token`. -/
def OpenSys.deleteResult (s : OpenSys Cap Key) (smem : SharedMemRegion) : Option Errno :=
  (deleteMappingFromUser s.entries pid smem.offset smem.len).1

/-- What `revoke_cap_token` leaves of the map. -/
def OpenSys.deleteMappings (s : OpenSys Cap Key) : List MapEntry :=
  s.sc.sharedMemRegs.foldl
    (fun entries smem =>
      if smem.offset ≠ 0 then (deleteMappingFromUser entries pid smem.offset smem.len).2
      else entries)
    s.entries

/-- `revoke_cap_token`, called by the process. -/
def revoke (s : OpenSys Cap Key) : OpenSys Cap Key :=
  { s with
    sc := (revokeCapToken ch s.sc (s.deleteResult pid)).2
    entries := s.deleteMappings pid }

/-- `CAPIO_GOODBYE`. -/
def goodbye (s : OpenSys Cap Key) : OpenSys Cap Key :=
  match checkCapToken ch s.sc s.capReq.sealedCap with
  | .error _ => s
  | .ok _ => revoke ch pid s

/-- The last close, which calls `revoke_access`. -/
def closeDev (s : OpenSys Cap Key) : OpenSys Cap Key :=
  { revoke ch pid s with fd := false }

/-- `sfc7120_destroy`.  The cursors are written back by a driver call, which does not
touch any of this. -/
def sfcDestroy (s : OpenSys Cap Key) : OpenSys Cap Key :=
  let s' := VmMapType.all.foldl (munmapRegion pid) s
  if s'.fd then closeDev ch pid (goodbye ch pid s') else s'

/-! ## Sessions -/

/-- `sfc7120_init`: the first failure returns at once, the others run destroy. -/
def sfcInit (env : InitEnv Cap) : Action (OpenSys Cap Key) Unit := fun s =>
  let s' := { s with fd := false, capReq := env.stale, regionMaps := fun _ => none }
  if env.openDev = false then (some (), s')
  else
    (initSteps ch barSize pid env).andThen (sfcDestroy ch pid) Action.done { s' with fd := true }

/-- One session: the process, the answers to its init, and the driver calls it makes in
between, with their results. -/
structure SessionEnv (Cap : Type*) where
  pid : Nat
  init : InitEnv Cap
  calls : List (Nat × Option Errno)

/-- A session whose init fails, or that works and is destroyed. -/
def runSession (s : OpenSys Cap Key) (env : SessionEnv Cap) : OpenSys Cap Key :=
  match sfcInit ch barSize env.pid env.init s with
  | (some _, s') => s'
  | (none, s') =>
    sfcDestroy ch env.pid
      (env.calls.foldl (fun s call => (driverCall ch call.1 call.2 s).2) s')

/-- The device that attach has created, which nobody has opened yet. -/
def openAfterAttach (createSealingKey : Nat → Key) (ablation : Bool) : OpenSys Cap Key where
  sc := initCapioSc ch createSealingKey (attachSmem barSize ablation)
  entries := []
  nextObject := 0
  fd := false
  capReq := ⟨ch.null, ch.null⟩
  regionMaps := fun _ => none

/-! ## Mapping with the reported lengths -/

/-- Regions mapped one after the other, each with the length reported for it. -/
def mapReported (req : CapReq Cap) :
    CapioSoftc Cap Key → List (VmMapType × Nat) → Except Errno (CapioSoftc Cap Key)
  | sc, [] => .ok sc
  | sc, (t, vaddr) :: rest =>
    let size := (capioSliceLengthCallback sc.sharedMemRegs t.code).regionLength
    match capioMmap ch sc (getBufferSize barSize sc.sharedMemRegs) false
        { req with mapType := t.code } protReadWrite 0 size vaddr with
    | (.error e, _) => .error e
    | (.ok _, sc') =>
      -- the kernel has no entries of length 0
      if size = 0 then .error .einval else mapReported req sc' rest

end System

end Capio
end SfcCapio
