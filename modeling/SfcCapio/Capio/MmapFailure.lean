import SfcCapio.Capio.Softc
import SfcCapio.Foundation.Fallible

/-!
# What a failed mmap leaves behind

`capio_mmap_single_extra` with every way out.  The state is the part of the kernel that
a call can leave something in: the regions with their `mapped` flags, `CAP_LOCK`, the
handles allocated from `M_DEVBUF` and the pager objects that are live.  What other code
answers to the call (`get_buffer_size`, the two calls of `is_dying`, `malloc`,
`cdev_pager_allocate`) is an input, so detach may begin at any moment of the call.

As assumed of the kernel, `cdev_pager_allocate` runs `capio_pager_ctor` and returns an
object, or returns NULL and does not take over the handle.

Nothing after the allocation of the handle is undone.  A call that fails there leaves
the handle, and after the constructor also the object and the flag.
-/

namespace SfcCapio
namespace Capio

open Foundation

/-! ## The call -/

/-- The error numbers of the call. -/
inductive MmapErrno
  | capio (e : Errno)
  | enomem
deriving DecidableEq, Repr

/-- `vm_object_handle_t`, with a number that tells one allocation from another. -/
structure VmObjectHandle where
  id : Nat
  type : Int
deriving DecidableEq, Repr

/-- A pager object: its handle, its size, and whether it has the device memory
attribute. -/
structure VmObject where
  handle : VmObjectHandle
  size : Nat
  device : Bool
deriving DecidableEq, Repr

/-- What a call works on.  `found` are its local variables, `reply` what it has stored
through its pointers. -/
structure MmapState (Cap Key : Type*) where
  sc : CapioSoftc Cap Key
  capLock : Bool
  handles : List VmObjectHandle
  objects : List VmObject
  nextHandle : Nat
  found : Found
  reply : Option (Found × VmObjectHandle)

/-- The arguments of a call, and the answers of the functions it calls. -/
structure MmapInput (Cap : Type*) where
  siDrv1 : Bool
  extra : Option (MapReq Cap)
  nprot : Prot
  offset : Nat
  size : Nat
  bufferSize : Int → Nat
  dyingFirst : Bool
  dyingSecond : Bool
  malloc : Bool
  pager : Bool

section Call

variable {Cap Key : Type*}

/-- A step of a call. -/
abbrev MmapAction (Cap Key : Type*) := Action (MmapState Cap Key) MmapErrno

/-- `CAP_LOCK`. -/
def MmapState.lock (s : MmapState Cap Key) : MmapState Cap Key := { s with capLock := true }

/-- `CAP_UNLOCK`. -/
def MmapState.unlock (s : MmapState Cap Key) : MmapState Cap Key := { s with capLock := false }

/-- The search of the regions under the lock, which a region already mapped drops. -/
def searchRegions (mapType : Int) : MmapAction Cap Key := fun s =>
  match mmapFind s.sc.sharedMemRegs mapType with
  | .error e => (some (.capio e), s.unlock)
  | .ok found => (none, { s with found := found })

/-- `cdev_pager_allocate`.  The constructor takes the lock for itself. -/
def cdevPagerAllocate (i : MmapInput Cap) (handle : VmObjectHandle) : MmapAction Cap Key := fun s =>
  if i.pager then
    let locked := s.lock
    let marked := { locked with sc := capioPagerCtor locked.sc handle.type }
    let made := marked.unlock
    (none,
      { made with
        objects := { handle := handle, size := i.size, device := false } :: made.objects })
  else (some (.capio .enxio), s)

/-- The memory attribute of a physical region. -/
def setMemattr (handle : VmObjectHandle) : MmapAction Cap Key :=
  Action.always fun s =>
    { s with
      objects := s.objects.map fun o =>
        if s.found.device ∧ o.handle = handle then { o with device := true } else o }

/-- The part behind the region search. -/
def mmapBuild (i : MmapInput Cap) (mapType : Int) : MmapAction Cap Key := fun s =>
  if i.malloc then
    let handle : VmObjectHandle := { id := s.nextHandle, type := mapType }
    Action.inOrder
      [cdevPagerAllocate i handle,
        setMemattr handle,
        Action.refuse (i.dyingSecond = true) (.capio .enxio),
        Action.always fun s => { s with reply := some (s.found, handle) }]
      { s with handles := handle :: s.handles, nextHandle := s.nextHandle + 1 }
  else (some .enomem, s)

variable (ch : Sealing Cap Key) [DecidableEq Cap]

/-- The call of `check_cap_token`. -/
def mmapCheckToken (req : MapReq Cap) : MmapAction Cap Key := fun s =>
  match checkCapToken ch s.sc req.sealedCap with
  | .error e => (some (.capio e), s)
  | .ok _ => (none, s)

/-- The part up to the region search. -/
def mmapChecks (i : MmapInput Cap) (req : MapReq Cap) : MmapAction Cap Key :=
  Action.inOrder
    [mmapCheckToken ch req,
      Action.refuse (i.nprot.readCap = true ∨ i.nprot.writeCap = true) (.capio .einval),
      Action.always MmapState.lock,
      fun s => if i.offset ≠ 0 then (some (.capio .einval), s.unlock) else (none, s),
      Action.always MmapState.unlock,
      Action.refuse (i.dyingFirst = true) (.capio .enxio),
      Action.refuse (ch.tag req.userCap = false) (.capio .einval),
      Action.refuse (i.size ≠ i.bufferSize req.mapType) (.capio .einval),
      Action.always MmapState.lock,
      searchRegions req.mapType,
      Action.always MmapState.unlock]

/-- `capio_mmap_single_extra`. -/
def capioMmapSingleExtra (i : MmapInput Cap) : MmapAction Cap Key := fun s =>
  match i.siDrv1, i.extra with
  | true, some req => (mmapChecks ch i req).andThen id (mmapBuild i req.mapType) s
  | _, _ => (some (.capio .einval), s)

/-! ## What is asked of it -/

/-- The flags, the objects and the handles are what they were, and the lock is free. -/
structure LeavesNothing (s s' : MmapState Cap Key) : Prop where
  marks : s'.sc.sharedMemRegs.map SharedMemRegion.mapped =
    s.sc.sharedMemRegs.map SharedMemRegion.mapped
  objects : s'.objects = s.objects
  handles : s'.handles = s.handles
  lock : s'.capLock = false

/-- If the call fails, it leaves nothing behind. -/
def FailsCleanly (i : MmapInput Cap) (s : MmapState Cap Key) : Prop :=
  ∀ e s', capioMmapSingleExtra ch i s = (some e, s') → LeavesNothing s s'

/-- The search finds no region of the type that is mapped. -/
def Unmapped (regs : List SharedMemRegion) (mapType : Int) : Prop :=
  ∀ smem, regs.find? (fun smem => smem.type = mapType) = some smem → smem.mapped = false

/-- The request passes the checks before the allocations. -/
structure PassesChecks (i : MmapInput Cap) (req : MapReq Cap) (s : MmapState Cap Key) : Prop where
  token : checkCapToken ch s.sc req.sealedCap = .ok ()
  prot : ¬ (i.nprot.readCap = true ∨ i.nprot.writeCap = true)
  offset : i.offset = 0
  alive : i.dyingFirst = false
  tag : ch.tag req.userCap = true
  size : i.size = i.bufferSize req.mapType
  unmapped : Unmapped s.sc.sharedMemRegs req.mapType

/-- The call gets as far as a handle of its own. -/
def GetsHandle (i : MmapInput Cap) (s : MmapState Cap Key) : Prop :=
  i.siDrv1 = true ∧ ∃ req, i.extra = some req ∧ PassesChecks ch i req s ∧ i.malloc = true

/-- Behind the handle the allocation of the object succeeds, and detach has not begun
when `is_dying` is asked again. -/
def BuildsAlive (i : MmapInput Cap) (s : MmapState Cap Key) : Prop :=
  GetsHandle ch i s → i.pager = true ∧ i.dyingSecond = false

end Call

/-! ## The checks -/

section Checks

variable {Cap Key : Type*} {ch : Sealing Cap Key} {i : MmapInput Cap} {req : MapReq Cap}
  {s : MmapState Cap Key}

theorem mmapFind_cases (regs : List SharedMemRegion) (mapType : Int) :
    (Unmapped regs mapType ∧ ∃ found, mmapFind regs mapType = .ok found) ∨
      (¬ Unmapped regs mapType ∧ mmapFind regs mapType = .error .einval) := by
  unfold mmapFind Unmapped
  cases hfind : regs.find? fun smem => smem.type = mapType with
  | none =>
    refine Or.inl ⟨?_, _, rfl⟩
    intro smem hsome
    cases hsome
  | some smem =>
    cases hmapped : smem.mapped with
    | true =>
      refine Or.inr ⟨?_, by simp only [hmapped, if_true]⟩
      intro hall
      rw [hall smem rfl] at hmapped
      cases hmapped
    | false =>
      refine Or.inl ⟨?_, ?_⟩
      · intro smem' hsome
        cases hsome
        exact hmapped
      · simp only [hmapped, Bool.false_eq_true, if_false]
        exact ⟨_, rfl⟩

theorem unlock_lock (hlock : s.capLock = false) : s.lock.unlock = s := by
  simp only [MmapState.lock, MmapState.unlock, ← hlock]

/-- The search passes if it finds no mapped region, and drops the lock if it does. -/
theorem guards_searchRegions (mapType : Int) (hlock : s.capLock = false) :
    ∃ found, Guards (searchRegions mapType) (Unmapped s.sc.sharedMemRegs mapType) s.lock
      { s.lock with found := found } s := by
  have hregs : s.lock.sc.sharedMemRegs = s.sc.sharedMemRegs := rfl
  rcases mmapFind_cases s.sc.sharedMemRegs mapType with ⟨hfree, found, hfound⟩ | ⟨hmapped, hfound⟩
  · refine ⟨found, Or.inl ⟨hfree, ?_⟩⟩
    simp only [searchRegions, hregs, hfound]
  · refine ⟨s.found, Or.inr ⟨hmapped, .capio .einval, ?_⟩⟩
    simp only [searchRegions, hregs, hfound, unlock_lock hlock]

/-- The offset is looked at under the lock, which a refusal drops. -/
theorem guards_offset (hlock : s.capLock = false) :
    Guards (fun s : MmapState Cap Key =>
      if i.offset ≠ 0 then (some (MmapErrno.capio .einval), s.unlock) else (none, s))
      (i.offset = 0) s.lock s.lock s := by
  by_cases hoffset : i.offset = 0
  · exact Or.inl ⟨hoffset, if_neg (not_not.mpr hoffset)⟩
  · refine Or.inr ⟨hoffset, .capio .einval, ?_⟩
    simp only [if_pos hoffset, unlock_lock hlock]

variable [DecidableEq Cap]

theorem guards_checkToken :
    Guards (mmapCheckToken ch req) (checkCapToken ch s.sc req.sealedCap = .ok ()) s s s := by
  cases htoken : checkCapToken ch s.sc req.sealedCap with
  | error e =>
    refine Or.inr ⟨nofun, .capio e, ?_⟩
    simp only [mmapCheckToken, htoken]
  | ok u =>
    refine Or.inl ⟨rfl, ?_⟩
    simp only [mmapCheckToken, htoken]

/-- The conditions of the checks in the order of the source. -/
theorem passesChecks_iff :
    (checkCapToken ch s.sc req.sealedCap = .ok () ∧
        ¬ (i.nprot.readCap = true ∨ i.nprot.writeCap = true) ∧ i.offset = 0 ∧
        ¬ i.dyingFirst = true ∧ ¬ ch.tag req.userCap = false ∧
        ¬ i.size ≠ i.bufferSize req.mapType ∧ Unmapped s.sc.sharedMemRegs req.mapType ∧ True) ↔
      PassesChecks ch i req s := by
  constructor
  · rintro ⟨htoken, hprot, hoffset, hdying, htag, hsize, hfree, -⟩
    exact ⟨htoken, hprot, hoffset, Bool.eq_false_iff.mpr hdying, by simpa using htag,
      not_not.mp hsize, hfree⟩
  · intro hpass
    exact ⟨hpass.token, hpass.prot, hpass.offset, Bool.eq_false_iff.mp hpass.alive,
      by simp [hpass.tag], not_not.mpr hpass.size, hpass.unmapped, trivial⟩

/-- The spec of the checks: they are passed, or the call fails and has changed nothing. -/
theorem guards_mmapChecks (ch : Sealing Cap Key) (i : MmapInput Cap) (req : MapReq Cap)
    (hlock : s.capLock = false) :
    ∃ found, Guards (mmapChecks ch i req) (PassesChecks ch i req s) s
      { s with found := found } s := by
  obtain ⟨found, hsearch⟩ := guards_searchRegions req.mapType hlock
  have hend : ({ s.lock with found := found } : MmapState Cap Key).unlock =
      { s with found := found } := by
    simp only [MmapState.lock, MmapState.unlock, ← hlock]
  refine ⟨found, Guards.congr ?_ passesChecks_iff⟩
  refine guards_checkToken.cons ((Guards.refuse _).cons (.always ((guards_offset hlock).cons
    (.always ?_))))
  rw [unlock_lock hlock]
  refine (Guards.refuse _).cons ((Guards.refuse _).cons ((Guards.refuse _).cons (.always
    (hsearch.cons (.always ?_)))))
  rw [hend]
  exact .nil

end Checks

/-! ## The allocations -/

section Build

variable {Cap Key : Type*} {i : MmapInput Cap} {mapType : Int} {s : MmapState Cap Key}

theorem mmapBuild_of_no_memory (hmalloc : i.malloc = false) :
    mmapBuild i mapType s = (some .enomem, s) := by
  simp [mmapBuild, hmalloc]

/-- Once the handle is allocated it stays, whatever the call returns. -/
theorem mmapBuild_of_memory (mapType : Int) (s : MmapState Cap Key) (hmalloc : i.malloc = true) :
    (mmapBuild i mapType s).2.handles = ⟨s.nextHandle, mapType⟩ :: s.handles ∧
      ((mmapBuild i mapType s).1 = none ↔ i.pager = true ∧ i.dyingSecond = false) := by
  unfold mmapBuild
  simp only [hmalloc, if_true]
  cases hpager : i.pager with
  | false =>
    have hfailed : ∀ handle (t : MmapState Cap Key),
        cdevPagerAllocate i handle t = (some (.capio .enxio), t) := by
      intro handle t
      simp [cdevPagerAllocate, hpager]
    rw [Action.inOrder_of_failed _ (hfailed _ _)]
    exact ⟨rfl, by simp⟩
  | true =>
    simp only [Action.inOrder, Action.andThen, cdevPagerAllocate, hpager, if_true, setMemattr,
      Action.always, Action.refuse]
    cases i.dyingSecond with
    | false => exact ⟨rfl, by simp [Action.done]⟩
    | true => exact ⟨rfl, by simp⟩

end Build

/-! ## The whole call -/

section Whole

variable {Cap Key : Type*} {ch : Sealing Cap Key} [DecidableEq Cap] {i : MmapInput Cap}
  {s : MmapState Cap Key}

/-- The spec of the call: it fails before it has a handle and changes nothing, or it has
one handle more when it returns. -/
theorem capioMmapSingleExtra_cases (ch : Sealing Cap Key) (i : MmapInput Cap)
    (hlock : s.capLock = false) :
    (¬ GetsHandle ch i s ∧ ∃ e found,
        capioMmapSingleExtra ch i s = (some e, { s with found := found })) ∨
      (GetsHandle ch i s ∧
        (∃ handle, (capioMmapSingleExtra ch i s).2.handles = handle :: s.handles) ∧
        ((capioMmapSingleExtra ch i s).1 = none ↔ i.pager = true ∧ i.dyingSecond = false)) := by
  unfold GetsHandle capioMmapSingleExtra
  cases i.siDrv1 with
  | false => exact Or.inl ⟨nofun, _, s.found, rfl⟩
  | true =>
    cases hextra : i.extra with
    | none => exact Or.inl ⟨nofun, _, s.found, rfl⟩
    | some req =>
      obtain ⟨found, hchecks⟩ := guards_mmapChecks ch i req hlock
      simp only [Action.andThen]
      rcases hchecks with ⟨hpass, hdone⟩ | ⟨hpass, e, hfailed⟩
      · rw [hdone]
        cases hmalloc : i.malloc with
        | false =>
          refine Or.inl ⟨by simp, .enomem, found, mmapBuild_of_no_memory hmalloc⟩
        | true =>
          obtain ⟨hhandles, hnone⟩ :=
            mmapBuild_of_memory req.mapType { s with found := found } hmalloc
          exact Or.inr ⟨⟨trivial, req, rfl, hpass, rfl⟩, ⟨_, hhandles⟩, hnone⟩
      · rw [hfailed]
        refine Or.inl ⟨?_, e, s.found, rfl⟩
        rintro ⟨-, req', hreq, hpass', -⟩
        cases hreq
        exact hpass hpass'

/-- A call of `capio_mmap_single_extra` that fails leaves nothing behind exactly if, once
its checks are passed and its handle is allocated, the pager makes the object and detach
has not begun by the second look at `is_dying`. -/
theorem mmap_fails_cleanly_iff (hlock : s.capLock = false) :
    FailsCleanly ch i s ↔ BuildsAlive ch i s := by
  rcases capioMmapSingleExtra_cases ch i hlock with
    ⟨hrefused, e, found, hout⟩ | ⟨hgets, ⟨handle, hhandles⟩, hnone⟩
  · refine iff_of_true ?_ fun hgets => absurd hgets hrefused
    intro e' s' hout'
    rw [hout] at hout'
    cases hout'
    exact ⟨rfl, rfl, rfl, hlock⟩
  · constructor
    · intro hclean _
      refine hnone.mp ?_
      -- a failure would have to give the handle back
      by_contra hfailed
      obtain ⟨e, herr⟩ := Option.ne_none_iff_exists'.mp hfailed
      have hkept := (hclean e _ (Prod.ext herr rfl)).handles
      rw [hhandles] at hkept
      exact absurd (congrArg List.length hkept) (by simp)
    · intro halive e s' hout
      have hreturned := hnone.mpr (halive hgets)
      rw [hout] at hreturned
      cases hreturned

end Whole

/-! ## Instances -/

/-- A device with one unmapped region of 8192 bytes, type 0, and a token. -/
def mmapSample : MmapState SealedWord Nat where
  sc :=
    { sealingKey := 7
      capState := { originalCap := .word true 1, sealedCap := .sealed (.word true 1) 7 }
      mapped := false
      sharedMemRegs :=
        [{ type := 0, isPhysical := true, offset := 0, len := 8192, mapped := false,
           isSliced := false, sliceDefinitions := [], sliceDefLen := 0 }] }
  capLock := false
  handles := []
  objects := []
  nextHandle := 0
  found := { isSliced := false, sliceDefinitions := [], sliceDefLen := 0, device := false }
  reply := none

/-- A well-formed request for the region by the holder of the token. -/
def mmapRequest : MmapInput SealedWord where
  siDrv1 := true
  extra := some { userCap := .word true 1, sealedCap := .sealed (.word true 1) 7, mapType := 0 }
  nprot := { read := true, write := true, readCap := false, writeCap := false }
  offset := 0
  size := 8192
  bufferSize := fun type => if type = 0 then 8192 else 0
  dyingFirst := false
  dyingSecond := false
  malloc := true
  pager := true

/-- A request of the wrong size is refused and leaves nothing behind. -/
theorem mmap_fails_cleanly_wrong_size :
    mmapSample.capLock = false ∧
      (capioMmapSingleExtra SealedWord.sealing { mmapRequest with size := 4096 } mmapSample).1 =
        some (.capio .einval) ∧
      FailsCleanly SealedWord.sealing { mmapRequest with size := 4096 } mmapSample :=
  ⟨rfl, by decide, (mmap_fails_cleanly_iff rfl).mpr fun _ => ⟨rfl, rfl⟩⟩

/-- The pager returns NULL: the call fails with its handle still allocated.  Detach begins
while the object is made: the call fails, and the handle, the object and the flag of the
region stay, so that the next request for the region is refused. -/
theorem mmap_failure_leaks :
    (∃ s', capioMmapSingleExtra SealedWord.sealing { mmapRequest with pager := false } mmapSample =
        (some (.capio .enxio), s') ∧
      s'.handles = [⟨0, 0⟩] ∧ ¬ LeavesNothing mmapSample s') ∧
    ∃ s', capioMmapSingleExtra SealedWord.sealing { mmapRequest with dyingSecond := true }
        mmapSample = (some (.capio .enxio), s') ∧
      s'.handles = [⟨0, 0⟩] ∧ s'.objects = [⟨⟨0, 0⟩, 8192, true⟩] ∧
      s'.sc.sharedMemRegs.map SharedMemRegion.mapped = [true] ∧
      (capioMmapSingleExtra SealedWord.sealing mmapRequest s').1 = some (.capio .einval) ∧
      ¬ LeavesNothing mmapSample s' := by
  refine ⟨⟨_, rfl, rfl, ?_⟩, _, rfl, rfl, rfl, rfl, by decide, ?_⟩
  · intro hnothing
    exact absurd hnothing.handles (by decide)
  · intro hnothing
    exact absurd hnothing.handles (by decide)

end Capio
end SfcCapio
