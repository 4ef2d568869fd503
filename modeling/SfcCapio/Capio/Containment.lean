import SfcCapio.Capio.Reopen
import SfcCapio.Foundation.Paging

/-!
# What a mapping can reach

The size of an object comes from `sfc7120_get_buffer_size`, the memory behind it from
`smem[]`, and the length in `smem[]` from a callback.  `capio_pager_fault` compares none of
them: it adds the offset to the start of the region.  That the page it hands out belongs
to the region rests on the tables agreeing, for every object, after every sequence of
calls with any arguments.

They do (`contained_along`).  The table of attach only ever changes in its flags and its
addresses, so an object of a declared type has the length of the region, which is a
number of whole pages.  A type that no region has is not refused: its size is 0, the
search finds nothing, and a request for no bytes succeeds.  The object has no page that
could fault, but the request has named nothing the driver declares; this is all that
`mappings_contained_iff` has to rule out.

The calls follow one another.  Between them the process may unmap what it likes
(`dtor`), modmap may call back for a mapping that succeeded, at any time and more than
once, and detach may begin.
-/

namespace SfcCapio
namespace Capio

open Foundation Hardware

/-! ## The memory of the regions -/

/-- What attach fixes: the BAR, the tunable, the `addr` fields of `smem[]` by the type of
the region, and the frames behind the pages of the kernel.  A BAR is aligned to its
size and its size taken to be a number of pages; all DMA memory is allocated with the
alignment of a page. -/
structure Placement where
  barStart : Nat
  barSize : Nat
  ablation : Bool
  addr : Int → Nat
  frame : Nat → Nat
  barAligned : 4096 ∣ barStart
  barPages : 4096 ∣ barSize
  addrAligned : ∀ type, 4096 ∣ addr type

namespace Placement

variable (p : Placement)

/-- The page table that `pmap_kextract` consults. -/
def kernelMap : PageMap := ⟨4096, by decide, p.frame⟩

/-- The region of a type as attach creates it. -/
abbrev region (t : VmMapType) : SharedMemRegion := smemEntry p.barSize p.ablation t

/-- The physical memory of a region. -/
def memory (t : VmMapType) : Set Nat :=
  if (p.region t).isPhysical then (Extent.mk p.barStart (p.region t).len).bytes
  else p.kernelMap.translate '' (Extent.mk (p.addr t.code) (p.region t).len).bytes

theorem region_pages (t : VmMapType) : 4096 ∣ (p.region t).len := by
  cases t with
  | mmioRegion => exact p.barPages
  | mmioRegionUnsliced =>
    show 4096 ∣ if p.ablation then p.barSize else 0
    split
    · exact p.barPages
    · exact Nat.dvd_zero 4096
  | txBuffer => exact (by decide : 4096 ∣ numTxDesc * txBufferSize)
  | rxBuffer => exact (by decide : 4096 ∣ numRxDesc * rxBufferSize)
  | txDescRing => exact (by decide : 4096 ∣ numTxDesc * 8)
  | rxDescRing => exact (by decide : 4096 ∣ numRxDesc * 8)
  | evqRing => exact (by decide : 4096 ∣ numEvqEntry * 8)

end Placement

/-- `capio_pager_fault`: the page handed out, `none` for `VM_PAGER_BAD`.  Both physical
regions have the start of the BAR as their `paddr`. -/
def capioPagerFault (p : Placement) (regs : List SharedMemRegion) (type : Int) (offset : Nat) :
    Option Extent :=
  match regs.find? fun smem => smem.type = type with
  | none => none
  | some smem =>
    let paddr :=
      if smem.isPhysical then p.barStart + offset
      else p.kernelMap.translate (p.addr smem.type + offset)
    some (pageAt 4096 paddr)

/-- A fault inside a region is answered with a page of the region. -/
theorem capioPagerFault_table {p : Placement} {m : VmMapType → Bool} {off : VmMapType → Nat}
    {t : VmMapType} {offset : Nat} (hoffset : offset < (p.region t).len) :
    ∃ page, capioPagerFault p (table p.barSize p.ablation m off) t.code offset = some page ∧
      page.bytes ⊆ p.memory t := by
  have hphysical : (tableEntry p.barSize p.ablation m off t).isPhysical =
      (p.region t).isPhysical := rfl
  have htype : (tableEntry p.barSize p.ablation m off t).type = t.code := smemEntry_type t
  refine ⟨_, by rw [capioPagerFault, find?_table], ?_⟩
  simp only [hphysical, htype, Placement.memory]
  split
  · exact pageAt_inside (by decide) p.barAligned (p.region_pages t)
      ⟨Nat.le_add_right _ _, Nat.add_lt_add_left hoffset _⟩
  · exact p.kernelMap.pageAt_translate_subset (p.addrAligned t.code) (p.region_pages t)
      ⟨Nat.le_add_right _ _, Nat.add_lt_add_left hoffset _⟩

/-! ## The calls -/

/-- An object of the device pager: the type in its handle and the size it was allocated
with. -/
structure RegionObject where
  type : Int
  size : Nat
deriving DecidableEq, Repr

/-- The device with its objects; `succeeded` records the mappings granted so far. -/
structure ContainSys (Cap Key : Type*) where
  sc : CapioSoftc Cap Key
  dying : Bool
  objects : List RegionObject
  succeeded : List RegionObject

/-- What becomes of the allocation: it fails, or it succeeds, possibly with detach
setting `dying` meanwhile. -/
inductive Allocation
  | failed
  | made
  | madeDying
deriving DecidableEq, Repr

/-- The calls, with any arguments. -/
inductive ContainLabel (Cap : Type*)
  | ioctl (cmd : CapioCmd) (req : CapReq Cap) (delete : SharedMemRegion → Option Errno)
      (driver : Option Errno)
  | mmap (req : MapReq Cap) (nprot : Prot) (offset size : Nat) (alloc : Allocation)
  | callback (o : RegionObject) (vaddr : Nat)
  | dtor (o : RegionObject)
  | close (delete : SharedMemRegion → Option Errno)
  | die

section Steps

variable {Cap Key : Type*} (ch : Sealing Cap Key) (p : Placement)

/-- `capio_mmap_single_extra`, with the constructor the pager runs.  The object that is
made while detach begins stays behind although the call fails. -/
def ContainSys.mmapSingleExtra [DecidableEq Cap] (s : ContainSys Cap Key) (req : MapReq Cap)
    (nprot : Prot) (offset size : Nat) (alloc : Allocation) :
    Except Errno Found × ContainSys Cap Key :=
  match mmapAdmit ch s.sc (getBufferSize p.barSize s.sc.sharedMemRegs) s.dying req nprot offset
      size with
  | .error e => (.error e, s)
  | .ok _ =>
    match mmapFind s.sc.sharedMemRegs req.mapType with
    | .error e => (.error e, s)
    | .ok found =>
      let made : ContainSys Cap Key :=
        { s with
          sc := capioPagerCtor s.sc req.mapType
          objects := ⟨req.mapType, size⟩ :: s.objects }
      match alloc with
      | .failed => (.error .enxio, s)
      | .made => (.ok found, { made with succeeded := ⟨req.mapType, size⟩ :: s.succeeded })
      | .madeDying => (.error .enxio, { made with dying := true })

/-- One call.  The callback needs a mapping that succeeded, the destructor an object. -/
def containStep [DecidableEq Cap] (s : ContainSys Cap Key) :
    ContainLabel Cap → Option (ContainSys Cap Key)
  | .ioctl cmd req delete driver =>
    some { s with sc := (capioIoctlHandler ch s.sc cmd req delete driver).2.2 }
  | .mmap req nprot offset size alloc =>
    some (s.mmapSingleExtra ch p req nprot offset size alloc).2
  | .callback o vaddr =>
    if o ∈ s.succeeded then
      some { s with sc := (capioVaddrCallback s.sc vaddr o.size o.type).2 }
    else none
  | .dtor o =>
    if o ∈ s.objects then
      some { s with sc := capioPagerDtor s.sc o.type, objects := s.objects.erase o }
    else none
  | .close delete => some { s with sc := (revokeCapToken ch s.sc delete).2 }
  | .die => some { s with dying := true }

/-- The device after attach. -/
def attachedSys (createSealingKey : Nat → Key) : ContainSys Cap Key where
  sc := initCapioSc ch createSealingKey (attachSmem p.barSize p.ablation)
  dying := false
  objects := []
  succeeded := []

/-! ## What is asked of them -/

/-- A type that some region has. -/
def Declared (type : Int) : Prop := type ∈ VmMapType.all.map VmMapType.code

instance (type : Int) : Decidable (Declared type) :=
  inferInstanceAs (Decidable (type ∈ VmMapType.all.map VmMapType.code))

/-- Every fault inside an object is answered with a page of the memory of its own
region, and without the tunable no object shows the unsliced view of the BAR. -/
structure Contained (s : ContainSys Cap Key) : Prop where
  faults : ∀ o ∈ s.objects, ∀ offset < roundUp 4096 o.size,
    ∃ t page, VmMapType.code t = o.type ∧
      capioPagerFault p s.sc.sharedMemRegs o.type offset = some page ∧ page.bytes ⊆ p.memory t
  sliced : p.ablation = false →
    ∀ o ∈ s.objects, o.type ≠ VmMapType.mmioRegionUnsliced.code

/-- A request that succeeds named a declared region that is not mapped, and asked for no
capability permission. -/
def GrantsDeclared [DecidableEq Cap] (s : ContainSys Cap Key) : ContainLabel Cap → Prop
  | .mmap req nprot offset size alloc =>
    (∃ found, (s.mmapSingleExtra ch p req nprot offset size alloc).1 = .ok found) →
      (∃ smem ∈ s.sc.sharedMemRegs, smem.type = req.mapType ∧ smem.mapped = false) ∧
      (∀ o ∈ s.objects, o.type ≠ req.mapType) ∧
      nprot.readCap = false ∧ nprot.writeCap = false
  | _ => True

/-- The checks of `capio_mmap_single_extra` that do not depend on the region. -/
def Entitled [DecidableEq Cap] (s : ContainSys Cap Key) (req : MapReq Cap) (nprot : Prot)
    (offset : Nat) : Prop :=
  checkCapToken ch s.sc req.sealedCap = .ok () ∧
    (nprot.readCap = false ∧ nprot.writeCap = false) ∧ offset = 0 ∧ s.dying = false ∧
      ch.tag req.userCap = true

/-- Who is entitled to map names a declared type when asking for no bytes. -/
def EmptyDeclared [DecidableEq Cap] (s : ContainSys Cap Key) : ContainLabel Cap → Prop
  | .mmap req nprot offset size alloc =>
    Entitled ch s req nprot offset → alloc = .made → size = 0 → Declared req.mapType
  | _ => True

end Steps

theorem declared_iff {type : Int} : Declared type ↔ ∃ t, type = VmMapType.code t := by
  simp only [Declared, List.mem_map]
  constructor
  · rintro ⟨t, -, rfl⟩
    exact ⟨t, rfl⟩
  · rintro ⟨t, rfl⟩
    exact ⟨t, t.mem_all, rfl⟩

/-! ## The invariant -/

section Invariant

variable {Cap Key : Type*} {p : Placement} {m : VmMapType → Bool} {off : VmMapType → Nat}
  {type : Int} {size : Nat}

theorem getBufferSize_of_undeclared {smem : List SharedMemRegion} (hnone : ¬ Declared type) :
    getBufferSize p.barSize smem type = 0 := by
  have hfind : VmMapType.all.find? (fun t => t.code = type) = none := by
    rw [List.find?_eq_none]
    intro t _ heq
    exact hnone (declared_iff.mpr ⟨t, (of_decide_eq_true heq).symm⟩)
  simp only [getBufferSize, hfind]

theorem find?_of_undeclared (hnone : ¬ Declared type) :
    (table p.barSize p.ablation m off).find? (fun smem => smem.type = type) = none := by
  rw [List.find?_eq_none]
  intro smem hmem heq
  refine hnone ?_
  rw [Declared, ← types_table, ← of_decide_eq_true heq]
  exact List.mem_map_of_mem hmem

variable (p) in
/-- A size that goes with the type: the length of the region where there is one that
attach left unmarked, else 0. -/
def Offered (o : RegionObject) : Prop :=
  (∃ t, o.type = VmMapType.code t ∧ o.size = (p.region t).len ∧ (p.region t).mapped = false) ∨
    ¬ Declared o.type ∧ o.size = 0

/-- What passes the checks is a region nobody has mapped, or nothing at all. -/
theorem offered_of_found {regs : List SharedMemRegion} {found : Found}
    (hregs : regs = table p.barSize p.ablation m off)
    (hsize : size = getBufferSize p.barSize regs type)
    (hfind : mmapFind regs type = .ok found) :
    Offered p ⟨type, size⟩ ∧ ∀ t, type = VmMapType.code t → m t = false := by
  subst hregs
  by_cases hdeclared : Declared type
  · obtain ⟨t, rfl⟩ := declared_iff.mp hdeclared
    obtain ⟨henabled, hfree⟩ := mmapFind_table.mp ⟨found, hfind⟩
    rw [getBufferSize_table] at hsize
    refine ⟨Or.inl ⟨t, rfl, hsize, henabled⟩, ?_⟩
    intro t' heq
    rw [← VmMapType.code_injective heq]
    exact hfree
  · rw [getBufferSize_of_undeclared hdeclared] at hsize
    refine ⟨Or.inr ⟨hdeclared, hsize⟩, ?_⟩
    rintro t rfl
    exact absurd (declared_iff.mpr ⟨t, rfl⟩) hdeclared

theorem onType_of_undeclared {f : SharedMemRegion → SharedMemRegion}
    (hnone : ¬ Declared type) :
    onType type f (table p.barSize p.ablation m off) = table p.barSize p.ablation m off := by
  apply onType_of_not_mem
  rw [types_table]
  exact hnone

variable (p) in
/-- The table is that of attach with the regions marked that have an object, each has one
object, and every size goes with its type. -/
structure ContainInv (s : ContainSys Cap Key) : Prop where
  regs : ∃ m off, s.sc.sharedMemRegs = table p.barSize p.ablation m off ∧
    ∀ t, s.objects.countP (fun o => o.type = VmMapType.code t) = (m t).toNat
  objects : ∀ o ∈ s.objects, Offered p o
  succeeded : ∀ o ∈ s.succeeded, Offered p o

namespace ContainInv

variable {s : ContainSys Cap Key}

theorem of_addresses (hinv : ContainInv p s) {sc : CapioSoftc Cap Key} {dying : Bool}
    (hregs : ∀ m off, s.sc.sharedMemRegs = table p.barSize p.ablation m off →
      ∃ off', sc.sharedMemRegs = table p.barSize p.ablation m off') :
    ContainInv p { s with sc := sc, dying := dying } := by
  obtain ⟨m, off, htable, hcount⟩ := hinv.regs
  obtain ⟨off', htable'⟩ := hregs m off htable
  exact ⟨⟨m, off', htable', hcount⟩, hinv.objects, hinv.succeeded⟩

theorem revoked (hinv : ContainInv p s) (ch : Sealing Cap Key)
    (delete : SharedMemRegion → Option Errno) :
    ContainInv p { s with sc := (revokeCapToken ch s.sc delete).2 } := by
  apply hinv.of_addresses
  intro m off htable
  simp only [revokeCapToken, htable]
  exact revokeRegions_table delete none

theorem ioctl [DecidableEq Cap] (hinv : ContainInv p s) (ch : Sealing Cap Key) (cmd : CapioCmd)
    (req : CapReq Cap) (delete : SharedMemRegion → Option Errno) (driver : Option Errno) :
    ContainInv p { s with sc := (capioIoctlHandler ch s.sc cmd req delete driver).2.2 } := by
  cases cmd with
  | attach =>
    apply hinv.of_addresses
    intro m off htable
    refine ⟨off, ?_⟩
    rcases setCapToken_cases ch s.sc req with ⟨-, -, hset⟩ | hset
    · simp only [capioIoctlHandler, hset]
      exact htable
    · simp only [capioIoctlHandler, hset]
      exact htable
  | goodbye =>
    simp only [capioIoctlHandler]
    split
    · exact hinv
    · exact hinv.revoked ch delete
  | driver cmd =>
    simp only [capioIoctlHandler]
    split
    · exact hinv
    · exact hinv

/-- The callback finds the length it brings. -/
theorem calledBack (hinv : ContainInv p s) {o : RegionObject} (hmem : o ∈ s.succeeded)
    (vaddr : Nat) :
    ContainInv p { s with sc := (capioVaddrCallback s.sc vaddr o.size o.type).2 } := by
  apply hinv.of_addresses
  intro m off htable
  rcases hinv.succeeded o hmem with ⟨t, htype, hsize, -⟩ | ⟨hnone, -⟩
  · refine ⟨Function.update off t vaddr, ?_⟩
    rw [htype, hsize, capioVaddrCallback_table htable]
  · refine ⟨off, ?_⟩
    have hrecord : recordVaddr vaddr o.size o.type s.sc.sharedMemRegs = none := by
      apply recordVaddr_of_not_mem
      rw [htable, types_table]
      exact hnone
    simp only [capioVaddrCallback, hrecord]
    exact htable

theorem made (hinv : ContainInv p s) {succeeded : List RegionObject} {dying : Bool}
    {found : Found}
    (hsize : size = getBufferSize p.barSize s.sc.sharedMemRegs type)
    (hfind : mmapFind s.sc.sharedMemRegs type = .ok found)
    (hsucceeded : ∀ o ∈ succeeded, o = ⟨type, size⟩ ∨ o ∈ s.succeeded) :
    ContainInv p
      { sc := capioPagerCtor s.sc type
        dying := dying
        objects := ⟨type, size⟩ :: s.objects
        succeeded := succeeded } := by
  obtain ⟨m, off, htable, hcount⟩ := hinv.regs
  obtain ⟨hoffered, hfree⟩ := offered_of_found htable hsize hfind
  refine ⟨?_, ?_, ?_⟩
  · by_cases hdeclared : Declared type
    · obtain ⟨t, rfl⟩ := declared_iff.mp hdeclared
      refine ⟨Function.update m t true, off, capioPagerCtor_table htable, ?_⟩
      intro t'
      rw [List.countP_cons, hcount]
      by_cases heq : t' = t
      · subst heq
        rw [Function.update_self, hfree t' rfl]
        simp
      · have hcode : VmMapType.code t ≠ t'.code := fun h => heq (VmMapType.code_injective h).symm
        rw [Function.update_of_ne heq]
        simp [hcode]
    · -- no row has the type, so the constructor marks nothing
      refine ⟨m, off, ?_, ?_⟩
      · simp only [capioPagerCtor, htable]
        exact onType_of_undeclared hdeclared
      · intro t
        have hcode : type ≠ t.code := fun heq => hdeclared (declared_iff.mpr ⟨t, heq⟩)
        rw [List.countP_cons, hcount]
        simp [hcode]
  · intro o ho
    rcases List.mem_cons.mp ho with rfl | ho
    · exact hoffered
    · exact hinv.objects o ho
  · intro o ho
    rcases hsucceeded o ho with rfl | ho
    · exact hoffered
    · exact hinv.succeeded o ho

theorem destroyed (hinv : ContainInv p s) {o : RegionObject} (hmem : o ∈ s.objects) :
    ContainInv p
      { s with sc := capioPagerDtor s.sc o.type, objects := s.objects.erase o } := by
  obtain ⟨m, off, htable, hcount⟩ := hinv.regs
  -- the count of a type drops by one exactly for the type of `o`
  have hsplit : ∀ t, (s.objects.erase o).countP (fun o => o.type = VmMapType.code t) +
      (if o.type = t.code then 1 else 0) = (m t).toNat := by
    intro t
    have hperm := (List.perm_cons_erase hmem).countP_eq fun o => o.type = VmMapType.code t
    rw [← hcount, hperm, List.countP_cons]
    simp
  refine ⟨?_, fun o' ho' => hinv.objects o' (List.mem_of_mem_erase ho'), hinv.succeeded⟩
  rcases hinv.objects o hmem with ⟨t, htype, -, henabled⟩ | ⟨hnone, -⟩
  · refine ⟨Function.update m t false, off, ?_, ?_⟩
    · rw [htype]
      exact capioPagerDtor_table htable henabled
    · intro t'
      have hrest := hsplit t'
      by_cases heq : t' = t
      · subst heq
        have hone := (m t').toNat_le
        rw [if_pos htype] at hrest
        rw [Function.update_self]
        show (s.objects.erase o).countP _ = 0
        omega
      · have hcode : o.type ≠ t'.code := by
          rw [htype]
          exact fun h => heq (VmMapType.code_injective h).symm
        rw [if_neg hcode, Nat.add_zero] at hrest
        rw [Function.update_of_ne heq]
        exact hrest
  · refine ⟨m, off, ?_, ?_⟩
    · simp only [capioPagerDtor, htable]
      exact onType_of_undeclared hnone
    · intro t
      have hcode : o.type ≠ t.code := fun heq => hnone (declared_iff.mpr ⟨t, heq⟩)
      have hrest := hsplit t
      rw [if_neg hcode, Nat.add_zero] at hrest
      exact hrest

/-- The tables agree, so nothing outside a region is handed out. -/
theorem contained (hinv : ContainInv p s) : Contained p s := by
  obtain ⟨m, off, htable, -⟩ := hinv.regs
  refine ⟨?_, ?_⟩
  · intro o ho offset hoffset
    rcases hinv.objects o ho with ⟨t, htype, hsize, -⟩ | ⟨-, hsize⟩
    · rw [hsize, roundUp_of_dvd (by decide) (p.region_pages t)] at hoffset
      rw [htable, htype]
      exact ⟨t, (capioPagerFault_table hoffset).imp fun page hpage => ⟨rfl, hpage⟩⟩
    · rw [hsize, roundUp_of_dvd (by decide) (Nat.dvd_zero 4096)] at hoffset
      exact absurd hoffset (Nat.not_lt_zero offset)
  · intro hoff o ho htype
    rcases hinv.objects o ho with ⟨t, htype', -, henabled⟩ | ⟨hnone, -⟩
    · -- without the tunable attach has marked the region
      have ht : t = .mmioRegionUnsliced := VmMapType.code_injective (htype'.symm.trans htype)
      subst ht
      simp [smemEntry, hoff] at henabled
    · exact hnone (declared_iff.mpr ⟨_, htype⟩)

end ContainInv

end Invariant

/-! ## Runs -/

section Runs

variable {Cap Key : Type*} {ch : Sealing Cap Key} {p : Placement} {s : ContainSys Cap Key}

theorem containInv_attached (createSealingKey : Nat → Key) :
    ContainInv p (attachedSys ch p createSealingKey) where
  regs := ⟨fun _ => false, fun _ => 0, attachSmem_eq_table, fun _ => rfl⟩
  objects := List.forall_mem_nil _
  succeeded := List.forall_mem_nil _

variable [DecidableEq Cap]

theorem containInv_mmap (hinv : ContainInv p s) (req : MapReq Cap) (nprot : Prot)
    (offset size : Nat) (alloc : Allocation) :
    ContainInv p (s.mmapSingleExtra ch p req nprot offset size alloc).2 := by
  unfold ContainSys.mmapSingleExtra
  split
  · exact hinv
  · rename_i hadmitted
    have hsize := (mmapAdmit_eq_ok_iff.mp hadmitted).2
    split
    · exact hinv
    · rename_i hfind
      cases alloc with
      | failed => exact hinv
      | made => exact hinv.made hsize hfind fun o ho => List.mem_cons.mp ho
      | madeDying => exact hinv.made hsize hfind fun o ho => Or.inr ho

theorem containInv_step (s : ContainSys Cap Key) (l : ContainLabel Cap) (s' : ContainSys Cap Key)
    (hinv : ContainInv p s) (hstep : containStep ch p s l = some s') : ContainInv p s' := by
  cases l with
  | ioctl cmd req delete driver =>
    cases hstep
    exact hinv.ioctl ch cmd req delete driver
  | mmap req nprot offset size alloc =>
    cases hstep
    exact containInv_mmap hinv req nprot offset size alloc
  | callback o vaddr =>
    simp only [containStep] at hstep
    split at hstep
    · rename_i hmem
      cases hstep
      exact hinv.calledBack hmem vaddr
    · cases hstep
  | dtor o =>
    simp only [containStep] at hstep
    split at hstep
    · rename_i hmem
      cases hstep
      exact hinv.destroyed hmem
    · cases hstep
  | close delete =>
    cases hstep
    exact hinv.revoked ch delete
  | die =>
    cases hstep
    exact hinv.of_addresses fun m off htable => ⟨off, htable⟩

theorem mmapSingleExtra_ok_iff {req : MapReq Cap} {nprot : Prot} {offset size : Nat}
    {alloc : Allocation} :
    (∃ found, (s.mmapSingleExtra ch p req nprot offset size alloc).1 = .ok found) ↔
      Entitled ch s req nprot offset ∧
        size = getBufferSize p.barSize s.sc.sharedMemRegs req.mapType ∧
        (∃ found, mmapFind s.sc.sharedMemRegs req.mapType = .ok found) ∧ alloc = .made := by
  have hadmit : mmapAdmit ch s.sc (getBufferSize p.barSize s.sc.sharedMemRegs) s.dying req nprot
      offset size = .ok () ↔ Entitled ch s req nprot offset ∧
        size = getBufferSize p.barSize s.sc.sharedMemRegs req.mapType := mmapAdmit_eq_ok_iff
  rw [← and_assoc, ← hadmit]
  unfold ContainSys.mmapSingleExtra
  split
  · rename_i hrefused
    simp [hrefused]
  · rename_i hadmitted
    rw [hadmitted]
    cases mmapFind s.sc.sharedMemRegs req.mapType with
    | error e => simp
    | ok found => cases alloc <;> simp

/-- A request that succeeds and names a declared type has found a free region. -/
theorem grantsDeclared_iff (s : ContainSys Cap Key) (l : ContainLabel Cap)
    (hinv : ContainInv p s) : GrantsDeclared ch p s l ↔ EmptyDeclared ch s l := by
  cases l with
  | ioctl cmd req delete driver => exact Iff.rfl
  | callback o vaddr => exact Iff.rfl
  | dtor o => exact Iff.rfl
  | close delete => exact Iff.rfl
  | die => exact Iff.rfl
  | mmap req nprot offset size alloc =>
    obtain ⟨m, off, htable, hcount⟩ := hinv.regs
    simp only [GrantsDeclared, EmptyDeclared, mmapSingleExtra_ok_iff]
    constructor
    · -- an undeclared type of size 0 passes all checks
      intro hgrants hentitled halloc hzero
      by_contra hnone
      have hsize : size = getBufferSize p.barSize s.sc.sharedMemRegs req.mapType := by
        rw [hzero, getBufferSize_of_undeclared hnone]
      have hfind : ∃ found, mmapFind s.sc.sharedMemRegs req.mapType = .ok found := by
        rw [mmapFind, htable, find?_of_undeclared hnone]
        exact ⟨_, rfl⟩
      obtain ⟨⟨smem, hsmem, htype, -⟩, -⟩ := hgrants ⟨hentitled, hsize, hfind, halloc⟩
      have htypes : s.sc.sharedMemRegs.map SharedMemRegion.type =
          VmMapType.all.map VmMapType.code := by
        rw [htable, types_table]
      rw [Declared, ← htypes, ← htype] at hnone
      exact hnone (List.mem_map_of_mem hsmem)
    · rintro hempty ⟨hentitled, hsize, ⟨found, hfind⟩, halloc⟩
      have hdeclared : Declared req.mapType := by
        by_contra hnone
        rw [getBufferSize_of_undeclared hnone] at hsize
        exact hnone (hempty hentitled halloc hsize)
      obtain ⟨t, htype⟩ := declared_iff.mp hdeclared
      have hfree := (offered_of_found htable hsize hfind).2 t htype
      have hentry : s.sc.sharedMemRegs.find? (fun smem => smem.type = req.mapType) =
          some (tableEntry p.barSize p.ablation m off t) := by
        rw [htable, htype, find?_table]
      refine ⟨⟨_, List.mem_of_find?_eq_some hentry, ?_, ?_⟩, ?_, hentitled.2.1⟩
      · rw [htype]
        exact smemEntry_type t
      · exact unmapped_of_mmapFind hfind _ hentry
      · have hnone := hcount t
        rw [hfree, Bool.toNat_false, List.countP_eq_zero] at hnone
        intro o ho heq
        exact hnone o ho (decide_eq_true (heq.trans htype))

/-- Whatever is called, no object reaches beyond its own region. -/
theorem contained_along (createSealingKey : Nat → Key) (labels : List (ContainLabel Cap)) :
    Along (containStep ch p) (Contained p) (attachedSys ch p createSealingKey) labels :=
  along_of_invariant containInv_step (fun _ hinv => hinv.contained)
    (containInv_attached createSealingKey) labels

/-- Every mapping is of a declared region and stays inside it exactly if no request for
an empty mapping names an undeclared type. -/
theorem mappings_contained_iff (createSealingKey : Nat → Key)
    (labels : List (ContainLabel Cap)) :
    (Along (containStep ch p) (Contained p) (attachedSys ch p createSealingKey) labels ∧
        Obeys (containStep ch p) (GrantsDeclared ch p) (attachedSys ch p createSealingKey)
          labels) ↔
      Obeys (containStep ch p) (EmptyDeclared ch) (attachedSys ch p createSealingKey) labels := by
  rw [and_iff_right (contained_along createSealingKey labels)]
  exact obeys_iff_of_invariant containInv_step grantsDeclared_iff
    (containInv_attached createSealingKey) labels

end Runs

/-- A BAR of 64 KiB above the DMA memory, without the tunable. -/
def smallBoard : Placement where
  barStart := 0x60000000
  barSize := 0x10000
  ablation := false
  addr := fun type => 0x40000000 + type.toNat * 0x100000
  frame := id
  barAligned := by decide
  barPages := by decide
  addrAligned := by
    intro type
    omega

/-- `CAPIO_ATTACH`. -/
def takeToken : ContainLabel SealedWord :=
  .ioctl .attach ⟨.word true 5, .word false 0⟩ (fun _ => none) none

/-- A request of the holder of that token for read and write access. -/
def mapAs (type : Int) (size : Nat) : ContainLabel SealedWord :=
  .mmap ⟨⟨.word true 5, .sealed (.word true 5) 0x1234⟩, type⟩ ⟨true, true, false, false⟩ 0 size
    .made

/-- The descriptor ring is mapped and entered; the unsliced view of the BAR is refused. -/
def ringRun : List (ContainLabel SealedWord) :=
  [takeToken, mapAs 3 4096, .callback ⟨3, 4096⟩ 0x7000, mapAs 6 0]

theorem ring_mapping_contained :
    (∃ t, exec (containStep SealedWord.sealing smallBoard)
        (attachedSys SealedWord.sealing smallBoard id) ringRun = some t ∧
      t.objects = [⟨3, 4096⟩]) ∧
      Along (containStep SealedWord.sealing smallBoard) (Contained smallBoard)
        (attachedSys SealedWord.sealing smallBoard id) ringRun ∧
      Obeys (containStep SealedWord.sealing smallBoard)
        (GrantsDeclared SealedWord.sealing smallBoard)
        (attachedSys SealedWord.sealing smallBoard id) ringRun := by
  refine ⟨⟨_, rfl, rfl⟩, ?_⟩
  refine (mappings_contained_iff id ringRun).mpr (obeys_of_labels ?_ _)
  intro l hl s
  simp only [ringRun, List.mem_cons, List.not_mem_nil, or_false] at hl
  rcases hl with rfl | rfl | rfl | rfl
  · trivial
  · intro _ _ hempty
    cases hempty
  · trivial
  · intro _ _ _
    decide

/-- A request for no bytes of type 99 succeeds. -/
theorem undeclared_type_mapped :
    ∃ s, exec (containStep SealedWord.sealing smallBoard)
        (attachedSys SealedWord.sealing smallBoard id) [takeToken] = some s ∧
      (∃ t, containStep SealedWord.sealing smallBoard s (mapAs 99 0) = some t ∧
        t.succeeded = [⟨99, 0⟩]) ∧
      ¬ Declared 99 ∧ ¬ GrantsDeclared SealedWord.sealing smallBoard s (mapAs 99 0) := by
  refine ⟨_, rfl, ⟨_, rfl, rfl⟩, by decide, ?_⟩
  intro hgrants
  obtain ⟨⟨smem, hmem, htype, -⟩, -⟩ := hgrants ⟨_, rfl⟩
  have htypes := List.mem_map_of_mem (f := SharedMemRegion.type) hmem
  rw [htype] at htypes
  exact absurd htypes (by decide)

end Capio
end SfcCapio
