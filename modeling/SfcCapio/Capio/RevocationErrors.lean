import SfcCapio.Capio.Softc

/-!
# What `revoke_cap_token` reports

`revoke_cap_token` forgets the token and then removes, region by region, the mapping at
the recorded address.  Its result is the variable `error`, which every removal
overwrites; the address of a region is cleared only if its removal succeeds.

The removals may have any outcomes, one for each position of the loop.  The result is
that of the last removal, and no token is left with which `CAPIO_GOODBYE` could be
issued again.  So a failed removal is either not reported or cannot be retried.
-/

namespace SfcCapio
namespace Capio

open Foundation

/-! ## The loop -/

/-- What `delete_mapping_from_user` meets: a process without a map, an address that is
not mapped, or the result of `vm_map_remove`. -/
inductive VmReply
  | noVmspace
  | lookupFailed
  | removed
  | invalidAddress
  | removeFailed
deriving DecidableEq, Repr

/-- The result of `delete_mapping_from_user`. -/
def VmReply.result : VmReply → Option Errno
  | .removeFailed => some .eio
  | _ => none

/-- The loop of `revoke_cap_token` from position `i` on, with the variable `error`. -/
def revokeLoop (replies : Nat → VmReply) :
    Nat → List SharedMemRegion → Option Errno → List SharedMemRegion × Option Errno
  | _, [], error => ([], error)
  | i, smem :: regs, error =>
    if smem.offset ≠ 0 then
      let rest := revokeLoop replies (i + 1) regs (replies i).result
      match (replies i).result with
      | none => ({ smem with offset := 0 } :: rest.1, rest.2)
      | some _ => (smem :: rest.1, rest.2)
    else
      let rest := revokeLoop replies (i + 1) regs error
      (smem :: rest.1, rest.2)

section Revoke

variable {Cap Key : Type*} (ch : Sealing Cap Key)

/-- `revoke_cap_token`. -/
def revokeWith (sc : CapioSoftc Cap Key) (replies : Nat → VmReply) :
    Option Errno × CapioSoftc Cap Key :=
  let out := revokeLoop replies 0 sc.sharedMemRegs none
  (out.2, { clearCapState ch sc with sharedMemRegs := out.1 })

/-! ## What is asked of it -/

/-- The removal succeeded for every region with a recorded address. -/
def AllRemoved (regs : List SharedMemRegion) (replies : Nat → VmReply) : Prop :=
  ∀ i smem, regs[i]? = some smem → smem.offset ≠ 0 → (replies i).result = none

/-- The ioctl entry lets a `CAPIO_GOODBYE` with this request through. -/
def GoodbyeAdmitted [DecidableEq Cap] (sc : CapioSoftc Cap Key) (req : CapReq Cap) : Prop :=
  checkCapToken ch sc req.sealedCap = .ok ()

/-- Success means that everything is removed.  After an error the regions that were not
removed keep their address, and the caller can try again. -/
structure RevocationReported [DecidableEq Cap] (sc : CapioSoftc Cap Key) (replies : Nat → VmReply)
    (req : CapReq Cap) : Prop where
  success : (revokeWith ch sc replies).1 = none → AllRemoved sc.sharedMemRegs replies
  kept : (revokeWith ch sc replies).1 ≠ none → ∀ i smem, sc.sharedMemRegs[i]? = some smem →
    smem.offset ≠ 0 → (replies i).result ≠ none →
      (revokeWith ch sc replies).2.sharedMemRegs[i]? = some smem
  retry : (revokeWith ch sc replies).1 ≠ none →
    GoodbyeAdmitted ch (revokeWith ch sc replies).2 req

end Revoke

/-! ## What the loop does -/

section Loop

variable {replies : Nat → VmReply}

/-- The loop of `revokeRegions`, where the outcome is a function of the region. -/
theorem revokeLoop_eq_revokeRegions {delete : SharedMemRegion → Option Errno}
    (regs : List SharedMemRegion) (i : Nat) (error : Option Errno)
    (hdelete : ∀ j smem, regs[j]? = some smem → (replies (i + j)).result = delete smem) :
    revokeLoop replies i regs error = revokeRegions delete regs error := by
  induction regs generalizing i error with
  | nil => rfl
  | cons smem regs ih =>
    have hfirst : (replies i).result = delete smem := hdelete 0 smem rfl
    have hrest : ∀ error, revokeLoop replies (i + 1) regs error =
        revokeRegions delete regs error := by
      intro error
      refine ih (i + 1) error ?_
      intro j x hx
      rw [Nat.add_assoc, Nat.add_comm 1 j]
      exact hdelete (j + 1) x hx
    cases hresult : delete smem with
    | none => simp only [revokeLoop, revokeRegions, hfirst, hrest, hresult]
    | some error => simp only [revokeLoop, revokeRegions, hfirst, hrest, hresult]

/-- A region is forgotten if it had an address and its removal succeeded. -/
theorem getElem?_revokeLoop (regs : List SharedMemRegion) (i j : Nat) (error : Option Errno) :
    (revokeLoop replies i regs error).1[j]? =
      regs[j]?.map fun smem =>
        if smem.offset ≠ 0 ∧ (replies (i + j)).result = none then { smem with offset := 0 }
        else smem := by
  induction regs generalizing i j error with
  | nil => rfl
  | cons smem regs ih =>
    have hshift : ∀ j, i + 1 + j = i + (j + 1) := fun j => by omega
    rw [revokeLoop]
    by_cases haddr : smem.offset ≠ 0
    · rw [if_pos haddr]
      cases hreply : (replies i).result with
      | none =>
        cases j with
        | zero => simp [haddr, hreply]
        | succ j => simpa [hshift] using ih (i + 1) j none
      | some e =>
        cases j with
        | zero => simp [hreply]
        | succ j => simpa [hshift] using ih (i + 1) j (some e)
    · rw [if_neg haddr]
      cases j with
      | zero => simp [haddr]
      | succ j => simpa [hshift] using ih (i + 1) j error

theorem snd_revokeLoop_of_removed (regs : List SharedMemRegion) (i : Nat)
    (hall : ∀ j smem, regs[j]? = some smem → smem.offset ≠ 0 →
      (replies (i + j)).result = none) : (revokeLoop replies i regs none).2 = none := by
  induction regs generalizing i with
  | nil => rfl
  | cons smem regs ih =>
    have hrest : (revokeLoop replies (i + 1) regs none).2 = none := by
      refine ih (i + 1) ?_
      intro j x hx haddr
      rw [Nat.add_assoc, Nat.add_comm 1 j]
      exact hall (j + 1) x hx haddr
    rw [revokeLoop]
    by_cases haddr : smem.offset ≠ 0
    · have hfirst : (replies i).result = none := hall 0 smem rfl haddr
      rw [if_pos haddr, hfirst]
      exact hrest
    · rw [if_neg haddr]
      exact hrest

end Loop

/-! ## The result -/

section Result

variable {Cap Key : Type*} (ch : Sealing Cap Key)

/-- The regions whose removal failed always keep their address. -/
theorem revokeWith_keeps (sc : CapioSoftc Cap Key) (replies : Nat → VmReply) {i : Nat}
    {smem : SharedMemRegion} (hmem : sc.sharedMemRegs[i]? = some smem)
    (hfailed : (replies i).result ≠ none) :
    (revokeWith ch sc replies).2.sharedMemRegs[i]? = some smem := by
  show (revokeLoop replies 0 sc.sharedMemRegs none).1[i]? = some smem
  rw [getElem?_revokeLoop, hmem, Option.map_some, Nat.zero_add, if_neg fun h => hfailed h.2]

variable [DecidableEq Cap]

/-- After a revocation no request is let through: the token is gone. -/
theorem not_goodbyeAdmitted_revokeWith (sc : CapioSoftc Cap Key) (replies : Nat → VmReply)
    (req : CapReq Cap) : ¬ GoodbyeAdmitted ch (revokeWith ch sc replies).2 req := by
  intro hok
  have hheld := (checkCapToken_eq_ok_iff.mp hok).1
  have hnull : ch.isNull (revokeWith ch sc replies).2.capState.sealedCap = true := ch.isNull_null
  rw [hnull] at hheld
  cases hheld

/-- Revocation reports its failures, whatever the device, the outcomes and the caller,
exactly if there is none to report. -/
theorem revocation_reported_iff (sc : CapioSoftc Cap Key) (replies : Nat → VmReply)
    (req : CapReq Cap) :
    RevocationReported ch sc replies req ↔ AllRemoved sc.sharedMemRegs replies := by
  constructor
  · intro hreported
    refine hreported.success ?_
    by_contra herror
    exact not_goodbyeAdmitted_revokeWith ch sc replies req (hreported.retry herror)
  · intro hall
    have hnone : (revokeWith ch sc replies).1 = none := by
      refine snd_revokeLoop_of_removed sc.sharedMemRegs 0 ?_
      intro j smem hmem haddr
      rw [Nat.zero_add]
      exact hall j smem hmem haddr
    exact ⟨fun _ => hall, fun h => absurd hnone h, fun h => absurd hnone h⟩

end Result

/-- A region of one page mapped at `addr`. -/
def mappedAt (type : Int) (addr : Nat) : SharedMemRegion :=
  { type := type, isPhysical := false, offset := addr, len := 4096, mapped := true,
    isSliced := false, sliceDefinitions := [], sliceDefLen := 0 }

/-- A device with a token and the given regions. -/
def withRegions (regs : List SharedMemRegion) : CapioSoftc SealedWord Nat where
  sealingKey := 7
  capState := { originalCap := .word true 1, sealedCap := .sealed (.word true 1) 7 }
  mapped := true
  sharedMemRegs := regs

/-- The first of two removals fails and `revoke_cap_token` returns 0.  The only removal
fails and EIO is returned, but `CAPIO_GOODBYE` with the token that was valid before is
refused. -/
theorem revocation_failure_lost :
    (revokeWith SealedWord.sealing (withRegions [mappedAt 0 0x10000, mappedAt 1 0x20000])
        (fun i => if i = 0 then .removeFailed else .removed)).1 = none ∧
    (∃ sc', revokeWith SealedWord.sealing (withRegions [mappedAt 0 0x10000])
        (fun _ => .removeFailed) = (some .eio, sc') ∧
      (capioIoctlHandler SealedWord.sealing sc' .goodbye
        ⟨.word true 1, .sealed (.word true 1) 7⟩ (fun _ => none) none).1 = some .eperm) ∧
    ∀ req, ¬ RevocationReported SealedWord.sealing
      (withRegions [mappedAt 0 0x10000, mappedAt 1 0x20000])
      (fun i => if i = 0 then .removeFailed else .removed) req := by
  refine ⟨by decide, ⟨_, rfl, by decide⟩, ?_⟩
  intro req hreported
  have hall := hreported.success (by decide)
  exact absurd (hall 0 (mappedAt 0 0x10000) rfl (by decide)) (by decide)

end Capio
end SfcCapio
