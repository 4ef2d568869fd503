import SfcCapio.Capio.Revocation
import SfcCapio.Capio.RevocationErrors

/-!
# What a revocation takes out of a map

The driver keeps one address and length for each region, written by
`capio_vaddr_callback`.  Nobody tells it that a mapping was removed, moved or
inherited, and it does not keep the process.  `revoke_cap_token` uses these numbers in
the map of whichever process says goodbye or closes last, and looks only whether
something readable stands at the address.

`rangeStep` puts unrelated memory beside the mappings of `mapStep`.  A process may
unmap any range and map other memory into any free range, also between the
`vm_map_lookup` and the `vm_map_remove` of `delete_mapping_from_user`.  Every range
that reaches `vm_map_remove` is written down together with the device mappings of that
moment.

For the discipline below each recorded address also has the process for which modmap
recorded it; the driver does not have this.
-/

namespace SfcCapio
namespace Capio

open Foundation

/-! ## Ranges -/

/-- One of `[start, start + len)` and `[lo, hi)` ends before the other begins. -/
def Apart (start len lo hi : Nat) : Prop := start + len ≤ lo ∨ hi ≤ start

instance (start len lo hi : Nat) : Decidable (Apart start len lo hi) :=
  inferInstanceAs (Decidable (_ ∨ _))

/-- `[start, start + len)` lies in `[lo, hi)`. -/
def Within (start len lo hi : Nat) : Prop := lo ≤ start ∧ start + len ≤ hi

instance (start len lo hi : Nat) : Decidable (Within start len lo hi) :=
  inferInstanceAs (Decidable (_ ∧ _))

/-- What is apart from a range is apart from its parts. -/
theorem Apart.of_within {start len start' len' lo hi : Nat} (happart : Apart start len lo hi)
    (hwithin : Within start' len' start (start + len)) : Apart start' len' lo hi := by
  unfold Apart Within at *
  omega

/-- No entry of the process overlaps the range. -/
def FreeIn (entries : List MapEntry) (pid start len : Nat) : Prop :=
  ∀ e ∈ entries, e.pid = pid → Apart e.start e.len start (start + len)

instance (entries : List MapEntry) (pid start len : Nat) :
    Decidable (FreeIn entries pid start len) :=
  inferInstanceAs (Decidable (∀ e ∈ entries, _))

/-- Every address of `[lo, hi)` shows the region in the map of the process. -/
def Covered (entries : List MapEntry) (pid : Nat) (type : Int) (lo hi : Nat) : Prop :=
  ∀ a, lo ≤ a → a < hi →
    ∃ e ∈ entries, e.pid = pid ∧ e.type = type ∧ e.start ≤ a ∧ a < e.start + e.len

/-! ## The system -/

/-- A call of `vm_map_remove` by a revocation, with the device mappings it met. -/
structure Removal where
  pid : Nat
  lo : Nat
  hi : Nat
  shown : List MapEntry

/-- The range was entirely a mapping of a region of the device. -/
def Removal.OnlyDevice (r : Removal) : Prop :=
  ∃ type, Covered r.shown r.pid type r.lo r.hi

/-- The device with its mappings, and what else the processes have mapped.  Of an entry
of `others` only process, range and protection mean something.  `looked` are the threads
between the two calls in `delete_mapping_from_user`. -/
structure RangeSys (Cap Key : Type*) where
  map : MapSys Cap Key
  others : List MapEntry
  looked : Nat → Bool
  owner : Int → Nat
  removals : List Removal

/-- The steps. -/
inductive RangeLabel (Cap : Type*)
  /-- A step of `mapStep` other than those below. -/
  | map (l : MapLabel Cap)
  | callback (tid : Nat)
  | fork (pid child : Nat)
  | lookup (tid : Nat)
  | remove (tid : Nat) (reply : VmReply)
  | munmap (pid lo len : Nat)
  | mmapOther (pid start len : Nat) (readable : Bool)

/-- An entry that shows unrelated memory. -/
def otherEntry (pid start len : Nat) (readable : Bool) : MapEntry where
  pid := pid
  type := 0
  start := start
  len := len
  readable := readable
  object := 0
  auth := 0

/-- The answers of `vm_map_remove`. -/
def VmReply.fromRemove : VmReply → Bool
  | .removed | .invalidAddress | .removeFailed => true
  | .noVmspace | .lookupFailed => false

/-- What `vm_map_remove` leaves, by its answer. -/
def VmReply.leaves (reply : VmReply) (entries : List MapEntry) (pid lo hi : Nat) :
    List MapEntry :=
  if reply = .removed then vmMapRemove entries pid lo hi else entries

section System

variable {Cap Key : Type*}

/-- Steps that `mapStep` takes as they are; modmap enters the object where no other memory
is. -/
def RangeSys.admits (s : RangeSys Cap Key) : MapLabel Cap → Bool
  | .mmapEnter tid vaddr =>
    (s.map.mmaps tid).all fun c => decide (FreeIn s.others c.pid vaddr c.size)
  | .mmapCallback _ | .revokeDelete _ | .fork _ _ => false
  | _ => true

/-- `delete_mapping_from_user` up to the end of `vm_map_lookup`. -/
def lookupStep (s : RangeSys Cap Key) (tid : Nat) (c : RevokeCall) :
    RevokePhase → Option (RangeSys Cap Key)
  | .deleting i smem =>
    if s.looked tid then none
    -- the lookup does not ask what is mapped there
    else if vmMapLookup (s.map.entries ++ s.others) c.pid smem.offset then
      some { s with looked := Function.update s.looked tid true }
    else
      some
        { s with
          map := s.map.setRevoke tid (some { c with error := none, phase := .forgetting i }) }
  | _ => none

/-- The rest of `delete_mapping_from_user`. -/
def removeStep (s : RangeSys Cap Key) (tid : Nat) (reply : VmReply) (c : RevokeCall) :
    RevokePhase → Option (RangeSys Cap Key)
  | .deleting i smem =>
    if s.looked tid ∧ reply.fromRemove then
      let hi := smem.offset + smem.len
      -- only `EIO` keeps the address recorded
      let phase := if reply.result = none then RevokePhase.forgetting i else .scanning (i + 1)
      some
        { s with
          map :=
            { s.map.setRevoke tid (some { c with error := reply.result, phase := phase }) with
              entries := reply.leaves s.map.entries c.pid smem.offset hi }
          others := reply.leaves s.others c.pid smem.offset hi
          looked := Function.update s.looked tid false
          removals := s.removals ++
            [{ pid := c.pid, lo := smem.offset, hi := hi, shown := s.map.entries }] }
    else none
  | _ => none

variable [DecidableEq Cap] (ch : Sealing Cap Key) (bufferSize : Int → Nat)

/-- The system. -/
def rangeStep (s : RangeSys Cap Key) : RangeLabel Cap → Option (RangeSys Cap Key)
  | .map l =>
    if s.admits l then
      (mapStep ch bufferSize s.map l).map fun m => { s with map := m }
    else none
  | .callback tid =>
    (s.map.mmaps tid).bind fun c =>
      (mapStep ch bufferSize s.map (.mmapCallback tid)).map fun m =>
        { s with map := m, owner := Function.update s.owner c.mapType c.pid }
  | .fork pid child =>
    if ∀ o ∈ s.others, o.pid ≠ child then
      (mapStep ch bufferSize s.map (.fork pid child)).map fun m =>
        { s with
          map := m
          others := s.others ++
            (s.others.filter fun o => o.pid = pid).map fun o => { o with pid := child } }
    else none
  | .lookup tid => (s.map.revokes tid).bind fun c => lookupStep s tid c c.phase
  | .remove tid reply => (s.map.revokes tid).bind fun c => removeStep s tid reply c c.phase
  | .munmap pid lo len =>
    some
      { s with
        map := { s.map with entries := vmMapRemove s.map.entries pid lo (lo + len) }
        others := vmMapRemove s.others pid lo (lo + len) }
  | .mmapOther pid start len readable =>
    if FreeIn (s.map.entries ++ s.others) pid start len then
      some { s with others := s.others ++ [otherEntry pid start len readable] }
    else none

/-- A device freshly initialised.  The processes may have any other memory mapped. -/
structure RangeStart (createSealingKey : Nat → Key) (s : RangeSys Cap Key) : Prop where
  map : MapStart ch bufferSize createSealingKey s.map
  looked : ∀ tid, s.looked tid = false
  removals : s.removals = []

/-- Every range that a revocation gave to `vm_map_remove` was, in that process at that
moment, entirely a mapping of a region of the device. -/
def RemovesOnlyDevice (s : RangeSys Cap Key) : Prop := ∀ r ∈ s.removals, r.OnlyDevice

/-! ## The order that the processes must keep -/

omit [DecidableEq Cap]

/-- The range at which a revocation would look for a mapping of the process, now or after
the callback of a call under way. -/
def RangeSys.Watched (s : RangeSys Cap Key) (pid : Nat) (type : Int) (start len : Nat) : Prop :=
  ((type, start, len) ∈ s.map.table ∧ start ≠ 0 ∧ s.owner type = pid) ∨
    ∃ tid c, s.map.mmaps tid = some c ∧ c.phase = .entered start ∧ c.pid = pid ∧
      c.mapType = type ∧ c.size = len

/-- No revocation runs. -/
def MapSys.NoRevocation (s : MapSys Cap Key) : Prop :=
  ∀ tid c, s.revokes tid = some c → ¬ c.Running

/-- The order that keeps revocations inside the mappings of the device.

* Nothing else is mapped over a range that is recorded, or about to be recorded, for the
  process: no other memory, and no region unless it takes exactly the same range.
* Mappings of regions are unmapped as a whole, and not while the process revokes.
* Revocations run one at a time, and no address is recorded meanwhile.  Where the lookup
  of one finds something, the address was recorded for its process.
* A process is not forked to a number that still has recorded addresses. -/
def Careful (s : RangeSys Cap Key) : RangeLabel Cap → Prop
  | .map (.mmapEnter tid vaddr) =>
    ∀ c, s.map.mmaps tid = some c → ∀ type start len, s.Watched c.pid type start len →
      (c.mapType = type ∧ vaddr = start ∧ c.size = len) ∨
        Apart vaddr c.size start (start + len)
  | .map (.revokeClear _) => s.map.NoRevocation
  | .callback _ => s.map.NoRevocation
  | .lookup tid =>
    ∀ c i smem, s.map.revokes tid = some c → c.phase = .deleting i smem →
      vmMapLookup (s.map.entries ++ s.others) c.pid smem.offset = true →
        s.owner smem.type = c.pid
  | .fork _ child => ∀ type start len, ¬ s.Watched child type start len
  | .munmap pid lo len =>
    (∀ e ∈ s.map.entries, e.pid = pid →
      Within e.start e.len lo (lo + len) ∨ Apart e.start e.len lo (lo + len)) ∧
      ∀ tid c, s.map.revokes tid = some c → c.Running → c.pid ≠ pid
  | .mmapOther pid start len _ =>
    ∀ type start' len', s.Watched pid type start' len' →
      Apart start len start' (start' + len')
  | _ => True

end System

/-! ## Taking a range out -/

section Remove

variable {entries : List MapEntry} {e x : MapEntry} {pid lo hi : Nat}

theorem MapEntry.within_of_mem_minus (hx : x ∈ e.minus lo hi) :
    x.pid = e.pid ∧ Within x.start x.len e.start (e.start + e.len) := by
  unfold MapEntry.minus at hx
  rcases List.mem_append.mp hx with hbelow | habove
  · split at hbelow
    · rw [List.mem_singleton.mp hbelow]
      refine ⟨rfl, Nat.le_refl e.start, ?_⟩
      change e.start + min e.len (lo - e.start) ≤ e.start + e.len
      omega
    · cases hbelow
  · split at habove
    · rename_i hend
      rw [List.mem_singleton.mp habove]
      refine ⟨rfl, Nat.le_max_left e.start hi, ?_⟩
      change max e.start hi + (e.start + e.len - max e.start hi) ≤ e.start + e.len
      omega
    · cases habove

theorem MapEntry.eq_of_mem_minus (hle : lo ≤ hi) (happart : Apart e.start e.len lo hi)
    (hx : x ∈ e.minus lo hi) : x = e := by
  unfold Apart at happart
  unfold MapEntry.minus at hx
  rcases List.mem_append.mp hx with hbelow | habove
  · split at hbelow
    · have hmin : min e.len (lo - e.start) = e.len := by omega
      rw [List.mem_singleton.mp hbelow, hmin]
    · cases hbelow
  · split at habove
    · have hmax : max e.start hi = e.start := by omega
      rw [List.mem_singleton.mp habove, hmax, Nat.add_sub_cancel_left]
    · cases habove

theorem MapEntry.minus_of_within (hwithin : Within e.start e.len lo hi) : e.minus lo hi = [] := by
  unfold MapEntry.minus
  rw [if_neg (Nat.not_lt.mpr hwithin.1), if_neg (Nat.not_lt.mpr hwithin.2), List.append_nil]

theorem mem_vmMapRemove_iff :
    x ∈ vmMapRemove entries pid lo hi ↔
      ∃ e ∈ entries, (e.pid = pid ∧ x ∈ e.minus lo hi) ∨ (e.pid ≠ pid ∧ x = e) := by
  unfold vmMapRemove
  rw [List.mem_flatMap]
  refine exists_congr fun e => and_congr_right fun _ => ?_
  by_cases hpid : e.pid = pid
  · simp [hpid]
  · simp [hpid]

theorem within_of_mem_vmMapRemove (hx : x ∈ vmMapRemove entries pid lo hi) :
    ∃ e ∈ entries, x.pid = e.pid ∧ Within x.start x.len e.start (e.start + e.len) := by
  obtain ⟨e, he, hcase⟩ := mem_vmMapRemove_iff.mp hx
  refine ⟨e, he, ?_⟩
  rcases hcase with ⟨-, hminus⟩ | ⟨-, rfl⟩
  · exact MapEntry.within_of_mem_minus hminus
  · exact ⟨rfl, Nat.le_refl _, Nat.le_refl _⟩

/-- Where no entry is cut, the entries afterwards are among those before. -/
theorem mem_of_mem_vmMapRemove (hle : lo ≤ hi)
    (hwhole : ∀ e ∈ entries, e.pid = pid → Within e.start e.len lo hi ∨ Apart e.start e.len lo hi)
    (hx : x ∈ vmMapRemove entries pid lo hi) : x ∈ entries := by
  obtain ⟨e, he, hcase⟩ := mem_vmMapRemove_iff.mp hx
  rcases hcase with ⟨hpid, hminus⟩ | ⟨-, rfl⟩
  · rcases hwhole e he hpid with hwithin | happart
    · rw [MapEntry.minus_of_within hwithin] at hminus
      cases hminus
    · rw [MapEntry.eq_of_mem_minus hle happart hminus]
      exact he
  · exact he

theorem mem_vmMapRemove_of_ne (he : e ∈ entries) (hpid : e.pid ≠ pid) :
    e ∈ vmMapRemove entries pid lo hi :=
  mem_vmMapRemove_iff.mpr ⟨e, he, Or.inr ⟨hpid, rfl⟩⟩

end Remove

/-! ## Watched ranges -/

/-- A range of a process that holds a mapping of the region exactly, or nothing. -/
structure Tidy (entries others : List MapEntry) (pid : Nat) (type : Int) (start len : Nat) :
    Prop where
  others : FreeIn others pid start len
  entries : ∀ e ∈ entries, e.pid = pid →
    (e.type = type ∧ e.start = start ∧ e.len = len) ∨ Apart e.start e.len start (start + len)

section Tidy

variable {entries entries' others others' : List MapEntry} {pid : Nat} {type : Int}
  {start len : Nat}

/-- It stays so when mappings of regions go and other memory shrinks. -/
theorem Tidy.mono (htidy : Tidy entries others pid type start len)
    (hentries : ∀ e ∈ entries', e.pid = pid → e ∈ entries)
    (hothers : ∀ x ∈ others', x.pid = pid →
      ∃ o ∈ others, x.pid = o.pid ∧ Within x.start x.len o.start (o.start + o.len)) :
    Tidy entries' others' pid type start len where
  others := by
    intro x hx hpid
    obtain ⟨o, ho, hsame, hwithin⟩ := hothers x hx hpid
    exact (htidy.others o ho (hsame.symm.trans hpid)).of_within hwithin
  entries := fun e he hpid => htidy.entries e (hentries e he hpid) hpid

/-- Something readable at its address is the mapping, unless the range is empty. -/
theorem Tidy.covered (htidy : Tidy entries others pid type start len)
    (hlookup : vmMapLookup (entries ++ others) pid start = true) :
    Covered entries pid type start (start + len) := by
  intro a hlo hhi
  obtain ⟨e, he, hfound⟩ := List.any_eq_true.mp hlookup
  simp only [Bool.and_eq_true, decide_eq_true_eq] at hfound
  obtain ⟨⟨⟨hpid, hstart⟩, hend⟩, -⟩ := hfound
  rcases List.mem_append.mp he with hdevice | hother
  · rcases htidy.entries e hdevice hpid with ⟨htype, hs, hl⟩ | happart
    · exact ⟨e, hdevice, hpid, htype, by omega, by omega⟩
    · -- the entry holds the first address of the range and so is not apart from it
      unfold Apart at happart
      omega
  · have happart := htidy.others e hother hpid
    unfold Apart at happart
    omega

end Tidy

end Capio
end SfcCapio
