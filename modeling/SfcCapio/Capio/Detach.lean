import SfcCapio.Capio.Revocation

/-!
# Detach against live mappings

`sfc7120_fbsd_detach` marks the device as dying, takes the callback and the character
device away, stops the hardware, and then frees the DMA memory, the BAR and the locks.
`destroy_dev` waits for the threads that are inside a method of the device.  It does
not wait for mappings: a pager object lives as long as a map entry refers to it, and
its fault handler and destructor use all that is being freed.

There is a second way to keep an object alive.  `capio_mmap_single_extra` asks
`is_dying` again after it has allocated the object, and then fails the request; the
comment there says that the object is released, but its reference is never given up.

`detachStep` puts the steps of `mapStep` between those of detach.  A call is inside
the method until it returns its object to modmap, which enters it into the map of the
process afterwards.
-/

namespace SfcCapio
namespace Capio

open Foundation

/-- How far `sfc7120_fbsd_detach` has come. -/
inductive DetachPhase
  /-- It has not been called. -/
  | attached
  /-- `dying` is set. -/
  | dying
  /-- The callback is unregistered. -/
  | unregistered
  /-- `destroy_dev` has returned. -/
  | destroyed
  /-- Interrupts and firmware queues are torn down. -/
  | stopped
  /-- The rings and buffers are freed. -/
  | dmaFreed
  /-- The BAR is released. -/
  | barReleased
  /-- `capio_destroy` has destroyed `cap_mtx`. -/
  | locksDestroyed
deriving DecidableEq, Repr

namespace DetachPhase

/-- What `is_dying` answers. -/
def isDying (phase : DetachPhase) : Bool := phase ≠ .attached

/-- modmap still calls back. -/
def Registered (phase : DetachPhase) : Prop := phase = .attached ∨ phase = .dying

/-- The character device exists. -/
def HasCdev (phase : DetachPhase) : Prop := phase.Registered ∨ phase = .unregistered

instance (phase : DetachPhase) : Decidable phase.Registered :=
  inferInstanceAs (Decidable (_ ∨ _))

instance (phase : DetachPhase) : Decidable phase.HasCdev :=
  inferInstanceAs (Decidable (_ ∨ _))

end DetachPhase

/-- The device, its mappings and its detach.  `handed` are the objects that
`capio_mmap_single_extra` has returned, `threads` those that have entered a method of
the device. -/
structure DetachSys (Cap Key : Type*) where
  map : MapSys Cap Key
  phase : DetachPhase
  handed : List Nat
  threads : List Nat

/-- A step of the mappings, the second look at `is_dying`, the end of a call that is
not called back any more, `munmap` or the end of a process, or the next step of
detach. -/
inductive DetachLabel (Cap : Type*)
  | map (l : MapLabel Cap)
  | recheck (tid : Nat)
  | noCallback (tid : Nat)
  | unmap (pid lo hi : Nat)
  | detach

/-- Whether a call in this phase is inside the method. -/
def MmapPhase.inMethod (handed : List Nat) : MmapPhase → Bool
  | .admitted => true
  | .found => true
  | .built object => object ∉ handed
  | .entered _ => false

/-- The thread that enters a method of the device with this step. -/
def MapLabel.entering {Cap : Type*} : MapLabel Cap → Option Nat
  | .mmapAdmit tid _ _ _ _ _ _ => some tid
  | .goodbye tid _ _ => some tid
  | .close tid _ => some tid
  | _ => none

namespace DetachSys

variable {Cap Key : Type*}

/-- The thread is inside a method of the device. -/
def Inside (s : DetachSys Cap Key) (tid : Nat) : Prop :=
  (∃ c ∈ s.map.mmaps tid, c.phase.inMethod s.handed = true) ∨ (s.map.revokes tid).isSome

instance (s : DetachSys Cap Key) (tid : Nat) : Decidable (s.Inside tid) :=
  inferInstanceAs (Decidable (_ ∨ _))

/-- What detach leaves possible: methods need the character device, `is_dying` tells
the truth, and modmap acts on an object it has been given. -/
def Allows (s : DetachSys Cap Key) : MapLabel Cap → Prop
  | .attach _ => s.phase.HasCdev
  | .goodbye _ _ _ => s.phase.HasCdev
  | .close _ _ => s.phase.HasCdev
  | .mmapAdmit _ _ dying _ _ _ _ => s.phase.HasCdev ∧ dying = s.phase.isDying
  | .mmapEnter tid _ => ∃ c ∈ s.map.mmaps tid, c.phase.inMethod s.handed = false
  | .mmapFail tid =>
    ∀ c ∈ s.map.mmaps tid, c.phase.inMethod s.handed = true → c.phase = .found
  | .mmapCallback _ => s.phase.Registered
  | _ => True

instance (s : DetachSys Cap Key) (l : MapLabel Cap) : Decidable (s.Allows l) :=
  match l with
  | .attach _ => inferInstanceAs (Decidable s.phase.HasCdev)
  | .goodbye _ _ _ => inferInstanceAs (Decidable s.phase.HasCdev)
  | .close _ _ => inferInstanceAs (Decidable s.phase.HasCdev)
  | .mmapAdmit _ _ _ _ _ _ _ => inferInstanceAs (Decidable (_ ∧ _))
  | .mmapEnter tid _ =>
    inferInstanceAs (Decidable (∃ c ∈ s.map.mmaps tid, c.phase.inMethod s.handed = false))
  | .mmapFail tid =>
    inferInstanceAs (Decidable
      (∀ c ∈ s.map.mmaps tid, c.phase.inMethod s.handed = true → c.phase = .found))
  | .mmapCallback _ => inferInstanceAs (Decidable s.phase.Registered)
  | .mmapFind _ => isTrue trivial
  | .mmapBuild _ => isTrue trivial
  | .revokeClear _ => isTrue trivial
  | .revokeNext _ => isTrue trivial
  | .revokeDelete _ => isTrue trivial
  | .revokeForget _ => isTrue trivial
  | .fork _ _ => isTrue trivial
  | .dtor _ => isTrue trivial

/-- The end of `capio_mmap_single_extra`.  If the device is dying the call fails, and
nothing refers to the object any more except the reference it was born with. -/
def recheckStep (s : DetachSys Cap Key) (tid : Nat) : MmapPhase → Option (DetachSys Cap Key)
  | .built object =>
    if object ∈ s.handed then none
    else if s.phase.isDying then some { s with map := s.map.setMmap tid none }
    else some { s with handed := object :: s.handed }
  | _ => none

/-- modmap has entered the object and finds no callback. -/
def noCallbackStep (s : DetachSys Cap Key) (tid : Nat) : MmapPhase → Option (DetachSys Cap Key)
  | .entered _ =>
    if s.phase.Registered then none else some { s with map := s.map.setMmap tid none }
  | _ => none

/-- The steps of `sfc7120_fbsd_detach`.  `destroy_dev` returns when no thread is inside
a method. -/
def detachNext (s : DetachSys Cap Key) : Option (DetachSys Cap Key) :=
  match s.phase with
  | .attached => some { s with phase := .dying }
  | .dying => some { s with phase := .unregistered }
  | .unregistered =>
    if ∀ tid ∈ s.threads, ¬ s.Inside tid then some { s with phase := .destroyed } else none
  | .destroyed => some { s with phase := .stopped }
  | .stopped => some { s with phase := .dmaFreed }
  | .dmaFreed => some { s with phase := .barReleased }
  | .barReleased => some { s with phase := .locksDestroyed }
  | .locksDestroyed => none

end DetachSys

section System

variable {Cap Key : Type*} [DecidableEq Cap] (ch : Sealing Cap Key) (bufferSize : Int → Nat)

/-- The system. -/
def detachStep (s : DetachSys Cap Key) : DetachLabel Cap → Option (DetachSys Cap Key)
  | .map l =>
    if s.Allows l then
      (mapStep ch bufferSize s.map l).map fun m =>
        { s with map := m, threads := l.entering.toList ++ s.threads }
    else none
  | .recheck tid => (s.map.mmaps tid).bind fun c => s.recheckStep tid c.phase
  | .noCallback tid => (s.map.mmaps tid).bind fun c => s.noCallbackStep tid c.phase
  | .unmap pid lo hi =>
    some { s with map := { s.map with entries := vmMapRemove s.map.entries pid lo hi } }
  | .detach => s.detachNext

/-- An attached device without mappings. -/
structure DetachStart (createSealingKey : Nat → Key) (s : DetachSys Cap Key) : Prop where
  map : MapStart ch bufferSize createSealingKey s.map
  phase : s.phase = .attached

end System

variable {Cap Key : Type*}

/-- Detach frees memory, BAR and locks only when no pager object is live. -/
def FreesNothingLive (s : DetachSys Cap Key) : DetachLabel Cap → Prop
  | .detach =>
    s.phase = .stopped ∨ s.phase = .dmaFreed ∨ s.phase = .barReleased → s.map.objects = []
  | _ => True

/-- No pager object is live when `destroy_dev` returns. -/
def UnmappedBefore (s : DetachSys Cap Key) : DetachLabel Cap → Prop
  | .detach => s.phase = .unregistered → s.map.objects = []
  | _ => True

/-- What the callers must have done.

* A call that has built its object takes its second look before detach begins.
* When `destroy_dev` returns, every mapping is unmapped, no object is on its way into a
  map, and the kernel has destroyed the objects that nothing refers to. -/
def CallersDone (s : DetachSys Cap Key) : DetachLabel Cap → Prop
  | .recheck _ => s.phase.isDying = false
  | .detach =>
    s.phase = .unregistered →
      s.map.entries = [] ∧
        (∀ tid c object, s.map.mmaps tid = some c → c.phase ≠ .built object) ∧
          ∀ o ∈ s.map.objects, ¬ s.map.Unreferenced o
  | _ => True

/-! ## What the steps can do -/

section Steps

variable {ch : Sealing Cap Key} {bufferSize : Int → Nat} {s s' : MapSys Cap Key}
  {l : MapLabel Cap}

theorem inMethod_mapCase {handed : List Nat} {tid : Nat} {c' : MmapCall}
    (hcase : MapCase ch bufferSize s l s') (hcall' : s'.mmaps tid = some c')
    (hin : c'.phase.inMethod handed = true) :
    (∃ c ∈ s.mmaps tid, c.phase.inMethod handed = true) ∨ l.entering = some tid := by
  cases hcase with
  | admitted tid₀ pid dying req nprot offset size hidle hbuffer =>
    rcases update_eq_some hcall' with ⟨rfl, -⟩ | ⟨-, hold⟩
    · exact Or.inr rfl
    · exact Or.inl ⟨c', hold, hin⟩
  | find tid₀ c found hcall hphase hfind =>
    rcases update_eq_some hcall' with ⟨rfl, -⟩ | ⟨-, hold⟩
    · exact Or.inl ⟨c, hcall, by rw [hphase]; rfl⟩
    · exact Or.inl ⟨c', hold, hin⟩
  | leave tid₀ c hcall hphase =>
    rcases update_eq_some hcall' with ⟨-, hnone⟩ | ⟨-, hold⟩
    · cases hnone
    · exact Or.inl ⟨c', hold, hin⟩
  | build tid₀ c hcall hphase =>
    rcases update_eq_some hcall' with ⟨rfl, -⟩ | ⟨-, hold⟩
    · exact Or.inl ⟨c, hcall, by rw [hphase]; rfl⟩
    · exact Or.inl ⟨c', hold, hin⟩
  | drop tid₀ c object hcall hphase =>
    rcases update_eq_some hcall' with ⟨-, hnone⟩ | ⟨-, hold⟩
    · cases hnone
    · exact Or.inl ⟨c', hold, hin⟩
  | enter tid₀ vaddr c object hcall hphase hvaddr hsize hfree =>
    rcases update_eq_some hcall' with ⟨-, hnew⟩ | ⟨-, hold⟩
    · obtain rfl := Option.some.inj hnew
      cases hin
    · exact Or.inl ⟨c', hold, hin⟩
  | callback tid₀ c vaddr hcall hphase =>
    rcases update_eq_some hcall' with ⟨-, hnone⟩ | ⟨-, hold⟩
    · cases hnone
    · exact Or.inl ⟨c', hold, hin⟩
  | _ => exact Or.inl ⟨c', hcall', hin⟩

theorem objects_mapCase (hcase : MapCase ch bufferSize s l s') (hnil : s.objects = [])
    (hnone : ∀ tid c, s.mmaps tid = some c → c.phase ≠ .found) : s'.objects = [] := by
  cases hcase with
  | build tid c hcall hphase => exact absurd hphase (hnone tid c hcall)
  | drop tid c object hcall hphase =>
    change s.objects.map _ = []
    rw [hnil, List.map_nil]
  | enter tid vaddr c object hcall hphase hvaddr hsize hfree =>
    change s.objects.map _ = []
    rw [hnil, List.map_nil]
  | dtor o hmem hunref =>
    rw [hnil] at hmem
    cases hmem
  | _ => exact hnil

theorem isSome_of_update {α : Type*} {m : Nat → Option α} {tid tid₀ : Nat} {c : α} {x : Option α}
    (hcall : m tid₀ = some c) (hnew : (Function.update m tid₀ x tid).isSome) :
    (m tid).isSome := by
  by_cases htid : tid = tid₀
  · rw [htid, hcall]
    rfl
  · rwa [Function.update_of_ne htid] at hnew

theorem revokes_mapCase {tid : Nat} (hcase : MapCase ch bufferSize s l s')
    (hcall' : (s'.revokes tid).isSome) : (s.revokes tid).isSome ∨ l.entering = some tid := by
  cases hcase with
  | begin tid₀ pid hbegins hidle =>
    by_cases htid : tid = tid₀
    · subst htid
      refine Or.inr ?_
      rcases hbegins with ⟨sealedCap, rfl⟩ | rfl
      · rfl
      · rfl
    · exact Or.inl ((Function.update_of_ne htid _ s.revokes) ▸ hcall')
  | clear tid₀ c hcall => exact Or.inl (isSome_of_update hcall hcall')
  | read tid₀ c i smem hcall => exact Or.inl (isSome_of_update hcall hcall')
  | skip tid₀ c i smem hcall => exact Or.inl (isSome_of_update hcall hcall')
  | finish tid₀ c i hcall => exact Or.inl (isSome_of_update hcall hcall')
  | delete tid₀ c i smem hcall => exact Or.inl (isSome_of_update hcall hcall')
  | forget tid₀ c i hcall => exact Or.inl (isSome_of_update hcall hcall')
  | _ => exact Or.inl hcall'

end Steps

/-! ## The invariant -/

/-- `destroy_dev` has returned. -/
def DetachSys.Gone (s : DetachSys Cap Key) : Prop := ¬ s.phase.HasCdev

/-- The threads inside a method are among those that entered one; after `destroy_dev`
there are none, and no object is live. -/
structure DetachInv (s : DetachSys Cap Key) : Prop where
  threads : ∀ tid, s.Inside tid → tid ∈ s.threads
  outside : s.Gone → ∀ tid, ¬ s.Inside tid
  unmapped : s.Gone → s.map.objects = []

variable {ch : Sealing Cap Key} {bufferSize : Int → Nat} {s s' : DetachSys Cap Key}
  {phase : MmapPhase} {tid : Nat}

theorem detachInv_start [DecidableEq Cap] {createSealingKey : Nat → Key}
    (hstart : DetachStart ch bufferSize createSealingKey s) : DetachInv s := by
  have hnone : ∀ tid, ¬ s.Inside tid := by
    rintro tid (⟨c, hc, -⟩ | hrevoke)
    · rw [hstart.map.mmaps] at hc
      cases hc
    · rw [hstart.map.revokes] at hrevoke
      cases hrevoke
  exact
    { threads := fun tid hin => absurd hin (hnone tid)
      outside := fun _ => hnone
      unmapped := fun _ => hstart.map.objects }

theorem detachInv_map [DecidableEq Cap] {l : MapLabel Cap} {m : MapSys Cap Key} (hinv : DetachInv s)
    (hallows : s.Allows l) (hstep : mapStep ch bufferSize s.map l = some m) :
    DetachInv { s with map := m, threads := l.entering.toList ++ s.threads } := by
  have hcase := mapCase_mapStep hstep
  have hinside : ∀ tid,
      DetachSys.Inside { s with map := m, threads := l.entering.toList ++ s.threads } tid →
        s.Inside tid ∨ l.entering = some tid := by
    rintro tid (⟨c', hcall', hin⟩ | hrevoke)
    · rcases inMethod_mapCase hcase hcall' hin with hold | hentering
      · exact Or.inl (Or.inl hold)
      · exact Or.inr hentering
    · rcases revokes_mapCase hcase hrevoke with hold | hentering
      · exact Or.inl (Or.inr hold)
      · exact Or.inr hentering
  -- whoever enters a method needs the character device
  have hgone : s.Gone → ∀ tid, l.entering ≠ some tid := by
    intro hgone tid hentering
    cases l with
    | mmapAdmit tid₀ pid dying req nprot offset size => exact hgone hallows.1
    | goodbye tid₀ pid sealedCap => exact hgone hallows
    | close tid₀ pid => exact hgone hallows
    | _ => cases hentering
  refine { threads := ?_, outside := ?_, unmapped := ?_ }
  · intro tid hin
    rcases hinside tid hin with hold | hentering
    · exact List.mem_append_right _ (hinv.threads tid hold)
    · rw [hentering]
      exact List.mem_cons_self
  · intro hg tid hin
    rcases hinside tid hin with hold | hentering
    · exact hinv.outside hg tid hold
    · exact hgone hg tid hentering
  · intro hg
    apply objects_mapCase hcase (hinv.unmapped hg)
    intro tid c hcall hphase
    apply hinv.outside hg tid
    exact Or.inl ⟨c, hcall, by rw [hphase]; rfl⟩

/-- A call that ends, or whose object has been handed over, is not inside any more. -/
theorem inMethod_cons {handed : List Nat} {object : Nat}
    (hin : phase.inMethod (object :: handed) = true) : phase.inMethod handed = true := by
  cases phase with
  | built object' =>
    simp only [MmapPhase.inMethod, decide_eq_true_eq, List.mem_cons, not_or] at hin ⊢
    exact hin.2
  | _ => exact hin

theorem inside_setMmap_none {tid tid' : Nat}
    (hin : DetachSys.Inside { s with map := s.map.setMmap tid none } tid') : s.Inside tid' := by
  rcases hin with ⟨c, hcall, hin⟩ | hrevoke
  · rcases update_eq_some hcall with ⟨-, hnone⟩ | ⟨-, hold⟩
    · cases hnone
    · exact Or.inl ⟨c, hold, hin⟩
  · exact Or.inr hrevoke

theorem DetachInv.shrink (hinv : DetachInv s) (hphase : s'.phase = s.phase)
    (hthreads : s'.threads = s.threads) (hobjects : s'.map.objects = s.map.objects)
    (hinside : ∀ tid, s'.Inside tid → s.Inside tid) : DetachInv s' where
  threads := by
    intro tid hin
    rw [hthreads]
    exact hinv.threads tid (hinside tid hin)
  outside := by
    intro hgone tid hin
    rw [DetachSys.Gone, hphase] at hgone
    exact hinv.outside hgone tid (hinside tid hin)
  unmapped := by
    intro hgone
    rw [DetachSys.Gone, hphase] at hgone
    rw [hobjects]
    exact hinv.unmapped hgone

theorem detachInv_recheck (hinv : DetachInv s)
    (hstep : s.recheckStep tid phase = some s') : DetachInv s' := by
  unfold DetachSys.recheckStep at hstep
  split at hstep
  · split at hstep
    · cases hstep
    · split at hstep
      · cases hstep
        exact hinv.shrink rfl rfl rfl fun _ => inside_setMmap_none
      · cases hstep
        refine hinv.shrink rfl rfl rfl ?_
        rintro tid' (⟨c, hcall, hin⟩ | hrevoke)
        · exact Or.inl ⟨c, hcall, inMethod_cons hin⟩
        · exact Or.inr hrevoke
  · cases hstep

theorem detachInv_noCallback (hinv : DetachInv s)
    (hstep : s.noCallbackStep tid phase = some s') : DetachInv s' := by
  unfold DetachSys.noCallbackStep at hstep
  split at hstep
  · split at hstep
    · cases hstep
    · cases hstep
      exact hinv.shrink rfl rfl rfl fun _ => inside_setMmap_none
  · cases hstep

theorem detachInv_next (hinv : DetachInv s) (hguard : UnmappedBefore s .detach)
    (hstep : s.detachNext = some s') : DetachInv s' := by
  -- a step that keeps the character device, or was without it already
  have hkeep : ∀ phase : DetachPhase, (¬ phase.HasCdev → s.Gone) →
      DetachInv { s with phase := phase } := by
    intro phase hback
    exact
      { threads := hinv.threads
        outside := fun hgone => hinv.outside (hback hgone)
        unmapped := fun hgone => hinv.unmapped (hback hgone) }
  unfold DetachSys.detachNext at hstep
  split at hstep
  · cases hstep
    exact hkeep .dying fun hno => absurd (by decide) hno
  · cases hstep
    exact hkeep .unregistered fun hno => absurd (by decide) hno
  · rename_i hphase
    split at hstep
    · rename_i hwaited
      cases hstep
      have hout : ∀ tid, ¬ s.Inside tid := by
        intro tid hin
        exact hwaited tid (hinv.threads tid hin) hin
      exact
        { threads := hinv.threads
          outside := fun _ => hout
          unmapped := fun _ => hguard hphase }
    · cases hstep
  · rename_i hphase
    cases hstep
    exact hkeep .stopped fun _ => by rw [DetachSys.Gone, hphase]; decide
  · rename_i hphase
    cases hstep
    exact hkeep .dmaFreed fun _ => by rw [DetachSys.Gone, hphase]; decide
  · rename_i hphase
    cases hstep
    exact hkeep .barReleased fun _ => by rw [DetachSys.Gone, hphase]; decide
  · rename_i hphase
    cases hstep
    exact hkeep .locksDestroyed fun _ => by rw [DetachSys.Gone, hphase]; decide
  · cases hstep

theorem detachInv_step [DecidableEq Cap] (s : DetachSys Cap Key) (l : DetachLabel Cap)
    (s' : DetachSys Cap Key) (hinv : DetachInv s) (hguard : UnmappedBefore s l)
    (hstep : detachStep ch bufferSize s l = some s') :
    DetachInv s' := by
  cases l with
  | map l =>
    simp only [detachStep] at hstep
    split at hstep
    · rename_i hallows
      obtain ⟨m, hm, rfl⟩ := Option.map_eq_some_iff.mp hstep
      exact detachInv_map hinv hallows hm
    · cases hstep
  | recheck tid =>
    obtain ⟨c, -, hc⟩ := Option.bind_eq_some_iff.mp hstep
    exact detachInv_recheck hinv hc
  | noCallback tid =>
    obtain ⟨c, -, hc⟩ := Option.bind_eq_some_iff.mp hstep
    exact detachInv_noCallback hinv hc
  | unmap pid lo hi =>
    obtain rfl := Option.some.inj hstep
    exact hinv.shrink rfl rfl rfl fun _ hin => hin
  | detach => exact detachInv_next hinv hguard hstep

/-! ## References of calls -/

/-- The reference an object is born with is held by the call that has built it. -/
def MapSys.Held (s : MapSys Cap Key) : Prop :=
  ∀ o ∈ s.objects, o.inCall = true →
    ∃ tid c, s.mmaps tid = some c ∧ c.phase = .built o.id ∧ c.mapType = o.type

section References

variable {ch : Sealing Cap Key} {bufferSize : Int → Nat} {s s' : MapSys Cap Key}
  {l : MapLabel Cap}

theorem MapSys.Held.setMmap (hheld : s.Held) {tid : Nat} (call : Option MmapCall)
    (hold : ∀ c object, s.mmaps tid = some c → c.phase ≠ .built object) :
    (s.setMmap tid call).Held := by
  intro o ho hin
  obtain ⟨tid', c, hcall, hphase, htype⟩ := hheld o ho hin
  have hne : tid' ≠ tid := by
    rintro rfl
    exact hold c o.id hcall hphase
  exact ⟨tid', c, (Function.update_of_ne hne _ _).trans hcall, hphase, htype⟩

theorem MapSys.Held.letGo (hheld : s.Held) {tid object : Nat} {c : MmapCall}
    (call : Option MmapCall) (hcall : s.mmaps tid = some c) (hphase : c.phase = .built object) :
    MapSys.Held { s.setMmap tid call with objects := s.letGo object c.mapType } := by
  intro o' ho' hin
  obtain ⟨o, ho, -, -, -, heq⟩ := letGo_cases ho'
  split at heq
  · rw [heq] at hin
    cases hin
  · rename_i hother
    subst heq
    obtain ⟨tid', c', hcall', hphase', htype'⟩ := hheld o' ho hin
    have hne : tid' ≠ tid := by
      rintro rfl
      cases hcall.symm.trans hcall'
      cases hphase.symm.trans hphase'
      exact hother ⟨rfl, htype'.symm⟩
    exact ⟨tid', c', (Function.update_of_ne hne _ _).trans hcall', hphase', htype'⟩

theorem MapSys.Held.build (hheld : s.Held) {tid : Nat} {c : MmapCall}
    (hcall : s.mmaps tid = some c) (hphase : c.phase = .found) (sc : CapioSoftc Cap Key) :
    MapSys.Held
      { s.setMmap tid (some { c with phase := .built s.nextObject }) with
        sc := sc
        objects := s.objects ++ [{ id := s.nextObject, type := c.mapType, inCall := true }]
        nextObject := s.nextObject + 1 } := by
  intro o ho hin
  rcases List.mem_append.mp ho with hold | hnew
  · refine hheld.setMmap _ ?_ o hold hin
    intro c' object hc'
    cases hcall.symm.trans hc'
    rw [hphase]
    exact nofun
  · rw [List.mem_singleton.mp hnew]
    exact ⟨tid, _, Function.update_self .., rfl, rfl⟩

theorem held_mapCase (hheld : s.Held) (hcase : MapCase ch bufferSize s l s') : s'.Held := by
  cases hcase with
  | admitted tid pid dying req nprot offset size hidle =>
    refine hheld.setMmap _ ?_
    intro c object hc
    rw [hidle] at hc
    cases hc
  | find tid c found hcall hphase =>
    refine hheld.setMmap _ ?_
    intro c' object hc'
    cases hcall.symm.trans hc'
    rw [hphase]
    exact nofun
  | leave tid c hcall hphase =>
    refine hheld.setMmap _ ?_
    intro c' object hc'
    cases hcall.symm.trans hc'
    rcases hphase with hphase | hphase
    · rw [hphase]
      exact nofun
    · rw [hphase]
      exact nofun
  | build tid c hcall hphase => exact hheld.build hcall hphase _
  | drop tid c object hcall hphase => exact hheld.letGo none hcall hphase
  | enter tid vaddr c object hcall hphase => exact hheld.letGo _ hcall hphase
  | callback tid c vaddr hcall hphase =>
    refine hheld.setMmap none ?_
    intro c' object hc'
    cases hcall.symm.trans hc'
    rw [hphase]
    exact nofun
  | dtor o hmem hunref => exact fun o' ho' => hheld o' (List.mem_filter.mp ho').1
  | _ => exact hheld

end References

theorem map_detachNext {s s' : DetachSys Cap Key} (hstep : s.detachNext = some s') :
    s'.map = s.map := by
  cases hphase : s.phase with
  | unregistered =>
    simp only [DetachSys.detachNext, hphase] at hstep
    split at hstep
    · cases hstep
      rfl
    · cases hstep
  | locksDestroyed => simp [DetachSys.detachNext, hphase] at hstep
  | _ =>
    simp only [DetachSys.detachNext, hphase] at hstep
    cases hstep
    rfl

/-- A call leaves its object behind only where it takes its second look on a dying
device. -/
theorem held_step [DecidableEq Cap] {ch : Sealing Cap Key} {bufferSize : Int → Nat}
    (s : DetachSys Cap Key) (l : DetachLabel Cap) (s' : DetachSys Cap Key) (hheld : s.map.Held)
    (hguard : CallersDone s l) (hstep : detachStep ch bufferSize s l = some s') : s'.map.Held := by
  cases l with
  | map l =>
    simp only [detachStep] at hstep
    split at hstep
    · obtain ⟨m, hm, rfl⟩ := Option.map_eq_some_iff.mp hstep
      exact held_mapCase hheld (mapCase_mapStep hm)
    · cases hstep
  | recheck tid =>
    obtain ⟨c, -, hc⟩ := Option.bind_eq_some_iff.mp hstep
    have halive : s.phase.isDying = false := hguard
    unfold DetachSys.recheckStep at hc
    split at hc
    · simp only [halive, Bool.false_eq_true, if_false] at hc
      split at hc
      · cases hc
      · cases hc
        exact hheld
    · cases hc
  | noCallback tid =>
    obtain ⟨c, hcall, hc⟩ := Option.bind_eq_some_iff.mp hstep
    unfold DetachSys.noCallbackStep at hc
    split at hc
    · rename_i vaddr hphase
      split at hc
      · cases hc
      · cases hc
        refine hheld.setMmap none ?_
        intro c' object hc'
        cases hcall.symm.trans hc'
        rw [hphase]
        exact nofun
    · cases hc
  | unmap pid lo hi =>
    cases hstep
    exact hheld
  | detach =>
    rw [map_detachNext hstep]
    exact hheld

/-- Where nothing is mapped, no call holds an object and no destructor is due, there is no
object. -/
theorem MapSys.Held.objects_eq_nil {s : MapSys Cap Key} (hheld : s.Held)
    (hentries : s.entries = [])
    (hcalls : ∀ tid c object, s.mmaps tid = some c → c.phase ≠ .built object)
    (hdtors : ∀ o ∈ s.objects, ¬ s.Unreferenced o) : s.objects = [] := by
  refine List.eq_nil_iff_forall_not_mem.mpr ?_
  intro o ho
  cases hin : o.inCall with
  | true =>
    obtain ⟨tid, c, hcall, hphase, -⟩ := hheld o ho hin
    exact hcalls tid c o.id hcall hphase
  | false =>
    refine hdtors o ho ⟨hin, ?_⟩
    rw [hentries]
    exact nofun

/-! ## The result -/

/-- If no pager object is live when `destroy_dev` returns, none is live when detach
frees the memory behind the regions, the BAR and the locks.  None is live then if the
callers have done what they must. -/
theorem detach_frees_nothing_live [DecidableEq Cap] {ch : Sealing Cap Key}
    {bufferSize : Int → Nat} {createSealingKey : Nat → Key} {s : DetachSys Cap Key}
    {labels : List (DetachLabel Cap)} (hstart : DetachStart ch bufferSize createSealingKey s) :
    (Obeys (detachStep ch bufferSize) UnmappedBefore s labels →
      Obeys (detachStep ch bufferSize) FreesNothingLive s labels) ∧
      (Obeys (detachStep ch bufferSize) CallersDone s labels →
        Obeys (detachStep ch bufferSize) UnmappedBefore s labels) := by
  constructor
  · refine Obeys.imp detachInv_step ?_ (detachInv_start hstart)
    intro s l hinv _
    cases l with
    | detach =>
      intro hphase
      apply hinv.unmapped
      rcases hphase with h | h | h
      · rw [DetachSys.Gone, h]
        decide
      · rw [DetachSys.Gone, h]
        decide
      · rw [DetachSys.Gone, h]
        decide
    | _ => trivial
  · have hheld : s.map.Held := by
      intro o ho
      rw [hstart.map.objects] at ho
      cases ho
    refine Obeys.imp held_step ?_ hheld
    intro s l hheld hdone
    cases l with
    | detach =>
      intro hphase
      obtain ⟨hentries, hcalls, hdtors⟩ := hdone hphase
      exact hheld.objects_eq_nil hentries hcalls hdtors
    | _ => trivial

/-! ## Runs -/

/-- The sample device, attached. -/
def sampleAttached : DetachSys SealedWord Nat where
  map := sampleDevice
  phase := .attached
  handed := []
  threads := []

theorem detachStart_sampleAttached :
    DetachStart SealedWord.sealing sampleSize id sampleAttached :=
  ⟨mapStart_sampleDevice, rfl⟩

/-- Process 10 attaches and builds an object for its region. -/
def sampleBuild : List (DetachLabel SealedWord) :=
  [.map sampleAttach, .map (sampleAdmit 1 true), .map (.mmapFind 1), .map (.mmapBuild 1)]

/-- It maps the region. -/
def sampleMapped : List (DetachLabel SealedWord) :=
  sampleBuild ++ [.recheck 1, .map (.mmapEnter 1 65536), .map (.mmapCallback 1)]

/-- It unmaps the region, and the object goes. -/
def sampleUnmapped : List (DetachLabel SealedWord) :=
  sampleMapped ++ [.unmap 10 65536 73728, .map (.dtor 0)]

theorem detach_after_unmap :
    DetachStart SealedWord.sealing sampleSize id sampleAttached ∧
      Obeys (detachStep SealedWord.sealing sampleSize) CallersDone sampleAttached
        (sampleUnmapped ++ List.replicate 7 .detach) ∧
      (∃ t, exec (detachStep SealedWord.sealing sampleSize) sampleAttached
        (sampleUnmapped ++ List.replicate 7 .detach) = some t ∧ t.phase = .locksDestroyed) ∧
      Obeys (detachStep SealedWord.sealing sampleSize) FreesNothingLive sampleAttached
        (sampleUnmapped ++ List.replicate 7 .detach) := by
  have hdone : Obeys (detachStep SealedWord.sealing sampleSize) CallersDone sampleAttached
      (sampleUnmapped ++ List.replicate 7 .detach) := by
    refine ⟨trivial, trivial, trivial, trivial, rfl, trivial, trivial, trivial, trivial,
      nofun, nofun, fun _ => ⟨rfl, ?_, nofun⟩, nofun, nofun, nofun, nofun, trivial⟩
    intro tid c object hc
    by_cases htid : tid = 1
    · subst htid
      cases hc
    · change Function.update (Function.update (Function.update (Function.update (Function.update
        (fun _ => none) 1 _) 1 _) 1 _) 1 _) 1 none tid = some c at hc
      simp only [Function.update_of_ne htid] at hc
      cases hc
  have hunmapped := (detach_frees_nothing_live detachStart_sampleAttached).2 hdone
  exact ⟨detachStart_sampleAttached, hdone, ⟨_, rfl, rfl⟩,
    (detach_frees_nothing_live detachStart_sampleAttached).1 hunmapped⟩

/-- Detach follows, up to the freeing of the DMA memory, and an object is live. -/
def FreesLive (run : List (DetachLabel SealedWord)) : Prop :=
  ¬ Obeys (detachStep SealedWord.sealing sampleSize) FreesNothingLive sampleAttached
      (run ++ [.detach]) ∧
    ∃ t, exec (detachStep SealedWord.sealing sampleSize) sampleAttached (run ++ [.detach]) =
      some t ∧ t.phase = .dmaFreed ∧ t.map.objects ≠ []

theorem freesLive_of_object {run : List (DetachLabel SealedWord)} {t : DetachSys SealedWord Nat}
    {o : PagerObject}
    (hrun : exec (detachStep SealedWord.sealing sampleSize) sampleAttached run = some t)
    (hphase : t.phase = .stopped) (hobjects : t.map.objects = [o]) : FreesLive run := by
  have hne : t.map.objects ≠ [] := by
    rw [hobjects]
    exact List.cons_ne_nil o []
  constructor
  · intro hobeys
    exact hne ((hobeys.of_append hrun).head (Or.inl hphase))
  · refine ⟨{ t with phase := .dmaFreed }, ?_, rfl, hne⟩
    apply exec_append hrun
    simp [exec, detachStep, DetachSys.detachNext, hphase]

/-- The process keeps its mapping. -/
def mappedRun : List (DetachLabel SealedWord) :=
  sampleMapped ++ [.detach, .detach, .detach, .detach]

/-- Detach begins while the process is in `capio_mmap_single_extra`. -/
def dyingRun : List (DetachLabel SealedWord) :=
  sampleBuild ++ [.detach, .recheck 1, .detach, .detach, .detach]

/-- The memory is freed under a mapping, and under an object that only the failed
request has left behind. -/
theorem detach_frees_live_object : FreesLive mappedRun ∧ FreesLive dyingRun :=
  ⟨freesLive_of_object rfl rfl rfl, freesLive_of_object rfl rfl rfl⟩

end Capio
end SfcCapio
