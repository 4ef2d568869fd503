import SfcCapio.Capio.Detach

/-!
# One pager object per region

`capio_mmap_single_extra` refuses a region whose `mapped` flag is set.  It looks at the
flag in the section in which it searches the regions; the flag is set by
`capio_pager_ctor`, in a later section that does not look at it, and cleared by
`capio_pager_dtor` in a third.  Two calls that have both passed the search build two
objects for one region, and the destructor of the first clears the flag under the
second.

The steps are those of `detachStep`, so calls that map, unmap, fork, revoke and detach
interleave freely.  `one_object_iff` says that the race is the only way to break the
exclusion.
-/

namespace SfcCapio
namespace Capio

open Foundation

variable {Cap Key : Type*}

/-! ## The exclusion -/

/-- The regions of this type are marked as mapped from the start, as the unsliced BAR is
when the ablation tunable is off. -/
def Premarked (start : DetachSys Cap Key) (type : Int) : Prop :=
  ∃ smem ∈ start.map.sc.sharedMemRegs, smem.type = type ∧ smem.mapped = true

instance (start : DetachSys Cap Key) (type : Int) : Decidable (Premarked start type) :=
  inferInstanceAs (Decidable (∃ smem ∈ start.map.sc.sharedMemRegs, _))

/-- The live pager objects of a type. -/
def MapSys.live (s : MapSys Cap Key) (type : Int) : List PagerObject :=
  s.objects.filter fun o => o.type = type

/-- Each region that is not pre-marked has at most one live object, and its flag says
whether it has one. -/
def OneObject (start s : DetachSys Cap Key) : Prop :=
  ∀ smem ∈ s.map.sc.sharedMemRegs, ¬ Premarked start smem.type →
    (s.map.live smem.type).length ≤ 1 ∧ (smem.mapped = true ↔ s.map.live smem.type ≠ [])

instance (start s : DetachSys Cap Key) : Decidable (OneObject start s) :=
  inferInstanceAs (Decidable (∀ smem ∈ s.map.sc.sharedMemRegs, _))

/-- A constructor that runs finds its region unmarked. -/
def BuildsUnmarked (start s : DetachSys Cap Key) : DetachLabel Cap → Prop
  | .map (.mmapBuild tid) =>
    ∀ c ∈ s.map.mmaps tid, ¬ Premarked start c.mapType →
      ∀ smem ∈ s.map.sc.sharedMemRegs, smem.type = c.mapType → smem.mapped = false
  | _ => True

instance (start s : DetachSys Cap Key) (l : DetachLabel Cap) :
    Decidable (BuildsUnmarked start s l) := by
  unfold BuildsUnmarked
  split
  · infer_instance
  · exact isTrue trivial

/-! ## What a step does to the flags and the objects -/

/-- The flags and the types of the objects are as before. -/
structure SameMarks (s s' : MapSys Cap Key) : Prop where
  marks : s'.sc.sharedMemRegs.map (fun smem => (smem.type, smem.mapped)) =
    s.sc.sharedMemRegs.map fun smem => (smem.type, smem.mapped)
  objects : s'.objects.map PagerObject.type = s.objects.map PagerObject.type

/-- The transitions as far as flags and objects go. -/
inductive MarkCase (s : MapSys Cap Key) : DetachLabel Cap → MapSys Cap Key → Prop
  | same {l : DetachLabel Cap} {s' : MapSys Cap Key} (hsame : SameMarks s s') : MarkCase s l s'
  | build {s' : MapSys Cap Key} (tid : Nat) (c : MmapCall) (hcall : s.mmaps tid = some c)
      (hregs : s'.sc.sharedMemRegs =
        onType c.mapType (fun smem => { smem with mapped := true }) s.sc.sharedMemRegs)
      (hobjects : s'.objects = s.objects ++ [⟨s.nextObject, c.mapType, true⟩]) :
      MarkCase s (.map (.mmapBuild tid)) s'
  | dtor {l : DetachLabel Cap} {s' : MapSys Cap Key} (o : PagerObject) (hmem : o ∈ s.objects)
      (hregs : s'.sc.sharedMemRegs =
        onType o.type (fun smem => { smem with mapped := false }) s.sc.sharedMemRegs)
      (hobjects : s'.objects = s.objects.filter fun o' => o' ≠ o) : MarkCase s l s'

theorem map_type_letGo (s : MapSys Cap Key) (object : Nat) (type : Int) :
    (s.letGo object type).map PagerObject.type = s.objects.map PagerObject.type := by
  rw [MapSys.letGo, List.map_map]
  refine List.map_congr_left ?_
  intro o _
  simp only [Function.comp_apply]
  split <;> rfl

section Steps

variable [DecidableEq Cap] {ch : Sealing Cap Key} {bufferSize : Int → Nat}

omit [DecidableEq Cap] in
theorem markCase_mapCase {s s' : MapSys Cap Key} {l : MapLabel Cap}
    (hcase : MapCase ch bufferSize s l s') : MarkCase s (.map l) s' := by
  cases hcase with
  | attach req hfree hset sc hregs => exact .same ⟨by rw [hregs], rfl⟩
  | build tid c hcall hphase => exact .build tid c hcall rfl rfl
  | drop tid c object hcall hphase => exact .same ⟨rfl, map_type_letGo s object c.mapType⟩
  | enter tid vaddr c object hcall hphase =>
    exact .same ⟨rfl, map_type_letGo s object c.mapType⟩
  | callback tid c vaddr hcall hphase =>
    refine .same ⟨?_, rfl⟩
    simp only [capioVaddrCallback]
    split
    · rfl
    · rename_i regs hrec
      exact map_recordVaddr (fun _ => rfl) hrec
  | forget tid c i hcall hphase =>
    refine .same ⟨map_modify ?_ i, rfl⟩
    intro smem
    rfl
  | dtor o hmem hunref => exact .dtor o hmem rfl rfl
  | _ => exact .same ⟨rfl, rfl⟩

theorem markCase_detachStep {s s' : DetachSys Cap Key} {l : DetachLabel Cap}
    (hstep : detachStep ch bufferSize s l = some s') : MarkCase s.map l s'.map := by
  cases l with
  | map l =>
    simp only [detachStep] at hstep
    split at hstep
    · obtain ⟨m, hm, rfl⟩ := Option.map_eq_some_iff.mp hstep
      exact markCase_mapCase (mapCase_mapStep hm)
    · cases hstep
  | recheck tid =>
    obtain ⟨c, -, hc⟩ := Option.bind_eq_some_iff.mp hstep
    unfold DetachSys.recheckStep at hc
    split at hc
    · split_ifs at hc
      · cases hc
        exact .same ⟨rfl, rfl⟩
      · cases hc
        exact .same ⟨rfl, rfl⟩
    · cases hc
  | noCallback tid =>
    obtain ⟨c, -, hc⟩ := Option.bind_eq_some_iff.mp hstep
    unfold DetachSys.noCallbackStep at hc
    split at hc
    · split_ifs at hc
      cases hc
      exact .same ⟨rfl, rfl⟩
    · cases hc
  | unmap pid lo hi =>
    cases hstep
    exact .same ⟨rfl, rfl⟩
  | detach =>
    rw [map_detachNext hstep]
    exact .same ⟨rfl, rfl⟩

end Steps

/-! ## The step lemmas -/

section Preservation

variable {start : DetachSys Cap Key} {s s' : DetachSys Cap Key}

theorem length_live (s : MapSys Cap Key) (type : Int) :
    (s.live type).length = (s.objects.map PagerObject.type).count type := by
  rw [MapSys.live, ← List.countP_eq_length_filter, List.count, List.countP_map]
  exact List.countP_congr fun o _ => by simp

theorem live_ne_nil_iff (s : MapSys Cap Key) (type : Int) :
    s.live type ≠ [] ↔ 0 < (s.objects.map PagerObject.type).count type := by
  rw [← length_live, List.length_pos_iff]

theorem oneObject_iff :
    OneObject start s ↔
      ∀ mark ∈ s.map.sc.sharedMemRegs.map fun smem => (smem.type, smem.mapped),
        ¬ Premarked start mark.1 →
          (s.map.objects.map PagerObject.type).count mark.1 ≤ 1 ∧
            (mark.2 = true ↔ 0 < (s.map.objects.map PagerObject.type).count mark.1) := by
  simp only [OneObject, length_live, live_ne_nil_iff, List.forall_mem_map]

theorem oneObject_same (hsame : SameMarks s.map s'.map) (hone : OneObject start s) :
    OneObject start s' := by
  rw [oneObject_iff] at hone ⊢
  rwa [hsame.marks, hsame.objects]

/-- A constructor that finds the flag clear gives the region its one object. -/
theorem oneObject_build {tid : Nat} {c : MmapCall} (hone : OneObject start s)
    (hcall : s.map.mmaps tid = some c)
    (hguard : BuildsUnmarked start s (.map (.mmapBuild tid)))
    (hregs : s'.map.sc.sharedMemRegs =
      onType c.mapType (fun smem => { smem with mapped := true }) s.map.sc.sharedMemRegs)
    (hobjects : s'.map.objects = s.map.objects ++ [⟨s.map.nextObject, c.mapType, true⟩]) :
    OneObject start s' := by
  intro smem' hsmem' hfree
  rw [hregs] at hsmem'
  obtain ⟨smem, hsmem, rfl⟩ := exists_of_mem_onType hsmem'
  by_cases htype : smem.type = c.mapType
  · -- the region had no object, and the new one is its only one
    rw [if_pos htype] at hfree ⊢
    have hclear : smem.mapped = false :=
      hguard c hcall (htype ▸ hfree) smem hsmem htype
    have hnone : s.map.live smem.type = [] := by
      by_contra hlive
      have hmarked := (hone smem hsmem hfree).2.mpr hlive
      rw [hclear] at hmarked
      cases hmarked
    have hlive : s'.map.live smem.type = [⟨s.map.nextObject, c.mapType, true⟩] := by
      rw [MapSys.live] at hnone ⊢
      rw [hobjects, List.filter_append, hnone]
      simp [htype]
    simp [hlive]
  · rw [if_neg htype] at hfree ⊢
    have hlive : s'.map.live smem.type = s.map.live smem.type := by
      rw [MapSys.live, MapSys.live, hobjects, List.filter_append]
      simp [Ne.symm htype]
    rw [hlive]
    exact hone smem hsmem hfree

/-- A destructor takes the one object of the region away. -/
theorem oneObject_dtor {o : PagerObject} (hone : OneObject start s) (hmem : o ∈ s.map.objects)
    (hregs : s'.map.sc.sharedMemRegs =
      onType o.type (fun smem => { smem with mapped := false }) s.map.sc.sharedMemRegs)
    (hobjects : s'.map.objects = s.map.objects.filter fun o' => o' ≠ o) :
    OneObject start s' := by
  intro smem' hsmem' hfree
  rw [hregs] at hsmem'
  obtain ⟨smem, hsmem, rfl⟩ := exists_of_mem_onType hsmem'
  have hlive : ∀ type, s'.map.live type = (s.map.live type).filter fun o' => o' ≠ o := by
    intro type
    rw [MapSys.live, MapSys.live, hobjects, List.filter_comm]
  by_cases htype : smem.type = o.type
  · -- with at most one object, the one destroyed is the only one
    rw [if_pos htype] at hfree ⊢
    obtain ⟨hle, -⟩ := hone smem hsmem hfree
    have ho : o ∈ s.map.live smem.type := List.mem_filter.mpr ⟨hmem, by simp [htype]⟩
    obtain ⟨x, hx⟩ := List.length_eq_one_iff.mp
      (Nat.le_antisymm hle (List.length_pos_of_mem ho))
    rw [hx, List.mem_singleton] at ho
    have hnone : s'.map.live smem.type = [] := by
      rw [hlive, hx, ho]
      simp
    simp [hnone]
  · rw [if_neg htype] at hfree ⊢
    have hother : s'.map.live smem.type = s.map.live smem.type := by
      rw [hlive, List.filter_eq_self]
      intro o' ho'
      have htype' := (List.mem_filter.mp ho').2
      simp only [decide_eq_true_eq] at htype' ⊢
      rintro rfl
      exact htype htype'.symm
    rw [hother]
    exact hone smem hsmem hfree

variable [DecidableEq Cap] {ch : Sealing Cap Key} {bufferSize : Int → Nat}

theorem oneObject_step (s : DetachSys Cap Key) (l : DetachLabel Cap) (s' : DetachSys Cap Key)
    (hone : OneObject start s) (hguard : BuildsUnmarked start s l)
    (hstep : detachStep ch bufferSize s l = some s') : OneObject start s' := by
  cases markCase_detachStep hstep with
  | same hsame => exact oneObject_same hsame hone
  | build tid c hcall hregs hobjects => exact oneObject_build hone hcall hguard hregs hobjects
  | dtor o hmem hregs hobjects => exact oneObject_dtor hone hmem hregs hobjects

theorem objects_of_mmapBuild {tid : Nat} {c : MmapCall} (hcall : s.map.mmaps tid = some c)
    (hstep : detachStep ch bufferSize s (.map (.mmapBuild tid)) = some s') :
    s'.map.objects = s.map.objects ++ [⟨s.map.nextObject, c.mapType, true⟩] ∧
      s'.map.sc.sharedMemRegs =
        onType c.mapType (fun smem => { smem with mapped := true }) s.map.sc.sharedMemRegs := by
  simp only [detachStep, mapStep, hcall, Option.bind_some] at hstep
  split at hstep
  · obtain ⟨m, hm, rfl⟩ := Option.map_eq_some_iff.mp hstep
    cases hphase : c.phase with
    | found =>
      simp only [hphase, mmapBuildStep] at hm
      cases hm
      exact ⟨rfl, rfl⟩
    | _ => simp [hphase, mmapBuildStep] at hm
  · cases hstep

/-- A constructor that finds the flag set builds a second object. -/
theorem not_oneObject_of_marked (s : DetachSys Cap Key) (l : DetachLabel Cap)
    (s' : DetachSys Cap Key) (hone : OneObject start s) (hbad : ¬ BuildsUnmarked start s l)
    (hstep : detachStep ch bufferSize s l = some s') : ¬ OneObject start s' := by
  unfold BuildsUnmarked at hbad
  split at hbad
  · rename_i tid
    push Not at hbad
    obtain ⟨c, hcall, hfree, smem, hsmem, htype, hmarked⟩ := hbad
    obtain ⟨hobjects, hregs⟩ := objects_of_mmapBuild hcall hstep
    have hmarked : smem.mapped = true := by simpa using hmarked
    have hfree' : ¬ Premarked start smem.type := htype ▸ hfree
    -- the flag is set, so there is an object already
    have hold : 0 < (s.map.live smem.type).length :=
      List.length_pos_iff.mpr ((hone smem hsmem hfree').2.mp hmarked)
    have hlive : s'.map.live smem.type =
        s.map.live smem.type ++ [⟨s.map.nextObject, c.mapType, true⟩] := by
      rw [MapSys.live, hobjects, List.filter_append]
      simp [MapSys.live, htype]
    intro hone'
    have hmem : ({ smem with mapped := true } : SharedMemRegion) ∈ s'.map.sc.sharedMemRegs := by
      rw [hregs]
      exact List.mem_map.mpr ⟨smem, hsmem, if_pos htype⟩
    have htwo := (hone' _ hmem hfree').1
    rw [hlive, List.length_append, List.length_singleton] at htwo
    omega
  · exact absurd trivial hbad

end Preservation

/-! ## The result -/

theorem oneObject_start [DecidableEq Cap] {ch : Sealing Cap Key} {bufferSize : Int → Nat}
    {createSealingKey : Nat → Key} {s : DetachSys Cap Key}
    (hstart : DetachStart ch bufferSize createSealingKey s) : OneObject s s := by
  intro smem hsmem hfree
  have hlive : s.map.live smem.type = [] := by
    rw [MapSys.live, hstart.map.objects, List.filter_nil]
  have hclear : smem.mapped = false := by
    by_contra hmarked
    exact hfree ⟨smem, hsmem, rfl, by simpa using hmarked⟩
  simp [hlive, hclear]

/-- Along a run the exclusion holds in every state exactly if every constructor that runs
finds its region unmarked. -/
theorem one_object_iff [DecidableEq Cap] {ch : Sealing Cap Key} {bufferSize : Int → Nat}
    {createSealingKey : Nat → Key} {s t : DetachSys Cap Key}
    {labels : List (DetachLabel Cap)} (hstart : DetachStart ch bufferSize createSealingKey s)
    (hrun : exec (detachStep ch bufferSize) s labels = some t) :
    Along (detachStep ch bufferSize) (OneObject s) s labels ↔
      Obeys (detachStep ch bufferSize) (BuildsUnmarked s) s labels :=
  along_iff_obeys oneObject_step (fun _ hone => hone) not_oneObject_of_marked
    (oneObject_start hstart) hrun

/-- The region is mapped, unmapped and mapped again. -/
def mappedTwice : List (DetachLabel SealedWord) :=
  sampleUnmapped ++ [.map (sampleAdmit 2 true), .map (.mmapFind 2), .map (.mmapBuild 2)]

theorem one_object_mapped_twice :
    DetachStart SealedWord.sealing sampleSize id sampleAttached ∧
      (∃ t, exec (detachStep SealedWord.sealing sampleSize) sampleAttached mappedTwice = some t ∧
        (t.map.live 0).length = 1) ∧
      Along (detachStep SealedWord.sealing sampleSize) (OneObject sampleAttached) sampleAttached
        mappedTwice := by
  refine ⟨detachStart_sampleAttached, ⟨_, rfl, rfl⟩, ?_⟩
  exact (one_object_iff detachStart_sampleAttached rfl).mpr (by decide)

/-- Two threads pass the search before either has built its object. -/
def raceForRegion : List (DetachLabel SealedWord) :=
  [.map sampleAttach, .map (sampleAdmit 1 true), .map (sampleAdmit 2 true), .map (.mmapFind 1),
    .map (.mmapFind 2), .map (.mmapBuild 1), .map (.mmapBuild 2)]

/-- The region then has two live objects; when the first goes, the flag is clear under
the second. -/
theorem race_builds_two_objects :
    ∃ t u, exec (detachStep SealedWord.sealing sampleSize) sampleAttached raceForRegion = some t ∧
      (t.map.live 0).length = 2 ∧ ¬ OneObject sampleAttached t ∧
      exec (detachStep SealedWord.sealing sampleSize) t
        [.recheck 1, .map (.mmapFail 1), .map (.dtor 0)] = some u ∧
      (u.map.live 0).length = 1 ∧ u.map.sc.sharedMemRegs.map SharedMemRegion.mapped = [false] ∧
      ¬ OneObject sampleAttached u := by
  refine ⟨_, _, rfl, rfl, by decide, rfl, rfl, rfl, by decide⟩

end Capio
end SfcCapio
