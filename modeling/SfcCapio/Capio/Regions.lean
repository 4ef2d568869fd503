import SfcCapio.Capio.Mappings

/-!
# What each step does

The transitions of `mapStep` as a relation (`MapCase`), and the two tables they work
on: what taking a range out of the process maps leaves when the entries do not
overlap, and what a change to the regions of one type does when the types differ.
-/

namespace SfcCapio
namespace Capio

open Foundation

/-! ## Taking a range out of the maps -/

theorem MapEntry.minus_self (e : MapEntry) : e.minus e.start (e.start + e.len) = [] := by
  simp [MapEntry.minus]

theorem MapEntry.minus_of_apart {e : MapEntry} {lo hi : Nat} (hlen : 0 < e.len) (hle : lo ≤ hi)
    (happart : e.start + e.len ≤ lo ∨ hi ≤ e.start) : e.minus lo hi = [e] := by
  unfold MapEntry.minus
  rcases happart with hbelow | habove
  · rw [if_pos (by omega), if_neg (by omega), List.append_nil, Nat.min_eq_left (by omega)]
  · rw [if_neg (by omega), if_pos (by omega), List.nil_append, Nat.max_eq_left habove,
      Nat.add_sub_cancel_left]

/-- Removing exactly the range of the entries of one type leaves the others. -/
theorem vmMapRemove_eq_filter {entries : List MapEntry} {pid lo hi : Nat} {type : Int}
    (hle : lo ≤ hi) (hpid : ∀ e ∈ entries, e.pid = pid) (hlen : ∀ e ∈ entries, 0 < e.len)
    (hin : ∀ e ∈ entries, e.type = type → e.start = lo ∧ e.start + e.len = hi)
    (hout : ∀ e ∈ entries, e.type ≠ type → e.start + e.len ≤ lo ∨ hi ≤ e.start) :
    vmMapRemove entries pid lo hi = entries.filter fun e => e.type ≠ type := by
  induction entries with
  | nil => rfl
  | cons e entries ih =>
    have hrest := ih (fun x hx => hpid x (List.mem_cons_of_mem e hx))
      (fun x hx => hlen x (List.mem_cons_of_mem e hx))
      (fun x hx => hin x (List.mem_cons_of_mem e hx))
      (fun x hx => hout x (List.mem_cons_of_mem e hx))
    have hmem : e ∈ e :: entries := List.mem_cons_self
    unfold vmMapRemove at hrest ⊢
    rw [List.flatMap_cons, hrest, if_pos (hpid e hmem)]
    by_cases htype : e.type = type
    · obtain ⟨hlo, hhi⟩ := hin e hmem htype
      rw [← hhi, ← hlo, MapEntry.minus_self, List.filter_cons_of_neg (by simpa using htype),
        List.nil_append]
    · rw [MapEntry.minus_of_apart (hlen e hmem) hle (hout e hmem htype),
        List.filter_cons_of_pos (by simpa using htype), List.singleton_append]

/-! ## Regions of different types -/

section Regions

variable {regs : List SharedMemRegion} {type : Int} {f : SharedMemRegion → SharedMemRegion}

variable {β : Type*} {g : SharedMemRegion → β} {vaddr size i : Nat}

theorem map_onType (hf : ∀ smem, g (f smem) = g smem) :
    (onType type f regs).map g = regs.map g := by
  rw [onType, List.map_map]
  refine List.map_congr_left ?_
  intro smem _
  simp only [Function.comp_apply]
  split
  · exact hf smem
  · rfl

theorem exists_of_mem_onType {smem' : SharedMemRegion} (hmem : smem' ∈ onType type f regs) :
    ∃ smem ∈ regs, smem' = if smem.type = type then f smem else smem := by
  obtain ⟨smem, hin, heq⟩ := List.mem_map.mp hmem
  exact ⟨smem, hin, heq.symm⟩

theorem getElem?_onType (i : Nat) :
    (onType type f regs)[i]? =
      regs[i]?.map fun smem => if smem.type = type then f smem else smem := by
  rw [onType, List.getElem?_map]

theorem onType_of_not_mem (hnone : type ∉ regs.map SharedMemRegion.type) :
    onType type f regs = regs := by
  have hsame : ∀ smem ∈ regs, (if smem.type = type then f smem else smem) = smem := by
    intro smem hmem
    refine if_neg ?_
    rintro rfl
    exact hnone (List.mem_map_of_mem hmem)
  rw [onType, List.map_congr_left hsame, List.map_id']

/-- `capio_vaddr_callback` finds the one region of a declared type. -/
theorem recordVaddr_eq_onType (hnodup : (regs.map SharedMemRegion.type).Nodup)
    (hmem : type ∈ regs.map SharedMemRegion.type) :
    recordVaddr vaddr size type regs =
      some (onType type (fun smem => { smem with offset := vaddr, len := size }) regs) := by
  induction regs with
  | nil => cases hmem
  | cons smem regs ih =>
    rw [List.map_cons, List.nodup_cons] at hnodup
    by_cases htype : smem.type = type
    · subst htype
      have hrest := onType_of_not_mem
        (f := fun smem => { smem with offset := vaddr, len := size }) hnodup.1
      rw [recordVaddr, if_pos rfl]
      unfold onType at hrest ⊢
      rw [List.map_cons, hrest, if_pos rfl]
    · have htail : type ∈ regs.map SharedMemRegion.type := by
        rcases List.mem_cons.mp hmem with heq | htail
        · exact absurd heq.symm htype
        · exact htail
      rw [recordVaddr, if_neg htype, ih hnodup.2 htail]
      unfold onType
      rw [List.map_cons, if_neg htype, Option.map_some]

theorem recordVaddr_of_not_mem (hnone : type ∉ regs.map SharedMemRegion.type) :
    recordVaddr vaddr size type regs = none := by
  induction regs with
  | nil => rfl
  | cons smem regs ih =>
    rw [List.map_cons, List.mem_cons, not_or] at hnone
    rw [recordVaddr, if_neg (Ne.symm hnone.1), ih hnone.2, Option.map_none]

/-- `capio_vaddr_callback` changes nothing that does not show the address or length. -/
theorem map_recordVaddr {regs' : List SharedMemRegion}
    (hg : ∀ smem : SharedMemRegion, g { smem with offset := vaddr, len := size } = g smem)
    (hrec : recordVaddr vaddr size type regs = some regs') : regs'.map g = regs.map g := by
  induction regs generalizing regs' with
  | nil => cases hrec
  | cons smem regs ih =>
    rw [recordVaddr] at hrec
    split at hrec
    · cases hrec
      rw [List.map_cons, List.map_cons, hg]
    · obtain ⟨rest, hrest, heq⟩ := Option.map_eq_some_iff.mp hrec
      rw [← heq, List.map_cons, List.map_cons, ih hrest]

theorem map_modify (hf : ∀ smem, g (f smem) = g smem)
    (i : Nat) : (regs.modify i f).map g = regs.map g := by
  apply List.ext_getElem?
  intro j
  rw [List.getElem?_map, List.getElem?_map, List.getElem?_modify]
  cases regs[j]? with
  | none => simp
  | some smem =>
    by_cases hij : i = j
    · simp [hij, hf]
    · simp [hij]

theorem index_eq_of_type_eq (hnodup : (regs.map SharedMemRegion.type).Nodup) {i j : Nat}
    {smem smem' : SharedMemRegion} (hi : regs[i]? = some smem) (hj : regs[j]? = some smem')
    (htype : smem'.type = smem.type) : j = i := by
  have hlen : j < (regs.map SharedMemRegion.type).length := by
    rw [List.length_map]
    exact (List.getElem?_eq_some_iff.mp hj).1
  apply (List.getElem?_inj hlen hnodup).mp
  rw [List.getElem?_map, List.getElem?_map, hi, hj, Option.map_some, Option.map_some, htype]

/-- A change at an index is a change to the region's type. -/
theorem modify_eq_onType (hnodup : (regs.map SharedMemRegion.type).Nodup) {smem : SharedMemRegion}
    (hi : regs[i]? = some smem) :
    regs.modify i f = onType smem.type f regs := by
  apply List.ext_getElem?
  intro j
  rw [List.getElem?_modify, getElem?_onType]
  by_cases hij : i = j
  · subst hij
    simp [hi]
  · cases hj : regs[j]? with
    | none => simp
    | some smem' =>
      have hne : smem'.type ≠ smem.type := by
        intro htype
        exact hij (index_eq_of_type_eq hnodup hi hj htype).symm
      simp [hij, hne]

end Regions

/-! ## The transitions -/

section System

variable {Cap Key : Type*} [DecidableEq Cap] {ch : Sealing Cap Key} {bufferSize : Int → Nat}

variable (ch bufferSize) in
/-- The transitions of `mapStep`, each with what leads to it. -/
inductive MapCase (s : MapSys Cap Key) : MapLabel Cap → MapSys Cap Key → Prop
  | refused {l} : MapCase s l s
  | attach (req : CapReq Cap) (hfree : ch.isNull s.sc.capState.sealedCap = true)
      (hset : ∃ out, setCapToken ch s.sc req = .ok out) (sc : CapioSoftc Cap Key)
      (hregs : sc.sharedMemRegs = s.sc.sharedMemRegs) :
      MapCase s (.attach req) { s with sc := sc, session := s.session + 1 }
  | admitted (tid pid : Nat) (dying : Bool) (req : MapReq Cap) (nprot : Prot) (offset size : Nat)
      (hidle : s.mmaps tid = none) (hbuffer : size = bufferSize req.mapType) :
      MapCase s (.mmapAdmit tid pid dying req nprot offset size)
        (s.setMmap tid (some
          { pid := pid, mapType := req.mapType, size := size, readable := nprot.read,
            auth := s.session, phase := .admitted }))
  | find (tid : Nat) (c : MmapCall) (found : Found) (hcall : s.mmaps tid = some c)
      (hphase : c.phase = .admitted)
      (hfind : mmapFind s.sc.sharedMemRegs c.mapType = .ok found) :
      MapCase s (.mmapFind tid) (s.setMmap tid (some { c with phase := .found }))
  | leave {l} (tid : Nat) (c : MmapCall) (hcall : s.mmaps tid = some c)
      (hphase : c.phase = .admitted ∨ c.phase = .found) :
      MapCase s l (s.setMmap tid none)
  | build (tid : Nat) (c : MmapCall) (hcall : s.mmaps tid = some c) (hphase : c.phase = .found) :
      MapCase s (.mmapBuild tid)
        { s.setMmap tid (some { c with phase := .built s.nextObject }) with
          sc := capioPagerCtor s.sc c.mapType
          objects := s.objects ++ [{ id := s.nextObject, type := c.mapType, inCall := true }]
          nextObject := s.nextObject + 1 }
  | drop (tid : Nat) (c : MmapCall) (object : Nat) (hcall : s.mmaps tid = some c)
      (hphase : c.phase = .built object) :
      MapCase s (.mmapFail tid)
        { s.setMmap tid none with objects := s.letGo object c.mapType }
  | enter (tid vaddr : Nat) (c : MmapCall) (object : Nat) (hcall : s.mmaps tid = some c)
      (hphase : c.phase = .built object) (hvaddr : vaddr ≠ 0) (hsize : c.size ≠ 0)
      (hfree : s.Free c.pid vaddr c.size) :
      MapCase s (.mmapEnter tid vaddr)
        { s.setMmap tid (some { c with phase := .entered vaddr }) with
          entries := s.entries ++ [MapSys.entryOf c object vaddr]
          objects := s.letGo object c.mapType }
  | callback (tid : Nat) (c : MmapCall) (vaddr : Nat) (hcall : s.mmaps tid = some c)
      (hphase : c.phase = .entered vaddr) :
      MapCase s (.mmapCallback tid)
        { s.setMmap tid none with
          sc := (capioVaddrCallback s.sc vaddr c.size c.mapType).2 }
  | begin {l} (tid pid : Nat)
      (hbegins : (∃ sealedCap, l = .goodbye tid pid sealedCap) ∨ l = .close tid pid)
      (hidle : s.revokes tid = none) :
      MapCase s l (s.setRevoke tid (some
        { pid := pid, target := none, error := none, phase := .admitted }))
  | clear (tid : Nat) (c : RevokeCall) (hcall : s.revokes tid = some c)
      (hphase : c.phase = .admitted) :
      MapCase s (.revokeClear tid)
        { s.setRevoke tid
            (some { c with target := s.openSession ch, error := none, phase := .scanning 0 }) with
          sc := clearCapState ch s.sc }
  | read (tid : Nat) (c : RevokeCall) (i : Nat) (smem : SharedMemRegion)
      (hcall : s.revokes tid = some c) (hphase : c.phase = .scanning i)
      (hsmem : s.sc.sharedMemRegs[i]? = some smem) (hoffset : smem.offset ≠ 0) :
      MapCase s (.revokeNext tid) (s.setRevoke tid (some { c with phase := .deleting i smem }))
  | skip (tid : Nat) (c : RevokeCall) (i : Nat) (smem : SharedMemRegion)
      (hcall : s.revokes tid = some c) (hphase : c.phase = .scanning i)
      (hsmem : s.sc.sharedMemRegs[i]? = some smem) (hoffset : smem.offset = 0) :
      MapCase s (.revokeNext tid) (s.setRevoke tid (some { c with phase := .scanning (i + 1) }))
  | finish (tid : Nat) (c : RevokeCall) (i : Nat) (hcall : s.revokes tid = some c)
      (hphase : c.phase = .scanning i) (hend : s.sc.sharedMemRegs[i]? = none) :
      MapCase s (.revokeNext tid)
        { s.setRevoke tid none with
          revoked := if c.error = none then c.target.toList ++ s.revoked else s.revoked }
  | delete (tid : Nat) (c : RevokeCall) (i : Nat) (smem : SharedMemRegion)
      (hcall : s.revokes tid = some c) (hphase : c.phase = .deleting i smem) :
      MapCase s (.revokeDelete tid)
        { s.setRevoke tid (some { c with error := none, phase := .forgetting i }) with
          entries := (deleteMappingFromUser s.entries c.pid smem.offset smem.len).2 }
  | forget (tid : Nat) (c : RevokeCall) (i : Nat) (hcall : s.revokes tid = some c)
      (hphase : c.phase = .forgetting i) :
      MapCase s (.revokeForget tid)
        { s.setRevoke tid (some { c with phase := .scanning (i + 1) }) with
          sc :=
            { s.sc with
              sharedMemRegs :=
                s.sc.sharedMemRegs.modify i fun smem => { smem with offset := 0 } } }
  | fork (pid child : Nat) :
      MapCase s (.fork pid child)
        { s with
          entries := s.entries ++
            (s.entries.filter fun e => e.pid = pid).map fun e => { e with pid := child } }
  | dtor (o : PagerObject) (hmem : o ∈ s.objects) (hunref : s.Unreferenced o) :
      MapCase s (.dtor o.id)
        { s with
          sc := capioPagerDtor s.sc o.type
          objects := s.objects.filter fun o' => o' ≠ o }

/-- What `capio_mmap_single_extra` has checked when it searches the regions. -/
theorem mmapAdmit_eq_ok_iff {sc : CapioSoftc Cap Key} {dying : Bool} {req : MapReq Cap}
    {nprot : Prot} {offset size : Nat} :
    mmapAdmit ch sc bufferSize dying req nprot offset size = .ok () ↔
      (checkCapToken ch sc req.sealedCap = .ok () ∧
        (nprot.readCap = false ∧ nprot.writeCap = false) ∧ offset = 0 ∧ dying = false ∧
          ch.tag req.userCap = true) ∧ size = bufferSize req.mapType := by
  unfold mmapAdmit
  split
  · rename_i hcheck
    simp [hcheck]
  · rename_i hcheck
    by_cases hread : nprot.readCap = true
    · simp [hread]
    by_cases hwrite : nprot.writeCap = true
    · simp [hwrite]
    by_cases hoffset : offset = 0
    · cases dying with
      | true => simp [hread, hwrite, hoffset]
      | false =>
        by_cases htag : ch.tag req.userCap = true
        · by_cases hsize : size = bufferSize req.mapType
          · simp [hcheck, hread, hwrite, hoffset, htag, hsize]
          · simp [hread, hwrite, hoffset, htag, hsize]
        · simp [hread, hwrite, hoffset, htag]
    · simp [hread, hwrite, hoffset]

/-- A search that is passed has met no mapped region. -/
theorem unmapped_of_mmapFind {regs : List SharedMemRegion} {type : Int} {found : Found}
    (hfind : mmapFind regs type = .ok found) (smem : SharedMemRegion)
    (hsmem : regs.find? (fun smem => smem.type = type) = some smem) : smem.mapped = false := by
  rw [mmapFind, hsmem] at hfind
  cases hmapped : smem.mapped with
  | false => rfl
  | true =>
    simp only [hmapped, if_true] at hfind
    cases hfind

section Steps

variable {s s' : MapSys Cap Key} {tid : Nat}

omit [DecidableEq Cap]

theorem mapCase_mmapFind {c : MmapCall} (hcall : s.mmaps tid = some c)
    (hstep : mmapFindStep s tid c c.phase = some s') :
    MapCase ch bufferSize s (.mmapFind tid) s' := by
  cases hphase : c.phase with
  | admitted =>
    simp only [hphase, mmapFindStep] at hstep
    cases hfind : mmapFind s.sc.sharedMemRegs c.mapType with
    | error e =>
      simp only [hfind] at hstep
      cases hstep
      exact .leave tid c hcall (Or.inl hphase)
    | ok found =>
      simp only [hfind] at hstep
      cases hstep
      exact .find tid c found hcall hphase hfind
  | _ => simp [hphase, mmapFindStep] at hstep

theorem mapCase_mmapBuild {c : MmapCall} (hcall : s.mmaps tid = some c)
    (hstep : mmapBuildStep s tid c c.phase = some s') :
    MapCase ch bufferSize s (.mmapBuild tid) s' := by
  cases hphase : c.phase with
  | found =>
    simp only [hphase, mmapBuildStep] at hstep
    cases hstep
    exact .build tid c hcall hphase
  | _ => simp [hphase, mmapBuildStep] at hstep

theorem mapCase_mmapEnter {c : MmapCall} {vaddr : Nat} (hcall : s.mmaps tid = some c)
    (hstep : mmapEnterStep s tid vaddr c c.phase = some s') :
    MapCase ch bufferSize s (.mmapEnter tid vaddr) s' := by
  cases hphase : c.phase with
  | built object =>
    simp only [hphase, mmapEnterStep] at hstep
    split at hstep
    · rename_i hroom
      cases hstep
      exact .enter tid vaddr c object hcall hphase hroom.1 hroom.2.1 hroom.2.2
    · cases hstep
  | _ => simp [hphase, mmapEnterStep] at hstep

theorem mapCase_mmapCallback {c : MmapCall} (hcall : s.mmaps tid = some c)
    (hstep : mmapCallbackStep s tid c c.phase = some s') :
    MapCase ch bufferSize s (.mmapCallback tid) s' := by
  cases hphase : c.phase with
  | entered vaddr =>
    simp only [hphase, mmapCallbackStep] at hstep
    cases hstep
    exact .callback tid c vaddr hcall hphase
  | _ => simp [hphase, mmapCallbackStep] at hstep

theorem mapCase_mmapFail {c : MmapCall} (hcall : s.mmaps tid = some c)
    (hstep : mmapFailStep s tid c c.phase = some s') :
    MapCase ch bufferSize s (.mmapFail tid) s' := by
  cases hphase : c.phase with
  | found =>
    simp only [hphase, mmapFailStep] at hstep
    cases hstep
    exact .leave tid c hcall (Or.inr hphase)
  | built object =>
    simp only [hphase, mmapFailStep] at hstep
    cases hstep
    exact .drop tid c object hcall hphase
  | _ => simp [hphase, mmapFailStep] at hstep

theorem mapCase_revokeClear {c : RevokeCall} (hcall : s.revokes tid = some c)
    (hstep : revokeClearStep ch s tid c c.phase = some s') :
    MapCase ch bufferSize s (.revokeClear tid) s' := by
  cases hphase : c.phase with
  | admitted =>
    simp only [hphase, revokeClearStep] at hstep
    cases hstep
    exact .clear tid c hcall hphase
  | _ => simp [hphase, revokeClearStep] at hstep

theorem mapCase_revokeNext {c : RevokeCall} (hcall : s.revokes tid = some c)
    (hstep : revokeNextStep s tid c c.phase = some s') :
    MapCase ch bufferSize s (.revokeNext tid) s' := by
  cases hphase : c.phase with
  | scanning i =>
    simp only [hphase, revokeNextStep] at hstep
    cases hsmem : s.sc.sharedMemRegs[i]? with
    | none =>
      simp only [hsmem] at hstep
      cases hstep
      exact .finish tid c i hcall hphase hsmem
    | some smem =>
      simp only [hsmem] at hstep
      split at hstep
      · rename_i hoffset
        cases hstep
        exact .read tid c i smem hcall hphase hsmem hoffset
      · rename_i hoffset
        cases hstep
        exact .skip tid c i smem hcall hphase hsmem (by simpa using hoffset)
  | _ => simp [hphase, revokeNextStep] at hstep

theorem deleteMappingFromUser_error (entries : List MapEntry) (pid offset len : Nat) :
    (deleteMappingFromUser entries pid offset len).1 = none := by
  unfold deleteMappingFromUser
  split <;> rfl

theorem mapCase_revokeDelete {c : RevokeCall} (hcall : s.revokes tid = some c)
    (hstep : revokeDeleteStep s tid c c.phase = some s') :
    MapCase ch bufferSize s (.revokeDelete tid) s' := by
  cases hphase : c.phase with
  | deleting i smem =>
    simp only [hphase, revokeDeleteStep, deleteMappingFromUser_error, if_true] at hstep
    cases hstep
    exact .delete tid c i smem hcall hphase
  | _ => simp [hphase, revokeDeleteStep] at hstep

theorem mapCase_revokeForget {c : RevokeCall} (hcall : s.revokes tid = some c)
    (hstep : revokeForgetStep s tid c c.phase = some s') :
    MapCase ch bufferSize s (.revokeForget tid) s' := by
  cases hphase : c.phase with
  | forgetting i =>
    simp only [hphase, revokeForgetStep] at hstep
    cases hstep
    exact .forget tid c i hcall hphase
  | _ => simp [hphase, revokeForgetStep] at hstep

end Steps

theorem mapCase_mapStep {s s' : MapSys Cap Key} {l : MapLabel Cap}
    (hstep : mapStep ch bufferSize s l = some s') : MapCase ch bufferSize s l s' := by
  cases l with
  | attach req =>
    rcases setCapToken_cases ch s.sc req with ⟨-, hfree, hset⟩ | hset
    · simp only [mapStep, hset] at hstep
      cases hstep
      exact .attach req hfree ⟨_, hset⟩ _ rfl
    · simp only [mapStep, hset] at hstep
      cases hstep
      exact .refused
  | mmapAdmit tid pid dying req nprot offset size =>
    simp only [mapStep] at hstep
    split at hstep
    · rename_i hidle
      split at hstep
      · rename_i hadmitted
        cases hstep
        exact .admitted tid pid dying req nprot offset size (Option.isNone_iff_eq_none.mp hidle.1)
          (mmapAdmit_eq_ok_iff.mp hadmitted).2
      · cases hstep
        exact .refused
    · cases hstep
  | mmapFind tid =>
    obtain ⟨c, hcall, hc⟩ := Option.bind_eq_some_iff.mp hstep
    exact mapCase_mmapFind hcall hc
  | mmapBuild tid =>
    obtain ⟨c, hcall, hc⟩ := Option.bind_eq_some_iff.mp hstep
    exact mapCase_mmapBuild hcall hc
  | mmapEnter tid vaddr =>
    obtain ⟨c, hcall, hc⟩ := Option.bind_eq_some_iff.mp hstep
    exact mapCase_mmapEnter hcall hc
  | mmapCallback tid =>
    obtain ⟨c, hcall, hc⟩ := Option.bind_eq_some_iff.mp hstep
    exact mapCase_mmapCallback hcall hc
  | mmapFail tid =>
    obtain ⟨c, hcall, hc⟩ := Option.bind_eq_some_iff.mp hstep
    exact mapCase_mmapFail hcall hc
  | goodbye tid pid sealedCap =>
    simp only [mapStep] at hstep
    split at hstep
    · rename_i hidle
      split at hstep <;> cases hstep
      · exact .begin tid pid (Or.inl ⟨sealedCap, rfl⟩) (Option.isNone_iff_eq_none.mp hidle.2)
      · exact .refused
    · cases hstep
  | close tid pid =>
    simp only [mapStep] at hstep
    split at hstep
    · rename_i hidle
      cases hstep
      exact .begin tid pid (Or.inr rfl) (Option.isNone_iff_eq_none.mp hidle.2)
    · cases hstep
  | revokeClear tid =>
    obtain ⟨c, hcall, hc⟩ := Option.bind_eq_some_iff.mp hstep
    exact mapCase_revokeClear hcall hc
  | revokeNext tid =>
    obtain ⟨c, hcall, hc⟩ := Option.bind_eq_some_iff.mp hstep
    exact mapCase_revokeNext hcall hc
  | revokeDelete tid =>
    obtain ⟨c, hcall, hc⟩ := Option.bind_eq_some_iff.mp hstep
    exact mapCase_revokeDelete hcall hc
  | revokeForget tid =>
    obtain ⟨c, hcall, hc⟩ := Option.bind_eq_some_iff.mp hstep
    exact mapCase_revokeForget hcall hc
  | fork pid child =>
    simp only [mapStep] at hstep
    split at hstep
    · cases hstep
      exact .fork pid child
    · cases hstep
  | dtor object =>
    obtain ⟨o, hfind, ho⟩ := Option.bind_eq_some_iff.mp hstep
    have hmem := List.mem_of_find?_eq_some hfind
    have hid : o.id = object := by simpa using List.find?_some hfind
    subst hid
    split at ho
    · rename_i hunref
      cases ho
      exact .dtor o hmem hunref
    · cases ho

end System

end Capio
end SfcCapio
