import SfcCapio.Capio.RegionInvariant

/-!
# Revocation

`revoke_cap_token` forgets the token and then unmaps, region by region, the address
remembered for it in the map of the calling process.  Three things make that fall
short of what it promises: a call that has shown its token before can make its entry
after, only one address is remembered for each region, and entries of other
processes are out of reach.

`MapInv` is what orderly callers keep: entries and regions fit together
(`RegionInv`); a revocation that runs is alone, owns all entries and has left none in
the regions it has passed (`RevokeInv`); and a session is over before its number is
listed as revoked (`SessionInv`).
-/

namespace SfcCapio
namespace Capio

open Foundation

section Invariant

variable {Cap Key : Type*}

/-- The number of regions a revocation is done with. -/
def RevokePhase.passed : RevokePhase → Nat
  | .admitted => 0
  | .scanning i => i
  | .deleting i _ => i
  | .forgetting i => i + 1

variable (ch : Sealing Cap Key)

/-- What holds while a revocation runs. -/
structure RunningOk (s : MapSys Cap Key) (c : RevokeCall) : Prop where
  noMmaps : ∀ tid c, s.mmaps tid = some c → ¬ c.Maps
  cleared : ch.isNull s.sc.capState.sealedCap = true
  owner : ∀ e ∈ s.entries, e.pid = c.pid
  passed : ∀ e ∈ s.entries, ∀ i, i < c.phase.passed → s.types[i]? ≠ some e.type
  reading : ∀ i smem, c.phase = .deleting i smem →
    smem.offset ≠ 0 ∧ s.table[i]? = some (smem.type, smem.offset, smem.len)
  clearing : ∀ i, c.phase = .forgetting i → ∃ type, s.types[i]? = some type

/-- At most one revocation runs, and it has the device to itself. -/
structure RevokeInv (s : MapSys Cap Key) : Prop where
  one : ∀ tid tid' c c', s.revokes tid = some c → s.revokes tid' = some c' →
    c.Running → c'.Running → tid = tid'
  running : ∀ tid c, s.revokes tid = some c → c.Running → RunningOk ch s c

/-- Session numbers. -/
structure SessionInv (s : MapSys Cap Key) : Prop where
  call : ∀ tid c, s.mmaps tid = some c → c.Maps →
    c.auth = s.session ∧ ch.isNull s.sc.capState.sealedCap = false
  current : ch.isNull s.sc.capState.sealedCap = false → s.session ∉ s.revoked
  past : ∀ n ∈ s.revoked, n ≤ s.session
  target : ∀ tid c n, s.revokes tid = some c → c.target = some n → n ≤ s.session
  complete : RevocationComplete s

/-- The invariant of orderly runs. -/
structure MapInv (bufferSize : Int → Nat) (s : MapSys Cap Key) : Prop where
  sizes : ∀ type, bufferSize type ≠ 0 → type ∈ s.types
  region : RegionInv bufferSize s
  revoke : RevokeInv ch s
  session : SessionInv ch s

end Invariant

/-! ## The types of the regions -/

section Types

variable {Cap Key : Type*}

theorem types_mapCase {ch : Sealing Cap Key} {bufferSize : Int → Nat} {s s' : MapSys Cap Key}
    {l : MapLabel Cap} (hcase : MapCase ch bufferSize s l s') : s'.types = s.types := by
  rw [MapSys.types_eq, MapSys.types_eq]
  cases hcase with
  | attach req hfree hset sc hregs => exact congrArg _ hregs
  | build tid c hcall hphase => exact map_onType fun _ => rfl
  | callback tid c vaddr hcall hphase =>
    simp only [capioVaddrCallback]
    split
    · rfl
    · rename_i regs hrec
      exact map_recordVaddr (fun _ => rfl) hrec
  | forget tid c i hcall hphase =>
    refine map_modify ?_ i
    intro smem
    rfl
  | dtor o hmem hunref => exact map_onType fun _ => rfl
  | _ => rfl

end Types

/-! ## Revocations that run -/

section Running

variable {Cap Key : Type*} {ch : Sealing Cap Key} {bufferSize : Int → Nat} {s : MapSys Cap Key}

variable {c : RevokeCall} {tid i : Nat}

theorem RevokeCall.running_of_phase {phase : RevokePhase} (hphase : c.phase = phase)
    (hne : phase ≠ .admitted) : c.Running := by
  unfold RevokeCall.Running
  rw [hphase]
  exact hne

theorem RevokeInv.of_idle (hno : ∀ tid c, s.revokes tid = some c → ¬ c.Running) :
    RevokeInv ch s where
  one := fun tid _ c _ hc _ hrun _ => absurd hrun (hno tid c hc)
  running := fun tid c hc hrun => absurd hrun (hno tid c hc)

theorem RevokeInv.of_only (tid : Nat)
    (hothers : ∀ tid' c, tid' ≠ tid → s.revokes tid' = some c → ¬ c.Running)
    (hthis : ∀ c, s.revokes tid = some c → c.Running → RunningOk ch s c) : RevokeInv ch s := by
  have honly : ∀ tid' c, s.revokes tid' = some c → c.Running → tid' = tid := by
    intro tid' c hc hrun
    by_contra hne
    exact hothers tid' c hne hc hrun
  refine ⟨?_, ?_⟩
  · intro tid₁ tid₂ c₁ c₂ h₁ h₂ hrun₁ hrun₂
    rw [honly tid₁ c₁ h₁ hrun₁, honly tid₂ c₂ h₂ hrun₂]
  · intro tid' c hc hrun
    have heq := honly tid' c hc hrun
    subst heq
    exact hthis c hc hrun

theorem RevokeInv.others (hinv : RevokeInv ch s) (hcall : s.revokes tid = some c) (hrun : c.Running)
    (tid' : Nat) (c' : RevokeCall) (hne : tid' ≠ tid)
    (hc' : s.revokes tid' = some c') : ¬ c'.Running := by
  intro hrun'
  exact hne (hinv.one tid' tid c' c hc' hcall hrun' hrun)

theorem RevokeInv.step (hinv : RevokeInv ch s) {c c' : RevokeCall} {s' : MapSys Cap Key}
    (hcall : s.revokes tid = some c) (hrun : c.Running)
    (hrevokes : s'.revokes = Function.update s.revokes tid (some c'))
    (hok : RunningOk ch s' c') : RevokeInv ch s' := by
  refine RevokeInv.of_only tid ?_ ?_
  · intro tid' c'' hne hc''
    rw [hrevokes, Function.update_of_ne hne] at hc''
    exact hinv.others hcall hrun tid' c'' hne hc''
  · intro c'' hc'' _
    rw [hrevokes, Function.update_self] at hc''
    cases hc''
    exact hok

theorem RevokeInv.not_running (hinv : RevokeInv ch s) {c : MmapCall} (hcall : s.mmaps tid = some c)
    (hmaps : c.Maps) (tid' : Nat) (c' : RevokeCall)
    (hc' : s.revokes tid' = some c') : ¬ c'.Running := by
  intro hrun
  exact (hinv.running tid' c' hc' hrun).noMmaps tid c hcall hmaps

/-- A step that changes neither token, entries nor addresses, and after which nobody maps
while a revocation runs. -/
theorem RevokeInv.keep (hinv : RevokeInv ch s) {s' : MapSys Cap Key}
    (htable : s'.table = s.table) (hstate : s'.sc.capState = s.sc.capState)
    (hentries : s'.entries = s.entries) (hrevokes : s'.revokes = s.revokes)
    (hmaps : ∀ c, RunningOk ch s c → ∀ tid c', s'.mmaps tid = some c' → ¬ c'.Maps) :
    RevokeInv ch s' := by
  have htypes : s'.types = s.types := by
    rw [MapSys.types, htable, MapSys.types]
  refine ⟨?_, ?_⟩
  · rw [hrevokes]
    exact hinv.one
  · intro tid c hc hrun
    rw [hrevokes] at hc
    have hok := hinv.running tid c hc hrun
    refine ⟨hmaps c hok, ?_, ?_, ?_, ?_, ?_⟩
    · rw [hstate]
      exact hok.cleared
    · rw [hentries]
      exact hok.owner
    · rw [hentries, htypes]
      exact hok.passed
    · rw [htable]
      exact hok.reading
    · rw [htypes]
      exact hok.clearing

/-- Nobody maps after a thread has moved on in, or left, a call that does not. -/
theorem noMaps_setMmap {call : Option MmapCall} (hno : ∀ tid c, s.mmaps tid = some c → ¬ c.Maps)
    (hnew : ∀ c, call = some c → ¬ c.Maps) (tid' : Nat) (c' : MmapCall)
    (hc' : (s.setMmap tid call).mmaps tid' = some c') :
    ¬ c'.Maps := by
  rcases update_eq_some hc' with ⟨-, heq⟩ | ⟨-, hold⟩
  · exact hnew c' heq
  · exact hno tid' c' hold

/-- The region a running revocation is reading has its entry in the map of the
calling process, and nothing else is cut by removing its range. -/
theorem delete_eq_filter (hregion : RegionInv bufferSize s) (hrevoke : RevokeInv ch s)
    {smem : SharedMemRegion} (hcall : s.revokes tid = some c)
    (hphase : c.phase = .deleting i smem) :
    (deleteMappingFromUser s.entries c.pid smem.offset smem.len).2 =
      s.entries.filter fun e => e.type ≠ smem.type := by
  have hrun : c.Running := RevokeCall.running_of_phase hphase nofun
  have hok := hrevoke.running tid c hcall hrun
  obtain ⟨hoffset, hrow⟩ := hok.reading i smem hphase
  have hlive := hregion.live _ _ _ (List.mem_of_getElem? hrow) hoffset
  rcases hlive with ⟨e₀, he₀, htype₀, hstart₀, hlen₀⟩ | ⟨tid', c', j, hc', hfor, -⟩
  · obtain ⟨hread, -, hpos, -⟩ := hregion.entry e₀ he₀
    have hfound : vmMapLookup s.entries c.pid smem.offset = true := by
      refine List.any_eq_true.mpr ⟨e₀, he₀, ?_⟩
      have hlt : smem.offset < smem.offset + e₀.len := by omega
      simp [hok.owner e₀ he₀, hstart₀, hlt, hread]
    rw [deleteMappingFromUser, if_pos hfound]
    refine vmMapRemove_eq_filter (by omega) hok.owner
      (fun e he => (hregion.entry e he).2.2.1) ?_ ?_
    · intro e he htype
      rw [hregion.single e he e₀ he₀ (htype.trans htype₀.symm), hstart₀, hlen₀]
      exact ⟨rfl, rfl⟩
    · intro e he htype
      have hpid : e.pid = e₀.pid := by rw [hok.owner e he, hok.owner e₀ he₀]
      have happart := hregion.apart e he e₀ he₀ hpid (by rw [htype₀]; exact htype)
      rw [hstart₀, hlen₀] at happart
      exact happart
  · -- the address is not about to be cleared: this is the only revocation that runs
    have hrun' : c'.Running := RevokeCall.running_of_phase hfor nofun
    have heq := hrevoke.one tid' tid c' c hc' hcall hrun' hrun
    subst heq
    rw [hcall] at hc'
    cases hc'
    rw [hphase] at hfor
    cases hfor

/-- A revocation that has passed all regions has left no entry. -/
theorem RunningOk.no_entries (hok : RunningOk ch s c) (hregion : RegionInv bufferSize s)
    (hphase : c.phase = .scanning i) (hend : s.sc.sharedMemRegs[i]? = none)
    (e : MapEntry) : e ∉ s.entries := by
  intro he
  obtain ⟨-, -, -, hdecl⟩ := hregion.entry e he
  obtain ⟨j, hj⟩ := List.getElem?_of_mem hdecl
  refine hok.passed e he j ?_ hj
  have hlen : j < s.sc.sharedMemRegs.length := by
    have hlt := (List.getElem?_eq_some_iff.mp hj).1
    rw [MapSys.types_eq, List.length_map] at hlt
    exact hlt
  have hle := List.getElem?_eq_none_iff.mp hend
  rw [hphase]
  change j < i
  omega

theorem RunningOk.skip (hok : RunningOk ch s c) (hregion : RegionInv bufferSize s)
    {smem : SharedMemRegion} (hsmem : s.sc.sharedMemRegs[i]? = some smem)
    (hoffset : smem.offset = 0) (e : MapEntry) (he : e ∈ s.entries) : smem.type ≠ e.type := by
  intro htype
  have hrow : (e.type, smem.offset, smem.len) ∈ s.table := by
    rw [← htype]
    exact List.mem_map_of_mem (List.mem_of_getElem? hsmem)
  rcases hregion.recorded e he _ _ hrow with ⟨hstart, -⟩ | ⟨tid', c', hc', -, hphase⟩
  · rw [hoffset] at hstart
    exact (hregion.entry e he).2.1 hstart.symm
  · apply hok.noMmaps tid' c' hc'
    exact ⟨hregion.entered tid' c' _ hc' hphase, by rw [hphase]; exact nofun⟩

end Running

/-! ## The transitions -/

section Transitions

variable {Cap Key : Type*} {ch : Sealing Cap Key} {bufferSize : Int → Nat} {s : MapSys Cap Key}

theorem SessionInv.setMmap (hinv : SessionInv ch s) {tid : Nat} {call : Option MmapCall}
    (hnew : ∀ c, call = some c → c.Maps →
      c.auth = s.session ∧ ch.isNull s.sc.capState.sealedCap = false) :
    SessionInv ch (s.setMmap tid call) := by
  refine { hinv with call := ?_ }
  intro tid' c hc hmaps
  rcases update_eq_some hc with ⟨-, heq⟩ | ⟨-, hold⟩
  · exact hnew c heq hmaps
  · exact hinv.call tid' c hold hmaps

theorem SessionInv.setRevoke (hinv : SessionInv ch s) {tid : Nat} {call : Option RevokeCall}
    (hnew : ∀ c n, call = some c → c.target = some n → n ≤ s.session) :
    SessionInv ch (s.setRevoke tid call) := by
  refine { hinv with target := ?_ }
  intro tid' c n hc htarget
  rcases update_eq_some hc with ⟨-, heq⟩ | ⟨-, hold⟩
  · exact hnew c n heq htarget
  · exact hinv.target tid' c n hold htarget

theorem openSession_eq_some_iff {n : Nat} :
    s.openSession ch = some n ↔ n = s.session ∧ ch.isNull s.sc.capState.sealedCap = false := by
  unfold MapSys.openSession
  split
  · rename_i hnull
    simp [hnull]
  · rename_i hheld
    simp [hheld, eq_comm]

namespace MapInv

variable {tid object vaddr i : Nat} {c : MmapCall} {s' : MapSys Cap Key} {smem : SharedMemRegion}

/-- A call that has passed the search maps if its type has a size. -/
theorem maps_of_size (hinv : MapInv ch bufferSize s) (hcall : s.mmaps tid = some c)
    (hphase : c.phase ≠ .admitted) (hsized : bufferSize c.mapType ≠ 0) : c.Maps := by
  refine ⟨?_, hphase⟩
  rw [hinv.region.size tid c hcall]
  exact hsized

theorem other_types (hinv : MapInv ch bufferSize s) (hcall : s.mmaps tid = some c)
    (hphase : c.phase ≠ .admitted) (tid' : Nat) (c' : MmapCall) (hne : tid' ≠ tid)
    (hc' : s.mmaps tid' = some c') (hmaps : c'.Maps) :
    c'.mapType ≠ c.mapType := by
  intro htype
  have hsized : bufferSize c.mapType ≠ 0 := by
    rw [← htype, ← hinv.region.size tid' c' hc']
    exact hmaps.1
  exact hne (hinv.region.alone tid' tid c' c hc' hcall hmaps
    (hinv.maps_of_size hcall hphase hsized) htype)

theorem left (hinv : MapInv ch bufferSize s) (hcall : s.mmaps tid = some c)
    (hphase : ∀ vaddr, c.phase ≠ .entered vaddr) :
    RegionInv bufferSize (s.setMmap tid none) := by
  refine hinv.region.setMmap ?_ nofun nofun
  intro c' hc'
  rw [hcall] at hc'
  cases hc'
  exact hphase

theorem gone (hinv : MapInv ch bufferSize s) (hcall : s.mmaps tid = some c)
    (hphase : c.phase ≠ .admitted) (tid' : Nat) (c' : MmapCall)
    (hc' : (s.setMmap tid none).mmaps tid' = some c') (hmaps : c'.Maps) :
    c'.mapType ≠ c.mapType := by
  rcases update_eq_some hc' with ⟨-, hnone⟩ | ⟨hne, hold⟩
  · cases hnone
  · exact hinv.other_types hcall hphase tid' c' hne hold hmaps

theorem attach (hinv : MapInv ch bufferSize s) {sc : CapioSoftc Cap Key}
    (hidle : ∀ tid c, s.revokes tid = some c → ¬ c.Running)
    (hfree : ch.isNull s.sc.capState.sealedCap = true)
    (hregs : sc.sharedMemRegs = s.sc.sharedMemRegs) :
    RegionInv bufferSize { s with sc := sc, session := s.session + 1 } ∧
      RevokeInv ch { s with sc := sc, session := s.session + 1 } ∧
      SessionInv ch { s with sc := sc, session := s.session + 1 } := by
  refine ⟨?_, RevokeInv.of_idle hidle, ?_, ?_, ?_, ?_, hinv.session.complete⟩
  · have hregion : RegionInv bufferSize { s with sc := sc } := by
      refine hinv.region.withSoftc ?_ ?_
      · exact congrArg (List.map _) hregs
      · rw [hregs]
        exact hinv.region.marked
    exact { hregion with }
  · intro tid c hc hmaps
    rw [(hinv.session.call tid c hc hmaps).2] at hfree
    cases hfree
  · intro _ hmem
    have hle := hinv.session.past _ hmem
    simp only at hle
    omega
  · intro n hn
    exact Nat.le_succ_of_le (hinv.session.past n hn)
  · intro tid c n hc htarget
    exact Nat.le_succ_of_le (hinv.session.target tid c n hc htarget)

theorem mmap (hinv : MapInv ch bufferSize s)
    (hold : ∀ c, s.mmaps tid = some c → ∀ vaddr, c.phase ≠ .entered vaddr)
    (hsize : c.size = bufferSize c.mapType) (hphase : ∀ vaddr, c.phase ≠ .entered vaddr)
    (hsession : c.Maps → c.auth = s.session ∧ ch.isNull s.sc.capState.sealedCap = false)
    (hok : c.Maps → (c.readable = true ∧ c.mapType ∈ s.types ∧ s.CallOk c) ∧
      ∀ tid' c', tid' ≠ tid → s.mmaps tid' = some c' → c'.Maps → c'.mapType ≠ c.mapType) :
    RegionInv bufferSize (s.setMmap tid (some c)) ∧ RevokeInv ch (s.setMmap tid (some c)) ∧
      SessionInv ch (s.setMmap tid (some c)) := by
  refine ⟨hinv.region.setMmap hold ?_ ?_, hinv.revoke.keep rfl rfl rfl rfl ?_,
    hinv.session.setMmap ?_⟩
  · rintro c' ⟨⟩
    exact ⟨hsize, hphase⟩
  · rintro c' ⟨⟩
    exact hok
  · -- a call that maps shows the token, which a revocation that runs has cleared
    intro rc hrun
    refine noMaps_setMmap hrun.noMmaps ?_
    rintro c' ⟨⟩ hmaps
    have hheld := (hsession hmaps).2
    rw [hrun.cleared] at hheld
    cases hheld
  · rintro c' ⟨⟩
    exact hsession

theorem find (hinv : MapInv ch bufferSize s) {found : Found} (hsized : bufferSize c.mapType ≠ 0)
    (hfind : mmapFind s.sc.sharedMemRegs c.mapType = .ok found) :
    s.CallOk { c with phase := .found } := by
  have hdecl := hinv.sizes _ hsized
  have hunmapped := unmapped_of_mmapFind hfind
  intro o ho htype
  rw [MapSys.types_eq] at hdecl
  obtain ⟨smem, hmem, hsmem⟩ := List.mem_map.mp hdecl
  cases hfind : s.sc.sharedMemRegs.find? fun smem => smem.type = c.mapType with
  | none =>
    have hnone := List.find?_eq_none.mp hfind smem hmem
    simp [hsmem] at hnone
  | some smem' =>
    have hmem' := List.mem_of_find?_eq_some hfind
    have htype' : smem'.type = c.mapType := by simpa using List.find?_some hfind
    have hmapped := hinv.region.marked o ho (by rw [htype]; exact hsized) smem' hmem'
      (htype'.trans htype.symm)
    rw [hunmapped smem' hfind] at hmapped
    cases hmapped

/-- The calls other than the one that moves on are kept by every session. -/
theorem session_moved (hinv : MapInv ch bufferSize s) (hcall : s.mmaps tid = some c)
    (hphase : c.phase ≠ .admitted) (phase : MmapPhase) :
    SessionInv ch (s.setMmap tid (some { c with phase := phase })) := by
  refine hinv.session.setMmap ?_
  rintro c' ⟨⟩ hmaps
  exact hinv.session.call tid c hcall ⟨hmaps.1, hphase⟩

theorem session_left (hinv : MapInv ch bufferSize s) (tid : Nat) :
    SessionInv ch (s.setMmap tid none) := hinv.session.setMmap nofun

/-- Revocations take no notice of a call that is left or moves on without an entry. -/
theorem revoke_moved (hinv : MapInv ch bufferSize s) {call : Option MmapCall}
    (hcall : s.mmaps tid = some c) (hmmaps : s'.mmaps = (s.setMmap tid call).mmaps)
    (htable : s'.table = s.table) (hstate : s'.sc.capState = s.sc.capState)
    (hentries : s'.entries = s.entries) (hrevokes : s'.revokes = s.revokes)
    (hnew : ∀ c', call = some c' → c'.Maps → c.Maps) :
    RevokeInv ch s' := by
  refine hinv.revoke.keep htable hstate hentries hrevokes ?_
  intro rc hrun
  rw [hmmaps]
  refine noMaps_setMmap hrun.noMmaps ?_
  intro c' heq hmaps
  exact hrun.noMmaps tid c hcall (hnew c' heq hmaps)

theorem build (hinv : MapInv ch bufferSize s) (hcall : s.mmaps tid = some c)
    (hphase : c.phase = .found) :
    RegionInv bufferSize
      { s.setMmap tid (some { c with phase := .built s.nextObject }) with
        sc := capioPagerCtor s.sc c.mapType
        objects := s.objects ++ [{ id := s.nextObject, type := c.mapType, inCall := true }]
        nextObject := s.nextObject + 1 } := by
  have hsearched : c.phase ≠ .admitted := by
    rw [hphase]
    exact nofun
  have hnone : bufferSize c.mapType ≠ 0 → ∀ o ∈ s.objects, o.type ≠ c.mapType := by
    intro hsized
    obtain ⟨-, -, hok⟩ := hinv.region.call tid c hcall (hinv.maps_of_size hcall hsearched hsized)
    unfold MapSys.CallOk at hok
    rw [hphase] at hok
    exact hok
  have hleft := hinv.left hcall (by rw [hphase]; exact nofun)
  have hgone := hinv.gone hcall hsearched
  have hf : ∀ smem : SharedMemRegion,
      ({ smem with mapped := true } : SharedMemRegion).type = smem.type := fun _ => rfl
  have hmarked :
      RegionInv bufferSize { s.setMmap tid none with sc := capioPagerCtor s.sc c.mapType } :=
    hleft.withSoftc (map_onType fun _ => rfl)
      (hleft.marked_onType hf (fun _ _ => rfl) rfl)
  have hmark : ∀ smem ∈ (capioPagerCtor s.sc c.mapType).sharedMemRegs,
      smem.type = c.mapType → smem.mapped = true := by
    intro smem' hmem' htype
    obtain ⟨smem, -, rfl⟩ := exists_of_mem_onType hmem'
    split at htype
    · rename_i heq
      rw [if_pos heq]
    · rename_i hne
      exact absurd htype hne
  have hadded := hmarked.addObject hnone hgone hmark (o := ⟨s.nextObject, c.mapType, true⟩)
  have hidle : (s.setMmap tid none).mmaps tid = none := Function.update_self ..
  have hsize := hinv.region.size tid c hcall
  have hbuilt := hadded.takeMmap hidle { c with phase := .built s.nextObject } hsize nofun ?_ hgone
  · exact hbuilt.congr rfl rfl rfl (Function.update_idem ..).symm rfl
  · intro hmaps
    have hsized : bufferSize c.mapType ≠ 0 := hsize ▸ hmaps.1
    obtain ⟨hread, hdecl, -⟩ := hinv.region.call tid c hcall ⟨hmaps.1, hsearched⟩
    have hdecl' : c.mapType ∈
        MapSys.types { s.setMmap tid none with sc := capioPagerCtor s.sc c.mapType } := by
      rw [types_onType hf rfl]
      exact hdecl
    refine ⟨hread, hdecl', ?_, ?_⟩
    · exact ⟨_, List.mem_append_right _ (List.mem_singleton_self _), rfl, rfl, rfl⟩
    · intro e he htype
      obtain ⟨o, ho, -, hotype⟩ := hinv.region.backed e he
      exact hnone hsized o ho (hotype.trans htype)

theorem drop (hinv : MapInv ch bufferSize s) (hcall : s.mmaps tid = some c)
    (hphase : c.phase = .built object) :
    RegionInv bufferSize { s.setMmap tid none with objects := s.letGo object c.mapType } :=
  (hinv.left hcall (by rw [hphase]; exact nofun)).letGo object
    (hinv.gone hcall (by rw [hphase]; exact nofun))

theorem enter (hinv : MapInv ch bufferSize s) (hcall : s.mmaps tid = some c)
    (hphase : c.phase = .built object) (hvaddr : vaddr ≠ 0) (hmaps : c.Maps)
    (hfree : s.Free c.pid vaddr c.size) :
    RegionInv bufferSize
      { s.setMmap tid (some { c with phase := .entered vaddr }) with
        entries := s.entries ++ [MapSys.entryOf c object vaddr]
        objects := s.letGo object c.mapType } := by
  obtain ⟨hread, hdecl, hok⟩ := hinv.region.call tid c hcall hmaps
  unfold MapSys.CallOk at hok
  rw [hphase] at hok
  obtain ⟨⟨o, ho, hid, htype, -⟩, hnone⟩ := hok
  obtain ⟨o', ho', hid', htype', -⟩ := exists_letGo object c.mapType ho
  have hgone := hinv.gone hcall hmaps.2
  have hidle : (s.setMmap tid none).mmaps tid = none := Function.update_self ..
  have hentered := (hinv.drop hcall hphase).enter hidle
    (c := { c with phase := .entered vaddr }) hgone ⟨hread, hdecl⟩ hmaps.1
    (hinv.region.size tid c hcall) rfl hvaddr hnone ho' (htype'.trans htype) hfree
  refine hentered.congr rfl ?_ rfl (Function.update_idem ..).symm rfl
  rw [hid', hid]
  rfl

/-- The entry a call makes belongs to the current session, which is not revoked. -/
theorem complete_enter (hinv : MapInv ch bufferSize s) (hcall : s.mmaps tid = some c)
    (hmaps : c.Maps) :
    ∀ e ∈ s.entries ++ [MapSys.entryOf c object vaddr], e.auth ∉ s.revoked := by
  intro e he
  rcases List.mem_append.mp he with hold | hnew
  · exact hinv.session.complete e hold
  · obtain ⟨hauth, hheld⟩ := hinv.session.call tid c hcall hmaps
    rw [List.mem_singleton.mp hnew]
    change c.auth ∉ s.revoked
    rw [hauth]
    exact hinv.session.current hheld

theorem beginRevoke (hinv : MapInv ch bufferSize s) (pid : Nat) (hidle : s.revokes tid = none) :
    RegionInv bufferSize (s.setRevoke tid (some
        { pid := pid, target := none, error := none, phase := .admitted })) ∧
      RevokeInv ch (s.setRevoke tid (some
        { pid := pid, target := none, error := none, phase := .admitted })) ∧
      SessionInv ch (s.setRevoke tid (some
        { pid := pid, target := none, error := none, phase := .admitted })) := by
  refine ⟨hinv.region.setRevoke tid _ ?_, ⟨?_, ?_⟩, hinv.session.setRevoke ?_⟩
  · intro c hc
    rw [hidle] at hc
    cases hc
  · intro tid₁ tid₂ c₁ c₂ h₁ h₂ hrun₁ hrun₂
    rcases update_eq_some h₁ with ⟨-, heq⟩ | ⟨-, hold₁⟩
    · cases heq
      exact absurd rfl hrun₁
    · rcases update_eq_some h₂ with ⟨-, heq⟩ | ⟨-, hold₂⟩
      · cases heq
        exact absurd rfl hrun₂
      · exact hinv.revoke.one tid₁ tid₂ c₁ c₂ hold₁ hold₂ hrun₁ hrun₂
  · intro tid' c hc hrun
    rcases update_eq_some hc with ⟨-, heq⟩ | ⟨-, hold⟩
    · cases heq
      exact absurd rfl hrun
    · exact { hinv.revoke.running tid' c hold hrun with }
  · intro c n heq htarget
    cases heq
    cases htarget

theorem clear (hinv : MapInv ch bufferSize s) {c : RevokeCall} (hcall : s.revokes tid = some c)
    (hphase : c.phase = .admitted) (hno : ∀ tid' c, s.mmaps tid' = some c → ¬ c.Maps)
    (hidle : ∀ tid' c', s.revokes tid' = some c' → ¬ c'.Running)
    (howner : ∀ e ∈ s.entries, e.pid = c.pid) (hs' : s' =
      { s.setRevoke tid
          (some { c with target := s.openSession ch, error := none, phase := .scanning 0 }) with
        sc := clearCapState ch s.sc }) :
    RegionInv bufferSize s' ∧ RevokeInv ch s' ∧ SessionInv ch s' := by
  subst hs'
  refine ⟨?_, RevokeInv.of_only tid ?_ ?_, ?_⟩
  · refine (hinv.region.setRevoke tid _ ?_).congr rfl rfl rfl rfl rfl
    intro c' hc'
    rw [hcall] at hc'
    cases hc'
    rw [hphase]
    exact nofun
  · intro tid' c' hne hc'
    rcases update_eq_some hc' with ⟨heq, -⟩ | ⟨-, hold⟩
    · exact absurd heq hne
    · exact hidle tid' c' hold
  · intro c' hc' _
    rcases update_eq_some hc' with ⟨-, heq⟩ | ⟨hne, -⟩
    · cases heq
      exact
        { noMmaps := hno
          cleared := ch.isNull_null
          owner := howner
          passed := fun _ _ i hi => absurd hi (Nat.not_lt_zero i)
          reading := nofun
          clearing := nofun }
    · exact absurd rfl hne
  · refine ⟨?_, ?_, hinv.session.past, ?_, hinv.session.complete⟩
    · intro tid' c' hc' hmaps
      exact absurd hmaps (hno tid' c' hc')
    · intro hheld
      change ch.isNull ch.null = false at hheld
      rw [ch.isNull_null] at hheld
      cases hheld
    · intro tid' c' n hc' htarget
      rcases update_eq_some hc' with ⟨-, heq⟩ | ⟨-, hold⟩
      · cases heq
        exact Nat.le_of_eq (openSession_eq_some_iff.mp htarget).1
      · exact hinv.session.target tid' c' n hold htarget

theorem moveRevoke (hinv : MapInv ch bufferSize s) {c c' : RevokeCall}
    (hcall : s.revokes tid = some c) (hrun : c.Running) (hphase : ∀ i, c.phase ≠ .forgetting i)
    (htarget : c'.target = c.target) (hok : RunningOk ch s c') :
    RegionInv bufferSize (s.setRevoke tid (some c')) ∧ RevokeInv ch (s.setRevoke tid (some c')) ∧
      SessionInv ch (s.setRevoke tid (some c')) := by
  refine ⟨hinv.region.setRevoke tid _ ?_, ?_, hinv.session.setRevoke ?_⟩
  · intro c'' hc''
    rw [hcall] at hc''
    cases hc''
    exact hphase
  · exact hinv.revoke.step hcall hrun rfl { hok with }
  · intro c'' n heq htarget'
    cases heq
    rw [htarget] at htarget'
    exact hinv.session.target tid c n hcall htarget'

theorem read (hinv : MapInv ch bufferSize s) {c : RevokeCall} (hcall : s.revokes tid = some c)
    (hphase : c.phase = .scanning i) (hsmem : s.sc.sharedMemRegs[i]? = some smem)
    (hoffset : smem.offset ≠ 0) :
    RunningOk ch s { c with phase := .deleting i smem } := by
  have hok := hinv.revoke.running tid c hcall (RevokeCall.running_of_phase hphase nofun)
  have hpassed := hok.passed
  rw [hphase] at hpassed
  refine { hok with passed := hpassed, reading := ?_, clearing := nofun }
  intro j smem' heq
  cases heq
  refine ⟨hoffset, ?_⟩
  rw [MapSys.table, List.getElem?_map, hsmem, Option.map_some]

theorem skip (hinv : MapInv ch bufferSize s) {c : RevokeCall} (hcall : s.revokes tid = some c)
    (hphase : c.phase = .scanning i) (hsmem : s.sc.sharedMemRegs[i]? = some smem)
    (hoffset : smem.offset = 0) :
    RunningOk ch s { c with phase := .scanning (i + 1) } := by
  have hok := hinv.revoke.running tid c hcall (RevokeCall.running_of_phase hphase nofun)
  have hpassed := hok.passed
  rw [hphase] at hpassed
  refine { hok with passed := ?_, reading := nofun, clearing := nofun }
  intro e he j hj htype
  rcases Nat.lt_succ_iff_lt_or_eq.mp hj with hlt | rfl
  · exact hpassed e he j hlt htype
  · rw [MapSys.types_eq, List.getElem?_map, hsmem, Option.map_some] at htype
    exact hok.skip hinv.region hsmem hoffset e he (Option.some.inj htype)

theorem finish (hinv : MapInv ch bufferSize s) {c : RevokeCall} (hcall : s.revokes tid = some c)
    (hphase : c.phase = .scanning i) (hend : s.sc.sharedMemRegs[i]? = none) (hs' : s' =
      { s.setRevoke tid none with
        revoked := if c.error = none then c.target.toList ++ s.revoked else s.revoked }) :
    RegionInv bufferSize s' ∧ RevokeInv ch s' ∧ SessionInv ch s' := by
  subst hs'
  have hrun : c.Running := RevokeCall.running_of_phase hphase nofun
  have hok := hinv.revoke.running tid c hcall hrun
  have hempty := hok.no_entries hinv.region hphase hend
  refine ⟨?_, RevokeInv.of_idle ?_, ?_, ?_, ?_, ?_, ?_⟩
  · refine (hinv.region.setRevoke tid none ?_).congr rfl rfl rfl rfl rfl
    intro c' hc'
    rw [hcall] at hc'
    cases hc'
    rw [hphase]
    exact nofun
  · intro tid' c' hc'
    rcases update_eq_some hc' with ⟨-, hnone⟩ | ⟨hne, hold⟩
    · cases hnone
    · exact hinv.revoke.others hcall hrun tid' c' hne hold
  · exact hinv.session.call
  · intro hheld
    change ch.isNull s.sc.capState.sealedCap = false at hheld
    rw [hok.cleared] at hheld
    cases hheld
  · intro n hn
    simp only at hn
    split at hn
    · rcases List.mem_append.mp hn with htarget | hold
      · exact hinv.session.target tid c n hcall (Option.mem_toList.mp htarget)
      · exact hinv.session.past n hold
    · exact hinv.session.past n hn
  · intro tid' c' n hc' htarget
    rcases update_eq_some hc' with ⟨-, hnone⟩ | ⟨-, hold⟩
    · cases hnone
    · exact hinv.session.target tid' c' n hold htarget
  · intro e he
    exact absurd he (hempty e)

theorem delete (hinv : MapInv ch bufferSize s) {c : RevokeCall} (hcall : s.revokes tid = some c)
    (hphase : c.phase = .deleting i smem) (hs' : s' =
      { s.setRevoke tid (some { c with error := none, phase := .forgetting i }) with
        entries := (deleteMappingFromUser s.entries c.pid smem.offset smem.len).2 }) :
    RegionInv bufferSize s' ∧ RevokeInv ch s' ∧ SessionInv ch s' := by
  subst hs'
  have hrun : c.Running := RevokeCall.running_of_phase hphase (by intro h; cases h)
  have hok := hinv.revoke.running tid c hcall hrun
  have hpassed := hok.passed
  rw [hphase] at hpassed
  have htype : s.types[i]? = some smem.type := by
    rw [MapSys.types, List.getElem?_map, (hok.reading i smem hphase).2, Option.map_some]
  rw [delete_eq_filter hinv.region hinv.revoke hcall hphase]
  have hof : ∀ e ∈ s.entries.filter fun e => e.type ≠ smem.type, e ∈ s.entries := fun e he =>
    (List.mem_filter.mp he).1
  refine ⟨?_, hinv.revoke.step hcall hrun rfl ?_, ?_⟩
  · exact hinv.region.delete hcall (by rw [hphase]; intro j h; cases h) rfl htype hok.noMmaps
  · refine
      { hok with
        owner := fun e he => hok.owner e (hof e he)
        passed := ?_
        reading := ?_
        clearing := ?_ }
    · intro e he j hj heq
      rcases Nat.lt_succ_iff_lt_or_eq.mp hj with hlt | rfl
      · exact hpassed e (hof e he) j hlt heq
      · have hsame : smem.type = e.type := Option.some.inj (htype.symm.trans heq)
        have hne := (List.mem_filter.mp he).2
        simp [hsame] at hne
    · intro j smem' heq
      cases heq
    · intro j heq
      cases heq
      exact ⟨_, htype⟩
  · have hsession : SessionInv ch
        (s.setRevoke tid (some { c with error := none, phase := .forgetting i })) := by
      refine hinv.session.setRevoke ?_
      intro c' n heq htarget
      cases heq
      exact hinv.session.target tid c n hcall htarget
    exact { hsession with complete := fun e he => hinv.session.complete e (hof e he) }

theorem forget (hinv : MapInv ch bufferSize s) {c : RevokeCall} (hcall : s.revokes tid = some c)
    (hphase : c.phase = .forgetting i) (hs' : s' =
      { s.setRevoke tid (some { c with phase := .scanning (i + 1) }) with
        sc :=
          { s.sc with
            sharedMemRegs :=
              s.sc.sharedMemRegs.modify i fun smem => { smem with offset := 0 } } })
    (htypes : s'.types = s.types) :
    RegionInv bufferSize s' ∧ RevokeInv ch s' ∧ SessionInv ch s' := by
  have hrun : c.Running := RevokeCall.running_of_phase hphase nofun
  have hok := hinv.revoke.running tid c hcall hrun
  have hpassed := hok.passed
  rw [hphase] at hpassed
  obtain ⟨type, htype⟩ := hok.clearing i hphase
  have hrow := htype
  rw [MapSys.types_eq, List.getElem?_map] at hrow
  obtain ⟨smem, hsmem, hsmemType⟩ := Option.map_eq_some_iff.mp hrow
  have hnone : ∀ e ∈ s.entries, e.type ≠ smem.type := by
    intro e he heq
    refine hpassed e he i (Nat.lt_succ_self i) ?_
    rw [htype, heq, hsmemType]
  have hrevokes : s'.revokes =
      Function.update s.revokes tid (some { c with phase := .scanning (i + 1) }) := by
    rw [hs']
    rfl
  refine ⟨?_, hinv.revoke.step hcall hrun hrevokes ?_, ?_⟩
  · rw [hs']
    exact hinv.region.forget hcall hphase hsmem hnone
  · refine ⟨?_, ?_, ?_, ?_, nofun, nofun⟩
    · rw [hs']
      exact hok.noMmaps
    · rw [hs']
      exact hok.cleared
    · rw [hs']
      exact hok.owner
    · rw [htypes]
      rw [hs']
      exact hpassed
  · have hsession : SessionInv ch
        (s.setRevoke tid (some { c with phase := .scanning (i + 1) })) := by
      refine hinv.session.setRevoke ?_
      intro c' n heq htarget
      cases heq
      exact hinv.session.target tid c n hcall htarget
    rw [hs']
    exact { hsession with }

theorem dtor (hinv : MapInv ch bufferSize s) {o : PagerObject} (hmem : o ∈ s.objects)
    (hunref : s.Unreferenced o) (hs' : s' =
      { s with
        sc := capioPagerDtor s.sc o.type
        objects := s.objects.filter fun o' => o' ≠ o }) :
    RegionInv bufferSize s' ∧ RevokeInv ch s' ∧ SessionInv ch s' := by
  have htable : s'.table = s.table := by
    rw [hs']
    exact map_onType fun _ => rfl
  refine ⟨?_, ?_, ?_⟩
  · rw [hs']
    refine (hinv.region.dropObject hunref).withSoftc (map_onType fun _ => rfl) ?_
    intro o' ho' hsized smem' hmem' htype
    obtain ⟨hin, hne⟩ := List.mem_filter.mp ho'
    obtain ⟨smem, hsmem, rfl⟩ := exists_of_mem_onType hmem'
    split at htype
    · rename_i heq
      -- two objects of one type would be one
      have hsame := hinv.region.oneEach o' hin o hmem hsized (htype.symm.trans heq)
      simp [hsame] at hne
    · rename_i hother
      rw [if_neg hother]
      exact hinv.region.marked o' hin hsized smem hsmem htype
  · subst hs'
    exact hinv.revoke.keep htable rfl rfl rfl fun _ hok => hok.noMmaps
  · rw [hs']
    exact { hinv.session with }

end MapInv

variable [DecidableEq Cap]

theorem mapInv_mapStep (s : MapSys Cap Key) (l : MapLabel Cap) (s' : MapSys Cap Key)
    (hinv : MapInv ch bufferSize s) (hguard : Orderly ch s l)
    (hstep : mapStep ch bufferSize s l = some s') : MapInv ch bufferSize s' := by
  have hcase := mapCase_mapStep hstep
  have htypes := types_mapCase hcase
  suffices hparts : RegionInv bufferSize s' ∧ RevokeInv ch s' ∧ SessionInv ch s' by
    refine ⟨?_, hparts.1, hparts.2.1, hparts.2.2⟩
    rw [htypes]
    exact hinv.sizes
  cases hcase with
  | refused => exact ⟨hinv.region, hinv.revoke, hinv.session⟩
  | attach req hfree hset sc hregs =>
    obtain ⟨out, hout⟩ := hset
    exact hinv.attach (hguard out hout) hfree hregs
  | admitted tid pid dying req nprot offset size hidle hbuffer =>
    refine hinv.mmap ?_ hbuffer nofun ?_ ?_
    · intro c hc
      rw [hidle] at hc
      cases hc
    · exact fun hmaps => absurd rfl hmaps.2
    · exact fun hmaps => absurd rfl hmaps.2
  | find tid c found hcall hphase hfind =>
    have hsize := hinv.region.size tid c hcall
    refine hinv.mmap ?_ hsize nofun ?_ ?_
    · intro c' hc'
      rw [hcall] at hc'
      cases hc'
      rw [hphase]
      exact nofun
    · intro hmaps
      obtain ⟨-, hopen, -⟩ := hguard c found hcall hmaps.1 hfind
      exact openSession_eq_some_iff.mp hopen
    · intro hmaps
      obtain ⟨hread, -, halone⟩ := hguard c found hcall hmaps.1 hfind
      have hsized : bufferSize c.mapType ≠ 0 := hsize ▸ hmaps.1
      exact ⟨⟨hread, hinv.sizes _ hsized, hinv.find hsized hfind⟩,
        fun tid' c' _ => halone tid' c'⟩
  | leave tid c hcall hphase =>
    refine ⟨hinv.left hcall ?_, hinv.revoke_moved hcall rfl rfl rfl rfl rfl nofun,
      hinv.session_left tid⟩
    rcases hphase with hphase | hphase
    · rw [hphase]
      exact nofun
    · rw [hphase]
      exact nofun
  | build tid c hcall hphase =>
    have hsearched : c.phase ≠ .admitted := by
      rw [hphase]
      exact nofun
    refine ⟨hinv.build hcall hphase, hinv.revoke_moved hcall rfl (map_onType fun _ => rfl)
      rfl rfl rfl ?_, { hinv.session_moved hcall hsearched (.built s.nextObject) with }⟩
    rintro c' ⟨⟩ hmaps
    exact ⟨hmaps.1, hsearched⟩
  | drop tid c object hcall hphase =>
    exact ⟨hinv.drop hcall hphase, hinv.revoke_moved hcall rfl rfl rfl rfl rfl nofun,
      { hinv.session_left tid with }⟩
  | enter tid vaddr c object hcall hphase hvaddr hsize hfree =>
    have hmaps : c.Maps := ⟨hsize, by rw [hphase]; exact nofun⟩
    exact ⟨hinv.enter hcall hphase hvaddr hmaps hfree,
      RevokeInv.of_idle (hinv.revoke.not_running hcall hmaps),
      { hinv.session_moved hcall hmaps.2 (.entered vaddr) with
        complete := hinv.complete_enter hcall hmaps }⟩
  | callback tid c vaddr hcall hphase =>
    have hmaps : c.Maps :=
      ⟨hinv.region.entered tid c vaddr hcall hphase, by rw [hphase]; exact nofun⟩
    have hstate : (capioVaddrCallback s.sc vaddr c.size c.mapType).2.capState =
        s.sc.capState := by
      unfold capioVaddrCallback
      split <;> rfl
    have hleft := hinv.session_left tid
    refine ⟨hinv.region.callback hcall hphase,
      RevokeInv.of_idle (hinv.revoke.not_running hcall hmaps),
      { hleft with call := ?_, current := ?_ }⟩
    · rw [hstate]
      exact hleft.call
    · rw [hstate]
      exact hleft.current
  | begin tid pid hbegins hidle => exact hinv.beginRevoke pid hidle
  | clear tid c hcall hphase =>
    obtain ⟨hno, hidle, howner⟩ := hguard
    exact hinv.clear hcall hphase hno hidle (howner c hcall) rfl
  | read tid c i smem hcall hphase hsmem hoffset =>
    exact hinv.moveRevoke hcall (RevokeCall.running_of_phase hphase nofun)
      (by rw [hphase]; exact nofun) rfl (hinv.read hcall hphase hsmem hoffset)
  | skip tid c i smem hcall hphase hsmem hoffset =>
    exact hinv.moveRevoke hcall (RevokeCall.running_of_phase hphase nofun)
      (by rw [hphase]; exact nofun) rfl (hinv.skip hcall hphase hsmem hoffset)
  | finish tid c i hcall hphase hend => exact hinv.finish hcall hphase hend rfl
  | delete tid c i smem hcall hphase => exact hinv.delete hcall hphase rfl
  | forget tid c i hcall hphase => exact hinv.forget hcall hphase rfl htypes
  | fork pid child =>
    have hnil : s.entries.filter (fun e => decide (e.pid = pid)) = [] := by
      refine List.filter_eq_nil_iff.mpr ?_
      intro e he
      simpa using hguard e he
    simp only [hnil, List.map_nil, List.append_nil]
    exact ⟨hinv.region, hinv.revoke, hinv.session⟩
  | dtor o hmem hunref => exact hinv.dtor hmem hunref rfl

omit [DecidableEq Cap] in
theorem mapInv_start {createSealingKey : Nat → Key}
    (hstart : MapStart ch bufferSize createSealingKey s) : MapInv ch bufferSize s := by
  obtain ⟨⟨smem, hinit⟩, htypes, hunmapped, hsizes, hentries, hobjects, hmmaps, hrevokes,
    hrevoked⟩ := hstart
  have hnoEntry : ∀ e, e ∉ s.entries := by
    intro e he
    rw [hentries] at he
    cases he
  have hnoObject : ∀ o, o ∉ s.objects := by
    intro o ho
    rw [hobjects] at ho
    cases ho
  have hnoCall : ∀ tid c, s.mmaps tid ≠ some c := by
    intro tid c hc
    rw [hmmaps] at hc
    cases hc
  have hnoRevoke : ∀ tid c, s.revokes tid ≠ some c := by
    intro tid c hc
    rw [hrevokes] at hc
    cases hc
  refine ⟨?_, ?_, RevokeInv.of_idle fun tid c hc => absurd hc (hnoRevoke tid c), ?_⟩
  · rw [MapSys.types_eq]
    exact hsizes
  · refine
      { types := by rw [MapSys.types_eq]; exact htypes
        entry := fun e he => absurd he (hnoEntry e)
        single := fun e he => absurd he (hnoEntry e)
        apart := fun e he => absurd he (hnoEntry e)
        recorded := fun e he => absurd he (hnoEntry e)
        live := ?_
        marked := fun o ho => absurd ho (hnoObject o)
        oneEach := fun o ho => absurd ho (hnoObject o)
        backed := fun e he => absurd he (hnoEntry e)
        alone := fun tid _ c _ hc => absurd hc (hnoCall tid c)
        size := fun tid c hc => absurd hc (hnoCall tid c)
        call := fun tid c hc => absurd hc (hnoCall tid c)
        entered := fun tid c _ hc => absurd hc (hnoCall tid c) }
    intro type offset len hrow hoffset
    obtain ⟨smem', hmem, heq⟩ := List.mem_map.mp hrow
    cases heq
    exact absurd (hunmapped smem' hmem) hoffset
  · refine ⟨fun tid c hc => absurd hc (hnoCall tid c), ?_, ?_,
      fun tid c _ hc => absurd hc (hnoRevoke tid c), fun e he => absurd he (hnoEntry e)⟩
    · rw [hrevoked]
      exact fun _ => List.not_mem_nil
    · rw [hrevoked]
      intro n hn
      cases hn

/-- With orderly callers revocation is complete in every state that is reached. -/
theorem orderly_revocation_complete {createSealingKey : Nat → Key} {t : MapSys Cap Key}
    {labels : List (MapLabel Cap)} (hstart : MapStart ch bufferSize createSealingKey s)
    (horder : Obeys (mapStep ch bufferSize) (Orderly ch) s labels)
    (hrun : exec (mapStep ch bufferSize) s labels = some t) : RevocationComplete t :=
  (exec_invariant_of_obeys mapInv_mapStep (mapInv_start hstart) horder hrun).session.complete

end Transitions

/-! ## Runs -/

/-- A device with one region of 8192 bytes, type 0. -/
def sampleDevice : MapSys SealedWord Nat where
  sc :=
    initCapioSc SealedWord.sealing id
      [{ type := 0, isPhysical := false, offset := 0, len := 8192, mapped := false,
         isSliced := false, sliceDefinitions := [], sliceDefLen := 0 }]
  session := 0
  entries := []
  objects := []
  nextObject := 0
  mmaps := fun _ => none
  revokes := fun _ => none
  revoked := []

/-- The size of its region. -/
def sampleSize (type : Int) : Nat := if type = 0 then 8192 else 0

theorem mapStart_sampleDevice :
    MapStart SealedWord.sealing sampleSize id sampleDevice where
  init := ⟨_, rfl⟩
  types := by decide
  unmapped := by decide
  sizes := by
    intro type hsize
    unfold sampleSize at hsize
    split at hsize
    · rename_i htype
      rw [htype]
      decide
    · exact absurd rfl hsize
  entries := rfl
  objects := rfl
  mmaps := fun _ => rfl
  revokes := fun _ => rfl
  revoked := rfl

/-- The capability the sample process attaches with. -/
def sampleCap : SealedWord := .word true 4096

/-- Its token. -/
def sampleToken : SealedWord := .sealed sampleCap 0x1234

/-- The process attaches. -/
def sampleAttach : MapLabel SealedWord :=
  .attach { userCap := sampleCap, sealedCap := .word false 0 }

/-- Thread `tid` of process 10 asks for the region. -/
def sampleAdmit (tid : Nat) (read : Bool) : MapLabel SealedWord :=
  .mmapAdmit tid 10 false { userCap := sampleCap, sealedCap := sampleToken, mapType := 0 }
    { read := read, write := true, readCap := false, writeCap := false } 0 8192

/-- The steps of a revocation by thread `tid` when the region has an address. -/
def sampleRevoke (tid : Nat) : List (MapLabel SealedWord) :=
  [.revokeClear tid, .revokeNext tid, .revokeDelete tid, .revokeForget tid, .revokeNext tid]

/-- Process 10 attaches and maps the region. -/
def sampleMap (read : Bool) : List (MapLabel SealedWord) :=
  [sampleAttach, sampleAdmit 1 read, .mmapFind 1, .mmapBuild 1, .mmapEnter 1 65536,
    .mmapCallback 1]

/-- A session that maps, says goodbye and is left with no entry. -/
theorem orderly_session_revoked :
    ∃ t, exec (mapStep SealedWord.sealing sampleSize) sampleDevice
        (sampleMap true ++ .goodbye 1 10 sampleToken :: sampleRevoke 1) = some t ∧
      t.revoked = [1] ∧ RevocationComplete t := by
  obtain ⟨t, hrun, hrevoked⟩ : ∃ t, exec (mapStep SealedWord.sealing sampleSize) sampleDevice
      (sampleMap true ++ .goodbye 1 10 sampleToken :: sampleRevoke 1) = some t ∧ t.revoked = [1] :=
    ⟨_, rfl, rfl⟩
  refine ⟨t, hrun, hrevoked, orderly_revocation_complete mapStart_sampleDevice ?_ hrun⟩
  refine ⟨?_, trivial, ?_, trivial, trivial, trivial, trivial, ⟨?_, ?_, ?_⟩,
    trivial, trivial, trivial, trivial, trivial⟩
  · intro out _ tid c hc
    cases hc
  · intro c found hc _ _
    cases hc
    refine ⟨rfl, rfl, ?_⟩
    intro tid' c' hc' hmaps
    rcases update_eq_some hc' with ⟨-, heq⟩ | ⟨-, hnone⟩
    · cases heq
      exact absurd rfl hmaps.2
    · cases hnone
  · intro tid c hc
    by_cases htid : tid = 1
    · subst htid
      cases hc
    · change Function.update (Function.update (Function.update (Function.update (Function.update
        (fun _ => none) 1 _) 1 _) 1 _) 1 _) 1 none tid = some c at hc
      simp only [Function.update_of_ne htid] at hc
      cases hc
  · intro tid c hc hrunning
    rcases update_eq_some hc with ⟨-, heq⟩ | ⟨-, hnone⟩
    · cases heq
      exact hrunning rfl
    · cases hnone
  · intro c hc e he
    cases hc
    rw [List.mem_singleton.mp he]
    rfl

/-- A call shows its token before the goodbye and makes its entry after it. -/
def lateRun : List (MapLabel SealedWord) :=
  [sampleAttach, sampleAdmit 1 true, .goodbye 2 10 sampleToken, .revokeClear 2, .revokeNext 2,
    .revokeNext 2, .mmapFind 1, .mmapBuild 1, .mmapEnter 1 65536]

/-- Two calls pass the search before either marks the region. -/
def doubleRun : List (MapLabel SealedWord) :=
  [sampleAttach, sampleAdmit 1 true, sampleAdmit 2 true, .mmapFind 1, .mmapFind 2, .mmapBuild 1,
    .mmapBuild 2, .mmapEnter 1 65536, .mmapEnter 2 131072, .mmapCallback 1, .mmapCallback 2,
    .goodbye 1 10 sampleToken] ++ sampleRevoke 1

/-- The process forks before it says goodbye. -/
def forkRun : List (MapLabel SealedWord) :=
  sampleMap true ++ .fork 10 11 :: .goodbye 1 10 sampleToken :: sampleRevoke 1

/-- The last close comes from a process without mappings. -/
def foreignRun : List (MapLabel SealedWord) :=
  sampleMap true ++ .close 2 11 :: sampleRevoke 2

/-- The region is mapped for writing only. -/
def unreadableRun : List (MapLabel SealedWord) :=
  sampleMap false ++ .goodbye 1 10 sampleToken :: sampleRevoke 1

/-- At the end of the run `revoke_cap_token` has returned 0 for the first session and
a mapping of that session is left. -/
def LeavesMapping (run : List (MapLabel SealedWord)) : Prop :=
  ∃ t, exec (mapStep SealedWord.sealing sampleSize) sampleDevice run = some t ∧
    t.revoked = [1] ∧ ¬ RevocationComplete t

theorem leavesMapping_of_entry {run : List (MapLabel SealedWord)} {t : MapSys SealedWord Nat}
    {e : MapEntry} (hrun : exec (mapStep SealedWord.sealing sampleSize) sampleDevice run = some t)
    (hrevoked : t.revoked = [1]) (hentries : t.entries = [e]) (hauth : e.auth = 1) :
    LeavesMapping run := by
  refine ⟨t, hrun, hrevoked, ?_⟩
  intro hcomplete
  apply hcomplete e
  · rw [hentries]
    exact List.mem_singleton_self e
  · rw [hrevoked, hauth]
    exact List.mem_singleton_self 1

/-- Each of the five ways to leave a mapping behind. -/
theorem revocation_leaves_mappings :
    LeavesMapping lateRun ∧ LeavesMapping doubleRun ∧ LeavesMapping forkRun ∧
      LeavesMapping foreignRun ∧ LeavesMapping unreadableRun :=
  ⟨leavesMapping_of_entry rfl rfl rfl rfl, leavesMapping_of_entry rfl rfl rfl rfl,
    leavesMapping_of_entry rfl rfl rfl rfl, leavesMapping_of_entry rfl rfl rfl rfl,
    leavesMapping_of_entry rfl rfl rfl rfl⟩

end Capio
end SfcCapio
