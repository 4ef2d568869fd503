import SfcCapio.Capio.Regions

/-!
# Entries, regions and calls that map

`RegionInv` says how the maps of the processes, the table of regions, the pager
objects and the calls under way fit together while callers are orderly: a region has
at most one entry, which is readable and whose address is remembered or about to be,
and every remembered address is that of an entry or about to be cleared.  There is
one lemma for each way in which a transition changes these four.

Calls and objects count only where they can lead to an entry.  A request of length 0 is
accepted for every type without a size, as often as one likes, and leads to none.
-/

namespace SfcCapio
namespace Capio

open Foundation

section Invariant

variable {Cap Key : Type*}

/-- Type, remembered address and length of each region. -/
def MapSys.table (s : MapSys Cap Key) : List (Int × Nat × Nat) :=
  s.sc.sharedMemRegs.map fun smem => (smem.type, smem.offset, smem.len)

/-- The types of the regions. -/
def MapSys.types (s : MapSys Cap Key) : List Int := s.table.map Prod.fst

theorem MapSys.types_eq (s : MapSys Cap Key) :
    s.types = s.sc.sharedMemRegs.map SharedMemRegion.type := by
  rw [MapSys.types, MapSys.table, List.map_map]
  rfl

/-- A revocation is about to clear the address of the region. -/
def MapSys.Forgetting (s : MapSys Cap Key) (type : Int) : Prop :=
  ∃ tid c i, s.revokes tid = some c ∧ c.phase = .forgetting i ∧ s.types[i]? = some type

/-- What a call that maps has secured at its phase. -/
def MapSys.CallOk (s : MapSys Cap Key) (c : MmapCall) : Prop :=
  match c.phase with
  | .admitted => True
  | .found => ∀ o ∈ s.objects, o.type ≠ c.mapType
  | .built object =>
    (∃ o ∈ s.objects, o.id = object ∧ o.type = c.mapType ∧ o.inCall = true) ∧
      ∀ e ∈ s.entries, e.type ≠ c.mapType
  | .entered vaddr =>
    vaddr ≠ 0 ∧ ∃ e ∈ s.entries, e.type = c.mapType ∧ e.start = vaddr ∧ e.len = c.size

/-- Entries, regions, pager objects and calls that map. -/
structure RegionInv (bufferSize : Int → Nat) (s : MapSys Cap Key) : Prop where
  types : s.types.Nodup
  entry : ∀ e ∈ s.entries, e.readable = true ∧ e.start ≠ 0 ∧ 0 < e.len ∧ e.type ∈ s.types
  single : ∀ e ∈ s.entries, ∀ e' ∈ s.entries, e.type = e'.type → e = e'
  apart : ∀ e ∈ s.entries, ∀ e' ∈ s.entries, e.pid = e'.pid → e.type ≠ e'.type →
    e.start + e.len ≤ e'.start ∨ e'.start + e'.len ≤ e.start
  recorded : ∀ e ∈ s.entries, ∀ offset len, (e.type, offset, len) ∈ s.table →
    (offset = e.start ∧ len = e.len) ∨
      ∃ tid c, s.mmaps tid = some c ∧ c.mapType = e.type ∧ c.phase = .entered e.start
  live : ∀ type offset len, (type, offset, len) ∈ s.table → offset ≠ 0 →
    (∃ e ∈ s.entries, e.type = type ∧ e.start = offset ∧ e.len = len) ∨ s.Forgetting type
  marked : ∀ o ∈ s.objects, bufferSize o.type ≠ 0 →
    ∀ smem ∈ s.sc.sharedMemRegs, smem.type = o.type → smem.mapped = true
  oneEach : ∀ o ∈ s.objects, ∀ o' ∈ s.objects, bufferSize o.type ≠ 0 → o.type = o'.type → o = o'
  backed : ∀ e ∈ s.entries, ∃ o ∈ s.objects, o.id = e.object ∧ o.type = e.type
  alone : ∀ tid tid' c c', s.mmaps tid = some c → s.mmaps tid' = some c' → c.Maps → c'.Maps →
    c.mapType = c'.mapType → tid = tid'
  size : ∀ tid c, s.mmaps tid = some c → c.size = bufferSize c.mapType
  call : ∀ tid c, s.mmaps tid = some c → c.Maps →
    c.readable = true ∧ c.mapType ∈ s.types ∧ s.CallOk c
  entered : ∀ tid c vaddr, s.mmaps tid = some c → c.phase = .entered vaddr → c.size ≠ 0

end Invariant

/-! ## Moving on in a call -/

section Moves

variable {Cap Key : Type*} {bufferSize : Int → Nat} {s : MapSys Cap Key}

theorem update_eq_some {α : Type*} {m : Nat → Option α} {tid tid' : Nat} {x : Option α} {c : α}
    (hcall : Function.update m tid x tid' = some c) :
    (tid' = tid ∧ x = some c) ∨ (tid' ≠ tid ∧ m tid' = some c) := by
  by_cases htid : tid' = tid
  · subst htid
    rw [Function.update_self] at hcall
    exact Or.inl ⟨rfl, hcall⟩
  · rw [Function.update_of_ne htid] at hcall
    exact Or.inr ⟨htid, hcall⟩

theorem RegionInv.congr (hinv : RegionInv bufferSize s) {s' : MapSys Cap Key}
    (hregs : s'.sc.sharedMemRegs = s.sc.sharedMemRegs) (hentries : s'.entries = s.entries)
    (hobjects : s'.objects = s.objects) (hmmaps : s'.mmaps = s.mmaps)
    (hrevokes : s'.revokes = s.revokes) : RegionInv bufferSize s' := by
  obtain ⟨⟨key, capState, mapped, regs⟩, session, entries, objects, nextObject, mmaps, revokes,
    revoked⟩ := s'
  subst hregs hentries hobjects hmmaps hrevokes
  exact { hinv with }

/-- A call keeps what it has secured as long as the objects and entries of its type
stay. -/
theorem MapSys.CallOk.mono {s' : MapSys Cap Key} {c : MmapCall} (hok : s.CallOk c)
    (hobjects : ∀ o' ∈ s'.objects, o'.type = c.mapType → ∃ o ∈ s.objects, o.type = c.mapType)
    (hheld : ∀ o ∈ s.objects, o.type = c.mapType → o.inCall = true → o ∈ s'.objects)
    (hentries : ∀ e, e.type = c.mapType → (e ∈ s'.entries ↔ e ∈ s.entries)) : s'.CallOk c := by
  unfold MapSys.CallOk at hok ⊢
  split
  · trivial
  · rename_i hphase
    rw [hphase] at hok
    intro o' ho' htype
    obtain ⟨o, ho, hotype⟩ := hobjects o' ho' htype
    exact hok o ho hotype
  · rename_i object hphase
    rw [hphase] at hok
    obtain ⟨⟨o, ho, hid, htype, hin⟩, hnone⟩ := hok
    refine ⟨⟨o, hheld o ho htype hin, hid, htype, hin⟩, ?_⟩
    intro e he hetype
    exact hnone e ((hentries e hetype).mp he) hetype
  · rename_i vaddr hphase
    rw [hphase] at hok
    obtain ⟨hvaddr, e, he, htype, hstart, hlen⟩ := hok
    exact ⟨hvaddr, e, (hentries e htype).mpr he, htype, hstart, hlen⟩

/-- A thread starts or moves on in a call, or leaves it before it has made an entry. -/
theorem RegionInv.setMmap (hinv : RegionInv bufferSize s) {tid : Nat} {call : Option MmapCall}
    (hold : ∀ c, s.mmaps tid = some c → ∀ vaddr, c.phase ≠ .entered vaddr)
    (hsize : ∀ c, call = some c →
      c.size = bufferSize c.mapType ∧ ∀ vaddr, c.phase ≠ .entered vaddr)
    (hnew : ∀ c, call = some c → c.Maps →
      (c.readable = true ∧ c.mapType ∈ s.types ∧ s.CallOk c) ∧
        ∀ tid' c', tid' ≠ tid → s.mmaps tid' = some c' → c'.Maps → c'.mapType ≠ c.mapType) :
    RegionInv bufferSize (s.setMmap tid call) := by
  refine { hinv with recorded := ?_, alone := ?_, size := ?_, call := ?_, entered := ?_ }
  · intro e he offset len hrow
    rcases hinv.recorded e he offset len hrow with hrec | ⟨tid', c, hcall, htype, hphase⟩
    · exact Or.inl hrec
    · refine Or.inr ⟨tid', c, ?_, htype, hphase⟩
      have hne : tid' ≠ tid := by
        rintro rfl
        exact hold c hcall _ hphase
      exact (Function.update_of_ne hne _ _).trans hcall
  · intro tid₁ tid₂ c₁ c₂ h₁ h₂ hmaps₁ hmaps₂ htype
    rcases update_eq_some h₁ with ⟨rfl, hc₁⟩ | ⟨hne₁, hc₁⟩
    · rcases update_eq_some h₂ with ⟨rfl, -⟩ | ⟨hne₂, hc₂⟩
      · rfl
      · exact absurd htype.symm ((hnew c₁ hc₁ hmaps₁).2 tid₂ c₂ hne₂ hc₂ hmaps₂)
    · rcases update_eq_some h₂ with ⟨rfl, hc₂⟩ | ⟨hne₂, hc₂⟩
      · exact absurd htype ((hnew c₂ hc₂ hmaps₂).2 tid₁ c₁ hne₁ hc₁ hmaps₁)
      · exact hinv.alone tid₁ tid₂ c₁ c₂ hc₁ hc₂ hmaps₁ hmaps₂ htype
  · intro tid' c hcall
    rcases update_eq_some hcall with ⟨-, hc⟩ | ⟨-, hc⟩
    · exact (hsize c hc).1
    · exact hinv.size tid' c hc
  · intro tid' c hcall hmaps
    rcases update_eq_some hcall with ⟨-, hc⟩ | ⟨-, hc⟩
    · exact (hnew c hc hmaps).1
    · exact hinv.call tid' c hc hmaps
  · intro tid' c vaddr hcall hphase
    rcases update_eq_some hcall with ⟨-, hc⟩ | ⟨-, hc⟩
    · exact absurd hphase ((hsize c hc).2 vaddr)
    · exact hinv.entered tid' c vaddr hc hphase

/-- A thread that is in no call takes one for a region that no call maps. -/
theorem RegionInv.takeMmap (hinv : RegionInv bufferSize s) {tid : Nat}
    (hidle : s.mmaps tid = none) (c : MmapCall) (hsize : c.size = bufferSize c.mapType)
    (hphase : ∀ vaddr, c.phase ≠ .entered vaddr)
    (hok : c.Maps → c.readable = true ∧ c.mapType ∈ s.types ∧ s.CallOk c)
    (hgone : ∀ tid' c', s.mmaps tid' = some c' → c'.Maps → c'.mapType ≠ c.mapType) :
    RegionInv bufferSize (s.setMmap tid (some c)) := by
  refine hinv.setMmap ?_ ?_ ?_
  · intro c' hc'
    rw [hidle] at hc'
    cases hc'
  · rintro c' ⟨⟩
    exact ⟨hsize, hphase⟩
  · rintro c' ⟨⟩ hmaps
    exact ⟨hok hmaps, fun tid' c' _ => hgone tid' c'⟩

/-- A thread moves on in a revocation, unless it is about to clear an address. -/
theorem RegionInv.setRevoke (hinv : RegionInv bufferSize s) (tid : Nat) (call : Option RevokeCall)
    (hold : ∀ c, s.revokes tid = some c → ∀ i, c.phase ≠ .forgetting i) :
    RegionInv bufferSize (s.setRevoke tid call) := by
  refine { hinv with live := ?_ }
  intro type offset len hrow hoffset
  rcases hinv.live type offset len hrow hoffset with hlive | ⟨tid', c, i, hcall, hphase, htype⟩
  · exact Or.inl hlive
  · refine Or.inr ⟨tid', c, i, ?_, hphase, htype⟩
    have hne : tid' ≠ tid := by
      rintro rfl
      exact hold c hcall i hphase
    exact (Function.update_of_ne hne _ _).trans hcall

/-- The object lets go of nothing but the reference of its call. -/
theorem letGo_cases {object : Nat} {type : Int} {o' : PagerObject}
    (hmem : o' ∈ s.letGo object type) :
    ∃ o ∈ s.objects, o'.id = o.id ∧ o'.type = o.type ∧ (o.type ≠ type → o' = o) ∧
      o' = if o.id = object ∧ o.type = type then { o with inCall := false } else o := by
  obtain ⟨o, ho, heq⟩ := List.mem_map.mp hmem
  refine ⟨o, ho, ?_, ?_, ?_, heq.symm⟩
  · rw [← heq]
    split <;> rfl
  · rw [← heq]
    split <;> rfl
  · intro hne
    rw [← heq]
    exact if_neg fun hboth => hne hboth.2

theorem exists_letGo (object : Nat) (type : Int) {o : PagerObject} (ho : o ∈ s.objects) :
    ∃ o' ∈ s.letGo object type, o'.id = o.id ∧ o'.type = o.type ∧ (o.type ≠ type → o' = o) := by
  refine ⟨_, List.mem_map_of_mem ho, ?_, ?_, ?_⟩
  · split <;> rfl
  · split <;> rfl
  · intro hne
    exact if_neg fun hboth => hne hboth.2

theorem RegionInv.letGo (hinv : RegionInv bufferSize s) (object : Nat) {type : Int}
    (hgone : ∀ tid c, s.mmaps tid = some c → c.Maps → c.mapType ≠ type) :
    RegionInv bufferSize { s with objects := s.letGo object type } := by
  refine { hinv with marked := ?_, oneEach := ?_, backed := ?_, call := ?_ }
  · intro o' ho' hsized smem hsmem htype
    obtain ⟨o, ho, -, hotype, -, -⟩ := letGo_cases ho'
    exact hinv.marked o ho (hotype ▸ hsized) smem hsmem (htype.trans hotype)
  · intro o₁ h₁ o₂ h₂ hsized htype
    obtain ⟨p₁, hp₁, -, ht₁, -, heq₁⟩ := letGo_cases h₁
    obtain ⟨p₂, hp₂, -, ht₂, -, heq₂⟩ := letGo_cases h₂
    have hp : p₁ = p₂ :=
      hinv.oneEach p₁ hp₁ p₂ hp₂ (ht₁ ▸ hsized) (by rw [← ht₁, ← ht₂, htype])
    rw [heq₁, heq₂, hp]
  · intro e he
    obtain ⟨o, ho, hid, htype⟩ := hinv.backed e he
    obtain ⟨o', ho', hid', htype', -⟩ := exists_letGo object type ho
    exact ⟨o', ho', hid'.trans hid, htype'.trans htype⟩
  · intro tid c hcall hmaps
    obtain ⟨hread, hdecl, hok⟩ := hinv.call tid c hcall hmaps
    refine ⟨hread, hdecl, hok.mono ?_ ?_ fun _ _ => Iff.rfl⟩
    · intro o' ho' htype
      obtain ⟨o, ho, -, hotype, -, -⟩ := letGo_cases ho'
      exact ⟨o, ho, hotype.symm.trans htype⟩
    · intro o ho htype _
      obtain ⟨o', ho', -, -, hsame⟩ := exists_letGo object type ho
      have heq : o' = o := hsame (by rw [htype]; exact hgone tid c hcall hmaps)
      rw [← heq]
      exact ho'

/-- A change to the regions that shows in neither type, address nor length. -/
theorem RegionInv.withSoftc (hinv : RegionInv bufferSize s) {sc : CapioSoftc Cap Key}
    (htable : MapSys.table { s with sc := sc } = s.table)
    (hmarked : ∀ o ∈ s.objects, bufferSize o.type ≠ 0 →
      ∀ smem ∈ sc.sharedMemRegs, smem.type = o.type → smem.mapped = true) :
    RegionInv bufferSize { s with sc := sc } := by
  have htypes : MapSys.types { s with sc := sc } = s.types := by
    rw [MapSys.types, htable, MapSys.types]
  refine
    { hinv with
      types := ?_, entry := ?_, recorded := ?_, live := ?_, marked := hmarked, call := ?_ }
  · rw [htypes]
    exact hinv.types
  · rw [htypes]
    exact hinv.entry
  · rw [htable]
    exact hinv.recorded
  · rw [htable]
    intro type offset len hrow hoffset
    rcases hinv.live type offset len hrow hoffset with hlive | ⟨tid, c, i, hcall, hphase, htype⟩
    · exact Or.inl hlive
    · refine Or.inr ⟨tid, c, i, hcall, hphase, ?_⟩
      rw [htypes]
      exact htype
  · rw [htypes]
    exact hinv.call

/-- A new object, of a type without a size or one that no object and no call has. -/
theorem RegionInv.addObject (hinv : RegionInv bufferSize s) {o : PagerObject}
    (hnone : bufferSize o.type ≠ 0 → ∀ o' ∈ s.objects, o'.type ≠ o.type)
    (hgone : ∀ tid c, s.mmaps tid = some c → c.Maps → c.mapType ≠ o.type)
    (hmarked : ∀ smem ∈ s.sc.sharedMemRegs, smem.type = o.type → smem.mapped = true) :
    RegionInv bufferSize { s with objects := s.objects ++ [o] } := by
  refine { hinv with marked := ?_, oneEach := ?_, backed := ?_, call := ?_ }
  · intro o' ho' hsized
    rcases List.mem_append.mp ho' with hold | hnew
    · exact hinv.marked o' hold hsized
    · rw [List.mem_singleton.mp hnew]
      exact hmarked
  · apply forall_pairs_concat
    · exact fun o₁ o₂ hsame hsized htype => (hsame (htype ▸ hsized) htype.symm).symm
    · exact hinv.oneEach
    · exact fun o₁ h₁ hsized htype => absurd htype (hnone (htype ▸ hsized) o₁ h₁)
    · exact fun _ _ => rfl
  · intro e he
    obtain ⟨o', ho', hback⟩ := hinv.backed e he
    exact ⟨o', List.mem_append_left _ ho', hback⟩
  · intro tid c hcall hmaps
    obtain ⟨hread, hdecl, hok⟩ := hinv.call tid c hcall hmaps
    refine ⟨hread, hdecl, hok.mono ?_ ?_ fun _ _ => Iff.rfl⟩
    · intro o' ho' htype
      rcases List.mem_append.mp ho' with hold | hnew
      · exact ⟨o', hold, htype⟩
      · rw [List.mem_singleton.mp hnew] at htype
        exact absurd htype.symm (hgone tid c hcall hmaps)
    · intro o' ho' _ _
      exact List.mem_append_left _ ho'

theorem RegionInv.dropObject (hinv : RegionInv bufferSize s) {o : PagerObject}
    (hunref : s.Unreferenced o) :
    RegionInv bufferSize { s with objects := s.objects.filter fun o' => o' ≠ o } := by
  have hof : ∀ o' ∈ s.objects.filter fun o' => o' ≠ o, o' ∈ s.objects := fun o' ho' =>
    (List.mem_filter.mp ho').1
  refine { hinv with marked := ?_, oneEach := ?_, backed := ?_, call := ?_ }
  · intro o' ho'
    exact hinv.marked o' (hof o' ho')
  · intro o₁ h₁ o₂ h₂
    exact hinv.oneEach o₁ (hof o₁ h₁) o₂ (hof o₂ h₂)
  · intro e he
    obtain ⟨o', ho', hid, htype⟩ := hinv.backed e he
    refine ⟨o', List.mem_filter.mpr ⟨ho', ?_⟩, hid, htype⟩
    have hne : o' ≠ o := by
      rintro rfl
      exact hunref.2 e he hid.symm
    simpa using hne
  · intro tid c hcall hmaps
    obtain ⟨hread, hdecl, hok⟩ := hinv.call tid c hcall hmaps
    refine ⟨hread, hdecl, hok.mono ?_ ?_ fun _ _ => Iff.rfl⟩
    · intro o' ho' htype
      exact ⟨o', hof o' ho', htype⟩
    · intro o' ho' _ hin
      refine List.mem_filter.mpr ⟨ho', ?_⟩
      have hne : o' ≠ o := by
        rintro rfl
        rw [hunref.1] at hin
        cases hin
      simpa using hne

/-- modmap enters an object of a type without entries and without other calls. -/
theorem RegionInv.enter (hinv : RegionInv bufferSize s) {tid : Nat} {c : MmapCall}
    {o : PagerObject} {vaddr : Nat} (hidle : s.mmaps tid = none)
    (hgone : ∀ tid c', s.mmaps tid = some c' → c'.Maps → c'.mapType ≠ c.mapType)
    (hcall : c.readable = true ∧ c.mapType ∈ s.types) (hsize : c.size ≠ 0)
    (hbuffer : c.size = bufferSize c.mapType) (hphase : c.phase = .entered vaddr)
    (hvaddr : vaddr ≠ 0)
    (hnone : ∀ e ∈ s.entries, e.type ≠ c.mapType) (ho : o ∈ s.objects)
    (hotype : o.type = c.mapType) (hfree : s.Free c.pid vaddr c.size) :
    RegionInv bufferSize
      { s.setMmap tid (some c) with
        entries := s.entries ++ [MapSys.entryOf c o.id vaddr] } := by
  have hthis : (s.setMmap tid (some c)).mmaps tid = some c := Function.update_self ..
  have hothers : ∀ tid' c', s.mmaps tid' = some c' →
      (s.setMmap tid (some c)).mmaps tid' = some c' := by
    intro tid' c' hc'
    have hne : tid' ≠ tid := by
      rintro rfl
      rw [hidle] at hc'
      cases hc'
    exact (Function.update_of_ne hne _ _).trans hc'
  refine
    { hinv with
      entry := ?_, single := ?_, apart := ?_, recorded := ?_, live := ?_, backed := ?_
      alone := ?_, size := ?_, call := ?_, entered := ?_ }
  · intro e he
    rcases List.mem_append.mp he with hold | hnew
    · exact hinv.entry e hold
    · rw [List.mem_singleton.mp hnew]
      exact ⟨hcall.1, hvaddr, Nat.pos_of_ne_zero hsize, hcall.2⟩
  · -- the type had no entry, so that the new one is its only one
    apply forall_pairs_concat
    · exact fun e e' hsame htype => (hsame htype.symm).symm
    · exact hinv.single
    · exact fun e he htype => absurd htype (hnone e he)
    · exact fun _ => rfl
  · -- the range was free in the map of the process
    apply forall_pairs_concat
    · exact fun e e' hapart hpid htype => (hapart hpid.symm htype.symm).symm
    · exact hinv.apart
    · exact fun e he hpid _ => hfree e he hpid
    · exact fun _ htype => absurd rfl htype
  · -- until the callback the row of the type says nothing about the new entry
    intro e he offset len hrow
    rcases List.mem_append.mp he with hold | hnew
    · rcases hinv.recorded e hold offset len hrow with hrec | ⟨tid', c', hc', hpending⟩
      · exact Or.inl hrec
      · exact Or.inr ⟨tid', c', hothers tid' c' hc', hpending⟩
    · rw [List.mem_singleton.mp hnew]
      exact Or.inr ⟨tid, c, hthis, rfl, hphase⟩
  · intro type offset len hrow hoffset
    rcases hinv.live type offset len hrow hoffset with ⟨e, he, hlive⟩ | hforget
    · exact Or.inl ⟨e, List.mem_append_left _ he, hlive⟩
    · exact Or.inr hforget
  · intro e he
    rcases List.mem_append.mp he with hold | hnew
    · exact hinv.backed e hold
    · rw [List.mem_singleton.mp hnew]
      exact ⟨o, ho, rfl, hotype⟩
  · -- no other call is under way for this type
    intro tid₁ tid₂ c₁ c₂ h₁ h₂ hmaps₁ hmaps₂ htype
    rcases update_eq_some h₁ with ⟨rfl, hc₁⟩ | ⟨-, hc₁⟩
    · cases hc₁
      rcases update_eq_some h₂ with ⟨rfl, -⟩ | ⟨-, hc₂⟩
      · rfl
      · exact absurd htype.symm (hgone tid₂ c₂ hc₂ hmaps₂)
    · rcases update_eq_some h₂ with ⟨rfl, hc₂⟩ | ⟨-, hc₂⟩
      · cases hc₂
        exact absurd htype (hgone tid₁ c₁ hc₁ hmaps₁)
      · exact hinv.alone tid₁ tid₂ c₁ c₂ hc₁ hc₂ hmaps₁ hmaps₂ htype
  · intro tid' c' hc'
    rcases update_eq_some hc' with ⟨-, heq⟩ | ⟨-, hold⟩
    · cases heq
      exact hbuffer
    · exact hinv.size tid' c' hold
  · intro tid' c' hc' hmaps
    rcases update_eq_some hc' with ⟨-, heq⟩ | ⟨-, hold⟩
    · cases heq
      refine ⟨hcall.1, hcall.2, ?_⟩
      unfold MapSys.CallOk
      rw [hphase]
      exact ⟨hvaddr, _, List.mem_append_right _ (List.mem_singleton_self _), rfl, rfl, rfl⟩
    · obtain ⟨hread, hdecl, hok⟩ := hinv.call tid' c' hold hmaps
      refine ⟨hread, hdecl, hok.mono ?_ ?_ ?_⟩
      · exact fun o' ho' htype => ⟨o', ho', htype⟩
      · exact fun o' ho' _ _ => ho'
      · -- the new entry is of the type of this call, and so of no other
        intro e htype
        refine ⟨?_, List.mem_append_left _⟩
        intro he
        rcases List.mem_append.mp he with hin | hnew
        · exact hin
        · rw [List.mem_singleton.mp hnew] at htype
          exact absurd htype.symm (hgone tid' c' hold hmaps)
  · intro tid' c' vaddr' hc' hentered
    rcases update_eq_some hc' with ⟨-, heq⟩ | ⟨-, hold⟩
    · cases heq
      exact hsize
    · exact hinv.entered tid' c' vaddr' hold hentered

end Moves

/-! ## Changing the addresses -/

section Addresses

variable {Cap Key : Type*} {bufferSize : Int → Nat} {s : MapSys Cap Key}

variable {t type : Int} {f : SharedMemRegion → SharedMemRegion} {tid i : Nat}

/-- The rows of the table after a change to the regions of one type. -/
theorem table_onType_cases {sc : CapioSoftc Cap Key} (hf : ∀ smem, (f smem).type = smem.type)
    (hregs : sc.sharedMemRegs = onType t f s.sc.sharedMemRegs) {offset len : Nat}
    (hrow : (type, offset, len) ∈ MapSys.table { s with sc := sc }) :
    (type = t ∧ ∃ smem ∈ s.sc.sharedMemRegs, offset = (f smem).offset ∧ len = (f smem).len) ∨
      (type ≠ t ∧ (type, offset, len) ∈ s.table) := by
  obtain ⟨smem', hmem', heq⟩ := List.mem_map.mp hrow
  change smem' ∈ sc.sharedMemRegs at hmem'
  rw [hregs] at hmem'
  obtain ⟨smem, hmem, rfl⟩ := exists_of_mem_onType hmem'
  by_cases htype : smem.type = t
  · rw [if_pos htype] at heq
    simp only [Prod.mk.injEq] at heq
    refine Or.inl ⟨?_, smem, hmem, heq.2.1.symm, heq.2.2.symm⟩
    rw [← heq.1, hf, htype]
  · rw [if_neg htype] at heq
    refine Or.inr ⟨?_, List.mem_map.mpr ⟨smem, hmem, heq⟩⟩
    simp only [Prod.mk.injEq] at heq
    rw [← heq.1]
    exact htype

theorem types_onType {sc : CapioSoftc Cap Key} (hf : ∀ smem, (f smem).type = smem.type)
    (hregs : sc.sharedMemRegs = onType t f s.sc.sharedMemRegs) :
    MapSys.types { s with sc := sc } = s.types := by
  rw [MapSys.types_eq, MapSys.types_eq]
  change sc.sharedMemRegs.map _ = _
  rw [hregs, map_onType hf]

/-- A change that keeps the marks keeps them on the objects' regions. -/
theorem RegionInv.marked_onType (hinv : RegionInv bufferSize s) {regs : List SharedMemRegion}
    (hf : ∀ smem, (f smem).type = smem.type)
    (hmapped : ∀ smem, smem.mapped = true → (f smem).mapped = true)
    (hregs : regs = onType t f s.sc.sharedMemRegs) (o : PagerObject) (ho : o ∈ s.objects)
    (hsized : bufferSize o.type ≠ 0) (smem' : SharedMemRegion) (hmem' : smem' ∈ regs)
    (htype : smem'.type = o.type) :
    smem'.mapped = true := by
  rw [hregs] at hmem'
  obtain ⟨smem, hmem, rfl⟩ := exists_of_mem_onType hmem'
  split at htype
  · rename_i heq
    rw [if_pos heq]
    rw [hf] at htype
    exact hmapped smem (hinv.marked o ho hsized smem hmem htype)
  · rename_i hne
    rw [if_neg hne]
    exact hinv.marked o ho hsized smem hmem htype

/-- The callback records the address of the entry its call has made. -/
theorem RegionInv.callback (hinv : RegionInv bufferSize s) {c : MmapCall} {vaddr : Nat}
    (hcall : s.mmaps tid = some c) (hphase : c.phase = .entered vaddr) :
    RegionInv bufferSize
      { s.setMmap tid none with
        sc := (capioVaddrCallback s.sc vaddr c.size c.mapType).2 } := by
  have hmaps : c.Maps := ⟨hinv.entered tid c vaddr hcall hphase, by rw [hphase]; exact nofun⟩
  obtain ⟨-, hdecl, hok⟩ := hinv.call tid c hcall hmaps
  unfold MapSys.CallOk at hok
  rw [hphase] at hok
  obtain ⟨hvaddr, e₀, he₀, htype₀, hstart₀, hlen₀⟩ := hok
  have hf : ∀ smem : SharedMemRegion,
      ({ smem with offset := vaddr, len := c.size } : SharedMemRegion).type = smem.type :=
    fun _ => rfl
  -- types are distinct, so the loop writes the one row of the type
  have hregs : (capioVaddrCallback s.sc vaddr c.size c.mapType).2.sharedMemRegs =
      onType c.mapType (fun smem => { smem with offset := vaddr, len := c.size })
        s.sc.sharedMemRegs := by
    have hnodup := hinv.types
    rw [MapSys.types_eq] at hdecl hnodup
    rw [capioVaddrCallback, recordVaddr_eq_onType hnodup hdecl]
  generalize (capioVaddrCallback s.sc vaddr c.size c.mapType).2 = sc at hregs
  have htypes : MapSys.types { s.setMmap tid none with sc := sc } = s.types :=
    types_onType hf hregs
  have hothers : ∀ tid' c', s.mmaps tid' = some c' → c'.mapType ≠ c.mapType →
      (s.setMmap tid none).mmaps tid' = some c' := by
    intro tid' c' hc' hne
    have htid : tid' ≠ tid := by
      rintro rfl
      rw [hcall] at hc'
      cases hc'
      exact hne rfl
    exact (Function.update_of_ne htid _ _).trans hc'
  have hold : ∀ tid' c', (s.setMmap tid none).mmaps tid' = some c' → s.mmaps tid' = some c' := by
    intro tid' c' hc'
    rcases update_eq_some hc' with ⟨-, hnone⟩ | ⟨-, hc⟩
    · cases hnone
    · exact hc
  refine
    { hinv with
      types := ?_, entry := ?_, recorded := ?_, live := ?_, marked := ?_, alone := ?_
      size := ?_, call := ?_, entered := ?_ }
  · rw [htypes]
    exact hinv.types
  · rw [htypes]
    exact hinv.entry
  · intro e he offset len hrow
    rcases table_onType_cases hf hregs hrow with ⟨htype, smem, -, hoffset, hlen⟩ | ⟨hne, hrow'⟩
    · -- the one entry of the type is the one this call has made
      have heq : e = e₀ := hinv.single e he e₀ he₀ (htype.trans htype₀.symm)
      rw [heq, hstart₀, hlen₀]
      exact Or.inl ⟨hoffset, hlen⟩
    · rcases hinv.recorded e he offset len hrow' with hrec | ⟨tid', c', hc', htype', hpending⟩
      · exact Or.inl hrec
      · refine Or.inr ⟨tid', c', hothers tid' c' hc' ?_, htype', hpending⟩
        rw [htype']
        exact hne
  · intro type offset len hrow hoffset
    rcases table_onType_cases hf hregs hrow with ⟨htype, smem, -, hoff, hlen⟩ | ⟨hne, hrow'⟩
    · -- the row written just now belongs to that entry
      refine Or.inl ⟨e₀, he₀, htype₀.trans htype.symm, ?_, ?_⟩
      · rw [hstart₀, hoff]
      · rw [hlen₀, hlen]
    · rcases hinv.live type offset len hrow' hoffset with hlive | ⟨tid', c', i, hc', hfor, htype⟩
      · exact Or.inl hlive
      · refine Or.inr ⟨tid', c', i, hc', hfor, ?_⟩
        rw [htypes]
        exact htype
  · exact hinv.marked_onType hf (fun _ hmapped => hmapped) hregs
  · intro tid₁ tid₂ c₁ c₂ h₁ h₂
    exact hinv.alone tid₁ tid₂ c₁ c₂ (hold tid₁ c₁ h₁) (hold tid₂ c₂ h₂)
  · intro tid' c' hc'
    exact hinv.size tid' c' (hold tid' c' hc')
  · rw [htypes]
    intro tid' c' hc'
    exact hinv.call tid' c' (hold tid' c' hc')
  · intro tid' c' vaddr' hc'
    exact hinv.entered tid' c' vaddr' (hold tid' c' hc')

/-- The entries of a region are gone and its address is to be cleared next. -/
theorem RegionInv.delete (hinv : RegionInv bufferSize s) {c c' : RevokeCall}
    (hcall : s.revokes tid = some c) (hphase : ∀ j, c.phase ≠ .forgetting j)
    (hnext : c'.phase = .forgetting i) (htype : s.types[i]? = some type)
    (hno : ∀ tid c, s.mmaps tid = some c → ¬ c.Maps) :
    RegionInv bufferSize
      { s.setRevoke tid (some c') with entries := s.entries.filter fun e => e.type ≠ type } := by
  have hof : ∀ e ∈ s.entries.filter fun e => e.type ≠ type, e ∈ s.entries := fun e he =>
    (List.mem_filter.mp he).1
  refine
    { hinv with
      entry := fun e he => hinv.entry e (hof e he)
      single := fun e he e' he' => hinv.single e (hof e he) e' (hof e' he')
      apart := fun e he e' he' => hinv.apart e (hof e he) e' (hof e' he')
      recorded := fun e he => hinv.recorded e (hof e he)
      live := ?_
      backed := fun e he => hinv.backed e (hof e he)
      call := ?_ }
  · intro type' offset len hrow hoffset
    rcases hinv.live type' offset len hrow hoffset with
      ⟨e, he, hetype, hstart, hlen⟩ | ⟨tid', c'', j, hc'', hfor, htype'⟩
    · by_cases hsame : type' = type
      · subst hsame
        exact Or.inr ⟨tid, c', i, Function.update_self .., hnext, htype⟩
      · refine Or.inl ⟨e, List.mem_filter.mpr ⟨he, ?_⟩, hetype, hstart, hlen⟩
        rw [hetype]
        simpa using hsame
    · refine Or.inr ⟨tid', c'', j, ?_, hfor, htype'⟩
      have hne : tid' ≠ tid := by
        rintro rfl
        rw [hcall] at hc''
        cases hc''
        exact hphase j hfor
      exact (Function.update_of_ne hne _ _).trans hc''
  · intro tid' c'' hc'' hmaps
    exact absurd hmaps (hno tid' c'' hc'')

theorem RegionInv.forget (hinv : RegionInv bufferSize s) {c c' : RevokeCall}
    {smem : SharedMemRegion} (hcall : s.revokes tid = some c) (hphase : c.phase = .forgetting i)
    (hsmem : s.sc.sharedMemRegs[i]? = some smem) (hnone : ∀ e ∈ s.entries, e.type ≠ smem.type) :
    RegionInv bufferSize
      { s.setRevoke tid (some c') with
        sc :=
          { s.sc with
            sharedMemRegs :=
              s.sc.sharedMemRegs.modify i fun smem => { smem with offset := 0 } } } := by
  have hf : ∀ smem : SharedMemRegion,
      ({ smem with offset := 0 } : SharedMemRegion).type = smem.type := fun _ => rfl
  -- types are distinct, so the row at `i` is the row of its type
  have hregs : s.sc.sharedMemRegs.modify i (fun smem => { smem with offset := 0 }) =
      onType smem.type (fun smem => { smem with offset := 0 }) s.sc.sharedMemRegs := by
    have hnodup := hinv.types
    rw [MapSys.types_eq] at hnodup
    exact modify_eq_onType hnodup hsmem
  rw [hregs]
  generalize hsc : ({ s.sc with
    sharedMemRegs := onType smem.type (fun smem => { smem with offset := 0 })
      s.sc.sharedMemRegs } : CapioSoftc Cap Key) = sc
  have hregs' : sc.sharedMemRegs =
      onType smem.type (fun smem => { smem with offset := 0 }) s.sc.sharedMemRegs := by
    rw [← hsc]
  have htypes : MapSys.types { s.setRevoke tid (some c') with sc := sc } = s.types :=
    types_onType hf hregs'
  have hindex : s.types[i]? = some smem.type := by
    rw [MapSys.types_eq, List.getElem?_map, hsmem, Option.map_some]
  refine
    { hinv with
      types := ?_, entry := ?_, recorded := ?_, live := ?_, marked := ?_, call := ?_ }
  · rw [htypes]
    exact hinv.types
  · rw [htypes]
    exact hinv.entry
  · intro e he offset len hrow
    rcases table_onType_cases hf hregs' hrow with ⟨htype, -⟩ | ⟨-, hrow'⟩
    · exact absurd htype (hnone e he)
    · exact hinv.recorded e he offset len hrow'
  · intro type offset len hrow hoffset
    rcases table_onType_cases hf hregs' hrow with ⟨-, smem', -, hzero, -⟩ | ⟨hne, hrow'⟩
    · exact absurd hzero hoffset
    · rcases hinv.live type offset len hrow' hoffset with
        hlive | ⟨tid', c'', j, hc'', hfor, htype⟩
      · exact Or.inl hlive
      · refine Or.inr ⟨tid', c'', j, ?_, hfor, ?_⟩
        · -- this call forgets the row of `smem`, and `type` is another one
          have htid : tid' ≠ tid := by
            rintro rfl
            rw [hcall] at hc''
            cases hc''
            rw [hphase] at hfor
            cases hfor
            rw [hindex] at htype
            exact hne (Option.some.inj htype).symm
          exact (Function.update_of_ne htid _ _).trans hc''
        · rw [htypes]
          exact htype
  · exact hinv.marked_onType hf (fun _ hmapped => hmapped) hregs'
  · rw [htypes]
    exact hinv.call

end Addresses

end Capio
end SfcCapio
