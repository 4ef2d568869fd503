import SfcCapio.Capio.RemovedRanges

/-!
# Revocations that stay inside the device's mappings

The invariant of the runs that keep the order `Careful`.  Every watched range of a process
holds a mapping of its region exactly, or nothing (`Tidy`), so that whatever a lookup finds
at the recorded address is the whole mapping.  While a revocation runs, what it has looked
up was recorded for its process and stays mapped.
-/

namespace SfcCapio
namespace Capio

open Foundation

/-! ## The invariant -/

section Invariant

variable {Cap Key : Type*}

/-- Every watched range is tidy. -/
structure WatchInv (s : RangeSys Cap Key) : Prop where
  types : s.map.types.Nodup
  tidy : ∀ pid type start len, s.Watched pid type start len →
    Tidy s.map.entries s.others pid type start len

/-- One revocation runs at a time.  What it read is still recorded, and what it looked up
is its process's own and still mapped. -/
structure RemovalInv (s : RangeSys Cap Key) : Prop where
  one : ∀ tid tid' c c', s.map.revokes tid = some c → s.map.revokes tid' = some c' →
    c.Running → c'.Running → tid = tid'
  copied : ∀ tid c i smem, s.map.revokes tid = some c → c.phase = .deleting i smem →
    smem.offset ≠ 0 ∧ (smem.type, smem.offset, smem.len) ∈ s.map.table
  looked : ∀ tid, s.looked tid = true → ∃ c i smem, s.map.revokes tid = some c ∧
    c.phase = .deleting i smem ∧ s.owner smem.type = c.pid ∧
      Covered s.map.entries c.pid smem.type smem.offset (smem.offset + smem.len)

/-- What the guarded runs keep. -/
structure RangeInv (s : RangeSys Cap Key) : Prop where
  watch : WatchInv s
  revoke : RemovalInv s
  removals : RemovesOnlyDevice s

/-- A change to the device and its mappings after which nothing new is watched. -/
structure NothingNew (m m' : MapSys Cap Key) : Prop where
  types : m'.types = m.types
  table : ∀ row ∈ m'.table, row.2.1 ≠ 0 → row ∈ m.table
  calls : ∀ tid c vaddr, m'.mmaps tid = some c → c.phase = .entered vaddr →
    m.mmaps tid = some c

variable {m m' : MapSys Cap Key} {tid : Nat} {s s' : RangeSys Cap Key} {c : RevokeCall}

theorem NothingNew.of_eq (htable : m'.table = m.table)
    (hmmaps : m'.mmaps = m.mmaps) : NothingNew m m' where
  types := by rw [MapSys.types, MapSys.types, htable]
  table := by
    intro row hrow _
    rwa [htable] at hrow
  calls := by
    intro tid c vaddr hcall _
    rwa [hmmaps] at hcall

theorem NothingNew.of_call {call : Option MmapCall} (htable : m'.table = m.table)
    (hmmaps : m'.mmaps = Function.update m.mmaps tid call)
    (hcall : ∀ c vaddr, call = some c → c.phase ≠ .entered vaddr) : NothingNew m m' where
  types := by rw [MapSys.types, MapSys.types, htable]
  table := by
    intro row hrow _
    rwa [htable] at hrow
  calls := by
    intro tid' c vaddr hc hphase
    rw [hmmaps] at hc
    rcases update_eq_some hc with ⟨-, hnew⟩ | ⟨-, hold⟩
    · exact absurd hphase (hcall c vaddr hnew)
    · exact hold

theorem NothingNew.watched {others : List MapEntry} {looked : Nat → Bool} {removals : List Removal}
    (hnothing : NothingNew s.map m) {pid : Nat} {type : Int} {start len : Nat}
    (hwatched : RangeSys.Watched ⟨m, others, looked, s.owner, removals⟩ pid type start len) :
    s.Watched pid type start len := by
  rcases hwatched with ⟨hrow, hstart, howner⟩ | ⟨tid, c, hcall, hphase, hrest⟩
  · exact Or.inl ⟨hnothing.table _ hrow hstart, hstart, howner⟩
  · exact Or.inr ⟨tid, c, hnothing.calls tid c start hcall hphase, hphase, hrest⟩

/-- Watched ranges stay tidy when nothing new is watched or mapped. -/
theorem WatchInv.nothingNew {others : List MapEntry} {looked : Nat → Bool} {removals : List Removal}
    (hinv : WatchInv s) (hnothing : NothingNew s.map m)
    (hentries : ∀ e ∈ m.entries, e ∈ s.map.entries) (hothers : ∀ x ∈ others,
      ∃ o ∈ s.others, x.pid = o.pid ∧ Within x.start x.len o.start (o.start + o.len)) :
    WatchInv (⟨m, others, looked, s.owner, removals⟩ : RangeSys Cap Key) where
  types := by
    change m.types.Nodup
    rw [hnothing.types]
    exact hinv.types
  tidy := by
    intro pid type start len hwatched
    have htidy := hinv.tidy pid type start len (hnothing.watched hwatched)
    exact htidy.mono (fun e he _ => hentries e he) (fun x hx _ => hothers x hx)

/-! ### Revocations -/

theorem RemovalInv.not_looked (hinv : RemovalInv s) (hno : s.map.NoRevocation)
    (tid : Nat) : ¬ s.looked tid = true := by
  intro hlooked
  obtain ⟨c, i, smem, hcall, hphase, -⟩ := hinv.looked tid hlooked
  exact hno tid c hcall (RevokeCall.running_of_phase hphase nofun)

theorem RemovalInv.of_idle (hno : s.map.NoRevocation)
    (hlooked : ∀ tid, ¬ s.looked tid = true) : RemovalInv s where
  one := fun tid _ c _ hcall _ hrun _ => absurd hrun (hno tid c hcall)
  copied := fun tid c _ _ hcall hphase =>
    absurd (RevokeCall.running_of_phase hphase nofun) (hno tid c hcall)
  looked := fun tid htid => absurd htid (hlooked tid)

/-- At most the thread `tid` is in a revocation that runs. -/
theorem RemovalInv.of_only (tid : Nat)
    (hothers : ∀ tid' c, tid' ≠ tid → s.map.revokes tid' = some c → ¬ c.Running)
    (hidle : ∀ tid', tid' ≠ tid → ¬ s.looked tid' = true)
    (hcopied : ∀ c i smem, s.map.revokes tid = some c → c.phase = .deleting i smem →
      smem.offset ≠ 0 ∧ (smem.type, smem.offset, smem.len) ∈ s.map.table)
    (hlooked : s.looked tid = true → ∃ c i smem, s.map.revokes tid = some c ∧
      c.phase = .deleting i smem ∧ s.owner smem.type = c.pid ∧
        Covered s.map.entries c.pid smem.type smem.offset (smem.offset + smem.len)) :
    RemovalInv s := by
  have honly : ∀ tid' c, s.map.revokes tid' = some c → c.Running → tid' = tid := by
    intro tid' c hcall hrun
    by_contra hne
    exact hothers tid' c hne hcall hrun
  refine ⟨?_, ?_, ?_⟩
  · intro tid₁ tid₂ c₁ c₂ h₁ h₂ hrun₁ hrun₂
    rw [honly tid₁ c₁ h₁ hrun₁, honly tid₂ c₂ h₂ hrun₂]
  · intro tid' c i smem hcall hphase
    have heq := honly tid' c hcall (RevokeCall.running_of_phase hphase nofun)
    subst heq
    exact hcopied c i smem hcall hphase
  · intro tid' htid'
    by_cases heq : tid' = tid
    · subst heq
      exact hlooked htid'
    · exact absurd htid' (hidle tid' heq)

/-- A step that leaves the revocations alone, and the mappings of the process that
revokes. -/
theorem RemovalInv.frame (hinv : RemovalInv s) (hrevokes : s'.map.revokes = s.map.revokes)
    (hlooked : s'.looked = s.looked) (howner : s'.owner = s.owner)
    (htable : s'.map.table = s.map.table)
    (hentries : ∀ tid c, s.map.revokes tid = some c → c.Running →
      ∀ e ∈ s.map.entries, e.pid = c.pid → e ∈ s'.map.entries) : RemovalInv s' where
  one := by
    rw [hrevokes]
    exact hinv.one
  copied := by
    rw [hrevokes, htable]
    exact hinv.copied
  looked := by
    rw [hrevokes, hlooked, howner]
    intro tid htid
    obtain ⟨c, i, smem, hcall, hphase, hown, hcovered⟩ := hinv.looked tid htid
    refine ⟨c, i, smem, hcall, hphase, hown, ?_⟩
    intro a hlo hhi
    obtain ⟨e, he, hpid, hrest⟩ := hcovered a hlo hhi
    have hrun : c.Running := RevokeCall.running_of_phase hphase nofun
    exact ⟨e, hentries tid c hcall hrun e he hpid, hpid, hrest⟩

/-- The thread that revokes goes on to `call`. -/
theorem RemovalInv.move (hinv : RemovalInv s) {call : Option RevokeCall}
    (hcall : s.map.revokes tid = some c) (hrun : c.Running)
    (hrevokes : s'.map.revokes = Function.update s.map.revokes tid call)
    (hidle : ∀ tid', tid' ≠ tid → s'.looked tid' = s.looked tid')
    (hcopied : ∀ c' i smem, call = some c' → c'.phase = .deleting i smem →
      smem.offset ≠ 0 ∧ (smem.type, smem.offset, smem.len) ∈ s'.map.table)
    (hlooked : s'.looked tid = true → ∃ c' i smem, call = some c' ∧
      c'.phase = .deleting i smem ∧ s'.owner smem.type = c'.pid ∧
        Covered s'.map.entries c'.pid smem.type smem.offset (smem.offset + smem.len)) :
    RemovalInv s' := by
  have hthis : s'.map.revokes tid = call := by
    rw [hrevokes, Function.update_self]
  refine RemovalInv.of_only tid ?_ ?_ ?_ ?_
  · intro tid' c' hne hc' hrun'
    rw [hrevokes, Function.update_of_ne hne] at hc'
    exact hne (hinv.one tid' tid c' c hc' hcall hrun' hrun)
  · intro tid' hne htid'
    rw [hidle tid' hne] at htid'
    obtain ⟨c', i, smem, hc', hphase, -⟩ := hinv.looked tid' htid'
    have hrun' : c'.Running := RevokeCall.running_of_phase hphase nofun
    exact hne (hinv.one tid' tid c' c hc' hcall hrun' hrun)
  · rw [hthis]
    exact hcopied
  · rw [hthis]
    exact hlooked

/-- A thread that scans the regions or forgets one is not between the two calls. -/
theorem RemovalInv.looked_deleting (hinv : RemovalInv s) (hcall : s.map.revokes tid = some c)
    (hphase : ∀ i smem, c.phase ≠ .deleting i smem) : ¬ s.looked tid = true := by
  intro hlooked
  obtain ⟨c', i, smem, hcall', hdeleting, -⟩ := hinv.looked tid hlooked
  rw [hcall] at hcall'
  cases hcall'
  exact hphase i smem hdeleting

theorem RemovalInv.scan (hinv : RemovalInv s) {call : Option RevokeCall}
    (hcall : s.map.revokes tid = some c) (hrun : c.Running)
    (hbefore : ∀ i smem, c.phase ≠ .deleting i smem)
    (hrevokes : m.revokes = Function.update s.map.revokes tid call)
    (hafter : ∀ c' i smem, call = some c' → c'.phase ≠ .deleting i smem) :
    RemovalInv { s with map := m } := by
  refine hinv.move hcall hrun hrevokes (fun _ _ => rfl) ?_ ?_
  · intro c' i smem hc' hdeleting
    exact absurd hdeleting (hafter c' i smem hc')
  · intro hlooked
    exact absurd hlooked (hinv.looked_deleting hcall hbefore)

/-- A call that has only been admitted is none of those the invariant is about. -/
theorem RemovalInv.admit (hinv : RemovalInv s) (hidle : s.map.revokes tid = none)
    (hphase : c.phase = .admitted)
    (hm : m = s.map.setRevoke tid (some c)) : RemovalInv { s with map := m } := by
  subst hm
  have hold : ∀ tid' c', (s.map.setRevoke tid (some c)).revokes tid' = some c' → c'.Running →
      s.map.revokes tid' = some c' := by
    intro tid' c' hc' hrun
    rcases update_eq_some hc' with ⟨-, heq⟩ | ⟨-, hold⟩
    · cases heq
      exact absurd hphase hrun
    · exact hold
  refine ⟨?_, ?_, ?_⟩
  · intro tid₁ tid₂ c₁ c₂ h₁ h₂ hrun₁ hrun₂
    exact hinv.one tid₁ tid₂ c₁ c₂ (hold _ _ h₁ hrun₁) (hold _ _ h₂ hrun₂) hrun₁ hrun₂
  · intro tid' c' i smem hc' hdeleting
    have hrun : c'.Running := RevokeCall.running_of_phase hdeleting nofun
    exact hinv.copied tid' c' i smem (hold tid' c' hc' hrun) hdeleting
  · intro tid' hlooked
    obtain ⟨c', i, smem, hc', hrest⟩ := hinv.looked tid' hlooked
    have hne : tid' ≠ tid := by
      rintro rfl
      rw [hidle] at hc'
      cases hc'
    exact ⟨c', i, smem, (Function.update_of_ne hne _ _).trans hc', hrest⟩

/-- The loop of a revocation starts while no other runs. -/
theorem RemovalInv.clear (hinv : RemovalInv s) (hno : s.map.NoRevocation)
    (hrevokes : m.revokes = Function.update s.map.revokes tid (some c))
    (hphase : ∀ i smem, c.phase ≠ .deleting i smem) : RemovalInv { s with map := m } := by
  have hthis : ∀ c', m.revokes tid = some c' → c' = c := by
    intro c' hc'
    rw [hrevokes, Function.update_self] at hc'
    cases hc'
    rfl
  refine RemovalInv.of_only tid ?_ (fun tid' _ => hinv.not_looked hno tid') ?_ ?_
  · intro tid' c' hne hc'
    change m.revokes tid' = some c' at hc'
    rw [hrevokes, Function.update_of_ne hne] at hc'
    exact hno tid' c' hc'
  · intro c' i smem hc' hdeleting
    rw [hthis c' hc'] at hdeleting
    exact absurd hdeleting (hphase i smem)
  · intro hlooked
    exact absurd hlooked (hinv.not_looked hno tid)

theorem RemovalInv.read (hinv : RemovalInv s) {tid i : Nat} {smem : SharedMemRegion}
    (hcall : s.map.revokes tid = some c) (hphase : c.phase = .scanning i)
    (hoffset : smem.offset ≠ 0) (hrow : (smem.type, smem.offset, smem.len) ∈ s.map.table) :
    RemovalInv
      { s with map := s.map.setRevoke tid (some { c with phase := .deleting i smem }) } := by
  have hbefore : ¬ s.looked tid = true := hinv.looked_deleting hcall (by rw [hphase]; nofun)
  refine hinv.move hcall (RevokeCall.running_of_phase hphase nofun) rfl (fun _ _ => rfl) ?_
    fun hlooked => absurd hlooked hbefore
  rintro c' j smem' ⟨⟩ hdeleting
  cases hdeleting
  exact ⟨hoffset, hrow⟩

/-! ### The steps of `mapStep` -/

section Steps

variable {ch : Sealing Cap Key} {bufferSize : Int → Nat} {s : RangeSys Cap Key}
  {m : MapSys Cap Key} {l : MapLabel Cap}

theorem table_capioPagerCtor (sc : CapioSoftc Cap Key) (type : Int) :
    ((capioPagerCtor sc type).sharedMemRegs.map fun smem => (smem.type, smem.offset, smem.len)) =
      sc.sharedMemRegs.map fun smem => (smem.type, smem.offset, smem.len) :=
  map_onType fun _ => rfl

theorem table_capioPagerDtor (sc : CapioSoftc Cap Key) (type : Int) :
    ((capioPagerDtor sc type).sharedMemRegs.map fun smem => (smem.type, smem.offset, smem.len)) =
      sc.sharedMemRegs.map fun smem => (smem.type, smem.offset, smem.len) :=
  map_onType fun _ => rfl

variable {i tid vaddr pid start len lo : Nat} {c : RevokeCall}

/-- Forgetting an address records none. -/
theorem mem_table_of_forget {regs : List SharedMemRegion} {row : Int × Nat × Nat}
    (hrow : row ∈ (regs.modify i fun smem => { smem with offset := 0 }).map
      fun smem => (smem.type, smem.offset, smem.len)) (hoffset : row.2.1 ≠ 0) :
    row ∈ regs.map fun smem => (smem.type, smem.offset, smem.len) := by
  obtain ⟨smem', hmem, rfl⟩ := List.mem_map.mp hrow
  obtain ⟨j, hj⟩ := List.mem_iff_getElem?.mp hmem
  rw [List.getElem?_modify] at hj
  obtain ⟨smem, hsmem, heq⟩ := Option.map_eq_some_iff.mp hj
  by_cases hij : i = j
  · rw [if_pos hij] at heq
    subst heq
    exact absurd rfl hoffset
  · rw [if_neg hij] at heq
    subst heq
    exact List.mem_map_of_mem (List.mem_of_getElem? hsmem)

theorem others_self (o : MapEntry) (ho : o ∈ s.others) :
    ∃ o' ∈ s.others, o.pid = o'.pid ∧ Within o.start o.len o'.start (o'.start + o'.len) :=
  ⟨o, ho, rfl, Nat.le_refl _, Nat.le_refl _⟩

theorem WatchInv.of_map (hinv : WatchInv s) (hnothing : NothingNew s.map m)
    (hentries : m.entries = s.map.entries) : WatchInv { s with map := m } := by
  refine hinv.nothingNew hnothing ?_ others_self
  intro e he
  rwa [hentries] at he

/-- A step that leaves the revocations and the addresses alone and unmaps nothing. -/
theorem RemovalInv.of_map (hinv : RemovalInv s) (hrevokes : m.revokes = s.map.revokes)
    (htable : m.table = s.map.table) (hentries : ∀ e ∈ s.map.entries, e ∈ m.entries) :
    RemovalInv { s with map := m } :=
  hinv.frame hrevokes rfl rfl htable fun _ _ _ _ e he _ => hentries e he

/-- The new mapping is watched from here on. -/
theorem WatchInv.enter (hinv : WatchInv s) {tid vaddr object : Nat} {c : MmapCall}
    (hfree : s.map.Free c.pid vaddr c.size)
    (hothers : FreeIn s.others c.pid vaddr c.size)
    (hguard : ∀ type start len, s.Watched c.pid type start len →
      (c.mapType = type ∧ vaddr = start ∧ c.size = len) ∨
        Apart vaddr c.size start (start + len)) :
    WatchInv
      { s with
        map :=
          { s.map.setMmap tid (some { c with phase := .entered vaddr }) with
            entries := s.map.entries ++ [MapSys.entryOf c object vaddr]
            objects := s.map.letGo object c.mapType } } where
  types := hinv.types
  tidy := by
    intro pid type start len hwatched
    -- either the range was watched before, or it is the new mapping
    have hcases : s.Watched pid type start len ∨
        (pid = c.pid ∧ type = c.mapType ∧ start = vaddr ∧ len = c.size) := by
      rcases hwatched with hrow | ⟨tid', c', hc', hphase, hpid, htype, hsize⟩
      · exact Or.inl (Or.inl hrow)
      · rcases update_eq_some hc' with ⟨-, heq⟩ | ⟨-, hold⟩
        · cases heq
          cases hphase
          exact Or.inr ⟨hpid.symm, htype.symm, rfl, hsize.symm⟩
        · exact Or.inl (Or.inr ⟨tid', c', hold, hphase, hpid, htype, hsize⟩)
    rcases hcases with hold | ⟨rfl, rfl, rfl, rfl⟩
    · have htidy := hinv.tidy pid type start len hold
      refine ⟨htidy.others, ?_⟩
      intro e he hpid
      rcases List.mem_append.mp he with hbefore | hnew
      · exact htidy.entries e hbefore hpid
      · rw [List.mem_singleton.mp hnew] at hpid ⊢
        change c.pid = pid at hpid
        subst hpid
        exact hguard type start len hold
    · refine ⟨hothers, ?_⟩
      intro e he hpid
      rcases List.mem_append.mp he with hbefore | hnew
      · exact Or.inr (hfree e hbefore hpid)
      · rw [List.mem_singleton.mp hnew]
        exact Or.inl ⟨rfl, rfl, rfl⟩

theorem watchInv_mapCase (hinv : WatchInv s) (hadmits : s.admits l = true)
    (hguard : Careful s (.map l)) (hcase : MapCase ch bufferSize s.map l m) :
    WatchInv { s with map := m } := by
  have htypes := types_mapCase hcase
  cases hcase with
  | refused => exact hinv
  | attach req hfree hset sc hregs =>
    have htable : MapSys.table { s.map with sc := sc, session := s.map.session + 1 } =
        s.map.table := congrArg (List.map _) hregs
    exact hinv.of_map (.of_eq htable rfl) rfl
  | admitted tid pid dying req nprot offset size =>
    refine hinv.of_map (.of_call rfl rfl ?_) rfl
    rintro c vaddr ⟨⟩
    nofun
  | find tid c =>
    refine hinv.of_map (.of_call rfl rfl ?_) rfl
    rintro c vaddr ⟨⟩
    nofun
  | leave tid c => exact hinv.of_map (.of_call rfl rfl nofun) rfl
  | build tid c =>
    refine hinv.of_map (.of_call (table_capioPagerCtor s.map.sc c.mapType) rfl ?_) rfl
    rintro c vaddr ⟨⟩
    nofun
  | drop tid c => exact hinv.of_map (.of_call rfl rfl nofun) rfl
  | enter tid vaddr c object hcall hphase hvaddr hsize hfree =>
    have hothers : FreeIn s.others c.pid vaddr c.size := by
      simpa [RangeSys.admits, hcall] using hadmits
    exact hinv.enter hfree hothers (hguard c hcall)
  | callback => cases hadmits
  | begin tid pid => exact hinv.of_map (.of_eq rfl rfl) rfl
  | clear tid c => exact hinv.of_map (.of_eq rfl rfl) rfl
  | read tid c i smem => exact hinv.of_map (.of_eq rfl rfl) rfl
  | skip tid c i smem => exact hinv.of_map (.of_eq rfl rfl) rfl
  | finish tid c i => exact hinv.of_map (.of_eq rfl rfl) rfl
  | delete => cases hadmits
  | forget tid c i hcall hphase =>
    have hnothing : NothingNew s.map _ :=
      ⟨htypes, fun _ => mem_table_of_forget, fun _ _ _ hc _ => hc⟩
    exact hinv.of_map hnothing rfl
  | fork => cases hadmits
  | dtor o =>
    exact hinv.of_map (.of_eq (table_capioPagerDtor s.map.sc o.type) rfl) rfl

theorem removalInv_mapCase (hinv : RemovalInv s) (hadmits : s.admits l = true)
    (hguard : Careful s (.map l)) (hcase : MapCase ch bufferSize s.map l m) :
    RemovalInv { s with map := m } := by
  cases hcase with
  | refused => exact hinv
  | attach req hfree hset sc hregs =>
    exact hinv.of_map rfl (congrArg (List.map _) hregs) fun _ he => he
  | admitted tid pid dying req nprot offset size =>
    exact hinv.of_map rfl rfl fun _ he => he
  | find tid c => exact hinv.of_map rfl rfl fun _ he => he
  | leave tid c => exact hinv.of_map rfl rfl fun _ he => he
  | build tid c =>
    exact hinv.of_map rfl (table_capioPagerCtor s.map.sc c.mapType) fun _ he => he
  | drop tid c => exact hinv.of_map rfl rfl fun _ he => he
  | enter tid vaddr c object =>
    exact hinv.of_map rfl rfl fun _ he => List.mem_append_left _ he
  | callback => cases hadmits
  | begin tid pid hbegins hidle => exact hinv.admit hidle rfl rfl
  | clear tid c hcall => exact hinv.clear hguard rfl nofun
  | read tid c i smem hcall hphase hsmem hoffset =>
    exact hinv.read hcall hphase hoffset (List.mem_map_of_mem (List.mem_of_getElem? hsmem))
  | skip tid c i smem hcall hphase =>
    refine hinv.scan hcall (RevokeCall.running_of_phase hphase nofun) (by rw [hphase]; nofun) rfl
      ?_
    rintro c' j smem' ⟨⟩
    nofun
  | finish tid c i hcall hphase =>
    refine hinv.scan hcall (RevokeCall.running_of_phase hphase nofun) (by rw [hphase]; nofun) rfl
      ?_
    rintro c' j smem' ⟨⟩
  | delete => cases hadmits
  | forget tid c i hcall hphase =>
    refine hinv.scan hcall (RevokeCall.running_of_phase hphase nofun) (by rw [hphase]; nofun) rfl
      ?_
    rintro c' j smem' ⟨⟩
    nofun
  | fork => cases hadmits
  | dtor o =>
    exact hinv.of_map rfl (table_capioPagerDtor s.map.sc o.type) fun _ he => he

/-! ### The other steps -/

/-- The rows after `capio_vaddr_callback`: the new one, or old ones of other types. -/
theorem table_callback_cases (hnodup : s.map.types.Nodup) {vaddr size start len : Nat}
    {t type : Int}
    (hrow : (type, start, len) ∈
      MapSys.table { s.map with sc := (capioVaddrCallback s.map.sc vaddr size t).2 }) :
    (type = t ∧ start = vaddr ∧ len = size) ∨ (type ≠ t ∧ (type, start, len) ∈ s.map.table) := by
  rw [MapSys.types_eq] at hnodup
  by_cases hmem : t ∈ s.map.sc.sharedMemRegs.map SharedMemRegion.type
  · -- the types differ, so the first region of the type is the only one
    have hregs : (capioVaddrCallback s.map.sc vaddr size t).2.sharedMemRegs =
        onType t (fun smem => { smem with offset := vaddr, len := size })
          s.map.sc.sharedMemRegs := by
      rw [capioVaddrCallback, recordVaddr_eq_onType hnodup hmem]
    have hf : ∀ smem : SharedMemRegion,
        ({ smem with offset := vaddr, len := size } : SharedMemRegion).type = smem.type :=
      fun _ => rfl
    rcases table_onType_cases hf hregs hrow with ⟨htype, smem, -, hstart, hlen⟩ | hold
    · exact Or.inl ⟨htype, hstart, hlen⟩
    · exact Or.inr hold
  · rw [capioVaddrCallback, recordVaddr_of_not_mem hmem] at hrow
    refine Or.inr ⟨?_, hrow⟩
    rintro rfl
    obtain ⟨smem, hsmem, heq⟩ := List.mem_map.mp hrow
    exact hmem (List.mem_map.mpr ⟨smem, hsmem, congrArg Prod.fst heq⟩)

/-- The callback records for the process what was watched already. -/
theorem WatchInv.callback (hinv : WatchInv s) {c : MmapCall} (hcall : s.map.mmaps tid = some c)
    (hphase : c.phase = .entered vaddr) (htypes : MapSys.types { s.map.setMmap tid none with
      sc := (capioVaddrCallback s.map.sc vaddr c.size c.mapType).2 } = s.map.types) :
    WatchInv
      { s with
        map :=
          { s.map.setMmap tid none with
            sc := (capioVaddrCallback s.map.sc vaddr c.size c.mapType).2 }
        owner := Function.update s.owner c.mapType c.pid } where
  types := htypes ▸ hinv.types
  tidy := by
    intro pid type start len hwatched
    apply hinv.tidy pid type start len
    rcases hwatched with ⟨hrow, hstart, howner⟩ | ⟨tid', c', hc', hrest⟩
    · -- a new row was watched as the call's own range, an old one keeps its owner
      rcases table_callback_cases hinv.types hrow with ⟨rfl, rfl, rfl⟩ | ⟨hne, hold⟩
      · have hpid : c.pid = pid := (Function.update_self _ _ _).symm.trans howner
        exact Or.inr ⟨tid, c, hcall, hphase, hpid, rfl, rfl⟩
      · exact Or.inl ⟨hold, hstart, (Function.update_of_ne hne _ _).symm.trans howner⟩
    · rcases update_eq_some hc' with ⟨-, hnone⟩ | ⟨-, hold⟩
      · cases hnone
      · exact Or.inr ⟨tid', c', hold, hrest⟩

/-- The maps of a child show nothing that is watched. -/
theorem WatchInv.fork (hinv : WatchInv s) {child : Nat} {entries others : List MapEntry}
    (hentries : ∀ e ∈ entries, e.pid = child) (hothers : ∀ o ∈ others, o.pid = child)
    (hguard : ∀ type start len, ¬ s.Watched child type start len) :
    WatchInv
      { s with
        map := { s.map with entries := s.map.entries ++ entries }
        others := s.others ++ others } where
  types := hinv.types
  tidy := by
    intro pid type start len hwatched
    have hne : pid ≠ child := by
      rintro rfl
      exact hguard type start len hwatched
    apply (hinv.tidy pid type start len hwatched).mono
    · intro e he hpid
      rcases List.mem_append.mp he with hold | hnew
      · exact hold
      · exact absurd (hpid.symm.trans (hentries e hnew)) hne
    · intro o ho hpid
      rcases List.mem_append.mp ho with hold | hnew
      · exact others_self o hold
      · exact absurd (hpid.symm.trans (hothers o hnew)) hne

/-- Other memory comes where nothing is watched. -/
theorem WatchInv.mmapOther (hinv : WatchInv s) {readable : Bool}
    (hguard : ∀ type start' len', s.Watched pid type start' len' →
      Apart start len start' (start' + len')) :
    WatchInv { s with others := s.others ++ [otherEntry pid start len readable] } where
  types := hinv.types
  tidy := by
    intro pid' type start' len' hwatched
    have htidy := hinv.tidy pid' type start' len' hwatched
    refine ⟨?_, htidy.entries⟩
    intro o ho hpid
    rcases List.mem_append.mp ho with hold | hnew
    · exact htidy.others o hold hpid
    · rw [List.mem_singleton.mp hnew] at hpid ⊢
      change pid = pid' at hpid
      subst hpid
      exact hguard type start' len' hwatched

theorem RangeInv.munmap (hinv : RangeInv s) (hguard : Careful s (.munmap pid lo len)) :
    RangeInv
      { s with
        map := { s.map with entries := vmMapRemove s.map.entries pid lo (lo + len) }
        others := vmMapRemove s.others pid lo (lo + len) } where
  watch := by
    refine hinv.watch.nothingNew (.of_eq rfl rfl) ?_ fun _ => within_of_mem_vmMapRemove
    exact fun e => mem_of_mem_vmMapRemove (Nat.le_add_right lo len) hguard.1
  revoke := by
    refine hinv.revoke.frame rfl rfl rfl rfl ?_
    intro tid c hcall hrun e he hpid
    exact mem_vmMapRemove_of_ne he (hpid ▸ hguard.2 tid c hcall hrun)
  removals := hinv.removals

theorem RangeInv.callback (hinv : RangeInv s) {c : MmapCall} (hcall : s.map.mmaps tid = some c)
    (hguard : s.map.NoRevocation) (htypes : m.types = s.map.types)
    (hstep : mmapCallbackStep s.map tid c c.phase = some m) :
    RangeInv { s with map := m, owner := Function.update s.owner c.mapType c.pid } := by
  cases hphase : c.phase with
  | entered vaddr =>
    simp only [hphase, mmapCallbackStep] at hstep
    cases hstep
    refine ⟨hinv.watch.callback hcall hphase htypes, ?_, hinv.removals⟩
    exact RemovalInv.of_idle hguard (hinv.revoke.not_looked hguard)
  | _ => simp [hphase, mmapCallbackStep] at hstep

/-- What a revocation read is watched in the process for which it was recorded. -/
theorem RangeInv.watched_of_deleting (hinv : RangeInv s) {smem : SharedMemRegion}
    (hcall : s.map.revokes tid = some c) (hphase : c.phase = .deleting i smem)
    (howner : s.owner smem.type = c.pid) :
    Tidy s.map.entries s.others c.pid smem.type smem.offset smem.len := by
  obtain ⟨hoffset, hrow⟩ := hinv.revoke.copied tid c i smem hcall hphase
  exact hinv.watch.tidy _ _ _ _ (Or.inl ⟨hrow, hoffset, howner⟩)

theorem RangeInv.lookup {s' : RangeSys Cap Key} (hinv : RangeInv s)
    (hguard : Careful s (.lookup tid)) (hcall : s.map.revokes tid = some c)
    (hstep : lookupStep s tid c c.phase = some s') : RangeInv s' := by
  cases hphase : c.phase with
  | deleting i smem =>
    have hrun : c.Running := RevokeCall.running_of_phase hphase nofun
    simp only [hphase, lookupStep] at hstep
    split at hstep
    · cases hstep
    · rename_i hnot
      split at hstep
      · rename_i hlookup
        cases hstep
        refine ⟨hinv.watch.nothingNew (.of_eq rfl rfl) (fun _ he => he) others_self, ?_,
          hinv.removals⟩
        refine hinv.revoke.move hcall hrun (Function.update_eq_self_iff.mpr hcall.symm).symm
          (fun tid' hne => Function.update_of_ne hne _ _) ?_ ?_
        · rintro c' j smem' ⟨⟩ hdeleting
          exact hinv.revoke.copied tid c j smem' hcall hdeleting
        · intro _
          have howner := hguard c i smem hcall hphase hlookup
          exact ⟨c, i, smem, rfl, hphase, howner,
            (hinv.watched_of_deleting hcall hphase howner).covered hlookup⟩
      · cases hstep
        refine ⟨hinv.watch.nothingNew (.of_eq rfl rfl) (fun _ he => he) others_self, ?_,
          hinv.removals⟩
        refine hinv.revoke.move hcall hrun rfl (fun _ _ => rfl) ?_
          fun hlooked => absurd hlooked hnot
        rintro c' j smem' ⟨⟩
        nofun
  | _ => simp [hphase, lookupStep] at hstep

/-- A removal takes away a mapping of the region or nothing of the device. -/
theorem RangeInv.leaves_subset (hinv : RangeInv s) {smem : SharedMemRegion}
    (hcall : s.map.revokes tid = some c) (hphase : c.phase = .deleting i smem)
    (howner : s.owner smem.type = c.pid) (reply : VmReply) (e : MapEntry)
    (he : e ∈ reply.leaves s.map.entries c.pid smem.offset (smem.offset + smem.len)) :
    e ∈ s.map.entries := by
  have htidy := hinv.watched_of_deleting hcall hphase howner
  unfold VmReply.leaves at he
  split at he
  · refine mem_of_mem_vmMapRemove (Nat.le_add_right _ _) ?_ he
    intro x hx hpid
    rcases htidy.entries x hx hpid with ⟨-, hstart, hlen⟩ | happart
    · exact Or.inl ⟨Nat.le_of_eq hstart.symm, Nat.le_of_eq (by rw [hstart, hlen])⟩
    · exact Or.inr happart
  · exact he

theorem within_of_mem_leaves {reply : VmReply} {entries : List MapEntry} {pid lo hi : Nat}
    {x : MapEntry} (hx : x ∈ reply.leaves entries pid lo hi) :
    ∃ o ∈ entries, x.pid = o.pid ∧ Within x.start x.len o.start (o.start + o.len) := by
  unfold VmReply.leaves at hx
  split at hx
  · exact within_of_mem_vmMapRemove hx
  · exact ⟨x, hx, rfl, Nat.le_refl _, Nat.le_refl _⟩

theorem RangeInv.remove {s' : RangeSys Cap Key} (hinv : RangeInv s) {reply : VmReply}
    (hcall : s.map.revokes tid = some c)
    (hstep : removeStep s tid reply c c.phase = some s') : RangeInv s' := by
  cases hphase : c.phase with
  | deleting i smem =>
    have hrun : c.Running := RevokeCall.running_of_phase hphase nofun
    simp only [hphase, removeStep] at hstep
    split at hstep
    · rename_i hready
      cases hstep
      obtain ⟨c', j, smem', hc', hdeleting, howner, hcovered⟩ := hinv.revoke.looked tid hready.1
      cases hcall.symm.trans hc'
      cases hphase.symm.trans hdeleting
      refine ⟨?_, ?_, ?_⟩
      · exact hinv.watch.nothingNew (.of_eq rfl rfl)
          (hinv.leaves_subset hcall hphase howner reply) fun _ => within_of_mem_leaves
      · refine hinv.revoke.move hcall hrun rfl (fun tid' hne => Function.update_of_ne hne _ _)
          ?_ ?_
        · rintro c' j smem' ⟨⟩ hdeleting
          dsimp only at hdeleting
          split at hdeleting <;> cases hdeleting
        · intro hlooked
          exact absurd ((Function.update_self _ _ _).symm.trans hlooked) nofun
      · intro r hr
        rcases List.mem_append.mp hr with hold | hnew
        · exact hinv.removals r hold
        · -- the thread has looked the range up, and nothing has unmapped it since
          rw [List.mem_singleton.mp hnew]
          exact ⟨smem.type, hcovered⟩
    · cases hstep
  | _ => simp [hphase, removeStep] at hstep

end Steps

end Invariant

/-! ## Guarded runs -/

section Runs

variable {Cap Key : Type*} [DecidableEq Cap] {ch : Sealing Cap Key} {bufferSize : Int → Nat}

theorem rangeInv_step (s : RangeSys Cap Key) (l : RangeLabel Cap) (s' : RangeSys Cap Key)
    (hinv : RangeInv s) (hguard : Careful s l)
    (hstep : rangeStep ch bufferSize s l = some s') : RangeInv s' := by
  cases l with
  | map l =>
    simp only [rangeStep] at hstep
    split at hstep
    · rename_i hadmits
      obtain ⟨m, hm, rfl⟩ := Option.map_eq_some_iff.mp hstep
      have hcase := mapCase_mapStep hm
      exact ⟨watchInv_mapCase hinv.watch hadmits hguard hcase,
        removalInv_mapCase hinv.revoke hadmits hguard hcase, hinv.removals⟩
    · cases hstep
  | callback tid =>
    obtain ⟨c, hcall, hc⟩ := Option.bind_eq_some_iff.mp hstep
    obtain ⟨m, hm, rfl⟩ := Option.map_eq_some_iff.mp hc
    have htypes := types_mapCase (mapCase_mapStep hm)
    simp only [mapStep, hcall, Option.bind_some] at hm
    exact hinv.callback hcall hguard htypes hm
  | fork pid child =>
    simp only [rangeStep] at hstep
    split at hstep
    · obtain ⟨m, hm, rfl⟩ := Option.map_eq_some_iff.mp hstep
      simp only [mapStep] at hm
      split at hm
      · cases hm
        have hcopies : ∀ entries : List MapEntry,
            ∀ e ∈ (entries.filter fun e => e.pid = pid).map fun e => { e with pid := child },
              e.pid = child := by
          intro entries e he
          obtain ⟨e', -, rfl⟩ := List.mem_map.mp he
          rfl
        refine ⟨hinv.watch.fork (hcopies _) (hcopies _) hguard, ?_, hinv.removals⟩
        exact hinv.revoke.frame rfl rfl rfl rfl fun _ _ _ _ _ he _ => List.mem_append_left _ he
      · cases hm
    · cases hstep
  | lookup tid =>
    obtain ⟨c, hcall, hc⟩ := Option.bind_eq_some_iff.mp hstep
    exact hinv.lookup hguard hcall hc
  | remove tid reply =>
    obtain ⟨c, hcall, hc⟩ := Option.bind_eq_some_iff.mp hstep
    exact hinv.remove hcall hc
  | munmap pid lo len =>
    cases hstep
    exact hinv.munmap hguard
  | mmapOther pid start len readable =>
    simp only [rangeStep] at hstep
    split at hstep
    · cases hstep
      refine ⟨hinv.watch.mmapOther hguard, ?_, hinv.removals⟩
      exact hinv.revoke.frame rfl rfl rfl rfl fun _ _ _ _ _ he _ => he
    · cases hstep

omit [DecidableEq Cap] in
theorem RangeStart.inv {createSealingKey : Nat → Key} {s : RangeSys Cap Key}
    (hstart : RangeStart ch bufferSize createSealingKey s) : RangeInv s := by
  refine ⟨⟨?_, ?_⟩, ?_, ?_⟩
  · rw [MapSys.types_eq]
    exact hstart.map.types
  · intro pid type start len hwatched
    rcases hwatched with ⟨hrow, hne, -⟩ | ⟨tid, c, hcall, -⟩
    · obtain ⟨smem, hmem, heq⟩ := List.mem_map.mp hrow
      have hzero := hstart.map.unmapped smem hmem
      cases heq
      exact absurd hzero hne
    · rw [hstart.map.mmaps tid] at hcall
      cases hcall
  · refine RemovalInv.of_idle ?_ ?_
    · intro tid c hcall
      rw [hstart.map.revokes tid] at hcall
      cases hcall
    · intro tid hlooked
      rw [hstart.looked tid] at hlooked
      cases hlooked
  · intro r hr
    rw [hstart.removals] at hr
    cases hr

/-- In every run that keeps the order, each range a revocation removes is entirely a mapping
of the device in that process. -/
theorem careful_removes_only_device {createSealingKey : Nat → Key} {s : RangeSys Cap Key}
    (hstart : RangeStart ch bufferSize createSealingKey s) {labels : List (RangeLabel Cap)}
    (hobeys : Obeys (rangeStep ch bufferSize) Careful s labels) :
    Along (rangeStep ch bufferSize) RemovesOnlyDevice s labels :=
  along_of_obeys rangeInv_step (fun _ hinv => hinv.removals) hstart.inv hobeys

end Runs

/-! ## Two sessions -/

/-- The sample device, with processes that have nothing else mapped. -/
def sampleRanges : RangeSys SealedWord Nat where
  map := sampleDevice
  others := []
  looked := fun _ => false
  owner := fun _ => 0
  removals := []

theorem rangeStart_sampleRanges : RangeStart SealedWord.sealing sampleSize id sampleRanges where
  map := mapStart_sampleDevice
  looked := fun _ => rfl
  removals := rfl

/-- Process 10 attaches and maps the region at 65536. -/
def mapRange : List (RangeLabel SealedWord) :=
  [.map sampleAttach, .map (sampleAdmit 1 true), .map (.mmapFind 1), .map (.mmapBuild 1),
    .map (.mmapEnter 1 65536), .callback 1]

/-- It unmaps the region and maps its own memory there. -/
def reuseRange : List (RangeLabel SealedWord) :=
  [.munmap 10 65536 8192, .mmapOther 10 65536 8192 true]

/-- It says goodbye, and the revocation finds something at the address. -/
def revokeRange : List (RangeLabel SealedWord) :=
  [.map (.goodbye 1 10 sampleToken), .map (.revokeClear 1), .map (.revokeNext 1), .lookup 1,
    .remove 1 .removed]

/-- A session that maps and says goodbye: one range is removed, and it is the region. -/
theorem careful_removes_only_device_session :
    ∃ t, exec (rangeStep SealedWord.sealing sampleSize) sampleRanges (mapRange ++ revokeRange) =
        some t ∧ t.removals.length = 1 ∧
      Along (rangeStep SealedWord.sealing sampleSize) RemovesOnlyDevice sampleRanges
        (mapRange ++ revokeRange) := by
  refine ⟨_, rfl, rfl, careful_removes_only_device rangeStart_sampleRanges ?_⟩
  refine ⟨trivial, trivial, trivial, trivial, ?_, ?_, trivial, ?_, trivial, ?_, trivial, trivial⟩
  · -- before the mapping is entered nothing is watched
    intro c hc type start len hwatched
    rcases hwatched with ⟨hrow, hne, -⟩ | ⟨tid, c', hc', hphase, -⟩
    · cases List.mem_singleton.mp hrow
      exact absurd rfl hne
    · rcases update_eq_some hc' with ⟨-, heq⟩ | ⟨htid, hold⟩
      · cases heq
        cases hphase
      · simp only [MapSys.setMmap, Function.update_of_ne htid] at hold
        cases hold
  · intro tid c hcall
    cases hcall
  · intro tid c hcall hrun
    rcases update_eq_some hcall with ⟨-, heq⟩ | ⟨-, hold⟩
    · cases heq
      exact hrun rfl
    · cases hold
  · intro c i smem hc hphase _
    cases hc
    cases hphase
    rfl

/-- A session that unmaps the region, maps its own memory at the same address and says
goodbye: its memory is removed. -/
theorem revocation_removes_other_memory :
    RangeStart SealedWord.sealing sampleSize id sampleRanges ∧
      ∃ t, exec (rangeStep SealedWord.sealing sampleSize) sampleRanges
          (mapRange ++ reuseRange ++ revokeRange) = some t ∧ t.others = [] ∧
        ¬ RemovesOnlyDevice t := by
  refine ⟨rangeStart_sampleRanges, _, rfl, rfl, ?_⟩
  intro honly
  obtain ⟨type, hcovered⟩ := honly _ List.mem_cons_self
  obtain ⟨e, he, -⟩ := hcovered 65536 (Nat.le_refl _) (by decide)
  cases he

end Capio
end SfcCapio
