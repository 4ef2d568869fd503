import SfcCapio.Capio.Lifecycle
import SfcCapio.Capio.Regions

/-!
# The device can be opened again

Through any number of sessions the table of regions differs from the one attach
created in two columns only: the flag of the regions that the library has recorded as
mapped, and the remembered addresses.  `table` writes it that way, and every function
that writes to `smem[]` becomes an update of one of the two columns.

`Live` ties the flags to `region_maps` and to the map of the process.  Each step of
`sfc7120_init` keeps it whether it succeeds or fails, so the label `fail` and a later
destroy find the same situation: munmap clears every flag that was set, and the
revocation clears every address.  `device_reopens` puts this together for all
sequences of sessions.

One region is an exception by design.  Without the ablation tunable the unsliced view
of the BAR is created with length 0 and its flag set, so that it can never be mapped;
what is restored is that state.  It is also why `sc->mapped`, which nothing reads, stays
set after the first session.
-/

namespace SfcCapio
namespace Capio

open Foundation Hardware

/-! ## The table of regions -/

section Table

variable {barSize : Nat} {ablation : Bool} {m : VmMapType → Bool} {off : VmMapType → Nat}
  {t : VmMapType}

variable (barSize ablation m off) in
/-- The region of a type with its flag and its address. -/
def tableEntry (t : VmMapType) : SharedMemRegion :=
  { smemEntry barSize ablation t with
    mapped := (smemEntry barSize ablation t).mapped || m t
    offset := off t }

variable (barSize ablation m off) in
/-- The table of attach with the regions in `m` marked and with the addresses `off`. -/
def table : List SharedMemRegion := VmMapType.all.map (tableEntry barSize ablation m off)

theorem smemEntry_type (t : VmMapType) : (smemEntry barSize ablation t).type = t.code := by
  cases t <;> rfl

theorem attachSmem_eq_table :
    attachSmem barSize ablation = table barSize ablation (fun _ => false) fun _ => 0 := by
  apply List.map_congr_left
  intro t _
  cases t <;> simp [tableEntry, smemEntry, dmaRegion]

theorem find?_table :
    (table barSize ablation m off).find? (fun smem => smem.type = t.code) =
      some (tableEntry barSize ablation m off t) := by
  have hcodes : (fun t' => decide ((tableEntry barSize ablation m off t').type = t.code)) =
      fun t' => decide (t'.code = t.code) := by
    funext t'
    rw [show (tableEntry barSize ablation m off t').type = t'.code from smemEntry_type t']
  have hfind : VmMapType.all.find? (fun t' => t'.code = t.code) = some t := by
    cases t <;> rfl
  rw [table, List.find?_map, Function.comp_def, hcodes, hfind, Option.map_some]

/-- A loop over the regions of one type changes one row. -/
theorem onType_table {f : SharedMemRegion → SharedMemRegion} :
    onType t.code f (table barSize ablation m off) =
      VmMapType.all.map fun t' =>
        if t' = t then f (tableEntry barSize ablation m off t')
        else tableEntry barSize ablation m off t' := by
  rw [onType, table, List.map_map]
  apply List.map_congr_left
  intro t' _
  have htype : (tableEntry barSize ablation m off t').type = t'.code := smemEntry_type t'
  simp only [Function.comp_apply, htype, VmMapType.code_injective.eq_iff]

theorem onType_table_eq {f : SharedMemRegion → SharedMemRegion} {m' : VmMapType → Bool}
    {off' : VmMapType → Nat}
    (hrow : f (tableEntry barSize ablation m off t) = tableEntry barSize ablation m' off' t)
    (hothers : ∀ t', t' ≠ t → m' t' = m t' ∧ off' t' = off t') :
    onType t.code f (table barSize ablation m off) = table barSize ablation m' off' := by
  rw [onType_table]
  apply List.map_congr_left
  intro t' _
  by_cases heq : t' = t
  · subst heq
    rw [if_pos rfl]
    exact hrow
  · obtain ⟨hflag, hoffset⟩ := hothers t' heq
    rw [if_neg heq]
    simp only [tableEntry, hflag, hoffset]

theorem types_table : (table barSize ablation m off).map SharedMemRegion.type =
    VmMapType.all.map VmMapType.code := by
  rw [table, List.map_map]
  apply List.map_congr_left
  intro t _
  exact smemEntry_type t

/-! ### The functions that write to it -/

variable {Cap Key : Type*} {sc : CapioSoftc Cap Key}

theorem capioPagerCtor_table (hregs : sc.sharedMemRegs = table barSize ablation m off) :
    (capioPagerCtor sc t.code).sharedMemRegs =
      table barSize ablation (Function.update m t true) off := by
  simp only [capioPagerCtor, hregs]
  apply onType_table_eq
  · simp [tableEntry]
  · intro t' hne
    exact ⟨Function.update_of_ne hne _ _, rfl⟩

/-- The destructor of a region that attach left unmarked. -/
theorem capioPagerDtor_table (hregs : sc.sharedMemRegs = table barSize ablation m off)
    (henabled : (smemEntry barSize ablation t).mapped = false) :
    (capioPagerDtor sc t.code).sharedMemRegs =
      table barSize ablation (Function.update m t false) off := by
  simp only [capioPagerDtor, hregs]
  apply onType_table_eq
  · simp [tableEntry, henabled]
  · intro t' hne
    exact ⟨Function.update_of_ne hne _ _, rfl⟩

/-- A callback with the length the region has. -/
theorem capioVaddrCallback_table (hregs : sc.sharedMemRegs = table barSize ablation m off)
    (t : VmMapType) (vaddr : Nat) :
    capioVaddrCallback sc vaddr (smemEntry barSize ablation t).len t.code =
      (.ok (),
        { sc with sharedMemRegs := table barSize ablation m (Function.update off t vaddr) }) := by
  have hnodup : ((table barSize ablation m off).map SharedMemRegion.type).Nodup := by
    rw [types_table]
    exact VmMapType.nodup_all.map VmMapType.code_injective
  have hmem : t.code ∈ (table barSize ablation m off).map SharedMemRegion.type := by
    rw [types_table]
    exact List.mem_map_of_mem t.mem_all
  have hrecord : recordVaddr vaddr (smemEntry barSize ablation t).len t.code
        (table barSize ablation m off) =
      some (table barSize ablation m (Function.update off t vaddr)) := by
    rw [recordVaddr_eq_onType hnodup hmem]
    apply congrArg some
    apply onType_table_eq
    · simp [tableEntry]
    · intro t' hne
      exact ⟨rfl, Function.update_of_ne hne _ _⟩
  simp only [capioVaddrCallback, hregs, hrecord]

/-- Revocation clears the address of each region whose deletion succeeds. -/
theorem revokeRegions_eq_map (delete : SharedMemRegion → Option Errno)
    (regs : List SharedMemRegion) (error : Option Errno) :
    (revokeRegions delete regs error).1 = regs.map fun smem =>
      if delete smem = none then { smem with offset := 0 } else smem := by
  induction regs generalizing error with
  | nil => rfl
  | cons smem regs ih =>
    by_cases hoffset : smem.offset = 0
    · have hsame : { smem with offset := 0 } = smem := by
        rw [← hoffset]
      simp only [revokeRegions, hoffset, ne_eq, not_true_eq_false, if_false, List.map_cons, ih]
      rw [hsame, ite_self]
    · simp only [revokeRegions, hoffset, ne_eq, not_false_eq_true, if_true, ih, List.map_cons]
      cases delete smem <;> rfl

theorem revokeRegions_of_deleted {delete : SharedMemRegion → Option Errno}
    (hdelete : ∀ smem, delete smem = none) (regs : List SharedMemRegion) (error : Option Errno) :
    (revokeRegions delete regs error).1 = regs.map fun smem => { smem with offset := 0 } := by
  rw [revokeRegions_eq_map]
  apply List.map_congr_left
  intro smem _
  rw [if_pos (hdelete smem)]

/-- Whatever becomes of the deletions, only addresses change. -/
theorem revokeRegions_table (delete : SharedMemRegion → Option Errno) (error : Option Errno) :
    ∃ off', (revokeRegions delete (table barSize ablation m off) error).1 =
      table barSize ablation m off' := by
  refine ⟨fun t =>
    if delete (tableEntry barSize ablation m off t) = none then 0 else off t, ?_⟩
  rw [revokeRegions_eq_map, table, List.map_map]
  apply List.map_congr_left
  intro t _
  simp only [Function.comp_apply]
  by_cases hdelete : delete (tableEntry barSize ablation m off t) = none
  · conv_rhs => rw [tableEntry, if_pos hdelete]
    rw [if_pos hdelete]
    rfl
  · conv_rhs => rw [tableEntry, if_neg hdelete]
    rw [if_neg hdelete]
    rfl

theorem clearOffsets_table :
    (table barSize ablation m off).map (fun smem => { smem with offset := 0 }) =
      table barSize ablation m fun _ => 0 := by
  rw [table, List.map_map]
  rfl

/-! ### What it answers -/

theorem capioSliceLengthCallback_table :
    capioSliceLengthCallback (table barSize ablation m off) t.code =
      ⟨(smemEntry barSize ablation t).len, (smemEntry barSize ablation t).sliceDefLen⟩ := by
  rw [capioSliceLengthCallback, find?_table]
  rfl

/-- The size demanded is the length reported, whatever is mapped. -/
theorem getBufferSize_table :
    getBufferSize barSize (table barSize ablation m off) t.code =
      (smemEntry barSize ablation t).len := by
  -- six answers are constants; the unsliced region reads the seventh row of the table
  cases t <;> rfl

/-- The search of the regions refuses what attach or a mapping has marked. -/
theorem mmapFind_table :
    (∃ found, mmapFind (table barSize ablation m off) t.code = .ok found) ↔
      (smemEntry barSize ablation t).mapped = false ∧ m t = false := by
  have hmarked : (tableEntry barSize ablation m off t).mapped =
      ((smemEntry barSize ablation t).mapped || m t) := rfl
  simp only [mmapFind, find?_table, hmarked]
  cases (smemEntry barSize ablation t).mapped with
  | true => simp
  | false => cases m t <;> simp

end Table

/-! ## During a session -/

section Session

variable {Cap Key : Type*} {ch : Sealing Cap Key} {barSize pid : Nat}
  {ablation : Bool} {key : Key} {s : OpenSys Cap Key} {t : VmMapType}

variable (barSize pid ablation key) in
/-- The device while a process has it open: the regions recorded by the library are the
ones marked in the table and the ones in the map of the process, each with an object of
its own. -/
structure Live (s : OpenSys Cap Key) : Prop where
  fd : s.fd = true
  key : s.sc.sealingKey = key
  regs : ∃ off, s.sc.sharedMemRegs =
    table barSize ablation (fun t => (s.regionMaps t).isSome) off
  recorded : ∀ t base len, s.regionMaps t = some (base, len) ↔
    ∃ e ∈ s.entries, e.type = t.code ∧ e.start = base ∧ e.len = len
  entry : ∀ e ∈ s.entries, e.pid = pid ∧ 0 < e.len ∧ e.object < s.nextObject ∧
    ∃ t, e.type = VmMapType.code t ∧ (smemEntry barSize ablation t).mapped = false
  apart : ∀ e ∈ s.entries, ∀ e' ∈ s.entries, e ≠ e' →
    e.start + e.len ≤ e'.start ∨ e'.start + e'.len ≤ e.start
  objects : ∀ e ∈ s.entries, ∀ e' ∈ s.entries, e.object = e'.object → e = e'

variable (ch barSize ablation key) in
/-- The device between two sessions: as attach created it. -/
structure Restored (s : OpenSys Cap Key) : Prop where
  regs : s.sc.sharedMemRegs = attachSmem barSize ablation
  token : s.sc.capState = ⟨ch.null, ch.null⟩
  key : s.sc.sealingKey = key
  entries : s.entries = []

/-- The marks of the recorded regions after one record changes. -/
theorem isSome_update (maps : VmMapType → Option (Nat × Nat)) (t : VmMapType)
    (place : Option (Nat × Nat)) :
    (fun t' => (Function.update maps t place t').isSome) =
      Function.update (fun t' => (maps t').isSome) t place.isSome :=
  Function.comp_update Option.isSome maps t place

namespace Live

/-- Steps that change the token and the library's copy of it only. -/
theorem of_frame (hlive : Live barSize pid ablation key s) {s' : OpenSys Cap Key}
    (hfd : s'.fd = s.fd) (hkey : s'.sc.sealingKey = s.sc.sealingKey)
    (hregs : s'.sc.sharedMemRegs = s.sc.sharedMemRegs) (hentries : s'.entries = s.entries)
    (hobject : s'.nextObject = s.nextObject) (hmaps : s'.regionMaps = s.regionMaps) :
    Live barSize pid ablation key s' where
  fd := hfd.trans hlive.fd
  key := hkey.trans hlive.key
  regs := by
    rw [hregs, hmaps]
    exact hlive.regs
  recorded := by
    rw [hentries, hmaps]
    exact hlive.recorded
  entry := by
    rw [hentries, hobject]
    exact hlive.entry
  apart := hentries ▸ hlive.apart
  objects := hentries ▸ hlive.objects

/-- No entry shows a region that is not recorded. -/
theorem type_ne (hlive : Live barSize pid ablation key s) (hnone : s.regionMaps t = none)
    (e : MapEntry) (he : e ∈ s.entries) : e.type ≠ t.code := by
  intro htype
  have hsome := (hlive.recorded t e.start e.len).mpr ⟨e, he, htype, rfl, rfl⟩
  rw [hnone] at hsome
  cases hsome

/-! ### Mapping a region -/

/-- An object that cannot be entered: the destructor takes back what the constructor
did. -/
theorem dropped (hlive : Live barSize pid ablation key s)
    (henabled : (smemEntry barSize ablation t).mapped = false)
    (hnone : s.regionMaps t = none) : Live barSize pid ablation key (s.dropped t.code) := by
  obtain ⟨off, hregs⟩ := hlive.regs
  constructor
  · exact hlive.fd
  · exact hlive.key
  · refine ⟨off, ?_⟩
    have hdtor := capioPagerDtor_table (capioPagerCtor_table (t := t) hregs) henabled
    rw [Function.update_idem] at hdtor
    refine hdtor.trans ?_
    show table barSize ablation _ off =
      table barSize ablation (fun t => (s.regionMaps t).isSome) off
    congr 1
    rw [Function.update_eq_self_iff, hnone]
    rfl
  · exact hlive.recorded
  · intro e he
    obtain ⟨hpid, hlen, hobject, htype⟩ := hlive.entry e he
    exact ⟨hpid, hlen, Nat.lt_succ_of_lt hobject, htype⟩
  · exact hlive.apart
  · exact hlive.objects

theorem entered (hlive : Live barSize pid ablation key s) {vaddr size : Nat}
    (henabled : (smemEntry barSize ablation t).mapped = false)
    (hnone : s.regionMaps t = none) (hsize : size = (smemEntry barSize ablation t).len)
    (hpos : size ≠ 0) (hfree : s.Free vaddr size) :
    Live barSize pid ablation key
      { s.entered pid t.code size vaddr with
        regionMaps := Function.update s.regionMaps t (some (vaddr, size)) } := by
  obtain ⟨off, hregs⟩ := hlive.regs
  -- the length recorded by the callback is the one the region had
  have hcallback := capioVaddrCallback_table (capioPagerCtor_table (t := t) hregs) t vaddr
  rw [← hsize] at hcallback
  constructor
  · exact hlive.fd
  · simp only [OpenSys.entered, hcallback]
    exact hlive.key
  · refine ⟨Function.update off t vaddr, ?_⟩
    simp only [OpenSys.entered, hcallback, isSome_update, Option.isSome_some]
  · intro t' base len
    simp only [OpenSys.entered, List.mem_append, List.mem_singleton]
    by_cases heq : t' = t
    · subst heq
      rw [Function.update_self]
      constructor
      · intro hsome
        obtain ⟨rfl, rfl⟩ := Prod.mk.inj (Option.some.inj hsome)
        exact ⟨_, Or.inr rfl, rfl, rfl, rfl⟩
      · rintro ⟨e, he | rfl, htype, rfl, rfl⟩
        · exact absurd htype (hlive.type_ne hnone e he)
        · rfl
    · rw [Function.update_of_ne heq, hlive.recorded t' base len]
      constructor
      · rintro ⟨e, he, hshows⟩
        exact ⟨e, Or.inl he, hshows⟩
      · rintro ⟨e, he | rfl, hshows⟩
        · exact ⟨e, he, hshows⟩
        · exact absurd (VmMapType.code_injective hshows.1.symm) heq
  · intro e he
    rcases List.mem_append.mp he with hold | hnew
    · obtain ⟨hpid, hlen, hobject, htype⟩ := hlive.entry e hold
      exact ⟨hpid, hlen, Nat.lt_succ_of_lt hobject, htype⟩
    · obtain rfl := List.mem_singleton.mp hnew
      exact ⟨rfl, Nat.pos_of_ne_zero hpos, Nat.lt_succ_self _, t, rfl, henabled⟩
  · apply forall_pairs_concat
    · exact fun e e' hapart hne => (hapart hne.symm).symm
    · exact hlive.apart
    · exact fun e he _ => hfree e he
    · exact fun hne => absurd rfl hne
  · -- the new object's number is above all others
    apply forall_pairs_concat
    · exact fun e e' hsame hobject => (hsame hobject.symm).symm
    · exact hlive.objects
    · exact fun e he hobject => absurd hobject (Nat.ne_of_lt (hlive.entry e he).2.2.1)
    · exact fun _ => rfl

end Live

/-! ### Unmapping and revoking -/

/-- The destructors of a region's objects, of which there is at least one. -/
theorem foldl_dtor_table {gone : List MapEntry} (hne : gone ≠ [])
    (htype : ∀ e ∈ gone, e.type = t.code)
    (henabled : (smemEntry barSize ablation t).mapped = false)
    {m : VmMapType → Bool} {off : VmMapType → Nat} {sc : CapioSoftc Cap Key}
    (hregs : sc.sharedMemRegs = table barSize ablation m off) :
    (gone.foldl (fun sc e => capioPagerDtor sc e.type) sc).sharedMemRegs =
      table barSize ablation (Function.update m t false) off := by
  induction gone generalizing m sc with
  | nil => exact absurd rfl hne
  | cons e gone ih =>
    have hdtor := capioPagerDtor_table hregs henabled
    rw [← htype e List.mem_cons_self] at hdtor
    rw [List.foldl_cons]
    cases gone with
    | nil => exact hdtor
    | cons e' gone =>
      have hrest := ih (List.cons_ne_nil e' gone)
        (fun x hx => htype x (List.mem_cons_of_mem e hx)) hdtor
      rwa [Function.update_idem] at hrest

theorem foldl_dtor_key (gone : List MapEntry) (sc : CapioSoftc Cap Key) :
    (gone.foldl (fun sc e => capioPagerDtor sc e.type) sc).sealingKey = sc.sealingKey := by
  induction gone generalizing sc with
  | nil => rfl
  | cons e gone ih => exact ih (capioPagerDtor sc e.type)

namespace Live

/-- Entries of a recorded region lie where it is recorded. -/
theorem place_eq (hlive : Live barSize pid ablation key s) {base len : Nat}
    (hmap : s.regionMaps t = some (base, len)) (e : MapEntry) (he : e ∈ s.entries)
    (htype : e.type = t.code) : e.start = base ∧ e.len = len := by
  have hsame := (hlive.recorded t e.start e.len).mpr ⟨e, he, htype, rfl, rfl⟩
  rw [hmap] at hsame
  obtain ⟨hbase, hlen⟩ := Prod.mk.inj (Option.some.inj hsame)
  exact ⟨hbase.symm, hlen.symm⟩

/-- munmap of a recorded region takes out its entry and no other. -/
theorem vmMapRemove_eq (hlive : Live barSize pid ablation key s) {base len : Nat}
    (hmap : s.regionMaps t = some (base, len)) :
    vmMapRemove s.entries pid base (base + len) = s.entries.filter fun e => e.type ≠ t.code := by
  obtain ⟨e₀, he₀, htype₀, rfl, rfl⟩ := (hlive.recorded t base len).mp hmap
  apply vmMapRemove_eq_filter (Nat.le_add_right _ _)
  · exact fun e he => (hlive.entry e he).1
  · exact fun e he => (hlive.entry e he).2.1
  · intro e he htype
    obtain ⟨hstart, hlen⟩ := hlive.place_eq hmap e he htype
    rw [hstart, hlen]
    exact ⟨rfl, rfl⟩
  · intro e he htype
    have hne : e ≠ e₀ := by
      rintro rfl
      exact htype htype₀
    exact hlive.apart e he e₀ he₀ hne

/-- The objects that lose their last entry are those of the region. -/
theorem gone_eq (hlive : Live barSize pid ablation key s) :
    (s.entries.filter fun e =>
        (s.entries.filter fun e => e.type ≠ t.code).all fun e' => e'.object != e.object) =
      s.entries.filter fun e => e.type = t.code := by
  apply List.filter_congr
  intro e he
  rw [Bool.eq_iff_iff, List.all_eq_true, decide_eq_true_iff]
  constructor
  · intro hall
    by_contra htype
    have hself := hall e (List.mem_filter.mpr ⟨he, by simpa using htype⟩)
    simp at hself
  · intro htype e' he'
    obtain ⟨hmem, htype'⟩ := List.mem_filter.mp he'
    have hne : e'.object ≠ e.object := by
      intro hobject
      obtain rfl := hlive.objects e' hmem e he hobject
      simp [htype] at htype'
    simpa using hne

/-- One round of destroy: the region is unmarked and forgotten. -/
theorem munmapRegion (hlive : Live barSize pid ablation key s) (t : VmMapType) :
    Live barSize pid ablation key (munmapRegion pid s t) ∧
      (Capio.munmapRegion pid s t).regionMaps = Function.update s.regionMaps t none := by
  unfold Capio.munmapRegion
  cases hmap : s.regionMaps t with
  | none => exact ⟨hlive, (Function.update_eq_self_iff.mpr hmap.symm).symm⟩
  | some place =>
    obtain ⟨base, len⟩ := place
    obtain ⟨e₀, he₀, htype₀, -, -⟩ := (hlive.recorded t base len).mp hmap
    obtain ⟨t₀, hcode, henabled⟩ := (hlive.entry e₀ he₀).2.2.2
    obtain rfl := VmMapType.code_injective (htype₀.symm.trans hcode)
    obtain ⟨off, hregs⟩ := hlive.regs
    refine ⟨?_, rfl⟩
    -- exactly the region's entry leaves the map, and its object is destroyed with it
    simp only [munmap, hlive.vmMapRemove_eq hmap, hlive.gone_eq]
    constructor
    · exact hlive.fd
    · exact (foldl_dtor_key _ _).trans hlive.key
    · refine ⟨off, ?_⟩
      have hne : s.entries.filter (fun e => e.type = t.code) ≠ [] := by
        apply List.ne_nil_of_mem
        exact List.mem_filter.mpr ⟨he₀, by simpa using htype₀⟩
      have htypes : ∀ e ∈ s.entries.filter (fun e => e.type = t.code), e.type = t.code := by
        intro e he
        simpa using (List.mem_filter.mp he).2
      rw [foldl_dtor_table hne htypes henabled hregs, isSome_update, Option.isSome_none]
    · intro t' base' len'
      simp only [List.mem_filter, decide_eq_true_iff]
      by_cases heq : t' = t
      · subst heq
        rw [Function.update_self]
        constructor
        · nofun
        · rintro ⟨e, ⟨-, hother⟩, htype, -⟩
          exact absurd htype hother
      · rw [Function.update_of_ne heq, hlive.recorded t' base' len']
        constructor
        · rintro ⟨e, he, htype, hplace⟩
          refine ⟨e, ⟨he, ?_⟩, htype, hplace⟩
          rw [htype]
          exact fun hcodes => heq (VmMapType.code_injective hcodes)
        · rintro ⟨e, ⟨he, -⟩, hshows⟩
          exact ⟨e, he, hshows⟩
    · intro e he
      exact hlive.entry e (List.mem_filter.mp he).1
    · intro e he e' he'
      exact hlive.apart e (List.mem_filter.mp he).1 e' (List.mem_filter.mp he').1
    · intro e he e' he'
      exact hlive.objects e (List.mem_filter.mp he).1 e' (List.mem_filter.mp he').1

theorem foldl_munmapRegion (types : List VmMapType) (hlive : Live barSize pid ablation key s) :
    Live barSize pid ablation key (types.foldl (Capio.munmapRegion pid) s) ∧
      ∀ t, (types.foldl (Capio.munmapRegion pid) s).regionMaps t =
        if t ∈ types then none else s.regionMaps t := by
  induction types generalizing s with
  | nil => exact ⟨hlive, fun t => by simp⟩
  | cons t types ih =>
    obtain ⟨hnext, hmaps⟩ := hlive.munmapRegion t
    obtain ⟨hlast, hrest⟩ := ih hnext
    refine ⟨hlast, ?_⟩
    intro t'
    rw [List.foldl_cons, hrest t', hmaps]
    by_cases heq : t' = t
    · subst heq
      simp
    · simp [heq]

end Live

/-- A process map without the device's regions: nothing is left to delete. -/
theorem deleteMappings_nil (hentries : s.entries = []) : s.deleteMappings pid = [] := by
  have hstep : ∀ regs : List SharedMemRegion,
      regs.foldl
        (fun entries smem =>
          if smem.offset ≠ 0 then (deleteMappingFromUser entries pid smem.offset smem.len).2
          else entries) [] = [] := by
    intro regs
    induction regs with
    | nil => rfl
    | cons smem regs ih =>
      rw [List.foldl_cons]
      have hnone : (if smem.offset ≠ 0 then
          (deleteMappingFromUser [] pid smem.offset smem.len).2 else []) = [] := by
        split <;> rfl
      rw [hnone]
      exact ih
  rw [OpenSys.deleteMappings, hentries]
  exact hstep _

theorem deleteResult_eq_none (s : OpenSys Cap Key) (smem : SharedMemRegion) :
    s.deleteResult pid smem = none := by
  unfold OpenSys.deleteResult deleteMappingFromUser
  split <;> rfl

variable {off : VmMapType → Nat} {m : VmMapType → Bool}

/-- Revoking on an empty map: the addresses are cleared, the flags stay. -/
theorem revoke_unmapped (ch : Sealing Cap Key) (pid : Nat)
    (hregs : s.sc.sharedMemRegs = table barSize ablation m off) (hentries : s.entries = []) :
    (revoke ch pid s).sc.sharedMemRegs = table barSize ablation m (fun _ => 0) ∧
      (revoke ch pid s).sc.capState = ⟨ch.null, ch.null⟩ ∧
        (revoke ch pid s).sc.sealingKey = s.sc.sealingKey ∧ (revoke ch pid s).entries = [] := by
  refine ⟨?_, rfl, rfl, deleteMappings_nil hentries⟩
  show (revokeRegions (s.deleteResult pid) s.sc.sharedMemRegs none).1 = _
  rw [revokeRegions_of_deleted (deleteResult_eq_none s), hregs, clearOffsets_table]

theorem Restored.live (hrest : Restored ch barSize ablation key s) (stale : CapReq Cap) :
    Live barSize pid ablation key
      { s with fd := true, capReq := stale, regionMaps := fun _ => none } where
  fd := rfl
  key := hrest.key
  regs := ⟨fun _ => 0, hrest.regs.trans attachSmem_eq_table⟩
  recorded := by
    intro t base len
    simp [hrest.entries]
  entry := by simp [hrest.entries]
  apart := by simp [hrest.entries]
  objects := by simp [hrest.entries]

theorem restored_openAfterAttach (createSealingKey : Nat → Key) :
    Restored ch barSize ablation (createSealingKey 0x1234)
      (openAfterAttach ch barSize createSealingKey ablation) where
  regs := rfl
  token := rfl
  key := rfl
  entries := rfl

/-! ## The steps of init -/

/-- A step and what follows it, where both keep the session in order. -/
theorem triple_then {first rest : Action (OpenSys Cap Key) Unit}
    (hfirst : Triple (Live barSize pid ablation key) first
      (Live barSize pid ablation key) (fun _ => Live barSize pid ablation key))
    (hrest : Triple (Live barSize pid ablation key) rest
      (Live barSize pid ablation key) (fun _ => Live barSize pid ablation key)) :
    Triple (Live barSize pid ablation key) (first.andThen id rest)
      (Live barSize pid ablation key) (fun _ => Live barSize pid ablation key) :=
  hfirst.andThen (fun _ _ hlive => hlive) hrest

theorem triple_openModmap (env : InitEnv Cap) :
    Triple (Live barSize pid ablation key) (openModmap env)
      (Live barSize pid ablation key) (fun _ => Live barSize pid ablation key) := by
  intro s hlive
  simp only [openModmap]
  cases env.openModmap with
  | false => exact hlive
  | true => exact hlive

variable [DecidableEq Cap]

theorem triple_mapRegion (env : MapEnv) (t : VmMapType) (outSlices : Bool) :
    Triple (Live barSize pid ablation key) (mapRegion ch barSize pid env t outSlices)
      (Live barSize pid ablation key) (fun _ => Live barSize pid ablation key) := by
  intro s hlive
  obtain ⟨off, hregs⟩ := hlive.regs
  have hsizes : (capioSliceLengthCallback s.sc.sharedMemRegs t.code).regionLength =
      (smemEntry barSize ablation t).len := by
    rw [hregs, capioSliceLengthCallback_table]
  simp only [mapRegion]
  by_cases hslices : env.getSlices = false
  · simp only [if_pos hslices]
    exact hlive
  rw [if_neg hslices]
  by_cases hlength : (capioSliceLengthCallback s.sc.sharedMemRegs t.code).regionLength = 0
  · simp only [if_pos hlength]
    exact hlive
  rw [if_neg hlength]
  by_cases hcalloc : (outSlices && !env.calloc) = true
  · simp only [if_pos hcalloc]
    exact hlive
  rw [if_neg hcalloc]
  by_cases hsliced : (!outSlices &&
      (capioSliceLengthCallback s.sc.sharedMemRegs t.code).sliceDefLength != 0) = true
  · simp only [if_pos hsliced]
    exact hlive
  rw [if_neg hsliced]
  simp only [modmapMap]
  cases hadmit : mmapAdmit ch s.sc (getBufferSize barSize s.sc.sharedMemRegs) false
      { s.capReq with mapType := t.code } protReadWrite 0
      (capioSliceLengthCallback s.sc.sharedMemRegs t.code).regionLength with
  | error e => exact hlive
  | ok _ =>
    simp only
    cases hfind : mmapFind s.sc.sharedMemRegs t.code with
    | error e => exact hlive
    | ok found =>
      -- the region is neither marked by attach nor recorded
      rw [hregs] at hfind
      obtain ⟨henabled, hunmarked⟩ := mmapFind_table.mp ⟨found, hfind⟩
      have hnone : s.regionMaps t = none :=
        Option.not_isSome_iff_eq_none.mp (by simp [hunmarked])
      cases env.outcome with
      | noObject => exact hlive
      | noRoom => exact hlive.dropped henabled hnone
      | entered vaddr =>
        simp only
        by_cases hroom : vaddr ≠ 0 ∧
            s.Free vaddr (capioSliceLengthCallback s.sc.sharedMemRegs t.code).regionLength
        · rw [if_pos hroom]
          exact hlive.entered henabled hnone hsizes hlength hroom.2
        · rw [if_neg hroom]
          exact hlive.dropped henabled hnone

/-- Attaching touches nothing but the token, also where the reply is lost. -/
theorem triple_attachToken (env : InitEnv Cap) :
    Triple (Live barSize pid ablation key) (attachToken ch env)
      (Live barSize pid ablation key) (fun _ => Live barSize pid ablation key) := by
  intro s hlive
  simp only [attachToken]
  cases env.capToken with
  | none => exact hlive
  | some cap =>
    simp only [capioIoctlHandler]
    rcases setCapToken_cases ch s.sc { s.capReq with userCap := cap } with
      ⟨-, -, hset⟩ | hset
    · simp only [hset]
      cases env.copyout with
      | true => exact hlive.of_frame rfl rfl rfl rfl rfl rfl
      | false => exact hlive.of_frame rfl rfl rfl rfl rfl rfl
    · simp only [hset]
      exact hlive.of_frame rfl rfl rfl rfl rfl rfl

theorem driverCall_state (ch : Sealing Cap Key) (cmd : Nat) (result : Option Errno)
    (s : OpenSys Cap Key) : (driverCall ch cmd result s).2 = s := by
  simp only [driverCall, capioIoctlHandler]
  cases checkCapToken ch s.sc s.capReq.sealedCap with
  | error e => rfl
  | ok _ => cases result <;> rfl

theorem triple_driverCall (cmd : Nat) (result : Option Errno) :
    Triple (Live barSize pid ablation key) (driverCall ch cmd result)
      (Live barSize pid ablation key) (fun _ => Live barSize pid ablation key) := by
  intro s hlive
  have hstate := driverCall_state ch cmd result s
  cases hout : driverCall ch cmd result s with
  | mk err s' =>
    rw [hout] at hstate
    obtain rfl : s' = s := hstate
    cases err <;> exact hlive

theorem triple_initSteps (env : InitEnv Cap) :
    Triple (Live barSize pid ablation key) (initSteps ch barSize pid env)
      (Live barSize pid ablation key) (fun _ => Live barSize pid ablation key) := by
  apply triple_then (triple_openModmap env)
  apply triple_then (triple_attachToken env)
  apply triple_then (triple_mapRegion _ .txBuffer false)
  apply triple_then (triple_mapRegion _ .rxBuffer false)
  apply triple_then (triple_mapRegion _ .txDescRing false)
  apply triple_then (triple_mapRegion _ .rxDescRing false)
  apply triple_then (triple_mapRegion _ .evqRing false)
  apply triple_then (triple_mapRegion _ .mmioRegion true)
  apply triple_then (triple_driverCall _ _)
  exact triple_driverCall _ _

/-! ## Destroy -/

/-- Destroy undoes a session, however far it came. -/
theorem restored_sfcDestroy (hlive : Live barSize pid ablation key s) :
    Restored ch barSize ablation key (sfcDestroy ch pid s) := by
  obtain ⟨hunmapped, hmaps⟩ := hlive.foldl_munmapRegion VmMapType.all
  have hnone : ∀ t, (VmMapType.all.foldl (Capio.munmapRegion pid) s).regionMaps t = none := by
    intro t
    rw [hmaps t, if_pos t.mem_all]
  simp only [sfcDestroy, hunmapped.fd, if_true]
  generalize VmMapType.all.foldl (Capio.munmapRegion pid) s = s₁ at hunmapped hnone
  -- an entry that was left would show a region that is still recorded
  have hentries : s₁.entries = [] := by
    apply List.eq_nil_iff_forall_not_mem.mpr
    intro e he
    obtain ⟨t, htype, -⟩ := (hunmapped.entry e he).2.2.2
    exact hunmapped.type_ne (hnone t) e he htype
  obtain ⟨off, hregs⟩ := hunmapped.regs
  -- the goodbye may be refused; the close revokes in any case
  have hgoodbye : ∃ off', (goodbye ch pid s₁).sc.sharedMemRegs =
        table barSize ablation (fun t => (s₁.regionMaps t).isSome) off' ∧
      (goodbye ch pid s₁).entries = [] ∧ (goodbye ch pid s₁).sc.sealingKey = key := by
    unfold goodbye
    cases checkCapToken ch s₁.sc s₁.capReq.sealedCap with
    | error e => exact ⟨off, hregs, hentries, hunmapped.key⟩
    | ok _ =>
      obtain ⟨htable, -, hkey, hempty⟩ := revoke_unmapped ch pid hregs hentries
      exact ⟨_, htable, hempty, hkey.trans hunmapped.key⟩
  obtain ⟨off', htable, hempty, hkey⟩ := hgoodbye
  obtain ⟨hclosed, htoken, hsame, hdone⟩ := revoke_unmapped ch pid htable hempty
  constructor
  · refine Eq.trans hclosed ?_
    rw [attachSmem_eq_table]
    congr 1
    funext t
    rw [hnone t]
    rfl
  · exact htoken
  · exact hsame.trans hkey
  · exact hdone

/-! ## Sessions in sequence -/

theorem Live.foldl_driverCall (hlive : Live barSize pid ablation key s)
    (calls : List (Nat × Option Errno)) :
    Live barSize pid ablation key
      (calls.foldl (fun s call => (driverCall ch call.1 call.2 s).2) s) := by
  induction calls with
  | nil => exact hlive
  | cons call calls ih =>
    rw [List.foldl_cons, driverCall_state]
    exact ih

theorem restored_runSession (hrest : Restored ch barSize ablation key s)
    (env : SessionEnv Cap) :
    Restored ch barSize ablation key (runSession ch barSize s env) := by
  by_cases hopen : env.init.openDev = false
  · simp only [runSession, sfcInit, if_pos hopen]
    exact { hrest with }
  · have hinit : Triple (Live barSize env.pid ablation key)
        ((initSteps ch barSize env.pid env.init).andThen (sfcDestroy ch env.pid) Action.done)
        (Live barSize env.pid ablation key) (fun _ => Restored ch barSize ablation key) :=
      (triple_initSteps env.init).andThen (fun _ _ => restored_sfcDestroy)
        (Triple.done fun _ hlive => hlive)
    have hstart : Live barSize env.pid ablation key
        { s with fd := true, capReq := env.init.stale, regionMaps := fun _ => none } :=
      hrest.live env.init.stale
    simp only [runSession, sfcInit, if_neg hopen]
    cases hout : (initSteps ch barSize env.pid env.init).andThen (sfcDestroy ch env.pid)
        Action.done
        { s with fd := true, capReq := env.init.stale, regionMaps := fun _ => none } with
    | mk err s' =>
      cases err with
      | some e => exact hinit.error hstart hout
      | none => exact restored_sfcDestroy ((hinit.normal hstart hout).foldl_driverCall env.calls)

theorem restored_sessions (hrest : Restored ch barSize ablation key s)
    (sessions : List (SessionEnv Cap)) :
    Restored ch barSize ablation key (sessions.foldl (runSession ch barSize) s) := by
  induction sessions generalizing s with
  | nil => exact hrest
  | cons env sessions ih => exact ih (restored_runSession hrest env)

/-! ## The next session -/

/-- A request with the token set and a region that nobody has mapped is let in. -/
theorem mmapAdmit_reported {sc : CapioSoftc Cap Key} {req : CapReq Cap}
    (hregs : sc.sharedMemRegs = table barSize ablation m off)
    (htoken : checkCapToken ch sc req.sealedCap = .ok ()) (htag : ch.tag req.userCap = true) :
    mmapAdmit ch sc (getBufferSize barSize sc.sharedMemRegs) false
      { req with mapType := t.code } protReadWrite 0 (smemEntry barSize ablation t).len =
        .ok () := by
  simp [mmapAdmit, htoken, protReadWrite, htag, hregs, getBufferSize_table]

/-- Regions that attach left unmarked can be mapped in any order, each once, with the
lengths reported for them. -/
theorem mapReported_ok {sc : CapioSoftc Cap Key} {req : CapReq Cap}
    (hregs : sc.sharedMemRegs = table barSize ablation m off)
    (htoken : checkCapToken ch sc req.sealedCap = .ok ()) (htag : ch.tag req.userCap = true)
    (hlen : ∀ t, (smemEntry barSize ablation t).mapped = false →
      (smemEntry barSize ablation t).len ≠ 0) {maps : List (VmMapType × Nat)}
    (hnodup : (maps.map Prod.fst).Nodup)
    (henabled : ∀ p ∈ maps, (smemEntry barSize ablation p.1).mapped = false)
    (hfree : ∀ p ∈ maps, m p.1 = false) :
    ∃ sc', mapReported ch barSize req sc maps = .ok sc' := by
  -- a mapping changes its own row only, so the later regions are still free
  induction maps generalizing sc m off with
  | nil => exact ⟨sc, rfl⟩
  | cons p maps ih =>
    obtain ⟨t, vaddr⟩ := p
    have hmem : (t, vaddr) ∈ (t, vaddr) :: maps := List.mem_cons_self
    have hsize : (capioSliceLengthCallback sc.sharedMemRegs t.code).regionLength =
        (smemEntry barSize ablation t).len := by
      rw [hregs, capioSliceLengthCallback_table]
    obtain ⟨found, hfind⟩ := mmapFind_table.mpr ⟨henabled _ hmem, hfree _ hmem⟩
    rw [← hregs] at hfind
    have hcallback := capioVaddrCallback_table (capioPagerCtor_table (t := t) hregs) t vaddr
    rw [List.map_cons, List.nodup_cons] at hnodup
    simp only [mapReported, hsize, capioMmap, mmapAdmit_reported hregs htoken htag, hfind,
      hcallback, if_neg (hlen t (henabled _ hmem))]
    refine ih rfl htoken hnodup.2 (fun p hp => henabled p (List.mem_cons_of_mem _ hp)) ?_
    intro p hp
    have hlater : p.1 ∈ maps.map Prod.fst := List.mem_map_of_mem hp
    have hne : p.1 ≠ t := by
      intro heq
      rw [heq] at hlater
      exact hnodup.1 hlater
    rw [Function.update_of_ne hne]
    exact hfree p (List.mem_cons_of_mem _ hp)

theorem smemEntry_len_ne_zero (hbar : 0 < barSize)
    (henabled : (smemEntry barSize ablation t).mapped = false) :
    (smemEntry barSize ablation t).len ≠ 0 := by
  cases t with
  | mmioRegion => exact Nat.pos_iff_ne_zero.mp hbar
  | mmioRegionUnsliced =>
    have htunable : ablation = true := by simpa [smemEntry] using henabled
    subst htunable
    exact Nat.pos_iff_ne_zero.mp hbar
  | _ => simp [smemEntry, dmaRegion]

/-- After any sessions, whether their init failed at any step or they worked and were
destroyed, the device is as attach created it: no token, every region's flag and
address, and every length reported equal to the size demanded.  So the next attach is
accepted, and after it, with a tagged capability, every region that attach left unmarked
can be mapped with the reported length, in any order. -/
theorem device_reopens (ch : Sealing Cap Key) (createSealingKey : Nat → Key) {barSize : Nat}
    (hbar : 0 < barSize) (ablation : Bool) (sessions : List (SessionEnv Cap)) :
    let s := sessions.foldl (runSession ch barSize)
      (openAfterAttach ch barSize createSealingKey ablation)
    s.sc.capState = ⟨ch.null, ch.null⟩ ∧
      s.sc.sharedMemRegs = attachSmem barSize ablation ∧
      s.entries = [] ∧
      (∀ t : VmMapType, (capioSliceLengthCallback s.sc.sharedMemRegs t.code).regionLength =
        getBufferSize barSize s.sc.sharedMemRegs t.code) ∧
      ∀ req : CapReq Cap, ch.isNull req.userCap = false →
        ∃ reply sc, setCapToken ch s.sc req = .ok (reply, sc) ∧
          (ch.tag req.userCap = true →
            ∀ maps : List (VmMapType × Nat), (maps.map Prod.fst).Nodup →
              (∀ p ∈ maps, (smemEntry barSize ablation p.1).mapped = false) →
              ∃ sc', mapReported ch barSize reply sc maps = .ok sc') := by
  intro s
  have hrest : Restored ch barSize ablation (createSealingKey 0x1234) s :=
    restored_sessions (restored_openAfterAttach createSealingKey) sessions
  have hregs := hrest.regs.trans attachSmem_eq_table
  refine ⟨hrest.token, hrest.regs, hrest.entries, ?_, ?_⟩
  · intro t
    rw [hregs, capioSliceLengthCallback_table, getBufferSize_table]
  · intro req hnull
    have hset : setCapToken ch s.sc req =
        .ok ({ req with sealedCap := ch.sealWith req.userCap s.sc.sealingKey },
          { s.sc with
            capState :=
              { originalCap := req.userCap
                sealedCap := ch.sealWith req.userCap s.sc.sealingKey } }) := by
      simp [setCapToken, hnull, hrest.token, ch.isNull_null]
    refine ⟨_, _, hset, ?_⟩
    intro htag maps hnodup henabled
    apply mapReported_ok (m := fun _ => false)
    · exact hregs
    · apply checkCapToken_eq_ok_iff.mpr
      simp [ch.isNull_seal, hnull, ch.unseal_seal]
    · exact htag
    · intro t henabled'
      exact smemEntry_len_ne_zero hbar henabled'
    · exact hnodup
    · exact henabled
    · exact fun _ _ => rfl

end Session

/-- Answers with which `sfc7120_init` works, with the regions 16 MiB apart. -/
def willingInit : InitEnv SealedWord where
  openDev := true
  openModmap := true
  stale := ⟨.word false 0, .word false 0⟩
  capToken := some (.word true 0x4000)
  copyout := true
  map := fun t => ⟨true, true, .entered (0x10000000 + 0x1000000 * t.code.toNat)⟩
  getViInfo := none
  getMac := none

/-- The same, but there is no room for the RX descriptor ring, the fourth region. -/
def noRoomInit : InitEnv SealedWord :=
  { willingInit with
    map := fun t => if t = .rxDescRing then ⟨true, true, .noRoom⟩ else willingInit.map t }

/-- A session whose init fails half way and one that works, and then the doorbells and
the event ring are mapped once more. -/
theorem reopened_after_failed_init :
    (sfcInit SealedWord.sealing 0x800000 1 noRoomInit
        (openAfterAttach SealedWord.sealing 0x800000 id false)).1 = some () ∧
      (sfcInit SealedWord.sealing 0x800000 2 willingInit
        (runSession SealedWord.sealing 0x800000
          (openAfterAttach SealedWord.sealing 0x800000 id false) ⟨1, noRoomInit, []⟩)).1 = none ∧
      ∃ reply sc,
        setCapToken SealedWord.sealing
            ([⟨1, noRoomInit, []⟩, ⟨2, willingInit, [(2, none)]⟩].foldl
              (runSession SealedWord.sealing 0x800000)
              (openAfterAttach SealedWord.sealing 0x800000 id false)).sc
            ⟨.word true 0x4000, .word false 0⟩ = .ok (reply, sc) ∧
          ∃ sc', mapReported SealedWord.sealing 0x800000 reply sc
            [(.mmioRegion, 0x20000000), (.evqRing, 0x30000000)] = .ok sc' := by
  refine ⟨by decide +kernel, by decide +kernel, ?_⟩
  obtain ⟨-, -, -, -, hnext⟩ := device_reopens SealedWord.sealing id (by decide : 0 < 0x800000)
    false [⟨1, noRoomInit, []⟩, ⟨2, willingInit, [(2, none)]⟩]
  obtain ⟨reply, sc, hset, hmaps⟩ := hnext ⟨.word true 0x4000, .word false 0⟩ rfl
  refine ⟨reply, sc, hset, hmaps rfl _ (by decide) ?_⟩
  intro p hp
  simp only [List.mem_cons, List.not_mem_nil, or_false] at hp
  rcases hp with rfl | rfl <;> rfl

/-- Without the ablation tunable the unsliced region reports the length 0, the size
demanded is 0, and a request of that length is refused: before any session, as after. -/
theorem unsliced_region_refused :
    ∃ reply sc,
      setCapToken SealedWord.sealing (openAfterAttach SealedWord.sealing 0x800000 id false).sc
          ⟨.word true 0x4000, .word false 0⟩ = .ok (reply, sc) ∧
        (capioSliceLengthCallback sc.sharedMemRegs
          VmMapType.mmioRegionUnsliced.code).regionLength = 0 ∧
        getBufferSize 0x800000 sc.sharedMemRegs VmMapType.mmioRegionUnsliced.code = 0 ∧
        mmapAdmit SealedWord.sealing sc (getBufferSize 0x800000 sc.sharedMemRegs) false
          { reply with mapType := VmMapType.mmioRegionUnsliced.code } protReadWrite 0 0 =
            .ok () ∧
        mmapFind sc.sharedMemRegs VmMapType.mmioRegionUnsliced.code = .error .einval :=
  ⟨_, _, rfl, rfl, rfl, rfl, rfl⟩

end Capio
end SfcCapio
