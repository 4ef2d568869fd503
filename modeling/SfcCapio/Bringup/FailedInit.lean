import SfcCapio.Bringup.Firmware

/-!
# What a failed bring-up leaves behind

`sfc7120_hw_init` has three labels.  `fail` undoes nothing, `fail_mcdi` destroys the
mailbox, `fail_attach` detaches the driver first.  None of them frees VIs or the
vAdaptor, and attach does not call `sfc7120_hw_teardown` when bring-up fails.  So
the firmware is left as it was found only where the step that fails is reached with
nothing but the driver attached, and gets nothing from the firmware itself.
-/

namespace SfcCapio
namespace Bringup

open Foundation Mcdi

/-- The commands that give something back. -/
def Cmd.isRelease : Cmd → Bool
  | .drvDetach | .freeVis | .vadaptorFree => true
  | _ => false

/-- Every command that gives something back was carried out. -/
def ReleasesSucceed (s : Sys) : Prop :=
  ∀ entry ∈ s.log, entry.cmd.isRelease = true → entry.done = true

/-- The firmware holds nothing for the function, and the mailbox and its mutex, made
once, have been destroyed once. -/
structure Released (s : Sys) : Prop where
  drvAttached : s.fw.drvAttached = false
  vis : s.fw.vis = false
  vadaptor : s.fw.vadaptor = false
  mtxInits : s.mtxInits = 1
  mtxDestroys : s.mtxDestroys = 1
  mailbox : s.bufFrees = s.bufAllocs

/-- The failures that the labels undo: nothing had been given out but the driver's
attachment, and where the failed command gives something out it was not carried out. -/
def Failure.Clean (failure : Failure) : Prop :=
  match failure.stage with
  | .mcdiInit | .getVersion | .entityReset | .getMac => True
  | .drvAttach | .allocVis => failure.short = false
  | _ => False

/-! ## Bring-up step by step -/

/-- The mailbox is up.  The flag for the driver's attachment, and what the firmware
holds, are as listed. -/
structure Held (noted attached vis vadaptor : Bool) (s : Sys) : Prop where
  up : s.sc.mcdiInitialized = true
  noted : s.sc.drvAttached = noted
  attached : s.fw.drvAttached = attached
  vis : s.fw.vis = vis
  vadaptor : s.fw.vadaptor = vadaptor
  mtxInits : s.mtxInits = 1
  mtxDestroys : s.mtxDestroys = 0
  bufAllocs : s.bufAllocs = 1
  bufFrees : s.bufFrees = 0

/-- How a failure has to end. -/
def Unwound (failure : Failure) (s : Sys) : Prop :=
  ReleasesSucceed s → (Released s ↔ failure.Clean)

section HwInit

variable {env : Env} {noted attached vis vadaptor : Bool} {s : Sys} {cmd : Cmd}
  {failure : Failure}

theorem Held.up_of (s : Sys) (hheld : Held noted attached vis vadaptor s) :
    s.sc.mcdiInitialized = true := hheld.up

theorem Held.issue_quiet (hquiet : ∀ fw : Firmware, fw.after cmd = fw) (s : Sys)
    (done : Bool) (hheld : Held noted attached vis vadaptor s) :
    Held noted attached vis vadaptor (s.issue cmd done) := by
  have hfw : (s.issue cmd done).fw = s.fw := by
    simp only [Sys.issue, hquiet, ite_self]
  exact
    { hheld with
      attached := by rw [hfw]; exact hheld.attached
      vis := by rw [hfw]; exact hheld.vis
      vadaptor := by rw [hfw]; exact hheld.vadaptor }

theorem triple_ask {stage : Stage} {need : Nat} (hquiet : ∀ fw : Firmware, fw.after cmd = fw) :
    Triple (Held noted attached vis vadaptor) (query env cmd stage need fun _ sc => sc)
      (Held noted attached vis vadaptor)
      (fun failure s => failure.stage = stage ∧ Held noted attached vis vadaptor s) :=
  triple_query_of_keeps Held.up_of (Held.issue_quiet hquiet) fun _ _ hheld => hheld

/-- The reset of the function's resources is harmless before there are any. -/
theorem Held.issue_entityReset (s : Sys) (done : Bool)
    (hheld : Held noted attached false false s) :
    Held noted attached false false (s.issue .entityReset done) := by
  cases done with
  | false => exact { hheld with }
  | true => exact { hheld with vis := rfl, vadaptor := rfl }

/-- The label `fail_mcdi`: what the firmware holds stays held. -/
theorem unwound_mcdiFini (hheld : Held noted attached vis vadaptor s)
    (hclean : failure.Clean ↔ attached = false ∧ vis = false ∧ vadaptor = false) :
    Unwound failure (mcdiFini s) := by
  intro _
  have hfini : mcdiFini s =
      { s with
        sc := { s.sc with mcdiInitialized := false }
        bufFrees := s.bufFrees + 1
        mtxDestroys := s.mtxDestroys + 1 } := if_pos hheld.up
  rw [hclean, hfini]
  constructor
  · intro hreleased
    exact ⟨hheld.attached.symm.trans hreleased.drvAttached,
      hheld.vis.symm.trans hreleased.vis, hheld.vadaptor.symm.trans hreleased.vadaptor⟩
  · rintro ⟨hattached, hvis, hvadaptor⟩
    exact
      { drvAttached := hheld.attached.trans hattached
        vis := hheld.vis.trans hvis
        vadaptor := hheld.vadaptor.trans hvadaptor
        mtxInits := hheld.mtxInits
        mtxDestroys := congrArg (· + 1) hheld.mtxDestroys
        mailbox := (congrArg (· + 1) hheld.bufFrees).trans hheld.bufAllocs.symm }

/-- The label `fail_attach`: only the driver's attachment is given back. -/
theorem unwound_failAttach (hheld : Held true attached vis vadaptor s)
    (hclean : failure.Clean ↔ vis = false ∧ vadaptor = false) :
    Unwound failure (failAttach env s) := by
  intro hreleases
  rcases release_cases env Softc.drvAttached (fun sc => { sc with drvAttached := false })
      (fun rc => rc ≠ none) .drvDetach hheld.up with ⟨hflag, _⟩ | ⟨_, rc, done, hrc, hout⟩
  · exact absurd (hheld.noted.symm.trans hflag) Bool.noConfusion
  · have hdetach : drvDetach env s = _ := hout
    -- the detach is in the log, so the hypothesis on the releases speaks about it
    have hdone : done = true := by
      apply hreleases ⟨.drvDetach, s.fw, done⟩ _ rfl
      rw [failAttach, mcdiFini_log, hdetach]
      exact List.mem_append_right _ (List.mem_singleton_self _)
    subst hdone
    obtain rfl := hrc rfl
    have hdetached : Held false false vis vadaptor (drvDetach env s) := by
      rw [hdetach]
      exact { hheld with noted := rfl, attached := rfl }
    exact unwound_mcdiFini hdetached (by simp [hclean]) hreleases

theorem triple_mcdiInit :
    Triple (fun s => s = fresh) (mcdiInit env) (Held false false false false)
      (fun failure s => failure.stage = .mcdiInit ∧ Released s) := by
  rintro s rfl
  unfold mcdiInit
  cases env.allocBuf with
  | some e => constructor <;> constructor <;> rfl
  | none =>
    by_cases hready : env.pciReady = true ∧ env.hwRevOk = true
    · simp only [if_pos hready]
      constructor <;> rfl
    · simp only [if_neg hready]
      constructor <;> constructor <;> rfl

/-- A short answer to the attachment leaves the driver attached and not noted. -/
theorem triple_drvAttach :
    Triple (Held false false false false) (drvAttach env) (Held true true false false)
      (fun failure s => failure.stage = .drvAttach ∧ Held false failure.short false false s) := by
  apply triple_query Held.up_of
  · intro s e hheld
    exact ⟨rfl, { hheld with }⟩
  · intro s done _ hheld
    refine ⟨rfl, ?_⟩
    cases done with
    | false => exact { hheld with }
    | true => exact { hheld with attached := rfl }
  · intro s reply done hdone hheld
    rw [hdone (by decide)]
    exact { hheld with noted := rfl, attached := rfl }

/-- A short answer to the request for VIs leaves them allocated. -/
theorem triple_allocVis :
    Triple (Held true true false false) (allocVis env) (Held true true true false)
      (fun failure s => failure.stage = .allocVis ∧ Held true true failure.short false s) := by
  apply triple_query Held.up_of
  · intro s e hheld
    exact ⟨rfl, { hheld with }⟩
  · intro s done _ hheld
    refine ⟨rfl, ?_⟩
    cases done with
    | false => exact { hheld with }
    | true => exact { hheld with vis := rfl }
  · intro s reply done hdone hheld
    rw [hdone (by decide)]
    exact { hheld with vis := rfl }

/-- There are VIs, and a vAdaptor or not. -/
def HeldVis (s : Sys) : Prop := ∃ vadaptor, Held true true true vadaptor s

theorem HeldVis.up_of (s : Sys) (hheld : HeldVis s) : s.sc.mcdiInitialized = true := by
  obtain ⟨vadaptor, hheld⟩ := hheld
  exact hheld.up

theorem HeldVis.issue_quiet (hquiet : ∀ fw : Firmware, fw.after cmd = fw) (s : Sys)
    (done : Bool) (hheld : HeldVis s) : HeldVis (s.issue cmd done) := by
  obtain ⟨vadaptor, hheld⟩ := hheld
  exact ⟨vadaptor, Held.issue_quiet hquiet s done hheld⟩

/-- The vAdaptor is noted, also where the firmware has refused it without a code. -/
theorem triple_vadaptorAlloc :
    Triple (Held true true true false) (vadaptorAlloc env) HeldVis
      (fun failure s => failure.stage = .vadaptorAlloc ∧ HeldVis s) := by
  apply Triple.skip
  · apply triple_query Held.up_of
    · intro s e hheld
      exact ⟨rfl, false, { hheld with }⟩
    · intro s _ hneed _
      exact absurd hneed (lt_irrefl 0)
    · intro s reply done _ hheld
      cases done with
      | false => exact ⟨false, { hheld with }⟩
      | true => exact ⟨true, { hheld with vadaptor := rfl }⟩
  · exact fun s _ hheld => ⟨false, hheld⟩

/-- A step that fails with the attachment noted leaves by `fail_attach`. -/
theorem unwound_failAttach_of_stage {stage : Stage}
    (hclean : ∀ failure : Failure, failure.stage = stage →
      (failure.Clean ↔ vis = false ∧ vadaptor = false)) :
    ∀ failure s, failure.stage = stage ∧ Held true attached vis vadaptor s →
      Unwound failure (failAttach env s) := by
  rintro failure s ⟨hstage, hheld⟩
  exact unwound_failAttach hheld (hclean failure hstage)

/-- Where there are VIs the label does not undo the step. -/
theorem unwound_failAttach_of_vis {stage : Stage}
    (hclean : ∀ failure : Failure, failure.stage = stage → ¬ failure.Clean) :
    ∀ failure s, failure.stage = stage ∧ HeldVis s → Unwound failure (failAttach env s) := by
  rintro failure s ⟨hstage, vadaptor, hheld⟩
  exact unwound_failAttach hheld (iff_of_false (hclean failure hstage) fun hnone => nomatch hnone.1)

/-- Every label of `sfc7120_hw_init` against what is held where it is used. -/
theorem triple_hwInit :
    Triple (fun s => s = fresh) (hwInit env) (fun _ => True) Unwound := by
  apply Triple.andThen triple_mcdiInit
  · rintro failure s ⟨hstage, hreleased⟩
    intro _
    simp [Failure.Clean, hstage, hreleased]
  apply Triple.andThen (triple_ask fun _ => rfl)
  · rintro failure s ⟨hstage, hheld⟩
    exact unwound_mcdiFini hheld (by simp [Failure.Clean, hstage])
  apply Triple.andThen triple_drvAttach
  · rintro failure s ⟨hstage, hheld⟩
    exact unwound_mcdiFini hheld (by simp [Failure.Clean, hstage])
  -- the driver is attached, and the label for this step does not detach it
  apply Triple.andThen (triple_clearAssertions_of_keeps Held.up_of
    (Held.issue_quiet fun _ => rfl))
  · rintro failure s ⟨hstage, hheld⟩
    exact unwound_mcdiFini hheld (by simp [Failure.Clean, hstage])
  apply Triple.andThen (triple_tolerant_of_keeps Held.up_of Held.issue_entityReset)
    (unwound_failAttach_of_stage fun failure hstage => by simp [Failure.Clean, hstage])
  apply Triple.andThen (triple_ask fun _ => rfl)
    (unwound_failAttach_of_stage fun failure hstage => by simp [Failure.Clean, hstage])
  apply Triple.andThen (Triple.always (dumpFuncInfo_keeps Held.up_of
    (Held.issue_quiet fun _ => rfl) (Held.issue_quiet fun _ => rfl)
    (Held.issue_quiet fun _ => rfl))) (fun _ _ hunwound => hunwound)
  apply Triple.andThen triple_allocVis
  · rintro failure s ⟨hstage, hheld⟩
    exact unwound_failAttach hheld (by simp [Failure.Clean, hstage])
  -- from here on there are VIs, which no label frees
  have hquiet : ∀ {cmd : Cmd}, (∀ fw : Firmware, fw.after cmd = fw) →
      ∀ s done, HeldVis s → HeldVis (s.issue cmd done) := HeldVis.issue_quiet
  apply Triple.andThen triple_vadaptorAlloc
    (unwound_failAttach_of_vis fun failure hstage => by simp [Failure.Clean, hstage])
  apply Triple.andThen (triple_query_of_keeps HeldVis.up_of (hquiet fun _ => rfl)
    fun _ _ hheld => hheld)
    (unwound_failAttach_of_vis fun failure hstage => by simp [Failure.Clean, hstage])
  apply Triple.andThen (triple_tolerant_of_keeps HeldVis.up_of (hquiet fun _ => rfl))
    (unwound_failAttach_of_vis fun failure hstage => by simp [Failure.Clean, hstage])
  apply Triple.andThen (triple_query_of_keeps HeldVis.up_of (hquiet fun _ => rfl)
    fun _ _ hheld => hheld)
    (unwound_failAttach_of_vis fun failure hstage => by simp [Failure.Clean, hstage])
  apply Triple.andThen (Triple.rounds (triple_query_of_keeps HeldVis.up_of (hquiet fun _ => rfl)
    fun _ _ ⟨vadaptor, hheld⟩ => ⟨vadaptor, { hheld with }⟩) 30)
    (unwound_failAttach_of_vis fun failure hstage => by simp [Failure.Clean, hstage])
  exact Triple.done fun _ _ => trivial

end HwInit

/-- **A failed bring-up.**  Attach returns the error of the step of `sfc7120_hw_init`
that failed.  If the commands that give something back succeed, the firmware is then
left with nothing of this attach, and mailbox and mutex are destroyed exactly once, if
and only if the failure is one of those that the labels undo. -/
theorem failed_bringup_released_iff (env : Env) (hbar : env.bar = true) {failure : Failure}
    {s : Sys} (hinit : hwInit env fresh = (some failure, s)) (hreleases : ReleasesSucceed s) :
    fbsdAttach env fresh = (some failure, s) ∧ (Released s ↔ failure.Clean) := by
  have hattach : fbsdAttach env fresh = (some failure, s) := by
    simp only [fbsdAttach, Action.andThen, outside, hbar, if_true, Option.map_none, hinit, id]
  exact ⟨hattach, triple_hwInit.error rfl hinit hreleases⟩

/-- The fifth command, the request for the MAC address, is refused: the driver is
detached again. -/
theorem failed_getMac_released :
    ∃ s, fbsdAttach (refusing 4 .eio) fresh = (some ⟨.getMac, .eio, false⟩, s) ∧ Released s := by
  obtain ⟨s, hinit, hreleases⟩ : ∃ s,
      hwInit (refusing 4 .eio) fresh = (some ⟨.getMac, .eio, false⟩, s) ∧ ReleasesSucceed s :=
    ⟨_, rfl, by unfold ReleasesSucceed; decide⟩
  have hfailed := failed_bringup_released_iff (refusing 4 .eio) rfl hinit hreleases
  exact ⟨s, hfailed.1, hfailed.2.mpr trivial⟩

/-- The request to clear assertions times out and the driver stays attached; the
vAdaptor is refused and the VIs stay allocated. -/
theorem failed_bringup_keeps_resources :
    (∃ s, fbsdAttach (refusing 2 .etimedout) fresh =
        (some ⟨.clearAssertions, .etimedout, false⟩, s) ∧
      ReleasesSucceed s ∧ s.fw.drvAttached = true ∧ ¬ Released s) ∧
    ∃ s, fbsdAttach (refusing 9 .enomem) fresh = (some ⟨.vadaptorAlloc, .enomem, false⟩, s) ∧
      ReleasesSucceed s ∧ s.fw.vis = true ∧ ¬ Released s := by
  constructor
  · refine ⟨_, rfl, by unfold ReleasesSucceed; decide, rfl, ?_⟩
    intro hreleased
    exact Bool.noConfusion hreleased.drvAttached
  · refine ⟨_, rfl, by unfold ReleasesSucceed; decide, rfl, ?_⟩
    intro hreleased
    exact Bool.noConfusion hreleased.vis

end Bringup
end SfcCapio
