import SfcCapio.Bringup.Firmware

/-!
# Freeing the rings

`sfc7120_hw_teardown` finishes every queue that the driver has noted as initialised and
ignores the results; then the DMA memory is freed.  Where teardown starts, the driver
has noted every queue that is live.  A queue whose command is carried out is dead; one
whose command is not stays live, and its memory is freed all the same.
-/

namespace SfcCapio
namespace Bringup

open Foundation Mcdi

/-- The queues that the firmware can have initialised on the driver's memory. -/
inductive Queue
  | control
  | data
  | rx
  | tx
deriving DecidableEq, Repr

namespace Queue

def live : Queue → Firmware → Bool
  | control => Firmware.controlEvq
  | data => Firmware.dataEvq
  | rx => Firmware.rxq
  | tx => Firmware.txq

def noted : Queue → Softc → Bool
  | control => Softc.evqInitialized
  | data => Softc.dataEvqInitialized
  | rx => Softc.rxqInitialized
  | tx => Softc.txqInitialized

def fini : Queue → Cmd
  | control => .finiEvq .control
  | data => .finiEvq .data
  | rx => .finiRxq
  | tx => .finiTxq

end Queue

/-- No queue is initialised. -/
def Dead (fw : Firmware) : Prop := ∀ q : Queue, q.live fw = false

/-- Every command that finishes a live queue was carried out. -/
def FinisSucceed (log : List Issued) : Prop :=
  ∀ entry ∈ log, ∀ q : Queue, entry.cmd = q.fini → q.live entry.fw = true → entry.done = true

/-- The commands that start or finish a queue. -/
def Cmd.ofQueue : Cmd → Bool
  | .initEvq _ | .finiEvq _ | .initRxq | .finiRxq | .initTxq | .finiTxq => true
  | _ => false

section Commands

variable {cmd : Cmd} {fw : Firmware} {log : List Issued}

theorem ne_fini (hcmd : cmd.ofQueue = false) (q : Queue) : cmd ≠ q.fini := by
  rintro rfl
  cases q <;> exact Bool.noConfusion hcmd

theorem live_after_fini (q q' : Queue) (fw : Firmware) :
    q'.live (fw.after q.fini) = if q' = q then false else q'.live fw := by
  cases q <;> cases q' <;> rfl

/-- Only the reset touches the queues without naming one. -/
theorem live_after (hcmd : cmd.ofQueue = false) (hreset : cmd ≠ .entityReset) (q : Queue) :
    q.live (fw.after cmd) = q.live fw := by
  cases cmd <;> first
    | exact absurd rfl hreset
    | exact absurd hcmd Bool.true_eq_false_eq_False
    | (cases q <;> rfl)

theorem dead_after (hcmd : cmd.ofQueue = false) (hdead : Dead fw) : Dead (fw.after cmd) := by
  intro q
  by_cases hreset : cmd = .entityReset
  · subst hreset
    cases q <;> rfl
  · rw [live_after hcmd hreset]
    exact hdead q

theorem finisSucceed_append_other (hcmd : ∀ q : Queue, cmd ≠ q.fini) (done : Bool) :
    FinisSucceed (log ++ [⟨cmd, fw, done⟩]) ↔ FinisSucceed log := by
  constructor
  · intro hlog entry hentry
    exact hlog entry (List.mem_append_left _ hentry)
  · intro hlog entry hentry q hfini
    rcases List.mem_append.mp hentry with hold | hnew
    · exact hlog entry hold q hfini
    · rw [List.mem_singleton.mp hnew] at hfini
      exact absurd hfini (hcmd q)

theorem fini_injective {q q' : Queue} (heq : q.fini = q'.fini) : q = q' := by
  cases q <;> cases q' <;> first | rfl | cases heq

theorem finisSucceed_append_fini (q : Queue) (done : Bool) :
    FinisSucceed (log ++ [⟨q.fini, fw, done⟩]) ↔
      FinisSucceed log ∧ (q.live fw = true → done = true) := by
  constructor
  · intro hlog
    constructor
    · intro entry hentry
      exact hlog entry (List.mem_append_left _ hentry)
    · exact hlog _ (List.mem_append_right _ (List.mem_singleton_self _)) q rfl
  · rintro ⟨hlog, hdone⟩ entry hentry q' hfini
    rcases List.mem_append.mp hentry with hold | hnew
    · exact hlog entry hold q' hfini
    · rw [List.mem_singleton.mp hnew] at hfini ⊢
      rw [← fini_injective hfini]
      exact hdone

end Commands

/-! ## Teardown -/

/-- Teardown has still to finish the listed queues: those are noted if they are live,
and the others are all dead exactly if every command was carried out that had to be. -/
structure Undoing (pending : List Queue) (s : Sys) : Prop where
  up : s.sc.mcdiInitialized = true
  noted : ∀ q ∈ pending, q.live s.fw = true → q.noted s.sc = true
  finished : (∀ q, q ∉ pending → q.live s.fw = false) ↔ FinisSucceed s.log
  freed : s.freed = []

section Teardown

variable {env : Env} {s : Sys} {q : Queue} {pending : List Queue} {clear : Softc → Softc}
  {keep : Option Errno → Bool}

/-- What holds of a flag kept and of a flag cleared holds after a release. -/
theorem of_kept_or_cleared {P : Softc → Prop} {sc : Softc} (rc : Option Errno) (hkept : P sc)
    (hcleared : P (clear sc)) : P (if keep rc then sc else clear sc) := by
  split
  · exact hkept
  · exact hcleared

theorem Undoing.fini (hundo : Undoing (q :: pending) s) (hq : q ∉ pending)
    (hclear : ∀ sc, (clear sc).mcdiInitialized = sc.mcdiInitialized)
    (hframe : ∀ q' sc, q' ≠ q → q'.noted (clear sc) = q'.noted sc) :
    Undoing pending (release env q.noted clear keep q.fini s) := by
  have hnoted := hundo.noted q List.mem_cons_self
  rcases release_cases env q.noted clear keep q.fini hundo.up with
    ⟨hflag, hout⟩ | ⟨hflag, rc, done, -, hout⟩
  · -- nothing noted, so the queue is dead already
    rw [hout]
    refine { hundo with noted := ?_, finished := ?_ }
    · intro q' hq'
      exact hundo.noted q' (List.mem_cons_of_mem _ hq')
    · rw [← hundo.finished]
      constructor
      · intro hdead q' hq'
        exact hdead q' fun hmem => hq' (List.mem_cons_of_mem _ hmem)
      · intro hdead q' hq'
        by_cases heq : q' = q
        · subst heq
          by_contra hlive
          rw [hnoted (by simpa using hlive)] at hflag
          cases hflag
        · exact hdead q' (List.not_mem_cons_of_ne_of_not_mem heq hq')
  · rw [hout]
    -- the command goes out, and its outcome decides about the queue
    have hlog : FinisSucceed (s.log ++ [⟨q.fini, s.fw, done⟩]) ↔
        FinisSucceed s.log ∧ (q.live s.fw = true → done = true) :=
      finisSucceed_append_fini q done
    -- the other queues do not notice
    have hfw : ∀ q', q' ≠ q → q'.live (s.issue q.fini done).fw = q'.live s.fw := by
      intro q' hne
      cases done with
      | false => rfl
      | true => exact (live_after_fini q q' s.fw).trans (if_neg hne)
    have hthis : q.live (s.issue q.fini done).fw = false ↔ (q.live s.fw = true → done = true) := by
      cases done with
      | false => simp [Sys.issue]
      | true => simp [Sys.issue, live_after_fini]
    refine ⟨?_, ?_, ?_, hundo.freed⟩
    · exact of_kept_or_cleared (P := fun sc => sc.mcdiInitialized = true) rc hundo.up
        ((hclear s.sc).trans hundo.up)
    · intro q' hq'
      have hne : q' ≠ q := fun heq => hq (heq ▸ hq')
      change q'.live (s.issue q.fini done).fw = true →
        q'.noted (if keep rc then s.sc else clear s.sc) = true
      rw [hfw q' hne]
      intro hlive
      have hnote := hundo.noted q' (List.mem_cons_of_mem _ hq') hlive
      exact of_kept_or_cleared (P := fun sc => q'.noted sc = true) rc hnote
        ((hframe q' s.sc hne).trans hnote)
    · change (∀ q', q' ∉ pending → q'.live (s.issue q.fini done).fw = false) ↔
        FinisSucceed (s.log ++ [⟨q.fini, s.fw, done⟩])
      rw [hlog, ← hthis, ← hundo.finished]
      constructor
      · intro hdead
        constructor
        · intro q' hq'
          rw [← hfw q' (List.ne_of_not_mem_cons hq')]
          exact hdead q' (List.not_mem_of_not_mem_cons hq')
        · exact hdead q hq
      · rintro ⟨hdead, hdone⟩ q' hq'
        by_cases heq : q' = q
        · rw [heq]
          exact hdone
        · rw [hfw q' heq]
          exact hdead q' (List.not_mem_cons_of_ne_of_not_mem heq hq')

theorem Undoing.other {flag : Softc → Bool} {cmd : Cmd} (hundo : Undoing pending s)
    (hcmd : cmd.ofQueue = false) (hreset : cmd ≠ .entityReset)
    (hclear : ∀ sc, (clear sc).mcdiInitialized = sc.mcdiInitialized)
    (hframe : ∀ (q : Queue) sc, q.noted (clear sc) = q.noted sc) :
    Undoing pending (release env flag clear keep cmd s) := by
  rcases release_cases env flag clear keep cmd hundo.up with
    ⟨_, hout⟩ | ⟨_, rc, done, -, hout⟩
  · rw [hout]
    exact hundo
  · rw [hout]
    have hfw : ∀ q : Queue, q.live (s.issue cmd done).fw = q.live s.fw := by
      intro q
      cases done with
      | false => rfl
      | true => exact live_after hcmd hreset q
    refine ⟨?_, ?_, ?_, hundo.freed⟩
    · exact of_kept_or_cleared (P := fun sc => sc.mcdiInitialized = true) rc hundo.up
        ((hclear s.sc).trans hundo.up)
    · intro q hq
      change q.live (s.issue cmd done).fw = true →
        q.noted (if keep rc then s.sc else clear s.sc) = true
      rw [hfw]
      intro hlive
      have hnote := hundo.noted q hq hlive
      exact of_kept_or_cleared (P := fun sc => q.noted sc = true) rc hnote
        ((hframe q s.sc).trans hnote)
    · change (∀ q, q ∉ pending → q.live (s.issue cmd done).fw = false) ↔
        FinisSucceed (s.log ++ [⟨cmd, s.fw, done⟩])
      rw [finisSucceed_append_other (ne_fini hcmd), ← hundo.finished]
      simp only [hfw]

theorem Undoing.finiTxq (hundo : Undoing [.tx, .rx, .data, .control] s) :
    Undoing [.rx, .data, .control] (finiTxq env s) :=
  Undoing.fini (q := .tx) hundo (by decide) (fun _ => rfl)
    (fun q _ hne => by cases q <;> first | rfl | exact absurd rfl hne)

theorem Undoing.finiRxq (hundo : Undoing [.rx, .data, .control] s) :
    Undoing [.data, .control] (finiRxq env s) :=
  Undoing.fini (q := .rx) hundo (by decide) (fun _ => rfl)
    (fun q _ hne => by cases q <;> first | rfl | exact absurd rfl hne)

theorem Undoing.finiEvq_data (hundo : Undoing [.data, .control] s) :
    Undoing [.control] (finiEvq env .data s) := by
  rw [finiEvq]
  exact Undoing.fini (q := .data) hundo (by decide) (fun _ => rfl)
    (fun q _ hne => by cases q <;> first | rfl | exact absurd rfl hne)

theorem Undoing.finiEvq_control (hundo : Undoing [.control] s) :
    Undoing [] (finiEvq env .control s) := by
  rw [finiEvq]
  exact Undoing.fini (q := .control) hundo (by decide) (fun _ => rfl)
    (fun q _ hne => by cases q <;> first | rfl | exact absurd rfl hne)

/-- The whole of `sfc7120_hw_teardown`: filters first, then the queues in the order the
firmware needs, then what they rest on. -/
theorem hwTeardown_spec (hundo : Undoing [.tx, .rx, .data, .control] s) :
    (Dead (hwTeardown env s).fw ↔ FinisSucceed (hwTeardown env s).log) ∧
      (hwTeardown env s).freed = [] := by
  have hfilter : Undoing [.tx, .rx, .data, .control] (filterRemove env s) :=
    hundo.other rfl (by decide) (fun _ => rfl) (fun q _ => by cases q <;> rfl)
  have hqueues : Undoing [] (finiEvq env .control (finiEvq env .data
      (finiRxq env (finiTxq env (filterRemove env s))))) :=
    hfilter.finiTxq.finiRxq.finiEvq_data.finiEvq_control
  have hvadaptor : Undoing [] (vadaptorFree env _) :=
    hqueues.other rfl (by decide) (fun _ => rfl) (fun q _ => by cases q <;> rfl)
  have hvis : Undoing [] (freeVis env _) :=
    hvadaptor.other rfl (by decide) (fun _ => rfl) (fun q _ => by cases q <;> rfl)
  have hdetach : Undoing [] (drvDetach env _) :=
    hvis.other rfl (by decide) (fun _ => rfl) (fun q _ => by cases q <;> rfl)
  simp only [hwTeardown, mcdiFini_fw, mcdiFini_log, mcdiFini_freed]
  exact ⟨by simpa [Dead] using hdetach.finished, hdetach.freed⟩

theorem dead_release {flag : Softc → Bool} {cmd : Cmd}
    (hcmd : ∀ fw, Dead fw → Dead (fw.after cmd)) (hdead : Dead s.fw) :
    Dead (release env flag clear keep cmd s).fw := by
  have hexec : Dead (mcdiExec env cmd s).2.fw := by
    by_cases hup : s.sc.mcdiInitialized = true
    · rw [mcdiExec_of_up hup]
      cases (mcdiExec env cmd s).1.carriedOut with
      | false => exact hdead
      | true => exact hcmd s.fw hdead
    · simp only [mcdiExec, if_neg hup]
      exact hdead
  unfold release
  split
  · dsimp only
    split <;> exact hexec
  · exact hdead

theorem dead_hwTeardown (hdead : Dead s.fw) : Dead (hwTeardown env s).fw := by
  have hfini : ∀ (q : Queue) (fw : Firmware), Dead fw → Dead (fw.after q.fini) := by
    intro q fw hfw q'
    rw [live_after_fini]
    split
    · rfl
    · exact hfw q'
  have hother : ∀ {cmd : Cmd}, cmd.ofQueue = false → ∀ fw, Dead fw → Dead (fw.after cmd) :=
    fun hcmd _ => dead_after hcmd
  simp only [hwTeardown, mcdiFini_fw]
  apply dead_release (hother rfl)
  apply dead_release (hother rfl)
  apply dead_release (hother rfl)
  rw [finiEvq]
  apply dead_release (hfini .control)
  rw [finiEvq]
  apply dead_release (hfini .data)
  apply dead_release (hfini .rx)
  apply dead_release (hfini .tx)
  exact dead_release (hother rfl) hdead

end Teardown

/-! ## Attach up to teardown -/

/-- The driver has noted every queue that is live, and has finished none. -/
structure Matched (s : Sys) : Prop where
  up : s.sc.mcdiInitialized = true
  noted : ∀ q : Queue, q.live s.fw = true → q.noted s.sc = true
  log : FinisSucceed s.log
  freed : s.freed = []

/-- As long as bring-up runs, there is no queue. -/
structure Blank (s : Sys) : Prop extends Matched s where
  dead : Dead s.fw

/-- What is known once the driver has given up or has been detached. -/
def Outcome (s : Sys) : Prop := (∀ fw ∈ s.freed, Dead fw) ↔ FinisSucceed s.log

section Attach

variable {env : Env} {s : Sys} {cmd : Cmd}

theorem Blank.up_of (s : Sys) (hblank : Blank s) : s.sc.mcdiInitialized = true :=
  hblank.up

theorem Matched.undoing (hmatched : Matched s) : Undoing [.tx, .rx, .data, .control] s where
  up := hmatched.up
  noted q _ := hmatched.noted q
  finished := by
    refine iff_of_true ?_ hmatched.log
    intro q hq
    cases q <;> simp at hq
  freed := hmatched.freed

/-- A command that is not carried out, or is about something else than queues. -/
theorem Matched.issue (hmatched : Matched s) (done : Bool)
    (hfw : ∀ q : Queue, q.live (s.issue cmd done).fw = q.live s.fw)
    (hlog : FinisSucceed (s.log ++ [⟨cmd, s.fw, done⟩])) : Matched (s.issue cmd done) :=
  { hmatched with
    noted := fun q hlive => hmatched.noted q ((hfw q).symm.trans hlive)
    log := hlog }

theorem Blank.issue (hcmd : cmd.ofQueue = false) (s : Sys) (done : Bool)
    (hblank : Blank s) : Blank (s.issue cmd done) := by
  have hdead : Dead (s.issue cmd done).fw := by
    cases done with
    | false => exact hblank.dead
    | true => exact dead_after hcmd hblank.dead
  have hmatched : Matched (s.issue cmd done) := hblank.toMatched.issue done
    (fun q => (hdead q).trans (hblank.dead q).symm)
    ((finisSucceed_append_other (ne_fini hcmd) done).mpr hblank.log)
  exact { hmatched with dead := hdead }

theorem Blank.note {sc : Softc} (hblank : Blank s)
    (hup : sc.mcdiInitialized = s.sc.mcdiInitialized)
    (hnoted : ∀ q : Queue, q.noted sc = q.noted s.sc) : Blank { s with sc := sc } :=
  { hblank with
    up := hup.trans hblank.up
    noted := fun q hlive => (hnoted q).trans (hblank.noted q hlive) }

theorem outcome_of_nothing_freed (hfreed : s.freed = []) (hlog : FinisSucceed s.log) :
    Outcome s := by
  refine iff_of_true ?_ hlog
  intro fw hfw
  rw [hfreed] at hfw
  exact absurd hfw List.not_mem_nil

theorem outcome_mcdiFini (hblank : Blank s) : Outcome (mcdiFini s) :=
  outcome_of_nothing_freed ((mcdiFini_freed s).trans hblank.freed)
    ((mcdiFini_log s).symm ▸ hblank.log)

theorem outcome_failAttach (hblank : Blank s) : Outcome (failAttach env s) := by
  have hdetach : Undoing [.tx, .rx, .data, .control] (drvDetach env s) :=
    hblank.undoing.other rfl (by decide) (fun _ => rfl) (fun q _ => by cases q <;> rfl)
  apply outcome_of_nothing_freed
  · exact (mcdiFini_freed _).trans hdetach.freed
  · rw [failAttach, mcdiFini_log, ← hdetach.finished]
    intro q hq
    cases q <;> simp at hq

theorem outcome_failDma (hmatched : Matched s) : Outcome (failDma env s) := by
  have hspec : (Dead (hwTeardown env s).fw ↔ FinisSucceed (hwTeardown env s).log) ∧
      (hwTeardown env s).freed = [] := hwTeardown_spec hmatched.undoing
  unfold Outcome failDma freeDmaResources
  simp only [hspec.2, List.nil_append, List.mem_singleton, forall_eq]
  exact hspec.1

/-- A query of bring-up whose answer goes into a field that notes no queue. -/
theorem triple_query_blank {stage : Stage} {need : Nat} {accept : Reply → Softc → Softc}
    (hcmd : cmd.ofQueue = false)
    (hup : ∀ reply sc, (accept reply sc).mcdiInitialized = sc.mcdiInitialized)
    (hnoted : ∀ reply sc (q : Queue), q.noted (accept reply sc) = q.noted sc) :
    Triple Blank (query env cmd stage need accept) Blank
      (fun failure s => failure.stage = stage ∧ Blank s) :=
  triple_query_of_keeps Blank.up_of (Blank.issue hcmd)
    fun s reply hblank => hblank.note (hup reply s.sc) (hnoted reply s.sc)

/-- Bring-up, whichever way it ends, has no queue to finish. -/
theorem triple_hwInit_blank :
    Triple (fun s => s = fresh) (hwInit env) Blank (fun _ => Outcome) := by
  have hstart : Triple (fun s => s = fresh) (mcdiInit env) Blank (fun _ => Outcome) := by
    rintro s rfl
    have hlog : FinisSucceed fresh.log := fun entry hentry => absurd hentry List.not_mem_nil
    unfold mcdiInit
    cases env.allocBuf with
    | some e => exact outcome_of_nothing_freed rfl hlog
    | none =>
      by_cases hready : env.pciReady = true ∧ env.hwRevOk = true
      · simp only [if_pos hready]
        exact
          { up := rfl
            noted := fun q hlive => by cases q <;> cases hlive
            log := hlog
            freed := rfl
            dead := fun q => by cases q <;> rfl }
      · simp only [if_neg hready]
        exact outcome_of_nothing_freed rfl hlog
  apply Triple.andThen hstart (fun _ _ houtcome => houtcome)
  apply Triple.andThen (triple_query_blank rfl (by intros; rfl) (by intros; rfl))
    (fun _ _ hblank => outcome_mcdiFini hblank.2)
  apply Triple.andThen (triple_query_blank rfl (by intros; rfl)
    (by rintro _ _ (_ | _) <;> rfl))
    (fun _ _ hblank => outcome_mcdiFini hblank.2)
  apply Triple.andThen (triple_clearAssertions_of_keeps Blank.up_of (Blank.issue rfl))
    (fun _ _ hblank => outcome_mcdiFini hblank.2)
  apply Triple.andThen (triple_tolerant_of_keeps Blank.up_of (Blank.issue rfl))
    (fun _ _ hblank => outcome_failAttach hblank.2)
  apply Triple.andThen (triple_query_blank rfl (by intros; rfl) (by intros; rfl))
    (fun _ _ hblank => outcome_failAttach hblank.2)
  apply Triple.andThen (Triple.always (dumpFuncInfo_keeps Blank.up_of (Blank.issue rfl)
    (Blank.issue rfl) (Blank.issue rfl))) (fun _ _ houtcome => houtcome)
  apply Triple.andThen (triple_query_blank rfl (by intros; rfl)
    (by rintro _ _ (_ | _) <;> rfl))
    (fun _ _ hblank => outcome_failAttach hblank.2)
  apply Triple.andThen (Triple.skip (triple_query_blank rfl (by intros; rfl)
    (by rintro _ _ (_ | _) <;> rfl)) fun _ _ hblank => hblank)
    (fun _ _ hblank => outcome_failAttach hblank.2)
  apply Triple.andThen (triple_query_blank rfl (by intros; rfl) (by intros; rfl))
    (fun _ _ hblank => outcome_failAttach hblank.2)
  apply Triple.andThen (triple_tolerant_of_keeps Blank.up_of (Blank.issue rfl))
    (fun _ _ hblank => outcome_failAttach hblank.2)
  apply Triple.andThen (triple_query_blank rfl (by intros; rfl) (by intros; rfl))
    (fun _ _ hblank => outcome_failAttach hblank.2)
  apply Triple.andThen (Triple.rounds (triple_query_blank rfl (by intros; rfl)
    (by rintro _ _ (_ | _) <;> rfl)) 30)
    (fun _ _ hblank => outcome_failAttach hblank.2)
  exact Triple.done fun _ hblank => hblank

theorem Matched.issue_refused (hmatched : Matched s) (hfini : ∀ q : Queue, cmd ≠ q.fini) :
    Matched (s.issue cmd false) :=
  hmatched.issue false (fun _ => rfl) ((finisSucceed_append_other hfini _).mpr hmatched.log)

/-- A command that starts a queue is noted whether it was carried out or not. -/
theorem Matched.start {sc : Softc} (hmatched : Matched s) (hfini : ∀ q : Queue, cmd ≠ q.fini)
    (hup : sc.mcdiInitialized = s.sc.mcdiInitialized)
    (hkept : ∀ q : Queue, q.noted s.sc = true → q.noted sc = true)
    (hnoted : ∀ q : Queue, q.live (s.fw.after cmd) = true → q.live s.fw = true ∨ q.noted sc = true)
    (done : Bool) : Matched { s.issue cmd done with sc := sc } where
  up := hup.trans hmatched.up
  noted := by
    intro q hlive
    cases done with
    | false => exact hkept q (hmatched.noted q hlive)
    | true =>
      rcases hnoted q hlive with hold | hnew
      · exact hkept q (hmatched.noted q hold)
      · exact hnew
  log := (finisSucceed_append_other hfini done).mpr hmatched.log
  freed := hmatched.freed

/-- A command that starts a queue leaves things matched if it fails. -/
theorem triple_start {P Q : Sys → Prop} {stage : Stage} {accept : Softc → Softc}
    (hpre : ∀ s, P s → Matched s) (hfini : ∀ q : Queue, cmd ≠ q.fini)
    (hpost : ∀ s done, P s → Q { s.issue cmd done with sc := accept s.sc }) :
    Triple P (query env cmd stage 0 fun _ => accept) Q (fun _ => Matched) := by
  apply triple_query (fun s hp => (hpre s hp).up)
  · intro s e hp
    exact (hpre s hp).issue_refused hfini
  · intro s _ hneed _
    exact absurd hneed (lt_irrefl 0)
  · exact fun s _ done _ hp => hpost s done hp

theorem triple_initQueue {stage : Stage} {accept : Softc → Softc}
    (hfini : ∀ q : Queue, cmd ≠ q.fini)
    (hup : ∀ sc, (accept sc).mcdiInitialized = sc.mcdiInitialized)
    (hkept : ∀ (sc : Softc) (q : Queue), q.noted sc = true → q.noted (accept sc) = true)
    (hnoted : ∀ (s : Sys) (q : Queue), q.live (s.fw.after cmd) = true →
      q.live s.fw = true ∨ q.noted (accept s.sc) = true) :
    Triple Matched (initQueue env cmd stage accept) Matched (fun _ => Matched) := by
  apply Triple.check (triple_start (fun _ hmatched => hmatched) hfini _)
  · exact fun _ hmatched => hmatched
  · intro s done hmatched
    exact hmatched.start hfini (hup s.sc) (hkept s.sc) (hnoted s) done

theorem triple_initRxq : Triple Matched (initRxq env) Matched (fun _ => Matched) := by
  apply triple_initQueue
  · intro q
    cases q <;> exact Cmd.noConfusion
  · exact fun _ => rfl
  · intro sc q hnoted
    cases q <;> first | rfl | exact hnoted
  · intro s q hlive
    cases q <;> first | exact Or.inl hlive | exact Or.inr rfl

theorem triple_initTxq : Triple Matched (initTxq env) Matched (fun _ => Matched) := by
  apply triple_initQueue
  · intro q
    cases q <;> exact Cmd.noConfusion
  · exact fun _ => rfl
  · intro sc q hnoted
    cases q <;> first | rfl | exact hnoted
  · intro s q hlive
    cases q <;> first | exact Or.inl hlive | exact Or.inr rfl

theorem ne_fini_initEvq (evq : Evq) (q : Queue) : Cmd.initEvq evq ≠ q.fini := by
  cases q <;> exact Cmd.noConfusion

/-- The flag of the control queue may be set at any time. -/
theorem noted_evqInitialized {sc : Softc} {q : Queue} (hnoted : q.noted sc = true) :
    q.noted { sc with evqInitialized := true } = true := by
  cases q with
  | control => rfl
  | data => exact hnoted
  | rx => exact hnoted
  | tx => exact hnoted

theorem triple_initEvq_control :
    Triple Matched (initEvq env .control) Matched (fun _ => Matched) := by
  apply Triple.check (triple_start (fun _ hmatched => hmatched) (ne_fini_initEvq .control) _)
  · exact fun _ hmatched => hmatched
  · intro s done hmatched
    refine hmatched.start (ne_fini_initEvq .control) ?_ ?_ ?_ done
    · rfl
    · exact fun _ => noted_evqInitialized
    · intro q hlive
      cases q <;> first | exact Or.inl hlive | exact Or.inr rfl

theorem triple_noteEvq_control {R : Failure → Sys → Prop} :
    Triple Matched (Action.always (noteEvq .control)) Matched R :=
  Triple.always fun _ hmatched =>
    { hmatched with noted := fun q hlive => noted_evqInitialized (hmatched.noted q hlive) }

/-- Between the command and the flag of the data queue nothing can fail. -/
theorem triple_initEvq_data :
    Triple Matched (initEvq env .data) (fun s => Matched (noteEvq .data s))
      (fun _ => Matched) := by
  apply Triple.check (triple_start (fun _ hmatched => hmatched) (ne_fini_initEvq .data) _)
  · exact fun _ hmatched => hmatched
  · intro s done hmatched
    refine hmatched.start (ne_fini_initEvq .data) ?_ ?_ ?_ done
    · rfl
    · intro q hnoted
      cases q <;> first | rfl | exact hnoted
    · intro q hlive
      cases q <;> first | exact Or.inl hlive | exact Or.inr rfl

theorem triple_noteEvq_data {R : Failure → Sys → Prop} :
    Triple (fun s => Matched (noteEvq .data s)) (Action.always (noteEvq .data)) Matched R :=
  Triple.always fun _ hmatched => hmatched

theorem Matched.filterInsertMac (hmatched : Matched s) :
    Matched (filterInsertMac env s).2 := by
  obtain ⟨done, hout⟩ : ∃ done, (Bringup.filterInsertMac env s).2 = s.issue .filterInsert done :=
    filterInsertMac_snd hmatched.up
  rw [hout]
  apply hmatched.issue done
  · intro q
    cases done <;> rfl
  · exact (finisSucceed_append_other (ne_fini rfl) done).mpr hmatched.log

theorem triple_filterInsert : Triple Matched (filterInsert env) Matched (fun _ => Matched) := by
  have hfirst : Triple Matched (filterInsertMac env) Matched (fun _ => Matched) := by
    intro s hmatched
    have hkept : Matched (filterInsertMac env s).2 := hmatched.filterInsertMac
    generalize filterInsertMac env s = out at hkept
    obtain ⟨_ | failure, s'⟩ := out
    · exact hkept
    · exact hkept
  apply Triple.skip
  · apply Triple.andThen hfirst (fun _ _ hmatched => hmatched)
    apply Triple.always
    intro s hmatched
    apply Matched.filterInsertMac
    refine { hmatched with noted := ?_ }
    intro q
    have hnoted := hmatched.noted q
    cases q <;> exact hnoted
  · exact fun _ _ hmatched => hmatched

theorem triple_outside {I : Sys → Prop} (stage : Stage) (result : Option Errno) :
    Triple I (outside stage result) I (fun _ => I) := by
  intro s hinv
  cases result <;> exact hinv

/-- From the DMA memory to the character device, each failure leaves by `fail_dma`. -/
theorem triple_attachQueues :
    Triple Matched (attachQueues env) Matched (fun _ => Outcome) := by
  apply Triple.andThen (triple_outside _ _) (fun _ _ => outcome_failDma)
  apply Triple.andThen triple_initEvq_control (fun _ _ => outcome_failDma)
  apply Triple.andThen triple_noteEvq_control (fun _ _ houtcome => houtcome)
  apply Triple.andThen triple_initEvq_data (fun _ _ => outcome_failDma)
  apply Triple.andThen triple_noteEvq_data (fun _ _ houtcome => houtcome)
  apply Triple.andThen triple_initRxq (fun _ _ => outcome_failDma)
  apply Triple.andThen triple_initTxq (fun _ _ => outcome_failDma)
  apply Triple.andThen triple_filterInsert (fun _ _ => outcome_failDma)
  apply Triple.andThen (triple_outside _ _) (fun _ _ => outcome_failDma)
  exact Triple.done fun _ hmatched => hmatched

theorem triple_fbsdAttach :
    Triple (fun s => s = fresh) (fbsdAttach env) Matched (fun _ => Outcome) := by
  apply Triple.andThen (triple_outside _ _)
  · rintro failure s rfl
    exact outcome_of_nothing_freed rfl fun entry hentry => absurd hentry List.not_mem_nil
  apply Triple.andThen triple_hwInit_blank (fun _ _ houtcome => houtcome)
  apply Triple.andThen (triple_outside _ _)
  · -- no queue has been started, so the teardown finds all of them dead
    intro failure s hblank
    have hspec : (Dead (hwTeardown env s).fw ↔ FinisSucceed (hwTeardown env s).log) ∧
        (hwTeardown env s).freed = [] := hwTeardown_spec hblank.undoing
    exact outcome_of_nothing_freed hspec.2 (hspec.1.mp (dead_hwTeardown hblank.dead))
  intro s hblank
  exact triple_attachQueues s hblank.toMatched

end Attach

/-- **Freeing the rings.**  However attach fails, and when the driver is detached after an
attach that succeeded, every ring and buffer that is freed is without a live queue if
and only if every command that finishes a live queue was carried out. -/
theorem freed_rings_dead_iff (env env' : Env) {s : Sys}
    (hend : (∃ failure, fbsdAttach env fresh = (some failure, s)) ∨
      ∃ t, fbsdAttach env fresh = (none, t) ∧ s = fbsdDetach env' t) :
    (∀ fw ∈ s.freed, Dead fw) ↔ FinisSucceed s.log := by
  rcases hend with ⟨failure, hattach⟩ | ⟨t, hattach, rfl⟩
  · exact triple_fbsdAttach.error rfl hattach
  · exact outcome_failDma (triple_fbsdAttach.normal rfl hattach)

/-- Every command is answered, and the driver is detached. -/
theorem freed_rings_dead_detach :
    ∃ t, fbsdAttach (refusing 40 .eio) fresh = (none, t) ∧
      (fbsdDetach (refusing 40 .eio) t).freed ≠ [] ∧
      ∀ fw ∈ (fbsdDetach (refusing 40 .eio) t).freed, Dead fw := by
  obtain ⟨t, hattach, hfreed, hlog⟩ : ∃ t, fbsdAttach (refusing 40 .eio) fresh = (none, t) ∧
      (fbsdDetach (refusing 40 .eio) t).freed ≠ [] ∧
      (fbsdDetach (refusing 40 .eio) t).log.all Issued.done = true :=
    ⟨_, rfl, by decide, by decide⟩
  refine ⟨t, hattach, hfreed, ?_⟩
  refine (freed_rings_dead_iff (refusing 40 .eio) (refusing 40 .eio)
    (Or.inr ⟨t, hattach, rfl⟩)).mpr ?_
  intro entry hentry _ _ _
  exact List.all_eq_true.mp hlog entry hentry

/-- The command that finishes the receive queue times out while the driver is
detached.  The flag is cleared, the data event queue is busy, and the rings of both
are freed under them. -/
theorem detach_frees_live_rings :
    ∃ t, fbsdAttach (refusing 22 .etimedout) fresh = (none, t) ∧
      ∃ fw ∈ (fbsdDetach (refusing 22 .etimedout) t).freed,
        fw.rxq = true ∧ fw.dataEvq = true ∧ ¬ Dead fw := by
  refine ⟨_, rfl, _, List.mem_singleton_self _, rfl, rfl, ?_⟩
  intro hdead
  exact Bool.noConfusion (hdead .rx)

end Bringup
end SfcCapio
