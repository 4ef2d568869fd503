import SfcCapio.Capio.Softc
import SfcCapio.Foundation.Runs

/-!
# Freshness and isolation of tokens

Any number of CAPIO devices, and callers that attach, say goodbye, call the driver,
map and close in any order and with any values.  Which process makes a call does not
matter to the token: the code never looks at it.

`issued` records every token handed out, with its device, and `current` the session
each device is in.  A system is `Isolated` when a device accepts nothing but the
token of its current session, and that token was never handed out in any other
session, on this device or another.

All devices seal with the same key and nothing but the caller's capability goes into
the seal.  `tokens_isolated_iff` states what that leaves to the callers: every
capability attached must be new to the system and must not be plain data.
-/

namespace SfcCapio
namespace Capio

open Foundation

/-! ## The system -/

/-- One success of `set_cap_token`. -/
structure Issue (Dev Cap : Type*) where
  dev : Dev
  userCap : Cap
  token : Cap

/-- The devices, the tokens handed out so far, and for each device the index of the
issue that opened its current session. -/
structure TokenSys (Dev Cap Key : Type*) where
  sc : Dev → CapioSoftc Cap Key
  issued : List (Issue Dev Cap)
  current : Dev → Option Nat

/-- Calls on a device.  `delete` gives the results of `delete_mapping_from_user`,
which depend on the calling process. -/
inductive TokenLabel (Dev Cap : Type*)
  | ioctl (d : Dev) (cmd : CapioCmd) (req : CapReq Cap)
      (delete : SharedMemRegion → Option Errno) (result : Option Errno)
  | mmap (d : Dev) (bufferSize : Int → Nat) (dying : Bool) (req : MapReq Cap) (nprot : Prot)
      (offset size vaddr : Nat)
  | close (d : Dev) (delete : SharedMemRegion → Option Errno)

section System

variable {Dev Cap Key : Type*} [DecidableEq Dev] [DecidableEq Cap] (ch : Sealing Cap Key)

namespace TokenSys

/-- A device changes its state within its session. -/
def within (s : TokenSys Dev Cap Key) (d : Dev) (sc : CapioSoftc Cap Key) :
    TokenSys Dev Cap Key :=
  { s with sc := Function.update s.sc d sc }

/-- A session starts. -/
def opened (s : TokenSys Dev Cap Key) (d : Dev) (userCap token : Cap)
    (sc : CapioSoftc Cap Key) : TokenSys Dev Cap Key where
  sc := Function.update s.sc d sc
  issued := s.issued ++ [{ dev := d, userCap := userCap, token := token }]
  current := Function.update s.current d (some s.issued.length)

/-- The session of a device, if it has one, ends. -/
def closed (s : TokenSys Dev Cap Key) (d : Dev) (sc : CapioSoftc Cap Key) :
    TokenSys Dev Cap Key :=
  { s with sc := Function.update s.sc d sc, current := Function.update s.current d none }

end TokenSys

/-- The calls.  An attach that succeeds opens a session, a goodbye that is admitted
and a close end it, and every other call leaves it as it is. -/
def tokenStep (s : TokenSys Dev Cap Key) :
    TokenLabel Dev Cap → Option (TokenSys Dev Cap Key)
  | .ioctl d cmd req delete result =>
    let out := capioIoctlHandler ch (s.sc d) cmd req delete result
    match cmd with
    | .attach =>
      if out.1 = none then some (s.opened d req.userCap out.2.1.sealedCap out.2.2)
      else some (s.within d out.2.2)
    | .goodbye =>
      if checkCapToken ch (s.sc d) req.sealedCap = .ok () then some (s.closed d out.2.2)
      else some (s.within d out.2.2)
    | .driver _ => some (s.within d out.2.2)
  | .mmap d bufferSize dying req nprot offset size vaddr =>
    some (s.within d
      (capioMmap ch (s.sc d) bufferSize dying req nprot offset size vaddr).2)
  | .close d delete => some (s.closed d (revokeCapToken ch (s.sc d) delete).2)

/-- Every device freshly initialised, no token handed out. -/
structure TokenStart (createSealingKey : Nat → Key) (s : TokenSys Dev Cap Key) : Prop where
  init : ∀ d, ∃ smem, s.sc d = initCapioSc ch createSealingKey smem
  issued : s.issued = []
  current : ∀ d, s.current d = none

/-! ## The property and the condition -/

/-- The token of the current session of `d`, handed out in no other session. -/
def IssuedOnlyHere (s : TokenSys Dev Cap Key) (d : Dev) (t : Cap) : Prop :=
  ∃ (i : Nat) (r : Issue Dev Cap), s.current d = some i ∧ s.issued[i]? = some r ∧
    r.dev = d ∧ r.token = t ∧
    ∀ (j : Nat) (r' : Issue Dev Cap), s.issued[j]? = some r' → r'.token = t → j = i

/-- Only the token of the current session is accepted, on any device. -/
def Isolated (s : TokenSys Dev Cap Key) : Prop :=
  ∀ d t, checkCapToken ch (s.sc d) t = .ok () → IssuedOnlyHere s d t

/-- The step leads to an isolated system. -/
def StaysIsolated (s : TokenSys Dev Cap Key) (l : TokenLabel Dev Cap) : Prop :=
  ∀ s', tokenStep ch s l = some s' → Isolated ch s'

/-- An attach to a device that holds no token brings a capability that is not plain
data and that no session before has been opened with, here or elsewhere. -/
def AttachesFresh (s : TokenSys Dev Cap Key) : TokenLabel Dev Cap → Prop
  | .ioctl d .attach req _ _ =>
    ch.isNull (s.sc d).capState.sealedCap = true → ch.isNull req.userCap = false →
      ch.Unforgeable req.userCap ∧ ∀ r ∈ s.issued, r.userCap ≠ req.userCap
  | _ => True

/-! ## What a step can do -/

/-- The state of a device after a successful attach. -/
def attached (sc : CapioSoftc Cap Key) (userCap : Cap) : CapioSoftc Cap Key :=
  { sc with
    capState := { originalCap := userCap, sealedCap := ch.sealWith userCap sc.sealingKey } }

/-- The steps, told apart by what happens to the session. -/
inductive TokenCase (s : TokenSys Dev Cap Key) :
    TokenLabel Dev Cap → TokenSys Dev Cap Key → Prop
  | within {l} (d : Dev) (sc : CapioSoftc Cap Key) (hstate : sc.capState = (s.sc d).capState)
      (hkey : sc.sealingKey = (s.sc d).sealingKey) : TokenCase s l (s.within d sc)
  | opened (d : Dev) (req : CapReq Cap) (delete : SharedMemRegion → Option Errno)
      (result : Option Errno) (hfree : ch.isNull (s.sc d).capState.sealedCap = true)
      (huser : ch.isNull req.userCap = false) :
      TokenCase s (.ioctl d .attach req delete result)
        (s.opened d req.userCap (ch.sealWith req.userCap (s.sc d).sealingKey)
          (attached ch (s.sc d) req.userCap))
  | closed {l} (d : Dev) (sc : CapioSoftc Cap Key)
      (hnull : ch.isNull sc.capState.sealedCap = true)
      (hkey : sc.sealingKey = (s.sc d).sealingKey) : TokenCase s l (s.closed d sc)

variable {ch} {s : TokenSys Dev Cap Key}

theorem tokenStep_attach {d : Dev} {req : CapReq Cap}
    (delete : SharedMemRegion → Option Errno) (result : Option Errno)
    (hfree : ch.isNull (s.sc d).capState.sealedCap = true)
    (huser : ch.isNull req.userCap = false) :
    tokenStep ch s (.ioctl d .attach req delete result) =
      some (s.opened d req.userCap (ch.sealWith req.userCap (s.sc d).sealingKey)
        (attached ch (s.sc d) req.userCap)) := by
  rcases setCapToken_cases ch (s.sc d) req with ⟨-, -, hset⟩ | hset
  · simp only [tokenStep, capioIoctlHandler, hset, if_true, attached]
  · unfold setCapToken at hset
    rw [hfree, huser] at hset
    simp at hset

theorem tokenCase_tokenStep {l : TokenLabel Dev Cap} {s' : TokenSys Dev Cap Key}
    (hstep : tokenStep ch s l = some s') : TokenCase ch s l s' := by
  cases l with
  | ioctl d cmd req delete result =>
    cases cmd with
    | attach =>
      rcases setCapToken_cases ch (s.sc d) req with ⟨huser, hfree, -⟩ | hset
      · rw [tokenStep_attach delete result hfree huser] at hstep
        cases hstep
        exact .opened d req delete result hfree huser
      · simp only [tokenStep, capioIoctlHandler, hset] at hstep
        cases hstep
        exact .within d _ rfl rfl
    | goodbye =>
      simp only [tokenStep, capioIoctlHandler] at hstep
      cases hcheck : checkCapToken ch (s.sc d) req.sealedCap with
      | error e =>
        simp only [hcheck] at hstep
        cases hstep
        exact .within d _ rfl rfl
      | ok _ =>
        simp only [hcheck, if_true] at hstep
        cases hstep
        obtain ⟨hnull, hkey⟩ := revokeCapToken_state ch (s.sc d) delete
        exact .closed d _ hnull hkey
    | driver n =>
      simp only [tokenStep, capioIoctlHandler] at hstep
      cases hcheck : checkCapToken ch (s.sc d) req.sealedCap with
      | error e =>
        simp only [hcheck] at hstep
        cases hstep
        exact .within d _ rfl rfl
      | ok _ =>
        simp only [hcheck] at hstep
        cases hstep
        exact .within d _ rfl rfl
  | mmap d bufferSize dying req nprot offset size vaddr =>
    cases hstep
    obtain ⟨hstate, hkey⟩ :=
      capioMmap_capState ch (s.sc d) bufferSize dying req nprot offset size vaddr
    exact .within d _ hstate hkey
  | close d delete =>
    cases hstep
    obtain ⟨hnull, hkey⟩ := revokeCapToken_state ch (s.sc d) delete
    exact .closed d _ hnull hkey

/-! ## The invariant -/

variable (ch) in
/-- Device states and records agree, and the records are of different capabilities,
none of them plain data. -/
structure TokenInv (key : Key) (s : TokenSys Dev Cap Key) : Prop where
  sealingKey : ∀ d, (s.sc d).sealingKey = key
  idle : ∀ d, s.current d = none → ch.isNull (s.sc d).capState.sealedCap = true
  busy : ∀ d (i : Nat), s.current d = some i →
    ∃ r, s.issued[i]? = some r ∧ r.dev = d ∧ (s.sc d).capState.originalCap = r.userCap
  token : ∀ r ∈ s.issued, r.token = ch.sealWith r.userCap key
  unforgeable : ∀ r ∈ s.issued, ch.Unforgeable r.userCap
  fresh : (s.issued.map Issue.userCap).Nodup

namespace TokenInv

variable {key : Key}

omit [DecidableEq Dev] [DecidableEq Cap] in
theorem index_unique (hinv : TokenInv ch key s) {i j : Nat} {r r' : Issue Dev Cap}
    (hi : s.issued[i]? = some r) (hj : s.issued[j]? = some r') (htoken : r'.token = r.token) :
    j = i := by
  rw [hinv.token r (List.mem_of_getElem? hi), hinv.token r' (List.mem_of_getElem? hj)] at htoken
  have huser : r'.userCap = r.userCap := ch.seal_injective key htoken
  have hlen : j < (s.issued.map Issue.userCap).length := by
    rw [List.length_map]
    exact (List.getElem?_eq_some_iff.mp hj).1
  apply (List.getElem?_inj hlen hinv.fresh).mp
  rw [List.getElem?_map, List.getElem?_map, hi, hj, Option.map_some, Option.map_some, huser]

omit [DecidableEq Dev] in
/-- What a device accepts is the seal of the capability it was attached with. -/
theorem isolated (hinv : TokenInv ch key s) : Isolated ch s := by
  intro d t haccept
  obtain ⟨hheld, -, hunseal⟩ := checkCapToken_eq_ok_iff.mp haccept
  cases hcurrent : s.current d with
  | none =>
    rw [hinv.idle d hcurrent] at hheld
    cases hheld
  | some i =>
    obtain ⟨r, hr, hdev, horiginal⟩ := hinv.busy d i hcurrent
    have hmem := List.mem_of_getElem? hr
    rw [hinv.sealingKey, horiginal] at hunseal
    have ht : r.token = t := by
      rw [hinv.token r hmem, ch.eq_seal_of_unseal (hinv.unforgeable r hmem) hunseal]
    refine ⟨i, r, hcurrent, hr, hdev, ht, ?_⟩
    intro j r' hj htoken
    exact hinv.index_unique hr hj (htoken.trans ht.symm)

omit [DecidableEq Cap] in
theorem change (hinv : TokenInv ch key s) (d : Dev) (sc : CapioSoftc Cap Key)
    (current : Option Nat) (new : List (Issue Dev Cap)) (hkey : sc.sealingKey = key)
    (hidle : current = none → ch.isNull sc.capState.sealedCap = true)
    (hbusy : ∀ i : Nat, current = some i → ∃ r, (s.issued ++ new)[i]? = some r ∧
      r.dev = d ∧ sc.capState.originalCap = r.userCap)
    (hnew : ∀ r ∈ new, r.token = ch.sealWith r.userCap key ∧ ch.Unforgeable r.userCap)
    (hfresh : ((s.issued ++ new).map Issue.userCap).Nodup) :
    TokenInv ch key
      { sc := Function.update s.sc d sc
        issued := s.issued ++ new
        current := Function.update s.current d current } := by
  refine ⟨?_, ?_, ?_, ?_, ?_, hfresh⟩
  · intro d'
    by_cases hd : d' = d
    · subst hd
      simp only [Function.update_self, hkey]
    · simp only [Function.update_of_ne hd, hinv.sealingKey]
  · intro d' hcurrent
    by_cases hd : d' = d
    · subst hd
      simp only [Function.update_self] at hcurrent ⊢
      exact hidle hcurrent
    · simp only [Function.update_of_ne hd] at hcurrent ⊢
      exact hinv.idle d' hcurrent
  · intro d' i hcurrent
    by_cases hd : d' = d
    · subst hd
      simp only [Function.update_self] at hcurrent ⊢
      exact hbusy i hcurrent
    · simp only [Function.update_of_ne hd] at hcurrent ⊢
      obtain ⟨r, hr, hdev, horiginal⟩ := hinv.busy d' i hcurrent
      refine ⟨r, ?_, hdev, horiginal⟩
      rw [List.getElem?_append_left (List.getElem?_eq_some_iff.mp hr).1]
      exact hr
  · intro r hr
    rcases List.mem_append.mp hr with hold | hadded
    · exact hinv.token r hold
    · exact (hnew r hadded).1
  · intro r hr
    rcases List.mem_append.mp hr with hold | hadded
    · exact hinv.unforgeable r hold
    · exact (hnew r hadded).2

end TokenInv

theorem tokenInv_tokenStep {key : Key} (s : TokenSys Dev Cap Key) (l : TokenLabel Dev Cap)
    (s' : TokenSys Dev Cap Key) (hinv : TokenInv ch key s) (hguard : AttachesFresh ch s l)
    (hstep : tokenStep ch s l = some s') : TokenInv ch key s' := by
  cases tokenCase_tokenStep hstep with
  | within d sc hstate hkey =>
    have hchange := hinv.change d sc (s.current d) []
      (hkey.trans (hinv.sealingKey d))
      (by rw [hstate]; exact hinv.idle d)
      (by rw [hstate, List.append_nil]; exact hinv.busy d)
      (by intro r hr; cases hr)
      (by rw [List.append_nil]; exact hinv.fresh)
    simpa [TokenSys.within] using hchange
  | opened d req delete result hfree huser =>
    obtain ⟨hunforgeable, hnew⟩ := hguard hfree huser
    refine hinv.change d _ _ _ (hinv.sealingKey d) ?_ ?_ ?_ ?_
    · intro hnone
      cases hnone
    · intro i hi
      cases hi
      refine ⟨_, List.getElem?_concat_length, rfl, rfl⟩
    · intro r hr
      rw [List.mem_singleton.mp hr, hinv.sealingKey]
      exact ⟨rfl, hunforgeable⟩
    · rw [List.map_append, List.nodup_append]
      refine ⟨hinv.fresh, List.pairwise_singleton _ _, ?_⟩
      intro c hc c' hc' heq
      obtain ⟨r, hr, hcap⟩ := List.mem_map.mp hc
      apply hnew r hr
      rw [hcap, heq]
      exact List.mem_singleton.mp hc'
  | closed d sc hnull hkey =>
    have hchange := hinv.change d sc none []
      (hkey.trans (hinv.sealingKey d)) (fun _ => hnull)
      (by intro i hi; cases hi)
      (by intro r hr; cases hr)
      (by rw [List.append_nil]; exact hinv.fresh)
    simpa [TokenSys.closed] using hchange

omit [DecidableEq Dev] [DecidableEq Cap] in
theorem tokenInv_start {createSealingKey : Nat → Key}
    (hstart : TokenStart ch createSealingKey s) :
    TokenInv ch (createSealingKey 0x1234) s := by
  refine ⟨?_, ?_, ?_, ?_, ?_, ?_⟩
  · intro d
    obtain ⟨smem, hsc⟩ := hstart.init d
    rw [hsc]
    rfl
  · intro d _
    obtain ⟨smem, hsc⟩ := hstart.init d
    rw [hsc]
    exact ch.isNull_null
  · intro d i hcurrent
    rw [hstart.current d] at hcurrent
    cases hcurrent
  · rw [hstart.issued]
    intro r hr
    cases hr
  · rw [hstart.issued]
    intro r hr
    cases hr
  · rw [hstart.issued]
    exact List.nodup_nil

/-! ## The condition is necessary -/

theorem checkCapToken_attached {sc : CapioSoftc Cap Key} {userCap t : Cap}
    (huser : ch.isNull userCap = false) (ht : ch.isNull t = false)
    (hunseal : ch.unsealWith t sc.sealingKey = userCap) :
    checkCapToken ch (attached ch sc userCap) t = .ok () := by
  rw [checkCapToken_eq_ok_iff]
  refine ⟨?_, ht, hunseal⟩
  change ch.isNull (ch.sealWith userCap sc.sealingKey) = false
  rw [ch.isNull_seal, huser]

/-- A system that an attach leaves isolated was attached to freshly. -/
theorem attachesFresh_of_staysIsolated {key : Key} (hinv : TokenInv ch key s)
    {l : TokenLabel Dev Cap} (hstays : StaysIsolated ch s l) : AttachesFresh ch s l := by
  cases l with
  | ioctl d cmd req delete result =>
    cases cmd with
    | attach =>
      intro hfree huser
      have hisolated := hstays _ (tokenStep_attach delete result hfree huser)
      have hsc : (s.opened d req.userCap (ch.sealWith req.userCap (s.sc d).sealingKey)
          (attached ch (s.sc d) req.userCap)).sc d = attached ch (s.sc d) req.userCap :=
        Function.update_self ..
      constructor
      · -- plain data would be accepted as it stands, without ever having been sealed
        by_contra hplain
        obtain ⟨hsealed, hunseal⟩ := ch.unseal_plain (s.sc d).sealingKey hplain
        obtain ⟨i, r, -, hr, -, htoken, -⟩ := hisolated d req.userCap
          (by rw [hsc]; exact checkCapToken_attached huser huser hunseal)
        rcases List.mem_append.mp (List.mem_of_getElem? hr) with hold | hadded
        · rw [← htoken, hinv.token r hold, ch.isSealed_seal] at hsealed
          cases hsealed
        · rw [← htoken, List.mem_singleton.mp hadded, ch.isSealed_seal] at hsealed
          cases hsealed
      · -- a capability seen before would give the same token again
        intro r hr heq
        have htoken : r.token = ch.sealWith req.userCap (s.sc d).sealingKey := by
          rw [hinv.token r hr, hinv.sealingKey, heq]
        obtain ⟨j, hj⟩ := List.getElem?_of_mem hr
        have hlt : j < s.issued.length := (List.getElem?_eq_some_iff.mp hj).1
        obtain ⟨i, r', -, -, -, -, hunique⟩ := hisolated d
          (ch.sealWith req.userCap (s.sc d).sealingKey) (by
            rw [hsc]
            refine checkCapToken_attached huser ?_ (ch.unseal_seal _ _)
            rw [ch.isNull_seal, huser])
        have hfirst := hunique j r
          (by rw [TokenSys.opened, List.getElem?_append_left hlt]; exact hj) htoken
        have hlast := hunique s.issued.length _ List.getElem?_concat_length rfl
        omega
    | goodbye => trivial
    | driver n => trivial
  | mmap d bufferSize dying req nprot offset size vaddr => trivial
  | close d delete => trivial

/-! ## The result -/

/-- A run keeps every device isolated if and only if each capability that opens a
session is new and not plain data. -/
theorem tokens_isolated_iff {createSealingKey : Nat → Key}
    (hstart : TokenStart ch createSealingKey s) (labels : List (TokenLabel Dev Cap)) :
    Obeys (tokenStep ch) (StaysIsolated ch) s labels ↔
      Obeys (tokenStep ch) (AttachesFresh ch) s labels := by
  refine obeys_iff_of_guarded tokenInv_tokenStep ?_ (tokenInv_start hstart) labels
  intro u l hinv
  constructor
  · exact attachesFresh_of_staysIsolated hinv
  · intro hfresh u' hstep
    exact (tokenInv_tokenStep u l u' hinv hfresh hstep).isolated

end System

/-- Devices numbered from 0, over words, freshly initialised. -/
def sampleDevices : TokenSys Nat SealedWord Nat where
  sc := fun _ => initCapioSc SealedWord.sealing id []
  issued := []
  current := fun _ => none

theorem tokenStart_sampleDevices : TokenStart SealedWord.sealing id sampleDevices where
  init := fun _ => ⟨[], rfl⟩
  issued := rfl
  current := fun _ => rfl

/-- `CAPIO_ATTACH` on device `d` with a tagged pointer to `addr`. -/
def attachAt (d addr : Nat) : TokenLabel Nat SealedWord :=
  .ioctl d .attach { userCap := .word true addr, sealedCap := .word false 0 }
    (fun _ => none) none

/-- `CAPIO_GOODBYE` on device `d` with the token for `addr`. -/
def goodbyeAt (d addr : Nat) : TokenLabel Nat SealedWord :=
  .ioctl d .goodbye
    { userCap := .word true addr, sealedCap := .sealed (.word true addr) 0x1234 }
    (fun _ => none) none

/-- Three sessions on two devices, each with a page of its own. -/
theorem tokens_isolated_three_sessions :
    Obeys (tokenStep SealedWord.sealing) (StaysIsolated SealedWord.sealing) sampleDevices
      [attachAt 0 4096, attachAt 1 8192, goodbyeAt 0 4096, attachAt 0 12288] := by
  refine (tokens_isolated_iff tokenStart_sampleDevices _).mpr ⟨?_, ?_, trivial, ?_, trivial⟩
  · intro _ _
    exact ⟨Or.inl rfl, by decide⟩
  · intro _ _
    exact ⟨Or.inl rfl, by decide⟩
  · intro _ _
    exact ⟨Or.inl rfl, by decide⟩

/-- Two processes attach to two devices with bit-identical capabilities: each device
accepts the token of the other. -/
theorem equal_capabilities_share_a_token :
    ∃ t, exec (tokenStep SealedWord.sealing) sampleDevices [attachAt 0 4096, attachAt 1 4096] =
        some t ∧
      (∃ r, t.issued[0]? = some r ∧ r.dev = 0 ∧
        checkCapToken SealedWord.sealing (t.sc 1) r.token = .ok ()) ∧
      ¬ Isolated SealedWord.sealing t := by
  refine ⟨_, rfl, ⟨_, rfl, rfl, rfl⟩, ?_⟩
  intro hisolated
  obtain ⟨i, r, -, -, -, -, hunique⟩ := hisolated 1 (.sealed (.word true 4096) 0x1234) rfl
  have hfirst := hunique 0 _ rfl rfl
  have hsecond := hunique 1 _ rfl rfl
  omega

end Capio
end SfcCapio
