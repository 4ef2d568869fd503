import SfcCapio.Foundation.StructLayout
import SfcCapio.Capio.Softc
import SfcCapio.Hardware.Words

/-!
# The argument of an ioctl

The kernel copies an ioctl's argument into a buffer whose length is encoded in the
command word, and passes the buffer on without its length.  Which of its bytes may be
touched is therefore decided by the command alone.

`capio_ioctl_handler` reads `sealed_cap` before it looks at the command: every word but
`CAPIO_ATTACH` takes that way, among them words whose buffer is empty.  Behind the token
check both handlers compare the whole word, so each structure is only accessed under
the command that carries its size.

The accesses of the two handlers are modelled as the list of members they read and
write, in program order, with the conditions of the source deciding where the list ends.
The layout is that of a kernel with 16-byte capabilities; the plain pointer of
`sfc7120_rx_req_t` has 8 or 16 bytes depending on the ABI, and the results hold for both.
-/

namespace SfcCapio
namespace Capio

open Foundation Hardware

/-! ## Command words -/

/-- `_IOWR`: both direction bits, 13 bits of length, group and number. -/
def iowr (group num len : Nat) : BitVec 32 :=
  0xc0000000#32 ||| (BitVec.ofNat 32 (len % 2 ^ 13) <<< 16) |||
    (BitVec.ofNat 32 group <<< 8) ||| BitVec.ofNat 32 num

/-- The length of the buffer the kernel supplies: the encoded one if the command has
data in either direction, else 0. -/
def paramLen (cmd : BitVec 32) : Nat :=
  if cmd &&& 0xc0000000#32 = 0#32 then 0 else ((cmd >>> 16) &&& 0x1fff#32).toNat

/-! ## The request structures -/

/-- Whether a plain pointer is an address or a capability. -/
inductive Abi
  | hybrid
  | purecap
deriving DecidableEq, Repr

/-- `void * __capability`. -/
def capability : CType := ⟨16, 16, by decide⟩

/-- `uint8_t`. -/
def uint8 : CType := ⟨1, 1, by decide⟩

/-- `uint32_t`. -/
def uint32 : CType := ⟨4, 4, by decide⟩

/-- `uint64_t` and `size_t`. -/
def uint64 : CType := ⟨8, 8, by decide⟩

/-- A pointer without `__capability`. -/
def Abi.pointer : Abi → CType
  | hybrid => uint64
  | purecap => capability

/-- Members of `cap_req_t`, with which every request begins. -/
inductive CapReqField
  | userCap
  | sealedCap
deriving DecidableEq, Repr

/-- `cap_req_t`. -/
def capReq : CStruct CapReqField where
  members := [(.userCap, capability), (.sealedCap, capability)]
  declared := by rintro (_ | _) <;> decide

/-- Members of `sfc7120_mac_req_t`. -/
inductive MacReqField
  | userCap
  | sealedCap
  | macAddr
deriving DecidableEq, Repr

/-- `sfc7120_mac_req_t`. -/
def macReq : CStruct MacReqField where
  members := [(.userCap, capability), (.sealedCap, capability), (.macAddr, ⟨6, 1, by decide⟩)]
  declared := by rintro (_ | _ | _) <;> decide

/-- Members of `sfc7120_tx_req_t`. -/
inductive TxReqField
  | userCap
  | sealedCap
  | txBufAddr
  | length
  | status
deriving DecidableEq, Repr

/-- `sfc7120_tx_req_t`. -/
def txReq : CStruct TxReqField where
  members :=
    [(.userCap, capability), (.sealedCap, capability), (.txBufAddr, capability),
      (.length, uint64), (.status, uint8)]
  declared := by rintro (_ | _ | _ | _ | _) <;> decide

/-- Members of `sfc7120_rx_req_t`. -/
inductive RxReqField
  | userCap
  | sealedCap
  | rawBuffer
  | lengthReceived
  | status
  | error
deriving DecidableEq, Repr

/-- `sfc7120_rx_req_t`. -/
def rxReq (abi : Abi) : CStruct RxReqField where
  members :=
    [(.userCap, capability), (.sealedCap, capability), (.rawBuffer, abi.pointer),
      (.lengthReceived, uint64), (.status, uint8), (.error, uint8)]
  declared := by rintro (_ | _ | _ | _ | _ | _) <;> simp

/-- Members of `sfc7120_vi_info_req_t`. -/
inductive ViInfoReqField
  | userCap
  | sealedCap
  | txBufferPaddr
  | rxBufferPaddr
  | viBase
  | evqInstance
  | rxqInstance
  | txqInstance
  | numTxDesc
  | numRxDesc
  | numEvqEntry
  | txHead
  | rxHead
  | evqReadPtr
deriving DecidableEq, Repr

/-- `sfc7120_vi_info_req_t`. -/
def viInfoReq : CStruct ViInfoReqField where
  members :=
    [(.userCap, capability), (.sealedCap, capability), (.txBufferPaddr, uint64),
      (.rxBufferPaddr, uint64), (.viBase, uint32), (.evqInstance, uint32),
      (.rxqInstance, uint32), (.txqInstance, uint32), (.numTxDesc, uint32),
      (.numRxDesc, uint32), (.numEvqEntry, uint32), (.txHead, uint32), (.rxHead, uint32),
      (.evqReadPtr, uint32)]
  declared := by intro f; cases f <;> decide

/-- Members of `sfc7120_evq_sync_req_t`. -/
inductive EvqSyncReqField
  | userCap
  | sealedCap
  | evqReadPtr
  | txHead
  | rxHead
deriving DecidableEq, Repr

/-- `sfc7120_evq_sync_req_t`. -/
def evqSyncReq : CStruct EvqSyncReqField where
  members :=
    [(.userCap, capability), (.sealedCap, capability), (.evqReadPtr, uint32),
      (.txHead, uint32), (.rxHead, uint32)]
  declared := by rintro (_ | _ | _ | _ | _) <;> decide

/-- `CAPIO_ATTACH`. -/
def capioAttach : BitVec 32 := iowr 67 1 capReq.size

/-- `CAPIO_GOODBYE`. -/
def capioGoodbye : BitVec 32 := iowr 67 2 capReq.size

/-- `SFC7120_RX`. -/
def sfc7120Rx (abi : Abi) : BitVec 32 := iowr 83 1 (rxReq abi).size

/-- `SFC7120_TX`. -/
def sfc7120Tx : BitVec 32 := iowr 83 2 txReq.size

/-- `SFC7120_GET_MAC`. -/
def sfc7120GetMac : BitVec 32 := iowr 83 3 macReq.size

/-- `SFC7120_GET_VI_INFO`. -/
def sfc7120GetViInfo : BitVec 32 := iowr 83 4 viInfoReq.size

/-- `SFC7120_SET_EVQ_RPTR`. -/
def sfc7120SetEvqRptr : BitVec 32 := iowr 83 5 evqSyncReq.size

theorem paramLen_commands (abi : Abi) :
    paramLen capioAttach = capReq.size ∧ paramLen capioGoodbye = capReq.size ∧
      paramLen (sfc7120Rx abi) = (rxReq abi).size ∧ paramLen sfc7120Tx = txReq.size ∧
      paramLen sfc7120GetMac = macReq.size ∧ paramLen sfc7120GetViInfo = viInfoReq.size ∧
      paramLen sfc7120SetEvqRptr = evqSyncReq.size := by
  cases abi <;> decide +kernel

/-! ## The accesses -/

/-- The direction of an access. -/
inductive AccessKind
  | read
  | write
deriving DecidableEq, Repr

/-- An access to the argument. -/
structure Access where
  kind : AccessKind
  extent : Extent
deriving DecidableEq, Repr

/-- The accesses to members of a structure. -/
def accessesOf {F : Type} [DecidableEq F] (s : CStruct F) (touched : List (AccessKind × F)) :
    List Access :=
  touched.map fun t => ⟨t.1, s.extent t.2⟩

/-- The argument as it is read: the integer or the capability stored at an offset. -/
structure ArgData (Cap : Type*) where
  int : Nat → Nat
  cap : Nat → Cap

namespace ArgData

variable {Cap : Type*} {F : Type} [DecidableEq F]

/-- The value of an integer member. -/
def intAt (data : ArgData Cap) (s : CStruct F) (f : F) : Nat := data.int (s.extent f).start

/-- The value of a capability member. -/
def capAt (data : ArgData Cap) (s : CStruct F) (f : F) : Cap := data.cap (s.extent f).start

end ArgData

/-- What the driver's handler meets outside the argument: whether `si_drv1` is gone when
it reads it, what the machine says about a capability, the results of the two copies,
and whether a receive event is found. -/
structure DriverEnv (Cap : Type*) where
  gone : Bool
  tagged : Cap → Bool
  loadable : Cap → Bool
  capLen : Cap → Nat
  copyinErr : Nat
  copyoutErr : Nat
  rxFound : Bool

section Handlers

variable {Cap Key : Type*}

/-- `SFC7120_SET_EVQ_RPTR`; the three comparisons stop at the first that fails. -/
def setEvqRptrTouched (data : ArgData Cap) : List (AccessKind × EvqSyncReqField) :=
  (.read, .evqReadPtr) ::
    if data.intAt evqSyncReq .evqReadPtr ≥ numEvqEntry then []
    else
      (.read, .txHead) ::
        if data.intAt evqSyncReq .txHead ≥ numTxDesc then []
        else
          (.read, .rxHead) ::
            if data.intAt evqSyncReq .rxHead ≥ numRxDesc then []
            else [(.read, .evqReadPtr), (.read, .txHead), (.read, .rxHead)]

/-- `SFC7120_TX`: the four checks, `copyin`, the descriptor, and the status at the end. -/
def txTouched (data : ArgData Cap) (env : DriverEnv Cap) : List (AccessKind × TxReqField) :=
  let buf := data.capAt txReq .txBufAddr
  let length := data.intAt txReq .length
  (.read, .txBufAddr) ::
    if env.tagged buf = false then []
    else
      (.read, .txBufAddr) ::
        if env.loadable buf = false then []
        else
          (.read, .length) ::
            if length = 0 then []
            else
              (.read, .length) ::
                if length > txBufferSize then []
                else
                  [(.read, .txBufAddr), (.read, .length)] ++
                    if env.capLen buf < length then []
                    else
                      [(.read, .txBufAddr), (.read, .length)] ++
                        if env.copyinErr ≠ 0 then [] else [(.read, .length), (.write, .status)]

/-- `SFC7120_RX`: nothing unless an event is found, then `copyout` and the results. -/
def rxTouched (env : DriverEnv Cap) : List (AccessKind × RxReqField) :=
  if env.rxFound = false then []
  else
    (.read, .rawBuffer) ::
      if env.copyoutErr ≠ 0 then [] else [(.write, .lengthReceived), (.write, .status)]

/-- `SFC7120_GET_VI_INFO`. -/
def getViInfoTouched : List (AccessKind × ViInfoReqField) :=
  [.txBufferPaddr, .rxBufferPaddr, .viBase, .evqInstance, .rxqInstance, .txqInstance,
    .numTxDesc, .numRxDesc, .numEvqEntry, .txHead, .rxHead, .evqReadPtr].map
      fun f => (.write, f)

/-- The accesses of `sfc7120_ioctl`. -/
def sfc7120IoctlAccesses (abi : Abi) (cmd : BitVec 32) (data : ArgData Cap)
    (env : DriverEnv Cap) : List Access :=
  if env.gone then []
  else if cmd = sfc7120GetMac then accessesOf macReq [(.write, .macAddr)]
  else if cmd = sfc7120GetViInfo then accessesOf viInfoReq getViInfoTouched
  else if cmd = sfc7120SetEvqRptr then accessesOf evqSyncReq (setEvqRptrTouched data)
  else if cmd = sfc7120Tx then accessesOf txReq (txTouched data env)
  else if cmd = sfc7120Rx abi then accessesOf (rxReq abi) (rxTouched env)
  else []

variable (ch : Sealing Cap Key)

/-- The accesses of `set_cap_token`. -/
def setCapTokenTouched (sc : CapioSoftc Cap Key) (data : ArgData Cap) :
    List (AccessKind × CapReqField) :=
  (.read, .userCap) ::
    if ch.isNull (data.capAt capReq .userCap) ∨ ch.isNull sc.capState.sealedCap = false then []
    else [(.read, .userCap), (.read, .userCap), (.write, .sealedCap)]

/-- The accesses of `capio_ioctl_handler` and of the handler it dispatches to; `siDrv1`
is the softc of the device, `none` for `NULL`. -/
def capioIoctlAccesses [DecidableEq Cap] (abi : Abi) (siDrv1 : Option (CapioSoftc Cap Key))
    (cmd : BitVec 32) (data : ArgData Cap) (env : DriverEnv Cap) : List Access :=
  match siDrv1 with
  | none => []
  | some sc =>
    if cmd = capioAttach then accessesOf capReq (setCapTokenTouched ch sc data)
    else
      accessesOf capReq [(.read, .sealedCap)] ++
        match checkCapToken ch sc (data.capAt capReq .sealedCap) with
        | .error _ => []
        | .ok _ =>
          if cmd = capioGoodbye then [] else sfc7120IoctlAccesses abi cmd data env

end Handlers

/-! ## Where they lie -/

/-- Every access lies inside the first `len` bytes. -/
def AllInside (accesses : List Access) (len : Nat) : Prop :=
  ∀ a ∈ accesses, a.extent.Inside ⟨0, len⟩

instance (accesses : List Access) (len : Nat) : Decidable (AllInside accesses len) :=
  inferInstanceAs (Decidable (∀ a ∈ accesses, _))

theorem allInside_append {xs ys : List Access} {len : Nat} :
    AllInside (xs ++ ys) len ↔ AllInside xs len ∧ AllInside ys len := List.forall_mem_append

theorem allInside_nil (len : Nat) : AllInside [] len := List.forall_mem_nil _

/-- Whatever members of a structure are accessed, under a command of its size. -/
theorem allInside_accessesOf {F : Type} [DecidableEq F] {s : CStruct F} {len : Nat}
    (hlen : len = s.size) (touched : List (AccessKind × F)) :
    AllInside (accessesOf s touched) len := by
  intro a ha
  obtain ⟨t, -, rfl⟩ := List.mem_map.mp ha
  rw [hlen]
  exact s.extent_inside t.2

/-- The driver's handler compares the whole word, so it stays inside its structures. -/
theorem allInside_sfc7120Ioctl {Cap : Type*} (abi : Abi) (cmd : BitVec 32)
    (data : ArgData Cap) (env : DriverEnv Cap) :
    AllInside (sfc7120IoctlAccesses abi cmd data env) (paramLen cmd) := by
  obtain ⟨-, -, hrx, htx, hmac, hvi, hevq⟩ := paramLen_commands abi
  unfold sfc7120IoctlAccesses
  split_ifs with hgone hcmd hcmd hcmd hcmd hcmd
  · exact allInside_nil _
  · exact allInside_accessesOf (hcmd ▸ hmac) _
  · exact allInside_accessesOf (hcmd ▸ hvi) _
  · exact allInside_accessesOf (hcmd ▸ hevq) _
  · exact allInside_accessesOf (hcmd ▸ htx) _
  · exact allInside_accessesOf (hcmd ▸ hrx) _
  · exact allInside_nil _

/-- The token's bytes are 16 to 31. -/
theorem allInside_sealedCap {len : Nat} :
    AllInside (accessesOf capReq [(.read, .sealedCap)]) len ↔ 32 ≤ len := by
  have hplace : capReq.extent .sealedCap = ⟨16, 16⟩ := by decide
  simp only [AllInside, accessesOf, List.map_cons, List.map_nil, List.forall_mem_singleton, hplace,
    Extent.inside_iff]
  omega

/-! ## The result -/

section Result

variable {Cap Key : Type*} [DecidableEq Cap] (ch : Sealing Cap Key)

/-- For every command word, device state and argument: the handlers stay inside the
argument exactly if there is no softc or the word gives the argument the 32 bytes of
the two capabilities every request begins with. -/
theorem ioctl_inside_iff (abi : Abi) (siDrv1 : Option (CapioSoftc Cap Key))
    (cmd : BitVec 32) (data : ArgData Cap) (env : DriverEnv Cap) :
    AllInside (capioIoctlAccesses ch abi siDrv1 cmd data env) (paramLen cmd) ↔
      siDrv1 = none ∨ 32 ≤ paramLen cmd := by
  cases siDrv1 with
  | none => exact iff_of_true (allInside_nil _) (Or.inl rfl)
  | some sc =>
    rw [capioIoctlAccesses]
    by_cases hattach : cmd = capioAttach
    · -- the one word for which the token is not read carries the size of its structure
      have hlen : paramLen cmd = capReq.size := hattach ▸ (paramLen_commands abi).1
      rw [if_pos hattach]
      refine iff_of_true (allInside_accessesOf hlen _) (Or.inr ?_)
      rw [hlen]
      decide
    · rw [if_neg hattach, allInside_append, allInside_sealedCap]
      simp only [reduceCtorEq, false_or, and_iff_left_iff_imp]
      intro _
      split
      · exact allInside_nil _
      · split
        · exact allInside_nil _
        · exact allInside_sfc7120Ioctl abi cmd data env

end Result

/-- `_IO('X', 1)` on a device that holds no token: no data, and the token is read from
bytes 16 to 31. -/
theorem void_command_reads_token :
    paramLen 0x20005801#32 = 0 ∧
      capioIoctlAccesses SealedWord.sealing .hybrid
          (some (initCapioSc SealedWord.sealing id []))
          0x20005801#32 ⟨fun _ => 0, fun _ => .word false 0⟩
          ⟨false, fun _ => false, fun _ => false, fun _ => 0, 0, 0, false⟩ =
        [⟨.read, ⟨16, 16⟩⟩] ∧
      ¬ AllInside
        (capioIoctlAccesses SealedWord.sealing .hybrid
          (some (initCapioSc SealedWord.sealing id []))
          0x20005801#32 ⟨fun _ => 0, fun _ => .word false 0⟩
          ⟨false, fun _ => false, fun _ => false, fun _ => 0, 0, 0, false⟩)
        (paramLen 0x20005801#32) := by
  decide

end Capio
end SfcCapio
