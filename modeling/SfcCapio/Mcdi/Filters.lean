import SfcCapio.Foundation.Runs
import SfcCapio.Mcdi.Exec

/-!
# The filters that steer received frames

`sfc7120_mcdi_filter_insert` asks the management controller for two filters, one for the
port's own address and one for all other multicast and broadcast frames.  The controller
answers each insert with a 64-bit handle, and a filter is removed by its handle.

The driver keeps both handles but one flag, and `sfc7120_mcdi_filter_remove` sends the
handle of the first filter only.  It clears the flag whatever the answer is.  So three
kinds of filters are never named again: every broadcast filter, a unicast filter
reported with the handle that the driver takes for invalid, and one whose removal
failed.  `filters_removed_iff` says that nothing else is left behind.

The controller's table lists the filters it has reported with a full reply, by their
handles.  `reported` and `named` record all handles it reported and all those that
`FILTER_OP(REMOVE)` commands named.
-/

namespace SfcCapio
namespace Mcdi

open Foundation

/-! ## `MC_CMD_FILTER_OP` -/

/-- `MC_CMD_FILTER_OP_IN_OP_INSERT`. -/
abbrev filterOpInsert : BitVec 32 := 0x0#32

/-- `MC_CMD_FILTER_OP_IN_OP_REMOVE`. -/
abbrev filterOpRemove : BitVec 32 := 0x1#32

/-- `EVB_PORT_ID_ASSIGNED`. -/
abbrev evbPortIdAssigned : BitVec 32 := 0x01000000#32

/-- `MC_CMD_FILTER_OP_IN_RX_DEST_HOST`. -/
abbrev rxDestHost : BitVec 32 := 0x1#32

/-- `MC_CMD_FILTER_OP_IN_RX_MODE_SIMPLE`. -/
abbrev rxModeSimple : BitVec 32 := 0x0#32

/-- `MC_CMD_FILTER_OP_IN_TX_DEST_DEFAULT`. -/
abbrev txDestDefault : BitVec 32 := 0xffffffff#32

/-- `1u << MC_CMD_FILTER_OP_IN_MATCH_DST_MAC_LBN`. -/
abbrev matchDstMac : BitVec 32 := 1#32 <<< 4

/-- `1u << MC_CMD_FILTER_OP_IN_MATCH_UNKNOWN_MCAST_DST_LBN`. -/
abbrev matchUnknownMcastDst : BitVec 32 := 1#32 <<< 30

/-- `MC_CMD_FILTER_OP_OUT_LEN`. -/
abbrev filterOpOutLen : Nat := 12

/-- A MAC address in network order. -/
abbrev MacAddr := Fin 6 → BitVec 8

/-- `memcpy` of an address to `MC_CMD_FILTER_OP_IN_DST_MAC_OFST`. -/
def copyMac (buf : Mailbox) (mac : MacAddr) : Mailbox := fun j =>
  if h : 52 ≤ j ∧ j < 58 then mac ⟨j - 52, by omega⟩ else buf j

/-- The buffer that `sfc7120_mcdi_filter_insert_mac` sends. -/
def filterInsertRequest (dstMac : Option MacAddr) (matchFields : BitVec 32) : Mailbox :=
  let buf := writeDword (fun _ => 0#8) 0 filterOpInsert
  let buf := writeDword buf 12 evbPortIdAssigned
  let buf := writeDword buf 16 matchFields
  let buf := writeDword buf 20 rxDestHost
  let buf := writeDword buf 24 0#32
  let buf := writeDword buf 28 rxModeSimple
  let buf := writeDword buf 40 txDestDefault
  match dstMac with
  | some mac => copyMac buf mac
  | none => buf

/-- The buffer that `sfc7120_mcdi_filter_remove` sends. -/
def filterRemoveRequest (handle : BitVec 64) : Mailbox :=
  let handleLo := (handle &&& 0xffffffff#64).setWidth 32
  let handleHi := (handle >>> 32).setWidth 32
  let buf := writeDword (fun _ => 0#8) 0 filterOpRemove
  let buf := writeDword buf 4 handleLo
  writeDword buf 8 handleHi

/-- What a filter matches and where the frames go. -/
structure FilterSpec where
  portId : BitVec 32
  matchFields : BitVec 32
  rxDest : BitVec 32
  rxQueue : BitVec 32
  rxMode : BitVec 32
  txDest : BitVec 32
  dstMac : MacAddr

/-- A request as the controller reads it. -/
inductive FilterOp
  | insert (spec : FilterSpec)
  | remove (handle : BitVec 64)

/-- The controller reads a request by the documented offsets. -/
def decodeFilterOp (req : Mailbox) : Option FilterOp :=
  if readDword req 0 = filterOpInsert then
    some (.insert
      { portId := readDword req 12, matchFields := readDword req 16, rxDest := readDword req 20,
        rxQueue := readDword req 24, rxMode := readDword req 28, txDest := readDword req 40,
        dstMac := fun i => req (52 + i) })
  else if readDword req 0 = filterOpRemove then
    some (.remove (readDword req 8 ++ readDword req 4))
  else none

/-- A full reply to an insert. -/
def filterOpOut (handle : BitVec 64) : Mailbox :=
  let buf := writeDword (fun _ => 0#8) 0 filterOpInsert
  let buf := writeDword buf 4 (handle.extractLsb' 0 32)
  writeDword buf 8 (handle.extractLsb' 32 32)

/-! ## The controller -/

/-- The answer to an insert.  After a short one, and possibly after an error, a filter
stands that the controller has not reported. -/
inductive InsertReply
  | installed (handle : BitVec 64)
  | short (bytes : List (BitVec 8)) (hshort : bytes.length < filterOpOutLen)
  | failed (rc : Errno)

/-- What `sfc7120_mcdi_exec` leaves for the caller. -/
structure ExecOut where
  rc : Option Errno
  resp : Mailbox
  used : Nat

/-- The exchange of an insert; `resp` starts as zeros. -/
def InsertReply.exec : InsertReply → ExecOut
  | .installed handle => ⟨none, filterOpOut handle, filterOpOutLen⟩
  | .short bytes _ => ⟨none, fun j => bytes.getD j 0#8, bytes.length⟩
  | .failed rc => ⟨some rc, fun _ => 0#8, 0⟩

/-- The exchange of a removal: the return value, and whether the filter is gone.  An error
may come after the filter was removed, and an error without a code is returned as 0. -/
structure RemoveReply where
  rc : Option Errno
  gone : Bool
deriving DecidableEq, Repr

/-- The controller's table and records. -/
structure McFilters where
  installed : List (BitVec 64)
  reported : List (BitVec 64)
  named : List (BitVec 64)
deriving DecidableEq, Repr

/-- The controller answers an insert. -/
def McFilters.insert (mc : McFilters) (req : Mailbox) (reply : InsertReply) : McFilters :=
  match decodeFilterOp req, reply with
  | some (.insert _), .installed handle =>
    { mc with installed := handle :: mc.installed, reported := handle :: mc.reported }
  | _, _ => mc

/-- The controller answers a removal. -/
def McFilters.remove (mc : McFilters) (req : Mailbox) (gone : Bool) : McFilters :=
  match decodeFilterOp req with
  | some (.remove handle) =>
    { mc with
      installed := if gone then mc.installed.erase handle else mc.installed
      named := handle :: mc.named }
  | _ => mc

/-! ## The driver -/

/-- The fields of the softc that the filters use. -/
structure FilterSoftc where
  macAddr : MacAddr
  rxFilterHandle : BitVec 64
  rxFilterBcastHandle : BitVec 64
  rxFilterInserted : Bool

/-- `sfc7120_mcdi_filter_insert_mac`: the handle or the error. -/
def filterInsertMac (mc : McFilters) (dstMac : Option MacAddr) (matchFields : BitVec 32)
    (reply : InsertReply) : Except Errno (BitVec 64) × McFilters :=
  let mc := mc.insert (filterInsertRequest dstMac matchFields) reply
  let out := reply.exec
  match out.rc with
  | some rc => (.error rc, mc)
  | none =>
    if out.used < filterOpOutLen then (.error .eproto, mc)
    else
      let handleLo := readDword out.resp 4
      let handleHi := readDword out.resp 8
      if handleLo = 0xffffffff#32 ∧ handleHi = 0xffffffff#32 then (.error .eio, mc)
      else (.ok (handleHi.setWidth 64 <<< 32 ||| handleLo.setWidth 64), mc)

/-- `sfc7120_mcdi_filter_insert`. -/
def filterInsert (sc : FilterSoftc) (mc : McFilters) (unicast bcast : InsertReply) :
    Option Errno × FilterSoftc × McFilters :=
  if sc.rxFilterInserted then (none, sc, mc)
  else
    match filterInsertMac mc (some sc.macAddr) matchDstMac unicast with
    | (.error rc, mc) => (some rc, sc, mc)
    | (.ok h, mc) =>
      let sc := { sc with rxFilterHandle := h, rxFilterInserted := true }
      match filterInsertMac mc none matchUnknownMcastDst bcast with
      -- without broadcasts unicast still works, so the error is dropped
      | (.error _, mc) => (none, sc, mc)
      | (.ok h, mc) => (none, { sc with rxFilterBcastHandle := h }, mc)

/-- `sfc7120_mcdi_filter_remove`. -/
def filterRemove (sc : FilterSoftc) (mc : McFilters) (reply : RemoveReply) :
    Option Errno × FilterSoftc × McFilters :=
  if sc.rxFilterInserted = false then (none, sc, mc)
  else
    -- the flag goes also after an error, and the broadcast handle is not looked at
    (reply.rc, { sc with rxFilterInserted := false },
      mc.remove (filterRemoveRequest sc.rxFilterHandle) reply.gone)

/-! ## Rounds -/

/-- The call that has just returned. -/
inductive LastCall
  | none
  | insert (rc : Option Errno)
  | remove (rc : Option Errno)
deriving DecidableEq, Repr

/-- Driver and controller.  `forgotten` says that some answer so far was one after which a
filter is left without a name. -/
structure FilterSys where
  sc : FilterSoftc
  mc : McFilters
  last : LastCall
  forgotten : Bool

/-- A call, with the answers of the controller. -/
inductive FilterLabel
  | insert (unicast bcast : InsertReply)
  | remove (reply : RemoveReply)

/-- `MC_CMD_FILTER_OP_OUT_HANDLE_LO_INVALID` and `MC_CMD_FILTER_OP_OUT_HANDLE_HI_INVALID`. -/
abbrev invalidHandle : BitVec 64 := 0xffffffffffffffff#64

/-- The reply is a full one. -/
def InsertReply.full : InsertReply → Bool
  | .installed _ => true
  | _ => false

/-- The answers after which a filter is left without a name: a full reply with the invalid
handle, a full reply for the broadcast filter, and a removal that leaves the filter. -/
def FilterSys.forgets (s : FilterSys) : FilterLabel → Bool
  | .insert (.installed handle) bcast =>
    !s.sc.rxFilterInserted && (handle == invalidHandle || bcast.full)
  | .insert _ _ => false
  | .remove reply => s.sc.rxFilterInserted && !reply.gone

/-- One call. -/
def filterStep (s : FilterSys) : FilterLabel → Option FilterSys
  | .insert unicast bcast =>
    let out := filterInsert s.sc s.mc unicast bcast
    some
      { sc := out.2.1, mc := out.2.2, last := .insert out.1
        forgotten := s.forgotten || s.forgets (.insert unicast bcast) }
  | .remove reply =>
    let out := filterRemove s.sc s.mc reply
    some
      { sc := out.2.1, mc := out.2.2, last := .remove out.1
        forgotten := s.forgotten || s.forgets (.remove reply) }

/-- A device without filters. -/
structure FilterStart (s : FilterSys) : Prop where
  inserted : s.sc.rxFilterInserted = false
  installed : s.mc.installed = []
  reported : s.mc.reported = []
  named : s.mc.named = []
  last : s.last = .none
  forgotten : s.forgotten = false

/-- When `sfc7120_mcdi_filter_remove` has returned 0 no reported filter is installed any more,
and no handle is removed more often than it was reported. -/
structure FiltersRemoved (s : FilterSys) : Prop where
  installed : s.last = .remove none → s.mc.installed = []
  named : ∀ handle, s.mc.named.count handle ≤ s.mc.reported.count handle

/-- A removal that has nothing to do or is answered with success comes before any answer that
leaves a filter without a name, and is not such an answer itself. -/
def NothingForgotten (s : FilterSys) : FilterLabel → Prop
  | .insert _ _ => True
  | .remove reply =>
    s.sc.rxFilterInserted = false ∨ reply.rc = none →
      s.forgotten = false ∧ (s.sc.rxFilterInserted = true → reply.gone = true)

instance (s : FilterSys) : (l : FilterLabel) → Decidable (NothingForgotten s l)
  | .insert _ _ => .isTrue trivial
  | .remove _ => inferInstanceAs (Decidable (_ → _))

/-! ## Requests and replies -/

theorem readDword_copyMac {buf : Mailbox} {mac : MacAddr} {offset : Nat} (hle : offset + 4 ≤ 52) :
    readDword (copyMac buf mac) offset = readDword buf offset := by
  apply readDword_congr
  intro k hk
  unfold copyMac
  rw [dif_neg (by omega)]

/-- The controller gets the filter that was asked for. -/
theorem decode_filterInsertRequest (dstMac : Option MacAddr) (matchFields : BitVec 32) :
    decodeFilterOp (filterInsertRequest dstMac matchFields) =
      some (.insert
        { portId := evbPortIdAssigned, matchFields := matchFields, rxDest := rxDestHost,
          rxQueue := 0#32, rxMode := rxModeSimple, txDest := txDestDefault,
          dstMac := dstMac.getD fun _ => 0#8 }) := by
  cases dstMac with
  | none =>
    have hmac : (fun i : Fin 6 => filterInsertRequest none matchFields (52 + i)) =
        fun _ => 0#8 := by
      funext i
      simp only [filterInsertRequest, writeDword]
      repeat rw [if_neg (by omega)]
    simp only [decodeFilterOp, hmac]
    simp [filterInsertRequest, readDword_writeDword, readDword_writeDword_of_le]
  | some mac =>
    have hmac : (fun i : Fin 6 => filterInsertRequest (some mac) matchFields (52 + i)) = mac := by
      funext i
      simp only [filterInsertRequest, copyMac]
      rw [dif_pos (by omega)]
      congr 1
      ext
      simp
    simp only [decodeFilterOp, hmac]
    simp [filterInsertRequest, readDword_copyMac, readDword_writeDword,
      readDword_writeDword_of_le]

theorem append_halves (handle : BitVec 64) :
    ((handle >>> 32).setWidth 32 ++ (handle &&& 0xffffffff#64).setWidth 32 : BitVec 64) =
      handle := by
  have hmask : (0xffffffff#64).setWidth 32 = BitVec.allOnes 32 := by decide
  rw [BitVec.setWidth_and, hmask, BitVec.and_allOnes]
  ext i hi
  rw [BitVec.getElem_append]
  split
  · simp [BitVec.getLsbD_eq_getElem hi]
  · have hsum : 32 + (i - 32) = i := by omega
    simp [hsum, BitVec.getLsbD_eq_getElem hi]

/-- The controller gets the handle that the driver kept. -/
theorem decode_filterRemoveRequest (handle : BitVec 64) :
    decodeFilterOp (filterRemoveRequest handle) = some (.remove handle) := by
  have hop : readDword (filterRemoveRequest handle) 0 = filterOpRemove := by
    simp [filterRemoveRequest, readDword_writeDword, readDword_writeDword_of_le]
  have hlo : readDword (filterRemoveRequest handle) 4 =
      (handle &&& 0xffffffff#64).setWidth 32 := by
    simp only [filterRemoveRequest]
    rw [readDword_writeDword_of_le (by decide), readDword_writeDword]
  have hhi : readDword (filterRemoveRequest handle) 8 = (handle >>> 32).setWidth 32 := by
    simp only [filterRemoveRequest]
    rw [readDword_writeDword]
  unfold decodeFilterOp
  rw [hop, if_neg (by decide), if_pos rfl, hlo, hhi, append_halves]

/-- The driver puts the handle together that the controller took apart. -/
theorem join_halves (handle : BitVec 64) :
    (handle.extractLsb' 32 32).setWidth 64 <<< 32 ||| (handle.extractLsb' 0 32).setWidth 64 =
      handle := by
  ext i hi
  by_cases hlow : i < 32
  · simp [hlow, BitVec.getLsbD_eq_getElem hi]
  · have hhigh : i - 32 < 32 := by omega
    have hsum : 32 + (i - 32) = i := by omega
    simp [hlow, hhigh, hsum, BitVec.getLsbD_eq_getElem hi]

theorem halves_invalid_iff (handle : BitVec 64) :
    handle.extractLsb' 0 32 = 0xffffffff#32 ∧ handle.extractLsb' 32 32 = 0xffffffff#32 ↔
      handle = invalidHandle := by
  constructor
  · rintro ⟨hlo, hhi⟩
    rw [← join_halves handle, hlo, hhi]
    decide
  · rintro rfl
    decide

/-! ## The calls -/

section Calls

variable (mc : McFilters) (dstMac : Option MacAddr) (matchFields : BitVec 32)

/-- The controller reports a filter. -/
def McFilters.report (mc : McFilters) (handle : BitVec 64) : McFilters :=
  { mc with installed := handle :: mc.installed, reported := handle :: mc.reported }

theorem filterInsertMac_installed (handle : BitVec 64) :
    filterInsertMac mc dstMac matchFields (.installed handle) =
      (if handle = invalidHandle then .error .eio else .ok handle, mc.report handle) := by
  have hmc : mc.insert (filterInsertRequest dstMac matchFields) (.installed handle) =
      mc.report handle := by
    simp only [McFilters.insert, decode_filterInsertRequest]
    rfl
  have hlo : readDword (filterOpOut handle) 4 = handle.extractLsb' 0 32 := by
    simp only [filterOpOut]
    rw [readDword_writeDword_of_le (by decide), readDword_writeDword]
  have hhi : readDword (filterOpOut handle) 8 = handle.extractLsb' 32 32 := by
    simp only [filterOpOut]
    rw [readDword_writeDword]
  simp only [filterInsertMac, InsertReply.exec, hmc, hlo, hhi, halves_invalid_iff, join_halves,
    Nat.lt_irrefl, if_false]
  split <;> rfl

theorem filterInsertMac_of_not_full {reply : InsertReply} (hreply : reply.full = false) :
    ∃ rc, filterInsertMac mc dstMac matchFields reply = (.error rc, mc) := by
  cases reply with
  | installed handle => cases hreply
  | short bytes hshort =>
    refine ⟨.eproto, ?_⟩
    simp only [filterInsertMac, InsertReply.exec, hshort, if_true, McFilters.insert,
      decode_filterInsertRequest]
  | failed rc =>
    refine ⟨rc, ?_⟩
    simp only [filterInsertMac, InsertReply.exec, McFilters.insert, decode_filterInsertRequest]

/-- What `sfc7120_mcdi_filter_insert` does, by the flag and the answers. -/
inductive InsertCase (sc : FilterSoftc) (mc : McFilters) : InsertReply → InsertReply →
    Option Errno × FilterSoftc × McFilters → Prop
  | present {unicast bcast} (hflag : sc.rxFilterInserted = true) :
      InsertCase sc mc unicast bcast (none, sc, mc)
  | refused {unicast bcast} (rc : Errno) (hflag : sc.rxFilterInserted = false)
      (hunicast : unicast.full = false) : InsertCase sc mc unicast bcast (some rc, sc, mc)
  | invalid {bcast} (hflag : sc.rxFilterInserted = false) :
      InsertCase sc mc (.installed invalidHandle) bcast
        (some .eio, sc, mc.report invalidHandle)
  | unicast {bcast} (handle : BitVec 64) (hflag : sc.rxFilterInserted = false)
      (hvalid : handle ≠ invalidHandle) (hbcast : bcast.full = false) :
      InsertCase sc mc (.installed handle) bcast
        (none, { sc with rxFilterHandle := handle, rxFilterInserted := true }, mc.report handle)
  | both (handle bcastHandle kept : BitVec 64) (hflag : sc.rxFilterInserted = false)
      (hvalid : handle ≠ invalidHandle) :
      InsertCase sc mc (.installed handle) (.installed bcastHandle)
        (none,
          { sc with
            rxFilterHandle := handle
            rxFilterInserted := true
            rxFilterBcastHandle := kept },
          (mc.report handle).report bcastHandle)

theorem insertCase_filterInsert (sc : FilterSoftc) (unicast bcast : InsertReply) :
    InsertCase sc mc unicast bcast (filterInsert sc mc unicast bcast) := by
  unfold filterInsert
  cases hflag : sc.rxFilterInserted with
  | true => exact .present hflag
  | false =>
    cases hunicast : unicast.full with
    | false =>
      obtain ⟨rc, hmac⟩ :=
        filterInsertMac_of_not_full mc (some sc.macAddr) matchDstMac hunicast
      simp only [hmac]
      exact .refused rc hflag hunicast
    | true =>
      cases unicast with
      | short bytes hshort => cases hunicast
      | failed rc => cases hunicast
      | installed handle =>
        rw [filterInsertMac_installed]
        by_cases hvalid : handle = invalidHandle
        · subst hvalid
          exact .invalid hflag
        · simp only [hvalid, if_false]
          cases hbcast : bcast.full with
          | false =>
            obtain ⟨rc, hmac⟩ := filterInsertMac_of_not_full (mc.report handle) none
              matchUnknownMcastDst hbcast
            simp only [hmac]
            exact .unicast handle hflag hvalid hbcast
          | true =>
            cases bcast with
            | short bytes hshort => cases hbcast
            | failed rc => cases hbcast
            | installed bcastHandle =>
              rw [filterInsertMac_installed]
              by_cases hinvalid : bcastHandle = invalidHandle
              · simp only [hinvalid, if_true]
                exact .both handle invalidHandle sc.rxFilterBcastHandle hflag hvalid
              · simp only [hinvalid, if_false]
                exact .both handle bcastHandle bcastHandle hflag hvalid

end Calls

/-! ## What is installed -/

/-- The filter that the next removal names. -/
def FilterSoftc.held (sc : FilterSoftc) : List (BitVec 64) :=
  if sc.rxFilterInserted then [sc.rxFilterHandle] else []

theorem held_of_inserted {sc : FilterSoftc} (hflag : sc.rxFilterInserted = true) :
    sc.held = [sc.rxFilterHandle] := by
  unfold FilterSoftc.held
  rw [if_pos hflag]

theorem held_of_not_inserted {sc : FilterSoftc} (hflag : sc.rxFilterInserted = false) :
    sc.held = [] := by
  unfold FilterSoftc.held
  rw [if_neg (by simp [hflag])]

/-- The filters installed are the one that is held and those left without a name.  No handle
was named more often than it was reported, and the one held once less. -/
structure Balanced (s : FilterSys) : Prop where
  installed : ∃ lost, s.mc.installed.Perm (s.sc.held ++ lost) ∧ (s.forgotten = true ↔ lost ≠ [])
  named : ∀ handle, s.mc.named.count handle + s.sc.held.count handle ≤
    s.mc.reported.count handle

variable {s : FilterSys}

theorem Balanced.forget (hbal : Balanced s) (handle : BitVec 64) (last : LastCall) :
    Balanced { s with mc := s.mc.report handle, last := last, forgotten := true } where
  installed := by
    obtain ⟨lost, hperm, -⟩ := hbal.installed
    refine ⟨handle :: lost, ?_, by simp⟩
    exact (hperm.cons handle).trans List.perm_middle.symm
  named := by
    intro handle'
    exact Nat.le_trans (hbal.named handle') List.count_le_count_cons

theorem Balanced.hold (hbal : Balanced s) (hflag : s.sc.rxFilterInserted = false)
    (handle : BitVec 64) (last : LastCall) :
    Balanced
      { s with
        sc := { s.sc with rxFilterHandle := handle, rxFilterInserted := true }
        mc := s.mc.report handle
        last := last } where
  installed := by
    obtain ⟨lost, hperm, hlost⟩ := hbal.installed
    rw [held_of_not_inserted hflag] at hperm
    exact ⟨lost, hperm.cons handle, hlost⟩
  named := by
    intro handle'
    have hle := hbal.named handle'
    rw [held_of_not_inserted hflag, List.count_nil] at hle
    change s.mc.named.count handle' + [handle].count handle' ≤
      (handle :: s.mc.reported).count handle'
    rw [List.count_singleton, List.count_cons]
    omega

theorem Balanced.release (hbal : Balanced s) (hflag : s.sc.rxFilterInserted = true)
    (reply : RemoveReply) (last : LastCall) :
    Balanced
      { sc := { s.sc with rxFilterInserted := false }
        mc := s.mc.remove (filterRemoveRequest s.sc.rxFilterHandle) reply.gone
        last := last
        forgotten := s.forgotten || !reply.gone } where
  installed := by
    obtain ⟨lost, hperm, hlost⟩ := hbal.installed
    rw [held_of_inserted hflag] at hperm
    simp only [McFilters.remove, decode_filterRemoveRequest]
    cases hgone : reply.gone with
    | true =>
      -- one entry with the held handle goes, whichever filter it belongs to
      refine ⟨lost, ?_, by simpa using hlost⟩
      have herase := hperm.erase s.sc.rxFilterHandle
      rw [List.singleton_append, List.erase_cons_head] at herase
      exact herase
    | false => exact ⟨s.sc.rxFilterHandle :: lost, hperm, by simp⟩
  named := by
    intro handle
    have hle := hbal.named handle
    rw [held_of_inserted hflag, List.count_singleton] at hle
    simp only [McFilters.remove, decode_filterRemoveRequest]
    rw [held_of_not_inserted rfl, List.count_nil, List.count_cons]
    omega

theorem Balanced.congr {s' : FilterSys} (hbal : Balanced s) (hheld : s'.sc.held = s.sc.held)
    (hmc : s'.mc = s.mc) (hforgotten : s'.forgotten = s.forgotten) : Balanced s' where
  installed := by
    rw [hmc, hheld, hforgotten]
    exact hbal.installed
  named := by
    rw [hmc, hheld]
    exact hbal.named

theorem Balanced.insert {s' : FilterSys} (hbal : Balanced s) {unicast bcast : InsertReply}
    (hstep : filterStep s (.insert unicast bcast) = some s') : Balanced s' := by
  simp only [filterStep, Option.some.injEq] at hstep
  subst hstep
  have hcase := insertCase_filterInsert s.mc s.sc unicast bcast
  generalize filterInsert s.sc s.mc unicast bcast = out at hcase
  cases hcase with
  | present hflag =>
    refine hbal.congr rfl rfl ?_
    cases unicast <;> simp [FilterSys.forgets, hflag]
  | refused rc hflag hunicast =>
    refine hbal.congr rfl rfl ?_
    cases unicast with
    | installed handle => cases hunicast
    | _ => simp [FilterSys.forgets]
  | invalid hflag =>
    refine (hbal.forget invalidHandle .none).congr rfl rfl ?_
    simp [FilterSys.forgets, hflag]
  | unicast handle hflag hvalid hbcast =>
    refine (hbal.hold hflag handle .none).congr rfl rfl ?_
    simp [FilterSys.forgets, hvalid, hbcast]
  | both handle bcastHandle kept hflag hvalid =>
    refine ((hbal.hold hflag handle .none).forget bcastHandle .none).congr rfl rfl ?_
    simp [FilterSys.forgets, hflag, InsertReply.full]

theorem Balanced.remove {s' : FilterSys} (hbal : Balanced s) {reply : RemoveReply}
    (hstep : filterStep s (.remove reply) = some s') :
    Balanced s' ∧ s'.sc.rxFilterInserted = false := by
  simp only [filterStep, Option.some.injEq] at hstep
  subst hstep
  cases hflag : s.sc.rxFilterInserted with
  | false =>
    refine ⟨hbal.congr ?_ ?_ ?_, ?_⟩
    all_goals simp [filterRemove, FilterSys.forgets, hflag]
  | true =>
    refine ⟨(hbal.release hflag reply .none).congr ?_ ?_ ?_, ?_⟩
    all_goals simp [filterRemove, FilterSys.forgets, hflag]

/-- While the flag is clear, nothing is installed exactly if nothing was left behind. -/
theorem Balanced.installed_eq_nil_iff (hbal : Balanced s)
    (hflag : s.sc.rxFilterInserted = false) : s.mc.installed = [] ↔ s.forgotten = false := by
  obtain ⟨lost, hperm, hlost⟩ := hbal.installed
  rw [held_of_not_inserted hflag, List.nil_append] at hperm
  rw [← Bool.not_eq_true, hlost, not_not]
  constructor
  · intro hnil
    rw [hnil] at hperm
    exact List.nil_perm.mp hperm
  · intro hnil
    rw [hnil] at hperm
    exact List.perm_nil.mp hperm

/-- A removal keeps the property exactly if it meets the condition. -/
theorem installed_nil_iff_nothingForgotten {s' : FilterSys} (hbal : Balanced s)
    {reply : RemoveReply} (hstep : filterStep s (.remove reply) = some s') :
    (s'.last = .remove none → s'.mc.installed = []) ↔ NothingForgotten s (.remove reply) := by
  -- the flag is clear afterwards, so only filters without a name can be left
  obtain ⟨hbal', hflag'⟩ := hbal.remove hstep
  rw [hbal'.installed_eq_nil_iff hflag']
  simp only [filterStep, Option.some.injEq] at hstep
  subst hstep
  cases hflag : s.sc.rxFilterInserted with
  | false => simp [filterRemove, NothingForgotten, FilterSys.forgets, hflag]
  | true => simp [filterRemove, NothingForgotten, FilterSys.forgets, hflag]

/-! ## Rounds -/

/-- What the runs that meet the condition keep. -/
structure FilterInv (s : FilterSys) : Prop where
  balanced : Balanced s
  installed : s.last = .remove none → s.mc.installed = []

theorem FilterInv.filtersRemoved (hinv : FilterInv s) : FiltersRemoved s where
  installed := hinv.installed
  named := by
    intro handle
    exact Nat.le_trans (Nat.le_add_right _ _) (hinv.balanced.named handle)

theorem FilterStart.inv (hstart : FilterStart s) : FilterInv s where
  balanced := by
    refine ⟨⟨[], ?_, by simp [hstart.forgotten]⟩, ?_⟩
    · rw [held_of_not_inserted hstart.inserted, hstart.installed, List.append_nil]
    · intro handle
      rw [held_of_not_inserted hstart.inserted, hstart.named]
      exact Nat.zero_le _
  installed := fun _ => hstart.installed

theorem filterInv_step (s : FilterSys) (l : FilterLabel) (s' : FilterSys) (hinv : FilterInv s)
    (hguard : NothingForgotten s l) (hstep : filterStep s l = some s') : FilterInv s' := by
  cases l with
  | insert unicast bcast =>
    refine ⟨hinv.balanced.insert hstep, ?_⟩
    cases hstep
    nofun
  | remove reply =>
    exact ⟨(hinv.balanced.remove hstep).1,
      (installed_nil_iff_nothingForgotten hinv.balanced hstep).mpr hguard⟩

theorem filterStep_total (s : FilterSys) (l : FilterLabel) : ∃ s', filterStep s l = some s' := by
  cases l with
  | insert unicast bcast => exact ⟨_, rfl⟩
  | remove reply => exact ⟨_, rfl⟩

/-- Over any number of rounds and for all answers of the controller: the filters are removed,
and no handle twice, exactly if every removal meets the condition. -/
theorem filters_removed_iff (hstart : FilterStart s) (labels : List FilterLabel) :
    Along filterStep FiltersRemoved s labels ↔ Obeys filterStep NothingForgotten s labels := by
  obtain ⟨t, hrun⟩ := exists_exec_of_total filterStep_total s labels
  refine along_iff_obeys filterInv_step (fun _ hinv => hinv.filtersRemoved) ?_ hstart.inv hrun
  intro s l s' hinv hviolated hstep hremoved
  cases l with
  | insert unicast bcast => exact hviolated trivial
  | remove reply =>
    exact hviolated
      ((installed_nil_iff_nothingForgotten hinv.balanced hstep).mp hremoved.installed)

/-- A device before its first filter. -/
def noFilters : FilterSys where
  sc :=
    { macAddr := fun _ => 0x02#8, rxFilterHandle := 0#64, rxFilterBcastHandle := 0#64
      rxFilterInserted := false }
  mc := { installed := [], reported := [], named := [] }
  last := .none
  forgotten := false

theorem filterStart_noFilters : FilterStart noFilters := ⟨rfl, rfl, rfl, rfl, rfl, rfl⟩

/-- Two rounds in which the broadcast filter is refused; the handle is used again. -/
def unicastRounds : List FilterLabel :=
  [.insert (.installed 0x100000007#64) (.failed .enosys), .remove { rc := none, gone := true },
    .insert (.installed 0x100000007#64) (.failed .enosys), .remove { rc := none, gone := true }]

/-- They leave nothing behind. -/
theorem filters_removed_unicast_rounds :
    (∃ t, exec filterStep noFilters unicastRounds = some t ∧ t.last = .remove none ∧
      t.mc.reported.length = 2) ∧ Along filterStep FiltersRemoved noFilters unicastRounds :=
  ⟨⟨_, rfl, rfl, rfl⟩, (filters_removed_iff filterStart_noFilters unicastRounds).mpr (by decide)⟩

/-- A round in which both filters are reported: the broadcast filter stays when the removal has
returned 0. -/
theorem broadcast_filter_left_installed :
    FilterStart noFilters ∧
      ∃ t, exec filterStep noFilters
          [.insert (.installed 7#64) (.installed 8#64), .remove { rc := none, gone := true }] =
            some t ∧ t.last = .remove none ∧ t.mc.installed = [8#64] ∧ ¬ FiltersRemoved t := by
  refine ⟨filterStart_noFilters, _, rfl, rfl, by decide, ?_⟩
  intro hremoved
  exact absurd (hremoved.installed rfl) (by decide)

end Mcdi
end SfcCapio
