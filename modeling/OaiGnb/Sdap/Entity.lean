import OaiGnb.Lib.Index
import Mathlib.Data.Nat.Bitwise

/-!
# SDAP entities

A PDU session has one SDAP entity at the gNB and one at the UE.  The entity maps each QoS flow to a
DRB and keeps with the flow, as a bitmap of roles, which headers the DRB has; `nrSdapTxEntity` adds
a header by the role of the flow, `nrSdapRxEntity` removes it by the role of the flow whose number
PDCP took from the first byte, or of flow 0 where the DRB has no header.

The hook that observes uplink packets, the sockets and the threads are left out.
-/

namespace OaiGnb.Sdap

/-! ### Roles and headers -/

/-- The header bits of `NR_SDAP_Config_t` as roles: UL_TX, UL_RX, DL_TX and DL_RX from bit 0 on. -/
def getSdapRole (isGnb headerUl headerDl : Bool) : ℕ :=
  (if headerUl then (if isGnb then 2 else 1) else 0) |||
    (if headerDl then (if isGnb then 4 else 8) else 0)

/-- `nr_sdap_ul_hdr_t`. -/
def ulHdr (qfi r dc : ℕ) : ℕ := qfi % 64 + 64 * (r % 2) + 128 * (dc % 2)

/-- `nr_sdap_dl_hdr_t`. -/
def dlHdr (qfi rqi rdi : ℕ) : ℕ := qfi % 64 + 64 * (rqi % 2) + 128 * (rdi % 2)

/-- `nr_sdap_construct_ctrl_pdu`. -/
def nrSdapConstructCtrlPdu (qfi : ℕ) : ℕ := ulHdr qfi 0 0

/-! ### The table of a session -/

/-- `qfi2drb_t`; DRB 0 is no mapping rule. -/
structure Qfi2drb where
  drbId : ℕ
  entityRole : ℕ
deriving DecidableEq

structure Entity where
  isGnb : Bool
  defaultDrb : ℕ
  qfi2drbTable : ℕ → Qfi2drb

/-- `sdap_config_t`. -/
structure SdapConfig where
  pdusessionId : ℕ
  drbId : ℕ
  role : ℕ
  defaultDrb : Bool
  mappedQfis2Add : List ℕ
  mappedQfis2Release : List ℕ

/-- `NR_SDAP_Config_t`. -/
structure RrcSdapConfig where
  pduSession : ℕ
  sdapHeaderDl : Bool
  sdapHeaderUl : Bool
  defaultDrb : Bool
  mappedQosFlowsToAdd : List ℕ
  mappedQosFlowsToRelease : List ℕ

def nrSdapGetConfig (isGnb : Bool) (cfg : RrcSdapConfig) (drbId : ℕ) : SdapConfig where
  pdusessionId := cfg.pduSession
  drbId := drbId
  role := getSdapRole isGnb cfg.sdapHeaderUl cfg.sdapHeaderDl
  defaultDrb := cfg.defaultDrb
  mappedQfis2Add := cfg.mappedQosFlowsToAdd
  mappedQfis2Release := cfg.mappedQosFlowsToRelease

/-- Set the entry of a flow. -/
def Entity.setFlow (e : Entity) (qfi : ℕ) (entry : Qfi2drb) : Entity :=
  { e with qfi2drbTable := Function.update e.qfi2drbTable qfi entry }

def nrSdapQfi2drbMapAdd (e : Entity) (qfi drbId role : ℕ) : Entity := e.setFlow qfi ⟨drbId, role⟩

/-- The role of the flow stays. -/
def nrSdapQfi2drbMapDel (e : Entity) (qfi : ℕ) : Entity :=
  e.setFlow qfi ⟨0, (e.qfi2drbTable qfi).entityRole⟩

def nrSdapQfi2drb (e : Entity) (qfi : ℕ) : ℕ :=
  if (e.qfi2drbTable qfi).drbId ≠ 0 then (e.qfi2drbTable qfi).drbId else e.defaultDrb

/-- A control PDU for a DRB, unless there is none. -/
def nrSdapSubmitCtrlPdu (drbId ctrlPdu : ℕ) : List (ℕ × ℕ) :=
  if drbId ≠ 0 then [(drbId, ctrlPdu)] else []

/-- `nr_sdap_ue_control_pdu_config`: the end markers, with their DRBs. -/
def nrSdapUeControlPduConfig (e : Entity) (sdap : SdapConfig) : List (ℕ × ℕ) :=
  sdap.mappedQfis2Add.flatMap fun qfi =>
    (if e.defaultDrb ≠ 0 ∧ (e.qfi2drbTable qfi).drbId = 0 then
      nrSdapSubmitCtrlPdu e.defaultDrb (nrSdapConstructCtrlPdu qfi) else []) ++
    (if (e.qfi2drbTable qfi).drbId ≠ sdap.drbId ∧ (e.qfi2drbTable qfi).entityRole.testBit 0 then
      nrSdapSubmitCtrlPdu (nrSdapQfi2drb e qfi) (nrSdapConstructCtrlPdu qfi) else [])

def nrSdapAddQosFlowsToDrb (e : Entity) (sdap : SdapConfig) : Entity :=
  sdap.mappedQfis2Add.foldl (fun e qfi =>
    if qfi < 64 ∧ 0 < sdap.drbId ∧ sdap.drbId ≤ 32 then
      nrSdapQfi2drbMapAdd e qfi sdap.drbId sdap.role
    else e) e

def nrSdapRmQosFlowsFromDrb (e : Entity) (sdap : SdapConfig) : Entity :=
  sdap.mappedQfis2Release.foldl nrSdapQfi2drbMapDel e

/-- `nr_sdap_qfi2drb_map_update`, with the control PDUs of the UE. -/
def nrSdapQfi2drbMapUpdate (e : Entity) (sdap : SdapConfig) : Entity × List (ℕ × ℕ) :=
  (nrSdapRmQosFlowsFromDrb (nrSdapAddQosFlowsToDrb e sdap) sdap,
    if e.isGnb then [] else nrSdapUeControlPduConfig e sdap)

def nrSdapAddEntity (isGnb : Bool) (sdap : SdapConfig) : Entity :=
  nrSdapAddQosFlowsToDrb
    ⟨isGnb, if sdap.defaultDrb then sdap.drbId else 0, fun _ => ⟨0, 0⟩⟩ sdap

/-- The entities of a UE by PDU session. -/
abbrev Entities := ℕ → Option Entity

def nrSdapAddmodEntity (isGnb : Bool) (es : Entities) (sdap : SdapConfig) :
    Entities × List (ℕ × ℕ) :=
  match es sdap.pdusessionId with
  | some e =>
      (Function.update es sdap.pdusessionId (some (nrSdapQfi2drbMapUpdate e sdap).1),
        (nrSdapQfi2drbMapUpdate e sdap).2)
  | none => (Function.update es sdap.pdusessionId (some (nrSdapAddEntity isGnb sdap)), [])

/-- `nr_reconfigure_sdap_entity`, of the UE. -/
def nrReconfigureSdapEntity (es : Entities) (sdap : SdapConfig) : Entities × List (ℕ × ℕ) :=
  match es sdap.pdusessionId with
  | some e =>
      (Function.update es sdap.pdusessionId (some (nrSdapQfi2drbMapUpdate e sdap).1),
        (nrSdapQfi2drbMapUpdate e sdap).2)
  | none => (es, [])

variable {es : Entities} {sdap : SdapConfig}

theorem nrSdapAddmodEntity_some {isGnb : Bool} {e : Entity} (h : es sdap.pdusessionId = some e) :
    (nrSdapAddmodEntity isGnb es sdap).1
      = Function.update es sdap.pdusessionId (some (nrSdapQfi2drbMapUpdate e sdap).1) := by
  unfold nrSdapAddmodEntity
  rw [h]

theorem nrSdapAddmodEntity_none {isGnb : Bool} (h : es sdap.pdusessionId = none) :
    (nrSdapAddmodEntity isGnb es sdap).1
      = Function.update es sdap.pdusessionId (some (nrSdapAddEntity isGnb sdap)) := by
  unfold nrSdapAddmodEntity
  rw [h]

theorem nrReconfigureSdapEntity_some {e : Entity} (h : es sdap.pdusessionId = some e) :
    (nrReconfigureSdapEntity es sdap).1
      = Function.update es sdap.pdusessionId (some (nrSdapQfi2drbMapUpdate e sdap).1) := by
  unfold nrReconfigureSdapEntity
  rw [h]

/-- The rules for a DRB go, the roles stay. -/
def Entity.dropDrb (e : Entity) (drbId : ℕ) : Entity :=
  { e with qfi2drbTable := fun qfi =>
      if qfi < 64 ∧ (e.qfi2drbTable qfi).drbId = drbId then ⟨0, (e.qfi2drbTable qfi).entityRole⟩
      else e.qfi2drbTable qfi }

def nrSdapReleaseDrb (es : Entities) (drbId pdusessionId : ℕ) : Entities :=
  match es pdusessionId with
  | some e => Function.update es pdusessionId (some (e.dropDrb drbId))
  | none => es

theorem nrSdapReleaseDrb_eq (es : Entities) (drbId pdusessionId : ℕ) :
    nrSdapReleaseDrb es drbId pdusessionId
      = Function.update es pdusessionId ((es pdusessionId).map fun e => e.dropDrb drbId) := by
  unfold nrSdapReleaseDrb
  cases h : es pdusessionId with
  | some e => rfl
  | none => exact (Function.update_eq_self_iff.mpr h.symm).symm

/-! ### Data -/

/-- `nr_sdap_tx_entity`: the DRB and the PDU for PDCP. -/
def nrSdapTxEntity (e : Entity) (sdu : List ℕ) (qfi : ℕ) (rqi : Bool) : Option (ℕ × List ℕ) :=
  let drbId := nrSdapQfi2drb e qfi
  let sdapUlTx := (e.qfi2drbTable qfi).entityRole.testBit 0
  let sdapDlTx := (e.qfi2drbTable qfi).entityRole.testBit 2
  if drbId = 0 then none
  else if !sdapUlTx && !sdapDlTx then some (drbId, sdu)
  else if sdu.length = 0 ∨ 8999 < sdu.length then none
  else if sdapDlTx then some (drbId, dlHdr qfi rqi.toNat 0 :: sdu)
  else some (drbId, ulHdr qfi 0 rqi.toNat :: sdu)

/-- What `nr_sdap_rx_entity` does: its table, the SDU for the upper layer and control PDUs. -/
structure Received where
  entity : Entity
  sdu : List ℕ
  ctrlPdus : List (ℕ × ℕ)

/-- Reflective mapping for the flow of a DL header. -/
def reflectiveMapping (e : Entity) (pdcpEntity qfi : ℕ) : Entity × List (ℕ × ℕ) :=
  (e.setFlow qfi ⟨pdcpEntity, (e.qfi2drbTable qfi).entityRole⟩,
    (if (e.qfi2drbTable qfi).drbId = 0 ∧ e.defaultDrb ≠ 0 then
      nrSdapSubmitCtrlPdu e.defaultDrb (nrSdapConstructCtrlPdu qfi) else []) ++
    (if pdcpEntity ≠ (e.qfi2drbTable qfi).drbId then
      nrSdapSubmitCtrlPdu (nrSdapQfi2drb e qfi) (nrSdapConstructCtrlPdu qfi) else []))

/-- `nr_sdap_rx_entity`.  A header that is read from an empty buffer is `none`. -/
def nrSdapRxEntity (e : Entity) (pdcpEntity : ℕ) (isGnb hasSdapRx : Bool) (qfi : ℕ)
    (buf : List ℕ) : Option Received :=
  let sdapUlRx := decide (qfi < 64) && (e.qfi2drbTable qfi).entityRole.testBit 1
  let sdapDlRx := decide (qfi < 64) && (e.qfi2drbTable qfi).entityRole.testBit 3
  if isGnb then
    if hasSdapRx && sdapUlRx then
      match buf with
      | [] => none
      -- a control PDU is only logged
      | _ :: rest => some ⟨e, rest, []⟩
    else some ⟨e, buf, []⟩
  else if sdapDlRx then
    match buf with
    | [] => none
    | hdr :: rest =>
        if hdr / 128 % 2 = 1 then
          some ⟨(reflectiveMapping e pdcpEntity (hdr % 64)).1, rest,
            (reflectiveMapping e pdcpEntity (hdr % 64)).2⟩
        else some ⟨e, rest, []⟩
  else some ⟨e, buf, []⟩

/-! ### One side: SDAP over PDCP -/

/-- What PDCP keeps of a DRB. -/
structure PdcpDrb where
  pdusessionId : ℕ
  hasSdapRx : Bool
  hasSdapTx : Bool
deriving DecidableEq

structure Side where
  sdap : Entities
  pdcp : ℕ → Option PdcpDrb

/-- `nr_pdcp_add_drb`: a DRB that exists is left as it is. -/
def nrPdcpAddDrb (pdcp : ℕ → Option PdcpDrb) (sdap : SdapConfig) : ℕ → Option PdcpDrb :=
  match pdcp sdap.drbId with
  | some _ => pdcp
  | none => Function.update pdcp sdap.drbId
      (some ⟨sdap.pdusessionId, sdap.role.testBit 1 || sdap.role.testBit 3,
        sdap.role.testBit 0 || sdap.role.testBit 2⟩)

/-- A DRB of a reconfiguration: `e1_add_bearers` of the gNB, and
`nr_rrc_ue_process_RadioBearerConfig` of the UE, which keeps apart the DRBs it has. -/
def addBearer (isGnb : Bool) (s : Side) (drbId : ℕ) (cfg : RrcSdapConfig) :
    Side × List (ℕ × ℕ) :=
  let sdap := nrSdapGetConfig isGnb cfg drbId
  if !isGnb && (s.pdcp drbId).isSome then
    (⟨(nrReconfigureSdapEntity s.sdap sdap).1, s.pdcp⟩, (nrReconfigureSdapEntity s.sdap sdap).2)
  else
    (⟨(nrSdapAddmodEntity isGnb s.sdap sdap).1, nrPdcpAddDrb s.pdcp sdap⟩,
      (nrSdapAddmodEntity isGnb s.sdap sdap).2)

/-- `nr_pdcp_release_drb`. -/
def releaseDrb (s : Side) (drbId : ℕ) : Side :=
  match s.pdcp drbId with
  | some drb =>
      ⟨nrSdapReleaseDrb s.sdap drbId drb.pdusessionId, Function.update s.pdcp drbId none⟩
  | none => s

/-- `sdap_data_req` and `nr_pdcp_data_req_drb`: the PDU that goes out, and on which DRB. -/
def dataReq (s : Side) (pdusessionId : ℕ) (sdu : List ℕ) (qfi : ℕ) (rqi : Bool) :
    Option (ℕ × List ℕ) := do
  let e ← s.sdap pdusessionId
  let (drbId, pdu) ← nrSdapTxEntity e sdu qfi rqi
  let _ ← s.pdcp drbId
  return (drbId, pdu)

/-- The flow that `deliver_sdu_drb` takes from the first byte. -/
def deliveredQfi (drb : PdcpDrb) : List ℕ → ℕ
  | [] => 0
  | hdr :: _ => if drb.hasSdapRx then hdr % 64 else 0

/-- `deliver_sdu_drb` and `sdap_data_ind`; nothing is handed up without DRB or entity. -/
def dataInd (isGnb : Bool) (s : Side) (drbId : ℕ) (buf : List ℕ) : Option (Option Received) :=
  match s.pdcp drbId with
  | none => some none
  | some drb =>
      match s.sdap drb.pdusessionId with
      | none => some none
      | some e =>
          (nrSdapRxEntity e drbId isGnb drb.hasSdapRx (deliveredQfi drb buf) buf).map some

end OaiGnb.Sdap
