import OaiGnb.Lib.Run
import OaiGnb.Lib.SortedList

/-!
# The CU-CP's registry of DUs and CU-UPs

The CU-CP keeps the DUs and the CU-UPs that passed their setup in two red-black trees keyed by
the SCTP association, with a counter beside each, and a table with one entry per UE that names
the UE's DU and CU-UP by association.  `step` is one handler of F1, E1 or UE management.

* `reachable_consistent`: the counters count the trees, no two DUs share an identifier, every
  node that was sent a setup response is registered, and every UE's CU-UP is, as long as no setup
  is accepted on an association that has a node and no update takes a cell of another DU.
-/

namespace OaiGnb.Rrc

open Run SortedList

inductive Fault
  | assertFatal
  | segmentationFault
  | divisionByZero
  deriving DecidableEq

/-! ### Messages -/

structure PlmnId where
  mcc : ℕ
  mnc : ℕ
  mncDigitLength : ℕ
  deriving DecidableEq

/-- `f1ap_mode_t` with the band and the subcarrier spacing of the downlink. -/
inductive F1apMode
  | tdd (band scs : ℕ)
  | fdd (dlBand dlScs : ℕ)

/-- `f1ap_served_cell_info_t`; `mtc` is what `extract_mtc` reads from the encoded measurement
timing configuration, the SSB frequency of its first entry. -/
structure F1apServedCellInfo where
  plmn : PlmnId
  nrCellid : ℕ
  nrPci : ℕ
  tac : Option ℕ
  mode : F1apMode
  mtc : Option ℤ

def getDlBand (cellInfo : F1apServedCellInfo) : ℕ :=
  match cellInfo.mode with
  | .tdd band _ => band
  | .fdd dlBand _ => dlBand

def getSsbScs (cellInfo : F1apServedCellInfo) : ℕ :=
  match cellInfo.mode with
  | .tdd _ scs => scs
  | .fdd _ dlScs => dlScs

/-- `f1ap_gnb_du_system_info_t`: which blocks are present, and whether they decode. -/
structure F1apGnbDuSystemInfo where
  mib : Option Bool
  sib1 : Option Bool

structure F1apSetupReq where
  transactionId : ℕ
  gnbDuId : ℕ
  cell : List (F1apServedCellInfo × Option F1apGnbDuSystemInfo)

structure CellToModify where
  oldNrCellid : ℕ
  info : F1apServedCellInfo

structure F1apGnbDuConfigurationUpdate where
  transactionId : ℕ
  cellToModify : List CellToModify

structure E1apNssai where
  sst : ℤ
  sd : ℤ

structure E1apSetupReq where
  transacId : ℕ
  gnbCuUpId : ℕ
  plmn : List (PlmnId × List E1apNssai)

inductive F1apCause
  | gnbCuCellCapacityExceeded
  | plmnNotServedByTheGnbCu
  | miscUnspecified
  | semanticError
  deriving DecidableEq

inductive E1apCause
  | unknownAlreadyAllocatedGnbCuUpUeE1apId
  | other
  deriving DecidableEq

inductive Message
  | f1SetupFailure (assocId : ℤ) (cause : F1apCause)
  | f1SetupResponse (assocId : ℤ) (transactionId : ℕ) (plmn : PlmnId) (nrCellid nrpci : ℕ)
  | gnbDuConfigurationUpdateAcknowledge (assocId : ℤ) (transactionId : ℕ)
  | f1Reset (assocId : ℤ)
  | e1apSetupFail (assocId : ℤ) (transacId : ℕ) (cause : E1apCause)
  | e1apSetupResp (assocId : ℤ) (transacId : ℕ)
  | ngapUeContextReleaseReq (ueId : ℕ)

/-! ### The state of the CU-CP -/

structure NrNeighbourCell where
  nrcellId : ℕ
  physicalCellId : ℕ
  tac : ℕ
  absoluteFrequencySsb : ℤ
  band : ℕ
  subcarrierSpacing : ℕ
  plmn : PlmnId

/-- What the configuration files fix; `sibs` are the types of the SIBs the CU encodes. -/
structure Config where
  saMode : Bool
  numPlmn : ℕ
  plmn : ℕ → PlmnId
  neighbourCellConfiguration : Option (List (List NrNeighbourCell))
  sibs : List ℕ

structure NrRrcDuContainer where
  assocId : ℤ
  gnbDuId : ℕ
  cell : F1apServedCellInfo

structure NrRrcCuupContainer where
  assocId : ℤ
  setupReq : E1apSetupReq

structure F1UeData where
  secondaryUe : ℕ
  duAssocId : ℤ
  e1AssocId : ℤ

/-- `rrc_ue_head`, by UE identifier, and `cu2du_ue_mapping`. -/
structure UeTable where
  ids : List ℕ
  data : ℕ → Option F1UeData

/-- `gNB_RRC_INST`: a tree is the list of its nodes in the order `RB_FOREACH` visits them. -/
structure GnbRrcInst where
  dus : List NrRrcDuContainer
  numDus : ℕ
  cuups : List NrRrcCuupContainer
  numCuups : ℕ
  ues : UeTable

/-- `RB_INSERT`: where the tree has a node with the key, the new node is not linked. -/
def rbInsert {α : Type} (key : α → ℤ) (x : α) (t : List α) : List α :=
  if t.any (fun y => key y == key x) then t else insertBefore (fun y => key x < key y) x t

/-! ### The UE table -/

def cuGetF1UeData (t : UeTable) (ueId : ℕ) : Except Fault F1UeData :=
  match t.data ueId with
  | some d => .ok d
  | none => .error .assertFatal

def cuUpdateF1UeData (t : UeTable) (ueId : ℕ) (d : F1UeData) : UeTable :=
  { t with data := Function.update t.data ueId (some d) }

def rrcRemoveUe (t : UeTable) (ueId : ℕ) : UeTable :=
  { ids := t.ids.filter (· ≠ ueId), data := Function.update t.data ueId none }

/-- `rrc_gNB_create_ue_context` with the identifier that the allocator hands out. -/
def rrcGnbCreateUeContext (t : UeTable) (assocId : ℤ) (ueId duUeId : ℕ) :
    Except Fault UeTable :=
  if (t.data ueId).isSome then .error .assertFatal
  else
    .ok { ids := rbInsert (fun i : ℕ => (i : ℤ)) ueId t.ids,
          data := Function.update t.data ueId (some ⟨duUeId, assocId, 0⟩) }

/-- The walks over the UE tree: look up every UE's data, and where `hit` holds of it, write
`upd` of it back and note the UE. -/
def walkUes (hit : F1UeData → Bool) (upd : F1UeData → F1UeData) :
    List ℕ → UeTable → Except Fault (UeTable × List (ℕ × F1UeData))
  | [], t => .ok (t, [])
  | ueId :: ids, t => do
      let d ← cuGetF1UeData t ueId
      if hit d then
        let (t', noted) ← walkUes hit upd ids (cuUpdateF1UeData t ueId (upd d))
        return (t', (ueId, d) :: noted)
      else walkUes hit upd ids t

/-- `invalidate_du_connections`: in SA mode the UEs lose their DU and the AMF is asked to release
them, otherwise they are removed. -/
def invalidateDuConnections (cfg : Config) (assocId : ℤ) (t : UeTable) :
    Except Fault (UeTable × List Message) := do
  let (t', noted) ← walkUes (fun d => d.duAssocId = assocId)
    (fun d => if cfg.saMode then { d with duAssocId := 0 } else d) t.ids t
  if cfg.saMode then return (t', noted.map fun u => .ngapUeContextReleaseReq u.1)
  else return (noted.foldl (fun t u => rrcRemoveUe t u.1) t', [])

/-- `remove_unassociated_e1_connections`: UEs without a CU-UP are removed, and their DUs reset. -/
def removeUnassociatedE1Connections (t : UeTable) : Except Fault (UeTable × List Message) := do
  let (t', noted) ← walkUes (fun d => d.e1AssocId = 0) id t.ids t
  return (noted.foldl (fun t u => rrcRemoveUe t u.1) t',
    noted.map (fun u => .ngapUeContextReleaseReq u.1) ++
      (noted.map fun u => u.2.duAssocId).eraseDups.map .f1Reset)

def invalidateCuupConnections (e1AssocId : ℤ) (t : UeTable) : Except Fault UeTable := do
  let (t', _) ← walkUes (fun d => d.e1AssocId = e1AssocId) (fun d => { d with e1AssocId := 0 })
    t.ids t
  return t'

/-! ### F1 -/

def rrcGnbPlmnMatches (cfg : Config) (info : F1apServedCellInfo) : Bool :=
  cfg.numPlmn = 1 ∧ (cfg.plmn 0).mcc = info.plmn.mcc ∧ (cfg.plmn 0).mnc = info.plmn.mnc

def extractSysInfo (sysInfo : F1apGnbDuSystemInfo) : Bool :=
  sysInfo.mib = some true ∧ sysInfo.sib1 ≠ some false

def validDuInNeighbourConfigs (neighbourCellConfiguration : List (List NrNeighbourCell))
    (cell : F1apServedCellInfo) (ssbArfcn : ℤ) : Bool :=
  neighbourCellConfiguration.all fun neighbourCells => neighbourCells.all fun nc =>
    nc.nrcellId ≠ cell.nrCellid ∨
      (nc.physicalCellId = cell.nrPci ∧ (∀ tac ∈ cell.tac, nc.tac = tac) ∧
        ssbArfcn = nc.absoluteFrequencySsb ∧ getDlBand cell = nc.band ∧
        getSsbScs cell = nc.subcarrierSpacing ∧ cell.plmn = nc.plmn)

/-- The checks on an F1 setup request: the cause it is refused for, or `none`. -/
def f1SetupVerdict (cfg : Config) (rrc : GnbRrcInst) (req : F1apSetupReq) :
    Except Fault (Option F1apCause) :=
  match req.cell with
  | [(cellInfo, sysInfo)] =>
    if !rrcGnbPlmnMatches cfg cellInfo then .ok (some .plmnNotServedByTheGnbCu)
    else if rrc.dus.any fun it => it.gnbDuId = req.gnbDuId ∨
        it.cell.nrCellid = cellInfo.nrCellid ∨ it.cell.nrPci = cellInfo.nrPci then
      .ok (some .miscUnspecified)
    else do
      let valid ← match cfg.neighbourCellConfiguration, cellInfo.mtc with
        | none, _ => .ok true
        | some _, none => .error .segmentationFault
        | some ns, some ssbArfcn => .ok (validDuInNeighbourConfigs ns cellInfo ssbArfcn)
      if !valid then return some .miscUnspecified
      else match sysInfo with
        | none => return none
        | some s =>
          if s.mib.isSome ∧ ¬(s.sib1 = none ∧ cfg.saMode) ∧ !extractSysInfo s then
            return some .semanticError
          else return none
  | _ => .ok (some .gnbCuCellCapacityExceeded)

/-- The SIBs encoded for the response: only SIB2 is known, and it is made from the MTC. -/
def encodeSibs (mtc : Option ℤ) : List ℕ → Except Fault Unit
  | [] => .ok ()
  | 2 :: sibs => if mtc.isNone then .error .segmentationFault else encodeSibs mtc sibs
  | _ :: _ => .error .assertFatal

def rrcGnbProcessF1SetupReq (cfg : Config) (rrc : GnbRrcInst) (assocId : ℤ) (req : F1apSetupReq) :
    Except Fault (GnbRrcInst × List Message) :=
  if assocId = 0 then .error .assertFatal
  else do
    match ← f1SetupVerdict cfg rrc req, req.cell with
    | none, (cellInfo, _) :: _ =>
      encodeSibs cellInfo.mtc cfg.sibs
      return ({ rrc with dus := rbInsert (·.assocId) ⟨assocId, req.gnbDuId, cellInfo⟩ rrc.dus,
                         numDus := rrc.numDus + 1 },
        [.f1SetupResponse assocId req.transactionId cellInfo.plmn cellInfo.nrCellid cellInfo.nrPci])
    | none, [] => .error .assertFatal
    | some cause, _ => return (rrc, [.f1SetupFailure assocId cause])

/-- `update_cell_info` on the node of an association. -/
def updateCellInfo (assocId : ℤ) (newCi : F1apServedCellInfo) (du : NrRrcDuContainer) :
    NrRrcDuContainer :=
  if du.assocId = assocId then { du with cell := newCi } else du

def rrcGnbProcessF1DuConfigurationUpdate (cfg : Config) (rrc : GnbRrcInst) (assocId : ℤ)
    (confUp : F1apGnbDuConfigurationUpdate) : Except Fault (GnbRrcInst × List Message) :=
  if assocId = 0 then .error .assertFatal
  else
    match rrc.dus.find? fun du => du.assocId = assocId, confUp.cellToModify with
    | none, _ => .ok (rrc, [])
    | some _, [] =>
      .ok (rrc, [.gnbDuConfigurationUpdateAcknowledge assocId confUp.transactionId])
    | some du, [m] =>
      if du.cell.nrCellid ≠ m.oldNrCellid ∨ !rrcGnbPlmnMatches cfg m.info then .ok (rrc, [])
      else
        .ok ({ rrc with dus := rrc.dus.map (updateCellInfo assocId m.info) },
          [.gnbDuConfigurationUpdateAcknowledge assocId confUp.transactionId])
    | some _, _ :: _ :: _ => .error .assertFatal

def rrcCuProcessF1LostConnection (cfg : Config) (rrc : GnbRrcInst) (assocId : ℤ) :
    Except Fault (GnbRrcInst × List Message) :=
  if assocId = 0 then .error .assertFatal
  else if !rrc.dus.any fun du => du.assocId = assocId then .ok (rrc, [])
  else do
    let (ues, out) ← invalidateDuConnections cfg assocId rrc.ues
    return ({ rrc with dus := rrc.dus.eraseP fun du => du.assocId = assocId,
                       numDus := rrc.numDus - 1, ues := ues }, out)

/-! ### E1 -/

def plmnListMaxSize : ℕ := 6

/-- The checks on an E1 setup request: the cause it is refused for, or `none`. -/
def e1SetupVerdict (cfg : Config) (rrc : GnbRrcInst) (req : E1apSetupReq) : Option E1apCause :=
  if rrc.cuups.any fun c => c.setupReq.gnbCuUpId = req.gnbCuUpId then
    some .unknownAlreadyAllocatedGnbCuUpUeE1apId
  else if req.plmn.zipIdx.any fun p =>
      (cfg.plmn p.2).mcc ≠ p.1.1.mcc ∨ (cfg.plmn p.2).mnc ≠ p.1.1.mnc then
    some .other
  else none

def rrcGnbProcessE1SetupReq (cfg : Config) (rrc : GnbRrcInst) (assocId : ℤ) (req : E1apSetupReq) :
    Except Fault (GnbRrcInst × List Message) :=
  if plmnListMaxSize < req.plmn.length then .error .assertFatal
  else
    match e1SetupVerdict cfg rrc req with
    | some cause => .ok (rrc, [.e1apSetupFail assocId req.transacId cause])
    | none => do
      let (ues, out) ← removeUnassociatedE1Connections rrc.ues
      return ({ rrc with cuups := rbInsert (·.assocId) ⟨assocId, req⟩ rrc.cuups,
                         numCuups := rrc.numCuups + 1, ues := ues },
        out ++ [.e1apSetupResp assocId req.transacId])

def rrcGnbProcessE1LostConnection (rrc : GnbRrcInst) (assocId : ℤ) :
    Except Fault (GnbRrcInst × List Message) :=
  if assocId = 0 then .error .assertFatal
  else do
    let ues ← invalidateCuupConnections assocId rrc.ues
    if !rrc.cuups.any fun c => c.assocId = assocId then return ({ rrc with ues := ues }, [])
    else
      return ({ rrc with cuups := rrc.cuups.eraseP fun c => c.assocId = assocId,
                         numCuups := rrc.numCuups - 1, ues := ues }, [])

/-- `select_cuup_slice`: the first CU-UP with the slice, or else the first with its SST. -/
def selectCuupSlice (t : List NrRrcCuupContainer) (sst sd : ℤ) : Option NrRrcCuupContainer :=
  let offers (p : E1apNssai → Bool) (cuup : NrRrcCuupContainer) :=
    cuup.setupReq.plmn.any fun plmn => plmn.2.any p
  match t.find? (offers fun nssai => nssai.sst = sst ∧ nssai.sd = sd) with
  | some cuup => some cuup
  | none => t.find? (offers fun nssai => nssai.sst = sst)

def selectCuupRoundRobin (nT : ℕ) (t : List NrRrcCuupContainer) (ueId : ℕ) :
    Except Fault (Option NrRrcCuupContainer) :=
  if nT = 0 then .error .divisionByZero else .ok t[((ueId + 2 ^ 32 - 1) % 2 ^ 32) % nT]?

/-- The selection by slice, if there is slice information, and then by turn. -/
def selectCuup (rrc : GnbRrcInst) (ueId : ℕ) (sst sd : ℤ) :
    Except Fault (Option NrRrcCuupContainer) :=
  match if sst ≠ 0 then selectCuupSlice rrc.cuups sst sd else none with
  | some cuup => .ok (some cuup)
  | none => selectCuupRoundRobin rrc.numCuups rrc.cuups ueId

/-- `get_new_cuup_for_ue`; `root` is the place of the tree's root among its nodes, which depends
on how the tree was balanced. -/
def getNewCuupForUe (rrc : GnbRrcInst) (ueId : ℕ) (sst sd : ℤ) (root : ℕ) :
    Except Fault GnbRrcInst := do
  let ueData ← cuGetF1UeData rrc.ues ueId
  if ueData.e1AssocId ≠ 0 ∨ rrc.cuups = [] then return rrc
  else
    match (← selectCuup rrc ueId sst sd).or rrc.cuups[root]? with
    | some cuup =>
      return { rrc with
        ues := cuUpdateF1UeData rrc.ues ueId { ueData with e1AssocId := cuup.assocId } }
    | none => .error .assertFatal

/-! ### Events -/

inductive Event
  | f1SetupReq (assocId : ℤ) (req : F1apSetupReq)
  | f1DuConfigurationUpdate (assocId : ℤ) (confUp : F1apGnbDuConfigurationUpdate)
  | f1LostConnection (assocId : ℤ)
  | e1SetupReq (assocId : ℤ) (req : E1apSetupReq)
  | e1LostConnection (assocId : ℤ)
  | createUe (assocId : ℤ) (ueId duUeId : ℕ)
  | removeUe (ueId : ℕ)
  | assignCuup (ueId : ℕ) (sst sd : ℤ) (root : ℕ)

def step (cfg : Config) (rrc : GnbRrcInst) : Event → Except Fault (GnbRrcInst × List Message)
  | .f1SetupReq assocId req => rrcGnbProcessF1SetupReq cfg rrc assocId req
  | .f1DuConfigurationUpdate assocId confUp =>
    rrcGnbProcessF1DuConfigurationUpdate cfg rrc assocId confUp
  | .f1LostConnection assocId => rrcCuProcessF1LostConnection cfg rrc assocId
  | .e1SetupReq assocId req => rrcGnbProcessE1SetupReq cfg rrc assocId req
  | .e1LostConnection assocId => rrcGnbProcessE1LostConnection rrc assocId
  | .createUe assocId ueId duUeId => do
    return ({ rrc with ues := ← rrcGnbCreateUeContext rrc.ues assocId ueId duUeId }, [])
  | .removeUe ueId => .ok ({ rrc with ues := rrcRemoveUe rrc.ues ueId }, [])
  | .assignCuup ueId sst sd root => do return (← getNewCuupForUe rrc ueId sst sd root, [])

/-- The CU-CP together with the nodes that were sent a setup response and have not been lost
since, each as its association and its identifier. -/
structure Registry where
  rrc : GnbRrcInst
  duAnswered : List (ℤ × ℕ)
  cuupAnswered : List (ℤ × ℕ)

def Registry.start : Registry := ⟨⟨[], 0, [], 0, ⟨[], fun _ => none⟩⟩, [], []⟩

def Registry.answer (s : Registry) (rrc : GnbRrcInst) (out : List Message) : Event → Registry
  | .f1SetupReq assocId req =>
    if out.any (fun m => m matches .f1SetupResponse ..) then
      { s with rrc := rrc, duAnswered := (assocId, req.gnbDuId) :: s.duAnswered }
    else { s with rrc := rrc }
  | .f1LostConnection assocId =>
    { s with rrc := rrc, duAnswered := s.duAnswered.filter (·.1 ≠ assocId) }
  | .e1SetupReq assocId req =>
    if out.any (fun m => m matches .e1apSetupResp ..) then
      { s with rrc := rrc, cuupAnswered := (assocId, req.gnbCuUpId) :: s.cuupAnswered }
    else { s with rrc := rrc }
  | .e1LostConnection assocId =>
    { s with rrc := rrc, cuupAnswered := s.cuupAnswered.filter (·.1 ≠ assocId) }
  | _ => { s with rrc := rrc }

def Registry.step (cfg : Config) (s : Registry) (e : Event) :
    Except Fault (Registry × List Message) := do
  let (rrc, out) ← Rrc.step cfg s.rrc e
  return (s.answer rrc out e, out)

def Event.nonZero : Event → Bool
  | .f1SetupReq assocId _ => assocId ≠ 0
  | .f1DuConfigurationUpdate assocId _ => assocId ≠ 0
  | .f1LostConnection assocId => assocId ≠ 0
  | .e1SetupReq assocId _ => assocId ≠ 0
  | .e1LostConnection assocId => assocId ≠ 0
  | .createUe assocId _ _ => assocId ≠ 0
  | _ => true

/-- No setup is accepted on an association that has a node, and no update that takes effect
gives a DU the cell identifier or the PCI of another one. -/
def Registry.Fresh (cfg : Config) (s : Registry) : Event → Prop
  | .f1SetupReq assocId req =>
    match f1SetupVerdict cfg s.rrc req with
    | .ok none => ∀ du ∈ s.rrc.dus, du.assocId ≠ assocId
    | _ => True
  | .f1DuConfigurationUpdate assocId confUp =>
    ∀ du ∈ s.rrc.dus, ∀ m ∈ confUp.cellToModify, du.assocId = assocId →
      du.cell.nrCellid = m.oldNrCellid → rrcGnbPlmnMatches cfg m.info →
      ∀ it ∈ s.rrc.dus, it.assocId ≠ assocId →
        it.cell.nrCellid ≠ m.info.nrCellid ∧ it.cell.nrPci ≠ m.info.nrPci
  | .e1SetupReq assocId req =>
    e1SetupVerdict cfg s.rrc req = none → ∀ c ∈ s.rrc.cuups, c.assocId ≠ assocId
  | _ => True

instance (cfg : Config) (s : Registry) (e : Event) : Decidable (s.Fresh cfg e) := by
  unfold Registry.Fresh
  split
  · split <;> infer_instance
  all_goals infer_instance

/-! ### Consistency -/

/-- Two DUs that share nothing that identifies them. -/
def NrRrcDuContainer.Apart (a b : NrRrcDuContainer) : Prop :=
  a.assocId ≠ b.assocId ∧ a.gnbDuId ≠ b.gnbDuId ∧ a.cell.nrCellid ≠ b.cell.nrCellid ∧
    a.cell.nrPci ≠ b.cell.nrPci

/-- Every UE's data exists and meets `Q`. -/
def UeTable.All (t : UeTable) (Q : ℕ → F1UeData → Prop) : Prop :=
  ∀ ueId ∈ t.ids, ∃ d, t.data ueId = some d ∧ Q ueId d

/-- No CU-UP, or a registered one. -/
def Bound (cuups : List NrRrcCuupContainer) (d : F1UeData) : Prop :=
  d.e1AssocId = 0 ∨ ∃ c ∈ cuups, c.assocId = d.e1AssocId

/-- The counter counts the tree, and every node answered is in it. -/
structure Registered {α : Type} (key : α → ℤ) (ident : α → ℕ) (t : List α) (n : ℕ)
    (answered : List (ℤ × ℕ)) : Prop where
  count : n = t.length
  answered : ∀ p ∈ answered, ∃ x ∈ t, key x = p.1 ∧ ident x = p.2

structure Registry.Consistent (s : Registry) : Prop where
  dus : Registered (·.assocId) (·.gnbDuId) s.rrc.dus s.rrc.numDus s.duAnswered
  cuups : Registered (·.assocId) (·.setupReq.gnbCuUpId) s.rrc.cuups s.rrc.numCuups s.cuupAnswered
  apart : s.rrc.dus.Pairwise NrRrcDuContainer.Apart
  ues : s.rrc.ues.All fun _ => Bound s.rrc.cuups

section Trees

variable {α : Type} {key : α → ℤ} {ident : α → ℕ} {x y : α} {t : List α} {n : ℕ}
  {answered : List (ℤ × ℕ)}

theorem rbInsert_perm (h : ∀ y ∈ t, key y ≠ key x) : (rbInsert key x t).Perm (x :: t) := by
  simp_all [rbInsert, if_neg, insertBefore_perm]

theorem mem_rbInsert (h : y ∈ rbInsert key x t) : y = x ∨ y ∈ t := by
  rw [rbInsert] at h
  split at h
  · exact .inr h
  · exact mem_insertBefore.mp h

variable (h : Registered key ident t n answered)

include h

theorem Registered.insert (hfree : ∀ y ∈ t, key y ≠ key x) :
    Registered key ident (rbInsert key x t) (n + 1) ((key x, ident x) :: answered) := by
  have hperm := rbInsert_perm hfree
  refine ⟨(congrArg (· + 1) h.count).trans hperm.length_eq.symm, ?_⟩
  intro p hp
  rcases List.mem_cons.mp hp with rfl | hp
  · grind
  · obtain ⟨y, hy, he⟩ := h.answered p hp
    grind

theorem Registered.lost (a : ℤ) :
    Registered key ident t n (answered.filter (·.1 ≠ a)) :=
  ⟨h.count, fun p hp => h.answered p (List.mem_filter.mp hp).1⟩

theorem Registered.erase {a : ℤ} (hx : x ∈ t)
    (he : key x = a) : Registered key ident (t.eraseP fun y => key y = a) (n - 1)
      (answered.filter (·.1 ≠ a)) := by
  refine ⟨(congrArg (· - 1) h.count).trans
    (List.length_eraseP_of_mem hx (by simpa using he)).symm, ?_⟩
  intro p hp
  obtain ⟨hp, hne⟩ := List.mem_filter.mp hp
  obtain ⟨y, hy, h1, h2⟩ := h.answered p hp
  grind

end Trees

theorem NrRrcDuContainer.Apart.symm {a b : NrRrcDuContainer} (h : a.Apart b) : b.Apart a :=
  ⟨h.1.symm, h.2.1.symm, h.2.2.1.symm, h.2.2.2.symm⟩

variable {cuups : List NrRrcCuupContainer}

theorem Bound.mono {cuups' : List NrRrcCuupContainer} {d : F1UeData} (h : Bound cuups d)
    (hc : ∀ c ∈ cuups, c ∈ cuups') : Bound cuups' d := by
  rcases h with h | ⟨c, hm, he⟩
  · exact .inl h
  · exact .inr ⟨c, hc c hm, he⟩

section Ues

variable {t t' : UeTable} {Q Q' : ℕ → F1UeData → Prop} {ueId duUeId : ℕ} {d : F1UeData}

theorem UeTable.All.mono (h : t.All Q) (hq : ∀ i d, Q i d → Q' i d) : t.All Q' := by
  intro i hi
  obtain ⟨d, h1, h2⟩ := h i hi
  exact ⟨d, h1, hq i d h2⟩

theorem UeTable.All.update (h : t.All Q) (ho : ∀ i e, i ≠ ueId → Q i e → Q' i e)
    (hd : ueId ∈ t.ids → Q' ueId d) : (cuUpdateF1UeData t ueId d).All Q' := by
  intro i hi
  by_cases he : i = ueId
  · subst he
    exact ⟨d, Function.update_self .., hd hi⟩
  · obtain ⟨e, h1, h2⟩ := h i hi
    exact ⟨e, (Function.update_of_ne he ..).trans h1, ho i e he h2⟩

theorem UeTable.All.removeEach (h : t.All Q) (l : List (ℕ × F1UeData)) :
    (l.foldl (fun t u => rrcRemoveUe t u.1) t).All Q := by
  induction l generalizing t with
  | nil => exact h
  | cons u l ih =>
    refine ih ?_
    intro i hi
    obtain ⟨hm, he⟩ := List.mem_filter.mp hi
    obtain ⟨d, h1, h2⟩ := h i hm
    exact ⟨d, (Function.update_of_ne (by simpa using he) ..).trans h1, h2⟩

theorem UeTable.All.create {assocId : ℤ} (h : t.All Q) (hq : Q ueId ⟨duUeId, assocId, 0⟩)
    (hr : rrcGnbCreateUeContext t assocId ueId duUeId = .ok t') : t'.All Q := by
  rw [rrcGnbCreateUeContext] at hr
  split at hr
  · cases hr
  · obtain rfl := Except.ok.inj hr
    intro i hi
    by_cases he : i = ueId
    · simp_all
    · obtain ⟨d, h1, h2⟩ := h i ((mem_rbInsert hi).resolve_left he)
      simp_all

theorem cuGetF1UeData_returns : cuGetF1UeData t ueId = .ok d ↔ t.data ueId = some d := by
  rw [cuGetF1UeData]
  split <;> simp_all

/-- **The walk rule.**  What the walk makes of data that meets `Q` meets `Q'`. -/
theorem walkUes_all {hit : F1UeData → Bool} {upd : F1UeData → F1UeData} {Q Q' : F1UeData → Prop}
    (hq : ∀ d, Q d → Q' (if hit d then upd d else d)) (hw : ∀ d, Q' d → Q d) {ids : List ℕ}
    {noted : List (ℕ × F1UeData)} (ht : t.All fun i d => Q d ∧ (i ∉ ids → Q' d))
    (hr : walkUes hit upd ids t = .ok (t', noted)) : t'.All fun _ => Q' := by
  induction ids generalizing t noted with
  | nil =>
    obtain ⟨rfl, _⟩ := ok_inj hr
    exact ht.mono fun i d h => h.2 List.not_mem_nil
  | cons ueId ids ih =>
    obtain ⟨d, hg, hr⟩ := bind_returns.mp hr
    have hd : ueId ∈ t.ids → Q' (if hit d then upd d else d) := by
      intro hm
      obtain ⟨d', hd', hQ, _⟩ := ht ueId hm
      exact hq d (Option.some.inj ((cuGetF1UeData_returns.mp hg).symm.trans hd') ▸ hQ)
    have hrest : ∀ (i : ℕ) e, i ≠ ueId → Q e ∧ (i ∉ ueId :: ids → Q' e) →
        Q e ∧ (i ∉ ids → Q' e) := fun i e he h => ⟨h.1, fun hn => h.2 (by simp [he, hn])⟩
    split at hr
    next hh =>
      obtain ⟨⟨t₁, n₁⟩, h1, rfl, _⟩ := bind_pair_inj hr
      rw [if_pos hh] at hd
      exact ih (ht.update hrest fun hm => ⟨hw _ (hd hm), fun _ => hd hm⟩) h1
    next hh =>
      rw [if_neg hh] at hd
      refine ih ?_ hr
      intro i hi
      obtain ⟨e, h1, h2⟩ := ht i hi
      by_cases he : i = ueId
      · subst he
        obtain rfl := Option.some.inj ((cuGetF1UeData_returns.mp hg).symm.trans h1)
        exact ⟨d, h1, h2.1, fun _ => hd hi⟩
      · exact ⟨e, h1, hrest i e he h2⟩

end Ues

theorem invalidateDuConnections_bound {cfg : Config} {assocId : ℤ} {t t' : UeTable}
    {out : List Message} (h : t.All fun _ => Bound cuups)
    (hr : invalidateDuConnections cfg assocId t = .ok (t', out)) : t'.All fun _ => Bound cuups := by
  obtain ⟨⟨t₁, noted⟩, h1, hr⟩ := bind_returns.mp hr
  have hw : t₁.All fun _ => Bound cuups := by
    refine walkUes_all (Q := Bound cuups) ?_ (fun _ h => h) (h.mono fun _ _ h => ⟨h, fun _ => h⟩) h1
    intro d hd
    split
    · split <;> exact hd
    · exact hd
  dsimp only at hr
  split at hr
  · simp_all
  · obtain ⟨rfl, _⟩ := ok_inj hr
    exact hw.removeEach noted

theorem removeUnassociatedE1Connections_bound {t t' : UeTable} {out : List Message}
    (h : t.All fun _ => Bound cuups)
    (hr : removeUnassociatedE1Connections t = .ok (t', out)) : t'.All fun _ => Bound cuups := by
  obtain ⟨⟨t₁, noted⟩, h1, rfl, _⟩ := bind_pair_inj hr
  refine UeTable.All.removeEach ?_ noted
  refine walkUes_all (Q := Bound cuups) ?_ (fun _ h => h) (h.mono fun _ _ h => ⟨h, fun _ => h⟩) h1
  simp

theorem invalidateCuupConnections_bound {assocId : ℤ} {t t' : UeTable}
    (h : t.All fun _ => Bound cuups) (hr : invalidateCuupConnections assocId t = .ok t') :
    t'.All fun _ => Bound (cuups.eraseP fun c => c.assocId = assocId) := by
  obtain ⟨⟨t₁, noted⟩, h1, rfl⟩ := bind_ok_inj hr
  refine walkUes_all (Q := Bound cuups) ?_ (fun d hd => hd.mono fun c => List.mem_of_mem_eraseP)
    ?_ h1
  · intro d hd
    split
    · exact .inl rfl
    next hn =>
      rcases hd with hd | ⟨c, hm, he⟩
      · exact .inl hd
      · refine .inr ⟨c, (List.mem_eraseP_of_neg ?_).mpr hm, he⟩
        rwa [he]
  · exact fun i hi => (h i hi).imp fun d hd => ⟨hd.1, hd.2, fun hn => absurd hi hn⟩

variable {sst sd : ℤ}

theorem selectCuup_mem {rrc : GnbRrcInst} {ueId : ℕ} {c : NrRrcCuupContainer}
    (h : selectCuup rrc ueId sst sd = .ok (some c)) : c ∈ rrc.cuups := by
  rw [selectCuup] at h
  split at h
  next heq =>
    obtain rfl := Option.some.inj (Except.ok.inj h)
    grind [selectCuupSlice, Option.some.inj, List.mem_of_find?_eq_some]
  · grind [selectCuupRoundRobin, List.mem_of_getElem?, Except.ok.inj]

/-- The CU-UP a UE is given is a registered one. -/
theorem getNewCuupForUe_bound {rrc rrc' : GnbRrcInst} {ueId root : ℕ}
    (h : rrc.ues.All fun _ => Bound rrc.cuups)
    (hr : getNewCuupForUe rrc ueId sst sd root = .ok rrc') :
    ∃ ues : UeTable, rrc' = { rrc with ues := ues } ∧ ues.All fun _ => Bound rrc.cuups := by
  obtain ⟨d, _, hr⟩ := bind_returns.mp hr
  split at hr
  · obtain rfl := Except.ok.inj hr
    exact ⟨rrc.ues, rfl, h⟩
  · obtain ⟨selected, hs, hr⟩ := bind_returns.mp hr
    split at hr
    next c heq =>
      obtain rfl := Except.ok.inj hr
      have hc : c ∈ rrc.cuups := by
        rcases Option.or_eq_some_iff.mp heq with rfl | ⟨_, hc⟩
        · exact selectCuup_mem hs
        · exact List.mem_of_getElem? hc
      exact ⟨_, rfl, h.update (fun _ _ _ hb => hb) fun _ => .inr ⟨c, hc, rfl⟩⟩
    · cases hr

/-! ### The handlers keep the registry consistent -/

namespace Registry

variable {cfg : Config} {s : Registry} {rrc : GnbRrcInst} {out : List Message} {assocId : ℤ}

variable {req : F1apSetupReq}

/-- An accepted request names no cell, PCI or DU identifier of a registered DU. -/
theorem f1SetupVerdict_accepts
    {cellInfo : F1apServedCellInfo} {sysInfo : Option F1apGnbDuSystemInfo}
    {cells : List (F1apServedCellInfo × Option F1apGnbDuSystemInfo)}
    (hc : req.cell = (cellInfo, sysInfo) :: cells) (h : f1SetupVerdict cfg rrc req = .ok none) :
    ∀ it ∈ rrc.dus, it.gnbDuId ≠ req.gnbDuId ∧ it.cell.nrCellid ≠ cellInfo.nrCellid ∧
      it.cell.nrPci ≠ cellInfo.nrPci := by
  rw [f1SetupVerdict, hc] at h
  grind

section

variable (h : s.Consistent)

include h

theorem Consistent.f1SetupReq (hf : s.Fresh cfg (.f1SetupReq assocId req))
    (hr : rrcGnbProcessF1SetupReq cfg s.rrc assocId req = .ok (rrc, out)) :
    (s.answer rrc out (.f1SetupReq assocId req)).Consistent := by
  rw [rrcGnbProcessF1SetupReq] at hr
  split at hr
  · cases hr
  · obtain ⟨verdict, hv, hr⟩ := bind_returns.mp hr
    split at hr
    next cellInfo sysInfo cells heq =>
      obtain ⟨_, _, rfl, rfl⟩ := bind_pair_inj hr
      have hfree : ∀ du ∈ s.rrc.dus, du.assocId ≠ assocId := by
        simpa only [Fresh, hv] using hf
      refine ⟨h.dus.insert hfree, h.cuups, ?_, h.ues⟩
      refine ((rbInsert_perm hfree).pairwise_iff NrRrcDuContainer.Apart.symm).mpr ?_
      refine List.pairwise_cons.mpr ⟨fun du hdu => ?_, h.apart⟩
      obtain ⟨h1, h2, h3⟩ := f1SetupVerdict_accepts heq hv du hdu
      exact ⟨(hfree du hdu).symm, h1.symm, h2.symm, h3.symm⟩
    · cases hr
    · obtain ⟨rfl, rfl⟩ := ok_inj hr
      exact h

theorem Consistent.f1DuConfigurationUpdate {confUp : F1apGnbDuConfigurationUpdate}
    (hf : s.Fresh cfg (.f1DuConfigurationUpdate assocId confUp))
    (hr : rrcGnbProcessF1DuConfigurationUpdate cfg s.rrc assocId confUp = .ok (rrc, out)) :
    (s.answer rrc out (.f1DuConfigurationUpdate assocId confUp)).Consistent := by
  rw [rrcGnbProcessF1DuConfigurationUpdate] at hr
  split at hr
  · cases hr
  · split at hr
    · obtain ⟨rfl, rfl⟩ := ok_inj hr
      exact h
    · obtain ⟨rfl, rfl⟩ := ok_inj hr
      exact h
    next du m hdu hm =>
      split at hr
      · obtain ⟨rfl, rfl⟩ := ok_inj hr
        exact h
      next hn =>
        obtain ⟨rfl, rfl⟩ := ok_inj hr
        have ⟨hold, hplmn⟩ : du.cell.nrCellid = m.oldNrCellid ∧ rrcGnbPlmnMatches cfg m.info := by
          simpa using hn
        have hfree := hf du (List.mem_of_find?_eq_some hdu) m (hm ▸ List.mem_cons_self)
          (by simpa using List.find?_some hdu) hold hplmn
        refine ⟨⟨h.dus.count.trans (List.length_map ..).symm, ?_⟩, h.cuups, ?_, h.ues⟩
        · intro p hp
          obtain ⟨it, hit, he⟩ := h.dus.answered p hp
          refine ⟨_, List.mem_map_of_mem hit, ?_⟩
          grind [updateCellInfo]
        · refine List.pairwise_map.mpr (h.apart.imp_of_mem ?_)
          intro a b ha hb hab
          rw [updateCellInfo, updateCellInfo]
          split
          next hA =>
            have hB : b.assocId ≠ assocId := fun he => hab.1 (hA.trans he.symm)
            obtain ⟨h1, h2⟩ := hfree b hb hB
            rw [if_neg hB]
            exact ⟨hab.1, hab.2.1, h1.symm, h2.symm⟩
          next hA =>
            split
            · exact ⟨hab.1, hab.2.1, hfree a ha hA⟩
            · exact hab
    · cases hr

theorem Consistent.f1LostConnection
    (hr : rrcCuProcessF1LostConnection cfg s.rrc assocId = .ok (rrc, out)) :
    (s.answer rrc out (.f1LostConnection assocId)).Consistent := by
  rw [rrcCuProcessF1LostConnection] at hr
  split at hr
  · cases hr
  · split at hr
    · obtain ⟨rfl, rfl⟩ := ok_inj hr
      exact ⟨h.dus.lost assocId, h.cuups, h.apart, h.ues⟩
    next hany =>
      obtain ⟨⟨ues, _⟩, hi, rfl, rfl⟩ := bind_pair_inj hr
      have ⟨du, hdu, he⟩ : ∃ du ∈ s.rrc.dus, du.assocId = assocId := by simpa using hany
      exact ⟨h.dus.erase hdu he, h.cuups, h.apart.sublist List.eraseP_sublist,
        invalidateDuConnections_bound h.ues hi⟩

theorem Consistent.e1SetupReq {req : E1apSetupReq} (hf : s.Fresh cfg (.e1SetupReq assocId req))
    (hr : rrcGnbProcessE1SetupReq cfg s.rrc assocId req = .ok (rrc, out)) :
    (s.answer rrc out (.e1SetupReq assocId req)).Consistent := by
  rw [rrcGnbProcessE1SetupReq] at hr
  split at hr
  · cases hr
  · split at hr
    · obtain ⟨rfl, rfl⟩ := ok_inj hr
      exact h
    next hv =>
      obtain ⟨⟨ues, o⟩, hi, rfl, rfl⟩ := bind_pair_inj hr
      have hany : (o ++ [Message.e1apSetupResp assocId req.transacId]).any
          (fun m => m matches .e1apSetupResp ..) = true := by simp
      rw [answer, if_pos hany]
      refine ⟨h.dus, h.cuups.insert (hf hv), h.apart, ?_⟩
      exact (removeUnassociatedE1Connections_bound h.ues hi).mono fun _ d hb =>
        hb.mono fun c hc => (rbInsert_perm (hf hv)).mem_iff.mpr (List.mem_cons_of_mem _ hc)

theorem Consistent.e1LostConnection
    (hr : rrcGnbProcessE1LostConnection s.rrc assocId = .ok (rrc, out)) :
    (s.answer rrc out (.e1LostConnection assocId)).Consistent := by
  rw [rrcGnbProcessE1LostConnection] at hr
  split at hr
  · cases hr
  · obtain ⟨ues, hi, hr⟩ := bind_returns.mp hr
    have hues := invalidateCuupConnections_bound h.ues hi
    split at hr
    · obtain ⟨rfl, rfl⟩ := ok_inj hr
      exact ⟨h.dus, h.cuups.lost assocId, h.apart,
        hues.mono fun _ d hb => hb.mono fun c => List.mem_of_mem_eraseP⟩
    next hany =>
      obtain ⟨rfl, rfl⟩ := ok_inj hr
      have ⟨c, hc, he⟩ : ∃ c ∈ s.rrc.cuups, c.assocId = assocId := by simpa using hany
      exact ⟨h.dus, h.cuups.erase hc he, h.apart, hues⟩

/-- **One step.** -/
theorem Consistent.step {s' : Registry} {e : Event} (hf : s.Fresh cfg e)
    (hs : Registry.step cfg s e = .ok (s', out)) : s'.Consistent := by
  obtain ⟨⟨rrc, o⟩, hr, rfl, rfl⟩ := bind_pair_inj hs
  cases e with
  | f1SetupReq assocId req => exact h.f1SetupReq hf hr
  | f1DuConfigurationUpdate assocId confUp => exact h.f1DuConfigurationUpdate hf hr
  | f1LostConnection assocId => exact h.f1LostConnection hr
  | e1SetupReq assocId req => exact h.e1SetupReq hf hr
  | e1LostConnection assocId => exact h.e1LostConnection hr
  | createUe assocId ueId duUeId =>
    obtain ⟨ues, hu, rfl, rfl⟩ := bind_pair_inj hr
    exact { h with ues := h.ues.create (.inl rfl) hu }
  | removeUe ueId =>
    obtain ⟨rfl, rfl⟩ := ok_inj hr
    exact { h with ues := h.ues.removeEach [(ueId, ⟨0, 0, 0⟩)] }
  | assignCuup ueId sst sd root =>
    obtain ⟨rrc₁, hu, rfl, rfl⟩ := bind_pair_inj hr
    obtain ⟨ues, rfl, hues⟩ := getNewCuupForUe_bound h.ues hu
    exact { h with ues := hues }

end

theorem start_consistent : start.Consistent :=
  ⟨⟨rfl, by simp [start]⟩, ⟨rfl, by simp [start]⟩, .nil, List.forall_mem_nil _⟩

/-- **The registry is consistent** after every sequence of setups, updates, losses and UE events
in which no setup is accepted on an association that has a node and no update takes a cell of
another DU. -/
theorem reachable_consistent (cfg : Config) (s : Registry)
    (h : Reachable (Registry.step cfg) (Fresh cfg) start s) : s.Consistent :=
  h.invariant Consistent start_consistent fun _ _ _ _ hc hf hs => hc.step hf hs

/-- One PLMN, no neighbours, no SIBs. -/
def plainConfig : Config := ⟨true, 1, fun _ => ⟨1, 1, 2⟩, none, []⟩

def sampleDu (gnbDuId : ℕ) : F1apSetupReq :=
  ⟨0, gnbDuId, [(⟨⟨1, 1, 2⟩, gnbDuId, gnbDuId, none, .tdd 78 1, none⟩, none)]⟩

def sampleCuup : E1apSetupReq := ⟨0, 1, [(⟨1, 1, 2⟩, [⟨1, 0⟩])]⟩

theorem reachable_consistent_two_nodes :
    ∃ s, Reachable (Registry.step plainConfig) (Fresh plainConfig) start s ∧
      [s.rrc.numDus, s.rrc.numCuups, s.rrc.ues.ids.length] = [2, 1, 1] ∧ s.Consistent := by
  obtain ⟨s, hs, he⟩ := exists_reachable (Registry.step plainConfig) (Fresh plainConfig) start
    [.f1SetupReq 1 (sampleDu 1), .f1SetupReq 2 (sampleDu 2), .e1SetupReq 3 sampleCuup,
      .createUe 1 1 7, .assignCuup 1 1 0 0]
    (fun s => [s.rrc.numDus, s.rrc.numCuups, s.rrc.ues.ids.length]) (b := [2, 1, 1])
    (by decide +kernel)
  exact ⟨s, hs, he, reachable_consistent _ s hs⟩

/-- **The defect.**  A second DU that asks for setup on the association of a registered one is
sent a response and counted, but `RB_INSERT` does not link it. -/
theorem not_consistent_second_setup :
    ¬∀ (cfg : Config) (s : Registry),
      Reachable (Registry.step cfg) (fun _ e => e.nonZero) start s → s.Consistent := by
  intro h
  obtain ⟨s, hs, he⟩ := exists_reachable (Registry.step plainConfig) (fun _ e => e.nonZero) start
    [.f1SetupReq 1 (sampleDu 1), .f1SetupReq 1 (sampleDu 2)]
    (fun s => (s.rrc.numDus, s.rrc.dus.length)) (b := (2, 1)) (by decide +kernel)
  obtain ⟨h1, h2⟩ := Prod.mk.inj he
  have := (h plainConfig s hs).dus.count
  simp [h1, h2] at this

end Registry

end OaiGnb.Rrc
