import OaiGnb.Lib.Run
import OaiGnb.Mac.Scheduler

/-!
# The uplink scheduler

Model of `pf_ul` and `allocate_ul_retransmission` of `gNB_scheduler_ulsch.c` for one uplink slot.
All grants of a call are for the same slot, so there is one VRB map for every beam.  What the two
functions call for other resources, for MCS, power and transport block size, and after a grant, is
the parameter `UlEnv`.  The order of `qsort`, by floating-point coefficients, may be any.

* `pfUl_disjointly`: the grants of a call are disjoint and marked, when no grant goes to a UE whose
  BWP does not start at PRB 0 and retransmissions find a free range.
-/

namespace OaiGnb.Mac.Ul

open Run ResourceGrid

/-! ### Data -/

/-- `NR_sched_pusch_t`.  The frame and slot are those of the call. -/
structure SchedPusch where
  rbSize : ℕ
  rbStart : ℕ
  mcs : ℕ
  r : ℕ
  qm : ℕ
  tbSize : ℕ
  ulHarqPid : ℤ
  nrOfLayers : ℕ
  timeDomainAllocation : ℤ
  tdaInfo : TdaInfo
  nbDmrsPrb : ℕ
  bwpInfo : BwpInfo
  deriving Repr, DecidableEq

/-- The fields of a UE that the scheduler reads.  `retransUlHarq` is the head of the list of HARQ
processes that wait for a retransmission, with its `sched_pusch`. -/
structure Ue where
  rnti : ℕ
  active : Bool
  beamIndex : ℤ
  bwpStart : ℕ
  bwpSize : ℕ
  dci00InCommonSearchSpace : Bool
  initialUlBwpSize : ℕ
  transformPrecoding : Bool
  nrOfLayers : ℕ
  retransUlHarq : Option (ℤ × SchedPusch)
  availableUlHarq : Bool
  estimatedUlBuffer : ℤ
  schedUlBytes : ℤ
  sr : Bool
  highInactivity : Bool
  transmInterrupt : Bool
  pcmax : ℤ
  ph : ℤ
  deriving Repr, DecidableEq

/-- `UEsched_t`. -/
structure UeSched where
  ue : Ue
  schedInactive : Bool
  selectedMcs : ℕ
  deriving Repr, DecidableEq

/-- The slot of the DCI and the slot of the PUSCH. -/
inductive Occasion where
  | dci
  | pusch
  deriving Repr, DecidableEq

/-- What the scheduler calls. -/
structure UlEnv (w : Type) where
  minGrantPrb : ℕ
  nrComputeTbs : ComputeTbs
  updateUlUeRQm : Ue → ℕ → ℕ × ℕ
  getUlDmrsParams : Ue → TdaInfo → ℕ → ℕ
  computePhFactor : Ue → ℕ → ℕ → ℕ → ℕ → ℕ → ℤ
  selectMcs : Ue → ℕ
  beamAllocationProcedure : w → Occasion → ℤ → BeamAlloc × w
  resetBeamStatus : w → Occasion → ℤ → Bool → w
  getCceIndex : w → Ue → ℕ → Option ℕ × w
  fillPdcchVrbMap : w → Ue → ℕ → ℕ → w
  postProcessUlsch : w → Ue → SchedPusch → Except Fault w
  qsort : List UeSched → List UeSched
  qsort_perm : ∀ l, (qsort l).Perm l

/-- A grant: a call of `post_process_ulsch`. -/
structure Grant where
  beam : ℕ
  ue : Ue
  sched : SchedPusch
  deriving Repr, DecidableEq

/-- The cells a grant occupies. -/
def Grant.cells (g : Grant) : Set (ℕ × ℕ) :=
  allocationCells g.ue.bwpStart g.sched.rbStart g.sched.rbSize g.sched.tdaInfo

/-- The state of a call of `pf_ul`; `grants` records the calls of `post_process_ulsch`. -/
structure UlState (w : Type) where
  world : w
  vrbMapUl : ℕ → VrbMap
  nRbSched : ℕ → ℤ
  remainUes : ℕ → ℤ
  ueSched : List UeSched
  scheduledSomething : Bool
  grants : List Grant

/-- `get_pusch_bwp_start_size`. -/
def getPuschBwpStartSize (ue : Ue) : BwpInfo :=
  ⟨ue.bwpStart, if ue.dci00InCommonSearchSpace then min ue.bwpSize ue.initialUlBwpSize
    else ue.bwpSize⟩

/-- `B`: what the UE still has to send. -/
def bytesToSend (ue : Ue) : ℤ := max (ue.estimatedUlBuffer - ue.schedUlBytes) 0

/-- `nr_UE_is_to_be_scheduled`. -/
def nrUeIsToBeScheduled (ue : Ue) : Bool :=
  decide (ue.estimatedUlBuffer > ue.schedUlBytes) || ue.sr || ue.highInactivity

/-- The first free resource block of the BWP, relative to its start. -/
def firstFree (map : VrbMap) (slbitmap : BitVec 16) (bi : BwpInfo) : ℕ :=
  scanWhile (fun rb => !rowFree map slbitmap (rb + bi.bwpStart)) bi.bwpSize 0

/-- Both functions mark a grant as used by
`for (rb = bwpStart; rb < rbSize; rb++) rballoc_mask[rb + rbStart] |= slbitmap`. -/
def markUsed (map : VrbMap) (sched : SchedPusch) : VrbMap :=
  mark map (sched.bwpInfo.bwpStart + sched.rbStart) (sched.rbSize + sched.rbStart)
    sched.tdaInfo.bitmap

section Model

variable {w : Type} (env : UlEnv w) (tda : ℤ) (tdaInfo : TdaInfo)

/-! ### Retransmissions -/

/-- `allocate_ul_retransmission` up to the search for a CCE: the new allocation. -/
def ulRetransmission (map : VrbMap) (ue : Ue) (retInfo : SchedPusch) : Option SchedPusch :=
  let bi := getPuschBwpStartSize ue
  if retInfo.timeDomainAllocation = tda then
    let rbStart := firstFree map retInfo.tdaInfo.bitmap bi
    if rbStart + retInfo.rbSize > bi.bwpSize then none
    else some { retInfo with rbStart := rbStart, bwpInfo := bi }
  else
    let dmrs := env.getUlDmrsParams ue tdaInfo retInfo.nrOfLayers
    let rbStart := firstFree map tdaInfo.bitmap bi
    if rbStart ≥ bi.bwpSize then none
    else
      let rbSize := scanWhile (fun n => decide (rbStart + n < bi.bwpSize) &&
        rowFree map tdaInfo.bitmap (rbStart + bi.bwpStart + n)) bi.bwpSize 0
      let res := nrFindNbRb env.nrComputeTbs
        ⟨retInfo.qm, retInfo.r, tdaInfo.nrOfSymbols, dmrs, retInfo.nrOfLayers⟩
        ue.transformPrecoding retInfo.tbSize 1 rbSize
      if !res.success || res.tbs ≠ retInfo.tbSize then none
      else
        some { retInfo with
          rbSize := res.nbRb
          rbStart := rbStart
          tbSize := res.tbs
          timeDomainAllocation := tda
          tdaInfo := tdaInfo
          nbDmrsPrb := dmrs
          bwpInfo := bi }

/-- `allocate_ul_retransmission`: the grant and the new map, or none for the return value false.
The source subtracts the size from the pointer `n_rb_sched`, not from what it points to. -/
def allocateUlRetransmission (world : w) (map : VrbMap) (ue : Ue) (dciBeamIdx : ℕ) (harqPid : ℤ)
    (retInfo : SchedPusch) : Except Fault (w × Option (SchedPusch × VrbMap)) :=
  if retInfo.ulHarqPid ≠ harqPid then .error .devAssert
  else
    match ulRetransmission env tda tdaInfo map ue retInfo with
    | none => .ok (world, none)
    | some newSched =>
        match env.getCceIndex world ue dciBeamIdx with
        | (none, world) => .ok (world, none)
        | (some cceIndex, world) =>
            if newSched.timeDomainAllocation ≠ tda then .error .devAssert
            else do
              let world ← env.postProcessUlsch
                (env.fillPdcchVrbMap world ue cceIndex dciBeamIdx) ue newSched
              return (world, some (newSched, markUsed map newSched))

/-! ### The first loop -/

/-- The beams of the DCI and of the PUSCH. -/
def ulBeams (world : w) (ue : Ue) : w × Option (BeamAlloc × ℕ × BeamAlloc × ℕ) :=
  let (dciBeam, world) := env.beamAllocationProcedure world .dci ue.beamIndex
  match dciBeam.idx with
  | none => (world, none)
  | some d =>
      let (beam, world) := env.beamAllocationProcedure world .pusch ue.beamIndex
      match beam.idx with
      | none => (env.resetBeamStatus world .dci ue.beamIndex dciBeam.newBeam, none)
      | some b => (world, some (dciBeam, d, beam, b))

/-- Give both beams back. -/
def ulReset (world : w) (ue : Ue) (dciBeam beam : BeamAlloc) : w :=
  env.resetBeamStatus (env.resetBeamStatus world .pusch ue.beamIndex beam.newBeam) .dci
    ue.beamIndex dciBeam.newBeam

/-- `total_rem_ues`. -/
def totalRemUes (numBeams : ℕ) (st : UlState w) : ℤ :=
  ((List.range numBeams).map st.remainUes).sum

/-- The first loop of `pf_ul`: retransmissions, and the list of UEs for new data. -/
def ulFirst (numBeams : ℕ) (st : UlState w) (ue : Ue) : Except Fault (UlState w × Unit) :=
  if !ue.active || totalRemUes numBeams st = 0 then .ok (st, ())
  else
    match ulBeams env st.world ue with
    | (world, none) => .ok ({ st with world := world }, ())
    | (world, some (dciBeam, d, beam, b)) =>
        match ue.retransUlHarq with
        | some (pid, retInfo) => do
            match ← allocateUlRetransmission env tda tdaInfo world (st.vrbMapUl b) ue d pid
                retInfo with
            | (world, none) => return ({ st with world := ulReset env world ue dciBeam beam }, ())
            | (world, some (sched, map)) =>
                return ({ st with
                  world := world
                  vrbMapUl := Function.update st.vrbMapUl b map
                  remainUes := Function.update st.remainUes b (st.remainUes b - 1)
                  scheduledSomething := true
                  grants := st.grants ++ [⟨b, ue, sched⟩] }, ())
        | none =>
            let bytes := bytesToSend ue
            let doSched := nrUeIsToBeScheduled ue
            if !ue.availableUlHarq || (bytes = 0 && !doSched || ue.transmInterrupt) then
              .ok ({ st with world := ulReset env world ue dciBeam beam }, ())
            else
              .ok ({ st with
                world := world
                ueSched := st.ueSched ++ [⟨ue, bytes = 0 && doSched, env.selectMcs ue⟩] }, ())

/-! ### New data -/

/-- `while (ph_limit < tx_power && Rb > minRb) Rb--`. -/
def lowerRb (power : ℕ → ℤ) (phLimit : ℤ) (minRb : ℕ) : ℕ → ℕ
  | 0 => 0
  | rb + 1 =>
      if phLimit < power (rb + 1) ∧ rb + 1 > minRb then lowerRb power phLimit minRb rb else rb + 1

/-- `while (ph_limit < tx_power && mcs > 0) mcs--`. -/
def lowerMcs (power : ℕ → ℤ) (phLimit : ℤ) : ℕ → ℕ
  | 0 => 0
  | mcs + 1 => if phLimit < power (mcs + 1) then lowerMcs power phLimit mcs else mcs + 1

/-- `nr_ue_max_mcs_min_rb`: the number of resource blocks and the MCS. -/
def nrUeMaxMcsMinRb (ue : Ue) (dmrs nrOfLayers minRb rb mcs : ℕ) : Except Fault (ℕ × ℕ) :=
  let power (mcs rb : ℕ) : ℤ :=
    let (r, qm) := env.updateUlUeRQm ue mcs
    env.computePhFactor ue
      (env.nrComputeTbs qm r rb tdaInfo.nrOfSymbols dmrs nrOfLayers) rb nrOfLayers
      tdaInfo.nrOfSymbols dmrs
  if rb < minRb ∨ mcs > 28 then .error .assertFatal
  else
    let rb := lowerRb (power mcs) ue.ph minRb rb
    .ok (rb, lowerMcs (fun mcs => power mcs rb) ue.ph mcs)

/-- `available_rb`: the free resource blocks from `rbStart` on.  For a UE that is scheduled without
data `min_grant_prb` of them are enough. -/
def availableRb (map : VrbMap) (s : UeSched) (bi : BwpInfo) (rbStart : ℕ) : ℕ :=
  let maxRbSize := if s.schedInactive then env.minGrantPrb else bi.bwpSize
  scanWhile (fun n => decide (rbStart + n < bi.bwpSize) &&
    rowFree map tdaInfo.bitmap (rbStart + bi.bwpStart + n) && decide (n < maxRbSize)) bi.bwpSize 1

/-- The number of resource blocks and the MCS are reduced if there is data and the UE has reported
its power. -/
def limitByPower (s : UeSched) (dmrs rb : ℕ) : Except Fault (ℕ × ℕ) :=
  if (s.ue.pcmax ≠ 0 ∨ s.ue.ph ≠ 0) ∧ bytesToSend s.ue > 0 then
    nrUeMaxMcsMinRb env tdaInfo s.ue dmrs s.ue.nrOfLayers env.minGrantPrb rb s.selectedMcs
  else .ok (rb, s.selectedMcs)

/-- `rbSize` and `tb_size`: as many resource blocks as the data needs. -/
def newDataSize (s : UeSched) (q : TbsParams) (rb : ℕ) : ℕ × ℕ :=
  if !s.schedInactive then
    let res := nrFindNbRb env.nrComputeTbs q s.ue.transformPrecoding (bytesToSend s.ue).toNat
      env.minGrantPrb rb
    (res.nbRb, res.tbs)
  else (env.minGrantPrb, tbsBytes env.nrComputeTbs q env.minGrantPrb)

/-- The body of the second loop of `pf_ul` from the search for free resource blocks on. -/
def ulNewData (map : VrbMap) (s : UeSched) : Except Fault (Option SchedPusch) :=
  let ue := s.ue
  let bi := getPuschBwpStartSize ue
  let rbStart := firstFree map tdaInfo.bitmap bi
  let rb := availableRb env tdaInfo map s bi rbStart
  if rbStart + env.minGrantPrb > bi.bwpSize ∨ rb < env.minGrantPrb then .ok none
  else do
    let dmrs := env.getUlDmrsParams ue tdaInfo ue.nrOfLayers
    let (rb, mcs) ← limitByPower env tdaInfo s dmrs rb
    let (r, qm) := env.updateUlUeRQm ue mcs
    let (rbSize, tbSize) :=
      newDataSize env s ⟨qm, r, tdaInfo.nrOfSymbols, dmrs, ue.nrOfLayers⟩ rb
    return some ⟨rbSize, rbStart, mcs, r, qm, tbSize, -1, ue.nrOfLayers, tda, tdaInfo, dmrs, bi⟩

/-- A planned grant of new data. -/
structure Plan where
  beam : ℕ
  dciBeam : ℕ
  cceIndex : ℕ
  sched : SchedPusch
  deriving Repr, DecidableEq

/-- The body of the second loop of `pf_ul` up to the grant. -/
def ulPlan (st : UlState w) (s : UeSched) : Except Fault (w × Option Plan) :=
  let (beam, world) := env.beamAllocationProcedure st.world .pusch s.ue.beamIndex
  match beam.idx with
  | none => .ok (world, none)
  | some b =>
      let give (world : w) := env.resetBeamStatus world .pusch s.ue.beamIndex beam.newBeam
      if st.remainUes b = 0 ∨ st.nRbSched b < env.minGrantPrb then .ok (give world, none)
      else
        let (dciBeam, world) := env.beamAllocationProcedure world .dci s.ue.beamIndex
        match dciBeam.idx with
        | none => .ok (give world, none)
        | some d =>
            let giveDci (world : w) :=
              env.resetBeamStatus world .dci s.ue.beamIndex dciBeam.newBeam
            match env.getCceIndex world s.ue d with
            | (none, world) => .ok (give (giveDci world), none)
            | (some cceIndex, world) => do
                match ← ulNewData env tda tdaInfo (st.vrbMapUl b) s with
                | none => return (give (giveDci world), none)
                | some sched => return (world, some ⟨b, d, cceIndex, sched⟩)

/-- The second loop of `pf_ul`: new data. -/
def ulSecond (st : UlState w) (s : UeSched) : Except Fault (UlState w × Unit) := do
  match ← ulPlan env tda tdaInfo st s with
  | (world, none) => return ({ st with world := world }, ())
  | (world, some plan) =>
      let b := plan.beam
      let world ← env.postProcessUlsch
        (env.fillPdcchVrbMap world s.ue plan.cceIndex plan.dciBeam) s.ue plan.sched
      return ({ st with
        world := world
        nRbSched := Function.update st.nRbSched b (st.nRbSched b - plan.sched.rbSize)
        vrbMapUl := Function.update st.vrbMapUl b (markUsed (st.vrbMapUl b) plan.sched)
        remainUes := Function.update st.remainUes b (st.remainUes b - 1)
        scheduledSomething := true
        grants := st.grants ++ [⟨b, s.ue, plan.sched⟩] }, ())

/-- The state at the start of `pf_ul`. -/
def UlState.start (world : w) (vrbMapUl : ℕ → VrbMap) (nRbSched : ℕ → ℤ) (maxNumUe : ℤ) :
    UlState w :=
  ⟨world, vrbMapUl, nRbSched, fun _ => maxNumUe, [], false, []⟩

/-- `pf_ul`: the number of UEs scheduled, and the state. -/
def pfUl (numBeams : ℕ) (maxNumUe : ℤ) (ues : List Ue) (world : w) (vrbMapUl : ℕ → VrbMap)
    (nRbSched : ℕ → ℤ) : Except Fault (ℤ × UlState w) := do
  let (st, _) ← run (ulFirst env tda tdaInfo numBeams)
    (UlState.start world vrbMapUl nRbSched maxNumUe) ues
  let (st, _) ← run (ulSecond env tda tdaInfo) st (env.qsort st.ueSched)
  let numUeSched := numBeams * maxNumUe - totalRemUes numBeams st
  if numUeSched = 0 ∧ !st.scheduledSomething ∨ numUeSched > 0 ∧ st.scheduledSomething then
    return (numUeSched, st)
  else .error .devAssert

end Model

/-! ### The chosen resource blocks -/

variable {map : VrbMap} {ue : Ue} {sched : SchedPusch} {s : UeSched} {vrbMapUl : ℕ → VrbMap}

variable {slbitmap : BitVec 16} {bi : BwpInfo}

theorem firstFree_free (h : firstFree map slbitmap bi < bi.bwpSize) :
    rowFree map slbitmap (firstFree map slbitmap bi + bi.bwpStart) = true := by
  have := scanWhile_stopped h
  rwa [Bool.not_eq_false'] at this

theorem fits_scan {rbStart : ℕ} {p : ℕ → Bool} {i : ℕ} (hi : i ≤ 1) (hlt : rbStart < bi.bwpSize)
    (hfirst : rowFree map slbitmap (rbStart + bi.bwpStart) = true)
    (hp : ∀ n, p n = true → rbStart + n < bi.bwpSize ∧
      rowFree map slbitmap (rbStart + bi.bwpStart + n) = true) :
    Fits map bi rbStart (scanWhile p bi.bwpSize i) slbitmap := by
  have hp' : ∀ n, p n = true → bi.bwpStart + rbStart + n ≤ bi.bwpStart + bi.bwpSize - 1 ∧
      rowFree map slbitmap (bi.bwpStart + rbStart + n) = true := by
    intro n hn
    obtain ⟨h1, h2⟩ := hp n hn
    rw [Nat.add_comm rbStart] at h2
    exact ⟨by omega, h2⟩
  rw [Nat.add_comm] at hfirst
  obtain ⟨hle, hfree⟩ := @scan_free _ map slbitmap _ _ bi.bwpSize i p hi (by omega) hfirst hp'
  exact ⟨by omega, hfree⟩

/-- A retransmission with the same time domain allocation gets as many resource blocks as before,
from the first free one on.  The source does not look at them; here they are free. -/
def SameTdaFree (tda : ℤ) (map : VrbMap) (ue : Ue) (retInfo : SchedPusch) : Prop :=
  retInfo.timeDomainAllocation = tda →
    ∀ r, ue.bwpStart + firstFree map retInfo.tdaInfo.bitmap (getPuschBwpStartSize ue) ≤ r →
      r < ue.bwpStart + firstFree map retInfo.tdaInfo.bitmap (getPuschBwpStartSize ue)
        + retInfo.rbSize →
      rowFree map retInfo.tdaInfo.bitmap r = true

variable {retInfo : SchedPusch}

theorem ulRetransmission_fits {w : Type} {env : UlEnv w} {tda : ℤ} {tdaInfo : TdaInfo}
    (h : ulRetransmission env tda tdaInfo map ue retInfo = some sched)
    (hfree : SameTdaFree tda map ue retInfo) :
    sched.bwpInfo = getPuschBwpStartSize ue ∧
      Fits map (getPuschBwpStartSize ue) sched.rbStart sched.rbSize sched.tdaInfo.bitmap := by
  unfold ulRetransmission at h
  dsimp only at h
  split at h
  next htda =>
    split at h
    · cases h
    next hle =>
      obtain rfl := Option.some.inj h
      exact ⟨rfl, not_lt.mp hle, hfree htda⟩
  · split at h
    · cases h
    next hge =>
      have hlt := not_le.mp hge
      have hfirst := firstFree_free hlt
      split at h
      · cases h
      · obtain rfl := Option.some.inj h
        refine ⟨rfl, (fits_scan (Nat.zero_le 1) hlt hfirst ?_).shorter (nrFindNbRb_le ?_)⟩
        · simp
        · -- the first resource block is free, so at least one is counted
          refine Nat.one_le_iff_ne_zero.mpr ?_
          intro hzero
          have := scanWhile_stopped (hzero.trans_lt (Nat.zero_lt_of_lt hlt))
          simp_all

theorem lowerRb_le (power : ℕ → ℤ) (phLimit : ℤ) (minRb rb : ℕ) :
    lowerRb power phLimit minRb rb ≤ rb ∧ (minRb ≤ rb → minRb ≤ lowerRb power phLimit minRb rb) := by
  induction rb with
  | zero => exact ⟨le_rfl, id⟩
  | succ rb ih =>
    rw [lowerRb]
    grind

variable {rb : ℕ}

theorem limitByPower_le {w : Type} {env : UlEnv w} {tdaInfo : TdaInfo}
    {dmrs rb' mcs : ℕ} (h : limitByPower env tdaInfo s dmrs rb = .ok (rb', mcs))
    (hmin : env.minGrantPrb ≤ rb) : rb' ≤ rb ∧ env.minGrantPrb ≤ rb' := by
  unfold limitByPower at h
  split at h
  · unfold nrUeMaxMcsMinRb at h
    split at h
    · cases h
    · obtain ⟨rfl, _⟩ := ok_inj h
      exact ⟨(lowerRb_le ..).1, (lowerRb_le ..).2 hmin⟩
  · simp_all

theorem newDataSize_le {w : Type} {env : UlEnv w} {q : TbsParams}
    (hmin : env.minGrantPrb ≤ rb) : (newDataSize env s q rb).1 ≤ rb := by
  grind [newDataSize, nrFindNbRb_le]

theorem ulNewData_fits {w : Type} {env : UlEnv w} {tda : ℤ} {tdaInfo : TdaInfo}
    (h : ulNewData env tda tdaInfo map s = .ok (some sched)) (hmin : env.minGrantPrb = 0 →
      firstFree map tdaInfo.bitmap (getPuschBwpStartSize s.ue)
        < (getPuschBwpStartSize s.ue).bwpSize) :
    sched.bwpInfo = getPuschBwpStartSize s.ue ∧ sched.tdaInfo = tdaInfo ∧
      Fits map (getPuschBwpStartSize s.ue) sched.rbStart sched.rbSize tdaInfo.bitmap := by
  unfold ulNewData at h
  dsimp only at h
  split at h
  · cases h
  next hno =>
    rw [not_or, Nat.not_lt, Nat.not_lt] at hno
    obtain ⟨hroom, hav⟩ := hno
    have hlt : firstFree map tdaInfo.bitmap (getPuschBwpStartSize s.ue)
        < (getPuschBwpStartSize s.ue).bwpSize := by
      rcases Nat.eq_zero_or_pos env.minGrantPrb with hz | hpos
      · exact hmin hz
      · omega
    have hfits : Fits map (getPuschBwpStartSize s.ue)
        (firstFree map tdaInfo.bitmap (getPuschBwpStartSize s.ue))
        (availableRb env tdaInfo map s (getPuschBwpStartSize s.ue)
          (firstFree map tdaInfo.bitmap (getPuschBwpStartSize s.ue))) tdaInfo.bitmap := by
      refine fits_scan le_rfl hlt (firstFree_free hlt) ?_
      intro n hn
      rw [Bool.and_eq_true, Bool.and_eq_true, decide_eq_true_eq] at hn
      exact hn.1
    obtain ⟨⟨rb, mcs⟩, h1, h2⟩ := bind_returns.mp h
    obtain ⟨hle, hge⟩ := limitByPower_le h1 hav
    obtain rfl := Option.some.inj (Except.ok.inj h2)
    exact ⟨rfl, rfl, hfits.shorter ((newDataSize_le hge).trans hle)⟩

/-! ### The packing -/

/-- **No overlap.**  On every beam the grants are pairwise disjoint and avoid what the initial map
marks, the map marks exactly the initial cells and the grants, and every grant lies inside the BWP
of its UE. -/
structure Disjointly {w : Type} (vrbMapUl : ℕ → VrbMap) (st : UlState w) : Prop where
  packed : ∀ b, Packed (used (vrbMapUl b)) (cellsOn Grant.beam Grant.cells b st.grants) (used
    (st.vrbMapUl b))
  only : ∀ b, ∀ c ∈ used (st.vrbMapUl b), c ∈ used (vrbMapUl b) ∨ ∃ a ∈ cellsOn Grant.beam
    Grant.cells b st.grants, c ∈ a
  inside : ∀ g ∈ st.grants, g.sched.rbStart + g.sched.rbSize ≤ g.ue.bwpSize

theorem getPuschBwpStartSize_le (ue : Ue) : (getPuschBwpStartSize ue).bwpSize ≤ ue.bwpSize := by
  unfold getPuschBwpStartSize
  grind

/-- **One more grant.**  It is marked, if the BWP starts at PRB 0. -/
theorem Disjointly.grant {w : Type} {st st' : UlState w} {b : ℕ} (h : Disjointly vrbMapUl st)
    (hbwp : sched.bwpInfo = getPuschBwpStartSize ue)
    (hfits : Fits (st.vrbMapUl b) (getPuschBwpStartSize ue) sched.rbStart sched.rbSize
      sched.tdaInfo.bitmap)
    (hstart : ue.bwpStart = 0)
    (hmap : st'.vrbMapUl = Function.update st.vrbMapUl b (markUsed (st.vrbMapUl b) sched))
    (hgrants : st'.grants = st.grants ++ [⟨b, ue, sched⟩]) : Disjointly vrbMapUl st' := by
  have hcells : (⟨b, ue, sched⟩ : Grant).cells =
      block (ue.bwpStart + sched.rbStart) sched.rbSize sched.tdaInfo.bitmap :=
    allocationCells_eq ..
  have hused : used (markUsed (st.vrbMapUl b) sched) =
      used (st.vrbMapUl b) ∪ (⟨b, ue, sched⟩ : Grant).cells := by
    have hrange : sched.rbSize + sched.rbStart = ue.bwpStart + sched.rbStart + sched.rbSize := by
      omega
    rw [hcells, ← used_mark, markUsed, hbwp, hrange]
    rfl
  have hdisj : Disjoint (⟨b, ue, sched⟩ : Grant).cells (used (st.vrbMapUl b)) := by
    rw [hcells]
    exact block_disjoint_used hfits.free
  refine ⟨?_, ?_, ?_⟩
  · intro b'
    rw [hmap, hgrants, cellsOn_concat]
    by_cases hb : b = b'
    · obtain rfl := hb
      rw [Function.update_self, if_pos rfl, hused]
      exact (h.packed b).concat hdisj subset_rfl
    · rw [Function.update_of_ne (Ne.symm hb), if_neg hb, List.append_nil]
      exact h.packed b'
  · intro b' c hc
    rw [hmap] at hc
    rw [hgrants, cellsOn_concat]
    by_cases hb : b = b'
    · obtain rfl := hb
      rw [Function.update_self, hused] at hc
      rcases hc with hc | hc
      · exact (h.only b c hc).imp_right fun ⟨a, ha, hca⟩ => ⟨a, List.mem_append_left _ ha, hca⟩
      · simp_all
    · rw [Function.update_of_ne (Ne.symm hb)] at hc
      rw [if_neg hb, List.append_nil]
      exact h.only b' c hc
  · intro g hg
    rw [hgrants] at hg
    rcases List.mem_append.mp hg with hg | hg
    · exact h.inside g hg
    · obtain rfl := List.mem_singleton.mp hg
      exact hfits.inside.trans (getPuschBwpStartSize_le ue)

section Loops

variable {w : Type} (env : UlEnv w) (tda : ℤ) (tdaInfo : TdaInfo)

/-- A retransmission is only granted to a UE whose BWP starts at PRB 0, and with the same time
domain allocation only if its resource blocks are free. -/
def UlFirstOk (numBeams : ℕ) (st : UlState w) (ue : Ue) : Prop :=
  ue.active = true → totalRemUes numBeams st ≠ 0 →
    ∀ world dciBeam d beam b pid retInfo, ulBeams env st.world ue =
      (world, some (dciBeam, d, beam, b)) → ue.retransUlHarq = some (pid, retInfo) →
    ∀ world' r, allocateUlRetransmission env tda tdaInfo world (st.vrbMapUl b) ue d pid retInfo =
      .ok (world', some r) →
    ue.bwpStart = 0 ∧ SameTdaFree tda (st.vrbMapUl b) ue retInfo

/-- New data is only granted to a UE whose BWP starts at PRB 0 and, if `min_grant_prb` is 0, has a
free resource block. -/
def UlSecondOk (st : UlState w) (s : UeSched) : Prop :=
  ∀ world plan, ulPlan env tda tdaInfo st s = .ok (world, some plan) →
    s.ue.bwpStart = 0 ∧ (env.minGrantPrb = 0 →
      firstFree (st.vrbMapUl plan.beam) tdaInfo.bitmap (getPuschBwpStartSize s.ue)
        < (getPuschBwpStartSize s.ue).bwpSize)

variable {env tda tdaInfo}

variable {world : w}

theorem allocateUlRetransmission_some {world' : w} {map' : VrbMap} {d : ℕ} {pid : ℤ}
    (h : allocateUlRetransmission env tda tdaInfo world map ue d pid retInfo =
      .ok (world', some (sched, map'))) :
    ulRetransmission env tda tdaInfo map ue retInfo = some sched ∧ map' = markUsed map sched := by
  unfold allocateUlRetransmission at h
  split at h
  · cases h
  · split at h
    · cases h
    · split at h
      · cases h
      · split at h
        · cases h
        · obtain ⟨world₂, _, h2⟩ := bind_returns.mp h
          simp_all

variable {o : Unit}

/-- **What the first loop does with a UE**: no grant, or a retransmission. -/
theorem ulFirst_cases {numBeams : ℕ} {st st' : UlState w}
    (hs : ulFirst env tda tdaInfo numBeams st ue = .ok (st', o)) :
    (∃ world ueSched, st' = { st with world := world, ueSched := ueSched }) ∨
    ∃ world dciBeam d beam b pid retInfo world' sched map,
      (ue.active = true ∧ totalRemUes numBeams st ≠ 0) ∧
      ulBeams env st.world ue = (world, some (dciBeam, d, beam, b)) ∧
      ue.retransUlHarq = some (pid, retInfo) ∧
      allocateUlRetransmission env tda tdaInfo world (st.vrbMapUl b) ue d pid retInfo =
        .ok (world', some (sched, map)) ∧
      st' = { st with
        world := world'
        vrbMapUl := Function.update st.vrbMapUl b map
        remainUes := Function.update st.remainUes b (st.remainUes b - 1)
        scheduledSomething := true
        grants := st.grants ++ [⟨b, ue, sched⟩] } := by
  unfold ulFirst at hs
  split at hs
  · exact Or.inl ⟨_, _, (ok_inj hs).1.symm⟩
  next hgo =>
    rw [Bool.or_eq_true, not_or, Bool.not_eq_true', Bool.not_eq_false, decide_eq_true_eq] at hgo
    split at hs
    · exact Or.inl ⟨_, _, (ok_inj hs).1.symm⟩
    next world dciBeam d beam b hbeams =>
      split at hs
      next pid retInfo hret =>
        obtain ⟨⟨world', r⟩, h1, h2⟩ := bind_returns.mp hs
        cases r with
        | none => exact Or.inl ⟨_, _, (ok_inj h2).1.symm⟩
        | some r =>
          exact Or.inr ⟨world, dciBeam, d, beam, b, pid, retInfo, world', r.1, r.2, hgo, hbeams,
            hret, h1, (ok_inj h2).1.symm⟩
      · dsimp only at hs
        split at hs <;> exact Or.inl ⟨_, _, (ok_inj hs).1.symm⟩

theorem ulFirst_disjointly {numBeams : ℕ} {st st' : UlState w} (h : Disjointly vrbMapUl st)
    (hok : UlFirstOk env tda tdaInfo numBeams st ue)
    (hs : ulFirst env tda tdaInfo numBeams st ue = .ok (st', o)) : Disjointly vrbMapUl st' := by
  rcases ulFirst_cases hs with ⟨_, _, rfl⟩ |
    ⟨_, _, _, _, _, _, _, _, _, _, ⟨hactive, hleft⟩, hbeams, hret, halloc, rfl⟩
  · exact ⟨h.packed, h.only, h.inside⟩
  · obtain ⟨hplan, rfl⟩ := allocateUlRetransmission_some halloc
    obtain ⟨hstart, hfree⟩ := hok hactive hleft _ _ _ _ _ _ _ hbeams hret _ _ halloc
    obtain ⟨hbwp, hfits⟩ := ulRetransmission_fits hplan hfree
    exact h.grant hbwp hfits hstart rfl rfl

theorem ulPlan_some {st : UlState w} {plan : Plan}
    (h : ulPlan env tda tdaInfo st s = .ok (world, some plan)) :
    ulNewData env tda tdaInfo (st.vrbMapUl plan.beam) s = .ok (some plan.sched) ∧
      (env.beamAllocationProcedure st.world .pusch s.ue.beamIndex).1.idx = some plan.beam ∧
      st.remainUes plan.beam ≠ 0 := by
  unfold ulPlan at h
  dsimp only at h
  split at h
  · cases h
  next hidx =>
    split at h
    · cases h
    next hleft =>
      split at h
      · cases h
      · split at h
        · cases h
        · obtain ⟨r, h1, h2⟩ := bind_returns.mp h
          cases r with
          | none => cases h2
          | some sched =>
            obtain rfl := Option.some.inj (ok_inj h2).2
            exact ⟨h1, hidx, (not_or.mp hleft).1⟩

theorem ulSecond_disjointly {st st' : UlState w}
    (h : Disjointly vrbMapUl st) (hok : UlSecondOk env tda tdaInfo st s)
    (hs : ulSecond env tda tdaInfo st s = .ok (st', o)) : Disjointly vrbMapUl st' := by
  obtain ⟨⟨world, r⟩, h1, h2⟩ := bind_returns.mp hs
  cases r with
  | none =>
    obtain ⟨rfl, _⟩ := ok_inj h2
    exact ⟨h.packed, h.only, h.inside⟩
  | some plan =>
    obtain ⟨world', _, rfl, _⟩ := bind_pair_inj h2
    obtain ⟨hstart, hfree⟩ := hok world plan h1
    obtain ⟨hbwp, htda, hfits⟩ := ulNewData_fits (ulPlan_some h1).1 hfree
    rw [← htda] at hfits
    exact h.grant hbwp hfits hstart rfl rfl

end Loops

/-- The two loops of a call meet the conditions. -/
def PfUlOk {w : Type} (env : UlEnv w) (tda : ℤ) (tdaInfo : TdaInfo) (numBeams : ℕ) (maxNumUe : ℤ)
    (ues : List Ue) (world : w) (vrbMapUl : ℕ → VrbMap) (nRbSched : ℕ → ℤ) : Prop :=
  RunMeets (ulFirst env tda tdaInfo numBeams) (UlFirstOk env tda tdaInfo numBeams)
    (UlState.start world vrbMapUl nRbSched maxNumUe) ues ∧
  ∀ st os, run (ulFirst env tda tdaInfo numBeams)
      (UlState.start world vrbMapUl nRbSched maxNumUe) ues = .ok (st, os) →
    RunMeets (ulSecond env tda tdaInfo) (UlSecondOk env tda tdaInfo) st (env.qsort st.ueSched)

/-- **Uplink grants do not overlap**, in a call whose iterations meet the conditions. -/
theorem pfUl_disjointly {w : Type} {env : UlEnv w} {tda : ℤ} {tdaInfo : TdaInfo} {numBeams : ℕ}
    {maxNumUe n : ℤ} {ues : List Ue} {world : w} {vrbMapUl : ℕ → VrbMap} {nRbSched : ℕ → ℤ}
    {st : UlState w} (hok : PfUlOk env tda tdaInfo numBeams maxNumUe ues world vrbMapUl nRbSched)
    (h : pfUl env tda tdaInfo numBeams maxNumUe ues world vrbMapUl nRbSched = .ok (n, st)) :
    Disjointly vrbMapUl st := by
  obtain ⟨⟨st₁, os₁⟩, h1, h2⟩ := bind_returns.mp h
  obtain ⟨⟨st₂, os₂⟩, h3, h4⟩ := bind_returns.mp h2
  have hst : st₂ = st := by
    dsimp only at h4
    split at h4
    · exact (ok_inj h4).2
    · cases h4
  obtain rfl := hst
  have hstart : Disjointly vrbMapUl (UlState.start world vrbMapUl nRbSched maxNumUe) :=
    ⟨fun b => Packed.nil _, fun b c hc => Or.inl hc, List.forall_mem_nil _⟩
  have hfirst := (RunMeets.reachable Reachable.start hok.1 h1).invariant (Disjointly vrbMapUl)
    hstart (fun _ _ _ _ hi hg hs => ulFirst_disjointly hi hg hs)
  exact (RunMeets.reachable Reachable.start (hok.2 st₁ os₁ h1) h3).invariant (Disjointly vrbMapUl)
    hfirst (fun _ _ _ _ hi hg hs => ulSecond_disjointly hi hg hs)

/-- One beam, a CCE for every UE, eight bytes in a resource block. -/
def simpleEnv : UlEnv Unit where
  minGrantPrb := 5
  nrComputeTbs := fun _ _ rb _ _ _ => 64 * rb
  updateUlUeRQm := fun _ _ => (1, 1)
  getUlDmrsParams := fun _ _ _ => 0
  computePhFactor := fun _ _ _ _ _ _ => 0
  selectMcs := fun _ => 0
  beamAllocationProcedure := fun _ _ _ => (⟨some 0, false⟩, ())
  resetBeamStatus := fun _ _ _ _ => ()
  getCceIndex := fun _ _ _ => (some 0, ())
  fillPdcchVrbMap := fun _ _ _ _ => ()
  postProcessUlsch := fun _ _ _ => .ok ()
  qsort := fun l => l
  qsort_perm := fun _ => List.Perm.refl _

/-- A UE with 40 bytes to send and a BWP of 20 resource blocks. -/
def simpleUe (rnti bwpStart : ℕ) : Ue :=
  ⟨rnti, true, 0, bwpStart, 20, false, 20, false, 1, none, true, 40, 0, false, false, false, 0, 0⟩

/-- The grant the UE gets: five resource blocks. -/
def simpleSched (rbStart bwpStart : ℕ) : SchedPusch :=
  ⟨5, rbStart, 0, 1, 1, 40, -1, 1, 0, fullSlot, 0, ⟨bwpStart, 20⟩⟩

/-- Two UEs whose BWPs start at PRB 0 get PRBs 0 to 4 and 5 to 9. -/
theorem pfUl_disjointly_two :
    PfUlOk simpleEnv 0 fullSlot 1 4 [simpleUe 1 0, simpleUe 2 0] () (fun _ _ => 0) (fun _ => 20) ∧
    ∃ st, pfUl simpleEnv 0 fullSlot 1 4 [simpleUe 1 0, simpleUe 2 0] () (fun _ _ => 0)
        (fun _ => 20) = .ok (2, st) ∧
      st.grants = [⟨0, simpleUe 1 0, simpleSched 0 0⟩, ⟨0, simpleUe 2 0, simpleSched 5 0⟩] ∧
      Disjointly (fun _ _ => 0) st := by
  have hok : PfUlOk simpleEnv 0 fullSlot 1 4 [simpleUe 1 0, simpleUe 2 0] () (fun _ _ => 0)
      (fun _ => 20) := by
    refine ⟨?_, ?_⟩
    · intro is₁ ue is₂ st os his _ _ _ world dciBeam d beam b pid retInfo _ hret
      have hmem : ue ∈ [simpleUe 1 0, simpleUe 2 0] := by rw [his]; simp
      simp only [List.mem_cons, List.not_mem_nil, or_false] at hmem
      rcases hmem with rfl | rfl <;> cases hret
    · intro st os hrun is₁ s is₂ st' os' his _ world plan _
      have hobs : (run (ulFirst simpleEnv 0 fullSlot 1)
          (UlState.start () (fun _ _ => 0) (fun _ => 20) 4) [simpleUe 1 0, simpleUe 2 0]).toOption.map
          (fun r => r.1.ueSched) =
          some [⟨simpleUe 1 0, false, 0⟩, ⟨simpleUe 2 0, false, 0⟩] := by decide +kernel
      rw [hrun] at hobs
      have hlist : st.ueSched = [⟨simpleUe 1 0, false, 0⟩, ⟨simpleUe 2 0, false, 0⟩] :=
        Option.some.inj hobs
      have hmem : s ∈ st.ueSched := by
        have : simpleEnv.qsort st.ueSched = st.ueSched := rfl
        rw [← this, his]
        simp
      rw [hlist] at hmem
      simp only [List.mem_cons, List.not_mem_nil, or_false] at hmem
      rcases hmem with rfl | rfl <;> exact ⟨rfl, fun h => absurd h (by decide)⟩
  obtain ⟨⟨n, st⟩, hrun, hobs⟩ := exists_of_observed
    (x := pfUl simpleEnv 0 fullSlot 1 4 [simpleUe 1 0, simpleUe 2 0] () (fun _ _ => 0) (fun _ => 20))
    (f := fun r => (r.1, r.2.grants))
    (b := (2, [⟨0, simpleUe 1 0, simpleSched 0 0⟩, ⟨0, simpleUe 2 0, simpleSched 5 0⟩]))
    (by decide +kernel)
  obtain ⟨rfl, hgrants⟩ := Prod.mk.inj hobs
  exact ⟨hok, st, hrun, hgrants, pfUl_disjointly hok hrun⟩

/-- **Two UEs get the same resource blocks** when their BWP starts at PRB 10. -/
theorem not_pfUl_disjointly :
    ¬ ∀ (w : Type) (env : UlEnv w) (tda : ℤ) (tdaInfo : TdaInfo) (numBeams : ℕ) (maxNumUe n : ℤ)
      (ues : List Ue) (world : w) (vrbMapUl : ℕ → VrbMap) (nRbSched : ℕ → ℤ) (st : UlState w),
      pfUl env tda tdaInfo numBeams maxNumUe ues world vrbMapUl nRbSched = .ok (n, st) →
      Disjointly vrbMapUl st := by
  intro h
  obtain ⟨⟨n, st⟩, hrun, hobs⟩ := exists_of_observed
    (x := pfUl simpleEnv 0 fullSlot 1 4 [simpleUe 1 10, simpleUe 2 10] () (fun _ _ => 0)
      (fun _ => 20))
    (f := fun r => r.2.grants)
    (b := [⟨0, simpleUe 1 10, simpleSched 0 10⟩, ⟨0, simpleUe 2 10, simpleSched 0 10⟩])
    (by decide +kernel)
  have hdisj := ((h _ _ _ _ _ _ _ _ _ _ _ _ hrun).packed 0).disjoint
  rw [show st.grants = _ from hobs] at hdisj
  have hcells := List.rel_of_pairwise_cons hdisj (List.mem_singleton_self _)
  have hmem : (10, 0) ∈ (⟨0, simpleUe 1 10, simpleSched 0 10⟩ : Grant).cells := by
    refine ⟨⟨?_, ?_⟩, ?_, ?_⟩ <;> decide
  exact Set.disjoint_left.mp hcells hmem hmem

end OaiGnb.Mac.Ul
