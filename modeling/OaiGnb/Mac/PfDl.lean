import OaiGnb.Lib.Run
import OaiGnb.Mac.Scheduler

/-!
# The downlink scheduler

Model of `pf_dl` and `allocate_dl_retransmission` of `gNB_scheduler_dlsch.c` for one downlink slot,
with one VRB map for every beam.  As in the uplink, what the two functions call is the parameter
`DlEnv`.  `fill_pdcch_vrb_map` marks the PDCCH in the same map.

* `pfDl_disjointly`: the allocations of a call are disjoint and marked, when retransmissions start
  at PRB 0 and new data goes to UEs whose resource blocks are numbered from PRB 0.
-/

namespace OaiGnb.Mac.Dl

open Run ResourceGrid

/-! ### Data -/

/-- `NR_sched_pdsch_t`, without precoding and the action on feedback. -/
structure SchedPdsch where
  rbSize : ℕ
  rbStart : ℕ
  mcs : ℕ
  r : ℕ
  qm : ℕ
  tbSize : ℕ
  dlHarqPid : ℤ
  pucchAllocation : ℤ
  nrOfLayers : ℕ
  timeDomainAllocation : ℤ
  tdaInfo : TdaInfo
  nbDmrsPrb : ℕ
  bwpInfo : BwpInfo
  deriving Repr, DecidableEq

/-- The fields of a UE that the scheduler reads.  `retransDlHarq` is the head of the list of HARQ
processes that wait for a retransmission, with its `sched_pdsch`; `availableDlHarq` is the head of
the list of free ones; `feedbackDisabled` has a bit for every HARQ process, if it is configured;
`numTotalBytes` is the value after `update_dlsch_buffer`. -/
structure Ue where
  rnti : ℕ
  active : Bool
  beamIndex : ℤ
  bwpStart : ℕ
  bwpSize : ℕ
  dci10InCommonSearchSpace : Bool
  controlResourceSetId : ℕ
  pdcchRbStart : ℕ
  initialDlBwpSize : ℕ
  nrOfLayers : ℕ
  retransDlHarq : Option (ℤ × SchedPdsch)
  availableDlHarq : Option ℤ
  feedbackDisabled : Option (List Bool)
  numTotalBytes : ℕ
  taApply : Bool
  deriving Repr, DecidableEq

/-- `get_FeedbackDisabled`. -/
def getFeedbackDisabled (ue : Ue) (harqPid : ℤ) : Bool :=
  match ue.feedbackDisabled with
  | none => false
  | some bits => bits.getD harqPid.toNat false

/-- `UEsched_t`. -/
structure UeSched where
  ue : Ue
  selectedMcs : ℕ
  deriving Repr, DecidableEq

/-- What the scheduler calls. -/
structure DlEnv (w : Type) where
  cset0BwpStart : ℕ
  cset0BwpSize : ℕ
  nrComputeTbs : ComputeTbs
  getRQmDl : Ue → ℕ → ℕ × ℕ
  getDlTda : ℤ
  getDlTdaInfo : Ue → ℤ → Option TdaInfo
  getDlDmrsParams : Ue → TdaInfo → ℕ → ℕ
  selectMcs : Ue → ℕ
  beamAllocationProcedure : w → ℤ → BeamAlloc × w
  resetBeamStatus : w → ℤ → Bool → w
  getCceIndex : w → Ue → ℕ → Option ℕ × w
  nrAcknackScheduling : w → Ue → ℕ → Option ℤ × w
  fillPdcchVrbMap : w → Ue → ℕ → ℕ → w × (ℕ → BitVec 16)
  postProcessDlsch : w → Ue → SchedPdsch → Except Fault w
  qsort : List UeSched → List UeSched
  qsort_perm : ∀ l, (qsort l).Perm l

/-- An allocation: a call of `post_process_dlsch`. -/
structure Allocation where
  beam : ℕ
  ue : Ue
  sched : SchedPdsch
  deriving Repr, DecidableEq

/-- The cells an allocation occupies. -/
def Allocation.cells (a : Allocation) : Set (ℕ × ℕ) :=
  allocationCells a.sched.bwpInfo.bwpStart a.sched.rbStart a.sched.rbSize a.sched.tdaInfo

/-- The state of a call of `pf_dl`; `allocations` records the calls of `post_process_dlsch`. -/
structure DlState (w : Type) where
  world : w
  vrbMap : ℕ → VrbMap
  nRbSched : ℕ → ℤ
  remainUes : ℕ → ℤ
  ueSched : List UeSched
  allocations : List Allocation

section Model

variable {w : Type} (env : DlEnv w)

/-- `get_pdsch_bwp_start_size`. -/
def getPdschBwpStartSize (ue : Ue) : BwpInfo :=
  if ue.dci10InCommonSearchSpace then
    ⟨if ue.controlResourceSetId = 0 then env.cset0BwpStart
      else ue.bwpStart + ue.pdcchRbStart + ((ue.bwpStart + 5) / 6 * 6 - ue.bwpStart),
    if env.cset0BwpSize > 0 then min ue.bwpSize env.cset0BwpSize
      else min ue.bwpSize ue.initialDlBwpSize⟩
  else ⟨ue.bwpStart, ue.bwpSize⟩

/-! ### Retransmissions -/

/-- `while (rbStart < rbStop && (rballoc_mask[rbStart] & slbitmap)) rbStart++`. -/
def skipUsed (map : VrbMap) (slbitmap : BitVec 16) (rbStop rbStart : ℕ) : ℕ :=
  scanWhile (fun rb => !rowFree map slbitmap rb) rbStop rbStart

/-- The search for `size` free resource blocks with the old time domain allocation; every iteration
moves `rbStart`, so `rbStop + 1` of them are enough. -/
def findRange (map : VrbMap) (slbitmap : BitVec 16) (rbStop size : ℕ) :
    ℕ → ℕ → ℕ → Except Fault (Option ℕ)
  | 0, _, _ => .ok none
  | n + 1, rbStart, rbSize =>
      if rbSize < size then
        let rbStart := skipUsed map slbitmap rbStop (rbStart + rbSize)
        if rbStart ≥ rbStop then .ok none
        else
          let rbSize := scanWhile (fun k => decide (rbStart + k ≤ rbStop) &&
            rowFree map slbitmap (rbStart + k) && decide (k < size)) (rbStop + 1) 0
          if rbSize > 0 then findRange map slbitmap rbStop size n rbStart rbSize
          else .error .devAssert
      else .ok (some rbStart)

/-- `allocate_dl_retransmission` up to the search for a CCE: the first resource block, which is not
relative to the BWP, and the new allocation. -/
def dlRetransmission (map : VrbMap) (ue : Ue) (retInfo : SchedPdsch) (tdaInfo : TdaInfo) :
    Except Fault (Option (ℕ × SchedPdsch)) :=
  let layers := min ue.nrOfLayers retInfo.nrOfLayers
  let bi := getPdschBwpStartSize env ue
  let rbStop := bi.bwpStart + bi.bwpSize - 1
  if retInfo.tdaInfo.startSymbolIndex = tdaInfo.startSymbolIndex ∧
      retInfo.tdaInfo.nrOfSymbols ≤ tdaInfo.nrOfSymbols ∧ layers = retInfo.nrOfLayers then do
    match ← findRange map retInfo.tdaInfo.bitmap rbStop retInfo.rbSize (rbStop + 2) bi.bwpStart 0 with
    | none => return none
    | some rbStart => return some (rbStart, retInfo)
  else
    let dmrs := env.getDlDmrsParams ue tdaInfo layers
    let rbStart := skipUsed map tdaInfo.bitmap rbStop bi.bwpStart
    if rbStart ≥ rbStop then .ok none
    else
      let rbSize := scanWhile (fun k => decide (rbStart + k ≤ rbStop) &&
        rowFree map tdaInfo.bitmap (rbStart + k)) (rbStop + 1) 0
      if rbSize > 0 then
        let res := nrFindNbRb env.nrComputeTbs
          ⟨retInfo.qm, retInfo.r, tdaInfo.nrOfSymbols, dmrs, layers⟩ false retInfo.tbSize 1 rbSize
        if !res.success || res.tbs ≠ retInfo.tbSize then .ok none
        else
          .ok (some (rbStart, { retInfo with
            tbSize := res.tbs
            rbSize := res.nbRb
            timeDomainAllocation := env.getDlTda
            nrOfLayers := layers
            nbDmrsPrb := dmrs
            tdaInfo := tdaInfo }))
      else .error .devAssert

/-- A CCE and a PUCCH for the feedback, which is not needed where it is disabled. -/
def cceAndPucch (world : w) (ue : Ue) (beam : ℕ) (harqPid : ℤ) : w × Option (ℕ × ℤ) :=
  match env.getCceIndex world ue beam with
  | (none, world) => (world, none)
  | (some cceIndex, world) =>
      if getFeedbackDisabled ue harqPid then (world, some (cceIndex, -1))
      else
        match env.nrAcknackScheduling world ue cceIndex with
        | (none, world) => (world, none)
        | (some alloc, world) => (world, some (cceIndex, alloc))

/-- The map with the PDCCH of a DCI. -/
def withPdcch (map : VrbMap) (pdcch : ℕ → BitVec 16) : VrbMap := fun rb => map rb ||| pdcch rb

/-- `allocate_dl_retransmission`: the allocation and the new map, or none for the return value
false.  The resource blocks are marked by
`for (rb = rbStart; rb < rbSize; rb++) rballoc_mask[rb] |= slbitmap`. -/
def allocateDlRetransmission (world : w) (map : VrbMap) (ue : Ue) (beam : ℕ) (harqPid : ℤ)
    (retInfo : SchedPdsch) : Except Fault (w × Option (SchedPdsch × VrbMap)) :=
  if env.getDlTda < 0 then .error .assertFatal
  else
    match env.getDlTdaInfo ue env.getDlTda with
    | none => .ok (world, none)
    | some tdaInfo => do
        match ← dlRetransmission env map ue retInfo tdaInfo with
        | none => return (world, none)
        | some (rbStart, newSched) =>
            let bi := getPdschBwpStartSize env ue
            match cceAndPucch env world ue beam harqPid with
            | (world, none) => return (world, none)
            | (world, some (cceIndex, alloc)) =>
                let (world, pdcch) := env.fillPdcchVrbMap world ue cceIndex beam
                let sched := { newSched with
                  rbStart := rbStart - bi.bwpStart
                  pucchAllocation := alloc
                  bwpInfo := bi }
                let world ← env.postProcessDlsch world ue sched
                return (world, some (sched,
                  mark (withPdcch map pdcch) rbStart sched.rbSize sched.tdaInfo.bitmap))

/-! ### The first loop -/

/-- `total_rem_ues`. -/
def totalRemUes (numBeams : ℕ) (st : DlState w) : ℤ :=
  ((List.range numBeams).map st.remainUes).sum

/-- The first loop of `pf_dl`: retransmissions, and the list of UEs for new data. -/
def dlFirst (numBeams : ℕ) (st : DlState w) (ue : Ue) : Except Fault (DlState w × Unit) :=
  if !ue.active || totalRemUes numBeams st = 0 then .ok (st, ())
  else
    match ue.retransDlHarq with
    | some (pid, retInfo) =>
        match env.beamAllocationProcedure st.world ue.beamIndex with
        | (⟨none, newBeam⟩, world) =>
            .ok ({ st with world := env.resetBeamStatus world ue.beamIndex newBeam }, ())
        | (⟨some b, newBeam⟩, world) => do
            match ← allocateDlRetransmission env world (st.vrbMap b) ue b pid retInfo with
            | (world, none) =>
                return ({ st with world := env.resetBeamStatus world ue.beamIndex newBeam }, ())
            | (world, some (sched, map)) =>
                return ({ st with
                  world := world
                  vrbMap := Function.update st.vrbMap b map
                  nRbSched := Function.update st.nRbSched b (st.nRbSched b - sched.rbSize)
                  remainUes := Function.update st.remainUes b (st.remainUes b - 1)
                  allocations := st.allocations ++ [⟨b, ue, sched⟩] }, ())
    | none =>
        if ue.availableDlHarq = none ∨ ue.numTotalBytes = 0 ∧ ue.taApply = false then .ok (st, ())
        else .ok ({ st with ueSched := st.ueSched ++ [⟨ue, env.selectMcs ue⟩] }, ())

/-! ### New data -/

/-- `min_rbSize`. -/
def minRbSize : ℕ := 5

/-- The search for free resource blocks of the second loop of `pf_dl`, relative to the BWP: the
first one and their number. -/
def dlFreeRange (map : VrbMap) (slbitmap : BitVec 16) (bi : BwpInfo) : ℕ × ℕ :=
  let rbStop := bi.bwpSize - 1
  let rbStart := scanWhile (fun rb => !rowFree map slbitmap (rb + bi.bwpStart)) rbStop 0
  (rbStart, scanWhile (fun k => decide (rbStart + k ≤ rbStop) &&
    rowFree map slbitmap (rbStart + k + bi.bwpStart)) (rbStop + 1) 1)

/-- The allocation for new data. -/
def dlNewData (s : UeSched) (tdaInfo : TdaInfo) (harqPid alloc : ℤ) (rbStart maxRbSize : ℕ) :
    SchedPdsch :=
  let ue := s.ue
  let dmrs := env.getDlDmrsParams ue tdaInfo ue.nrOfLayers
  let (r, qm) := env.getRQmDl ue s.selectedMcs
  let oh := 3 * 4 + if ue.taApply then 2 else 0
  let res := nrFindNbRb env.nrComputeTbs ⟨qm, r, tdaInfo.nrOfSymbols, dmrs, ue.nrOfLayers⟩ false
    (ue.numTotalBytes + oh) minRbSize maxRbSize
  ⟨res.nbRb, rbStart, s.selectedMcs, r, qm, res.tbs, harqPid, alloc, ue.nrOfLayers, env.getDlTda,
    tdaInfo, dmrs, getPdschBwpStartSize env ue⟩

/-- A planned allocation for new data. -/
structure Plan where
  beam : ℕ
  cceIndex : ℕ
  sched : SchedPdsch
  deriving Repr, DecidableEq

/-- The body of the second loop of `pf_dl` up to the allocation. -/
def dlPlan (st : DlState w) (s : UeSched) : Except Fault (w × Option Plan) :=
  match s.ue.availableDlHarq with
  | none => .ok (st.world, none)
  | some harqPid =>
      match env.beamAllocationProcedure st.world s.ue.beamIndex with
      | (⟨none, _⟩, world) => .ok (world, none)
      | (⟨some b, newBeam⟩, world) =>
          if st.remainUes b = 0 ∨ st.nRbSched b < minRbSize then
            .ok (env.resetBeamStatus world s.ue.beamIndex newBeam, none)
          else if env.getDlTda < 0 then .error .assertFatal
          else
            match env.getDlTdaInfo s.ue env.getDlTda with
            | none => .error .assertFatal
            | some tdaInfo =>
                let range :=
                  dlFreeRange (st.vrbMap b) tdaInfo.bitmap (getPdschBwpStartSize env s.ue)
                if range.2 < minRbSize then
                  .ok (env.resetBeamStatus world s.ue.beamIndex newBeam, none)
                else
                  match cceAndPucch env world s.ue b harqPid with
                  | (world, none) =>
                      .ok (env.resetBeamStatus world s.ue.beamIndex newBeam, none)
                  | (world, some (cceIndex, alloc)) =>
                      .ok (world, some ⟨b, cceIndex,
                        dlNewData env s tdaInfo harqPid alloc range.1 range.2⟩)

/-- The second loop of `pf_dl`: new data.  The resource blocks are marked by
`for (rb = bwp_start; rb < rbSize; rb++) rballoc_mask[rb + rbStart] |= slbitmap`. -/
def dlSecond (st : DlState w) (s : UeSched) : Except Fault (DlState w × Unit) := do
  match ← dlPlan env st s with
  | (world, none) => return ({ st with world := world }, ())
  | (world, some plan) =>
      let b := plan.beam
      let sched := plan.sched
      let (world, pdcch) := env.fillPdcchVrbMap world s.ue plan.cceIndex b
      let world ← env.postProcessDlsch world s.ue sched
      return ({ st with
        world := world
        nRbSched := Function.update st.nRbSched b (st.nRbSched b - sched.rbSize)
        vrbMap := Function.update st.vrbMap b (mark (withPdcch (st.vrbMap b) pdcch)
          (sched.bwpInfo.bwpStart + sched.rbStart) (sched.rbSize + sched.rbStart)
          sched.tdaInfo.bitmap)
        remainUes := Function.update st.remainUes b (st.remainUes b - 1)
        allocations := st.allocations ++ [⟨b, s.ue, sched⟩] }, ())

/-- The state at the start of `pf_dl`. -/
def DlState.start (world : w) (vrbMap : ℕ → VrbMap) (nRbSched : ℕ → ℤ) (maxNumUe : ℤ) :
    DlState w :=
  ⟨world, vrbMap, nRbSched, fun _ => maxNumUe, [], []⟩

/-- `pf_dl`. -/
def pfDl (numBeams : ℕ) (maxNumUe : ℤ) (ues : List Ue) (world : w) (vrbMap : ℕ → VrbMap)
    (nRbSched : ℕ → ℤ) : Except Fault (DlState w) := do
  let (st, _) ← run (dlFirst env numBeams) (DlState.start world vrbMap nRbSched maxNumUe) ues
  let (st, _) ← run (dlSecond env) st (env.qsort st.ueSched)
  return st

end Model

/-! ### The chosen resource blocks -/

variable {map : VrbMap} {slbitmap : BitVec 16} {ue : Ue} {sched : SchedPdsch}
  {vrbMap : ℕ → VrbMap}

variable {rbStop rbStart : ℕ}

theorem skipUsed_free (h : skipUsed map slbitmap rbStop rbStart < rbStop) :
    rowFree map slbitmap (skipUsed map slbitmap rbStop rbStart) = true := by
  have := scanWhile_stopped h
  rwa [Bool.not_eq_false'] at this

theorem findRange_spec {size base : ℕ} (n : ℕ) :
    ∀ rbStart rbSize, base ≤ rbStart →
      (rbSize = 0 ∧ rbStart = base ∨ 0 < rbStop ∧ rbStart + rbSize ≤ rbStop + 1) → rbSize ≤ size →
      (∀ r, rbStart ≤ r → r < rbStart + rbSize → rowFree map slbitmap r = true) →
      ∀ x, findRange map slbitmap rbStop size n rbStart rbSize = .ok (some x) →
        base ≤ x ∧ (size = 0 ∧ x = base ∨ 0 < rbStop ∧ x + size ≤ rbStop + 1) ∧
          ∀ r, x ≤ r → r < x + size → rowFree map slbitmap r = true := by
  induction n with
  | zero =>
    intro rbStart rbSize _ _ _ _ x hx
    cases hx
  | succ n ih =>
    intro rbStart rbSize hbase hin hle hfree x hx
    rw [findRange] at hx
    dsimp only at hx
    split at hx
    · split at hx
      · cases hx
      next hstop =>
        have hlt := not_le.mp hstop
        have hskip := le_scanWhile (fun rb => !rowFree map slbitmap rb) rbStop (rbStart + rbSize)
        have hfirst := skipUsed_free hlt
        rw [← skipUsed] at hskip
        generalize skipUsed map slbitmap rbStop (rbStart + rbSize) = start at hx hlt hskip hfirst
        split at hx
        · obtain ⟨hend, hscan⟩ := @scan_free _ map slbitmap start rbStop (rbStop + 1) 0
            (fun k => decide (start + k ≤ rbStop) && rowFree map slbitmap (start + k) &&
              decide (k < size)) (Nat.zero_le 1) (hlt.le) hfirst (fun k hk => by simp_all)
          have hsize : scanWhile (fun k => decide (start + k ≤ rbStop) &&
              rowFree map slbitmap (start + k) && decide (k < size)) (rbStop + 1) 0 ≤ size := by
            by_contra hgt
            have := scanWhile_passed (Nat.zero_le size) (not_le.mp hgt)
            rw [Bool.and_eq_true, decide_eq_true_eq] at this
            exact Nat.lt_irrefl _ this.2
          exact ih _ _ (by omega) (Or.inr ⟨by omega, hend⟩) hsize hscan x hx
        · cases hx
    · grind

variable {retInfo : SchedPdsch}

theorem dlRetransmission_fits {w : Type} {env : DlEnv w} {tdaInfo : TdaInfo}
    (h : dlRetransmission env map ue retInfo tdaInfo = .ok (some (rbStart, sched))) :
    (getPdschBwpStartSize env ue).bwpStart ≤ rbStart ∧
      Fits map (getPdschBwpStartSize env ue) (rbStart - (getPdschBwpStartSize env ue).bwpStart)
        sched.rbSize sched.tdaInfo.bitmap := by
  unfold dlRetransmission at h
  dsimp only at h
  generalize getPdschBwpStartSize env ue = bi at h
  split at h
  · obtain ⟨r, h1, h2⟩ := bind_returns.mp h
    cases r with
    | none => cases h2
    | some x =>
      obtain ⟨rfl, rfl⟩ := Prod.mk.inj (Option.some.inj (Except.ok.inj h2))
      obtain ⟨hbase, hin, hfree⟩ := findRange_spec _ bi.bwpStart 0 le_rfl
        (Or.inl ⟨rfl, rfl⟩) (Nat.zero_le _) (fun r h1 h2 => absurd h2 (not_lt.mpr h1)) _ h1
      refine ⟨hbase, ?_, ?_⟩
      · omega
      · simp_all
  · split at h
    · cases h
    next hstop =>
      have hlt := not_le.mp hstop
      have hbase := le_scanWhile (fun rb => !rowFree map tdaInfo.bitmap rb)
        (bi.bwpStart + bi.bwpSize - 1) bi.bwpStart
      have hfirst := skipUsed_free hlt
      rw [← skipUsed] at hbase
      generalize skipUsed map tdaInfo.bitmap (bi.bwpStart + bi.bwpSize - 1) bi.bwpStart = start
        at h hlt hbase hfirst
      split at h
      next hpos =>
        split at h
        · cases h
        · obtain ⟨rfl, rfl⟩ := Prod.mk.inj (Option.some.inj (Except.ok.inj h))
          obtain ⟨hend, hscan⟩ := @scan_free _ map tdaInfo.bitmap start
            (bi.bwpStart + bi.bwpSize - 1) (bi.bwpStart + bi.bwpSize - 1 + 1) 0
            (fun k => decide (start + k ≤ bi.bwpStart + bi.bwpSize - 1) &&
              rowFree map tdaInfo.bitmap (start + k)) (Nat.zero_le 1) (hlt.le) hfirst
            (fun k hk => by simp_all)
          refine ⟨hbase, Fits.shorter ⟨?_, ?_⟩ (nrFindNbRb_le hpos)⟩
          · omega
          · intro r h3 h4
            exact hscan r (by omega) (by omega)
      · cases h

theorem dlFreeRange_fits {bi : BwpInfo} (h : minRbSize ≤ (dlFreeRange map slbitmap bi).2) :
    Fits map bi (dlFreeRange map slbitmap bi).1 (dlFreeRange map slbitmap bi).2 slbitmap := by
  unfold dlFreeRange at h ⊢
  dsimp only at h ⊢
  have hle : scanWhile (fun rb => !rowFree map slbitmap (rb + bi.bwpStart)) (bi.bwpSize - 1) 0
      ≤ bi.bwpSize - 1 := scanWhile_le (Nat.zero_le _)
  have hstopped : scanWhile (fun rb => !rowFree map slbitmap (rb + bi.bwpStart)) (bi.bwpSize - 1) 0
      < bi.bwpSize - 1 → rowFree map slbitmap (scanWhile
        (fun rb => !rowFree map slbitmap (rb + bi.bwpStart)) (bi.bwpSize - 1) 0 + bi.bwpStart)
        = true := by
    intro hlt
    have := scanWhile_stopped hlt
    rwa [Bool.not_eq_false'] at this
  generalize scanWhile (fun rb => !rowFree map slbitmap (rb + bi.bwpStart)) (bi.bwpSize - 1) 0 = start
    at h hle hstopped ⊢
  -- at least five resource blocks are counted, so the first one is not the last of the BWP
  have hone := @scanWhile_passed _ (bi.bwpSize - 1 + 1) 1 1 le_rfl
    (Nat.lt_of_lt_of_le (by decide) h)
  rw [Bool.and_eq_true, decide_eq_true_eq] at hone
  have hfirst := hstopped (by omega)
  rw [Nat.add_comm] at hfirst
  obtain ⟨hend, hscan⟩ := @scan_free _ map slbitmap (bi.bwpStart + start)
    (bi.bwpStart + (bi.bwpSize - 1)) (bi.bwpSize - 1 + 1) 1
    (fun k => decide (start + k ≤ bi.bwpSize - 1) &&
      rowFree map slbitmap (start + k + bi.bwpStart)) le_rfl (by omega) hfirst
    (fun k hk => by grind)
  exact ⟨by omega, hscan⟩

/-! ### The packing -/

/-- **No overlap.**  On every beam the allocations are pairwise disjoint, avoid what the initial map
marks and are marked, and every allocation lies inside the BWP of its UE. -/
structure Disjointly {w : Type} (vrbMap : ℕ → VrbMap) (st : DlState w) : Prop where
  packed : ∀ b, Packed (used (vrbMap b)) (cellsOn Allocation.beam Allocation.cells b st.allocations)
    (used (st.vrbMap b))
  inside : ∀ a ∈ st.allocations, a.ue.bwpStart ≤ a.sched.bwpInfo.bwpStart + a.sched.rbStart ∧
    a.sched.bwpInfo.bwpStart + a.sched.rbStart + a.sched.rbSize ≤ a.ue.bwpStart + a.ue.bwpSize

/-- The resource blocks that the DCI can address lie inside the BWP. -/
def AddressesBwp {w : Type} (env : DlEnv w) (ue : Ue) : Prop :=
  ue.bwpStart ≤ (getPdschBwpStartSize env ue).bwpStart ∧
    (getPdschBwpStartSize env ue).bwpStart + (getPdschBwpStartSize env ue).bwpSize
      ≤ ue.bwpStart + ue.bwpSize

theorem used_withPdcch (map : VrbMap) (pdcch : ℕ → BitVec 16) :
    used map ⊆ used (withPdcch map pdcch) := by
  intro c hc
  show (map c.1 ||| pdcch c.1).getLsbD c.2 = true
  rw [BitVec.getLsbD_or, Bool.or_eq_true]
  exact Or.inl hc

variable {b : ℕ}

/-- **One more allocation**, which is marked from its first resource block to its last one. -/
theorem Disjointly.allocate {w : Type} {env : DlEnv w} {st st' : DlState w}
    (h : Disjointly vrbMap st) (pdcch : ℕ → BitVec 16)
    (hbwp : sched.bwpInfo = getPdschBwpStartSize env ue)
    (hfits : Fits (st.vrbMap b) (getPdschBwpStartSize env ue) sched.rbStart sched.rbSize
      sched.tdaInfo.bitmap)
    (hin : AddressesBwp env ue)
    (hmap : st'.vrbMap = Function.update st.vrbMap b (mark (withPdcch (st.vrbMap b) pdcch)
      (sched.bwpInfo.bwpStart + sched.rbStart)
      (sched.bwpInfo.bwpStart + sched.rbStart + sched.rbSize) sched.tdaInfo.bitmap))
    (hallocs : st'.allocations = st.allocations ++ [⟨b, ue, sched⟩]) : Disjointly vrbMap st' := by
  have hcells : (⟨b, ue, sched⟩ : Allocation).cells =
      block (sched.bwpInfo.bwpStart + sched.rbStart) sched.rbSize sched.tdaInfo.bitmap :=
    allocationCells_eq ..
  have hdisj : Disjoint (⟨b, ue, sched⟩ : Allocation).cells (used (st.vrbMap b)) := by
    rw [hcells, hbwp]
    exact block_disjoint_used hfits.free
  refine ⟨?_, ?_⟩
  · intro b'
    rw [hmap, hallocs, cellsOn_concat]
    by_cases hb : b = b'
    · obtain rfl := hb
      rw [Function.update_self, if_pos rfl]
      refine (h.packed b).concat hdisj ?_
      rw [used_mark, hcells]
      exact Set.union_subset_union_left _ (used_withPdcch ..)
    · rw [Function.update_of_ne (Ne.symm hb), if_neg hb, List.append_nil]
      exact h.packed b'
  · intro a ha
    rw [hallocs] at ha
    rcases List.mem_append.mp ha with ha | ha
    · exact h.inside a ha
    · obtain rfl := List.mem_singleton.mp ha
      dsimp only
      rw [hbwp]
      have := hfits.inside
      have := hin.1
      have := hin.2
      omega

section Loops

variable {w : Type} (env : DlEnv w)

/-- A retransmission is only allocated from PRB 0 on. -/
def DlFirstOk (numBeams : ℕ) (st : DlState w) (ue : Ue) : Prop :=
  ue.active = true → totalRemUes numBeams st ≠ 0 →
    ∀ pid retInfo b newBeam world, ue.retransDlHarq = some (pid, retInfo) →
      env.beamAllocationProcedure st.world ue.beamIndex = (⟨some b, newBeam⟩, world) →
    ∀ world' r, allocateDlRetransmission env world (st.vrbMap b) ue b pid retInfo =
      .ok (world', some r) →
    ∀ tdaInfo rbStart newSched, env.getDlTdaInfo ue env.getDlTda = some tdaInfo →
      dlRetransmission env (st.vrbMap b) ue retInfo tdaInfo = .ok (some (rbStart, newSched)) →
    rbStart = 0 ∧ AddressesBwp env ue

/-- New data is only allocated where resource blocks are numbered from PRB 0 on. -/
def DlSecondOk (st : DlState w) (s : UeSched) : Prop :=
  ∀ world plan, dlPlan env st s = .ok (world, some plan) →
    (getPdschBwpStartSize env s.ue).bwpStart = 0 ∧ AddressesBwp env s.ue

variable {env}

variable {world : w}

theorem allocateDlRetransmission_some {world' : w} {map' : VrbMap} {pid : ℤ}
    (h : allocateDlRetransmission env world map ue b pid retInfo =
      .ok (world', some (sched, map'))) :
    ∃ tdaInfo rbStart newSched pdcch, env.getDlTdaInfo ue env.getDlTda = some tdaInfo ∧
      dlRetransmission env map ue retInfo tdaInfo = .ok (some (rbStart, newSched)) ∧
      sched.rbStart = rbStart - (getPdschBwpStartSize env ue).bwpStart ∧
      sched.rbSize = newSched.rbSize ∧ sched.tdaInfo = newSched.tdaInfo ∧
      sched.bwpInfo = getPdschBwpStartSize env ue ∧
      map' = mark (withPdcch map pdcch) rbStart newSched.rbSize newSched.tdaInfo.bitmap := by
  unfold allocateDlRetransmission at h
  split at h
  · cases h
  · split at h
    · cases h
    · obtain ⟨r, h1, h2⟩ := bind_returns.mp h
      cases r with
      | none => cases h2
      | some r =>
        dsimp only at h2
        split at h2
        · cases h2
        · obtain ⟨world₂, _, h3⟩ := bind_returns.mp h2
          obtain ⟨rfl, rfl⟩ := Prod.mk.inj (Option.some.inj (ok_inj h3).2)
          grind

variable {o : Unit}

theorem dlFirst_disjointly {numBeams : ℕ} {st st' : DlState w} (h : Disjointly vrbMap st)
    (hok : DlFirstOk env numBeams st ue)
    (hs : dlFirst env numBeams st ue = .ok (st', o)) : Disjointly vrbMap st' := by
  unfold dlFirst at hs
  split at hs
  · simp_all
  next hgo =>
    split at hs
    next pid retInfo hret =>
      split at hs
      · obtain ⟨rfl, _⟩ := ok_inj hs
        exact ⟨h.packed, h.inside⟩
      next b newBeam world hbeam =>
        obtain ⟨⟨world', r⟩, h1, h2⟩ := bind_returns.mp hs
        cases r with
        | none =>
          obtain ⟨rfl, _⟩ := ok_inj h2
          exact ⟨h.packed, h.inside⟩
        | some r =>
          obtain ⟨rfl, _⟩ := ok_inj h2
          rw [Bool.or_eq_true, not_or, Bool.not_eq_true', Bool.not_eq_false, decide_eq_true_eq]
            at hgo
          obtain ⟨tdaInfo, rbStart, newSched, pdcch, htda, hsearch, hstart, hsize, hsym, hbwp,
            hmap⟩ := allocateDlRetransmission_some h1
          obtain ⟨rfl, hin⟩ := hok hgo.1 hgo.2 _ _ _ _ _ hret hbeam _ _ h1 _ _ _ htda hsearch
          obtain ⟨hbase, hfits⟩ := dlRetransmission_fits hsearch
          rw [← hstart, ← hsize, ← hsym] at hfits
          refine h.allocate pdcch hbwp hfits hin (congrArg (Function.update st.vrbMap b) ?_) rfl
          simp_all
    · split at hs
      · simp_all
      · obtain ⟨rfl, _⟩ := ok_inj hs
        exact ⟨h.packed, h.inside⟩

variable {s : UeSched}

theorem dlPlan_some {st : DlState w} {plan : Plan} (h : dlPlan env st s = .ok (world, some plan)) :
    ∃ tdaInfo harqPid alloc, minRbSize ≤ (dlFreeRange (st.vrbMap plan.beam) tdaInfo.bitmap
        (getPdschBwpStartSize env s.ue)).2 ∧
      plan.sched = dlNewData env s tdaInfo harqPid alloc
        (dlFreeRange (st.vrbMap plan.beam) tdaInfo.bitmap (getPdschBwpStartSize env s.ue)).1
        (dlFreeRange (st.vrbMap plan.beam) tdaInfo.bitmap (getPdschBwpStartSize env s.ue)).2 := by
  unfold dlPlan at h
  split at h
  · cases h
  next harqPid _ =>
    split at h
    · cases h
    · grind

theorem dlSecond_disjointly {st st' : DlState w}
    (h : Disjointly vrbMap st) (hok : DlSecondOk env st s)
    (hs : dlSecond env st s = .ok (st', o)) : Disjointly vrbMap st' := by
  obtain ⟨⟨world, r⟩, h1, h2⟩ := bind_returns.mp hs
  cases r with
  | none =>
    obtain ⟨rfl, _⟩ := ok_inj h2
    exact ⟨h.packed, h.inside⟩
  | some plan =>
    obtain ⟨world', _, rfl, _⟩ := bind_pair_inj h2
    obtain ⟨hzero, hin⟩ := hok world plan h1
    obtain ⟨tdaInfo, harqPid, alloc, hmin, hsched⟩ := dlPlan_some h1
    have hbwp : plan.sched.bwpInfo = getPdschBwpStartSize env s.ue := by rw [hsched]; rfl
    have hrange : plan.sched.rbSize + plan.sched.rbStart =
        plan.sched.bwpInfo.bwpStart + plan.sched.rbStart + plan.sched.rbSize := by
      rw [hbwp, hzero]
      omega
    refine h.allocate (env.fillPdcchVrbMap world s.ue plan.cceIndex plan.beam).2 hbwp ?_ hin
      (congrArg (Function.update st.vrbMap plan.beam) ?_) rfl
    · rw [hsched]
      exact (dlFreeRange_fits hmin).shorter (nrFindNbRb_le hmin)
    · rw [hrange]

end Loops

/-- The two loops of a call meet the conditions. -/
def PfDlOk {w : Type} (env : DlEnv w) (numBeams : ℕ) (maxNumUe : ℤ) (ues : List Ue) (world : w)
    (vrbMap : ℕ → VrbMap) (nRbSched : ℕ → ℤ) : Prop :=
  RunMeets (dlFirst env numBeams) (DlFirstOk env numBeams)
    (DlState.start world vrbMap nRbSched maxNumUe) ues ∧
  ∀ st os, run (dlFirst env numBeams) (DlState.start world vrbMap nRbSched maxNumUe) ues =
      .ok (st, os) →
    RunMeets (dlSecond env) (DlSecondOk env) st (env.qsort st.ueSched)

/-- **Downlink allocations do not overlap**, in a call whose iterations meet the conditions. -/
theorem pfDl_disjointly {w : Type} {env : DlEnv w} {numBeams : ℕ} {maxNumUe : ℤ} {ues : List Ue}
    {world : w} {vrbMap : ℕ → VrbMap} {nRbSched : ℕ → ℤ} {st : DlState w}
    (hok : PfDlOk env numBeams maxNumUe ues world vrbMap nRbSched)
    (h : pfDl env numBeams maxNumUe ues world vrbMap nRbSched = .ok st) :
    Disjointly vrbMap st := by
  obtain ⟨⟨st₁, os₁⟩, h1, h2⟩ := bind_returns.mp h
  obtain ⟨⟨st₂, os₂⟩, h3, rfl⟩ := bind_ok_inj h2
  have hstart : Disjointly vrbMap (DlState.start world vrbMap nRbSched maxNumUe) :=
    ⟨fun b => Packed.nil _, List.forall_mem_nil _⟩
  have hfirst := (RunMeets.reachable Reachable.start hok.1 h1).invariant (Disjointly vrbMap)
    hstart (fun _ _ _ _ hi hg hs => dlFirst_disjointly hi hg hs)
  exact (RunMeets.reachable Reachable.start (hok.2 st₁ os₁ h1) h3).invariant (Disjointly vrbMap)
    hfirst (fun _ _ _ _ hi hg hs => dlSecond_disjointly hi hg hs)

/-- One beam, a CCE and a PUCCH for every UE, eight bytes in a resource block. -/
def simpleEnv : DlEnv Unit where
  cset0BwpStart := 0
  cset0BwpSize := 0
  nrComputeTbs := fun _ _ rb _ _ _ => 64 * rb
  getRQmDl := fun _ _ => (1, 1)
  getDlTda := 0
  getDlTdaInfo := fun _ _ => some fullSlot
  getDlDmrsParams := fun _ _ _ => 0
  selectMcs := fun _ => 0
  beamAllocationProcedure := fun _ _ => (⟨some 0, false⟩, ())
  resetBeamStatus := fun _ _ _ => ()
  getCceIndex := fun _ _ _ => (some 0, ())
  nrAcknackScheduling := fun _ _ _ => (some 0, ())
  fillPdcchVrbMap := fun _ _ _ _ => ((), fun _ => 0)
  postProcessDlsch := fun _ _ _ => .ok ()
  qsort := fun l => l
  qsort_perm := fun _ => List.Perm.refl _

/-- A UE with 28 bytes to send, 40 with the overhead, and a BWP of 20 resource blocks. -/
def simpleUe (rnti bwpStart : ℕ) : Ue :=
  ⟨rnti, true, 0, bwpStart, 20, false, 1, 0, 20, 1, none, some 0, none, 28, false⟩

/-- The allocation the UE gets: five resource blocks. -/
def simpleSched (rbStart bwpStart : ℕ) : SchedPdsch :=
  ⟨5, rbStart, 0, 1, 1, 40, 0, 0, 1, 0, fullSlot, 0, ⟨bwpStart, 20⟩⟩

/-- Two UEs whose BWPs start at PRB 0 get PRBs 0 to 4 and 5 to 9. -/
theorem pfDl_disjointly_two :
    PfDlOk simpleEnv 1 4 [simpleUe 1 0, simpleUe 2 0] () (fun _ _ => 0) (fun _ => 20) ∧
    ∃ st, pfDl simpleEnv 1 4 [simpleUe 1 0, simpleUe 2 0] () (fun _ _ => 0) (fun _ => 20) =
        .ok st ∧
      st.allocations = [⟨0, simpleUe 1 0, simpleSched 0 0⟩, ⟨0, simpleUe 2 0, simpleSched 5 0⟩] ∧
      Disjointly (fun _ _ => 0) st := by
  have hok : PfDlOk simpleEnv 1 4 [simpleUe 1 0, simpleUe 2 0] () (fun _ _ => 0)
      (fun _ => 20) := by
    refine ⟨?_, ?_⟩
    · intro is₁ ue is₂ st os his _ _ _ pid retInfo b newBeam world hret
      have hmem : ue ∈ [simpleUe 1 0, simpleUe 2 0] := by rw [his]; simp
      simp only [List.mem_cons, List.not_mem_nil, or_false] at hmem
      rcases hmem with rfl | rfl <;> cases hret
    · intro st os hrun is₁ s is₂ st' os' his _ world plan _
      have hobs : (run (dlFirst simpleEnv 1) (DlState.start () (fun _ _ => 0) (fun _ => 20) 4)
          [simpleUe 1 0, simpleUe 2 0]).toOption.map (fun r => r.1.ueSched) =
          some [⟨simpleUe 1 0, 0⟩, ⟨simpleUe 2 0, 0⟩] := by decide +kernel
      rw [hrun] at hobs
      have hlist : st.ueSched = [⟨simpleUe 1 0, 0⟩, ⟨simpleUe 2 0, 0⟩] := Option.some.inj hobs
      have hmem : s ∈ st.ueSched := by
        have : simpleEnv.qsort st.ueSched = st.ueSched := rfl
        rw [← this, his]
        simp
      rw [hlist] at hmem
      simp only [List.mem_cons, List.not_mem_nil, or_false] at hmem
      rcases hmem with rfl | rfl <;> exact ⟨rfl, le_rfl, le_rfl⟩
  obtain ⟨st, hrun, hobs⟩ := exists_of_observed
    (x := pfDl simpleEnv 1 4 [simpleUe 1 0, simpleUe 2 0] () (fun _ _ => 0) (fun _ => 20))
    (f := fun st => st.allocations)
    (b := [⟨0, simpleUe 1 0, simpleSched 0 0⟩, ⟨0, simpleUe 2 0, simpleSched 5 0⟩])
    (by decide +kernel)
  exact ⟨hok, st, hrun, hobs, pfDl_disjointly hok hrun⟩

/-- **Two UEs get the same resource blocks** when their BWP starts at PRB 10. -/
theorem not_pfDl_disjointly :
    ¬ ∀ (w : Type) (env : DlEnv w) (numBeams : ℕ) (maxNumUe : ℤ) (ues : List Ue) (world : w)
      (vrbMap : ℕ → VrbMap) (nRbSched : ℕ → ℤ) (st : DlState w),
      pfDl env numBeams maxNumUe ues world vrbMap nRbSched = .ok st → Disjointly vrbMap st := by
  intro h
  obtain ⟨st, hrun, hobs⟩ := exists_of_observed
    (x := pfDl simpleEnv 1 4 [simpleUe 1 10, simpleUe 2 10] () (fun _ _ => 0) (fun _ => 20))
    (f := fun st => st.allocations)
    (b := [⟨0, simpleUe 1 10, simpleSched 0 10⟩, ⟨0, simpleUe 2 10, simpleSched 0 10⟩])
    (by decide +kernel)
  have hdisj := ((h _ _ _ _ _ _ _ _ _ hrun).packed 0).disjoint
  rw [show st.allocations = _ from hobs] at hdisj
  have hcells := List.rel_of_pairwise_cons hdisj (List.mem_singleton_self _)
  have hmem : (10, 0) ∈ (⟨0, simpleUe 1 10, simpleSched 0 10⟩ : Allocation).cells := by
    refine ⟨⟨?_, ?_⟩, ?_, ?_⟩ <;> decide
  exact Set.disjoint_left.mp hcells hmem hmem

end OaiGnb.Mac.Dl
