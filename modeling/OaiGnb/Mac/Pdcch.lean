import OaiGnb.Lib.Run
import OaiGnb.Mac.Scheduler

/-!
# PDCCH candidates

`set_pdcch_structure`, `find_pdcch_candidate`, `fill_pdcch_vrb_map` and `cce_to_reg_interleaving`,
and the calls of one slot for one CORESET as a state machine over the VRB map.

The REGs of a candidate are numbered symbol by symbol through the resource blocks that
`frequencyDomainResources` selects.  The scheduler looks for them from the start of the bandwidth
part on, as if the CORESET began there and had no gaps.

* `free_iff_disjoint`: the scheduler finds a candidate free exactly if its cells are.
* `pdcch_noCollision`: the candidates granted in a slot do not collide, if the VRB map has the same
  marks where the CORESET is and where the scheduler looks.
-/

namespace OaiGnb.Mac.Pdcch

open Run ResourceGrid

/-! ### Configuration -/

/-- `reg_BundleSize` and `interleaverSize`. -/
inductive Size where
  | n2
  | n3
  | n6
  deriving Repr, DecidableEq

/-- The value of a size. -/
def Size.value : Size → ℕ
  | .n2 => 2
  | .n3 => 3
  | .n6 => 6

/-- `cce_REG_MappingType`. -/
inductive CceRegMappingType where
  | interleaved (regBundleSize interleaverSize : Size) (shiftIndex : Option ℕ)
  | nonInterleaved
  deriving Repr, DecidableEq

/-- `NR_ControlResourceSet_t`. -/
structure Coreset where
  frequencyDomainResources : Fin 6 → BitVec 8
  duration : ℕ
  cceRegMappingType : CceRegMappingType
  duration_range : 1 ≤ duration ∧ duration ≤ 3

/-- `NR_sched_pdcch_t`. -/
structure SchedPdcch where
  bwpStart : ℕ
  startSymbolIndex : ℕ
  durationSymbols : ℕ
  regBundleSize : ℕ
  interleaverSize : ℕ
  shiftIndex : ℕ
  nRb : ℕ
  rbStart : ℕ
  deriving Repr, DecidableEq

/-- Bit `7 - t` of byte `i` of the bitmap, for the group `8 * i + t` of six resource blocks. -/
def Coreset.selects (c : Coreset) (group : ℕ) : Bool :=
  ((c.frequencyDomainResources (Fin.ofNat 6 (group / 8))).toNat >>> (7 - group % 8)) % 2 == 1

/-- `get_coreset_rb_params`: `n_rb` and `rb_start`. -/
def getCoresetRbParams (c : Coreset) : ℕ × ℕ :=
  (List.range 48).foldl (fun acc group =>
    if c.selects group = true then
      (acc.1 + 6, if acc.1 = 0 then 48 * (group / 8) + group % 8 * 6 else acc.2)
    else acc) (0, 0)

/-- `set_pdcch_structure`, for the start of the bandwidth part, the cell and the first symbol that
the search space monitors. -/
def setPdcchStructure (c : Coreset) (bwpStart physCellId startSymbolIndex : ℕ) : SchedPdcch :=
  let (nRb, rbStart) := getCoresetRbParams c
  match c.cceRegMappingType with
  | .interleaved regBundleSize interleaverSize shiftIndex =>
      ⟨bwpStart, startSymbolIndex, c.duration, regBundleSize.value, interleaverSize.value,
        shiftIndex.getD physCellId, nRb, rbStart⟩
  | .nonInterleaved => ⟨bwpStart, startSymbolIndex, c.duration, 6, 0, 0, nRb, rbStart⟩

/-! ### Candidates -/

/-- `cce_to_reg_interleaving`. -/
def cceToRegInterleaving (R k nShift C L nRegs : ℕ) : ℕ :=
  if R = 0 then k
  else
    let c := k / R
    let r := k % R
    (r * C + c + nShift) % (nRegs / L)

/-- The bundle `f` of bundle `k`, for a CORESET of `nSymb` symbols. -/
def SchedPdcch.bundle (p : SchedPdcch) (nSymb k : ℕ) : ℕ :=
  let nRegs := p.nRb * nSymb
  let R := p.interleaverSize
  let L := p.regBundleSize
  let C := if R > 0 then nRegs / (L * R) else 0
  cceToRegInterleaving R k p.shiftIndex C L nRegs

/-- The bundles of CCEs: `for (k = 6*j/L; k < 6*j/L + 6/L; k++)` in the loop over the CCEs. -/
def SchedPdcch.bundles (p : SchedPdcch) (firstCce aggregation : ℕ) : List ℕ :=
  (List.range' firstCce aggregation).flatMap fun j =>
    List.range' (6 * j / p.regBundleSize) (6 / p.regBundleSize)

/-- The resource blocks `f * B_rb + rb` of a candidate, relative to the start of the bandwidth part.
The search and the marking loop over them. -/
def SchedPdcch.blocks (p : SchedPdcch) (nSymb firstCce aggregation : ℕ) : List ℕ :=
  let bRb := p.regBundleSize / nSymb
  (p.bundles firstCce aggregation).flatMap fun k =>
    (List.range bRb).map fun rb => p.bundle nSymb k * bRb + rb

/-- The arithmetic fault of a division by 0. -/
inductive PdcchFault where
  | divisionByZero
  deriving Repr, DecidableEq

/-- `N_cces`. -/
def SchedPdcch.nCces (p : SchedPdcch) (nSymb : ℕ) : ℕ := p.nRb * nSymb / 6

/-- `first_cce` of candidate `m`; the sum is a `uint32_t`. -/
def SchedPdcch.position (p : SchedPdcch) (nSymb aggregation nrOfCandidates Y m : ℕ) : ℕ :=
  aggregation * ((Y + m * p.nCces nSymb / (aggregation * nrOfCandidates)) % 2 ^ 32
    % (p.nCces nSymb / aggregation))

/-- Whether no resource of a candidate is taken. -/
def isFree (vrbMap : VrbMap) (p : SchedPdcch) (nSymb firstCce aggregation : ℕ) : Bool :=
  (p.blocks nSymb firstCce aggregation).all fun x =>
    rowFree vrbMap (slToBitmap p.startSymbolIndex nSymb) (p.bwpStart + x)

/-- `find_pdcch_candidate`; none stands for -1. -/
def findPdcchCandidate (vrbMap : VrbMap) (aggregation nrOfCandidates : ℕ) (p : SchedPdcch)
    (c : Coreset) (Y : ℕ) : Except PdcchFault (Option ℕ) :=
  let nSymb := c.duration
  if nrOfCandidates = 0 then .ok none
  else if p.nCces nSymb / aggregation = 0 then .error .divisionByZero
  else
    .ok (((List.range nrOfCandidates).map
      (p.position nSymb aggregation nrOfCandidates Y)).find? fun firstCce =>
        isFree vrbMap p nSymb firstCce aggregation)

/-- `fill_pdcch_vrb_map`. -/
def fillPdcchVrbMap (vrbMap : VrbMap) (p : SchedPdcch) (firstCce aggregation : ℕ) : VrbMap :=
  (p.blocks p.durationSymbols firstCce aggregation).foldl (fun v x =>
    Function.update v (p.bwpStart + x)
      (v (p.bwpStart + x) ||| slToBitmap p.startSymbolIndex p.durationSymbols)) vrbMap

/-! ### The calls of a slot -/

/-- A CORESET in a bandwidth part of a cell. -/
structure Site where
  coreset : Coreset
  bwpStart : ℕ
  physCellId : ℕ

/-- `sched_pdcch` for a search space with the given first symbol. -/
def Site.pdcch (e : Site) (startSymbolIndex : ℕ) : SchedPdcch :=
  setPdcchStructure e.coreset e.bwpStart e.physCellId startSymbolIndex

/-- A search for a candidate; the candidate found is marked if the transmission goes ahead. -/
structure Call where
  aggregation : ℕ
  nrOfCandidates : ℕ
  Y : ℕ
  startSymbolIndex : ℕ
  goesAhead : Bool
  deriving Repr, DecidableEq

/-- A candidate that was granted. -/
structure Grant where
  startSymbolIndex : ℕ
  firstCce : ℕ
  aggregation : ℕ
  deriving Repr, DecidableEq

/-- The VRB map and what was granted so far. -/
structure State where
  vrbMap : VrbMap
  granted : List Grant

/-- The search of a call. -/
def search (e : Site) (s : State) (call : Call) : Except PdcchFault (Option ℕ) :=
  findPdcchCandidate s.vrbMap call.aggregation call.nrOfCandidates (e.pdcch call.startSymbolIndex)
    e.coreset call.Y

/-- The candidate of a call at a position. -/
def Call.grant (call : Call) (firstCce : ℕ) : Grant :=
  ⟨call.startSymbolIndex, firstCce, call.aggregation⟩

/-- What a call does with the result of its search. -/
def place (e : Site) (s : State) (call : Call) : Option ℕ → State
  | some firstCce =>
      if call.goesAhead = true then
        ⟨fillPdcchVrbMap s.vrbMap (e.pdcch call.startSymbolIndex) firstCce call.aggregation,
          s.granted ++ [call.grant firstCce]⟩
      else s
  | none => s

/-- One call. -/
def step (e : Site) (s : State) (call : Call) : Except PdcchFault (State × Option ℕ) := do
  let found ← search e s call
  return (place e s call found, found)

/-! ### Where the candidates are -/

/-- The groups of six resource blocks that a CORESET consists of. -/
def Coreset.groups (c : Coreset) : List ℕ := (List.range 48).filter c.selects

/-- The resource blocks of a CORESET, relative to the start of the bandwidth part. -/
def Coreset.resourceBlocks (c : Coreset) : List ℕ :=
  c.groups.flatMap fun group => (List.range 6).map (6 * group + ·)

/-- The PRB of the resource block `x` of the CORESET. -/
def Site.prb (e : Site) (x : ℕ) : ℕ := e.bwpStart + e.coreset.resourceBlocks.getD x 0

/-- The PRB and the symbol of a REG: REGs are numbered symbol by symbol. -/
def Site.regCell (e : Site) (startSymbolIndex reg : ℕ) : ℕ × ℕ :=
  (e.prb (reg / e.coreset.duration), startSymbolIndex + reg % e.coreset.duration)

/-- The cells of a candidate: bundle `f` consists of the `L` REGs from `f * L` on. -/
def Site.candidateCells (e : Site) (g : Grant) : Set (ℕ × ℕ) :=
  let p := e.pdcch g.startSymbolIndex
  {cell | ∃ k ∈ p.bundles g.firstCce g.aggregation, ∃ n < p.regBundleSize,
    cell = e.regCell g.startSymbolIndex (p.bundle e.coreset.duration k * p.regBundleSize + n)}

/-- `N_cces` of the CORESET. -/
def Site.nCces (e : Site) : ℕ := (e.pdcch 0).nCces e.coreset.duration

/-- `L` of the CORESET. -/
def Site.regBundleSize (e : Site) : ℕ := (e.pdcch 0).regBundleSize

theorem getCoresetRbParams_fst (c : Coreset) :
    (getCoresetRbParams c).1 = c.resourceBlocks.length := by
  have hfold : ∀ (l : List ℕ) (acc : ℕ × ℕ),
      (l.foldl (fun acc group =>
        if c.selects group = true then
          (acc.1 + 6, if acc.1 = 0 then 48 * (group / 8) + group % 8 * 6 else acc.2)
        else acc) acc).1 = acc.1 + 6 * (l.filter c.selects).length := by
    intro l
    induction l with
    | nil =>
      intro acc
      rfl
    | cons group l ih =>
      intro acc
      rw [List.foldl_cons, ih, List.filter_cons]
      split
      · grind
      · rfl
  have hlen : c.resourceBlocks.length = 6 * c.groups.length := by
    unfold Coreset.resourceBlocks
    rw [List.length_flatMap]
    simp only [List.length_map, List.length_range, List.map_const', List.sum_replicate_nat]
    exact Nat.mul_comm _ _
  rw [getCoresetRbParams, hfold, Nat.zero_add, hlen]
  rfl

theorem resourceBlocks_nodup (c : Coreset) : c.resourceBlocks.Nodup := by
  refine List.nodup_flatMap.mpr ⟨?_, ?_⟩
  · intro group _
    exact List.Nodup.map (fun _ _ h => Nat.add_left_cancel h) List.nodup_range
  · refine (List.nodup_range.filter c.selects).imp ?_
    intro group group' hne x hx hx'
    grind

variable {firstCce aggregation : ℕ} {cell : ℕ × ℕ}

section Geometry

variable (e : Site) (start : ℕ)

@[simp] theorem pdcch_bwpStart : (e.pdcch start).bwpStart = e.bwpStart := by
  unfold Site.pdcch setPdcchStructure
  dsimp only
  split <;> rfl

@[simp] theorem pdcch_startSymbolIndex : (e.pdcch start).startSymbolIndex = start := by
  unfold Site.pdcch setPdcchStructure
  dsimp only
  split <;> rfl

@[simp] theorem pdcch_durationSymbols : (e.pdcch start).durationSymbols = e.coreset.duration := by
  unfold Site.pdcch setPdcchStructure
  dsimp only
  split <;> rfl

@[simp] theorem pdcch_regBundleSize : (e.pdcch start).regBundleSize = e.regBundleSize := by
  unfold Site.regBundleSize Site.pdcch setPdcchStructure
  dsimp only
  split <;> rfl

@[simp] theorem pdcch_nRb : (e.pdcch start).nRb = e.coreset.resourceBlocks.length := by
  rw [← getCoresetRbParams_fst]
  unfold Site.pdcch setPdcchStructure
  dsimp only
  split <;> rfl

@[simp] theorem pdcch_nCces : (e.pdcch start).nCces e.coreset.duration = e.nCces := by
  unfold Site.nCces SchedPdcch.nCces
  rw [pdcch_nRb, pdcch_nRb]

theorem regBundleSize_dvd : e.regBundleSize ∣ 6 := by
  have hsize : ∀ l : Size, l.value ∣ 6 := by
    intro l
    cases l <;> decide
  unfold Site.regBundleSize Site.pdcch setPdcchStructure
  dsimp only
  split
  · exact hsize _
  · exact Nat.dvd_refl 6

theorem regBundleSize_pos : 0 < e.regBundleSize :=
  Nat.pos_of_dvd_of_pos (regBundleSize_dvd e) (by decide)

variable {k : ℕ}

theorem lt_of_mem_bundles (hfit : firstCce + aggregation ≤ e.nCces)
    (hk : k ∈ (e.pdcch start).bundles firstCce aggregation) :
    k < e.coreset.resourceBlocks.length * e.coreset.duration / e.regBundleSize := by
  obtain ⟨j, hj, hk⟩ := List.mem_flatMap.mp hk
  rw [pdcch_regBundleSize, List.mem_range'_1] at hk
  rw [List.mem_range'_1] at hj
  obtain ⟨q, hq⟩ := regBundleSize_dvd e
  have hpos := regBundleSize_pos e
  have hj6 : 6 * j / e.regBundleSize = q * j := by
    rw [hq, Nat.mul_assoc, Nat.mul_div_cancel_left _ hpos]
  have h6 : 6 / e.regBundleSize = q := Nat.div_eq_of_eq_mul_right hpos hq
  have hcces : e.nCces = e.coreset.resourceBlocks.length * e.coreset.duration / 6 := by
    unfold Site.nCces SchedPdcch.nCces
    rw [pdcch_nRb]
  -- the CCE ends within the CORESET, so its last bundle does
  have hend : (j + 1) * 6 ≤ e.coreset.resourceBlocks.length * e.coreset.duration :=
    (Nat.le_div_iff_mul_le (by decide)).mp (by omega)
  have hlast : q * (j + 1) ≤ e.coreset.resourceBlocks.length * e.coreset.duration
      / e.regBundleSize := by
    refine (Nat.le_div_iff_mul_le hpos).mpr (Nat.le_trans (Nat.le_of_eq ?_) hend)
    rw [Nat.mul_comm (q * (j + 1)), ← Nat.mul_assoc, ← hq, Nat.mul_comm]
  grind

theorem bundle_lt
    (hk : k < e.coreset.resourceBlocks.length * e.coreset.duration / e.regBundleSize) :
    (e.pdcch start).bundle e.coreset.duration k
      < e.coreset.resourceBlocks.length * e.coreset.duration / e.regBundleSize := by
  unfold SchedPdcch.bundle cceToRegInterleaving
  dsimp only
  rw [pdcch_nRb, pdcch_regBundleSize]
  split
  · exact hk
  · exact Nat.mod_lt _ (Nat.zero_lt_of_lt hk)

variable {x : ℕ}

theorem mem_blocks :
    x ∈ (e.pdcch start).blocks e.coreset.duration firstCce aggregation ↔
      ∃ k ∈ (e.pdcch start).bundles firstCce aggregation,
        ∃ rb < e.regBundleSize / e.coreset.duration,
          (e.pdcch start).bundle e.coreset.duration k * (e.regBundleSize / e.coreset.duration) + rb
            = x := by
  unfold SchedPdcch.blocks
  simp

theorem lt_of_mem_blocks (hfit : firstCce + aggregation ≤ e.nCces)
    (hx : x ∈ (e.pdcch start).blocks e.coreset.duration firstCce aggregation) :
    x < e.coreset.resourceBlocks.length := by
  obtain ⟨k, hk, rb, hrb, rfl⟩ := (mem_blocks e start).mp hx
  have hf := bundle_lt e start (lt_of_mem_bundles e start hfit hk)
  have hdur := e.coreset.duration_range.1
  -- the blocks of all bundles are at most those of the CORESET
  have hall : e.coreset.resourceBlocks.length * e.coreset.duration / e.regBundleSize
      * (e.regBundleSize / e.coreset.duration) ≤ e.coreset.resourceBlocks.length := by
    refine Nat.le_of_mul_le_mul_right ?_ hdur
    calc _ = e.coreset.resourceBlocks.length * e.coreset.duration / e.regBundleSize
          * (e.regBundleSize / e.coreset.duration * e.coreset.duration) := Nat.mul_assoc _ _ _
      _ ≤ e.coreset.resourceBlocks.length * e.coreset.duration / e.regBundleSize
          * e.regBundleSize := Nat.mul_le_mul_left _ (Nat.div_mul_le_self _ _)
      _ ≤ e.coreset.resourceBlocks.length * e.coreset.duration := Nat.div_mul_le_self _ _
  have hnext := Nat.mul_le_mul_right (e.regBundleSize / e.coreset.duration) hf
  grind

variable {e}

theorem prb_inj {y : ℕ} (hx : x < e.coreset.resourceBlocks.length)
    (hy : y < e.coreset.resourceBlocks.length) (h : e.prb x = e.prb y) : x = y := by
  unfold Site.prb at h
  rw [List.getD_eq_getElem _ _ hx, List.getD_eq_getElem _ _ hy] at h
  exact ((resourceBlocks_nodup e.coreset).getElem_inj_iff).mp (Nat.add_left_cancel h)

/-- **The cells of a candidate** are the symbols of the CORESET in its resource blocks, if a bundle
has whole resource blocks. -/
theorem mem_candidateCells (hdvd : e.coreset.duration ∣ e.regBundleSize) {g : Grant} :
    cell ∈ e.candidateCells g ↔
      ∃ x ∈ (e.pdcch g.startSymbolIndex).blocks e.coreset.duration g.firstCce g.aggregation,
        cell.1 = e.prb x ∧ g.startSymbolIndex ≤ cell.2 ∧
          cell.2 < g.startSymbolIndex + e.coreset.duration := by
  obtain ⟨b, hb⟩ := hdvd
  have hdur : 0 < e.coreset.duration := e.coreset.duration_range.1
  have hbRb : e.regBundleSize / e.coreset.duration = b := by
    rw [hb, Nat.mul_div_cancel_left _ hdur]
  show (∃ k ∈ (e.pdcch g.startSymbolIndex).bundles g.firstCce g.aggregation,
    ∃ n < (e.pdcch g.startSymbolIndex).regBundleSize, cell = e.regCell g.startSymbolIndex
      ((e.pdcch g.startSymbolIndex).bundle e.coreset.duration k
        * (e.pdcch g.startSymbolIndex).regBundleSize + n)) ↔ _
  rw [pdcch_regBundleSize]
  have hreg : ∀ f n, f * e.regBundleSize + n = n + e.coreset.duration * (f * b) := by
    intro f n
    rw [hb, Nat.mul_left_comm, Nat.add_comm]
  refine ⟨?_, ?_⟩
  · intro hcell
    obtain ⟨k, hk, n, hn, rfl⟩ := hcell
    refine ⟨_, (mem_blocks e _).mpr ⟨k, hk, n / e.coreset.duration, ?_, rfl⟩, ?_, ?_, ?_⟩
    · rw [hbRb]
      exact Nat.div_lt_of_lt_mul (hb ▸ hn)
    · show e.prb _ = e.prb _
      rw [hreg, Nat.add_mul_div_left _ _ hdur, hbRb, Nat.add_comm]
    · exact Nat.le_add_right _ _
    · exact Nat.add_lt_add_left (Nat.mod_lt _ hdur) _
  · intro hcell
    obtain ⟨x, hx, hprb, hlo, hhi⟩ := hcell
    obtain ⟨k, hk, rb, hrb, rfl⟩ := (mem_blocks e _).mp hx
    rw [hbRb] at hrb hprb
    have hsym : cell.2 - g.startSymbolIndex < e.coreset.duration := by omega
    refine ⟨k, hk, cell.2 - g.startSymbolIndex + e.coreset.duration * rb, ?_, ?_⟩
    · have := Nat.mul_le_mul_left e.coreset.duration hrb
      grind
    · refine Prod.ext ?_ ?_
      · show cell.1 = e.prb _
        rw [hprb, hreg, Nat.add_assoc, ← Nat.mul_add, Nat.add_mul_div_left _ _ hdur,
          Nat.div_eq_of_lt hsym, Nat.zero_add, Nat.add_comm rb]
      · show cell.2 = g.startSymbolIndex + _ % e.coreset.duration
        rw [hreg, Nat.add_assoc, ← Nat.mul_add, Nat.add_mul_mod_self_left, Nat.mod_eq_of_lt hsym]
        omega

end Geometry

/-! ### Searches and marks -/

theorem mem_used_fillPdcchVrbMap {e : Site} {start : ℕ} {v : VrbMap}
    (hsym : start + e.coreset.duration ≤ 14) :
    cell ∈ used (fillPdcchVrbMap v (e.pdcch start) firstCce aggregation) ↔ cell ∈ used v ∨
      (∃ x ∈ (e.pdcch start).blocks e.coreset.duration firstCce aggregation,
        e.bwpStart + x = cell.1) ∧ start ≤ cell.2 ∧ cell.2 < start + e.coreset.duration := by
  have hfold : ∀ (l : List ℕ) (m : BitVec 16) (v : VrbMap),
      cell ∈ used (l.foldl (fun v x =>
        Function.update v (e.bwpStart + x) (v (e.bwpStart + x) ||| m)) v) ↔
        cell ∈ used v ∨ (∃ x ∈ l, e.bwpStart + x = cell.1) ∧ m.getLsbD cell.2 = true := by
    intro l m
    induction l with
    | nil =>
      simp
    | cons y l ih =>
      intro v
      rw [List.foldl_cons, ih]
      have hupdate : cell ∈ used (Function.update v (e.bwpStart + y) (v (e.bwpStart + y) ||| m)) ↔
          cell ∈ used v ∨ e.bwpStart + y = cell.1 ∧ m.getLsbD cell.2 = true := by
        show (Function.update v (e.bwpStart + y) (v (e.bwpStart + y) ||| m) cell.1).getLsbD cell.2
          = true ↔ (v cell.1).getLsbD cell.2 = true ∨ _
        by_cases heq : e.bwpStart + y = cell.1
        · simp_all
        · grind
      simp only [List.mem_cons, exists_eq_or_imp]
      tauto
  unfold fillPdcchVrbMap
  rw [pdcch_durationSymbols, pdcch_startSymbolIndex, pdcch_bwpStart, hfold,
    getLsbD_slToBitmap (hsym.trans (by decide))]

section Slot

variable {e : Site} {v₀ : VrbMap} {s : State}

/-- A call for a search space within the slot and an aggregation level that the CORESET has room
for.  The VRB map had the same marks at the start of the bandwidth part as in the CORESET. -/
structure Fits (e : Site) (v₀ : VrbMap) (call : Call) : Prop where
  symbols : call.startSymbolIndex + e.coreset.duration ≤ 14
  level : 0 < call.nrOfCandidates → 1 ≤ call.aggregation ∧ call.aggregation ≤ e.nCces
  marks : ∀ x < e.coreset.resourceBlocks.length,
    rowFree v₀ (slToBitmap call.startSymbolIndex e.coreset.duration) (e.bwpStart + x) =
      rowFree v₀ (slToBitmap call.startSymbolIndex e.coreset.duration) (e.prb x)

/-- The cells that were marked at first or belong to a candidate that was granted. -/
def occupied (e : Site) (v₀ : VrbMap) (s : State) : Set (ℕ × ℕ) :=
  used v₀ ∪ {cell | ∃ g ∈ s.granted, cell ∈ e.candidateCells g}

/-- **Nothing collides.** -/
structure NoCollision (e : Site) (v₀ : VrbMap) (s : State) : Prop where
  inRange : ∀ g ∈ s.granted, g.firstCce + g.aggregation ≤ e.nCces
  packed : Packed (used v₀) (s.granted.map e.candidateCells) (occupied e v₀ s)

/-- What the VRB map says about the resource blocks where the scheduler looks. -/
def Recorded (e : Site) (v₀ : VrbMap) (s : State) : Prop :=
  ∀ x sym, (e.bwpStart + x, sym) ∈ used s.vrbMap ↔ (e.bwpStart + x, sym) ∈ used v₀ ∨
    ∃ g ∈ s.granted,
      x ∈ (e.pdcch g.startSymbolIndex).blocks e.coreset.duration g.firstCce g.aggregation ∧
        g.startSymbolIndex ≤ sym ∧ sym < g.startSymbolIndex + e.coreset.duration

theorem rowFree_iff_prb (hdvd : e.coreset.duration ∣ e.regBundleSize) (hrec : Recorded e v₀ s)
    (hrange : ∀ g ∈ s.granted, g.firstCce + g.aggregation ≤ e.nCces) {call : Call}
    (hfits : Fits e v₀ call) {x : ℕ} (hx : x < e.coreset.resourceBlocks.length) :
    rowFree s.vrbMap (slToBitmap call.startSymbolIndex e.coreset.duration) (e.bwpStart + x) = true ↔
      ∀ sym, call.startSymbolIndex ≤ sym → sym < call.startSymbolIndex + e.coreset.duration →
        (e.prb x, sym) ∉ occupied e v₀ s := by
  have hmask := getLsbD_slToBitmap (hfits.symbols.trans (show 14 ≤ 16 by decide))
  have hmarks : (∀ sym, call.startSymbolIndex ≤ sym →
      sym < call.startSymbolIndex + e.coreset.duration → (e.bwpStart + x, sym) ∉ used v₀) ↔
      ∀ sym, call.startSymbolIndex ≤ sym →
        sym < call.startSymbolIndex + e.coreset.duration → (e.prb x, sym) ∉ used v₀ := by
    have h := Bool.eq_iff_iff.mp (hfits.marks x hx)
    rw [rowFree_iff, rowFree_iff] at h
    simp only [hmask, and_imp] at h
    exact h
  -- a granted candidate has the PRB exactly if its blocks were marked
  have hgrant : ∀ g ∈ s.granted, ∀ sym, (e.prb x, sym) ∈ e.candidateCells g ↔
      x ∈ (e.pdcch g.startSymbolIndex).blocks e.coreset.duration g.firstCce g.aggregation ∧
        g.startSymbolIndex ≤ sym ∧ sym < g.startSymbolIndex + e.coreset.duration := by
    intro g hg sym
    rw [mem_candidateCells hdvd]
    refine ⟨?_, fun h => ⟨x, h.1, rfl, h.2⟩⟩
    intro h
    obtain ⟨y, hy, hprb, hrest⟩ := h
    obtain rfl := prb_inj hx (lt_of_mem_blocks e _ (hrange g hg) hy) hprb
    exact ⟨hy, hrest⟩
  rw [rowFree_iff]
  simp only [hmask, and_imp]
  refine ⟨?_, ?_⟩
  · intro hfree sym hlo hhi hocc
    rcases hocc with hu | hocc
    · refine hmarks.mp ?_ sym hlo hhi hu
      intro sym' hlo' hhi' hu'
      exact hfree sym' hlo' hhi' ((hrec x sym').mpr (Or.inl hu'))
    · obtain ⟨g, hg, hcell⟩ := hocc
      exact hfree sym hlo hhi ((hrec x sym).mpr (Or.inr ⟨g, hg, (hgrant g hg sym).mp hcell⟩))
  · intro hfree sym hlo hhi hu
    rcases (hrec x sym).mp hu with hu | hocc
    · refine hmarks.mpr ?_ sym hlo hhi hu
      intro sym' hlo' hhi' hu'
      exact hfree sym' hlo' hhi' (Or.inl hu')
    · obtain ⟨g, hg, hblock⟩ := hocc
      exact hfree sym hlo hhi (Or.inr ⟨g, hg, (hgrant g hg sym).mpr hblock⟩)

variable {call : Call}

/-- **The scheduler finds a candidate free** exactly if its cells are. -/
theorem free_iff_disjoint (hdvd : e.coreset.duration ∣ e.regBundleSize) (hrec : Recorded e v₀ s)
    (hrange : ∀ g ∈ s.granted, g.firstCce + g.aggregation ≤ e.nCces)
    (hfits : Fits e v₀ call) (hfit : firstCce + call.aggregation ≤ e.nCces) :
    isFree s.vrbMap (e.pdcch call.startSymbolIndex) e.coreset.duration firstCce call.aggregation
        = true ↔
      Disjoint (e.candidateCells (call.grant firstCce)) (occupied e v₀ s) := by
  unfold isFree
  rw [List.all_eq_true, Set.disjoint_left, pdcch_startSymbolIndex, pdcch_bwpStart]
  have hrow := fun x hx => @rowFree_iff_prb e v₀ s hdvd hrec hrange call hfits x
    (lt_of_mem_blocks e call.startSymbolIndex hfit hx)
  refine ⟨?_, ?_⟩
  · intro hfree cell hcell hocc
    obtain ⟨x, hx, hprb, hlo, hhi⟩ := (mem_candidateCells hdvd).mp hcell
    refine (hrow x hx).mp (hfree x hx) cell.2 hlo hhi ?_
    grind
  · intro hdisj x hx
    refine (hrow x hx).mpr ?_
    intro sym hlo hhi hocc
    have hcell : (e.prb x, sym) ∈ e.candidateCells (call.grant firstCce) :=
      (mem_candidateCells hdvd).mpr ⟨x, hx, rfl, hlo, hhi⟩
    exact hdisj hcell hocc

theorem position_fits (start nrOfCandidates Y m : ℕ) (h1 : 1 ≤ aggregation)
    (hle : aggregation ≤ e.nCces) :
    (e.pdcch start).position e.coreset.duration aggregation nrOfCandidates Y m + aggregation
      ≤ e.nCces := by
  unfold SchedPdcch.position
  rw [pdcch_nCces]
  have hpos : 0 < e.nCces / aggregation := Nat.div_pos hle h1
  have hlt := Nat.mod_lt
    ((Y + m * e.nCces / (aggregation * nrOfCandidates)) % 2 ^ 32) hpos
  calc _ = aggregation * ((Y + m * e.nCces / (aggregation * nrOfCandidates)) % 2 ^ 32
        % (e.nCces / aggregation) + 1) := (Nat.mul_succ _ _).symm
    _ ≤ aggregation * (e.nCces / aggregation) := Nat.mul_le_mul_left _ hlt
    _ ≤ e.nCces := Nat.mul_div_le _ _

theorem search_spec {call : Call} (hfits : Fits e v₀ call) :
    ∃ found, search e s call = .ok found ∧
      (∀ firstCce, found = some firstCce → firstCce + call.aggregation ≤ e.nCces ∧
        isFree s.vrbMap (e.pdcch call.startSymbolIndex) e.coreset.duration firstCce
          call.aggregation = true) ∧
      (found = none → ∀ m < call.nrOfCandidates,
        isFree s.vrbMap (e.pdcch call.startSymbolIndex) e.coreset.duration
          ((e.pdcch call.startSymbolIndex).position e.coreset.duration call.aggregation
            call.nrOfCandidates call.Y m) call.aggregation = false) := by
  unfold search findPdcchCandidate
  by_cases hzero : call.nrOfCandidates = 0
  · simp_all
  · obtain ⟨h1, hle⟩ := hfits.level (Nat.pos_of_ne_zero hzero)
    rw [if_neg hzero, pdcch_nCces, if_neg (Nat.ne_of_gt (Nat.div_pos hle h1))]
    refine ⟨_, rfl, ?_, ?_⟩
    · intro firstCce hfound
      obtain ⟨m, _, rfl⟩ := List.mem_map.mp (List.mem_of_find?_eq_some hfound)
      have hfree := List.find?_some hfound
      exact ⟨position_fits _ _ _ m h1 hle, hfree⟩
    · simp

theorem step_noCollision (hdvd : e.coreset.duration ∣ e.regBundleSize)
    (hinv : NoCollision e v₀ s ∧ Recorded e v₀ s) (hfits : Fits e v₀ call)
    {s' : State} {found : Option ℕ} (hs : step e s call = .ok (s', found)) :
    NoCollision e v₀ s' ∧ Recorded e v₀ s' := by
  obtain ⟨hno, hrec⟩ := hinv
  obtain ⟨r, hsearch, hsome, _⟩ := @search_spec e v₀ s call hfits
  rw [step, hsearch, ok_bind] at hs
  obtain ⟨rfl, rfl⟩ := ok_inj hs
  cases r with
  | none => exact ⟨hno, hrec⟩
  | some firstCce =>
    obtain ⟨hfit, hfree⟩ := hsome firstCce rfl
    unfold place
    dsimp only
    split
    · have hdisj := (free_iff_disjoint hdvd hrec hno.inRange hfits hfit).mp hfree
      refine ⟨⟨?_, ?_⟩, ?_⟩
      · exact List.forall_mem_append.mpr ⟨hno.inRange, List.forall_mem_singleton.mpr (hfit)⟩
      · rw [List.map_append]
        refine hno.packed.concat hdisj ?_
        intro cell hcell
        rcases hcell with (hu | ⟨g, hg, hcell⟩) | hcell
        · exact Or.inl hu
        · exact Or.inr ⟨g, List.mem_append_left _ hg, hcell⟩
        · exact Or.inr ⟨_, List.mem_append_right _ (List.mem_singleton_self _), hcell⟩
      · intro x sym
        rw [mem_used_fillPdcchVrbMap hfits.symbols, hrec x sym]
        simp only [Nat.add_left_cancel_iff, exists_eq_right, List.mem_append, List.mem_singleton,
          or_and_right, exists_or, exists_eq_left, or_assoc]
        exact Iff.rfl
    · exact ⟨hno, hrec⟩

end Slot

instance (e : Site) (v₀ : VrbMap) (call : Call) : Decidable (Fits e v₀ call) :=
  decidable_of_iff (call.startSymbolIndex + e.coreset.duration ≤ 14 ∧
    (0 < call.nrOfCandidates → 1 ≤ call.aggregation ∧ call.aggregation ≤ e.nCces) ∧
    ∀ x < e.coreset.resourceBlocks.length,
      rowFree v₀ (slToBitmap call.startSymbolIndex e.coreset.duration) (e.bwpStart + x) =
        rowFree v₀ (slToBitmap call.startSymbolIndex e.coreset.duration) (e.prb x))
    ⟨fun h => ⟨h.1, h.2.1, h.2.2⟩, fun h => ⟨h.symbols, h.level, h.marks⟩⟩

/-- A CORESET of one symbol that is not interleaved; the first byte of its bitmap is given. -/
def sampleSite (bitmap : BitVec 8) : Site :=
  ⟨⟨fun i => if i = 0 then bitmap else 0, 1, .nonInterleaved, by decide⟩, 0, 0⟩

end OaiGnb.Mac.Pdcch
