import OaiGnb.Lib.Run
import OaiGnb.Lib.SlotRing

/-!
# Feedback on PUCCH

`nr_csi_meas_reporting`, `nr_acknack_scheduling`, `nr_sr_reporting` and `nr_schedule_pucch` of
`gNB_scheduler_uci.c`, in the order in which `gNB_dlsch_ulsch_scheduler` calls them in a slot, for
one UE.  They share the ring `sched_pucch`, which has an entry for every uplink slot of some periods
of the frame structure (`set_sched_pucch_list`, `get_pucch_index`).

* `indexOf_injective`: the uplink slots for which feedback may be scheduled have entries of their
  own.
* `Inv`: what holds of the ring, in the middle of a slot too.
* `feedback_kept`: in every run the bits that were added for a slot are received in it, if no
  scheduling request of the slot is on another resource.
-/

namespace OaiGnb.Mac.Pucch

open Run SlotRing

/-! ### Configuration -/

/-- A periodic CSI report: `csi_period_offset`, `nr_get_csi_bitlen`, the index of its resource in
the set with formats above 1, and whether HARQ bits may be sent with it. -/
structure CsiReport where
  period : ℕ
  offset : ℕ
  bitlen : ℕ
  resIndex : ℕ
  simultaneousHarqAckCsi : Bool

/-- A resource for scheduling requests: `find_period_offset_SR`, and the index of its resource in
the set with formats 0 and 1. -/
structure SrResource where
  period : ℕ
  offset : ℕ
  idx : ℕ

/-- The number of periods per frame: `get_nb_periods_per_frame`, and 1 for FDD. -/
def periodsPerFrame : List ℕ := [20, 16, 10, 8, 5, 4, 2, 1]

/-- The frame structure of the cell, its NTN offset, and the PUCCH configuration of the UE. -/
structure PucchConfig where
  mu : Fin 4
  /-- `numb_period_frame`. -/
  periodsFrame : ℕ
  /-- `numb_slots_period`. -/
  slotsPeriod : ℕ
  periodsFrame_mem : periodsFrame ∈ periodsPerFrame
  slots_eq : slotsPeriod * periodsFrame = 10 * 2 ^ (mu : ℕ)
  /-- `is_ul_slot` for the slots of a period. -/
  ulSlot : ℕ → Bool
  /-- `cellSpecificKoffset_r17`, 0 if there is none. -/
  cellSpecificKoffset : ℕ
  koffset_le : cellSpecificKoffset ≤ 1023
  minRxTxTime : ℕ
  dciFormat10 : Bool
  dlDataToUlAck : List ℕ
  dlDataToUlAck_le : ∀ fb ∈ dlDataToUlAck, fb ≤ 15
  csiReports : List CsiReport
  srResources : List SrResource
  /-- `check_bits_vs_coderate_limit` for a number of bits and a resource. -/
  checkBitsVsCoderateLimit : ℕ → ℕ → Bool

namespace PucchConfig

variable (cfg : PucchConfig)

/-- `numb_slots_frame`. -/
def slotsFrame : ℕ := 10 * 2 ^ (cfg.mu : ℕ)

/-- `get_NTN_Koffset`. -/
def koffset : ℕ := cfg.cellSpecificKoffset * 2 ^ (cfg.mu : ℕ)

/-- `set_max_fb_time`. -/
def maxFbTime : ℕ := cfg.dlDataToUlAck.foldl max 8

/-- How far ahead feedback is scheduled. -/
def ahead : ℕ := cfg.maxFbTime + cfg.koffset

/-- `is_ul_slot`. -/
def isUlSlot (slot : ℕ) : Bool := cfg.ulSlot (slot % cfg.slotsPeriod)

/-- `get_ul_slots_per_period`. -/
def ulSlotsPeriod : ℕ := Nat.count (fun i => cfg.isUlSlot i = true) cfg.slotsPeriod

/-- `sched_pucch_size` of `set_sched_pucch_list`. -/
def schedPucchSize : ℕ :=
  cfg.ulSlotsPeriod * 2 ^ Nat.clog 2 (cfg.ahead / cfg.slotsPeriod + 1)

/-- The frame of a slot; frame numbers wrap at `MAX_FRAME_NUMBER`. -/
def frame (t : ℕ) : ℕ := t / cfg.slotsFrame % 1024

/-- The number of a slot in its frame. -/
def slot (t : ℕ) : ℕ := t % cfg.slotsFrame

/-- `get_pucch_index`, for uplink slots. -/
def getPucchIndex (frame slot : ℕ) : ℕ :=
  (frame * (cfg.periodsFrame * cfg.ulSlotsPeriod) + slot / cfg.slotsPeriod * cfg.ulSlotsPeriod
    + (Nat.count (fun i => cfg.isUlSlot i = true) (slot % cfg.slotsPeriod + 1) - 1))
    % cfg.schedPucchSize

/-- `get_pdsch_to_harq_feedback`. -/
def getPdschToHarqFeedback (isCommon : Bool) : List ℕ :=
  if isCommon = true ∨ cfg.dciFormat10 = true then [1, 2, 3, 4, 5, 6, 7, 8]
  else cfg.dlDataToUlAck

end PucchConfig

/-! ### The entries -/

/-- `NR_sched_pucch_t`, without the resource blocks. -/
structure SchedPucch where
  active : Bool
  frame : ℕ
  ulSlot : ℕ
  srFlag : Bool
  csiBits : ℕ
  simultaneousHarqcsi : Bool
  daiC : ℕ
  timingIndicator : ℕ
  resourceIndicator : ℕ
  rPucch : ℤ

/-- After `memset`. -/
def SchedPucch.zero : SchedPucch := ⟨false, 0, 0, false, 0, false, 0, 0, 0, 0⟩

/-- The ring of a UE at a slot, whether the CSI reports of the slot were scheduled, and what was
added and received for every slot. -/
structure State where
  now : ℕ
  isOpen : Bool
  pucch : ℕ → SchedPucch
  addedAck : ℕ → ℕ
  addedCsi : ℕ → ℕ
  receivedAck : ℕ → ℕ
  receivedCsi : ℕ → ℕ

/-- An entry of the ring is written. -/
def State.set (s : State) (i : ℕ) (e : SchedPucch) : State :=
  { s with pucch := fun j => if j = i then e else s.pucch j }

/-- One more HARQ bit for a slot. -/
def State.addAck (s : State) (t : ℕ) : State :=
  { s with addedAck := fun u => if u = t then s.addedAck u + 1 else s.addedAck u }

/-- More CSI bits for a slot. -/
def State.addCsi (s : State) (t bits : ℕ) : State :=
  { s with addedCsi := fun u => if u = t then s.addedCsi u + bits else s.addedCsi u }

/-- How a step can fail: an assertion of the source, or a call that the scheduler does not make. -/
inductive Fault where
  | assertFatal
  | outOfOrder
  deriving Repr, DecidableEq

/-! ### The functions -/

section Functions

variable (cfg : PucchConfig)

/-- `nr_acknack_scheduling` for the candidates from an index on: the new state and the index of the
entry. -/
def nrAcknackScheduling (rPucch : ℤ) (beamFree vrbFree : ℕ → Bool) :
    ℕ → List ℕ → State → State × Option ℕ
  | _, [], s => (s, none)
  | f, fb :: fbs, s =>
      let next := nrAcknackScheduling rPucch beamFree vrbFree (f + 1) fbs
      if fb + cfg.koffset < cfg.minRxTxTime + cfg.koffset then next s
      else
        let ahead := cfg.slot s.now + fb + cfg.koffset
        let pucchSlot := ahead % cfg.slotsFrame
        if cfg.isUlSlot pucchSlot = false then next s
        else
          let pucchFrame := (cfg.frame s.now + ahead / cfg.slotsFrame) % 1024
          let i := cfg.getPucchIndex pucchFrame pucchSlot
          let e := s.pucch i
          if e.active = true ∧ e.frame = pucchFrame ∧ e.ulSlot = pucchSlot then
            if e.csiBits = 0 ∧ e.daiC = 2 then next s
            else if e.csiBits > 0 ∧ e.simultaneousHarqcsi = false then next s
            else if e.csiBits > 0 ∧ cfg.checkBitsVsCoderateLimit (e.csiBits + e.daiC + 2)
                e.resourceIndicator = false then next s
            else if e.csiBits > 0 ∧ e.daiC ≥ 3 then next s
            else
              ((s.set i { e with timingIndicator := f, daiC := e.daiC + 1 }).addAck
                (s.now + fb + cfg.koffset), some i)
          else if e.active = true then next (s.set i .zero)
          else if beamFree f = false then next s
          else if vrbFree f = false then next s
          else
            ((s.set i { e with
                active := true
                frame := pucchFrame
                ulSlot := pucchSlot
                timingIndicator := f
                daiC := e.daiC + 1
                resourceIndicator := 0
                rPucch := rPucch }).addAck (s.now + fb + cfg.koffset), some i)

/-- A report, or a scheduling request, is due in a slot. -/
def Due (period offset frame slot : ℕ) : Prop :=
  ((frame * cfg.slotsFrame + slot : ℕ) - offset : ℤ) % period = 0

instance (period offset frame slot : ℕ) : Decidable (Due cfg period offset frame slot) := by
  unfold Due
  infer_instance

/-- `nr_csi_meas_reporting` for one report. -/
def csiReport (beamFree vrbFree : Bool) (s : State) (report : CsiReport) : Except Fault State :=
  let ahead := cfg.slot s.now + cfg.maxFbTime + cfg.koffset
  let schedSlot := ahead % cfg.slotsFrame
  let schedFrame := (cfg.frame s.now + ahead / cfg.slotsFrame) % 1024
  if ¬ Due cfg report.period report.offset schedFrame schedSlot then .ok s
  else if cfg.isUlSlot schedSlot = false then .error .assertFatal
  else
    let i := cfg.getPucchIndex schedFrame schedSlot
    let e := if (s.pucch i).active = true then .zero else s.pucch i
    if beamFree = false then .error .assertFatal
    else if vrbFree = false then .ok (s.set i .zero)
    else
      .ok ((s.set i { e with
          active := true
          frame := schedFrame
          ulSlot := schedSlot
          csiBits := e.csiBits + report.bitlen
          simultaneousHarqcsi := report.simultaneousHarqAckCsi
          resourceIndicator := report.resIndex
          rPucch := -1 }).addCsi (s.now + cfg.maxFbTime + cfg.koffset) report.bitlen)

/-- `nr_csi_meas_reporting`. -/
def nrCsiMeasReporting (active beamFree vrbFree : Bool) (s : State) : Except Fault State :=
  if active = true then cfg.csiReports.foldlM (csiReport cfg beamFree vrbFree) s else .ok s

/-- `nr_sr_reporting` for one resource. -/
def srResource (beamFree : Bool) (vrbFree : ℕ → Bool) (s : State) (sr : SrResource) :
    Except Fault State :=
  let frame := cfg.frame s.now
  let slot := cfg.slot s.now
  if ¬ Due cfg sr.period sr.offset frame slot then .ok s
  else
    let i := cfg.getPucchIndex frame slot
    let e := s.pucch i
    if e.active = true ∧ e.frame = frame ∧ e.ulSlot = slot ∧ e.resourceIndicator = sr.idx then
      .ok (s.set i { e with srFlag := true })
    else if e.active = true then .ok (s.set i .zero)
    else if beamFree = false then .error .assertFatal
    else if vrbFree sr.idx = false then .ok s
    else
      .ok (s.set i { e with
        active := true
        frame := frame
        ulSlot := slot
        srFlag := true
        resourceIndicator := sr.idx
        rPucch := -1 })

/-- `nr_sr_reporting`. -/
def nrSrReporting (active beamFree : Bool) (vrbFree : ℕ → Bool) (s : State) : Except Fault State :=
  if cfg.isUlSlot (cfg.slot s.now) = false ∨ active = false then .ok s
  else cfg.srResources.foldlM (srResource cfg beamFree vrbFree) s

/-- `nr_schedule_pucch`: the bits of the slot's entry are received, and the entry is cleared. -/
def nrSchedulePucch (s : State) : State :=
  if cfg.isUlSlot (cfg.slot s.now) = false then s
  else
    let i := cfg.getPucchIndex (cfg.frame s.now) (cfg.slot s.now)
    let e := s.pucch i
    if e.active = false then s
    else if cfg.frame s.now ≠ e.frame ∨ cfg.slot s.now ≠ e.ulSlot then s.set i .zero
    else
      { s.set i .zero with
        receivedAck := fun t => if t = s.now then e.daiC else s.receivedAck t
        receivedCsi := fun t => if t = s.now then e.csiBits else s.receivedCsi t }

end Functions

/-- The calls of a slot: first the CSI reports, then HARQ bits for any number of transmissions, last
scheduling requests and reception. -/
inductive Input where
  | csiMeasReporting (active beamFree vrbFree : Bool)
  | acknackScheduling (isCommon : Bool) (rPucch : ℤ) (beamFree vrbFree : ℕ → Bool)
  | endOfSlot (active beamFree : Bool) (vrbFree : ℕ → Bool)

/-- One call. -/
def step (cfg : PucchConfig) (s : State) : Input → Except Fault (State × Option ℕ)
  | .csiMeasReporting active beamFree vrbFree =>
      if s.isOpen = true then .error .outOfOrder
      else do
        let s' ← nrCsiMeasReporting cfg active beamFree vrbFree s
        return ({ s' with isOpen := true }, none)
  | .acknackScheduling isCommon rPucch beamFree vrbFree =>
      if s.isOpen = false then .error .outOfOrder
      else
        .ok (nrAcknackScheduling cfg rPucch beamFree vrbFree 0 (cfg.getPdschToHarqFeedback isCommon)
          s)
  | .endOfSlot active beamFree vrbFree =>
      if s.isOpen = false then .error .outOfOrder
      else do
        let s' ← nrSrReporting cfg active beamFree vrbFree s
        let s'' := nrSchedulePucch cfg s'
        return ({ s'' with now := s''.now + 1, isOpen := false }, none)

/-- An empty ring, at any slot. -/
def start (t : ℕ) : State :=
  ⟨t, false, fun _ => .zero, fun _ => 0, fun _ => 0, fun _ => 0, fun _ => 0⟩

/-! ### The ring -/

variable {t : ℕ} {s' : State}

@[simp]
theorem State.set_self (s : State) (i : ℕ) (e : SchedPucch) : (s.set i e).pucch i = e := if_pos rfl

theorem State.set_of_ne (s : State) {i j : ℕ} (e : SchedPucch) (h : j ≠ i) :
    (s.set i e).pucch j = s.pucch j := if_neg h

section Ring

variable (cfg : PucchConfig)

theorem slotsFrame_pos : 0 < cfg.slotsFrame := Nat.mul_pos (by decide) (Nat.two_pow_pos _)

theorem slotsPeriod_pos : 0 < cfg.slotsPeriod := by
  refine Nat.pos_of_ne_zero fun h => ?_
  have hslots := cfg.slots_eq
  simp_all

theorem slotsPeriod_dvd : cfg.slotsPeriod ∣ cfg.slotsFrame := ⟨cfg.periodsFrame, cfg.slots_eq.symm⟩

/-- The entry of a slot. -/
def indexOf (t : ℕ) : ℕ := cfg.getPucchIndex (cfg.frame t) (cfg.slot t)

theorem isUlSlot_slot (t : ℕ) : cfg.isUlSlot (cfg.slot t) = cfg.isUlSlot t := by
  unfold PucchConfig.isUlSlot PucchConfig.slot
  rw [Nat.mod_mod_of_dvd t (slotsPeriod_dvd cfg)]

theorem isUlSlot_periodic (t : ℕ) :
    cfg.isUlSlot (t + cfg.slotsPeriod) = true ↔ cfg.isUlSlot t = true := by
  unfold PucchConfig.isUlSlot
  rw [Nat.add_mod_right]

theorem foldl_max_le {bound : ℕ} (l : List ℕ) (a : ℕ) (ha : a ≤ bound)
    (hl : ∀ x ∈ l, x ≤ bound) : l.foldl max a ≤ bound := by
  induction l generalizing a with
  | nil => exact ha
  | cons x l ih =>
    simp_all

theorem le_foldl_max (l : List ℕ) (a : ℕ) : a ≤ l.foldl max a ∧ ∀ x ∈ l, x ≤ l.foldl max a := by
  induction l generalizing a with
  | nil => simp
  | cons x l ih =>
    grind

theorem getPdschToHarqFeedback_le {isCommon : Bool} {fb : ℕ}
    (h : fb ∈ cfg.getPdschToHarqFeedback isCommon) : fb ≤ cfg.maxFbTime := by
  obtain ⟨height, hall⟩ := le_foldl_max cfg.dlDataToUlAck 8
  unfold PucchConfig.getPdschToHarqFeedback at h
  split at h
  · have hfb : ∀ x ∈ [1, 2, 3, 4, 5, 6, 7, 8], x ≤ 8 := by decide
    exact (hfb fb h).trans height
  · exact hall fb h

theorem ahead_lt : cfg.ahead < 104 * cfg.slotsFrame := by
  have hfb : cfg.maxFbTime ≤ 15 := foldl_max_le _ 8 (by decide) cfg.dlDataToUlAck_le
  have hk : cfg.koffset ≤ 1023 * 2 ^ (cfg.mu : ℕ) := Nat.mul_le_mul_right _ cfg.koffset_le
  grind [Nat.two_pow_pos, PucchConfig.ahead, PucchConfig.slotsFrame]

/-- For every number of periods per frame a power of two that the ring does not exceed, and that
divides the number of periods in 1024 frames. -/
theorem exists_pow_of_periods : ∀ n ∈ periodsPerFrame, ∃ k < 15, 104 * n ≤ 2 ^ k ∧
    2 ^ k ∣ 1024 * n := by
  decide

theorem schedPucchSize_dvd :
    cfg.schedPucchSize ∣ 1024 * (cfg.periodsFrame * cfg.ulSlotsPeriod) := by
  obtain ⟨k, _, hk, hdvd⟩ := exists_pow_of_periods cfg.periodsFrame cfg.periodsFrame_mem
  have hperiods : cfg.ahead / cfg.slotsPeriod < 104 * cfg.periodsFrame := by
    refine (Nat.div_lt_iff_lt_mul (slotsPeriod_pos cfg)).mpr ?_
    have hslots : cfg.slotsFrame = cfg.slotsPeriod * cfg.periodsFrame := cfg.slots_eq.symm
    calc cfg.ahead < 104 * cfg.slotsFrame := ahead_lt cfg
      _ = 104 * cfg.periodsFrame * cfg.slotsPeriod := by grind
  have hlog : Nat.clog 2 (cfg.ahead / cfg.slotsPeriod + 1) ≤ k := by
    rw [Nat.clog_le_iff_le_pow (by decide)]
    exact Nat.le_trans hperiods hk
  have hpow : 2 ^ Nat.clog 2 (cfg.ahead / cfg.slotsPeriod + 1) ∣ 1024 * cfg.periodsFrame :=
    Nat.dvd_trans (Nat.pow_dvd_pow 2 hlog) hdvd
  rw [PucchConfig.schedPucchSize, Nat.mul_comm, ← Nat.mul_assoc]
  exact Nat.mul_dvd_mul_right hpow _

/-- The entry of an uplink slot is the number of uplink slots before it, modulo the size of the
ring. -/
theorem indexOf_eq (hul : cfg.isUlSlot t = true) :
    indexOf cfg t
      = Nat.count (fun i => cfg.isUlSlot i = true) t % cfg.schedPucchSize := by
  have hper := isUlSlot_periodic cfg
  have hp := slotsPeriod_pos cfg
  have hslots : cfg.slotsFrame = cfg.slotsPeriod * cfg.periodsFrame := cfg.slots_eq.symm
  -- the slot within the 1024 frames
  have hcycle : t % (cfg.slotsFrame * 1024) = cfg.frame t * cfg.slotsFrame + cfg.slot t :=
    (wrapped 1024 cfg.slotsFrame t).symm
  have hdvd : cfg.slotsPeriod ∣ cfg.slotsFrame * 1024 := (slotsPeriod_dvd cfg).mul_right 1024
  have hmod : t % (cfg.slotsFrame * 1024) % cfg.slotsPeriod = cfg.slot t % cfg.slotsPeriod := by
    rw [Nat.mod_mod_of_dvd t hdvd, PucchConfig.slot, Nat.mod_mod_of_dvd t (slotsPeriod_dvd cfg)]
  have hdiv : t % (cfg.slotsFrame * 1024) / cfg.slotsPeriod
      = cfg.frame t * cfg.periodsFrame + cfg.slot t / cfg.slotsPeriod := by
    rw [hcycle, hslots, Nat.mul_comm cfg.slotsPeriod, ← Nat.mul_assoc, Nat.add_comm,
      Nat.add_mul_div_right _ _ hp, Nat.add_comm]
  -- the slot itself is counted by the source, and then subtracted
  have hself : Nat.count (fun i => cfg.isUlSlot i = true) (cfg.slot t % cfg.slotsPeriod + 1) - 1
      = Nat.count (fun i => cfg.isUlSlot i = true) (cfg.slot t % cfg.slotsPeriod) := by
    have hmark : cfg.isUlSlot (cfg.slot t % cfg.slotsPeriod) = true := by
      rw [← isUlSlot_slot] at hul
      unfold PucchConfig.isUlSlot at hul ⊢
      rw [Nat.mod_mod]
      exact hul
    rw [Nat.count_succ, if_pos hmark]
    rfl
  have hcount : Nat.count (fun i => cfg.isUlSlot i = true) (t % (cfg.slotsFrame * 1024))
      = cfg.frame t * (cfg.periodsFrame * cfg.ulSlotsPeriod)
        + cfg.slot t / cfg.slotsPeriod * cfg.ulSlotsPeriod
        + Nat.count (fun i => cfg.isUlSlot i = true) (cfg.slot t % cfg.slotsPeriod) := by
    rw [count_eq_div_mod hper, hdiv, hmod, Nat.add_mul, Nat.mul_assoc]
    rfl
  have hcycles : cfg.slotsFrame * 1024 = 1024 * cfg.periodsFrame * cfg.slotsPeriod := by
    rw [hslots, Nat.mul_comm, Nat.mul_comm cfg.slotsPeriod, ← Nat.mul_assoc]
  have hsize : cfg.schedPucchSize ∣ 1024 * cfg.periodsFrame
      * Nat.count (fun i => cfg.isUlSlot i = true) cfg.slotsPeriod := by
    rw [Nat.mul_assoc]
    exact schedPucchSize_dvd cfg
  grind [indexOf, PucchConfig.getPucchIndex, count_wrapped_mod]

/-- **The uplink slots for which feedback may be scheduled have entries of their own.** -/
theorem indexOf_injective {u v : ℕ} (hu : cfg.isUlSlot u = true) (hv : cfg.isUlSlot v = true)
    (hut : t ≤ u ∧ u ≤ t + cfg.ahead) (hvt : t ≤ v ∧ v ≤ t + cfg.ahead)
    (heq : indexOf cfg u = indexOf cfg v) : u = v := by
  have hper := isUlSlot_periodic cfg
  have hahead := lt_mul_two_pow_clog (slotsPeriod_pos cfg) cfg.ahead
  rw [Nat.mul_comm] at hahead
  rw [indexOf_eq cfg hu, indexOf_eq cfg hv] at heq
  rcases Nat.lt_trichotomy u v with hlt | heq' | hlt
  · exact absurd heq (count_mod_ne hper hu hv hlt (by omega))
  · exact heq'
  · exact absurd heq.symm (count_mod_ne hper hv hu hlt (by omega))

theorem ahead_frame_slot (t m n : ℕ) :
    (cfg.slot t + m + n) % cfg.slotsFrame = cfg.slot (t + m + n) ∧
      (cfg.frame t + (cfg.slot t + m + n) / cfg.slotsFrame) % 1024 = cfg.frame (t + m + n) := by
  have hpos := slotsFrame_pos cfg
  unfold PucchConfig.slot PucchConfig.frame
  rw [Nat.add_assoc, Nat.add_assoc]
  refine ⟨Nat.mod_add_mod t cfg.slotsFrame (m + n), ?_⟩
  have ht : t + (m + n)
      = t % cfg.slotsFrame + (m + n) + cfg.slotsFrame * (t / cfg.slotsFrame) := by
    have := Nat.mod_add_div t cfg.slotsFrame
    omega
  have hdiv : (t + (m + n)) / cfg.slotsFrame
      = t / cfg.slotsFrame + (t % cfg.slotsFrame + (m + n)) / cfg.slotsFrame := by
    calc (t + (m + n)) / cfg.slotsFrame
        = (t % cfg.slotsFrame + (m + n) + cfg.slotsFrame * (t / cfg.slotsFrame))
            / cfg.slotsFrame := congrArg (· / cfg.slotsFrame) ht
      _ = t / cfg.slotsFrame + (t % cfg.slotsFrame + (m + n)) / cfg.slotsFrame := by
        rw [Nat.add_mul_div_left _ _ hpos, Nat.add_comm]
  rw [hdiv, Nat.mod_add_mod]

end Ring

/-! ### Invariant -/

/-- An entry is about a slot. -/
def SchedPucch.For (cfg : PucchConfig) (e : SchedPucch) (t : ℕ) : Prop :=
  e.active = true ∧ e.frame = cfg.frame t ∧ e.ulSlot = cfg.slot t

/-- **What holds of the ring** when feedback may have been scheduled up to `horizon`: bits of
earlier slots were received, bits of later slots are in their entries, and every active entry is
about one of the slots. -/
structure Inv (cfg : PucchConfig) (horizon : ℕ) (s : State) : Prop where
  kept : ∀ t < s.now, s.addedAck t ≤ s.receivedAck t ∧ s.addedCsi t ≤ s.receivedCsi t
  ahead : ∀ t, horizon ≤ t → s.addedAck t = 0 ∧ s.addedCsi t = 0
  live : ∀ t, s.now ≤ t → t < horizon → 0 < s.addedAck t ∨ 0 < s.addedCsi t →
    cfg.isUlSlot t = true ∧ (s.pucch (indexOf cfg t)).active = true ∧
      s.addedAck t ≤ (s.pucch (indexOf cfg t)).daiC ∧
      s.addedCsi t ≤ (s.pucch (indexOf cfg t)).csiBits
  owner : ∀ i, (s.pucch i).active = true → ∃ t, s.now ≤ t ∧ t < horizon ∧
    cfg.isUlSlot t = true ∧ indexOf cfg t = i ∧ (s.pucch i).For cfg t

section Invariant

variable {cfg : PucchConfig} {horizon : ℕ} {s : State}

theorem Inv.for_of_active (h : Inv cfg horizon s) (hhorizon : horizon ≤ s.now + cfg.ahead + 1)
    (hul : cfg.isUlSlot t = true) (ht : s.now ≤ t ∧ t ≤ s.now + cfg.ahead)
    (hactive : (s.pucch (indexOf cfg t)).active = true) :
    t < horizon ∧ (s.pucch (indexOf cfg t)).For cfg t := by
  obtain ⟨u, hnow, hlt, hu, hindex, hfor⟩ := h.owner _ hactive
  obtain rfl := indexOf_injective cfg hu hul ⟨hnow, by omega⟩ ht hindex
  exact ⟨hlt, hfor⟩

variable {e : SchedPucch}

variable (h : Inv cfg horizon s)

include h

/-- **An entry is written**, for a slot of which the bits are in the entry, if there are any. -/
theorem Inv.write (hhorizon : horizon ≤ s.now + cfg.ahead + 1)
    (hul : cfg.isUlSlot t = true) (ht : s.now ≤ t ∧ t < horizon)
    (hfor : e.active = true → e.For cfg t) (hnow : s'.now = s.now)
    (hpucch : s'.pucch = (s.set (indexOf cfg t) e).pucch)
    (hreceived : s'.receivedAck = s.receivedAck ∧ s'.receivedCsi = s.receivedCsi)
    (hother : ∀ u, u ≠ t → s'.addedAck u = s.addedAck u ∧ s'.addedCsi u = s.addedCsi u)
    (hbits : 0 < s'.addedAck t ∨ 0 < s'.addedCsi t →
      e.active = true ∧ s'.addedAck t ≤ e.daiC ∧ s'.addedCsi t ≤ e.csiBits) :
    Inv cfg horizon s' := by
  refine ⟨?_, ?_, ?_, ?_⟩
  · intro u hu
    rw [hnow] at hu
    obtain ⟨hua, huc⟩ := hother u (by omega)
    rw [hua, huc, hreceived.1, hreceived.2]
    exact h.kept u hu
  · intro u hu
    obtain ⟨hua, huc⟩ := hother u (by omega)
    rw [hua, huc]
    exact h.ahead u hu
  · intro u hu hlt hadded
    rw [hnow] at hu
    by_cases heq : u = t
    · rw [heq] at hadded ⊢
      rw [hpucch, State.set_self]
      exact ⟨hul, hbits hadded⟩
    · obtain ⟨hua, huc⟩ := hother u heq
      rw [hua, huc] at hadded ⊢
      obtain ⟨hulu, hrest⟩ := h.live u hu hlt hadded
      have hindex : indexOf cfg u ≠ indexOf cfg t := fun hsame =>
        heq (indexOf_injective cfg hulu hul ⟨hu, by omega⟩ ⟨ht.1, by omega⟩ hsame)
      rw [hpucch, s.set_of_ne e hindex]
      exact ⟨hulu, hrest⟩
  · intro i hactive
    rw [hpucch] at hactive ⊢
    rw [hnow]
    by_cases hi : i = indexOf cfg t
    · rw [hi, State.set_self] at hactive ⊢
      exact ⟨t, ht.1, ht.2, hul, rfl, hfor hactive⟩
    · rw [s.set_of_ne e hi] at hactive ⊢
      exact h.owner i hactive

theorem Inv.set_of_no_bits (hhorizon : horizon ≤ s.now + cfg.ahead + 1)
    (hul : cfg.isUlSlot t = true) (ht : s.now ≤ t ∧ t < horizon)
    (hfor : e.active = true → e.For cfg t) (hbits : s.addedAck t = 0 ∧ s.addedCsi t = 0) :
    Inv cfg horizon (s.set (indexOf cfg t) e) := by
  refine h.write hhorizon hul ht hfor rfl rfl ⟨rfl, rfl⟩ (fun _ _ => ⟨rfl, rfl⟩) ?_
  intro (hadded : 0 < s.addedAck t ∨ 0 < s.addedCsi t)
  omega

theorem Inv.no_bits_of_inactive (hnow : s.now ≤ t)
    (hinactive : (s.pucch (indexOf cfg t)).active = false) :
    s.addedAck t = 0 ∧ s.addedCsi t = 0 := by
  by_cases hlt : t < horizon
  · by_cases hadded : 0 < s.addedAck t ∨ 0 < s.addedCsi t
    · have hactive := (h.live t hnow hlt hadded).2.1
      simp_all
    · omega
  · exact h.ahead t (not_lt.mp hlt)

theorem Inv.lt_horizon (hadded : 0 < s.addedAck t ∨ 0 < s.addedCsi t) :
    t < horizon := by
  refine not_le.mp fun hle => ?_
  have := h.ahead t hle
  omega

theorem Inv.bits (hnow : s.now ≤ t) :
    s.addedAck t ≤ (s.pucch (indexOf cfg t)).daiC ∧
      s.addedCsi t ≤ (s.pucch (indexOf cfg t)).csiBits := by
  by_cases hadded : 0 < s.addedAck t ∨ 0 < s.addedCsi t
  · exact (h.live t hnow (h.lt_horizon hadded) hadded).2.2
  · omega

theorem Inv.mono {horizon' : ℕ} (hle : horizon ≤ horizon') :
    Inv cfg horizon' s := by
  refine ⟨h.kept, fun t ht => h.ahead t (hle.trans ht), ?_, ?_⟩
  · exact fun t hnow _ hadded => h.live t hnow (h.lt_horizon hadded) hadded
  · intro i hactive
    obtain ⟨t, hnow, hlt, hrest⟩ := h.owner i hactive
    grind

end Invariant

/-! ### The steps -/

section Steps

variable {cfg : PucchConfig} {s : State}

theorem nrAcknackScheduling_inv {rPucch : ℤ} {beamFree vrbFree : ℕ → Bool} (fbs : List ℕ)
    (hfbs : ∀ fb ∈ fbs, fb ≤ cfg.maxFbTime) (f : ℕ) (h : Inv cfg (s.now + cfg.ahead + 1) s) :
    Inv cfg (s.now + cfg.ahead + 1) (nrAcknackScheduling cfg rPucch beamFree vrbFree f fbs s).1 ∧
      (nrAcknackScheduling cfg rPucch beamFree vrbFree f fbs s).1.now = s.now ∧
      (nrAcknackScheduling cfg rPucch beamFree vrbFree f fbs s).1.isOpen = s.isOpen := by
  induction fbs generalizing f with
  | nil => exact ⟨h, rfl, rfl⟩
  | cons fb fbs ih =>
    have hnext := ih (List.forall_mem_cons.mp hfbs).2 (f + 1)
    have hfb := hfbs fb List.mem_cons_self
    obtain ⟨hslot, hframe⟩ := ahead_frame_slot cfg s.now fb cfg.koffset
    obtain ⟨t, htime⟩ : ∃ t, s.now + fb + cfg.koffset = t := ⟨_, rfl⟩
    rw [htime] at hslot hframe
    have ht : s.now ≤ t ∧ t < s.now + cfg.ahead + 1 := by
      unfold PucchConfig.ahead
      omega
    rw [nrAcknackScheduling]
    dsimp only
    rw [hslot, hframe, isUlSlot_slot, htime]
    split
    · exact hnext
    split
    · exact hnext
    rename_i hnotdl
    have hul := Bool.eq_true_of_not_eq_false hnotdl
    rw [show cfg.getPucchIndex (cfg.frame t) (cfg.slot t) = indexOf cfg t from rfl]
    have hother : ∀ u, u ≠ t → (s.addAck t).addedAck u = s.addedAck u ∧
        (s.addAck t).addedCsi u = s.addedCsi u := fun u hu => ⟨if_neg hu, rfl⟩
    have hadded : (s.addAck t).addedAck t = s.addedAck t + 1 := if_pos rfl
    split
    next hfor =>
      have hbits : s.addedAck t ≤ (s.pucch (indexOf cfg t)).daiC ∧
          s.addedCsi t ≤ (s.pucch (indexOf cfg t)).csiBits := h.bits ht.1
      split
      · exact hnext
      split
      · exact hnext
      split
      · exact hnext
      split
      · exact hnext
      · refine ⟨h.write le_rfl hul ht ?_ rfl rfl ⟨rfl, rfl⟩ hother
          (fun _ => ⟨hfor.1, ?_, hbits.2⟩), rfl, rfl⟩
        · exact fun _ => hfor
        · exact (Nat.le_of_eq hadded).trans (Nat.succ_le_succ hbits.1)
    next hnot =>
      split
      next hactive =>
        exact absurd (h.for_of_active le_rfl hul ⟨ht.1, Nat.le_of_lt_succ ht.2⟩ hactive).2
          hnot
      rename_i hinactive
      obtain ⟨hack, hcsi⟩ := h.no_bits_of_inactive ht.1 (Bool.eq_false_iff.mpr hinactive)
      split
      · exact hnext
      split
      · exact hnext
      · refine ⟨h.write le_rfl hul ht (fun _ => ⟨rfl, rfl, rfl⟩) rfl rfl ⟨rfl, rfl⟩ hother
          (fun _ => ⟨rfl, ?_, ?_⟩), rfl, rfl⟩
        · refine (Nat.le_of_eq hadded).trans ?_
          simp_all
        · refine (Nat.le_of_eq ?_).trans (Nat.zero_le _)
          exact hcsi

/-- A report is due in the slot that is scheduled at a time. -/
def ReportDue (cfg : PucchConfig) (t : ℕ) (report : CsiReport) : Prop :=
  Due cfg report.period report.offset (cfg.frame (t + cfg.maxFbTime + cfg.koffset))
    (cfg.slot (t + cfg.maxFbTime + cfg.koffset))

instance (cfg : PucchConfig) (t : ℕ) (report : CsiReport) : Decidable (ReportDue cfg t report) := by
  unfold ReportDue
  infer_instance

/-- At most one periodic CSI report is due in a slot. -/
def OneReport (cfg : PucchConfig) : Prop :=
  ∀ t, (cfg.csiReports.filter fun r => ReportDue cfg t r).length ≤ 1

variable {beamFree vrbFree : Bool} {report : CsiReport}

theorem csiReport_of_not_due (hdue : ¬ ReportDue cfg s.now report) :
    csiReport cfg beamFree vrbFree s report = .ok s := by
  obtain ⟨hslot, hframe⟩ := ahead_frame_slot cfg s.now cfg.maxFbTime cfg.koffset
  rw [csiReport]
  rw [hslot, hframe]
  exact if_pos hdue

theorem csiReport_inv (h : Inv cfg (s.now + cfg.ahead) s)
    (hreport : csiReport cfg beamFree vrbFree s report = .ok s') :
    Inv cfg (s.now + cfg.ahead + 1) s' ∧ s'.now = s.now := by
  have hmono := h.mono (Nat.le_succ (s.now + cfg.ahead))
  obtain ⟨hslot, hframe⟩ := ahead_frame_slot cfg s.now cfg.maxFbTime cfg.koffset
  obtain ⟨t, htime⟩ : ∃ t, s.now + cfg.maxFbTime + cfg.koffset = t := ⟨_, rfl⟩
  rw [htime] at hslot hframe
  have ht : s.now ≤ t ∧ t < s.now + cfg.ahead + 1 := by
    unfold PucchConfig.ahead
    omega
  have hhorizon : s.now + cfg.ahead ≤ t := by
    unfold PucchConfig.ahead
    omega
  rw [csiReport] at hreport
  rw [hslot, hframe, isUlSlot_slot, htime] at hreport
  split at hreport
  · simp_all
  split at hreport
  · cases hreport
  rename_i hnotdl
  have hul := Bool.eq_true_of_not_eq_false hnotdl
  have hindex : cfg.getPucchIndex (cfg.frame t) (cfg.slot t) = indexOf cfg t := rfl
  obtain ⟨hack, hcsi⟩ := h.ahead t hhorizon
  have hfree : ¬ (s.pucch (indexOf cfg t)).active = true := by
    intro hactive
    have hlt := (h.for_of_active (Nat.le_succ _) hul ⟨ht.1, Nat.le_of_lt_succ ht.2⟩ hactive).1
    exact absurd hlt (not_lt.mpr hhorizon)
  split at hreport
  · cases hreport
  split at hreport
  · rw [← Except.ok.inj hreport]
    refine ⟨hmono.set_of_no_bits le_rfl hul ht ?_ ⟨hack, hcsi⟩, rfl⟩
    exact fun hactive => absurd hactive Bool.false_ne_true
  · rw [← Except.ok.inj hreport]
    refine ⟨hmono.write le_rfl hul ht (fun _ => ⟨rfl, rfl, rfl⟩) rfl rfl ⟨rfl, rfl⟩
      (fun u hu => ⟨rfl, if_neg hu⟩) (fun _ => ⟨rfl, ?_, ?_⟩), rfl⟩
    · refine (Nat.le_of_eq ?_).trans (Nat.zero_le _)
      exact hack
    · have hadded : (s.addCsi t report.bitlen).addedCsi t = s.addedCsi t + report.bitlen :=
        if_pos rfl
      refine (Nat.le_of_eq hadded).trans ?_
      simp_all

theorem csiReports_of_none_due (reports : List CsiReport)
    (hnone : ∀ r ∈ reports, ¬ ReportDue cfg s.now r) :
    reports.foldlM (csiReport cfg beamFree vrbFree) s = .ok s := by
  induction reports with
  | nil => rfl
  | cons r reports ih =>
    rw [List.foldlM_cons, csiReport_of_not_due (hnone r List.mem_cons_self), ok_bind]
    simp_all

theorem csiReports_inv (reports : List CsiReport)
    (hone : (reports.filter fun r => ReportDue cfg s.now r).length ≤ 1)
    (h : Inv cfg (s.now + cfg.ahead) s)
    (hreports : reports.foldlM (csiReport cfg beamFree vrbFree) s = .ok s') :
    Inv cfg (s.now + cfg.ahead + 1) s' ∧ s'.now = s.now := by
  induction reports with
  | nil =>
    rw [← Except.ok.inj hreports]
    exact ⟨h.mono (Nat.le_succ _), rfl⟩
  | cons r reports ih =>
    rw [List.foldlM_cons] at hreports
    by_cases hdue : ReportDue cfg s.now r
    · rw [List.filter_cons, if_pos (decide_eq_true hdue), List.length_cons] at hone
      rw [bind_returns] at hreports
      obtain ⟨s₁, hs₁, hrest⟩ := hreports
      obtain ⟨hinv, hnow⟩ := csiReport_inv h hs₁
      have hempty : reports.filter (fun r => ReportDue cfg s.now r) = [] :=
        List.length_eq_zero_iff.mp (by omega)
      have hnone : ∀ r ∈ reports, ¬ ReportDue cfg s₁.now r := by
        intro r' hr' hdue'
        rw [hnow] at hdue'
        have hmem : r' ∈ reports.filter (fun r => ReportDue cfg s.now r) :=
          List.mem_filter.mpr ⟨hr', decide_eq_true hdue'⟩
        rw [hempty] at hmem
        exact absurd hmem List.not_mem_nil
      grind [csiReports_of_none_due, Except.ok.inj]
    · grind [csiReport_of_not_due, ok_bind]

/-- The scheduling requests that are due are on the resource of the slot's entry, if bits were added
for the slot. -/
def SrOnResource (cfg : PucchConfig) (s : State) : Prop :=
  0 < s.addedAck s.now ∨ 0 < s.addedCsi s.now → ∀ sr ∈ cfg.srResources,
    Due cfg sr.period sr.offset (cfg.frame s.now) (cfg.slot s.now) →
      (s.pucch (indexOf cfg s.now)).resourceIndicator = sr.idx

theorem srResource_inv {vrbFree : ℕ → Bool} {sr : SrResource}
    (hmem : sr ∈ cfg.srResources) (hul : cfg.isUlSlot s.now = true)
    (h : Inv cfg (s.now + cfg.ahead + 1) s) (hsr : SrOnResource cfg s)
    (hstep : srResource cfg beamFree vrbFree s sr = .ok s') :
    Inv cfg (s.now + cfg.ahead + 1) s' ∧ SrOnResource cfg s' ∧ s'.now = s.now := by
  have ht : s.now ≤ s.now ∧ s.now < s.now + cfg.ahead + 1 := by omega
  have hindex : cfg.getPucchIndex (cfg.frame s.now) (cfg.slot s.now) = indexOf cfg s.now := rfl
  unfold srResource at hstep
  dsimp only at hstep
  split at hstep
  · simp_all
  rename_i hdue
  have hdue := not_not.mp hdue
  split at hstep
  next hmatch =>
    obtain ⟨hack, hcsi⟩ := h.bits le_rfl
    rw [← Except.ok.inj hstep]
    refine ⟨h.write le_rfl hul ht ?_ rfl rfl ⟨rfl, rfl⟩ (fun _ _ => ⟨rfl, rfl⟩)
      (fun _ => ⟨hmatch.1, hack, hcsi⟩), ?_, rfl⟩
    · exact fun _ => ⟨hmatch.1, hmatch.2.1, hmatch.2.2.1⟩
    intro hadded sr' hsr' hdue'
    show ((s.set (indexOf cfg s.now) _).pucch (indexOf cfg s.now)).resourceIndicator = sr'.idx
    rw [State.set_self]
    exact hsr hadded sr' hsr' hdue'
  rename_i hmismatch
  -- no bits were added for the slot: they would be in an active entry on the resource
  have hbits : s.addedAck s.now = 0 ∧ s.addedCsi s.now = 0 := by
    by_cases hactive : (s.pucch (indexOf cfg s.now)).active = true
    · have hfor := (h.for_of_active le_rfl hul ⟨ht.1, Nat.le_of_lt_succ ht.2⟩ hactive).2
      by_cases hadded : 0 < s.addedAck s.now ∨ 0 < s.addedCsi s.now
      · exact absurd ⟨hfor.1, hfor.2.1, hfor.2.2, hsr hadded sr hmem hdue⟩ hmismatch
      · omega
    · exact h.no_bits_of_inactive ht.1 (Bool.eq_false_iff.mpr hactive)
  have hnone : ∀ e, SrOnResource cfg (s.set (indexOf cfg s.now) e) := by
    intro e hadded
    have hadded : 0 < s.addedAck s.now ∨ 0 < s.addedCsi s.now := hadded
    omega
  split at hstep
  · rw [← Except.ok.inj hstep]
    refine ⟨h.set_of_no_bits le_rfl hul ht ?_ hbits, hnone _, rfl⟩
    exact fun hactive => absurd hactive Bool.false_ne_true
  split at hstep
  · cases hstep
  split at hstep
  · simp_all
  · rw [← Except.ok.inj hstep]
    exact ⟨h.set_of_no_bits le_rfl hul ht (fun _ => ⟨rfl, rfl, rfl⟩) hbits, hnone _, rfl⟩

theorem srResources_inv {vrbFree : ℕ → Bool}
    (resources : List SrResource) (hsub : ∀ sr ∈ resources, sr ∈ cfg.srResources)
    (hul : cfg.isUlSlot s.now = true) (h : Inv cfg (s.now + cfg.ahead + 1) s)
    (hsr : SrOnResource cfg s)
    (hstep : resources.foldlM (srResource cfg beamFree vrbFree) s = .ok s') :
    Inv cfg (s.now + cfg.ahead + 1) s' ∧ s'.now = s.now := by
  induction resources generalizing s with
  | nil => simp_all
  | cons sr resources ih =>
    rw [List.foldlM_cons, bind_returns] at hstep
    obtain ⟨s₁, hs₁, hrest⟩ := hstep
    obtain ⟨hinv, hsr₁, hnow⟩ := srResource_inv (hsub sr List.mem_cons_self) hul h hsr hs₁
    grind

theorem nrSchedulePucch_inv (h : Inv cfg (s.now + cfg.ahead + 1) s) :
    Inv cfg (s.now + 1 + cfg.ahead)
      { nrSchedulePucch cfg s with now := (nrSchedulePucch cfg s).now + 1, isOpen := false } := by
  have hhorizon : s.now + cfg.ahead + 1 = s.now + 1 + cfg.ahead := by omega
  have hindex : cfg.getPucchIndex (cfg.frame s.now) (cfg.slot s.now) = indexOf cfg s.now := rfl
  -- nothing was added for the slot, and no entry is about it
  have hidle : s.addedAck s.now = 0 ∧ s.addedCsi s.now = 0 →
      (∀ i, (s.pucch i).active = true → indexOf cfg s.now = i → cfg.isUlSlot s.now = false) →
      Inv cfg (s.now + 1 + cfg.ahead) { s with now := s.now + 1, isOpen := false } := by
    intro hbits hentry
    rw [hhorizon] at h
    refine ⟨?_, h.ahead, fun t hnow hlt hadded => h.live t (Nat.le_of_succ_le hnow) hlt hadded, ?_⟩
    · intro t hlt
      by_cases heq : t = s.now
      · simp_all
      · exact h.kept t (by have hlt : t < s.now + 1 := hlt; omega)
    · intro i hactive
      obtain ⟨t, hnow, hlt, hult, hi, hfor⟩ := h.owner i hactive
      grind
  unfold nrSchedulePucch
  rw [isUlSlot_slot]
  dsimp only
  split
  next hdl =>
    refine hidle ?_ fun _ _ _ => hdl
    by_cases hadded : 0 < s.addedAck s.now ∨ 0 < s.addedCsi s.now
    · have hul := (h.live s.now le_rfl (by omega) hadded).1
      simp_all
    · omega
  rename_i hnotdl
  have hul := Bool.eq_true_of_not_eq_false hnotdl
  rw [hindex]
  split
  next hinactive =>
    refine hidle (h.no_bits_of_inactive le_rfl hinactive) ?_
    grind
  rename_i hactive
  have hfor := (h.for_of_active le_rfl hul ⟨le_rfl, Nat.le_add_right _ _⟩
    (Bool.eq_true_of_not_eq_false hactive)).2
  split
  next hmismatch =>
    rcases hmismatch with hne | hne
    · exact absurd hfor.2.1.symm hne
    · exact absurd hfor.2.2.symm hne
  · obtain ⟨hack, hcsi⟩ := h.bits le_rfl
    rw [hhorizon] at h
    refine ⟨?_, h.ahead, ?_, ?_⟩
    · intro t hlt
      have hlt : t < s.now + 1 := hlt
      show s.addedAck t ≤ (if t = s.now then _ else _) ∧
        s.addedCsi t ≤ (if t = s.now then _ else _)
      by_cases heq : t = s.now
      · simp_all
      · rw [if_neg heq, if_neg heq]
        exact h.kept t (by omega)
    · intro t hnow hlt hadded
      have hnow : s.now + 1 ≤ t := hnow
      obtain ⟨hult, hrest⟩ := h.live t (Nat.le_of_succ_le hnow) hlt hadded
      have hne : indexOf cfg t ≠ indexOf cfg s.now := by
        intro hsame
        have := indexOf_injective cfg hult hul ⟨Nat.le_of_succ_le hnow, by omega⟩
          ⟨le_rfl, Nat.le_add_right _ _⟩ hsame
        omega
      have hpucch := s.set_of_ne .zero hne
      show cfg.isUlSlot t = true ∧
        ((s.set (indexOf cfg s.now) .zero).pucch (indexOf cfg t)).active = true ∧
        s.addedAck t ≤ ((s.set (indexOf cfg s.now) .zero).pucch (indexOf cfg t)).daiC ∧
        s.addedCsi t ≤ ((s.set (indexOf cfg s.now) .zero).pucch (indexOf cfg t)).csiBits
      simp_all
    · intro i hactive
      have hi : i ≠ indexOf cfg s.now := by
        intro heq
        change ((s.set (indexOf cfg s.now) .zero).pucch i).active = true at hactive
        rw [heq, State.set_self] at hactive
        exact absurd hactive Bool.false_ne_true
      have hpucch := s.set_of_ne .zero hi
      rw [hpucch] at hactive
      obtain ⟨t, hnow, hlt, hult, hti, hfor⟩ := h.owner i hactive
      refine ⟨t, ?_, hlt, hult, hti, ?_⟩
      · refine Nat.succ_le_of_lt (Nat.lt_of_le_of_ne hnow fun heq => ?_)
        rw [← heq] at hti
        exact hi hti.symm
      · simp_all

end Steps

/-! ### Runs -/

/-- An entry with bits. -/
def SchedPucch.CarriesBits (e : SchedPucch) : Prop :=
  e.active = true ∧ (0 < e.daiC ∨ 0 < e.csiBits)

instance (e : SchedPucch) : Decidable e.CarriesBits := by
  unfold SchedPucch.CarriesBits
  infer_instance

/-- **No scheduling request of the slot is on another resource** than the slot's entry, if the entry
has bits. -/
def SrFits (cfg : PucchConfig) (s : State) : Input → Prop
  | .endOfSlot active _ _ =>
      active = true → cfg.isUlSlot s.now = true → (s.pucch (indexOf cfg s.now)).CarriesBits →
        ∀ sr ∈ cfg.srResources,
          Due cfg sr.period sr.offset (cfg.frame s.now) (cfg.slot s.now) →
            (s.pucch (indexOf cfg s.now)).resourceIndicator = sr.idx
  | _ => True

instance (cfg : PucchConfig) (s : State) (i : Input) : Decidable (SrFits cfg s i) := by
  unfold SrFits
  split <;> infer_instance

/-- What holds between the calls. -/
def StateInv (cfg : PucchConfig) (s : State) : Prop :=
  Inv cfg (s.now + cfg.ahead + if s.isOpen = true then 1 else 0) s

theorem step_inv {cfg : PucchConfig} (hone : OneReport cfg) {s : State} {i : Input}
    {o : Option ℕ} (h : StateInv cfg s) (hguard : SrFits cfg s i)
    (hstep : step cfg s i = .ok (s', o)) :
    StateInv cfg s' := by
  unfold StateInv at h ⊢
  cases i with
  | csiMeasReporting active beamFree vrbFree =>
    unfold step at hstep
    dsimp only at hstep
    split at hstep
    · cases hstep
    rename_i hclosed
    rw [if_neg hclosed] at h
    rw [bind_returns] at hstep
    obtain ⟨s₁, hs₁, hstep⟩ := hstep
    have hinv : Inv cfg (s.now + cfg.ahead + 1) s₁ ∧ s₁.now = s.now := by
      unfold nrCsiMeasReporting at hs₁
      split at hs₁
      · exact csiReports_inv cfg.csiReports (hone s.now) h hs₁
      · rw [← Except.ok.inj hs₁]
        exact ⟨h.mono (Nat.le_succ _), rfl⟩
    obtain ⟨rfl, _⟩ := ok_inj hstep
    rw [← hinv.2] at hinv
    exact ⟨hinv.1.kept, hinv.1.ahead, hinv.1.live, hinv.1.owner⟩
  | acknackScheduling isCommon rPucch beamFree vrbFree =>
    unfold step at hstep
    dsimp only at hstep
    split at hstep
    · cases hstep
    rename_i hopen
    rw [if_pos (Bool.eq_true_of_not_eq_false hopen)] at h
    grind [nrAcknackScheduling_inv, getPdschToHarqFeedback_le]
  | endOfSlot active beamFree vrbFree =>
    unfold step at hstep
    dsimp only at hstep
    split at hstep
    · cases hstep
    rename_i hopen
    rw [if_pos (Bool.eq_true_of_not_eq_false hopen)] at h
    rw [bind_returns] at hstep
    obtain ⟨s₁, hs₁, hstep⟩ := hstep
    have hinv : Inv cfg (s.now + cfg.ahead + 1) s₁ ∧ s₁.now = s.now := by
      unfold nrSrReporting at hs₁
      split at hs₁
      · simp_all
      rename_i hdue
      rw [not_or, Bool.not_eq_false, Bool.not_eq_false, isUlSlot_slot] at hdue
      refine srResources_inv cfg.srResources (fun _ hsr => hsr) hdue.1 h ?_ hs₁
      intro hadded
      have hlive := h.live s.now le_rfl (by omega) hadded
      exact hguard hdue.2 hdue.1 ⟨hlive.2.1, by omega⟩
    obtain ⟨rfl, _⟩ := ok_inj hstep
    have hnow : (nrSchedulePucch cfg s₁).now = s₁.now := by
      unfold nrSchedulePucch
      dsimp only
      split
      · rfl
      split
      · rfl
      split
      · rfl
      · rfl
    grind [nrSchedulePucch_inv]

/-- **Scheduled feedback is kept.**  In every run of the scheduler, from any slot on, the HARQ and
CSI bits that were added for a slot are received in it, if no scheduling request of a slot is on
another resource than the entry of the slot that has bits. -/
theorem feedback_kept (cfg : PucchConfig) (hone : OneReport cfg) (t₀ : ℕ) (s : State)
    (h : Reachable (step cfg) (SrFits cfg) (start t₀) s) :
    ∀ t < s.now, s.addedAck t ≤ s.receivedAck t ∧ s.addedCsi t ≤ s.receivedCsi t := by
  have hinv : StateInv cfg s := by
    refine h.invariant (StateInv cfg) ?_ fun s i s' o hs hg hstep => step_inv hone hs hg hstep
    refine ⟨fun _ _ => ⟨le_rfl, le_rfl⟩, fun _ _ => ⟨rfl, rfl⟩, ?_, ?_⟩
    · intro t _ _ hadded
      have hadded : 0 < 0 ∨ 0 < 0 := hadded
      omega
    · intro i hactive
      exact absurd hactive Bool.false_ne_true
  exact hinv.kept

/-- An FDD cell of numerology 0, and a UE with a scheduling request every ten slots. -/
def sampleConfig (idx : ℕ) : PucchConfig :=
  { mu := 0
    periodsFrame := 1
    slotsPeriod := 10
    periodsFrame_mem := by decide
    slots_eq := rfl
    ulSlot := fun _ => true
    cellSpecificKoffset := 0
    koffset_le := by decide
    minRxTxTime := 2
    dciFormat10 := true
    dlDataToUlAck := []
    dlDataToUlAck_le := fun _ h => absurd h List.not_mem_nil
    csiReports := []
    srResources := [⟨10, 2, idx⟩]
    checkBitsVsCoderateLimit := fun _ _ => true }

/-- **Two uplink slots no further apart than feedback is scheduled ahead have different entries**,
also where the frame numbers wrap. -/
theorem getPucchIndex_ne (cfg : PucchConfig) {u v : ℕ} (hu : cfg.isUlSlot u = true)
    (hv : cfg.isUlSlot v = true) (hne : u ≠ v) (huv : u ≤ v + cfg.ahead) (hvu : v ≤ u + cfg.ahead) :
    cfg.getPucchIndex (cfg.frame u) (cfg.slot u) ≠
      cfg.getPucchIndex (cfg.frame v) (cfg.slot v) := by
  intro heq
  rcases Nat.le_total u v with hle | hle
  · exact hne (indexOf_injective cfg hu hv ⟨le_rfl, by omega⟩ ⟨hle, hvu⟩ heq)
  · exact hne (indexOf_injective cfg hu hv ⟨hle, huv⟩ ⟨le_rfl, by omega⟩ heq)

theorem getPucchIndex_ne_wrap :
    (sampleConfig 0).getPucchIndex 1023 9 ≠ (sampleConfig 0).getPucchIndex 0 0 :=
  @getPucchIndex_ne (sampleConfig 0) 10239 10240 rfl rfl (by decide) (by decide) (by decide)

/-- In slot 0 a HARQ bit is added for slot 2, in which a scheduling request is due. -/
def sampleInputs : List Input :=
  [.csiMeasReporting true true true, .acknackScheduling false (-1) (fun _ => true) (fun _ => true),
    .endOfSlot true true (fun _ => true), .csiMeasReporting true true true,
    .endOfSlot true true (fun _ => true), .csiMeasReporting true true true,
    .endOfSlot true true (fun _ => true)]

theorem sampleConfig_oneReport (idx : ℕ) : OneReport (sampleConfig idx) := fun _ => Nat.zero_le 1

/-- The scheduling request is on the resource of the HARQ bit. -/
theorem feedback_kept_sample :
    ∃ s, Reachable (step (sampleConfig 0)) (SrFits (sampleConfig 0)) (start 0) s ∧ s.now = 3 ∧
      s.addedAck 2 = 1 ∧ s.addedAck 2 ≤ s.receivedAck 2 := by
  obtain ⟨s, hs, hf⟩ := exists_reachable (step (sampleConfig 0)) (SrFits (sampleConfig 0)) (start 0)
    sampleInputs (fun s => (s.now, s.addedAck 2)) (b := (3, 1)) (by decide +kernel)
  obtain ⟨hnow, hadded⟩ := Prod.mk.inj hf
  have hkept := feedback_kept _ (sampleConfig_oneReport 0) 0 s hs 2 (by omega)
  exact ⟨s, hs, hnow, hadded, hkept.1⟩

/-- **A scheduling request clears the HARQ bits of its slot.**  Its resource is not the one of the
HARQ bit, and `nr_sr_reporting` takes the entry for one of another slot. -/
theorem not_feedback_kept :
    ¬ ∀ (cfg : PucchConfig), OneReport cfg → ∀ (t₀ : ℕ) (s : State),
      Reachable (step cfg) (fun _ _ => True) (start t₀) s →
        ∀ t < s.now, s.addedAck t ≤ s.receivedAck t ∧ s.addedCsi t ≤ s.receivedCsi t := by
  obtain ⟨s, hs, hf⟩ := exists_reachable (step (sampleConfig 1)) (fun _ _ => True) (start 0)
    sampleInputs (fun s => (s.now, s.addedAck 2, s.receivedAck 2)) (b := (3, 1, 0))
    (by decide +kernel)
  grind [Prod.mk.injEq, sampleConfig, sampleConfig_oneReport]

end OaiGnb.Mac.Pucch
