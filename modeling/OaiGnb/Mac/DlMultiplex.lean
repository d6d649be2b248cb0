import OaiGnb.Mac.DlPdu

/-!
# Building a downlink MAC PDU at the gNB

`nr_write_ce_dlsch_pdu` of `gNB_scheduler_dlsch.c`, and the part of `post_process_dlsch` that builds
the transport block of a first transmission: the MAC CEs, then the PDUs of RLC behind long
subheaders, then padding.  RLC is a parameter, as at the UE.

* `serveStep_spec`: what one iteration adds to the transport block.
* `postProcessDlsch_spec`: a transport block is its MAC CEs, its SDUs and its padding, and has the
  size that was asked for.
-/

namespace OaiGnb.Mac.DlMultiplex

open Loop Run
open Mac.UlPdu (ParseFault)
open Mac.DlPdu

/-! ### MAC CEs -/

/-- `sp_zp_csirs_t`. -/
structure SpZpCsiRs where
  actDeact : Bool
  servCellId : ℕ
  bwpid : ℕ
  rscId : ℕ

/-- `csi_rs_im_t`. -/
structure CsiRsIm where
  actDeact : Bool
  servCellid : ℕ
  bwpId : ℕ
  im : Bool
  csiImRscId : ℕ
  nzpCsiRscId : ℕ
  nbTciResourceSetId : ℕ
  tciStateId : ℕ → ℕ

/-- `pdcchStateInd_t`. -/
structure PdcchStateInd where
  servingCellId : ℕ
  coresetId : ℕ
  tciStateId : ℕ

/-- `SPCSIReportingpucch_t`; `r1` is the bit of the MAC CE that is not initialised. -/
structure SpCsiReportingPucch where
  servingCellId : ℕ
  bwpId : ℕ
  s0tos3ActDeact : Fin 4 → Bool
  r1 : Bool

/-- `aperiodicCSI_triggerStateSelection_t` and `pdschTciStatesActDeact_t`: the highest index, an
`uint8_t`, and what is found at the indices of the array and behind it. -/
structure StateSelection where
  servingCellId : ℕ
  bwpId : ℕ
  highest : Fin 256
  selected : ℕ → Bool

/-- `NR_UE_mac_ce_ctrl_t`; what is not scheduled is absent. -/
structure UeMacCeCtrl where
  pdcchStateInd : Option PdcchStateInd
  spCsiReportingPucch : Option SpCsiReportingPucch
  pdschTciStatesActDeact : Option StateSelection
  aperiCsiTrigger : Option StateSelection
  spZpCsiRs : Option SpZpCsiRs
  csiIm : Option CsiRsIm

/-- What the scheduler knows of a UE and of the cell's timing advance group. -/
structure DlSched where
  taApply : Bool
  taUpdate : ℤ
  tagId : Fin 4
  ctrl : UeMacCeCtrl
  numTotalBytes : ℕ
  lcConfig : List ℕ
  /-- `rlc_status[lcid].bytes_in_buffer`. -/
  bytesInBuffer : ℕ → ℕ

/-- A MAC CE as it is written: its LCID, whether a length field was written, its octets. -/
structure Ce where
  lcid : ℕ
  hasLength : Bool
  octets : List UInt8

/-- The bytes of a MAC CE. -/
def Ce.encode (ce : Ce) : List UInt8 :=
  if ce.hasLength = true then
    UInt8.ofNat ce.lcid :: UInt8.ofNat ce.octets.length :: ce.octets
  else UInt8.ofNat ce.lcid :: ce.octets

/-- `TA_COMMAND` and `TAGID`. -/
def taCe (sched : DlSched) : Ce :=
  ⟨lcidTaCommand, false, [UInt8.ofNat ((sched.taUpdate % 64).toNat + sched.tagId * 64)]⟩

/-- `NR_TCI_PDCCH`. -/
def pdcchStateIndCe (p : PdcchStateInd) : Ce :=
  ⟨lcidTciStateIndUeSpecPdcch, false,
    [UInt8.ofNat (p.coresetId % 16 / 2 + p.servingCellId % 32 * 8),
      UInt8.ofNat (p.tciStateId % 128 + p.coresetId % 2 * 128)]⟩

/-- `NR_PUCCH_CSI_REPORTING`. -/
def spCsiReportingPucchCe (p : SpCsiReportingPucch) : Ce :=
  ⟨lcidSpCsiRepPucchAct, false,
    [UInt8.ofNat (p.bwpId % 4 + p.servingCellId % 32 * 4 + p.r1.toNat * 128),
      UInt8.ofNat ((p.s0tos3ActDeact 0).toNat + (p.s0tos3ActDeact 1).toNat * 2
        + (p.s0tos3ActDeact 2).toNat * 4 + (p.s0tos3ActDeact 3).toNat * 8)]⟩

/-- The octet `T[k]` of `NR_TCI_PDSCH_APERIODIC_CSI`. -/
def selectionOctet (selected : ℕ → Bool) (k : ℕ) : ℕ :=
  ((List.range 8).map fun j => (selected (k * 8 + j)).toNat * 2 ^ j).sum

/-- `NR_TCI_PDSCH_APERIODIC_CSI`: one octet, and one for every eight states. -/
def stateSelectionCe (lcid : ℕ) (p : StateSelection) : Ce :=
  ⟨lcid, true, UInt8.ofNat (p.bwpId % 4 + p.servingCellId % 32 * 4) ::
    (List.range (p.highest / 8 + 1)).map fun k => UInt8.ofNat (selectionOctet p.selected k)⟩

/-- `NR_MAC_CE_SP_ZP_CSI_RS_RES_SET`. -/
def spZpCsiRsCe (p : SpZpCsiRs) : Ce :=
  ⟨lcidSpZpCsiRsResSetAct, false,
    [UInt8.ofNat (p.bwpid % 4 + p.servCellId % 32 * 4 + p.actDeact.toNat * 128),
      UInt8.ofNat (p.rscId % 16)]⟩

/-- `CSI_RS_CSI_IM_ACT_DEACT_MAC_CE`, written behind a subheader without a length field. -/
def csiImCe (p : CsiRsIm) : Ce :=
  ⟨lcidSpCsiRsCsiImResSetAct, false,
    [UInt8.ofNat (p.bwpId % 4 + p.servCellid % 32 * 4 + p.actDeact.toNat * 128),
      UInt8.ofNat (p.nzpCsiRscId % 64 + p.im.toNat * 64)]
    ++ (if p.im = true then [UInt8.ofNat (p.csiImRscId % 64)] else [])
    ++ (if p.actDeact = true then
        (List.range p.nbTciResourceSetId).map fun i => UInt8.ofNat (p.tciStateId i % 64)
      else [])⟩

/-- `nr_write_ce_dlsch_pdu` without a DRX command and a contention resolution identity. -/
def nrWriteCeDlschPdu (sched : DlSched) : Except ParseFault (List Ce) :=
  if sched.taApply = true ∧ 64 ≤ sched.taUpdate then .error .assertFatal
  else
    .ok ((if sched.taApply = true then [taCe sched] else [])
      ++ (sched.ctrl.pdcchStateInd.map pdcchStateIndCe).toList
      ++ (sched.ctrl.spCsiReportingPucch.map spCsiReportingPucchCe).toList
      ++ (sched.ctrl.pdschTciStatesActDeact.map
        (stateSelectionCe lcidTciStateActUeSpecPdsch)).toList
      ++ (sched.ctrl.aperiCsiTrigger.map (stateSelectionCe lcidAperiodicCsiTriStateSubsel)).toList
      ++ (sched.ctrl.spZpCsiRs.map spZpCsiRsCe).toList
      ++ (sched.ctrl.csiIm.map csiImCe).toList)

/-! ### The transport block -/

/-- The RLC: what `nr_mac_rlc_data_req` returns for a channel and a size. -/
structure Rlc (w : Type) where
  dataReq : w → ℕ → ℕ → List UInt8 × w
  atMost : ∀ s lcid n, (dataReq s lcid n).1.length ≤ n

/-- `NR_MAC_SUBHEADER_LONG` with `F` set. -/
def longSubheader (lcid length : ℕ) : List UInt8 :=
  [UInt8.ofNat (64 + lcid % 64), UInt8.ofNat (length / 256), UInt8.ofNat (length % 256)]

/-- A PDU of RLC behind its subheader. -/
def encodeSdu (sdu : ℕ × List UInt8) : List UInt8 := longSubheader sdu.1 sdu.2.length ++ sdu.2

/-- The transport block so far, the SDUs in it, and RLC. -/
structure Tx (w : Type) where
  buf : List UInt8
  sdus : List (ℕ × List UInt8)
  rlcState : w

variable {w : Type}

/-- One iteration of the loop over the PDUs of a logical channel. -/
def serveStep (rlc : Rlc w) (tbs lcid bytesInBuffer : ℕ) (s : Tx w) : Next (Tx w) (Tx w) :=
  if tbs - s.buf.length > 3 + 1 then
    let r := rlc.dataReq s.rlcState lcid (min bytesInBuffer (tbs - s.buf.length - 3))
    if r.1.length = 0 then .stop { s with rlcState := r.2 }
    else .go ⟨s.buf ++ encodeSdu (lcid, r.1), s.sdus ++ [(lcid, r.1)], r.2⟩
  else .stop s

/-- The logical channels in turn. -/
def serveChannels (rlc : Rlc w) (tbs : ℕ) (bytesInBuffer : ℕ → ℕ) :
    List ℕ → Tx w → Except ParseFault (Tx w)
  | [], s => .ok s
  | lcid :: lcids, s =>
      if bytesInBuffer lcid = 0 then serveChannels rlc tbs bytesInBuffer lcids s
      else
        match iterate (serveStep rlc tbs lcid (bytesInBuffer lcid)) (tbs + 1) s with
        | none => .error .loops
        | some s' => serveChannels rlc tbs bytesInBuffer lcids s'

/-- The data of RLC, if there is any. -/
def rlcData (rlc : Rlc w) (tbs : ℕ) (sched : DlSched) (s : Tx w) : Except ParseFault (Tx w) :=
  if sched.numTotalBytes > 0 then serveChannels rlc tbs sched.bytesInBuffer sched.lcConfig s
  else .ok s

/-- What is written behind the SDUs: padding, or random data behind a subheader of padding when
there is no data and the softmodem is in one of its test modes. -/
def paddingBytes (testData : Bool) (random : ℕ → UInt8) (room : ℕ) : List UInt8 :=
  if testData = true ∧ room > 3 then
    longSubheader lcidPadding (room - 3) ++ (List.range (room - 3)).map random
  else if room > 0 then UInt8.ofNat lcidPadding :: List.replicate (room - 1) 0
  else []

/-- A transport block, and what was written into it. -/
structure TransportBlock (w : Type) where
  buf : List UInt8
  ces : List Ce
  sdus : List (ℕ × List UInt8)
  padding : List UInt8
  rlcState : w

/-- The transport block of a first transmission in `post_process_dlsch`; `phyTest` is
`get_softmodem_params()->phy_test || get_softmodem_params()->do_ra`. -/
def postProcessDlsch (rlc : Rlc w) (phyTest : Bool) (random : ℕ → UInt8) (sched : DlSched)
    (rlcState : w) (tbs : ℕ) : Except ParseFault (TransportBlock w) := do
  let ces ← nrWriteCeDlschPdu sched
  let start : Tx w := ⟨ces.flatMap Ce.encode, [], rlcState⟩
  if tbs ≤ start.buf.length then .error .assertFatal
  else do
    let tx ← rlcData rlc tbs sched start
    let padding := paddingBytes (decide (sched.numTotalBytes = 0) && phyTest) random
      (tbs - tx.buf.length)
    return ⟨tx.buf ++ padding, ces, tx.sdus, padding, tx.rlcState⟩

/-! ### What is written -/

section Serving

variable {rlc : Rlc w} {tbs lcid n : ℕ} {s s' : Tx w}

theorem encodeSdu_length (sdu : ℕ × List UInt8) : (encodeSdu sdu).length = 3 + sdu.2.length := by
  rw [encodeSdu, List.length_append]
  rfl

/-- **What one iteration adds to the transport block.** -/
theorem serveStep_spec (h : serveStep rlc tbs lcid n s = .go s') :
    ∃ data, s'.buf = s.buf ++ encodeSdu (lcid, data) ∧ s'.sdus = s.sdus ++ [(lcid, data)] ∧
      (∃ n, data = (rlc.dataReq s.rlcState lcid n).1) ∧ s'.buf.length ≤ tbs ∧
      s.buf.length < s'.buf.length := by
  unfold serveStep at h
  split at h
  · dsimp only at h
    split at h
    · cases h
    injection h with h
    have hmost := rlc.atMost s.rlcState lcid (min n (tbs - s.buf.length - 3))
    all_goals
      grind [List.length_append, encodeSdu_length]
  · cases h

theorem serveStep_stop {r : Tx w} (h : serveStep rlc tbs lcid n s = .stop r) :
    r.buf = s.buf ∧ r.sdus = s.sdus := by grind [serveStep]

/-- The loop over the PDUs of a logical channel has fewer iterations than the transport block has
bytes. -/
theorem serveStep_decreases (h : serveStep rlc tbs lcid n s = .go s') :
    tbs - s'.buf.length < tbs - s.buf.length := by grind [serveStep_spec]

/-- The MAC CEs, then the SDUs that RLC has given for some logical channels, and no more than
fits. -/
structure Packed (rlc : Rlc w) (ces : List UInt8) (lcids : List ℕ) (tbs : ℕ) (s : Tx w) : Prop where
  buf : s.buf = ces ++ s.sdus.flatMap encodeSdu
  fits : s.buf.length ≤ tbs
  sdus : ∀ sdu ∈ s.sdus, sdu.1 ∈ lcids ∧ ∃ s n, sdu.2 = (rlc.dataReq s sdu.1 n).1

theorem Packed.serve {ces : List UInt8} {lcids : List ℕ} (h : Packed rlc ces lcids tbs s)
    (hlcid : lcid ∈ lcids) :
    ∃ s', iterate (serveStep rlc tbs lcid n) (tbs + 1) s = some s' ∧ Packed rlc ces lcids tbs s' := by
  obtain ⟨s₁, r, hs₁, hstop, hr⟩ := iterate_some (fun s : Tx w => tbs - s.buf.length)
    (fun _ _ h => @serveStep_decreases _ rlc tbs lcid n _ _ h) s .start
    (Nat.lt_succ_of_le (Nat.sub_le tbs s.buf.length))
  have hpacked : Packed rlc ces lcids tbs s₁ := by
    refine hs₁.invariant (Packed rlc ces lcids tbs) h ?_
    intro s s' hs hstep
    obtain ⟨data, hbuf, hsdus, ⟨n, hdata⟩, hle, _⟩ := serveStep_spec hstep
    refine ⟨?_, hle, ?_⟩
    · rw [hbuf, hsdus, hs.buf, List.flatMap_append, List.append_assoc, List.flatMap_singleton]
    · intro sdu hsdu
      rw [hsdus] at hsdu
      rcases List.mem_append.mp hsdu with hsdu | hsdu
      · exact hs.sdus sdu hsdu
      · rw [List.mem_singleton.mp hsdu]
        exact ⟨hlcid, _, n, hdata⟩
  obtain ⟨hbuf, hsdus⟩ := serveStep_stop hstop
  exact ⟨r, hr, by rw [hbuf, hsdus]; exact hpacked.buf, by rw [hbuf]; exact hpacked.fits,
    by rw [hsdus]; exact hpacked.sdus⟩

theorem Packed.serveChannels {ces : List UInt8} {lcids : List ℕ} {bytesInBuffer : ℕ → ℕ}
    (todo : List ℕ) (htodo : ∀ l ∈ todo, l ∈ lcids) (h : Packed rlc ces lcids tbs s) :
    ∃ s', serveChannels rlc tbs bytesInBuffer todo s = .ok s' ∧ Packed rlc ces lcids tbs s' := by
  induction todo generalizing s with
  | nil => exact ⟨s, rfl, h⟩
  | cons lcid todo ih =>
    have htail : ∀ l ∈ todo, l ∈ lcids := (List.forall_mem_cons.mp htodo).2
    rw [DlMultiplex.serveChannels]
    split
    · exact ih htail h
    · obtain ⟨s', hs', hpacked⟩ := @Packed.serve _ rlc tbs lcid (bytesInBuffer lcid) s ces lcids h
        (htodo lcid List.mem_cons_self)
      simp_all

theorem rlcData_packed (rlc : Rlc w) {sched : DlSched} {ces : List UInt8} (rlcState : w)
    (hroom : ¬ tbs ≤ ces.length) :
    ∃ s', rlcData rlc tbs sched ⟨ces, [], rlcState⟩ = .ok s' ∧
      Packed rlc ces sched.lcConfig tbs s' := by
  have hstart : Packed rlc ces sched.lcConfig tbs (⟨ces, [], rlcState⟩ : Tx w) :=
    ⟨(List.append_nil _).symm, Nat.le_of_not_le hroom, List.forall_mem_nil _⟩
  unfold rlcData
  split
  · exact hstart.serveChannels sched.lcConfig fun _ hl => hl
  · exact ⟨_, rfl, hstart⟩

end Serving

theorem paddingBytes_spec (testData : Bool) (random : ℕ → UInt8) (room : ℕ) :
    (paddingBytes testData random room).length = room ∧
      ∀ b tl, paddingBytes testData random room = b :: tl → b.toNat % 64 = lcidPadding := by
  unfold paddingBytes
  split
  · refine ⟨?_, ?_⟩
    · rw [List.length_append, List.length_map, List.length_range]
      show 3 + (room - 3) = room
      omega
    · intro b tl h
      rw [← (List.cons.inj h).1]
      decide
  split
  · refine ⟨?_, ?_⟩
    · grind
    · intro b tl h
      rw [← (List.cons.inj h).1]
      decide
  · simp_all

/-- **A transport block is its MAC CEs, its SDUs and its padding**, and has the size that was asked
for, which is more than the MAC CEs take. -/
theorem postProcessDlsch_spec {rlc : Rlc w} {phyTest : Bool} {random : ℕ → UInt8} {sched : DlSched}
    {rlcState : w} {tbs : ℕ} {ces : List Ce} (hces : nrWriteCeDlschPdu sched = .ok ces)
    (hroom : (ces.flatMap Ce.encode).length < tbs) :
    ∃ tb, postProcessDlsch rlc phyTest random sched rlcState tbs = .ok tb ∧ tb.ces = ces ∧
      tb.buf = tb.ces.flatMap Ce.encode ++ tb.sdus.flatMap encodeSdu ++ tb.padding ∧
      tb.buf.length = tbs ∧
      (∀ sdu ∈ tb.sdus, sdu.1 ∈ sched.lcConfig ∧ ∃ s n, sdu.2 = (rlc.dataReq s sdu.1 n).1) ∧
      ∀ b tl, tb.padding = b :: tl → b.toNat % 64 = lcidPadding := by
  obtain ⟨tx, htx, hpacked⟩ := @rlcData_packed _ tbs rlc sched _ rlcState (not_le.mpr hroom)
  obtain ⟨hlength, hhead⟩ := paddingBytes_spec (decide (sched.numTotalBytes = 0) && phyTest) random
    (tbs - tx.buf.length)
  set padding := paddingBytes (decide (sched.numTotalBytes = 0) && phyTest) random
    (tbs - tx.buf.length) with hpadding
  refine ⟨⟨tx.buf ++ padding, ces, tx.sdus, padding, tx.rlcState⟩, ?_, rfl, ?_, ?_, hpacked.sdus,
    hhead⟩
  · rw [postProcessDlsch, hces, ok_bind]
    dsimp only
    rw [if_neg (not_le.mpr hroom), htx, ok_bind]
    rfl
  · show tx.buf ++ padding = _
    rw [hpacked.buf]
  · have hfits := hpacked.fits
    rw [List.length_append, hlength]
    omega

end OaiGnb.Mac.DlMultiplex
