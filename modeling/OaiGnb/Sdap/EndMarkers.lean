import OaiGnb.Sdap.Consistency

/-!
# End markers

When a flow of a UE gets a rule for another DRB, an end marker goes out on the DRB it leaves, if
that one has a UL header.

* `endMarker_iff` : for one flow, where the UE sends just this marker: the role kept with the flow
  is that of its DRB, and a flow without rule has no role left, leaves the default DRB and that one
  has a UL header.  A DL PDU sends two where a flow without rule leaves the default DRB.
* `endMarkers_exact` : in every state that the UE reaches a step sends just the markers that are
  called for, exactly if that is so for each of its flows.
-/

namespace OaiGnb.Sdap

open Run

/-! ### One rule -/

/-- Whether a DRB was set up with a UL header. -/
def ulHeader (s : Side) (drbId : ℕ) : Bool := ((s.pdcp drbId).map PdcpDrb.hasSdapTx).getD false

/-- The end marker that a rule for a flow calls for. -/
def endMarker (s : Side) (e : Entity) (drbId qfi : ℕ) : List (ℕ × ℕ) :=
  if nrSdapQfi2drb e qfi ≠ 0 ∧ nrSdapQfi2drb e qfi ≠ drbId ∧ ulHeader s (nrSdapQfi2drb e qfi) then
    [(nrSdapQfi2drb e qfi, nrSdapConstructCtrlPdu qfi)]
  else []

/-- Where a rule sends this marker, when `ulTx` is what it takes for the header of the old rule. -/
def RuleFits (s : Side) (e : Entity) (drbId qfi : ℕ) (ulTx : Bool) : Prop :=
  if (e.qfi2drbTable qfi).drbId = 0 then
    e.defaultDrb ≠ 0 → ulTx = false ∧ e.defaultDrb ≠ drbId ∧ ulHeader s e.defaultDrb = true
  else (e.qfi2drbTable qfi).drbId ≠ drbId → ulTx = ulHeader s (e.qfi2drbTable qfi).drbId

/-- What the UE sends for a rule, when `ulTx` is what it takes for the header of the old rule. -/
def sentMarkers (e : Entity) (drbId qfi : ℕ) (ulTx : Bool) : List (ℕ × ℕ) :=
  (if e.defaultDrb ≠ 0 ∧ (e.qfi2drbTable qfi).drbId = 0 then
    nrSdapSubmitCtrlPdu e.defaultDrb (nrSdapConstructCtrlPdu qfi) else []) ++
  (if (e.qfi2drbTable qfi).drbId ≠ drbId ∧ ulTx then
    nrSdapSubmitCtrlPdu (nrSdapQfi2drb e qfi) (nrSdapConstructCtrlPdu qfi) else [])

/-- **For one flow**: the marker that is called for is sent exactly if the rule fits. -/
theorem endMarker_iff {s : Side} {e : Entity} {drbId qfi : ℕ} {ulTx : Bool} (hdrb : drbId ≠ 0) :
    sentMarkers e drbId qfi ulTx = endMarker s e drbId qfi ↔ RuleFits s e drbId qfi ulTx := by
  have hzero : ¬ 0 = drbId := fun h => hdrb h.symm
  unfold sentMarkers RuleFits endMarker nrSdapQfi2drb nrSdapSubmitCtrlPdu
  by_cases hrule : (e.qfi2drbTable qfi).drbId = 0
  · by_cases hdefault : e.defaultDrb = 0
    · simp [hrule, hdefault]
    · cases ulTx <;> by_cases hnew : e.defaultDrb = drbId <;>
        cases hheader : ulHeader s e.defaultDrb <;>
        simp_all
  · by_cases hsame : (e.qfi2drbTable qfi).drbId = drbId
    · simp [hsame, hdrb]
    · cases ulTx <;> cases hheader : ulHeader s (e.qfi2drbTable qfi).drbId <;>
        simp [hrule, hsame, hheader]

/-! ### The flows of a reconfiguration -/

/-- A marker names its flow. -/
theorem nrSdapConstructCtrlPdu_inj {qfi qfi' : ℕ} (h : qfi < 64) (h' : qfi' < 64)
    (heq : nrSdapConstructCtrlPdu qfi = nrSdapConstructCtrlPdu qfi') : qfi = qfi' := by
  unfold nrSdapConstructCtrlPdu ulHdr at heq
  omega

theorem flow_of_mem {s : Side} {e : Entity} {drbId qfi : ℕ} {ulTx : Bool} {pdu : ℕ × ℕ}
    (h : pdu ∈ sentMarkers e drbId qfi ulTx ∨ pdu ∈ endMarker s e drbId qfi) :
    pdu.2 = nrSdapConstructCtrlPdu qfi := by
  unfold sentMarkers endMarker nrSdapSubmitCtrlPdu at h
  grind

/-- The markers of one flow among those of all. -/
theorem filter_flatMap {flows : List ℕ} {f : ℕ → List (ℕ × ℕ)} (hnodup : flows.Nodup)
    (hlt : ∀ q ∈ flows, q < 64) (hf : ∀ q, ∀ pdu ∈ f q, pdu.2 = nrSdapConstructCtrlPdu q)
    {qfi : ℕ} (hqfi : qfi ∈ flows) :
    (flows.flatMap f).filter (fun pdu => decide (pdu.2 = nrSdapConstructCtrlPdu qfi)) = f qfi := by
  have hself : (f qfi).filter (fun pdu => decide (pdu.2 = nrSdapConstructCtrlPdu qfi)) = f qfi :=
    List.filter_eq_self.mpr fun pdu hpdu => decide_eq_true (hf qfi pdu hpdu)
  have hother : ∀ q, q < 64 → q ≠ qfi →
      (f q).filter (fun pdu => decide (pdu.2 = nrSdapConstructCtrlPdu qfi)) = [] := by
    intro q hq hne
    refine List.filter_eq_nil_iff.mpr fun pdu hpdu heq => hne ?_
    exact nrSdapConstructCtrlPdu_inj hq (hlt qfi hqfi)
      ((hf q pdu hpdu).symm.trans (of_decide_eq_true heq))
  induction flows with
  | nil => cases hqfi
  | cons q flows ih =>
    obtain ⟨hq, hnodup⟩ := List.nodup_cons.mp hnodup
    obtain ⟨hlt_q, hlt_flows⟩ := List.forall_mem_cons.mp hlt
    rw [List.flatMap_cons, List.filter_append]
    rcases List.mem_cons.mp hqfi with rfl | hmem
    · have hnone : (flows.flatMap f).filter
          (fun pdu => decide (pdu.2 = nrSdapConstructCtrlPdu qfi)) = [] := by
        rw [List.filter_flatMap, List.flatMap_eq_nil_iff]
        exact fun q' hq' => hother q' (hlt_flows q' hq') fun heq => hq (heq ▸ hq')
      rw [hself, hnone, List.append_nil]
    · rw [hother q hlt_q (fun heq => hq (heq ▸ hmem)), List.nil_append,
        ih hnodup hlt_flows hmem]

/-- The markers of all flows are right exactly if those of each are. -/
theorem flatMap_eq_iff {flows : List ℕ} {f g : ℕ → List (ℕ × ℕ)} (hnodup : flows.Nodup)
    (hlt : ∀ q ∈ flows, q < 64) (hf : ∀ q, ∀ pdu ∈ f q, pdu.2 = nrSdapConstructCtrlPdu q)
    (hg : ∀ q, ∀ pdu ∈ g q, pdu.2 = nrSdapConstructCtrlPdu q) :
    flows.flatMap f = flows.flatMap g ↔ ∀ q ∈ flows, f q = g q := by
  constructor
  · intro h q hq
    rw [← filter_flatMap hnodup hlt hf hq, h, filter_flatMap hnodup hlt hg hq]
  · intro h
    exact congrArg List.flatten (List.map_congr_left h)

/-! ### Every history of a UE -/

/-- What reaches a UE: a DRB of a reconfiguration, the release of a DRB, a PDU on a DRB. -/
inductive UeInput
  | configure (drbId : ℕ) (cfg : RrcSdapConfig)
  | release (drbId : ℕ)
  | receive (drbId : ℕ) (pdu : List ℕ)

/-- A step of a UE with the control PDUs it submits. -/
def ueStep (s : Side) : UeInput → Except Fault (Side × List (ℕ × ℕ))
  | .configure drbId cfg => .ok (addBearer false s drbId cfg)
  | .release drbId => .ok (releaseDrb s drbId, [])
  | .receive drbId pdu =>
      match dataInd false s drbId pdu with
      | none => .error .nullHeader
      | some none => .ok (s, [])
      | some (some r) => .ok (s.setEntity drbId r.entity, r.ctrlPdus)

/-- The DRBs are numbered from 1 to 32; the flows that a message adds are distinct, below 64 and not
released by it. -/
def UeInput.Allowed : UeInput → Prop
  | .configure drbId cfg => (1 ≤ drbId ∧ drbId ≤ 32) ∧ cfg.mappedQosFlowsToAdd.Nodup ∧
      ∀ qfi ∈ cfg.mappedQosFlowsToAdd, qfi < 64 ∧ qfi ∉ cfg.mappedQosFlowsToRelease
  | .release drbId | .receive drbId _ => 1 ≤ drbId ∧ drbId ≤ 32

instance (i : UeInput) : Decidable i.Allowed := by
  cases i <;> exact inferInstanceAs (Decidable (_ ∧ _))

/-- The flow that a DL PDU gets a rule for: its header says so, and the UE takes it for a header. -/
def reflectedFlow (e : Entity) (drb : PdcpDrb) (pdu : List ℕ) : Option ℕ :=
  match pdu with
  | [] => none
  | hdr :: _ =>
      if (e.qfi2drbTable (deliveredQfi drb pdu)).entityRole.testBit 3 ∧ hdr / 128 % 2 = 1 then
        some (hdr % 64)
      else none

/-- The flows that a step gives a rule, with their entity and the header that is assumed. -/
def newRules (s : Side) : UeInput → List (Entity × ℕ × Bool)
  | .configure _ cfg => ((s.sdap cfg.pduSession).map fun e =>
      cfg.mappedQosFlowsToAdd.map fun qfi =>
        (e, qfi, (e.qfi2drbTable qfi).entityRole.testBit 0)).getD []
  | .release _ => []
  | .receive drbId pdu => (((s.pdcp drbId).bind fun drb => (s.sdap drb.pdusessionId).bind fun e =>
      (reflectedFlow e drb pdu).map fun qfi => [(e, qfi, true)])).getD []

/-- The DRB of a step. -/
def UeInput.drbId : UeInput → ℕ
  | .configure drbId _ | .release drbId | .receive drbId _ => drbId

/-- The end markers that a step calls for. -/
def endMarkers (s : Side) (i : UeInput) : List (ℕ × ℕ) :=
  (newRules s i).flatMap fun r => endMarker s r.1 i.drbId r.2.1

/-- The entities of a UE are those of a UE. -/
def AtUe (s : Side) : Prop := ∀ p e, s.sdap p = some e → e.isGnb = false

theorem atUe_update {s : Side} {p : ℕ} {e : Entity} {pdcp : ℕ → Option PdcpDrb} (h : AtUe s)
    (he : e.isGnb = false) : AtUe ⟨Function.update s.sdap p (some e), pdcp⟩ := by
  intro q e' he'
  rcases eq_or_ne q p with rfl | hne
  · have he' : Function.update s.sdap q (some e) q = some e' := he'
    rw [Function.update_self] at he'
    rw [← Option.some.inj he', he]
  · have he' : Function.update s.sdap p (some e) q = some e' := he'
    rw [Function.update_of_ne hne] at he'
    exact h q e' he'

theorem addQosFlows_isGnb (e : Entity) (sdap : SdapConfig) :
    (nrSdapAddQosFlowsToDrb e sdap).isGnb = e.isGnb := by
  unfold nrSdapAddQosFlowsToDrb
  induction sdap.mappedQfis2Add generalizing e with
  | nil => rfl
  | cons qfi qfis ih =>
    rw [List.foldl_cons, ih]
    split <;> rfl

theorem rmQosFlows_isGnb (e : Entity) (sdap : SdapConfig) :
    (nrSdapRmQosFlowsFromDrb e sdap).isGnb = e.isGnb := by
  unfold nrSdapRmQosFlowsFromDrb
  induction sdap.mappedQfis2Release generalizing e with
  | nil => rfl
  | cons qfi qfis ih => exact ih _

theorem rxEntity_isGnb {e : Entity} {drbId qfi : ℕ} {hasSdapRx : Bool} {pdu : List ℕ}
    {r : Received} (h : nrSdapRxEntity e drbId false hasSdapRx qfi pdu = some r) :
    r.entity.isGnb = e.isGnb := by
  unfold nrSdapRxEntity reflectiveMapping at h
  grind [Entity.setFlow]

theorem atUe_step {s s' : Side} {i : UeInput} {markers : List (ℕ × ℕ)} (h : AtUe s)
    (hstep : ueStep s i = .ok (s', markers)) : AtUe s' := by
  have hupdate : ∀ e sdap, e.isGnb = false → (nrSdapQfi2drbMapUpdate e sdap).1.isGnb = false := by
    intro e sdap he
    show (nrSdapRmQosFlowsFromDrb (nrSdapAddQosFlowsToDrb e sdap) sdap).isGnb = false
    rw [rmQosFlows_isGnb, addQosFlows_isGnb, he]
  cases i with
  | configure drbId cfg =>
    have hs' : (addBearer false s drbId cfg).1 = s' := congrArg Prod.fst (Except.ok.inj hstep)
    rw [← hs']
    unfold addBearer nrReconfigureSdapEntity nrSdapAddmodEntity
    dsimp only
    split_ifs
    · split
      next e he => exact atUe_update h (hupdate e _ (h _ e he))
      · exact h
    · split
      next e he => exact atUe_update h (hupdate e _ (h _ e he))
      · exact atUe_update h (addQosFlows_isGnb _ _)
  | release drbId =>
    obtain ⟨rfl, -⟩ := Prod.mk.inj (Except.ok.inj hstep)
    unfold releaseDrb nrSdapReleaseDrb
    split
    · split
      next e he => exact atUe_update h (show (e.dropDrb drbId).isGnb = false from h _ e he)
      · exact h
    · exact h
  | receive drbId pdu =>
    unfold ueStep dataInd at hstep
    dsimp only at hstep
    cases hdrb : s.pdcp drbId with
    | none =>
      rw [hdrb] at hstep
      obtain ⟨rfl, -⟩ := Prod.mk.inj (Except.ok.inj hstep)
      exact h
    | some drb =>
      cases he : s.sdap drb.pdusessionId with
      | none =>
        simp only [hdrb, he] at hstep
        obtain ⟨rfl, -⟩ := Prod.mk.inj (Except.ok.inj hstep)
        exact h
      | some e =>
        simp only [hdrb, he] at hstep
        cases hr : nrSdapRxEntity e drbId false drb.hasSdapRx (deliveredQfi drb pdu) pdu with
        | none =>
          rw [hr] at hstep
          cases hstep
        | some r =>
          rw [hr] at hstep
          obtain ⟨rfl, -⟩ := Prod.mk.inj (Except.ok.inj hstep)
          unfold Side.setEntity
          rw [hdrb]
          exact atUe_update h ((rxEntity_isGnb hr).trans (h _ e he))

theorem rxEntity_markers {e : Entity} {drbId : ℕ} {drb : PdcpDrb} {pdu : List ℕ} {r : Received}
    (hqfi : deliveredQfi drb pdu < 64)
    (h : nrSdapRxEntity e drbId false drb.hasSdapRx (deliveredQfi drb pdu) pdu = some r) :
    r.ctrlPdus = ((reflectedFlow e drb pdu).map fun qfi => sentMarkers e drbId qfi true).getD [] := by
  unfold nrSdapRxEntity reflectiveMapping at h
  rw [decide_eq_true hqfi] at h
  unfold reflectedFlow sentMarkers
  cases pdu with
  | nil => grind
  | cons hdr rest => grind

/-- What a step sends, flow by flow. -/
theorem ueStep_markers {s s' : Side} {i : UeInput} {markers : List (ℕ × ℕ)} (h : AtUe s)
    (hstep : ueStep s i = .ok (s', markers)) :
    markers = (newRules s i).flatMap fun r => sentMarkers r.1 i.drbId r.2.1 r.2.2 := by
  cases i with
  | configure drbId cfg =>
    have hmarkers : (addBearer false s drbId cfg).2 = markers :=
      congrArg Prod.snd (Except.ok.inj hstep)
    rw [← hmarkers]
    unfold addBearer nrReconfigureSdapEntity nrSdapAddmodEntity newRules
    have hsession : (nrSdapGetConfig false cfg drbId).pdusessionId = cfg.pduSession := rfl
    dsimp only
    rw [hsession]
    cases he : s.sdap cfg.pduSession with
    | none => split_ifs <;> rfl
    | some e =>
      have hsent : (nrSdapQfi2drbMapUpdate e (nrSdapGetConfig false cfg drbId)).2 =
          (cfg.mappedQosFlowsToAdd.map fun qfi =>
            (e, qfi, (e.qfi2drbTable qfi).entityRole.testBit 0)).flatMap
            fun r => sentMarkers r.1 drbId r.2.1 r.2.2 := by
        rw [nrSdapQfi2drbMapUpdate, h _ e he, List.flatMap_map]
        rfl
      split_ifs
      · exact hsent
      · exact hsent
  | release drbId =>
    obtain ⟨-, rfl⟩ := Prod.mk.inj (Except.ok.inj hstep)
    rfl
  | receive drbId pdu =>
    unfold ueStep dataInd at hstep
    unfold newRules
    dsimp only at hstep ⊢
    cases hdrb : s.pdcp drbId with
    | none =>
      rw [hdrb] at hstep
      obtain ⟨-, rfl⟩ := Prod.mk.inj (Except.ok.inj hstep)
      rfl
    | some drb =>
      cases he : s.sdap drb.pdusessionId with
      | none =>
        simp only [hdrb, he] at hstep
        obtain ⟨-, rfl⟩ := Prod.mk.inj (Except.ok.inj hstep)
        simp [he]
      | some e =>
        simp only [hdrb, he] at hstep
        cases hr : nrSdapRxEntity e drbId false drb.hasSdapRx (deliveredQfi drb pdu) pdu with
        | none =>
          rw [hr] at hstep
          cases hstep
        | some r =>
          rw [hr] at hstep
          obtain ⟨-, rfl⟩ := Prod.mk.inj (Except.ok.inj hstep)
          have hqfi : deliveredQfi drb pdu < 64 := by
            unfold deliveredQfi
            split
            · decide
            · split <;> omega
          rw [rxEntity_markers hqfi hr]
          simp only [Option.bind_some, he]
          cases reflectedFlow e drb pdu <;> simp [UeInput.drbId]

/-- The flows of an allowed step. -/
theorem newRules_flows {s : Side} {i : UeInput} (h : i.Allowed) :
    ∃ (e : Entity) (flows : List ℕ) (ulTx : ℕ → Bool),
      newRules s i = flows.map (fun qfi => (e, qfi, ulTx qfi)) ∧ flows.Nodup ∧
      ∀ qfi ∈ flows, qfi < 64 := by
  have hnone : ∃ (e : Entity) (flows : List ℕ) (ulTx : ℕ → Bool),
      ([] : List (Entity × ℕ × Bool)) =
      flows.map (fun qfi => (e, qfi, ulTx qfi)) ∧ flows.Nodup ∧ ∀ qfi ∈ flows, qfi < 64 :=
    ⟨⟨false, 0, fun _ => ⟨0, 0⟩⟩, [], fun _ => false, rfl, List.nodup_nil, List.forall_mem_nil _⟩
  cases i with
  | configure drbId cfg =>
    unfold newRules
    dsimp only
    cases he : s.sdap cfg.pduSession with
    | none => exact hnone
    | some e => exact ⟨e, _, _, rfl, h.2.1, fun qfi hqfi => (h.2.2 qfi hqfi).1⟩
  | release drbId => exact hnone
  | receive drbId pdu =>
    unfold newRules reflectedFlow
    dsimp only
    cases s.pdcp drbId with
    | none => exact hnone
    | some drb =>
      cases hs : s.sdap drb.pdusessionId with
      | none => simpa [hs] using hnone
      | some e =>
        cases pdu with
        | nil => simpa [hs] using hnone
        | cons hdr rest =>
          by_cases hr : (e.qfi2drbTable (deliveredQfi drb (hdr :: rest))).entityRole.testBit 3 ∧
              hdr / 128 % 2 = 1
          · refine ⟨e, [hdr % 64], fun _ => true, ?_, by simp, ?_⟩
            · simp [hs, hr]
            · intro qfi hqfi
              rw [List.mem_singleton.mp hqfi]
              omega
          · simpa [hs, hr] using hnone

/-- **When end markers are exact**: in every state that a UE reaches, a step submits exactly the end
markers that its new rules call for if and only if all these rules fit. -/
theorem endMarkers_exact {s s' : Side} {i : UeInput} {markers : List (ℕ × ℕ)}
    (h : Reachable ueStep (fun _ i => i.Allowed) Side.start s) (hallowed : i.Allowed)
    (hstep : ueStep s i = .ok (s', markers)) :
    markers = endMarkers s i ↔ ∀ r ∈ newRules s i, RuleFits s r.1 i.drbId r.2.1 r.2.2 := by
  have hue : AtUe s := h.invariant AtUe (fun _ _ he => (by cases he))
    fun _ _ _ _ hs _ hstep => atUe_step hs hstep
  have hne : i.drbId ≠ 0 := by
    cases i with
    | configure drbId cfg => exact Nat.ne_of_gt hallowed.1.1
    | release drbId => exact Nat.ne_of_gt hallowed.1
    | receive drbId pdu => exact Nat.ne_of_gt hallowed.1
  obtain ⟨e, flows, ulTx, hrules, hnodup, hlt⟩ := @newRules_flows s i hallowed
  rw [ueStep_markers hue hstep, endMarkers, hrules, List.flatMap_map, List.flatMap_map]
  rw [flatMap_eq_iff hnodup hlt (fun q pdu hpdu => flow_of_mem (s := s) (Or.inl hpdu))
    fun q pdu hpdu => @flow_of_mem _ _ _ _ false _ (Or.inr hpdu)]
  rw [List.forall_mem_map]
  exact forall₂_congr fun q _ => endMarker_iff hne

/-- Flow 5 gets a rule for DRB 2 and flow 6 for DRB 3, both with headers; a DL PDU is received; then
flow 5 leaves DRB 2 and flow 6 leaves DRB 3 for DRB 4. -/
theorem endMarkers_exact_sample :
    ∃ s s' markers, Reachable ueStep (fun _ i => i.Allowed) Side.start s ∧
      ueStep s (.configure 4 ⟨1, true, true, false, [5, 6], []⟩) = .ok (s', markers) ∧
      markers = [(2, 5), (3, 6)] ∧
      markers = endMarkers s (.configure 4 ⟨1, true, true, false, [5, 6], []⟩) := by
  have h0 : Reachable ueStep (fun _ i => i.Allowed) Side.start Side.start := .start
  have h1 := h0.step (i := .configure 2 sampleConfig) (by decide) rfl
  have h2 := h1.step (i := .configure 3 ⟨1, true, true, false, [6], []⟩) (by decide) rfl
  have h3 := h2.step (i := .receive 2 [5, 0xAA]) (by decide) rfl
  refine ⟨_, _, _, h3, rfl, by decide, ?_⟩
  exact (endMarkers_exact h3 (by decide) rfl).mpr (by unfold RuleFits; decide)

/-- **A marker on a DRB without header.**  Flow 5 leaves the default DRB. -/
theorem not_endMarkers_exact :
    ¬ ∀ s s' i markers, Reachable ueStep (fun _ i => i.Allowed) Side.start s → i.Allowed →
      ueStep s i = .ok (s', markers) → markers = endMarkers s i := by
  intro hall
  have h0 : Reachable ueStep (fun _ i => i.Allowed) Side.start Side.start := .start
  have h1 := h0.step (i := .configure 1 ⟨1, false, false, true, [9], []⟩) (by decide) rfl
  have h := hall _ _ (.configure 2 sampleConfig) _ h1 (by decide) rfl
  exact absurd h (by decide)

end OaiGnb.Sdap
