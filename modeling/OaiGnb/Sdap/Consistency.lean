import OaiGnb.Lib.Run
import OaiGnb.Sdap.Entity

/-!
# SDAP headers at both ends

The gNB and the UE apply the same reconfigurations, and each keeps for every QoS flow the roles of
the DRB the flow was mapped to last.  `Config` is the configuration that both hold, `Config.side` is
what each of them keeps of it, and the operations of both sides are those of `Config`
(`addBearer_side`, `releaseDrb_side`).

* `Config.Valid` : a flow with a mapping rule has the headers of its DRB.
* `sdap_consistent` : the header of a PDU is that of its DRB, the peer hands up the SDU, and no
  control PDU is handed up, as long as a flow without rule has roles that fit the default DRB, flow
  0 has no header where a DL DRB has none, and the UE sends no control PDU.
-/

namespace OaiGnb.Sdap

open Run

/-! ### The two sides -/

inductive Direction
  | uplink
  | downlink
deriving DecidableEq

/-- Whether the gNB is the sender. -/
def Direction.sender : Direction → Bool
  | .uplink => false
  | .downlink => true

/-- The role of a sender that adds a header. -/
def Direction.txBit : Direction → ℕ
  | .uplink => 0
  | .downlink => 2

/-- The role of a receiver that removes a header. -/
def Direction.rxBit : Direction → ℕ
  | .uplink => 1
  | .downlink => 3

/-- The header of a data PDU. -/
def Direction.header (qfi : ℕ) (rqi : Bool) : Direction → ℕ
  | .uplink => ulHdr qfi 0 1
  | .downlink => dlHdr qfi rqi.toNat 0

/-- How a DRB was configured. -/
structure BearerConfig where
  pduSession : ℕ
  headerUl : Bool
  headerDl : Bool
deriving DecidableEq

def BearerConfig.header (b : BearerConfig) : Direction → Bool
  | .uplink => b.headerUl
  | .downlink => b.headerDl

/-- Both sides of a UE's bearers, and how the DRBs were configured. -/
structure System where
  configured : ℕ → Option BearerConfig
  gnb : Side
  ue : Side

def System.side (s : System) (isGnb : Bool) : Side := if isGnb then s.gnb else s.ue

def System.setSide (s : System) (isGnb : Bool) (side : Side) : System :=
  if isGnb then { s with gnb := side } else { s with ue := side }

inductive Input
  | configure (drbId : ℕ) (cfg : RrcSdapConfig)
  | release (drbId : ℕ)
  | data (dir : Direction) (pdusessionId qfi : ℕ) (rqi : Bool) (sdu : List ℕ)

/-- The PDU of a step, what the peer hands up of it, and the control PDUs handed up. -/
structure Output where
  submitted : Option (ℕ × List ℕ)
  handedUp : Option (List ℕ)
  ctrlHandedUp : List (List ℕ)

inductive Fault
  | nullHeader
deriving DecidableEq

/-- A DRB keeps its configuration until it is released. -/
def configureDrb (configured : ℕ → Option BearerConfig) (drbId : ℕ) (cfg : RrcSdapConfig) :
    ℕ → Option BearerConfig :=
  match configured drbId with
  | some _ => configured
  | none => Function.update configured drbId
      (some ⟨cfg.pduSession, cfg.sdapHeaderUl, cfg.sdapHeaderDl⟩)

/-- What the gNB hands up of the UE's control PDUs; a control PDU has its header. -/
def ctrlPdusHandedUp (ue gnb : Side) (ctrlPdus : List (ℕ × ℕ)) : List (List ℕ) :=
  ctrlPdus.filterMap fun pdu =>
    if (ue.pdcp pdu.1).isSome then (dataInd true gnb pdu.1 [pdu.2]).join.map Received.sdu else none

/-- The entity of a DRB's session after a reception. -/
def Side.setEntity (s : Side) (drbId : ℕ) (e : Entity) : Side :=
  match s.pdcp drbId with
  | some drb => { s with sdap := Function.update s.sdap drb.pdusessionId (some e) }
  | none => s

/-- A PDU is received by the peer.  The UE's senders mark data. -/
def transfer (s : System) (dir : Direction) (pdusessionId qfi : ℕ) (rqi : Bool) (sdu : List ℕ) :
    Except Fault (System × Output) :=
  match dataReq (s.side dir.sender) pdusessionId sdu qfi (dir = .uplink || rqi) with
  | none => .ok (s, ⟨none, none, []⟩)
  | some (drbId, pdu) =>
      match dataInd (!dir.sender) (s.side !dir.sender) drbId pdu with
      | none => .error .nullHeader
      | some none => .ok (s, ⟨some (drbId, pdu), none, []⟩)
      | some (some r) =>
          .ok (s.setSide (!dir.sender) ((s.side !dir.sender).setEntity drbId r.entity),
            ⟨some (drbId, pdu), some r.sdu, ctrlPdusHandedUp s.ue s.gnb r.ctrlPdus⟩)

/-- A reconfiguration reaches the gNB first. -/
def step (s : System) : Input → Except Fault (System × Output)
  | .configure drbId cfg =>
      let gnb := addBearer true s.gnb drbId cfg
      let ue := addBearer false s.ue drbId cfg
      .ok (⟨configureDrb s.configured drbId cfg, gnb.1, ue.1⟩,
        ⟨none, none, ctrlPdusHandedUp s.ue gnb.1 ue.2⟩)
  | .release drbId =>
      .ok (⟨Function.update s.configured drbId none, releaseDrb s.gnb drbId, releaseDrb s.ue drbId⟩,
        ⟨none, none, []⟩)
  | .data dir pdusessionId qfi rqi sdu => transfer s dir pdusessionId qfi rqi sdu

def Side.start : Side := ⟨fun _ => none, fun _ => none⟩

def System.start : System := ⟨fun _ => none, Side.start, Side.start⟩

/-! ### One configuration and two views of it -/

/-- A QoS flow: its rule, if not 0, and the headers that were configured with its last rule. -/
structure Flow where
  drbId : ℕ
  headerUl : Bool
  headerDl : Bool
deriving DecidableEq

def Flow.header (f : Flow) : Direction → Bool
  | .uplink => f.headerUl
  | .downlink => f.headerDl

structure Session where
  defaultDrb : ℕ
  flows : ℕ → Flow

structure Config where
  bearers : ℕ → Option BearerConfig
  sessions : ℕ → Option Session

def Flow.entry (isGnb : Bool) (f : Flow) : Qfi2drb :=
  ⟨f.drbId, getSdapRole isGnb f.headerUl f.headerDl⟩

def Session.entity (isGnb : Bool) (s : Session) : Entity :=
  ⟨isGnb, s.defaultDrb, fun qfi => (s.flows qfi).entry isGnb⟩

def BearerConfig.drb (isGnb : Bool) (b : BearerConfig) : PdcpDrb :=
  ⟨b.pduSession, if isGnb then b.headerUl else b.headerDl,
    if isGnb then b.headerDl else b.headerUl⟩

/-- What the gNB or the UE keeps of the configuration. -/
def Config.side (isGnb : Bool) (c : Config) : Side :=
  ⟨fun p => (c.sessions p).map (Session.entity isGnb),
    fun d => (c.bearers d).map (BearerConfig.drb isGnb)⟩

def Config.system (c : Config) : System := ⟨c.bearers, c.side true, c.side false⟩

def Session.setFlow (s : Session) (qfi : ℕ) (f : Flow) : Session :=
  { s with flows := Function.update s.flows qfi f }

def Session.addFlows (s : Session) (drbId : ℕ) (cfg : RrcSdapConfig) : Session :=
  cfg.mappedQosFlowsToAdd.foldl (fun s qfi =>
    if qfi < 64 ∧ 0 < drbId ∧ drbId ≤ 32 then
      s.setFlow qfi ⟨drbId, cfg.sdapHeaderUl, cfg.sdapHeaderDl⟩
    else s) s

/-- A flow without its rule. -/
def Flow.drop (f : Flow) : Flow := ⟨0, f.headerUl, f.headerDl⟩

def Session.rmFlows (s : Session) (cfg : RrcSdapConfig) : Session :=
  cfg.mappedQosFlowsToRelease.foldl (fun s qfi => s.setFlow qfi (s.flows qfi).drop) s

def Session.new (drbId : ℕ) (cfg : RrcSdapConfig) : Session :=
  Session.addFlows ⟨if cfg.defaultDrb then drbId else 0, fun _ => ⟨0, false, false⟩⟩ drbId cfg

/-- The session of a reconfiguration. -/
def Config.configureSession (c : Config) (drbId : ℕ) (cfg : RrcSdapConfig) : Session :=
  match c.sessions cfg.pduSession with
  | some s => (s.addFlows drbId cfg).rmFlows cfg
  | none => Session.new drbId cfg

def Config.configure (c : Config) (drbId : ℕ) (cfg : RrcSdapConfig) : Config :=
  ⟨configureDrb c.bearers drbId cfg,
    Function.update c.sessions cfg.pduSession (some (c.configureSession drbId cfg))⟩

def Session.dropDrb (s : Session) (drbId : ℕ) : Session :=
  { s with flows := fun qfi =>
      if qfi < 64 ∧ (s.flows qfi).drbId = drbId then (s.flows qfi).drop else s.flows qfi }

def Config.release (c : Config) (drbId : ℕ) : Config :=
  ⟨Function.update c.bearers drbId none,
    match c.bearers drbId with
    | some b => Function.update c.sessions b.pduSession
        ((c.sessions b.pduSession).map fun s => s.dropDrb drbId)
    | none => c.sessions⟩

theorem Config.release_sessions_some {c : Config} {drbId : ℕ} {b : BearerConfig}
    (h : c.bearers drbId = some b) :
    (c.release drbId).sessions = Function.update c.sessions b.pduSession
      ((c.sessions b.pduSession).map fun s => s.dropDrb drbId) := by
  unfold Config.release
  rw [h]

theorem Config.release_sessions_none {c : Config} {drbId : ℕ} (h : c.bearers drbId = none) :
    (c.release drbId).sessions = c.sessions := by
  unfold Config.release
  rw [h]

@[simp] theorem getSdapRole_testBit_zero (g ul dl : Bool) :
    (getSdapRole g ul dl).testBit 0 = (!g && ul) := by
  cases g <;> cases ul <;> cases dl <;> rfl

@[simp] theorem getSdapRole_testBit_one (g ul dl : Bool) :
    (getSdapRole g ul dl).testBit 1 = (g && ul) := by
  cases g <;> cases ul <;> cases dl <;> rfl

@[simp] theorem getSdapRole_testBit_two (g ul dl : Bool) :
    (getSdapRole g ul dl).testBit 2 = (g && dl) := by
  cases g <;> cases ul <;> cases dl <;> rfl

@[simp] theorem getSdapRole_testBit_three (g ul dl : Bool) :
    (getSdapRole g ul dl).testBit 3 = (!g && dl) := by
  cases g <;> cases ul <;> cases dl <;> rfl

theorem getSdapRole_absent (g : Bool) : getSdapRole g false false = 0 := by cases g <;> rfl

section Views

variable {isGnb : Bool} {c : Config} {cfg : RrcSdapConfig} {drbId : ℕ}

theorem entity_setFlow (s : Session) (qfi : ℕ) (f : Flow) :
    (s.setFlow qfi f).entity isGnb = (s.entity isGnb).setFlow qfi (f.entry isGnb) := by
  refine congrArg (Entity.mk isGnb s.defaultDrb) ?_
  funext q
  show (Function.update s.flows qfi f q).entry isGnb
    = Function.update (fun q => (s.flows q).entry isGnb) qfi (f.entry isGnb) q
  grind

theorem entity_addFlows (s : Session) :
    (s.addFlows drbId cfg).entity isGnb
      = nrSdapAddQosFlowsToDrb (s.entity isGnb) (nrSdapGetConfig isGnb cfg drbId) := by
  refine (List.foldl_hom (Session.entity isGnb) fun s qfi => ?_).symm
  show (if qfi < 64 ∧ 0 < drbId ∧ drbId ≤ 32 then
      (s.entity isGnb).setFlow qfi ⟨drbId, getSdapRole isGnb cfg.sdapHeaderUl cfg.sdapHeaderDl⟩
      else s.entity isGnb) = Session.entity isGnb (if _ then _ else _)
  by_cases h : qfi < 64 ∧ 0 < drbId ∧ drbId ≤ 32
  · rw [if_pos h, if_pos h, entity_setFlow]
    rfl
  · rw [if_neg h, if_neg h]

theorem entity_rmFlows (s : Session) :
    (s.rmFlows cfg).entity isGnb
      = nrSdapRmQosFlowsFromDrb (s.entity isGnb) (nrSdapGetConfig isGnb cfg drbId) :=
  (List.foldl_hom (Session.entity isGnb)
    fun s qfi => (entity_setFlow s qfi (s.flows qfi).drop).symm).symm

theorem entity_new :
    (Session.new drbId cfg).entity isGnb
      = nrSdapAddEntity isGnb (nrSdapGetConfig isGnb cfg drbId) := by
  unfold Session.new nrSdapAddEntity Session.entity Flow.entry
  rw [← getSdapRole_absent isGnb]
  exact entity_addFlows _

theorem entity_dropDrb (s : Session) :
    (s.dropDrb drbId).entity isGnb = (s.entity isGnb).dropDrb drbId := by
  refine congrArg (Entity.mk isGnb s.defaultDrb) ?_
  funext qfi
  exact apply_ite (Flow.entry isGnb) _ _ _

theorem map_update {α β : Type} (f : ℕ → Option α) (g : α → β) (p : ℕ) (v : Option α) :
    (fun q => (Function.update f p v q).map g)
      = Function.update (fun q => (f q).map g) p (v.map g) := by grind

theorem pdcp_configureDrb (hpdcp : ℕ → Option BearerConfig) :
    (fun d => (configureDrb hpdcp drbId cfg d).map (BearerConfig.drb isGnb))
      = nrPdcpAddDrb (fun d => (hpdcp d).map (BearerConfig.drb isGnb))
        (nrSdapGetConfig isGnb cfg drbId) := by
  unfold configureDrb nrPdcpAddDrb
  show _ = match (hpdcp drbId).map (BearerConfig.drb isGnb) with | some _ => _ | none => _
  cases hpdcp drbId with
  | some b => rfl
  | none =>
    rw [map_update]
    unfold nrSdapGetConfig BearerConfig.drb
    simp only [getSdapRole_testBit_zero, getSdapRole_testBit_one, getSdapRole_testBit_two,
      getSdapRole_testBit_three, Option.map_some]
    cases isGnb <;> simp

/-- A DRB that exists is reconfigured as it was configured, within its session. -/
def Config.Keeps (c : Config) (drbId : ℕ) (cfg : RrcSdapConfig) : Prop :=
  ∀ b, c.bearers drbId = some b → b = ⟨cfg.pduSession, cfg.sdapHeaderUl, cfg.sdapHeaderDl⟩

/-- **A reconfiguration at each side is one of the configuration.** -/
theorem addBearer_side (hkeeps : c.Keeps drbId cfg)
    (hsession : ∀ b, c.bearers drbId = some b → (c.sessions b.pduSession).isSome) :
    (addBearer isGnb (c.side isGnb) drbId cfg).1 = (c.configure drbId cfg).side isGnb := by
  have hentity : ∀ s, c.sessions cfg.pduSession = some s →
      (nrSdapQfi2drbMapUpdate (s.entity isGnb) (nrSdapGetConfig isGnb cfg drbId)).1
        = (c.configureSession drbId cfg).entity isGnb := by
    intro s hs
    unfold Config.configureSession
    rw [hs]
    show nrSdapRmQosFlowsFromDrb (nrSdapAddQosFlowsToDrb (s.entity isGnb) _) _ = _
    rw [← entity_addFlows, ← entity_rmFlows]
  have hsdap : (fun p => ((c.configure drbId cfg).sessions p).map (Session.entity isGnb))
      = Function.update (fun p => (c.sessions p).map (Session.entity isGnb)) cfg.pduSession
        (some ((c.configureSession drbId cfg).entity isGnb)) :=
    map_update _ _ _ _
  have hpdcp := @pdcp_configureDrb isGnb cfg drbId c.bearers
  unfold addBearer
  dsimp only
  split
  · -- the UE has the DRB, so it has the session
    rename_i hexists
    obtain ⟨-, hexists⟩ := Bool.and_eq_true_iff.mp hexists
    obtain ⟨b, hb⟩ := Option.isSome_iff_exists.mp ((Option.isSome_map ..).symm.trans hexists)
    obtain ⟨s, hs⟩ := Option.isSome_iff_exists.mp (hsession b hb)
    rw [hkeeps b hb] at hs
    have hold : configureDrb c.bearers drbId cfg = c.bearers := by
      unfold configureDrb
      rw [hb]
    have hreconfigure := @nrReconfigureSdapEntity_some (c.side isGnb).sdap
      (nrSdapGetConfig isGnb cfg drbId) _ (congrArg (Option.map (Session.entity isGnb)) hs)
    rw [hentity s hs] at hreconfigure
    rw [hreconfigure]
    refine congr (congrArg Side.mk hsdap.symm) ?_
    funext d
    show _ = (configureDrb c.bearers drbId cfg d).map _
    rw [hold]
    rfl
  · refine congr (congrArg Side.mk ?_) hpdcp.symm
    rw [hsdap]
    cases hs : c.sessions cfg.pduSession with
    | some s =>
      rw [← hentity s hs]
      exact nrSdapAddmodEntity_some (congrArg (Option.map (Session.entity isGnb)) hs)
    | none =>
      have hnew : c.configureSession drbId cfg = Session.new drbId cfg := by
        unfold Config.configureSession
        rw [hs]
      rw [hnew, entity_new]
      exact nrSdapAddmodEntity_none (congrArg (Option.map (Session.entity isGnb)) hs)

theorem releaseDrb_side : releaseDrb (c.side isGnb) drbId = (c.release drbId).side isGnb := by
  have hpdcp : (fun d => (Function.update c.bearers drbId none d).map (BearerConfig.drb isGnb))
      = Function.update (fun d => (c.bearers d).map (BearerConfig.drb isGnb)) drbId none :=
    map_update _ _ _ _
  unfold releaseDrb
  cases hb : c.bearers drbId with
  | none =>
    have hnone : (c.side isGnb).pdcp drbId = none := congrArg (Option.map _) hb
    rw [hnone]
    refine congr (congrArg Side.mk ?_) ?_
    · rw [Config.release_sessions_none hb]
    · refine Eq.trans ?_ hpdcp.symm
      simp_all
  | some b =>
    have hsome : (c.side isGnb).pdcp drbId = some (b.drb isGnb) := congrArg (Option.map _) hb
    rw [hsome]
    refine congr (congrArg Side.mk ?_) hpdcp.symm
    rw [Config.release_sessions_some hb, map_update, nrSdapReleaseDrb_eq]
    refine congrArg (Function.update _ b.pduSession) ?_
    show ((c.sessions b.pduSession).map (Session.entity isGnb)).map _ = _
    rw [Option.map_map, Option.map_map]
    refine congrArg (fun f => Option.map f _) ?_
    funext s
    exact (entity_dropDrb s).symm

end Views

/-! ### Flows with a rule have the headers of their DRB -/

/-- The rule of a flow of session `p` goes to a DRB of the session with the flow's headers. -/
def RuleHolds (bearers : ℕ → Option BearerConfig) (p qfi : ℕ) (f : Flow) : Prop :=
  f.drbId ≠ 0 → qfi < 64 ∧ bearers f.drbId = some ⟨p, f.headerUl, f.headerDl⟩

structure Config.Valid (c : Config) : Prop where
  rule : ∀ p s, c.sessions p = some s → ∀ qfi, RuleHolds c.bearers p qfi (s.flows qfi)
  session : ∀ d b, c.bearers d = some b → (c.sessions b.pduSession).isSome

variable {p : ℕ} {bearers : ℕ → Option BearerConfig}

section Valid

variable {c : Config} {cfg : RrcSdapConfig} {drbId : ℕ}

theorem configureDrb_of_ne {d : ℕ} (h : d ≠ drbId) :
    configureDrb bearers drbId cfg d = bearers d := by
  unfold configureDrb
  cases bearers drbId with
  | some b => rfl
  | none => exact Function.update_of_ne h _ _

theorem configureDrb_extends {d : ℕ} {b : BearerConfig}
    (h : bearers d = some b) : configureDrb bearers drbId cfg d = some b := by
  rcases eq_or_ne d drbId with rfl | hne
  · unfold configureDrb
    rw [h]
    exact h
  · exact (configureDrb_of_ne hne).trans h

theorem configureDrb_self (hkeeps : c.Keeps drbId cfg) :
    configureDrb c.bearers drbId cfg drbId
      = some ⟨cfg.pduSession, cfg.sdapHeaderUl, cfg.sdapHeaderDl⟩ := by
  unfold configureDrb
  cases hold : c.bearers drbId with
  | some b => exact hold.trans (congrArg some (hkeeps b hold))
  | none => exact Function.update_self ..

theorem ruleHolds_setFlow {qfi : ℕ} {s : Session} {f : Flow}
    (h : ∀ q, RuleHolds bearers p q (s.flows q)) (hf : RuleHolds bearers p qfi f) :
    ∀ q, RuleHolds bearers p q ((s.setFlow qfi f).flows q) := by
  intro q
  unfold Session.setFlow
  grind

theorem ruleHolds_addFlows {s : Session} (h : ∀ q, RuleHolds bearers cfg.pduSession q (s.flows q))
    (hself : bearers drbId = some ⟨cfg.pduSession, cfg.sdapHeaderUl, cfg.sdapHeaderDl⟩) :
    ∀ q, RuleHolds bearers cfg.pduSession q ((s.addFlows drbId cfg).flows q) := by
  unfold Session.addFlows
  generalize cfg.mappedQosFlowsToAdd = flows
  induction flows generalizing s with
  | nil => exact h
  | cons qfi rest ih =>
    refine ih ?_
    dsimp only
    split_ifs with hrange
    · exact ruleHolds_setFlow h fun _ => ⟨hrange.1, hself⟩
    · exact h

theorem ruleHolds_rmFlows {s : Session} (h : ∀ q, RuleHolds bearers p q (s.flows q)) :
    ∀ q, RuleHolds bearers p q ((s.rmFlows cfg).flows q) := by
  unfold Session.rmFlows
  generalize cfg.mappedQosFlowsToRelease = flows
  induction flows generalizing s with
  | nil => exact h
  | cons qfi rest ih => exact ih (ruleHolds_setFlow h fun hne => absurd rfl hne)

theorem Config.Valid.configure (h : c.Valid) (hkeeps : c.Keeps drbId cfg) :
    (c.configure drbId cfg).Valid := by
  have hself := configureDrb_self hkeeps
  have hold : ∀ p s, c.sessions p = some s →
      ∀ q, RuleHolds (configureDrb c.bearers drbId cfg) p q (s.flows q) := by
    intro p s hs q hne
    obtain ⟨hrange, hrule⟩ := h.rule p s hs q hne
    exact ⟨hrange, configureDrb_extends hrule⟩
  refine ⟨?_, ?_⟩
  · intro p s hs
    rcases eq_or_ne p cfg.pduSession with rfl | hp
    · have hself' : (c.configure drbId cfg).sessions cfg.pduSession
          = some (c.configureSession drbId cfg) := Function.update_self ..
      obtain rfl := Option.some.inj (hself'.symm.trans hs)
      unfold Config.configureSession
      cases hsession : c.sessions cfg.pduSession with
      | some s => exact ruleHolds_rmFlows (ruleHolds_addFlows (hold _ s hsession) hself)
      | none => exact ruleHolds_addFlows (fun q hne => absurd rfl hne) hself
    · exact hold p s ((Function.update_of_ne hp _ _).symm.trans hs)
  · intro d b hb
    have hsome : ∀ p, (c.sessions p).isSome →
        ((c.configure drbId cfg).sessions p).isSome := by
      intro p hp
      unfold Config.configure
      dsimp only
      rw [Function.update_apply]
      split_ifs
      · rfl
      · exact hp
    rcases eq_or_ne d drbId with rfl | hd
    · obtain rfl := Option.some.inj (hself.symm.trans hb)
      simp [Config.configure, Function.update_self]
    · refine hsome _ (h.session d b ?_)
      rw [← hb]
      exact (configureDrb_of_ne hd).symm

theorem Config.Valid.release (h : c.Valid) (drbId : ℕ) : (c.release drbId).Valid := by
  refine ⟨?_, ?_⟩
  · intro p s hs qfi hne
    have hkeep : ∀ s, c.sessions p = some s → (s.flows qfi).drbId ≠ 0 →
        (s.flows qfi).drbId ≠ drbId →
        qfi < 64 ∧ Function.update c.bearers drbId none (s.flows qfi).drbId
          = some ⟨p, (s.flows qfi).headerUl, (s.flows qfi).headerDl⟩ := by
      intro s hs hne hdrb
      rw [Function.update_of_ne hdrb]
      exact h.rule p s hs qfi hne
    cases hb : c.bearers drbId with
    | none =>
      rw [Config.release_sessions_none hb] at hs
      refine hkeep s hs hne ?_
      intro heq
      have hrule := (h.rule p s hs qfi hne).2
      simp_all
    | some b =>
      rw [Config.release_sessions_some hb] at hs
      rcases eq_or_ne p b.pduSession with hp | hp
      · rw [hp, Function.update_self] at hs
        obtain ⟨s₀, hs₀, rfl⟩ := Option.map_eq_some_iff.mp hs
        rw [← hp] at hs₀
        unfold Session.dropDrb at hne ⊢
        dsimp only at hne ⊢
        by_cases hdrop : qfi < 64 ∧ (s₀.flows qfi).drbId = drbId
        · rw [if_pos hdrop] at hne
          exact absurd rfl hne
        · rw [if_neg hdrop] at hne ⊢
          refine hkeep s₀ hs₀ hne ?_
          intro heq
          exact hdrop ⟨(h.rule p s₀ hs₀ qfi hne).1, heq⟩
      · have hs₀ := (Function.update_of_ne hp _ _).symm.trans hs
        refine hkeep s hs₀ hne ?_
        intro heq
        have hrule := (h.rule p s hs₀ qfi hne).2
        simp_all
  · intro d b hb
    have hd : d ≠ drbId := by
      intro heq
      rw [heq] at hb
      cases (Function.update_self ..).symm.trans hb
    have hsession := h.session d b ((Function.update_of_ne hd _ _).symm.trans hb)
    cases hreleased : c.bearers drbId with
    | none =>
      grind [Config.release_sessions_none]
    | some b' =>
      rw [Config.release_sessions_some hreleased, Function.update_apply]
      grind

end Valid

/-! ### A PDU from end to end -/

theorem header_mod (dir : Direction) {qfi : ℕ} (hqfi : qfi < 64) (rqi : Bool) :
    dir.header qfi rqi % 64 = qfi := by
  cases dir with
  | uplink => show ulHdr qfi 0 1 % 64 = qfi; unfold ulHdr; omega
  | downlink => show dlHdr qfi rqi.toNat 0 % 64 = qfi; unfold dlHdr; omega

theorem dlHdr_rdi (qfi : ℕ) (rqi : Bool) : dlHdr qfi rqi.toNat 0 / 128 % 2 = 0 := by
  unfold dlHdr
  omega

theorem ulHdr_dc (qfi : ℕ) : ulHdr qfi 0 1 / 128 = 1 := by
  unfold ulHdr
  omega

section Transfer

variable {c : Config} {dir : Direction} {s : Session} {b : BearerConfig} {drbId qfi : ℕ}
  {sdu : List ℕ}

/-- The DRB of a flow. -/
def Session.drbOf (s : Session) (qfi : ℕ) : ℕ :=
  if (s.flows qfi).drbId ≠ 0 then (s.flows qfi).drbId else s.defaultDrb

theorem nrSdapTxEntity_entity (hpos : 1 ≤ sdu.length) (hlen : sdu.length ≤ 8999) (rqi : Bool) :
    nrSdapTxEntity (s.entity dir.sender) sdu qfi (decide (dir = .uplink) || rqi)
      = if s.drbOf qfi = 0 then none
        else some (s.drbOf qfi,
          (if (s.flows qfi).header dir then [dir.header qfi rqi] else []) ++ sdu) := by
  have hshort : ¬ (sdu.length = 0 ∨ 8999 < sdu.length) := by omega
  show (if s.drbOf qfi = 0 then none
    else if !(getSdapRole dir.sender (s.flows qfi).headerUl (s.flows qfi).headerDl).testBit 0
      && !(getSdapRole dir.sender (s.flows qfi).headerUl (s.flows qfi).headerDl).testBit 2
      then some (s.drbOf qfi, sdu)
    else if sdu.length = 0 ∨ 8999 < sdu.length then none
    else if (getSdapRole dir.sender (s.flows qfi).headerUl (s.flows qfi).headerDl).testBit 2
      then some (s.drbOf qfi, dlHdr qfi (decide (dir = .uplink) || rqi).toNat 0 :: sdu)
    else some (s.drbOf qfi, ulHdr qfi 0 (decide (dir = .uplink) || rqi).toNat :: sdu)) = _
  rw [getSdapRole_testBit_zero, getSdapRole_testBit_two, if_neg hshort]
  refine if_congr Iff.rfl rfl ?_
  cases dir with
  | uplink =>
    show (if !(s.flows qfi).headerUl && true then some (s.drbOf qfi, sdu)
      else some (s.drbOf qfi, ulHdr qfi 0 1 :: sdu)) = some (s.drbOf qfi,
        (if (s.flows qfi).headerUl then [ulHdr qfi 0 1] else []) ++ sdu)
    cases (s.flows qfi).headerUl <;> rfl
  | downlink =>
    show (if !(s.flows qfi).headerDl then some (s.drbOf qfi, sdu)
      else if (s.flows qfi).headerDl then some (s.drbOf qfi, dlHdr qfi rqi.toNat 0 :: sdu)
      else _) = some (s.drbOf qfi,
        (if (s.flows qfi).headerDl then [dlHdr qfi rqi.toNat 0] else []) ++ sdu)
    cases (s.flows qfi).headerDl <;> rfl

theorem nrSdapRxEntity_entity (hqfi : qfi < 64) (rqi : Bool)
    (hrx : b.header dir = true → (s.flows qfi).header dir = true)
    (hzero : dir = .downlink → b.headerDl = false → (s.flows 0).headerDl = false) :
    nrSdapRxEntity (s.entity !dir.sender) drbId (!dir.sender) (b.drb !dir.sender).hasSdapRx
        (deliveredQfi (b.drb !dir.sender)
          ((if b.header dir then [dir.header qfi rqi] else []) ++ sdu))
        ((if b.header dir then [dir.header qfi rqi] else []) ++ sdu)
      = some ⟨s.entity !dir.sender, sdu, []⟩ := by
  have hmod := header_mod dir hqfi rqi
  cases dir with
  | uplink =>
    have hul : b.header .uplink = b.headerUl := rfl
    rw [hul] at hrx ⊢
    cases hheader : b.headerUl with
    | false =>
      show (if (b.headerUl && _) then _ else some (Received.mk _ sdu [])) = _
      rw [hheader]
      rfl
    | true =>
      have hdelivered : deliveredQfi (b.drb true) (ulHdr qfi 0 1 :: sdu) = qfi := by
        show (if b.headerUl then ulHdr qfi 0 1 % 64 else 0) = qfi
        rw [hheader]
        exact hmod
      show nrSdapRxEntity _ _ true b.headerUl
        (deliveredQfi (b.drb true) (ulHdr qfi 0 1 :: sdu)) (ulHdr qfi 0 1 :: sdu) = _
      rw [hdelivered]
      have hbit : (b.headerUl && (decide (qfi < 64) && (getSdapRole true (s.flows qfi).headerUl
          (s.flows qfi).headerDl).testBit 1)) = true := by
        rw [getSdapRole_testBit_one, hheader, decide_eq_true hqfi]
        exact hrx hheader
      exact if_pos hbit
  | downlink =>
    have hdl : b.header .downlink = b.headerDl := rfl
    rw [hdl] at hrx ⊢
    cases hheader : b.headerDl with
    | false =>
      have hdelivered : deliveredQfi (b.drb false) sdu = 0 := by
        cases sdu with
        | nil => rfl
        | cons x rest =>
          show (if b.headerDl then x % 64 else 0) = 0
          rw [hheader]
          rfl
      show nrSdapRxEntity _ _ false b.headerDl (deliveredQfi (b.drb false) sdu) sdu = _
      rw [hdelivered]
      have hbit : ¬ (decide (0 < 64) && (getSdapRole false (s.flows 0).headerUl
          (s.flows 0).headerDl).testBit 3) = true := by
        rw [getSdapRole_testBit_three, hzero rfl hheader]
        decide
      exact if_neg hbit
    | true =>
      have hdelivered : deliveredQfi (b.drb false) (dlHdr qfi rqi.toNat 0 :: sdu) = qfi := by
        show (if b.headerDl then dlHdr qfi rqi.toNat 0 % 64 else 0) = qfi
        rw [hheader]
        exact hmod
      show nrSdapRxEntity _ _ false b.headerDl
        (deliveredQfi (b.drb false) (dlHdr qfi rqi.toNat 0 :: sdu))
        (dlHdr qfi rqi.toNat 0 :: sdu) = _
      rw [hdelivered]
      have hbit : (decide (qfi < 64) && (getSdapRole false (s.flows qfi).headerUl
          (s.flows qfi).headerDl).testBit 3) = true := by
        rw [getSdapRole_testBit_three, decide_eq_true hqfi]
        exact hrx hheader
      have hrdi : ¬ dlHdr qfi rqi.toNat 0 / 128 % 2 = 1 := by
        rw [dlHdr_rdi]
        decide
      exact (if_pos hbit).trans (if_neg hrdi)

theorem entry_txBit (f : Flow) (dir : Direction) :
    (f.entry dir.sender).entityRole.testBit dir.txBit = f.header dir := by
  cases dir with
  | uplink => exact getSdapRole_testBit_zero _ _ _
  | downlink => exact getSdapRole_testBit_two _ _ _

theorem entry_rxBit (f : Flow) (dir : Direction) :
    (f.entry !dir.sender).entityRole.testBit dir.rxBit = f.header dir := by
  cases dir with
  | uplink => exact getSdapRole_testBit_one _ _ _
  | downlink => exact getSdapRole_testBit_three _ _ _

theorem system_side (c : Config) (isGnb : Bool) : c.system.side isGnb = c.side isGnb := by
  cases isGnb <;> rfl

theorem setEntity_side {isGnb : Bool} (hb : c.bearers drbId = some b)
    (hs : c.sessions b.pduSession = some s) :
    c.system.setSide isGnb ((c.side isGnb).setEntity drbId (s.entity isGnb)) = c.system := by
  have hpdcp : (c.side isGnb).pdcp drbId = some (b.drb isGnb) := congrArg (Option.map _) hb
  have hsdap : (c.side isGnb).sdap b.pduSession = some (s.entity isGnb) :=
    congrArg (Option.map _) hs
  have hside : (c.side isGnb).setEntity drbId (s.entity isGnb) = c.side isGnb := by
    unfold Side.setEntity
    rw [hpdcp]
    refine congrArg (fun sdap => Side.mk sdap (c.side isGnb).pdcp) ?_
    exact Function.update_eq_self_iff.mpr hsdap.symm
  rw [hside]
  cases isGnb <;> rfl

/-- The flow's roles, at both ends, are those of the DRB its PDUs take: it has a rule, or it has
kept roles that fit the default DRB; and a DL DRB without header needs flow 0 without. -/
def FlowFits (sys : System) (dir : Direction) (e : Entity) (b : BearerConfig) (qfi : ℕ) : Prop :=
  ((e.qfi2drbTable qfi).drbId ≠ 0 ∨
    (e.qfi2drbTable qfi).entityRole.testBit dir.txBit = b.header dir ∧
      (b.header dir = true → ∀ r, (sys.side !dir.sender).sdap b.pduSession = some r →
        (r.qfi2drbTable qfi).entityRole.testBit dir.rxBit = true)) ∧
  (dir = .downlink → b.headerDl = false → ∀ r, sys.ue.sdap b.pduSession = some r →
    (r.qfi2drbTable 0).entityRole.testBit 3 = false)

/-- A PDU has the header of its DRB, marked as data in uplink, and the peer hands up the SDU. -/
def DataOk (sys : System) (dir : Direction) (qfi : ℕ) (rqi : Bool) (sdu : List ℕ) (o : Output) :
    Prop :=
  ∀ drbId pdu, o.submitted = some (drbId, pdu) → ∃ b, sys.configured drbId = some b ∧
    pdu = (if b.header dir then [dir.header qfi rqi] else []) ++ sdu ∧
    (dir = .uplink → b.headerUl = true → pdu.headD 0 / 128 = 1) ∧ o.handedUp = some sdu

theorem transfer_consistent (hvalid : c.Valid) (hqfi : qfi < 64) (hpos : 1 ≤ sdu.length)
    (hlen : sdu.length ≤ 8999) (rqi : Bool)
    (hfits : ∀ e b, (c.system.side dir.sender).sdap p = some e →
      c.bearers (nrSdapQfi2drb e qfi) = some b → FlowFits c.system dir e b qfi) :
    ∃ o, transfer c.system dir p qfi rqi sdu = .ok (c.system, o) ∧
      DataOk c.system dir qfi rqi sdu o ∧ o.ctrlHandedUp = [] := by
  rw [system_side] at hfits
  unfold transfer
  rw [system_side, system_side]
  cases hreq : dataReq (c.side dir.sender) p sdu qfi (decide (dir = .uplink) || rqi) with
  | none => exact ⟨_, rfl, (fun _ _ h => (by cases h)), rfl⟩
  | some sent =>
    obtain ⟨e, he, hreq⟩ := Option.bind_eq_some_iff.mp hreq
    obtain ⟨⟨drbId, pdu⟩, htx, hreq⟩ := Option.bind_eq_some_iff.mp hreq
    obtain ⟨drb, hdrb, hsent⟩ := Option.bind_eq_some_iff.mp hreq
    obtain rfl := Option.some.inj hsent
    obtain ⟨s, hs, rfl⟩ := Option.map_eq_some_iff.mp he
    obtain ⟨b, hb, -⟩ := Option.map_eq_some_iff.mp hdrb
    rw [nrSdapTxEntity_entity hpos hlen] at htx
    have hdrbId : s.drbOf qfi ≠ 0 := by
      intro hzero
      rw [if_pos hzero] at htx
      cases htx
    rw [if_neg hdrbId] at htx
    obtain ⟨rfl, rfl⟩ := Prod.mk.inj (Option.some.inj htx)
    obtain ⟨hrule, hdownlink⟩ := hfits _ b he hb
    obtain ⟨s', hs'⟩ := Option.isSome_iff_exists.mp (hvalid.session _ b hb)
    have hpeer : ∀ g, (c.side g).sdap b.pduSession = some (s'.entity g) :=
      fun g => congrArg (Option.map _) hs'
    -- the flow at the sender and at the receiver
    have hflow : (s.flows qfi).header dir = b.header dir ∧
        (b.header dir = true → (s'.flows qfi).header dir = true) := by
      rcases hrule with hrule | ⟨htxBit, hrxBit⟩
      · have hdrbOf : s.drbOf qfi = (s.flows qfi).drbId := if_pos hrule
        have hown := (hvalid.rule p s hs qfi hrule).2
        rw [← hdrbOf, hb] at hown
        obtain rfl := Option.some.inj hown
        obtain rfl := Option.some.inj (hs.symm.trans hs')
        cases dir <;> exact ⟨rfl, id⟩
      · refine ⟨(entry_txBit _ dir).symm.trans htxBit, ?_⟩
        intro hheader
        rw [← entry_rxBit]
        refine hrxBit hheader (s'.entity !dir.sender) ?_
        rw [system_side]
        exact hpeer _
    have hflow0 : dir = .downlink → b.headerDl = false → (s'.flows 0).headerDl = false := by
      intro hdir hheader
      have hbit := hdownlink hdir hheader _ (hpeer false)
      exact (entry_rxBit (s'.flows 0) .downlink).symm.trans hbit
    have hind : dataInd (!dir.sender) (c.side !dir.sender) (s.drbOf qfi)
        ((if (s.flows qfi).header dir then [dir.header qfi rqi] else []) ++ sdu)
        = some (some ⟨s'.entity !dir.sender, sdu, []⟩) := by
      have hpdcp : (c.side !dir.sender).pdcp (s.drbOf qfi) = some (b.drb !dir.sender) :=
        congrArg (Option.map _) hb
      have hsdap : (c.side !dir.sender).sdap (b.drb !dir.sender).pdusessionId
          = some (s'.entity !dir.sender) := hpeer _
      unfold dataInd
      rw [hpdcp]
      dsimp only
      rw [hsdap, hflow.1]
      exact congrArg (Option.map some) (nrSdapRxEntity_entity hqfi rqi hflow.2 hflow0)
    dsimp only
    rw [hind]
    dsimp only
    rw [setEntity_side hb hs']
    refine ⟨_, rfl, ?_, rfl⟩
    intro drbId pdu hsubmitted
    obtain ⟨rfl, rfl⟩ := Prod.mk.inj (Option.some.inj hsubmitted)
    refine ⟨b, hb, by rw [hflow.1], ?_, rfl⟩
    intro hdir hheader
    subst hdir
    have hul : (s.flows qfi).header .uplink = true := hflow.1.trans hheader
    rw [hul]
    exact ulHdr_dc qfi

end Transfer

/-! ### Every history -/

/-- The steps of a history: a DRB keeps its session and its headers until it is released. -/
def Input.Allowed (s : System) : Input → Prop
  | .configure drbId cfg =>
      (s.configured drbId = none ∨
        s.configured drbId = some ⟨cfg.pduSession, cfg.sdapHeaderUl, cfg.sdapHeaderDl⟩) ∧
      1 ≤ drbId ∧ drbId ≤ 32 ∧ (∀ qfi ∈ cfg.mappedQosFlowsToAdd, qfi < 64) ∧
      ∀ qfi ∈ cfg.mappedQosFlowsToRelease, qfi < 64
  | .release drbId => 1 ≤ drbId ∧ drbId ≤ 32
  | .data _ _ qfi _ sdu => qfi < 64 ∧ 1 ≤ sdu.length ∧ sdu.length ≤ 8999

instance (s : System) (i : Input) : Decidable (i.Allowed s) := by
  cases i <;> exact inferInstanceAs (Decidable (_ ∧ _))

/-- No control PDU goes out on a DRB, and the flow of a PDU fits its DRB. -/
def Input.Fits (s : System) : Input → Prop
  | .configure drbId cfg => ∀ pdu ∈ (addBearer false s.ue drbId cfg).2, s.ue.pdcp pdu.1 = none
  | .release _ => True
  | .data dir p qfi _ _ => ∀ e b, (s.side dir.sender).sdap p = some e →
      s.configured (nrSdapQfi2drb e qfi) = some b → FlowFits s dir e b qfi

/-- What a step hands up is what it should. -/
def StepOk (s : System) (o : Output) : Input → Prop
  | .data dir _ qfi rqi sdu => DataOk s dir qfi rqi sdu o ∧ o.ctrlHandedUp = []
  | _ => o.ctrlHandedUp = []

theorem ctrlPdusHandedUp_nil {ue gnb : Side} {ctrlPdus : List (ℕ × ℕ)}
    (h : ∀ pdu ∈ ctrlPdus, ue.pdcp pdu.1 = none) : ctrlPdusHandedUp ue gnb ctrlPdus = [] := by
  refine List.filterMap_eq_nil_iff.mpr ?_
  grind

/-- **A step from the views of a valid configuration** ends in such views. -/
theorem step_system {c : Config} (hvalid : c.Valid) {i : Input} (hallowed : i.Allowed c.system)
    (hfits : i.Fits c.system) :
    ∃ c' o, step c.system i = .ok (Config.system c', o) ∧ c'.Valid ∧ StepOk c.system o i := by
  cases i with
  | configure drbId cfg =>
    have hkeeps : c.Keeps drbId cfg := by
      intro b hb
      rcases hallowed.1 with hnone | hsome
      · exact absurd (hb.symm.trans hnone) (Option.some_ne_none b)
      · exact Option.some.inj (hb.symm.trans hsome)
    have hnil : ctrlPdusHandedUp c.system.ue (addBearer true (c.side true) drbId cfg).1
        (addBearer false (c.side false) drbId cfg).2 = [] := ctrlPdusHandedUp_nil hfits
    have hsystem : System.mk (configureDrb c.bearers drbId cfg)
        (addBearer true (c.side true) drbId cfg).1 (addBearer false (c.side false) drbId cfg).1
        = (c.configure drbId cfg).system := by
      rw [addBearer_side hkeeps (hvalid.session drbId),
        addBearer_side hkeeps (hvalid.session drbId)]
      rfl
    exact ⟨c.configure drbId cfg, ⟨none, none, _⟩, congrArg (fun sys => Except.ok (sys, _)) hsystem,
      hvalid.configure hkeeps, hnil⟩
  | release drbId =>
    have hsystem : System.mk (Function.update c.bearers drbId none)
        (releaseDrb (c.side true) drbId) (releaseDrb (c.side false) drbId)
        = (c.release drbId).system := by
      rw [releaseDrb_side, releaseDrb_side]
      rfl
    exact ⟨c.release drbId, ⟨none, none, []⟩, congrArg (fun sys => Except.ok (sys, _)) hsystem,
      hvalid.release drbId, rfl⟩
  | data dir p qfi rqi sdu =>
    obtain ⟨o, ho, hok⟩ :=
      transfer_consistent hvalid hallowed.1 hallowed.2.1 hallowed.2.2 rqi hfits
    exact ⟨c, o, ho, hvalid, hok⟩

theorem reachable_system {s : System}
    (h : Reachable step (fun s i => i.Allowed s ∧ i.Fits s) System.start s) :
    ∃ c : Config, c.Valid ∧ s = c.system := by
  refine Reachable.invariant (fun s => ∃ c : Config, c.Valid ∧ s = c.system) ?_ ?_ h
  · exact ⟨⟨fun _ => none, fun _ => none⟩,
      ⟨(fun _ _ hs => (by cases hs)), (fun _ _ hb => (by cases hb))⟩, rfl⟩
  · grind [step_system, Prod.mk.inj, Except.ok.inj]

/-- **SDAP headers are added and taken off consistently** in every history whose flows fit their
DRBs and whose reconfigurations send no control PDU: every step returns, a PDU has the header of its
DRB, the peer hands up the SDU, and no control PDU is handed up. -/
theorem sdap_consistent {s : System} {i : Input}
    (h : Reachable step (fun s i => i.Allowed s ∧ i.Fits s) System.start s)
    (hallowed : i.Allowed s) (hfits : i.Fits s) :
    ∃ s' o, step s i = .ok (s', o) ∧ StepOk s o i := by
  obtain ⟨c, hvalid, rfl⟩ := reachable_system h
  grind [step_system]

/-- A session with one flow on a DRB with both headers. -/
def sampleConfig : RrcSdapConfig := ⟨1, true, true, false, [5], []⟩

/-- An SDU of flow 5 in uplink. -/
theorem sdap_consistent_sample :
    ∃ s s' o, step System.start (.configure 2 sampleConfig) = .ok s ∧
      step s.1 (.data .uplink 1 5 false [69, 0]) = .ok (s', o) ∧
      StepOk s.1 o (.data .uplink 1 5 false [69, 0]) := by
  obtain ⟨s', o, hstep⟩ := @sdap_consistent _ (.data .uplink 1 5 false [69, 0])
    (Reachable.start.step (i := .configure 2 sampleConfig)
      ⟨⟨Or.inl rfl, by decide⟩, fun _ hpdu => (by cases hpdu)⟩ rfl) (by decide) (by
      intro e b he hb
      obtain rfl := Option.some.inj he
      exact ⟨Or.inl (by decide), fun hdir => (by cases hdir)⟩)
  exact ⟨_, s', o, rfl, hstep⟩

/-- DRB 1, the default, has no header, and DRB 2 has, until its flow is released. -/
def releasedFlow : List Input :=
  [.configure 1 ⟨1, false, false, true, [9], []⟩, .configure 2 ⟨1, true, true, false, [5], []⟩,
    .configure 2 ⟨1, true, true, false, [], [5]⟩]

/-- **A released flow keeps its header.**  Flow 5 falls back to the default DRB, which has none, and
the gNB hands up the header with the SDU. -/
theorem not_sdap_consistent :
    ¬ ∀ (s : System) (i : Input), Reachable step (fun s i => i.Allowed s) System.start s →
      i.Allowed s → ∃ s' o, step s i = .ok (s', o) ∧ StepOk s o i := by
  intro hall
  obtain ⟨s, hs, hobserved⟩ := exists_reachable step (fun s i => Input.Allowed s i) System.start
    releasedFlow
    (fun s => (step s (.data .uplink 1 5 false [69])).toOption.map fun r =>
      (r.2.submitted, r.2.handedUp))
    (b := some (some (1, [133, 69]), some [133, 69])) (by decide +kernel)
  obtain ⟨s', o, hstep, hok, -⟩ := hall s (.data .uplink 1 5 false [69]) hs
    ⟨by decide, by decide, by decide⟩
  rw [hstep] at hobserved
  obtain ⟨hsubmitted, hhanded⟩ := Prod.mk.inj (Option.some.inj hobserved)
  obtain ⟨b, -, -, -, hup⟩ := hok 1 [133, 69] hsubmitted
  exact absurd (hhanded.symm.trans hup) (by decide)

end OaiGnb.Sdap
