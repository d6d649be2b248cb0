import Mathlib.Data.List.AList
import OaiGnb.Gtpu.Receive
import OaiGnb.Lib.PairedMaps

/-!
# The maps of GTP-U tunnels

A tunnel is kept twice: by instance, UE and bearer for sending, and by its incoming TEID, over all
instances, for receiving.

* `Consistent` : bearers and TEIDs are in bijection, and the TEID's entry names the UE, the bearer
  and the outgoing TEID of its bearer.
* `Local` : a call touches the bearers it names and their TEIDs only.
* `tunnels_consistent` : both hold in every run in which no tunnel is created for a bearer that has
  one, a UE is renamed only with bearers 0 to n - 1 and to a UE without bearers, and an update keeps
  the outgoing TEID.
-/

namespace OaiGnb.Gtpu

open Run PairedMaps

/-- `gtpv1u_bearer_t`. -/
structure Bearer where
  sockFd : ℕ
  ip : ℕ
  teidIncoming : ℕ
  teidOutgoing : ℕ
  outgoingQfi : ℤ
deriving DecidableEq

/-- `teidData_t`: the bearers of a UE. -/
abbrev Bearers := AList fun _ : ℕ => Bearer

/-- `gtpEndPoints`: the map of UEs of each instance, and the tunnels by incoming TEID. -/
structure Maps where
  legacyInstance : ℕ
  instances : ℕ → Option (ℕ → Option Bearers)
  te2ueMapping : ℕ → Option Tunnel

def Maps.compatInst (s : Maps) (inst : ℕ) : ℕ :=
  if inst = 0 ∨ inst = 65534 then s.legacyInstance else inst

/-- The entry of a UE in the map of an instance. -/
def Maps.setUe (s : Maps) (inst : ℕ) (ues : ℕ → Option Bearers) (ueId : ℕ)
    (entry : Option Bearers) : Maps :=
  { s with instances := Function.update s.instances inst (some (Function.update ues ueId entry)) }

def Maps.setTeid (s : Maps) (teid : ℕ) (entry : Option Tunnel) : Maps :=
  { s with te2ueMapping := Function.update s.te2ueMapping teid entry }

/-! ### The operations -/

/-- A request for a tunnel; the address has a length in bits. -/
structure TunnelReq where
  ueId : ℕ
  incomingBearerId : ℕ
  outgoingBearerId : ℕ
  outgoingTeid : ℕ
  outgoingQfi : ℤ
  addrLength : ℕ
  ip : ℕ
  callBack : Bool
  callBackSdap : Bool

def TunnelReq.tunnel (req : TunnelReq) : Tunnel :=
  ⟨req.ueId, req.incomingBearerId, req.callBack, req.outgoingTeid, req.callBackSdap,
    req.outgoingBearerId % 256⟩

def TunnelReq.bearer (req : TunnelReq) (inst teid : ℕ) : Bearer :=
  ⟨inst, req.ip, teid, req.outgoingTeid, req.outgoingQfi⟩

/-- The bearers of the UE that a new one is added to: none if the bearer has a tunnel already. -/
def keptBearers (entry : Option Bearers) (bearerId : ℕ) : Bearers :=
  match entry with
  | some bearers => if (bearers.lookup bearerId).isSome then ∅ else bearers
  | none => ∅

/-- `newGtpuCreateTunnel`, with the TEIDs that are drawn until one is free.  An address that is not
IPv4 ends the program. -/
def newGtpuCreateTunnel (s : Maps) (inst : ℕ) (req : TunnelReq) (draws : List ℕ) : Option Maps :=
  let inst := s.compatInst inst
  match s.instances inst with
  | none => some s
  | some ues => do
      let teid ← draws.find? fun teid => (s.te2ueMapping teid).isNone
      if req.addrLength / 8 ≠ 4 then none
      else some ((s.setTeid teid (some req.tunnel)).setUe inst ues req.ueId
        (some ((keptBearers (ues req.ueId) req.outgoingBearerId).insert req.outgoingBearerId
          (req.bearer inst teid))))

/-- `GtpuUpdateTunnelOutgoingAddressAndTeid`. -/
def gtpuUpdateTunnelOutgoingAddressAndTeid (s : Maps) (inst ueId bearerId newAddr newTeid : ℕ) :
    Maps :=
  let inst := s.compatInst inst
  match s.instances inst with
  | none => s
  | some ues =>
      match ues ueId with
      | none => s
      | some bearers =>
          match bearers.lookup bearerId with
          | none => s
          | some b => s.setUe inst ues ueId
              (some (bearers.insert bearerId { b with ip := newAddr, teidOutgoing := newTeid }))

/-- What `operator[]` inserts. -/
def Bearer.zero : Bearer := ⟨0, 0, 0, 0, 0⟩

def Tunnel.zero : Tunnel := ⟨0, 0, false, 0, false, 0⟩

def Tunnel.renameUe (t : Tunnel) (old new : ℕ) : Tunnel :=
  if t.ueId = old then { t with ueId := new } else t

/-- The loop over the bearer numbers below the number of bearers, which grows with each number that
is not there.  It ends after the largest number. -/
def updateLoop (old new : ℕ) : ℕ → ℕ → Bearers → (ℕ → Option Tunnel) →
    Option (Bearers × (ℕ → Option Tunnel))
  | 0, _, _, _ => none
  | fuel + 1, i, bearers, te2ue =>
      if i < bearers.entries.length then
        let bearers := if (bearers.lookup i).isSome then bearers else bearers.insert i Bearer.zero
        let teid := ((bearers.lookup i).getD Bearer.zero).teidIncoming
        let t := (te2ue teid).getD Tunnel.zero
        updateLoop old new fuel (i + 1) bearers
          (Function.update te2ue teid (some (t.renameUe old new)))
      else some (bearers, te2ue)

/-- The map of UEs of an instance, as `operator[]` finds it. -/
def Maps.uesOf (s : Maps) (inst : ℕ) : ℕ → Option Bearers :=
  (s.instances inst).getD fun _ => none

/-- An instance that is not there is made. -/
def Maps.makeInstance (s : Maps) (inst : ℕ) : Maps :=
  { s with instances := Function.update s.instances inst (some (s.uesOf inst)) }

/-- `gtpv1u_update_ue_id`. -/
def gtpv1uUpdateUeId (s : Maps) (inst old new : ℕ) : Option Maps :=
  let inst := s.compatInst inst
  let ues := s.uesOf inst
  match ues old with
  | none => some (s.makeInstance inst)
  | some bearers => do
      let (bearers, te2ue) ←
        updateLoop old new (bearers.keys.max?.getD 0 + 2) 0 bearers s.te2ueMapping
      let s := { s with te2ueMapping := te2ue }.setUe inst ues new (some bearers)
      return s.setUe inst (Function.update ues new (some bearers)) old none

def newGtpuDeleteOneTunnel (s : Maps) (inst ueId rbId : ℕ) : Maps :=
  let inst := s.compatInst inst
  match s.instances inst with
  | none => s
  | some ues =>
      match ues ueId with
      | none => s
      | some bearers =>
          match bearers.lookup rbId with
          | none => s
          | some b => (s.setTeid b.teidIncoming none).setUe inst ues ueId
              (some (bearers.erase rbId))

def newGtpuDeleteAllTunnels (s : Maps) (inst ueId : ℕ) : Maps :=
  let inst := s.compatInst inst
  match s.instances inst with
  | none => s
  | some ues =>
      match ues ueId with
      | none => s
      | some bearers =>
          (bearers.entries.foldl (fun s e => s.setTeid e.2.teidIncoming none) s).setUe inst ues ueId
            none

/-! ### Steps -/

inductive TunnelOp
  | create (inst : ℕ) (req : TunnelReq) (draws : List ℕ)
  | updateUeId (inst old new : ℕ)
  | updateOutgoing (inst ueId bearerId newAddr newTeid : ℕ)
  | deleteOne (inst ueId rbId : ℕ)
  | deleteAll (inst ueId : ℕ)

def Maps.apply (s : Maps) : TunnelOp → Option Maps
  | .create inst req draws => newGtpuCreateTunnel s inst req draws
  | .updateUeId inst old new => gtpv1uUpdateUeId s inst old new
  | .updateOutgoing inst ueId bearerId newAddr newTeid =>
      some (gtpuUpdateTunnelOutgoingAddressAndTeid s inst ueId bearerId newAddr newTeid)
  | .deleteOne inst ueId rbId => some (newGtpuDeleteOneTunnel s inst ueId rbId)
  | .deleteAll inst ueId => some (newGtpuDeleteAllTunnels s inst ueId)

/-- A call, if it returns. -/
def tunnelStep (s : Maps) (op : TunnelOp) : Except Unit (Maps × Unit) :=
  match s.apply op with
  | some s' => .ok (s', ())
  | none => .error ()

/-- The instances before any tunnel. -/
def Maps.start (legacyInstance : ℕ) (known : ℕ → Bool) : Maps :=
  ⟨legacyInstance, fun inst => if known inst then some fun _ => none else none, fun _ => none⟩

/-! ### Bearers by key -/

/-- What names a bearer. -/
structure Key where
  inst : ℕ
  ueId : ℕ
  bearerId : ℕ
deriving DecidableEq

def Maps.bearerAt (s : Maps) (k : Key) : Option Bearer :=
  (s.instances k.inst).bind fun ues => (ues k.ueId).bind fun bearers => bearers.lookup k.bearerId

/-- The bearers of a UE, if it has an entry. -/
def Maps.bearersOf (s : Maps) (inst ueId : ℕ) : Option Bearers :=
  (s.instances inst).bind fun ues => ues ueId

/-- The TEID's entry is that of the bearer. -/
def Matches (t : Tunnel) (k : Key) (b : Bearer) : Prop :=
  t.ueId = k.ueId ∧ t.pdusessionId = k.bearerId ∧ t.outgoingTeid = b.teidOutgoing

/-- Bearers and TEIDs are in bijection, and the entry of a TEID is that of its bearer. -/
def Consistent (s : Maps) : Prop :=
  Paired Bearer.teidIncoming Matches s.bearerAt s.te2ueMapping

/-- The bearers that a call names. -/
def TunnelOp.Names (s : Maps) (k : Key) : TunnelOp → Prop
  | .create inst req _ => k = ⟨s.compatInst inst, req.ueId, req.outgoingBearerId⟩
  | .updateUeId inst old new => k.inst = s.compatInst inst ∧ (k.ueId = old ∨ k.ueId = new)
  | .updateOutgoing inst ueId bearerId _ _ => k = ⟨s.compatInst inst, ueId, bearerId⟩
  | .deleteOne inst ueId rbId => k = ⟨s.compatInst inst, ueId, rbId⟩
  | .deleteAll inst ueId => k.inst = s.compatInst inst ∧ k.ueId = ueId

/-- A call changes only the bearers it names, and the entries of their TEIDs before or after. -/
def Local (s s' : Maps) (op : TunnelOp) : Prop :=
  (∀ k, ¬ op.Names s k → s'.bearerAt k = s.bearerAt k) ∧
  ∀ teid, s'.te2ueMapping teid ≠ s.te2ueMapping teid → ∃ k b, op.Names s k ∧
    (s.bearerAt k = some b ∨ s'.bearerAt k = some b) ∧ b.teidIncoming = teid

/-- A bearer number is an `ebi_t`. -/
def TunnelOp.Allowed : TunnelOp → Prop
  | .create _ req _ => req.outgoingBearerId < 256
  | _ => True

instance (op : TunnelOp) : Decidable op.Allowed := by
  cases op <;> unfold TunnelOp.Allowed <;> infer_instance

/-- No second tunnel for a bearer, a UE is renamed with bearers 0 to n - 1 and to a UE that has
none, and an update keeps the outgoing TEID. -/
def TunnelOp.Fits (s : Maps) : TunnelOp → Prop
  | .create inst req _ => s.bearerAt ⟨s.compatInst inst, req.ueId, req.outgoingBearerId⟩ = none
  | .updateUeId inst old new => ∀ bearers ∈ s.bearersOf (s.compatInst inst) old,
      (∀ i < bearers.entries.length, (bearers.lookup i).isSome) ∧
        (s.bearersOf (s.compatInst inst) new).getD ∅ = ∅
  | .updateOutgoing inst ueId bearerId _ newTeid =>
      ∀ b ∈ s.bearerAt ⟨s.compatInst inst, ueId, bearerId⟩, newTeid = b.teidOutgoing
  | .deleteOne .. => True
  | .deleteAll .. => True

instance (s : Maps) (op : TunnelOp) : Decidable (op.Fits s) := by
  cases op <;> unfold TunnelOp.Fits <;> infer_instance

/-! ### Changes by key -/

variable {s s' : Maps} {inst ueId : ℕ} {ues : ℕ → Option Bearers} {bearers : Bearers}
  {op : TunnelOp}

theorem Maps.bearerAt_setUe
    (hinst : s.instances inst = some ues) (ueId : ℕ) (entry : Option Bearers) (k : Key) :
    (s.setUe inst ues ueId entry).bearerAt k =
      if k.inst = inst ∧ k.ueId = ueId then entry.bind (·.lookup k.bearerId)
      else s.bearerAt k := by
  by_cases hk : k.inst = inst
  · have hset : (s.setUe inst ues ueId entry).instances k.inst
        = some (Function.update ues ueId entry) := by
      rw [hk]
      exact Function.update_self ..
    grind [Maps.bearerAt]
  · have hset : (s.setUe inst ues ueId entry).instances k.inst = s.instances k.inst :=
      Function.update_of_ne hk ..
    rw [if_neg fun h => hk h.1, Maps.bearerAt, hset, Maps.bearerAt]

theorem Maps.bearerAt_of
    (hinst : s.instances inst = some ues) (hue : ues ueId = some bearers) (bearerId : ℕ) :
    s.bearerAt ⟨inst, ueId, bearerId⟩ = bearers.lookup bearerId := by
  rw [Maps.bearerAt, hinst, Option.bind_some, hue, Option.bind_some]

theorem Maps.bearerAt_insert (hinst : s.instances inst = some ues)
    (hue : ∀ k, s.bearerAt ⟨inst, ueId, k⟩ = bearers.lookup k) (bearerId : ℕ) (b : Bearer) :
    (s.setUe inst ues ueId (some (bearers.insert bearerId b))).bearerAt
      = Function.update s.bearerAt ⟨inst, ueId, bearerId⟩ (some b) := by
  funext k
  obtain ⟨ki, ku, kb⟩ := k
  rw [Maps.bearerAt_setUe hinst]
  by_cases hk : ki = inst ∧ ku = ueId
  · obtain ⟨rfl, rfl⟩ := hk
    rw [if_pos ⟨rfl, rfl⟩, Option.bind_some]
    by_cases hb : kb = bearerId
    · rw [hb, AList.lookup_insert, Function.update_self]
    · simp_all
  · simp_all

theorem local_of_update {k : Key} {entry : Option Bearer}
    (hnames : op.Names s k) (hbearers : s'.bearerAt = Function.update s.bearerAt k entry)
    (hteids : ∀ teid, s'.te2ueMapping teid ≠ s.te2ueMapping teid →
      ∃ b, (s.bearerAt k = some b ∨ s'.bearerAt k = some b) ∧ b.teidIncoming = teid) :
    Local s s' op := by
  refine ⟨fun k' hk' => ?_, fun teid hteid => ?_⟩
  · rw [hbearers, Function.update_of_ne]
    grind
  · grind

theorem local_refl (s : Maps) (op : TunnelOp) : Local s s op :=
  ⟨fun _ _ => rfl, fun _ h => absurd rfl h⟩

/-! ### Creating and updating -/

theorem lookup_keptBearers {bearerId : ℕ}
    (hinst : s.instances inst = some ues) (hnew : s.bearerAt ⟨inst, ueId, bearerId⟩ = none)
    (k : ℕ) :
    s.bearerAt ⟨inst, ueId, k⟩ = (keptBearers (ues ueId) bearerId).lookup k := by
  cases hue : ues ueId with
  | none =>
    rw [Maps.bearerAt, hinst, Option.bind_some, hue]
    rfl
  | some bearers =>
    grind [Maps.bearerAt_of, keptBearers]

theorem newGtpuCreateTunnel_consistent {req : TunnelReq} {draws : List ℕ}
    (hcons : Consistent s) (hsmall : (TunnelOp.create inst req draws).Allowed)
    (hnew : (TunnelOp.create inst req draws).Fits s)
    (hs : newGtpuCreateTunnel s inst req draws = some s') :
    Consistent s' ∧ Local s s' (.create inst req draws) := by
  rw [newGtpuCreateTunnel] at hs
  cases hinst : s.instances (s.compatInst inst) with
  | none =>
    grind [Option.some.inj, local_refl]
  | some ues =>
    rw [hinst] at hs
    obtain ⟨teid, hteid, hs⟩ := Option.bind_eq_some_iff.mp hs
    by_cases haddr : req.addrLength / 8 ≠ 4
    · simp_all
    · rw [if_neg haddr] at hs
      obtain rfl := Option.some.inj hs
      have hnone : (s.te2ueMapping teid).isNone = true := by
        simpa using List.find?_some hteid
      have hfree : s.te2ueMapping teid = none := Option.isNone_iff_eq_none.mp hnone
      have hbearers := Maps.bearerAt_insert (s := s.setTeid teid (some req.tunnel)) hinst
        (lookup_keptBearers hinst hnew) req.outgoingBearerId (req.bearer (s.compatInst inst) teid)
      have hmatch : Matches req.tunnel ⟨s.compatInst inst, req.ueId, req.outgoingBearerId⟩
          (req.bearer (s.compatInst inst) teid) := ⟨rfl, Nat.mod_eq_of_lt hsmall, rfl⟩
      refine ⟨?_, local_of_update rfl hbearers fun teid' hteid' => ?_⟩
      · rw [Consistent, hbearers]
        exact hcons.add hnew hfree hmatch
      · refine ⟨req.bearer (s.compatInst inst) teid, Or.inr ?_, ?_⟩
        · rw [hbearers, Function.update_self]
        · by_contra hne
          exact hteid' (Function.update_of_ne (Ne.symm hne) ..)

theorem gtpuUpdateTunnelOutgoing_consistent {bearerId newAddr newTeid : ℕ} (hcons : Consistent s)
    (hfits : (TunnelOp.updateOutgoing inst ueId bearerId newAddr newTeid).Fits s) :
    let s' := gtpuUpdateTunnelOutgoingAddressAndTeid s inst ueId bearerId newAddr newTeid
    Consistent s' ∧ Local s s' (.updateOutgoing inst ueId bearerId newAddr newTeid) := by
  have hsame : Consistent s ∧ Local s s (.updateOutgoing inst ueId bearerId newAddr newTeid) :=
    ⟨hcons, local_refl s _⟩
  show Consistent (gtpuUpdateTunnelOutgoingAddressAndTeid ..) ∧
    Local s (gtpuUpdateTunnelOutgoingAddressAndTeid ..) _
  rw [gtpuUpdateTunnelOutgoingAddressAndTeid]
  cases hinst : s.instances (s.compatInst inst) with
  | none => exact hsame
  | some ues =>
    cases hue : ues ueId with
    | none => simpa only [hue] using hsame
    | some bearers =>
      cases hb : bearers.lookup bearerId with
      | none => simpa only [hue, hb] using hsame
      | some b =>
        have hkey := (Maps.bearerAt_of hinst hue bearerId).trans hb
        have hteid : newTeid = b.teidOutgoing := hfits b hkey
        have hbearers := Maps.bearerAt_insert hinst (Maps.bearerAt_of hinst hue) bearerId
          { b with ip := newAddr, teidOutgoing := newTeid }
        simp only [hue, hb]
        refine ⟨?_, local_of_update rfl hbearers fun _ h => absurd rfl h⟩
        rw [Consistent, hbearers]
        refine hcons.replace hkey rfl fun t => ?_
        rw [Matches, Matches, hteid]

/-! ### Deleting -/

theorem newGtpuDeleteOneTunnel_consistent {rbId : ℕ} (hcons : Consistent s) :
    Consistent (newGtpuDeleteOneTunnel s inst ueId rbId) ∧
      Local s (newGtpuDeleteOneTunnel s inst ueId rbId) (.deleteOne inst ueId rbId) := by
  have hsame : Consistent s ∧ Local s s (.deleteOne inst ueId rbId) := ⟨hcons, local_refl s _⟩
  rw [newGtpuDeleteOneTunnel]
  cases hinst : s.instances (s.compatInst inst) with
  | none => exact hsame
  | some ues =>
    cases hue : ues ueId with
    | none => simpa only [hue] using hsame
    | some bearers =>
      cases hb : bearers.lookup rbId with
      | none => simpa only [hue, hb] using hsame
      | some b =>
        have hkey := (Maps.bearerAt_of hinst hue rbId).trans hb
        simp only [hue, hb]
        have hbearers : ((s.setTeid b.teidIncoming none).setUe (s.compatInst inst) ues ueId
            (some (bearers.erase rbId))).bearerAt
              = Function.update s.bearerAt ⟨s.compatInst inst, ueId, rbId⟩ none := by
          funext k
          obtain ⟨ki, ku, kb⟩ := k
          rw [Maps.bearerAt_setUe (s := s.setTeid b.teidIncoming none) hinst]
          by_cases hk : ki = s.compatInst inst ∧ ku = ueId
          · obtain ⟨rfl, rfl⟩ := hk
            rw [if_pos ⟨rfl, rfl⟩, Option.bind_some]
            grind [AList.lookup_erase, Function.update_self, AList.lookup_erase_ne,
              Function.update_of_ne, Key.mk.inj, Maps.bearerAt_of]
          · rw [if_neg hk, Function.update_of_ne]
            · rfl
            · simp_all
        refine ⟨?_, local_of_update rfl hbearers fun teid hteid => ⟨b, Or.inl hkey, ?_⟩⟩
        · rw [Consistent, hbearers]
          refine hcons.remove (fun k => k = ⟨s.compatInst inst, ueId, rbId⟩) ?_ ?_ ?_ ?_
          · simp
          · simp_all
          · rintro k b' rfl hb'
            obtain rfl : b = b' := Option.some.inj (hkey.symm.trans hb')
            exact Function.update_self ..
          · intro teid hteid
            exact Function.update_of_ne (Ne.symm (hteid _ b rfl hkey)) ..
        · by_contra hne
          exact hteid (Function.update_of_ne (Ne.symm hne) ..)

theorem foldl_setTeid (entries : List (Sigma fun _ : ℕ => Bearer)) (s : Maps) :
    entries.foldl (fun s e => s.setTeid e.2.teidIncoming none) s = { s with
      te2ueMapping := fun teid =>
        if teid ∈ entries.map (·.2.teidIncoming) then none else s.te2ueMapping teid } := by
  induction entries generalizing s with
  | nil => simp
  | cons e entries ih =>
    rw [List.foldl_cons, ih]
    refine congrArg (Maps.mk s.legacyInstance s.instances) (funext fun teid => ?_)
    have hcons : teid ∈ (e :: entries).map (·.2.teidIncoming) ↔
        teid = e.2.teidIncoming ∨ teid ∈ entries.map (·.2.teidIncoming) := List.mem_cons
    by_cases hmem : teid ∈ entries.map (·.2.teidIncoming)
    · rw [if_pos hmem, if_pos (hcons.mpr (Or.inr hmem))]
    · rw [if_neg hmem]
      by_cases heq : teid = e.2.teidIncoming
      · rw [if_pos (hcons.mpr (Or.inl heq)), heq]
        exact Function.update_self ..
      · rw [if_neg fun h => (hcons.mp h).elim heq hmem]
        exact Function.update_of_ne heq ..

theorem newGtpuDeleteAllTunnels_consistent (hcons : Consistent s) :
    Consistent (newGtpuDeleteAllTunnels s inst ueId) ∧
      Local s (newGtpuDeleteAllTunnels s inst ueId) (.deleteAll inst ueId) := by
  have hsame : Consistent s ∧ Local s s (.deleteAll inst ueId) := ⟨hcons, local_refl s _⟩
  rw [newGtpuDeleteAllTunnels]
  cases hinst : s.instances (s.compatInst inst) with
  | none => exact hsame
  | some ues =>
    cases hue : ues ueId with
    | none => simpa only [hue] using hsame
    | some bearers =>
      simp only [hue, foldl_setTeid]
      -- the TEIDs that go are those of the bearers of the UE
      have hmem : ∀ teid, teid ∈ bearers.entries.map (·.2.teidIncoming) ↔
          ∃ j b, s.bearerAt ⟨s.compatInst inst, ueId, j⟩ = some b ∧ b.teidIncoming = teid := by
        intro teid
        rw [List.mem_map]
        constructor
        · rintro ⟨⟨j, b⟩, he, hb⟩
          exact ⟨j, b, (Maps.bearerAt_of hinst hue j).trans (AList.mem_lookup_iff.mpr he), hb⟩
        · rintro ⟨j, b, hj, hb⟩
          rw [Maps.bearerAt_of hinst hue] at hj
          exact ⟨⟨j, b⟩, AList.mem_lookup_iff.mp hj, hb⟩
      have hset := fun te2ue => Maps.bearerAt_setUe (s := { s with te2ueMapping := te2ue })
        hinst ueId none
      refine ⟨hcons.remove (fun k => k.inst = s.compatInst inst ∧ k.ueId = ueId) ?_ ?_ ?_ ?_,
        ?_, ?_⟩
      · simp_all
      · intro k hk
        rw [hset, if_neg hk]
        rfl
      · rintro ⟨ki, ku, kb⟩ b ⟨rfl, rfl⟩ hb
        exact if_pos ((hmem _).mpr ⟨kb, b, hb, rfl⟩)
      · intro teid hteid
        refine if_neg fun h => ?_
        grind
      · intro k hk
        exact (hset _ k).trans (if_neg hk)
      · intro teid hteid
        have h : teid ∈ bearers.entries.map (·.2.teidIncoming) := by
          by_contra hnot
          exact hteid (if_neg hnot)
        obtain ⟨j, b, hj, hb⟩ := (hmem teid).mp h
        exact ⟨_, b, ⟨rfl, rfl⟩, Or.inl hj, hb⟩

/-! ### Renaming a UE -/

theorem updateLoop_step {old new fuel i : ℕ} {te2ue : ℕ → Option Tunnel}
    {b : Bearer} {t : Tunnel} (hi : i < bearers.entries.length) (hb : bearers.lookup i = some b)
    (ht : te2ue b.teidIncoming = some t) :
    updateLoop old new (fuel + 1) i bearers te2ue = updateLoop old new fuel (i + 1) bearers
      (Function.update te2ue b.teidIncoming (some (t.renameUe old new))) := by
  rw [updateLoop, if_pos hi]
  simp_all

theorem updateLoop_eq (old new : ℕ) (hall : ∀ i < bearers.entries.length, (bearers.lookup i).isSome)
    (hunique : ∀ j j' b b', bearers.lookup j = some b → bearers.lookup j' = some b' →
      b.teidIncoming = b'.teidIncoming → j = j') (fuel i : ℕ) (te2ue : ℕ → Option Tunnel)
    (hfuel : bearers.entries.length < fuel + i) (hi : i ≤ bearers.entries.length)
    (hentry : ∀ j b, i ≤ j → bearers.lookup j = some b → (te2ue b.teidIncoming).isSome) :
    ∃ te2ue', updateLoop old new fuel i bearers te2ue = some (bearers, te2ue') ∧
      (∀ teid, (∀ j b, i ≤ j → j < bearers.entries.length → bearers.lookup j = some b →
        b.teidIncoming ≠ teid) → te2ue' teid = te2ue teid) ∧
      ∀ j b, i ≤ j → j < bearers.entries.length → bearers.lookup j = some b →
        te2ue' b.teidIncoming = (te2ue b.teidIncoming).map (·.renameUe old new) := by
  induction fuel generalizing i te2ue with
  | zero => omega
  | succ fuel ih =>
    by_cases hi : i < bearers.entries.length
    · obtain ⟨b, hb⟩ := Option.isSome_iff_exists.mp (hall i hi)
      obtain ⟨t, ht⟩ := Option.isSome_iff_exists.mp (hentry i b le_rfl hb)
      rw [updateLoop_step hi hb ht]
      have hlater : ∀ j b', i + 1 ≤ j → bearers.lookup j = some b' →
          b'.teidIncoming ≠ b.teidIncoming := by
        intro j b' hj hb' heq
        have := hunique j i b' b hb' hb heq
        omega
      obtain ⟨te2ue', hloop, hout, hin⟩ := ih (i + 1)
        (Function.update te2ue b.teidIncoming (some (t.renameUe old new))) (by omega) hi (by grind)
      refine ⟨te2ue', hloop, fun teid hteid => ?_, fun j b' hij hj hb' => ?_⟩
      · grind
      · rcases Nat.eq_or_lt_of_le hij with rfl | hlt
        · obtain rfl : b = b' := Option.some.inj (hb.symm.trans hb')
          rw [hout b.teidIncoming fun j b' hj _ => hlater j b' hj, Function.update_self, ht,
            Option.map_some]
        · rw [hin j b' hlt hj hb', Function.update_of_ne (hlater j b' hlt hb')]
    · rw [updateLoop, if_neg hi]
      grind

theorem lookup_lt_length
    (hall : ∀ i < bearers.entries.length, (bearers.lookup i).isSome) {j : ℕ} {b : Bearer}
    (hj : bearers.lookup j = some b) : j < bearers.entries.length := by
  have hsub : List.range bearers.entries.length ⊆ bearers.keys := by
    intro i hi
    exact AList.lookup_isSome.mp (hall i (List.mem_range.mp hi))
  have hperm : (List.range bearers.entries.length).Perm bearers.keys := by
    refine (List.subperm_of_subset List.nodup_range hsub).perm_of_length_le ?_
    rw [List.length_range, AList.keys, List.keys, List.length_map]
  have hmem : j ∈ bearers.keys := AList.lookup_isSome.mp (by rw [hj]; rfl)
  exact List.mem_range.mp (hperm.mem_iff.mpr hmem)

theorem length_lt_fuel (hall : ∀ i < bearers.entries.length, (bearers.lookup i).isSome) :
    bearers.entries.length < bearers.keys.max?.getD 0 + 2 + 0 := by
  rcases Nat.eq_zero_or_pos bearers.entries.length with hzero | hpos
  · omega
  · have hmem : bearers.entries.length - 1 ∈ bearers.keys :=
      AList.lookup_isSome.mp (hall _ (by omega))
    have := List.le_max?_getD_of_mem hmem (k := 0)
    omega

theorem Maps.bearerAt_makeInstance (s : Maps) (inst : ℕ) :
    (s.makeInstance inst).bearerAt = s.bearerAt := by
  funext k
  rw [Maps.bearerAt, Maps.bearerAt]
  by_cases hk : k.inst = inst
  · have hmade : (s.makeInstance inst).instances inst = some (s.uesOf inst) :=
      Function.update_self ..
    rw [hk, hmade, Maps.uesOf]
    cases s.instances inst with
    | none => rfl
    | some ues => rfl
  · have hmade : (s.makeInstance inst).instances k.inst = s.instances k.inst :=
      Function.update_of_ne hk ..
    rw [hmade]

theorem Maps.bearerAt_rename
    (hinst : s.instances inst = some ues) (old new : ℕ) (bearers : Bearers) (k : Key) :
    ((s.setUe inst ues new (some bearers)).setUe inst (Function.update ues new (some bearers)) old
      none).bearerAt k =
      if k.inst = inst ∧ k.ueId = old then none
      else if k.inst = inst ∧ k.ueId = new then bearers.lookup k.bearerId
      else s.bearerAt k := by
  have hinst' : (s.setUe inst ues new (some bearers)).instances inst
      = some (Function.update ues new (some bearers)) := Function.update_self ..
  grind [Maps.bearerAt_setUe]

/-- A key with the UE renamed. -/
def Key.renameUe (k : Key) (inst old new : ℕ) : Key :=
  if k.inst = inst ∧ k.ueId = old then { k with ueId := new } else k

theorem gtpv1uUpdateUeId_consistent {old new : ℕ} (hcons : Consistent s)
    (hfits : (TunnelOp.updateUeId inst old new).Fits s)
    (hs : gtpv1uUpdateUeId s inst old new = some s') :
    Consistent s' ∧ Local s s' (.updateUeId inst old new) := by
  rw [gtpv1uUpdateUeId] at hs
  cases hue : s.uesOf (s.compatInst inst) old with
  | none =>
    simp only [hue] at hs
    obtain rfl := Option.some.inj hs
    refine ⟨?_, fun k _ => ?_, fun teid h => absurd rfl h⟩
    · rw [Consistent, Maps.bearerAt_makeInstance]
      exact hcons
    · rw [Maps.bearerAt_makeInstance]
  | some bearers =>
    simp only [hue] at hs
    obtain ⟨ues, hinst⟩ : ∃ ues, s.instances (s.compatInst inst) = some ues := by
      cases hinst : s.instances (s.compatInst inst) with
      | none => rw [Maps.uesOf, hinst] at hue; cases hue
      | some ues => exact ⟨ues, rfl⟩
    rw [Maps.uesOf, hinst, Option.getD_some] at hue hs
    have hold := Maps.bearerAt_of hinst hue
    have hbearersOf : s.bearersOf (s.compatInst inst) old = some bearers := by
      rw [Maps.bearersOf, hinst, Option.bind_some, hue]
    obtain ⟨hall, hempty⟩ := hfits bearers hbearersOf
    have hnew : ∀ j, s.bearerAt ⟨s.compatInst inst, new, j⟩ = none := by
      intro j
      rw [Maps.bearersOf, hinst, Option.bind_some] at hempty
      rw [Maps.bearerAt, hinst, Option.bind_some]
      cases hn : ues new with
      | none => rfl
      | some bearers' =>
        simp_all
    obtain ⟨te2ue', hloop, hout, hin⟩ := updateLoop_eq old new hall
      (fun j j' b b' hj hj' heq => (Key.mk.inj
        (hcons.unique _ _ b b' ((hold j).trans hj) ((hold j').trans hj') heq)).2.2)
      (bearers.keys.max?.getD 0 + 2) 0 s.te2ueMapping (length_lt_fuel hall) (Nat.zero_le _)
      (fun j b _ hj => by
        obtain ⟨t, ht, -⟩ := hcons.entry _ b ((hold j).trans hj)
        rw [ht]
        rfl)
    rw [hloop] at hs
    obtain rfl := Option.some.inj hs
    have hbearers := Maps.bearerAt_rename (s := { s with te2ueMapping := te2ue' }) hinst old new
      bearers
    -- an entry that changes belongs to a bearer of the UE
    have hown : ∀ teid, te2ue' teid ≠ s.te2ueMapping teid →
        ∃ j b, bearers.lookup j = some b ∧ b.teidIncoming = teid := by
      intro teid hne
      by_contra hnot
      exact hne (hout teid fun j b _ _ hj heq => hnot ⟨j, b, hj, heq⟩)
    have hnotnew : ∀ k b, s.bearerAt k = some b →
        ¬ (k.inst = s.compatInst inst ∧ k.ueId = new) := by
      rintro ⟨ki, ku, kb⟩ b hk ⟨rfl, rfl⟩
      rw [hnew kb] at hk
      cases hk
    refine ⟨hcons.rename (fun k => k.renameUe (s.compatInst inst) old new) ?_ ?_ ?_ ?_, ?_, ?_⟩
    · intro k b hk
      simp only [Key.renameUe]
      by_cases hkold : k.inst = s.compatInst inst ∧ k.ueId = old
      · obtain ⟨ki, ku, kb⟩ := k
        grind
      · rw [if_neg hkold, hbearers, if_neg hkold, if_neg (hnotnew k b hk)]
        exact hk
    · intro k' b hk'
      rw [hbearers] at hk'
      by_cases hkold : k'.inst = s.compatInst inst ∧ k'.ueId = old
      · rw [if_pos hkold] at hk'
        cases hk'
      · rw [if_neg hkold] at hk'
        by_cases hknew : k'.inst = s.compatInst inst ∧ k'.ueId = new
        · rw [if_pos hknew] at hk'
          obtain ⟨ki, ku, kb⟩ := k'
          obtain ⟨rfl, rfl⟩ := hknew
          exact ⟨⟨_, old, kb⟩, if_pos ⟨rfl, rfl⟩, (hold kb).trans hk'⟩
        · rw [if_neg hknew] at hk'
          exact ⟨k', if_neg hkold, hk'⟩
    · intro k b t hk ht
      obtain ⟨t', ht', hmatch⟩ := hcons.entry k b hk
      obtain rfl : t = t' := Option.some.inj (ht.symm.trans ht')
      by_cases hkold : k.inst = s.compatInst inst ∧ k.ueId = old
      · have hj : bearers.lookup k.bearerId = some b := by
          rw [← hold, ← hkold.1, ← hkold.2]
          exact hk
        have htold : t.ueId = old := hmatch.1.trans hkold.2
        refine ⟨{ t with ueId := new }, ?_, ?_⟩
        · refine (hin k.bearerId b (Nat.zero_le _) (lookup_lt_length hall hj) hj).trans ?_
          rw [ht, Option.map_some, Tunnel.renameUe, if_pos htold]
        · rw [Key.renameUe, if_pos hkold]
          exact ⟨rfl, hmatch.2⟩
      · refine ⟨t, ?_, ?_⟩
        · refine (hout b.teidIncoming fun j b' _ _ hj heq => hkold ?_).trans ht
          rw [← hcons.unique _ k b' b ((hold j).trans hj) hk heq]
          exact ⟨rfl, rfl⟩
        · rw [Key.renameUe, if_neg hkold]
          exact hmatch
    · intro teid hnone
      by_contra hsome
      obtain ⟨j, b, hj, rfl⟩ := hown teid fun heq => hsome (heq.trans hnone)
      obtain ⟨t, ht, -⟩ := hcons.entry _ b ((hold j).trans hj)
      rw [hnone] at ht
      cases ht
    · intro k hk
      rw [hbearers, if_neg fun h => hk ⟨h.1, Or.inl h.2⟩, if_neg fun h => hk ⟨h.1, Or.inr h.2⟩]
      rfl
    · intro teid hteid
      obtain ⟨j, b, hj, hb⟩ := hown teid hteid
      exact ⟨_, b, ⟨rfl, Or.inl rfl⟩, Or.inl ((hold j).trans hj), hb⟩

/-! ### Runs -/

theorem Maps.apply_consistent (hcons : Consistent s)
    (hallowed : op.Allowed) (hfits : op.Fits s) (hs : s.apply op = some s') :
    Consistent s' ∧ Local s s' op := by
  cases op with
  | create inst req draws => exact newGtpuCreateTunnel_consistent hcons hallowed hfits hs
  | updateUeId inst old new => exact gtpv1uUpdateUeId_consistent hcons hfits hs
  | updateOutgoing inst ueId bearerId newAddr newTeid =>
    obtain rfl := Option.some.inj hs
    exact gtpuUpdateTunnelOutgoing_consistent hcons hfits
  | deleteOne inst ueId rbId =>
    obtain rfl := Option.some.inj hs
    exact newGtpuDeleteOneTunnel_consistent hcons
  | deleteAll inst ueId =>
    obtain rfl := Option.some.inj hs
    exact newGtpuDeleteAllTunnels_consistent hcons

theorem consistent_start (legacyInstance : ℕ) (known : ℕ → Bool) :
    Consistent (Maps.start legacyInstance known) := by
  refine Paired.empty (fun k => ?_) fun _ => rfl
  grind [Maps.bearerAt, Maps.start]

theorem tunnelStep_apply {o : Unit}
    (hs : tunnelStep s op = .ok (s', o)) : s.apply op = some s' := by
  grind [tunnelStep, Prod.mk.inj, Except.ok.inj]

/-- **The maps of tunnels stay consistent.**  In every run in which no bearer gets a second tunnel,
a UE is renamed only with bearers 0 to n - 1 and to a UE without bearers, and an update keeps the
outgoing TEID, bearers and TEIDs are in bijection, and each call changes only the entries of the
bearers it names. -/
theorem tunnels_consistent (legacyInstance : ℕ) (known : ℕ → Bool) {s : Maps}
    (h : Reachable tunnelStep (fun s op => op.Allowed ∧ op.Fits s)
      (Maps.start legacyInstance known) s) :
    Consistent s ∧ ∀ op s' o, op.Allowed → op.Fits s → tunnelStep s op = .ok (s', o) →
      Local s s' op := by
  have hcons : Consistent s := by
    refine h.invariant Consistent (consistent_start legacyInstance known) ?_
    intro s op s' o hcons hop hs
    exact (Maps.apply_consistent hcons hop.1 hop.2 (tunnelStep_apply hs)).1
  refine ⟨hcons, fun op s' o hallowed hfits hs => ?_⟩
  exact (Maps.apply_consistent hcons hallowed hfits (tunnelStep_apply hs)).2

def sampleReq : TunnelReq := ⟨7, 5, 5, 100, 9, 32, 3232235777, true, false⟩

/-- A tunnel of bearer 5 of UE 7, and one more of bearer 6. -/
theorem tunnels_consistent_sample :
    ∃ s s', tunnelStep (Maps.start 1 (· == 1)) (.create 0 sampleReq [33]) = .ok s ∧
      tunnelStep s.1 (.create 0 { sampleReq with outgoingBearerId := 6 } [33, 34]) = .ok s' ∧
      Consistent s.1 ∧
      Local s.1 s'.1 (.create 0 { sampleReq with outgoingBearerId := 6 } [33, 34]) := by
  have h := tunnels_consistent 1 (· == 1) (Reachable.start.step
    (i := .create 0 sampleReq [33]) (by decide) rfl)
  exact ⟨_, _, rfl, rfl, h.1, h.2 _ _ _ (by decide) (by decide) rfl⟩

/-- **An update of the outgoing TEID does not reach the entry of the tunnel.** -/
theorem not_tunnels_consistent :
    ¬ ∀ (legacyInstance : ℕ) (known : ℕ → Bool) (s : Maps),
      Reachable tunnelStep (fun _ op => op.Allowed) (Maps.start legacyInstance known) s →
        Consistent s ∧ ∀ op s' o, op.Allowed → tunnelStep s op = .ok (s', o) → Local s s' op := by
  intro hall
  obtain ⟨s, hs, hobserved⟩ := exists_reachable tunnelStep (fun _ op => op.Allowed)
    (Maps.start 1 (· == 1)) [.create 0 sampleReq [33], .updateOutgoing 0 7 5 3232235778 200]
    (fun s => ((s.bearerAt ⟨1, 7, 5⟩).map fun b => (b.teidIncoming, b.teidOutgoing),
      (s.te2ueMapping 33).map (·.outgoingTeid)))
    (b := (some (33, 200), some 100)) (by decide +kernel)
  obtain ⟨hbearer, hteid⟩ := Prod.mk.inj hobserved
  obtain ⟨b, hb, hbtag⟩ := Option.map_eq_some_iff.mp hbearer
  obtain ⟨t, ht, -, -, hout⟩ := (hall 1 (· == 1) s hs).1.entry _ b hb
  simp_all

end OaiGnb.Gtpu
