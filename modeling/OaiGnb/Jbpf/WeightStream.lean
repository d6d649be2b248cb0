import Mathlib.Data.List.Nodup
import OaiGnb.Jbpf.QosWeight
import OaiGnb.Lib.Run

/-!
# From demand packets to scheduling weights

A codelet in PDCP turns the demand packets of a UE, known by its CU-UE-ID, into weight messages; the
host takes them from a ring buffer, looks the CU-UE-ID up in the F1 table and sets the weight for the
RNTI it finds.  UEs come, go and re-establish, the next one may get the RNTI of the last, and its
entry of the F1 table may still be that of the last.

* `weight_asked_for` : with no CLEAR_ALL on its way, a connected UE has no policy or a weight it
  asked for since the last RESET, where the 16 bits of a message find its sender, a RESET gets
  through, and an RNTI is given out only when nothing is left for it.
-/

namespace OaiGnb.Jbpf

open Run

/-! ### The codelet -/

/-- `demand6_t` in host order. -/
structure Demand6 where
  appType : ℕ
  srcPort : ℕ
  payloadBytes : ℕ
  deadlineMs : ℕ

/-- `APP_TYPE_RESET`. -/
def appTypeReset : ℕ := 255

/-- The weight for an application: LLM, VLA, VIDEO and all others. -/
def policyWeight : ℕ → ℕ
  | 1 => 8 * 65536
  | 2 => 4 * 65536
  | 3 => 2 * 65536
  | _ => oneQ16

structure WeightUpdate where
  rnti : ℕ
  durationMs : ℕ
  weightQ16 : ℕ
deriving DecidableEq

/-- `QOS_WEIGHT_TTL_CLEAR_ALL`. -/
def ttlClearAll : ℕ := 0xFFFF

/-- The message of `push_weight`: the field has 16 bits. -/
def pushWeight (ueId weightQ16 : ℕ) : WeightUpdate := ⟨ueId % 2 ^ 16, 0, weightQ16⟩

/-- `intent_state`. -/
structure IntentState where
  lastReportNs : ℕ
  sumPayloadBytes : ℕ
  lastPushNs : ℕ
  ueId : ℕ
  intentCount : ℕ
  payloadBytesLast : ℕ
  lastWeightQ16 : ℕ
  srcPort : ℕ
  deadlineMs : ℕ
  appType : ℕ

structure IntentReport where
  timestampNs : ℕ
  sumPayloadBytes : ℕ
  ueId : ℕ
  intentCount : ℕ
  payloadBytesLast : ℕ
  srcPort : ℕ
  deadlineMs : ℕ
  appType : ℕ

/-- `intent_state_map`, of at most 16 entries. -/
abbrev IntentMap := List (ℕ × IntentState)

/-- `jbpf_map_update_elem`. -/
def updateElem (map : IntentMap) (ueId : ℕ) (st : IntentState) : IntentMap :=
  if (map.lookup ueId).isSome then map.map fun e => if e.1 = ueId then (ueId, st) else e
  else if map.length < 16 then map ++ [(ueId, st)]
  else map

/-- The state of a UE, which is made if there is room. -/
def lookupOrCreate (map : IntentMap) (ueId now : ℕ) : IntentMap × Option IntentState :=
  match map.lookup ueId with
  | some st => (map, some st)
  | none =>
      let map := updateElem map ueId ⟨now, 0, 0, ueId, 0, 0, 0, 0, 0, 0⟩
      (map, map.lookup ueId)

/-- A difference of times of 64 bits. -/
def elapsed (now past : ℕ) : ℕ := (now + 2 ^ 64 - past) % 2 ^ 64

/-- The statistics of a packet. -/
def IntentState.record (st : IntentState) (ueId : ℕ) (pkt : Demand6) : IntentState :=
  { st with
    intentCount := (st.intentCount + 1) % 2 ^ 32
    ueId := ueId
    appType := pkt.appType
    srcPort := pkt.srcPort
    payloadBytesLast := pkt.payloadBytes
    deadlineMs := pkt.deadlineMs
    sumPayloadBytes := (st.sumPayloadBytes + pkt.payloadBytes) % 2 ^ 64 }

/-- The report, which ends the window of five seconds. -/
def IntentState.report (st : IntentState) (now : ℕ) : IntentState × Option IntentReport :=
  if elapsed now st.lastReportNs < 5000000000 then (st, none)
  else
    ({ st with lastReportNs := now, intentCount := 0, sumPayloadBytes := 0 },
      some ⟨now, st.sumPayloadBytes, st.ueId, st.intentCount, st.payloadBytesLast, st.srcPort,
        st.deadlineMs, st.appType⟩)

/-- A weight is output when it changes and every two seconds. -/
def pushDue (st : IntentState) (weightQ16 now : ℕ) : Bool :=
  weightQ16 ≠ st.lastWeightQ16 || 2000000000 ≤ elapsed now st.lastPushNs

/-- An output that the ring buffer may refuse. -/
def ringbufOutput (ringOk : Bool) (wu : WeightUpdate) : Option WeightUpdate :=
  if ringOk then some wu else none

/-- What the codelet does with a demand packet: the message that reached the ring buffer, and the
report. -/
def jbpfMain (map : IntentMap) (ueId : ℕ) (pkt : Demand6) (now : ℕ) (ringOk : Bool) :
    IntentMap × Option WeightUpdate × Option IntentReport :=
  if pkt.appType = appTypeReset then
    ([], ringbufOutput ringOk ⟨0, ttlClearAll, oneQ16⟩, none)
  else
    let weightQ16 := policyWeight pkt.appType
    let created := lookupOrCreate map ueId now
    match created.2 with
    | none => (created.1, ringbufOutput ringOk (pushWeight ueId weightQ16), none)
    | some st =>
        let pushed := pushDue st weightQ16 now && ringOk
        let st := if pushed then { st with lastWeightQ16 := weightQ16, lastPushNs := now } else st
        let reported := (st.record ueId pkt).report now
        (updateElem created.1 ueId reported.1,
          ringbufOutput pushed (pushWeight ueId weightQ16), reported.2)

variable {ringOk : Bool} {pkt : Demand6} {asked : ℕ → List ℕ}

theorem ringbufOutput_some {wu wu' : WeightUpdate}
    (h : ringbufOutput ringOk wu = some wu') : ringOk = true ∧ wu' = wu := by
  unfold ringbufOutput at h
  simp_all

theorem jbpfMain_message {map : IntentMap} {ueId : ℕ} {now : ℕ}
    {wu : WeightUpdate} (h : (jbpfMain map ueId pkt now ringOk).2.1 = some wu) :
    wu = if pkt.appType = appTypeReset then ⟨0, ttlClearAll, oneQ16⟩
      else pushWeight ueId (policyWeight pkt.appType) := by
  unfold jbpfMain at h
  by_cases hreset : pkt.appType = appTypeReset
  · rw [if_pos hreset] at h ⊢
    exact (ringbufOutput_some h).2
  · grind [lookupOrCreate, ringbufOutput_some]

theorem jbpfMain_reset (map : IntentMap) (ueId : ℕ) (now : ℕ) (h : pkt.appType = appTypeReset) :
    (jbpfMain map ueId pkt now true).2.1 = some ⟨0, ttlClearAll, oneQ16⟩ := by
  unfold jbpfMain
  rw [if_pos h]
  rfl

/-! ### UEs, the ring buffer and the host -/

/-- A connected UE. -/
structure Ue where
  rnti : ℕ
  cuUeId : ℕ
deriving DecidableEq

/-- `du_add_f1_ue_data` where there is no entry yet: the CU-UE-ID of an RNTI. -/
def addF1UeData (f1 : List (ℕ × ℕ)) (rnti cuUeId : ℕ) : List (ℕ × ℕ) :=
  if (f1.lookup rnti).isSome then f1 else (rnti, cuUeId) :: f1

/-- A message, with the UE whose packet it is from. -/
structure Message where
  update : WeightUpdate
  sender : ℕ
deriving DecidableEq

def Message.isClear (m : Message) : Bool := m.update.durationMs == ttlClearAll

/-- Where the host is with a message: the RNTI was looked up under the scheduler's lock (0 is none),
the table is written after the lock is released. -/
inductive Host
  | idle
  | looked (m : Message) (live : List ℕ) (macRnti : ℕ)
  | retained (m : Message) (macRnti : ℕ)
deriving DecidableEq

/-- The message in the host's hands and its RNTI. -/
def Host.target : Host → Option (Message × ℕ)
  | .idle => none
  | .looked m _ macRnti => some (m, macRnti)
  | .retained m macRnti => some (m, macRnti)

/-- Beside the program's state, the CU-UE-IDs given out so far, and the weights of the packets that
each UE has sent since the codelet's last RESET. -/
structure System where
  intents : IntentMap
  ring : List Message
  host : Host
  table : List Slot
  connected : List Ue
  f1 : List (ℕ × ℕ)
  used : List ℕ
  asked : ℕ → List ℕ

def System.start : System :=
  ⟨[], [], .idle, List.replicate 16 ⟨0, 0, 0, false⟩, [], [], [], fun _ => []⟩

/-- The host's search among the connected UEs: `du_exists_f1_ue_data` and `du_get_f1_ue_data` for
the RNTI of each. -/
def findRnti (f1 : List (ℕ × ℕ)) (connected : List Ue) (cuUeId : ℕ) : ℕ :=
  connected.foldl (fun macRnti ue =>
    if macRnti = 0 ∧ f1.lookup ue.rnti = some cuUeId then ue.rnti else macRnti) 0

inductive Input
  | demand (ueId : ℕ) (pkt : Demand6) (now : ℕ) (ringOk : Bool)
  | attach (ue : Ue)
  | f1Setup (rnti : ℕ)
  | reestablish (oldRnti rnti : ℕ)
  | detach (rnti : ℕ) (removeF1 : Bool)
  | hostTake
  | hostRetain
  | hostApply (now : ℕ)

/-- The weights asked for after a packet. -/
def askedAfter (asked : ℕ → List ℕ) (ueId : ℕ) (pkt : Demand6) : ℕ → List ℕ :=
  if pkt.appType = appTypeReset then fun _ => []
  else fun u => if u = ueId then policyWeight pkt.appType :: asked u else asked u

def next (s : System) : Input → System
  | .demand ueId pkt now ringOk =>
      let r := jbpfMain s.intents ueId pkt now ringOk
      { s with
        intents := r.1
        ring := s.ring ++ (r.2.1.map fun wu => ⟨wu, ueId⟩).toList
        asked := askedAfter s.asked ueId pkt }
  | .attach ue => { s with connected := s.connected ++ [ue], used := ue.cuUeId :: s.used }
  | .f1Setup rnti =>
      -- `dl_rrc_message_transfer`: an entry that is there stays
      match s.connected.find? fun ue => ue.rnti = rnti with
      | none => s
      | some ue => { s with f1 := addF1UeData s.f1 rnti ue.cuUeId }
  | .reestablish oldRnti rnti =>
      -- the old context goes without its entry
      match s.connected.find? fun ue => ue.rnti = oldRnti with
      | none => s
      | some ue =>
          { s with
            connected := (s.connected.filter fun ue => ue.rnti ≠ oldRnti) ++ [⟨rnti, ue.cuUeId⟩]
            f1 := addF1UeData s.f1 rnti ue.cuUeId }
  | .detach rnti removeF1 =>
      -- `nr_mac_trigger_release_complete` removes the entry, a failed random access does not
      { s with
        connected := s.connected.filter fun ue => ue.rnti ≠ rnti
        f1 := if removeF1 then s.f1.filter fun p => p.1 ≠ rnti else s.f1 }
  | .hostTake =>
      match s.host, s.ring with
      | .idle, m :: rest =>
          if m.isClear then { s with ring := rest, table := qosWeightClearAll s.table }
          else { s with
            ring := rest
            host := .looked m ((s.connected.map Ue.rnti).take 16)
              (findRnti s.f1 s.connected m.update.rnti) }
      | _, _ => s
  | .hostRetain =>
      match s.host with
      | .looked m live macRnti =>
          { s with
            table := qosWeightRetain s.table live
            host := if macRnti = 0 then .idle else .retained m macRnti }
      | _ => s
  | .hostApply now =>
      match s.host with
      | .retained m macRnti =>
          { s with
            table := qosWeightApply s.table macRnti m.update.weightQ16 m.update.durationMs now
            host := .idle }
      | _ => s

def step (s : System) (i : Input) : Except Empty (System × Unit) := .ok (next s i, ())

/-- CU-UE-IDs are not used again, RNTIs are, and the gNB has at most 16 UEs. -/
def Input.Allowed (s : System) : Input → Prop
  | .demand ueId _ _ _ => ueId < 2 ^ 32
  | .attach ue => ue.rnti ≠ 0 ∧ ue.rnti < 2 ^ 16 ∧ ue.cuUeId < 2 ^ 32 ∧ ue.cuUeId ∉ s.used ∧
      ue.rnti ∉ s.connected.map Ue.rnti ∧ s.connected.length < 16
  | .reestablish _ rnti => rnti ≠ 0 ∧ rnti < 2 ^ 16 ∧ rnti ∉ s.connected.map Ue.rnti
  | _ => True

instance (s : System) (i : Input) : Decidable (i.Allowed s) := by
  cases i <;> unfold Input.Allowed <;> infer_instance

/-- A CLEAR_ALL is on its way. -/
def clears (ring : List Message) : Bool := ring.any Message.isClear

/-- There is neither an active weight nor a message in the host's hands for the RNTI. -/
def Fresh (s : System) (rnti : ℕ) : Prop :=
  (∀ slot ∈ s.table, slot.active = true → slot.rnti ≠ rnti) ∧
    ∀ m macRnti, s.host.target = some (m, macRnti) → macRnti ≠ rnti

/-- A RESET is output unless there is nothing to clear, a UE gets a fresh RNTI, and the UEs whose
entry of the F1 table has the 16 bits of a message are its sender. -/
def Input.Fits (s : System) : Input → Prop
  | .demand _ pkt _ ringOk => pkt.appType = appTypeReset → ringOk = true ∨
      s.ring = [] ∧ s.host = .idle ∧ ∀ slot ∈ s.table, slot.active = false
  | .attach ue => Fresh s ue.rnti
  | .reestablish _ rnti => Fresh s rnti
  | .hostTake => ∀ m, s.ring.head? = some m → ∀ ue ∈ s.connected,
      s.f1.lookup ue.rnti = some m.update.rnti → ue.cuUeId = m.sender
  | _ => True

/-! ### The invariant -/

/-- A message with no CLEAR_ALL behind it has a weight that its sender asked for. -/
def RingOk (asked : ℕ → List ℕ) : List Message → Prop
  | [] => True
  | m :: rest =>
      (m.isClear = false → clears rest = false → m.update.weightQ16 ∈ asked m.sender) ∧
        RingOk asked rest

/-- The weight was asked for by the UE that has the RNTI. -/
def AskedBy (connected : List Ue) (asked : ℕ → List ℕ) (rnti weight : ℕ) : Prop :=
  ∀ ue ∈ connected, ue.rnti = rnti → weight ∈ asked ue.cuUeId

structure System.Inv (s : System) : Prop where
  ring : RingOk s.asked s.ring
  table : clears s.ring = false → AllActive (AskedBy s.connected s.asked) s.table
  target : ∀ m macRnti, s.host.target = some (m, macRnti) → macRnti ≠ 0 →
    (∀ ue ∈ s.connected, ue.rnti = macRnti → ue.cuUeId = m.sender) ∧
      (clears s.ring = false → m.update.weightQ16 ∈ s.asked m.sender)
  distinct : (s.connected.map Ue.rnti).Nodup
  range : ∀ u, ∀ w ∈ s.asked u, clampWeight w = w
  known : ∀ m macRnti, s.host = .retained m macRnti → macRnti ≠ 0

theorem clears_append (ring ring' : List Message) :
    clears (ring ++ ring') = (clears ring || clears ring') := List.any_append

theorem RingOk.mono {asked' : ℕ → List ℕ} (hmono : ∀ u, ∀ w ∈ asked u, w ∈ asked' u) :
    ∀ {ring : List Message}, RingOk asked ring → RingOk asked' ring
  | [], _ => trivial
  | _ :: _, h => ⟨fun hclear hrest => hmono _ _ (h.1 hclear hrest), h.2.mono hmono⟩

theorem RingOk.append {m : Message} (hm : m.isClear = false → m.update.weightQ16 ∈ asked m.sender) :
    ∀ {ring : List Message}, RingOk asked ring → RingOk asked (ring ++ [m])
  | [], _ => ⟨fun hclear _ => hm hclear, trivial⟩
  | m' :: rest, h => by
    refine ⟨fun hclear hrest => h.1 hclear ?_, h.2.append hm⟩
    exact (Bool.or_eq_false_iff.mp ((clears_append rest [m]).symm.trans hrest)).1

theorem ringOk_clear {m : Message} (hm : m.isClear = true) :
    ∀ ring : List Message, RingOk asked (ring ++ [m])
  | [] => ⟨fun hclear => absurd (hm.symm.trans hclear) (by decide), trivial⟩
  | _ :: rest => by
    refine ⟨fun _ hrest => ?_, ringOk_clear hm rest⟩
    have hclears : clears (rest ++ [m]) = true := by
      rw [clears_append]
      show (clears rest || (m.isClear || false)) = true
      rw [hm]
      exact Bool.or_true _
    exact absurd (hclears.symm.trans hrest) (by decide)

theorem clampWeight_policyWeight (appType : ℕ) :
    clampWeight (policyWeight appType) = policyWeight appType := by
  unfold policyWeight
  split <;> rfl

theorem findRnti_spec {f1 : List (ℕ × ℕ)} {cuUeId : ℕ} {connected : List Ue}
    (hne : findRnti f1 connected cuUeId ≠ 0) : ∃ ue ∈ connected,
      ue.rnti = findRnti f1 connected cuUeId ∧ f1.lookup ue.rnti = some cuUeId := by
  have hfold : ∀ (connected : List Ue) (macRnti : ℕ),
      connected.foldl (fun macRnti ue =>
        if macRnti = 0 ∧ f1.lookup ue.rnti = some cuUeId then ue.rnti else macRnti) macRnti
          = macRnti ∨
      ∃ ue ∈ connected, ue.rnti = connected.foldl (fun macRnti ue =>
        if macRnti = 0 ∧ f1.lookup ue.rnti = some cuUeId then ue.rnti else macRnti) macRnti ∧
        f1.lookup ue.rnti = some cuUeId := by
    intro connected
    induction connected with
    | nil => exact fun macRnti => Or.inl rfl
    | cons ue rest ih =>
      grind
  rcases hfold connected 0 with hsame | hfound
  · exact absurd hsame hne
  · exact hfound

section Steps

variable {s : System}

theorem System.Inv.demand (h : s.Inv) {ueId : ℕ} (now : ℕ)
    (hfits : (Input.demand ueId pkt now ringOk).Fits s) :
    (next s (.demand ueId pkt now ringOk)).Inv := by
  by_cases hreset : pkt.appType = appTypeReset
  · have hasked : askedAfter s.asked ueId pkt = fun _ => [] := if_pos hreset
    have hrange : ∀ u, ∀ w ∈ askedAfter s.asked ueId pkt u, clampWeight w = w := by
      intro u w hw
      rw [hasked] at hw
      cases hw
    rcases hfits hreset with hok | ⟨hring, hhost, htable⟩
    · -- the CLEAR_ALL is behind everything in the ring
      have hclear : (Message.mk ⟨0, ttlClearAll, oneQ16⟩ ueId).isClear = true := rfl
      have hring : (next s (.demand ueId pkt now ringOk)).ring
          = s.ring ++ [⟨⟨0, ttlClearAll, oneQ16⟩, ueId⟩] := by
        show s.ring ++ ((jbpfMain s.intents ueId pkt now ringOk).2.1.map _).toList = _
        rw [hok, jbpfMain_reset s.intents ueId now hreset]
        rfl
      have hclears : clears (next s (.demand ueId pkt now ringOk)).ring = true := by
        rw [hring, clears_append]
        exact Bool.or_true _
      refine ⟨?_, ?_, ?_, h.distinct, hrange, h.known⟩
      · grind [ringOk_clear]
      · simp_all
      · intro m macRnti htarget hne
        refine ⟨(h.target m macRnti htarget hne).1, ?_⟩
        simp_all
    · have hinactive : ∀ Q, AllActive Q s.table :=
        fun Q slot hslot hactive => absurd ((htable slot hslot).symm.trans hactive) (by decide)
      refine ⟨?_, fun _ => hinactive _, ?_, h.distinct, hrange, h.known⟩
      · show RingOk _ (s.ring ++ ((jbpfMain s.intents ueId pkt now ringOk).2.1.map _).toList)
        rw [hring]
        cases hmessage : (jbpfMain s.intents ueId pkt now ringOk).2.1 with
        | none => trivial
        | some wu =>
          have hwu := jbpfMain_message hmessage
          rw [if_pos hreset] at hwu
          rw [hwu]
          exact ringOk_clear rfl []
      · intro m macRnti htarget
        rw [show (next s (.demand ueId pkt now ringOk)).host = .idle from hhost] at htarget
        cases htarget
  · have hasked : askedAfter s.asked ueId pkt
        = fun u => if u = ueId then policyWeight pkt.appType :: s.asked u else s.asked u :=
      if_neg hreset
    have hmono : ∀ u, ∀ w ∈ s.asked u, w ∈ askedAfter s.asked ueId pkt u := by
      intro u w hw
      rw [hasked]
      dsimp only
      split_ifs
      · exact List.mem_cons_of_mem _ hw
      · exact hw
    have hclears : clears (next s (.demand ueId pkt now ringOk)).ring = false →
        clears s.ring = false := by
      intro hnone
      exact (Bool.or_eq_false_iff.mp ((clears_append _ _).symm.trans hnone)).1
    refine ⟨?_, ?_, ?_, h.distinct, ?_, h.known⟩
    · show RingOk _ (s.ring ++ ((jbpfMain s.intents ueId pkt now ringOk).2.1.map _).toList)
      cases hmessage : (jbpfMain s.intents ueId pkt now ringOk).2.1 with
      | none =>
        rw [Option.map_none, Option.toList_none, List.append_nil]
        exact h.ring.mono hmono
      | some wu =>
        refine (h.ring.mono hmono).append ?_
        intro _
        have hwu := jbpfMain_message hmessage
        rw [if_neg hreset] at hwu
        rw [hwu]
        show policyWeight pkt.appType ∈ askedAfter s.asked ueId pkt ueId
        simp_all
    · intro hnone
      exact (h.table (hclears hnone)).mono fun rnti weight hQ ue hue hrnti =>
        hmono _ _ (hQ ue hue hrnti)
    · intro m macRnti htarget hne
      obtain ⟨hid, hweight⟩ := h.target m macRnti htarget hne
      exact ⟨hid, fun hnone => hmono _ _ (hweight (hclears hnone))⟩
    · intro u w hw
      rw [show (next s (.demand ueId pkt now ringOk)).asked = _ from hasked] at hw
      dsimp only at hw
      split_ifs at hw
      · rcases List.mem_cons.mp hw with rfl | hw
        · exact clampWeight_policyWeight _
        · exact h.range u w hw
      · exact h.range u w hw

theorem System.Inv.add (h : s.Inv) {ue : Ue} (hfree : ue.rnti ∉ s.connected.map Ue.rnti)
    (hfresh : Fresh s ue.rnti) : { s with connected := s.connected ++ [ue] }.Inv := by
  refine ⟨h.ring, ?_, ?_, ?_, h.range, h.known⟩
  · intro hnone slot hslot hactive ue' hue' hrnti
    rcases List.mem_append.mp hue' with hold | hnew
    · exact h.table hnone slot hslot hactive ue' hold hrnti
    · rw [List.mem_singleton.mp hnew] at hrnti
      exact absurd hrnti.symm (hfresh.1 slot hslot hactive)
  · intro m macRnti htarget hne
    obtain ⟨hid, hweight⟩ := h.target m macRnti htarget hne
    refine ⟨?_, hweight⟩
    intro ue' hue' hrnti
    rcases List.mem_append.mp hue' with hold | hnew
    · exact hid ue' hold hrnti
    · rw [List.mem_singleton.mp hnew] at hrnti
      exact absurd hrnti.symm (hfresh.2 m macRnti htarget)
  · show ((s.connected ++ [ue]).map Ue.rnti).Nodup
    rw [List.map_append]
    exact List.Nodup.append h.distinct (List.nodup_singleton _)
      (List.disjoint_singleton.mpr hfree)

/-- The F1 table and the CU-UE-IDs given out are not part of the invariant. -/
theorem System.Inv.frame (h : s.Inv) (f1 : List (ℕ × ℕ)) (used : List ℕ) :
    { s with f1 := f1, used := used }.Inv :=
  ⟨h.ring, h.table, h.target, h.distinct, h.range, h.known⟩

theorem System.Inv.remove (h : s.Inv) (rnti : ℕ) :
    { s with connected := s.connected.filter fun ue => ue.rnti ≠ rnti }.Inv := by
  have hsub : ∀ ue ∈ s.connected.filter fun ue => ue.rnti ≠ rnti, ue ∈ s.connected :=
    fun ue hue => (List.mem_filter.mp hue).1
  refine ⟨h.ring, ?_, ?_, h.distinct.sublist (List.filter_sublist.map _), h.range, h.known⟩
  · intro hnone
    exact (h.table hnone).mono fun _ _ hQ ue hue hrnti => hQ ue (hsub ue hue) hrnti
  · intro m macRnti htarget hne
    obtain ⟨hsender, hweight⟩ := h.target m macRnti htarget hne
    exact ⟨fun ue hue hrnti => hsender ue (hsub ue hue) hrnti, hweight⟩

theorem System.Inv.hostTake (h : s.Inv) (hfits : Input.hostTake.Fits s) :
    (next s .hostTake).Inv := by
  unfold next
  dsimp only
  split
  next m rest hhost hring =>
    have hringOk := h.ring
    rw [hring] at hringOk
    by_cases hclear : m.isClear = true
    · rw [if_pos hclear]
      refine ⟨hringOk.2, fun _ => allActive_clearAll, ?_, h.distinct, h.range, h.known⟩
      intro m' macRnti htarget
      rw [show ({ s with ring := rest, table := qosWeightClearAll s.table } : System).host
        = .idle from hhost] at htarget
      cases htarget
    · rw [if_neg hclear]
      have hdata : m.isClear = false := Bool.eq_false_iff.mpr hclear
      refine ⟨hringOk.2, ?_, ?_, h.distinct, h.range, fun _ _ hhost => (by cases hhost)⟩
      · intro hnone
        refine h.table ?_
        grind [clears]
      · intro m' macRnti htarget hne
        obtain ⟨rfl, rfl⟩ := Prod.mk.inj (Option.some.inj htarget)
        refine ⟨?_, hringOk.1 hdata⟩
        intro ue hue hrnti
        obtain ⟨ue', hue', hrnti', hf1⟩ := findRnti_spec hne
        have hsender := hfits m (by rw [hring]; rfl) ue' hue' hf1
        -- RNTIs are distinct, so it is the UE that was found
        have hsame : ue = ue' :=
          List.inj_on_of_nodup_map h.distinct hue hue' (hrnti.trans hrnti'.symm)
        simp_all
  · exact h

theorem System.Inv.hostRetain (h : s.Inv) : (next s .hostRetain).Inv := by
  unfold next
  dsimp only
  split
  next m live macRnti hhost =>
    refine ⟨h.ring, fun hnone => allActive_retain (h.table hnone) live, ?_, h.distinct, h.range, ?_⟩
    · intro m' macRnti' htarget
      refine h.target m' macRnti' ?_
      rw [hhost]
      split_ifs at htarget
      · cases htarget
      · exact htarget
    · grind
  · exact h

theorem System.Inv.hostApply (h : s.Inv) (now : ℕ) : (next s (.hostApply now)).Inv := by
  unfold next
  dsimp only
  split
  next m macRnti hhost =>
    refine ⟨h.ring, ?_, (fun _ _ htarget => (by cases htarget)), h.distinct, h.range,
      (fun _ _ hidle => (by cases hidle))⟩
    intro hnone
    obtain ⟨hid, hweight⟩ := h.target m macRnti (by rw [hhost]; rfl) (h.known m macRnti hhost)
    refine allActive_apply (h.table hnone) _ _ ?_
    intro ue hue hrnti
    rw [h.range _ _ (hweight hnone), hid ue hue hrnti]
    exact hweight hnone
  · exact h

end Steps

/-! ### Every run -/

theorem inv_step {s : System} (h : s.Inv) {i : Input} (hallowed : i.Allowed s)
    (hfits : i.Fits s) : (next s i).Inv := by
  cases i with
  | demand ueId pkt now ringOk => exact h.demand now hfits
  | attach ue => exact (h.add hallowed.2.2.2.2.1 hfits).frame _ _
  | f1Setup rnti =>
    unfold next
    dsimp only
    split
    · exact h
    · exact h.frame _ _
  | reestablish oldRnti rnti =>
    unfold next
    dsimp only
    split
    · exact h
    · refine (@System.Inv.add _ (h.remove oldRnti) ⟨rnti, _⟩ ?_ hfits).frame _ _
      exact fun hmem => hallowed.2.2 ((List.filter_sublist.map _).mem hmem)
  | detach rnti removeF1 => exact (h.remove rnti).frame _ _
  | hostTake => exact h.hostTake hfits
  | hostRetain => exact h.hostRetain
  | hostApply now => exact h.hostApply now

theorem inv_start : System.start.Inv := by
  refine ⟨trivial, ?_, (fun _ _ htarget => (by cases htarget)), List.nodup_nil,
    (fun _ _ hw => (by cases hw)), (fun _ _ hidle => (by cases hidle))⟩
  intro _ slot hslot hactive
  rw [List.eq_of_mem_replicate hslot] at hactive
  cases hactive

/-- **No UE is scheduled with a weight it did not ask for.** -/
theorem weight_asked_for {s : System}
    (h : Reachable step (fun s i => i.Allowed s ∧ i.Fits s) System.start s)
    (hclears : clears s.ring = false) {ue : Ue} (hue : ue ∈ s.connected) (now : ℕ) :
    qosWeightLookup s.table ue.rnti now = oneQ16 ∨
      qosWeightLookup s.table ue.rnti now ∈ s.asked ue.cuUeId := by
  have hinv : s.Inv := by
    refine Reachable.invariant System.Inv inv_start ?_ h
    intro s i s' o hs hguard hstep
    obtain ⟨rfl, -⟩ := ok_inj hstep
    exact inv_step hs hguard.1 hguard.2
  rcases qosWeightLookup_spec (hinv.table hclears) ue.rnti now with hone | hasked
  · exact Or.inl hone
  · exact Or.inr (hasked ue hue rfl)

/-- A UE attaches, asks for the weight of an LLM, and the host sets it. -/
def askAndSet : List Input :=
  [.attach ⟨0x1234, 1⟩, .f1Setup 0x1234, .demand 1 ⟨1, 40000, 1000, 0⟩ 1000 true, .hostTake,
    .hostRetain, .hostApply 2000]

/-- The weight is 8, and stays so when another UE attaches. -/
theorem weight_asked_for_sample :
    ∃ s : System, s.connected.length = 2 ∧ qosWeightLookup s.table 0x1234 3000 = 8 * 65536 ∧
      (qosWeightLookup s.table 0x1234 3000 = oneQ16 ∨
        qosWeightLookup s.table 0x1234 3000 ∈ s.asked 1) := by
  have hstep : ∀ {s : System} (i : Input),
      Reachable step (fun s i => i.Allowed s ∧ i.Fits s) System.start s → i.Allowed s → i.Fits s →
      Reachable step (fun s i => i.Allowed s ∧ i.Fits s) System.start (next s i) :=
    fun i h hallowed hfits => h.step (i := i) ⟨hallowed, hfits⟩ rfl
  have h₁ := hstep (.attach ⟨0x1234, 1⟩) Reachable.start (by decide)
    ⟨by decide, fun _ _ htarget => (by cases htarget)⟩
  have h₂ := hstep (.f1Setup 0x1234) h₁ trivial trivial
  have h₃ := hstep (.demand 1 ⟨1, 40000, 1000, 0⟩ 1000 true) h₂ (by decide) fun _ => Or.inl rfl
  have h₄ := hstep .hostTake h₃ trivial (by
    intro m hm ue hue _
    obtain rfl := Option.some.inj hm
    rw [List.mem_singleton.mp hue])
  have h₅ := hstep .hostRetain h₄ trivial trivial
  have h₆ := hstep (.hostApply 2000) h₅ trivial trivial
  have h₇ := hstep (.attach ⟨0x4321, 2⟩) h₆ (by decide +kernel)
    ⟨by decide +kernel, fun _ _ htarget => (by cases htarget)⟩
  exact ⟨_, by decide +kernel, by decide +kernel, weight_asked_for h₇ (by decide +kernel)
    (List.mem_cons_self : Ue.mk 0x1234 1 ∈ _) 3000⟩

/-- **The RNTI of a UE that left.**  The next UE with the RNTI has the weight that the first one
asked for, with no message in flight. -/
theorem not_weight_asked_for :
    ¬ ∀ s : System, Reachable step (fun s i => i.Allowed s) System.start s → s.ring = [] →
      s.host = .idle → ∀ ue ∈ s.connected, ∀ now,
        qosWeightLookup s.table ue.rnti now = oneQ16 ∨
          qosWeightLookup s.table ue.rnti now ∈ s.asked ue.cuUeId := by
  intro hall
  obtain ⟨s, hs, hobserved⟩ := exists_reachable step (fun s i => Input.Allowed s i) System.start
    (askAndSet ++ [.detach 0x1234 true, .attach ⟨0x1234, 2⟩])
    (fun s => (s.ring, s.host, s.connected, s.asked 2, qosWeightLookup s.table 0x1234 3000))
    (b := ([], .idle, [⟨0x1234, 2⟩], [], 8 * 65536)) (by decide +kernel)
  obtain ⟨hring, hrest⟩ := Prod.mk.inj hobserved
  obtain ⟨hhost, hrest⟩ := Prod.mk.inj hrest
  obtain ⟨hconnected, hrest⟩ := Prod.mk.inj hrest
  obtain ⟨hasked, hweight⟩ := Prod.mk.inj hrest
  have hue : Ue.mk 0x1234 2 ∈ s.connected := by
    rw [hconnected]
    exact List.mem_singleton.mpr rfl
  rcases hall s hs hring hhost _ hue 3000 with hone | hmem
  · exact absurd (hweight.symm.trans hone) (by decide)
  · simp_all

end OaiGnb.Jbpf
