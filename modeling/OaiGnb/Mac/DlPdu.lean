import OaiGnb.Mac.UlPdu

/-!
# Downlink MAC PDUs at the UE

`get_mac_len` of `nr_mac.h`, and `nr_ue_validate_successrar` and `nr_ue_process_mac_pdu` of
`nr_ue_procedures.c`.

`get_mac_len` compares the length of the payload with the rest of the PDU, subheader and all, so the
payload may end up to three bytes behind the PDU; the MAC CEs of a fixed size and the success RARs
are read without looking at what is left.

* `SubPduInside`: what is read of one subPDU is in the PDU.
* `dlParser_memorySafe`: the parser returns and stays inside exactly if that holds along the PDU.
-/

namespace OaiGnb.Mac.DlPdu

open Loop Run
open Mac.UlPdu (ParseFault readByte readRange readRange_ok Inside lcidOf)

/-! ### Subheaders -/

/-- `DL_SCH_LCID_CCCH`. -/
def lcidCcch : ℕ := 0x00

/-- `DL_SCH_LCID_RECOMMENDED_BITRATE`. -/
def lcidRecommendedBitrate : ℕ := 0x2F

/-- `DL_SCH_LCID_SP_ZP_CSI_RS_RES_SET_ACT`. -/
def lcidSpZpCsiRsResSetAct : ℕ := 0x30

/-- `DL_SCH_LCID_PUCCH_SPATIAL_RELATION_ACT`. -/
def lcidPucchSpatialRelationAct : ℕ := 0x31

/-- `DL_SCH_LCID_SP_SRS_ACTIVATION`. -/
def lcidSpSrsActivation : ℕ := 0x32

/-- `DL_SCH_LCID_SP_CSI_REP_PUCCH_ACT`. -/
def lcidSpCsiRepPucchAct : ℕ := 0x33

/-- `DL_SCH_LCID_TCI_STATE_IND_UE_SPEC_PDCCH`. -/
def lcidTciStateIndUeSpecPdcch : ℕ := 0x34

/-- `DL_SCH_LCID_TCI_STATE_ACT_UE_SPEC_PDSCH`. -/
def lcidTciStateActUeSpecPdsch : ℕ := 0x35

/-- `DL_SCH_LCID_APERIODIC_CSI_TRI_STATE_SUBSEL`. -/
def lcidAperiodicCsiTriStateSubsel : ℕ := 0x36

/-- `DL_SCH_LCID_SP_CSI_RS_CSI_IM_RES_SET_ACT`. -/
def lcidSpCsiRsCsiImResSetAct : ℕ := 0x37

/-- `DL_SCH_LCID_DUPLICATION_ACT`. -/
def lcidDuplicationAct : ℕ := 0x38

/-- `DL_SCH_LCID_SCell_ACT_4_OCT`. -/
def lcidSCellAct4Oct : ℕ := 0x39

/-- `DL_SCH_LCID_SCell_ACT_1_OCT`. -/
def lcidSCellAct1Oct : ℕ := 0x3A

/-- `DL_SCH_LCID_TA_COMMAND`. -/
def lcidTaCommand : ℕ := 0x3D

/-- `DL_SCH_LCID_CON_RES_ID`. -/
def lcidConResId : ℕ := 0x3E

/-- `DL_SCH_LCID_PADDING`. -/
def lcidPadding : ℕ := 0x3F

/-- The MAC CEs with a length field. -/
def IsVariableCe (lcid : ℕ) : Prop :=
  lcid ∈ [lcidTciStateActUeSpecPdsch, lcidAperiodicCsiTriStateSubsel, lcidSpCsiRsCsiImResSetAct,
    lcidSpSrsActivation]

instance (lcid : ℕ) : Decidable (IsVariableCe lcid) := by unfold IsVariableCe; infer_instance

/-- The logical channels: `case 1 ... 32`. -/
def IsSdu (lcid : ℕ) : Prop := 1 ≤ lcid ∧ lcid ≤ 32

instance (lcid : ℕ) : Decidable (IsSdu lcid) := by unfold IsSdu; infer_instance

/-- The lengths of the MAC CEs that are passed over; 0 for the DRX commands and if the LCID is not
known. -/
def fixedLength (lcid : ℕ) : ℕ :=
  if lcid = lcidRecommendedBitrate ∨ lcid = lcidSpZpCsiRsResSetAct ∨ lcid = lcidSpCsiRepPucchAct
      ∨ lcid = lcidTciStateIndUeSpecPdcch then 2
  else if lcid = lcidPucchSpatialRelationAct then 3
  else if lcid = lcidDuplicationAct ∨ lcid = lcidSCellAct1Oct then 1
  else if lcid = lcidSCellAct4Oct then 4
  else 0

/-- What `get_mac_len` returns, and the lengths it sets. -/
structure MacLen where
  ret : Bool
  macLen : ℕ
  macSubheaderLen : ℕ
  deriving Repr, DecidableEq

/-- `get_mac_len`; the lengths keep their defaults when it returns early. -/
def getMacLen (rest : List UInt8) : Except ParseFault MacLen :=
  if rest.length < 2 then .ok ⟨false, 0, 1⟩
  else do
    let b₀ ← readByte rest 0
    if b₀.testBit 6 = true then
      if rest.length < 3 then return ⟨false, 0, 1⟩
      else do
        let b₁ ← readByte rest 1
        let b₂ ← readByte rest 2
        return ⟨decide (b₁ * 256 + b₂ ≤ rest.length), b₁ * 256 + b₂, 3⟩
    else do
      let b₁ ← readByte rest 1
      return ⟨decide (b₁ ≤ rest.length), b₁, 2⟩

/-! ### The parser -/

/-- `nrRA_UE_state_t`. -/
inductive RaState where
  | ueIdle
  | generatePreamble
  | waitRar
  | waitMsgB
  | waitContentionResolution
  | succeeded
  | failed
  deriving Repr, DecidableEq

/-- What `nr_ue_process_mac_pdu` finds at the UE. -/
structure DlEnv where
  /-- `ra->ra_type == RA_2_STEP`. -/
  ra2Step : Bool
  /-- `IS_SOFTMODEM_IQPLAYER`. -/
  iqPlayer : Bool
  contResId : Vector UInt8 6
  tagId : ℤ
  isLcidSuspended : ℕ → Bool

/-- The functions that are given a part of the PDU. -/
inductive DlHandler where
  | rlcDataInd (lcid : ℕ)
  | setTimeAlignment
  deriving Repr, DecidableEq

/-- A part of the PDU that is given to a function: where it begins and its bytes. -/
structure DlCall where
  handler : DlHandler
  offset : ℕ
  bytes : List UInt8
  deriving Repr, DecidableEq

/-- The parser's state: the offset of the rest of the PDU, the rest, `ra->ra_state`,
`ra->RA_active`, the calls made. -/
structure DlState where
  offset : ℕ
  rest : List UInt8
  raState : RaState
  raActive : Bool
  calls : List DlCall

/-- What a `case` leaves behind. -/
structure Handled where
  macSubheaderLen : ℕ
  macLen : ℕ
  raState : RaState
  raActive : Bool
  calls : List DlCall
  done : Bool

def Handled.total (h : Handled) : ℕ := h.macSubheaderLen + h.macLen

/-- Whether all bytes of the subPDU are zero; the loop stops at the first that is not. -/
def allZero (rest : List UInt8) (total : ℕ) : Except ParseFault Bool :=
  if (rest.take total).any (· ≠ 0) = true then .ok false
  else if total ≤ rest.length then .ok true
  else .error .outOfBounds

/-- The loop of `check_ra_contention_resolution`, for the bytes from `i` on. -/
def sameBytes (rest : List UInt8) : ℕ → List UInt8 → Except ParseFault Bool
  | _, [] => .ok true
  | i, c :: cs => do
      let b ← readByte rest i
      if b ≠ c.toNat then return false else sameBytes rest (i + 1) cs

/-- `check_ra_contention_resolution` for the bytes from `i` on. -/
def checkRaContentionResolution (env : DlEnv) (rest : List UInt8) (i : ℕ) :
    Except ParseFault Bool :=
  if env.iqPlayer = true then .ok true else sameBytes rest i env.contResId.toList

/-- A subPDU that is passed over. -/
def passOver (s : DlState) (macSubheaderLen macLen : ℕ) : Handled :=
  ⟨macSubheaderLen, macLen, s.raState, s.raActive, [], false⟩

/-- `nr_mac_rlc_data_ind` for the payload of a subPDU. -/
def deliver (s : DlState) (lcid : ℕ) (len : MacLen) : Except (Except ParseFault Unit) Handled :=
  match readRange s.rest len.macSubheaderLen len.macLen with
  | .error e => .error (.error e)
  | .ok bytes =>
      .ok { passOver s len.macSubheaderLen len.macLen with
        calls := [⟨.rlcDataInd lcid, s.offset + len.macSubheaderLen, bytes⟩] }

/-- The `case` of the CCCH. -/
def ccchCase (s : DlState) : Except (Except ParseFault Unit) Handled :=
  match getMacLen s.rest with
  | .error e => .error (.error e)
  | .ok len =>
      if len.ret = false then .error (.error .assertFatal)
      else
        match allZero s.rest (len.macSubheaderLen + len.macLen) with
        | .error e => .error (.error e)
        | .ok true => .ok { passOver s len.macSubheaderLen len.macLen with done := true }
        | .ok false =>
            if len.macLen > 0 then deliver s lcidCcch len
            else .ok (passOver s len.macSubheaderLen len.macLen)

/-- The `case` of a logical channel. -/
def sduCase (env : DlEnv) (s : DlState) (lcid : ℕ) : Except (Except ParseFault Unit) Handled :=
  match getMacLen s.rest with
  | .error e => .error (.error e)
  | .ok len =>
      if len.ret = false then .error (.ok ())
      else if env.isLcidSuspended lcid = true then
        .ok (passOver s len.macSubheaderLen len.macLen)
      else deliver s lcid len

/-- The `case` of the MAC CEs with a length field; what `get_mac_len` returns is not looked at. -/
def variableCeCase (s : DlState) : Except (Except ParseFault Unit) Handled :=
  match getMacLen s.rest with
  | .error e => .error (.error e)
  | .ok len => .ok (passOver s len.macSubheaderLen len.macLen)

/-- The `case` of a timing advance command. -/
def taCommandCase (env : DlEnv) (s : DlState) : Except (Except ParseFault Unit) Handled :=
  match readByte s.rest 1, readRange s.rest 1 1 with
  | .ok b, .ok bytes =>
      if (↑(b / 64) : ℤ) ≠ env.tagId then .ok { passOver s 1 1 with done := true }
      else .ok { passOver s 1 1 with calls := [⟨.setTimeAlignment, s.offset + 1, bytes⟩] }
  | _, _ => .error (.error .outOfBounds)

/-- The `case` of a contention resolution identity. -/
def conResIdCase (env : DlEnv) (s : DlState) : Except (Except ParseFault Unit) Handled :=
  if s.raState = .waitContentionResolution then
    match checkRaContentionResolution env s.rest 1 with
    | .error e => .error (.error e)
    | .ok true =>
        -- nr_ra_succeeded
        if s.raActive = true then
          .ok { passOver s 1 6 with raState := .succeeded, raActive := false }
        else .ok (passOver s 1 6)
    | .ok false => .error (.ok ())
  else .ok (passOver s 1 6)

/-- The `switch` of `nr_ue_process_mac_pdu`. -/
def dlCase (env : DlEnv) (s : DlState) (lcid : ℕ) : Except (Except ParseFault Unit) Handled :=
  if lcid = lcidCcch then ccchCase s
  else if IsVariableCe lcid then variableCeCase s
  else if lcid = lcidTaCommand then taCommandCase env s
  else if lcid = lcidConResId then conResIdCase env s
  else if lcid = lcidPadding then .ok { passOver s 1 0 with done := true }
  else if IsSdu lcid then sduCase env s lcid
  else .ok (passOver s 1 (fixedLength lcid))

/-- What a PDU comes to: a return or a fault, and the calls made. -/
structure DlOutcome where
  result : Except ParseFault Unit
  calls : List DlCall

/-- One iteration of the loop of `nr_ue_process_mac_pdu`. -/
def dlStep (env : DlEnv) (s : DlState) : Next DlState DlOutcome :=
  match s.rest with
  | [] => .stop ⟨.ok (), s.calls⟩
  | b₀ :: _ =>
      match dlCase env s (b₀.toNat % 64) with
      | .error result => .stop ⟨result, s.calls⟩
      | .ok h =>
          if h.done = true then .stop ⟨.ok (), s.calls ++ h.calls⟩
          else
            .go ⟨s.offset + h.total, s.rest.drop h.total, h.raState, h.raActive,
              s.calls ++ h.calls⟩

/-- The state of `nr_ue_validate_successrar`: the offset, `E`, `ra->ra_state` and
`ra->RA_active`. -/
structure RarState where
  n : ℕ
  more : Bool
  raState : RaState
  raActive : Bool

/-- One iteration of `nr_ue_validate_successrar`. -/
def successRarStep (env : DlEnv) (pdu : List UInt8) (s : RarState) :
    Next RarState (Except ParseFault RarState) :=
  match if s.more = true then pdu[s.n]? else none with
  | none => .stop (.ok s)
  | some b =>
      let more := b.toNat.testBit 7
      if b.toNat.testBit 6 = true then .stop (.error .assertFatal)
      else if b.toNat.testBit 5 = true then
        match readRange pdu (s.n + 1) 11, checkRaContentionResolution env pdu (s.n + 1) with
        | .ok _, .ok raSuccess =>
            if s.raActive = true ∧ raSuccess = true then .go ⟨s.n + 12, more, .succeeded, false⟩
            else .go ⟨s.n + 12, more, s.raState, s.raActive⟩
        | _, _ => .stop (.error .outOfBounds)
      else .go ⟨s.n + 1, more, s.raState, s.raActive⟩

/-- `nr_ue_validate_successrar`: where it ends, and the call of `set_time_alignment`, for which the
second byte of the PDU is read. -/
def nrUeValidateSuccessrar (env : DlEnv) (raState : RaState) (raActive : Bool) (pdu : List UInt8) :
    Except ParseFault DlState := do
  let s ← (iterate (successRarStep env pdu) (pdu.length + 1) ⟨0, true, raState, raActive⟩).getD
    (.error .loops)
  let bytes ← readRange pdu 1 1
  return ⟨s.n, pdu.drop s.n, s.raState, s.raActive, [⟨.setTimeAlignment, 1, bytes⟩]⟩

/-- Where the subPDUs begin: behind the success RARs, if the UE waits for a MsgB. -/
def dlStart (env : DlEnv) (raState : RaState) (raActive : Bool) (pdu : List UInt8) :
    Except ParseFault DlState :=
  if env.ra2Step = true ∧ raState = .waitMsgB then
    nrUeValidateSuccessrar env raState raActive pdu
  else .ok ⟨0, pdu, raState, raActive, []⟩

/-- `nr_ue_process_mac_pdu`. -/
def nrUeProcessMacPdu (env : DlEnv) (raState : RaState) (raActive : Bool) (pdu : List UInt8) :
    DlOutcome :=
  match dlStart env raState raActive pdu with
  | .error e => ⟨.error e, []⟩
  | .ok s => (iterate (dlStep env) (pdu.length + 1) s).getD ⟨.error .loops, s.calls⟩

/-! ### The subPDU at the head of the rest -/

/-- The `case` of the `switch` for the LCID. -/
inductive Kind where
  | ccch
  | variableCe
  | taCommand
  | conResId
  | padding
  | sdu (lcid : ℕ)
  | passed (lcid : ℕ)

/-- The `case` for the first byte of the rest. -/
def kindOf (rest : List UInt8) : Kind :=
  if lcidOf rest = lcidCcch then .ccch
  else if IsVariableCe (lcidOf rest) then .variableCe
  else if lcidOf rest = lcidTaCommand then .taCommand
  else if lcidOf rest = lcidConResId then .conResId
  else if lcidOf rest = lcidPadding then .padding
  else if IsSdu (lcidOf rest) then .sdu (lcidOf rest)
  else .passed (lcidOf rest)

/-- The length of a subheader with a length field of one or two bytes. -/
def longHeaderLen (rest : List UInt8) : ℕ := if (rest.headD 0).toNat.testBit 6 then 3 else 2

/-- The length field. -/
def lengthField (rest : List UInt8) : ℕ :=
  if (rest.headD 0).toNat.testBit 6 then (rest.getD 1 0).toNat * 256 + (rest.getD 2 0).toNat
  else (rest.getD 1 0).toNat

/-- The length field is in the rest and says no more than the rest. -/
def Announces (rest : List UInt8) : Prop :=
  longHeaderLen rest ≤ rest.length ∧ lengthField rest ≤ rest.length

instance (rest : List UInt8) : Decidable (Announces rest) := by unfold Announces; infer_instance

/-- Where a payload with a length field ends. -/
def payloadEnd (rest : List UInt8) : ℕ := longHeaderLen rest + lengthField rest

theorem getMacLen_eq (rest : List UInt8) :
    getMacLen rest = .ok (if longHeaderLen rest ≤ rest.length then
      ⟨decide (lengthField rest ≤ rest.length), lengthField rest, longHeaderLen rest⟩
      else ⟨false, 0, 1⟩) := by
  match rest with
  | [] => rfl
  | [b₀] => cases hf : b₀.toNat.testBit 6 <;> simp [getMacLen, longHeaderLen, hf]
  | [b₀, b₁] =>
    cases hf : b₀.toNat.testBit 6 <;>
      simp [getMacLen, readByte, longHeaderLen, lengthField, hf, ok_bind, pure, Except.pure]
  | b₀ :: b₁ :: b₂ :: tl =>
    have h2 : ¬ tl.length + 1 + 1 + 1 < 2 := by omega
    have h3 : ¬ tl.length + 1 + 1 + 1 < 3 := by omega
    cases hf : b₀.toNat.testBit 6 <;>
      simp [getMacLen, readByte, longHeaderLen, lengthField, hf, ok_bind, pure, Except.pure, h2, h3]

/-- What `nr_ue_process_mac_pdu` has before it: the rest of the PDU and the random access. -/
structure DlView where
  rest : List UInt8
  raState : RaState
  raActive : Bool

def DlState.view (s : DlState) : DlView := ⟨s.rest, s.raState, s.raActive⟩

/-- The bytes from `i` on differ from the identity, or are a part of it only. -/
def Differs (env : DlEnv) (rest : List UInt8) (i : ℕ) : Prop :=
  env.iqPlayer = false ∧ ¬ env.contResId.toList <+: rest.drop i

instance (env : DlEnv) (rest : List UInt8) (i : ℕ) : Decidable (Differs env rest i) := by
  unfold Differs
  infer_instance

/-- The bytes from `i` on are the beginning of the identity and not all of it. -/
def CutOff (env : DlEnv) (rest : List UInt8) (i : ℕ) : Prop :=
  env.iqPlayer = false ∧ rest.drop i <+: env.contResId.toList ∧ (rest.drop i).length < 6

instance (env : DlEnv) (rest : List UInt8) (i : ℕ) : Decidable (CutOff env rest i) := by
  unfold CutOff
  infer_instance

/-- **The subPDU is in the rest** as far as it is read: a payload that its length field announces,
the byte of a timing advance command, the identity up to the first byte that differs. -/
def SubPduInside (env : DlEnv) (v : DlView) : Prop :=
  match kindOf v.rest with
  | .ccch => Announces v.rest → payloadEnd v.rest ≤ v.rest.length
  | .sdu lcid =>
      env.isLcidSuspended lcid = false → Announces v.rest → payloadEnd v.rest ≤ v.rest.length
  | .taCommand => 2 ≤ v.rest.length
  | .conResId => v.raState = .waitContentionResolution → ¬ CutOff env v.rest 1
  | .variableCe | .padding | .passed _ => True

instance (env : DlEnv) : DecidablePred (SubPduInside env) := by
  intro v
  unfold SubPduInside
  split <;> infer_instance

/-- The parser ends with the subPDU: nothing is left, a length field says too much, the payload of
the CCCH is zero, the TAG is another one, the identity is another one, padding. -/
def Ends (env : DlEnv) (v : DlView) : Prop :=
  match kindOf v.rest with
  | .ccch => ¬ Announces v.rest ∨ (v.rest.take (payloadEnd v.rest)).any (· ≠ 0) = false
  | .sdu _ => ¬ Announces v.rest
  | .taCommand => (((v.rest.getD 1 0).toNat / 64 : ℕ) : ℤ) ≠ env.tagId
  | .conResId => v.raState = .waitContentionResolution ∧ Differs env v.rest 1
  | .padding => True
  | .variableCe | .passed _ => False

instance (env : DlEnv) : DecidablePred (Ends env) := by
  intro v
  unfold Ends
  split <;> infer_instance

/-- The length of the subPDU; a MAC CE whose length field is cut off counts one byte. -/
def subPduLen (rest : List UInt8) : ℕ :=
  match kindOf rest with
  | .ccch | .sdu _ => payloadEnd rest
  | .variableCe => if longHeaderLen rest ≤ rest.length then payloadEnd rest else 1
  | .taCommand => 2
  | .conResId => 7
  | .padding => 1
  | .passed lcid => 1 + fixedLength lcid

/-- The random access behind the subPDU: the identity that is waited for ends it. -/
def raAfter (v : DlView) : RaState × Bool :=
  match kindOf v.rest with
  | .conResId =>
      if v.raState = .waitContentionResolution ∧ v.raActive = true then (.succeeded, false)
      else (v.raState, v.raActive)
  | _ => (v.raState, v.raActive)

/-- The subPDU behind. -/
def nextSubPdu (env : DlEnv) (v : DlView) : Option DlView :=
  if Ends env v then none
  else some ⟨v.rest.drop (subPduLen v.rest), (raAfter v).1, (raAfter v).2⟩

theorem subPduLen_pos (rest : List UInt8) : 0 < subPduLen rest := by
  have hlong : 0 < longHeaderLen rest := by
    rw [longHeaderLen]
    split <;> omega
  unfold subPduLen
  split <;> first | (rw [payloadEnd]; omega) | omega | skip
  split
  · rw [payloadEnd]
    omega
  · exact Nat.one_pos

theorem ends_nil (env : DlEnv) (raState : RaState) (raActive : Bool) :
    Ends env ⟨[], raState, raActive⟩ :=
  Or.inl fun h => absurd h.1 (show ¬ longHeaderLen [] ≤ 0 by decide)

variable {env : DlEnv} {v v' : DlView}

theorem nextSubPdu_decreases (h : nextSubPdu env v = some v') :
    v'.rest.length < v.rest.length := by
  unfold nextSubPdu at h
  split at h
  · cases h
  next hends =>
    obtain rfl := Option.some.inj h
    have hne : v.rest ≠ [] := by
      intro hnil
      obtain ⟨rest, raState, raActive⟩ := v
      obtain rfl : rest = [] := hnil
      exact hends (ends_nil env raState raActive)
    have hlen := List.length_pos_iff.mpr hne
    have hpos := subPduLen_pos v.rest
    rw [List.length_drop]
    omega

/-! ### The identity -/

variable {rest : List UInt8} {i : ℕ}

theorem sameBytes_eq (rest : List UInt8) (id : List UInt8) (i : ℕ) :
    sameBytes rest i id =
      if rest.drop i <+: id ∧ (rest.drop i).length < id.length then .error .outOfBounds
      else .ok (decide (id <+: rest.drop i)) := by
  induction id generalizing i with
  | nil => simp [sameBytes]
  | cons c cs ih =>
    by_cases hi : i < rest.length
    · have hread : readByte rest i = .ok (rest.get ⟨i, hi⟩).toNat := by
        rw [readByte, List.getElem?_eq_getElem hi]
        rfl
      have hdrop : rest.drop i = rest.get ⟨i, hi⟩ :: rest.drop (i + 1) :=
        List.drop_eq_getElem_cons hi
      rw [sameBytes, hread, ok_bind, hdrop]
      simp only [List.cons_prefix_cons, List.length_cons, Nat.add_lt_add_iff_right]
      by_cases hb : (rest.get ⟨i, hi⟩).toNat = c.toNat
      · have hbyte := UInt8.toNat_inj.mp hb
        rw [if_neg (not_not.mpr hb), ih (i + 1)]
        simp only [hbyte, true_and]
      · have hbyte : rest.get ⟨i, hi⟩ ≠ c := fun h => hb (congrArg UInt8.toNat h)
        rw [if_pos hb, if_neg fun h => hbyte h.1.1,
          decide_eq_false fun h : c = rest.get ⟨i, hi⟩ ∧ _ => hbyte h.1.symm]
        rfl
    · have hnil : rest.drop i = [] := List.drop_eq_nil_of_le (Nat.le_of_not_lt hi)
      rw [sameBytes, readByte, List.getElem?_eq_none (Nat.le_of_not_lt hi), hnil,
        if_pos ⟨List.nil_prefix, Nat.succ_pos _⟩]
      rfl

theorem checkRaContentionResolution_eq (env : DlEnv) (rest : List UInt8) (i : ℕ) :
    checkRaContentionResolution env rest i =
      if CutOff env rest i then .error .outOfBounds else .ok (decide (¬ Differs env rest i)) := by
  rw [checkRaContentionResolution, sameBytes_eq, Vector.length_toList]
  cases hiq : env.iqPlayer <;> simp [CutOff, Differs, hiq]

/-! ### Memory safety -/

/-- A part of the PDU. -/
def DlCall.Within (pdu : List UInt8) (c : DlCall) : Prop :=
  c.offset + c.bytes.length ≤ pdu.length ∧ c.bytes = (pdu.drop c.offset).take c.bytes.length

/-- The parser's state is about the rest of the PDU; the offset may be past the end. -/
structure AtRest (pdu : List UInt8) (s : DlState) : Prop where
  rest : s.rest = pdu.drop s.offset
  calls : ∀ c ∈ s.calls, c.Within pdu

variable {pdu : List UInt8} {s : DlState}

theorem AtRest.within {n : ℕ} (hs : AtRest pdu s) (hne : s.rest ≠ [])
    (hlen : i + n ≤ s.rest.length) (handler : DlHandler) :
    (⟨handler, s.offset + i, (s.rest.drop i).take n⟩ : DlCall).Within pdu := by
  have hpos := List.length_pos_iff.mpr hne
  rw [hs.rest] at hlen hpos ⊢
  rw [List.length_drop] at hlen hpos
  have hbytes : (((pdu.drop s.offset).drop i).take n).length = n := by
    rw [List.length_take, List.length_drop, List.length_drop]
    omega
  refine ⟨?_, ?_⟩
  · grind
  · simp

theorem inside_return : Inside (.ok () : Except ParseFault Unit) :=
  ⟨fun h => (by cases h), fun h => (by cases h)⟩

theorem inside_assertFatal {α : Type} : Inside (.error .assertFatal : Except ParseFault α) :=
  ⟨fun h => (by cases h), fun h => (by cases h)⟩

/-- What the `switch` does with a subPDU: a read past the end if the subPDU is not inside, else it
ends, or goes on behind the subPDU. -/
inductive Decides (env : DlEnv) (pdu : List UInt8) (v : DlView) :
    Except (Except ParseFault Unit) Handled → Prop
  | missing : ¬ SubPduInside env v → Decides env pdu v (.error (.error .outOfBounds))
  | ends {r : Except ParseFault Unit} : SubPduInside env v → Ends env v → Inside r →
      Decides env pdu v (.error r)
  | done {h : Handled} : SubPduInside env v → Ends env v → h.done = true → h.calls = [] →
      Decides env pdu v (.ok h)
  | goes {h : Handled} : SubPduInside env v → ¬ Ends env v → h.done = false →
      h.total = subPduLen v.rest → (h.raState, h.raActive) = raAfter v →
      (∀ c ∈ h.calls, c.Within pdu) → Decides env pdu v (.ok h)

section Cases

variable {env : DlEnv} {pdu : List UInt8} {s : DlState} {lcid : ℕ}

theorem ret_of_not_announces {rest : List UInt8} (hann : ¬ Announces rest) :
    (if longHeaderLen rest ≤ rest.length then
      (⟨decide (lengthField rest ≤ rest.length), lengthField rest, longHeaderLen rest⟩ : MacLen)
      else ⟨false, 0, 1⟩).ret = false := by
  split
  next h => exact decide_eq_false fun h' => hann ⟨h, h'⟩
  · rfl

theorem deliver_eq (hlen : payloadEnd s.rest ≤ s.rest.length) (ret : Bool) :
    deliver s lcid ⟨ret, lengthField s.rest, longHeaderLen s.rest⟩ =
      .ok { passOver s (longHeaderLen s.rest) (lengthField s.rest) with
        calls := [⟨.rlcDataInd lcid, s.offset + longHeaderLen s.rest,
          (s.rest.drop (longHeaderLen s.rest)).take (lengthField s.rest)⟩] } := by
  rw [deliver, readRange_ok hlen]

theorem deliver_outOfBounds (hlen : ¬ payloadEnd s.rest ≤ s.rest.length) (ret : Bool) :
    deliver s lcid ⟨ret, lengthField s.rest, longHeaderLen s.rest⟩ =
      .error (.error .outOfBounds) := by
  have hread : readRange s.rest (longHeaderLen s.rest) (lengthField s.rest) =
      .error .outOfBounds := if_neg hlen
  rw [deliver, hread]

theorem Decides.deliver (hk : kindOf s.rest = .ccch ∨ kindOf s.rest = .sdu lcid)
    (hs : AtRest pdu s) (hne : s.rest ≠ []) (hin : SubPduInside env s.view)
    (hends : ¬ Ends env s.view) (hlen : payloadEnd s.rest ≤ s.rest.length) (ret : Bool) (l : ℕ) :
    Decides env pdu s.view (deliver s l ⟨ret, lengthField s.rest, longHeaderLen s.rest⟩) := by
  rw [deliver_eq hlen]
  refine .goes hin hends rfl ?_ ?_ ?_
  · rcases hk with hk | hk <;>
      simp [Handled.total, passOver, subPduLen, hk, DlState.view, payloadEnd]
  · rcases hk with hk | hk <;> simp [passOver, raAfter, hk, DlState.view]
  · intro c hc
    rw [List.mem_singleton.mp hc]
    exact hs.within hne hlen _

theorem ccchCase_decides (hk : kindOf s.rest = .ccch) (hs : AtRest pdu s) (hne : s.rest ≠ []) :
    Decides env pdu s.view (ccchCase s) := by
  have hin : SubPduInside env s.view ↔
      (Announces s.rest → payloadEnd s.rest ≤ s.rest.length) := by
    simp [SubPduInside, DlState.view, hk]
  have hends : Ends env s.view ↔
      ¬ Announces s.rest ∨ (s.rest.take (payloadEnd s.rest)).any (· ≠ 0) = false := by
    simp only [Ends, DlState.view, hk]
  rw [ccchCase, getMacLen_eq]
  by_cases hann : Announces s.rest
  · rw [if_pos hann.1, decide_eq_true hann.2]
    simp only [Bool.true_eq_false, if_false]
    have hscan : allZero s.rest (longHeaderLen s.rest + lengthField s.rest) =
        if (s.rest.take (payloadEnd s.rest)).any (· ≠ 0) = true then .ok false
        else if payloadEnd s.rest ≤ s.rest.length then .ok true else .error .outOfBounds := rfl
    rw [hscan]
    by_cases hlen : payloadEnd s.rest ≤ s.rest.length
    · have hin := hin.mpr fun _ => hlen
      cases hzero : (s.rest.take (payloadEnd s.rest)).any (· ≠ 0) with
      | false =>
        rw [if_neg Bool.false_ne_true, if_pos hlen]
        exact .done hin (hends.mpr (Or.inr hzero)) rfl rfl
      | true =>
        have hgoes : ¬ Ends env s.view := by
          rw [hends, hzero]
          simp [hann]
        rw [if_pos rfl]
        dsimp only
        split
        · exact @Decides.deliver _ _ _ lcidCcch (Or.inl hk) hs hne hin hgoes hlen _ _
        · refine .goes hin hgoes rfl ?_ ?_ (List.forall_mem_nil _)
          · simp [Handled.total, passOver, subPduLen, hk, DlState.view, payloadEnd]
          · simp [passOver, raAfter, hk, DlState.view]
    · -- the scan runs past the end, or the payload given to RLC does
      have hpos : lengthField s.rest > 0 := by
        have := hann.1
        rw [payloadEnd] at hlen
        omega
      have hmiss : Decides env pdu s.view (.error (.error .outOfBounds)) :=
        .missing fun h => hlen (hin.mp h hann)
      cases hzero : (s.rest.take (payloadEnd s.rest)).any (· ≠ 0) with
      | false =>
        rw [if_neg Bool.false_ne_true, if_neg hlen]
        exact hmiss
      | true =>
        rw [if_pos rfl]
        dsimp only
        rw [if_pos hpos, deliver_outOfBounds hlen]
        exact hmiss
  · dsimp only
    rw [if_pos (ret_of_not_announces hann)]
    exact .ends (hin.mpr fun h => absurd h hann) (hends.mpr (Or.inl hann)) inside_assertFatal

theorem sduCase_decides (hk : kindOf s.rest = .sdu lcid) (hs : AtRest pdu s) (hne : s.rest ≠ []) :
    Decides env pdu s.view (sduCase env s lcid) := by
  have hin : SubPduInside env s.view ↔ (env.isLcidSuspended lcid = false → Announces s.rest →
      payloadEnd s.rest ≤ s.rest.length) := by
    simp [SubPduInside, DlState.view, hk]
  have hends : Ends env s.view ↔ ¬ Announces s.rest := by
    simp only [Ends, DlState.view, hk]
  rw [sduCase, getMacLen_eq]
  by_cases hann : Announces s.rest
  · rw [if_pos hann.1, decide_eq_true hann.2]
    have hgoes : ¬ Ends env s.view := fun h => hends.mp h hann
    simp only [Bool.true_eq_false, if_false]
    cases hsusp : env.isLcidSuspended lcid with
    | true =>
      rw [if_pos rfl]
      refine .goes (hin.mpr fun h => by simp [hsusp] at h) hgoes rfl ?_ ?_ (List.forall_mem_nil _)
      · simp [Handled.total, passOver, subPduLen, hk, DlState.view, payloadEnd]
      · simp [passOver, raAfter, hk, DlState.view]
    | false =>
      rw [if_neg Bool.false_ne_true]
      by_cases hlen : payloadEnd s.rest ≤ s.rest.length
      · exact .deliver (Or.inr hk) hs hne (hin.mpr fun _ _ => hlen) hgoes hlen _ _
      · rw [deliver_outOfBounds hlen]
        exact .missing fun h => hlen (hin.mp h hsusp hann)
  · dsimp only
    rw [if_pos (ret_of_not_announces hann)]
    exact .ends (hin.mpr fun _ h => absurd h hann) (hends.mpr hann) inside_return

theorem variableCeCase_decides (hk : kindOf s.rest = .variableCe) :
    Decides env pdu s.view (variableCeCase s) := by
  have hin : SubPduInside env s.view := by simp [SubPduInside, DlState.view, hk]
  have hgoes : ¬ Ends env s.view := by simp [Ends, DlState.view, hk]
  rw [variableCeCase, getMacLen_eq]
  refine .goes hin hgoes rfl ?_ ?_ (List.forall_mem_nil _)
  · have hlen : subPduLen s.rest =
        if longHeaderLen s.rest ≤ s.rest.length then payloadEnd s.rest else 1 := by
      simp only [subPduLen, hk]
    show _ = subPduLen s.rest
    rw [hlen]
    by_cases hhead : longHeaderLen s.rest ≤ s.rest.length
    · rw [if_pos hhead, if_pos hhead]
      rfl
    · rw [if_neg hhead, if_neg hhead]
      rfl
  · simp [passOver, raAfter, hk, DlState.view]

theorem taCommandCase_decides (hk : kindOf s.rest = .taCommand) (hs : AtRest pdu s)
    (hne : s.rest ≠ []) : Decides env pdu s.view (taCommandCase env s) := by
  have hin : SubPduInside env s.view ↔ 2 ≤ s.rest.length := by
    simp [SubPduInside, DlState.view, hk]
  have hends : Ends env s.view ↔ (((s.rest.getD 1 0).toNat / 64 : ℕ) : ℤ) ≠ env.tagId := by
    simp only [Ends, DlState.view, hk]
  rw [taCommandCase]
  by_cases hlen : 2 ≤ s.rest.length
  · have hb : readByte s.rest 1 = .ok (s.rest.getD 1 0).toNat := by
      rw [readByte, List.getD_eq_getElem?_getD, List.getElem?_eq_getElem hlen]
      rfl
    rw [hb, readRange_ok (show 1 + 1 ≤ s.rest.length from hlen)]
    dsimp only
    split
    next htag => exact .done (hin.mpr hlen) (hends.mpr htag) rfl rfl
    next htag =>
      refine .goes (hin.mpr hlen) (fun h => htag (hends.mp h)) rfl ?_ ?_ ?_
      · simp [Handled.total, passOver, subPduLen, hk, DlState.view]
      · simp [passOver, raAfter, hk, DlState.view]
      · intro c hc
        rw [List.mem_singleton.mp hc]
        exact hs.within hne hlen _
  · have hb : readByte s.rest 1 = .error .outOfBounds := by
      rw [readByte, List.getElem?_eq_none (by omega)]
    rw [hb]
    exact .missing fun h => hlen (hin.mp h)

theorem conResIdCase_decides (hk : kindOf s.rest = .conResId) :
    Decides env pdu s.view (conResIdCase env s) := by
  have hin : SubPduInside env s.view ↔
      (s.raState = .waitContentionResolution → ¬ CutOff env s.rest 1) := by
    simp [SubPduInside, DlState.view, hk]
  have hends : Ends env s.view ↔
      s.raState = .waitContentionResolution ∧ Differs env s.rest 1 := by
    simp only [Ends, DlState.view, hk]
  have hlen : ∀ h : Handled, h.macSubheaderLen = 1 → h.macLen = 6 →
      h.total = subPduLen s.view.rest := by
    intro h h1 h2
    simp [Handled.total, h1, h2, subPduLen, hk, DlState.view]
  rw [conResIdCase, checkRaContentionResolution_eq]
  by_cases hwait : s.raState = .waitContentionResolution
  · rw [if_pos hwait]
    by_cases hcut : CutOff env s.rest 1
    · rw [if_pos hcut]
      exact .missing fun h => hin.mp h hwait hcut
    have hin := hin.mpr fun _ => hcut
    rw [if_neg hcut]
    by_cases hdiff : Differs env s.rest 1
    · rw [decide_eq_false (not_not.mpr hdiff)]
      exact .ends hin (hends.mpr ⟨hwait, hdiff⟩) inside_return
    · have hgoes : ¬ Ends env s.view := fun h => hdiff (hends.mp h).2
      rw [decide_eq_true hdiff]
      dsimp only
      split
      next hactive =>
        refine .goes hin hgoes rfl (hlen _ rfl rfl) ?_ (List.forall_mem_nil _)
        simp [raAfter, hk, DlState.view, hwait, hactive]
      next hactive =>
        refine .goes hin hgoes rfl (hlen _ rfl rfl) ?_ (List.forall_mem_nil _)
        simp [raAfter, hk, DlState.view, passOver, hactive]
  · rw [if_neg hwait]
    refine .goes (hin.mpr fun h => absurd h hwait) (fun h => hwait (hends.mp h).1) rfl
      (hlen _ rfl rfl) ?_ (List.forall_mem_nil _)
    simp [raAfter, hk, DlState.view, passOver, hwait]

/-- **The `switch`.** -/
theorem dlCase_decides (hs : AtRest pdu s) (hne : s.rest ≠ []) :
    Decides env pdu s.view (dlCase env s (lcidOf s.rest)) := by
  have hkind : kindOf s.rest = kindOf s.rest := rfl
  conv_rhs at hkind => unfold kindOf
  unfold dlCase
  split
  next h => exact ccchCase_decides (by rw [hkind, if_pos h]) hs hne
  next h₁ =>
  rw [if_neg h₁] at hkind
  split
  next h => exact variableCeCase_decides (by rw [hkind, if_pos h])
  next h₂ =>
  rw [if_neg h₂] at hkind
  split
  next h => exact taCommandCase_decides (by rw [hkind, if_pos h]) hs hne
  next h₃ =>
  rw [if_neg h₃] at hkind
  split
  next h => exact conResIdCase_decides (by rw [hkind, if_pos h])
  next h₄ =>
  rw [if_neg h₄] at hkind
  split
  next h =>
    rw [if_pos h] at hkind
    exact .done (by simp [SubPduInside, DlState.view, hkind])
      (by simp [Ends, DlState.view, hkind]) rfl rfl
  next h₅ =>
  rw [if_neg h₅] at hkind
  split
  next h => exact sduCase_decides (by rw [hkind, if_pos h]) hs hne
  next h =>
    rw [if_neg h] at hkind
    refine .goes (by simp [SubPduInside, DlState.view, hkind])
      (by simp [Ends, DlState.view, hkind]) rfl ?_ ?_ (List.forall_mem_nil _)
    · simp [Handled.total, passOver, subPduLen, DlState.view, hkind]
    · simp [passOver, raAfter, DlState.view, hkind]

end Cases

/-- A good end: no read past the end, and what was given to a function is a part of the PDU. -/
def DlOutcome.Safe (pdu : List UInt8) (o : DlOutcome) : Prop :=
  Inside o.result ∧ ∀ c ∈ o.calls, c.Within pdu

theorem dlStep_follows (env : DlEnv) (pdu : List UInt8) :
    Follows (dlStep env) DlState.view (AtRest pdu) (DlOutcome.Safe pdu) (SubPduInside env)
      (nextSubPdu env) := by
  have hcons : ∀ {s : DlState}, AtRest pdu s → s.rest ≠ [] → ∃ d, Decides env pdu s.view d ∧
      dlStep env s =
        match d with
        | .error result => .stop ⟨result, s.calls⟩
        | .ok h =>
            if h.done = true then .stop ⟨.ok (), s.calls ++ h.calls⟩
            else .go ⟨s.offset + h.total, s.rest.drop h.total, h.raState, h.raActive,
              s.calls ++ h.calls⟩ := by
    intro s hs hne
    refine ⟨_, dlCase_decides hs hne, ?_⟩
    unfold dlStep
    split
    · exact absurd ‹_› hne
    next hrest => simp [lcidOf, hrest]
  refine ⟨?_, ?_, ?_⟩
  · intro s hs hin hnext
    have hends : Ends env s.view := by
      by_contra hgoes
      rw [nextSubPdu, if_neg hgoes] at hnext
      cases hnext
    by_cases hne : s.rest = []
    · rw [dlStep, hne]
      exact ⟨_, rfl, inside_return, hs.calls⟩
    obtain ⟨d, hd, hstep⟩ := hcons hs hne
    rw [hstep]
    cases hd with
    | missing h => exact absurd hin h
    | ends _ _ hr => exact ⟨_, rfl, hr, hs.calls⟩
    | done _ _ hdone hcalls =>
      dsimp only
      rw [if_pos hdone, hcalls, List.append_nil]
      exact ⟨_, rfl, inside_return, hs.calls⟩
    | goes _ h => exact absurd hends h
  · intro s v hs hin hnext
    have hgoes : ¬ Ends env s.view := by
      intro hends
      rw [nextSubPdu, if_pos hends] at hnext
      cases hnext
    rw [nextSubPdu, if_neg hgoes] at hnext
    obtain rfl := Option.some.inj hnext
    have hne : s.rest ≠ [] := by
      intro hnil
      apply hgoes
      rw [DlState.view, hnil]
      exact ends_nil _ _ _
    obtain ⟨d, hd, hstep⟩ := hcons hs hne
    rw [hstep]
    cases hd with
    | missing h => exact absurd hin h
    | ends _ h | done _ h => exact absurd h hgoes
    | goes _ _ hdone htotal hra hcalls =>
      dsimp only
      rw [if_neg (Bool.eq_false_iff.mp hdone)]
      refine ⟨_, rfl, ?_, ?_, List.forall_mem_append.mpr ⟨hs.calls, hcalls⟩⟩
      · rw [DlState.view, htotal, ← hra]
        rfl
      · show List.drop _ _ = pdu.drop _
        rw [hs.rest, List.drop_drop]
  · intro s hs hin
    have hne : s.rest ≠ [] := by
      intro hnil
      apply hin
      rw [DlState.view, hnil]
      exact fun h => absurd h.1 (show ¬ longHeaderLen [] ≤ 0 by decide)
    obtain ⟨d, hd, hstep⟩ := hcons hs hne
    rw [hstep]
    cases hd with
    | missing _ => exact ⟨_, rfl, fun h => h.1.1 rfl⟩
    | ends h | done h | goes h => exact absurd h hin

/-! ### The success RARs -/

/-- What is read of the success RAR at the offset is there, or the second byte of the PDU where they
end. -/
def RarInside (pdu : List UInt8) (s : RarState) : Prop :=
  match if s.more = true then pdu[s.n]? else none with
  | none => 2 ≤ pdu.length
  | some b => b.toNat.testBit 6 = false → b.toNat.testBit 5 = true → s.n + 12 ≤ pdu.length

/-- The success RAR behind; none where they end and at a subheader with T1 = 1, at which the source
stops. -/
def nextRar (env : DlEnv) (pdu : List UInt8) (s : RarState) : Option RarState :=
  match if s.more = true then pdu[s.n]? else none with
  | none => none
  | some b =>
      if b.toNat.testBit 6 = true then none
      else if b.toNat.testBit 5 = true then
        if s.raActive = true ∧ ¬ Differs env pdu (s.n + 1) then
          some ⟨s.n + 12, b.toNat.testBit 7, .succeeded, false⟩
        else some ⟨s.n + 12, b.toNat.testBit 7, s.raState, s.raActive⟩
      else some ⟨s.n + 1, b.toNat.testBit 7, s.raState, s.raActive⟩

/-- The success RARs end here. -/
def RarsEnd (pdu : List UInt8) (s : RarState) : Prop :=
  (if s.more = true then pdu[s.n]? else none) = none

theorem nextRar_decreases {s s' : RarState} (h : nextRar env pdu s = some s') :
    pdu.length - s'.n < pdu.length - s.n := by
  unfold nextRar at h
  split at h
  · cases h
  next b hb =>
    have hn : s.n < pdu.length := by
      split at hb
      · exact (List.getElem?_eq_some_iff.mp hb).1
      · cases hb
    have hlt : s.n < s'.n := by grind
    omega

/-- The loop over the success RARs ends well: it stops where they end, or at T1 = 1. -/
def RarsOk (env : DlEnv) (pdu : List UInt8) (s₀ : RarState) (r : Except ParseFault RarState) :
    Prop :=
  2 ≤ pdu.length ∧ (∃ s, r = .ok s ∧ RarsEnd pdu s ∧ Leads (nextRar env pdu) s₀ s) ∨
    r = .error .assertFatal ∧ ∀ s, Leads (nextRar env pdu) s₀ s → ¬ RarsEnd pdu s

/-- A result of the loop after which a byte past the end has been or will be read. -/
def RarsMiss (pdu : List UInt8) (r : Except ParseFault RarState) : Prop :=
  r = .error .outOfBounds ∨ pdu.length < 2 ∧ ∃ s, r = .ok s

theorem successRarStep_follows (env : DlEnv) (pdu : List UInt8) (s₀ : RarState)
    {Good : Except ParseFault RarState → Prop} (hgood : ∀ r, RarsOk env pdu s₀ r → Good r)
    (hbad : ∀ r, RarsMiss pdu r → ¬ Good r) :
    Follows (successRarStep env pdu) id (Leads (nextRar env pdu) s₀) Good (RarInside pdu)
      (nextRar env pdu) := by
  refine ⟨?_, ?_, ?_⟩
  · intro s hs hin hnext
    rw [id_eq] at hin hnext
    unfold successRarStep
    unfold RarInside at hin
    unfold nextRar at hnext
    split
    next hend =>
      rw [hend] at hin
      exact ⟨_, rfl, hgood _ (Or.inl ⟨hin, s, rfl, hend, hs⟩)⟩
    next b hb =>
      rw [hb] at hnext
      dsimp only at hnext ⊢
      have hT1 : b.toNat.testBit 6 = true := by grind
      rw [if_pos hT1]
      refine ⟨_, rfl, hgood _ (Or.inr ⟨rfl, fun s' hs' hend => ?_⟩)⟩
      -- the way is one: it comes to this subheader, not to an end
      have hstop : nextRar env pdu s = none := by rw [nextRar, hb]; exact if_pos hT1
      have hstop' : nextRar env pdu s' = none := by rw [nextRar, hend]
      obtain rfl := hs.unique hstop hs' hstop'
      rw [RarsEnd, hb] at hend
      cases hend
  · intro s s' hs hin hnext
    rw [id_eq] at hin hnext
    refine ⟨s', ?_, rfl, hs.next hnext⟩
    unfold RarInside at hin
    unfold nextRar at hnext
    unfold successRarStep
    split at hnext
    · cases hnext
    next b hb =>
      rw [hb] at hin
      dsimp only at hin ⊢
      split at hnext
      · cases hnext
      next hT1 =>
      rw [if_neg hT1]
      split at hnext
      next hT2 =>
        have hlen := hin (Bool.eq_false_iff.mpr hT1) hT2
        have hcut : ¬ CutOff env pdu (s.n + 1) := by
          rintro ⟨_, _, hshort⟩
          rw [List.length_drop] at hshort
          omega
        rw [if_pos hT2, readRange_ok (show s.n + 1 + 11 ≤ pdu.length from hlen),
          checkRaContentionResolution_eq, if_neg hcut]
        dsimp only
        simp only [decide_eq_true_eq]
        split at hnext <;> grind
      next hT2 =>
        rw [if_neg hT2]
        grind
  · intro s hs hin
    rw [id_eq] at hin
    unfold RarInside at hin
    unfold successRarStep
    split
    next hend =>
      rw [hend] at hin
      exact ⟨_, rfl, hbad _ (Or.inr ⟨not_le.mp hin, s, rfl⟩)⟩
    next b hb =>
      rw [hb] at hin
      simp only [Classical.not_imp] at hin
      obtain ⟨hT1, hT2, hlen⟩ := hin
      dsimp only
      rw [if_neg (Bool.eq_false_iff.mp hT1), if_pos hT2, readRange,
        if_neg (show ¬ s.n + 1 + 11 ≤ pdu.length from hlen)]
      exact ⟨_, rfl, hbad _ (Or.inl rfl)⟩

/-- **What is read of a PDU is there**: of every success RAR, if the UE waits for a MsgB, and of
every subPDU, from the one behind the success RARs up to the one with which the parser ends. -/
def PduInside (env : DlEnv) (raState : RaState) (raActive : Bool) (pdu : List UInt8) : Prop :=
  if env.ra2Step = true ∧ raState = .waitMsgB then
    Throughout (RarInside pdu) (nextRar env pdu) ⟨0, true, raState, raActive⟩ ∧
    ∀ s, Leads (nextRar env pdu) ⟨0, true, raState, raActive⟩ s → RarsEnd pdu s →
      Throughout (SubPduInside env) (nextSubPdu env) ⟨pdu.drop s.n, s.raState, s.raActive⟩
  else Throughout (SubPduInside env) (nextSubPdu env) ⟨pdu, raState, raActive⟩

variable {raState : RaState} {raActive : Bool}

/-- The subPDUs from a state on. -/
theorem subPdus_iff {n : ℕ} (hs : AtRest pdu s) (hn : s.rest.length < n) :
    DlOutcome.Safe pdu ((iterate (dlStep env) n s).getD ⟨.error .loops, s.calls⟩) ↔
      Throughout (SubPduInside env) (nextSubPdu env) s.view := by
  refine Iff.trans ?_ ((dlStep_follows env pdu).iterate_iff (fun v => v.rest.length)
    (fun _ _ => nextSubPdu_decreases) hs hn)
  cases iterate (dlStep env) n s with
  | none => simp [DlOutcome.Safe, Inside]
  | some o => simp

section Validate

variable {r : Except ParseFault RarState} {t : RarState}
  (hit : iterate (successRarStep env pdu) (pdu.length + 1) ⟨0, true, raState, raActive⟩ = some r)

include hit

theorem validate_ok (hr : r = .ok t) (hlen : 2 ≤ pdu.length) :
    nrUeValidateSuccessrar env raState raActive pdu =
      .ok ⟨t.n, pdu.drop t.n, t.raState, t.raActive,
        [⟨.setTimeAlignment, 1, (pdu.drop 1).take 1⟩]⟩ := by
  rw [nrUeValidateSuccessrar, hit, Option.getD_some, hr, ok_bind,
    readRange_ok (show 1 + 1 ≤ pdu.length from hlen)]
  rfl

theorem validate_short (hr : r = .ok t) (hlen : pdu.length < 2) :
    nrUeValidateSuccessrar env raState raActive pdu = .error .outOfBounds := by
  rw [nrUeValidateSuccessrar, hit, Option.getD_some, hr, ok_bind, readRange,
    if_neg (not_le.mpr hlen)]
  rfl

theorem validate_error {e : ParseFault} (hr : r = .error e) :
    nrUeValidateSuccessrar env raState raActive pdu = .error e := by
  rw [nrUeValidateSuccessrar, hit, Option.getD_some, hr]
  rfl

end Validate

/-- A PDU that begins with success RARs. -/
theorem msgB_iff (hmsgB : env.ra2Step = true ∧ raState = .waitMsgB) :
    DlOutcome.Safe pdu (nrUeProcessMacPdu env raState raActive pdu) ↔
      PduInside env raState raActive pdu := by
  have hfollows := fun Good => @successRarStep_follows env pdu ⟨0, true, raState, raActive⟩ Good
  have hiff := fun Good hgood hbad => (hfollows Good hgood hbad).iterate_iff
    (fun s : RarState => pdu.length - s.n) (fun _ _ => nextRar_decreases) .start
    (Nat.lt_succ_self pdu.length)
  unfold PduInside nrUeProcessMacPdu dlStart
  rw [if_pos hmsgB, if_pos hmsgB]
  by_cases hrars : Throughout (RarInside pdu) (nextRar env pdu) ⟨0, true, raState, raActive⟩
  · have hmiss : ∀ r, RarsMiss pdu r → ¬ RarsOk env pdu ⟨0, true, raState, raActive⟩ r := by
      rintro r (rfl | ⟨hlen, s, rfl⟩) (⟨hlen', _, hr, _⟩ | ⟨hr, _⟩)
      · cases hr
      · cases hr
      · omega
      · cases hr
    obtain ⟨r, hit, hok⟩ := (hiff _ (fun _ h => h) hmiss).mpr hrars
    rcases hok with ⟨hlen, t, hr, hend, hleads⟩ | ⟨hr, hnone⟩
    · rw [validate_ok hit hr hlen]
      dsimp only
      refine (subPdus_iff ⟨rfl, ?_⟩ (Nat.lt_succ_of_le (by simp))).trans
        ⟨fun h => ⟨hrars, fun t' hleads' hend' => ?_⟩, fun h => h.2 t hleads hend⟩
      · intro c hc
        rw [List.mem_singleton.mp hc]
        exact ⟨by simp; omega, by simp⟩
      · have hstop : ∀ s, RarsEnd pdu s → nextRar env pdu s = none := by
          intro s hs
          rw [nextRar, hs]
        obtain rfl := hleads.unique (hstop _ hend) hleads' (hstop _ hend')
        exact h
    · rw [validate_error hit hr]
      exact ⟨fun _ => ⟨hrars, fun t ht hend => absurd hend (hnone t ht)⟩,
        fun _ => ⟨inside_assertFatal, List.forall_mem_nil _⟩⟩
  · refine ⟨fun hsafe => absurd ?_ hrars, fun h => absurd h.1 hrars⟩
    refine (hiff (fun r => ¬ RarsMiss pdu r) ?_ (fun _ h h' => h' h)).mp ?_
    · rintro r (⟨hlen, s, rfl, _⟩ | ⟨rfl, _⟩) (hr | ⟨hlen', _, hr⟩)
      · cases hr
      · omega
      · cases hr
      · cases hr
    · cases hit : iterate (successRarStep env pdu) (pdu.length + 1) ⟨0, true, raState, raActive⟩ with
      | none =>
        rw [nrUeValidateSuccessrar, hit] at hsafe
        exact absurd rfl hsafe.1.2
      | some r =>
        refine ⟨r, rfl, ?_⟩
        rintro (hr | ⟨hlen, t, hr⟩)
        · rw [validate_error hit hr] at hsafe
          exact hsafe.1.1 rfl
        · rw [validate_short hit hr hlen] at hsafe
          exact hsafe.1.1 rfl

/-- **When the parser is memory safe.**  It returns, it reads no byte past the end of the PDU, and
what it gives to RLC is a part of the PDU, exactly if what is read of the PDU is there. -/
theorem dlParser_memorySafe (env : DlEnv) (raState : RaState) (raActive : Bool)
    (pdu : List UInt8) :
    (Inside (nrUeProcessMacPdu env raState raActive pdu).result ∧
      ∀ c ∈ (nrUeProcessMacPdu env raState raActive pdu).calls, c.Within pdu) ↔
    PduInside env raState raActive pdu := by
  by_cases hmsgB : env.ra2Step = true ∧ raState = .waitMsgB
  · exact msgB_iff hmsgB
  · rw [PduInside, if_neg hmsgB, nrUeProcessMacPdu, dlStart, if_neg hmsgB]
    exact subPdus_iff (s := ⟨0, pdu, raState, raActive, []⟩) ⟨rfl, List.forall_mem_nil _⟩
      (Nat.lt_succ_self pdu.length)

/-- A UE in connected mode, for fixed inputs. -/
def plainEnv : DlEnv :=
  { ra2Step := false
    iqPlayer := false
    contResId := #v[1, 2, 3, 4, 5, 6]
    tagId := 0
    isLcidSuspended := fun _ => false }

/-- A contention resolution identity that is waited for, an SDU of two bytes on LCID 4, a timing
advance command, padding. -/
theorem dlParser_memorySafe_sdu :
    Inside (nrUeProcessMacPdu plainEnv .waitContentionResolution true
        [0x3e, 1, 2, 3, 4, 5, 6, 0x04, 2, 0xaa, 0xbb, 0x3d, 31, 0x3f]).result ∧
      ∀ c ∈ (nrUeProcessMacPdu plainEnv .waitContentionResolution true
        [0x3e, 1, 2, 3, 4, 5, 6, 0x04, 2, 0xaa, 0xbb, 0x3d, 31, 0x3f]).calls,
        c.Within [0x3e, 1, 2, 3, 4, 5, 6, 0x04, 2, 0xaa, 0xbb, 0x3d, 31, 0x3f] :=
  (dlParser_memorySafe plainEnv .waitContentionResolution true _).mpr
    (throughout_of_check 5 (by decide +kernel))

/-- **A payload ends behind the PDU.**  The length field of the SDU says two bytes, and one is left:
two is not more than the three bytes of the PDU. -/
theorem not_dlParser_memorySafe :
    ¬ ∀ (env : DlEnv) (raState : RaState) (raActive : Bool) (pdu : List UInt8), pdu ≠ [] →
      Inside (nrUeProcessMacPdu env raState raActive pdu).result ∧
        ∀ c ∈ (nrUeProcessMacPdu env raState raActive pdu).calls, c.Within pdu := by
  intro hall
  exact (hall plainEnv .succeeded false [0x04, 2, 0xaa] (by decide)).1.1 rfl

theorem dlCase_pos {s : DlState} {lcid : ℕ} {h : Handled} (hcase : dlCase env s lcid = .ok h) :
    1 ≤ h.macSubheaderLen := by
  obtain ⟨len, hlen, hpos⟩ : ∃ len, getMacLen s.rest = .ok len ∧ 1 ≤ len.macSubheaderLen := by
    refine ⟨_, getMacLen_eq s.rest, ?_⟩
    split
    · show 1 ≤ longHeaderLen s.rest
      rw [longHeaderLen]
      split <;> decide
    · exact le_rfl
  grind [dlCase, ccchCase, variableCeCase, taCommandCase, conResIdCase, sduCase, deliver, passOver]

theorem dlStep_decreases {s s' : DlState} (h : dlStep env s = .go s') :
    s'.rest.length < s.rest.length := by
  grind [dlStep, dlCase_pos, Handled.total]

theorem dlCase_sdu {lcid : ℕ} (h : IsSdu lcid) (env : DlEnv) (s : DlState) :
    dlCase env s lcid = sduCase env s lcid := by
  have hne : ∀ n, n = 0 ∨ 33 ≤ n → lcid ≠ n := by
    intro n hn heq
    have := h.1
    have := h.2
    omega
  have hvar : ¬ IsVariableCe lcid := by
    intro hmem
    have hlarge : ∀ n ∈ [lcidTciStateActUeSpecPdsch, lcidAperiodicCsiTriStateSubsel,
        lcidSpCsiRsCsiImResSetAct, lcidSpSrsActivation], 33 ≤ n := by decide
    exact hne lcid (.inr (hlarge lcid hmem)) rfl
  rw [dlCase, if_neg (hne lcidCcch (.inl rfl)), if_neg hvar,
    if_neg (hne lcidTaCommand (.inr (by decide))), if_neg (hne lcidConResId (.inr (by decide))),
    if_neg (hne lcidPadding (.inr (by decide))), if_pos h]

end OaiGnb.Mac.DlPdu
