import OaiGnb.Lib.Loop
import OaiGnb.Lib.Run
import Mathlib.Data.List.Basic

/-!
# Uplink MAC PDUs at the gNB

`decode_ul_mac_sub_pdu_header`, `lcid_crnti_lookahead` and `nr_process_mac_pdu` of
`gNB_scheduler_ulsch.c`.  The rest of a PDU is a list of bytes; a read past its end is a fault.

The subheader is decoded before the rest is known to be long enough for it, and a long BSR has as
many octets as its bitmap says, whatever its length field says.

* `SubPduComplete`: the bytes of one subPDU that are read are there.
* `parsers_memorySafe`: the parsers return and stay inside exactly on the PDUs whose subPDUs are
  complete, up to the one at which they end.
-/

namespace OaiGnb.Mac.UlPdu

open Loop Run

/-- How a parser can fail. -/
inductive ParseFault where
  | outOfBounds
  | assertFatal
  | loops
  deriving Repr, DecidableEq

/-- `pdu[i]`. -/
def readByte (rest : List UInt8) (i : ℕ) : Except ParseFault ℕ :=
  match rest[i]? with
  | none => .error .outOfBounds
  | some b => .ok b.toNat

/-- The bytes from `i` on, `n` of them. -/
def readRange (rest : List UInt8) (i n : ℕ) : Except ParseFault (List UInt8) :=
  if i + n ≤ rest.length then .ok ((rest.drop i).take n) else .error .outOfBounds

/-! ### Subheaders -/

/-- `UL_SCH_LCID_CCCH_64_BITS`. -/
def lcidCcch64Bits : ℕ := 0x00

/-- `UL_SCH_LCID_SRB1`. -/
def lcidSrb1 : ℕ := 0x01

/-- `UL_SCH_LCID_SRB2`. -/
def lcidSrb2 : ℕ := 0x02

/-- `UL_SCH_LCID_DTCH`. -/
def lcidDtch : ℕ := 0x04

/-- `UL_SCH_LCID_CCCH_48_BITS_REDCAP`. -/
def lcidCcch48BitsRedcap : ℕ := 0x23

/-- `UL_SCH_LCID_CCCH_48_BITS`. -/
def lcidCcch48Bits : ℕ := 0x34

/-- `UL_SCH_LCID_RECOMMENDED_BITRATE_QUERY`. -/
def lcidRecommendedBitrateQuery : ℕ := 0x35

/-- `UL_SCH_LCID_MULTI_ENTRY_PHR_4_OCT`. -/
def lcidMultiEntryPhr4Oct : ℕ := 0x36

/-- `UL_SCH_LCID_CONFIGURED_GRANT_CONFIRMATION`. -/
def lcidConfiguredGrantConfirmation : ℕ := 0x37

/-- `UL_SCH_LCID_MULTI_ENTRY_PHR_1_OCT`. -/
def lcidMultiEntryPhr1Oct : ℕ := 0x38

/-- `UL_SCH_LCID_SINGLE_ENTRY_PHR`. -/
def lcidSingleEntryPhr : ℕ := 0x39

/-- `UL_SCH_LCID_C_RNTI`. -/
def lcidCRnti : ℕ := 0x3A

/-- `UL_SCH_LCID_S_TRUNCATED_BSR`. -/
def lcidSTruncatedBsr : ℕ := 0x3B

/-- `UL_SCH_LCID_L_TRUNCATED_BSR`. -/
def lcidLTruncatedBsr : ℕ := 0x3C

/-- `UL_SCH_LCID_S_BSR`. -/
def lcidSBsr : ℕ := 0x3D

/-- `UL_SCH_LCID_L_BSR`. -/
def lcidLBsr : ℕ := 0x3E

/-- `UL_SCH_LCID_PADDING`. -/
def lcidPadding : ℕ := 0x3F

/-- The logical channels of data: SRB1, SRB2 and `UL_SCH_LCID_DTCH ...(UL_SCH_LCID_DTCH + 28)`. -/
def IsData (lcid : ℕ) : Prop :=
  lcid = lcidSrb1 ∨ lcid = lcidSrb2 ∨ (lcidDtch ≤ lcid ∧ lcid ≤ lcidDtch + 28)

instance (lcid : ℕ) : Decidable (IsData lcid) := by unfold IsData; infer_instance

/-- The long BSRs. -/
def IsLongBsr (lcid : ℕ) : Prop := lcid = lcidLTruncatedBsr ∨ lcid = lcidLBsr

instance (lcid : ℕ) : Decidable (IsLongBsr lcid) := by unfold IsLongBsr; infer_instance

/-- The length of a subPDU without a length field; 0 if the LCID is not known. -/
def fixedLength (lcid : ℕ) : ℕ :=
  if lcid = lcidCcch64Bits then 8
  else if lcid = lcidCcch48BitsRedcap ∨ lcid = lcidCcch48Bits then 6
  else if lcid = lcidSingleEntryPhr ∨ lcid = lcidCRnti then 2
  else if lcid = lcidSTruncatedBsr ∨ lcid = lcidSBsr then 1
  else 0

/-- A decoded subheader. -/
structure SubHeader where
  lcid : ℕ
  macSubheaderLen : ℕ
  macLen : ℕ
  deriving Repr, DecidableEq

/-- `decode_ul_mac_sub_pdu_header`. -/
def decodeUlMacSubPduHeader (rest : List UInt8) : Except ParseFault SubHeader := do
  let b₀ ← readByte rest 0
  let lcid := b₀ % 64
  if IsData lcid ∨ IsLongBsr lcid then
    let b₁ ← readByte rest 1
    if b₀.testBit 6 then do
      let b₂ ← readByte rest 2
      return ⟨lcid, 3, b₁ * 256 + b₂⟩
    else return ⟨lcid, 2, b₁⟩
  else return ⟨lcid, 1, fixedLength lcid⟩

/-- The total length of a subPDU. -/
def SubHeader.total (h : SubHeader) : ℕ := h.macSubheaderLen + h.macLen

/-! ### Looking for a C-RNTI -/

/-- One iteration of `lcid_crnti_lookahead`. -/
def lookaheadStep (rest : List UInt8) : Next (List UInt8) (Except ParseFault ℕ) :=
  if rest = [] then .stop (.ok 0)
  else
    match decodeUlMacSubPduHeader rest with
    | .error e => .stop (.error e)
    | .ok h =>
        if h.total > rest.length then
          -- the first bytes of the invalid rest are printed
          .stop ((readRange rest 0 (min 30 rest.length)).map fun _ => 0)
        else if h.lcid = lcidCRnti then
          .stop do
            let b₁ ← readByte rest 1
            let b₂ ← readByte rest 2
            return b₁ * 256 + b₂
        else if h.lcid = lcidPadding then .stop (.ok 0)
        else .go (rest.drop h.total)

/-- `lcid_crnti_lookahead`. -/
def lcidCrntiLookahead (pdu : List UInt8) : Except ParseFault ℕ :=
  (iterate lookaheadStep (pdu.length + 1) pdu).getD (.error .loops)

/-! ### Processing a PDU -/

/-- What `nr_process_mac_pdu` finds in the UE and in the functions it calls. -/
structure PduEnv where
  /-- `UE->CellGroup` is set. -/
  cellGroup : Bool
  /-- `nr_mac_get_lc_config`: whether the channel is suspended. -/
  lcConfig : ℕ → Option Bool
  /-- What the calls of `prepare_initial_ul_rrc_message` return. -/
  prepareInitialUlRrcMessage : ℕ → Bool
  harqPid : ℤ
  /-- `UE->ra` is set and its state is `nrRA_gNB_IDLE`. -/
  raIdle : Bool
  /-- `compute_ph_factor` for the PUSCH of the process. -/
  computePhFactor : ℤ
  getShortBsrValue : ℕ → ℤ
  getLongBsrValue : ℕ → ℤ

/-- The UE's state that a PDU changes; `initialMessages` counts the initial messages. -/
structure UlUe where
  isRedcap : Bool
  initialMessages : ℕ
  estimatedUlBuffer : ℤ
  schedUlBytes : ℤ
  ph : ℤ
  ph0 : ℤ
  pcmax : ℤ
  deriving Repr, DecidableEq

/-- The functions that are given a part of the PDU. -/
inductive Handler where
  | rlcDataInd (lcid : ℕ)
  | phr
  | shortBsr
  | longBsr
  deriving Repr, DecidableEq

/-- A part of the PDU that is given to a function: where it begins and its bytes. -/
structure Call where
  handler : Handler
  offset : ℕ
  bytes : List UInt8
  deriving Repr, DecidableEq

/-- `overestim_bsr_index` and the limit of the table. -/
def estimIndex (repIdx max : ℕ) : ℕ := min (if repIdx > 0 then repIdx + 1 else repIdx) max

/-- `estimate_ul_buffer_short_bsr`. -/
def estimateUlBufferShortBsr (env : PduEnv) (b : ℕ) : ℤ :=
  env.getShortBsrValue (estimIndex (b % 32) 31)

/-- The LCGs that the bitmap of a long BSR says are active. -/
def activeLcgs (bitmap : ℕ) : List ℕ := (List.range 8).filter fun n => bitmap.testBit n

/-- The buffer size that the octets of a long BSR say, its bitmap being the first. -/
def longBsrSize (env : PduEnv) (bytes : List UInt8) : ℤ :=
  ((bytes.drop 1).map fun b => env.getLongBsrValue (estimIndex b.toNat 255)).sum

/-- `estimate_ul_buffer_long_bsr`: the bytes it reads and its result. -/
def estimateUlBufferLongBsr (env : PduEnv) (rest : List UInt8) (ce : ℕ) :
    Except ParseFault (List UInt8 × ℤ) := do
  let bitmap ← readByte rest ce
  let bytes ← readRange rest ce (1 + (activeLcgs bitmap).length)
  return (bytes, longBsrSize env bytes)

/-- The power headroom in dB of a PHR field. -/
def powerHeadroom (field : ℕ) : ℤ :=
  if field < 55 then field - 32 else if field < 63 then 24 + (field - 55) * 2 else 38

/-- A parser's state: the offset of the rest of the PDU, the rest, the UE, the calls made. -/
structure ParseState where
  offset : ℕ
  rest : List UInt8
  ue : UlUe
  calls : List Call

/-- What a PDU comes to: the value returned or a fault, the UE and the calls made. -/
structure Outcome where
  result : Except ParseFault ℤ
  ue : UlUe
  calls : List Call

/-- The `case` of an SDU on a channel of data. -/
def dataSdu (env : PduEnv) (s : ParseState) (h : SubHeader) :
    Except (Except ParseFault ℤ) (UlUe × List Call) :=
  if h.lcid < lcidDtch ∧ env.cellGroup = false then .error (.error .assertFatal)
  else
    match env.lcConfig h.lcid with
    | some false =>
        match readRange s.rest h.macSubheaderLen h.macLen with
        | .error e => .error (.error e)
        | .ok bytes =>
            .ok (if h.lcid < lcidDtch then s.ue
              else { s.ue with estimatedUlBuffer := max 0 (s.ue.estimatedUlBuffer - h.macLen) },
              [⟨.rlcDataInd h.lcid, s.offset + h.macSubheaderLen, bytes⟩])
    | _ => .ok (s.ue, [])

/-- The `case` of an SDU on the CCCH. -/
def ccchSdu (env : PduEnv) (s : ParseState) (h : SubHeader) :
    Except (Except ParseFault ℤ) (UlUe × List Call) :=
  match readRange s.rest 0 h.total, readRange s.rest h.macSubheaderLen h.macLen with
  | .ok all, .ok bytes =>
      if h.lcid = lcidCcch64Bits ∧ all.all (· = 0) = true then .error (.ok 0)
      else
        let ue := { s.ue with
          isRedcap := s.ue.isRedcap || decide (h.lcid = lcidCcch48BitsRedcap)
          initialMessages := s.ue.initialMessages + 1 }
        .ok (ue,
          if env.prepareInitialUlRrcMessage s.ue.initialMessages = true then
            [⟨.rlcDataInd 0, s.offset + h.macSubheaderLen, bytes⟩]
          else [])
  | _, _ => .error (.error .outOfBounds)

/-- The `case` of a single entry PHR. -/
def singleEntryPhr (env : PduEnv) (s : ParseState) (h : SubHeader) :
    Except (Except ParseFault ℤ) (UlUe × List Call) :=
  if env.harqPid < 0 then .error (.ok 0)
  else
    match readByte s.rest h.macSubheaderLen, readByte s.rest (h.macSubheaderLen + 1),
      readRange s.rest h.macSubheaderLen 2 with
    | .ok b₀, .ok b₁, .ok bytes =>
        let ph := powerHeadroom (b₀ % 64)
        .ok ({ s.ue with ph := ph + env.computePhFactor, ph0 := ph, pcmax :=
          ((b₁ % 64 : ℕ) : ℤ) - 29 },
          [⟨.phr, s.offset + h.macSubheaderLen, bytes⟩])
    | _, _, _ => .error (.error .outOfBounds)

/-- The `switch` of `nr_process_mac_pdu`: the UE and the calls, or the result if it returns. -/
def dispatch (env : PduEnv) (s : ParseState) (h : SubHeader) :
    Except (Except ParseFault ℤ) (UlUe × List Call) :=
  if h.lcid = lcidCcch64Bits ∨ h.lcid = lcidCcch48BitsRedcap ∨ h.lcid = lcidCcch48Bits then
    ccchSdu env s h
  else if IsData h.lcid then dataSdu env s h
  else if h.lcid = lcidRecommendedBitrateQuery ∨ h.lcid = lcidMultiEntryPhr4Oct
      ∨ h.lcid = lcidConfiguredGrantConfirmation ∨ h.lcid = lcidMultiEntryPhr1Oct then
    .ok (s.ue, [])
  else if h.lcid = lcidSingleEntryPhr then singleEntryPhr env s h
  else if h.lcid = lcidCRnti then
    if env.raIdle = true then .error (.error .assertFatal) else .ok (s.ue, [])
  else if h.lcid = lcidSTruncatedBsr ∨ h.lcid = lcidSBsr then
    match readByte s.rest h.macSubheaderLen, readRange s.rest h.macSubheaderLen 1 with
    | .ok b, .ok bytes =>
        .ok ({ s.ue with estimatedUlBuffer := estimateUlBufferShortBsr env b, schedUlBytes := 0 },
          [⟨.shortBsr, s.offset + h.macSubheaderLen, bytes⟩])
    | _, _ => .error (.error .outOfBounds)
  else if IsLongBsr h.lcid then
    match estimateUlBufferLongBsr env s.rest h.macSubheaderLen with
    | .ok (bytes, size) =>
        .ok ({ s.ue with estimatedUlBuffer := size, schedUlBytes := 0 },
          [⟨.longBsr, s.offset + h.macSubheaderLen, bytes⟩])
    | .error e => .error (.error e)
  else if h.lcid = lcidPadding then .error (.ok 0)
  else .error (.ok (-1))

/-- One iteration of `nr_process_mac_pdu`. -/
def processStep (env : PduEnv) (s : ParseState) : Next ParseState Outcome :=
  if s.rest = [] then .stop ⟨.ok 0, s.ue, s.calls⟩
  else
    match decodeUlMacSubPduHeader s.rest with
    | .error e => .stop ⟨.error e, s.ue, s.calls⟩
    | .ok h =>
        if h.total > s.rest.length then
          -- the first bytes of the invalid rest are printed
          .stop ⟨(readRange s.rest 0 (min 30 s.rest.length)).map fun _ => 0, s.ue, s.calls⟩
        else
          match dispatch env s h with
          | .error result => .stop ⟨result, s.ue, s.calls⟩
          | .ok (ue, calls) =>
              .go ⟨s.offset + h.total, s.rest.drop h.total, ue, s.calls ++ calls⟩

/-- `nr_process_mac_pdu`; the first byte is read to decide whether the PDU is traced. -/
def nrProcessMacPdu (env : PduEnv) (ue : UlUe) (pdu : List UInt8) : Outcome :=
  match readByte pdu 0 with
  | .error e => ⟨.error e, ue, []⟩
  | .ok _ =>
      (iterate (processStep env) (pdu.length + 1) ⟨0, pdu, ue, []⟩).getD ⟨.error .loops, ue, []⟩

/-! ### Reads -/

variable {rest : List UInt8} {i : ℕ} {ue : UlUe}

theorem readByte_ok (h : i < rest.length) :
    ∃ b, readByte rest i = .ok b := by
  refine ⟨rest[i].toNat, ?_⟩
  rw [readByte, List.getElem?_eq_getElem h]

theorem readRange_ok {n : ℕ} (h : i + n ≤ rest.length) :
    readRange rest i n = .ok ((rest.drop i).take n) := if_pos h

/-- The length of a subheader, by its first byte. -/
def subheaderLen (b₀ : ℕ) : ℕ :=
  if IsData (b₀ % 64) ∨ IsLongBsr (b₀ % 64) then if b₀.testBit 6 then 3 else 2 else 1

/-- The length of the payload that the subheader says. -/
def payloadLen : List UInt8 → ℕ
  | [] => 0
  | b :: tl =>
      if IsData (b.toNat % 64) ∨ IsLongBsr (b.toNat % 64) then
        if b.toNat.testBit 6 then (tl.getD 0 0).toNat * 256 + (tl.getD 1 0).toNat
        else (tl.getD 0 0).toNat
      else fixedLength (b.toNat % 64)

/-- The length of the subPDU. -/
def subPduLen (rest : List UInt8) : ℕ := subheaderLen (rest.headD 0).toNat + payloadLen rest

/-- The LCID of the subPDU. -/
def lcidOf (rest : List UInt8) : ℕ := (rest.headD 0).toNat % 64

/-- The subheader is in the rest of the PDU. -/
def HeaderComplete (rest : List UInt8) : Prop :=
  rest = [] ∨ subheaderLen (rest.headD 0).toNat ≤ rest.length

instance (rest : List UInt8) : Decidable (HeaderComplete rest) := by
  unfold HeaderComplete
  infer_instance

/-- If the rest begins with a long BSR, then it has the octets that the bitmap says. -/
def LongBsrComplete (rest : List UInt8) : Prop :=
  rest ≠ [] → IsLongBsr (lcidOf rest) → subPduLen rest ≤ rest.length →
    match rest[subheaderLen (rest.headD 0).toNat]? with
    | none => False
    | some bitmap => subheaderLen (rest.headD 0).toNat + (1 + (activeLcgs bitmap.toNat).length)
        ≤ rest.length

instance (rest : List UInt8) : Decidable (LongBsrComplete rest) := by
  refine @instDecidableForall _ _ _ (@instDecidableForall _ _ _ (@instDecidableForall _ _ _ ?_))
  split <;> infer_instance

/-- The header of the subPDU, where it is complete. -/
def headerOf (rest : List UInt8) : SubHeader :=
  ⟨lcidOf rest, subheaderLen (rest.headD 0).toNat, payloadLen rest⟩

theorem decode_eq (hne : rest ≠ []) (h : HeaderComplete rest) :
    decodeUlMacSubPduHeader rest = .ok (headerOf rest) := by
  obtain ⟨b, tl, rfl⟩ := List.exists_cons_of_ne_nil hne
  have hlen : subheaderLen b.toNat ≤ (b :: tl).length := h.resolve_left hne
  have hread : readByte (b :: tl) 0 = .ok b.toNat := rfl
  have hheader : headerOf (b :: tl) =
      ⟨b.toNat % 64, subheaderLen b.toNat, payloadLen (b :: tl)⟩ := rfl
  rw [decodeUlMacSubPduHeader, hread, ok_bind, hheader]
  unfold payloadLen
  unfold subheaderLen at hlen ⊢
  by_cases hvar : IsData (b.toNat % 64) ∨ IsLongBsr (b.toNat % 64)
  · rw [if_pos hvar] at hlen
    by_cases hlong : b.toNat.testBit 6 = true
    · rcases tl with _ | ⟨b₁, _ | ⟨b₂, tl⟩⟩
      all_goals simp_all [readByte, ok_bind]
    · rcases tl with _ | ⟨b₁, tl⟩
      all_goals simp_all [readByte, ok_bind]
  · simp_all

theorem decode_error (h : ¬ HeaderComplete rest) :
    decodeUlMacSubPduHeader rest = .error .outOfBounds := by
  rw [HeaderComplete, not_or] at h
  obtain ⟨b, tl, rfl⟩ := List.exists_cons_of_ne_nil h.1
  have hlen : ¬ subheaderLen b.toNat ≤ (b :: tl).length := h.2
  have hread : readByte (b :: tl) 0 = .ok b.toNat := rfl
  rw [decodeUlMacSubPduHeader, hread, ok_bind]
  unfold subheaderLen at hlen
  by_cases hvar : IsData (b.toNat % 64) ∨ IsLongBsr (b.toNat % 64)
  · by_cases hlong : b.toNat.testBit 6 = true
    · rcases tl with _ | ⟨b₁, _ | ⟨b₂, tl⟩⟩
      all_goals simp_all [readByte, error_bind, ok_bind]
    · rcases tl with _ | ⟨b₁, tl⟩
      all_goals simp_all [readByte, error_bind]
  · simp_all

theorem subPduLen_pos : 0 < subPduLen rest := by
  unfold subPduLen subheaderLen
  grind

theorem fixed_header (h : ¬ (IsData (lcidOf rest) ∨ IsLongBsr (lcidOf rest))) (hne : rest ≠ []) :
    (headerOf rest).macSubheaderLen = 1 ∧ (headerOf rest).macLen = fixedLength (lcidOf rest) := by
  obtain ⟨b, tl, rfl⟩ := List.exists_cons_of_ne_nil hne
  have h : ¬ (IsData (b.toNat % 64) ∨ IsLongBsr (b.toNat % 64)) := h
  exact ⟨if_neg h, if_neg h⟩

/-! ### Memory safety -/

/-- A result other than a read past the end. -/
def Inside {α : Type} (r : Except ParseFault α) : Prop :=
  r ≠ .error .outOfBounds ∧ r ≠ .error .loops

/-- A part of the PDU. -/
def Call.Within (pdu : List UInt8) (c : Call) : Prop :=
  c.offset + c.bytes.length ≤ pdu.length ∧ c.bytes = (pdu.drop c.offset).take c.bytes.length

/-- A parser's state is about the rest of the PDU. -/
structure AtRest (pdu : List UInt8) (s : ParseState) : Prop where
  offset : s.offset ≤ pdu.length
  rest : s.rest = pdu.drop s.offset
  calls : ∀ c ∈ s.calls, c.Within pdu

variable {pdu : List UInt8}

theorem AtRest.within {s : ParseState} (h : AtRest pdu s) {n : ℕ}
    (hlen : i + n ≤ s.rest.length) (handler : Handler) :
    (⟨handler, s.offset + i, (s.rest.drop i).take n⟩ : Call).Within pdu := by
  have hoff := h.offset
  rw [h.rest, List.length_drop] at hlen
  have hbytes : ((s.rest.drop i).take n).length = n := by
    rw [h.rest, List.length_take, List.length_drop, List.length_drop]
    omega
  refine ⟨?_, ?_⟩
  · grind
  · show (s.rest.drop i).take n
      = (pdu.drop (s.offset + i)).take ((s.rest.drop i).take n).length
    rw [hbytes, h.rest, List.drop_drop]

/-- What the `switch` does with a subPDU that is in the rest: it does not read past the end, what it
gives to a function is a part of the PDU, and it returns if `ends` says so. -/
structure DispatchSafe (pdu : List UInt8) (ends : Prop)
    (d : Except (Except ParseFault ℤ) (UlUe × List Call)) : Prop where
  stop : ∀ r, d = .error r → Inside r
  calls : ∀ ue calls, d = .ok (ue, calls) → ∀ c ∈ calls, c.Within pdu
  ends_iff : (∃ r, d = .error r) ↔ ends

variable {ends : Prop}

theorem DispatchSafe.ok {calls : List Call} (hends : ¬ ends)
    (h : ∀ c ∈ calls, c.Within pdu) : DispatchSafe pdu ends (.ok (ue, calls)) := by
  refine ⟨fun _ hr => (by cases hr), ?_, ⟨fun ⟨_, hr⟩ => (by cases hr), fun h => absurd h hends⟩⟩
  simp_all

theorem DispatchSafe.error {r : Except ParseFault ℤ} (hends : ends) (h : Inside r) :
    DispatchSafe pdu ends (.error r) := by
  refine ⟨?_, fun _ _ heq => (by cases heq), ⟨fun _ => hends, fun _ => ⟨r, rfl⟩⟩⟩
  simp_all

theorem inside_ok {α : Type} (v : α) : Inside (.ok v : Except ParseFault α) :=
  ⟨fun h => (by cases h), fun h => (by cases h)⟩

theorem inside_assert : Inside (.error .assertFatal : Except ParseFault ℤ) :=
  ⟨fun h => (by cases h), fun h => (by cases h)⟩

section Dispatch

variable {env : PduEnv} {pdu : List UInt8} {s : ParseState} {h : SubHeader} {ends : Prop}

theorem dataSdu_safe (hs : AtRest pdu s) (hfits : h.total ≤ s.rest.length)
    (hends : ends ↔ h.lcid < lcidDtch ∧ env.cellGroup = false) :
    DispatchSafe pdu ends (dataSdu env s h) := by
  unfold dataSdu
  split
  next hfatal => exact .error (hends.mpr hfatal) inside_assert
  next hgoes =>
    split
    · rw [readRange_ok hfits]
      refine .ok (fun he => hgoes (hends.mp he)) ?_
      intro c hc
      rw [List.mem_singleton.mp hc]
      exact hs.within hfits _
    · exact .ok (fun he => hgoes (hends.mp he)) fun _ hc => absurd hc List.not_mem_nil

theorem ccchSdu_safe (hs : AtRest pdu s) (hfits : h.total ≤ s.rest.length)
    (hends : ends ↔ h.lcid = lcidCcch64Bits ∧ (s.rest.take h.total).all (· = 0) = true) :
    DispatchSafe pdu ends (ccchSdu env s h) := by
  unfold ccchSdu
  rw [readRange_ok (show 0 + h.total ≤ s.rest.length by omega), readRange_ok hfits]
  dsimp only
  split
  next hzero => exact .error (hends.mpr hzero) (inside_ok 0)
  next hgoes =>
    refine .ok (fun he => hgoes (hends.mp he)) ?_
    intro c hc
    split at hc
    · rw [List.mem_singleton.mp hc]
      exact hs.within hfits _
    · exact absurd hc List.not_mem_nil

theorem singleEntryPhr_safe (hs : AtRest pdu s) (hlen : h.macLen = 2)
    (hfits : h.total ≤ s.rest.length) (hends : ends ↔ env.harqPid < 0) :
    DispatchSafe pdu ends (singleEntryPhr env s h) := by
  have hfits : h.macSubheaderLen + 2 ≤ s.rest.length := hlen ▸ hfits
  unfold singleEntryPhr
  split
  next hpid => exact .error (hends.mpr hpid) (inside_ok 0)
  next hpid =>
    obtain ⟨b₀, h₀⟩ := readByte_ok (show h.macSubheaderLen < s.rest.length by omega)
    obtain ⟨b₁, h₁⟩ := readByte_ok (show h.macSubheaderLen + 1 < s.rest.length by omega)
    rw [h₀, h₁, readRange_ok hfits]
    refine .ok (fun he => hpid (hends.mp he)) ?_
    intro c hc
    rw [List.mem_singleton.mp hc]
    exact hs.within hfits _

theorem estimateUlBufferLongBsr_eq (env : PduEnv) (hne : rest ≠ []) (hlong : IsLongBsr (lcidOf rest))
    (hfits : subPduLen rest ≤ rest.length) :
    (LongBsrComplete rest → ∃ n, (headerOf rest).macSubheaderLen + n ≤ rest.length ∧
      estimateUlBufferLongBsr env rest (headerOf rest).macSubheaderLen
        = .ok ((rest.drop (headerOf rest).macSubheaderLen).take n,
            longBsrSize env ((rest.drop (headerOf rest).macSubheaderLen).take n))) ∧
    (¬ LongBsrComplete rest →
      estimateUlBufferLongBsr env rest (headerOf rest).macSubheaderLen = .error .outOfBounds) := by
  have hiff : LongBsrComplete rest ↔ match rest[(headerOf rest).macSubheaderLen]? with
      | none => False
      | some bitmap => (headerOf rest).macSubheaderLen + (1 + (activeLcgs bitmap.toNat).length)
          ≤ rest.length := ⟨fun h => h hne hlong hfits, fun h _ _ _ => h⟩
  rw [hiff]
  cases hbitmap : rest[(headerOf rest).macSubheaderLen]? with
  | none =>
    simp [readByte, hbitmap, estimateUlBufferLongBsr, error_bind]
  | some bitmap =>
    refine ⟨fun hc => ⟨_, hc, ?_⟩, fun hc => ?_⟩
    · simp [readByte, hbitmap, estimateUlBufferLongBsr, ok_bind, readRange_ok hc]
    · simp [readByte, hbitmap, estimateUlBufferLongBsr, ok_bind, error_bind, readRange, hc]

/-- The LCIDs with a `case` of their own at which `nr_process_mac_pdu` does not return. -/
def Known (lcid : ℕ) : Prop :=
  IsData lcid ∨ IsLongBsr lcid ∨ lcid ∈ [lcidCcch64Bits, lcidCcch48BitsRedcap, lcidCcch48Bits,
    lcidRecommendedBitrateQuery, lcidMultiEntryPhr4Oct, lcidConfiguredGrantConfirmation,
    lcidMultiEntryPhr1Oct, lcidSingleEntryPhr, lcidCRnti, lcidSTruncatedBsr, lcidSBsr]

instance (lcid : ℕ) : Decidable (Known lcid) := by unfold Known; infer_instance

/-- `nr_process_mac_pdu` looks at nothing behind the subPDU: it is padding or not known, an SDU of
zeros, an SDU on an SRB without a cell group, a PHR without a HARQ process or a C-RNTI without a
random access procedure. -/
def ProcessEnds (env : PduEnv) (rest : List UInt8) : Prop :=
  ¬ Known (lcidOf rest) ∨ (lcidOf rest = lcidCcch64Bits ∧ (rest.take 9).all (· = 0) = true) ∨
    (IsData (lcidOf rest) ∧ lcidOf rest < lcidDtch ∧ env.cellGroup = false) ∨
    (lcidOf rest = lcidSingleEntryPhr ∧ env.harqPid < 0) ∨
    (lcidOf rest = lcidCRnti ∧ env.raIdle = true)

instance (env : PduEnv) : DecidablePred (ProcessEnds env) := fun rest => by
  unfold ProcessEnds
  infer_instance

/-- `lcid_crnti_lookahead` looks at nothing behind the subPDU. -/
def LookaheadEnds (rest : List UInt8) : Prop :=
  lcidOf rest = lcidCRnti ∨ lcidOf rest = lcidPadding

instance : DecidablePred LookaheadEnds := fun rest => by unfold LookaheadEnds; infer_instance

/-- The MAC CEs behind which `nr_process_mac_pdu` always goes on. -/
def passedCes : List ℕ :=
  [lcidRecommendedBitrateQuery, lcidMultiEntryPhr4Oct, lcidConfiguredGrantConfirmation,
    lcidMultiEntryPhr1Oct, lcidSTruncatedBsr, lcidSBsr, lcidLTruncatedBsr, lcidLBsr]

theorem not_processEnds (h : lcidOf rest ∈ passedCes) : ¬ ProcessEnds env rest := by
  have hall : ∀ lcid ∈ passedCes, Known lcid ∧ lcid ≠ lcidCcch64Bits ∧ ¬ IsData lcid ∧
      lcid ≠ lcidSingleEntryPhr ∧ lcid ≠ lcidCRnti := by decide
  simp [ProcessEnds, hall _ h]

theorem dispatch_safe (env : PduEnv) (hs : AtRest pdu s) (hne : s.rest ≠ [])
    (hfits : subPduLen s.rest ≤ s.rest.length) (hc : LongBsrComplete s.rest) :
    DispatchSafe pdu (ProcessEnds env s.rest) (dispatch env s (headerOf s.rest)) := by
  have hlcid : (headerOf s.rest).lcid = lcidOf s.rest := rfl
  have hfixed := fun hnot => @fixed_header s.rest hnot hne
  unfold dispatch
  rw [hlcid]
  split
  next hccch =>
    refine ccchSdu_safe hs hfits ?_
    rw [hlcid]
    rcases hccch with h | h | h
    all_goals
      obtain ⟨h₁, h₂⟩ := hfixed (by rw [h]; decide)
      simp only [ProcessEnds, SubHeader.total, h₁, h₂, h]
      simp [Known, IsData, fixedLength, lcidCcch64Bits, lcidCcch48BitsRedcap, lcidCcch48Bits,
        lcidDtch, lcidSrb1, lcidSrb2, lcidSingleEntryPhr, lcidCRnti]
  split
  next hdata =>
    refine dataSdu_safe hs hfits ?_
    rw [hlcid]
    grind [ProcessEnds, Known, IsData, lcidCcch64Bits, lcidSrb1, lcidSrb2, lcidDtch,
      lcidSingleEntryPhr, lcidCRnti]
  split
  next hce =>
    refine .ok (not_processEnds ?_) fun _ hmem => absurd hmem List.not_mem_nil
    simp [passedCes]
    tauto
  split
  next hphr =>
    obtain ⟨h₁, h₂⟩ := hfixed (by rw [hphr]; decide)
    refine singleEntryPhr_safe hs ?_ hfits ?_
    · rw [h₂, hphr]
      rfl
    · simp [ProcessEnds, hphr, Known, IsData, lcidCcch64Bits, lcidSrb1, lcidSrb2, lcidDtch,
        lcidSingleEntryPhr, lcidCRnti]
  split
  next hcrnti =>
    split
    next hidle => exact .error (by simp [ProcessEnds, hcrnti, hidle]) inside_assert
    next hidle =>
      refine .ok ?_ fun _ hmem => absurd hmem List.not_mem_nil
      simp [ProcessEnds, hcrnti, hidle, Known, IsData, lcidCcch64Bits, lcidSrb1, lcidSrb2,
        lcidDtch, lcidSingleEntryPhr, lcidCRnti]
  split
  next hshort =>
    have hlen : (headerOf s.rest).macLen = 1 := by
      rcases hshort with hshort | hshort
      all_goals
        rw [(hfixed (by rw [hshort]; decide)).2, hshort]
        rfl
    have hfits : (headerOf s.rest).macSubheaderLen + 1 ≤ s.rest.length := hlen ▸ hfits
    obtain ⟨b, hb⟩ := readByte_ok
      (show (headerOf s.rest).macSubheaderLen < s.rest.length by omega)
    rw [hb, readRange_ok hfits]
    refine .ok (not_processEnds (by simp [passedCes]; tauto)) ?_
    intro c hmem
    rw [List.mem_singleton.mp hmem]
    exact hs.within hfits _
  split
  next hlong =>
    obtain ⟨n, hn, hest⟩ := (estimateUlBufferLongBsr_eq env hne hlong hfits).1 hc
    rw [hest]
    refine .ok (not_processEnds (by simp [passedCes]; tauto)) ?_
    intro c hmem
    rw [List.mem_singleton.mp hmem]
    exact hs.within hn _
  split
  next hpad =>
    refine .error (Or.inl ?_) (inside_ok 0)
    rw [hpad]
    decide
  · refine .error (Or.inl ?_) (inside_ok (-1))
    simp_all [Known]

theorem dispatch_outOfBounds (hne : s.rest ≠ []) (hfits : subPduLen s.rest ≤ s.rest.length)
    (hc : ¬ LongBsrComplete s.rest) :
    dispatch env s (headerOf s.rest) = .error (.error .outOfBounds) := by
  have hlong : IsLongBsr (lcidOf s.rest) := by
    by_contra hnot
    exact hc fun _ h => absurd h hnot
  have hest := (estimateUlBufferLongBsr_eq env hne hlong hfits).2 hc
  have hlcid : (headerOf s.rest).lcid = lcidOf s.rest := rfl
  rw [dispatch, hlcid, hest]
  rcases hlong with h | h
  all_goals
    rw [h]
    rfl

end Dispatch

/-- What is read of a subPDU is in the rest of the PDU. -/
def SubPduComplete (rest : List UInt8) : Prop := HeaderComplete rest ∧ LongBsrComplete rest

instance (rest : List UInt8) : Decidable (SubPduComplete rest) := by
  unfold SubPduComplete
  infer_instance

/-- The rest behind the subPDU, if there is a whole one and the parser does not end there. -/
def nextSubPdu (ends : List UInt8 → Prop) [DecidablePred ends] (rest : List UInt8) :
    Option (List UInt8) :=
  if rest = [] ∨ rest.length < subPduLen rest ∨ ends rest then none
  else some (rest.drop (subPduLen rest))

theorem nextSubPdu_some {ends : List UInt8 → Prop} [DecidablePred ends] {rest rest' : List UInt8}
    (h : nextSubPdu ends rest = some rest') : rest ≠ [] ∧ subPduLen rest ≤ rest.length ∧
      ¬ ends rest ∧ rest' = rest.drop (subPduLen rest) := by
  grind [nextSubPdu]

theorem nextSubPdu_decreases {ends : List UInt8 → Prop} [DecidablePred ends]
    {rest rest' : List UInt8} (h : nextSubPdu ends rest = some rest') :
    rest'.length < rest.length := by
  obtain ⟨hne, _, _, rfl⟩ := nextSubPdu_some h
  have hpos := List.length_pos_iff.mpr hne
  have hlen := @subPduLen_pos rest
  rw [List.length_drop]
  omega

variable {env : PduEnv}

/-- A good end of `nr_process_mac_pdu`: no read past the end, every part given to a function is one
of the PDU. -/
def Outcome.Safe (pdu : List UInt8) (o : Outcome) : Prop :=
  Inside o.result ∧ ∀ c ∈ o.calls, c.Within pdu

theorem processStep_follows (env : PduEnv) (pdu : List UInt8) :
    Follows (processStep env) ParseState.rest (AtRest pdu) (Outcome.Safe pdu) SubPduComplete
      (nextSubPdu (ProcessEnds env)) := by
  refine ⟨?_, ?_, ?_⟩
  · intro s hs hc hnext
    unfold processStep
    split
    · exact ⟨_, rfl, inside_ok 0, hs.calls⟩
    next hne =>
    rw [decode_eq hne hc.1]
    dsimp only
    split
    · rw [readRange_ok (by omega)]
      exact ⟨_, rfl, inside_ok 0, hs.calls⟩
    next hfits =>
    have hfits : subPduLen s.rest ≤ s.rest.length := not_lt.mp hfits
    have hends : ProcessEnds env s.rest := by grind [nextSubPdu]
    have hsafe := dispatch_safe env hs hne hfits hc.2
    obtain ⟨r, hr⟩ := hsafe.ends_iff.mpr hends
    rw [hr]
    exact ⟨_, rfl, hsafe.stop r hr, hs.calls⟩
  · intro s rest' hs hc hnext
    obtain ⟨hne, hfits, hgoes, rfl⟩ := nextSubPdu_some hnext
    have hsafe := dispatch_safe env hs hne hfits hc.2
    have htotal : (headerOf s.rest).total = subPduLen s.rest := rfl
    cases hd : dispatch env s (headerOf s.rest) with
    | error r => exact absurd (hsafe.ends_iff.mp ⟨r, hd⟩) hgoes
    | ok out =>
      refine ⟨⟨s.offset + subPduLen s.rest, s.rest.drop (subPduLen s.rest), out.1,
        s.calls ++ out.2⟩, ?_, rfl, ?_, ?_, ?_⟩
      · rw [processStep, if_neg hne, decode_eq hne hc.1]
        dsimp only
        rw [htotal, if_neg (not_lt.mpr hfits), hd]
      · have hoff := hs.offset
        rw [hs.rest, List.length_drop] at hfits
        show s.offset + subPduLen s.rest ≤ pdu.length
        rw [hs.rest]
        omega
      · show List.drop _ _ = pdu.drop _
        rw [hs.rest, List.drop_drop]
      · exact List.forall_mem_append.mpr ⟨hs.calls, hsafe.calls out.1 out.2 hd⟩
  · intro s hs hc
    have hne : s.rest ≠ [] := by
      rintro hnil
      exact hc ⟨Or.inl hnil, fun h => absurd hnil h⟩
    rw [processStep, if_neg hne]
    by_cases hheader : HeaderComplete s.rest
    · have hlong : ¬ LongBsrComplete s.rest := fun h => hc ⟨hheader, h⟩
      have hfits : subPduLen s.rest ≤ s.rest.length := by
        by_contra hnot
        exact hlong fun _ _ h => absurd h hnot
      rw [decode_eq hne hheader]
      dsimp only
      rw [if_neg (show ¬ (headerOf s.rest).total > s.rest.length from not_lt.mpr hfits),
        dispatch_outOfBounds hne hfits hlong]
      exact ⟨_, rfl, fun h => h.1.1 rfl⟩
    · rw [decode_error hheader]
      exact ⟨_, rfl, fun h => h.1.1 rfl⟩

theorem lookaheadStep_follows :
    Follows lookaheadStep id (fun _ => True) Inside HeaderComplete (nextSubPdu LookaheadEnds) := by
  refine ⟨?_, ?_, ?_⟩
  · intro rest _ hc hnext
    unfold lookaheadStep
    split
    · exact ⟨_, rfl, inside_ok 0⟩
    next hne =>
    rw [decode_eq hne hc]
    dsimp only
    split
    · rw [readRange_ok (by omega)]
      exact ⟨_, rfl, inside_ok 0⟩
    next hfits =>
    have hends : LookaheadEnds rest := by
      have hfits : subPduLen rest ≤ rest.length := not_lt.mp hfits
      grind [nextSubPdu]
    split
    next hcrnti =>
      obtain ⟨hsub, hlen⟩ := @fixed_header rest
        (by rw [show lcidOf rest = lcidCRnti from hcrnti]; decide) hne
      rw [show lcidOf rest = lcidCRnti from hcrnti] at hlen
      have hthree : 3 ≤ rest.length := by
        rw [SubHeader.total, hsub, hlen] at hfits
        exact not_lt.mp hfits
      obtain ⟨b₁, h₁⟩ := readByte_ok (show 1 < rest.length by omega)
      obtain ⟨b₂, h₂⟩ := readByte_ok (show 2 < rest.length by omega)
      rw [h₁, ok_bind, h₂, ok_bind]
      exact ⟨_, rfl, inside_ok _⟩
    next hcrnti =>
      rw [if_pos (show (headerOf rest).lcid = lcidPadding from hends.resolve_left hcrnti)]
      exact ⟨_, rfl, inside_ok 0⟩
  · intro rest rest' _ hc hnext
    rw [id_eq] at hc hnext
    obtain ⟨hne, hfits, hgoes, rfl⟩ := nextSubPdu_some hnext
    rw [LookaheadEnds, not_or] at hgoes
    refine ⟨_, ?_, rfl, trivial⟩
    rw [lookaheadStep, if_neg hne, decode_eq hne hc]
    dsimp only
    rw [if_neg (show ¬ (headerOf rest).total > rest.length from not_lt.mpr hfits),
      if_neg (show ¬ (headerOf rest).lcid = lcidCRnti from hgoes.1),
      if_neg (show ¬ (headerOf rest).lcid = lcidPadding from hgoes.2)]
    rfl
  · intro rest _ hc
    rw [id_eq] at hc
    rw [lookaheadStep, if_neg fun hnil => hc (Or.inl hnil), decode_error hc]
    exact ⟨_, rfl, fun h => h.1 rfl⟩

/-- **When the parsers are memory safe.**  They return, they read no byte past the end of the PDU,
and what they give to RLC and to the handlers of MAC CEs is a part of the PDU, exactly if the
subPDUs, up to the one at which the parser ends or that is longer than the rest, have their
subheaders in the PDU and the long BSRs their octets. -/
theorem parsers_memorySafe (env : PduEnv) (ue : UlUe) {pdu : List UInt8} (hne : pdu ≠ []) :
    (Inside (lcidCrntiLookahead pdu) ∧ Inside (nrProcessMacPdu env ue pdu).result ∧
      ∀ c ∈ (nrProcessMacPdu env ue pdu).calls, c.Within pdu) ↔
    Throughout HeaderComplete (nextSubPdu LookaheadEnds) pdu ∧
      Throughout SubPduComplete (nextSubPdu (ProcessEnds env)) pdu := by
  obtain ⟨b, hb⟩ := readByte_ok (List.length_pos_iff.mpr hne)
  have hlookahead := lookaheadStep_follows.iterate_iff List.length
    (fun _ _ => nextSubPdu_decreases) (s := pdu) trivial (Nat.lt_succ_self _)
  have hprocess := (processStep_follows env pdu).iterate_iff List.length
    (fun _ _ => nextSubPdu_decreases) (s := ⟨0, pdu, ue, []⟩)
    ⟨Nat.zero_le _, rfl, List.forall_mem_nil _⟩ (Nat.lt_succ_self _)
  refine and_congr (Iff.trans ?_ hlookahead) (Iff.trans ?_ hprocess)
  · unfold lcidCrntiLookahead
    rw [id_eq, Nat.succ_eq_add_one]
    cases iterate lookaheadStep (pdu.length + 1) pdu with
    | none => simp [Inside]
    | some r => simp
  · rw [nrProcessMacPdu, hb]
    dsimp only
    cases iterate (processStep env) (pdu.length + 1) ⟨0, pdu, ue, []⟩ with
    | none => simp [Inside]
    | some o => simp [Outcome.Safe]

/-- A UE without radio bearers of its own, for fixed inputs. -/
def plainEnv : PduEnv :=
  { cellGroup := true
    lcConfig := fun _ => some false
    prepareInitialUlRrcMessage := fun _ => true
    harqPid := 0
    raIdle := false
    computePhFactor := 0
    getShortBsrValue := fun i => i
    getLongBsrValue := fun i => i }

/-- A UE with empty buffers. -/
def plainUe : UlUe := ⟨false, 0, 0, 0, 0, 0, 0⟩

/-- An SDU of two bytes on SRB1, a long BSR of one octet, padding. -/
theorem parsers_memorySafe_longBsr :
    Inside (lcidCrntiLookahead [0x01, 2, 0xaa, 0xbb, 0x3e, 2, 0x01, 7, 0x3f, 0]) ∧
      Inside (nrProcessMacPdu plainEnv plainUe
        [0x01, 2, 0xaa, 0xbb, 0x3e, 2, 0x01, 7, 0x3f, 0]).result ∧
      ∀ c ∈ (nrProcessMacPdu plainEnv plainUe
        [0x01, 2, 0xaa, 0xbb, 0x3e, 2, 0x01, 7, 0x3f, 0]).calls,
        c.Within [0x01, 2, 0xaa, 0xbb, 0x3e, 2, 0x01, 7, 0x3f, 0] := by
  refine (parsers_memorySafe plainEnv plainUe (by decide)).mpr ⟨?_, ?_⟩
  · exact throughout_of_check 4 (by decide +kernel)
  · exact throughout_of_check 4 (by decide +kernel)

/-- **A subheader is read past the end of the PDU.**  The PDU is the first byte of a subPDU on
SRB1. -/
theorem not_parsers_memorySafe :
    ¬ ∀ (env : PduEnv) (ue : UlUe) (pdu : List UInt8), pdu ≠ [] →
      Inside (lcidCrntiLookahead pdu) ∧ Inside (nrProcessMacPdu env ue pdu).result ∧
        ∀ c ∈ (nrProcessMacPdu env ue pdu).calls, c.Within pdu := by
  intro hall
  exact (hall plainEnv plainUe [0x01] (by decide)).2.1.1 rfl

end OaiGnb.Mac.UlPdu
